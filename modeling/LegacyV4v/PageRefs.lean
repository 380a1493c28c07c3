import LegacyV4v.TableEffects

/-! # Are page references given back?

A registered ring holds a general and a writable-type reference on each page of its list.
They are taken one page at a time in `v4v_find_ring_mfns` and given back in its failure
exit, in `v4v_ring_remove_mfns` before a re-registration and behind an unregistration, and in
`v4v_destroy`.  Three things go wrong.  A page of the wrong type is refused with the reference
of `get_page_from_gfn` still held, a page whose number is `INVALID_MFN` is refused without
giving back anything, and page 0 is skipped wherever a list is given back.  In a run in which
none of this happens the references on a page are the occurrences of the page in the lists of
the registered rings. -/
namespace V4v
open ChainedHash GuardedRun

instance : Fintype DomId :=
  Fintype.ofEquiv (Fin UInt16.size) ⟨UInt16.ofFin, UInt16.toFin, fun _ => rfl, fun _ => rfl⟩

/-! ## What the references should be -/

/-- The pages a ring lists. -/
def RingInfo.pages (r : RingInfo) : List Nat := r.mfns.getD []

/-- How often the rings of a table list a page. -/
def RingTable.listed (t : RingTable) (mfn : Nat) : Int :=
  total (fun r => (r.pages.count mfn : Int)) t

/-- How often the registered rings of all domains list a page. -/
def Hyp.listed (s : Hyp) (mfn : Nat) : Int :=
  ∑ d : DomId, (s.v4v d).elim 0 fun t => t.listed mfn

/-- Both kinds of references are as `f` says. -/
structure Hyp.Refs (s : Hyp) (f : Nat → Int) : Prop where
  page : s.pageRefs = f
  type : s.typeRefs = f

/-- **The balance**: a page has as many references of either kind as the registered rings
list it. -/
def Hyp.Balanced (s : Hyp) : Prop := s.Refs s.listed

/-- No reference is taken or given back. -/
def Hyp.SameRefs (s s' : Hyp) : Prop := s'.pageRefs = s.pageRefs ∧ s'.typeRefs = s.typeRefs

section
variable {s s' : Hyp} {f : Nat → Int} {d : DomId} {t : RingTable} {mfn : Nat}

theorem Hyp.SameRefs.refl (s : Hyp) : s.SameRefs s := ⟨rfl, rfl⟩

theorem Hyp.SameRefs.trans {s'' : Hyp} (h : s.SameRefs s') (h' : s'.SameRefs s'') :
    s.SameRefs s'' :=
  ⟨h'.1.trans h.1, h'.2.trans h.2⟩

theorem Hyp.Refs.congr (h : s.Refs f) (hs : s.SameRefs s') : s'.Refs f :=
  ⟨hs.1.trans h.page, hs.2.trans h.type⟩

theorem Hyp.listed_congr (h : ∀ d, s'.v4v d = s.v4v d) : s'.listed = s.listed := by
  funext mfn
  unfold Hyp.listed
  simp only [h]

/-- Assigning one table. -/
theorem Hyp.listed_assigned {o : Option RingTable}
    (h : ∀ e, s'.v4v e = if e = d then o else s.v4v e) (mfn : Nat) :
    s'.listed mfn = s.listed mfn - ((s.v4v d).elim 0 fun t => t.listed mfn) +
      o.elim 0 fun t => t.listed mfn := by
  have hother : ∀ e, e ≠ d → ((s'.v4v e).elim 0 fun t => t.listed mfn) =
      (s.v4v e).elim 0 fun t => t.listed mfn := by
    intro e he
    rw [h, if_neg he]
  rw [Hyp.listed, sum_eq_of_ne d hother, h, if_pos rfl]
  rfl

/-- Changing one ring. -/
theorem Hyp.Updates.listed {r r' : RingInfo} (h : s.Updates s' d r r') (mfn : Nat) :
    s'.listed mfn = s.listed mfn - r.pages.count mfn + r'.pages.count mfn := by
  obtain ⟨t, ht, hr, hdom⟩ := h.table
  have hfind : ringFindInfo t r'.id = some r := by rw [h.id_eq]; exact hr
  have htotal : RingTable.listed (replace RingInfo.id hashFn t r') mfn =
      t.listed mfn - r.pages.count mfn + r'.pages.count mfn := total_replace hfind
  rw [Hyp.listed_assigned (Hyp.v4v_assigned ht hdom), ht, Option.elim_some, Option.elim_some,
    htotal]
  omega

theorem Hyp.PendingOnly.listed (h : s.PendingOnly s') : s'.listed = s.listed := by
  -- the lists can be read off the tables without their pending lists
  have hunpend : ∀ (o : Option RingTable) (mfn : Nat), (o.elim 0 fun t => t.listed mfn) =
      (o.map (mapEntries RingInfo.unpend)).elim 0 fun t => RingTable.listed t mfn := by
    intro o mfn
    cases o with
    | none => rfl
    | some t =>
      have hpages : ∀ r : RingInfo, (r.unpend.pages.count mfn : Int) = r.pages.count mfn :=
        fun _ => rfl
      exact (total_mapEntries hpages).symm
  funext mfn
  unfold Hyp.listed
  refine Finset.sum_congr rfl fun e _ => ?_
  rw [hunpend, h e, ← hunpend]

/-! ## Giving a list back -/

theorem Hyp.putPage_getPage (s : Hyp) (mfn : Nat) : (s.getPage mfn).putPage mfn = s := by
  have hrefs : ((s.getPage mfn).putPage mfn).pageRefs = s.pageRefs := by
    funext k
    simp only [Hyp.putPage, Hyp.getPage]
    split <;> omega
  exact congrArg (fun p => { s with pageRefs := p }) hrefs

/-- Taking a page. -/
theorem Hyp.Refs.get {mfns : List Nat} (h : s.Refs fun k => f k + mfns.count k) :
    ((s.getPage mfn).getPageType mfn).Refs fun k => f k + (mfns ++ [mfn]).count k := by
  have hcount : ∀ k, (((mfns ++ [mfn]).count k : Nat) : Int) =
      mfns.count k + if k = mfn then 1 else 0 := by
    intro k
    by_cases hk : k = mfn
    · simp [hk]
    · simp [hk, Ne.symm hk]
  constructor
  · funext k
    simp only [Hyp.getPage, Hyp.getPageType, h.page, hcount]
    split <;> omega
  · funext k
    simp only [Hyp.getPage, Hyp.getPageType, h.type, hcount]
    split <;> omega

/-- A list without page 0 is given back as a whole. -/
theorem Hyp.Refs.put {mfns : List Nat} (h : s.Refs fun k => f k + mfns.count k)
    (hzero : 0 ∉ mfns) : (s.putPagesAndTypes mfns).Refs f := by
  induction mfns generalizing f with
  | nil => simpa [Hyp.putPagesAndTypes] using h
  | cons mfn l ih =>
    have hcount : ∀ k, (((mfn :: l).count k : Nat) : Int) =
        (if k = mfn then 1 else 0) + l.count k := by
      intro k
      by_cases hk : k = mfn
      · simp [hk, Int.add_comm]
      · simp [hk, Ne.symm hk]
    have hrest := ih (f := fun k => f k + if k = mfn then 1 else 0)
      (by simpa only [hcount, Int.add_assoc] using h) fun hmem =>
        hzero (List.mem_cons_of_mem _ hmem)
    have hne : mfn ≠ 0 := fun heq => hzero (heq ▸ List.mem_cons_self)
    rw [Hyp.putPagesAndTypes, if_pos hne]
    constructor
    · funext k
      simp only [Hyp.putPage, Hyp.putPageType, hrest.page]
      split <;> omega
    · funext k
      simp only [Hyp.putPage, Hyp.putPageType, hrest.type]
      split <;> omega

theorem ringRemoveMfns_refs {r : RingInfo} (h : s.Refs fun k => f k + r.pages.count k)
    (hzero : 0 ∉ r.pages) : (ringRemoveMfns s r).Refs f := by
  unfold RingInfo.pages at h hzero
  rw [ringRemoveMfns]
  split
  · rename_i hmfns
    rw [hmfns] at h
    simpa using h
  · rename_i mfns hmfns
    rw [hmfns] at h hzero
    exact h.put hzero

/-! ## Taking a list -/

/-- The entry is refused without a reference on its page being kept. -/
def PfnRead.Dropped : PfnRead → Prop
  | .page _ valid _ => valid = false
  | _ => True

/-- If the search stops at `x` behind the pages `taken`, it keeps nothing of `x`, and page 0,
which would not be given back, is not among `taken`. -/
def Recovers (l : List PfnRead) : Prop :=
  ∀ taken x rest, l = taken ++ x :: rest → (∀ y ∈ taken, y.Usable) → ¬ x.Usable →
    x.Dropped ∧ ∀ valid writable, .page 0 valid writable ∉ taken

/-- **A search for pages adds references on the pages it hands over**, and none if it
fails. -/
theorem mfnLoop_refs {l : List PfnRead} {mfns : List Nat}
    (h : s.Refs fun k => f k + mfns.count k)
    (hrec : ∀ taken x rest, l = taken ++ x :: rest → (∀ y ∈ taken, y.Usable) → ¬ x.Usable →
      x.Dropped ∧ 0 ∉ mfns ∧ ∀ valid writable, .page 0 valid writable ∉ taken) :
    (mfnLoop s l mfns).2.2.Refs fun k => f k +
      (if (mfnLoop s l mfns).1 = 0 then (mfnLoop s l mfns).2.1 else []).count k := by
  induction l generalizing s mfns with
  | nil => simpa [mfnLoop] using h
  | cons x l ih =>
    -- where the loop stops at `x`, the pages so far are given back
    have hstop : ¬ x.Usable → x.Dropped ∧ (s.putPagesAndTypes mfns).Refs f := by
      intro hx
      obtain ⟨hdrop, hzero, _⟩ := hrec [] x l rfl (fun y hy => absurd hy List.not_mem_nil) hx
      exact ⟨hdrop, h.put hzero⟩
    cases x with
    | unreadable => simpa [mfnLoop, efault] using (hstop id).2
    | noPage => simpa [mfnLoop, einval] using (hstop id).2
    | page mfn valid writable =>
      rw [mfnLoop]
      by_cases hvalid : valid = false
      · have hput := (hstop fun hu => absurd hu.1 (by simp [hvalid])).2
        simpa [hvalid, einval, Hyp.putPage_getPage] using hput
      · -- a page that is refused from here on is not dropped
        have husable : (PfnRead.page mfn valid writable).Usable := by
          by_contra hx
          exact hvalid (hstop hx).1
        obtain ⟨hv, hw, hmfn⟩ := husable
        simp only [hv, hw, hmfn, Bool.not_true, Bool.false_eq_true, if_false]
        refine ih h.get ?_
        intro taken x rest heq htaken hx
        have hall : ∀ y ∈ PfnRead.page mfn valid writable :: taken, y.Usable := by
          intro y hy
          rcases List.mem_cons.mp hy with rfl | hy
          · exact ⟨hv, hw, hmfn⟩
          · exact htaken y hy
        obtain ⟨hdrop, hzero, hpage⟩ := hrec (.page mfn valid writable :: taken) x rest
          (by rw [heq, List.cons_append]) hall hx
        refine ⟨hdrop, ?_, fun v w hmem => hpage v w (List.mem_cons_of_mem _ hmem)⟩
        intro hmem
        rcases List.mem_append.mp hmem with hmem | hmem
        · exact hzero hmem
        · rw [List.mem_singleton] at hmem
          subst hmem
          exact hpage valid writable List.mem_cons_self

/-- If the search for the pages of a ring of `len` bytes gets to the list, it recovers. -/
def RegisterArgs.Recovers (a : RegisterArgs) (len : UInt32) : Prop :=
  ∀ pfnList, a.pfnList = some pfnList → pfnList.magic = pfnListMagic →
    ¬ pfnList.npage <<< 12 < len → a.mfnsAlloc = true → a.mappingAlloc = true →
    V4v.Recovers ((List.range pfnList.npage.toNat).map a.pfn)

/-- The pages a search hands over. -/
def handedOver (p : Int × Option (UInt32 × List Nat) × Hyp) : List Nat :=
  p.2.1.elim [] Prod.snd

theorem findRingMfns_refs {len : UInt32} {a : RegisterArgs} (h : s.Refs f)
    (hrec : a.Recovers len) : (findRingMfns s len a).2.2.Refs fun k =>
      f k + (handedOver (findRingMfns s len a)).count k := by
  have hnone : s.Refs fun k => f k + ([] : List Nat).count k := by simpa using h
  unfold findRingMfns
  split
  · exact hnone
  · rename_i pfnList hlist
    split
    · exact hnone
    · rename_i hmagic
      split
      · exact hnone
      · rename_i hcover
        split
        · exact hnone
        · rename_i halloc
          split
          · exact hnone
          · rename_i halloc'
            have hloop := mfnLoop_refs hnone fun taken x rest heq htaken hx =>
              have hx := hrec pfnList hlist (not_ne_iff.mp hmagic) hcover (by simpa using halloc)
                (by simpa using halloc') taken x rest heq htaken hx
              ⟨hx.1, List.not_mem_nil, hx.2⟩
            unfold handedOver
            dsimp only
            split
            · rename_i hret
              rw [if_pos hret] at hloop
              exact hloop
            · rename_i hret
              rw [if_neg hret] at hloop
              exact hloop

/-! ## Registration -/

theorem Hyp.Balanced.of_listed (h : s.Balanced) (hlisted : s'.listed = s.listed)
    (hs : s.SameRefs s') : s'.Balanced := by
  unfold Hyp.Balanced
  rw [hlisted]
  exact Hyp.Refs.congr h hs

theorem Hyp.Balanced.congr (h : s.Balanced) (hv : ∀ d, s'.v4v d = s.v4v d)
    (hs : s.SameRefs s') : s'.Balanced :=
  h.of_listed (Hyp.listed_congr hv) hs

theorem Hyp.Balanced.acquire (h : s.Balanced) (l : Lock) : (s.acquire l).Balanced :=
  h.congr (fun _ => rfl) ⟨rfl, rfl⟩

theorem Hyp.Balanced.release (h : s.Balanced) (l : Lock) : (s.release l).Balanced :=
  h.congr (fun _ => rfl) ⟨rfl, rfl⟩

/-- References and lists that change together stay balanced. -/
theorem Hyp.Balanced.assign {g : Nat → Int} {o : Option RingTable} (hrefs : s'.Refs g)
    (hv : ∀ e, s'.v4v e = if e = d then o else s.v4v e)
    (hg : ∀ mfn, g mfn = s.listed mfn - ((s.v4v d).elim 0 fun t => t.listed mfn) +
      o.elim 0 fun t => t.listed mfn) : s'.Balanced := by
  have hlisted : s'.listed = g := by
    funext mfn
    rw [Hyp.listed_assigned hv, hg]
  unfold Hyp.Balanced
  rwa [hlisted]

/-- The same with the change of the one table. -/
theorem Hyp.Balanced.assignTable {g change : Nat → Int} {t' : RingTable}
    (ht : s.v4v d = some t) (hdom : s'.domains = (s.setV4v d (some t')).domains)
    (hrefs : s'.Refs g) (htable : ∀ mfn, t'.listed mfn = t.listed mfn + change mfn)
    (hg : ∀ mfn, g mfn = s.listed mfn + change mfn) : s'.Balanced := by
  refine Hyp.Balanced.assign hrefs (Hyp.v4v_assigned ht hdom) fun mfn => ?_
  rw [ht, Option.elim_some, Option.elim_some, htable, hg]
  omega

section
variable {a : RegisterArgs} {ring : RingHeader}

theorem registerNew_balanced (h : s.Balanced) (ht : s.v4v d = some t)
    (hrec : a.ringInfoAlloc = true → a.Recovers ring.len) :
    (registerNew s d t ring a).2.Balanced := by
  unfold registerNew
  split
  · exact h
  · rename_i halloc
    obtain ⟨hdom, _⟩ := findRingMfns_locked s ring.id ring.len a
    have h₁ : (s.acquire (.l3 ring.id)).Refs s.listed := ⟨h.page, h.type⟩
    have hrefs := findRingMfns_refs h₁ (hrec (by simpa using halloc))
    dsimp only
    cases hfound : (findRingMfns (s.acquire (.l3 ring.id)) ring.len a).2.1 with
    | none =>
      simp only [handedOver, hfound, Option.elim_none, List.count_nil, Int.natCast_zero,
        Int.add_zero] at hrefs
      exact h.congr (Hyp.v4v_congr hdom) ⟨hrefs.page.trans h.page.symm,
        hrefs.type.trans h.type.symm⟩
    | some p =>
      obtain ⟨npage, mfns⟩ := p
      simp only [handedOver, hfound, Option.elim_some] at hrefs
      exact Hyp.Balanced.assignTable ht (Hyp.setV4v_congr hdom d _) ⟨hrefs.page, hrefs.type⟩
        (fun mfn => total_insert) fun mfn => rfl

theorem registerAgain_balanced {r : RingInfo} (h : s.Balanced) (ht : s.v4v d = some t)
    (hfind : ringFindInfo t ring.id = some r) (hzero : 0 ∉ r.pages) (hrec : a.Recovers ring.len) :
    (registerAgain s d t ring r a).2.Balanced := by
  obtain ⟨hdom₁, _⟩ := ringRemoveMfns_frame s r
  obtain ⟨hdom₂, _⟩ := findRingMfns_locked (ringRemoveMfns s r) ring.id ring.len a
  have hdom := hdom₂.trans hdom₁
  -- without the old pages
  have hput : (ringRemoveMfns s r).Refs fun k => s.listed k - r.pages.count k := by
    refine ringRemoveMfns_refs ?_ hzero
    simp only [Int.sub_add_cancel]
    exact h
  have hremoved : ((ringRemoveMfns s r).acquire (.l3 ring.id)).Refs
      fun k => s.listed k - r.pages.count k := ⟨hput.page, hput.type⟩
  have hrefs := findRingMfns_refs hremoved hrec
  have htotal : ∀ r' : RingInfo, r'.id = ring.id → ∀ mfn,
      RingTable.listed (replace RingInfo.id hashFn t r') mfn =
        t.listed mfn + (r'.pages.count mfn - r.pages.count mfn) := by
    intro r' hid mfn
    have hreplace : RingTable.listed (replace RingInfo.id hashFn t r') mfn =
        t.listed mfn - r.pages.count mfn + r'.pages.count mfn :=
      total_replace (by rw [hid]; exact hfind)
    omega
  unfold registerAgain
  dsimp only
  cases hfound : (findRingMfns ((ringRemoveMfns s r).acquire (.l3 ring.id)) ring.len a).2.1 with
  | none =>
    simp only [handedOver, hfound, Option.elim_none] at hrefs
    refine Hyp.Balanced.assignTable ht (Hyp.setV4v_congr hdom d _) ⟨hrefs.page, hrefs.type⟩
      (htotal _ rfl) fun mfn => ?_
    simp only [RingInfo.pages, Option.getD_none, List.count_nil]
    omega
  | some p =>
    obtain ⟨npage, mfns⟩ := p
    simp only [handedOver, hfound, Option.elim_some] at hrefs
    refine Hyp.Balanced.assignTable ht (Hyp.setV4v_congr hdom d _) ⟨hrefs.page, hrefs.type⟩
      (htotal _ rfl) fun mfn => ?_
    simp only [RingInfo.pages, Option.getD_some]
    omega

/-- The call gives up no list with page 0 in it, and its search for pages recovers. -/
def RegisterArgs.GivesBack (a : RegisterArgs) (s : Hyp) (d : DomId) : Prop :=
  a.pageAligned = true → ∀ t ring, s.v4v d = some t → a.header d = .ok ring →
    (ringFindInfo t ring.id = none → a.ringInfoAlloc = true → a.Recovers ring.len) ∧
    ∀ r, ringFindInfo t ring.id = some r → 0 ∉ r.pages ∧ a.Recovers ring.len

theorem ringAdd_balanced (h : s.Balanced) (hgive : a.GivesBack s d) :
    (ringAdd s d a).2.Balanced := by
  unfold ringAdd
  split
  · exact h
  · rename_i halign
    dsimp only
    apply Hyp.Balanced.release
    have h₁ := h.acquire .l1Read
    cases ht : (s.acquire .l1Read).v4v d with
    | none => exact h₁
    | some t =>
      dsimp only
      cases hring : a.header d with
      | error e => exact h₁
      | ok ring =>
        dsimp only
        obtain ⟨hnew, hagain⟩ := hgive (by simpa using halign) t ring ht hring
        have h₂ := h₁.acquire (.l2Read d)
        cases hfind : ringFindInfo t ring.id with
        | none => exact registerNew_balanced (h₂.release _) ht (hnew hfind)
        | some r =>
          obtain ⟨hzero, hrec⟩ := hagain r hfind
          exact registerAgain_balanced h₂ ht hfind hzero hrec

/-! ## Removal -/

/-- The ring the call names does not list page 0. -/
def UnregisterArgs.GivesBack (a : UnregisterArgs) (s : Hyp) (d : DomId) : Prop :=
  ∀ t ring r, s.v4v d = some t → a.ring = some ring → ring.magic = ringMagic →
    ringFindInfo t ⟨⟨ring.id.addr.port, d⟩, ring.id.partner⟩ = some r → 0 ∉ r.pages

theorem ringRemoveInfo_balanced {r : RingInfo} (h : s.Balanced) (ht : s.v4v d = some t)
    (hfind : ringFindInfo t r.id = some r) (hzero : 0 ∉ r.pages) :
    (ringRemoveInfo s d t r).Balanced := by
  have hset : (s.setV4v d (some (erase RingInfo.id hashFn t r.id))).Refs
      fun k => s.listed k - r.pages.count k + r.pages.count k := by
    simp only [Int.sub_add_cancel]
    exact ⟨h.page, h.type⟩
  have htotal : ∀ mfn, RingTable.listed (erase RingInfo.id hashFn t r.id) mfn =
      t.listed mfn + -r.pages.count mfn := fun mfn => total_erase hfind
  exact Hyp.Balanced.assignTable ht (ringRemoveMfns_frame _ r).1 (ringRemoveMfns_refs hset hzero)
    htotal fun mfn => rfl

theorem ringRemove_balanced {a : UnregisterArgs} (h : s.Balanced) (hgive : a.GivesBack s d) :
    (ringRemove s d a).2.Balanced := by
  unfold ringRemove
  dsimp only
  apply Hyp.Balanced.release
  have h₁ := h.acquire .l1Read
  cases ht : (s.acquire .l1Read).v4v d with
  | none => exact h₁
  | some t =>
    dsimp only
    cases hring : a.ring with
    | none => exact h₁
    | some ring =>
      dsimp only
      split
      · exact h₁
      · rename_i hmagic
        have h₂ := h₁.acquire (.l2Write d)
        cases hfind : ringFindInfo t ⟨⟨ring.id.addr.port, d⟩, ring.id.partner⟩ with
        | none => exact h₂.release _
        | some r =>
          have hzero := hgive t ring r ht hring (not_ne_iff.mp hmagic) hfind
          have hr : ringFindInfo t r.id = some r := by rw [ringFindInfo_id hfind]; exact hfind
          exact (ringRemoveInfo_balanced h₂ ht hr hzero).release _

/-! ## The operations that do not touch pages -/

theorem notify_sameRefs {data : Option RingData} {p : Int × List UInt16 × Hyp}
    (h : notify s d data = some p) : s.SameRefs p.2.2 :=
  ⟨(notify_frame h).2.pageRefs, (notify_frame h).2.typeRefs⟩

theorem signal_if_sameRefs {c : Prop} [Decidable c] :
    s.SameRefs (if c then s.signalDomain d else s) := by
  split <;> exact ⟨rfl, rfl⟩

theorem sendWith_sameRefs {src dst : Addr} {env : SendEnv} {len : UInt32}
    {insert : RingInfo → Option InsertOut} {out : SendOut}
    (h : sendWith s d src dst env len insert = some out) : s.SameRefs out.state := by
  cases sendWith_cases h with
  | noSender | noDomain | refused | noRing => exact ⟨rfl, rfl⟩
  | inserted => exact signal_if_sameRefs

/-- A send keeps the lists, whatever its insertion comes to. -/
theorem SendEffect.listed {src dst : Addr} {env : SendEnv}
    {insert : RingInfo → Option InsertOut} {out : SendOut}
    (h : SendEffect s d src dst env insert out)
    (hmfns : ∀ r o, insert r = some o → o.ring.mfns = r.mfns) : out.state.listed = s.listed := by
  cases h with
  | unreached _ _ _ _ hdom => exact Hyp.listed_congr (Hyp.v4v_congr hdom)
  | refused _ _ _ hdom => exact Hyp.listed_congr (Hyp.v4v_congr hdom)
  | @reached t r o pending _ _ _ _ ho _ _ hup =>
    funext mfn
    have hpages : RingInfo.pages { o.ring with pending := pending } = r.pages := by
      simp only [RingInfo.pages, hmfns r o ho]
    rw [hup.listed, hpages]
    omega

end

/-! ## Domains -/

theorem removeRings_refs {l : List RingInfo}
    (h : s.Refs fun k => f k + (l.map fun r => (r.pages.count k : Int)).sum)
    (hzero : ∀ r ∈ l, 0 ∉ r.pages) : (l.foldl ringRemoveMfns s).Refs f := by
  induction l generalizing s with
  | nil => simpa using h
  | cons r l ih =>
    refine ih (ringRemoveMfns_refs ?_ (hzero r List.mem_cons_self)) fun r' hr' =>
      hzero r' (List.mem_cons_of_mem _ hr')
    have hsum : (fun k => f k + ((r :: l).map fun r => (r.pages.count k : Int)).sum) =
        fun k => f k + (l.map fun r => (r.pages.count k : Int)).sum + r.pages.count k := by
      funext k
      rw [List.map_cons, List.sum_cons]
      omega
    rwa [hsum] at h

theorem killDomain_balanced (h : s.Balanced) (hzero : ∀ t, s.v4v d = some t →
    ∀ r, Mem t r → 0 ∉ r.pages) (hkill : killDomain s d = some s') : s'.Balanced := by
  refine Hyp.Balanced.assign (g := fun k => s.listed k -
    (s.v4v d).elim 0 fun t => t.listed k) ?_ (killDomain_v4v hkill) fun mfn => by simp
  unfold killDomain at hkill
  split at hkill
  · cases hkill
  · rename_i dom hdom
    unfold destroy at hkill
    dsimp only at hkill
    rw [Function.update_self] at hkill
    dsimp only [Bool.not_true] at hkill
    rw [if_neg (by decide)] at hkill
    obtain rfl := Option.some.inj hkill
    have htable := Hyp.v4v_of_domains hdom
    rw [htable]
    cases ht : dom.v4v with
    | none =>
      simp only [Option.elim_none, Int.sub_zero]
      exact ⟨h.page, h.type⟩
    | some t =>
      have hall : ∀ r ∈ t.rings, 0 ∉ r.pages := by
        intro r hr
        obtain ⟨i, _, hi⟩ := List.mem_flatMap.mp hr
        exact hzero t (htable.trans ht) r ⟨i, hi⟩
      have hsum : ∀ k, t.listed k = (t.rings.map fun r => (r.pages.count k : Int)).sum :=
        fun k => total_eq_sum_flatMap
      have hremove : ∀ s₁ : Hyp, s₁.Refs s.listed →
          (t.rings.foldl ringRemoveMfns s₁).Refs fun k => s.listed k - t.listed k := by
        intro s₁ hs₁
        refine removeRings_refs ?_ hall
        simp only [← hsum, Int.sub_add_cancel]
        exact hs₁
      constructor
      · exact (hremove _ (by exact ⟨h.page, h.type⟩)).page
      · exact (hremove _ (by exact ⟨h.page, h.type⟩)).type

theorem createDomain_sameRefs {priv alloc : Bool}
    (h : createDomain s d priv alloc = some s') : s.SameRefs s' := by
  unfold createDomain at h
  split at h
  · cases h
  · obtain rfl := Option.some.inj h
    cases alloc with
    | false => exact ⟨rfl, rfl⟩
    | true => exact ⟨rfl, rfl⟩

theorem createDomain_balanced {priv alloc : Bool} (h : s.Balanced)
    (hcreate : createDomain s d priv alloc = some s') : s'.Balanced := by
  have hrefs := createDomain_sameRefs hcreate
  rcases createDomain_v4v hcreate with hv | ⟨hnone, hv⟩
  · exact h.congr hv hrefs
  · refine Hyp.Balanced.assign (Hyp.Refs.congr h hrefs) hv fun mfn => ?_
    have hempty : RingTable.listed (fun _ => []) mfn = 0 := by simp [RingTable.listed, total]
    rw [hnone, Option.elim_none, Option.elim_some, hempty]
    omega

end

/-! ## Runs -/

/-- The action gives back every page reference it should: a registration keeps no reference
on a page it refuses, and no list with page 0 in it is given up. -/
def GivesBack (s : Hyp) : Act → Prop
  | .hypercall d (.registerRing a) =>
    a.ringOkay = true → a.pfnListOkay = true → a.GivesBack s d
  | .hypercall d (.unregisterRing a) => a.ringOkay = true → a.GivesBack s d
  | .kill d => ∀ t, s.v4v d = some t → ∀ r, Mem t r → 0 ∉ r.pages
  | _ => True

section
variable {s s' : Hyp} {d : DomId}

/-- Only registrations touch the counts. -/
theorem dispatch_sameRefs {priv : Bool} {op : V4vOp} {o : OpOut} (hreg : ¬ op.IsRegistration)
    (hop : dispatch s d priv op = some o) : s.SameRefs o.state := by
  cases op with
  | registerRing a => exact absurd trivial hreg
  | unregisterRing a => exact absurd trivial hreg
  | send a =>
    rcases dispatch_send hop with ⟨-, rfl⟩ | ⟨src, dst, out, -, hout, rfl⟩
    · exact .refl s
    · exact sendWith_sameRefs hout
  | sendv a =>
    rcases dispatch_sendv hop with ⟨-, rfl⟩ | ⟨src, dst, out, -, -, hout, rfl⟩
    · exact .refl s
    · exact sendWith_sameRefs hout
  | notify data =>
    obtain ⟨p, hp, rfl⟩ := Option.map_eq_some_iff.mp hop
    exact notify_sameRefs hp
  | viptablesAdd alloc rule position | viptablesDel alloc rule position =>
    rw [dispatch] at hop
    split at hop
    · obtain rfl := Option.some.inj hop
      exact .refl s
    · obtain ⟨p, _, rfl⟩ := Option.map_eq_some_iff.mp hop
      exact ⟨rfl, rfl⟩
  | viptablesList nbRules written =>
    rw [dispatch] at hop
    split at hop <;> obtain rfl := Option.some.inj hop <;> exact .refl s
  | other =>
    obtain rfl := Option.some.inj hop
    exact .refl s

theorem dispatch_balanced_other {priv : Bool} {op : V4vOp} {o : OpOut} (h : s.Balanced)
    (hreg : ¬ op.IsRegistration) (hop : dispatch s d priv op = some o) : o.state.Balanced := by
  have hsame := dispatch_sameRefs hreg hop
  cases dispatch_effect hop with
  | inert _ _ hdom => exact h.congr (Hyp.v4v_congr hdom) hsame
  | register => exact absurd trivial hreg
  | unregister => exact absurd trivial hreg
  | send _ hsend =>
    exact h.of_listed (hsend.listed fun r o ho => (insertWith_fields ho).2.2.2.1) hsame
  | sendv _ _ hsend =>
    exact h.of_listed (hsend.listed fun r o ho => (insertWith_fields ho).2.2.2.1) hsame
  | notify hframe => exact h.of_listed hframe.listed hsame

theorem dispatch_balanced {priv : Bool} {op : V4vOp} {o : OpOut} (h : s.Balanced)
    (hgive : GivesBack s (.hypercall d op)) (hop : dispatch s d priv op = some o) :
    o.state.Balanced := by
  cases op with
  | registerRing a =>
    rw [dispatch] at hop
    split at hop
    · obtain rfl := Option.some.inj hop
      exact h
    · next hokay =>
      obtain rfl := Option.some.inj hop
      obtain ⟨hring, hlist⟩ : a.ringOkay = true ∧ a.pfnListOkay = true := by simpa using hokay
      exact ringAdd_balanced h (hgive hring hlist)
  | unregisterRing a =>
    rw [dispatch] at hop
    split at hop
    · obtain rfl := Option.some.inj hop
      exact h
    · next hokay =>
      obtain rfl := Option.some.inj hop
      exact ringRemove_balanced h (hgive (by simpa using hokay))
  | _ => exact dispatch_balanced_other h id hop

/-- **One action that gives back what it should keeps the balance.** -/
theorem Hyp.Balanced.step {act : Act} {e : Event} (h : s.Balanced) (hgive : GivesBack s act)
    (hstep : s.step act = some (e, s')) : s'.Balanced := by
  cases act with
  | hypercall d op =>
    obtain ⟨priv, o, ho, -, rfl⟩ := Hyp.step_hypercall hstep
    have hgive' : GivesBack (s.acquire (.domainLock d)) (.hypercall d op) := by
      cases op <;> exact hgive
    exact (dispatch_balanced (h.acquire _) hgive' ho).release _
  | guestWrite id mem =>
    obtain ⟨s₁, hs₁, heq⟩ := Option.map_eq_some_iff.mp hstep
    obtain ⟨rfl, rfl⟩ := Prod.mk.inj heq
    obtain ⟨r, hup, _⟩ := guestWrite_updates hs₁
    have hrefs : s.SameRefs s₁ := by
      obtain ⟨t, _, hs₁⟩ := Option.bind_eq_some_iff.mp hs₁
      obtain ⟨r, _, rfl⟩ := Option.map_eq_some_iff.mp hs₁
      exact ⟨rfl, rfl⟩
    have hlisted : s₁.listed = s.listed := by
      funext mfn
      have hpages : RingInfo.pages { r with mem := mem } = r.pages := rfl
      rw [hup.listed, hpages]
      omega
    exact h.of_listed hlisted hrefs
  | create d priv alloc =>
    obtain ⟨s₁, hs₁, heq⟩ := Option.map_eq_some_iff.mp hstep
    obtain ⟨rfl, rfl⟩ := Prod.mk.inj heq
    exact createDomain_balanced h hs₁
  | kill d =>
    obtain ⟨s₁, hs₁, heq⟩ := Option.map_eq_some_iff.mp hstep
    obtain ⟨rfl, rfl⟩ := Prod.mk.inj heq
    exact killDomain_balanced h hgive hs₁

theorem boot_balanced : Hyp.boot.Balanced := by
  have hlisted : Hyp.boot.listed = fun _ => 0 := by
    funext mfn
    exact Finset.sum_eq_zero fun d _ => rfl
  unfold Hyp.Balanced
  rw [hlisted]
  exact ⟨rfl, rfl⟩

/-- **Page references are balanced** in every run whose actions give back what they should. -/
theorem page_references_balanced {es : List Event} (h : Hyp.Runs GivesBack es s) (mfn : Nat) :
    s.pageRefs mfn = s.listed mfn ∧ s.typeRefs mfn = s.listed mfn := by
  have hbalanced : s.Balanced :=
    Run.invariant h boot_balanced fun _ _ _ _ hP hok hstep => hP.step hok hstep
  exact ⟨congrFun hbalanced.page mfn, congrFun hbalanced.type mfn⟩

end

/-- A search that finds only pages it can take recovers: it never stops. -/
theorem recovers_of_usable {a : RegisterArgs} (h : ∀ i < 4294967296, (a.pfn i).Usable)
    (len : UInt32) : a.Recovers len := by
  intro pfnList _ _ _ _ _ taken x rest heq _ hx
  have hmem : x ∈ (List.range pfnList.npage.toNat).map a.pfn := by
    rw [heq]
    exact List.mem_append_right _ List.mem_cons_self
  obtain ⟨i, hi, rfl⟩ := List.mem_map.mp hmem
  have hlt := pfnList.npage.toNat_lt
  exact absurd (h i (by have := List.mem_range.mp hi; omega)) hx

/-- Domain 1 is created and registers a ring of one page. -/
def registersOne : List Act :=
  [.create 1 false true, .hypercall 1 (.registerRing (.smooth ⟨⟨5, 1⟩, 2⟩ 64 0 0 1))]

theorem page_references_one :
    (Hyp.after registersOne).pageRefs 1 = 1 ∧ (Hyp.after registersOne).listed 1 = 1 := by
  have hcreated : Hyp.Runs GivesBack [.created 1] (Hyp.after [.create 1 false true]) :=
    .next .start (show GivesBack Hyp.boot (.create 1 false true) from trivial) rfl
  have hgive : GivesBack (Hyp.after [.create 1 false true])
      (.hypercall 1 (.registerRing (.smooth ⟨⟨5, 1⟩, 2⟩ 64 0 0 1))) := by
    intro _ _ _ t ring ht _
    have hrec := recovers_of_usable (a := .smooth ⟨⟨5, 1⟩, 2⟩ 64 0 0 1) (fun i hi =>
      ⟨rfl, rfl, fun heq => by simp only [invalidMfn] at heq; omega⟩) ring.len
    refine ⟨fun _ _ => hrec, fun r hr => ?_⟩
    obtain rfl : (fun _ => []) = t := Option.some.inj ht
    cases hr
  have hregistered : Hyp.Runs GivesBack [.created 1, .returned 1 _ 0 []]
      (Hyp.after registersOne) := .next hcreated hgive rfl
  have hpage : (Hyp.after registersOne).pageRefs 1 = 1 := by decide
  exact ⟨hpage, (page_references_balanced hregistered 1).1.symm.trans hpage⟩

/-- A registration whose only page, number 7, has another type than the ring needs. -/
def wrongType : RegisterArgs :=
  { RegisterArgs.smooth ⟨⟨5, 1⟩, 2⟩ 64 0 0 1 with pfn := fun _ => .page 7 true false }

/-- Domain 1 tries to register a ring on a page of the wrong type.  No ring lists the page, and
a reference on it is held. -/
theorem wrongType_keeps_reference :
    ¬ ∀ s : Hyp, s.Reachable → ∀ mfn, s.pageRefs mfn = s.listed mfn ∧
      s.typeRefs mfn = s.listed mfn := by
  intro hall
  have hbefore := (hall _ (Hyp.after_reachable [.create 1 false true]) 7).1
  have hbehind := (hall _ (Hyp.after_reachable
    [.create 1 false true, .hypercall 1 (.registerRing wrongType)]) 7).1
  -- the registration fails, so the tables are those of before
  have hlisted : (Hyp.after [.create 1 false true, .hypercall 1 (.registerRing wrongType)]).listed =
      (Hyp.after [.create 1 false true]).listed := Hyp.listed_congr fun d => rfl
  rw [hlisted, ← hbefore] at hbehind
  exact absurd hbehind (by decide)

end V4v
