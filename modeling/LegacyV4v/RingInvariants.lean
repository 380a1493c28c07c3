import LegacyV4v.TableEffects

/-! # Invariants of all registered rings

A property of single rings holds of every ring of every domain in a run, if registration
establishes it and insertions, guest writes and changes of the pending list keep it
(`Hyp.AllRings.step`).  Two properties are followed along the runs: what registration
checks of a ring's length (`LenChecked`), which holds in every run, and a valid `tx_ptr`,
which does not: `v4v_ring_add` replaces a bogus `tx_ptr` by `rx_ptr` without looking at
the latter. -/
namespace V4v
open MachineWord CyclicBuffer ChainedHash GuardedRun

/-- Every ring in a table of the state satisfies `P`. -/
def Hyp.AllRings (P : RingInfo → Prop) (s : Hyp) : Prop :=
  ∀ d t, s.v4v d = some t → ∀ r, Mem t r → P r

/-- What one action has to keep for `P` to stay true of all rings. -/
structure Keeps (P : RingInfo → Prop) (act : Act) : Prop where
  pending : ∀ r l, P r → P { r with pending := l }
  mem : ∀ r m, P r → P { r with mem := m }
  registered : ∀ d a ring (npage : UInt32) mfns pending,
    act = .hypercall d (.registerRing a) → a.header d = .ok ring → ¬ npage <<< 12 < ring.len →
    P (V4v.registered ring npage mfns pending a.mem)
  unbacked : ∀ d a ring r, act = .hypercall d (.registerRing a) → a.header d = .ok ring → P r →
    P (V4v.unbacked ring r)
  insert : ∀ d a src r o, act = .hypercall d (.send a) → P r →
    ringbufInsert r src a.proto a.buf a.len = some o → P o.ring
  insertv : ∀ d a src r o, act = .hypercall d (.sendv a) → P r →
    ringbufSendv r src a.proto a.first a.second = some o → P o.ring

namespace Hyp
variable {P : RingInfo → Prop} {s s' : Hyp}

theorem AllRings.of_v4v (h : s.AllRings P) (hv : ∀ d, s'.v4v d = s.v4v d) : s'.AllRings P :=
  fun d t ht => h d t ((hv d).symm.trans ht)

theorem AllRings.of_find (h : s.AllRings P) {d : DomId} {t : RingTable} {id : RingId}
    {r : RingInfo} (ht : s.v4v d = some t) (hr : ringFindInfo t id = some r) : P r :=
  h d t ht r (mem_of_find hr)

/-- Assigning a table all of whose rings satisfy `P`. -/
theorem AllRings.setV4v (h : s.AllRings P) {d : DomId} {t₀ t : RingTable} (hd : s.v4v d = some t₀)
    (hdom : s'.domains = (s.setV4v d (some t)).domains) (ht : ∀ r, Mem t r → P r) :
    s'.AllRings P := by
  intro e t' ht'
  rw [Hyp.v4v_assigned hd hdom] at ht'
  split at ht'
  · obtain rfl := Option.some.inj ht'
    exact ht
  · exact h e t' ht'

theorem AllRings.updates (h : s.AllRings P) {d : DomId} {r r' : RingInfo}
    (hup : s.Updates s' d r r') (hr : P r') : s'.AllRings P := by
  obtain ⟨t, ht, _, hdom⟩ := hup.table
  refine h.setV4v ht hdom fun x hx => ?_
  rcases mem_replace hx with rfl | hx
  · exact hr
  · exact h d t ht x hx

/-- The ring that is updated is one of the state's. -/
theorem AllRings.updated (h : s.AllRings P) {d : DomId} {r r' : RingInfo}
    (hup : s.Updates s' d r r') : P r := by
  obtain ⟨t, ht, hr, _⟩ := hup.table
  exact h.of_find ht hr

theorem AllRings.pendingOnly (h : s.AllRings P) (hpend : ∀ r l, P r → P { r with pending := l })
    (hs : s.PendingOnly s') : s'.AllRings P := by
  intro d t' ht' r hr
  have htables := hs d
  rw [ht', Option.map_some] at htables
  obtain ⟨t, ht, heq⟩ := Option.map_eq_some_iff.mp htables.symm
  have hmem := hr.map RingInfo.unpend
  rw [← heq] at hmem
  obtain ⟨r₀, hr₀, hunpend⟩ := mem_mapEntries hmem
  -- `r` is the old ring with another pending list
  have hP := hpend _ r.pending (hpend r₀ [] (h d t ht r₀ hr₀))
  have : ({ r₀.unpend with pending := r.pending } : RingInfo) = r := by
    rw [hunpend]; rfl
  rwa [← this]

theorem AllRings.sendEffect (h : s.AllRings P) (hpend : ∀ r l, P r → P { r with pending := l })
    {d : DomId} {src dst : Addr} {env : SendEnv} {insert : RingInfo → Option InsertOut}
    {out : SendOut} (heff : SendEffect s d src dst env insert out)
    (hins : ∀ r o, P r → insert r = some o → P o.ring) : out.state.AllRings P := by
  cases heff with
  | unreached _ _ _ _ hdom => exact h.of_v4v (Hyp.v4v_congr hdom)
  | refused _ _ _ hdom => exact h.of_v4v (Hyp.v4v_congr hdom)
  | reached pending _ _ _ _ ho _ _ hup =>
    exact h.updates hup (hpend _ pending (hins _ _ (h.updated hup) ho))

/-- **One action keeps `P` true of all rings.** -/
theorem AllRings.step (h : s.AllRings P) {act : Act} {e : Event} (hP : Keeps P act)
    (hstep : s.step act = some (e, s')) : s'.AllRings P := by
  cases step_effect hstep with
  | @hypercall d op o heff =>
    have h₀ : (s.acquire (.domainLock d)).AllRings P := h.of_v4v fun _ => rfl
    suffices h' : o.state.AllRings P from h'.of_v4v fun _ => rfl
    cases heff with
    | inert _ _ hdom => exact h₀.of_v4v (Hyp.v4v_congr hdom)
    | register _ hadd =>
      cases hadd with
      | refused _ _ hdom => exact h₀.of_v4v (Hyp.v4v_congr hdom)
      | stranded _ hring _ hup =>
        exact h₀.updates hup (hP.unbacked d _ _ _ rfl hring (h₀.updated hup))
      | again npage mfns _ _ hring _ _ _ hcover hup =>
        exact h₀.updates hup (hP.registered d _ _ _ _ _ rfl hring hcover)
      | added npage mfns _ ht hring _ _ _ hcover hdom =>
        refine h₀.setV4v ht hdom fun x hx => ?_
        rcases mem_insert hx with rfl | hx
        · exact hP.registered d _ _ _ _ _ rfl hring hcover
        · exact h₀ d _ ht x hx
    | unregister hrem =>
      cases hrem with
      | refused _ hdom => exact h₀.of_v4v (Hyp.v4v_congr hdom)
      | removed ht _ _ _ hdom =>
        exact h₀.setV4v ht hdom fun x hx => h₀ d _ ht x (mem_erase hx)
    | send _ hsend =>
      exact h₀.sendEffect hP.pending hsend fun r o hr ho => hP.insert d _ _ r o rfl hr ho
    | sendv _ _ hsend =>
      exact h₀.sendEffect hP.pending hsend fun r o hr ho => hP.insertv d _ _ r o rfl hr ho
    | notify hpend => exact h₀.pendingOnly hP.pending hpend
  | guestWrite hup => exact h.updates hup (hP.mem _ _ (h.updated hup))
  | create hcreate =>
    rcases createDomain_v4v hcreate with hv | ⟨_, hv⟩
    · exact h.of_v4v hv
    · intro e t ht r hr
      rw [hv] at ht
      split at ht
      · obtain rfl := Option.some.inj ht
        obtain ⟨i, hi⟩ := hr
        cases hi
      · exact h e t ht r hr
  | kill hkill =>
    intro e t ht
    rw [killDomain_v4v hkill] at ht
    split at ht
    · cases ht
    · exact h e t ht

theorem AllRings.boot : Hyp.boot.AllRings P := fun _ _ ht => by cases ht

end Hyp

/-! ## The length -/

/-- What registration checks of the length.  Only a ring with pages has passed the test
against the page count. -/
structure LenChecked (r : RingInfo) : Prop where
  len_mod : r.len.toNat % 16 = 0
  len_ge : 48 ≤ r.len.toNat
  len_le : r.mfns ≠ none → r.len.toNat ≤ 4294963200

theorem LenChecked.lenOk {r : RingInfo} (h : LenChecked r) (hm : r.Mapped) : r.LenOk :=
  ⟨h.len_mod, h.len_ge, h.len_le hm.2⟩

/-- `npage << PAGE_SHIFT` is the size of the pages, modulo `2^32`. -/
theorem shift_toNat (npage : UInt32) :
    (npage <<< 12).toNat = npage.toNat * 4096 % 4294967296 := by
  rw [UInt32.toNat_shiftLeft, Nat.shiftLeft_eq]
  rfl

theorem len_le_of_cover {npage len : UInt32} (h : ¬ npage <<< 12 < len) :
    len.toNat ≤ npage.toNat * 4096 % 4294967296 := by
  rw [UInt32.lt_iff_toNat_lt, shift_toNat] at h
  omega

theorem registered_lenChecked {a : RegisterArgs} {d : DomId} {ring : RingHeader} {npage : UInt32}
    {mfns : List Nat} {pending : List PendingEnt} (hring : a.header d = .ok ring)
    (hcover : ¬ npage <<< 12 < ring.len) :
    LenChecked (registered ring npage mfns pending a.mem) := by
  obtain ⟨r, _, _, hlen, hge, hmod, _⟩ := header_ok hring
  have hle := len_le_of_cover hcover
  rw [← hlen] at hge hmod
  exact ⟨hmod, hge, fun _ => show ring.len.toNat ≤ 4294963200 by omega⟩

theorem unbacked_lenChecked {a : RegisterArgs} {d : DomId} {ring : RingHeader} (r : RingInfo)
    (hring : a.header d = .ok ring) : LenChecked (unbacked ring r) := by
  obtain ⟨_, _, _, hlen, hge, hmod, _⟩ := header_ok hring
  rw [← hlen] at hge hmod
  exact ⟨hmod, hge, fun h => absurd rfl h⟩

/-- An insertion does not touch what the length was checked against. -/
theorem LenChecked.insertWith {r : RingInfo} (h : LenChecked r) {len : UInt32} {o : CopyOut}
    {tx : Nat} {out : InsertOut} (hout : r.insertWith len o tx = some out) :
    LenChecked out.ring := by
  obtain ⟨_, hlen, _, hmfns, _⟩ := insertWith_fields hout
  exact ⟨by rw [hlen]; exact h.len_mod, by rw [hlen]; exact h.len_ge,
    by rw [hlen, hmfns]; exact h.len_le⟩

theorem lenChecked_keeps (act : Act) : Keeps LenChecked act where
  pending _ _ h := ⟨h.len_mod, h.len_ge, h.len_le⟩
  mem _ _ h := ⟨h.len_mod, h.len_ge, h.len_le⟩
  registered _ _ _ _ _ _ _ hring hcover := registered_lenChecked hring hcover
  unbacked _ _ _ r _ hring _ := unbacked_lenChecked r hring
  insert _ _ _ _ _ _ h ho := h.insertWith ho
  insertv _ _ _ _ _ _ h ho := h.insertWith ho

/-- In every reachable state the length of every ring has been checked. -/
theorem Hyp.Reachable.lenChecked {s : Hyp} (h : s.Reachable) : s.AllRings LenChecked := by
  obtain ⟨es, hrun⟩ := h
  exact hrun.invariant Hyp.AllRings.boot fun s act e s' hs _ hstep =>
    hs.step (lenChecked_keeps act) hstep

/-! ## The `tx_ptr` -/

/-- Messages come in one buffer, of a length that `V4V_ROUNDUP` does not wrap; everything
else is allowed. -/
def ShortSends : Act → Prop
  | .hypercall _ (.send a) => a.len.toNat ≤ 4294967280
  | .hypercall _ (.sendv _) => False
  | _ => True

/-- Besides, every registration shows a `tx_ptr` or an `rx_ptr` that is below `len` and
aligned. -/
def ShowsPointer (act : Act) : Prop :=
  ShortSends act ∧ ∀ d a ring, act = .hypercall d (.registerRing a) → a.ring = some ring →
    (ring.txPtr.toNat < ring.len.toNat ∧ ring.txPtr.toNat % 16 = 0) ∨
    (ring.rxPtr.toNat < ring.len.toNat ∧ ring.rxPtr.toNat % 16 = 0)

/-- Behind the header checks `tx_ptr` is valid if one of the two pointers shown was. -/
theorem header_tx {a : RegisterArgs} {d : DomId} {ring : RingHeader}
    (hring : a.header d = .ok ring) (hok : ShowsPointer (.hypercall d (.registerRing a))) :
    ring.txPtr.toNat < ring.len.toNat ∧ ring.txPtr.toNat % 16 = 0 := by
  obtain ⟨r, hr, _, hlen, _, _, htx⟩ := header_ok hring
  rw [htx, hlen]
  by_cases hbogus : r.len ≤ r.txPtr ∨ roundup r.txPtr ≠ r.txPtr
  · rw [if_pos hbogus]
    refine (hok.2 d a r rfl hr).resolve_left fun hvalid => ?_
    rw [UInt32.le_iff_toNat_le, Ne, roundup_eq_self] at hbogus
    omega
  · rw [if_neg hbogus]
    rw [UInt32.le_iff_toNat_le, not_or, not_ne_iff, roundup_eq_self] at hbogus
    omega

/-- A message moves a valid `tx_ptr` to a valid one. -/
theorem txOk_insert {r : RingInfo} (hlen : LenChecked r) (htx : r.TxOk) {src : Addr}
    {proto len : UInt32} {buf : GuestBuf} {out : InsertOut} (hn : len.toNat ≤ 4294967280)
    (hout : ringbufInsert r src proto buf len = some out) : out.ring.TxOk := by
  rcases RingInfo.insertWith_cases hout with ⟨hr, _⟩ | ⟨_, _, _, rfl⟩ | ⟨hadm, hm, _, rfl⟩
  · rw [hr]; exact htx
  · exact htx
  · have hs := (hlen.lenOk hm).sane htx
    have hafter := RingInfo.afterMessage_eq hs hn hadm.1
    have hlt := advance_lt (i := RingInfo.messageSize len) hs.tx_lt (Nat.le_of_lt hadm.1)
    have hL := r.len.toNat_lt
    have hnat : (UInt32.ofNat (r.afterMessage len)).toNat = r.afterMessage len :=
      toNat_ofNat_of_lt (by omega)
    unfold RingInfo.TxOk
    dsimp only
    rw [hnat, hafter]
    refine ⟨hlt, Nat.mod_eq_zero_of_dvd (advance_dvd (Nat.dvd_of_mod_eq_zero hs.len_mod)
      (Nat.dvd_of_mod_eq_zero hs.tx_mod) ?_)⟩
    rw [RingInfo.messageSize_eq hn]
    omega

theorem txOk_keeps {act : Act} (hok : ShowsPointer act) :
    Keeps (fun r => LenChecked r ∧ r.TxOk) act where
  pending r l h := ⟨(lenChecked_keeps act).pending r l h.1, h.2⟩
  mem r m h := ⟨(lenChecked_keeps act).mem r m h.1, h.2⟩
  registered _ _ _ _ _ _ hact hring hcover := by
    subst hact
    exact ⟨registered_lenChecked hring hcover, header_tx hring hok⟩
  unbacked _ _ _ r hact hring _ := by
    subst hact
    exact ⟨unbacked_lenChecked r hring, header_tx hring hok⟩
  insert _ _ _ _ _ hact h ho := by
    subst hact
    exact ⟨h.1.insertWith ho, txOk_insert h.1 h.2 hok.1 ho⟩
  insertv _ _ _ _ _ hact _ _ := by
    subst hact
    exact hok.1.elim

/-- **The `tx_ptr` invariant.**  In every run in which each registration shows a valid
`tx_ptr` or a valid `rx_ptr`, every ring of every domain has a cached `tx_ptr` that is
below its length and a multiple of 16, whatever the owners write to the shared pages. -/
theorem txOk_of_run {es : List Event} {s : Hyp} (h : Hyp.Runs (fun _ => ShowsPointer) es s) :
    s.AllRings RingInfo.TxOk := by
  have hinv : s.AllRings fun r => LenChecked r ∧ r.TxOk :=
    h.invariant Hyp.AllRings.boot fun s act e s' hs hok hstep => hs.step (txOk_keeps hok) hstep
  exact fun d t ht r hr => (hinv d t ht r hr).2

/-- Domain 1 comes up and registers a ring of 48 bytes that shows these pointers. -/
def oneRing (rxPtr txPtr : UInt32) : List Act :=
  [.create 1 false true, .hypercall 1 (.registerRing (.smooth ⟨⟨5, 1⟩, 2⟩ 48 rxPtr txPtr 1))]

/-- The `tx_ptr` of the ring of `oneRing`. -/
def oneRingTx (s : Hyp) : Option UInt32 :=
  ((s.v4v 1).bind fun t => ringFindInfo t ⟨⟨5, 1⟩, 2⟩).map RingInfo.txPtr

/-- A bogus `tx_ptr` is replaced by a valid `rx_ptr`. -/
theorem txOk_of_run_oneRing : ∃ es s, Hyp.Runs (fun _ => ShowsPointer) es s ∧
    oneRingTx s = some 16 ∧ s.AllRings RingInfo.TxOk := by
  have hexec : (exec Hyp.step Hyp.boot (oneRing 16 100)).map (fun p => oneRingTx p.2) =
      some (some 16) := by decide
  obtain ⟨p, hp, htx⟩ := Option.map_eq_some_iff.mp hexec
  have hrun : Hyp.Runs (fun _ => ShowsPointer) p.1 p.2 := by
    refine run_of_exec hp fun act hact _ => ?_
    simp only [oneRing, List.mem_cons, List.not_mem_nil, or_false] at hact
    rcases hact with rfl | rfl
    · exact ⟨trivial, fun d a ring h => by cases h⟩
    · refine ⟨trivial, fun d a ring h hring => Or.inr ?_⟩
      cases h
      cases hring
      decide
  exact ⟨p.1, p.2, hrun, htx, txOk_of_run hrun⟩

/-- With `tx_ptr = 100` and `rx_ptr = 7` a ring of 48 bytes is accepted and keeps 7 as its
`tx_ptr`. -/
theorem oneRing_not_txOk : ¬ ∀ (es : List Event) (s : Hyp),
    Hyp.Runs (fun _ => ShortSends) es s → s.AllRings RingInfo.TxOk := by
  intro hall
  have hexec : (exec Hyp.step Hyp.boot (oneRing 7 100)).map (fun p => oneRingTx p.2) =
      some (some 7) := by decide
  obtain ⟨p, hp, htx⟩ := Option.map_eq_some_iff.mp hexec
  have hrun : Hyp.Runs (fun _ => ShortSends) p.1 p.2 := by
    refine run_of_exec hp fun act hact _ => ?_
    simp only [oneRing, List.mem_cons, List.not_mem_nil, or_false] at hact
    rcases hact with rfl | rfl <;> exact trivial
  obtain ⟨r, hr, hseven⟩ := Option.map_eq_some_iff.mp htx
  obtain ⟨t, ht, hfind⟩ := Option.bind_eq_some_iff.mp hr
  have hok := (hall p.1 p.2 hrun).of_find ht hfind
  unfold RingInfo.TxOk at hok
  rw [hseven] at hok
  exact absurd hok.2 (by decide)

end V4v
