import LegacyV4v.TableEffects

/-! # Who waits for which ring

A ring's pending list holds at most one entry for each domain that waits for space, with the
largest number of bytes the domain asked for.  Sends and the entries of a notify queue and
raise entries, sufficient entries of a notify cancel them, and the owner's notify takes out
and signals those that fit.  Here is what each operation does to the rings as they are found
by id, and whom it signals. -/
namespace V4v
open MachineWord ChainedHash

/-! ## Finding rings -/

/-- The ring registered under an id. -/
def Hyp.ring (s : Hyp) (id : RingId) : Option RingInfo :=
  (s.v4v id.addr.domain).bind fun t => ringFindInfo t id

/-- The ring that requests about address `a` with partner `p` are for. -/
def Hyp.ringFor (s : Hyp) (p : DomId) (a : Addr) : Option RingInfo :=
  (s.v4v a.domain).bind fun t => ringFindInfoByAddr t a.domain a p

section
variable {s s' : Hyp} {d e p : DomId} {a : Addr} {id : RingId} {r r' : RingInfo} {t : RingTable}

theorem Hyp.ringFor_eq (s : Hyp) (p : DomId) (a : Addr) :
    s.ringFor p a = (s.ring ⟨a, p⟩).or (s.ring ⟨a, domidAny⟩) := by
  unfold Hyp.ringFor Hyp.ring
  cases s.v4v a.domain with
  | none => rfl
  | some t =>
    rw [Option.bind_some, Option.bind_some, Option.bind_some, ringFindInfoByAddr]
    cases ringFindInfo t ⟨a, p⟩ <;> rfl

theorem Hyp.ring_id (h : s.ring id = some r) : r.id = id := by
  obtain ⟨t, _, hr⟩ := Option.bind_eq_some_iff.mp h
  exact ringFindInfo_id hr

theorem Hyp.ring_of_ringFor (h : s.ringFor p a = some r) :
    s.ring r.id = some r ∧ r.id.addr = a := by
  rw [Hyp.ringFor_eq, Option.or_eq_some_iff] at h
  rcases h with h | ⟨_, h⟩
  · have hid := Hyp.ring_id h
    exact ⟨by rw [hid]; exact h, by rw [hid]⟩
  · have hid := Hyp.ring_id h
    exact ⟨by rw [hid]; exact h, by rw [hid]⟩

theorem Hyp.ring_congr (h : s'.domains = s.domains) (id : RingId) : s'.ring id = s.ring id := by
  unfold Hyp.ring
  rw [Hyp.v4v_congr h]

theorem Hyp.ringFor_congr (h : ∀ id, s'.ring id = s.ring id) (p : DomId) (a : Addr) :
    s'.ringFor p a = s.ringFor p a := by
  rw [Hyp.ringFor_eq, Hyp.ringFor_eq, h, h]

/-- The rings of `s'` are those of `s`, except that `r` is `r'` now. -/
def Hyp.Changes (s s' : Hyp) (r r' : RingInfo) : Prop :=
  ∀ id, s'.ring id = if id = r.id then some r' else s.ring id

theorem Hyp.Updates.changes (h : s.Updates s' e r r') (he : r.id.addr.domain = e) :
    s.Changes s' r r' := by
  obtain ⟨t, ht, _, hdom⟩ := h.table
  obtain ⟨t', ht', hfound⟩ := h.found ht
  intro id
  by_cases hid : id.addr.domain = e
  · unfold Hyp.ring
    rw [hid, ht, ht', Option.bind_some, Option.bind_some, hfound]
  · have hne : id ≠ r.id := fun heq => hid (by rw [heq]; exact he)
    rw [if_neg hne]
    unfold Hyp.ring
    rw [Hyp.v4v_assigned ht hdom, if_neg hid]

/-- What a change does to the requests about addresses: those about the ring's own address
find the changed ring. -/
theorem Hyp.Changes.ringFor {b : Addr} (h : s.Changes s' r r') (hr : s.ringFor p a = some r) :
    s'.ringFor p b = if b = a then some r' else s.ringFor p b := by
  have haddr := (Hyp.ring_of_ringFor hr).2
  rw [Hyp.ringFor_eq, h, h]
  by_cases hb : b = a
  · subst hb
    rw [if_pos rfl]
    rw [Hyp.ringFor_eq, Option.or_eq_some_iff] at hr
    rcases hr with hr | ⟨hnone, hr⟩
    · rw [if_pos (Hyp.ring_id hr).symm, Option.some_or]
    · have hne : (⟨b, p⟩ : RingId) ≠ r.id := by
        intro heq
        rw [heq] at hnone
        rw [← Hyp.ring_id hr, hnone] at hr
        cases hr
      rw [if_neg hne, hnone, Option.none_or, if_pos (Hyp.ring_id hr).symm]
  · have hne : ∀ q, (⟨b, q⟩ : RingId) ≠ r.id := by
      intro q heq
      rw [← heq] at haddr
      exact hb haddr
    rw [if_neg (hne p), if_neg (hne domidAny), if_neg hb, Hyp.ringFor_eq]

/-! ## Pending lists -/

theorem mem_raisePending {x : PendingEnt} {len : UInt32} {l : List PendingEnt} (h : x ∈ l)
    (hx : x.id = d → ¬ x.len < len) : x ∈ raisePending d len l := by
  induction l with
  | nil => cases h
  | cons ent l ih =>
    rw [raisePending]
    rcases List.mem_cons.mp h with rfl | h
    · split
      · rename_i hid
        rw [if_neg (hx hid)]
        exact List.mem_cons_self
      · exact List.mem_cons_self
    · split
      · exact List.mem_cons_of_mem _ h
      · exact List.mem_cons_of_mem _ (ih h)

/-- An entry survives the requests of other domains, and those for no more bytes. -/
theorem mem_pendingRequeue {x : PendingEnt} {len : UInt32} {alloc : Bool} {l : List PendingEnt}
    (h : x ∈ l) (hx : x.id = d → ¬ x.len < len) : x ∈ (pendingRequeue l d len alloc).2 := by
  rw [pendingRequeue]
  split
  · exact mem_raisePending h hx
  · split
    · exact h
    · exact List.mem_cons_of_mem _ h

theorem mem_pendingCancel {x : PendingEnt} {l : List PendingEnt} (h : x ∈ l) (hx : x.id ≠ d) :
    x ∈ pendingCancel l d :=
  List.mem_filter.mpr ⟨h, by simpa using hx⟩

/-- Behind a request that is queued the domain has an entry. -/
theorem exists_mem_raisePending {len : UInt32} {l : List PendingEnt}
    (h : (l.any fun ent => ent.id = d) = true) : ∃ x ∈ raisePending d len l, x.id = d := by
  induction l with
  | nil => cases h
  | cons ent l ih =>
    rw [raisePending]
    split
    · rename_i hid
      exact ⟨_, List.mem_cons_self, hid⟩
    · rename_i hid
      obtain ⟨x, hx, hxid⟩ := ih (by simpa [hid] using h)
      exact ⟨x, List.mem_cons_of_mem _ hx, hxid⟩

theorem exists_mem_pendingRequeue (len : UInt32) (l : List PendingEnt) :
    ∃ x ∈ (pendingRequeue l d len true).2, x.id = d := by
  rw [pendingRequeue]
  split
  · rename_i hany
    exact exists_mem_raisePending hany
  · exact ⟨⟨d, len⟩, List.mem_cons_self, rfl⟩

/-- Unless the domain asked for more before, its entry is for `len` bytes then. -/
theorem mem_raisePending_self {len : UInt32} {l : List PendingEnt}
    (h : (l.any fun ent => ent.id = d) = true) (hle : ∀ x ∈ l, x.id = d → x.len ≤ len) :
    ⟨d, len⟩ ∈ raisePending d len l := by
  induction l with
  | nil => cases h
  | cons ent l ih =>
    rw [raisePending]
    split
    · rename_i hid
      have hlen : (if ent.len < len then len else ent.len) = len := by
        split
        · rfl
        · rename_i hnot
          exact UInt32.le_antisymm (hle ent List.mem_cons_self hid) (UInt32.not_lt.mp hnot)
      rw [hlen, ← hid]
      exact List.mem_cons_self
    · rename_i hid
      refine List.mem_cons_of_mem _ (ih (by simpa [hid] using h) fun x hx => ?_)
      exact hle x (List.mem_cons_of_mem _ hx)

theorem mem_pendingRequeue_self {len : UInt32} {alloc : Bool} {l : List PendingEnt}
    (h : (pendingRequeue l d len alloc).1 = 0) (hle : ∀ x ∈ l, x.id = d → x.len ≤ len) :
    ⟨d, len⟩ ∈ (pendingRequeue l d len alloc).2 := by
  rw [pendingRequeue] at h ⊢
  split
  · rename_i hany
    exact mem_raisePending_self hany hle
  · rename_i hany
    rw [if_neg hany] at h
    split
    · rename_i halloc
      rw [if_pos halloc] at h
      exact absurd h (by simp [enomem])
    · exact List.mem_cons_self

/-! ## The entries of a notify -/

/-- Everything an entry of a notify can do: name no ring, or have its ring answer. -/
inductive FillEffect (s : Hyp) (d : DomId) (ent : RingDataEnt) (alloc : Bool) (flags : UInt16)
    (s' : Hyp) : Prop
  | absent : s.ringFor d ent.ring = none → flags = 0 → (∀ id, s'.ring id = s.ring id) →
      FillEffect s d ent alloc flags s'
  | answered {r : RingInfo} {space : Nat} : s.ringFor d ent.ring = some r →
      payloadSpace r = some space → flags = (fillFlags r d ent alloc space).1 →
      s.Changes s' r { r with pending := (fillFlags r d ent alloc space).2 } →
      FillEffect s d ent alloc flags s'

theorem fillDomain_effect {ent : RingDataEnt} {alloc : Bool} {q : UInt16 × Hyp}
    (h : fillDomain s d ent alloc = some q) :
    FillEffect s d ent alloc q.1 q.2 ∧ q.2.signals = s.signals := by
  unfold fillDomain at h
  cases hdom : s.domains ent.ring.domain with
  | none =>
    rw [hdom] at h
    obtain rfl := Option.some.inj h
    refine ⟨.absent ?_ rfl fun _ => rfl, rfl⟩
    unfold Hyp.ringFor
    rw [Hyp.v4v_of_none hdom]
    rfl
  | some dom =>
    rw [hdom] at h
    dsimp only at h
    have hv4v := Hyp.v4v_of_domains hdom
    cases ht : dom.v4v with
    | none =>
      rw [ht] at h
      obtain rfl := Option.some.inj h
      refine ⟨.absent ?_ rfl fun _ => rfl, rfl⟩
      unfold Hyp.ringFor
      rw [hv4v, ht]
      rfl
    | some t =>
      rw [ht] at h hv4v
      obtain ⟨q', hq', rfl⟩ := Option.map_eq_some_iff.mp h
      have hfor : s.ringFor d ent.ring = ringFindInfoByAddr t ent.ring.domain ent.ring d := by
        unfold Hyp.ringFor
        rw [hv4v]
        rfl
      unfold fillRing at hq'
      dsimp only at hq'
      cases hfind : ringFindInfoByAddr t ent.ring.domain ent.ring d with
      | none =>
        rw [hfind] at hq'
        obtain rfl := Option.some.inj hq'
        exact ⟨.absent (hfor.trans hfind) rfl fun _ => rfl, rfl⟩
      | some r =>
        rw [hfind] at hq'
        obtain ⟨space, hspace, rfl⟩ := Option.map_eq_some_iff.mp hq'
        have hr := hfor.trans hfind
        have hup : s.Updates (s.setV4v ent.ring.domain (some (replace RingInfo.id hashFn t
            { r with pending := (fillFlags r d ent alloc space).2 }))) ent.ring.domain r
            { r with pending := (fillFlags r d ent alloc space).2 } :=
          ⟨rfl, t, hv4v, (ringFindInfoByAddr_cases hfind).1, rfl⟩
        refine ⟨.answered hr hspace rfl fun id => ?_, rfl⟩
        exact hup.changes (by rw [(Hyp.ring_of_ringFor hr).2]) id

/-- An entry that is answered. -/
theorem fillRingData_effect {x : NotifyEnt} {q : Int × List UInt16 × Hyp}
    (h : fillRingData s d x = some q) :
    (x.ent = none ∧ q = (-efault, [], s)) ∨
      ∃ ent flags, x.ent = some ent ∧ FillEffect s d ent x.alloc flags q.2.2 ∧
        q.2.2.signals = s.signals ∧ (q.1 = -efault ∧ x.written = false ∨
          q.1 = 0 ∧ x.written = true ∧ q.2.1 = [flags]) := by
  unfold fillRingData at h
  split at h
  · rename_i hnone
    exact Or.inl ⟨hnone, (Option.some.inj h).symm⟩
  · rename_i ent hent
    obtain ⟨q', hq', rfl⟩ := Option.map_eq_some_iff.mp h
    obtain ⟨heff, hsignals⟩ := fillDomain_effect hq'
    refine Or.inr ⟨ent, q'.1, hent, ?_⟩
    split
    · rename_i hwritten
      exact ⟨heff, hsignals, Or.inl ⟨rfl, by simpa using hwritten⟩⟩
    · rename_i hwritten
      exact ⟨heff, hsignals, Or.inr ⟨rfl, by simpa using hwritten, rfl⟩⟩

theorem fillLoop_signals {l : List NotifyEnt} {q : Int × List UInt16 × Hyp}
    (h : fillLoop s d l = some q) : q.2.2.signals = s.signals := by
  induction l generalizing s q with
  | nil =>
    obtain rfl := Option.some.inj h
    rfl
  | cons x l ih =>
    obtain ⟨q', hq', h⟩ := Option.bind_eq_some_iff.mp h
    have hfirst : q'.2.2.signals = s.signals := by
      rcases fillRingData_effect hq' with ⟨_, rfl⟩ | ⟨_, _, _, _, hsignals, _⟩
      · rfl
      · exact hsignals
    split at h
    · obtain rfl := Option.some.inj h
      exact hfirst
    · obtain ⟨q'', hq'', rfl⟩ := Option.map_eq_some_iff.mp h
      exact (ih hq'').trans hfirst

/-! ## The owner's notify -/

/-- The call signals domain `d`. -/
def Hyp.Signals (s s' : Hyp) (d : DomId) : Prop := ∃ l, s'.signals = l ++ s.signals ∧ d ∈ l

/-- What the owner's notify leaves of a ring. -/
def RingInfo.settled (r : RingInfo) : RingInfo :=
  match payloadSpace r with
  | none => r
  | some space => { r with pending := pendingRest r.pending space }

theorem settled_id (r : RingInfo) : r.settled.id = r.id := by
  unfold RingInfo.settled
  split <;> rfl

theorem mem_notifyRings {l : List RingInfo} {p q : Hyp × List PendingEnt}
    (h : notifyRings p l = some q) : q.1.signals = p.1.signals ∧ (∀ x ∈ p.2, x ∈ q.2) ∧
      ∀ r ∈ l, ∃ space, payloadSpace r = some space ∧
        ∀ x ∈ pendingFits r.pending space, x ∈ q.2 := by
  induction l generalizing p with
  | nil =>
    obtain rfl := Option.some.inj h
    exact ⟨rfl, fun _ hx => hx, fun _ hr => absurd hr List.not_mem_nil⟩
  | cons r l ih =>
    obtain ⟨p', hp', h⟩ := Option.bind_eq_some_iff.mp h
    unfold notifyRing at hp'
    obtain ⟨space, hspace, rfl⟩ := Option.map_eq_some_iff.mp hp'
    obtain ⟨hsignals, hkeep, hrest⟩ := ih h
    refine ⟨hsignals, fun x hx => hkeep x (List.mem_append_right _ hx), fun r' hr' => ?_⟩
    rcases List.mem_cons.mp hr' with rfl | hr'
    · exact ⟨space, hspace, fun x hx =>
        hkeep x (List.mem_append_left _ (List.mem_reverse.mpr hx))⟩
    · exact hrest r' hr'

/-- The signals of `v4v_pending_notify`. -/
theorem pendingNotify_signals (s : Hyp) (l : List PendingEnt) :
    ∃ new, (pendingNotify s l).signals = new ++ s.signals ∧
      ∀ x ∈ l, s.domains x.id ≠ none → x.id ∈ new := by
  unfold pendingNotify
  induction l generalizing s with
  | nil => exact ⟨[], rfl, fun _ hx => absurd hx List.not_mem_nil⟩
  | cons ent l ih =>
    obtain ⟨new, hnew, hall⟩ := ih (s.signalDomid ent.id)
    rw [Hyp.signalDomid_domains] at hall
    cases hdom : s.domains ent.id with
    | none =>
      have hsame : (s.signalDomid ent.id).signals = s.signals := by
        unfold Hyp.signalDomid
        rw [hdom]
      rw [hsame] at hnew
      refine ⟨new, hnew, fun x hx hex => ?_⟩
      rcases List.mem_cons.mp hx with rfl | hx
      · exact absurd hdom hex
      · exact hall x hx hex
    | some dom =>
      have hone : (s.signalDomid ent.id).signals = ent.id :: s.signals := by
        unfold Hyp.signalDomid
        rw [hdom]
        rfl
      refine ⟨new ++ [ent.id], ?_, fun x hx hex => ?_⟩
      · rw [List.foldl_cons, hnew, hone, List.append_assoc]
        rfl
      · rcases List.mem_cons.mp hx with rfl | hx
        · exact List.mem_append_right _ List.mem_cons_self
        · exact List.mem_append_left _ (hall x hx hex)

/-- The table behind the first half of a notify. -/
theorem find_settle (t : RingTable) (id : RingId) :
    ringFindInfo t.settle id = (ringFindInfo t id).map RingInfo.settled :=
  find_mapEntries settled_id id

/-- **Everything a notify can do**: fail for a domain without v4v, or take the entries that fit
from the caller's rings, signal them, and go on with the caller's questions in a state `s₁`. -/
inductive NotifyEffect (s : Hyp) (d : DomId) (data : Option RingData)
    (q : Int × List UInt16 × Hyp) : Prop
  | refused : s.v4v d = none → q.1 = -enodev → q.2.1 = [] → q.2.2.domains = s.domains →
      NotifyEffect s d data q
  | answered {s₁ : Hyp} {q' : Int × List UInt16 × Hyp} :
      (∀ id, s₁.ring id =
        if id.addr.domain = d then (s.ring id).map RingInfo.settled else s.ring id) →
      (∀ id r space x, id.addr.domain = d → s.ring id = some r → payloadSpace r = some space →
        x ∈ r.pending → x.len.toNat ≤ space → s.domains x.id ≠ none → s.Signals s₁ x.id) →
      notifyData s₁ d data = some q' → q = (q'.1, q'.2.1, q'.2.2.release .l1Read) →
      NotifyEffect s d data q

theorem notify_effect {data : Option RingData} {q : Int × List UInt16 × Hyp}
    (h : notify s d data = some q) : NotifyEffect s d data q := by
  unfold notify at h
  dsimp only at h
  cases ht : (s.acquire .l1Read).v4v d with
  | none =>
    rw [ht] at h
    obtain rfl := Option.some.inj h
    exact .refused ht rfl rfl rfl
  | some t =>
    rw [ht] at h
    obtain ⟨p, hp, h⟩ := Option.bind_eq_some_iff.mp h
    obtain ⟨q', hq', heq⟩ := Option.map_eq_some_iff.mp h
    have ht' : s.v4v d = some t := ht
    obtain ⟨hdom, _⟩ := notifyRings_frame hp
    obtain ⟨hsignals, _, hfits⟩ := mem_notifyRings hp
    obtain ⟨new, hnew, hall⟩ :=
      pendingNotify_signals ((p.1.setV4v d (some t.settle)).release (.l2Read d)) p.2
    have hdom' := (pendingNotify_frame
      ((p.1.setV4v d (some t.settle)).release (.l2Read d)) p.2).1
    refine .answered (fun id => ?_) ?_ hq' heq.symm
    · have hv := Hyp.v4v_assigned ht' (hdom'.trans (Hyp.setV4v_congr hdom d (some t.settle)))
      unfold Hyp.ring
      rw [hv]
      split
      · rename_i hid
        rw [hid, ht', Option.bind_some, Option.bind_some, find_settle]
      · rfl
    · intro id r space x hid hr hspace hx hle hex
      unfold Hyp.ring at hr
      rw [hid, ht', Option.bind_some] at hr
      obtain ⟨i, hi⟩ := mem_of_find hr
      obtain ⟨space', hspace', hmem⟩ := hfits r
        (List.mem_flatMap.mpr ⟨i, List.mem_finRange i, hi⟩)
      obtain rfl := Option.some.inj (hspace.symm.trans hspace')
      have hx' : x ∈ p.2 := hmem x (List.mem_filter.mpr ⟨hx, by simpa using hle⟩)
      have hex' : ((p.1.setV4v d (some t.settle)).release (.l2Read d)).domains x.id ≠ none := by
        have hset := congrFun (Hyp.setV4v_congr hdom d (some t.settle)) x.id
        intro hnone
        rw [show ((p.1.setV4v d (some t.settle)).release (.l2Read d)).domains x.id =
          (p.1.setV4v d (some t.settle)).domains x.id from rfl, hset] at hnone
        by_cases hxd : x.id = d
        · rw [hxd] at hnone hex
          obtain ⟨dom, hdom⟩ := Option.ne_none_iff_exists'.mp hex
          simp [Hyp.setV4v, Hyp.acquire, hdom] at hnone
        · simp [Hyp.setV4v, Hyp.acquire, hxd] at hnone
          exact hex hnone
      exact ⟨new, hnew.trans (congrArg (new ++ ·) hsignals), hall x hx' hex'⟩

/-- The questions signal nobody. -/
theorem notifyData_signals {data : Option RingData} {q : Int × List UInt16 × Hyp}
    (h : notifyData s d data = some q) : q.2.2.signals = s.signals := by
  unfold notifyData at h
  split at h
  · obtain rfl := Option.some.inj h
    rfl
  · split at h
    · obtain rfl := Option.some.inj h
      rfl
    · split at h
      · obtain rfl := Option.some.inj h
        rfl
      · split at h
        · obtain rfl := Option.some.inj h
          rfl
        · obtain ⟨q', hq', rfl⟩ := Option.map_eq_some_iff.mp h
          have hloop := fillLoop_signals hq'
          exact hloop

/-- **The owner's notify signals every domain whose entry fits.** -/
theorem notify_signals {data : Option RingData} {q : Int × List UInt16 × Hyp} {space : Nat}
    {x : PendingEnt} (h : notify s id.addr.domain data = some q) (hr : s.ring id = some r)
    (hspace : payloadSpace r = some space) (hx : x ∈ r.pending) (hle : x.len.toNat ≤ space)
    (hex : s.domains x.id ≠ none) : s.Signals q.2.2 x.id := by
  cases notify_effect h with
  | refused hnone =>
    -- the owner has v4v, since it has the ring
    obtain ⟨t, ht, _⟩ := Option.bind_eq_some_iff.mp hr
    cases hnone.symm.trans ht
  | answered _ hsig hdata heq =>
    obtain ⟨new, hnew, hmem⟩ := hsig id r space x rfl hr hspace hx hle hex
    refine ⟨new, ?_, hmem⟩
    rw [heq]
    exact (notifyData_signals hdata).trans hnew

/-! ## Sends -/

/-- The pending list behind an insertion that returned `ret`. -/
def pendingAfter (l : List PendingEnt) (d : DomId) (len : UInt32) (alloc : Bool) (ret : Int) :
    List PendingEnt :=
  if ret = -eagain then (pendingRequeue l d len alloc).2 else l

/-- What a send does to the rings: it reaches none and is not told to try again, or it changes
the one it is for, whose pending list then has an entry if there was no room. -/
theorem sendWith_pending {src dst : Addr} {env : SendEnv} {len : UInt32}
    {insert : RingInfo → Option InsertOut} {out : SendOut}
    (hins : ∀ r o, insert r = some o → o.ring.id = r.id ∧ o.ring.pending = r.pending)
    (h : sendWith s d src dst env len insert = some out) :
    (out.ret ≠ -eagain ∧ out.inserted = [] ∧ ∀ id, out.state.ring id = s.ring id) ∨
      ∃ r o, s.ringFor src.domain dst = some r ∧ insert r = some o ∧
        out.inserted = [⟨r.id, d, o.ret⟩] ∧
        (out.ret = -eagain → o.ret = -eagain ∧
          (pendingRequeue r.pending d len env.pendingAlloc).1 = 0) ∧
        s.Changes out.state r { o.ring with
          pending := pendingAfter r.pending d len env.pendingAlloc o.ret } := by
  cases sendWith_cases h with
  | noSender => exact Or.inl ⟨by simp [einval, eagain], rfl, fun _ => rfl⟩
  | noDomain | noRing => exact Or.inl ⟨by simp [econnrefused, eagain], rfl, fun _ => rfl⟩
  | refused => exact Or.inl ⟨by simp [econnrefused, eagain], rfl, fun _ => rfl⟩
  | @inserted t r o hv4v hpass ht hfind ho =>
    obtain ⟨hid, hpending⟩ := hins r o ho
    have hfor : s.ringFor src.domain dst = some r := by
      rw [Hyp.ringFor, ht]
      exact hfind
    have hring : (queueSender o d len env.pendingAlloc).2 =
        { o.ring with pending := pendingAfter r.pending d len env.pendingAlloc o.ret } := by
      rw [queueSender, pendingAfter, ← hpending]
      split <;> rfl
    refine Or.inr ⟨r, o, hfor, ho, rfl, ?_, ?_⟩
    · intro hret
      have hret : (queueSender o d len env.pendingAlloc).1 = -eagain := hret
      rw [queueSender, hpending] at hret
      split at hret
      · next hagain =>
        refine ⟨hagain, ?_⟩
        by_contra hne
        simp [hne, enomem, eagain] at hret
      · next hagain => exact absurd hret hagain
    · have hup : s.Updates (s.setV4v dst.domain (some (replace RingInfo.id hashFn t
          (queueSender o d len env.pendingAlloc).2))) dst.domain r
          { o.ring with pending := pendingAfter r.pending d len env.pendingAlloc o.ret } :=
        ⟨hid, t, ht, (ringFindInfoByAddr_cases hfind).1, by rw [hring]⟩
      have haddr := (Hyp.ring_of_ringFor hfor).2
      intro id
      refine Eq.trans ?_ (hup.changes (by rw [haddr]) id)
      exact Hyp.ring_congr Hyp.signal_if_domains id

end

end V4v
