import LegacyV4v.PendingSenders

/-! # Is a waiting domain woken?

A domain that is told that a ring has too little space is entered in the ring's pending list,
and the owner's next notify with enough space signals it.  The list has one entry for each
domain, which makes two requests of one domain about one ring interfere: a later one for
fewer bytes, if it can be satisfied, cancels the entry, as the interface says, and a later one
for more bytes raises it.  Here is when the wakeup comes nevertheless: for the entries of one
notify, and for a send that returned `-EAGAIN`. -/
namespace V4v
open MachineWord GuardedRun

/-! ## The entries of one notify -/

/-- Domain `d` has an entry in the pending list of the ring that its requests about `a` are
for. -/
def Hyp.Waits (s : Hyp) (d : DomId) (a : Addr) : Prop :=
  ∃ r, s.ringFor d a = some r ∧ ∃ x ∈ r.pending, x.id = d

/-- The ring the entry names is there and has too little space for it. -/
def Hyp.Lacks (s : Hyp) (d : DomId) (ent : RingDataEnt) : Prop :=
  ∃ r, s.ringFor d ent.ring = some r ∧ ∃ space, payloadSpace r = some space ∧
    space < ent.spaceRequired.toNat

/-- The answer is `V4V_RING_DATA_F_EXISTS` without `V4V_RING_DATA_F_SUFFICIENT`. -/
def Promised (flags : UInt16) : Prop :=
  flags &&& ringDataExists ≠ 0 ∧ flags &&& ringDataSufficient = 0

instance (flags : UInt16) : Decidable (Promised flags) := inferInstanceAs (Decidable (_ ∧ _))

/-- The last entry about the ring at `a`. -/
def lastFor (a : Addr) (ents : List RingDataEnt) : Option RingDataEnt :=
  (ents.filter fun ent => ent.ring = a).getLast?

section
variable {s s' : Hyp} {d : DomId} {ent : RingDataEnt} {a : Addr}

theorem lastFor_cons (a : Addr) (ent : RingDataEnt) (ents : List RingDataEnt) :
    lastFor a (ent :: ents) = (lastFor a ents).or (if ent.ring = a then some ent else none) := by
  unfold lastFor
  by_cases h : ent.ring = a
  · rw [List.filter_cons_of_pos (by simpa using h), if_pos h, List.getLast?_cons]
    cases (ents.filter fun ent => ent.ring = a).getLast? <;> rfl
  · rw [List.filter_cons_of_neg (by simpa using h), if_neg h, Option.or_none]

theorem lastFor_isSome {ents : List RingDataEnt} (h : ent ∈ ents) :
    ∃ last, lastFor ent.ring ents = some last := by
  have hmem : ent ∈ ents.filter fun x => x.ring = ent.ring := List.mem_filter.mpr ⟨h, by simp⟩
  exact ⟨_, List.getLast?_eq_some_getLast (List.ne_nil_of_mem hmem)⟩

/-- A ring that exists has answered `V4V_RING_DATA_F_EXISTS`, and
`V4V_RING_DATA_F_SUFFICIENT` just if the space is enough. -/
theorem promised_fillFlags (r : RingInfo) (d : DomId) (ent : RingDataEnt) (alloc : Bool)
    (space : Nat) :
    Promised (fillFlags r d ent alloc space).1 ↔ space < ent.spaceRequired.toNat := by
  unfold fillFlags
  dsimp only
  by_cases hle : ent.spaceRequired.toNat ≤ space
  · rw [if_pos hle]
    refine iff_of_false ?_ (by omega)
    split
    · exact (by decide : ¬ Promised (ringDataExists ||| ringDataSufficient ||| ringDataEmpty))
    · exact (by decide : ¬ Promised (ringDataExists ||| ringDataSufficient))
  · rw [if_neg hle]
    refine iff_of_true ?_ (by omega)
    split
    · exact (by decide : Promised (ringDataExists ||| ringDataPending ||| ringDataEmpty))
    · exact (by decide : Promised (ringDataExists ||| ringDataPending))

/-- The space of a ring has nothing to do with its pending list. -/
theorem Hyp.Changes.lacks {r : RingInfo} {l : List PendingEnt} {x : RingDataEnt}
    (h : s.Changes s' r { r with pending := l }) (hr : s.ringFor d a = some r) :
    s'.Lacks d x ↔ s.Lacks d x := by
  unfold Hyp.Lacks
  rw [h.ringFor hr]
  split
  · rename_i hx
    rw [hx, hr]
    simp only [Option.some.injEq, exists_eq_left']
    exact Iff.rfl
  · exact Iff.rfl

theorem FillEffect.lacks {alloc : Bool} {flags : UInt16} {x : RingDataEnt}
    (h : FillEffect s d ent alloc flags s') : s'.Lacks d x ↔ s.Lacks d x := by
  cases h with
  | absent _ _ hsame =>
    unfold Hyp.Lacks
    rw [Hyp.ringFor_congr hsame]
  | answered hr _ _ hchange => exact hchange.lacks hr

theorem FillEffect.promised {alloc : Bool} {flags : UInt16}
    (h : FillEffect s d ent alloc flags s') : Promised flags ↔ s.Lacks d ent := by
  cases h with
  | absent hnone hflags _ =>
    rw [hflags]
    refine iff_of_false (by decide) ?_
    rintro ⟨r, hr, _⟩
    cases hnone.symm.trans hr
  | @answered r space hr hspace hflags _ =>
    rw [hflags, promised_fillFlags]
    unfold Hyp.Lacks
    simp only [hr, Option.some.injEq, exists_eq_left', hspace]

/-- **An entry decides about its own ring only**: the caller waits for it then, if the space
is not enough. -/
theorem FillEffect.waits {flags : UInt16} (h : FillEffect s d ent true flags s') (a : Addr) :
    s'.Waits d a ↔ if a = ent.ring then s.Lacks d ent else s.Waits d a := by
  cases h with
  | absent hnone _ hsame =>
    have hwaits : s'.Waits d a ↔ s.Waits d a := by
      unfold Hyp.Waits
      rw [Hyp.ringFor_congr hsame]
    rw [hwaits]
    split
    · rename_i ha
      subst ha
      refine iff_of_false ?_ ?_
      · rintro ⟨r, hr, _⟩
        cases hnone.symm.trans hr
      · rintro ⟨r, hr, _⟩
        cases hnone.symm.trans hr
    · exact Iff.rfl
  | @answered r space hr hspace _ hchange =>
    unfold Hyp.Waits
    rw [hchange.ringFor hr]
    split
    · rename_i ha
      have hlacks : s.Lacks d ent ↔ space < ent.spaceRequired.toNat := by
        unfold Hyp.Lacks
        simp only [hr, Option.some.injEq, exists_eq_left', hspace]
      rw [hlacks]
      simp only [Option.some.injEq, exists_eq_left', fillFlags]
      by_cases hle : ent.spaceRequired.toNat ≤ space
      · rw [if_pos hle]
        refine iff_of_false ?_ (by omega)
        rintro ⟨x, hx, hid⟩
        simpa [hid] using (List.mem_filter.mp hx).2
      · rw [if_neg hle]
        exact iff_of_true (exists_mem_pendingRequeue _ _) (by omega)
    · exact Iff.rfl

/-- **The loop over the entries**: each answer tells whether the space is enough, and in the end
the caller waits for a ring if the last entry about it found too little. -/
theorem fillLoop_answers {l : List NotifyEnt} {flags : List UInt16}
    (halloc : ∀ x ∈ l, x.alloc = true) (h : fillLoop s d l = some (0, flags, s')) :
    ∃ ents : List RingDataEnt, l.map NotifyEnt.ent = ents.map some ∧
      List.Forall₂ (fun ent f => Promised f ↔ s.Lacks d ent) ents flags ∧
      ∀ a, s'.Waits d a ↔
        (lastFor a ents).elim (s.Waits d a) fun last => s.Lacks d last := by
  induction l generalizing s flags with
  | nil =>
    simp only [fillLoop, Option.some.injEq, Prod.mk.injEq] at h
    obtain ⟨_, rfl, rfl⟩ := h
    exact ⟨[], rfl, .nil, fun _ => Iff.rfl⟩
  | cons x l ih =>
    obtain ⟨q, hq, h⟩ := Option.bind_eq_some_iff.mp h
    have hx : x.alloc = true := halloc x List.mem_cons_self
    rcases fillRingData_effect hq with ⟨_, rfl⟩ | ⟨ent, f, hent, heff, _, hret⟩
    · rw [if_pos (by simp [efault])] at h
      exact absurd (congrArg Prod.fst (Option.some.inj h)) (by simp [efault])
    · rcases hret with ⟨hret, _⟩ | ⟨hret, _, hflags⟩
      · rw [if_pos (by simp [hret, efault])] at h
        have hzero : q.1 = 0 := congrArg Prod.fst (Option.some.inj h)
        rw [hret] at hzero
        exact absurd hzero (by simp [efault])
      · rw [if_neg (by simp [hret])] at h
        obtain ⟨q', hq', heq⟩ := Option.map_eq_some_iff.mp h
        obtain ⟨hzero, hrest⟩ := Prod.mk.inj heq
        obtain ⟨rfl, rfl⟩ := Prod.mk.inj hrest
        rw [hx] at heff
        have hq'' : fillLoop q.2.2 d l = some (0, q'.2.1, q'.2.2) := by rw [hq', ← hzero]
        obtain ⟨ents, hents, hanswers, hwaits⟩ := ih
          (fun y hy => halloc y (List.mem_cons_of_mem _ hy)) hq''
        refine ⟨ent :: ents, by rw [List.map_cons, List.map_cons, hent, hents], ?_, fun a => ?_⟩
        · rw [hflags]
          refine .cons heff.promised ?_
          exact hanswers.imp fun _ _ hiff => hiff.trans heff.lacks
        · rw [hwaits, lastFor_cons]
          cases lastFor a ents with
          | some last => exact heff.lacks
          | none =>
            rw [Option.elim_none, heff.waits, Option.none_or]
            by_cases ha : a = ent.ring
            · rw [if_pos ha, if_pos ha.symm, Option.elim_some]
            · rw [if_neg ha, if_neg (Ne.symm ha), Option.elim_none]

/-- Taking out the entries that fit leaves the space of the rings as it was. -/
theorem lacks_settled {s₁ : Hyp} (h : ∀ id, s₁.ring id =
    if id.addr.domain = d then (s.ring id).map RingInfo.settled else s.ring id)
    (e : DomId) (ent : RingDataEnt) : s₁.Lacks e ent ↔ s.Lacks e ent := by
  have hspace : ∀ r : RingInfo, payloadSpace r.settled = payloadSpace r := by
    intro r
    unfold RingInfo.settled
    split <;> rfl
  have hfor : s₁.ringFor e ent.ring = if ent.ring.domain = d then
      (s.ringFor e ent.ring).map RingInfo.settled else s.ringFor e ent.ring := by
    rw [Hyp.ringFor_eq, h, h, Hyp.ringFor_eq]
    split
    · cases s.ring ⟨ent.ring, e⟩ <;> rfl
    · rfl
  unfold Hyp.Lacks
  rw [hfor]
  split
  · cases s.ringFor e ent.ring with
    | none => exact Iff.rfl
    | some r => simp only [Option.map_some, Option.some.injEq, exists_eq_left', hspace]
  · exact Iff.rfl

/-- The entries a notify read are those it was given. -/
theorem filterMap_ent {l : List NotifyEnt} {ents : List RingDataEnt}
    (h : l.map NotifyEnt.ent = ents.map some) : l.filterMap NotifyEnt.ent = ents := by
  induction l generalizing ents with
  | nil =>
    obtain rfl := List.map_eq_nil_iff.mp h.symm
    rfl
  | cons x l ih =>
    obtain ⟨ent, ents, rfl, hx, hl⟩ := List.map_eq_cons_iff.mp h.symm
    rw [List.filterMap_cons_some hx.symm, ih hl.symm]

/-- **Which promises of a notify are kept**: an entry is answered "exists" and not "sufficient"
if its ring has too little space, and leaves the caller waiting then, unless the last entry of
the call about the same ring is satisfied and cancels the wakeup.  A caller that waits is
signalled by any notify of the ring's owner that finds enough space. -/
theorem notify_wakeup {data : RingData} {flags : List UInt16} {i : Nat} {f : UInt16}
    (halloc : ∀ x ∈ data.ents, x.alloc = true)
    (h : notify s d (some data) = some (0, flags, s'))
    (hent : (data.ents[i]?).bind NotifyEnt.ent = some ent) (hf : flags[i]? = some f) :
    (Promised f ↔ s.Lacks d ent) ∧
    (∃ last, lastFor ent.ring (data.ents.filterMap NotifyEnt.ent) = some last ∧
      (s'.Waits d ent.ring ↔ s.Lacks d last)) ∧
    ∀ (s₂ : Hyp) (r : RingInfo) (x : PendingEnt) (space : Nat) (data₂ : Option RingData)
      (q : Int × List UInt16 × Hyp), s₂.ringFor d ent.ring = some r → x ∈ r.pending → x.id = d →
      payloadSpace r = some space → x.len.toNat ≤ space → s₂.domains d ≠ none →
      notify s₂ ent.ring.domain data₂ = some q → s₂.Signals q.2.2 d := by
  refine and_assoc.mp ⟨?_, ?_⟩
  · cases notify_effect h with
    | refused _ hret => exact absurd hret (by simp [enodev])
    | @answered s₁ q' hsettled _ hdata heq =>
      obtain ⟨hzero, hrest⟩ := Prod.mk.inj heq
      obtain ⟨hflags, hstate⟩ := Prod.mk.inj hrest
      unfold notifyData at hdata
      dsimp only at hdata
      split at hdata
      · obtain rfl := Option.some.inj hdata
        exact absurd hzero (by simp [efault])
      · split at hdata
        · obtain rfl := Option.some.inj hdata
          exact absurd hzero (by simp [einval])
        · split at hdata
          · obtain rfl := Option.some.inj hdata
            exact absurd hzero (by simp [efault])
          · obtain ⟨q, hq, rfl⟩ := Option.map_eq_some_iff.mp hdata
            have hq' : fillLoop (s₁.acquire .l1Read) d data.ents = some (0, flags, q.2.2) := by
              rw [hq, hzero, hflags]
            obtain ⟨ents, hents, hanswers, hwaits⟩ := fillLoop_answers halloc hq'
            have hmem : ents[i]? = some ent := by
              have hi : (data.ents.map NotifyEnt.ent)[i]? = some (some ent) := by
                obtain ⟨y, hy, hyent⟩ := Option.bind_eq_some_iff.mp hent
                rw [List.getElem?_map, hy, Option.map_some, hyent]
              rw [hents, List.getElem?_map] at hi
              obtain ⟨y, hy, hyent⟩ := Option.map_eq_some_iff.mp hi
              rw [hy, hyent]
            obtain ⟨last, hlast⟩ := lastFor_isSome (List.mem_of_getElem? hmem)
            have hanswer : Promised f ↔ (s₁.acquire .l1Read).Lacks d ent := by
              obtain ⟨_, hget⟩ := List.forall₂_iff_get.mp hanswers
              obtain ⟨hi, rfl⟩ := List.getElem?_eq_some_iff.mp hmem
              obtain ⟨hi', rfl⟩ := List.getElem?_eq_some_iff.mp hf
              exact hget i hi hi'
            refine ⟨hanswer.trans (lacks_settled hsettled d ent), last,
              by rw [filterMap_ent hents]; exact hlast, ?_⟩
            have hiff := hwaits ent.ring
            rw [hlast, Option.elim_some] at hiff
            rw [hstate]
            exact hiff.trans (lacks_settled hsettled d last)
  · intro s₂ r x space data₂ q hr hx hid hspace hle hex hq
    obtain ⟨hring, haddr⟩ := Hyp.ring_of_ringFor hr
    rw [← haddr] at hq
    rw [← hid] at hex ⊢
    exact notify_signals hq hring hspace hx hle hex

end

/-- Domain 2 has an empty ring of 64 bytes for domain 1. -/
def emptyForOne : List Act :=
  [.create 1 false true, .create 2 false true,
    .hypercall 2 (.registerRing (.smooth ⟨⟨5, 2⟩, 1⟩ 64 0 0 1))]

/-- A notify that asks about that ring, once for each number of bytes. -/
def asks (sizes : List UInt32) : RingData :=
  ⟨some ringDataMagic, true, sizes.map fun n => ⟨some ⟨⟨5, 2⟩, n⟩, true, true⟩⟩

theorem lacks_emptyForOne (n : UInt32) (h : 48 < n.toNat) :
    (Hyp.after emptyForOne).Lacks 1 ⟨⟨5, 2⟩, n⟩ := by
  have hspace : ((Hyp.after emptyForOne).ringFor 1 ⟨5, 2⟩).bind payloadSpace = some 48 := by
    decide
  obtain ⟨r, hr, hspace⟩ := Option.bind_eq_some_iff.mp hspace
  exact ⟨r, hr, 48, hspace, h⟩

theorem notify_wakeup_single : ∃ s', notify (Hyp.after emptyForOne) 1 (some (asks [100])) =
      some (0, [ringDataExists ||| ringDataPending], s') ∧ s'.Waits 1 ⟨5, 2⟩ := by
  have hrun : (notify (Hyp.after emptyForOne) 1 (some (asks [100]))).map
      (fun q => (q.1, q.2.1)) = some (0, [ringDataExists ||| ringDataPending]) := by decide
  obtain ⟨⟨ret, flags, s'⟩, hq, heq⟩ := Option.map_eq_some_iff.mp hrun
  obtain ⟨rfl, rfl⟩ := Prod.mk.inj heq
  refine ⟨s', hq, ?_⟩
  have hent : ((asks [100]).ents[0]?).bind NotifyEnt.ent = some ⟨⟨5, 2⟩, 100⟩ := rfl
  obtain ⟨_, ⟨last, hlast, hiff⟩, _⟩ := notify_wakeup (by decide) hq hent
    (show [ringDataExists ||| ringDataPending][0]? = some _ from rfl)
  obtain rfl : (⟨⟨5, 2⟩, 100⟩ : RingDataEnt) = last := Option.some.inj hlast
  exact hiff.mpr (lacks_emptyForOne 100 (by decide))

/-- One notify asks for 100 bytes, which the ring does not have, and then for 10, which it has.
The first entry is promised a wakeup and the second one takes it back. -/
theorem notify_cancels_promise :
    ¬ ∀ s : Hyp, s.Reachable → ∀ (d : DomId) (data : RingData) (flags : List UInt16) (s' : Hyp),
      (∀ x ∈ data.ents, x.alloc = true) → notify s d (some data) = some (0, flags, s') →
      ∀ (i : Nat) (ent : RingDataEnt) (f : UInt16),
        (data.ents[i]?).bind NotifyEnt.ent = some ent → flags[i]? = some f → Promised f →
        s'.Waits d ent.ring := by
  intro hall
  have hrun : (notify (Hyp.after emptyForOne) 1 (some (asks [100, 10]))).map
      (fun q => (q.1, q.2.1, (q.2.2.ringFor 1 ⟨5, 2⟩).map RingInfo.pending)) =
      some (0, [ringDataExists ||| ringDataPending, ringDataExists ||| ringDataSufficient],
        some []) := by decide
  obtain ⟨⟨ret, flags, s'⟩, hq, heq⟩ := Option.map_eq_some_iff.mp hrun
  simp only [Prod.mk.injEq] at heq
  obtain ⟨rfl, rfl, hpending⟩ := heq
  obtain ⟨r, hr, x, hx, _⟩ := hall _ (Hyp.after_reachable emptyForOne) 1 (asks [100, 10]) _ s'
    (by decide) hq 0 ⟨⟨5, 2⟩, 100⟩ _ rfl rfl (by decide)
  rw [hr, Option.map_some, Option.some.injEq] at hpending
  rw [hpending] at hx
  cases hx

/-! ## A send that returned `-EAGAIN` -/

/-- The ring has the pending entry `x`. -/
def Hyp.Awaits (s : Hyp) (id : RingId) (x : PendingEnt) : Prop :=
  ∃ r, s.ring id = some r ∧ x ∈ r.pending

/-- An insertion of `len` bytes is told to try again: it fits the ring but not the space.  A
length of 2^32 - 11 comes out as `-EAGAIN` when it is returned as an `int`. -/
def RingInfo.Defers (r : RingInfo) (len : UInt32) : Prop :=
  (RingInfo.messageSize len < r.len.toNat ∧ ¬ r.Admits len) ∨ i32 len.toNat = -eagain

/-- The ring that requests of `d` about `a` are for, by its id, and its space. -/
def Hyp.sight (s : Hyp) (d : DomId) (a : Addr) : Option (RingId × Option Nat) :=
  (s.ringFor d a).map fun r => (r.id, payloadSpace r)

/-- The entries `v4v_fill_ring_datas` comes to, the one that ends it included. -/
def visited : List NotifyEnt → List RingDataEnt
  | [] => []
  | x :: l =>
    match x.ent with
    | none => []
    | some ent => ent :: if x.written then visited l else []

/-- The rings a notify asks about. -/
def questions : Option RingData → List RingDataEnt
  | none => []
  | some data =>
    if data.magic = some ringDataMagic ∧ data.readable = true then visited data.ents else []

section
variable {s s' : Hyp} {d : DomId} {id : RingId} {x : PendingEnt}

theorem insertWith_defers {r : RingInfo} {len : UInt32} {o : CopyOut} {tx : Nat} {out : InsertOut}
    (hcopy : o.ret = 0 ∨ o.ret = -efault) (h : r.insertWith len o tx = some out)
    (hret : out.ret = -eagain) : r.Defers len := by
  by_cases hbig : r.len.toNat ≤ RingInfo.messageSize len
  · rw [RingInfo.insertWith, if_pos hbig] at h
    obtain rfl := Option.some.inj h
    exact absurd hret (by simp [emsgsize, eagain])
  · rcases RingInfo.insertWith_cases h with ⟨_, _, hcases⟩ | ⟨_, _, hne, rfl⟩ | ⟨_, _, _, rfl⟩
    · rcases hcases with ⟨_, hnot⟩ | ⟨_, hnot⟩ | ⟨hfault, _⟩
      · exact Or.inl ⟨by omega, hnot⟩
      · exact Or.inl ⟨by omega, hnot⟩
      · exact absurd (hfault.symm.trans hret) (by simp [efault, eagain])
    · rcases hcopy with hzero | hfault
      · exact absurd hzero hne
      · exact absurd (hfault.symm.trans hret) (by simp [efault, eagain])
    · exact Or.inr hret

theorem Hyp.Awaits.congr (h : s.Awaits id x) (hs : ∀ id, s'.ring id = s.ring id) :
    s'.Awaits id x := by
  obtain ⟨r, hr, hx⟩ := h
  exact ⟨r, (hs id).trans hr, hx⟩

/-- A change of one ring that keeps the entry, if it is the ring that has it. -/
theorem Hyp.Awaits.changes {r r' : RingInfo} (h : s.Awaits id x) (hr : s.ring r.id = some r)
    (hchange : s.Changes s' r r') (hkeep : r.id = id → x ∈ r.pending → x ∈ r'.pending) :
    s'.Awaits id x := by
  obtain ⟨r₀, hr₀, hx⟩ := h
  by_cases hid : id = r.id
  · rw [hid, hr] at hr₀
    obtain rfl := Option.some.inj hr₀
    exact ⟨r', (hchange id).trans (if_pos hid), hkeep hid.symm hx⟩
  · exact ⟨r₀, ((hchange id).trans (if_neg hid)).trans hr₀, hx⟩

/-! ### Other sends -/

theorem sendWith_awaits {src dst : Addr} {env : SendEnv} {len : UInt32}
    {insert : RingInfo → Option InsertOut} {out : SendOut}
    (hins : ∀ r o, insert r = some o → o.ring.id = r.id ∧ o.ring.pending = r.pending)
    (hdefers : ∀ r o, insert r = some o → o.ret = -eagain → r.Defers len)
    (h : s.Awaits id x) (hout : sendWith s d src dst env len insert = some out)
    (hraise : d = x.id → ∀ r, s.ringFor src.domain dst = some r → r.id = id → r.Defers len →
      len ≤ x.len) : out.state.Awaits id x := by
  rcases sendWith_pending hins hout with ⟨_, _, hsame⟩ | ⟨r, o, hr, ho, _, _, hchange⟩
  · exact h.congr hsame
  · refine h.changes (Hyp.ring_of_ringFor hr).1 hchange fun hid hx => ?_
    dsimp only [pendingAfter]
    split
    · rename_i hagain
      refine mem_pendingRequeue hx fun hxd => UInt32.not_lt.mpr ?_
      exact hraise hxd.symm r hr hid (hdefers r o ho hagain)
    · exact hx

/-! ### Other notifies -/

theorem Hyp.Changes.sight {r : RingInfo} {l : List PendingEnt} {a b : Addr}
    (h : s.Changes s' r { r with pending := l }) (hr : s.ringFor d a = some r) :
    s'.sight d b = s.sight d b := by
  unfold Hyp.sight
  rw [h.ringFor hr]
  split
  · rename_i hb
    rw [hb, hr]
    rfl
  · rfl

theorem FillEffect.sight {ent : RingDataEnt} {alloc : Bool} {flags : UInt16} {b : Addr}
    (h : FillEffect s d ent alloc flags s') : s'.sight d b = s.sight d b := by
  cases h with
  | absent _ _ hsame =>
    unfold Hyp.sight
    rw [Hyp.ringFor_congr hsame]
  | answered hr _ _ hchange => exact hchange.sight hr

/-- The entry about a ring neither cancels nor raises `x` there. -/
def SparesEntry (s : Hyp) (d : DomId) (id : RingId) (x : PendingEnt) (ent : RingDataEnt) : Prop :=
  ∀ space, s.sight d ent.ring = some (id, some space) →
    space < ent.spaceRequired.toNat ∧ ent.spaceRequired ≤ x.len

theorem FillEffect.awaits {ent : RingDataEnt} {alloc : Bool} {flags : UInt16}
    (heff : FillEffect s d ent alloc flags s') (h : s.Awaits id x)
    (hharm : d = x.id → SparesEntry s d id x ent) : s'.Awaits id x := by
  cases heff with
  | absent _ _ hsame => exact h.congr hsame
  | @answered r space hr hspace _ hchange =>
    refine h.changes (Hyp.ring_of_ringFor hr).1 hchange fun hid hx => ?_
    have hsight : s.sight d ent.ring = some (id, some space) := by
      unfold Hyp.sight
      rw [hr, Option.map_some, hid, hspace]
    dsimp only [fillFlags]
    split
    · rename_i hle
      refine mem_pendingCancel hx fun hxd => ?_
      have := (hharm hxd.symm space hsight).1
      omega
    · refine mem_pendingRequeue hx fun hxd => UInt32.not_lt.mpr ?_
      exact (hharm hxd.symm space hsight).2

theorem fillLoop_awaits {l : List NotifyEnt} {q : Int × List UInt16 × Hyp} (h : s.Awaits id x)
    (hloop : fillLoop s d l = some q)
    (hharm : d = x.id → ∀ ent ∈ visited l, SparesEntry s d id x ent) : q.2.2.Awaits id x := by
  induction l generalizing s q with
  | nil =>
    obtain rfl := Option.some.inj hloop
    exact h
  | cons y l ih =>
    obtain ⟨q', hq', hloop⟩ := Option.bind_eq_some_iff.mp hloop
    rcases fillRingData_effect hq' with ⟨_, rfl⟩ | ⟨ent, flags, hent, heff, _, hret⟩
    · rw [if_pos (by simp [efault])] at hloop
      obtain rfl := Option.some.inj hloop
      exact h
    · have hfirst : q'.2.2.Awaits id x := by
        refine heff.awaits h fun hd => hharm hd ent ?_
        rw [visited, hent]
        exact List.mem_cons_self
      rcases hret with ⟨hret, _⟩ | ⟨hret, hwritten, _⟩
      · rw [if_pos (by simp [hret, efault])] at hloop
        obtain rfl := Option.some.inj hloop
        exact hfirst
      · rw [if_neg (by simp [hret])] at hloop
        obtain ⟨q'', hq'', rfl⟩ := Option.map_eq_some_iff.mp hloop
        have hrest : d = x.id → ∀ ent' ∈ visited l, SparesEntry q'.2.2 d id x ent' := by
          intro hd ent' hent' space hspace
          rw [heff.sight] at hspace
          refine hharm hd ent' ?_ space hspace
          rw [visited, hent, hwritten]
          exact List.mem_cons_of_mem _ hent'
        have hawaits := ih hfirst hq'' hrest
        exact hawaits

theorem notifyData_awaits {data : Option RingData} {q : Int × List UInt16 × Hyp}
    (h : s.Awaits id x) (hdata : notifyData s d data = some q)
    (hharm : d = x.id → ∀ ent ∈ questions data, SparesEntry s d id x ent) : q.2.2.Awaits id x := by
  unfold notifyData at hdata
  split at hdata
  · obtain rfl := Option.some.inj hdata
    exact h
  · rename_i data
    split at hdata
    · obtain rfl := Option.some.inj hdata
      exact h
    · rename_i magic hmagic
      split at hdata
      · obtain rfl := Option.some.inj hdata
        exact h
      · rename_i hok
        split at hdata
        · obtain rfl := Option.some.inj hdata
          exact h
        · rename_i hreadable
          obtain ⟨q', hq', rfl⟩ := Option.map_eq_some_iff.mp hdata
          have hquestions : questions (some data) = visited data.ents := by
            rw [questions, if_pos]
            exact ⟨by rw [hmagic, not_ne_iff.mp hok], by simpa using hreadable⟩
          rw [hquestions] at hharm
          have hloop := fillLoop_awaits (s := s.acquire .l1Read) h hq' hharm
          exact hloop

/-- The owner's notify leaves the entries that do not fit. -/
theorem settled_awaits {s₁ : Hyp} (h : s.Awaits id x) (hs₁ : ∀ id, s₁.ring id =
    if id.addr.domain = d then (s.ring id).map RingInfo.settled else s.ring id)
    (hspace : id.addr.domain = d → ∀ r space, s.ring id = some r → payloadSpace r = some space →
      space < x.len.toNat) : s₁.Awaits id x := by
  obtain ⟨r, hr, hx⟩ := h
  by_cases hid : id.addr.domain = d
  · refine ⟨r.settled, by rw [hs₁, if_pos hid, hr, Option.map_some], ?_⟩
    unfold RingInfo.settled
    split
    · exact hx
    · rename_i space hpayload
      have hlt := hspace hid r space hr hpayload
      exact List.mem_filter.mpr ⟨hx, by simpa using hlt⟩
  · exact ⟨r, by rw [hs₁, if_neg hid, hr], hx⟩

theorem settled_sight {s₁ : Hyp} (hs₁ : ∀ id, s₁.ring id =
    if id.addr.domain = d then (s.ring id).map RingInfo.settled else s.ring id) (e : DomId)
    (a : Addr) : s₁.sight e a = s.sight e a := by
  have hsettled : ∀ r : RingInfo, (r.settled.id, payloadSpace r.settled) =
      (r.id, payloadSpace r) := by
    intro r
    unfold RingInfo.settled
    split <;> rfl
  unfold Hyp.sight
  rw [Hyp.ringFor_eq, hs₁, hs₁, Hyp.ringFor_eq]
  split
  · cases s.ring ⟨a, e⟩ with
    | some r => simp only [Option.map_some, Option.some_or, hsettled]
    | none =>
      cases s.ring ⟨a, domidAny⟩ with
      | some r => simp only [Option.map_some, Option.map_none, Option.none_or, hsettled]
      | none => rfl
  · rfl

/-- The call is a notify of the ring's owner while the ring has space for `n` bytes. -/
def OwnerNotifies (id : RingId) (n : UInt32) (s : Hyp) : Act → Prop
  | .hypercall d (.notify _) => d = id.addr.domain ∧
    ∃ r space, s.ring id = some r ∧ payloadSpace r = some space ∧ n.toNat ≤ space
  | _ => False

theorem notify_awaits {data : Option RingData} {q : Int × List UInt16 × Hyp} (h : s.Awaits id x)
    (hnotify : notify s d data = some q)
    (hearly : ¬ OwnerNotifies id x.len s (.hypercall d (.notify data)))
    (hharm : d = x.id → ∀ ent ∈ questions data, SparesEntry s d id x ent) : q.2.2.Awaits id x := by
  cases notify_effect hnotify with
  | refused _ _ _ hdom => exact h.congr (Hyp.ring_congr hdom)
  | @answered s₁ q' hs₁ _ hdata heq =>
    have hspace : id.addr.domain = d → ∀ r space, s.ring id = some r →
        payloadSpace r = some space → space < x.len.toNat := by
      intro hid r space hr hpayload
      by_contra hge
      exact hearly ⟨hid.symm, r, space, hr, hpayload, by omega⟩
    have hfirst := settled_awaits h hs₁ hspace
    have hsecond := notifyData_awaits hfirst hdata fun hd ent hent space hsight =>
      hharm hd ent hent space (by rw [← settled_sight hs₁]; exact hsight)
    rw [heq]
    exact hsecond

/-! ### Runs -/

/-- Sends, notifies, and owners writing to their pages. -/
def IsTraffic : Act → Prop
  | .hypercall _ (.send _) => True
  | .hypercall _ (.sendv _) => True
  | .hypercall _ (.notify _) => True
  | .guestWrite _ _ => True
  | _ => False

/-- The action is no other request of the waiting domain that raises or cancels its entry `x`
at the ring: a send for more bytes that is told to try again, or an entry of a notify that asks
for more bytes or is satisfied. -/
def Undisturbed (id : RingId) (x : PendingEnt) (s : Hyp) : Act → Prop
  | .hypercall d (.send a) => d = x.id → ∀ src dst r,
    copyAddrs a.srcOkay a.src a.dstOkay a.dst = some (src, dst) →
    s.ringFor src.domain dst = some r → r.id = id → r.Defers a.len → a.len ≤ x.len
  | .hypercall d (.sendv a) => d = x.id → ∀ src dst r,
    copyAddrs a.srcOkay a.src a.dstOkay a.dst = some (src, dst) →
    s.ringFor src.domain dst = some r → r.id = id → r.Defers (iovLen a.first) →
    iovLen a.first ≤ x.len
  | .hypercall d (.notify data) => d = x.id → ∀ ent ∈ questions data, SparesEntry s d id x ent
  | _ => True

/-- What has to hold of the actions between the send and the notify that should signal. -/
def Between (id : RingId) (x : PendingEnt) (s : Hyp) (act : Act) : Prop :=
  IsTraffic act ∧ Undisturbed id x s act ∧ ¬ OwnerNotifies id x.len s act

theorem send_insert {src : Addr} {proto : UInt32} {buf : GuestBuf} {len : UInt32} (r : RingInfo)
    (o : InsertOut) (h : ringbufInsert r src proto buf len = some o) :
    (o.ring.id = r.id ∧ o.ring.pending = r.pending) ∧ (o.ret = -eagain → r.Defers len) :=
  ⟨⟨(insertWith_fields h).1, (insertWith_fields h).2.2.2.2⟩,
    insertWith_defers RingInfo.writeMessage_ret h⟩

theorem sendv_insert {src : Addr} {proto : UInt32} {first second : List (Option Iov)}
    (r : RingInfo) (o : InsertOut) (h : ringbufSendv r src proto first second = some o) :
    (o.ring.id = r.id ∧ o.ring.pending = r.pending) ∧ (o.ret = -eagain → r.Defers (iovLen first)) :=
  ⟨⟨(insertWith_fields h).1, (insertWith_fields h).2.2.2.2⟩,
    insertWith_defers (RingInfo.writeIovs_ret _ _ _ _) h⟩

/-- The domains with v4v are the same behind traffic. -/
theorem IsTraffic.v4v {act : Act} {e : Event} (h : IsTraffic act)
    (hstep : s.step act = some (e, s')) (f : DomId) : s'.v4v f = none ↔ s.v4v f = none := by
  suffices hids : s.SameIds s' by
    have hkeys := hids f
    constructor
    · intro hnone
      rw [hnone] at hkeys
      exact Option.map_eq_none_iff.mp hkeys.symm
    · intro hnone
      rw [hnone] at hkeys
      exact Option.map_eq_none_iff.mp hkeys
  cases step_effect hstep with
  | hypercall heff =>
    cases heff with
    | inert _ _ hdom => exact .of_domains hdom
    | register => exact h.elim
    | unregister => exact h.elim
    | send _ hsend => exact hsend.sameIds
    | sendv _ _ hsend => exact hsend.sameIds
    | notify hpend => exact hpend.sameIds
  | guestWrite hup => exact hup.sameIds
  | create => exact h.elim
  | kill => exact h.elim

/-- **One action in between keeps the entry.** -/
theorem Hyp.Awaits.step {act : Act} {e : Event} (h : s.Awaits id x) (hok : Between id x s act)
    (hstep : s.step act = some (e, s')) : s'.Awaits id x := by
  obtain ⟨htraffic, hund, hearly⟩ := hok
  cases act with
  | hypercall d op =>
    obtain ⟨priv, o, ho, -, rfl⟩ := Hyp.step_hypercall hstep
    suffices hlocked : o.state.Awaits id x from hlocked
    have h₀ : (s.acquire (.domainLock d)).Awaits id x := h
    cases op with
    | send a =>
      rcases dispatch_send ho with ⟨-, rfl⟩ | ⟨src, dst, out, haddrs, hout, rfl⟩
      · exact h₀
      · exact sendWith_awaits (fun r o ho => (send_insert r o ho).1)
          (fun r o ho => (send_insert r o ho).2) h₀ hout
          fun hd r hr => hund hd src dst r haddrs hr
    | sendv a =>
      rcases dispatch_sendv ho with ⟨-, rfl⟩ | ⟨src, dst, out, haddrs, -, hout, rfl⟩
      · exact h₀
      · exact sendWith_awaits (fun r o ho => (sendv_insert r o ho).1)
          (fun r o ho => (sendv_insert r o ho).2) h₀ hout
          fun hd r hr => hund hd src dst r haddrs hr
    | notify data =>
      obtain ⟨q, hq, rfl⟩ := Option.map_eq_some_iff.mp ho
      exact notify_awaits h₀ hq hearly hund
    | _ => exact htraffic.elim
  | guestWrite id' mem =>
    obtain ⟨s₁, hs₁, heq⟩ := Option.map_eq_some_iff.mp hstep
    obtain ⟨_, rfl⟩ := Prod.mk.inj heq
    obtain ⟨t, ht, hs₁⟩ := Option.bind_eq_some_iff.mp hs₁
    obtain ⟨r, hr, rfl⟩ := Option.map_eq_some_iff.mp hs₁
    have hid := ringFindInfo_id hr
    have hring : s.ring r.id = some r := by
      unfold Hyp.ring
      rw [hid, ht]
      exact hr
    have hup : s.Updates (s.setV4v id'.addr.domain (some (ChainedHash.replace RingInfo.id hashFn t
        { r with mem := mem }))) id'.addr.domain r { r with mem := mem } :=
      ⟨rfl, t, ht, by rw [hid]; exact hr, rfl⟩
    exact h.changes hring (hup.changes (by rw [hid])) fun _ hx => hx
  | create d priv alloc => exact htraffic.elim
  | kill d => exact htraffic.elim

/-- A send that returns `-EAGAIN` leaves an entry for its length at its ring, unless there is
one for more bytes. -/
theorem send_awaits {a : SendArgs} {ins : List Insertion}
    (h : s.step (.hypercall d (.send a)) = some (.returned d (.send a) (-eagain) ins, s')) :
    ∃ src dst r, copyAddrs a.srcOkay a.src a.dstOkay a.dst = some (src, dst) ∧
      s.ringFor src.domain dst = some r ∧ ins = [⟨r.id, d, -eagain⟩] ∧ s'.v4v d ≠ none ∧
      ((∀ y ∈ r.pending, y.id = d → y.len ≤ a.len) → s'.Awaits r.id ⟨d, a.len⟩) := by
  have htraffic := (show IsTraffic (.hypercall d (.send a)) from trivial).v4v h d
  obtain ⟨priv, o, ho, hev, rfl⟩ := Hyp.step_hypercall h
  simp only [Event.returned.injEq, true_and] at hev
  obtain ⟨hret, rfl⟩ := hev
  rcases dispatch_send ho with ⟨-, rfl⟩ | ⟨src, dst, out, haddrs, hout, rfl⟩
  · exact absurd hret (by simp [OpOut.plain, efault, eagain])
  · rcases sendWith_pending (fun r o ho => (send_insert r o ho).1) hout with
      ⟨hne, _⟩ | ⟨r, i, hr, hi, hinserted, hagain, hchange⟩
    · exact absurd hret.symm hne
    · obtain ⟨hiret, hqueued⟩ := hagain hret.symm
      have hv4v : s.v4v d ≠ none := by
        cases send_effect hout with
        | unreached _ _ _ hnil => cases hinserted.symm.trans hnil
        | refused _ _ hnil => cases hinserted.symm.trans hnil
        | reached _ _ hv4v => exact hv4v
      refine ⟨src, dst, r, haddrs, hr, by rw [← hiret]; exact hinserted,
        fun hnone => hv4v (htraffic.mp hnone), fun hle => ?_⟩
      refine ⟨_, (hchange r.id).trans (if_pos rfl), ?_⟩
      dsimp only [pendingAfter]
      rw [if_pos hiret]
      exact mem_pendingRequeue_self hqueued hle

/-- The owner's notify signals the domain whose entry it finds. -/
theorem Hyp.Awaits.signals {data : Option RingData} {e : Event} (h : s.Awaits id x)
    (hv4v : s.v4v x.id ≠ none) (howner : OwnerNotifies id x.len s (.hypercall d (.notify data)))
    (hstep : s.step (.hypercall d (.notify data)) = some (e, s')) : s.Signals s' x.id := by
  obtain ⟨rfl, r, space, hr, hspace, hle⟩ := howner
  obtain ⟨r', hr', hx⟩ := h
  obtain rfl := Option.some.inj (hr.symm.trans hr')
  obtain ⟨t, ht⟩ := Option.ne_none_iff_exists'.mp hv4v
  obtain ⟨priv, o, ho, -, rfl⟩ := Hyp.step_hypercall hstep
  obtain ⟨q, hq, rfl⟩ := Option.map_eq_some_iff.mp ho
  have hlocked : (s.acquire (.domainLock id.addr.domain)).ring id = some r := hr
  have hsignals := notify_signals hq hlocked hspace hx hle (Hyp.domains_of_v4v ht)
  exact hsignals

end

/-- Domain 1 sends `n` bytes from port 7 to port 5 of domain 2. -/
def sendsBytes (n : UInt32) : SendArgs :=
  ⟨true, some ⟨7, 1⟩, true, some ⟨5, 2⟩, 0, ⟨false, true⟩, .ofBytes (List.replicate n.toNat 0), n⟩

/-- Domain 2 has a ring of 128 bytes for domain 1, with two messages of 20 bytes in it. -/
def twoMessages : List Act :=
  [.create 1 false true, .create 2 false true,
    .hypercall 2 (.registerRing (.smooth ⟨⟨5, 2⟩, 1⟩ 128 0 0 1)),
    .hypercall 1 (.send (sendsBytes 20)), .hypercall 1 (.send (sendsBytes 20))]

/-- What domain 2's ring holds when it has read the first of the messages. -/
def readOne : PageMem :=
  PageMem.storeWord (((Hyp.after twoMessages).ring ⟨⟨5, 2⟩, 1⟩).elim (fun _ _ => 0) RingInfo.mem)
    offsetofRxPtr 48

/-- Domain 1 is told to try again with 10 bytes. -/
def sendsTen : List Act := twoMessages ++ [.hypercall 1 (.send (sendsBytes 10))]

theorem sendsTen_again : (Hyp.after twoMessages).step (.hypercall 1 (.send (sendsBytes 10))) =
    some (.returned 1 (.send (sendsBytes 10)) (-eagain) [⟨⟨⟨5, 2⟩, 1⟩, 1, -eagain⟩],
      Hyp.after sendsTen) := rfl

/-- The ring these sends are for. -/
theorem ringFor_twoMessages {src dst : Addr} {r : RingInfo}
    (haddrs : copyAddrs true (some ⟨7, 1⟩) true (some ⟨5, 2⟩) = some (src, dst))
    (hr : (Hyp.after twoMessages).ringFor src.domain dst = some r) :
    r.id = ⟨⟨5, 2⟩, 1⟩ ∧ r.pending = [] := by
  obtain ⟨rfl, rfl⟩ := Prod.mk.inj (Option.some.inj haddrs)
  have hring : ((Hyp.after twoMessages).ringFor 1 ⟨5, 2⟩).map
      (fun r => (r.id, r.pending)) = some (⟨⟨5, 2⟩, 1⟩, []) := by decide +kernel
  rw [hr, Option.map_some, Option.some.injEq, Prod.mk.injEq] at hring
  exact hring

/-- The owner of the ring issues a notify when the ring has `space` bytes for a message. -/
theorem ownerNotifies_of_space (space : Nat) {acts : List Act} {n : UInt32}
    (h : ((Hyp.after acts).ring ⟨⟨5, 2⟩, 1⟩).bind payloadSpace = some space)
    (hle : n.toNat ≤ space) :
    OwnerNotifies ⟨⟨5, 2⟩, 1⟩ n (Hyp.after acts) (.hypercall 2 (.notify none)) := by
  obtain ⟨r, hr, hspace⟩ := Option.bind_eq_some_iff.mp h
  exact ⟨rfl, r, space, hr, hspace, hle⟩

/-- What would excuse a missing signal: the domain got a message through to the ring, or it asked
for at least as many bytes in a notify of its own and was told that they are there. -/
def Excused (id : RingId) (x : PendingEnt) (s : Hyp) : Act → Prop
  | .hypercall d (.send a) => d = x.id ∧ ∃ ret s', 0 ≤ ret ∧ s.step (.hypercall d (.send a)) =
      some (.returned d (.send a) ret [⟨id, d, ret⟩], s')
  | .hypercall d (.sendv a) => d = x.id ∧ ∃ ret s', 0 ≤ ret ∧ s.step (.hypercall d (.sendv a)) =
      some (.returned d (.sendv a) ret [⟨id, d, ret⟩], s')
  | .hypercall d (.notify data) => d = x.id ∧ ∃ ent ∈ questions data, ∃ space,
      s.sight d ent.ring = some (id, some space) ∧ ent.spaceRequired.toNat ≤ space ∧
      x.len ≤ ent.spaceRequired
  | _ => False

end V4v
