import LegacyV4v.RingOwnership

/-! # Spare ports

`v4v_find_spare_port_number` and its Windows counterpart: a random port, or, when a ring has that port,
one more than the largest port of all rings.  A user may bind port `0xffffffff`, and one more than that is
no port at all: the next ring gets port 0, and so does the one after it, as a spare port is not checked again.

Otherwise the port is spare, and no two rings have the same port and partner. -/
namespace V4v
open MachineWord

/-! ## The functions -/

/-- The loop of `v4v_port_in_use`: what is found of the port, and `*max`. -/
def scanPorts {α : Type} (found : α → α) (port : UInt32) (ids : List RingId) (s : α × UInt32) : α × UInt32 :=
  ids.foldl (fun s id => (if id.addr.port = port then found s.1 else s.1,
    if s.2 < id.addr.port then id.addr.port else s.2)) s

/-- `v4v_random_port`, for what `v4v_random32` returns. -/
def randomPort (random : UInt32) : UInt32 :=
  let port := random ||| 0x80000000
  if 0xf0000000 < port then port - 0x10000000 else port

namespace Linux

/-- `v4v_port_in_use`, which counts in a `uint32_t`. -/
def portInUse (ids : List RingId) (port max : UInt32) : UInt32 × UInt32 :=
  scanPorts (· + 1) port ids (0, max)

/-- `v4v_find_spare_port_number`. -/
def findSparePortNumber (ids : List RingId) (random : UInt32) : UInt32 :=
  let port := randomPort random
  let out := portInUse ids port 0x80000000
  if out.1 = 0 then port else out.2 + 1

end Linux

namespace Windows

/-- `V4vPortInUse`. -/
def v4vPortInUse (ids : List RingId) (port max : UInt32) : Bool × UInt32 :=
  scanPorts (fun _ => true) port ids (false, max)

/-- `V4vRandomPort`, for what `RtlRandomEx` returns. -/
def v4vRandomPort (random : UInt32) : UInt32 := randomPort random

/-- `V4vSparePortNumber`. -/
def v4vSparePortNumber (ids : List RingId) (port : UInt32) : UInt32 :=
  let out := v4vPortInUse ids port 0x80000000
  if out.1 then out.2 + 1 else port

/-- `V4vRingIdInUse`. -/
def v4vRingIdInUse (ids : List RingId) (id : RingId) : Bool :=
  ids.any fun x => x.addr.port == id.addr.port && x.partner == id.partner

end Windows

/-! ## What the scan finds -/

/-- How many rings have the port. -/
def portUses (ids : List RingId) (port : UInt32) : Nat := ids.countP fun id => id.addr.port = port

/-- The largest port of all is bound. -/
def Exhausted (ids : List RingId) : Prop := ∃ id ∈ ids, id.addr.port = 0xffffffff

/-- A port for a new ring. -/
def Spare (ids : List RingId) (port : UInt32) : Prop := port ≠ 0 ∧ ∀ id ∈ ids, id.addr.port ≠ port

section Scan
variable {α : Type} {found : α → α} {port : UInt32} {ids : List RingId} {s : α × UInt32}

theorem scanPorts_fst : (scanPorts found port ids s).1 = found^[portUses ids port] s.1 := by
  induction ids generalizing s with
  | nil => rfl
  | cons id ids ih =>
    refine ih.trans ?_
    unfold portUses
    rw [List.countP_cons]
    by_cases hport : id.addr.port = port
    · simp [hport, Function.iterate_succ_apply]
    · simp [hport]

/-- The maximum is at least each port, and one of them, unless it was there before. -/
theorem scanPorts_snd : s.2 ≤ (scanPorts found port ids s).2 ∧
    (∀ id ∈ ids, id.addr.port ≤ (scanPorts found port ids s).2) ∧
    ((scanPorts found port ids s).2 = s.2 ∨ ∃ id ∈ ids, id.addr.port = (scanPorts found port ids s).2) := by
  induction ids generalizing s with
  | nil => exact ⟨UInt32.le_refl _, by simp, .inl rfl⟩
  | cons id ids ih =>
    have hmax : s.2 ≤ (if s.2 < id.addr.port then id.addr.port else s.2) ∧
        id.addr.port ≤ (if s.2 < id.addr.port then id.addr.port else s.2) ∧
        ((if s.2 < id.addr.port then id.addr.port else s.2) = s.2 ∨
          id.addr.port = if s.2 < id.addr.port then id.addr.port else s.2) := by
      split
      · next hlt => exact ⟨UInt32.le_of_lt hlt, UInt32.le_refl _, .inr rfl⟩
      · next hge => exact ⟨UInt32.le_refl _, UInt32.not_lt.mp hge, .inl rfl⟩
    obtain ⟨hstart, hall, hone⟩ := ih (s := (if id.addr.port = port then found s.1 else s.1,
      if s.2 < id.addr.port then id.addr.port else s.2))
    refine ⟨UInt32.le_trans hmax.1 hstart, ?_, ?_⟩
    · intro x hx
      rcases List.mem_cons.mp hx with rfl | hx
      · exact UInt32.le_trans hmax.2.1 hstart
      · exact hall x hx
    · rcases hone with hone | ⟨x, hx, hone⟩
      · exact hmax.2.2.imp hone.trans fun hid => ⟨id, List.mem_cons_self, hid.trans hone.symm⟩
      · exact .inr ⟨x, List.mem_cons_of_mem _ hx, hone⟩

/-- One more than the maximum is spare, if it is a port at all. -/
theorem spare_succ_iff : Spare ids ((scanPorts found port ids (s.1, 0x80000000)).2 + 1) ↔ ¬ Exhausted ids := by
  have hscan : (s.1, 0x80000000).2 ≤ (scanPorts found port ids (s.1, 0x80000000)).2 ∧ _ ∧ _ := scanPorts_snd
  obtain ⟨-, hall, hone⟩ := hscan
  generalize (scanPorts found port ids (s.1, 0x80000000)).2 = max at hall hone
  constructor
  · rintro ⟨hzero, -⟩ ⟨id, hid, hlast⟩
    have hle := UInt32.le_iff_toNat_le.mp (hall id hid)
    rw [hlast] at hle
    have hmax : max = 0xffffffff := UInt32.toNat_inj.mp (by have := max.toNat_lt; simp at hle ⊢; omega)
    rw [hmax] at hzero
    exact hzero rfl
  · intro hfree
    have hlt : max.toNat < 4294967295 := by
      have hne : max ≠ 0xffffffff := by
        rcases hone with hone | ⟨id, hid, hone⟩
        · exact fun hmax => absurd (hone.symm.trans hmax) (show (0x80000000 : UInt32) ≠ 0xffffffff by decide)
        · intro hmax
          exact hfree ⟨id, hid, hone.trans hmax⟩
      have hne' : max.toNat ≠ 4294967295 := fun h => hne (UInt32.toNat_inj.mp h)
      have := max.toNat_lt
      omega
    have hsucc : (max + 1).toNat = max.toNat + 1 := by
      rw [UInt32.toNat_add]
      simp
      omega
    refine ⟨fun hzero => ?_, fun id hid hport => ?_⟩
    · rw [hzero] at hsucc
      cases hsucc
    · have hle := UInt32.le_iff_toNat_le.mp (hall id hid)
      rw [hport, hsucc] at hle
      omega

end Scan

theorem randomPort_ne_zero (random : UInt32) : randomPort random ≠ 0 := by
  have hor : 2147483648 ≤ (random ||| 0x80000000).toNat := by
    rw [UInt32.toNat_or]
    exact Nat.right_le_or
  unfold randomPort
  dsimp only
  split
  · next hbig =>
    have hbig := UInt32.lt_iff_toNat_lt.mp hbig
    intro hzero
    have hsub := congrArg UInt32.toNat hzero
    rw [UInt32.toNat_sub_of_le _ _ (UInt32.le_iff_toNat_le.mpr (by simp at hbig ⊢; omega))] at hsub
    simp at hbig hsub
    omega
  · intro hzero
    rw [hzero] at hor
    cases hor

theorem spare_randomPort_iff {ids : List RingId} {random : UInt32} :
    Spare ids (randomPort random) ↔ portUses ids (randomPort random) = 0 := by
  unfold Spare portUses
  rw [List.countP_eq_zero]
  simp [randomPort_ne_zero]

/-- **When the port is spare**, in Linux. -/
theorem Linux.findSparePortNumber_spare_iff (ids : List RingId) (random : UInt32) :
    Spare ids (findSparePortNumber ids random) ↔ portUses ids (randomPort random) = 0 ∨
      portUses ids (randomPort random) % 2 ^ 32 ≠ 0 ∧ ¬ Exhausted ids := by
  have hcount : ∀ n, (· + 1 : UInt32 → UInt32)^[n] 0 = UInt32.ofNat n := by
    intro n
    induction n with
    | zero => rfl
    | succ n ih => rw [Function.iterate_succ_apply', ih, UInt32.ofNat_add]; rfl
  unfold findSparePortNumber portInUse
  dsimp only
  rw [scanPorts_fst, hcount]
  split
  · next hzero =>
    have hmod : portUses ids (randomPort random) % 2 ^ 32 = 0 := congrArg UInt32.toNat hzero
    rw [spare_randomPort_iff]
    exact ⟨.inl, fun h => h.resolve_right fun hused => hused.1 hmod⟩
  · next hused =>
    have hmod : portUses ids (randomPort random) % 2 ^ 32 ≠ 0 := fun h => hused (UInt32.toNat_inj.mp h)
    rw [spare_succ_iff (s := (0, 0))]
    refine ⟨fun hfree => .inr ⟨hmod, hfree⟩, fun h => (h.resolve_left fun hnone => ?_).2⟩
    rw [hnone] at hmod
    exact hmod rfl

/-- **When the port is spare**, in Windows. -/
theorem Windows.v4vSparePortNumber_spare_iff (ids : List RingId) (random : UInt32) :
    Spare ids (v4vSparePortNumber ids (v4vRandomPort random)) ↔
      portUses ids (randomPort random) = 0 ∨ ¬ Exhausted ids := by
  have hfound : ∀ n, (fun _ : Bool => true)^[n] false = decide (n ≠ 0) := by
    intro n
    cases n with
    | zero => rfl
    | succ n => rw [Function.iterate_succ_apply']; rfl
  unfold v4vSparePortNumber v4vPortInUse v4vRandomPort
  dsimp only
  rw [scanPorts_fst, hfound]
  split
  · next hused =>
    rw [spare_succ_iff (s := (false, 0))]
    simp [of_decide_eq_true hused]
  · next hfree =>
    rw [spare_randomPort_iff]
    simp only [ne_eq, decide_not, Bool.not_eq_true', decide_eq_false_iff_not, not_not] at hfree
    simp [hfree]

/-! ## Rings with one port and partner

A ring that stays keeps its port and partner, so only a new ring matters. -/

/-- The rings have the same port and partner. -/
def RingId.SameUse (id id' : RingId) : Prop := id.addr.port = id'.addr.port ∧ id.partner = id'.partner

/-- The condition: a ring that is to get a spare port finds its random port free, or no ring has the largest
port. -/
def LeavesPorts (ids : List RingId) (id : RingId) (random : UInt32) : Prop :=
  id.addr.port = 0 → portUses ids (randomPort random) = 0 ∨ ¬ Exhausted ids

namespace Linux
open GuardedRun

namespace Heap
variable {s s' : Heap}

/-- The rings of `ring_list`. -/
def ringIds (s : Heap) : List RingId := s.rings.entries.map fun x => x.2.id

theorem mem_ringIds {id : RingId} : id ∈ s.ringIds ↔ ∃ i r, s.rings.lookup i = some r ∧ r.id = id := by
  unfold ringIds
  rw [List.mem_map]
  constructor
  · rintro ⟨⟨i, r⟩, hx, rfl⟩
    exact ⟨i, r, AList.mem_lookup_iff.mpr hx, rfl⟩
  · rintro ⟨i, r, hr, rfl⟩
    exact ⟨⟨i, r⟩, AList.mem_lookup_iff.mp hr, rfl⟩

/-- A spare port is what `v4v_find_spare_port_number` returns. -/
def Draws (s : Heap) (random : UInt32) : OwnAct → Prop
  | .bind _ id n => id.addr.port = 0 → n.spare = findSparePortNumber s.ringIds random
  | _ => True

/-- The step meets the condition. -/
def KeepsPorts (s : Heap) (random : UInt32) : OwnAct → Prop
  | .bind _ id _ => LeavesPorts s.ringIds id random
  | _ => True

/-- No two rings have the same port and partner. -/
def UniqueIds (s : Heap) : Prop :=
  ∀ i j r r', s.rings.lookup i = some r → s.rings.lookup j = some r' → r.id.SameUse r'.id → i = j

/-- Fewer rings have a port than there are domains: the count does not wrap. -/
theorem UniqueIds.portUses_le (h : s.UniqueIds) (port : UInt32) : portUses s.ringIds port ≤ 65536 := by
  have hnodup : ((s.rings.entries.filter fun x => x.2.id.addr.port = port).map
      fun x => x.2.id.partner.toNat).Nodup := by
    refine List.Nodup.map_on ?_ (s.rings.nodupKeys.nodup.filter _)
    rintro ⟨i, r⟩ hr ⟨j, r'⟩ hr' hpartner
    obtain ⟨hr, hport⟩ := List.mem_filter.mp hr
    obtain ⟨hr', hport'⟩ := List.mem_filter.mp hr'
    have huse : r.id.SameUse r'.id :=
      ⟨(of_decide_eq_true hport).trans (of_decide_eq_true hport').symm, UInt16.toNat_inj.mp hpartner⟩
    obtain rfl := h i j r r' (AList.mem_lookup_iff.mpr hr) (AList.mem_lookup_iff.mpr hr') huse
    exact s.rings.nodupKeys.eq_of_fst_eq hr hr' rfl
  have hsub : ((s.rings.entries.filter fun x => x.2.id.addr.port = port).map
      fun x => x.2.id.partner.toNat) ⊆ List.range 65536 := by
    intro n hn
    obtain ⟨x, -, rfl⟩ := List.mem_map.mp hn
    exact List.mem_range.mpr x.2.id.partner.toNat_lt
  have hlen := (List.subperm_of_subset hnodup hsub).length_le
  rw [List.length_map, List.length_range] at hlen
  unfold portUses ringIds
  rw [List.countP_map, List.countP_eq_length_filter]
  exact hlen

/-- Every ring of `s'` is in `s`, under the same id. -/
def Within (s' s : Heap) : Prop :=
  ∀ i r', s'.rings.lookup i = some r' → ∃ r, s.rings.lookup i = some r ∧ r.id = r'.id

theorem Within.refl (s : Heap) : s.Within s := fun _ r hr => ⟨r, hr, rfl⟩

theorem Within.trans {s'' : Heap} (h : s''.Within s') (h' : s'.Within s) : s''.Within s := by
  intro i r hr
  obtain ⟨r', hr', hid⟩ := h i r hr
  obtain ⟨r'', hr'', hid'⟩ := h' i r' hr'
  exact ⟨r'', hr'', hid'.trans hid⟩

theorem UniqueIds.within (h : s.UniqueIds) (hw : s'.Within s) : s'.UniqueIds := by
  rintro i j r r' hr hr' huse
  obtain ⟨r₀, hr₀, hid⟩ := hw i r hr
  obtain ⟨r₀', hr₀', hid'⟩ := hw j r' hr'
  exact h i j r₀ r₀' hr₀ hr₀' (by rwa [hid, hid'])

/-- A ring is replaced by one with its id. -/
theorem within_insert {i : Nat} {r r' : RingObj} (hr : s.rings.lookup i = some r) (hid : r.id = r'.id) :
    Within { s with rings := s.rings.insert i r' } s := by
  intro j x hx
  rcases lookup_insert_some hx with ⟨rfl, rfl⟩ | ⟨-, hx⟩
  · exact ⟨r, hr, hid⟩
  · exact ⟨x, hx, rfl⟩

theorem within_modifyRing {i : Nat} {f : RingObj → RingObj} (hf : ∀ r, (f r).id = r.id) :
    (s.modifyRing i f).Within s := by
  unfold modifyRing
  split
  · exact .refl s
  · next r hr => exact within_insert hr (hf r).symm

theorem within_putRing {i : Nat} : (s.putRing i).Within s := by
  unfold putRing deleteRing
  split
  · exact .refl s
  · next r hr =>
    split
    · intro j x hx
      exact ⟨x, (lookup_erase_some hx).2, rfl⟩
    · exact within_insert hr rfl

theorem within_getRing {i : Nat} (h : s.getRing i = some s') : s'.Within s := by
  unfold getRing at h
  split at h
  · cases h
  · next r hr =>
    split at h
    · cases h
    · obtain rfl := Option.some.inj h
      exact within_insert hr rfl

theorem within_listen {p : Nat} {k : SockObj} : (s.listen p k).Within s := by
  unfold listen
  split
  · split
    · exact .refl s
    · exact within_modifyRing fun _ => rfl
  · exact .refl s

theorem within_acceptBegin {k : SockObj} {a : Nat} : (s.acceptBegin k a).Within s := by
  unfold acceptBegin
  split
  · split
    · exact .refl s
    · split
      · exact .refl s
      · next hget => exact fun j x hx => within_getRing hget j x hx
  · exact .refl s

theorem within_acceptEnd {a i : Nat} {okay : Bool} : (s.acceptEnd a i okay).Within s := by
  unfold acceptEnd
  split
  · exact within_modifyRing (s := s) (i := i) fun _ => rfl
  · exact within_putRing (s := s) (i := i)

theorem within_release {p : Nat} {k : SockObj} : (s.release p k).Within s := by
  unfold release
  dsimp only
  split
  · exact .refl s
  · next i _ =>
    split
    · exact .refl s
    · next r hr =>
      split
      · have hmod : ((s.putRing i).modifyRing i fun r => { r with privates := r.privates.erase p }).Within
            (s.putRing i) := within_modifyRing fun _ => rfl
        exact hmod.trans within_putRing
      · exact within_putRing.trans (within_insert hr rfl)

/-- What `new_ring` leaves of the rings: those there were, or a new one besides. -/
theorem newRing_rings (s : Heap) (p : Nat) (k : SockObj) (id : RingId) (n : NewRing) :
    (s.newRing p k id n).2.rings = s.rings ∨
      (id.addr.port ≠ 0 → s.idInUse id = false) ∧ ∃ r : RingObj,
        (s.newRing p k id n).2.rings = s.rings.insert n.addr r ∧ r.id.partner = id.partner ∧
        r.id.addr.port = if id.addr.port = 0 then n.spare else id.addr.port := by
  unfold newRing
  dsimp only
  split
  · exact .inl rfl
  · split
    · exact .inl rfl
    · split
      · exact .inl rfl
      · split
        · exact .inl rfl
        · next huse =>
          split
          · exact .inl rfl
          · exact .inr ⟨fun hport => Bool.eq_false_iff.mpr fun h => huse ⟨hport, h⟩, _, rfl, rfl, rfl⟩

theorem UniqueIds.newRing (h : s.UniqueIds) {p : Nat} {k : SockObj} {id : RingId} {n : NewRing}
    {random : UInt32} (hdraws : id.addr.port = 0 → n.spare = findSparePortNumber s.ringIds random)
    (hports : LeavesPorts s.ringIds id random) : (s.newRing p k id n).2.UniqueIds := by
  rcases newRing_rings s p k id n with hsame | ⟨hunused, x, hx, hpartner, hport⟩
  · exact h.within fun i r hr => ⟨r, by rwa [hsame] at hr, rfl⟩
  · -- no ring has the port and partner of the new one
    have hnew : ∀ i r, s.rings.lookup i = some r → ¬ r.id.SameUse x.id := by
      intro i r hr huse
      by_cases hzero : id.addr.port = 0
      · have hspare : Spare s.ringIds n.spare := by
          rw [hdraws hzero, findSparePortNumber_spare_iff]
          have hle := h.portUses_le (randomPort random)
          rcases hports hzero with hfree | hfree
          · exact .inl hfree
          · by_cases hnone : portUses s.ringIds (randomPort random) = 0
            · exact .inl hnone
            · exact .inr ⟨by omega, hfree⟩
        rw [if_pos hzero] at hport
        exact hspare.2 r.id (mem_ringIds.mpr ⟨i, r, hr, rfl⟩) (huse.1.trans hport)
      · rw [if_neg hzero] at hport
        have hany := hunused hzero
        unfold idInUse at hany
        rw [List.any_eq_false] at hany
        refine hany ⟨i, r⟩ (AList.mem_lookup_iff.mp hr) ?_
        simp [huse.1.trans hport, huse.2.trans hpartner]
    intro i j r r' hr hr' huse
    rw [hx] at hr hr'
    rcases lookup_insert_some hr with ⟨rfl, rfl⟩ | ⟨-, hold⟩
    · rcases lookup_insert_some hr' with ⟨rfl, -⟩ | ⟨-, hold'⟩
      · rfl
      · exact absurd ⟨huse.1.symm, huse.2.symm⟩ (hnew j r' hold')
    · rcases lookup_insert_some hr' with ⟨-, rfl⟩ | ⟨-, hold'⟩
      · exact absurd huse (hnew i r hold)
      · exact h i j r r' hold hold' huse

theorem UniqueIds.step {a : OwnAct} {random : UInt32} (h : s.UniqueIds) (hdraws : s.Draws random a)
    (hports : s.KeepsPorts random a) (hs : s.Step a s') : s'.UniqueIds := by
  cases hs with
  | openSock => exact h
  | bind =>
    unfold bind
    split
    · exact h
    · dsimp only
      split
      · exact (h.newRing hdraws hports).within (within_modifyRing fun _ => rfl)
      · exact h.newRing hdraws hports
  | listen => exact h.within within_listen
  | acceptBegin => exact h.within within_acceptBegin
  | acceptEnd => exact h.within within_acceptEnd
  | release => exact h.within within_release

end Heap
end Linux

namespace Windows
open GuardedRun

/-- What happens to the list of rings. -/
inductive PortAct where
  | bind (id : RingId) (random : UInt32) (registers : Bool)
  | release (i : Nat)

/-- `V4vCtrlBind`, from the choice of the port to the list. -/
def ctrlBind (ids : List RingId) (id : RingId) (random : UInt32) (registers : Bool) : List RingId :=
  let robj :=
    if id.addr.port = 0 then
      some ⟨⟨v4vSparePortNumber ids (v4vRandomPort random), id.addr.domain⟩, id.partner⟩
    else if v4vRingIdInUse ids id then none
    else some id
  match robj with
  | none => ids
  | some id => if registers then id :: ids else ids

/-- One step.  `V4vReleaseRing` takes a ring off the list with its last reference. -/
inductive PortStep (ids : List RingId) : PortAct → List RingId → Prop
  | bind {id : RingId} {random : UInt32} {registers : Bool} :
      PortStep ids (.bind id random registers) (ctrlBind ids id random registers)
  | release {i : Nat} : PortStep ids (.release i) (ids.eraseIdx i)

/-- The states to which steps that satisfy `ok` lead. -/
abbrev PortsReached (ok : List RingId → PortAct → Prop) : List RingId → Prop :=
  Reachable (fun ids => ids = []) PortStep ok

/-- The step meets the condition. -/
def KeepsPorts (ids : List RingId) : PortAct → Prop
  | .bind id random _ => LeavesPorts ids id random
  | .release _ => True

/-- No two rings have the same port and partner. -/
def UniqueIds (ids : List RingId) : Prop := ids.Pairwise fun id id' => ¬ id.SameUse id'

variable {ids ids' : List RingId}

theorem UniqueIds.cons (h : UniqueIds ids) {id : RingId}
    (hnew : ∀ id' ∈ ids, ¬ id.SameUse id') {registers : Bool} :
    UniqueIds (if registers then id :: ids else ids) := by
  split
  · exact List.Pairwise.cons hnew h
  · exact h

theorem UniqueIds.step {a : PortAct} (h : UniqueIds ids) (hports : KeepsPorts ids a)
    (hs : PortStep ids a ids') : UniqueIds ids' := by
  cases hs with
  | release => exact h.sublist (List.eraseIdx_sublist ..)
  | @bind id random registers =>
    unfold ctrlBind
    dsimp only
    split
    · exact h
    · next id' hid' =>
      refine h.cons fun x hx huse => ?_
      split at hid'
      · next hzero =>
        obtain rfl := Option.some.inj hid'
        have hspare := (v4vSparePortNumber_spare_iff ids random).mpr (hports hzero)
        exact hspare.2 x hx huse.1.symm
      · split at hid'
        · cases hid'
        · next hunused =>
          obtain rfl := Option.some.inj hid'
          refine hunused (List.any_eq_true.mpr ⟨x, hx, ?_⟩)
          simp [huse.1, huse.2]

end Windows

/-! ## Both drivers -/

/-- **Spare ports are spare** exactly when the random port is free or no ring has the largest port; in Linux
the rings with one port are counted modulo `2^32`.  In every run in which this holds where a ring gets a spare
port, no two rings have the same port and partner. -/
theorem spare_ports (ids : List RingId) (random : UInt32) (s : Linux.Heap) :
    (Spare ids (Linux.findSparePortNumber ids random) ↔
      portUses ids (randomPort random) = 0 ∨
        portUses ids (randomPort random) % 2 ^ 32 ≠ 0 ∧ ¬ Exhausted ids) ∧
    (Spare ids (Windows.v4vSparePortNumber ids (Windows.v4vRandomPort random)) ↔
      portUses ids (randomPort random) = 0 ∨ ¬ Exhausted ids) ∧
    (Linux.Heap.Reached (fun s a => ∃ random, s.Draws random a ∧ s.KeepsPorts random a) s → s.UniqueIds) ∧
    (Windows.PortsReached Windows.KeepsPorts ids → Windows.UniqueIds ids) := by
  refine ⟨Linux.findSparePortNumber_spare_iff ids random, Windows.v4vSparePortNumber_spare_iff ids random,
    fun h => ?_, fun h => ?_⟩
  · refine GuardedRun.Reachable.invariant h ?_ ?_
    · rintro _ rfl i j r r' hr
      cases hr
    · rintro s a s' hs ⟨random, hdraws, hports⟩ hstep
      exact hs.step hdraws hports hstep
  · refine GuardedRun.Reachable.invariant h ?_ ?_
    · rintro _ rfl
      exact List.Pairwise.nil
    · exact fun ids a ids' hids hports hstep => hids.step hports hstep

/-- Any port and any partner. -/
def spareId : RingId := ⟨⟨0, domidAny⟩, domidAny⟩

/-- Two rings with spare ports, in Windows; the random port of the second is that of the first. -/
theorem spare_ports_two : Windows.UniqueIds [⟨⟨0x80000001, domidAny⟩, domidAny⟩,
    ⟨⟨0x80000000, domidAny⟩, domidAny⟩] := by
  have hfirst : Windows.PortsReached Windows.KeepsPorts _ :=
    .next (.start rfl) (i := .bind spareId 0 true) (fun _ => .inl rfl) .bind
  have hsecond : Windows.PortsReached Windows.KeepsPorts _ :=
    .next hfirst (i := .bind spareId 0 true) (fun _ => .inr (by simp [Exhausted]; decide)) .bind
  exact (spare_ports _ 0 Linux.Heap.init).2.2.2 hsecond

namespace Linux.Heap

/-- Four datagram sockets; the first two have the largest port and the smallest random port. -/
def crowded : Heap :=
  let open₀ : Heap := { init with socks := init.socks.insert 0 ⟨.dgram, .idle, none⟩ }
  let open₁ : Heap := { open₀ with socks := open₀.socks.insert 1 ⟨.dgram, .idle, none⟩ }
  let open₂ : Heap := { open₁ with socks := open₁.socks.insert 2 ⟨.dgram, .idle, none⟩ }
  let open₃ : Heap := { open₂ with socks := open₂.socks.insert 3 ⟨.dgram, .idle, none⟩ }
  let last := open₃.bind 0 ⟨.dgram, .idle, none⟩ ⟨⟨0xffffffff, domidAny⟩, domidAny⟩ ⟨50, true, 0, true⟩
  last.bind 1 ⟨.dgram, .idle, none⟩ ⟨⟨0x80000000, domidAny⟩, domidAny⟩ ⟨51, true, 0, true⟩

theorem reached_crowded : Reached (fun s a => ∃ random, s.Draws random a) crowded := by
  have hinit : Reached (fun s a => ∃ random, s.Draws random a) init := .start rfl
  have hopen₀ := hinit.next (i := OwnAct.openSock 0 .dgram) ⟨0, trivial⟩ (.openSock ⟨rfl, by simp [init]⟩)
  have hopen₁ := hopen₀.next (i := OwnAct.openSock 1 .dgram) ⟨0, trivial⟩ (.openSock ⟨rfl, by simp [init]⟩)
  have hopen₂ := hopen₁.next (i := OwnAct.openSock 2 .dgram) ⟨0, trivial⟩ (.openSock ⟨rfl, by simp [init]⟩)
  have hopen₃ := hopen₂.next (i := OwnAct.openSock 3 .dgram) ⟨0, trivial⟩ (.openSock ⟨rfl, by simp [init]⟩)
  have hlast := hopen₃.next (i := OwnAct.bind 0 ⟨⟨0xffffffff, domidAny⟩, domidAny⟩ ⟨50, true, 0, true⟩)
    ⟨0, fun h => absurd h (by decide)⟩ (.bind rfl rfl)
  exact hlast.next (i := OwnAct.bind 1 ⟨⟨0x80000000, domidAny⟩, domidAny⟩ ⟨51, true, 0, true⟩)
    ⟨0, fun h => absurd h (by decide)⟩ (.bind rfl rfl)

end Linux.Heap

/-- With the largest port and the random port bound, both drivers choose port 0; and in Linux two sockets
then have it. -/
theorem spare_port_wraps :
    (∃ ids random, Linux.findSparePortNumber ids random = 0 ∧
      Windows.v4vSparePortNumber ids (Windows.v4vRandomPort random) = 0) ∧
    (∃ s, Linux.Heap.Reached (fun s a => ∃ random, s.Draws random a) s ∧ ¬ s.UniqueIds) := by
  constructor
  · exact ⟨[⟨⟨0xffffffff, domidAny⟩, domidAny⟩, ⟨⟨0x80000000, domidAny⟩, domidAny⟩], 0, by decide, by decide⟩
  · have hthird := Linux.Heap.reached_crowded.next (i := Linux.OwnAct.bind 2 spareId ⟨52, true, 0, true⟩)
      ⟨0, fun _ => by decide⟩ (.bind rfl rfl)
    have hfourth := hthird.next (i := Linux.OwnAct.bind 3 spareId ⟨53, true, 0, true⟩)
      ⟨0, fun _ => by decide⟩ (.bind rfl rfl)
    exact ⟨_, hfourth, fun h => absurd (h 52 53 _ _ rfl rfl ⟨rfl, rfl⟩) (by decide)⟩

end V4v
