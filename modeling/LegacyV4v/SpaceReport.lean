import LegacyV4v.PendingSenders

/-! # What a notify reports of a ring's space

`v4v_ringbuf_payload_space` says how many bytes fit into a ring, and the two size checks of an
insertion decide which messages do.  Each computes the free space on its own.  For a ring that is
neither empty nor full both take 32 bytes off the distance between the pointers and agree; an empty
ring is reported with 16 bytes more than it takes, and one with a single free slot admits not even
the empty message that is reported to fit.  Above `2^31` the distance is no `int32_t` any more.

`v4v_fill_ring_data` calls a ring empty when the reported space is the maximal message size, which
does take the 32 bytes off; so it never does. -/
namespace V4v
open MachineWord

/-- What the two functions make of the bytes from `tx_ptr` on to `rx_ptr`, when these are different:
the difference of the pointers as an `int32_t`, plus `len` if it is negative. -/
def freeBytes (len rx tx : Nat) : Nat :=
  if tx < rx then
    if rx - tx < 2147483648 then rx - tx else rx - tx + len - 4294967296
  else if tx - rx ≤ 2147483648 then len - (tx - rx) else 4294967296 - (tx - rx)

/-- The rings and messages for which the reported space and the size checks agree. -/
def SpaceAgrees (len rx tx n : Nat) : Prop :=
  if rx = tx then n + 32 ≤ len ∨ len < n + 16
  else if freeBytes len rx tx < 2147483648 then n ≠ 0 ∨ freeBytes len rx tx ≠ 16
  else if freeBytes len rx tx < 2147483680 then n + 32 ≤ freeBytes len rx tx ∨ len < n + 32
  else n = 0 ∨ len < n + 32

instance (len rx tx n : Nat) : Decidable (SpaceAgrees len rx tx n) := by
  unfold SpaceAgrees; infer_instance

/-- In a ring below 2 GB the bytes from `tx_ptr` to `rx_ptr` are counted as they are. -/
theorem freeBytes_of_small {len rx tx : Nat} (hlen : len ≤ 2147483648) (hrx : rx < len)
    (htx : tx < len) (hne : rx ≠ tx) : freeBytes len rx tx = (rx + len - tx) % len := by
  unfold freeBytes
  by_cases h : tx < rx
  · rw [if_pos h, if_pos (by omega), show rx + len - tx = rx - tx + len by omega,
      Nat.add_mod_right, Nat.mod_eq_of_lt (by omega)]
  · rw [if_neg h, if_pos (by omega), Nat.mod_eq_of_lt (by omega)]
    omega

namespace RingInfo
variable {r : RingInfo}

/-- A ring with valid pointers, whose pages Xen can map. -/
structure Pointed (r : RingInfo) : Prop where
  mapped : r.Mapped
  len_mod : r.len.toNat % 16 = 0
  len_ge : 48 ≤ r.len.toNat
  rx_mod : r.rxPtr % 16 = 0
  rx_lt : r.rxPtr < r.len.toNat
  tx_mod : r.txPtr.toNat % 16 = 0
  tx_lt : r.txPtr.toNat < r.len.toNat

namespace Pointed

theorem freeBytes_mod (h : r.Pointed) : freeBytes r.len.toNat r.rxPtr r.txPtr.toNat % 16 = 0 := by
  obtain ⟨-, hmod, hge, hrxmod, hrx, htxmod, htx⟩ := h
  have hlen := r.len.toNat_lt
  unfold freeBytes
  split <;> split <;> omega

theorem freeBytes_bounds (h : r.Pointed) (hne : r.rxPtr ≠ r.txPtr.toNat) :
    16 ≤ freeBytes r.len.toNat r.rxPtr r.txPtr.toNat ∧
      freeBytes r.len.toNat r.rxPtr r.txPtr.toNat < 4294967296 ∧
      (freeBytes r.len.toNat r.rxPtr r.txPtr.toNat < r.len.toNat ∨
        freeBytes r.len.toNat r.rxPtr r.txPtr.toNat < 2147483648 ∧ 2147483648 ≤ r.len.toNat) := by
  obtain ⟨-, hmod, hge, hrxmod, hrx, htxmod, htx⟩ := h
  have hlen := r.len.toNat_lt
  unfold freeBytes
  split <;> split <;> omega

/-- Both functions see the same free space in a ring that is not empty. -/
theorem space_eq (h : r.Pointed) (hne : r.rxPtr ≠ r.txPtr.toNat) : r.space r.rxPtr =
    if freeBytes r.len.toNat r.rxPtr r.txPtr.toNat < 2147483648 then
      (freeBytes r.len.toNat r.rxPtr r.txPtr.toNat : Int)
    else freeBytes r.len.toNat r.rxPtr r.txPtr.toNat - 4294967296 := by
  obtain ⟨-, hmod, hge, hrxmod, hrx, htxmod, htx⟩ := h
  have hlen := r.len.toNat_lt
  unfold RingInfo.space freeBytes i32
  rw [if_neg hne]
  dsimp only
  by_cases hlt : r.txPtr.toNat < r.rxPtr
  · rw [if_pos hlt]
    by_cases hnear : r.rxPtr - r.txPtr.toNat < 2147483648
    · rw [if_pos hnear, if_pos hnear, if_neg (by omega)]
      omega
    · rw [if_neg hnear, if_pos (by omega)]
      split <;> omega
  · rw [if_neg hlt]
    by_cases hnear : r.txPtr.toNat - r.rxPtr ≤ 2147483648
    · rw [if_pos hnear, if_pos (by omega)]
      split <;> omega
    · rw [if_neg hnear, if_neg (by omega), if_pos (by omega)]
      omega

/-- The reported space: without a message it is `len` less a header, otherwise a header and a slot
less than what is free. -/
theorem payloadSpace_eq (h : r.Pointed) : payloadSpace r = some
    (if r.rxPtr = r.txPtr.toNat then r.len.toNat - 16
    else if freeBytes r.len.toNat r.rxPtr r.txPtr.toNat < 2147483680 then
      freeBytes r.len.toNat r.rxPtr r.txPtr.toNat - 32
    else 0) := by
  unfold payloadSpace
  rw [if_neg h.mapped.1, if_neg h.mapped.2]
  by_cases heq : r.rxPtr = r.txPtr.toNat
  · have hge := h.len_ge
    have hlen := r.len.toNat_lt
    rw [if_pos heq, if_pos heq, u32, sizeofMessageHeader]
    congr 1
    omega
  · have hspace := h.space_eq heq
    obtain ⟨hge, hlt, -⟩ := h.freeBytes_bounds heq
    have hmod := h.freeBytes_mod
    unfold RingInfo.space at hspace
    rw [if_neg heq] at hspace
    dsimp only at hspace
    rw [if_neg heq, if_neg heq]
    dsimp only
    rw [hspace, sizeofMessageHeader]
    generalize freeBytes r.len.toNat r.rxPtr r.txPtr.toNat = free at hge hlt hmod
    congr 1
    unfold i32 u32
    split <;> split <;> split <;> omega

/-- What the two size checks compare. -/
theorem admits_iff (h : r.Pointed) {n : UInt32} (hn : n.toNat ≤ 4294967280) : r.Admits n ↔
    if r.rxPtr = r.txPtr.toNat then n.toNat + 32 ≤ r.len.toNat
    else if freeBytes r.len.toNat r.rxPtr r.txPtr.toNat < 2147483648 then
      n.toNat + 32 ≤ freeBytes r.len.toNat r.rxPtr r.txPtr.toNat
    else n.toNat + 32 ≤ r.len.toNat := by
  have hmod := h.len_mod
  have hlen := r.len.toNat_lt
  have hround : (roundup n).toNat = (n.toNat + 15) / 16 * 16 := by
    rw [roundup_toNat, Nat.mod_eq_of_lt (by omega)]
  unfold RingInfo.Admits RingInfo.messageSize
  rw [hround, sizeofMessageHeader]
  by_cases heq : r.rxPtr = r.txPtr.toNat
  · have hsp : r.space r.rxPtr = i32 r.len.toNat := if_pos heq
    have hge := h.len_ge
    -- from 2 GB on `sp` is negative, and the largest of all as a `size_t`
    have hle : r.len.toNat ≤ sizeT (i32 r.len.toNat) := by
      by_cases hsmall : r.len.toNat < 2147483648
      · rw [i32_of_lt hsmall, sizeT]
        omega
      · have hneg : i32 r.len.toNat = (r.len.toNat : Int) - 4294967296 := by
          unfold i32
          omega
        rw [hneg, sizeT]
        omega
    rw [if_pos heq, hsp]
    omega
  · obtain ⟨hge, hlt, hle⟩ := h.freeBytes_bounds heq
    have hfree := h.freeBytes_mod
    rw [if_neg heq, h.space_eq heq]
    generalize freeBytes r.len.toNat r.rxPtr r.txPtr.toNat = free at hge hlt hle hfree
    unfold sizeT
    split <;> omega

/-- **When the reported space decides which messages are admitted.** -/
theorem space_agrees (h : r.Pointed) {n : UInt32} (hn : n.toNat ≤ 4294967280) {space : Nat}
    (hspace : payloadSpace r = some space) : (n.toNat ≤ space ↔ r.Admits n) ↔
      SpaceAgrees r.len.toNat r.rxPtr r.txPtr.toNat n.toNat := by
  obtain rfl := Option.some.inj (h.payloadSpace_eq.symm.trans hspace)
  rw [h.admits_iff hn]
  have hge := h.len_ge
  unfold SpaceAgrees
  by_cases heq : r.rxPtr = r.txPtr.toNat
  · rw [if_pos heq, if_pos heq, if_pos heq]
    omega
  · obtain ⟨hfge, hlt, hle⟩ := h.freeBytes_bounds heq
    have hfree := h.freeBytes_mod
    rw [if_neg heq, if_neg heq, if_neg heq]
    generalize freeBytes r.len.toNat r.rxPtr r.txPtr.toNat = free at hfge hlt hle hfree
    by_cases hsmall : free < 2147483648
    · rw [if_pos (by omega), if_pos hsmall, if_pos hsmall]
      omega
    · rw [if_neg hsmall, if_neg hsmall]
      split <;> omega

end Pointed

/-- `v4v_ringbuf_insert` of `n` bytes is refused by neither of its size checks. -/
def Admitted (r : RingInfo) (n : UInt32) : Prop :=
  ∀ src proto buf, ringbufInsert r src proto buf n ≠ some ⟨-emsgsize, r, [], []⟩ ∧
    ringbufInsert r src proto buf n ≠ some ⟨-eagain, r, [], [0]⟩

theorem admitted_iff (hm : r.Mapped) (n : UInt32) : r.Admitted n ↔ r.Admits n := by
  constructor
  · intro h
    obtain ⟨hsize, hagain⟩ := h ⟨0, 0⟩ 0 (.ofBytes [])
    rw [ringbufInsert, insertWith, reserve_of_mapped hm] at hsize hagain
    by_cases hlen : r.len.toNat ≤ messageSize n
    · rw [if_pos hlen] at hsize
      exact absurd rfl hsize
    · rw [if_neg hlen] at hagain
      by_cases hspace : sizeT (r.space r.rxPtr) ≤ messageSize n
      · rw [if_pos hspace] at hagain
        exact absurd rfl hagain
      · exact ⟨Nat.lt_of_not_le hlen, Nat.lt_of_not_le hspace⟩
  · intro h src proto buf
    have hret : ∀ {e : Int} {maps : List Nat}, e ≠ 0 → e ≠ -efault → e ≠ i32 n.toNat ∨ maps.length < 2 →
        ringbufInsert r src proto buf n ≠ some ⟨e, r, [], maps⟩ := by
      intro e maps hzero hfault hor heq
      rw [ringbufInsert, insertWith_of_admits h hm] at heq
      split at heq
      · next hne =>
        have he := congrArg InsertOut.ret (Option.some.inj heq)
        rcases writeMessage_ret with hw | hw
        · exact hne hw
        · exact hfault (he.symm.trans hw)
      · have hout := Option.some.inj heq
        rcases hor with hor | hor
        · exact hor (congrArg InsertOut.ret hout).symm
        · have hmaps := congrArg (fun out => out.maps.length) hout
          simp only [List.length_append, List.length_cons] at hmaps
          simp only [List.length_nil] at hmaps
          omega
    exact ⟨hret (by decide) (by decide) (Or.inr (by decide)),
      hret (by decide) (by decide) (Or.inr (by decide))⟩

end RingInfo

/-! ## The flags -/

section
variable {r : RingInfo} {s s' : Hyp} {d : DomId} {e : NotifyEnt} {ent : RingDataEnt}
  {flags : UInt16} {space : Nat}

/-- The three things an answer about a ring says. -/
theorem fillFlags_flags (r : RingInfo) (d : DomId) (ent : RingDataEnt) (alloc : Bool)
    (space : Nat) : (fillFlags r d ent alloc space).1 = ringDataExists |||
      (if ent.spaceRequired.toNat ≤ space then ringDataSufficient else ringDataPending) |||
      if space = u32 (r.len.toNat - sizeofMessageHeader - 16) then ringDataEmpty else 0 := by
  unfold fillFlags
  dsimp only
  by_cases hle : ent.spaceRequired.toNat ≤ space
  · rw [if_pos hle, if_pos hle]
    split <;> rfl
  · rw [if_neg hle, if_neg hle]
    split <;> rfl

theorem sufficient_fillFlags (r : RingInfo) (d : DomId) (ent : RingDataEnt) (alloc : Bool)
    (space : Nat) : (fillFlags r d ent alloc space).1 &&& ringDataSufficient ≠ 0 ↔
      ent.spaceRequired.toNat ≤ space := by
  rw [fillFlags_flags]
  by_cases hle : ent.spaceRequired.toNat ≤ space
  · rw [if_pos hle]
    refine iff_of_true ?_ hle
    split <;> decide
  · rw [if_neg hle]
    refine iff_of_false ?_ hle
    split <;> decide

theorem empty_fillFlags (r : RingInfo) (d : DomId) (ent : RingDataEnt) (alloc : Bool)
    (space : Nat) : (fillFlags r d ent alloc space).1 &&& ringDataEmpty ≠ 0 ↔
      space = u32 (r.len.toNat - sizeofMessageHeader - 16) := by
  rw [fillFlags_flags]
  by_cases hmax : space = u32 (r.len.toNat - sizeofMessageHeader - 16)
  · rw [if_pos hmax]
    refine iff_of_true ?_ hmax
    split <;> decide
  · rw [if_neg hmax]
    refine iff_of_false ?_ hmax
    split <;> decide

/-- The answer about a ring that is there. -/
theorem flags_of_fillRingData (h : fillRingData s d e = some (0, [flags], s'))
    (hent : e.ent = some ent) (hr : s.ringFor d ent.ring = some r)
    (hspace : payloadSpace r = some space) : flags = (fillFlags r d ent e.alloc space).1 := by
  rcases fillRingData_effect h with ⟨hnone, -⟩ | ⟨ent', flags', hent', heff, -, hout⟩
  · cases hnone.symm.trans hent
  · obtain rfl := Option.some.inj (hent'.symm.trans hent)
    rcases hout with ⟨hfault, -⟩ | ⟨-, -, hflags⟩
    · exact absurd (show (0 : Int) = -efault from hfault) (by decide)
    · obtain rfl := (List.cons.inj hflags).1
      cases heff with
      | absent hnone => cases hnone.symm.trans hr
      | answered hr' hspace' heq =>
        obtain rfl := Option.some.inj (hr'.symm.trans hr)
        obtain rfl := Option.some.inj (hspace'.symm.trans hspace)
        exact heq

/-- **The reported space against the size checks.**  The space of a ring is at least `n` if and only
if a message of `n` bytes is admitted, a notify answers "sufficient" to a request for `n` bytes if
and only if it is, and a pending sender of `n` bytes is taken out to be signalled if and only if it
is: all three exactly for the rings and lengths of `SpaceAgrees`. -/
theorem reported_space_iff (hr : r.Pointed) {n : UInt32} (hn : n.toNat ≤ 4294967280) :
    ∃ space, payloadSpace r = some space ∧
      ((n.toNat ≤ space ↔ r.Admitted n) ↔
        SpaceAgrees r.len.toNat r.rxPtr r.txPtr.toNat n.toNat) ∧
      (∀ (s : Hyp) (d : DomId) (e : NotifyEnt) (ent : RingDataEnt) (flags : UInt16) (s' : Hyp),
        e.ent = some ent → ent.spaceRequired = n → s.ringFor d ent.ring = some r →
        fillRingData s d e = some (0, [flags], s') →
        ((flags &&& ringDataSufficient ≠ 0 ↔ r.Admitted n) ↔
          SpaceAgrees r.len.toNat r.rxPtr r.txPtr.toNat n.toNat)) ∧
      ∀ x ∈ r.pending, x.len = n → ((x ∈ pendingFits r.pending space ↔ r.Admitted n) ↔
        SpaceAgrees r.len.toNat r.rxPtr r.txPtr.toNat n.toNat) := by
  obtain ⟨space, hspace⟩ : ∃ space, payloadSpace r = some space := ⟨_, hr.payloadSpace_eq⟩
  have hagrees := hr.space_agrees hn hspace
  rw [← RingInfo.admitted_iff hr.mapped] at hagrees
  refine ⟨space, hspace, hagrees, fun s d e ent flags s' hent hreq hfor hfill => ?_, fun x hx hlen => ?_⟩
  · rw [flags_of_fillRingData hfill hent hfor hspace, sufficient_fillFlags, hreq]
    exact hagrees
  · have hmem : x ∈ pendingFits r.pending space ↔ n.toNat ≤ space := by
      rw [pendingFits, List.mem_filter, decide_eq_true_iff, hlen]
      exact and_iff_right hx
    rw [hmem]
    exact hagrees

end

/-- Domain 2 has a ring of 64 bytes for domain 1, which shows this `rx_ptr` and `tx_ptr = 0`. -/
def askedRing (rxPtr : UInt32) : List Act :=
  [.create 1 false true, .create 2 false true,
    .hypercall 2 (.registerRing (.smooth ⟨⟨5, 2⟩, 1⟩ 64 rxPtr 0 1))]

theorem pointed_asked {r : RingInfo} {rxPtr : UInt32} {rx : Nat}
    (h : ((Hyp.after (askedRing rxPtr)).ringFor 1 ⟨5, 2⟩).map (fun r =>
      (decide r.Mapped, r.len, r.rxPtr, r.txPtr)) = some (true, 64, rx, 0))
    (hmod : rx % 16 = 0) (hlt : rx < 64)
    (hr : (Hyp.after (askedRing rxPtr)).ringFor 1 ⟨5, 2⟩ = some r) :
    r.Pointed ∧ r.len = 64 ∧ r.rxPtr = rx ∧ r.txPtr = 0 := by
  rw [hr] at h
  simp only [Option.map_some, Option.some.injEq, Prod.mk.injEq, decide_eq_true_eq] at h
  obtain ⟨hm, hlen, hrx, htx⟩ := h
  refine ⟨⟨hm, ?_, ?_, ?_, ?_, ?_, ?_⟩, hlen, hrx, htx⟩
  · rw [hlen]; decide
  · rw [hlen]; decide
  · rw [hrx]; exact hmod
  · rw [hlen, hrx]; exact hlt
  · rw [htx]; decide
  · rw [hlen, htx]; decide

theorem reported_space_iff_asked : ∃ r space,
    (Hyp.after (askedRing 48)).ringFor 1 ⟨5, 2⟩ = some r ∧ payloadSpace r = some space ∧
      ((16 ≤ space ↔ r.Admitted 16) ↔ SpaceAgrees 64 48 0 16) ∧ SpaceAgrees 64 48 0 16 := by
  have hfacts : ((Hyp.after (askedRing 48)).ringFor 1 ⟨5, 2⟩).map (fun r =>
      (decide r.Mapped, r.len, r.rxPtr, r.txPtr)) = some (true, 64, 48, 0) := by decide
  obtain ⟨r, hr, -⟩ := Option.map_eq_some_iff.mp hfacts
  obtain ⟨hpointed, hlen, hrx, htx⟩ := pointed_asked hfacts (by decide) (by decide) hr
  obtain ⟨space, hspace, hiff, -⟩ := reported_space_iff hpointed (n := 16) (by decide)
  refine ⟨r, space, hr, hspace, ?_, by decide⟩
  rw [hlen, hrx, htx] at hiff
  exact hiff

/-- The empty ring of 64 bytes is reported with 48 bytes and takes 32. -/
theorem emptyRing_misreported : ¬ ∀ (r : RingInfo) (n : UInt32) (space : Nat), r.Pointed →
    n.toNat ≤ 4294967280 → payloadSpace r = some space → (n.toNat ≤ space ↔ r.Admitted n) := by
  intro hall
  have hfacts : ((Hyp.after (askedRing 0)).ringFor 1 ⟨5, 2⟩).map (fun r =>
      (decide r.Mapped, r.len, r.rxPtr, r.txPtr)) = some (true, 64, 0, 0) := by decide
  obtain ⟨r, hr, -⟩ := Option.map_eq_some_iff.mp hfacts
  obtain ⟨hpointed, hlen, hrx, htx⟩ := pointed_asked hfacts (by decide) (by decide) hr
  have hagree := (hpointed.space_agrees (n := 48) (by decide) hpointed.payloadSpace_eq).mp
    ((hall r 48 _ hpointed (by decide) hpointed.payloadSpace_eq).trans
      (RingInfo.admitted_iff hpointed.mapped 48))
  rw [hlen, hrx, htx] at hagree
  exact absurd hagree (by decide)

section
variable {r : RingInfo} {s s' : Hyp} {d : DomId} {e : NotifyEnt} {ent : RingDataEnt}
  {flags : UInt16}

/-- **The empty flag is never set**, so it is right for the rings that are not empty only. -/
theorem empty_flag_iff (hr : r.Pointed) (hfor : s.ringFor d ent.ring = some r)
    (hent : e.ent = some ent) (h : fillRingData s d e = some (0, [flags], s')) :
    (flags &&& ringDataEmpty ≠ 0 ↔ r.rxPtr = r.txPtr.toNat) ↔ r.rxPtr ≠ r.txPtr.toNat := by
  have hnever : ¬ flags &&& ringDataEmpty ≠ 0 := by
    rw [flags_of_fillRingData h hent hfor hr.payloadSpace_eq, empty_fillFlags, u32,
      sizeofMessageHeader]
    have hge := hr.len_ge
    have hlen := r.len.toNat_lt
    by_cases heq : r.rxPtr = r.txPtr.toNat
    · rw [if_pos heq]
      omega
    · obtain ⟨hfge, -, hle⟩ := hr.freeBytes_bounds heq
      rw [if_neg heq]
      split <;> omega
  exact (iff_congr (iff_false_intro hnever) Iff.rfl).trans (Iff.of_eq (false_iff _))


end

/-- An entry that asks for 10 bytes of the ring. -/
def asksTen : NotifyEnt := ⟨some ⟨⟨5, 2⟩, 10⟩, true, true⟩

theorem empty_flag_iff_asked : ∃ r flags s',
    (Hyp.after (askedRing 48)).ringFor 1 ⟨5, 2⟩ = some r ∧
    fillRingData (Hyp.after (askedRing 48)) 1 asksTen = some (0, [flags], s') ∧
    (flags &&& ringDataEmpty ≠ 0 ↔ r.rxPtr = r.txPtr.toNat) := by
  have hfacts : ((Hyp.after (askedRing 48)).ringFor 1 ⟨5, 2⟩).map (fun r =>
      (decide r.Mapped, r.len, r.rxPtr, r.txPtr)) = some (true, 64, 48, 0) := by decide
  have hrun : (fillRingData (Hyp.after (askedRing 48)) 1 asksTen).map (fun q => (q.1, q.2.1)) =
      some (0, [ringDataExists ||| ringDataSufficient]) := by decide
  obtain ⟨r, hr, -⟩ := Option.map_eq_some_iff.mp hfacts
  obtain ⟨hpointed, -, hrx, htx⟩ := pointed_asked hfacts (by decide) (by decide) hr
  obtain ⟨⟨ret, flags, s'⟩, hq, heq⟩ := Option.map_eq_some_iff.mp hrun
  obtain ⟨rfl, rfl⟩ := Prod.mk.inj heq
  refine ⟨r, _, s', hr, hq, (empty_flag_iff hpointed hr rfl hq).mpr ?_⟩
  rw [hrx, htx]
  decide

/-- The ring is empty, and the flag is not set. -/
theorem emptyRing_not_empty : ¬ ∀ (s : Hyp) (d : DomId) (e : NotifyEnt) (ent : RingDataEnt)
    (r : RingInfo) (flags : UInt16) (s' : Hyp), r.Pointed → s.ringFor d ent.ring = some r →
    e.ent = some ent → fillRingData s d e = some (0, [flags], s') →
    (flags &&& ringDataEmpty ≠ 0 ↔ r.rxPtr = r.txPtr.toNat) := by
  intro hall
  have hfacts : ((Hyp.after (askedRing 0)).ringFor 1 ⟨5, 2⟩).map (fun r =>
      (decide r.Mapped, r.len, r.rxPtr, r.txPtr)) = some (true, 64, 0, 0) := by decide
  have hrun : (fillRingData (Hyp.after (askedRing 0)) 1 asksTen).map (fun q => (q.1, q.2.1)) =
      some (0, [ringDataExists ||| ringDataSufficient]) := by decide
  obtain ⟨r, hr, -⟩ := Option.map_eq_some_iff.mp hfacts
  obtain ⟨hpointed, -, hrx, htx⟩ := pointed_asked hfacts (by decide) (by decide) hr
  obtain ⟨⟨ret, flags, s'⟩, hq, heq⟩ := Option.map_eq_some_iff.mp hrun
  obtain ⟨rfl, rfl⟩ := Prod.mk.inj heq
  have hempty := (hall _ 1 asksTen _ r _ s' hpointed hr rfl hq).mpr (by rw [hrx, htx]; rfl)
  exact absurd hempty (by decide)

end V4v
