import LegacyV4v.RingInsertSpec

/-! # The outcomes of an insertion

`insertWith_cases` lists everything `v4v_ringbuf_insert` and `v4v_ringbuf_insertv`
can do: refuse a message and leave the ring alone, fail in the middle of the copy
with `tx_ptr` unmoved, or publish the message.  The later modules take the two
functions apart through this lemma only. -/
namespace V4v
open MachineWord CyclicBuffer

namespace RingInfo
variable {r : RingInfo}

/-- The second size check, with the shared `rx_ptr` in place of the header copy. -/
theorem reserve_eq (len : UInt32) : r.reserve len =
    if r.npage ≠ 0 ∧ r.mfns = none then none
    else if r.npage = 0 then some (-efault)
    else if sizeT (r.space r.rxPtr) ≤ messageSize len then some (-eagain) else some 0 := by
  unfold reserve
  by_cases hnull : r.npage ≠ 0 ∧ r.mfns = none
  · rw [if_pos hnull, if_pos hnull]
  · rw [if_neg hnull, if_neg hnull]
    by_cases hzero : r.npage = 0
    · rw [if_pos hzero]
      have hread : r.memcpyFromGuestRing 0 sizeofRing = none := by
        unfold memcpyFromGuestRing
        rw [hzero]
        rfl
      rw [hread]
    · rw [if_neg hzero]
      obtain ⟨k, hk⟩ := Nat.exists_eq_add_one_of_ne_zero
        (show r.npage.toNat ≠ 0 from fun h => hzero (UInt32.toNat_inj.mp h))
      have hread : r.memcpyFromGuestRing 0 sizeofRing =
          some ((List.range sizeofRing).map fun i => r.mem 0 (0 + i)) := by
        unfold memcpyFromGuestRing
        rw [hk]
        rfl
      rw [hread]
      have hrx : value ((((List.range sizeofRing).map fun i => r.mem 0 (0 + i)).drop
          offsetofRxPtr).take 4) = r.rxPtr := rfl
      dsimp only
      rw [hrx]

/-- The pages of the ring can be mapped: there is a page list, and it is not empty. -/
def Mapped (r : RingInfo) : Prop := r.npage ≠ 0 ∧ r.mfns ≠ none

instance (r : RingInfo) : Decidable r.Mapped := inferInstanceAs (Decidable (_ ∧ _))

/-- Both size checks let a message of `len` bytes pass. -/
def Admits (r : RingInfo) (len : UInt32) : Prop :=
  messageSize len < r.len.toNat ∧ messageSize len < sizeT (r.space r.rxPtr)

instance (r : RingInfo) (len : UInt32) : Decidable (r.Admits len) :=
  inferInstanceAs (Decidable (_ ∧ _))

/-- For valid pointers the size checks compare with the part of the ring that is not
unread. -/
theorem admits_iff (htx : r.txPtr.toNat < r.len.toNat) (hsmall : r.len.toNat ≤ 2147483648)
    (hrx : r.rxPtr < r.len.toNat) {len : UInt32} : r.Admits len ↔
      distance r.len.toNat r.rxPtr r.txPtr.toNat + messageSize len < r.len.toNat := by
  unfold Admits space distance i32 sizeT
  dsimp only
  -- with equal pointers only the first check counts: `2^31` is negative as an `int32_t`
  split
  · rw [if_pos (by omega)]; omega
  · split <;> split <;> omega

theorem reserve_zero {len : UInt32} (h : r.reserve len = some 0) :
    r.Mapped ∧ messageSize len < sizeT (r.space r.rxPtr) := by
  rw [reserve_eq] at h
  split at h
  · cases h
  · rename_i hnull
    split at h
    · exact absurd h (by simp [efault])
    · rename_i hzero
      split at h
      · exact absurd h (by simp [eagain])
      · exact ⟨⟨hzero, fun hm => hnull ⟨hzero, hm⟩⟩, by omega⟩

theorem reserve_nonzero {len : UInt32} {e : Int} (h : r.reserve len = some e) (he : e ≠ 0) :
    (e = -efault ∧ r.npage = 0) ∨
      (e = -eagain ∧ sizeT (r.space r.rxPtr) ≤ messageSize len) := by
  rw [reserve_eq] at h
  split at h
  · cases h
  · split at h
    · rename_i hzero
      exact Or.inl ⟨(Option.some.inj h).symm, hzero⟩
    · split at h
      · rename_i hsp
        exact Or.inr ⟨(Option.some.inj h).symm, hsp⟩
      · exact absurd (Option.some.inj h).symm he

theorem reserve_of_mapped (hm : r.Mapped) (len : UInt32) : r.reserve len =
    if sizeT (r.space r.rxPtr) ≤ messageSize len then some (-eagain) else some 0 := by
  rw [reserve_eq, if_neg (fun h => hm.2 h.2), if_neg hm.1]

theorem Mapped.mapPage (hm : r.Mapped) : r.mapPage 0 = true := by
  have : r.npage.toNat ≠ 0 := fun h => hm.1 (UInt32.toNat_inj.mp h)
  simp [RingInfo.mapPage]
  omega

/-! ## Publishing -/

theorem publish_eq (hm : r.Mapped) (o : CopyOut) (tx : Nat) (len : UInt32) :
    r.publish o tx len = ⟨i32 len.toNat,
      { r with txPtr := UInt32.ofNat tx, mem := o.mem.storeWord offsetofTxPtr tx },
      o.chunks, o.maps ++ [0]⟩ := by
  unfold publish
  rw [if_pos hm.mapPage]

/-! ## The frame of an insertion -/

/-- **Everything an insertion can do.** -/
theorem insertWith_cases {len : UInt32} {o : CopyOut} {tx : Nat} {out : InsertOut}
    (h : r.insertWith len o tx = some out) :
    (out.ring = r ∧ out.chunks = [] ∧
      (out.ret = -emsgsize ∧ ¬ r.Admits len ∨ out.ret = -eagain ∧ ¬ r.Admits len ∨
        out.ret = -efault ∧ ¬ r.Mapped)) ∨
    (r.Admits len ∧ r.Mapped ∧ o.ret ≠ 0 ∧
      out = ⟨o.ret, { r with mem := o.mem }, o.chunks, 0 :: o.maps⟩) ∨
    (r.Admits len ∧ r.Mapped ∧ o.ret = 0 ∧
      out = ⟨i32 len.toNat,
        { r with txPtr := UInt32.ofNat tx, mem := o.mem.storeWord offsetofTxPtr tx },
        o.chunks, 0 :: o.maps ++ [0]⟩) := by
  unfold insertWith at h
  split at h
  · rename_i hbig
    obtain rfl := Option.some.inj h
    exact Or.inl ⟨rfl, rfl, Or.inl ⟨rfl, fun ha => by have := ha.1; omega⟩⟩
  · rename_i hfit
    cases hres : r.reserve len with
    | none => simp [hres] at h
    | some e =>
      simp only [hres] at h
      by_cases he : e = 0
      · subst he
        obtain ⟨hm, hspace⟩ := reserve_zero hres
        have hadm : r.Admits len := ⟨by omega, hspace⟩
        rw [if_neg (by simp)] at h
        split at h
        · rename_i hne
          exact Or.inr (Or.inl ⟨hadm, hm, hne, (Option.some.inj h).symm⟩)
        · rename_i hok
          rw [publish_eq hm] at h
          exact Or.inr (Or.inr ⟨hadm, hm, by simpa using hok, (Option.some.inj h).symm⟩)
      · rw [if_pos he] at h
        obtain rfl := Option.some.inj h
        refine Or.inl ⟨rfl, rfl, Or.inr ?_⟩
        rcases reserve_nonzero hres he with ⟨rfl, hz⟩ | ⟨rfl, hsp⟩
        · exact Or.inr ⟨rfl, fun hm => hm.1 hz⟩
        · exact Or.inl ⟨rfl, fun ha => by have := ha.2; omega⟩

/-- On mapped pages an insertion always returns. -/
theorem insertWith_isSome (hm : r.Mapped) (len : UInt32) (o : CopyOut) (tx : Nat) :
    ∃ out, r.insertWith len o tx = some out := by
  unfold insertWith
  rw [reserve_of_mapped hm]
  split
  · exact ⟨_, rfl⟩
  · by_cases h : sizeT (r.space r.rxPtr) ≤ messageSize len
    · rw [if_pos h]; exact ⟨_, rfl⟩
    · rw [if_neg h]
      dsimp only
      rw [if_neg (by simp)]
      split <;> exact ⟨_, rfl⟩

/-- An admitted message on mapped pages is copied. -/
theorem insertWith_of_admits {len : UInt32} (hadm : r.Admits len) (hm : r.Mapped) (o : CopyOut)
    (tx : Nat) : r.insertWith len o tx =
      if o.ret ≠ 0 then some ⟨o.ret, { r with mem := o.mem }, o.chunks, 0 :: o.maps⟩
      else some ⟨i32 len.toNat,
        { r with txPtr := UInt32.ofNat tx, mem := o.mem.storeWord offsetofTxPtr tx },
        o.chunks, 0 :: o.maps ++ [0]⟩ := by
  obtain ⟨h1, h2⟩ := hadm
  unfold insertWith
  rw [if_neg (by omega), reserve_of_mapped hm, if_neg (by omega)]
  simp only [ne_eq, not_true_eq_false, if_false]
  rw [publish_eq hm]

end RingInfo

/-- **A message that passes both size checks arrives**, if its payload can be read
and the pages cover the ring: `tx_ptr` moves past it, in the ring info and in the
shared header, and the rest of the header stays as it was. -/
theorem ringbufInsert_of_admits {r : RingInfo} (hs : r.Sane) (hm : r.Mapped)
    (hcover : sizeofRing + r.len.toNat ≤ r.npage.toNat * pageSize) (src : Addr) (proto : UInt32)
    {len : UInt32} {buf : GuestBuf} (hbuf : buf.Readable) (hlen : len.toNat ≤ 4294967280)
    (hadm : r.Admits len) : ∃ out, ringbufInsert r src proto buf len = some out ∧
      out.ret = i32 len.toNat ∧ out.ring.len = r.len ∧ out.ring.npage = r.npage ∧
      out.ring.mfns = r.mfns ∧
      out.ring.txPtr.toNat = advance r.len.toNat r.txPtr.toNat (RingInfo.messageSize len) ∧
      out.ring.rxPtr = r.rxPtr ∧ out.ring.sharedLen = r.sharedLen ∧
      out.ring.sharedTxPtr = out.ring.txPtr.toNat := by
  have hL := r.len.toNat_lt
  have htx := RingInfo.afterMessage_eq hs hlen hadm.1
  have htx_lt : r.afterMessage len < r.len.toNat := by
    rw [htx]; exact advance_lt hs.tx_lt (Nat.le_of_lt hadm.1)
  have hok : (r.writeMessage src proto buf len).ret = 0 :=
    RingInfo.writeMessage_ok hs hlen hadm.1 hcover hbuf
  have hhead : ∀ a, a < sizeofRing → (r.writeMessage src proto buf len).mem.byte a = r.mem.byte a :=
    fun a ha => RingInfo.writeMessage_frame hs hlen hadm.1 fun hs => by have := hs.1; omega
  have hnat : (UInt32.ofNat (r.afterMessage len)).toNat = r.afterMessage len :=
    toNat_ofNat_of_lt (by omega)
  refine ⟨_, (RingInfo.insertWith_of_admits hadm hm _ _).trans (if_neg (by simp [hok])),
    rfl, rfl, rfl, rfl, hnat.trans htx, ?_, ?_, ?_⟩
  · refine (PageMem.read_storeWord_of_ne (by decide) (by decide)).trans ?_
    exact read_congr fun i hi => hhead _ (by unfold offsetofRxPtr sizeofRing; omega)
  · refine (PageMem.read_storeWord_of_ne (by decide) (by decide)).trans ?_
    exact read_congr fun i hi => hhead _ (by unfold offsetofLen sizeofRing; omega)
  · exact (PageMem.read_storeWord (by decide) (by omega)).trans hnat.symm

/-! ## Rings with given pointers -/

namespace RingInfo

/-- A ring whose header shows `len`, `rx` and `tx` and whose pages are zero otherwise. -/
def blank (id : RingId) (len npage rx tx : UInt32) : RingInfo where
  id := id
  len := len
  npage := npage
  txPtr := tx
  mfns := some (List.range' 1 npage.toNat)
  pending := []
  mem := PageMem.storeWord (PageMem.storeWord (PageMem.storeWord (fun _ _ => 0)
    offsetofLen len.toNat) offsetofRxPtr rx.toNat) offsetofTxPtr tx.toNat

variable (id : RingId) (len npage rx tx : UInt32)

@[simp] theorem blank_rxPtr : (blank id len npage rx tx).rxPtr = rx.toNat :=
  (PageMem.read_storeWord_of_ne (by decide) (by decide)).trans
    (PageMem.read_storeWord (by decide) rx.toNat_lt)

@[simp] theorem blank_sharedTxPtr : (blank id len npage rx tx).sharedTxPtr = tx.toNat :=
  PageMem.read_storeWord (by decide) tx.toNat_lt

@[simp] theorem blank_sharedLen : (blank id len npage rx tx).sharedLen = len.toNat :=
  (PageMem.read_storeWord_of_ne (by decide) (by decide)).trans
    ((PageMem.read_storeWord_of_ne (by decide) (by decide)).trans
      (PageMem.read_storeWord (by decide) len.toNat_lt))

theorem blank_mapped (h : npage ≠ 0) : (blank id len npage rx tx).Mapped :=
  ⟨h, Option.some_ne_none _⟩

end RingInfo
end V4v
