import LegacyV4v.RingInsertCases

/-! # Where a send may write

Every chunk an insertion copies should be a piece of one ring page and lie inside the
data area.  For payloads up to `2^32 - 16` bytes it does.  For the fifteen longer ones
`V4V_ROUNDUP` wraps to zero, so the size checks take the message for an empty one, and
the copy runs out of the ring: either page by page to the end of the pages, or, if
`offset + len` wraps too, in a single chunk that starts in the first page. -/
namespace V4v
open MachineWord CyclicBuffer

namespace RingInfo
variable {r : RingInfo}

/-- A ring as registration should leave it: aligned pointers, and pages for header and
data. -/
structure Registered (r : RingInfo) : Prop where
  sane : r.Sane
  mapped : r.Mapped
  cover : sizeofRing + r.len.toNat ≤ r.npage.toNat * pageSize

/-- The chunk is a piece of one page of the ring and lies in the data area. -/
def Contains (r : RingInfo) (c : Chunk) : Prop :=
  c.InPage ∧ c.page < r.npage.toNat ∧ sizeofRing ≤ c.start ∧
    c.start + c.len ≤ sizeofRing + r.len.toNat

instance (r : RingInfo) (c : Chunk) : Decidable (r.Contains c) :=
  inferInstanceAs (Decidable (_ ∧ _))

/-- Whatever the sender's buffer holds and wherever it faults, a send of `len` bytes
copies inside the ring only. -/
def SendContained (r : RingInfo) (len : UInt32) : Prop :=
  ∀ src proto buf out, ringbufInsert r src proto buf len = some out →
    ∀ c ∈ out.chunks, r.Contains c

/-- For the lengths that wrap, the size checks see an empty message. -/
theorem messageSize_wrapped {len : UInt32} (h : 4294967280 < len.toNat) :
    messageSize len = sizeofMessageHeader := by
  have := len.toNat_lt
  unfold messageSize
  rw [roundup_toNat]
  omega

/-- The pages of a ring do not end with its data, so there is a byte behind it. -/
theorem Registered.byte_behind (h : r.Registered) :
    sizeofRing + r.len.toNat < r.npage.toNat * pageSize := by
  have hcover := h.cover
  have hmod := h.sane.len_mod
  unfold sizeofRing pageSize at *
  omega

/-- A payload longer than the ring and the room to its end leaves the data area. -/
theorem copyPayload_escapes (h : r.Registered) {tx len : Nat} (htx : tx < r.len.toNat)
    (hlen : r.len.toNat + (r.len.toNat - tx) < len) (hmax : len < 4294967296) {buf : GuestBuf}
    (hbuf : buf.Readable) (m : PageMem) :
    ∃ c ∈ (r.copyPayload m tx buf len).chunks, ¬ r.Contains c := by
  have hbehind := h.byte_behind
  have hcover := h.cover
  rw [copyPayload_eq htx h.sane.len_le, if_pos (by omega)]
  rcases CopyOut.andThen_cases (r.memcpyToGuestRingFromGuest m (tx + sizeofRing) buf 0
    (r.len.toNat - tx)) _ with ⟨hne, _⟩ | ⟨_, hthen⟩
  · have hle := h.sane.len_le
    exact absurd (memcpy_ok hbuf (by omega) (by omega) (by omega)) hne
  · rw [hthen]
    suffices hrest : ∀ m, ∃ c ∈ (r.memcpyToGuestRingFromGuest m sizeofRing buf
        (i32 (r.len.toNat - tx : Nat)) (len - (r.len.toNat - tx))).chunks, ¬ r.Contains c by
      obtain ⟨c, hc, hout⟩ := hrest _
      exact ⟨c, List.mem_append_right _ hc, hout⟩
    intro m
    have hpos : 0 < r.npage.toNat := Nat.pos_of_ne_zero fun hz => by rw [hz] at hbehind; omega
    have hloop : r.memcpyToGuestRingFromGuest m sizeofRing buf (i32 (r.len.toNat - tx : Nat))
        (len - (r.len.toNat - tx)) = copyLoop buf r.npage.toNat 0 sizeofRing
          (i32 (r.len.toNat - tx : Nat)) (len - (r.len.toNat - tx)) m := rfl
    rw [hloop]
    by_cases hwrap : 4294967296 ≤ sizeofRing + (len - (r.len.toNat - tx))
    · -- one chunk, longer than a page
      obtain ⟨hchunks, hpage⟩ := copyLoop_wrapped (by decide) (by omega) hwrap hpos
      rw [hchunks]
      exact ⟨_, List.mem_singleton_self _, fun hin => hpage hin.1⟩
    · -- page by page, past the end of the data
      have hreach : ∃ c ∈ (copyLoop buf r.npage.toNat 0 sizeofRing
          (i32 (r.len.toNat - tx : Nat)) (len - (r.len.toNat - tx)) m).chunks,
          c.start ≤ sizeofRing + r.len.toNat ∧ sizeofRing + r.len.toNat < c.start + c.len :=
        copyLoop_covers (by decide) (by omega) (Or.inr hbuf) (by omega) (by omega)
          (by rwa [Nat.zero_add])
      obtain ⟨c, hc, _, hend⟩ := hreach
      exact ⟨c, hc, fun hin => by have := hin.2.2.2; omega⟩

theorem writeMessage_escapes (h : r.Registered) (hsmall : r.len.toNat < 2147483648)
    {len : UInt32} (hlen : 4294967280 < len.toNat) {src : Addr} {proto : UInt32} {buf : GuestBuf}
    (hbuf : buf.Readable) :
    ∃ c ∈ (r.writeMessage src proto buf len).chunks, ¬ r.Contains c := by
  unfold writeMessage
  rcases CopyOut.andThen_cases (r.writeHeader src proto len) _ with ⟨hne, _⟩ | ⟨_, hthen⟩
  · exact absurd (writeHeader_ok h.sane h.cover) hne
  · rw [hthen]
    have hmod := h.sane.len_mod
    obtain ⟨c, hc, hout⟩ := copyPayload_escapes h (afterHeader_lt h.sane) (by omega) len.toNat_lt
      hbuf (r.writeHeader src proto len).mem
    exact ⟨c, List.mem_append_right _ hc, hout⟩

/-- A length that wraps is contained only if not even a header fits. -/
theorem not_sendContained (h : r.Registered) (hsmall : r.len.toNat < 2147483648) {len : UInt32}
    (hlen : 4294967280 < len.toNat) (hroom : sizeofMessageHeader < sizeT (r.space r.rxPtr)) :
    ¬ r.SendContained len := by
  intro hall
  have hsize := messageSize_wrapped hlen
  have hadm : r.Admits len := by
    have := h.sane.len_ge
    unfold sizeofMessageHeader at hsize hroom
    exact ⟨by omega, by omega⟩
  obtain ⟨c, hc, hout⟩ : ∃ c ∈ (r.writeMessage ⟨0, 0⟩ 0 (GuestBuf.ofBytes []) len).chunks,
      ¬ r.Contains c :=
    writeMessage_escapes h hsmall hlen (GuestBuf.ofBytes_readable [])
  refine hout ?_
  have hins := insertWith_of_admits hadm h.mapped
    (r.writeMessage ⟨0, 0⟩ 0 (GuestBuf.ofBytes []) len) (r.afterMessage len)
  by_cases hret : (r.writeMessage ⟨0, 0⟩ 0 (GuestBuf.ofBytes []) len).ret ≠ 0
  · exact hall _ _ _ _ (hins.trans (if_pos hret)) c hc
  · exact hall _ _ _ _ (hins.trans (if_neg hret)) c hc

/-- A length that does not wrap is contained, and so is one that is refused. -/
theorem sendContained_of (h : r.Registered) {len : UInt32}
    (hcond : len.toNat ≤ 4294967280 ∨ sizeT (r.space r.rxPtr) ≤ sizeofMessageHeader) :
    r.SendContained len := by
  intro src proto buf out hout c hc
  have hlen : r.Admits len → len.toNat ≤ 4294967280 := by
    intro hadm
    by_contra hlen
    have hsize := messageSize_wrapped (Nat.lt_of_not_le hlen)
    have := hadm.2
    omega
  rcases insertWith_cases hout with ⟨_, hnil, _⟩ | ⟨hadm, _, _, rfl⟩ | ⟨hadm, _, _, rfl⟩
  · rw [hnil] at hc; cases hc
  · exact writeMessage_chunks h.sane (hlen hadm) hadm.1 hc
  · exact writeMessage_chunks h.sane (hlen hadm) hadm.1 hc

theorem blank_registered {id : RingId} {len npage rx tx : UInt32} (hmod : len.toNat % 16 = 0)
    (hge : 48 ≤ len.toNat) (hle : len.toNat ≤ 4294963200) (hnpage : npage ≠ 0)
    (hcover : sizeofRing + len.toNat ≤ npage.toNat * pageSize) (htx : tx.toNat % 16 = 0)
    (hlt : tx.toNat < len.toNat) : (blank id len npage rx tx).Registered :=
  ⟨⟨hmod, hge, hle, htx, hlt⟩, blank_mapped _ _ _ _ _ hnpage, hcover⟩

end RingInfo

open RingInfo

/-- **When a send stays inside the ring.**  A registered ring shorter than `2^31` bytes
is left alone outside its data area, and each chunk stays in its page, exactly when the
payload length does not wrap in `V4V_ROUNDUP` or the receiver's `rx_ptr` leaves no room
even for a message header. -/
theorem sendContained_iff {r : RingInfo} (h : r.Registered) (hsmall : r.len.toNat < 2147483648)
    (len : UInt32) : r.SendContained len ↔
      len.toNat ≤ 4294967280 ∨ sizeT (r.space r.rxPtr) ≤ sizeofMessageHeader := by
  refine ⟨fun hall => ?_, sendContained_of h⟩
  by_contra hcond
  rw [not_or, Nat.not_le, Nat.not_le] at hcond
  exact not_sendContained h hsmall hcond.1 hcond.2 hall

/-- A ring of 48 bytes on one page, empty. -/
def pageRing : RingInfo := blank ⟨⟨1, 1⟩, 2⟩ 48 1 16 16

theorem pageRing_registered : pageRing.Registered :=
  blank_registered (by decide) (by decide) (by decide) (by decide) (by decide) (by decide)
    (by decide)

theorem sendContained_pageRing : pageRing.SendContained 16 :=
  (sendContained_iff pageRing_registered (by decide) 16).mpr (Or.inl (by decide))

/-- A send of `2^32 - 15` bytes to an empty ring of 48 bytes leaves the ring. -/
theorem pageRing_not_contained : ¬ ∀ (r : RingInfo) (len : UInt32), r.Registered →
    r.len.toNat < 2147483648 → r.SendContained len := by
  intro hall
  have hrx : pageRing.rxPtr = 16 := blank_rxPtr _ _ _ _ _
  refine not_sendContained pageRing_registered (by decide) (by decide) ?_
    (hall pageRing 4294967281 pageRing_registered (by decide))
  rw [hrx]
  decide

end V4v
