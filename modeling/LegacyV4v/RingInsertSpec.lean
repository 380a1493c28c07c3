import LegacyV4v.RingInsert

/-! # What an insertion writes

Seen by the owner of the ring, every copy of an insertion covers a *span* of the
data area: a number of bytes from a position on, going round at the ring end.
Header and payload are two adjoining spans.  The lemmas here say of each step of
an insertion that it writes nothing outside its span, that its chunks lie in the
span, and, when it succeeds, what the span holds. -/
namespace V4v
open MachineWord CyclicBuffer

/-- The rounding does not overflow for what fits in a ring. -/
theorem roundup_of_le {l k : Nat} (hmax : l < 4294967296) (hk : (k + 15) / 16 * 16 ≤ l) :
    (roundup (UInt32.ofNat k)).toNat = (k + 15) / 16 * 16 := by
  have hlt : k + 15 < 4294967296 := by omega
  rw [roundup_toNat, toNat_ofNat_of_lt (Nat.lt_of_le_of_lt (Nat.le_add_right k 15) hlt),
    Nat.mod_eq_of_lt hlt]

/-- Both ends of a ring move on from position `p` behind a payload of `n` bytes in the
same way: what is left behind the ring end, if anything, is rounded up and added to
the start, and a pointer that reaches the end goes back to 0. -/
theorem wrap_roundup {l p n : Nat} (hl : l % 16 = 0) (hmax : l < 4294967296) (hp : p % 16 = 0)
    (hpl : p < l) (hn : (n + 15) / 16 * 16 ≤ l) {q k : Nat}
    (hqk : (q, k) = if l - p < n then (0, n - (l - p)) else (p, n)) :
    (if u32 (q + (roundup (UInt32.ofNat k)).toNat) = l then 0
      else u32 (q + (roundup (UInt32.ofNat k)).toNat)) = advance l p ((n + 15) / 16 * 16) := by
  by_cases hwrap : l - p < n
  · rw [if_pos hwrap] at hqk
    obtain ⟨rfl, rfl⟩ := Prod.mk.inj hqk
    have hsplit : (n + 15) / 16 * 16 = l - p + (n - (l - p) + 15) / 16 * 16 := by omega
    have hlt : (n - (l - p) + 15) / 16 * 16 < l := by omega
    rw [roundup_of_le hmax (Nat.le_of_lt hlt), hsplit]
    generalize (n - (l - p) + 15) / 16 * 16 = k at hlt ⊢
    rw [u32_add (by omega), Nat.zero_add, if_neg (Nat.ne_of_lt hlt), advance_of_le (by omega)]
    omega
  · rw [if_neg hwrap] at hqk
    obtain ⟨rfl, rfl⟩ := Prod.mk.inj hqk
    have hle : q + (k + 15) / 16 * 16 ≤ l := by omega
    rw [roundup_of_le hmax hn]
    rw [u32_add (Nat.lt_of_le_of_lt hle hmax)]
    exact reset_eq_advance hle

namespace RingInfo

/-- A ring with a length registration accepts and a valid `tx_ptr`. -/
structure Sane (r : RingInfo) : Prop where
  len_mod : r.len.toNat % 16 = 0
  len_ge : 48 ≤ r.len.toNat
  len_le : r.len.toNat ≤ 4294963200
  tx_mod : r.txPtr.toNat % 16 = 0
  tx_lt : r.txPtr.toNat < r.len.toNat

/-- What registration checks of the length of a ring.  The upper bound comes from the
page count: `npage << PAGE_SHIFT`, a multiple of `PAGE_SIZE` below `2^32`, is at least
`len`. -/
structure LenOk (r : RingInfo) : Prop where
  len_mod : r.len.toNat % 16 = 0
  len_ge : 48 ≤ r.len.toNat
  len_le : r.len.toNat ≤ 4294963200

/-- The cached `tx_ptr` is a position of the ring where a header can stand. -/
def TxOk (r : RingInfo) : Prop := r.txPtr.toNat < r.len.toNat ∧ r.txPtr.toNat % 16 = 0

instance (r : RingInfo) : Decidable r.TxOk := inferInstanceAs (Decidable (_ ∧ _))

theorem LenOk.sane {r : RingInfo} (h : r.LenOk) (htx : r.TxOk) : r.Sane :=
  ⟨h.len_mod, h.len_ge, h.len_le, htx.2, htx.1⟩

/-- Address `a` is one of the `n` data bytes from position `p` on. -/
def Span (r : RingInfo) (p n a : Nat) : Prop :=
  sizeofRing ≤ a ∧ a < sizeofRing + r.len.toNat ∧ distance r.len.toNat p (a - sizeofRing) < n

variable {r : RingInfo} {m : PageMem} {buf : GuestBuf} {tx len : Nat} {src : Int}

/-- A span and the one that starts where it ends. -/
theorem span_add {p n k a : Nat} (hp : p < r.len.toNat) (hn : n < r.len.toNat)
    (hnk : n + k ≤ r.len.toNat) :
    r.Span p (n + k) a ↔ r.Span p n a ∨ r.Span (advance r.len.toNat p n) k a := by
  unfold Span
  by_cases harea : sizeofRing ≤ a ∧ a < sizeofRing + r.len.toNat
  · have hq : a - sizeofRing < r.len.toNat := by omega
    by_cases hd : distance r.len.toNat p (a - sizeofRing) < n
    · rw [distance_advance_of_lt hp hq hn hd]; omega
    · rw [distance_advance_of_le hp hq (by omega)]; omega
  · omega

/-- The bytes of a span, by their position in it. -/
theorem span_iff {p n a : Nat} (hp : p < r.len.toNat) (hn : n ≤ r.len.toNat) :
    r.Span p n a ↔ ∃ i, i < n ∧ a = sizeofRing + advance r.len.toNat p i := by
  constructor
  · rintro ⟨h1, h2, h3⟩
    refine ⟨_, h3, ?_⟩
    rw [advance_distance hp (by omega)]
    omega
  · rintro ⟨i, hi, rfl⟩
    have hlt := advance_lt hp (show i ≤ r.len.toNat by omega)
    refine ⟨by omega, by omega, ?_⟩
    rw [Nat.add_sub_cancel_left, distance_advance hp (by omega)]
    exact hi

/-- A span that does not reach the ring end is an interval, ... -/
theorem span_of_le {p n a : Nat} (h : p + n ≤ r.len.toNat) :
    r.Span p n a ↔ p + sizeofRing ≤ a ∧ a < p + sizeofRing + n := by
  unfold Span distance sizeofRing
  split <;> omega

/-- ... and one that passes it is two. -/
theorem span_of_gt {p n a : Nat} (hp : p < r.len.toNat) (h : r.len.toNat < p + n)
    (hn : n ≤ r.len.toNat) :
    r.Span p n a ↔ (p + sizeofRing ≤ a ∧ a < sizeofRing + r.len.toNat) ∨
      (sizeofRing ≤ a ∧ a < sizeofRing + (n - (r.len.toNat - p))) := by
  unfold Span distance sizeofRing
  split <;> omega

/-! ## One page copy -/

section Memcpy
variable {offset : Nat}

/-- The offset of a copy in its first page, and that the copy's end does not wrap. -/
theorem offset_in_page (offset : Nat) (hlen : len ≤ 4294963200) :
    offset % pageSize < pageSize ∧ offset % pageSize + len < 4294967296 := by
  have hoff : offset % pageSize < pageSize := Nat.mod_lt _ pageSize_pos
  refine ⟨hoff, ?_⟩
  rw [pageSize] at hoff ⊢
  omega

theorem memcpy_ret : (r.memcpyToGuestRingFromGuest m offset buf src len).ret = 0 ∨
    (r.memcpyToGuestRingFromGuest m offset buf src len).ret = -efault :=
  copyLoop_ret

theorem memcpy_frame (hlen : len ≤ 4294963200) {a : Nat} (ha : a < offset ∨ offset + len ≤ a) :
    (r.memcpyToGuestRingFromGuest m offset buf src len).mem.byte a = m.byte a := by
  obtain ⟨hoff, hend⟩ := offset_in_page offset hlen
  refine copyLoop_frame hoff hend ?_
  rwa [Nat.div_add_mod' offset pageSize]

theorem memcpy_source (hlen : len ≤ 4294963200)
    (hret : (r.memcpyToGuestRingFromGuest m offset buf src len).ret = 0) {i : Nat} (hi : i < len) :
    (r.memcpyToGuestRingFromGuest m offset buf src len).mem.byte (offset + i) =
      buf.byte (src + i) := by
  obtain ⟨hoff, hend⟩ := offset_in_page offset hlen
  have h := copyLoop_source hoff hend hret hi
  rwa [Nat.div_add_mod' offset pageSize] at h

theorem memcpy_chunks (hlen : len ≤ 4294963200) {c : Chunk}
    (hc : c ∈ (r.memcpyToGuestRingFromGuest m offset buf src len).chunks) :
    c.InPage ∧ c.page < r.npage.toNat ∧ offset ≤ c.start ∧ c.start + c.len ≤ offset + len := by
  obtain ⟨hoff, hend⟩ := offset_in_page offset hlen
  obtain ⟨h1, h2, h3, h4⟩ := copyLoop_chunks hoff hend hc
  rw [Nat.div_add_mod' offset pageSize] at h3 h4
  have hpage : c.page < r.npage.toNat := by
    by_cases hle : offset / pageSize ≤ r.npage.toNat
    · omega
    · -- no page is left, so the loop copies nothing
      rw [memcpyToGuestRingFromGuest, show r.npage.toNat - offset / pageSize = 0 by omega] at hc
      simp [copyLoop] at hc
  exact ⟨h1, hpage, h3, h4⟩

/-- The ring's pages cover the copy. -/
theorem memcpy_left (hcover : offset + len ≤ r.npage.toNat * pageSize)
    (hoffset : offset < r.npage.toNat * pageSize) :
    0 < r.npage.toNat - offset / pageSize ∧
      offset % pageSize + len ≤ (r.npage.toNat - offset / pageSize) * pageSize := by
  unfold pageSize at *
  omega

theorem memcpy_maps (hlen : len ≤ 4294963200) (hcover : offset + len ≤ r.npage.toNat * pageSize)
    (hoffset : offset < r.npage.toNat * pageSize) {p : Nat}
    (hp : p ∈ (r.memcpyToGuestRingFromGuest m offset buf src len).maps) : p < r.npage.toNat := by
  obtain ⟨hoff, hend⟩ := offset_in_page offset hlen
  obtain ⟨hleft, hfit⟩ := memcpy_left hcover hoffset
  have := copyLoop_maps hleft hoff hend hfit hp
  omega

theorem memcpy_ok (hbuf : buf.Readable) (hlen : len ≤ 4294963200)
    (hcover : offset + len ≤ r.npage.toNat * pageSize)
    (hoffset : offset < r.npage.toNat * pageSize) :
    (r.memcpyToGuestRingFromGuest m offset buf src len).ret = 0 := by
  obtain ⟨hoff, hend⟩ := offset_in_page offset hlen
  obtain ⟨hleft, hfit⟩ := memcpy_left hcover hoffset
  exact copyLoop_ok hbuf hleft hoff hend hfit

end Memcpy

/-! ## The payload -/

theorem roomToEnd_eq (htx : tx < r.len.toNat) : r.roomToEnd tx = r.len.toNat - tx := by
  have := r.len.toNat_lt
  unfold roomToEnd u32
  omega

/-- The position behind a payload. -/
theorem wrap_lastPiece (htx : tx < r.len.toNat) (hlen : len ≤ r.len.toNat) :
    r.wrap (u32 ((r.lastPiece tx len).1 + (r.lastPiece tx len).2)) =
      advance r.len.toNat tx len := by
  have := r.len.toNat_lt
  rw [wrap, lastPiece, roomToEnd_eq htx]
  by_cases h : r.len.toNat - tx < len
  · rw [if_pos h]
    dsimp only
    rw [u32_add (by omega), Nat.zero_add, if_neg (by omega), advance_of_le (by omega)]
    omega
  · rw [if_neg h]
    dsimp only
    rw [u32_add (by omega)]
    exact reset_eq_advance (by omega)

theorem copyPayload_ret : (r.copyPayload m tx buf len).ret = 0 ∨
    (r.copyPayload m tx buf len).ret = -efault := by
  unfold copyPayload
  split
  · rcases CopyOut.andThen_cases (r.memcpyToGuestRingFromGuest m (u32 (tx + sizeofRing)) buf 0
        (r.roomToEnd tx)) _ with ⟨_, h⟩ | ⟨_, h⟩
    · rw [h]; exact memcpy_ret
    · rw [h]; exact memcpy_ret
  · exact memcpy_ret

section Payload
variable (htx : tx < r.len.toNat) (hlen : len ≤ r.len.toNat) (hmax : r.len.toNat ≤ 4294963200)
include htx hlen hmax

omit hlen in
/-- The two ways a payload can be copied, with the wrapping arithmetic evaluated. -/
theorem copyPayload_eq : r.copyPayload m tx buf len =
    if r.len.toNat < tx + len then
      (r.memcpyToGuestRingFromGuest m (tx + sizeofRing) buf 0 (r.len.toNat - tx)).andThen fun m =>
        r.memcpyToGuestRingFromGuest m sizeofRing buf (i32 (r.len.toNat - tx : Nat))
          (len - (r.len.toNat - tx))
    else r.memcpyToGuestRingFromGuest m (tx + sizeofRing) buf 0 len := by
  have hu : u32 ((tx : Int) + (sizeofRing : Nat)) = tx + sizeofRing := by
    refine u32_add ?_
    rw [sizeofRing]
    omega
  rw [copyPayload, roomToEnd_eq htx, hu]
  by_cases h : r.len.toNat < tx + len
  · rw [if_pos h, if_pos (by omega)]
  · rw [if_neg h, if_neg (by omega)]

/-- Nothing outside the span is written. -/
theorem copyPayload_frame {a : Nat} (ha : ¬ r.Span tx len a) :
    (r.copyPayload m tx buf len).mem.byte a = m.byte a := by
  rw [copyPayload_eq htx hmax]
  split
  · rename_i hsplit
    rw [span_of_gt htx hsplit hlen] at ha
    have hfirst : (r.memcpyToGuestRingFromGuest m (tx + sizeofRing) buf 0
        (r.len.toNat - tx)).mem.byte a = m.byte a := memcpy_frame (by omega) (by omega)
    rcases CopyOut.andThen_cases (r.memcpyToGuestRingFromGuest m (tx + sizeofRing) buf 0
        (r.len.toNat - tx)) _ with ⟨_, h⟩ | ⟨_, h⟩
    · rw [h, hfirst]
    · rw [h]
      exact (memcpy_frame (by omega) (by omega)).trans hfirst
  · rename_i hsplit
    rw [span_of_le (by omega)] at ha
    exact memcpy_frame (by omega) (by omega)

/-- Every chunk lies in a page of the ring, and in the span. -/
theorem copyPayload_chunks {c : Chunk} (hc : c ∈ (r.copyPayload m tx buf len).chunks) :
    c.InPage ∧ c.page < r.npage.toNat ∧ sizeofRing ≤ c.start ∧
      c.start + c.len ≤ sizeofRing + r.len.toNat ∧
      ∀ a, c.start ≤ a → a < c.start + c.len → r.Span tx len a := by
  rw [copyPayload_eq htx hmax] at hc
  split at hc
  · rename_i hsplit
    have hspan := fun a => span_of_gt (a := a) htx hsplit hlen
    -- a chunk of the first or of the second copy
    have hmem : c ∈ (r.memcpyToGuestRingFromGuest m (tx + sizeofRing) buf 0
          (r.len.toNat - tx)).chunks ∨
        ∃ m', c ∈ (r.memcpyToGuestRingFromGuest m' sizeofRing buf (i32 (r.len.toNat - tx : Nat))
          (len - (r.len.toNat - tx))).chunks := by
      rcases CopyOut.andThen_cases (r.memcpyToGuestRingFromGuest m (tx + sizeofRing) buf 0
        (r.len.toNat - tx)) _ with ⟨_, h⟩ | ⟨_, h⟩
      · rw [h] at hc; exact Or.inl hc
      · rw [h] at hc
        rcases List.mem_append.mp hc with hc | hc
        · exact Or.inl hc
        · exact Or.inr ⟨_, hc⟩
    rcases hmem with hc | ⟨m', hc⟩
    · obtain ⟨h1, h2, h3, h4⟩ := memcpy_chunks (by omega) hc
      exact ⟨h1, h2, by omega, by omega, fun a _ _ => (hspan a).mpr (Or.inl (by omega))⟩
    · obtain ⟨h1, h2, h3, h4⟩ := memcpy_chunks (by omega) hc
      exact ⟨h1, h2, by omega, by omega, fun a _ _ => (hspan a).mpr (Or.inr (by omega))⟩
  · obtain ⟨h1, h2, h3, h4⟩ := memcpy_chunks (by omega) hc
    exact ⟨h1, h2, by omega, by omega, fun a _ _ => (span_of_le (by omega)).mpr (by omega)⟩

/-- When it succeeds, the span holds the payload. -/
theorem copyPayload_source (hbig : r.len.toNat ≤ 2147483648)
    (hret : (r.copyPayload m tx buf len).ret = 0) {i : Nat} (hi : i < len) :
    (r.copyPayload m tx buf len).mem.byte (sizeofRing + advance r.len.toNat tx i) =
      buf.byte i := by
  rw [copyPayload_eq htx hmax] at hret ⊢
  split
  · rename_i hsplit
    rw [if_pos hsplit] at hret
    rcases CopyOut.andThen_cases (r.memcpyToGuestRingFromGuest m (tx + sizeofRing) buf 0
      (r.len.toNat - tx)) _ with ⟨hne, h⟩ | ⟨hfirst, h⟩
    · rw [h] at hret; exact absurd hret hne
    · rw [h] at hret ⊢
      by_cases hi' : i < r.len.toNat - tx
      · -- in the first piece, which the second copy leaves alone
        rw [advance_of_lt (by omega)]
        refine (memcpy_frame (by omega) (by omega)).trans ?_
        have h := memcpy_source (by omega) hfirst hi'
        rw [show sizeofRing + (tx + i) = tx + sizeofRing + i by omega, h]
        simp
      · rw [advance_of_le (by omega),
          show tx + i - r.len.toNat = i - (r.len.toNat - tx) by omega]
        have h := memcpy_source (by omega) hret
          (show i - (r.len.toNat - tx) < len - (r.len.toNat - tx) by omega)
        refine h.trans (congrArg buf.byte ?_)
        rw [i32_of_lt (by omega)]
        omega
  · rename_i hsplit
    rw [if_neg hsplit] at hret
    rw [advance_of_lt (by omega)]
    have h := memcpy_source (by omega) hret hi
    rw [show sizeofRing + (tx + i) = tx + sizeofRing + i by omega, h]
    simp

/-- With pages for the whole data area no page behind them is asked for, ... -/
theorem copyPayload_maps (hcover : sizeofRing + r.len.toNat ≤ r.npage.toNat * pageSize) {p : Nat}
    (hp : p ∈ (r.copyPayload m tx buf len).maps) : p < r.npage.toNat := by
  rw [copyPayload_eq htx hmax] at hp
  split at hp
  · rcases CopyOut.andThen_cases (r.memcpyToGuestRingFromGuest m (tx + sizeofRing) buf 0
        (r.len.toNat - tx)) _ with ⟨_, h⟩ | ⟨_, h⟩
    · rw [h] at hp
      exact memcpy_maps (by omega) (by omega) (by omega) hp
    · rw [h] at hp
      rcases List.mem_append.mp hp with hp | hp
      · exact memcpy_maps (by omega) (by omega) (by omega) hp
      · exact memcpy_maps (by omega) (by omega) (by omega) hp
  · exact memcpy_maps (by omega) (by omega) (by omega) hp

/-- ... and a readable payload is copied. -/
theorem copyPayload_ok (hcover : sizeofRing + r.len.toNat ≤ r.npage.toNat * pageSize)
    (hbuf : buf.Readable) : (r.copyPayload m tx buf len).ret = 0 := by
  rw [copyPayload_eq htx hmax]
  split
  · rcases CopyOut.andThen_cases (r.memcpyToGuestRingFromGuest m (tx + sizeofRing) buf 0
        (r.len.toNat - tx)) _ with ⟨hne, _⟩ | ⟨_, h⟩
    · exact absurd (memcpy_ok hbuf (by omega) (by omega) (by omega)) hne
    · rw [h]
      exact memcpy_ok hbuf (by omega) (by omega) (by omega)
  · exact memcpy_ok hbuf (by omega) (by omega) (by omega)

end Payload

/-! ## The header -/

section Header
variable (hs : r.Sane) {source : Addr} {proto n : UInt32}
include hs

theorem header_fits : r.txPtr.toNat + sizeofMessageHeader ≤ r.len.toNat := by
  obtain ⟨h1, h2, h3, h4, h5⟩ := hs
  rw [sizeofMessageHeader]
  omega

theorem afterHeader_eq : r.afterHeader = advance r.len.toNat r.txPtr.toNat sizeofMessageHeader := by
  have hfit := header_fits hs
  rw [afterHeader, wrap, u32_add (Nat.lt_of_le_of_lt hfit r.len.toNat_lt)]
  exact reset_eq_advance hfit

theorem afterHeader_lt : r.afterHeader < r.len.toNat := by
  rw [afterHeader_eq hs]
  have := hs.len_ge
  exact advance_lt hs.tx_lt (by unfold sizeofMessageHeader; omega)

/-- The header never wraps: it is one page copy at `tx_ptr`. -/
theorem writeHeader_eq : r.writeHeader source proto n =
    r.memcpyToGuestRingFromGuest r.mem (r.txPtr.toNat + sizeofRing)
      (GuestBuf.ofBytes (MessageHeader.bytes ⟨n + 16, source, 0, proto⟩)) 0
      sizeofMessageHeader := by
  obtain ⟨h1, h2, h3, h4, h5⟩ := hs
  have hu : u32 ((r.txPtr.toNat : Int) + (sizeofRing : Nat)) = r.txPtr.toNat + sizeofRing := by
    refine u32_add ?_
    rw [sizeofRing]
    omega
  rw [writeHeader, memcpyToGuestRing, hu, MessageHeader.bytes_length]

omit hs in
theorem writeHeader_ret : (r.writeHeader source proto n).ret = 0 ∨
    (r.writeHeader source proto n).ret = -efault :=
  memcpy_ret

theorem writeHeader_frame {a : Nat} (ha : ¬ r.Span r.txPtr.toNat sizeofMessageHeader a) :
    (r.writeHeader source proto n).mem.byte a = r.mem.byte a := by
  rw [writeHeader_eq hs]
  rw [span_of_le (header_fits hs)] at ha
  exact memcpy_frame (by decide) (by omega)

theorem writeHeader_chunks {c : Chunk} (hc : c ∈ (r.writeHeader source proto n).chunks) :
    c.InPage ∧ c.page < r.npage.toNat ∧ sizeofRing ≤ c.start ∧
      c.start + c.len ≤ sizeofRing + r.len.toNat ∧
      ∀ a, c.start ≤ a → a < c.start + c.len →
        r.Span r.txPtr.toNat sizeofMessageHeader a := by
  have hfit := header_fits hs
  rw [writeHeader_eq hs] at hc
  obtain ⟨h1, h2, h3, h4⟩ := memcpy_chunks (by decide) hc
  exact ⟨h1, h2, by omega, by omega, fun a _ _ => (span_of_le hfit).mpr (by omega)⟩

theorem writeHeader_source (hret : (r.writeHeader source proto n).ret = 0) {i : Nat}
    (hi : i < sizeofMessageHeader) : (r.writeHeader source proto n).mem.byte
      (sizeofRing + advance r.len.toNat r.txPtr.toNat i) =
      (MessageHeader.bytes ⟨n + 16, source, 0, proto⟩).getD i 0 := by
  have hfit := header_fits hs
  rw [writeHeader_eq hs] at hret ⊢
  have h := memcpy_source (by decide) hret hi
  rw [advance_of_lt (by omega), show sizeofRing + (r.txPtr.toNat + i) = r.txPtr.toNat + sizeofRing + i by omega, h]
  simp [GuestBuf.ofBytes]

theorem writeHeader_maps (hcover : sizeofRing + r.len.toNat ≤ r.npage.toNat * pageSize) {p : Nat}
    (hp : p ∈ (r.writeHeader source proto n).maps) : p < r.npage.toNat := by
  have hfit := header_fits hs
  have := hs.tx_lt
  rw [writeHeader_eq hs] at hp
  exact memcpy_maps (by decide) (by omega) (by omega) hp

theorem writeHeader_ok (hcover : sizeofRing + r.len.toNat ≤ r.npage.toNat * pageSize) :
    (r.writeHeader source proto n).ret = 0 := by
  have hfit := header_fits hs
  have := hs.tx_lt
  rw [writeHeader_eq hs]
  exact memcpy_ok (GuestBuf.ofBytes_readable _) (by decide) (by omega) (by omega)

end Header

/-! ## The message in one buffer -/

section Message
variable (hs : r.Sane) {source : Addr} {proto n : UInt32} (hn : n.toNat ≤ 4294967280)
  (hfit : messageSize n < r.len.toNat)
include hs hn hfit

omit hs hfit in
/-- Below `2^32 - 16` the round-up is exact. -/
theorem messageSize_eq : messageSize n = (n.toNat + 15) / 16 * 16 + 16 := by
  unfold messageSize sizeofMessageHeader
  rw [roundup_toNat, Nat.mod_eq_of_lt (by omega)]

omit hs in
theorem payload_le : sizeofMessageHeader + n.toNat < r.len.toNat := by
  rw [messageSize_eq hn] at hfit
  unfold sizeofMessageHeader
  omega

theorem span_message {a : Nat} : r.Span r.txPtr.toNat (sizeofMessageHeader + n.toNat) a ↔
    r.Span r.txPtr.toNat sizeofMessageHeader a ∨ r.Span r.afterHeader n.toNat a := by
  have hlt := payload_le hn hfit
  rw [afterHeader_eq hs]
  exact span_add hs.tx_lt (by omega) (by omega)

/-- Nothing outside the message's span is written. -/
theorem writeMessage_frame {a : Nat}
    (ha : ¬ r.Span r.txPtr.toNat (sizeofMessageHeader + n.toNat) a) :
    (r.writeMessage source proto buf n).mem.byte a = r.mem.byte a := by
  have hlt := payload_le hn hfit
  rw [span_message hs hn hfit, not_or] at ha
  unfold writeMessage
  rcases CopyOut.andThen_cases (r.writeHeader source proto n) _ with ⟨_, h⟩ | ⟨_, h⟩
  · rw [h]; exact writeHeader_frame hs ha.1
  · rw [h]
    exact (copyPayload_frame (afterHeader_lt hs) (by omega) hs.len_le ha.2).trans
      (writeHeader_frame hs ha.1)

/-- Every chunk lies in a page of the ring and in the message's span. -/
theorem writeMessage_chunks {c : Chunk} (hc : c ∈ (r.writeMessage source proto buf n).chunks) :
    c.InPage ∧ c.page < r.npage.toNat ∧ sizeofRing ≤ c.start ∧
      c.start + c.len ≤ sizeofRing + r.len.toNat := by
  have hlt := payload_le hn hfit
  unfold writeMessage at hc
  have hmem : c ∈ (r.writeHeader source proto n).chunks ∨
      ∃ m, c ∈ (r.copyPayload m r.afterHeader buf n.toNat).chunks := by
    rcases CopyOut.andThen_cases (r.writeHeader source proto n) _ with ⟨_, h⟩ | ⟨_, h⟩
    · rw [h] at hc; exact Or.inl hc
    · rw [h] at hc
      rcases List.mem_append.mp hc with hc | hc
      · exact Or.inl hc
      · exact Or.inr ⟨_, hc⟩
  rcases hmem with hc | ⟨m, hc⟩
  · obtain ⟨h1, h2, h3, h4, _⟩ := writeHeader_chunks hs hc
    exact ⟨h1, h2, h3, h4⟩
  · obtain ⟨h1, h2, h3, h4, _⟩ := copyPayload_chunks (afterHeader_lt hs) (by omega) hs.len_le hc
    exact ⟨h1, h2, h3, h4⟩

omit hs hn hfit in
theorem writeMessage_ret : (r.writeMessage source proto buf n).ret = 0 ∨
    (r.writeMessage source proto buf n).ret = -efault := by
  unfold writeMessage
  rcases CopyOut.andThen_cases (r.writeHeader source proto n) _ with ⟨_, h⟩ | ⟨_, h⟩
  · rw [h]; exact writeHeader_ret
  · rw [h]; exact copyPayload_ret

/-- When it succeeds, the header stands at `tx_ptr` ... -/
theorem writeMessage_header (hret : (r.writeMessage source proto buf n).ret = 0) {i : Nat}
    (hi : i < sizeofMessageHeader) : (r.writeMessage source proto buf n).mem.byte
      (sizeofRing + advance r.len.toNat r.txPtr.toNat i) =
      (MessageHeader.bytes ⟨n + 16, source, 0, proto⟩).getD i 0 := by
  have hlt := payload_le hn hfit
  unfold writeMessage at hret ⊢
  rcases CopyOut.andThen_cases (r.writeHeader source proto n) _ with ⟨hne, h⟩ | ⟨hhead, h⟩
  · rw [h] at hret; exact absurd hret hne
  · rw [h]
    refine (copyPayload_frame (afterHeader_lt hs) (by omega) hs.len_le ?_).trans
      (writeHeader_source hs hhead hi)
    -- the payload's span does not reach back into the header
    rw [afterHeader_eq hs, span_iff (advance_lt hs.tx_lt (by omega)) (by omega)]
    rintro ⟨j, hj, he⟩
    rw [advance_advance hs.tx_lt (by omega)] at he
    have := advance_injective (by omega) (by omega) (Nat.add_left_cancel he)
    omega

/-- ... and the payload behind it. -/
theorem writeMessage_payload (hbig : r.len.toNat ≤ 2147483648)
    (hret : (r.writeMessage source proto buf n).ret = 0) {i : Nat} (hi : i < n.toNat) :
    (r.writeMessage source proto buf n).mem.byte
      (sizeofRing + advance r.len.toNat r.txPtr.toNat (sizeofMessageHeader + i)) =
      buf.byte i := by
  have hlt := payload_le hn hfit
  unfold writeMessage at hret ⊢
  rcases CopyOut.andThen_cases (r.writeHeader source proto n) _ with ⟨hne, h⟩ | ⟨_, h⟩
  · rw [h] at hret; exact absurd hret hne
  · rw [h] at hret ⊢
    have hp := copyPayload_source (afterHeader_lt hs) (by omega) hs.len_le hbig hret hi
    rw [afterHeader_eq hs, advance_advance hs.tx_lt (by omega), ← afterHeader_eq hs] at hp
    exact hp

/-- On covered pages a readable payload is copied whole. -/
theorem writeMessage_ok (hcover : sizeofRing + r.len.toNat ≤ r.npage.toNat * pageSize)
    (hbuf : buf.Readable) : (r.writeMessage source proto buf n).ret = 0 := by
  have hlt := payload_le hn hfit
  unfold writeMessage
  rcases CopyOut.andThen_cases (r.writeHeader source proto n) _ with ⟨hne, _⟩ | ⟨_, h⟩
  · exact absurd (writeHeader_ok hs hcover) hne
  · rw [h]
    exact copyPayload_ok (afterHeader_lt hs) (by omega) hs.len_le hcover hbuf

/-- The pages a message asks for are pages of the ring. -/
theorem writeMessage_maps (hcover : sizeofRing + r.len.toNat ≤ r.npage.toNat * pageSize) {p : Nat}
    (hp : p ∈ (r.writeMessage source proto buf n).maps) : p < r.npage.toNat := by
  have hlt := payload_le hn hfit
  unfold writeMessage at hp
  rcases CopyOut.andThen_cases (r.writeHeader source proto n) _ with ⟨_, h⟩ | ⟨_, h⟩
  · rw [h] at hp
    exact writeHeader_maps hs hcover hp
  · rw [h, List.mem_append] at hp
    rcases hp with hp | hp
    · exact writeHeader_maps hs hcover hp
    · exact copyPayload_maps (afterHeader_lt hs) (by omega) hs.len_le hcover hp

/-- The published position is one round-up behind the payload's start. -/
theorem afterMessage_eq :
    r.afterMessage n = advance r.len.toNat r.txPtr.toNat (messageSize n) := by
  have hlt := payload_le hn hfit
  have hsize := messageSize_eq hn
  have hafter := afterHeader_lt hs
  have hmod : r.afterHeader % 16 = 0 := by
    rw [afterHeader_eq hs]
    exact Nat.mod_eq_zero_of_dvd (advance_dvd (Nat.dvd_of_mod_eq_zero hs.len_mod)
      (Nat.dvd_of_mod_eq_zero hs.tx_mod) (by decide))
  rw [show messageSize n = sizeofMessageHeader + (n.toNat + 15) / 16 * 16 by
      rw [hsize]; unfold sizeofMessageHeader; omega,
    ← advance_advance hs.tx_lt (by unfold sizeofMessageHeader; omega), ← afterHeader_eq hs]
  refine wrap_roundup hs.len_mod r.len.toNat_lt hmod hafter (by omega) ?_
  rw [← roomToEnd_eq hafter]
  rfl

end Message

end RingInfo
end V4v
