import LegacyV4v.RingSendv

/-! # Scatter-gather and flat sends

`v4v_ringbuf_insertv` copies the buffers of a list one behind the other, each with its own wrap, and
`v4v_ringbuf_insert` copies one buffer.  Where the pages of the ring end before its data area does, both
stop at the same byte.  They differ in two things: an empty buffer is copied as well, and asks for the page
it stands at; and a buffer of which 2^31 bytes or more come before the ring end goes on, behind the wrap,
with bytes from before its start. -/
namespace V4v
open MachineWord CyclicBuffer

/-! ## One page copy, to the byte -/

theorem PageMem.write_byte_at {m : PageMem} {p off len : Nat} (h : off + len ≤ pageSize)
    (f : Nat → Option UInt8) (a : Nat) : (m.write ⟨p, off, len⟩ f).byte a =
      if p * pageSize + off ≤ a ∧ a < p * pageSize + off + len then
        (f (a - (p * pageSize + off))).getD (m.byte a)
      else m.byte a :=
  m.write_byte (show Chunk.InPage ⟨p, off, len⟩ from h) f a

/-- What a copy from a readable buffer leaves, wherever the pages end. -/
theorem copyLoop_byte {buf : GuestBuf} (hbuf : buf.Readable) {left page off len : Nat} {src : Int}
    {m : PageMem} (hoff : off < pageSize) (hlen : off + len < 4294967296) (a : Nat) :
    (copyLoop buf left page off src len m).mem.byte a =
      if page * pageSize + off ≤ a ∧ a < page * pageSize + off + len ∧ a < (page + left) * pageSize then
        buf.byte (src + (a - (page * pageSize + off) : Nat))
      else m.byte a := by
  induction left generalizing page off src len m with
  | zero =>
    rw [Nat.add_zero, if_neg (by omega)]
    rfl
  | succ left ih =>
    have hsucc : (page + 1) * pageSize = page * pageSize + pageSize := Nat.succ_mul _ _
    have hend : (page + 1 + left) * pageSize = (page + (left + 1)) * pageSize := by
      rw [Nat.add_right_comm, Nat.add_assoc]
    have hpages : page * pageSize + pageSize ≤ (page + (left + 1)) * pageSize := by
      rw [← hend, Nat.add_mul, hsucc]
      exact Nat.le_add_right ..
    rw [copyLoop, Nat.mod_eq_of_lt hlen, hbuf, hbuf]
    split
    · next hloop =>
      dsimp only
      rw [ih pageSize_pos (by omega), PageMem.write_byte_at (by omega), hend, hsucc]
      by_cases hfirst : a < page * pageSize + pageSize
      · rw [if_neg (by omega)]
        by_cases hlow : page * pageSize + off ≤ a
        · rw [if_pos (by omega), if_pos (by omega)]
          rfl
        · rw [if_neg (by omega), if_neg (by omega)]
      · by_cases hcopied : a < page * pageSize + off + len ∧ a < (page + (left + 1)) * pageSize
        · rw [if_pos (by omega), if_pos (by omega)]
          congr 1
          omega
        · rw [if_neg (by omega), if_neg (by omega), if_neg (by omega)]
    · dsimp only
      rw [PageMem.write_byte_at (by omega)]
      by_cases hcopied : page * pageSize + off ≤ a ∧ a < page * pageSize + off + len
      · rw [if_pos hcopied, if_pos (by omega)]
        rfl
      · rw [if_neg hcopied, if_neg (by omega)]

namespace RingInfo
variable {r : RingInfo} {m : PageMem} {buf : GuestBuf} {tx len : Nat}

/-- Byte `p` of the data area is in a page of the ring. -/
def HasPage (r : RingInfo) (p : Nat) : Prop := sizeofRing + p < r.npage.toNat * pageSize

instance (r : RingInfo) (p : Nat) : Decidable (r.HasPage p) := inferInstanceAs (Decidable (_ < _))

theorem memcpy_byte (hbuf : buf.Readable) (hlen : len ≤ 4294963200) (offset : Nat) (src : Int) (a : Nat) :
    (r.memcpyToGuestRingFromGuest m offset buf src len).mem.byte a =
      if offset ≤ a ∧ a < offset + len ∧ a < r.npage.toNat * pageSize then
        buf.byte (src + (a - offset : Nat))
      else m.byte a := by
  obtain ⟨hoff, hend⟩ := offset_in_page offset hlen
  unfold memcpyToGuestRingFromGuest
  rw [copyLoop_byte hbuf hoff hend a, Nat.div_add_mod' offset pageSize]
  have hiff : (offset ≤ a ∧ a < offset + len ∧
      a < (offset / pageSize + (r.npage.toNat - offset / pageSize)) * pageSize) ↔
      (offset ≤ a ∧ a < offset + len ∧ a < r.npage.toNat * pageSize) := by
    unfold pageSize
    omega
  exact if_congr hiff rfl rfl

theorem memcpy_ret_iff (hbuf : buf.Readable) (hlen : len ≤ 4294963200) (offset : Nat) (src : Int) :
    (r.memcpyToGuestRingFromGuest m offset buf src len).ret = 0 ↔
      offset < r.npage.toNat * pageSize ∧ offset + len ≤ r.npage.toNat * pageSize := by
  constructor
  · intro hret
    obtain ⟨hoff, hend⟩ := offset_in_page offset hlen
    have hfits := copyLoop_fits hoff hend hret
    have hpos : 0 < r.npage.toNat - offset / pageSize := by
      refine Nat.pos_of_ne_zero fun hz => ?_
      rw [memcpyToGuestRingFromGuest, hz, copyLoop] at hret
      exact absurd (show -efault = 0 from hret) (by decide)
    unfold pageSize at *
    omega
  · rintro ⟨hoffset, hcover⟩
    exact memcpy_ok hbuf hlen hcover hoffset

theorem copyPayload_ret_iff (hbuf : buf.Readable) (htx : tx < r.len.toNat) (hlen : len ≤ r.len.toNat)
    (hmax : r.len.toNat ≤ 4294963200) : (r.copyPayload m tx buf len).ret = 0 ↔
      (len = 0 → r.HasPage tx) ∧ ∀ i < len, r.HasPage (advance r.len.toNat tx i) := by
  unfold HasPage
  rw [copyPayload_eq htx hmax]
  split
  · next hsplit =>
    have hfirst := memcpy_ret_iff (r := r) (m := m) hbuf (show r.len.toNat - tx ≤ 4294963200 by omega)
      (tx + sizeofRing) 0
    constructor
    · intro hret
      rcases CopyOut.andThen_cases (r.memcpyToGuestRingFromGuest m (tx + sizeofRing) buf 0
        (r.len.toNat - tx)) _ with ⟨hne, heq⟩ | ⟨hzero, -⟩
      · rw [heq] at hret
        exact absurd hret hne
      · obtain ⟨-, hend⟩ := hfirst.mp hzero
        refine ⟨fun hz => by omega, fun i hi => ?_⟩
        have hadv := advance_lt htx (show i ≤ r.len.toNat by omega)
        omega
    · rintro ⟨-, hall⟩
      have hlast := hall (r.len.toNat - tx - 1) (by omega)
      rw [advance_of_lt (by omega)] at hlast
      have hzero := hfirst.mpr (by omega)
      rcases CopyOut.andThen_cases (r.memcpyToGuestRingFromGuest m (tx + sizeofRing) buf 0
        (r.len.toNat - tx)) _ with ⟨hne, -⟩ | ⟨-, heq⟩
      · exact absurd hzero hne
      · rw [heq]
        exact (memcpy_ret_iff hbuf (by omega) _ _).mpr (by omega)
  · next hsplit =>
    rw [memcpy_ret_iff hbuf (by omega)]
    constructor
    · rintro ⟨hstart, hend⟩
      refine ⟨fun _ => by omega, fun i hi => ?_⟩
      rw [advance_of_lt (by omega)]
      omega
    · rintro ⟨hzero, hall⟩
      rcases Nat.eq_zero_or_pos len with rfl | hpos
      · have hpage := hzero rfl
        omega
      · have hlast := hall (len - 1) (by omega)
        rw [advance_of_lt (by omega)] at hlast
        omega

/-! ## Bytes poured into the ring -/

/-- Byte `i` behind `tx` and all before it have pages. -/
def Reaches (r : RingInfo) (tx i : Nat) : Prop := ∀ j ≤ i, r.HasPage (advance r.len.toNat tx j)

/-- From `m` to `m'` the bytes `data` have been written behind `tx`, as far as there are pages. -/
structure Pours (r : RingInfo) (tx : Nat) (data : List UInt8) (m m' : PageMem) : Prop where
  frame : ∀ a, ¬ r.Span tx data.length a → m'.byte a = m.byte a
  copied : ∀ i (h : i < data.length), r.Reaches tx i →
    m'.byte (sizeofRing + advance r.len.toNat tx i) = data[i]
  kept : ∀ i < data.length, ¬ r.Reaches tx i →
    m'.byte (sizeofRing + advance r.len.toNat tx i) = m.byte (sizeofRing + advance r.len.toNat tx i)

variable {m' m'' : PageMem} {data data' : List UInt8}

/-- What is poured does not depend on how. -/
theorem Pours.unique (h : r.Pours tx data m m') (h' : r.Pours tx data m m'') (htx : tx < r.len.toNat)
    (hlen : data.length ≤ r.len.toNat) (a : Nat) : m'.byte a = m''.byte a := by
  by_cases hspan : r.Span tx data.length a
  · obtain ⟨i, hi, rfl⟩ := (span_iff htx hlen).mp hspan
    by_cases hreach : r.Reaches tx i
    · rw [h.copied i hi hreach, h'.copied i hi hreach]
    · rw [h.kept i hi hreach, h'.kept i hi hreach]
  · rw [h.frame a hspan, h'.frame a hspan]

theorem Pours.nothing (r : RingInfo) (tx : Nat) (m : PageMem) : r.Pours tx [] m m :=
  ⟨fun _ _ => rfl, fun _ h => absurd h (Nat.not_lt_zero _), fun _ h => absurd h (Nat.not_lt_zero _)⟩

/-- A byte that is `i` behind `tx` is not `n` or more behind it. -/
theorem not_span_advance {i n k : Nat} (htx : tx < r.len.toNat) (hi : i < n)
    (hnk : n + k ≤ r.len.toNat) :
    ¬ r.Span (advance r.len.toNat tx n) k (sizeofRing + advance r.len.toNat tx i) := by
  rcases Nat.eq_zero_or_pos k with rfl | hk
  · exact fun h => absurd h.2.2 (Nat.not_lt_zero _)
  rw [span_iff (advance_lt htx (by omega)) (by omega)]
  rintro ⟨j, hj, heq⟩
  rw [advance_advance htx (by omega)] at heq
  have hij := advance_injective (by omega) (by omega) (Nat.add_left_cancel heq)
  omega

/-- **One behind the other**, when the first has all its pages. -/
theorem Pours.append (h : r.Pours tx data m m') (h' : r.Pours (advance r.len.toNat tx data.length) data' m' m'')
    (hall : ∀ i < data.length, r.HasPage (advance r.len.toNat tx i)) (htx : tx < r.len.toNat)
    (hlen : data.length + data'.length < r.len.toNat) : r.Pours tx (data ++ data') m m'' := by
  have hreach : ∀ i, i < data'.length → (r.Reaches (advance r.len.toNat tx data.length) i ↔
      r.Reaches tx (data.length + i)) := by
    intro i hi
    constructor
    · intro hr j hj
      by_cases hlt : j < data.length
      · exact hall j hlt
      · have hpage := hr (j - data.length) (by omega)
        rwa [advance_advance htx (by omega), Nat.add_sub_cancel' (Nat.le_of_not_lt hlt)] at hpage
    · intro hr j hj
      rw [advance_advance htx (by omega)]
      exact hr _ (by omega)
  -- a byte of the first is left alone by the second
  have hkeep : ∀ i < data.length, m''.byte (sizeofRing + advance r.len.toNat tx i) =
      m'.byte (sizeofRing + advance r.len.toNat tx i) := fun i hi =>
    h'.frame _ (not_span_advance htx hi (by omega))
  -- and one of the second by the first
  have hold : ∀ i, i < data'.length →
      m'.byte (sizeofRing + advance r.len.toNat tx (data.length + i)) =
        m.byte (sizeofRing + advance r.len.toNat tx (data.length + i)) := by
    intro i hi
    refine h.frame _ fun hspan => ?_
    obtain ⟨j, hj, heq⟩ := (span_iff htx (by omega)).mp hspan
    have hij := advance_injective (by omega) (by omega) (Nat.add_left_cancel heq)
    omega
  constructor
  · intro a ha
    rw [List.length_append, span_add htx (by omega) (by omega), not_or] at ha
    rw [h'.frame a ha.2, h.frame a ha.1]
  · intro i hi hr
    rw [List.length_append] at hi
    by_cases hlt : i < data.length
    · rw [hkeep i hlt, List.getElem_append_left hlt]
      exact h.copied i hlt hr
    · obtain ⟨k, rfl⟩ := Nat.exists_eq_add_of_le (Nat.le_of_not_lt hlt)
      have hk : k < data'.length := by omega
      have hcopied := h'.copied k hk ((hreach k hk).mpr hr)
      rw [advance_advance htx (by omega)] at hcopied
      rw [hcopied, List.getElem_append_right (Nat.le_add_right ..)]
      congr 1
      omega
  · intro i hi hr
    rw [List.length_append] at hi
    by_cases hlt : i < data.length
    · rw [hkeep i hlt]
      exact h.kept i hlt hr
    · obtain ⟨k, rfl⟩ := Nat.exists_eq_add_of_le (Nat.le_of_not_lt hlt)
      have hk : k < data'.length := by omega
      have hkept := h'.kept k hk fun hr' => hr ((hreach k hk).mp hr')
      rw [advance_advance htx (by omega)] at hkept
      rw [hkept, hold k hk]

/-- **A copy that stops** has poured all that it can. -/
theorem Pours.stop (h : r.Pours tx data m m') (hstop : ∀ i, data.length ≤ i → ¬ r.Reaches tx i)
    (data' : List UInt8) (htx : tx < r.len.toNat) (hlen : data.length + data'.length < r.len.toNat) :
    r.Pours tx (data ++ data') m m' := by
  constructor
  · intro a ha
    rw [List.length_append, span_add htx (by omega) (by omega), not_or] at ha
    exact h.frame a ha.1
  · intro i hi hr
    have hlt : i < data.length := Nat.lt_of_not_le fun hle => hstop i hle hr
    rw [List.getElem_append_left hlt]
    exact h.copied i hlt hr
  · intro i hi hr
    by_cases hlt : i < data.length
    · exact h.kept i hlt hr
    · rw [List.length_append] at hi
      refine h.frame _ fun hspan => ?_
      obtain ⟨j, hj, heq⟩ := (span_iff htx (by omega)).mp hspan
      have hij := advance_injective (by omega) (by omega) (Nat.add_left_cancel heq)
      omega

end RingInfo

/-- Reading the buffer gives `data`. -/
structure GuestBuf.Holds (buf : GuestBuf) (data : List UInt8) : Prop where
  readable : buf.Readable
  byte : ∀ i (h : i < data.length), buf.byte i = data[i]

namespace RingInfo
variable {r : RingInfo} {m : PageMem} {buf : GuestBuf} {tx : Nat} {data : List UInt8}

/-- **A payload is poured**, unless there is a page for all of the ring and 2^31 bytes or more come before
its end. -/
theorem copyPayload_pours (hbuf : buf.Holds data) (htx : tx < r.len.toNat)
    (hlen : data.length ≤ r.len.toNat) (hmax : r.len.toNat ≤ 4294963200)
    (hroom : sizeofRing + r.len.toNat ≤ r.npage.toNat * pageSize → r.len.toNat - tx < data.length →
      r.len.toNat - tx < 2147483648) :
    r.Pours tx data m (r.copyPayload m tx buf data.length).mem := by
  have hframe : ∀ a, ¬ r.Span tx data.length a →
      (r.copyPayload m tx buf data.length).mem.byte a = m.byte a :=
    fun a ha => copyPayload_frame htx hlen hmax ha
  -- in the part before the ring end a byte is reached when it has a page itself
  have hreach : ∀ i, tx + i < r.len.toNat → (r.Reaches tx i ↔ tx + sizeofRing + i < r.npage.toNat * pageSize) := by
    intro i hi
    constructor
    · intro hr
      have hpage := hr i le_rfl
      rw [advance_of_lt hi] at hpage
      unfold HasPage at hpage
      omega
    · intro hpage j hj
      rw [advance_of_lt (by omega)]
      unfold HasPage
      omega
  rw [copyPayload_eq htx hmax] at hframe ⊢
  by_cases hsplit : r.len.toNat < tx + data.length
  · rw [if_pos hsplit] at hframe ⊢
    have hfirst := fun a => memcpy_byte (r := r) (m := m) hbuf.readable
      (show r.len.toNat - tx ≤ 4294963200 by omega) (tx + sizeofRing) 0 a
    have hret := memcpy_ret_iff (r := r) (m := m) hbuf.readable
      (show r.len.toNat - tx ≤ 4294963200 by omega) (tx + sizeofRing) 0
    rcases CopyOut.andThen_cases (r.memcpyToGuestRingFromGuest m (tx + sizeofRing) buf 0
      (r.len.toNat - tx)) _ with ⟨hne, heq⟩ | ⟨hzero, heq⟩
    · -- the pages end before the ring does
      rw [heq] at hframe ⊢
      have hshort : r.npage.toNat * pageSize < r.len.toNat + sizeofRing := by
        by_contra hle
        exact hne (hret.mpr (by omega))
      refine ⟨hframe, fun i hi hr => ?_, fun i hi hr => ?_⟩
      · have hbefore : tx + i < r.len.toNat := by
          by_contra hle
          have hpage := (hreach (r.len.toNat - tx - 1) (by omega)).mp fun j hj => hr j (by omega)
          omega
        have hpage := (hreach i hbefore).mp hr
        rw [advance_of_lt hbefore, hfirst, if_pos (by omega), ← hbuf.byte i hi]
        congr 1
        omega
      · by_cases hbefore : tx + i < r.len.toNat
        · have hpage := mt (hreach i hbefore).mpr hr
          rw [advance_of_lt hbefore, hfirst, if_neg (by omega)]
        · rw [advance_of_le (by omega), hfirst, if_neg (by omega)]
    · rw [heq] at hframe ⊢
      obtain ⟨-, hcover⟩ := hret.mp hzero
      have hall : ∀ j, j ≤ data.length → r.HasPage (advance r.len.toNat tx j) := by
        intro j hj
        have hadv := advance_lt htx (show j ≤ r.len.toNat by omega)
        unfold HasPage
        omega
      refine ⟨hframe, fun i hi _ => ?_, fun i hi hr => absurd (fun j hj => hall j (by omega)) hr⟩
      dsimp only
      rw [memcpy_byte hbuf.readable (by omega)]
      by_cases hbefore : tx + i < r.len.toNat
      · rw [advance_of_lt hbefore, if_neg (by omega), hfirst, if_pos (by omega), ← hbuf.byte i hi]
        congr 1
        omega
      · rw [advance_of_le (by omega), if_pos (by omega), i32_of_lt (hroom (by omega) (by omega)),
          ← hbuf.byte i hi]
        congr 1
        omega
  · rw [if_neg hsplit] at hframe ⊢
    refine ⟨hframe, fun i hi hr => ?_, fun i hi hr => ?_⟩
    · have hpage := (hreach i (by omega)).mp hr
      rw [advance_of_lt (by omega), memcpy_byte hbuf.readable (by omega), if_pos (by omega),
        ← hbuf.byte i hi]
      congr 1
      omega
    · have hpage := mt (hreach i (by omega)).mpr hr
      rw [advance_of_lt (by omega), memcpy_byte hbuf.readable (by omega), if_neg (by omega)]

/-! ## The list of buffers -/

/-- The array of iovs that the sender shows has the buffers `parts`. -/
def Presents (iovs : List (Option Iov)) (parts : List (List UInt8)) : Prop :=
  List.Forall₂ (fun v l => ∃ w : Iov, v = some w ∧ w.okay = true ∧ w.iovLen.toNat = l.length ∧
    w.buf.Holds l) iovs parts

/-- An empty buffer stands where the ring has a page. -/
def EmptiesPaged (r : RingInfo) : Nat → List (List UInt8) → Prop
  | _, [] => True
  | tx, l :: rest => (l = [] → r.HasPage tx) ∧ r.EmptiesPaged (advance r.len.toNat tx l.length) rest

/-- **The loop pours the concatenation**, and returns 0 when there were pages for all bytes and all empty
buffers. -/
theorem iovLoop_pours {iovs : List (Option Iov)} {parts : List (List UInt8)} (h : Presents iovs parts)
    (htx : tx < r.len.toNat) (hmax : r.len.toNat ≤ 4294963200)
    (hlen : parts.flatten.length < r.len.toNat)
    (hroom : sizeofRing + r.len.toNat ≤ r.npage.toNat * pageSize →
      r.len.toNat - tx < parts.flatten.length → r.len.toNat - tx < 2147483648) :
    r.Pours tx parts.flatten m (r.iovLoop iovs tx m).1.mem ∧
      ((r.iovLoop iovs tx m).1.ret = 0 ↔ r.EmptiesPaged tx parts ∧
        ∀ i < parts.flatten.length, r.HasPage (advance r.len.toNat tx i)) := by
  induction h generalizing tx m with
  | nil => exact ⟨.nothing r tx m, fun _ => ⟨trivial, fun _ h => absurd h (Nat.not_lt_zero _)⟩, fun _ => rfl⟩
  | @cons v l iovs parts hv _ ih =>
    obtain ⟨w, rfl, hokay, hw, hbuf⟩ := hv
    rw [List.flatten_cons, List.length_append] at hlen hroom ⊢
    have hu : u32 w.iovLen.toNat = l.length := by
      rw [hw]
      unfold u32
      omega
    have hfirst := copyPayload_pours (m := m) hbuf htx (show l.length ≤ _ by omega) hmax
      fun hcover hlt => hroom hcover (by omega)
    have hret := copyPayload_ret_iff (m := m) hbuf.readable htx (show l.length ≤ _ by omega) hmax
    have hstep := iovLoop_cons (r := r) hokay iovs tx m
    rw [hu] at hstep
    rcases hstep with ⟨hne, heq⟩ | ⟨hzero, p, hp, heq⟩
    · -- the first buffer stops it
      rw [heq]
      refine ⟨hfirst.stop (fun i hi hr => hne (hret.mpr ⟨fun _ => ?_, fun j hj => hr j (by omega)⟩)) _
        htx hlen, fun hz => absurd hz hne, fun ⟨hempty, hall⟩ => hret.mpr ⟨fun hz => ?_, fun j hj => ?_⟩⟩
      · have hpage := hr 0 (Nat.zero_le i)
        rwa [advance_zero htx] at hpage
      · exact hempty.1 (List.eq_nil_of_length_eq_zero hz)
      · exact hall j (by omega)
    · rw [wrap_lastPiece htx (by omega)] at hp
      have hnext := advance_lt htx (show l.length ≤ r.len.toNat by omega)
      have hroom' : sizeofRing + r.len.toNat ≤ r.npage.toNat * pageSize →
          r.len.toNat - advance r.len.toNat tx l.length < parts.flatten.length →
          r.len.toNat - advance r.len.toNat tx l.length < 2147483648 := by
        intro hcover
        have hroom := hroom hcover
        unfold advance
        split <;> omega
      obtain ⟨hrest, hretrest⟩ := ih (m := (r.copyPayload m tx w.buf l.length).mem) hnext (by omega) hroom'
      rw [← hp] at hrest hretrest
      obtain ⟨hzeropage, hall⟩ := hret.mp hzero
      rw [heq]
      refine ⟨hfirst.append hrest hall htx hlen, ?_⟩
      dsimp only
      rw [hretrest]
      constructor
      · rintro ⟨hempties, hpages⟩
        refine ⟨⟨fun hz => hzeropage (congrArg List.length hz), hempties⟩, fun i hi => ?_⟩
        by_cases hlt : i < l.length
        · exact hall i hlt
        · have hpage := hpages (i - l.length) (by omega)
          rwa [advance_advance htx (by omega), Nat.add_sub_cancel' (Nat.le_of_not_lt hlt)] at hpage
      · rintro ⟨⟨-, hempties⟩, hpages⟩
        refine ⟨hempties, fun i hi => ?_⟩
        rw [advance_advance htx (by omega)]
        exact hpages _ (by omega)

theorem presents_total {iovs : List (Option Iov)} {parts : List (List UInt8)} (h : Presents iovs parts)
    (hlen : parts.flatten.length ≤ 4294967280) : iovTotal iovs = parts.flatten.length := by
  induction h with
  | nil => rfl
  | @cons v l iovs parts hv _ ih =>
    obtain ⟨w, rfl, hokay, hw, -⟩ := hv
    rw [List.flatten_cons, List.length_append] at hlen ⊢
    rw [iovTotal_cons hokay, ih (by omega), hw]
    unfold u32
    omega

end RingInfo

/-! ## The two sends -/

/-- The two calls return the same, and leave the same `tx_ptr`s and the same bytes. -/
def SameInsert : Option InsertOut → Option InsertOut → Prop
  | none, none => True
  | some o, some o' => o.ret = o'.ret ∧ o.ring.txPtr = o'.ring.txPtr ∧
      o.ring.sharedTxPtr = o'.ring.sharedTxPtr ∧ ∀ a, o.ring.mem.byte a = o'.ring.mem.byte a
  | _, _ => False

namespace RingInfo
variable {r : RingInfo} {src : Addr} {proto : UInt32} {parts : List (List UInt8)}

/-- However guest memory presents the buffers, and their concatenation, the sends agree. -/
def SendsAgree (r : RingInfo) (src : Addr) (proto : UInt32) (parts : List (List UInt8)) : Prop :=
  ∀ iovs buf, Presents iovs parts → buf.Holds parts.flatten →
    SameInsert (ringbufInsertv r src proto iovs (UInt32.ofNat parts.flatten.length))
      (ringbufInsert r src proto buf (UInt32.ofNat parts.flatten.length))

/-- The header of the next message has a page. -/
def HeaderPaged (r : RingInfo) : Prop := r.HasPage (r.txPtr.toNat + 15)

/-- If all bytes of the payload have pages: less than 2^31 of them come before a wrap, and the copies of
no bytes find a page in the list if and only if they do in the concatenation. -/
def SplitsAlike (r : RingInfo) (parts : List (List UInt8)) : Prop :=
  (∀ i < parts.flatten.length, r.HasPage (advance r.len.toNat r.afterHeader i)) →
    (r.len.toNat - r.afterHeader < parts.flatten.length → r.len.toNat - r.afterHeader < 2147483648) ∧
    ((parts.flatten = [] → r.HasPage r.afterHeader) ↔ r.EmptiesPaged r.afterHeader parts)

theorem SplitsAlike.paged_iff (h : r.SplitsAlike parts) :
    (r.EmptiesPaged r.afterHeader parts ∧
      ∀ i < parts.flatten.length, r.HasPage (advance r.len.toNat r.afterHeader i)) ↔
    (parts.flatten.length = 0 → r.HasPage r.afterHeader) ∧
      ∀ i < parts.flatten.length, r.HasPage (advance r.len.toNat r.afterHeader i) := by
  refine and_congr_left fun hall => ?_
  rw [List.length_eq_zero_iff]
  exact (h hall).2.symm

theorem insertWith_refused {len : UInt32} (h : ¬(r.Admits len ∧ r.Mapped)) (o o' : CopyOut)
    (tx tx' : Nat) : r.insertWith len o tx = r.insertWith len o' tx' := by
  unfold insertWith
  split
  · rfl
  · next hsmall =>
    split
    · rfl
    · next ret hret =>
      by_cases hz : ret = 0
      · subst hz
        obtain ⟨hm, hspace⟩ := reserve_zero hret
        exact absurd ⟨⟨Nat.lt_of_not_le hsmall, hspace⟩, hm⟩ h
      · rw [if_pos hz, if_pos hz]

theorem writeHeader_ret_iff (hs : r.Sane) (src : Addr) (proto len : UInt32) :
    (r.writeHeader src proto len).ret = 0 ↔ r.HeaderPaged := by
  rw [writeHeader_eq hs, memcpy_ret_iff (GuestBuf.ofBytes_readable _) (by decide)]
  unfold HeaderPaged HasPage sizeofMessageHeader
  omega

theorem sharedTxPtr_congr {r r' : RingInfo} (h : ∀ a, r.mem.byte a = r'.mem.byte a) :
    r.sharedTxPtr = r'.sharedTxPtr :=
  read_congr fun _ _ => h _

/-- An admitted message is returned as sent, or as a fault; its bytes are those that the copies left. -/
theorem insertWith_outcome {len : UInt32} (hadm : r.Admits len) (hm : r.Mapped) (o : CopyOut) (tx : Nat) :
    ∃ out, r.insertWith len o tx = some out ∧ out.ret = (if o.ret = 0 then i32 len.toNat else o.ret) ∧
      out.ring.mem.byte sizeofRing = o.mem.byte sizeofRing := by
  rw [insertWith_of_admits hadm hm]
  by_cases hz : o.ret = 0
  · rw [if_neg (not_not_intro hz), if_pos hz]
    have hin : Chunk.InPage ⟨0, offsetofTxPtr, 4⟩ := by decide
    refine ⟨_, rfl, rfl, (PageMem.write_byte hin _ _).trans (if_neg ?_)⟩
    decide
  · rw [if_pos hz, if_neg hz]
    exact ⟨_, rfl, rfl, rfl⟩

/-- Where the copies agree and the positions behind them do, the sends agree. -/
theorem sameInsert_of {len : UInt32} (hadm : r.Admits len) (hm : r.Mapped) {o o' : CopyOut} {tx tx' : Nat}
    (hret : o.ret = o'.ret) (hmem : ∀ a, o.mem.byte a = o'.mem.byte a) (htx : o.ret = 0 → tx = tx') :
    SameInsert (r.insertWith len o tx) (r.insertWith len o' tx') := by
  rw [insertWith_of_admits hadm hm, insertWith_of_admits hadm hm, ← hret]
  split
  · exact ⟨hret ▸ rfl, rfl, sharedTxPtr_congr hmem, hmem⟩
  · next hz =>
    obtain rfl := htx (not_not.mp hz)
    have hbytes : ∀ a, (o.mem.storeWord offsetofTxPtr tx).byte a =
        (o'.mem.storeWord offsetofTxPtr tx).byte a := by
      intro a
      have hin : Chunk.InPage ⟨0, offsetofTxPtr, 4⟩ := by decide
      unfold PageMem.storeWord
      rw [PageMem.write_byte hin, PageMem.write_byte hin, hmem a]
    exact ⟨rfl, rfl, sharedTxPtr_congr hbytes, hbytes⟩

/-- What both calls come to behind the header. -/
theorem writes_eq (hs : r.Sane) (hhead : r.HeaderPaged) (src : Addr) (proto : UInt32)
    (iovs : List (Option Iov)) (buf : GuestBuf) (len : UInt32) :
    (r.writeIovs src proto iovs len).1.ret =
        (r.iovLoop iovs r.afterHeader (r.writeHeader src proto len).mem).1.ret ∧
      (r.writeIovs src proto iovs len).1.mem =
        (r.iovLoop iovs r.afterHeader (r.writeHeader src proto len).mem).1.mem ∧
      (r.writeMessage src proto buf len).ret =
        (r.copyPayload (r.writeHeader src proto len).mem r.afterHeader buf len.toNat).ret ∧
      (r.writeMessage src proto buf len).mem =
        (r.copyPayload (r.writeHeader src proto len).mem r.afterHeader buf len.toNat).mem := by
  have hzero := (writeHeader_ret_iff hs src proto len).mpr hhead
  unfold writeIovs writeMessage
  rcases CopyOut.andThen_cases (r.writeHeader src proto len) fun m =>
    r.copyPayload m r.afterHeader buf len.toNat with ⟨hne, -⟩ | ⟨-, heq⟩
  · exact absurd hzero hne
  · rw [heq]
    dsimp only
    rw [if_neg (not_not_intro hzero)]
    exact ⟨rfl, rfl, rfl, rfl⟩

section
variable (hs : r.Sane) (hlen : parts.flatten.length ≤ 4294967280)
include hs hlen

omit hs in
theorem ofNat_length : (UInt32.ofNat parts.flatten.length).toNat = parts.flatten.length :=
  toNat_ofNat_of_lt (by omega)

omit hs in
theorem admitted_length (hadm : r.Admits (UInt32.ofNat parts.flatten.length)) :
    sizeofMessageHeader + parts.flatten.length < r.len.toNat := by
  have hle := payload_le (r := r) (by rw [ofNat_length hlen]; exact hlen) hadm.1
  rwa [ofNat_length hlen] at hle

/-- Both calls put `tx_ptr` behind the message, when nothing fails. -/
theorem positions_agree (hadm : r.Admits (UInt32.ofNat parts.flatten.length)) {iovs : List (Option Iov)}
    (hp : Presents iovs parts)
    (hret : (r.writeIovs src proto iovs (UInt32.ofNat parts.flatten.length)).1.ret = 0) :
    r.afterIovs (r.writeIovs src proto iovs (UInt32.ofNat parts.flatten.length)).2 =
      r.afterMessage (UInt32.ofNat parts.flatten.length) := by
  have hn := ofNat_length hlen
  have hle := admitted_length hlen hadm
  have htotal := presents_total hp hlen
  obtain ⟨-, hend⟩ := writeIovs_fills hs (by rw [htotal]; exact hle) src proto
    (UInt32.ofNat parts.flatten.length)
  rw [hend hret, htotal, afterIovs_eq hs hle, afterMessage_eq hs (by rw [hn]; exact hlen) hadm.1,
    messageSize_eq (by rw [hn]; exact hlen), hn, sizeofMessageHeader, Nat.add_comm]

theorem sendsAgree_of (h : r.Admits (UInt32.ofNat parts.flatten.length) → r.Mapped → r.HeaderPaged →
    r.SplitsAlike parts) : r.SendsAgree src proto parts := by
  intro iovs buf hp hbuf
  unfold ringbufInsertv ringbufInsert
  by_cases hgo : r.Admits (UInt32.ofNat parts.flatten.length) ∧ r.Mapped
  · obtain ⟨hadm, hm⟩ := hgo
    have hn := ofNat_length hlen
    have hle := admitted_length hlen hadm
    by_cases hhead : r.HeaderPaged
    · obtain ⟨hiovret, hiovmem, hflatret, hflatmem⟩ :=
        writes_eq hs hhead src proto iovs buf (UInt32.ofNat parts.flatten.length)
      have hlt := afterHeader_lt hs
      have hfits : parts.flatten.length < r.len.toNat := by omega
      have hsplits := h hadm hm hhead
      -- pages for all of the ring are pages for all of the payload
      have hroom : sizeofRing + r.len.toNat ≤ r.npage.toNat * pageSize →
          r.len.toNat - r.afterHeader < parts.flatten.length →
          r.len.toNat - r.afterHeader < 2147483648 := by
        intro hcover
        refine (hsplits fun i hi => ?_).1
        have hadv := advance_lt hlt (show i ≤ r.len.toNat by omega)
        unfold HasPage
        omega
      obtain ⟨hpours, hpoursret⟩ := iovLoop_pours (m := (r.writeHeader src proto
        (UInt32.ofNat parts.flatten.length)).mem) hp hlt hs.len_le hfits hroom
      have hflat := copyPayload_pours (m := (r.writeHeader src proto
        (UInt32.ofNat parts.flatten.length)).mem) hbuf hlt (Nat.le_of_lt hfits) hs.len_le hroom
      have hcopied := copyPayload_ret_iff (m := (r.writeHeader src proto
        (UInt32.ofNat parts.flatten.length)).mem) hbuf.readable hlt (Nat.le_of_lt hfits) hs.len_le
      rw [hn] at hflatret hflatmem
      rw [← hflatret] at hcopied
      rw [← hflatmem] at hflat
      rw [← hiovret] at hpoursret
      rw [← hiovmem] at hpours
      have hiff := hpoursret.trans (hsplits.paged_iff.trans hcopied.symm)
      refine sameInsert_of hadm hm ?_ (hpours.unique hflat hlt (Nat.le_of_lt hfits))
        fun hret => positions_agree hs hlen hadm hp hret
      rcases writeIovs_ret src proto iovs (UInt32.ofNat parts.flatten.length) with hz | hne
      · rw [hz, hiff.mp hz]
      · rcases writeMessage_ret with hz | hne'
        · exact absurd (hne.symm.trans (hiff.mpr hz)) (by decide)
        · rw [hne, hne']
    · -- without a page for the header both calls stop at the same copy
      have hne := mt (writeHeader_ret_iff hs src proto
        (UInt32.ofNat parts.flatten.length)).mp hhead
      have hstop : (r.writeIovs src proto iovs (UInt32.ofNat parts.flatten.length)).1 =
          r.writeMessage src proto buf (UInt32.ofNat parts.flatten.length) := by
        unfold writeIovs writeMessage
        rcases CopyOut.andThen_cases (r.writeHeader src proto (UInt32.ofNat parts.flatten.length))
          fun m => r.copyPayload m r.afterHeader buf (UInt32.ofNat parts.flatten.length).toNat with
          ⟨-, heq⟩ | ⟨hz, -⟩
        · rw [heq]
          exact congrArg Prod.fst (if_pos hne)
        · exact absurd hz hne
      refine sameInsert_of hadm hm (congrArg CopyOut.ret hstop) (fun a => by rw [hstop])
        fun hret => positions_agree hs hlen hadm hp hret
  · rw [insertWith_refused hgo _ (r.writeMessage src proto buf (UInt32.ofNat parts.flatten.length)) _
      (r.afterMessage (UInt32.ofNat parts.flatten.length))]
    cases r.insertWith (UInt32.ofNat parts.flatten.length)
      (r.writeMessage src proto buf (UInt32.ofNat parts.flatten.length))
      (r.afterMessage (UInt32.ofNat parts.flatten.length)) with
    | none => trivial
    | some out => exact ⟨rfl, rfl, rfl, fun _ => rfl⟩

end

/-! ## Sends that differ -/

/-- The iovs that show `parts`. -/
def iovsOf (parts : List (List UInt8)) : List (Option Iov) :=
  parts.map fun l => some ⟨UInt64.ofNat l.length, .ofBytes l, true⟩

theorem presents_iovsOf (hlen : parts.flatten.length ≤ 4294967280) :
    Presents (iovsOf parts) parts := by
  induction parts with
  | nil => exact .nil
  | cons l parts ih =>
    rw [List.flatten_cons, List.length_append] at hlen
    refine .cons ⟨_, rfl, rfl, ?_, GuestBuf.ofBytes_readable l, fun i hi => ?_⟩ (ih (by omega))
    · exact UInt64.toNat_ofNat_of_lt' (by unfold UInt64.size; omega)
    · exact (List.getElem_eq_getD 0).symm

/-- The bytes `data`, behind bytes `b`. -/
def behind (b : UInt8) (data : List UInt8) : GuestBuf :=
  ⟨fun i => if i < 0 then b else data.getD i.toNat 0, fun _ _ => none⟩

theorem behind_byte (b : UInt8) (data : List UInt8) (i : Int) :
    (behind b data).byte i = if i < 0 then b else data.getD i.toNat 0 := rfl

theorem behind_holds (b : UInt8) (data : List UInt8) : (behind b data).Holds data := by
  refine ⟨fun _ _ => rfl, fun i hi => ?_⟩
  rw [behind_byte, if_neg (Int.not_lt.mpr (Int.natCast_nonneg i)), Int.toNat_natCast]
  exact (List.getElem_eq_getD 0).symm

/-- **With 2^31 bytes before the ring end**, the first byte behind the wrap is not one of the buffer. -/
theorem copyPayload_behind {m : PageMem} {tx : Nat} {data : List UInt8} (b : UInt8)
    (htx : tx < r.len.toNat) (hlen : data.length ≤ r.len.toNat) (hmax : r.len.toNat ≤ 4294963200)
    (hwrap : r.len.toNat - tx < data.length) (hwide : 2147483648 ≤ r.len.toNat - tx)
    (hall : ∀ i < data.length, r.HasPage (advance r.len.toNat tx i)) :
    (r.copyPayload m tx (behind b data) data.length).mem.byte sizeofRing = b := by
  have hret := (copyPayload_ret_iff (m := m) (behind_holds b data).readable htx hlen hmax).mpr
    ⟨fun hz => by omega, hall⟩
  have hpage := hall (r.len.toNat - tx) hwrap
  rw [advance_of_le (by omega)] at hpage
  unfold HasPage at hpage
  rw [copyPayload_eq htx hmax, if_pos (by omega)] at hret ⊢
  rcases CopyOut.andThen_cases (r.memcpyToGuestRingFromGuest m (tx + sizeofRing) (behind b data) 0
    (r.len.toNat - tx)) _ with ⟨hne, heq⟩ | ⟨-, heq⟩
  · rw [heq] at hret
    exact absurd hret hne
  · rw [heq]
    have hrest : data.length - (r.len.toNat - tx) ≤ 4294963200 := by omega
    have hin : sizeofRing ≤ sizeofRing ∧ sizeofRing < sizeofRing + (data.length - (r.len.toNat - tx)) ∧
        sizeofRing < r.npage.toNat * pageSize := ⟨le_rfl, by omega, by omega⟩
    have hneg : i32 (r.len.toNat - tx : Nat) + (sizeofRing - sizeofRing : Nat) < 0 := by
      unfold i32
      omega
    dsimp only
    rw [memcpy_byte (behind_holds b data).readable hrest, if_pos hin, behind_byte, if_pos hneg]

section
variable (hs : r.Sane) (hlen : parts.flatten.length ≤ 4294967280)
  (hadm : r.Admits (UInt32.ofNat parts.flatten.length)) (hm : r.Mapped) (hhead : r.HeaderPaged)
  (h : r.SendsAgree src proto parts)
include hs hlen hadm hm hhead h

/-- Sends that agree do not wrap behind 2^31 bytes: what stands before the buffer makes no difference to
the list. -/
theorem narrow_of (hall : ∀ i < parts.flatten.length, r.HasPage (advance r.len.toNat r.afterHeader i))
    (hwrap : r.len.toNat - r.afterHeader < parts.flatten.length) :
    r.len.toNat - r.afterHeader < 2147483648 := by
  by_contra hwide
  have hn := ofNat_length hlen
  have hle := admitted_length hlen hadm
  have hp := presents_iovsOf hlen
  -- whatever stands before the buffer is found in the ring
  have hfound : ∀ b : UInt8, ∃ out, r.insertWith (UInt32.ofNat parts.flatten.length)
      (r.writeIovs src proto (iovsOf parts) (UInt32.ofNat parts.flatten.length)).1
      (r.afterIovs (r.writeIovs src proto (iovsOf parts) (UInt32.ofNat parts.flatten.length)).2) = some out ∧
        out.ring.mem.byte sizeofRing = b := by
    intro b
    obtain ⟨-, -, -, hmem⟩ := writes_eq hs hhead src proto (iovsOf parts)
      (behind b parts.flatten) (UInt32.ofNat parts.flatten.length)
    rw [hn] at hmem
    obtain ⟨out, hout, -, -⟩ := insertWith_outcome hadm hm
      (r.writeIovs src proto (iovsOf parts) (UInt32.ofNat parts.flatten.length)).1
      (r.afterIovs (r.writeIovs src proto (iovsOf parts) (UInt32.ofNat parts.flatten.length)).2)
    obtain ⟨out', hout', -, hbyte'⟩ := insertWith_outcome hadm hm
      (r.writeMessage src proto (behind b parts.flatten) (UInt32.ofNat parts.flatten.length))
      (r.afterMessage (UInt32.ofNat parts.flatten.length))
    have hsame := h _ _ hp (behind_holds b _)
    unfold ringbufInsertv ringbufInsert at hsame
    rw [hout, hout'] at hsame
    refine ⟨out, hout, (hsame.2.2.2 sizeofRing).trans (hbyte'.trans ?_)⟩
    rw [hmem]
    exact copyPayload_behind b (afterHeader_lt hs) (by omega) hs.len_le hwrap (by omega) hall
  obtain ⟨out, hout, hzero⟩ := hfound 0
  obtain ⟨out', hout', hone⟩ := hfound 1
  obtain rfl := Option.some.inj (hout.symm.trans hout')
  exact absurd (hzero.symm.trans hone) (by decide)

theorem splitsAlike_of : r.SplitsAlike parts := by
  intro hall
  have hnarrow := narrow_of hs hlen hadm hm hhead h hall
  refine ⟨hnarrow, ?_⟩
  have hn := ofNat_length hlen
  have hle := admitted_length hlen hadm
  have hp := presents_iovsOf hlen
  have hbuf := behind_holds 0 parts.flatten
  obtain ⟨hiovret, -, hflatret, -⟩ := writes_eq hs hhead src proto (iovsOf parts)
    (behind 0 parts.flatten) (UInt32.ofNat parts.flatten.length)
  obtain ⟨-, hpoursret⟩ := iovLoop_pours (m := (r.writeHeader src proto
    (UInt32.ofNat parts.flatten.length)).mem) hp (afterHeader_lt hs) hs.len_le (by omega) fun _ => hnarrow
  have hcopied := copyPayload_ret_iff (m := (r.writeHeader src proto
    (UInt32.ofNat parts.flatten.length)).mem) hbuf.readable (afterHeader_lt hs)
    (show parts.flatten.length ≤ r.len.toNat by omega) hs.len_le
  rw [hn] at hflatret
  rw [← hiovret, and_iff_left hall] at hpoursret
  rw [← hflatret, and_iff_left hall, List.length_eq_zero_iff] at hcopied
  rw [← hpoursret, ← hcopied]
  -- a fault is no length
  obtain ⟨out, hout, hret, -⟩ := insertWith_outcome hadm hm
    (r.writeIovs src proto (iovsOf parts) (UInt32.ofNat parts.flatten.length)).1
    (r.afterIovs (r.writeIovs src proto (iovsOf parts) (UInt32.ofNat parts.flatten.length)).2)
  obtain ⟨out', hout', hret', -⟩ := insertWith_outcome hadm hm
    (r.writeMessage src proto (behind 0 parts.flatten) (UInt32.ofNat parts.flatten.length))
    (r.afterMessage (UInt32.ofNat parts.flatten.length))
  have hsame := h _ _ hp hbuf
  unfold ringbufInsertv ringbufInsert at hsame
  rw [hout, hout'] at hsame
  have heq := hsame.1
  rw [hret, hret', hn] at heq
  have hlength : i32 parts.flatten.length ≠ -efault := by
    unfold i32 efault
    omega
  have hflat : (r.writeMessage src proto (behind 0 parts.flatten)
      (UInt32.ofNat parts.flatten.length)).ret = 0 ∨ _ := writeMessage_ret
  rcases writeIovs_ret src proto (iovsOf parts) (UInt32.ofNat parts.flatten.length) with hz | hne <;>
    rcases hflat with hz' | hne'
  · exact iff_of_true hz' hz
  · rw [hz, hne', if_pos rfl, if_neg (by decide)] at heq
    exact absurd heq hlength
  · rw [hne, hz', if_pos rfl, if_neg (by decide)] at heq
    exact absurd heq.symm hlength
  · exact iff_of_false (by rw [hne']; decide) (by rw [hne]; decide)

end

end RingInfo

open RingInfo

/-- **Scatter-gather and flat sends.**  They agree on a message exactly when it is refused, its header has no
page, or it is split alike: if its payload has pages, less than 2^31 bytes of it come before a wrap, and the
empty buffers of the list stand in pages if and only if an empty payload does. -/
theorem sendsAgree_iff {r : RingInfo} (hs : r.Sane) (src : Addr) (proto : UInt32) {parts : List (List UInt8)}
    (hlen : parts.flatten.length ≤ 4294967280) :
    r.SendsAgree src proto parts ↔
      (r.Admits (UInt32.ofNat parts.flatten.length) → r.Mapped → r.HeaderPaged → r.SplitsAlike parts) :=
  ⟨fun h hadm hm hhead => splitsAlike_of hs hlen hadm hm hhead h, sendsAgree_of hs hlen⟩

theorem sendsAgree_small : emptyRing.SendsAgree ⟨5, 2⟩ 6 [[1], [], [2, 3]] := by
  have hs : emptyRing.Sane := emptyRing_lenOk.sane (by decide)
  refine (sendsAgree_iff hs ⟨5, 2⟩ 6 (by decide)).mpr fun _ _ _ _ => ⟨fun hwrap => ?_, ?_⟩
  · exact absurd hwrap (by decide)
  · exact iff_of_true (fun hz => absurd hz (by decide))
      ⟨fun hz => absurd hz (by decide), fun _ => by decide, fun hz => absurd hz (by decide), trivial⟩

/-- A ring of 4096 bytes with one page, which ends 20 bytes behind the header of the next message. -/
def shortRing : RingInfo := blank ⟨⟨1, 1⟩, 2⟩ 4096 1 4000 4000

/-- 20 bytes and an empty buffer behind them: one buffer is sent, the list is a fault. -/
theorem sendv_empty_buffer_faults : ¬ ∀ (r : RingInfo) (src : Addr) (proto : UInt32)
    (parts : List (List UInt8)), r.Sane → r.Mapped → r.rxPtr < r.len.toNat →
    r.len.toNat ≤ r.npage.toNat * pageSize → parts.flatten.length ≤ 4294967280 →
    r.SendsAgree src proto parts := by
  intro hall
  have hlist : (ringbufInsertv shortRing ⟨5, 2⟩ 6 (iovsOf [List.replicate 20 7, []]) 20).map
      InsertOut.ret = some (-efault) := by decide
  have hflat : (ringbufInsert shortRing ⟨5, 2⟩ 6 (behind 0 (List.replicate 20 7)) 20).map
      InsertOut.ret = some 20 := by decide
  obtain ⟨out, hout, hret⟩ := Option.map_eq_some_iff.mp hlist
  obtain ⟨out', hout', hret'⟩ := Option.map_eq_some_iff.mp hflat
  have hsane : shortRing.Sane := by constructor <;> decide
  have hsame := hall shortRing ⟨5, 2⟩ 6 [List.replicate 20 7, []] hsane (by decide) (by decide) (by decide)
    (by decide) _ _ (presents_iovsOf (by decide)) (behind_holds 0 _)
  have heq : SameInsert (some out) (some out') := hout ▸ hout' ▸ hsame
  exact absurd (hret.symm.trans (heq.1.trans hret')) (by decide)

end V4v
