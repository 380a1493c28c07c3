import LegacyV4v.RingContainment

/-! # Messages in pieces

`v4v_sendv` reads the sender's iov array twice: `v4v_iov_count` adds up the lengths,
which gives the size that is checked and reserved, and `v4v_ringbuf_insertv` reads the
entries again to copy them.  Nothing ties the second read to the first.  Here `first`
and `second` are the arrays the two reads see.

As long as the pieces of the second read together fit into the ring, the loop fills the
span behind the header piece by piece; `iovLoop_overrun` says what happens to the byte
behind a reservation they do not fit into. -/
namespace V4v
open MachineWord CyclicBuffer

/-- The payload bytes the copying loop asks for: the lengths are cut to 32 bits, and an
entry that cannot be used ends the loop. -/
def iovTotal : List (Option Iov) → Nat
  | some v :: rest => if v.okay then u32 v.iovLen.toNat + iovTotal rest else 0
  | _ => 0

/-- The length `v4v_sendv` works with, a `uint32_t`, and so never negative. -/
def iovLen (first : List (Option Iov)) : UInt32 := UInt32.ofNat (u32 (iovCount first 0))

/-- The insertion of `v4v_sendv`, with the arrays its two reads see. -/
def ringbufSendv (r : RingInfo) (src : Addr) (proto : UInt32) (first second : List (Option Iov)) :
    Option InsertOut :=
  ringbufInsertv r src proto second (iovLen first)

namespace RingInfo
variable {r : RingInfo}

/-! ## One step of the loop -/

theorem iovLoop_stop {v : Option Iov} (hv : ∀ w, v = some w → w.okay = false)
    (rest : List (Option Iov)) (tx : Nat) (m : PageMem) :
    r.iovLoop (v :: rest) tx m = (⟨-efault, m, [], []⟩, tx) := by
  cases v with
  | none => rfl
  | some w =>
    unfold iovLoop
    rw [hv w rfl]
    rfl

/-- A usable entry: either its copy fails and ends the loop, or the loop goes on behind
it. -/
theorem iovLoop_cons {v : Iov} (hv : v.okay = true) (rest : List (Option Iov)) (tx : Nat)
    (m : PageMem) :
    ((r.copyPayload m tx v.buf (u32 v.iovLen.toNat)).ret ≠ 0 ∧
      r.iovLoop (some v :: rest) tx m = (r.copyPayload m tx v.buf (u32 v.iovLen.toNat), tx)) ∨
    ((r.copyPayload m tx v.buf (u32 v.iovLen.toNat)).ret = 0 ∧
      ∃ p, p = r.iovLoop rest (r.wrap (u32 ((r.lastPiece tx (u32 v.iovLen.toNat)).1 +
          (r.lastPiece tx (u32 v.iovLen.toNat)).2)))
          (r.copyPayload m tx v.buf (u32 v.iovLen.toNat)).mem ∧
        r.iovLoop (some v :: rest) tx m = (⟨p.1.ret, p.1.mem,
          (r.copyPayload m tx v.buf (u32 v.iovLen.toNat)).chunks ++ p.1.chunks,
          (r.copyPayload m tx v.buf (u32 v.iovLen.toNat)).maps ++ p.1.maps⟩, p.2)) := by
  by_cases h : (r.copyPayload m tx v.buf (u32 v.iovLen.toNat)).ret = 0
  · refine Or.inr ⟨h, _, rfl, ?_⟩
    rw [iovLoop, if_pos hv]
    dsimp only
    rw [if_neg (by simp [h])]
  · refine Or.inl ⟨h, ?_⟩
    rw [iovLoop, if_pos hv]
    dsimp only
    rw [if_pos h]

theorem iovTotal_cons {v : Iov} (hv : v.okay = true) (rest : List (Option Iov)) :
    iovTotal (some v :: rest) = u32 v.iovLen.toNat + iovTotal rest := by
  rw [iovTotal, if_pos hv]

theorem iovTotal_stop {v : Option Iov} (hv : ∀ w, v = some w → w.okay = false)
    (rest : List (Option Iov)) : iovTotal (v :: rest) = 0 := by
  cases v with
  | none => rfl
  | some w => rw [iovTotal, hv w rfl]; rfl

/-- The entries of an array: usable, or not. -/
theorem iov_cases (v : Option Iov) :
    (∃ w, v = some w ∧ w.okay = true) ∨ ∀ w, v = some w → w.okay = false := by
  cases v with
  | none => exact Or.inr fun w hw => by cases hw
  | some w =>
    cases hw : w.okay with
    | true => exact Or.inl ⟨w, rfl, hw⟩
    | false => exact Or.inr fun w' h => by cases h; exact hw

/-! ## Copies that stay in a span -/

/-- However it ends, the copy `o` writes only the `n` bytes from `tx` on, in chunks that
stay in the pages of the ring. -/
structure Fills (r : RingInfo) (tx n : Nat) (m : PageMem) (o : CopyOut) : Prop where
  ret : o.ret = 0 ∨ o.ret = -efault
  frame : ∀ a, ¬ r.Span tx n a → o.mem.byte a = m.byte a
  chunks : ∀ c ∈ o.chunks, c.InPage ∧ c.page < r.npage.toNat ∧
    ∀ a, c.start ≤ a → a < c.start + c.len → r.Span tx n a

theorem Fills.nothing {tx : Nat} {m : PageMem} {e : Int} (he : e = 0 ∨ e = -efault) :
    r.Fills tx 0 m ⟨e, m, [], []⟩ :=
  ⟨he, fun _ _ => rfl, fun c hc => by cases hc⟩

theorem Span.mono {tx n k a : Nat} (h : r.Span tx n a) (hnk : n ≤ k) : r.Span tx k a :=
  ⟨h.1, h.2.1, Nat.lt_of_lt_of_le h.2.2 hnk⟩

theorem Fills.mono {tx n k : Nat} {m : PageMem} {o : CopyOut} (h : r.Fills tx n m o)
    (hnk : n ≤ k) : r.Fills tx k m o where
  ret := h.ret
  frame a ha := h.frame a fun hspan => ha (hspan.mono hnk)
  chunks c hc := by
    obtain ⟨h1, h2, h3⟩ := h.chunks c hc
    exact ⟨h1, h2, fun a ha ha' => (h3 a ha ha').mono hnk⟩

/-- Two copies in adjoining spans. -/
theorem Fills.append {tx n k : Nat} {m : PageMem} {o o' : CopyOut} {ms : List Nat}
    (h : r.Fills tx n m o) (h' : r.Fills (advance r.len.toNat tx n) k o.mem o')
    (htx : tx < r.len.toNat) (hn : n < r.len.toNat) (hnk : n + k ≤ r.len.toNat) :
    r.Fills tx (n + k) m ⟨o'.ret, o'.mem, o.chunks ++ o'.chunks, ms⟩ where
  ret := h'.ret
  frame a ha := by
    rw [span_add htx hn hnk, not_or] at ha
    exact (h'.frame a ha.2).trans (h.frame a ha.1)
  chunks c hc := by
    rcases List.mem_append.mp hc with hc | hc
    · obtain ⟨h1, h2, h3⟩ := h.chunks c hc
      exact ⟨h1, h2, fun a ha ha' => (span_add htx hn hnk).mpr (Or.inl (h3 a ha ha'))⟩
    · obtain ⟨h1, h2, h3⟩ := h'.chunks c hc
      exact ⟨h1, h2, fun a ha ha' => (span_add htx hn hnk).mpr (Or.inr (h3 a ha ha'))⟩

theorem copyPayload_fills {tx len : Nat} (htx : tx < r.len.toNat) (hlen : len ≤ r.len.toNat)
    (hmax : r.len.toNat ≤ 4294963200) (m : PageMem) (buf : GuestBuf) :
    r.Fills tx len m (r.copyPayload m tx buf len) where
  ret := copyPayload_ret
  frame _ ha := copyPayload_frame htx hlen hmax ha
  chunks c hc := by
    obtain ⟨h1, h2, _, _, h5⟩ := copyPayload_chunks htx hlen hmax hc
    exact ⟨h1, h2, h5⟩

theorem writeHeader_fills (hs : r.Sane) (src : Addr) (proto len : UInt32) :
    r.Fills r.txPtr.toNat sizeofMessageHeader r.mem (r.writeHeader src proto len) where
  ret := writeHeader_ret
  frame _ ha := writeHeader_frame hs ha
  chunks c hc := by
    obtain ⟨h1, h2, _, _, h5⟩ := writeHeader_chunks hs hc
    exact ⟨h1, h2, h5⟩

/-- The loop fills the span of its pieces, as long as they fit into the ring. -/
theorem iovLoop_fills {iovs : List (Option Iov)} {tx : Nat} (htx : tx < r.len.toNat)
    (hmax : r.len.toNat ≤ 4294963200) (htotal : iovTotal iovs < r.len.toNat) (m : PageMem) :
    r.Fills tx (iovTotal iovs) m (r.iovLoop iovs tx m).1 ∧
      ((r.iovLoop iovs tx m).1.ret = 0 →
        (r.iovLoop iovs tx m).2 = advance r.len.toNat tx (iovTotal iovs)) := by
  induction iovs generalizing tx m with
  | nil => exact ⟨Fills.nothing (Or.inl rfl), fun _ => (advance_zero htx).symm⟩
  | cons v rest ih =>
    rcases iov_cases v with ⟨w, rfl, hw⟩ | hv
    · rw [iovTotal_cons hw] at htotal ⊢
      have hfirst := copyPayload_fills htx (show u32 w.iovLen.toNat ≤ _ by omega) hmax m w.buf
      rcases iovLoop_cons (r := r) hw rest tx m with ⟨hne, h⟩ | ⟨hzero, p, hp, h⟩
      · rw [h]
        exact ⟨hfirst.mono (by omega), fun hret => absurd hret hne⟩
      · rw [wrap_lastPiece htx (by omega)] at hp
        obtain ⟨hrest, hend⟩ := ih (advance_lt htx (show u32 w.iovLen.toNat ≤ _ by omega))
          (by omega) (r.copyPayload m tx w.buf (u32 w.iovLen.toNat)).mem
        rw [← hp] at hrest hend
        rw [h]
        refine ⟨hfirst.append hrest htx (by omega) (by omega), fun hret => ?_⟩
        rw [hend hret, advance_advance htx (by omega)]
    · rw [iovLoop_stop hv, iovTotal_stop hv]
      exact ⟨Fills.nothing (Or.inr rfl), fun hret => absurd hret (by simp [efault])⟩

/-- Header and pieces together. -/
theorem writeIovs_fills (hs : r.Sane) {iovs : List (Option Iov)}
    (htotal : sizeofMessageHeader + iovTotal iovs < r.len.toNat) (src : Addr)
    (proto len : UInt32) :
    r.Fills r.txPtr.toNat (sizeofMessageHeader + iovTotal iovs) r.mem
      (r.writeIovs src proto iovs len).1 ∧
      ((r.writeIovs src proto iovs len).1.ret = 0 → (r.writeIovs src proto iovs len).2 =
        advance r.len.toNat r.txPtr.toNat (sizeofMessageHeader + iovTotal iovs)) := by
  have hhead := writeHeader_fills hs src proto len
  unfold writeIovs
  dsimp only
  by_cases hret : (r.writeHeader src proto len).ret = 0
  · rw [if_neg (by simp [hret])]
    obtain ⟨hloop, hend⟩ := iovLoop_fills (afterHeader_lt hs) hs.len_le
      (show iovTotal iovs < r.len.toNat by omega) (r.writeHeader src proto len).mem
    rw [afterHeader_eq hs] at hloop hend ⊢
    refine ⟨hhead.append hloop hs.tx_lt (by omega) (by omega), fun hz => ?_⟩
    rw [hend hz, advance_advance hs.tx_lt (by omega)]
  · rw [if_pos hret]
    exact ⟨hhead.mono (by omega), fun hz => absurd hz hret⟩

/-- The new `tx_ptr`: the position behind the pieces, rounded up and taken round. -/
theorem afterIovs_eq (hs : r.Sane) {n : Nat} (hn : sizeofMessageHeader + n < r.len.toNat) :
    r.afterIovs (advance r.len.toNat r.txPtr.toNat (sizeofMessageHeader + n)) =
      advance r.len.toNat r.txPtr.toNat (sizeofMessageHeader + (n + 15) / 16 * 16) := by
  obtain ⟨h1, h2, h3, h4, h5⟩ := hs
  have hlt := advance_lt (n := r.len.toNat) h5 (Nat.le_of_lt hn)
  have hround : (roundup (UInt32.ofNat (advance r.len.toNat r.txPtr.toNat
      (sizeofMessageHeader + n)))).toNat =
      (advance r.len.toNat r.txPtr.toNat (sizeofMessageHeader + n) + 15) / 16 * 16 := by
    rw [roundup_toNat, toNat_ofNat_of_lt (by omega), Nat.mod_eq_of_lt (by omega)]
  unfold afterIovs
  dsimp only
  rw [hround]
  unfold advance sizeofMessageHeader u32 at *
  split <;> split <;> split <;> omega

/-! ## Pieces that do not fit -/

/-- A page copy that returns 0 reaches each of its bytes, or leaves its page. -/
theorem memcpy_reaches {m : PageMem} {offset len : Nat} {buf : GuestBuf} {src : Int}
    (hlen : len < 4294967296)
    (hret : (r.memcpyToGuestRingFromGuest m offset buf src len).ret = 0) {i : Nat} (hi : i < len) :
    ∃ c ∈ (r.memcpyToGuestRingFromGuest m offset buf src len).chunks,
      ¬ c.InPage ∨ c.start ≤ offset + i ∧ offset + i < c.start + c.len := by
  have hoff : offset % pageSize < pageSize := Nat.mod_lt _ pageSize_pos
  have hdiv : offset / pageSize * pageSize + offset % pageSize = offset :=
    Nat.div_add_mod' offset pageSize
  unfold memcpyToGuestRingFromGuest at hret ⊢
  by_cases hwrap : 4294967296 ≤ offset % pageSize + len
  · have hleft : 0 < r.npage.toNat - offset / pageSize := by
      refine Nat.pos_of_ne_zero fun hz => ?_
      rw [hz, copyLoop] at hret
      exact absurd hret (by simp [efault])
    obtain ⟨hchunks, hpage⟩ := copyLoop_wrapped hoff hlen hwrap hleft
    rw [hchunks]
    exact ⟨_, List.mem_singleton_self _, Or.inl hpage⟩
  · have hfits := copyLoop_fits hoff (by omega) hret
    have hmul := Nat.add_mul (offset / pageSize) (r.npage.toNat - offset / pageSize) pageSize
    obtain ⟨c, hc, hstart, hend⟩ := copyLoop_covers hoff (by omega) (Or.inl hret)
      (show offset / pageSize * pageSize + offset % pageSize ≤ offset + i by omega) (by omega)
      (by omega)
    exact ⟨c, hc, Or.inr ⟨hstart, hend⟩⟩

/-- So does a payload. -/
theorem copyPayload_reaches {m : PageMem} {tx len : Nat} {buf : GuestBuf}
    (htx : tx < r.len.toNat) (hmax : r.len.toNat ≤ 4294963200) (hlen : len < 4294967296)
    (hret : (r.copyPayload m tx buf len).ret = 0) {i : Nat} (hi : i < len) :
    ∃ c ∈ (r.copyPayload m tx buf len).chunks,
      ¬ c.InPage ∨ c.start ≤ sizeofRing + advance r.len.toNat tx i ∧
        sizeofRing + advance r.len.toNat tx i < c.start + c.len := by
  rw [copyPayload_eq htx hmax] at hret ⊢
  by_cases hsplit : r.len.toNat < tx + len
  · rw [if_pos hsplit] at hret ⊢
    rcases CopyOut.andThen_cases (r.memcpyToGuestRingFromGuest m (tx + sizeofRing) buf 0
      (r.len.toNat - tx)) _ with ⟨hne, h⟩ | ⟨hfirst, h⟩
    · rw [h] at hret; exact absurd hret hne
    · rw [h] at hret ⊢
      by_cases hi' : i < r.len.toNat - tx
      · obtain ⟨c, hc, hin⟩ := memcpy_reaches (by omega) hfirst hi'
        rw [show tx + sizeofRing + i = sizeofRing + advance r.len.toNat tx i by
          rw [advance_of_lt (by omega)]; omega] at hin
        exact ⟨c, List.mem_append_left _ hc, hin⟩
      · obtain ⟨c, hc, hin⟩ := memcpy_reaches (by omega) hret
          (show i - (r.len.toNat - tx) < len - (r.len.toNat - tx) by omega)
        rw [show sizeofRing + (i - (r.len.toNat - tx)) = sizeofRing + advance r.len.toNat tx i by
          rw [advance_of_le (by omega)]; omega] at hin
        exact ⟨c, List.mem_append_right _ hc, hin⟩
  · rw [if_neg hsplit] at hret ⊢
    obtain ⟨c, hc, hin⟩ := memcpy_reaches hlen hret hi
    rw [show tx + sizeofRing + i = sizeofRing + advance r.len.toNat tx i by
      rw [advance_of_lt (by omega)]; omega] at hin
    exact ⟨c, hc, hin⟩

/-- A loop that asks for more than `n` bytes and returns 0 writes the byte `n` after its
start, or leaves a page. -/
theorem iovLoop_overrun {iovs : List (Option Iov)} {tx n : Nat} (htx : tx < r.len.toNat)
    (hmax : r.len.toNat ≤ 4294963200) (hn : n < iovTotal iovs) (hlap : n < r.len.toNat)
    {m : PageMem} (hret : (r.iovLoop iovs tx m).1.ret = 0) :
    ∃ c ∈ (r.iovLoop iovs tx m).1.chunks,
      ¬ c.InPage ∨ c.start ≤ sizeofRing + advance r.len.toNat tx n ∧
        sizeofRing + advance r.len.toNat tx n < c.start + c.len := by
  induction iovs generalizing tx n m with
  | nil => simp [iovTotal] at hn
  | cons v rest ih =>
    rcases iov_cases v with ⟨w, rfl, hw⟩ | hv
    · rw [iovTotal_cons hw] at hn
      have hlen : u32 w.iovLen.toNat < 4294967296 := u32_lt _
      rcases iovLoop_cons (r := r) hw rest tx m with ⟨hne, h⟩ | ⟨hzero, p, hp, h⟩
      · rw [h] at hret; exact absurd hret hne
      · rw [h] at hret ⊢
        by_cases hfirst : n < u32 w.iovLen.toNat
        · -- this piece already passes the byte
          obtain ⟨c, hc, hin⟩ := copyPayload_reaches htx hmax hlen hzero hfirst
          exact ⟨c, List.mem_append_left _ hc, hin⟩
        · rw [wrap_lastPiece htx (by omega)] at hp
          have hrest := ih (advance_lt htx (show u32 w.iovLen.toNat ≤ _ by omega))
            (show n - u32 w.iovLen.toNat < iovTotal rest by omega) (by omega)
            (by rw [← hp]; exact hret)
          rw [← hp, advance_advance htx (by omega),
            show u32 w.iovLen.toNat + (n - u32 w.iovLen.toNat) = n by omega] at hrest
          obtain ⟨c, hc, hin⟩ := hrest
          exact ⟨c, List.mem_append_right _ hc, hin⟩
    · rw [iovTotal_stop hv] at hn; omega

theorem iovLoop_ret (iovs : List (Option Iov)) (tx : Nat) (m : PageMem) :
    (r.iovLoop iovs tx m).1.ret = 0 ∨ (r.iovLoop iovs tx m).1.ret = -efault := by
  induction iovs generalizing tx m with
  | nil => exact Or.inl rfl
  | cons v rest ih =>
    rcases iov_cases v with ⟨w, rfl, hw⟩ | hv
    · rcases iovLoop_cons (r := r) hw rest tx m with ⟨_, h⟩ | ⟨_, p, rfl, h⟩
      · rw [h]; exact copyPayload_ret
      · rw [h]; exact ih _ _
    · rw [iovLoop_stop hv]; exact Or.inr rfl

theorem writeIovs_ret (src : Addr) (proto : UInt32) (iovs : List (Option Iov)) (len : UInt32) :
    (r.writeIovs src proto iovs len).1.ret = 0 ∨
      (r.writeIovs src proto iovs len).1.ret = -efault := by
  unfold writeIovs
  dsimp only
  split
  · exact writeHeader_ret
  · exact iovLoop_ret _ _ _

/-- A successful copy that asks for more than `n` bytes passes the end of a span of
`16 + n` bytes, or leaves a page. -/
theorem writeIovs_overrun (hs : r.Sane) {iovs : List (Option Iov)} {n : Nat}
    (hn : n < iovTotal iovs) (hlap : sizeofMessageHeader + n < r.len.toNat) {src : Addr}
    {proto len : UInt32} (hret : (r.writeIovs src proto iovs len).1.ret = 0) :
    ∃ c ∈ (r.writeIovs src proto iovs len).1.chunks, ¬ c.InPage ∨
      ∃ a, c.start ≤ a ∧ a < c.start + c.len ∧
        ¬ r.Span r.txPtr.toNat (sizeofMessageHeader + n) a := by
  unfold writeIovs at hret ⊢
  dsimp only at hret ⊢
  by_cases hhead : (r.writeHeader src proto len).ret = 0
  · rw [if_neg (by simp [hhead])] at hret ⊢
    obtain ⟨c, hc, hin⟩ := iovLoop_overrun (afterHeader_lt hs) hs.len_le hn (by omega) hret
    refine ⟨c, List.mem_append_right _ hc, hin.imp_right fun hin => ⟨_, hin.1, hin.2, ?_⟩⟩
    rw [afterHeader_eq hs, advance_advance hs.tx_lt (by omega),
      span_iff hs.tx_lt (Nat.le_of_lt hlap)]
    rintro ⟨i, hi, he⟩
    have := advance_injective hlap (by omega) (Nat.add_left_cancel he)
    omega
  · rw [if_pos hhead] at hret
    exact absurd hret hhead

end RingInfo

/-! ## The two reads -/

open RingInfo

/-- What a successful `v4v_sendv` should do with a message of `len` bytes: `tx_ptr` moves
behind the space reserved for it, and nothing outside that space is written. -/
def RingInfo.KeepsReservation (r : RingInfo) (len : UInt32) (out : InsertOut) : Prop :=
  out.ring.txPtr.toNat = (r.txPtr.toNat + 16 + (roundup len).toNat) % r.len.toNat ∧
    ∀ c ∈ out.chunks, c.InPage ∧ c.page < r.npage.toNat ∧ ∀ a, c.start ≤ a →
      a < c.start + c.len → r.Span r.txPtr.toNat (16 + (roundup len).toNat) a

/-- What a return value `≥ 0` says: the message was admitted, copied and published, and
its length is below `2^31`. -/
theorem ringbufInsertv_success {r : RingInfo} {src : Addr} {proto len : UInt32}
    {iovs : List (Option Iov)} {out : InsertOut}
    (hout : ringbufInsertv r src proto iovs len = some out) (hret : 0 ≤ out.ret) :
    r.Admits len ∧ len.toNat < 2147483648 ∧ (r.writeIovs src proto iovs len).1.ret = 0 ∧
      out.chunks = (r.writeIovs src proto iovs len).1.chunks ∧
      out.ring.txPtr = UInt32.ofNat (r.afterIovs (r.writeIovs src proto iovs len).2) := by
  rcases insertWith_cases hout with ⟨_, _, h⟩ | ⟨_, _, hne, rfl⟩ | ⟨hadm, _, hzero, rfl⟩
  · exfalso
    rcases h with ⟨h, _⟩ | ⟨h, _⟩ | ⟨h, _⟩ <;> rw [h] at hret <;> exact absurd hret (by decide)
  · exfalso
    have hfault := (writeIovs_ret src proto iovs len).resolve_left hne
    dsimp only at hret
    rw [hfault] at hret
    exact absurd hret (by decide)
  · refine ⟨hadm, ?_, hzero, rfl, rfl⟩
    have := len.toNat_lt
    unfold i32 at hret
    dsimp only at hret
    omega

/-- If the second read asks for as much as was reserved, the reservation is kept. -/
theorem keepsReservation_of {r : RingInfo} (hs : r.Sane) {src : Addr} {proto len : UInt32}
    {second : List (Option Iov)} {out : InsertOut}
    (hout : ringbufInsertv r src proto second len = some out) (hret : 0 ≤ out.ret)
    (hsum : (iovTotal second + 15) / 16 * 16 = (len.toNat + 15) / 16 * 16) :
    r.KeepsReservation len out := by
  obtain ⟨hadm, hlen, hzero, hchunks, htx⟩ := ringbufInsertv_success hout hret
  have hround : (roundup len).toNat = (len.toNat + 15) / 16 * 16 := by
    rw [roundup_toNat, Nat.mod_eq_of_lt (by omega)]
  have hfit := hadm.1
  unfold messageSize sizeofMessageHeader at hfit
  obtain ⟨hfills, hend⟩ := writeIovs_fills hs
    (show sizeofMessageHeader + iovTotal second < r.len.toNat by
      unfold sizeofMessageHeader; omega) src proto len
  have hle : iovTotal second ≤ (roundup len).toNat := by omega
  refine ⟨?_, fun c hc => ?_⟩
  · have hpos := afterIovs_eq hs (n := iovTotal second) (by unfold sizeofMessageHeader; omega)
    rw [htx, hend hzero, hpos, hsum, ← hround, toNat_ofNat_of_lt, advance_eq_mod hs.tx_lt,
      Nat.add_assoc]
    · rfl
    · unfold sizeofMessageHeader; omega
    · have hL := r.len.toNat_lt
      exact Nat.lt_trans (advance_lt hs.tx_lt (by unfold sizeofMessageHeader; omega)) hL
  · rw [hchunks] at hc
    exact (hfills.mono (Nat.add_le_add_left hle _)).chunks c hc

/-- A kept reservation is as large as what the second read asks for: with less, `tx_ptr`
stops early; with more, the byte behind the reservation is written. -/
theorem iovTotal_of_keepsReservation {r : RingInfo} (hs : r.Sane) {src : Addr}
    {proto len : UInt32} {second : List (Option Iov)} {out : InsertOut}
    (hout : ringbufInsertv r src proto second len = some out) (hret : 0 ≤ out.ret)
    (h : r.KeepsReservation len out) :
    (iovTotal second + 15) / 16 * 16 = (len.toNat + 15) / 16 * 16 := by
  obtain ⟨hadm, hlen, hzero, hchunks, htx⟩ := ringbufInsertv_success hout hret
  have hround : (roundup len).toNat = (len.toNat + 15) / 16 * 16 := by
    rw [roundup_toNat, Nat.mod_eq_of_lt (by omega)]
  have hfit : sizeofMessageHeader + (roundup len).toNat < r.len.toNat := by
    have := hadm.1; unfold messageSize at this; omega
  by_cases hover : (roundup len).toNat < iovTotal second
  · exfalso
    obtain ⟨c, hc, hbad⟩ := writeIovs_overrun hs hover hfit hzero
    obtain ⟨hpage, _, hspan⟩ := h.2 c (by rw [hchunks]; exact hc)
    rcases hbad with hbad | ⟨a, ha, ha', hbad⟩
    · exact hbad hpage
    · exact hbad (hspan a ha ha')
  · obtain ⟨_, hend⟩ := writeIovs_fills hs
      (show sizeofMessageHeader + iovTotal second < r.len.toNat by omega) src proto len
    have hpos := afterIovs_eq hs (n := iovTotal second) (by omega)
    have hle : sizeofMessageHeader + (iovTotal second + 15) / 16 * 16 < r.len.toNat := by omega
    have htx' := h.1
    rw [htx, hend hzero, hpos, toNat_ofNat_of_lt (Nat.lt_trans
      (advance_lt hs.tx_lt (Nat.le_of_lt hle)) r.len.toNat_lt), Nat.add_assoc] at htx'
    have hinj := advance_injective hle hfit
      (htx'.trans (advance_eq_mod hs.tx_lt (Nat.le_of_lt hfit)).symm)
    omega

/-! ## Rings with a bad `tx_ptr` -/

/-- The header of a message is written at `tx_ptr`, wherever that is. -/
theorem writeIovs_header {r : RingInfo} {src : Addr} {proto len : UInt32}
    {iovs : List (Option Iov)} (hret : (r.writeIovs src proto iovs len).1.ret = 0) :
    ∃ c ∈ (r.writeIovs src proto iovs len).1.chunks, ¬ c.InPage ∨
      c.start ≤ u32 (r.txPtr.toNat + sizeofRing) ∧
        u32 (r.txPtr.toNat + sizeofRing) < c.start + c.len := by
  have hwrite : (r.writeHeader src proto len).ret = 0 := by
    by_contra hne
    unfold writeIovs at hret
    dsimp only at hret
    rw [if_pos hne] at hret
    exact hne hret
  obtain ⟨c, hc, hin⟩ : ∃ c ∈ (r.writeHeader src proto len).chunks, ¬ c.InPage ∨
      c.start ≤ u32 (r.txPtr.toNat + sizeofRing) + 0 ∧
        u32 (r.txPtr.toNat + sizeofRing) + 0 < c.start + c.len :=
    memcpy_reaches (by simp [sizeofMessageHeader]) hwrite (by simp [sizeofMessageHeader])
  refine ⟨c, ?_, hin⟩
  unfold writeIovs
  dsimp only
  rw [if_neg (by simp [hwrite])]
  exact List.mem_append_left _ hc

/-- Whatever the ring, the new `tx_ptr` is aligned. -/
theorem afterIovs_mod {r : RingInfo} (h : r.LenOk) (tx : Nat) : r.afterIovs tx % 16 = 0 := by
  have hround := roundup_toNat (UInt32.ofNat tx)
  have hlen := h.len_mod
  unfold afterIovs u32
  dsimp only
  split <;> omega

/-- A reservation can only be kept from a valid `tx_ptr`. -/
theorem txOk_of_keepsReservation {r : RingInfo} (hr : r.LenOk) {src : Addr} {proto len : UInt32}
    {second : List (Option Iov)} {out : InsertOut}
    (hout : ringbufInsertv r src proto second len = some out) (hret : 0 ≤ out.ret)
    (h : r.KeepsReservation len out) : r.TxOk := by
  obtain ⟨_, hlen, hzero, hchunks, htx⟩ := ringbufInsertv_success hout hret
  have hL := hr.len_mod
  have hpos := hr.len_ge
  constructor
  · obtain ⟨c, hc, hbad⟩ := writeIovs_header hzero
    obtain ⟨hpage, _, hspan⟩ := h.2 c (by rw [hchunks]; exact hc)
    obtain ⟨hge, hlt, _⟩ := hspan _ (hbad.resolve_left fun hn => hn hpage).1
      (hbad.resolve_left fun hn => hn hpage).2
    have := r.txPtr.toNat_lt
    unfold u32 sizeofRing at hge hlt
    omega
  · have htx' := h.1
    have hmod := afterIovs_mod hr (r.writeIovs src proto second len).2
    have hround := roundup_toNat len
    have hlt : r.afterIovs (r.writeIovs src proto second len).2 < 4294967296 := by
      have := (roundup (UInt32.ofNat (r.writeIovs src proto second len).2)).toNat_lt
      unfold afterIovs u32
      dsimp only
      split <;> omega
    rw [htx, toNat_ofNat_of_lt hlt] at htx'
    have hdvd : 16 ∣ (r.txPtr.toNat + 16 + (roundup len).toNat) % r.len.toNat := by
      rw [← htx']; omega
    have := (Nat.dvd_mod_iff (Nat.dvd_of_mod_eq_zero hL)).mp hdvd
    omega

/-- **When `v4v_sendv` keeps to its reservation.**  A call that returned a value `≥ 0`
moved `tx_ptr` behind the space reserved by the first read and wrote nothing outside
that space exactly when `tx_ptr` was valid and the lengths of the second read add up,
rounded to 16 bytes, to the reserved length. -/
theorem sendv_keepsReservation_iff {r : RingInfo} (hr : r.LenOk) {src : Addr} {proto : UInt32}
    {first second : List (Option Iov)} {out : InsertOut}
    (hout : ringbufSendv r src proto first second = some out) (hret : 0 ≤ out.ret) :
    r.KeepsReservation (iovLen first) out ↔ r.TxOk ∧
      (iovTotal second + 15) / 16 * 16 = ((iovLen first).toNat + 15) / 16 * 16 := by
  constructor
  · intro h
    have htx := txOk_of_keepsReservation hr hout hret h
    exact ⟨htx, iovTotal_of_keepsReservation (hr.sane htx) hout hret h⟩
  · rintro ⟨htx, hsum⟩
    exact keepsReservation_of (hr.sane htx) hout hret hsum

/-- An array of one entry of `n` bytes. -/
def oneIov (n : UInt64) : List (Option Iov) := [some ⟨n, .ofBytes [], true⟩]

/-- An empty ring of 48 bytes. -/
def emptyRing : RingInfo := blank ⟨⟨1, 1⟩, 2⟩ 48 1 0 0

theorem emptyRing_lenOk : emptyRing.LenOk := by
  constructor <;> decide

theorem sendv_keepsReservation_same : ∃ out,
    ringbufSendv emptyRing ⟨5, 2⟩ 6 (oneIov 3) (oneIov 3) = some out ∧
      emptyRing.KeepsReservation (iovLen (oneIov 3)) out := by
  have hrun : (ringbufSendv emptyRing ⟨5, 2⟩ 6 (oneIov 3) (oneIov 3)).map InsertOut.ret =
      some 3 := by decide
  obtain ⟨out, hout, hret⟩ := Option.map_eq_some_iff.mp hrun
  refine ⟨out, hout, (sendv_keepsReservation_iff emptyRing_lenOk hout ?_).mpr (by decide)⟩
  rw [hret]
  decide

/-- The first read sees an empty message and the second one of 32 bytes: the call
succeeds, fills the whole ring and leaves `tx_ptr` where it was. -/
theorem sendv_second_read_longer : ¬ ∀ (r : RingInfo) (src : Addr) (proto : UInt32)
    (first second : List (Option Iov)) (out : InsertOut), r.LenOk → r.TxOk →
    first.length = second.length → ringbufSendv r src proto first second = some out →
    0 ≤ out.ret → r.KeepsReservation (iovLen first) out := by
  intro hall
  have hrun : (ringbufSendv emptyRing ⟨5, 2⟩ 6 (oneIov 0) (oneIov 32)).map
      (fun out => (out.ret, out.ring.txPtr)) = some (0, 0) := by decide
  obtain ⟨out, hout, heq⟩ := Option.map_eq_some_iff.mp hrun
  obtain ⟨hret, htx⟩ := Prod.mk.inj heq
  have hkeep := hall emptyRing ⟨5, 2⟩ 6 (oneIov 0) (oneIov 32) out emptyRing_lenOk (by decide) rfl
    hout (Int.le_of_eq hret.symm)
  have := hkeep.1
  rw [htx] at this
  exact absurd this (by decide)

end V4v
