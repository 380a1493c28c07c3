import LegacyV4v.RingFormat

/-! # Copies into the pages of a ring

Xen maps the pages of a guest ring one at a time and copies into them page by
page.  The pages of a ring are a function from page index and in-page offset to
bytes: `m p o` is the byte `o` bytes after the address at which page `p` is
mapped.  Offsets of `PAGE_SIZE` and more are addresses behind that mapping; they
belong to no page of the ring, and a copy that is too long for its page ends up
there.  The owner of the ring sees the pages laid end to end (`PageMem.byte`).

`copyLoop` is the loop shared by `v4v_memcpy_to_guest_ring` and
`v4v_memcpy_to_guest_ring_from_guest`.  Besides its result it logs the chunks it
copies and the pages it asks `v4v_ring_map_page` for.  The lemmas below say what
it does to the ring as the owner sees it, as long as `offset + len` does not
wrap. -/
namespace V4v
open MachineWord

/-- The bytes at the addresses where the pages of a ring are mapped. -/
abbrev PageMem := Nat → Nat → UInt8

/-- The byte at offset `a` of the pages laid end to end. -/
def PageMem.byte (m : PageMem) (a : Nat) : UInt8 := m (a / pageSize) (a % pageSize)

/-- One `memcpy` or `copy_from_guest` into a mapped page. -/
structure Chunk where
  page : Nat
  off : Nat
  len : Nat
  deriving DecidableEq, Repr

/-- Where the chunk starts in the pages laid end to end. -/
def Chunk.start (c : Chunk) : Nat := c.page * pageSize + c.off

/-- The chunk stays inside its page. -/
def Chunk.InPage (c : Chunk) : Prop := c.off + c.len ≤ pageSize

instance (c : Chunk) : Decidable c.InPage := inferInstanceAs (Decidable (_ ≤ _))

/-- A buffer Xen copies from.  `byte i` is the byte `i` bytes after the start of
the buffer; a handle can be moved back before it, so `i` is an `Int`.  `fault s n`
says what becomes of a copy of `n` bytes from offset `s`: `none` when it succeeds,
`some w` when it fails half way, `w i` being what it has put at destination offset
`i` by then, if anything. -/
structure GuestBuf where
  byte : Int → UInt8
  fault : Int → Nat → Option (Nat → Option UInt8)

/-- A buffer of Xen's own, which can always be read. -/
def GuestBuf.ofBytes (l : List UInt8) : GuestBuf := ⟨fun i => l.getD i.toNat 0, fun _ _ => none⟩

/-- Every copy from the buffer succeeds. -/
def GuestBuf.Readable (buf : GuestBuf) : Prop := ∀ s n, buf.fault s n = none

theorem GuestBuf.ofBytes_readable (l : List UInt8) : (GuestBuf.ofBytes l).Readable :=
  fun _ _ => rfl

/-- Put the bytes `f` supplies into the chunk. -/
def PageMem.write (m : PageMem) (c : Chunk) (f : Nat → Option UInt8) : PageMem := fun p o =>
  if p = c.page ∧ c.off ≤ o ∧ o < c.off + c.len then (f (o - c.off)).getD (m p o) else m p o

/-- Store a `uint32_t` at offset `off` of the first page. -/
def PageMem.storeWord (m : PageMem) (off n : Nat) : PageMem :=
  m.write ⟨0, off, 4⟩ fun i => (bytes 4 n)[i]?

/-- What a copy returns, with the chunks it copied and the pages it mapped (or
tried to). -/
structure CopyOut where
  ret : Int
  mem : PageMem
  chunks : List Chunk
  maps : List Nat

/-- `if ((ret = first)) break;` and on to the next copy. -/
def CopyOut.andThen (o : CopyOut) (next : PageMem → CopyOut) : CopyOut :=
  if o.ret ≠ 0 then o
  else ⟨(next o.mem).ret, (next o.mem).mem, o.chunks ++ (next o.mem).chunks,
    o.maps ++ (next o.mem).maps⟩

/-- Either the first copy failed and nothing follows, or the second one decides. -/
theorem CopyOut.andThen_cases (o : CopyOut) (next : PageMem → CopyOut) :
    (o.ret ≠ 0 ∧ o.andThen next = o) ∨
    (o.ret = 0 ∧ o.andThen next = ⟨(next o.mem).ret, (next o.mem).mem,
      o.chunks ++ (next o.mem).chunks, o.maps ++ (next o.mem).maps⟩) := by
  unfold CopyOut.andThen
  by_cases h : o.ret = 0
  · exact Or.inr ⟨h, by rw [if_neg (by simp [h])]⟩
  · exact Or.inl ⟨h, by rw [if_pos h]⟩

/-- The page loop.  `left` is the number of pages from `page` on, so it is zero
exactly when `v4v_ring_map_page` returns `NULL`; `src` counts the bytes already
taken from the buffer. -/
def copyLoop (buf : GuestBuf) : (left page off : Nat) → (src : Int) → (len : Nat) → PageMem →
    CopyOut
  | 0, page, _, _, _, m => ⟨-efault, m, [], [page]⟩
  | left + 1, page, off, src, len, m =>
    -- `while ((offset + len) > PAGE_SIZE)`, in 32 bits
    if pageSize < (off + len) % 4294967296 then
      match buf.fault src (pageSize - off) with
      | some w => ⟨-efault, m.write ⟨page, off, pageSize - off⟩ w,
          [⟨page, off, pageSize - off⟩], [page]⟩
      | none =>
        let o := copyLoop buf left (page + 1) 0 (src + (pageSize - off : Nat))
          (len - (pageSize - off))
          (m.write ⟨page, off, pageSize - off⟩ fun i => some (buf.byte (src + i)))
        ⟨o.ret, o.mem, ⟨page, off, pageSize - off⟩ :: o.chunks, page :: o.maps⟩
    else
      match buf.fault src len with
      | some w => ⟨-efault, m.write ⟨page, off, len⟩ w, [⟨page, off, len⟩], [page]⟩
      | none => ⟨0, m.write ⟨page, off, len⟩ fun i => some (buf.byte (src + i)),
          [⟨page, off, len⟩], [page]⟩

/-! ## One chunk -/

theorem PageMem.write_byte {m : PageMem} {c : Chunk} (hc : c.InPage) (f : Nat → Option UInt8)
    (a : Nat) : (m.write c f).byte a =
      if c.start ≤ a ∧ a < c.start + c.len then (f (a - c.start)).getD (m.byte a)
      else m.byte a := by
  unfold Chunk.InPage pageSize at hc
  unfold PageMem.byte PageMem.write Chunk.start pageSize
  have hiff : (a / 4096 = c.page ∧ c.off ≤ a % 4096 ∧ a % 4096 < c.off + c.len) ↔
      (c.page * 4096 + c.off ≤ a ∧ a < c.page * 4096 + c.off + c.len) := by omega
  by_cases h : c.page * 4096 + c.off ≤ a ∧ a < c.page * 4096 + c.off + c.len
  · rw [if_pos h, if_pos (hiff.mpr h), show a % 4096 - c.off = a - (c.page * 4096 + c.off) by omega]
  · rw [if_neg h, if_neg (fun hx => h (hiff.mp hx))]

theorem PageMem.write_byte_outside {m : PageMem} {c : Chunk} (hc : c.InPage)
    (f : Nat → Option UInt8) {a : Nat} (ha : a < c.start ∨ c.start + c.len ≤ a) :
    (m.write c f).byte a = m.byte a := by
  rw [m.write_byte hc, if_neg (by omega)]

theorem PageMem.storeWord_byte {m : PageMem} {off n a : Nat} (hoff : off + 4 ≤ pageSize)
    (ha : a < off ∨ off + 4 ≤ a) : (m.storeWord off n).byte a = m.byte a :=
  PageMem.write_byte_outside (show Chunk.InPage ⟨0, off, 4⟩ from hoff) _
    (by simpa [Chunk.start] using ha)

theorem PageMem.read_storeWord {m : PageMem} {off n : Nat} (hoff : off + 4 ≤ pageSize)
    (hn : n < 4294967296) : read (m.storeWord off n).byte off 4 = n := by
  have hread : read (m.storeWord off n).byte off 4 = n % 256 ^ 4 := by
    apply read_of_bytes
    intro i hi
    unfold PageMem.storeWord
    rw [PageMem.write_byte (show Chunk.InPage ⟨0, off, 4⟩ from hoff),
      if_pos (by simp only [Chunk.start, Nat.zero_mul, Nat.zero_add]; omega)]
    have hi' : i < (bytes 4 n).length := by simpa using hi
    simp [Chunk.start, List.getElem?_eq_getElem hi']
  rw [hread]
  omega

/-- The other words are not disturbed. -/
theorem PageMem.read_storeWord_of_ne {m : PageMem} {off n k w : Nat} (hoff : off + 4 ≤ pageSize)
    (hk : k + w ≤ off ∨ off + 4 ≤ k) : read (m.storeWord off n).byte k w = read m.byte k w :=
  read_congr fun i hi => m.storeWord_byte hoff (by omega)

/-! ## The loop -/

section Loop
variable {buf : GuestBuf} {left page off len : Nat} {src : Int} {m : PageMem}

/-- One round of the page loop. -/
theorem copyLoop_succ : copyLoop buf (left + 1) page off src len m =
    if pageSize < (off + len) % 4294967296 then
      match buf.fault src (pageSize - off) with
      | some w => ⟨-efault, m.write ⟨page, off, pageSize - off⟩ w,
          [⟨page, off, pageSize - off⟩], [page]⟩
      | none =>
        let o := copyLoop buf left (page + 1) 0 (src + (pageSize - off : Nat))
          (len - (pageSize - off))
          (m.write ⟨page, off, pageSize - off⟩ fun i => some (buf.byte (src + i)))
        ⟨o.ret, o.mem, ⟨page, off, pageSize - off⟩ :: o.chunks, page :: o.maps⟩
    else
      match buf.fault src len with
      | some w => ⟨-efault, m.write ⟨page, off, len⟩ w, [⟨page, off, len⟩], [page]⟩
      | none => ⟨0, m.write ⟨page, off, len⟩ fun i => some (buf.byte (src + i)),
          [⟨page, off, len⟩], [page]⟩ := rfl

theorem copyLoop_ret : (copyLoop buf left page off src len m).ret = 0 ∨
    (copyLoop buf left page off src len m).ret = -efault := by
  induction left generalizing page off src len m with
  | zero => exact Or.inr rfl
  | succ left ih =>
    rw [copyLoop_succ]
    split
    · split
      · exact Or.inr rfl
      · exact ih
    · split
      · exact Or.inr rfl
      · exact Or.inl rfl

/-- The loop changes nothing before `offset` nor from `offset + len` on, however
it ends. -/
theorem copyLoop_frame (hoff : off < pageSize) (hlen : off + len < 4294967296) {a : Nat}
    (ha : a < page * pageSize + off ∨ page * pageSize + off + len ≤ a) :
    (copyLoop buf left page off src len m).mem.byte a = m.byte a := by
  induction left generalizing page off src len m with
  | zero => rfl
  | succ left ih =>
    rw [copyLoop_succ]
    rw [Nat.mod_eq_of_lt hlen]
    split
    · rename_i hloop
      have hin : Chunk.InPage ⟨page, off, pageSize - off⟩ := by
        show off + (pageSize - off) ≤ pageSize
        omega
      have hout : a < Chunk.start ⟨page, off, pageSize - off⟩ ∨
          Chunk.start ⟨page, off, pageSize - off⟩ + (pageSize - off) ≤ a := by
        show a < page * pageSize + off ∨ page * pageSize + off + (pageSize - off) ≤ a
        omega
      split
      · exact PageMem.write_byte_outside hin _ hout
      · have hnext : (page + 1) * pageSize = page * pageSize + pageSize := Nat.succ_mul _ _
        exact (ih pageSize_pos (by omega) (by omega)).trans
          (PageMem.write_byte_outside hin _ hout)
    · rename_i hlast
      have hin : Chunk.InPage ⟨page, off, len⟩ := by
        show off + len ≤ pageSize
        omega
      split
      · exact PageMem.write_byte_outside hin _ ha
      · exact m.write_byte_outside hin (fun i => some (buf.byte (src + i))) ha

/-- When the loop returns 0, the bytes of the buffer stand at `offset`. -/
theorem copyLoop_source (hoff : off < pageSize) (hlen : off + len < 4294967296)
    (hret : (copyLoop buf left page off src len m).ret = 0) {i : Nat} (hi : i < len) :
    (copyLoop buf left page off src len m).mem.byte (page * pageSize + off + i) =
      buf.byte (src + i) := by
  induction left generalizing page off src len m i with
  | zero => exact absurd hret (by simp [copyLoop, efault])
  | succ left ih =>
    rw [copyLoop_succ] at hret ⊢
    rw [Nat.mod_eq_of_lt hlen] at hret ⊢
    by_cases hloop : pageSize < off + len
    · rw [if_pos hloop] at hret ⊢
      have hin : Chunk.InPage ⟨page, off, pageSize - off⟩ := by
        show off + (pageSize - off) ≤ pageSize
        omega
      cases hf : buf.fault src (pageSize - off) with
      | some w => simp [hf, efault] at hret
      | none =>
        simp only [hf] at hret ⊢
        have hnext : (page + 1) * pageSize = page * pageSize + pageSize := Nat.succ_mul _ _
        by_cases hfirst : i < pageSize - off
        · -- written by this chunk, and left alone by the rest of the loop
          rw [copyLoop_frame pageSize_pos (by omega) (by omega), PageMem.write_byte hin, if_pos]
          · simp [Chunk.start]
          · simp only [Chunk.start]; omega
        · have hrest := ih (i := i - (pageSize - off)) pageSize_pos (by omega) hret
            (by omega)
          rw [show page * pageSize + off + i =
            (page + 1) * pageSize + 0 + (i - (pageSize - off)) by omega, hrest]
          congr 1
          omega
    · rw [if_neg hloop] at hret ⊢
      have hin : Chunk.InPage ⟨page, off, len⟩ := by
        show off + len ≤ pageSize
        omega
      cases hf : buf.fault src len with
      | some w => simp [hf, efault] at hret
      | none =>
        rw [PageMem.write_byte hin, if_pos (by simp only [Chunk.start]; omega)]
        simp [Chunk.start]

/-- Every chunk lies in one of the remaining pages, and between `offset` and
`offset + len`. -/
theorem copyLoop_chunks (hoff : off < pageSize) (hlen : off + len < 4294967296) {c : Chunk}
    (hc : c ∈ (copyLoop buf left page off src len m).chunks) :
    c.InPage ∧ c.page < page + left ∧ page * pageSize + off ≤ c.start ∧
      c.start + c.len ≤ page * pageSize + off + len := by
  induction left generalizing page off src len m with
  | zero => simp [copyLoop] at hc
  | succ left ih =>
    rw [copyLoop_succ] at hc
    rw [Nat.mod_eq_of_lt hlen] at hc
    by_cases hloop : pageSize < off + len
    · have hfirst : Chunk.InPage ⟨page, off, pageSize - off⟩ ∧ page < page + (left + 1) ∧
          page * pageSize + off ≤ Chunk.start ⟨page, off, pageSize - off⟩ ∧
          Chunk.start ⟨page, off, pageSize - off⟩ + (pageSize - off) ≤
            page * pageSize + off + len := by
        simp only [Chunk.InPage, Chunk.start]; omega
      rw [if_pos hloop] at hc
      split at hc
      · rw [List.mem_singleton.mp hc]; exact hfirst
      · rcases List.mem_cons.mp hc with rfl | hc
        · exact hfirst
        · have hnext : (page + 1) * pageSize = page * pageSize + pageSize := Nat.succ_mul _ _
          obtain ⟨h1, h2, h3, h4⟩ := ih pageSize_pos (by omega) hc
          exact ⟨h1, by omega, by omega, by omega⟩
    · rw [if_neg hloop] at hc
      have hlast : c = ⟨page, off, len⟩ := by
        split at hc <;> exact List.mem_singleton.mp hc
      subst hlast
      simp only [Chunk.InPage, Chunk.start]; omega

/-- If the remaining pages cover the copy, no page behind them is asked for. -/
theorem copyLoop_maps (hleft : 0 < left) (hoff : off < pageSize) (hlen : off + len < 4294967296)
    (hcover : off + len ≤ left * pageSize) {p : Nat}
    (hp : p ∈ (copyLoop buf left page off src len m).maps) : p < page + left := by
  induction left generalizing page off src len m with
  | zero => omega
  | succ left ih =>
    rw [copyLoop_succ] at hp
    rw [Nat.mod_eq_of_lt hlen] at hp
    by_cases hloop : pageSize < off + len
    · rw [if_pos hloop] at hp
      split at hp
      · rw [List.mem_singleton.mp hp]; omega
      · rcases List.mem_cons.mp hp with rfl | hp
        · omega
        · have hsucc : (left + 1) * pageSize = left * pageSize + pageSize := Nat.succ_mul _ _
          have hpos : 0 < left := by
            rcases Nat.eq_zero_or_pos left with rfl | h
            · omega
            · exact h
          have := ih hpos pageSize_pos (by omega) (by omega) hp
          omega
    · rw [if_neg hloop] at hp
      have hlast : p = page := by
        split at hp <;> exact List.mem_singleton.mp hp
      omega

/-- If the remaining pages cover the copy and the buffer can be read, the loop
returns 0. -/
theorem copyLoop_ok (hbuf : buf.Readable) (hleft : 0 < left) (hoff : off < pageSize)
    (hlen : off + len < 4294967296) (hcover : off + len ≤ left * pageSize) :
    (copyLoop buf left page off src len m).ret = 0 := by
  induction left generalizing page off src len m with
  | zero => omega
  | succ left ih =>
    rw [copyLoop_succ]
    rw [Nat.mod_eq_of_lt hlen, hbuf, hbuf]
    have hsucc : (left + 1) * pageSize = left * pageSize + pageSize := Nat.succ_mul _ _
    by_cases hloop : pageSize < off + len
    · rw [if_pos hloop]
      have hpos : 0 < left := by
        rcases Nat.eq_zero_or_pos left with rfl | h
        · omega
        · exact h
      exact ih hpos pageSize_pos (by omega) (by omega)
    · rw [if_neg hloop]

/-- A copy that returned 0 found a page for each of its bytes. -/
theorem copyLoop_fits (hoff : off < pageSize) (hlen : off + len < 4294967296)
    (hret : (copyLoop buf left page off src len m).ret = 0) :
    off + len ≤ left * pageSize := by
  induction left generalizing page off src len m with
  | zero => exact absurd hret (by simp [copyLoop, efault])
  | succ left ih =>
    rw [copyLoop_succ] at hret
    rw [Nat.mod_eq_of_lt hlen] at hret
    have hsucc : (left + 1) * pageSize = left * pageSize + pageSize := Nat.succ_mul _ _
    by_cases hloop : pageSize < off + len
    · rw [if_pos hloop] at hret
      split at hret
      · exact absurd hret (by simp [efault])
      · have := ih pageSize_pos (by omega) hret
        omega
    · omega

/-- A copy that succeeds, or whose buffer can be read, reaches every byte up to the
end of the pages. -/
theorem copyLoop_covers (hoff : off < pageSize) (hlen : off + len < 4294967296)
    (hok : (copyLoop buf left page off src len m).ret = 0 ∨ buf.Readable) {a : Nat}
    (ha : page * pageSize + off ≤ a) (ha' : a < page * pageSize + off + len)
    (hpages : a < (page + left) * pageSize) :
    ∃ c ∈ (copyLoop buf left page off src len m).chunks, c.start ≤ a ∧ a < c.start + c.len := by
  induction left generalizing page off src len m with
  | zero => rw [Nat.add_zero] at hpages; omega
  | succ left ih =>
    rw [copyLoop_succ] at hok ⊢
    rw [Nat.mod_eq_of_lt hlen] at hok ⊢
    have hsucc : (page + 1) * pageSize = page * pageSize + pageSize := Nat.succ_mul _ _
    by_cases hloop : pageSize < off + len
    · rw [if_pos hloop] at hok ⊢
      by_cases hfirst : a < page * pageSize + pageSize
      · refine ⟨⟨page, off, pageSize - off⟩, ?_, ?_⟩
        · split <;> exact List.mem_cons_self
        · simp only [Chunk.start]; omega
      · cases hf : buf.fault src (pageSize - off) with
        | some w => simp [hf, efault, GuestBuf.Readable] at hok; simp [hok] at hf
        | none =>
          simp only [hf] at hok ⊢
          obtain ⟨c, hc, h⟩ := ih pageSize_pos (by omega) hok (by omega) (by omega)
            (by rw [show page + 1 + left = page + (left + 1) by omega]; exact hpages)
          exact ⟨c, List.mem_cons_of_mem _ hc, h⟩
    · rw [if_neg hloop]
      refine ⟨⟨page, off, len⟩, ?_, ?_⟩
      · split <;> exact List.mem_cons_self
      · simp only [Chunk.start]; omega

/-- When `offset + len` wraps, the loop is skipped: one chunk takes the whole
length, far more than its page holds. -/
theorem copyLoop_wrapped (hoff : off < pageSize) (hlen : len < 4294967296)
    (hwrap : 4294967296 ≤ off + len) (hleft : 0 < left) :
    (copyLoop buf left page off src len m).chunks = [⟨page, off, len⟩] ∧
      ¬ Chunk.InPage ⟨page, off, len⟩ := by
  obtain ⟨left, rfl⟩ := Nat.exists_eq_add_one_of_ne_zero (Nat.pos_iff_ne_zero.mp hleft)
  have hoff' : off < 4096 := hoff
  have hmod : (off + len) % 4294967296 = off + len - 4294967296 := by omega
  rw [copyLoop_succ]
  rw [hmod, if_neg (by omega)]
  constructor
  · split <;> rfl
  · simp only [Chunk.InPage, pageSize] at *; omega

end Loop

end V4v
