import LegacyV4v.RingInsertCases

/-! # Taking a message out of a ring

`v4v_ring_bytes_to_read` and `v4v_copy_out`, the receiver's half of the ring
format.  The receiver works on the shared pages alone: it trusts the `len` and
`tx_ptr` it finds there and moves `rx_ptr`. -/
namespace V4v
open MachineWord CyclicBuffer

/-- What `v4v_copy_out` returns: its result, `*from` and `*protocol`, the bytes put
into the buffer, and the pages afterwards. -/
structure ReadOut where
  ret : Int
  source : Addr
  protocol : UInt32
  buf : List UInt8
  mem : PageMem

/-- `n` bytes of the data area from position `p` on, without going round. -/
def PageMem.data (m : PageMem) (p n : Nat) : List UInt8 :=
  (List.range n).map fun i => m.byte (sizeofRing + p + i)

/-- `v4v_ring_bytes_to_read`. -/
def ringBytesToRead (m : PageMem) : Nat :=
  let ret := i32 (read m.byte offsetofTxPtr 4 - read m.byte offsetofRxPtr 4)
  if 0 ≤ ret then u32 ret else u32 (read m.byte offsetofLen 4 + ret)

/-- The payload copies of `v4v_copy_out`: what goes into a buffer of `t` bytes, and
`rxp` and `len` at the end of them.  `bte` is the room up to the ring end. -/
def copyOutPayload (m : PageMem) (rxp len bte t : Nat) : List UInt8 × Nat × Nat :=
  if bte < len then
    if t < bte then (m.data rxp t, 0, len - bte)
    else (m.data rxp bte ++ m.data 0 (min (t - bte) (len - bte)), 0, len - bte)
  else (m.data rxp (min t len), rxp, len)

/-- `v4v_copy_out` into a buffer of `t` bytes.  Where the source passes `NULL` for the buffer, nobody looks
at what is put into it. -/
def copyOut (m : PageMem) (t : Nat) (consume : Bool) : ReadOut :=
  let len := read m.byte offsetofLen 4
  let rx := read m.byte offsetofRxPtr 4
  let btr := ringBytesToRead m
  if btr < sizeofMessageHeader then ⟨-1, ⟨0, 0⟩, 0, [], m⟩
  else
    let mh := readHeader m.byte (sizeofRing + rx)
    if btr < mh.len.toNat then ⟨-1, ⟨0, 0⟩, 0, [], m⟩
    else
      let rxp := u32 (rx + sizeofMessageHeader)
      let rxp := if rxp = len then 0 else rxp
      let n := u32 (mh.len.toNat - sizeofMessageHeader)
      let piece := copyOutPayload m rxp n (u32 (len - rxp)) t
      let rxp := u32 (piece.2.1 + (roundup (UInt32.ofNat piece.2.2)).toNat)
      let rxp := if rxp = len then 0 else rxp
      ⟨n, mh.source, mh.protocol, piece.1, if consume then m.storeWord offsetofRxPtr rxp else m⟩

/-! ## A message at the head of the ring

The receiver's view of a well-formed ring: `l` is the ring length, `p` a position of
the data area. -/

section Head
variable {m : PageMem} {l p n t : Nat}

/-- Equal pointers, nothing to read: `v4v_copy_out` returns -1 and changes nothing. -/
theorem copyOut_empty (h : read m.byte offsetofTxPtr 4 = read m.byte offsetofRxPtr 4)
    (consume : Bool) : copyOut m t consume = ⟨-1, ⟨0, 0⟩, 0, [], m⟩ := by
  have hb : ringBytesToRead m = 0 := by
    unfold ringBytesToRead
    rw [h, Int.sub_self]
    rfl
  unfold copyOut
  rw [hb]
  rfl

/-- What `v4v_copy_out` puts into the buffer is the start of the payload, followed
round the ring end. -/
theorem copyOutPayload_buf (hp : p < l) (hn : n ≤ l) :
    (copyOutPayload m p n (l - p) t).1 =
      (List.range (min t n)).map fun i => m.byte (sizeofRing + advance l p i) := by
  -- the bytes up to the ring end, and those from its start
  have hstraight : ∀ k, k ≤ l - p → m.data p k =
      (List.range k).map fun i => m.byte (sizeofRing + advance l p i) := by
    intro k hk
    refine List.map_congr_left fun i hi => ?_
    have := List.mem_range.mp hi
    rw [advance_of_lt (by omega), Nat.add_assoc]
  have hround : ∀ k, k ≤ p → m.data 0 k =
      (List.range k).map fun i => m.byte (sizeofRing + advance l p (l - p + i)) := by
    intro k hk
    refine List.map_congr_left fun i hi => ?_
    rw [advance_of_le (by omega), show p + (l - p + i) - l = i by omega, Nat.add_zero]
  unfold copyOutPayload
  split
  · split
    · rw [hstraight t (by omega), Nat.min_eq_left (by omega)]
    · rw [hstraight (l - p) (Nat.le_refl _), hround _ (by omega),
        show min t n = (l - p) + min (t - (l - p)) (n - (l - p)) by omega, List.range_add,
        List.map_append, List.map_map]
      rfl
  · rw [hstraight _ (by omega)]

theorem copyOutPayload_piece : (copyOutPayload m p n (l - p) t).2 =
    if l - p < n then (0, n - (l - p)) else (p, n) := by
  unfold copyOutPayload
  split
  · split <;> rfl
  · rfl

variable (hlen : read m.byte offsetofLen 4 = l) (hmod : l % 16 = 0)
  (hlt : l ≤ 2147483648) (hrx : read m.byte offsetofRxPtr 4 = p) (hp : p < l) (hp' : p % 16 = 0)
include hlen hlt hrx hp

omit hlt hp in
/-- The unread bytes, when both pointers are valid. -/
theorem ringBytesToRead_eq (hlt : l ≤ 2147483648) (hp : p < l) {q : Nat}
    (htx : read m.byte offsetofTxPtr 4 = q) (hq : q < l) :
    ringBytesToRead m = distance l p q := by
  unfold ringBytesToRead distance
  rw [hlen, hrx, htx]
  unfold i32 u32
  dsimp only
  split <;> split <;> omega

include hmod hp'
/-- A message of `n` payload bytes stands at `rx_ptr`: `v4v_copy_out` returns it and
moves `rx_ptr` behind its padding. -/
theorem copyOut_head {q : Nat} (htx : read m.byte offsetofTxPtr 4 = q) (hq : q < l)
    {mh : MessageHeader} (hhead : readHeader m.byte (sizeofRing + p) = mh)
    (hn : mh.len.toNat = sizeofMessageHeader + n)
    (hunread : sizeofMessageHeader + n ≤ distance l p q) (consume : Bool) :
    copyOut m t consume = ⟨n, mh.source, mh.protocol,
      (List.range (min t n)).map fun i =>
        m.byte (sizeofRing + advance l p (sizeofMessageHeader + i)),
      if consume then
        m.storeWord offsetofRxPtr (advance l p (sizeofMessageHeader + (n + 15) / 16 * 16))
      else m⟩ := by
  have hdist := distance_lt hp hq
  have hround : sizeofMessageHeader + (n + 15) / 16 * 16 ≤ l := by
    rw [sizeofMessageHeader] at hunread ⊢
    omega
  have hb := ringBytesToRead_eq hlen hrx hlt hp htx hq
  have hafter : (if u32 ((p : Int) + (sizeofMessageHeader : Nat)) = l then 0
      else u32 ((p : Int) + (sizeofMessageHeader : Nat))) = advance l p sizeofMessageHeader := by
    have hfit : p + sizeofMessageHeader ≤ l := by
      rw [sizeofMessageHeader]
      omega
    rw [u32_add (by omega)]
    exact reset_eq_advance hfit
  have hafter_lt := advance_lt (n := l) (p := p) (i := sizeofMessageHeader) hp (by omega)
  have hafter_mod : advance l p sizeofMessageHeader % 16 = 0 :=
    Nat.mod_eq_zero_of_dvd (advance_dvd (Nat.dvd_of_mod_eq_zero hmod)
      (Nat.dvd_of_mod_eq_zero hp') (by decide))
  have hn' : u32 ((mh.len.toNat : Int) - (sizeofMessageHeader : Nat)) = n := by
    unfold u32; omega
  have hbte : u32 ((l : Int) - (advance l p sizeofMessageHeader : Nat)) =
      l - advance l p sizeofMessageHeader := by
    unfold u32; omega
  have hmove := wrap_roundup hmod (by omega) hafter_mod hafter_lt (by omega)
    (copyOutPayload_piece (m := m) (p := advance l p sizeofMessageHeader) (n := n) (t := t))
  unfold copyOut
  rw [hb, hlen, hrx]
  dsimp only
  rw [hhead, if_neg (by omega), if_neg (by omega), hafter, hn', hbte, hmove,
    copyOutPayload_buf hafter_lt (by omega), advance_advance hp (by omega)]
  congr 1
  refine List.map_congr_left fun i hi => ?_
  have := List.mem_range.mp hi
  rw [advance_advance hp (by omega)]

/-- The same for a header that is given by its bytes. -/
theorem copyOut_message {q : Nat} (htx : read m.byte offsetofTxPtr 4 = q) (hq : q < l)
    {mh : MessageHeader} (hmh : ∀ i, i < sizeofMessageHeader →
      m.byte (sizeofRing + advance l p i) = mh.bytes.getD i 0)
    (hn : mh.len.toNat = sizeofMessageHeader + n)
    (hunread : sizeofMessageHeader + (n + 15) / 16 * 16 ≤ distance l p q) (consume : Bool) :
    copyOut m t consume = ⟨n, mh.source, mh.protocol,
      (List.range (min t n)).map fun i =>
        m.byte (sizeofRing + advance l p (sizeofMessageHeader + i)),
      if consume then
        m.storeWord offsetofRxPtr (advance l p (sizeofMessageHeader + (n + 15) / 16 * 16))
      else m⟩ := by
  have hhead : readHeader m.byte (sizeofRing + p) = mh := by
    apply readHeader_of_bytes
    intro i hi
    rw [← hmh i hi]
    rw [sizeofMessageHeader] at hi
    rw [advance_of_lt (by omega), Nat.add_assoc]
  exact copyOut_head hlen hmod hlt hrx hp hp' htx hq hhead hn (by omega) consume

end Head

end V4v
