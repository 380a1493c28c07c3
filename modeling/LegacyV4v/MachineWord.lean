import Mathlib.Algebra.Ring.Nat
import Mathlib.Tactic.Common

/-! # Fixed-width integers, and their bytes in memory

C mixes `uint32_t`, `int32_t` and `size_t` in one expression and converts
silently between them.  The conversions are written out here as functions on
`Int`, so that a translated expression shows each place where it wraps and
`omega` can follow it: a conversion is a remainder by a literal.

The second half is the little-endian byte form of such a word, which is how it
stands in a shared page. -/
namespace MachineWord

/-- Conversion to `uint32_t`. -/
def u32 (z : Int) : Nat := (z % 4294967296).toNat

/-- Conversion to `int32_t`: the representative in `[-2^31, 2^31)`. -/
def i32 (z : Int) : Int := (z + 2147483648) % 4294967296 - 2147483648

/-- Conversion to a 64-bit `size_t`. -/
def sizeT (z : Int) : Nat := (z % 18446744073709551616).toNat

theorem u32_lt (z : Int) : u32 z < 4294967296 := by
  unfold u32; omega

theorem u32_add {a b : Nat} (h : a + b < 4294967296) : u32 ((a : Int) + b) = a + b := by
  rw [u32]
  omega

@[simp] theorem i32_of_lt {n : Nat} (h : n < 2147483648) : i32 n = n := by
  unfold i32; omega

theorem toNat_ofNat_of_lt {n : Nat} (h : n < 4294967296) : (UInt32.ofNat n).toNat = n :=
  UInt32.toNat_ofNat_of_lt' h

/-- Masking the last four bits off is shifting them out and back. -/
theorem and_not_fifteen (b : BitVec 32) : b &&& ~~~(15#32) = (b >>> 4) <<< 4 := by
  apply BitVec.eq_of_getLsbD_eq
  intro i hi
  have hmask : ∀ j : Fin 32, (~~~(15#32)).getLsbD j.val = decide (4 ≤ j.val) := by decide
  simp only [BitVec.getLsbD_and, BitVec.getLsbD_shiftLeft, BitVec.getLsbD_ushiftRight]
  rw [hmask ⟨i, hi⟩]
  by_cases h4 : i < 4
  · simp [h4]
  · simp [h4, hi, show 4 + (i - 4) = i by omega, show 4 ≤ i by omega]

/-! ## Bytes -/

/-- The `w` low bytes of `n`, least significant first. -/
def bytes : Nat → Nat → List UInt8
  | 0, _ => []
  | w + 1, n => UInt8.ofNat n :: bytes w (n / 256)

/-- The number a byte string denotes, least significant byte first. -/
def value : List UInt8 → Nat
  | [] => 0
  | b :: bs => b.toNat + 256 * value bs

@[simp] theorem bytes_length (w n : Nat) : (bytes w n).length = w := by
  induction w generalizing n with
  | zero => rfl
  | succ w ih => simp [bytes, ih]

theorem value_bytes (w n : Nat) : value (bytes w n) = n % 256 ^ w := by
  induction w generalizing n with
  | zero => simp [bytes, value, Nat.mod_one]
  | succ w ih =>
    have hb : (UInt8.ofNat n).toNat = n % 256 := by simp
    rw [bytes, value, ih, hb, Nat.pow_succ 256 w, Nat.mul_comm (256 ^ w), Nat.mod_mul]

/-- The `w`-byte word at address `a` of a memory. -/
def read (m : Nat → UInt8) (a w : Nat) : Nat :=
  value ((List.range w).map fun i => m (a + i))

/-- A read depends on the bytes it covers. -/
theorem value_lt (bs : List UInt8) : value bs < 256 ^ bs.length := by
  induction bs with
  | nil => decide
  | cons b bs ih =>
    have hb := b.toNat_lt
    rw [value, List.length_cons, Nat.pow_succ]
    omega

theorem read_lt (m : Nat → UInt8) (a w : Nat) : read m a w < 256 ^ w := by
  have h := value_lt ((List.range w).map fun i => m (a + i))
  rwa [List.length_map, List.length_range] at h

theorem read_congr {m m' : Nat → UInt8} {a w : Nat}
    (h : ∀ i, i < w → m (a + i) = m' (a + i)) : read m a w = read m' a w := by
  unfold read
  congr 1
  exact List.map_congr_left fun i hi => h i (List.mem_range.mp hi)

/-- Reading back a word whose bytes stand at `a`. -/
theorem read_of_bytes {m : Nat → UInt8} {a w n : Nat}
    (h : ∀ i, i < w → m (a + i) = (bytes w n).getD i 0) : read m a w = n % 256 ^ w := by
  rw [← value_bytes, read]
  congr 1
  apply List.ext_getElem
  · simp
  · intro i hi hi'
    have hw : i < w := by simpa using hi
    rw [List.getElem_map, List.getElem_range, h i hw]
    rw [List.getD_eq_getElem?_getD, List.getElem?_eq_getElem hi', Option.getD_some]

/-- Reading back one word of a structure whose bytes stand at `a`: `xs` are the
bytes of the fields before it. -/
theorem read_field {m : Nat → UInt8} {a w n : Nat} {l ys : List UInt8} (xs : List UInt8)
    (h : ∀ i, i < l.length → m (a + i) = l.getD i 0) (hl : l = xs ++ (bytes w n ++ ys)) :
    read m (a + xs.length) w = n % 256 ^ w := by
  apply read_of_bytes
  intro i hi
  subst hl
  rw [Nat.add_assoc, h (xs.length + i) (by simp; omega)]
  rw [List.getD_eq_getElem?_getD, List.getElem?_append_right (by omega), Nat.add_sub_cancel_left,
    List.getElem?_append_left (by simpa using hi), List.getD_eq_getElem?_getD]

end MachineWord
