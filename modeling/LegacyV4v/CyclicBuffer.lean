import Mathlib.Tactic.Common

/-! # Positions in a cyclic buffer

A cyclic buffer of `n` cells is addressed by positions below `n`.  `advance`
moves forward by at most one lap and `distance` counts how far one position is
ahead of another; both are written with one comparison and one subtraction, so
that `omega` decides questions about them, and `advance_eq_mod` gives the
remainder form. -/
namespace CyclicBuffer

/-- The position `i` cells after `p`, for `i` at most one lap. -/
def advance (n p i : Nat) : Nat := if p + i < n then p + i else p + i - n

/-- How many cells after `p` the position `q` stands. -/
def distance (n p q : Nat) : Nat := if p ≤ q then q - p else q + n - p

/-- A move that does not reach the end, ... -/
theorem advance_of_lt {n p i : Nat} (h : p + i < n) : advance n p i = p + i := if_pos h

/-- ... and one that does. -/
theorem advance_of_le {n p i : Nat} (h : n ≤ p + i) : advance n p i = p + i - n :=
  if_neg (Nat.not_lt_of_le h)

/-- A position that goes back to 0 when it reaches the end. -/
theorem reset_eq_advance {n p i : Nat} (h : p + i ≤ n) :
    (if p + i = n then 0 else p + i) = advance n p i := by
  by_cases hend : p + i = n
  · rw [if_pos hend, advance_of_le (Nat.le_of_eq hend.symm), hend, Nat.sub_self]
  · rw [if_neg hend, advance_of_lt (Nat.lt_of_le_of_ne h hend)]

theorem advance_lt {n p i : Nat} (hp : p < n) (hi : i ≤ n) : advance n p i < n := by
  unfold advance; split <;> omega

@[simp] theorem advance_zero {n p : Nat} (hp : p < n) : advance n p 0 = p := by
  unfold advance; split <;> omega

theorem advance_eq_mod {n p i : Nat} (hp : p < n) (hi : i ≤ n) :
    advance n p i = (p + i) % n := by
  unfold advance
  split
  · rw [Nat.mod_eq_of_lt ‹_›]
  · rw [Nat.mod_eq_sub_mod (by omega), Nat.mod_eq_of_lt (by omega)]

/-- Two moves of together at most one lap are one move. -/
theorem advance_advance {n p i j : Nat} (hp : p < n) (hij : i + j ≤ n) :
    advance n (advance n p i) j = advance n p (i + j) := by
  unfold advance; split <;> split <;> split <;> omega

theorem advance_injective {n p i j : Nat} (hi : i < n) (hj : j < n)
    (h : advance n p i = advance n p j) : i = j := by
  unfold advance at h; split at h <;> split at h <;> omega

theorem distance_lt {n p q : Nat} (hp : p < n) (hq : q < n) : distance n p q < n := by
  unfold distance; split <;> omega

/-- `distance` is the move that leads from `p` to `q`. -/
theorem advance_distance {n p q : Nat} (hp : p < n) (hq : q < n) :
    advance n p (distance n p q) = q := by
  unfold advance distance; split <;> split <;> omega

theorem distance_advance {n p i : Nat} (hp : p < n) (hi : i < n) :
    distance n p (advance n p i) = i := by
  unfold advance distance; split <;> split <;> omega

/-- Moving the starting point forward brings it nearer, ... -/
theorem distance_advance_of_le {n p q i : Nat} (hp : p < n) (hq : q < n)
    (hi : i ≤ distance n p q) : distance n (advance n p i) q = distance n p q - i := by
  unfold advance distance at *
  split at hi <;> split <;> split <;> omega

/-- ... until it has moved past. -/
theorem distance_advance_of_lt {n p q i : Nat} (hp : p < n) (hq : q < n) (hn : i < n)
    (hi : distance n p q < i) : distance n (advance n p i) q = distance n p q + n - i := by
  unfold advance distance at *
  split at hi <;> split <;> split <;> omega

/-- Moves by multiples of `k` stay on multiples of `k`. -/
theorem advance_dvd {n p i k : Nat} (hn : k ∣ n) (hp : k ∣ p) (hi : k ∣ i) :
    k ∣ advance n p i := by
  unfold advance
  split
  · exact Nat.dvd_add hp hi
  · exact Nat.dvd_sub (Nat.dvd_add hp hi) hn

end CyclicBuffer
