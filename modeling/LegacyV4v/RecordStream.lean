import Mathlib.Tactic.Common

/-! # Streams of padded records

A byte stream carries a list of records one after the other.  Each record fixes
its first bytes and occupies a fixed number of them; what stands between the
last fixed byte and the next record is padding, which nothing is known about. -/
namespace RecordStream

/-- A record: the bytes it fixes, and the room it takes up. -/
structure Record where
  bytes : List UInt8
  size : Nat
  fits : bytes.length ≤ size

/-- The room a list of records takes up. -/
def total : List Record → Nat
  | [] => 0
  | x :: xs => x.size + total xs

/-- The stream `b` starts with the records of the list, in order. -/
def Carries (b : Nat → UInt8) : List Record → Prop
  | [] => True
  | x :: xs => (∀ i, i < x.bytes.length → b i = x.bytes.getD i 0) ∧
      Carries (fun i => b (x.size + i)) xs

@[simp] theorem total_nil : total [] = 0 := rfl

@[simp] theorem total_cons (x : Record) (xs : List Record) :
    total (x :: xs) = x.size + total xs := rfl

theorem total_append (xs ys : List Record) : total (xs ++ ys) = total xs + total ys := by
  induction xs with
  | nil => simp
  | cons x xs ih => simp [ih]; omega

/-- Only the bytes inside the records' room matter. -/
theorem Carries.congr {b b' : Nat → UInt8} {xs : List Record} (h : Carries b xs)
    (hb : ∀ i, i < total xs → b' i = b i) : Carries b' xs := by
  induction xs generalizing b b' with
  | nil => trivial
  | cons x xs ih =>
    obtain ⟨hx, hxs⟩ := h
    have hfit := x.fits
    refine ⟨fun i hi => ?_, ih hxs fun i hi => ?_⟩
    · rw [hb i (by rw [total_cons]; omega), hx i hi]
    · exact hb _ (by rw [total_cons]; omega)

/-- A list of records is carried iff its first part is, and its second part is
carried from where the first one ends. -/
theorem carries_append {b : Nat → UInt8} {xs ys : List Record} :
    Carries b (xs ++ ys) ↔ Carries b xs ∧ Carries (fun i => b (total xs + i)) ys := by
  induction xs generalizing b with
  | nil => simp [Carries]
  | cons x xs ih =>
    rw [List.cons_append]
    simp only [Carries, ih, total_cons, Nat.add_assoc, and_assoc]

end RecordStream
