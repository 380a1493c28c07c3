import Mathlib.Algebra.BigOperators.Group.Finset.Basic
import Mathlib.Data.Fintype.BigOperators

/-! # Counting the members of a finite family

`tally p f` is the number of members of `f` of which `p` holds.  When one member is replaced, the
tally changes by what `p` says of the old and of the new one. -/
namespace Tally
variable {ι α : Type*} [Fintype ι]

/-- How many members of `f` satisfy `p`. -/
def tally (p : α → Bool) (f : ι → α) : ℕ := (Finset.univ.filter fun i => p (f i) = true).card

variable {p q : α → Bool} {f g : ι → α} {i : ι}

theorem tally_eq_sum (p : α → Bool) (f : ι → α) : tally p f = ∑ i, (p (f i)).toNat := by
  unfold tally
  rw [Finset.card_filter]
  apply Finset.sum_congr rfl
  intro i _
  cases p (f i) <;> rfl

/-- **One member is replaced.** -/
theorem tally_update [DecidableEq ι] (p : α → Bool) (f : ι → α) (i : ι) (a : α) :
    tally p (Function.update f i a) + (p (f i)).toNat = tally p f + (p a).toNat := by
  have hsame : ∑ j ∈ Finset.univ.erase i, (p (Function.update f i a j)).toNat =
      ∑ j ∈ Finset.univ.erase i, (p (f j)).toNat := by
    apply Finset.sum_congr rfl
    intro j hj
    rw [Function.update_of_ne (Finset.ne_of_mem_erase hj)]
  rw [tally_eq_sum, tally_eq_sum, ← Finset.add_sum_erase _ _ (Finset.mem_univ i),
    ← Finset.add_sum_erase _ (fun j => (p (f j)).toNat) (Finset.mem_univ i), hsame,
    Function.update_self]
  omega

theorem tally_eq_zero : tally p f = 0 ↔ ∀ i, p (f i) = false := by
  unfold tally
  rw [Finset.card_eq_zero, Finset.filter_eq_empty_iff]
  constructor
  · intro h i
    exact Bool.eq_false_iff.mpr (h (Finset.mem_univ i))
  · intro h i _
    rw [h i]
    exact Bool.false_ne_true

theorem tally_pos (h : p (f i) = true) : 0 < tally p f :=
  Finset.card_pos.mpr ⟨i, Finset.mem_filter.mpr ⟨Finset.mem_univ i, h⟩⟩

theorem tally_eq_card (h : ∀ i, p (f i) = true) : tally p f = Fintype.card ι := by
  unfold tally
  rw [Finset.filter_true_of_mem fun i _ => h i]
  rfl

end Tally
