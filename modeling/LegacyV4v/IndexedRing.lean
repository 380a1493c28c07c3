import Mathlib.Data.List.Basic
import Mathlib.Tactic.Common

/-! # A ring under a running index

A ring of `n` cells is addressed by indices that only grow: index `i` names the cell `i % n`.
`get` and `put` read and write cells from an index on, going round where they must.  In memory a
ring is an array, and a copy to or from it is made in two pieces; `peek` and `poke` are the copies
that do not go round. -/
namespace IndexedRing
variable {α : Type*} {n i j k : Nat} {m : Nat → α} {xs ys : List α}

/-- `k` cells from index `i` on. -/
def get (n : Nat) (m : Nat → α) (i k : Nat) : List α :=
  (List.range k).map fun j => m ((i + j) % n)

/-- The cells from index `i` on are written. -/
def put (n : Nat) (m : Nat → α) (i : Nat) (xs : List α) : Nat → α := fun p =>
  if p < n then (xs[(p + (n - i % n)) % n]?).getD (m p) else m p

/-- `k` places of an array from `a` on. -/
def peek (m : Nat → α) (a k : Nat) : List α := (List.range k).map fun j => m (a + j)

/-- The places of an array from `a` on are written. -/
def poke (m : Nat → α) (a : Nat) (xs : List α) : Nat → α := fun p =>
  if a ≤ p then (xs[p - a]?).getD (m p) else m p

/-! ## Reading -/

@[simp] theorem length_get : (get n m i k).length = k := by
  rw [get, List.length_map, List.length_range]

/-- What is read is decided by the first cell. -/
theorem get_congr (h : i % n = j % n) : get n m i k = get n m j k := by
  refine List.map_congr_left fun a _ => ?_
  rw [Nat.add_mod, h, ← Nat.add_mod]

theorem get_add : get n m i (j + k) = get n m i j ++ get n m (i + j) k := by
  rw [get, get, get, List.range_add, List.map_append, List.map_map]
  refine congrArg _ (List.map_congr_left fun a _ => ?_)
  dsimp only [Function.comp]
  rw [Nat.add_assoc]

theorem get_succ : get n m i (k + 1) = m (i % n) :: get n m (i + 1) k := by
  rw [Nat.add_comm, get_add]
  rfl

theorem take_get (h : j ≤ k) : (get n m i k).take j = get n m i j := by
  obtain ⟨d, rfl⟩ := Nat.exists_eq_add_of_le h
  rw [get_add, List.take_left' length_get]

theorem drop_get (h : j ≤ k) : (get n m i k).drop j = get n m (i + j) (k - j) := by
  obtain ⟨d, rfl⟩ := Nat.exists_eq_add_of_le h
  rw [get_add, List.drop_left' length_get, Nat.add_sub_cancel_left]

/-- A ring is read in two pieces. -/
theorem peek_append_peek (hi : i < n) (hk : k ≤ n) :
    peek m i (min k (n - i)) ++ peek m 0 (k - min k (n - i)) = get n m i k := by
  have hsplit : k = min k (n - i) + (k - min k (n - i)) := by omega
  conv_rhs => rw [hsplit]
  rw [get_add]
  refine congrArg₂ _ (List.map_congr_left fun a ha => ?_) (List.map_congr_left fun a ha => ?_)
  all_goals have hlt := List.mem_range.mp ha
  · rw [Nat.mod_eq_of_lt (by omega)]
  · have hround : i + min k (n - i) = n := by omega
    rw [hround, Nat.zero_add, Nat.add_mod_left, Nat.mod_eq_of_lt (by omega)]

/-! ## Writing -/

/-- How far a cell is from the first one, ... -/
theorem offset_of_index (hj : j < n) : ((i + j) % n + (n - i % n)) % n = j := by
  have hcell : i % n < n := Nat.mod_lt i (Nat.lt_of_le_of_lt (Nat.zero_le j) hj)
  have hdiv := Nat.div_add_mod i n
  have hround : i + j + (n - i % n) = j + n * (i / n + 1) := by
    rw [Nat.mul_add]
    omega
  rw [Nat.mod_add_mod, hround, Nat.add_mul_mod_self_left, Nat.mod_eq_of_lt hj]

/-- ... and the cell that is so far from it. -/
theorem index_of_offset (hp : k < n) : (i + (k + (n - i % n)) % n) % n = k := by
  have hcell : i % n < n := Nat.mod_lt i (Nat.lt_of_le_of_lt (Nat.zero_le k) hp)
  have hdiv := Nat.div_add_mod i n
  have hround : i + (k + (n - i % n)) = k + n * (i / n + 1) := by
    rw [Nat.mul_add]
    omega
  rw [Nat.add_mod_mod, hround, Nat.add_mul_mod_self_left, Nat.mod_eq_of_lt hp]

/-- A cell that is written, or one that is not. -/
theorem put_apply (hj : j < n) : put n m i xs ((i + j) % n) = (xs[j]?).getD (m ((i + j) % n)) := by
  rw [put, if_pos (Nat.mod_lt _ (Nat.lt_of_le_of_lt (Nat.zero_le j) hj)), offset_of_index hj]

@[simp] theorem put_nil : put n m i [] = m := by
  funext p
  rw [put, List.getElem?_nil]
  exact ite_self _

theorem put_congr (h : i % n = j % n) : put n m i xs = put n m j xs := by
  funext p
  rw [put, put, h]

/-- What has been written can be read, ... -/
theorem get_put (h : xs.length ≤ n) : get n (put n m i xs) i xs.length = xs := by
  refine List.ext_getElem length_get fun a ha _ => ?_
  rw [length_get] at ha
  simp only [get, List.getElem_map, List.getElem_range]
  rw [put_apply (Nat.lt_of_lt_of_le ha h), List.getElem?_eq_getElem ha]
  rfl

/-- ... and what is in front of it is as it was. -/
theorem get_put_of_le (h : k + xs.length ≤ n) :
    get n (put n m (i + k) xs) i k = get n m i k := by
  refine List.map_congr_left fun a ha => ?_
  have hlt := List.mem_range.mp ha
  have hround : (i + a) % n = (i + k + (n - k + a)) % n := by
    rw [show i + k + (n - k + a) = i + a + n by omega, Nat.add_mod_right]
  rw [hround, put_apply (by omega), List.getElem?_eq_none (by omega)]
  rfl

/-- What is read when there is more at the end. -/
theorem get_put_append (h : k + xs.length ≤ n) :
    get n (put n m (i + k) xs) i (k + xs.length) = get n m i k ++ xs := by
  rw [get_add, get_put_of_le h, get_put (by omega)]

/-- Two writes in a row are one. -/
theorem put_put (h : xs.length + ys.length ≤ n) :
    put n (put n m i xs) (i + xs.length) ys = put n m i (xs ++ ys) := by
  funext p
  by_cases hp : p < n
  · -- `p` is the cell of an index
    obtain ⟨a, ha, rfl⟩ : ∃ a < n, p = (i + a) % n :=
      ⟨_, Nat.mod_lt _ (Nat.lt_of_le_of_lt (Nat.zero_le p) hp), (index_of_offset hp).symm⟩
    rw [put_apply ha]
    by_cases hxs : a < xs.length
    · have hround : (i + a) % n = (i + xs.length + (n - xs.length + a)) % n := by
        rw [show i + xs.length + (n - xs.length + a) = i + a + n by omega, Nat.add_mod_right]
      rw [hround, put_apply (by omega), List.getElem?_eq_none (by omega), ← hround, put_apply ha,
        List.getElem?_append_left hxs]
      rfl
    · have hshift : (i + a) % n = (i + xs.length + (a - xs.length)) % n :=
        congrArg (· % n) (by omega)
      rw [hshift, put_apply (by omega), ← hshift, put_apply ha,
        List.getElem?_append_right (Nat.le_of_not_lt hxs), List.getElem?_eq_none (Nat.le_of_not_lt hxs)]
      rfl
  · rw [put, if_neg hp, put, if_neg hp, put, if_neg hp]

/-- A ring is written in two pieces. -/
theorem poke_poke (hi : i < n) (hx : xs.length ≤ n) :
    poke (poke m i (xs.take (min xs.length (n - i)))) 0 (xs.drop (min xs.length (n - i))) =
      put n m i xs := by
  funext p
  rw [poke, if_pos (Nat.zero_le p), Nat.sub_zero, List.getElem?_drop, put, Nat.mod_eq_of_lt hi]
  by_cases hp : p < n
  · rw [if_pos hp]
    by_cases hlo : p < i
    · -- the cells in front come from the second piece
      have hcell : (p + (n - i)) % n = p + (n - i) := Nat.mod_eq_of_lt (by omega)
      rw [hcell, poke, if_neg (by omega)]
      by_cases hround : n - i ≤ xs.length
      · rw [Nat.min_eq_right hround, Nat.add_comm]
      · rw [Nat.min_eq_left (by omega), List.getElem?_eq_none (by omega),
          List.getElem?_eq_none (by omega)]
    · have hcell : (p + (n - i)) % n = p - i := by
        rw [show p + (n - i) = p - i + n by omega, Nat.add_mod_right, Nat.mod_eq_of_lt (by omega)]
      rw [hcell, List.getElem?_eq_none (by omega), poke, if_pos (by omega), Option.getD_none]
      by_cases hin : p - i < xs.length
      · rw [List.getElem?_take_of_lt (by omega)]
      · rw [List.getElem?_eq_none (by rw [List.length_take]; omega), List.getElem?_eq_none (by omega)]
  · rw [if_neg hp, List.getElem?_eq_none (by omega), Option.getD_none, poke, if_pos (by omega),
      List.getElem?_eq_none (by rw [List.length_take]; omega)]
    rfl

/-! ## What a ring remembers -/

/-- The ring has the last `n` entries of what has been written to it. -/
def Remembers (n : Nat) (m : Nat → α) (hist : List α) : Prop :=
  ∀ j x, hist[j]? = some x → hist.length ≤ j + n → m (j % n) = x

theorem remembers_replicate {x : α} : Remembers n (fun _ => x) (List.replicate k x) := by
  intro j y hy _
  rw [List.getElem?_replicate] at hy
  split at hy
  · exact Option.some.inj hy
  · cases hy

/-- One entry more. -/
theorem Remembers.push {hist : List α} (h : Remembers n m hist) (x : α) :
    Remembers n (Function.update m (hist.length % n) x) (hist ++ [x]) := by
  intro j y hy hj
  rw [List.length_append, List.length_singleton] at hj
  rcases Nat.lt_or_ge j hist.length with hlt | hge
  · -- an earlier entry has another cell
    rw [List.getElem?_append_left hlt] at hy
    rw [Function.update_of_ne, h j y hy (by omega)]
    intro heq
    have hdvd := Nat.dvd_of_mod_eq_zero (Nat.sub_mod_eq_zero_of_mod_eq heq.symm)
    have := Nat.le_of_dvd (by omega) hdvd
    omega
  · rw [List.getElem?_append_right hge] at hy
    have hj0 : j = hist.length := by
      have := (List.getElem?_eq_some_iff.mp hy).1
      rw [List.length_singleton] at this
      omega
    subst hj0
    rw [Nat.sub_self] at hy
    rw [Function.update_self]
    exact Option.some.inj hy

/-- The last entries, up to `n` of them, can be read. -/
theorem Remembers.get {hist : List α} (h : Remembers n m hist) (hk : k ≤ n)
    (hlen : k ≤ hist.length) : get n m (hist.length - k) k = hist.drop (hist.length - k) := by
  refine List.ext_getElem? fun j => ?_
  rw [IndexedRing.get, List.getElem?_map, List.getElem?_drop]
  rcases Nat.lt_or_ge j k with hj | hj
  · have hlt : hist.length - k + j < hist.length := by omega
    rw [List.getElem?_range hj, List.getElem?_eq_getElem hlt]
    exact congrArg some (h _ _ (List.getElem?_eq_getElem hlt) (by omega))
  · have hrange : (List.range k)[j]? = none :=
      List.getElem?_eq_none (by rw [List.length_range]; exact hj)
    rw [hrange, List.getElem?_eq_none (by omega)]
    rfl

end IndexedRing
