import Mathlib.Algebra.BigOperators.Fin
import Mathlib.Data.List.Nodup
import Mathlib.Logic.Function.Basic
import Mathlib.Tactic.Common

/-! # Chained hash tables

A table of `n` buckets, each a list of entries; `key` is the key of an entry and
`hash` the bucket of a key.  Entries are added at the head of their bucket; looking
up, replacing and removing stop at the first entry with the key.  As long as every
entry stands in its bucket and no bucket holds a key twice (`WellFormed`), the table
is a finite map: `find_insert`, `find_replace` and `find_erase` say how the
operations change what is found. -/
namespace ChainedHash

section
variable {κ α : Type*} [DecidableEq κ] {n : Nat} (key : α → κ) (hash : κ → Fin n)

/-- A hash table with `n` buckets. -/
abbrev Table (α : Type*) (n : Nat) := Fin n → List α

/-- The first entry of the key's bucket with that key. -/
def find (t : Table α n) (k : κ) : Option α := (t (hash k)).find? fun a => key a = k

/-- Add an entry at the head of its bucket. -/
def insert (t : Table α n) (a : α) : Table α n :=
  Function.update t (hash (key a)) (a :: t (hash (key a)))

/-- Put `a` in the place of the first entry with its key. -/
def replaceFirst (a : α) : List α → List α
  | [] => []
  | b :: l => if key b = key a then a :: l else b :: replaceFirst a l

/-- Put `a` in the place of the entry with its key. -/
def replace (t : Table α n) (a : α) : Table α n :=
  Function.update t (hash (key a)) (replaceFirst key a (t (hash (key a))))

/-- Remove the first entry with the key. -/
def erase (t : Table α n) (k : κ) : Table α n :=
  Function.update t (hash k) ((t (hash k)).eraseP fun a => key a = k)

/-- Every entry stands in its bucket, and no bucket holds a key twice. -/
structure WellFormed (t : Table α n) : Prop where
  placed : ∀ i, ∀ a ∈ t i, hash (key a) = i
  nodup : ∀ i, ((t i).map key).Nodup

/-- The entry is in the table. -/
def Mem (t : Table α n) (a : α) : Prop := ∃ i, a ∈ t i

variable {key hash} {t : Table α n} {a b : α} {k : κ}

theorem key_of_find (h : find key hash t k = some a) : key a = k := by
  simpa using List.find?_some h

theorem mem_of_find (h : find key hash t k = some a) : Mem t a :=
  ⟨_, List.mem_of_find?_eq_some h⟩

theorem not_mem_of_find_none (h : find key hash t k = none) :
    k ∉ (t (hash k)).map key := by
  intro hk
  obtain ⟨a, ha, rfl⟩ := List.mem_map.mp hk
  exact absurd (List.find?_eq_none.mp h a ha) (by simp)

/-! ## Replacing in a list -/

theorem map_key_replaceFirst (a : α) (l : List α) :
    (replaceFirst key a l).map key = l.map key := by
  induction l with
  | nil => rfl
  | cons b l ih =>
    unfold replaceFirst
    split
    · rename_i hb
      simp [hb]
    · simp [ih]

theorem mem_replaceFirst {l : List α} (h : b ∈ replaceFirst key a l) : b = a ∨ b ∈ l := by
  induction l with
  | nil => cases h
  | cons c l ih =>
    unfold replaceFirst at h
    split at h
    · rcases List.mem_cons.mp h with rfl | h
      · exact Or.inl rfl
      · exact Or.inr (List.mem_cons_of_mem _ h)
    · rcases List.mem_cons.mp h with rfl | h
      · exact Or.inr List.mem_cons_self
      · exact (ih h).imp_right (List.mem_cons_of_mem _)

theorem find_replaceFirst (l : List α) :
    (replaceFirst key a l).find? (fun b => key b = k) =
      if k = key a then (l.find? fun b => key b = k).map fun _ => a
      else l.find? fun b => key b = k := by
  induction l with
  | nil => simp [replaceFirst]
  | cons b l ih =>
    unfold replaceFirst
    by_cases hb : key b = key a
    · rw [if_pos hb]
      by_cases hk : k = key a
      · simp [hk, hb]
      · simp [hk, hb, Ne.symm hk]
    · rw [if_neg hb]
      by_cases hbk : key b = k
      · have hk : ¬ k = key a := fun h => hb (hbk.trans h)
        simp [hbk, hk]
      · rw [List.find?_cons_of_neg (by simpa using hbk),
          List.find?_cons_of_neg (by simpa using hbk), ih]

/-! ## The operations -/

theorem WellFormed.insert (h : WellFormed key hash t) (hnew : find key hash t (key a) = none) :
    WellFormed key hash (insert key hash t a) := by
  constructor
  · intro i b hb
    unfold ChainedHash.insert at hb
    by_cases hi : i = hash (key a)
    · subst hi
      rw [Function.update_self] at hb
      rcases List.mem_cons.mp hb with rfl | hb
      · rfl
      · exact h.placed _ _ hb
    · rw [Function.update_of_ne hi] at hb
      exact h.placed _ _ hb
  · intro i
    unfold ChainedHash.insert
    by_cases hi : i = hash (key a)
    · subst hi
      rw [Function.update_self, List.map_cons, List.nodup_cons]
      exact ⟨not_mem_of_find_none hnew, h.nodup _⟩
    · rw [Function.update_of_ne hi]
      exact h.nodup i

theorem find_insert : find key hash (insert key hash t a) k =
    if k = key a then some a else find key hash t k := by
  unfold find ChainedHash.insert
  by_cases hk : k = key a
  · subst hk
    rw [Function.update_self, if_pos rfl, List.find?_cons_of_pos (by simp)]
  · rw [if_neg hk]
    by_cases hi : hash k = hash (key a)
    · rw [hi, Function.update_self, List.find?_cons_of_neg (by simpa using Ne.symm hk), ← hi]
    · rw [Function.update_of_ne hi]

omit [DecidableEq κ] in
theorem mem_insert (h : Mem (insert key hash t a) b) : b = a ∨ Mem t b := by
  obtain ⟨i, hb⟩ := h
  unfold ChainedHash.insert at hb
  by_cases hi : i = hash (key a)
  · subst hi
    rw [Function.update_self] at hb
    exact (List.mem_cons.mp hb).imp_right fun hb => ⟨_, hb⟩
  · rw [Function.update_of_ne hi] at hb
    exact Or.inr ⟨i, hb⟩

theorem find_replace : find key hash (replace key hash t a) k =
    if k = key a then (find key hash t k).map fun _ => a else find key hash t k := by
  unfold find ChainedHash.replace
  by_cases hi : hash k = hash (key a)
  · rw [hi, Function.update_self, find_replaceFirst, ← hi]
  · rw [Function.update_of_ne hi, if_neg fun hk => hi (by rw [hk])]

theorem mem_replace (h : Mem (replace key hash t a) b) : b = a ∨ Mem t b := by
  obtain ⟨i, hb⟩ := h
  unfold ChainedHash.replace at hb
  by_cases hi : i = hash (key a)
  · subst hi
    rw [Function.update_self] at hb
    exact (mem_replaceFirst hb).imp_right fun hb => ⟨_, hb⟩
  · rw [Function.update_of_ne hi] at hb
    exact Or.inr ⟨i, hb⟩

theorem mem_erase (h : Mem (erase key hash t k) b) : Mem t b := by
  obtain ⟨i, hb⟩ := h
  unfold erase at hb
  by_cases hi : i = hash k
  · subst hi
    rw [Function.update_self] at hb
    exact ⟨_, List.mem_of_mem_eraseP hb⟩
  · rw [Function.update_of_ne hi] at hb
    exact ⟨i, hb⟩

theorem WellFormed.erase (h : WellFormed key hash t) (k : κ) :
    WellFormed key hash (erase key hash t k) := by
  constructor
  · intro i b hb
    unfold ChainedHash.erase at hb
    by_cases hi : i = hash k
    · subst hi
      rw [Function.update_self] at hb
      exact h.placed _ _ (List.mem_of_mem_eraseP hb)
    · rw [Function.update_of_ne hi] at hb
      exact h.placed _ _ hb
  · intro i
    unfold ChainedHash.erase
    by_cases hi : i = hash k
    · subst hi
      rw [Function.update_self]
      exact (h.nodup _).sublist (List.Sublist.map key List.eraseP_sublist)
    · rw [Function.update_of_ne hi]
      exact h.nodup i

theorem WellFormed.find_erase (h : WellFormed key hash t) (k k' : κ) :
    find key hash (ChainedHash.erase key hash t k) k' =
      if k' = k then none else find key hash t k' := by
  by_cases hk : k' = k
  · subst hk
    rw [if_pos rfl]
    -- a second entry with the key would be the removed one
    cases hfind : find key hash (ChainedHash.erase key hash t k') k' with
    | none => rfl
    | some b =>
      exfalso
      have hb := List.mem_of_find?_eq_some hfind
      have hkey := key_of_find hfind
      unfold ChainedHash.erase at hb
      rw [Function.update_self] at hb
      obtain ⟨c, l₁, l₂, hl₁, hc, hl, herase⟩ := List.exists_of_eraseP
        (p := fun c => decide (key c = k')) (List.mem_of_mem_eraseP hb) (by simpa using hkey)
      rw [herase] at hb
      have hnodup := h.nodup (hash k')
      rw [hl, List.map_append, List.map_cons, List.nodup_append] at hnodup
      rcases List.mem_append.mp hb with hb | hb
      · exact hl₁ b hb (by simpa using hkey)
      · refine (List.nodup_cons.mp hnodup.2.1).1 ?_
        rw [show key c = key b by rw [hkey]; simpa using hc]
        exact List.mem_map_of_mem hb
  · rw [if_neg hk]
    unfold find ChainedHash.erase
    by_cases hi : hash k' = hash k
    · rw [hi, Function.update_self, ← hi]
      induction t (hash k') with
      | nil => rfl
      | cons b l ih =>
        by_cases hb : key b = k
        · rw [List.eraseP_cons_of_pos (by simpa using hb),
            List.find?_cons_of_neg (by simpa [hb] using Ne.symm hk)]
        · rw [List.eraseP_cons_of_neg (by simpa using hb)]
          by_cases hb' : key b = k'
          · rw [List.find?_cons_of_pos (by simpa using hb'),
              List.find?_cons_of_pos (by simpa using hb')]
          · rw [List.find?_cons_of_neg (by simpa using hb'),
              List.find?_cons_of_neg (by simpa using hb'), ih]
    · rw [Function.update_of_ne hi]

/-! ## The keys

What a table is as a map depends on the keys in its buckets only. -/

/-- The keys of the table, bucket by bucket. -/
def keys (key : α → κ) (t : Table α n) : Fin n → List κ := fun i => (t i).map key

theorem find_isSome : (find key hash t k).isSome ↔ k ∈ keys key t (hash k) := by
  unfold find keys
  rw [List.find?_isSome, List.mem_map]
  simp only [decide_eq_true_eq]

/-- Under the same keys the same key is found. -/
theorem map_key_find_congr {t' : Table α n} (h : keys key t' = keys key t) (k : κ) :
    (find key hash t' k).map key = (find key hash t k).map key := by
  have hiff : (find key hash t' k).isSome ↔ (find key hash t k).isSome := by
    rw [find_isSome, find_isSome, h]
  cases hfind : find key hash t k with
  | none =>
    rw [hfind] at hiff
    rw [Option.not_isSome_iff_eq_none.mp (mt hiff.mp (by simp))]
  | some a =>
    rw [hfind] at hiff
    obtain ⟨b, hb⟩ := Option.isSome_iff_exists.mp (hiff.mpr rfl)
    rw [hb, Option.map_some, Option.map_some, key_of_find hb, key_of_find hfind]

omit [DecidableEq κ] in
theorem wellFormed_iff_keys : WellFormed key hash t ↔
    (∀ i, ∀ k ∈ keys key t i, hash k = i) ∧ ∀ i, (keys key t i).Nodup := by
  constructor
  · intro h
    refine ⟨fun i k hk => ?_, h.nodup⟩
    obtain ⟨a, ha, rfl⟩ := List.mem_map.mp hk
    exact h.placed i a ha
  · intro h
    exact ⟨fun i a ha => h.1 i _ (List.mem_map_of_mem ha), h.2⟩

theorem keys_replace : keys key (replace key hash t a) = keys key t := by
  funext i
  unfold keys ChainedHash.replace
  by_cases hi : i = hash (key a)
  · subst hi
    rw [Function.update_self, map_key_replaceFirst]
  · rw [Function.update_of_ne hi]

/-! ## Changing every entry -/

/-- Change every entry in place. -/
def mapEntries (f : α → α) (t : Table α n) : Table α n := fun i => (t i).map f

theorem find_mapEntries {f : α → α} (hf : ∀ a, key (f a) = key a) (k : κ) :
    find key hash (mapEntries f t) k = (find key hash t k).map f := by
  unfold find mapEntries
  rw [List.find?_map]
  congr 2
  funext a
  simp [hf]

omit [DecidableEq κ] in
theorem keys_mapEntries {f : α → α} (hf : ∀ a, key (f a) = key a) :
    keys key (mapEntries f t) = keys key t := by
  funext i
  unfold keys mapEntries
  rw [List.map_map]
  exact List.map_congr_left fun a _ => hf a

omit [DecidableEq κ] in
theorem mem_mapEntries {f : α → α} (h : Mem (mapEntries f t) a) : ∃ b, Mem t b ∧ f b = a := by
  obtain ⟨i, hi⟩ := h
  obtain ⟨b, hb, rfl⟩ := List.mem_map.mp hi
  exact ⟨b, ⟨i, hb⟩, rfl⟩

omit [DecidableEq κ] in
theorem Mem.map (h : Mem t a) (f : α → α) : Mem (mapEntries f t) (f a) := by
  obtain ⟨i, hi⟩ := h
  exact ⟨i, List.mem_map_of_mem hi⟩

/-- A change that the replacement of an entry undoes hides the replacement. -/
theorem mapEntries_replace {f : α → α} (h : find key hash t (key b) = some a)
    (hab : f b = f a) : mapEntries f (replace key hash t b) = mapEntries f t := by
  funext i
  unfold mapEntries replace
  by_cases hi : i = hash (key b)
  · subst hi
    rw [Function.update_self]
    unfold find at h
    generalize t (hash (key b)) = l at h
    induction l with
    | nil => rfl
    | cons c l ih =>
      unfold replaceFirst
      by_cases hc : key c = key b
      · rw [List.find?_cons_of_pos (by simpa using hc)] at h
        obtain rfl := Option.some.inj h
        rw [if_pos hc, List.map_cons, List.map_cons, hab]
      · rw [List.find?_cons_of_neg (by simpa using hc)] at h
        rw [if_neg hc, List.map_cons, List.map_cons, ih h]
  · rw [Function.update_of_ne hi]

omit [DecidableEq κ] in
theorem wellFormed_empty : WellFormed key hash (fun _ => [] : Table α n) :=
  ⟨fun _ _ hmem => absurd hmem List.not_mem_nil, fun _ => List.nodup_nil⟩

/-! ## Totals

A quantity summed over all entries changes by what the operation adds and removes.  No
well-formedness is needed: an operation and `find` stop at the same entry. -/

/-- The sum of `f` over the entries. -/
def total (f : α → Int) (t : Table α n) : Int := ∑ i, ((t i).map f).sum

variable {f : α → Int}

/-- Changing a summand changes the sum by the difference. -/
theorem sum_eq_of_ne {ι : Type*} [Fintype ι] [DecidableEq ι] {u v : ι → Int} (i : ι)
    (h : ∀ j, j ≠ i → v j = u j) : ∑ j, v j = ∑ j, u j - u i + v i := by
  have hrest : ∑ j ∈ Finset.univ.erase i, v j = ∑ j ∈ Finset.univ.erase i, u j :=
    Finset.sum_congr rfl fun j hj => h j (Finset.ne_of_mem_erase hj)
  rw [← Finset.add_sum_erase _ v (Finset.mem_univ i), hrest,
    ← Finset.add_sum_erase _ u (Finset.mem_univ i)]
  omega

omit [DecidableEq κ] in
theorem total_update (i : Fin n) (l : List α) :
    total f (Function.update t i l) = total f t - ((t i).map f).sum + (l.map f).sum := by
  have hother : ∀ j, j ≠ i → ((Function.update t i l j).map f).sum = ((t j).map f).sum := by
    intro j hj
    rw [Function.update_of_ne hj]
  rw [total, sum_eq_of_ne i hother, Function.update_self]
  rfl

omit [DecidableEq κ] in
theorem total_insert : total f (insert key hash t a) = total f t + f a := by
  rw [insert, total_update, List.map_cons, List.sum_cons]
  omega

theorem sum_replaceFirst {l : List α} (h : (l.find? fun c => key c = key b) = some a) :
    ((replaceFirst key b l).map f).sum = (l.map f).sum - f a + f b := by
  induction l with
  | nil => cases h
  | cons c l ih =>
    rw [replaceFirst]
    by_cases hc : key c = key b
    · rw [List.find?_cons_of_pos (by simpa using hc)] at h
      obtain rfl := Option.some.inj h
      rw [if_pos hc, List.map_cons, List.map_cons, List.sum_cons, List.sum_cons]
      omega
    · rw [List.find?_cons_of_neg (by simpa using hc)] at h
      rw [if_neg hc, List.map_cons, List.map_cons, List.sum_cons, List.sum_cons, ih h]
      omega

theorem total_replace (h : find key hash t (key b) = some a) :
    total f (replace key hash t b) = total f t - f a + f b := by
  rw [replace, total_update, sum_replaceFirst h]
  omega

theorem sum_eraseP {l : List α} (h : (l.find? fun c => key c = k) = some a) :
    ((l.eraseP fun c => key c = k).map f).sum = (l.map f).sum - f a := by
  induction l with
  | nil => cases h
  | cons c l ih =>
    by_cases hc : key c = k
    · rw [List.find?_cons_of_pos (by simpa using hc)] at h
      obtain rfl := Option.some.inj h
      rw [List.eraseP_cons_of_pos (by simpa using hc), List.map_cons, List.sum_cons]
      omega
    · rw [List.find?_cons_of_neg (by simpa using hc)] at h
      rw [List.eraseP_cons_of_neg (by simpa using hc), List.map_cons, List.map_cons, List.sum_cons,
        List.sum_cons, ih h]
      omega

theorem total_erase (h : find key hash t k = some a) :
    total f (erase key hash t k) = total f t - f a := by
  rw [erase, total_update, sum_eraseP h]
  omega

omit [DecidableEq κ] in
theorem total_mapEntries {g : α → α} (h : ∀ a, f (g a) = f a) :
    total f (mapEntries g t) = total f t := by
  unfold total mapEntries
  refine Finset.sum_congr rfl fun i _ => ?_
  rw [List.map_map]
  exact congrArg List.sum (List.map_congr_left fun a _ => h a)

omit [DecidableEq κ] in
/-- The total as a sum over the buckets laid end to end. -/
theorem total_eq_sum_flatMap : total f t = (((List.finRange n).flatMap t).map f).sum := by
  have hflat : ∀ l : List (Fin n), ((l.flatMap t).map f).sum =
      (l.map fun i => ((t i).map f).sum).sum := by
    intro l
    induction l with
    | nil => rfl
    | cons i l ih => rw [List.flatMap_cons, List.map_append, List.sum_append, ih, List.map_cons,
        List.sum_cons]
  rw [hflat, total, Fin.sum_univ_def]

end

end ChainedHash
