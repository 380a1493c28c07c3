import Mathlib.Data.List.Basic
import Mathlib.Logic.Function.Basic

/-! # Chains of nodes linked by a next pointer

A heap gives each node the node behind it.  `Chain next p l`: from `p`, which may be null, the
pointers lead through the nodes of `l` and then to null.  The two loops over such a chain are
`walk`, to its last node, and `seek`, to the node in front of a given one; both get a number of
rounds, and a chain that is no longer is walked to its end.  The three changes to a chain are a
node put in front, a node put behind the last, and a node taken out.  In a `Linked` list the nodes
also point back; what is done to it is done by one `link` in each direction. -/
namespace PointerChain

variable {ι : Type*} (next : ι → Option ι)

/-- From `p` the pointers lead through `l` to null. -/
def Chain : Option ι → List ι → Prop
  | p, [] => p = none
  | p, i :: l => p = some i ∧ Chain (next i) l

/-- `while (next (i) != NULL) i = next (i);`. -/
def walk : Nat → ι → Option ι
  | 0, _ => none
  | n + 1, i =>
    match next i with
    | none => some i
    | some j => walk n j

/-- `do { if (cur == i) return prev; prev = cur; cur = next (cur); } while (cur != NULL);`. -/
def seek [DecidableEq ι] (i : ι) : Nat → Option ι → ι → Option (Option ι)
  | 0, _, _ => none
  | n + 1, prev, cur =>
    if cur = i then some prev
    else
      match next cur with
      | none => none
      | some c => seek i n (some cur) c

variable {next} {next' : ι → Option ι} {p : Option ι} {i j : ι} {l l₁ l₂ : List ι}

@[simp] theorem chain_nil : Chain next p [] ↔ p = none := Iff.rfl

/-- The head of a chain is its first node. -/
theorem Chain.head (h : Chain next p l) : p = l.head? := by
  cases l with
  | nil => exact h
  | cons i l => exact h.1

/-- The pointers lead through one list only. -/
theorem Chain.unique {l' : List ι} (h : Chain next p l) (h' : Chain next p l') : l = l' := by
  induction l generalizing p l' with
  | nil =>
    cases l' with
    | nil => rfl
    | cons i l' =>
      rw [chain_nil.mp h] at h'
      cases h'.1
  | cons i l ih =>
    obtain ⟨rfl, h⟩ := h
    cases l' with
    | nil => cases h'
    | cons j l' =>
      obtain ⟨hj, h'⟩ := h'
      obtain rfl := Option.some.inj hj
      rw [ih h h']

/-- Nodes outside the chain do not matter. -/
theorem Chain.congr (h : Chain next p l) (heq : ∀ i ∈ l, next' i = next i) : Chain next' p l := by
  induction l generalizing p with
  | nil => exact h
  | cons i l ih =>
    obtain ⟨hp, h⟩ := h
    refine ⟨hp, ?_⟩
    rw [heq i List.mem_cons_self]
    exact ih h fun j hj => heq j (List.mem_cons_of_mem i hj)

/-- The walk ends at the last node. -/
theorem Chain.walk {n : Nat} (h : Chain next (some i) l) (hn : l.length ≤ n) :
    walk next n i = l.getLast? := by
  induction l generalizing i n with
  | nil => cases h
  | cons a l ih =>
    obtain ⟨ha, h⟩ := h
    obtain rfl := Option.some.inj ha
    cases n with
    | zero => cases hn
    | succ n =>
      rw [PointerChain.walk]
      cases l with
      | nil =>
        rw [chain_nil.mp h]
        rfl
      | cons b l =>
        rw [h.1]
        dsimp only
        rw [ih (h.1 ▸ h) (Nat.le_of_succ_le_succ hn)]
        rfl

/-- The search finds the node in front of the one it looks for. -/
theorem Chain.seek [DecidableEq ι] {n : Nat} {prev : Option ι}
    (h : Chain next (some j) (l₁ ++ i :: l₂)) (hi : i ∉ l₁) (hn : l₁.length < n) :
    seek next i n prev j = some (l₁.getLast?.or prev) := by
  induction l₁ generalizing j n prev with
  | nil =>
    obtain ⟨hj, -⟩ := h
    obtain rfl := Option.some.inj hj
    cases n with
    | zero => cases hn
    | succ n => simp [PointerChain.seek]
  | cons a l₁ ih =>
    obtain ⟨ha, h⟩ := h
    obtain rfl := Option.some.inj ha
    obtain ⟨hne, hi⟩ := not_or.mp (mt List.mem_cons.mpr hi)
    cases n with
    | zero => cases hn
    | succ n =>
      rw [PointerChain.seek, if_neg (Ne.symm hne)]
      have hhead : next j = (l₁ ++ i :: l₂).head? := h.head
      obtain ⟨c, hc⟩ : ∃ c, next j = some c := by
        cases l₁ <;> exact ⟨_, hhead⟩
      rw [hc] at h ⊢
      dsimp only
      rw [ih h hi (Nat.lt_of_succ_lt_succ hn)]
      cases l₁ with
      | nil => rfl
      | cons b l₁ => simp [List.getLast?_cons]

/-- A node in front. -/
theorem Chain.push [DecidableEq ι] (h : Chain next p l) (hi : i ∉ l) :
    Chain (Function.update next i p) (some i) (i :: l) := by
  refine ⟨rfl, ?_⟩
  rw [Function.update_self]
  refine h.congr fun j hj => Function.update_of_ne ?_ _ _
  rintro rfl
  exact hi hj

/-- A node behind the last. -/
theorem Chain.append [DecidableEq ι] (h : Chain next p (l ++ [j])) (hnd : (l ++ [j]).Nodup)
    (hi : i ∉ l ++ [j]) (hnext : next i = none) :
    Chain (Function.update next j (some i)) p (l ++ [j, i]) := by
  induction l generalizing p with
  | nil =>
    obtain ⟨hp, -⟩ := h
    have hij : i ≠ j := by
      rintro rfl
      exact hi (List.mem_singleton.mpr rfl)
    exact ⟨hp, Function.update_self .., by rw [Function.update_of_ne hij]; exact hnext⟩
  | cons a l ih =>
    obtain ⟨hp, h⟩ := h
    obtain ⟨ha, hnd⟩ := List.nodup_cons.mp hnd
    have haj : a ≠ j := by
      rintro rfl
      exact ha (List.mem_append_right l List.mem_cons_self)
    refine ⟨hp, ?_⟩
    rw [Function.update_of_ne haj]
    exact ih h hnd fun hmem => hi (List.mem_cons_of_mem a hmem)

/-- A node taken out behind another. -/
theorem Chain.remove [DecidableEq ι] (h : Chain next p (l₁ ++ j :: i :: l₂))
    (hnd : (l₁ ++ j :: i :: l₂).Nodup) :
    Chain (Function.update next j (next i)) p (l₁ ++ j :: l₂) := by
  induction l₁ generalizing p with
  | nil =>
    obtain ⟨hp, -, h⟩ := h
    refine ⟨hp, ?_⟩
    rw [Function.update_self]
    refine h.congr fun a ha => Function.update_of_ne ?_ _ _
    rintro rfl
    exact (List.nodup_cons.mp hnd).1 (List.mem_cons_of_mem i ha)
  | cons a l₁ ih =>
    obtain ⟨hp, h⟩ := h
    obtain ⟨ha, hnd⟩ := List.nodup_cons.mp hnd
    have haj : a ≠ j := by
      rintro rfl
      exact ha (List.mem_append_right l₁ List.mem_cons_self)
    refine ⟨hp, ?_⟩
    rw [Function.update_of_ne haj]
    exact ih h hnd

/-! ## Lists that are linked both ways -/

/-- From `p` the pointers lead through `l` to `q`. -/
def Path (next : ι → Option ι) : Option ι → List ι → Option ι → Prop
  | p, [], q => p = q
  | p, i :: l, q => p = some i ∧ Path next (next i) l q

/-- `if (t != NULL) next (t) = q;`. -/
def link [DecidableEq ι] (next : ι → Option ι) (t q : Option ι) : ι → Option ι :=
  match t with
  | some t => Function.update next t q
  | none => next

/-- A list from `head` to `tail` with pointers in both directions. -/
structure Linked (next prev : ι → Option ι) (head tail : Option ι) (l : List ι) : Prop where
  forward : Chain next head l
  backward : Chain prev tail l.reverse
  nodup : l.Nodup

variable {prev prev' : ι → Option ι} {q r head tail head₁ head₂ tail₁ tail₂ : Option ι}

theorem path_none : Path next p l none ↔ Chain next p l := by
  induction l generalizing p with
  | nil => exact Iff.rfl
  | cons i l ih => exact and_congr_right fun _ => ih

/-- A chain in two parts. -/
theorem chain_append : Chain next p (l₁ ++ l₂) ↔ Path next p l₁ l₂.head? ∧ Chain next l₂.head? l₂ := by
  induction l₁ generalizing p with
  | nil =>
    refine ⟨fun h => ⟨h.head, h.head ▸ h⟩, fun ⟨hp, h⟩ => ?_⟩
    rw [Path] at hp
    exact hp ▸ h
  | cons i l₁ ih => rw [List.cons_append, Chain, Path, ih, and_assoc]

theorem link_of_ne [DecidableEq ι] (hi : i ∉ q) : link next q p i = next i := by
  cases q with
  | none => rfl
  | some t => exact Function.update_of_ne (fun h => hi (congrArg some h.symm)) _ _

/-- **Two parts are joined**: the last node of the first is made to point to the second. -/
theorem Path.join [DecidableEq ι] (h₁ : Path next p l₁ q) (h₂ : Chain next r l₂)
    (hnd : (l₁ ++ l₂).Nodup) : Chain (link next l₁.getLast? r) (l₁.head?.or r) (l₁ ++ l₂) := by
  induction l₁ generalizing p with
  | nil => exact h₂
  | cons a l₁ ih =>
    obtain ⟨-, h₁⟩ := h₁
    obtain ⟨ha, hnd⟩ := List.nodup_cons.mp hnd
    refine ⟨rfl, ?_⟩
    cases l₁ with
    | nil =>
      change Chain (Function.update next a r) (Function.update next a r a) l₂
      rw [Function.update_self]
      refine h₂.congr fun j hj => Function.update_of_ne ?_ _ _
      rintro rfl
      exact ha hj
    | cons b l₁ =>
      have hne : a ∉ (b :: l₁).getLast? := fun hlast =>
        ha (List.mem_append_left l₂ (List.mem_of_getLast? hlast))
      rw [List.getLast?_cons_cons, link_of_ne hne, h₁.1]
      exact ih h₁ hnd

namespace Linked

theorem head_eq (h : Linked next prev head tail l) : head = l.head? := h.forward.head

theorem tail_eq (h : Linked next prev head tail l) : tail = l.getLast? := by
  rw [h.backward.head, List.head?_reverse]

theorem empty : Linked next prev none none [] := ⟨rfl, rfl, List.nodup_nil⟩

/-- Nodes outside the list do not matter. -/
theorem congr (h : Linked next prev head tail l) (hnext : ∀ i ∈ l, next' i = next i)
    (hprev : ∀ i ∈ l, prev' i = prev i) : Linked next' prev' head tail l :=
  ⟨h.forward.congr hnext, h.backward.congr fun i hi => hprev i (List.mem_reverse.mp hi), h.nodup⟩

/-- A node behind the last. -/
theorem push [DecidableEq ι] (h : Linked next prev head tail l) (hi : i ∉ l) (hnext : next i = none) :
    Linked (link next tail (some i)) (Function.update prev i tail) (head.or (some i)) (some i)
      (l ++ [i]) := by
  have hnd : (l ++ [i]).Nodup := List.nodup_append.mpr ⟨h.nodup, List.pairwise_singleton .., fun a ha b hb =>
    List.mem_singleton.mp hb ▸ fun heq => hi (heq ▸ ha)⟩
  refine ⟨?_, ?_, hnd⟩
  · rw [h.head_eq, h.tail_eq]
    exact (path_none.mpr h.forward).join (show Chain next (some i) [i] from ⟨rfl, hnext⟩) hnd
  · rw [List.reverse_append, List.reverse_singleton, List.singleton_append]
    exact h.backward.push fun hmem => hi (List.mem_reverse.mp hmem)

/-- One list behind the other. -/
theorem splice [DecidableEq ι] (h₁ : Linked next prev head₁ tail₁ l₁)
    (h₂ : Linked next prev head₂ tail₂ l₂) (hnd : (l₁ ++ l₂).Nodup) :
    Linked (link next tail₁ head₂) (link prev head₂ tail₁) (head₁.or head₂) (tail₂.or tail₁)
      (l₁ ++ l₂) := by
  refine ⟨?_, ?_, hnd⟩
  · rw [h₁.head_eq, h₁.tail_eq]
    exact (path_none.mpr h₁.forward).join h₂.forward hnd
  · have hnd' : (l₂.reverse ++ l₁.reverse).Nodup := by
      rw [← List.reverse_append]
      exact List.pairwise_reverse.mpr (hnd.imp Ne.symm)
    have hjoin := (path_none.mpr h₂.backward).join h₁.backward hnd'
    rwa [List.getLast?_reverse, List.head?_reverse, ← h₂.head_eq, ← h₂.tail_eq, ← List.reverse_append]
      at hjoin

/-- The node behind another ... -/
theorem next_eq (h : Linked next prev head tail (l₁ ++ i :: l₂)) : next i = l₂.head? :=
  (chain_append.mp h.forward).2.2.head

theorem reverse (h : Linked next prev head tail l) : Linked prev next tail head l.reverse :=
  ⟨h.backward, l.reverse_reverse.symm ▸ h.forward, List.pairwise_reverse.mpr (h.nodup.imp Ne.symm)⟩

/-- A node in front of the first. -/
theorem cons [DecidableEq ι] (h : Linked next prev head tail l) (hi : i ∉ l) :
    Linked (Function.update next i head) (link (Function.update prev i none) head (some i)) (some i)
      (tail.or (some i)) (i :: l) := by
  have hkept : ∀ j ∈ l, Function.update prev i none j = prev j := by
    intro j hj
    refine Function.update_of_ne ?_ _ _
    rintro rfl
    exact hi hj
  have hback := (h.congr (fun _ _ => rfl) hkept).reverse
  have hpush := (hback.push (fun hmem => hi (List.mem_reverse.mp hmem)) (Function.update_self ..)).reverse
  rwa [List.reverse_append, List.reverse_reverse] at hpush

/-- ... and the one in front of it. -/
theorem prev_eq (h : Linked next prev head tail (l₁ ++ i :: l₂)) : prev i = l₁.getLast? := by
  have hrev := h.reverse
  rw [List.reverse_append, List.reverse_cons, List.append_assoc, List.singleton_append] at hrev
  rw [hrev.next_eq, List.head?_reverse]

/-- The ways past a node: in one direction, ... -/
theorem bypass [DecidableEq ι] (h : Linked next prev head tail (l₁ ++ i :: l₂)) :
    Chain (link next (prev i) (next i)) (if prev i = none then next i else head) (l₁ ++ l₂) := by
  obtain ⟨hpath, -, hnext⟩ := chain_append.mp h.forward
  have hnd : (l₁ ++ l₂).Nodup := h.nodup.sublist ((List.sublist_cons_self i l₂).append_left l₁)
  have hjoin := hpath.join hnext hnd
  have hhead : l₁.head?.or (next i) = if prev i = none then next i else head := by
    rw [h.prev_eq, h.head_eq]
    cases l₁ <;> simp
  rwa [← h.prev_eq, hhead] at hjoin

/-- ... and in both: **a node is taken out**. -/
theorem remove [DecidableEq ι] (h : Linked next prev head tail (l₁ ++ i :: l₂)) :
    Linked (link next (prev i) (next i)) (link prev (next i) (prev i))
      (if prev i = none then next i else head) (if next i = none then prev i else tail)
      (l₁ ++ l₂) := by
  have hrev := h.reverse
  rw [List.reverse_append, List.reverse_cons, List.append_assoc, List.singleton_append] at hrev
  have hback := hrev.bypass
  rw [← List.reverse_append] at hback
  exact ⟨h.bypass, hback, h.nodup.sublist ((List.sublist_cons_self i l₂).append_left l₁)⟩

end Linked

end PointerChain
