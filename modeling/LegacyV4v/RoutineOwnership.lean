import Mathlib.Data.List.Nodup

/-! # Routines that work on objects

Routines run at the same time, each on one object, and the steps that are left of each are kept in a
list.  As long as no two of them work on the same object, what is left of a routine can be compared
with what its object looks like: `Fits ops x` says that `ops` can be run from `x` and leave the
object in order, and `Fits [] x` that it is in order already.  The rules below say how this goes
through the start of a routine, one of its steps, and its end. -/
namespace RoutineOwnership
variable {κ β ω : Type*}

/-- No two routines work on one object, each routine fits its object, and the others are in order. -/
structure Owned (Fits : List ω → β → Prop) (running : List (κ × List ω)) (view : κ → β) : Prop where
  distinct : (running.map Prod.fst).Nodup
  busy : ∀ t ∈ running, Fits t.2 (view t.1)
  idle : ∀ k, k ∉ running.map Prod.fst → Fits [] (view k)

variable {Fits : List ω → β → Prop} {running l₁ l₂ : List (κ × List ω)} {view view' : κ → β}
  {k : κ} {ops ops' : List ω}

theorem keys_append_cons :
    (l₁ ++ (k, ops) :: l₂).map Prod.fst = l₁.map Prod.fst ++ k :: l₂.map Prod.fst := by
  rw [List.map_append, List.map_cons]

/-- The other routines work on other objects. -/
theorem Owned.ne_of_mem (h : Owned Fits (l₁ ++ (k, ops) :: l₂) view) {t : κ × List ω}
    (ht : t ∈ l₁ ++ l₂) : t.1 ≠ k := by
  have hdistinct := h.distinct
  rw [keys_append_cons, List.nodup_middle] at hdistinct
  intro heq
  refine (List.nodup_cons.mp hdistinct).1 ?_
  rw [← List.map_append, ← heq]
  exact List.mem_map_of_mem ht

/-- The objects look as before. -/
theorem Owned.congr (h : Owned Fits running view) (hsame : ∀ k, view' k = view k) :
    Owned Fits running view' :=
  (funext hsame : view' = view) ▸ h

/-- A routine starts on an object on which no other works. -/
theorem Owned.begin (h : Owned Fits running view) (hk : k ∉ running.map Prod.fst)
    (hfits : Fits [] (view k) → Fits ops (view k)) :
    Owned Fits (running ++ [(k, ops)]) view := by
  refine ⟨?_, ?_, fun k' hk' => h.idle k' fun hmem => hk' ?_⟩
  · rw [keys_append_cons, List.nodup_middle, List.map_nil, List.append_nil]
    exact List.nodup_cons.mpr ⟨hk, h.distinct⟩
  · rw [List.forall_mem_append, List.forall_mem_singleton]
    exact ⟨h.busy, hfits (h.idle k hk)⟩
  · rw [List.map_append]
    exact List.mem_append_left _ hmem

/-- A routine makes a step, which changes its own object only. -/
theorem Owned.exec (h : Owned Fits (l₁ ++ (k, ops) :: l₂) view)
    (hfits : Fits ops (view k) → Fits ops' (view' k)) (hsame : ∀ k' ≠ k, view' k' = view k') :
    Owned Fits (l₁ ++ (k, ops') :: l₂) view' := by
  refine ⟨?_, fun t ht => ?_, fun k' hk' => ?_⟩
  · have hdistinct := h.distinct
    rw [keys_append_cons] at hdistinct ⊢
    exact hdistinct
  · rcases List.mem_append.mp ht with ht | ht
    · rw [hsame _ (h.ne_of_mem (List.mem_append_left _ ht))]
      exact h.busy t (List.mem_append_left _ ht)
    rcases List.mem_cons.mp ht with rfl | ht
    · exact hfits (h.busy _ (List.mem_append_right _ List.mem_cons_self))
    · rw [hsame _ (h.ne_of_mem (List.mem_append_right _ ht))]
      exact h.busy t (List.mem_append_right _ (List.mem_cons_of_mem _ ht))
  · rw [keys_append_cons] at hk'
    have hne : k' ≠ k := fun heq =>
      hk' (heq ▸ List.mem_append_right _ List.mem_cons_self)
    rw [hsame k' hne]
    exact h.idle k' (keys_append_cons ▸ hk')

/-- A routine ends. -/
theorem Owned.finish (h : Owned Fits (l₁ ++ (k, []) :: l₂) view) :
    Owned Fits (l₁ ++ l₂) view := by
  have hdistinct := h.distinct
  rw [keys_append_cons, List.nodup_middle, ← List.map_append] at hdistinct
  refine ⟨(List.nodup_cons.mp hdistinct).2, fun t ht => h.busy t ?_, fun k' hk' => ?_⟩
  · exact ((List.sublist_cons_self _ l₂).append_left l₁).subset ht
  · by_cases heq : k' = k
    · rw [heq]
      exact h.busy (k, []) (List.mem_append_right _ List.mem_cons_self)
    · refine h.idle k' fun hmem => hk' ?_
      rw [keys_append_cons, List.mem_append, List.mem_cons] at hmem
      rw [List.map_append, List.mem_append]
      exact hmem.imp_right fun hor => hor.resolve_left heq

/-- When no routine runs, every object is in order. -/
theorem Owned.settled (h : Owned Fits [] view) (k : κ) : Fits [] (view k) :=
  h.idle k (List.not_mem_nil)

end RoutineOwnership
