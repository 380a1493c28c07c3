import Mathlib.Order.WellFounded
import Mathlib.Tactic.Common

/-! # Runs of a partial machine

A machine is a step function: in state `s` the input `i` either yields an output and
a next state, or the machine does not survive it (`none`).  `Run step ok s₀ os s`
says that the machine can come from `s₀` to `s` with outputs `os`, oldest first, by
inputs that satisfy the guard `ok` where they are taken.  `ok := fun _ _ => True`
gives all runs.  An invariant is proved once per step and then holds along every
run; so does what a step says about its output.  `exec` runs a given list of inputs.
`Reachable` is the same for a machine whose step is a relation, `Endless` are its runs without end,
`Loop` runs the body of a loop for as long as it asks for, `Visits` are the states it comes to, and `Ends` is
the same where each round has an input. -/
namespace GuardedRun

section
variable {σ ι ω : Type*}

/-- The runs from `s₀` whose inputs all satisfy `ok`. -/
inductive Run (step : σ → ι → Option (ω × σ)) (ok : σ → ι → Prop) (s₀ : σ) : List ω → σ → Prop
  | start : Run step ok s₀ [] s₀
  | next {os : List ω} {s s' : σ} {i : ι} {o : ω} : Run step ok s₀ os s → ok s i →
      step s i = some (o, s') → Run step ok s₀ (os ++ [o]) s'

variable {step : σ → ι → Option (ω × σ)} {ok : σ → ι → Prop} {s₀ s : σ} {os : List ω}

/-- **The invariant rule.** -/
theorem Run.invariant {P : σ → Prop} (h : Run step ok s₀ os s) (hstart : P s₀)
    (hstep : ∀ s i o s', P s → ok s i → step s i = some (o, s') → P s') : P s := by
  induction h with
  | start => exact hstart
  | next _ hok hs ih => exact hstep _ _ _ _ ih hok hs

/-- What every step from an invariant state says about its output holds of all outputs. -/
theorem Run.outputs {P : σ → Prop} {Q : ω → Prop} (h : Run step ok s₀ os s) (hstart : P s₀)
    (hstep : ∀ s i o s', P s → ok s i → step s i = some (o, s') → P s' ∧ Q o) :
    ∀ o ∈ os, Q o := by
  induction h with
  | start => intro o ho; cases ho
  | next hrun hok hs ih =>
    intro o ho
    rcases List.mem_append.mp ho with ho | ho
    · exact ih o ho
    · rw [List.mem_singleton.mp ho]
      have hP := hrun.invariant hstart fun s i o s' hP hok hs => (hstep s i o s' hP hok hs).1
      exact (hstep _ _ _ _ hP hok hs).2

/-- **The simulation rule.**  An abstract state that is computed from the outputs alone
stays related to the machine's state, if every step keeps the two related. -/
theorem Run.simulates {α : Type*} {R : σ → α → Prop} (next : α → ω → α) {a₀ : α}
    (h : Run step ok s₀ os s) (hstart : R s₀ a₀)
    (hstep : ∀ s i o s' a, R s a → ok s i → step s i = some (o, s') → R s' (next a o)) :
    R s (os.foldl next a₀) := by
  induction h with
  | start => exact hstart
  | next _ hok hs ih =>
    rw [List.foldl_append]
    exact hstep _ _ _ _ _ ih hok hs

/-- A step in front of a run. -/
theorem Run.cons {s₁ : σ} {i : ι} {o : ω} (h : Run step ok s₁ os s) (hok : ok s₀ i)
    (hs : step s₀ i = some (o, s₁)) : Run step ok s₀ (o :: os) s := by
  induction h with
  | start => exact Run.next .start hok hs
  | next _ hk hn ih => exact .next ih hk hn

/-! ## Executing a list of inputs -/

/-- The outputs for a list of inputs and the state behind them, if the machine survives. -/
def exec (step : σ → ι → Option (ω × σ)) : σ → List ι → Option (List ω × σ)
  | s, [] => some ([], s)
  | s, i :: is => (step s i).bind fun p => (exec step p.2 is).map fun q => (p.1 :: q.1, q.2)

/-- An execution is a run. -/
theorem run_of_exec {is : List ι} (h : exec step s₀ is = some (os, s))
    (hok : ∀ i ∈ is, ∀ s, ok s i) : Run step ok s₀ os s := by
  induction is generalizing s₀ os with
  | nil =>
    obtain ⟨rfl, rfl⟩ := Prod.mk.inj (Option.some.inj h)
    exact .start
  | cons i is ih =>
    obtain ⟨p, hp, h⟩ := Option.bind_eq_some_iff.mp h
    obtain ⟨q, hq, heq⟩ := Option.map_eq_some_iff.mp h
    obtain ⟨rfl, rfl⟩ := Prod.mk.inj heq
    exact (ih hq fun j hj => hok j (List.mem_cons_of_mem _ hj)).cons
      (hok i List.mem_cons_self s₀) hp

end

/-! ## Machines given by a relation -/

section
variable {σ ι : Type*} {start : σ → Prop} {step : σ → ι → σ → Prop} {ok : σ → ι → Prop} {s : σ}

/-- The states to which steps that satisfy `ok` where they are taken lead from a start. -/
inductive Reachable (start : σ → Prop) (step : σ → ι → σ → Prop) (ok : σ → ι → Prop) : σ → Prop
  | start {s : σ} : start s → Reachable start step ok s
  | next {s s' : σ} {i : ι} : Reachable start step ok s → ok s i → step s i s' →
      Reachable start step ok s'

/-- **The invariant rule** for relations. -/
theorem Reachable.invariant {P : σ → Prop} (h : Reachable start step ok s)
    (hstart : ∀ s, start s → P s)
    (hstep : ∀ s i s', P s → ok s i → step s i s' → P s') : P s := by
  induction h with
  | start hs => exact hstart _ hs
  | next _ hok hs ih => exact hstep _ _ _ ih hok hs

/-- Runs can be joined. -/
theorem Reachable.trans {t : σ} (h : Reachable start step ok s)
    (ht : Reachable (fun u => u = s) step ok t) : Reachable start step ok t := by
  induction ht with
  | start heq => exact heq ▸ h
  | next _ hok hs ih => exact .next ih hok hs

theorem Reachable.single {s' : σ} {i : ι} (hok : ok s i) (hs : step s i s') :
    Reachable (fun t => t = s) step ok s' :=
  .next (.start rfl) hok hs

/-- The states to which steps lead from `s`. -/
abbrev From (step : σ → ι → σ → Prop) (s : σ) : σ → Prop :=
  Reachable (fun t => t = s) step fun _ _ => True

theorem From.refl (s : σ) : From step s s := .start rfl

theorem From.single {s' : σ} {i : ι} (hs : step s i s') : From step s s' :=
  Reachable.single trivial hs

/-- A weaker condition lets the same states be reached. -/
theorem Reachable.mono {ok' : σ → ι → Prop} (h : Reachable start step ok s)
    (himp : ∀ s i, ok s i → ok' s i) : Reachable start step ok' s := by
  induction h with
  | start hs => exact .start hs
  | next _ hok hs ih => exact .next ih (himp _ _ hok) hs

/-- So does a weaker step. -/
theorem Reachable.imp_step {step' : σ → ι → σ → Prop} (h : Reachable start step ok s)
    (himp : ∀ s i s', step s i s' → step' s i s') : Reachable start step' ok s := by
  induction h with
  | start hs => exact .start hs
  | next _ hok hs ih => exact .next ih hok (himp _ _ _ hs)

/-- The step of a machine together with a history that is written along. -/
def Recorded {η : Type*} (step : σ → ι → σ → Prop) (record : σ → ι → η → η) (u : σ × η) (i : ι)
    (u' : σ × η) : Prop :=
  step u.1 i u'.1 ∧ u'.2 = record u.1 i u.2

/-- Without its history, a run is a run. -/
theorem Reachable.forget {η : Type*} {record : σ → ι → η → η} {u : σ × η}
    (h : Reachable (fun u => start u.1) (Recorded step record) (fun _ _ => True) u) :
    Reachable start step (fun _ _ => True) u.1 := by
  induction h with
  | start hs => exact .start hs
  | next _ hok hs ih => exact .next ih hok hs.1

/-- Every run has a history. -/
theorem Reachable.recorded {η : Type*} (record : σ → ι → η → η) (h₀ : η)
    (h : Reachable start step (fun _ _ => True) s) :
    ∃ x, Reachable (fun u => start u.1) (Recorded step record) (fun _ _ => True) (s, x) := by
  induction h with
  | start hs => exact ⟨h₀, .start hs⟩
  | @next s s' i _ hok hs ih =>
    obtain ⟨x, hx⟩ := ih
    exact ⟨record s i x, .next hx hok ⟨hs, rfl⟩⟩

end

/-! ## Following a list of inputs -/

section
variable {σ ι : Type*} {start : σ → Prop} {step : σ → ι → Option σ} {ok can : σ → ι → Prop}
  [∀ s i, Decidable (ok s i)] [∀ s i, Decidable (can s i)] {s : σ} {is : List ι}

/-- Where a list of inputs leads to, if each of them can be taken, satisfies `ok` and is survived. -/
def follow (step : σ → ι → Option σ) (ok can : σ → ι → Prop) [∀ s i, Decidable (ok s i)]
    [∀ s i, Decidable (can s i)] : σ → List ι → Option σ
  | s, [] => some s
  | s, i :: is => if ok s i ∧ can s i then (step s i).bind fun t => follow step ok can t is else none

theorem Reachable.follow {t : σ}
    (h : Reachable start (fun s i s' => can s i ∧ step s i = some s') ok s)
    (ht : follow step ok can s is = some t) :
    Reachable start (fun s i s' => can s i ∧ step s i = some s') ok t := by
  induction is generalizing s with
  | nil => exact Option.some.inj ht ▸ h
  | cons i is ih =>
    unfold GuardedRun.follow at ht
    split at ht
    · next hi =>
      obtain ⟨u, hu, ht⟩ := Option.bind_eq_some_iff.mp ht
      exact ih (.next h hi.1 ⟨hi.2, hu⟩) ht
    · exact nomatch ht

/-- A list of inputs that leads to a state as wanted shows that there is one. -/
theorem exists_reachable_of_follow (s : σ) (is : List ι) {p : σ → Bool} (hs : start s)
    (hp : (follow step ok can s is).any p = true) :
    ∃ t, Reachable start (fun s i s' => can s i ∧ step s i = some s') ok t ∧ p t = true := by
  obtain ⟨t, ht, hpt⟩ := (Option.any_eq_true ..).mp hp
  exact ⟨t, .follow (.start hs) ht, hpt⟩

end

/-! ## Endless runs -/

section
variable {σ ι : Type*} {start : σ → Prop} {step : σ → ι → σ → Prop} {ok : σ → ι → Prop}
  {s : ℕ → σ} {a : ℕ → ι}

/-- The inputs `a` lead through the states `s` without end. -/
def Endless (step : σ → ι → σ → Prop) (ok : σ → ι → Prop) (s : ℕ → σ) (a : ℕ → ι) : Prop :=
  ∀ n, ok (s n) (a n) ∧ step (s n) (a n) (s (n + 1))

theorem Endless.reachable (h : Endless step ok s a) (h₀ : Reachable start step ok (s 0)) (n : ℕ) :
    Reachable start step ok (s n) := by
  induction n with
  | zero => exact h₀
  | succ n ih => exact .next ih (h n).1 (h n).2

/-- **The rank rule.**  If certain inputs come again and again, each of them lowers a rank until the
goal is reached, and the others do not raise it, then the goal is reached. -/
theorem exists_of_rank {α : Type*} [PartialOrder α] [WellFoundedLT α] (rank : σ → α)
    (mine : ι → Prop) (P goal : σ → Prop) (hfair : ∀ n, ∃ m ≥ n, mine (a m)) (h₀ : P (s 0))
    (hkeep : ∀ n, P (s n) → goal (s (n + 1)) ∨ P (s (n + 1)) ∧ rank (s (n + 1)) ≤ rank (s n))
    (hmine : ∀ n, P (s n) → mine (a n) → goal (s (n + 1)) ∨ rank (s (n + 1)) < rank (s n)) :
    ∃ n, goal (s n) := by
  -- From any time at which `P` holds, by induction on the rank.
  suffices h : ∀ r n, rank (s n) = r → P (s n) → ∃ m, goal (s m) from h _ 0 rfl h₀
  intro r
  induction r using WellFoundedLT.induction with
  | ind r ih =>
    intro n hr hP
    -- Until the next of the inputs, the rank does not rise.
    have hwait : ∀ d, (∃ m, goal (s m)) ∨ P (s (n + d)) ∧ rank (s (n + d)) ≤ r := by
      intro d
      induction d with
      | zero => exact .inr ⟨hP, hr.le⟩
      | succ d ihd =>
        rcases ihd with hgoal | ⟨hPd, hrd⟩
        · exact .inl hgoal
        · rcases hkeep _ hPd with hgoal | ⟨hPd', hrd'⟩
          · exact .inl ⟨_, hgoal⟩
          · exact .inr ⟨hPd', hrd'.trans hrd⟩
    obtain ⟨m, hm, hmi⟩ := hfair n
    obtain ⟨d, rfl⟩ := Nat.exists_eq_add_of_le hm
    rcases hwait d with hgoal | ⟨hPd, hrd⟩
    · exact hgoal
    rcases hmine _ hPd hmi with hgoal | hlt
    · exact ⟨_, hgoal⟩
    rcases hkeep _ hPd with hgoal | ⟨hPd', -⟩
    · exact ⟨_, hgoal⟩
    exact ih _ (hlt.trans_le hrd) _ rfl hPd'

end

/-! ## Loops -/

section
variable {σ : Type*} {body : σ → Option (Bool × σ)} {s s' : σ}

/-- A loop that is left when its body says so comes from `s` to `s'`. -/
inductive Loop (body : σ → Option (Bool × σ)) : σ → σ → Prop
  | again {s t s' : σ} : body s = some (true, t) → Loop body t s' → Loop body s s'
  | last {s s' : σ} : body s = some (false, s') → Loop body s s'

theorem Loop.of_again {t : σ} (h : Loop body s s') (hs : body s = some (true, t)) :
    Loop body t s' := by
  cases h with
  | again ht hloop =>
    obtain ⟨-, rfl⟩ := Prod.mk.inj (Option.some.inj (hs.symm.trans ht))
    exact hloop
  | last ht => exact absurd (Prod.mk.inj (Option.some.inj (hs.symm.trans ht))).1 Bool.noConfusion

theorem Loop.of_last {t : σ} (h : Loop body s s') (hs : body s = some (false, t)) : s' = t := by
  cases h with
  | again ht => exact absurd (Prod.mk.inj (Option.some.inj (hs.symm.trans ht))).1 Bool.noConfusion
  | last ht => exact (Prod.mk.inj (Option.some.inj (ht.symm.trans hs))).2

/-- A loop ends in one state. -/
theorem Loop.unique {t : σ} (h : Loop body s s') (ht : Loop body s t) : s' = t := by
  induction h with
  | again hs _ ih => exact ih (ht.of_again hs)
  | last hs => exact (ht.of_last hs).symm

end

/-! ## Where a loop comes to -/

section
variable {σ : Type*} {body : σ → Option (Bool × σ)} {s s' t u : σ} {P : σ → Prop}

/-- The body is run in the state `u`, if the loop is begun in `s`. -/
inductive Visits (body : σ → Option (Bool × σ)) (s : σ) : σ → Prop
  | start : Visits body s s
  | next {u t : σ} : Visits body s u → body u = some (true, t) → Visits body s t

/-- The loop does not go on for ever. -/
def Halts (body : σ → Option (Bool × σ)) (s : σ) : Prop := Acc (fun t u => body u = some (true, t)) s

/-- **The invariant rule** for loops. -/
theorem Visits.invariant (h : Visits body s u) (hs : P s)
    (hstep : ∀ u t, P u → body u = some (true, t) → P t) : P u := by
  induction h with
  | start => exact hs
  | next _ hb ih => exact hstep _ _ ih hb

theorem Visits.loop (h : Visits body s u) (hl : Loop body s s') : Loop body u s' := by
  induction h with
  | start => exact hl
  | next _ hb ih => exact ih.of_again hb

theorem Visits.of_again (h : Visits body t u) (hs : body s = some (true, t)) : Visits body s u := by
  induction h with
  | start => exact .next .start hs
  | next _ hb ih => exact ih.next hb

/-- A loop is left by the last run of its body. -/
theorem Loop.exists_last (h : Loop body s s') : ∃ u, Visits body s u ∧ body u = some (false, s') := by
  induction h with
  | again hb _ ih =>
    obtain ⟨u, hu, hlast⟩ := ih
    exact ⟨u, hu.of_again hb, hlast⟩
  | last hb => exact ⟨_, .start, hb⟩

theorem Halts.visited (h : Halts body s) (hu : Visits body s u) : Halts body u := by
  induction hu with
  | start => exact h
  | next _ hb ih => exact ih.inv hb

/-- A loop that does not go on for ever, and whose body is always survived, is left. -/
theorem Halts.exists_loop (h : Halts body s) (hbody : ∀ u, Visits body s u → body u ≠ none) :
    ∃ s', Loop body s s' := by
  suffices hvisited : ∀ u, Visits body s u → ∃ s', Loop body u s' from hvisited s .start
  intro u hu
  induction h.visited hu with
  | intro u _ ih =>
    cases hb : body u with
    | none => exact absurd hb (hbody u hu)
    | some out =>
      obtain ⟨more, t⟩ := out
      cases more with
      | true =>
        obtain ⟨s', hloop⟩ := ih t hb (hu.next hb)
        exact ⟨s', .again hb hloop⟩
      | false => exact ⟨t, .last hb⟩

/-- What makes the loop go on, and stays so, makes it go on for ever. -/
theorem Halts.not_of_forever (h : Halts body s) (hstep : ∀ u, P u → ∃ t, body u = some (true, t) ∧ P t) :
    ¬ P s := by
  induction h with
  | intro u _ ih =>
    intro hu
    obtain ⟨t, hb, ht⟩ := hstep u hu
    exact ih t hb ht

/-- **The rank rule** for loops. -/
theorem halts_of_rank (rank : σ → ℕ)
    (hstep : ∀ u t, Visits body s u → body u = some (true, t) → rank t < rank u) : Halts body s := by
  suffices h : ∀ n u, rank u = n → Visits body s u → Halts body u from h _ s rfl .start
  intro n
  induction n using Nat.strong_induction_on with
  | h n ih =>
    rintro u rfl hu
    exact .intro u fun t hb => ih _ (hstep u t hu hb) t rfl (hu.next hb)

end

/-! ## Loops with an input for each round -/

section
variable {σ ι : Type*} {body : σ → ι → Bool × σ} {i : ℕ → ι} {s t u : σ} {P : σ → Prop} {n : ℕ}

/-- The state in which round `n` begins, if the loop comes to it.  The body says whether the loop goes on. -/
def begins (body : σ → ι → Bool × σ) (i : ℕ → ι) (s : σ) : ℕ → Option σ
  | 0 => some s
  | n + 1 => (begins body i s n).bind fun u => if (body u (i n)).1 then some (body u (i n)).2 else none

/-- The loop is left, and leaves `t`. -/
def Ends (body : σ → ι → Bool × σ) (i : ℕ → ι) (s t : σ) : Prop :=
  ∃ n u, begins body i s n = some u ∧ body u (i n) = (false, t)

theorem begins_again (h : begins body i s n = some u) (hb : body u (i n) = (true, t)) :
    begins body i s (n + 1) = some t := by
  unfold begins
  rw [h, Option.bind_some, hb]
  rfl

theorem begins_last (h : begins body i s n = some u) (hb : body u (i n) = (false, t)) :
    begins body i s (n + 1) = none := by
  unfold begins
  rw [h, Option.bind_some, hb]
  rfl

/-- A round that begins follows one after which the loop goes on. -/
theorem begins_succ (h : begins body i s (n + 1) = some t) :
    ∃ u, begins body i s n = some u ∧ body u (i n) = (true, t) := by
  unfold begins at h
  obtain ⟨u, hu, ht⟩ := Option.bind_eq_some_iff.mp h
  refine ⟨u, hu, ?_⟩
  split at ht
  · next hon => exact Prod.ext hon (Option.some.inj ht)
  · exact nomatch ht

/-- **The invariant rule** for rounds. -/
theorem begins_invariant (h : begins body i s n = some u) (hs : P s)
    (hstep : ∀ u j t, P u → body u j = (true, t) → P t) : P u := by
  induction n generalizing u with
  | zero => exact Option.some.inj h ▸ hs
  | succ n ih =>
    obtain ⟨v, hv, hb⟩ := begins_succ h
    exact hstep v _ u (ih hv) hb

/-- What makes the loop go on, and stays so, makes it go on for ever. -/
theorem begins_forever (h : begins body i s n = some u) (hu : P u)
    (hstep : ∀ u j, P u → ∃ t, body u j = (true, t) ∧ P t) (k : ℕ) :
    ∃ t, begins body i s (n + k) = some t ∧ P t := by
  induction k with
  | zero => exact ⟨u, h, hu⟩
  | succ k ih =>
    obtain ⟨v, hv, hP⟩ := ih
    obtain ⟨t, hb, ht⟩ := hstep v (i (n + k)) hP
    exact ⟨t, begins_again hv hb, ht⟩

theorem begins_le {m : ℕ} (h : begins body i s n = some u) (hle : m ≤ n) :
    ∃ v, begins body i s m = some v := by
  induction n generalizing u with
  | zero =>
    obtain rfl := Nat.le_zero.mp hle
    exact ⟨u, h⟩
  | succ n ih =>
    rcases Nat.le_succ_iff.mp hle with hle | rfl
    · obtain ⟨v, hv, -⟩ := begins_succ h
      exact ih hv hle
    · exact ⟨u, h⟩

/-- A loop whose rounds all begin does not end. -/
theorem not_ends_of_forever (h : ∀ k, ∃ v, begins body i s (n + k) = some v) : ¬ Ends body i s t := by
  rintro ⟨m, u, hu, hb⟩
  obtain ⟨v, hv⟩ := h (m + 1)
  obtain ⟨w, hw⟩ := begins_le hv (show m + 1 ≤ n + (m + 1) by omega)
  rw [begins_last hu hb] at hw
  cases hw

/-- A loop ends once. -/
theorem Ends.of_last (h : Ends body i s t) (hu : begins body i s n = some u) {v : σ}
    (hb : body u (i n) = (false, v)) : t = v := by
  obtain ⟨m, w, hw, ht⟩ := h
  rcases Nat.lt_trichotomy m n with hlt | rfl | hlt
  · obtain ⟨x, hx⟩ := begins_le hu hlt
    cases (begins_last hw ht).symm.trans hx
  · obtain rfl := Option.some.inj (hw.symm.trans hu)
    exact (Prod.mk.inj (ht.symm.trans hb)).2
  · obtain ⟨x, hx⟩ := begins_le hw hlt
    cases (begins_last hu hb).symm.trans hx

/-- **The rank rule** for rounds: the loop ends, if no round raises a rank, and from any time on there is one that
lowers it or is the last. -/
theorem ends_of_rank (rank : σ → ℕ)
    (hstep : ∀ m u t, begins body i s m = some u → body u (i m) = (true, t) → rank t ≤ rank u)
    (hlower : ∀ m, ∃ n ≥ m, ∀ u t, begins body i s n = some u → body u (i n) = (true, t) → rank t < rank u) :
    ∃ t, Ends body i s t := by
  by_contra hend
  have hall : ∀ n, ∃ u, begins body i s n = some u := by
    intro n
    induction n with
    | zero => exact ⟨s, rfl⟩
    | succ n ih =>
      obtain ⟨u, hu⟩ := ih
      rcases hb : body u (i n) with ⟨on, t⟩
      cases on with
      | true => exact ⟨t, begins_again hu hb⟩
      | false => exact absurd ⟨t, n, u, hu, hb⟩ hend
  have hmono : ∀ m u, begins body i s m = some u → ∀ k v, begins body i s (m + k) = some v →
      rank v ≤ rank u := by
    intro m u hu k
    induction k with
    | zero =>
      intro v hv
      rw [Option.some.inj (hv.symm.trans hu)]
    | succ k ih =>
      intro v hv
      obtain ⟨w, hw, hb⟩ := begins_succ hv
      exact (hstep _ w v hw hb).trans (ih w hw)
  -- no rank is that of a round
  suffices hnone : ∀ r m u, begins body i s m = some u → rank u ≠ r from hnone _ 0 s rfl rfl
  intro r
  induction r using Nat.strong_induction_on with
  | h r ih =>
    rintro m u hu rfl
    obtain ⟨n, hle, hn⟩ := hlower m
    obtain ⟨k, rfl⟩ := Nat.exists_eq_add_of_le hle
    obtain ⟨v, hv⟩ := hall (m + k)
    rcases hb : body v (i (m + k)) with ⟨on, t⟩
    cases on with
    | true => exact ih _ ((hn v t hv hb).trans_le (hmono m u hu k v hv)) _ t (begins_again hv hb) rfl
    | false => exact hend ⟨t, m + k, v, hv, hb⟩

end

/-! ## Debts in a log

A log is kept newest first.  Some of its events leave a debt, some pay all debts, and at some
there must be none. -/

section
variable {ε : Type*} (owes pays asks : ε → Prop)

/-- An event that owes has not been followed by one that pays. -/
def Unpaid : List ε → Prop
  | [] => False
  | e :: log => owes e ∨ ¬ pays e ∧ Unpaid log

/-- Whenever an event asks, nothing is unpaid. -/
def Settled : List ε → Prop
  | [] => True
  | e :: log => Settled log ∧ (asks e → ¬ Unpaid owes pays log)

variable {owes pays asks}

theorem Unpaid.of_cons {e : ε} {log : List ε} (h : Unpaid owes pays (e :: log))
    (he : ¬ owes e) : Unpaid owes pays log :=
  (h.resolve_left he).2

theorem not_unpaid_of_pays {e : ε} {log : List ε} (he : ¬ owes e) (hp : pays e) :
    ¬ Unpaid owes pays (e :: log) :=
  fun h => (h.resolve_left he).1 hp

end

end GuardedRun
