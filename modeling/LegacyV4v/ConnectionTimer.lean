import LegacyV4v.ContextStates

/-! # The connection timer

A timer runs while some context is CONNECTING, and counts these contexts.  Each routine that takes a
context out of CONNECTING has to count down once; whether it has to, it knows from the state that it
has read.  The cancellation of an IRP counts down and leaves the state as it is; a routine that does
not look, or two at a time, get the counter out of step; it is a byte, and wraps at 256 connectors.
The timer itself is set and cancelled after the counter was changed, and another routine may come in
between; and it is not set again when the device is stopped and started. -/
namespace V4v.Windows
open GuardedRun RoutineOwnership

namespace ContextRun
variable {s s' : ContextRun} {a : ContextAct} {ctx : Nat} {timed : List Nat}

/-- The contexts that are CONNECTING. -/
def connecting (s : ContextRun) : Nat :=
  s.created.countP fun ctx => (s.contexts ctx).state = .connecting

/-- Between operations the counter says how many contexts are CONNECTING, and while the device is
started the timer is armed if and only if there are any. -/
def Accounted (s : ContextRun) : Prop :=
  s.running = [] → s.timerCounter.toNat = s.connecting ∧
    (s.started = true → (s.armed = true ↔ 0 < s.connecting))

def isTimerCall : ContextOp → Bool
  | .setTimer | .cancelTimer => true
  | _ => false

/-- The calls of `KeSetTimerEx` and `KeCancelTimer` that are still to be made. -/
def timerCalls (s : ContextRun) : List ContextOp :=
  s.running.flatMap fun t => t.2.filter isTimerCall

/-- A routine that has something to do does not start while another works on its context; one that
does not look at the state does not start when the context is CONNECTING; no IRP of a connector that
is CONNECTING is cancelled.  There are never 256 connectors; the counter does not leave 0, or come
back to it, while the timer is still to be set or cancelled for the last time it did; and the device
is not started when the timer should run and does not. -/
def InStep (s : ContextRun) : ContextAct → Prop
  | .begin r => r.steps s.contexts ≠ [] → r.target ∉ s.running.map Prod.fst ∧
      match r with
      | .ctrlInitializeFile .. | .ctrlAccept .. | .doAccept .. | .doWriteAck .. =>
        (s.contexts r.target).state ≠ .connecting
      | .completeCanceledIrp .. => False
      | _ => True
  | .perform _ .startTimer =>
    s.timerCounter ≠ 255 ∧ (s.timerCounter = 0 → s.timerCalls = [])
  | .perform _ .stopTimer => s.timerCounter = 1 → s.timerCalls = []
  | .startDevice => s.timerCounter ≠ 0 → s.armed = true
  | _ => True

/-! ## What is left of a routine -/

/-- From whether its context is counted and whether it is CONNECTING, what is left of a routine makes
the two agree. -/
def Counts : List ContextOp → Bool × Bool → Prop
  | [], x => x.1 = x.2
  | .exchange new :: ops, x => Counts ops (x.1, decide (new = .connecting))
  | .readType :: ops, x => Counts ops (x.1, false)
  | .startTimer :: ops, x => x.1 = false ∧ Counts ops (true, x.2)
  | .stopTimer :: ops, x => x.1 = true ∧ Counts ops (false, x.2)
  | _ :: ops, x => Counts ops x

/-- Every routine does this from the start, if it has looked. -/
theorem counts_steps {r : Routine} (hok : s.InStep (.begin r)) (hne : r.steps s.contexts ≠ [])
    {t : Bool} (hcounted : t = decide ((s.contexts r.target).state = .connecting)) :
    Counts (r.steps s.contexts) (t, decide ((s.contexts r.target).state = .connecting)) := by
  subst hcounted
  have hbegin := (hok hne).2
  cases r with
  | completeCanceledIrp => exact hbegin.elim
  | ctrlInitializeFile ctx kev =>
    cases kev with
    | none => exact rfl
    | some kev => exact decide_eq_false hbegin
  | ctrlBind ctx robj =>
    cases robj with
    | none =>
      rw [Routine.steps]
      split <;> exact rfl
    | some robj =>
      rw [Routine.steps]
      split
      · exact rfl
      · next hidle => simp [Counts, Routine.target, not_not.mp hidle]
  | ctrlListen ctx ok =>
    rw [Routine.steps]
    split
    · exact rfl
    · next hbound => simp [Counts, Routine.target, not_not.mp (not_or.mp hbound).1]
  | ctrlConnect ctx queued =>
    rw [Routine.steps]
    split
    · exact rfl
    · next hbound => cases queued <;> simp [Counts, Routine.target, not_not.mp hbound]
  | ctrlConnectWait ctx queued =>
    rw [Routine.steps]
    split
    · exact rfl
    · next hbound => cases queued <;> simp [Counts, Routine.target, not_not.mp hbound]
  | ctrlAccept ctx actx kev queued =>
    have hfalse := decide_eq_false hbegin
    cases kev with
    | none =>
      rw [Routine.steps]
      split <;> exact rfl
    | some kev =>
      rw [Routine.steps]
      split
      · exact rfl
      · cases queued <;> exact hfalse
  | ctrlDisconnect ctx =>
    rw [Routine.steps]
    split
    · next hstate => rcases hstate with hstate | hstate <;> simp [Counts, Routine.target, hstate]
    · exact rfl
  | doAccept ctx actx acked =>
    have hfalse := decide_eq_false hbegin
    cases acked <;> exact hfalse
  | doWriteAck ctx => exact decide_eq_false hbegin
  | preConnectSyn ctx =>
    rw [Routine.steps]
    split <;> exact rfl
  | preConnectAck ctx =>
    rw [Routine.steps]
    split
    · next hstate => simp [Counts, Routine.target, hstate]
    · exact rfl
  | disconnectStreamAndSignal ctx =>
    rw [Routine.steps]
    split <;> next hstate => simp [Counts, Routine.target, hstate]
  | dispatchCleanup ctx =>
    rw [Routine.steps]
    split <;> next hstate => simp [Counts, Routine.target, hstate]

/-- Whether a context is counted, and whether it is CONNECTING. -/
def countView (contexts : Nat → StateContext) (timed : List Nat) (ctx : Nat) : Bool × Bool :=
  (decide (ctx ∈ timed), decide ((contexts ctx).state = .connecting))

theorem countView_of_ne {contexts : Nat → StateContext} {timed' : List Nat} {x : StateContext}
    {k : Nat} (hk : k ≠ ctx) (hmem : k ∈ timed' ↔ k ∈ timed) :
    countView (Function.update contexts ctx x) timed' k = countView contexts timed k := by
  unfold countView
  rw [Function.update_of_ne hk, decide_eq_decide.mpr hmem]

/-- The contexts that are counted, and what is left of the routines. -/
structure Counted (s : ContextRun) (timed : List Nat) : Prop where
  owned : Owned Counts s.running (countView s.contexts timed)
  nodup : timed.Nodup
  counter : s.timerCounter.toNat = timed.length

/-- A routine changes its context, and counts it, or does not any more. -/
theorem Counted.change {timed' : List Nat} {ops ops' : List ContextOp}
    {l₁ l₂ : List (Nat × List ContextOp)} {x : StateContext}
    (h : s.Counted timed) (hrunning : s.running = l₁ ++ (ctx, ops) :: l₂)
    (hrunning' : s'.running = l₁ ++ (ctx, ops') :: l₂)
    (hcontexts : s'.contexts = Function.update s.contexts ctx x)
    (hfits : Counts ops (countView s.contexts timed ctx) →
      Counts ops' (decide (ctx ∈ timed'), decide (x.state = .connecting)))
    (hmem : ∀ k ≠ ctx, (k ∈ timed' ↔ k ∈ timed)) (hnodup : timed'.Nodup)
    (hcounter : s'.timerCounter.toNat = timed'.length) : s'.Counted timed' := by
  have howned := h.owned
  rw [hrunning] at howned
  refine ⟨?_, hnodup, hcounter⟩
  rw [hrunning', hcontexts]
  refine howned.exec (fun hops => ?_) fun k hk => countView_of_ne hk (hmem k hk)
  unfold countView
  rw [Function.update_self]
  exact hfits hops

theorem Counted.head {ops : List ContextOp} {l₁ l₂ : List (Nat × List ContextOp)}
    (h : s.Counted timed) (hrunning : s.running = l₁ ++ (ctx, ops) :: l₂) :
    Counts ops (countView s.contexts timed ctx) :=
  h.owned.busy (ctx, ops) (hrunning ▸ List.mem_append_right _ List.mem_cons_self)

/-- It is counted as before. -/
theorem Counted.quiet {ops ops' : List ContextOp}
    {l₁ l₂ : List (Nat × List ContextOp)} {x : StateContext}
    (h : s.Counted timed) (hrunning : s.running = l₁ ++ (ctx, ops) :: l₂)
    (hrunning' : s'.running = l₁ ++ (ctx, ops') :: l₂)
    (hcontexts : s'.contexts = Function.update s.contexts ctx x)
    (hcounter : s'.timerCounter = s.timerCounter)
    (hfits : Counts ops (countView s.contexts timed ctx) →
      Counts ops' (decide (ctx ∈ timed), decide (x.state = .connecting))) : s'.Counted timed :=
  h.change hrunning hrunning' hcontexts hfits (fun _ _ => Iff.rfl) h.nodup
    (hcounter ▸ h.counter)

theorem closing_ne_connecting (type : FileType) : closing type ≠ .connecting := by
  unfold closing
  split <;> exact FileState.noConfusion

/-- A step of a routine. -/
theorem Counted.performed {op : ContextOp} {rest : List ContextOp} {l₁ l₂ : List (Nat × List ContextOp)}
    (h : s.Counted timed) (hok : s.InStep (.perform ctx op))
    (hrunning : s.running = l₁ ++ (ctx, op :: rest) :: l₂) :
    ∃ timed', Counted { (s.perform ctx op).1 with
      running := l₁ ++ (ctx, (s.perform ctx op).2 ++ rest) :: l₂ } timed' := by
  have hself := (Function.update_eq_self ctx s.contexts).symm
  cases op with
  | exchange | retype | reference | dereference | setRing | shareRing =>
    exact ⟨timed, h.quiet hrunning rfl rfl rfl fun hfits => hfits⟩
  | assertNoRing | setTimer | cancelTimer | queueAccept | queueAck | cancelWrites =>
    exact ⟨timed, h.quiet hrunning rfl hself rfl fun hfits => hfits⟩
  | readType =>
    refine ⟨timed, h.quiet hrunning rfl hself rfl fun hfits => ?_⟩
    have hclosing := decide_eq_false (closing_ne_connecting (s.contexts ctx).type)
    change Counts rest (_, decide (closing (s.contexts ctx).type = .connecting))
    rw [hclosing]
    exact hfits
  | startTimer =>
    have hfits := h.head hrunning
    have hnot : ctx ∉ timed := of_decide_eq_false hfits.1
    refine ⟨ctx :: timed, h.change hrunning rfl hself (fun _ => ?_)
      (fun k hk => List.mem_cons.trans (or_iff_right hk)) (List.nodup_cons.mpr ⟨hnot, h.nodup⟩) ?_⟩
    · rw [decide_eq_true List.mem_cons_self, perform]
      dsimp only
      split <;> exact hfits.2
    · have hlt : s.timerCounter.toNat ≠ 255 := fun heq => hok.1 (UInt8.toNat_inj.mp heq)
      have hbound := s.timerCounter.toNat_lt
      have hadd := UInt8.toNat_add s.timerCounter 1
      rw [List.length_cons, ← h.counter, perform]
      dsimp only
      rw [hadd, UInt8.toNat_one]
      omega
  | stopTimer =>
    have hfits := h.head hrunning
    have hmem : ctx ∈ timed := of_decide_eq_true hfits.1
    have hpos := List.length_pos_of_mem hmem
    have hcounter := h.counter
    have hne : s.timerCounter ≠ 0 := fun hzero => by
      rw [hzero, UInt8.toNat_zero] at hcounter
      omega
    rw [perform_stopTimer hne]
    refine ⟨timed.erase ctx, h.change hrunning rfl hself (fun _ => ?_)
      (fun k hk => List.mem_erase_of_ne hk) (h.nodup.erase ctx) ?_⟩
    · rw [decide_eq_false (h.nodup.not_mem_erase)]
      dsimp only
      split <;> exact hfits.2
    · have hle : (1 : UInt8) ≤ s.timerCounter := UInt8.le_iff_toNat_le.mpr (hcounter ▸ hpos)
      dsimp only
      rw [UInt8.toNat_sub_of_le _ _ hle, List.length_erase_of_mem hmem, hcounter]
      rfl

/-! ## The timer -/

/-- At most one call is still to be made, and it is the one that the counter asks for. -/
inductive CallsMatch (s : ContextRun) : Prop
  | settled : s.timerCalls = [] → (s.armed = true → s.timerCounter ≠ 0) →
      (s.started = true → s.timerCounter ≠ 0 → s.armed = true) → CallsMatch s
  | toSet : s.timerCalls = [.setTimer] → s.timerCounter ≠ 0 → CallsMatch s
  | toCancel : s.timerCalls = [.cancelTimer] → s.timerCounter = 0 → CallsMatch s

theorem timerCalls_eq {ops : List ContextOp} {l₁ l₂ : List (Nat × List ContextOp)}
    (hrunning : s.running = l₁ ++ (ctx, ops) :: l₂) :
    s.timerCalls = (l₁.flatMap fun t => t.2.filter isTimerCall) ++
      (ops.filter isTimerCall ++ l₂.flatMap fun t => t.2.filter isTimerCall) := by
  rw [timerCalls, hrunning, List.flatMap_append, List.flatMap_cons]

/-- Nothing changes. -/
theorem CallsMatch.congr (h : s.CallsMatch) (hcalls : s'.timerCalls = s.timerCalls)
    (hcounter : s'.timerCounter = s.timerCounter) (harmed : s'.armed = s.armed)
    (hstarted : s'.started = s.started) : s'.CallsMatch := by
  cases h with
  | settled hnil hset hrun =>
    refine .settled (hcalls.trans hnil) ?_ ?_
    · rw [harmed, hcounter]
      exact hset
    · rw [harmed, hcounter, hstarted]
      exact hrun
  | toSet hone hne => exact .toSet (hcalls.trans hone) (hcounter ▸ hne)
  | toCancel hone hzero => exact .toCancel (hcalls.trans hone) (hcounter.trans hzero)

/-- A step that makes no such call, and does not count. -/
theorem CallsMatch.quiet {ops ops' : List ContextOp} {l₁ l₂ : List (Nat × List ContextOp)}
    (h : s.CallsMatch) (hrunning : s.running = l₁ ++ (ctx, ops) :: l₂)
    (hrunning' : s'.running = l₁ ++ (ctx, ops') :: l₂)
    (hcalls : ops'.filter isTimerCall = ops.filter isTimerCall)
    (hcounter : s'.timerCounter = s.timerCounter) (harmed : s'.armed = s.armed)
    (hstarted : s'.started = s.started) : s'.CallsMatch :=
  h.congr (by rw [timerCalls_eq hrunning, timerCalls_eq hrunning', hcalls]) hcounter harmed hstarted

/-- The counter changes and does not come from 0 or to 0: the calls that are to be made are the
same. -/
theorem CallsMatch.count (h : s.CallsMatch) (hcalls : s'.timerCalls = s.timerCalls)
    (hne : s.timerCounter ≠ 0) (hne' : s'.timerCounter ≠ 0) (harmed : s'.armed = s.armed)
    (hstarted : s'.started = s.started) : s'.CallsMatch := by
  cases h with
  | settled hnil _ hrun =>
    refine .settled (hcalls.trans hnil) (fun _ => hne') fun hs _ => ?_
    rw [harmed]
    exact hrun (hstarted ▸ hs) hne
  | toSet hone _ => exact .toSet (hcalls.trans hone) hne'
  | toCancel _ hzero => exact absurd hzero hne

/-- The call that is made was the only one. -/
theorem eq_nil_of_singleton {α : Type*} {a b : α} {l₁ l₂ : List α} (h : l₁ ++ a :: l₂ = [b]) :
    l₁ = [] ∧ a = b ∧ l₂ = [] := by
  rcases List.append_eq_singleton_iff.mp h with ⟨hl₁, hl₂⟩ | ⟨-, hl₂⟩
  · exact ⟨hl₁, (List.cons.inj hl₂).1, (List.cons.inj hl₂).2⟩
  · cases hl₂

/-- The counter leaves 0 or comes back to it: no call was still to be made, and now one is. -/
theorem timerCalls_first {ops rest : List ContextOp} {op : ContextOp}
    {l₁ l₂ : List (Nat × List ContextOp)} (hnil : s.timerCalls = [])
    (hrunning : s.running = l₁ ++ (ctx, ops) :: l₂)
    (hrunning' : s'.running = l₁ ++ (ctx, op :: rest) :: l₂) (hop : isTimerCall op = true)
    (hrest : ops.filter isTimerCall = rest.filter isTimerCall) : s'.timerCalls = [op] := by
  have hall := (timerCalls_eq hrunning).symm.trans hnil
  obtain ⟨hl₁, hall⟩ := List.append_eq_nil_iff.mp hall
  obtain ⟨hops, hl₂⟩ := List.append_eq_nil_iff.mp hall
  rw [timerCalls_eq hrunning', hl₁, hl₂, List.filter_cons_of_pos hop, ← hrest, hops]
  rfl

/-- A call is made: it was the only one. -/
theorem timerCalls_last {op b : ContextOp} {rest : List ContextOp}
    {l₁ l₂ : List (Nat × List ContextOp)} (hone : s.timerCalls = [b]) (hop : isTimerCall op = true)
    (hrunning : s.running = l₁ ++ (ctx, op :: rest) :: l₂) :
    op = b ∧ ∀ t : ContextRun, t.running = l₁ ++ (ctx, rest) :: l₂ → t.timerCalls = [] := by
  have hall := (timerCalls_eq hrunning).symm.trans hone
  rw [List.filter_cons_of_pos hop, List.cons_append] at hall
  obtain ⟨hl₁, heq, hrest⟩ := eq_nil_of_singleton hall
  refine ⟨heq, fun t ht => ?_⟩
  rw [timerCalls_eq ht, hl₁, hrest]
  rfl

theorem timerCalls_ne_nil {op : ContextOp} {rest : List ContextOp}
    {l₁ l₂ : List (Nat × List ContextOp)} (hop : isTimerCall op = true)
    (hrunning : s.running = l₁ ++ (ctx, op :: rest) :: l₂) : s.timerCalls ≠ [] := by
  rw [timerCalls_eq hrunning, List.filter_cons_of_pos hop]
  exact List.append_ne_nil_of_right_ne_nil _ (List.cons_ne_nil _ _)

/-- A step of a routine. -/
theorem CallsMatch.performed {op : ContextOp} {rest : List ContextOp}
    {l₁ l₂ : List (Nat × List ContextOp)} (h : s.CallsMatch) (hok : s.InStep (.perform ctx op))
    (hrunning : s.running = l₁ ++ (ctx, op :: rest) :: l₂) :
    CallsMatch { (s.perform ctx op).1 with
      running := l₁ ++ (ctx, (s.perform ctx op).2 ++ rest) :: l₂ } := by
  have hsame : ∀ {t : ContextRun}, t.running = l₁ ++ (ctx, rest) :: l₂ → isTimerCall op = false →
      t.timerCalls = s.timerCalls := by
    intro t ht hop
    rw [timerCalls_eq hrunning, timerCalls_eq ht,
      List.filter_cons_of_neg (by rw [hop]; exact Bool.false_ne_true)]
  cases op with
  | exchange | retype | reference | dereference | setRing | shareRing | assertNoRing | readType
    | queueAccept | queueAck | cancelWrites => exact h.quiet hrunning rfl rfl rfl rfl rfl
  | startTimer =>
    rw [perform_startTimer]
    by_cases hzero : s.timerCounter = 0
    · have hone : s.timerCounter + 1 = 1 := by rw [hzero]; rfl
      rw [if_pos hone]
      refine .toSet (timerCalls_first (hok.2 hzero) hrunning rfl rfl rfl) ?_
      dsimp only
      rw [hone]
      decide
    · have hone : s.timerCounter + 1 ≠ 1 := by grind
      have hne : s.timerCounter + 1 ≠ 0 := by grind [hok.1]
      rw [if_neg hone]
      exact h.count (hsame rfl rfl) hzero hne rfl rfl
  | stopTimer =>
    by_cases hzero : s.timerCounter = 0
    · rw [perform, if_pos hzero]
      exact h.quiet hrunning rfl rfl rfl rfl rfl
    rw [perform_stopTimer hzero]
    by_cases hone : s.timerCounter = 1
    · have hnone : s.timerCounter - 1 = 0 := by rw [hone]; rfl
      rw [if_pos hnone]
      exact .toCancel (timerCalls_first (hok hone) hrunning rfl rfl rfl) hnone
    · have hne : s.timerCounter - 1 ≠ 0 := by grind
      rw [if_neg hne]
      exact h.count (hsame rfl rfl) hzero hne rfl rfl
  | setTimer =>
    cases h with
    | settled hnil => exact absurd hnil (timerCalls_ne_nil rfl hrunning)
    | toSet hone hne =>
      exact .settled ((timerCalls_last hone rfl hrunning).2 _ rfl) (fun _ => hne) fun _ _ => rfl
    | toCancel hone => cases (timerCalls_last hone rfl hrunning).1
  | cancelTimer =>
    cases h with
    | settled hnil => exact absurd hnil (timerCalls_ne_nil rfl hrunning)
    | toSet hone => cases (timerCalls_last hone rfl hrunning).1
    | toCancel hone hzero =>
      exact .settled ((timerCalls_last hone rfl hrunning).2 _ rfl) (fun hset => Bool.noConfusion hset)
        fun _ hne => absurd hzero hne

/-! ## Runs -/

/-- The counter and the timer are as they should be, up to what the routines still do. -/
structure TimerInv (s : ContextRun) : Prop where
  counted : ∃ timed, s.Counted timed
  calls : s.CallsMatch
  distinct : s.created.Nodup
  targets : ∀ t ∈ s.running, t.1 ∈ s.created
  fresh : ∀ ctx, ctx ∉ s.created → (s.contexts ctx).state ≠ .connecting

theorem TimerInv.start (h : s.Start) : s.TimerInv := by
  subst h
  have hunarmed : false = true → (0 : UInt8) ≠ 0 := Bool.noConfusion
  exact ⟨⟨[], ⟨List.nodup_nil, List.forall_mem_nil _, fun _ _ => rfl⟩, List.nodup_nil, rfl⟩,
    .settled rfl hunarmed fun hs => Bool.noConfusion hs, List.nodup_nil, List.forall_mem_nil _,
    fun _ _ => FileState.noConfusion⟩

/-- No routine begins with a call for the timer. -/
theorem filter_steps (contexts : Nat → StateContext) (r : Routine) :
    (r.steps contexts).filter isTimerCall = [] := by
  cases r with
  | ctrlInitializeFile ctx kev => cases kev <;> rfl
  | ctrlBind ctx robj =>
    cases robj <;>
    · rw [Routine.steps]
      split <;> rfl
  | ctrlListen | ctrlDisconnect | preConnectAck | preConnectSyn | disconnectStreamAndSignal
    | completeCanceledIrp | dispatchCleanup =>
    rw [Routine.steps]
    split <;> rfl
  | ctrlConnect ctx queued | ctrlConnectWait ctx queued =>
    rw [Routine.steps]
    split
    · rfl
    · cases queued <;> rfl
  | ctrlAccept ctx actx kev queued =>
    cases kev <;>
    · rw [Routine.steps]
      split
      · rfl
      · cases queued <;> rfl
  | doAccept ctx actx acked => cases acked <;> rfl
  | doWriteAck => rfl

/-- A routine starts. -/
theorem TimerInv.begin {r : Routine} (h : s.TimerInv) (hok : s.InStep (.begin r))
    (hcreated : r.target ∈ s.created) : (s.start r).TimerInv := by
  obtain ⟨timed, hcounted⟩ := h.counted
  obtain ⟨opened, acceptIrps, ackIrps, htaken⟩ := s.taken_eq r
  rw [ContextRun.start, htaken]
  split
  · exact ⟨⟨timed, hcounted.owned, hcounted.nodup, hcounted.counter⟩,
      h.calls.congr rfl rfl rfl rfl, h.distinct, h.targets, h.fresh⟩
  · next hne =>
    have howned := hcounted.owned.begin (hok hne).1 fun hcounted => counts_steps hok hne hcounted
    refine ⟨⟨timed, howned, hcounted.nodup, hcounted.counter⟩, h.calls.congr ?_ rfl rfl rfl,
      h.distinct, ?_, h.fresh⟩
    · rw [timerCalls_eq rfl, filter_steps, timerCalls]
      exact List.append_nil _
    · rw [List.forall_mem_append, List.forall_mem_singleton]
      exact ⟨h.targets, hcreated⟩

/-- Only the context that a routine works on changes. -/
theorem perform_contexts (s : ContextRun) (ctx : Nat) (op : ContextOp) :
    (s.perform ctx op).1.created = s.created ∧
      ∀ k ≠ ctx, (s.perform ctx op).1.contexts k = s.contexts k := by
  cases op with
  | exchange | retype | reference | dereference | setRing | shareRing =>
    exact ⟨rfl, fun k hk => Function.update_of_ne hk ..⟩
  | stopTimer =>
    rw [perform]
    split <;> exact ⟨rfl, fun _ _ => rfl⟩
  | _ => exact ⟨rfl, fun _ _ => rfl⟩

/-- **A step** that meets the condition keeps the invariant. -/
theorem TimerInv.step (h : s.TimerInv) (hok : s.InStep a) (hs : Step s a s') : s'.TimerInv := by
  obtain ⟨timed, hcounted⟩ := h.counted
  cases hs with
  | @create ctx hnew =>
    refine ⟨⟨timed, hcounted.owned, hcounted.nodup, hcounted.counter⟩, h.calls.congr rfl rfl rfl rfl,
      List.nodup_cons.mpr ⟨hnew, h.distinct⟩, fun t ht => List.mem_cons_of_mem _ (h.targets t ht),
      fun k hk => h.fresh k fun hmem => hk (List.mem_cons_of_mem _ hmem)⟩
  | begin hcreated _ => exact h.begin hok hcreated
  | @perform ctx op rest l₁ l₂ hrunning =>
    obtain ⟨hcreated, hothers⟩ := s.perform_contexts ctx op
    have htarget : ctx ∈ s.created :=
      h.targets (ctx, op :: rest) (hrunning ▸ List.mem_append_right _ List.mem_cons_self)
    refine ⟨hcounted.performed hok hrunning, h.calls.performed hok hrunning, ?_, ?_, ?_⟩
    · exact hcreated.symm ▸ h.distinct
    · intro t ht
      dsimp only at ht ⊢
      rw [hcreated]
      rcases List.mem_append.mp ht with ht | ht
      · exact h.targets t (hrunning ▸ List.mem_append_left _ ht)
      rcases List.mem_cons.mp ht with rfl | ht
      · exact htarget
      · exact h.targets t (hrunning ▸ List.mem_append_right _ (List.mem_cons_of_mem _ ht))
    · intro k hk
      dsimp only at hk ⊢
      rw [hcreated] at hk
      have hne : k ≠ ctx := fun heq => hk (heq ▸ htarget)
      rw [hothers k hne]
      exact h.fresh k hk
  | @finish ctx l₁ l₂ hrunning =>
    have howned := hcounted.owned
    rw [hrunning] at howned
    refine ⟨⟨timed, howned.finish, hcounted.nodup, hcounted.counter⟩,
      h.calls.congr ?_ rfl rfl rfl, h.distinct, fun t ht => h.targets t ?_, h.fresh⟩
    · rw [timerCalls_eq hrunning, timerCalls, List.flatMap_append]
      rfl
    · rw [hrunning]
      exact ((List.sublist_cons_self _ l₂).append_left l₁).subset ht
  | stopDevice =>
    refine ⟨⟨timed, hcounted.owned, hcounted.nodup, hcounted.counter⟩, ?_, h.distinct, h.targets,
      h.fresh⟩
    cases h.calls with
    | settled hnil =>
      exact .settled hnil (fun hs => Bool.noConfusion hs) fun hs => Bool.noConfusion hs
    | toSet hone hne => exact .toSet hone hne
    | toCancel hone hzero => exact .toCancel hone hzero
  | startDevice =>
    refine ⟨⟨timed, hcounted.owned, hcounted.nodup, hcounted.counter⟩, ?_, h.distinct, h.targets,
      h.fresh⟩
    cases h.calls with
    | settled hnil hset => exact .settled hnil hset fun _ => hok
    | toSet hone hne => exact .toSet hone hne
    | toCancel hone hzero => exact .toCancel hone hzero

/-- Between operations the contexts that are counted are those that are CONNECTING. -/
theorem Counted.length (h : s.Counted timed) (hdistinct : s.created.Nodup)
    (hfresh : ∀ ctx, ctx ∉ s.created → (s.contexts ctx).state ≠ .connecting)
    (hidle : s.running = []) : timed.length = s.connecting := by
  have howned := h.owned
  rw [hidle] at howned
  have hiff : ∀ ctx, ctx ∈ timed ↔ (s.contexts ctx).state = .connecting := fun ctx =>
    decide_eq_decide.mp (howned.settled ctx)
  rw [connecting, List.countP_eq_length_filter]
  refine List.Perm.length_eq ((List.perm_ext_iff_of_nodup h.nodup (hdistinct.filter _)).mpr ?_)
  intro ctx
  rw [List.mem_filter, hiff, decide_eq_true_iff]
  exact ⟨fun hstate => ⟨not_not.mp fun hnot => hfresh ctx hnot hstate, hstate⟩, And.right⟩

/-- **The timer is right** in every state of a run whose steps meet the condition. -/
theorem accounted_of_inStep (h : Reachable Start Step InStep s) : s.Accounted := by
  have hinv : s.TimerInv := h.invariant (fun _ hs => .start hs) fun _ _ _ ht hok hs => ht.step hok hs
  obtain ⟨timed, hcounted⟩ := hinv.counted
  intro hidle
  have hcounter := hcounted.counter.trans (hcounted.length hinv.distinct hinv.fresh hidle)
  refine ⟨hcounter, fun hstarted => ?_⟩
  have hpos : 0 < s.connecting ↔ s.timerCounter ≠ 0 := by
    rw [← hcounter, Nat.pos_iff_ne_zero, ← UInt8.toNat_zero, Ne, UInt8.toNat_inj]
  have hnil : s.timerCalls = [] := by
    rw [timerCalls, hidle]
    rfl
  rw [hpos]
  cases hinv.calls with
  | settled _ hset hrun => exact ⟨hset, hrun hstarted⟩
  | toSet hone => cases hnil.symm.trans hone
  | toCancel hone => cases hnil.symm.trans hone

/-! ## One routine after the other -/

/-- How far the counter can come. -/
theorem perform_count {op : ContextOp} {ops : List ContextOp}
    (h : s.timerCounter.toNat + (op :: ops).count .startTimer ≤ 255) :
    (s.perform ctx op).1.timerCounter.toNat + ops.count .startTimer ≤ 255 := by
  cases op with
  | startTimer =>
    rw [List.count_cons_self] at h
    rw [perform_startTimer]
    dsimp only
    rw [UInt8.toNat_add, UInt8.toNat_one]
    omega
  | stopTimer =>
    rw [List.count_cons_of_ne ContextOp.noConfusion] at h
    by_cases hzero : s.timerCounter = 0
    · rw [perform, if_pos hzero]
      exact h
    · have hpos : s.timerCounter.toNat ≠ 0 := fun heq => hzero (UInt8.toNat_inj.mp heq)
      have hle : (1 : UInt8) ≤ s.timerCounter :=
        UInt8.le_iff_toNat_le.mpr (Nat.one_le_iff_ne_zero.mpr hpos)
      rw [perform_stopTimer hzero]
      dsimp only
      rw [UInt8.toNat_sub_of_le _ _ hle, UInt8.toNat_one]
      omega
  | _ =>
    rw [List.count_cons_of_ne ContextOp.noConfusion] at h
    exact h

/-- What a step puts in front of the others meets the condition. -/
theorem reachable_front {more rest : List ContextOp}
    (hmore : ∀ op' ∈ more, op' = .setTimer ∨ op' = .cancelTimer ∨ ∃ new, op' = .exchange new)
    (h : Reachable Start Step InStep { s with running := [(ctx, more ++ rest)] }) :
    Reachable Start Step InStep { more.foldl (fun s op => (s.perform ctx op).1) s with
        running := [(ctx, rest)] } ∧
      (more.foldl (fun s op => (s.perform ctx op).1) s).timerCounter = s.timerCounter := by
  induction more generalizing s with
  | nil => exact ⟨h, rfl⟩
  | cons op' more ih =>
    have hstep := step_last s [] ctx op' (more ++ rest)
    have hrest := fun op'' hop'' => hmore op'' (List.mem_cons_of_mem _ hop'')
    have hok : InStep { s with running := [(ctx, op' :: (more ++ rest))] } (.perform ctx op') := by
      rcases hmore op' List.mem_cons_self with rfl | rfl | ⟨new, rfl⟩ <;> exact trivial
    have hnone : (s.perform ctx op').2 = [] ∧
        (s.perform ctx op').1.timerCounter = s.timerCounter := by
      rcases hmore op' List.mem_cons_self with rfl | rfl | ⟨new, rfl⟩ <;> exact ⟨rfl, rfl⟩
    rw [hnone.1] at hstep
    obtain ⟨hreach, hsame⟩ := ih hrest (.next h hok hstep)
    exact ⟨hreach, hsame.trans hnone.2⟩

/-- The steps of a routine meet the condition when no other routine runs. -/
theorem reachable_performAll_inStep {ops : List ContextOp}
    (h : Reachable Start Step InStep { s with running := [(ctx, ops)] })
    (hcalls : ops.filter isTimerCall = [])
    (hcount : s.timerCounter.toNat + ops.count .startTimer ≤ 255) :
    Reachable Start Step InStep { s.performAll ctx ops with running := [(ctx, [])] } := by
  induction ops generalizing s with
  | nil => exact h
  | cons op ops ih =>
    have hnone : timerCalls { s with running := [(ctx, op :: ops)] } = [] := by
      rw [timerCalls, List.flatMap_singleton]
      exact hcalls
    have hok : InStep { s with running := [(ctx, op :: ops)] } (.perform ctx op) := by
      cases op with
      | startTimer =>
        refine ⟨fun heq => ?_, fun _ => hnone⟩
        rw [List.count_cons_self] at hcount
        dsimp only at heq
        rw [heq] at hcount
        exact absurd hcount (by simp)
      | stopTimer => exact fun _ => hnone
      | _ => trivial
    have hstep := step_last s [] ctx op ops
    obtain ⟨hfront, hsame⟩ := reachable_front (fun _ hop' => perform_front hop') (.next h hok hstep)
    refine ih hfront ?_ ?_
    · exact List.sublist_nil.mp (hcalls ▸ (List.sublist_cons_self op ops).filter isTimerCall)
    · dsimp only
      rw [hsame]
      exact perform_count hcount

/-- **Routines that do not overlap** meet the condition, as long as they look at the state, no IRP of
a connector that is CONNECTING is cancelled, and there is room in the counter. -/
theorem reachable_call_inStep {r : Routine} (h : Reachable Start Step InStep s) (hidle : s.running = [])
    (hcreated : r.target ∈ s.created) (henabled : s.enabled r) (hok : s.InStep (.begin r))
    (hcount : s.timerCounter.toNat + (r.steps s.contexts).count .startTimer ≤ 255) :
    Reachable Start Step InStep (s.call r) := by
  have hbegin := Reachable.next h hok (.begin hcreated henabled)
  obtain ⟨opened, acceptIrps, ackIrps, htaken⟩ := s.taken_eq r
  have hrunning : (s.call r).running = [] :=
    (performAll_running _ _ _).trans ((s.taken_running r).trans hidle)
  rw [start] at hbegin
  split at hbegin
  · next hnil =>
    rw [call, hnil]
    exact hbegin
  · rw [hidle] at hbegin
    have hcounter : (s.taken r).timerCounter = s.timerCounter := by rw [htaken]
    have hall := reachable_performAll_inStep hbegin (filter_steps s.contexts r) (hcounter.symm ▸ hcount)
    have hend := Reachable.next (i := ContextAct.finish r.target) hall trivial
      (step_finish (s.call r) [] r.target)
    rw [← hrunning] at hend
    exact hend

/-- The device is started, and there is one context. -/
def opening : ContextRun := ⟨fun _ => .fresh, [0], [0], [], [], [], 0, false, true, []⟩

/-- It has been initialized and bound. -/
def binding : ContextRun :=
  (opening.call (.ctrlInitializeFile 0 (some 5))).call (.ctrlBind 0 (some 9))

theorem reachable_binding : Reachable Start Step InStep binding := by
  have hstarted : Reachable Start Step InStep _ := .next (i := ContextAct.startDevice) (.start rfl)
    (fun hne => absurd rfl hne) .startDevice
  have hopening : Reachable Start Step InStep opening := .next (i := ContextAct.create 0) hstarted
    trivial (.create List.not_mem_nil)
  have hinitialized := reachable_call_inStep (r := .ctrlInitializeFile 0 (some 5)) hopening rfl
    List.mem_cons_self List.mem_cons_self (fun _ => ⟨List.not_mem_nil, FileState.noConfusion⟩)
    (by decide)
  exact reachable_call_inStep (r := .ctrlBind 0 (some 9)) hinitialized rfl List.mem_cons_self
    List.mem_cons_self (fun _ => ⟨List.not_mem_nil, trivial⟩) (by decide)

/-- The timer runs when a context is CONNECTING. -/
theorem accounted_of_inStep_connecting : ∃ s : ContextRun, s.running = [] ∧ s.connecting = 1 ∧
    s.timerCounter = 1 ∧ s.armed = true ∧ s.Accounted := by
  have hconnecting := reachable_call_inStep (r := .ctrlConnect 0 true) reachable_binding rfl
    List.mem_cons_self List.mem_cons_self (fun _ => ⟨List.not_mem_nil, trivial⟩) (by decide)
  exact ⟨_, rfl, rfl, rfl, rfl, accounted_of_inStep hconnecting⟩

/-- It is stopped when an IRP is cancelled, though the context stays CONNECTING. -/
theorem cancelled_not_accounted : ¬ ∀ s : ContextRun,
    Reachable Start Step (fun _ _ => True) s → s.Accounted := by
  intro h
  have hbinding := reachable_binding.mono fun _ _ _ => trivial
  have hconnect : From Step binding (binding.call (.ctrlConnect 0 true)) :=
    from_call List.mem_cons_self List.mem_cons_self
  have hcancel : From Step (binding.call (.ctrlConnect 0 true)) _ :=
    from_call (r := .completeCanceledIrp 0 .other) List.mem_cons_self trivial
  have hcounter := (h _ (hbinding.trans (hconnect.trans hcancel)) rfl).1
  have hzero : (0 : Nat) = 1 := hcounter
  cases hzero

end ContextRun

end V4v.Windows
