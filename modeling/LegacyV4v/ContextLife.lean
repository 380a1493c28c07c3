import LegacyV4v.ContextStates

/-! # The life of a context

A context is initialized once and bound once, and at the end it is closed for good: so the guards of
the control routines want it.  `V4vCtrlInitializeFile` has no guard, and `V4vCtrlAccept` none for the
accepter; the exchanges are unconditional, and whoever has read a state that another routine has
changed since writes over it.

A context whose routines come one after the other, and that is initialized when it is new only, goes
the way that it should. -/
namespace V4v.Windows
open GuardedRun RoutineOwnership

/-- A CLOSED context stays CLOSED, one that is DISCONNECTED can only be closed, none becomes
UNINITIALIZED again, and only one that is UNINITIALIZED becomes IDLE. -/
def LawfulMove (old new : FileState) : Prop :=
  (old = .closed → new = .closed) ∧ (old = .disconnected → new = .disconnected ∨ new = .closed) ∧
    new ≠ .uninitialized ∧ (new = .idle → old = .uninitialized)

instance (old new : FileState) : Decidable (LawfulMove old new) := by
  unfold LawfulMove
  infer_instance

/-- A lawful exchange; no reference is overwritten, and `ASSERT(ctx->ringObject == NULL)` holds. -/
def ContextEvent.Lawful : ContextEvent → Prop
  | .moved _ old new => LawfulMove old new
  | .tookRing _ held _ | .tookEvent _ held | .assertedNoRing _ held => held = none

/-- The context gets a ring. -/
def ContextEvent.isRingOf (ctx : Nat) : ContextEvent → Bool
  | .tookRing ctx' _ new => ctx' == ctx && new.isSome
  | _ => false

namespace ContextRun
variable {s s' : ContextRun} {a : ContextAct} {ctx : Nat}

/-- All that has happened was lawful, and no context has got two rings. -/
def Lawful (s : ContextRun) : Prop :=
  (∀ e ∈ s.log, e.Lawful) ∧ ∀ ctx, s.log.countP (ContextEvent.isRingOf ctx) ≤ 1

/-- A routine that has something to do does not start while another works on its context; a file is
initialized, or made an accepter, when it is UNINITIALIZED; an accept is completed when the accepter
is ACCEPTING, the ACK of a waiter is written when it is WAITING; a CLOSED context is not disconnected;
and a listener is not cleaned up when it is DISCONNECTED or CLOSED. -/
def InOrder (s : ContextRun) : ContextAct → Prop
  | .begin r => r.steps s.contexts ≠ [] → r.target ∉ s.running.map Prod.fst ∧
      match r with
      | .ctrlInitializeFile ctx (some _) | .ctrlAccept _ ctx (some _) _ =>
        (s.contexts ctx).state = .uninitialized
      | .doAccept _ actx _ => (s.contexts actx).state = .accepting
      | .doWriteAck ctx => (s.contexts ctx).state = .waiting
      | .disconnectStreamAndSignal ctx => (s.contexts ctx).state ≠ .closed
      | .dispatchCleanup ctx => (s.contexts ctx).state = .disconnected ∨
          (s.contexts ctx).state = .closed → (s.contexts ctx).type ≠ .listener
      | _ => True
  | _ => True

/-! ## What is left of a routine -/

/-- A new context holds no event, and it holds no ring before it is bound. -/
def Sane (x : StateContext) : Prop :=
  (x.state = .uninitialized → x.kevReceive = none) ∧
    (x.state = .uninitialized ∨ x.state = .idle → x.ringObject = none)

/-- What is left of a routine does only what is lawful. -/
def Obeys : List ContextOp → StateContext → Prop
  | [], x => Sane x
  | .exchange new :: ops, x => LawfulMove x.state new ∧ Obeys ops { x with state := new }
  | .retype new :: ops, x => Obeys ops { x with type := new }
  | .reference kev :: ops, x => x.kevReceive = none ∧ Obeys ops { x with kevReceive := some kev }
  | .dereference :: ops, x => Obeys ops { x with kevReceive := none }
  | .assertNoRing :: ops, x => x.ringObject = none ∧ Obeys ops x
  | .setRing robj :: ops, x => x.ringObject = none ∧ Obeys ops { x with ringObject := some robj }
  | .shareRing _ :: ops, x =>
    x.ringObject = none ∧ ∀ robj, Obeys ops { x with ringObject := robj }
  | .readType :: ops, x =>
    LawfulMove x.state (closing x.type) ∧ Obeys ops { x with state := closing x.type }
  | _ :: ops, x => Obeys ops x

theorem sane_of_state {x : StateContext} (hnew : x.state ≠ .uninitialized) (hidle : x.state ≠ .idle) :
    Sane x :=
  ⟨fun h => absurd h hnew, fun h => absurd h (not_or.mpr ⟨hnew, hidle⟩)⟩

/-- A context that is in `old` is moved on. -/
theorem obeys_exchange {x : StateContext} {old new : FileState} {ops : List ContextOp}
    (hstate : x.state = old) (hmove : LawfulMove old new) (h : Obeys ops { x with state := new }) :
    Obeys (.exchange new :: ops) x :=
  ⟨hstate ▸ hmove, h⟩

theorem lawfulMove_closing {x : StateContext}
    (h : x.state = .disconnected ∨ x.state = .closed → x.type ≠ .listener) :
    LawfulMove x.state (closing x.type) := by
  unfold closing
  split
  · next htype =>
    have hstate := not_or.mp fun hor => h hor htype
    exact ⟨fun hclosed => absurd hclosed hstate.2, fun hdisc => absurd hdisc hstate.1, by decide,
      fun hidle => FileState.noConfusion hidle⟩
  · exact ⟨fun _ => rfl, fun _ => .inr rfl, by decide, fun hidle => FileState.noConfusion hidle⟩

theorem sane_closing {x : StateContext} (type : FileType) :
    Sane { x with state := closing type } := by
  refine sane_of_state ?_ ?_ <;>
  · unfold closing
    dsimp only
    split <;> exact FileState.noConfusion

/-- Every routine does, from its start. -/
theorem obeys_steps {r : Routine} (hok : s.InOrder (.begin r)) (hne : r.steps s.contexts ≠ [])
    (h : Sane (s.contexts r.target)) : Obeys (r.steps s.contexts) (s.contexts r.target) := by
  have hbegin := (hok hne).2
  have hlate : ∀ {x : StateContext} {new : FileState}, new ≠ .uninitialized → new ≠ .idle →
      Sane { x with state := new } := fun hnew hidle => sane_of_state hnew hidle
  cases r with
  | ctrlInitializeFile ctx kev =>
    cases kev with
    | none => exact ⟨fun _ => rfl, h.2⟩
    | some kev =>
      have hring := h.2 (.inl hbegin)
      exact ⟨h.1 hbegin, obeys_exchange hbegin (by decide)
        ⟨fun h => FileState.noConfusion h, fun _ => hring⟩⟩
  | ctrlBind ctx robj =>
    cases robj with
    | none =>
      rw [Routine.steps]
      split
      · exact h
      · next hidle => exact ⟨h.2 (.inr (not_not.mp hidle)), h⟩
    | some robj =>
      rw [Routine.steps]
      split
      · exact h
      · next hidle =>
        have hring := h.2 (.inr (not_not.mp hidle))
        exact ⟨hring, hring, obeys_exchange (not_not.mp hidle) (by decide)
          (hlate (by decide) (by decide))⟩
  | ctrlListen ctx ok =>
    rw [Routine.steps]
    split
    · exact h
    · next hbound =>
      exact obeys_exchange (not_not.mp (not_or.mp hbound).1) (by decide)
        (hlate (by decide) (by decide))
  | ctrlConnect ctx queued | ctrlConnectWait ctx queued =>
    rw [Routine.steps]
    split
    · exact h
    · next hbound =>
      cases queued with
      | true => exact obeys_exchange (not_not.mp hbound) (by decide) (hlate (by decide) (by decide))
      | false =>
        refine obeys_exchange (not_not.mp hbound) (by decide) ⟨?_, hlate (by decide) (by decide)⟩
        dsimp only
        decide
  | ctrlAccept ctx actx kev queued =>
    cases kev with
    | none =>
      rw [Routine.steps]
      split
      · exact h
      · exact ⟨fun _ => rfl, h.2⟩
    | some kev =>
      rw [Routine.steps]
      split
      · exact h
      · -- the accepter is initialized, gets the ring of the listener, and waits for a SYN
        have hring := h.2 (.inl hbegin)
        refine ⟨h.1 hbegin, obeys_exchange hbegin (by decide) ⟨hring, fun robj => ?_⟩⟩
        refine ⟨(by decide : LawfulMove .idle .accepting), ?_⟩
        cases queued <;> exact hlate (by decide) (by decide)
  | ctrlDisconnect ctx =>
    rw [Routine.steps]
    split
    · next hstate =>
      rcases hstate with hstate | hstate
      · exact obeys_exchange hstate (by decide) (hlate (by decide) (by decide))
      · exact obeys_exchange hstate (by decide) (hlate (by decide) (by decide))
    · exact h
  | doAccept ctx actx acked =>
    cases acked with
    | true => exact obeys_exchange hbegin (by decide) (hlate (by decide) (by decide))
    | false =>
      exact obeys_exchange hbegin (by decide)
        ⟨(by decide : LawfulMove .accepted .disconnected), hlate (by decide) (by decide)⟩
  | doWriteAck ctx => exact obeys_exchange hbegin (by decide) (hlate (by decide) (by decide))
  | preConnectSyn ctx =>
    rw [Routine.steps]
    split <;> exact h
  | preConnectAck ctx =>
    rw [Routine.steps]
    split
    · next hstate => exact obeys_exchange hstate (by decide) (hlate (by decide) (by decide))
    · exact h
  | completeCanceledIrp ctx irp =>
    rw [Routine.steps]
    split <;> exact h
  | disconnectStreamAndSignal ctx =>
    have hmove : LawfulMove (s.contexts ctx).state .disconnected :=
      ⟨fun hclosed => absurd hclosed hbegin, fun _ => .inl rfl, by decide,
        fun hidle => FileState.noConfusion hidle⟩
    rw [Routine.steps]
    split <;> exact ⟨hmove, hlate (by decide) (by decide)⟩
  | dispatchCleanup ctx =>
    rw [Routine.steps]
    split <;> exact ⟨lawfulMove_closing hbegin, sane_closing _⟩

/-! ## Runs -/

/-- What has happened was lawful, what is left will be, and a ring that was got is held. -/
structure LifeInv (s : ContextRun) : Prop where
  owned : Owned Obeys s.running s.contexts
  lawful : ∀ e ∈ s.log, e.Lawful
  rings : ∀ ctx, s.log.countP (ContextEvent.isRingOf ctx) ≤ 1 ∧
    ((s.contexts ctx).ringObject = none → s.log.countP (ContextEvent.isRingOf ctx) = 0)

theorem LifeInv.start (h : s.Start) : s.LifeInv := by
  subst h
  exact ⟨⟨List.nodup_nil, List.forall_mem_nil _, fun _ _ => ⟨fun _ => rfl, fun _ => rfl⟩⟩,
    List.forall_mem_nil _, fun _ => ⟨Nat.zero_le 1, fun _ => rfl⟩⟩

/-- No ring is got, or the first one. -/
inductive RingChange (ctx : Nat) (x x' : StateContext) (events : List ContextEvent) : Prop
  | same : x'.ringObject = x.ringObject → (∀ k, ∀ e ∈ events, e.isRingOf k = false) →
      RingChange ctx x x' events
  | first (new : Option Nat) : x.ringObject = none → x'.ringObject = new →
      events = [.tookRing ctx none new] → RingChange ctx x x' events

/-- A routine changes its context. -/
theorem LifeInv.change {ops ops' : List ContextOp} {l₁ l₂ : List (Nat × List ContextOp)}
    {x : StateContext} (events : List ContextEvent) (h : s.LifeInv)
    (hrunning : s.running = l₁ ++ (ctx, ops) :: l₂)
    (hrunning' : s'.running = l₁ ++ (ctx, ops') :: l₂)
    (hcontexts : s'.contexts = Function.update s.contexts ctx x) (hlog : s'.log = events ++ s.log)
    (hfits : Obeys ops (s.contexts ctx) → Obeys ops' x)
    (hlawful : Obeys ops (s.contexts ctx) → ∀ e ∈ events, e.Lawful)
    (hrings : Obeys ops (s.contexts ctx) → RingChange ctx (s.contexts ctx) x events) :
    s'.LifeInv := by
  have hops : Obeys ops (s.contexts ctx) :=
    h.owned.busy (ctx, ops) (hrunning ▸ List.mem_append_right _ List.mem_cons_self)
  have howned := h.owned
  rw [hrunning] at howned
  refine ⟨?_, ?_, fun k => ?_⟩
  · rw [hrunning', hcontexts]
    refine howned.exec (fun hops => ?_) fun k hk => Function.update_of_ne hk ..
    rw [Function.update_self]
    exact hfits hops
  · rw [hlog, List.forall_mem_append]
    exact ⟨hlawful hops, h.lawful⟩
  · obtain ⟨hle, hzero⟩ := h.rings k
    rw [hlog, hcontexts, List.countP_append]
    cases hrings hops with
    | same hring hnone =>
      have hcount : events.countP (ContextEvent.isRingOf k) = 0 :=
        List.countP_eq_zero.mpr fun e he => by rw [hnone k e he]; exact Bool.false_ne_true
      rw [hcount, Nat.zero_add]
      refine ⟨hle, fun hheld => hzero ?_⟩
      by_cases heq : k = ctx
      · rw [heq, Function.update_self, hring] at hheld
        rw [heq, hheld]
      · rw [Function.update_of_ne heq] at hheld
        exact hheld
    | first new hheld hnew hevents =>
      subst hevents
      by_cases heq : k = ctx
      · subst heq
        rw [hzero hheld, Function.update_self, hnew]
        cases new with
        | none =>
          have hcount : [ContextEvent.tookRing k none none].countP (ContextEvent.isRingOf k) = 0 := by
            simp [ContextEvent.isRingOf]
          rw [hcount]
          exact ⟨Nat.zero_le 1, fun _ => rfl⟩
        | some robj => exact ⟨List.countP_le_length, fun hnone => by cases hnone⟩
      · have hother : ContextEvent.isRingOf k (.tookRing ctx none new) = false := by
          rw [ContextEvent.isRingOf, beq_eq_false_iff_ne.mpr (Ne.symm heq), Bool.false_and]
        rw [List.countP_singleton, hother, if_neg Bool.false_ne_true, Nat.zero_add,
          Function.update_of_ne heq]
        exact ⟨hle, hzero⟩

/-- A step of a routine. -/
theorem LifeInv.performed {op : ContextOp} {rest : List ContextOp} {l₁ l₂ : List (Nat × List ContextOp)}
    (h : s.LifeInv) (hrunning : s.running = l₁ ++ (ctx, op :: rest) :: l₂) :
    LifeInv { (s.perform ctx op).1 with
      running := l₁ ++ (ctx, (s.perform ctx op).2 ++ rest) :: l₂ } := by
  have hself := (Function.update_eq_self ctx s.contexts).symm
  have hsame : ∀ {e : ContextEvent} {x : StateContext},
      x.ringObject = (s.contexts ctx).ringObject → (∀ k, e.isRingOf k = false) →
      RingChange ctx (s.contexts ctx) x [e] := fun hring he =>
    .same hring fun k => List.forall_mem_singleton.mpr (he k)
  cases op with
  | exchange new =>
    exact h.change [.moved ctx _ new] hrunning rfl rfl rfl And.right
      (fun hobeys => List.forall_mem_singleton.mpr hobeys.1) fun _ => hsame rfl fun _ => rfl
  | retype | dereference =>
    exact h.change [] hrunning rfl rfl rfl id (fun _ => List.forall_mem_nil _) fun _ =>
      .same rfl fun _ => List.forall_mem_nil _
  | reference kev =>
    exact h.change [.tookEvent ctx _] hrunning rfl rfl rfl And.right
      (fun hobeys => List.forall_mem_singleton.mpr hobeys.1) fun _ => hsame rfl fun _ => rfl
  | assertNoRing =>
    exact h.change [.assertedNoRing ctx _] hrunning rfl hself rfl And.right
      (fun hobeys => List.forall_mem_singleton.mpr hobeys.1) fun _ => hsame rfl fun _ => rfl
  | setRing robj =>
    exact h.change [.tookRing ctx _ _] hrunning rfl rfl rfl And.right
      (fun hobeys => List.forall_mem_singleton.mpr hobeys.1)
      fun hobeys => .first (some robj) hobeys.1 rfl (by rw [hobeys.1])
  | shareRing listener =>
    exact h.change [.tookRing ctx _ _] hrunning rfl rfl rfl (fun hobeys => hobeys.2 _)
      (fun hobeys => List.forall_mem_singleton.mpr hobeys.1)
      fun hobeys => .first _ hobeys.1 rfl (by rw [hobeys.1])
  | readType | setTimer | cancelTimer | queueAccept | queueAck | cancelWrites =>
    exact h.change [] hrunning rfl hself rfl id (fun _ => List.forall_mem_nil _) fun _ =>
      .same rfl fun _ => List.forall_mem_nil _
  | startTimer =>
    refine h.change [] hrunning rfl hself rfl (fun hobeys => ?_) (fun _ => List.forall_mem_nil _)
      fun _ => .same rfl fun _ => List.forall_mem_nil _
    rw [perform_startTimer]
    dsimp only
    split <;> exact hobeys
  | stopTimer =>
    by_cases hzero : s.timerCounter = 0
    · rw [perform, if_pos hzero]
      exact h.change [] hrunning rfl hself rfl id (fun _ => List.forall_mem_nil _) fun _ =>
        .same rfl fun _ => List.forall_mem_nil _
    rw [perform_stopTimer hzero]
    refine h.change [] hrunning rfl hself rfl (fun hobeys => ?_) (fun _ => List.forall_mem_nil _)
      fun _ => .same rfl fun _ => List.forall_mem_nil _
    dsimp only
    split <;> exact hobeys

/-- A routine starts. -/
theorem LifeInv.begin {r : Routine} (h : s.LifeInv) (hok : s.InOrder (.begin r)) :
    (s.start r).LifeInv := by
  obtain ⟨opened, acceptIrps, ackIrps, htaken⟩ := s.taken_eq r
  rw [ContextRun.start, htaken]
  split
  · exact ⟨h.owned, h.lawful, h.rings⟩
  · next hne =>
    exact ⟨h.owned.begin (hok hne).1 fun hsane => obeys_steps hok hne hsane, h.lawful, h.rings⟩

/-- **A step** that meets the condition keeps the invariant. -/
theorem LifeInv.step (h : s.LifeInv) (hok : s.InOrder a) (hs : Step s a s') : s'.LifeInv := by
  cases hs with
  | begin => exact h.begin hok
  | perform hrunning => exact h.performed hrunning
  | finish hrunning =>
    have howned := h.owned
    rw [hrunning] at howned
    exact ⟨howned.finish, h.lawful, h.rings⟩
  | create | stopDevice | startDevice => exact ⟨h.owned, h.lawful, h.rings⟩

/-- **A context goes its way** in every run whose steps meet the condition. -/
theorem lawful_of_inOrder (h : Reachable Start Step InOrder s) : s.Lawful := by
  have hinv : s.LifeInv := h.invariant (fun _ hs => .start hs) fun _ _ _ ht hok hs => ht.step hok hs
  exact ⟨hinv.lawful, fun ctx => (hinv.rings ctx).1⟩

/-- A file that is initialized and bound once. -/
theorem lawful_of_inOrder_bind : ∃ s : ContextRun, (s.contexts 0).state = .bound ∧
    s.log.length = 5 ∧ s.Lawful := by
  have hcreated : Reachable Start Step InOrder _ := .next (i := ContextAct.create 0) (.start rfl)
    trivial (.create List.not_mem_nil)
  have hinitialized := hcreated.trans (reachable_call (r := .ctrlInitializeFile 0 (some 5))
    (fun _ _ _ => trivial) (fun _ _ => trivial) List.mem_cons_self List.mem_cons_self
    fun _ => ⟨List.not_mem_nil, rfl⟩)
  have hbound := hinitialized.trans (reachable_call (r := .ctrlBind 0 (some 9))
    (fun _ _ _ => trivial) (fun _ _ => trivial) List.mem_cons_self List.mem_cons_self
    fun _ => ⟨List.not_mem_nil, trivial⟩)
  exact ⟨_, rfl, rfl, lawful_of_inOrder hbound⟩

/-- It can be initialized again. -/
theorem initialized_again : ¬ ∀ s : ContextRun,
    Reachable Start Step (fun _ _ => True) s → s.Lawful := by
  intro h
  have hcreated : Reachable Start Step (fun _ _ => True) _ := .next (i := ContextAct.create 0)
    (.start rfl) trivial (.create List.not_mem_nil)
  have hinitialized := hcreated.trans
    (from_call (r := .ctrlInitializeFile 0 (some 5)) List.mem_cons_self List.mem_cons_self)
  have hbound := hinitialized.trans
    (from_call (r := .ctrlBind 0 (some 9)) List.mem_cons_self List.mem_cons_self)
  have hagain := hbound.trans
    (from_call (r := .ctrlInitializeFile 0 (some 6)) List.mem_cons_self List.mem_cons_self)
  have hmoved : LawfulMove .bound .idle := (h _ hagain).1 _ List.mem_cons_self
  exact absurd hmoved (by decide)

end ContextRun

end V4v.Windows
