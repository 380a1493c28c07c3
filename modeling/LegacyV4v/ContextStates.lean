import LegacyV4v.GuardedRun
import LegacyV4v.RoutineOwnership
import LegacyV4v.FileContext

/-! # How the state of a context changes

Some twenty places in the driver read the state of a context and exchange it afterwards, and other
routines run in between: a routine that has read the state is a list of the steps that are left, and
any routine may make the next one.  The connection timer is set and cancelled by such steps too; the
counter is changed under a lock, `KeSetTimerEx` and `KeCancelTimer` are called without it.

`XENV4V_DEV_STOPPED` is 0, so that the test of the device's state lets IOCTLs through that come when
the device is stopped. -/
namespace V4v.Windows
open GuardedRun

/-- `XENV4V_CONTEXT`: state and type, and the references to a ring and to an event. -/
structure StateContext where
  state : FileState
  type : FileType
  ringObject : Option Nat
  kevReceive : Option Nat
  deriving DecidableEq

/-- What `V4vDispatchCreate` makes. -/
def StateContext.fresh : StateContext := ⟨.uninitialized, .unspecified, none, none⟩

/-- A step of a routine: an exchange of the state or the type; a reference to the event, or its
release; the test of `ringObject`, and a ring of its own or that of a listener; the read of the type
in `V4vDispatchCleanup`; the calls for the timer; an IRP that is queued, or the purge of the queue. -/
inductive ContextOp where
  | exchange (new : FileState)
  | retype (new : FileType)
  | reference (kev : Nat)
  | dereference
  | assertNoRing
  | setRing (robj : Nat)
  | shareRing (listener : Nat)
  | readType
  | startTimer
  | stopTimer
  | setTimer
  | cancelTimer
  | queueAccept (listener : Nat)
  | queueAck
  | cancelWrites
  deriving DecidableEq

/-- What has happened to a context: an exchange of its state, a reference to a ring or an event with
what was held before, and the test that no ring is held. -/
inductive ContextEvent where
  | moved (ctx : Nat) (old new : FileState)
  | tookRing (ctx : Nat) (held new : Option Nat)
  | tookEvent (ctx : Nat) (held : Option Nat)
  | assertedNoRing (ctx : Nat) (held : Option Nat)
  deriving DecidableEq

/-- The contexts, those that were created and those whose handle is open; the routines with the
context that each works on; the accept IRPs, each with its listener and its accepter, and the waiters
whose IRP is to send the ACK; the timer; whether the device is started; and what has happened, oldest
last. -/
structure ContextRun where
  contexts : Nat → StateContext
  created : List Nat
  opened : List Nat
  running : List (Nat × List ContextOp)
  acceptIrps : List (Nat × Nat)
  ackIrps : List Nat
  timerCounter : UInt8
  armed : Bool
  started : Bool
  log : List ContextEvent

/-- A cancelled IRP: one with an accepter, that of a waiter, or another. -/
inductive CanceledIrp where
  | accept (actx : Nat)
  | ack
  | other
  deriving DecidableEq

/-- The routines, with the context, what fails or succeeds, and the ring or event they get. -/
inductive Routine where
  | ctrlInitializeFile (ctx : Nat) (kev : Option Nat)
  | ctrlBind (ctx : Nat) (robj : Option Nat)
  | ctrlListen (ctx : Nat) (ok : Bool)
  | ctrlConnect (ctx : Nat) (queued : Bool)
  | ctrlConnectWait (ctx : Nat) (queued : Bool)
  | ctrlAccept (ctx actx : Nat) (kev : Option Nat) (queued : Bool)
  | ctrlDisconnect (ctx : Nat)
  | doAccept (ctx actx : Nat) (acked : Bool)
  | preConnectAck (ctx : Nat)
  | preConnectSyn (ctx : Nat)
  | doWriteAck (ctx : Nat)
  | disconnectStreamAndSignal (ctx : Nat)
  | completeCanceledIrp (ctx : Nat) (irp : CanceledIrp)
  | dispatchCleanup (ctx : Nat)
  deriving DecidableEq

namespace Routine

/-- The context whose state the routine may change. -/
def target : Routine → Nat
  | ctrlInitializeFile ctx _ | ctrlBind ctx _ | ctrlListen ctx _ | ctrlConnect ctx _
  | ctrlConnectWait ctx _ | ctrlDisconnect ctx | preConnectAck ctx | preConnectSyn ctx
  | doWriteAck ctx | disconnectStreamAndSignal ctx | completeCanceledIrp ctx _
  | dispatchCleanup ctx => ctx
  | ctrlAccept _ actx _ _ | doAccept _ actx _ => actx

/-- `V4vCtrlInitializeFile`: if there is no reference to the event, one that is held is dropped. -/
def initializeFile : Option Nat → List ContextOp
  | some kev => [.reference kev, .exchange .idle]
  | none => [.dereference]

/-- The steps of a routine, which reads the state and the type of a context first. -/
def steps (contexts : Nat → StateContext) : Routine → List ContextOp
  | ctrlInitializeFile _ kev => initializeFile kev
  | ctrlBind ctx robj =>
    if (contexts ctx).state ≠ .idle then [] else
      .assertNoRing :: match robj with
        | some robj => [.setRing robj, .retype .datagram, .exchange .bound]
        | none => []
  | ctrlListen ctx ok =>
    if (contexts ctx).state ≠ .bound ∨ ok = false then [] else
      [.retype .listener, .exchange .listening]
  | ctrlConnect ctx queued =>
    if (contexts ctx).state ≠ .bound then [] else
      [.retype .connector, .exchange .connecting, .startTimer] ++
        if queued then [] else [.stopTimer, .exchange .disconnected]
  | ctrlConnectWait ctx queued =>
    if (contexts ctx).state ≠ .bound then [] else
      [.retype .connector, .exchange .waiting] ++
        if queued then [] else [.exchange .disconnected]
  | ctrlAccept ctx _ kev queued =>
    if (contexts ctx).state ≠ .listening then [] else
      initializeFile kev ++ match kev with
        | some _ =>
          [.shareRing ctx, .retype .accepter, .exchange .accepting] ++
            if queued then [.queueAccept ctx] else []
        | none => []
  | ctrlDisconnect ctx =>
    if (contexts ctx).state = .connected ∨ (contexts ctx).state = .accepted then
      [.exchange .disconnected]
    else []
  | doAccept _ _ acked => .exchange .accepted :: if acked then [] else [.exchange .disconnected]
  | preConnectAck ctx =>
    if (contexts ctx).state = .connecting then [.stopTimer, .exchange .connected] else []
  | preConnectSyn ctx => if (contexts ctx).state = .waiting then [.queueAck] else []
  | doWriteAck _ => [.exchange .connected]
  | disconnectStreamAndSignal ctx =>
    (if (contexts ctx).state = .connecting then [.stopTimer] else []) ++
      [.exchange .disconnected, .cancelWrites]
  | completeCanceledIrp ctx _ =>
    if (contexts ctx).type = .connector ∧ (contexts ctx).state = .connecting then [.stopTimer]
    else []
  | dispatchCleanup ctx =>
    (if (contexts ctx).state = .connecting then [.stopTimer] else []) ++ [.readType]

end Routine

namespace ContextRun
variable {s s' : ContextRun} {ctx : Nat}

def setContext (s : ContextRun) (ctx : Nat) (x : StateContext) : ContextRun :=
  { s with contexts := Function.update s.contexts ctx x }

def record (s : ContextRun) (e : ContextEvent) : ContextRun := { s with log := e :: s.log }

/-- The state to which `V4vDispatchCleanup` goes. -/
def closing (type : FileType) : FileState := if type = .listener then .passive else .closed

/-- A step of a routine, and the steps that it puts in front of the others. -/
def perform (s : ContextRun) (ctx : Nat) : ContextOp → ContextRun × List ContextOp
  | .exchange new =>
    let x := s.contexts ctx
    ((s.setContext ctx { x with state := new }).record (.moved ctx x.state new), [])
  | .retype new => (s.setContext ctx { s.contexts ctx with type := new }, [])
  | .reference kev =>
    let x := s.contexts ctx
    ((s.setContext ctx { x with kevReceive := some kev }).record (.tookEvent ctx x.kevReceive), [])
  | .dereference => (s.setContext ctx { s.contexts ctx with kevReceive := none }, [])
  | .assertNoRing => (s.record (.assertedNoRing ctx (s.contexts ctx).ringObject), [])
  | .setRing robj =>
    let x := s.contexts ctx
    ((s.setContext ctx { x with ringObject := some robj }).record
      (.tookRing ctx x.ringObject (some robj)), [])
  | .shareRing listener =>
    let x := s.contexts ctx
    let robj := (s.contexts listener).ringObject
    ((s.setContext ctx { x with ringObject := robj }).record (.tookRing ctx x.ringObject robj), [])
  | .readType => (s, [.exchange (closing (s.contexts ctx).type)])
  | .startTimer =>
    let count := s.timerCounter + 1
    ({ s with timerCounter := count }, if count = 1 then [.setTimer] else [])
  | .stopTimer =>
    if s.timerCounter = 0 then (s, []) else
      let count := s.timerCounter - 1
      ({ s with timerCounter := count }, if count = 0 then [.cancelTimer] else [])
  | .setTimer => ({ s with armed := true }, [])
  | .cancelTimer => ({ s with armed := false }, [])
  | .queueAccept listener => ({ s with acceptIrps := s.acceptIrps ++ [(listener, ctx)] }, [])
  | .queueAck => ({ s with ackIrps := s.ackIrps ++ [ctx] }, [])
  | .cancelWrites => ({ s with ackIrps := s.ackIrps.filter (· ≠ ctx) }, [])

theorem perform_startTimer (s : ContextRun) (ctx : Nat) :
    s.perform ctx .startTimer = ({ s with timerCounter := s.timerCounter + 1 },
      if s.timerCounter + 1 = 1 then [.setTimer] else []) :=
  rfl

theorem perform_stopTimer (h : s.timerCounter ≠ 0) :
    s.perform ctx .stopTimer = ({ s with timerCounter := s.timerCounter - 1 },
      if s.timerCounter - 1 = 0 then [.cancelTimer] else []) :=
  if_neg h

/-- When a routine may start: an IOCTL comes for an open handle, the rest of an accept needs the IRP,
the end of a wait too, and the others come for any context. -/
def enabled (s : ContextRun) : Routine → Prop
  | .ctrlInitializeFile ctx _ | .ctrlBind ctx _ | .ctrlListen ctx _ | .ctrlConnect ctx _
  | .ctrlConnectWait ctx _ | .ctrlDisconnect ctx | .dispatchCleanup ctx => ctx ∈ s.opened
  | .ctrlAccept ctx actx _ _ => ctx ∈ s.opened ∧ actx ∈ s.opened
  | .doAccept ctx actx _ => (ctx, actx) ∈ s.acceptIrps
  | .doWriteAck ctx => ctx ∈ s.ackIrps
  | .completeCanceledIrp ctx (.accept actx) => (ctx, actx) ∈ s.acceptIrps
  | .completeCanceledIrp ctx .ack => ctx ∈ s.ackIrps
  | .completeCanceledIrp _ .other => True
  | .preConnectAck _ | .preConnectSyn _ | .disconnectStreamAndSignal _ => True

/-- What is taken away when a routine starts: its IRP, or the handle. -/
def taken (s : ContextRun) : Routine → ContextRun
  | .doAccept ctx actx _ | .completeCanceledIrp ctx (.accept actx) =>
    { s with acceptIrps := s.acceptIrps.erase (ctx, actx) }
  | .doWriteAck ctx | .completeCanceledIrp ctx .ack => { s with ackIrps := s.ackIrps.erase ctx }
  | .dispatchCleanup ctx => { s with opened := s.opened.erase ctx }
  | _ => s

/-- A routine starts: it has read the state, and knows whether there is anything to do. -/
def start (s : ContextRun) (r : Routine) : ContextRun :=
  if r.steps s.contexts = [] then s.taken r else
    { s.taken r with running := s.running ++ [(r.target, r.steps s.contexts)] }

end ContextRun

/-- A context is created; a routine starts, makes its next step, or ends; the device is stopped or
started. -/
inductive ContextAct where
  | create (ctx : Nat)
  | begin (r : Routine)
  | perform (ctx : Nat) (op : ContextOp)
  | finish (ctx : Nat)
  | stopDevice
  | startDevice

namespace ContextRun
variable {s s' : ContextRun} {ctx : Nat}

/-- One step.  `V4vStopDevice` cancels the timer, whatever the counter says, and nothing sets it when
the device is started again. -/
inductive Step (s : ContextRun) : ContextAct → ContextRun → Prop
  | create {ctx : Nat} : ctx ∉ s.created →
      Step s (.create ctx) { s with created := ctx :: s.created, opened := ctx :: s.opened }
  | begin {r : Routine} : r.target ∈ s.created → s.enabled r → Step s (.begin r) (s.start r)
  | perform {ctx : Nat} {op : ContextOp} {rest : List ContextOp}
      {l₁ l₂ : List (Nat × List ContextOp)} : s.running = l₁ ++ (ctx, op :: rest) :: l₂ →
      Step s (.perform ctx op) { (s.perform ctx op).1 with
        running := l₁ ++ (ctx, (s.perform ctx op).2 ++ rest) :: l₂ }
  | finish {ctx : Nat} {l₁ l₂ : List (Nat × List ContextOp)} :
      s.running = l₁ ++ (ctx, []) :: l₂ →
      Step s (.finish ctx) { s with running := l₁ ++ l₂ }
  | stopDevice : Step s .stopDevice { s with started := false, armed := false }
  | startDevice : Step s .startDevice { s with started := true }

/-- Nothing has been created. -/
def Start (s : ContextRun) : Prop :=
  s = ⟨fun _ => .fresh, [], [], [], [], [], 0, false, false, []⟩

/-! ## A routine that nothing interrupts -/

/-- Its steps. -/
def performAll (s : ContextRun) (ctx : Nat) (ops : List ContextOp) : ContextRun :=
  ops.foldl (fun s op =>
    let p := s.perform ctx op
    p.2.foldl (fun s op => (s.perform ctx op).1) p.1) s

/-- The whole routine. -/
def call (s : ContextRun) (r : Routine) : ContextRun :=
  (s.taken r).performAll r.target (r.steps s.contexts)

/-- The other routines, as far as they have come, have no part in a step. -/
theorem perform_running (s : ContextRun) (running : List (Nat × List ContextOp)) (ctx : Nat)
    (op : ContextOp) : { s with running := running }.perform ctx op =
      ({ (s.perform ctx op).1 with running := running }, (s.perform ctx op).2) := by
  cases op with
  | stopTimer =>
    rw [perform, perform]
    dsimp only
    split <;> rfl
  | _ => rfl

/-- A step puts a call for the timer or an exchange in front of the others, ... -/
theorem perform_front {op op' : ContextOp} (h : op' ∈ (s.perform ctx op).2) :
    op' = .setTimer ∨ op' = .cancelTimer ∨ ∃ new, op' = .exchange new := by
  cases op with
  | readType => exact .inr (.inr ⟨_, List.mem_singleton.mp h⟩)
  | startTimer =>
    rw [perform_startTimer] at h
    dsimp only at h
    split at h
    · exact .inl (List.mem_singleton.mp h)
    · cases h
  | stopTimer =>
    by_cases hzero : s.timerCounter = 0
    · rw [perform, if_pos hzero] at h
      cases h
    rw [perform_stopTimer hzero] at h
    dsimp only at h
    split at h
    · exact .inr (.inl (List.mem_singleton.mp h))
    · cases h
  | _ => cases h

/-- ... which puts nothing in front. -/
theorem perform_twice {op op' : ContextOp} (h : op' ∈ (s.perform ctx op).2) (t : ContextRun) :
    (t.perform ctx op').2 = [] := by
  rcases perform_front h with rfl | rfl | ⟨new, rfl⟩ <;> rfl

/-- A step of the last routine. -/
theorem step_last (s : ContextRun) (running : List (Nat × List ContextOp)) (ctx : Nat)
    (op : ContextOp) (rest : List ContextOp) :
    Step { s with running := running ++ [(ctx, op :: rest)] } (.perform ctx op)
      { (s.perform ctx op).1 with running := running ++ [(ctx, (s.perform ctx op).2 ++ rest)] } := by
  have hstep : Step { s with running := running ++ [(ctx, op :: rest)] } (.perform ctx op) _ :=
    .perform rfl
  rw [perform_running] at hstep
  exact hstep

/-- The last routine ends. -/
theorem step_finish (s : ContextRun) (running : List (Nat × List ContextOp)) (ctx : Nat) :
    Step { s with running := running ++ [(ctx, [])] } (.finish ctx) { s with running := running } := by
  have hstep : Step { s with running := running ++ [(ctx, [])] } (.finish ctx)
    { s with running := running ++ [] } := .finish rfl
  rw [List.append_nil] at hstep
  exact hstep

section
variable {ok : ContextRun → ContextAct → Prop}

theorem reachable_performAll (hok : ∀ s ctx op, ok s (.perform ctx op)) (s : ContextRun)
    (running : List (Nat × List ContextOp)) (ctx : Nat) (ops : List ContextOp) :
    Reachable (fun t => t = { s with running := running ++ [(ctx, ops)] }) Step ok
      { s.performAll ctx ops with running := running ++ [(ctx, [])] } := by
  have hfront : ∀ (more rest : List ContextOp) (s : ContextRun),
      (∀ op ∈ more, ∀ t : ContextRun, (t.perform ctx op).2 = []) →
      Reachable (fun t => t = { s with running := running ++ [(ctx, more ++ rest)] }) Step ok
        { more.foldl (fun s op => (s.perform ctx op).1) s with
          running := running ++ [(ctx, rest)] } := by
    intro more rest
    induction more with
    | nil => exact fun s _ => .start rfl
    | cons op more ih =>
      intro s hall
      have hone := step_last s running ctx op (more ++ rest)
      rw [hall op List.mem_cons_self s] at hone
      exact (Reachable.single (hok _ ctx op) hone).trans
        (ih _ fun op' hop' => hall op' (List.mem_cons_of_mem _ hop'))
  induction ops generalizing s with
  | nil => exact .start rfl
  | cons op ops ih =>
    exact ((Reachable.single (hok _ ctx op) (step_last s running ctx op ops)).trans
      (hfront _ ops _ fun op' hop' => perform_twice hop')).trans (ih _)

theorem performAll_running (s : ContextRun) (ctx : Nat) (ops : List ContextOp) :
    (s.performAll ctx ops).running = s.running := by
  have hone : ∀ (s : ContextRun) (op : ContextOp), (s.perform ctx op).1.running = s.running := by
    intro s op
    rw [← congrArg (fun p => p.1.running) (perform_running s s.running ctx op)]
  have hmore : ∀ (more : List ContextOp) (s : ContextRun),
      (more.foldl (fun s op => (s.perform ctx op).1) s).running = s.running := by
    intro more
    induction more with
    | nil => exact fun _ => rfl
    | cons op more ih => exact fun s => (ih _).trans (hone s op)
  induction ops generalizing s with
  | nil => rfl
  | cons op ops ih => exact (ih _).trans ((hmore _ _).trans (hone s op))

/-- Handles and IRPs are taken away, nothing else. -/
theorem taken_eq (s : ContextRun) (r : Routine) : ∃ opened acceptIrps ackIrps,
    s.taken r = { s with opened := opened, acceptIrps := acceptIrps, ackIrps := ackIrps } := by
  cases r with
  | completeCanceledIrp ctx irp => cases irp <;> exact ⟨_, _, _, rfl⟩
  | _ => exact ⟨_, _, _, rfl⟩

theorem taken_running (s : ContextRun) (r : Routine) : (s.taken r).running = s.running := by
  obtain ⟨opened, acceptIrps, ackIrps, heq⟩ := s.taken_eq r
  rw [heq]

/-- **A routine that nothing interrupts** is made of the steps. -/
theorem reachable_call {r : Routine} (hok : ∀ s ctx op, ok s (.perform ctx op))
    (hfinish : ∀ s ctx, ok s (.finish ctx)) (hcreated : r.target ∈ s.created)
    (henabled : s.enabled r) (hbegin : ok s (.begin r)) :
    Reachable (fun t => t = s) Step ok (s.call r) := by
  have hstart := Reachable.single hbegin (Step.begin hcreated henabled)
  rw [start] at hstart
  split at hstart
  · next hnil =>
    rw [call, hnil]
    exact hstart
  · have hrun := reachable_performAll hok (s.taken r) s.running r.target (r.steps s.contexts)
    have hsame : (s.call r).running = s.running :=
      (performAll_running _ _ _).trans (taken_running s r)
    have hall := Reachable.next (hstart.trans hrun) (hfinish _ r.target)
      (step_finish (s.call r) s.running r.target)
    rw [← hsame] at hall
    exact hall

end

theorem from_call {r : Routine} (hcreated : r.target ∈ s.created) (henabled : s.enabled r) :
    From Step s (s.call r) :=
  reachable_call (fun _ _ _ => trivial) (fun _ _ => trivial) hcreated henabled trivial

end ContextRun

end V4v.Windows
