import LegacyV4v.FileContext
import LegacyV4v.GuardedRun

/-! # References to contexts

A context is counted in the list of contexts, by its handle, by each accept IRP that is to make it an accepter,
by the accepters of a listener, and by code that works on it for a while.  `V4vReleaseContextInternal` reads the
type of the context first and then counts under the lock; a listener for which the list alone is left goes too.
What a routine has still to do is a list of steps, and any routine may make the next one.

Whether there is a SYN for an accept, and what messages say, is left open.  Contexts are named in the order in
which they are created, and files like their contexts; the handle that an accept is given is one of these. -/
namespace V4v.Windows
open GuardedRun

/-- `XENV4V_CONTEXT`: the references, the state and the type, and of an accepter the listener. -/
structure CountedContext where
  refc : Nat
  state : FileState
  type : FileType
  listenerContext : Option Nat
  deriving DecidableEq

/-- What `V4vCtrlAccept` meets: whether the accepter can be initialized, and whether the IRP can be queued. -/
structure AcceptFate where
  initialized : Bool
  queued : Bool
  deriving DecidableEq

/-- Where `V4vCtrlAccept` is: before the test of the state; before it looks up the handle, and takes a reference
to the accepter; before the accepter is initialized; before a reference to the listener is taken, and stored;
before the accepter gets its type, and its state; and before the IRP is queued. -/
inductive AcceptPc where
  | readState
  | lookUp
  | reference
  | initFile
  | share
  | setListener
  | setType
  | setState
  | insert
  deriving DecidableEq

/-- A step of a routine: an access to a context; an exchange of its state; the test of the state in the routine
of an IOCTL, and what it does if it may go on; the exchange of the type, and then of the state; the return of a
routine that was called for a file; the rest of `V4vDispatchCleanup`, and `V4vUnlinkFromContextList`;
`V4vReleaseContextInternal`, its section under the lock, and the whole of it when the lock is held; the end of a
context; `V4vCtrlAccept`, and `V4vDoAccepts`; `V4vProcessContextReads` and the loop of
`V4vProcessListenerReads`. -/
inductive RefOp where
  | touch (ctx : Nat)
  | exchange (ctx : Nat) (new : FileState)
  | ctrl (ctx : Nat) (wants : List FileState) (type : Option FileType) (new : FileState)
  | retype (ctx : Nat) (type : FileType) (new : FileState)
  | leave (ctx : Nat)
  | cleanup (ctx : Nat)
  | unlink (ctx : Nat)
  | release (ctx : Nat)
  | drop (ctx : Nat) (val : FileType)
  | releaseLocked (ctx : Nat)
  | free (ctx : Nat)
  | accept (pc : AcceptPc) (ctx actx : Nat) (fate : AcceptFate)
  | doAccepts (ctx : Nat)
  | contextReads (ctx : Nat)
  | listenerReads (ctx : Nat) (state : FileState)
  deriving DecidableEq

/-- What a step finds: nothing; an accept IRP and a SYN, and whether the ACK can be sent; the answer to a
connector; a SYN, data or a RST in the ring of a listener. -/
inductive Finds where
  | nothing
  | accept (acked : Bool)
  | answer (connected : Bool)
  | syn
  | data (actx : Nat)
  | rst (actx : Nat)
  deriving DecidableEq

/-- The contexts; those that were created; the list and its counter; the files with a handle; the accept IRPs,
each with its listener and its accepter, and the files of the other IRPs; the routines; and the contexts to which
there was an access when they were gone. -/
structure RefRun where
  contexts : Nat → Option CountedContext
  created : List Nat
  contextList : List Nat
  contextCount : Int
  opened : List Nat
  acceptIrps : List (Nat × Nat)
  otherIrps : List Nat
  running : List (List RefOp)
  strayed : List Nat

/-- A count of 32 bits goes down. -/
def countDown (n : Nat) : Nat := if n = 0 then 2 ^ 32 - 1 else n - 1

namespace RefRun
variable (s : RefRun)

def setContext (ctx : Nat) (x : CountedContext) : RefRun :=
  { s with contexts := Function.update s.contexts ctx (some x) }

/-- An access to a context, and what is done with it. -/
def on (ctx : Nat) (f : CountedContext → RefRun × List RefOp) : RefRun × List RefOp :=
  match s.contexts ctx with
  | none => ({ s with strayed := ctx :: s.strayed }, [])
  | some x => f x

/-- What `V4vReleaseContextInternal` does under the lock when it has read the type, and the cleanup if the count
is 0 then.  An accepter drops its listener. -/
def dropped (ctx : Nat) (x : CountedContext) (val : FileType) (locked : Bool) : RefRun × List RefOp :=
  let count := countDown x.refc
  if val = .listener ∧ count = 1 then
    ({ s.setContext ctx { x with refc := 0 } with
        contextList := s.contextList.erase ctx
        contextCount := s.contextCount - 1 }, [.free ctx])
  else if count = 0 then
    (s.setContext ctx { x with refc := 0 },
      match val, x.listenerContext with
      | .accepter, some l => [if locked then .releaseLocked l else .release l, .free ctx]
      | _, _ => [.free ctx])
  else (s.setContext ctx { x with refc := count }, [])

/-- `V4vCtrlAccept`. -/
def acceptStep (ctx actx : Nat) (fate : AcceptFate) : AcceptPc → RefRun × List RefOp
  | .readState => s.on ctx fun x =>
    (s, if x.state = .listening then [.accept .lookUp ctx actx fate] else [])
  | .lookUp => (s, if actx ∈ s.opened then [.accept .reference ctx actx fate, .leave actx] else [])
  | .reference => s.on actx fun x =>
    (s.setContext actx { x with refc := x.refc + 1 }, [.accept .initFile ctx actx fate])
  | .initFile => s.on actx fun x =>
    if fate.initialized then
      (s.setContext actx { x with state := .idle }, [.accept .share ctx actx fate])
    else (s, [.release actx])
  | .share => s.on ctx fun x =>
    (s.setContext ctx { x with refc := x.refc + 1 }, [.accept .setListener ctx actx fate])
  | .setListener => s.on actx fun x =>
    (s.setContext actx { x with listenerContext := some ctx }, [.accept .setType ctx actx fate])
  | .setType => s.on actx fun x =>
    (s.setContext actx { x with type := .accepter }, [.accept .setState ctx actx fate])
  | .setState => s.on actx fun x =>
    (s.setContext actx { x with state := .accepting }, [.accept .insert ctx actx fate])
  | .insert =>
    -- an IRP that is not queued is completed, and keeps its reference
    if fate.queued then ({ s with acceptIrps := s.acceptIrps ++ [(ctx, actx)] }, [.doAccepts ctx]) else (s, [])

/-- A round of `V4vDoAccepts`: the reference of the IRP is dropped, and then the accepter is ACCEPTED and the ACK
is sent. -/
def doAcceptsStep (ctx : Nat) (finds : Finds) : RefRun × List RefOp :=
  match finds, s.acceptIrps.find? fun p => p.1 == ctx with
  | .accept acked, some p =>
    ({ s with acceptIrps := s.acceptIrps.erase p },
      [.release p.2, .exchange p.2 .accepted, .touch p.2] ++
        (if acked then [] else [.exchange p.2 .disconnected]) ++ [.leave p.2, .doAccepts ctx])
  | _, _ => (s, [])

/-- `V4vGetContextByConnectionId` finds this context. -/
def connected (ctx : Nat) : Bool :=
  decide (ctx ∈ s.contextList) &&
    (s.contexts ctx).any fun x => x.state == .accepted && x.type == .accepter

/-- A round of `V4vProcessListenerReads`. -/
def listenerStep (ctx : Nat) (state : FileState) (finds : Finds) : RefRun × List RefOp :=
  match finds with
  | .syn => (s, (if state = .listening then [.doAccepts ctx] else []) ++ [.listenerReads ctx state])
  | .data actx =>
    if s.connected actx then
      s.on actx fun x => (s.setContext actx { x with refc := x.refc + 1 },
        [.touch actx, .release actx, .listenerReads ctx state])
    else (s, [.listenerReads ctx state])
  | .rst actx =>
    if s.connected actx then
      s.on actx fun x => (s.setContext actx { x with refc := x.refc + 1 },
        [.exchange actx .disconnected, .release actx])
    else (s, [.listenerReads ctx state])
  | _ => (s, [])

/-- `V4vProcessContextReads`. -/
def contextReadsStep (ctx : Nat) (finds : Finds) (x : CountedContext) : List RefOp :=
  match x.state, finds with
  | .listening, _ => [.listenerReads ctx .listening]
  | .passive, _ => [.listenerReads ctx .passive]
  | .connecting, .answer connected | .waiting, .answer connected =>
    [.exchange ctx (if connected then .connected else .disconnected)]
  | _, _ => [.touch ctx]

/-- A step, and what it puts in front of the others. -/
def perform (finds : Finds) : RefOp → RefRun × List RefOp
  | .touch ctx => s.on ctx fun _ => (s, [])
  | .exchange ctx new => s.on ctx fun x => (s.setContext ctx { x with state := new }, [])
  | .ctrl ctx wants type new => s.on ctx fun x =>
    (s, if x.state ∈ wants then
      [match type with
        | some type => .retype ctx type new
        | none => .exchange ctx new]
      else [])
  | .retype ctx type new => s.on ctx fun x => (s.setContext ctx { x with type := type }, [.exchange ctx new])
  | .leave _ => (s, [])
  | .cleanup ctx => s.on ctx fun x =>
    (s, if x.type = .listener then [.exchange ctx .passive, .release ctx]
      else [.exchange ctx .closed, .unlink ctx, .release ctx])
  | .unlink ctx => s.on ctx fun x =>
    let p := { s with contextList := s.contextList.erase ctx }.dropped ctx x x.type true
    ({ p.1 with contextCount := p.1.contextCount - 1 }, p.2)
  | .release ctx => s.on ctx fun x => (s, [.drop ctx x.type])
  | .drop ctx val => s.on ctx fun x => s.dropped ctx x val false
  | .releaseLocked ctx => s.on ctx fun x => s.dropped ctx x x.type true
  | .free ctx => s.on ctx fun _ => ({ s with contexts := Function.update s.contexts ctx none }, [])
  | .accept pc ctx actx fate => s.acceptStep ctx actx fate pc
  | .doAccepts ctx => s.on ctx fun _ => s.doAcceptsStep ctx finds
  | .contextReads ctx => s.on ctx fun x => (s, contextReadsStep ctx finds x)
  | .listenerReads ctx state => s.on ctx fun _ => s.listenerStep ctx state finds

end RefRun

/-- The calls for a file. -/
inductive FileCall where
  | initializeFile (ok : Bool)
  | bind (ok : Bool)
  | listen (ok : Bool)
  | connect
  | wait
  | disconnect
  | accept (actx : Nat) (fate : AcceptFate)
  | other (queued : Bool)
  deriving DecidableEq

/-- The steps of a call. -/
def FileCall.ops (ctx : Nat) : FileCall → List RefOp
  | .initializeFile ok => [if ok then .exchange ctx .idle else .touch ctx, .leave ctx]
  | .bind ok => [if ok then .ctrl ctx [.idle] (some .datagram) .bound else .touch ctx, .leave ctx]
  | .listen ok => [if ok then .ctrl ctx [.bound] (some .listener) .listening else .touch ctx, .leave ctx]
  | .connect => [.ctrl ctx [.bound] (some .connector) .connecting, .leave ctx]
  | .wait => [.ctrl ctx [.bound] (some .connector) .waiting, .leave ctx]
  | .disconnect => [.ctrl ctx [.connected, .accepted] none .disconnected, .leave ctx]
  | .accept actx fate => [.accept .readState ctx actx fate, .leave ctx]
  | .other _ => [.touch ctx, .leave ctx]

/-- A file is created; a call begins, and its handle is closed; an accept IRP or another one is cancelled, or
the other one is completed; a DPC goes over the contexts; a routine makes its next step. -/
inductive RefAct where
  | create (ctx : Nat)
  | call (ctx : Nat) (c : FileCall)
  | close (ctx : Nat)
  | cancelAccept (ctx actx : Nat)
  | cancelOther (ctx : Nat)
  | completeOther (ctx : Nat)
  | dpc
  | perform (i : Nat) (finds : Finds)
  deriving DecidableEq

namespace RefRun

def begin (s : RefRun) (ops : List RefOp) : RefRun := { s with running := s.running ++ [ops] }

/-- What `V4vCsqCompleteCanceledIrp` does with an accept IRP. -/
def completeCanceledAccept (s : RefRun) (ctx actx : Nat) : RefRun :=
  let p := s.on ctx fun x =>
    if x.type = .connector ∧ x.state = .connecting then (s, [])
    else s.on actx fun y => (s, if y.state = .accepting then [.release actx] else [])
  p.1.begin p.2

/-- `V4vGetAllContexts`. -/
def getAllContexts (s : RefRun) : Nat → Option CountedContext := fun ctx =>
  if ctx ∈ s.contextList then (s.contexts ctx).map fun x => { x with refc := x.refc + 1 } else s.contexts ctx

/-- One step. -/
def step (s : RefRun) : RefAct → Option RefRun
  | .create ctx =>
    if ctx ∈ s.created then none
    else some { s.setContext ctx ⟨2, .uninitialized, .unspecified, none⟩ with
      created := ctx :: s.created
      contextList := ctx :: s.contextList
      contextCount := s.contextCount + 1
      opened := ctx :: s.opened }
  | .call ctx c =>
    if ctx ∈ s.opened then
      some ({ s with otherIrps := if c = FileCall.other true then ctx :: s.otherIrps else s.otherIrps }.begin (c.ops ctx))
    else none
  | .close ctx =>
    if ctx ∈ s.opened then
      some ({ s with opened := s.opened.erase ctx }.begin [.touch ctx, .cleanup ctx])
    else none
  | .cancelAccept ctx actx =>
    if (ctx, actx) ∈ s.acceptIrps then
      some ({ s with acceptIrps := s.acceptIrps.erase (ctx, actx) }.completeCanceledAccept ctx actx)
    else none
  | .cancelOther ctx =>
    if ctx ∈ s.otherIrps then
      some (({ s with otherIrps := s.otherIrps.erase ctx }.on ctx fun _ =>
        ({ s with otherIrps := s.otherIrps.erase ctx }, [])).1)
    else none
  | .completeOther ctx => some { s with otherIrps := s.otherIrps.erase ctx }
  | .dpc => some ({ s with contexts := s.getAllContexts }.begin
      (s.contextList.map RefOp.contextReads ++ s.contextList.map RefOp.releaseLocked))
  | .perform i finds =>
    match s.running[i]? with
    | some (op :: rest) =>
      let p := s.perform finds op
      some { p.1 with running := s.running.set i (p.2 ++ rest) }
    | _ => none

/-- Nothing has been created. -/
def Start (s : RefRun) : Prop := s = ⟨fun _ => none, [], [], 0, [], [], [], [], []⟩

end RefRun

end V4v.Windows
