import LegacyV4v.ConnectorLoop
import LegacyV4v.GuardedRun
import LegacyV4v.SparePort
import LegacyV4v.SynBacklog
import LegacyV4v.WriteOrder

/-! # The dispatch routines of the Windows driver

`V4vDispatchRead`, `V4vDispatchWrite` and `V4vDispatchDeviceControl` with what they call, step by step; between
two steps the others may do anything to the contexts, the queue and the rings.  The loops that serve reads are
followed round by round.  What a call does behind a send, a notify or an exchange of the state that lets others
see a context is left to the others.

Each routine reads the state of the device when it begins, and tests it for `XENV4V_DEV_STOPPED`.  That is 0: no
test of a bit finds it. -/
namespace V4v.Windows
open MachineWord CyclicBuffer
open Linux (drained sizeofStreamHeader)

/-- `XENV4V_DEV_STOPPED`. -/
def devStopped : UInt32 := 0x00000000

/-- `XENV4V_DEV_STARTED`. -/
def devStarted : UInt32 := 0x00000001

/-- `XENV4V_EXTENSION`: the state of the device, the contexts and the queue, the ring object of each context,
the rings, and the ids of the rings that are linked. -/
structure Extension where
  state : UInt32
  device : Device
  ringObject : Nat → Nat
  rings : Nat → PageMem
  ringList : List RingId

/-- The v4v hypercalls of the driver. -/
inductive V4vCall where
  | registerRing
  | unregisterRing
  | send
  | notify
  deriving DecidableEq

/-- What a dispatch routine returns; `failed` is what a routine of the system returned. -/
inductive CallStatus where
  | pending
  | completed (status : NtStatus)
  | invalidDeviceState
  | invalidParameter
  | invalidHandle
  | unsuccessful
  | failed
  deriving DecidableEq

/-- Where a call is, with the variables that it will read: in `V4vDispatchWrite` and
`V4vProcessContextWrites`; in `V4vDispatchRead` and the loops that serve reads, with `*pntfy`; at the start of
`V4vProcessNotify`; in the routines for IOCTLs.  `initializeFile` has the listener, if the file is for an
accepter. -/
inductive CallPc where
  | queueWrite (irp : Pending) (insertHead : Bool)
  | contextWrites (ctx : Nat)
  | queueRead (irp : Pending) (val : FileState)
  | datagramReads (ctx : Nat) (notify : Bool)
  | preConnectReads (ctx : Nat) (val : FileState)
  | connectorReads (ctx : Nat) (nextIrp : Option Pending) (retain notify : Bool)
  | accepterReads (ctx : Nat) (notify : Bool)
  | notify
  | initializeFile (ctx : Nat) (listener : Option Nat)
  | releaseContext (ctx : Nat) (status : CallStatus)
  | registerRing (ctx : Nat) (ringId : RingId)
  | sendReset (ctx : Nat)
  | exchange (ctx : Nat) (type : Option FileType) (new : FileState) (status : CallStatus)

/-- A call goes on, or it returns. -/
inductive Progress where
  | go (pc : CallPc)
  | finish (status : CallStatus)

/-- What others decide in a step: what queueing an IRP returns, whether there is memory, whether the event could
be referenced, the ring that was allocated and whether its registration succeeds, whether a reference was the
last one to a context and its ring, and what `RtlRandomEx` returns. -/
structure Outcome where
  insert : InsertStatus
  memory : Bool
  event : Bool
  robj : Nat
  registered : Bool
  last : Bool
  random : UInt32

/-- A step: how the call goes on, the hypercalls that were made, and what was changed. -/
structure StepOut where
  next : Progress
  hypercalls : List V4vCall
  ext : Extension

/-- A step without a hypercall. -/
def quietly (next : Progress) (w : Extension) : StepOut := ⟨next, [], w⟩

/-- What V4V_IOCTL_GETINFO asks for. -/
inductive InfoType where
  | peer
  | localInfo
  | other
  deriving DecidableEq

/-- The IOCTLs, each with whether the buffer has the right size and what stands in it: whether there is an event
handle, the ring's id, the backlog, the context of the file handle, the peer. -/
inductive Ioctl where
  | initializeFile (sizeOk rxEvent : Bool)
  | bind (sizeOk : Bool) (ringId : RingId)
  | listen (sizeOk : Bool) (backlog : UInt32)
  | accept (sizeOk : Bool) (fileHandle : Option Nat) (rxEvent : Bool)
  | connect (sizeOk : Bool) (ringAddr : Addr)
  | wait (sizeOk : Bool)
  | disconnect
  | getInfo (sizeOk : Bool) (type : InfoType)
  | dumpRing
  | other

/-- What `V4vProcessDatagramReads` looks for. -/
def datagramPeek (ctx : Nat) : QPeek := ⟨some ctx, peekDgram, peekRead, ⟨0, 0⟩⟩

/-- The status with which an IRP is completed that cannot be queued. -/
def InsertStatus.ntStatus : InsertStatus → NtStatus
  | .success => .success
  | .quotaExceeded => .quotaExceeded
  | .noMemory => .noMemory

namespace Device

/-- A round of `V4vProcessAccepterReads`, if there is data and a read: whether the read got the data. -/
def accepterRound (s : Device) (ctx : Nat) : Option (Bool × Device) :=
  match (s.contexts ctx).dataList with
  | [] => none
  | pd :: dataList =>
    (s.removeNextIrp (readPeek ctx)).map fun p =>
      if has p.1.flags (peekSyn ||| peekAck) then (false, p.2.complete p.1 .invalidDeviceRequest [])
      else if p.1.length.toNat < pd.length then (false, p.2.complete p.1 .bufferOverflow [])
      else (true, (p.2.complete p.1 .success pd).setContext ctx { s.contexts ctx with dataList := dataList })

/-- **The loop** does one round and goes on. -/
theorem processAccepterReads_round (s : Device) (ctx : Nat) : (s.processAccepterReads ctx).2 =
    match s.accepterRound ctx with
    | none => s
    | some p => (p.2.processAccepterReads ctx).2 := by
  have hdef := processAccepterReads.eq_def s ctx
  split at hdef
  · next hlist => simp [accepterRound, hlist, hdef]
  · next pd dataList hlist =>
    split at hdef
    · next hnone => simp [accepterRound, hlist, hnone, hdef]
    · next irp s' hsome =>
      simp only [accepterRound, hlist, hsome, Option.map_some, hdef]
      by_cases hflags : has irp.flags (peekSyn ||| peekAck) = true
      · simp only [hflags, if_true]
      · by_cases hlen : irp.length.toNat < pd.length
        · simp only [hflags, hlen, if_true, if_false, Bool.false_eq_true]
        · simp only [hflags, hlen, if_false, Bool.false_eq_true]

end Device

namespace Extension
variable (w : Extension)

def ring (ctx : Nat) : PageMem := w.rings (w.ringObject ctx)

def setRing (ctx : Nat) (m : PageMem) : Extension :=
  { w with rings := Function.update w.rings (w.ringObject ctx) m }

def setContext (ctx : Nat) (x : FileContext) : Extension :=
  { w with device := w.device.setContext ctx x }

/-- `V4vSimpleCompleteIrp`. -/
def simpleComplete (irp : Pending) (status : NtStatus) : Extension :=
  { w with device := w.device.complete irp status [] }

/-- `IoCsqInsertIrpEx` of an IRP that was pended. -/
def queued (irp : Pending) (insertHead : Bool) : Extension :=
  { w with device := { w.device with queue := Csq.place insertHead irp w.device.queue } }

/-! ## Writes -/

/-- `V4vDispatchWrite` up to the queue. -/
def v4vDispatchWrite (irp : Pending) (dcs : PeekFlags × UInt64) (mapped : Bool) : StepOut :=
  match dispatchWrite (w.device.contexts irp.fileObject).state dcs irp.length mapped with
  | .error status => quietly (.finish (.completed status)) (w.simpleComplete irp status)
  | .ok (flags, insertHead) => quietly (.go (.queueWrite { irp with flags := flags } insertHead)) w

/-- The IRP is queued; then the writes are driven unless the device is stopped. -/
def queueWrite (ds : UInt32) (o : Outcome) (irp : Pending) (insertHead : Bool) : StepOut :=
  if o.insert = .success then
    if ds &&& devStopped = 0 then quietly (.go (.contextWrites irp.fileObject)) (w.queued irp insertHead)
    else quietly (.finish .pending) (w.queued irp insertHead)
  else
    quietly (.finish (.completed o.insert.ntStatus)) (w.simpleComplete irp o.insert.ntStatus)

/-- The loop of `V4vProcessContextWrites` up to its first hypercall. -/
def contextWrites (ctx : Nat) : StepOut :=
  match w.device.removeNextIrp (writePeek ctx) with
  | none => quietly (.finish .pending) w
  | some (_, device) => ⟨.finish .pending, [.send], { w with device := device }⟩

/-! ## Reads -/

/-- The `switch` of `V4vDispatchRead`: the IRP is completed at once, or it gets its flags. -/
def readFlags (val : FileState) (length : UInt32) : Except NtStatus PeekFlags :=
  match val with
  | .bound => if length < sizeofDatagram then .error .bufferTooSmall else .ok (peekDgram ||| peekRead)
  | .connecting | .waiting | .connected | .accepted =>
    if length = 0 then .error .success else .ok (peekStream ||| peekRead)
  | .disconnected => .error .virtualCircuitClosed
  | _ => .error .invalidDeviceRequest

/-- `V4vDispatchRead` up to the queue. -/
def v4vDispatchRead (irp : Pending) (mapped : Bool) : StepOut :=
  let val := (w.device.contexts irp.fileObject).state
  if 0 < irp.length ∧ mapped = false then
    quietly (.finish (.completed .noMemory)) (w.simpleComplete irp .noMemory)
  else
    match readFlags val irp.length with
    | .error status => quietly (.finish (.completed status)) (w.simpleComplete irp status)
    | .ok flags => quietly (.go (.queueRead { irp with flags := flags } val)) w

/-- The loop that serves the reads of a context in this state. -/
def readLoop (ctx : Nat) (val : FileState) : CallPc :=
  match val with
  | .bound => .datagramReads ctx false
  | .connecting | .waiting => .preConnectReads ctx val
  | .connected => .connectorReads ctx none false false
  | _ => .accepterReads ctx false

/-- The IRP is queued; if the device is stopped it is left pended. -/
def queueRead (ds : UInt32) (o : Outcome) (irp : Pending) (val : FileState) : StepOut :=
  if o.insert = .success then
    if ds &&& devStopped ≠ 0 then quietly (.finish .pending) (w.queued irp false)
    else quietly (.go (readLoop irp.fileObject val)) (w.queued irp false)
  else
    quietly (.finish (.completed o.insert.ntStatus)) (w.simpleComplete irp o.insert.ntStatus)

/-- The end of `V4vDispatchRead`. -/
def afterReads (notify : Bool) : Progress := if notify then .go .notify else .finish .pending

/-- A round of `V4vProcessDatagramReads`. -/
def datagramRound (ctx : Nat) (notify : Bool) : StepOut :=
  if drained (w.ring ctx) then quietly (afterReads notify) w
  else
    match w.device.removeNextIrp (datagramPeek ctx) with
    | none => quietly (afterReads notify) w
    | some (irp, device) =>
      let w := { w with device := device }
      let out := copyOut (w.ring ctx) (irp.length - sizeofDatagram).toNat true
      if i32 out.ret < 0 then
        quietly (.go (.datagramReads ctx notify))
          ((w.setRing ctx (v4vRecoverRing out.mem)).simpleComplete irp .internalDbCorruption)
      else
        quietly (.go (.datagramReads ctx true))
          { w.setRing ctx out.mem with device := w.device.complete irp .success out.buf }

/-- `V4vProcessPreConnectReads`. -/
def preConnectStep (o : Outcome) (ctx : Nat) (val : FileState) : StepOut :=
  if drained (w.ring ctx) then quietly (afterReads false) w
  else
    match w.device.removeNextIrp (preConnectPeek ctx val) with
    | none => quietly (afterReads false) w
    | some (irp, device) =>
      let m := w.ring ctx
      let out := copyOut m sizeofStreamHeader true
      if i32 out.ret < 0 then
        quietly (afterReads false)
          { w.setRing ctx (v4vRecoverRing out.mem) with device := device.giveUp ctx irp .internalDbCorruption }
      else
        let failed := if o.insert = .success then none else some o.insert.ntStatus
        let p := device.preConnectRound ctx val failed irp
          ⟨out.source, out.protocol, (copyOut m out.ret.toNat false).buf⟩
        quietly (if p.1 then .go (.connectorReads ctx none false true) else afterReads true)
          { w.setRing ctx out.mem with device := p.2 }

/-- A round of `V4vProcessConnectorReads`. -/
def connectorStep (o : Outcome) (ctx : Nat) (nextIrp : Option Pending) (retain notify : Bool) :
    StepOut :=
  let s : ReadLoop := ⟨w.device, w.ring ctx, nextIrp, retain, [], false, notify, []⟩
  let p := s.round ctx o.insert
  ⟨if p.1 then .go (.connectorReads ctx p.2.nextIrp p.2.retain p.2.notify) else afterReads p.2.notify,
    p.2.resets.map fun _ => .send, { w.setRing ctx p.2.ring with device := p.2.device }⟩

/-- A step of `V4vProcessAccepterReads`. -/
def accepterStep (ctx : Nat) (notify : Bool) : StepOut :=
  match w.device.accepterRound ctx with
  | none => quietly (afterReads notify) w
  | some p => quietly (.go (.accepterReads ctx (notify || p.1))) { w with device := p.2 }

/-- `V4vProcessNotify` up to the hypercall. -/
def notifyStep (o : Outcome) : StepOut :=
  if o.memory then ⟨.finish .pending, [.notify], w⟩ else quietly (.finish .pending) w

/-! ## IOCTLs -/

/-- `V4vCtrlInitializeFile` up to the exchange. -/
def ctrlInitializeFile (ctx : Nat) (rxEvent : Bool) (o : Outcome) (listener : Option Nat) : Progress :=
  if rxEvent = false then .finish .invalidHandle
  else if o.event = false then .finish .failed
  else .go (.initializeFile ctx listener)

/-- `V4vCtrlBind` up to the registration. -/
def ctrlBind (o : Outcome) (ctx : Nat) (ringId : RingId) : Progress :=
  if (w.device.contexts ctx).state ≠ .idle then .finish (.completed .invalidDeviceRequest)
  else if ringId.addr.domain ≠ domidInvalid ∧ ringId.addr.domain ≠ domidAny then .finish .invalidParameter
  else if o.memory = false then .finish (.completed .noMemory)
  else if ringId.addr.port = 0 then
    let port := v4vSparePortNumber w.ringList (v4vRandomPort o.random)
    .go (.registerRing ctx { ringId with addr := { ringId.addr with port := port } })
  else if v4vRingIdInUse w.ringList ringId then .finish (.completed .invalidDeviceRequest)
  else .go (.registerRing ctx ringId)

/-- `V4vCtrlListen` up to the exchange. -/
def ctrlListenStep (o : Outcome) (ctx : Nat) (backlog : UInt32) : StepOut :=
  let x := w.device.contexts ctx
  match ctrlListen x.state backlog o.memory with
  | .error .invalidDeviceRequest => quietly (.finish (.completed .invalidDeviceRequest)) w
  | .error .invalidParameter => quietly (.finish .invalidParameter) w
  | .error .noMemory => quietly (.finish (.completed .noMemory)) w
  | .ok l => quietly (.go (.exchange ctx (some .listener) .listening (.completed .success)))
      (w.setContext ctx { x with backlog := l.backlog, synList := [] })

/-- `V4vCtrlAccept` up to the exchange of the accepter's state; the reference to a file that cannot be
initialized is dropped. -/
def ctrlAccept (o : Outcome) (ctx : Nat) (sizeOk : Bool) (fileHandle : Option Nat)
    (rxEvent : Bool) : Progress :=
  if (w.device.contexts ctx).state ≠ .listening then .finish (.completed .invalidDeviceRequest)
  else if sizeOk = false then .finish .invalidParameter
  else
    match fileHandle with
    | none => .finish .failed
    | some actx =>
      match ctrlInitializeFile actx rxEvent o (some ctx) with
      | .finish status => .go (.releaseContext actx status)
      | .go pc => .go pc

/-- `V4vCtrlConnect` up to the exchange. -/
def ctrlConnect (o : Outcome) (ctx : Nat) (ringAddr : Addr) : StepOut :=
  let x := w.device.contexts ctx
  if x.state ≠ .bound then quietly (.finish (.completed .invalidDeviceRequest)) w
  else
    quietly (.go (.exchange ctx (some .connector) .connecting .pending))
      (w.setContext ctx { x with sdst := ringAddr, connId := o.random.toUInt64 })

/-- `V4vCtrlConnectWait` up to the exchange. -/
def ctrlConnectWait (ctx : Nat) : Progress :=
  if (w.device.contexts ctx).state ≠ .bound then .finish (.completed .invalidDeviceRequest)
  else .go (.exchange ctx (some .connector) .waiting .pending)

/-- `V4vCtrlDisconnect` up to the RST. -/
def ctrlDisconnect (ctx : Nat) : Progress :=
  if (w.device.contexts ctx).state = .connected ∨ (w.device.contexts ctx).state = .accepted then
    .go (.sendReset ctx)
  else .finish (.completed .invalidDeviceRequest)

/-- `V4vCtrlGetInfo`. -/
def ctrlGetInfo (ctx : Nat) (type : InfoType) : CallStatus :=
  let peers : List FileState := [.connecting, .connected, .accepted]
  let opened := [.bound, .listening, .waiting] ++ peers
  match type with
  | .peer => if (w.device.contexts ctx).state ∈ peers then .completed .success
    else .completed .invalidDeviceRequest
  | .localInfo => if (w.device.contexts ctx).state ∈ opened then .completed .success
    else .completed .invalidDeviceRequest
  | .other => .completed .invalidDeviceRequest

/-- `V4vCtrlDumpRing`. -/
def ctrlDumpRing (ctx : Nat) : CallStatus := w.ctrlGetInfo ctx .localInfo

/-- `V4vDispatchDeviceControl`, which reads the state of the device. -/
def v4vDispatchDeviceControl (o : Outcome) (ctx : Nat) (ioctl : Ioctl) : StepOut :=
  if w.state &&& devStopped ≠ 0 then quietly (.finish .invalidDeviceState) w
  else
    match ioctl with
    | .initializeFile sizeOk rxEvent =>
      quietly (if sizeOk then ctrlInitializeFile ctx rxEvent o none else .finish .invalidParameter) w
    | .bind sizeOk ringId => quietly (if sizeOk then w.ctrlBind o ctx ringId else .finish .invalidParameter) w
    | .listen sizeOk backlog =>
      if sizeOk then w.ctrlListenStep o ctx backlog else quietly (.finish .invalidParameter) w
    | .accept sizeOk fileHandle rxEvent => quietly (w.ctrlAccept o ctx sizeOk fileHandle rxEvent) w
    | .connect sizeOk ringAddr =>
      if sizeOk then w.ctrlConnect o ctx ringAddr else quietly (.finish .invalidParameter) w
    | .wait sizeOk => quietly (if sizeOk then w.ctrlConnectWait ctx else .finish .invalidParameter) w
    | .disconnect => quietly (w.ctrlDisconnect ctx) w
    | .getInfo sizeOk type =>
      quietly (.finish (if sizeOk then w.ctrlGetInfo ctx type else .invalidParameter)) w
    | .dumpRing => quietly (.finish (w.ctrlDumpRing ctx)) w
    | .other => quietly (.finish .invalidParameter) w

/-- The exchange of `V4vCtrlInitializeFile`, after which an accepter gets the ring of its listener. -/
def initializeFileStep (ctx : Nat) (listener : Option Nat) : StepOut :=
  let x := { w.device.contexts ctx with state := .idle }
  match listener with
  | none => quietly (.finish (.completed .success)) (w.setContext ctx x)
  | some l =>
    quietly (.go (.exchange ctx (some .accepter) .accepting .pending))
      { w.setContext ctx { x with dataList := [], listenerContext := some l } with
        ringObject := Function.update w.ringObject ctx (w.ringObject l) }

/-- The registration of `V4vCtrlBind`; a ring that is registered is linked. -/
def registerRingStep (o : Outcome) (ctx : Nat) (ringId : RingId) : StepOut :=
  if o.registered then
    ⟨.go (.exchange ctx (some .datagram) .bound (.completed .success)), [.registerRing],
      { w with ringObject := Function.update w.ringObject ctx o.robj, ringList := ringId :: w.ringList }⟩
  else ⟨.finish .unsuccessful, [.registerRing], w⟩

/-- The type of a context is set, if it changes, and then its state. -/
def exchangeStep (ctx : Nat) (type : Option FileType) (new : FileState) (status : CallStatus) :
    StepOut :=
  let x := w.device.contexts ctx
  quietly (.finish status) (w.setContext ctx { x with type := type.getD x.type, state := new })

end Extension

/-! ## Calls in progress -/

/-- The next step of a call that read `ds` when it began. -/
def CallPc.step (ds : UInt32) (w : Extension) (o : Outcome) : CallPc → StepOut
  | .queueWrite irp insertHead => w.queueWrite ds o irp insertHead
  | .contextWrites ctx => w.contextWrites ctx
  | .queueRead irp val => w.queueRead ds o irp val
  | .datagramReads ctx pntfy => w.datagramRound ctx pntfy
  | .preConnectReads ctx val => w.preConnectStep o ctx val
  | .connectorReads ctx nextIrp retain pntfy => w.connectorStep o ctx nextIrp retain pntfy
  | .accepterReads ctx pntfy => w.accepterStep ctx pntfy
  | .notify => w.notifyStep o
  | .initializeFile ctx listener => w.initializeFileStep ctx listener
  | .releaseContext _ status => ⟨.finish status, if o.last then [.unregisterRing] else [], w⟩
  | .registerRing ctx ringId => w.registerRingStep o ctx ringId
  | .sendReset ctx => ⟨.go (.exchange ctx none .disconnected (.completed .success)), [.send], w⟩
  | .exchange ctx type new status => w.exchangeStep ctx type new status

/-- A call: whether the device was stopped when it began, what it read then, and where it is. -/
structure DispatchCall where
  stopped : Bool
  ds : UInt32
  pc : CallPc

/-- The device, and the calls in progress. -/
structure DispatchSys where
  ext : Extension
  calls : Nat → Option DispatchCall

/-- A call begins or makes its next step; the device is stopped or started; the others do something. -/
inductive DispatchAct where
  | write (t : Nat) (irp : Pending) (dcs : PeekFlags × UInt64) (mapped : Bool)
  | read (t : Nat) (irp : Pending) (mapped : Bool)
  | deviceControl (t ctx : Nat) (ioctl : Ioctl) (o : Outcome)
  | step (t : Nat) (o : Outcome)
  | stopDevice
  | startDevice
  | others (device : Device) (ringObject : Nat → Nat) (rings : Nat → PageMem) (ringList : List RingId)

/-- What was done in a step: whether it was one of a call that began while the device was stopped, the
hypercalls, and the device before and after. -/
structure Did where
  stopped : Bool
  hypercalls : List V4vCall
  before : Extension
  after : Extension

namespace DispatchSys

/-- What `V4vStopDevice` takes out of the queue. -/
def synAckPeek : QPeek := ⟨none, peekStream, peekSyn ||| peekAck, ⟨0, domidInvalid⟩⟩

/-- `V4vStopDevice`. -/
def stopDevice (w : Extension) : Extension :=
  { w with
    state := devStopped
    device := { w.device with
      queue := w.device.queue.filter fun x => !x.test synAckPeek
      completed := w.device.completed ++
        (w.device.queue.filter (Pending.test synAckPeek)).map fun x => ⟨x, .cancelled, []⟩ } }

/-- The call `t` has come this far. -/
def advance (s : DispatchSys) (t : Nat) (stopped : Bool) (ds : UInt32) (out : StepOut) : Did × DispatchSys :=
  (⟨stopped, out.hypercalls, s.ext, out.ext⟩,
    { ext := out.ext
      calls := Function.update s.calls t (match out.next with
        | .go pc => some ⟨stopped, ds, pc⟩
        | .finish _ => none) })

/-- A call begins. -/
def begin (s : DispatchSys) (t : Nat) (out : StepOut) : Option (Did × DispatchSys) :=
  if s.calls t = none then
    some (s.advance t (decide (s.ext.state = devStopped)) s.ext.state out)
  else none

/-- One step. -/
def step (s : DispatchSys) : DispatchAct → Option (Did × DispatchSys)
  | .write t irp dcs mapped => s.begin t (s.ext.v4vDispatchWrite irp dcs mapped)
  | .read t irp mapped => s.begin t (s.ext.v4vDispatchRead irp mapped)
  | .deviceControl t ctx ioctl o => s.begin t (s.ext.v4vDispatchDeviceControl o ctx ioctl)
  | .step t o => (s.calls t).map fun c => s.advance t c.stopped c.ds (c.pc.step c.ds s.ext o)
  | .stopDevice => some (⟨false, [], s.ext, stopDevice s.ext⟩, { s with ext := stopDevice s.ext })
  | .startDevice =>
    let ext := { s.ext with state := devStarted }
    some (⟨false, [], s.ext, ext⟩, { s with ext := ext })
  | .others device ringObject rings ringList =>
    let ext := ⟨s.ext.state, device, ringObject, rings, ringList⟩
    some (⟨false, [], s.ext, ext⟩, { s with ext := ext })

end DispatchSys

end V4v.Windows
