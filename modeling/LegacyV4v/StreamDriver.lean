import LegacyV4v.GuardedRun
import LegacyV4v.StreamRecv
import Mathlib.Data.List.Nodup

/-! # The Linux driver, seen from its rings

All that can happen to the rings of stream sockets: messages arrive and raise the interrupt,
a pass of `v4v_interrupt_rx` goes over the rings, and the sockets are bound, connected,
listened on, accepted from, read and released, by any number of threads.  A step is a critical
section, a hypercall or the handling of one message; memory does not run out.

The pass holds `list_lock` for reading, so what takes it for writing waits until the pass is
over: binding, the two halves of an accept, and release.  A socket with a call in progress is
not released.  `copy_into_pending_recv` tests the count of a list before it takes the list's
lock and sets `full`; that is two steps here.  Datagram sockets are left out: their rings are of
type `DGRAM` from the start, and a pass only wakes their readers. -/
namespace V4v.Linux

def etimedout : Int := 110

/-! ## Sockets of a ring -/

namespace Ring

/-- The sockets of the ring. -/
def socks (r : Ring) : List Sock := r.sponsor.toList ++ r.privates

/-- The socket at address `ref`. -/
def sock? (r : Ring) (ref : Nat) : Option Sock := r.socks.find? fun p => p.ref == ref

/-- Change every socket. -/
def mapSocks (f : Sock → Sock) (r : Ring) : Ring :=
  { r with sponsor := r.sponsor.map f, privates := r.privates.map f }

/-- Assign the pending list of the socket at `ref`. -/
def setPending (r : Ring) (ref : Nat) (pending : List PendingRecv) : Ring :=
  r.mapSocks fun p => if p.ref = ref then { p with pendingRecv := pending } else p

/-- Set `full` of the socket at `ref`. -/
def setFull (r : Ring) (ref : Nat) : Ring :=
  r.mapSocks fun p => if p.ref = ref then { p with full := true } else p

/-- The socket that `copy_into_pending_recv` is called for, if the handler calls it for the
first message. -/
def waitsFor (r : Ring) : Option Sock :=
  match r.queue with
  | [] => none
  | m :: _ =>
    match peekHeader m with
    | none => none
    | some (sh, data) =>
      match r.type with
      | .connector =>
        match r.sponsor with
        | none => none
        | some p =>
          if sh.has shfSyn = false ∧ sh.conid = p.conid ∧ sh.has (shfAck ||| shfRst) = false then
            some p
          else none
      | .listener =>
        match r.privates.find? fun p => p.isPeer m.source sh.conid with
        | some p =>
          if sh.has (shfSyn ||| shfAck) = false ∧ sh.has shfRst = false then some p else none
        | none =>
          if sh.has shfRst = false ∧ sh.has shfSyn = true ∧ data = [] then r.sponsor else none
      | _ => none

end Ring

/-! ## One ring and the calls on its sockets -/

/-- A call of `v4v_accept`: it waits, or has taken an entry off the list. -/
inductive AcceptCall where
  | waiting (nonblock : Bool)
  | taken (e : PendingRecv)
  deriving DecidableEq, Repr

/-- A ring, the receives in progress on its sockets, and the threads that are in `v4v_accept`
or wait in `v4v_connect`.  A ring that has been deleted is not `alive`. -/
structure Endpoint where
  ring : Ring
  alive : Bool
  readers : Nat → Option RecvCall
  accepts : Nat → Option AcceptCall
  connects : Nat → Bool

/-- What the calls on the ring's sockets do, step by step.  `sent` is what `xmit_queue_inline`
returned for the SYN, and `ref` the address of a new socket. -/
inductive EndAct where
  | listen
  | connect (t : Nat) (peer : Addr) (conid : UInt32) (sent : Int) (nonblock : Bool)
  | connectWake (t : Nat) (signal : Bool)
  | respite (t : Nat)
  | accept (t : Nat) (nonblock : Bool)
  | acceptPop (t : Nat)
  | acceptEnd (t : Nat) (ref : Nat) (okay : Bool)
  | acceptSignal (t : Nat)
  | recvfrom (ref : Nat) (a : RecvArgs)
  | recv (ref : Nat) (signal : Bool)
  | release (ref : Nat)

namespace Endpoint

/-- The ring that `new_ring` makes for the socket at `ref`. -/
def bind (id : RingId) (ref : Nat) : Endpoint where
  ring := {
    id := id
    type := .idle
    sponsor := some ⟨ref, .bound, ⟨0, 0⟩, 0, [], 0, false⟩
    privates := []
    queue := [] }
  alive := true
  readers := fun _ => none
  accepts := fun _ => none
  connects := fun _ => false

/-- `v4v_listen`. -/
def listen (E : Endpoint) (p : Sock) : Endpoint :=
  if p.state = .bound then
    { E with ring := { E.ring with
        type := .listener, sponsor := some { p with state := .listening } } }
  else E

/-- `v4v_connect`, up to its wait. -/
def connect (E : Endpoint) (p : Sock) (t : Nat) (peer : Addr) (conid : UInt32) (sent : Int)
    (nonblock : Bool) : Endpoint :=
  match p.state with
  | .bound =>
    if sent = sizeofStreamHeader ∨ sent = 0 ∨ sent = -eagain then
      { E with
        ring := { E.ring with
          type := .connector
          sponsor := some { p with state := .connecting, conid := conid, peer := peer } }
        connects := if nonblock then E.connects else Function.update E.connects t true }
    else
      { E with ring := { E.ring with
          type := .dgram, sponsor := some { p with conid := conid, peer := peer } } }
  | .connecting =>
    if peer = p.peer ∧ nonblock = false then
      { E with connects := Function.update E.connects t true }
    else E
  | _ => E

/-- The loop of `v4v_connect` around its wait. -/
def connectWake (E : Endpoint) (p : Sock) (t : Nat) (signal : Bool) : Option Endpoint :=
  match p.state with
  | .connecting =>
    if signal then some { E with connects := Function.update E.connects t false } else none
  | .connected => some { E with connects := Function.update E.connects t false }
  | .disconnected =>
    some { E with
      ring := { E.ring with type := .dgram, sponsor := some { p with state := .bound } }
      connects := Function.update E.connects t false }
  | _ => none

/-- The timer of `v4v_connect`. -/
def respite (E : Endpoint) (p : Sock) : Endpoint :=
  { E with ring := { E.ring with
      sponsor := some { p with pendingError := -etimedout, state := .disconnected } } }

/-- The first critical section of `v4v_accept`. -/
def acceptPop (E : Endpoint) (p : Sock) (t : Nat) (nonblock : Bool) : Option Endpoint :=
  match p.pendingRecv with
  | [] => if nonblock then some { E with accepts := Function.update E.accepts t none } else none
  | e :: es =>
    let ring := { E.ring with sponsor := some { p with pendingRecv := es } }
    if e.data = [] ∧ e.sh.has shfSyn = true then
      some { E with ring := ring, accepts := Function.update E.accepts t (some (.taken e)) }
    else if nonblock then
      some { E with ring := ring, accepts := Function.update E.accepts t none }
    else
      some { E with ring := ring }

/-- The rest of `v4v_accept`: the new socket joins the ring, if all went well. -/
def acceptEnd (E : Endpoint) (t : Nat) (e : PendingRecv) (ref : Nat) (okay : Bool) : Endpoint :=
  { E with
    ring := if okay then
        { E.ring with
          privates := ⟨ref, .accepted, e.source, e.sh.conid, [], 0, false⟩ :: E.ring.privates }
      else E.ring
    accepts := Function.update E.accepts t none }

/-- `v4v_release`; the ring goes with its last socket. -/
def release (E : Endpoint) (ref : Nat) : Endpoint :=
  let sponsor := E.ring.sponsor.filter fun p => p.ref ≠ ref
  let privates := E.ring.privates.filter fun p => p.ref ≠ ref
  { E with
    ring := { E.ring with sponsor := sponsor, privates := privates }
    alive := sponsor.isSome || !privates.isEmpty }

/-- No call is in progress on the sponsor of the ring, or on the socket at `ref`. -/
def Unused (E : Endpoint) (ref : Nat) : Prop :=
  E.readers ref = none ∧
    ((∃ p, E.ring.sponsor = some p ∧ p.ref = ref) →
      (∀ t, E.accepts t = none) ∧ ∀ t, E.connects t = false)

/-- One step of a call on a socket of the ring. -/
inductive Step (E : Endpoint) : EndAct → Endpoint → Prop
  | listen {p : Sock} : E.ring.sponsor = some p → Step E .listen (E.listen p)
  | connect {p : Sock} {t : Nat} {peer : Addr} {conid : UInt32} {sent : Int} {nonblock : Bool} :
      E.ring.sponsor = some p → E.connects t = false →
      Step E (.connect t peer conid sent nonblock) (E.connect p t peer conid sent nonblock)
  | connectWake {p : Sock} {t : Nat} {signal : Bool} {E' : Endpoint} :
      E.ring.sponsor = some p → E.connects t = true → E.connectWake p t signal = some E' →
      Step E (.connectWake t signal) E'
  | respite {p : Sock} {t : Nat} : E.ring.sponsor = some p → E.connects t = true →
      Step E (.respite t) (E.respite p)
  | accept {p : Sock} {t : Nat} {nonblock : Bool} : E.ring.sponsor = some p →
      p.state = .listening → E.accepts t = none →
      Step E (.accept t nonblock)
        { E with accepts := Function.update E.accepts t (some (.waiting nonblock)) }
  | acceptPop {p : Sock} {t : Nat} {nonblock : Bool} {E' : Endpoint} :
      E.ring.sponsor = some p → E.accepts t = some (.waiting nonblock) →
      E.acceptPop p t nonblock = some E' → Step E (.acceptPop t) E'
  | acceptEnd {t : Nat} {e : PendingRecv} {ref : Nat} {okay : Bool} :
      E.accepts t = some (.taken e) → (∀ p ∈ E.ring.socks, p.ref ≠ ref) →
      E.readers ref = none → Step E (.acceptEnd t ref okay) (E.acceptEnd t e ref okay)
  | acceptSignal {t : Nat} {nonblock : Bool} : E.accepts t = some (.waiting nonblock) →
      Step E (.acceptSignal t) { E with accepts := Function.update E.accepts t none }
  | recvfrom {p : Sock} {ref : Nat} {a : RecvArgs} {c : RecvCall} : E.ring.sock? ref = some p →
      E.readers ref = none → Linux.recvfrom p a = .call c →
      Step E (.recvfrom ref a) { E with readers := Function.update E.readers ref (some c) }
  | recv {p : Sock} {ref : Nat} {signal : Bool} {c c' : RecvCall} {o : RecvOut} :
      E.ring.sock? ref = some p → E.readers ref = some c →
      recvStep p c true signal = some o → o.next = .call c' →
      Step E (.recv ref signal) { E with
        ring := E.ring.setPending ref o.sock.pendingRecv
        readers := Function.update E.readers ref (some c') }
  | recvReturn {p : Sock} {ref : Nat} {signal : Bool} {c : RecvCall} {o : RecvOut} {v : Int} :
      E.ring.sock? ref = some p → E.readers ref = some c →
      recvStep p c true signal = some o → o.next = .ret v →
      Step E (.recv ref signal) { E with readers := Function.update E.readers ref none }
  | release {ref : Nat} : (∃ p ∈ E.ring.socks, p.ref = ref) → E.Unused ref →
      Step E (.release ref) (E.release ref)

end Endpoint

/-! ## The driver -/

/-- A pass of `v4v_interrupt_rx`: the rings still to visit, the socket whose list was found full
but is not marked yet, and the receive that runs the pass, if it is not the interrupt. -/
structure Pass where
  todo : List Nat
  stalled : Option Nat
  caller : Option (Nat × Nat)

/-- The rings; whether an interrupt is raised and not handled; and the pass in progress. -/
structure Driver where
  ends : List Endpoint
  irq : Bool
  rx : Option Pass

/-- What can happen: a message arrives in ring `i`, the interrupt or a receive starts a pass,
the pass goes on, a ring is made, or a call on ring `i` goes on. -/
inductive DriverAct where
  | arrive (i : Nat) (m : Message)
  | interrupt
  | fakeIrq (i : Nat) (ref : Nat)
  | rx
  | bind (id : RingId) (ref : Nat)
  | call (i : Nat) (a : EndAct)

/-- What takes `list_lock` for writing. -/
def EndAct.locks : EndAct → Bool
  | .acceptPop _ => true
  | .acceptEnd _ _ _ => true
  | .release _ => true
  | _ => false

namespace Driver

/-- One step of the pass, at ring `E`, number `i`. -/
inductive RxStep (todo : List Nat) (stalled : Option Nat) (E : Endpoint) :
    List Nat → Option Nat → Endpoint → Prop
  | skip : stalled = none → E.alive = false ∨ E.ring.queue = [] ∨ E.ring.type = .dgram →
      RxStep todo stalled E todo.tail none E
  | idle : stalled = none → E.alive = true → E.ring.type = .idle →
      RxStep todo stalled E todo.tail none
        { E with ring := { E.ring with queue := E.ring.queue.tail } }
  | stall {p : Sock} : stalled = none → E.alive = true → E.ring.waitsFor = some p →
      p.pendingRecv.length > maxPendingRecvs → RxStep todo stalled E todo (some p.ref) E
  | full {ref : Nat} : stalled = some ref →
      RxStep todo stalled E todo.tail none { E with ring := E.ring.setFull ref }
  | handle {o : RingOut} : stalled = none → E.alive = true → E.ring.queue ≠ [] →
      (∀ p, E.ring.waitsFor = some p → ¬ p.pendingRecv.length > maxPendingRecvs) →
      E.ring.handle none = some o →
      RxStep todo stalled E (if o.ret = 0 then todo else todo.tail) none { E with ring := o.ring }

/-- One step. -/
inductive Step (s : Driver) : DriverAct → Driver → Prop
  | arrive {i : Nat} {m : Message} {E : Endpoint} : s.ends[i]? = some E → E.alive = true →
      Step s (.arrive i m) { s with
        ends := s.ends.set i { E with ring := { E.ring with queue := E.ring.queue ++ [m] } }
        irq := true }
  | interrupt : s.irq = true → s.rx = none →
      Step s .interrupt { s with
        irq := false, rx := some ⟨List.range s.ends.length, none, none⟩ }
  | fakeIrq {i ref : Nat} {E : Endpoint} {c : RecvCall} : s.ends[i]? = some E →
      E.readers ref = some c → c.phase = .faking → s.rx = none →
      Step s (.fakeIrq i ref) { s with
        ends := s.ends.set i { E with
          readers := Function.update E.readers ref (some { c with phase := .checking }) }
        rx := some ⟨List.range s.ends.length, none, some (i, ref)⟩ }
  | rx {i : Nat} {rest todo' : List Nat} {stalled stalled' : Option Nat}
      {caller : Option (Nat × Nat)} {E E' : Endpoint} :
      s.rx = some ⟨i :: rest, stalled, caller⟩ → s.ends[i]? = some E →
      RxStep (i :: rest) stalled E todo' stalled' E' →
      Step s .rx { s with ends := s.ends.set i E', rx := some ⟨todo', stalled', caller⟩ }
  | rxEnd {caller : Option (Nat × Nat)} : s.rx = some ⟨[], none, caller⟩ →
      Step s .rx { s with rx := none }
  | bind {id : RingId} {ref : Nat} : s.rx = none →
      (∀ E ∈ s.ends, E.alive = true → E.ring.id ≠ id) →
      Step s (.bind id ref) { s with ends := s.ends ++ [.bind id ref] }
  | call {i : Nat} {a : EndAct} {E E' : Endpoint} : s.ends[i]? = some E → E.alive = true →
      (a.locks = true → s.rx = none) →
      -- the receive that runs the pass is not elsewhere
      (∀ P ref signal, s.rx = some P → a = .recv ref signal → P.caller ≠ some (i, ref)) →
      E.Step a E' → Step s (.call i a) { s with ends := s.ends.set i E' }

/-- The driver before the first socket is bound. -/
def init : Driver := ⟨[], false, none⟩

/-- Every interrupt, raised or faked, has been handled, and no call is in progress. -/
def Quiescent (s : Driver) : Prop :=
  s.irq = false ∧ s.rx = none ∧ ∀ E ∈ s.ends,
    (∀ ref, E.readers ref = none) ∧ (∀ t, E.accepts t = none) ∧ ∀ t, E.connects t = false

end Driver

end V4v.Linux
