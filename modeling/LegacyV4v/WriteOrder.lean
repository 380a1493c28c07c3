import LegacyV4v.FileContext
import LegacyV4v.GuardedRun
import LegacyV4v.PendingQueue

/-! # The order of stream writes on Windows

`V4vDispatchWrite` puts a write at the tail of the queue, and then goes through the queued writes
of its context: `V4vProcessContextWrites`.  The interrupt's DPC and the read dispatch go through
those of a destination: `V4vProcessDestinationWrites`.  A write for which there is no room is set
aside, and goes back to the tail when the pass is over.

A pass over a destination stops at the first write that is refused.  A pass over a context goes on
to the next, so a smaller write of the same stream enters the ring first.  And while a pass has
writes set aside, which it does not hold the ring lock for any more when it puts them back, others
of the context are queued, sent, or put back before them. -/
namespace V4v.Windows
open GuardedRun

/-! ## Writes -/

/-- `XENV4V_RST_MAGIC`. -/
def rstMagic : UInt64 := 0x512862fb6f91f1bd
/-- `XENV4V_ACK_MAGIC`. -/
def ackMagic : UInt64 := 0x9236baf013ce4bb9

/-- The `switch` of `V4vDispatchWrite`: the IRP is completed at once, or it gets its flags and goes
to the head or the tail.  `dcs` is what internal writes pass down. -/
def writeFlags (val : FileState) (dcs : PeekFlags × UInt64) (length : UInt32) :
    Except NtStatus (PeekFlags × Bool) :=
  match val with
  | .bound =>
    if length < sizeofDatagram then .error .bufferTooSmall
    else .ok (peekDgram ||| peekWrite, false)
  | .connected | .accepted | .listening | .passive =>
    if dcs = (peekRst, rstMagic) then .ok (peekStream ||| peekWrite ||| peekRst, true)
    else if dcs = (peekAck, ackMagic) then .ok (peekStream ||| peekWrite ||| peekAck, false)
    else if val = .listening ∨ val = .passive then .error .invalidDeviceRequest
    else .ok (peekStream ||| peekWrite, false)
  | .disconnected => .error .virtualCircuitClosed
  | _ => .error .invalidDeviceRequest

/-- `V4vDispatchWrite` up to the queue; `mapped` says whether the buffer could be mapped. -/
def dispatchWrite (val : FileState) (dcs : PeekFlags × UInt64) (length : UInt32) (mapped : Bool) :
    Except NtStatus (PeekFlags × Bool) :=
  match writeFlags val dcs length with
  | .error status => .error status
  | .ok p => if 0 < length ∧ mapped = false then .error .noMemory else .ok p

/-- An IRP with its place in the order in which IRPs were queued first. -/
structure Write extends Pending where
  serial : Nat
  deriving DecidableEq, Repr

/-- A write of stream data. -/
def Write.isData (x : Write) : Bool :=
  has x.flags peekWrite && has x.flags peekStream && !has x.flags peekStreamFlags

/-- Both are data writes of one context. -/
def Write.SameStream (x y : Write) : Prop :=
  x.isData = true ∧ y.isData = true ∧ x.fileObject = y.fileObject

/-- If both are data writes of one context, the first was queued first. -/
def Write.Precedes (x y : Write) : Prop := x.SameStream y → x.serial < y.serial

/-- The flags of a SYN that was sent: it waits for the ACK. -/
def swizzle (flags : PeekFlags) : PeekFlags :=
  flags &&& ~~~(peekWrite ||| peekSyn) ||| (peekRead ||| peekAck)

/-- What the hypercall returns. -/
inductive SendStatus where
  | success
  | retry
  | circuitClosed
  | failed
  deriving DecidableEq, Repr

/-- What `V4vDoWrite` returns, with the IRP that it leaves to be queued again. -/
inductive WriteStatus where
  | success
  | retry
  | pending (irp : Write)
  | failed

/-- What is set aside of IRP `x`. -/
def WriteStatus.returned (x : Write) : WriteStatus → List Write
  | .retry => [x]
  | .pending irp => [irp]
  | .success | .failed => []

/-- What the passes read of a `v4v_ring_data_ent_t`. -/
structure DataEntry where
  ring : Addr
  ringExists : Bool
  sufficient : Bool

/-! ## Threads -/

/-- Where a thread is.  `returnIrps` are the IRPs that its pass has set aside, and `nextIrp` is
the one that it has just taken out of the queue.  A pass over a context holds the ring lock until
`requeue`; one over a destination takes it for each IRP. -/
inductive Thread where
  | idle
  | queueing (irp : Pending) (insertHead : Bool)
  | entering (ctx : Nat)
  | context (ctx : Nat) (returnIrps : List Write) (nextIrp : Option Write)
  | destination (entry : DataEntry) (counter : Nat) (returnIrps : List Write)
      (nextIrp : Option Write) (locked : Bool)
  | requeue (returnIrps : List Write)

namespace Thread

/-- The IRPs that a pass has taken and not completed, oldest first. -/
def held : Thread → List Write
  | context _ returnIrps nextIrp => returnIrps ++ nextIrp.toList
  | destination _ _ returnIrps nextIrp _ => returnIrps ++ nextIrp.toList
  | requeue returnIrps => returnIrps
  | idle | queueing _ _ | entering _ => []

/-- The ring whose lock the thread holds. -/
def locks (ring : Nat → Nat) : Thread → Option Nat
  | context ctx _ _ => some (ring ctx)
  | destination _ _ _ (some x) true => some (ring x.fileObject)
  | _ => none

/-- The pass still looks for IRPs. -/
def looping : Thread → Bool
  | requeue _ => false
  | _ => true

/-- A pass over a destination has set no data aside, and no data goes to the head. -/
def Orderly : Thread → Prop
  | destination _ _ returnIrps _ _ => ∀ x ∈ returnIrps, x.isData = false
  | queueing irp insertHead => insertHead = true → ∀ n, Write.isData ⟨irp, n⟩ = false
  | _ => True

/-- What the pass looks for, when it takes the next IRP. -/
def peek : Thread → Option QPeek
  | context ctx _ none => some ⟨some ctx, peekAnyType, peekWrite, ⟨0, 0⟩⟩
  | destination entry _ _ none _ => some ⟨none, peekAnyType, peekWrite, entry.ring⟩
  | _ => none

/-- The pass has taken an IRP. -/
def take (x : Write) : Thread → Thread
  | context ctx returnIrps _ => context ctx returnIrps (some x)
  | destination entry counter returnIrps _ locked =>
    destination entry counter returnIrps (some x) locked
  | th => th

/-- A pass over a context behind `V4vDoWrite`. -/
def contextWrote (ctx : Nat) (returnIrps : List Write) (x : Write) (status : WriteStatus) : Thread :=
  context ctx (returnIrps ++ status.returned x) none

/-- A pass over a destination behind `V4vDoWrite`, with the lock released. -/
def destinationWrote (entry : DataEntry) (counter : Nat) (returnIrps : List Write) (x : Write)
    (status : WriteStatus) : Thread :=
  let returnIrps := returnIrps ++ status.returned x
  match status with
  | .retry => requeue returnIrps
  | .pending _ => destination entry (counter + 1) returnIrps none false
  | .success => destination entry (counter + 1) returnIrps none false
  | .failed => destination entry counter returnIrps none false

end Thread

/-! ## Runs -/

/-- The contexts, the queue, the threads, and the IRPs that were sent, oldest first.  A context's
`sdst` and ring are set before anything of its stream is queued. -/
structure WriteSys where
  state : Nat → FileState
  type : Nat → FileType
  sdst : Nat → Addr
  ring : Nat → Nat
  queue : List Write
  threads : Nat → Thread
  serial : Nat
  sent : List Write

inductive WriteAct where
  | dispatch (t : Nat)
  | insert (t : Nat)
  | insertFails (t : Nat)
  | process (t : Nat)
  | enter (t : Nat)
  | notify (t : Nat)
  | take (t : Nat)
  | stop (t : Nat)
  | lock (t : Nat)
  | send (t : Nat) (status : SendStatus)
  | gone (t : Nat)
  | insufficient (t : Nat)
  | requeue (t : Nat)
  | requeueFails (t : Nat)
  | done (t : Nat)
  | queueOther (x : Pending)
  | leave (x : Write)
  | change (ctx : Nat) (state : FileState) (type : FileType)

namespace WriteSys

def setThread (s : WriteSys) (t : Nat) (th : Thread) : WriteSys :=
  { s with threads := Function.update s.threads t th }

/-- `V4vDisconnectStreamAndSignal`; the IRPs that it cancels leave the queue on their own. -/
def disconnect (s : WriteSys) (ctx : Nat) : WriteSys :=
  { s with state := Function.update s.state ctx .disconnected }

/-- `V4vDoWrite`. -/
def doWrite (s : WriteSys) (x : Write) : SendStatus → WriteStatus × WriteSys
  | .retry => (.retry, s)
  | .circuitClosed =>
    (.failed, if has x.flags (peekSyn ||| peekAck) = true ∨ (s.type x.fileObject).isStream = true
      then s.disconnect x.fileObject else s)
  | .failed =>
    (.failed, if has x.flags (peekSyn ||| peekAck) = true then s.disconnect x.fileObject else s)
  | .success =>
    let s := { s with sent := s.sent ++ [x] }
    if has x.flags peekSyn then (.pending { x with flags := swizzle x.flags }, s)
    else if has x.flags peekAck ∧ has x.flags peekIoctl then
      (.success, { s with state := Function.update s.state x.fileObject .connected })
    else (.success, s)

/-- What `V4vCsqGetDestination` reads for an IRP; in its buffer anything may stand. -/
def ReadsDst (s : WriteSys) (x : Pending) (dst : Addr) : Prop :=
  has x.flags peekRst = false → has x.flags peekStream = true → dst = s.sdst x.fileObject

/-- No thread holds the lock of a ring. -/
def Free (s : WriteSys) (r : Nat) : Prop := ∀ t, (s.threads t).locks s.ring ≠ some r

/-- `IoCsqRemoveNextIrp` for thread `t`. -/
def takes (s : WriteSys) (t : Nat) : Option (Option (Write × List Write)) :=
  (s.threads t).peek.map fun qp => removeNext (fun x => x.toPending.test qp) s.queue

/-- One step. -/
inductive Step (s : WriteSys) : WriteAct → WriteSys → Prop
  -- `V4vDispatchWrite`
  | dispatch {t : Nat} {x : Pending} {dcs : PeekFlags × UInt64} {mapped insertHead : Bool} :
      s.threads t = .idle →
      dispatchWrite (s.state x.fileObject) dcs x.length mapped = .ok (x.flags, insertHead) →
      Step s (.dispatch t) (s.setThread t (.queueing x insertHead))
  | insert {t : Nat} {x : Pending} {insertHead : Bool} {dst : Addr} :
      s.threads t = .queueing x insertHead → s.ReadsDst x dst →
      Step s (.insert t) ({ s with
        queue := Csq.place insertHead ⟨{ x with dst := dst }, s.serial⟩ s.queue
        serial := s.serial + 1 }.setThread t (.entering x.fileObject))
  | insertFails {t : Nat} {x : Pending} {insertHead : Bool} :
      s.threads t = .queueing x insertHead → Step s (.insertFails t) (s.setThread t .idle)
  -- `V4vProcessContextWrites`, also from other callers
  | process {t ctx : Nat} : s.threads t = .idle →
      Step s (.process t) (s.setThread t (.entering ctx))
  | enter {t ctx : Nat} : s.threads t = .entering ctx → s.Free (s.ring ctx) →
      Step s (.enter t) (s.setThread t (.context ctx [] none))
  -- `V4vProcessDestinationWrites`
  | notify {t : Nat} {entry : DataEntry} : s.threads t = .idle →
      Step s (.notify t) (s.setThread t (.destination entry 0 [] none false))
  | take {t : Nat} {x : Write} {q : List Write} : s.takes t = some (some (x, q)) →
      Step s (.take t) ({ s with queue := q }.setThread t ((s.threads t).take x))
  | stop {t : Nat} : s.takes t = some none →
      Step s (.stop t) (s.setThread t (.requeue (s.threads t).held))
  | lock {t counter : Nat} {entry : DataEntry} {returnIrps : List Write} {x : Write} :
      s.threads t = .destination entry counter returnIrps (some x) false →
      s.Free (s.ring x.fileObject) →
      Step s (.lock t) (s.setThread t (.destination entry counter returnIrps (some x) true))
  | contextSend {t ctx : Nat} {returnIrps : List Write} {x : Write} {status : SendStatus} :
      s.threads t = .context ctx returnIrps (some x) →
      Step s (.send t status) ((s.doWrite x status).2.setThread t
        (.contextWrote ctx returnIrps x (s.doWrite x status).1))
  | destinationSend {t counter : Nat} {entry : DataEntry} {returnIrps : List Write} {x : Write}
      {status : SendStatus} :
      s.threads t = .destination entry counter returnIrps (some x) true →
      entry.ringExists = true → counter ≠ 0 ∨ entry.sufficient = true →
      Step s (.send t status) ((s.doWrite x status).2.setThread t
        (.destinationWrote entry counter returnIrps x (s.doWrite x status).1))
  | gone {t counter : Nat} {entry : DataEntry} {returnIrps : List Write} {x : Write} :
      s.threads t = .destination entry counter returnIrps (some x) true →
      entry.ringExists = false →
      Step s (.gone t) ((if (s.type x.fileObject).isStream then s.disconnect x.fileObject
        else s).setThread t (.destination entry counter returnIrps none false))
  | insufficient {t : Nat} {entry : DataEntry} {returnIrps : List Write} {x : Write} :
      s.threads t = .destination entry 0 returnIrps (some x) true →
      entry.ringExists = true → entry.sufficient = false →
      Step s (.insufficient t) (s.setThread t (.requeue (returnIrps ++ [x])))
  -- `V4vRequeueIrps`
  | requeue {t : Nat} {x : Write} {returnIrps : List Write} {dst : Addr} :
      s.threads t = .requeue (x :: returnIrps) → s.ReadsDst x.toPending dst →
      Step s (.requeue t) ({ s with
        queue := Csq.place false { x with dst := dst } s.queue }.setThread t (.requeue returnIrps))
  | requeueFails {t : Nat} {x : Write} {returnIrps : List Write} :
      s.threads t = .requeue (x :: returnIrps) →
      Step s (.requeueFails t) (s.setThread t (.requeue returnIrps))
  | done {t : Nat} : s.threads t = .requeue [] → Step s (.done t) (s.setThread t .idle)
  -- the IRPs of connects, accepts and reads; cancellation and reads that take IRPs
  | queueOther {x : Pending} {insertHead : Bool} :
      Write.isData ⟨x, s.serial⟩ = false →
      Step s (.queueOther x) { s with
        queue := Csq.place insertHead ⟨x, s.serial⟩ s.queue
        serial := s.serial + 1 }
  | leave {x : Write} : Step s (.leave x) { s with queue := s.queue.erase x }
  | change {ctx : Nat} {state : FileState} {type : FileType} :
      Step s (.change ctx state type) { s with
        state := Function.update s.state ctx state
        type := Function.update s.type ctx type }

/-- Nothing was queued. -/
def Init (s : WriteSys) : Prop :=
  s.queue = [] ∧ (∀ t, s.threads t = .idle) ∧ s.sent = []

/-- The states to which steps that satisfy `ok` lead. -/
abbrev Reached (ok : WriteSys → WriteAct → Prop) : WriteSys → Prop := Reachable Init Step ok

/-- The data of every context was sent in the order in which it was queued. -/
def SentInOrder (s : WriteSys) : Prop := s.sent.Pairwise Write.Precedes

/-- No data write of a context is sent in a pass that has set one of them aside; none is taken by
a pass while another holds one; and none is put back behind one that was queued later. -/
def InTurn (s : WriteSys) : WriteAct → Prop
  | .send t .success => ∀ ctx returnIrps x, s.threads t = .context ctx returnIrps (some x) →
      ∀ y ∈ returnIrps, ¬ x.SameStream y
  | .take t => ∀ x q, s.takes t = some (some (x, q)) →
      ∀ t', t' ≠ t → ∀ y ∈ (s.threads t').held, ¬ x.SameStream y
  | .requeue t => ∀ x returnIrps, s.threads t = .requeue (x :: returnIrps) →
      ∀ y ∈ s.queue, y.Precedes x
  | _ => True

/-- **The invariant.**  What was sent, what waits and what a pass holds are in order, and while a
pass is looking for more, what it holds comes before what waits.  Only one pass holds data of a
context. -/
structure Ordered (s : WriteSys) : Prop where
  queue : (s.sent ++ s.queue).Pairwise Write.Precedes
  held : ∀ t, (s.sent ++ (s.threads t).held).Pairwise Write.Precedes
  before : ∀ t, (s.threads t).looping = true →
    ∀ x ∈ (s.threads t).held, ∀ y ∈ s.queue, x.Precedes y
  alone : ∀ t t', t ≠ t' → ∀ x ∈ (s.threads t).held, ∀ y ∈ (s.threads t').held, ¬ x.SameStream y
  orderly : ∀ t, (s.threads t).Orderly
  fresh : ∀ x, x ∈ s.sent ∨ x ∈ s.queue ∨ (∃ t, x ∈ (s.threads t).held) → x.isData = true →
    x.serial < s.serial
  dst : ∀ x ∈ s.queue, x.isData = true → x.dst = s.sdst x.fileObject

end WriteSys

/-! ## Writes and threads -/

section
variable {x y : Write} {th : Thread} {qp : QPeek}

theorem Write.SameStream.symm (h : x.SameStream y) : y.SameStream x := ⟨h.2.1, h.1, h.2.2.symm⟩

theorem Write.precedes_of_not (h : ¬ x.SameStream y) : x.Precedes y := fun hs => absurd hs h

theorem Write.not_sameStream_of_left (h : x.isData = false) : ¬ x.SameStream y := by
  rintro ⟨hx, -⟩
  rw [h] at hx
  cases hx

theorem Write.not_sameStream_of_right (h : y.isData = false) : ¬ x.SameStream y :=
  fun hs => Write.not_sameStream_of_left h hs.symm

theorem flags_of_isData (h : x.isData = true) :
    has x.flags peekStream = true ∧ has x.flags peekRst = false := by
  simp only [Write.isData, Bool.and_eq_true, Bool.not_eq_true', has_streamFlags,
    Bool.or_eq_false_iff] at h
  exact ⟨h.1.2, h.2.2⟩

/-- A SYN that was sent is no data. -/
theorem isData_swizzle (x : Write) : Write.isData { x with flags := swizzle x.flags } = false := by
  have hack : has (swizzle x.flags) peekStreamFlags = true := by
    rw [swizzle, has_comm, has_or, show has peekStreamFlags (peekRead ||| peekAck) = true by decide,
      Bool.or_true]
  rw [Write.isData, hack, Bool.not_true, Bool.and_false]

/-- Only a reset goes to the head. -/
theorem writeFlags_head {val : FileState} {dcs : PeekFlags × UInt64} {length : UInt32}
    {flags : PeekFlags} (h : writeFlags val dcs length = .ok (flags, true)) :
    flags = peekStream ||| peekWrite ||| peekRst := by
  cases val with
  | bound =>
    simp only [writeFlags] at h
    split at h <;> cases h
  | connected | accepted | listening | passive =>
    simp only [writeFlags] at h
    split at h
    · cases h
      rfl
    · split at h
      · cases h
      · simp at h
  | disconnected => cases h
  | uninitialized | idle | connecting | waiting | accepting | closed => cases h

theorem dispatchWrite_head {val : FileState} {dcs : PeekFlags × UInt64} {length : UInt32}
    {mapped : Bool} {flags : PeekFlags} (h : dispatchWrite val dcs length mapped = .ok (flags, true)) :
    flags = peekStream ||| peekWrite ||| peekRst := by
  rw [dispatchWrite] at h
  split at h
  · cases h
  · next p hp =>
    split at h
    · cases h
    · cases h
      exact writeFlags_head hp

theorem peek_cases (h : th.peek = some qp) :
    (∃ ctx returnIrps, th = .context ctx returnIrps none ∧
      qp = ⟨some ctx, peekAnyType, peekWrite, ⟨0, 0⟩⟩) ∨
    ∃ entry counter returnIrps locked, th = .destination entry counter returnIrps none locked ∧
      qp = ⟨none, peekAnyType, peekWrite, entry.ring⟩ := by
  unfold Thread.peek at h
  split at h
  · exact .inl ⟨_, _, rfl, (Option.some.inj h).symm⟩
  · exact .inr ⟨_, _, _, _, rfl, (Option.some.inj h).symm⟩
  · cases h

theorem has_peekAnyType {flags : PeekFlags} (h : has flags peekStream = true) :
    has peekAnyType (flags &&& peekAnyType) = true := by
  rw [has_and _ _ _ (by decide), show peekAnyType = peekStream ||| 0x0000fffd by decide, has_or, h,
    Bool.true_or]

theorem has_peekAnyOp {flags : PeekFlags} (h : has flags peekWrite = true) :
    has peekWrite (flags &&& peekAnyOp) = true := by
  rw [has_and _ _ _ (by decide), h]

/-- A search that finds a data write finds every data write of the context. -/
theorem test_sameStream {s : WriteSys} (hpeek : th.peek = some qp) (h : x.SameStream y)
    (hx : x.dst = s.sdst x.fileObject) (hy : y.dst = s.sdst y.fileObject)
    (htest : x.toPending.test qp = true) : y.toPending.test qp = true := by
  obtain ⟨-, hydata, hfile⟩ := h
  simp only [Write.isData, Bool.and_eq_true, Bool.not_eq_true'] at hydata
  obtain ⟨⟨hwrite, hstream⟩, -⟩ := hydata
  have htype := has_peekAnyType hstream
  have hop := has_peekAnyOp hwrite
  rw [Pending.test, Bool.and_eq_true] at htest ⊢
  rcases peek_cases hpeek with ⟨ctx, returnIrps, -, rfl⟩ | ⟨entry, counter, returnIrps, locked, -, rfl⟩
  · refine ⟨by rw [htype, hop]; rfl, ?_⟩
    rw [← hfile]
    exact htest.2
  · refine ⟨by rw [htype, hop]; rfl, ?_⟩
    dsimp only
    rw [hy, ← hfile, ← hx]
    exact htest.2

theorem held_take (x : Write) (h : th.peek = some qp) :
    (th.take x).held = th.held ++ [x] ∧ th.looping = true ∧ (th.Orderly → (th.take x).Orderly) := by
  rcases peek_cases h with ⟨ctx, returnIrps, rfl, -⟩ | ⟨entry, counter, returnIrps, locked, rfl, -⟩
  · exact ⟨by simp [Thread.take, Thread.held], rfl, fun _ => trivial⟩
  · exact ⟨by simp [Thread.take, Thread.held], rfl, id⟩

/-- Taking an IRP is `IoCsqRemoveNextIrp` on the queue of `csq.c`. -/
theorem removeNextIrp_takes {s : WriteSys} {t : Nat} {csq : Csq} (h : csq.Represented)
    (hview : csq.view = s.queue.map Write.toPending) (hpeek : (s.threads t).peek = some qp) :
    match removeNext (fun x => x.toPending.test qp) s.queue with
    | none => csq.removeNextIrp qp = some (none, csq)
    | some (x, q) => ∃ csq', csq.removeNextIrp qp = some (some x.id, csq') ∧ csq'.Represented ∧
        csq'.view = q.map Write.toPending := by
  have hsafe : Csq.QPeek.Safe qp := by
    rcases peek_cases hpeek with ⟨_, _, -, rfl⟩ | ⟨_, _, _, _, -, rfl⟩ <;> exact fun _ _ => rfl
  have hremove := Csq.removeNextIrp_view h hsafe
  rw [hview, removeNext_map] at hremove
  cases hnext : removeNext (fun x => x.toPending.test qp) s.queue with
  | none =>
    rw [hnext] at hremove
    exact hremove
  | some o =>
    rw [hnext] at hremove
    obtain ⟨csq', heq, hrep, -, hview'⟩ := hremove
    exact ⟨csq', heq, hrep, hview'⟩

end

/-! ## Steps -/

namespace WriteSys
variable {s s' : WriteSys} {t : Nat} {x : Write} {th : Thread}

theorem pairwise_data {l : List Write} :
    (l.filter Write.isData).Pairwise Write.Precedes ↔ l.Pairwise Write.Precedes := by
  rw [List.pairwise_filter]
  exact ⟨List.Pairwise.imp fun h hs => h hs.1 hs.2.1 hs, List.Pairwise.imp fun h _ _ => h⟩

theorem setThread_self (s : WriteSys) (t : Nat) (th : Thread) :
    (s.setThread t th).threads t = th :=
  Function.update_self ..

theorem setThread_of_ne (s : WriteSys) (th : Thread) {t' : Nat} (h : t' ≠ t) :
    (s.setThread t th).threads t' = s.threads t' :=
  Function.update_of_ne h ..

theorem Ordered.change (h : s.Ordered) (state : Nat → FileState) (type : Nat → FileType) :
    Ordered { s with state := state, type := type } :=
  ⟨h.queue, h.held, h.before, h.alone, h.orderly, h.fresh, h.dst⟩

/-- A thread goes on, and drops some of the data that it holds. -/
theorem Ordered.setThread (h : s.Ordered)
    (hheld : (th.held.filter Write.isData).Sublist (s.threads t).held)
    (hloop : th.looping = true → (s.threads t).looping = true ∨ th.held = [])
    (horderly : th.Orderly) : (s.setThread t th).Ordered := by
  have hmem : ∀ t', ∀ x ∈ ((s.setThread t th).threads t').held, x.isData = true →
      x ∈ (s.threads t').held := by
    intro t' x hx hdata
    by_cases ht : t' = t
    · subst ht
      rw [setThread_self] at hx
      exact hheld.subset (List.mem_filter.mpr ⟨hx, hdata⟩)
    · rwa [setThread_of_ne s th ht] at hx
  refine ⟨h.queue, fun t' => ?_, fun t' hl x hx y hy => ?_, fun t₁ t₂ hne x hx y hy hs => ?_,
    fun t' => ?_, fun x hx hdata => ?_, h.dst⟩
  · by_cases ht : t' = t
    · subst ht
      rw [← pairwise_data, List.filter_append, setThread_self]
      exact (h.held t').sublist (List.filter_sublist.append hheld)
    · rw [setThread_of_ne s th ht]
      exact h.held t'
  · intro hs
    have hx' := hmem t' x hx hs.1
    by_cases ht : t' = t
    · subst ht
      rw [setThread_self] at hl hx
      rcases hloop hl with hl | hnil
      · exact h.before t' hl x hx' y hy hs
      · rw [hnil] at hx
        cases hx
    · rw [setThread_of_ne s th ht] at hl
      exact h.before t' hl x hx' y hy hs
  · exact h.alone t₁ t₂ hne x (hmem t₁ x hx hs.1) y (hmem t₂ y hy hs.2.1) hs
  · by_cases ht : t' = t
    · subst ht
      rw [setThread_self]
      exact horderly
    · rw [setThread_of_ne s th ht]
      exact h.orderly t'
  · refine h.fresh x ?_ hdata
    rcases hx with hx | hx | ⟨t', hx⟩
    · exact .inl hx
    · exact .inr (.inl hx)
    · exact .inr (.inr ⟨t', hmem t' x hx hdata⟩)

/-- IRPs leave the queue. -/
theorem Ordered.dequeue (h : s.Ordered) {q : List Write} (hq : q.Sublist s.queue) :
    Ordered { s with queue := q } := by
  refine ⟨h.queue.sublist (hq.append_left _), h.held, fun t hl x hx y hy =>
    h.before t hl x hx y (hq.subset hy), h.alone, h.orderly, fun x hx hdata => ?_,
    fun x hx => h.dst x (hq.subset hx)⟩
  rcases hx with hx | hx | hx
  · exact h.fresh x (.inl hx) hdata
  · exact h.fresh x (.inr (.inl (hq.subset hx))) hdata
  · exact h.fresh x (.inr (.inr hx)) hdata

/-- An IRP that is queued for the first time. -/
theorem Ordered.enqueue (h : s.Ordered) {p : Pending} {insertHead : Bool}
    (hhead : insertHead = true → Write.isData ⟨p, s.serial⟩ = false)
    (hdst : Write.isData ⟨p, s.serial⟩ = true → p.dst = s.sdst p.fileObject) :
    Ordered { s with
      queue := Csq.place insertHead ⟨p, s.serial⟩ s.queue
      serial := s.serial + 1 } := by
  have hlast : ∀ x, x ∈ s.sent ∨ x ∈ s.queue ∨ (∃ t, x ∈ (s.threads t).held) →
      x.Precedes ⟨p, s.serial⟩ := fun x hx hs => h.fresh x hx hs.1
  have hmem : ∀ x ∈ Csq.place insertHead ⟨p, s.serial⟩ s.queue, x = ⟨p, s.serial⟩ ∨ x ∈ s.queue := by
    intro x hx
    cases insertHead <;> simpa [Csq.place, or_comm] using hx
  refine ⟨?_, h.held, fun t hl x hx y hy => ?_, h.alone, h.orderly, fun x hx hdata => ?_,
    fun x hx hdata => ?_⟩
  · cases hi : insertHead with
    | false =>
      rw [Csq.place, if_neg (by simp), ← List.append_assoc, List.pairwise_append]
      refine ⟨h.queue, List.pairwise_singleton _ _, fun x hx y hy => ?_⟩
      rw [List.mem_singleton.mp hy]
      rcases List.mem_append.mp hx with hx | hx
      · exact hlast x (.inl hx)
      · exact hlast x (.inr (.inl hx))
    | true =>
      rw [Csq.place, if_pos rfl, ← pairwise_data, List.filter_append, List.filter_cons_of_neg]
      · rw [← List.filter_append, pairwise_data]
        exact h.queue
      · rw [hhead hi]
        exact Bool.false_ne_true
  · rcases hmem y hy with rfl | hy
    · exact hlast x (.inr (.inr ⟨t, hx⟩))
    · exact h.before t hl x hx y hy
  · rcases hx with hx | hx | hx
    · exact Nat.lt_succ_of_lt (h.fresh x (.inl hx) hdata)
    · rcases hmem x hx with rfl | hx
      · exact Nat.lt_succ_self _
      · exact Nat.lt_succ_of_lt (h.fresh x (.inr (.inl hx)) hdata)
    · exact Nat.lt_succ_of_lt (h.fresh x (.inr (.inr hx)) hdata)
  · rcases hmem x hx with rfl | hx
    · exact hdst hdata
    · exact h.dst x hx hdata

/-- A thread holds one more IRP. -/
theorem Ordered.hold (h : s.Ordered) (hheld : th.held = (s.threads t).held ++ [x])
    (hloop : (s.threads t).looping = true) (horderly : th.Orderly)
    (hsent : ∀ y ∈ s.sent, y.Precedes x) (hown : ∀ y ∈ (s.threads t).held, y.Precedes x)
    (hqueue : ∀ y ∈ s.queue, x.Precedes y) (hfresh : x.isData = true → x.serial < s.serial)
    (hturn : ∀ t', t' ≠ t → ∀ y ∈ (s.threads t').held, ¬ x.SameStream y) :
    (s.setThread t th).Ordered := by
  have hmem : ∀ t', ∀ y ∈ ((s.setThread t th).threads t').held,
      y ∈ (s.threads t').held ∨ t' = t ∧ y = x := by
    intro t' y hy
    by_cases ht : t' = t
    · subst ht
      rw [setThread_self, hheld] at hy
      exact (List.mem_append.mp hy).imp_right fun hy => ⟨rfl, List.mem_singleton.mp hy⟩
    · rw [setThread_of_ne s th ht] at hy
      exact .inl hy
  refine ⟨h.queue, fun t' => ?_, fun t' hl y hy z hz => ?_, fun t₁ t₂ hne y hy z hz => ?_,
    fun t' => ?_, fun y hy hdata => ?_, h.dst⟩
  · by_cases ht : t' = t
    · subst ht
      rw [setThread_self, hheld, ← List.append_assoc, List.pairwise_append]
      refine ⟨h.held t', List.pairwise_singleton _ _, fun y hy z hz => ?_⟩
      rw [List.mem_singleton.mp hz]
      exact (List.mem_append.mp hy).elim (hsent y) (hown y)
    · rw [setThread_of_ne s th ht]
      exact h.held t'
  · rcases hmem t' y hy with hy | ⟨-, rfl⟩
    · refine h.before t' ?_ y hy z hz
      by_cases ht : t' = t
      · rw [ht]
        exact hloop
      · rwa [setThread_of_ne s th ht] at hl
    · exact hqueue z hz
  · rcases hmem t₁ y hy with hy' | ⟨rfl, rfl⟩ <;> rcases hmem t₂ z hz with hz' | ⟨rfl, rfl⟩
    · exact h.alone t₁ t₂ hne y hy' z hz'
    · exact fun hs => hturn t₁ hne y hy' hs.symm
    · exact hturn t₂ hne.symm z hz'
    · exact absurd rfl hne
  · by_cases ht : t' = t
    · subst ht
      rw [setThread_self]
      exact horderly
    · rw [setThread_of_ne s th ht]
      exact h.orderly t'
  · rcases hy with hy | hy | ⟨t', hy⟩
    · exact h.fresh y (.inl hy) hdata
    · exact h.fresh y (.inr (.inl hy)) hdata
    · rcases hmem t' y hy with hy | ⟨-, rfl⟩
      · exact h.fresh y (.inr (.inr ⟨t', hy⟩)) hdata
      · exact hfresh hdata

/-- **Taking an IRP.**  It is the oldest data write of its context that waits. -/
theorem Ordered.take (h : s.Ordered) {q : List Write} (htakes : s.takes t = some (some (x, q)))
    (hturn : ∀ t', t' ≠ t → ∀ y ∈ (s.threads t').held, ¬ x.SameStream y) :
    Ordered ({ s with queue := q }.setThread t ((s.threads t).take x)) := by
  obtain ⟨qp, hpeek, hnext⟩ := Option.map_eq_some_iff.mp htakes
  obtain ⟨htest, l₁, l₂, hq, rfl, hl₁⟩ := removeNext_eq_some hnext
  obtain ⟨hheld, hloop, horderly⟩ := held_take x hpeek
  have hmem : ∀ y, y ∈ s.queue ↔ y ∈ l₁ ∨ y = x ∨ y ∈ l₂ := by
    intro y
    rw [hq, List.mem_append, List.mem_cons]
  have hx : x ∈ s.queue := (hmem x).mpr (.inr (.inl rfl))
  -- what stands in front of it was passed over, so it is of other contexts
  have hskip : ∀ y ∈ l₁, ¬ x.SameStream y := by
    intro y hy hs
    have hyq : y ∈ s.queue := (hmem y).mpr (.inl hy)
    have hfail := hl₁ y hy
    rw [test_sameStream hpeek hs (h.dst x hx hs.1) (h.dst y hyq hs.2.1) htest] at hfail
    cases hfail
  have hsub : (l₁ ++ l₂).Sublist s.queue := by
    rw [hq]
    exact (List.sublist_cons_self x l₂).append_left l₁
  obtain ⟨-, hwait, hsent⟩ := List.pairwise_append.mp h.queue
  refine (h.dequeue hsub).hold hheld hloop (horderly (h.orderly t)) (fun y hy => hsent y hy x hx)
    (fun y hy => h.before t hloop y hy x hx) (fun y hy => ?_) (h.fresh x (.inr (.inl hx))) hturn
  rcases List.mem_append.mp hy with hy | hy
  · exact Write.precedes_of_not (hskip y hy)
  · rw [hq] at hwait
    exact List.rel_of_pairwise_cons (List.pairwise_append.mp hwait).2.1 hy

theorem pairwise_log {sent l : List Write} (h : (sent ++ l).Pairwise Write.Precedes)
    (hsent : ∀ y ∈ sent, y.Precedes x) (hl : ∀ y ∈ l, x.Precedes y) :
    (sent ++ [x] ++ l).Pairwise Write.Precedes := by
  obtain ⟨h₁, h₂, h₁₂⟩ := List.pairwise_append.mp h
  rw [List.append_assoc, List.singleton_append, List.pairwise_append, List.pairwise_cons]
  refine ⟨h₁, ⟨hl, h₂⟩, fun y hy z hz => ?_⟩
  rcases List.mem_cons.mp hz with rfl | hz
  · exact hsent y hy
  · exact h₁₂ y hy z hz

/-- An IRP enters the log of what was sent. -/
theorem Ordered.log (h : s.Ordered) (hsent : ∀ y ∈ s.sent, y.Precedes x)
    (hqueue : ∀ y ∈ s.queue, x.Precedes y) (hheld : ∀ t, ∀ y ∈ (s.threads t).held, x.Precedes y)
    (hfresh : x.isData = true → x.serial < s.serial) :
    Ordered { s with sent := s.sent ++ [x] } := by
  refine ⟨pairwise_log h.queue hsent hqueue, fun t => pairwise_log (h.held t) hsent (hheld t),
    h.before, h.alone, h.orderly, fun y hy hdata => ?_, h.dst⟩
  rcases hy with hy | hy
  · rcases List.mem_append.mp hy with hy | hy
    · exact h.fresh y (.inl hy) hdata
    · rw [List.mem_singleton.mp hy] at hdata ⊢
      exact hfresh hdata
  · exact h.fresh y (.inr hy) hdata

/-- **Sending an IRP**, of which the pass has set aside no data of the same context. -/
theorem Ordered.send (h : s.Ordered) (hx : x ∈ (s.threads t).held)
    (hloop : (s.threads t).looping = true)
    (hheld : (th.held.filter Write.isData).Sublist (s.threads t).held) (horderly : th.Orderly)
    (hturn : ∀ y ∈ th.held, ¬ x.SameStream y) :
    Ordered ({ s with sent := s.sent ++ [x] }.setThread t th) := by
  have hset := h.setThread hheld (fun _ => .inl hloop) horderly
  refine hset.log (fun y hy => ?_) (fun y hy => h.before t hloop x hx y hy) (fun t' y hy => ?_)
    (h.fresh x (.inr (.inr ⟨t, hx⟩)))
  · exact (List.pairwise_append.mp (h.held t)).2.2 y hy x hx
  · refine Write.precedes_of_not ?_
    by_cases ht : t' = t
    · subst ht
      rw [setThread_self] at hy
      exact hturn y hy
    · rw [setThread_of_ne _ _ ht] at hy
      exact h.alone t t' (Ne.symm ht) x hx y hy

/-- **Putting an IRP back.** -/
theorem Ordered.requeue (h : s.Ordered) {returnIrps : List Write} {dst : Addr}
    (hth : s.threads t = .requeue (x :: returnIrps)) (hdst : s.ReadsDst x.toPending dst)
    (hturn : ∀ y ∈ s.queue, y.Precedes x) :
    Ordered ({ s with
      queue := Csq.place false { x with dst := dst } s.queue }.setThread t (.requeue returnIrps)) := by
  have hx : x ∈ (s.threads t).held := by
    rw [hth]
    exact List.mem_cons_self
  have hset : (s.setThread t (.requeue returnIrps)).Ordered := by
    refine h.setThread ?_ (fun hl => by cases hl) trivial
    rw [hth]
    exact List.filter_sublist.trans (List.sublist_cons_self x returnIrps)
  refine ⟨?_, hset.held, fun t' hl y hy z hz => ?_, hset.alone, hset.orderly,
    fun y hy hdata => ?_, fun y hy hdata => ?_⟩
  · show (s.sent ++ (s.queue ++ [{ x with dst := dst }])).Pairwise Write.Precedes
    rw [← List.append_assoc, List.pairwise_append]
    refine ⟨h.queue, List.pairwise_singleton _ _, fun y hy z hz => ?_⟩
    rw [List.mem_singleton.mp hz]
    rcases List.mem_append.mp hy with hy | hy
    · exact (List.pairwise_append.mp (h.held t)).2.2 y hy x hx
    · exact hturn y hy
  · rcases List.mem_append.mp hz with hz | hz
    · exact hset.before t' hl y hy z hz
    · -- the others hold no data of the context
      rw [List.mem_singleton.mp hz]
      by_cases ht : t' = t
      · subst ht
        rw [setThread_self] at hl
        cases hl
      · rw [setThread_of_ne _ _ ht] at hy
        exact fun hs => absurd hs (h.alone t' t ht y hy x hx)
  · rcases hy with hy | hy | hy
    · exact h.fresh y (.inl hy) hdata
    · rcases List.mem_append.mp hy with hy | hy
      · exact h.fresh y (.inr (.inl hy)) hdata
      · rw [List.mem_singleton.mp hy] at hdata ⊢
        exact h.fresh x (.inr (.inr ⟨t, hx⟩)) hdata
    · exact hset.fresh y (.inr (.inr hy)) hdata
  · rcases List.mem_append.mp hy with hy | hy
    · exact h.dst y hy hdata
    · rw [List.mem_singleton.mp hy] at hdata ⊢
      obtain ⟨hstream, hrst⟩ := flags_of_isData hdata
      exact hdst hrst hstream

/-- `V4vDoWrite` without success sends nothing. -/
theorem doWrite_of_ne (s : WriteSys) (x : Write) {status : SendStatus} (h : status ≠ .success) :
    ∃ state, (s.doWrite x status).2 = { s with state := state } ∧
      ((s.doWrite x status).1 = .retry ∨ (s.doWrite x status).1 = .failed) := by
  cases status with
  | success => exact absurd rfl h
  | retry => exact ⟨s.state, rfl, .inl rfl⟩
  | circuitClosed | failed =>
    simp only [doWrite]
    split
    · exact ⟨_, rfl, .inr trivial⟩
    · exact ⟨s.state, rfl, .inr trivial⟩

/-- With success the IRP is sent; a SYN is left to be queued again. -/
theorem doWrite_success (s : WriteSys) (x : Write) :
    ∃ state, (s.doWrite x .success).2 = { s with sent := s.sent ++ [x], state := state } ∧
      ((s.doWrite x .success).1 = .success ∨
        (s.doWrite x .success).1 = .pending { x with flags := swizzle x.flags }) := by
  simp only [doWrite]
  split
  · exact ⟨s.state, rfl, .inr rfl⟩
  · split
    · exact ⟨_, rfl, .inl rfl⟩
    · exact ⟨s.state, rfl, .inl rfl⟩

/-- Only a SYN is left to be queued again. -/
theorem doWrite_pending {status : SendStatus} {irp : Write}
    (h : (s.doWrite x status).1 = .pending irp) : irp.isData = false := by
  by_cases hstatus : status = .success
  · subst hstatus
    obtain ⟨-, -, hw | hw⟩ := doWrite_success s x
    · rw [hw] at h
      cases h
    · rw [hw] at h
      cases h
      exact isData_swizzle x
  · obtain ⟨-, -, hw | hw⟩ := doWrite_of_ne s x hstatus <;> rw [hw] at h <;> cases h

/-- **A pass behind `V4vDoWrite`**, which has sent nothing past data of the same context. -/
theorem Ordered.wrote (h : s.Ordered) {returnIrps : List Write} {status : SendStatus}
    (hheld : (s.threads t).held = returnIrps ++ [x]) (hloop : (s.threads t).looping = true)
    (hturn : status = .success → ∀ y ∈ returnIrps, ¬ x.SameStream y)
    (hth : th.held = returnIrps ++ (s.doWrite x status).1.returned x) (horderly : th.Orderly) :
    Ordered ((s.doWrite x status).2.setThread t th) := by
  by_cases hstatus : status = .success
  · subst hstatus
    obtain ⟨state, hs, hw⟩ := doWrite_success s x
    have hdata : th.held.filter Write.isData = returnIrps.filter Write.isData := by
      rw [hth, List.filter_append]
      rcases hw with hw | hw <;> rw [hw] <;> simp [WriteStatus.returned, isData_swizzle]
    have hmem : x ∈ (s.threads t).held := by
      rw [hheld]
      simp
    rw [hs]
    refine (h.send hmem hloop ?_ horderly fun y hy hs => ?_).change state s.type
    · rw [hdata, hheld]
      exact List.filter_sublist.trans (List.sublist_append_left _ _)
    · have hy' := List.mem_filter.mpr ⟨hy, hs.2.1⟩
      rw [hdata] at hy'
      exact hturn rfl y (List.mem_filter.mp hy').1 hs
  · obtain ⟨state, hs, hw⟩ := doWrite_of_ne s x hstatus
    rw [hs]
    refine (h.setThread ?_ (fun _ => .inl hloop) horderly).change state s.type
    rw [hth, hheld]
    refine List.filter_sublist.trans ?_
    rcases hw with hw | hw <;> rw [hw] <;> simp [WriteStatus.returned]

theorem orderly_destinationWrote {entry : DataEntry} {counter : Nat} {returnIrps : List Write}
    {w : WriteStatus} (h : ∀ y ∈ returnIrps, y.isData = false)
    (hw : ∀ irp, w = .pending irp → irp.isData = false) :
    (Thread.destinationWrote entry counter returnIrps x w).Orderly := by
  have hmem : ∀ y ∈ returnIrps ++ w.returned x, w ≠ .retry → y.isData = false := by
    intro y hy hne
    rcases List.mem_append.mp hy with hy | hy
    · exact h y hy
    · cases w with
      | success | failed => cases hy
      | retry => exact absurd rfl hne
      | pending irp =>
        rw [List.mem_singleton.mp hy]
        exact hw irp rfl
  cases w with
  | success | failed | pending => exact fun y hy => hmem y hy (by simp)
  | retry => trivial

/-- **One step keeps the order.** -/
theorem Ordered.step (h : s.Ordered) {a : WriteAct} (hok : s.InTurn a) (hs : s.Step a s') :
    s'.Ordered := by
  cases hs with
  | dispatch hth hflags =>
    refine h.setThread (List.nil_sublist _) (fun _ => .inr rfl) fun hhead n => ?_
    subst hhead
    rw [Write.isData, dispatchWrite_head hflags]
    decide
  | @insert t x insertHead dst hth hdst =>
    refine Ordered.setThread (h.enqueue (fun hhead => ?_) fun hdata => ?_) (List.nil_sublist _)
      (fun _ => .inr rfl) trivial
    · have horderly := h.orderly t
      rw [hth] at horderly
      exact horderly hhead s.serial
    · obtain ⟨hstream, hrst⟩ := flags_of_isData hdata
      exact hdst hrst hstream
  | insertFails hth => exact h.setThread (List.nil_sublist _) (fun _ => .inr rfl) trivial
  | process hth => exact h.setThread (List.nil_sublist _) (fun _ => .inr rfl) trivial
  | enter hth hfree => exact h.setThread (List.nil_sublist _) (fun _ => .inr rfl) trivial
  | notify hth =>
    exact h.setThread (List.nil_sublist _) (fun _ => .inr rfl) fun y hy => by cases hy
  | take htakes => exact h.take htakes (hok _ _ htakes)
  | stop htakes => exact h.setThread List.filter_sublist (fun hl => by cases hl) trivial
  | @lock t counter entry returnIrps x hth hfree =>
    have horderly := h.orderly t
    rw [hth] at horderly
    refine h.setThread ?_ (fun _ => .inl (by rw [hth]; rfl)) horderly
    rw [hth]
    exact List.filter_sublist
  | @contextSend t ctx returnIrps x status hth =>
    refine h.wrote (by rw [hth]; rfl) (by rw [hth]; rfl) (fun hstatus => ?_) ?_ trivial
    · subst hstatus
      exact hok _ _ _ hth
    · rw [Thread.contextWrote, Thread.held, Option.toList_none, List.append_nil]
  | @destinationSend t counter entry returnIrps x status hth hexists hcounter =>
    have horderly := h.orderly t
    rw [hth] at horderly
    refine h.wrote (by rw [hth]; rfl) (by rw [hth]; rfl)
      (fun _ y hy => Write.not_sameStream_of_right (horderly y hy)) ?_
      (orderly_destinationWrote horderly fun irp => doWrite_pending)
    cases (s.doWrite x status).1 <;> simp [Thread.destinationWrote, Thread.held]
  | @gone t counter entry returnIrps x hth hexists =>
    have horderly := h.orderly t
    rw [hth] at horderly
    have hset : (s.setThread t (.destination entry counter returnIrps none false)).Ordered :=
      h.setThread (by rw [hth]; exact List.filter_sublist.trans (by simp [Thread.held]))
      (fun _ => .inl (by rw [hth]; rfl)) horderly
    split
    · exact hset.change _ s.type
    · exact hset
  | @insufficient t entry returnIrps x hth hexists hsufficient =>
    refine h.setThread ?_ (fun hl => by cases hl) trivial
    rw [hth]
    exact List.filter_sublist
  | requeue hth hdst => exact h.requeue hth hdst (hok _ _ hth)
  | requeueFails hth =>
    refine h.setThread ?_ (fun hl => by cases hl) trivial
    rw [hth]
    exact List.filter_sublist.trans (List.sublist_cons_self _ _)
  | done hth => exact h.setThread (List.nil_sublist _) (fun _ => .inr rfl) trivial
  | queueOther hdata =>
    exact h.enqueue (fun _ => hdata) fun hdata' => by rw [hdata] at hdata'; cases hdata'
  | leave => exact h.dequeue List.erase_sublist
  | change => exact h.change _ _

theorem Init.ordered (h : s.Init) : s.Ordered := by
  obtain ⟨hqueue, hthreads, hsent⟩ := h
  refine ⟨by rw [hsent, hqueue]; exact .nil, fun t => by rw [hsent, hthreads]; exact .nil,
    fun t _ x hx => ?_, fun t _ _ x hx => ?_, fun t => by rw [hthreads]; trivial, fun x hx => ?_,
    fun x hx => ?_⟩
  · rw [hthreads] at hx
    cases hx
  · rw [hthreads] at hx
    cases hx
  · rw [hsent, hqueue] at hx
    rcases hx with hx | hx | ⟨t, hx⟩
    · cases hx
    · cases hx
    · rw [hthreads] at hx
      cases hx
  · rw [hqueue] at hx
    cases hx

/-- **Stream writes keep their order** in every run in which no data write of a context is sent in
a pass that has set one of them aside, none is taken by a pass while another holds one, and none
is put back behind one that was queued later. -/
theorem writes_in_order {s : WriteSys} (h : Reached InTurn s) : s.SentInOrder :=
  (List.pairwise_append.mp
    (h.invariant (fun _ => Init.ordered) fun _ _ _ hs hok => hs.step hok).queue).1

/-- A connected stream, before the first write. -/
def connectedStream : WriteSys where
  state := fun _ => .connected
  type := fun _ => .connector
  sdst := fun _ => ⟨5000, 7⟩
  ring := fun _ => 0
  queue := []
  threads := fun _ => .idle
  serial := 0
  sent := []

/-- A write of the stream. -/
def streamWrite (length : UInt32) (serial : Nat) : Write :=
  ⟨⟨serial, peekStream ||| peekWrite, length, 0, ⟨5000, 7⟩⟩, serial⟩

theorem dispatch_connectedStream (length : UInt32) :
    dispatchWrite .connected (0, 0) length true = .ok (peekStream ||| peekWrite, false) := by
  simp only [dispatchWrite, writeFlags]
  rw [if_neg (by decide), if_neg (by decide), if_neg (by simp)]
  simp

/-- Both writes of a stream are sent in order when there is room for both. -/
theorem writes_in_order_two : ∃ s, Reached InTurn s ∧ s.SentInOrder ∧
    s.sent = [streamWrite 4096 0, streamWrite 16 1] := by
  have h₁ : Reached InTurn connectedStream := .start ⟨rfl, fun _ => rfl, rfl⟩
  have h₂ := h₁.next (i := WriteAct.dispatch 0) trivial (Step.dispatch (t := 0)
    (x := (streamWrite 4096 0).toPending) rfl (dispatch_connectedStream 4096))
  have h₃ := h₂.next (i := WriteAct.insert 0) trivial (Step.insert (t := 0) rfl fun _ _ => rfl)
  have h₄ := h₃.next (i := WriteAct.dispatch 1) trivial (Step.dispatch (t := 1)
    (x := (streamWrite 16 1).toPending) rfl (dispatch_connectedStream 16))
  have h₅ := h₄.next (i := WriteAct.insert 1) trivial (Step.insert (t := 1) rfl fun _ _ => rfl)
  have h₆ := h₅.next (i := WriteAct.enter 0) trivial (Step.enter (t := 0) rfl fun t => by
    rcases t with _ | _ | t <;> exact fun hlocks => by cases hlocks)
  have h₇ := h₆.next (i := WriteAct.take 0) (fun x q htakes t hne y hy => by
    rcases t with _ | _ | t <;> [exact absurd rfl hne; cases hy; cases hy])
    (Step.take (t := 0) (x := streamWrite 4096 0) (q := [streamWrite 16 1]) (by decide))
  have h₈ := h₇.next (i := WriteAct.send 0 .success) (fun ctx returnIrps x hth y hy => by
    cases hth
    cases hy) (Step.contextSend (t := 0) rfl)
  have h₉ := h₈.next (i := WriteAct.take 0) (fun x q htakes t hne y hy => by
    rcases t with _ | _ | t <;> [exact absurd rfl hne; cases hy; cases hy])
    (Step.take (t := 0) (x := streamWrite 16 1) (q := []) (by decide))
  have h₁₀ := h₉.next (i := WriteAct.send 0 .success) (fun ctx returnIrps x hth y hy => by
    cases hth
    cases hy) (Step.contextSend (t := 0) rfl)
  exact ⟨_, h₁₀, writes_in_order h₁₀, rfl⟩

theorem short_write_overtakes :
    ¬ ∀ s, Reached (fun _ _ => True) s → s.SentInOrder := by
  intro h
  -- a long and a short write are queued
  have h₁ : Reached (fun _ _ => True) connectedStream := .start ⟨rfl, fun _ => rfl, rfl⟩
  have h₂ := h₁.next trivial (Step.dispatch (t := 0) (x := (streamWrite 4096 0).toPending) rfl
    (dispatch_connectedStream 4096))
  have h₃ := h₂.next trivial (Step.insert (t := 0) rfl fun _ _ => rfl)
  have h₄ := h₃.next trivial (Step.dispatch (t := 1) (x := (streamWrite 16 1).toPending) rfl
    (dispatch_connectedStream 16))
  have h₅ := h₄.next trivial (Step.insert (t := 1) rfl fun _ _ => rfl)
  -- there is no room for the long one, so the pass sends the short one
  have h₆ := h₅.next trivial (Step.enter (t := 0) rfl fun t => by
    rcases t with _ | _ | t <;> exact fun hlocks => by cases hlocks)
  have h₇ := h₆.next trivial (Step.take (t := 0) (x := streamWrite 4096 0) (q := [streamWrite 16 1])
    (by decide))
  have h₈ := h₇.next (i := WriteAct.send 0 .retry) trivial (Step.contextSend (t := 0) rfl)
  have h₉ := h₈.next trivial (Step.take (t := 0) (x := streamWrite 16 1) (q := []) (by decide))
  have h₁₀ := h₉.next (i := WriteAct.send 0 .success) trivial (Step.contextSend (t := 0) rfl)
  have h₁₁ := h₁₀.next trivial (Step.stop (t := 0) (by decide))
  have h₁₂ := h₁₁.next trivial (Step.requeue (t := 0) (x := streamWrite 4096 0) rfl fun _ _ => rfl)
  have h₁₃ := h₁₂.next trivial (Step.done (t := 0) rfl)
  -- the other pass finds room for the long one
  have h₁₄ := h₁₃.next trivial (Step.enter (t := 1) rfl fun t => by
    rcases t with _ | _ | t <;> exact fun hlocks => by cases hlocks)
  have h₁₅ := h₁₄.next trivial (Step.take (t := 1) (x := streamWrite 4096 0) (q := []) (by decide))
  have h₁₆ := h₁₅.next (i := WriteAct.send 1 .success) trivial (Step.contextSend (t := 1) rfl)
  have hsent : [streamWrite 16 1, streamWrite 4096 0].Pairwise Write.Precedes := h _ h₁₆
  have hlt : (1 : Nat) < 0 := List.rel_of_pairwise_cons hsent List.mem_cons_self
    ⟨by decide, by decide, rfl⟩
  exact absurd hlt (by decide)

end WriteSys

end V4v.Windows
