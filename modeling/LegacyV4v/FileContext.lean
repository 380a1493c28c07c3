import LegacyV4v.PendingQueue

/-! # Contexts of the Windows driver

Every open file has a context; contexts and their files are named alike.  The state of a context
is changed by exchanges, one at a time, and its type is set when the file is bound, or becomes one
end of a stream.  Accepters share the ring of their listener, which sorts out what comes in; what
no read waits for is kept in the `dataList` of the accepter. -/
namespace V4v.Windows

/-- `XENV4V_STATE_*`. -/
inductive FileState where
  | uninitialized
  | idle
  | bound
  | listening
  | connecting
  | waiting
  | accepting
  | connected
  | accepted
  | disconnected
  | passive
  | closed
  deriving DecidableEq, Repr

/-- `XENV4V_TYPE_*`. -/
inductive FileType where
  | unspecified
  | datagram
  | listener
  | connector
  | accepter
  deriving DecidableEq, Repr

/-- `XENV4V_FILE_TYPE_STREAM`. -/
def FileType.isStream : FileType → Bool
  | .listener | .connector | .accepter => true
  | .unspecified | .datagram => false

/-- The codes with which IRPs are completed. -/
inductive NtStatus where
  | success
  | bufferTooSmall
  | bufferOverflow
  | invalidDeviceRequest
  | deviceProtocolError
  | internalError
  | noMemory
  | quotaExceeded
  | cancelled
  | virtualCircuitClosed
  | internalDbCorruption
  deriving DecidableEq, Repr

/-- `XENV4V_CONTEXT`: of a listener `backlog` and the pending SYNs, oldest first, of an accepter
the listener and the data that was read for it. -/
structure FileContext where
  state : FileState
  type : FileType
  sdst : Addr
  connId : UInt64
  backlog : Nat
  synList : List (Addr × UInt64)
  listenerContext : Option Nat
  dataList : List (List UInt8)
  deriving DecidableEq

/-- A completed IRP with what was copied to its buffer. -/
structure Completion where
  irp : Pending
  status : NtStatus
  data : List UInt8
  deriving DecidableEq

/-- A RST that is sent at once, or by a work item. -/
structure SentReset where
  conid : UInt32
  dst : Addr
  deriving DecidableEq, Repr

/-- The device: the contexts and the list of them, the queue, the accepter whose address each
accept IRP carries, and the completed IRPs, oldest first. -/
structure Device where
  contexts : Nat → FileContext
  contextList : List Nat
  queue : List Pending
  stashed : Nat → Nat
  completed : List Completion

/-- What a search for the reads of a stream looks for. -/
def readPeek (ctx : Nat) : QPeek := ⟨some ctx, peekStream, peekRead, ⟨0, 0⟩⟩

/-- What `V4vCancelAllFileIrps` looks for. -/
def writePeek (ctx : Nat) : QPeek := ⟨some ctx, peekAnyType, peekWrite, ⟨0, 0⟩⟩

namespace Device
variable {s s' : Device} {ctx ctx' : Nat} {irp : Pending}

def setContext (s : Device) (ctx : Nat) (x : FileContext) : Device :=
  { s with contexts := Function.update s.contexts ctx x }

/-- `IoCompleteRequest`. -/
def complete (s : Device) (irp : Pending) (status : NtStatus) (data : List UInt8) : Device :=
  { s with completed := s.completed ++ [⟨irp, status, data⟩] }

/-- `IoCsqRemoveNextIrp`. -/
def removeNextIrp (s : Device) (qp : QPeek) : Option (Pending × Device) :=
  (removeNext (Pending.test qp) s.queue).map fun o => (o.1, { s with queue := o.2 })

/-- The queued reads of a stream. -/
def reads (s : Device) (ctx : Nat) : List Pending := s.queue.filter (Pending.test (readPeek ctx))

/-- `V4vCancelAllFileIrps`: in spite of its name it takes the writes only. -/
def cancelAllFileIrps (s : Device) (ctx : Nat) : Device :=
  { s with
    queue := s.queue.filter fun x => !x.test (writePeek ctx)
    completed := s.completed ++
      (s.queue.filter (Pending.test (writePeek ctx))).map fun x => ⟨x, .cancelled, []⟩ }

/-- `V4vDisconnectStreamAndSignal`. -/
def disconnectStreamAndSignal (s : Device) (ctx : Nat) : Device :=
  let x := s.contexts ctx
  let x := if x.state = .accepted then { x with dataList := [] } else x
  (s.setContext ctx { x with state := .disconnected }).cancelAllFileIrps ctx

theorem removeNextIrp_length {qp : QPeek} (h : s.removeNextIrp qp = some (irp, s')) :
    s'.queue.length < s.queue.length := by
  obtain ⟨o, ho, heq⟩ := Option.map_eq_some_iff.mp h
  cases heq
  obtain ⟨-, l₁, l₂, hq, hq', -⟩ := removeNext_eq_some ho
  dsimp only
  rw [hq, hq', List.length_append, List.length_append, List.length_cons]
  omega

/-- `V4vProcessAccepterReads`: reads are served from the `dataList` until one of the two is
empty.  The result says whether there is data left and no read. -/
def processAccepterReads (s : Device) (ctx : Nat) : Bool × Device :=
  match (s.contexts ctx).dataList with
  | [] => (false, s)
  | pd :: dataList =>
    match h : s.removeNextIrp (readPeek ctx) with
    | none => (true, s)
    | some (irp, s') =>
      have := removeNextIrp_length h
      if has irp.flags (peekSyn ||| peekAck) then
        processAccepterReads (s'.complete irp .invalidDeviceRequest []) ctx
      else if irp.length.toNat < pd.length then
        -- the data stays
        processAccepterReads (s'.complete irp .bufferOverflow []) ctx
      else
        processAccepterReads
          ((s'.complete irp .success pd).setContext ctx { s.contexts ctx with dataList := dataList })
          ctx
termination_by s.queue.length

/-- What was handed to the reads of a stream. -/
def handed (s : Device) (ctx : Nat) : List (List UInt8) :=
  (s.completed.filter fun c => c.irp.test (readPeek ctx) && c.status == .success).map Completion.data

/-! ## Reads and contexts -/

/-- A context and its reads are as before. -/
structure Untouched (ctx : Nat) (s s' : Device) : Prop where
  context : s'.contexts ctx = s.contexts ctx
  reads : s'.reads ctx = s.reads ctx

theorem Untouched.refl (ctx : Nat) (s : Device) : Untouched ctx s s := ⟨rfl, rfl⟩

theorem Untouched.trans {s'' : Device} (h : Untouched ctx s s') (h' : Untouched ctx s' s'') :
    Untouched ctx s s'' :=
  ⟨h'.context.trans h.context, h'.reads.trans h.reads⟩

theorem setContext_self (s : Device) (ctx : Nat) (x : FileContext) :
    (s.setContext ctx x).contexts ctx = x :=
  Function.update_self ..

theorem setContext_of_ne (s : Device) (x : FileContext) (h : ctx' ≠ ctx) :
    (s.setContext ctx x).contexts ctx' = s.contexts ctx' :=
  Function.update_of_ne h ..

theorem Untouched.setContext (s : Device) (x : FileContext) (h : ctx' ≠ ctx) :
    Untouched ctx' s (s.setContext ctx x) :=
  ⟨setContext_of_ne s x h, rfl⟩

theorem Untouched.complete (s : Device) (irp : Pending) (status : NtStatus) (data : List UInt8) :
    Untouched ctx s (s.complete irp status data) :=
  ⟨rfl, rfl⟩

/-- An IRP of one file is no read of another. -/
theorem test_readPeek_of_ne (h : irp.fileObject ≠ ctx) : irp.test (readPeek ctx) = false := by
  have hne : (irp.fileObject == ctx) = false := beq_eq_false_iff_ne.mpr h
  rw [Pending.test, readPeek]
  dsimp only
  rw [hne, Bool.and_false]

theorem fileObject_of_test {types ops : PeekFlags} {dst : Addr}
    (h : irp.test ⟨some ctx, types, ops, dst⟩ = true) : irp.fileObject = ctx := by
  rw [Pending.test, Bool.and_eq_true] at h
  exact beq_iff_eq.mp h.2

theorem reads_eq_nil (h : s.removeNextIrp (readPeek ctx) = none) : s.reads ctx = [] := by
  rw [reads, List.filter_eq_nil_iff]
  intro x hx
  rw [removeNext_eq_none (Option.map_eq_none_iff.mp h) x hx]
  exact Bool.false_ne_true

/-- What a search takes out of the queue. -/
theorem removeNextIrp_some {qp : QPeek} (h : s.removeNextIrp qp = some (irp, s')) :
    irp.test qp = true ∧ ∃ l₁ l₂, s.queue = l₁ ++ irp :: l₂ ∧ s' = { s with queue := l₁ ++ l₂ } ∧
      ∀ y ∈ l₁, y.test qp = false := by
  obtain ⟨⟨x, q⟩, ho, heq⟩ := Option.map_eq_some_iff.mp h
  obtain ⟨rfl, rfl⟩ := Prod.mk.inj heq
  obtain ⟨htest, l₁, l₂, hq, rfl, hl₁⟩ := removeNext_eq_some ho
  exact ⟨htest, l₁, l₂, hq, rfl, hl₁⟩

/-- It takes the first read. -/
theorem reads_of_removeNextIrp (h : s.removeNextIrp (readPeek ctx) = some (irp, s')) :
    s.reads ctx = irp :: s'.reads ctx := by
  obtain ⟨htest, l₁, l₂, hq, rfl, hl₁⟩ := removeNextIrp_some h
  have hnil : l₁.filter (Pending.test (readPeek ctx)) = [] := by
    rw [List.filter_eq_nil_iff]
    intro y hy
    rw [hl₁ y hy]
    exact Bool.false_ne_true
  rw [reads, reads, hq, List.filter_append, List.filter_append, hnil, List.filter_cons_of_pos htest]
  rfl

/-- It takes no read of another stream. -/
theorem untouched_removeNextIrp {qp : QPeek} (h : s.removeNextIrp qp = some (irp, s'))
    (hfile : irp.fileObject ≠ ctx) : Untouched ctx s s' := by
  obtain ⟨-, l₁, l₂, hq, rfl, -⟩ := removeNextIrp_some h
  refine ⟨rfl, ?_⟩
  rw [reads, reads, hq, List.filter_append, List.filter_append,
    List.filter_cons_of_neg (by rw [test_readPeek_of_ne hfile]; exact Bool.false_ne_true)]

/-- The reads of one stream leave the others alone. -/
theorem untouched_processAccepterReads (s : Device) (hne : ctx' ≠ ctx) :
    Untouched ctx' s (s.processAccepterReads ctx).2 := by
  have hfirst : ∀ {s s' : Device} {irp : Pending} {status : NtStatus} {data : List UInt8},
      s.removeNextIrp (readPeek ctx) = some (irp, s') →
      Untouched ctx' s (s'.complete irp status data) := by
    intro s s' irp status data h
    have hfile : irp.fileObject = ctx := fileObject_of_test (removeNextIrp_some h).1
    exact (untouched_removeNextIrp h (hfile ▸ hne.symm)).trans (.complete s' irp status data)
  fun_induction processAccepterReads s ctx with
  | case1 s hnil => exact .refl ctx' s
  | case2 s pd dataList hlist hnone => exact .refl ctx' s
  | case3 s pd dataList hlist irp s' h _ hflags ih => exact (hfirst h).trans ih
  | case4 s pd dataList hlist irp s' h _ hflags hlen ih => exact (hfirst h).trans ih
  | case5 s pd dataList hlist irp s' h _ hflags hlen ih =>
    exact ((hfirst h).trans (.setContext _ _ hne)).trans ih

/-- Data from the front of the `dataList` was handed to reads from the front of the queue. -/
structure Served (ctx : Nat) (s s' : Device) : Prop where
  context : s'.contexts ctx = { s.contexts ctx with dataList := (s'.contexts ctx).dataList }
  data : ∃ given, (s.contexts ctx).dataList = given ++ (s'.contexts ctx).dataList ∧
    s'.handed ctx = s.handed ctx ++ given
  reads : ∃ used, s.reads ctx = used ++ s'.reads ctx ∧ (used = [] → s' = s)

theorem Served.refl (ctx : Nat) (s : Device) : Served ctx s s :=
  ⟨rfl, ⟨[], rfl, (List.append_nil _).symm⟩, [], rfl, fun _ => rfl⟩

theorem Served.trans {s'' : Device} (h : Served ctx s s') (h' : Served ctx s' s'') :
    Served ctx s s'' := by
  obtain ⟨given, hdata, hhanded⟩ := h.data
  obtain ⟨given', hdata', hhanded'⟩ := h'.data
  obtain ⟨used, hreads, hnil⟩ := h.reads
  obtain ⟨used', hreads', hnil'⟩ := h'.reads
  refine ⟨?_, ⟨given ++ given', ?_, ?_⟩, used ++ used', ?_, fun happ => ?_⟩
  · rw [h'.context, h.context]
  · rw [hdata, hdata', List.append_assoc]
  · rw [hhanded', hhanded, List.append_assoc]
  · rw [hreads, hreads', List.append_assoc]
  · obtain ⟨hused, hused'⟩ := List.append_eq_nil_iff.mp happ
    rw [hnil' hused', hnil hused]

/-- A read is taken and completed. -/
theorem served_complete {status : NtStatus} {data : List UInt8}
    (h : s.removeNextIrp (readPeek ctx) = some (irp, s')) (hstatus : status ≠ .success) :
    Served ctx s (s'.complete irp status data) := by
  have hreads := reads_of_removeNextIrp h
  obtain ⟨-, l₁, l₂, -, rfl, -⟩ := removeNextIrp_some h
  refine ⟨rfl, ⟨[], rfl, ?_⟩, [irp], hreads, fun hnil => by cases hnil⟩
  rw [handed, handed, complete, List.filter_append, List.map_append]
  simp [hstatus]

/-- The reads of the stream are served from the front of the `dataList`. -/
theorem served_processAccepterReads (s : Device) (ctx : Nat) :
    Served ctx s (s.processAccepterReads ctx).2 := by
  fun_induction processAccepterReads s ctx with
  | case1 s hnil => exact .refl ctx s
  | case2 s pd dataList hlist hnone => exact .refl ctx s
  | case3 s pd dataList hlist irp s' h _ hflags ih => exact (served_complete h (by decide)).trans ih
  | case4 s pd dataList hlist irp s' h _ hflags hlen ih =>
    exact (served_complete h (by decide)).trans ih
  | case5 s pd dataList hlist irp s' h _ hflags hlen ih =>
    refine Served.trans ?_ ih
    have hreads := reads_of_removeNextIrp h
    obtain ⟨htest, l₁, l₂, -, rfl, -⟩ := removeNextIrp_some h
    refine ⟨?_, ⟨[pd], ?_, ?_⟩, [irp], hreads, fun hnil => by cases hnil⟩
    · rw [setContext_self]
    · rw [setContext_self, hlist]
      rfl
    · simp only [handed, complete, setContext, List.filter_append, List.map_append]
      simp [htest]

theorem processAccepterReads_nil (h : (s.contexts ctx).dataList = []) :
    s.processAccepterReads ctx = (false, s) := by
  have hdef := processAccepterReads.eq_def s ctx
  split at hdef
  · exact hdef
  · next hlist =>
    rw [h] at hlist
    cases hlist

theorem processAccepterReads_none (h : (s.contexts ctx).dataList ≠ [])
    (hnone : s.removeNextIrp (readPeek ctx) = none) : s.processAccepterReads ctx = (true, s) := by
  have hdef := processAccepterReads.eq_def s ctx
  split at hdef
  · next hnil => exact absurd hnil h
  · split at hdef
    · exact hdef
    · next hsome =>
      rw [hnone] at hsome
      cases hsome

/-- It ends because nothing is left, or no read. -/
theorem processAccepterReads_end (s : Device) (ctx : Nat) :
    if (s.processAccepterReads ctx).1 then
      ((s.processAccepterReads ctx).2.contexts ctx).dataList ≠ [] ∧
        (s.processAccepterReads ctx).2.reads ctx = []
    else ((s.processAccepterReads ctx).2.contexts ctx).dataList = [] := by
  fun_induction processAccepterReads s ctx with
  | case1 s hnil => exact hnil
  | case2 s pd dataList hlist hnone =>
    refine ⟨?_, reads_eq_nil hnone⟩
    rw [hlist]
    exact List.cons_ne_nil _ _
  | case3 s pd dataList hlist irp s' h _ hflags ih => exact ih
  | case4 s pd dataList hlist irp s' h _ hflags hlen ih => exact ih
  | case5 s pd dataList hlist irp s' h _ hflags hlen ih => exact ih

end Device

end V4v.Windows
