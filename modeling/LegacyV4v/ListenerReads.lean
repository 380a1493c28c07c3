import LegacyV4v.FileContext
import LegacyV4v.StreamSocket

/-! # What a message can do to the accepters of a listener on Windows

`V4vProcessListenerReads` finds the accepter for a message by its connection id alone, among all
contexts of the device, and then means to check that the message is from that accepter's peer.  But
`XENV4V_ADDR_COMPARE` takes structures, and here it is given pointers to them, so it compares the
addresses of the fields, which are never the same.  (If it did compare the fields, it would drop
what is from the peer and let through the rest.)  And nobody checks that the accepter is one of the
listener's.

So a message of anybody is taken as the accepter's if it bears its connection id.  A listener's
ring is the list of its messages, as in the Linux driver, and the recovery of a damaged ring is
left out. -/
namespace V4v.Windows
open Linux (StreamHeader peekHeader streamMessage shfSyn shfAck shfRst)

/-- Where a `v4v_addr_t` lies: in a context, or on the stack. -/
inductive Place where
  | sdst (ctx : Nat)
  | src
  deriving DecidableEq

/-- `XENV4V_ADDR_COMPARE` between two pointers: the addresses of the ports are the same, and those
of the domains. -/
def addrCompare (a b : Place) : Bool := a == b

/-- A context is not on the stack. -/
theorem addrCompare_src (ctx : Nat) : addrCompare (.sdst ctx) .src = false := rfl

/-- The result of one message: the device, the ring, the RSTs, and whether the pass ends. -/
structure ListenerOut where
  device : Device
  ring : List Message
  resets : List SentReset
  stop : Bool

namespace Device
variable {s s' : Device} {l ctx : Nat} {irp : Pending}

/-- `V4vGetContextByConnectionId`. -/
def getContextByConnectionId (s : Device) (connId : UInt64) : Option Nat :=
  s.contextList.find? fun ctx => (s.contexts ctx).state == .accepted &&
    (s.contexts ctx).type == .accepter && (s.contexts ctx).connId == connId

/-- What `V4vDoAccepts` looks for. -/
def acceptPeek (l : Nat) : QPeek := ⟨some l, peekStream, peekAccept, ⟨0, 0⟩⟩

/-- `V4vDoAccepts`: pending SYNs and accept IRPs are paired.  `ack` says whether there is memory for
the ACK. -/
def doAccepts (s : Device) (l : Nat) (ack : Nat → Bool) : Device :=
  match (s.contexts l).synList with
  | [] => s
  | (dst, connId) :: synList =>
    match h : s.removeNextIrp (acceptPeek l) with
    | none => s
    | some (irp, s') =>
      have := removeNextIrp_length h
      let s' := s'.setContext l { s'.contexts l with synList := synList }
      let actx := s'.stashed irp.id
      let x := { s'.contexts actx with sdst := dst, connId := connId }
      if ack irp.id then
        doAccepts ((s'.setContext actx { x with state := .accepted }).complete irp .success []) l ack
      else
        doAccepts ((s'.setContext actx { x with state := .disconnected }).complete irp .noMemory [])
          l ack
termination_by s.queue.length

/-- `V4vProcessPreAcceptReads`. -/
def processPreAcceptReads (s : Device) (l : Nat) (sh : StreamHeader) (src : Addr)
    (ack : Nat → Bool) : Device × List SentReset :=
  let x := s.contexts l
  if x.synList.length = x.backlog then (s, [⟨sh.conid, src⟩])
  else
    (doAccepts (s.setContext l { x with synList := x.synList ++ [(src, sh.conid.toUInt64)] }) l ack,
      [])

/-- Keep data for an accepter, if there is memory for it. -/
def queueData (s : Device) (actx : Nat) (data : List UInt8) (pool : Bool) : Bool × Device :=
  if pool then
    let x := s.contexts actx
    (true, s.setContext actx { x with dataList := x.dataList ++ [data] })
  else (false, s)

/-- `V4vProcessAccepterBufferedReads`, and whether the message was taken from the ring. -/
def processAccepterBufferedReads (s : Device) (actx : Nat) (data : List UInt8) (pool : Bool) :
    Bool × Device :=
  let s := (s.processAccepterReads actx).2
  match s.removeNextIrp (readPeek actx) with
  | some (irp, s') =>
    if irp.length.toNat < data.length then
      (s'.complete irp .bufferOverflow []).queueData actx data pool
    else (true, s'.complete irp .success data)
  | none => s.queueData actx data pool

/-- One round of `V4vProcessListenerReads`, for message `m` in front of `rest`. -/
def listenerRead (s : Device) (l : Nat) (state : FileState) (m : Message) (rest : List Message)
    (pool : Bool) (ack : Nat → Bool) : ListenerOut :=
  match peekHeader m with
  | none => ⟨s, rest, [], false⟩
  | some (sh, data) =>
    let reset := if sh.has shfRst then [] else [⟨sh.conid, m.source⟩]
    if sh.has shfSyn then
      if state = .listening then
        let p := s.processPreAcceptReads l sh m.source ack
        ⟨p.1, rest, p.2, false⟩
      else
        -- one more message is dumped
        ⟨s, rest.tail, reset, false⟩
    else
      match s.getContextByConnectionId sh.conid.toUInt64 with
      | none => ⟨s, rest, reset, false⟩
      | some actx =>
        if addrCompare (.sdst actx) .src then ⟨s, rest, reset, false⟩
        else if sh.has shfRst then ⟨s.disconnectStreamAndSignal actx, m :: rest, [], true⟩
        else
          let p := s.processAccepterBufferedReads actx data pool
          ⟨p.2, if p.1 then rest else m :: rest, [], false⟩

/-! ## Isolation -/

/-- The message is from the accepter's peer, for its connection, and in its listener's ring. -/
structure Own (s : Device) (l : Nat) (m : Message) (actx : Nat) : Prop where
  source : (s.contexts actx).sdst = m.source
  conid : ∀ sh data, peekHeader m = some (sh, data) → (s.contexts actx).connId = sh.conid.toUInt64
  listener : (s.contexts actx).listenerContext = some l

/-- State, data and reads of an accepter. -/
def accepterView (s : Device) (actx : Nat) : FileState × List (List UInt8) × List Pending :=
  ((s.contexts actx).state, (s.contexts actx).dataList, s.reads actx)

/-- A message in the ring of listener `l` touches only accepted connections whose own it is. -/
def Isolated (l : Nat) (m : Message) (s s' : Device) : Prop :=
  ∀ actx ∈ s.contextList, (s.contexts actx).type = .accepter → (s.contexts actx).state = .accepted →
    ¬ s.Own l m actx → s'.accepterView actx = s.accepterView actx

/-- No accept IRP that is queued is for a connection that is accepted already. -/
def AcceptsFresh (s : Device) (l : Nat) : Prop :=
  ∀ irp ∈ s.queue, irp.test (acceptPeek l) = true → (s.contexts (s.stashed irp.id)).state ≠ .accepted

/-- The connection that the connection id finds is the message's own. -/
def Genuine (s : Device) (l : Nat) (m : Message) : Prop :=
  ∀ sh data actx, peekHeader m = some (sh, data) → sh.has shfSyn = false →
    s.getContextByConnectionId sh.conid.toUInt64 = some actx → s.Own l m actx

theorem Untouched.view (h : Untouched ctx s s') : s'.accepterView ctx = s.accepterView ctx := by
  rw [accepterView, accepterView, h.context, h.reads]

theorem getContextByConnectionId_some {connId : UInt64}
    (h : s.getContextByConnectionId connId = some ctx) : ctx ∈ s.contextList ∧
      (s.contexts ctx).state = .accepted ∧ (s.contexts ctx).type = .accepter ∧
        (s.contexts ctx).connId = connId := by
  have hsel := List.find?_some h
  simp only [Bool.and_eq_true, beq_iff_eq] at hsel
  exact ⟨List.mem_of_find?_eq_some h, hsel.1.1, hsel.1.2, hsel.2⟩

/-- Accepting connections leaves those alone for which there is no accept IRP. -/
theorem untouched_doAccepts (s : Device) (ack : Nat → Bool) (hne : ctx ≠ l)
    (h : ∀ irp ∈ s.queue, irp.test (acceptPeek l) = true → s.stashed irp.id ≠ ctx) :
    Untouched ctx s (s.doAccepts l ack) := by
  have hqueue : ∀ {s s' : Device} {irp : Pending},
      (∀ irp ∈ s.queue, irp.test (acceptPeek l) = true → s.stashed irp.id ≠ ctx) →
      s.removeNextIrp (acceptPeek l) = some (irp, s') → s'.stashed irp.id ≠ ctx ∧
        ∀ irp ∈ s'.queue, irp.test (acceptPeek l) = true → s'.stashed irp.id ≠ ctx := by
    intro s s' irp h hsome
    obtain ⟨htest, l₁, l₂, hq, rfl, -⟩ := removeNextIrp_some hsome
    refine ⟨h irp (by rw [hq]; simp) htest, fun irp' hmem => h irp' ?_⟩
    rw [hq]
    exact ((List.sublist_cons_self irp l₂).append_left l₁).subset hmem
  have hpair : ∀ {s s' : Device} {irp : Pending} {x y : FileContext} {status : NtStatus},
      s.removeNextIrp (acceptPeek l) = some (irp, s') → s'.stashed irp.id ≠ ctx →
      Untouched ctx s
        (((s'.setContext l y).setContext (s'.stashed irp.id) x).complete irp status []) := by
    intro s s' irp x y status hsome hactx
    have hfile : irp.fileObject = l := fileObject_of_test (removeNextIrp_some hsome).1
    have htaken := untouched_removeNextIrp hsome (hfile ▸ hne.symm)
    exact ((htaken.trans (.setContext _ y hne)).trans (.setContext _ x hactx.symm)).trans
      (.complete _ irp status [])
  fun_induction doAccepts s l ack with
  | case1 s hnil => exact .refl ctx s
  | case2 s dst connId synList hlist hnone => exact .refl ctx s
  | case3 s dst connId synList hlist irp s' hsome _ s'' actx x hack ih =>
    exact (hpair hsome (hqueue h hsome).1).trans (ih (hqueue h hsome).2)
  | case4 s dst connId synList hlist irp s' hsome _ s'' actx x hack ih =>
    exact (hpair hsome (hqueue h hsome).1).trans (ih (hqueue h hsome).2)

/-- The writes of one file are no reads of another. -/
theorem untouched_disconnect (s : Device) (hne : ctx ≠ l) :
    Untouched ctx s (s.disconnectStreamAndSignal l) := by
  refine ⟨setContext_of_ne s _ hne, ?_⟩
  show (s.queue.filter _).filter _ = s.queue.filter _
  rw [List.filter_filter]
  refine List.filter_congr fun x _ => ?_
  cases htest : x.test (readPeek ctx) with
  | false => rfl
  | true =>
    have hfile : x.fileObject = ctx := fileObject_of_test htest
    have hwrite : x.test (writePeek l) = false := by
      rw [Bool.eq_false_iff]
      intro hwrite
      exact hne (hfile.symm.trans (fileObject_of_test hwrite))
    rw [hwrite]
    rfl

theorem state_disconnect (s : Device) (ctx : Nat) :
    ((s.disconnectStreamAndSignal ctx).contexts ctx).state = .disconnected := by
  show ((s.setContext ctx _).contexts ctx).state = .disconnected
  rw [setContext_self]

theorem untouched_processPreAcceptReads (s : Device) (sh : StreamHeader) (src : Addr)
    (ack : Nat → Bool) (hne : ctx ≠ l)
    (h : ∀ irp ∈ s.queue, irp.test (acceptPeek l) = true → s.stashed irp.id ≠ ctx) :
    Untouched ctx s (s.processPreAcceptReads l sh src ack).1 := by
  rw [processPreAcceptReads]
  split
  · exact .refl ctx s
  · exact (Untouched.setContext s _ hne).trans (untouched_doAccepts _ ack hne h)

theorem untouched_queueData (s : Device) (data : List UInt8) (pool : Bool) (hne : ctx ≠ l) :
    Untouched ctx s (s.queueData l data pool).2 := by
  rw [queueData]
  split
  · exact .setContext s _ hne
  · exact .refl ctx s

theorem untouched_bufferedReads (s : Device) (data : List UInt8) (pool : Bool) (hne : ctx ≠ l) :
    Untouched ctx s (s.processAccepterBufferedReads l data pool).2 := by
  have hserved := untouched_processAccepterReads s hne
  rw [processAccepterBufferedReads]
  split
  · next irp s' hsome =>
    have hfile : irp.fileObject = l := fileObject_of_test (removeNextIrp_some hsome).1
    have htaken := hserved.trans (untouched_removeNextIrp hsome (hfile ▸ hne.symm))
    split
    · exact (htaken.trans (.complete s' irp _ _)).trans (untouched_queueData _ data pool hne)
    · exact htaken.trans (.complete s' irp _ _)
  · exact hserved.trans (untouched_queueData _ data pool hne)

theorem reads_queueData (s : Device) (data : List UInt8) (pool : Bool) :
    (s.queueData l data pool).2.reads ctx = s.reads ctx := by
  rw [queueData]
  split <;> rfl

/-- Data that is read for an accepter can be seen there, if there is memory for it. -/
theorem view_bufferedReads_ne (s : Device) (data : List UInt8) :
    (s.processAccepterBufferedReads ctx data true).2.accepterView ctx ≠ s.accepterView ctx := by
  intro hview
  simp only [accepterView, Prod.mk.injEq] at hview
  obtain ⟨-, hlist, hreads⟩ := hview
  obtain ⟨used, hused, hnil⟩ := (served_processAccepterReads s ctx).reads
  cases hnext : (s.processAccepterReads ctx).2.removeNextIrp (readPeek ctx) with
  | some o =>
    -- a read is gone
    obtain ⟨irp, s'⟩ := o
    have hgone : (s.processAccepterBufferedReads ctx data true).2.reads ctx = s'.reads ctx := by
      rw [processAccepterBufferedReads, hnext]
      dsimp only
      split
      · exact reads_queueData _ data true
      · rfl
    rw [hgone, hused, reads_of_removeNextIrp hnext] at hreads
    have hlen := congrArg List.length hreads
    rw [List.length_append, List.length_cons] at hlen
    omega
  | none =>
    -- no read is gone, and the data is at the end of the list
    have hqueued : s.processAccepterBufferedReads ctx data true =
        (s.processAccepterReads ctx).2.queueData ctx data true := by
      rw [processAccepterBufferedReads, hnext]
    rw [hqueued, reads_queueData, hused] at hreads
    have hsame := hnil (List.self_eq_append_left.mp hreads)
    rw [hqueued, hsame, queueData, if_pos rfl] at hlist
    dsimp only at hlist
    rw [setContext_self] at hlist
    simp at hlist

/-- A listener with one accepted connection, number 7 of port 5 of domain 2. -/
def oneAccepted : Device where
  contexts := fun ctx =>
    if ctx = 0 then ⟨.listening, .listener, ⟨0, 0⟩, 0, 4, [], none, []⟩
    else ⟨.accepted, .accepter, ⟨5, 2⟩, 7, 0, [], some 0, []⟩
  contextList := [1, 0]
  queue := []
  stashed := fun _ => 0
  completed := []

end Device

end V4v.Windows
