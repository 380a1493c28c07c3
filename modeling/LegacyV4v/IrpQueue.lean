import LegacyV4v.GuardedRun
import LegacyV4v.PointerChain
import LegacyV4v.RingFormat

/-! # The Windows driver's queue of pending IRPs

`csq.c` keeps every pending IRP in one queue, and beside it one record for each destination to
which a queued write goes: how many there are, the first of them, and how many bytes it will
send, which is what `V4vCopyDestinationRingData` tells Xen.  The write IRPs of a destination are
chained through records of their own, allocated from the same lookaside list, which also keep the
destination that was read from the IRP when it was queued.

IRPs and file objects are named by their addresses.  A failed `ASSERT`, a null pointer that is
followed, and a loop that does not end are `none`. -/
namespace V4v.Windows
open GuardedRun PointerChain

/-! ## Flags -/

/-- The types and operations that `DriverContext[0]` holds. -/
abbrev PeekFlags := UInt64

/-- `XENV4V_PEEK_DGRAM`. -/
def peekDgram : PeekFlags := 0x00000001
/-- `XENV4V_PEEK_STREAM`. -/
def peekStream : PeekFlags := 0x00000002
/-- `XENV4V_PEEK_ANY_TYPE`. -/
def peekAnyType : PeekFlags := 0x0000ffff
/-- `XENV4V_PEEK_ACCEPT`. -/
def peekAccept : PeekFlags := 0x00010000
/-- `XENV4V_PEEK_SYN`. -/
def peekSyn : PeekFlags := 0x00100000
/-- `XENV4V_PEEK_ACK`. -/
def peekAck : PeekFlags := 0x00200000
/-- `XENV4V_PEEK_RST`. -/
def peekRst : PeekFlags := 0x00400000
/-- `XENV4V_PEEK_READ`. -/
def peekRead : PeekFlags := 0x01000000
/-- `XENV4V_PEEK_WRITE`. -/
def peekWrite : PeekFlags := 0x02000000
/-- `XENV4V_PEEK_IOCTL`. -/
def peekIoctl : PeekFlags := 0x04000000
/-- `XENV4V_PEEK_ANY_OP`. -/
def peekAnyOp : PeekFlags := 0xffff0000

/-- `XENV4V_PEEK_STREAM_FLAGS`. -/
def peekStreamFlags : PeekFlags := peekSyn ||| peekAck ||| peekRst

/-- `flags & mask`. -/
def has (flags mask : PeekFlags) : Bool := flags &&& mask != 0

theorem has_or (flags f g : PeekFlags) : has flags (f ||| g) = (has flags f || has flags g) := by
  have hdist : flags &&& (f ||| g) = (flags &&& f) ||| (flags &&& g) := by
    rw [← UInt64.toBitVec_inj]
    simp only [UInt64.toBitVec_and, UInt64.toBitVec_or]
    exact BitVec.and_or_distrib_left
  rw [Bool.eq_iff_iff]
  simp only [has, hdist, bne_iff_ne, ne_eq, UInt64.or_eq_zero_iff, Bool.or_eq_true]
  tauto

theorem has_comm (f g : PeekFlags) : has f g = has g f := by
  rw [has, has, UInt64.and_comm]

theorem has_and (mask flags types : PeekFlags) (h : types &&& mask = mask) :
    has mask (flags &&& types) = has flags mask := by
  rw [has, has, UInt64.and_comm flags types, ← UInt64.and_assoc, UInt64.and_comm mask types, h,
    UInt64.and_comm mask flags]

theorem has_streamFlags (flags : PeekFlags) :
    has flags peekStreamFlags = (has flags peekSyn || has flags peekAck || has flags peekRst) := by
  rw [peekStreamFlags, has_or, has_or]

/-! ## IRPs and records -/

/-- `sizeof (V4V_STREAM)`. -/
def sizeofStream : UInt32 := 8

/-- `sizeof (V4V_DATAGRAM)`. -/
def sizeofDatagram : UInt32 := 6

/-- `XENV4V_MAX_IRP_COUNT`. -/
def maxIrpCount : Nat := 65536

/-- `XENV4V_DESTINATION`: a destination's record, or that of a queued IRP, in which only `nextIrp`
and `dst` are used. -/
structure Destination where
  refc : Nat
  nextLength : UInt32
  nextIrp : Option Nat
  dst : Addr
  deriving DecidableEq, Repr

/-- An IRP: `DriverContext[0]` and `[1]`, the length of its buffer, its file object, and the
addresses that its buffer shows as a datagram and as an `XENV4V_RESET`.  The device does direct
IO, and an MDL describes a page less than 4 GB. -/
structure Irp where
  flags : PeekFlags
  length : UInt32
  fileObject : Nat
  bufferDst : Addr
  resetDst : Addr
  record : Option Destination
  length_le : length.toNat ≤ 4294967296 - 4096

/-- `XENV4V_PAYLOAD_DATA_LEN`. -/
def payloadDataLen (irp : Irp) : UInt32 :=
  if has irp.flags peekStreamFlags then sizeofStream
  else if has irp.flags peekStream then irp.length + sizeofStream
  else irp.length - sizeofDatagram

/-- The protocols. -/
def protoDgram : UInt32 := 0x3c2c1db8
def protoStream : UInt32 := 0x70f6a8e5

/-- What `V4vGetWriteIrpValues` gives, without the pointer to the message. -/
structure WriteValues where
  dst : Addr
  len : UInt32
  protocol : UInt32

/-- `V4vGetWriteIrpValues`; `sdst` is that of the IRP's context. -/
def getWriteIrpValues (sdst : Addr) (irp : Irp) : WriteValues :=
  if has irp.flags peekSyn then ⟨sdst, sizeofStream, protoStream⟩
  else if has irp.flags peekAck then ⟨sdst, sizeofStream, protoStream⟩
  else if has irp.flags peekRst then ⟨irp.resetDst, sizeofStream, protoStream⟩
  else if has irp.flags peekStream then ⟨sdst, irp.length, protoStream⟩
  else ⟨irp.bufferDst, irp.length - sizeofDatagram, protoDgram⟩

/-- How many bytes `V4vDoWrite` hands to the hypercall, `V4vSendVec` with the stream header in
front, or `V4vSend`. -/
def doWriteBytes (sdst : Addr) (irp : Irp) : Nat :=
  if has irp.flags peekStream ∧ has irp.flags peekStreamFlags = false then
    sizeofStream.toNat + (getWriteIrpValues sdst irp).len.toNat
  else (getWriteIrpValues sdst irp).len.toNat

/-- The macro computes what is sent. -/
theorem payloadDataLen_toNat (sdst : Addr) (irp : Irp) :
    (payloadDataLen irp).toNat = doWriteBytes sdst irp := by
  have hadd : (irp.length + sizeofStream).toNat = sizeofStream.toNat + irp.length.toNat := by
    have hle := irp.length_le
    rw [UInt32.toNat_add, sizeofStream]
    simp only [UInt32.reduceToNat]
    omega
  rw [payloadDataLen, doWriteBytes, getWriteIrpValues, has_streamFlags]
  cases has irp.flags peekSyn <;> cases has irp.flags peekAck <;> cases has irp.flags peekRst <;>
    cases has irp.flags peekStream <;> simp [hadd]

/-! ## The queue -/

/-- The queue and the records of the device, with the IRPs and the `sdst` of the contexts. -/
structure Csq where
  irps : Nat → Irp
  sdst : Nat → Addr
  pendingIrpQueue : List Nat
  pendingIrpCount : Int
  destList : List Destination
  destCount : Int

/-- `DOMID_INVALID`. -/
def domidInvalid : DomId := 0x7ff4

/-- `XENV4V_QPEEK`; `pfo` may be null. -/
structure QPeek where
  fileObject : Option Nat
  types : PeekFlags
  ops : PeekFlags
  dst : Addr

/-- What a call of `V4vCsqInsertIrpEx` returns. -/
inductive InsertStatus where
  | success
  | quotaExceeded
  | noMemory
  deriving DecidableEq, Repr

namespace Csq

/-- `V4vCsqGetDestination`. -/
def getDestination (s : Csq) (i : Nat) : Addr :=
  if has (s.irps i).flags peekRst then (s.irps i).resetDst
  else if has (s.irps i).flags peekStream then s.sdst (s.irps i).fileObject
  else (s.irps i).bufferDst

/-- The IRP behind `i` in its chain. -/
def next (s : Csq) (i : Nat) : Option Nat := (s.irps i).record.bind Destination.nextIrp

/-- Assign `DriverContext[1]`. -/
def setRecord (s : Csq) (i : Nat) (r : Option Destination) : Csq :=
  { s with irps := Function.update s.irps i { s.irps i with record := r } }

/-- Assign `nextIrp` in the record of IRP `i`. -/
def setNext (s : Csq) (i : Nat) (p : Option Nat) : Option Csq :=
  match (s.irps i).record with
  | none => none
  | some d => some (s.setRecord i (some { d with nextIrp := p }))

/-- `V4vCsqChainIrp`; a chain is no longer than the queue. -/
def chainIrp (s : Csq) (xdst : Destination) (i : Nat) (front : Bool) : Option (Csq × Destination) :=
  match xdst.nextIrp with
  | none => none
  | some first =>
    if front then
      (s.setNext i (some first)).map fun s' =>
        (s', { xdst with nextIrp := some i, nextLength := payloadDataLen (s.irps i) })
    else
      match walk s.next s.pendingIrpQueue.length first with
      | none => none
      | some j => (s.setNext j (some i)).map fun s' => (s', xdst)

/-- `V4vCsqUnchainIrp`; the record of the IRP is freed right behind it. -/
def unchainIrp (s : Csq) (xdst : Destination) (i : Nat) : Option (Csq × Destination) :=
  match xdst.nextIrp, (s.irps i).record with
  | some first, some idst =>
    match seek s.next i s.pendingIrpQueue.length none first with
    | none => none
    | some none =>
      -- found up front
      match idst.nextIrp with
      | none => some (s, { xdst with nextIrp := none })
      | some j =>
        some (s, { xdst with nextIrp := some j, nextLength := payloadDataLen (s.irps j) })
    | some (some j) => (s.setNext j idst.nextIrp).map fun s' => (s', xdst)
  | _, _ => none

/-- The loop over `destList` that looks for the record of a destination: what stands before it,
the record, and what stands behind it. -/
def findDestination (dst : Addr) : List Destination →
    Option (List Destination × Destination × List Destination)
  | [] => none
  | xdst :: l =>
    if xdst.dst = dst then some ([], xdst, l)
    else (findDestination dst l).map fun o => (xdst :: o.1, o.2)

/-- `V4vCsqLinkDestination`; `first` and `second` say whether the two allocations succeed. -/
def linkDestination (s : Csq) (i : Nat) (front first second : Bool) : Option (Bool × Csq) :=
  let dst := s.getDestination i
  if first = false then some (false, s.setRecord i none)
  else
    let s := s.setRecord i (some ⟨0, 0, none, dst⟩)
    match findDestination dst s.destList with
    | some (before, xdst, after) =>
      if xdst.refc = 0 then none
      else
        (s.chainIrp { xdst with refc := xdst.refc + 1 } i front).map fun o =>
          (true, { o.1 with destList := before ++ o.2 :: after })
    | none =>
      if second = false then some (false, s.setRecord i none)
      else
        some (true, { s with
          destList := s.destList ++ [⟨1, payloadDataLen (s.irps i), some i, dst⟩]
          destCount := s.destCount + 1 })

/-- `V4vCsqUnlinkDestination`. -/
def unlinkDestination (s : Csq) (i : Nat) : Option Csq :=
  if s.destCount ≤ 0 then none
  else
    match (s.irps i).record with
    | none => none
    | some idst =>
      match findDestination idst.dst s.destList with
      | none => some s
      | some (before, xdst, after) =>
        if xdst.refc = 0 ∨ xdst.nextIrp = none then none
        else
          match s.unchainIrp xdst i with
          | none => none
          | some (s, xdst) =>
            let s := s.setRecord i none
            if xdst.refc - 1 = 0 then
              if xdst.nextIrp ≠ none then none
              else some { s with destList := before ++ after, destCount := s.destCount - 1 }
            else
              some { s with destList := before ++ { xdst with refc := xdst.refc - 1 } :: after }

/-- Put `i` at one end of a list. -/
def place {α : Type} (head : Bool) (i : α) (l : List α) : List α :=
  if head then i :: l else l ++ [i]

/-- `V4vCsqInsertIrpEx`. -/
def insertIrpEx (s : Csq) (i : Nat) (insertHead first second : Bool) :
    Option (InsertStatus × Csq) :=
  if s.pendingIrpCount = 0 ∧ s.destCount ≠ 0 then none
  else if s.pendingIrpCount = maxIrpCount then some (.quotaExceeded, s)
  else
    let linked :=
      if has (s.irps i).flags peekWrite then s.linkDestination i insertHead first second
      else some (true, s)
    match linked with
    | none => none
    | some (false, s) => some (.noMemory, s)
    | some (true, s) =>
      if s.pendingIrpCount < 0 then none
      else
        some (.success, { s with
          pendingIrpQueue := place insertHead i s.pendingIrpQueue
          pendingIrpCount := s.pendingIrpCount + 1 })

/-- `V4vCsqRemoveIrp`. -/
def removeIrp (s : Csq) (i : Nat) : Option Csq :=
  let unlinked := if has (s.irps i).flags peekWrite then s.unlinkDestination i else some s
  match unlinked with
  | none => none
  | some s =>
    let s := { s with
      pendingIrpQueue := s.pendingIrpQueue.erase i
      pendingIrpCount := s.pendingIrpCount - 1 }
    if s.pendingIrpCount < 0 ∨ s.pendingIrpCount = 0 ∧ s.destCount ≠ 0 then none else some s

/-- `V4vCsqPeekTest`.  The destination of an IRP is looked up in its record, which only a write
has. -/
def peekTest (s : Csq) (qp : QPeek) (i : Nat) : Option Bool :=
  let types := (s.irps i).flags &&& peekAnyType
  let ops := (s.irps i).flags &&& peekAnyOp
  if has qp.types types ∧ has qp.ops ops then
    match qp.fileObject with
    | some pfo => some ((s.irps i).fileObject == pfo)
    | none =>
      if qp.dst.domain = domidInvalid then some true
      else (s.irps i).record.map fun idst => idst.dst == qp.dst
  else some false

/-- The loop of `V4vCsqPeekNextIrp`. -/
def peekLoop (s : Csq) (qp : QPeek) : List Nat → Option (Option Nat)
  | [] => some none
  | i :: l =>
    match s.peekTest qp i with
    | none => none
    | some true => some (some i)
    | some false => peekLoop s qp l

/-- `IoCsqRemoveNextIrp`: the first IRP that passes the test is taken out of the queue.  An IRP
that is being cancelled counts as out of the queue already. -/
def removeNextIrp (s : Csq) (qp : QPeek) : Option (Option Nat × Csq) :=
  match s.peekLoop qp s.pendingIrpQueue with
  | none => none
  | some none => some (none, s)
  | some (some i) => (s.removeIrp i).map fun s' => (some i, s')

/-- `V4vCopyDestinationRingData`, when there is memory for it. -/
def copyDestinationRingData (s : Csq) : Option (List (Addr × UInt32)) :=
  if s.destCount ≤ s.destList.length then
    some ((s.destList.take s.destCount.toNat).map fun d => (d.dst, d.nextLength))
  else none

/-! ## Runs -/

end Csq

/-- An insertion or a removal, a change of an IRP that is not queued, or a write to a buffer or a
context while an IRP is queued. -/
inductive CsqAct where
  | insert (i : Nat) (insertHead first second : Bool)
  | remove (i : Nat)
  | change (i : Nat) (irp : Irp)
  | scribble (i : Nat) (bufferDst resetDst : Addr) (sdst : Nat → Addr)

namespace Csq

/-- One step. -/
inductive Step (s : Csq) : CsqAct → Csq → Prop
  | insert {i : Nat} {insertHead first second : Bool} {status : InsertStatus} {s' : Csq} :
      i ∉ s.pendingIrpQueue → s.insertIrpEx i insertHead first second = some (status, s') →
      Step s (.insert i insertHead first second) s'
  | remove {i : Nat} {s' : Csq} : i ∈ s.pendingIrpQueue → s.removeIrp i = some s' →
      Step s (.remove i) s'
  | change {i : Nat} {irp : Irp} : i ∉ s.pendingIrpQueue →
      Step s (.change i irp) { s with irps := Function.update s.irps i irp }
  | scribble {i : Nat} {bufferDst resetDst : Addr} {sdst : Nat → Addr} :
      Step s (.scribble i bufferDst resetDst sdst) { s with
        irps := Function.update s.irps i
          { s.irps i with bufferDst := bufferDst, resetDst := resetDst }
        sdst := sdst }

/-- Nothing is queued. -/
def Empty (s : Csq) : Prop :=
  s.pendingIrpQueue = [] ∧ s.pendingIrpCount = 0 ∧ s.destList = [] ∧ s.destCount = 0

/-- The states to which steps lead. -/
abbrev Reached : Csq → Prop := Reachable Empty Step fun _ _ => True

/-- The destination that was read from IRP `i` when it was queued. -/
def stash (s : Csq) (i : Nat) : Option Addr := (s.irps i).record.map Destination.dst

/-- Whether IRP `i` is a write. -/
def isWrite (s : Csq) (i : Nat) : Bool := has (s.irps i).flags peekWrite

/-- The queued write IRPs of a destination, in the order of the queue. -/
def writesTo (s : Csq) (dst : Addr) : List Nat :=
  s.pendingIrpQueue.filter fun i => s.isWrite i && s.stash i == some dst

/-- The record describes the writes of its destination. -/
structure Records (s : Csq) (d : Destination) : Prop where
  chain : Chain s.next d.nextIrp (s.writesTo d.dst)
  refc : d.refc = (s.writesTo d.dst).length
  pos : s.writesTo d.dst ≠ []
  length : ∀ i, (s.writesTo d.dst).head? = some i → d.nextLength = payloadDataLen (s.irps i)

/-- **The invariant.** -/
structure Represented (s : Csq) : Prop where
  nodup : s.pendingIrpQueue.Nodup
  count : s.pendingIrpCount = s.pendingIrpQueue.length
  bound : s.pendingIrpQueue.length ≤ maxIrpCount
  destCount : s.destCount = s.destList.length
  dests : (s.destList.map Destination.dst).Nodup
  covered : ∀ i ∈ s.pendingIrpQueue, s.isWrite i = true →
    ∃ d ∈ s.destList, s.stash i = some d.dst
  records : ∀ d ∈ s.destList, s.Records d

/-! ## Records of IRPs -/

section
variable {s s' : Csq} {i j : Nat}

theorem next_setRecord (s : Csq) (i : Nat) (r : Option Destination) :
    (s.setRecord i r).next = Function.update s.next i (r.bind Destination.nextIrp) := by
  funext j
  by_cases hji : j = i
  · subst hji
    simp only [next, setRecord, Function.update_self]
  · simp only [next, setRecord, Function.update_of_ne hji]

/-- The IRPs are the same but for their records. -/
def SameIrps (s s' : Csq) : Prop :=
  (∀ j, s'.irps j = { s.irps j with record := (s'.irps j).record }) ∧ s'.sdst = s.sdst

theorem SameIrps.refl (s : Csq) : s.SameIrps s := ⟨fun _ => rfl, rfl⟩

theorem SameIrps.trans {s'' : Csq} (h : s.SameIrps s') (h' : s'.SameIrps s'') : s.SameIrps s'' := by
  refine ⟨fun j => ?_, h'.2.trans h.2⟩
  rw [h'.1 j, h.1 j]

theorem SameIrps.isWrite (h : s.SameIrps s') (j : Nat) : s'.isWrite j = s.isWrite j := by
  rw [Csq.isWrite, h.1 j]
  rfl

theorem SameIrps.length (h : s.SameIrps s') (j : Nat) :
    payloadDataLen (s'.irps j) = payloadDataLen (s.irps j) := by
  rw [h.1 j]
  rfl

theorem SameIrps.getDestination (h : s.SameIrps s') (j : Nat) :
    s'.getDestination j = s.getDestination j := by
  rw [Csq.getDestination, h.1 j, h.2]
  rfl

theorem sameIrps_setRecord (s : Csq) (i : Nat) (r : Option Destination) :
    s.SameIrps (s.setRecord i r) := by
  refine ⟨fun j => ?_, rfl⟩
  by_cases hji : j = i
  · subst hji
    simp only [setRecord, Function.update_self]
  · simp only [setRecord, Function.update_of_ne hji]

/-- Only records change, and those keep their destinations. -/
structure Relinked (s s' : Csq) : Prop where
  irps : s.SameIrps s'
  queue : s'.pendingIrpQueue = s.pendingIrpQueue
  count : s'.pendingIrpCount = s.pendingIrpCount
  destList : s'.destList = s.destList
  destCount : s'.destCount = s.destCount
  stash : ∀ j, s'.stash j = s.stash j

theorem Relinked.refl (s : Csq) : s.Relinked s :=
  ⟨.refl s, rfl, rfl, rfl, rfl, fun _ => rfl⟩

theorem stash_setRecord_of_ne (s : Csq) (r : Option Destination) (h : j ≠ i) :
    (s.setRecord i r).stash j = s.stash j := by
  simp only [stash, setRecord, Function.update_of_ne h]

theorem stash_ne_none (h : s.stash i ≠ none) : ∃ d, (s.irps i).record = some d := by
  cases hr : (s.irps i).record with
  | none => exact absurd (by rw [stash, hr]; rfl) h
  | some d => exact ⟨d, rfl⟩

theorem setNext_spec (p : Option Nat) (h : s.stash i ≠ none) :
    ∃ s', s.setNext i p = some s' ∧ s.Relinked s' ∧ s'.next = Function.update s.next i p := by
  obtain ⟨d, hd⟩ := stash_ne_none h
  refine ⟨s.setRecord i (some { d with nextIrp := p }), ?_, ?_, next_setRecord _ _ _⟩
  · rw [setNext, hd]
  · refine ⟨sameIrps_setRecord s i _, rfl, rfl, rfl, rfl, fun j => ?_⟩
    by_cases hji : j = i
    · subst hji
      simp only [stash, setRecord, Function.update_self, hd, Option.map_some]
    · simp only [stash, setRecord, Function.update_of_ne hji]

end

/-! ## Chaining and unchaining -/

section
variable {s : Csq} {xdst : Destination} {i : Nat} {l l₁ l₂ : List Nat}

theorem chainIrp_spec (front : Bool) (hl : Chain s.next xdst.nextIrp l) (hpos : l ≠ [])
    (hnd : l.Nodup) (hi : i ∉ l) (hnext : s.next i = none) (hown : s.stash i ≠ none)
    (hrec : ∀ j ∈ l, s.stash j ≠ none) (hlen : l.length ≤ s.pendingIrpQueue.length) :
    ∃ s' d, s.chainIrp xdst i front = some (s', d) ∧ s.Relinked s' ∧
      Chain s'.next d.nextIrp (place front i l) ∧
      (∀ j, j ≠ i → j ∉ l → s'.next j = s.next j) ∧ d.dst = xdst.dst ∧ d.refc = xdst.refc ∧
      d.nextLength = if front then payloadDataLen (s.irps i) else xdst.nextLength := by
  obtain ⟨first, hfirst⟩ : ∃ first, xdst.nextIrp = some first := by
    rw [hl.head]
    cases l with
    | nil => exact absurd rfl hpos
    | cons a l => exact ⟨a, rfl⟩
  rw [hfirst] at hl
  cases front with
  | true =>
    obtain ⟨s', hs', hre, hn⟩ := setNext_spec (some first) hown
    refine ⟨s', { xdst with nextIrp := some i, nextLength := payloadDataLen (s.irps i) }, ?_, hre,
      ?_, ?_, rfl, rfl, rfl⟩
    · rw [chainIrp, hfirst]
      dsimp only
      rw [if_pos rfl, hs']
      rfl
    · rw [hn]
      exact hl.push hi
    · intro j hj _
      rw [hn, Function.update_of_ne hj]
  | false =>
    -- the walk stops at the last IRP of the chain
    obtain ⟨l', j, rfl⟩ : ∃ l' j, l = l' ++ [j] :=
      ⟨l.dropLast, l.getLast hpos, (List.dropLast_append_getLast hpos).symm⟩
    obtain ⟨s', hs', hre, hn⟩ := setNext_spec (some i) (hrec j (by simp))
    refine ⟨s', xdst, ?_, hre, ?_, ?_, rfl, rfl, rfl⟩
    · rw [chainIrp, hfirst]
      dsimp only
      rw [if_neg (by simp), hl.walk hlen, List.getLast?_append]
      simp [hs']
    · rw [hn, hfirst, place, if_neg (by simp), List.append_assoc]
      exact hl.append hnd hi hnext
    · intro k hk hkl
      rw [hn, Function.update_of_ne]
      rintro rfl
      exact hkl (by simp)

theorem unchainIrp_spec (hl : Chain s.next xdst.nextIrp (l₁ ++ i :: l₂))
    (hnd : (l₁ ++ i :: l₂).Nodup) (hrec : ∀ j ∈ l₁ ++ i :: l₂, s.stash j ≠ none)
    (hlen : l₁.length < s.pendingIrpQueue.length) :
    ∃ s' d, s.unchainIrp xdst i = some (s', d) ∧ s.Relinked s' ∧
      Chain s'.next d.nextIrp (l₁ ++ l₂) ∧ (∀ j, j ∉ l₁ → s'.next j = s.next j) ∧
      d.dst = xdst.dst ∧ d.refc = xdst.refc ∧
      ∀ j, (l₁ ++ l₂).head? = some j →
        d.nextLength = if l₁ = [] then payloadDataLen (s.irps j) else xdst.nextLength := by
  have hi : i ∉ l₁ := by
    intro hmem
    exact (List.nodup_append.mp hnd).2.2 i hmem i List.mem_cons_self rfl
  obtain ⟨first, hfirst⟩ : ∃ first, xdst.nextIrp = some first := by
    rw [hl.head]
    cases l₁ <;> exact ⟨_, rfl⟩
  obtain ⟨idst, hidst⟩ := stash_ne_none (hrec i (by simp))
  have hnexti : s.next i = idst.nextIrp := by
    rw [next, hidst]
    rfl
  rw [hfirst] at hl
  have hseek : seek s.next i s.pendingIrpQueue.length none first = some (l₁.getLast?.or none) :=
    hl.seek hi hlen
  rw [unchainIrp, hfirst, hidst]
  dsimp only
  rw [hseek]
  rcases List.eq_nil_or_concat l₁ with rfl | ⟨l, j, rfl⟩
  · obtain ⟨-, htail⟩ := hl
    rw [hnexti] at htail
    cases hn : idst.nextIrp with
    | none =>
      refine ⟨s, _, rfl, .refl s, by rw [← hn]; exact htail, fun _ _ => rfl, rfl, rfl, ?_⟩
      intro j hj
      rw [List.nil_append, ← htail.head, hn] at hj
      cases hj
    | some j =>
      refine ⟨s, _, rfl, .refl s, by rw [← hn]; exact htail, fun _ _ => rfl, rfl, rfl, ?_⟩
      intro k hk
      rw [List.nil_append, ← htail.head, hn] at hk
      obtain rfl := Option.some.inj hk
      rfl
  · obtain ⟨s', hs', hre, hn⟩ := setNext_spec idst.nextIrp (hrec j (by simp))
    have hlast : (l ++ [j]).getLast?.or none = some j := by simp
    rw [List.concat_eq_append] at hseek hl hnd ⊢
    rw [hlast]
    dsimp only
    rw [hs']
    refine ⟨s', xdst, rfl, hre, ?_, ?_, rfl, rfl, ?_⟩
    · rw [hfirst, hn, ← hnexti, List.append_assoc]
      rw [List.append_assoc] at hl hnd
      exact hl.remove hnd
    · intro k hk
      rw [hn, Function.update_of_ne]
      rintro rfl
      exact hk (by simp)
    · intro k _
      rw [if_neg (by simp)]

end

/-! ## The loop over `destList` -/

theorem findDestination_some {dst : Addr} {l l₁ l₂ : List Destination} {d : Destination}
    (h : findDestination dst l = some (l₁, d, l₂)) : l = l₁ ++ d :: l₂ ∧ d.dst = dst := by
  induction l generalizing l₁ with
  | nil => cases h
  | cons x l ih =>
    rw [findDestination] at h
    split at h
    · next hx =>
      cases h
      exact ⟨rfl, hx⟩
    · obtain ⟨⟨l₁', d', l₂'⟩, ho, heq⟩ := Option.map_eq_some_iff.mp h
      cases heq
      obtain ⟨rfl, hd⟩ := ih ho
      exact ⟨rfl, hd⟩

theorem findDestination_none {dst : Addr} {l : List Destination}
    (h : findDestination dst l = none) : ∀ d ∈ l, d.dst ≠ dst := by
  induction l with
  | nil => simp
  | cons x l ih =>
    rw [findDestination] at h
    split at h
    · cases h
    · next hx =>
      intro d hd
      rcases List.mem_cons.mp hd with rfl | hd
      · exact hx
      · exact ih (Option.map_eq_none_iff.mp h) d hd

/-- The other records are those of other destinations. -/
theorem dst_ne_of_split {l₁ l₂ : List Destination} {d x : Destination}
    (h : ((l₁ ++ d :: l₂).map Destination.dst).Nodup) (hx : x ∈ l₁ ++ l₂) : x.dst ≠ d.dst := by
  have hperm : ((d :: (l₁ ++ l₂)).map Destination.dst).Nodup :=
    (List.perm_middle.map Destination.dst).nodup_iff.mp h
  intro heq
  exact (List.nodup_cons.mp hperm).1 (heq ▸ List.mem_map_of_mem hx)

/-- One record makes no difference to the other destinations. -/
theorem mem_split_of_ne {l₁ l₂ : List Destination} {d x : Destination} (h : x.dst ≠ d.dst) :
    x ∈ l₁ ++ d :: l₂ ↔ x ∈ l₁ ++ l₂ := by
  have hne : x ≠ d := fun heq => h (congrArg Destination.dst heq)
  rw [List.mem_append, List.mem_cons, List.mem_append, or_iff_right hne]

/-- A record in the place of another one of the same destination. -/
theorem dests_replace {l₁ l₂ : List Destination} {d e : Destination} (he : e.dst = d.dst)
    (h : ((l₁ ++ d :: l₂).map Destination.dst).Nodup) :
    ((l₁ ++ e :: l₂).map Destination.dst).Nodup := by
  rw [List.map_append, List.map_cons] at h ⊢
  rwa [he]

theorem eq_of_replace {l₁ l₂ : List Destination} {d e x : Destination} (he : e.dst = d.dst)
    (h : ((l₁ ++ d :: l₂).map Destination.dst).Nodup) (hx : x ∈ l₁ ++ e :: l₂)
    (hxd : x.dst = d.dst) : x = e := by
  rcases List.mem_append.mp hx with hm | hm
  · exact absurd hxd (dst_ne_of_split h (List.mem_append_left _ hm))
  · rcases List.mem_cons.mp hm with rfl | hm
    · rfl
    · exact absurd hxd (dst_ne_of_split h (List.mem_append_right _ hm))

end Csq

end V4v.Windows
