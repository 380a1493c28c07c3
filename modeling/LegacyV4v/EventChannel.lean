import LegacyV4v.GuardedRun
import Mathlib.Data.Finset.Range
import Mathlib.Data.Finset.Filter
import Mathlib.Data.Finset.Erase
import Mathlib.Data.Finset.SDiff
import Mathlib.Logic.Function.Basic

/-! # Event channels

Xen and the other domains set a port's pending bit in the shared page, and if the port is not masked,
the bit of its word in the selector and `evtchn_upcall_pending`.  The interrupt, on processor 0, goes
through the words of the selector and runs the handlers of their ports, or queues their DPCs, which
keep a port masked until it is clear.  `EvtchnRaiseLocally` raises a port from any thread, and
`EvtchnPortStop` takes one away.

Each bit operation and each hypercall is a step.  Arrays of bits are sets of ports; words, of the
selector and of the others, are sets of bit numbers.  A step is `none` where the code has an assertion
that fails or leaves its arrays. -/
namespace V4v.Xenutil
open GuardedRun

inductive Arch where
  | x86
  | amd64
  deriving DecidableEq, Repr

/-- `EVTCHNS_PER_TOPLEVEL`. -/
def Arch.evtchnsPerToplevel : Arch → Nat
  | .x86 => 32
  | .amd64 => 64

/-- `MAX_EVTCHN`. -/
def maxEvtchn : Nat := 256

inductive EvtchnClass where
  | interdomain
  | interdomainDpc
  | fixed
  | virq
  | alien
  deriving DecidableEq, Repr

/-- Ports of this class have a DPC. -/
def EvtchnClass.usesDpc : EvtchnClass → Bool
  | .interdomainDpc | .alien => true
  | .interdomain | .fixed | .virq => false

/-- `struct evtchn_port_handler`; a `xen_port` of −1 is `none`, and `handler` says that it is not
`NULL`. -/
structure EvtchnPortHandler where
  cls : EvtchnClass
  xenPort : Option Nat
  handler : Bool
  insertCount : Int
  stopping : Bool
  deriving DecidableEq, Repr

/-! ## The shared page -/

/-- What `HYPERVISOR_shared_info` has of event channels, with the first entry of `vcpu_info`. -/
structure SharedInfo where
  evtchnPending : Finset Nat
  evtchnMask : Finset Nat
  evtchnPendingSel : Finset Nat
  evtchnUpcallPending : Bool
  deriving DecidableEq

namespace SharedInfo

def setPending (info : SharedInfo) (port : Nat) : SharedInfo :=
  { info with evtchnPending := insert port info.evtchnPending }

/-- `EvtchnClearEvtchn`. -/
def clearEvtchn (info : SharedInfo) (port : Nat) : SharedInfo :=
  { info with evtchnPending := info.evtchnPending.erase port }

/-- `mask_port`. -/
def maskPort (info : SharedInfo) (port : Nat) : SharedInfo :=
  { info with evtchnMask := insert port info.evtchnMask }

/-- `unmask_port`. -/
def unmaskPort (info : SharedInfo) (port : Nat) : SharedInfo :=
  { info with evtchnMask := info.evtchnMask.erase port }

/-- Xen asks for an interrupt. -/
def upcall (b : Arch) (info : SharedInfo) (port : Nat) : SharedInfo :=
  { info with
    evtchnPendingSel := insert (port / b.evtchnsPerToplevel) info.evtchnPendingSel
    evtchnUpcallPending := true }

/-- A notification. -/
def notify (b : Arch) (info : SharedInfo) (port : Nat) : SharedInfo :=
  if port ∈ info.evtchnPending then info
  else if port ∈ info.evtchnMask then info.setPending port
  else upcall b (info.setPending port) port

/-- `EVTCHNOP_unmask`. -/
def unmaskOp (b : Arch) (info : SharedInfo) (port : Nat) : SharedInfo :=
  if port ∈ info.evtchnMask ∧ port ∈ info.evtchnPending then upcall b (info.unmaskPort port) port
  else info.unmaskPort port

theorem mask_unmaskOp (b : Arch) (info : SharedInfo) (port : Nat) :
    (info.unmaskOp b port).evtchnMask = info.evtchnMask.erase port := by
  unfold unmaskOp
  split <;> rfl

theorem pending_unmaskOp (b : Arch) (info : SharedInfo) (port : Nat) :
    (info.unmaskOp b port).evtchnPending = info.evtchnPending := by
  unfold unmaskOp
  split <;> rfl

theorem sel_unmaskOp (b : Arch) (info : SharedInfo) (port : Nat) :
    info.evtchnPendingSel ⊆ (info.unmaskOp b port).evtchnPendingSel := by
  unfold unmaskOp
  split
  · exact Finset.subset_insert ..
  · exact fun _ => id

theorem upcall_unmaskOp (b : Arch) (info : SharedInfo) (port : Nat)
    (h : info.evtchnUpcallPending = true) : (info.unmaskOp b port).evtchnUpcallPending = true := by
  unfold unmaskOp
  split
  · rfl
  · exact h

theorem signal_unmaskOp {b : Arch} {info : SharedInfo} {port : Nat} (hmask : port ∈ info.evtchnMask)
    (hpending : port ∈ info.evtchnPending) :
    port / b.evtchnsPerToplevel ∈ (info.unmaskOp b port).evtchnPendingSel ∧
      (info.unmaskOp b port).evtchnUpcallPending = true := by
  unfold unmaskOp
  rw [if_pos ⟨hmask, hpending⟩]
  exact ⟨Finset.mem_insert_self .., rfl⟩

theorem mask_notify (b : Arch) (info : SharedInfo) (port : Nat) :
    (info.notify b port).evtchnMask = info.evtchnMask := by
  unfold notify
  split
  · rfl
  · split <;> rfl

theorem pending_notify (b : Arch) (info : SharedInfo) (port p : Nat) :
    p ∈ (info.notify b port).evtchnPending ↔ p = port ∨ p ∈ info.evtchnPending := by
  unfold notify
  split
  · next hin => exact (or_iff_right_of_imp fun heq => heq ▸ hin).symm
  · split <;> exact Finset.mem_insert

theorem sel_notify (b : Arch) (info : SharedInfo) (port : Nat) :
    info.evtchnPendingSel ⊆ (info.notify b port).evtchnPendingSel := by
  unfold notify
  split
  · exact fun _ => id
  · split
    · exact fun _ => id
    · exact Finset.subset_insert ..

theorem upcall_notify (b : Arch) (info : SharedInfo) (port : Nat)
    (h : info.evtchnUpcallPending = true) : (info.notify b port).evtchnUpcallPending = true := by
  unfold notify
  split
  · exact h
  · split
    · exact h
    · rfl

theorem signal_notify {b : Arch} {info : SharedInfo} {port : Nat} (hpending : port ∉ info.evtchnPending)
    (hmask : port ∉ info.evtchnMask) :
    port / b.evtchnsPerToplevel ∈ (info.notify b port).evtchnPendingSel ∧
      (info.notify b port).evtchnUpcallPending = true := by
  unfold notify
  rw [if_neg hpending, if_neg hmask]
  exact ⟨Finset.mem_insert_self .., rfl⟩

end SharedInfo

/-- A word of an array of bits. -/
def Arch.word (b : Arch) (bits : Finset Nat) (top : Nat) : Finset Nat :=
  (Finset.range b.evtchnsPerToplevel).filter fun sub => top * b.evtchnsPerToplevel + sub ∈ bits

/-! ## Places -/

/-- The variables of `EvtchnHandleInterrupt`. -/
structure Scan where
  sel : Finset Nat
  nextTop : Nat
  nextSub : Nat
  bits : Finset Nat
  deriving DecidableEq

/-- The next word. -/
def Scan.advance (b : Arch) (f : Scan) : Scan :=
  { f with nextTop := (f.nextTop + 1) % b.evtchnsPerToplevel, nextSub := 0 }

/-- The next bit. -/
def Scan.next (b : Arch) (f : Scan) : Scan :=
  { f with nextSub := (f.nextSub + 1) % b.evtchnsPerToplevel }

/-- Where the interrupt is.  It is not running; it tests `evtchn_upcall_pending`, clears it, or
exchanges the selector; it is at the loop over words, reads the first or, with what that was, the
second of the two words, or is at the loop over bits; it clears a port that has no handler; it is in
`FireHandler`, before `KeInsertQueueDpc`, before `insert_count++`, before the handler of the port that
it has cleared, or in it; or it is to clear `interrupt_live`. -/
inductive InterruptPc where
  | idle
  | testing
  | clearing
  | exchanging
  | tops (f : Scan)
  | word (f : Scan)
  | half (f : Scan) (pendingFirst : Bool) (w : Finset Nat)
  | subs (f : Scan)
  | unhandled (f : Scan) (port : Nat)
  | firing (f : Scan) (q : Nat)
  | inserting (f : Scan) (q : Nat)
  | inserted (f : Scan) (q : Nat)
  | calling (f : Scan) (q : Nat) (port : Nat)
  | handling (f : Scan) (q : Nat)
  | leaving
  deriving DecidableEq

/-- Where `DpcPortDpcHandler` is: at `TestAndClearBit`, before the handler, in it, at `unmask_port`, at
`TestBit`, at `mask_port`, at `InterlockedDecrement`, or behind that. -/
inductive DpcPc where
  | testing
  | calling (port : Nat)
  | handling
  | unmasking
  | checking
  | remasking
  | decrementing
  | returning
  deriving DecidableEq, Repr

/-- Where a thread is.  It is in neither function; in `EvtchnRaiseLocally`, before it looks at the mask,
then, with the port masked, before it sets it pending, looks again, and masks it, or, with the port not
masked, before it masks it and sets it pending, or before `EVTCHNOP_unmask`; in `EvtchnPortStop`,
before its lock, in `SynchronizeWithInterrupt`, before `stopping` is set, in the loop, and before
`xen_port` and `handler` are cleared. -/
inductive EventPc where
  | idle
  | raising (q : Nat)
  | settingMasked (port : Nat)
  | retesting (port : Nat)
  | remasking (port : Nat)
  | masking (port : Nat)
  | settingUnmasked (port : Nat)
  | unmasking (port : Nat)
  | unhooking (q : Nat)
  | synchronizing (q : Nat)
  | settingStopping (q : Nat)
  | waiting (q : Nat)
  | clearingPort (q : Nat)
  | clearingHandler (q : Nat)
  deriving DecidableEq, Repr

/-- For the record: a port was raised, or its handler started. -/
inductive PortEvent where
  | raised (port : Nat)
  | started (port : Nat)
  deriving DecidableEq, Repr

/-- The shared page, `EventChannelHandlers` and the handlers, the variables of `evtchn.c`, the
interrupt, the DPCs that are queued on processor 0 and the one that runs there, the threads; and, for the
record, what happened to ports, latest first, and the handlers for which `EvtchnPortStop` has
returned. -/
structure EventSys (b : Arch) (N : Nat) where
  info : SharedInfo
  eventChannelHandlers : Nat → Option Nat
  port : Nat → EvtchnPortHandler
  interruptLive : Bool
  lastEvtchnServiced : Nat
  interrupt : InterruptPc
  dpcQueue : Finset Nat
  dpc : Option (Nat × DpcPc)
  pc : Fin N → EventPc
  log : List PortEvent
  stopped : Finset Nat

/-- A notification; a thread calls a function or goes on; the interrupt starts or goes on, and reads the
word of pending bits before the one of mask bits or behind it; a DPC starts, or the one that runs goes
on. -/
inductive EventAct (N : Nat) where
  | notify (port : Nat)
  | raiseLocally (th : Fin N) (q : Nat)
  | portStop (th : Fin N) (q : Nat)
  | go (th : Fin N)
  | interrupt (pendingFirst : Bool)
  | startDpc (q : Nat)
  | dpc
  deriving DecidableEq, Repr

namespace EventSys
variable {b : Arch} {N : Nat} {s s' : EventSys b N} {a : EventAct N} {th : Fin N} {q : Nat}

def setPc (s : EventSys b N) (th : Fin N) (pc : EventPc) : EventSys b N :=
  { s with pc := Function.update s.pc th pc }

def setPort (s : EventSys b N) (q : Nat) (port : EvtchnPortHandler) : EventSys b N :=
  { s with port := Function.update s.port q port }

/-! ## The interrupt -/

/-- One step of `EvtchnHandleInterrupt`, `FireHandler` included. -/
def interruptStep (s : EventSys b N) (pendingFirst : Bool) : Option (EventSys b N) :=
  match s.interrupt with
  | .idle => some { s with interruptLive := true, interrupt := .testing }
  | .testing => some { s with
      interrupt := if s.info.evtchnUpcallPending = true then .clearing else .leaving }
  | .clearing => some { s with
      info := { s.info with evtchnUpcallPending := false }
      interrupt := .exchanging }
  | .exchanging =>
    let last := s.lastEvtchnServiced + 1
    let f : Scan :=
      { sel := s.info.evtchnPendingSel
        nextTop := last / b.evtchnsPerToplevel
        nextSub := last % b.evtchnsPerToplevel
        bits := ∅ }
    some { s with
      info := { s.info with evtchnPendingSel := ∅ }
      lastEvtchnServiced := last
      interrupt := .tops f }
  | .tops f =>
    if f.sel = ∅ then some { s with interrupt := .testing }
    -- the shift in `EVTCHN_SUB_MASK` is out of range
    else if b.evtchnsPerToplevel ≤ f.nextTop then none
    else if f.nextTop ∈ f.sel then
      some { s with interrupt := .word { f with sel := f.sel.erase f.nextTop } }
    else some { s with interrupt := .tops (f.advance b) }
  | .word f =>
    let bits := if pendingFirst = true then s.info.evtchnPending else s.info.evtchnMask
    some { s with interrupt := .half f pendingFirst (b.word bits f.nextTop) }
  | .half f pendingFirst w =>
    let bits :=
      if pendingFirst = true then w \ b.word s.info.evtchnMask f.nextTop
      else b.word s.info.evtchnPending f.nextTop \ w
    some { s with interrupt := .subs { f with bits := bits } }
  | .subs f =>
    if f.bits = ∅ then some { s with interrupt := .tops (f.advance b) }
    else if f.nextSub ∈ f.bits then
      let port := f.nextTop * b.evtchnsPerToplevel + f.nextSub
      let f' := { f with bits := f.bits.erase f.nextSub }
      -- the index is out of range
      if maxEvtchn ≤ port then none
      else
        match s.eventChannelHandlers port with
        | some q => some { s with lastEvtchnServiced := port, interrupt := .firing f' q }
        | none => some { s with lastEvtchnServiced := port, interrupt := .unhandled f' port }
    else some { s with interrupt := .subs (f.next b) }
  | .unhandled f port => some { s with
      info := s.info.clearEvtchn port
      interrupt := .subs (f.next b) }
  | .firing f q =>
    match (s.port q).xenPort with
    | none => none
    | some port =>
      if (s.port q).cls.usesDpc = true then
        some { s with info := s.info.maskPort port, interrupt := .inserting f q }
      else some { s with info := s.info.clearEvtchn port, interrupt := .calling f q port }
  | .inserting f q =>
    if q ∈ s.dpcQueue then some { s with interrupt := .subs (f.next b) }
    else some { s with dpcQueue := insert q s.dpcQueue, interrupt := .inserted f q }
  | .inserted f q =>
    if (s.port q).stopping = true then none
    else some { s.setPort q { s.port q with insertCount := (s.port q).insertCount + 1 } with
      interrupt := .subs (f.next b) }
  | .calling f q port =>
    if (s.port q).handler = false then none
    else some { s with log := .started port :: s.log, interrupt := .handling f q }
  | .handling f _ => some { s with interrupt := .subs (f.next b) }
  | .leaving => some { s with interruptLive := false, interrupt := .idle }

/-! ## The DPC -/

/-- One step of `DpcPortDpcHandler`. -/
def dpcStep (s : EventSys b N) : Option (EventSys b N) :=
  match s.dpc with
  | none => some s
  | some (q, pc) =>
    match pc, (s.port q).xenPort with
    | .testing, some port =>
      if port ∈ s.info.evtchnPending then
        some { s with info := s.info.clearEvtchn port, dpc := some (q, .calling port) }
      else some { s with dpc := some (q, .unmasking) }
    | .calling port, _ =>
      if (s.port q).handler = false then none
      else some { s with log := .started port :: s.log, dpc := some (q, .handling) }
    | .handling, _ => some { s with dpc := some (q, .testing) }
    | .unmasking, some port =>
      some { s with info := s.info.unmaskPort port, dpc := some (q, .checking) }
    | .checking, some port => some { s with
        dpc := some (q, if port ∈ s.info.evtchnPending then .remasking else .decrementing) }
    | .remasking, some port =>
      some { s with info := s.info.maskPort port, dpc := some (q, .testing) }
    | .decrementing, _ =>
      some { s.setPort q { s.port q with insertCount := (s.port q).insertCount - 1 } with
        dpc := some (q, .returning) }
    | .returning, _ => some { s with dpc := none }
    | .testing, none | .unmasking, none | .checking, none | .remasking, none => none

/-! ## The threads -/

/-- `EvtchnPortStop` under its lock. -/
def unhook (s : EventSys b N) (q : Nat) : EventSys b N :=
  match (s.port q).xenPort with
  | none => s
  | some port =>
    if s.eventChannelHandlers port = some q then
      { s with eventChannelHandlers := Function.update s.eventChannelHandlers port none }
    else s

/-- A thread goes on. -/
def goOn (s : EventSys b N) (th : Fin N) : Option (EventSys b N) :=
  match s.pc th with
  | .idle => some s
  | .raising q =>
    match (s.port q).xenPort with
    | none => none
    | some port => some (s.setPc th
        (if port ∈ s.info.evtchnMask then .settingMasked port else .masking port))
  | .settingMasked port => some { s.setPc th (.retesting port) with
      info := s.info.setPending port
      log := .raised port :: s.log }
  | .retesting port =>
    some (s.setPc th (if port ∈ s.info.evtchnMask then .idle else .remasking port))
  | .remasking port => some { s.setPc th (.unmasking port) with info := s.info.maskPort port }
  | .masking port => some { s.setPc th (.settingUnmasked port) with info := s.info.maskPort port }
  | .settingUnmasked port => some { s.setPc th (.unmasking port) with
      info := s.info.setPending port
      log := .raised port :: s.log }
  | .unmasking port => some { s.setPc th .idle with info := s.info.unmaskOp b port }
  | .unhooking q => some ((s.unhook q).setPc th (.synchronizing q))
  | .synchronizing q =>
    some (if s.interruptLive = true then s
      else s.setPc th (if (s.port q).cls.usesDpc = true then .settingStopping q
        else .clearingPort q))
  | .settingStopping q =>
    some ((s.setPort q { s.port q with stopping := true }).setPc th (.waiting q))
  | .waiting q => some (if (s.port q).insertCount = 0 then s.setPc th (.clearingPort q) else s)
  | .clearingPort q =>
    some ((s.setPort q { s.port q with xenPort := none }).setPc th (.clearingHandler q))
  | .clearingHandler q =>
    some { (s.setPort q { s.port q with handler := false }).setPc th .idle with
      stopped := insert q s.stopped }

/-- The result of a step. -/
def step (s : EventSys b N) : EventAct N → Option (EventSys b N)
  | .notify port => some { s with
      info := s.info.notify b port
      log := .raised port :: s.log }
  | .raiseLocally th q =>
    some (if (s.port q).xenPort = none then s else s.setPc th (.raising q))
  | .portStop th q => some (s.setPc th (.unhooking q))
  | .go th => s.goOn th
  | .interrupt pendingFirst => s.interruptStep pendingFirst
  | .startDpc q => some { s with dpcQueue := s.dpcQueue.erase q, dpc := some (q, .testing) }
  | .dpc => s.dpcStep

/-- What can happen.  Ports that are registered are notified; the interrupt may come at any time, and a
DPC waits for it, and for the DPC before it. -/
def Enabled (s : EventSys b N) : EventAct N → Prop
  | .notify port => s.eventChannelHandlers port ≠ none
  | .raiseLocally th _ | .portStop th _ => s.pc th = .idle
  | .go _ | .interrupt _ => True
  | .startDpc q => s.interrupt = .idle ∧ s.dpc = none ∧ q ∈ s.dpcQueue
  | .dpc => s.interrupt = .idle

/-- Handlers are registered, and nothing has happened yet. -/
structure Start (s : EventSys b N) : Prop where
  registered : ∀ port q, s.eventChannelHandlers port = some q → (s.port q).xenPort = some port ∧
    (s.port q).handler = true ∧ port ∉ s.info.evtchnMask
  bounded : ∀ q port, (s.port q).xenPort = some port → port < maxEvtchn
  fresh : ∀ q, (s.port q).insertCount = 0 ∧ (s.port q).stopping = false
  clear : s.info.evtchnPending = ∅ ∧ s.info.evtchnPendingSel = ∅ ∧
    s.info.evtchnUpcallPending = false
  interruptLive : s.interruptLive = false
  serviced : s.lastEvtchnServiced = 0
  interrupt : s.interrupt = .idle
  dpcQueue : s.dpcQueue = ∅
  dpc : s.dpc = none
  pc : ∀ th, s.pc th = .idle
  log : s.log = []
  stopped : s.stopped = ∅

/-- The states of all runs whose steps satisfy `ok`. -/
abbrev Reached (ok : EventSys b N → EventAct N → Prop) : EventSys b N → Prop :=
  Reachable Start (fun s a s' => s.Enabled a ∧ s.step a = some s') ok

theorem setPc_pc (pc : EventPc) (other : Fin N) :
    (s.setPc th pc).pc other = if other = th then pc else s.pc other :=
  Function.update_apply ..

theorem setPort_port (port : EvtchnPortHandler) (other : Nat) :
    (s.setPort q port).port other = if other = q then port else s.port other :=
  Function.update_apply ..

/-- Only the count of a handler changes. -/
theorem setPort_insertCount (s : EventSys b N) (q : Nat) (count : Int) (other : Nat) :
    ((s.setPort q { s.port q with insertCount := count }).port other).cls = (s.port other).cls ∧
    ((s.setPort q { s.port q with insertCount := count }).port other).xenPort =
      (s.port other).xenPort ∧
    ((s.setPort q { s.port q with insertCount := count }).port other).handler =
      (s.port other).handler ∧
    ((s.setPort q { s.port q with insertCount := count }).port other).stopping =
      (s.port other).stopping := by
  rw [setPort_port]
  split
  · next heq =>
    rw [heq]
    exact ⟨rfl, rfl, rfl, rfl⟩
  · exact ⟨rfl, rfl, rfl, rfl⟩

/-- One handler, of a class, for port 1. -/
def initial (cls : EvtchnClass) : EventSys b N where
  info :=
    { evtchnPending := ∅
      evtchnMask := ∅
      evtchnPendingSel := ∅
      evtchnUpcallPending := false }
  eventChannelHandlers := fun port => if port = 1 then some 1 else none
  port := fun q =>
    { cls := cls
      xenPort := if q = 1 then some 1 else none
      handler := true
      insertCount := 0
      stopping := false }
  interruptLive := false
  lastEvtchnServiced := 0
  interrupt := .idle
  dpcQueue := ∅
  dpc := none
  pc := fun _ => .idle
  log := []
  stopped := ∅

theorem initial_start (cls : EvtchnClass) : (initial cls : EventSys b N).Start where
  registered := by
    intro port q h
    change (if port = 1 then some 1 else none) = some q at h
    split at h
    · next hport =>
      obtain rfl := Option.some.inj h
      exact ⟨congrArg some hport.symm, rfl, Finset.notMem_empty port⟩
    · exact nomatch h
  bounded := by
    intro q port h
    change (if q = 1 then some 1 else none) = some port at h
    split at h
    · rw [← Option.some.inj h]
      decide
    · exact nomatch h
  fresh := fun _ => ⟨rfl, rfl⟩
  clear := ⟨rfl, rfl, rfl⟩
  interruptLive := rfl
  serviced := rfl
  interrupt := rfl
  dpcQueue := rfl
  dpc := rfl
  pc := fun _ => rfl
  log := rfl
  stopped := rfl

instance : Decidable (s.Enabled a) :=
  match a with
  | .notify port => inferInstanceAs (Decidable (s.eventChannelHandlers port ≠ none))
  | .raiseLocally th _ | .portStop th _ => inferInstanceAs (Decidable (s.pc th = .idle))
  | .go _ | .interrupt _ => .isTrue trivial
  | .startDpc q => inferInstanceAs (Decidable (s.interrupt = .idle ∧ s.dpc = none ∧ q ∈ s.dpcQueue))
  | .dpc => inferInstanceAs (Decidable (s.interrupt = .idle))

end EventSys
end V4v.Xenutil
