import LegacyV4v.FileContext
import LegacyV4v.GuardedRun

/-! # The order in which an accepter's data is read on Windows

The data of an accepted connection reaches a read in two ways.  What the listener finds in the ring
while no read waits is kept in the accepter's `dataList`, from which reads are served under
`dataLock`.  If a read waits, the listener copies straight from the ring to it, after it has served
what reads there are from the list.

Between the two it holds no lock that a reader needs.  If data is left in the list, because there was
no read for it, and a read is queued now, the listener takes this read and gives it the newer data of
the ring.

A read of no bytes is completed at once, and has no part in this. -/
namespace V4v.Windows
open GuardedRun

/-- Where the listener is with the first message of the connection, in
`V4vProcessAccepterBufferedReads`: it has not begun, has served the list, has a read to copy to, has
no read and must keep the data, or has copied the data that it will chain to the list. -/
inductive ListenerPc where
  | idle
  | served
  | direct (irp : Pending)
  | queueing
  | chaining (data : List UInt8)
  deriving DecidableEq

/-- The device, the payloads of the connection that stand in the ring, and all that ever stood
there, oldest first. -/
structure AccepterSys where
  device : Device
  listener : ListenerPc
  ring : List (List UInt8)
  arrived : List (List UInt8)

inductive AccepterAct where
  | arrive (data : List UInt8)
  | queueRead (irp : Pending)
  | drive
  | cancel (irp : Pending)
  | begin
  | take
  | copy
  | queue (pool : Bool)
  | chain
  deriving DecidableEq

namespace AccepterSys

/-- What is kept for the accepter. -/
def dataList (s : AccepterSys) (actx : Nat) : List (List UInt8) :=
  (s.device.contexts actx).dataList

/-- What the listener has copied out of the ring and not chained yet. -/
def copied (s : AccepterSys) : List (List UInt8) :=
  match s.listener with
  | .chaining data => [data]
  | _ => []

/-- One step, for accepter `actx`: Xen adds a message; a reader queues its read, and it, or the DPC,
serves reads from the list; a read is cancelled; the listener goes on. -/
inductive Step (actx : Nat) (s : AccepterSys) : AccepterAct → AccepterSys → Prop
  | arrive {data : List UInt8} :
      Step actx s (.arrive data) { s with ring := s.ring ++ [data], arrived := s.arrived ++ [data] }
  | queueRead {irp : Pending} : irp.flags = peekStream ||| peekRead → irp.fileObject = actx →
      0 < irp.length →
      Step actx s (.queueRead irp) { s with
        device := { s.device with queue := s.device.queue ++ [irp] } }
  | drive {signaled : Bool} {device : Device} :
      s.device.processAccepterReads actx = (signaled, device) →
      Step actx s .drive { s with device := device }
  | cancel {irp : Pending} : irp ∈ s.device.queue →
      Step actx s (.cancel irp) { s with
        device := { s.device with queue := s.device.queue.erase irp }.complete irp .cancelled [] }
  | begin {signaled : Bool} {device : Device} : s.listener = .idle → s.ring ≠ [] →
      s.device.processAccepterReads actx = (signaled, device) →
      Step actx s .begin { s with device := device, listener := .served }
  | takeNone : s.listener = .served → s.device.removeNextIrp (readPeek actx) = none →
      Step actx s .take { s with listener := .queueing }
  | takeShort {irp : Pending} {device : Device} {data : List UInt8} {ring : List (List UInt8)} :
      s.listener = .served → s.device.removeNextIrp (readPeek actx) = some (irp, device) →
      s.ring = data :: ring → irp.length.toNat < data.length →
      Step actx s .take { s with
        device := device.complete irp .bufferOverflow []
        listener := .queueing }
  | take {irp : Pending} {device : Device} {data : List UInt8} {ring : List (List UInt8)} :
      s.listener = .served → s.device.removeNextIrp (readPeek actx) = some (irp, device) →
      s.ring = data :: ring → data.length ≤ irp.length.toNat →
      Step actx s .take { s with device := device, listener := .direct irp }
  | copy {irp : Pending} {data : List UInt8} {ring : List (List UInt8)} :
      s.listener = .direct irp → s.ring = data :: ring →
      Step actx s .copy { s with
        device := s.device.complete irp .success data
        listener := .idle
        ring := ring }
  | queueFails : s.listener = .queueing → Step actx s (.queue false) { s with listener := .idle }
  | queue {data : List UInt8} {ring : List (List UInt8)} : s.listener = .queueing →
      s.ring = data :: ring →
      Step actx s (.queue true) { s with listener := .chaining data, ring := ring }
  | chain {data : List UInt8} : s.listener = .chaining data →
      Step actx s .chain { s with
        device := s.device.setContext actx
          { s.device.contexts actx with dataList := s.dataList actx ++ [data] }
        listener := .idle }

/-- Nothing has arrived or was read. -/
def Init (actx : Nat) (s : AccepterSys) : Prop :=
  s.listener = .idle ∧ s.ring = [] ∧ s.arrived = [] ∧ s.dataList actx = [] ∧
    s.device.reads actx = [] ∧ s.device.handed actx = []

/-- The states to which steps that satisfy `ok` lead. -/
abbrev Reached (actx : Nat) (ok : AccepterSys → AccepterAct → Prop) : AccepterSys → Prop :=
  Reachable (Init actx) (Step actx) ok

/-- What was handed to reads, what is kept, and what is in the ring, is what arrived, in this order;
and the `ASSERT` before a direct copy holds. -/
structure InOrder (actx : Nat) (s : AccepterSys) : Prop where
  order : s.device.handed actx ++ s.dataList actx ++ s.copied ++ s.ring = s.arrived
  assert : ∀ irp, s.listener = .direct irp → s.dataList actx = []

/-- No read is queued when the listener has served the list, has not looked for a read yet, and data
is left in the list. -/
def OutsideWindow (actx : Nat) (s : AccepterSys) : AccepterAct → Prop
  | .queueRead _ => s.listener = .served → s.dataList actx = []
  | _ => True

/-- **The invariant.** -/
structure Sound (actx : Nat) (s : AccepterSys) : Prop where
  inOrder : s.InOrder actx
  window : s.listener = .served → s.dataList actx = [] ∨ s.device.reads actx = []
  taken : ∀ irp, s.listener = .direct irp → irp.test (readPeek actx) = true

variable {actx : Nat} {s s' : AccepterSys}

/-- Serving reads keeps the order, and leaves no data or no reads. -/
theorem served_spec {signaled : Bool} {device : Device}
    (h : s.device.processAccepterReads actx = (signaled, device)) :
    (∃ given, s.dataList actx = given ++ (device.contexts actx).dataList ∧
      device.handed actx = s.device.handed actx ++ given) ∧
    ((device.contexts actx).dataList = [] ∨ device.reads actx = []) := by
  have hserved := Device.served_processAccepterReads s.device actx
  have hend := Device.processAccepterReads_end s.device actx
  rw [h] at hserved hend
  refine ⟨hserved.data, ?_⟩
  cases signaled with
  | true => exact .inr hend.2
  | false => exact .inl hend

/-- A read that is taken or completed without success hands over nothing. -/
theorem handed_complete (device : Device) {irp : Pending} {status : NtStatus} (data : List UInt8)
    (h : status ≠ .success) : (device.complete irp status data).handed actx = device.handed actx := by
  rw [Device.handed, Device.complete, List.filter_append, List.map_append]
  simp [Device.handed, h]

theorem handed_success (device : Device) {irp : Pending} (data : List UInt8)
    (h : irp.test (readPeek actx) = true) :
    (device.complete irp .success data).handed actx = device.handed actx ++ [data] := by
  rw [Device.handed, Device.complete, List.filter_append, List.map_append]
  simp [Device.handed, h]

theorem removeNextIrp_spec {irp : Pending} {device device' : Device}
    (h : device.removeNextIrp (readPeek actx) = some (irp, device')) :
    irp.test (readPeek actx) = true ∧ device.reads actx = irp :: device'.reads actx ∧
      device'.contexts = device.contexts ∧ device'.handed actx = device.handed actx := by
  have hreads := Device.reads_of_removeNextIrp h
  obtain ⟨htest, l₁, l₂, -, rfl, -⟩ := Device.removeNextIrp_some h
  exact ⟨htest, hreads, rfl, rfl⟩

theorem Sound.arrive (h : s.Sound actx) (data : List UInt8) :
    Sound actx { s with ring := s.ring ++ [data], arrived := s.arrived ++ [data] } := by
  refine ⟨⟨?_, h.inOrder.assert⟩, h.window, h.taken⟩
  rw [← h.inOrder.order, ← List.append_assoc]
  rfl

/-- Reads come to the queue and leave it. -/
theorem Sound.requeue (h : s.Sound actx) {device : Device}
    (hcontexts : device.contexts = s.device.contexts)
    (hhanded : device.handed actx = s.device.handed actx)
    (hwindow : s.listener = .served → s.dataList actx ≠ [] → s.device.reads actx = [] →
      device.reads actx = []) :
    Sound actx { s with device := device } := by
  have hlist : (device.contexts actx).dataList = s.dataList actx := by rw [hcontexts, dataList]
  refine ⟨⟨?_, fun irp hpc => hlist.trans (h.inOrder.assert irp hpc)⟩, fun hpc => ?_, h.taken⟩
  · show device.handed actx ++ (device.contexts actx).dataList ++ s.copied ++ s.ring = s.arrived
    rw [hhanded, hlist, h.inOrder.order]
  · show (device.contexts actx).dataList = [] ∨ device.reads actx = []
    rw [hlist]
    by_cases hnil : s.dataList actx = []
    · exact .inl hnil
    · exact .inr (hwindow hpc hnil ((h.window hpc).resolve_left hnil))

/-- Reads are served from the list. -/
theorem Sound.serve (h : s.Sound actx) {signaled : Bool} {device : Device}
    (hserve : s.device.processAccepterReads actx = (signaled, device)) :
    Sound actx { s with device := device } := by
  obtain ⟨⟨given, hlist, hhanded⟩, hend⟩ := served_spec hserve
  refine ⟨⟨?_, fun irp hpc => ?_⟩, fun _ => hend, h.taken⟩
  · show device.handed actx ++ (device.contexts actx).dataList ++ s.copied ++ s.ring = s.arrived
    rw [hhanded, ← h.inOrder.order, hlist, List.append_assoc _ given]
  · exact (List.append_eq_nil_iff.mp (hlist.symm.trans (h.inOrder.assert irp hpc))).2

theorem copied_eq_nil {pc : ListenerPc} (hpc : s.listener = pc) (h : ∀ data, pc ≠ .chaining data) :
    s.copied = [] := by
  rw [copied, hpc]
  cases pc with
  | chaining data => exact absurd rfl (h data)
  | idle | served | direct | queueing => rfl

/-- The listener goes on, and has copied nothing. -/
theorem Sound.goTo (h : s.Sound actx) {old pc : ListenerPc} (hold : s.listener = old)
    (hnone : ∀ data, old ≠ .chaining data ∧ pc ≠ .chaining data)
    (hdirect : ∀ irp, pc = .direct irp → irp.test (readPeek actx) = true ∧ s.dataList actx = [])
    (hserved : pc = .served → s.dataList actx = [] ∨ s.device.reads actx = []) :
    Sound actx { s with listener := pc } := by
  have horder := h.inOrder.order
  rw [copied_eq_nil hold fun data => (hnone data).1] at horder
  refine ⟨⟨?_, fun irp hpc => (hdirect irp hpc).2⟩, hserved, fun irp hpc => (hdirect irp hpc).1⟩
  rw [copied_eq_nil rfl fun data => (hnone data).2]
  exact horder

theorem Sound.step (h : s.Sound actx) {a : AccepterAct} (hok : s.OutsideWindow actx a)
    (hs : s.Step actx a s') : s'.Sound actx := by
  cases hs with
  | @arrive data => exact h.arrive data
  | queueRead hflags hfile hlength =>
    exact h.requeue rfl rfl fun hpc hnil => absurd (hok hpc) hnil
  | @cancel irp hirp =>
    refine h.requeue rfl (handed_complete _ [] (by decide)) fun _ _ hreads => ?_
    exact List.eq_nil_of_sublist_nil (hreads ▸ List.erase_sublist.filter _)
  | drive hserve => exact h.serve hserve
  | begin hpc hring hserve =>
    exact (h.serve hserve).goTo hpc (by simp) (fun irp hpc => by cases hpc)
      fun _ => (served_spec hserve).2
  | takeNone hpc hnext =>
    exact h.goTo hpc (by simp) (fun irp hpc => by cases hpc) fun hpc => by cases hpc
  | @takeShort irp device data ring hpc hnext hring hlen =>
    obtain ⟨-, hreads, hcontexts, hhanded⟩ := removeNextIrp_spec hnext
    have htaken : Sound actx { s with device := device.complete irp .bufferOverflow [] } :=
      h.requeue hcontexts ((handed_complete device [] (by decide)).trans hhanded)
        fun _ _ hnil => by rw [hreads] at hnil; cases hnil
    exact htaken.goTo hpc (by simp) (fun irp hpc => by cases hpc) fun hpc => by cases hpc
  | take hpc hnext hring hlen =>
    obtain ⟨htest, hreads, hcontexts, hhanded⟩ := removeNextIrp_spec hnext
    have htaken := h.requeue hcontexts hhanded fun _ _ hnil => by rw [hreads] at hnil; cases hnil
    refine htaken.goTo hpc (by simp) (fun irp hdirect => ?_) fun hpc => by cases hpc
    cases hdirect
    refine ⟨htest, ?_⟩
    -- there was a read, so nothing was left in the list
    have hlist := (h.window hpc).resolve_right (by rw [hreads]; exact List.cons_ne_nil _ _)
    rw [dataList, hcontexts]
    exact hlist
  | @copy irp data ring hpc hring =>
    have horder := h.inOrder.order
    have hlist := h.inOrder.assert irp hpc
    rw [copied_eq_nil hpc (by simp), hlist, hring] at horder
    refine ⟨⟨?_, fun irp hpc => by cases hpc⟩, fun hpc => (by cases hpc), fun irp hpc => by cases hpc⟩
    show (s.device.complete irp .success data).handed actx ++ s.dataList actx ++ [] ++ ring = s.arrived
    rw [handed_success s.device data (h.taken irp hpc), hlist, ← horder]
    simp
  | queueFails hpc =>
    exact h.goTo hpc (by simp) (fun irp hpc => by cases hpc) fun hpc => by cases hpc
  | @queue data ring hpc hring =>
    have horder := h.inOrder.order
    rw [copied_eq_nil hpc (by simp), hring] at horder
    refine ⟨⟨?_, fun irp hpc => by cases hpc⟩, fun hpc => (by cases hpc), fun irp hpc => by cases hpc⟩
    show s.device.handed actx ++ s.dataList actx ++ [data] ++ ring = s.arrived
    rw [← horder]
    simp
  | @chain data hpc =>
    have horder := h.inOrder.order
    rw [copied, hpc] at horder
    refine ⟨⟨?_, fun irp hpc => by cases hpc⟩, fun hpc => (by cases hpc), fun irp hpc => by cases hpc⟩
    show s.device.handed actx ++ ((s.device.setContext actx { s.device.contexts actx with
      dataList := s.dataList actx ++ [data] }).contexts actx).dataList ++ [] ++ s.ring = s.arrived
    rw [Device.setContext_self, ← horder]
    simp

theorem Init.sound (h : s.Init actx) : s.Sound actx := by
  obtain ⟨hpc, hring, harrived, hlist, hreads, hhanded⟩ := h
  refine ⟨⟨?_, fun irp hdirect => ?_⟩, fun _ => .inl hlist, fun irp hdirect => ?_⟩
  · rw [hhanded, hlist, hring, harrived, copied_eq_nil hpc (by simp)]
    rfl
  · rw [hpc] at hdirect
    cases hdirect
  · rw [hpc] at hdirect
    cases hdirect

/-- **Accepter reads keep the order of arrival** in every run in which no read is queued while the
listener has served the list, has not looked for a read yet, and data is left. -/
theorem reads_in_order (actx : Nat) {s : AccepterSys} (h : Reached actx (OutsideWindow actx) s) :
    s.InOrder actx :=
  (h.invariant (fun _ => Init.sound) fun _ _ _ hs hok => hs.step hok).inOrder

/-- An accepted connection, before anything has arrived. -/
def acceptedConnection : AccepterSys where
  device :=
    { contexts := fun _ => ⟨.accepted, .accepter, ⟨5, 2⟩, 7, 0, [], some 1, []⟩
      contextList := [0]
      queue := []
      stashed := fun _ => 0
      completed := [] }
  listener := .idle
  ring := []
  arrived := []

/-- A read of 16 bytes. -/
def waitingRead : Pending := ⟨0, peekStream ||| peekRead, 16, 0, ⟨0, 0⟩⟩

theorem acceptedConnection_init : acceptedConnection.Init 0 := ⟨rfl, rfl, rfl, rfl, rfl, rfl⟩

/-- A read that waits gets what arrives. -/
theorem reads_in_order_one : ∃ s, Reached 0 (OutsideWindow 0) s ∧ s.InOrder 0 ∧
    s.device.handed 0 = [[1]] := by
  have h₁ : Reached 0 (OutsideWindow 0) acceptedConnection := .start acceptedConnection_init
  have h₂ := h₁.next (i := AccepterAct.queueRead waitingRead) (fun _ => rfl)
    (Step.queueRead rfl rfl (by decide))
  have h₃ := h₂.next (i := AccepterAct.arrive [1]) trivial Step.arrive
  have h₄ := h₃.next (i := AccepterAct.begin) trivial
    (Step.begin rfl (by decide) (Device.processAccepterReads_nil rfl))
  have h₅ := h₄.next (i := AccepterAct.take) trivial
    (Step.take rfl rfl rfl (by decide))
  have h₆ := h₅.next (i := AccepterAct.copy) trivial (Step.copy rfl rfl)
  exact ⟨_, h₆, reads_in_order 0 h₆, rfl⟩

theorem newer_data_read_first : ¬ ∀ s, Reached 0 (fun _ _ => True) s → s.InOrder 0 := by
  intro h
  -- nobody reads the first message, so it is kept
  have h₁ : Reached 0 (fun _ _ => True) acceptedConnection := .start acceptedConnection_init
  have h₂ := h₁.next (i := AccepterAct.arrive [1]) trivial Step.arrive
  have h₃ := h₂.next trivial (Step.begin rfl (by decide) (Device.processAccepterReads_nil rfl))
  have h₄ := h₃.next trivial (Step.takeNone rfl rfl)
  have h₅ := h₄.next trivial (Step.queue rfl rfl)
  have h₆ := h₅.next trivial (Step.chain rfl)
  -- nor, at first, the second one
  have h₇ := h₆.next (i := AccepterAct.arrive [2]) trivial Step.arrive
  have h₈ := h₇.next trivial (Step.begin rfl (by decide)
    (Device.processAccepterReads_none (by decide) rfl))
  have h₉ := h₈.next (i := AccepterAct.queueRead waitingRead) trivial
    (Step.queueRead rfl rfl (by decide))
  have h₁₀ := h₉.next trivial (Step.take rfl rfl rfl (by decide))
  have hlist : [[(1 : UInt8)]] = [] := (h _ h₁₀).assert waitingRead rfl
  cases hlist

end AccepterSys

end V4v.Windows
