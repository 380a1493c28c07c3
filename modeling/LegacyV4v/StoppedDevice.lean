import LegacyV4v.DispatchCalls

/-! # What a stopped device does

The dispatch routines should leave reads and writes in the queue and refuse IOCTLs while the device is stopped.
But `ds & XENV4V_DEV_STOPPED` is 0 whatever `ds` is, and they go on as if it were started.  Whether a call does
I/O then depends on what it finds: no write in the queue, an empty ring, no read, an IOCTL that fails one of its
own checks. -/
namespace V4v.Windows
open GuardedRun
open Linux (drained)

/-- **No I/O was done**: no hypercall, nothing taken out of a ring, and no context in another state. -/
structure Did.Silent (d : Did) : Prop where
  hypercalls : d.hypercalls = []
  rings : d.after.rings = d.before.rings
  states : ∀ ctx, (d.after.device.contexts ctx).state = (d.before.device.contexts ctx).state

/-- Whoever gets the next read of a connector leaves the message at the head of the ring alone. -/
def Extension.LeavesHead (w : Extension) (ctx : Nat) (irp : Pending) : Prop :=
  has irp.flags (peekSyn ||| peekAck) = true ∨
    ∃ n, headCase (w.device.contexts ctx) (w.ring ctx) = .data n ∧ irp.length.toNat < n

/-- Where a call goes on without I/O: there is no write to send; the ring is empty, or there is no read for what
is in it; there is no memory for a notify; the context is idle already. -/
def CallPc.Quiet (w : Extension) (o : Outcome) : CallPc → Prop
  | .queueWrite _ _ | .queueRead _ _ | .accepterReads _ _ => True
  | .contextWrites ctx => w.device.removeNextIrp (writePeek ctx) = none
  | .datagramReads ctx _ => drained (w.ring ctx) ∨ w.device.removeNextIrp (datagramPeek ctx) = none
  | .preConnectReads ctx val =>
    drained (w.ring ctx) ∨ w.device.removeNextIrp (preConnectPeek ctx val) = none
  | .connectorReads ctx nextIrp retain _ =>
    drained (w.ring ctx) ∨
      if retain then ∀ irp, nextIrp = some irp → w.LeavesHead ctx irp
      else ∀ p, w.device.removeNextIrp (readPeek ctx) = some p → w.LeavesHead ctx p.1
  | .notify => o.memory = false
  | .initializeFile ctx _ => (w.device.contexts ctx).state = .idle
  | .releaseContext _ _ => o.last = false
  | .registerRing _ _ | .sendReset _ | .exchange _ _ _ _ => False

namespace DispatchSys

/-- The steps of calls that began while the device was stopped are quiet. -/
def Quiet (s : DispatchSys) : DispatchAct → Prop
  | .step t o => ∀ c, s.calls t = some c → c.stopped = true → c.pc.Quiet s.ext o
  | _ => True

end DispatchSys

variable {w : Extension} {o : Outcome} {ds : UInt32} {pc : CallPc} {ctx : Nat} {irp : Pending}

/-! ## Quiet steps -/

/-- A step has done no I/O. -/
def StepOut.Silent (w : Extension) (out : StepOut) : Prop := Did.Silent ⟨true, out.hypercalls, w, out.ext⟩

theorem silent_of_eq {next : Progress} : (quietly next w).Silent w := ⟨rfl, rfl, fun _ => rfl⟩

/-- The queue and the completed IRPs are no I/O. -/
theorem silent_of_contexts {next : Progress} {device : Device} (h : device.contexts = w.device.contexts) :
    (quietly next { w with device := device }).Silent w :=
  ⟨rfl, rfl, fun ctx => by rw [← h]; rfl⟩

theorem silent_setContext {next : Progress} {x : FileContext}
    (h : x.state = (w.device.contexts ctx).state) : (quietly next (w.setContext ctx x)).Silent w := by
  refine ⟨rfl, rfl, fun ctx' => ?_⟩
  change ((w.device.setContext ctx x).contexts ctx').state = _
  by_cases heq : ctx' = ctx
  · rw [heq, Device.setContext_self, h]
  · rw [Device.setContext_of_ne _ _ heq]

theorem removeNextIrp_contexts {s s' : Device} {qp : QPeek} (h : s.removeNextIrp qp = some (irp, s')) :
    s'.contexts = s.contexts := by
  obtain ⟨-, l₁, l₂, -, rfl, -⟩ := Device.removeNextIrp_some h
  rfl

/-- A read is completed, and the message stays in the ring. -/
theorem ReadLoop.handle_leaves {s : ReadLoop} (h : has irp.flags (peekSyn ||| peekAck) = true ∨
    ∃ n, headCase (s.device.contexts ctx) s.ring = .data n ∧ irp.length.toNat < n) :
    (s.handle ctx irp).2.ring = s.ring ∧ (s.handle ctx irp).2.resets = s.resets ∧
      (s.handle ctx irp).2.device.contexts = s.device.contexts := by
  by_cases hplain : irp.Plain
  · obtain ⟨n, hcase, hlen⟩ := h.resolve_left (by rw [hplain]; exact Bool.false_ne_true)
    obtain ⟨msg, -, -, heq⟩ := handle_data hplain hcase
    rw [heq, if_pos hlen]
    exact ⟨rfl, rfl, rfl⟩
  · rw [handle_ioctl hplain]
    exact ⟨rfl, rfl, rfl⟩

/-- An empty ring stays as it is. -/
theorem ReadLoop.requeue_leaves {s : ReadLoop} {insert : InsertStatus} :
    (s.requeue insert).ring = s.ring ∧ (s.requeue insert).resets = s.resets ∧
      (s.requeue insert).device.contexts = s.device.contexts := by
  unfold requeue
  split
  · cases insert <;> exact ⟨rfl, rfl, rfl⟩
  · exact ⟨rfl, rfl, rfl⟩

/-- **A round for a connector** that takes nothing. -/
theorem ReadLoop.round_leaves {s : ReadLoop} (insert : InsertStatus)
    (h : drained s.ring ∨ ∀ irp s', s.noted.take ctx = some (irp, s') → has irp.flags (peekSyn ||| peekAck) = true ∨
      ∃ n, headCase (s.device.contexts ctx) s.ring = .data n ∧ irp.length.toNat < n) :
    (s.round ctx insert).2.ring = s.ring ∧ (s.round ctx insert).2.resets = s.resets ∧
      (s.round ctx insert).2.device.contexts = s.device.contexts := by
  unfold round
  dsimp only
  by_cases hdrained : drained s.ring
  · rw [if_pos (show drained s.noted.ring from hdrained)]
    exact s.noted.requeue_leaves
  rw [if_neg (show ¬ drained s.noted.ring from hdrained)]
  cases htake : s.noted.take ctx with
  | none => exact ⟨rfl, rfl, rfl⟩
  | some p =>
    obtain ⟨irp, s'⟩ := p
    have hleaves := h.resolve_left hdrained irp s' htake
    have hs' : s'.ring = s.ring ∧ s'.resets = s.resets ∧ s'.device.contexts = s.device.contexts := by
      unfold take at htake
      split at htake
      · obtain ⟨x, -, heq⟩ := Option.map_eq_some_iff.mp htake
        cases heq
        exact ⟨rfl, rfl, rfl⟩
      · obtain ⟨⟨x, device⟩, hread, heq⟩ := Option.map_eq_some_iff.mp htake
        cases heq
        exact ⟨rfl, rfl, removeNextIrp_contexts hread⟩
    rw [← hs'.1, ← hs'.2.2] at hleaves
    obtain ⟨hring, hresets, hcontexts⟩ := handle_leaves hleaves
    exact ⟨hring.trans hs'.1, hresets.trans hs'.2.1, hcontexts.trans hs'.2.2⟩

theorem accepterRound_states {s : Device} {p : Bool × Device} (h : s.accepterRound ctx = some p) (ctx' : Nat) :
    (p.2.contexts ctx').state = (s.contexts ctx').state := by
  unfold Device.accepterRound at h
  split at h
  · cases h
  · obtain ⟨⟨irp, s'⟩, hread, rfl⟩ := Option.map_eq_some_iff.mp h
    have hcontexts := removeNextIrp_contexts hread
    dsimp only
    split
    · exact congrArg (fun f => (f ctx').state) hcontexts
    split
    · exact congrArg (fun f => (f ctx').state) hcontexts
    · by_cases heq : ctx' = ctx
      · rw [heq, Device.setContext_self]
      · rw [Device.setContext_of_ne _ _ heq]
        exact congrArg (fun f => (f ctx').state) hcontexts

namespace Extension

theorem queueWrite_silent {insertHead : Bool} : (w.queueWrite ds o irp insertHead).Silent w := by
  unfold queueWrite
  split
  · split
    · exact silent_of_contexts rfl
    · exact silent_of_contexts rfl
  · exact silent_of_contexts rfl

theorem queueRead_silent {val : FileState} : (w.queueRead ds o irp val).Silent w := by
  unfold queueRead
  split
  · split
    · exact silent_of_contexts rfl
    · exact silent_of_contexts rfl
  · exact silent_of_contexts rfl

theorem contextWrites_silent (h : w.device.removeNextIrp (writePeek ctx) = none) :
    (w.contextWrites ctx).Silent w := by
  unfold contextWrites
  rw [h]
  exact silent_of_eq

theorem datagramRound_silent {notify : Bool}
    (h : drained (w.ring ctx) ∨ w.device.removeNextIrp (datagramPeek ctx) = none) :
    (w.datagramRound ctx notify).Silent w := by
  unfold datagramRound
  by_cases hdrained : drained (w.ring ctx)
  · rw [if_pos hdrained]
    exact silent_of_eq
  · rw [if_neg hdrained, h.resolve_left hdrained]
    exact silent_of_eq

theorem preConnectStep_silent {val : FileState}
    (h : drained (w.ring ctx) ∨ w.device.removeNextIrp (preConnectPeek ctx val) = none) :
    (w.preConnectStep o ctx val).Silent w := by
  unfold preConnectStep
  by_cases hdrained : drained (w.ring ctx)
  · rw [if_pos hdrained]
    exact silent_of_eq
  · rw [if_neg hdrained, h.resolve_left hdrained]
    exact silent_of_eq

theorem connectorStep_silent {nextIrp : Option Pending} {retain notify : Bool}
    (h : CallPc.Quiet w o (.connectorReads ctx nextIrp retain notify)) :
    (w.connectorStep o ctx nextIrp retain notify).Silent w := by
  obtain ⟨s, hs⟩ : ∃ s : ReadLoop, s = ⟨w.device, w.ring ctx, nextIrp, retain, [], false, notify, []⟩ := ⟨_, rfl⟩
  have hround : drained s.ring ∨ ∀ irp s', s.noted.take ctx = some (irp, s') → w.LeavesHead ctx irp := by
    rw [hs]
    refine h.imp id fun hreads irp s' htake => ?_
    unfold ReadLoop.take ReadLoop.noted at htake
    dsimp only at htake
    cases retain with
    | true =>
      rw [if_pos rfl] at htake hreads
      obtain ⟨x, hx, heq⟩ := Option.map_eq_some_iff.mp htake
      obtain ⟨rfl, -⟩ := Prod.mk.inj heq
      exact hreads x hx
    | false =>
      rw [if_neg Bool.false_ne_true] at htake hreads
      obtain ⟨p, hp, heq⟩ := Option.map_eq_some_iff.mp htake
      obtain ⟨rfl, -⟩ := Prod.mk.inj heq
      exact hreads p hp
  have hhead : s.device.contexts = w.device.contexts ∧ s.ring = w.ring ctx := by
    rw [hs]
    exact ⟨rfl, rfl⟩
  unfold LeavesHead at hround
  rw [← hhead.1, ← hhead.2] at hround
  obtain ⟨hring, hresets, hcontexts⟩ := s.round_leaves o.insert hround
  unfold connectorStep
  rw [← hs]
  refine ⟨?_, ?_, fun ctx' => ?_⟩
  · change (s.round ctx o.insert).2.resets.map _ = []
    rw [hresets, hs]
    rfl
  · change Function.update w.rings (w.ringObject ctx) (s.round ctx o.insert).2.ring = w.rings
    rw [hring, hhead.2]
    exact Function.update_eq_self ..
  · change ((s.round ctx o.insert).2.device.contexts ctx').state = _
    rw [hcontexts, hhead.1]

theorem accepterStep_silent {notify : Bool} : (w.accepterStep ctx notify).Silent w := by
  unfold accepterStep
  split
  · exact silent_of_eq
  · next p hround => exact ⟨rfl, rfl, accepterRound_states hround⟩

theorem notifyStep_silent (h : o.memory = false) : (w.notifyStep o).Silent w := by
  unfold notifyStep
  rw [h]
  exact silent_of_eq

theorem initializeFileStep_silent {listener : Option Nat} (h : (w.device.contexts ctx).state = .idle) :
    (w.initializeFileStep ctx listener).Silent w := by
  unfold initializeFileStep
  dsimp only
  split
  · exact silent_setContext h.symm
  · next l =>
    have hsilent : (quietly (.finish .pending) (w.setContext ctx { w.device.contexts ctx with
        state := .idle, dataList := [], listenerContext := some l })).Silent w := silent_setContext h.symm
    exact ⟨rfl, rfl, hsilent.states⟩

end Extension

/-- **The step lemma**: a quiet step does no I/O. -/
theorem CallPc.Quiet.silent (h : pc.Quiet w o) : (pc.step ds w o).Silent w := by
  cases pc with
  | queueWrite irp insertHead => exact w.queueWrite_silent
  | contextWrites ctx => exact w.contextWrites_silent h
  | queueRead irp val => exact w.queueRead_silent
  | datagramReads ctx notify => exact w.datagramRound_silent h
  | preConnectReads ctx val => exact w.preConnectStep_silent h
  | connectorReads ctx nextIrp retain notify => exact w.connectorStep_silent h
  | accepterReads ctx notify => exact w.accepterStep_silent
  | notify => exact w.notifyStep_silent h
  | initializeFile ctx listener => exact w.initializeFileStep_silent h
  | releaseContext ctx status =>
    have hlast : o.last = false := h
    rw [step, hlast]
    exact silent_of_eq
  | registerRing ctx ringId => exact h.elim
  | sendReset ctx => exact h.elim
  | exchange ctx type new status => exact h.elim

/-! ## How calls begin -/

theorem v4vDispatchWrite_silent {dcs : PeekFlags × UInt64} {mapped : Bool} :
    (w.v4vDispatchWrite irp dcs mapped).Silent w := by
  unfold Extension.v4vDispatchWrite
  split
  · exact silent_of_contexts rfl
  · exact silent_of_eq

theorem v4vDispatchRead_silent {mapped : Bool} : (w.v4vDispatchRead irp mapped).Silent w := by
  unfold Extension.v4vDispatchRead
  dsimp only
  split
  · exact silent_of_contexts rfl
  split
  · exact silent_of_contexts rfl
  · exact silent_of_eq

theorem v4vDispatchDeviceControl_silent {ioctl : Ioctl} :
    (w.v4vDispatchDeviceControl o ctx ioctl).Silent w := by
  unfold Extension.v4vDispatchDeviceControl
  split
  · exact silent_of_eq
  cases ioctl with
  | listen sizeOk backlog =>
    dsimp only
    split
    · unfold Extension.ctrlListenStep
      dsimp only
      split
      · exact silent_of_eq
      · exact silent_of_eq
      · exact silent_of_eq
      · exact silent_setContext rfl
    · exact silent_of_eq
  | connect sizeOk ringAddr =>
    dsimp only
    split
    · unfold Extension.ctrlConnect
      dsimp only
      split
      · exact silent_of_eq
      · exact silent_setContext rfl
    · exact silent_of_eq
  | _ => exact silent_of_eq

namespace DispatchSys
variable {s s' : DispatchSys} {a : DispatchAct} {d : Did}

theorem begin_silent {t : Nat} {out : StepOut} (hstep : s.begin t out = some (d, s'))
    (h : out.Silent s.ext) : d.Silent := by
  unfold begin at hstep
  split at hstep
  · obtain ⟨rfl, -⟩ := Prod.mk.inj (Option.some.inj hstep)
    exact ⟨h.hypercalls, h.rings, h.states⟩
  · cases hstep

/-- **Steps of calls that began while the device was stopped.** -/
theorem step_silent (hok : s.Quiet a) (hstep : s.step a = some (d, s')) (hstopped : d.stopped = true) :
    d.Silent := by
  cases a with
  | write t irp dcs mapped => exact begin_silent hstep v4vDispatchWrite_silent
  | read t irp mapped => exact begin_silent hstep v4vDispatchRead_silent
  | deviceControl t ctx ioctl o => exact begin_silent hstep v4vDispatchDeviceControl_silent
  | step t o =>
    obtain ⟨c, hc, heq⟩ := Option.map_eq_some_iff.mp hstep
    obtain ⟨rfl, -⟩ := Prod.mk.inj heq
    have hsilent : (c.pc.step c.ds s.ext o).Silent s.ext := (hok c hc hstopped).silent
    exact ⟨hsilent.hypercalls, hsilent.rings, hsilent.states⟩
  | stopDevice =>
    cases hstep
    cases hstopped
  | startDevice =>
    cases hstep
    cases hstopped
  | others device ringObject rings ringList =>
    cases hstep
    cases hstopped

/-- **A stopped device does no I/O**, in a run whose calls that began while it was stopped are quiet. -/
theorem stopped_silent {s₀ : DispatchSys} {ds : List Did} (h : Run step Quiet s₀ ds s) :
    ∀ d ∈ ds, d.stopped = true → d.Silent :=
  h.outputs (P := fun _ => True) trivial fun _ _ _ _ _ hok hstep => ⟨trivial, step_silent hok hstep⟩

/-- A started device with a context in this state, an empty ring and no call. -/
def oneFile (state : FileState) : DispatchSys where
  ext :=
    { state := devStarted
      device :=
        { contexts := fun _ => ⟨state, .unspecified, ⟨0, 0⟩, 0, 0, [], none, []⟩
          contextList := [0]
          queue := []
          stashed := fun _ => 0
          completed := [] }
      ringObject := fun ctx => ctx
      rings := fun _ _ _ => 0
      ringList := [] }
  calls := fun _ => none

/-- The others let everything succeed. -/
def smooth : Outcome := ⟨.success, true, true, 0, true, false, 51⟩

/-- A read comes for a file that is bound, and waits: its ring is empty. -/
theorem stopped_read_silent : ∃ ds s, Run step Quiet (oneFile .bound) ds s ∧ ds.length = 4 ∧
    ∀ d ∈ ds, d.stopped = true → d.Silent := by
  have hstop : Run step Quiet (oneFile .bound) _ _ :=
    .next .start (show Quiet _ .stopDevice from trivial) rfl
  have hread : Run step Quiet (oneFile .bound) _ _ :=
    hstop.next (show Quiet _ (.read 0 ⟨0, 0, 100, 0, ⟨0, 0⟩⟩ true) from trivial) rfl
  have hqueue : Run step Quiet (oneFile .bound) _ _ :=
    hread.next (show Quiet _ (.step 0 smooth) from fun c hc _ => by cases hc; trivial) rfl
  have hloop : Run step Quiet (oneFile .bound) _ _ :=
    hqueue.next (show Quiet _ (.step 0 smooth) from fun c hc _ => by cases hc; exact .inl rfl) rfl
  exact ⟨_, _, hloop, rfl, stopped_silent hloop⟩

/-- **A stopped device registers a ring** for a file that is bound. -/
theorem stopped_bind_registers : ¬ ∀ (s₀ s : DispatchSys) (ds : List Did), Run step (fun _ _ => True) s₀ ds s →
    ∀ d ∈ ds, d.stopped = true → d.Silent := by
  intro hall
  have hrun : Run step (fun _ _ => True) (oneFile .idle) _ _ := run_of_exec
    (show exec step (oneFile .idle) [.stopDevice,
      .deviceControl 0 0 (.bind true ⟨⟨10, domidInvalid⟩, domidInvalid⟩) smooth, .step 0 smooth] = _ from rfl)
    fun _ _ _ => trivial
  have hsilent := hall _ _ _ hrun _ (List.mem_cons_of_mem _ (List.mem_cons_of_mem _ List.mem_cons_self)) rfl
  exact absurd hsilent.hypercalls (by decide)

end DispatchSys

end V4v.Windows
