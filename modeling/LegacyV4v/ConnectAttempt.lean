import LegacyV4v.StreamDriver

/-! # One attempt to connect

`v4v_connect` on a stream socket, statement by statement, between the messages that
`connector_interrupt` handles and its timer.  The three write the state of the socket without a common
lock.  A message is handled in one step, as is the expiry of the timer; a pass of `v4v_interrupt_rx` looks
at the type of the ring once and then handles messages for as long as there are any. -/
namespace V4v.Linux
open GuardedRun

def einprogress : Int := 115

/-- Where a call of `v4v_connect` is: before the statement, test or wait of that name. -/
inductive ConnectPc where
  | enter
  | setState
  | setConid
  | setPeer
  | send
  | undoState
  | undoType
  | arm
  | test
  | wait
  | woken
  | failState
  | failType
  | delTimer
  | returned
  deriving DecidableEq, Repr

/-- A call of `v4v_connect`: its arguments `peer` and `nonblock`, `ret`, and whether its timer is pending;
the socket `p` and its ring; and whether a pass is in its loop over the messages of the ring.  Of what has
happened since the call was made, `acked` says that an ACK has moved the socket from CONNECTING to
CONNECTED, `reset` that a RST has been processed, and `torn` that the timer has expired on a connected
socket. -/
structure Connecting where
  peer : Addr
  nonblock : Bool
  pc : ConnectPc
  ret : Int
  timer : Bool
  id : RingId
  type : RType
  sock : Sock
  queue : List Message
  inLoop : Bool
  acked : Bool
  reset : Bool
  torn : Bool

/-- What the call gets where it asks: a random conid, the result of `xmit_queue_inline`, and whether a signal
is pending. -/
structure ConnectInput where
  conid : UInt32
  sent : Int
  signal : Bool

/-- The call goes on; a message arrives; a pass comes to the ring, handles a message, or finds none; the
timer expires. -/
inductive AttemptAct where
  | call (i : ConnectInput)
  | arrive (m : Message)
  | visit
  | handle (mem : Option Nat)
  | leave
  | respite

namespace Connecting

/-- `return ret`. -/
def leaveWith (s : Connecting) (ret : Int) : Connecting := { s with ret := ret, pc := .returned }

/-- Assign `p->state`. -/
def setState (s : Connecting) (st : SockState) : Connecting := { s with sock := { s.sock with state := st } }

/-- The next statement of `v4v_connect`. -/
def call (s : Connecting) (i : ConnectInput) : Option Connecting :=
  match s.pc with
  | .enter =>
    match s.sock.state with
    | .bound => some { s with type := .connector, pc := .setState }
    | .connected => some (s.leaveWith (if s.peer = s.sock.peer then 0 else -einval))
    | .connecting =>
      some (if s.peer = s.sock.peer then
        if s.nonblock then s.leaveWith (-einprogress) else { s with pc := .arm }
      else s.leaveWith (-einval))
    | _ => some (s.leaveWith (-einval))
  | .setState => some { s.setState .connecting with pc := .setConid }
  | .setConid => some { s with sock := { s.sock with conid := i.conid }, pc := .setPeer }
  | .setPeer => some { s with sock := { s.sock with peer := s.peer }, pc := .send }
  | .send =>
    let ret := if i.sent = sizeofStreamHeader then 0 else i.sent
    some (if ret ≠ 0 ∧ ret ≠ -eagain then { s with ret := ret, pc := .undoState }
      else if s.nonblock then s.leaveWith (-einprogress)
      else { s with ret := ret, pc := .arm })
  | .undoState => some { s.setState .bound with pc := .undoType }
  | .undoType => some { s with type := .dgram, pc := .returned }
  | .arm => some { s with timer := true, pc := .test }
  | .test => some { s with pc := if s.sock.state ≠ .connected then .wait else .delTimer }
  | .wait =>
    -- `wait_event_interruptible` tests its condition before it looks for signals
    if s.sock.state ≠ .connecting then some { s with ret := 0, pc := .woken }
    else if i.signal then some { s with ret := -erestartsys, pc := .delTimer }
    else none
  | .woken => some { s with pc := if s.sock.state = .disconnected then .failState else .test }
  | .failState => some { s.setState .bound with pc := .failType }
  | .failType => some { s with type := .dgram, ret := -econnrefused, pc := .delTimer }
  | .delTimer => some { s with timer := false, pc := .returned }
  | .returned => none

/-- The ring, as the interrupt sees it. -/
def ring (s : Connecting) : Ring := ⟨s.id, s.type, some s.sock, [], s.queue⟩

/-- The header that `connector_interrupt` passes to `connector_state_machine`, if it does. -/
def control (s : Connecting) : Option StreamHeader :=
  match s.queue with
  | [] => none
  | m :: _ =>
    match peekHeader m with
    | some (sh, []) =>
      if sh.has shfSyn = false ∧ sh.conid = s.sock.conid ∧ sh.has (shfAck ||| shfRst) = true then some sh
      else none
    | _ => none

/-- `connector_state_machine` takes the header for an ACK. -/
def takesAck (s : Connecting) (sh : StreamHeader) : Bool :=
  sh.has shfAck && (s.sock.state == .connecting || s.sock.state == .connected ||
    s.sock.state == .disconnected)

/-- `connector_state_machine` takes the header for a RST. -/
def takesRst (s : Connecting) (sh : StreamHeader) : Bool := sh.has shfRst && !s.takesAck sh

/-- One call of `connector_interrupt` in the loop of a pass, which goes on when it returns 0. -/
def handle (s : Connecting) (mem : Option Nat) : Connecting :=
  let o := connectorInterrupt s.ring mem
  { s with
    queue := o.ring.queue
    sock := o.ring.sponsor.getD s.sock
    inLoop := o.ret == 0
    acked := s.acked || s.control.any fun sh => s.takesAck sh && s.sock.state == .connecting
    reset := s.reset || s.control.any s.takesRst }

/-- `respite`. -/
def respite (s : Connecting) : Connecting :=
  { s with
    timer := false
    sock := { s.sock with pendingError := -etimedout, state := .disconnected }
    torn := s.torn || s.sock.state == .connected }

/-- What an action leaves, if it can be taken. -/
def step (s : Connecting) : AttemptAct → Option Connecting
  | .call i => s.call i
  | .arrive m => some { s with queue := s.queue ++ [m] }
  | .visit =>
    if s.inLoop ∨ s.queue = [] then none
    else
      match s.type with
      | .idle => some { s with queue := s.queue.tail }
      | .connector => some { s with inLoop := true }
      | _ => some s
  | .handle mem => if s.inLoop ∧ s.queue ≠ [] then some (s.handle mem) else none
  | .leave => if s.inLoop ∧ s.queue = [] then some { s with inLoop := false } else none
  | .respite => if s.timer then some s.respite else none

/-- Until the call has returned. -/
def Going (s : Connecting) (_ : AttemptAct) : Prop := s.pc ≠ .returned

instance (s : Connecting) (a : AttemptAct) : Decidable (s.Going a) := inferInstanceAs (Decidable (_ ≠ _))

/-- One step of the attempt. -/
abbrev Step (s : Connecting) (a : AttemptAct) (s' : Connecting) : Prop := s.Going a ∧ s.step a = some s'

/-- **What a step is**: a statement of the call, the handling of a message, the expiry of the timer, or
something that changes the queue and the loop of the pass only. -/
inductive StepCase (s : Connecting) : AttemptAct → Connecting → Prop
  | call {i : ConnectInput} {s' : Connecting} : s.call i = some s' → StepCase s (.call i) s'
  | handle {mem : Option Nat} : s.inLoop = true → s.queue ≠ [] → StepCase s (.handle mem) (s.handle mem)
  | respite : s.timer = true → StepCase s .respite s.respite
  | pass {a : AttemptAct} (queue : List Message) (inLoop : Bool) :
      (inLoop = true → s.inLoop = true ∨ s.type = .connector) →
      StepCase s a { s with queue := queue, inLoop := inLoop }

theorem step_cases {s s' : Connecting} {a : AttemptAct} (h : s.step a = some s') : s.StepCase a s' := by
  unfold Connecting.step at h
  cases a with
  | call i => exact .call h
  | arrive m =>
    obtain rfl := Option.some.inj h
    exact .pass _ _ .inl
  | visit =>
    dsimp only at h
    split at h
    · cases h
    · split at h <;> obtain rfl := Option.some.inj h
      · exact .pass _ _ .inl
      · next hty => exact .pass _ _ fun _ => .inr hty
      · exact .pass _ _ .inl
  | handle mem =>
    dsimp only at h
    split at h
    · next hloop =>
      obtain rfl := Option.some.inj h
      exact .handle hloop.1 hloop.2
    · cases h
  | leave =>
    dsimp only at h
    split at h
    · obtain rfl := Option.some.inj h
      exact .pass _ _ fun hno => nomatch hno
    · cases h
  | respite =>
    dsimp only at h
    split at h
    · next htimer =>
      obtain rfl := Option.some.inj h
      exact .respite htimer
    · cases h

/-- The call is made, in BOUND, or in CONNECTING with the same peer. -/
structure Starts (s : Connecting) : Prop where
  pc : s.pc = .enter
  ret : s.ret = -einval
  timer : s.timer = false
  acked : s.acked = false
  reset : s.reset = false
  torn : s.torn = false
  state : s.sock.state = .bound ∨ s.sock.state = .connecting ∧ s.peer = s.sock.peer

/-- The states of an attempt, in runs whose steps satisfy `ok`. -/
abbrev Reached (ok : Connecting → AttemptAct → Prop) : Connecting → Prop := Reachable Starts Step ok

/-- The timer does not expire on a connected socket; an ACK comes while the call waits, or has 0 to return,
and no second one comes; and a RST comes neither before the socket is CONNECTING nor when the call is about to
return 0. -/
def Orderly (s : Connecting) : AttemptAct → Prop
  | .respite => s.sock.state ≠ .connected
  | .handle _ => ∀ sh, s.control = some sh →
    (s.takesAck sh = true → s.sock.state ≠ .connected ∧
      (s.sock.state = .connecting → s.pc = .wait ∨ s.ret = 0)) ∧
    (s.takesRst sh = true → ¬(s.sock.state = .bound ∧ (s.pc = .enter ∨ s.pc = .setState)) ∧
      ¬(s.pc = .delTimer ∧ s.ret = 0))
  | _ => True

/-! ## What handling a message does to the state -/

/-- What `connector_state_machine` makes of the state. -/
def controlled (s : Connecting) (sh : StreamHeader) : SockState :=
  if s.takesAck sh then if s.sock.state = .connecting then .connected else .disconnected
  else if s.takesRst sh ∧ (s.sock.state = .connecting ∨ s.sock.state = .connected) then .disconnected
  else s.sock.state

theorem machine_state (s : Connecting) (sh : StreamHeader) :
    (connectorStateMachine s.sock sh).2.state = s.controlled sh := by
  unfold controlled takesRst takesAck
  cases hst : s.sock.state <;> cases hack : sh.has shfAck <;> cases hrst : sh.has shfRst <;>
    simp [connectorStateMachine, connectorReset, hst, hack, hrst]

/-- What `connector_interrupt` leaves of the socket: what `connector_state_machine` makes of it, or the same
state. -/
theorem connectorCase_state {s : Connecting} {m : Message} {rest : List Message} {mem : Option Nat}
    {o : RingOut} (hq : s.queue = m :: rest) (h : ConnectorCase s.ring s.sock m rest mem o) :
    (o.ring.sponsor.getD s.sock).state = (s.control.map s.controlled).getD s.sock.state := by
  unfold control
  rw [hq]
  dsimp only
  cases h with
  | binned hpeek => rw [hpeek]; rfl
  | @syn sh data hpeek hsyn =>
    rw [hpeek]
    cases data with
    | nil =>
      dsimp only
      rw [hsyn, if_neg fun hall => Bool.noConfusion hall.1]
      rfl
    | cons b data => rfl
  | @stranger sh data hpeek hsyn hconid =>
    rw [hpeek]
    cases data with
    | nil =>
      dsimp only
      rw [if_neg fun hall => hconid hall.2.1]
      rfl
    | cons b data => rfl
  | @padded sh data hpeek hsyn hconid hctl hdata =>
    rw [hpeek]
    cases data with
    | nil => exact absurd rfl hdata
    | cons b data => rfl
  | control hpeek hsyn hconid hctl =>
    rw [hpeek]
    dsimp only
    rw [if_pos ⟨hsyn, hconid, hctl⟩]
    exact machine_state s _
  | @data sh data c hpeek hsyn hconid hctl hcopy =>
    have hsame : c.sock.state = s.sock.state := by
      cases hcopy <;> rfl
    rw [hpeek]
    cases data with
    | nil =>
      dsimp only
      rw [hctl, if_neg fun hall => Bool.false_ne_true hall.2.2]
      exact hsame
    | cons b data => exact hsame

theorem handle_state {s : Connecting} (hq : s.queue ≠ []) (mem : Option Nat) :
    (s.handle mem).sock.state = (s.control.map s.controlled).getD s.sock.state := by
  obtain ⟨m, rest, hq⟩ := List.exists_cons_of_ne_nil hq
  exact connectorCase_state hq (connector_cases rfl hq mem)

/-! ## The invariant -/

/-- What holds at each place of the call: an ACK that no RST has followed leaves the socket CONNECTED and 0 to
be returned. -/
structure Inv (s : Connecting) : Prop where
  early : s.pc = .enter ∨ s.pc = .setState ∨ s.pc = .setConid ∨ s.pc = .setPeer ∨ s.pc = .send → s.ret ≠ 0
  entered : s.pc = .setState → s.sock.state = .bound
  quiet : s.sock.state = .bound → s.pc = .enter ∨ s.pc = .setState → s.acked = false ∧ s.reset = false
  connecting : s.sock.state = .connecting → s.acked = false ∧ s.reset = false
  connected : s.sock.state = .connected → s.acked = true ∧ s.reset = false
  opened : s.acked = true → s.reset = false → s.sock.state = .connected ∧ (s.ret = 0 ∨ s.pc = .wait)
  undoing : s.pc = .undoState ∨ s.pc = .undoType → s.ret ≠ 0
  failing : s.pc = .failState → s.sock.state = .disconnected
  failed : s.pc = .failType → s.sock.state ≠ .connected ∧ s.sock.state ≠ .connecting
  done : s.pc = .delTimer ∨ s.pc = .returned → s.ret = 0 → s.sock.state = .connected
  armed : s.timer = true → s.pc = .test ∨ s.pc = .wait ∨ s.pc = .woken ∨ s.pc = .failState ∨
    s.pc = .failType ∨ s.pc = .delTimer
  torn : s.torn = false

theorem Starts.inv {s : Connecting} (h : s.Starts) : s.Inv := by
  obtain ⟨hpc, hret, htimer, hacked, hreset, htorn, hstate⟩ := h
  constructor <;> grind [einval]

/-- The timer is set by the loop only. -/
theorem Inv.unarmed {s : Connecting} (h : s.Inv) (hpc : s.pc = .enter ∨ s.pc = .setState ∨ s.pc = .setConid ∨
    s.pc = .setPeer ∨ s.pc = .send ∨ s.pc = .undoState ∨ s.pc = .undoType) : s.timer = false := by
  rcases Bool.eq_false_or_eq_true s.timer with htimer | htimer
  · have harmed := h.armed htimer
    rcases hpc with hpc | hpc | hpc | hpc | hpc | hpc | hpc <;> rw [hpc] at harmed <;> simp at harmed
  · exact htimer

/-- Outside the wait, an open connection has 0 to return. -/
theorem Inv.opened_zero {s : Connecting} (h : s.Inv) (hpc : s.pc ≠ .wait) (hacked : s.acked = true)
    (hreset : s.reset = false) : s.sock.state = .connected ∧ s.ret = 0 :=
  ⟨(h.opened hacked hreset).1, (h.opened hacked hreset).2.resolve_right hpc⟩

/-- With an error to return, the connection is not open. -/
theorem Inv.not_open {s : Connecting} {P : Prop} (h : s.Inv) (hpc : s.pc ≠ .wait) (hret : s.ret ≠ 0)
    (hacked : s.acked = true) (hreset : s.reset = false) : P :=
  absurd (h.opened_zero hpc hacked hreset).2 hret

/-- The call returns with an error before it has waited. -/
theorem Inv.leave {s : Connecting} {ret : Int} (h : s.Inv) (hpc : s.pc = .enter ∨ s.pc = .send)
    (hret : ret ≠ 0) : (s.leaveWith ret).Inv := by
  have hunarmed : s.timer = false := h.unarmed (by tauto)
  have hearly : s.ret ≠ 0 := h.early (by tauto)
  have hwait : s.pc ≠ .wait := by rcases hpc with hpc | hpc <;> rw [hpc] <;> nofun
  refine ⟨nofun, nofun, fun _ => nofun, h.connecting, h.connected, ?_, nofun, nofun, nofun, ?_, ?_, h.torn⟩
  · exact fun hacked hreset => h.not_open hwait hearly hacked hreset
  · exact fun _ hzero => absurd hzero hret
  · exact fun htimer => nomatch hunarmed.symm.trans htimer

/-- `switch (p->state)`. -/
theorem Inv.call_enter {s s' : Connecting} {i : ConnectInput} (h : s.Inv) (hpc : s.pc = .enter)
    (hs : s.call i = some s') : s'.Inv := by
  have hinval : (s.leaveWith (-einval)).Inv := h.leave (.inl hpc) (by decide)
  have hearly : s.ret ≠ 0 := h.early (.inl hpc)
  have hunarmed : s.timer = false := h.unarmed (.inl hpc)
  have hwait : s.pc ≠ .wait := by rw [hpc]; nofun
  unfold Connecting.call at hs
  rw [hpc] at hs
  cases hst : s.sock.state <;> simp only [hst] at hs <;> obtain rfl := Option.some.inj hs
  case connected =>
    -- the socket is not connected before its SYN is sent
    obtain ⟨hacked, hreset⟩ := h.connected hst
    exact h.not_open hwait hearly hacked hreset
  case bound =>
    refine ⟨fun _ => hearly, fun _ => hst, fun hb _ => h.quiet hb (.inl hpc), h.connecting, h.connected, ?_,
      nofun, nofun, nofun, nofun, ?_, h.torn⟩
    · exact fun hacked hreset => h.not_open hwait hearly hacked hreset
    · exact fun htimer => nomatch hunarmed.symm.trans htimer
  case connecting =>
    split
    · split
      · exact h.leave (.inl hpc) (by decide)
      · refine ⟨nofun, nofun, fun _ => nofun, h.connecting, h.connected, ?_, nofun, nofun, nofun, nofun, ?_,
          h.torn⟩
        · exact fun hacked hreset => h.not_open hwait hearly hacked hreset
        · exact fun htimer => nomatch hunarmed.symm.trans htimer
    · exact hinval
  all_goals exact hinval

/-- The socket is prepared for its SYN. -/
theorem Inv.call_prepare {s s' : Connecting} {i : ConnectInput} (h : s.Inv)
    (hpc : s.pc = .setState ∨ s.pc = .setConid ∨ s.pc = .setPeer) (hs : s.call i = some s') : s'.Inv := by
  have hearly : s.ret ≠ 0 := h.early (by tauto)
  have hunarmed : s.timer = false := h.unarmed (by tauto)
  unfold Connecting.call at hs
  rcases hpc with hpc | hpc
  · -- the socket was BOUND, so nothing has come yet
    have hquiet := h.quiet (h.entered hpc) (.inr hpc)
    rw [hpc] at hs
    obtain rfl := Option.some.inj hs
    refine ⟨fun _ => hearly, nofun, nofun, fun _ => hquiet, nofun, ?_, nofun, nofun, nofun, nofun, ?_, h.torn⟩
    · exact fun hacked => nomatch hquiet.1.symm.trans hacked
    · exact fun htimer => nomatch hunarmed.symm.trans htimer
  · have hwait : s.pc ≠ .wait := by rcases hpc with hpc | hpc <;> rw [hpc] <;> nofun
    rcases hpc with hpc | hpc
    all_goals
      rw [hpc] at hs
      obtain rfl := Option.some.inj hs
      refine ⟨fun _ => hearly, nofun, fun _ => nofun, h.connecting, h.connected, ?_, nofun, nofun, nofun,
        nofun, ?_, h.torn⟩
      · exact fun hacked hreset => h.not_open hwait hearly hacked hreset
      · exact fun htimer => nomatch hunarmed.symm.trans htimer

/-- The SYN is sent. -/
theorem Inv.call_send {s s' : Connecting} {i : ConnectInput} (h : s.Inv) (hpc : s.pc = .send)
    (hs : s.call i = some s') : s'.Inv := by
  have hleave : (s.leaveWith (-einprogress)).Inv := h.leave (.inr hpc) (by decide)
  have hearly : s.ret ≠ 0 := h.early (by tauto)
  have hunarmed : s.timer = false := h.unarmed (by tauto)
  have hwait : s.pc ≠ .wait := by rw [hpc]; nofun
  unfold Connecting.call at hs
  rw [hpc] at hs
  obtain rfl := Option.some.inj hs
  generalize (if i.sent = sizeofStreamHeader then 0 else i.sent) = ret
  split
  · next hret =>
    refine ⟨nofun, nofun, fun _ => nofun, h.connecting, h.connected, ?_, fun _ => hret.1, nofun, nofun, nofun,
      ?_, h.torn⟩
    · exact fun hacked hreset => h.not_open hwait hearly hacked hreset
    · exact fun htimer => nomatch hunarmed.symm.trans htimer
  · split
    · exact hleave
    · refine ⟨nofun, nofun, fun _ => nofun, h.connecting, h.connected, ?_, nofun, nofun, nofun, nofun, ?_,
        h.torn⟩
      · exact fun hacked hreset => h.not_open hwait hearly hacked hreset
      · exact fun htimer => nomatch hunarmed.symm.trans htimer

/-- The SYN could not be sent. -/
theorem Inv.call_undo {s s' : Connecting} {i : ConnectInput} (h : s.Inv)
    (hpc : s.pc = .undoState ∨ s.pc = .undoType) (hs : s.call i = some s') : s'.Inv := by
  have hret : s.ret ≠ 0 := h.undoing hpc
  have hunarmed : s.timer = false := h.unarmed (by tauto)
  have hwait : s.pc ≠ .wait := by rcases hpc with hpc | hpc <;> rw [hpc] <;> nofun
  unfold Connecting.call at hs
  rcases hpc with hpc | hpc
  · rw [hpc] at hs
    obtain rfl := Option.some.inj hs
    refine ⟨nofun, nofun, fun _ => nofun, nofun, nofun, ?_, fun _ => hret, nofun, nofun, nofun, ?_, h.torn⟩
    · exact fun hacked hreset => h.not_open hwait hret hacked hreset
    · exact fun htimer => nomatch hunarmed.symm.trans htimer
  · rw [hpc] at hs
    obtain rfl := Option.some.inj hs
    refine ⟨nofun, nofun, fun _ => nofun, h.connecting, h.connected, ?_, nofun, nofun, nofun, ?_, ?_, h.torn⟩
    · exact fun hacked hreset => h.not_open hwait hret hacked hreset
    · exact fun _ hzero => absurd hzero hret
    · exact fun htimer => nomatch hunarmed.symm.trans htimer

/-- The loop, but for the wait. -/
theorem Inv.call_loop {s s' : Connecting} {i : ConnectInput} (h : s.Inv)
    (hpc : s.pc = .arm ∨ s.pc = .test ∨ s.pc = .woken) (hs : s.call i = some s') : s'.Inv := by
  have hwait : s.pc ≠ .wait := by rcases hpc with hpc | hpc | hpc <;> rw [hpc] <;> nofun
  have hopened : s.acked = true → s.reset = false → s.sock.state = .connected ∧ s.ret = 0 := h.opened_zero hwait
  unfold Connecting.call at hs
  rcases hpc with hpc | hpc | hpc
  · rw [hpc] at hs
    obtain rfl := Option.some.inj hs
    refine ⟨nofun, nofun, fun _ => nofun, h.connecting, h.connected, ?_, nofun, nofun, nofun, nofun,
      fun _ => .inl rfl, h.torn⟩
    exact fun hacked hreset => (hopened hacked hreset).imp_right .inl
  · rw [hpc] at hs
    obtain rfl := Option.some.inj hs
    by_cases hst : s.sock.state = .connected
    · rw [if_neg (not_not.mpr hst)]
      refine ⟨nofun, nofun, fun _ => nofun, h.connecting, h.connected, ?_, nofun, nofun, nofun,
        fun _ _ => hst, fun _ => by simp, h.torn⟩
      exact fun hacked hreset => (hopened hacked hreset).imp_right .inl
    · rw [if_pos hst]
      refine ⟨nofun, nofun, fun _ => nofun, h.connecting, h.connected, ?_, nofun, nofun, nofun, nofun,
        fun _ => .inr (.inl rfl), h.torn⟩
      exact fun hacked hreset => (hopened hacked hreset).imp_right .inl
  · rw [hpc] at hs
    obtain rfl := Option.some.inj hs
    by_cases hst : s.sock.state = .disconnected
    · rw [if_pos hst]
      refine ⟨nofun, nofun, fun _ => nofun, h.connecting, h.connected, ?_, nofun, fun _ => hst, nofun, nofun,
        fun _ => by simp, h.torn⟩
      exact fun hacked hreset => (hopened hacked hreset).imp_right .inl
    · rw [if_neg hst]
      refine ⟨nofun, nofun, fun _ => nofun, h.connecting, h.connected, ?_, nofun, nofun, nofun, nofun,
        fun _ => .inl rfl, h.torn⟩
      exact fun hacked hreset => (hopened hacked hreset).imp_right .inl

/-- The wait is over. -/
theorem Inv.call_wait {s s' : Connecting} {i : ConnectInput} (h : s.Inv) (hpc : s.pc = .wait)
    (hs : s.call i = some s') : s'.Inv := by
  unfold Connecting.call at hs
  rw [hpc] at hs
  dsimp only at hs
  split at hs
  · -- the condition holds
    obtain rfl := Option.some.inj hs
    refine ⟨nofun, nofun, fun _ => nofun, h.connecting, h.connected, ?_, nofun, nofun, nofun, nofun,
      fun _ => by simp, h.torn⟩
    exact fun hacked hreset => ⟨(h.opened hacked hreset).1, .inl rfl⟩
  · next hst =>
    have hconnecting : s.sock.state = .connecting := not_not.mp hst
    split at hs
    · -- a signal
      obtain rfl := Option.some.inj hs
      refine ⟨nofun, nofun, fun _ => nofun, h.connecting, h.connected, ?_, nofun, nofun, nofun, ?_,
        fun _ => by simp, h.torn⟩
      · exact fun hacked => nomatch (h.connecting hconnecting).1.symm.trans hacked
      · exact fun _ hzero => absurd hzero (show -erestartsys ≠ 0 by decide)
    · cases hs

/-- The connection was refused. -/
theorem Inv.call_fail {s s' : Connecting} {i : ConnectInput} (h : s.Inv)
    (hpc : s.pc = .failState ∨ s.pc = .failType) (hs : s.call i = some s') : s'.Inv := by
  have hwait : s.pc ≠ .wait := by rcases hpc with hpc | hpc <;> rw [hpc] <;> nofun
  have hdown : s.sock.state ≠ .connected := by
    rcases hpc with hpc | hpc
    · rw [h.failing hpc]
      nofun
    · exact (h.failed hpc).1
  have hclosed {P : Prop} (hacked : s.acked = true) (hreset : s.reset = false) : P :=
    absurd (h.opened hacked hreset).1 hdown
  unfold Connecting.call at hs
  rcases hpc with hpc | hpc
  · rw [hpc] at hs
    obtain rfl := Option.some.inj hs
    exact ⟨nofun, nofun, fun _ => nofun, nofun, nofun, hclosed, nofun, nofun, fun _ => ⟨nofun, nofun⟩, nofun,
      fun _ => by simp, h.torn⟩
  · rw [hpc] at hs
    obtain rfl := Option.some.inj hs
    exact ⟨nofun, nofun, fun _ => nofun, h.connecting, h.connected, hclosed, nofun, nofun, nofun,
      fun _ hzero => absurd hzero (show -econnrefused ≠ 0 by decide), fun _ => by simp, h.torn⟩

/-- The call returns. -/
theorem Inv.call_delTimer {s s' : Connecting} {i : ConnectInput} (h : s.Inv) (hpc : s.pc = .delTimer)
    (hs : s.call i = some s') : s'.Inv := by
  have hwait : s.pc ≠ .wait := by rw [hpc]; nofun
  unfold Connecting.call at hs
  rw [hpc] at hs
  obtain rfl := Option.some.inj hs
  exact ⟨nofun, nofun, fun _ => nofun, h.connecting, h.connected,
    fun hacked hreset => (h.opened_zero hwait hacked hreset).imp_right .inl, nofun, nofun, nofun,
    fun _ => h.done (.inl hpc), nofun, h.torn⟩

/-- The statements of the call. -/
theorem Inv.call {s s' : Connecting} {i : ConnectInput} (h : s.Inv) (hs : s.call i = some s') : s'.Inv := by
  cases hpc : s.pc with
  | enter => exact h.call_enter hpc hs
  | setState | setConid | setPeer => exact h.call_prepare (by tauto) hs
  | send => exact h.call_send hpc hs
  | undoState | undoType => exact h.call_undo (by tauto) hs
  | arm | test | woken => exact h.call_loop (by tauto) hs
  | wait => exact h.call_wait hpc hs
  | failState | failType => exact h.call_fail (by tauto) hs
  | delTimer => exact h.call_delTimer hpc hs
  | returned =>
    unfold Connecting.call at hs
    rw [hpc] at hs
    cases hs

/-- What of a step matters to the invariant: only the state, `acked` and `reset` have changed. -/
structure Moves (s s' : Connecting) : Prop where
  pc : s'.pc = s.pc
  ret : s'.ret = s.ret
  timer : s'.timer = s.timer
  torn : s'.torn = s.torn

theorem handle_moves (s : Connecting) (mem : Option Nat) : s.Moves (s.handle mem) := ⟨rfl, rfl, rfl, rfl⟩

/-- A message that `connector_state_machine` does not get changes nothing that matters. -/
theorem Inv.same {s s' : Connecting} (h : s.Inv) (hm : s.Moves s') (hstate : s'.sock.state = s.sock.state)
    (hacked : s'.acked = s.acked) (hreset : s'.reset = s.reset) : s'.Inv where
  early := by rw [hm.pc, hm.ret]; exact h.early
  entered := by rw [hm.pc, hstate]; exact h.entered
  quiet := by rw [hm.pc, hstate, hacked, hreset]; exact h.quiet
  connecting := by rw [hstate, hacked, hreset]; exact h.connecting
  connected := by rw [hstate, hacked, hreset]; exact h.connected
  opened := by rw [hm.pc, hm.ret, hstate, hacked, hreset]; exact h.opened
  undoing := by rw [hm.pc, hm.ret]; exact h.undoing
  failing := by rw [hm.pc, hstate]; exact h.failing
  failed := by rw [hm.pc, hstate]; exact h.failed
  done := by rw [hm.pc, hm.ret, hstate]; exact h.done
  armed := by rw [hm.pc, hm.timer]; exact h.armed
  torn := by rw [hm.torn]; exact h.torn

/-- An ACK while the call waits, or has 0 to return. -/
theorem Inv.acknowledge {s s' : Connecting} (h : s.Inv) (hm : s.Moves s') (hst : s.sock.state = .connecting)
    (hwait : s.pc = .wait ∨ s.ret = 0) (hstate : s'.sock.state = .connected) (hacked : s'.acked = true)
    (hreset : s'.reset = s.reset) : s'.Inv where
  early := by rw [hm.pc, hm.ret]; exact h.early
  entered hpc := nomatch hst.symm.trans (h.entered (hm.pc ▸ hpc))
  quiet hb := nomatch hstate.symm.trans hb
  connecting hc := nomatch hstate.symm.trans hc
  connected _ := ⟨hacked, hreset.trans (h.connecting hst).2⟩
  opened _ _ := by
    rw [hm.pc, hm.ret]
    exact ⟨hstate, hwait.symm⟩
  undoing := by rw [hm.pc, hm.ret]; exact h.undoing
  failing hpc := nomatch hst.symm.trans (h.failing (hm.pc ▸ hpc))
  failed hpc := absurd hst (h.failed (hm.pc ▸ hpc)).2
  done _ _ := hstate
  armed := by rw [hm.pc, hm.timer]; exact h.armed
  torn := by rw [hm.torn]; exact h.torn

/-- A RST, neither before the socket is CONNECTING nor when the call is about to return 0. -/
theorem Inv.refuse {s s' : Connecting} (h : s.Inv) (hm : s.Moves s')
    (hearly : ¬(s.sock.state = .bound ∧ (s.pc = .enter ∨ s.pc = .setState)))
    (hlate : ¬(s.pc = .delTimer ∧ s.ret = 0)) (hgoing : s.pc ≠ .returned)
    (hstate : s'.sock.state = if s.sock.state = .connecting ∨ s.sock.state = .connected then .disconnected
      else s.sock.state) (hreset : s'.reset = true) : s'.Inv := by
  -- the socket is neither CONNECTING nor CONNECTED any more
  have hdown : s'.sock.state ≠ .connecting ∧ s'.sock.state ≠ .connected := by
    rw [hstate]
    split
    · exact ⟨nofun, nofun⟩
    · next hno => exact not_or.mp hno
  have hkept (hno : s.sock.state ≠ .connecting ∧ s.sock.state ≠ .connected) : s'.sock.state = s.sock.state :=
    hstate.trans (if_neg (not_or.mpr hno))
  have hbound (hb : s'.sock.state = .bound) : s.sock.state = .bound := by
    rw [hstate] at hb
    split at hb
    · cases hb
    · exact hb
  constructor
  case early => rw [hm.pc, hm.ret]; exact h.early
  case entered =>
    intro hpc
    exact absurd ⟨h.entered (hm.pc ▸ hpc), .inr (hm.pc ▸ hpc)⟩ hearly
  case quiet =>
    intro hb hpc
    rw [hm.pc] at hpc
    exact absurd ⟨hbound hb, hpc⟩ hearly
  case connecting => exact fun hc => absurd hc hdown.1
  case connected => exact fun hc => absurd hc hdown.2
  case opened => exact fun _ hno => nomatch hreset.symm.trans hno
  case undoing => rw [hm.pc, hm.ret]; exact h.undoing
  case failing =>
    intro hpc
    have hfailing := h.failing (hm.pc ▸ hpc)
    rw [hkept ⟨by rw [hfailing]; nofun, by rw [hfailing]; nofun⟩, hfailing]
  case failed => exact fun _ => ⟨hdown.2, hdown.1⟩
  case done =>
    intro hpc hzero
    rw [hm.pc] at hpc
    rw [hm.ret] at hzero
    rcases hpc with hpc | hpc
    · exact absurd ⟨hpc, hzero⟩ hlate
    · exact absurd hpc hgoing
  case armed => rw [hm.pc, hm.timer]; exact h.armed
  case torn => rw [hm.torn]; exact h.torn

/-- A message, if it comes in order. -/
theorem Inv.handle {s : Connecting} {mem : Option Nat} (h : s.Inv) (hgoing : s.pc ≠ .returned)
    (hok : s.Orderly (.handle mem)) (hq : s.queue ≠ []) : (s.handle mem).Inv := by
  have hstate := handle_state hq mem
  have hm := handle_moves s mem
  have hacked : (s.handle mem).acked =
    (s.acked || s.control.any fun sh => s.takesAck sh && s.sock.state == .connecting) := rfl
  have hreset : (s.handle mem).reset = (s.reset || s.control.any s.takesRst) := rfl
  cases hctl : s.control with
  | none =>
    rw [hctl] at hstate hacked hreset
    exact h.same hm hstate (hacked.trans (Bool.or_false _)) (hreset.trans (Bool.or_false _))
  | some sh =>
    obtain ⟨hack, hrst⟩ := hok sh hctl
    rw [hctl] at hstate hacked hreset
    dsimp only [Option.map_some, Option.getD_some, Option.any_some] at hstate hacked hreset
    unfold controlled at hstate
    by_cases htakes : s.takesAck sh = true
    · have hno : s.takesRst sh = false := by
        unfold takesRst
        rw [htakes]
        exact Bool.and_false _
      rw [if_pos htakes] at hstate
      rw [htakes, Bool.true_and] at hacked
      rw [hno, Bool.or_false] at hreset
      obtain ⟨hfirst, hwait⟩ := hack htakes
      by_cases hst : s.sock.state = .connecting
      · rw [if_pos hst] at hstate
        rw [hst, beq_self_eq_true, Bool.or_true] at hacked
        exact h.acknowledge hm hst (hwait hst) hstate hacked hreset
      · -- the socket is DISCONNECTED, and stays so
        have hdown : s.sock.state = .disconnected := by
          have hany := (Bool.and_eq_true_iff.mp htakes).2
          simpa [hst, hfirst] using hany
        rw [if_neg hst, ← hdown] at hstate
        rw [hdown] at hacked
        exact h.same hm hstate (hacked.trans (Bool.or_false _)) hreset
    · rw [if_neg htakes] at hstate
      rw [Bool.eq_false_iff.mpr htakes, Bool.false_and, Bool.or_false] at hacked
      by_cases hrefuses : s.takesRst sh = true
      · obtain ⟨hearly, hlate⟩ := hrst hrefuses
        rw [hrefuses, Bool.or_true] at hreset
        refine h.refuse hm hearly hlate hgoing (hstate.trans ?_) hreset
        exact if_congr (and_iff_right hrefuses) rfl rfl
      · rw [Bool.eq_false_iff.mpr hrefuses, Bool.or_false] at hreset
        exact h.same hm (hstate.trans (if_neg fun hall => hrefuses hall.1)) hacked hreset

/-- The timer, if it does not expire on a connected socket. -/
theorem Inv.respite {s : Connecting} (h : s.Inv) (hconnected : s.sock.state ≠ .connected)
    (htimer : s.timer = true) : s.respite.Inv where
  early := h.early
  entered hpc := nomatch htimer.symm.trans (h.unarmed (.inr (.inl hpc)))
  quiet := nofun
  connecting := nofun
  connected := nofun
  opened hacked hreset := absurd (h.opened hacked hreset).1 hconnected
  undoing := h.undoing
  failing _ := rfl
  failed _ := ⟨nofun, nofun⟩
  done hpc hzero := absurd (h.done hpc hzero) hconnected
  armed := nofun
  torn := by
    show (s.torn || s.sock.state == .connected) = false
    rw [h.torn, Bool.false_or, beq_eq_false_iff_ne]
    exact hconnected

theorem Inv.step {s s' : Connecting} {a : AttemptAct} (h : s.Inv) (hok : s.Orderly a) (hs : s.Step a s') :
    s'.Inv := by
  obtain ⟨hgoing, hs⟩ := hs
  cases step_cases hs with
  | call hs => exact h.call hs
  | handle hloop hq => exact h.handle hgoing hok hq
  | respite htimer => exact h.respite hok htimer
  | pass queue inLoop hloop => exact h.same ⟨rfl, rfl, rfl, rfl⟩ rfl rfl rfl

/-- **What a blocking connect returns**, in every run in which messages and timer are orderly: 0 exactly when
an ACK has connected the socket and no RST has been processed, and then the socket is CONNECTED; and the timer
has not torn the connection. -/
theorem connect_result (s : Connecting) (h : Reached Orderly s) (hpc : s.pc = .returned) :
    (s.ret = 0 ↔ s.acked = true ∧ s.reset = false) ∧ (s.ret = 0 → s.sock.state = .connected) ∧
      s.torn = false := by
  have hinv : s.Inv := h.invariant (fun _ hs => hs.inv) fun _ _ _ hs hok hstep => hs.step hok hstep
  have hdone := hinv.done (.inr hpc)
  refine ⟨⟨fun hret => hinv.connected (hdone hret), fun ⟨hacked, hreset⟩ => ?_⟩, hdone, hinv.torn⟩
  rcases (hinv.opened hacked hreset).2 with hret | hwait
  · exact hret
  · rw [hpc] at hwait
    cases hwait

/-! Runs of attempts that are not orderly, and one that is. -/

/-- A call on a socket in BOUND. -/
def fresh : Connecting where
  peer := ⟨10, 2⟩
  nonblock := false
  pc := .enter
  ret := -einval
  timer := false
  id := ⟨⟨20, 1⟩, 2⟩
  type := .idle
  sock := ⟨0, .bound, ⟨0, 0⟩, 0, [], 0, false⟩
  queue := []
  inLoop := false
  acked := false
  reset := false
  torn := false

theorem fresh_starts : fresh.Starts := ⟨rfl, rfl, rfl, rfl, rfl, rfl, .inl rfl⟩

/-- The call goes on, with conid 7 and the SYN sent. -/
def goesOn : AttemptAct := .call ⟨7, sizeofStreamHeader, false⟩

/-- A message of the peer arrives and is handled. -/
def receives (flags : UInt32) (data : List UInt8) : List AttemptAct :=
  [.arrive (streamMessage ⟨10, 2⟩ ⟨flags, 7⟩ data), .visit, .handle none, .leave]

/-- The call up to its wait. -/
def waits : List AttemptAct := List.replicate 7 goesOn

instance (s : Connecting) (a : AttemptAct) : Decidable (s.Orderly a) := by
  cases a with
  | handle mem =>
    unfold Orderly
    cases h : s.control with
    | none => exact .isTrue fun sh hsh => nomatch hsh
    | some sh =>
      exact decidable_of_iff _ (show _ ↔ _ from
        ⟨fun hall sh' hsh => Option.some.inj hsh ▸ hall, fun hall => hall sh rfl⟩)
  | respite => exact inferInstanceAs (Decidable (_ ≠ _))
  | _ => exact .isTrue trivial

/-- The ACK comes while the call waits, and it returns 0. -/
theorem connect_result_acked : ∃ s, Reached Orderly s ∧ s.pc = .returned ∧ s.ret = 0 ∧
    s.sock.state = .connected := by
  have hrun : ∃ s, Reached Orderly s ∧
      decide (s.pc = .returned ∧ s.acked = true ∧ s.reset = false) = true :=
    exists_reachable_of_follow fresh (waits ++ receives shfAck [] ++ List.replicate 4 goesOn) fresh_starts
      (by decide)
  obtain ⟨s, hs, hend⟩ := hrun
  obtain ⟨hpc, hacked, hreset⟩ := of_decide_eq_true hend
  obtain ⟨hiff, hstate, -⟩ := connect_result s hs hpc
  exact ⟨s, hs, hpc, hiff.mpr ⟨hacked, hreset⟩, hstate (hiff.mpr ⟨hacked, hreset⟩)⟩

/-- **The timer tears a connection**: it expires behind the ACK, before the call goes on. -/
theorem connect_result_torn : ¬ ∀ s, Reached (fun _ _ => True) s → s.nonblock = false → s.pc = .returned →
    (s.ret = 0 ↔ s.acked = true ∧ s.reset = false) ∧ (s.ret = 0 → s.sock.state = .connected) ∧
      s.torn = false := by
  intro hall
  have hrun : ∃ s, Reached (fun _ _ => True) s ∧ decide (s.nonblock = false ∧ s.pc = .returned ∧
      s.ret = -econnrefused ∧ s.acked = true ∧ s.reset = false) = true :=
    exists_reachable_of_follow fresh (waits ++ receives shfAck [] ++ .respite :: List.replicate 5 goesOn)
      fresh_starts (by decide)
  obtain ⟨s, hs, hend⟩ := hrun
  obtain ⟨hblocking, hpc, hret, hacked, hreset⟩ := of_decide_eq_true hend
  have hzero := (hall s hs hblocking hpc).1.mpr ⟨hacked, hreset⟩
  rw [hret] at hzero
  exact absurd hzero (by decide)

end Connecting
end V4v.Linux
