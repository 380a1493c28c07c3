import LegacyV4v.GuardedRun
import LegacyV4v.StreamRecv
import Mathlib.Data.List.Infix

/-! # What is lost when the peer closes

Data and RST travel in order in the ring.  But data is parked in the pending list of its
socket, while RST changes the state at once, and a receive that finds the socket disconnected
returns 0 or -EPIPE without a look at the list.  Only a call that is past these tests still
drains the list: one in its copy loop, or one that waits for data.

The machine is one socket, its receiver, and everything else as environment: the interrupt
handler, run on any ring that the socket sponsors or is a private of, and `v4v_connect` with
its timer.  If every RST comes while nothing is pending, or while a call that will still drain
the list has room for all of it, then the bytes that are pending at a RST are copied to a caller
before any call returns 0 or -EPIPE. -/
namespace V4v.Linux
open MachineWord GuardedRun

/-! ## What an interrupt does to the pending bytes -/

theorem copyCase_unread {queue : List Message} {source : Addr} {sh : StreamHeader}
    {data : List UInt8} {p : Sock} {mem : Option Nat} {c : SockOut}
    (h : CopyCase queue source sh data p mem c) : p.unread <+: c.sock.unread := by
  cases h with
  | full | starved => exact List.prefix_rfl
  | copied =>
    rw [Sock.unread, Sock.unread, List.flatMap_append]
    exact List.prefix_append _ _

theorem connectorCase_unread {r : Ring} {p p' : Sock} {m : Message} {rest : List Message}
    {mem : Option Nat} {o : RingOut} (hp : r.sponsor = some p)
    (h : ConnectorCase r p m rest mem o) (hp' : o.ring.sponsor = some p') :
    p.unread <+: p'.unread := by
  cases h with
  | binned | syn | stranger | padded =>
    obtain rfl : p = p' := Option.some.inj (hp.symm.trans hp')
    exact List.prefix_rfl
  | control =>
    obtain rfl := Option.some.inj hp'
    rw [Sock.unread, Sock.unread, (connectorStateMachine_frame p _).2.2.2]
  | data _ _ _ _ hcopy =>
    obtain rfl := Option.some.inj hp'
    exact copyCase_unread hcopy

theorem acceptorCase_unread {id : RingId} {p : Sock} {m : Message} {rest : List Message}
    {sh : StreamHeader} {data : List UInt8} {mem : Option Nat} {o : SockOut}
    (h : AcceptorCase id p m rest sh data mem o) : p.unread <+: o.sock.unread := by
  cases h with
  | strange => exact List.prefix_rfl
  | reset =>
    rw [Sock.unread, Sock.unread]
    split
    · rw [(acceptorStateMachine_frame p sh).2.2.2]
    · exact List.prefix_rfl
  | data _ _ hcopy => exact copyCase_unread hcopy

theorem listenerCase_unread {r : Ring} {p p' : Sock} {m : Message} {rest : List Message}
    {mem : Option Nat} {o : RingOut} {k : Nat} (hp : r.privates[k]? = some p)
    (h : ListenerCase r m rest mem o) (hp' : o.ring.privates[k]? = some p') :
    p.unread <+: p'.unread := by
  cases h with
  | binned | reset | dropped | syn | unknown =>
    obtain rfl : p = p' := Option.some.inj (hp.symm.trans hp')
    exact List.prefix_rfl
  | @acceptor sh data l₁ l₂ q o _ hpriv _ _ ho =>
    rw [hpriv] at hp
    dsimp only at hp'
    by_cases hk : k = l₁.length
    · subst hk
      simp only [List.getElem?_append_right (Nat.le_refl _), Nat.sub_self,
        List.getElem?_cons_zero, Option.some.injEq] at hp hp'
      subst hp hp'
      exact acceptorCase_unread ho
    · -- another acceptor's place
      have hsame : (l₁ ++ o.sock :: l₂)[k]? = (l₁ ++ q :: l₂)[k]? := by
        rw [List.getElem?_append, List.getElem?_append]
        split
        · rfl
        · next hlt =>
          obtain ⟨j, hj⟩ : ∃ j, k - l₁.length = j + 1 := ⟨k - l₁.length - 1, by omega⟩
          rw [hj, List.getElem?_cons_succ, List.getElem?_cons_succ]
      rw [hsame, hp] at hp'
      obtain rfl := Option.some.inj hp'
      exact List.prefix_rfl

/-! ## The machine -/

/-- A socket, and the receive in progress on it. -/
structure Receiver where
  sock : Sock
  call : Option RecvCall
  deriving DecidableEq, Repr

/-- What can happen to it.  The interrupt handler is run on the ring `r`, where the socket is
the sponsor or private number `k`; `v4v_connect` or its timer sets some fields; a receive
begins or goes on.  A receive's own run of the interrupt handler ends with `faked`. -/
inductive ReceiverAct where
  | connectorIrq (r : Ring) (mem : Option Nat)
  | listenerIrq (r : Ring) (k : Nat) (mem : Option Nat)
  | set (state : SockState) (pendingError : Int) (conid : UInt32) (peer : Addr)
  | recvfrom (a : RecvArgs)
  | recv (signal : Bool)
  | faked

/-- What is seen: a RST was processed with these bytes pending, bytes were copied to the
caller, or a call returned. -/
inductive ReceiverEvent where
  | other
  | reset (unread : List UInt8)
  | copied (bytes : List UInt8)
  | returned (value : Int)
  deriving DecidableEq, Repr

/-- The first message of the ring is a RST that goes to the sponsor's state machine. -/
def connectorResets (r : Ring) (p : Sock) : Bool :=
  match r.queue with
  | [] => false
  | m :: _ =>
    match peekHeader m with
    | none => false
    | some (sh, data) =>
      !sh.has shfSyn && sh.conid == p.conid && sh.has shfRst && data.isEmpty

/-- The first message of the ring is a RST that goes to the state machine of private `k`. -/
def acceptorResets (r : Ring) (k : Nat) : Bool :=
  match r.queue with
  | [] => false
  | m :: _ =>
    match peekHeader m with
    | none => false
    | some (sh, data) =>
      r.privates.findIdx? (fun q => q.isPeer m.source sh.conid) == some k &&
        !sh.has (shfSyn ||| shfAck) && sh.has shfRst && data.isEmpty

/-- What a call's next step leaves of the receiver. -/
def Receiver.proceed (sock : Sock) : RecvNext → Receiver
  | .call c => ⟨sock, some c⟩
  | .ret _ => ⟨sock, none⟩

/-- The event of a call's next step. -/
def RecvNext.event (bytes : List UInt8) : RecvNext → ReceiverEvent
  | .call _ => .copied bytes
  | .ret value => .returned value

/-- One step.  `v4v_recvfrom` has checked the whole buffer, so the later checks of its pieces
succeed. -/
def Receiver.step (s : Receiver) : ReceiverAct → Option (ReceiverEvent × Receiver)
  | .connectorIrq r mem =>
    if r.sponsor = some s.sock ∧ r.queue.isEmpty = false then
      ((connectorInterrupt r mem).ring.sponsor).map fun p' =>
        (if connectorResets r s.sock then .reset s.sock.unread else .other, { s with sock := p' })
    else none
  | .listenerIrq r k mem =>
    if r.privates[k]? = some s.sock ∧ r.queue.isEmpty = false then
      ((listenerInterrupt r mem).ring.privates[k]?).map fun p' =>
        (if acceptorResets r k then .reset s.sock.unread else .other, { s with sock := p' })
    else none
  | .set state pendingError conid peer =>
    some (.other, { s with sock := { s.sock with
      state := state, pendingError := pendingError, conid := conid, peer := peer } })
  | .recvfrom a =>
    match s.call with
    | some _ => none
    | none => some ((recvfrom s.sock a).event [], .proceed s.sock (recvfrom s.sock a))
  | .recv signal =>
    match s.call with
    | none => none
    | some c => (recvStep s.sock c true signal).map fun o =>
        (o.next.event o.bytes, .proceed o.sock o.next)
  | .faked =>
    match s.call with
    | none => none
    | some c =>
      if c.phase = .faking then some (.other, { s with call := some { c with phase := .checking } })
      else none

/-- The bytes that the event brought to a caller. -/
def ReceiverEvent.bytes : ReceiverEvent → List UInt8
  | .copied bytes => bytes
  | _ => []

/-- The bytes that the events brought to the callers. -/
def delivered (es : List ReceiverEvent) : List UInt8 := es.flatMap ReceiverEvent.bytes

theorem delivered_concat (es : List ReceiverEvent) (e : ReceiverEvent) :
    delivered (es ++ [e]) = delivered es ++ e.bytes := by
  simp [delivered]

/-! ## When nothing is lost -/

/-- A call that is still to drain the list, with room for `n` bytes. -/
def Draining (s : Receiver) (n : Nat) : Prop :=
  ∃ c, s.call = some c ∧ (c.phase = .copying ∨ c.phase = .waiting) ∧ n ≤ u32 c.len

/-- A RST is processed only while nothing is pending, or while a call is to drain all of it. -/
def DrainedAtReset (s : Receiver) : ReceiverAct → Prop
  | .connectorIrq r _ => connectorResets r s.sock = true →
    s.sock.unread = [] ∨ Draining s s.sock.unread.length
  | .listenerIrq r k _ => acceptorResets r k = true →
    s.sock.unread = [] ∨ Draining s s.sock.unread.length
  | _ => True

/-- The bytes `bytes` are owed: they are at the head of the pending ones, and a call will
take them from there. -/
structure Kept (s : Receiver) (bytes : List UInt8) : Prop where
  pending : bytes <+: s.sock.unread
  draining : bytes = [] ∨ Draining s bytes.length

theorem kept_nil (s : Receiver) : Kept s [] := ⟨List.nil_prefix, .inl rfl⟩

/-- With `n` of them copied, the bytes still fit. -/
theorem u32_sub {len : Int} {n k : Nat} (h : k ≤ u32 len) : k - n ≤ u32 (i32 (len - n)) := by
  unfold u32 at h
  unfold u32 i32
  omega

/-- A call in no draining phase owes nothing. -/
theorem Kept.eq_nil {s : Receiver} {bytes : List UInt8} (h : Kept s bytes)
    (hno : ∀ c, s.call = some c → c.phase ≠ .copying ∧ c.phase ≠ .waiting) : bytes = [] := by
  rcases h.draining with hnil | ⟨c, hc, hphase, -⟩
  · exact hnil
  · rcases hphase with hphase | hphase
    · exact absurd hphase (hno c hc).1
    · exact absurd hphase (hno c hc).2

/-- An interrupt only adds to the pending bytes. -/
theorem Kept.interrupt {s : Receiver} {bytes : List UInt8} {p' : Sock} (hk : Kept s bytes)
    (hhead : s.sock.unread <+: p'.unread) : Kept { s with sock := p' } bytes :=
  ⟨hk.pending.trans hhead, hk.draining⟩

/-- **The copy loop** takes what is owed off the list, and does not end before it has. -/
theorem Kept.copy {s : Receiver} {c : RecvCall} {bytes : List UInt8} {signal : Bool} {o : RecvOut}
    (hk : Kept s bytes) (hc : s.call = some c) (hphase : c.phase = .copying)
    (ho : recvStep s.sock c true signal = some o) :
    Kept (.proceed o.sock o.next) (bytes.drop (o.next.event o.bytes).bytes.length) ∧
      ∀ v, o.next ≠ .ret v := by
  have hcopy : o = recvCopy s.sock c true := by
    rw [recvStep, hphase] at ho
    exact (Option.some.inj ho).symm
  have hroom : bytes.length ≤ u32 c.len := by
    rcases hk.draining with rfl | ⟨c', hc', -, h⟩
    · exact Nat.zero_le _
    · obtain rfl := Option.some.inj (hc.symm.trans hc')
      exact h
  have hcase := recvCopy_cases s.sock c true
  rw [← hcopy] at hcase
  have hpending : bytes.drop o.bytes.length <+: o.sock.unread := by
    have hdrop := hk.pending.drop o.bytes.length
    rwa [← hcase.unread, List.drop_left] at hdrop
  cases hcase with
  | done hend =>
    -- the list is empty, or there is no room left: nothing is owed
    have hnil : bytes = [] := by
      rcases hend with hend | hend
      · have hunread : s.sock.unread = [] := by rw [Sock.unread, hend]; rfl
        exact List.prefix_nil.mp (hunread ▸ hk.pending)
      · rw [hend] at hroom
        exact List.length_eq_zero_iff.mp (Nat.le_zero.mp hroom)
    subst hnil
    exact ⟨kept_nil _, fun v h => by cases h⟩
  | fault hno => cases hno
  | part he hlen hbig =>
    have hleft := u32_sub (n := sizeT c.len) hroom
    have htake := List.length_take_of_le (Nat.le_of_lt hbig)
    refine ⟨⟨hpending, .inr ⟨_, rfl, .inl hphase, ?_⟩⟩, fun v h => by cases h⟩
    simp only [RecvNext.event, ReceiverEvent.bytes, List.length_drop, htake]
    exact hleft
  | eat he hlen =>
    refine ⟨⟨hpending, .inr ⟨_, rfl, .inl hphase, ?_⟩⟩, fun v h => by cases h⟩
    simp only [RecvNext.event, ReceiverEvent.bytes, List.length_drop]
    exact u32_sub hroom

/-- **A waiting call** goes back to the loop while something is owed. -/
theorem Kept.wait {s : Receiver} {c : RecvCall} {bytes : List UInt8} {signal : Bool} {o : RecvOut}
    (hk : Kept s bytes) (hc : s.call = some c) (hphase : c.phase = .waiting)
    (ho : recvStep s.sock c true signal = some o) :
    Kept (.proceed o.sock o.next) (bytes.drop (o.next.event o.bytes).bytes.length) ∧
      ∀ v, o.next = .ret v → bytes = [] := by
  rw [recvStep, hphase] at ho
  obtain ⟨next, hnext, rfl⟩ := Option.map_eq_some_iff.mp ho
  rw [recvWait] at hnext
  rcases hk.draining with rfl | ⟨c', hc', hdrain, hroom⟩
  · refine ⟨?_, fun _ _ => rfl⟩
    cases next <;> exact kept_nil _
  · obtain rfl := Option.some.inj (hc.symm.trans hc')
    split at hnext
    · split at hnext
      · next hlen =>
        rw [hlen] at hroom
        obtain rfl : bytes = [] := List.length_eq_zero_iff.mp (Nat.le_zero.mp hroom)
        refine ⟨?_, fun _ _ => rfl⟩
        cases next <;> exact kept_nil _
      · obtain rfl := Option.some.inj hnext
        exact ⟨⟨hk.pending, .inr ⟨_, rfl, .inl rfl, hroom⟩⟩, fun v h => by cases h⟩
    · next hempty =>
      have hlist : s.sock.pendingRecv = [] := by tauto
      have hunread : s.sock.unread = [] := by rw [Sock.unread, hlist]; rfl
      obtain rfl : bytes = [] := List.prefix_nil.mp (hunread ▸ hk.pending)
      refine ⟨?_, fun _ _ => rfl⟩
      cases next <;> exact kept_nil _

/-- What a step can do.  The handlers, `v4v_connect` and its timer only add to the pending
bytes. -/
inductive ReceiverCase (s : Receiver) (act : ReceiverAct) : ReceiverEvent → Receiver → Prop
  | grown {p' : Sock} : s.sock.unread <+: p'.unread →
      ReceiverCase s act .other { s with sock := p' }
  | reset {p' : Sock} : s.sock.unread <+: p'.unread →
      (DrainedAtReset s act → s.sock.unread = [] ∨ Draining s s.sock.unread.length) →
      ReceiverCase s act (.reset s.sock.unread) { s with sock := p' }
  | began {next : RecvNext} : s.call = none →
      ReceiverCase s act (next.event []) (.proceed s.sock next)
  | went {c : RecvCall} {signal : Bool} {o : RecvOut} : s.call = some c →
      recvStep s.sock c true signal = some o →
      ReceiverCase s act (o.next.event o.bytes) (.proceed o.sock o.next)
  | faked {c c' : RecvCall} : s.call = some c → c.phase = .faking →
      ReceiverCase s act .other { s with call := some c' }

theorem case_of_irq {s : Receiver} {act : ReceiverAct} {p' : Sock} {resets : Bool}
    (hhead : s.sock.unread <+: p'.unread) (hok : resets = true → DrainedAtReset s act →
      s.sock.unread = [] ∨ Draining s s.sock.unread.length) :
    ReceiverCase s act (if resets then .reset s.sock.unread else .other)
      { s with sock := p' } := by
  cases resets with
  | true => exact .reset hhead (hok rfl)
  | false => exact .grown hhead

theorem step_receiverCase {s s' : Receiver} {act : ReceiverAct} {e : ReceiverEvent}
    (h : s.step act = some (e, s')) : ReceiverCase s act e s' := by
  cases act with
  | connectorIrq r mem =>
    rw [Receiver.step] at h
    split at h
    · next hguard =>
      obtain ⟨p', hp', heq⟩ := Option.map_eq_some_iff.mp h
      obtain ⟨rfl, rfl⟩ := Prod.mk.inj heq
      obtain ⟨m, rest, hq⟩ := List.exists_cons_of_ne_nil (by simpa using hguard.2)
      exact case_of_irq (connectorCase_unread hguard.1 (connector_cases hguard.1 hq mem) hp')
        fun hreset hok => hok hreset
    · cases h
  | listenerIrq r k mem =>
    rw [Receiver.step] at h
    split at h
    · next hguard =>
      obtain ⟨p', hp', heq⟩ := Option.map_eq_some_iff.mp h
      obtain ⟨rfl, rfl⟩ := Prod.mk.inj heq
      obtain ⟨m, rest, hq⟩ := List.exists_cons_of_ne_nil (by simpa using hguard.2)
      exact case_of_irq (listenerCase_unread hguard.1 (listener_cases hq mem) hp')
        fun hreset hok => hok hreset
    · cases h
  | set state pendingError conid peer =>
    obtain ⟨rfl, rfl⟩ := Prod.mk.inj (Option.some.inj h)
    exact .grown List.prefix_rfl
  | recvfrom a =>
    rw [Receiver.step] at h
    split at h
    · cases h
    · next hnone =>
      obtain ⟨rfl, rfl⟩ := Prod.mk.inj (Option.some.inj h)
      exact .began hnone
  | recv signal =>
    rw [Receiver.step] at h
    split at h
    · cases h
    · next c hc =>
      obtain ⟨o, ho, heq⟩ := Option.map_eq_some_iff.mp h
      obtain ⟨rfl, rfl⟩ := Prod.mk.inj heq
      exact .went hc ho
  | faked =>
    rw [Receiver.step] at h
    split at h
    · cases h
    · next c hc =>
      split at h
      · next hphase =>
        obtain ⟨rfl, rfl⟩ := Prod.mk.inj (Option.some.inj h)
        exact .faked hc hphase
      · cases h

/-- A call in progress, and what its next step leaves owed. -/
theorem Kept.recv {s : Receiver} {c : RecvCall} {bytes : List UInt8} {signal : Bool} {o : RecvOut}
    (hk : Kept s bytes) (hc : s.call = some c) (ho : recvStep s.sock c true signal = some o) :
    Kept (.proceed o.sock o.next) (bytes.drop (o.next.event o.bytes).bytes.length) ∧
      ∀ v, o.next = .ret v → bytes = [] := by
  cases hphase : c.phase with
  | copying =>
    obtain ⟨hkept, hno⟩ := hk.copy hc hphase ho
    exact ⟨hkept, fun v hv => absurd hv (hno v)⟩
  | waiting => exact hk.wait hc hphase ho
  | entry | faking | checking =>
    have hnil : bytes = [] := hk.eq_nil fun c' hc' => by
      obtain rfl := Option.some.inj (hc.symm.trans hc')
      rw [hphase]
      exact ⟨by decide, by decide⟩
    rw [hnil, List.drop_nil]
    exact ⟨kept_nil _, fun _ _ => rfl⟩

/-- **One step.**  What is owed stays at the head of the list, and no call returns while
something is owed. -/
theorem step_kept {s s' : Receiver} {act : ReceiverAct} {e : ReceiverEvent} {bytes : List UInt8}
    (h : s.step act = some (e, s')) (hk : Kept s bytes) :
    Kept s' (bytes.drop e.bytes.length) ∧ ∀ v, e = .returned v → bytes = [] := by
  cases step_receiverCase h with
  | grown hhead | reset hhead => exact ⟨hk.interrupt hhead, fun v hv => by cases hv⟩
  | began hnone =>
    obtain rfl := hk.eq_nil fun c hc => by rw [hnone] at hc; cases hc
    rw [List.drop_nil]
    exact ⟨kept_nil _, fun _ _ => rfl⟩
  | @went c signal o hc ho =>
    obtain ⟨hkept, hret⟩ := hk.recv hc ho
    refine ⟨hkept, fun v hv => ?_⟩
    cases hnext : o.next with
    | call c => rw [hnext] at hv; cases hv
    | ret w => exact hret w hnext
  | faked hc hphase =>
    obtain rfl := hk.eq_nil fun c' hc' => by
      obtain rfl := Option.some.inj (hc.symm.trans hc')
      rw [hphase]
      exact ⟨by decide, by decide⟩
    exact ⟨kept_nil _, fun _ _ => rfl⟩

/-- A RST that is processed leaves the pending bytes owed. -/
theorem step_reset {s s' : Receiver} {act : ReceiverAct} {e : ReceiverEvent}
    {unread : List UInt8} (h : s.step act = some (e, s')) (he : e = .reset unread)
    (hok : DrainedAtReset s act) : Kept s' unread := by
  cases step_receiverCase h with
  | grown | faked => cases he
  | reset hhead hdrained =>
    obtain rfl := ReceiverEvent.reset.inj he
    exact ⟨hhead, hdrained hok⟩
  | @began next => cases next <;> cases he
  | @went c signal o => cases hnext : o.next <;> rw [hnext] at he <;> cases he

/-- Callers get the bytes at the head of the list. -/
theorem step_bytes {s s' : Receiver} {act : ReceiverAct} {e : ReceiverEvent}
    (h : s.step act = some (e, s')) : e.bytes <+: s.sock.unread := by
  cases step_receiverCase h with
  | grown | reset | faked => exact List.nil_prefix
  | @began next => cases next <;> exact List.nil_prefix
  | @went c signal o _ ho =>
    have hhead : o.bytes <+: s.sock.unread := ⟨_, recvStep_unread ho⟩
    cases o.next with
    | call c => exact hhead
    | ret v => exact List.nil_prefix

/-- Of the bytes that were pending at a RST, `got` was copied since: all of them, or the rest
is owed. -/
def Served (s : Receiver) (pending got : List UInt8) : Prop :=
  pending <+: got ∨ ∃ rest, pending = got ++ rest ∧ Kept s rest

theorem Served.step {s s' : Receiver} {act : ReceiverAct} {e : ReceiverEvent}
    {pending got : List UInt8} (h : s.step act = some (e, s')) (hs : Served s pending got) :
    Served s' pending (got ++ e.bytes) := by
  rcases hs with hall | ⟨rest, rfl, hk⟩
  · exact .inl (hall.trans (List.prefix_append _ _))
  · have hk' := (step_kept h hk).1
    rcases List.prefix_or_prefix_of_prefix hk.pending (step_bytes h) with hle | ⟨more, rfl⟩
    · exact .inl ((List.prefix_append_right_inj got).mpr hle)
    · rw [List.drop_left] at hk'
      exact .inr ⟨more, (List.append_assoc ..).symm, hk'⟩

/-- **A run.**  After every RST the bytes that were pending are served, and a call that returns
finds nothing owed. -/
theorem run_served {s₀ s : Receiver} {es : List ReceiverEvent}
    (h : Run Receiver.step DrainedAtReset s₀ es s) :
    ∀ es₀ pending es₁, es = es₀ ++ .reset pending :: es₁ →
      Served s pending (delivered es₁) ∧
        ∀ es₂ v es₃, es₁ = es₂ ++ .returned v :: es₃ → pending <+: delivered es₂ := by
  induction h with
  | start =>
    intro es₀ pending es₁ h
    simp at h
  | @next es s s' act e hrun hok hstep ih =>
    intro es₀ pending es₁ hes
    rcases List.eq_nil_or_concat es₁ with rfl | ⟨es₁, e', rfl⟩
    · -- the RST itself
      obtain ⟨rfl, he⟩ := List.append_inj' hes rfl
      obtain rfl := List.head_eq_of_cons_eq he
      refine ⟨.inr ⟨pending, rfl, step_reset hstep rfl hok⟩, ?_⟩
      intro es₂ v es₃ h
      simp at h
    · have hes : es ++ [e] = (es₀ ++ .reset pending :: es₁) ++ [e'] := by simpa using hes
      obtain ⟨rfl, he⟩ := List.append_inj' hes rfl
      obtain rfl := List.head_eq_of_cons_eq he
      obtain ⟨hserved, hreturns⟩ := ih es₀ pending es₁ rfl
      rw [List.concat_eq_append, delivered_concat]
      refine ⟨hserved.step hstep, ?_⟩
      intro es₂ v es₃ hsplit
      rcases List.eq_nil_or_concat es₃ with rfl | ⟨es₃, e'', rfl⟩
      · -- the call returns with this step
        obtain ⟨rfl, he⟩ := List.append_inj' hsplit rfl
        obtain rfl := List.head_eq_of_cons_eq he
        rcases hserved with hall | ⟨rest, rfl, hk⟩
        · exact hall
        · obtain rfl := (step_kept hstep hk).2 v rfl
          rw [List.append_nil]
      · have hsplit : es₁ ++ [e] = (es₂ ++ .returned v :: es₃) ++ [e''] := by simpa using hsplit
        exact hreturns es₂ v es₃ (List.append_inj' hsplit rfl).1

/-- **Nothing is lost at close**, if every RST is processed while nothing is pending or while a
call is to drain all of it: the bytes that were pending at a RST have all been copied to a
caller before a call returns, with 0, -EPIPE or any other value. -/
theorem pending_returned_before_close {s₀ s : Receiver} {es₀ es₁ es₂ : List ReceiverEvent}
    {pending : List UInt8} {v : Int}
    (h : Run Receiver.step DrainedAtReset s₀
      (es₀ ++ .reset pending :: es₁ ++ .returned v :: es₂) s) : pending <+: delivered es₁ := by
  have hes : es₀ ++ .reset pending :: es₁ ++ .returned v :: es₂ =
      es₀ ++ .reset pending :: (es₁ ++ .returned v :: es₂) := by simp
  exact (run_served h es₀ pending _ hes).2 es₁ v es₂ rfl

/-! ## A close in time, and one too early -/

/-- A connector, connected as connection 5 to port 9 of domain 2. -/
def closeSock (pendingRecv : List PendingRecv) : Sock :=
  ⟨0, .connected, ⟨9, 2⟩, 5, pendingRecv, 0, false⟩

def closeRing (p : Sock) (flags : UInt32) (data : List UInt8) : Ring :=
  ⟨⟨⟨10, 1⟩, domidAny⟩, .connector, some p, [], [streamMessage ⟨9, 2⟩ ⟨flags, 5⟩ data]⟩

/-- The one byte the peer sent. -/
def closeEntry : PendingRecv := ⟨⟨9, 2⟩, ⟨0, 5⟩, [65], 0⟩

/-- A blocking receive of ten bytes that waits for data. -/
def closeCall : RecvCall := ⟨10, false, false, [], false, .waiting⟩

/-- The call that waits gets the byte, and only the next call sees the end. -/
theorem pending_returned_to_waiter : [65] <+: delivered
    [.copied [], .copied [65], .copied [], .returned 1] := by
  have hdrained : DrainedAtReset ⟨closeSock [closeEntry], some closeCall⟩
      (.connectorIrq (closeRing (closeSock [closeEntry]) shfRst []) none) :=
    fun _ => .inr ⟨closeCall, rfl, .inr rfl, by decide⟩
  have hexec : exec Receiver.step ⟨{ closeSock [closeEntry] with state := .disconnected },
      some closeCall⟩ [.recv false, .recv false, .recv false, .recv false,
        .recvfrom ⟨10, true, false, false, false⟩] =
      some ([.copied [], .copied [65], .copied [], .returned 1, .returned 0],
        ⟨{ closeSock [] with state := .disconnected }, none⟩) := rfl
  have hafter : Run Receiver.step DrainedAtReset _ _ _ := run_of_exec hexec (by
    intro act hact s
    simp only [List.mem_cons, List.not_mem_nil, or_false] at hact
    rcases hact with rfl | rfl | rfl | rfl | rfl <;> trivial)
  have hrun := hafter.cons hdrained rfl
  exact pending_returned_before_close
    (show Run Receiver.step DrainedAtReset _ ([] ++ .reset [65] ::
      [.copied [], .copied [65], .copied [], .returned 1] ++ .returned 0 :: []) _ from hrun)

/-- The byte comes, then the RST, and then the caller: the call returns 0 and the byte is
never seen. -/
theorem pending_lost_at_close :
    (∃ s, Run Receiver.step (fun _ _ => True) ⟨closeSock [], none⟩
      ([.other] ++ .reset [65] :: [] ++ .returned 0 :: []) s) ∧ ¬ [65] <+: delivered [] := by
  refine ⟨⟨⟨{ closeSock [closeEntry] with state := .disconnected }, none⟩, ?_⟩, by decide⟩
  have hexec : exec Receiver.step ⟨closeSock [], none⟩
      [.connectorIrq (closeRing (closeSock []) 0 [65]) none,
        .connectorIrq (closeRing (closeSock [closeEntry]) shfRst []) none,
        .recvfrom ⟨10, true, false, false, false⟩] =
      some ([.other, .reset [65], .returned 0],
        ⟨{ closeSock [closeEntry] with state := .disconnected }, none⟩) := rfl
  exact run_of_exec hexec fun _ _ _ => trivial

end V4v.Linux
