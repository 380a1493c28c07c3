import LegacyV4v.GuardedRun
import LegacyV4v.StreamSocket
import Mathlib.Data.List.Perm.Basic

/-! # Resets that answer resets

A handler answers with a RST in five places, and not all of them look first whether the
message is a RST itself.  Three kinds of RST are answered: a header with SYN, by a
connector or an acceptor; a header with ACK, by an acceptor or by a connector that is
connected or was; and, at a connector, any message of another connection.  The last kind
is the RST that the driver itself sends, so two connectors can answer each other for ever.

`ConnectorQuiet`, `AcceptorQuiet` and `ListenerQuiet` say exactly when a RST is not
answered.  In a network of rings whose sockets do nothing else, as long as every RST that is
handled is a quiet one, each message in flight that is no RST costs at most one RST. -/
namespace V4v.Linux
open GuardedRun

/-! ## When a RST is not answered -/

/-- The connector does not answer this message if it is a RST. -/
def ConnectorQuiet (r : Ring) (sh : StreamHeader) (data : List UInt8) : Prop :=
  ∀ p, r.sponsor = some p →
    if sh.has shfSyn then data ≠ []
    else sh.conid = p.conid ∧
      (sh.has shfAck = true → data ≠ [] ∨ p.state ≠ .connected ∧ p.state ≠ .disconnected)

/-- The acceptor does not answer this message if it is a RST. -/
def AcceptorQuiet (sh : StreamHeader) (data : List UInt8) : Prop :=
  sh.has shfSyn = true ∨ sh.has shfAck = true → data ≠ []

/-- The listener does not answer this message if it is a RST. -/
def ListenerQuiet (r : Ring) (source : Addr) (sh : StreamHeader) (data : List UInt8) : Prop :=
  (∃ p ∈ r.privates, p.isPeer source sh.conid = true) → AcceptorQuiet sh data

theorem connectorStateMachine_fst (p : Sock) (sh : StreamHeader) :
    (connectorStateMachine p sh).1 = true ↔
      sh.has shfAck = true ∧ (p.state = .connected ∨ p.state = .disconnected) := by
  have hcase := machine_cases p sh
  generalize connectorStateMachine p sh = o at hcase
  cases hcase with
  | opened _ hst => simp [hst]
  | confused hack hst => simp [hack, hst]
  | refused hack | closed hack => simp [hack]
  | unmoved hno => simpa using hno

theorem has_ack_or_rst {sh : StreamHeader} (h : sh.has shfRst = true) :
    sh.has (shfAck ||| shfRst) = true := by
  rw [StreamHeader.has_or, h, Bool.or_true]

theorem connectorCase_reset_eq_none {r : Ring} {p : Sock} {m : Message} {rest : List Message}
    {sh : StreamHeader} {data : List UInt8} {mem : Option Nat} {o : RingOut}
    (h : ConnectorCase r p m rest mem o) (hp : r.sponsor = some p)
    (hpeek : peekHeader m = some (sh, data)) (hrst : sh.has shfRst = true) :
    o.reset = none ↔ ConnectorQuiet r sh data := by
  have hquiet : ConnectorQuiet r sh data ↔ if sh.has shfSyn then data ≠ []
      else sh.conid = p.conid ∧
        (sh.has shfAck = true → data ≠ [] ∨ p.state ≠ .connected ∧ p.state ≠ .disconnected) := by
    simp only [ConnectorQuiet, hp, Option.some.injEq, forall_eq']
  rw [hquiet]
  cases h with
  | binned hnone => rw [hpeek] at hnone; cases hnone
  | syn hsome hsyn =>
    obtain ⟨rfl, rfl⟩ := eq_of_peekHeader hpeek hsome
    rw [if_pos hsyn]
    simp
  | stranger hsome hsyn hconid =>
    obtain ⟨rfl, rfl⟩ := eq_of_peekHeader hpeek hsome
    simp [hsyn, hconid]
  | padded hsome hsyn hconid hctl hdata =>
    obtain ⟨rfl, rfl⟩ := eq_of_peekHeader hpeek hsome
    simp [hsyn, hconid, hdata]
  | control hsome hsyn hconid hctl =>
    obtain ⟨rfl, rfl⟩ := eq_of_peekHeader hpeek hsome
    have hfst := connectorStateMachine_fst p sh
    simp only [hsyn, hconid, ite_eq_right_iff, reduceCtorEq, imp_false, hfst]
    simp
  | data hsome hsyn hconid hctl hcopy =>
    obtain ⟨rfl, rfl⟩ := eq_of_peekHeader hpeek hsome
    rw [has_ack_or_rst hrst] at hctl
    cases hctl

theorem connector_reset_eq_none {r : Ring} {m : Message} {rest : List Message} {sh : StreamHeader}
    {data : List UInt8} (mem : Option Nat) (hq : r.queue = m :: rest)
    (hpeek : peekHeader m = some (sh, data)) (hrst : sh.has shfRst = true) :
    (connectorInterrupt r mem).reset = none ↔ ConnectorQuiet r sh data := by
  cases hp : r.sponsor with
  | none =>
    have hnone : connectorInterrupt r mem = ⟨-1, r, none, mem⟩ := by rw [connectorInterrupt, hp]
    rw [hnone]
    refine ⟨fun _ p hsp => ?_, fun _ => rfl⟩
    rw [hp] at hsp
    cases hsp
  | some p => exact connectorCase_reset_eq_none (connector_cases hp hq mem) hp hpeek hrst

theorem acceptorCase_reset_eq_none {id : RingId} {p : Sock} {m : Message} {rest : List Message}
    {sh : StreamHeader} {data : List UInt8} {mem : Option Nat} {o : SockOut}
    (h : AcceptorCase id p m rest sh data mem o) (hrst : sh.has shfRst = true) :
    o.reset = none ↔ AcceptorQuiet sh data := by
  have hor := sh.has_or shfSyn shfAck
  cases h with
  | strange hstrange =>
    rw [hstrange, eq_comm, Bool.or_eq_true] at hor
    simp [AcceptorQuiet, hor]
  | reset hstrange _ =>
    rw [hstrange, eq_comm, Bool.or_eq_false_iff] at hor
    simp [AcceptorQuiet, hor]
  | data _ hno _ => rw [hrst] at hno; cases hno

theorem listenerCase_reset_eq_none {r : Ring} {m : Message} {rest : List Message}
    {sh : StreamHeader} {data : List UInt8} {mem : Option Nat} {o : RingOut}
    (h : ListenerCase r m rest mem o) (hpeek : peekHeader m = some (sh, data))
    (hrst : sh.has shfRst = true) : o.reset = none ↔ ListenerQuiet r m.source sh data := by
  cases h with
  | binned hnone => rw [hpeek] at hnone; cases hnone
  | acceptor hsome hpriv _ hpeer ho =>
    obtain ⟨rfl, rfl⟩ := eq_of_peekHeader hpeek hsome
    rw [acceptorCase_reset_eq_none ho hrst]
    exact ⟨fun h _ => h, fun h => h ⟨_, by simp [hpriv], hpeer⟩⟩
  | reset hsome hnone _ =>
    obtain ⟨rfl, rfl⟩ := eq_of_peekHeader hpeek hsome
    refine ⟨fun _ ⟨p, hp, hpeer⟩ => ?_, fun _ => rfl⟩
    rw [hnone p hp] at hpeer
    cases hpeer
  | dropped hsome _ hno | syn hsome _ hno | unknown hsome _ hno =>
    obtain ⟨rfl, rfl⟩ := eq_of_peekHeader hpeek hsome
    rw [hrst] at hno
    cases hno

/-! ## A network of rings -/

/-- The rings, and the messages that wait in `pending_xmit_list` for room at their
destination. -/
structure Net where
  rings : List Ring
  xmit : List (Addr × Message)

/-- What becomes of a message that is sent: it is inserted into ring `j`, it is queued
because that ring is full, or it leaves the network. -/
inductive Fate where
  | inserted (j : Nat)
  | queued
  | gone

/-- `xmit_queue_inline`, of a message to `dest`. -/
def Net.xmitQueueInline (n : Net) (dest : Addr) (m : Message) : Fate → Option Net
  | .inserted j =>
    match n.rings[j]? with
    | none => none
    | some r =>
      if r.id.addr = dest then
        some { n with rings := n.rings.set j { r with queue := r.queue ++ [m] } }
      else none
  | .queued => some { n with xmit := n.xmit ++ [(dest, m)] }
  | .gone => some n

/-- What can happen while no socket is used: a handler is called for the first message of
ring `i`, or `v4v_notify` sends a queued message again. -/
inductive NetAct where
  | handle (i : Nat) (mem : Option Nat) (fate : Fate)
  | resend (k : Nat) (fate : Fate)

/-- One step, with the RST that it sent. -/
def Net.step (n : Net) : NetAct → Option (Option Reset × Net)
  | .handle i mem fate =>
    match n.rings[i]? with
    | none => none
    | some r =>
      if r.queue.isEmpty then none
      else
        match r.handle mem with
        | none => none
        | some o =>
          let n' := { n with rings := n.rings.set i o.ring }
          match o.reset with
          | none => some (none, n')
          | some x => (n'.xmitQueueInline x.dest x.message fate).map fun n'' => (some x, n'')
  | .resend k fate =>
    match n.xmit[k]? with
    | none => none
    | some (dest, m) =>
      match fate with
      | .queued => some (none, n)
      | fate =>
        let n' := { n with xmit := n.xmit.eraseIdx k }
        (n'.xmitQueueInline dest m fate).map fun n'' => (none, n'')

/-! ## Counting the messages that are no RST -/

/-- The message is a stream message with RST. -/
def isReset (m : Message) : Bool :=
  match peekHeader m with
  | none => false
  | some (sh, _) => sh.has shfRst

@[simp] theorem isReset_message (x : Reset) : isReset x.message = true := by
  simp only [isReset, Reset.message, peekHeader_streamMessage]
  exact (show (shfRst &&& shfRst != 0) = true by decide)

/-- The messages in flight that are no RST. -/
def Net.unanswered (n : Net) : Nat :=
  (n.rings.map fun r => r.queue.countP fun m => !isReset m).sum +
    n.xmit.countP fun x => !isReset x.2

/-- The handler of the ring does not answer the message if it is a RST. -/
def Ring.Quiet (r : Ring) (m : Message) : Prop :=
  ∀ sh data, peekHeader m = some (sh, data) →
    match r.type with
    | .connector => ConnectorQuiet r sh data
    | .listener => ListenerQuiet r m.source sh data
    | _ => True

/-- Every RST that is handled is a quiet one. -/
def QuietResets (n : Net) : NetAct → Prop
  | .handle i _ _ => ∀ r m rest, n.rings[i]? = some r → r.queue = m :: rest →
    isReset m = true → r.Quiet m
  | .resend _ _ => True

theorem handle_reset_eq_none {r : Ring} {m : Message} {rest : List Message} {mem : Option Nat}
    {o : RingOut} (hq : r.queue = m :: rest) (h : r.handle mem = some o)
    (hm : isReset m = true) (hquiet : r.Quiet m) : o.reset = none := by
  cases hpeek : peekHeader m with
  | none => simp [isReset, hpeek] at hm
  | some x =>
    obtain ⟨sh, data⟩ := x
    have hrst : sh.has shfRst = true := by simpa [isReset, hpeek] using hm
    have hcond := hquiet sh data hpeek
    rw [Ring.handle] at h
    split at h
    · next hty =>
      obtain rfl := Option.some.inj h
      rw [hty] at hcond
      exact (connector_reset_eq_none mem hq hpeek hrst).mpr hcond
    · next hty =>
      obtain rfl := Option.some.inj h
      rw [hty] at hcond
      exact (listenerCase_reset_eq_none (listener_cases hq mem) hpeek hrst).mpr hcond
    · cases h

/-- A RST sent is paid for by a message of the ring that is none. -/
theorem handle_pays {r : Ring} {m : Message} {rest : List Message} {mem : Option Nat}
    {o : RingOut} (hq : r.queue = m :: rest) (h : r.handle mem = some o)
    (hquiet : isReset m = true → r.Quiet m) :
    o.reset.toList.length + o.ring.queue.countP (fun m => !isReset m) ≤
      r.queue.countP fun m => !isReset m := by
  rw [hq, List.countP_cons]
  rcases handle_consumed hq h with ⟨-, hrest⟩ | ⟨-, hnone, hkept⟩
  · rw [hrest]
    cases hm : isReset m with
    | true =>
      rw [handle_reset_eq_none hq h hm (hquiet hm)]
      simp
    | false =>
      have hone : o.reset.toList.length ≤ 1 := by cases o.reset <;> simp
      simp
      omega
  · rw [hnone, hkept, List.countP_cons]
    simp

theorem sum_map_set {α : Type} (f : α → Nat) {l : List α} {i : Nat} {a : α} (h : l[i]? = some a)
    (b : α) : ((l.set i b).map f).sum + f a = (l.map f).sum + f b := by
  induction l generalizing i with
  | nil => cases h
  | cons x l ih =>
    cases i with
    | zero =>
      obtain rfl : x = a := by simpa using h
      simp only [List.set_cons_zero, List.map_cons, List.sum_cons]
      omega
    | succ i =>
      have := ih (i := i) (by simpa using h)
      simp only [List.set_cons_succ, List.map_cons, List.sum_cons]
      omega

/-- Sending a message puts at most that message in flight. -/
theorem xmitQueueInline_unanswered {n n' : Net} {dest : Addr} {m : Message} {fate : Fate}
    (h : n.xmitQueueInline dest m fate = some n') :
    n'.unanswered ≤ n.unanswered + if isReset m = true then 0 else 1 := by
  cases fate with
  | inserted j =>
    rw [Net.xmitQueueInline] at h
    split at h
    · cases h
    · next r hr =>
      split at h
      · obtain rfl := Option.some.inj h
        have hsum := sum_map_set (fun r : Ring => r.queue.countP fun m => !isReset m) hr
          { r with queue := r.queue ++ [m] }
        simp only [List.countP_append, List.countP_singleton] at hsum
        simp only [Net.unanswered]
        cases hm : isReset m <;> simp [hm] at hsum ⊢ <;> omega
      · cases h
  | queued =>
    obtain rfl := Option.some.inj h
    simp only [Net.unanswered, List.countP_append, List.countP_singleton]
    cases hm : isReset m with
    | true => simp
    | false => simp; omega
  | gone =>
    obtain rfl := Option.some.inj h
    exact Nat.le_add_right _ _

/-- **One step.** -/
theorem step_pays {n n' : Net} {act : NetAct} {out : Option Reset}
    (h : n.step act = some (out, n')) (hok : QuietResets n act) :
    out.toList.length + n'.unanswered ≤ n.unanswered := by
  cases act with
  | handle i mem fate =>
    rw [Net.step] at h
    split at h
    · cases h
    · next r hr =>
      split at h
      · cases h
      · next hne =>
        obtain ⟨m, rest, hq⟩ : ∃ m rest, r.queue = m :: rest := by
          cases hqueue : r.queue with
          | nil => rw [hqueue] at hne; exact absurd rfl hne
          | cons m rest => exact ⟨m, rest, rfl⟩
        split at h
        · cases h
        · next o ho =>
          have hpays := handle_pays hq ho (hok r m rest hr hq)
          have hsum := sum_map_set (fun r : Ring => r.queue.countP fun m => !isReset m) hr o.ring
          have hmid : o.reset.toList.length +
              Net.unanswered { n with rings := n.rings.set i o.ring } ≤ n.unanswered := by
            simp only [Net.unanswered]
            omega
          dsimp only at h
          split at h
          · next hnone =>
            obtain ⟨rfl, rfl⟩ := Prod.mk.inj (Option.some.inj h)
            rw [hnone] at hmid
            exact hmid
          · next x hsome =>
            obtain ⟨n'', hn'', heq⟩ := Option.map_eq_some_iff.mp h
            obtain ⟨rfl, rfl⟩ := Prod.mk.inj heq
            have hsent := xmitQueueInline_unanswered hn''
            rw [isReset_message, if_pos rfl] at hsent
            rw [hsome] at hmid
            omega
  | resend k fate =>
    rw [Net.step] at h
    split at h
    · cases h
    · next dest m hm =>
      split at h
      · obtain ⟨rfl, rfl⟩ := Prod.mk.inj (Option.some.inj h)
        simp
      · obtain ⟨n'', hn'', heq⟩ := Option.map_eq_some_iff.mp h
        obtain ⟨rfl, rfl⟩ := Prod.mk.inj heq
        have hsent := xmitQueueInline_unanswered hn''
        obtain ⟨hk, hget⟩ := List.getElem?_eq_some_iff.mp hm
        have hperm := (List.getElem_cons_eraseIdx_perm hk).countP_eq fun x => !isReset x.2
        rw [hget, List.countP_cons] at hperm
        simp only [Net.unanswered] at hsent ⊢
        cases hr : isReset m <;> simp [hr] at hsent hperm ⊢ <;> omega

/-- The RSTs that the steps of a run sent. -/
def resetsSent (outs : List (Option Reset)) : List Reset := outs.filterMap id

theorem resetsSent_concat (outs : List (Option Reset)) (out : Option Reset) :
    resetsSent (outs ++ [out]) = resetsSent outs ++ out.toList := by
  cases out <;> simp [resetsSent]

/-- **A run** in which every RST is a quiet one sends at most one RST for each message that
was in flight and is none. -/
theorem run_pays {n₀ n : Net} {outs : List (Option Reset)}
    (h : Run Net.step QuietResets n₀ outs n) :
    (resetsSent outs).length + n.unanswered ≤ n₀.unanswered := by
  induction h with
  | start => simp [resetsSent]
  | next _ hok hs ih =>
    have hstep := step_pays hs hok
    rw [resetsSent_concat, List.length_append]
    omega

/-- **When a RST is answered, and what that costs.**  A handler leaves a RST unanswered
exactly if it is a quiet one; and in every run of a network of rings in which the RSTs that are
handled are quiet ones, no more RSTs are sent than messages that are no RST were in flight. -/
theorem resets_bounded (r : Ring) (m : Message) (rest : List Message) (sh : StreamHeader)
    (data : List UInt8) (mem : Option Nat) (p : Sock) (n₀ n : Net) (outs : List (Option Reset)) :
    (r.queue = m :: rest → peekHeader m = some (sh, data) → sh.has shfRst = true →
      ((connectorInterrupt r mem).reset = none ↔ ConnectorQuiet r sh data) ∧
      ((listenerInterrupt r mem).reset = none ↔ ListenerQuiet r m.source sh data) ∧
      ((acceptorInterrupt r.id p m rest sh data mem).reset = none ↔ AcceptorQuiet sh data)) ∧
    (Run Net.step QuietResets n₀ outs n → (resetsSent outs).length ≤ n₀.unanswered) := by
  constructor
  · intro hq hpeek hrst
    refine ⟨connector_reset_eq_none mem hq hpeek hrst, ?_, ?_⟩
    · exact listenerCase_reset_eq_none (listener_cases hq mem) hpeek hrst
    · exact acceptorCase_reset_eq_none (acceptor_cases ..) hrst
  · intro hrun
    have := run_pays hrun
    omega

/-! ## Two connectors -/

/-- A connected connector at port `port` of domain 1, with connection `conid`. -/
def bounceRing (port conid : UInt32) (queue : List Message) : Ring where
  id := ⟨⟨port, 1⟩, domidAny⟩
  type := .connector
  sponsor := some ⟨0, .connected, ⟨9, 2⟩, conid, [], 0, false⟩
  privates := []
  queue := queue

/-- The RST of connection 3 that the ring at `port` sends to the one at `dest`. -/
def bounceReset (port dest : UInt32) : Reset := ⟨⟨⟨port, 1⟩, domidAny⟩, 3, ⟨dest, 1⟩⟩

/-- Two connectors, of connections 1 and 2, with a RST of connection 3 in the first ring. -/
def bounceNet : Net where
  rings := [bounceRing 10 1 [(bounceReset 20 10).message], bounceRing 20 2 []]
  xmit := []

/-- The RST has come to the second ring. -/
def bouncedNet : Net where
  rings := [bounceRing 10 1 [], bounceRing 20 2 [(bounceReset 10 20).message]]
  xmit := []

theorem bounceNet_step : bounceNet.step (.handle 0 none (.inserted 1)) =
    some (some (bounceReset 10 20), bouncedNet) := rfl

theorem bouncedNet_step : bouncedNet.step (.handle 1 none (.inserted 0)) =
    some (some (bounceReset 20 10), bounceNet) := rfl

theorem bounceNet_run (k : Nat) : ∃ outs, k ≤ (resetsSent outs).length ∧
    Run Net.step (fun _ _ => True) bounceNet outs bounceNet := by
  induction k with
  | zero => exact ⟨[], Nat.zero_le _, .start⟩
  | succ k ih =>
    obtain ⟨outs, hlen, hrun⟩ := ih
    refine ⟨_, ?_, (hrun.next trivial bounceNet_step).next trivial bouncedNet_step⟩
    rw [resetsSent_concat, resetsSent_concat]
    simp
    omega

/-- A RST is answered with a RST, and two connectors send RSTs without end. -/
theorem resets_unbounded :
    (connectorInterrupt (bounceRing 10 1 [(bounceReset 20 10).message]) none).reset =
      some (bounceReset 10 20) ∧
    ¬ ∃ bound, ∀ outs n, Run Net.step (fun _ _ => True) bounceNet outs n →
      (resetsSent outs).length ≤ bound := by
  refine ⟨rfl, ?_⟩
  rintro ⟨bound, hbound⟩
  obtain ⟨outs, hlen, hrun⟩ := bounceNet_run (bound + 1)
  have := hbound outs bounceNet hrun
  omega

/-- The RST of its own connection does not make a connector answer, and after it nothing
is in flight. -/
theorem resets_bounded_own :
    (connectorInterrupt (bounceRing 10 3 [(bounceReset 20 10).message]) none).reset = none ∧
      (resetsSent [none]).length ≤
        (Net.mk [bounceRing 10 3 [(bounceReset 20 10).message]] []).unanswered := by
  have h := fun n => resets_bounded (bounceRing 10 3 [(bounceReset 20 10).message])
    (bounceReset 20 10).message [] ⟨shfRst, 3⟩ [] none ⟨0, .connected, ⟨9, 2⟩, 3, [], 0, false⟩
    ⟨[bounceRing 10 3 [(bounceReset 20 10).message]], []⟩ n [none]
  constructor
  · refine (((h ⟨[], []⟩).1 rfl ?_ rfl).1).mpr ?_
    · exact peekHeader_streamMessage ..
    · rintro p ⟨⟩
      exact ⟨rfl, by decide⟩
  · refine (h _).2 (.next .start ?_ (i := .handle 0 none .gone) rfl)
    rintro r m rest ⟨⟩ ⟨⟩ - sh data hpeek
    obtain ⟨rfl, rfl⟩ := eq_of_peekHeader hpeek (peekHeader_streamMessage ..)
    rintro p ⟨⟩
    exact ⟨rfl, by decide⟩

end V4v.Linux
