import LegacyV4v.ConnectAttempt

/-! # Attempts that fail

A failed `v4v_connect` puts the ring to the type of a datagram socket, and takes nothing off the pending
list.  What arrived during the attempt is the first thing that the next connection reads. -/
namespace V4v.Linux.Connecting
open GuardedRun

/-- The socket is as bind leaves it. -/
structure AsAfterBind (s : Connecting) : Prop where
  state : s.sock.state = .bound
  type : s.type = .idle
  pendingRecv : s.sock.pendingRecv = []

/-- The call is made on a socket as bind leaves it, with no pass in the loop over its messages. -/
structure StartsBound (s : Connecting) : Prop extends s.AsAfterBind where
  pc : s.pc = .enter
  ret : s.ret = -einval
  timer : s.timer = false
  inLoop : s.inLoop = false

/-- The states of an attempt from there, in any run. -/
abbrev ReachedBound : Connecting → Prop := Reachable StartsBound Step fun _ _ => True

/-- The call has returned an error, and the wait has not been interrupted. -/
structure Failed (s : Connecting) : Prop where
  pc : s.pc = .returned
  error : s.ret ≠ 0
  blocking : s.ret ≠ -einprogress
  complete : s.ret ≠ -erestartsys

/-! ## The pending list -/

theorem connectorCase_pending {s : Connecting} {m : Message} {rest : List Message} {mem : Option Nat}
    {o : RingOut} (h : ConnectorCase s.ring s.sock m rest mem o) :
    s.sock.pendingRecv <+: (o.ring.sponsor.getD s.sock).pendingRecv := by
  cases h with
  | @control sh hpeek hsyn hconid hctl =>
    have hsame : (connectorStateMachine s.sock sh).2.pendingRecv = s.sock.pendingRecv := by
      have hcase := machine_cases s.sock sh
      generalize connectorStateMachine s.sock sh = out at hcase
      cases hcase <;> rfl
    exact hsame ▸ List.prefix_rfl
  | data hpeek hsyn hconid hctl hcopy =>
    cases hcopy with
    | copied hroom hmem => exact List.prefix_append ..
    | _ => exact List.prefix_rfl
  | _ => exact List.prefix_rfl

theorem call_pending {s s' : Connecting} {i : ConnectInput} (hs : s.call i = some s') :
    s'.sock.pendingRecv = s.sock.pendingRecv := by
  unfold Connecting.call at hs
  cases hpc : s.pc <;> rw [hpc] at hs
  case enter =>
    cases hst : s.sock.state <;> simp only [hst] at hs <;> obtain rfl := Option.some.inj hs
    case connecting =>
      split
      · split <;> rfl
      · rfl
    all_goals rfl
  case send =>
    obtain rfl := Option.some.inj hs
    generalize (if i.sent = sizeofStreamHeader then 0 else i.sent) = ret
    split
    · rfl
    · split <;> rfl
  case wait =>
    dsimp only at hs
    split at hs
    · obtain rfl := Option.some.inj hs
      rfl
    · split at hs
      · obtain rfl := Option.some.inj hs
        rfl
      · cases hs
  case returned => cases hs
  all_goals
    obtain rfl := Option.some.inj hs
    rfl

/-- **Nothing is taken off the pending list.** -/
theorem pending_kept {s s' : Connecting} (h : From Step s s') :
    s.sock.pendingRecv <+: s'.sock.pendingRecv := by
  refine h.invariant (P := fun t => s.sock.pendingRecv <+: t.sock.pendingRecv)
    (fun t ht => ht ▸ List.prefix_rfl) fun t a t' ht _ hs => ht.trans ?_
  cases step_cases hs.2 with
  | call hs => exact call_pending hs ▸ List.prefix_rfl
  | handle hloop hq =>
    obtain ⟨m, rest, hq⟩ := List.exists_cons_of_ne_nil hq
    exact connectorCase_pending (connector_cases (r := t.ring) rfl hq _)
  | respite htimer => exact List.prefix_rfl
  | pass queue inLoop hloop => exact List.prefix_rfl

/-! ## The type of the ring -/

/-- Before the first statement the socket is as it was; behind it the ring is not IDLE any more. -/
structure Typed (s : Connecting) : Prop where
  before : s.pc = .enter → s.sock.state = .bound ∧ s.type = .idle ∧ s.inLoop = false ∧ s.timer = false
  behind : s.pc ≠ .enter → s.type ≠ .idle

/-- Behind its first statement the call makes the ring one of a datagram socket, or leaves its type. -/
theorem call_type {s s' : Connecting} {i : ConnectInput} (hpc : s.pc ≠ .enter) (hs : s.call i = some s') :
    s'.pc ≠ .enter ∧ (s'.type = s.type ∨ s'.type = .dgram) := by
  unfold Connecting.call at hs
  cases hplace : s.pc <;> rw [hplace] at hs
  case enter => exact absurd hplace hpc
  case send =>
    obtain rfl := Option.some.inj hs
    generalize (if i.sent = sizeofStreamHeader then 0 else i.sent) = ret
    split
    · exact ⟨nofun, .inl rfl⟩
    · split <;> exact ⟨nofun, .inl rfl⟩
  case test | woken =>
    obtain rfl := Option.some.inj hs
    refine ⟨?_, .inl rfl⟩
    dsimp only
    split <;> nofun
  case wait =>
    dsimp only at hs
    split at hs
    · obtain rfl := Option.some.inj hs
      exact ⟨nofun, .inl rfl⟩
    · split at hs
      · obtain rfl := Option.some.inj hs
        exact ⟨nofun, .inl rfl⟩
      · cases hs
  case returned => cases hs
  case undoType | failType =>
    obtain rfl := Option.some.inj hs
    exact ⟨nofun, .inr rfl⟩
  all_goals
    obtain rfl := Option.some.inj hs
    exact ⟨nofun, .inl rfl⟩

theorem Typed.call {s s' : Connecting} {i : ConnectInput} (h : s.Typed) (hs : s.call i = some s') :
    s'.Typed := by
  by_cases hpc : s.pc = .enter
  · obtain ⟨hbound, -, -, -⟩ := h.before hpc
    unfold Connecting.call at hs
    simp only [hpc, hbound] at hs
    obtain rfl := Option.some.inj hs
    exact ⟨fun hno => ConnectPc.noConfusion hno, fun _ hno => RType.noConfusion hno⟩
  · obtain ⟨hgone, htype⟩ := call_type hpc hs
    refine ⟨fun henter => absurd henter hgone, fun _ hidle => ?_⟩
    rcases htype with hsame | hdgram
    · exact h.behind hpc (hsame.symm.trans hidle)
    · exact nomatch hdgram.symm.trans hidle

theorem Typed.step {s s' : Connecting} {a : AttemptAct} (h : s.Typed) (hs : s.Step a s') : s'.Typed := by
  cases step_cases hs.2 with
  | call hs => exact h.call hs
  | handle hloop hq =>
    refine ⟨fun hpc => ?_, h.behind⟩
    obtain ⟨-, -, hno, -⟩ := h.before hpc
    exact absurd (hloop.symm.trans hno) (by decide)
  | respite htimer =>
    refine ⟨fun hpc => ?_, h.behind⟩
    obtain ⟨-, -, -, hno⟩ := h.before hpc
    exact absurd (htimer.symm.trans hno) (by decide)
  | pass queue inLoop hloop =>
    refine ⟨fun hpc => ?_, h.behind⟩
    obtain ⟨hbound, hidle, hno, htimer⟩ := h.before hpc
    refine ⟨hbound, hidle, Bool.eq_false_iff.mpr fun hin => ?_, htimer⟩
    rcases hloop hin with hin | hty
    · exact absurd (hin.symm.trans hno) (by decide)
    · exact absurd (hidle.symm.trans hty) (by decide)

/-- **A failed connect always leaves a trace**: in no run in which the call returns an error is the socket as
bind left it. -/
theorem failed_connect_not_as_bound (s : Connecting) (h : ReachedBound s) (hs : s.Failed) :
    ¬ s.AsAfterBind := by
  have htyped : s.Typed := by
    refine h.invariant (fun t ht => ⟨fun _ => ⟨ht.state, ht.type, ht.inLoop, ht.timer⟩, ?_⟩)
      fun _ _ _ ht _ hstep => ht.step hstep
    exact fun hno => absurd ht.pc hno
  intro hbound
  exact htyped.behind (by rw [hs.pc]; decide) hbound.type

theorem fresh_startsBound : fresh.StartsBound := ⟨⟨rfl, rfl, rfl⟩, rfl, rfl, rfl, rfl⟩

theorem failed_connect_refused : ∃ s, ReachedBound s ∧ s.Failed ∧ ¬ s.AsAfterBind := by
  have hrun : ∃ s, ReachedBound s ∧ decide (s.pc = .returned ∧ s.ret = -econnrefused) = true :=
    exists_reachable_of_follow fresh (waits ++ receives shfRst [] ++ List.replicate 5 goesOn)
      fresh_startsBound (by decide)
  obtain ⟨s, h, hend⟩ := hrun
  obtain ⟨hpc, hret⟩ := of_decide_eq_true hend
  have hfailed : s.Failed := ⟨hpc, by rw [hret]; decide, by rw [hret]; decide, by rw [hret]; decide⟩
  exact ⟨s, h, hfailed, failed_connect_not_as_bound s h hfailed⟩

/-- Data comes before the RST: the call fails, the ring has the type of a datagram socket, and the data stays
on the pending list. -/
theorem failed_connect_keeps_data : ¬ ∀ s, ReachedBound s → s.Failed → s.AsAfterBind := by
  intro hall
  have hrun : ∃ s, ReachedBound s ∧ decide (s.pc = .returned ∧ s.ret = -econnrefused ∧
      s.sock.pendingRecv.map PendingRecv.data = [[1, 2]]) = true :=
    exists_reachable_of_follow fresh (waits ++ receives 0 [1, 2] ++ receives shfRst [] ++
      List.replicate 5 goesOn) fresh_startsBound (by decide)
  obtain ⟨s, h, hend⟩ := hrun
  obtain ⟨hpc, hret, hdata⟩ := of_decide_eq_true hend
  have hbound := hall s h ⟨hpc, by rw [hret]; decide, by rw [hret]; decide, by rw [hret]; decide⟩
  rw [hbound.pendingRecv] at hdata
  exact absurd hdata (by decide)

end V4v.Linux.Connecting
