import LegacyV4v.StreamSocket

/-! # What other addresses can do to a connector

`listener_interrupt` finds the connection of a message by its connection id and its source
address.  `connector_interrupt` only compares the connection id.  So whoever can put a message
into the ring of a connector and knows, or guesses, the 32-bit id can confirm the connection
in the peer's name, end it, or add bytes to the stream.

`Ignored` are the messages that pass without a trace.  If every message from another
address is one of them, the socket behaves as if none of these messages had been sent: the
same bytes, the same states, whatever is called on it and whenever the interrupts come. -/
namespace V4v.Linux

/-! ## One message -/

/-- The message passes the connector without a trace: it is binned, it is a SYN, it is for
another connection, or it is an ACK or RST that has a payload or comes too late. -/
def Ignored (p : Sock) (m : Message) : Prop :=
  ∀ sh data, peekHeader m = some (sh, data) →
    sh.has shfSyn = true ∨ sh.conid ≠ p.conid ∨
      sh.has (shfAck ||| shfRst) = true ∧
        (data ≠ [] ∨ p.state ≠ .connecting ∧ p.state ≠ .connected)

/-- The message would be queued, but the list is full or there is no memory. -/
def Held (p : Sock) (m : Message) (mem : Option Nat) : Prop :=
  ∃ sh data, peekHeader m = some (sh, data) ∧ sh.has shfSyn = false ∧ sh.conid = p.conid ∧
    sh.has (shfAck ||| shfRst) = false ∧ (p.pendingRecv.length > maxPendingRecvs ∨ mem = some 0)

/-- State, error and pending messages are the same. -/
def Untouched (p p' : Sock) : Prop :=
  p'.state = p.state ∧ p'.pendingError = p.pendingError ∧ p'.pendingRecv = p.pendingRecv

theorem Untouched.refl (p : Sock) : Untouched p p := ⟨rfl, rfl, rfl⟩

/-- A socket that is neither connecting nor connected is left alone by the state machine. -/
theorem connectorStateMachine_of_settled {p : Sock} {sh : StreamHeader}
    (h : p.state ≠ .connecting ∧ p.state ≠ .connected) : (connectorStateMachine p sh).2 = p := by
  have hcase := machine_cases p sh
  generalize connectorStateMachine p sh = o at hcase
  cases hcase with
  | opened _ hst | refused _ _ hst => exact absurd hst h.1
  | closed _ _ hst => exact absurd hst h.2
  | confused _ hst =>
    rcases hst with hst | hst
    · exact absurd hst h.2
    · rw [← hst]
  | unmoved => rfl

/-- Otherwise an ACK or RST changes its state. -/
theorem connectorStateMachine_state_ne {p : Sock} {sh : StreamHeader}
    (hctl : sh.has (shfAck ||| shfRst) = true)
    (hst : ¬ (p.state ≠ .connecting ∧ p.state ≠ .connected)) :
    (connectorStateMachine p sh).2.state ≠ p.state := by
  have hcase := machine_cases p sh
  generalize connectorStateMachine p sh = o at hcase
  cases hcase with
  | opened _ hold | refused _ _ hold | closed _ _ hold => simp [hold]
  | confused _ hold =>
    rcases hold with hold | hold
    · simp [hold]
    · exact absurd (by simp [hold]) hst
  | unmoved _ hno => exact absurd (hno hctl) hst

theorem Ignored.peek {p : Sock} {m : Message} {sh : StreamHeader} {data : List UInt8}
    (hpeek : peekHeader m = some (sh, data)) :
    Ignored p m ↔ sh.has shfSyn = true ∨ sh.conid ≠ p.conid ∨
      sh.has (shfAck ||| shfRst) = true ∧
        (data ≠ [] ∨ p.state ≠ .connecting ∧ p.state ≠ .connected) := by
  constructor
  · intro h
    exact h sh data hpeek
  · intro h sh' data' hpeek'
    obtain ⟨rfl, rfl⟩ := eq_of_peekHeader hpeek hpeek'
    exact h

theorem Held.peek {p : Sock} {m : Message} {mem : Option Nat} {sh : StreamHeader}
    {data : List UInt8} (hpeek : peekHeader m = some (sh, data)) :
    Held p m mem ↔ sh.has shfSyn = false ∧ sh.conid = p.conid ∧
      sh.has (shfAck ||| shfRst) = false ∧
      (p.pendingRecv.length > maxPendingRecvs ∨ mem = some 0) := by
  constructor
  · rintro ⟨sh', data', hpeek', h⟩
    obtain ⟨rfl, rfl⟩ := eq_of_peekHeader hpeek hpeek'
    exact h
  · intro h
    exact ⟨sh, data, hpeek, h⟩

theorem copyCase_untouched {queue : List Message} {source : Addr} {sh : StreamHeader}
    {data : List UInt8} {p : Sock} {mem : Option Nat} {c : SockOut}
    (h : CopyCase queue source sh data p mem c) :
    Untouched p c.sock ↔ p.pendingRecv.length > maxPendingRecvs ∨ mem = some 0 := by
  cases h with
  | full hfull => exact ⟨fun _ => .inl hfull, fun _ => ⟨rfl, rfl, rfl⟩⟩
  | starved _ hmem => exact ⟨fun _ => .inr hmem, fun _ => .refl p⟩
  | copied hroom hmem =>
    refine ⟨fun h => ?_, fun h => ?_⟩
    · simpa using h.2.2
    · rcases h with h | h
      · exact absurd h hroom
      · exact absurd h hmem

/-- **One message.**  The connector keeps its state, its error and its pending messages
exactly for the messages it ignores or holds back. -/
theorem connectorCase_untouched {r : Ring} {p p' : Sock} {m : Message} {rest : List Message}
    {mem : Option Nat} {o : RingOut} (hp : r.sponsor = some p)
    (h : ConnectorCase r p m rest mem o) (hp' : o.ring.sponsor = some p') :
    Untouched p p' ↔ Ignored p m ∨ Held p m mem := by
  cases h with
  | binned hnone =>
    obtain rfl : p = p' := Option.some.inj (hp.symm.trans hp')
    have hign : Ignored p m := fun sh data hsome => by rw [hnone] at hsome; cases hsome
    exact ⟨fun _ => .inl hign, fun _ => .refl p⟩
  | syn hpeek hsyn =>
    obtain rfl : p = p' := Option.some.inj (hp.symm.trans hp')
    exact ⟨fun _ => .inl ((Ignored.peek hpeek).mpr (.inl hsyn)), fun _ => .refl p⟩
  | stranger hpeek hsyn hconid =>
    obtain rfl : p = p' := Option.some.inj (hp.symm.trans hp')
    exact ⟨fun _ => .inl ((Ignored.peek hpeek).mpr (.inr (.inl hconid))), fun _ => .refl p⟩
  | padded hpeek hsyn hconid hctl hdata =>
    obtain rfl : p = p' := Option.some.inj (hp.symm.trans hp')
    have hign := (Ignored.peek (p := p) hpeek).mpr (.inr (.inr ⟨hctl, .inl hdata⟩))
    exact ⟨fun _ => .inl hign, fun _ => .refl p⟩
  | control hpeek hsyn hconid hctl =>
    obtain rfl : (connectorStateMachine p _).2 = p' := Option.some.inj hp'
    rw [Ignored.peek hpeek, Held.peek hpeek]
    constructor
    · intro hun
      have hst : p.state ≠ .connecting ∧ p.state ≠ .connected := by
        by_contra hst
        exact connectorStateMachine_state_ne hctl hst hun.1
      exact .inl (.inr (.inr ⟨hctl, .inr hst⟩))
    · rintro ((hs | hc | ⟨-, hd | hst⟩) | ⟨-, -, hno, -⟩)
      · rw [hsyn] at hs; cases hs
      · exact absurd hconid hc
      · exact absurd rfl hd
      · rw [connectorStateMachine_of_settled hst]
        exact .refl p
      · rw [hctl] at hno; cases hno
  | data hpeek hsyn hconid hctl hcopy =>
    obtain rfl := Option.some.inj hp'
    rw [copyCase_untouched hcopy, Ignored.peek hpeek, Held.peek hpeek]
    simp [hsyn, hconid, hctl]

/-! ## A pass -/

/-- The message is from `P`. -/
def fromPeer (P : Addr) (m : Message) : Bool := m.source == P

/-- The ring with only the messages from `P`. -/
def Ring.own (r : Ring) (P : Addr) : Ring := { r with queue := r.queue.filter (fromPeer P) }

/-- An ignored message is consumed, and nothing else happens to ring or memory. -/
theorem connectorCase_ignored {r : Ring} {p : Sock} {m : Message} {rest : List Message}
    {mem : Option Nat} {o : RingOut} (hp : r.sponsor = some p) (hign : Ignored p m)
    (h : ConnectorCase r p m rest mem o) :
    o.ret = 0 ∧ o.ring = { r with queue := rest } ∧ o.mem = mem := by
  cases h with
  | binned | syn | stranger | padded => exact ⟨rfl, rfl, rfl⟩
  | control hpeek hsyn hconid hctl =>
    rcases (Ignored.peek hpeek).mp hign with hs | hc | ⟨-, hd | hst⟩
    · rw [hsyn] at hs; cases hs
    · exact absurd hconid hc
    · exact absurd rfl hd
    · rw [connectorStateMachine_of_settled hst, ← hp]
      exact ⟨rfl, rfl, rfl⟩
  | data hpeek hsyn hconid hctl hcopy =>
    rcases (Ignored.peek hpeek).mp hign with hs | hc | ⟨hno, -⟩
    · rw [hsyn] at hs; cases hs
    · exact absurd hconid hc
    · rw [hctl] at hno; cases hno

/-- What stays so for the rest of a pass. -/
structure Follows (p p' : Sock) : Prop where
  conid : p'.conid = p.conid
  settled : p.state ≠ .connecting ∧ p.state ≠ .connected →
    p'.state ≠ .connecting ∧ p'.state ≠ .connected

theorem Follows.ignored {p p' : Sock} {m : Message} (h : Follows p p') (hign : Ignored p m) :
    Ignored p' m := by
  intro sh data hpeek
  rcases hign sh data hpeek with hs | hc | ⟨hctl, hd | hst⟩
  · exact .inl hs
  · exact .inr (.inl (by rwa [h.conid]))
  · exact .inr (.inr ⟨hctl, .inl hd⟩)
  · exact .inr (.inr ⟨hctl, .inr (h.settled hst)⟩)

theorem connectorStateMachine_follows (p : Sock) (sh : StreamHeader) :
    Follows p (connectorStateMachine p sh).2 := by
  refine ⟨(connectorStateMachine_frame p sh).2.1, fun hst => ?_⟩
  rw [connectorStateMachine_of_settled hst]
  exact hst

theorem copyCase_follows {queue : List Message} {source : Addr} {sh : StreamHeader}
    {data : List UInt8} {p : Sock} {mem : Option Nat} {c : SockOut}
    (h : CopyCase queue source sh data p mem c) : Follows p c.sock := by
  cases h <;> exact ⟨rfl, fun hst => hst⟩

theorem connectorCase_follows {r : Ring} {p : Sock} {m : Message} {rest : List Message}
    {mem : Option Nat} {o : RingOut} (hp : r.sponsor = some p)
    (h : ConnectorCase r p m rest mem o) : ∃ p', o.ring.sponsor = some p' ∧ Follows p p' := by
  cases h with
  | binned | syn | stranger | padded => exact ⟨p, hp, rfl, fun hst => hst⟩
  | control => exact ⟨_, rfl, connectorStateMachine_follows p _⟩
  | data _ _ _ _ hcopy => exact ⟨_, rfl, copyCase_follows hcopy⟩

/-- What the handler does with a message does not depend on the messages behind it. -/
theorem connectorInterrupt_append {r : Ring} {m : Message} {rest : List Message}
    (hq : r.queue = m :: rest) (rest' : List Message) (mem : Option Nat) :
    (connectorInterrupt { r with queue := m :: rest' } mem).ret = (connectorInterrupt r mem).ret ∧
    (connectorInterrupt { r with queue := m :: rest' } mem).mem = (connectorInterrupt r mem).mem ∧
    { (connectorInterrupt { r with queue := m :: rest' } mem).ring with queue := [] } =
      { (connectorInterrupt r mem).ring with queue := [] } := by
  obtain ⟨id, type, sponsor, privates, queue⟩ := r
  subst hq
  cases sponsor with
  | none => exact ⟨rfl, rfl, rfl⟩
  | some p =>
    simp only [connectorInterrupt]
    cases peekHeader m with
    | none => exact ⟨rfl, rfl, rfl⟩
    | some x =>
      dsimp only
      split
      · exact ⟨rfl, rfl, rfl⟩
      · split
        · exact ⟨rfl, rfl, rfl⟩
        · split
          · split <;> exact ⟨rfl, rfl, rfl⟩
          · simp only [copyIntoPendingRecv]
            split
            · exact ⟨rfl, rfl, rfl⟩
            · split <;> exact ⟨rfl, rfl, rfl⟩

theorem Ring.own_eq {r r' : Ring} {P : Addr}
    (h : { r' with queue := [] } = { r with queue := ([] : List Message) })
    (hq : r'.queue = r.queue.filter (fromPeer P)) : r' = r.own P := by
  obtain ⟨id, type, sponsor, privates, queue⟩ := r
  obtain ⟨id', type', sponsor', privates', queue'⟩ := r'
  simp only [Ring.mk.injEq] at h
  obtain ⟨rfl, rfl, rfl, rfl, -⟩ := h
  subst hq
  rfl

/-- **A pass.**  The messages from elsewhere can be taken out before it instead. -/
theorem drain_own {P : Addr} {n n' : Nat} {r : Ring} {p : Sock} {mem : Option Nat}
    (hp : r.sponsor = some p) (hn : r.queue.length ≤ n) (hn' : (r.own P).queue.length ≤ n')
    (hign : ∀ m ∈ r.queue, fromPeer P m = false → Ignored p m) :
    (drain connectorInterrupt n' (r.own P) mem).ring =
      (drain connectorInterrupt n r mem).ring.own P := by
  induction n generalizing n' r p mem with
  | zero =>
    have hq : r.queue = [] := List.length_eq_zero_iff.mp (Nat.le_zero.mp hn)
    have hq' : (r.own P).queue = [] := by rw [Ring.own, hq]; rfl
    rw [drain_nil _ _ _ hq, drain_nil _ _ _ hq']
  | succ n ih =>
    cases hq : r.queue with
    | nil =>
      have hq' : (r.own P).queue = [] := by rw [Ring.own, hq]; rfl
      rw [drain_nil _ _ _ hq, drain_nil _ _ _ hq']
    | cons m rest =>
      have hcase := connector_cases hp hq mem
      rw [hq] at hn hign
      have hn : rest.length ≤ n := by simpa using hn
      cases hm : fromPeer P m with
      | false =>
        -- the message leaves the ring, and the other ring never had it
        obtain ⟨hret, hring, hmem⟩ :=
          connectorCase_ignored hp (hign m List.mem_cons_self hm) hcase
        have hown : r.own P = Ring.own { r with queue := rest } P := by
          rw [Ring.own, hq, List.filter_cons_of_neg (by simp [hm])]
          rfl
        rw [drain_next hq hret, hring, hmem, hown]
        rw [hown] at hn'
        exact ih hp hn hn' fun m' hm' => hign m' (List.mem_cons_of_mem _ hm')
      | true =>
        have hown : r.own P = { r with queue := m :: rest.filter (fromPeer P) } := by
          rw [Ring.own, hq, List.filter_cons_of_pos hm]
        rw [hown] at hn' ⊢
        obtain ⟨n', rfl⟩ : ∃ k, n' = k + 1 := ⟨n' - 1, by simp at hn'; omega⟩
        obtain ⟨hret, hmem, hrest⟩ :=
          connectorInterrupt_append hq (rest.filter (fromPeer P)) mem
        have hcase' := connector_cases (r := { r with queue := m :: rest.filter (fromPeer P) })
          hp rfl mem
        rcases hcase.consumed with ⟨hzero, hqueue⟩ | ⟨hneg, -, hqueue⟩
        · -- consumed in both rings
          have hqueue' : (connectorInterrupt { r with queue := m :: rest.filter (fromPeer P) }
              mem).ring.queue = rest.filter (fromPeer P) := by
            rcases hcase'.consumed with ⟨-, h⟩ | ⟨h, -⟩
            · exact h
            · rw [hret, hzero] at h; cases h
          obtain ⟨p', hp', hfollows⟩ := connectorCase_follows hp hcase
          have hring := Ring.own_eq hrest (by rw [hqueue, hqueue'])
          rw [drain_next hq hzero, drain_next rfl (hret.trans hzero), hring, hmem]
          refine ih hp' (by rw [hqueue]; exact hn) ?_ ?_
          · rw [← hring, hqueue']
            simpa using hn'
          · intro m' hm' hforeign
            rw [hqueue] at hm'
            exact hfollows.ignored (hign m' (List.mem_cons_of_mem _ hm') hforeign)
        · -- kept in both rings
          have hne : (connectorInterrupt r mem).ret ≠ 0 := by rw [hneg]; decide
          have hqueue' : (connectorInterrupt { r with queue := m :: rest.filter (fromPeer P) }
              mem).ring.queue = m :: rest.filter (fromPeer P) := by
            rcases hcase'.consumed with ⟨h, -⟩ | ⟨-, -, h⟩
            · rw [hret, hneg] at h; cases h
            · exact h
          rw [drain_stop hq hne, drain_stop rfl (by rwa [hret])]
          exact Ring.own_eq hrest (by rw [hqueue, hqueue', List.filter_cons_of_pos hm])

/-! ## Runs -/

/-- What happens to the socket: a message arrives in its ring, an interrupt is handled, or
something is done with the socket itself, by a call or a timer, that may return bytes.  A
stream socket's calls reach the ring only through interrupts. -/
inductive ConnAct where
  | arrive (m : Message)
  | interrupt (mem : Option Nat)
  | call (g : Sock → List UInt8 × Sock)

/-- One step, with the bytes it returns. -/
def connStep (r : Ring) : ConnAct → List UInt8 × Ring
  | .arrive m => ([], { r with queue := r.queue ++ [m] })
  | .interrupt mem => ([], (interruptRxRing r mem).ring)
  | .call g =>
    match r.sponsor with
    | none => ([], r)
    | some p => ((g p).1, { r with sponsor := some (g p).2 })

/-- What is seen of the socket: state, error and pending messages. -/
def Sock.view (p : Sock) : SockState × Int × List PendingRecv :=
  (p.state, p.pendingError, p.pendingRecv)

/-- The bytes that each interrupt and each call of a run returned, and what was to be seen of
the socket after it. -/
def observations : Ring → List ConnAct →
    List (List UInt8 × Option (SockState × Int × List PendingRecv))
  | _, [] => []
  | r, .arrive m :: acts => observations (connStep r (.arrive m)).2 acts
  | r, act :: acts =>
    ((connStep r act).1, (connStep r act).2.sponsor.map Sock.view) ::
      observations (connStep r act).2 acts

/-- Whenever an interrupt is handled, the socket ignores the messages of other addresses than
`P` that wait in the ring. -/
def IsolatedRun (P : Addr) : Ring → List ConnAct → Prop
  | _, [] => True
  | r, .interrupt mem :: acts =>
    (∀ p, r.sponsor = some p → ∀ m ∈ r.queue, fromPeer P m = false → Ignored p m) ∧
      IsolatedRun P (connStep r (.interrupt mem)).2 acts
  | r, act :: acts => IsolatedRun P (connStep r act).2 acts

/-- The step is not the arrival of a message of another address than `P`. -/
def ConnAct.own (P : Addr) : ConnAct → Bool
  | .arrive m => fromPeer P m
  | _ => true

theorem interruptRxRing_own {P : Addr} {r : Ring} {mem : Option Nat} (hty : r.type = .connector)
    (hign : ∀ p, r.sponsor = some p → ∀ m ∈ r.queue, fromPeer P m = false → Ignored p m) :
    (interruptRxRing (r.own P) mem).ring = (interruptRxRing r mem).ring.own P := by
  have hown : (r.own P).type = .connector := hty
  rw [interruptRxRing, interruptRxRing, hty, hown]
  dsimp only
  cases hp : r.sponsor with
  | none =>
    have hstuck : ∀ (n : Nat) (r : Ring), r.sponsor = none →
        (drain connectorInterrupt n r mem).ring = r := by
      intro n r hp
      have hout : connectorInterrupt r mem = ⟨-1, r, none, mem⟩ := by rw [connectorInterrupt, hp]
      cases n with
      | zero => rfl
      | succ n =>
        cases hq : r.queue with
        | nil => rw [drain_nil _ _ _ hq]
        | cons m rest => rw [drain_stop hq (by simp [hout]), hout]
    rw [hstuck _ r hp, hstuck _ (r.own P) hp]
  | some p => exact drain_own hp (Nat.le_refl _) (Nat.le_refl _) (hign p hp)

theorem interruptRxRing_type {r : Ring} {mem : Option Nat} (hty : r.type = .connector) :
    (interruptRxRing r mem).ring.type = .connector := by
  rw [interruptRxRing, hty]
  refine drain_invariant (P := fun r => r.type = .connector) (fun r mem h => ?_) hty
  rw [(connectorInterrupt_frame r mem).2.1, h]

/-- **A run** can be replayed without the messages of other addresses. -/
theorem observations_own {P : Addr} {r : Ring} {acts : List ConnAct} (hty : r.type = .connector)
    (h : IsolatedRun P r acts) :
    observations (r.own P) (acts.filter (ConnAct.own P)) = observations r acts := by
  induction acts generalizing r with
  | nil => rfl
  | cons act acts ih =>
    cases act with
    | arrive m =>
      have ih := ih (r := { r with queue := r.queue ++ [m] }) hty h
      cases hm : fromPeer P m with
      | false =>
        rw [List.filter_cons_of_neg (by simp [ConnAct.own, hm])]
        have hsame : r.own P = Ring.own { r with queue := r.queue ++ [m] } P := by
          simp [Ring.own, List.filter_append, hm]
        rw [hsame]
        exact ih
      | true =>
        rw [List.filter_cons_of_pos (by simp [ConnAct.own, hm])]
        have hnext : (connStep (r.own P) (.arrive m)).2 =
            Ring.own { r with queue := r.queue ++ [m] } P := by
          simp [connStep, Ring.own, List.filter_append, hm]
        rw [observations, observations, hnext]
        exact ih
    | interrupt mem =>
      have hnext : (connStep (r.own P) (.interrupt mem)).2 =
          (connStep r (.interrupt mem)).2.own P := interruptRxRing_own hty h.1
      have hty' : (connStep r (.interrupt mem)).2.type = .connector := interruptRxRing_type hty
      have ih := ih hty' h.2
      rw [List.filter_cons_of_pos rfl, observations, observations, hnext, ← ih]
      · rfl
      all_goals simp
    | call g =>
      have hnext : (connStep (r.own P) (.call g)).2 = (connStep r (.call g)).2.own P := by
        cases hp : r.sponsor <;> simp [connStep, Ring.own, hp]
      have hbytes : (connStep (r.own P) (.call g)).1 = (connStep r (.call g)).1 := by
        cases hp : r.sponsor <;> simp [connStep, Ring.own, hp]
      have hty' : (connStep r (.call g)).2.type = .connector := by
        cases hp : r.sponsor <;> simp [connStep, hp, hty]
      have ih := ih hty' h
      rw [List.filter_cons_of_pos rfl, observations, observations, hnext, hbytes, ← ih]
      · rfl
      all_goals simp

/-- **What other addresses can do.**  A message from another address than the peer's leaves
the connector alone exactly if it is ignored or held back; and two runs that differ only in
messages of other addresses, all of them ignored, show the same. -/
theorem connector_isolated (r : Ring) (p p' : Sock) (m : Message) (rest : List Message)
    (mem : Option Nat) (P : Addr) (r₁ r₂ : Ring) (acts₁ acts₂ : List ConnAct) :
    (r.sponsor = some p → r.queue = m :: rest → m.source ≠ p.peer →
      (connectorInterrupt r mem).ring.sponsor = some p' →
      (Untouched p p' ↔ Ignored p m ∨ Held p m mem)) ∧
    (r₁.type = .connector → r₁.own P = r₂.own P →
      acts₁.filter (ConnAct.own P) = acts₂.filter (ConnAct.own P) →
      IsolatedRun P r₁ acts₁ → IsolatedRun P r₂ acts₂ →
      observations r₁ acts₁ = observations r₂ acts₂) := by
  constructor
  · intro hp hq _ hp'
    exact connectorCase_untouched hp (connector_cases hp hq mem) hp'
  · intro hty₁ hown hacts h₁ h₂
    have hty₂ : r₂.type = .connector := by
      have : (r₁.own P).type = (r₂.own P).type := by rw [hown]
      exact this.symm.trans hty₁
    rw [← observations_own hty₁ h₁, ← observations_own hty₂ h₂, hown, hacts]

/-- A connector at port 10 of domain 1, connected to port 9 of domain 2 as connection 5. -/
def hijackSock : Sock := ⟨0, .connected, ⟨9, 2⟩, 5, [], 0, false⟩

def hijackRing (queue : List Message) : Ring :=
  ⟨⟨⟨10, 1⟩, domidAny⟩, .connector, some hijackSock, [], queue⟩

/-- A message of domain 3 that carries the connection's id. -/
def hijackMessage (flags : UInt32) (data : List UInt8) : Message :=
  streamMessage ⟨7, 3⟩ ⟨flags, 5⟩ data

/-- Domain 3 adds a byte to the stream, and it ends the connection; with its RST the peer's
byte comes to a socket that is disconnected. -/
theorem connector_hijacked :
    (∃ p', (connectorInterrupt (hijackRing [hijackMessage 0 [65]]) none).ring.sponsor = some p' ∧
      ¬ Untouched hijackSock p') ∧
    (∃ p', (connectorInterrupt (hijackRing [hijackMessage shfRst []]) none).ring.sponsor =
      some p' ∧ ¬ Untouched hijackSock p') ∧
    observations (hijackRing [])
        [.arrive (hijackMessage shfRst []), .arrive (streamMessage ⟨9, 2⟩ ⟨0, 5⟩ [66]),
          .interrupt none] ≠
      observations (hijackRing [])
        [.arrive (streamMessage ⟨9, 2⟩ ⟨0, 5⟩ [66]), .interrupt none] := by
  refine ⟨⟨_, rfl, ?_⟩, ⟨_, rfl, ?_⟩, by decide⟩
  · rintro ⟨-, -, h⟩
    revert h
    decide
  · rintro ⟨h, -, -⟩
    revert h
    decide

theorem hijackMessage_ignored : Ignored hijackSock (hijackMessage shfSyn [65]) := by
  intro sh data hpeek
  obtain ⟨rfl, rfl⟩ := eq_of_peekHeader hpeek (peekHeader_streamMessage ..)
  exact .inl (by decide)

/-- A SYN from elsewhere leaves the connector alone. -/
theorem connector_isolated_syn :
    (∃ p', (connectorInterrupt (hijackRing [hijackMessage shfSyn [65]]) none).ring.sponsor =
      some p' ∧ Untouched hijackSock p') ∧
    observations (hijackRing [hijackMessage shfSyn [65]]) [.interrupt none] =
      observations (hijackRing []) [.interrupt none] := by
  have h := fun p' => connector_isolated (hijackRing [hijackMessage shfSyn [65]]) hijackSock p'
    (hijackMessage shfSyn [65]) [] none ⟨9, 2⟩ (hijackRing [hijackMessage shfSyn [65]])
    (hijackRing []) [.interrupt none] [.interrupt none]
  constructor
  · refine ⟨_, rfl, ?_⟩
    exact ((h _).1 rfl rfl (by decide) rfl).mpr (.inl hijackMessage_ignored)
  · refine (h hijackSock).2 rfl rfl rfl ⟨?_, trivial⟩ ⟨?_, trivial⟩
    · rintro p ⟨⟩ m hm -
      rw [List.mem_singleton.mp hm]
      exact hijackMessage_ignored
    · intro p _ m hm
      cases hm

end V4v.Linux
