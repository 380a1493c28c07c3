import LegacyV4v.StreamSocket

/-! # What a message can do to the other peers of a listener

The accepted connections of all peers stand in one list of the ring, and their pending SYNs
in one list of its sponsor.  `listener_interrupt` finds an accepted connection by connection id
and source address, and queues a SYN under the address it came from.  A RST for which there is
no accepted connection takes a pending SYN back; this loop compares the connection id alone.
So a peer that knows, or guesses, the id of a connection that another peer has asked for can
take the request away before `v4v_accept` sees it.

`EvictsStranger` are the messages that do this, and all others leave the other peers alone. -/
namespace V4v.Linux

/-- The entries that wait for `v4v_accept`. -/
def Ring.waiting (r : Ring) : List PendingRecv :=
  match r.sponsor with
  | none => []
  | some p => p.pendingRecv

/-- Only the pending list of the socket may differ. -/
def SameButQueue (p p' : Sock) : Prop :=
  p' = { p with pendingRecv := p'.pendingRecv, full := p'.full }

/-- Only the pending list and the state of the socket may differ. -/
def SameButStream (p p' : Sock) : Prop :=
  p' = { p with state := p'.state, pendingRecv := p'.pendingRecv, full := p'.full }

/-- What a message of `source` may do to a listener's ring: change the state and the list of
that peer's own connections, take back SYNs of that peer, and add a SYN of that peer. -/
structure PeersIsolated (source : Addr) (r r' : Ring) : Prop where
  acceptors : List.Forall₂
    (fun p p' => p' = p ∨ p.peer = source ∧ SameButStream p p') r.privates r'.privates
  sponsor : ∀ p', r'.sponsor = some p' → ∃ p, r.sponsor = some p ∧ SameButQueue p p'
  kept : r.sponsor.isSome = r'.sponsor.isSome
  waiting : ∃ old new, r'.waiting = old ++ new ∧ old.Sublist r.waiting ∧
    (old.filter fun e => e.source ≠ source) = (r.waiting.filter fun e => e.source ≠ source) ∧
    ∀ e ∈ new, e.source = source ∧ e.sh.has shfSyn = true

/-- The message is a RST for no accepted connection, and the first pending SYN with its
connection id is another peer's. -/
def EvictsStranger (r : Ring) (m : Message) : Prop :=
  ∃ sh data e, peekHeader m = some (sh, data) ∧
    (∀ p ∈ r.privates, p.isPeer m.source sh.conid = false) ∧ sh.has shfRst = true ∧
    r.waiting.find? (fun e => e.isSyn sh.conid) = some e ∧ e.source ≠ m.source

/-! ## The lists -/

theorem forall₂_same {α : Type} {R : α → α → Prop} (h : ∀ a, R a a) (l : List α) :
    List.Forall₂ R l l := by
  induction l with
  | nil => exact .nil
  | cons a l ih => exact .cons (h a) ih

/-- One element of a list is exchanged for a related one. -/
theorem forall₂_exchange {α : Type} {R : α → α → Prop} (h : ∀ a, R a a) (l₁ l₂ : List α) {a a' : α}
    (ha : R a a') : List.Forall₂ R (l₁ ++ a :: l₂) (l₁ ++ a' :: l₂) := by
  induction l₁ with
  | nil => exact .cons ha (forall₂_same h l₂)
  | cons b l₁ ih => exact .cons (h b) ih

/-- What `eraseP` takes is the element that `find?` finds. -/
theorem filter_eraseP_eq_iff {α : Type} (sel other : α → Bool) (l : List α) :
    (l.eraseP sel).filter other = l.filter other ↔ ∀ a, l.find? sel = some a → other a = false := by
  induction l with
  | nil => simp
  | cons b l ih =>
    by_cases hb : sel b = true
    · rw [List.eraseP_cons_of_pos hb, List.find?_cons_of_pos hb]
      constructor
      · rintro h a ⟨⟩
        cases hob : other b with
        | false => rfl
        | true =>
          rw [List.filter_cons_of_pos hob] at h
          have hlen := congrArg List.length h
          simp at hlen
      · intro h
        rw [List.filter_cons_of_neg (by simp [h b rfl])]
    · rw [List.eraseP_cons_of_neg hb, List.find?_cons_of_neg hb]
      cases hob : other b with
      | false =>
        rw [List.filter_cons_of_neg (by simp [hob]), List.filter_cons_of_neg (by simp [hob])]
        exact ih
      | true =>
        rw [List.filter_cons_of_pos hob, List.filter_cons_of_pos hob, List.cons_inj_right]
        exact ih

/-! ## One message -/

theorem SameButQueue.refl (p : Sock) : SameButQueue p p := rfl

theorem CopyCase.sameButQueue {queue : List Message} {source : Addr} {sh : StreamHeader}
    {data : List UInt8} {p : Sock} {mem : Option Nat} {c : SockOut}
    (h : CopyCase queue source sh data p mem c) : SameButQueue p c.sock := by
  cases h <;> rfl

theorem SameButQueue.stream {p p' : Sock} (h : SameButQueue p p') : SameButStream p p' := by
  rw [SameButQueue] at h
  rw [SameButStream, h]

theorem acceptorStateMachine_sameButStream (p : Sock) (sh : StreamHeader) :
    SameButStream p (acceptorStateMachine p sh) := by
  rw [acceptorStateMachine]
  split <;> rfl

theorem AcceptorCase.sameButStream {id : RingId} {p : Sock} {m : Message} {rest : List Message}
    {sh : StreamHeader} {data : List UInt8} {mem : Option Nat} {o : SockOut}
    (h : AcceptorCase id p m rest sh data mem o) : SameButStream p o.sock := by
  cases h with
  | strange => rfl
  | reset =>
    dsimp only
    split
    · exact acceptorStateMachine_sameButStream p sh
    · rfl
  | data _ _ hcopy => exact hcopy.sameButQueue.stream

/-- A ring whose sockets are all the same. -/
theorem PeersIsolated.of_same {source : Addr} {r r' : Ring} (hs : r'.sponsor = r.sponsor)
    (hp : r'.privates = r.privates) : PeersIsolated source r r' where
  acceptors := hp ▸ forall₂_same (fun _ => .inl rfl) _
  sponsor := fun p' h => ⟨p', hs ▸ h, rfl⟩
  kept := by rw [hs]
  waiting := by
    have hw : r'.waiting = r.waiting := by rw [Ring.waiting, hs, Ring.waiting]
    exact ⟨r.waiting, [], by simp [hw], List.Sublist.refl _, rfl, by simp⟩

/-- Eviction touches only the source's own SYNs exactly if it finds one of them, or none. -/
theorem peersIsolated_evictSyn_iff {source : Addr} {r r' : Ring} (conid : UInt32)
    (hs : r'.sponsor = r.sponsor.map (evictSyn conid)) (hp : r'.privates = r.privates) :
    PeersIsolated source r r' ↔
      ∀ e, r.waiting.find? (fun e => e.isSyn conid) = some e → e.source = source := by
  have hw : r'.waiting = r.waiting.eraseP fun e => e.isSyn conid := by
    rw [Ring.waiting, Ring.waiting, hs]
    cases r.sponsor <;> rfl
  have hiff := filter_eraseP_eq_iff (fun e : PendingRecv => e.isSyn conid)
    (fun e => decide (e.source ≠ source)) r.waiting
  simp only [decide_eq_false_iff_not, not_not] at hiff
  rw [← hiff, ← hw]
  constructor
  · intro h
    obtain ⟨old, new, heq, -, hold, hnew⟩ := h.waiting
    have hnone : new.filter (fun e => decide (e.source ≠ source)) = [] := by
      rw [List.filter_eq_nil_iff]
      intro e he
      simp [(hnew e he).1]
    rw [heq, List.filter_append, hnone, List.append_nil, hold]
  · intro h
    refine ⟨hp ▸ forall₂_same (fun _ => .inl rfl) _, ?_, ?_, ?_⟩
    · intro p' hp'
      rw [hs] at hp'
      obtain ⟨p, hp, rfl⟩ := Option.map_eq_some_iff.mp hp'
      exact ⟨p, hp, rfl⟩
    · rw [hs, Option.isSome_map]
    · exact ⟨r'.waiting, [], by simp, hw ▸ List.eraseP_sublist, h, by simp⟩

theorem listenerCase_isolated_iff {r : Ring} {m : Message} {rest : List Message}
    {mem : Option Nat} {o : RingOut} (h : ListenerCase r m rest mem o) :
    PeersIsolated m.source r o.ring ↔ ¬ EvictsStranger r m := by
  have hquiet : (∀ sh data, peekHeader m = some (sh, data) →
      (∀ p ∈ r.privates, p.isPeer m.source sh.conid = false) → sh.has shfRst = false) →
      ¬ EvictsStranger r m := by
    rintro hno ⟨sh, data, e, hpeek, hnone, hrst, -⟩
    rw [hno sh data hpeek hnone] at hrst
    cases hrst
  cases h with
  | binned hpeek =>
    refine iff_of_true (.of_same rfl rfl) (hquiet fun sh data hsome => ?_)
    rw [hpeek] at hsome
    cases hsome
  | @acceptor sh data l₁ l₂ p o hpeek hpriv hl₁ hpeer ho =>
    refine iff_of_true ?_ (hquiet fun sh' data' hpeek' hnone => ?_)
    · have hsource : p.peer = m.source := by
        simp only [Sock.isPeer, Bool.and_eq_true, beq_iff_eq] at hpeer
        exact hpeer.2
      refine ⟨?_, fun p' hp' => ⟨p', hp', rfl⟩, rfl, ?_⟩
      · dsimp only
        rw [hpriv]
        exact forall₂_exchange (fun _ => .inl rfl) l₁ l₂ (.inr ⟨hsource, ho.sameButStream⟩)
      · exact ⟨r.waiting, [], by simp [Ring.waiting], List.Sublist.refl _, rfl, by simp⟩
    · obtain ⟨rfl, rfl⟩ := eq_of_peekHeader hpeek hpeek'
      rw [hnone p (by simp [hpriv])] at hpeer
      cases hpeer
  | @reset sh data hpeek hnone hrst =>
    refine Iff.trans (peersIsolated_evictSyn_iff sh.conid rfl rfl) ⟨?_, ?_⟩
    · rintro h ⟨sh', data', e, hpeek', -, -, hfind, hne⟩
      obtain ⟨rfl, rfl⟩ := eq_of_peekHeader hpeek hpeek'
      exact hne (h e hfind)
    · intro h e hfind
      by_contra hne
      exact h ⟨sh, data, e, hpeek, hnone, hrst, hfind, hne⟩
  | dropped hpeek _ hrst | unknown hpeek _ hrst =>
    refine iff_of_true (.of_same rfl rfl) (hquiet fun sh' data' hpeek' _ => ?_)
    obtain ⟨rfl, rfl⟩ := eq_of_peekHeader hpeek hpeek'
    exact hrst
  | @syn sh p c hpeek hnone hrst hsyn hp hcopy =>
    refine iff_of_true ?_ (hquiet fun sh' data' hpeek' _ => ?_)
    · have hw : r.waiting = p.pendingRecv := by rw [Ring.waiting, hp]
      refine ⟨forall₂_same (fun _ => .inl rfl) _, ?_, by simp [hp], ?_⟩
      · rintro p' ⟨⟩
        exact ⟨p, hp, hcopy.sameButQueue⟩
      · rw [hw]
        cases hcopy with
        | full | starved =>
          exact ⟨p.pendingRecv, [], by simp [Ring.waiting], List.Sublist.refl _, rfl, by simp⟩
        | copied =>
          refine ⟨p.pendingRecv, [⟨m.source, sh, [], 0⟩], rfl, List.Sublist.refl _, rfl, ?_⟩
          intro e he
          rw [List.mem_singleton.mp he]
          exact ⟨rfl, hsyn⟩
    · obtain ⟨rfl, rfl⟩ := eq_of_peekHeader hpeek hpeek'
      exact hrst

/-- **What a message can do to other peers.**  `listener_interrupt` leaves the other peers
alone, unless the message is a RST that takes back the SYN of one of them. -/
theorem listenerInterrupt_isolated_iff (r : Ring) (m : Message) (rest : List Message)
    (mem : Option Nat) :
    PeersIsolated m.source { r with queue := m :: rest }
        (listenerInterrupt { r with queue := m :: rest } mem).ring ↔
      ¬ EvictsStranger r m :=
  listenerCase_isolated_iff (listener_cases (r := { r with queue := m :: rest }) rfl mem)

/-- Domain 2 has asked for connection 7, and nothing has been accepted yet. -/
def askedRing (queue : List Message) : Ring :=
  ⟨⟨⟨10, 1⟩, domidAny⟩, .listener,
    some ⟨0, .listening, ⟨0, 0⟩, 0, [⟨⟨9, 2⟩, ⟨shfSyn, 7⟩, [], 0⟩], 0, false⟩, [], queue⟩

/-- A RST of domain 3 takes the SYN of domain 2 away. -/
theorem reset_takes_other_syn :
    ¬ PeersIsolated ⟨9, 3⟩ (askedRing [streamMessage ⟨9, 3⟩ ⟨shfRst, 7⟩ []])
      (listenerInterrupt (askedRing [streamMessage ⟨9, 3⟩ ⟨shfRst, 7⟩ []]) none).ring := by
  rintro ⟨-, -, -, old, new, heq, -, hold, -⟩
  have hnil : (listenerInterrupt (askedRing [streamMessage ⟨9, 3⟩ ⟨shfRst, 7⟩ []])
      none).ring.waiting = [] := by decide
  rw [hnil] at heq
  obtain ⟨rfl, -⟩ := List.append_eq_nil_iff.mp heq.symm
  revert hold
  decide

end V4v.Linux
