import LegacyV4v.StreamDriver

/-! # Rings that wait for a full list

A pass leaves a ring at the first message whose list is full, and relies on whoever takes an
entry off that list to run it again.  `v4v_recv_stream` does.  `v4v_accept` does not, and
neither does `v4v_release`, when the socket that the message waits for goes away; and
`v4v_listen` and `v4v_connect` hand a ring with old messages to the handlers without a pass.
Then the ring is not empty, nothing blocks it, and nobody looks at it until the next interrupt.

If calls do these things only while an interrupt is pending, or while the ring does not wait
for their socket, a ring that is not empty in a quiescent state waits for a list that is full
indeed.  Two races are excluded as well: a receive between the test of the count and the
setting of `full`, and the timer of a `v4v_connect` that goes off after another thread has made
the socket a listener. -/
namespace V4v.Linux

/-! ## What the first message waits for -/

namespace Ring

/-- The ring is one that the interrupt handlers serve. -/
def Stream (r : Ring) : Prop := r.type = .connector ∨ r.type = .listener

/-- The first message waits for a list that is full, and marked so. -/
def Blocked (r : Ring) : Prop :=
  ∃ p, r.waitsFor = some p ∧ p.pendingRecv.length > maxPendingRecvs ∧ p.full = true

/-- The messages that wait for `q`: data for a connector or for an acceptor, or a SYN for a
listener. -/
inductive Awaits (r : Ring) (q : Sock) : Prop
  | connector {m : Message} {rest : List Message} {sh : StreamHeader} {data : List UInt8} :
      r.queue = m :: rest → peekHeader m = some (sh, data) → r.type = .connector →
      r.sponsor = some q → sh.has shfSyn = false → sh.conid = q.conid →
      sh.has (shfAck ||| shfRst) = false → Awaits r q
  | acceptor {m : Message} {rest : List Message} {sh : StreamHeader} {data : List UInt8} :
      r.queue = m :: rest → peekHeader m = some (sh, data) → r.type = .listener →
      r.privates.find? (fun p => p.isPeer m.source sh.conid) = some q →
      sh.has (shfSyn ||| shfAck) = false → sh.has shfRst = false → Awaits r q
  | listener {m : Message} {rest : List Message} {sh : StreamHeader} :
      r.queue = m :: rest → peekHeader m = some (sh, []) → r.type = .listener →
      r.privates.find? (fun p => p.isPeer m.source sh.conid) = none →
      sh.has shfRst = false → sh.has shfSyn = true → r.sponsor = some q → Awaits r q

theorem awaits_of_waitsFor {r : Ring} {q : Sock} (h : r.waitsFor = some q) : r.Awaits q := by
  rw [waitsFor] at h
  split at h
  · cases h
  · next hq =>
    split at h
    · cases h
    · next hpeek =>
      split at h
      · next hty =>
        split at h
        · cases h
        · next hp =>
          split at h
          · next hcond =>
            obtain rfl := Option.some.inj h
            exact .connector hq hpeek hty hp hcond.1 hcond.2.1 hcond.2.2
          · cases h
      · next hty =>
        split at h
        · next hp =>
          split at h
          · next hcond =>
            obtain rfl := Option.some.inj h
            exact .acceptor hq hpeek hty hp hcond.1 hcond.2
          · cases h
        · next hnone =>
          split at h
          · next hcond =>
            obtain ⟨hrst, hsyn, rfl⟩ := hcond
            exact .listener hq hpeek hty hnone hrst hsyn h
          · cases h
      · cases h

theorem Awaits.waitsFor {r : Ring} {q : Sock} (h : r.Awaits q) : r.waitsFor = some q := by
  cases h with
  | connector hq hpeek hty hp hsyn hconid hctl =>
    simp only [Ring.waitsFor, hq, hpeek, hty, hp]
    exact if_pos ⟨hsyn, hconid, hctl⟩
  | acceptor hq hpeek hty hp hctl hrst =>
    simp only [Ring.waitsFor, hq, hpeek, hty, hp]
    exact if_pos ⟨hctl, hrst⟩
  | listener hq hpeek hty hnone hrst hsyn hp =>
    simp only [Ring.waitsFor, hq, hpeek, hty, hnone, hp]
    exact if_pos ⟨hrst, hsyn, trivial⟩

theorem find?_map_isPeer {g : Sock → Sock} (hg : ∀ p, (g p).conid = p.conid ∧ (g p).peer = p.peer)
    (ps : List Sock) (source : Addr) (conid : UInt32) :
    (ps.map g).find? (fun p => p.isPeer source conid) =
      (ps.find? fun p => p.isPeer source conid).map g := by
  have hpeer : ((fun p : Sock => p.isPeer source conid) ∘ g) = fun p => p.isPeer source conid := by
    funext p
    simp [Sock.isPeer, (hg p).1, (hg p).2]
  rw [List.find?_map, hpeer]

/-- Change the sponsor by `f` and the privates by `g`. -/
def mapBoth (f g : Sock → Sock) (r : Ring) : Ring :=
  { r with sponsor := r.sponsor.map f, privates := r.privates.map g }

/-- A change of the sockets that leaves connection ids and peers alone does not change for which
socket the first message waits. -/
theorem waitsFor_map {r : Ring} {f g : Sock → Sock} (hf : ∀ p, (f p).conid = p.conid)
    (hg : ∀ p, (g p).conid = p.conid ∧ (g p).peer = p.peer) {q : Sock} (h : r.waitsFor = some q) :
    ((r.mapBoth f g).waitsFor = some (f q) ∧ r.sponsor = some q) ∨
      ((r.mapBoth f g).waitsFor = some (g q) ∧ q ∈ r.privates) := by
  cases awaits_of_waitsFor h with
  | connector hq hpeek hty hp hsyn hconid hctl =>
    have hp' : (r.mapBoth f g).sponsor = some (f q) := by rw [mapBoth, hp, Option.map_some]
    refine .inl ⟨Awaits.waitsFor ?_, hp⟩
    exact .connector hq hpeek hty hp' hsyn (hconid.trans (hf q).symm) hctl
  | acceptor hq hpeek hty hp hctl hrst =>
    refine .inr ⟨Awaits.waitsFor (.acceptor hq hpeek hty ?_ hctl hrst),
      List.mem_of_find?_eq_some hp⟩
    rw [mapBoth, find?_map_isPeer hg, hp, Option.map_some]
  | listener hq hpeek hty hnone hrst hsyn hp =>
    have hp' : (r.mapBoth f g).sponsor = some (f q) := by rw [mapBoth, hp, Option.map_some]
    refine .inl ⟨Awaits.waitsFor (.listener hq hpeek hty ?_ hrst hsyn hp'), hp⟩
    rw [mapBoth, find?_map_isPeer hg, hnone, Option.map_none]

theorem waitsFor_mapSocks {r : Ring} {f : Sock → Sock}
    (hf : ∀ p, (f p).conid = p.conid ∧ (f p).peer = p.peer) {q : Sock}
    (h : r.waitsFor = some q) : (r.mapSocks f).waitsFor = some (f q) := by
  rcases waitsFor_map (fun p => (hf p).1) hf h with ⟨h, -⟩ | ⟨h, -⟩ <;> exact h

theorem waitsFor_mem {r : Ring} {q : Sock} (h : r.waitsFor = some q) : q ∈ r.socks := by
  rcases waitsFor_map (f := fun p => p) (g := fun p => p) (fun _ => rfl) (fun _ => ⟨rfl, rfl⟩) h
    with ⟨-, h⟩ | ⟨-, h⟩
  · exact List.mem_append_left _ (by simp [h])
  · exact List.mem_append_right _ h

end Ring

/-! ## A handler stops only at a full list -/

theorem copyCase_ret {queue : List Message} {source : Addr} {sh : StreamHeader} {data : List UInt8}
    {p : Sock} {c : SockOut} (h : CopyCase queue source sh data p none c) :
    c.ret = 0 ∨ p.pendingRecv.length > maxPendingRecvs := by
  cases h with
  | full hfull => exact .inr hfull
  | starved _ hmem => cases hmem
  | copied => exact .inl rfl

theorem connectorCase_ret {r : Ring} {p : Sock} {m : Message} {rest : List Message} {o : RingOut}
    (hty : r.type = .connector) (hp : r.sponsor = some p) (hq : r.queue = m :: rest)
    (h : ConnectorCase r p m rest none o) :
    o.ret = 0 ∨ ∃ q, r.waitsFor = some q ∧ q.pendingRecv.length > maxPendingRecvs := by
  cases h with
  | binned | syn | stranger | padded | control => exact .inl rfl
  | data hpeek hsyn hconid hctl hcopy =>
    refine (copyCase_ret hcopy).imp id fun hfull => ⟨p, ?_, hfull⟩
    exact (Ring.Awaits.connector hq hpeek hty hp hsyn hconid hctl).waitsFor

theorem find?_isPeer_of_split {ps l₁ l₂ : List Sock} {p : Sock} {source : Addr} {conid : UInt32}
    (hps : ps = l₁ ++ p :: l₂) (hl₁ : ∀ q ∈ l₁, q.isPeer source conid = false)
    (hp : p.isPeer source conid = true) :
    ps.find? (fun q => q.isPeer source conid) = some p := by
  have hnone : l₁.find? (fun q => q.isPeer source conid) = none :=
    List.find?_eq_none.mpr fun q hq => by simp [hl₁ q hq]
  rw [hps, List.find?_append, hnone, Option.none_or]
  exact List.find?_cons_of_pos hp

theorem listenerCase_ret {r : Ring} {m : Message} {rest : List Message} {o : RingOut}
    (hty : r.type = .listener) (hq : r.queue = m :: rest) (h : ListenerCase r m rest none o) :
    o.ret = 0 ∨ ∃ q, r.waitsFor = some q ∧ q.pendingRecv.length > maxPendingRecvs := by
  cases h with
  | binned | reset | dropped | unknown => exact .inl rfl
  | @acceptor sh data l₁ l₂ p o hpeek hpriv hl₁ hp ho =>
    cases ho with
    | strange | reset => exact .inl rfl
    | data hstrange hrst hcopy =>
      refine (copyCase_ret hcopy).imp id fun hfull => ⟨p, ?_, hfull⟩
      have hfind := find?_isPeer_of_split hpriv hl₁ hp
      exact (Ring.Awaits.acceptor hq hpeek hty hfind hstrange hrst).waitsFor
  | @syn sh p c hpeek hnone hrst hsyn hp hcopy =>
    refine (copyCase_ret hcopy).imp id fun hfull => ⟨p, ?_, hfull⟩
    have hfind : r.privates.find? (fun q => q.isPeer m.source sh.conid) = none :=
      List.find?_eq_none.mpr fun q hq => by simp [hnone q hq]
    exact (Ring.Awaits.listener hq hpeek hty hfind hrst hsyn hp).waitsFor

theorem handle_ret {r : Ring} {o : RingOut} (hsp : r.type = .connector → r.sponsor ≠ none)
    (hne : r.queue ≠ []) (h : r.handle none = some o) :
    o.ret = 0 ∨ ∃ q, r.waitsFor = some q ∧ q.pendingRecv.length > maxPendingRecvs := by
  obtain ⟨m, rest, hq⟩ := List.exists_cons_of_ne_nil hne
  rw [Ring.handle] at h
  split at h
  · next hty =>
    obtain rfl := Option.some.inj h
    obtain ⟨p, hp⟩ := Option.ne_none_iff_exists'.mp (hsp hty)
    exact connectorCase_ret hty hp hq (connector_cases hp hq none)
  · next hty =>
    obtain rfl := Option.some.inj h
    exact listenerCase_ret hty hq (listener_cases hq none)
  · cases h

/-! ## A whole pass

With memory, a pass takes a ring to its end, or to a message that waits for a full list. -/

/-- What one call of the handler leaves: one message less, or a ring that is blocked. -/
def Progresses (r : Ring) (rest : List Message) (o : RingOut) : Prop :=
  o.mem = none ∧ (o.ret = 0 ∧ o.ring.queue = rest ∧ o.ring.type = r.type ∧
    (r.sponsor ≠ none → o.ring.sponsor ≠ none) ∨ o.ret ≠ 0 ∧ o.ring.Blocked)

theorem connectorCase_progresses {r : Ring} {p : Sock} {m : Message} {rest : List Message}
    {o : RingOut} (hty : r.type = .connector) (h : ConnectorCase r p m rest none o) :
    Progresses r rest o := by
  cases h with
  | binned | syn | stranger | padded => exact ⟨rfl, .inl ⟨rfl, rfl, rfl, fun hne => hne⟩⟩
  | control => exact ⟨rfl, .inl ⟨rfl, rfl, rfl, fun _ => Option.some_ne_none _⟩⟩
  | data hpeek hsyn hconid hctl hcopy =>
    cases hcopy with
    | full hfull =>
      refine ⟨rfl, .inr ⟨by simp, { p with full := true }, Ring.Awaits.waitsFor ?_, hfull, rfl⟩⟩
      exact .connector rfl hpeek hty rfl hsyn hconid hctl
    | starved _ hmem => cases hmem
    | copied => exact ⟨rfl, .inl ⟨rfl, rfl, rfl, fun _ => Option.some_ne_none _⟩⟩

theorem listenerCase_progresses {r : Ring} {m : Message} {rest : List Message} {o : RingOut}
    (hty : r.type = .listener) (h : ListenerCase r m rest none o) : Progresses r rest o := by
  cases h with
  | binned | dropped | unknown => exact ⟨rfl, .inl ⟨rfl, rfl, rfl, fun hne => hne⟩⟩
  | reset => exact ⟨rfl, .inl ⟨rfl, rfl, rfl, by simp⟩⟩
  | @acceptor sh data l₁ l₂ p o hpeek _ hl₁ hp ho =>
    cases ho with
    | strange | reset => exact ⟨rfl, .inl ⟨rfl, rfl, rfl, fun hne => hne⟩⟩
    | data hstrange hrst hcopy =>
      cases hcopy with
      | full hfull =>
        refine ⟨rfl, .inr ⟨by simp, { p with full := true }, Ring.Awaits.waitsFor ?_, hfull, rfl⟩⟩
        exact .acceptor rfl hpeek hty (find?_isPeer_of_split rfl hl₁ hp) hstrange hrst
      | starved _ hmem => cases hmem
      | copied => exact ⟨rfl, .inl ⟨rfl, rfl, rfl, fun hne => hne⟩⟩
  | @syn sh p c hpeek hnone hrst hsyn hp hcopy =>
    cases hcopy with
    | full hfull =>
      refine ⟨rfl, .inr ⟨by simp, { p with full := true }, Ring.Awaits.waitsFor ?_, hfull, rfl⟩⟩
      refine .listener rfl hpeek hty ?_ hrst hsyn rfl
      exact List.find?_eq_none.mpr fun q hq => by simp [hnone q hq]
    | starved _ hmem => cases hmem
    | copied => exact ⟨rfl, .inl ⟨rfl, rfl, rfl, fun _ => Option.some_ne_none _⟩⟩

/-- **One ring.**  By induction on the rounds, of which there are as many as messages. -/
theorem drain_blocked (handler : Ring → Option Nat → RingOut) (P : Ring → Prop)
    (hstep : ∀ r m rest, P r → r.queue = m :: rest → Progresses r rest (handler r none) ∧
      ((handler r none).ret = 0 → P (handler r none).ring))
    {n : Nat} {r : Ring} (hP : P r) (hn : r.queue.length ≤ n) :
    (drain handler n r none).mem = none ∧
      ((drain handler n r none).ring.queue ≠ [] → (drain handler n r none).ring.Blocked) := by
  induction n generalizing r with
  | zero =>
    have hq : r.queue = [] := List.length_eq_zero_iff.mp (Nat.le_zero.mp hn)
    rw [drain_nil _ _ _ hq]
    exact ⟨rfl, fun hne => absurd hq hne⟩
  | succ n ih =>
    cases hq : r.queue with
    | nil =>
      rw [drain_nil _ _ _ hq]
      exact ⟨rfl, fun hne => absurd hq hne⟩
    | cons m rest =>
      obtain ⟨⟨hmem, hcase⟩, hkeep⟩ := hstep r m rest hP hq
      rcases hcase with ⟨hret, hrest, -, -⟩ | ⟨hret, hblocked⟩
      · rw [drain_next hq hret, hmem]
        apply ih (hkeep hret)
        rw [hq, List.length_cons] at hn
        rw [hrest]
        omega
      · rw [drain_stop hq hret]
        exact ⟨hmem, fun _ => hblocked⟩

theorem interruptRxRing_blocked {r : Ring} (hsp : r.type = .connector → r.sponsor ≠ none) :
    (interruptRxRing r none).mem = none ∧ ((interruptRxRing r none).ring.Stream →
      (interruptRxRing r none).ring.queue ≠ [] → (interruptRxRing r none).ring.Blocked) := by
  rw [interruptRxRing]
  split
  · next hty => exact ⟨rfl, fun hs => by rcases hs with hs | hs <;> cases hty.symm.trans hs⟩
  · next hty => exact ⟨rfl, fun hs => by rcases hs with hs | hs <;> cases hty.symm.trans hs⟩
  · next hty =>
    have hdrain := drain_blocked connectorInterrupt
      (fun r => r.type = .connector ∧ r.sponsor ≠ none) ?_ ⟨hty, hsp hty⟩ (Nat.le_refl _)
    · exact ⟨hdrain.1, fun _ => hdrain.2⟩
    · rintro r m rest ⟨hty, hsp⟩ hq
      obtain ⟨p, hp⟩ := Option.ne_none_iff_exists'.mp hsp
      have hprog := connectorCase_progresses hty (connector_cases hp hq none)
      refine ⟨hprog, fun hret => ?_⟩
      rcases hprog.2 with ⟨-, -, hty', hsp'⟩ | ⟨hne, -⟩
      · exact ⟨hty'.trans hty, hsp' hsp⟩
      · exact absurd hret hne
  · next hty =>
    have hdrain := drain_blocked listenerInterrupt (fun r => r.type = .listener) ?_ hty
      (Nat.le_refl _)
    · exact ⟨hdrain.1, fun _ => hdrain.2⟩
    · intro r m rest hty hq
      have hprog := listenerCase_progresses hty (listener_cases hq none)
      refine ⟨hprog, fun hret => ?_⟩
      rcases hprog.2 with ⟨-, -, hty', -⟩ | ⟨hne, -⟩
      · exact hty'.trans hty
      · exact absurd hret hne

/-- **All rings.** -/
theorem interruptRx_blocked {rs : List Ring}
    (hsp : ∀ r ∈ rs, r.type = .connector → r.sponsor ≠ none) :
    ∀ r ∈ (interruptRx rs none).1, r.Stream → r.queue ≠ [] → r.Blocked := by
  induction rs with
  | nil =>
    intro r hr
    cases hr
  | cons r rs ih =>
    obtain ⟨hmem, hblocked⟩ := interruptRxRing_blocked (hsp r List.mem_cons_self)
    simp only [interruptRx, hmem, List.forall_mem_cons]
    exact ⟨hblocked, ih fun r' hr' => hsp r' (List.mem_cons_of_mem _ hr')⟩

/-! ## What is true of every ring -/

/-- The socket has begun to connect. -/
def SockState.Linked (st : SockState) : Prop :=
  st = .connecting ∨ st = .connected ∨ st = .disconnected

/-- The same sockets in the same roles: the interrupt handler may only have moved the sponsor
from one linked state to another. -/
structure SameShape (r r' : Ring) : Prop where
  type : r'.type = r.type
  privates : r'.privates.map Sock.ref = r.privates.map Sock.ref
  sponsor : r'.sponsor.map Sock.ref = r.sponsor.map Sock.ref
  state : ∀ p p', r.sponsor = some p → r'.sponsor = some p' →
    p'.state = p.state ∨ p.state.Linked ∧ p'.state.Linked

namespace SameShape

theorem refl (r : Ring) : SameShape r r := by
  refine ⟨rfl, rfl, rfl, fun p p' hp hp' => ?_⟩
  obtain rfl := Option.some.inj (hp.symm.trans hp')
  exact .inl rfl

/-- Only messages or the pending lists change. -/
theorem mapSocks {f : Sock → Sock} (hf : ∀ p, (f p).ref = p.ref ∧ (f p).state = p.state)
    (r : Ring) : SameShape r (r.mapSocks f) := by
  have href : Sock.ref ∘ f = Sock.ref := funext fun p => (hf p).1
  refine ⟨rfl, ?_, ?_, fun p p' hp hp' => .inl ?_⟩
  · rw [Ring.mapSocks, List.map_map, href]
  · rw [Ring.mapSocks, Option.map_map, href]
  · simp only [Ring.mapSocks, hp, Option.map_some, Option.some.injEq] at hp'
    rw [← hp', (hf p).2]

theorem setPending (r : Ring) (ref : Nat) (pending : List PendingRecv) :
    SameShape r (r.setPending ref pending) :=
  mapSocks (fun p => by split <;> exact ⟨rfl, rfl⟩) r

theorem setFull (r : Ring) (ref : Nat) : SameShape r (r.setFull ref) :=
  mapSocks (fun p => by split <;> exact ⟨rfl, rfl⟩) r

/-- Another sponsor in the place of the old one. -/
theorem ofSponsor {r : Ring} {p : Sock} (p' : Sock) (hp : r.sponsor = some p)
    (href : p'.ref = p.ref)
    (hst : p'.state = p.state ∨ p.state.Linked ∧ p'.state.Linked) (queue : List Message) :
    SameShape r { r with sponsor := some p', queue := queue } := by
  refine ⟨rfl, rfl, ?_, fun q q' hq hq' => ?_⟩
  · rw [hp]
    exact congrArg some href
  · obtain rfl := Option.some.inj (hp.symm.trans hq)
    obtain rfl := Option.some.inj hq'
    exact hst

end SameShape

theorem connectorStateMachine_linked (p : Sock) (sh : StreamHeader) :
    (connectorStateMachine p sh).2.state = p.state ∨
      p.state.Linked ∧ (connectorStateMachine p sh).2.state.Linked := by
  have hcase := machine_cases p sh
  generalize connectorStateMachine p sh = o at hcase
  cases hcase with
  | opened _ hst => exact .inr ⟨.inl hst, .inr (.inl rfl)⟩
  | confused _ hst => exact .inr ⟨.inr hst, .inr (.inr rfl)⟩
  | refused _ _ hst => exact .inr ⟨.inl hst, .inr (.inr rfl)⟩
  | closed _ _ hst => exact .inr ⟨.inr (.inl hst), .inr (.inr rfl)⟩
  | unmoved => exact .inl rfl

theorem connectorCase_shape {r : Ring} {p : Sock} {m : Message} {rest : List Message}
    {mem : Option Nat} {o : RingOut} (hp : r.sponsor = some p)
    (h : ConnectorCase r p m rest mem o) : SameShape r o.ring := by
  cases h with
  | binned | syn | stranger | padded =>
    exact ⟨rfl, rfl, rfl, (SameShape.refl r).state⟩
  | control =>
    exact .ofSponsor _ hp (connectorStateMachine_frame p _).1 (connectorStateMachine_linked p _)
      rest
  | data _ _ _ _ hcopy =>
    obtain ⟨href, -, -, hst⟩ := hcopy.frame
    exact .ofSponsor _ hp href (.inl hst) _

theorem listenerCase_shape {r : Ring} {m : Message} {rest : List Message} {mem : Option Nat}
    {o : RingOut} (h : ListenerCase r m rest mem o) : SameShape r o.ring := by
  cases h with
  | binned | dropped | unknown => exact ⟨rfl, rfl, rfl, (SameShape.refl r).state⟩
  | acceptor _ hpriv _ _ ho =>
    refine ⟨rfl, ?_, rfl, (SameShape.refl r).state⟩
    simp [hpriv, ho.frame.1]
  | @reset sh =>
    cases hp : r.sponsor with
    | none => exact ⟨rfl, rfl, by simp [hp], fun p _ h _ => by rw [hp] at h; cases h⟩
    | some p =>
      exact .ofSponsor (evictSyn sh.conid p) hp rfl (.inl rfl) rest
  | syn _ _ _ _ hp hcopy =>
    obtain ⟨href, -, -, hst⟩ := hcopy.frame
    exact .ofSponsor _ hp href (.inl hst) _

theorem handle_shape {r : Ring} {mem : Option Nat} {o : RingOut} (hne : r.queue ≠ [])
    (h : r.handle mem = some o) : SameShape r o.ring := by
  obtain ⟨m, rest, hq⟩ := List.exists_cons_of_ne_nil hne
  rw [Ring.handle] at h
  split at h
  · obtain rfl := Option.some.inj h
    cases hp : r.sponsor with
    | none =>
      rw [connectorInterrupt, hp]
      exact .refl r
    | some p => exact connectorCase_shape hp (connector_cases hp hq mem)
  · obtain rfl := Option.some.inj h
    exact listenerCase_shape (listener_cases hq mem)
  · cases h

namespace Endpoint

/-- What is true of every ring that has not been deleted. -/
structure Sound (E : Endpoint) : Prop where
  privates : E.ring.privates ≠ [] → E.ring.type = .listener
  inhabited : E.ring.sponsor = none → E.ring.privates ≠ []
  listening : ∀ p, E.ring.sponsor = some p → (p.state = .listening ↔ E.ring.type = .listener)
  accepting : ∀ t c, E.accepts t = some c → ∃ p, E.ring.sponsor = some p ∧ p.state = .listening
  refs : (E.ring.socks.map Sock.ref).Nodup

theorem Sound.sponsor_ne_none {E : Endpoint} (h : E.Sound) (hty : E.ring.type = .connector) :
    E.ring.sponsor ≠ none := by
  intro hnone
  have := h.privates (h.inhabited hnone)
  rw [hty] at this
  cases this

/-- A ring of the same shape, with the same accepts, is as sound. -/
theorem Sound.sameShape {E E' : Endpoint} (h : E.Sound) (hs : SameShape E.ring E'.ring)
    (hacc : E'.accepts = E.accepts) : E'.Sound := by
  have hpriv : E'.ring.privates ≠ [] ↔ E.ring.privates ≠ [] := by
    rw [ne_eq, ← List.map_eq_nil_iff (f := Sock.ref), hs.privates, List.map_eq_nil_iff]
  have hsome : ∀ p, E.ring.sponsor = some p → ∃ p', E'.ring.sponsor = some p' := by
    intro p hp
    have := hs.sponsor
    rw [hp, Option.map_some, Option.map_eq_some_iff] at this
    obtain ⟨p', hp', -⟩ := this
    exact ⟨p', hp'⟩
  have hback : ∀ p', E'.ring.sponsor = some p' → ∃ p, E.ring.sponsor = some p := by
    intro p' hp'
    have := hs.sponsor
    rw [hp', Option.map_some, eq_comm, Option.map_eq_some_iff] at this
    obtain ⟨p, hp, -⟩ := this
    exact ⟨p, hp⟩
  refine ⟨?_, ?_, ?_, ?_, ?_⟩
  · rw [hpriv, hs.type]
    exact h.privates
  · intro hnone
    rw [hpriv]
    apply h.inhabited
    cases hp : E.ring.sponsor with
    | none => rfl
    | some p =>
      obtain ⟨p', hp'⟩ := hsome p hp
      rw [hnone] at hp'
      cases hp'
  · intro p' hp'
    obtain ⟨p, hp⟩ := hback p' hp'
    rw [hs.type, ← h.listening p hp]
    rcases hs.state p p' hp hp' with hst | ⟨hst, hst'⟩
    · rw [hst]
    · rcases hst with hst | hst | hst <;> rcases hst' with hst' | hst' | hst' <;>
        rw [hst, hst'] <;> simp
  · intro t c hc
    rw [hacc] at hc
    obtain ⟨p, hp, hst⟩ := h.accepting t c hc
    obtain ⟨p', hp'⟩ := hsome p hp
    rcases hs.state p p' hp hp' with heq | ⟨hlinked, -⟩
    · exact ⟨p', hp', heq.trans hst⟩
    · rw [hst] at hlinked
      rcases hlinked with hl | hl | hl <;> cases hl
  · have hrefs : E'.ring.socks.map Sock.ref = E.ring.socks.map Sock.ref := by
      rw [Ring.socks, Ring.socks, List.map_append, List.map_append, hs.privates,
        ← Option.toList_map, ← Option.toList_map, hs.sponsor]
    rw [hrefs]
    exact h.refs

theorem Sound.eq_nil_of_bound {E : Endpoint} {p : Sock} (h : E.Sound)
    (hp : E.ring.sponsor = some p) (hst : p.state ≠ .listening) : E.ring.privates = [] := by
  by_contra hne
  exact hst ((h.listening p hp).mpr (h.privates hne))

theorem Sound.not_accepting {E : Endpoint} {p : Sock} (h : E.Sound)
    (hp : E.ring.sponsor = some p) (hst : p.state ≠ .listening) (t : Nat) : E.accepts t = none := by
  cases hc : E.accepts t with
  | none => rfl
  | some c =>
    obtain ⟨q, hq, hlist⟩ := h.accepting t c hc
    obtain rfl := Option.some.inj (hp.symm.trans hq)
    exact absurd hlist hst

/-- A sponsor that does not listen may get another type and state. -/
theorem Sound.retype {E : Endpoint} {p : Sock} (p' : Sock) {ty : RType} {connects : Nat → Bool}
    (h : E.Sound) (hp : E.ring.sponsor = some p) (hst : p.state ≠ .listening)
    (href : p'.ref = p.ref) (hlist : p'.state = .listening ↔ ty = .listener) :
    Sound { E with
      ring := { E.ring with type := ty, sponsor := some p' }, connects := connects } := by
  have hnil := h.eq_nil_of_bound hp hst
  refine ⟨fun hne => absurd hnil hne, fun hnone => (nomatch hnone), ?_, ?_, ?_⟩
  · rintro q ⟨⟩
    exact hlist
  · intro t c hc
    rw [h.not_accepting hp hst t] at hc
    cases hc
  · have hrefs := h.refs
    simp only [Ring.socks, hp, hnil, Option.toList_some, List.append_nil, List.map_singleton,
      href] at hrefs ⊢
    exact hrefs

/-- Other accepts, all of a socket that listens. -/
theorem Sound.setAccepts {E : Endpoint} {accepts : Nat → Option AcceptCall} (h : E.Sound)
    (hacc : ∀ t c, accepts t = some c → ∃ p, E.ring.sponsor = some p ∧ p.state = .listening) :
    Sound { E with accepts := accepts } :=
  ⟨h.privates, h.inhabited, h.listening, hacc, h.refs⟩

theorem Sound.updateAccepts {E : Endpoint} (h : E.Sound) (t : Nat) (c : Option AcceptCall)
    (hc : c ≠ none → ∃ p, E.ring.sponsor = some p ∧ p.state = .listening) :
    Sound { E with accepts := Function.update E.accepts t c } := by
  apply h.setAccepts
  intro t' c' hc'
  by_cases ht : t' = t
  · subst ht
    rw [Function.update_self] at hc'
    exact hc (by rw [hc']; exact Option.some_ne_none _)
  · rw [Function.update_of_ne ht] at hc'
    exact h.accepting t' c' hc'

/-! ## The calls keep it so -/

/-- The timer of a connect does not go off when the socket has become a listener. -/
def InTime (E : Endpoint) : EndAct → Prop
  | .respite _ => ∀ p, E.ring.sponsor = some p → p.state ≠ .listening
  | _ => True

theorem sound_of_connect {E : Endpoint} {p : Sock} {t : Nat} {peer : Addr} {conid : UInt32}
    {sent : Int} {nonblock : Bool} (h : E.Sound) (hp : E.ring.sponsor = some p) :
    (E.connect p t peer conid sent nonblock).Sound := by
  rw [connect]
  split
  · next hst =>
    have hbound : p.state ≠ .listening := by rw [hst]; decide
    split
    · exact h.retype { p with state := .connecting, conid := conid, peer := peer } hp hbound rfl
        (by simp)
    · exact h.retype { p with conid := conid, peer := peer } hp hbound rfl (by simp [hst])
  · split
    · exact h.sameShape (.refl _) rfl
    · exact h
  · exact h

theorem sound_of_connectWake {E E' : Endpoint} {p : Sock} {t : Nat} {signal : Bool} (h : E.Sound)
    (hp : E.ring.sponsor = some p) (hw : E.connectWake p t signal = some E') : E'.Sound := by
  rw [connectWake] at hw
  split at hw
  · split at hw
    · obtain rfl := Option.some.inj hw
      exact h.sameShape (.refl _) rfl
    · cases hw
  · obtain rfl := Option.some.inj hw
    exact h.sameShape (.refl _) rfl
  · next hst =>
    obtain rfl := Option.some.inj hw
    have hbusy : p.state ≠ .listening := by rw [hst]; decide
    exact h.retype { p with state := .bound } hp hbusy rfl (by simp)
  · cases hw

theorem sound_of_acceptPop {E E' : Endpoint} {p : Sock} {t : Nat} {nonblock : Bool} (h : E.Sound)
    (hp : E.ring.sponsor = some p) (hc : E.accepts t = some (.waiting nonblock))
    (ha : E.acceptPop p t nonblock = some E') : E'.Sound := by
  have hlist : p.state = .listening := by
    obtain ⟨q, hq, hst⟩ := h.accepting t _ hc
    obtain rfl := Option.some.inj (hp.symm.trans hq)
    exact hst
  rw [acceptPop] at ha
  split at ha
  · split at ha
    · obtain rfl := Option.some.inj ha
      exact h.updateAccepts t none fun hne => absurd rfl hne
    · cases ha
  · next e es hpend =>
    have hpopped : Sound { E with
        ring := { E.ring with sponsor := some { p with pendingRecv := es } } } :=
      h.sameShape (.ofSponsor { p with pendingRecv := es } hp rfl (.inl rfl) E.ring.queue) rfl
    dsimp only at ha
    split at ha
    · obtain rfl := Option.some.inj ha
      exact hpopped.updateAccepts t _ fun _ => ⟨_, rfl, hlist⟩
    · split at ha
      · obtain rfl := Option.some.inj ha
        exact hpopped.updateAccepts t none fun hne => absurd rfl hne
      · obtain rfl := Option.some.inj ha
        exact hpopped

theorem sound_of_acceptEnd {E : Endpoint} {t ref : Nat} {e : PendingRecv} {okay : Bool}
    (h : E.Sound) (hc : E.accepts t = some (.taken e))
    (hfresh : ∀ p ∈ E.ring.socks, p.ref ≠ ref) : (E.acceptEnd t e ref okay).Sound := by
  obtain ⟨p, hp, hst⟩ := h.accepting t _ hc
  have hty := (h.listening p hp).mp hst
  cases okay with
  | false => exact h.updateAccepts t none fun hne => absurd rfl hne
  | true =>
    have hjoined : Sound { E with ring := { E.ring with
        privates :=
          ⟨ref, .accepted, e.source, e.sh.conid, [], 0, false⟩ :: E.ring.privates } } := by
      refine ⟨fun _ => hty, fun _ => List.cons_ne_nil _ _, h.listening, h.accepting, ?_⟩
      have hrefs := h.refs
      simp only [Ring.socks, hp, Option.toList_some, List.singleton_append, List.map_cons,
        List.nodup_cons, List.mem_cons, not_or] at hrefs hfresh ⊢
      refine ⟨⟨hfresh p (.inl rfl), hrefs.1⟩, ?_, hrefs.2⟩
      intro hmem
      obtain ⟨q, hq, href⟩ := List.mem_map.mp hmem
      exact hfresh q (.inr hq) href
    exact hjoined.updateAccepts t none fun hne => absurd rfl hne

theorem sound_of_release {E : Endpoint} {ref : Nat} (h : E.Sound) (hun : E.Unused ref)
    (halive : (E.release ref).alive = true) : (E.release ref).Sound := by
  have hsub : ∀ p, E.ring.sponsor.filter (fun p => p.ref ≠ ref) = some p →
      E.ring.sponsor = some p := fun p hp => (Option.filter_eq_some_iff.mp hp).1
  have hstays : ∀ p, E.ring.sponsor = some p → p.ref ≠ ref →
      (E.release ref).ring.sponsor = some p := fun p hp hne =>
    Option.filter_eq_some_iff.mpr ⟨hp, by simpa using hne⟩
  refine ⟨?_, ?_, ?_, ?_, ?_⟩
  · intro hne
    apply h.privates
    rintro hnil
    exact hne (by rw [release, hnil]; rfl)
  · intro hnone hnil
    have halive : ((E.release ref).ring.sponsor.isSome ||
        !(E.release ref).ring.privates.isEmpty) = true := halive
    rw [hnone, hnil] at halive
    cases halive
  · exact fun p hp => h.listening p (hsub p hp)
  · intro t c hc
    obtain ⟨p, hp, hst⟩ := h.accepting t c hc
    refine ⟨p, hstays p hp fun href => ?_, hst⟩
    have hnone := (hun.2 ⟨p, hp, href⟩).1 t
    rw [show E.accepts t = some c from hc] at hnone
    cases hnone
  · refine h.refs.sublist (List.Sublist.map _ (List.Sublist.append ?_ (List.filter_sublist ..)))
    cases hp : E.ring.sponsor with
    | none => simp [release, hp]
    | some p =>
      by_cases href : p.ref = ref <;> simp [release, hp, href]

/-- **One step of a call.** -/
theorem Step.sound {E E' : Endpoint} {a : EndAct} (hs : E.Step a E') (h : E.Sound)
    (htime : E.InTime a) (halive : E'.alive = true) : E'.Sound := by
  cases hs with
  | @listen p hp =>
    rw [Endpoint.listen]
    split
    · next hst =>
      have hbound : p.state ≠ .listening := by rw [hst]; decide
      exact h.retype { p with state := .listening } hp hbound rfl (by simp)
    · exact h
  | connect hp _ => exact sound_of_connect h hp
  | connectWake hp _ hw => exact sound_of_connectWake h hp hw
  | @respite p t hp _ =>
    have hst := htime p hp
    refine h.retype { p with pendingError := -etimedout, state := .disconnected } hp hst rfl ?_
    rw [← h.listening p hp]
    exact ⟨fun hne => (nomatch hne), fun hlist => absurd hlist hst⟩
  | @accept p t nonblock hp hst _ => exact h.updateAccepts t _ fun _ => ⟨p, hp, hst⟩
  | acceptPop hp hc ha => exact sound_of_acceptPop h hp hc ha
  | acceptEnd hc hfresh _ => exact sound_of_acceptEnd h hc hfresh
  | acceptSignal hc => exact h.updateAccepts _ none fun hne => absurd rfl hne
  | recvfrom | recvReturn => exact h.sameShape (.refl _) rfl
  | recv => exact h.sameShape (.setPending ..) rfl
  | release _ hun => exact sound_of_release h hun halive

/-! ## A receive that will run the handlers -/

/-- A receive on this ring has taken an entry off a full list, and has not run the interrupt
handler since. -/
def Fakes (E : Endpoint) : Prop :=
  ∃ ref c, E.readers ref = some c ∧ c.scheduleIrq = true ∧ (c.phase = .copying ∨ c.phase = .faking)

theorem recvStep_fakes {p : Sock} {c : RecvCall} {signal : Bool} {o : RecvOut}
    (h : recvStep p c true signal = some o) (hirq : c.scheduleIrq = true)
    (hphase : c.phase = .copying ∨ c.phase = .faking) :
    ∃ c', o.next = .call c' ∧ c'.scheduleIrq = true ∧
      (c'.phase = .copying ∨ c'.phase = .faking) := by
  rcases hphase with hphase | hphase
  · have hcase := recvCopy_cases p c true
    rw [recvStep, hphase] at h
    obtain rfl := Option.some.inj h
    generalize recvCopy p c true = o at hcase
    cases hcase with
    | done => exact ⟨_, rfl, hirq, .inr (if_pos hirq)⟩
    | fault hno => cases hno
    | part => exact ⟨_, rfl, hirq, .inl hphase⟩
    | eat => exact ⟨_, rfl, by rw [hirq, Bool.true_or], .inl hphase⟩
  · rw [recvStep, hphase] at h
    cases h

theorem fakes_update {E E' : Endpoint} {ref : Nat} {c' : Option RecvCall}
    (hreaders : E'.readers = Function.update E.readers ref c')
    (hkeep : ∀ c, E.readers ref = some c → c.scheduleIrq = true →
      (c.phase = .copying ∨ c.phase = .faking) → ∃ c₁, c' = some c₁ ∧ c₁.scheduleIrq = true ∧
        (c₁.phase = .copying ∨ c₁.phase = .faking)) (h : E.Fakes) : E'.Fakes := by
  obtain ⟨ref₁, c, hc, hirq, hphase⟩ := h
  by_cases href : ref₁ = ref
  · subst href
    obtain ⟨c₁, rfl, hirq₁, hphase₁⟩ := hkeep c hc hirq hphase
    exact ⟨ref₁, c₁, by rw [hreaders, Function.update_self], hirq₁, hphase₁⟩
  · exact ⟨ref₁, c, by rw [hreaders, Function.update_of_ne href, hc], hirq, hphase⟩

/-- The other calls do not touch the receives. -/
theorem connect_readers (E : Endpoint) (p : Sock) (t : Nat) (peer : Addr) (conid : UInt32)
    (sent : Int) (nonblock : Bool) :
    (E.connect p t peer conid sent nonblock).readers = E.readers ∧
      (E.connect p t peer conid sent nonblock).alive = E.alive := by
  rw [connect]
  split
  · split <;> exact ⟨rfl, rfl⟩
  · split <;> exact ⟨rfl, rfl⟩
  · exact ⟨rfl, rfl⟩

theorem listen_readers (E : Endpoint) (p : Sock) :
    (E.listen p).readers = E.readers ∧ (E.listen p).alive = E.alive := by
  rw [listen]
  split <;> exact ⟨rfl, rfl⟩

theorem connectWake_readers {E E' : Endpoint} {p : Sock} {t : Nat} {signal : Bool}
    (h : E.connectWake p t signal = some E') : E'.readers = E.readers ∧ E'.alive = E.alive := by
  rw [connectWake] at h
  split at h
  · split at h
    · obtain rfl := Option.some.inj h; exact ⟨rfl, rfl⟩
    · cases h
  · obtain rfl := Option.some.inj h; exact ⟨rfl, rfl⟩
  · obtain rfl := Option.some.inj h; exact ⟨rfl, rfl⟩
  · cases h

/-- What the first half of an accept leaves: the ring as it is, or without the first entry of
the sponsor's list. -/
theorem acceptPop_ring {E E' : Endpoint} {p : Sock} {t : Nat} {nonblock : Bool}
    (h : E.acceptPop p t nonblock = some E') : E'.readers = E.readers ∧ E'.alive = E.alive ∧
      (E'.ring = E.ring ∨ ∃ es,
        E'.ring = { E.ring with sponsor := some { p with pendingRecv := es } }) := by
  rw [acceptPop] at h
  split at h
  · split at h
    · obtain rfl := Option.some.inj h; exact ⟨rfl, rfl, .inl rfl⟩
    · cases h
  · next e es _ =>
    dsimp only at h
    split at h
    · obtain rfl := Option.some.inj h; exact ⟨rfl, rfl, .inr ⟨es, rfl⟩⟩
    · split at h
      · obtain rfl := Option.some.inj h; exact ⟨rfl, rfl, .inr ⟨es, rfl⟩⟩
      · obtain rfl := Option.some.inj h; exact ⟨rfl, rfl, .inr ⟨es, rfl⟩⟩

theorem Fakes.congr {E E' : Endpoint} (h : E.Fakes) (heq : E'.readers = E.readers) : E'.Fakes := by
  obtain ⟨ref, c, hc, hirq, hphase⟩ := h
  exact ⟨ref, c, by rw [heq, hc], hirq, hphase⟩

/-- **One step of a call** does not make a receive forget. -/
theorem Step.fakes {E E' : Endpoint} {a : EndAct} (hs : E.Step a E') (h : E.Fakes) : E'.Fakes := by
  cases hs with
  | listen => exact h.congr (listen_readers ..).1
  | connect => exact h.congr (connect_readers ..).1
  | connectWake _ _ hw => exact h.congr (connectWake_readers hw).1
  | acceptPop _ _ ha => exact h.congr (acceptPop_ring ha).1
  | respite | accept | acceptEnd | acceptSignal | release => exact h.congr rfl
  | recvfrom _ hnone _ =>
    refine fakes_update rfl (fun c hc => ?_) h
    rw [hnone] at hc
    cases hc
  | recv _ hc ho hnext =>
    refine fakes_update rfl (fun c₁ hc₁ hirq hphase => ?_) h
    obtain rfl := Option.some.inj (hc.symm.trans hc₁)
    obtain ⟨c', hc', hrest⟩ := recvStep_fakes ho hirq hphase
    rw [hnext] at hc'
    obtain rfl := RecvNext.call.inj hc'
    exact ⟨_, rfl, hrest⟩
  | recvReturn _ hc ho hnext =>
    refine fakes_update rfl (fun c₁ hc₁ hirq hphase => ?_) h
    obtain rfl := Option.some.inj (hc.symm.trans hc₁)
    obtain ⟨c', hc', -⟩ := recvStep_fakes ho hirq hphase
    rw [hnext] at hc'
    cases hc'

/-! ## A ring that needs no pass -/

/-- The ring is empty, or blocked, or none of the interrupt handlers'. -/
def Driven (E : Endpoint) : Prop :=
  E.alive = true → E.ring.Stream → E.ring.queue ≠ [] → E.ring.Blocked

/-- The call leaves nothing behind: it does not hand a ring with messages to the handlers, and
it does not take an entry, a socket or the role of the target away from the socket that the
first message waits for. -/
def LeavesNothing (E : Endpoint) : EndAct → Prop
  | .listen => ∀ p, E.ring.sponsor = some p → p.state = .bound → E.ring.queue = []
  | .connect _ _ _ sent _ => sent = sizeofStreamHeader ∨ sent = 0 ∨ sent = -eagain →
    ∀ p, E.ring.sponsor = some p → p.state = .bound → E.ring.queue = []
  | .acceptPop _ => ∀ p q, E.ring.sponsor = some p → E.ring.waitsFor = some q → q.ref ≠ p.ref
  | .acceptEnd t _ okay => okay = true → ∀ e m rest sh data, E.accepts t = some (.taken e) →
    E.ring.queue = m :: rest → peekHeader m = some (sh, data) →
    ¬ (m.source = e.source ∧ sh.conid = e.sh.conid)
  | .release ref => (∃ p ∈ E.ring.socks, p.ref ≠ ref) →
    ∀ q, E.ring.waitsFor = some q → q.ref ≠ ref
  | _ => True

theorem Driven.congr {E E' : Endpoint} (h : E.Driven) (halive : E'.alive = E.alive)
    (hring : E'.ring = E.ring) : E'.Driven := by
  rw [Driven, halive, hring]
  exact h

theorem driven_of_acceptPop {E E' : Endpoint} {p : Sock} {t : Nat} {nonblock : Bool}
    (h : E.Driven) (hp : E.ring.sponsor = some p)
    (hok : ∀ p q, E.ring.sponsor = some p → E.ring.waitsFor = some q → q.ref ≠ p.ref)
    (ha : E.acceptPop p t nonblock = some E') : E'.Driven := by
  obtain ⟨-, halive, hring | ⟨es, hring⟩⟩ := acceptPop_ring ha
  · exact h.congr halive hring
  · intro hal hty hne
    rw [hring] at hty hne ⊢
    obtain ⟨q, hq, hlen, hfull⟩ := h (halive ▸ hal) hty hne
    -- the message does not wait for the sponsor, so its target is as it was
    have hmap : { E.ring with sponsor := some { p with pendingRecv := es } } =
        E.ring.mapBoth (fun q => { q with pendingRecv := es }) fun q => q := by
      rw [Ring.mapBoth, hp, List.map_id']
      rfl
    rw [hmap]
    rcases Ring.waitsFor_map (f := fun q => { q with pendingRecv := es }) (g := fun q => q)
      (fun _ => rfl) (fun _ => ⟨rfl, rfl⟩) hq with ⟨-, hin⟩ | ⟨hw, -⟩
    · obtain rfl := Option.some.inj (hp.symm.trans hin)
      exact absurd rfl (hok p p hp hq)
    · exact ⟨q, hw, hlen, hfull⟩

theorem driven_of_acceptEnd {E : Endpoint} {t ref : Nat} {e : PendingRecv} {okay : Bool}
    (h : E.Driven) (hc : E.accepts t = some (.taken e))
    (hok : okay = true → ∀ e m rest sh data, E.accepts t = some (.taken e) →
      E.ring.queue = m :: rest → peekHeader m = some (sh, data) →
      ¬ (m.source = e.source ∧ sh.conid = e.sh.conid)) : (E.acceptEnd t e ref okay).Driven := by
  cases okay with
  | false => exact h.congr rfl rfl
  | true =>
    intro hal hty hne
    obtain ⟨q, hq, hlen, hfull⟩ := h hal hty hne
    refine ⟨q, ?_, hlen, hfull⟩
    -- the new acceptor is not the first message's
    have hother : ∀ m rest sh data, E.ring.queue = m :: rest → peekHeader m = some (sh, data) →
        (E.acceptEnd t e ref true).ring.privates.find? (fun p => p.isPeer m.source sh.conid) =
          E.ring.privates.find? fun p => p.isPeer m.source sh.conid := by
      intro m rest sh data hqueue hpeek
      have hno := hok rfl e m rest sh data hc hqueue hpeek
      have hnew : Sock.isPeer ⟨ref, .accepted, e.source, e.sh.conid, [], 0, false⟩ m.source
          sh.conid = false := by
        simp only [Sock.isPeer, Bool.and_eq_false_iff, beq_eq_false_iff_ne]
        by_contra hboth
        simp only [not_or, not_not] at hboth
        exact hno ⟨hboth.2.symm, hboth.1.symm⟩
      exact List.find?_cons_of_neg (by rw [hnew]; simp)
    apply Ring.Awaits.waitsFor
    cases Ring.awaits_of_waitsFor hq with
    | connector hqueue hpeek hty hp hsyn hconid hctl =>
      exact .connector hqueue hpeek hty hp hsyn hconid hctl
    | acceptor hqueue hpeek hty hp hctl hrst =>
      exact .acceptor hqueue hpeek hty ((hother _ _ _ _ hqueue hpeek).trans hp) hctl hrst
    | listener hqueue hpeek hty hnone hrst hsyn hp =>
      exact .listener hqueue hpeek hty ((hother _ _ _ _ hqueue hpeek).trans hnone) hrst hsyn hp

theorem find?_filter_of_some {sel : Sock → Bool} (keep : Sock → Bool) {ps : List Sock} {q : Sock}
    (h : ps.find? sel = some q) (hq : keep q = true) : (ps.filter keep).find? sel = some q := by
  induction ps with
  | nil => cases h
  | cons p ps ih =>
    cases hsel : sel p with
    | true =>
      rw [List.find?_cons_of_pos hsel] at h
      obtain rfl := Option.some.inj h
      rw [List.filter_cons_of_pos hq, List.find?_cons_of_pos hsel]
    | false =>
      rw [List.find?_cons_of_neg (by simp [hsel])] at h
      cases hkeep : keep p with
      | true => rw [List.filter_cons_of_pos hkeep, List.find?_cons_of_neg (by simp [hsel]), ih h]
      | false => rw [List.filter_cons_of_neg (by simp [hkeep]), ih h]

theorem waitsFor_release {E : Endpoint} {ref : Nat} {q : Sock} (h : E.ring.waitsFor = some q)
    (hq : q.ref ≠ ref) : (E.release ref).ring.waitsFor = some q := by
  have hsp : ∀ p, E.ring.sponsor = some p → p.ref ≠ ref →
      E.ring.sponsor.filter (fun p => p.ref ≠ ref) = some p := fun p hp hne =>
    Option.filter_eq_some_iff.mpr ⟨hp, by simpa using hne⟩
  apply Ring.Awaits.waitsFor
  cases Ring.awaits_of_waitsFor h with
  | connector hqueue hpeek hty hp hsyn hconid hctl =>
    exact .connector hqueue hpeek hty (hsp q hp hq) hsyn hconid hctl
  | acceptor hqueue hpeek hty hp hctl hrst =>
    have hp' := find?_filter_of_some (fun p => p.ref ≠ ref) hp (by simpa using hq)
    exact .acceptor hqueue hpeek hty hp' hctl hrst
  | listener hqueue hpeek hty hnone hrst hsyn hp =>
    refine .listener hqueue hpeek hty ?_ hrst hsyn (hsp q hp hq)
    exact List.find?_eq_none.mpr fun x hx =>
      List.find?_eq_none.mp hnone x (List.mem_of_mem_filter hx)

theorem driven_of_release {E : Endpoint} {ref : Nat} (h : E.Driven) (hlive : E.alive = true)
    (hok : (∃ p ∈ E.ring.socks, p.ref ≠ ref) → ∀ q, E.ring.waitsFor = some q → q.ref ≠ ref) :
    (E.release ref).Driven := by
  intro hal hty hne
  obtain ⟨q, hq, hlen, hfull⟩ := h hlive hty hne
  have hother : ∃ p ∈ E.ring.socks, p.ref ≠ ref := by
    have hal : ((E.release ref).ring.sponsor.isSome ||
      !(E.release ref).ring.privates.isEmpty) = true := hal
    rcases Bool.or_eq_true_iff.mp hal with hsome | hsome
    · obtain ⟨p, hp⟩ := Option.isSome_iff_exists.mp hsome
      obtain ⟨hp, hne⟩ := Option.filter_eq_some_iff.mp hp
      exact ⟨p, List.mem_append_left _ (by simp [hp]), by simpa using hne⟩
    · have hpriv : (E.release ref).ring.privates ≠ [] := by simpa using hsome
      obtain ⟨p, hp⟩ := List.exists_mem_of_ne_nil _ hpriv
      obtain ⟨hp, hne⟩ := List.mem_filter.mp hp
      exact ⟨p, List.mem_append_right _ hp, by simpa using hne⟩
  exact ⟨q, waitsFor_release hq (hok hother q hq), hlen, hfull⟩

/-- A step of a receive keeps the length of the list, or takes an entry and, if the list was
marked full, is to run the handlers. -/
theorem recvStep_pending {p : Sock} {c : RecvCall} {signal : Bool} {o : RecvOut}
    (h : recvStep p c true signal = some o) :
    o.sock.pendingRecv.length = p.pendingRecv.length ∨
      ∃ c', o.next = .call c' ∧ c'.phase = .copying ∧ (p.full = true → c'.scheduleIrq = true) := by
  rcases recvStep_copies h with ⟨hsock, -⟩ | ⟨hphase, hcopy⟩
  · exact .inl (by rw [hsock])
  · cases hcopy with
    | done | fault => exact .inl rfl
    | part he => exact .inl (by rw [he]; rfl)
    | eat => exact .inr ⟨_, rfl, hphase, fun hfull => by rw [hfull, Bool.or_true]⟩

theorem Sound.eq_of_ref {E : Endpoint} (h : E.Sound) {p q : Sock} (hp : p ∈ E.ring.socks)
    (hq : q ∈ E.ring.socks) (href : p.ref = q.ref) : p = q :=
  List.inj_on_of_nodup_map h.refs hp hq href

theorem driven_of_recv {E : Endpoint} {p : Sock} {ref : Nat} {signal : Bool} {c c' : RecvCall}
    {o : RecvOut} (h : E.Driven) (hsound : E.Sound) (hp : E.ring.sock? ref = some p)
    (ho : recvStep p c true signal = some o) (hnext : o.next = .call c') :
    let E' := { E with
      ring := E.ring.setPending ref o.sock.pendingRecv
      readers := Function.update E.readers ref (some c') }
    E'.Driven ∨ E'.Fakes := by
  intro E'
  have hmem : p ∈ E.ring.socks := List.mem_of_find?_eq_some hp
  have href : p.ref = ref := by simpa using List.find?_some hp
  have hwaits : ∀ q, E.ring.waitsFor = some q → (E.ring.setPending ref
      o.sock.pendingRecv).waitsFor = some
        (if q.ref = ref then { q with pendingRecv := o.sock.pendingRecv } else q) := fun q hq =>
    Ring.waitsFor_mapSocks (fun x => by split <;> exact ⟨rfl, rfl⟩) hq
  -- the ring stays blocked if the list it waits for stays full
  have hstays : (p.pendingRecv.length > maxPendingRecvs → p.full = true →
      o.sock.pendingRecv.length > maxPendingRecvs) → E'.Driven := by
    intro hlist hal hty hne
    obtain ⟨q, hq, hlong, hfull⟩ := h hal hty hne
    refine ⟨_, hwaits q hq, ?_⟩
    split
    · next hqref =>
      obtain rfl := hsound.eq_of_ref hmem (Ring.waitsFor_mem hq) (href.trans hqref.symm)
      exact ⟨hlist hlong hfull, hfull⟩
    · exact ⟨hlong, hfull⟩
  rcases recvStep_pending ho with hlen | ⟨c₁, hc₁, hphase, hirq⟩
  · exact .inl (hstays fun hlong _ => by rw [hlen]; exact hlong)
  · rw [hnext] at hc₁
    obtain rfl := RecvNext.call.inj hc₁
    by_cases hmarked : p.full = true
    · exact .inr ⟨ref, c', Function.update_self .., hirq hmarked, .inl hphase⟩
    · exact .inl (hstays fun _ hfull => absurd hfull hmarked)

/-- **One step of a call** leaves the ring driven, or is by a receive that will run the
handlers. -/
theorem Step.driven {E E' : Endpoint} {a : EndAct} (hs : E.Step a E') (h : E.Driven)
    (hsound : E.Sound) (hlive : E.alive = true) (hok : E.LeavesNothing a) :
    E'.Driven ∨ E'.Fakes := by
  cases hs with
  | @listen p hp =>
    left
    rw [Endpoint.listen]
    split
    · next hst => exact fun _ _ hne => absurd (hok p hp hst) hne
    · exact h
  | @connect p t peer conid sent nonblock hp _ =>
    left
    rw [Endpoint.connect]
    split
    · next hst =>
      split
      · next hsent => exact fun _ _ hne => absurd (hok hsent p hp hst) hne
      · intro _ hty
        rcases hty with hty | hty <;> cases hty
    · split
      · exact h.congr rfl rfl
      · exact h
    · exact h
  | connectWake hp _ hw =>
    left
    rw [Endpoint.connectWake] at hw
    split at hw
    · split at hw
      · obtain rfl := Option.some.inj hw; exact h.congr rfl rfl
      · cases hw
    · obtain rfl := Option.some.inj hw; exact h.congr rfl rfl
    · obtain rfl := Option.some.inj hw
      intro _ hty
      rcases hty with hty | hty <;> cases hty
    · cases hw
  | @respite p t hp _ =>
    left
    intro hal hty hne
    obtain ⟨q, hq, hlen, hfull⟩ := h hal hty hne
    have hmap : (E.respite p).ring = E.ring.mapBoth
        (fun q => { q with pendingError := -etimedout, state := .disconnected }) fun q => q := by
      rw [Ring.mapBoth, hp, List.map_id']
      rfl
    rw [hmap]
    rcases Ring.waitsFor_map
      (f := fun q => { q with pendingError := -etimedout, state := .disconnected })
      (g := fun q => q) (fun _ => rfl) (fun _ => ⟨rfl, rfl⟩) hq with ⟨hw, -⟩ | ⟨hw, -⟩
    · exact ⟨_, hw, hlen, hfull⟩
    · exact ⟨_, hw, hlen, hfull⟩
  | accept | acceptSignal | recvfrom | recvReturn => exact .inl (h.congr rfl rfl)
  | acceptPop hp _ ha => exact .inl (driven_of_acceptPop h hp hok ha)
  | acceptEnd hc _ _ => exact .inl (driven_of_acceptEnd h hc hok)
  | recv hp _ ho hnext => exact driven_of_recv h hsound hp ho hnext
  | release => exact .inl (driven_of_release h hlive hok)

end Endpoint

end V4v.Linux
