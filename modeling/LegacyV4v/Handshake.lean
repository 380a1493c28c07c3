import LegacyV4v.Connection

/-! # The handshake

Two facts about the control messages of a connection carry all the rest.  The connector sends one
SYN, so that there is at most one acceptor, or one thing that can still become it.  And the ACK
is sent when the acceptor is in the list of its ring: until then the connector is not connected,
and has sent nothing that could reach the listener's ring too early and be thrown away. -/
namespace V4v.Linux

/-! ## What a message is -/

namespace Session

/-- The message is the connector's SYN, in the listener's ring. -/
def isSyn (x : Session) (m : Message) : Bool := x.owns m && header (fun sh => sh.has shfSyn) m

/-- The message is an ACK, in the connector's ring. -/
def isAck (x : Session) (m : Message) : Bool := x.names m && header (fun sh => sh.has shfAck) m

/-- The bytes that the connector has sent with this message in the listener's ring. -/
def data (x : Session) (m : Message) : List UInt8 :=
  match peekHeader m with
  | none => []
  | some (sh, data) =>
    if m.source = x.connector ∧ sh.conid = x.conid ∧ sh.plain = true then data else []

/-- The bytes that the acceptor has sent with this message in the connector's ring. -/
def reply (x : Session) (m : Message) : List UInt8 :=
  match peekHeader m with
  | none => []
  | some (sh, data) => if sh.conid = x.conid ∧ sh.plain = true then data else []

variable {x : Session} {m : Message} {sh : StreamHeader} {data : List UInt8}

theorem header_eq (f : StreamHeader → Bool) (h : peekHeader m = some (sh, data)) :
    header f m = f sh := by
  rw [header, h]

theorem owns_eq (h : peekHeader m = some (sh, data)) :
    x.owns m = (m.source == x.connector && sh.conid == x.conid) := by
  rw [owns, header_eq _ h]

theorem isSyn_eq (h : peekHeader m = some (sh, data)) :
    x.isSyn m = ((m.source == x.connector && sh.conid == x.conid) && sh.has shfSyn) := by
  rw [isSyn, owns_eq h, header_eq _ h]

theorem isAck_eq (h : peekHeader m = some (sh, data)) :
    x.isAck m = ((sh.conid == x.conid) && sh.has shfAck) := by
  rw [isAck, names, header_eq _ h, header_eq _ h]

theorem data_none (h : peekHeader m = none) : x.data m = [] := by rw [Session.data, h]

theorem reply_none (h : peekHeader m = none) : x.reply m = [] := by rw [reply, h]

theorem data_eq_nil (h : peekHeader m = some (sh, data)) (hno : sh.plain = false) :
    x.data m = [] := by
  rw [Session.data, h]
  exact if_neg fun hc => by simp [hno] at hc

theorem reply_eq_nil (h : peekHeader m = some (sh, data)) (hno : sh.plain = false) :
    x.reply m = [] := by
  rw [reply, h]
  exact if_neg fun hc => by simp [hno] at hc

/-- A message of another connection carries none of the connector's bytes, and is no SYN of it. -/
theorem data_of_owns (h : x.owns m = false) : x.data m = [] := by
  rw [Session.data]
  split
  · rfl
  · next sh data hpeek =>
    rw [owns_eq hpeek] at h
    refine if_neg fun hc => ?_
    simp [hc.1, hc.2.1] at h

theorem isSyn_of_owns (h : x.owns m = false) : x.isSyn m = false := by rw [isSyn, h, Bool.false_and]

theorem reply_of_names (h : x.names m = false) : x.reply m = [] := by
  rw [reply]
  split
  · rfl
  · next sh data hpeek =>
    rw [names, header_eq _ hpeek] at h
    refine if_neg fun hc => ?_
    simp [hc.1] at h

theorem isAck_of_names (h : x.names m = false) : x.isAck m = false := by
  rw [isAck, h, Bool.false_and]

end Session

theorem StreamHeader.plain_eq_false {sh : StreamHeader}
    (h : sh.has shfSyn = true ∨ sh.has shfAck = true ∨ sh.has shfRst = true) :
    sh.plain = false := by
  rw [StreamHeader.plain]
  rcases h with h | h | h <;> simp [h]

/-- A message of the driver's own with some control flag. -/
theorem streamMessage_control (x : Session) (source : Addr) (conid : UInt32) {flags : UInt32}
    (h : StreamHeader.plain ⟨flags, conid⟩ = false) :
    x.data (streamMessage source ⟨flags, conid⟩ []) = [] ∧
      x.reply (streamMessage source ⟨flags, conid⟩ []) = [] :=
  ⟨Session.data_eq_nil (peekHeader_streamMessage ..) h,
    Session.reply_eq_nil (peekHeader_streamMessage ..) h⟩

theorem Reset.message_control (x : Session) (y : Reset) :
    x.data y.message = [] ∧ x.reply y.message = [] ∧ x.isSyn y.message = false ∧
      x.isAck y.message = false := by
  have hpeek := peekHeader_streamMessage y.source.addr ⟨shfRst, y.conid⟩ []
  have hrst : StreamHeader.has ⟨shfRst, y.conid⟩ shfRst = true :=
    StreamHeader.has_of_flags _ (by decide)
  have hsyn : StreamHeader.has ⟨shfRst, y.conid⟩ shfSyn = false :=
    StreamHeader.has_of_flags _ (by decide)
  have hack : StreamHeader.has ⟨shfRst, y.conid⟩ shfAck = false :=
    StreamHeader.has_of_flags _ (by decide)
  obtain ⟨hdata, hreply⟩ := streamMessage_control x y.source.addr y.conid
    (StreamHeader.plain_eq_false (.inr (.inr hrst)))
  refine ⟨hdata, hreply, ?_, ?_⟩
  · rw [Reset.message, Session.isSyn_eq hpeek, hsyn, Bool.and_false]
  · rw [Reset.message, Session.isAck_eq hpeek, hack, Bool.and_false]

theorem mem_resetsTo {dest : Addr} {resets : List Reset} {m : Message}
    (h : m ∈ End.resetsTo dest resets) : ∃ y : Reset, m = y.message := by
  obtain ⟨y, -, rfl⟩ := List.mem_map.mp h
  exact ⟨y, rfl⟩

/-! ## What the handlers do to the sockets -/

/-- Only an ACK makes a connector connected. -/
theorem connectorStateMachine_state (p : Sock) (sh : StreamHeader) :
    (connectorStateMachine p sh).2.state = p.state ∨
      (connectorStateMachine p sh).2.state = .disconnected ∨
      (connectorStateMachine p sh).2.state = .connected ∧ sh.has shfAck = true := by
  have hcase := machine_cases p sh
  generalize connectorStateMachine p sh = o at hcase
  cases hcase with
  | opened hack => exact .inr (.inr ⟨rfl, hack⟩)
  | confused | refused | closed => exact .inr (.inl rfl)
  | unmoved => exact .inl rfl

/-- What a message can do to the connector, whose id is the session's. -/
theorem connectorCase_sponsor {r : Ring} {p : Sock} {m : Message} {rest : List Message}
    {mem : Option Nat} {o : RingOut} {x : Session} (hp : r.sponsor = some p)
    (hconid : p.conid = x.conid) (h : ConnectorCase r p m rest mem o) :
    ∃ p', o.ring.sponsor = some p' ∧ p'.conid = p.conid ∧ p'.peer = p.peer ∧
      (p'.state = p.state ∨ p'.state = .disconnected ∨
        p'.state = .connected ∧ x.isAck m = true) := by
  cases h with
  | binned | syn | stranger | padded => exact ⟨p, hp, rfl, rfl, .inl rfl⟩
  | @control sh hpeek _ hid _ =>
    obtain ⟨-, hc, hpeer, -⟩ := connectorStateMachine_frame p sh
    refine ⟨_, rfl, hc, hpeer, (connectorStateMachine_state p sh).imp id
      (Or.imp id fun ⟨hst, hack⟩ => ⟨hst, ?_⟩)⟩
    rw [Session.isAck_eq hpeek, hack, hid, hconid]
    simp
  | data _ _ _ _ hcopy =>
    obtain ⟨-, hc, hpeer, hst⟩ := hcopy.frame
    exact ⟨_, rfl, hc, hpeer, .inl hst⟩

/-! ## One SYN, one acceptor -/

/-- The SYNs of the connector in this ring and in its sponsor's list, and the acceptors. -/
def ringTokens (x : Session) (r : Ring) : Nat :=
  r.queue.countP x.isSyn + (r.sponsor.toList.flatMap Sock.pendingRecv).countP x.entry +
    r.privates.countP x.peer

theorem countP_split {α : Type} (f : α → Bool) {l l₁ l₂ : List α} {a : α}
    (h : l = l₁ ++ a :: l₂) : l.countP f = (l₁ ++ l₂).countP f + if f a then 1 else 0 := by
  rw [h, List.countP_append, List.countP_cons, List.countP_append, Nat.add_assoc]

theorem acceptorCase_peer {id : RingId} {p : Sock} {m : Message} {rest : List Message}
    {sh : StreamHeader} {data : List UInt8} {mem : Option Nat} {o : SockOut}
    (h : AcceptorCase id p m rest sh data mem o) (x : Session) : x.peer o.sock = x.peer p := by
  obtain ⟨-, hconid, hpeer⟩ := h.frame
  rw [Session.peer, Session.peer, Sock.isPeer, Sock.isPeer, hconid, hpeer]

theorem acceptorCase_queue {id : RingId} {p : Sock} {m : Message} {rest : List Message}
    {sh : StreamHeader} {data : List UInt8} {mem : Option Nat} {o : SockOut}
    (h : AcceptorCase id p m rest sh data mem o) : o.queue = rest ∨ o.queue = m :: rest := by
  rcases h.consumed with ⟨-, hqueue⟩ | ⟨-, -, hqueue⟩
  · exact .inl hqueue
  · exact .inr hqueue

theorem listenerCase_privates {r : Ring} {m : Message} {rest : List Message} {mem : Option Nat}
    {o : RingOut} (x : Session) (h : ListenerCase r m rest mem o) :
    o.ring.privates.countP x.peer = r.privates.countP x.peer := by
  cases h with
  | binned | reset | dropped | syn | unknown => rfl
  | acceptor _ hpriv _ _ ho =>
    simp only [hpriv, List.countP_append, List.countP_cons, acceptorCase_peer ho x]

/-- The handler does not make a SYN or an acceptor. -/
theorem listenerCase_tokens {r : Ring} {m : Message} {rest : List Message} {mem : Option Nat}
    {o : RingOut} (x : Session) (hq : r.queue = m :: rest) (h : ListenerCase r m rest mem o) :
    ringTokens x o.ring ≤ ringTokens x r := by
  have hless : rest.countP x.isSyn ≤ r.queue.countP x.isSyn := by
    rw [hq, List.countP_cons]
    exact Nat.le_add_right ..
  cases h with
  | binned | dropped | unknown =>
    simp only [ringTokens]
    omega
  | @acceptor sh data l₁ l₂ p o _ hpriv _ _ ho =>
    have hqueue : o.queue.countP x.isSyn ≤ r.queue.countP x.isSyn := by
      rcases acceptorCase_queue ho with h | h <;> rw [h]
      · exact hless
      · rw [hq]
    simp only [ringTokens, hpriv, List.countP_append, List.countP_cons, acceptorCase_peer ho x]
    omega
  | @reset sh =>
    have hevict :
        ((r.sponsor.map (evictSyn sh.conid)).toList.flatMap Sock.pendingRecv).countP x.entry ≤
          (r.sponsor.toList.flatMap Sock.pendingRecv).countP x.entry := by
      cases r.sponsor with
      | none => exact Nat.le_refl _
      | some p =>
        simp only [Option.map_some, Option.toList_some, List.flatMap_singleton]
        exact (List.eraseP_sublist).countP_le
    simp only [ringTokens]
    omega
  | @syn sh p c hpeek _ _ hsyn hp hcopy =>
    cases hcopy with
    | full | starved =>
      simp only [ringTokens, hp, hq, Option.toList_some, List.flatMap_singleton]
      exact Nat.le_refl _
    | copied =>
      -- the SYN moves from the ring to the list
      have hentry : x.entry ⟨m.source, sh, [], 0⟩ = x.isSyn m := by
        rw [Session.isSyn_eq hpeek, hsyn, Bool.and_true]
        rfl
      simp only [ringTokens, hp, hq, Option.toList_some, List.flatMap_singleton, List.tail_cons,
        List.countP_append, List.countP_cons, List.countP_nil, hentry]
      omega

namespace Link

/-- What is, or can still become, the acceptor. -/
def tokens (x : Session) (s : Link) : Nat :=
  s.conn.posted.countP x.isSyn + s.taken.countP x.entry + s.fresh.toList.countP x.peer +
    ringTokens x s.lsnr.ring

/-- The acceptor has been put in the list of its ring. -/
def Listed (x : Session) (s : Link) : Prop :=
  0 < s.lsnr.ring.privates.countP x.peer ∨ s.lsnr.closed = true

/-- The connector is not connected, will not be by a message on its way, and has sent nothing. -/
def Quiet (x : Session) (s : Link) : Prop :=
  (∀ p, s.conn.ring.sponsor = some p → p.state ≠ .connected) ∧ s.conn.write = none ∧
    (∀ m ∈ s.conn.ring.queue, x.isAck m = false) ∧ (∀ m ∈ s.lsnr.posted, x.isAck m = false) ∧
    ∀ m ∈ s.lsnr.ring.queue, x.data m = []

/-- **The invariant of the handshake.** -/
structure Handshake (x : Session) (s : Link) : Prop where
  addr : s.conn.ring.id.addr = x.connector
  listens : s.lsnr.ring.type = .listener
  connects : s.conn.ring.type ≠ .listener
  single : s.tokens x ≤ 1
  unsent : s.conn.ring.type = .idle → s.tokens x = 0
  bound : s.conn.ring.type = .idle → ∀ p, s.conn.ring.sponsor = some p → p.state = .bound
  named : s.conn.ring.type ≠ .idle → ∀ p, s.conn.ring.sponsor = some p →
    p.conid = x.conid ∧ p.peer = x.listener ∧ p.state ≠ .accepted
  writing : s.conn.write ≠ none → s.conn.ring.type ≠ .idle
  unheard : s.conn.ring.type = .idle → ∀ m ∈ s.conn.ring.queue, x.reply m = []
  fresh : ∀ p, s.fresh = some p → x.peer p = true
  connPosted : ∀ m ∈ s.conn.posted, x.data m = []
  lsnrPosted : ∀ m ∈ s.lsnr.posted, x.reply m = []
  order : s.Listed x ∨ s.Quiet x

theorem Handshake.init {x : Session} {s : Link} (h : s.Init x) : s.Handshake x := by
  have hqueue : s.lsnr.ring.queue.countP x.isSyn = 0 :=
    List.countP_eq_zero.mpr fun m hm => by simp [Session.isSyn_of_owns (h.lsnrQueue m hm)]
  have hpending : (s.lsnr.ring.sponsor.toList.flatMap Sock.pendingRecv).countP x.entry = 0 := by
    refine List.countP_eq_zero.mpr fun e he => ?_
    obtain ⟨p, hp, he⟩ := List.mem_flatMap.mp he
    simp [h.pending p (Option.mem_toList.mp hp) e he]
  have hprivates : s.lsnr.ring.privates.countP x.peer = 0 :=
    List.countP_eq_zero.mpr fun p hp => by simp [h.privates p hp]
  have htaken : s.taken.countP x.entry = 0 :=
    List.countP_eq_zero.mpr fun e he => by simp [h.taken e he]
  have htokens : s.tokens x = 0 := by
    rw [tokens, ringTokens, h.posted.1, h.fresh, hqueue, hpending, hprivates, htaken]
    rfl
  obtain ⟨p, hp, hst, -⟩ := h.bound
  have hbound : ∀ q, s.conn.ring.sponsor = some q → q.state = .bound := by
    intro q hq
    rw [hp] at hq
    obtain rfl := Option.some.inj hq
    exact hst
  refine ⟨h.addr, h.listens, by rw [h.type]; simp, by omega, fun _ => htokens, fun _ => hbound,
    fun hne => absurd h.type hne, fun hne => absurd h.calls.1 hne,
    fun _ m hm => Session.reply_of_names (h.connQueue m hm), ?_, ?_, ?_, .inr ?_⟩
  · intro p hp
    rw [h.fresh] at hp
    cases hp
  · rw [h.posted.1]
    exact fun m hm => (nomatch hm)
  · rw [h.posted.2]
    exact fun m hm => (nomatch hm)
  · refine ⟨fun q hq => by rw [hbound q hq]; decide, h.calls.1, ?_, ?_, ?_⟩
    · exact fun m hm => Session.isAck_of_names (h.connQueue m hm)
    · rw [h.posted.2]
      exact fun m hm => (nomatch hm)
    · exact fun m hm => Session.data_of_owns (h.lsnrQueue m hm)

/-! ## The connector's steps -/

namespace Handshake

variable {x : Session} {s : Link}

theorem type_ne_idle (h : s.Handshake x) (hpos : 0 < s.tokens x) : s.conn.ring.type ≠ .idle := by
  intro htype
  rw [h.unsent htype] at hpos
  exact Nat.lt_irrefl 0 hpos

theorem syn_control (x : Session) : x.data x.syn = [] ∧ x.isSyn x.syn = true := by
  have hpeek : peekHeader x.syn = some (⟨shfSyn, x.conid⟩, []) := peekHeader_streamMessage ..
  have hsyn : StreamHeader.has ⟨shfSyn, x.conid⟩ shfSyn = true :=
    StreamHeader.has_of_flags _ (by decide)
  refine ⟨Session.data_eq_nil hpeek (StreamHeader.plain_eq_false (.inl hsyn)), ?_⟩
  rw [Session.isSyn_eq hpeek, hsyn]
  simp [Session.syn, streamMessage]

/-- Fewer tokens. -/
theorem tokens_le {s' : Link} (h : s.Handshake x) (hle : s'.tokens x ≤ s.tokens x)
    (htype : s'.conn.ring.type = s.conn.ring.type) :
    s'.tokens x ≤ 1 ∧ (s'.conn.ring.type = .idle → s'.tokens x = 0) := by
  refine ⟨hle.trans h.single, fun hty => ?_⟩
  rw [htype] at hty
  rw [h.unsent hty] at hle
  exact Nat.le_zero.mp hle

theorem connect {p : Sock} (h : s.Handshake x) (htype : s.conn.ring.type = .idle) :
    Handshake x { s with conn := { s.conn with
      ring := { s.conn.ring with
        type := .connector
        sponsor := some { p with state := .connecting, conid := x.conid, peer := x.listener } }
      posted := s.conn.posted ++ [x.syn] } } := by
  have hzero := h.unsent htype
  refine { h with
    connects := fun hty => (nomatch hty), single := ?_, unsent := fun hty => (nomatch hty)
    bound := fun hty => (nomatch hty), named := ?_, writing := fun _ hty => (nomatch hty)
    unheard := fun hty => (nomatch hty), connPosted := ?_, order := ?_ }
  · simp only [tokens, List.countP_append, List.countP_singleton] at hzero ⊢
    split <;> omega
  · rintro - q ⟨⟩
    exact ⟨rfl, rfl, fun hst => (nomatch hst)⟩
  · intro m hm
    rcases List.mem_append.mp hm with hm | hm
    · exact h.connPosted m hm
    · rw [List.mem_singleton.mp hm]
      exact (syn_control x).1
  · refine h.order.imp id fun hq => ⟨?_, hq.2⟩
    rintro q ⟨⟩ hst
    cases hst

/-- A control message of the connector is not sent any more. -/
theorem connDropped {m : Message} {l₁ l₂ : List Message} (h : s.Handshake x)
    (hposted : s.conn.posted = l₁ ++ m :: l₂) :
    Handshake x { s with conn := { s.conn with posted := l₁ ++ l₂ } } := by
  have hle : tokens x { s with conn := { s.conn with posted := l₁ ++ l₂ } } ≤ s.tokens x := by
    simp only [tokens, countP_split x.isSyn hposted]
    omega
  obtain ⟨hsingle, hunsent⟩ := h.tokens_le hle rfl
  refine { h with single := hsingle, unsent := hunsent, connPosted := fun m' hm' => ?_ }
  apply h.connPosted
  rw [hposted]
  rcases List.mem_append.mp hm' with hm' | hm'
  · exact List.mem_append_left _ hm'
  · exact List.mem_append_right _ (List.mem_cons_of_mem _ hm')

/-- The sponsor gets another state, in which it is not connected. -/
theorem restate {p : Sock} (p' : Sock) {ty : RType} (h : s.Handshake x)
    (hp : s.conn.ring.sponsor = some p)
    (htype : s.conn.ring.type ≠ .idle) (hty : ty ≠ .idle ∧ ty ≠ .listener)
    (hsame : p'.conid = p.conid ∧ p'.peer = p.peer)
    (hst : p'.state ≠ .accepted ∧ p'.state ≠ .connected) :
    Handshake x { s with conn := { s.conn with
      ring := { s.conn.ring with type := ty, sponsor := some p' } } } := by
  obtain ⟨hconid, hpeer, -⟩ := h.named htype p hp
  refine { h with
    connects := hty.2, unsent := fun hidle => absurd hidle hty.1
    bound := fun hidle => absurd hidle hty.1, named := ?_, writing := fun _ => hty.1
    unheard := fun hidle => absurd hidle hty.1, order := ?_ }
  · rintro - q ⟨⟩
    exact ⟨hsame.1.trans hconid, hsame.2.trans hpeer, hst.1⟩
  · refine h.order.imp id fun hq => ⟨?_, hq.2⟩
    rintro q ⟨⟩
    exact hst.2

theorem connectFail {p : Sock} {l₁ l₂ : List Message} (h : s.Handshake x)
    (hp : s.conn.ring.sponsor = some p) (hposted : s.conn.posted = l₁ ++ x.syn :: l₂) :
    Handshake x { s with conn := { s.conn with
      ring := { s.conn.ring with type := .dgram, sponsor := some { p with state := .bound } }
      posted := l₁ ++ l₂ } } := by
  have hpos : 0 < s.tokens x := by
    simp only [tokens, countP_split x.isSyn hposted, (syn_control x).2, if_true]
    omega
  exact (h.connDropped hposted).restate { p with state := .bound } hp (h.type_ne_idle hpos)
    ⟨by simp, by simp⟩ ⟨rfl, rfl⟩ ⟨by simp, by simp⟩

/-! ## The interrupt handlers -/

theorem conn_reset_ok (h : s.Handshake x) (resets : List Reset) :
    ∀ m ∈ s.conn.posted ++ End.resetsTo x.listener resets, x.data m = [] := by
  intro m hm
  rcases List.mem_append.mp hm with hm | hm
  · exact h.connPosted m hm
  · obtain ⟨y, rfl⟩ := mem_resetsTo hm
    exact (y.message_control x).1

theorem lsnr_reset_ok (h : s.Handshake x) (resets : List Reset) :
    ∀ m ∈ s.lsnr.posted ++ End.resetsTo x.connector resets, x.reply m = [] := by
  intro m hm
  rcases List.mem_append.mp hm with hm | hm
  · exact h.lsnrPosted m hm
  · obtain ⟨y, rfl⟩ := mem_resetsTo hm
    exact (y.message_control x).2.1

theorem countP_resetsTo (x : Session) (dest : Addr) (resets : List Reset) :
    (End.resetsTo dest resets).countP x.isSyn = 0 := by
  refine List.countP_eq_zero.mpr fun m hm => ?_
  obtain ⟨y, rfl⟩ := mem_resetsTo hm
  simp [(y.message_control x).2.2.1]

/-- RSTs are no ACKs. -/
theorem not_ack_resetsTo {posted : List Message} {dest : Addr} {resets : List Reset}
    (h : ∀ m ∈ posted, x.isAck m = false) :
    ∀ m ∈ posted ++ End.resetsTo dest resets, x.isAck m = false := by
  intro m hm
  rcases List.mem_append.mp hm with hm | hm
  · exact h m hm
  · obtain ⟨y, rfl⟩ := mem_resetsTo hm
    exact (y.message_control x).2.2.2

theorem conn_handle {mem : Option Nat} {o : RingOut} (h : s.Handshake x)
    (ho : s.conn.ring.handle mem = some o) :
    s.conn.ring.type = .connector ∧ connectorInterrupt s.conn.ring mem = o := by
  rw [Ring.handle] at ho
  split at ho
  · next htype => exact ⟨htype, Option.some.inj ho⟩
  · next htype => exact absurd htype h.connects
  · cases ho

/-- The sponsor keeps its connection, and is connected by an ACK only. -/
theorem conn_handle_sponsor {mem : Option Nat} {o : RingOut} {p' : Sock} (h : s.Handshake x)
    (hne : s.conn.ring.queue ≠ []) (ho : s.conn.ring.handle mem = some o)
    (hp' : o.ring.sponsor = some p') :
    (p'.conid = x.conid ∧ p'.peer = x.listener ∧ p'.state ≠ .accepted) ∧
      (s.Quiet x → p'.state ≠ .connected) := by
  obtain ⟨m, rest, hq⟩ := List.exists_cons_of_ne_nil hne
  obtain ⟨htype, ho⟩ := h.conn_handle ho
  cases hp : s.conn.ring.sponsor with
  | none =>
    rw [connectorInterrupt, hp] at ho
    rw [← ho] at hp'
    rw [show s.conn.ring.sponsor = _ from hp'] at hp
    cases hp
  | some p =>
    obtain ⟨hconid, hpeer, hacc⟩ := h.named (by rw [htype]; simp) p hp
    have hcase := connector_cases hp hq mem
    rw [ho] at hcase
    obtain ⟨p₁, hp₁, hc, hpr, hst⟩ := connectorCase_sponsor (x := x) hp hconid hcase
    obtain rfl := Option.some.inj (hp'.symm.trans hp₁)
    refine ⟨⟨hc.trans hconid, hpr.trans hpeer, ?_⟩, fun hquiet => ?_⟩
    · rcases hst with hst | hst | ⟨hst, -⟩ <;> rw [hst]
      · exact hacc
      · simp
      · simp
    · rcases hst with hst | hst | ⟨-, hack⟩
      · rw [hst]
        exact hquiet.1 p hp
      · rw [hst]
        simp
      · rw [hquiet.2.2.1 m (by rw [hq]; exact List.mem_cons_self)] at hack
        cases hack

/-- A handler adds no message. -/
theorem handle_subset {r : Ring} {mem : Option Nat} {o : RingOut} (hne : r.queue ≠ [])
    (ho : r.handle mem = some o) : ∀ m ∈ o.ring.queue, m ∈ r.queue := by
  obtain ⟨m, rest, hq⟩ := List.exists_cons_of_ne_nil hne
  intro m' hm'
  rw [hq]
  rcases handle_consumed hq ho with ⟨-, hq'⟩ | ⟨-, -, hq'⟩
  · exact List.mem_cons_of_mem _ (hq' ▸ hm')
  · exact hq' ▸ hm'

theorem connIrq {mem : Option Nat} {o : RingOut} (h : s.Handshake x)
    (hne : s.conn.ring.queue ≠ []) (ho : s.conn.ring.handle mem = some o) :
    Handshake x { s with conn := s.conn.handled x.listener o } := by
  have hsponsor := fun p' (hp' : o.ring.sponsor = some p') => h.conn_handle_sponsor hne ho hp'
  have hqueue := handle_subset hne ho
  obtain ⟨htype, ho⟩ := h.conn_handle ho
  obtain ⟨hid, hty, -⟩ := connectorInterrupt_frame s.conn.ring mem
  rw [ho] at hid hty
  have htokens : tokens x { s with conn := s.conn.handled x.listener o } = s.tokens x := by
    simp only [tokens, End.handled, List.countP_append, countP_resetsTo, Nat.add_zero]
  have hty' : (s.conn.handled x.listener o).ring.type = .connector := hty.trans htype
  refine ⟨by rw [← h.addr, ← hid]; rfl, h.listens, by rw [hty']; simp, htokens.le.trans h.single,
    ?_, ?_, fun _ p' hp' => (hsponsor p' hp').1, fun _ => by rw [hty']; simp, ?_, h.fresh,
    h.conn_reset_ok _, h.lsnrPosted, ?_⟩
  · exact fun hno => (nomatch hty'.symm.trans hno)
  · exact fun hno => (nomatch hty'.symm.trans hno)
  · exact fun hno => (nomatch hty'.symm.trans hno)
  · refine h.order.imp id fun hq => ⟨fun p' hp' => (hsponsor p' hp').2 hq, hq.2.1, ?_, hq.2.2.2⟩
    exact fun m' hm' => hq.2.2.1 m' (hqueue m' hm')

theorem lsnrIrq {mem : Option Nat} {o : RingOut} (h : s.Handshake x)
    (hne : s.lsnr.ring.queue ≠ []) (ho : s.lsnr.ring.handle mem = some o) :
    Handshake x { s with lsnr := s.lsnr.handled x.connector o } := by
  obtain ⟨m, rest, hq⟩ := List.exists_cons_of_ne_nil hne
  have hqueue := handle_subset hne ho
  have hcase := listener_cases hq mem
  rw [Ring.handle, h.listens] at ho
  obtain rfl := Option.some.inj ho
  have hle := listenerCase_tokens x hq hcase
  have htokens : tokens x { s with
      lsnr := s.lsnr.handled x.connector (listenerInterrupt s.lsnr.ring mem) } ≤ s.tokens x := by
    simp only [tokens, End.handled]
    omega
  obtain ⟨hsingle, hunsent⟩ := h.tokens_le htokens rfl
  refine { h with
    listens := hcase.frame.2.trans h.listens, single := hsingle, unsent := hunsent
    lsnrPosted := h.lsnr_reset_ok _, order := ?_ }
  rcases h.order with (hpos | hclosed) | hquiet
  · refine .inl (.inl ?_)
    rw [← listenerCase_privates x hcase] at hpos
    exact hpos
  · exact .inl (.inr hclosed)
  · refine .inr ⟨hquiet.1, hquiet.2.1, hquiet.2.2.1, not_ack_resetsTo hquiet.2.2.2.1, ?_⟩
    exact fun m' hm' => hquiet.2.2.2.2 m' (hqueue m' hm')

/-! ## Marks, and messages on their way -/

/-- A mark on a socket of the connector's ring. -/
theorem connFull {ref : Nat} (h : s.Handshake x) :
    Handshake x { s with conn := { s.conn with ring := s.conn.ring.setFull ref } } := by
  have hsponsor : ∀ p', (s.conn.ring.setFull ref).sponsor = some p' → ∃ p,
      s.conn.ring.sponsor = some p ∧ p'.conid = p.conid ∧ p'.peer = p.peer ∧
        p'.state = p.state := by
    intro p' hp'
    obtain ⟨p, hp, rfl⟩ := Option.map_eq_some_iff.mp hp'
    refine ⟨p, hp, ?_⟩
    split <;> exact ⟨rfl, rfl, rfl⟩
  refine { h with bound := ?_, named := ?_, order := ?_ }
  · intro hty p' hp'
    obtain ⟨p, hp, -, -, hst⟩ := hsponsor p' hp'
    exact hst.trans (h.bound hty p hp)
  · intro hty p' hp'
    obtain ⟨p, hp, hc, hpr, hst⟩ := hsponsor p' hp'
    obtain ⟨hconid, hpeer, hacc⟩ := h.named hty p hp
    exact ⟨hc.trans hconid, hpr.trans hpeer, hst ▸ hacc⟩
  · refine h.order.imp id fun hq => ⟨fun p' hp' => ?_, hq.2⟩
    obtain ⟨p, hp, -, -, hst⟩ := hsponsor p' hp'
    rw [hst]
    exact hq.1 p hp

theorem countP_map_peer {f : Sock → Sock} (hf : ∀ p, x.peer (f p) = x.peer p) (ps : List Sock) :
    (ps.map f).countP x.peer = ps.countP x.peer := by
  rw [List.countP_map, show x.peer ∘ f = x.peer from funext hf]

theorem lsnrFull {ref : Nat} (h : s.Handshake x) :
    Handshake x { s with lsnr := { s.lsnr with ring := s.lsnr.ring.setFull ref } } := by
  have hpeer : ∀ p : Sock,
      x.peer (if p.ref = ref then { p with full := true } else p) = x.peer p := by
    intro p
    split <;> rfl
  have hprivates : (s.lsnr.ring.setFull ref).privates.countP x.peer =
      s.lsnr.ring.privates.countP x.peer := countP_map_peer hpeer _
  have hpending : (s.lsnr.ring.setFull ref).sponsor.toList.flatMap Sock.pendingRecv =
      s.lsnr.ring.sponsor.toList.flatMap Sock.pendingRecv := by
    cases hp : s.lsnr.ring.sponsor with
    | none => simp [Ring.setFull, Ring.mapSocks, hp]
    | some p =>
      simp only [Ring.setFull, Ring.mapSocks, hp, Option.map_some, Option.toList_some,
        List.flatMap_singleton]
      split <;> rfl
  have htokens : tokens x { s with lsnr := { s.lsnr with ring := s.lsnr.ring.setFull ref } } =
      s.tokens x := by
    rw [tokens, tokens, ringTokens, ringTokens, hprivates, hpending]
    rfl
  obtain ⟨hsingle, hunsent⟩ := h.tokens_le htokens.le rfl
  refine { h with single := hsingle, unsent := hunsent, order := h.order.imp ?_ id }
  exact Or.imp (fun hpos => hprivates.symm ▸ hpos) id

theorem mem_push {queue : List Message} {m : Message} {P : Message → Prop}
    (h : ∀ m ∈ queue, P m) (hm : P m) : ∀ m' ∈ queue ++ [m], P m' := by
  intro m' hm'
  rcases List.mem_append.mp hm' with hm' | hm'
  · exact h m' hm'
  · exact List.mem_singleton.mp hm' ▸ hm

/-- A message that is no ACK arrives at the connector, and none for it before it connects. -/
theorem connPush {m : Message} (h : s.Handshake x) (hm : s.Quiet x → x.isAck m = false)
    (hreply : s.conn.ring.type = .idle → x.reply m = []) :
    Handshake x { s with conn := s.conn.push m } := by
  refine { h with
    unheard := fun hidle => mem_push (h.unheard hidle) (hreply hidle)
    order := h.order.imp id fun hq => ?_ }
  exact ⟨hq.1, hq.2.1, mem_push hq.2.2.1 (hm hq), hq.2.2.2⟩

theorem tokens_push (x : Session) (s : Link) (m : Message) :
    tokens x { s with lsnr := s.lsnr.push m } = s.tokens x + if x.isSyn m then 1 else 0 := by
  simp only [tokens, ringTokens, End.push, List.countP_append, List.countP_singleton]
  omega

/-- A message that is no SYN of the connector arrives at the listener. -/
theorem lsnrPush {m : Message} (h : s.Handshake x) (hsyn : x.isSyn m = false)
    (hdata : s.Listed x ∨ x.data m = []) : Handshake x { s with lsnr := s.lsnr.push m } := by
  have htokens : tokens x { s with lsnr := s.lsnr.push m } = s.tokens x := by
    rw [tokens_push, hsyn]
    rfl
  obtain ⟨hsingle, hunsent⟩ := h.tokens_le htokens.le rfl
  refine { h with single := hsingle, unsent := hunsent, order := ?_ }
  rcases hdata with hlisted | hdata
  · exact .inl hlisted
  · refine h.order.imp id fun hq => ?_
    exact ⟨hq.1, hq.2.1, hq.2.2.1, hq.2.2.2.1, mem_push hq.2.2.2.2 hdata⟩

theorem connPostedStep {m : Message} {l₁ l₂ : List Message} (h : s.Handshake x)
    (hposted : s.conn.posted = l₁ ++ m :: l₂) : Handshake x { s with
      conn := { s.conn with posted := l₁ ++ l₂ }, lsnr := s.lsnr.push m } := by
  have hdata : x.data m = [] :=
    h.connPosted m (by rw [hposted]; exact List.mem_append_right _ List.mem_cons_self)
  have htokens : tokens x { s with
      conn := { s.conn with posted := l₁ ++ l₂ }, lsnr := s.lsnr.push m } = s.tokens x := by
    simp only [tokens, ringTokens, End.push, countP_split x.isSyn hposted, List.countP_append,
      List.countP_singleton]
    omega
  obtain ⟨hsingle, hunsent⟩ := h.tokens_le htokens.le rfl
  refine { h.connDropped hposted with
    listens := h.listens, single := hsingle, unsent := hunsent, lsnrPosted := h.lsnrPosted
    order := h.order.imp id fun hq => ?_ }
  exact ⟨hq.1, hq.2.1, hq.2.2.1, hq.2.2.2.1, mem_push hq.2.2.2.2 hdata⟩

theorem lsnrDropped {m : Message} {l₁ l₂ : List Message} (h : s.Handshake x)
    (hposted : s.lsnr.posted = l₁ ++ m :: l₂) :
    Handshake x { s with lsnr := { s.lsnr with posted := l₁ ++ l₂ } } := by
  have hsub : ∀ m' ∈ l₁ ++ l₂, m' ∈ s.lsnr.posted := by
    intro m' hm'
    rw [hposted]
    rcases List.mem_append.mp hm' with hm' | hm'
    · exact List.mem_append_left _ hm'
    · exact List.mem_append_right _ (List.mem_cons_of_mem _ hm')
  refine { h with
    lsnrPosted := fun m' hm' => h.lsnrPosted m' (hsub m' hm')
    order := h.order.imp id fun hq => ?_ }
  exact ⟨hq.1, hq.2.1, hq.2.2.1, fun m' hm' => hq.2.2.2.1 m' (hsub m' hm'), hq.2.2.2.2⟩

theorem lsnrPostedStep {m : Message} {l₁ l₂ : List Message} (h : s.Handshake x)
    (hposted : s.lsnr.posted = l₁ ++ m :: l₂) : Handshake x { s with
      lsnr := { s.lsnr with posted := l₁ ++ l₂ }, conn := s.conn.push m } := by
  have hm : m ∈ s.lsnr.posted := by
    rw [hposted]
    exact List.mem_append_right _ List.mem_cons_self
  have hpushed := h.connPush (m := m) (fun hq => hq.2.2.2.1 m hm) fun _ => h.lsnrPosted m hm
  exact hpushed.lsnrDropped hposted

/-! ## The listener's ring -/

/-- The listener's end loses tokens at most; no acceptor goes, and no ACK comes. -/
theorem lsnr_of_le {s' : Link} (h : s.Handshake x) (hconn : s'.conn = s.conn)
    (htype : s'.lsnr.ring.type = s.lsnr.ring.type) (hle : s'.tokens x ≤ s.tokens x)
    (hprivates : s.lsnr.ring.privates.countP x.peer ≤ s'.lsnr.ring.privates.countP x.peer)
    (hclosed : s'.lsnr.closed = s.lsnr.closed) (hqueue : s'.lsnr.ring.queue = s.lsnr.ring.queue)
    (hfresh : ∀ p, s'.fresh = some p → x.peer p = true)
    (hposted : ∀ m ∈ s'.lsnr.posted, x.reply m = [])
    (hack : s.Quiet x → ∀ m ∈ s'.lsnr.posted, x.isAck m = false) : s'.Handshake x := by
  obtain ⟨hsingle, hunsent⟩ := h.tokens_le hle (by rw [hconn])
  refine ⟨by rw [hconn]; exact h.addr, htype.trans h.listens, by rw [hconn]; exact h.connects,
    hsingle, hunsent, by rw [hconn]; exact h.bound, by rw [hconn]; exact h.named,
    by rw [hconn]; exact h.writing, by rw [hconn]; exact h.unheard, hfresh,
    by rw [hconn]; exact h.connPosted, hposted, ?_⟩
  rcases h.order with (hpos | hcl) | hq
  · exact .inl (.inl (hpos.trans_le hprivates))
  · exact .inl (.inr (hclosed.trans hcl))
  · refine .inr ⟨?_, ?_, ?_, hack hq, ?_⟩
    · rw [hconn]; exact hq.1
    · rw [hconn]; exact hq.2.1
    · rw [hconn]; exact hq.2.2.1
    · rw [hqueue]; exact hq.2.2.2.2

/-- An acceptor is what a SYN of the connector becomes. -/
theorem peer_newSock (ref : Nat) (e : PendingRecv) : x.peer (newSock ref e) = x.entry e := by
  rw [Session.peer, Sock.isPeer, Session.entry, Bool.and_comm]
  rfl

theorem acceptPop {p : Sock} {e : PendingRecv} {es : List PendingRecv} (h : s.Handshake x)
    (hp : s.lsnr.ring.sponsor = some p) (hpend : p.pendingRecv = e :: es) :
    Handshake x { s with
      lsnr := s.lsnr.setSponsor (some { p with pendingRecv := es })
      taken := if e.data = [] ∧ e.sh.has shfSyn = true then e :: s.taken else s.taken } := by
  refine h.lsnr_of_le rfl rfl ?_ (Nat.le_refl _) rfl rfl h.fresh h.lsnrPosted fun hq => hq.2.2.2.1
  simp only [tokens, ringTokens, End.setSponsor, hp, Option.toList_some, List.flatMap_singleton,
    hpend, List.countP_cons]
  split
  · rw [List.countP_cons]
    omega
  · omega

theorem acceptFail {e : PendingRecv} {l₁ l₂ : List PendingRecv} (h : s.Handshake x)
    (htaken : s.taken = l₁ ++ e :: l₂) : Handshake x { s with taken := l₁ ++ l₂ } := by
  refine h.lsnr_of_le rfl rfl ?_ (Nat.le_refl _) rfl rfl h.fresh h.lsnrPosted fun hq => hq.2.2.2.1
  simp only [tokens, countP_split x.entry htaken]
  omega

theorem acceptFile {e : PendingRecv} {l₁ l₂ : List PendingRecv} {ref : Nat} (h : s.Handshake x)
    (htaken : s.taken = l₁ ++ e :: l₂) (he : x.entry e = true) :
    Handshake x { s with taken := l₁ ++ l₂, fresh := some (newSock ref e) } := by
  refine h.lsnr_of_le rfl rfl ?_ (Nat.le_refl _) rfl rfl ?_ h.lsnrPosted fun hq => hq.2.2.2.1
  · simp only [tokens, countP_split x.entry htaken, he, if_true, Option.toList_some,
      List.countP_singleton, peer_newSock]
    omega
  · rintro q ⟨⟩
    exact (peer_newSock ref e).trans he

theorem acceptList {p : Sock} (h : s.Handshake x) (hfresh : s.fresh = some p) :
    Handshake x { s with
      fresh := none
      lsnr := { s.lsnr.setPrivates (p :: s.lsnr.ring.privates) with
        posted := s.lsnr.posted ++ [x.ack] } } := by
  have hp := h.fresh p hfresh
  have htokens : tokens x { s with
      fresh := none
      lsnr := { s.lsnr.setPrivates (p :: s.lsnr.ring.privates) with
        posted := s.lsnr.posted ++ [x.ack] } } = s.tokens x := by
    simp only [tokens, ringTokens, End.setPrivates, hfresh, Option.toList_some, Option.toList_none,
      List.countP_nil, List.countP_cons, hp, if_true]
    omega
  have hack : x.reply x.ack = [] :=
    (streamMessage_control x x.listener x.conid
      (StreamHeader.plain_eq_false (.inr (.inl (StreamHeader.has_of_flags _ (by decide)))))).2
  obtain ⟨hsingle, hunsent⟩ := h.tokens_le htokens.le rfl
  -- from here on the acceptor is listed
  have hlisted : 0 < (p :: s.lsnr.ring.privates).countP x.peer := by
    rw [List.countP_cons, hp]
    exact Nat.succ_pos _
  exact { h with
    single := hsingle, unsent := hunsent, fresh := fun q hq => (nomatch hq)
    lsnrPosted := mem_push h.lsnrPosted hack, order := .inl (.inl hlisted) }

theorem acceptOther {e : PendingRecv} {l₁ l₂ : List PendingRecv} {ref : Nat} (h : s.Handshake x)
    (htaken : s.taken = l₁ ++ e :: l₂) (he : x.entry e = false) :
    Handshake x { s with
      taken := l₁ ++ l₂
      lsnr := s.lsnr.setPrivates (newSock ref e :: s.lsnr.ring.privates) } := by
  have hcount : (newSock ref e :: s.lsnr.ring.privates).countP x.peer =
      s.lsnr.ring.privates.countP x.peer := by
    rw [List.countP_cons, peer_newSock, he]
    rfl
  refine h.lsnr_of_le rfl rfl ?_ hcount.ge rfl rfl h.fresh h.lsnrPosted fun hq => hq.2.2.2.1
  simp only [tokens, ringTokens, End.setPrivates, hcount, countP_split x.entry htaken]
  omega

theorem others {ps : List Sock} (h : s.Handshake x)
    (hps : ps.filter x.peer = s.lsnr.ring.privates.filter x.peer) :
    Handshake x { s with lsnr := s.lsnr.setPrivates ps } := by
  have hcount : ps.countP x.peer = s.lsnr.ring.privates.countP x.peer := by
    rw [List.countP_eq_length_filter, hps, ← List.countP_eq_length_filter]
  refine h.lsnr_of_le rfl rfl ?_ hcount.ge rfl rfl h.fresh h.lsnrPosted fun hq => hq.2.2.2.1
  simp only [tokens, ringTokens, End.setPrivates, hcount]
  omega

theorem listenerRelease {resets : List Reset} (h : s.Handshake x) :
    Handshake x { s with lsnr := { s.lsnr.setSponsor none with
      posted := s.lsnr.posted ++ End.resetsTo x.connector resets } } := by
  refine h.lsnr_of_le rfl rfl ?_ (Nat.le_refl _) rfl rfl h.fresh (h.lsnr_reset_ok _) fun hq =>
    not_ack_resetsTo hq.2.2.2.1
  simp only [tokens, ringTokens, End.setSponsor, Option.toList_none, List.flatMap_nil,
    List.countP_nil]
  omega

/-! ## The calls -/

/-- A socket that takes a write is connected or accepted. -/
theorem state_of_sendto {p : Sock} {data : List UInt8} {nonblock : Bool} {c : SendCall}
    (h : sendto p data nonblock = .call c) :
    (p.state = .connected ∨ p.state = .accepted) ∧ c.phase = .entry ∧ c.count = 0 := by
  rw [sendto] at h
  split at h
  · cases h
  · cases h
  · next hst => obtain rfl := SendNext.call.inj h; exact ⟨.inl hst, rfl, rfl⟩
  · next hst => obtain rfl := SendNext.call.inj h; exact ⟨.inr hst, rfl, rfl⟩
  · cases h
  · cases h

/-- A write begins: the acceptor is listed. -/
theorem connSendto {p : Sock} {data : List UInt8} {nonblock : Bool} {c : SendCall}
    (h : s.Handshake x) (hp : s.conn.ring.sponsor = some p)
    (hcall : sendto p data nonblock = .call c) :
    Handshake x { s with conn := { s.conn with write := some c } } := by
  have hst := (state_of_sendto hcall).1
  have htype : s.conn.ring.type ≠ .idle := by
    intro hidle
    rw [h.bound hidle p hp] at hst
    rcases hst with hst | hst <;> cases hst
  have hconn : p.state = .connected := hst.resolve_right (h.named htype p hp).2.2
  refine { h with writing := fun _ => htype, order := .inl (h.order.resolve_right fun hq => ?_) }
  exact hq.1 p hp hconn

/-- The messages of a write carry no flag. -/
theorem plain_message (x : Session) (source : Addr) (conid : UInt32) (data : List UInt8) :
    x.isSyn (streamMessage source ⟨0, conid⟩ data) = false ∧
      x.isAck (streamMessage source ⟨0, conid⟩ data) = false := by
  have hpeek := peekHeader_streamMessage source ⟨0, conid⟩ data
  have hsyn : StreamHeader.has ⟨0, conid⟩ shfSyn = false := StreamHeader.has_of_flags _ (by decide)
  have hack : StreamHeader.has ⟨0, conid⟩ shfAck = false := StreamHeader.has_of_flags _ (by decide)
  refine ⟨?_, ?_⟩
  · rw [Session.isSyn_eq hpeek, hsyn, Bool.and_false]
  · rw [Session.isAck_eq hpeek, hack, Bool.and_false]

/-- A step of the write does not touch the ring. -/
theorem wrote_frame (e : End) (c : SendCall) (next : SendNext) :
    (e.wrote c next).ring = e.ring ∧ (e.wrote c next).posted = e.posted ∧
      (e.wrote c next).closed = e.closed ∧ (e.wrote c next).read = e.read ∧
      (e.wrote c next).received = e.received := by
  cases next <;> exact ⟨rfl, rfl, rfl, rfl, rfl⟩

theorem listed_of_write {c : SendCall} (h : s.Handshake x) (hc : s.conn.write = some c) :
    s.Listed x := by
  refine h.order.resolve_right fun hq => ?_
  rw [hq.2.1] at hc
  cases hc

theorem connWrote {c : SendCall} (h : s.Handshake x) (hc : s.conn.write = some c)
    (next : SendNext) : Handshake x { s with conn := s.conn.wrote c next } := by
  obtain ⟨hring, hposted, -⟩ := wrote_frame s.conn c next
  have hlisted := h.listed_of_write hc
  have htype : s.conn.ring.type ≠ .idle := h.writing (by rw [hc]; simp)
  have htokens : tokens x { s with conn := s.conn.wrote c next } = s.tokens x := by
    simp only [tokens, hposted]
  refine ⟨?_, h.listens, ?_, htokens.le.trans h.single, ?_, ?_, ?_, ?_, ?_, h.fresh, ?_,
    h.lsnrPosted, .inl hlisted⟩
  · rw [hring]; exact h.addr
  · rw [hring]; exact h.connects
  · rw [hring]; exact fun hidle => absurd hidle htype
  · rw [hring]; exact h.bound
  · rw [hring]; exact h.named
  · rw [hring]; exact fun _ => htype
  · rw [hring]; exact h.unheard
  · rw [hposted]; exact h.connPosted

theorem connSend {c : SendCall} {p : Sock} {source : Addr} {conid : UInt32} {o : SendOut}
    (h : s.Handshake x) (hc : s.conn.write = some c) : Handshake x { s with
      conn := s.conn.wrote c o.next
      lsnr := if p.peer = x.listener then s.lsnr.gets source conid o.message else s.lsnr } := by
  have hwrote := h.connWrote hc o.next
  split
  · cases o.message with
    | none => exact hwrote
    | some data => exact hwrote.lsnrPush (plain_message x ..).1 (.inl (h.listed_of_write hc))
  · exact hwrote

theorem tokens_pos_of_acceptor {p : Sock} (hp : s.acceptor x = some p) : 0 < s.tokens x := by
  have hcount : 0 < s.socks.countP x.peer :=
    List.countP_pos_iff.mpr ⟨p, List.mem_of_find?_eq_some hp, List.find?_some hp⟩
  rw [Link.socks, List.countP_append] at hcount
  simp only [tokens, ringTokens]
  omega

theorem accSend {c : SendCall} {p : Sock} {source : Addr} {conid : UInt32} {o : SendOut}
    (h : s.Handshake x) (hp : s.acceptor x = some p) : Handshake x { s with
      lsnr := s.lsnr.wrote c o.next
      conn := if p.peer = x.connector then s.conn.gets source conid o.message else s.conn } := by
  have hwrote : Handshake x { s with lsnr := s.lsnr.wrote c o.next } := by
    cases o.next <;> exact { h with }
  split
  · cases o.message with
    | none => exact hwrote
    | some data =>
      have htype := h.type_ne_idle (tokens_pos_of_acceptor hp)
      exact hwrote.connPush (fun _ => (plain_message x ..).2) fun hidle => absurd hidle htype
  · exact hwrote

theorem connRecv {p : Sock} {c : RecvCall} {access signal : Bool} {o : RecvOut}
    (h : s.Handshake x) (hp : s.conn.ring.sponsor = some p)
    (ho : recvStep p c access signal = some o) :
    Handshake x { s with conn := (s.conn.setSponsor (some o.sock)).reads c o.next } := by
  have hsame := recvStep_sock ho
  have hsponsor : Handshake x { s with conn := s.conn.setSponsor (some o.sock) } := by
    refine { h with bound := ?_, named := ?_, order := h.order.imp id fun hq => ⟨?_, hq.2⟩ }
    · rintro hidle q ⟨⟩
      rw [hsame]
      exact h.bound hidle p hp
    · rintro hidle q ⟨⟩
      rw [hsame]
      exact h.named hidle p hp
    · rintro q ⟨⟩
      rw [hsame]
      exact hq.1 p hp
  cases o.next <;> exact { hsponsor with }

theorem connRelease {resets : List Message} (h : s.Handshake x)
    (hresets : ∀ m ∈ resets, ∃ y : Reset, m = y.message) :
    Handshake x { s with conn := { s.conn.setSponsor none with
      closed := true, posted := s.conn.posted ++ resets } } := by
  have hcount : resets.countP x.isSyn = 0 := by
    refine List.countP_eq_zero.mpr fun m hm => ?_
    obtain ⟨y, rfl⟩ := hresets m hm
    simp [(y.message_control x).2.2.1]
  have htokens : tokens x { s with conn := { s.conn.setSponsor none with
      closed := true, posted := s.conn.posted ++ resets } } = s.tokens x := by
    simp only [tokens, List.countP_append, hcount, Nat.add_zero]
  obtain ⟨hsingle, hunsent⟩ := h.tokens_le htokens.le rfl
  refine { h with
    single := hsingle, unsent := hunsent, bound := fun _ p hp => (nomatch hp)
    named := fun _ p hp => (nomatch hp), connPosted := ?_
    order := h.order.imp id fun hq => ⟨fun p hp => (nomatch hp), hq.2⟩ }
  intro m hm
  rcases List.mem_append.mp hm with hm | hm
  · exact h.connPosted m hm
  · obtain ⟨y, rfl⟩ := hresets m hm
    exact (y.message_control x).1

theorem peer_setPending (x : Session) (pending : List PendingRecv) (p : Sock) :
    x.peer (if x.peer p then { p with pendingRecv := pending } else p) = x.peer p := by
  split <;> rfl

theorem setPending (h : s.Handshake x) (pending : List PendingRecv) :
    (s.setPending x pending).Handshake x := by
  have hprivates := countP_map_peer (peer_setPending x pending) s.lsnr.ring.privates
  have hfresh : (s.setPending x pending).fresh.toList.countP x.peer =
      s.fresh.toList.countP x.peer := by
    rw [Link.setPending, Option.toList_map, countP_map_peer (peer_setPending x pending)]
  have htokens : (s.setPending x pending).tokens x = s.tokens x := by
    rw [tokens, tokens, hfresh]
    simp only [ringTokens, Link.setPending, End.setPrivates, hprivates]
  refine h.lsnr_of_le rfl rfl htokens.le hprivates.ge rfl rfl ?_ h.lsnrPosted fun hq => hq.2.2.2.1
  intro p hp
  obtain ⟨q, hq, rfl⟩ := Option.map_eq_some_iff.mp hp
  rw [peer_setPending]
  exact h.fresh q hq

theorem accRelease {p : Sock} {l₁ l₂ : List Sock} {resets : List Message} (h : s.Handshake x)
    (hpriv : s.lsnr.ring.privates = l₁ ++ p :: l₂)
    (hresets : ∀ m ∈ resets, ∃ y : Reset, m = y.message) :
    Handshake x { s with lsnr := { s.lsnr.setPrivates (l₁ ++ l₂) with
      closed := true, posted := s.lsnr.posted ++ resets } } := by
  have htokens : tokens x { s with lsnr := { s.lsnr.setPrivates (l₁ ++ l₂) with
      closed := true, posted := s.lsnr.posted ++ resets } } ≤ s.tokens x := by
    simp only [tokens, ringTokens, End.setPrivates, countP_split x.peer hpriv]
    omega
  obtain ⟨hsingle, hunsent⟩ := h.tokens_le htokens rfl
  refine { h with
    single := hsingle, unsent := hunsent, lsnrPosted := ?_, order := .inl (.inr rfl) }
  intro m hm
  rcases List.mem_append.mp hm with hm | hm
  · exact h.lsnrPosted m hm
  · obtain ⟨y, rfl⟩ := hresets m hm
    exact (y.message_control x).2.1

theorem resets_of_if {q : Prop} [Decidable q] {dest : Addr} {resets : List Reset} :
    ∀ m ∈ (if q then End.resetsTo dest resets else []), ∃ y : Reset, m = y.message := by
  intro m hm
  split at hm
  · exact mem_resetsTo hm
  · cases hm

end Handshake

/-- **One step.** -/
theorem Step.handshake {x : Session} {s s' : Link} (hs : s.Step x s') (h : s.Handshake x) :
    s'.Handshake x := by
  cases hs with
  | connect _ _ htype => exact h.connect htype
  | connectFail hp hposted => exact h.connectFail hp hposted
  | @respite p hp htype =>
    exact h.restate { p with pendingError := -etimedout, state := .disconnected } hp htype
      ⟨htype, h.connects⟩ ⟨rfl, rfl⟩ ⟨by simp, by simp⟩
  | @giveUp p hp htype _ =>
    exact h.restate { p with state := .bound } hp htype ⟨by simp, by simp⟩ ⟨rfl, rfl⟩
      ⟨by simp, by simp⟩
  | connIdle htype =>
    refine { h with
      unheard := fun hidle m hm => h.unheard hidle m (List.mem_of_mem_tail hm)
      order := h.order.imp id fun hq => ⟨hq.1, hq.2.1, ?_, hq.2.2.2⟩ }
    exact fun m hm => hq.2.2.1 m (List.mem_of_mem_tail hm)
  | connIrq hne ho => exact h.connIrq hne ho
  | lsnrIrq hne ho => exact h.lsnrIrq hne ho
  | connFull => exact h.connFull
  | lsnrFull => exact h.lsnrFull
  | connOther hm =>
    exact h.connPush (fun _ => Session.isAck_of_names hm) fun _ => Session.reply_of_names hm
  | lsnrOther hm =>
    exact h.lsnrPush (Session.isSyn_of_owns hm) (.inr (Session.data_of_owns hm))
  | connPosted hposted => exact h.connPostedStep hposted
  | connDropped hposted => exact h.connDropped hposted
  | lsnrPosted hposted => exact h.lsnrPostedStep hposted
  | lsnrDropped hposted => exact h.lsnrDropped hposted
  | acceptPop hp hpend => exact h.acceptPop hp hpend
  | acceptFail htaken => exact h.acceptFail htaken
  | acceptFile htaken he => exact h.acceptFile htaken he
  | acceptList hfresh => exact h.acceptList hfresh
  | acceptOther htaken he => exact h.acceptOther htaken he
  | others hps => exact h.others hps
  | listenerRelease _ => exact h.listenerRelease
  | connSendto hp _ _ hcall => exact h.connSendto hp hcall
  | connSend _ hc _ _ => exact h.connSend hc
  | connRecvfrom | connFakeIrq | accRecvfrom | accFakeIrq | accSendto => exact { h with }
  | connRecv hp _ _ ho => exact h.connRecv hp ho
  | connRelease _ _ _ => exact h.connRelease Handshake.resets_of_if
  | accSend hp _ _ _ => exact h.accSend hp
  | @accRecv p c access signal o _ _ _ _ =>
    have hset := h.setPending o.sock.pendingRecv
    cases o.next <;> exact { hset with }
  | accRelease hpriv _ _ _ => exact h.accRelease hpriv Handshake.resets_of_if

/-- **Every run.** -/
theorem Reached.handshake {x : Session} {s : Link} (h : Reached x s) : s.Handshake x := by
  induction h with
  | init hinit => exact .init hinit
  | step _ hs ih => exact hs.handshake ih

end Link

end V4v.Linux
