import LegacyV4v.Handshake

/-! # What is read is what was written

Each direction of a connection is a pipe: the bytes that the writer has sent are in the messages
of the reader's ring, or in the pending list of the reader's socket, or have been copied to a
buffer of the reader, in this order.  Every step of the driver is a step of both pipes. -/
namespace V4v.Linux
open BytePipe

/-! ## One step of a call -/

/-- The bytes that the end's writes have sent: those that are over, and the one in progress. -/
def End.written (e : End) : List UInt8 := e.accepted ++ e.write.elim [] SendCall.sent

/-- The bytes that the end's reads have copied. -/
def End.taken (e : End) : List UInt8 := e.received ++ e.read.elim [] RecvCall.copied

/-- A call at its entry has done nothing. -/
structure End.Calls (e : End) : Prop where
  write : ∀ c, e.write = some c → c.phase = .entry → c.count = 0
  read : ∀ c, e.read = some c → c.phase = .entry → c.copied = []

namespace End

/-- **A step of the read.** -/
theorem taken_reads {e : End} {p : Sock} {c : RecvCall} {o : RecvOut} (he : e.Calls)
    (hc : e.read = some c) (ho : RecvCase p c o) :
    (e.reads c o.next).taken = e.taken ++ o.bytes ∧ (e.reads c o.next).Calls := by
  cases ho with
  | @goes p' c' bytes _ hcopied hphase =>
    refine ⟨?_, ⟨he.write, ?_⟩⟩
    · simp only [taken, reads, hc, Option.elim_some, hcopied, List.append_assoc]
    · rintro c₁ ⟨⟩ hentry
      exact absurd hentry hphase
  | returns htake =>
    refine ⟨?_, ⟨he.write, fun c₁ hc₁ => (nomatch hc₁)⟩⟩
    simp only [taken, reads, hc, Option.elim_some, Option.elim_none, htake, List.append_nil]

theorem reads_frame (e : End) (c : RecvCall) (next : RecvNext) :
    (e.reads c next).ring = e.ring ∧ (e.reads c next).closed = e.closed ∧
      (e.reads c next).write = e.write ∧ (e.reads c next).written = e.written := by
  cases next <;> exact ⟨rfl, rfl, rfl, rfl⟩

/-- **A step of the write.** -/
theorem written_wrote {e : End} {c : SendCall} {o : SendOut} (he : e.Calls)
    (hc : e.write = some c) (ho : SendCase c o) :
    (e.wrote c o.next).written = e.written ++ o.message.getD [] ∧ (e.wrote c o.next).Calls := by
  cases ho with
  | @goes c' hsent hphase =>
    refine ⟨?_, ⟨?_, he.read⟩⟩
    · simp only [written, wrote, hc, Option.elim_some, hsent, Option.getD_none, List.append_nil]
    · rintro c₁ ⟨⟩ hentry
      exact absurd hentry hphase
  | returns hrep =>
    refine ⟨?_, ⟨fun c₁ hc₁ => (nomatch hc₁), he.read⟩⟩
    simp only [written, wrote, hc, Option.elim_some, Option.elim_none, hrep, Option.getD_none,
      List.append_nil]
  | @sends c' hsent hphase =>
    refine ⟨?_, ⟨?_, he.read⟩⟩
    · simp only [written, wrote, hc, Option.elim_some, hsent, Option.getD_some, List.append_assoc]
    · rintro c₁ ⟨⟩ hentry
      exact absurd hentry hphase
  | sendsLast hrep =>
    refine ⟨?_, ⟨fun c₁ hc₁ => (nomatch hc₁), he.read⟩⟩
    simp only [written, wrote, hc, Option.elim_some, Option.elim_none, hrep, Option.getD_some,
      List.append_assoc, List.append_nil]

end End

/-! ## The two pipes -/

namespace Link

/-- From the connector to the acceptor. -/
def forth (x : Session) (s : Link) : Pipe UInt8 where
  written := s.conn.written
  transit := s.lsnr.ring.queue.flatMap x.data
  parked := (s.socks.filter x.peer).flatMap Sock.unread
  taken := s.lsnr.taken
  closed := s.lsnr.closed

/-- From the acceptor to the connector. -/
def back (x : Session) (s : Link) : Pipe UInt8 where
  written := s.lsnr.written
  transit := s.conn.ring.queue.flatMap x.reply
  parked := s.conn.ring.sponsor.toList.flatMap Sock.unread
  taken := s.conn.taken
  closed := s.conn.closed

variable {x : Session} {s : Link}

theorem step_of_eq {P P' : Pipe UInt8} (h : P' = P) : BytePipe.Step P P' := h ▸ .keep P'

theorem flatMap_push {f : Message → List UInt8} (queue : List Message) (m : Message) :
    (queue ++ [m]).flatMap f = queue.flatMap f ++ f m := by
  rw [List.flatMap_append, List.flatMap_singleton]

/-! ## The acceptor -/

/-- There is one acceptor at most. -/
theorem filter_socks {p : Sock} (h : s.Handshake x) (hmem : p ∈ s.socks) (hp : x.peer p = true) :
    s.socks.filter x.peer = [p] := by
  have hlen : (s.socks.filter x.peer).length ≤ 1 := by
    rw [← List.countP_eq_length_filter, socks, List.countP_append]
    have hsingle := h.single
    simp only [tokens, ringTokens] at hsingle
    omega
  have hmem : p ∈ s.socks.filter x.peer := List.mem_filter.mpr ⟨hmem, hp⟩
  obtain ⟨q, hq⟩ := List.length_eq_one_iff.mp
    (Nat.le_antisymm hlen (List.length_pos_of_mem hmem))
  rw [hq] at hmem ⊢
  rw [List.mem_singleton.mp hmem]

/-- A change of the sockets that leaves the acceptor's bytes alone. -/
theorem filter_map_unread {f : Sock → Sock} (hpeer : ∀ p, x.peer (f p) = x.peer p)
    (hunread : ∀ p, (f p).unread = p.unread) (ps : List Sock) :
    ((ps.map f).filter x.peer).flatMap Sock.unread = (ps.filter x.peer).flatMap Sock.unread := by
  rw [List.filter_map, show x.peer ∘ f = x.peer from funext hpeer, List.flatMap_map]
  exact List.flatMap_congr fun p _ => hunread p

theorem socks_setPending (s : Link) (pending : List PendingRecv) : (s.setPending x pending).socks =
    s.socks.map fun p => if x.peer p then { p with pendingRecv := pending } else p := by
  rw [socks, socks, List.map_append, setPending, ← Option.toList_map]
  rfl

/-- What is parked when the acceptor gets another list. -/
theorem parked_setPending {p : Sock} (h : s.Handshake x) (hp : s.acceptor x = some p)
    (pending : List PendingRecv) :
    ((s.setPending x pending).forth x).parked = pending.flatMap PendingRecv.unread := by
  have hpeer : x.peer p = true := List.find?_some hp
  have hfilter : (s.setPending x pending).socks.filter x.peer =
      [{ p with pendingRecv := pending }] := by
    rw [socks_setPending, List.filter_map,
      show x.peer ∘ _ = x.peer from funext (Handshake.peer_setPending x pending),
      filter_socks h (List.mem_of_find?_eq_some hp) hpeer, List.map_singleton, if_pos hpeer]
  simp only [forth, hfilter, List.flatMap_singleton]
  rfl

/-! ## The listener's handler -/

theorem unread_copied (p : Sock) (source : Addr) (sh : StreamHeader) (data : List UInt8)
    (full : Bool) :
    Sock.unread { p with pendingRecv := p.pendingRecv ++ [⟨source, sh, data, 0⟩], full := full } =
      p.unread ++ data := by
  simp only [Sock.unread, List.flatMap_append, List.flatMap_singleton, PendingRecv.unread,
    List.drop_zero]

theorem copyCase_flow {m : Message} {rest : List Message} {sh : StreamHeader} {data : List UInt8}
    {p : Sock} {mem : Option Nat} {c : SockOut}
    (h : CopyCase (m :: rest) m.source sh data p mem c) :
    (c.queue = m :: rest ∧ c.sock.unread = p.unread) ∨
      (c.queue = rest ∧ c.sock.unread = p.unread ++ data) := by
  cases h with
  | full | starved => exact .inl ⟨rfl, rfl⟩
  | copied => exact .inr ⟨rfl, unread_copied ..⟩

/-- Another socket in the place of the only one that satisfies `f`. -/
theorem filter_replace {f : Sock → Bool} {l₁ l₂ : List Sock} {p q : Sock}
    (h : (l₁ ++ p :: l₂).filter f = [p]) (hp : f p = true) (hq : f q = true) :
    (l₁ ++ q :: l₂).filter f = [q] := by
  rw [List.filter_append, List.filter_cons_of_pos hp, List.append_eq_singleton_iff] at h
  rw [List.filter_append, List.filter_cons_of_pos hq]
  rcases h with ⟨h₁, h₂⟩ | ⟨-, h₂⟩
  · rw [h₁, (List.cons.inj h₂).2]
    rfl
  · cases h₂

/-- The handler changes what is in transit and what is parked. -/
theorem forth_handled {o : RingOut} {transit parked : List UInt8}
    (htransit : o.ring.queue.flatMap x.data = transit)
    (hparked : ((s.fresh.toList ++ o.ring.privates).filter x.peer).flatMap Sock.unread = parked) :
    forth x { s with lsnr := s.lsnr.handled x.connector o } =
      { s.forth x with transit := transit, parked := parked } := by
  subst htransit hparked
  rfl

/-- The first message of the listener's ring goes, or stays, and nothing else happens to the
pipe. -/
theorem forth_of_head {o : RingOut} {m : Message} {rest : List Message}
    (hq : s.lsnr.ring.queue = m :: rest) (hdata : x.data m = [])
    (hqueue : o.ring.queue = rest ∨ o.ring.queue = m :: rest)
    (hparked : ((s.fresh.toList ++ o.ring.privates).filter x.peer).flatMap Sock.unread =
      (s.forth x).parked) :
    BytePipe.Step (s.forth x) (forth x { s with lsnr := s.lsnr.handled x.connector o }) := by
  have htransit : o.ring.queue.flatMap x.data = (s.forth x).transit := by
    simp only [forth, hq, List.flatMap_cons, hdata, List.nil_append]
    rcases hqueue with h | h
    · rw [h]
    · rw [h, List.flatMap_cons, hdata, List.nil_append]
  exact step_of_eq (forth_handled htransit hparked)

theorem data_of_plain {m : Message} {sh : StreamHeader} {data : List UInt8}
    (hpeek : peekHeader m = some (sh, data)) (hsource : m.source = x.connector)
    (hconid : sh.conid = x.conid) (hplain : sh.plain = true) : x.data m = data := by
  rw [Session.data, hpeek]
  exact if_pos ⟨hsource, hconid, hplain⟩

/-- A socket that belongs to the connection of a message. -/
theorem peer_iff {p : Sock} {source : Addr} {conid : UInt32} (hp : p.isPeer source conid = true) :
    x.peer p = true ↔ source = x.connector ∧ conid = x.conid := by
  rw [Sock.isPeer, Bool.and_eq_true, beq_iff_eq, beq_iff_eq] at hp
  rw [Session.peer, Sock.isPeer, Bool.and_eq_true, beq_iff_eq, beq_iff_eq, hp.1, hp.2]
  exact And.comm

/-- A message for an accepted socket. -/
theorem forth_acceptor {m : Message} {rest : List Message} {sh : StreamHeader}
    {data : List UInt8} {l₁ l₂ : List Sock} {p : Sock} {mem : Option Nat} {o : SockOut}
    {out : RingOut} (h : s.Handshake x) (hq : s.lsnr.ring.queue = m :: rest)
    (hpeek : peekHeader m = some (sh, data)) (hpriv : s.lsnr.ring.privates = l₁ ++ p :: l₂)
    (hp : p.isPeer m.source sh.conid = true)
    (ho : AcceptorCase s.lsnr.ring.id p m rest sh data mem o) (hqueue : out.ring.queue = o.queue)
    (hprivates : out.ring.privates = l₁ ++ o.sock :: l₂) :
    BytePipe.Step (s.forth x) (forth x { s with lsnr := s.lsnr.handled x.connector out }) := by
  have hpeer := acceptorCase_peer ho x
  by_cases hours : x.peer p = true
  · obtain ⟨hsource, hconid⟩ := (peer_iff hp).mp hours
    have hsocks : s.socks = (s.fresh.toList ++ l₁) ++ p :: l₂ := by
      rw [socks, hpriv, List.append_assoc]
    have hbefore : s.socks.filter x.peer = [p] :=
      filter_socks h (by rw [hsocks]; exact List.mem_append_right _ List.mem_cons_self) hours
    have hparked : (s.forth x).parked = p.unread := by
      simp only [forth, hbefore, List.flatMap_singleton]
    have hafter : ((s.fresh.toList ++ out.ring.privates).filter x.peer).flatMap Sock.unread =
        o.sock.unread := by
      rw [hsocks] at hbefore
      rw [hprivates, ← List.append_assoc, filter_replace hbefore hours (hpeer.trans hours),
        List.flatMap_singleton]
    cases ho with
    | strange hctl =>
      rw [StreamHeader.has_or, Bool.or_eq_true] at hctl
      have hdata := Session.data_eq_nil (x := x) hpeek (StreamHeader.plain_eq_false
        (hctl.imp id .inl))
      exact forth_of_head hq hdata (.inl hqueue) (hafter.trans hparked.symm)
    | reset _ hrst =>
      have hdata := Session.data_eq_nil (x := x) hpeek
        (StreamHeader.plain_eq_false (.inr (.inr hrst)))
      refine forth_of_head hq hdata (.inl hqueue) (hafter.trans ?_)
      rw [hparked]
      dsimp only
      split
      · rw [Sock.unread, (acceptorStateMachine_frame p sh).2.2.2, Sock.unread]
      · rfl
    | data hctl hrst hcopy =>
      rw [StreamHeader.has_or, Bool.or_eq_false_iff] at hctl
      have hdata : x.data m = data := data_of_plain hpeek hsource hconid (by
        rw [StreamHeader.plain, hctl.1, hctl.2, hrst]
        rfl)
      rcases copyCase_flow hcopy with ⟨hq', hunread⟩ | ⟨hq', hunread⟩
      · refine step_of_eq (forth_handled ?_ ?_)
        · rw [hqueue, hq', ← hq]
        · exact (hafter.trans hunread).trans hparked.symm
      · -- the data moves from the ring to the list
        have hmoved : forth x { s with lsnr := s.lsnr.handled x.connector out } =
            { s.forth x with
              transit := rest.flatMap x.data, parked := (s.forth x).parked ++ data } :=
          forth_handled (by rw [hqueue, hq']) (by rw [hafter, hunread, hparked])
        rw [hmoved]
        apply BytePipe.Step.park
        simp only [forth, hq, List.flatMap_cons, hdata]
  · have hours' : x.peer p = false := by simpa using hours
    have hdata : x.data m = [] := by
      apply Session.data_of_owns
      rw [Session.owns_eq hpeek, Bool.and_eq_false_iff, beq_eq_false_iff_ne, beq_eq_false_iff_ne]
      by_contra hboth
      simp only [not_or, not_not] at hboth
      exact hours ((peer_iff hp).mpr hboth)
    refine forth_of_head hq hdata (by rw [hqueue]; exact acceptorCase_queue ho) ?_
    simp only [forth, socks, hprivates, hpriv, List.filter_append, List.filter_cons, hours',
      hpeer.trans hours', Bool.false_eq_true, if_false]

theorem forth_lsnrIrq {mem : Option Nat} {o : RingOut} (h : s.Handshake x)
    (hne : s.lsnr.ring.queue ≠ []) (ho : s.lsnr.ring.handle mem = some o) :
    BytePipe.Step (s.forth x) (forth x { s with lsnr := s.lsnr.handled x.connector o }) := by
  obtain ⟨m, rest, hq⟩ := List.exists_cons_of_ne_nil hne
  have hcase := listener_cases hq mem
  rw [Ring.handle, h.listens] at ho
  rw [Option.some.inj ho] at hcase
  cases hcase with
  | binned hpeek => exact forth_of_head hq (Session.data_none hpeek) (.inl rfl) rfl
  | acceptor hpeek hpriv _ hp hacc => exact forth_acceptor h hq hpeek hpriv hp hacc rfl rfl
  | reset hpeek _ hrst =>
    have hplain := StreamHeader.plain_eq_false (.inr (.inr hrst))
    exact forth_of_head hq (Session.data_eq_nil hpeek hplain) (.inl rfl) rfl
  | dropped hpeek _ _ hsyn _ =>
    have hplain := StreamHeader.plain_eq_false (.inl hsyn)
    exact forth_of_head hq (Session.data_eq_nil hpeek hplain) (.inl rfl) rfl
  | syn hpeek _ _ hsyn _ hcopy =>
    have hplain := StreamHeader.plain_eq_false (.inl hsyn)
    refine forth_of_head hq (Session.data_eq_nil hpeek hplain) ?_ rfl
    rcases copyCase_flow hcopy with ⟨hqueue, -⟩ | ⟨hqueue, -⟩
    · exact .inr hqueue
    · exact .inl hqueue
  | @unknown sh data hpeek hnone _ _ =>
    by_cases hdata : x.data m = []
    · exact forth_of_head hq hdata (.inl rfl) rfl
    · -- data that nobody waits for: the acceptor has been released
      have howns : x.owns m = true := by
        by_contra hno
        exact hdata (Session.data_of_owns (by simpa using hno))
      rw [Session.owns_eq hpeek, Bool.and_eq_true, beq_iff_eq, beq_iff_eq] at howns
      have hclosed : s.lsnr.closed = true := by
        rcases h.order with (hpos | hclosed) | hquiet
        · obtain ⟨p, hp, hpeer⟩ := List.countP_pos_iff.mp hpos
          have hno := hnone p hp
          rw [howns.1, howns.2] at hno
          rw [Session.peer, hno] at hpeer
          cases hpeer
        · exact hclosed
        · exact absurd (hquiet.2.2.2.2 m (by rw [hq]; exact List.mem_cons_self)) hdata
      have hlose := BytePipe.Step.lose (s.forth x) [] (rest.flatMap x.data)
        ((s.socks.filter x.peer).flatMap Sock.unread)
      rw [List.append_nil, ← hclosed] at hlose
      exact hlose

/-! ## The connector's handler -/

theorem back_handled {o : RingOut} {transit parked : List UInt8}
    (htransit : o.ring.queue.flatMap x.reply = transit)
    (hparked : o.ring.sponsor.toList.flatMap Sock.unread = parked) :
    back x { s with conn := s.conn.handled x.listener o } =
      { s.back x with transit := transit, parked := parked } := by
  subst htransit hparked
  rfl

theorem back_connIrq {mem : Option Nat} {o : RingOut} (h : s.Handshake x)
    (hne : s.conn.ring.queue ≠ []) (ho : s.conn.ring.handle mem = some o) :
    BytePipe.Step (s.back x) (back x { s with conn := s.conn.handled x.listener o }) := by
  obtain ⟨m, rest, hq⟩ := List.exists_cons_of_ne_nil hne
  obtain ⟨htype, rfl⟩ := h.conn_handle ho
  cases hp : s.conn.ring.sponsor with
  | none =>
    have hring : (connectorInterrupt s.conn.ring mem).ring = s.conn.ring := by
      rw [connectorInterrupt, hp]
    exact step_of_eq (back_handled (by rw [hring]) (by rw [hring]))
  | some p =>
    obtain ⟨hconid, -, -⟩ := h.named (by rw [htype]; simp) p hp
    have hcase := connector_cases hp hq mem
    have hparked : (s.back x).parked = p.unread := by
      simp only [back, hp, Option.toList_some, List.flatMap_singleton]
    have htransit : (s.back x).transit = x.reply m ++ rest.flatMap x.reply := by
      simp only [back, hq, List.flatMap_cons]
    generalize connectorInterrupt s.conn.ring mem = o at hcase
    -- a message that is not data for the connector goes, with nothing in it
    have hgone : ∀ {p' : Sock}, x.reply m = [] → o.ring.queue = rest →
        o.ring.sponsor = some p' → p'.unread = p.unread →
        BytePipe.Step (s.back x) (back x { s with conn := s.conn.handled x.listener o }) := by
      intro p' hreply hrest hp' hunread
      refine step_of_eq (back_handled ?_ ?_)
      · rw [hrest]
        exact (htransit.trans (by rw [hreply, List.nil_append])).symm
      · rw [hp', Option.toList_some, List.flatMap_singleton, hunread]
        exact hparked.symm
    cases hcase with
    | binned hpeek => exact hgone (Session.reply_none hpeek) rfl hp rfl
    | syn hpeek hsyn =>
      exact hgone (Session.reply_eq_nil hpeek (StreamHeader.plain_eq_false (.inl hsyn))) rfl hp rfl
    | @stranger sh _ hpeek _ hne =>
      refine hgone (Session.reply_of_names ?_) rfl hp rfl
      rw [Session.names, Session.header_eq _ hpeek, beq_eq_false_iff_ne, ← hconid]
      exact hne
    | padded hpeek _ _ hctl _ =>
      rw [StreamHeader.has_or, Bool.or_eq_true] at hctl
      exact hgone (Session.reply_eq_nil hpeek (StreamHeader.plain_eq_false (.inr hctl))) rfl hp rfl
    | @control sh hpeek _ _ hctl =>
      rw [StreamHeader.has_or, Bool.or_eq_true] at hctl
      refine hgone (Session.reply_eq_nil hpeek (StreamHeader.plain_eq_false (.inr hctl))) rfl rfl ?_
      rw [Sock.unread, (connectorStateMachine_frame p sh).2.2.2, Sock.unread]
    | @data sh data c hpeek hsyn hid hctl hcopy =>
      rw [StreamHeader.has_or, Bool.or_eq_false_iff] at hctl
      have hplain : sh.plain = true := by
        rw [StreamHeader.plain, hsyn, hctl.1, hctl.2]
        rfl
      have hreply : x.reply m = data := by
        rw [Session.reply, hpeek]
        exact if_pos ⟨hid.trans hconid, hplain⟩
      rcases copyCase_flow hcopy with ⟨hq', hunread⟩ | ⟨hq', hunread⟩
      · refine step_of_eq (back_handled ?_ ?_)
        · dsimp only
          rw [hq', ← hq]
        · dsimp only
          rw [Option.toList_some, List.flatMap_singleton, hunread]
          exact hparked.symm
      · have hmoved := back_handled (x := x) (s := s)
          (o := ⟨c.ret, { s.conn.ring with queue := c.queue, sponsor := some c.sock }, none, c.mem⟩)
          rfl rfl
        rw [hmoved]
        dsimp only
        rw [hq', Option.toList_some, List.flatMap_singleton, hunread, ← hparked]
        apply BytePipe.Step.park
        rw [htransit, hreply]

/-! ## Every step is a step of the pipes -/

/-- The parked bytes of the connector, when its sponsor is known. -/
theorem back_sponsor {s' : Link} {p p' : Sock} (hp : s.conn.ring.sponsor = some p)
    (hp' : s'.conn.ring.sponsor = some p') (hunread : p'.unread = p.unread)
    (hwritten : s'.lsnr.written = s.lsnr.written) (hqueue : s'.conn.ring.queue = s.conn.ring.queue)
    (htaken : s'.conn.taken = s.conn.taken) (hclosed : s'.conn.closed = s.conn.closed) :
    BytePipe.Step (s.back x) (s'.back x) := by
  apply step_of_eq
  simp only [back, hwritten, hqueue, hp, hp', Option.toList_some, List.flatMap_singleton, hunread,
    htaken, hclosed]

/-- A message with nothing in it arrives. -/
theorem forth_push {m : Message} (hdata : x.data m = []) :
    forth x { s with lsnr := s.lsnr.push m } = s.forth x := by
  simp only [forth, End.push, flatMap_push, hdata, List.append_nil]
  rfl

theorem back_push {m : Message} (hreply : x.reply m = []) :
    back x { s with conn := s.conn.push m } = s.back x := by
  simp only [back, End.push, flatMap_push, hreply, List.append_nil]
  rfl

theorem written_begin {e : End} {p : Sock} {data : List UInt8} {nonblock : Bool} {c : SendCall}
    (hnone : e.write = none) (hcall : sendto p data nonblock = .call c) :
    End.written { e with write := some c } = e.written := by
  have hcount := (Handshake.state_of_sendto hcall).2.2
  simp only [End.written, hnone, Option.elim_some, Option.elim_none, SendCall.sent, hcount,
    List.take_zero]

theorem recvfrom_call {p : Sock} {a : RecvArgs} {c : RecvCall} (h : recvfrom p a = .call c) :
    c.copied = [] := by
  rw [recvfrom] at h
  split at h
  · cases h
  · split at h
    · cases h
    · split at h
      · cases h
      · obtain rfl := RecvNext.call.inj h; rfl
      · obtain rfl := RecvNext.call.inj h; rfl
      · cases h
      · cases h

theorem taken_begin {e : End} {c : RecvCall} (hnone : e.read = none) (hc : c.copied = []) :
    End.taken { e with read := some c } = e.taken := by
  simp only [End.taken, hnone, Option.elim_some, Option.elim_none, hc]

theorem taken_fakeIrq {e : End} {c : RecvCall} (hc : e.read = some c) :
    End.taken { e with read := some { c with phase := .checking } } = e.taken := by
  simp only [End.taken, hc, Option.elim_some]

/-- The connector sends. -/
theorem forth_connSend {p : Sock} {c : SendCall} {o : SendOut} (h : s.Handshake x)
    (hcalls : s.conn.Calls) (hp : s.conn.ring.sponsor = some p) (hc : s.conn.write = some c)
    (ho : SendCase c o) : BytePipe.Step (s.forth x) (forth x { s with
      conn := s.conn.wrote c o.next
      lsnr := if p.peer = x.listener then
          s.lsnr.gets s.conn.ring.id.addr p.conid o.message
        else s.lsnr }) := by
  obtain ⟨hconid, hpeer, -⟩ := h.named (h.writing (by rw [hc]; simp)) p hp
  have hwritten := (End.written_wrote hcalls hc ho).1
  rw [if_pos hpeer]
  cases hm : o.message with
  | none =>
    apply step_of_eq
    rw [hm, Option.getD_none, List.append_nil] at hwritten
    simp only [forth, hwritten]
    rfl
  | some data =>
    have hdata : x.data (streamMessage s.conn.ring.id.addr ⟨0, p.conid⟩ data) = data :=
      data_of_plain (peekHeader_streamMessage ..) h.addr hconid (by
        simp only [StreamHeader.plain, StreamHeader.has]
        decide)
    rw [hm, Option.getD_some] at hwritten
    have hforth : forth x { s with
        conn := s.conn.wrote c o.next
        lsnr := s.lsnr.gets s.conn.ring.id.addr p.conid (some data) } =
        { s.forth x with
          written := (s.forth x).written ++ data, transit := (s.forth x).transit ++ data } := by
      simp only [forth, hwritten, End.gets, End.push, flatMap_push, hdata]
      rfl
    rw [hforth]
    exact .write (s.forth x) data

/-- The acceptor sends. -/
theorem back_accSend {p : Sock} {c : SendCall} {o : SendOut} (hcalls : s.lsnr.Calls)
    (hp : s.acceptor x = some p) (hc : s.lsnr.write = some c) (ho : SendCase c o) :
    BytePipe.Step (s.back x) (back x { s with
      lsnr := s.lsnr.wrote c o.next
      conn := if p.peer = x.connector then
          s.conn.gets s.lsnr.ring.id.addr p.conid o.message
        else s.conn }) := by
  have hpeer : x.peer p = true := List.find?_some hp
  rw [Session.peer, Sock.isPeer, Bool.and_eq_true, beq_iff_eq, beq_iff_eq] at hpeer
  have hwritten := (End.written_wrote hcalls hc ho).1
  rw [if_pos hpeer.2]
  cases hm : o.message with
  | none =>
    apply step_of_eq
    rw [hm, Option.getD_none, List.append_nil] at hwritten
    simp only [back, hwritten]
    rfl
  | some data =>
    have hplain : StreamHeader.plain ⟨0, p.conid⟩ = true := by
      simp only [StreamHeader.plain, StreamHeader.has]
      decide
    have hreply : x.reply (streamMessage s.lsnr.ring.id.addr ⟨0, p.conid⟩ data) = data := by
      rw [Session.reply, peekHeader_streamMessage]
      exact if_pos ⟨hpeer.1, hplain⟩
    rw [hm, Option.getD_some] at hwritten
    have hback : back x { s with
        lsnr := s.lsnr.wrote c o.next
        conn := s.conn.gets s.lsnr.ring.id.addr p.conid (some data) } =
        { s.back x with
          written := (s.back x).written ++ data, transit := (s.back x).transit ++ data } := by
      simp only [back, hwritten, End.gets, End.push, flatMap_push, hreply]
      rfl
    rw [hback]
    exact .write (s.back x) data

/-- The acceptor reads. -/
theorem forth_accRecv {p : Sock} {c : RecvCall} {access signal : Bool} {o : RecvOut}
    (h : s.Handshake x) (hcalls : s.lsnr.Calls) (hp : s.acceptor x = some p)
    (hopen : s.lsnr.closed = false) (hc : s.lsnr.read = some c)
    (ho : recvStep p c access signal = some o) :
    BytePipe.Step (s.forth x) (forth x { s.setPending x o.sock.pendingRecv with
      lsnr := (s.setPending x o.sock.pendingRecv).lsnr.reads c o.next }) := by
  have hcase := recvStep_case ho (hcalls.read c hc)
  have htaken : ((s.setPending x o.sock.pendingRecv).lsnr.reads c o.next).taken =
      s.lsnr.taken ++ o.bytes :=
    (End.taken_reads (e := (s.setPending x o.sock.pendingRecv).lsnr) ⟨hcalls.write, hcalls.read⟩ hc
      hcase).1
  have hparked : (s.forth x).parked = o.bytes ++ o.sock.unread := by
    rw [recvStep_unread ho]
    simp only [forth, filter_socks h (List.mem_of_find?_eq_some hp) (List.find?_some hp),
      List.flatMap_singleton]
  have hforth : forth x { s.setPending x o.sock.pendingRecv with
      lsnr := (s.setPending x o.sock.pendingRecv).lsnr.reads c o.next } =
      { s.forth x with parked := o.sock.unread, taken := (s.forth x).taken ++ o.bytes } := by
    obtain ⟨hring, hclosed, -⟩ :=
      End.reads_frame (s.setPending x o.sock.pendingRecv).lsnr c o.next
    have hset := parked_setPending h hp o.sock.pendingRecv
    simp only [forth, socks] at hset
    simp only [forth, socks, hring, hclosed, hset, htaken]
    rfl
  rw [hforth]
  exact .take (s.forth x) o.bytes o.sock.unread hopen hparked

/-- The connector reads. -/
theorem back_connRecv {p : Sock} {c : RecvCall} {access signal : Bool} {o : RecvOut}
    (hcalls : s.conn.Calls) (hp : s.conn.ring.sponsor = some p) (hopen : s.conn.closed = false)
    (hc : s.conn.read = some c) (ho : recvStep p c access signal = some o) :
    BytePipe.Step (s.back x)
      (back x { s with conn := (s.conn.setSponsor (some o.sock)).reads c o.next }) := by
  have hcase := recvStep_case ho (hcalls.read c hc)
  have htaken : ((s.conn.setSponsor (some o.sock)).reads c o.next).taken =
      s.conn.taken ++ o.bytes :=
    (End.taken_reads (e := s.conn.setSponsor (some o.sock)) ⟨hcalls.write, hcalls.read⟩ hc hcase).1
  have hparked : (s.back x).parked = o.bytes ++ o.sock.unread := by
    rw [recvStep_unread ho]
    simp only [back, hp, Option.toList_some, List.flatMap_singleton]
  have hback : back x { s with conn := (s.conn.setSponsor (some o.sock)).reads c o.next } =
      { s.back x with parked := o.sock.unread, taken := (s.back x).taken ++ o.bytes } := by
    obtain ⟨hring, hclosed, -⟩ := End.reads_frame (s.conn.setSponsor (some o.sock)) c o.next
    simp only [back, hring, hclosed, htaken]
    simp only [End.setSponsor, Option.toList_some, List.flatMap_singleton]
  rw [hback]
  exact .take (s.back x) o.bytes o.sock.unread hopen hparked

/-- A message that arrives does not touch the writes. -/
theorem written_gets (e : End) (source : Addr) (conid : UInt32) (message : Option (List UInt8))
    (q : Prop) [Decidable q] :
    (if q then e.gets source conid message else e).written = e.written := by
  split
  · cases message <;> rfl
  · rfl

theorem taken_wrote (e : End) (c : SendCall) (next : SendNext) :
    (e.wrote c next).taken = e.taken ∧ (e.wrote c next).closed = e.closed ∧
      (e.wrote c next).ring = e.ring := by
  cases next <;> exact ⟨rfl, rfl, rfl⟩

/-- The new socket has nothing to read, and there was none before it. -/
theorem forth_acceptFile {e : PendingRecv} {l₁ l₂ : List PendingRecv} (ref : Nat)
    (h : s.Handshake x) (htaken : s.taken = l₁ ++ e :: l₂) (he : x.entry e = true) :
    forth x { s with taken := l₁ ++ l₂, fresh := some (newSock ref e) } = s.forth x := by
  have hsingle := h.single
  simp only [tokens, ringTokens, countP_split x.entry htaken, he, if_true] at hsingle
  have hfresh : s.fresh.toList.filter x.peer = [] := by
    rw [← List.length_eq_zero_iff, ← List.countP_eq_length_filter]
    omega
  have hprivates : s.lsnr.ring.privates.filter x.peer = [] := by
    rw [← List.length_eq_zero_iff, ← List.countP_eq_length_filter]
    omega
  simp only [forth, socks, List.filter_append, hprivates, hfresh, Option.toList_some,
    List.append_nil, List.flatMap_nil, List.filter_singleton, Handshake.peer_newSock, he, cond_true,
    List.flatMap_singleton]
  rfl

/-- **One step**, from the connector to the acceptor. -/
theorem Step.forth {s' : Link} (hs : s.Step x s') (h : s.Handshake x) (hconn : s.conn.Calls)
    (hlsnr : s.lsnr.Calls) : BytePipe.Step (s.forth x) (s'.forth x) := by
  cases hs with
  | connect | connectFail | respite | giveUp | connIdle | connIrq | connFull | connOther
  | connDropped | lsnrPosted | lsnrDropped | acceptPop | acceptFail | listenerRelease
  | connRecvfrom | connFakeIrq | connRelease | accSendto => exact .keep _
  | lsnrIrq hne ho => exact forth_lsnrIrq h hne ho
  | @lsnrFull ref =>
    have hpeer : ∀ p : Sock,
        x.peer (if p.ref = ref then { p with full := true } else p) = x.peer p := by
      intro p
      split <;> rfl
    have hunread : ∀ p : Sock,
        (if p.ref = ref then { p with full := true } else p).unread = p.unread := by
      intro p
      split <;> rfl
    have hmap := filter_map_unread hpeer hunread s.lsnr.ring.privates
    apply step_of_eq
    simp only [Link.forth, socks, Ring.setFull, Ring.mapSocks, List.filter_append,
      List.flatMap_append, hmap]
    rfl
  | lsnrOther hm => exact step_of_eq (forth_push (Session.data_of_owns hm))
  | @connPosted m l₁ l₂ hposted =>
    have hdata : x.data m = [] :=
      h.connPosted m (by rw [hposted]; exact List.mem_append_right _ List.mem_cons_self)
    exact step_of_eq (forth_push (s := { s with conn := { s.conn with posted := l₁ ++ l₂ } }) hdata)
  | acceptFile htaken he => exact step_of_eq (forth_acceptFile _ h htaken he)
  | acceptList hfresh =>
    apply step_of_eq
    simp only [Link.forth, socks, hfresh]
    rfl
  | acceptOther htaken he =>
    apply step_of_eq
    simp only [Link.forth, socks, End.setPrivates, List.filter_append, List.filter_cons,
      Handshake.peer_newSock, he, Bool.false_eq_true, if_false]
    rfl
  | others hps =>
    apply step_of_eq
    simp only [Link.forth, socks, End.setPrivates, List.filter_append, hps]
    rfl
  | connSendto _ hnone _ hcall =>
    apply step_of_eq
    simp only [Link.forth, written_begin hnone hcall]
    rfl
  | @connSend p c res signal o hp hc hres ho =>
    exact forth_connSend h hconn hp hc (ho ▸ sendStep_case p _ c res signal (hconn.write c hc) hres)
  | @connRecv p c access signal o _ _ _ _ =>
    apply step_of_eq
    simp only [Link.forth, (End.reads_frame _ c o.next).2.2.2]
    rfl
  | @accSend p c res signal o =>
    obtain ⟨htaken, hclosed, hring⟩ := taken_wrote s.lsnr c o.next
    apply step_of_eq
    simp only [Link.forth, socks, htaken, hclosed, hring, written_gets]
  | accRecvfrom _ hnone hcall =>
    apply step_of_eq
    simp only [Link.forth, taken_begin hnone (recvfrom_call hcall)]
    rfl
  | accRecv hp hopen hc ho => exact forth_accRecv h hlsnr hp hopen hc ho
  | accFakeIrq hc _ =>
    apply step_of_eq
    simp only [Link.forth, taken_fakeIrq hc]
    rfl
  | accRelease =>
    have hlose := BytePipe.Step.lose (s.forth x) [] (s.lsnr.ring.queue.flatMap x.data)
    rw [List.append_nil] at hlose
    exact hlose _

/-- **One step**, from the acceptor to the connector. -/
theorem Step.back {s' : Link} (hs : s.Step x s') (h : s.Handshake x) (hconn : s.conn.Calls)
    (hlsnr : s.lsnr.Calls) : BytePipe.Step (s.back x) (s'.back x) := by
  cases hs with
  | lsnrIrq | lsnrFull | lsnrOther | connPosted | connDropped | lsnrDropped | acceptPop
  | acceptFail | acceptFile | acceptList | acceptOther | others | listenerRelease | connSendto
  | accRecvfrom | accFakeIrq | accRelease => exact .keep _
  | connect hp _ _ => exact back_sponsor hp rfl rfl rfl rfl rfl rfl
  | connectFail hp _ => exact back_sponsor hp rfl rfl rfl rfl rfl rfl
  | respite hp _ => exact back_sponsor hp rfl rfl rfl rfl rfl rfl
  | giveUp hp _ _ => exact back_sponsor hp rfl rfl rfl rfl rfl rfl
  | connIdle hidle =>
    have hnil := h.unheard hidle
    have hqueue : s.conn.ring.queue.tail.flatMap x.reply = s.conn.ring.queue.flatMap x.reply := by
      rw [List.flatMap_eq_nil_iff.mpr hnil, List.flatMap_eq_nil_iff]
      exact fun m hm => hnil m (List.mem_of_mem_tail hm)
    apply step_of_eq
    simp only [Link.back, hqueue]
    rfl
  | connIrq hne ho => exact back_connIrq h hne ho
  | @connFull ref =>
    cases hp : s.conn.ring.sponsor with
    | none =>
      apply step_of_eq
      simp only [Link.back, Ring.setFull, Ring.mapSocks, hp, Option.map_none]
      rfl
    | some p =>
      have hp' : (s.conn.ring.setFull ref).sponsor =
          some (if p.ref = ref then { p with full := true } else p) := by
        rw [Ring.setFull, Ring.mapSocks, hp, Option.map_some]
      exact back_sponsor hp hp' (by split <;> rfl) rfl rfl rfl rfl
  | connOther hm => exact step_of_eq (back_push (Session.reply_of_names hm))
  | @lsnrPosted m l₁ l₂ hposted =>
    have hreply : x.reply m = [] :=
      h.lsnrPosted m (by rw [hposted]; exact List.mem_append_right _ List.mem_cons_self)
    exact step_of_eq (back_push (s := { s with lsnr := { s.lsnr with posted := l₁ ++ l₂ } }) hreply)
  | @connSend p c res signal o =>
    obtain ⟨htaken, hclosed, hring⟩ := taken_wrote s.conn c o.next
    apply step_of_eq
    simp only [Link.back, htaken, hclosed, hring, written_gets]
  | connRecvfrom _ hnone hcall =>
    apply step_of_eq
    simp only [Link.back, taken_begin hnone (recvfrom_call hcall)]
  | connRecv hp hopen hc ho => exact back_connRecv hconn hp hopen hc ho
  | connFakeIrq hc _ =>
    apply step_of_eq
    simp only [Link.back, taken_fakeIrq hc]
  | connRelease =>
    have hlose := BytePipe.Step.lose (s.back x) [] (s.conn.ring.queue.flatMap x.reply)
    rw [List.append_nil] at hlose
    exact hlose _
  | accSendto _ hnone _ hcall =>
    apply step_of_eq
    simp only [Link.back, written_begin hnone hcall]
  | @accSend p c res signal o hp hc hres ho =>
    exact back_accSend hlsnr hp hc (ho ▸ sendStep_case p _ c res signal (hlsnr.write c hc) hres)
  | @accRecv p c access signal o _ _ _ _ =>
    apply step_of_eq
    simp only [Link.back, (End.reads_frame _ c o.next).2.2.2]
    rfl

/-! ## Every run -/

theorem calls_begin_write {e : End} {p : Sock} {data : List UInt8} {nonblock : Bool} {c : SendCall}
    (h : e.Calls) (hcall : sendto p data nonblock = .call c) :
    End.Calls { e with write := some c } := by
  refine ⟨?_, h.read⟩
  rintro c₁ ⟨⟩ -
  exact (Handshake.state_of_sendto hcall).2.2

theorem calls_begin_read {e : End} {p : Sock} {a : RecvArgs} {c : RecvCall} (h : e.Calls)
    (hcall : recvfrom p a = .call c) : End.Calls { e with read := some c } := by
  refine ⟨h.write, ?_⟩
  rintro c₁ ⟨⟩ -
  exact recvfrom_call hcall

theorem calls_fakeIrq {e : End} {c : RecvCall} (h : e.Calls) :
    End.Calls { e with read := some { c with phase := .checking } } := by
  refine ⟨h.write, ?_⟩
  rintro c₁ ⟨⟩ hentry
  cases hentry

theorem calls_gets {e : End} (h : e.Calls) (source : Addr) (conid : UInt32)
    (message : Option (List UInt8)) (q : Prop) [Decidable q] :
    (if q then e.gets source conid message else e).Calls := by
  split
  · cases message <;> exact ⟨h.write, h.read⟩
  · exact h

/-- **One step** of the calls. -/
theorem Step.calls {s' : Link} (hs : s.Step x s') (hconn : s.conn.Calls) (hlsnr : s.lsnr.Calls) :
    s'.conn.Calls ∧ s'.lsnr.Calls := by
  cases hs with
  | connSendto _ _ _ hcall => exact ⟨calls_begin_write hconn hcall, hlsnr⟩
  | @connSend p c res signal o _ hc hres ho =>
    have hcase : SendCase c o := ho ▸ sendStep_case p _ c res signal (hconn.write c hc) hres
    exact ⟨(End.written_wrote hconn hc hcase).2, calls_gets hlsnr ..⟩
  | connRecvfrom _ _ hcall => exact ⟨calls_begin_read hconn hcall, hlsnr⟩
  | @connRecv p c access signal o _ _ hc ho =>
    have hcase := recvStep_case ho (hconn.read c hc)
    exact ⟨(End.taken_reads (e := s.conn.setSponsor (some o.sock)) ⟨hconn.write, hconn.read⟩ hc
      hcase).2, hlsnr⟩
  | connFakeIrq => exact ⟨calls_fakeIrq hconn, hlsnr⟩
  | accSendto _ _ _ hcall => exact ⟨hconn, calls_begin_write hlsnr hcall⟩
  | @accSend p c res signal o _ hc hres ho =>
    have hcase : SendCase c o := ho ▸ sendStep_case p _ c res signal (hlsnr.write c hc) hres
    exact ⟨calls_gets hconn .., (End.written_wrote hlsnr hc hcase).2⟩
  | accRecvfrom _ _ hcall => exact ⟨hconn, calls_begin_read hlsnr hcall⟩
  | @accRecv p c access signal o _ _ hc ho =>
    have hcase := recvStep_case ho (hlsnr.read c hc)
    exact ⟨hconn, (End.taken_reads (e := (s.setPending x o.sock.pendingRecv).lsnr)
      ⟨hlsnr.write, hlsnr.read⟩ hc hcase).2⟩
  | accFakeIrq => exact ⟨hconn, calls_fakeIrq hlsnr⟩
  | _ => exact ⟨⟨hconn.write, hconn.read⟩, ⟨hlsnr.write, hlsnr.read⟩⟩

/-- **The invariant**: both pipes are sound. -/
structure Sound (x : Session) (s : Link) : Prop where
  handshake : s.Handshake x
  conn : s.conn.Calls
  lsnr : s.lsnr.Calls
  forth : (s.forth x).Sound
  back : (s.back x).Sound

theorem Sound.init (h : s.Init x) : s.Sound x := by
  obtain ⟨hw, hr, hw', hr'⟩ := h.calls
  obtain ⟨hacc, hrec, hacc', hrec'⟩ := h.reports
  obtain ⟨p, hp, -, hpend⟩ := h.bound
  have hforth : s.lsnr.ring.queue.flatMap x.data = [] :=
    List.flatMap_eq_nil_iff.mpr fun m hm => Session.data_of_owns (h.lsnrQueue m hm)
  have hback : s.conn.ring.queue.flatMap x.reply = [] :=
    List.flatMap_eq_nil_iff.mpr fun m hm => Session.reply_of_names (h.connQueue m hm)
  have hsocks : s.socks.filter x.peer = [] := by
    rw [socks, h.fresh]
    exact List.filter_eq_nil_iff.mpr fun p hp => by simp [h.privates p hp]
  refine ⟨.init h, ⟨?_, ?_⟩, ⟨?_, ?_⟩, ?_, ?_⟩
  · intro c hc; rw [hw] at hc; cases hc
  · intro c hc; rw [hr] at hc; cases hc
  · intro c hc; rw [hw'] at hc; cases hc
  · intro c hc; rw [hr'] at hc; cases hc
  · simp only [Link.forth, hforth, hsocks, End.written, End.taken, hacc, hrec', hw, hr']
    exact sound_nil _
  · simp only [Link.back, hback, hp, Option.toList_some, List.flatMap_singleton, Sock.unread, hpend,
      End.written, End.taken, hacc', hrec, hw', hr]
    exact sound_nil _

theorem Reached.sound (h : Reached x s) : s.Sound x := by
  induction h with
  | init hinit => exact .init hinit
  | step _ hs ih =>
    obtain ⟨hconn, hlsnr⟩ := hs.calls ih.conn ih.lsnr
    exact ⟨hs.handshake ih.handshake, hconn, hlsnr,
      (hs.forth ih.handshake ih.conn ih.lsnr).sound ih.forth,
      (hs.back ih.handshake ih.conn ih.lsnr).sound ih.back⟩

/-- The bytes of the write in progress. -/
def writing (e : End) : List UInt8 := e.write.elim [] SendCall.data

theorem written_initial (e : End) : e.written <+: e.accepted ++ writing e := by
  rw [End.written, writing, List.prefix_append_right_inj]
  cases e.write with
  | none => exact List.prefix_rfl
  | some c => exact List.take_prefix ..

/-- **Stream integrity.**  What the reads of one end have returned is the beginning of what the
writes of the other have reported as sent, and of the write in progress. -/
theorem stream_integrity (x : Session) (s : Link) (h : Reached x s) :
    s.lsnr.received <+: s.conn.accepted ++ writing s.conn ∧
      s.conn.received <+: s.lsnr.accepted ++ writing s.lsnr := by
  have hsound := h.sound
  have htaken : ∀ e : End, e.received <+: e.taken := fun e => List.prefix_append ..
  exact ⟨((htaken s.lsnr).trans hsound.forth.1).trans (written_initial s.conn),
    ((htaken s.conn).trans hsound.back.1).trans (written_initial s.lsnr)⟩

/-- Both ends before the connection, the listener at port 80. -/
def oneByteEnd (addr : Addr) (type : RType) (state : SockState) : End where
  ring := ⟨⟨addr, domidAny⟩, type, some ⟨0, state, ⟨0, 0⟩, 0, [], 0, false⟩, [], []⟩
  len := 131008
  closed := false
  posted := []
  write := none
  read := none
  accepted := []
  received := []

def oneByteLink : Link where
  conn := oneByteEnd ⟨1000, 1⟩ .idle .bound
  lsnr := oneByteEnd ⟨80, 2⟩ .listener .listening
  taken := []
  fresh := none

theorem oneByteLink_init : oneByteLink.Init ⟨⟨1000, 1⟩, ⟨80, 2⟩, 7⟩ where
  addr := rfl
  type := rfl
  bound := ⟨_, rfl, rfl, rfl⟩
  listens := rfl
  connQueue := fun _ hm => (nomatch hm)
  lsnrQueue := fun _ hm => (nomatch hm)
  pending := by
    rintro p ⟨⟩ e he
    cases he
  taken := fun _ hm => (nomatch hm)
  privates := fun _ hm => (nomatch hm)
  fresh := rfl
  posted := ⟨rfl, rfl⟩
  calls := ⟨rfl, rfl, rfl, rfl⟩
  reports := ⟨rfl, rfl, rfl, rfl⟩

/-- A byte goes all the way. -/
theorem received_one_byte : ∃ x s, Reached x s ∧ s.lsnr.received = [42] ∧
    s.lsnr.received <+: s.conn.accepted ++ writing s.conn := by
  have h := Reached.init oneByteLink_init
  -- the handshake
  have h := h.step (.connect rfl rfl rfl)
  have h := h.step (@Step.connPosted _ _ _ [] [] rfl)
  have h := h.step (@Step.lsnrIrq _ _ none _ (List.cons_ne_nil _ _) rfl)
  have h := h.step (@Step.acceptPop _ _ _ ⟨⟨1000, 1⟩, ⟨shfSyn, 7⟩, [], 0⟩ [] rfl rfl)
  have h := h.step (@Step.acceptFile _ _ ⟨⟨1000, 1⟩, ⟨shfSyn, 7⟩, [], 0⟩ [] [] 1 rfl (by decide))
  have h := h.step (.acceptList rfl)
  have h := h.step (@Step.lsnrPosted _ _ _ [] [] rfl)
  have h := h.step (@Step.connIrq _ _ none _ (List.cons_ne_nil _ _) rfl)
  -- the connector writes
  have h := h.step (@Step.connSendto _ _ _ [42] true _ rfl rfl (by decide) rfl)
  have h := h.step (@Step.connSend _ _ _ _ .sent false _ rfl rfl (by simp) rfl)
  have h := h.step (@Step.connSend _ _ _ _ .sent false _ rfl rfl (by simp) rfl)
  have h := h.step (@Step.connSend _ _ _ _ .sent false _ rfl rfl (by simp) rfl)
  have h := h.step (@Step.connSend _ _ _ _ .sent false _ rfl rfl (by simp) rfl)
  have h := h.step (@Step.lsnrIrq _ _ none _ (List.cons_ne_nil _ _) rfl)
  -- the acceptor reads
  have h := h.step (@Step.accRecvfrom _ _ _ ⟨10, true, false, false, false⟩ _ rfl rfl rfl)
  have h := h.step (@Step.accRecv _ _ _ _ true false _ rfl rfl rfl rfl)
  have h := h.step (@Step.accRecv _ _ _ _ true false _ rfl rfl rfl rfl)
  have h := h.step (@Step.accRecv _ _ _ _ true false _ rfl rfl rfl rfl)
  have h := h.step (@Step.accRecv _ _ _ _ true false _ rfl rfl rfl rfl)
  exact ⟨_, _, h, rfl, (stream_integrity _ _ h).1⟩

end Link

end V4v.Linux
