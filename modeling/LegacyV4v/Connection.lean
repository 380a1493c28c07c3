import LegacyV4v.BytePipe
import LegacyV4v.StreamDriver
import LegacyV4v.StreamSend

/-! # One connection, from end to end

The socket that connects, for the first time, and the socket that `v4v_accept` makes for it.
The connector sponsors its ring; the acceptor is one of the privates of the listener's ring,
which it shares with other connections.  Each end has a thread that writes and one that reads.

A hypervisor ring is a queue of messages.  A send puts a message at the end of the queue, or
fails, at any time.  SYN, ACK and RST go out through `xmit_queue_inline`: they are sent at once,
or later, or never.  Everything else is the driver's code, one step for each part of a call
that others cannot interrupt: the interrupt handlers message by message, with allocations that
may fail; `v4v_connect` and its timer; the parts of `v4v_accept`, in which the new socket has a
file before it is in the list; sends and receives; and release.  What happens on other sockets
of the listener's ring is not restricted, as long as it leaves the sockets of this connection
alone, and messages of other connections arrive in either ring.

Nobody else uses the connector's address with this connection id, or sends to the connector
with this id. -/
namespace V4v.Linux

/-- Who connects to whom, and the id that the connector has drawn. -/
structure Session where
  connector : Addr
  listener : Addr
  conid : UInt32

/-! ## Messages and sockets of the session -/

/-- The message is data, not SYN, ACK or RST. -/
def StreamHeader.plain (sh : StreamHeader) : Bool :=
  !sh.has shfSyn && !sh.has shfAck && !sh.has shfRst

namespace Session

/-- The connector's SYN. -/
def syn (x : Session) : Message := streamMessage x.connector ⟨shfSyn, x.conid⟩ []

/-- The acceptor's ACK. -/
def ack (x : Session) : Message := streamMessage x.listener ⟨shfAck, x.conid⟩ []

/-- A stream message, with the header satisfying `f`. -/
def header (f : StreamHeader → Bool) (m : Message) : Bool :=
  match peekHeader m with
  | none => false
  | some (sh, _) => f sh

/-- On the listener's ring: the message is the connector's. -/
def owns (x : Session) (m : Message) : Bool :=
  m.source == x.connector && header (fun sh => sh.conid == x.conid) m

/-- On the connector's ring: the message is for the connector. -/
def names (x : Session) (m : Message) : Bool := header (fun sh => sh.conid == x.conid) m

/-- The entry of a pending list is the connector's. -/
def entry (x : Session) (e : PendingRecv) : Bool :=
  e.source == x.connector && e.sh.conid == x.conid

/-- The socket is the acceptor. -/
def peer (x : Session) (p : Sock) : Bool := p.isPeer x.connector x.conid

end Session

/-! ## The two ends -/

/-- One end: the ring, and its length in bytes; whether the socket has been released; the control
messages in `pending_xmit_list` for the other end's ring; the calls in progress; and the bytes
that finished calls reported as sent, and returned. -/
structure End where
  ring : Ring
  len : Nat
  closed : Bool
  posted : List Message
  write : Option SendCall
  read : Option RecvCall
  accepted : List UInt8
  received : List UInt8

namespace End

/-- A message arrives. -/
def push (e : End) (m : Message) : End :=
  { e with ring := { e.ring with queue := e.ring.queue ++ [m] } }

/-- Another sponsor. -/
def setSponsor (e : End) (p : Option Sock) : End := { e with ring := { e.ring with sponsor := p } }

/-- Other privates. -/
def setPrivates (e : End) (ps : List Sock) : End :=
  { e with ring := { e.ring with privates := ps } }

/-- The RSTs that go to `dest`. -/
def resetsTo (dest : Addr) (resets : List Reset) : List Message :=
  (resets.filter fun y => y.dest = dest).map Reset.message

/-- The interrupt handler has handled one message. -/
def handled (e : End) (other : Addr) (o : RingOut) : End :=
  { e with ring := o.ring, posted := e.posted ++ resetsTo other o.reset.toList }

/-- A step of the write. -/
def wrote (e : End) (c : SendCall) (next : SendNext) : End :=
  match next with
  | .call c' => { e with write := some c' }
  | .ret v => { e with write := none, accepted := e.accepted ++ reported c.data v }

/-- The message of a step of the other end's write. -/
def gets (e : End) (source : Addr) (conid : UInt32) (message : Option (List UInt8)) : End :=
  match message with
  | none => e
  | some data => e.push (streamMessage source ⟨0, conid⟩ data)

/-- A step of the read. -/
def reads (e : End) (c : RecvCall) (next : RecvNext) : End :=
  match next with
  | .call c' => { e with read := some c' }
  | .ret v => { e with read := none, received := e.received ++ c.copied.take v.toNat }

end End

/-- The two ends; the SYNs that accepts have taken off the listener's list; and the acceptor while
it has a file and is not yet in the list of the ring. -/
structure Link where
  conn : End
  lsnr : End
  taken : List PendingRecv
  fresh : Option Sock

namespace Link

/-- The accepted sockets. -/
def socks (s : Link) : List Sock := s.fresh.toList ++ s.lsnr.ring.privates

/-- The acceptor. -/
def acceptor (x : Session) (s : Link) : Option Sock := s.socks.find? x.peer

/-- Assign the acceptor's pending list. -/
def setPending (x : Session) (s : Link) (pending : List PendingRecv) : Link :=
  let f := fun p => if x.peer p then { p with pendingRecv := pending } else p
  { s with fresh := s.fresh.map f, lsnr := s.lsnr.setPrivates (s.lsnr.ring.privates.map f) }

/-- The socket that `v4v_accept` makes of a SYN. -/
def newSock (ref : Nat) (e : PendingRecv) : Sock :=
  ⟨ref, .accepted, e.source, e.sh.conid, [], 0, false⟩

/-- The RSTs for the connections that a listener has not accepted when it is released. -/
def refusals (id : RingId) (p : Sock) : List Reset :=
  (p.pendingRecv.filter fun e => e.sh.has shfSyn).map fun e => ⟨id, e.sh.conid, e.source⟩

/-- One step. -/
inductive Step (x : Session) (s : Link) : Link → Prop
  -- the connector connects
  | connect {p : Sock} : s.conn.ring.sponsor = some p → p.state = .bound →
      s.conn.ring.type = .idle →
      Step x s { s with conn := { s.conn with
        ring := { s.conn.ring with
          type := .connector
          sponsor := some { p with state := .connecting, conid := x.conid, peer := x.listener } }
        posted := s.conn.posted ++ [x.syn] } }
  | connectFail {p : Sock} {l₁ l₂ : List Message} : s.conn.ring.sponsor = some p →
      s.conn.posted = l₁ ++ x.syn :: l₂ →
      Step x s { s with conn := { s.conn with
        ring := { s.conn.ring with type := .dgram, sponsor := some { p with state := .bound } }
        posted := l₁ ++ l₂ } }
  | respite {p : Sock} : s.conn.ring.sponsor = some p → s.conn.ring.type ≠ .idle →
      Step x s { s with conn :=
        s.conn.setSponsor (some { p with pendingError := -etimedout, state := .disconnected }) }
  | giveUp {p : Sock} : s.conn.ring.sponsor = some p → s.conn.ring.type ≠ .idle →
      p.state = .disconnected →
      Step x s { s with conn := { s.conn with
        ring := { s.conn.ring with type := .dgram, sponsor := some { p with state := .bound } } } }
  -- the interrupt handlers
  | connIdle : s.conn.ring.type = .idle →
      Step x s { s with conn := { s.conn with
        ring := { s.conn.ring with queue := s.conn.ring.queue.tail } } }
  | connIrq {mem : Option Nat} {o : RingOut} : s.conn.ring.queue ≠ [] →
      s.conn.ring.handle mem = some o →
      Step x s { s with conn := s.conn.handled x.listener o }
  | lsnrIrq {mem : Option Nat} {o : RingOut} : s.lsnr.ring.queue ≠ [] →
      s.lsnr.ring.handle mem = some o →
      Step x s { s with lsnr := s.lsnr.handled x.connector o }
  -- a list was full when its count was read
  | connFull {ref : Nat} :
      Step x s { s with conn := { s.conn with ring := s.conn.ring.setFull ref } }
  | lsnrFull {ref : Nat} :
      Step x s { s with lsnr := { s.lsnr with ring := s.lsnr.ring.setFull ref } }
  -- other messages, and control messages on their way
  | connOther {m : Message} : x.names m = false → Step x s { s with conn := s.conn.push m }
  | lsnrOther {m : Message} : x.owns m = false → Step x s { s with lsnr := s.lsnr.push m }
  | connPosted {m : Message} {l₁ l₂ : List Message} : s.conn.posted = l₁ ++ m :: l₂ →
      Step x s { s with conn := { s.conn with posted := l₁ ++ l₂ }, lsnr := s.lsnr.push m }
  | connDropped {m : Message} {l₁ l₂ : List Message} : s.conn.posted = l₁ ++ m :: l₂ →
      Step x s { s with conn := { s.conn with posted := l₁ ++ l₂ } }
  | lsnrPosted {m : Message} {l₁ l₂ : List Message} : s.lsnr.posted = l₁ ++ m :: l₂ →
      Step x s { s with lsnr := { s.lsnr with posted := l₁ ++ l₂ }, conn := s.conn.push m }
  | lsnrDropped {m : Message} {l₁ l₂ : List Message} : s.lsnr.posted = l₁ ++ m :: l₂ →
      Step x s { s with lsnr := { s.lsnr with posted := l₁ ++ l₂ } }
  -- accepts on the listener, by any number of threads
  | acceptPop {p : Sock} {e : PendingRecv} {es : List PendingRecv} :
      s.lsnr.ring.sponsor = some p → p.pendingRecv = e :: es →
      Step x s { s with
        lsnr := s.lsnr.setSponsor (some { p with pendingRecv := es })
        taken := if e.data = [] ∧ e.sh.has shfSyn = true then e :: s.taken else s.taken }
  | acceptFail {e : PendingRecv} {l₁ l₂ : List PendingRecv} : s.taken = l₁ ++ e :: l₂ →
      Step x s { s with taken := l₁ ++ l₂ }
  | acceptFile {e : PendingRecv} {l₁ l₂ : List PendingRecv} {ref : Nat} :
      s.taken = l₁ ++ e :: l₂ → x.entry e = true →
      Step x s { s with taken := l₁ ++ l₂, fresh := some (newSock ref e) }
  | acceptList {p : Sock} : s.fresh = some p →
      Step x s { s with
        fresh := none
        lsnr := { s.lsnr.setPrivates (p :: s.lsnr.ring.privates) with
          posted := s.lsnr.posted ++ [x.ack] } }
  | acceptOther {e : PendingRecv} {l₁ l₂ : List PendingRecv} {ref : Nat} :
      s.taken = l₁ ++ e :: l₂ → x.entry e = false →
      Step x s { s with
        taken := l₁ ++ l₂
        lsnr := s.lsnr.setPrivates (newSock ref e :: s.lsnr.ring.privates) }
  -- calls on the other accepted sockets, and the release of the listener
  | others {ps : List Sock} : ps.filter x.peer = s.lsnr.ring.privates.filter x.peer →
      Step x s { s with lsnr := s.lsnr.setPrivates ps }
  | listenerRelease {p : Sock} : s.lsnr.ring.sponsor = some p →
      Step x s { s with lsnr := { s.lsnr.setSponsor none with
        posted := s.lsnr.posted ++ End.resetsTo x.connector (refusals s.lsnr.ring.id p) } }
  -- calls on the connector
  | connSendto {p : Sock} {data : List UInt8} {nonblock : Bool} {c : SendCall} :
      s.conn.ring.sponsor = some p → s.conn.write = none → data.length < 2 ^ 31 →
      sendto p data nonblock = .call c → Step x s { s with conn := { s.conn with write := some c } }
  | connSend {p : Sock} {c : SendCall} {res : SendResult} {signal : Bool} {o : SendOut} :
      s.conn.ring.sponsor = some p → s.conn.write = some c →
      (∀ err, res = .failed err → err < 0) → sendStep p s.conn.len c res signal = o →
      Step x s { s with
        conn := s.conn.wrote c o.next
        lsnr := if p.peer = x.listener then
            s.lsnr.gets s.conn.ring.id.addr p.conid o.message
          else s.lsnr }
  | connRecvfrom {p : Sock} {a : RecvArgs} {c : RecvCall} : s.conn.ring.sponsor = some p →
      s.conn.read = none → Linux.recvfrom p a = .call c →
      Step x s { s with conn := { s.conn with read := some c } }
  | connRecv {p : Sock} {c : RecvCall} {access signal : Bool} {o : RecvOut} :
      s.conn.ring.sponsor = some p → s.conn.closed = false → s.conn.read = some c →
      recvStep p c access signal = some o →
      Step x s { s with conn := (s.conn.setSponsor (some o.sock)).reads c o.next }
  | connFakeIrq {c : RecvCall} : s.conn.read = some c → c.phase = .faking →
      Step x s { s with conn := { s.conn with read := some { c with phase := .checking } } }
  | connRelease {p : Sock} : s.conn.ring.sponsor = some p → s.conn.write = none →
      s.conn.read = none →
      Step x s { s with conn := { s.conn.setSponsor none with
        closed := true
        posted := s.conn.posted ++ if p.state = .connected ∨ p.state = .connecting then
            End.resetsTo x.listener [⟨s.conn.ring.id, p.conid, p.peer⟩]
          else [] } }
  -- calls on the acceptor
  | accSendto {p : Sock} {data : List UInt8} {nonblock : Bool} {c : SendCall} :
      s.acceptor x = some p → s.lsnr.write = none → data.length < 2 ^ 31 →
      sendto p data nonblock = .call c → Step x s { s with lsnr := { s.lsnr with write := some c } }
  | accSend {p : Sock} {c : SendCall} {res : SendResult} {signal : Bool} {o : SendOut} :
      s.acceptor x = some p → s.lsnr.write = some c →
      (∀ err, res = .failed err → err < 0) → sendStep p s.lsnr.len c res signal = o →
      Step x s { s with
        lsnr := s.lsnr.wrote c o.next
        conn := if p.peer = x.connector then
            s.conn.gets s.lsnr.ring.id.addr p.conid o.message
          else s.conn }
  | accRecvfrom {p : Sock} {a : RecvArgs} {c : RecvCall} : s.acceptor x = some p →
      s.lsnr.read = none → Linux.recvfrom p a = .call c →
      Step x s { s with lsnr := { s.lsnr with read := some c } }
  | accRecv {p : Sock} {c : RecvCall} {access signal : Bool} {o : RecvOut} :
      s.acceptor x = some p → s.lsnr.closed = false → s.lsnr.read = some c →
      recvStep p c access signal = some o →
      Step x s { s.setPending x o.sock.pendingRecv with
        lsnr := (s.setPending x o.sock.pendingRecv).lsnr.reads c o.next }
  | accFakeIrq {c : RecvCall} : s.lsnr.read = some c → c.phase = .faking →
      Step x s { s with lsnr := { s.lsnr with read := some { c with phase := .checking } } }
  | accRelease {p : Sock} {l₁ l₂ : List Sock} : s.lsnr.ring.privates = l₁ ++ p :: l₂ →
      x.peer p = true → s.lsnr.write = none → s.lsnr.read = none →
      Step x s { s with lsnr := { s.lsnr.setPrivates (l₁ ++ l₂) with
        closed := true
        posted := s.lsnr.posted ++ if p.state = .accepted then
            End.resetsTo x.connector [⟨s.lsnr.ring.id, p.conid, p.peer⟩]
          else [] } }

/-- Before the connection: the connector is bound, and nothing in either ring, in the listener's
list or among the accepted sockets belongs to it. -/
structure Init (x : Session) (s : Link) : Prop where
  addr : s.conn.ring.id.addr = x.connector
  type : s.conn.ring.type = .idle
  bound : ∃ p, s.conn.ring.sponsor = some p ∧ p.state = .bound ∧ p.pendingRecv = []
  listens : s.lsnr.ring.type = .listener
  connQueue : ∀ m ∈ s.conn.ring.queue, x.names m = false
  lsnrQueue : ∀ m ∈ s.lsnr.ring.queue, x.owns m = false
  pending : ∀ p, s.lsnr.ring.sponsor = some p → ∀ e ∈ p.pendingRecv, x.entry e = false
  taken : ∀ e ∈ s.taken, x.entry e = false
  privates : ∀ p ∈ s.lsnr.ring.privates, x.peer p = false
  fresh : s.fresh = none
  posted : s.conn.posted = [] ∧ s.lsnr.posted = []
  calls : s.conn.write = none ∧ s.conn.read = none ∧ s.lsnr.write = none ∧ s.lsnr.read = none
  reports : s.conn.accepted = [] ∧ s.conn.received = [] ∧ s.lsnr.accepted = [] ∧
    s.lsnr.received = []

/-- The states that a connection comes to. -/
inductive Reached (x : Session) : Link → Prop
  | init {s : Link} : s.Init x → Reached x s
  | step {s s' : Link} : Reached x s → s.Step x s' → Reached x s'

end Link

end V4v.Linux
