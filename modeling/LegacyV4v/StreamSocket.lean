import LegacyV4v.RingFifo

/-! # The interrupt handlers of the Linux driver

A stream socket (`struct v4v_private`) either sponsors its ring, as a connector or a
listener does, or is one of the privates of a listener's ring: an accepted connection.
Messages arrive in the ring.  The interrupt handler looks at the first one, and either
consumes it, possibly answering with a RST, or copies it to the pending list of the
socket it is for.  If that list is full, or there is no memory, the message stays where it
is and the pass over this ring ends.

The ring is the list of its messages, oldest first; `RingFifo` relates that list to the
bytes of the ring.  The recovery of a ring whose bytes are damaged (`recover_ring`) is left
out.  `mem` says how many further allocations succeed, `none` being no limit. -/
namespace V4v.Linux
open MachineWord

/-! ## Stream messages -/

/-- `V4V_PROTO_STREAM`. -/
def protoStream : UInt32 := 0x70f6a8e5

/-- `V4V_SHF_SYN`. -/
def shfSyn : UInt32 := 1

/-- `V4V_SHF_ACK`. -/
def shfAck : UInt32 := 2

/-- `V4V_SHF_RST`. -/
def shfRst : UInt32 := 4

/-- `struct v4v_stream_header`. -/
structure StreamHeader where
  flags : UInt32
  conid : UInt32
  deriving DecidableEq, Repr

/-- `sizeof (struct v4v_stream_header)`. -/
def sizeofStreamHeader : Nat := 8

namespace StreamHeader

/-- `sh->flags & f`. -/
def has (sh : StreamHeader) (f : UInt32) : Bool := sh.flags &&& f != 0

theorem has_of_flags {flags f : UInt32} (conid : UInt32) {b : Bool} (h : (flags &&& f != 0) = b) :
    has ⟨flags, conid⟩ f = b := h

theorem has_or (sh : StreamHeader) (f g : UInt32) : sh.has (f ||| g) = (sh.has f || sh.has g) := by
  have hdist : sh.flags &&& (f ||| g) = (sh.flags &&& f) ||| (sh.flags &&& g) := by
    rw [← UInt32.toBitVec_inj]
    simp only [UInt32.toBitVec_and, UInt32.toBitVec_or]
    exact BitVec.and_or_distrib_left
  rw [Bool.eq_iff_iff]
  simp only [has, hdist, bne_iff_ne, ne_eq, UInt32.or_eq_zero_iff, Bool.or_eq_true]
  tauto

/-- The header as it stands in front of a message. -/
def bytes (sh : StreamHeader) : List UInt8 :=
  MachineWord.bytes 4 sh.flags.toNat ++ MachineWord.bytes 4 sh.conid.toNat

@[simp] theorem bytes_length (sh : StreamHeader) : sh.bytes.length = sizeofStreamHeader := by
  simp [bytes, sizeofStreamHeader]

/-- The header that eight bytes denote. -/
def ofBytes (bs : List UInt8) : StreamHeader where
  flags := UInt32.ofNat (value (bs.take 4))
  conid := UInt32.ofNat (value ((bs.drop 4).take 4))

theorem ofBytes_bytes_append (sh : StreamHeader) (bs : List UInt8) :
    ofBytes (sh.bytes ++ bs) = sh := by
  have hword : ∀ w : UInt32, UInt32.ofNat (value (MachineWord.bytes 4 w.toNat)) = w := by
    intro w
    have hlt : w.toNat < 256 ^ 4 := w.toNat_lt
    rw [value_bytes, Nat.mod_eq_of_lt hlt]
    exact UInt32.ofNat_toNat
  have h4 : ∀ w : UInt32, (MachineWord.bytes 4 w.toNat).length = 4 := fun w => by simp
  cases sh with
  | mk flags conid =>
    simp only [ofBytes, bytes, List.append_assoc, mk.injEq]
    constructor
    · rw [List.take_left' (h4 flags), hword]
    · rw [List.drop_left' (h4 flags), List.take_left' (h4 conid), hword]

end StreamHeader

/-- A stream message of `source`. -/
def streamMessage (source : Addr) (sh : StreamHeader) (data : List UInt8) : Message :=
  ⟨source, protoStream, sh.bytes ++ data⟩

/-- The header an interrupt handler peeks, and what follows it; `none` for the messages it
bins, those of another protocol and those shorter than the header. -/
def peekHeader (m : Message) : Option (StreamHeader × List UInt8) :=
  if m.protocol ≠ protoStream ∨ m.payload.length < sizeofStreamHeader then
    none
  else
    some (.ofBytes m.payload, m.payload.drop sizeofStreamHeader)

@[simp] theorem peekHeader_streamMessage (source : Addr) (sh : StreamHeader) (data : List UInt8) :
    peekHeader (streamMessage source sh data) = some (sh, data) := by
  have hlong : ¬ (sh.bytes ++ data).length < sizeofStreamHeader := by simp
  simp only [peekHeader, streamMessage, ne_eq, not_true_eq_false, false_or, if_neg hlong]
  rw [StreamHeader.ofBytes_bytes_append, List.drop_left' (StreamHeader.bytes_length sh)]

theorem eq_of_peekHeader {m : Message} {sh sh' : StreamHeader} {data data' : List UInt8}
    (h : peekHeader m = some (sh, data)) (h' : peekHeader m = some (sh', data')) :
    sh = sh' ∧ data = data' :=
  Prod.mk.inj (Option.some.inj (h.symm.trans h'))

/-! ## Sockets and rings -/

/-- `v4v_state`. -/
inductive SockState where
  | idle
  | bound
  | listening
  | accepted
  | connecting
  | connected
  | disconnected
  deriving DecidableEq, Repr

/-- `v4v_rtype`. -/
inductive RType where
  | idle
  | dgram
  | listener
  | connector
  deriving DecidableEq, Repr

/-- `struct pending_recv`; `data_len` is the length of `data`. -/
structure PendingRecv where
  source : Addr
  sh : StreamHeader
  data : List UInt8
  dataPtr : Nat
  deriving DecidableEq, Repr

/-- `struct v4v_private` of a stream socket.  `ref` is its address; `pending_recv_count`
is the length of `pendingRecv`. -/
structure Sock where
  ref : Nat
  state : SockState
  peer : Addr
  conid : UInt32
  pendingRecv : List PendingRecv
  pendingError : Int
  full : Bool
  deriving DecidableEq, Repr

/-- `struct ring`, its memory being the messages in it. -/
structure Ring where
  id : RingId
  type : RType
  sponsor : Option Sock
  privates : List Sock
  queue : List Message

/-- `MAX_PENDING_RECVS`. -/
def maxPendingRecvs : Nat := 16

/-- `stream_connected`. -/
def streamConnected (p : Sock) : Bool :=
  match p.state with
  | .accepted => true
  | .connected => true
  | _ => false

/-- A RST that `xmit_queue_rst_to` is asked for. -/
structure Reset where
  source : RingId
  conid : UInt32
  dest : Addr
  deriving DecidableEq, Repr

/-- The message of the RST. -/
def Reset.message (x : Reset) : Message :=
  streamMessage x.source.addr ⟨shfRst, x.conid⟩ []

/-- `v4v_kmalloc`, as the number of allocations that succeed before one fails. -/
def kmalloc : Option Nat → Bool × Option Nat
  | none => (true, none)
  | some 0 => (false, some 0)
  | some (n + 1) => (true, some n)

/-! ## Handling one message -/

/-- What a handler leaves of one socket and of the ring's memory. -/
structure SockOut where
  ret : Int
  queue : List Message
  sock : Sock
  reset : Option Reset
  mem : Option Nat

/-- What a handler leaves of the ring. -/
structure RingOut where
  ret : Int
  ring : Ring
  reset : Option Reset
  mem : Option Nat

/-- `copy_into_pending_recv`, for the message that is first in `queue`. -/
def copyIntoPendingRecv (queue : List Message) (source : Addr) (sh : StreamHeader)
    (data : List UInt8) (p : Sock) (mem : Option Nat) : SockOut :=
  if p.pendingRecv.length > maxPendingRecvs then
    ⟨-1, queue, { p with full := true }, none, mem⟩
  else if (kmalloc mem).1 = false then
    ⟨-1, queue, p, none, (kmalloc mem).2⟩
  else
    ⟨0, queue.tail,
      { p with pendingRecv := p.pendingRecv ++ [⟨source, sh, data, 0⟩], full := false },
      none, (kmalloc mem).2⟩

/-- The second half of `connector_state_machine`, for RST. -/
def connectorReset (p : Sock) (sh : StreamHeader) : Sock :=
  if sh.has shfRst then
    match p.state with
    | .connecting => { p with pendingError := -econnrefused, state := .disconnected }
    | .connected => { p with state := .disconnected }
    | _ => p
  else p

/-- `connector_state_machine`; `true` asks for a RST. -/
def connectorStateMachine (p : Sock) (sh : StreamHeader) : Bool × Sock :=
  if sh.has shfAck then
    match p.state with
    | .connecting => (false, { p with state := .connected, pendingError := 0 })
    | .connected => (true, { p with state := .disconnected })
    | .disconnected => (true, { p with state := .disconnected })
    | _ => (false, connectorReset p sh)
  else (false, connectorReset p sh)

/-- `acceptor_state_machine`. -/
def acceptorStateMachine (p : Sock) (sh : StreamHeader) : Sock :=
  if sh.has shfRst ∧ p.state = .accepted then { p with state := .disconnected } else p

/-- `connector_interrupt`. -/
def connectorInterrupt (r : Ring) (mem : Option Nat) : RingOut :=
  match r.sponsor, r.queue with
  | none, _ => ⟨-1, r, none, mem⟩
  | some _, [] => ⟨0, r, none, mem⟩
  | some p, m :: rest =>
    match peekHeader m with
    | none => ⟨0, { r with queue := rest }, none, mem⟩
    | some (sh, data) =>
      -- nobody should send SYN to a connector
      if sh.has shfSyn then
        ⟨0, { r with queue := rest },
          if data = [] then some ⟨r.id, sh.conid, m.source⟩ else none, mem⟩
      else if sh.conid ≠ p.conid then
        ⟨0, { r with queue := rest }, some ⟨r.id, sh.conid, m.source⟩, mem⟩
      else if sh.has (shfAck ||| shfRst) then
        if data = [] then
          let (rst, p') := connectorStateMachine p sh
          ⟨0, { r with queue := rest, sponsor := some p' },
            if rst then some ⟨r.id, sh.conid, m.source⟩ else none, mem⟩
        else
          ⟨0, { r with queue := rest }, none, mem⟩
      else
        let c := copyIntoPendingRecv (m :: rest) m.source sh data p mem
        ⟨c.ret, { r with queue := c.queue, sponsor := some c.sock }, none, c.mem⟩

/-- `acceptor_interrupt`, for the message `m` that is first in the ring. -/
def acceptorInterrupt (id : RingId) (p : Sock) (m : Message) (rest : List Message)
    (sh : StreamHeader) (data : List UInt8) (mem : Option Nat) : SockOut :=
  -- nobody should send SYN or ACK to an acceptor
  if sh.has (shfSyn ||| shfAck) then
    ⟨0, rest, p, if data = [] then some ⟨id, sh.conid, m.source⟩ else none, mem⟩
  else if sh.has shfRst then
    ⟨0, rest, if data = [] then acceptorStateMachine p sh else p, none, mem⟩
  else
    copyIntoPendingRecv (m :: rest) m.source sh data p mem

/-- Run `f` on the first socket of the list that satisfies `sel`, and put its result in
that socket's place. -/
def onFirst (sel : Sock → Bool) (f : Sock → SockOut) : List Sock → Option (SockOut × List Sock)
  | [] => none
  | p :: ps =>
    if sel p then
      some (f p, (f p).sock :: ps)
    else
      match onFirst sel f ps with
      | none => none
      | some (o, ps') => some (o, p :: ps')

/-- Whether the socket is the one of connection `conid` with `source`. -/
def Sock.isPeer (p : Sock) (source : Addr) (conid : UInt32) : Bool :=
  p.conid == conid && p.peer == source

/-- Whether the entry is the SYN of connection `conid`. -/
def PendingRecv.isSyn (e : PendingRecv) (conid : UInt32) : Bool :=
  e.sh.has shfSyn && e.sh.conid == conid

/-- The loop of `listener_interrupt` that takes the first pending SYN of a connection
back. -/
def evictSyn (conid : UInt32) (p : Sock) : Sock :=
  { p with pendingRecv := p.pendingRecv.eraseP fun e => e.isSyn conid }

/-- `listener_interrupt`. -/
def listenerInterrupt (r : Ring) (mem : Option Nat) : RingOut :=
  match r.queue with
  | [] => ⟨0, r, none, mem⟩
  | m :: rest =>
    match peekHeader m with
    | none => ⟨0, { r with queue := rest }, none, mem⟩
    | some (sh, data) =>
      match onFirst (fun p => p.isPeer m.source sh.conid)
          (fun p => acceptorInterrupt r.id p m rest sh data mem) r.privates with
      | some (o, privates) =>
        ⟨o.ret, { r with queue := o.queue, privates := privates }, o.reset, o.mem⟩
      | none =>
        if sh.has shfRst then
          ⟨0, { r with queue := rest, sponsor := r.sponsor.map (evictSyn sh.conid) }, none, mem⟩
        else if sh.has shfSyn then
          match r.sponsor with
          | none => ⟨0, { r with queue := rest }, none, mem⟩
          | some p =>
            if data ≠ [] then
              ⟨0, { r with queue := rest }, none, mem⟩
            else
              let c := copyIntoPendingRecv (m :: rest) m.source sh data p mem
              ⟨c.ret, { r with queue := c.queue, sponsor := some c.sock }, none, c.mem⟩
        else
          -- data for an unknown destination
          ⟨0, { r with queue := rest }, some ⟨r.id, sh.conid, m.source⟩, mem⟩

/-- One call of the handler that the ring's type has; idle and datagram rings have none. -/
def Ring.handle (r : Ring) (mem : Option Nat) : Option RingOut :=
  match r.type with
  | .connector => some (connectorInterrupt r mem)
  | .listener => some (listenerInterrupt r mem)
  | _ => none

/-! ## What handling one message can do

Every later proof goes through these case lists and not through the handlers' code. -/

/-- What `copy_into_pending_recv` can do. -/
inductive CopyCase (queue : List Message) (source : Addr) (sh : StreamHeader) (data : List UInt8)
    (p : Sock) (mem : Option Nat) : SockOut → Prop
  | full : p.pendingRecv.length > maxPendingRecvs →
      CopyCase queue source sh data p mem ⟨-1, queue, { p with full := true }, none, mem⟩
  | starved : ¬ p.pendingRecv.length > maxPendingRecvs → mem = some 0 →
      CopyCase queue source sh data p mem ⟨-1, queue, p, none, mem⟩
  | copied : ¬ p.pendingRecv.length > maxPendingRecvs → mem ≠ some 0 →
      CopyCase queue source sh data p mem ⟨0, queue.tail,
        { p with pendingRecv := p.pendingRecv ++ [⟨source, sh, data, 0⟩], full := false },
        none, (kmalloc mem).2⟩

theorem copy_cases (queue : List Message) (source : Addr) (sh : StreamHeader) (data : List UInt8)
    (p : Sock) (mem : Option Nat) :
    CopyCase queue source sh data p mem (copyIntoPendingRecv queue source sh data p mem) := by
  rw [copyIntoPendingRecv]
  split
  · next hfull => exact .full hfull
  · next hroom =>
    match mem with
    | some 0 => exact .starved hroom rfl
    | some (n + 1) => exact .copied hroom (by simp)
    | none => exact .copied hroom (by simp)

/-- What `connector_state_machine` can do. -/
inductive MachineCase (p : Sock) (sh : StreamHeader) : Bool × Sock → Prop
  | opened : sh.has shfAck = true → p.state = .connecting →
      MachineCase p sh (false, { p with state := .connected, pendingError := 0 })
  | confused : sh.has shfAck = true → p.state = .connected ∨ p.state = .disconnected →
      MachineCase p sh (true, { p with state := .disconnected })
  | refused : sh.has shfAck = false → sh.has shfRst = true → p.state = .connecting →
      MachineCase p sh (false, { p with pendingError := -econnrefused, state := .disconnected })
  | closed : sh.has shfAck = false → sh.has shfRst = true → p.state = .connected →
      MachineCase p sh (false, { p with state := .disconnected })
  | unmoved : (sh.has shfAck = true → p.state ≠ .connected ∧ p.state ≠ .disconnected) →
      (sh.has (shfAck ||| shfRst) = true → p.state ≠ .connecting ∧ p.state ≠ .connected) →
      MachineCase p sh (false, p)

theorem machine_cases (p : Sock) (sh : StreamHeader) :
    MachineCase p sh (connectorStateMachine p sh) := by
  rw [connectorStateMachine]
  split
  · next hack =>
    split
    · next hst => exact .opened hack hst
    · next hst => exact .confused hack (.inl hst)
    · next hst => exact .confused hack (.inr hst)
    · next hno₁ hno₂ hno₃ =>
      have hreset : connectorReset p sh = p := by
        rw [connectorReset]
        split
        · split
          · next hst => exact absurd hst hno₁
          · next hst => exact absurd hst hno₂
          · rfl
        · rfl
      rw [hreset]
      exact .unmoved (fun _ => ⟨hno₂, hno₃⟩) fun _ => ⟨hno₁, hno₂⟩
  · next hack =>
    have hack : sh.has shfAck = false := by simpa using hack
    rw [connectorReset]
    split
    · next hrst =>
      split
      · next hst => exact .refused hack hrst hst
      · next hst => exact .closed hack hrst hst
      · next hno₁ hno₂ => exact .unmoved (by simp [hack]) fun _ => ⟨hno₁, hno₂⟩
    · next hrst => exact .unmoved (by simp [hack]) (by simp [StreamHeader.has_or, hack, hrst])

/-- What `connector_interrupt` can do with the first message. -/
inductive ConnectorCase (r : Ring) (p : Sock) (m : Message) (rest : List Message)
    (mem : Option Nat) : RingOut → Prop
  | binned : peekHeader m = none →
      ConnectorCase r p m rest mem ⟨0, { r with queue := rest }, none, mem⟩
  | syn {sh : StreamHeader} {data : List UInt8} : peekHeader m = some (sh, data) →
      sh.has shfSyn = true →
      ConnectorCase r p m rest mem ⟨0, { r with queue := rest },
        if data = [] then some ⟨r.id, sh.conid, m.source⟩ else none, mem⟩
  | stranger {sh : StreamHeader} {data : List UInt8} : peekHeader m = some (sh, data) →
      sh.has shfSyn = false → sh.conid ≠ p.conid →
      ConnectorCase r p m rest mem ⟨0, { r with queue := rest },
        some ⟨r.id, sh.conid, m.source⟩, mem⟩
  | padded {sh : StreamHeader} {data : List UInt8} : peekHeader m = some (sh, data) →
      sh.has shfSyn = false → sh.conid = p.conid → sh.has (shfAck ||| shfRst) = true →
      data ≠ [] → ConnectorCase r p m rest mem ⟨0, { r with queue := rest }, none, mem⟩
  | control {sh : StreamHeader} : peekHeader m = some (sh, []) →
      sh.has shfSyn = false → sh.conid = p.conid → sh.has (shfAck ||| shfRst) = true →
      ConnectorCase r p m rest mem
        ⟨0, { r with queue := rest, sponsor := some (connectorStateMachine p sh).2 },
          if (connectorStateMachine p sh).1 then some ⟨r.id, sh.conid, m.source⟩ else none, mem⟩
  | data {sh : StreamHeader} {data : List UInt8} {c : SockOut} : peekHeader m = some (sh, data) →
      sh.has shfSyn = false → sh.conid = p.conid → sh.has (shfAck ||| shfRst) = false →
      CopyCase (m :: rest) m.source sh data p mem c →
      ConnectorCase r p m rest mem
        ⟨c.ret, { r with queue := c.queue, sponsor := some c.sock }, none, c.mem⟩

theorem connector_cases {r : Ring} {p : Sock} {m : Message} {rest : List Message}
    (hp : r.sponsor = some p) (hq : r.queue = m :: rest) (mem : Option Nat) :
    ConnectorCase r p m rest mem (connectorInterrupt r mem) := by
  cases r
  subst hp hq
  rw [connectorInterrupt]
  dsimp only
  split
  · next hpeek => exact .binned hpeek
  · next sh data hpeek =>
    split
    · next hsyn => exact .syn hpeek hsyn
    · next hsyn =>
      have hsyn : sh.has shfSyn = false := by simpa using hsyn
      split
      · next hconid => exact .stranger hpeek hsyn hconid
      · next hconid =>
        have hconid : sh.conid = p.conid := by simpa using hconid
        split
        · next hctl =>
          split
          · next hdata => subst hdata; exact .control hpeek hsyn hconid hctl
          · next hdata => exact .padded hpeek hsyn hconid hctl hdata
        · next hctl =>
          have hctl : sh.has (shfAck ||| shfRst) = false := by simpa using hctl
          exact .data hpeek hsyn hconid hctl (copy_cases ..)

/-- What `acceptor_interrupt` can do. -/
inductive AcceptorCase (id : RingId) (p : Sock) (m : Message) (rest : List Message)
    (sh : StreamHeader) (data : List UInt8) (mem : Option Nat) : SockOut → Prop
  | strange : sh.has (shfSyn ||| shfAck) = true →
      AcceptorCase id p m rest sh data mem
        ⟨0, rest, p, if data = [] then some ⟨id, sh.conid, m.source⟩ else none, mem⟩
  | reset : sh.has (shfSyn ||| shfAck) = false → sh.has shfRst = true →
      AcceptorCase id p m rest sh data mem
        ⟨0, rest, if data = [] then acceptorStateMachine p sh else p, none, mem⟩
  | data {c : SockOut} : sh.has (shfSyn ||| shfAck) = false → sh.has shfRst = false →
      CopyCase (m :: rest) m.source sh data p mem c → AcceptorCase id p m rest sh data mem c

theorem acceptor_cases (id : RingId) (p : Sock) (m : Message) (rest : List Message)
    (sh : StreamHeader) (data : List UInt8) (mem : Option Nat) :
    AcceptorCase id p m rest sh data mem (acceptorInterrupt id p m rest sh data mem) := by
  rw [acceptorInterrupt]
  split
  · next hstrange => exact .strange hstrange
  · next hstrange =>
    have hstrange : sh.has (shfSyn ||| shfAck) = false := by simpa using hstrange
    split
    · next hrst => exact .reset hstrange hrst
    · next hrst => exact .data hstrange (by simpa using hrst) (copy_cases ..)

theorem onFirst_eq_none {sel : Sock → Bool} {f : Sock → SockOut} {ps : List Sock}
    (h : onFirst sel f ps = none) : ∀ p ∈ ps, sel p = false := by
  induction ps with
  | nil => intro p hp; cases hp
  | cons q ps ih =>
    rw [onFirst] at h
    split at h
    · cases h
    · next hq =>
      intro p hp
      rcases List.mem_cons.mp hp with rfl | hp
      · simpa using hq
      · apply ih _ p hp
        cases hps : onFirst sel f ps with
        | none => rfl
        | some o => rw [hps] at h; cases h

/-- The socket found stands behind sockets that do not qualify, and only its place
changes. -/
theorem onFirst_eq_some {sel : Sock → Bool} {f : Sock → SockOut} {ps ps' : List Sock} {o : SockOut}
    (h : onFirst sel f ps = some (o, ps')) :
    ∃ l₁ p l₂, ps = l₁ ++ p :: l₂ ∧ (∀ q ∈ l₁, sel q = false) ∧ sel p = true ∧ o = f p ∧
      ps' = l₁ ++ (f p).sock :: l₂ := by
  induction ps generalizing ps' with
  | nil => cases h
  | cons q ps ih =>
    rw [onFirst] at h
    split at h
    · next hq =>
      obtain ⟨rfl, rfl⟩ := Prod.mk.inj (Option.some.inj h)
      exact ⟨[], q, ps, rfl, fun _ h => (nomatch h), hq, rfl, rfl⟩
    · next hq =>
      cases hps : onFirst sel f ps with
      | none => rw [hps] at h; cases h
      | some w =>
        rw [hps] at h
        obtain ⟨rfl, rfl⟩ := Prod.mk.inj (Option.some.inj h)
        obtain ⟨l₁, p, l₂, rfl, hl₁, hp, ho, hw⟩ := ih hps
        refine ⟨q :: l₁, p, l₂, rfl, ?_, hp, ho, congrArg (q :: ·) hw⟩
        intro x hx
        rcases List.mem_cons.mp hx with rfl | hx
        · simpa using hq
        · exact hl₁ x hx

/-- What `listener_interrupt` can do with the first message. -/
inductive ListenerCase (r : Ring) (m : Message) (rest : List Message) (mem : Option Nat) :
    RingOut → Prop
  | binned : peekHeader m = none →
      ListenerCase r m rest mem ⟨0, { r with queue := rest }, none, mem⟩
  | acceptor {sh : StreamHeader} {data : List UInt8} {l₁ l₂ : List Sock} {p : Sock} {o : SockOut} :
      peekHeader m = some (sh, data) → r.privates = l₁ ++ p :: l₂ →
      (∀ q ∈ l₁, q.isPeer m.source sh.conid = false) → p.isPeer m.source sh.conid = true →
      AcceptorCase r.id p m rest sh data mem o →
      ListenerCase r m rest mem
        ⟨o.ret, { r with queue := o.queue, privates := l₁ ++ o.sock :: l₂ }, o.reset, o.mem⟩
  | reset {sh : StreamHeader} {data : List UInt8} : peekHeader m = some (sh, data) →
      (∀ q ∈ r.privates, q.isPeer m.source sh.conid = false) → sh.has shfRst = true →
      ListenerCase r m rest mem
        ⟨0, { r with queue := rest, sponsor := r.sponsor.map (evictSyn sh.conid) }, none, mem⟩
  | dropped {sh : StreamHeader} {data : List UInt8} : peekHeader m = some (sh, data) →
      (∀ q ∈ r.privates, q.isPeer m.source sh.conid = false) → sh.has shfRst = false →
      sh.has shfSyn = true → r.sponsor = none ∨ data ≠ [] →
      ListenerCase r m rest mem ⟨0, { r with queue := rest }, none, mem⟩
  | syn {sh : StreamHeader} {p : Sock} {c : SockOut} : peekHeader m = some (sh, []) →
      (∀ q ∈ r.privates, q.isPeer m.source sh.conid = false) → sh.has shfRst = false →
      sh.has shfSyn = true → r.sponsor = some p → CopyCase (m :: rest) m.source sh [] p mem c →
      ListenerCase r m rest mem
        ⟨c.ret, { r with queue := c.queue, sponsor := some c.sock }, none, c.mem⟩
  | unknown {sh : StreamHeader} {data : List UInt8} : peekHeader m = some (sh, data) →
      (∀ q ∈ r.privates, q.isPeer m.source sh.conid = false) → sh.has shfRst = false →
      sh.has shfSyn = false →
      ListenerCase r m rest mem ⟨0, { r with queue := rest },
        some ⟨r.id, sh.conid, m.source⟩, mem⟩

theorem listener_cases {r : Ring} {m : Message} {rest : List Message} (hq : r.queue = m :: rest)
    (mem : Option Nat) : ListenerCase r m rest mem (listenerInterrupt r mem) := by
  cases r
  subst hq
  rw [listenerInterrupt]
  dsimp only
  split
  · next hpeek => exact .binned hpeek
  · next sh data hpeek =>
    split
    · next o privates hfirst =>
      obtain ⟨l₁, p, l₂, hpriv, hl₁, hp, rfl, rfl⟩ := onFirst_eq_some hfirst
      exact .acceptor hpeek hpriv hl₁ hp (acceptor_cases ..)
    · next hfirst =>
      have hnone := onFirst_eq_none hfirst
      split
      · next hrst => exact .reset hpeek hnone hrst
      · next hrst =>
        have hrst : sh.has shfRst = false := by simpa using hrst
        split
        · next hsyn =>
          split
          · exact .dropped hpeek hnone hrst hsyn (.inl rfl)
          · split
            · next hdata => exact .dropped hpeek hnone hrst hsyn (.inr hdata)
            · next hdata =>
              have hdata : data = [] := by simpa using hdata
              subst hdata
              exact .syn hpeek hnone hrst hsyn rfl (copy_cases ..)
        · next hsyn => exact .unknown hpeek hnone hrst (by simpa using hsyn)

/-! ### What a handler leaves alone

A socket keeps its address, its connection and its peer; only `copy_into_pending_recv` changes
its list, and only the state machines its state. -/

theorem CopyCase.frame {queue : List Message} {source : Addr} {sh : StreamHeader}
    {data : List UInt8} {p : Sock} {mem : Option Nat} {c : SockOut}
    (h : CopyCase queue source sh data p mem c) :
    c.sock.ref = p.ref ∧ c.sock.conid = p.conid ∧ c.sock.peer = p.peer ∧
      c.sock.state = p.state := by
  cases h <;> exact ⟨rfl, rfl, rfl, rfl⟩

theorem connectorStateMachine_frame (p : Sock) (sh : StreamHeader) :
    (connectorStateMachine p sh).2.ref = p.ref ∧ (connectorStateMachine p sh).2.conid = p.conid ∧
      (connectorStateMachine p sh).2.peer = p.peer ∧
      (connectorStateMachine p sh).2.pendingRecv = p.pendingRecv := by
  have hcase := machine_cases p sh
  generalize connectorStateMachine p sh = o at hcase
  cases hcase <;> exact ⟨rfl, rfl, rfl, rfl⟩

theorem acceptorStateMachine_frame (p : Sock) (sh : StreamHeader) :
    (acceptorStateMachine p sh).ref = p.ref ∧ (acceptorStateMachine p sh).conid = p.conid ∧
      (acceptorStateMachine p sh).peer = p.peer ∧
      (acceptorStateMachine p sh).pendingRecv = p.pendingRecv := by
  rw [acceptorStateMachine]
  split <;> exact ⟨rfl, rfl, rfl, rfl⟩

theorem AcceptorCase.frame {id : RingId} {p : Sock} {m : Message} {rest : List Message}
    {sh : StreamHeader} {data : List UInt8} {mem : Option Nat} {o : SockOut}
    (h : AcceptorCase id p m rest sh data mem o) :
    o.sock.ref = p.ref ∧ o.sock.conid = p.conid ∧ o.sock.peer = p.peer := by
  cases h with
  | strange => exact ⟨rfl, rfl, rfl⟩
  | reset =>
    dsimp only
    split
    · obtain ⟨href, hconid, hpeer, -⟩ := acceptorStateMachine_frame p sh
      exact ⟨href, hconid, hpeer⟩
    · exact ⟨rfl, rfl, rfl⟩
  | data _ _ hcopy =>
    obtain ⟨href, hconid, hpeer, -⟩ := hcopy.frame
    exact ⟨href, hconid, hpeer⟩

/-! ### The ring, and the message handled

A handler changes neither the name nor the type of its ring.  The message is either
consumed, or left in place with nothing sent. -/

theorem ConnectorCase.frame {r : Ring} {p : Sock} {m : Message} {rest : List Message}
    {mem : Option Nat} {o : RingOut} (h : ConnectorCase r p m rest mem o) :
    o.ring.id = r.id ∧ o.ring.type = r.type ∧ o.ring.privates = r.privates := by
  cases h <;> exact ⟨rfl, rfl, rfl⟩

theorem connectorInterrupt_frame (r : Ring) (mem : Option Nat) :
    (connectorInterrupt r mem).ring.id = r.id ∧ (connectorInterrupt r mem).ring.type = r.type ∧
      (connectorInterrupt r mem).ring.privates = r.privates := by
  cases hp : r.sponsor with
  | none => rw [connectorInterrupt, hp]; exact ⟨rfl, rfl, rfl⟩
  | some p =>
    cases hq : r.queue with
    | nil => rw [connectorInterrupt, hp, hq]; exact ⟨rfl, rfl, rfl⟩
    | cons m rest => exact (connector_cases hp hq mem).frame

theorem ListenerCase.frame {r : Ring} {m : Message} {rest : List Message} {mem : Option Nat}
    {o : RingOut} (h : ListenerCase r m rest mem o) :
    o.ring.id = r.id ∧ o.ring.type = r.type := by
  cases h <;> exact ⟨rfl, rfl⟩

theorem CopyCase.consumed {m : Message} {rest : List Message} {source : Addr} {sh : StreamHeader}
    {data : List UInt8} {p : Sock} {mem : Option Nat} {c : SockOut}
    (h : CopyCase (m :: rest) source sh data p mem c) :
    (c.ret = 0 ∧ c.queue = rest) ∨ (c.ret = -1 ∧ c.reset = none ∧ c.queue = m :: rest) := by
  cases h with
  | full => exact .inr ⟨rfl, rfl, rfl⟩
  | starved => exact .inr ⟨rfl, rfl, rfl⟩
  | copied => exact .inl ⟨rfl, rfl⟩

theorem ConnectorCase.consumed {r : Ring} {p : Sock} {m : Message} {rest : List Message}
    {mem : Option Nat} {o : RingOut} (h : ConnectorCase r p m rest mem o) :
    (o.ret = 0 ∧ o.ring.queue = rest) ∨
      (o.ret = -1 ∧ o.reset = none ∧ o.ring.queue = m :: rest) := by
  cases h with
  | binned | syn | stranger | padded | control => exact .inl ⟨rfl, rfl⟩
  | data _ _ _ _ hcopy =>
    rcases hcopy.consumed with h | ⟨hret, -, hqueue⟩
    · exact .inl h
    · exact .inr ⟨hret, rfl, hqueue⟩

theorem AcceptorCase.consumed {id : RingId} {p : Sock} {m : Message} {rest : List Message}
    {sh : StreamHeader} {data : List UInt8} {mem : Option Nat} {o : SockOut}
    (h : AcceptorCase id p m rest sh data mem o) :
    (o.ret = 0 ∧ o.queue = rest) ∨ (o.ret = -1 ∧ o.reset = none ∧ o.queue = m :: rest) := by
  cases h with
  | strange | reset => exact .inl ⟨rfl, rfl⟩
  | data _ _ hcopy => exact hcopy.consumed

theorem ListenerCase.consumed {r : Ring} {m : Message} {rest : List Message} {mem : Option Nat}
    {o : RingOut} (h : ListenerCase r m rest mem o) :
    (o.ret = 0 ∧ o.ring.queue = rest) ∨
      (o.ret = -1 ∧ o.reset = none ∧ o.ring.queue = m :: rest) := by
  cases h with
  | binned | reset | dropped | unknown => exact .inl ⟨rfl, rfl⟩
  | acceptor _ _ _ _ ho => exact ho.consumed
  | syn _ _ _ _ _ hcopy =>
    rcases hcopy.consumed with h | ⟨hret, -, hqueue⟩
    · exact .inl h
    · exact .inr ⟨hret, rfl, hqueue⟩

theorem handle_consumed {r : Ring} {m : Message} {rest : List Message} {mem : Option Nat}
    {o : RingOut} (hq : r.queue = m :: rest) (h : r.handle mem = some o) :
    (o.ret = 0 ∧ o.ring.queue = rest) ∨
      (o.ret = -1 ∧ o.reset = none ∧ o.ring.queue = m :: rest) := by
  rw [Ring.handle] at h
  split at h
  · cases hp : r.sponsor with
    | none =>
      obtain rfl := Option.some.inj h
      rw [connectorInterrupt, hp]
      exact .inr ⟨rfl, rfl, hq⟩
    | some p =>
      obtain rfl := Option.some.inj h
      exact (connector_cases hp hq mem).consumed
  · obtain rfl := Option.some.inj h
    exact (listener_cases hq mem).consumed
  · cases h

/-! ## A pass over the rings -/

/-- What a pass leaves. -/
structure PassOut where
  ring : Ring
  resets : List Reset
  mem : Option Nat

/-- `while (tx_ptr != rx_ptr && !handler (r))`; a ring of `n` messages takes at most `n`
rounds. -/
def drain (handler : Ring → Option Nat → RingOut) : Nat → Ring → Option Nat → PassOut
  | 0, r, mem => ⟨r, [], mem⟩
  | n + 1, r, mem =>
    match r.queue with
    | [] => ⟨r, [], mem⟩
    | _ :: _ =>
      let o := handler r mem
      if o.ret ≠ 0 then
        ⟨o.ring, o.reset.toList, o.mem⟩
      else
        let out := drain handler n o.ring o.mem
        ⟨out.ring, o.reset.toList ++ out.resets, out.mem⟩

theorem drain_nil (handler : Ring → Option Nat → RingOut) (n : Nat) {r : Ring} (mem : Option Nat)
    (hq : r.queue = []) : drain handler n r mem = ⟨r, [], mem⟩ := by
  cases n with
  | zero => rfl
  | succ n => rw [drain, hq]

theorem drain_stop {handler : Ring → Option Nat → RingOut} {n : Nat} {r : Ring} {mem : Option Nat}
    {m : Message} {rest : List Message} (hq : r.queue = m :: rest)
    (hret : (handler r mem).ret ≠ 0) : drain handler (n + 1) r mem =
      ⟨(handler r mem).ring, (handler r mem).reset.toList, (handler r mem).mem⟩ := by
  rw [drain, hq]
  exact if_pos hret

theorem drain_next {handler : Ring → Option Nat → RingOut} {n : Nat} {r : Ring} {mem : Option Nat}
    {m : Message} {rest : List Message} (hq : r.queue = m :: rest)
    (hret : (handler r mem).ret = 0) : drain handler (n + 1) r mem =
      ⟨(drain handler n (handler r mem).ring (handler r mem).mem).ring,
        (handler r mem).reset.toList ++
          (drain handler n (handler r mem).ring (handler r mem).mem).resets,
        (drain handler n (handler r mem).ring (handler r mem).mem).mem⟩ := by
  rw [drain, hq]
  exact if_neg (fun h => h hret)

/-- What every call of the handler preserves, a pass preserves. -/
theorem drain_invariant {handler : Ring → Option Nat → RingOut} {P : Ring → Prop}
    (h : ∀ r mem, P r → P (handler r mem).ring) {n : Nat} {r : Ring} {mem : Option Nat} (hr : P r) :
    P (drain handler n r mem).ring := by
  induction n generalizing r mem with
  | zero => exact hr
  | succ n ih =>
    cases hq : r.queue with
    | nil => rw [drain_nil _ _ _ hq]; exact hr
    | cons m rest =>
      by_cases hret : (handler r mem).ret = 0
      · rw [drain_next hq hret]
        exact ih (h r mem hr)
      · rw [drain_stop hq hret]
        exact h r mem hr

/-- One round of the loop in `v4v_interrupt_rx`. -/
def interruptRxRing (r : Ring) (mem : Option Nat) : PassOut :=
  match r.type with
  | .idle => ⟨{ r with queue := r.queue.tail }, [], mem⟩
  | .dgram => ⟨r, [], mem⟩
  | .connector => drain connectorInterrupt r.queue.length r mem
  | .listener => drain listenerInterrupt r.queue.length r mem

/-- `v4v_interrupt_rx`, over `ring_list`. -/
def interruptRx : List Ring → Option Nat → List Ring × List Reset
  | [], _ => ([], [])
  | r :: rs, mem =>
    let out := interruptRxRing r mem
    let more := interruptRx rs out.mem
    (out.ring :: more.1, out.resets ++ more.2)

end V4v.Linux
