import LegacyV4v.StreamSocket

/-! # Receiving from a stream socket

`v4v_recvfrom` and `v4v_recv_stream`, cut where other parts of the driver can come in
between.  A call first looks at the socket's state, twice; then it copies entries of the
pending list, one at a time, until the list is empty or its buffer is full; if it took an
entry off a list that had been full, it runs the interrupt handler itself; then it looks
at the state again, and returns or waits.

The length is an `int` in the source, although the caller's is a `size_t`; it is kept here as
the integer it is, and converted where the source converts it.  One thread at a time receives
from a socket: two would free an entry twice.  `copy_to_user` writes the whole piece; its result
is not looked at. -/
namespace V4v.Linux
open MachineWord

def epipe : Int := 32
def enotconn : Int := 107
def erestartsys : Int := 512

/-! ## The pending list as a byte stream -/

/-- The bytes of the entry that have not been read. -/
def PendingRecv.unread (e : PendingRecv) : List UInt8 := e.data.drop e.dataPtr

/-- The bytes that wait in the socket's pending list. -/
def Sock.unread (p : Sock) : List UInt8 := p.pendingRecv.flatMap PendingRecv.unread

/-! ## The call -/

/-- Where a call stands. -/
inductive RecvPhase where
  | entry
  | copying
  | faking
  | checking
  | waiting
  deriving DecidableEq, Repr

/-- A call of `v4v_recv_stream`.  `copied` is what has been written to the buffer; `count`
is its length. -/
structure RecvCall where
  len : Int
  waitall : Bool
  nonblock : Bool
  copied : List UInt8
  scheduleIrq : Bool
  phase : RecvPhase
  deriving DecidableEq, Repr

/-- What `v4v_recvfrom` is called with; `access` is what `access_ok` says of the buffer. -/
structure RecvArgs where
  len : Nat
  access : Bool
  peek : Bool
  waitall : Bool
  nonblock : Bool
  deriving DecidableEq, Repr

/-- A call goes on, or returns. -/
inductive RecvNext where
  | call (c : RecvCall)
  | ret (value : Int)
  deriving DecidableEq, Repr

/-- `count ? count : err`. -/
def RecvCall.countOr (c : RecvCall) (err : Int) : Int :=
  if c.copied.length ≠ 0 then c.copied.length else err

/-- `v4v_recvfrom` on a stream socket, up to its call of `v4v_recv_stream`. -/
def recvfrom (p : Sock) (a : RecvArgs) : RecvNext :=
  if a.access = false then .ret (-efault)
  else if a.peek then .ret (-einval)
  else
    match p.state with
    | .bound => .ret (-enotconn)
    | .connected => .call ⟨i32 a.len, a.waitall, a.nonblock, [], false, .entry⟩
    | .accepted => .call ⟨i32 a.len, a.waitall, a.nonblock, [], false, .entry⟩
    | .disconnected => .ret 0
    | _ => .ret (-einval)

/-- What one step of a call leaves: the socket, the call, and the bytes copied. -/
structure RecvOut where
  sock : Sock
  next : RecvNext
  bytes : List UInt8
  deriving DecidableEq, Repr

/-- The `switch` at the head of `v4v_recv_stream`. -/
def recvEntry (p : Sock) (c : RecvCall) : RecvNext :=
  match p.state with
  | .disconnected => .ret (-epipe)
  | .connecting => .ret (-enotconn)
  | .connected => .call { c with phase := .copying }
  | .accepted => .call { c with phase := .copying }
  | _ => .ret (-einval)

/-- One round of the copy loop, or the end of the loop.  `access` is what `access_ok` says of
the piece of the buffer that is written. -/
def recvCopy (p : Sock) (c : RecvCall) (access : Bool) : RecvOut :=
  match p.pendingRecv with
  | [] => ⟨p, .call { c with phase := if c.scheduleIrq then .faking else .checking }, []⟩
  | e :: es =>
    if c.len = 0 then
      ⟨p, .call { c with phase := if c.scheduleIrq then .faking else .checking }, []⟩
    else if access = false then
      ⟨p, .ret (c.countOr (-efault)), []⟩
    else if e.data.length - e.dataPtr > sizeT c.len then
      let toCopy := sizeT c.len
      ⟨{ p with pendingRecv := { e with dataPtr := e.dataPtr + toCopy } :: es },
        .call { c with
          copied := c.copied ++ e.unread.take toCopy
          len := i32 (c.len - toCopy) },
        e.unread.take toCopy⟩
    else
      ⟨{ p with pendingRecv := es },
        .call { c with
          copied := c.copied ++ e.unread
          len := i32 (c.len - (e.data.length - e.dataPtr : Nat))
          scheduleIrq := c.scheduleIrq || p.full },
        e.unread⟩

/-- The tests behind the loop. -/
def recvCheck (p : Sock) (c : RecvCall) : RecvNext :=
  if p.state = .disconnected then .ret (c.countOr (-epipe))
  else if c.copied.length ≠ 0 ∧ c.waitall = false then .ret c.copied.length
  else if c.nonblock then .ret (c.countOr (-eagain))
  else .call { c with phase := .waiting }

/-- `wait_event_interruptible` on `readq`, and what follows; `none` while it sleeps. -/
def recvWait (p : Sock) (c : RecvCall) (signal : Bool) : Option RecvNext :=
  if p.pendingRecv ≠ [] ∨ streamConnected p = false then
    if c.len = 0 then some (.ret c.copied.length)
    else some (.call { c with phase := .copying })
  else if signal then some (.ret (c.countOr (-erestartsys)))
  else none

/-- One step of a call.  In the phase `faking` it is the interrupt handler that runs. -/
def recvStep (p : Sock) (c : RecvCall) (access signal : Bool) : Option RecvOut :=
  match c.phase with
  | .entry => some ⟨p, recvEntry p c, []⟩
  | .copying => some (recvCopy p c access)
  | .faking => none
  | .checking => some ⟨p, recvCheck p c, []⟩
  | .waiting => (recvWait p c signal).map fun next => ⟨p, next, []⟩

/-! ## What a step does to the bytes -/

theorem Sock.unread_cons {p : Sock} {e : PendingRecv} {es : List PendingRecv}
    (h : p.pendingRecv = e :: es) : p.unread = e.unread ++ es.flatMap PendingRecv.unread := by
  rw [Sock.unread, h, List.flatMap_cons]

/-- What `recvCopy` can do. -/
inductive RecvCopyCase (p : Sock) (c : RecvCall) (access : Bool) : RecvOut → Prop
  | done : p.pendingRecv = [] ∨ c.len = 0 → RecvCopyCase p c access
      ⟨p, .call { c with phase := if c.scheduleIrq then .faking else .checking }, []⟩
  | fault : access = false → RecvCopyCase p c access ⟨p, .ret (c.countOr (-efault)), []⟩
  | part {e : PendingRecv} {es : List PendingRecv} : p.pendingRecv = e :: es → c.len ≠ 0 →
      e.unread.length > sizeT c.len →
      RecvCopyCase p c access
        ⟨{ p with pendingRecv := { e with dataPtr := e.dataPtr + sizeT c.len } :: es },
          .call { c with
            copied := c.copied ++ e.unread.take (sizeT c.len)
            len := i32 (c.len - sizeT c.len) },
          e.unread.take (sizeT c.len)⟩
  | eat {e : PendingRecv} {es : List PendingRecv} : p.pendingRecv = e :: es → c.len ≠ 0 →
      RecvCopyCase p c access
        ⟨{ p with pendingRecv := es },
          .call { c with
            copied := c.copied ++ e.unread
            len := i32 (c.len - e.unread.length)
            scheduleIrq := c.scheduleIrq || p.full },
          e.unread⟩

theorem recvCopy_cases (p : Sock) (c : RecvCall) (access : Bool) :
    RecvCopyCase p c access (recvCopy p c access) := by
  rw [recvCopy]
  split
  · next h => exact .done (.inl h)
  · next e es h =>
    split
    · next hlen => exact .done (.inr hlen)
    · next hlen =>
      split
      · next hno => exact .fault hno
      · have hunread : e.data.length - e.dataPtr = e.unread.length := by
          rw [PendingRecv.unread, List.length_drop]
        rw [hunread]
        split
        · next hbig => exact .part h hlen hbig
        · exact .eat h hlen

/-- The bytes copied and the bytes left are the bytes that were there. -/
theorem RecvCopyCase.unread {p : Sock} {c : RecvCall} {access : Bool} {o : RecvOut}
    (h : RecvCopyCase p c access o) : o.bytes ++ o.sock.unread = p.unread := by
  cases h with
  | done | fault => rfl
  | part he =>
    rw [Sock.unread_cons he, Sock.unread, List.flatMap_cons, ← List.append_assoc]
    congr 1
    rw [PendingRecv.unread, PendingRecv.unread, ← List.drop_drop, List.take_append_drop]
  | eat he =>
    rw [Sock.unread_cons he]
    rfl

theorem take_countOr (c : RecvCall) (err : Int) :
    c.copied.take (c.countOr err).toNat = c.copied := by
  rw [RecvCall.countOr]
  split
  · rw [Int.toNat_natCast, List.take_length]
  · next hzero =>
    have hnil : c.copied = [] := by simpa using hzero
    rw [hnil, List.take_nil]

/-- What one step can do: it takes bytes off the list, maybe none, and goes on; or it returns, with
what it has copied. -/
inductive RecvCase (p : Sock) (c : RecvCall) : RecvOut → Prop
  | goes {p' : Sock} {c' : RecvCall} {bytes : List UInt8} : bytes ++ p'.unread = p.unread →
      c'.copied = c.copied ++ bytes → c'.phase ≠ .entry → RecvCase p c ⟨p', .call c', bytes⟩
  | returns {v : Int} : c.copied.take v.toNat = c.copied → RecvCase p c ⟨p, .ret v, []⟩

/-- The call goes on, without having taken anything. -/
theorem RecvCase.stays {p : Sock} {c c' : RecvCall} (hcopied : c'.copied = c.copied)
    (hphase : c'.phase ≠ .entry) : RecvCase p c ⟨p, .call c', []⟩ :=
  .goes rfl (by rw [hcopied, List.append_nil]) hphase

theorem recvEntry_case (p : Sock) {c : RecvCall} (hentry : c.copied = []) :
    RecvCase p c ⟨p, recvEntry p c, []⟩ := by
  have hnone : ∀ v : Int, c.copied.take v.toNat = c.copied := fun v => by rw [hentry, List.take_nil]
  rw [recvEntry]
  split
  · exact .returns (hnone _)
  · exact .returns (hnone _)
  · exact .stays rfl (by simp)
  · exact .stays rfl (by simp)
  · exact .returns (hnone _)

theorem RecvCopyCase.case {p : Sock} {c : RecvCall} {access : Bool} {o : RecvOut}
    (h : RecvCopyCase p c access o) (hphase : c.phase = .copying) : RecvCase p c o := by
  have hunread := h.unread
  cases h with
  | done => exact .stays rfl (by dsimp only; split <;> simp)
  | fault => exact .returns (take_countOr c _)
  | part => exact .goes hunread rfl (by simp [hphase])
  | eat => exact .goes hunread rfl (by simp [hphase])

theorem recvCheck_case (p : Sock) (c : RecvCall) : RecvCase p c ⟨p, recvCheck p c, []⟩ := by
  rw [recvCheck]
  split
  · exact .returns (take_countOr c _)
  · split
    · exact .returns (by rw [Int.toNat_natCast, List.take_length])
    · split
      · exact .returns (take_countOr c _)
      · exact .stays rfl (by simp)

theorem recvWait_case {p : Sock} {c : RecvCall} {signal : Bool} {next : RecvNext}
    (h : recvWait p c signal = some next) : RecvCase p c ⟨p, next, []⟩ := by
  rw [recvWait] at h
  split at h
  · split at h
    · obtain rfl := Option.some.inj h
      exact .returns (by rw [Int.toNat_natCast, List.take_length])
    · obtain rfl := Option.some.inj h
      exact .stays rfl (by simp)
  · split at h
    · obtain rfl := Option.some.inj h
      exact .returns (take_countOr c _)
    · cases h

/-- **One step.** -/
theorem recvStep_case {p : Sock} {c : RecvCall} {access signal : Bool} {o : RecvOut}
    (h : recvStep p c access signal = some o) (hentry : c.phase = .entry → c.copied = []) :
    RecvCase p c o := by
  rw [recvStep] at h
  split at h
  · next hphase =>
    obtain rfl := Option.some.inj h
    exact recvEntry_case p (hentry hphase)
  · next hphase =>
    obtain rfl := Option.some.inj h
    exact (recvCopy_cases p c access).case hphase
  · cases h
  · obtain rfl := Option.some.inj h
    exact recvCheck_case p c
  · obtain ⟨next, hw, rfl⟩ := Option.map_eq_some_iff.mp h
    exact recvWait_case hw

/-- Only the copy loop touches the socket. -/
theorem recvStep_copies {p : Sock} {c : RecvCall} {access signal : Bool} {o : RecvOut}
    (h : recvStep p c access signal = some o) :
    (o.sock = p ∧ o.bytes = []) ∨ (c.phase = .copying ∧ RecvCopyCase p c access o) := by
  rw [recvStep] at h
  split at h
  · obtain rfl := Option.some.inj h
    exact .inl ⟨rfl, rfl⟩
  · next hphase =>
    obtain rfl := Option.some.inj h
    exact .inr ⟨hphase, recvCopy_cases p c access⟩
  · cases h
  · obtain rfl := Option.some.inj h
    exact .inl ⟨rfl, rfl⟩
  · obtain ⟨next, -, rfl⟩ := Option.map_eq_some_iff.mp h
    exact .inl ⟨rfl, rfl⟩

/-- What a step takes off the list, and what it leaves. -/
theorem recvStep_unread {p : Sock} {c : RecvCall} {access signal : Bool} {o : RecvOut}
    (h : recvStep p c access signal = some o) : o.bytes ++ o.sock.unread = p.unread := by
  rcases recvStep_copies h with ⟨hsock, hbytes⟩ | ⟨-, hcopy⟩
  · rw [hsock, hbytes, List.nil_append]
  · exact hcopy.unread

/-- A step changes the pending list only. -/
theorem recvStep_sock {p : Sock} {c : RecvCall} {access signal : Bool} {o : RecvOut}
    (h : recvStep p c access signal = some o) :
    o.sock = { p with pendingRecv := o.sock.pendingRecv } := by
  rcases recvStep_copies h with ⟨hsock, -⟩ | ⟨-, hcopy⟩
  · rw [hsock]
  · cases hcopy <;> rfl

end V4v.Linux
