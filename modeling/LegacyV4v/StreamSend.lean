import LegacyV4v.StreamRecv

/-! # Sending on a stream socket

`v4v_sendto` and `v4v_send_stream`, cut where other parts of the driver can come in between.
The buffer goes out in lumps, each a message of its own.  For a lump the call looks at the
socket's state, twice, and then makes the hypercall, until it is neither refused for want of
room nor the connection is gone; a call that may not block tries once, and returns after one lump.

A write is shorter than 2^31 bytes, so `len` is not negative and counts what is left. -/
namespace V4v.Linux

/-- `DEFAULT_RING_SIZE`. -/
def defaultRingSize : UInt32 :=
  roundup (UInt32.ofNat (pageSize * 32) - UInt32.ofNat sizeofRing - roundup 1)

/-- `write_lump`. -/
def writeLump : Nat := (defaultRingSize >>> 2).toNat

/-! ## The call -/

/-- Where a call stands.  `sponsor` and `privates` are the two functions that send a lump. -/
inductive SendPhase where
  | entry
  | lump
  | sponsor
  | privates
  | trying
  deriving DecidableEq, Repr

/-- A call of `v4v_send_stream`. -/
structure SendCall where
  data : List UInt8
  count : Nat
  nonblock : Bool
  phase : SendPhase
  deriving DecidableEq, Repr

/-- What the hypercall says: the message is in the ring of the destination, or an error. -/
inductive SendResult where
  | sent
  | failed (err : Int)
  deriving DecidableEq, Repr

/-- A call goes on, or returns. -/
inductive SendNext where
  | call (c : SendCall)
  | ret (value : Int)
  deriving DecidableEq, Repr

/-- What one step of a call leaves: the call, and the data of the message sent. -/
structure SendOut where
  next : SendNext
  message : Option (List UInt8)
  deriving DecidableEq, Repr

namespace SendCall

/-- The next lump, of `to_send` bytes. -/
def lump (c : SendCall) : List UInt8 := (c.data.drop c.count).take writeLump

/-- `count ? count : ret`. -/
def countOr (c : SendCall) (err : Int) : Int := if c.count ≠ 0 then c.count else err

/-- What has been sent. -/
def sent (c : SendCall) : List UInt8 := c.data.take c.count

end SendCall

/-- `v4v_sendto` on a stream socket, without an address, up to its call of `v4v_send_stream`. -/
def sendto (p : Sock) (data : List UInt8) (nonblock : Bool) : SendNext :=
  match p.state with
  | .connecting => .ret (-enotconn)
  | .bound => .ret (-enotconn)
  | .connected => .call ⟨data, 0, nonblock, .entry⟩
  | .accepted => .call ⟨data, 0, nonblock, .entry⟩
  | .disconnected => .ret (-epipe)
  | _ => .ret (-einval)

/-- The `switch` at the head of `v4v_send_stream`. -/
def sendEntry (p : Sock) (c : SendCall) : SendNext :=
  match p.state with
  | .disconnected => .ret (-epipe)
  | .connecting => .ret (-enotconn)
  | .connected => .call { c with phase := .lump }
  | .accepted => .call { c with phase := .lump }
  | _ => .ret (-einval)

/-- The head of the loop. -/
def sendLump (p : Sock) (c : SendCall) : SendNext :=
  if c.data.length - c.count = 0 then .ret c.count
  else if p.state = .connected then .call { c with phase := .sponsor }
  else .call { c with phase := .privates }

/-- The `switch` of `v4v_stream_sendvto_from_sponsor`. -/
def sponsorError (p : Sock) : Int :=
  match p.state with
  | .connecting => -enotconn
  | .disconnected => -epipe
  | .bound => 0
  | .connected => 0
  | _ => -einval

/-- The `switch` of `v4v_stream_sendvto_from_private`. -/
def privatesError (p : Sock) : Int :=
  match p.state with
  | .disconnected => -epipe
  | .accepted => 0
  | _ => -einval

/-- The tests of either function; `ringLen` is the length of the socket's own ring. -/
def sendCheck (ringLen : Nat) (c : SendCall) (err : Int) : SendNext :=
  if c.lump.length + sizeofStreamHeader > ringLen - sizeofMessageHeader then
    .ret (c.countOr (-emsgsize))
  else if err ≠ 0 then .ret (c.countOr err)
  else .call { c with phase := .trying }

/-- The hypercall and what follows.  A call that may block tries again when it is woken. -/
def sendTry (p : Sock) (c : SendCall) (res : SendResult) (signal : Bool) : SendOut :=
  match res with
  | .sent =>
    let c' := { c with count := c.count + c.lump.length, phase := .lump }
    ⟨if c.nonblock then .ret c'.count else .call c', some c.lump⟩
  | .failed err =>
    if c.nonblock = true ∨ err ≠ -eagain ∨ streamConnected p = false then
      ⟨.ret (c.countOr err), none⟩
    else if signal then
      ⟨.ret (c.countOr (-erestartsys)), none⟩
    else
      ⟨.call c, none⟩

/-- One step of a call. -/
def sendStep (p : Sock) (ringLen : Nat) (c : SendCall) (res : SendResult) (signal : Bool) :
    SendOut :=
  match c.phase with
  | .entry => ⟨sendEntry p c, none⟩
  | .lump => ⟨sendLump p c, none⟩
  | .sponsor => ⟨sendCheck ringLen c (sponsorError p), none⟩
  | .privates => ⟨sendCheck ringLen c (privatesError p), none⟩
  | .trying => sendTry p c res signal

/-! ## What a step does to the bytes -/

/-- The bytes that a call with this buffer and result reports as sent. -/
def reported (data : List UInt8) (value : Int) : List UInt8 := data.take value.toNat

theorem reported_countOr (c : SendCall) {err : Int} (herr : err < 0) :
    reported c.data (c.countOr err) = c.sent := by
  rw [SendCall.countOr, SendCall.sent, reported]
  split
  · rw [Int.toNat_natCast]
  · next hzero =>
    have hzero : c.count = 0 := by simpa using hzero
    rw [Int.toNat_of_nonpos (by omega), hzero]

/-- What is sent when the next lump is. -/
theorem take_count_add_lump (c : SendCall) :
    c.data.take (c.count + c.lump.length) = c.sent ++ c.lump := by
  have hlump : (c.data.drop c.count).take c.lump.length = c.lump := by
    rw [SendCall.lump, List.length_take, ← List.take_take, List.take_length]
  rw [List.take_add, hlump, SendCall.sent]

/-- What one step can do: it goes on or returns with nothing sent, or it sends the next lump.  A
call at its entry has sent nothing. -/
inductive SendCase (c : SendCall) : SendOut → Prop
  | goes {c' : SendCall} : c'.sent = c.sent → c'.phase ≠ .entry → SendCase c ⟨.call c', none⟩
  | returns {value : Int} : reported c.data value = c.sent → SendCase c ⟨.ret value, none⟩
  | sends {c' : SendCall} : c'.sent = c.sent ++ c.lump → c'.phase ≠ .entry →
      SendCase c ⟨.call c', some c.lump⟩
  | sendsLast {value : Int} : reported c.data value = c.sent ++ c.lump →
      SendCase c ⟨.ret value, some c.lump⟩

theorem sendCheck_case (ringLen : Nat) (c : SendCall) {err : Int} (herr : err ≤ 0) :
    SendCase c ⟨sendCheck ringLen c err, none⟩ := by
  rw [sendCheck]
  split
  · exact .returns (reported_countOr c (by decide))
  · split
    · next hne => exact .returns (reported_countOr c (by omega))
    · exact .goes rfl (by simp)

theorem sendTry_case (p : Sock) (c : SendCall) (res : SendResult) (signal : Bool)
    (hphase : c.phase = .trying) (hres : ∀ err, res = .failed err → err < 0) :
    SendCase c (sendTry p c res signal) := by
  cases res with
  | sent =>
    dsimp only [sendTry]
    split
    · refine .sendsLast ?_
      rw [reported, Int.toNat_natCast, take_count_add_lump]
    · refine .sends ?_ (by simp)
      exact take_count_add_lump c
  | failed err =>
    dsimp only [sendTry]
    split
    · exact .returns (reported_countOr c (hres err rfl))
    · split
      · exact .returns (reported_countOr c (by decide))
      · exact .goes rfl (by rw [hphase]; simp)

theorem sendStep_case (p : Sock) (ringLen : Nat) (c : SendCall) (res : SendResult) (signal : Bool)
    (hentry : c.phase = .entry → c.count = 0) (hres : ∀ err, res = .failed err → err < 0) :
    SendCase c (sendStep p ringLen c res signal) := by
  rw [sendStep]
  split
  · next hphase =>
    have hnone : ∀ err : Int, err < 0 → reported c.data err = c.sent := by
      intro err herr
      rw [reported, SendCall.sent, hentry hphase, Int.toNat_of_nonpos (by omega)]
    rw [sendEntry]
    split
    · exact .returns (hnone _ (by decide))
    · exact .returns (hnone _ (by decide))
    · exact .goes rfl (by simp)
    · exact .goes rfl (by simp)
    · exact .returns (hnone _ (by decide))
  · rw [sendLump]
    split
    · exact .returns rfl
    · split
      · exact .goes rfl (by simp)
      · exact .goes rfl (by simp)
  · refine sendCheck_case ringLen c ?_
    rw [sponsorError]
    split <;> decide
  · refine sendCheck_case ringLen c ?_
    rw [privatesError]
    split <;> decide
  · next hphase => exact sendTry_case p c res signal hphase hres

end V4v.Linux
