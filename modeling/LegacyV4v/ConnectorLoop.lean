import LegacyV4v.ConnectorReads
import LegacyV4v.OffsetRead
import LegacyV4v.SpaceAnnounce

/-! # The loop that serves a connector's reads

`V4vProcessConnectorReads` on the ring in memory, whatever it holds: its variables, a round for each kind of
message that can stand at the head, and, for a ring that holds a queue of messages, the rounds on that queue. -/
namespace V4v.Windows
open MachineWord CyclicBuffer RecordStream
open Linux (StreamHeader peekHeader shfSyn shfAck shfRst drained sizeofStreamHeader)

/-! ## The loop -/

/-- The variables of `V4vProcessConnectorReads`, with the device, the ring, the RSTs that were sent, whether
`kevReceive` is set, and `*pntfy`.  `taken` lists the messages that were taken from the ring; the loop does not
look at it. -/
structure ReadLoop where
  device : Device
  ring : PageMem
  nextIrp : Option Pending
  retain : Bool
  resets : List SentReset
  event : Bool
  notify : Bool
  taken : List Message

/-- `V4vRecoverRing`. -/
def v4vRecoverRing (m : PageMem) : PageMem := m.storeWord offsetofRxPtr (read m.byte offsetofTxPtr 4)

/-- The message at the head of the ring, if `v4v_copy_out` does not return an error.  On Windows `ssize_t` is an
`int`. -/
def headMessage (m : PageMem) : Option Message :=
  let o := copyOut m sizeofStreamHeader false
  if i32 o.ret < 0 then none
  else some ⟨o.source, o.protocol, (copyOut m o.ret.toNat false).buf⟩

namespace ReadLoop
variable (s : ReadLoop)

/-- `V4vSimpleCompleteIrp`, and the completion of a read with its data. -/
def finish (irp : Pending) (status : NtStatus) (data : List UInt8) : ReadLoop :=
  { s with device := s.device.complete irp status data }

/-- The ring is left as `mem` by a `v4v_copy_out` that consumes the message at its head, and these RSTs are
sent. -/
def consume (mem : PageMem) (resets : List SentReset) : ReadLoop :=
  { s with ring := mem, resets := s.resets ++ resets, taken := s.taken ++ (headMessage s.ring).toList }

/-- `IoCsqInsertIrpEx` at the head of the queue, and what is done when it fails. -/
def requeue (insert : InsertStatus) : ReadLoop :=
  match s.retain, s.nextIrp with
  | true, some irp =>
    match insert with
    | .success => { s with device := { s.device with queue := irp :: s.device.queue } }
    | .quotaExceeded => s.finish irp .quotaExceeded []
    | .noMemory => s.finish irp .noMemory []
  | _, _ => s

/-- The IRP that was kept, or the next one of the queue. -/
def take (c : Nat) : Option (Pending × ReadLoop) :=
  if s.retain then s.nextIrp.map fun irp => (irp, s)
  else (s.device.removeNextIrp (readPeek c)).map fun o =>
    (o.1, { s with device := o.2, nextIrp := some o.1 })

/-- The rest of a round with `irp` in hand and a message in the ring; whether the loop goes on. -/
def handle (c : Nat) (irp : Pending) : Bool × ReadLoop :=
  let x := s.device.contexts c
  if has irp.flags (peekSyn ||| peekAck) then (true, s.finish irp .invalidDeviceRequest [])
  else
    let o := copyOut s.ring sizeofStreamHeader false
    if i32 o.ret < 0 then
      (true, { s.finish irp .internalDbCorruption [] with ring := v4vRecoverRing s.ring })
    else
      let s := { s with retain := true }
      if o.protocol ≠ protoStream ∨ i32 o.ret < sizeofStreamHeader then
        (true, s.consume (copyOut s.ring 0 true).mem [])
      else
        let sh := StreamHeader.ofBytes o.buf
        let reset := if sh.has shfRst then [] else [⟨sh.conid, o.source⟩]
        -- a SYN or ACK is read once more, and is not answered when it has a payload
        let again := copyOut s.ring sizeofStreamHeader true
        let sh' := StreamHeader.ofBytes again.buf
        let bareReset :=
          if i32 again.ret = sizeofStreamHeader ∧ sh'.has shfRst = false then [⟨sh'.conid, again.source⟩] else []
        if sh.has shfSyn then (true, s.consume again.mem bareReset)
        else if sh.conid ≠ x.connId.toUInt32 then (true, s.consume (copyOut s.ring 0 true).mem reset)
        else if x.sdst.domain ≠ o.source.domain then (true, s.consume (copyOut s.ring 0 true).mem reset)
        else if sh.has shfAck then (true, s.consume again.mem bareReset)
        else
          let s := { s with retain := false }
          if sh.has shfRst then
            (false, finish { s with device := s.device.disconnectStreamAndSignal c } irp .virtualCircuitClosed [])
          else if irp.length.toNat < (i32 o.ret).toNat - sizeofStreamHeader then
            -- the data stays in the ring
            (true, s.finish irp .bufferOverflow [])
          else
            match v4vCopyOutOffset s.ring (some o.source) (some o.protocol) (some 0)
              (irp.length.toNat + sizeofStreamHeader) true sizeofStreamHeader fun _ => 0 with
            | none => (false, s)
            | some out =>
              if i32 out.ret < 0 then
                (true, { s.finish irp .internalDbCorruption [] with ring := v4vRecoverRing out.ring })
              else
                let data := (List.range ((i32 out.ret).toNat - sizeofStreamHeader)).map fun i : Nat => out.mem i
                (true, { (s.finish irp .success data).consume out.ring [] with notify := true })

/-- `XENV4V_SET_BOOL_PTR(pntfy)`, when an IRP was kept. -/
def noted : ReadLoop := { s with notify := s.notify || s.retain }

/-- One round of the loop. -/
def round (c : Nat) (insert : InsertStatus) : Bool × ReadLoop :=
  let s := s.noted
  if drained s.ring then (false, { s.requeue insert with event := false })
  else
    match s.take c with
    | none => (false, { s with event := true })
    | some (irp, s) => s.handle c irp

/-- The loop, for as many rounds as there is fuel.  `insert` is what putting an IRP back returns. -/
def run (c : Nat) (insert : InsertStatus) : Nat → ReadLoop → Option ReadLoop
  | 0, _ => none
  | n + 1, s =>
    let o := s.round c insert
    if o.1 then run c insert n o.2 else some o.2

end ReadLoop

/-- `V4vProcessConnectorReads`, when it returns. -/
def v4vProcessConnectorReads (device : Device) (ring : PageMem) (event notify : Bool) (c : Nat)
    (insert : InsertStatus) (n : Nat) : Option ReadLoop :=
  ReadLoop.run c insert n ⟨device, ring, none, false, [], event, notify, []⟩

/-! ## The message at the head -/

/-- What the loop makes of the message at the head: it cannot be read, it is thrown away, it is the peer's RST,
or it is the peer's data of `n` bytes. -/
inductive HeadCase where
  | refused
  | discard
  | rst
  | data (n : Nat)
  deriving DecidableEq

/-- The checks of the loop. -/
def headCase (x : FileContext) (m : PageMem) : HeadCase :=
  let o := copyOut m sizeofStreamHeader false
  let sh := StreamHeader.ofBytes o.buf
  if i32 o.ret < 0 then .refused
  else if o.protocol ≠ protoStream ∨ i32 o.ret < sizeofStreamHeader then .discard
  else if sh.has shfSyn then .discard
  else if sh.conid ≠ x.connId.toUInt32 then .discard
  else if x.sdst.domain ≠ o.source.domain then .discard
  else if sh.has shfAck then .discard
  else if sh.has shfRst then .rst
  else .data ((i32 o.ret).toNat - sizeofStreamHeader)

/-- What `v4v_copy_out` peeked is a message of the peer without SYN and ACK. -/
structure Passes (x : FileContext) (o : ReadOut) : Prop where
  read : ¬ i32 o.ret < 0
  stream : ¬ (o.protocol ≠ protoStream ∨ i32 o.ret < sizeofStreamHeader)
  syn : ¬ (StreamHeader.ofBytes o.buf).has shfSyn = true
  conid : ¬ (StreamHeader.ofBytes o.buf).conid ≠ x.connId.toUInt32
  domain : ¬ x.sdst.domain ≠ o.source.domain
  ack : ¬ (StreamHeader.ofBytes o.buf).has shfAck = true

theorem headCase_cases (x : FileContext) (m : PageMem) :
    headCase x m = .refused ∧ i32 (copyOut m sizeofStreamHeader false).ret < 0 ∨
      headCase x m = .discard ∨
      Passes x (copyOut m sizeofStreamHeader false) ∧ headCase x m =
        if (StreamHeader.ofBytes (copyOut m sizeofStreamHeader false).buf).has shfRst then .rst
        else .data ((i32 (copyOut m sizeofStreamHeader false).ret).toNat - sizeofStreamHeader) := by
  unfold headCase
  dsimp only
  split
  · next hret => exact .inl ⟨rfl, hret⟩
  · next hret =>
    right
    split
    · exact .inl rfl
    · next hstream =>
      split
      · exact .inl rfl
      · next hsyn =>
        split
        · exact .inl rfl
        · next hconid =>
          split
          · exact .inl rfl
          · next hdomain =>
            split
            · exact .inl rfl
            · next hack => exact .inr ⟨⟨hret, hstream, hsyn, hconid, hdomain, hack⟩, rfl⟩

theorem headCase_passes {x : FileContext} {m : PageMem} (hrefused : headCase x m ≠ .refused)
    (hdiscard : headCase x m ≠ .discard) :
    Passes x (copyOut m sizeofStreamHeader false) ∧ headCase x m =
      if (StreamHeader.ofBytes (copyOut m sizeofStreamHeader false).buf).has shfRst then .rst
      else .data ((i32 (copyOut m sizeofStreamHeader false).ret).toNat - sizeofStreamHeader) := by
  rcases headCase_cases x m with ⟨h, -⟩ | h | h
  · exact absurd h hrefused
  · exact absurd h hdiscard
  · exact h

/-- The ring without its first message. -/
def dropHead (m : PageMem) : PageMem := (copyOut m 0 true).mem

/-- The payload of a message of the peer's stream: data with the connection's id. -/
def peerPayload (x : FileContext) (m : Message) : Option (List UInt8) :=
  match peekHeader m with
  | none => none
  | some (sh, data) =>
    if sh.conid = x.connId.toUInt32 ∧ x.sdst.domain = m.source.domain ∧ sh.has shfSyn = false ∧
        sh.has shfAck = false ∧ sh.has shfRst = false then some data
    else none

/-- `msg` stands at the head of the ring, and what follows it starts at `rxp`. -/
structure HeadIs (m : PageMem) (msg : Message) (rxp : Nat) : Prop where
  small : msg.payload.length < 2147483648
  read : ∀ t consume, copyOut m t consume =
    ⟨(msg.payload.length : Nat), msg.source, msg.protocol, msg.payload.take t,
      if consume then m.storeWord offsetofRxPtr rxp else m⟩

theorem copyOut_mem (m : PageMem) (t : Nat) : (copyOut m t true).mem = dropHead m := by
  unfold dropHead
  rcases copyOut_cases m with h | ⟨source, protocol, payload, rxp, -, h⟩
  · rw [h, h]
  · rw [h, h]

section Head
variable {x : FileContext} {m : PageMem} {msg : Message} {rxp n : Nat}

theorem HeadIs.ret (h : HeadIs m msg rxp) (t : Nat) (consume : Bool) :
    i32 (copyOut m t consume).ret = msg.payload.length := by
  have hsmall := h.small
  rw [h.read]
  exact i32_of_lt (by omega)

theorem HeadIs.headMessage (h : HeadIs m msg rxp) : headMessage m = some msg := by
  unfold Windows.headMessage
  dsimp only
  rw [h.ret, if_neg (by omega), h.read, h.read, Int.toNat_natCast, List.take_length]

/-- A message that can be read stands at the head of the ring. -/
theorem head_of_not_refused (h : ¬ i32 (copyOut m sizeofStreamHeader false).ret < 0) :
    ∃ msg rxp, HeadIs m msg rxp := by
  rcases copyOut_cases m with hrefused | ⟨source, protocol, payload, rxp, hlt, hread⟩
  · rw [hrefused] at h
    exact absurd (show i32 (-1) < 0 by decide) h
  · refine ⟨⟨source, protocol, payload⟩, rxp, ?_, hread⟩
    rw [hread] at h
    unfold i32 at h
    dsimp only at h ⊢
    omega

theorem head_of_discard (h : headCase x m = .discard) : ∃ msg rxp, HeadIs m msg rxp := by
  refine head_of_not_refused fun hret => ?_
  unfold headCase at h
  dsimp only at h
  rw [if_pos hret] at h
  cases h

theorem ofBytes_take (bs : List UInt8) :
    StreamHeader.ofBytes (bs.take sizeofStreamHeader) = StreamHeader.ofBytes bs := by
  unfold StreamHeader.ofBytes sizeofStreamHeader
  rw [List.take_take, List.drop_take, List.take_take]
  rfl

/-- The loop takes the message for data: it is the peer's. -/
theorem HeadIs.peerPayload_data (h : HeadIs m msg rxp) (hcase : headCase x m = .data n) :
    peerPayload x msg = some (msg.payload.drop sizeofStreamHeader) ∧
      msg.payload.length = n + sizeofStreamHeader := by
  obtain ⟨hp, hif⟩ := headCase_passes (by rw [hcase]; simp) (by rw [hcase]; simp)
  obtain ⟨-, hstream, hsyn, hconid, hdomain, hack⟩ := hp
  rw [hcase, h.ret, Int.toNat_natCast] at hif
  rw [h.ret] at hstream
  rw [h.read] at hstream hsyn hconid hdomain hack hif
  dsimp only at hstream hsyn hconid hdomain hack hif
  rw [ofBytes_take] at hsyn hconid hack hif
  have hlong : ¬ (msg.protocol ≠ protoStream ∨ msg.payload.length < sizeofStreamHeader) :=
    fun hbad => hstream (hbad.imp id Int.ofNat_lt.mpr)
  have hpeek : peekHeader msg =
      some (StreamHeader.ofBytes msg.payload, msg.payload.drop sizeofStreamHeader) := if_neg hlong
  split at hif
  · cases hif
  · next hrst =>
    obtain rfl := HeadCase.data.inj hif
    unfold peerPayload
    rw [hpeek]
    refine ⟨if_pos ⟨not_not.mp hconid, not_not.mp hdomain, Bool.not_eq_true _ ▸ hsyn,
      Bool.not_eq_true _ ▸ hack, Bool.not_eq_true _ ▸ hrst⟩, ?_⟩
    omega

/-- What the loop throws away is no payload of the peer. -/
theorem HeadIs.peerPayload_discard (h : HeadIs m msg rxp) (hcase : headCase x m = .discard) :
    peerPayload x msg = none := by
  unfold peerPayload
  cases hpeek : peekHeader msg with
  | none => rfl
  | some p =>
    obtain ⟨sh, data⟩ := p
    dsimp only
    rw [if_neg]
    rintro ⟨hconid, hdomain, hsyn, hack, -⟩
    unfold peekHeader at hpeek
    split at hpeek
    · cases hpeek
    · next hlong =>
      obtain ⟨rfl, -⟩ := Prod.mk.inj (Option.some.inj hpeek)
      unfold headCase at hcase
      dsimp only at hcase
      rw [h.ret, h.read, if_neg (by omega)] at hcase
      dsimp only at hcase
      rw [ofBytes_take, if_neg (fun hbad => hlong (hbad.imp id Int.ofNat_lt.mp)), hsyn,
        if_neg Bool.false_ne_true, if_neg (not_not.mpr hconid), if_neg (not_not.mpr hdomain), hack,
        if_neg Bool.false_ne_true] at hcase
      split at hcase <;> cases hcase

end Head

/-! ## One round -/

/-- The IRP is none of the IOCTLs that belong before the stream. -/
def Pending.Plain (irp : Pending) : Prop := has irp.flags (peekSyn ||| peekAck) = false

instance (irp : Pending) : Decidable irp.Plain := inferInstanceAs (Decidable (_ = _))

namespace ReadLoop
variable {s : ReadLoop} {c : Nat} {irp : Pending} {n : Nat}

theorem handle_ioctl (hirp : ¬ irp.Plain) :
    s.handle c irp = (true, s.finish irp .invalidDeviceRequest []) :=
  if_pos (Bool.not_eq_false _ ▸ hirp)

theorem handle_refused (hirp : irp.Plain) (h : headCase (s.device.contexts c) s.ring = .refused) :
    s.handle c irp = (true, { s.finish irp .internalDbCorruption [] with ring := v4vRecoverRing s.ring }) := by
  have hret : i32 (copyOut s.ring sizeofStreamHeader false).ret < 0 := by
    rcases headCase_cases (s.device.contexts c) s.ring with ⟨-, hret⟩ | hdiscard | ⟨-, hif⟩
    · exact hret
    · rw [h] at hdiscard
      cases hdiscard
    · rw [h] at hif
      split at hif <;> cases hif
  unfold handle
  dsimp only
  rw [if_neg (by rw [hirp]; decide), if_pos hret]

theorem handle_discard (hirp : irp.Plain) (h : headCase (s.device.contexts c) s.ring = .discard) :
    ∃ resets, s.handle c irp = (true, consume { s with retain := true } (dropHead s.ring) resets) := by
  unfold handle
  unfold headCase at h
  dsimp only at h ⊢
  rw [if_neg (by rw [hirp]; decide), copyOut_mem, copyOut_mem]
  split at h
  · cases h
  next hret =>
  rw [if_neg hret]
  split at h
  · next hbin => exact ⟨_, by rw [if_pos hbin]⟩
  next hbin =>
  rw [if_neg hbin]
  split at h
  · next hsyn => exact ⟨_, by rw [if_pos hsyn]⟩
  next hsyn =>
  rw [if_neg hsyn]
  split at h
  · next hconid => exact ⟨_, by rw [if_pos hconid]⟩
  next hconid =>
  rw [if_neg hconid]
  split at h
  · next hdomain => exact ⟨_, by rw [if_pos hdomain]⟩
  next hdomain =>
  rw [if_neg hdomain]
  split at h
  · next hack => exact ⟨_, by rw [if_pos hack]⟩
  · split at h <;> cases h

/-- The end of a round, when the message passes all checks. -/
theorem handle_passes (hirp : irp.Plain)
    (h : Passes (s.device.contexts c) (copyOut s.ring sizeofStreamHeader false)) :
    s.handle c irp =
      if (StreamHeader.ofBytes (copyOut s.ring sizeofStreamHeader false).buf).has shfRst then
        (false, finish { s with
          retain := false, device := s.device.disconnectStreamAndSignal c } irp .virtualCircuitClosed [])
      else if irp.length.toNat < (i32 (copyOut s.ring sizeofStreamHeader false).ret).toNat -
          sizeofStreamHeader then
        (true, finish { s with retain := false } irp .bufferOverflow [])
      else (true, { (finish { s with retain := false } irp .success
        (((headMessage s.ring).map fun msg => msg.payload.drop sizeofStreamHeader).getD [])).consume
          (dropHead s.ring) [] with notify := true }) := by
  obtain ⟨msg, rxp, hmsg⟩ := head_of_not_refused h.read
  unfold handle
  dsimp only
  rw [if_neg (by rw [hirp]; decide), if_neg h.read, if_neg h.stream, if_neg h.syn, if_neg h.conid,
    if_neg h.domain, if_neg h.ack]
  split
  · rfl
  split
  · rfl
  · next hsmall =>
    -- the read takes the whole payload
    obtain ⟨out, hout, houtret, houtring, houtdata⟩ := v4vCopyOutOffset_copyOut s.ring
      (some (copyOut s.ring sizeofStreamHeader false).source)
      (some (copyOut s.ring sizeofStreamHeader false).protocol)
      (irp.length.toNat + sizeofStreamHeader) true sizeofStreamHeader fun _ => 0
    rw [hmsg.ret, Int.toNat_natCast] at hsmall
    rw [copyOut_mem] at houtring
    have houtret' : i32 out.ret = msg.payload.length := by rw [houtret, hmsg.ret]
    rw [hmsg.read] at houtdata
    dsimp only at houtdata
    rw [List.take_of_length_le (by omega)] at houtdata
    rw [hout]
    dsimp only
    rw [houtret', if_neg (by omega), houtring, Int.toNat_natCast, houtdata, hmsg.headMessage]
    rfl

theorem handle_rst (hirp : irp.Plain) (h : headCase (s.device.contexts c) s.ring = .rst) :
    s.handle c irp = (false, finish { s with
      retain := false, device := s.device.disconnectStreamAndSignal c } irp .virtualCircuitClosed []) := by
  obtain ⟨hp, hif⟩ := headCase_passes (by rw [h]; decide) (by rw [h]; decide)
  rw [handle_passes hirp hp]
  rw [h] at hif
  split at hif
  · next hrst => rw [if_pos hrst]
  · cases hif

/-- The peer's data is left in the ring, if the read is too small for it, or goes to the read. -/
theorem handle_data (hirp : irp.Plain) (h : headCase (s.device.contexts c) s.ring = .data n) :
    ∃ msg, headMessage s.ring = some msg ∧ peerPayload (s.device.contexts c) msg =
        some (msg.payload.drop sizeofStreamHeader) ∧
      s.handle c irp =
        if irp.length.toNat < n then (true, finish { s with retain := false } irp .bufferOverflow [])
        else (true, { (finish { s with retain := false } irp .success
          (msg.payload.drop sizeofStreamHeader)).consume (dropHead s.ring) [] with notify := true }) := by
  obtain ⟨hp, hif⟩ := headCase_passes (by rw [h]; simp) (by rw [h]; simp)
  obtain ⟨msg, rxp, hmsg⟩ := head_of_not_refused hp.read
  refine ⟨msg, hmsg.headMessage, (hmsg.peerPayload_data h).1, ?_⟩
  rw [handle_passes hirp hp, hmsg.headMessage]
  rw [h] at hif
  split at hif
  · cases hif
  · next hrst =>
    rw [if_neg hrst, ← HeadCase.data.inj hif]
    rfl

end ReadLoop

/-! ## A ring with a queue of messages -/

theorem HeadIs.of_holds {m : PageMem} {msg : Message} {q : List Message} (h : m.Holds (msg :: q)) :
    HeadIs m msg (advance (MachineWord.read m.byte offsetofLen 4) (MachineWord.read m.byte offsetofRxPtr 4)
      msg.record.size) where
  small := by
    have htotal := h.total_lt
    have hsmall := h.small
    rw [List.map_cons, total_cons, Message.record_size] at htotal
    omega
  read := h.copyOut_cons

theorem dropHead_holds {m : PageMem} {msg : Message} {q : List Message} (h : m.Holds (msg :: q)) :
    (dropHead m).Holds q := by
  unfold dropHead
  rw [h.copyOut_cons]
  exact h.tail

namespace ReadLoop

/-- What `t` is after a round that the queue of messages describes as `o`. -/
structure After (s : ReadLoop) (o : Round) (msg : Message) (q : List Message) (t : Bool × ReadLoop) : Prop where
  on : t.1 = decide (o.verdict ≠ .stop)
  retain : t.2.retain = decide (o.verdict = .retain)
  nextIrp : t.2.nextIrp = s.nextIrp
  device : t.2.device = o.device
  ring : t.2.ring.Holds (if o.consumed then q else msg :: q)
  resets : t.2.resets = s.resets ++ o.resets

/-- The message is thrown away. -/
theorem After.dropped {s : ReadLoop} {msg : Message} {q : List Message} {mem : PageMem}
    {resets : List SentReset} (h : mem.Holds q) :
    After s ⟨.retain, true, s.device, resets⟩ msg q (true, consume { s with retain := true } mem resets) where
  on := rfl
  retain := rfl
  nextIrp := rfl
  device := rfl
  ring := h
  resets := rfl

/-- A SYN or ACK without payload is answered. -/
theorem bareReset_eq {bs : List UInt8} (hlong : ¬ bs.length < sizeofStreamHeader) (rst : Bool) (r : SentReset) :
    (if (bs.length : Int) = sizeofStreamHeader ∧ rst = false then [r] else []) =
      if bs.drop sizeofStreamHeader = [] then (if rst then [] else [r]) else [] := by
  have hbare : (bs.length : Int) = sizeofStreamHeader ↔ bs.drop sizeofStreamHeader = [] := by
    rw [List.drop_eq_nil_iff]
    omega
  cases rst <;> simp [hbare]

theorem handle_holds {s : ReadLoop} {c : Nat} {irp : Pending} {msg : Message} {q : List Message}
    (h : s.ring.Holds (msg :: q)) (hk : s.retain = true → irp.Plain) :
    s.After (s.device.connectorRound c irp msg) msg q (s.handle c irp) := by
  have hhead := HeadIs.of_holds h
  have htail := dropHead_holds h
  have hhandle := handle.eq_def s c irp
  unfold Device.connectorRound
  dsimp only at hhandle ⊢
  by_cases hirp : has irp.flags (peekSyn ||| peekAck) = true
  · have hretain : s.retain = false := by
      rcases Bool.eq_false_or_eq_true s.retain with hkept | hfree
      · exact absurd (hk hkept) (Bool.not_eq_false _ ▸ hirp)
      · exact hfree
    rw [if_pos hirp] at hhandle ⊢
    rw [hhandle]
    exact ⟨rfl, hretain, rfl, rfl, h, (List.append_nil _).symm⟩
  have hret : ¬ i32 (copyOut s.ring sizeofStreamHeader false).ret < 0 := by
    rw [hhead.ret]
    omega
  rw [if_neg hirp, if_neg hret, copyOut_mem, copyOut_mem] at hhandle
  rw [if_neg hirp]
  by_cases hbin : msg.protocol ≠ protoStream ∨ msg.payload.length < sizeofStreamHeader
  · have hbin' : (copyOut s.ring sizeofStreamHeader false).protocol ≠ protoStream ∨
        i32 (copyOut s.ring sizeofStreamHeader false).ret < sizeofStreamHeader := by
      rw [hhead.ret, hhead.read]
      exact hbin.imp id Int.ofNat_lt.mpr
    rw [if_pos hbin'] at hhandle
    rw [show peekHeader msg = none from if_pos hbin, hhandle]
    exact .dropped htail
  have hbin' : ¬ ((copyOut s.ring sizeofStreamHeader false).protocol ≠ protoStream ∨
      i32 (copyOut s.ring sizeofStreamHeader false).ret < sizeofStreamHeader) := by
    rw [hhead.ret, hhead.read]
    exact fun hbad => hbin (hbad.imp id Int.ofNat_lt.mp)
  have hsh : StreamHeader.ofBytes (copyOut s.ring sizeofStreamHeader false).buf =
      StreamHeader.ofBytes msg.payload := by rw [hhead.read, ofBytes_take]
  have hsource : (copyOut s.ring sizeofStreamHeader false).source = msg.source := by rw [hhead.read]
  have hagain : copyOut s.ring sizeofStreamHeader true = ⟨(msg.payload.length : Nat), msg.source, msg.protocol,
      msg.payload.take sizeofStreamHeader, dropHead s.ring⟩ := by
    rw [← copyOut_mem s.ring sizeofStreamHeader, hhead.read]
  have hlong : ¬ msg.payload.length < sizeofStreamHeader := fun hlt => hbin (.inr hlt)
  have hbare := bareReset_eq hlong ((StreamHeader.ofBytes msg.payload).has shfRst)
    ⟨(StreamHeader.ofBytes msg.payload).conid, msg.source⟩
  have hretAgain : i32 (copyOut s.ring sizeofStreamHeader true).ret = msg.payload.length := hhead.ret _ _
  rw [show peekHeader msg = _ from if_neg hbin]
  rw [if_neg hbin', hsh, hsource, hretAgain, hagain] at hhandle
  dsimp only at hhandle ⊢
  rw [ofBytes_take, hbare] at hhandle
  by_cases hsyn : (StreamHeader.ofBytes msg.payload).has shfSyn = true
  · rw [if_pos hsyn] at hhandle ⊢
    rw [hhandle]
    exact .dropped htail
  rw [if_neg hsyn] at hhandle ⊢
  by_cases hconid : (StreamHeader.ofBytes msg.payload).conid ≠ (s.device.contexts c).connId.toUInt32
  · rw [if_pos hconid] at hhandle ⊢
    rw [hhandle]
    exact .dropped htail
  rw [if_neg hconid] at hhandle ⊢
  by_cases hdomain : (s.device.contexts c).sdst.domain ≠ msg.source.domain
  · rw [if_pos hdomain] at hhandle ⊢
    rw [hhandle]
    exact .dropped htail
  rw [if_neg hdomain] at hhandle ⊢
  by_cases hack : (StreamHeader.ofBytes msg.payload).has shfAck = true
  · rw [if_pos hack] at hhandle ⊢
    rw [hhandle]
    exact .dropped htail
  rw [if_neg hack]
  -- the message is the peer's
  rw [handle_passes (Bool.eq_false_iff.mpr hirp)
    ⟨hret, hbin', hsh.symm ▸ hsyn, hsh.symm ▸ hconid, hsource.symm ▸ hdomain, hsh.symm ▸ hack⟩, hsh, hhead.ret,
    hhead.headMessage, Int.toNat_natCast, ← List.length_drop]
  by_cases hrst : (StreamHeader.ofBytes msg.payload).has shfRst = true
  · rw [if_pos hrst, if_pos hrst]
    exact ⟨rfl, rfl, rfl, rfl, h, (List.append_nil _).symm⟩
  rw [if_neg hrst, if_neg hrst]
  by_cases hsmall : irp.length.toNat < (msg.payload.drop sizeofStreamHeader).length
  · rw [if_pos hsmall, if_pos hsmall]
    exact ⟨rfl, rfl, rfl, rfl, h, (List.append_nil _).symm⟩
  · rw [if_neg hsmall, if_neg hsmall]
    exact ⟨rfl, rfl, rfl, rfl, htail, rfl⟩

end ReadLoop

end V4v.Windows
