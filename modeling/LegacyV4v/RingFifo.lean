import LegacyV4v.GuardedRun
import LegacyV4v.RecordStream
import LegacyV4v.RingRead

/-! # The ring is a FIFO queue of messages

Encoder and decoder are written apart, one in Xen and one in the guest.  Here they
are run against each other: an operation is either an insertion or a consuming
`v4v_copy_out`, a run is any list of them, and the observed events are compared
with a queue of messages (`Fifo`).

The invariant `Holds r q` says that the unread part of the ring, from `rx_ptr` on,
carries the records of the messages in `q` and ends at `tx_ptr`.  Since an
insertion leaves at least 16 bytes free, `rx_ptr = tx_ptr` means that `q` is empty.
All of this is for rings of at most `2^31` bytes: both sides compute the distance of
the two pointers in an `int32_t`. -/
namespace V4v
open MachineWord CyclicBuffer RecordStream RingInfo

/-- A message, as sender and receiver see it. -/
structure Message where
  source : Addr
  protocol : UInt32
  payload : List UInt8

namespace Message

/-- The message an insertion of `len` bytes from `buf` sends. -/
def ofBuf (src : Addr) (proto : UInt32) (buf : GuestBuf) (len : UInt32) : Message :=
  ⟨src, proto, (List.range len.toNat).map fun i : Nat => buf.byte i⟩

/-- The header in front of the message. -/
def header (x : Message) : MessageHeader :=
  ⟨UInt32.ofNat (x.payload.length + 16), x.source, 0, x.protocol⟩

/-- The message as a record of the byte stream: header and payload, padded to a
multiple of 16. -/
def record (x : Message) : Record where
  bytes := x.header.bytes ++ x.payload
  size := sizeofMessageHeader + (x.payload.length + 15) / 16 * 16
  fits := by
    rw [List.length_append, MessageHeader.bytes_length]
    omega

end Message

/-! ## Runs and the queue they should follow -/

/-- An operation on the ring: an insertion by Xen, or a consuming `v4v_copy_out`
into a buffer of `t` bytes by the owner. -/
inductive RingOp where
  | insert (src : Addr) (proto : UInt32) (buf : GuestBuf) (len : UInt32)
  | copyOut (t : Nat)

/-- What the operation showed: the message offered and the result of the insertion,
or what was read with a buffer of `t` bytes. -/
inductive RingEvent where
  | inserted (x : Message) (ret : Int)
  | read (t : Nat) (ret : Int) (source : Addr) (protocol : UInt32) (buf : List UInt8)

/-- One operation; `none` if the hypervisor does not survive it. -/
def RingInfo.step (r : RingInfo) : RingOp → Option (RingEvent × RingInfo)
  | .insert src proto buf len =>
    (ringbufInsert r src proto buf len).map fun out =>
      (.inserted (Message.ofBuf src proto buf len) out.ret, out.ring)
  | .copyOut t =>
    let o := V4v.copyOut r.mem t true
    some (.read t o.ret o.source o.protocol o.buf, { r with mem := o.mem })

/-- A run: its events, and the ring at its end. -/
def RingInfo.run (r : RingInfo) (ops : List RingOp) : Option (List RingEvent × RingInfo) :=
  GuardedRun.exec RingInfo.step r ops

/-- The events are those of a FIFO queue that holds `q` at first: an insertion that
returned a value `≥ 0` appends its message, and a read returns -1 exactly on the
empty queue and otherwise takes the first message, whole length, source, protocol
and as many bytes as the buffer holds. -/
def Fifo : List Message → List RingEvent → Prop
  | _, [] => True
  | q, .inserted x ret :: es => Fifo (if 0 ≤ ret then q ++ [x] else q) es
  | [], .read _ ret _ _ _ :: es => ret = -1 ∧ Fifo [] es
  | x :: q, .read t ret source protocol buf :: es =>
    ret = x.payload.length ∧ source = x.source ∧ protocol = x.protocol ∧
      buf = x.payload.take t ∧ Fifo q es

/-- The payload lengths for which `V4V_ROUNDUP` does not wrap. -/
def RingOp.Bounded : RingOp → Prop
  | .insert _ _ _ len => len.toNat ≤ 4294967280
  | .copyOut _ => True

/-! ## The invariant -/

/-- The data area from `rx_ptr` on, going round at the ring end. -/
def RingInfo.window (r : RingInfo) (i : Nat) : UInt8 :=
  r.mem.byte (sizeofRing + advance r.len.toNat r.rxPtr i)

/-- The ring holds the unread messages `q`. -/
structure RingInfo.Holds (r : RingInfo) (q : List Message) : Prop where
  sane : r.Sane
  small : r.len.toNat ≤ 2147483648
  mapped : r.Mapped
  cover : sizeofRing + r.len.toNat ≤ r.npage.toNat * pageSize
  shared_len : r.sharedLen = r.len.toNat
  shared_tx : r.sharedTxPtr = r.txPtr.toNat
  rx_lt : r.rxPtr < r.len.toNat
  rx_mod : r.rxPtr % 16 = 0
  unread : total (q.map Message.record) = distance r.len.toNat r.rxPtr r.txPtr.toNat
  carries : Carries r.window (q.map Message.record)

variable {r : RingInfo} {q : List Message}

theorem RingInfo.Holds.total_lt (h : r.Holds q) :
    total (q.map Message.record) < r.len.toNat := by
  rw [h.unread]
  exact distance_lt h.rx_lt h.sane.tx_lt

/-- `tx_ptr` is where the unread messages end. -/
theorem RingInfo.Holds.tx_eq (h : r.Holds q) :
    r.txPtr.toNat = advance r.len.toNat r.rxPtr (total (q.map Message.record)) := by
  rw [h.unread, advance_distance h.rx_lt h.sane.tx_lt]

theorem RingInfo.Holds.admits (h : r.Holds q) {len : UInt32} (ha : r.Admits len) :
    total (q.map Message.record) + messageSize len < r.len.toNat := by
  rw [h.unread]
  exact (admits_iff h.sane.tx_lt h.small h.rx_lt).mp ha

/-! ## Insertions -/

/-- Bytes outside the span of the new message keep their place in the window. -/
theorem RingInfo.Holds.outside (h : r.Holds q) {n i : Nat}
    (hn : total (q.map Message.record) + n < r.len.toNat)
    (hi : i < total (q.map Message.record)) :
    ¬ r.Span r.txPtr.toNat n (sizeofRing + advance r.len.toNat r.rxPtr i) := by
  rw [span_iff h.sane.tx_lt (by omega)]
  rintro ⟨j, hj, he⟩
  have he' := Nat.add_left_cancel he
  rw [h.tx_eq, advance_advance h.rx_lt (by omega)] at he'
  have := advance_injective (by omega) (by omega) he'
  omega

/-- A change of the pages that spares the ring header and the unread messages
keeps the invariant. -/
theorem RingInfo.Holds.of_frame (h : r.Holds q) {m : PageMem}
    (hhead : ∀ a, a < sizeofRing → m.byte a = r.mem.byte a)
    (hdata : ∀ i, i < total (q.map Message.record) →
      m.byte (sizeofRing + advance r.len.toNat r.rxPtr i) = r.window i) :
    RingInfo.Holds { r with mem := m } q := by
  have hrx : ({ r with mem := m } : RingInfo).rxPtr = r.rxPtr :=
    read_congr fun i hi => hhead _ (by unfold offsetofRxPtr sizeofRing; omega)
  refine ⟨⟨h.sane.1, h.sane.2, h.sane.3, h.sane.4, h.sane.5⟩, h.small, h.mapped, h.cover,
    ?_, ?_, ?_, ?_, ?_, ?_⟩
  · rw [← h.shared_len]
    exact read_congr fun i hi => hhead _ (by unfold offsetofLen sizeofRing; omega)
  · rw [← h.shared_tx]
    exact read_congr fun i hi => hhead _ (by unfold offsetofTxPtr sizeofRing; omega)
  · rw [hrx]; exact h.rx_lt
  · rw [hrx]; exact h.rx_mod
  · rw [hrx]; exact h.unread
  · refine h.carries.congr fun i hi => ?_
    unfold window
    rw [hrx]
    exact hdata i hi

/-- The header of an inserted message is the one its record has. -/
theorem Message.ofBuf_header {src : Addr} {proto : UInt32} {buf : GuestBuf} {len : UInt32} :
    (⟨len + 16, src, 0, proto⟩ : MessageHeader) = (Message.ofBuf src proto buf len).header := by
  have hlen : (Message.ofBuf src proto buf len).payload.length = len.toNat := by
    simp [Message.ofBuf]
  unfold Message.header
  rw [hlen, UInt32.ofNat_add, UInt32.ofNat_toNat]
  rfl

theorem Message.ofBuf_size {src : Addr} {proto : UInt32} {buf : GuestBuf} {len : UInt32}
    (hlen : len.toNat ≤ 4294967280) :
    (Message.ofBuf src proto buf len).record.size = messageSize len := by
  rw [messageSize_eq hlen]
  simp [Message.record, Message.ofBuf, sizeofMessageHeader]
  omega

/-- A successful copy puts the record of the message at `tx_ptr`. -/
theorem writeMessage_record (hs : r.Sane) (hsmall : r.len.toNat ≤ 2147483648) {src : Addr}
    {proto len : UInt32} {buf : GuestBuf} (hlen : len.toNat ≤ 4294967280)
    (hfit : messageSize len < r.len.toNat) (hok : (r.writeMessage src proto buf len).ret = 0)
    {i : Nat} (hi : i < (Message.ofBuf src proto buf len).record.bytes.length) :
    (r.writeMessage src proto buf len).mem.byte
      (sizeofRing + advance r.len.toNat r.txPtr.toNat i) =
      (Message.ofBuf src proto buf len).record.bytes.getD i 0 := by
  unfold Message.record at hi ⊢
  dsimp only at hi ⊢
  rw [← Message.ofBuf_header] at hi ⊢
  rw [List.length_append, MessageHeader.bytes_length] at hi
  by_cases hhead : i < sizeofMessageHeader
  · rw [writeMessage_header hs hlen hfit hok hhead, List.getD_eq_getElem?_getD,
      List.getD_eq_getElem?_getD, List.getElem?_append_left (by simpa using hhead)]
  · have hi' : i - sizeofMessageHeader < len.toNat := by
      simp [Message.ofBuf] at hi; omega
    have hp := writeMessage_payload hs hlen hfit hsmall hok hi'
    rw [show sizeofMessageHeader + (i - sizeofMessageHeader) = i by omega] at hp
    rw [hp, List.getD_eq_getElem?_getD, List.getElem?_append_right (by simpa using hhead),
      MessageHeader.bytes_length]
    simp [Message.ofBuf, hi']

/-- A published message extends the queue. -/
theorem RingInfo.Holds.append (h : r.Holds q) {x : Message} {tx : Nat} {m : PageMem}
    (hfit : total (q.map Message.record) + x.record.size < r.len.toNat)
    (hsize : x.record.size % 16 = 0)
    (htx : tx = advance r.len.toNat r.txPtr.toNat x.record.size)
    (hhead : ∀ a, a < sizeofRing → m.byte a = r.mem.byte a)
    (hdata : ∀ i, i < total (q.map Message.record) →
      m.byte (sizeofRing + advance r.len.toNat r.rxPtr i) = r.window i)
    (hrec : ∀ i, i < x.record.bytes.length →
      m.byte (sizeofRing + advance r.len.toNat r.txPtr.toNat i) = x.record.bytes.getD i 0) :
    RingInfo.Holds { r with txPtr := UInt32.ofNat tx, mem := m.storeWord offsetofTxPtr tx }
      (q ++ [x]) := by
  have hL := r.len.toNat_lt
  have htx' : tx = advance r.len.toNat r.rxPtr (total (q.map Message.record) + x.record.size) := by
    rw [htx, h.tx_eq, advance_advance h.rx_lt (by omega)]
  have htx_lt : tx < r.len.toNat := by rw [htx]; exact advance_lt h.sane.tx_lt (by omega)
  have hnat : (UInt32.ofNat tx).toNat = tx := toNat_ofNat_of_lt (by omega)
  have hbyte : ∀ a, sizeofRing ≤ a → (m.storeWord offsetofTxPtr tx).byte a = m.byte a :=
    fun a ha => m.storeWord_byte (by decide) (by unfold offsetofTxPtr sizeofRing at *; omega)
  have hrx : read (m.storeWord offsetofTxPtr tx).byte offsetofRxPtr 4 = r.rxPtr := by
    rw [PageMem.read_storeWord_of_ne (by decide) (by decide)]
    exact read_congr fun i hi => hhead _ (by unfold offsetofRxPtr sizeofRing; omega)
  have hsane : RingInfo.Sane
      { r with txPtr := UInt32.ofNat tx, mem := m.storeWord offsetofTxPtr tx } := by
    refine ⟨h.sane.1, h.sane.2, h.sane.3, ?_, ?_⟩
    · show (UInt32.ofNat tx).toNat % 16 = 0
      rw [hnat, htx]
      exact Nat.mod_eq_zero_of_dvd (advance_dvd (Nat.dvd_of_mod_eq_zero h.sane.len_mod)
        (Nat.dvd_of_mod_eq_zero h.sane.tx_mod) (Nat.dvd_of_mod_eq_zero hsize))
    · show (UInt32.ofNat tx).toNat < r.len.toNat
      rw [hnat]; exact htx_lt
  have hq : total ((q ++ [x]).map Message.record) =
      total (q.map Message.record) + x.record.size := by
    rw [List.map_append, total_append]; rfl
  refine ⟨hsane, h.small, h.mapped, h.cover, ?_, ?_, ?_, ?_, ?_, ?_⟩
  · rw [← h.shared_len]
    refine (PageMem.read_storeWord_of_ne (by decide) (by decide)).trans ?_
    exact read_congr fun i hi => hhead _ (by unfold offsetofLen sizeofRing; omega)
  · exact (PageMem.read_storeWord (by decide) (by omega)).trans hnat.symm
  · exact Nat.lt_of_le_of_lt (Nat.le_of_eq hrx) h.rx_lt
  · exact (congrArg (· % 16) hrx).trans h.rx_mod
  · show total ((q ++ [x]).map Message.record) = distance r.len.toNat
      (read (m.storeWord offsetofTxPtr tx).byte offsetofRxPtr 4) (UInt32.ofNat tx).toNat
    rw [hq, hrx, hnat, htx', distance_advance h.rx_lt (by omega)]
  · have hwin : ∀ i, RingInfo.window
        { r with txPtr := UInt32.ofNat tx, mem := m.storeWord offsetofTxPtr tx } i =
        m.byte (sizeofRing + advance r.len.toNat r.rxPtr i) := by
      intro i
      show (m.storeWord offsetofTxPtr tx).byte (sizeofRing + advance r.len.toNat
        (read (m.storeWord offsetofTxPtr tx).byte offsetofRxPtr 4) i) = _
      rw [hrx, hbyte _ (by omega)]
    rw [List.map_append, carries_append]
    refine ⟨h.carries.congr fun i hi => ?_, ⟨fun i hi => ?_, trivial⟩⟩
    · rw [hwin, hdata i hi]
    · have hfits := x.record.fits
      dsimp only
      rw [hwin, ← hrec i hi, h.tx_eq, advance_advance h.rx_lt (by omega)]

/-- **An insertion keeps the invariant**: it appends its message when it returns a
value `≥ 0`, and loses nothing otherwise. -/
theorem RingInfo.Holds.insert (h : r.Holds q) (src : Addr) (proto : UInt32) (buf : GuestBuf)
    {len : UInt32} (hlen : len.toNat ≤ 4294967280) :
    ∃ out, ringbufInsert r src proto buf len = some out ∧
      out.ring.Holds (if 0 ≤ out.ret then q ++ [Message.ofBuf src proto buf len] else q) := by
  obtain ⟨out, hout⟩ := insertWith_isSome h.mapped len (r.writeMessage src proto buf len)
    (r.afterMessage len)
  refine ⟨out, hout, ?_⟩
  rcases insertWith_cases hout with ⟨hring, _, hret⟩ | ⟨hadm, _, hne, rfl⟩ | ⟨hadm, _, hok, rfl⟩
  · -- refused: the ring is as it was
    have hneg : ¬ 0 ≤ out.ret := by
      rcases hret with ⟨h, _⟩ | ⟨h, _⟩ | ⟨h, _⟩ <;> rw [h] <;> decide
    rw [if_neg hneg, hring]
    exact h
  · -- the copy failed: only free bytes were written
    have hfit := h.admits hadm
    have hpay := payload_le hlen hadm.1
    have hret : (r.writeMessage src proto buf len).ret = 0 ∨
        (r.writeMessage src proto buf len).ret = -efault := writeMessage_ret
    have hneg : ¬ 0 ≤ (r.writeMessage src proto buf len).ret := by
      rw [hret.resolve_left hne]; decide
    rw [if_neg hneg]
    refine h.of_frame (fun a ha => ?_) fun i hi => ?_
    · exact writeMessage_frame h.sane hlen hadm.1 fun hs => by have := hs.1; omega
    · exact writeMessage_frame h.sane hlen hadm.1
        (h.outside (by rw [messageSize_eq hlen] at hfit; unfold sizeofMessageHeader; omega) hi)
  · have hfit := h.admits hadm
    have hpay := payload_le hlen hadm.1
    have hsize : (Message.ofBuf src proto buf len).record.size = messageSize len :=
      Message.ofBuf_size hlen
    have hpos : (0 : Int) ≤ i32 len.toNat := by
      have := h.small
      rw [i32_of_lt (by omega)]
      omega
    rw [if_pos hpos]
    refine h.append (by rw [hsize]; exact hfit) ?_ ?_ (fun a ha => ?_) (fun i hi => ?_)
      (fun i hi => writeMessage_record h.sane h.small hlen hadm.1 hok hi)
    · rw [hsize, messageSize_eq hlen]; omega
    · rw [hsize]; exact afterMessage_eq h.sane hlen hadm.1
    · exact writeMessage_frame h.sane hlen hadm.1 fun hs => by have := hs.1; omega
    · exact writeMessage_frame h.sane hlen hadm.1
        (h.outside (by rw [messageSize_eq hlen] at hfit; unfold sizeofMessageHeader; omega) hi)

/-! ## Reads

The receiver has the shared pages only. -/

/-- The receiver's view of a ring: the length and the pointers that the pages show are those of a ring in
use, and the unread bytes carry the records of `q`. -/
structure PageMem.Holds (m : PageMem) (q : List Message) : Prop where
  len_mod : read m.byte offsetofLen 4 % 16 = 0
  len_ge : 48 ≤ read m.byte offsetofLen 4
  small : read m.byte offsetofLen 4 ≤ 2147483648
  rx_lt : read m.byte offsetofRxPtr 4 < read m.byte offsetofLen 4
  rx_mod : read m.byte offsetofRxPtr 4 % 16 = 0
  tx_lt : read m.byte offsetofTxPtr 4 < read m.byte offsetofLen 4
  unread : total (q.map Message.record) =
    distance (read m.byte offsetofLen 4) (read m.byte offsetofRxPtr 4) (read m.byte offsetofTxPtr 4)
  carries : Carries (fun i => m.byte (sizeofRing +
    advance (read m.byte offsetofLen 4) (read m.byte offsetofRxPtr 4) i)) (q.map Message.record)

section Receiver
variable {m : PageMem} {x : Message} {t : Nat}

theorem RingInfo.Holds.shared (h : r.Holds q) : r.mem.Holds q := by
  have hlen : read r.mem.byte offsetofLen 4 = r.len.toNat := h.shared_len
  have htx : read r.mem.byte offsetofTxPtr 4 = r.txPtr.toNat := h.shared_tx
  constructor
  · rw [hlen]; exact h.sane.len_mod
  · rw [hlen]; exact h.sane.len_ge
  · rw [hlen]; exact h.small
  · rw [hlen]; exact h.rx_lt
  · exact h.rx_mod
  · rw [hlen, htx]; exact h.sane.tx_lt
  · rw [hlen, htx]; exact h.unread
  · rw [hlen]; exact h.carries

/-- Xen's view is the receiver's, if the pages show Xen's length and `tx_ptr`. -/
theorem RingInfo.Holds.of_shared (hs : r.Sane) (hmapped : r.Mapped)
    (hcover : sizeofRing + r.len.toNat ≤ r.npage.toNat * pageSize) (hlen : r.sharedLen = r.len.toNat)
    (htx : r.sharedTxPtr = r.txPtr.toNat) (h : r.mem.Holds q) : r.Holds q where
  sane := hs
  small := Nat.le_trans (Nat.le_of_eq hlen.symm) h.small
  mapped := hmapped
  cover := hcover
  shared_len := hlen
  shared_tx := htx
  rx_lt := Nat.lt_of_lt_of_eq h.rx_lt hlen
  rx_mod := h.rx_mod
  unread := by rw [← hlen, ← htx]; exact h.unread
  carries := by unfold window; rw [← hlen]; exact h.carries

theorem Message.record_size : x.record.size = sizeofMessageHeader + (x.payload.length + 15) / 16 * 16 :=
  rfl

namespace PageMem.Holds

theorem total_lt (h : m.Holds q) : total (q.map Message.record) < read m.byte offsetofLen 4 := by
  rw [h.unread]
  exact distance_lt h.rx_lt h.tx_lt

/-- Nothing unread: the pointers are equal. -/
theorem empty (h : m.Holds []) : read m.byte offsetofTxPtr 4 = read m.byte offsetofRxPtr 4 := by
  have hd := advance_distance h.rx_lt h.tx_lt
  rw [← h.unread, List.map_nil, total_nil, advance_zero h.rx_lt] at hd
  exact hd.symm

theorem not_empty (h : m.Holds (x :: q)) :
    read m.byte offsetofRxPtr 4 ≠ read m.byte offsetofTxPtr 4 := by
  intro heq
  have hunread := h.unread
  rw [heq, List.map_cons, total_cons, Message.record_size, sizeofMessageHeader, distance,
    if_pos (Nat.le_refl _)] at hunread
  omega

/-- Moving `rx_ptr` behind the first message takes it off the queue. -/
theorem tail (h : m.Holds (x :: q)) :
    (m.storeWord offsetofRxPtr (advance (read m.byte offsetofLen 4) (read m.byte offsetofRxPtr 4)
      x.record.size)).Holds q := by
  have hL : read m.byte offsetofLen 4 < 2 ^ 32 := by have := h.small; omega
  have htotal := h.total_lt
  have hunread := h.unread
  rw [List.map_cons, total_cons] at htotal hunread
  have hsize : 16 ∣ x.record.size := by
    rw [Message.record_size, sizeofMessageHeader]
    omega
  have hrx_lt : advance (read m.byte offsetofLen 4) (read m.byte offsetofRxPtr 4) x.record.size <
      read m.byte offsetofLen 4 := advance_lt h.rx_lt (by omega)
  generalize hnew : advance (read m.byte offsetofLen 4) (read m.byte offsetofRxPtr 4) x.record.size = new
    at hrx_lt
  have hlen : read (m.storeWord offsetofRxPtr new).byte offsetofLen 4 = read m.byte offsetofLen 4 :=
    PageMem.read_storeWord_of_ne (by decide) (by decide)
  have htx : read (m.storeWord offsetofRxPtr new).byte offsetofTxPtr 4 = read m.byte offsetofTxPtr 4 :=
    PageMem.read_storeWord_of_ne (by decide) (by decide)
  have hrx : read (m.storeWord offsetofRxPtr new).byte offsetofRxPtr 4 = new :=
    PageMem.read_storeWord (by decide) (by omega)
  constructor
  · rw [hlen]; exact h.len_mod
  · rw [hlen]; exact h.len_ge
  · rw [hlen]; exact h.small
  · rw [hlen, hrx]; exact hrx_lt
  · rw [hrx, ← hnew]
    exact Nat.mod_eq_zero_of_dvd (advance_dvd (Nat.dvd_of_mod_eq_zero h.len_mod)
      (Nat.dvd_of_mod_eq_zero h.rx_mod) hsize)
  · rw [hlen, htx]; exact h.tx_lt
  · rw [hlen, htx, hrx, ← hnew, distance_advance_of_le h.rx_lt h.tx_lt (by omega), ← hunread]
    omega
  · refine h.carries.2.congr fun i hi => ?_
    dsimp only
    rw [hlen, hrx, ← hnew, advance_advance h.rx_lt (by omega)]
    exact m.storeWord_byte (by decide) (by unfold offsetofRxPtr sizeofRing; omega)

/-- **`v4v_copy_out` on a ring that holds `x` first** returns `x`, and takes it off if it shall. -/
theorem copyOut_cons (h : m.Holds (x :: q)) (t : Nat) (consume : Bool) :
    V4v.copyOut m t consume = ⟨x.payload.length, x.source, x.protocol, x.payload.take t,
      if consume then m.storeWord offsetofRxPtr (advance (read m.byte offsetofLen 4)
        (read m.byte offsetofRxPtr 4) x.record.size) else m⟩ := by
  have htotal := h.total_lt
  have hunread := h.unread
  rw [List.map_cons, total_cons] at htotal hunread
  have hsize : x.record.size = sizeofMessageHeader + (x.payload.length + 15) / 16 * 16 := rfl
  have hbytes : x.record.bytes = x.header.bytes ++ x.payload := rfl
  have hcar := h.carries.1
  rw [hbytes, List.length_append, MessageHeader.bytes_length] at hcar
  have hlen : x.header.len.toNat = sizeofMessageHeader + x.payload.length := by
    have := h.small
    unfold Message.header sizeofMessageHeader at *
    dsimp only
    rw [toNat_ofNat_of_lt (by omega)]
    omega
  -- the header is the first part of the record, the payload the second
  have hhead : ∀ i, i < sizeofMessageHeader → m.byte (sizeofRing +
      advance (read m.byte offsetofLen 4) (read m.byte offsetofRxPtr 4) i) = x.header.bytes.getD i 0 := by
    intro i hi
    refine (hcar i (by omega)).trans ?_
    rw [List.getD_eq_getElem?_getD, List.getD_eq_getElem?_getD,
      List.getElem?_append_left (by simpa using hi)]
  have hpay : (List.range (min t x.payload.length)).map (fun i => m.byte (sizeofRing +
      advance (read m.byte offsetofLen 4) (read m.byte offsetofRxPtr 4) (sizeofMessageHeader + i))) =
      x.payload.take t := by
    apply List.ext_getElem
    · simp
    · intro i hi hi'
      have hilt : i < x.payload.length := by simp at hi; omega
      rw [List.getElem_map, List.getElem_range, List.getElem_take]
      refine (hcar (sizeofMessageHeader + i) (by omega)).trans ?_
      rw [List.getD_eq_getElem?_getD, List.getElem?_append_right (by simp),
        MessageHeader.bytes_length, Nat.add_sub_cancel_left, List.getElem?_eq_getElem hilt]
      rfl
  rw [copyOut_message rfl h.len_mod h.small rfl h.rx_lt h.rx_mod rfl h.tx_lt hhead hlen (by omega)
    consume, hpay, hsize]
  rfl

end PageMem.Holds

end Receiver

/-- Moving `rx_ptr` behind the first message takes it off the queue. -/
theorem RingInfo.Holds.tail {x : Message} (h : r.Holds (x :: q)) :
    RingInfo.Holds { r with
      mem := r.mem.storeWord offsetofRxPtr (advance r.len.toNat r.rxPtr x.record.size) } q := by
  have hlen : read r.mem.byte offsetofLen 4 = r.len.toNat := h.shared_len
  have hshared := h.shared.tail
  rw [hlen] at hshared
  exact .of_shared ⟨h.sane.1, h.sane.2, h.sane.3, h.sane.4, h.sane.5⟩ h.mapped h.cover
    ((PageMem.read_storeWord_of_ne (by decide) (by decide)).trans hlen)
    ((PageMem.read_storeWord_of_ne (by decide) (by decide)).trans h.shared_tx) hshared

/-- `v4v_copy_out` on a ring that holds `x` first: it returns `x` and takes it off. -/
theorem RingInfo.Holds.copyOut_cons {x : Message} (h : r.Holds (x :: q)) (t : Nat) :
    V4v.copyOut r.mem t true = ⟨x.payload.length, x.source, x.protocol, x.payload.take t,
      r.mem.storeWord offsetofRxPtr (advance r.len.toNat r.rxPtr x.record.size)⟩ := by
  have hlen : read r.mem.byte offsetofLen 4 = r.len.toNat := h.shared_len
  rw [h.shared.copyOut_cons t true, hlen]
  rfl

/-! ## Runs -/

/-- One operation keeps the invariant, and its event is the one of the queue. -/
theorem RingInfo.Holds.step (h : r.Holds q) {op : RingOp} (hop : op.Bounded) :
    ∃ e r' q', r.step op = some (e, r') ∧ r'.Holds q' ∧ ∀ es, Fifo q' es → Fifo q (e :: es) := by
  cases op with
  | insert src proto buf len =>
    obtain ⟨out, hout, hq⟩ := h.insert src proto buf hop
    exact ⟨.inserted (Message.ofBuf src proto buf len) out.ret, out.ring, _,
      by rw [RingInfo.step, hout]; rfl, hq, fun es hes => hes⟩
  | copyOut t =>
    cases q with
    | nil =>
      have hempty := copyOut_empty (t := t) h.shared.empty true
      exact ⟨.read t (-1) ⟨0, 0⟩ 0 [], r, [], by rw [RingInfo.step, hempty], h,
        fun es hes => ⟨rfl, hes⟩⟩
    | cons x q =>
      exact ⟨.read t x.payload.length x.source x.protocol (x.payload.take t), _, q,
        by rw [RingInfo.step, h.copyOut_cons t], h.tail, fun es hes => ⟨rfl, rfl, rfl, rfl, hes⟩⟩

theorem RingInfo.Holds.run (h : r.Holds q) {ops : List RingOp} (hops : ∀ op ∈ ops, op.Bounded) :
    ∃ es r', r.run ops = some (es, r') ∧ Fifo q es := by
  induction ops generalizing r q with
  | nil => exact ⟨[], r, rfl, trivial⟩
  | cons op ops ih =>
    obtain ⟨e, r₁, q₁, hstep, h₁, hcons⟩ := h.step (hops op (by simp))
    obtain ⟨es, r₂, hrun, hes⟩ := ih h₁ fun o ho => hops o (by simp [ho])
    refine ⟨e :: es, r₂, ?_, hcons es hes⟩
    unfold RingInfo.run at hrun ⊢
    rw [GuardedRun.exec, hstep, Option.bind_some, hrun]
    rfl

/-- A ring nothing has been sent through since it was set up: both pointers stand at
the same valid position. -/
structure RingInfo.Fresh (r : RingInfo) : Prop where
  len_mod : r.len.toNat % 16 = 0
  len_ge : 48 ≤ r.len.toNat
  mapped : r.Mapped
  cover : sizeofRing + r.len.toNat ≤ r.npage.toNat * pageSize
  tx_mod : r.txPtr.toNat % 16 = 0
  tx_lt : r.txPtr.toNat < r.len.toNat
  shared_len : r.sharedLen = r.len.toNat
  shared_tx : r.sharedTxPtr = r.txPtr.toNat
  shared_rx : r.rxPtr = r.txPtr.toNat

theorem RingInfo.Fresh.holds (h : r.Fresh) (hsmall : r.len.toNat ≤ 2147483648) : r.Holds [] where
  sane := ⟨h.len_mod, h.len_ge, by omega, h.tx_mod, h.tx_lt⟩
  small := hsmall
  mapped := h.mapped
  cover := h.cover
  shared_len := h.shared_len
  shared_tx := h.shared_tx
  rx_lt := by rw [h.shared_rx]; exact h.tx_lt
  rx_mod := by rw [h.shared_rx]; exact h.tx_mod
  unread := by
    rw [h.shared_rx]
    unfold distance
    rw [if_pos (Nat.le_refl _)]
    exact (Nat.sub_self _).symm
  carries := trivial

/-- **The ring is a FIFO queue.**  In every run of insertions and consuming reads on a
fresh ring of at most `2^31` bytes, each operation returns, and the events are those
of a queue that is empty at first. -/
theorem run_is_fifo (h : r.Fresh) (hsmall : r.len.toNat ≤ 2147483648) (ops : List RingOp)
    (hops : ∀ op ∈ ops, op.Bounded) : ∃ es r', r.run ops = some (es, r') ∧ Fifo [] es :=
  (h.holds hsmall).run hops

theorem RingInfo.blank_fresh {id : RingId} {len npage tx : UInt32} (hmod : len.toNat % 16 = 0)
    (hge : 48 ≤ len.toNat) (hnpage : npage ≠ 0)
    (hcover : sizeofRing + len.toNat ≤ npage.toNat * pageSize) (htx : tx.toNat % 16 = 0)
    (hlt : tx.toNat < len.toNat) : (blank id len npage tx tx).Fresh :=
  ⟨hmod, hge, blank_mapped _ _ _ _ _ hnpage, hcover, htx, hlt, blank_sharedLen _ _ _ _ _,
    blank_sharedTxPtr _ _ _ _ _, blank_rxPtr _ _ _ _ _⟩

/-- A message that goes round the end of a 48-byte ring is read back. -/
theorem run_is_fifo_wrapping : ∃ es r', (blank ⟨⟨1, 1⟩, 2⟩ 48 1 16 16).run
    [.insert ⟨5, 2⟩ 6 (.ofBytes [1, 2, 3]) 3, .copyOut 2, .copyOut 2] = some (es, r') ∧
      Fifo [] es :=
  run_is_fifo (blank_fresh (by decide) (by decide) (by decide) (by decide) (by decide) (by decide))
    (by decide) _ (by simp [RingOp.Bounded])

/-! ## Longer rings

The free space no longer fits the `int32_t` that holds it.  It becomes negative, is
converted to a huge `size_t`, and the second size check lets everything pass: a second
message can move `tx_ptr` once round the ring, up to the unread first one. -/

/-- A ring of `2^31 + 32` bytes. -/
def wideRing : RingInfo := blank ⟨⟨1, 1⟩, 2⟩ 2147483680 524289 0 0

/-- Two messages that together fill the ring to the last byte, and a read. -/
def wideOps : List RingOp :=
  [.insert ⟨5, 2⟩ 6 (.ofBytes []) 16, .insert ⟨5, 2⟩ 6 (.ofBytes []) 2147483632, .copyOut 0]

theorem wideRing_run : ∃ x y r', wideRing.run wideOps =
    some ([.inserted x 16, .inserted y 2147483632, .read 0 (-1) ⟨0, 0⟩ 0 []], r') := by
  have hbuf := GuestBuf.ofBytes_readable []
  have hm : wideRing.Mapped := blank_mapped _ _ _ _ _ (by decide)
  have hs : wideRing.Sane := ⟨by decide, by decide, by decide, by decide, by decide⟩
  have hrx : wideRing.rxPtr = 0 := blank_rxPtr _ _ _ _ _
  -- the free space `2^31 + 32` counts as a huge `size_t`
  have hadm : wideRing.Admits 16 := ⟨by decide, by rw [hrx]; decide⟩
  obtain ⟨out, hout, hret, hl, hn, hmf, htx, hrx', _, _⟩ :=
    ringbufInsert_of_admits hs hm (by decide) ⟨5, 2⟩ 6 hbuf (by decide) hadm
  obtain ⟨ret, r₁, chunks, maps⟩ := out
  dsimp only at hret hl hn hmf htx hrx'
  obtain rfl : ret = 16 := hret.trans (by decide)
  have htx₁ : r₁.txPtr.toNat = 32 := htx.trans (by decide)
  have hlen₁ : r₁.len = 2147483680 := hl
  have hnpage₁ : r₁.npage = 524289 := hn
  have hs₁ : r₁.Sane := by
    refine ⟨?_, ?_, ?_, by rw [htx₁], by rw [htx₁, hlen₁]; decide⟩ <;> rw [hlen₁] <;> decide
  -- and so does what is free behind the first message, `2^31`
  have hadm₁ : r₁.Admits 2147483632 := by
    refine ⟨by rw [hlen₁]; decide, ?_⟩
    unfold RingInfo.space
    rw [hrx', hrx, htx₁, hlen₁]
    decide
  obtain ⟨out, hout₁, hret₁, _, _, _, htx', hrx₂, _, hshared⟩ :=
    ringbufInsert_of_admits hs₁ ⟨by rw [hnpage₁]; decide, by rw [hmf]; exact hm.2⟩
      (by rw [hlen₁, hnpage₁]; decide) ⟨5, 2⟩ 6 hbuf (by decide) hadm₁
  obtain ⟨ret₁, r₂, chunks₁, maps₁⟩ := out
  dsimp only at hret₁ htx' hrx₂ hshared
  obtain rfl : ret₁ = 2147483632 := hret₁.trans (by decide)
  rw [htx₁, hlen₁] at htx'
  -- `tx_ptr` is back at `rx_ptr`
  have hempty : read r₂.mem.byte offsetofTxPtr 4 = read r₂.mem.byte offsetofRxPtr 4 := by
    refine (hshared.trans htx').trans (Eq.symm ?_)
    exact (hrx₂.trans (hrx'.trans hrx)).trans (by decide)
  refine ⟨Message.ofBuf ⟨5, 2⟩ 6 (.ofBytes []) 16, Message.ofBuf ⟨5, 2⟩ 6 (.ofBytes []) 2147483632,
    r₂, ?_⟩
  rw [wideOps, RingInfo.run, GuardedRun.exec, RingInfo.step, hout, Option.map_some,
    Option.bind_some, GuardedRun.exec, RingInfo.step, hout₁, Option.map_some, Option.bind_some,
    GuardedRun.exec, RingInfo.step, copyOut_empty hempty, Option.bind_some, GuardedRun.exec]
  simp only [Option.map_some]

/-- On `wideRing` the messages of `wideOps` are both taken and both lost. -/
theorem wideRing_not_fifo : ¬ ∀ (r : RingInfo) (ops : List RingOp), r.Fresh →
    (∀ op ∈ ops, op.Bounded) → ∃ es r', r.run ops = some (es, r') ∧ Fifo [] es := by
  intro hall
  have hfresh : wideRing.Fresh :=
    blank_fresh (by decide) (by decide) (by decide) (by decide) (by decide) (by decide)
  obtain ⟨es, r', hrun, hes⟩ := hall wideRing wideOps hfresh
    (by simp [wideOps, RingOp.Bounded])
  obtain ⟨x, y, r'', hrun'⟩ := wideRing_run
  rw [hrun'] at hrun
  obtain ⟨rfl, _⟩ := Prod.mk.inj (Option.some.inj hrun)
  have hret : (-1 : Int) = x.payload.length := hes.1
  omega

end V4v
