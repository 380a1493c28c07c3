import LegacyV4v.IndexedRing
import LegacyV4v.MachineWord
import Mathlib.Logic.Function.Basic

/-! # The xenstore client of the Windows drivers

`xenbus.c` shares a page with xenstored that holds two rings of bytes, one for requests and one for
replies and watch events, with free-running 32-bit indices.  A request is a list of segments, the
first of which is its header; requests wait in the list of pending requests until their reply is
complete.  Everything here happens under the ring lock.

Requests and watch handlers are named by numbers.  A failed `XM_ASSERT` is `none`.  The driver is
not in austere mode. -/
namespace V4v.Xenutil
open IndexedRing

/-- `XENSTORE_RING_SIZE`. -/
abbrev xenstoreRingSize : Nat := 1024

/-- `MASK_XENSTORE_IDX`. -/
def maskXenstoreIdx (idx : UInt32) : Nat := (idx &&& 1023).toNat

theorem maskXenstoreIdx_eq (idx : UInt32) : maskXenstoreIdx idx = idx.toNat % xenstoreRingSize := by
  rw [maskXenstoreIdx, UInt32.toNat_and]
  exact Nat.and_two_pow_sub_one_eq_mod idx.toNat 10

theorem maskXenstoreIdx_lt (idx : UInt32) : maskXenstoreIdx idx < xenstoreRingSize := by
  rw [maskXenstoreIdx_eq]
  exact Nat.mod_lt _ (by decide)

/-! ## Messages -/

/-- `struct xsd_sockmsg`. -/
structure XsdSockmsg where
  type : UInt32
  reqId : UInt32
  txId : UInt32
  len : UInt32
  deriving DecidableEq

/-- `sizeof(struct xsd_sockmsg)`. -/
abbrev sizeofSockmsg : Nat := 16

/-- `XS_WATCH_EVENT`. -/
def xsWatchEvent : UInt32 := 15

/-- `XS_IS_DOMAIN_INTRODUCED`. -/
def xsIsDomainIntroduced : UInt32 := 17

namespace XsdSockmsg

/-- The header in memory. -/
def bytes (msg : XsdSockmsg) : List UInt8 :=
  MachineWord.bytes 4 msg.type.toNat ++ (MachineWord.bytes 4 msg.reqId.toNat ++
    (MachineWord.bytes 4 msg.txId.toNat ++ MachineWord.bytes 4 msg.len.toNat))

/-- The header that is in memory. -/
def ofBytes (bs : List UInt8) : XsdSockmsg where
  type := UInt32.ofNat (MachineWord.value (bs.take 4))
  reqId := UInt32.ofNat (MachineWord.value ((bs.drop 4).take 4))
  txId := UInt32.ofNat (MachineWord.value (((bs.drop 4).drop 4).take 4))
  len := UInt32.ofNat (MachineWord.value ((((bs.drop 4).drop 4).drop 4).take 4))

@[simp] theorem length_bytes (msg : XsdSockmsg) : msg.bytes.length = sizeofSockmsg := by
  simp only [bytes, List.length_append, MachineWord.bytes_length]

theorem bytes_ne_nil (msg : XsdSockmsg) : msg.bytes ≠ [] := by
  intro h
  have hlen := msg.length_bytes
  rw [h] at hlen
  cases hlen

@[simp] theorem ofBytes_bytes (msg : XsdSockmsg) : ofBytes msg.bytes = msg := by
  have hword : ∀ w : UInt32,
      UInt32.ofNat (MachineWord.value (MachineWord.bytes 4 w.toNat)) = w := by
    intro w
    have hlt : w.toNat < 256 ^ 4 := w.toNat_lt
    rw [MachineWord.value_bytes, Nat.mod_eq_of_lt hlt]
    exact UInt32.ofNat_toNat
  have h4 : ∀ w : UInt32, (MachineWord.bytes 4 w.toNat).length = 4 :=
    fun w => MachineWord.bytes_length ..
  cases msg with
  | mk type reqId txId len =>
    rw [ofBytes, bytes]
    dsimp only
    rw [List.take_left' (h4 type), List.drop_left' (h4 type), List.take_left' (h4 reqId),
      List.drop_left' (h4 reqId), List.take_left' (h4 txId), List.drop_left' (h4 txId),
      List.take_of_length_le (Nat.le_of_eq (h4 len)), hword, hword, hword, hword]

end XsdSockmsg

/-! ## The shared page -/

/-- `struct xenstore_domain_interface`. -/
structure XenstoreDomainInterface where
  req : Nat → UInt8
  rsp : Nat → UInt8
  reqCons : UInt32
  reqProd : UInt32
  rspCons : UInt32
  rspProd : UInt32

/-- `memcpy_to_ring`. -/
def memcpyToRing (ring : Nat → UInt8) (src : List UInt8) (idx ringSize : Nat) :
    Option (Nat → UInt8) :=
  if ¬ idx < ringSize then none
  else if ¬ src.length ≤ ringSize then none
  else
    let c1 := min src.length (ringSize - idx)
    some (poke (poke ring idx (src.take c1)) 0 (src.drop c1))

/-- `memcpy_from_ring`. -/
def memcpyFromRing (ring : Nat → UInt8) (size idx ringSize : Nat) : Option (List UInt8) :=
  if ¬ size ≤ ringSize then none
  else if ¬ idx < ringSize then none
  else
    let c1 := min size (ringSize - idx)
    let c2 := size - c1
    some (peek ring idx c1 ++ peek ring 0 c2)

theorem memcpyToRing_eq (ring : Nat → UInt8) (src : List UInt8) (idx : UInt32)
    (hsize : src.length ≤ xenstoreRingSize) :
    memcpyToRing ring src (maskXenstoreIdx idx) xenstoreRingSize =
      some (put xenstoreRingSize ring idx.toNat src) := by
  have hidx := maskXenstoreIdx_lt idx
  rw [memcpyToRing, if_neg (not_not_intro hidx), if_neg (not_not_intro hsize)]
  dsimp only
  rw [poke_poke hidx hsize, put_congr (j := idx.toNat)]
  rw [maskXenstoreIdx_eq, Nat.mod_mod]

theorem memcpyFromRing_eq (ring : Nat → UInt8) (size : Nat) (idx : UInt32)
    (hsize : size ≤ xenstoreRingSize) :
    memcpyFromRing ring size (maskXenstoreIdx idx) xenstoreRingSize =
      some (get xenstoreRingSize ring idx.toNat size) := by
  have hidx := maskXenstoreIdx_lt idx
  rw [memcpyFromRing, if_neg (not_not_intro hsize), if_neg (not_not_intro hidx)]
  dsimp only
  rw [peek_append_peek hidx hsize, get_congr (j := idx.toNat)]
  rw [maskXenstoreIdx_eq, Nat.mod_mod]

/-! ## Requests -/

/-- `struct xenbus_pending_req`; `replyPayload` is what is in the buffer, `replyBufSize` bytes. -/
structure PendingReq where
  nextTxSeg : List (List UInt8)
  txSgOff : UInt32
  replyHeader : XsdSockmsg
  replyPayload : Option (List UInt8)
  replyBufSize : Nat
  replyPayloadReceived : Nat
  xenbusReplied : Bool
  id : UInt32

/-- The variables of `xenbus.c`.  The list of requests is a list of names; of the watch handlers the
names and tokens are given.  `triggered` says which handlers have been triggered so far. -/
structure Xenbus where
  reqs : Nat → PendingReq
  pending : List Nat
  currentRxReq : Option Nat
  currentTxReq : Option Nat
  consResponseDiscardBytes : UInt32
  sharedBuf : XenstoreDomainInterface
  watches : List (Nat × List UInt8)
  triggered : List Nat
  sequenceNumber : UInt32
  xenbusOutstandingCtr : Int
  allowNewXenbusOperation : Bool
  allowXenbusWatchOperation : Bool

/-- `initialise_sg_list`: the header, and the segments with the header in front. -/
def initialiseSgList (type txId seq : UInt32) (args : List (List UInt8)) :
    XsdSockmsg × List (List UInt8) :=
  let msg : XsdSockmsg := ⟨type, seq + 1, txId, UInt32.ofNat (args.map List.length).sum⟩
  (msg, msg.bytes :: args)

/-- `initialise_pending_req`. -/
def initialisePendingReq (hdr : XsdSockmsg) (io : List (List UInt8)) : PendingReq where
  nextTxSeg := io
  txSgOff := 0
  replyHeader := ⟨0, 0, 0, 0⟩
  replyPayload := none
  replyBufSize := 0
  replyPayloadReceived := 0
  xenbusReplied := false
  id := hdr.reqId

/-- `set_reply_buffer`. -/
def setReplyBuffer (req : PendingReq) (size : Nat) : Option PendingReq :=
  if ¬ 12 ≤ size then none
  else some { req with replyPayload := some (List.replicate size 0), replyBufSize := size }

namespace Xenbus

/-- Write to a request. -/
def setReq (s : Xenbus) (r : Nat) (q : PendingReq) : Xenbus :=
  { s with reqs := Function.update s.reqs r q }

@[simp] theorem reqs_setReq_self (s : Xenbus) (r : Nat) (q : PendingReq) :
    (s.setReq r q).reqs r = q :=
  Function.update_self ..

theorem reqs_setReq_of_ne (s : Xenbus) {r j : Nat} (q : PendingReq) (h : j ≠ r) :
    (s.setReq r q).reqs j = s.reqs j :=
  Function.update_of_ne h ..

/-- `find_pending_rx_req`. -/
def findPendingRxReq (s : Xenbus) (id : UInt32) : Option Nat :=
  s.pending.find? fun r => (s.reqs r).id == id

/-- `req->next`. -/
def nextReq (s : Xenbus) (r : Nat) : Option Nat :=
  (s.pending.dropWhile (· != r)).tail.head?

/-- `submit_request` of the request `req` under the name `r`; the result says whether it was
taken. -/
def submitRequest (s : Xenbus) (r : Nat) (req : PendingReq) : Bool × Xenbus :=
  if s.allowNewXenbusOperation then
    let s := s.setReq r req
    (true, { s with
      xenbusOutstandingCtr := s.xenbusOutstandingCtr + 1
      pending := s.pending ++ [r]
      currentTxReq := if s.currentTxReq = none then some r else s.currentTxReq })
  else (false, s)

/-- The end of `get_request_results`, when the reply is there. -/
def unhookRequest (s : Xenbus) (r : Nat) : Option Xenbus :=
  if s.currentTxReq = some r then none
  else if s.currentRxReq = some r then none
  else some { s with
    pending := s.pending.erase r
    xenbusOutstandingCtr := s.xenbusOutstandingCtr - 1 }

end Xenbus

/-! ## Sending -/

/-- Where `advance_tx_req` is: at an offset in the first of some segments. -/
structure TxPos where
  segs : List (List UInt8)
  offInSegment : UInt32
  prod : UInt32
  ring : Nat → UInt8

namespace TxPos

/-- How much is copied this time around. -/
def thisPass (cons : UInt32) (p : TxPos) (seg : List UInt8) : UInt32 :=
  let left := UInt32.ofNat seg.length - p.offInSegment
  let room := cons + 1024 - p.prod
  if left > room then room else left

/-- The loop of `advance_tx_req` once; the result says whether the condition of the loop held. -/
def round (cons : UInt32) (p : TxPos) : Option (Bool × TxPos) :=
  match p.segs with
  | [] => some (false, p)
  | seg :: next =>
    if p.prod = cons + 1024 then some (false, p)
    else
      let n := p.thisPass cons seg
      match memcpyToRing p.ring ((seg.drop p.offInSegment.toNat).take n.toNat)
          (maskXenstoreIdx p.prod) xenstoreRingSize with
      | none => none
      | some ring =>
        let off := p.offInSegment + n
        some (true,
          if off = UInt32.ofNat seg.length then ⟨next, 0, p.prod + n, ring⟩
          else ⟨seg :: next, off, p.prod + n, ring⟩)

/-- A segment that is not finished fills the ring. -/
theorem thisPass_of_ne {cons : UInt32} {p : TxPos} {seg : List UInt8}
    (h : p.offInSegment + p.thisPass cons seg ≠ UInt32.ofNat seg.length) :
    p.prod + p.thisPass cons seg = cons + 1024 := by
  rw [thisPass] at h ⊢
  by_cases hfull : UInt32.ofNat seg.length - p.offInSegment > cons + 1024 - p.prod
  · rw [if_pos hfull, UInt32.add_comm, UInt32.sub_add_cancel]
  · rw [if_neg hfull, UInt32.add_comm, UInt32.sub_add_cancel] at h
    exact absurd rfl h

/-- How often the loop can still be gone through. -/
def rounds (cons : UInt32) (p : TxPos) : Nat :=
  2 * p.segs.length + if p.prod = cons + 1024 then 0 else 1

theorem rounds_le (cons : UInt32) (p : TxPos) : p.rounds cons ≤ 2 * p.segs.length + 1 := by
  rw [rounds]
  split <;> omega

theorem rounds_lt {cons : UInt32} {p p' : TxPos} (h : p.round cons = some (true, p')) :
    p'.rounds cons < p.rounds cons := by
  rw [round] at h
  split at h
  · cases h
  · next seg next hsegs =>
    split at h
    · cases h
    · next hroom =>
      have hp : p.rounds cons = 2 * next.length + 3 := by
        rw [rounds, hsegs, if_neg hroom, List.length_cons]
        omega
      dsimp only at h
      split at h
      · cases h
      · obtain ⟨-, rfl⟩ := Prod.mk.inj (Option.some.inj h)
        rw [hp]
        split
        · exact Nat.lt_of_le_of_lt (rounds_le cons _) (Nat.lt_succ_of_lt (Nat.lt_succ_self _))
        · next hoff =>
          rw [rounds, if_pos (thisPass_of_ne hoff), List.length_cons]
          omega

end TxPos

/-- The loop of `advance_tx_req`. -/
def advanceLoop (cons : UInt32) (p : TxPos) : Option TxPos :=
  match h : p.round cons with
  | none => none
  | some (false, p') => some p'
  | some (true, p') =>
    have := TxPos.rounds_lt h
    advanceLoop cons p'
termination_by p.rounds cons

theorem advanceLoop_again {cons : UInt32} {p p' : TxPos} (h : p.round cons = some (true, p')) :
    advanceLoop cons p = advanceLoop cons p' := by
  rw [advanceLoop.eq_def cons p]
  split
  · next hn => cases hn.symm.trans h
  · next hn => cases hn.symm.trans h
  · next hn =>
    cases hn.symm.trans h
    rfl

theorem advanceLoop_last {cons : UInt32} {p p' : TxPos} (h : p.round cons = some (false, p')) :
    advanceLoop cons p = some p' := by
  rw [advanceLoop.eq_def cons p]
  split
  · next hn => cases hn.symm.trans h
  · next hn =>
    cases hn.symm.trans h
    rfl
  · next hn => cases hn.symm.trans h

namespace Xenbus

/-- Where `advance_tx_req` goes on with a request, ... -/
def txPos (s : Xenbus) (r : Nat) : TxPos :=
  ⟨(s.reqs r).nextTxSeg, (s.reqs r).txSgOff, s.sharedBuf.reqProd, s.sharedBuf.req⟩

/-- ... and what it writes back. -/
def setTxPos (s : Xenbus) (r : Nat) (p : TxPos) : Xenbus :=
  { s.setReq r { s.reqs r with nextTxSeg := p.segs, txSgOff := p.offInSegment } with
    sharedBuf := { s.sharedBuf with req := p.ring, reqProd := p.prod } }

/-- `advance_tx_req`. -/
def advanceTxReq (s : Xenbus) (r : Nat) : Option (Bool × Xenbus) :=
  match advanceLoop s.sharedBuf.reqCons (s.txPos r) with
  | none => none
  | some p => some (p.prod != s.sharedBuf.reqProd, s.setTxPos r p)

/-- The loop of `xenbus_dpc_func` that transmits, once. -/
def transmitRound (s : Xenbus) : Option (Bool × Xenbus) :=
  match s.currentTxReq with
  | none => some (false, s)
  | some r =>
    match s.advanceTxReq r with
    | none => none
    | some (false, s) => some (false, s)
    | some (true, s) =>
      if (s.reqs r).nextTxSeg = [] then some (true, { s with currentTxReq := s.nextReq r })
      else some (true, s)

end Xenbus

/-! ## Receiving -/

/-- A loop that looks for the end of a string in a watch event. -/
def scanNul (rsp : Nat → UInt8) (messageEnd i : UInt32) : UInt32 :=
  if rsp (maskXenstoreIdx i) = 0 then i
  else if h : i = messageEnd then i
  else scanNul rsp messageEnd (i + 1)
termination_by (messageEnd - i).toNat
decreasing_by
  have hne : i.toNat ≠ messageEnd.toNat := fun heq => h (UInt32.toNat.inj heq)
  have hi := i.toNat_lt
  have hend := messageEnd.toNat_lt
  rw [UInt32.toNat_sub, UInt32.toNat_sub, UInt32.toNat_add, UInt32.toNat_one]
  omega

/-- The header of the reply is here; `mem` is the memory that `XmAllocateMemory` finds. -/
def PendingReq.startReply (req : PendingReq) (hdr : XsdSockmsg) (mem : Option (Nat → UInt8)) :
    PendingReq :=
  let started := { req with replyHeader := hdr, replyPayloadReceived := 0 }
  match req.replyPayload with
  | some _ => started
  | none =>
    match mem with
    | some mem =>
      { started with
        replyPayload := some (peek mem 0 hdr.len.toNat)
        replyBufSize := hdr.len.toNat }
    | none => { started with replyBufSize := 0 }

/-- Some bytes of the reply are here. -/
def PendingReq.copyReply (req : PendingReq) (bs : List UInt8) : PendingReq :=
  let rxed := (UInt32.ofNat req.replyPayloadReceived).toNat
  { req with replyPayload := req.replyPayload.map fun payload =>
      payload.take rxed ++ bs ++ payload.drop (rxed + bs.length) }

namespace Xenbus

/-- `find_watch_by_ident`; the string ends in front of the first NUL. -/
def findWatchByIdent (s : Xenbus) (ident : List UInt8) : Option Nat :=
  (s.watches.find? fun w => w.2 == ident.takeWhile (· != 0)).map Prod.fst

/-- `fire_watch_by_ident`. -/
def fireWatchByIdent (s : Xenbus) (ident : List UInt8) : Xenbus :=
  match s.findWatchByIdent ident with
  | some wh => { s with triggered := s.triggered ++ [wh] }
  | none => s

/-- What `receive_from_xenstored` does with a watch event; the path is only printed. -/
def receiveWatch (s : Xenbus) (hdr : XsdSockmsg) : Option (Bool × Xenbus) :=
  let buf := s.sharedBuf
  let cons := buf.rspCons
  let bytesAvail := buf.rspProd - cons
  if bytesAvail.toNat < sizeofSockmsg + hdr.len.toNat then some (false, s)
  else
    let messageEnd := cons + 16 + hdr.len
    if ¬ messageEnd ≤ buf.rspProd then none
    else
      let consume (s : Xenbus) : Bool × Xenbus :=
        (cons != messageEnd, { s with sharedBuf := { buf with rspCons := messageEnd } })
      let pathEnd := scanNul buf.rsp messageEnd (cons + 16)
      if ¬ pathEnd ≤ messageEnd then none
      else if pathEnd = messageEnd then some (consume s)
      else
        let identStart := pathEnd + 1
        let identEnd := scanNul buf.rsp messageEnd identStart
        if ¬ identEnd ≤ messageEnd then none
        else if identEnd = messageEnd ∧ buf.rsp (maskXenstoreIdx identEnd) ≠ 0 then
          some (consume s)
        else if ¬ identEnd - identStart < 17 then none
        else
          match memcpyFromRing buf.rsp (identEnd - identStart + 1).toNat
              (maskXenstoreIdx identStart) xenstoreRingSize with
          | none => none
          | some ident =>
            some (consume (if s.allowXenbusWatchOperation then s.fireWatchByIdent ident else s))

/-- What `receive_from_xenstored` does with the header of a reply. -/
def receiveHeader (s : Xenbus) (hdr : XsdSockmsg) (mem : Option (Nat → UInt8)) :
    Option (Bool × Xenbus) :=
  let buf := s.sharedBuf
  let cons := buf.rspCons + 16
  let consume (s : Xenbus) : Bool × Xenbus :=
    (buf.rspCons != cons, { s with sharedBuf := { buf with rspCons := cons } })
  if hdr.type > xsIsDomainIntroduced then none
  else
    match s.findPendingRxReq hdr.reqId with
    | none => some (consume { s with consResponseDiscardBytes := hdr.len })
    | some r =>
      let s := s.setReq r ((s.reqs r).startReply hdr mem)
      some (consume { s with currentRxReq := some r })

/-- What `receive_from_xenstored` does when a request is being received into. -/
def receiveBody (s : Xenbus) (r : Nat) : Option (Bool × Xenbus) :=
  let buf := s.sharedBuf
  let cons := buf.rspCons
  let req := s.reqs r
  let bytesRxed := UInt32.ofNat req.replyPayloadReceived
  let bytesAvail := min (buf.rspProd - cons) (req.replyHeader.len - bytesRxed)
  let req? :=
    if req.replyBufSize > bytesRxed.toNat then
      let bytesToCopy := min bytesAvail.toNat (req.replyBufSize - bytesRxed.toNat)
      (memcpyFromRing buf.rsp bytesToCopy (maskXenstoreIdx cons) xenstoreRingSize).map req.copyReply
    else some req
  match req? with
  | none => none
  | some req =>
    let received := req.replyPayloadReceived + bytesAvail.toNat
    if ¬ received ≤ req.replyHeader.len.toNat then none
    else
      let s := { s with sharedBuf := { buf with rspCons := cons + bytesAvail } }
      some (cons != cons + bytesAvail,
        if received = req.replyHeader.len.toNat then
          { s.setReq r { req with replyPayloadReceived := received, xenbusReplied := true } with
            currentRxReq := none }
        else s.setReq r { req with replyPayloadReceived := received })

/-- `receive_from_xenstored`; `mem` is the memory that `XmAllocateMemory` finds for each request. -/
def receiveFromXenstored (s : Xenbus) (mem : UInt32 → Option (Nat → UInt8)) :
    Option (Bool × Xenbus) :=
  let buf := s.sharedBuf
  let bytesAvail := buf.rspProd - buf.rspCons
  if s.consResponseDiscardBytes ≠ 0 then
    let n := min s.consResponseDiscardBytes bytesAvail
    some (true, { s with
      sharedBuf := { buf with rspCons := buf.rspCons + n }
      consResponseDiscardBytes := s.consResponseDiscardBytes - n })
  else
    match s.currentRxReq with
    | some r => s.receiveBody r
    | none =>
      if bytesAvail.toNat < sizeofSockmsg then some (false, s)
      else
        match memcpyFromRing buf.rsp sizeofSockmsg (maskXenstoreIdx buf.rspCons)
            xenstoreRingSize with
        | none => none
        | some bs =>
          let hdr := XsdSockmsg.ofBytes bs
          if hdr.type = xsWatchEvent then s.receiveWatch hdr
          else s.receiveHeader hdr (mem hdr.reqId)

end Xenbus

end V4v.Xenutil
