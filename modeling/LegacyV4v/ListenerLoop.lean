import LegacyV4v.ConnectorLoop
import LegacyV4v.GuardedRun
import LegacyV4v.ListenerReads

/-! # The loop that reads a listener's ring

`V4vProcessListenerReads` on the rings in memory.  The accepter that a connection id finds need not be one of
this listener's: what is read for it is read from its own ring.  Where the rings hold queues of messages, a round
is described by the message at the head.  Buffers are zero before something is copied into them. -/
namespace V4v.Windows
open MachineWord CyclicBuffer RecordStream
open Linux (StreamHeader peekHeader shfSyn shfRst drained sizeofStreamHeader)

/-! ## The loop -/

/-- The device, the ring object of each context, the rings, and the RSTs that were sent. -/
structure ListenerLoop where
  device : Device
  ringObject : Nat → Nat
  rings : Nat → PageMem
  resets : List SentReset

/-- Whether there is memory for data in a round, and for the ACK of each accept IRP. -/
structure RoundMemory where
  pool : Bool
  ack : Nat → Bool

namespace ListenerLoop
variable (s : ListenerLoop)

/-- The ring of a context. -/
def ring (ctx : Nat) : PageMem := s.rings (s.ringObject ctx)

def setRing (ctx : Nat) (m : PageMem) : ListenerLoop :=
  { s with rings := Function.update s.rings (s.ringObject ctx) m }

/-- `V4vSendReset`, if the message is no RST. -/
def answer (sh : StreamHeader) (dst : Addr) : ListenerLoop :=
  { s with resets := s.resets ++ if sh.has shfRst then [] else [⟨sh.conid, dst⟩] }

/-- The message at the head of the accepter's ring is put at the end of its `dataList`, if there is memory for
`dlen` bytes. -/
def queueData (actx dlen : Nat) (pool : Bool) : ListenerLoop :=
  if pool then
    match v4vCopyOutOffset (s.ring actx) (some ⟨0, 0⟩) (some 0) (some 0) dlen true sizeofStreamHeader
      fun _ => 0 with
    | none => s
    | some out =>
      if i32 out.ret < 0 then s.setRing actx (v4vRecoverRing out.ring)
      else
        let x := s.device.contexts actx
        let data := (List.range (dlen - sizeofStreamHeader)).map fun i : Nat => out.mem i
        { s.setRing actx out.ring with
          device := s.device.setContext actx { x with dataList := x.dataList ++ [data] } }
  else s

/-- `V4vProcessAccepterBufferedReads`. -/
def processAccepterBufferedReads (actx dlen : Nat) (pool : Bool) : ListenerLoop :=
  let s := { s with device := (s.device.processAccepterReads actx).2 }
  match s.device.removeNextIrp (readPeek actx) with
  | none => s.queueData actx dlen pool
  | some (irp, device) =>
    if irp.length.toNat < dlen - sizeofStreamHeader then
      queueData { s with device := device.complete irp .bufferOverflow [] } actx dlen pool
    else
      match v4vCopyOutOffset (s.ring actx) (some ⟨0, 0⟩) (some 0) (some 0) (dlen + sizeofStreamHeader) true
        sizeofStreamHeader fun _ => 0 with
      | none => { s with device := device }
      | some out =>
        if i32 out.ret < 0 then
          { s.setRing actx (v4vRecoverRing out.ring) with
            device := device.complete irp .internalDbCorruption [] }
        else
          let data := (List.range ((i32 out.ret).toNat - sizeofStreamHeader)).map fun i : Nat => out.mem i
          { s.setRing actx out.ring with device := device.complete irp .success data }

/-- One round of `V4vProcessListenerReads`; whether the loop goes on. -/
def round (l : Nat) (state : FileState) (memory : RoundMemory) : Bool × ListenerLoop :=
  let m := s.ring l
  if drained m then (false, s)
  else
    let o := copyOut m sizeofStreamHeader false
    if i32 o.ret < 0 then (true, s.setRing l (v4vRecoverRing m))
    else if o.protocol ≠ protoStream ∨ i32 o.ret < sizeofStreamHeader then
      (true, s.setRing l (copyOut m 0 true).mem)
    else
      let sh := StreamHeader.ofBytes o.buf
      if sh.has shfSyn then
        let o := copyOut m sizeofStreamHeader true
        if i32 o.ret < 0 then (true, s.setRing l (v4vRecoverRing o.mem))
        else
          let sh := StreamHeader.ofBytes o.buf
          if state = .listening then
            let p := s.device.processPreAcceptReads l sh o.source memory.ack
            (true, { s.setRing l o.mem with device := p.1, resets := s.resets ++ p.2 })
          else
            -- passive: the SYN has been consumed, and then the head of the ring is dumped
            (true, (s.setRing l (copyOut o.mem 0 true).mem).answer sh o.source)
      else
        match s.device.getContextByConnectionId sh.conid.toUInt64 with
        | none => (true, (s.setRing l (copyOut m 0 true).mem).answer sh o.source)
        | some actx =>
          if addrCompare (.sdst actx) .src then
            (true, (s.setRing l (copyOut m 0 true).mem).answer sh o.source)
          else if sh.has shfRst then
            -- `break`: the RST stays in the ring
            (false, { s with device := s.device.disconnectStreamAndSignal actx })
          else (true, s.processAccepterBufferedReads actx (i32 o.ret).toNat memory.pool)

end ListenerLoop

/-! ## A ring with a queue of messages -/

section Ring
variable {m : PageMem} {q q' : List Message}

theorem copyOut_ret (m : PageMem) (t : Nat) : (copyOut m t true).ret = (copyOut m 0 true).ret := by
  rcases copyOut_cases m with h | ⟨source, protocol, payload, rxp, -, h⟩
  · rw [h, h]
  · rw [h, h]

/-- What a read that consumes leaves of the ring. -/
def readOut (m : PageMem) : PageMem :=
  if i32 (copyOut m 0 true).ret < 0 then v4vRecoverRing (dropHead m) else dropHead m

/-- The recovery of an empty ring. -/
theorem recover_holds (h : m.Holds []) : (v4vRecoverRing m).Holds [] := by
  have htx32 : read m.byte offsetofTxPtr 4 < 2 ^ 32 := by
    have := h.small
    have := h.tx_lt
    omega
  have hlen : read (v4vRecoverRing m).byte offsetofLen 4 = read m.byte offsetofLen 4 :=
    PageMem.read_storeWord_of_ne (by decide) (by decide)
  have htx : read (v4vRecoverRing m).byte offsetofTxPtr 4 = read m.byte offsetofTxPtr 4 :=
    PageMem.read_storeWord_of_ne (by decide) (by decide)
  have hrx : read (v4vRecoverRing m).byte offsetofRxPtr 4 = read m.byte offsetofRxPtr 4 :=
    (PageMem.read_storeWord (by decide) htx32).trans h.empty
  constructor
  · rw [hlen]; exact h.len_mod
  · rw [hlen]; exact h.len_ge
  · rw [hlen]; exact h.small
  · rw [hlen, hrx]; exact h.rx_lt
  · rw [hrx]; exact h.rx_mod
  · rw [hlen, htx]; exact h.tx_lt
  · rw [hlen, htx, hrx]; exact h.unread
  · trivial

theorem dropHead_tail (h : m.Holds q) : (dropHead m).Holds q.tail := by
  cases q with
  | nil =>
    unfold dropHead
    rw [copyOut_empty h.empty]
    exact h
  | cons msg q => exact dropHead_holds h

theorem readOut_holds (h : m.Holds q) : (readOut m).Holds q.tail := by
  have htail := dropHead_tail h
  unfold readOut
  cases q with
  | nil =>
    split
    · exact recover_holds htail
    · exact htail
  | cons msg q =>
    rw [(HeadIs.of_holds h).ret, if_neg (by omega)]
    exact htail

/-- A ring holds one queue. -/
theorem holds_unique (h : m.Holds q) (h' : m.Holds q') : q = q' := by
  induction q generalizing m q' with
  | nil =>
    cases q' with
    | nil => rfl
    | cons msg' q' => exact absurd h.empty.symm h'.not_empty
  | cons msg q ih =>
    cases q' with
    | nil => exact absurd h'.empty.symm h.not_empty
    | cons msg' q' =>
      have hmsg := (HeadIs.of_holds h).headMessage.symm.trans (HeadIs.of_holds h').headMessage
      rw [Option.some.inj hmsg, ih (dropHead_holds h) (dropHead_holds h')]

end Ring

namespace ListenerLoop
variable {s : ListenerLoop} {l actx dlen : Nat} {state : FileState} {memory : RoundMemory} {pool : Bool}
  {msg : Message} {q : List Message}

/-- **A round with `msg` at the head of the ring.** -/
theorem round_cons (h : (s.ring l).Holds (msg :: q)) :
    s.round l state memory =
      match peekHeader msg with
      | none => (true, s.setRing l (dropHead (s.ring l)))
      | some (sh, _) =>
        if sh.has shfSyn then
          if state = .listening then
            (true, { s.setRing l (dropHead (s.ring l)) with
              device := (s.device.processPreAcceptReads l sh msg.source memory.ack).1
              resets := s.resets ++ (s.device.processPreAcceptReads l sh msg.source memory.ack).2 })
          else (true, (s.setRing l (dropHead (dropHead (s.ring l)))).answer sh msg.source)
        else
          match s.device.getContextByConnectionId sh.conid.toUInt64 with
          | none => (true, (s.setRing l (dropHead (s.ring l))).answer sh msg.source)
          | some actx =>
            if sh.has shfRst then (false, { s with device := s.device.disconnectStreamAndSignal actx })
            else (true, s.processAccepterBufferedReads actx msg.payload.length memory.pool) := by
  have hhead := HeadIs.of_holds h
  have hm : ¬ drained (s.ring l) := h.not_empty
  have hret : ∀ t consume, ¬ i32 (copyOut (s.ring l) t consume).ret < 0 := by
    intro t consume
    rw [hhead.ret]
    omega
  unfold round
  dsimp only
  rw [if_neg hm, if_neg (hret _ _), if_neg (hret _ _), hhead.ret, copyOut_mem, copyOut_mem]
  simp only [hhead.read, ofBytes_take]
  by_cases hbin : msg.protocol ≠ protoStream ∨ msg.payload.length < sizeofStreamHeader
  · rw [if_pos (hbin.imp id Int.ofNat_lt.mpr), show peekHeader msg = none from if_pos hbin]
  · rw [if_neg (fun hbad => hbin (hbad.imp id Int.ofNat_lt.mp)), show peekHeader msg = _ from if_neg hbin]
    simp only [addrCompare_src, Bool.false_eq_true, if_false, Int.toNat_natCast]
    rfl

end ListenerLoop

/-! ## Data for an accepter -/

namespace Device
variable {s s' t : Device} {ctx actx n : Nat} {irp : Pending}

/-- Data of `n` bytes for the accepter has to be kept in memory: it has no read left, or the first is too
small. -/
def NeedsBuffer (s : Device) (actx n : Nat) : Prop :=
  match (s.processAccepterReads actx).2.removeNextIrp (readPeek actx) with
  | none => True
  | some (irp, _) => irp.length.toNat < n

instance : Decidable (s.NeedsBuffer actx n) := by
  unfold NeedsBuffer
  split <;> infer_instance

/-- All contexts are as before, but for data that is kept. -/
structure SameConnections (s s' : Device) : Prop where
  contextList : s'.contextList = s.contextList
  contexts : ∀ ctx, ∃ data, s'.contexts ctx = { s.contexts ctx with dataList := data }

theorem SameConnections.refl (s : Device) : SameConnections s s := ⟨rfl, fun _ => ⟨_, rfl⟩⟩

theorem SameConnections.trans (h : SameConnections s t) (h' : SameConnections t s') : SameConnections s s' := by
  refine ⟨h'.contextList.trans h.contextList, fun ctx => ?_⟩
  obtain ⟨data, hdata⟩ := h.contexts ctx
  obtain ⟨data', hdata'⟩ := h'.contexts ctx
  exact ⟨data', by rw [hdata', hdata]⟩

theorem SameConnections.removed {qp : QPeek} (h : s.removeNextIrp qp = some (irp, s')) :
    SameConnections s s' := by
  obtain ⟨-, l₁, l₂, -, rfl, -⟩ := removeNextIrp_some h
  exact ⟨rfl, fun _ => ⟨_, rfl⟩⟩

theorem SameConnections.completed (s : Device) (irp : Pending) (status : NtStatus) (data : List UInt8) :
    SameConnections s (s.complete irp status data) :=
  ⟨rfl, fun _ => ⟨_, rfl⟩⟩

theorem SameConnections.kept (s : Device) (ctx : Nat) (data : List (List UInt8)) :
    SameConnections s (s.setContext ctx { s.contexts ctx with dataList := data }) := by
  refine ⟨rfl, fun c => ?_⟩
  by_cases hc : c = ctx
  · rw [hc, setContext_self]
    exact ⟨_, rfl⟩
  · rw [setContext_of_ne _ _ hc]
    exact ⟨_, rfl⟩

theorem SameConnections.accepterReads (s : Device) (actx : Nat) :
    SameConnections s (s.processAccepterReads actx).2 := by
  fun_induction processAccepterReads s actx with
  | case1 s hnil => exact .refl s
  | case2 s pd dataList hlist hnone => exact .refl s
  | case3 s pd dataList hlist irp s' h _ hflags ih => exact ((removed h).trans (.completed ..)).trans ih
  | case4 s pd dataList hlist irp s' h _ hflags hlen ih =>
    exact ((removed h).trans (.completed ..)).trans ih
  | case5 s pd dataList hlist irp s' h _ hflags hlen ih =>
    obtain ⟨-, l₁, l₂, -, rfl, -⟩ := removeNextIrp_some h
    exact ((removed h).trans ((SameConnections.completed ..).trans (.kept _ actx dataList))).trans ih

/-- A connection id finds the same accepter. -/
theorem SameConnections.found (h : SameConnections s s') (connId : UInt64) :
    s'.getContextByConnectionId connId = s.getContextByConnectionId connId := by
  unfold getContextByConnectionId
  rw [h.contextList]
  congr 1
  funext ctx
  obtain ⟨data, hdata⟩ := h.contexts ctx
  rw [hdata]

end Device

namespace ListenerLoop
open Device (SameConnections)

theorem queueData_rings (s : ListenerLoop) (actx dlen : Nat) (pool : Bool) :
    (s.queueData actx dlen pool).rings =
      if pool then Function.update s.rings (s.ringObject actx) (readOut (s.ring actx)) else s.rings := by
  unfold queueData
  split
  · obtain ⟨out, hout, hret, hring, -⟩ := v4vCopyOutOffset_copyOut (s.ring actx) (some ⟨0, 0⟩) (some 0) dlen true
      sizeofStreamHeader fun _ => 0
    rw [copyOut_ret] at hret
    rw [copyOut_mem] at hring
    unfold readOut
    rw [hout, ← hret, ← hring]
    dsimp only
    split <;> rfl
  · rfl

theorem queueData_frame (s : ListenerLoop) (actx dlen : Nat) (pool : Bool) :
    (s.queueData actx dlen pool).ringObject = s.ringObject ∧
      SameConnections s.device (s.queueData actx dlen pool).device := by
  unfold queueData
  split
  · split
    · exact ⟨rfl, .refl _⟩
    · split
      · exact ⟨rfl, .refl _⟩
      · exact ⟨rfl, .kept ..⟩
  · exact ⟨rfl, .refl _⟩

/-- **What `V4vProcessAccepterBufferedReads` takes**: the head of the accepter's ring, unless memory is needed and
there is none. -/
theorem bufferedReads_rings (s : ListenerLoop) (actx dlen : Nat) (pool : Bool) :
    (s.processAccepterBufferedReads actx dlen pool).rings =
      if s.device.NeedsBuffer actx (dlen - sizeofStreamHeader) → pool = true then
        Function.update s.rings (s.ringObject actx) (readOut (s.ring actx))
      else s.rings := by
  unfold processAccepterBufferedReads
  cases hnext : (s.device.processAccepterReads actx).2.removeNextIrp (readPeek actx) with
  | none =>
    have hneeds : s.device.NeedsBuffer actx (dlen - sizeofStreamHeader) := by
      unfold Device.NeedsBuffer
      rw [hnext]
      trivial
    simp only [hneeds, true_implies]
    rw [hnext]
    exact queueData_rings ..
  | some o =>
    obtain ⟨irp, device⟩ := o
    have hneeds : s.device.NeedsBuffer actx (dlen - sizeofStreamHeader) ↔
        irp.length.toNat < dlen - sizeofStreamHeader := by
      unfold Device.NeedsBuffer
      rw [hnext]
    dsimp only
    rw [hnext]
    dsimp only
    by_cases hsmall : irp.length.toNat < dlen - sizeofStreamHeader
    · simp only [hneeds.mpr hsmall, true_implies]
      rw [if_pos hsmall]
      exact queueData_rings ..
    · obtain ⟨out, hout, hret, hring, -⟩ := v4vCopyOutOffset_copyOut (s.ring actx) (some ⟨0, 0⟩) (some 0)
        (dlen + sizeofStreamHeader) true sizeofStreamHeader fun _ => 0
      rw [copyOut_ret] at hret
      rw [copyOut_mem] at hring
      rw [if_neg hsmall, if_pos fun h => absurd (hneeds.mp h) hsmall]
      unfold readOut
      rw [← hret, ← hring, show ring { s with device := (s.device.processAccepterReads actx).2 } actx =
        s.ring actx from rfl, hout]
      dsimp only
      split <;> rfl

theorem bufferedReads_frame (s : ListenerLoop) (actx dlen : Nat) (pool : Bool) :
    (s.processAccepterBufferedReads actx dlen pool).ringObject = s.ringObject ∧
      SameConnections s.device (s.processAccepterBufferedReads actx dlen pool).device := by
  have hreads := SameConnections.accepterReads s.device actx
  have hqueued : ∀ device, SameConnections s.device device →
      (queueData { s with device := device } actx dlen pool).ringObject = s.ringObject ∧
        SameConnections s.device (queueData { s with device := device } actx dlen pool).device := by
    intro device h
    have hq := queueData_frame { s with device := device } actx dlen pool
    exact ⟨hq.1, h.trans hq.2⟩
  unfold processAccepterBufferedReads
  dsimp only
  split
  · exact hqueued _ hreads
  · next irp device hsome =>
    have hremoved := hreads.trans (.removed hsome)
    split
    · exact hqueued _ (hremoved.trans (.completed ..))
    · split
      · exact ⟨rfl, hremoved⟩
      · split
        · exact ⟨rfl, hremoved.trans (.completed ..)⟩
        · exact ⟨rfl, hremoved.trans (.completed ..)⟩

end ListenerLoop

end V4v.Windows
