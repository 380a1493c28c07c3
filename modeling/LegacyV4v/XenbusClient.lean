import LegacyV4v.ResetRequests
import LegacyV4v.XenbusAdvance
import LegacyV4v.XenbusDecode

/-! # The xenstore client as a whole

Whatever bytes the response ring has, one call of `receive_from_xenstored` does one of a few things,
which `Call` lists; nothing is assumed of the indices, and the driver may be in austere mode, in
which watch events are skipped.  A `Client` is the driver with the segments of its requests.  Other
threads submit requests and take replies away, `xenbus_dpc_func` transmits and receives, the domain
may resume between any two calls, and xenstored may write what it likes, as long as there is room for
it in the ring. -/
namespace V4v.Xenutil
open GuardedRun IndexedRing

namespace Xenbus

/-- What `receive_from_xenstored` does with a watch event in austere mode. -/
def skipWatch (s : Xenbus) (hdr : XsdSockmsg) : Option (Bool × Xenbus) :=
  let buf := s.sharedBuf
  let cons := buf.rspCons
  let bytesAvail := buf.rspProd - cons
  if bytesAvail.toNat < sizeofSockmsg + hdr.len.toNat then some (false, s)
  else
    let messageEnd := cons + 16 + hdr.len
    if ¬ messageEnd ≤ buf.rspProd then none
    else some (cons != messageEnd, { s with sharedBuf := { buf with rspCons := messageEnd } })

/-- `receive_from_xenstored`, in austere mode or not; `mem` is the memory that `XmAllocateMemory`
finds. -/
def receiveIn (austere : Bool) (s : Xenbus) (mem : Option (Nat → UInt8)) : Option (Bool × Xenbus) :=
  let buf := s.sharedBuf
  let bytesAvail := buf.rspProd - buf.rspCons
  if s.consResponseDiscardBytes ≠ 0 then
    let n := min s.consResponseDiscardBytes bytesAvail
    some (true, { s with
      sharedBuf := { buf with rspCons := buf.rspCons + n }
      consResponseDiscardBytes := s.consResponseDiscardBytes - n })
  else
    match s.currentRxReq with
    | some r => s.receiveBody r
    | none =>
      if bytesAvail.toNat < sizeofSockmsg then some (false, s)
      else
        match memcpyFromRing buf.rsp sizeofSockmsg (maskXenstoreIdx buf.rspCons)
            xenstoreRingSize with
        | none => none
        | some bs =>
          let hdr := XsdSockmsg.ofBytes bs
          if hdr.type = xsWatchEvent then if austere then s.skipWatch hdr else s.receiveWatch hdr
          else s.receiveHeader hdr mem

theorem receiveIn_false (s : Xenbus) (mem : Option (Nat → UInt8)) :
    s.receiveIn false mem = s.receiveFromXenstored fun _ => mem := rfl

/-- The header at the head of the unread bytes. -/
def header (s : Xenbus) : XsdSockmsg := .ofBytes (s.rspBytes.take sizeofSockmsg)

variable {s s' : Xenbus} {mem : Option (Nat → UInt8)} {austere again : Bool} {hdr : XsdSockmsg} {r : Nat}

/-! ## What a call does -/

/-- The cases of a call that comes back: whether there was progress, and what state it leaves. -/
inductive Call (s : Xenbus) (mem : Option (Nat → UInt8)) : Bool → Xenbus → Prop
  | discard {n : Nat} : s.consResponseDiscardBytes ≠ 0 →
      n = min s.consResponseDiscardBytes.toNat s.avail →
      Call s mem true { s.consume n with
        consResponseDiscardBytes := s.consResponseDiscardBytes - UInt32.ofNat n }
  | body {r n : Nat} : s.consResponseDiscardBytes = 0 → s.currentRxReq = some r →
      (s.reqs r).replyPayloadReceived ≤ (s.reqs r).replyHeader.len.toNat →
      n = min s.avail ((s.reqs r).replyHeader.len.toNat - (s.reqs r).replyPayloadReceived) →
      Call s mem (n != 0)
        (if (s.reqs r).replyPayloadReceived + n = (s.reqs r).replyHeader.len.toNat then
          { (s.consume n).setReq r { s.takeReply (s.reqs r) n with xenbusReplied := true } with
            currentRxReq := none }
        else (s.consume n).setReq r (s.takeReply (s.reqs r) n))
  | short : s.consResponseDiscardBytes = 0 → s.currentRxReq = none → s.avail < sizeofSockmsg →
      Call s mem false s
  | half : s.consResponseDiscardBytes = 0 → s.currentRxReq = none → sizeofSockmsg ≤ s.avail →
      s.header.type = xsWatchEvent → s.avail < sizeofSockmsg + s.header.len.toNat → Call s mem false s
  | watch {fired : List Nat} : s.consResponseDiscardBytes = 0 → s.currentRxReq = none →
      s.header.type = xsWatchEvent → sizeofSockmsg + s.header.len.toNat ≤ s.avail →
      Call s mem true { s.consume (sizeofSockmsg + s.header.len.toNat) with triggered := fired }
  | unknown : s.consResponseDiscardBytes = 0 → s.currentRxReq = none → sizeofSockmsg ≤ s.avail →
      s.header.type ≠ xsWatchEvent → s.findPendingRxReq s.header.reqId = none →
      Call s mem true { s.consume sizeofSockmsg with consResponseDiscardBytes := s.header.len }
  | known {r : Nat} : s.consResponseDiscardBytes = 0 → s.currentRxReq = none →
      sizeofSockmsg ≤ s.avail → s.header.type ≠ xsWatchEvent →
      s.findPendingRxReq s.header.reqId = some r →
      Call s mem true { (s.consume sizeofSockmsg).setReq r ((s.reqs r).startReply s.header mem) with
        currentRxReq := some r }

theorem avail_lt (s : Xenbus) : s.avail < 4294967296 := UInt32.toNat_lt _

/-- A reply is received into. -/
theorem receiveBody_cases (h : s.receiveBody r = some (again, s')) :
    (s.reqs r).replyPayloadReceived ≤ (s.reqs r).replyHeader.len.toNat ∧
    ∃ n, n = min s.avail ((s.reqs r).replyHeader.len.toNat - (s.reqs r).replyPayloadReceived) ∧
      again = (n != 0) ∧
      s' = if (s.reqs r).replyPayloadReceived + n = (s.reqs r).replyHeader.len.toNat then
          { (s.consume n).setReq r { s.takeReply (s.reqs r) n with xenbusReplied := true } with
            currentRxReq := none }
        else (s.consume n).setReq r (s.takeReply (s.reqs r) n) := by
  obtain ⟨q, hq⟩ : ∃ q, q = s.reqs r := ⟨_, rfl⟩
  rw [← hq]
  unfold receiveBody at h
  dsimp only at h
  rw [← hq] at h
  obtain ⟨b, hb⟩ : ∃ b, b = min (s.sharedBuf.rspProd - s.sharedBuf.rspCons)
    (q.replyHeader.len - UInt32.ofNat q.replyPayloadReceived) := ⟨_, rfl⟩
  rw [← hb] at h
  have hbn : b = UInt32.ofNat b.toNat := UInt32.ofNat_toNat.symm
  -- what is copied leaves the counts alone
  split at h
  · cases h
  · next q₁ hcopy =>
    have hcounts : q₁.replyPayloadReceived = q.replyPayloadReceived ∧
        q₁.replyHeader = q.replyHeader := by
      split at hcopy
      · obtain ⟨bs, -, rfl⟩ := Option.map_eq_some_iff.mp hcopy
        exact ⟨rfl, rfl⟩
      · cases hcopy
        exact ⟨rfl, rfl⟩
    rw [hcounts.1, hcounts.2] at h
    split at h
    · cases h
    · next hfits =>
      have hfits := not_not.mp hfits
      have hlen := q.replyHeader.len.toNat_lt
      have hofk : (UInt32.ofNat q.replyPayloadReceived).toNat = q.replyPayloadReceived :=
        MachineWord.toNat_ofNat_of_lt (by omega)
      have hmin : b.toNat = min s.avail (q.replyHeader.len.toNat - q.replyPayloadReceived) := by
        have hle : UInt32.ofNat q.replyPayloadReceived ≤ q.replyHeader.len :=
          UInt32.le_iff_toNat_le.mpr (by omega)
        rw [hb, toNat_min, UInt32.toNat_sub_of_le q.replyHeader.len _ hle, hofk]
        rfl
      obtain ⟨hagain, hs'⟩ := Prod.mk.inj (Option.some.inj h)
      refine ⟨by omega, b.toNat, hmin, ?_, ?_⟩
      · rw [← hagain]
        conv_lhs => rw [hbn]
        exact bne_add_ofNat _ b.toNat_lt
      · have htake : s.takeReply q b.toNat = { q₁ with
            replyHeader := q.replyHeader
            replyPayloadReceived := q.replyPayloadReceived + b.toNat } := by
          rw [takeReply, ← hcounts.2]
          rw [hofk] at hcopy
          split at hcopy
          · next hsize =>
            rw [if_pos hsize]
            obtain ⟨bs, hbs, rfl⟩ := Option.map_eq_some_iff.mp hcopy
            have hring : min b.toNat (q.replyBufSize - q.replyPayloadReceived) ≤ xenstoreRingSize := by
              by_contra hlarge
              rw [memcpyFromRing, if_pos hlarge] at hbs
              cases hbs
            rw [memcpyFromRing_eq _ _ _ hring] at hbs
            rw [rspBytes, take_get (by omega), Option.some.inj hbs]
          · next hsize =>
            cases hcopy
            rw [if_neg hsize]
        rw [← hs', htake, consume, ← hbn]

/-- The end of a message that is there whole. -/
theorem messageEnd_eq (s : Xenbus) (len : UInt32) :
    s.sharedBuf.rspCons + 16 + len =
      s.sharedBuf.rspCons + UInt32.ofNat (sizeofSockmsg + len.toNat) := by
  rw [UInt32.ofNat_add, UInt32.ofNat_toNat, UInt32.add_assoc]
  rfl

/-- It is not where `rsp_cons` is. -/
theorem messageEnd_moved (h : sizeofSockmsg + hdr.len.toNat ≤ s.avail) :
    (s.sharedBuf.rspCons != s.sharedBuf.rspCons + 16 + hdr.len) = true := by
  rw [messageEnd_eq, bne_add_ofNat _ (Nat.lt_of_le_of_lt h s.avail_lt)]
  exact bne_iff_ne.mpr (Nat.ne_of_gt (Nat.lt_of_lt_of_le (by decide) (Nat.le_add_right _ _)))

/-- A watch event is left alone or used up. -/
theorem watch_cases
    (h : (if austere then s.skipWatch hdr else s.receiveWatch hdr) = some (again, s')) :
    s.avail < sizeofSockmsg + hdr.len.toNat ∧ again = false ∧ s' = s ∨
    sizeofSockmsg + hdr.len.toNat ≤ s.avail ∧ again = true ∧
      ∃ fired, s' = { s.consume (sizeofSockmsg + hdr.len.toNat) with triggered := fired } := by
  by_cases hpart : s.avail < sizeofSockmsg + hdr.len.toNat
  · refine .inl ⟨hpart, ?_⟩
    have hnone : (if austere then s.skipWatch hdr else s.receiveWatch hdr) = some (false, s) := by
      cases austere with
      | true => exact if_pos hpart
      | false => exact if_pos hpart
    obtain ⟨rfl, rfl⟩ := Prod.mk.inj (Option.some.inj (hnone.symm.trans h))
    exact ⟨rfl, rfl⟩
  refine .inr ⟨Nat.le_of_not_lt hpart, ?_⟩
  have hwhole : ¬ (s.sharedBuf.rspProd - s.sharedBuf.rspCons).toNat <
      sizeofSockmsg + hdr.len.toNat := hpart
  have hmoved := messageEnd_moved (Nat.le_of_not_lt hpart)
  -- whatever is fired, the event is used up
  have hconsume : ∀ {t : Xenbus}, (∃ fired, t = { s with triggered := fired }) →
      (s.sharedBuf.rspCons != s.sharedBuf.rspCons + 16 + hdr.len,
        { t with sharedBuf := { s.sharedBuf with rspCons := s.sharedBuf.rspCons + 16 + hdr.len } }) =
          (again, s') →
      again = true ∧
        ∃ fired, s' = { s.consume (sizeofSockmsg + hdr.len.toNat) with triggered := fired } := by
    rintro t ⟨fired, rfl⟩ heq
    obtain ⟨rfl, rfl⟩ := Prod.mk.inj heq
    exact ⟨hmoved, fired, by rw [consume, ← messageEnd_eq]⟩
  have hself : ∃ fired, s = { s with triggered := fired } := ⟨s.triggered, rfl⟩
  cases austere with
  | true =>
    rw [if_pos rfl, skipWatch] at h
    dsimp only at h
    rw [if_neg hwhole] at h
    split at h
    · cases h
    · exact hconsume hself (Option.some.inj h)
  | false =>
    rw [if_neg Bool.false_ne_true, receiveWatch] at h
    dsimp only at h
    rw [if_neg hwhole] at h
    split at h
    · cases h
    split at h
    · cases h
    split at h
    · exact hconsume hself (Option.some.inj h)
    split at h
    · cases h
    split at h
    · exact hconsume hself (Option.some.inj h)
    split at h
    · cases h
    split at h
    · cases h
    · refine hconsume ?_ (Option.some.inj h)
      split
      · rw [fireWatchByIdent]
        split
        · exact ⟨_, rfl⟩
        · exact hself
      · exact hself

/-- In front of a message, the header decides. -/
theorem receiveIn_header (hdiscard : s.consResponseDiscardBytes = 0) (hcurrent : s.currentRxReq = none)
    (hle : sizeofSockmsg ≤ s.avail) : s.receiveIn austere mem =
      if s.header.type = xsWatchEvent then
        if austere then s.skipWatch s.header else s.receiveWatch s.header
      else s.receiveHeader s.header mem := by
  have hheader : XsdSockmsg.ofBytes (get xenstoreRingSize s.sharedBuf.rsp
      s.sharedBuf.rspCons.toNat sizeofSockmsg) = s.header := by
    rw [header, rspBytes, take_get hle]
  rw [receiveIn]
  dsimp only
  rw [if_neg (not_not_intro hdiscard), hcurrent]
  dsimp only
  rw [if_neg (show ¬ (s.sharedBuf.rspProd - s.sharedBuf.rspCons).toNat < _ from Nat.not_lt_of_le hle),
    memcpyFromRing_eq _ _ _ (by decide)]
  dsimp only
  rw [hheader]

/-- **Every call** is one of the cases. -/
theorem call_of_receiveIn (h : s.receiveIn austere mem = some (again, s')) : s.Call mem again s' := by
  by_cases hdiscard : s.consResponseDiscardBytes = 0
  swap
  · rw [receiveIn] at h
    dsimp only at h
    rw [if_pos hdiscard] at h
    obtain ⟨rfl, rfl⟩ := Prod.mk.inj (Option.some.inj h)
    have hcall : s.Call mem true _ := .discard hdiscard rfl
    rwa [avail, ← toNat_min, UInt32.ofNat_toNat, consume, UInt32.ofNat_toNat] at hcall
  cases hcurrent : s.currentRxReq with
  | some r =>
    rw [receiveIn] at h
    dsimp only at h
    rw [if_neg (not_not_intro hdiscard), hcurrent] at h
    obtain ⟨hle, n, hn, rfl, rfl⟩ := receiveBody_cases h
    exact .body hdiscard hcurrent hle hn
  | none =>
    by_cases hshort : s.avail < sizeofSockmsg
    · rw [receiveIn] at h
      dsimp only at h
      rw [if_neg (not_not_intro hdiscard), hcurrent] at h
      dsimp only at h
      rw [if_pos (show (s.sharedBuf.rspProd - s.sharedBuf.rspCons).toNat < _ from hshort)] at h
      obtain ⟨rfl, rfl⟩ := Prod.mk.inj (Option.some.inj h)
      exact .short hdiscard hcurrent hshort
    have hle := Nat.le_of_not_lt hshort
    rw [receiveIn_header hdiscard hcurrent hle] at h
    by_cases hwatch : s.header.type = xsWatchEvent
    · rw [if_pos hwatch] at h
      rcases watch_cases h with ⟨hpart, rfl, rfl⟩ | ⟨hwhole, rfl, fired, rfl⟩
      · exact .half hdiscard hcurrent hle hwatch hpart
      · exact .watch hdiscard hcurrent hwatch hwhole
    · rw [if_neg hwatch, receiveHeader] at h
      dsimp only at h
      have hmoved : (s.sharedBuf.rspCons != s.sharedBuf.rspCons + 16) = true :=
        bne_add_ofNat s.sharedBuf.rspCons (n := sizeofSockmsg) (by decide)
      rw [hmoved] at h
      split at h
      · cases h
      split at h
      · next hfind =>
        obtain ⟨rfl, rfl⟩ := Prod.mk.inj (Option.some.inj h)
        exact .unknown hdiscard hcurrent hle hwatch hfind
      · next r hfind =>
        obtain ⟨rfl, rfl⟩ := Prod.mk.inj (Option.some.inj h)
        exact .known hdiscard hcurrent hle hwatch hfind

/-- A call moves `rsp_cons`, and asks to be called again if it did, or if it skips. -/
theorem Call.consumes (h : s.Call mem again s') :
    ∃ n, n ≤ s.avail ∧ s'.sharedBuf = (s.consume n).sharedBuf ∧
      (again = true ↔ s.consResponseDiscardBytes ≠ 0 ∨ n ≠ 0) ∧
      (s.consResponseDiscardBytes ≠ 0 → n = 0 → s.avail = 0) := by
  have hpos : ∀ n : Nat, sizeofSockmsg + n ≠ 0 := fun n =>
    Nat.ne_of_gt (Nat.lt_of_lt_of_le (by decide) (Nat.le_add_right _ _))
  have hzero : s.sharedBuf = (s.consume 0).sharedBuf := by
    rw [consume, show UInt32.ofNat 0 = 0 from rfl, UInt32.add_zero]
  cases h with
  | @discard n hdiscard hn =>
    have hnat : s.consResponseDiscardBytes.toNat ≠ 0 := fun heq =>
      hdiscard (UInt32.toNat_inj.mp heq)
    exact ⟨n, by omega, rfl, iff_of_true rfl (.inl hdiscard), fun _ h0 => by omega⟩
  | @body r n hdiscard hcurrent hle hn =>
    refine ⟨n, by omega, ?_, ?_, fun hne => absurd hdiscard hne⟩
    · split <;> rfl
    · rw [bne_iff_ne, or_iff_right (not_not_intro hdiscard)]
  | short hdiscard _ _ =>
    exact ⟨0, Nat.zero_le _, hzero, iff_of_false Bool.false_ne_true (not_or_intro (not_not_intro hdiscard)
      (not_not_intro rfl)), fun hne => absurd hdiscard hne⟩
  | half hdiscard _ _ _ _ =>
    exact ⟨0, Nat.zero_le _, hzero, iff_of_false Bool.false_ne_true (not_or_intro (not_not_intro hdiscard)
      (not_not_intro rfl)), fun hne => absurd hdiscard hne⟩
  | watch hdiscard _ _ hwhole =>
    exact ⟨_, hwhole, rfl, iff_of_true rfl (.inr (hpos _)), fun hne => absurd hdiscard hne⟩
  | unknown hdiscard _ hle _ _ =>
    exact ⟨_, hle, rfl, iff_of_true rfl (.inr (hpos 0)), fun hne => absurd hdiscard hne⟩
  | known hdiscard _ hle _ _ =>
    exact ⟨_, hle, rfl, iff_of_true rfl (.inr (hpos 0)), fun hne => absurd hdiscard hne⟩

theorem avail_of_sharedBuf (h : s'.sharedBuf = s.sharedBuf) : s'.avail = s.avail := by
  rw [avail, h, avail]

/-- A call that asks to be called again has moved `rsp_cons`, unless it skipped nothing, ... -/
theorem Call.moved (h : s.Call mem true s') (hs : s.consResponseDiscardBytes ≠ 0 → s.avail ≠ 0) :
    s'.sharedBuf.rspCons ≠ s.sharedBuf.rspCons ∧ s'.avail < s.avail := by
  obtain ⟨n, hn, hbuf, hagain, hzero⟩ := h.consumes
  have hne : n ≠ 0 := by
    rintro rfl
    rcases hagain.mp rfl with hdiscard | hne
    · exact hs hdiscard (hzero hdiscard rfl)
    · exact hne rfl
  refine ⟨fun heq => ?_, ?_⟩
  · rw [hbuf] at heq
    have hmoved := bne_add_ofNat s.sharedBuf.rspCons (Nat.lt_of_le_of_lt hn s.avail_lt)
    rw [bne_iff_ne.mpr hne] at hmoved
    exact bne_iff_ne.mp hmoved heq.symm
  · rw [avail_of_sharedBuf hbuf, avail_consume hn]
    omega

/-- ... and one that does not has left it. -/
theorem Call.stayed (h : s.Call mem false s') : s'.sharedBuf.rspCons = s.sharedBuf.rspCons := by
  obtain ⟨n, -, hbuf, hagain, -⟩ := h.consumes
  obtain rfl : n = 0 := by
    by_contra hne
    exact Bool.false_ne_true (hagain.mpr (.inr hne))
  rw [hbuf]
  exact UInt32.add_zero _

end Xenbus

theorem PendingReq.received_startReply (q : PendingReq) (hdr : XsdSockmsg) (mem : Option (Nat → UInt8)) :
    (q.startReply hdr mem).replyPayloadReceived = 0 := by
  unfold startReply
  dsimp only
  split
  · rfl
  · split <;> rfl

/-! ## Runs -/

/-- The driver, and the segments of its requests. -/
structure Client where
  bus : Xenbus
  txIo : Nat → List (List UInt8)

/-- A request as it is submitted, with a buffer of so many bytes for the reply, or without one. -/
def newRequest (hdr : XsdSockmsg) (io : List (List UInt8)) : Option Nat → Option PendingReq
  | none => some (initialisePendingReq hdr io)
  | some size => setReplyBuffer (initialisePendingReq hdr io) size

namespace Client

/-- What happens to the driver. -/
inductive Act where
  | submit (r : Nat) (hdr : XsdSockmsg) (io : List (List UInt8)) (size : Option Nat)
  | finish (r : Nat)
  | transmit
  | receive (austere : Bool) (mem : Option (Nat → UInt8))
  | resume
  | xenstored (buf : XenstoreDomainInterface)
  | configure

/-- One step.  A request is taken off the list by `get_request_results` when it has its reply.
xenstored writes to the ring as far as there is room; watches are registered and operations allowed
and forbidden at any time. -/
inductive Step (c : Client) : Act → Client → Prop
  | submit {r : Nat} {hdr : XsdSockmsg} {io : List (List UInt8)} {size : Option Nat} {req : PendingReq}
      {bus : Xenbus} : r ∉ c.bus.pending → newRequest hdr io size = some req →
      c.bus.submitRequest r req = (true, bus) →
      Step c (.submit r hdr io size) ⟨bus, Function.update c.txIo r io⟩
  | finish {r : Nat} {bus : Xenbus} : r ∈ c.bus.pending → c.bus.hasReply r = true →
      c.bus.unhookRequest r = some bus → Step c (.finish r) { c with bus := bus }
  | transmit {again : Bool} {bus : Xenbus} : c.bus.transmitRound = some (again, bus) →
      Step c .transmit { c with bus := bus }
  | receive {austere again : Bool} {mem : Option (Nat → UInt8)} {bus : Xenbus} :
      c.bus.receiveIn austere mem = some (again, bus) →
      Step c (.receive austere mem) { c with bus := bus }
  | resume : Step c .resume { c with bus := c.bus.resetRequests c.txIo }
  | xenstored {buf : XenstoreDomainInterface} : buf.reqProd = c.bus.sharedBuf.reqProd →
      buf.rspCons = c.bus.sharedBuf.rspCons → (buf.rspProd - buf.rspCons).toNat ≤ xenstoreRingSize →
      Step c (.xenstored buf) { c with bus := { c.bus with sharedBuf := buf } }
  | configure {watches : List (Nat × List UInt8)} {seq : UInt32} {new watch : Bool} :
      Step c .configure { c with bus := { c.bus with
        watches := watches
        sequenceNumber := seq
        allowNewXenbusOperation := new
        allowXenbusWatchOperation := watch } }

/-- The driver before its first request. -/
structure Boot (c : Client) : Prop where
  pending : c.bus.pending = []
  currentRxReq : c.bus.currentRxReq = none
  discard : c.bus.consResponseDiscardBytes = 0
  window : c.bus.avail ≤ xenstoreRingSize

/-- The client can get here. -/
abbrev Reached : Client → Prop := Reachable Boot Step fun _ _ => True

/-- What holds between any two steps. -/
structure Sound (c : Client) : Prop where
  current : ∀ r, c.bus.currentRxReq = some r → r ∈ c.bus.pending ∧
    (c.bus.reqs r).replyPayloadReceived ≤ (c.bus.reqs r).replyHeader.len.toNat
  window : c.bus.avail ≤ xenstoreRingSize

variable {c c' : Client} {a : Act}

/-- A call receives no more than there is to receive. -/
theorem Sound.call {s s' : Xenbus} {again : Bool} {mem : Option (Nat → UInt8)}
    {io : Nat → List (List UInt8)} (h : Sound ⟨s, io⟩) (hcall : s.Call mem again s') :
    Sound ⟨s', io⟩ := by
  have hwindow : s'.avail ≤ xenstoreRingSize := by
    obtain ⟨n, hn, hbuf, -⟩ := hcall.consumes
    rw [Xenbus.avail_of_sharedBuf hbuf, Xenbus.avail_consume hn]
    exact Nat.le_trans (Nat.sub_le _ _) h.window
  refine ⟨fun j hj => ?_, hwindow⟩
  cases hcall with
  | discard _ _ => exact h.current j hj
  | @body r n _ hcurrent hle hn =>
    split at hj
    · cases hj
    · next hnot =>
      rw [if_neg hnot]
      obtain rfl : r = j := Option.some.inj (hcurrent.symm.trans hj)
      refine ⟨(h.current r hcurrent).1, ?_⟩
      change (((s.consume n).setReq r _).reqs r).replyPayloadReceived ≤
        (((s.consume n).setReq r _).reqs r).replyHeader.len.toNat
      rw [Xenbus.reqs_setReq_self, Xenbus.replyHeader_takeReply]
      change (s.reqs r).replyPayloadReceived + n ≤ _
      omega
  | short _ _ _ => exact h.current j hj
  | half _ _ _ _ _ => exact h.current j hj
  | watch _ _ _ _ => exact h.current j hj
  | unknown _ hcurrent _ _ _ => cases hcurrent.symm.trans hj
  | @known r _ _ _ _ hfind =>
    obtain rfl : r = j := Option.some.inj hj
    refine ⟨List.mem_of_find?_eq_some hfind, ?_⟩
    change (((s.consume _).setReq r _).reqs r).replyPayloadReceived ≤ _
    rw [Xenbus.reqs_setReq_self, PendingReq.received_startReply]
    exact Nat.zero_le _

/-- **Every step** keeps the driver sound. -/
theorem Sound.step (h : Sound c) (hs : Step c a c') : Sound c' := by
  cases hs with
  | @submit r hdr io size req bus hr hreq hsub =>
    rw [Xenbus.submitRequest] at hsub
    split at hsub
    · cases hsub
      refine ⟨fun j hj => ?_, h.window⟩
      obtain ⟨hmem, hle⟩ := h.current j hj
      refine ⟨List.mem_append_left _ hmem, ?_⟩
      change ((c.bus.setReq r req).reqs j).replyPayloadReceived ≤
        ((c.bus.setReq r req).reqs j).replyHeader.len.toNat
      rw [Xenbus.reqs_setReq_of_ne _ _ (by rintro rfl; exact hr hmem)]
      exact hle
    · cases hsub
  | @finish r bus hr hreply hun =>
    rw [Xenbus.unhookRequest] at hun
    split at hun
    · cases hun
    split at hun
    · cases hun
    · next hrx =>
      cases hun
      refine ⟨fun j hj => ?_, h.window⟩
      obtain ⟨hmem, hle⟩ := h.current j hj
      have hjr : j ≠ r := by
        rintro rfl
        exact hrx hj
      exact ⟨(List.mem_erase_of_ne hjr).mpr hmem, hle⟩
  | transmit hround =>
    rcases Xenbus.transmitRound_cases hround with rfl | ⟨r, p, current, rfl⟩
    · exact h
    · refine ⟨fun j hj => ?_, h.window⟩
      obtain ⟨hmem, hle⟩ := h.current j hj
      refine ⟨hmem, ?_⟩
      change ((c.bus.setReq r _).reqs j).replyPayloadReceived ≤
        ((c.bus.setReq r _).reqs j).replyHeader.len.toNat
      by_cases hjr : j = r
      · rw [hjr, Xenbus.reqs_setReq_self]
        exact hjr ▸ hle
      · rw [Xenbus.reqs_setReq_of_ne _ _ hjr]
        exact hle
  | receive hcall => exact h.call (Xenbus.call_of_receiveIn hcall)
  | resume => exact ⟨fun _ hj => absurd hj.symm (Option.some_ne_none _), h.window⟩
  | xenstored hreq hcons hwindow => exact ⟨h.current, hwindow⟩
  | configure => exact ⟨h.current, h.window⟩

theorem Reached.sound (h : Reached c) : Sound c :=
  h.invariant (fun _ hb => ⟨fun _ hj => absurd (hj.symm.trans hb.currentRxReq) (Option.some_ne_none _), hb.window⟩)
    fun _ _ _ hs _ hstep => hs.step hstep

end Client

/-! ## Bytes that come -/

/-- xenstored has written these bytes to the empty ring. -/
def XenstoreDomainInterface.answer (buf : XenstoreDomainInterface) (bs : List UInt8) :
    XenstoreDomainInterface :=
  { buf with
    rsp := put xenstoreRingSize buf.rsp buf.rspCons.toNat bs
    rspProd := buf.rspCons + UInt32.ofNat bs.length }

section
variable {s : Xenbus} {buf : XenstoreDomainInterface} {bs after : List UInt8} {hdr : XsdSockmsg}

theorem avail_answer (hbuf : s.sharedBuf = XenstoreDomainInterface.answer buf bs)
    (hlen : bs.length ≤ xenstoreRingSize) : s.avail = bs.length := by
  have h1024 : xenstoreRingSize = 1024 := rfl
  rw [Xenbus.avail, hbuf]
  change (buf.rspCons + UInt32.ofNat bs.length - buf.rspCons).toNat = _
  rw [UInt32.add_comm, UInt32.add_sub_cancel, MachineWord.toNat_ofNat_of_lt (by omega)]

theorem rspBytes_answer (hbuf : s.sharedBuf = XenstoreDomainInterface.answer buf bs)
    (hlen : bs.length ≤ xenstoreRingSize) : s.rspBytes = bs := by
  rw [Xenbus.rspBytes, avail_answer hbuf hlen, hbuf]
  exact get_put hlen

/-- The header of the message at the head. -/
theorem header_eq (h : s.rspBytes = hdr.bytes ++ after) : s.header = hdr := by
  rw [Xenbus.header, h, List.take_left' hdr.length_bytes, XsdSockmsg.ofBytes_bytes]

end

namespace Client

/-- No request is pending, and the rings are empty. -/
def idle : Client where
  bus := {
    reqs := fun _ => initialisePendingReq ⟨0, 0, 0, 0⟩ []
    pending := []
    currentRxReq := none
    currentTxReq := none
    consResponseDiscardBytes := 0
    sharedBuf := ⟨fun _ => 0, fun _ => 0, 0, 0, 0, 0⟩
    watches := []
    triggered := []
    sequenceNumber := 5
    xenbusOutstandingCtr := 0
    allowNewXenbusOperation := true
    allowXenbusWatchOperation := true }
  txIo := fun _ => []

theorem boot_idle : Boot idle := ⟨rfl, rfl, rfl, Nat.zero_le _⟩

theorem reached_idle : Reached idle := .start boot_idle

/-- Bytes come while the ring is empty. -/
theorem Reached.answer {c : Client} {bs : List UInt8} (h : Reached c)
    (hlen : bs.length ≤ xenstoreRingSize) :
    Reached { c with bus := { c.bus with sharedBuf := c.bus.sharedBuf.answer bs } } := by
  refine .next h trivial (.xenstored rfl rfl ?_)
  have havail := avail_answer (s := { c.bus with sharedBuf := c.bus.sharedBuf.answer bs }) rfl hlen
  exact Nat.le_trans (Nat.le_of_eq havail) hlen

/-- A request has been submitted. -/
def submitted : Client where
  bus := (idle.bus.submitRequest 0 (initialisePendingReq ⟨2, 5, 0, 1⟩
    [XsdSockmsg.bytes ⟨2, 5, 0, 1⟩, [0]])).2
  txIo := Function.update idle.txIo 0 [XsdSockmsg.bytes ⟨2, 5, 0, 1⟩, [0]]

theorem submit_idle :
    Step idle (.submit 0 ⟨2, 5, 0, 1⟩ [XsdSockmsg.bytes ⟨2, 5, 0, 1⟩, [0]] none) submitted :=
  .submit List.not_mem_nil
    (show newRequest ⟨2, 5, 0, 1⟩ [XsdSockmsg.bytes ⟨2, 5, 0, 1⟩, [0]] none = some _ from rfl) rfl

/-- The request is sent. -/
theorem transmit_submitted : ∃ p, Step submitted .transmit
    ⟨{ submitted.bus.setTxPos 0 p with currentTxReq := none }, submitted.txIo⟩ := by
  obtain ⟨p, hloop, hsegs, hmoved⟩ : ∃ p,
      advanceLoop submitted.bus.sharedBuf.reqCons (submitted.bus.txPos 0) = some p ∧ p.segs = [] ∧
        (p.prod != submitted.bus.sharedBuf.reqProd) = true :=
    ⟨_, (advanceLoop_again rfl).trans ((advanceLoop_again rfl).trans (advanceLoop_last rfl)), rfl,
      by decide⟩
  have hadvance : submitted.bus.advanceTxReq 0 = some (true, submitted.bus.setTxPos 0 p) := by
    rw [Xenbus.advanceTxReq, hloop]
    dsimp only
    rw [hmoved]
  have hround : submitted.bus.transmitRound =
      some (true, { submitted.bus.setTxPos 0 p with currentTxReq := none }) := by
    rw [Xenbus.transmitRound, show submitted.bus.currentTxReq = some 0 from rfl]
    dsimp only
    rw [hadvance]
    dsimp only
    rw [if_pos (show ((submitted.bus.setTxPos 0 p).reqs 0).nextTxSeg = [] from hsegs)]
    rfl
  exact ⟨p, .transmit hround⟩

theorem reached_sent : ∃ p,
    Reached ⟨{ submitted.bus.setTxPos 0 p with currentTxReq := none }, submitted.txIo⟩ := by
  obtain ⟨p, hstep⟩ := transmit_submitted
  exact ⟨p, .next (.next reached_idle trivial submit_idle) trivial hstep⟩

end Client

end V4v.Xenutil
