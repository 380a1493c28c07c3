import LegacyV4v.XenbusAdvance

/-! # What xenstored reads is what was submitted

`advance_tx_req` copies as much of a request to the ring as there is room for, and
`xenbus_dpc_func` moves on to the next request when no segment is left.  The loop stops at a full
ring before it looks for the next segment with something in it: a request that ends in an empty
segment and fills the ring exactly is sent, but has segments left.  The next pass steps over them,
but reports no progress, and `current_tx_req` stays with the request for ever.  Outside this case
the requests are sent whole and in their order. -/
namespace V4v.Xenutil
open GuardedRun IndexedRing

/-- The driver with what has been submitted and what xenstored has read. -/
structure TxRun where
  bus : Xenbus
  submitted : List UInt8
  consumed : List UInt8

/-- A request is submitted, with a reply buffer or without; xenstored reads bytes; the loop that
transmits is gone through once; xenstored writes to the other ring; the other half receives; a
request whose reply is complete is taken from the list. -/
inductive TxAct where
  | submit (r : Nat) (type txId : UInt32) (args : List (List UInt8)) (buf : Option Nat)
  | consume (k : Nat)
  | transmit
  | arrive (rsp : Nat → UInt8) (prod : UInt32)
  | receive (mem : UInt32 → Option (Nat → UInt8))
  | finish (r : Nat)

/-- A request is prepared. -/
def prepareReq (hdr : XsdSockmsg) (io : List (List UInt8)) : Option Nat → Option PendingReq
  | none => some (initialisePendingReq hdr io)
  | some size => setReplyBuffer (initialisePendingReq hdr io) size

theorem prepareReq_tx {hdr : XsdSockmsg} {io : List (List UInt8)} {buf : Option Nat}
    {req : PendingReq} (h : prepareReq hdr io buf = some req) :
    req.nextTxSeg = io ∧ req.txSgOff = 0 := by
  cases buf with
  | none =>
    cases h
    exact ⟨rfl, rfl⟩
  | some size =>
    rw [prepareReq, setReplyBuffer] at h
    split at h
    · cases h
    · cases h
      exact ⟨rfl, rfl⟩

namespace TxRun

/-- One step.  xenstored replies to requests only that it has read whole. -/
inductive Step (s : TxRun) : TxAct → TxRun → Prop
  | submit {r : Nat} {type txId : UInt32} {args io : List (List UInt8)} {buf : Option Nat}
      {hdr : XsdSockmsg} {req : PendingReq} {taken : Bool} {bus : Xenbus} :
      r ∉ s.bus.pending → initialiseSgList type txId s.bus.sequenceNumber args = (hdr, io) →
      prepareReq hdr io buf = some req → s.bus.submitRequest r req = (taken, bus) →
      Step s (.submit r type txId args buf)
        ⟨{ bus with sequenceNumber := hdr.reqId },
          s.submitted ++ if taken then io.flatten else [], s.consumed⟩
  | consume {k : Nat} : k ≤ s.bus.onRing.length →
      Step s (.consume k) { s with
        bus := { s.bus with
          sharedBuf := { s.bus.sharedBuf with
            reqCons := s.bus.sharedBuf.reqCons + UInt32.ofNat k } }
        consumed := s.consumed ++ s.bus.onRing.take k }
  | transmit {again : Bool} {bus : Xenbus} : s.bus.transmitRound = some (again, bus) →
      Step s .transmit { s with bus := bus }
  | arrive {rsp : Nat → UInt8} {prod : UInt32} :
      Step s (.arrive rsp prod) { s with
        bus := { s.bus with
          sharedBuf := { s.bus.sharedBuf with rsp := rsp, rspProd := prod } } }
  | receive {mem : UInt32 → Option (Nat → UInt8)} {again : Bool} {bus : Xenbus} :
      s.bus.receiveFromXenstored mem = some (again, bus) →
      Step s (.receive mem) { s with bus := bus }
  | finish {r : Nat} {bus : Xenbus} : r ∈ s.bus.pending → s.bus.left r = [] →
      s.bus.unhookRequest r = some bus → Step s (.finish r) { s with bus := bus }

/-- No request, and nothing on the ring. -/
def Start (s : TxRun) : Prop :=
  s.bus.pending = [] ∧ s.bus.currentTxReq = none ∧
    s.bus.sharedBuf.reqProd = s.bus.sharedBuf.reqCons ∧ s.submitted = [] ∧ s.consumed = []

/-- Segments have less than 4 GiB, and no request jams when the ring is filled. -/
def Smooth (s : TxRun) : TxAct → Prop
  | .submit _ _ _ args _ => ∀ seg ∈ args, seg.length < 4294967296
  | .transmit => ¬ s.bus.Jams
  | _ => True

/-- What goes in comes out, and the current request is the first that is not on the ring whole. -/
structure Streams (s : TxRun) : Prop where
  valid : ∀ r ∈ s.bus.pending, (s.bus.txPos r).Valid
  nodup : s.bus.pending.Nodup
  ahead : (s.bus.sharedBuf.reqProd - s.bus.sharedBuf.reqCons).toNat ≤ xenstoreRingSize
  stream : s.consumed ++ (s.bus.onRing ++ s.bus.pending.flatMap s.bus.left) = s.submitted
  split : ∃ done rest, s.bus.pending = done ++ rest ∧ (∀ r ∈ done, s.bus.left r = []) ∧
    (∀ r ∈ rest, s.bus.left r ≠ []) ∧ s.bus.currentTxReq = rest.head?

variable {s s' : TxRun} {a : TxAct}

theorem Streams.start (h : s.Start) : s.Streams := by
  obtain ⟨hpending, hcurrent, hprod, hsubmitted, hconsumed⟩ := h
  have hzero : (s.bus.sharedBuf.reqProd - s.bus.sharedBuf.reqCons).toNat = 0 := by
    rw [hprod, UInt32.sub_self, UInt32.toNat_zero]
  refine ⟨?_, ?_, ?_, ?_, [], [], ?_⟩
  · rw [hpending]
    exact List.forall_mem_nil _
  · rw [hpending]
    exact List.nodup_nil
  · rw [hzero]
    exact Nat.zero_le _
  · rw [hsubmitted, hconsumed, hpending, Xenbus.onRing, hzero]
    rfl
  · exact ⟨hpending, List.forall_mem_nil _, List.forall_mem_nil _, hcurrent⟩

/-- Bytes of the current request go to the ring, and `current` is the next current request. -/
theorem Streams.sent {done rest : List Nat} {r k : Nat} {p : TxPos} (h : s.Streams)
    (current : Option Nat) (hpending : s.bus.pending = done ++ r :: rest)
    (hdone : ∀ j ∈ done, s.bus.left j = []) (hrest : ∀ j ∈ r :: rest, s.bus.left j ≠ [])
    (hp : p.Valid) (hk : k ≤ s.bus.room) (hsent : TxPos.Sent k (s.bus.txPos r) p)
    (hcurrent : current = if p.left = [] then rest.head? else some r) :
    Streams { s with bus := { s.bus.setTxPos r p with currentTxReq := current } } := by
  have hnodup := h.nodup
  rw [hpending, List.nodup_append] at hnodup
  have hdone_ne : ∀ j ∈ done, j ≠ r := fun j hj => hnodup.2.2 j hj r List.mem_cons_self
  have hrest_ne : ∀ j ∈ rest, j ≠ r := by
    rintro j hj rfl
    exact (List.nodup_cons.mp hnodup.2.1).1 hj
  -- what is left of the requests then
  obtain ⟨left', hleft'⟩ : ∃ f : Nat → List UInt8, f =
      Xenbus.left { s.bus.setTxPos r p with currentTxReq := current } := ⟨_, rfl⟩
  have hleft_r : left' r = p.left := by
    rw [hleft']
    exact congrArg TxPos.left Xenbus.txPos_setTxPos_self
  have hleft_ne : ∀ j, j ≠ r → left' j = s.bus.left j := by
    intro j hj
    rw [hleft']
    exact Xenbus.left_setTxPos_of_ne hj
  have hdone' : ∀ j ∈ done, left' j = [] := fun j hj =>
    (hleft_ne j (hdone_ne j hj)).trans (hdone j hj)
  have hrest' : ∀ j ∈ rest, left' j ≠ [] := fun j hj heq =>
    hrest j (List.mem_cons_of_mem _ hj) ((hleft_ne j (hrest_ne j hj)).symm.trans heq)
  have hsplit : ∃ done₁ rest₁, s.bus.pending = done₁ ++ rest₁ ∧ (∀ j ∈ done₁, left' j = []) ∧
      (∀ j ∈ rest₁, left' j ≠ []) ∧
        rest₁.head? = if p.left = [] then rest.head? else some r := by
    by_cases hpl : p.left = []
    · refine ⟨done ++ [r], rest, by rw [hpending, List.append_assoc]; rfl, fun j hj => ?_, hrest',
        (if_pos hpl).symm⟩
      rcases List.mem_append.mp hj with hj | hj
      · exact hdone' j hj
      · rw [List.mem_singleton.mp hj, hleft_r, hpl]
    · refine ⟨done, r :: rest, hpending, hdone', fun j hj => ?_, (if_neg hpl).symm⟩
      rcases List.mem_cons.mp hj with rfl | hj
      · rwa [hleft_r]
      · exact hrest' j hj
  obtain ⟨done₁, rest₁, hpending₁, hdone₁, hrest₁, hhead⟩ := hsplit
  rw [← hhead] at hcurrent
  refine ⟨fun j hj => ?_, h.nodup, ?_, ?_, done₁, rest₁, hpending₁, ?_, ?_, hcurrent⟩
  · by_cases hjr : j = r
    · rw [hjr]
      exact Xenbus.txPos_setTxPos_self.symm ▸ hp
    · exact Xenbus.valid_setTxPos_of_ne hjr (h.valid j hj)
  · exact Xenbus.ahead_setTxPos h.ahead hk hsent
  · have hring := Xenbus.onRing_setTxPos h.ahead hk hsent
    change s.consumed ++ ((s.bus.setTxPos r p).onRing ++ s.bus.pending.flatMap
      (Xenbus.left { s.bus.setTxPos r p with currentTxReq := current })) = s.submitted
    rw [← hleft', hring, ← h.stream, hpending, List.flatMap_append, List.flatMap_append,
      List.flatMap_cons, List.flatMap_cons, hleft_r, hsent.left,
      List.flatMap_eq_nil_iff.mpr hdone', List.flatMap_eq_nil_iff.mpr hdone,
      List.flatMap_congr fun j hj => hleft_ne j (hrest_ne j hj), List.nil_append, List.nil_append,
      List.append_assoc, ← List.append_assoc ((s.bus.left r).take k)]
    exact congrArg (fun xs => s.consumed ++ (s.bus.onRing ++ (xs ++ rest.flatMap s.bus.left)))
      (List.take_append_drop k (s.bus.left r))
  · rw [← hleft']
    exact hdone₁
  · rw [← hleft']
    exact hrest₁

/-- **A round of the loop that transmits.** -/
theorem Streams.transmit (h : s.Streams) :
    ∃ again bus, s.bus.transmitRound = some (again, bus) ∧
      (again = false → s.bus.room = 0 ∨ ∀ r ∈ s.bus.pending, s.bus.left r = []) ∧
      (¬ s.bus.Jams → Streams { s with bus := bus }) ∧
      (s.bus.Jams → ∃ r, bus.Stuck r) := by
  obtain ⟨done, rest, hpending, hdone, hrest, hcurrent⟩ := h.split
  rw [Xenbus.transmitRound]
  cases rest with
  | nil =>
    rw [hcurrent]
    refine ⟨false, s.bus, rfl, fun _ => .inr fun r hr => hdone r ?_, fun _ => h, ?_⟩
    · rwa [hpending, List.append_nil] at hr
    · rintro ⟨r, hr, -⟩
      rw [hcurrent] at hr
      cases hr
  | cons r rest =>
    have hr : r ∈ s.bus.pending := by
      rw [hpending]
      exact List.mem_append_right _ List.mem_cons_self
    obtain ⟨p, hadvance, hp, hsent, hnil, hcons⟩ := Xenbus.advanceTxReq_spec (h.valid r hr) h.ahead
    have hleft := hrest r List.mem_cons_self
    have hpos : 0 < (s.bus.left r).length := List.length_pos_of_ne_nil hleft
    have hkle : min s.bus.room (s.bus.left r).length ≤ s.bus.room := Nat.min_le_left _ _
    have hpleft : p.left = (s.bus.left r).drop (min s.bus.room (s.bus.left r).length) := hsent.left
    have hprod : p.prod = s.bus.sharedBuf.reqProd +
        UInt32.ofNat (min s.bus.room (s.bus.left r).length) := hsent.prod
    have hstep := fun current => h.sent current hpending hdone hrest hp hkle hsent
    have hstill : (p.prod != s.bus.sharedBuf.reqProd) = false → s.bus.room = 0 := by
      intro heq
      have hahead := ahead_add h.ahead hkle
      rw [← hprod, bne_eq_false_iff_eq.mp heq] at hahead
      omega
    rw [hcurrent]
    dsimp only [List.head?_cons]
    rw [hadvance]
    by_cases hsegs : p.segs = []
    · -- the request is on the ring
      have hpl : p.left = [] := by rw [TxPos.left, hsegs, List.flatten_nil, List.drop_nil]
      have hmoved : (p.prod != s.bus.sharedBuf.reqProd) = true := by
        by_contra hmoved
        rw [hpl, hstill (Bool.eq_false_iff.mpr hmoved), Nat.zero_min, List.drop_zero] at hpleft
        exact hleft hpleft.symm
      have hnext : (s.bus.setTxPos r p).nextReq r = rest.head? := by
        change (s.bus.pending.dropWhile (· != r)).tail.head? = _
        rw [hpending, List.dropWhile_append_of_pos, List.dropWhile_cons_of_neg]
        · rfl
        · rw [bne_self_eq_false]
          exact Bool.false_ne_true
        · exact fun j hj => bne_iff_ne.mpr fun heq => hleft (heq ▸ hdone j hj)
      rw [hmoved]
      dsimp only
      rw [if_pos (by rw [Xenbus.setTxPos, Xenbus.reqs_setReq_self]; exact hsegs)]
      refine ⟨true, _, rfl, fun hf => Bool.noConfusion hf, fun _ => hstep _ ?_, ?_⟩
      · rw [if_pos hpl, hnext]
      · rintro ⟨r', hr', hlen, hlast⟩
        obtain rfl : r = r' := Option.some.inj (hcurrent.symm.trans hr')
        rcases hnil hsegs with hnone | hlt | ⟨-, hne⟩
        · rw [hnone] at hlast
          cases hlast
        · exact absurd hlen (Nat.ne_of_lt hlt)
        · exact absurd hlast hne
    · -- the ring is full
      obtain ⟨⟨before, hbefore⟩, hle⟩ := hcons hsegs
      rw [Nat.min_eq_left hle] at hpleft
      have hsame : some r = s.bus.currentTxReq := hcurrent.symm
      have hbus : s.bus.setTxPos r p = { s.bus.setTxPos r p with currentTxReq := some r } := by
        rw [hsame]
        rfl
      have hsmooth : ¬ s.bus.Jams → Streams { s with bus := s.bus.setTxPos r p } := by
        intro hjams
        rw [hbus]
        refine hstep _ (if_neg fun hpl => hjams ⟨r, hcurrent, ?_, ?_⟩).symm
        · rw [hpl] at hpleft
          exact Nat.le_antisymm (List.drop_eq_nil_iff.mp hpleft.symm) hle
        · rw [← hbefore, List.getLast?_append_of_ne_nil _ hsegs]
          exact hp.getLast_of_left_nil hpl hsegs
      have hstuck : s.bus.Jams → ∃ j, (s.bus.setTxPos r p).Stuck j := by
        rintro ⟨r', hr', hlen, -⟩
        obtain rfl : r = r' := Option.some.inj (hcurrent.symm.trans hr')
        refine ⟨r, hcurrent, ?_, Xenbus.txPos_setTxPos_self.symm ▸ hp,
          Xenbus.ahead_setTxPos h.ahead hkle hsent⟩
        rw [Xenbus.left, Xenbus.txPos_setTxPos_self, hpleft]
        exact List.drop_of_length_le (Nat.le_of_eq hlen)
      cases hmoved : p.prod != s.bus.sharedBuf.reqProd with
      | false => exact ⟨false, _, rfl, fun _ => .inl (hstill hmoved), hsmooth, hstuck⟩
      | true =>
        dsimp only
        rw [if_neg (by rw [Xenbus.setTxPos, Xenbus.reqs_setReq_self]; exact hsegs)]
        exact ⟨true, _, rfl, fun hf => Bool.noConfusion hf, hsmooth, hstuck⟩

theorem Streams.of_sameTx (h : s.Streams) {bus : Xenbus} (hsame : s.bus.SameTx bus) :
    Streams { s with bus := bus } := by
  have hleft : bus.left = s.bus.left := funext hsame.left
  have hpos := hsame.pos 0
  rw [Xenbus.txPos, Xenbus.txPos, TxPos.mk.injEq] at hpos
  have hring : bus.onRing = s.bus.onRing := by
    rw [Xenbus.onRing, Xenbus.onRing, hpos.2.2.1, hpos.2.2.2, hsame.cons]
  refine ⟨?_, ?_, ?_, ?_, ?_⟩
  · dsimp only
    rw [hsame.pending]
    exact fun r hr => (hsame.pos r).symm ▸ h.valid r hr
  · exact hsame.pending.symm ▸ h.nodup
  · dsimp only
    rw [hpos.2.2.1, hsame.cons]
    exact h.ahead
  · dsimp only
    rw [hring, hsame.pending, hleft]
    exact h.stream
  · dsimp only
    rw [hsame.pending, hleft, hsame.current]
    exact h.split

/-- A request is put behind the others. -/
theorem Streams.append {bus : Xenbus} {r : Nat} {msg : XsdSockmsg} {args : List (List UInt8)}
    (h : s.Streams) (hr : r ∉ s.bus.pending) (hshort : ∀ seg ∈ args, seg.length < 4294967296)
    (hpending : bus.pending = s.bus.pending ++ [r]) (hbuf : bus.sharedBuf = s.bus.sharedBuf)
    (hcurrent : bus.currentTxReq =
      if s.bus.currentTxReq = none then some r else s.bus.currentTxReq)
    (hseg : (bus.reqs r).nextTxSeg = msg.bytes :: args) (hoff : (bus.reqs r).txSgOff = 0)
    (hreqs : ∀ j, j ≠ r → bus.reqs j = s.bus.reqs j) :
    Streams ⟨bus, s.submitted ++ (msg.bytes :: args).flatten, s.consumed⟩ := by
  obtain ⟨done, rest, hsplit, hdone, hrest, hhead⟩ := h.split
  have hpos : ∀ j ∈ s.bus.pending, bus.txPos j = s.bus.txPos j := by
    intro j hj
    rw [Xenbus.txPos, hreqs j fun heq => hr (heq ▸ hj), hbuf, Xenbus.txPos]
  have hleft : ∀ j ∈ s.bus.pending, bus.left j = s.bus.left j :=
    fun j hj => congrArg TxPos.left (hpos j hj)
  have hleft_r : bus.left r = (msg.bytes :: args).flatten := by
    rw [Xenbus.left, TxPos.left, Xenbus.txPos, hseg, hoff]
    rfl
  have hnew : bus.left r ≠ [] := by
    rw [hleft_r, List.flatten_cons]
    exact List.append_ne_nil_of_left_ne_nil msg.bytes_ne_nil _
  refine ⟨fun j hj => ?_, ?_, ?_, ?_, done, rest ++ [r], ?_, fun j hj => ?_, fun j hj => ?_, ?_⟩
  · rw [hpending] at hj
    rcases List.mem_append.mp hj with hj | hj
    · exact (hpos j hj).symm ▸ h.valid j hj
    · rw [List.mem_singleton.mp hj, Xenbus.txPos, hseg, hoff]
      refine ⟨fun seg hmem => ?_, .inl rfl⟩
      rcases List.mem_cons.mp hmem with rfl | hmem
      · rw [msg.length_bytes]
        decide
      · exact hshort seg hmem
  · dsimp only
    rw [hpending]
    exact List.nodup_append.mpr ⟨h.nodup, List.nodup_cons.mpr ⟨List.not_mem_nil, List.nodup_nil⟩,
      fun j hj k hk heq => hr (List.mem_singleton.mp hk ▸ heq ▸ hj)⟩
  · dsimp only
    rw [hbuf]
    exact h.ahead
  · dsimp only
    rw [← h.stream, Xenbus.onRing, hbuf, hpending, List.flatMap_append, List.flatMap_congr hleft,
      List.flatMap_cons, List.flatMap_nil, List.append_nil, hleft_r, ← List.append_assoc,
      ← List.append_assoc, ← List.append_assoc]
    rfl
  · rw [hpending, hsplit, List.append_assoc]
  · have hmem : j ∈ s.bus.pending := hsplit.symm ▸ List.mem_append_left _ hj
    exact (hleft j hmem).trans (hdone j hj)
  · rcases List.mem_append.mp hj with hj | hj
    · have hmem : j ∈ s.bus.pending := hsplit.symm ▸ List.mem_append_right _ hj
      rw [hleft j hmem]
      exact hrest j hj
    · rwa [List.mem_singleton.mp hj]
  · dsimp only
    rw [hcurrent, hhead]
    cases rest <;> rfl

/-- A request is submitted. -/
theorem Streams.submit {r : Nat} {type txId : UInt32} {args io : List (List UInt8)}
    {buf : Option Nat} {hdr : XsdSockmsg} {req : PendingReq} {taken : Bool} {bus : Xenbus}
    (h : s.Streams) (hshort : ∀ seg ∈ args, seg.length < 4294967296) (hr : r ∉ s.bus.pending)
    (hsg : initialiseSgList type txId s.bus.sequenceNumber args = (hdr, io))
    (hreq : prepareReq hdr io buf = some req) (hsubmit : s.bus.submitRequest r req = (taken, bus)) :
    Streams ⟨{ bus with sequenceNumber := hdr.reqId },
      s.submitted ++ if taken then io.flatten else [], s.consumed⟩ := by
  obtain rfl : hdr.bytes :: args = io := by
    obtain ⟨rfl, rfl⟩ := Prod.mk.inj hsg
    rfl
  obtain ⟨hseg, hoff⟩ := prepareReq_tx hreq
  rw [Xenbus.submitRequest] at hsubmit
  by_cases hallow : s.bus.allowNewXenbusOperation = true
  · rw [if_pos hallow] at hsubmit
    obtain ⟨rfl, rfl⟩ := Prod.mk.inj hsubmit
    refine h.append hr hshort rfl rfl rfl ?_ ?_ fun j hj => ?_
    · dsimp only
      rw [Xenbus.reqs_setReq_self, hseg]
    · dsimp only
      rw [Xenbus.reqs_setReq_self, hoff]
    · exact Xenbus.reqs_setReq_of_ne _ _ hj
  · rw [if_neg hallow] at hsubmit
    obtain ⟨rfl, rfl⟩ := Prod.mk.inj hsubmit
    have hsame := h.of_sameTx (show s.bus.SameTx { s.bus with sequenceNumber := hdr.reqId } from
      ⟨rfl, rfl, rfl, fun _ => rfl⟩)
    rwa [if_neg Bool.false_ne_true, List.append_nil]

/-- xenstored reads some bytes. -/
theorem Streams.consume {k : Nat} (h : s.Streams) (hk : k ≤ s.bus.onRing.length) :
    Streams { s with
      bus := { s.bus with
        sharedBuf := { s.bus.sharedBuf with
          reqCons := s.bus.sharedBuf.reqCons + UInt32.ofNat k } }
      consumed := s.consumed ++ s.bus.onRing.take k } := by
  rw [Xenbus.onRing, length_get] at hk
  have hahead := ahead_consume hk
  have hdrop : get xenstoreRingSize s.bus.sharedBuf.req
      (s.bus.sharedBuf.reqCons + UInt32.ofNat k).toNat
      ((s.bus.sharedBuf.reqProd - s.bus.sharedBuf.reqCons).toNat - k) = s.bus.onRing.drop k := by
    rw [Xenbus.onRing, drop_get hk]
    exact get_congr (toNat_add_ofNat _ k)
  refine ⟨fun r hr => ⟨(h.valid r hr).short, (h.valid r hr).offset⟩, h.nodup, ?_, ?_, h.split⟩
  · dsimp only
    rw [hahead]
    exact Nat.le_trans (Nat.sub_le _ _) h.ahead
  · change s.consumed ++ s.bus.onRing.take k ++ (get xenstoreRingSize s.bus.sharedBuf.req
      (s.bus.sharedBuf.reqCons + UInt32.ofNat k).toNat (s.bus.sharedBuf.reqProd -
        (s.bus.sharedBuf.reqCons + UInt32.ofNat k)).toNat ++ s.bus.pending.flatMap s.bus.left) = _
    rw [hahead, hdrop, List.append_assoc, ← List.append_assoc (s.bus.onRing.take k),
      List.take_append_drop]
    exact h.stream

/-- A request leaves the list. -/
theorem Streams.finish {r : Nat} {bus : Xenbus} (h : s.Streams) (hr : r ∈ s.bus.pending)
    (hleft : s.bus.left r = []) (hunhook : s.bus.unhookRequest r = some bus) :
    Streams { s with bus := bus } := by
  obtain ⟨done, rest, hpending, hdone, hrest, hcurrent⟩ := h.split
  have hmem : r ∈ done := by
    rw [hpending] at hr
    rcases List.mem_append.mp hr with hr | hr
    · exact hr
    · exact absurd hleft (hrest r hr)
  have herase : s.bus.pending.erase r = done.erase r ++ rest := by
    rw [hpending, List.erase_append_left _ hmem]
  have hdone' : ∀ j ∈ done.erase r, s.bus.left j = [] :=
    fun j hj => hdone j (List.mem_of_mem_erase hj)
  have hflat : (s.bus.pending.erase r).flatMap s.bus.left = s.bus.pending.flatMap s.bus.left := by
    rw [herase, hpending, List.flatMap_append, List.flatMap_append,
      List.flatMap_eq_nil_iff.mpr hdone', List.flatMap_eq_nil_iff.mpr hdone]
  rw [Xenbus.unhookRequest] at hunhook
  split at hunhook
  · cases hunhook
  split at hunhook
  · cases hunhook
  · cases hunhook
    refine ⟨fun j hj => h.valid j (List.mem_of_mem_erase hj), h.nodup.erase r, h.ahead, ?_,
      done.erase r, rest, herase, hdone', hrest, hcurrent⟩
    change s.consumed ++ (s.bus.onRing ++ (s.bus.pending.erase r).flatMap s.bus.left) = _
    rw [hflat]
    exact h.stream

theorem Streams.step (h : s.Streams) (hok : s.Smooth a) (hs : s.Step a s') : s'.Streams := by
  cases hs with
  | submit hr hsg hreq hsubmit => exact h.submit hok hr hsg hreq hsubmit
  | consume hk => exact h.consume hk
  | @transmit again bus heq =>
    obtain ⟨again', bus', heq', -, hsmooth, -⟩ := h.transmit
    obtain ⟨-, rfl⟩ := Prod.mk.inj (Option.some.inj (heq.symm.trans heq'))
    exact hsmooth hok
  | arrive => exact h.of_sameTx ⟨rfl, rfl, rfl, fun _ => rfl⟩
  | receive heq => exact h.of_sameTx (Xenbus.sameTx_receiveFromXenstored heq)
  | finish hr hleft hunhook => exact h.finish hr hleft hunhook

/-- What xenstored has read, what is on the ring and what is still to be sent is what has been
submitted, in this order; the ring is not overrun; the current request is the first that is not on
the ring whole; and a round of the loop that is the last one of a pass leaves the ring full or
nothing to be sent. -/
structure Sound (s : TxRun) : Prop where
  stream : s.consumed ++ (s.bus.onRing ++ s.bus.pending.flatMap s.bus.left) = s.submitted
  ahead : (s.bus.sharedBuf.reqProd - s.bus.sharedBuf.reqCons).toNat ≤ xenstoreRingSize
  current : s.bus.currentTxReq = s.bus.pending.find? fun r => s.bus.left r ≠ []
  round : ∃ again bus, s.bus.transmitRound = some (again, bus) ∧
    (again = false → s.bus.room = 0 ∨ ∀ r ∈ s.bus.pending, s.bus.left r = [])

theorem Streams.sound (h : s.Streams) : s.Sound := by
  obtain ⟨again, bus, hround, hlast, -⟩ := h.transmit
  refine ⟨h.stream, h.ahead, ?_, again, bus, hround, hlast⟩
  obtain ⟨done, rest, hpending, hdone, hrest, hcurrent⟩ := h.split
  rw [hpending, hcurrent, List.find?_append, List.find?_eq_none.mpr, Option.none_or]
  · cases rest with
    | nil => rfl
    | cons r rest =>
      rw [List.find?_cons_of_pos]
      · rfl
      · exact decide_eq_true (hrest r List.mem_cons_self)
  · intro r hr
    rw [decide_eq_true_iff]
    exact not_not_intro (hdone r hr)

/-- **The stream of requests.**  While segments have less than 4 GiB and no request jams, the
requests reach xenstored whole and in their order; and the next round keeps it so exactly if no
request jams then. -/
theorem sound_of_smooth (h : Reachable Start Step Smooth s) :
    s.Sound ∧ ∀ again bus, s.bus.transmitRound = some (again, bus) →
      (Sound { s with bus := bus } ↔ ¬ s.bus.Jams) := by
  have hstreams : s.Streams := h.invariant (fun _ hs => .start hs) fun _ _ _ hp hok hs => hp.step hok hs
  refine ⟨hstreams.sound, fun again bus hround => ?_⟩
  obtain ⟨again', bus', hround', -, hsmooth, hstuck⟩ := hstreams.transmit
  obtain ⟨-, rfl⟩ := Prod.mk.inj (Option.some.inj (hround.symm.trans hround'))
  refine ⟨fun hsound hjams => ?_, fun hjams => (hsmooth hjams).sound⟩
  obtain ⟨r, hr⟩ := hstuck hjams
  have hfind := List.find?_some (hsound.current.symm.trans hr.current)
  exact absurd hr.left (of_decide_eq_true hfind)

/-- Nothing has been submitted. -/
def idle : TxRun where
  bus :=
    { reqs := fun _ => initialisePendingReq ⟨0, 0, 0, 0⟩ []
      pending := []
      currentRxReq := none
      currentTxReq := none
      consResponseDiscardBytes := 0
      sharedBuf := ⟨fun _ => 0, fun _ => 0, 0, 0, 0, 0⟩
      watches := []
      triggered := []
      sequenceNumber := 0
      xenbusOutstandingCtr := 0
      allowNewXenbusOperation := true
      allowXenbusWatchOperation := true }
  submitted := []
  consumed := []

/-- `XS_WRITE` with these segments behind the header. -/
def afterWrite (args : List (List UInt8)) : TxRun :=
  let hdr : XsdSockmsg := ⟨11, 1, 0, UInt32.ofNat (args.map List.length).sum⟩
  let req := initialisePendingReq hdr (hdr.bytes :: args)
  ⟨{ (idle.bus.submitRequest 0 req).2 with sequenceNumber := 1 }, (hdr.bytes :: args).flatten, []⟩

theorem step_afterWrite (args : List (List UInt8)) :
    idle.Step (.submit 0 11 0 args none) (afterWrite args) :=
  @TxRun.Step.submit idle 0 11 0 args _ none _ _ true _ List.not_mem_nil rfl rfl rfl

/-- A value is written, with its path and NUL in front. -/
theorem sound_of_smooth_write : (afterWrite [[47, 97, 0], [49]]).Sound :=
  (sound_of_smooth (.next (i := .submit 0 11 0 [[47, 97, 0], [49]] none)
    (.start (s := idle) ⟨rfl, rfl, rfl, rfl, rfl⟩)
    (show ∀ seg ∈ ([[47, 97, 0], [49]] : List (List UInt8)), seg.length < 4294967296 by decide)
    (step_afterWrite [[47, 97, 0], [49]]))).1

/-- An empty value is written to a path of 1007 characters.  It fills the ring; when xenstored has
read it, it is still the current request after the next pass. -/
theorem empty_value_stuck : ¬ ∀ (s : TxRun) (r : Nat) (bus : Xenbus),
    Reachable Start Step (fun _ _ => True) s → s.bus.currentTxReq = some r → s.bus.left r = [] →
    Loop Xenbus.transmitRound s.bus bus → bus.currentTxReq ≠ some r := by
  intro hnext
  obtain ⟨path, hpath⟩ : ∃ path : List UInt8, path.length = 1008 :=
    ⟨List.replicate 1007 47 ++ [0], by rw [List.length_append, List.length_replicate]; rfl⟩
  obtain ⟨s, hs⟩ : ∃ s, s = afterWrite [path, []] := ⟨_, rfl⟩
  have hstep : idle.Step (.submit 0 11 0 [path, []] none) s := hs ▸ step_afterWrite _
  have hstreams : s.Streams := by
    have hshort : idle.Smooth (.submit 0 11 0 [path, []] none) := by
      intro seg hseg
      rcases List.mem_cons.mp hseg with rfl | hseg
      · rw [hpath]
        decide
      · rw [List.mem_singleton.mp hseg]
        decide
    exact (Streams.start ⟨rfl, rfl, rfl, rfl, rfl⟩).step hshort hstep
  have hjams : s.bus.Jams := by
    obtain ⟨hdr, hleft⟩ : ∃ hdr : XsdSockmsg,
        s.bus.left 0 = (hdr.bytes :: [path, []]).flatten := by
      rw [hs]
      exact ⟨_, rfl⟩
    have hroom : s.bus.room = 1024 := by
      rw [hs]
      exact show room 0 0 = 1024 by decide
    refine ⟨0, hs ▸ rfl, ?_, hs ▸ rfl⟩
    rw [hroom, hleft, List.flatten_cons, List.length_append, XsdSockmsg.length_bytes,
      List.flatten_cons, List.length_append, hpath]
    rfl
  obtain ⟨again, bus, hround, -, -, hstuck⟩ := hstreams.transmit
  obtain ⟨r, hr⟩ := hstuck hjams
  have hread := hr.consume (Nat.le_refl bus.onRing.length)
  obtain ⟨bus', hround', hr'⟩ := hread.round
  have hreach : Reachable Start Step (fun _ _ => True) { s with bus := bus } :=
    .next (.next (.start ⟨rfl, rfl, rfl, rfl, rfl⟩) trivial hstep) trivial (.transmit hround)
  exact hnext _ r bus' (.next hreach trivial (.consume (Nat.le_refl _))) hread.current hread.left
    (.last hround') hr'.current

end TxRun

end V4v.Xenutil
