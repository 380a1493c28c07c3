import LegacyV4v.GuardedRun
import LegacyV4v.Xenbus

/-! # A request on its way to the ring

What `advance_tx_req` does to one request, and what it leaves when the ring becomes full.  The half
that receives is shown to leave all this alone. -/
namespace V4v.Xenutil
open GuardedRun IndexedRing

/-! ## A request -/

/-- How many bytes there is room for. -/
def room (cons prod : UInt32) : Nat := (cons + 1024 - prod).toNat

theorem room_add {cons prod : UInt32} (h : (prod - cons).toNat ≤ xenstoreRingSize) :
    (prod - cons).toNat + room cons prod = xenstoreRingSize := by
  have hcons := cons.toNat_lt
  have hprod := prod.toNat_lt
  unfold xenstoreRingSize at h ⊢
  rw [UInt32.toNat_sub] at h
  rw [room, UInt32.toNat_sub, UInt32.toNat_sub, UInt32.toNat_add,
    show (1024 : UInt32).toNat = 1024 from rfl]
  omega

theorem room_eq_zero {cons prod : UInt32} : room cons prod = 0 ↔ prod = cons + 1024 := by
  rw [room, ← UInt32.toNat_zero, UInt32.toNat_inj, UInt32.sub_eq_iff_eq_add, UInt32.zero_add]
  exact eq_comm

/-- Some of the room is used. -/
theorem ahead_add {cons prod : UInt32} {k : Nat} (h : (prod - cons).toNat ≤ xenstoreRingSize)
    (hk : k ≤ room cons prod) :
    (prod + UInt32.ofNat k - cons).toNat = (prod - cons).toNat + k := by
  have hroom := room_add h
  have hcons := cons.toNat_lt
  have hprod := prod.toNat_lt
  unfold xenstoreRingSize at h hroom
  rw [UInt32.toNat_sub] at h hroom ⊢
  rw [UInt32.toNat_sub, UInt32.toNat_add, MachineWord.toNat_ofNat_of_lt (by omega)]
  omega

/-- Some bytes are read. -/
theorem ahead_consume {cons prod : UInt32} {k : Nat} (hk : k ≤ (prod - cons).toNat) :
    (prod - (cons + UInt32.ofNat k)).toNat = (prod - cons).toNat - k := by
  have hcons := cons.toNat_lt
  have hprod := prod.toNat_lt
  have hlt := (prod - cons).toNat_lt
  rw [UInt32.toNat_sub] at hk hlt ⊢
  rw [UInt32.toNat_sub, UInt32.toNat_add, MachineWord.toNat_ofNat_of_lt (by omega)]
  omega

theorem toNat_add_ofNat (idx : UInt32) (k : Nat) :
    (idx + UInt32.ofNat k).toNat % xenstoreRingSize = (idx.toNat + k) % xenstoreRingSize := by
  have hk : (UInt32.ofNat k).toNat = k % 4294967296 := UInt32.toNat_ofNat
  unfold xenstoreRingSize
  rw [UInt32.toNat_add, hk]
  omega

namespace TxPos
variable {cons : UInt32} {p p' p'' : TxPos} {k j : Nat}

/-- The bytes that are still to be sent. -/
def left (p : TxPos) : List UInt8 := p.segs.flatten.drop p.offInSegment.toNat

/-- The offset is one in the first segment, and fits. -/
structure Valid (p : TxPos) : Prop where
  short : ∀ seg ∈ p.segs, seg.length < 4294967296
  offset : p.offInSegment = 0 ∨ ∃ seg next, p.segs = seg :: next ∧
    p.offInSegment.toNat < seg.length

/-- `k` bytes are put on the ring. -/
structure Sent (k : Nat) (p p' : TxPos) : Prop where
  le : k ≤ p.left.length
  left : p'.left = p.left.drop k
  prod : p'.prod = p.prod + UInt32.ofNat k
  ring : p'.ring = put xenstoreRingSize p.ring p.prod.toNat (p.left.take k)

theorem Sent.refl (p : TxPos) : p.Sent 0 p :=
  ⟨Nat.zero_le _, rfl, (UInt32.add_zero _).symm, by rw [List.take_zero, put_nil]⟩

theorem Sent.trans (h : Sent k p p') (h' : Sent j p' p'') (hsize : k + j ≤ xenstoreRingSize) :
    Sent (k + j) p p'' := by
  have hk := h.le
  have hj := h'.le
  rw [h.left, List.length_drop] at hj
  refine ⟨by omega, ?_, ?_, ?_⟩
  · rw [h'.left, h.left, List.drop_drop]
  · rw [h'.prod, h.prod, UInt32.add_assoc, UInt32.ofNat_add]
  · have hindex : p'.prod.toNat % xenstoreRingSize =
        (p.prod.toNat + (p.left.take k).length) % xenstoreRingSize := by
      rw [List.length_take, Nat.min_eq_left hk, h.prod, toNat_add_ofNat]
    rw [h'.ring, h.ring, h.left, put_congr hindex, put_put, ← List.take_add]
    rw [List.length_take, List.length_take, List.length_drop]
    omega

/-- Nothing is left of empty segments only. -/
theorem Valid.getLast_of_left_nil (h : p.Valid) (hleft : p.left = []) (hsegs : p.segs ≠ []) :
    p.segs.getLast? = some [] := by
  rw [left, List.drop_eq_nil_iff] at hleft
  have hall : p.segs.flatten = [] := by
    rcases h.offset with hzero | ⟨seg, next, heq, hlt⟩
    · rw [hzero] at hleft
      exact List.eq_nil_of_length_eq_zero (Nat.le_zero.mp hleft)
    · rw [heq, List.flatten_cons, List.length_append] at hleft
      omega
  rw [List.getLast?_eq_some_getLast hsegs]
  exact congrArg some (List.flatten_eq_nil_iff.mp hall _ (List.getLast_mem hsegs))

theorem Valid.offset_le {seg : List UInt8} {next : List (List UInt8)} (h : p.Valid)
    (hsegs : p.segs = seg :: next) : p.offInSegment.toNat ≤ seg.length := by
  rcases h.offset with hzero | ⟨seg', next', heq, hlt⟩
  · rw [hzero]
    exact Nat.zero_le _
  · obtain ⟨rfl, -⟩ := List.cons.inj (hsegs.symm.trans heq)
    exact Nat.le_of_lt hlt

theorem thisPass_toNat (cons : UInt32) {seg : List UInt8} (hshort : seg.length < 4294967296)
    (hoff : p.offInSegment.toNat ≤ seg.length) :
    (p.thisPass cons seg).toNat = min (room cons p.prod) (seg.length - p.offInSegment.toNat) := by
  have hlen := MachineWord.toNat_ofNat_of_lt hshort
  have hleft : (UInt32.ofNat seg.length - p.offInSegment).toNat =
      seg.length - p.offInSegment.toNat := by
    rw [UInt32.toNat_sub_of_le _ _ (UInt32.le_iff_toNat_le.mpr (hlen.symm ▸ hoff)), hlen]
  rw [thisPass, room]
  by_cases hlt : UInt32.ofNat seg.length - p.offInSegment > cons + 1024 - p.prod
  · rw [if_pos hlt]
    have hlt' := UInt32.lt_iff_toNat_lt.mp hlt
    omega
  · rw [if_neg hlt, hleft]
    have hle := UInt32.le_iff_toNat_le.mp (UInt32.not_lt.mp hlt)
    omega

/-- The loop once: it is over, or a segment is finished, or the ring is full. -/
theorem round_cases (h : p.Valid) (hahead : (p.prod - cons).toNat ≤ xenstoreRingSize) :
    p.round cons = some (false, p) ∧ (p.segs = [] ∨ room cons p.prod = 0) ∨
      ∃ seg next p' k, p.segs = seg :: next ∧ room cons p.prod ≠ 0 ∧
        p.round cons = some (true, p') ∧ p'.Valid ∧ Sent k p p' ∧ k ≤ room cons p.prod ∧
        (p'.segs = next ∧ k = seg.length - p.offInSegment.toNat ∨
          p'.segs = p.segs ∧ k = room cons p.prod) := by
  cases hsegs : p.segs with
  | nil =>
    refine .inl ⟨?_, .inl rfl⟩
    rw [round, hsegs]
  | cons seg next =>
    by_cases hfull : p.prod = cons + 1024
    · refine .inl ⟨?_, .inr (room_eq_zero.mpr hfull)⟩
      rw [round, hsegs]
      dsimp only
      rw [if_pos hfull]
    have hshort := h.short seg (hsegs ▸ List.mem_cons_self)
    have hoff := h.offset_le hsegs
    have hn := thisPass_toNat cons hshort hoff
    have hroom := room_add hahead
    have hleft : p.left = seg.drop p.offInSegment.toNat ++ next.flatten := by
      rw [left, hsegs, List.flatten_cons, List.drop_append_of_le_length hoff]
    have hlen : (seg.drop p.offInSegment.toNat).length = seg.length - p.offInSegment.toNat :=
      List.length_drop
    obtain ⟨k, hk⟩ : ∃ k, (p.thisPass cons seg).toNat = k := ⟨_, rfl⟩
    have hofNat : p.thisPass cons seg = UInt32.ofNat k := by rw [← hk, UInt32.ofNat_toNat]
    rw [hk] at hn
    have htake : (seg.drop p.offInSegment.toNat).take k = p.left.take k := by
      rw [hleft, List.take_append_of_le_length (by omega)]
    have hcopy := memcpyToRing_eq p.ring (p.left.take k) p.prod
      (by rw [List.length_take]; omega)
    have hkle : k ≤ p.left.length := by
      rw [hleft, List.length_append]
      omega
    have hround : p.round cons = some (true,
        if p.offInSegment + UInt32.ofNat k = UInt32.ofNat seg.length then
          ⟨next, 0, p.prod + UInt32.ofNat k, put xenstoreRingSize p.ring p.prod.toNat
            (p.left.take k)⟩
        else ⟨seg :: next, p.offInSegment + UInt32.ofNat k, p.prod + UInt32.ofNat k,
          put xenstoreRingSize p.ring p.prod.toNat (p.left.take k)⟩) := by
      rw [round, hsegs]
      dsimp only
      rw [if_neg hfull, hk, htake, hcopy, hofNat]
    have hsum : (p.offInSegment + UInt32.ofNat k).toNat = p.offInSegment.toNat + k := by
      rw [UInt32.toNat_add, MachineWord.toNat_ofNat_of_lt (by omega), Nat.mod_eq_of_lt (by omega)]
    have hend : p.offInSegment + UInt32.ofNat k = UInt32.ofNat seg.length ↔
        p.offInSegment.toNat + k = seg.length := by
      rw [← UInt32.toNat_inj, hsum, MachineWord.toNat_ofNat_of_lt hshort]
    refine .inr ⟨seg, next, _, k, rfl, fun hzero => hfull (room_eq_zero.mp hzero), hround, ?_⟩
    by_cases hdone : p.offInSegment.toNat + k = seg.length
    · rw [if_pos (hend.mpr hdone)]
      refine ⟨⟨fun x hx => h.short x (hsegs ▸ List.mem_cons_of_mem _ hx), .inl rfl⟩,
        ⟨hkle, ?_, rfl, rfl⟩, by omega, .inl ⟨rfl, by omega⟩⟩
      have hgone : (seg.drop p.offInSegment.toNat).drop k = [] :=
        List.drop_of_length_le (by omega)
      change next.flatten.drop 0 = p.left.drop k
      rw [hleft, List.drop_append_of_le_length (by omega), hgone]
      rfl
    · rw [if_neg (hdone ∘ hend.mp)]
      refine ⟨⟨hsegs ▸ h.short, .inr ⟨seg, next, rfl, by rw [hsum]; omega⟩⟩,
        ⟨hkle, ?_, rfl, rfl⟩, by omega, .inr ⟨rfl, by omega⟩⟩
      rw [left, hsum, left, hsegs, List.drop_drop]

/-- **The loop** puts on the ring what is left, as far as there is room.  Then there is no segment
left, if there was more room than that, or as much and the last segment is not empty. -/
theorem advanceLoop_spec (h : p.Valid) (hahead : (p.prod - cons).toNat ≤ xenstoreRingSize) :
    ∃ p', advanceLoop cons p = some p' ∧ p'.Valid ∧
      Sent (min (room cons p.prod) p.left.length) p p' ∧
      (p'.segs = [] → p.segs = [] ∨ p.left.length < room cons p.prod ∨
        p.left.length = room cons p.prod ∧ p.segs.getLast? ≠ some []) ∧
      (p'.segs ≠ [] → p'.segs <:+ p.segs ∧ room cons p.prod ≤ p.left.length) := by
  induction hr : p.rounds cons using Nat.strong_induction_on generalizing p with
  | _ r ih =>
  have hdef := advanceLoop.eq_def cons p
  rcases round_cases h hahead with ⟨hround, hend⟩ |
    ⟨seg, next, p₁, k, hsegs, hroom, hround, hvalid, hsent, hk, hnext⟩
  · have hloop : advanceLoop cons p = some p := by
      split at hdef
      · next hn => cases hn.symm.trans hround
      · next t hlast =>
        obtain ⟨-, rfl⟩ := Prod.mk.inj (Option.some.inj (hlast.symm.trans hround))
        exact hdef
      · next t hmore => cases hmore.symm.trans hround
    have hzero : min (room cons p.prod) p.left.length = 0 := by
      rcases hend with hnil | hfull
      · rw [left, hnil, List.flatten_nil, List.drop_nil, List.length_nil, Nat.min_zero]
      · rw [hfull, Nat.zero_min]
    refine ⟨p, hloop, h, hzero ▸ Sent.refl p, .inl, fun hne => ⟨List.suffix_refl _, ?_⟩⟩
    rw [hend.resolve_left hne]
    exact Nat.zero_le _
  · have hloop : advanceLoop cons p = advanceLoop cons p₁ := by
      split at hdef
      · next hn => cases hn.symm.trans hround
      · next t hlast => cases hlast.symm.trans hround
      · next t hmore =>
        obtain ⟨-, rfl⟩ := Prod.mk.inj (Option.some.inj (hmore.symm.trans hround))
        exact hdef
    have hfit := room_add hahead
    have hahead₁ := ahead_add hahead hk
    rw [← hsent.prod] at hahead₁
    have hfit₁ := room_add (show (p₁.prod - cons).toNat ≤ xenstoreRingSize by omega)
    have hleft₁ : p₁.left.length = p.left.length - k := by rw [hsent.left, List.length_drop]
    have hkle := hsent.le
    have hsuffix₁ : p₁.segs <:+ p.segs := by
      rcases hnext with ⟨hnext, -⟩ | ⟨hsame, -⟩
      · rw [hnext, hsegs]
        exact List.suffix_cons _ _
      · exact hsame ▸ List.suffix_refl p.segs
    obtain ⟨p', hloop', hvalid', hsent', hnil, hcons⟩ :=
      ih _ (hr ▸ rounds_lt hround) hvalid (by omega) rfl
    refine ⟨p', hloop.trans hloop', hvalid', ?_, fun hdone => .inr ?_, fun hmore => ?_⟩
    · have hall := hsent.trans hsent' (by omega)
      rwa [show k + min (room cons p₁.prod) p₁.left.length =
        min (room cons p.prod) p.left.length by omega] at hall
    · by_cases hsegs₁ : p₁.segs = []
      · -- that was the last segment, and it was not empty
        obtain ⟨hnext, hseg⟩ | ⟨hsame, -⟩ := hnext
        · rw [hsegs₁] at hnext
          have hleft : p.left.length = k := by
            rw [left, hsegs, ← hnext, List.flatten_cons, List.flatten_nil, List.append_nil,
              List.length_drop, hseg]
          by_cases hlt : k < room cons p.prod
          · exact .inl (hleft ▸ hlt)
          · refine .inr ⟨by omega, ?_⟩
            rw [hsegs, ← hnext]
            intro heq
            obtain rfl : seg = [] := Option.some.inj heq
            rw [List.length_nil] at hseg
            omega
        · rw [hsegs₁, hsegs] at hsame
          cases hsame
      · rcases hnil hdone with hnone | hlt | ⟨heq, hlast⟩
        · exact absurd hnone hsegs₁
        · exact .inl (by omega)
        · obtain ⟨before, hbefore⟩ := hsuffix₁
          refine .inr ⟨by omega, ?_⟩
          rwa [← hbefore, List.getLast?_append_of_ne_nil _ hsegs₁]
    · obtain ⟨hsuffix, hle⟩ := hcons hmore
      exact ⟨hsuffix.trans hsuffix₁, by omega⟩

end TxPos

/-! ## The half that receives -/

namespace Xenbus
variable {s s' : Xenbus} {again : Bool} {r : Nat}

/-- Nothing has changed for the half that transmits. -/
structure SameTx (s s' : Xenbus) : Prop where
  pending : s'.pending = s.pending
  current : s'.currentTxReq = s.currentTxReq
  cons : s'.sharedBuf.reqCons = s.sharedBuf.reqCons
  pos : ∀ r, s'.txPos r = s.txPos r

theorem SameTx.refl (s : Xenbus) : s.SameTx s := ⟨rfl, rfl, rfl, fun _ => rfl⟩

theorem SameTx.trans {s'' : Xenbus} (h : s.SameTx s') (h' : s'.SameTx s'') : s.SameTx s'' :=
  ⟨h'.pending.trans h.pending, h'.current.trans h.current, h'.cons.trans h.cons,
    fun r => (h'.pos r).trans (h.pos r)⟩

theorem sameTx_setReq {q : PendingReq} (hseg : q.nextTxSeg = (s.reqs r).nextTxSeg)
    (hoff : q.txSgOff = (s.reqs r).txSgOff) : s.SameTx (s.setReq r q) := by
  refine ⟨rfl, rfl, rfl, fun j => ?_⟩
  by_cases hj : j = r
  · subst hj
    rw [txPos, reqs_setReq_self, hseg, hoff]
    rfl
  · rw [txPos, reqs_setReq_of_ne s q hj]
    rfl

theorem sameTx_fireWatchByIdent (s : Xenbus) (ident : List UInt8) :
    s.SameTx (s.fireWatchByIdent ident) := by
  rw [fireWatchByIdent]
  split
  · exact ⟨rfl, rfl, rfl, fun _ => rfl⟩
  · exact .refl s

theorem sameTx_receiveWatch {hdr : XsdSockmsg} (h : s.receiveWatch hdr = some (again, s')) :
    s.SameTx s' := by
  have hconsume : ∀ {t : Xenbus} (buf : UInt32), s.SameTx t →
      s.SameTx { t with sharedBuf := { s.sharedBuf with rspCons := buf } } :=
    fun buf ht => ⟨ht.pending, ht.current, rfl, fun r => by
      have hpos := ht.pos r
      rw [txPos, txPos, TxPos.mk.injEq] at hpos
      rw [txPos, txPos, TxPos.mk.injEq]
      exact ⟨hpos.1, hpos.2.1, rfl, rfl⟩⟩
  rw [receiveWatch] at h
  dsimp only at h
  split at h
  · cases h
    exact .refl s
  split at h
  · cases h
  split at h
  · cases h
  split at h
  · cases h
    exact hconsume _ (.refl s)
  split at h
  · cases h
  split at h
  · cases h
    exact hconsume _ (.refl s)
  split at h
  · cases h
  split at h
  · cases h
  · cases h
    refine hconsume _ ?_
    split
    · exact sameTx_fireWatchByIdent s _
    · exact .refl s

theorem sameTx_receiveHeader {hdr : XsdSockmsg} {mem : Option (Nat → UInt8)}
    (h : s.receiveHeader hdr mem = some (again, s')) : s.SameTx s' := by
  rw [receiveHeader] at h
  dsimp only at h
  split at h
  · cases h
  split at h
  · cases h
    exact ⟨rfl, rfl, rfl, fun _ => rfl⟩
  · next r _ =>
    cases h
    have hreply : ((s.reqs r).startReply hdr mem).nextTxSeg = (s.reqs r).nextTxSeg ∧
        ((s.reqs r).startReply hdr mem).txSgOff = (s.reqs r).txSgOff := by
      unfold PendingReq.startReply
      split
      · exact ⟨rfl, rfl⟩
      · split <;> exact ⟨rfl, rfl⟩
    exact (sameTx_setReq hreply.1 hreply.2).trans ⟨rfl, rfl, rfl, fun _ => rfl⟩

theorem sameTx_setReq_rspCons {q : PendingReq} (cons : UInt32)
    (hseg : q.nextTxSeg = (s.reqs r).nextTxSeg) (hoff : q.txSgOff = (s.reqs r).txSgOff) :
    s.SameTx ({ s with sharedBuf := { s.sharedBuf with rspCons := cons } }.setReq r q) :=
  (sameTx_setReq hseg hoff).trans ⟨rfl, rfl, rfl, fun _ => rfl⟩

theorem sameTx_receiveBody (h : s.receiveBody r = some (again, s')) : s.SameTx s' := by
  rw [receiveBody] at h
  dsimp only at h
  split at h
  · cases h
  · next req hreq =>
    have hsame : req.nextTxSeg = (s.reqs r).nextTxSeg ∧ req.txSgOff = (s.reqs r).txSgOff := by
      split at hreq
      · obtain ⟨bs, -, rfl⟩ := Option.map_eq_some_iff.mp hreq
        exact ⟨rfl, rfl⟩
      · cases hreq
        exact ⟨rfl, rfl⟩
    split at h
    · cases h
    · cases h
      split
      · refine SameTx.trans (sameTx_setReq_rspCons _ ?_ ?_) ⟨rfl, rfl, rfl, fun _ => rfl⟩
        · exact hsame.1
        · exact hsame.2
      · exact sameTx_setReq_rspCons _ hsame.1 hsame.2

/-- **`receive_from_xenstored`** leaves the half that transmits alone. -/
theorem sameTx_receiveFromXenstored {mem : UInt32 → Option (Nat → UInt8)}
    (h : s.receiveFromXenstored mem = some (again, s')) : s.SameTx s' := by
  rw [receiveFromXenstored] at h
  dsimp only at h
  split at h
  · cases h
    exact ⟨rfl, rfl, rfl, fun _ => rfl⟩
  split at h
  · exact sameTx_receiveBody h
  split at h
  · cases h
    exact .refl s
  split at h
  · cases h
  split at h
  · exact sameTx_receiveWatch h
  · exact sameTx_receiveHeader h

/-! ## The half that transmits -/

/-- The bytes of a request that are still to be sent. -/
def left (s : Xenbus) (r : Nat) : List UInt8 := (s.txPos r).left

/-- The bytes that xenstored has not read yet. -/
def onRing (s : Xenbus) : List UInt8 :=
  get xenstoreRingSize s.sharedBuf.req s.sharedBuf.reqCons.toNat
    (s.sharedBuf.reqProd - s.sharedBuf.reqCons).toNat

/-- How many bytes more there is room for. -/
def room (s : Xenbus) : Nat := Xenutil.room s.sharedBuf.reqCons s.sharedBuf.reqProd

/-- The rest of the current request fits exactly, and ends in an empty segment. -/
def Jams (s : Xenbus) : Prop :=
  ∃ r, s.currentTxReq = some r ∧ (s.left r).length = s.room ∧
    (s.reqs r).nextTxSeg.getLast? = some []

theorem SameTx.left (h : s.SameTx s') (r : Nat) : s'.left r = s.left r :=
  congrArg TxPos.left (h.pos r)

section
variable {p : TxPos} {j : Nat}

@[simp] theorem txPos_setTxPos_self : (s.setTxPos r p).txPos r = p := by
  rw [txPos, setTxPos, reqs_setReq_self]

theorem left_setTxPos_of_ne (h : j ≠ r) : (s.setTxPos r p).left j = s.left j := by
  rw [left, left, TxPos.left, TxPos.left, txPos, txPos, setTxPos, reqs_setReq_of_ne _ _ h]

theorem valid_setTxPos_of_ne (h : j ≠ r) (hv : (s.txPos j).Valid) :
    ((s.setTxPos r p).txPos j).Valid := by
  rw [txPos, setTxPos, reqs_setReq_of_ne _ _ h]
  exact ⟨hv.short, hv.offset⟩

/-- What `advance_tx_req` does to a request. -/
theorem advanceTxReq_spec (hv : (s.txPos r).Valid)
    (hahead : (s.sharedBuf.reqProd - s.sharedBuf.reqCons).toNat ≤ xenstoreRingSize) :
    ∃ p : TxPos, s.advanceTxReq r = some (p.prod != s.sharedBuf.reqProd, s.setTxPos r p) ∧
      p.Valid ∧ TxPos.Sent (min s.room (s.left r).length) (s.txPos r) p ∧
      (p.segs = [] → (s.reqs r).nextTxSeg = [] ∨ (s.left r).length < s.room ∨
        (s.left r).length = s.room ∧ (s.reqs r).nextTxSeg.getLast? ≠ some []) ∧
      (p.segs ≠ [] → p.segs <:+ (s.reqs r).nextTxSeg ∧ s.room ≤ (s.left r).length) := by
  obtain ⟨p, hloop, hp, hsent, hnil, hcons⟩ := TxPos.advanceLoop_spec hv hahead
  refine ⟨p, ?_, hp, hsent, hnil, hcons⟩
  rw [advanceTxReq, hloop]

/-- What has been sent is on the ring. -/
theorem onRing_setTxPos {k : Nat} (hahead : (s.sharedBuf.reqProd - s.sharedBuf.reqCons).toNat ≤
    xenstoreRingSize) (hk : k ≤ s.room) (h : TxPos.Sent k (s.txPos r) p) :
    (s.setTxPos r p).onRing = s.onRing ++ (s.left r).take k := by
  have hlen : ((s.left r).take k).length = k := by
    rw [List.length_take]
    exact Nat.min_eq_left h.le
  have hindex : s.sharedBuf.reqProd.toNat % xenstoreRingSize = (s.sharedBuf.reqCons.toNat +
      (s.sharedBuf.reqProd - s.sharedBuf.reqCons).toNat) % xenstoreRingSize := by
    have hmod := toNat_add_ofNat s.sharedBuf.reqCons
      (s.sharedBuf.reqProd - s.sharedBuf.reqCons).toNat
    rwa [UInt32.ofNat_toNat, UInt32.add_comm, UInt32.sub_add_cancel] at hmod
  have hfit := room_add hahead
  change get xenstoreRingSize p.ring s.sharedBuf.reqCons.toNat
    (p.prod - s.sharedBuf.reqCons).toNat = _
  rw [h.prod, h.ring]
  change get xenstoreRingSize (put xenstoreRingSize s.sharedBuf.req s.sharedBuf.reqProd.toNat
    ((s.left r).take k)) s.sharedBuf.reqCons.toNat
      (s.sharedBuf.reqProd + UInt32.ofNat k - s.sharedBuf.reqCons).toNat = _
  rw [ahead_add hahead hk, put_congr hindex]
  have hget := get_put_append (m := s.sharedBuf.req) (i := s.sharedBuf.reqCons.toNat)
    (show (s.sharedBuf.reqProd - s.sharedBuf.reqCons).toNat + ((s.left r).take k).length ≤
      xenstoreRingSize by rw [hlen, ← hfit]; exact Nat.add_le_add_left hk _)
  rwa [hlen] at hget

theorem ahead_setTxPos {k : Nat} (hahead : (s.sharedBuf.reqProd - s.sharedBuf.reqCons).toNat ≤
    xenstoreRingSize) (hk : k ≤ s.room) (h : TxPos.Sent k (s.txPos r) p) :
    ((s.setTxPos r p).sharedBuf.reqProd - (s.setTxPos r p).sharedBuf.reqCons).toNat ≤
      xenstoreRingSize := by
  have hfit := room_add hahead
  change (p.prod - s.sharedBuf.reqCons).toNat ≤ _
  rw [h.prod]
  change (s.sharedBuf.reqProd + UInt32.ofNat k - s.sharedBuf.reqCons).toNat ≤ _
  rw [ahead_add hahead hk, ← hfit]
  exact Nat.add_le_add_left hk _

end

/-- The current request is on the ring whole. -/
structure Stuck (s : Xenbus) (r : Nat) : Prop where
  current : s.currentTxReq = some r
  left : s.left r = []
  valid : (s.txPos r).Valid
  ahead : (s.sharedBuf.reqProd - s.sharedBuf.reqCons).toNat ≤ xenstoreRingSize

/-- **Such a request stays the current one**, whatever room there is, ... -/
theorem Stuck.round (h : s.Stuck r) : ∃ s', s.transmitRound = some (false, s') ∧ s'.Stuck r := by
  obtain ⟨p, hadvance, hp, hsent, -, -⟩ := advanceTxReq_spec h.valid h.ahead
  rw [h.left, List.length_nil, Nat.min_zero] at hsent
  have hstill : (p.prod != s.sharedBuf.reqProd) = false := by
    rw [hsent.prod]
    exact bne_eq_false_iff_eq.mpr (UInt32.add_zero _)
  refine ⟨s.setTxPos r p, ?_, h.current, ?_, ?_, ahead_setTxPos h.ahead (Nat.zero_le _) hsent⟩
  · rw [transmitRound, h.current]
    dsimp only
    rw [hadvance, hstill]
  · rw [Xenbus.left, txPos_setTxPos_self, hsent.left]
    exact h.left
  · rw [txPos_setTxPos_self]
    exact hp

/-- ... also when xenstored has read it. -/
theorem Stuck.consume {k : Nat} (h : s.Stuck r) (hk : k ≤ s.onRing.length) :
    Stuck { s with
      sharedBuf := { s.sharedBuf with reqCons := s.sharedBuf.reqCons + UInt32.ofNat k } } r := by
  rw [onRing, length_get] at hk
  refine ⟨h.current, h.left, ⟨h.valid.short, h.valid.offset⟩, ?_⟩
  dsimp only
  rw [ahead_consume hk]
  exact Nat.le_trans (Nat.sub_le _ _) h.ahead

/-- A round of the loop that transmits writes to a request, the ring and the current request. -/
theorem transmitRound_cases {s s' : Xenbus} {again : Bool} (h : s.transmitRound = some (again, s')) :
    s' = s ∨ ∃ r p current, s' = { s.setTxPos r p with currentTxReq := current } := by
  rw [transmitRound] at h
  split at h
  · cases h
    exact .inl rfl
  · next r hr =>
    rw [advanceTxReq] at h
    cases hloop : advanceLoop s.sharedBuf.reqCons (s.txPos r) with
    | none =>
      rw [hloop] at h
      cases h
    | some p =>
      rw [hloop] at h
      dsimp only at h
      cases hmoved : p.prod != s.sharedBuf.reqProd with
      | false =>
        rw [hmoved] at h
        cases h
        exact .inr ⟨r, p, s.currentTxReq, rfl⟩
      | true =>
        rw [hmoved] at h
        dsimp only at h
        split at h
        · cases h
          exact .inr ⟨r, p, _, rfl⟩
        · cases h
          exact .inr ⟨r, p, s.currentTxReq, rfl⟩

end Xenbus

end V4v.Xenutil
