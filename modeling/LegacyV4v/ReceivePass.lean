import LegacyV4v.XenbusClient

/-! # The loop that receives

`xenbus_dpc_func` calls `receive_from_xenstored` until a call says that there was no progress.  A call
that has bytes to skip says that there was even if none are there: the loop is then run for ever, with
the ring lock held.  A call that completes a reply without a payload says that there was none: what is
behind that reply in the ring stays there.  Nothing else goes wrong, whatever the ring has and
whatever memory is found. -/
namespace V4v.Xenutil
open GuardedRun IndexedRing

namespace Xenbus

/-- The body of the loop; `mem` is the memory that is found in each round. -/
def receiveRound (austere : Bool) (mem : ℕ → Option (Nat → UInt8)) (u : Xenbus × ℕ) :
    Option (Bool × (Xenbus × ℕ)) :=
  (u.1.receiveIn austere (mem u.2)).map fun (again, t) => (again, (t, u.2 + 1))

/-- `xenbus_dpc_func` transmits, and then receives from the state `s₁` on. -/
structure DpcFunc (austere : Bool) (mem : ℕ → Option (Nat → UInt8)) (s s₁ s' : Xenbus) : Prop where
  transmits : Loop transmitRound s s₁
  receives : ∃ n, Loop (receiveRound austere mem) (s₁, 0) (s', n)

/-- There are bytes to skip, and the ring is empty. -/
def Spins (s : Xenbus) : Prop := s.consResponseDiscardBytes ≠ 0 ∧ s.avail = 0

/-- `rsp_cons` is moved, or there is less to skip. -/
def Progress (s s' : Xenbus) : Prop :=
  s'.sharedBuf.rspCons ≠ s.sharedBuf.rspCons ∨
    s'.consResponseDiscardBytes < s.consResponseDiscardBytes

/-- The loop ends, and every call that asks for another one has made progress. -/
structure Ending (austere : Bool) (mem : ℕ → Option (Nat → UInt8)) (s : Xenbus) : Prop where
  progress : ∀ u k, Visits (receiveRound austere mem) (s, 0) (u, k) →
    ∀ t, u.receiveIn austere (mem k) = some (true, t) → u.Progress t
  halts : Halts (receiveRound austere mem) (s, 0)

/-- A message is at the head of the unread bytes, whole: what is missing of the current reply, a
watch event, or a reply to a pending request. -/
def HeadComplete (s : Xenbus) : Prop :=
  s.consResponseDiscardBytes = 0 ∧
    match s.currentRxReq with
    | some r => (s.reqs r).replyHeader.len.toNat ≤ (s.reqs r).replyPayloadReceived + s.avail
    | none => sizeofSockmsg + s.header.len.toNat ≤ s.avail ∧
        (s.header.type = xsWatchEvent ∨ s.findPendingRxReq s.header.reqId ≠ none)

/-- The current reply has all of its payload, and behind it another message is there whole. -/
def Stalls (s : Xenbus) : Prop :=
  (∃ r, s.currentRxReq = some r ∧
    (s.reqs r).replyPayloadReceived = (s.reqs r).replyHeader.len.toNat) ∧
  HeadComplete { s with currentRxReq := none }

variable {s s₁ s' t u : Xenbus} {mem : Option (Nat → UInt8)} {mems : ℕ → Option (Nat → UInt8)}
  {austere again : Bool} {k n : ℕ}

theorem receiveRound_eq_some {v : Xenbus × ℕ} (h : receiveRound austere mems (u, k) = some (again, v)) :
    u.receiveIn austere (mems k) = some (again, v.1) ∧ v.2 = k + 1 := by
  obtain ⟨⟨b, w⟩, hw, heq⟩ := Option.map_eq_some_iff.mp h
  obtain ⟨rfl, rfl⟩ := Prod.mk.inj heq
  exact ⟨hw, rfl⟩

/-! ## Whether the loop ends -/

/-- Skipping nothing changes nothing. -/
theorem Spins.call (h : s.Spins) : s.receiveIn austere mem = some (true, s) := by
  obtain ⟨hdiscard, havail⟩ := h
  have hmin : min s.consResponseDiscardBytes (s.sharedBuf.rspProd - s.sharedBuf.rspCons) = 0 := by
    rw [← UInt32.toNat_inj, toNat_min]
    exact Nat.min_eq_zero_iff.mpr (.inr havail)
  rw [receiveIn]
  dsimp only
  rw [if_pos hdiscard, hmin, UInt32.add_zero, UInt32.sub_zero]

/-- **A call makes progress** unless it spins. -/
theorem Call.progress (h : s.Call mem true s') (hs : ¬ s.Spins) :
    s.Progress s' ∧ s'.avail < s.avail := by
  obtain ⟨hmoved, hless⟩ := h.moved fun hdiscard hzero => hs ⟨hdiscard, hzero⟩
  exact ⟨.inl hmoved, hless⟩

/-- **The loop ends**, with progress in every call that asks for another one, if and only if no call
begins with bytes to skip and an empty ring. -/
theorem receive_loop_ends (austere : Bool) (mems : ℕ → Option (Nat → UInt8)) (s : Xenbus) :
    s.Ending austere mems ↔ ∀ u k, Visits (receiveRound austere mems) (s, 0) (u, k) → ¬ u.Spins := by
  refine ⟨fun h u k hu hspins => ?_, fun h => ⟨fun u k hu t ht => ?_, ?_⟩⟩
  · rcases h.progress u k hu u hspins.call with hmoved | hless
    · exact hmoved rfl
    · exact UInt32.lt_irrefl _ hless
  · exact ((call_of_receiveIn ht).progress (h u k hu)).1
  · refine halts_of_rank (fun v => v.1.avail) fun v w hv hb => ?_
    obtain ⟨hw, -⟩ := receiveRound_eq_some hb
    exact ((call_of_receiveIn hw).progress (h v.1 v.2 hv)).2

/-- From a call that spins on, the loop never ends. -/
theorem Spins.not_halts (h : s.Spins) (k : ℕ) : ¬ Halts (receiveRound austere mems) (s, k) := by
  intro hhalts
  refine hhalts.not_of_forever (P := fun v => v.1.Spins) (fun v hv => ⟨(v.1, v.2 + 1), ?_, hv⟩) h
  rw [receiveRound, hv.call]
  rfl

/-! ## What the loop leaves -/

/-- Between two messages, the pending requests and the bytes that are there matter. -/
theorem HeadComplete.congr (hdiscard : s'.consResponseDiscardBytes = s.consResponseDiscardBytes)
    (hbuf : s'.sharedBuf = s.sharedBuf) (hs : s.currentRxReq = none) (hs' : s'.currentRxReq = none)
    (hpending : s'.pending = s.pending) (hids : ∀ j, (s'.reqs j).id = (s.reqs j).id) :
    s'.HeadComplete ↔ s.HeadComplete := by
  have havail := avail_of_sharedBuf hbuf
  have hheader : s'.header = s.header := by
    rw [header, rspBytes, havail, hbuf, header, rspBytes]
  rw [HeadComplete, HeadComplete, hs, hs', hdiscard]
  dsimp only
  rw [havail, hheader, find_congr hpending hids]

/-- **The last call** leaves a message behind if and only if it stalls. -/
theorem Call.last (h : s.Call mem again s') (hagain : again = false) :
    s'.HeadComplete ↔ s.Stalls := by
  have hno : ∀ {P : Prop}, s.currentRxReq = none → (s.HeadComplete → P) → ¬ P →
      (s.HeadComplete ↔ s.Stalls) := fun hcurrent hp hnp =>
    iff_of_false (fun hc => hnp (hp hc)) fun ⟨⟨r, hr, _⟩, _⟩ => by
      rw [hcurrent] at hr
      cases hr
  cases h with
  | discard _ _ => cases hagain
  | @body r n hdiscard hcurrent hle hn =>
    obtain rfl : n = 0 := bne_eq_false_iff_eq.mp hagain
    have hconsume : (s.consume 0).sharedBuf = s.sharedBuf := by
      rw [consume, show UInt32.ofNat 0 = 0 from rfl, UInt32.add_zero]
    split
    · next hend =>
      have hstalls : s.Stalls ↔ HeadComplete { s with currentRxReq := none } :=
        and_iff_right ⟨r, hcurrent, hend⟩
      rw [hstalls]
      exact HeadComplete.congr rfl hconsume rfl rfl rfl (ids_setReq (s := s.consume 0)
        (q := { s.takeReply (s.reqs r) 0 with xenbusReplied := true }) (fun _ => rfl)
        (id_takeReply s (s.reqs r) 0))
    · next hnot =>
      refine iff_of_false (fun hc => ?_) fun ⟨⟨j, hj, heq⟩, _⟩ => ?_
      · have hc := hc.2
        change match s.currentRxReq with
          | some r' => _
          | none => _ at hc
        rw [hcurrent] at hc
        dsimp only at hc
        rw [reqs_setReq_self, replyHeader_takeReply] at hc
        change (s.reqs r).replyHeader.len.toNat ≤ (s.reqs r).replyPayloadReceived + 0 +
          ((s.consume 0).setReq r _).avail at hc
        have hempty : ((s.consume 0).setReq r (s.takeReply (s.reqs r) 0)).avail = s.avail :=
          avail_of_sharedBuf hconsume
        rw [hempty] at hc
        omega
      · obtain rfl := Option.some.inj (hcurrent.symm.trans hj)
        exact hnot heq
  | short hdiscard hcurrent hshort =>
    refine hno hcurrent (fun hc => ?_) (Nat.not_le_of_lt hshort)
    have hc := hc.2
    rw [hcurrent] at hc
    exact Nat.le_trans (Nat.le_add_right _ _) hc.1
  | half hdiscard hcurrent hle hwatch hpart =>
    refine hno hcurrent (fun hc => ?_) (Nat.not_le_of_lt hpart)
    have hc := hc.2
    rw [hcurrent] at hc
    exact hc.1
  | watch _ _ _ _ => cases hagain
  | unknown _ _ _ _ _ => cases hagain
  | known _ _ _ _ _ => cases hagain

/-- A call that stalls comes back, and leaves the message behind. -/
theorem Stalls.call (h : s.Stalls) (hwindow : s.avail ≤ xenstoreRingSize) :
    ∃ s', s.receiveIn false mem = some (false, s') ∧ s'.HeadComplete := by
  have hstalls := h
  obtain ⟨⟨r, hcurrent, hend⟩, hdiscard, -⟩ := h
  have hzero : 0 = min s.avail ((s.reqs r).replyHeader.len.toNat - (s.reqs r).replyHeader.len.toNat) := by
    rw [Nat.sub_self, Nat.min_zero]
  have hcall : s.receiveIn false mem = some (false, _) :=
    receiveFromXenstored_body (s := s) (fun _ => mem) hdiscard hcurrent hend (Nat.le_refl _) hzero hwindow
  exact ⟨_, hcall, ((call_of_receiveIn hcall).last rfl).mpr hstalls⟩

/-- A call that stalls is the last one. -/
theorem Stalls.last (hs : s.Stalls) (h : s.Call mem again s') : again = false := by
  obtain ⟨⟨r, hr, hend⟩, hdiscard', -⟩ := hs
  have hdiscard : s.consResponseDiscardBytes = 0 := hdiscard'
  have hno : ∀ {P : Prop}, s.currentRxReq = none → P := fun hcurrent => by
    rw [hr] at hcurrent
    cases hcurrent
  cases h with
  | discard hne _ => exact absurd hdiscard hne
  | @body j n _ hcurrent _ hn =>
    obtain rfl := Option.some.inj (hcurrent.symm.trans hr)
    rw [hend, Nat.sub_self, Nat.min_zero] at hn
    rw [hn]
    rfl
  | short _ hcurrent _ => exact hno hcurrent
  | half _ hcurrent _ _ _ => exact hno hcurrent
  | watch _ hcurrent _ _ => exact hno hcurrent
  | unknown _ hcurrent _ _ _ => exact hno hcurrent
  | known _ hcurrent _ _ _ => exact hno hcurrent

end Xenbus

namespace Client
open Xenbus

/-- The header of a reply that nobody waits for; its payload of three bytes is not there. -/
theorem unknown_reply_spins :
    ¬ ∀ (c : Client) (austere : Bool) (mems : ℕ → Option (Nat → UInt8)),
      Reached c → c.bus.Ending austere mems := by
  intro hall
  obtain ⟨bus, hbus⟩ : ∃ bus, bus = { idle.bus with
      sharedBuf := idle.bus.sharedBuf.answer (XsdSockmsg.bytes ⟨11, 7, 0, 3⟩) } := ⟨_, rfl⟩
  have hanswer : Reached ⟨bus, idle.txIo⟩ := hbus ▸ reached_idle.answer (by decide)
  have hbuf : bus.sharedBuf = idle.bus.sharedBuf.answer (XsdSockmsg.bytes ⟨11, 7, 0, 3⟩) := by
    rw [hbus]
  have hbytes : bus.rspBytes = XsdSockmsg.bytes ⟨11, 7, 0, 3⟩ ++ [] := by
    rw [rspBytes_answer hbuf (by decide), List.append_nil]
  have hcall : bus.receiveIn false none = some (true, { bus.consume sizeofSockmsg with
      consResponseDiscardBytes := 3 }) := by
    rw [receiveIn_false, receiveFromXenstored_header (fun _ => none) (by rw [hbus]; rfl)
      (by rw [hbus]; rfl) hbytes, if_neg (by decide)]
    exact receiveHeader_unknown (by decide) (by rw [hbus]; rfl)
  have hspins : Spins { bus.consume sizeofSockmsg with consResponseDiscardBytes := 3 } := by
    refine ⟨show (3 : UInt32) ≠ 0 by decide, ?_⟩
    have havail : bus.avail = sizeofSockmsg := avail_answer hbuf (by decide)
    change (bus.consume sizeofSockmsg).avail = 0
    rw [avail_consume (Nat.le_of_eq havail.symm), havail, Nat.sub_self]
  exact hspins.not_halts 0 (hall _ false (fun _ => none) (.next hanswer trivial (.receive hcall))).halts

end Client

end V4v.Xenutil
