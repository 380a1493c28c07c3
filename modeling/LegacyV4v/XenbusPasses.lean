import LegacyV4v.XenbusReceive

/-! # Chunks and passes

The messages of xenstored come in chunks, and between two chunks `xenbus_dpc_func` receives as much
as it can.  A pass that skips the payload of a reply with an unknown id is never over when the
payload has not arrived whole: skipping nothing counts as progress.  As long as no pass begins in
such a place every pass is over, and behind the last chunk a few passes bring all messages to where
they belong. -/
namespace V4v.Xenutil
open GuardedRun IndexedRing

/-- `xenbus_dpc_func` receives as much as it can; `mem` is the memory that is found for replies. -/
def Xenbus.Receives (mem : UInt32 → Option (Nat → UInt8)) (s s' : Xenbus) : Prop :=
  Loop (fun s : Xenbus => s.receiveFromXenstored mem) s s'

/-! ## One pass -/

/-- What a pass leaves of the messages of `t`. -/
structure Passed (s₀ : Xenbus) (done : List XsMessage) (t : Reader) (coming : List UInt8)
    (s' : Xenbus) (t' : Reader) (read : List XsMessage) : Prop where
  follows : Follows s₀ (done ++ read) t' s' coming
  messages : read ++ (t'.mode.current ++ t'.rest) = t.mode.current ++ t.rest
  rest : t'.AtRest
  last : t.Whole → t'.left = 0 ∨ read ≠ []

variable {s₀ s s' : Xenbus} {done read : List XsMessage} {t t' : Reader} {coming : List UInt8}
  {mem : UInt32 → Option (Nat → UInt8)} {again : Bool}

/-- The messages stay what they are. -/
theorem WellFormed.call (h : WellFormed s₀ (done ++ (t.mode.current ++ t.rest)))
    (hcalled : Reader.Called s₀.known t again read t') :
    WellFormed s₀ (done ++ read ++ (t'.mode.current ++ t'.rest)) := by
  rwa [List.append_assoc, hcalled.messages]

/-- **A pass is over** if the driver does not starve. -/
theorem Follows.pass (h : Follows s₀ done t s coming)
    (hwf : WellFormed s₀ (done ++ (t.mode.current ++ t.rest))) (hfed : ¬ t.Starves s₀.known)
    (mem : UInt32 → Option (Nat → UInt8)) :
    ∃ s', s.Receives mem s' ∧ ∃ t' read, Passed s₀ done t coming s' t' read := by
  -- every call but the last one uses up bytes
  obtain ⟨a, ha⟩ : ∃ a, t.avail = a := ⟨_, rfl⟩
  induction a using Nat.strong_induction_on generalizing s done t with
  | h a ih =>
    have hcalled := Reader.called s₀.known h.valid
    obtain ⟨s₁, hcall, hfollows⟩ := h.call hwf mem
    cases hagain : (t.call s₀.known).1 with
    | false =>
      rw [hagain] at hcall
      obtain ⟨-, hrest, hlast⟩ := hcalled.last hagain
      exact ⟨s₁, .last hcall, _, _, hfollows, hcalled.messages, hrest, hlast⟩
    | true =>
      rw [hagain] at hcall
      obtain ⟨hstarves, hless⟩ := hcalled.more hagain
      obtain ⟨s', hloop, t', read, hpassed⟩ := ih _ (ha ▸ hless.resolve_left hfed) hfollows
        (hwf.call hcalled) (fun h => hfed (hstarves.mpr h)) rfl
      refine ⟨s', .again hcall hloop, t', (t.call s₀.known).2.1 ++ read, ?_, ?_, hpassed.rest,
        fun hwhole => ?_⟩
      · rw [← List.append_assoc]
        exact hpassed.follows
      · rw [List.append_assoc, hpassed.messages, hcalled.messages]
      · refine (hpassed.last (hcalled.whole hwhole)).imp_right fun hread hnil => hread ?_
        exact (List.append_eq_nil_iff.mp hnil).2

/-- **And only then.** -/
theorem Follows.not_starves (h : Follows s₀ done t s coming)
    (hwf : WellFormed s₀ (done ++ (t.mode.current ++ t.rest))) (hpass : s.Receives mem s') :
    ¬ t.Starves s₀.known := by
  unfold Xenbus.Receives at hpass
  induction hpass generalizing done t with
  | again hs _ ih =>
    have hcalled := Reader.called s₀.known h.valid
    obtain ⟨s₁, hcall, hfollows⟩ := h.call hwf mem
    obtain ⟨hagain, rfl⟩ := Prod.mk.inj (Option.some.inj (hcall.symm.trans hs))
    exact fun hstarves => ih hfollows (hwf.call hcalled) ((hcalled.more hagain).1.mp hstarves)
  | last hs =>
    have hcalled := Reader.called s₀.known h.valid
    obtain ⟨s₁, hcall, -⟩ := h.call hwf mem
    obtain ⟨hagain, -⟩ := Prod.mk.inj (Option.some.inj (hcall.symm.trans hs))
    exact (hcalled.last hagain).1

/-- What any pass leaves. -/
theorem Follows.passed (h : Follows s₀ done t s coming)
    (hwf : WellFormed s₀ (done ++ (t.mode.current ++ t.rest))) (hpass : s.Receives mem s') :
    ∃ t' read, Passed s₀ done t coming s' t' read := by
  obtain ⟨s₁, hloop, hpassed⟩ := h.pass hwf (h.not_starves hwf hpass) mem
  rwa [hpass.unique hloop]

/-! ## Chunks, and what is transmitted -/

/-- Bytes of xenstored come in. -/
def Xenbus.arrive (s : Xenbus) (bytes : List UInt8) : Xenbus :=
  { s with sharedBuf := { s.sharedBuf with
      rsp := put xenstoreRingSize s.sharedBuf.rsp s.sharedBuf.rspProd.toNat bytes
      rspProd := s.sharedBuf.rspProd + UInt32.ofNat bytes.length } }

theorem Xenbus.avail_arrive {bytes : List UInt8} (h : s.avail + bytes.length ≤ xenstoreRingSize) :
    (s.arrive bytes).avail = s.avail + bytes.length := by
  have h1024 : xenstoreRingSize = 1024 := rfl
  change (s.sharedBuf.rspProd + UInt32.ofNat bytes.length - s.sharedBuf.rspCons).toNat = _
  rw [show s.sharedBuf.rspProd + UInt32.ofNat bytes.length - s.sharedBuf.rspCons =
    s.sharedBuf.rspProd - s.sharedBuf.rspCons + UInt32.ofNat bytes.length by
      rw [UInt32.sub_eq_add_neg, UInt32.sub_eq_add_neg, UInt32.add_assoc, UInt32.add_assoc,
        UInt32.add_comm (UInt32.ofNat _)]]
  exact toNat_add_of_lt (by change s.avail + _ < _; omega)

theorem Xenbus.rspBytes_arrive {bytes : List UInt8}
    (h : s.avail + bytes.length ≤ xenstoreRingSize) :
    (s.arrive bytes).rspBytes = s.rspBytes ++ bytes := by
  have hindex : s.sharedBuf.rspProd.toNat % xenstoreRingSize =
      (s.sharedBuf.rspCons.toNat + s.avail) % xenstoreRingSize := by
    have hmod := toNat_add_ofNat s.sharedBuf.rspCons s.avail
    rwa [Xenbus.avail, UInt32.ofNat_toNat, UInt32.add_comm, UInt32.sub_add_cancel] at hmod
  rw [Xenbus.rspBytes, Xenbus.avail_arrive h]
  change get _ (put _ s.sharedBuf.rsp s.sharedBuf.rspProd.toNat bytes) s.sharedBuf.rspCons.toNat _ =
    get _ s.sharedBuf.rsp s.sharedBuf.rspCons.toNat _ ++ _
  rw [put_congr hindex, get_put_append h]

/-- A chunk comes in. -/
theorem Follows.arrive {n : Nat} (h : Follows s₀ done t s coming) (hn : n ≤ coming.length)
    (hroom : s.avail + n ≤ xenstoreRingSize) :
    Follows s₀ done { t with avail := t.avail + n } (s.arrive (coming.take n))
      (coming.drop n) := by
  have hlen : (coming.take n).length = n := List.length_take_of_le hn
  have hfit : s.avail + (coming.take n).length ≤ xenstoreRingSize := hlen.symm ▸ hroom
  have havail := Xenbus.avail_arrive hfit
  have hnowrap := h.wire.nowrap
  refine ⟨⟨?_, ?_, ?_, ?_⟩, ⟨h.same.pending, h.same.watches, h.same.allow, h.same.ids⟩, ?_,
    h.requests, h.triggered⟩
  · rw [Xenbus.rspBytes_arrive hfit, List.append_assoc, List.take_append_drop]
    exact h.wire.bytes
  · rw [havail, hlen, h.wire.avail]
  · rwa [havail]
  · rw [havail, hlen, List.length_drop]
    change s.sharedBuf.rspCons.toNat + _ < _
    omega
  · have hcontrol := h.control
    obtain ⟨mode, rest, a⟩ := t
    cases mode <;> exact hcontrol

/-- What has been sent of a request is of no concern to its reply. -/
theorem Request.of_tx {mode : RxMode} {r : Nat} {q : PendingReq} {off : UInt32}
    {segs : List (List UInt8)} (h : Request s₀ done mode r q) :
    Request s₀ done mode r { q with nextTxSeg := segs, txSgOff := off } := by
  refine ⟨fun m hm hans => ?_, fun m k hmode hans => ?_, fun hnone => ?_⟩
  · obtain ⟨hholds, hreplied⟩ := h.delivered m hm hans
    exact ⟨⟨hholds.header, hholds.received, hholds.size, hholds.sized, hholds.content⟩, hreplied⟩
  · obtain ⟨hholds, hreplied⟩ := h.receiving m k hmode hans
    exact ⟨⟨hholds.header, hholds.received, hholds.size, hholds.sized, hholds.content⟩, hreplied⟩
  · obtain ⟨hpayload, hsize, hreplied⟩ := h.waiting hnone
    exact ⟨hpayload, hsize, hreplied⟩

/-- Something is transmitted. -/
theorem Follows.transmit (h : Follows s₀ done t s coming)
    (hround : s.transmitRound = some (again, s')) : Follows s₀ done t s' coming := by
  rcases Xenbus.transmitRound_cases hround with rfl | ⟨r, p, current, rfl⟩
  · exact h
  refine ⟨⟨h.wire.bytes, h.wire.avail, h.wire.ahead, h.wire.nowrap⟩,
    ⟨h.same.pending, h.same.watches, h.same.allow, ids_setReq h.same.ids rfl⟩, ?_, fun j hj => ?_,
    h.triggered⟩
  · have hcontrol := h.control
    obtain ⟨mode, rest, a⟩ := t
    cases mode <;> exact hcontrol
  · change Request s₀ done t.mode j ((s.setReq r _).reqs j)
    by_cases hjr : j = r
    · rw [hjr, Xenbus.reqs_setReq_self]
      exact (h.requests r (hjr ▸ hj)).of_tx
    · rw [Xenbus.reqs_setReq_of_ne _ _ hjr]
      exact h.requests j hj

/-! ## Runs -/

/-- The driver, what is still to come of xenstored, and how many passes there have been since the
last chunk. -/
structure RxRun where
  bus : Xenbus
  coming : List UInt8
  passes : Nat

/-- `n` bytes come in; a pass receives; a round of a pass transmits. -/
inductive RxAct where
  | arrive (n : Nat)
  | receive (mem : UInt32 → Option (Nat → UInt8))
  | transmit

namespace RxRun

/-- One step.  There is room in the ring for what comes in. -/
inductive Step (s : RxRun) : RxAct → RxRun → Prop
  | arrive {n : Nat} : n ≤ s.coming.length → s.bus.avail + n ≤ xenstoreRingSize →
      Step s (.arrive n) ⟨s.bus.arrive (s.coming.take n), s.coming.drop n, 0⟩
  | receive {mem : UInt32 → Option (Nat → UInt8)} {bus : Xenbus} : s.bus.Receives mem bus →
      Step s (.receive mem) ⟨bus, s.coming, s.passes + 1⟩
  | transmit {again : Bool} {bus : Xenbus} : s.bus.transmitRound = some (again, bus) →
      Step s .transmit { s with bus := bus }

/-- Requests are pending, nothing has come to them, and `msgs` is about to come. -/
structure Start (s₀ : Xenbus) (msgs : List XsMessage) (s : RxRun) : Prop where
  bus : s.bus = s₀
  coming : s.coming = msgs.flatMap XsMessage.bytes
  passes : s.passes = 0
  formed : WellFormed s₀ msgs
  fresh : ∀ r ∈ s₀.pending, (s₀.reqs r).xenbusReplied = false
  current : s₀.currentRxReq = none
  discard : s₀.consResponseDiscardBytes = 0
  empty : s₀.sharedBuf.rspProd = s₀.sharedBuf.rspCons
  nowrap : s₀.sharedBuf.rspCons.toNat + (msgs.flatMap XsMessage.bytes).length < 4294967296

/-- Where the driver is in the messages. -/
def reader (msgs : List XsMessage) (s : RxRun) : Reader :=
  .position s.bus.avail msgs
    ((msgs.map XsMessage.size).sum - (s.bus.avail + s.coming.length))

/-- A pass begins when the driver does not starve. -/
def Fed (s₀ : Xenbus) (msgs : List XsMessage) (s : RxRun) : RxAct → Prop
  | .receive _ => ¬ (s.reader msgs).Starves s₀.known
  | _ => True

end RxRun

/-- All of the messages has come to where it belongs. -/
structure Received (s₀ : Xenbus) (msgs : List XsMessage) (s : Xenbus) : Prop where
  replied : ∀ m ∈ msgs, ∀ r ∈ s₀.pending, Answers s₀ m r →
    Holds (s₀.reqs r) (s.reqs r) m m.payload.length ∧ (s.reqs r).xenbusReplied = true
  waiting : ∀ r ∈ s₀.pending, (∀ m ∈ msgs, ¬ Answers s₀ m r) → Untouched (s₀.reqs r) (s.reqs r)
  consumed : s.avail = 0
  triggered : s.triggered = s₀.triggered ++ msgs.filterMap s₀.handler
  handled : ∀ m ∈ msgs, m.IsWatch → ∃ wh, s₀.handler m = some wh ∧ (wh, m.token) ∈ s₀.watches

namespace RxRun
variable {msgs : List XsMessage} {r r' : RxRun} {a : RxAct}

/-- The driver is somewhere in the messages, and not too many passes from their end. -/
structure Within (s₀ : Xenbus) (msgs : List XsMessage) (r : RxRun) (done : List XsMessage)
    (t : Reader) : Prop where
  follows : Follows s₀ done t r.bus r.coming
  messages : done ++ (t.mode.current ++ t.rest) = msgs
  rest : t.AtRest
  near : r.coming = [] → t.left = 0 ∨ t.left + r.passes ≤ msgs.length

theorem flatMap_bytes_length (ms : List XsMessage) :
    (ms.flatMap XsMessage.bytes).length = (ms.map XsMessage.size).sum := by
  rw [List.length_flatMap]
  simp only [XsMessage.length_bytes]

theorem Within.start (h : Start s₀ msgs r) : Within s₀ msgs r [] ⟨.header, msgs, r.bus.avail⟩ := by
  obtain ⟨bus, bytes, passes⟩ := r
  obtain ⟨rfl, rfl, rfl, hformed, hfresh, hcurrent, hdiscard, hempty, hnowrap⟩ := h
  have hzero : bus.avail = 0 := by
    rw [Xenbus.avail, hempty, UInt32.sub_self]
    rfl
  refine ⟨⟨⟨?_, rfl, Nat.le_trans (Nat.le_of_eq hzero) (Nat.zero_le _), ?_⟩,
    ⟨rfl, rfl, hformed.allow, fun _ => rfl⟩,
    ⟨hcurrent, hdiscard⟩, fun r hr => ?_, (List.append_nil _).symm⟩, rfl, .inl rfl, fun _ => .inr ?_⟩
  · rw [Xenbus.rspBytes]
    change get _ _ _ bus.avail ++ _ = _
    rw [hzero]
    rfl
  · change bus.sharedBuf.rspCons.toNat + (bus.avail + _) < _
    rwa [hzero, Nat.zero_add]
  · exact ⟨List.forall_mem_nil _, fun m k hmode => RxMode.noConfusion hmode,
      fun _ => ⟨rfl, rfl, hfresh r hr⟩⟩
  · change 0 + msgs.length + 0 ≤ msgs.length
    omega

/-- When nothing more is to come, all of the messages is there. -/
theorem Within.whole (h : Within s₀ msgs r done t) (hcoming : r.coming = []) : t.Whole := by
  have hlen := congrArg List.length h.follows.wire.bytes
  rw [hcoming, List.append_nil, Xenbus.length_rspBytes, List.length_append,
    flatMap_bytes_length] at hlen
  rw [Reader.Whole, h.follows.wire.avail, hlen]

theorem Within.unread (h : Within s₀ msgs r done t) :
    t.unread = r.bus.avail + r.coming.length := by
  have hlen := congrArg List.length h.follows.wire.bytes
  rw [List.length_append, Xenbus.length_rspBytes, List.length_append,
    flatMap_bytes_length] at hlen
  exact hlen.symm

/-- Where the driver is can be told from the indices. -/
theorem Within.reader_eq (h : Within s₀ msgs r done t) : r.reader msgs = t := by
  rw [reader, ← h.unread, ← h.follows.wire.avail]
  have hpos := Reader.position_eq h.rest done
  rwa [h.messages] at hpos

theorem Within.left_le (h : Within s₀ msgs r done t) : t.left ≤ msgs.length := by
  rw [← h.messages, List.length_append, List.length_append, Reader.left]
  exact Nat.le_add_left _ _

theorem Within.arrive {n : Nat} (h : Within s₀ msgs r done t) (hn : n ≤ r.coming.length)
    (hroom : r.bus.avail + n ≤ xenstoreRingSize) :
    Within s₀ msgs ⟨r.bus.arrive (r.coming.take n), r.coming.drop n, 0⟩ done
      { t with avail := t.avail + n } :=
  ⟨h.follows.arrive hn hroom, h.messages, h.rest, fun _ => .inr h.left_le⟩

/-- **One step.** -/
theorem Within.step (h : Within s₀ msgs r done t) (hwf : WellFormed s₀ msgs) (hs : Step r a r') :
    ∃ done' t', Within s₀ msgs r' done' t' := by
  cases hs with
  | arrive hn hroom => exact ⟨done, _, h.arrive hn hroom⟩
  | receive hpass =>
    obtain ⟨t', read, hpassed⟩ := h.follows.passed (by rwa [h.messages]) hpass
    refine ⟨done ++ read, t', hpassed.follows, ?_, hpassed.rest, fun hcoming => ?_⟩
    · rw [List.append_assoc, hpassed.messages, h.messages]
    · rcases hpassed.last (h.whole hcoming) with hleft | hread
      · exact .inl hleft
      -- at least one message has been read whole
      have hlen := congrArg List.length hpassed.messages
      rw [List.length_append, List.length_append, List.length_append] at hlen
      have hpos : 0 < read.length := List.length_pos_iff.mpr hread
      have hnear := h.near hcoming
      rw [Reader.left] at hnear ⊢
      change _ ∨ _ + (r.passes + 1) ≤ _
      omega
  | transmit hround => exact ⟨done, t, h.follows.transmit hround, h.messages, h.rest, h.near⟩

/-- What is so in the end. -/
theorem Within.received (h : Within s₀ msgs r done t) (hwf : WellFormed s₀ msgs)
    (hcoming : r.coming = []) (hpasses : msgs.length ≤ r.passes) : Received s₀ msgs r.bus := by
  have hleft : t.left = 0 := by
    have hle := h.left_le
    rcases h.near hcoming with hleft | hleft <;> omega
  obtain ⟨hcurrent, hrest⟩ := Nat.add_eq_zero_iff.mp hleft
  have hcurrent := List.eq_nil_of_length_eq_zero hcurrent
  have hrest := List.eq_nil_of_length_eq_zero hrest
  have hdone : done = msgs := by
    rw [← h.messages, hcurrent, hrest]
    exact (List.append_nil done).symm
  have hmode : t.mode = .header := by
    cases hmode : t.mode with
    | header => rfl
    | body m k | discard m k =>
      rw [hmode] at hcurrent
      cases hcurrent
  subst hdone
  refine ⟨fun m hm j hj => (h.follows.requests j hj).delivered m hm, fun j hj hnone =>
    (h.follows.requests j hj).waiting fun m hm => ?_, ?_, h.follows.triggered,
    fun m hm hwatch => ?_⟩
  · rw [hcurrent, List.append_nil] at hm
    exact hnone m hm
  · have hwhole := h.whole hcoming
    rw [Reader.Whole, hmode, hrest] at hwhole
    rw [← h.follows.wire.avail]
    exact hwhole
  · obtain ⟨path, token, hm⟩ := hwf.watch m hm hwatch
    obtain ⟨wh, hknown⟩ := hm.known
    rw [Xenbus.handler, if_pos hwatch, hm.token_eq, Xenbus.findWatchByIdent]
    rw [takeWhile_of_nul hm.tokenEnd]
    cases hfind : s₀.watches.find? fun w => w.2 == token with
    | none => exact absurd (List.find?_eq_none.mp hfind _ hknown) (not_not_intro (beq_self_eq_true _))
    | some w =>
      refine ⟨w.1, rfl, ?_⟩
      have htoken : w.2 = token := eq_of_beq (List.find?_some (p := fun w : Nat × List UInt8 => w.2 == token) hfind)
      rw [← htoken]
      exact List.mem_of_find?_eq_some hfind

/-- A request has its reply only when that has come whole. -/
theorem Within.of_replied {j : Nat} (h : Within s₀ msgs r done t) (hj : j ∈ s₀.pending)
    (hreplied : (r.bus.reqs j).xenbusReplied = true) :
    ∃ m ∈ msgs, Answers s₀ m j ∧ Holds (s₀.reqs j) (r.bus.reqs j) m m.payload.length := by
  have hrequest := h.follows.requests j hj
  by_contra hno
  have hdone : ∀ m ∈ done, ¬ Answers s₀ m j := fun m hm hans =>
    hno ⟨m, h.messages ▸ List.mem_append_left _ hm, hans, (hrequest.delivered m hm hans).1⟩
  -- the reply is being received, or has not come
  have hcurrent : ∀ m ∈ t.mode.current, ¬ Answers s₀ m j := by
    intro m hm hans
    rcases h.rest with hmode | ⟨m', k, hmode, -⟩
    · rw [hmode] at hm
      cases hm
    · rw [hmode] at hm
      obtain rfl := List.mem_singleton.mp hm
      rw [(hrequest.receiving m k hmode hans).2] at hreplied
      cases hreplied
  have hwaiting := hrequest.waiting fun m hm =>
    (List.mem_append.mp hm).elim (hdone m) (hcurrent m)
  rw [hwaiting.replied] at hreplied
  cases hreplied

/-- **Receiving does not depend on the chunks**, as long as no pass begins when the driver starves;
such a pass, and no other, is never over. -/
theorem received_of_fed (h : Reachable (Start s₀ msgs) Step (Fed s₀ msgs) r) :
    (∀ mem, (∃ bus, r.bus.Receives mem bus) ↔ Fed s₀ msgs r (.receive mem)) ∧
      (∀ j ∈ s₀.pending, (r.bus.reqs j).xenbusReplied = true →
        ∃ m ∈ msgs, Answers s₀ m j ∧ Holds (s₀.reqs j) (r.bus.reqs j) m m.payload.length) ∧
      (r.coming = [] → msgs.length ≤ r.passes → Received s₀ msgs r.bus) := by
  obtain ⟨hwf, done, t, hwithin⟩ : WellFormed s₀ msgs ∧ ∃ done t, Within s₀ msgs r done t := by
    refine h.invariant (P := fun r => WellFormed s₀ msgs ∧ ∃ done t, Within s₀ msgs r done t)
      (fun r hr => ⟨hr.formed, _, _, .start hr⟩) fun r a r' hr _ hs => ?_
    obtain ⟨hwf, done, t, hwithin⟩ := hr
    exact ⟨hwf, hwithin.step hwf hs⟩
  refine ⟨fun mem => ?_, fun j hj => hwithin.of_replied hj, hwithin.received hwf⟩
  rw [Fed, hwithin.reader_eq]
  have hwf' : WellFormed s₀ (done ++ (t.mode.current ++ t.rest)) := by rwa [hwithin.messages]
  refine ⟨fun ⟨bus, hpass⟩ => hwithin.follows.not_starves hwf' hpass, fun hfed => ?_⟩
  obtain ⟨bus, hpass, -⟩ := hwithin.follows.pass hwf' hfed mem
  exact ⟨bus, hpass⟩

/-- One request is pending; its id is 5. -/
def awaiting : Xenbus where
  reqs := fun _ => initialisePendingReq ⟨11, 5, 0, 0⟩ []
  pending := [0]
  currentRxReq := none
  currentTxReq := none
  consResponseDiscardBytes := 0
  sharedBuf := ⟨fun _ => 0, fun _ => 0, 0, 0, 0, 0⟩
  watches := []
  triggered := []
  sequenceNumber := 5
  xenbusOutstandingCtr := 1
  allowNewXenbusOperation := true
  allowXenbusWatchOperation := true

/-- A reply `OK`. -/
def reply (id : UInt32) : XsMessage := ⟨⟨11, id, 0, 3⟩, [79, 75, 0], rfl⟩

theorem not_isWatch_reply (id : UInt32) : ¬ (reply id).IsWatch := by
  change ¬ (11 : UInt32) = xsWatchEvent
  decide

theorem wellFormed_reply (id : UInt32) : WellFormed awaiting [reply id] := by
  refine ⟨fun m hm hw => absurd hw (List.mem_singleton.mp hm ▸ not_isWatch_reply id), fun m hm _ => ?_,
    List.pairwise_singleton .., fun i hi j hj _ => ?_, fun _ _ => rfl, rfl⟩
  · rw [List.mem_singleton.mp hm]
    change (11 : UInt32) ≤ xsIsDomainIntroduced
    decide
  · rw [List.mem_singleton.mp hi, List.mem_singleton.mp hj]

theorem start_reply (id : UInt32) :
    Start awaiting [reply id] ⟨awaiting, [reply id].flatMap XsMessage.bytes, 0⟩ :=
  ⟨rfl, rfl, rfl, wellFormed_reply id, fun _ _ => rfl, rfl, rfl, rfl, by
    rw [flatMap_bytes_length]
    exact show 0 + (16 + 3 + 0) < 4294967296 by decide⟩

theorem avail_awaiting : awaiting.avail = 0 := rfl

/-- The first bytes of the reply have come. -/
def afterBytes (id : UInt32) (n : Nat) : RxRun :=
  ⟨awaiting.arrive ((reply id).bytes.take n), (reply id).bytes.drop n, 0⟩

theorem step_afterBytes (id : UInt32) {n : Nat} (hn : n ≤ 19) :
    (⟨awaiting, [reply id].flatMap XsMessage.bytes, 0⟩ : RxRun).Step (.arrive n)
      (afterBytes id n) := by
  have hbytes : [reply id].flatMap XsMessage.bytes = (reply id).bytes := List.flatMap_singleton ..
  rw [hbytes]
  refine .arrive ?_ ?_
  · rw [XsMessage.length_bytes]
    exact hn
  · change awaiting.avail + n ≤ 1024
    rw [avail_awaiting]
    omega

theorem within_afterBytes (id : UInt32) {n : Nat} (hn : n ≤ 19) :
    Within awaiting [reply id] (afterBytes id n) [] ⟨.header, [reply id], n⟩ := by
  have hwithin := (Within.start (start_reply id)).arrive (n := n)
    (by rw [flatMap_bytes_length]; exact hn)
    (by change awaiting.avail + n ≤ 1024; rw [avail_awaiting]; omega)
  rw [List.flatMap_singleton] at hwithin
  change Within _ _ _ _ ⟨.header, [reply id], awaiting.avail + n⟩ at hwithin
  rwa [avail_awaiting, Nat.zero_add] at hwithin

/-- The reply to the request comes, and is received by one pass. -/
theorem received_of_fed_reply : ∃ r : RxRun, Received awaiting [reply 5] r.bus := by
  have hreach : Reachable (Start awaiting [reply 5]) Step (Fed awaiting [reply 5])
      (afterBytes 5 19) :=
    .next (i := .arrive 19) (.start (start_reply 5)) trivial (step_afterBytes 5 (Nat.le_refl _))
  have hfed : Fed awaiting [reply 5] (afterBytes 5 19) (.receive fun _ => some fun _ => 0) := by
    rw [Fed, (within_afterBytes 5 (Nat.le_refl _)).reader_eq]
    rintro ⟨-, hstarves⟩
    rw [if_neg (not_isWatch_reply 5),
      if_pos (show awaiting.known (reply 5).hdr.reqId = true from rfl)] at hstarves
    exact hstarves.2.2
  obtain ⟨bus, hpass⟩ := ((received_of_fed hreach).1 _).mpr hfed
  exact ⟨_, (received_of_fed (.next hreach hfed (.receive hpass))).2.2 rfl (Nat.le_refl 1)⟩

/-- A reply that nobody waits for; its header has come, its payload has not.  The pass that follows
is never over. -/
theorem unknown_reply_starves : ¬ ∀ (s₀ : Xenbus) (msgs : List XsMessage) (r : RxRun),
    Reachable (Start s₀ msgs) Step (fun _ _ => True) r →
      ∃ mem bus, r.bus.Receives mem bus := by
  intro hover
  obtain ⟨mem, bus, hpass⟩ := hover awaiting [reply 7] (afterBytes 7 16)
    (.next (i := .arrive 16) (.start (start_reply 7)) trivial (step_afterBytes 7 (by decide)))
  have hwithin := within_afterBytes 7 (n := 16) (by decide)
  refine hwithin.follows.not_starves (wellFormed_reply 7) hpass ⟨Nat.le_refl _, ?_⟩
  rw [if_neg (not_isWatch_reply 7),
    if_neg (show ¬ awaiting.known (reply 7).hdr.reqId = true from Bool.false_ne_true)]
  exact .inl (show 16 < 16 + 3 by decide)

end RxRun

end V4v.Xenutil
