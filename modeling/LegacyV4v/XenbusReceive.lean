import LegacyV4v.XenbusAdvance
import LegacyV4v.XenbusDecode
import LegacyV4v.XenbusReader

/-! # Replies arrive as they were sent

xenstored's messages are cut anywhere by what is in the ring when the driver looks.  The driver is
shown to follow the reader of messages call by call, with the replies in the buffers of the requests
as far as they have been read; whether a pass is over is then a matter of messages alone.  It is,
unless the driver starves; and as long as no pass is made then, every reply is received as it was
sent, however the messages are cut. -/
namespace V4v.Xenutil
open GuardedRun IndexedRing

/-! ## One reply -/

/-- No reply has come to the request. -/
structure Untouched (q₀ q : PendingReq) : Prop where
  payload : q.replyPayload = q₀.replyPayload
  size : q.replyBufSize = q₀.replyBufSize
  replied : q.xenbusReplied = false

/-- The buffer of a request is as long as it says. -/
def PendingReq.Sized (q : PendingReq) : Prop := (q.replyPayload.getD []).length = q.replyBufSize

/-- The first `k` bytes of the payload of `m` have come to a request that was `q₀`: the buffer, that
of the caller or one that was allocated, has them as far as they fit. -/
structure Holds (q₀ q : PendingReq) (m : XsMessage) (k : Nat) : Prop where
  header : q.replyHeader = m.hdr
  received : q.replyPayloadReceived = k
  size : q.replyBufSize = q₀.replyBufSize ∨
    q₀.replyPayload = none ∧ q.replyBufSize = m.payload.length
  sized : q.Sized
  content : (q.replyPayload.getD []).take k = (m.payload.take k).take q.replyBufSize

section
variable {q₀ q : PendingReq} {m : XsMessage} {k n : Nat}

/-- The header of the reply has come. -/
theorem Untouched.start (h : Untouched q₀ q) (hsized : q₀.Sized) (mem : Option (Nat → UInt8)) :
    Holds q₀ (q.startReply m.hdr mem) m 0 ∧ (q.startReply m.hdr mem).xenbusReplied = false := by
  have hnothing : ∀ {buf : List UInt8} {size : Nat},
      buf.take 0 = (m.payload.take 0).take size := by
    intro buf size
    rw [List.take_zero, List.take_zero, List.take_nil]
  unfold PendingReq.startReply
  dsimp only
  cases hpayload : q.replyPayload with
  | some buf =>
    refine ⟨⟨rfl, rfl, .inl h.size, ?_, hnothing⟩, h.replied⟩
    rw [PendingReq.Sized, ← h.payload, ← h.size, hpayload] at hsized
    exact hsized
  | none =>
    have hnone : q₀.replyPayload = none := h.payload ▸ hpayload
    cases mem with
    | some mem =>
      refine ⟨⟨rfl, rfl, .inr ⟨hnone, m.len_eq.symm⟩, ?_, hnothing⟩, h.replied⟩
      rw [PendingReq.Sized, Option.getD_some, peek, List.length_map, List.length_range]
    | none =>
      rw [PendingReq.Sized, hnone] at hsized
      exact ⟨⟨rfl, rfl, .inl hsized, rfl, hnothing⟩, h.replied⟩

/-- What is cut off in front is cut off behind. -/
theorem take_take_append (xs ys : List UInt8) (i : Nat) : (xs.take i ++ ys).take i = (xs ++ ys).take i := by
  by_cases h : xs.length ≤ i
  · rw [List.take_of_length_le h]
  · have hlen : (xs.take i).length = i := by
      rw [List.length_take]
      omega
    rw [List.take_left' hlen, List.take_append_of_le_length (by omega)]

/-- More of the reply has come. -/
theorem Holds.take {s : Xenbus} (h : Holds q₀ q m k) (hn : n ≤ m.payload.length - k)
    (hk : k ≤ m.payload.length) (hbytes : s.rspBytes.take n = (m.payload.drop k).take n) :
    Holds q₀ (s.takeReply q n) m (k + n) := by
  have hsized : (q.replyPayload.getD []).length = q.replyBufSize := h.sized
  have hlen := m.hdr.len.toNat_lt
  rw [← m.len_eq] at hlen
  have hthere : n ≤ s.avail := by
    have htaken := congrArg List.length hbytes
    rw [List.length_take, List.length_take, List.length_drop, s.length_rspBytes] at htaken
    omega
  have hcontent := h.content
  have hsize := Xenbus.replyBufSize_takeReply s q n
  have hreceived : (s.takeReply q n).replyPayloadReceived = k + n := congrArg (· + n) h.received
  cases hpayload : q.replyPayload with
  | none =>
    rw [hpayload, Option.getD_none, List.length_nil] at hsized
    have hnone : (s.takeReply q n).replyPayload = none := by
      rw [Xenbus.takeReply, if_neg (by omega)]
      exact hpayload
    refine ⟨(Xenbus.replyHeader_takeReply s q n).trans h.header, hreceived, hsize ▸ h.size, ?_, ?_⟩
    · rw [PendingReq.Sized, hnone, hsize, ← hsized]
      rfl
    · rw [hnone, hsize, ← hsized, List.take_zero, Option.getD_none, List.take_nil]
  | some buf =>
    rw [hpayload, Option.getD_some] at hsized hcontent
    obtain ⟨buf', hbuf', hlen', htake⟩ := Xenbus.payload_takeReply (s := s) (n := n) hpayload hsized
      (by rw [h.received]; omega) hthere
    refine ⟨(Xenbus.replyHeader_takeReply s q n).trans h.header, hreceived, hsize ▸ h.size, ?_, ?_⟩
    · rw [PendingReq.Sized, hbuf', hsize, Option.getD_some, hlen', hsized]
    · rw [h.received] at htake
      rw [hbuf', Option.getD_some, htake, hcontent, hbytes, hsize, hsized, take_take_append, ← List.take_add]

end

/-! ## All requests -/

/-- The reply is one to this request. -/
def Answers (s₀ : Xenbus) (m : XsMessage) (r : Nat) : Prop :=
  ¬ m.IsWatch ∧ m.hdr.reqId = (s₀.reqs r).id

instance (s₀ : Xenbus) (m : XsMessage) (r : Nat) : Decidable (Answers s₀ m r) :=
  inferInstanceAs (Decidable (_ ∧ _))

namespace Xenbus

/-- A pending request has this id. -/
def known (s₀ : Xenbus) (id : UInt32) : Bool := (s₀.findPendingRxReq id).isSome

/-- The handler that a message triggers. -/
def handler (s₀ : Xenbus) (m : XsMessage) : Option Nat :=
  if m.IsWatch then s₀.findWatchByIdent m.token else none

end Xenbus

/-- A watch event of at most 1008 bytes, with a path and a known token of at most 16 characters. -/
structure WatchFormed (s₀ : Xenbus) (m : XsMessage) (path token : List UInt8) : Prop where
  payload : m.payload = path ++ 0 :: (token ++ [0])
  pathEnd : 0 ∉ path
  tokenEnd : 0 ∉ token
  short : token.length ≤ 16
  fits : m.payload.length ≤ 1008
  known : ∃ wh, (wh, token) ∈ s₀.watches

/-- What xenstored may send to a driver, and what state that is in. -/
structure WellFormed (s₀ : Xenbus) (msgs : List XsMessage) : Prop where
  watch : ∀ m ∈ msgs, m.IsWatch → ∃ path token, WatchFormed s₀ m path token
  reply : ∀ m ∈ msgs, ¬ m.IsWatch → m.hdr.type ≤ xsIsDomainIntroduced
  once : msgs.Pairwise fun m m' => ∀ r ∈ s₀.pending, Answers s₀ m r → ¬ Answers s₀ m' r
  ids : ∀ r ∈ s₀.pending, ∀ r' ∈ s₀.pending, (s₀.reqs r).id = (s₀.reqs r').id → r = r'
  sized : ∀ r ∈ s₀.pending, (s₀.reqs r).Sized
  allow : s₀.allowXenbusWatchOperation = true

/-- What has come to a request, when the messages `done` and some of the current one have. -/
structure Request (s₀ : Xenbus) (done : List XsMessage) (mode : RxMode) (r : Nat)
    (q : PendingReq) : Prop where
  delivered : ∀ m ∈ done, Answers s₀ m r →
    Holds (s₀.reqs r) q m m.payload.length ∧ q.xenbusReplied = true
  receiving : ∀ m k, mode = .body m k → Answers s₀ m r →
    Holds (s₀.reqs r) q m k ∧ q.xenbusReplied = false
  waiting : (∀ m ∈ done ++ mode.current, ¬ Answers s₀ m r) → Untouched (s₀.reqs r) q

/-- The variables that say where the driver is. -/
def Control (s₀ s : Xenbus) : RxMode → Prop
  | .header => s.currentRxReq = none ∧ s.consResponseDiscardBytes = 0
  | .body m k => s.consResponseDiscardBytes = 0 ∧ k ≤ m.payload.length ∧
      ∃ r ∈ s₀.pending, s.currentRxReq = some r ∧ Answers s₀ m r
  | .discard m k => s.currentRxReq = none ∧ k < m.payload.length ∧
      s.consResponseDiscardBytes.toNat = m.payload.length - k ∧ ¬ m.IsWatch ∧
      ∀ r ∈ s₀.pending, ¬ Answers s₀ m r

/-- The bytes in the ring and those that are still to come. -/
structure Wire (t : Reader) (s : Xenbus) (coming : List UInt8) : Prop where
  bytes : s.rspBytes ++ coming = t.mode.payload ++ t.rest.flatMap XsMessage.bytes
  avail : t.avail = s.avail
  ahead : s.avail ≤ xenstoreRingSize
  nowrap : s.sharedBuf.rspCons.toNat + (s.avail + coming.length) < 4294967296

/-- What receiving leaves alone. -/
structure SameLists (s₀ s : Xenbus) : Prop where
  pending : s.pending = s₀.pending
  watches : s.watches = s₀.watches
  allow : s.allowXenbusWatchOperation = true
  ids : ∀ r, (s.reqs r).id = (s₀.reqs r).id

/-- **The driver follows the reader.** -/
structure Follows (s₀ : Xenbus) (done : List XsMessage) (t : Reader) (s : Xenbus)
    (coming : List UInt8) : Prop where
  wire : Wire t s coming
  same : SameLists s₀ s
  control : Control s₀ s t.mode
  requests : ∀ r ∈ s₀.pending, Request s₀ done t.mode r (s.reqs r)
  triggered : s.triggered = s₀.triggered ++ done.filterMap s₀.handler

variable {s₀ s s' : Xenbus} {done : List XsMessage} {t t' : Reader} {coming : List UInt8}
  {m : XsMessage} {rest : List XsMessage} {a k n : Nat}

theorem Follows.valid (h : Follows s₀ done t s coming) : t.Valid := by
  have hcontrol := h.control
  obtain ⟨mode, rest, a⟩ := t
  cases mode with
  | header => trivial
  | body m k => exact hcontrol.2.1
  | discard m k => exact hcontrol.2.1

/-- Some bytes are read. -/
theorem Wire.consume (h : Wire t s coming) (hn : n ≤ t.avail) (ha : t'.avail = t.avail - n)
    (hbytes : (t.mode.payload ++ t.rest.flatMap XsMessage.bytes).drop n =
      t'.mode.payload ++ t'.rest.flatMap XsMessage.bytes)
    (hbuf : s'.sharedBuf = (s.consume n).sharedBuf) : Wire t' s' coming := by
  have hn' : n ≤ s.avail := h.avail ▸ hn
  have hnowrap := h.nowrap
  have havail : s'.avail = s.avail - n := by
    rw [← Xenbus.avail_consume hn', Xenbus.avail, hbuf, Xenbus.avail]
  have hring : s'.rspBytes = s.rspBytes.drop n := by
    rw [← Xenbus.rspBytes_consume hn', Xenbus.rspBytes, Xenbus.rspBytes, Xenbus.avail,
      Xenbus.avail, hbuf]
  refine ⟨?_, ?_, ?_, ?_⟩
  · rw [hring, ← hbytes, ← h.bytes, List.drop_append_of_le_length (by rwa [s.length_rspBytes])]
  · rw [ha, havail, h.avail]
  · rw [havail]
    exact Nat.le_trans (Nat.sub_le _ _) h.ahead
  · rw [havail, hbuf]
    change (s.sharedBuf.rspCons + UInt32.ofNat n).toNat + _ < _
    rw [toNat_add_of_lt (by omega)]
    omega

/-- Two ways to cut a list. -/
theorem exists_of_append_eq {xs ys us vs : List UInt8} (h : xs ++ ys = us ++ vs)
    (hle : us.length ≤ xs.length) : ∃ ws, xs = us ++ ws ∧ ws ++ ys = vs := by
  rcases List.append_eq_append_iff.mp h with ⟨zs, rfl, rfl⟩ | ⟨zs, rfl, rfl⟩
  · rw [List.length_append] at hle
    obtain rfl : zs = [] := List.eq_nil_of_length_eq_zero (by omega)
    exact ⟨[], by rw [List.append_nil, List.append_nil], rfl⟩
  · exact ⟨zs, rfl, rfl⟩

section
variable {mode mode' : RxMode} {r : Nat} {q : PendingReq} {ms : List XsMessage}

/-- Other messages are of no concern to a request. -/
theorem Request.frame (h : Request s₀ done mode r q) (mode' : RxMode) (ms : List XsMessage)
    (hmode : ∀ m ∈ mode.current, ¬ Answers s₀ m r) (hmode' : ∀ m ∈ mode'.current, ¬ Answers s₀ m r)
    (hms : ∀ m ∈ ms, ¬ Answers s₀ m r) : Request s₀ (done ++ ms) mode' r q := by
  refine ⟨fun m hm hans => ?_, fun m k heq hans => ?_, fun hnone => h.waiting fun m hm => ?_⟩
  · rcases List.mem_append.mp hm with hm | hm
    · exact h.delivered m hm hans
    · exact absurd hans (hms m hm)
  · exact absurd hans (hmode' m (heq ▸ List.mem_cons_self))
  · rcases List.mem_append.mp hm with hm | hm
    · exact hnone m (List.mem_append_left _ (List.mem_append_left _ hm))
    · exact hmode m hm

/-- The header of the reply to a request has come. -/
theorem Request.start (h : Request s₀ done .header r q) (hdone : ∀ m' ∈ done, ¬ Answers s₀ m' r)
    (hans : Answers s₀ m r) (hsized : (s₀.reqs r).Sized) (mem : Option (Nat → UInt8)) :
    Request s₀ done (.body m 0) r (q.startReply m.hdr mem) := by
  refine ⟨fun m' hm' hans' => absurd hans' (hdone m' hm'), fun m' k heq _ => ?_, fun hnone =>
    absurd hans (hnone m (List.mem_append_right _ List.mem_cons_self))⟩
  obtain ⟨rfl, rfl⟩ := RxMode.body.inj heq
  refine (h.waiting fun m' hm' => ?_).start hsized mem
  rw [RxMode.current, List.append_nil] at hm'
  exact hdone m' hm'

/-- More of the reply has come. -/
theorem Request.take (h : Request s₀ done (.body m k) r q) (hdone : ∀ m' ∈ done, ¬ Answers s₀ m' r)
    (hans : Answers s₀ m r) (hn : n ≤ m.payload.length - k) (hk : k ≤ m.payload.length)
    (hbytes : s.rspBytes.take n = (m.payload.drop k).take n) :
    Request s₀ done (.body m (k + n)) r (s.takeReply q n) := by
  obtain ⟨hholds, hreplied⟩ := h.receiving m k rfl hans
  refine ⟨fun m' hm' hans' => absurd hans' (hdone m' hm'), fun m' j heq _ => ?_, fun hnone =>
    absurd hans (hnone m (List.mem_append_right _ List.mem_cons_self))⟩
  obtain ⟨rfl, rfl⟩ := RxMode.body.inj heq
  refine ⟨hholds.take hn hk hbytes, ?_⟩
  rw [Xenbus.takeReply]
  split <;> exact hreplied

/-- The reply is complete. -/
theorem Request.finish (h : Request s₀ done (.body m m.payload.length) r q)
    (hdone : ∀ m' ∈ done, ¬ Answers s₀ m' r) (hans : Answers s₀ m r) :
    Request s₀ (done ++ [m]) .header r { q with xenbusReplied := true } := by
  obtain ⟨hholds, -⟩ := h.receiving m _ rfl hans
  refine ⟨fun m' hm' hans' => ?_, fun _ _ heq => RxMode.noConfusion heq, fun hnone =>
    absurd hans (hnone m (List.mem_append_left _ (List.mem_append_right _ List.mem_cons_self)))⟩
  rcases List.mem_append.mp hm' with hm' | hm'
  · exact absurd hans' (hdone m' hm')
  · rw [List.mem_singleton.mp hm']
    exact ⟨⟨hholds.header, hholds.received, hholds.size, hholds.sized, hholds.content⟩, rfl⟩

end

/-- Only one message answers a request. -/
theorem WellFormed.not_answers {r : Nat} (h : WellFormed s₀ (done ++ (m :: rest)))
    (hr : r ∈ s₀.pending) (hans : Answers s₀ m r) : ∀ m' ∈ done, ¬ Answers s₀ m' r :=
  fun m' hm' hans' => (List.pairwise_append.mp h.once).2.2 m' hm' m List.mem_cons_self r hr hans' hans

/-- A message answers only one request. -/
theorem WellFormed.eq_of_answers {msgs : List XsMessage} {r r' : Nat} (h : WellFormed s₀ msgs)
    (hr : r ∈ s₀.pending) (hr' : r' ∈ s₀.pending) (hans : Answers s₀ m r)
    (hans' : Answers s₀ m r') : r = r' :=
  h.ids r hr r' hr' (hans.2.symm.trans hans'.2)

theorem SameLists.find (h : SameLists s₀ s) (id : UInt32) :
    s.findPendingRxReq id = s₀.findPendingRxReq id :=
  Xenbus.find_congr h.pending h.ids id

/-- A part of a payload has been read. -/
theorem drop_payload (m : XsMessage) (xs : List UInt8) (hn : n ≤ m.payload.length - k) :
    (m.payload.drop k ++ xs).drop n = m.payload.drop (k + n) ++ xs := by
  rw [List.drop_append_of_le_length (by rw [List.length_drop]; exact hn), List.drop_drop]

theorem filterMap_concat (f : XsMessage → Option Nat) (done : List XsMessage) (m : XsMessage) :
    (done ++ [m]).filterMap f = done.filterMap f ++ (f m).toList := by
  rw [List.filterMap_append, List.filterMap_cons]
  cases f m <;> rfl

theorem handler_reply (hwatch : ¬ m.IsWatch) : s₀.handler m = none := if_neg hwatch

/-- A string ends in front of the first NUL. -/
theorem takeWhile_nul {xs : List UInt8} (h : 0 ∉ xs) : (xs ++ [0]).takeWhile (· != 0) = xs := by
  rw [List.takeWhile_append_of_pos, List.takeWhile_cons_of_neg, List.append_nil]
  · decide
  · exact fun x hx => bne_iff_ne.mpr fun heq => h (heq ▸ hx)

theorem takeWhile_of_nul {xs : List UInt8} (h : 0 ∉ xs) : xs.takeWhile (· != 0) = xs := by
  have hself : (xs ++ []).takeWhile (· != 0) = xs ++ [].takeWhile (· != 0) :=
    List.takeWhile_append_of_pos fun x hx => bne_iff_ne.mpr fun heq => h (heq ▸ hx)
  rwa [List.append_nil, List.takeWhile_nil, List.append_nil] at hself

theorem WatchFormed.token_eq {path token : List UInt8} (h : WatchFormed s₀ m path token) :
    m.token = token := by
  rw [XsMessage.token, h.payload, List.dropWhile_append_of_pos, List.dropWhile_cons_of_neg,
    List.drop_one, List.tail_cons, takeWhile_nul h.tokenEnd]
  · decide
  · exact fun x hx => bne_iff_ne.mpr fun heq => h.pathEnd (heq ▸ hx)

theorem SameLists.handler {path token : List UInt8} (h : SameLists s₀ s) (hwatch : m.IsWatch)
    (hm : WatchFormed s₀ m path token) :
    (s.fireWatchByIdent (token ++ [0])).triggered = s.triggered ++ (s₀.handler m).toList := by
  have hfind : s.findWatchByIdent (token ++ [0]) = s₀.handler m := by
    rw [Xenbus.handler, if_pos hwatch, hm.token_eq, Xenbus.findWatchByIdent, Xenbus.findWatchByIdent,
      h.watches, takeWhile_nul hm.tokenEnd,
      takeWhile_of_nul hm.tokenEnd]
  rw [Xenbus.fireWatchByIdent, hfind]
  cases s₀.handler m with
  | none => exact (List.append_nil _).symm
  | some wh => rfl

theorem fireWatchByIdent_eq (s : Xenbus) (ident : List UInt8) : s.fireWatchByIdent ident =
    { s with triggered := (s.fireWatchByIdent ident).triggered } := by
  rw [Xenbus.fireWatchByIdent]
  split <;> rfl

/-- A watch event is read whole. -/
theorem Follows.watch {path token : List UInt8} {after : List UInt8}
    (h : Follows s₀ done ⟨.header, m :: rest, a⟩ s coming) (hwatch : m.IsWatch)
    (hm : WatchFormed s₀ m path token) (hbytes : s.rspBytes = m.hdr.bytes ++ (m.payload ++ after)) :
    ∃ s', s.receiveWatch m.hdr = some (true, s') ∧
      Follows s₀ (done ++ [m]) ⟨.header, rest, a - m.size⟩ s' coming := by
  have hsize : sizeofSockmsg + m.hdr.len.toNat = m.size := by rw [← m.len_eq]; rfl
  have hlen := s.length_rspBytes
  rw [hbytes, List.length_append, List.length_append, XsdSockmsg.length_bytes] at hlen
  have hnowrap := h.wire.nowrap
  have ha : a = s.avail := h.wire.avail
  rw [hm.payload, ← List.append_assoc] at hbytes
  refine ⟨_, Xenbus.receiveWatch_eq hbytes (by rw [← m.len_eq, hm.payload]) hm.pathEnd hm.tokenEnd
    hm.short (by omega) h.same.allow, ?_⟩
  have htriggered := h.same.handler hwatch hm
  rw [hsize, fireWatchByIdent_eq, htriggered]
  have hm' : ∀ r, ∀ m' ∈ [m], ¬ Answers s₀ m' r :=
    fun r m' hm' hans => hans.1 (List.mem_singleton.mp hm' ▸ hwatch)
  refine ⟨h.wire.consume (n := m.size) ?_ rfl ?_ rfl,
    ⟨h.same.pending, h.same.watches, h.same.allow, h.same.ids⟩, h.control, fun r hr => ?_, ?_⟩
  · change m.size ≤ a
    rw [ha, ← hlen, XsMessage.size, ← Nat.add_assoc]
    exact Nat.le_add_right _ _
  · exact List.drop_left' m.length_bytes
  · exact (h.requests r hr).frame _ _ (List.forall_mem_nil _) (List.forall_mem_nil _) (hm' r)
  · change s.triggered ++ (s₀.handler m).toList = _
    rw [h.triggered, filterMap_concat, List.append_assoc]

/-- The header of a reply to a pending request is read. -/
theorem Follows.known {r : Nat} {after : List UInt8}
    (h : Follows s₀ done ⟨.header, m :: rest, a⟩ s coming) (hwf : WellFormed s₀ (done ++ m :: rest))
    (hwatch : ¬ m.IsWatch) (hfind : s.findPendingRxReq m.hdr.reqId = some r)
    (hbytes : s.rspBytes = m.hdr.bytes ++ after) (mem : Option (Nat → UInt8)) :
    ∃ s', s.receiveHeader m.hdr mem = some (true, s') ∧
      Follows s₀ (done ++ []) ⟨.body m 0, rest, a - sizeofSockmsg⟩ s' coming := by
  have hmem := List.mem_append_right done (List.mem_cons_self (a := m) (l := rest))
  have hlen := s.length_rspBytes
  rw [hbytes, List.length_append, XsdSockmsg.length_bytes] at hlen
  have ha : a = s.avail := h.wire.avail
  have hr : r ∈ s₀.pending := h.same.pending ▸ List.mem_of_find?_eq_some hfind
  have hid : (s.reqs r).id = m.hdr.reqId := by
    have hbeq := List.find?_some (p := fun j => (s.reqs j).id == m.hdr.reqId) hfind
    exact eq_of_beq hbeq
  have hans : Answers s₀ m r := ⟨hwatch, hid.symm.trans (h.same.ids r)⟩
  refine ⟨_, Xenbus.receiveHeader_known (hwf.reply m hmem hwatch) hfind, ?_⟩
  rw [List.append_nil]
  refine ⟨h.wire.consume (n := sizeofSockmsg) ?_ rfl ?_ rfl,
    ⟨h.same.pending, h.same.watches, h.same.allow, fun j => ?_⟩,
    ⟨h.control.2, Nat.zero_le _, r, hr, rfl, hans⟩, fun j hj => ?_, h.triggered⟩
  · change sizeofSockmsg ≤ a
    rw [ha, ← hlen]
    exact Nat.le_add_right _ _
  · change (m.hdr.bytes ++ m.payload ++ rest.flatMap XsMessage.bytes).drop sizeofSockmsg = _
    rw [List.append_assoc]
    exact List.drop_left' m.hdr.length_bytes
  · exact ids_setReq (s := s.consume sizeofSockmsg) h.same.ids (id_startReply _ _ _) j
  · by_cases hjr : j = r
    · subst hjr
      change Request s₀ done _ j (((s.consume sizeofSockmsg).setReq j _).reqs j)
      rw [Xenbus.reqs_setReq_self]
      exact (h.requests j hj).start (hwf.not_answers hj hans) hans (hwf.sized j hj) mem
    · change Request s₀ done _ j (((s.consume sizeofSockmsg).setReq r _).reqs j)
      rw [Xenbus.reqs_setReq_of_ne _ _ hjr]
      have hframe := (h.requests j hj).frame (.body m 0) []
        (List.forall_mem_nil _)
        (fun m' hm' hans' => hjr (hwf.eq_of_answers hj hr (List.mem_singleton.mp hm' ▸ hans') hans))
        (List.forall_mem_nil _)
      rwa [List.append_nil] at hframe

/-- The header of another reply is read. -/
theorem Follows.unknown {after : List UInt8}
    (h : Follows s₀ done ⟨.header, m :: rest, a⟩ s coming) (hwf : WellFormed s₀ (done ++ m :: rest))
    (hwatch : ¬ m.IsWatch) (hfind : s.findPendingRxReq m.hdr.reqId = none)
    (hbytes : s.rspBytes = m.hdr.bytes ++ after) (mem : Option (Nat → UInt8)) :
    ∃ s', s.receiveHeader m.hdr mem = some (true, s') ∧
      if m.payload = [] then
        Follows s₀ (done ++ [m]) ⟨.header, rest, a - sizeofSockmsg⟩ s' coming
      else Follows s₀ (done ++ []) ⟨.discard m 0, rest, a - sizeofSockmsg⟩ s' coming := by
  have hmem := List.mem_append_right done (List.mem_cons_self (a := m) (l := rest))
  have hlen := s.length_rspBytes
  rw [hbytes, List.length_append, XsdSockmsg.length_bytes] at hlen
  have ha : a = s.avail := h.wire.avail
  have hnone : ∀ r ∈ s₀.pending, ¬ Answers s₀ m r := by
    intro r hr hans
    have hno := List.find?_eq_none.mp hfind r (h.same.pending ▸ hr)
    exact hno (beq_iff_eq.mpr ((h.same.ids r).trans hans.2.symm))
  have hle : sizeofSockmsg ≤ a := by
    rw [ha, ← hlen]
    exact Nat.le_add_right _ _
  have hdrop : (m.hdr.bytes ++ m.payload ++ rest.flatMap XsMessage.bytes).drop sizeofSockmsg =
      m.payload ++ rest.flatMap XsMessage.bytes := by
    rw [List.append_assoc]
    exact List.drop_left' m.hdr.length_bytes
  refine ⟨_, Xenbus.receiveHeader_unknown (hwf.reply m hmem hwatch) hfind, ?_⟩
  by_cases hempty : m.payload = []
  · rw [if_pos hempty]
    have hzero : m.hdr.len = 0 := by
      rw [← UInt32.toNat_inj, ← m.len_eq, hempty]
      rfl
    refine ⟨h.wire.consume (n := sizeofSockmsg) hle rfl ?_ rfl,
      ⟨h.same.pending, h.same.watches, h.same.allow, h.same.ids⟩, ⟨h.control.1, hzero⟩,
      fun r hr => ?_, ?_⟩
    · exact hdrop.trans (by rw [hempty]; rfl)
    · exact (h.requests r hr).frame _ _ (List.forall_mem_nil _) (List.forall_mem_nil _)
        fun m' hm' => List.mem_singleton.mp hm' ▸ hnone r hr
    · rw [filterMap_concat, handler_reply hwatch, Option.toList_none, List.append_nil]
      exact h.triggered
  · rw [if_neg hempty]
    refine ⟨h.wire.consume (n := sizeofSockmsg) hle rfl hdrop rfl,
      ⟨h.same.pending, h.same.watches, h.same.allow, h.same.ids⟩,
      ⟨h.control.1, List.length_pos_iff.mpr hempty, m.len_eq.symm, hwatch, hnone⟩, fun r hr => ?_, ?_⟩
    · exact (h.requests r hr).frame _ _ (List.forall_mem_nil _)
        (fun m' hm' => List.mem_singleton.mp hm' ▸ hnone r hr) (List.forall_mem_nil _)
    · rw [List.append_nil]
      exact h.triggered

/-- **A call follows the reader**: in front of a message, ... -/
theorem Follows.call_header (h : Follows s₀ done ⟨.header, rest, a⟩ s coming)
    (hwf : WellFormed s₀ (done ++ rest)) (mem : UInt32 → Option (Nat → UInt8)) :
    ∃ s', s.receiveFromXenstored mem =
        some (((⟨.header, rest, a⟩ : Reader).call s₀.known).1, s') ∧
      Follows s₀ (done ++ ((⟨.header, rest, a⟩ : Reader).call s₀.known).2.1)
        ((⟨.header, rest, a⟩ : Reader).call s₀.known).2.2 s' coming := by
  obtain ⟨hcurrent, hdiscard⟩ := h.control
  have ha : a = s.avail := h.wire.avail
  have hstay : Follows s₀ (done ++ []) ⟨.header, rest, a⟩ s coming := by
    rwa [List.append_nil]
  have hbytes := h.wire.bytes
  cases rest with
  | nil =>
    have hempty : s.rspBytes = [] := (List.append_eq_nil_iff.mp hbytes).1
    have hzero : s.avail = 0 := by rw [← s.length_rspBytes, hempty, List.length_nil]
    exact ⟨s, Xenbus.receiveFromXenstored_of_lt hdiscard hcurrent (hzero ▸ by decide), hstay⟩
  | cons m rest =>
    rw [Reader.call]
    by_cases hshort : a < sizeofSockmsg
    · rw [if_pos hshort]
      exact ⟨s, Xenbus.receiveFromXenstored_of_lt hdiscard hcurrent (ha ▸ hshort), hstay⟩
    rw [if_neg hshort]
    change s.rspBytes ++ coming = m.hdr.bytes ++ m.payload ++ rest.flatMap XsMessage.bytes at hbytes
    rw [List.append_assoc] at hbytes
    obtain ⟨ws, hws, hws'⟩ := exists_of_append_eq hbytes (by
      rw [XsdSockmsg.length_bytes, s.length_rspBytes, ← ha]
      exact Nat.le_of_not_lt hshort)
    have hheader := Xenbus.receiveFromXenstored_header mem hdiscard hcurrent hws
    rw [hheader]
    by_cases hwatch : m.IsWatch
    · rw [if_pos hwatch, if_pos (show m.hdr.type = xsWatchEvent from hwatch)]
      by_cases hpart : a < m.size
      · rw [if_pos hpart]
        refine ⟨s, Xenbus.receiveWatch_of_lt ?_, hstay⟩
        rw [← m.len_eq, ← ha]
        exact hpart
      · rw [if_neg hpart]
        obtain ⟨path, token, hm⟩ :=
          hwf.watch m (List.mem_append_right _ List.mem_cons_self) hwatch
        have hlen := s.length_rspBytes
        rw [hws, List.length_append, XsdSockmsg.length_bytes] at hlen
        rw [XsMessage.size] at hpart
        obtain ⟨after, rfl, -⟩ := exists_of_append_eq hws' (by omega)
        exact h.watch hwatch hm hws
    rw [if_neg hwatch, if_neg (show ¬ m.hdr.type = xsWatchEvent from hwatch)]
    cases hfind : s.findPendingRxReq m.hdr.reqId with
    | some r =>
      rw [if_pos (by rw [Xenbus.known, ← h.same.find, hfind]; rfl)]
      exact h.known hwf hwatch hfind hws _
    | none =>
      rw [if_neg (by rw [Xenbus.known, ← h.same.find, hfind]; exact Bool.false_ne_true)]
      obtain ⟨s', hs', hfollows⟩ := h.unknown hwf hwatch hfind hws (mem m.hdr.reqId)
      by_cases hempty : m.payload = []
      · rw [if_pos hempty] at hfollows ⊢
        exact ⟨s', hs', hfollows⟩
      · rw [if_neg hempty] at hfollows ⊢
        exact ⟨s', hs', hfollows⟩

/-- ... in the payload of a reply, ... -/
theorem Follows.call_body (h : Follows s₀ done ⟨.body m k, rest, a⟩ s coming)
    (hwf : WellFormed s₀ (done ++ m :: rest)) (mem : UInt32 → Option (Nat → UInt8)) :
    ∃ s', s.receiveFromXenstored mem =
        some (((⟨.body m k, rest, a⟩ : Reader).call s₀.known).1, s') ∧
      Follows s₀ (done ++ ((⟨.body m k, rest, a⟩ : Reader).call s₀.known).2.1)
        ((⟨.body m k, rest, a⟩ : Reader).call s₀.known).2.2 s' coming := by
  obtain ⟨hdiscard, hk, r, hr, hcurrent, hans⟩ := h.control
  have ha : a = s.avail := h.wire.avail
  have hdone := hwf.not_answers hr hans
  have hrequest := h.requests r hr
  obtain ⟨hholds, -⟩ := hrequest.receiving m k rfl hans
  have hlen : (s.reqs r).replyHeader.len.toNat = m.payload.length := by
    rw [hholds.header, m.len_eq]
  obtain ⟨n, hn⟩ : ∃ n, n = min a (m.payload.length - k) := ⟨_, rfl⟩
  have hbytes : s.rspBytes.take n = (m.payload.drop k).take n := by
    have htake := congrArg (List.take n) h.wire.bytes
    change (s.rspBytes ++ coming).take n =
      (m.payload.drop k ++ rest.flatMap XsMessage.bytes).take n at htake
    rwa [List.take_append_of_le_length (by rw [s.length_rspBytes]; omega),
      List.take_append_of_le_length (by rw [List.length_drop]; omega)] at htake
  have hcall := Xenbus.receiveFromXenstored_body mem (n := n) hdiscard hcurrent
    hholds.received (by rw [hlen]; exact hk) (by rw [hlen, ← ha]; exact hn) h.wire.ahead
  rw [hcall, hlen, Reader.call, ← hn]
  have hrest : n ≤ m.payload.length - k := by omega
  have htaken := hrequest.take hdone hans hrest hk hbytes
  have hother : ∀ j ∈ s₀.pending, j ≠ r → ¬ Answers s₀ m j :=
    fun j hj hne hans' => hne (hwf.eq_of_answers hj hr hans' hans)
  by_cases hend : k + n = m.payload.length
  · rw [if_pos hend, if_pos hend]
    refine ⟨_, rfl, h.wire.consume (n := n) (by change n ≤ a; omega) rfl ?_ rfl,
      ⟨h.same.pending, h.same.watches, h.same.allow, fun j => ?_⟩, ⟨rfl, hdiscard⟩, fun j hj => ?_,
      ?_⟩
    · exact (drop_payload m _ hrest).trans (by rw [hend, List.drop_length]; rfl)
    · exact ids_setReq (s := s.consume n) (r := r)
        (q := { s.takeReply (s.reqs r) n with xenbusReplied := true }) h.same.ids
        (id_takeReply s (s.reqs r) n) j
    · change Request s₀ (done ++ [m]) .header j (((s.consume n).setReq r
        { s.takeReply (s.reqs r) n with xenbusReplied := true }).reqs j)
      by_cases hjr : j = r
      · rw [hjr, Xenbus.reqs_setReq_self]
        exact (hend ▸ htaken).finish hdone hans
      · rw [Xenbus.reqs_setReq_of_ne _ _ hjr]
        exact (h.requests j hj).frame _ _ (fun m' hm' => List.mem_singleton.mp hm' ▸ hother j hj hjr)
          (List.forall_mem_nil _) fun m' hm' => List.mem_singleton.mp hm' ▸ hother j hj hjr
    · rw [filterMap_concat, handler_reply hans.1, Option.toList_none, List.append_nil]
      exact h.triggered
  · rw [if_neg hend, if_neg hend]
    refine ⟨_, rfl, h.wire.consume (n := n) (by change n ≤ a; omega) rfl (drop_payload m _ hrest) rfl,
      ⟨h.same.pending, h.same.watches, h.same.allow,
        ids_setReq (s := s.consume n) h.same.ids (id_takeReply s _ n)⟩,
      ⟨hdiscard, by omega, r, hr, hcurrent, hans⟩, fun j hj => ?_, ?_⟩
    · rw [List.append_nil]
      by_cases hjr : j = r
      · rw [hjr, Xenbus.reqs_setReq_self]
        exact htaken
      · rw [Xenbus.reqs_setReq_of_ne _ _ hjr]
        have hframe := (h.requests j hj).frame (.body m (k + n)) []
          (fun m' hm' => List.mem_singleton.mp hm' ▸ hother j hj hjr)
          (fun m' hm' => List.mem_singleton.mp hm' ▸ hother j hj hjr) (List.forall_mem_nil _)
        rwa [List.append_nil] at hframe
    · rw [List.append_nil]
      exact h.triggered

/-- ... and in what is skipped. -/
theorem Follows.call_discard (h : Follows s₀ done ⟨.discard m k, rest, a⟩ s coming)
    (mem : UInt32 → Option (Nat → UInt8)) :
    ∃ s', s.receiveFromXenstored mem =
        some (((⟨.discard m k, rest, a⟩ : Reader).call s₀.known).1, s') ∧
      Follows s₀ (done ++ ((⟨.discard m k, rest, a⟩ : Reader).call s₀.known).2.1)
        ((⟨.discard m k, rest, a⟩ : Reader).call s₀.known).2.2 s' coming := by
  obtain ⟨hcurrent, hk, hdiscard, hwatch, hnone⟩ := h.control
  have ha : a = s.avail := h.wire.avail
  obtain ⟨n, hn⟩ : ∃ n, n = min a (m.payload.length - k) := ⟨_, rfl⟩
  have hrest : n ≤ m.payload.length - k := by omega
  have hpos : s.consResponseDiscardBytes ≠ 0 := by
    intro hzero
    rw [hzero, UInt32.toNat_zero] at hdiscard
    omega
  have hmin : min s.consResponseDiscardBytes.toNat s.avail = n := by
    rw [hdiscard, ← ha, hn, Nat.min_comm]
  have hleft : (s.consResponseDiscardBytes - UInt32.ofNat n).toNat = m.payload.length - (k + n) := by
    have hlt := s.consResponseDiscardBytes.toNat_lt
    have hofn : (UInt32.ofNat n).toNat = n := MachineWord.toNat_ofNat_of_lt (by omega)
    rw [UInt32.toNat_sub_of_le _ _ (UInt32.le_iff_toNat_le.mpr (by omega)), hofn, hdiscard]
    omega
  rw [Xenbus.receiveFromXenstored_discard hpos, hmin, Reader.call, ← hn]
  by_cases hend : k + n = m.payload.length
  · rw [if_pos hend]
    refine ⟨_, rfl, h.wire.consume (n := n) (by change n ≤ a; omega) rfl ?_ rfl,
      ⟨h.same.pending, h.same.watches, h.same.allow, h.same.ids⟩, ⟨hcurrent, ?_⟩, fun j hj => ?_, ?_⟩
    · exact (drop_payload m _ hrest).trans (by rw [hend, List.drop_length]; rfl)
    · rw [← UInt32.toNat_inj]
      change (s.consResponseDiscardBytes - UInt32.ofNat n).toNat = 0
      rw [hleft, hend, Nat.sub_self]
    · exact (h.requests j hj).frame _ _ (fun m' hm' => List.mem_singleton.mp hm' ▸ hnone j hj)
        (List.forall_mem_nil _) fun m' hm' => List.mem_singleton.mp hm' ▸ hnone j hj
    · rw [filterMap_concat, handler_reply hwatch, Option.toList_none, List.append_nil]
      exact h.triggered
  · rw [if_neg hend]
    refine ⟨_, rfl, h.wire.consume (n := n) (by change n ≤ a; omega) rfl (drop_payload m _ hrest) rfl,
      ⟨h.same.pending, h.same.watches, h.same.allow, h.same.ids⟩,
      ⟨hcurrent, by omega, hleft, hwatch, hnone⟩, fun j hj => ?_, ?_⟩
    · exact (h.requests j hj).frame _ _ (fun m' hm' => List.mem_singleton.mp hm' ▸ hnone j hj)
        (fun m' hm' => List.mem_singleton.mp hm' ▸ hnone j hj) (List.forall_mem_nil _)
    · rw [List.append_nil]
      exact h.triggered

/-- **Every call** follows the reader. -/
theorem Follows.call (h : Follows s₀ done t s coming)
    (hwf : WellFormed s₀ (done ++ (t.mode.current ++ t.rest)))
    (mem : UInt32 → Option (Nat → UInt8)) :
    ∃ s', s.receiveFromXenstored mem = some ((t.call s₀.known).1, s') ∧
      Follows s₀ (done ++ (t.call s₀.known).2.1) (t.call s₀.known).2.2 s' coming := by
  obtain ⟨mode, rest, a⟩ := t
  cases mode with
  | header => exact h.call_header hwf mem
  | body m k => exact h.call_body hwf mem
  | discard m k => exact h.call_discard mem

end V4v.Xenutil
