import LegacyV4v.WatchParse
import LegacyV4v.XenbusReceive

/-! # A full response ring

xenstored waits while the response ring is full, so the driver has to take something out of it.
Replies are taken piece by piece.  A watch event is taken only when it is there whole, and the ring
has 1024 bytes, while the protocol allows a payload of 4096; and a watch event is taken only if no
assertion is upset by a wrap of the indices.  Everything else that the protocol allows is taken. -/
namespace V4v.Xenutil
open IndexedRing

/-- `XENSTORE_PAYLOAD_MAX`. -/
def xenstorePayloadMax : Nat := 4096

/-- What the protocol allows xenstored to send.  The token of a watch event is one of the driver's,
which registers tokens of at most 16 characters. -/
structure XsMessage.Allowed (m : XsMessage) : Prop where
  payload : m.payload.length ≤ xenstorePayloadMax
  reply : ¬ m.IsWatch → m.hdr.type ≤ xsIsDomainIntroduced
  watch : m.IsWatch → ∃ path token, m.payload = path ++ 0 :: (token ++ [0]) ∧
    0 ∉ path ∧ 0 ∉ token ∧ token.length ≤ 16

namespace Xenbus

/-- Between two messages, what is in the ring and what is still to come are messages. -/
def Carries (s : Xenbus) (msgs : List XsMessage) (coming : List UInt8) : Prop :=
  s.consResponseDiscardBytes = 0 → s.currentRxReq = none →
    s.rspBytes ++ coming = msgs.flatMap XsMessage.bytes

/-- `receive_from_xenstored` advances `rsp_cons` or completes the current request. -/
def Moves (austere : Bool) (mem : Option (Nat → UInt8)) (s : Xenbus) : Prop :=
  ∃ again s', s.receiveIn austere mem = some (again, s') ∧
    (s'.sharedBuf.rspCons ≠ s.sharedBuf.rspCons ∨
      ∃ r, s.currentRxReq = some r ∧ s'.currentRxReq = none ∧ (s'.reqs r).xenbusReplied = true)

/-- A watch event is at the head of the full ring that is longer than the ring, or the indices wrap
behind it, and not in it; unless in austere mode, also in it behind the path. -/
def Clogs (austere : Bool) (msgs : List XsMessage) (s : Xenbus) : Prop :=
  s.consResponseDiscardBytes = 0 ∧ s.currentRxReq = none ∧ ∃ m rest, msgs = m :: rest ∧ m.IsWatch ∧
    (xenstoreRingSize < m.size ∨
      4294967296 ≤ s.sharedBuf.rspCons.toNat + xenstoreRingSize ∧
        s.sharedBuf.rspCons.toNat + 16 +
          (if austere then m.payload.length else (cString m.payload).length) < 4294967296)

variable {s s' : Xenbus} {mem : Option (Nat → UInt8)} {austere : Bool} {hdr : XsdSockmsg}
  {path token extra after coming : List UInt8} {m : XsMessage} {msgs rest : List XsMessage} {r : Nat}

/-! ## Calls that move -/

/-- Between two messages, a call moves if and only if it asks to be called again. -/
theorem moves_iff (hcurrent : s.currentRxReq = none) (havail : s.avail ≠ 0) :
    s.Moves austere mem ↔ ∃ s', s.receiveIn austere mem = some (true, s') := by
  constructor
  · rintro ⟨again, s', hcall, hmoved | ⟨r, hr, -⟩⟩
    · cases again with
      | true => exact ⟨s', hcall⟩
      | false => exact absurd (call_of_receiveIn hcall).stayed hmoved
    · cases hcurrent.symm.trans hr
  · rintro ⟨s', hcall⟩
    exact ⟨true, s', hcall, .inl (((call_of_receiveIn hcall).moved fun _ => havail).1)⟩

/-- Bytes to skip are skipped. -/
theorem moves_of_discard (hdiscard : s.consResponseDiscardBytes ≠ 0) (havail : s.avail ≠ 0) :
    s.Moves austere mem := by
  obtain ⟨s', hcall⟩ : ∃ s', s.receiveIn austere mem = some (true, s') := by
    rw [receiveIn]
    exact ⟨_, if_pos hdiscard⟩
  exact ⟨true, s', hcall, .inl (((call_of_receiveIn hcall).moved fun _ => havail).1)⟩

/-- The current request gets bytes of its reply, or has them all. -/
theorem moves_of_current (hdiscard : s.consResponseDiscardBytes = 0) (hcurrent : s.currentRxReq = some r)
    (hle : (s.reqs r).replyPayloadReceived ≤ (s.reqs r).replyHeader.len.toNat) (havail : s.avail ≠ 0)
    (hwindow : s.avail ≤ xenstoreRingSize) : s.Moves austere mem := by
  obtain ⟨n, hn⟩ : ∃ n, n = min s.avail
    ((s.reqs r).replyHeader.len.toNat - (s.reqs r).replyPayloadReceived) := ⟨_, rfl⟩
  have hbody : s.receiveIn austere mem = s.receiveFromXenstored fun _ => mem := by
    rw [receiveIn, receiveFromXenstored]
    dsimp only
    rw [if_neg (not_not_intro hdiscard), if_neg (not_not_intro hdiscard), hcurrent]
  have hcall := hbody.trans (receiveFromXenstored_body _ hdiscard hcurrent rfl hle hn hwindow)
  refine ⟨_, _, hcall, ?_⟩
  by_cases hzero : n = 0
  · right
    have hend : (s.reqs r).replyPayloadReceived + n = (s.reqs r).replyHeader.len.toNat := by omega
    rw [if_pos hend]
    refine ⟨r, hcurrent, rfl, ?_⟩
    change (((s.consume n).setReq r _).reqs r).xenbusReplied = true
    rw [reqs_setReq_self]
  · rw [bne_iff_ne.mpr hzero] at hcall
    exact .inl (((call_of_receiveIn hcall).moved fun _ => havail).1)

/-- The header of a reply is read. -/
theorem receiveHeader_again (htype : hdr.type ≤ xsIsDomainIntroduced) :
    ∃ s', s.receiveHeader hdr mem = some (true, s') := by
  cases hfind : s.findPendingRxReq hdr.reqId with
  | none => exact ⟨_, receiveHeader_unknown htype hfind⟩
  | some r => exact ⟨_, receiveHeader_known htype hfind⟩

/-! ## Watch events -/

/-- The end of a message that is there whole is not behind what is there, as indices, unless the
indices wrap in between. -/
theorem messageEnd_le_iff (hwhole : sizeofSockmsg + hdr.len.toNat ≤ s.avail) :
    s.sharedBuf.rspCons + 16 + hdr.len ≤ s.sharedBuf.rspProd ↔
      s.sharedBuf.rspCons.toNat + s.avail < 4294967296 ∨
        4294967296 ≤ s.sharedBuf.rspCons.toNat + 16 + hdr.len.toNat := by
  rw [messageEnd_eq, rspProd_eq, le_of_offsets _ hwhole s.avail_lt, ← Nat.add_assoc]

/-- In austere mode, a watch event that is there whole is skipped unless the indices wrap behind it. -/
theorem skipWatch_again (hwhole : sizeofSockmsg + hdr.len.toNat ≤ s.avail) :
    (∃ s', s.skipWatch hdr = some (true, s')) ↔
      s.sharedBuf.rspCons.toNat + s.avail < 4294967296 ∨
        4294967296 ≤ s.sharedBuf.rspCons.toNat + 16 + hdr.len.toNat := by
  rw [skipWatch]
  dsimp only
  rw [if_neg (show ¬ (s.sharedBuf.rspProd - s.sharedBuf.rspCons).toNat < _ from
    Nat.not_lt_of_le hwhole), messageEnd_moved hwhole, ← messageEnd_le_iff hwhole]
  by_cases hend : s.sharedBuf.rspCons + 16 + hdr.len ≤ s.sharedBuf.rspProd
  · rw [if_neg (not_not_intro hend)]
    exact iff_of_true ⟨_, rfl⟩ hend
  · rw [if_pos hend]
    refine iff_of_false ?_ hend
    rintro ⟨s', heq⟩
    cases heq

/-- Otherwise it is handled unless the indices wrap behind its path. -/
theorem WatchThere.handled (h : WatchThere s hdr path token extra after) :
    (∃ s', s.receiveWatch hdr = some (true, s')) ↔
      s.sharedBuf.rspCons.toNat + s.avail < 4294967296 ∨
        4294967296 ≤ s.sharedBuf.rspCons.toNat + 16 + path.length := by
  obtain ⟨-, hsize, -⟩ := h.sizes
  have hwhole : sizeofSockmsg + hdr.len.toNat ≤ s.avail := by
    rw [← hsize]
    exact Nat.le_add_right _ _
  rw [receiveWatch_eq_parse s hdr [], h.parse]
  split
  · next hwrap =>
    have hmoved := messageEnd_moved hwhole
    exact iff_of_true ⟨_, congrArg (fun again => some (again, _)) hmoved⟩ hwrap
  · next hwrap =>
    refine iff_of_false ?_ hwrap
    rintro ⟨s', heq⟩
    cases heq

/-- A watch event that is not there whole is waited for, in a ring that has no more room. -/
theorem not_moves_of_half (hdiscard : s.consResponseDiscardBytes = 0) (hcurrent : s.currentRxReq = none)
    (hle : sizeofSockmsg ≤ s.avail) (hwatch : s.header.type = xsWatchEvent)
    (hpart : s.avail < sizeofSockmsg + s.header.len.toNat) : ¬ s.Moves austere mem := by
  have havail : s.avail ≠ 0 := Nat.ne_of_gt (Nat.lt_of_lt_of_le (by decide) hle)
  rw [moves_iff hcurrent havail, receiveIn_header hdiscard hcurrent hle, if_pos hwatch]
  rintro ⟨s', hcall⟩
  rcases watch_cases hcall with ⟨-, hfalse, -⟩ | ⟨hwhole, -⟩
  · cases hfalse
  · exact Nat.not_lt_of_le hwhole hpart

/-! ## The full ring -/

/-- The message at the head of a full ring. -/
theorem Carries.head (h : s.Carries msgs coming) (hdiscard : s.consResponseDiscardBytes = 0)
    (hcurrent : s.currentRxReq = none) (hfull : s.avail = xenstoreRingSize) :
    ∃ m rest after, msgs = m :: rest ∧ s.rspBytes = m.hdr.bytes ++ after ∧
      after ++ coming = m.payload ++ rest.flatMap XsMessage.bytes := by
  have hbytes := h hdiscard hcurrent
  have hlen := s.length_rspBytes
  cases msgs with
  | nil =>
    rw [(List.append_eq_nil_iff.mp hbytes).1, List.length_nil, hfull] at hlen
    cases hlen
  | cons m rest =>
    rw [List.flatMap_cons, XsMessage.bytes, List.append_assoc] at hbytes
    obtain ⟨after, hafter, hrest⟩ := exists_of_append_eq hbytes (by
      rw [XsdSockmsg.length_bytes, hlen, hfull]
      decide)
    exact ⟨m, rest, after, rfl, hafter, hrest⟩

/-- A watch event that fits into the full ring is there. -/
theorem watchThere_of_full (hfull : s.avail = xenstoreRingSize)
    (hbytes : s.rspBytes = m.hdr.bytes ++ after)
    (hrest : after ++ coming = m.payload ++ rest.flatMap XsMessage.bytes)
    (hfits : m.size ≤ xenstoreRingSize) (hpayload : m.payload = path ++ 0 :: (token ++ [0]))
    (hpath : 0 ∉ path) (htoken : 0 ∉ token) (hshort : token.length ≤ 16) :
    ∃ behind, WatchThere s m.hdr path token [] behind := by
  have hlen := s.length_rspBytes
  rw [hbytes, List.length_append, XsdSockmsg.length_bytes, hfull] at hlen
  rw [XsMessage.size] at hfits
  obtain ⟨behind, rfl, -⟩ := exists_of_append_eq hrest (by omega)
  refine ⟨behind, ?_, ?_, hpath, htoken, hshort, Nat.le_of_eq hfull⟩
  · rw [hbytes, hpayload, List.append_assoc m.hdr.bytes]
  · rw [← m.len_eq, hpayload]

/-- In front of a watch event, ... -/
theorem moves_watch_iff (hdiscard : s.consResponseDiscardBytes = 0) (hcurrent : s.currentRxReq = none)
    (hfull : s.avail = xenstoreRingSize) (hbytes : s.rspBytes = m.hdr.bytes ++ after)
    (hrest : after ++ coming = m.payload ++ rest.flatMap XsMessage.bytes) (hwatch : m.IsWatch)
    (hallowed : m.Allowed) : s.Moves austere mem ↔ ¬ s.Clogs austere (m :: rest) := by
  have hle : sizeofSockmsg ≤ s.avail := by
    rw [hfull]
    decide
  have havail : s.avail ≠ 0 := Nat.ne_of_gt (Nat.lt_of_lt_of_le (by decide) hle)
  have hheader := header_eq hbytes
  have hclogs : s.Clogs austere (m :: rest) ↔ xenstoreRingSize < m.size ∨
      4294967296 ≤ s.sharedBuf.rspCons.toNat + xenstoreRingSize ∧
        s.sharedBuf.rspCons.toNat + 16 +
          (if austere then m.payload.length else (cString m.payload).length) < 4294967296 := by
    refine ⟨?_, fun h => ⟨hdiscard, hcurrent, m, rest, rfl, hwatch, h⟩⟩
    rintro ⟨-, -, m', rest', heq, -, h⟩
    obtain ⟨rfl, -⟩ := List.cons.inj heq
    exact h
  by_cases hfits : xenstoreRingSize < m.size
  · refine iff_of_false ?_ (not_not_intro (hclogs.mpr (.inl hfits)))
    refine not_moves_of_half hdiscard hcurrent hle (hheader.symm ▸ hwatch) ?_
    rw [hheader, hfull, ← m.len_eq]
    exact hfits
  · have hwhole : sizeofSockmsg + m.hdr.len.toNat ≤ s.avail := by
      rw [hfull, ← m.len_eq]
      exact Nat.le_of_not_lt hfits
    obtain ⟨path, token, hpayload, hpath, htoken, hshort⟩ := hallowed.watch hwatch
    rw [hclogs, or_iff_right hfits, moves_iff hcurrent havail, receiveIn_header hdiscard hcurrent hle,
      hheader, if_pos (show m.hdr.type = xsWatchEvent from hwatch)]
    cases austere with
    | true =>
      rw [if_pos rfl, if_pos rfl, skipWatch_again hwhole, hfull, m.len_eq]
      omega
    | false =>
      obtain ⟨behind, hthere⟩ := watchThere_of_full hfull hbytes hrest (Nat.le_of_not_lt hfits) hpayload
        hpath htoken hshort
      rw [if_neg Bool.false_ne_true, if_neg Bool.false_ne_true, hthere.handled, hfull, hpayload,
        cString_append hpath]
      omega

/-- **A full ring** is a deadlock exactly when it is clogged by a watch event. -/
theorem full_ring_moves_iff {c : Client} (h : Client.Reached c) (hfull : c.bus.avail = xenstoreRingSize)
    (hcarries : c.bus.Carries msgs coming) (hallowed : ∀ m ∈ msgs, m.Allowed) :
    c.bus.Moves austere mem ↔ ¬ c.bus.Clogs austere msgs := by
  have havail : c.bus.avail ≠ 0 := by
    rw [hfull]
    decide
  by_cases hdiscard : c.bus.consResponseDiscardBytes = 0
  swap
  · exact iff_of_true (moves_of_discard hdiscard havail) fun hclogs => hdiscard hclogs.1
  cases hcurrent : c.bus.currentRxReq with
  | some r =>
    obtain ⟨-, hle⟩ := h.sound.current r hcurrent
    refine iff_of_true (moves_of_current hdiscard hcurrent hle havail h.sound.window) fun hclogs => ?_
    cases hclogs.2.1.symm.trans hcurrent
  | none =>
    obtain ⟨m, rest, after, rfl, hbytes, hrest⟩ := hcarries.head hdiscard hcurrent hfull
    have hm := hallowed m List.mem_cons_self
    by_cases hwatch : m.IsWatch
    · exact moves_watch_iff hdiscard hcurrent hfull hbytes hrest hwatch hm
    · refine iff_of_true ?_ ?_
      · have hle : sizeofSockmsg ≤ c.bus.avail := by
          rw [hfull]
          decide
        rw [moves_iff hcurrent havail, receiveIn_header hdiscard hcurrent hle, header_eq hbytes,
          if_neg (show ¬ m.hdr.type = xsWatchEvent from hwatch)]
        exact receiveHeader_again (hm.reply hwatch)
      · rintro ⟨-, -, m', rest', heq, hwatch', -⟩
        obtain ⟨rfl, -⟩ := List.cons.inj heq
        exact hwatch hwatch'

end Xenbus

namespace Client
open Xenbus

/-- A reply that nobody waits for, of 1008 bytes. -/
def fullReply : XsMessage := ⟨⟨2, 7, 0, 1008⟩, List.replicate 1008 0, List.length_replicate⟩

/-- A watch event whose path has 1100 characters. -/
def longWatch : XsMessage :=
  ⟨⟨15, 0, 0, 1103⟩, List.replicate 1100 97 ++ 0 :: ([98] ++ [0]), by
    rw [List.length_append, List.length_replicate]
    rfl⟩

/-- The ring is full of the reply, which is skipped. -/
theorem full_reply_moves :
    Moves false none { idle.bus with sharedBuf := idle.bus.sharedBuf.answer fullReply.bytes } := by
  have hsize : fullReply.bytes.length = xenstoreRingSize := by
    rw [XsMessage.length_bytes, XsMessage.size, fullReply, List.length_replicate]
  have hle := Nat.le_of_eq hsize
  have hcarries : Carries { idle.bus with sharedBuf := idle.bus.sharedBuf.answer fullReply.bytes }
      [fullReply] [] := fun _ _ => by
    rw [rspBytes_answer rfl hle, List.flatMap_cons, List.flatMap_nil]
  refine (full_ring_moves_iff (reached_idle.answer hle) ((avail_answer rfl hle).trans hsize) hcarries
    fun m hm => ?_).mpr ?_
  · obtain rfl := List.mem_singleton.mp hm
    refine ⟨?_, fun _ => by decide, fun hwatch => absurd hwatch (by decide)⟩
    rw [fullReply, List.length_replicate]
    decide
  · rintro ⟨-, -, m, rest, heq, hwatch, -⟩
    obtain ⟨rfl, -⟩ := List.cons.inj heq
    exact absurd hwatch (by decide)

/-- The first 1024 bytes of the watch event are in the ring, and it stays so. -/
theorem long_watch_clogs :
    ¬ ∀ (c : Client) (austere : Bool) (mem : Option (Nat → UInt8)) (msgs : List XsMessage)
      (coming : List UInt8), Reached c → c.bus.avail = xenstoreRingSize → c.bus.Carries msgs coming →
        (∀ m ∈ msgs, m.Allowed) → c.bus.Moves austere mem := by
  intro hall
  have hsize : longWatch.payload.length = 1103 := longWatch.len_eq
  have hbytes : (longWatch.bytes.take 1024).length = xenstoreRingSize := by
    rw [List.length_take, XsMessage.length_bytes, XsMessage.size, hsize]
    rfl
  have hle := Nat.le_of_eq hbytes
  obtain ⟨bus, hbus⟩ : ∃ bus, bus = { idle.bus with
      sharedBuf := idle.bus.sharedBuf.answer (longWatch.bytes.take 1024) } := ⟨_, rfl⟩
  have hanswer : Reached ⟨bus, idle.txIo⟩ := hbus ▸ reached_idle.answer hle
  have hbuf : bus.sharedBuf = idle.bus.sharedBuf.answer (longWatch.bytes.take 1024) := by rw [hbus]
  have hfull := (avail_answer hbuf hle).trans hbytes
  have hhead : bus.header = longWatch.hdr := by
    have htake : bus.rspBytes = longWatch.hdr.bytes ++ longWatch.payload.take 1008 := by
      rw [rspBytes_answer hbuf hle, XsMessage.bytes, List.take_append, XsdSockmsg.length_bytes,
        List.take_of_length_le (by rw [XsdSockmsg.length_bytes]; decide)]
      rfl
    exact header_eq htake
  have hstuck : ¬ bus.Moves false none := by
    refine not_moves_of_half (by rw [hbus]; rfl) (by rw [hbus]; rfl) (by rw [hfull]; decide)
      (by rw [hhead]; rfl) ?_
    rw [hhead, hfull]
    decide
  refine hstuck (hall ⟨bus, idle.txIo⟩ false none [longWatch] (longWatch.bytes.drop 1024) hanswer hfull
    (fun _ _ => ?_) fun m hm => ?_)
  · rw [rspBytes_answer hbuf hle, List.take_append_drop, List.flatMap_cons, List.flatMap_nil,
      List.append_nil]
  · obtain rfl := List.mem_singleton.mp hm
    refine ⟨by rw [hsize]; decide, fun hwatch => absurd rfl hwatch, fun _ =>
      ⟨List.replicate 1100 97, [98], rfl, fun hmem => ?_, by decide, by decide⟩⟩
    exact absurd (List.eq_of_mem_replicate hmem) (by decide)

end Client

end V4v.Xenutil
