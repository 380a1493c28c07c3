import LegacyV4v.WatchParse
import LegacyV4v.XenbusReceive
import LegacyV4v.XenbusTransaction

/-! # What is behind a successful reply

`get_request_results` goes by the type of the reply; whether there is a buffer, and whether the reply
fits, it does not ask.  The buffer of a request is allocated for the first header that comes, and is
kept when the domain resumes in the middle of the reply, so that the second reply may be longer.  A
log is written along with every run: for each request the bytes that have come since its header, and
whether there was room for them.  It decides whether the readers of the reply are safe. -/
namespace V4v.Xenutil
open GuardedRun IndexedRing

/-! ## The results of a request -/

/-- `XS_ERROR`. -/
def xsError : UInt32 := 16

/-- The text in a buffer. -/
def text (bs : List UInt8) : String := .ofList ((cString bs).map fun b => Char.ofNat b.toNat)

/-- What `get_request_results` makes of the reply. -/
def PendingReq.status (q : PendingReq) : Ntstatus :=
  if q.replyHeader.type = xsError then
    match q.replyPayload with
    | some payload => getError (text payload)
    | none => statusInsufficientResources
  else statusSuccess

/-- Success is what a reply says that is no error. -/
theorem PendingReq.status_eq_success {q : PendingReq} :
    q.status = statusSuccess ↔ q.replyHeader.type ≠ xsError := by
  have hall : ∀ e ∈ xsdErrors, e.1 ≠ statusSuccess := by decide
  rw [status]
  split
  · next herror =>
    refine iff_of_false ?_ (not_not_intro herror)
    split
    · rw [getError]
      split
      · next e hfind => exact hall e (List.mem_of_find?_eq_some hfind)
      · decide
    · decide
  · next herror => exact iff_of_true rfl herror

/-- `get_request_results`, when the reply is there. -/
def Xenbus.getRequestResults (s : Xenbus) (r : Nat) : Option (Ntstatus × Xenbus) :=
  (s.unhookRequest r).map fun s' => ((s.reqs r).status, s')

theorem replyHeader_startReply (q : PendingReq) (hdr : XsdSockmsg) (mem : Option (Nat → UInt8)) :
    (q.startReply hdr mem).replyHeader = hdr := by
  unfold PendingReq.startReply
  dsimp only
  split
  · rfl
  · split <;> rfl

/-! ## The readers of a reply -/

/-- What is found at `*Res`, in `*len` bytes, when `xenbus_read_bin` is back; `none` if that is not all in
the buffer. -/
def xenbusReadBin (q : PendingReq) : Option (List UInt8) :=
  q.replyPayload.bind fun buf =>
    if q.replyHeader.len.toNat ≤ buf.length then some (buf.take q.replyHeader.len.toNat) else none

/-- What `xenbus_read` copies out of it. -/
def xenbusRead (q : PendingReq) : Option (List UInt8) := (xenbusReadBin q).map (· ++ [0])

/-- The loop of `xenbus_ls` from the offset `x` on; `none` if `strlen` comes to the end of the buffer. -/
def splitReply (buf : List UInt8) (len x : Nat) : Option (List (List UInt8)) :=
  if x < len then
    if 0 ∈ buf.drop x then
      (splitReply buf len (x + (cString (buf.drop x)).length + 1)).map (cString (buf.drop x) :: ·)
    else none
  else some []
termination_by len - x

/-- What `xenbus_ls` makes of the reply. -/
def xenbusLs (q : PendingReq) : Option (List (List UInt8)) :=
  (xenbusReadBin q).bind fun _ => q.replyPayload.bind fun buf =>
    splitReply buf q.replyHeader.len.toNat 0

/-- These are the names that a reply of such bytes has. -/
def Names (bs : List UInt8) (names : List (List UInt8)) : Prop :=
  bs = names.flatMap (· ++ [0]) ∧ ∀ name ∈ names, 0 ∉ name

/-- **A reply is backed** by these bytes: there is a buffer, and it has all of them; and its readers find
them. -/
structure Backed (q : PendingReq) (got : List UInt8) : Prop where
  allocated : ∃ buf, q.replyPayload = some buf ∧ q.replyHeader.len.toNat ≤ buf.length ∧
    buf.take q.replyHeader.len.toNat = got
  complete : got.length = q.replyHeader.len.toNat
  readBin : xenbusReadBin q = some got
  read : xenbusRead q = some (got ++ [0])
  ls : ∀ names, Names got names → xenbusLs q = some names

/-- The string at an offset of the buffer. -/
theorem cString_drop {buf before name after : List UInt8} {len : Nat}
    (hbuf : buf.take len = before ++ (name ++ 0 :: after)) (hname : 0 ∉ name) :
    0 ∈ buf.drop before.length ∧ cString (buf.drop before.length) = name := by
  have hsplit : buf.drop before.length = name ++ 0 :: (after ++ buf.drop len) := by
    conv_lhs => rw [← List.take_append_drop len buf, hbuf]
    rw [List.append_assoc, List.drop_left' rfl, List.append_assoc]
    rfl
  rw [hsplit, cString_append hname]
  exact ⟨List.mem_append_right _ List.mem_cons_self, rfl⟩

/-- The names are found one after the other. -/
theorem splitReply_of_names {buf before : List UInt8} {names : List (List UInt8)} {len : Nat}
    (hlen : len ≤ buf.length) (hbuf : buf.take len = before ++ names.flatMap (· ++ [0]))
    (hnames : ∀ name ∈ names, 0 ∉ name) : splitReply buf len before.length = some names := by
  have hcount := congrArg List.length hbuf
  rw [List.length_take, Nat.min_eq_left hlen, List.length_append] at hcount
  induction names generalizing before with
  | nil =>
    rw [List.flatMap_nil, List.length_nil] at hcount
    rw [splitReply, if_neg (by omega)]
  | cons name names ih =>
    rw [List.flatMap_cons, List.length_append, List.length_append, List.length_singleton] at hcount
    have hhere : buf.take len = before ++ (name ++ 0 :: names.flatMap (· ++ [0])) := by
      rw [hbuf, List.flatMap_cons, List.append_assoc name, List.singleton_append]
    obtain ⟨hnul, hstring⟩ := cString_drop hhere (hnames name List.mem_cons_self)
    have hnext : buf.take len = (before ++ (name ++ [0])) ++ names.flatMap (· ++ [0]) := by
      rw [hbuf, List.flatMap_cons, List.append_assoc before, List.append_assoc name]
    have hlength : before.length + name.length + 1 = (before ++ (name ++ [0])).length := by
      rw [List.length_append, List.length_append, List.length_singleton, Nat.add_assoc]
    rw [splitReply, if_pos (by omega), if_pos hnul, hstring, hlength,
      ih hnext (fun n hn => hnames n (List.mem_cons_of_mem _ hn)) (by omega)]
    rfl

/-- The readers of a reply that is in the buffer are safe. -/
theorem backed_of_take {q : PendingReq} {got buf : List UInt8} (hpayload : q.replyPayload = some buf)
    (hlen : q.replyHeader.len.toNat ≤ buf.length) (htake : buf.take q.replyHeader.len.toNat = got) :
    Backed q got := by
  have hread : xenbusReadBin q = some got := by
    rw [xenbusReadBin, hpayload, Option.bind_some, if_pos hlen, htake]
  refine ⟨⟨buf, hpayload, hlen, htake⟩, ?_, hread, by rw [xenbusRead, hread]; rfl, fun names hnames => ?_⟩
  · rw [← htake, List.length_take, Nat.min_eq_left hlen]
  · rw [xenbusLs, hread, Option.bind_some, hpayload, Option.bind_some]
    have hbuf : buf.take q.replyHeader.len.toNat = [] ++ names.flatMap (· ++ [0]) := htake.trans hnames.1
    exact splitReply_of_names hlen hbuf hnames.2

/-! ## The log -/

/-- What is written down of a request: whether the caller supplied a buffer, the bytes that have come
since the header of its reply, whether there was room for the reply when its header came, and whether
the domain has resumed in the middle of it. -/
structure ReplyLog where
  supplied : Bool
  got : List UInt8
  room : Bool
  cut : Bool

/-- There is room for a reply: it fits into the buffer, or there is none yet and memory is found. -/
def PendingReq.roomFor (q : PendingReq) (hdr : XsdSockmsg) (mem : Option (Nat → UInt8)) : Bool :=
  match q.replyPayload with
  | some _ => decide (hdr.len.toNat ≤ q.replyBufSize)
  | none => mem.isSome

/-- How many bytes of the reply to the request come with the next call. -/
def Xenbus.incoming (s : Xenbus) (r : Nat) : Nat :=
  min s.avail ((s.reqs r).replyHeader.len.toNat - (s.reqs r).replyPayloadReceived)

/-- What a call of `receive_from_xenstored` adds to the log. -/
def Xenbus.recordReceive (s : Xenbus) (mem : Option (Nat → UInt8)) (log : Nat → ReplyLog) :
    Nat → ReplyLog :=
  if s.consResponseDiscardBytes ≠ 0 then log
  else
    match s.currentRxReq with
    | some r =>
      Function.update log r { log r with got := (log r).got ++ s.rspBytes.take (s.incoming r) }
    | none =>
      if s.avail < sizeofSockmsg ∨ s.header.type = xsWatchEvent then log
      else
        match s.findPendingRxReq s.header.reqId with
        | none => log
        | some r => Function.update log r
            { log r with got := [], room := (s.reqs r).roomFor s.header mem, cut := false }

/-- A buffer keeps its size. -/
theorem Xenbus.length_takeReply {s : Xenbus} {q : PendingReq} {n : Nat} (hsized : q.Sized)
    (hlt : q.replyPayloadReceived < 4294967296) (hn : n ≤ s.avail) :
    (s.takeReply q n).replyPayload.map List.length = q.replyPayload.map List.length := by
  cases hpayload : q.replyPayload with
  | some buf =>
    rw [PendingReq.Sized, hpayload, Option.getD_some] at hsized
    obtain ⟨buf', hbuf', hlen, -⟩ := payload_takeReply hpayload hsized hlt hn
    rw [hbuf', Option.map_some, Option.map_some, hlen]
  | none =>
    rw [takeReply]
    split
    · change (q.replyPayload.map _).map List.length = none
      rw [hpayload]
      rfl
    · exact congrArg (Option.map List.length) hpayload

theorem Xenbus.recordReceive_body {s : Xenbus} {r : Nat} {mem : Option (Nat → UInt8)}
    {log : Nat → ReplyLog} (hdiscard : s.consResponseDiscardBytes = 0) (hcurrent : s.currentRxReq = some r) :
    s.recordReceive mem log =
      Function.update log r { log r with got := (log r).got ++ s.rspBytes.take (s.incoming r) } := by
  rw [recordReceive, if_neg (not_not_intro hdiscard), hcurrent]

theorem Xenbus.recordReceive_known {s : Xenbus} {r : Nat} {mem : Option (Nat → UInt8)}
    {log : Nat → ReplyLog} (hdiscard : s.consResponseDiscardBytes = 0) (hcurrent : s.currentRxReq = none)
    (hle : sizeofSockmsg ≤ s.avail) (hwatch : s.header.type ≠ xsWatchEvent)
    (hfind : s.findPendingRxReq s.header.reqId = some r) :
    s.recordReceive mem log = Function.update log r
      { log r with got := [], room := (s.reqs r).roomFor s.header mem, cut := false } := by
  rw [recordReceive, if_neg (not_not_intro hdiscard), hcurrent]
  dsimp only
  rw [if_neg (not_or_intro (Nat.not_lt_of_le hle) hwatch), hfind]

namespace Client

/-- What is written down of a step. -/
def record (c : Client) : Act → (Nat → ReplyLog) → Nat → ReplyLog
  | .submit r _ _ size, log => Function.update log r ⟨size.isSome, [], size.isSome, false⟩
  | .receive _ mem, log => c.bus.recordReceive mem log
  | .resume, log =>
    match c.bus.currentRxReq with
    | some r =>
      if (c.bus.reqs r).replyPayloadReceived < (c.bus.reqs r).replyHeader.len.toNat then
        Function.update log r { log r with cut := true }
      else log
    | none => log
  | _, log => log

/-- The client can get here, with this log. -/
abbrev Logged (u : Client × (Nat → ReplyLog)) : Prop :=
  Reachable (fun u => Boot u.1) (Recorded Step record) (fun _ _ => True) u

/-- Every run has a log. -/
theorem Reached.logged {c : Client} (h : Reached c) : ∃ log, Logged (c, log) :=
  Reachable.recorded record (fun _ => ⟨false, [], false, false⟩) h

/-- What holds between two steps of a pending request and of what was written down of it; `current` says
whether it is being received into. -/
structure Kept (q : PendingReq) (l : ReplyLog) (current : Prop) : Prop where
  sized : q.Sized
  counted : l.got.length = q.replyPayloadReceived
  bounded : q.replyPayloadReceived ≤ q.replyHeader.len.toNat
  room : l.room = true → ∃ buf, q.replyPayload = some buf ∧ q.replyHeader.len.toNat ≤ buf.length ∧
    buf.take l.got.length = l.got
  noRoom : l.room = false → ∀ buf, q.replyPayload = some buf → buf.length < q.replyHeader.len.toNat
  cut : l.cut = true → q.replyPayloadReceived < q.replyHeader.len.toNat
  uncut : current → l.cut = false
  whole : l.cut = false → ¬ current → q.xenbusReplied = true →
    q.replyPayloadReceived = q.replyHeader.len.toNat

variable {q : PendingReq} {l : ReplyLog} {current : Prop} {s s' : Xenbus} {r n : Nat}

/-- **What is behind a reply** that `get_request_results` finds. -/
theorem Kept.backed_iff (h : Kept q l current) (hcurrent : ¬ current) (hreplied : q.xenbusReplied = true) :
    Backed q l.got ↔ l.room = true ∧ l.cut = false := by
  constructor
  · intro hb
    refine ⟨?_, ?_⟩
    · by_contra hroom
      obtain ⟨buf, hbuf, hlen, -⟩ := hb.allocated
      exact Nat.not_lt_of_le hlen (h.noRoom (Bool.eq_false_of_not_eq_true hroom) buf hbuf)
    · by_contra hcut
      have hless := h.cut (Bool.eq_true_of_not_eq_false hcut)
      rw [← h.counted, hb.complete] at hless
      exact Nat.lt_irrefl _ hless
  · rintro ⟨hroom, hcut⟩
    obtain ⟨buf, hbuf, hlen, htake⟩ := h.room hroom
    rw [h.counted, h.whole hcut hcurrent hreplied] at htake
    exact backed_of_take hbuf hlen htake

/-- A request is submitted. -/
theorem kept_newRequest {hdr : XsdSockmsg} {io : List (List UInt8)} {size : Option Nat}
    (hreq : newRequest hdr io size = some q) : Kept q ⟨size.isSome, [], size.isSome, false⟩ False := by
  cases size with
  | none =>
    obtain rfl := Option.some.inj hreq
    exact ⟨rfl, rfl, Nat.le_refl _, fun hroom => absurd hroom Bool.false_ne_true,
      fun _ buf hbuf => absurd hbuf.symm (Option.some_ne_none buf),
      fun hcut => absurd hcut Bool.false_ne_true, fun _ => rfl,
      fun _ _ hreplied => absurd hreplied Bool.false_ne_true⟩
  | some size =>
    rw [newRequest, setReplyBuffer] at hreq
    split at hreq
    · cases hreq
    · obtain rfl := Option.some.inj hreq
      exact ⟨List.length_replicate, rfl, Nat.le_refl _,
        fun _ => ⟨_, rfl, Nat.zero_le _, rfl⟩,
        fun hroom => absurd hroom.symm Bool.false_ne_true,
        fun hcut => absurd hcut Bool.false_ne_true, fun _ => rfl,
        fun _ _ hreplied => absurd hreplied Bool.false_ne_true⟩

/-- The header of a reply comes. -/
theorem Kept.start (h : Kept q l current) (hdr : XsdSockmsg) (mem : Option (Nat → UInt8)) :
    Kept (q.startReply hdr mem) { l with got := [], room := q.roomFor hdr mem, cut := false } True := by
  have hsized : (q.replyPayload.getD []).length = q.replyBufSize := h.sized
  have hcut : false = true → ∀ {P : Prop}, P := fun hcut => absurd hcut Bool.false_ne_true
  unfold PendingReq.startReply PendingReq.roomFor
  cases hpayload : q.replyPayload with
  | some buf =>
    rw [hpayload, Option.getD_some] at hsized
    refine ⟨hsized, rfl, Nat.zero_le _, fun hroom => ⟨buf, rfl, ?_, rfl⟩, fun hroom buf' hbuf' => ?_,
      fun hcut' => hcut hcut', fun _ => rfl, fun _ hnot => absurd trivial hnot⟩
    · rw [hsized]
      exact of_decide_eq_true hroom
    · obtain rfl := Option.some.inj hbuf'
      rw [hsized]
      exact Nat.lt_of_not_le (of_decide_eq_false hroom)
  | none =>
    cases mem with
    | some mem =>
      have hlen : (peek mem 0 hdr.len.toNat).length = hdr.len.toNat := by
        rw [peek, List.length_map, List.length_range]
      exact ⟨hlen, rfl, Nat.zero_le _, fun _ => ⟨_, rfl, Nat.le_of_eq hlen.symm, rfl⟩,
        fun hroom => absurd hroom.symm Bool.false_ne_true, fun hcut' => hcut hcut', fun _ => rfl,
        fun _ hnot => absurd trivial hnot⟩
    | none =>
      exact ⟨rfl, rfl, Nat.zero_le _, fun hroom => absurd hroom Bool.false_ne_true,
        fun _ buf hbuf => absurd hbuf.symm (Option.some_ne_none buf),
        fun hcut' => hcut hcut', fun _ => rfl, fun _ hnot => absurd trivial hnot⟩

/-- Bytes of the reply come. -/
theorem Kept.take (h : Kept q l True) (hn : n = min s.avail (q.replyHeader.len.toNat - q.replyPayloadReceived)) :
    Kept (s.takeReply q n) { l with got := l.got ++ s.rspBytes.take n } True := by
  have hlt := q.replyHeader.len.toNat_lt
  have hbounded := h.bounded
  have hcounted := h.counted
  have hheader := Xenbus.replyHeader_takeReply s q n
  have hsized : (q.replyPayload.getD []).length = q.replyBufSize := h.sized
  have htaken : (s.rspBytes.take n).length = n := by
    rw [List.length_take, s.length_rspBytes]
    omega
  have hbuffer : ∀ buf, q.replyPayload = some buf → buf.length = q.replyBufSize := fun buf hbuf => by
    rwa [hbuf, Option.getD_some] at hsized
  have hsame := Xenbus.length_takeReply (s := s) (n := n) h.sized (by omega) (by omega)
  have hsize := Xenbus.replyBufSize_takeReply s q n
  refine ⟨?_, ?_, ?_, fun hroom => ?_, fun hroom buf' hbuf' => ?_, fun hcut => ?_, h.uncut,
    fun _ hnot => absurd trivial hnot⟩
  · have hgetD := congrArg (Option.getD · 0) hsame
    rwa [← List.length_nil, Option.getD_map, Option.getD_map, hsized, ← hsize] at hgetD
  · rw [List.length_append, htaken, hcounted]
    rfl
  · rw [hheader]
    change q.replyPayloadReceived + n ≤ _
    omega
  · obtain ⟨buf, hbuf, hfits, htake⟩ := h.room hroom
    obtain ⟨buf', hbuf', hlen', htake'⟩ :=
      Xenbus.payload_takeReply (s := s) (n := n) hbuf (hbuffer buf hbuf) (by omega) (by omega)
    refine ⟨buf', hbuf', by rwa [hheader, hlen'], ?_⟩
    rw [List.length_append, htaken, hcounted, htake', ← hcounted, htake, List.take_of_length_le]
    rw [List.length_append, htaken]
    omega
  · rw [hbuf', Option.map_some] at hsame
    obtain ⟨buf, hbuf, hlen⟩ := Option.map_eq_some_iff.mp hsame.symm
    rw [hheader, ← hlen]
    exact h.noRoom hroom buf hbuf
  · exact absurd ((h.uncut trivial).symm.trans hcut) Bool.false_ne_true

/-- The reply is complete. -/
theorem Kept.finish (h : Kept q l True) (hend : q.replyPayloadReceived = q.replyHeader.len.toNat) :
    Kept { q with xenbusReplied := true } l False :=
  ⟨h.sized, h.counted, h.bounded, h.room, h.noRoom, h.cut, False.elim, fun _ _ _ => hend⟩

theorem Kept.congr {current' : Prop} (h : Kept q l current) (hiff : current ↔ current') :
    Kept q l current' :=
  ⟨h.sized, h.counted, h.bounded, h.room, h.noRoom, h.cut, fun hc => h.uncut (hiff.mpr hc),
    fun hcut hc => h.whole hcut (hc ∘ hiff.mp)⟩

/-- The domain resumes. -/
theorem Kept.resume (h : Kept q l current) (hcurrent : ¬ current) : Kept q l False :=
  h.congr (iff_of_false hcurrent id)

/-- The domain resumes in the reply to the request. -/
theorem Kept.cutOff (h : Kept q l current) (hpart : q.replyPayloadReceived < q.replyHeader.len.toNat) :
    Kept q { l with cut := true } False :=
  ⟨h.sized, h.counted, h.bounded, h.room, h.noRoom, fun _ => hpart, False.elim,
    fun hcut => absurd hcut.symm Bool.false_ne_true⟩

/-- The domain resumes behind it. -/
theorem Kept.wholeOff (h : Kept q l current) (hwhole : ¬ q.replyPayloadReceived < q.replyHeader.len.toNat) :
    Kept q l False :=
  ⟨h.sized, h.counted, h.bounded, h.room, h.noRoom, h.cut, False.elim,
    fun _ _ _ => Nat.le_antisymm h.bounded (Nat.le_of_not_lt hwhole)⟩

/-- What was written down of all pending requests is right. -/
def KeptAll (s : Xenbus) (log : Nat → ReplyLog) : Prop :=
  ∀ r ∈ s.pending, Kept (s.reqs r) (log r) (s.currentRxReq = some r)

variable {log : Nat → ReplyLog} {mem : Option (Nat → UInt8)} {again : Bool}

/-- What changes one request and its log leaves the others right. -/
theorem KeptAll.update (h : KeptAll s log) (hpending : s'.pending = s.pending)
    (hreqs : ∀ j, j ≠ r → s'.reqs j = s.reqs j)
    (hcurrent : ∀ j, j ≠ r → (s.currentRxReq = some j ↔ s'.currentRxReq = some j))
    (hr : Kept (s'.reqs r) l (s'.currentRxReq = some r)) :
    KeptAll s' (Function.update log r l) := by
  intro j hj
  by_cases hjr : j = r
  · subst hjr
    rwa [Function.update_self]
  · rw [Function.update_of_ne hjr, hreqs j hjr]
    exact (h j (hpending ▸ hj)).congr (hcurrent j hjr)

/-- **A call** keeps the log right. -/
theorem KeptAll.call (h : KeptAll s log) (hsound : ∀ r, s.currentRxReq = some r → r ∈ s.pending)
    (hcall : s.Call mem again s') : KeptAll s' (s.recordReceive mem log) := by
  cases hcall with
  | discard hdiscard _ =>
    rw [Xenbus.recordReceive, if_pos hdiscard]
    exact h
  | @body r n hdiscard hcurrent hle hn =>
    rw [Xenbus.recordReceive_body hdiscard hcurrent]
    have hkept := ((h r (hsound r hcurrent)).congr (iff_true_intro hcurrent)).take hn
    rw [← Xenbus.incoming] at hn
    rw [hn] at hkept ⊢
    have hother : ∀ j, j ≠ r → s.currentRxReq ≠ some j := fun j hj heq =>
      hj (Option.some.inj (heq.symm.trans hcurrent))
    split
    · next hend =>
      refine h.update rfl (fun j hj => Xenbus.reqs_setReq_of_ne (s.consume _) _ hj)
        (fun j hj => iff_of_false (hother j hj) fun heq => Option.some_ne_none j heq.symm) ?_
      change Kept (((s.consume _).setReq r _).reqs r) _ (none = some r)
      rw [Xenbus.reqs_setReq_self]
      exact (hkept.finish (by rw [Xenbus.replyHeader_takeReply]; exact hend)).congr
        (iff_of_false id fun heq => Option.some_ne_none r heq.symm)
    · refine h.update rfl (fun j hj => Xenbus.reqs_setReq_of_ne (s.consume _) _ hj) (fun _ _ => Iff.rfl) ?_
      rw [Xenbus.reqs_setReq_self]
      exact hkept.congr (iff_of_true trivial hcurrent)
  | short hdiscard hcurrent hshort =>
    rw [Xenbus.recordReceive, if_neg (not_not_intro hdiscard), hcurrent]
    dsimp only
    rw [if_pos (.inl hshort)]
    exact h
  | half hdiscard hcurrent hle hwatch hpart =>
    rw [Xenbus.recordReceive, if_neg (not_not_intro hdiscard), hcurrent]
    dsimp only
    rw [if_pos (.inr hwatch)]
    exact h
  | watch hdiscard hcurrent hwatch hwhole =>
    rw [Xenbus.recordReceive, if_neg (not_not_intro hdiscard), hcurrent]
    dsimp only
    rw [if_pos (.inr hwatch)]
    exact h
  | unknown hdiscard hcurrent hle hwatch hfind =>
    rw [Xenbus.recordReceive, if_neg (not_not_intro hdiscard), hcurrent]
    dsimp only
    rw [if_neg (not_or_intro (Nat.not_lt_of_le hle) hwatch), hfind]
    exact h
  | @known r hdiscard hcurrent hle hwatch hfind =>
    rw [Xenbus.recordReceive_known hdiscard hcurrent hle hwatch hfind]
    refine h.update rfl (fun j hj => Xenbus.reqs_setReq_of_ne (s.consume _) _ hj)
      (fun j hj => iff_of_false (fun heq => Option.some_ne_none j (heq.symm.trans hcurrent))
        fun heq => hj (Option.some.inj heq).symm) ?_
    change Kept (((s.consume _).setReq r _).reqs r) _ (some r = some r)
    rw [Xenbus.reqs_setReq_self]
    exact ((h r (List.mem_of_find?_eq_some hfind)).start _ mem).congr (iff_of_true trivial rfl)

variable {c c' : Client} {a : Act}

/-- **Every step** does. -/
theorem KeptAll.step (h : KeptAll c.bus log) (hsound : Sound c) (hs : Step c a c') :
    KeptAll c'.bus (c.record a log) := by
  cases hs with
  | @submit r hdr io size req bus hr hreq hsub =>
    rw [Xenbus.submitRequest] at hsub
    split at hsub
    swap
    · cases hsub
    cases hsub
    intro j hj
    change Kept ((c.bus.setReq r req).reqs j) (Function.update log r _ j) (c.bus.currentRxReq = some j)
    by_cases hjr : j = r
    · subst hjr
      rw [Xenbus.reqs_setReq_self, Function.update_self]
      exact (kept_newRequest hreq).congr (iff_of_false id fun heq => hr (hsound.current j heq).1)
    · rw [Xenbus.reqs_setReq_of_ne _ _ hjr, Function.update_of_ne hjr]
      rcases List.mem_append.mp hj with hj | hj
      · exact h j hj
      · exact absurd (List.mem_singleton.mp hj) hjr
  | @finish r bus hr hreply hun =>
    rw [Xenbus.unhookRequest] at hun
    split at hun
    · cases hun
    split at hun
    · cases hun
    cases hun
    exact fun j hj => h j (List.mem_of_mem_erase hj)
  | transmit hround =>
    rcases Xenbus.transmitRound_cases hround with rfl | ⟨r, p, current, rfl⟩
    · exact h
    intro j hj
    change Kept ((c.bus.setReq r _).reqs j) (log j) (c.bus.currentRxReq = some j)
    by_cases hjr : j = r
    · subst hjr
      have hold := h j hj
      rw [Xenbus.reqs_setReq_self]
      exact ⟨hold.sized, hold.counted, hold.bounded, hold.room, hold.noRoom, hold.cut, hold.uncut, hold.whole⟩
    · rw [Xenbus.reqs_setReq_of_ne _ _ hjr]
      exact h j hj
  | receive hcall => exact h.call (fun r hr => (hsound.current r hr).1) (Xenbus.call_of_receiveIn hcall)
  | resume =>
    -- transmission is reset, and nothing of the reply
    have hreset : ∀ {j : Nat} {l : ReplyLog}, Kept (c.bus.reqs j) l False →
        Kept ((c.bus.resetRequests c.txIo).reqs j) l
          ((c.bus.resetRequests c.txIo).currentRxReq = some j) := by
      intro j l hj
      refine Kept.congr ?_ (iff_of_false id fun heq => Option.some_ne_none j heq.symm)
      rw [Xenbus.resetRequests]
      dsimp only
      split
      · exact ⟨hj.sized, hj.counted, hj.bounded, hj.room, hj.noRoom, hj.cut, hj.uncut, hj.whole⟩
      · exact hj
    intro j hj
    have hj' : j ∈ c.bus.pending := by
      rcases List.mem_append.mp hj with hj | hj
      · exact List.mem_of_mem_filter hj
      · exact List.mem_of_mem_filter hj
    refine hreset ?_
    have hold := h j hj'
    rw [record]
    cases hcurrent : c.bus.currentRxReq with
    | none =>
      exact hold.resume fun heq => Option.some_ne_none j (heq.symm.trans hcurrent)
    | some r =>
      dsimp only
      by_cases hjr : j = r
      · subst hjr
        split
        · next hpart =>
          rw [Function.update_self]
          exact hold.cutOff hpart
        · next hwhole => exact hold.wholeOff hwhole
      · have hother : ¬ c.bus.currentRxReq = some j := fun heq =>
          hjr (Option.some.inj (heq.symm.trans hcurrent))
        split
        · rw [Function.update_of_ne hjr]
          exact hold.resume hother
        · exact hold.resume hother
  | xenstored _ _ _ => exact h
  | configure => exact h

theorem Logged.reached {u : Client × (Nat → ReplyLog)} (h : Logged u) : Reached u.1 := Reachable.forget h

theorem Logged.keptAll {u : Client × (Nat → ReplyLog)} (h : Logged u) : KeptAll u.1.bus u.2 := by
  have hboth := h.invariant (P := fun u => Sound u.1 ∧ KeptAll u.1.bus u.2)
    (fun u hb => ⟨Reached.sound (.start hb), fun r hr => by
      rw [hb.pending] at hr
      cases hr⟩)
    fun u a u' ⟨hsound, hkept⟩ _ ⟨hstep, hlog⟩ => ⟨hsound.step hstep, hlog ▸ hkept.step hsound hstep⟩
  exact hboth.2

/-- The results leave the request alone, which is not being received into. -/
theorem results_current {bus : Xenbus} {status : Ntstatus}
    (h : s.getRequestResults r = some (status, bus)) : bus.reqs = s.reqs ∧ s.currentRxReq ≠ some r := by
  obtain ⟨bus', hun, heq⟩ := Option.map_eq_some_iff.mp h
  obtain ⟨-, rfl⟩ := Prod.mk.inj heq
  rw [Xenbus.unhookRequest] at hun
  split at hun
  · cases hun
  split at hun
  · cases hun
  · next hcurrent =>
    cases hun
    exact ⟨rfl, hcurrent⟩

/-- **A reply that is handed out** is backed if and only if there was room for it when its header came
and the domain has not resumed in the middle of it. -/
theorem results_backed_iff {u : Client × (Nat → ReplyLog)} {bus : Xenbus} (h : Logged u)
    (hr : r ∈ u.1.bus.pending) (hreply : u.1.bus.hasReply r = true)
    (hresults : u.1.bus.getRequestResults r = some (statusSuccess, bus)) :
    Backed (bus.reqs r) (u.2 r).got ↔ (u.2 r).room = true ∧ (u.2 r).cut = false := by
  obtain ⟨hreqs, hcurrent⟩ := results_current hresults
  rw [hreqs]
  exact (h.keptAll r hr).backed_iff hcurrent hreply

theorem Logged.step {u : Client × (Nat → ReplyLog)} (h : Logged u) (hs : Step u.1 a c') :
    Logged (c', u.1.record a u.2) :=
  .next h trivial ⟨hs, rfl⟩

/-- The request has been sent. -/
theorem logged_sent : ∃ p, Logged
    (⟨{ submitted.bus.setTxPos 0 p with currentTxReq := none }, submitted.txIo⟩,
      Function.update (fun _ => ⟨false, [], false, false⟩) 0 ⟨false, [], false, false⟩) := by
  obtain ⟨p, hsend⟩ := transmit_submitted
  have hidle : Logged (idle, fun _ => ⟨false, [], false, false⟩) := .start boot_idle
  exact ⟨p, (hidle.step submit_idle).step hsend⟩

/-- A header comes, and behind it the whole reply: both are read. -/
theorem Logged.reply {u : Client × (Nat → ReplyLog)} {hdr : XsdSockmsg} {payload : List UInt8}
    (h : Logged u) (hdiscard : u.1.bus.consResponseDiscardBytes = 0) (hrx : u.1.bus.currentRxReq = none)
    (hbytes : u.1.bus.rspBytes = hdr.bytes ++ payload) (hlen : hdr.len.toNat = payload.length)
    (htype : hdr.type ≤ xsIsDomainIntroduced) (hwatch : hdr.type ≠ xsWatchEvent)
    (hfind : u.1.bus.findPendingRxReq hdr.reqId = some r) (mem : Option (Nat → UInt8)) :
    ∃ bus, Logged (⟨bus, u.1.txIo⟩, Function.update u.2 r
        { u.2 r with got := payload, room := (u.1.bus.reqs r).roomFor hdr mem, cut := false }) ∧
      bus.pending = u.1.bus.pending ∧ bus.currentTxReq = u.1.bus.currentTxReq ∧ bus.currentRxReq = none ∧
      (bus.reqs r).xenbusReplied = true ∧ (bus.reqs r).replyHeader = hdr := by
  obtain ⟨⟨s, io⟩, log⟩ := u
  have hcount := s.length_rspBytes
  have hwindow := h.reached.sound.window
  dsimp only at hdiscard hrx hbytes hfind hwindow ⊢
  rw [hbytes, List.length_append, XsdSockmsg.length_bytes] at hcount
  have hle : sizeofSockmsg ≤ s.avail := by omega
  have hhead := header_eq hbytes
  -- the header
  obtain ⟨t, ht⟩ : ∃ t, t = { (s.consume sizeofSockmsg).setReq r ((s.reqs r).startReply s.header mem) with
      currentRxReq := some r } := ⟨_, rfl⟩
  have hheader : s.receiveIn false mem = some (true, t) := by
    rw [Xenbus.receiveIn_header hdiscard hrx hle, hhead, if_neg hwatch, ht, hhead]
    exact Xenbus.receiveHeader_known htype hfind
  have hstarted := h.step (.receive hheader)
  have hbuf : t.sharedBuf = (s.consume sizeofSockmsg).sharedBuf := by rw [ht]; rfl
  have hrest : t.avail = payload.length := by
    rw [Xenbus.avail_of_sharedBuf hbuf, Xenbus.avail_consume hle]
    omega
  have hrestBytes : t.rspBytes = payload := by
    have hdrop := Xenbus.rspBytes_consume hle
    rw [hbytes, List.drop_left' hdr.length_bytes] at hdrop
    rw [← hdrop, Xenbus.rspBytes, Xenbus.avail_of_sharedBuf hbuf, hbuf, Xenbus.rspBytes]
  have hreq : t.reqs r = (s.reqs r).startReply hdr mem := by
    rw [ht, hhead]
    exact Xenbus.reqs_setReq_self (s.consume sizeofSockmsg) r _
  have hreplyHeader : (t.reqs r).replyHeader = hdr := by rw [hreq, replyHeader_startReply]
  have hreceived : (t.reqs r).replyPayloadReceived = 0 := by rw [hreq, PendingReq.received_startReply]
  have hrx' : t.currentRxReq = some r := by rw [ht]
  have hdiscard' : t.consResponseDiscardBytes = 0 := by
    rw [ht]
    exact hdiscard
  -- the payload
  have hincoming : t.incoming r = payload.length := by
    rw [Xenbus.incoming, hrest, hreplyHeader, hreceived, hlen]
    exact Nat.min_self _
  obtain ⟨bus, hbus⟩ : ∃ bus, bus = { (t.consume payload.length).setReq r
      { t.takeReply (t.reqs r) payload.length with xenbusReplied := true } with currentRxReq := none } := ⟨_, rfl⟩
  have hbody : t.receiveIn false mem = some (payload.length != 0, bus) := by
    have hcall := Xenbus.receiveFromXenstored_body (s := t) (n := payload.length) (fun _ => mem) hdiscard'
      hrx' hreceived (Nat.zero_le _) (by rw [hrest, hreplyHeader, hlen]; exact (Nat.min_self _).symm)
      (by rw [hrest]; omega)
    rwa [hreplyHeader, if_pos ((Nat.zero_add _).trans hlen.symm), ← hbus] at hcall
  have hlog : t.recordReceive mem (s.recordReceive mem log) = Function.update log r
      { log r with got := payload, room := (s.reqs r).roomFor hdr mem, cut := false } := by
    rw [Xenbus.recordReceive_body hdiscard' hrx', Xenbus.recordReceive_known hdiscard hrx hle
      (hhead.symm ▸ hwatch) (hhead.symm ▸ hfind), Function.update_self, Function.update_idem, hincoming,
      hrestBytes, List.take_length, List.nil_append, hhead]
  have hdone : Logged (⟨bus, io⟩, t.recordReceive mem (s.recordReceive mem log)) :=
    hstarted.step (.receive hbody)
  have hdoneReq : bus.reqs r = { t.takeReply (t.reqs r) payload.length with xenbusReplied := true } := by
    rw [hbus]
    exact Xenbus.reqs_setReq_self (t.consume payload.length) r _
  rw [hlog] at hdone
  refine ⟨bus, hdone, by rw [hbus, ht]; rfl, by rw [hbus, ht]; rfl, by rw [hbus], by rw [hdoneReq], ?_⟩
  rw [hdoneReq]
  exact (Xenbus.replyHeader_takeReply t (t.reqs r) _).trans hreplyHeader

/-- A request without a buffer is answered with three bytes, for which there is this memory. -/
theorem logged_answer (mem : Option (Nat → UInt8)) : ∃ u bus, Logged u ∧ 0 ∈ u.1.bus.pending ∧
    u.1.bus.hasReply 0 = true ∧ u.1.bus.getRequestResults 0 = some (statusSuccess, bus) ∧
    (u.2 0).supplied = false ∧ (u.2 0).room = mem.isSome ∧ (u.2 0).cut = false := by
  obtain ⟨p, hlogged⟩ := logged_sent
  obtain ⟨sent, hsent⟩ : ∃ sent, sent = { submitted.bus.setTxPos 0 p with currentTxReq := none } := ⟨_, rfl⟩
  rw [← hsent] at hlogged
  have hring : (XsdSockmsg.bytes ⟨2, 5, 0, 3⟩ ++ [97, 98, 99]).length ≤ xenstoreRingSize := by decide
  obtain ⟨bus, hbus⟩ : ∃ bus, bus = { sent with
      sharedBuf := sent.sharedBuf.answer (XsdSockmsg.bytes ⟨2, 5, 0, 3⟩ ++ [97, 98, 99]) } := ⟨_, rfl⟩
  have hbuf : bus.sharedBuf = sent.sharedBuf.answer (XsdSockmsg.bytes ⟨2, 5, 0, 3⟩ ++ [97, 98, 99]) := by
    rw [hbus]
  have hwindow : bus.avail ≤ xenstoreRingSize := Nat.le_trans (Nat.le_of_eq (avail_answer hbuf hring)) hring
  have hwrite : Step ⟨sent, submitted.txIo⟩ (.xenstored bus.sharedBuf) ⟨bus, submitted.txIo⟩ := by
    rw [show bus = { sent with sharedBuf := bus.sharedBuf } by rw [hbuf, hbus]]
    exact .xenstored (by rw [hbuf]; rfl) (by rw [hbuf]; rfl) hwindow
  have hanswered := hlogged.step hwrite
  obtain ⟨bus', hlogged', hpending, htx, hrx, hreplied, hheader⟩ := hanswered.reply (r := 0)
    (by rw [hbus, hsent]; rfl) (by rw [hbus, hsent]; rfl) (rspBytes_answer hbuf hring) rfl (by decide)
    (by decide) (by rw [hbus, hsent]; rfl) mem
  refine ⟨_, { bus' with pending := bus'.pending.erase 0, xenbusOutstandingCtr := bus'.xenbusOutstandingCtr - 1 },
    hlogged', ?_, hreplied, ?_, ?_, ?_, ?_⟩
  · change 0 ∈ bus'.pending
    rw [hpending, hbus, hsent]
    exact List.mem_singleton_self 0
  · change bus'.getRequestResults 0 = _
    have hstatus : (bus'.reqs 0).status = statusSuccess :=
      PendingReq.status_eq_success.mpr (by rw [hheader]; decide)
    rw [Xenbus.getRequestResults, hstatus, Xenbus.unhookRequest, htx, hrx,
      if_neg (show ¬ bus.currentTxReq = some 0 by rw [hbus, hsent]; exact (Option.some_ne_none 0).symm),
      if_neg (show ¬ none = some 0 from (Option.some_ne_none 0).symm)]
    rfl
  · dsimp only
    rw [Function.update_self]
    rfl
  · have hnone : (bus.reqs 0).roomFor ⟨2, 5, 0, 3⟩ mem = mem.isSome := by
      rw [PendingReq.roomFor, show (bus.reqs 0).replyPayload = none by rw [hbus, hsent]; rfl]
    dsimp only
    rw [Function.update_self]
    exact hnone
  · dsimp only
    rw [Function.update_self]

/-- With memory for the reply it is backed. -/
theorem results_backed : ∃ u : Client × (Nat → ReplyLog), ∃ bus,
    u.1.bus.getRequestResults 0 = some (statusSuccess, bus) ∧ Backed (bus.reqs 0) (u.2 0).got := by
  obtain ⟨u, bus, hlogged, hpending, hreply, hresults, -, hroom, hcut⟩ := logged_answer (some fun _ => 0)
  exact ⟨u, bus, hresults, (results_backed_iff hlogged hpending hreply hresults).mpr ⟨hroom, hcut⟩⟩

/-- Without, the results are a success all the same. -/
theorem unbacked_success : ¬ ∀ (u : Client × (Nat → ReplyLog)) (r : Nat) (bus : Xenbus), Logged u →
    r ∈ u.1.bus.pending → u.1.bus.hasReply r = true → (u.2 r).supplied = false →
      u.1.bus.getRequestResults r = some (statusSuccess, bus) → Backed (bus.reqs r) (u.2 r).got := by
  intro hall
  obtain ⟨u, bus, hlogged, hpending, hreply, hresults, hsupplied, hroom, -⟩ := logged_answer none
  have hbacked := hall u 0 bus hlogged hpending hreply hsupplied hresults
  obtain ⟨hreqs, hcurrent⟩ := results_current hresults
  rw [hreqs] at hbacked
  have hroom' := (((hlogged.keptAll 0 hpending).backed_iff hcurrent hreply).mp hbacked).1
  exact Bool.false_ne_true (hroom.symm.trans hroom')

end Client

end V4v.Xenutil
