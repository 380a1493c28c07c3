import LegacyV4v.Xenbus

/-! # The messages of xenstored, as they are read

What a call of `receive_from_xenstored` does, said of messages: where the driver is in their stream,
how many bytes there are, and whether it asks for another call.  The payload of a reply with an
unknown id is skipped, and a call that skips says that there was progress, also when there was
nothing to skip.  A pass that comes to such a payload before it has arrived whole is therefore never
over; the driver starves.  A call does not change whether it starves, and if it does not, uses up
bytes. -/
namespace V4v.Xenutil

/-! ## Messages -/

/-- A message of xenstored. -/
structure XsMessage where
  hdr : XsdSockmsg
  payload : List UInt8
  len_eq : payload.length = hdr.len.toNat

namespace XsMessage

/-- The message in the ring. -/
def bytes (m : XsMessage) : List UInt8 := m.hdr.bytes ++ m.payload

/-- How long it is. -/
def size (m : XsMessage) : Nat := sizeofSockmsg + m.payload.length

@[simp] theorem length_bytes (m : XsMessage) : m.bytes.length = m.size := by
  rw [bytes, List.length_append, XsdSockmsg.length_bytes, size]

/-- A watch event, as opposed to a reply. -/
def IsWatch (m : XsMessage) : Prop := m.hdr.type = xsWatchEvent

instance (m : XsMessage) : Decidable m.IsWatch := inferInstanceAs (Decidable (_ = _))

/-- The token of a watch event stands behind the path. -/
def token (m : XsMessage) : List UInt8 :=
  ((m.payload.dropWhile (· != 0)).drop 1).takeWhile (· != 0)

end XsMessage

/-- Where the driver is in the stream of messages: in front of one, or in the payload of one, of
which `k` bytes have been read. -/
inductive RxMode where
  | header
  | body (m : XsMessage) (k : Nat)
  | discard (m : XsMessage) (k : Nat)

namespace RxMode

/-- The message that is being read. -/
def current : RxMode → List XsMessage
  | header => []
  | body m _ => [m]
  | discard m _ => [m]

/-- What is still to be read of it. -/
def payload : RxMode → List UInt8
  | header => []
  | body m k => m.payload.drop k
  | discard m k => m.payload.drop k

end RxMode

/-- Where the driver is, the messages behind that, and how many bytes are in the ring. -/
structure Reader where
  mode : RxMode
  rest : List XsMessage
  avail : Nat

namespace Reader
variable {known : UInt32 → Bool} {t t' : Reader} {done : List XsMessage} {again : Bool}

/-- What one call does: whether there is to be another one, the message that has been read whole,
and where the driver is then. -/
def call (known : UInt32 → Bool) : Reader → Bool × List XsMessage × Reader
  | ⟨.header, [], a⟩ => (false, [], ⟨.header, [], a⟩)
  | ⟨.header, m :: rest, a⟩ =>
    if a < sizeofSockmsg then (false, [], ⟨.header, m :: rest, a⟩)
    else if m.IsWatch then
      if a < m.size then (false, [], ⟨.header, m :: rest, a⟩)
      else (true, [m], ⟨.header, rest, a - m.size⟩)
    else if known m.hdr.reqId = true then (true, [], ⟨.body m 0, rest, a - sizeofSockmsg⟩)
    else if m.payload = [] then (true, [m], ⟨.header, rest, a - sizeofSockmsg⟩)
    else (true, [], ⟨.discard m 0, rest, a - sizeofSockmsg⟩)
  | ⟨.body m k, rest, a⟩ =>
    let n := min a (m.payload.length - k)
    if k + n = m.payload.length then (n != 0, [m], ⟨.header, rest, a - n⟩)
    else (n != 0, [], ⟨.body m (k + n), rest, a - n⟩)
  | ⟨.discard m k, rest, a⟩ =>
    let n := min a (m.payload.length - k)
    if k + n = m.payload.length then (true, [m], ⟨.header, rest, a - n⟩)
    else (true, [], ⟨.discard m (k + n), rest, a - n⟩)

/-- Of the messages that are in the ring whole or in part, one is a reply with unknown id of which
the header but not the whole payload is there; and no empty reply to a pending request, which ends
a pass, stands in front of it. -/
def StarvesIn (known : UInt32 → Bool) : List XsMessage → Nat → Prop
  | [], _ => False
  | m :: rest, a =>
    sizeofSockmsg ≤ a ∧
      if m.IsWatch then m.size ≤ a ∧ StarvesIn known rest (a - m.size)
      else if known m.hdr.reqId = true then
        m.payload ≠ [] ∧ m.size ≤ a ∧ StarvesIn known rest (a - m.size)
      else a < m.size ∨ StarvesIn known rest (a - m.size)

/-- The same from where the driver is. -/
def Starves (known : UInt32 → Bool) : Reader → Prop
  | ⟨.header, rest, a⟩ => StarvesIn known rest a
  | ⟨.body m k, rest, a⟩ =>
    k < m.payload.length ∧ m.payload.length - k ≤ a ∧
      StarvesIn known rest (a - (m.payload.length - k))
  | ⟨.discard m k, rest, a⟩ =>
    a < m.payload.length - k ∨ StarvesIn known rest (a - (m.payload.length - k))

/-- How many messages have not been read whole. -/
def left (t : Reader) : Nat := t.mode.current.length + t.rest.length

/-- Where a pass leaves the driver: in front of a message or in the payload of a reply to a pending
request. -/
def AtRest (t : Reader) : Prop :=
  t.mode = .header ∨ ∃ m k, t.mode = .body m k ∧ k < m.payload.length

/-- All of the messages is in the ring. -/
def Whole (t : Reader) : Prop :=
  t.avail = t.mode.payload.length + (t.rest.map XsMessage.size).sum

/-- The payload of the current message has not been read further than it goes. -/
def Valid : Reader → Prop
  | ⟨.header, _, _⟩ => True
  | ⟨.body m k, _, _⟩ => k ≤ m.payload.length
  | ⟨.discard m k, _, _⟩ => k < m.payload.length

/-- **What a call does** to the messages, and whether it is the last one of a pass. -/
structure Called (known : UInt32 → Bool) (t : Reader) (again : Bool) (done : List XsMessage)
    (t' : Reader) : Prop where
  messages : done ++ (t'.mode.current ++ t'.rest) = t.mode.current ++ t.rest
  valid : t'.Valid
  whole : t.Whole → t'.Whole
  more : again = true → (t.Starves known ↔ t'.Starves known) ∧
    (t.Starves known ∨ t'.avail < t.avail)
  last : again = false → ¬ t.Starves known ∧ t'.AtRest ∧ (t.Whole → t'.left = 0 ∨ done ≠ [])

theorem le_size (m : XsMessage) : sizeofSockmsg ≤ m.size := Nat.le_add_right _ _

/-- A header, or a watch event, that is not there whole. -/
theorem called_short {m : XsMessage} {rest : List XsMessage} {a : Nat} (h : a < m.size)
    (hstarves : ¬ StarvesIn known (m :: rest) a) :
    Called known ⟨.header, m :: rest, a⟩ false [] ⟨.header, m :: rest, a⟩ := by
  refine ⟨rfl, trivial, id, fun hf => (nomatch hf), fun _ => ⟨hstarves, .inl rfl, fun hwhole => ?_⟩⟩
  rw [Whole, List.map_cons, List.sum_cons] at hwhole
  exact absurd (Nat.lt_of_lt_of_le h (Nat.le_add_right _ _)) (by
    rw [show a = _ from hwhole, RxMode.payload, List.length_nil, Nat.zero_add]
    exact Nat.lt_irrefl _)

/-- A message, or its header, is read. -/
theorem called_header {m : XsMessage} {rest : List XsMessage} {a : Nat} :
    (Called known ⟨.header, m :: rest, a⟩ ((⟨.header, m :: rest, a⟩ : Reader).call known).1
      ((⟨.header, m :: rest, a⟩ : Reader).call known).2.1
      ((⟨.header, m :: rest, a⟩ : Reader).call known).2.2) := by
  have hsize := le_size m
  have hm : m.size = sizeofSockmsg + m.payload.length := rfl
  rw [call]
  by_cases hheader : a < sizeofSockmsg
  · rw [if_pos hheader]
    refine called_short (Nat.lt_of_lt_of_le hheader hsize) fun hstarves => ?_
    exact Nat.not_le_of_lt hheader hstarves.1
  rw [if_neg hheader]
  have hle := Nat.le_of_not_lt hheader
  by_cases hwatch : m.IsWatch
  · rw [if_pos hwatch]
    by_cases hshort : a < m.size
    · rw [if_pos hshort]
      refine called_short hshort fun hstarves => ?_
      rw [StarvesIn, if_pos hwatch] at hstarves
      exact Nat.not_le_of_lt hshort hstarves.2.1
    · rw [if_neg hshort]
      refine ⟨rfl, trivial, fun hwhole => ?_, fun _ => ⟨?_, .inr ?_⟩, fun hf => (nomatch hf)⟩
      · have hsum : a = 0 + (m.size + (rest.map XsMessage.size).sum) := hwhole
        change a - m.size = 0 + (rest.map XsMessage.size).sum
        omega
      · rw [Starves, Starves, StarvesIn, if_pos hwatch]
        exact ⟨fun h => h.2.2, fun h => ⟨hle, Nat.le_of_not_lt hshort, h⟩⟩
      · exact Nat.sub_lt_of_pos_le (Nat.lt_of_lt_of_le (by decide) hsize) (Nat.le_of_not_lt hshort)
  rw [if_neg hwatch]
  by_cases hknown : known m.hdr.reqId = true
  · rw [if_pos hknown]
    refine ⟨rfl, Nat.zero_le _, fun hwhole => ?_, fun _ => ⟨?_, .inr ?_⟩, fun hf => (nomatch hf)⟩
    · have hsum : a = 0 + (m.size + (rest.map XsMessage.size).sum) := hwhole
      change a - sizeofSockmsg = m.payload.length + (rest.map XsMessage.size).sum
      omega
    · rw [Starves, Starves, StarvesIn, if_neg hwatch, if_pos hknown, Nat.sub_zero, Nat.sub_sub]
      rw [← List.length_pos_iff]
      exact ⟨fun h => ⟨h.2.1, by omega, h.2.2.2⟩, fun h => ⟨hle, h.1, by omega, h.2.2⟩⟩
    · exact Nat.sub_lt_of_pos_le (by decide) hle
  rw [if_neg hknown]
  by_cases hempty : m.payload = []
  · have hlen : m.size = sizeofSockmsg := by rw [hm, hempty]; rfl
    rw [if_pos hempty]
    refine ⟨rfl, trivial, fun hwhole => ?_, fun _ => ⟨?_, .inr ?_⟩, fun hf => (nomatch hf)⟩
    · have hsum : a = 0 + (m.size + (rest.map XsMessage.size).sum) := hwhole
      change a - sizeofSockmsg = 0 + (rest.map XsMessage.size).sum
      omega
    · rw [Starves, Starves, StarvesIn, if_neg hwatch, if_neg hknown, hlen]
      exact ⟨fun h => h.2.resolve_left hheader, fun h => ⟨hle, .inr h⟩⟩
    · exact Nat.sub_lt_of_pos_le (by decide) hle
  · rw [if_neg hempty]
    refine ⟨rfl, List.length_pos_iff.mpr hempty, fun hwhole => ?_, fun _ => ⟨?_, .inr ?_⟩,
      fun hf => (nomatch hf)⟩
    · have hsum : a = 0 + (m.size + (rest.map XsMessage.size).sum) := hwhole
      change a - sizeofSockmsg = m.payload.length + (rest.map XsMessage.size).sum
      omega
    · rw [Starves, Starves, StarvesIn, if_neg hwatch, if_neg hknown, Nat.sub_zero, Nat.sub_sub,
        Nat.sub_lt_iff_lt_add hle, Nat.add_comm m.payload.length]
      exact ⟨fun h => h.2, fun h => ⟨hle, h⟩⟩
    · exact Nat.sub_lt_of_pos_le (by decide) hle

/-- **Every call.** -/
theorem called (known : UInt32 → Bool) (h : t.Valid) :
    Called known t (t.call known).1 (t.call known).2.1 (t.call known).2.2 := by
  obtain ⟨mode, rest, a⟩ := t
  cases mode with
  | header =>
    cases rest with
    | nil =>
      exact ⟨rfl, trivial, id, fun hf => (nomatch hf), fun _ => ⟨id, .inl rfl, fun _ => .inl rfl⟩⟩
    | cons m rest => exact called_header
  | body m k =>
    have hk : k ≤ m.payload.length := h
    rw [call]
    obtain ⟨n, hn⟩ : ∃ n, n = min a (m.payload.length - k) := ⟨_, rfl⟩
    rw [← hn]
    by_cases hend : k + n = m.payload.length
    · rw [if_pos hend]
      have hrest : m.payload.length - k = n := by omega
      refine ⟨rfl, trivial, fun hwhole => ?_, fun hmore => ⟨?_, .inr ?_⟩, fun hlast =>
        ⟨fun hstarves => ?_, .inl rfl, fun _ => .inr (List.cons_ne_nil _ _)⟩⟩
      · have hsum : a = (m.payload.drop k).length + (rest.map XsMessage.size).sum := hwhole
        change a - n = 0 + (rest.map XsMessage.size).sum
        rw [List.length_drop] at hsum
        omega
      · have hpos := bne_iff_ne.mp hmore
        rw [Starves, Starves, hrest]
        exact ⟨fun h => h.2.2, fun h => ⟨by omega, by omega, h⟩⟩
      · have hpos := bne_iff_ne.mp hmore
        change a - n < a
        omega
      · have hzero : n = 0 := bne_eq_false_iff_eq.mp hlast
        rw [hzero, Nat.add_zero] at hend
        exact absurd hstarves.1 (Nat.not_lt_of_le (Nat.le_of_eq hend.symm))
    · rw [if_neg hend]
      have hall : n = a ∧ a < m.payload.length - k := by omega
      have hnot : ∀ {j b : Nat}, b < m.payload.length - j →
          ¬ Starves known ⟨.body m j, rest, b⟩ :=
        fun hlt hstarves => absurd hstarves.2.1 (Nat.not_le_of_lt hlt)
      have hwhole : ¬ Whole ⟨.body m k, rest, a⟩ := by
        intro hwhole
        have hsum : a = (m.payload.drop k).length + (rest.map XsMessage.size).sum := hwhole
        rw [List.length_drop] at hsum
        omega
      refine ⟨rfl, show k + n ≤ _ by omega, fun h => absurd h hwhole, fun hmore =>
        ⟨iff_of_false (hnot hall.2) (hnot (by omega)), .inr ?_⟩, fun _ =>
        ⟨hnot hall.2, .inr ⟨m, k + n, rfl, by omega⟩, fun h => absurd h hwhole⟩⟩
      have hpos := bne_iff_ne.mp hmore
      change a - n < a
      omega
  | discard m k =>
    have hk : k < m.payload.length := h
    rw [call]
    obtain ⟨n, hn⟩ : ∃ n, n = min a (m.payload.length - k) := ⟨_, rfl⟩
    rw [← hn]
    by_cases hend : k + n = m.payload.length
    · rw [if_pos hend]
      have hrest : m.payload.length - k = n := by omega
      refine ⟨rfl, trivial, fun hwhole => ?_, fun _ => ⟨?_, .inr ?_⟩, fun hf => (nomatch hf)⟩
      · have hsum : a = (m.payload.drop k).length + (rest.map XsMessage.size).sum := hwhole
        change a - n = 0 + (rest.map XsMessage.size).sum
        rw [List.length_drop] at hsum
        omega
      · rw [Starves, Starves, hrest]
        exact ⟨fun h => h.resolve_left (by omega), .inr⟩
      · change a - n < a
        omega
    · rw [if_neg hend]
      have hall : n = a ∧ a < m.payload.length - k := by omega
      refine ⟨rfl, show k + n < _ by omega, fun hwhole => ?_, fun _ =>
        ⟨iff_of_true (.inl hall.2) (.inl (by omega)), .inl (.inl hall.2)⟩, fun hf => (nomatch hf)⟩
      have hsum : a = (m.payload.drop k).length + (rest.map XsMessage.size).sum := hwhole
      rw [List.length_drop] at hsum
      omega

/-! ## Positions -/

/-- Where the driver is when a pass begins, `p` bytes behind the beginning of the messages. -/
def position (a : Nat) : List XsMessage → Nat → Reader
  | [], _ => ⟨.header, [], a⟩
  | m :: rest, p =>
    if m.size ≤ p then position a rest (p - m.size)
    else if p = 0 then ⟨.header, m :: rest, a⟩
    else ⟨.body m (p - sizeofSockmsg), rest, a⟩

/-- The bytes that have not been read. -/
def unread (t : Reader) : Nat := t.mode.payload.length + (t.rest.map XsMessage.size).sum

theorem unread_le (t : Reader) :
    t.unread ≤ ((t.mode.current ++ t.rest).map XsMessage.size).sum := by
  have hpayload : t.mode.payload.length ≤ (t.mode.current.map XsMessage.size).sum := by
    cases t.mode with
    | header => exact Nat.zero_le _
    | body m k | discard m k =>
      have hm : m.size = sizeofSockmsg + m.payload.length := rfl
      change (m.payload.drop k).length ≤ m.size + 0
      rw [List.length_drop]
      omega
  rw [unread, List.map_append, List.sum_append]
  omega

/-- **The position** can be told from how many bytes have been read. -/
theorem position_eq (h : t.AtRest) (done : List XsMessage) :
    position t.avail (done ++ (t.mode.current ++ t.rest))
      (((done ++ (t.mode.current ++ t.rest)).map XsMessage.size).sum - t.unread) = t := by
  induction done with
  | nil =>
    obtain ⟨mode, rest, a⟩ := t
    rcases h with rfl | ⟨m, k, rfl, hk⟩
    · have hp : ((([] : List XsMessage) ++ (RxMode.header.current ++ rest)).map
          XsMessage.size).sum - unread ⟨.header, rest, a⟩ = 0 :=
        Nat.sub_eq_zero_of_le (Nat.le_of_eq (Nat.zero_add _).symm)
      rw [hp]
      cases rest with
      | nil => rfl
      | cons m rest =>
        have hpos : 0 < m.size := Nat.lt_of_lt_of_le (by decide) (le_size m)
        change position a (m :: rest) 0 = _
        rw [position, if_neg (Nat.not_le_of_lt hpos), if_pos rfl]
    · have hm : m.size = sizeofSockmsg + m.payload.length := rfl
      have hp : ((([] : List XsMessage) ++ ((RxMode.body m k).current ++ rest)).map
          XsMessage.size).sum - unread ⟨.body m k, rest, a⟩ = sizeofSockmsg + k := by
        change m.size + (rest.map XsMessage.size).sum -
          ((m.payload.drop k).length + (rest.map XsMessage.size).sum) = _
        rw [List.length_drop]
        omega
      rw [hp]
      change position a (m :: rest) (sizeofSockmsg + k) = _
      rw [position, if_neg (by omega), if_neg (Nat.ne_of_gt (Nat.add_pos_left (by decide) k)),
        Nat.add_sub_cancel_left]
  | cons d done ih =>
    have hle := t.unread_le
    have hsum : ((d :: done ++ (t.mode.current ++ t.rest)).map XsMessage.size).sum - t.unread =
        d.size + (((done ++ (t.mode.current ++ t.rest)).map XsMessage.size).sum - t.unread) := by
      rw [List.cons_append, List.map_cons, List.sum_cons, List.map_append, List.sum_append]
      omega
    rw [hsum, List.cons_append, position, if_pos (Nat.le_add_right _ _), Nat.add_sub_cancel_left]
    exact ih

end Reader

end V4v.Xenutil
