import LegacyV4v.GuardedRun
import LegacyV4v.SendWakeup

/-! # Control messages that overtake each other

SYN, ACK and RST leave the driver through `xmit_queue_inline`.  It tries to send, and if the
destination ring is full it puts the message at the tail of `pending_xmit_list`; `v4v_notify`
goes through the list from its head and sends what there is room for now.  Each message is
tried on its own.  A new message is tried although an older one for the same ring still waits,
and an entry of the list is sent although an earlier one was just found not to fit.  Control
messages are all of the same size, so it takes only a receiver that reads in between.

If a message enters a ring only when no older one of the same ring for the same destination
waits, messages keep the order of the calls. -/
namespace V4v.Linux
open GuardedRun

/-! ## The messages -/

/-- The entry that `xmit_queue_inline` makes of a message. -/
def inlineEntry (source : RingId) (dest : Addr) (protocol : UInt32) (data : List UInt8) :
    PendingXmit :=
  ⟨.inline protocol data, source, dest, data.length⟩

/-- The entry is a message of ring `source` to `dest`. -/
def PendingXmit.between (source : RingId) (dest : Addr) (e : PendingXmit) : Bool :=
  match e.kind with
  | .inline _ _ => e.source == source && e.dest == dest
  | _ => false

/-- The message enters the ring: there is room for it, and `H_v4v_send` succeeds. -/
def NotifyAnswer.sends (a : NotifyAnswer) : Bool := a.there && a.sufficient && decide (0 ≤ a.sent)

/-- The messages that the second loop of `v4v_notify` sends, from entry number `i` on. -/
def notifySends (answers : Nat → NotifyAnswer) : Nat → List PendingXmit → List PendingXmit
  | _, [] => []
  | i, e :: es =>
    match e.kind with
    | .inline _ _ =>
      if (answers i).sends then e :: notifySends answers (i + 1) es
      else notifySends answers (i + 1) es
    | _ => notifySends answers (i + 1) es

/-! ## Runs -/

/-- `pending_xmit_list`, the messages that `xmit_queue_inline` was called for, and those that
have entered a ring, both oldest first. -/
structure ControlLog where
  xmit : List PendingXmit
  called : List PendingXmit
  entered : List PendingXmit

/-- What happens under `pending_xmit_lock`.  `ret` is what `H_v4v_send` returned; `notify` with
`none` is `v4v_notify` when its hypercall fails, and `rings` is `ring_list` at that time. -/
inductive ControlAct where
  | xmitInline (source : RingId) (dest : Addr) (protocol : UInt32) (data : List UInt8) (ret : Int)
  | wakeupPrivate (source : RingId) (conid : UInt32) (dest : Addr) (len : Nat) (delete : Bool)
  | wakeupSponsor (source : RingId) (dest : Addr) (len : Nat) (delete : Bool)
  | notify (rings : List Ring) (answers : Option (Nat → NotifyAnswer))

namespace ControlLog

/-- The state after one of them. -/
def after (s : ControlLog) : ControlAct → ControlLog
  | .xmitInline source dest protocol data ret =>
    let e := inlineEntry source dest protocol data
    if ret ≠ -eagain then
      { s with called := s.called ++ [e], entered := if 0 ≤ ret then s.entered ++ [e] else s.entered }
    else
      { s with called := s.called ++ [e], xmit := s.xmit ++ [e] }
  | .wakeupPrivate source conid dest len delete =>
    { s with xmit := xmitQueueWakeupPrivate source conid dest len delete s.xmit }
  | .wakeupSponsor source dest len delete =>
    { s with xmit := xmitQueueWakeupSponsor source dest len delete s.xmit }
  | .notify _ none => s
  | .notify rings (some answers) =>
    { s with
      xmit := (notifyList rings answers 0 s.xmit).1
      entered := s.entered ++ notifySends answers 0 s.xmit }

/-- Before the first call. -/
def init : ControlLog := ⟨[], [], []⟩

/-- The states to which steps that satisfy `ok` lead. -/
abbrev Reached (ok : ControlLog → ControlAct → Prop) : ControlLog → Prop :=
  Reachable (fun s => s = init) (fun s a s' => s' = s.after a) ok

theorem Reached.after {ok : ControlLog → ControlAct → Prop} {s : ControlLog} (h : Reached ok s)
    (a : ControlAct) (hok : ok s a) : Reached ok (s.after a) :=
  h.next hok rfl

/-- The messages of every ring have entered every destination's ring in the order of the calls. -/
def Ordered (s : ControlLog) : Prop :=
  ∀ source dest, (s.entered.filter (PendingXmit.between source dest)).Sublist
    (s.called.filter (PendingXmit.between source dest))

/-- No message is sent past an older one of the same ring for the same destination: not directly
while one waits, and not by `v4v_notify` behind one that stays in the list. -/
def Patient (s : ControlLog) : ControlAct → Prop
  | .xmitInline source dest _ _ ret => 0 ≤ ret → ∀ e ∈ s.xmit, e.between source dest = false
  | .notify rings (some answers) => ∀ (i j : Nat) (e e' : PendingXmit) (source : RingId)
      (dest : Addr), i < j → s.xmit[i]? = some e → s.xmit[j]? = some e' →
      e.between source dest = true → e'.between source dest = true →
      (notifyEntry rings e (answers i)).1 = true → (answers j).sends = false
  | _ => True

/-- **The invariant.**  What has entered and then what waits, in the order of the calls. -/
def InOrder (s : ControlLog) : Prop :=
  ∀ source dest, (s.entered.filter (PendingXmit.between source dest) ++
      s.xmit.filter (PendingXmit.between source dest)).Sublist
    (s.called.filter (PendingXmit.between source dest))

end ControlLog

/-! ## The list -/

/-- Entries that are no messages come and go without touching the messages. -/
theorem filter_between_xmitQueueWakeup {kind : XmitKind} (source : RingId) (dest : Addr) (len : Nat)
    (delete : Bool) (hkind : ∀ protocol data, kind ≠ .inline protocol data) (R : RingId) (D : Addr)
    (es : List PendingXmit) :
    (xmitQueueWakeup kind source dest len delete es).filter (PendingXmit.between R D) =
      es.filter (PendingXmit.between R D) := by
  have hno : ∀ e : PendingXmit, e.kind = kind → e.between R D = false := by
    intro e he
    rw [PendingXmit.between]
    split
    · next hinline => exact absurd (he.symm.trans hinline) (hkind _ _)
    · rfl
  induction es with
  | nil =>
    rw [xmitQueueWakeup]
    split
    · rfl
    · rw [List.filter_cons_of_neg (by simp [hno ⟨kind, source, dest, len⟩ rfl])]
  | cons e es ih =>
    rw [xmitQueueWakeup]
    split
    · next hfor =>
      have he := hno e hfor.1
      rw [List.filter_cons_of_neg (by simp [he])]
      split
      · rfl
      · rw [List.filter_cons_of_neg (by simp [hno { e with len := len } hfor.1])]
    · rw [List.filter_cons, List.filter_cons, ih]

/-- A message that is sent does not stay in the list. -/
theorem notifyEntry_of_sends {rings : List Ring} {e : PendingXmit} {a : NotifyAnswer}
    {R : RingId} {D : Addr} (hbetween : e.between R D = true) (h : a.sends = true) :
    (notifyEntry rings e a).1 = false := by
  simp only [NotifyAnswer.sends, Bool.and_eq_true, decide_eq_true_eq] at h
  rw [PendingXmit.between] at hbetween
  split at hbetween
  · next hkind =>
    have hne : a.sent ≠ -eagain := by
      have : (0 : Int) < eagain := by decide
      omega
    simp [notifyEntry, hkind, h.1.1, h.1.2, hne]
  · cases hbetween

/-- What is sent stands in the list, where there is room. -/
theorem mem_notifySends {answers : Nat → NotifyAnswer} {i : Nat} {es : List PendingXmit}
    {e : PendingXmit} (h : e ∈ notifySends answers i es) :
    ∃ k, es[k]? = some e ∧ (answers (i + k)).sends = true := by
  induction es generalizing i with
  | nil => cases h
  | cons x es ih =>
    have hlater : e ∈ notifySends answers (i + 1) es →
        ∃ k, (x :: es)[k]? = some e ∧ (answers (i + k)).sends = true := by
      intro h
      obtain ⟨k, hk, hsends⟩ := ih h
      exact ⟨k + 1, hk, by rwa [show i + (k + 1) = i + 1 + k by omega]⟩
    rw [notifySends] at h
    split at h
    · split at h
      · next hsends =>
        rcases List.mem_cons.mp h with rfl | h
        · exact ⟨0, rfl, hsends⟩
        · exact hlater h
      · exact hlater h
    · exact hlater h

theorem filter_notifySends_cons (answers : Nat → NotifyAnswer) (R : RingId) (D : Addr) (i : Nat)
    (e : PendingXmit) (es : List PendingXmit) :
    (notifySends answers i (e :: es)).filter (PendingXmit.between R D) =
      if e.between R D = true ∧ (answers i).sends = true then
        e :: (notifySends answers (i + 1) es).filter (PendingXmit.between R D)
      else (notifySends answers (i + 1) es).filter (PendingXmit.between R D) := by
  rw [notifySends]
  split
  · split
    · next hsends => simp only [List.filter_cons, hsends, and_true]
    · next hsends => rw [if_neg fun h => hsends h.2]
  · next hkind =>
    have hno : e.between R D = false := by
      rw [PendingXmit.between]
      split
      · next hinline => exact absurd hinline (hkind _ _)
      · rfl
    rw [if_neg (by simp [hno])]

/-- What is sent and then what stays, in the order of the list. -/
theorem notify_inOrder (rings : List Ring) (answers : Nat → NotifyAnswer) (R : RingId) (D : Addr)
    (i : Nat) (es : List PendingXmit)
    (h : ∀ (k j : Nat) (e e' : PendingXmit), k < j → es[k]? = some e → es[j]? = some e' →
      e.between R D = true → e'.between R D = true →
      (notifyEntry rings e (answers (i + k))).1 = true → (answers (i + j)).sends = false) :
    ((notifySends answers i es).filter (PendingXmit.between R D) ++
      (notifyList rings answers i es).1.filter (PendingXmit.between R D)).Sublist
      (es.filter (PendingXmit.between R D)) := by
  induction es generalizing i with
  | nil => exact List.Sublist.refl _
  | cons e es ih =>
    have hrest := ih (i + 1) fun k j x x' hkj hk hj hx hx' hstay => by
      rw [show i + 1 + k = i + (k + 1) by omega] at hstay
      rw [show i + 1 + j = i + (j + 1) by omega]
      exact h (k + 1) (j + 1) x x' (by omega) hk hj hx hx' hstay
    have hkept : (notifyList rings answers i (e :: es)).1 =
        if (notifyEntry rings e (answers i)).1 then e :: (notifyList rings answers (i + 1) es).1
        else (notifyList rings answers (i + 1) es).1 := rfl
    rw [filter_notifySends_cons, hkept]
    by_cases hbetween : e.between R D = true
    · rw [List.filter_cons_of_pos hbetween]
      by_cases hsends : (answers i).sends = true
      · rw [if_pos ⟨hbetween, hsends⟩, notifyEntry_of_sends hbetween hsends]
        exact hrest.cons_cons e
      · rw [if_neg fun h => hsends h.2]
        by_cases hstay : (notifyEntry rings e (answers i)).1 = true
        · -- nothing behind an entry that stays is sent
          have hnone : (notifySends answers (i + 1) es).filter (PendingXmit.between R D) = [] := by
            rw [List.filter_eq_nil_iff]
            intro x hx hxb
            obtain ⟨k, hk, hsends⟩ := mem_notifySends hx
            have hno := h 0 (k + 1) e x (by omega) rfl hk hbetween hxb hstay
            rw [show i + (k + 1) = i + 1 + k by omega, hsends] at hno
            cases hno
          rw [hnone, List.nil_append] at hrest
          rw [hnone, List.nil_append, if_pos hstay, List.filter_cons_of_pos hbetween]
          exact hrest.cons_cons e
        · rw [if_neg hstay]
          exact hrest.cons e
    · rw [if_neg fun h => hbetween h.1, List.filter_cons_of_neg hbetween]
      split
      · rw [List.filter_cons_of_neg hbetween]
        exact hrest
      · exact hrest

/-! ## Runs keep the order -/

namespace ControlLog

theorem inOrder_after {s : ControlLog} {a : ControlAct} (h : s.InOrder) (hok : s.Patient a) :
    (s.after a).InOrder := by
  intro R D
  have hs := h R D
  cases a with
  | xmitInline source dest protocol data ret =>
    rw [after]
    split
    · dsimp only
      rw [List.filter_append]
      split
      · next hret =>
        rw [List.filter_append]
        by_cases hbetween : (inlineEntry source dest protocol data).between R D = true
        · -- nothing of this kind waits, so the new message is the last to have entered
          simp only [PendingXmit.between, inlineEntry, Bool.and_eq_true, beq_iff_eq] at hbetween
          obtain ⟨rfl, rfl⟩ := hbetween
          have hnone : s.xmit.filter (PendingXmit.between source dest) = [] := by
            rw [List.filter_eq_nil_iff]
            intro e he
            rw [hok hret e he]
            exact Bool.false_ne_true
          rw [hnone, List.append_nil] at hs ⊢
          exact hs.append_right _
        · rw [List.filter_cons_of_neg hbetween, List.filter_nil, List.append_nil, List.append_nil]
          exact hs
      · exact hs.trans (List.sublist_append_left _ _)
    · rw [List.filter_append, List.filter_append, ← List.append_assoc]
      exact hs.append_right _
  | wakeupPrivate source conid dest len delete =>
    rw [after, xmitQueueWakeupPrivate, filter_between_xmitQueueWakeup _ _ _ _ (by simp)]
    exact hs
  | wakeupSponsor source dest len delete =>
    rw [after, xmitQueueWakeupSponsor, filter_between_xmitQueueWakeup _ _ _ _ (by simp)]
    exact hs
  | notify rings answers =>
    cases answers with
    | none => exact hs
    | some answers =>
      rw [after, List.filter_append, List.append_assoc]
      refine List.Sublist.trans (List.Sublist.append_left ?_ _) hs
      refine notify_inOrder rings answers R D 0 s.xmit ?_
      intro k j e e' hkj hk hj he he' hstay
      rw [Nat.zero_add] at hstay ⊢
      exact hok k j e e' R D hkj hk hj he he' hstay

/-- **Control messages keep their order**, if none is sent past an older one. -/
theorem control_in_order (s : ControlLog) (h : Reached Patient s) : s.Ordered := by
  have hinv : s.InOrder := h.invariant
    (fun s hs => by rw [hs]; exact fun _ _ => List.Sublist.refl _)
    (fun s a s' hs hok hstep => by rw [hstep]; exact inOrder_after hs hok)
  intro source dest
  exact (List.sublist_append_left _ _).trans (hinv source dest)

/-- Port 10 of domain 1. -/
def controlRing : RingId := ⟨⟨10, 1⟩, domidAny⟩

/-- A control message of ring 10 for connection 7 with domain 2. -/
def controlCall (flags : UInt32) (ret : Int) : ControlAct :=
  .xmitInline controlRing ⟨9, 2⟩ protoStream (StreamHeader.bytes ⟨flags, 7⟩) ret

/-- The answer of a destination with room. -/
def roomy : NotifyAnswer := ⟨true, true, 8⟩

/-- The ACK finds the ring full; when the RST is sent there is room, and `v4v_notify` sends the
ACK behind it. -/
theorem reset_overtakes_ack : ¬ ∀ s, Reached (fun _ _ => True) s → s.Ordered := by
  intro h
  have hinit : Reached (fun _ _ => True) init := .start rfl
  have hack := Reached.after hinit (controlCall shfAck (-eagain)) trivial
  have hrst := Reached.after hack (controlCall shfRst 8) trivial
  have hnotify := Reached.after hrst (.notify [] (some fun _ => roomy)) trivial
  have hord := h _ hnotify controlRing ⟨9, 2⟩
  revert hord
  decide

/-- The ACK waits, and is sent when there is room. -/
theorem control_in_order_ack :
    Ordered ((init.after (controlCall shfAck (-eagain))).after
      (.notify [] (some fun _ => roomy))) := by
  have hinit : Reached Patient init := .start rfl
  refine control_in_order _ (Reached.after (Reached.after hinit _ ?_) _ ?_)
  · intro hret
    exact absurd hret (by decide)
  · intro i j e e' source dest hij hi hj
    have hj : [inlineEntry controlRing ⟨9, 2⟩ protoStream (StreamHeader.bytes ⟨shfAck, 7⟩)][j]? =
      some e' := hj
    have hlt := (List.getElem?_eq_some_iff.mp hj).1
    rw [List.length_singleton] at hlt
    omega

end ControlLog

end V4v.Linux
