import LegacyV4v.SendWakeup

/-! # The pending transmit list and its count

`pending_xmit_list` and `pending_xmit_count`, which the functions keep apart, all under `pending_xmit_lock`.
`v4v_notify` takes the count for the number of slots of its request, fills them from the list, and goes through
the list a second time with Xen's answers: the entry that is reached with index `i` is decided by slot `i`,
while entries are taken off.

`SendWakeup` has the list without the count, and no allocation fails there.  The count is kept as an integer,
far from the bounds of an `int`. -/
namespace V4v.Linux

/-- `pending_xmit_count` and `pending_xmit_list`. -/
structure XmitQueue where
  count : Int
  list : List PendingXmit

/-- `v4v_ring_data_ent_t`, as the driver fills it in. -/
structure RingDataEnt where
  ring : Addr
  spaceRequired : Nat
  deriving DecidableEq, Repr

namespace XmitQueue
variable (q : XmitQueue)

/-! ## The functions -/

/-- `list_add_tail` and `atomic_inc`. -/
def add (e : PendingXmit) : XmitQueue := ⟨q.count + 1, q.list ++ [e]⟩

/-- The body of `xmit_queue_wakeup_private` and `xmit_queue_wakeup_sponsor`; `alloc` says whether there is
memory for a new entry. -/
def queueWakeup (kind : XmitKind) (source : RingId) (dest : Addr) (len : Nat) (delete alloc : Bool) :
    XmitQueue :=
  match q.list.findIdx? fun e => e.isFor kind source dest with
  | some i =>
    if delete then ⟨q.count - 1, q.list.eraseIdx i⟩
    else ⟨q.count, q.list.modify i fun e => { e with len := len }⟩
  | none =>
    if delete then q
    else if alloc = false then q
    else q.add ⟨kind, source, dest, len⟩

/-- `xmit_queue_wakeup_private`. -/
def queueWakeupPrivate (source : RingId) (conid : UInt32) (dest : Addr) (len : Nat) (delete alloc : Bool) :
    XmitQueue :=
  q.queueWakeup (.privates conid) source dest len delete alloc

/-- `xmit_queue_wakeup_sponsor`. -/
def queueWakeupSponsor (source : RingId) (dest : Addr) (len : Nat) (delete alloc : Bool) : XmitQueue :=
  q.queueWakeup .sponsor source dest len delete alloc

/-- `xmit_queue_inline`, when the hypercall returns `sent`. -/
def queueInline (source : RingId) (dest : Addr) (data : List UInt8) (protocol : UInt32) (sent : Int)
    (alloc : Bool) : Int × XmitQueue :=
  if sent ≠ -eagain then (sent, q)
  else if alloc = false then (-enomem, q)
  else (data.length, q.add ⟨.inline protocol data, source, dest, data.length⟩)

/-- The first loop of `v4v_notify`, from index `i` on: the slots that it fills. -/
def fillSlots (nent : Int) : Int → List PendingXmit → List RingDataEnt
  | _, [] => []
  | i, e :: es => if i ≠ nent then ⟨e.dest, e.len⟩ :: fillSlots nent (i + 1) es else fillSlots nent i es

/-- The second loop, from index `i` on, with the answers in the slots: what is left of the list, and the
count. -/
def notifyLoop (rings : List Ring) (nent : Int) (answers : Nat → NotifyAnswer) :
    Nat → List PendingXmit → Int → List PendingXmit × Int
  | _, [], count => ([], count)
  | i, e :: es, count =>
    if i = nent then
      let rest := notifyLoop rings nent answers i es count
      (e :: rest.1, rest.2)
    else
      let stays := (notifyEntry rings e (answers i)).1
      let rest := notifyLoop rings nent answers (i + 1) es (if stays then count else count - 1)
      (if stays then e :: rest.1 else rest.1, rest.2)

/-- `v4v_notify`.  `xen` takes the request and answers in each slot, or fails. -/
def notify (rings : List Ring) (alloc : Bool) (xen : List RingDataEnt → Option (Nat → NotifyAnswer)) :
    XmitQueue :=
  if alloc = false then q
  else
    let nent := q.count
    match xen (fillSlots nent 0 q.list) with
    | none => q
    | some answers =>
      let out := notifyLoop rings nent answers 0 q.list q.count
      ⟨out.2, out.1⟩

end XmitQueue

/-! ## Runs -/

/-- A call of one of the functions, with what it meets. -/
inductive XmitCall where
  | wakeupPrivate (source : RingId) (conid : UInt32) (dest : Addr) (len : Nat) (delete alloc : Bool)
  | wakeupSponsor (source : RingId) (dest : Addr) (len : Nat) (delete alloc : Bool)
  | inline (source : RingId) (dest : Addr) (data : List UInt8) (protocol : UInt32) (sent : Int)
      (alloc : Bool)
  | notify (rings : List Ring) (alloc : Bool) (xen : List RingDataEnt → Option (Nat → NotifyAnswer))

namespace XmitQueue

/-- One call. -/
def call (q : XmitQueue) : XmitCall → XmitQueue
  | .wakeupPrivate source conid dest len delete alloc =>
    q.queueWakeupPrivate source conid dest len delete alloc
  | .wakeupSponsor source dest len delete alloc => q.queueWakeupSponsor source dest len delete alloc
  | .inline source dest data protocol sent alloc => (q.queueInline source dest data protocol sent alloc).2
  | .notify rings alloc xen => q.notify rings alloc xen

/-- The queue after these calls; at first it is empty. -/
def run (calls : List XmitCall) : XmitQueue := calls.foldl call ⟨0, []⟩

end XmitQueue

/-- The slot settles the entry: its ring does not exist, or its wakeup or send was done.  A send that returns
`-EAGAIN` was not done. -/
def PendingXmit.settled (e : PendingXmit) (a : NotifyAnswer) : Bool :=
  !a.there || a.sufficient &&
    match e.kind with
    | .inline _ _ => decide (a.sent ≠ -eagain)
    | .sponsor => true
    | .privates _ => true

theorem notifyEntry_stays (rings : List Ring) (e : PendingXmit) (a : NotifyAnswer) :
    (notifyEntry rings e a).1 = !e.settled a := by
  unfold notifyEntry PendingXmit.settled
  cases a.there with
  | false => rfl
  | true =>
    cases e.kind with
    | inline _ _ => cases a.sufficient <;> simp
    | sponsor => cases a.sufficient <;> rfl
    | privates _ => cases a.sufficient <;> rfl

namespace XmitQueue
variable {q : XmitQueue} {rings : List Ring} {answers : Nat → NotifyAnswer}

/-! ## One pass of `v4v_notify` -/

/-- With as many slots as entries, each entry fills its own. -/
theorem fillSlots_all (es : List PendingXmit) (i : Int) :
    fillSlots (i + es.length) i es = es.map fun e => ⟨e.dest, e.len⟩ := by
  induction es generalizing i with
  | nil => rfl
  | cons e es ih =>
    have hrest := ih (i + 1)
    rw [show i + 1 + (es.length : Int) = i + ((e :: es).length : Int) by simp; omega] at hrest
    rw [fillSlots, if_pos (by simp; omega), hrest, List.map_cons]

/-- The entries of `es`, the first of them number `i`, that their slots do not settle. -/
def left (answers : Nat → NotifyAnswer) (i : Nat) (es : List PendingXmit) : List PendingXmit :=
  ((es.zipIdx i).filter fun x => !x.1.settled (answers x.2)).map Prod.fst

@[simp] theorem left_nil (i : Nat) : left answers i [] = [] := rfl

@[simp] theorem left_cons (i : Nat) (e : PendingXmit) (es : List PendingXmit) : left answers i (e :: es) =
    if e.settled (answers i) then left answers (i + 1) es else e :: left answers (i + 1) es := by
  unfold left
  rw [List.zipIdx_cons, List.filter_cons]
  cases e.settled (answers i) <;> simp

theorem left_sublist (i : Nat) (es : List PendingXmit) : (left answers i es).Sublist es := by
  have h := (List.filter_sublist (p := fun x : PendingXmit × Nat => !x.1.settled (answers x.2))
    (l := es.zipIdx i)).map Prod.fst
  rwa [List.zipIdx_map_fst] at h

/-- **The second loop**, with as many slots as entries: each entry is decided by its own slot, and the count
goes down with the list. -/
theorem notifyLoop_all (es : List PendingXmit) (i : Nat) (count : Int) :
    notifyLoop rings ((i + es.length : Nat) : Int) answers i es count =
      (left answers i es, count - es.length + (left answers i es).length) := by
  induction es generalizing i count with
  | nil => simp [notifyLoop]
  | cons e es ih =>
    have hrest := fun count => ih (i + 1) count
    rw [show i + 1 + es.length = i + (e :: es).length by simp; omega] at hrest
    rw [notifyLoop, if_neg (by simp; omega), notifyEntry_stays]
    dsimp only
    rw [hrest, left_cons]
    cases e.settled (answers i) with
    | true =>
      simp
      omega
    | false =>
      simp
      omega

/-! The list alone is that of `SendWakeup`. -/

theorem queueWakeup_list (q : XmitQueue) (kind : XmitKind) (source : RingId) (dest : Addr) (len : Nat)
    (delete : Bool) : (q.queueWakeup kind source dest len delete true).list =
      xmitQueueWakeup kind source dest len delete q.list := by
  obtain ⟨count, es⟩ := q
  unfold queueWakeup add
  dsimp only
  induction es generalizing count with
  | nil => cases delete <;> rfl
  | cons e es ih =>
    rw [List.findIdx?_cons, xmitQueueWakeup]
    by_cases hfor : e.isFor kind source dest
    · rw [if_pos hfor, decide_eq_true hfor]
      cases delete <;> rfl
    · rw [if_neg hfor, decide_eq_false hfor, ← ih count]
      cases es.findIdx? fun e => e.isFor kind source dest with
      | none => cases delete <;> rfl
      | some i => cases delete <;> rfl

theorem notifyList_left (rings : List Ring) (answers : Nat → NotifyAnswer) (i : Nat) (es : List PendingXmit) :
    (notifyList rings answers i es).1 = left answers i es := by
  induction es generalizing i with
  | nil => rfl
  | cons e es ih =>
    rw [notifyList, notifyEntry_stays, left_cons]
    dsimp only
    rw [ih]
    cases e.settled (answers i) <;> rfl

/-! ## The invariant -/

/-- The count is the length of the list, and a wakeup entry is the only one of its name. -/
structure Kept (q : XmitQueue) : Prop where
  count : q.count = q.list.length
  sponsor : ∀ source dest, q.list.countP (fun e => e.isFor .sponsor source dest) ≤ 1
  privates : ∀ conid source dest, q.list.countP (fun e => e.isFor (.privates conid) source dest) ≤ 1

theorem Kept.sublist {q' : XmitQueue} (h : q.Kept) (hs : q'.list.Sublist q.list)
    (hcount : q'.count = q'.list.length) : q'.Kept :=
  ⟨hcount, fun source dest => hs.countP_le.trans (h.sponsor source dest),
    fun conid source dest => hs.countP_le.trans (h.privates conid source dest)⟩

/-- A new entry is an inline one, or the first of its name. -/
theorem Kept.add (h : q.Kept) {e : PendingXmit}
    (hnew : (∃ protocol data, e.kind = .inline protocol data) ∨
      ∀ e' ∈ q.list, ¬ e'.isFor e.kind e.source e.dest) : (q.add e).Kept := by
  have hone : ∀ kind source dest, (∀ protocol data, kind ≠ .inline protocol data) →
      q.list.countP (fun e => e.isFor kind source dest) ≤ 1 →
      (q.list ++ [e]).countP (fun e => e.isFor kind source dest) ≤ 1 := by
    intro kind source dest hkind hle
    rw [List.countP_append, List.countP_singleton]
    split
    · next hfor =>
      obtain ⟨rfl, rfl, rfl⟩ := of_decide_eq_true hfor
      rcases hnew with ⟨protocol, data, hinline⟩ | hnone
      · exact absurd hinline (hkind protocol data)
      · rw [List.countP_eq_zero.mpr fun e' he' => by simpa using hnone e' he']
    · exact hle
  exact ⟨by simp [XmitQueue.add, h.count],
    fun source dest => hone _ source dest (by simp) (h.sponsor source dest),
    fun conid source dest => hone _ source dest (by simp) (h.privates conid source dest)⟩

/-- A new length leaves the names. -/
theorem countP_modify (es : List PendingXmit) (i len : Nat) (kind : XmitKind) (source : RingId) (dest : Addr) :
    (es.modify i fun e => { e with len := len }).countP (fun e => e.isFor kind source dest) =
      es.countP fun e => e.isFor kind source dest := by
  induction es generalizing i with
  | nil => simp
  | cons e es ih =>
    cases i with
    | zero => rw [List.modify_zero_cons, List.countP_cons, List.countP_cons]; rfl
    | succ i => rw [List.modify_succ_cons, List.countP_cons, List.countP_cons, ih]

theorem Kept.queueWakeup (h : q.Kept) (kind : XmitKind) (source : RingId) (dest : Addr) (len : Nat)
    (delete alloc : Bool) : (q.queueWakeup kind source dest len delete alloc).Kept := by
  unfold XmitQueue.queueWakeup
  split
  · next i hfound =>
    split
    · -- one entry less
      have hi : i < q.list.length := (List.findIdx?_eq_some_iff_getElem.mp hfound).1
      refine h.sublist (List.eraseIdx_sublist ..) ?_
      dsimp only
      rw [List.length_eraseIdx_of_lt hi, h.count]
      omega
    · refine ⟨?_, fun source dest => ?_, fun conid source dest => ?_⟩
      · exact h.count.trans (by rw [List.length_modify])
      · exact (countP_modify ..).trans_le (h.sponsor source dest)
      · exact (countP_modify ..).trans_le (h.privates conid source dest)
  · next hnone =>
    split
    · exact h
    · split
      · exact h
      · refine h.add (.inr fun e he hfor => ?_)
        have hno := List.findIdx?_eq_none_iff.mp hnone e he
        exact of_decide_eq_false hno hfor

theorem Kept.queueInline (h : q.Kept) (source : RingId) (dest : Addr) (data : List UInt8) (protocol : UInt32)
    (sent : Int) (alloc : Bool) : (q.queueInline source dest data protocol sent alloc).2.Kept := by
  unfold XmitQueue.queueInline
  split
  · exact h
  · split
    · exact h
    · exact h.add (.inl ⟨protocol, data, rfl⟩)

/-- `v4v_notify` on a queue whose count is right. -/
theorem Kept.notify_eq (h : q.Kept) (alloc : Bool) (xen : List RingDataEnt → Option (Nat → NotifyAnswer)) :
    q.notify rings alloc xen =
      match if alloc then xen (q.list.map fun e => ⟨e.dest, e.len⟩) else none with
      | none => q
      | some answers => ⟨(left answers 0 q.list).length, left answers 0 q.list⟩ := by
  have hslots : fillSlots q.list.length 0 q.list = q.list.map fun e => ⟨e.dest, e.len⟩ := by
    simpa using fillSlots_all q.list 0
  unfold XmitQueue.notify
  cases alloc with
  | false => rfl
  | true =>
    dsimp only
    rw [h.count, hslots, if_neg (by decide : ¬ true = false), if_pos rfl]
    cases xen (q.list.map fun e => ⟨e.dest, e.len⟩) with
    | none => rfl
    | some answers =>
      have hloop : notifyLoop rings _ answers 0 q.list _ = _ := notifyLoop_all q.list 0 q.list.length
      rw [Nat.zero_add] at hloop
      dsimp only
      rw [hloop]
      simp

theorem Kept.notify (h : q.Kept) (alloc : Bool) (xen : List RingDataEnt → Option (Nat → NotifyAnswer)) :
    (q.notify rings alloc xen).Kept := by
  rw [h.notify_eq]
  split
  · exact h
  · exact h.sublist (left_sublist ..) rfl

theorem Kept.call (h : q.Kept) (c : XmitCall) : (q.call c).Kept := by
  cases c with
  | wakeupPrivate source conid dest len delete alloc => exact h.queueWakeup ..
  | wakeupSponsor source dest len delete alloc => exact h.queueWakeup ..
  | inline source dest data protocol sent alloc => exact h.queueInline ..
  | notify rings alloc xen => exact h.notify ..

theorem run_kept (calls : List XmitCall) : (run calls).Kept := by
  have hfrom : ∀ q : XmitQueue, q.Kept → (calls.foldl XmitQueue.call q).Kept := by
    induction calls with
    | nil => exact fun q h => h
    | cons c calls ih => exact fun q h => ih _ (h.call c)
  exact hfrom ⟨0, []⟩ ⟨rfl, fun _ _ => Nat.zero_le _, fun _ _ _ => Nat.zero_le _⟩

/-- **Bookkeeping of pending transmissions.**  After any calls, the count is the length of the list; a sponsor
entry is the only one for its ring and destination, and a private one for its ring, connection and destination;
and `v4v_notify` asks with one slot for each entry, and keeps, in their order, the entries that their own slots
do not settle. -/
theorem pending_xmit_bookkeeping (calls : List XmitCall) :
    (run calls).count = (run calls).list.length ∧
    (∀ source dest, (run calls).list.countP (fun e => e.isFor .sponsor source dest) ≤ 1) ∧
    (∀ conid source dest, (run calls).list.countP (fun e => e.isFor (.privates conid) source dest) ≤ 1) ∧
    (∀ (rings : List Ring) (alloc : Bool) (xen : List RingDataEnt → Option (Nat → NotifyAnswer)),
      ((run calls).notify rings alloc xen).list =
        match if alloc then xen ((run calls).list.map fun e => ⟨e.dest, e.len⟩) else none with
        | none => (run calls).list
        | some answers => ((run calls).list.zipIdx.filter fun x => !x.1.settled (answers x.2)).map Prod.fst) := by
  have hkept := run_kept calls
  refine ⟨hkept.count, hkept.sponsor, hkept.privates, fun rings alloc xen => ?_⟩
  rw [hkept.notify_eq]
  split <;> rfl

end XmitQueue
end V4v.Linux
