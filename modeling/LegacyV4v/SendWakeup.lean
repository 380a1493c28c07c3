import LegacyV4v.GuardedRun
import LegacyV4v.StreamSocket
import Mathlib.Data.List.Nodup

/-! # Senders that sleep

A send that finds no room returns -EAGAIN, and the thread sleeps on the `writeq` of its
socket.  The driver keeps a list of what to do when there is room, `pending_xmit_list`: an
entry names the ring, the destination, and for an accepted connection the connection id.
All threads of a socket share one entry for a destination.  An attempt that fails adds it
and an attempt that succeeds deletes it, but the attempt itself is made before the lock is
taken; so a thread that was lucky can delete the entry that an unlucky one relies on.
`v4v_notify` deletes entries too, and wakes nobody if the destination ring is gone, or wakes
the wrong one of two accepted connections that look alike.

A step is a hypercall, or a critical section under `pending_xmit_lock`.  The rings stay the
same during a run: a socket that is in use by a thread is not released.  If no step takes the
entry of a sleeping thread away without waking it in one of these three ways, every sleeping
thread has its entry. -/
namespace V4v.Linux
open GuardedRun

/-! ## The list -/

/-- `enum v4v_pending_xmit_type`, with the fields that only some types have. -/
inductive XmitKind where
  | inline (protocol : UInt32) (data : List UInt8)
  | sponsor
  | privates (conid : UInt32)
  deriving DecidableEq, Repr

/-- `struct pending_xmit`. -/
structure PendingXmit where
  kind : XmitKind
  source : RingId
  dest : Addr
  len : Nat
  deriving DecidableEq, Repr

/-- The entry is of this kind, for this ring and destination. -/
def PendingXmit.isFor (e : PendingXmit) (kind : XmitKind) (source : RingId) (dest : Addr) : Prop :=
  e.kind = kind ∧ e.source = source ∧ e.dest = dest

instance (e : PendingXmit) (kind : XmitKind) (source : RingId) (dest : Addr) :
    Decidable (e.isFor kind source dest) :=
  inferInstanceAs (Decidable (_ ∧ _ ∧ _))

/-- The body that `xmit_queue_wakeup_private` and `xmit_queue_wakeup_sponsor` share.  With
`delete` the first such entry is removed; else it gets the new length, or is added. -/
def xmitQueueWakeup (kind : XmitKind) (source : RingId) (dest : Addr) (len : Nat)
    (delete : Bool) : List PendingXmit → List PendingXmit
  | [] => if delete then [] else [⟨kind, source, dest, len⟩]
  | e :: es =>
    if e.isFor kind source dest then
      if delete then es else { e with len := len } :: es
    else
      e :: xmitQueueWakeup kind source dest len delete es

/-- `xmit_queue_wakeup_private`. -/
def xmitQueueWakeupPrivate (source : RingId) (conid : UInt32) (dest : Addr) (len : Nat)
    (delete : Bool) : List PendingXmit → List PendingXmit :=
  xmitQueueWakeup (.privates conid) source dest len delete

/-- `xmit_queue_wakeup_sponsor`. -/
def xmitQueueWakeupSponsor (source : RingId) (dest : Addr) (len : Nat) (delete : Bool) :
    List PendingXmit → List PendingXmit :=
  xmitQueueWakeup .sponsor source dest len delete

theorem mem_xmitQueueWakeup_add (kind : XmitKind) (source : RingId) (dest : Addr) (len : Nat)
    (es : List PendingXmit) :
    ∃ e ∈ xmitQueueWakeup kind source dest len false es, e.isFor kind source dest := by
  induction es with
  | nil => exact ⟨_, List.mem_singleton_self _, rfl, rfl, rfl⟩
  | cons e es ih =>
    rw [xmitQueueWakeup]
    split
    · next h => exact ⟨{ e with len := len }, List.mem_cons_self, h⟩
    · obtain ⟨x, hx, hfor⟩ := ih
      exact ⟨x, List.mem_cons_of_mem _ hx, hfor⟩

/-- Adding an entry keeps all others, up to their length. -/
theorem mem_xmitQueueWakeup_of_mem {kind kind' : XmitKind} {source source' : RingId}
    {dest dest' : Addr} (len : Nat) {es : List PendingXmit} {x : PendingXmit} (hx : x ∈ es)
    (hfor : x.isFor kind' source' dest') :
    ∃ e ∈ xmitQueueWakeup kind source dest len false es, e.isFor kind' source' dest' := by
  induction es with
  | nil => cases hx
  | cons e es ih =>
    rw [xmitQueueWakeup]
    rcases List.mem_cons.mp hx with rfl | hx
    · split
      · exact ⟨{ x with len := len }, List.mem_cons_self, hfor⟩
      · exact ⟨x, List.mem_cons_self, hfor⟩
    · split
      · exact ⟨x, List.mem_cons_of_mem _ hx, hfor⟩
      · obtain ⟨y, hy, hyfor⟩ := ih hx
        exact ⟨y, List.mem_cons_of_mem _ hy, hyfor⟩

/-- Deleting an entry keeps the entries of every other name. -/
theorem mem_xmitQueueWakeup_delete {kind : XmitKind} {source : RingId} {dest : Addr} (len : Nat)
    {es : List PendingXmit} {x : PendingXmit} (hx : x ∈ es) (hfor : ¬ x.isFor kind source dest) :
    x ∈ xmitQueueWakeup kind source dest len true es := by
  induction es with
  | nil => cases hx
  | cons e es ih =>
    rw [xmitQueueWakeup]
    rcases List.mem_cons.mp hx with rfl | hx
    · rw [if_neg hfor]
      exact List.mem_cons_self
    · split
      · exact hx
      · exact List.mem_cons_of_mem _ (ih hx)

/-! ## Rings and attempts -/

/-- `ring_list`.  `new_ring` keeps the names distinct, and only a listener's ring gets
privates. -/
structure RingList where
  rings : List Ring
  ids : (rings.map Ring.id).Nodup
  listener : ∀ r ∈ rings, r.privates ≠ [] → r.type = .listener

/-- A blocking send: from the sponsor of a ring, as `v4v_try_send_sponsor` and
`v4v_try_sendv_sponsor` make it, or from one of its privates to that private's peer, as
`v4v_try_sendv_privates` does. -/
inductive Attempt (L : RingList) where
  | sponsor (r : Ring) (p : Sock) (hr : r ∈ L.rings) (hp : r.sponsor = some p) (dest : Addr)
      (len : Nat)
  | privates (r : Ring) (p : Sock) (hr : r ∈ L.rings) (hp : p ∈ r.privates) (len : Nat)

namespace Attempt
variable {L : RingList}

/-- The socket. -/
def sock : Attempt L → Sock
  | .sponsor _ p _ _ _ _ => p
  | .privates _ p _ _ _ => p

def kind : Attempt L → XmitKind
  | .sponsor .. => .sponsor
  | .privates _ p _ _ _ => .privates p.conid

def source : Attempt L → RingId
  | .sponsor r _ _ _ _ _ => r.id
  | .privates r _ _ _ _ => r.id

def dest : Attempt L → Addr
  | .sponsor _ _ _ _ dest _ => dest
  | .privates _ p _ _ _ => p.peer

/-- The critical section of the attempt, with the hypercall's result `ret`. -/
def queueWakeup (ret : Int) (es : List PendingXmit) : Attempt L → List PendingXmit
  | .sponsor r _ _ _ dest len =>
    xmitQueueWakeupSponsor r.id dest len (decide (ret ≠ -eagain)) es
  | .privates r p _ _ len =>
    xmitQueueWakeupPrivate r.id p.conid p.peer len (decide (ret ≠ -eagain)) es

/-- The entry is the one this attempt relies on. -/
def reliesOn (a : Attempt L) (e : PendingXmit) : Prop := e.isFor a.kind a.source a.dest

/-- Both attempts rely on the same entry. -/
def SameEntry (a b : Attempt L) : Prop :=
  a.kind = b.kind ∧ a.source = b.source ∧ a.dest = b.dest

theorem exists_reliesOn_add (a : Attempt L) (es : List PendingXmit) :
    ∃ e ∈ a.queueWakeup (-eagain) es, a.reliesOn e := by
  cases a <;> exact mem_xmitQueueWakeup_add ..

theorem exists_reliesOn_of_add (a b : Attempt L) {es : List PendingXmit}
    (h : ∃ e ∈ es, b.reliesOn e) : ∃ e ∈ a.queueWakeup (-eagain) es, b.reliesOn e := by
  obtain ⟨e, he, hb⟩ := h
  cases a <;> exact mem_xmitQueueWakeup_of_mem _ he hb

theorem exists_reliesOn_of_delete (a b : Attempt L) {ret : Int} {es : List PendingXmit}
    (hret : ret ≠ -eagain) (hne : ¬ b.SameEntry a) (h : ∃ e ∈ es, b.reliesOn e) :
    ∃ e ∈ a.queueWakeup ret es, b.reliesOn e := by
  obtain ⟨e, he, hb⟩ := h
  have hother : ¬ e.isFor a.kind a.source a.dest := by
    rintro ⟨hk, hs, hd⟩
    exact hne ⟨hb.1.symm.trans hk, hb.2.1.symm.trans hs, hb.2.2.symm.trans hd⟩
  refine ⟨e, ?_, hb⟩
  cases a with
  | sponsor r p hr hp dest len =>
    rw [queueWakeup, decide_eq_true hret]
    exact mem_xmitQueueWakeup_delete len he hother
  | privates r p hr hp len =>
    rw [queueWakeup, decide_eq_true hret]
    exact mem_xmitQueueWakeup_delete len he hother

end Attempt

/-! ## Waking -/

/-- `wakeup_sponsor`: the socket whose `writeq` is woken. -/
def wakeupSponsor (rings : List Ring) (id : RingId) : Option Sock :=
  match rings.find? fun r => r.id == id with
  | none => none
  | some r => r.sponsor

/-- `wakeup_privates`: the socket whose `writeq` is woken. -/
def wakeupPrivates (rings : List Ring) (id : RingId) (peer : Addr) (conid : UInt32) :
    Option Sock :=
  match rings.find? fun r => r.type == .listener && r.id == id with
  | none => none
  | some r => r.privates.find? fun p => p.isPeer peer conid

/-- What Xen says of an entry's destination, and the result of sending the entry if it is an
inline one. -/
structure NotifyAnswer where
  there : Bool
  sufficient : Bool
  sent : Int

/-- One round of the second loop of `v4v_notify`: whether the entry stays, and the socket that
is woken. -/
def notifyEntry (rings : List Ring) (e : PendingXmit) (a : NotifyAnswer) : Bool × Option Sock :=
  if a.there then
    match e.kind with
    | .inline _ _ =>
      if a.sufficient then (decide (a.sent = -eagain), none) else (true, none)
    | .sponsor =>
      if a.sufficient then (false, wakeupSponsor rings e.source) else (true, none)
    | .privates conid =>
      if a.sufficient then (false, wakeupPrivates rings e.source e.dest conid) else (true, none)
  else (false, none)

/-- The second loop of `v4v_notify`, from entry number `i` on. -/
def notifyList (rings : List Ring) (answers : Nat → NotifyAnswer) :
    Nat → List PendingXmit → List PendingXmit × List Sock
  | _, [] => ([], [])
  | i, e :: es =>
    let out := notifyEntry rings e (answers i)
    let more := notifyList rings answers (i + 1) es
    (if out.1 then e :: more.1 else more.1, out.2.toList ++ more.2)

/-- An entry of the list stays, or its socket is woken. -/
theorem mem_notifyList (rings : List Ring) (answers : Nat → NotifyAnswer) (i : Nat) {k : Nat}
    {es : List PendingXmit} {e : PendingXmit} (he : es[k]? = some e) :
    ((notifyEntry rings e (answers (i + k))).1 = true →
        e ∈ (notifyList rings answers i es).1) ∧
      ∀ p, (notifyEntry rings e (answers (i + k))).2 = some p →
        p ∈ (notifyList rings answers i es).2 := by
  induction es generalizing i k with
  | nil => cases he
  | cons x es ih =>
    rw [notifyList]
    cases k with
    | zero =>
      obtain rfl : x = e := by simpa using he
      refine ⟨fun hkeep => ?_, fun p hp => ?_⟩
      · rw [Nat.add_zero] at hkeep
        simp [hkeep]
      · rw [Nat.add_zero] at hp
        simp [hp]
    | succ k =>
      have he : es[k]? = some e := by simpa using he
      obtain ⟨hkeep, hwake⟩ := ih (i + 1) he
      rw [show i + (k + 1) = i + 1 + k by omega]
      refine ⟨fun h => ?_, fun p hp => ?_⟩
      · dsimp only
        split
        · exact List.mem_cons_of_mem _ (hkeep h)
        · exact hkeep h
      · exact List.mem_append_right _ (hwake p hp)

/-- A ring is found by its name. -/
theorem RingList.find_ring (L : RingList) {r : Ring} (hr : r ∈ L.rings) (sel : Ring → Bool)
    (hsel : sel r = true) (hid : ∀ x, sel x = true → x.id = r.id) :
    L.rings.find? sel = some r := by
  obtain ⟨x, hx⟩ := Option.isSome_iff_exists.mp (List.find?_isSome.mpr ⟨r, hr, hsel⟩)
  have hsame : x = r := List.inj_on_of_nodup_map L.ids (List.mem_of_find?_eq_some hx) hr
    (hid x (List.find?_some hx))
  rw [hx, hsame]

/-- The attempt's socket is the one that `wakeup_privates` finds: no other accepted connection
of the ring in front of it has its peer and connection id. -/
def Attempt.First {L : RingList} : Attempt L → Prop
  | .sponsor .. => True
  | .privates r p _ _ _ => ∃ q, r.privates.find? (fun q => q.isPeer p.peer p.conid) = some q ∧
    q.ref = p.ref

/-- If there is room, the socket of the thread that relies on the entry is woken. -/
theorem notifyEntry_wakes {L : RingList} {a : Attempt L} {e : PendingXmit} {ans : NotifyAnswer}
    (ha : a.reliesOn e) (hthere : ans.there = true) (hroom : ans.sufficient = true)
    (hfirst : a.First) :
    ∃ q, (notifyEntry L.rings e ans).2 = some q ∧ q.ref = a.sock.ref := by
  obtain ⟨hkind, hsource, hdest⟩ := ha
  cases a with
  | sponsor r p hr hp dest len =>
    have hfind := L.find_ring hr (fun x => x.id == r.id) (by simp) (by simp)
    refine ⟨p, ?_, rfl⟩
    rw [Attempt.kind] at hkind
    rw [Attempt.source] at hsource
    simp only [notifyEntry, hthere, hroom, hkind, hsource, wakeupSponsor, hfind, if_true]
    exact hp
  | privates r p hr hp len =>
    have hty := L.listener r hr (List.ne_nil_of_mem hp)
    have hfind := L.find_ring hr (fun x => x.type == .listener && x.id == r.id)
      (by simp [hty]) (fun x hx => by simpa using (Bool.and_eq_true_iff.mp hx).2)
    obtain ⟨q, hq, href⟩ := hfirst
    refine ⟨q, ?_, href⟩
    rw [Attempt.kind] at hkind
    rw [Attempt.source] at hsource
    rw [Attempt.dest] at hdest
    simp only [notifyEntry, hthere, hroom, hkind, hsource, hdest, wakeupPrivates, hfind, if_true]
    exact hq

/-- If there is no room, the entry stays. -/
theorem notifyEntry_keeps {L : RingList} {a : Attempt L} {e : PendingXmit} {ans : NotifyAnswer}
    (ha : a.reliesOn e) (hthere : ans.there = true) (hroom : ans.sufficient = false) :
    (notifyEntry L.rings e ans).1 = true := by
  have hkind := ha.1
  cases a <;> rw [Attempt.kind] at hkind <;> simp [notifyEntry, hthere, hroom, hkind]

/-! ## The threads -/

/-- A thread in a blocking send: about to make the hypercall, back from it with result `ret`,
or asleep on `writeq`.  The condition of the wait is evaluated more than once before the thread
sleeps, which here is a `retry` from `asleep`. -/
inductive SendState (L : RingList) where
  | idle
  | trying (a : Attempt L)
  | tried (a : Attempt L) (ret : Int)
  | asleep (a : Attempt L) (woken : Bool)

/-- The list, the threads, and `send_blocked` of each socket. -/
structure XmitSys (L : RingList) where
  xmit : List PendingXmit
  threads : Nat → SendState L
  sendBlocked : Nat → Nat

/-- What can happen.  `giveUp` is a signal, or the end of the connection; `wake` is a wakeup
by the interrupt handler; `xmitInline` is `xmit_queue_inline` without room. -/
inductive XmitAct (L : RingList) where
  | send (t : Nat) (a : Attempt L)
  | hypercall (t : Nat) (ret : Int)
  | update (t : Nat)
  | retry (t : Nat)
  | giveUp (t : Nat)
  | xmitInline (source : RingId) (dest : Addr) (protocol : UInt32) (data : List UInt8)
  | notify (answers : Option (Nat → NotifyAnswer))
  | wake (p : Sock)

namespace XmitSys
variable {L : RingList}

/-- `wake_up_interruptible_all` on the `writeq` of these sockets. -/
def wakeUp (s : XmitSys L) (socks : List Sock) : XmitSys L :=
  { s with threads := fun t =>
      match s.threads t with
      | .asleep a woken => .asleep a (woken || socks.any fun q => q.ref == a.sock.ref)
      | st => st }

/-- One step.  `notify` with `none` is `v4v_notify` when its hypercall fails. -/
def step (s : XmitSys L) : XmitAct L → Option (Unit × XmitSys L)
  | .send t a =>
    match s.threads t with
    | .idle => some ((), { s with threads := Function.update s.threads t (.trying a) })
    | _ => none
  | .hypercall t ret =>
    match s.threads t with
    | .trying a => some ((), { s with threads := Function.update s.threads t (.tried a ret) })
    | _ => none
  | .update t =>
    match s.threads t with
    | .tried a ret =>
      some ((), {
        xmit := a.queueWakeup ret s.xmit
        threads := Function.update s.threads t (if ret = -eagain then .asleep a false else .idle)
        sendBlocked := Function.update s.sendBlocked a.sock.ref
          (if ret = -eagain then s.sendBlocked a.sock.ref + 1 else 0) })
    | _ => none
  | .retry t =>
    match s.threads t with
    | .asleep a _ => some ((), { s with threads := Function.update s.threads t (.trying a) })
    | _ => none
  | .giveUp t =>
    match s.threads t with
    | .asleep _ _ => some ((), { s with threads := Function.update s.threads t .idle })
    | _ => none
  | .xmitInline source dest protocol data =>
    some ((), { s with xmit := s.xmit ++ [⟨.inline protocol data, source, dest, data.length⟩] })
  | .notify none => some ((), s)
  | .notify (some answers) =>
    let out := notifyList L.rings answers 0 s.xmit
    let s' : XmitSys L := { s with
      xmit := out.1
      sendBlocked := fun ref => if out.2.any (fun q => q.ref == ref) then 0 else s.sendBlocked ref }
    some ((), s'.wakeUp out.2)
  | .wake p => some ((), s.wakeUp [p])

/-- Thread `t` sleeps after attempt `a`, and its socket has not been woken since. -/
def Sleeps (s : XmitSys L) (t : Nat) (a : Attempt L) : Prop := s.threads t = .asleep a false

/-- No step takes the entry away from a sleeping thread: an attempt that succeeded finds no
thread asleep that relies on the entry it deletes, and `v4v_notify` finds the destination ring
of every entry that a sleeping thread relies on, and the thread's socket. -/
def KeepsSleepers (s : XmitSys L) : XmitAct L → Prop
  | .update t => ∀ a ret, s.threads t = .tried a ret → ret ≠ -eagain →
    ∀ t' b, s.Sleeps t' b → ¬ b.SameEntry a
  | .notify (some answers) => ∀ i e, s.xmit[i]? = some e → ∀ t a, s.Sleeps t a → a.reliesOn e →
    (answers i).there = true ∧ ((answers i).sufficient = true → a.First)
  | _ => True

/-- Every sleeping thread has its entry. -/
def Covered (s : XmitSys L) : Prop := ∀ t a, s.Sleeps t a → ∃ e ∈ s.xmit, a.reliesOn e

/-- Only a thread that is asleep can be asleep after a wakeup, and then it was not woken. -/
theorem sleeps_of_wakeUp {s : XmitSys L} {socks : List Sock} {t : Nat} {a : Attempt L}
    (h : (s.wakeUp socks).Sleeps t a) :
    s.Sleeps t a ∧ ∀ q ∈ socks, q.ref ≠ a.sock.ref := by
  simp only [Sleeps, wakeUp] at h
  cases hst : s.threads t with
  | asleep b woken =>
    rw [hst] at h
    dsimp only at h
    obtain ⟨rfl, hw⟩ := SendState.asleep.inj h
    obtain ⟨rfl, hany⟩ := Bool.or_eq_false_iff.mp hw
    refine ⟨hst, fun q hq href => ?_⟩
    rw [List.any_eq_false] at hany
    exact hany q hq (by simpa using href)
  | idle | trying | tried => rw [hst] at h; cases h

/-- Only thread `t` changes. -/
theorem sleeps_of_update {s : XmitSys L} {t t' : Nat} {st : SendState L} {a : Attempt L}
    (h : Function.update s.threads t st t' = .asleep a false) :
    (t' = t ∧ st = .asleep a false) ∨ (t' ≠ t ∧ s.Sleeps t' a) := by
  by_cases ht : t' = t
  · subst ht
    rw [Function.update_self] at h
    exact .inl ⟨rfl, h⟩
  · rw [Function.update_of_ne ht] at h
    exact .inr ⟨ht, h⟩

/-- A thread goes to a state that is no sleep. -/
theorem Covered.awake {s : XmitSys L} (hc : s.Covered) (t : Nat) {st : SendState L}
    (hst : ∀ a, st ≠ .asleep a false) :
    Covered { s with threads := Function.update s.threads t st } := by
  intro t' a hsleep
  rcases sleeps_of_update hsleep with ⟨-, heq⟩ | ⟨-, hold⟩
  · exact absurd heq (hst a)
  · exact hc t' a hold

/-- The critical section behind a hypercall. -/
theorem Covered.update {s : XmitSys L} {t : Nat} {a : Attempt L} {ret : Int} (hc : s.Covered)
    (hok : s.KeepsSleepers (.update t)) (htried : s.threads t = .tried a ret)
    (sendBlocked : Nat → Nat) : Covered {
      xmit := a.queueWakeup ret s.xmit
      threads := Function.update s.threads t (if ret = -eagain then .asleep a false else .idle)
      sendBlocked := sendBlocked } := by
  intro t' b hsleep
  rcases sleeps_of_update hsleep with ⟨-, heq⟩ | ⟨-, hold⟩
  · -- the thread itself goes to sleep: it has just added the entry
    split at heq
    · next hagain =>
      obtain ⟨rfl, -⟩ := SendState.asleep.inj heq
      rw [hagain]
      exact a.exists_reliesOn_add s.xmit
    · cases heq
  · by_cases hagain : ret = -eagain
    · rw [hagain]
      exact a.exists_reliesOn_of_add b (hc t' b hold)
    · exact a.exists_reliesOn_of_delete b hagain (hok a ret htried hagain t' b hold)
        (hc t' b hold)

/-- `v4v_notify` keeps the entry of a thread, or wakes it. -/
theorem Covered.notify {s : XmitSys L} {answers : Nat → NotifyAnswer} (hc : s.Covered)
    (hok : s.KeepsSleepers (.notify (some answers))) (sendBlocked : Nat → Nat) :
    Covered (wakeUp { s with
      xmit := (notifyList L.rings answers 0 s.xmit).1, sendBlocked := sendBlocked }
      (notifyList L.rings answers 0 s.xmit).2) := by
  intro t a hsleep
  obtain ⟨hold, hnot⟩ := sleeps_of_wakeUp hsleep
  obtain ⟨e, he, ha⟩ := hc t a hold
  obtain ⟨i, hi⟩ := List.mem_iff_getElem?.mp he
  obtain ⟨hthere, hfirst⟩ := hok i e hi t a hold ha
  obtain ⟨hkeep, hwoken⟩ := mem_notifyList L.rings answers 0 hi
  rw [Nat.zero_add] at hkeep hwoken
  cases hroom : (answers i).sufficient with
  | false => exact ⟨e, hkeep (notifyEntry_keeps ha hthere hroom), ha⟩
  | true =>
    obtain ⟨q, hq, href⟩ := notifyEntry_wakes ha hthere hroom (hfirst hroom)
    exact absurd href (hnot q (hwoken q hq))

/-- **One step.** -/
theorem step_covered {s s' : XmitSys L} {act : XmitAct L} {u : Unit}
    (h : s.step act = some (u, s')) (hok : s.KeepsSleepers act) (hc : s.Covered) : s'.Covered := by
  cases act with
  | send t a =>
    rw [step] at h
    split at h
    · obtain ⟨-, rfl⟩ := Prod.mk.inj (Option.some.inj h)
      exact hc.awake t fun _ h => nomatch h
    · cases h
  | hypercall t ret =>
    rw [step] at h
    split at h
    · obtain ⟨-, rfl⟩ := Prod.mk.inj (Option.some.inj h)
      exact hc.awake t fun _ h => nomatch h
    · cases h
  | update t =>
    rw [step] at h
    split at h
    · next a ret htried =>
      obtain ⟨-, rfl⟩ := Prod.mk.inj (Option.some.inj h)
      exact hc.update hok htried _
    · cases h
  | retry t =>
    rw [step] at h
    split at h
    · obtain ⟨-, rfl⟩ := Prod.mk.inj (Option.some.inj h)
      exact hc.awake t fun _ h => nomatch h
    · cases h
  | giveUp t =>
    rw [step] at h
    split at h
    · obtain ⟨-, rfl⟩ := Prod.mk.inj (Option.some.inj h)
      exact hc.awake t fun _ h => nomatch h
    · cases h
  | xmitInline source dest protocol data =>
    obtain ⟨-, rfl⟩ := Prod.mk.inj (Option.some.inj h)
    intro t a hsleep
    obtain ⟨e, he, ha⟩ := hc t a hsleep
    exact ⟨e, List.mem_append_left _ he, ha⟩
  | notify answers =>
    cases answers with
    | none =>
      obtain ⟨-, rfl⟩ := Prod.mk.inj (Option.some.inj h)
      exact hc
    | some answers =>
      obtain ⟨-, rfl⟩ := Prod.mk.inj (Option.some.inj h)
      exact hc.notify hok _
  | wake p =>
    obtain ⟨-, rfl⟩ := Prod.mk.inj (Option.some.inj h)
    intro t a hsleep
    exact hc t a (sleeps_of_wakeUp hsleep).1

/-- **Every sleeping thread has its entry**, in every run from a state in which no thread
sends, as long as no step takes the entry of a sleeping thread away. -/
theorem sleepers_covered {s₀ s : XmitSys L} {us : List Unit}
    (h : Run step KeepsSleepers s₀ us s) (hidle : ∀ t, s₀.threads t = .idle) :
    ∀ t a, s.Sleeps t a → ∃ e ∈ s.xmit, a.reliesOn e := by
  have hstart : s₀.Covered := fun t a hsleep => by
    rw [Sleeps, hidle t] at hsleep
    cases hsleep
  exact h.invariant hstart fun s act u s' hc hok hs => step_covered hs hok hc

end XmitSys

/-! ## Two threads of one socket -/

/-- A connector, connected to port 9 of domain 2. -/
def twinSock : Sock := ⟨0, .connected, ⟨9, 2⟩, 5, [], 0, false⟩

def twinRing : Ring := ⟨⟨⟨10, 1⟩, domidAny⟩, .connector, some twinSock, [], []⟩

def twinRings : RingList where
  rings := [twinRing]
  ids := List.nodup_singleton _
  listener := fun _ hr hne => absurd (List.mem_singleton.mp hr ▸ rfl) hne

/-- A send of 100 bytes to the peer. -/
def twinAttempt : Attempt twinRings :=
  .sponsor twinRing twinSock (List.mem_singleton_self _) rfl ⟨9, 2⟩ 100

def twinSys : XmitSys twinRings := ⟨[], fun _ => .idle, fun _ => 0⟩

/-- Thread 1 finds no room, thread 2 then does; thread 1 adds the entry and sleeps; and then
thread 2, that has sent its message, deletes it. -/
theorem sleeper_uncovered : ∃ us s, Run XmitSys.step (fun _ _ => True) twinSys us s ∧
    s.Sleeps 1 twinAttempt ∧ ¬ ∃ e ∈ s.xmit, twinAttempt.reliesOn e := by
  have hrun : ∃ us s, exec XmitSys.step twinSys [.send 1 twinAttempt, .send 2 twinAttempt,
      .hypercall 1 (-eagain), .hypercall 2 100, .update 1, .update 2] = some (us, s) ∧
      s.threads 1 = .asleep twinAttempt false ∧ s.xmit = [] := ⟨_, _, rfl, rfl, rfl⟩
  obtain ⟨us, s, hexec, hsleep, hnil⟩ := hrun
  refine ⟨us, s, run_of_exec hexec fun _ _ _ => trivial, hsleep, ?_⟩
  rintro ⟨e, he, -⟩
  rw [hnil] at he
  cases he

/-- A thread alone has its entry when it sleeps. -/
theorem sleepers_covered_one : ∃ e ∈ [PendingXmit.mk .sponsor twinRing.id ⟨9, 2⟩ 100],
    twinAttempt.reliesOn e := by
  have hrun : ∃ us s, exec XmitSys.step twinSys [.send 1 twinAttempt, .hypercall 1 (-eagain)] =
      some (us, s) ∧ s.threads 1 = .tried twinAttempt (-eagain) ∧ s.xmit = [] :=
    ⟨_, _, rfl, rfl, rfl⟩
  obtain ⟨us, s, hexec, htried, hnil⟩ := hrun
  have hbefore : Run XmitSys.step XmitSys.KeepsSleepers twinSys us s :=
    run_of_exec hexec (by
      intro act hact s
      simp only [List.mem_cons, List.not_mem_nil, or_false] at hact
      rcases hact with rfl | rfl <;> trivial)
  have hok : s.KeepsSleepers (.update 1) := by
    intro a ret h hret
    rw [htried] at h
    cases h
    exact absurd rfl hret
  have hstep : s.step (.update 1) = some ((), {
      xmit := [⟨.sponsor, twinRing.id, ⟨9, 2⟩, 100⟩]
      threads := Function.update s.threads 1 (.asleep twinAttempt false)
      sendBlocked := Function.update s.sendBlocked 0 (s.sendBlocked 0 + 1) }) := by
    rw [XmitSys.step, htried, hnil]
    rfl
  refine XmitSys.sleepers_covered (hbefore.next hok hstep) (fun _ => rfl) 1 twinAttempt ?_
  exact Function.update_self 1 _ s.threads

end V4v.Linux
