import LegacyV4v.GuardedRun
import LegacyV4v.Tally
import Mathlib.Data.List.Nodup

/-! # References to watch handlers

A watch handler is on the list of handlers until it is unregistered, and on the list of pending
watches from the time it is triggered until the watch thread takes it off to run its callback.  It has
a reference for being pending, which lives on through the callback, and one for every thread that is
registering it with xenstored again.  `xenbus_unregister_watch` takes it off both lists, waits until
there are no references, and frees it.

`watch_lock` protects the lists and the count, but the wait looks at the count without it, and
`_put_watch_handler` sets the event behind the decrement.  A step here is what happens under the lock,
except that the last decrement and the event are two; the lock is held in between.

A handler that has been freed must not be used: a step that does fails (`none`). -/
namespace V4v.Xenutil
open GuardedRun Tally

/-- `struct xenbus_watch_handler`.  `alive` is its memory, `event` says that its callback is
`set_event_handler`, and `handed`, for the record, that the caller has it and has not unregistered
it. -/
structure WatchHandler where
  alive : Bool
  event : Bool
  faulty : Bool
  needsS3Recover : Bool
  currentlyRegistered : Bool
  refcount : Int
  safeToRelease : Bool
  queued : Bool
  handed : Bool
  deriving DecidableEq, Repr

/-- Who drops a reference: the watch thread, behind a callback, `reregister_all_watches`, or
`xenbus_recover_from_s3`. -/
inductive PutPlace where
  | callback
  | reregister
  | recover
  deriving DecidableEq, Repr

/-- Where a thread is.  It is in none of the functions; in `__xenbus_watch_path`; in
`xenbus_unregister_watch`, before its lock, at the loop, in the wait, and behind it; looking for a
handler in `reregister_all_watches` or `xenbus_recover_from_s3`; in the former, with a reference, at
the request, before `xenbus_trigger_watch`, and before `put_watch_handler`; in the latter, at the
request; or in `_put_watch_handler`, before `KeSetEvent`. -/
inductive WatchPc where
  | idle
  | registering (wh : Nat)
  | unregister (wh : Nat)
  | testing (wh : Nat)
  | blocked (wh : Nat)
  | unwatching (wh : Nat)
  | scanning (recover : Bool)
  | reregistering (wh : Nat)
  | failed (wh : Nat)
  | putting (wh : Nat)
  | recovering (wh : Nat)
  | setting (wh : Nat) (place : PutPlace)
  deriving DecidableEq, Repr

namespace WatchPc

/-- The handler that the thread has a re-registration reference to. -/
def holds : WatchPc → Option Nat
  | .reregistering wh | .failed wh | .putting wh | .recovering wh => some wh
  | .idle | .registering _ | .unregister _ | .testing _ | .blocked _ | .unwatching _ | .scanning _
  | .setting .. => none

/-- The handler that the thread has for itself, before its caller gets it or when it has given it
up. -/
def owns : WatchPc → Option Nat
  | .registering wh | .unregister wh | .testing wh | .blocked wh | .unwatching wh => some wh
  | .idle | .scanning _ | .reregistering _ | .failed _ | .putting _ | .recovering _
  | .setting .. => none

/-- The handler that the thread has taken off the list. -/
def leaves : WatchPc → Option Nat
  | .testing wh | .blocked wh | .unwatching wh => some wh
  | .idle | .registering _ | .unregister _ | .scanning _ | .reregistering _ | .failed _ | .putting _
  | .recovering _ | .setting .. => none

/-- The handler whose event the thread is to set. -/
def sets : WatchPc → Option Nat
  | .setting wh _ => some wh
  | .idle | .registering _ | .unregister _ | .testing _ | .blocked _ | .unwatching _ | .scanning _
  | .reregistering _ | .failed _ | .putting _ | .recovering _ => none

/-- The next step of the thread takes the lock. -/
def locks : WatchPc → Bool
  | .unregister _ | .scanning _ | .failed _ | .putting _ | .recovering _ => true
  | .idle | .registering _ | .testing _ | .blocked _ | .unwatching _ | .reregistering _
  | .setting .. => false

end WatchPc

/-- The handlers, `head_watch_handler`, `pending_watches_list`, `watch_lock` while it is held between
steps, the threads, and the handler whose callback the watch thread runs.  Thread 0 is the watch
thread. -/
structure WatchSys (N : Nat) where
  handler : Nat → WatchHandler
  watchList : List Nat
  pendingList : List Nat
  lock : Option (Fin (N + 1))
  pc : Fin (N + 1) → WatchPc
  callback : Option Nat

/-- A watch is triggered; all registrations are lost; the watch thread takes a handler, or its callback
returns; a thread calls a function, or goes on, with success or failure of its request. -/
inductive WatchAct (N : Nat) where
  | trigger (wh : Nat)
  | reset
  | dequeue
  | callbackReturn
  | watchPath (th : Fin (N + 1)) (wh : Nat) (event : Bool)
  | unregisterWatch (th : Fin (N + 1)) (wh : Nat)
  | reregisterAllWatches (th : Fin (N + 1))
  | recoverFromS3 (th : Fin (N + 1))
  | go (th : Fin (N + 1)) (success : Bool)
  deriving DecidableEq, Repr

/-- `get_watch_handler`. -/
def WatchHandler.get (h : WatchHandler) : WatchHandler :=
  { h with
    refcount := h.refcount + 1
    safeToRelease := if h.refcount + 1 = 1 then false else h.safeToRelease }

namespace WatchSys
variable {N : Nat} {s s' : WatchSys N} {a : WatchAct N} {th : Fin (N + 1)} {wh : Nat}

def setHandler (s : WatchSys N) (wh : Nat) (h : WatchHandler) : WatchSys N :=
  { s with handler := Function.update s.handler wh h }

def setPc (s : WatchSys N) (th : Fin (N + 1)) (pc : WatchPc) : WatchSys N :=
  { s with pc := Function.update s.pc th pc }

/-- `trigger_watch`. -/
def triggerWatch (s : WatchSys N) (wh : Nat) : WatchSys N :=
  let h := s.handler wh
  if h.queued = true ∨ h.event = true then s
  else { s.setHandler wh { h.get with queued := true } with pendingList := s.pendingList ++ [wh] }

/-- `reset_watches`. -/
def resetWatches (s : WatchSys N) : WatchSys N :=
  { s with handler := fun wh =>
      if wh ∈ s.watchList then { s.handler wh with currentlyRegistered := false }
      else s.handler wh }

/-- What follows the release of a reference. -/
def afterPut (s : WatchSys N) (th : Fin (N + 1)) : PutPlace → WatchSys N
  | .callback => { s.setPc th .idle with lock := none }
  | .reregister => { s.setPc th (.scanning false) with lock := none }
  | .recover => { s.setPc th (.scanning true) with lock := some th }

/-- `_put_watch_handler` up to its event. -/
def putWatchHandler (s : WatchSys N) (th : Fin (N + 1)) (wh : Nat) (place : PutPlace) : WatchSys N :=
  let refcount := (s.handler wh).refcount - 1
  let s := s.setHandler wh { s.handler wh with refcount := refcount }
  if refcount = 0 then { s.setPc th (.setting wh place) with lock := some th }
  else s.afterPut th place

/-- `watch_thread_cb` takes a handler off the list; `none` if the assertion fails. -/
def dequeue (s : WatchSys N) : Option (WatchSys N) :=
  match s.pendingList with
  | [] => some s
  | wh :: rest =>
    let h := s.handler wh
    if h.alive = false ∨ h.queued = false then none
    else some { s.setHandler wh { h with queued := false } with
      pendingList := rest
      callback := some wh }

/-- Its callback returns. -/
def callbackReturn (s : WatchSys N) : Option (WatchSys N) :=
  match s.callback with
  | none => some s
  | some wh =>
    if (s.handler wh).alive = false then none
    else some { s.putWatchHandler 0 wh .callback with callback := none }

/-- `__xenbus_watch_path` up to its request. -/
def watchPath (s : WatchSys N) (th : Fin (N + 1)) (wh : Nat) (event : Bool) : WatchSys N :=
  let h : WatchHandler :=
    { alive := true
      event := event
      faulty := false
      needsS3Recover := false
      currentlyRegistered := true
      refcount := 0
      safeToRelease := false
      queued := false
      handed := false }
  { (s.setHandler wh h).setPc th (.registering wh) with watchList := wh :: s.watchList }

/-- `xenbus_unregister_watch` up to its loop. -/
def unhook (s : WatchSys N) (th : Fin (N + 1)) (wh : Nat) : Option (WatchSys N) :=
  let h := s.handler wh
  let s := { s.setPc th (.testing wh) with watchList := s.watchList.erase wh }
  if h.queued = false then some s
  else if wh ∉ s.pendingList then none
  else
    let refcount := h.refcount - 1
    let h := { h with
      refcount := refcount
      safeToRelease := if refcount = 0 then true else h.safeToRelease }
    some { s.setHandler wh h with pendingList := s.pendingList.erase wh }

/-- The loops of `reregister_all_watches` and `xenbus_recover_from_s3`. -/
def scan (s : WatchSys N) (th : Fin (N + 1)) (recover : Bool) : WatchSys N :=
  let s := { s with lock := none }
  let wanted (wh : Nat) : Bool :=
    let h := s.handler wh
    if recover then h.needsS3Recover && !h.faulty else !(h.currentlyRegistered || h.faulty)
  match s.watchList.find? wanted with
  | some wh =>
    let h := (s.handler wh).get
    if recover then (s.setHandler wh { h with needsS3Recover := false }).setPc th (.recovering wh)
    else (s.setHandler wh h).setPc th (.reregistering wh)
  | none => s.setPc th (if recover then .scanning false else .idle)

/-- A thread goes on with a handler that is there. -/
def goWith (s : WatchSys N) (th : Fin (N + 1)) (success : Bool) : Option (WatchSys N) :=
  match s.pc th with
  | .idle => some s
  | .registering wh =>
    let h := s.handler wh
    some (if success = true then (s.setHandler wh { h with handed := true }).setPc th .idle
      else (s.setHandler wh { h with currentlyRegistered := false }).setPc th (.unregister wh))
  | .unregister wh => s.unhook th wh
  | .testing wh =>
    some (s.setPc th (if (s.handler wh).refcount = 0 then .unwatching wh else .blocked wh))
  | .blocked wh => some (if (s.handler wh).safeToRelease = true then s.setPc th (.testing wh) else s)
  | .unwatching wh => some ((s.setHandler wh { s.handler wh with alive := false }).setPc th .idle)
  | .scanning recover => some (s.scan th recover)
  | .reregistering wh =>
    let h := s.handler wh
    some (if success = true then
        (s.setHandler wh { h with currentlyRegistered := true }).setPc th (.putting wh)
      else (s.setHandler wh { h with faulty := true }).setPc th (.failed wh))
  | .failed wh => some ((s.triggerWatch wh).setPc th (.putting wh))
  | .putting wh => some (s.putWatchHandler th wh .reregister)
  | .recovering wh =>
    let s := s.setHandler wh { s.handler wh with currentlyRegistered := false }
    some (s.putWatchHandler th wh .recover)
  | .setting wh place =>
    some ((s.setHandler wh { s.handler wh with safeToRelease := true }).afterPut th place)

/-- A thread goes on; `none` if its handler has been freed. -/
def goOn (s : WatchSys N) (th : Fin (N + 1)) (success : Bool) : Option (WatchSys N) :=
  match ((s.pc th).holds.or (s.pc th).owns).or (s.pc th).sets with
  | some wh => if (s.handler wh).alive = false then none else s.goWith th success
  | none => s.goWith th success

/-- The result of a step; `none` if an assertion fails, a list is corrupted or a handler is used that
has been freed. -/
def step (s : WatchSys N) : WatchAct N → Option (WatchSys N)
  | .trigger wh => if (s.handler wh).alive = false then none else some (s.triggerWatch wh)
  | .reset => some s.resetWatches
  | .dequeue => s.dequeue
  | .callbackReturn => s.callbackReturn
  | .watchPath th wh event => some (s.watchPath th wh event)
  | .unregisterWatch th wh =>
    some ((s.setHandler wh { s.handler wh with handed := false }).setPc th (.unregister wh))
  | .reregisterAllWatches th => some (s.setPc th (.scanning false))
  | .recoverFromS3 th => some { s.setPc th (.scanning true) with
      handler := fun wh =>
        if wh ∈ s.watchList then { s.handler wh with needsS3Recover := true } else s.handler wh
      lock := some th }
  | .go th success => s.goOn th success

/-- The thread can make a call: the watch thread does so from a callback. -/
def CanCall (s : WatchSys N) (th : Fin (N + 1)) : Prop :=
  s.pc th = .idle ∧ (th = 0 → s.callback ≠ none)

/-- What can happen.  Watches are triggered, by xenstored or by their owners, while they are on the
list, and unregistered once, by their owners; whoever takes the lock waits for it. -/
def Enabled (s : WatchSys N) : WatchAct N → Prop
  | .trigger wh => wh ∈ s.watchList ∧ s.lock = none
  | .reset => s.lock = none
  | .dequeue => s.pc 0 = .idle ∧ s.callback = none ∧ s.lock = none
  | .callbackReturn => s.pc 0 = .idle ∧ s.lock = none
  | .watchPath th wh _ => s.CanCall th ∧ (s.handler wh).alive = false ∧ s.lock = none
  | .unregisterWatch th wh => s.CanCall th ∧ (s.handler wh).handed = true
  | .reregisterAllWatches th => s.CanCall th
  | .recoverFromS3 th => s.CanCall th ∧ s.lock = none
  | .go th _ => (s.pc th).locks = true → s.lock = none ∨ s.lock = some th

/-- What does not happen: a callback unregisters its own watch; a re-registration that fails queues a
watch that the watch thread is unregistering; a handler is freed between the last decrement of its
count and the event. -/
def Careful (s : WatchSys N) : WatchAct N → Prop
  | .unregisterWatch th wh => th = 0 → s.callback ≠ some wh
  | .go th _ =>
    match s.pc th with
    | .failed wh => (s.pc 0).leaves = some wh →
      (s.handler wh).queued = true ∨ (s.handler wh).event = true
    | .unwatching wh => ∀ other, (s.pc other).sets ≠ some wh
    | _ => True
  | _ => True

/-- Nothing is watched. -/
def Start (s : WatchSys N) : Prop :=
  (∀ wh, (s.handler wh).alive = false ∧ (s.handler wh).handed = false) ∧ s.watchList = [] ∧
    s.pendingList = [] ∧ s.lock = none ∧ (∀ th, s.pc th = .idle) ∧ s.callback = none

/-- The states of all runs whose steps satisfy `ok`. -/
abbrev Reached (ok : WatchSys N → WatchAct N → Prop) : WatchSys N → Prop :=
  Reachable Start (fun s a s' => s.Enabled a ∧ s.step a = some s') ok

/-! ## What holds at every step -/

/-- The threads with a re-registration reference. -/
def holders (s : WatchSys N) (wh : Nat) : Nat := tally (fun pc => pc.holds = some wh) s.pc

/-- What `refcount` is. -/
def references (s : WatchSys N) (wh : Nat) : Nat :=
  (if wh ∈ s.pendingList then 1 else 0) + (if s.callback = some wh then 1 else 0) + s.holders wh

/-- A reference to the handler is the thread's own: its re-registration reference, or, for the watch
thread, the one for the handler being pending or for its callback. -/
def HoldsReference (s : WatchSys N) (th : Fin (N + 1)) (wh : Nat) : Prop :=
  (s.pc th).holds = some wh ∨ th = 0 ∧ (wh ∈ s.pendingList ∨ s.callback = some wh)

/-- The references to handlers are as they should be: the count is right, no handler is used that has
been freed, none is freed with references, and nobody waits for a reference of its own. -/
structure Accounted (s : WatchSys N) : Prop where
  counted : ∀ wh, (s.handler wh).alive = true → (s.handler wh).refcount = s.references wh
  used : ∀ a, s.Enabled a → s.step a ≠ none
  freed : ∀ th wh, s.pc th = .unwatching wh → s.references wh = 0
  waits : ∀ th wh, s.pc th = .blocked wh → ¬s.HoldsReference th wh

/-- **What holds at every step.** -/
structure Inv (s : WatchSys N) : Prop where
  refs : ∀ wh, (s.handler wh).alive = true → (s.handler wh).refcount = s.references wh
  pendingNodup : s.pendingList.Nodup
  pendingOk : ∀ wh ∈ s.pendingList, (s.handler wh).alive = true ∧ (s.handler wh).queued = true
  linkedNodup : s.watchList.Nodup
  linkedOk : ∀ wh ∈ s.watchList, (s.handler wh).alive = true ∧
    ((s.handler wh).queued = true → wh ∈ s.pendingList)
  callbackOk : ∀ wh, s.callback = some wh → (s.handler wh).alive = true
  holdsOk : ∀ th wh, (s.pc th).holds = some wh → (s.handler wh).alive = true
  ownsOk : ∀ th wh, (s.pc th).owns = some wh → (s.handler wh).alive = true
  setsOk : ∀ th wh, (s.pc th).sets = some wh → (s.handler wh).alive = true
  unique : ∀ th th' wh, (s.pc th).owns = some wh → (s.pc th').owns = some wh → th = th'
  handedOk : ∀ wh, (s.handler wh).handed = true → wh ∈ s.watchList ∧
    ∀ th, (s.pc th).owns ≠ some wh
  leaving : ∀ th wh, (s.pc th).owns = some wh → ((s.pc th).leaves = some wh ↔ wh ∉ s.watchList)
  final : ∀ th wh, s.pc th = .unwatching wh → s.references wh = 0
  ownRunning : ∀ wh, (s.pc 0).owns = some wh → s.callback ≠ some wh
  ownPending : ∀ wh, (s.pc 0).leaves = some wh → wh ∉ s.pendingList

theorem setPc_pc (p : WatchPc) (other : Fin (N + 1)) :
    (s.setPc th p).pc other = if other = th then p else s.pc other :=
  Function.update_apply ..

theorem setHandler_handler (h : WatchHandler) (other : Nat) :
    (s.setHandler wh h).handler other = if other = wh then h else s.handler other :=
  Function.update_apply ..

@[simp] theorem setPc_handler (p : WatchPc) : (s.setPc th p).handler = s.handler := rfl

@[simp] theorem setHandler_pc (h : WatchHandler) : (s.setHandler wh h).pc = s.pc := rfl

theorem leaves_owns {pc : WatchPc} (h : pc.leaves = some wh) : pc.owns = some wh := by
  cases pc with
  | testing | blocked | unwatching => exact h
  | idle | registering | unregister | scanning | reregistering | failed | putting | recovering
  | setting => exact nomatch h

/-- What a thread is yet to take off the list is on it. -/
theorem Inv.linked (h : s.Inv) (hown : (s.pc th).owns = some wh) (hstays : (s.pc th).leaves = none) :
    wh ∈ s.watchList := by
  by_contra hnot
  have hl := (h.leaving th wh hown).mpr hnot
  rw [hstays] at hl
  exact nomatch hl

/-- A handler that nobody owns gets one owner. -/
theorem Inv.unique_of {t t' : Fin (N + 1)} {x : Nat} (h : s.Inv)
    (ht : t = th ∧ x = wh ∨ t ≠ th ∧ x ≠ wh ∧ (s.pc t).owns = some x)
    (ht' : t' = th ∧ x = wh ∨ t' ≠ th ∧ x ≠ wh ∧ (s.pc t').owns = some x) : t = t' := by
  rcases ht with ⟨rfl, rfl⟩ | ⟨-, hxw, ho⟩
  · rcases ht' with ⟨rfl, -⟩ | ⟨-, hxw, -⟩
    · rfl
    · exact absurd rfl hxw
  · rcases ht' with ⟨-, hxw'⟩ | ⟨-, -, ho'⟩
    · exact absurd hxw' hxw
    · exact h.unique t t' x ho ho'

/-- A thread gets to a place with other references. -/
theorem holders_update (th : Fin (N + 1)) (p : WatchPc) (wh : Nat) :
    tally (fun pc => pc.holds = some wh) (Function.update s.pc th p) +
        (if (s.pc th).holds = some wh then 1 else 0) =
      s.holders wh + (if p.holds = some wh then 1 else 0) := by
  have htally := tally_update (fun pc : WatchPc => pc.holds = some wh) s.pc th p
  have hbit (q : WatchPc) : (decide (q.holds = some wh)).toNat =
      if q.holds = some wh then 1 else 0 := by
    by_cases hq : q.holds = some wh
    · rw [if_pos hq, decide_eq_true hq]
      rfl
    · rw [if_neg hq, decide_eq_false hq]
      rfl
  rw [hbit, hbit] at htally
  exact htally

theorem holders_setPc {p : WatchPc} (hp : p.holds = (s.pc th).holds) (wh : Nat) :
    (s.setPc th p).holders wh = s.holders wh := by
  have hup := holders_update (s := s) th p wh
  rw [hp] at hup
  exact Nat.add_right_cancel hup

theorem holders_pos (h : (s.pc th).holds = some wh) : 0 < s.holders wh :=
  tally_pos (decide_eq_true h)

theorem not_final_of_holds (h : s.Inv) (hholds : (s.pc th).holds = some wh)
    (other : Fin (N + 1)) : s.pc other ≠ .unwatching wh := by
  intro heq
  have hzero := h.final other wh heq
  have hpos := holders_pos hholds
  unfold references at hzero
  omega

/-- **A thread goes to another place** with the references that it has. -/
theorem Inv.move {p : WatchPc} (h : s.Inv) (hholds : p.holds = (s.pc th).holds)
    (howns : p.owns = none ∨ p.owns = (s.pc th).owns)
    (hleaves : ∀ wh, p.owns = some wh → (p.leaves = some wh ↔ wh ∉ s.watchList))
    (hsets : ∀ wh, p.sets = some wh → (s.handler wh).alive = true)
    (hfinal : ∀ wh, p = .unwatching wh → s.references wh = 0) : (s.setPc th p).Inv := by
  have howns' (other : Fin (N + 1)) (wh : Nat) (ho : ((s.setPc th p).pc other).owns = some wh) :
      (s.pc other).owns = some wh := by
    rw [setPc_pc] at ho
    split at ho
    · next heq =>
      rcases howns with hnone | hsame
      · exact nomatch hnone.symm.trans ho
      · rw [heq, ← hsame]
        exact ho
    · exact ho
  have hrefs (wh : Nat) : (s.setPc th p).references wh = s.references wh :=
    congrArg _ (holders_setPc hholds wh)
  refine ⟨?_, h.pendingNodup, h.pendingOk, h.linkedNodup, h.linkedOk, h.callbackOk, ?_, ?_, ?_, ?_,
    ?_, ?_, ?_, ?_, ?_⟩
  · intro wh halive
    rw [hrefs]
    exact h.refs wh halive
  · intro other wh ho
    rw [setPc_pc] at ho
    split at ho
    · exact h.holdsOk th wh (hholds ▸ ho)
    · exact h.holdsOk other wh ho
  · exact fun other wh ho => h.ownsOk other wh (howns' other wh ho)
  · intro other wh ho
    rw [setPc_pc] at ho
    split at ho
    · exact hsets wh ho
    · exact h.setsOk other wh ho
  · exact fun x y wh hx hy => h.unique x y wh (howns' x wh hx) (howns' y wh hy)
  · intro wh hh
    obtain ⟨hl, hno⟩ := h.handedOk wh hh
    exact ⟨hl, fun other ho => hno other (howns' other wh ho)⟩
  · intro other wh ho
    have hold := howns' other wh ho
    rw [setPc_pc] at ho ⊢
    split at ho
    · next heq =>
      rw [if_pos heq]
      exact hleaves wh ho
    · next hne =>
      rw [if_neg hne]
      exact h.leaving other wh hold
  · intro other wh ho
    rw [hrefs]
    rw [setPc_pc] at ho
    split at ho
    · exact hfinal wh ho
    · exact h.final other wh ho
  · exact fun wh ho => h.ownRunning wh (howns' 0 wh ho)
  · intro wh hl
    have ho := leaves_owns hl
    have hold := howns' 0 wh ho
    apply h.ownPending wh
    rw [h.leaving 0 wh hold]
    rw [setPc_pc] at hl ho
    split at hl
    · next heq =>
      rw [if_pos heq] at ho
      exact (hleaves wh ho).mp hl
    · exact (h.leaving 0 wh hold).mp hl

/-- A handler changes in what does not matter here. -/
theorem Inv.setHandler (h : s.Inv) (wh : Nat) (h' : WatchHandler) (halive : h'.alive = (s.handler wh).alive)
    (hrefcount : h'.refcount = (s.handler wh).refcount)
    (hqueued : h'.queued = (s.handler wh).queued)
    (hhanded : h'.handed = true → (s.handler wh).handed = true ∨
      wh ∈ s.watchList ∧ ∀ th, (s.pc th).owns ≠ some wh) : (s.setHandler wh h').Inv := by
  have ha (other : Nat) :
      ((s.setHandler wh h').handler other).alive = (s.handler other).alive := by
    rw [setHandler_handler]
    split
    · next heq => rw [heq, halive]
    · rfl
  have hq (other : Nat) :
      ((s.setHandler wh h').handler other).queued = (s.handler other).queued := by
    rw [setHandler_handler]
    split
    · next heq => rw [heq, hqueued]
    · rfl
  refine ⟨?_, h.pendingNodup, ?_, h.linkedNodup, ?_, ?_, ?_, ?_, ?_, h.unique, ?_, h.leaving, h.final,
    h.ownRunning, h.ownPending⟩
  · intro other hal
    rw [ha] at hal
    have hr := h.refs other hal
    rw [setHandler_handler]
    split
    · next heq =>
      rw [hrefcount, ← heq]
      exact hr
    · exact hr
  · intro other ho
    rw [ha, hq]
    exact h.pendingOk other ho
  · intro other ho
    rw [ha, hq]
    exact h.linkedOk other ho
  · intro other ho
    rw [ha]
    exact h.callbackOk other ho
  · intro t other ho
    rw [ha]
    exact h.holdsOk t other ho
  · intro t other ho
    rw [ha]
    exact h.ownsOk t other ho
  · intro t other ho
    rw [ha]
    exact h.setsOk t other ho
  · intro other ho
    rw [setHandler_handler] at ho
    split at ho
    · next heq =>
      rcases hhanded ho with hh | hh
      · rw [heq]
        exact h.handedOk wh hh
      · rw [heq]
        exact hh
    · exact h.handedOk other ho

theorem Inv.withLock (h : s.Inv) (lock : Option (Fin (N + 1))) :
    ({ s with lock := lock } : WatchSys N).Inv :=
  ⟨h.refs, h.pendingNodup, h.pendingOk, h.linkedNodup, h.linkedOk, h.callbackOk, h.holdsOk, h.ownsOk,
    h.setsOk, h.unique, h.handedOk, h.leaving, h.final, h.ownRunning, h.ownPending⟩

/-- Flags change that are not looked at here. -/
theorem Inv.flags {f : Nat → WatchHandler} (h : s.Inv)
    (hf : ∀ wh, (f wh).alive = (s.handler wh).alive ∧ (f wh).refcount = (s.handler wh).refcount ∧
      (f wh).queued = (s.handler wh).queued ∧ (f wh).handed = (s.handler wh).handed) :
    ({ s with handler := f } : WatchSys N).Inv := by
  refine ⟨?_, h.pendingNodup, ?_, h.linkedNodup, ?_, ?_, ?_, ?_, ?_, h.unique, ?_, h.leaving, h.final,
    h.ownRunning, h.ownPending⟩
  · intro wh ha
    change (f wh).refcount = _
    rw [(hf wh).2.1]
    exact h.refs wh ((hf wh).1 ▸ ha)
  · intro wh ho
    change (f wh).alive = true ∧ (f wh).queued = true
    rw [(hf wh).1, (hf wh).2.2.1]
    exact h.pendingOk wh ho
  · intro wh ho
    change (f wh).alive = true ∧ ((f wh).queued = true → _)
    rw [(hf wh).1, (hf wh).2.2.1]
    exact h.linkedOk wh ho
  · intro wh ho
    exact (hf wh).1.trans (h.callbackOk wh ho)
  · intro t wh ho
    exact (hf wh).1.trans (h.holdsOk t wh ho)
  · intro t wh ho
    exact (hf wh).1.trans (h.ownsOk t wh ho)
  · intro t wh ho
    exact (hf wh).1.trans (h.setsOk t wh ho)
  · intro wh ho
    exact h.handedOk wh ((hf wh).2.2.2 ▸ ho)

/-- **A re-registration reference is taken or dropped.** -/
theorem Inv.rehold {p : WatchPc} {h' : WatchHandler} (h : s.Inv)
    (halive : h'.alive = (s.handler wh).alive) (hqueued : h'.queued = (s.handler wh).queued)
    (hhanded : h'.handed = (s.handler wh).handed)
    (hcount : h'.refcount + (if (s.pc th).holds = some wh then 1 else 0) =
      (s.handler wh).refcount + (if p.holds = some wh then 1 else 0))
    (hholds : ∀ other, other ≠ wh → (p.holds = some other ↔ (s.pc th).holds = some other))
    (hpalive : p.holds = some wh → (s.handler wh).alive = true) (howns : p.owns = none)
    (hsets : ∀ other, p.sets = some other → (s.handler other).alive = true)
    (hno : ∀ t, s.pc t ≠ .unwatching wh) : ((s.setHandler wh h').setPc th p).Inv := by
  have hh (other : Nat) : ((s.setHandler wh h').handler other).alive = (s.handler other).alive ∧
      ((s.setHandler wh h').handler other).queued = (s.handler other).queued ∧
      ((s.setHandler wh h').handler other).handed = (s.handler other).handed := by
    rw [setHandler_handler]
    split
    · next heq =>
      rw [heq]
      exact ⟨halive, hqueued, hhanded⟩
    · exact ⟨rfl, rfl, rfl⟩
  have howns' (other : Fin (N + 1)) (x : Nat) (ho : ((s.setPc th p).pc other).owns = some x) :
      (s.pc other).owns = some x ∧ (s.setPc th p).pc other = s.pc other := by
    rw [setPc_pc] at ho ⊢
    split at ho
    · exact nomatch howns.symm.trans ho
    · next hne =>
      rw [if_neg hne]
      exact ⟨ho, rfl⟩
  have hother (x : Nat) (hx : x ≠ wh) :
      ((s.setHandler wh h').setPc th p).references x = s.references x := by
    have hup := holders_update (s := s) th p x
    have hsame : ((s.setHandler wh h').setPc th p).holders x = s.holders x := by
      change tally _ (Function.update s.pc th p) = s.holders x
      by_cases hp : p.holds = some x
      · rw [if_pos hp, if_pos ((hholds x hx).mp hp)] at hup
        omega
      · rw [if_neg hp, if_neg fun ho => hp ((hholds x hx).mpr ho)] at hup
        omega
    exact congrArg _ hsame
  refine ⟨?_, h.pendingNodup, ?_, h.linkedNodup, ?_, ?_, ?_, ?_, ?_, ?_, ?_, ?_, ?_, ?_, ?_⟩
  · intro x ha
    change ((s.setHandler wh h').handler x).alive = true at ha
    change ((s.setHandler wh h').handler x).refcount = _
    rw [(hh x).1] at ha
    have hr := h.refs x ha
    by_cases hx : x = wh
    · subst hx
      have hup := holders_update (s := s) th p x
      rw [setHandler_handler, if_pos rfl]
      unfold references at hr ⊢
      change h'.refcount = ((if x ∈ s.pendingList then 1 else 0) +
        (if s.callback = some x then 1 else 0) + tally _ (Function.update s.pc th p) : Nat)
      split at hcount <;> split at hcount <;> rename_i h1 h2 <;>
        simp only [h1, h2, if_true, if_false] at hup <;> omega
    · rw [setHandler_handler, if_neg hx, hother x hx]
      exact hr
  · intro x ho
    change ((s.setHandler wh h').handler x).alive = true ∧
      ((s.setHandler wh h').handler x).queued = true
    rw [(hh x).1, (hh x).2.1]
    exact h.pendingOk x ho
  · intro x ho
    change ((s.setHandler wh h').handler x).alive = true ∧
      (((s.setHandler wh h').handler x).queued = true → _)
    rw [(hh x).1, (hh x).2.1]
    exact h.linkedOk x ho
  · intro x ho
    exact (hh x).1.trans (h.callbackOk x ho)
  · intro t x ho
    refine (hh x).1.trans ?_
    change ((s.setPc th p).pc t).holds = some x at ho
    rw [setPc_pc] at ho
    split at ho
    · by_cases hx : x = wh
      · exact hx ▸ hpalive (hx ▸ ho)
      · exact h.holdsOk th x ((hholds x hx).mp ho)
    · exact h.holdsOk t x ho
  · intro t x ho
    exact (hh x).1.trans (h.ownsOk t x (howns' t x ho).1)
  · intro t x ho
    refine (hh x).1.trans ?_
    change ((s.setPc th p).pc t).sets = some x at ho
    rw [setPc_pc] at ho
    split at ho
    · exact hsets x ho
    · exact h.setsOk t x ho
  · exact fun t t' x ho ho' => h.unique t t' x (howns' t x ho).1 (howns' t' x ho').1
  · intro x ho
    change ((s.setHandler wh h').handler x).handed = true at ho
    rw [(hh x).2.2] at ho
    obtain ⟨hl, hnone⟩ := h.handedOk x ho
    exact ⟨hl, fun t ho' => hnone t (howns' t x ho').1⟩
  · intro t x ho
    obtain ⟨hold, heq⟩ := howns' t x ho
    change ((s.setPc th p).pc t).leaves = some x ↔ _
    rw [heq]
    exact h.leaving t x hold
  · intro t x ho
    have hown : ((s.setPc th p).pc t).owns = some x := by
      change (s.setPc th p).pc t = _ at ho
      rw [ho]
      rfl
    have heq : s.pc t = .unwatching x := (howns' t x hown).2.symm.trans ho
    have hx : x ≠ wh := fun hx => hno t (hx ▸ heq)
    rw [hother x hx]
    exact h.final t x heq
  · exact fun x ho => h.ownRunning x (howns' 0 x ho).1
  · intro x hl
    obtain ⟨-, heq⟩ := howns' 0 x (leaves_owns hl)
    change ((s.setPc th p).pc 0).leaves = some x at hl
    rw [heq] at hl
    exact h.ownPending x hl

/-! ## The lists -/

/-- **A handler is triggered.** -/
theorem Inv.trigger (h : s.Inv) (halive : (s.handler wh).alive = true)
    (hno : ∀ t, s.pc t ≠ .unwatching wh)
    (hwatch : (s.pc 0).leaves = some wh →
      (s.handler wh).queued = true ∨ (s.handler wh).event = true) : (s.triggerWatch wh).Inv := by
  unfold triggerWatch
  dsimp only
  split
  · exact h
  next hskip =>
  have hqueued : (s.handler wh).queued = false := by
    apply Bool.eq_false_iff.mpr
    exact fun hq => hskip (.inl hq)
  have hnot : wh ∉ s.pendingList := by
    intro hm
    exact Bool.false_ne_true (hqueued.symm.trans (h.pendingOk wh hm).2)
  have hmem (x : Nat) : x ∈ s.pendingList ++ [wh] ↔ x ∈ s.pendingList ∨ x = wh := by
    rw [List.mem_append, List.mem_singleton]
  have hh (x : Nat) : ((s.setHandler wh { (s.handler wh).get with queued := true }).handler x).alive =
      (s.handler x).alive ∧
      ((s.setHandler wh { (s.handler wh).get with queued := true }).handler x).handed =
        (s.handler x).handed := by
    rw [setHandler_handler]
    split
    · next heq =>
      rw [heq]
      exact ⟨rfl, rfl⟩
    · exact ⟨rfl, rfl⟩
  have hq (x : Nat) (hx : x ≠ wh) :
      (s.setHandler wh { (s.handler wh).get with queued := true }).handler x = s.handler x := by
    rw [setHandler_handler, if_neg hx]
  have hqw : ((s.setHandler wh { (s.handler wh).get with queued := true }).handler wh) =
      { (s.handler wh).get with queued := true } := by
    rw [setHandler_handler, if_pos rfl]
  refine ⟨?_, ?_, ?_, h.linkedNodup, ?_, ?_, ?_, ?_, ?_, h.unique, ?_, h.leaving, ?_, h.ownRunning, ?_⟩
  · intro x ha
    have hr := h.refs x ((hh x).1 ▸ ha)
    by_cases hx : x = wh
    · subst hx
      change ((s.setHandler x { (s.handler x).get with queued := true }).handler x).refcount = _
      rw [hqw]
      unfold references at hr ⊢
      rw [if_neg hnot] at hr
      rw [if_pos ((hmem x).mpr (.inr rfl))]
      change (s.handler x).refcount + 1 = (1 + (if s.callback = some x then 1 else 0) +
        s.holders x : Nat)
      omega
    · change ((s.setHandler wh { (s.handler wh).get with queued := true }).handler x).refcount = _
      rw [hq x hx, hr]
      unfold references
      have hiff : x ∈ s.pendingList ++ [wh] ↔ x ∈ s.pendingList := by
        rw [hmem]
        exact or_iff_left hx
      simp only [hiff]
      rfl
  · apply List.nodup_append.mpr
    refine ⟨h.pendingNodup, List.nodup_singleton wh, ?_⟩
    rintro x hx y hy rfl
    exact hnot (List.mem_singleton.mp hy ▸ hx)
  · intro x hx
    by_cases hxw : x = wh
    · subst hxw
      change ((s.setHandler x _).handler x).alive = true ∧ ((s.setHandler x _).handler x).queued = true
      rw [hqw]
      exact ⟨halive, rfl⟩
    · change ((s.setHandler wh _).handler x).alive = true ∧
        ((s.setHandler wh _).handler x).queued = true
      rw [hq x hxw]
      exact h.pendingOk x (((hmem x).mp hx).resolve_right hxw)
  · intro x hx
    refine ⟨(hh x).1.trans (h.linkedOk x hx).1, ?_⟩
    change ((s.setHandler wh _).handler x).queued = true → x ∈ s.pendingList ++ [wh]
    rw [hmem]
    intro hqx
    by_cases hxw : x = wh
    · exact .inr hxw
    · rw [hq x hxw] at hqx
      exact .inl ((h.linkedOk x hx).2 hqx)
  · exact fun x hx => (hh x).1.trans (h.callbackOk x hx)
  · exact fun t x hx => (hh x).1.trans (h.holdsOk t x hx)
  · exact fun t x hx => (hh x).1.trans (h.ownsOk t x hx)
  · exact fun t x hx => (hh x).1.trans (h.setsOk t x hx)
  · exact fun x hx => h.handedOk x ((hh x).2 ▸ hx)
  · intro t x hx
    have hxw : x ≠ wh := fun heq => hno t (heq ▸ hx)
    have hzero := h.final t x hx
    unfold references at hzero ⊢
    have hiff : x ∈ s.pendingList ++ [wh] ↔ x ∈ s.pendingList := by
      rw [hmem]
      exact or_iff_left hxw
    simp only [hiff]
    exact hzero
  · intro x hx
    change x ∉ s.pendingList ++ [wh]
    rw [hmem]
    rintro (hm | rfl)
    · exact h.ownPending x hx hm
    · exact hskip (hwatch hx)

/-- The watch thread takes a handler off the list. -/
theorem inv_dequeue (h : s.Inv) (hidle : s.pc 0 = .idle) (hnone : s.callback = none) :
    ∃ t, s.dequeue = some t ∧ t.Inv := by
  unfold dequeue
  split
  · exact ⟨s, rfl, h⟩
  next wh rest hlist =>
  have hmem : wh ∈ s.pendingList := by
    rw [hlist]
    exact List.mem_cons_self
  obtain ⟨halive, hqueued⟩ := h.pendingOk wh hmem
  have hnd := h.pendingNodup
  rw [hlist] at hnd
  obtain ⟨hnotin, hnd'⟩ := List.nodup_cons.mp hnd
  have hiff (x : Nat) (hx : x ≠ wh) : x ∈ rest ↔ x ∈ s.pendingList := by
    rw [hlist, List.mem_cons]
    exact (or_iff_right hx).symm
  dsimp only
  rw [if_neg (by rw [halive, hqueued]; exact nofun)]
  have hh (x : Nat) (hx : x ≠ wh) : (s.setHandler wh { s.handler wh with queued := false }).handler x =
      s.handler x := by
    rw [setHandler_handler, if_neg hx]
  have ha (x : Nat) : ((s.setHandler wh { s.handler wh with queued := false }).handler x).alive =
      (s.handler x).alive := by
    rw [setHandler_handler]
    split
    · next heq => rw [heq]
    · rfl
  have hrefs (x : Nat) : (if x ∈ rest then 1 else 0) + (if some wh = some x then 1 else 0) +
      s.holders x = s.references x := by
    unfold references
    rw [hnone]
    by_cases hx : x = wh
    · subst hx
      rw [if_neg hnotin, if_pos rfl, if_pos hmem, if_neg nofun]
    · have hne : some wh ≠ some x := fun heq => hx (Option.some.inj heq).symm
      rw [if_neg hne]
      simp only [hiff x hx, reduceCtorEq, if_false]
  refine ⟨_, rfl, ?_, hnd', ?_, h.linkedNodup, ?_, ?_, ?_, ?_, ?_, h.unique, ?_, h.leaving, ?_, ?_, ?_⟩
  · intro x hax
    have hr := h.refs x ((ha x) ▸ hax)
    change ((s.setHandler wh _).handler x).refcount = ((if x ∈ rest then 1 else 0) +
      (if some wh = some x then 1 else 0) + s.holders x : Nat)
    rw [hrefs, setHandler_handler]
    split
    · next heq =>
      rw [heq] at hr ⊢
      exact hr
    · exact hr
  · intro x hx
    have hxw : x ≠ wh := fun heq => hnotin (heq ▸ hx)
    change ((s.setHandler wh _).handler x).alive = true ∧ ((s.setHandler wh _).handler x).queued = true
    rw [hh x hxw]
    exact h.pendingOk x ((hiff x hxw).mp hx)
  · intro x hx
    refine ⟨(ha x).trans (h.linkedOk x hx).1, ?_⟩
    change ((s.setHandler wh _).handler x).queued = true → x ∈ rest
    by_cases hxw : x = wh
    · subst hxw
      rw [setHandler_handler, if_pos rfl]
      exact nofun
    · rw [hh x hxw, hiff x hxw]
      exact (h.linkedOk x hx).2
  · intro x hx
    obtain rfl := Option.some.inj hx
    exact (ha wh).trans halive
  · exact fun t x hx => (ha x).trans (h.holdsOk t x hx)
  · exact fun t x hx => (ha x).trans (h.ownsOk t x hx)
  · exact fun t x hx => (ha x).trans (h.setsOk t x hx)
  · intro x hx
    change ((s.setHandler wh _).handler x).handed = true at hx
    rw [setHandler_handler] at hx
    split at hx
    · next heq =>
      rw [heq]
      exact h.handedOk wh hx
    · exact h.handedOk x hx
  · intro t x hx
    exact (hrefs x).trans (h.final t x hx)
  · intro x hx
    change (s.pc 0).owns = some x at hx
    rw [hidle] at hx
    exact nomatch hx
  · intro x hx
    change (s.pc 0).leaves = some x at hx
    rw [hidle] at hx
    exact nomatch hx

/-- A new handler is put on the list. -/
theorem inv_watchPath {event : Bool} (h : s.Inv) (hidle : s.pc th = .idle)
    (hfree : (s.handler wh).alive = false) : (s.watchPath th wh event).Inv := by
  have hdead {q : Prop} (ha : (s.handler wh).alive = true) : q :=
    absurd (hfree.symm.trans ha) Bool.false_ne_true
  have hpend : wh ∉ s.pendingList := fun hm => hdead (h.pendingOk wh hm).1
  have hlink : wh ∉ s.watchList := fun hm => hdead (h.linkedOk wh hm).1
  have hcb : s.callback ≠ some wh := fun hc => hdead (h.callbackOk wh hc)
  have hholds (t : Fin (N + 1)) : (s.pc t).holds ≠ some wh := fun hc => hdead (h.holdsOk t wh hc)
  have hown (t : Fin (N + 1)) : (s.pc t).owns ≠ some wh := fun hc => hdead (h.ownsOk t wh hc)
  have hne {x : Nat} (ha : (s.handler x).alive = true) : x ≠ wh := fun heq => hdead (heq ▸ ha)
  have hpcs (t : Fin (N + 1)) : (s.watchPath th wh event).pc t =
      if t = th then .registering wh else s.pc t :=
    setPc_pc ..
  have hhs (x : Nat) (hx : x ≠ wh) : (s.watchPath th wh event).handler x = s.handler x :=
    (setHandler_handler ..).trans (if_neg hx)
  have hhw : (s.watchPath th wh event).handler wh = ⟨true, event, false, false, true, 0, false, false,
      false⟩ :=
    (setHandler_handler ..).trans (if_pos rfl)
  have hrefs (x : Nat) : (s.watchPath th wh event).references x = s.references x :=
    congrArg _ (holders_setPc (s := s) (by rw [hidle]; rfl) x)
  have hzero : s.references wh = 0 := by
    have hnobody : s.holders wh = 0 := tally_eq_zero.mpr fun t => decide_eq_false (hholds t)
    unfold references
    rw [if_neg hpend, if_neg hcb, hnobody]
  have howns (t : Fin (N + 1)) (x : Nat) (ho : ((s.watchPath th wh event).pc t).owns = some x) :
      t = th ∧ x = wh ∨ t ≠ th ∧ x ≠ wh ∧ (s.pc t).owns = some x := by
    rw [hpcs] at ho
    split at ho
    · next heq => exact .inl ⟨heq, (Option.some.inj ho).symm⟩
    · next heq => exact .inr ⟨heq, hne (h.ownsOk t x ho), ho⟩
  refine ⟨?_, h.pendingNodup, ?_, List.nodup_cons.mpr ⟨hlink, h.linkedNodup⟩, ?_, ?_, ?_, ?_, ?_, ?_,
    ?_, ?_, ?_, ?_, ?_⟩
  · intro x ha
    rw [hrefs]
    by_cases hx : x = wh
    · rw [hx, hhw, hzero]
      rfl
    · rw [hhs x hx] at ha ⊢
      exact h.refs x ha
  · intro x hx
    rw [hhs x (hne (h.pendingOk x hx).1)]
    exact h.pendingOk x hx
  · intro x hx
    rcases List.mem_cons.mp hx with rfl | hx
    · rw [hhw]
      exact ⟨rfl, nofun⟩
    · rw [hhs x (hne (h.linkedOk x hx).1)]
      exact h.linkedOk x hx
  · intro x hx
    rw [hhs x (hne (h.callbackOk x hx))]
    exact h.callbackOk x hx
  · intro t x hx
    rw [hpcs] at hx
    split at hx
    · exact nomatch hx
    · rw [hhs x (hne (h.holdsOk t x hx))]
      exact h.holdsOk t x hx
  · intro t x hx
    rcases howns t x hx with ⟨-, rfl⟩ | ⟨-, hxw, ho⟩
    · rw [hhw]
    · rw [hhs x hxw]
      exact h.ownsOk t x ho
  · intro t x hx
    rw [hpcs] at hx
    split at hx
    · exact nomatch hx
    · rw [hhs x (hne (h.setsOk t x hx))]
      exact h.setsOk t x hx
  · exact fun t t' x ht ht' => h.unique_of (howns t x ht) (howns t' x ht')
  · intro x hx
    by_cases hxw : x = wh
    · rw [hxw, hhw] at hx
      exact nomatch hx
    · rw [hhs x hxw] at hx
      obtain ⟨hl, hno⟩ := h.handedOk x hx
      refine ⟨List.mem_cons_of_mem _ hl, fun t ho => ?_⟩
      rcases howns t x ho with ⟨-, heq⟩ | ⟨-, -, ho⟩
      · exact hxw heq
      · exact hno t ho
  · intro t x ho
    rcases howns t x ho with ⟨rfl, rfl⟩ | ⟨hne', hxw, ho⟩
    · rw [hpcs, if_pos rfl]
      exact ⟨nofun, fun hl => absurd List.mem_cons_self hl⟩
    · rw [hpcs, if_neg hne', h.leaving t x ho]
      exact not_congr (List.mem_cons.trans (or_iff_right hxw)).symm
  · intro t x hx
    rw [hrefs]
    rw [hpcs] at hx
    split at hx
    · exact nomatch hx
    · exact h.final t x hx
  · intro x ho
    rcases howns 0 x ho with ⟨-, rfl⟩ | ⟨-, -, ho⟩
    · exact hcb
    · exact h.ownRunning x ho
  · intro x hl
    rcases howns 0 x (leaves_owns hl) with ⟨rfl, -⟩ | ⟨hne', -, -⟩
    · rw [hpcs, if_pos rfl] at hl
      exact nomatch hl
    · rw [hpcs, if_neg hne'] at hl
      exact h.ownPending x hl

/-- A handler that has been unregistered leaves both lists. -/
theorem inv_unhooked (h : s.Inv) (h' : WatchHandler) (hpc : s.pc th = .unregister wh)
    (halive : h'.alive = (s.handler wh).alive) (hhanded : h'.handed = (s.handler wh).handed)
    (hcount : h'.refcount + (if wh ∈ s.pendingList then 1 else 0) = (s.handler wh).refcount) :
    ({ (s.setHandler wh h').setPc th (.testing wh) with
      watchList := s.watchList.erase wh
      pendingList := s.pendingList.erase wh } : WatchSys N).Inv := by
  have hown : (s.pc th).owns = some wh := by
    rw [hpc]
    rfl
  have hlinked : wh ∈ s.watchList := h.linked hown (by rw [hpc]; rfl)
  have hpcs (t : Fin (N + 1)) : ((s.setHandler wh h').setPc th (.testing wh)).pc t =
      if t = th then .testing wh else s.pc t :=
    setPc_pc ..
  have ha (x : Nat) : ((s.setHandler wh h').handler x).alive = (s.handler x).alive ∧
      ((s.setHandler wh h').handler x).handed = (s.handler x).handed := by
    rw [setHandler_handler]
    split
    · next heq => rw [heq]; exact ⟨halive, hhanded⟩
    · exact ⟨rfl, rfl⟩
  have hh (x : Nat) (hx : x ≠ wh) : (s.setHandler wh h').handler x = s.handler x := by
    rw [setHandler_handler, if_neg hx]
  have hpend (x : Nat) : x ∈ s.pendingList.erase wh ↔ x ≠ wh ∧ x ∈ s.pendingList :=
    h.pendingNodup.mem_erase_iff
  have hlink (x : Nat) : x ∈ s.watchList.erase wh ↔ x ≠ wh ∧ x ∈ s.watchList :=
    h.linkedNodup.mem_erase_iff
  have hhold (x : Nat) : ((s.setHandler wh h').setPc th (.testing wh)).holders x = s.holders x :=
    holders_setPc (s := s) (by rw [hpc]; rfl) x
  have hrefs (x : Nat) (hx : x ≠ wh) : (if x ∈ s.pendingList.erase wh then 1 else 0) +
      (if s.callback = some x then 1 else 0) + s.holders x = s.references x := by
    unfold references
    simp only [hpend, ne_eq, hx, not_false_eq_true, true_and]
  have howns (t : Fin (N + 1)) (x : Nat)
      (ho : (((s.setHandler wh h').setPc th (.testing wh)).pc t).owns = some x) :
      (s.pc t).owns = some x := by
    rw [hpcs] at ho
    split at ho
    · next heq =>
      obtain rfl := Option.some.inj ho
      rw [heq]
      exact hown
    · exact ho
  have hsame (t : Fin (N + 1)) (ho : (s.pc t).owns = some wh) : t = th := h.unique t th wh ho hown
  refine ⟨?_, h.pendingNodup.erase wh, ?_, h.linkedNodup.erase wh, ?_, ?_, ?_, ?_, ?_, ?_, ?_, ?_, ?_,
    ?_, ?_⟩
  · intro x hx
    have hr := h.refs x ((ha x).1 ▸ hx)
    change ((s.setHandler wh h').handler x).refcount = ((if x ∈ s.pendingList.erase wh then 1 else 0) +
      (if s.callback = some x then 1 else 0) +
        ((s.setHandler wh h').setPc th (.testing wh)).holders x : Nat)
    rw [hhold]
    by_cases hxw : x = wh
    · subst hxw
      have hnot : x ∉ s.pendingList.erase x := fun hm => ((hpend x).mp hm).1 rfl
      rw [setHandler_handler, if_pos rfl, if_neg hnot]
      unfold references at hr
      split at hcount <;> rename_i hm <;> simp only [hm, if_true, if_false] at hr <;> omega
    · rw [hrefs x hxw, hh x hxw]
      exact hr
  · intro x hx
    obtain ⟨hxw, hx⟩ := (hpend x).mp hx
    change ((s.setHandler wh h').handler x).alive = true ∧ ((s.setHandler wh h').handler x).queued = true
    rw [hh x hxw]
    exact h.pendingOk x hx
  · intro x hx
    obtain ⟨hxw, hx⟩ := (hlink x).mp hx
    change ((s.setHandler wh h').handler x).alive = true ∧
      (((s.setHandler wh h').handler x).queued = true → x ∈ s.pendingList.erase wh)
    rw [hh x hxw, hpend]
    exact ⟨(h.linkedOk x hx).1, fun hq => ⟨hxw, (h.linkedOk x hx).2 hq⟩⟩
  · exact fun x hx => (ha x).1.trans (h.callbackOk x hx)
  · intro t x hx
    change (((s.setHandler wh h').setPc th (.testing wh)).pc t).holds = some x at hx
    rw [hpcs] at hx
    split at hx
    · exact nomatch hx
    · exact (ha x).1.trans (h.holdsOk t x hx)
  · exact fun t x hx => (ha x).1.trans (h.ownsOk t x (howns t x hx))
  · intro t x hx
    change (((s.setHandler wh h').setPc th (.testing wh)).pc t).sets = some x at hx
    rw [hpcs] at hx
    split at hx
    · exact nomatch hx
    · exact (ha x).1.trans (h.setsOk t x hx)
  · exact fun t t' x ht ht' => h.unique t t' x (howns t x ht) (howns t' x ht')
  · intro x hx
    obtain ⟨hl, hno⟩ := h.handedOk x ((ha x).2 ▸ hx)
    have hxw : x ≠ wh := fun heq => hno th (heq ▸ hown)
    exact ⟨(hlink x).mpr ⟨hxw, hl⟩, fun t ho => hno t (howns t x ho)⟩
  · intro t x ho
    have hold := howns t x ho
    change (((s.setHandler wh h').setPc th (.testing wh)).pc t).leaves = some x ↔
      x ∉ s.watchList.erase wh
    rw [hpcs, hlink]
    by_cases ht : t = th
    · obtain rfl : x = wh := by
        rw [ht, hown] at hold
        exact (Option.some.inj hold).symm
      rw [if_pos ht]
      exact iff_of_true rfl fun hm => hm.1 rfl
    · have hxw : x ≠ wh := fun heq => ht (hsame t (heq ▸ hold))
      rw [if_neg ht, h.leaving t x hold]
      exact not_congr (and_iff_right hxw).symm
  · intro t x hx
    change ((s.setHandler wh h').setPc th (.testing wh)).pc t = .unwatching x at hx
    change (if x ∈ s.pendingList.erase wh then 1 else 0) + (if s.callback = some x then 1 else 0) +
      ((s.setHandler wh h').setPc th (.testing wh)).holders x = 0
    rw [hpcs] at hx
    split at hx
    · exact nomatch hx
    · next ht =>
      have hxw : x ≠ wh := by
        intro heq
        apply ht
        apply hsame
        rw [hx, heq]
        rfl
      rw [hhold, hrefs x hxw]
      exact h.final t x hx
  · exact fun x ho => h.ownRunning x (howns 0 x ho)
  · intro x hl
    change x ∉ s.pendingList.erase wh
    change (((s.setHandler wh h').setPc th (.testing wh)).pc 0).leaves = some x at hl
    rw [hpend]
    rw [hpcs] at hl
    split at hl
    · exact fun hm => hm.1 (Option.some.inj hl).symm
    · exact fun hm => h.ownPending x hl hm.2

/-- `xenbus_unregister_watch` up to its loop. -/
theorem inv_unhook (h : s.Inv) (hpc : s.pc th = .unregister wh) :
    ∃ t, s.unhook th wh = some t ∧ t.Inv := by
  have hown : (s.pc th).owns = some wh := by
    rw [hpc]
    rfl
  have hlinked : wh ∈ s.watchList := h.linked hown (by rw [hpc]; rfl)
  unfold unhook
  dsimp only
  split
  · next hqueued =>
    have hnot : wh ∉ s.pendingList := by
      intro hm
      exact Bool.false_ne_true (hqueued.symm.trans (h.pendingOk wh hm).2)
    refine ⟨_, rfl, ?_⟩
    have hinv := inv_unhooked h (s.handler wh) hpc rfl rfl (by rw [if_neg hnot, add_zero])
    have hself : s.setHandler wh (s.handler wh) = s := by
      unfold setHandler
      rw [Function.update_eq_self]
    rw [hself, List.erase_of_not_mem hnot] at hinv
    exact hinv
  · next hqueued =>
    have hmem : wh ∈ s.pendingList := (h.linkedOk wh hlinked).2 (eq_true_of_ne_false hqueued)
    have hlisted : ¬wh ∉ (s.setPc th (.testing wh)).pendingList := not_not.mpr hmem
    rw [if_neg hlisted]
    refine ⟨_, rfl, ?_⟩
    apply inv_unhooked h { s.handler wh with
      refcount := (s.handler wh).refcount - 1
      safeToRelease := if (s.handler wh).refcount - 1 = 0 then true
        else (s.handler wh).safeToRelease } hpc rfl rfl
    rw [if_pos hmem]
    exact sub_add_cancel ..

/-! ## The threads -/

/-- Behind the release of a reference a thread has none. -/
theorem afterPut_cases (s : WatchSys N) (th : Fin (N + 1)) (place : PutPlace) :
    ∃ p lock, s.afterPut th place = { s.setPc th p with lock := lock } ∧
      p.holds = none ∧ p.owns = none ∧ p.sets = none := by
  cases place with
  | callback => exact ⟨.idle, none, rfl, rfl, rfl, rfl⟩
  | reregister => exact ⟨.scanning false, none, rfl, rfl, rfl, rfl⟩
  | recover => exact ⟨.scanning true, some th, rfl, rfl, rfl, rfl⟩

/-- `_put_watch_handler` decrements the count. -/
theorem putWatchHandler_cases (s : WatchSys N) (th : Fin (N + 1)) (wh : Nat) (place : PutPlace) :
    ∃ p lock, s.putWatchHandler th wh place =
        { (s.setHandler wh { s.handler wh with
            refcount := (s.handler wh).refcount - 1 }).setPc th p with lock := lock } ∧
      p.holds = none ∧ p.owns = none ∧ ∀ x, p.sets = some x → x = wh := by
  unfold putWatchHandler
  dsimp only
  split
  · exact ⟨.setting wh place, some th, rfl, rfl, rfl, fun x hx => (Option.some.inj hx).symm⟩
  · obtain ⟨p, lock, heq, hholds, howns, hsets⟩ := afterPut_cases (s.setHandler wh { s.handler wh with
      refcount := (s.handler wh).refcount - 1 }) th place
    exact ⟨p, lock, heq, hholds, howns, fun x hx => nomatch hsets.symm.trans hx⟩

/-- A thread drops its re-registration reference. -/
theorem Inv.put (h : s.Inv) (hholds : (s.pc th).holds = some wh) (place : PutPlace) :
    (s.putWatchHandler th wh place).Inv := by
  obtain ⟨p, lock, heq, hp, howns, hsets⟩ := putWatchHandler_cases s th wh place
  have halive := h.holdsOk th wh hholds
  rw [heq]
  have hdrop : ((s.setHandler wh { s.handler wh with
      refcount := (s.handler wh).refcount - 1 }).setPc th p).Inv := by
    refine h.rehold rfl rfl rfl ?_ ?_ ?_ howns ?_ (not_final_of_holds h hholds)
    · rw [if_pos hholds, hp, if_neg nofun]
      exact (sub_add_cancel ..).trans (add_zero _).symm
    · intro x hx
      rw [hp, hholds]
      exact iff_of_false nofun fun heq => hx (Option.some.inj heq).symm
    · intro hnone
      exact nomatch hp.symm.trans hnone
    · intro x hx
      rw [hsets x hx]
      exact halive
  exact hdrop.withLock lock

/-- The callback's reference is dropped. -/
theorem Inv.uncall (h : s.Inv) (hcb : s.callback = some wh) :
    ({ s.setHandler wh { s.handler wh with refcount := (s.handler wh).refcount - 1 } with
      callback := none } : WatchSys N).Inv := by
  have hh (x : Nat) : ((s.setHandler wh { s.handler wh with
      refcount := (s.handler wh).refcount - 1 }).handler x).alive = (s.handler x).alive ∧
      ((s.setHandler wh { s.handler wh with
        refcount := (s.handler wh).refcount - 1 }).handler x).queued = (s.handler x).queued ∧
      ((s.setHandler wh { s.handler wh with
        refcount := (s.handler wh).refcount - 1 }).handler x).handed = (s.handler x).handed := by
    rw [setHandler_handler]
    split
    · next heq =>
      rw [heq]
      exact ⟨rfl, rfl, rfl⟩
    · exact ⟨rfl, rfl, rfl⟩
  have hrefs (x : Nat) : (if x ∈ s.pendingList then 1 else 0) +
      (if (none : Option Nat) = some x then 1 else 0) + s.holders x +
      (if x = wh then 1 else 0) = s.references x := by
    have hiff : s.callback = some x ↔ x = wh := by
      rw [hcb]
      exact ⟨fun heq => (Option.some.inj heq).symm, fun heq => congrArg some heq.symm⟩
    unfold references
    simp only [hiff, reduceCtorEq, if_false]
    omega
  refine ⟨?_, h.pendingNodup, ?_, h.linkedNodup, ?_, ?_, ?_, ?_, ?_, h.unique, ?_, h.leaving, ?_,
    fun x _ => nofun, h.ownPending⟩
  · intro x hx
    have hr := h.refs x ((hh x).1 ▸ hx)
    rw [← hrefs] at hr
    change ((s.setHandler wh _).handler x).refcount = ((if x ∈ s.pendingList then 1 else 0) +
      (if (none : Option Nat) = some x then 1 else 0) + s.holders x : Nat)
    rw [setHandler_handler]
    split
    · next heq =>
      rw [if_pos heq, heq] at hr
      rw [heq]
      push_cast at hr ⊢
      omega
    · next hne =>
      rw [if_neg hne] at hr
      exact hr
  · intro x hx
    change ((s.setHandler wh _).handler x).alive = true ∧ ((s.setHandler wh _).handler x).queued = true
    rw [(hh x).1, (hh x).2.1]
    exact h.pendingOk x hx
  · intro x hx
    change ((s.setHandler wh _).handler x).alive = true ∧
      (((s.setHandler wh _).handler x).queued = true → x ∈ s.pendingList)
    rw [(hh x).1, (hh x).2.1]
    exact h.linkedOk x hx
  · exact fun x hx => nomatch hx
  · exact fun t x hx => (hh x).1.trans (h.holdsOk t x hx)
  · exact fun t x hx => (hh x).1.trans (h.ownsOk t x hx)
  · exact fun t x hx => (hh x).1.trans (h.setsOk t x hx)
  · exact fun x hx => h.handedOk x ((hh x).2.2 ▸ hx)
  · intro t x hx
    have hzero := h.final t x hx
    rw [← hrefs] at hzero
    exact Nat.eq_zero_of_add_eq_zero_right hzero

/-- The callback returns. -/
theorem inv_callbackReturn (h : s.Inv) (hidle : s.pc 0 = .idle) :
    ∃ t, s.callbackReturn = some t ∧ t.Inv := by
  unfold callbackReturn
  cases hcb : s.callback with
  | none => exact ⟨s, rfl, h⟩
  | some wh =>
    have halive := h.callbackOk wh hcb
    obtain ⟨p, lock, heq, hp, howns, hsets⟩ := putWatchHandler_cases s 0 wh .callback
    dsimp only
    rw [if_neg (by rw [halive]; exact nofun), heq]
    refine ⟨_, rfl, ?_⟩
    have hcalled := h.uncall hcb
    have hmove : (({ s.setHandler wh { s.handler wh with
        refcount := (s.handler wh).refcount - 1 } with callback := none } : WatchSys N).setPc 0 p).Inv := by
      refine hcalled.move ?_ (.inl howns) ?_ ?_ ?_
      · rw [hp]
        change none = (s.pc 0).holds
        rw [hidle]
        rfl
      · intro x hx
        exact nomatch howns.symm.trans hx
      · intro x hx
        rw [hsets x hx]
        change ((s.setHandler wh _).handler wh).alive = true
        rw [setHandler_handler, if_pos rfl]
        exact halive
      · intro x hx
        rw [hx] at howns
        exact nomatch howns
    exact hmove.withLock lock

/-- `reregister_all_watches` and `xenbus_recover_from_s3` look for a handler. -/
theorem inv_scan {recover : Bool} (h : s.Inv) (hpc : s.pc th = .scanning recover) :
    (s.scan th recover).Inv := by
  have hholds : (s.pc th).holds = none := by
    rw [hpc]
    rfl
  have hfree := h.withLock none
  unfold scan
  dsimp only
  split
  · next wh hfind =>
    have hmem := List.mem_of_find?_eq_some hfind
    have halive := (h.linkedOk wh hmem).1
    have hno (t : Fin (N + 1)) : s.pc t ≠ .unwatching wh := by
      intro heq
      have hown : (s.pc t).owns = some wh := by
        rw [heq]
        rfl
      refine (h.leaving t wh hown).mp ?_ hmem
      rw [heq]
      rfl
    have htake {p : WatchPc} {h' : WatchHandler} (hp : p.holds = some wh) (howns : p.owns = none)
        (hsets : p.sets = none) (ha : h'.alive = (s.handler wh).alive)
        (hq : h'.queued = (s.handler wh).queued) (hd : h'.handed = (s.handler wh).handed)
        (hr : h'.refcount = (s.handler wh).refcount + 1) :
        (({ s with lock := none }.setHandler wh h').setPc th p).Inv := by
      refine hfree.rehold ha hq hd ?_ ?_ ?_ howns ?_ hno
      · change h'.refcount + (if (s.pc th).holds = some wh then 1 else 0) = (s.handler wh).refcount + _
        rw [hholds, if_neg nofun, if_pos hp, hr, add_zero]
      · intro x hx
        change _ ↔ (s.pc th).holds = some x
        rw [hp, hholds]
        exact iff_of_false (fun heq => hx (Option.some.inj heq).symm) nofun
      · exact fun _ => halive
      · exact fun x hx => nomatch hsets.symm.trans hx
    split
    · exact htake rfl rfl rfl rfl rfl rfl rfl
    · exact htake rfl rfl rfl rfl rfl rfl rfl
  · refine hfree.move ?_ (.inl ?_) ?_ ?_ ?_
    · change _ = (s.pc th).holds
      rw [hholds]
      split <;> rfl
    · split <;> rfl
    · intro x hx
      split at hx <;> exact nomatch hx
    · intro x hx
      split at hx <;> exact nomatch hx
    · intro x hx
      split at hx <;> exact nomatch hx

/-- A handler is freed: nobody has a reference to it. -/
theorem inv_free (h : s.Inv) (hpc : s.pc th = .unwatching wh)
    (hsets : ∀ other, (s.pc other).sets ≠ some wh) :
    ((s.setHandler wh { s.handler wh with alive := false }).setPc th .idle).Inv := by
  have hown : (s.pc th).owns = some wh := by
    rw [hpc]
    rfl
  have hzero := h.final th wh hpc
  have hpend : wh ∉ s.pendingList := by
    intro hm
    unfold references at hzero
    rw [if_pos hm] at hzero
    omega
  have hcb : s.callback ≠ some wh := by
    intro hc
    unfold references at hzero
    rw [if_pos hc] at hzero
    omega
  have hholds (t : Fin (N + 1)) : (s.pc t).holds ≠ some wh := fun hh => not_final_of_holds h hh th hpc
  have hlink : wh ∉ s.watchList := by
    apply (h.leaving th wh hown).mp
    rw [hpc]
    rfl
  have hmove : (s.setPc th .idle).Inv := by
    refine h.move ?_ (.inl rfl) nofun nofun nofun
    rw [hpc]
    rfl
  have hnot (t : Fin (N + 1)) (x : Nat) (ho : ((s.setPc th .idle).pc t).owns = some x) : x ≠ wh := by
    rw [setPc_pc] at ho
    split at ho
    · exact nomatch ho
    · next hne =>
      rintro rfl
      exact hne (h.unique t th x ho hown)
  have hh (x : Nat) (hx : x ≠ wh) :
      (s.setHandler wh { s.handler wh with alive := false }).handler x = s.handler x := by
    rw [setHandler_handler, if_neg hx]
  refine ⟨?_, h.pendingNodup, ?_, h.linkedNodup, ?_, ?_, ?_, ?_, ?_, hmove.unique, ?_, hmove.leaving,
    hmove.final, hmove.ownRunning, hmove.ownPending⟩
  · intro x hx
    change ((s.setHandler wh { s.handler wh with alive := false }).handler x).alive = true at hx
    by_cases hxw : x = wh
    · rw [hxw, setHandler_handler, if_pos rfl] at hx
      exact nomatch hx
    · rw [hh x hxw] at hx
      change ((s.setHandler wh { s.handler wh with alive := false }).handler x).refcount = _
      rw [hh x hxw]
      exact hmove.refs x hx
  · intro x hx
    change ((s.setHandler wh { s.handler wh with alive := false }).handler x).alive = true ∧
      ((s.setHandler wh { s.handler wh with alive := false }).handler x).queued = true
    rw [hh x fun heq => hpend (heq ▸ hx)]
    exact h.pendingOk x hx
  · intro x hx
    change ((s.setHandler wh { s.handler wh with alive := false }).handler x).alive = true ∧
      (((s.setHandler wh { s.handler wh with alive := false }).handler x).queued = true → _)
    rw [hh x fun heq => hlink (heq ▸ hx)]
    exact h.linkedOk x hx
  · intro x hx
    change ((s.setHandler wh { s.handler wh with alive := false }).handler x).alive = true
    rw [hh x fun heq => hcb (heq ▸ hx)]
    exact h.callbackOk x hx
  · intro t x hx
    change ((s.setHandler wh { s.handler wh with alive := false }).handler x).alive = true
    change ((s.setPc th .idle).pc t).holds = some x at hx
    have hxw : x ≠ wh := by
      rintro rfl
      rw [setPc_pc] at hx
      split at hx
      · exact nomatch hx
      · exact hholds t hx
    rw [hh x hxw]
    exact hmove.holdsOk t x hx
  · intro t x hx
    change ((s.setHandler wh { s.handler wh with alive := false }).handler x).alive = true
    rw [hh x (hnot t x hx)]
    exact hmove.ownsOk t x hx
  · intro t x hx
    change ((s.setHandler wh { s.handler wh with alive := false }).handler x).alive = true
    change ((s.setPc th .idle).pc t).sets = some x at hx
    have hxw : x ≠ wh := by
      rintro rfl
      rw [setPc_pc] at hx
      split at hx
      · exact nomatch hx
      · exact hsets t hx
    rw [hh x hxw]
    exact hmove.setsOk t x hx
  · intro x hx
    change ((s.setHandler wh { s.handler wh with alive := false }).handler x).handed = true at hx
    apply hmove.handedOk
    rw [setHandler_handler] at hx
    split at hx
    · next heq =>
      rw [heq]
      exact hx
    · exact hx

/-- A handler is to be unregistered by its owner. -/
theorem inv_unregister (h : s.Inv) (hidle : s.pc th = .idle) (hhanded : (s.handler wh).handed = true)
    (hself : th = 0 → s.callback ≠ some wh) :
    ((s.setHandler wh { s.handler wh with handed := false }).setPc th (.unregister wh)).Inv := by
  obtain ⟨hlinked, hnobody⟩ := h.handedOk wh hhanded
  have hpcs (t : Fin (N + 1)) : (s.setPc th (.unregister wh)).pc t =
      if t = th then .unregister wh else s.pc t :=
    setPc_pc ..
  have hgone := h.setHandler wh { s.handler wh with handed := false } rfl rfl rfl nofun
  have hhold (x : Nat) : (s.setPc th (.unregister wh)).holders x = s.holders x :=
    holders_setPc (by rw [hidle]; rfl) x
  have hrefs (x : Nat) :
      ((s.setHandler wh { s.handler wh with handed := false }).setPc th (.unregister wh)).references x =
        s.references x :=
    congrArg _ (hhold x)
  have howns (t : Fin (N + 1)) (x : Nat) (ho : ((s.setPc th (.unregister wh)).pc t).owns = some x) :
      t = th ∧ x = wh ∨ t ≠ th ∧ x ≠ wh ∧ (s.pc t).owns = some x := by
    rw [hpcs] at ho
    split at ho
    · next heq => exact .inl ⟨heq, (Option.some.inj ho).symm⟩
    · next hne =>
      refine .inr ⟨hne, ?_, ho⟩
      rintro rfl
      exact hnobody t ho
  refine ⟨?_, h.pendingNodup, hgone.pendingOk, h.linkedNodup, hgone.linkedOk, hgone.callbackOk, ?_, ?_, ?_,
    ?_, ?_, ?_, ?_, ?_, ?_⟩
  · intro x hx
    rw [hrefs]
    exact hgone.refs x hx
  · intro t x hx
    change ((s.setPc th (.unregister wh)).pc t).holds = some x at hx
    rw [hpcs] at hx
    split at hx
    · exact nomatch hx
    · exact hgone.holdsOk t x hx
  · intro t x hx
    rcases howns t x hx with ⟨-, rfl⟩ | ⟨-, -, ho⟩
    · exact (hgone.linkedOk x hlinked).1
    · exact hgone.ownsOk t x ho
  · intro t x hx
    change ((s.setPc th (.unregister wh)).pc t).sets = some x at hx
    rw [hpcs] at hx
    split at hx
    · exact nomatch hx
    · exact hgone.setsOk t x hx
  · exact fun t t' x ht ht' => h.unique_of (howns t x ht) (howns t' x ht')
  · intro x hx
    obtain ⟨hl, hno⟩ := hgone.handedOk x hx
    refine ⟨hl, fun t ho => ?_⟩
    rcases howns t x ho with ⟨-, rfl⟩ | ⟨-, -, ho⟩
    · change ((s.setHandler x { s.handler x with handed := false }).handler x).handed = true at hx
      rw [setHandler_handler, if_pos rfl] at hx
      exact nomatch hx
    · exact hno t ho
  · intro t x ho
    change ((s.setPc th (.unregister wh)).pc t).leaves = some x ↔ x ∉ s.watchList
    rcases howns t x ho with ⟨rfl, rfl⟩ | ⟨hne, -, ho⟩
    · rw [hpcs, if_pos rfl]
      exact iff_of_false nofun (not_not.mpr hlinked)
    · rw [hpcs, if_neg hne]
      exact h.leaving t x ho
  · intro t x hx
    rw [hrefs]
    change (s.setPc th (.unregister wh)).pc t = .unwatching x at hx
    rw [hpcs] at hx
    split at hx
    · exact nomatch hx
    · exact h.final t x hx
  · intro x ho
    rcases howns 0 x ho with ⟨heq, rfl⟩ | ⟨-, -, ho⟩
    · exact hself heq.symm
    · exact h.ownRunning x ho
  · intro x hl
    change ((s.setPc th (.unregister wh)).pc 0).leaves = some x at hl
    rw [hpcs] at hl
    split at hl
    · exact nomatch hl
    · exact h.ownPending x hl

theorem triggerWatch_pc (s : WatchSys N) (wh : Nat) : (s.triggerWatch wh).pc = s.pc := by
  unfold triggerWatch
  dsimp only
  split <;> rfl

/-- A thread goes on. -/
theorem inv_goWith {success : Bool} (h : s.Inv) (hok : s.Careful (.go th success))
    (hstep : s.goWith th success = some s') : s'.Inv := by
  unfold goWith at hstep
  split at hstep
  case h_1 =>
    rw [← Option.some.inj hstep]
    exact h
  case h_2 wh hpc =>
    have hown : (s.pc th).owns = some wh := by
      rw [hpc]
      rfl
    have hlinked : wh ∈ s.watchList := h.linked hown (by rw [hpc]; rfl)
    rw [← Option.some.inj hstep]
    split
    · have hmove : (s.setPc th .idle).Inv := by
        refine h.move ?_ (.inl rfl) nofun nofun nofun
        rw [hpc]
        rfl
      refine hmove.setHandler wh { s.handler wh with handed := true } rfl rfl rfl ?_
      refine fun _ => .inr ⟨hlinked, fun t ho => ?_⟩
      rw [setPc_pc] at ho
      split at ho
      · exact nomatch ho
      · next hne => exact hne (h.unique t th wh ho hown)
    · refine (h.setHandler wh { s.handler wh with currentlyRegistered := false } rfl rfl
        rfl .inl).move ?_ (.inr ?_) ?_ nofun nofun
      · change _ = (s.pc th).holds
        rw [hpc]
        rfl
      · exact hown.symm
      · intro x hx
        obtain rfl := Option.some.inj hx
        exact iff_of_false nofun (not_not.mpr hlinked)
  case h_3 wh hpc =>
    obtain ⟨t, ht, hinv⟩ := inv_unhook h hpc
    rw [hstep] at ht
    rw [Option.some.inj ht]
    exact hinv
  case h_4 wh hpc =>
    have hown : (s.pc th).owns = some wh := by
      rw [hpc]
      rfl
    have hgone : wh ∉ s.watchList := (h.leaving th wh hown).mp (by rw [hpc]; rfl)
    rw [← Option.some.inj hstep]
    have hkeep {p : WatchPc} (hholds : p.holds = none) (howns : p.owns = some wh)
        (hleaves : p.leaves = some wh) (hsets : p.sets = none)
        (hfinal : ∀ x, p = .unwatching x → s.references x = 0) : (s.setPc th p).Inv := by
      refine h.move ?_ (.inr (howns.trans hown.symm)) ?_ ?_ hfinal
      · rw [hholds, hpc]
        rfl
      · intro x hx
        obtain rfl := Option.some.inj (howns.symm.trans hx)
        exact iff_of_true hleaves hgone
      · exact fun x hx => nomatch hsets.symm.trans hx
    split
    · next hcount =>
      refine hkeep rfl rfl rfl rfl fun x hx => ?_
      obtain rfl := WatchPc.unwatching.inj hx
      have hr := h.refs wh (h.ownsOk th wh hown)
      rw [hcount] at hr
      exact Int.ofNat_eq_zero.mp hr.symm
    · exact hkeep rfl rfl rfl rfl nofun
  case h_5 wh hpc =>
    have hown : (s.pc th).owns = some wh := by
      rw [hpc]
      rfl
    have hgone : wh ∉ s.watchList := (h.leaving th wh hown).mp (by rw [hpc]; rfl)
    rw [← Option.some.inj hstep]
    split
    · refine h.move ?_ (.inr hown.symm) ?_ nofun nofun
      · rw [hpc]
        rfl
      · intro x hx
        obtain rfl := Option.some.inj hx
        exact iff_of_true rfl hgone
    · exact h
  case h_6 wh hpc =>
    rw [← Option.some.inj hstep]
    refine inv_free h hpc ?_
    simp only [Careful, hpc] at hok
    exact hok
  case h_7 recover hpc =>
    rw [← Option.some.inj hstep]
    exact inv_scan h hpc
  case h_8 wh hpc =>
    rw [← Option.some.inj hstep]
    have hstay {p : WatchPc} {h' : WatchHandler} (hp : p.holds = some wh) (howns : p.owns = none)
        (hsets : p.sets = none) (ha : h'.alive = (s.handler wh).alive)
        (hr : h'.refcount = (s.handler wh).refcount) (hq : h'.queued = (s.handler wh).queued)
        (hd : h'.handed = (s.handler wh).handed) : ((s.setHandler wh h').setPc th p).Inv := by
      refine (h.setHandler wh h' ha hr hq fun hh => .inl (hd ▸ hh)).move ?_ (.inl howns) ?_ ?_ ?_
      · change _ = (s.pc th).holds
        rw [hp, hpc]
        rfl
      · exact fun x hx => nomatch howns.symm.trans hx
      · exact fun x hx => nomatch hsets.symm.trans hx
      · rintro x rfl
        exact nomatch howns
    split
    · exact hstay rfl rfl rfl rfl rfl rfl rfl
    · exact hstay rfl rfl rfl rfl rfl rfl rfl
  case h_9 wh hpc =>
    have hholds : (s.pc th).holds = some wh := by
      rw [hpc]
      rfl
    simp only [Careful, hpc] at hok
    rw [← Option.some.inj hstep]
    refine (h.trigger (h.holdsOk th wh hholds) (not_final_of_holds h hholds) hok).move ?_
      (.inl rfl) nofun nofun nofun
    rw [triggerWatch_pc]
    exact hholds.symm
  case h_10 wh hpc =>
    rw [← Option.some.inj hstep]
    apply h.put
    rw [hpc]
    rfl
  case h_11 wh hpc =>
    rw [← Option.some.inj hstep]
    apply (h.setHandler wh { s.handler wh with currentlyRegistered := false } rfl rfl rfl
      .inl).put
    rw [setHandler_pc, hpc]
    rfl
  case h_12 wh place hpc =>
    obtain ⟨p, lock, heq, hp, howns, hsets⟩ := afterPut_cases
      (s.setHandler wh { s.handler wh with safeToRelease := true }) th place
    rw [← Option.some.inj hstep, heq]
    refine ((h.setHandler wh { s.handler wh with safeToRelease := true } rfl rfl rfl
      .inl).move ?_ (.inl howns) ?_ ?_ ?_).withLock lock
    · rw [hp, setHandler_pc, hpc]
      rfl
    · exact fun x hx => nomatch howns.symm.trans hx
    · exact fun x hx => nomatch hsets.symm.trans hx
    · rintro x rfl
      exact nomatch howns

/-- The handler of a thread is there. -/
theorem goOn_eq {success : Bool} (h : s.Inv) : s.goOn th success = s.goWith th success := by
  unfold goOn
  split
  · next wh heq =>
    have halive : (s.handler wh).alive = true := by
      rcases Option.or_eq_some_iff.mp heq with heq | ⟨-, heq⟩
      · rcases Option.or_eq_some_iff.mp heq with heq | ⟨-, heq⟩
        · exact h.holdsOk th wh heq
        · exact h.ownsOk th wh heq
      · exact h.setsOk th wh heq
    rw [if_neg (by rw [halive]; exact nofun)]
  · rfl

/-- **No handler is used that has been freed**, and no assertion fails. -/
theorem step_ne_none (h : s.Inv) (henabled : s.Enabled a) : s.step a ≠ none := by
  cases a with
  | trigger wh =>
    have halive := (h.linkedOk wh henabled.1).1
    unfold step
    dsimp only
    rw [if_neg (by rw [halive]; exact nofun)]
    exact Option.some_ne_none _
  | dequeue =>
    obtain ⟨t, ht, -⟩ := inv_dequeue h henabled.1 henabled.2.1
    exact Option.ne_none_iff_exists'.mpr ⟨t, ht⟩
  | callbackReturn =>
    obtain ⟨t, ht, -⟩ := inv_callbackReturn h henabled.1
    exact Option.ne_none_iff_exists'.mpr ⟨t, ht⟩
  | go th success =>
    change s.goOn th success ≠ none
    rw [goOn_eq h]
    cases hpc : s.pc th with
    | unregister wh =>
      obtain ⟨t, ht, -⟩ := inv_unhook h hpc
      unfold goWith
      rw [hpc]
      exact Option.ne_none_iff_exists'.mpr ⟨t, ht⟩
    | idle | registering | testing | blocked | unwatching | scanning | reregistering | failed | putting
    | recovering | setting =>
      unfold goWith
      rw [hpc]
      exact Option.some_ne_none _
  | reset | watchPath | unregisterWatch | reregisterAllWatches | recoverFromS3 =>
    exact Option.some_ne_none _

/-- **The invariant at one step.** -/
theorem inv_step (h : s.Inv) (hok : s.Careful a) (henabled : s.Enabled a)
    (hstep : s.step a = some s') : s'.Inv := by
  cases a with
  | trigger wh =>
    have hlinked := henabled.1
    have halive := (h.linkedOk wh hlinked).1
    have hleaves (t : Fin (N + 1)) : (s.pc t).leaves ≠ some wh := by
      intro hl
      exact (h.leaving t wh (leaves_owns hl)).mp hl hlinked
    unfold step at hstep
    dsimp only at hstep
    rw [if_neg (by rw [halive]; exact nofun)] at hstep
    rw [← Option.some.inj hstep]
    refine h.trigger halive ?_ fun hl => absurd hl (hleaves 0)
    intro t heq
    apply hleaves t
    rw [heq]
    rfl
  | reset =>
    rw [← Option.some.inj hstep]
    apply h.flags
    intro wh
    split <;> exact ⟨rfl, rfl, rfl, rfl⟩
  | dequeue =>
    obtain ⟨t, ht, hinv⟩ := inv_dequeue h henabled.1 henabled.2.1
    rw [Option.some.inj (hstep.symm.trans ht)]
    exact hinv
  | callbackReturn =>
    obtain ⟨t, ht, hinv⟩ := inv_callbackReturn h henabled.1
    rw [Option.some.inj (hstep.symm.trans ht)]
    exact hinv
  | watchPath th wh event =>
    rw [← Option.some.inj hstep]
    exact inv_watchPath h henabled.1.1 henabled.2.1
  | unregisterWatch th wh =>
    rw [← Option.some.inj hstep]
    exact inv_unregister h henabled.1.1 henabled.2 hok
  | reregisterAllWatches th =>
    rw [← Option.some.inj hstep]
    refine h.move ?_ (.inl rfl) nofun nofun nofun
    rw [henabled.1]
    rfl
  | recoverFromS3 th =>
    rw [← Option.some.inj hstep]
    have hmove : (s.setPc th (.scanning true)).Inv := by
      refine h.move ?_ (.inl rfl) nofun nofun nofun
      rw [henabled.1.1]
      rfl
    refine (hmove.flags (f := fun wh => if wh ∈ s.watchList then
      { s.handler wh with needsS3Recover := true } else s.handler wh) ?_).withLock (some th)
    intro wh
    dsimp only
    split <;> exact ⟨rfl, rfl, rfl, rfl⟩
  | go th success =>
    refine inv_goWith h hok ?_
    rw [← goOn_eq h]
    exact hstep

theorem Start.inv (h : s.Start) : s.Inv := by
  obtain ⟨hdead, hwatch, hpending, -, hidle, hcallback⟩ := h
  have hpc {q : Prop} (th : Fin (N + 1)) {f : WatchPc → Option Nat} {wh : Nat} (hf : f .idle = none)
      (hsome : f (s.pc th) = some wh) : q := by
    rw [hidle, hf] at hsome
    exact nomatch hsome
  refine ⟨?_, ?_, ?_, ?_, ?_, ?_, ?_, ?_, ?_, ?_, ?_, ?_, ?_, ?_, ?_⟩
  · exact fun wh ha => nomatch (hdead wh).1.symm.trans ha
  · rw [hpending]
    exact List.nodup_nil
  · rw [hpending]
    exact nofun
  · rw [hwatch]
    exact List.nodup_nil
  · rw [hwatch]
    exact nofun
  · rw [hcallback]
    exact nofun
  · exact fun th wh ho => hpc th (f := WatchPc.holds) rfl ho
  · exact fun th wh ho => hpc th (f := WatchPc.owns) rfl ho
  · exact fun th wh ho => hpc th (f := WatchPc.sets) rfl ho
  · exact fun th _ wh ho => hpc th (f := WatchPc.owns) rfl ho
  · exact fun wh ho => nomatch (hdead wh).2.symm.trans ho
  · exact fun th wh ho => hpc th (f := WatchPc.owns) rfl ho
  · exact fun th wh heq => nomatch (hidle th).symm.trans heq
  · exact fun wh ho => hpc 0 (f := WatchPc.owns) rfl ho
  · exact fun wh ho => hpc 0 (f := WatchPc.leaves) rfl ho

/-- The invariant holds in every run. -/
theorem Reached.inv (h : Reached Careful s) : s.Inv :=
  Reachable.invariant h (fun _ => Start.inv)
    fun _ _ _ hinv hok hstep => inv_step hinv hok hstep.1 hstep.2

/-- **Watch handler references** are as they should be in every run with no careless step. -/
theorem watch_references (h : Reached Careful s) : s.Accounted := by
  have hinv := h.inv
  refine ⟨hinv.refs, fun a henabled => step_ne_none hinv henabled, hinv.final, ?_⟩
  intro th wh hpc
  have hleaves : (s.pc th).leaves = some wh := by
    rw [hpc]
    rfl
  rintro (hholds | ⟨rfl, hpending | hcallback⟩)
  · rw [hpc] at hholds
    exact nomatch hholds
  · exact hinv.ownPending wh hleaves hpending
  · exact hinv.ownRunning wh (leaves_owns hleaves) hcallback

/-! ## Runs -/

/-- Nothing is watched. -/
def initial : WatchSys N where
  handler := fun _ =>
    { alive := false
      event := false
      faulty := false
      needsS3Recover := false
      currentlyRegistered := false
      refcount := 0
      safeToRelease := false
      queued := false
      handed := false }
  watchList := []
  pendingList := []
  lock := none
  pc := fun _ => .idle
  callback := none

theorem initial_start : (initial : WatchSys N).Start :=
  ⟨fun _ => ⟨rfl, rfl⟩, rfl, rfl, rfl, fun _ => rfl, rfl⟩

instance : Decidable (s.Enabled a) := by
  cases a <;> unfold Enabled <;> unfold CanCall <;> infer_instance

instance : Decidable (s.Careful a) := by
  cases a with
  | go th success =>
    unfold Careful
    dsimp only
    split <;> infer_instance
  | _ => unfold Careful; infer_instance

/-- Another thread unregisters a watch while its callback runs, and waits for that. -/
theorem watch_references_waiting : ∃ s : WatchSys 1, s.pc 1 = .blocked 7 ∧ s.callback = some 7 ∧
    (s.handler 7).refcount = 1 ∧ s.Accounted := by
  have hrun : ∃ s : WatchSys 1, Reached Careful s ∧ decide (s.pc 1 = .blocked 7 ∧
      s.callback = some 7 ∧ (s.handler 7).refcount = 1) = true :=
    exists_reachable_of_follow initial
      [.watchPath 1 7 false, .go 1 true, .trigger 7, .dequeue, .unregisterWatch 1 7, .go 1 true,
        .go 1 true]
      initial_start (by decide)
  obtain ⟨s, h, hs⟩ := hrun
  obtain ⟨hpc, hcallback, hcount⟩ := of_decide_eq_true hs
  exact ⟨s, hpc, hcallback, hcount, watch_references h⟩

/-- **A callback unregisters its own watch**, and the watch thread waits for the callback. -/
theorem unregister_from_callback_waits :
    ¬∀ s : WatchSys 1, Reached (fun _ _ => True) s → s.Accounted := by
  intro hall
  have hrun : ∃ s : WatchSys 1, Reached (fun _ _ => True) s ∧ decide (s.pc 0 = .blocked 7 ∧
      s.callback = some 7) = true :=
    exists_reachable_of_follow initial
      [.watchPath 1 7 false, .go 1 true, .trigger 7, .dequeue, .unregisterWatch 0 7, .go 0 true,
        .go 0 true]
      initial_start (by decide)
  obtain ⟨s, h, hs⟩ := hrun
  obtain ⟨hpc, hcallback⟩ := of_decide_eq_true hs
  exact (hall s h).waits 0 7 hpc (.inr ⟨rfl, .inr hcallback⟩)

end WatchSys
end V4v.Xenutil
