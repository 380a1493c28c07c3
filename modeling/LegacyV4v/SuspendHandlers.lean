import LegacyV4v.GuardedRun
import Mathlib.Data.List.Nodup
import Mathlib.Data.Prod.Lex
import Mathlib.Logic.Function.Basic

/-! # Suspend handlers

`InvokeSuspendHandlers` at passive level walks the list of handlers under its lock and marks those it
is to run (`pending_run`); then it looks for a marked one from the start of the list again and again,
and drops the lock while it runs the callback.  Registration appends to the list under the lock.
Unregistration takes no lock: it sets `defunct`, at any time, and `SuspendCleanup` removes the handler
later, on the same thread as the passes.

The first walk leaves defunct handlers out.  The later walks assert that no marked handler is defunct,
but nothing keeps it from becoming so in between. -/
namespace V4v.Xenutil
open GuardedRun

/-- `SUSPEND_CB_TYPE`. -/
inductive SuspendCbType where
  | suspendCbEarly
  | suspendCbLate
  | preSuspendCbEarly
  | preSuspendCbLate
  deriving DecidableEq, Repr

/-- Handlers of the type are run at passive level. -/
def SuspendCbType.passive : SuspendCbType → Bool
  | .preSuspendCbEarly | .suspendCbLate => true
  | .suspendCbEarly | .preSuspendCbLate => false

/-- `struct SuspendHandler`. -/
structure SuspendHandler where
  cbType : SuspendCbType
  defunct : Bool
  pendingRun : Bool
  running : Bool
  deriving DecidableEq, Repr

/-- Where the suspend thread is: in neither function; in the first walk of `InvokeSuspendHandlers`,
with the handlers still before it; at `retry`; in a later walk; in a callback; in the walk of
`SuspendCleanup`; at its `retry`.  The number is `pending`. -/
inductive HandlerPc where
  | resting
  | marking (rest : List Nat) (pending : Nat)
  | retry (pending : Nat)
  | searching (rest : List Nat) (pending : Nat)
  | calling (sh : Nat) (pending : Nat)
  | cleaning (rest : List Nat)
  | cleanRetry
  deriving DecidableEq, Repr

/-- The thread holds `SuspendHandlersLock`. -/
def HandlerPc.locked : HandlerPc → Bool
  | .marking .. | .searching .. | .cleaning _ => true
  | .resting | .retry _ | .calling .. | .cleanRetry => false

/-- The thread is in `InvokeSuspendHandlers`. -/
def HandlerPc.inPass : HandlerPc → Bool
  | .marking .. | .retry _ | .searching .. | .calling .. => true
  | .resting | .cleaning _ | .cleanRetry => false

/-- A handler as the first walk comes to it. -/
structure HandlerTurn where
  sh : Nat
  cbType : SuspendCbType
  defunct : Bool
  deriving DecidableEq, Repr

/-- A pass for the record: its type, the list it began with, the turns the handlers have had, and the
callbacks that were run, oldest first. -/
structure HandlerPass where
  cbType : SuspendCbType
  listed : List Nat
  turns : List HandlerTurn
  ran : List Nat
  deriving DecidableEq, Repr

/-- The handlers that were registered and not unregistered when their turn came. -/
def HandlerPass.due (p : HandlerPass) : List Nat :=
  (p.turns.filter fun t => t.cbType = p.cbType ∧ t.defunct = false).map HandlerTurn.sh

/-- `SuspendHandlersList` and the handlers on it, the suspend thread, and the current or last pass. -/
structure HandlerSys where
  order : List Nat
  handler : Nat → SuspendHandler
  pc : HandlerPc
  pass : HandlerPass

/-- A handler is registered or unregistered; the suspend thread calls `InvokeSuspendHandlers`, or
`SuspendCleanup`, or goes on. -/
inductive HandlerAct where
  | register (sh : Nat) (cbType : SuspendCbType)
  | unregister (sh : Nat)
  | invoke (cbType : SuspendCbType)
  | clean
  | thread
  deriving DecidableEq, Repr

namespace HandlerSys
variable {s s' : HandlerSys} {a : HandlerAct} {sh : Nat}

def set (s : HandlerSys) (sh : Nat) (h : SuspendHandler) : HandlerSys :=
  { s with handler := Function.update s.handler sh h }

/-- `EvtchnRegisterSuspendHandler`. -/
def evtchnRegisterSuspendHandler (s : HandlerSys) (sh : Nat) (cbType : SuspendCbType) : HandlerSys :=
  let work : SuspendHandler :=
    { cbType := cbType, defunct := false, pendingRun := false, running := false }
  { s.set sh work with order := s.order ++ [sh] }

/-- `EvtchnUnregisterSuspendHandler`. -/
def evtchnUnregisterSuspendHandler (s : HandlerSys) (sh : Nat) : HandlerSys :=
  s.set sh { s.handler sh with defunct := true }

/-- The first walk of `InvokeSuspendHandlers` comes to `sh`. -/
def markStep (s : HandlerSys) (sh : Nat) (rest : List Nat) (pending : Nat) : HandlerSys :=
  let h := s.handler sh
  let turn : HandlerTurn := ⟨sh, h.cbType, h.defunct⟩
  let s := { s with pass := { s.pass with turns := s.pass.turns ++ [turn] } }
  if h.cbType ≠ s.pass.cbType ∨ h.defunct = true then { s with pc := .marking rest pending }
  else { s.set sh { h with pendingRun := true } with pc := .marking rest (pending + 1) }

/-- A later walk comes to `sh`; `none` if an assertion fails. -/
def searchStep (s : HandlerSys) (sh : Nat) (rest : List Nat) (pending : Nat) : Option HandlerSys :=
  let h := s.handler sh
  if h.pendingRun = false then some { s with pc := .searching rest pending }
  else if h.cbType.passive = false then none
  else if h.defunct = true then none
  else some { s.set sh { h with pendingRun := false, running := true } with
    pc := .calling sh pending
    pass := { s.pass with ran := s.pass.ran ++ [sh] } }

/-- The callback of `sh` returns; `none` if the assertion fails. -/
def returnStep (s : HandlerSys) (sh : Nat) (pending : Nat) : Option HandlerSys :=
  if pending = 0 then none
  else some { s.set sh { s.handler sh with running := false } with pc := .retry (pending - 1) }

/-- The walk of `SuspendCleanup` comes to `sh`; `none` if the assertion fails. -/
def cleanStep (s : HandlerSys) (sh : Nat) (rest : List Nat) : Option HandlerSys :=
  let h := s.handler sh
  if h.defunct = false then some { s with pc := .cleaning rest }
  else if h.pendingRun = true ∨ h.running = true then none
  else some { s with order := s.order.erase sh, pc := .cleanRetry }

/-- The next step of the suspend thread. -/
def threadStep (s : HandlerSys) : Option HandlerSys :=
  match s.pc with
  | .resting => some s
  | .marking (sh :: rest) pending => some (s.markStep sh rest pending)
  | .marking [] pending =>
    some { s with pc := if pending = 0 then .resting else .retry pending }
  | .retry pending => some { s with pc := .searching s.order pending }
  | .searching (sh :: rest) pending => s.searchStep sh rest pending
  | .searching [] pending => if pending = 0 then some { s with pc := .resting } else none
  | .calling sh pending => s.returnStep sh pending
  | .cleaning (sh :: rest) => s.cleanStep sh rest
  | .cleaning [] => some { s with pc := .resting }
  | .cleanRetry => some { s with pc := .cleaning s.order }

/-- The result of a step; `none` if an assertion fails. -/
def step (s : HandlerSys) : HandlerAct → Option HandlerSys
  | .register sh cbType => some (s.evtchnRegisterSuspendHandler sh cbType)
  | .unregister sh => some (s.evtchnUnregisterSuspendHandler sh)
  | .invoke cbType => some { s with
      pc := .marking s.order 0
      pass := ⟨cbType, s.order, [], []⟩ }
  | .clean => some { s with pc := .cleaning s.order }
  | .thread => s.threadStep

/-- What can happen: a handler is registered in memory that is not in use, while the lock is free; a
registered handler is unregistered; the thread calls one function at a time. -/
def Enabled (s : HandlerSys) : HandlerAct → Prop
  | .register sh _ => sh ∉ s.order ∧ s.pc.locked = false
  | .unregister sh => sh ∈ s.order
  | .invoke cbType => s.pc = .resting ∧ cbType.passive = true
  | .clean => s.pc = .resting
  | .thread => s.pc ≠ .resting

/-- No handler is unregistered between its mark and its callback. -/
def MarkedStay (s : HandlerSys) : HandlerAct → Prop
  | .unregister sh => (s.handler sh).pendingRun = false
  | _ => True

/-- No handler is registered. -/
def Start (s : HandlerSys) : Prop :=
  s.order = [] ∧ s.pc = .resting ∧ s.pass.listed = [] ∧ s.pass.turns = [] ∧ s.pass.ran = []

/-- The states of all runs whose steps satisfy `ok`. -/
abbrev Reached (ok : HandlerSys → HandlerAct → Prop) : HandlerSys → Prop :=
  Reachable Start (fun s a s' => s.Enabled a ∧ s.step a = some s') ok

/-! ## The marks -/

/-- The marked handlers, in the order of the list. -/
def marked (s : HandlerSys) : List Nat := s.order.filter fun sh => (s.handler sh).pendingRun

theorem set_handler (h : SuspendHandler) (other : Nat) :
    (s.set sh h).handler other = if other = sh then h else s.handler other :=
  Function.update_apply ..

@[simp] theorem set_handler_self (h : SuspendHandler) : (s.set sh h).handler sh = h :=
  Function.update_self ..

@[simp] theorem set_order (h : SuspendHandler) : (s.set sh h).order = s.order := rfl

@[simp] theorem set_pass (h : SuspendHandler) : (s.set sh h).pass = s.pass := rfl

@[simp] theorem set_pc (h : SuspendHandler) : (s.set sh h).pc = s.pc := rfl

/-- A part of the list in which nothing changes. -/
theorem filter_set_of_notMem {h : SuspendHandler} {order : List Nat} (hsh : sh ∉ order) :
    (order.filter fun other => ((s.set sh h).handler other).pendingRun) =
      order.filter fun other => (s.handler other).pendingRun := by
  apply List.filter_congr
  intro other hother
  have hne : other ≠ sh := fun heq => hsh (heq ▸ hother)
  rw [set_handler, if_neg hne]

/-- A handler whose mark stays. -/
theorem filter_set_of_eq {h : SuspendHandler} (order : List Nat)
    (heq : h.pendingRun = (s.handler sh).pendingRun) :
    (order.filter fun other => ((s.set sh h).handler other).pendingRun) =
      order.filter fun other => (s.handler other).pendingRun := by
  apply List.filter_congr
  intro other _
  rw [set_handler]
  split
  · next hother => rw [hother, heq]
  · rfl

theorem filter_unmarked {order : List Nat}
    (h : ∀ sh ∈ order, (s.handler sh).pendingRun = false) :
    (order.filter fun sh => (s.handler sh).pendingRun) = [] := by
  apply List.filter_eq_nil_iff.mpr
  intro sh hsh
  rw [h sh hsh]
  exact Bool.false_ne_true

theorem unmarked_of_nil (h : s.marked = []) : ∀ sh ∈ s.order, (s.handler sh).pendingRun = false :=
  fun sh hsh => Bool.eq_false_iff.mpr (List.filter_eq_nil_iff.mp h sh hsh)

/-! ## What holds at every step -/

/-- `pending` as the place says it. -/
def PendingOk (marked : List Nat) : HandlerPc → Prop
  | .marking _ pending | .retry pending | .searching _ pending => pending = marked.length
  | .calling _ pending => pending = marked.length + 1
  | .resting | .cleaning _ | .cleanRetry => marked = []

/-- Where the walks are: what lies before the first walk is not marked, what lies behind a later one
is not either. -/
def WalkOk (s : HandlerSys) : HandlerPc → Prop
  | .marking rest _ => s.pass.turns.map HandlerTurn.sh ++ rest = s.pass.listed ∧
      s.pass.listed = s.order ∧ ∀ sh ∈ rest, (s.handler sh).pendingRun = false
  | .searching rest _ => s.pass.turns.map HandlerTurn.sh = s.pass.listed ∧
      ∃ behind, s.order = behind ++ rest ∧ ∀ sh ∈ behind, (s.handler sh).pendingRun = false
  | .cleaning rest => s.pass.turns.map HandlerTurn.sh = s.pass.listed ∧ rest ⊆ s.order
  | .resting | .retry _ | .calling .. | .cleanRetry =>
    s.pass.turns.map HandlerTurn.sh = s.pass.listed

/-- What is asserted of a marked handler. -/
def AssertedOk (h : SuspendHandler) : Prop :=
  h.pendingRun = true → h.cbType.passive = true ∧ h.defunct = false

/-- **What holds at every step.** -/
structure Inv (s : HandlerSys) : Prop where
  nodup : s.order.Nodup
  listed : s.pass.listed.Nodup
  due : s.pass.due = s.pass.ran ++ s.marked
  pending : PendingOk s.marked s.pc
  walk : s.WalkOk s.pc
  asserted : ∀ sh ∈ s.order, AssertedOk (s.handler sh)
  passive : s.pc.inPass = true → s.pass.cbType.passive = true
  running : ∀ sh ∈ s.order, (s.handler sh).running = true → ∃ pending, s.pc = .calling sh pending

/-- Only the place of the thread changes. -/
theorem Inv.goto {pc : HandlerPc} (h : s.Inv) (hpending : PendingOk s.marked pc)
    (hwalk : s.WalkOk pc) (hpass : pc.inPass = true → s.pc.inPass = true)
    (hpc : ∀ sh pending, s.pc ≠ .calling sh pending) : ({ s with pc := pc } : HandlerSys).Inv where
  nodup := h.nodup
  listed := h.listed
  due := h.due
  pending := hpending
  walk := hwalk
  asserted := h.asserted
  passive := fun hp => h.passive (hpass hp)
  running := by
    intro sh hsh hrun
    obtain ⟨pending, heq⟩ := h.running sh hsh hrun
    exact absurd heq (hpc sh pending)

/-! ## The other threads -/

/-- A new handler is not marked. -/
theorem marked_register {cbType : SuspendCbType} (hsh : sh ∉ s.order) :
    (s.evtchnRegisterSuspendHandler sh cbType).marked = s.marked := by
  unfold marked evtchnRegisterSuspendHandler
  simp [List.filter_append, filter_set_of_notMem hsh]

/-- What the walks say does not depend on the new handler. -/
theorem inv_register {cbType : SuspendCbType} (h : s.Inv) (hsh : sh ∉ s.order)
    (hlock : s.pc.locked = false) : (s.evtchnRegisterSuspendHandler sh cbType).Inv where
  nodup := by
    apply List.nodup_append.mpr
    refine ⟨h.nodup, List.nodup_singleton sh, ?_⟩
    rintro a ha b hb rfl
    exact hsh (List.mem_singleton.mp hb ▸ ha)
  listed := h.listed
  due := by
    rw [marked_register hsh]
    exact h.due
  pending := by
    rw [marked_register hsh]
    exact h.pending
  walk := by
    have hw := h.walk
    change (s.evtchnRegisterSuspendHandler sh cbType).WalkOk s.pc
    revert hw hlock
    cases s.pc with
    | resting | retry | calling | cleanRetry => exact fun _ hw => hw
    | marking | searching | cleaning => exact fun hl => nomatch hl
  asserted := by
    intro other hother
    change AssertedOk ((s.set sh _).handler other)
    rw [set_handler]
    split
    · exact fun hp => nomatch hp
    · next hne =>
      apply h.asserted other
      rcases List.mem_append.mp hother with hm | hm
      · exact hm
      · exact absurd (List.mem_singleton.mp hm) hne
  passive := h.passive
  running := by
    intro other hother
    change ((s.set sh _).handler other).running = true → _
    rw [set_handler]
    split
    · exact fun hr => nomatch hr
    · next hne =>
      apply h.running other
      rcases List.mem_append.mp hother with hm | hm
      · exact hm
      · exact absurd (List.mem_singleton.mp hm) hne

/-- A handler that is not marked can be unregistered at any time. -/
theorem inv_unregister (h : s.Inv) (hstay : (s.handler sh).pendingRun = false) :
    (s.evtchnUnregisterSuspendHandler sh).Inv := by
  have hpend : ∀ other, ((s.evtchnUnregisterSuspendHandler sh).handler other).pendingRun =
      (s.handler other).pendingRun := by
    intro other
    change ((s.set sh _).handler other).pendingRun = _
    rw [set_handler]
    split
    · next heq => rw [heq]
    · rfl
  have hmarked : (s.evtchnUnregisterSuspendHandler sh).marked = s.marked :=
    filter_set_of_eq s.order rfl
  refine ⟨h.nodup, h.listed, ?_, ?_, ?_, ?_, h.passive, ?_⟩
  · rw [hmarked]
    exact h.due
  · rw [hmarked]
    exact h.pending
  · have hw := h.walk
    change (s.evtchnUnregisterSuspendHandler sh).WalkOk s.pc
    revert hw
    cases s.pc with
    | resting | retry | calling | cleanRetry | cleaning => exact id
    | marking rest pending =>
      rintro ⟨hturns, hlisted, hrest⟩
      exact ⟨hturns, hlisted, fun other ho => (hpend other).trans (hrest other ho)⟩
    | searching rest pending =>
      rintro ⟨hturns, behind, horder, hbehind⟩
      exact ⟨hturns, behind, horder, fun other ho => (hpend other).trans (hbehind other ho)⟩
  · intro other hother
    change AssertedOk ((s.set sh _).handler other)
    rw [set_handler]
    split
    · intro hp
      exact absurd (hstay.symm.trans hp) Bool.false_ne_true
    · exact h.asserted other hother
  · intro other hother
    change ((s.set sh _).handler other).running = true → _
    rw [set_handler]
    split
    · next heq =>
      intro hr
      exact h.running other hother (heq ▸ hr)
    · exact h.running other hother

/-! ## The suspend thread -/

/-- The turns are part of the list. -/
theorem turns_subset {rest : List Nat} (h : s.pass.turns.map HandlerTurn.sh ++ sh :: rest = s.order)
    (hnd : s.order.Nodup) : sh ∉ s.pass.turns.map HandlerTurn.sh ∧ sh ∉ rest := by
  rw [← h] at hnd
  obtain ⟨-, hright, hdisj⟩ := List.nodup_append.mp hnd
  exact ⟨fun hmem => hdisj _ hmem _ List.mem_cons_self rfl, (List.nodup_cons.mp hright).1⟩

/-- A turn of a handler that is not run. -/
theorem due_skip {turn : HandlerTurn} {p : HandlerPass}
    (h : turn.cbType ≠ p.cbType ∨ turn.defunct = true) :
    HandlerPass.due { p with turns := p.turns ++ [turn] } = p.due := by
  have hno : ¬ (turn.cbType = p.cbType ∧ turn.defunct = false) := by
    rintro ⟨heq, hd⟩
    rcases h with hne | hd'
    · exact hne heq
    · exact Bool.false_ne_true (hd.symm.trans hd')
  simp [HandlerPass.due, List.filter_append, hno]

/-- A turn of a handler that is run. -/
theorem due_mark {turn : HandlerTurn} {p : HandlerPass} (heq : turn.cbType = p.cbType)
    (hd : turn.defunct = false) :
    HandlerPass.due { p with turns := p.turns ++ [turn] } = p.due ++ [turn.sh] := by
  simp [HandlerPass.due, List.filter_append, heq, hd]

theorem inv_markStep {rest : List Nat} {pending : Nat} (h : s.Inv)
    (hpc : s.pc = .marking (sh :: rest) pending) : (s.markStep sh rest pending).Inv := by
  have hpending := h.pending
  have hwalk := h.walk
  rw [hpc] at hpending hwalk
  obtain ⟨hturns, hlisted, hrest⟩ := hwalk
  have hin : s.pc.inPass = true := by rw [hpc]; rfl
  have hsplit := hturns.trans hlisted
  have hturns' : (s.pass.turns ++ [(⟨sh, (s.handler sh).cbType, (s.handler sh).defunct⟩ :
      HandlerTurn)]).map HandlerTurn.sh ++ rest = s.pass.listed := by
    simpa using hturns
  have hidle : ∀ other ∈ s.order, (s.handler other).running = false := by
    intro other ho
    by_contra hrun
    obtain ⟨p, hp⟩ := h.running other ho (Bool.eq_true_of_not_eq_false hrun)
    exact HandlerPc.noConfusion (hpc.symm.trans hp)
  unfold markStep
  simp only
  split
  · next hskip =>
    refine ⟨h.nodup, h.listed, ?_, hpending, ⟨hturns', hlisted, ?_⟩, h.asserted,
      fun _ => h.passive hin, ?_⟩
    · exact (due_skip hskip).trans h.due
    · exact fun other ho => hrest other (List.mem_cons_of_mem _ ho)
    · intro other ho hrun
      exact absurd ((hidle other ho).symm.trans hrun) Bool.false_ne_true
  · next hrun =>
    push Not at hrun
    obtain ⟨htype, hdef⟩ := hrun
    have hdef := Bool.eq_false_iff.mpr hdef
    obtain ⟨hbefore, hafter⟩ := turns_subset hsplit h.nodup
    -- What was marked stands before `sh`.
    have hold : s.marked = (s.pass.turns.map HandlerTurn.sh).filter
        fun other => (s.handler other).pendingRun := by
      unfold marked
      rw [← hsplit, List.filter_append, filter_unmarked hrest, List.append_nil]
    have hnew : (s.order.filter fun other =>
        ((s.set sh { s.handler sh with pendingRun := true }).handler other).pendingRun) =
          s.marked ++ [sh] := by
      rw [hold, ← hsplit, List.filter_append, filter_set_of_notMem hbefore,
        List.filter_cons_of_pos (by simp), filter_set_of_notMem hafter,
        filter_unmarked fun other ho => hrest other (List.mem_cons_of_mem _ ho)]
    refine ⟨h.nodup, h.listed, ?_, ?_, ⟨hturns', hlisted, ?_⟩, ?_, fun _ => h.passive hin, ?_⟩
    · refine (due_mark htype hdef).trans ?_
      rw [h.due, List.append_assoc]
      exact congrArg _ hnew.symm
    · refine (congrArg (· + 1) hpending).trans ?_
      exact (List.length_append ..).symm.trans (congrArg List.length hnew.symm)
    · intro other ho
      change ((s.set sh _).handler other).pendingRun = false
      rw [set_handler, if_neg (by rintro rfl; exact hafter ho)]
      exact hrest other (List.mem_cons_of_mem _ ho)
    · intro other ho
      change AssertedOk ((s.set sh _).handler other)
      rw [set_handler]
      split
      · exact fun _ => ⟨(congrArg SuspendCbType.passive htype).trans (h.passive hin), hdef⟩
      · exact h.asserted other ho
    · intro other ho
      change ((s.set sh _).handler other).running = true → _
      rw [set_handler]
      intro hrun
      split at hrun
      · next heq => exact absurd ((hidle other ho).symm.trans (heq ▸ hrun)) Bool.false_ne_true
      · exact absurd ((hidle other ho).symm.trans hrun) Bool.false_ne_true

/-- A later walk finds no assertion that fails. -/
theorem inv_searchStep {rest : List Nat} {pending : Nat} (h : s.Inv)
    (hpc : s.pc = .searching (sh :: rest) pending) :
    ∃ t, s.searchStep sh rest pending = some t ∧ t.Inv := by
  have hpending := h.pending
  have hwalk := h.walk
  rw [hpc] at hpending hwalk
  obtain ⟨hturns, behind, horder, hbehind⟩ := hwalk
  have hin : s.pc.inPass = true := by rw [hpc]; rfl
  have hmem : sh ∈ s.order := by
    rw [horder]
    exact List.mem_append_right _ List.mem_cons_self
  have hplace : ∀ other p, s.pc ≠ .calling other p := by
    intro other p heq
    exact HandlerPc.noConfusion (hpc.symm.trans heq)
  unfold searchStep
  simp only
  split
  · next hmark =>
    refine ⟨_, rfl, h.goto hpending ⟨hturns, behind ++ [sh], ?_, ?_⟩ (fun _ => hin) hplace⟩
    · rw [horder, List.append_assoc]
      rfl
    · intro other ho
      rcases List.mem_append.mp ho with ho | ho
      · exact hbehind other ho
      · exact List.mem_singleton.mp ho ▸ hmark
  · next hmark =>
    have hmark := Bool.eq_true_of_not_eq_false hmark
    obtain ⟨hpassive, hdef⟩ := h.asserted sh hmem hmark
    rw [if_neg (hpassive ▸ Bool.noConfusion), if_neg (hdef ▸ Bool.noConfusion)]
    refine ⟨_, rfl, ?_⟩
    have hnd := h.nodup
    rw [horder] at hnd
    obtain ⟨-, hright, hdisj⟩ := List.nodup_append.mp hnd
    have hbefore : sh ∉ behind := fun hb => hdisj _ hb _ List.mem_cons_self rfl
    have hafter : sh ∉ rest := (List.nodup_cons.mp hright).1
    have hold : s.marked = sh :: rest.filter fun other => (s.handler other).pendingRun := by
      unfold marked
      rw [horder, List.filter_append, filter_unmarked hbehind, List.nil_append,
        List.filter_cons_of_pos (by exact hmark)]
    have hnew : (s.order.filter fun other => ((s.set sh
        { s.handler sh with pendingRun := false, running := true }).handler other).pendingRun) =
          rest.filter fun other => (s.handler other).pendingRun := by
      rw [horder, List.filter_append, filter_set_of_notMem hbefore, filter_unmarked hbehind,
        List.filter_cons_of_neg (by simp), filter_set_of_notMem hafter, List.nil_append]
    refine ⟨h.nodup, h.listed, ?_, ?_, hturns, ?_, fun _ => h.passive hin, ?_⟩
    · refine h.due.trans ?_
      rw [hold, List.append_cons]
      exact congrArg _ hnew.symm
    · refine hpending.trans ?_
      rw [hold]
      exact congrArg (fun l => List.length l + 1) hnew.symm
    · intro other ho
      change AssertedOk ((s.set sh _).handler other)
      rw [set_handler]
      split
      · exact fun hp => nomatch hp
      · exact h.asserted other ho
    · intro other ho
      change ((s.set sh _).handler other).running = true → _
      rw [set_handler]
      intro hrun
      split at hrun
      · next heq => exact ⟨pending, heq ▸ rfl⟩
      · obtain ⟨p, hp⟩ := h.running other ho hrun
        exact absurd hp (hplace other p)

theorem inv_returnStep {pending : Nat} (h : s.Inv) (hpc : s.pc = .calling sh pending) :
    ∃ t, s.returnStep sh pending = some t ∧ t.Inv := by
  have hpending := h.pending
  have hwalk := h.walk
  rw [hpc] at hpending hwalk
  have hin : s.pc.inPass = true := by rw [hpc]; rfl
  unfold returnStep
  rw [if_neg (by rw [hpending]; exact Nat.succ_ne_zero _)]
  refine ⟨_, rfl, ?_⟩
  have hmarked : (s.order.filter fun other => ((s.set sh
      { s.handler sh with running := false }).handler other).pendingRun) = s.marked :=
    filter_set_of_eq s.order rfl
  refine ⟨h.nodup, h.listed, ?_, ?_, hwalk, ?_, fun _ => h.passive hin, ?_⟩
  · exact h.due.trans (congrArg _ hmarked.symm)
  · refine (congrArg (· - 1) hpending).trans ?_
    exact congrArg List.length hmarked.symm
  · intro other ho
    change AssertedOk ((s.set sh _).handler other)
    rw [set_handler]
    split
    · next heq => exact h.asserted sh (heq ▸ ho)
    · exact h.asserted other ho
  · intro other ho
    change ((s.set sh _).handler other).running = true → _
    rw [set_handler]
    intro hrun
    split at hrun
    · exact absurd hrun Bool.false_ne_true
    · next hne =>
      obtain ⟨p, hp⟩ := h.running other ho hrun
      injection hpc.symm.trans hp with heq
      exact absurd heq.symm hne

/-- `SuspendCleanup` finds no assertion that fails. -/
theorem inv_cleanStep {rest : List Nat} (h : s.Inv) (hpc : s.pc = .cleaning (sh :: rest)) :
    ∃ t, s.cleanStep sh rest = some t ∧ t.Inv := by
  have hpending := h.pending
  have hwalk := h.walk
  rw [hpc] at hpending hwalk
  obtain ⟨hturns, hsub⟩ := hwalk
  have hplace : ∀ other p, s.pc ≠ .calling other p := by
    intro other p heq
    exact HandlerPc.noConfusion (hpc.symm.trans heq)
  have hmem : sh ∈ s.order := hsub List.mem_cons_self
  unfold cleanStep
  simp only
  split
  · refine ⟨_, rfl, h.goto hpending ⟨hturns, ?_⟩ (fun hp => nomatch hp) hplace⟩
    exact fun other ho => hsub (List.mem_cons_of_mem _ ho)
  · have hno : ¬ ((s.handler sh).pendingRun = true ∨ (s.handler sh).running = true) := by
      rintro (hp | hr)
      · exact absurd ((unmarked_of_nil hpending sh hmem).symm.trans hp) Bool.false_ne_true
      · obtain ⟨p, hp⟩ := h.running sh hmem hr
        exact hplace sh p hp
    rw [if_neg hno]
    have hsub' : s.order.erase sh ⊆ s.order := List.erase_subset
    have hmarked : ((s.order.erase sh).filter fun other => (s.handler other).pendingRun) = [] :=
      filter_unmarked fun other ho => unmarked_of_nil hpending other (hsub' ho)
    refine ⟨_, rfl, h.nodup.erase sh, h.listed, ?_, hmarked, hturns,
      fun other ho => h.asserted other (hsub' ho), (fun hp => nomatch hp), ?_⟩
    · refine h.due.trans (congrArg _ ?_)
      exact Eq.trans hpending hmarked.symm
    · intro other ho hr
      obtain ⟨p, hp⟩ := h.running other (hsub' ho) hr
      exact absurd hp (hplace other p)

/-- **No assertion fails on the suspend thread.** -/
theorem inv_threadStep (h : s.Inv) : ∃ t, s.threadStep = some t ∧ t.Inv := by
  have hpending := h.pending
  have hwalk := h.walk
  unfold threadStep
  split
  · exact ⟨s, rfl, h⟩
  · next sh rest pending hpc => exact ⟨_, rfl, inv_markStep h hpc⟩
  · next pending hpc =>
    rw [hpc] at hpending hwalk
    obtain ⟨hturns, -, -⟩ := hwalk
    rw [List.append_nil] at hturns
    have hplace : ∀ other p, s.pc ≠ .calling other p := fun _ _ heq => nomatch hpc.symm.trans heq
    refine ⟨_, rfl, ?_⟩
    split
    · next hzero =>
      have hnil : s.marked = [] := List.eq_nil_of_length_eq_zero (hpending.symm.trans hzero)
      exact h.goto hnil hturns (fun hp => nomatch hp) hplace
    · exact h.goto hpending hturns (fun _ => by rw [hpc]; rfl) hplace
  · next pending hpc =>
    rw [hpc] at hpending hwalk
    refine ⟨_, rfl, h.goto hpending ⟨hwalk, [], rfl, fun _ ho => nomatch ho⟩
      (fun _ => by rw [hpc]; rfl) fun _ _ heq => nomatch hpc.symm.trans heq⟩
  · next sh rest pending hpc => exact inv_searchStep h hpc
  · next pending hpc =>
    rw [hpc] at hpending hwalk
    obtain ⟨hturns, behind, horder, hbehind⟩ := hwalk
    rw [List.append_nil] at horder
    have hnil : s.marked = [] := filter_unmarked (horder ▸ hbehind)
    have hzero : pending = 0 := by
      rw [hnil] at hpending
      exact hpending
    rw [if_pos hzero]
    exact ⟨_, rfl, h.goto hnil hturns (fun hp => nomatch hp)
      fun _ _ heq => nomatch hpc.symm.trans heq⟩
  · next sh pending hpc => exact inv_returnStep h hpc
  · next sh rest hpc => exact inv_cleanStep h hpc
  · next hpc =>
    rw [hpc] at hpending hwalk
    exact ⟨_, rfl, h.goto hpending hwalk.1 (fun hp => nomatch hp)
      fun _ _ heq => nomatch hpc.symm.trans heq⟩
  · next hpc =>
    rw [hpc] at hpending hwalk
    exact ⟨_, rfl, h.goto hpending ⟨hwalk, List.Subset.refl _⟩ (fun hp => nomatch hp)
      fun _ _ heq => nomatch hpc.symm.trans heq⟩

theorem inv_step (h : s.Inv) (hstay : s.MarkedStay a) (hen : s.Enabled a)
    (hs : s.step a = some s') : s'.Inv := by
  have hpending := h.pending
  have hwalk := h.walk
  cases a with
  | register sh cbType =>
    obtain rfl := Option.some.inj hs
    exact inv_register h hen.1 hen.2
  | unregister sh =>
    obtain rfl := Option.some.inj hs
    exact inv_unregister h hstay
  | invoke cbType =>
    obtain rfl := Option.some.inj hs
    obtain ⟨hpc, hpassive⟩ := hen
    rw [hpc] at hpending
    have hnil : s.marked = [] := hpending
    refine ⟨h.nodup, h.nodup, ?_, ?_, ⟨rfl, rfl, unmarked_of_nil hnil⟩, h.asserted,
      fun _ => hpassive, ?_⟩
    · exact hnil.symm
    · exact (congrArg List.length hnil).symm
    · intro other ho hrun
      obtain ⟨p, hp⟩ := h.running other ho hrun
      exact nomatch hpc.symm.trans hp
  | clean =>
    obtain rfl := Option.some.inj hs
    have hpc : s.pc = .resting := hen
    rw [hpc] at hpending hwalk
    exact h.goto hpending ⟨hwalk, List.Subset.refl _⟩ (fun hp => nomatch hp)
      fun _ _ heq => nomatch hpc.symm.trans heq
  | thread =>
    obtain ⟨t, ht, hinv⟩ := inv_threadStep h
    obtain rfl := Option.some.inj (ht.symm.trans hs)
    exact hinv

theorem inv_start (h : Start s) : s.Inv := by
  obtain ⟨horder, hpc, hlisted, hturns, hran⟩ := h
  have hmarked : s.marked = [] := by
    unfold marked
    rw [horder]
    rfl
  have hno : ∀ sh, sh ∉ s.order := by
    intro sh
    rw [horder]
    exact List.not_mem_nil
  refine ⟨?_, ?_, ?_, ?_, ?_, fun sh hsh => absurd hsh (hno sh), ?_,
    fun sh hsh => absurd hsh (hno sh)⟩
  · rw [horder]
    exact List.nodup_nil
  · rw [hlisted]
    exact List.nodup_nil
  · rw [hmarked, hran, HandlerPass.due, hturns]
    rfl
  · rw [hpc]
    exact hmarked
  · rw [hpc]
    change s.pass.turns.map HandlerTurn.sh = s.pass.listed
    rw [hturns, hlisted]
    rfl
  · rw [hpc]
    exact fun hp => nomatch hp

theorem Reached.inv (h : Reached MarkedStay s) : s.Inv :=
  Reachable.invariant h (fun _ => inv_start) fun _ _ _ hinv hok hs => inv_step hinv hok hs.1 hs.2

/-! ## The end of a pass -/

/-- The rank of a place of the pass: what is pending, at most, and how far the walk has to go. -/
def passRank : HandlerPc → ℕ ×ₗ ℕ
  | .marking rest pending => toLex (3 * (pending + rest.length) + 4, rest.length)
  | .retry pending => toLex (3 * pending + 3, 0)
  | .searching rest pending => toLex (3 * pending + 2, rest.length)
  | .calling _ pending => toLex (3 * pending + 1, 0)
  | .resting | .cleaning _ | .cleanRetry => toLex (0, 0)

/-- The thread ends the pass or lowers the rank. -/
theorem passRank_threadStep (hin : s.pc.inPass = true) (hs : s.threadStep = some s') :
    s'.pc = .resting ∨ s'.pc.inPass = true ∧ passRank s'.pc < passRank s.pc := by
  unfold threadStep at hs
  split at hs
  · next hpc =>
    rw [hpc] at hin
    exact nomatch hin
  · next sh rest pending hpc =>
    obtain rfl := Option.some.inj hs
    refine .inr ?_
    rw [hpc]
    unfold markStep
    simp only
    split
    · refine ⟨rfl, Prod.Lex.left _ _ ?_⟩
      simp only [List.length_cons]
      omega
    · refine ⟨rfl, (Prod.Lex.lt_iff.mpr (.inr ⟨?_, ?_⟩))⟩
      · simp only [passRank, ofLex_toLex, List.length_cons]
        omega
      · exact Nat.lt_succ_self rest.length
  · next pending hpc =>
    obtain rfl := Option.some.inj hs
    simp only
    split
    · exact .inl rfl
    · refine .inr ⟨rfl, ?_⟩
      rw [hpc]
      exact Prod.Lex.left _ _ (Nat.lt_succ_self _)
  · next pending hpc =>
    obtain rfl := Option.some.inj hs
    refine .inr ⟨rfl, ?_⟩
    rw [hpc]
    exact Prod.Lex.left _ _ (Nat.lt_succ_self _)
  · next sh rest pending hpc =>
    refine .inr ?_
    rw [hpc]
    unfold searchStep at hs
    simp only at hs
    split at hs
    · obtain rfl := Option.some.inj hs
      exact ⟨rfl, Prod.Lex.right _ (Nat.lt_succ_self rest.length)⟩
    · split at hs
      · exact nomatch hs
      · split at hs
        · exact nomatch hs
        · obtain rfl := Option.some.inj hs
          exact ⟨rfl, Prod.Lex.left _ _ (Nat.lt_succ_self _)⟩
  · next pending hpc =>
    split at hs
    · obtain rfl := Option.some.inj hs
      exact .inl rfl
    · exact nomatch hs
  · next sh pending hpc =>
    refine .inr ?_
    rw [hpc]
    unfold returnStep at hs
    split at hs
    · exact nomatch hs
    · next hne =>
      obtain rfl := Option.some.inj hs
      refine ⟨rfl, Prod.Lex.left _ _ ?_⟩
      omega
  all_goals
    next hpc =>
      rw [hpc] at hin
      exact nomatch hin

/-- The others leave the thread where it is. -/
theorem step_pc_of_ne (hin : s.pc.inPass = true) (hne : a ≠ .thread) (hen : s.Enabled a)
    (hs : s.step a = some s') : s'.pc = s.pc := by
  cases a with
  | register sh cbType =>
    obtain rfl := Option.some.inj hs
    rfl
  | unregister sh =>
    obtain rfl := Option.some.inj hs
    rfl
  | invoke cbType =>
    rw [hen.1] at hin
    exact nomatch hin
  | clean =>
    rw [show s.pc = .resting from hen] at hin
    exact nomatch hin
  | thread => exact absurd rfl hne

/-- The runs without end that `ok` allows. -/
abbrev Goes (ok : HandlerSys → HandlerAct → Prop) : (ℕ → HandlerSys) → (ℕ → HandlerAct) → Prop :=
  Endless (fun s a s' => s.Enabled a ∧ s.step a = some s') ok

/-- A pass comes to its end, whatever the other threads do meanwhile. -/
theorem pass_ends {t : ℕ → HandlerSys} {acts : ℕ → HandlerAct}
    {ok : HandlerSys → HandlerAct → Prop} (hgoes : Goes ok t acts)
    (hfair : ∀ n, ∃ m ≥ n, acts m = .thread) (hin : (t 0).pc.inPass = true) :
    ∃ n, (t n).pc = .resting := by
  have hthread : ∀ n, (t n).pc.inPass = true → acts n = .thread →
      (t (n + 1)).pc = .resting ∨
        (t (n + 1)).pc.inPass = true ∧ passRank (t (n + 1)).pc < passRank (t n).pc := by
    intro n hn hact
    obtain ⟨-, -, hs⟩ := hgoes n
    rw [hact] at hs
    exact passRank_threadStep hn hs
  apply exists_of_rank (fun s : HandlerSys => passRank s.pc) (fun act => act = HandlerAct.thread)
    (fun s => s.pc.inPass = true) (fun s => s.pc = .resting) hfair hin
  · intro n hn
    by_cases hact : acts n = .thread
    · exact (hthread n hn hact).imp_right fun h => ⟨h.1, h.2.le⟩
    · obtain ⟨-, hen, hs⟩ := hgoes n
      have hpc := step_pc_of_ne hn hact hen hs
      refine .inr ⟨?_, ?_⟩
      · rw [hpc]
        exact hn
      · exact (congrArg passRank hpc).le
  · intro n hn hact
    exact (hthread n hn hact).imp_right And.right

/-- Every handler has one turn. -/
theorem Inv.turns_nodup (h : s.Inv) : (s.pass.turns.map HandlerTurn.sh).Nodup := by
  have hwalk := h.walk
  have hlisted := h.listed
  revert hwalk
  cases s.pc with
  | resting | retry | calling | cleanRetry =>
    intro hwalk
    exact hwalk ▸ hlisted
  | marking =>
    intro hwalk
    rw [← hwalk.1] at hlisted
    exact (List.nodup_append.mp hlisted).1
  | searching | cleaning =>
    intro hwalk
    exact hwalk.1 ▸ hlisted

theorem Inv.due_nodup (h : s.Inv) : s.pass.due.Nodup :=
  h.turns_nodup.sublist (List.filter_sublist.map _)

/-- **Suspend handlers run exactly once.**  While no handler is unregistered between its mark and its
callback, no assertion of `InvokeSuspendHandlers` and `SuspendCleanup` fails.  What a pass has run is
without repetition, and is a beginning of what is due; when it is over, each handler that was listed
has had its turn and all that is due has been run.  A pass that is given its steps gets there. -/
theorem suspend_handlers_run_once (h : Reached MarkedStay s) :
    s.threadStep ≠ none ∧
    s.pass.ran <+: s.pass.due ∧ s.pass.ran.Nodup ∧
    (s.pc = .resting →
      s.pass.turns.map HandlerTurn.sh = s.pass.listed ∧ s.pass.ran = s.pass.due) ∧
    (s.pc.inPass = true → ∀ t acts, t 0 = s → Goes MarkedStay t acts →
      (∀ n, ∃ m ≥ n, acts m = .thread) → ∃ n, (t n).pc = .resting) := by
  have hinv := h.inv
  have hpre : s.pass.ran <+: s.pass.due := ⟨s.marked, hinv.due.symm⟩
  refine ⟨?_, hpre, hinv.due_nodup.sublist hpre.sublist, ?_, ?_⟩
  · intro hnone
    obtain ⟨t, ht, -⟩ := inv_threadStep hinv
    exact nomatch ht.symm.trans hnone
  · intro hpc
    have hwalk := hinv.walk
    have hpending := hinv.pending
    rw [hpc] at hwalk hpending
    have hnil : s.marked = [] := hpending
    refine ⟨hwalk, ?_⟩
    rw [hinv.due, hnil, List.append_nil]
  · intro hin t acts h₀ hgoes hfair
    exact pass_ends hgoes hfair (h₀ ▸ hin)

instance (s : HandlerSys) (a : HandlerAct) : Decidable (s.Enabled a) := by
  cases a <;> unfold Enabled <;> infer_instance

instance (s : HandlerSys) (a : HandlerAct) : Decidable (s.MarkedStay a) := by
  cases a <;> unfold MarkedStay <;> infer_instance

/-- Nothing is registered. -/
def initial : HandlerSys :=
  ⟨[], fun _ => ⟨.suspendCbLate, false, false, false⟩, .resting, ⟨.suspendCbLate, [], [], []⟩⟩

/-- A pass runs the two handlers of its type; the other one, and the one that is unregistered before
its turn, it does not run. -/
theorem suspend_handlers_run_once_two : ∃ s : HandlerSys,
    s.pc = .resting ∧ s.pass.listed = [1, 2, 3, 4] ∧ s.pass.due = [1, 4] ∧ s.pass.ran = s.pass.due := by
  have hrun : ∃ s, Reached MarkedStay s ∧ decide (s.pc = .resting ∧
      s.pass.listed = [1, 2, 3, 4] ∧ s.pass.due = [1, 4]) = true :=
    exists_reachable_of_follow initial
      ([.register 1 .suspendCbLate, .register 2 .preSuspendCbEarly, .register 3 .suspendCbLate,
        .register 4 .suspendCbLate, .unregister 3, .invoke .suspendCbLate] ++
        List.replicate 20 .thread) ⟨rfl, rfl, rfl, rfl, rfl⟩ (by decide)
  obtain ⟨s, h, hs⟩ := hrun
  obtain ⟨hpc, hlisted, hdue⟩ := of_decide_eq_true hs
  exact ⟨s, hpc, hlisted, hdue, ((suspend_handlers_run_once h).2.2.2.1 hpc).2⟩

/-- A handler that is unregistered between its mark and its callback fails the assertion. -/
theorem unregistered_marked_asserts :
    ¬ ∀ s : HandlerSys, Reached (fun _ _ => True) s → s.threadStep ≠ none := by
  intro hall
  have hrun : ∃ s, Reached (fun _ _ => True) s ∧ s.threadStep.isNone = true :=
    exists_reachable_of_follow initial
      [.register 1 .suspendCbLate, .invoke .suspendCbLate, .thread, .unregister 1, .thread, .thread]
      ⟨rfl, rfl, rfl, rfl, rfl⟩ (by decide)
  obtain ⟨s, h, hs⟩ := hrun
  exact hall s h (Option.isNone_iff_eq_none.mp hs)

end HandlerSys
end V4v.Xenutil
