import LegacyV4v.GuardedRun
import LegacyV4v.FileContext

/-! # The IRPs of a file that is purged

`V4vDisconnectStreamAndSignal` and the final release of a context call `V4vCancelAllFileIrps`, which
is to complete whatever is queued for the file, of any type "and any ops".  But it looks for writes:
reads, accepts, the wait for a SYN and the wait for an ACK stay in the queue.  And a routine that has
taken IRPs off the queue before may put them back afterwards with `V4vRequeueIrps`.

The queue is shared by all files and all routines; `V4vCancelAllFileIrps` takes one IRP at a time and
returns when its search finds none. -/
namespace V4v.Windows
open GuardedRun

/-- The device, the IRPs that some routine has taken off the queue, the files for which
`V4vCancelAllFileIrps` is running, and those that have been purged and for which no request has been
issued since. -/
structure PurgeRun where
  device : Device
  held : List Pending
  purging : List Nat
  purged : Nat → Bool

/-- A dispatch routine queues an IRP; a routine takes one off the queue, completes it, or puts it
back, perhaps with other flags; one that is queued is cancelled; `V4vCancelAllFileIrps` begins for a
file, or returns; or the driver does something that does not concern the queue. -/
inductive PurgeAct where
  | request (irp : Pending) (insertHead : Bool)
  | search (qp : QPeek)
  | complete (irp : Pending) (status : NtStatus) (data : List UInt8)
  | requeue (irp : Pending) (flags : PeekFlags) (insertHead : Bool)
  | cancel (irp : Pending)
  | purge (ctx : Nat)
  | returned (ctx : Nat)
  | other

namespace PurgeRun
variable {s s' : PurgeRun} {a : PurgeAct} {ctx : Nat}

/-- The device with another queue. -/
def withQueue (s : PurgeRun) (queue : List Pending) : Device := { s.device with queue := queue }

/-- One step. -/
inductive Step (s : PurgeRun) : PurgeAct → PurgeRun → Prop
  | request {irp : Pending} {insertHead : Bool} :
      Step s (.request irp insertHead) { s with
        device := s.withQueue
          (if insertHead then irp :: s.device.queue else s.device.queue ++ [irp])
        purged := Function.update s.purged irp.fileObject false }
  | search {qp : QPeek} {irp : Pending} {d : Device} :
      s.device.removeNextIrp qp = some (irp, d) →
      Step s (.search qp) { s with device := d, held := s.held ++ [irp] }
  | complete {irp : Pending} {status : NtStatus} {data : List UInt8} : irp ∈ s.held →
      Step s (.complete irp status data) { s with
        device := s.device.complete irp status data
        held := s.held.erase irp }
  | requeue {irp : Pending} {flags : PeekFlags} {insertHead : Bool} : irp ∈ s.held →
      Step s (.requeue irp flags insertHead) { s with
        device := s.withQueue (if insertHead then { irp with flags := flags } :: s.device.queue
          else s.device.queue ++ [{ irp with flags := flags }])
        held := s.held.erase irp }
  | cancel {irp : Pending} : irp ∈ s.device.queue →
      Step s (.cancel irp) { s with
        device := (s.withQueue (s.device.queue.erase irp)).complete irp .cancelled [] }
  | purge {ctx : Nat} : Step s (.purge ctx) { s with purging := ctx :: s.purging }
  | returned {ctx : Nat} : ctx ∈ s.purging → s.device.removeNextIrp (writePeek ctx) = none →
      Step s (.returned ctx) { s with
        purging := s.purging.erase ctx
        purged := Function.update s.purged ctx true }
  | other {d : Device} : d.queue = s.device.queue → Step s .other { s with device := d }

/-- No file has been purged. -/
def Start (s : PurgeRun) : Prop := s.purging = [] ∧ ∀ ctx, s.purged ctx = false

/-- Nothing is queued for a file that has been purged. -/
def Emptied (s : PurgeRun) : Prop :=
  ∀ irp ∈ s.device.queue, s.purged irp.fileObject = false

/-- It is a write of its file. -/
def isWrite (irp : Pending) : Prop := irp.test (writePeek irp.fileObject) = true

/-- A purge begins when only writes are queued for the file, until it returns only writes are added,
and nothing is put back for a file that has been purged. -/
def OnlyWrites (s : PurgeRun) : PurgeAct → Prop
  | .request irp _ => irp.fileObject ∈ s.purging → isWrite irp
  | .purge ctx => ∀ irp ∈ s.device.queue, irp.fileObject = ctx → isWrite irp
  | .requeue irp flags _ => s.purged irp.fileObject = false ∧
      (irp.fileObject ∈ s.purging → isWrite { irp with flags := flags })
  | _ => True

/-- An IRP is put into the queue. -/
theorem forall_mem_insert {p : Pending → Prop} {queue : List Pending} {irp : Pending}
    {insertHead : Bool} :
    (∀ x ∈ (if insertHead then irp :: queue else queue ++ [irp]), p x) ↔
      p irp ∧ ∀ x ∈ queue, p x := by
  cases insertHead with
  | true => exact List.forall_mem_cons
  | false =>
    rw [if_neg Bool.false_ne_true, List.forall_mem_append, List.forall_mem_singleton]
    exact and_comm

/-- Nothing is queued for a file that has been purged, and only writes for one that is purged. -/
structure Inv (s : PurgeRun) : Prop where
  emptied : s.Emptied
  writes : ∀ irp ∈ s.device.queue, irp.fileObject ∈ s.purging → isWrite irp

/-- The queue has become smaller. -/
theorem Inv.of_subset {d : Device} {held : List Pending} (h : s.Inv)
    (hqueue : d.queue ⊆ s.device.queue) : Inv { s with device := d, held := held } :=
  ⟨fun irp hirp => h.emptied irp (hqueue hirp), fun irp hirp => h.writes irp (hqueue hirp)⟩

/-- When `V4vCancelAllFileIrps` returns, no write is left. -/
theorem Inv.returned (h : s.Inv) (hmem : ctx ∈ s.purging)
    (hnone : s.device.removeNextIrp (writePeek ctx) = none) :
    Inv { s with purging := s.purging.erase ctx, purged := Function.update s.purged ctx true } := by
  have hwrites := removeNext_eq_none (Option.map_eq_none_iff.mp hnone)
  refine ⟨fun irp hirp => ?_, fun irp hirp hfile => h.writes irp hirp (List.mem_of_mem_erase hfile)⟩
  have hne : irp.fileObject ≠ ctx := fun hfile => by
    have hwrite := h.writes irp hirp (hfile.symm ▸ hmem)
    rw [isWrite, hfile, hwrites irp hirp] at hwrite
    cases hwrite
  exact (Function.update_of_ne hne ..).trans (h.emptied irp hirp)

/-- **A step** that meets the condition keeps this. -/
theorem Inv.step (h : s.Inv) (hok : s.OnlyWrites a) (hs : Step s a s') : s'.Inv := by
  cases hs with
  | @request irp insertHead =>
    refine ⟨forall_mem_insert.mpr ⟨Function.update_self .., fun x hx => ?_⟩,
      forall_mem_insert.mpr ⟨hok, h.writes⟩⟩
    by_cases hfile : x.fileObject = irp.fileObject
    · dsimp only
      rw [hfile, Function.update_self]
    · exact (Function.update_of_ne hfile ..).trans (h.emptied x hx)
  | search hsome =>
    obtain ⟨-, l₁, l₂, hqueue, rfl, -⟩ := Device.removeNextIrp_some hsome
    refine h.of_subset ?_
    rw [hqueue]
    exact ((List.sublist_cons_self _ l₂).append_left l₁).subset
  | complete hheld => exact h.of_subset (List.Subset.refl _)
  | requeue hheld =>
    exact ⟨forall_mem_insert.mpr ⟨hok.1, h.emptied⟩, forall_mem_insert.mpr ⟨hok.2, h.writes⟩⟩
  | cancel hmem => exact h.of_subset fun x hx => List.mem_of_mem_erase hx
  | @purge ctx =>
    refine ⟨h.emptied, fun irp hirp hfile => ?_⟩
    rcases List.mem_cons.mp hfile with hnew | hold
    · exact hok irp hirp hnew
    · exact h.writes irp hirp hold
  | returned hmem hnone => exact h.returned hmem hnone
  | other hqueue => exact h.of_subset (hqueue ▸ List.Subset.refl _)

/-- `V4vCancelAllFileIrps` leaves nothing for the file exactly if only writes were queued for it. -/
theorem cancelAllFileIrps_empty_iff (d : Device) (ctx : Nat) :
    (∀ irp ∈ (d.cancelAllFileIrps ctx).queue, irp.fileObject ≠ ctx) ↔
      ∀ irp ∈ d.queue, irp.fileObject = ctx → isWrite irp := by
  constructor
  · intro hempty irp hirp hfile
    by_contra hread
    have hkept : irp.test (writePeek ctx) = false := by
      rw [isWrite, hfile] at hread
      exact Bool.eq_false_iff.mpr hread
    exact hempty irp (List.mem_filter.mpr ⟨hirp, by rw [hkept]; rfl⟩) hfile
  · intro hwrites irp hirp hfile
    obtain ⟨hmem, hkept⟩ := List.mem_filter.mp hirp
    have hwrite := hwrites irp hmem hfile
    rw [isWrite, hfile] at hwrite
    rw [hwrite] at hkept
    cases hkept

/-- **Nothing is queued for a purged file** in any state of a run whose steps meet the condition;
and a purge that is not interrupted leaves nothing only then. -/
theorem emptied_of_onlyWrites (h : Reachable Start Step OnlyWrites s) :
    s.Emptied ∧ ∀ ctx, (∀ irp ∈ (s.device.cancelAllFileIrps ctx).queue, irp.fileObject ≠ ctx) ↔
      s.OnlyWrites (.purge ctx) := by
  have hinv : s.Inv := by
    refine h.invariant (fun t ht => ⟨fun _ _ => ht.2 _, fun irp _ hfile => ?_⟩)
      fun _ _ _ ht hok hs => ht.step hok hs
    rw [ht.1] at hfile
    cases hfile
  exact ⟨hinv.emptied, cancelAllFileIrps_empty_iff s.device⟩

/-! ## The whole of `V4vCancelAllFileIrps` -/

/-- It goes on behind the first write as if that had been completed before. -/
theorem cancelAllFileIrps_of_some {d e : Device} {irp : Pending}
    (h : d.removeNextIrp (writePeek ctx) = some (irp, e)) :
    (e.complete irp .cancelled []).cancelAllFileIrps ctx = d.cancelAllFileIrps ctx := by
  obtain ⟨htest, l₁, l₂, hqueue, rfl, hl₁⟩ := Device.removeNextIrp_some h
  have hnone : l₁.filter (Pending.test (writePeek ctx)) = [] :=
    List.filter_eq_nil_iff.mpr fun x hx => by rw [hl₁ x hx]; exact Bool.false_ne_true
  have hkept : (l₁ ++ irp :: l₂).filter (fun x => !x.test (writePeek ctx)) =
      (l₁ ++ l₂).filter fun x => !x.test (writePeek ctx) := by
    rw [List.filter_append, List.filter_append,
      List.filter_cons_of_neg (by rw [htest]; exact Bool.false_ne_true)]
  have hgone : (l₁ ++ irp :: l₂).filter (Pending.test (writePeek ctx)) =
      irp :: (l₁ ++ l₂).filter (Pending.test (writePeek ctx)) := by
    rw [List.filter_append, List.filter_append, hnone, List.filter_cons_of_pos htest]
    rfl
  rw [Device.cancelAllFileIrps, Device.cancelAllFileIrps, hqueue, hkept, hgone, List.map_cons]
  change Device.mk d.contexts d.contextList _ d.stashed ((d.completed ++ [_]) ++ _) = _
  rw [List.append_assoc]
  rfl

/-- `V4vCancelAllFileIrps` for a file for which it has begun is made of such steps, and returns. -/
theorem reachable_cancelAllFileIrps (s : PurgeRun) (hmem : ctx ∈ s.purging) :
    ∃ s', From Step s s' ∧
      s'.device = s.device.cancelAllFileIrps ctx ∧ s'.purged ctx = true := by
  obtain ⟨n, hn⟩ : ∃ n, s.device.queue.length = n := ⟨_, rfl⟩
  induction n using Nat.strong_induction_on generalizing s with
  | h n ih =>
    cases hsearch : s.device.removeNextIrp (writePeek ctx) with
    | none =>
      have hwrites := removeNext_eq_none (Option.map_eq_none_iff.mp hsearch)
      have hkept : s.device.queue.filter (fun x => !x.test (writePeek ctx)) = s.device.queue :=
        List.filter_eq_self.mpr fun x hx => by rw [hwrites x hx]; rfl
      have hgone : s.device.queue.filter (Pending.test (writePeek ctx)) = [] :=
        List.filter_eq_nil_iff.mpr fun x hx => by rw [hwrites x hx]; exact Bool.false_ne_true
      refine ⟨_, From.single (.returned hmem hsearch), ?_, Function.update_self ..⟩
      rw [Device.cancelAllFileIrps, hkept, hgone, List.map_nil, List.append_nil]
    | some o =>
      -- the first write is taken and completed
      obtain ⟨irp, d⟩ := o
      have hlen := Device.removeNextIrp_length hsearch
      have htaken := Step.search hsearch
      have hdone : Step { s with device := d, held := s.held ++ [irp] } (.complete irp .cancelled [])
          _ := .complete (List.mem_append_right _ List.mem_cons_self)
      obtain ⟨s', hreach, hdevice, hpurged⟩ := ih _ (hn ▸ hlen)
        ⟨d.complete irp .cancelled [], (s.held ++ [irp]).erase irp, s.purging, s.purged⟩ hmem rfl
      refine ⟨s', ((From.single htaken).trans (From.single hdone)).trans hreach, ?_, hpurged⟩
      rw [hdevice, cancelAllFileIrps_of_some hsearch]

/-- An IRP of file 1. -/
def irpOf (flags : PeekFlags) : Pending := ⟨0, flags, 4096, 1, ⟨5, 2⟩⟩

theorem isWrite_irpOf : isWrite (irpOf (peekStream ||| peekWrite)) := by
  rw [isWrite]
  decide

/-- A device with one queued IRP. -/
def oneQueued (flags : PeekFlags) : PurgeRun :=
  ⟨⟨fun _ => ⟨.connected, .connector, ⟨5, 2⟩, 7, 0, [], none, []⟩, [1], [irpOf flags], fun _ => 0,
    []⟩, [], [], fun _ => false⟩

/-- A write is completed when the file is purged. -/
theorem emptied_of_onlyWrites_write :
    ∃ s : PurgeRun, s.purged 1 = true ∧ s.device.completed.length = 1 ∧ s.Emptied := by
  let irp := irpOf (peekStream ||| peekWrite)
  let begun : PurgeRun := { oneQueued (peekStream ||| peekWrite) with purging := [1] }
  let taken : PurgeRun := { begun with device := begun.withQueue [], held := [irp] }
  have htaken : Step begun (.search (writePeek 1)) taken := .search rfl
  have hdone : Step taken (.complete irp .cancelled [])
      { taken with device := taken.device.complete irp .cancelled [], held := [] } :=
    .complete List.mem_cons_self
  have honly : ∀ x ∈ [irp], x.fileObject = 1 → isWrite x := fun x hx _ =>
    List.mem_singleton.mp hx ▸ isWrite_irpOf
  have hbegun : Reachable Start Step OnlyWrites begun := .next (i := .purge 1)
    (.start (s := oneQueued (peekStream ||| peekWrite)) ⟨rfl, fun _ => rfl⟩) honly .purge
  have hreach : Reachable Start Step OnlyWrites _ := .next (i := .returned 1)
    (.next (i := .complete irp _ _) (.next (i := .search _) hbegun trivial htaken) trivial hdone)
    trivial (.returned List.mem_cons_self rfl)
  exact ⟨_, rfl, rfl, (emptied_of_onlyWrites hreach).1⟩

/-- A read stays in the queue. -/
theorem read_outlives_purge : ¬ ∀ s : PurgeRun,
    Reachable Start Step (fun _ _ => True) s → s.Emptied := by
  intro h
  have hbegun : Step (oneQueued (peekStream ||| peekRead)) (.purge 1) _ := .purge
  have hreturned : Step { oneQueued (peekStream ||| peekRead) with purging := [1] } (.returned 1) _ :=
    .returned List.mem_cons_self rfl
  have hread := h _ (.next (.next (.start ⟨rfl, fun _ => rfl⟩) trivial hbegun) trivial hreturned) _
    List.mem_cons_self
  cases hread

end PurgeRun

end V4v.Windows
