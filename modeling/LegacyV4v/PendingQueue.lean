import LegacyV4v.IrpQueueExact

/-! # The IRP queue as its users see it

The read and write routines see a list of IRPs, each with the flags, the length, the file object
and the destination that it had when it was queued.  They put an IRP at one end, and take out the
first that passes a test.  `csq.c` does just that: the list is the `view` of its queue, and
`insertIrpEx_view` and `removeNextIrp_view` are the two operations on it. -/
namespace V4v.Windows

/-- A queued IRP. -/
structure Pending where
  id : Nat
  flags : PeekFlags
  length : UInt32
  fileObject : Nat
  dst : Addr
  deriving DecidableEq, Repr

/-- Whether the IRP is what a search looks for. -/
def Pending.test (qp : QPeek) (x : Pending) : Bool :=
  has qp.types (x.flags &&& peekAnyType) && has qp.ops (x.flags &&& peekAnyOp) &&
    match qp.fileObject with
    | some pfo => x.fileObject == pfo
    | none => qp.dst.domain == domidInvalid || x.dst == qp.dst

section
variable {α β : Type} {sel : α → Bool} {q q' : List α} {x : α}

/-- Take the first IRP that passes a test. -/
def removeNext (sel : α → Bool) : List α → Option (α × List α)
  | [] => none
  | x :: q =>
    if sel x then some (x, q)
    else (removeNext sel q).map fun o => (o.1, x :: o.2)

theorem removeNext_eq_none (h : removeNext sel q = none) : ∀ x ∈ q, sel x = false := by
  induction q with
  | nil => simp
  | cons x q ih =>
    rw [removeNext] at h
    split at h
    · cases h
    · next hx =>
      intro y hy
      rcases List.mem_cons.mp hy with rfl | hy
      · simpa using hx
      · exact ih (Option.map_eq_none_iff.mp h) y hy

/-- The IRP that is taken, those before it, which fail the test, and those behind it. -/
theorem removeNext_eq_some (h : removeNext sel q = some (x, q')) : sel x = true ∧
    ∃ l₁ l₂, q = l₁ ++ x :: l₂ ∧ q' = l₁ ++ l₂ ∧ ∀ y ∈ l₁, sel y = false := by
  induction q generalizing q' with
  | nil => cases h
  | cons y q ih =>
    rw [removeNext] at h
    split at h
    · next hy =>
      cases h
      exact ⟨hy, [], q, rfl, rfl, by simp⟩
    · next hy =>
      obtain ⟨⟨x', q''⟩, ho, heq⟩ := Option.map_eq_some_iff.mp h
      cases heq
      obtain ⟨hx, l₁, l₂, rfl, rfl, hl₁⟩ := ih ho
      refine ⟨hx, y :: l₁, l₂, rfl, rfl, fun z hz => ?_⟩
      rcases List.mem_cons.mp hz with rfl | hz
      · simpa using hy
      · exact hl₁ z hz

/-- What an IRP carries beside what the test looks at makes no difference. -/
theorem removeNext_map (f : β → α) (l : List β) :
    removeNext sel (l.map f) =
      (removeNext (fun y => sel (f y)) l).map fun o => (f o.1, o.2.map f) := by
  induction l with
  | nil => rfl
  | cons y l ih =>
    rw [List.map_cons, removeNext, removeNext]
    by_cases hy : sel (f y) = true
    · rw [if_pos hy, if_pos hy]
      rfl
    · rw [if_neg hy, if_neg hy, ih, Option.map_map, Option.map_map]
      rfl

end

namespace Csq

/-- The queued IRP at `i`. -/
def pending (s : Csq) (i : Nat) : Pending where
  id := i
  flags := (s.irps i).flags
  length := (s.irps i).length
  fileObject := (s.irps i).fileObject
  dst := (s.stash i).getD ⟨0, 0⟩

/-- The queue as a list of IRPs. -/
def view (s : Csq) : List Pending := s.pendingIrpQueue.map s.pending

variable {s s' : Csq} {i : Nat} {qp : QPeek}

/-- An IRP that keeps its record's destination is seen as before. -/
theorem SameIrps.pending (h : s.SameIrps s') (hst : s'.stash i = s.stash i) :
    s'.pending i = s.pending i := by
  rw [Csq.pending, hst, h.1 i]
  rfl

/-- **Insertion** puts the IRP at one end. -/
theorem insertIrpEx_view {insertHead first second : Bool} (h : s.Represented)
    (hi : i ∉ s.pendingIrpQueue)
    (heq : s.insertIrpEx i insertHead first second = some (.success, s')) :
    s'.view = place insertHead (s'.pending i) s.view := by
  obtain ⟨status, s'', heq', -, hsame, hothers, -, hq⟩ := insertIrpEx_spec insertHead first second h hi
  obtain ⟨rfl, rfl⟩ := Prod.mk.inj (Option.some.inj (heq.symm.trans heq'))
  have hmap : s.pendingIrpQueue.map s'.pending = s.view := by
    refine List.map_congr_left fun j hj => hsame.pending (hothers j ?_)
    rintro rfl
    exact hi hj
  rw [view, hq, if_pos rfl, ← hmap]
  cases insertHead <;> simp [place]

/-- A search looks at destinations only among the writes. -/
def QPeek.Safe (qp : QPeek) : Prop :=
  qp.fileObject = none → qp.dst.domain ≠ domidInvalid → qp.ops = peekWrite

/-- The test finds in the record what the list shows. -/
theorem peekTest_view (h : s.Represented) (hqp : QPeek.Safe qp) (hi : i ∈ s.pendingIrpQueue) :
    s.peekTest qp i = some ((s.pending i).test qp) := by
  rw [peekTest, Pending.test]
  dsimp only [pending]
  split
  · next hops =>
    rw [hops.1, hops.2, Bool.true_and, Bool.true_and]
    cases hpfo : qp.fileObject with
    | some pfo => rfl
    | none =>
      dsimp only
      by_cases hdom : qp.dst.domain = domidInvalid
      · rw [if_pos hdom, hdom, beq_self_eq_true, Bool.true_or]
      · -- it is a write, so it has a record
        have hops' := hops.2
        rw [hqp hpfo hdom, has_and _ _ _ (by decide)] at hops'
        obtain ⟨d, -, hd⟩ := h.covered i hi hops'
        obtain ⟨r, hr⟩ := stash_ne_none (s := s) (i := i) (by rw [hd]; exact Option.some_ne_none _)
        rw [if_neg hdom, hr, stash, hr, beq_eq_false_iff_ne.mpr hdom]
        rfl
  · next hops =>
    have hfalse : (has qp.types ((s.irps i).flags &&& peekAnyType) &&
        has qp.ops ((s.irps i).flags &&& peekAnyOp)) = false := by
      rw [Bool.eq_false_iff]
      exact fun hand => hops (Bool.and_eq_true_iff.mp hand)
    rw [hfalse, Bool.false_and]

theorem peekLoop_view (h : s.Represented) (hqp : QPeek.Safe qp) {l : List Nat}
    (hl : ∀ i ∈ l, i ∈ s.pendingIrpQueue) :
    s.peekLoop qp l = some ((removeNext (Pending.test qp) (l.map s.pending)).map fun o => o.1.id) := by
  induction l with
  | nil => rfl
  | cons i l ih =>
    rw [peekLoop, peekTest_view h hqp (hl i List.mem_cons_self), List.map_cons, removeNext]
    cases htest : (s.pending i).test qp with
    | true => rfl
    | false =>
      dsimp only
      rw [ih fun j hj => hl j (List.mem_cons_of_mem i hj), if_neg (by simp), Option.map_map]
      rfl

/-- **Removal** takes the first IRP that passes the test. -/
theorem removeNextIrp_view (h : s.Represented) (hqp : QPeek.Safe qp) :
    match removeNext (Pending.test qp) s.view with
    | none => s.removeNextIrp qp = some (none, s)
    | some (x, q) => ∃ s', s.removeNextIrp qp = some (some x.id, s') ∧ s'.Represented ∧
        x = s.pending x.id ∧ s'.view = q := by
  have hloop := peekLoop_view h hqp (l := s.pendingIrpQueue) fun _ hi => hi
  rw [show s.pendingIrpQueue.map s.pending = s.view from rfl] at hloop
  cases hnext : removeNext (Pending.test qp) s.view with
  | none =>
    rw [hnext] at hloop
    dsimp only
    rw [removeNextIrp, hloop]
    rfl
  | some o =>
    obtain ⟨x, q⟩ := o
    rw [hnext] at hloop
    obtain ⟨-, l₁, l₂, hview, rfl, -⟩ := removeNext_eq_some hnext
    obtain ⟨k₁, k, hq, rfl, hk⟩ := List.map_eq_append_iff.mp hview
    obtain ⟨i, k₂, rfl, rfl, rfl⟩ := List.map_eq_cons_iff.mp hk
    have hi : i ∈ s.pendingIrpQueue := by
      rw [hq]
      simp
    obtain ⟨s', heq, hrep, hsame, hothers, hq'⟩ := removeIrp_spec h hi
    have hnd := h.nodup
    rw [hq] at hnd
    have hperm := List.perm_middle.nodup_iff.mp hnd
    have hnot := (List.nodup_cons.mp hperm).1
    have hi₁ : i ∉ k₁ := fun hmem => hnot (List.mem_append_left _ hmem)
    dsimp only
    refine ⟨s', ?_, hrep, rfl, ?_⟩
    · rw [removeNextIrp, hloop]
      dsimp only [Option.map_some]
      rw [show (s.pending i).id = i from rfl, heq]
      rfl
    · rw [view, hq', hq, List.erase_append_right _ hi₁, List.erase_cons_head, ← List.map_append]
      refine List.map_congr_left fun j hj => hsame.pending (hothers j ?_)
      rintro rfl
      exact hnot hj

end Csq

end V4v.Windows
