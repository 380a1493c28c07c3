import Mathlib.Data.Fintype.Defs
import Mathlib.Data.List.Basic
import Mathlib.Logic.Function.Basic

/-! # Processors that take ranked locks

Each processor runs calls.  A call is a script: it takes locks, shared or exclusive, drops them, and
touches data in between.  The locks have ranks, and a call takes a lock above all that it holds, or
takes once more, shared, a lock that it holds shared already, if this is one of the locks that are
taken again.

Two things follow for any number of processors in any order of steps.  Where one processor holds a
lock exclusively, no other holds it; so two accesses that need the same lock, one of them
exclusively, never meet.  And the processors do not get stuck: some processor can go on, whatever a
reader does about a writer that waits in front of it, unless somebody waits for a lock that a call
has kept when it returned, or takes a lock once more that a writer is waiting for. -/
namespace RankedLocks

/-- How a lock is held. -/
inductive Mode where
  | shared
  | exclusive
  deriving DecidableEq, Repr

/-- One step of a script. -/
inductive Op (L A : Type*) where
  | take (l : L) (m : Mode)
  | drop (l : L) (m : Mode)
  | act (a : A)
  deriving DecidableEq

/-- The lock that a step takes. -/
def Op.lock? {L A : Type*} : Op L A → Option (L × Mode)
  | .take l m => some (l, m)
  | _ => none

/-- What a processor holds, the latest lock first, and what is left of its call. -/
structure Cpu (L A : Type*) where
  held : List (L × Mode)
  rest : List (Op L A)

/-- The processors, and the locks that calls have kept when they returned. -/
structure System (ι L A : Type*) where
  cpu : ι → Cpu L A
  left : List (L × Mode)

/-- A processor begins a call, goes on with it, or returns from it. -/
inductive Act (ι L A : Type*) where
  | begin (i : ι) (ops : List (Op L A))
  | go (i : ι)
  | finish (i : ι)

section
variable {ι L A : Type*}

namespace System

def set [DecidableEq ι] (s : System ι L A) (i : ι) (c : Cpu L A) : System ι L A :=
  { s with cpu := Function.update s.cpu i c }

section
variable [DecidableEq ι] [DecidableEq L]

/-- One step of a processor's script. -/
def goOn (s : System ι L A) (i : ι) : Option (System ι L A) :=
  match (s.cpu i).rest with
  | [] => none
  | .take l m :: ops => some (s.set i ⟨(l, m) :: (s.cpu i).held, ops⟩)
  | .drop l m :: ops => some (s.set i ⟨(s.cpu i).held.erase (l, m), ops⟩)
  | .act _ :: ops => some (s.set i ⟨(s.cpu i).held, ops⟩)

def step (s : System ι L A) : Act ι L A → Option (System ι L A)
  | .begin i ops => some (s.set i ⟨[], ops⟩)
  | .go i => s.goOn i
  | .finish i => some { s.set i ⟨[], []⟩ with left := (s.cpu i).held ++ s.left }

end

/-- The lock can be taken like this: whoever holds it shares it. -/
def Permits (s : System ι L A) (l : L) (m : Mode) : Prop :=
  (∀ j, ∀ x ∈ (s.cpu j).held, x.1 = l → m = .shared ∧ x.2 = .shared) ∧
    ∀ x ∈ s.left, x.1 = l → m = .shared ∧ x.2 = .shared

/-- The next step of the processor takes this lock. -/
def Waits (s : System ι L A) (i : ι) (l : L) (m : Mode) : Prop :=
  (s.cpu i).rest.head? = some (.take l m)

/-- The next step of the processor is this access. -/
def At (s : System ι L A) (i : ι) (a : A) : Prop := (s.cpu i).rest.head? = some (.act a)

/-- The processor is in a call. -/
def Busy (s : System ι L A) (i : ι) : Prop := (s.cpu i).rest ≠ [] ∨ (s.cpu i).held ≠ []

/-- If the next step of the processor takes a lock, it can be taken. -/
def CanGo (s : System ι L A) (i : ι) : Prop :=
  ∀ x ∈ (s.cpu i).rest.head?.bind Op.lock?, s.Permits x.1 x.2

/-- A call begins on an idle processor and is one of the `calls`; a lock is taken when that is
possible. -/
def Enabled (calls : List (Op L A) → Prop) (s : System ι L A) : Act ι L A → Prop
  | .begin i ops => calls ops ∧ ¬ s.Busy i
  | .go i => s.CanGo i
  | .finish i => (s.cpu i).rest = []

/-- All processors are idle. -/
def Start (s : System ι L A) : Prop := (∀ i, s.cpu i = ⟨[], []⟩) ∧ s.left = []

end System

/-! ## Scripts -/

variable [DecidableEq L] (rank : L → ℕ) (Again : L → Prop) (Covers : A → List (L × Mode) → Prop)

/-- From these locks on, the script takes locks upwards or takes one again that it shares, drops what
it holds, and touches data under the locks that cover it. -/
def Disciplined : List (L × Mode) → List (Op L A) → Prop
  | _, [] => True
  | held, .take l m :: ops =>
    ((∀ x ∈ held, rank x.1 < rank l) ∨ (m = .shared ∧ Again l ∧ (l, .shared) ∈ held)) ∧
      Disciplined ((l, m) :: held) ops
  | held, .drop l m :: ops => (l, m) ∈ held ∧ Disciplined (held.erase (l, m)) ops
  | held, .act a :: ops => Covers a held ∧ Disciplined held ops

/-- What a script holds in the end. -/
def after : List (L × Mode) → List (Op L A) → List (L × Mode)
  | held, [] => held
  | held, .take l m :: ops => after ((l, m) :: held) ops
  | held, .drop l m :: ops => after (held.erase (l, m)) ops
  | held, .act _ :: ops => after held ops

/-- The script keeps to the discipline and holds this in the end. -/
def Leads (held : List (L × Mode)) (ops : List (Op L A)) (held' : List (L × Mode)) : Prop :=
  Disciplined rank Again Covers held ops ∧ after held ops = held'

variable {rank Again Covers} {held held' : List (L × Mode)} {l : L} {m : Mode} {a : A}
  {ops : List (Op L A)}

@[simp] theorem leads_nil : Leads rank Again Covers held [] held' ↔ held = held' :=
  ⟨And.right, fun h => ⟨trivial, h⟩⟩

@[simp] theorem leads_take : Leads rank Again Covers held (.take l m :: ops) held' ↔
    ((∀ x ∈ held, rank x.1 < rank l) ∨ (m = .shared ∧ Again l ∧ (l, .shared) ∈ held)) ∧
      Leads rank Again Covers ((l, m) :: held) ops held' := and_assoc

@[simp] theorem leads_drop : Leads rank Again Covers held (.drop l m :: ops) held' ↔
    (l, m) ∈ held ∧ Leads rank Again Covers (held.erase (l, m)) ops held' := and_assoc

@[simp] theorem leads_act : Leads rank Again Covers held (.act a :: ops) held' ↔
    Covers a held ∧ Leads rank Again Covers held ops held' := and_assoc

theorem Leads.append {xs ys : List (Op L A)} {mid : List (L × Mode)}
    (hxs : Leads rank Again Covers held xs mid) (hys : Leads rank Again Covers mid ys held') :
    Leads rank Again Covers held (xs ++ ys) held' := by
  induction xs generalizing held with
  | nil => exact leads_nil.mp hxs ▸ hys
  | cons op xs ih =>
    cases op with
    | take l m =>
      obtain ⟨hop, hxs⟩ := leads_take.mp hxs
      exact leads_take.mpr ⟨hop, ih hxs⟩
    | drop l m =>
      obtain ⟨hop, hxs⟩ := leads_drop.mp hxs
      exact leads_drop.mpr ⟨hop, ih hxs⟩
    | act a =>
      obtain ⟨hop, hxs⟩ := leads_act.mp hxs
      exact leads_act.mpr ⟨hop, ih hxs⟩

/-- A loop whose body gives back what it takes gives back what it takes. -/
theorem leads_flatMap {β : Type*} {body : β → List (Op L A)} (bs : List β)
    (hbody : ∀ b, Leads rank Again Covers held (body b) held) :
    Leads rank Again Covers held (bs.flatMap body) held := by
  induction bs with
  | nil => exact leads_nil.mpr rfl
  | cons b bs ih => exact (hbody b).append ih

/-! ## The invariant -/

variable (rank Again Covers) in
/-- Every call keeps to the discipline from where it stands, and a lock that is held exclusively is
held once. -/
structure Inv (s : System ι L A) : Prop where
  disciplined : ∀ i, Disciplined rank Again Covers (s.cpu i).held (s.cpu i).rest
  sole : ∀ i l, (l, .exclusive) ∈ (s.cpu i).held →
    ∀ j m, (l, m) ∈ (s.cpu j).held → j = i ∧ m = .exclusive
  beside : ∀ x ∈ s.left, ∀ i m, (x.1, m) ∈ (s.cpu i).held → m = .shared ∧ x.2 = .shared

variable {s s' : System ι L A} {calls : List (Op L A) → Prop} {i j : ι}

theorem System.Start.inv (h : s.Start) : Inv rank Again Covers s where
  disciplined i := by
    rw [h.1 i]
    exact trivial
  sole i l hl := by
    rw [h.1 i] at hl
    cases hl
  beside x hx := by
    rw [h.2] at hx
    cases hx

section
variable [DecidableEq ι]

omit [DecidableEq L] in
@[simp] theorem System.set_cpu (c : Cpu L A) (k : ι) :
    (s.set i c).cpu k = if k = i then c else s.cpu k := Function.update_apply ..

/-- A processor that holds no more than before. -/
theorem Inv.fewer (h : Inv rank Again Covers s) {c : Cpu L A} (hheld : ∀ x ∈ c.held, x ∈ (s.cpu i).held)
    (hrest : Disciplined rank Again Covers c.held c.rest) : Inv rank Again Covers (s.set i c) := by
  have hmem : ∀ k x, x ∈ ((s.set i c).cpu k).held → x ∈ (s.cpu k).held := by
    intro k x hx
    rw [System.set_cpu] at hx
    split at hx
    · next hk => exact hk ▸ hheld x hx
    · exact hx
  refine ⟨fun k => ?_, fun k l hl j m hm => h.sole k l (hmem k _ hl) j m (hmem j _ hm),
    fun x hx k m hm => h.beside x hx k m (hmem k _ hm)⟩
  rw [System.set_cpu]
  split
  · exact hrest
  · exact h.disciplined k

/-- A processor that takes a lock which it can take. -/
theorem Inv.taken {l : L} {m : Mode} {ops : List (Op L A)} (h : Inv rank Again Covers s)
    (hpermits : s.Permits l m)
    (hrest : Disciplined rank Again Covers ((l, m) :: (s.cpu i).held) ops) :
    Inv rank Again Covers (s.set i ⟨(l, m) :: (s.cpu i).held, ops⟩) := by
  have hmem : ∀ k x, x ∈ ((s.set i ⟨(l, m) :: (s.cpu i).held, ops⟩).cpu k).held →
      (k = i ∧ x = (l, m)) ∨ x ∈ (s.cpu k).held := by
    intro k x hx
    rw [System.set_cpu] at hx
    split at hx
    · next hk => exact (List.mem_cons.mp hx).imp (fun heq => ⟨hk, heq⟩) fun hx => hk ▸ hx
    · exact Or.inr hx
  refine ⟨fun k => ?_, fun k l' hl j m' hm => ?_, fun x hx k m' hm => ?_⟩
  · rw [System.set_cpu]
    split
    · exact hrest
    · exact h.disciplined k
  · rcases hmem k _ hl with ⟨rfl, heq⟩ | hl'
    · rcases hmem j _ hm with ⟨rfl, heq'⟩ | hm'
      · exact ⟨rfl, (Prod.mk.inj heq').2.trans (Prod.mk.inj heq).2.symm⟩
      · obtain ⟨rfl, rfl⟩ := Prod.mk.inj heq
        cases (hpermits.1 j (l', m') hm' rfl).1
    · rcases hmem j _ hm with ⟨rfl, heq⟩ | hm'
      · obtain ⟨rfl, rfl⟩ := Prod.mk.inj heq
        cases (hpermits.1 k (l', .exclusive) hl' rfl).2
      · exact h.sole k l' hl' j m' hm'
  · rcases hmem k _ hm with ⟨rfl, heq⟩ | hm
    · obtain ⟨rfl, rfl⟩ := Prod.mk.inj heq
      exact hpermits.2 x hx rfl
    · exact h.beside x hx k m' hm

/-- A call that returns leaves behind what it holds. -/
theorem Inv.returned (h : Inv rank Again Covers s) :
    Inv rank Again Covers { s.set i ⟨[], []⟩ with left := (s.cpu i).held ++ s.left } := by
  have hset := h.fewer (i := i) (c := ⟨[], []⟩) (fun x hx => nomatch hx) trivial
  refine ⟨hset.disciplined, hset.sole, fun x hx k m hm => ?_⟩
  rcases List.mem_append.mp hx with hx | hx
  · rw [System.set_cpu] at hm
    split at hm
    · cases hm
    · next hk =>
      cases hxm : x.2 with
      | exclusive => exact absurd (h.sole i x.1 (hxm ▸ hx) k m hm).1 hk
      | shared =>
        cases m with
        | shared => exact ⟨rfl, rfl⟩
        | exclusive => exact absurd (h.sole k x.1 hm i x.2 hx).1.symm hk
  · exact hset.beside x hx k m hm

/-- **One step.**  The calls that may begin keep to the discipline. -/
theorem Inv.step {a : Act ι L A} (h : Inv rank Again Covers s)
    (hcalls : ∀ ops, calls ops → Disciplined rank Again Covers [] ops)
    (henabled : s.Enabled calls a) (hstep : s.step a = some s') : Inv rank Again Covers s' := by
  cases a with
  | begin i ops =>
    obtain rfl := Option.some.inj hstep
    exact h.fewer (fun x hx => nomatch hx) (hcalls ops henabled.1)
  | finish i =>
    obtain rfl := Option.some.inj hstep
    exact h.returned
  | go i =>
    have hrest := h.disciplined i
    simp only [System.step, System.goOn] at hstep
    split at hstep
    · cases hstep
    · next l m ops heq =>
      obtain rfl := Option.some.inj hstep
      rw [heq] at hrest
      exact h.taken (henabled (l, m) (congrArg (fun ops => ops.head?.bind Op.lock?) heq)) hrest.2
    · next l m ops heq =>
      obtain rfl := Option.some.inj hstep
      rw [heq] at hrest
      exact h.fewer (fun x hx => List.mem_of_mem_erase hx) hrest.2
    · next a ops heq =>
      obtain rfl := Option.some.inj hstep
      rw [heq] at hrest
      exact h.fewer (fun x hx => hx) hrest.2

variable (s) in
/-- What the calls keep when they return satisfies `K`, in the past and from where they stand. -/
structure Keeps (K : L × Mode → Prop) : Prop where
  left : ∀ x ∈ s.left, K x
  coming : ∀ i, ∀ x ∈ after (s.cpu i).held (s.cpu i).rest, K x

omit [DecidableEq ι] in
theorem System.Start.keeps {K : L × Mode → Prop} (h : s.Start) : Keeps s K where
  left x hx := by
    rw [h.2] at hx
    cases hx
  coming i x hx := by
    rw [h.1 i] at hx
    cases hx

theorem Keeps.set {K : L × Mode → Prop} {c : Cpu L A} (h : Keeps s K)
    (hc : ∀ x ∈ after c.held c.rest, K x) : Keeps (s.set i c) K := by
  refine ⟨h.left, fun k x hx => ?_⟩
  rw [System.set_cpu] at hx
  split at hx
  · exact hc x hx
  · exact h.coming k x hx

theorem Keeps.step {K : L × Mode → Prop} {a : Act ι L A} (h : Keeps s K)
    (hcalls : ∀ ops, calls ops → ∀ x ∈ after [] ops, K x)
    (henabled : s.Enabled calls a) (hstep : s.step a = some s') : Keeps s' K := by
  cases a with
  | begin i ops =>
    obtain rfl := Option.some.inj hstep
    exact h.set (hcalls ops henabled.1)
  | finish i =>
    obtain rfl := Option.some.inj hstep
    refine ⟨fun x hx => ?_, (h.set (c := ⟨[], []⟩) fun x hx => nomatch hx).coming⟩
    rcases List.mem_append.mp hx with hx | hx
    · refine h.coming i x ?_
      rw [show (s.cpu i).rest = [] from henabled]
      exact hx
    · exact h.left x hx
  | go i =>
    have hcoming := h.coming i
    simp only [System.step, System.goOn] at hstep
    split at hstep
    · cases hstep
    all_goals
      next heq =>
      obtain rfl := Option.some.inj hstep
      rw [heq] at hcoming
      exact h.set hcoming

end

/-! ## Following a processor -/

section
variable [DecidableEq ι] [Fintype ι]

instance (l : L) (m : Mode) : Decidable (s.Permits l m) := inferInstanceAs (Decidable (_ ∧ _))

instance : Decidable (s.CanGo i) :=
  inferInstanceAs (Decidable (∀ x ∈ (s.cpu i).rest.head?.bind Op.lock?, s.Permits x.1 x.2))

/-- The processor makes `n` steps of its call, if it can. -/
def System.advance (s : System ι L A) (i : ι) : ℕ → Option (System ι L A)
  | 0 => some s
  | n + 1 => if s.CanGo i then (s.goOn i).bind fun t => t.advance i n else none

end

/-! ## No two accesses under one exclusive lock -/

/-- An access is made under the locks that cover it. -/
theorem Inv.covered {a : A} (h : Inv rank Again Covers s) (hat : s.At i a) :
    Covers a (s.cpu i).held := by
  have hrest := h.disciplined i
  obtain ⟨ops, heq⟩ := List.head?_eq_some_iff.mp hat
  rw [heq] at hrest
  exact hrest.1

/-- Nobody else holds what a processor holds exclusively. -/
theorem Inv.apart {l : L} {m : Mode} (h : Inv rank Again Covers s)
    (hi : (l, .exclusive) ∈ (s.cpu i).held) (hj : (l, m) ∈ (s.cpu j).held) : j = i :=
  (h.sole i l hi j m hj).1

/-! ## No deadlock -/

namespace System

/-- The processor can go on, also if readers let waiting writers pass. -/
def Free (s : System ι L A) (i : ι) : Prop :=
  s.Busy i ∧ ∀ l m, s.Waits i l m →
    s.Permits l m ∧ (m = .shared → ∀ j, ¬ s.Waits j l .exclusive)

/-- The processor waits for a lock that a call has kept. -/
def Stranded (s : System ι L A) (i : ι) : Prop :=
  ∃ l m, s.Waits i l m ∧ ∃ x ∈ s.left, x.1 = l ∧ ¬ (m = .shared ∧ x.2 = .shared)

/-- The processor shares a lock, wants it once more, and a writer waits for it. -/
def Renews (Again : L → Prop) (s : System ι L A) (i : ι) : Prop :=
  ∃ l, Again l ∧ s.Waits i l .shared ∧ (l, .shared) ∈ (s.cpu i).held ∧ ∃ j, s.Waits j l .exclusive

/-- Some processor can go on, or one of the two things has happened that the order of the locks does
not rule out. -/
def GoesOn (Again : L → Prop) (s : System ι L A) : Prop :=
  ∃ i, s.Free i ∨ s.Stranded i ∨ s.Renews Again i

end System

omit [DecidableEq L] in
/-- Who waits in vain waits for a holder. -/
theorem System.holder_of_not_permits {l : L} {m : Mode} (hwaits : s.Waits i l m)
    (h : ¬ s.Permits l m) : s.Stranded i ∨ ∃ j h, (l, h) ∈ (s.cpu j).held := by
  rcases not_and_or.mp h with h | h
  · push Not at h
    obtain ⟨j, x, hx, rfl, _⟩ := h
    exact Or.inr ⟨j, x.2, hx⟩
  · push Not at h
    obtain ⟨x, hx, rfl, hnot⟩ := h
    exact Or.inl ⟨_, m, hwaits, x, hx, rfl, fun hm => hnot hm.1 hm.2⟩

omit [DecidableEq L] in
/-- A processor that waits for `l` goes on, or somebody holds `l` and has to. -/
theorem System.goesOn_of_waits {l : L} {m : Mode} (hwaits : s.Waits i l m)
    (hhold : ∀ j h, (l, h) ∈ (s.cpu j).held → s.GoesOn Again) : s.GoesOn Again := by
  have hfree : ∀ k m', s.Waits k l m' → s.Permits l m' →
      (m' = .shared → ∀ j, ¬ s.Waits j l .exclusive) → s.GoesOn Again := by
    intro k m' hk hpermits hwriter
    refine ⟨k, Or.inl ⟨Or.inl fun hnil => ?_, fun l' m'' hk' => ?_⟩⟩
    · rw [System.Waits, hnil] at hk
      cases hk
    · cases hk.symm.trans hk'
      exact ⟨hpermits, hwriter⟩
  have hblocked : ∀ k m', s.Waits k l m' → ¬ s.Permits l m' → s.GoesOn Again := by
    intro k m' hk hnot
    rcases holder_of_not_permits hk hnot with hstranded | ⟨j, h, hj⟩
    · exact ⟨k, Or.inr (Or.inl hstranded)⟩
    · exact hhold j h hj
  by_cases hpermits : s.Permits l m
  · by_cases hwriter : ∃ k, s.Waits k l .exclusive
    · obtain ⟨k, hk⟩ := hwriter
      by_cases hpermits' : s.Permits l .exclusive
      · exact hfree k _ hk hpermits' fun hm => nomatch hm
      · exact hblocked k _ hk hpermits'
    · exact hfree i m hwaits hpermits fun _ j hj => hwriter ⟨j, hj⟩
  · exact hblocked i m hwaits hpermits

/-- Whoever holds a lock goes on, or waits for somebody who does, and so on upwards. -/
theorem Inv.goesOn_of_held {bound : ℕ} (h : Inv rank Again Covers s) (hbound : ∀ l, rank l < bound)
    (n : ℕ) : ∀ j l m, (l, m) ∈ (s.cpu j).held → bound - rank l = n → s.GoesOn Again := by
  induction n using Nat.strongRecOn with
  | ind n ih =>
    intro j l m hheld hn
    by_cases hwaits : ∃ l' m', s.Waits j l' m'
    · obtain ⟨l', m', hwaits⟩ := hwaits
      obtain ⟨ops, heq⟩ := List.head?_eq_some_iff.mp hwaits
      have hrest := h.disciplined j
      rw [heq] at hrest
      rcases hrest.1 with habove | ⟨rfl, hagain, hshared⟩
      · have hlt : rank l < rank l' := habove _ hheld
        refine System.goesOn_of_waits hwaits fun k m'' hk => ih _ ?_ k l' m'' hk rfl
        have := hbound l'
        omega
      · by_cases hwriter : ∃ k, s.Waits k l' .exclusive
        · exact ⟨j, Or.inr (Or.inr ⟨l', hagain, hwaits, hshared, hwriter⟩)⟩
        · refine ⟨j, Or.inl ⟨Or.inr (List.ne_nil_of_mem hheld), fun l'' m'' hj => ?_⟩⟩
          cases hwaits.symm.trans hj
          refine ⟨⟨fun k x hx hxl => ?_, fun x hx hxl => ?_⟩, fun _ k hk => hwriter ⟨k, hk⟩⟩
          · cases hxm : x.2 with
            | shared => exact ⟨rfl, rfl⟩
            | exclusive =>
              have hx' : (l', Mode.exclusive) ∈ (s.cpu k).held := by
                rw [← hxl, ← hxm]
                exact hx
              cases (h.sole k l' hx' j _ hshared).2
          · exact ⟨rfl, (h.beside x hx j _ (hxl ▸ hshared)).2⟩
    · exact ⟨j, Or.inl ⟨Or.inr (List.ne_nil_of_mem hheld), fun l' m' hj =>
        absurd ⟨l', m', hj⟩ hwaits⟩⟩

/-- **No deadlock.**  While a processor is in a call, some processor can go on. -/
theorem Inv.goesOn {bound : ℕ} (h : Inv rank Again Covers s) (hbound : ∀ l, rank l < bound)
    (hbusy : s.Busy i) : s.GoesOn Again := by
  by_cases hwaits : ∃ l m, s.Waits i l m
  · obtain ⟨l, m, hwaits⟩ := hwaits
    exact System.goesOn_of_waits hwaits fun j m' hj => h.goesOn_of_held hbound _ j l m' hj rfl
  · exact ⟨i, Or.inl ⟨hbusy, fun l m hi => absurd ⟨l, m, hi⟩ hwaits⟩⟩

end
end RankedLocks
