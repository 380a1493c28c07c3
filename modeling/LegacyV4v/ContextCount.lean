import LegacyV4v.ContextRefs
import Mathlib.Algebra.Order.BigOperators.Group.List
import Mathlib.Algebra.Order.Group.Nat
import Mathlib.Data.List.Nodup

/-! # What the references to contexts add up to

What the count of a context is to be, and when a run is careful.  Every step has something to rely on: it holds a
reference to the context, or its caller has a handle, and behind a routine that unlinks a context there is one that
drops a reference.  The invariant says this of all routines, and of each context that its count is right; here are
the rules for the steps that change at most one context. -/
namespace V4v.Windows

/-- The references that a step drops, or hands on. -/
def RefOp.held : RefOp → List Nat
  | .cleanup ctx | .release ctx | .drop ctx _ | .releaseLocked ctx => [ctx]
  | .accept .initFile _ actx _ | .accept .share _ actx _ | .accept .setType _ actx _
  | .accept .setState _ actx _ | .accept .insert _ actx _ => [actx]
  | .accept .setListener ctx actx _ => [ctx, actx]
  | _ => []

/-- How many of them are references to `ctx`. -/
def RefOp.heldAt (ctx : Nat) (op : RefOp) : Nat := op.held.count ctx

/-- The context is about to be freed. -/
def RefOp.freesAt (ctx : Nat) (op : RefOp) : Nat := if op = .free ctx then 1 else 0

/-- There is an accept IRP to be taken, if one is queued. -/
def Finds.takes : Finds → Bool
  | .accept _ => true
  | _ => false

namespace RefRun
variable (s : RefRun)

/-- The sum over the steps that the routines have still to make. -/
def total (μ : RefOp → Nat) : Nat := (s.running.flatten.map μ).sum

/-- The references that are held by running code. -/
def temporary (ctx : Nat) : Nat := s.total (RefOp.heldAt ctx)

/-- How many routines are about to free the context. -/
def freeing (ctx : Nat) : Nat := s.total (RefOp.freesAt ctx)

/-- The listener of a context that is referenced. -/
def liveListener (actx : Nat) : Option Nat :=
  (s.contexts actx).bind fun x => if x.refc = 0 then none else x.listenerContext

/-- The live accepters of a listener. -/
def accepters (ctx : Nat) : Nat := s.created.countP fun actx => s.liveListener actx == some ctx

/-- The queued accept IRPs for an accepter. -/
def irpsFor (ctx : Nat) : Nat := (s.acceptIrps.map Prod.snd).count ctx

/-- All that should be counted. -/
def references (ctx : Nat) : Nat :=
  (if ctx ∈ s.contextList then 1 else 0) + (if ctx ∈ s.opened then 1 else 0) + s.irpsFor ctx +
    s.accepters ctx + s.temporary ctx

/-- **The contexts are accounted for**: every count is right, and `contextCount` too; a context is being freed
when its count is 0, and by one routine; no context is accessed when it is gone; and none remains when the handles
are closed and there is no IRP and no routine. -/
structure Accounted : Prop where
  refc : ∀ ctx x, s.contexts ctx = some x → x.refc = s.references ctx
  count : s.contextCount = s.contextList.length
  freed : ∀ ctx, s.freeing ctx = if (s.contexts ctx).any fun x => x.refc == 0 then 1 else 0
  strayed : s.strayed = []
  gone : s.opened = [] → s.acceptIrps = [] → s.otherIrps = [] → s.running.flatten = [] →
    ∀ ctx, s.contexts ctx = none

/-! ## Careful runs -/

def typeOf (ctx : Nat) : FileType := ((s.contexts ctx).map CountedContext.type).getD .unspecified

def listenerOf (ctx : Nat) : Option Nat := (s.contexts ctx).bind CountedContext.listenerContext

/-- A file becomes a listener or an accepter once; an accept IRP is queued; and when it is taken its accepter has
a handle. -/
def CarefulOp (finds : Finds) : RefOp → Prop
  | .retype ctx _ _ => s.typeOf ctx ≠ .listener ∧ s.listenerOf ctx = none
  | .accept .setListener _ actx _ => s.typeOf actx ≠ .listener ∧ s.listenerOf actx = none
  | .accept .insert _ _ fate => fate.queued = true
  | .doAccepts ctx => finds.takes = true → ∀ p ∈ s.acceptIrps.find? fun p => p.1 == ctx, p.2 ∈ s.opened
  | _ => True

/-- This holds of the next step of a routine. -/
def CarefulNext (finds : Finds) : Option (List RefOp) → Prop
  | some (op :: _) => s.CarefulOp finds op
  | _ => True

/-- Moreover, a handle is not closed while there is a call for the file; an accept IRP is cancelled only when its
accepter is ACCEPTING, and another IRP only when the context of its file is there. -/
def Careful : RefAct → Prop
  | .close ctx => ∀ ops ∈ s.running, .leave ctx ∉ ops
  | .cancelAccept _ actx => (s.contexts actx).map CountedContext.state = some .accepting
  | .cancelOther ctx => s.contexts ctx ≠ none
  | .perform i finds => s.CarefulNext finds s.running[i]?
  | _ => True

end RefRun

/-! ## What the steps of a routine rely on -/

/-- A reference that a step holds, or a handle that the caller has, keeps the context. -/
def RefOp.anchors : RefOp → List Nat
  | .leave ctx => [ctx]
  | op => op.held

/-- The cleanup of the file is still to take the context off the list. -/
def RefOp.cleansAt (ctx : Nat) (op : RefOp) : Nat := if op = .cleanup ctx ∨ op = .unlink ctx then 1 else 0

/-- The context is about to become an accepter. -/
def RefOp.setsAt (ctx : Nat) : RefOp → Nat
  | .accept .setType _ actx _ => if actx = ctx then 1 else 0
  | _ => 0

/-- The steps that hold nothing, and are none of a cleanup. -/
def RefOp.Idle (op : RefOp) : Prop :=
  op.held = [] ∧ ∀ ctx, op ≠ .free ctx ∧ op ≠ .cleanup ctx ∧ op ≠ .unlink ctx

/-- A context is kept until the steps are done. -/
def Keeps (ops : List RefOp) (ctx : Nat) : Prop := ctx ∈ ops.flatMap RefOp.anchors

/-- It is a listener or an accepter for ever more. -/
def FileType.Fixed (type : FileType) : Prop := type = .listener ∨ type = .accepter

namespace AcceptPc

/-- The handle was looked up. -/
def lookedUp : AcceptPc → Prop
  | .readState | .lookUp => False
  | _ => True

/-- Its listener is stored. -/
def stored : AcceptPc → Prop
  | .setType | .setState | .insert => True
  | _ => False

/-- It has its type. -/
def typed : AcceptPc → Prop
  | .setState | .insert => True
  | _ => False

variable {pc : AcceptPc}

theorem lookedUp_of_stored (h : pc.stored) : pc.lookedUp := by
  cases pc <;> trivial

theorem stored_of_typed (h : pc.typed) : pc.stored := by
  cases pc <;> trivial

end AcceptPc

namespace RefRun
variable {s t : RefRun} {op : RefOp} {rest push ops : List RefOp} {ctx actx l : Nat} {x : CountedContext}

/-- What a step relies on, with the others behind it. -/
def Req (s : RefRun) (rest : List RefOp) : RefOp → Prop
  | .touch ctx | .doAccepts ctx | .contextReads ctx | .listenerReads ctx _ => Keeps rest ctx
  | .exchange ctx new => Keeps rest ctx ∧ (new = .listening → s.typeOf ctx = .listener)
  | .ctrl ctx _ type new =>
    .leave ctx ∈ rest ∧ type ≠ some .accepter ∧ (new = .listening → type = some .listener)
  | .retype ctx type new => .leave ctx ∈ rest ∧ type ≠ .accepter ∧ (new = .listening → type = .listener)
  | .leave ctx => ctx ∈ s.opened
  | .cleanup ctx => ctx ∉ s.opened
  | .unlink ctx => .release ctx ∈ rest ∧ ctx ∉ s.opened ∧ s.typeOf ctx ≠ .listener
  | .release ctx => .leave ctx ∈ rest ∨ ctx ∉ s.opened ∨ (s.typeOf ctx).Fixed
  | .drop ctx val =>
    .leave ctx ∈ rest ∨ val = s.typeOf ctx ∧ (ctx ∉ s.opened ∨ (s.typeOf ctx).Fixed)
  | .releaseLocked _ | .free _ => True
  | .accept pc ctx actx _ =>
    .leave ctx ∈ rest ∧ (pc ≠ .readState → s.typeOf ctx = .listener) ∧ (pc.lookedUp → .leave actx ∈ rest) ∧
      (pc.stored → s.listenerOf actx = some ctx) ∧ (pc.typed → s.typeOf actx = .accepter)

/-- What the steps of a routine rely on. -/
def Ready (s : RefRun) : List RefOp → Prop
  | [] => True
  | op :: rest => s.Req rest op ∧ s.Ready rest

/-- A context is as it was, in what is for ever. -/
structure Agrees (s t : RefRun) (ctx : Nat) : Prop where
  listener : s.typeOf ctx = .listener → t.typeOf ctx = .listener
  accepter : s.typeOf ctx = .accepter → t.typeOf ctx = .accepter
  listens : ∀ l, s.listenerOf ctx = some l → t.listenerOf ctx = some l
  closed : ctx ∉ s.opened → ctx ∉ t.opened ∧ t.typeOf ctx = s.typeOf ctx

theorem Agrees.fixed (h : Agrees s t ctx) (hfixed : (s.typeOf ctx).Fixed) :
    t.typeOf ctx = s.typeOf ctx ∧ (t.typeOf ctx).Fixed := by
  rcases hfixed with htype | htype
  · rw [h.listener htype, htype]
    exact ⟨rfl, .inl rfl⟩
  · rw [h.accepter htype, htype]
    exact ⟨rfl, .inr rfl⟩

theorem keeps_cons : Keeps (op :: rest) ctx ↔ ctx ∈ op.anchors ∨ Keeps rest ctx := by
  unfold Keeps
  rw [List.flatMap_cons, List.mem_append]

theorem keeps_append : Keeps (push ++ rest) ctx ↔ Keeps push ctx ∨ Keeps rest ctx := by
  unfold Keeps
  rw [List.flatMap_append, List.mem_append]

theorem keeps_of_mem (h : op ∈ ops) (hctx : ctx ∈ op.anchors) : Keeps ops ctx :=
  List.mem_flatMap.mpr ⟨op, h, hctx⟩

theorem keeps_of_leave (h : .leave ctx ∈ ops) : Keeps ops ctx := keeps_of_mem h List.mem_cons_self

theorem keeps_of_release (h : .release ctx ∈ ops) : Keeps ops ctx := keeps_of_mem h List.mem_cons_self

theorem Req.mono (h : s.Req rest op) (ha : ∀ ctx, Keeps (op :: rest) ctx → Agrees s t ctx)
    (hopened : ∀ ctx, op = .leave ctx → ctx ∈ s.opened → ctx ∈ t.opened) : t.Req rest op := by
  have hrest : ∀ ctx, Keeps rest ctx → Agrees s t ctx := fun ctx hk => ha ctx (keeps_cons.mpr (.inr hk))
  have hself : ∀ ctx, ctx ∈ op.anchors → Agrees s t ctx := fun ctx hk => ha ctx (keeps_cons.mpr (.inl hk))
  cases op with
  | touch ctx | doAccepts ctx | contextReads ctx | listenerReads ctx _ => exact h
  | exchange ctx new => exact ⟨h.1, fun hnew => (hrest ctx h.1).listener (h.2 hnew)⟩
  | ctrl ctx wants type new | retype ctx type new => exact h
  | leave ctx => exact hopened ctx rfl h
  | cleanup ctx => exact ((hself ctx List.mem_cons_self).closed h).1
  | unlink ctx =>
    obtain ⟨hrel, hclosed, htype⟩ := h
    obtain ⟨hclosed', heq⟩ := (hrest ctx (keeps_of_release hrel)).closed hclosed
    exact ⟨hrel, hclosed', heq ▸ htype⟩
  | release ctx =>
    have hagree := hself ctx List.mem_cons_self
    exact h.imp_right fun h => h.imp (fun hclosed => (hagree.closed hclosed).1) fun hfixed => (hagree.fixed hfixed).2
  | drop ctx val =>
    have hagree := hself ctx List.mem_cons_self
    refine h.imp_right fun ⟨hval, hor⟩ => ?_
    rcases hor with hclosed | hfixed
    · exact ⟨hval.trans (hagree.closed hclosed).2.symm, .inl (hagree.closed hclosed).1⟩
    · exact ⟨hval.trans (hagree.fixed hfixed).1.symm, .inr (hagree.fixed hfixed).2⟩
  | releaseLocked ctx | free ctx => trivial
  | accept pc ctx actx fate =>
    obtain ⟨hctx, htype, hactx, hstored, htyped⟩ := h
    refine ⟨hctx, fun hpc => (hrest ctx (keeps_of_leave hctx)).listener (htype hpc), hactx, fun hpc => ?_, fun hpc => ?_⟩
    · exact (hrest actx (keeps_of_leave (hactx (AcceptPc.lookedUp_of_stored hpc)))).listens ctx (hstored hpc)
    · have hlooked := AcceptPc.lookedUp_of_stored (AcceptPc.stored_of_typed hpc)
      exact (hrest actx (keeps_of_leave (hactx hlooked))).accepter (htyped hpc)

theorem Ready.mono (h : s.Ready ops) (ha : ∀ ctx, Keeps ops ctx → Agrees s t ctx)
    (hopened : ∀ ctx, .leave ctx ∈ ops → ctx ∈ s.opened → ctx ∈ t.opened) : t.Ready ops := by
  induction ops with
  | nil => trivial
  | cons op rest ih =>
    refine ⟨h.1.mono ha fun ctx hop hctx => hopened ctx (hop ▸ List.mem_cons_self) hctx, ?_⟩
    exact ih h.2 (fun ctx hk => ha ctx (keeps_cons.mpr (.inr hk)))
      fun ctx hctx => hopened ctx (List.mem_cons_of_mem _ hctx)

/-- A handle that the caller has is open. -/
theorem Ready.opened (h : s.Ready ops) (hmem : .leave ctx ∈ ops) : ctx ∈ s.opened := by
  induction ops with
  | nil => cases hmem
  | cons op rest ih =>
    rcases List.mem_cons.mp hmem with rfl | hmem
    · exact h.1
    · exact ih h.2 hmem

/-! ## The invariant -/

def refcOf (s : RefRun) (ctx : Nat) : Nat := ((s.contexts ctx).map CountedContext.refc).getD 0

/-- The cleanups of the file that are still to take its context off the list. -/
def cleaning (s : RefRun) (ctx : Nat) : Nat := s.total (RefOp.cleansAt ctx)

/-- The calls that are about to make it an accepter. -/
def setting (s : RefRun) (ctx : Nat) : Nat := s.total (RefOp.setsAt ctx)

/-- What the type of a context says. -/
structure Typed (s : RefRun) (ctx : Nat) : Prop where
  alone : s.typeOf ctx = .listener → s.listenerOf ctx = none
  accepter : s.typeOf ctx = .accepter → s.listenerOf ctx ≠ none
  setting : s.listenerOf ctx ≠ none → s.typeOf ctx = .accepter ∨ 0 < s.setting ctx
  listening : ∀ x, s.contexts ctx = some x → x.state = .listening → x.type = .listener
  created : s.contexts ctx ≠ none → ctx ∈ s.created

/-- What holds of a context. -/
structure Good (s : RefRun) (ctx : Nat) : Prop extends s.Typed ctx where
  refs : s.refcOf ctx = s.contextList.count ctx + s.opened.count ctx + s.irpsFor ctx + s.accepters ctx +
    s.temporary ctx
  freed : s.freeing ctx = if (s.contexts ctx).any fun x => x.refc == 0 then 1 else 0
  once : s.contextList.count ctx ≤ 1
  opened : s.opened.count ctx ≤ s.contextList.count ctx
  cleaning : s.cleaning ctx ≤ s.contextList.count ctx
  listed : 0 < s.contextList.count ctx →
    0 < s.opened.count ctx ∨ s.typeOf ctx = .listener ∨ 0 < s.cleaning ctx
  listener : s.typeOf ctx = .listener → 0 < s.refcOf ctx → 0 < s.contextList.count ctx ∧ 2 ≤ s.refcOf ctx

/-- What holds of all together. -/
structure Sound (s : RefRun) : Prop where
  good : ∀ ctx, s.Good ctx
  listens : ∀ actx l, s.liveListener actx = some l → s.typeOf l = .listener
  irps : ∀ p ∈ s.acceptIrps, s.listenerOf p.2 = some p.1 ∧ s.typeOf p.2 = .accepter
  ready : ∀ ops ∈ s.running, s.Ready ops
  count : s.contextCount = s.contextList.length
  created : s.created.Nodup
  strayed : s.strayed = []

theorem le_total {μ : RefOp → Nat} (hops : ops ∈ s.running) (hop : op ∈ ops) : μ op ≤ s.total μ :=
  List.le_sum_of_mem
    (List.mem_map_of_mem (List.mem_flatten.mpr ⟨ops, hops, hop⟩))

/-- **Who has the context in hand finds it there.** -/
theorem Sound.kept (h : s.Sound) (hops : ops ∈ s.running) (hk : Keeps ops ctx) : 0 < s.refcOf ctx := by
  obtain ⟨op, hop, hctx⟩ := List.mem_flatMap.mp hk
  have hrefs := (h.good ctx).refs
  by_cases hleave : op = .leave ctx
  · have hopened := (h.ready ops hops).opened (hleave ▸ hop)
    have := List.count_pos_iff.mpr hopened
    omega
  · have hheld : ctx ∈ op.held := by
      cases op with
      | leave c => exact absurd (by rw [List.mem_singleton.mp hctx]) hleave
      | _ => exact hctx
    have hone : op.heldAt ctx ≤ s.temporary ctx := le_total hops hop
    have : 0 < op.heldAt ctx := List.count_pos_iff.mpr hheld
    omega

theorem exists_of_refcOf (h : 0 < s.refcOf ctx) : ∃ x, s.contexts ctx = some x ∧ s.refcOf ctx = x.refc := by
  unfold refcOf at h ⊢
  cases hctx : s.contexts ctx with
  | none =>
    rw [hctx] at h
    exact absurd h (Nat.lt_irrefl 0)
  | some x => exact ⟨x, rfl, rfl⟩

/-! ## A routine makes a step -/

/-- The step `op` of a routine is replaced by `push`. -/
def Turn (s t : RefRun) (op : RefOp) (rest push : List RefOp) : Prop :=
  ∃ l₁ l₂, s.running = l₁ ++ (op :: rest) :: l₂ ∧ t.running = l₁ ++ (push ++ rest) :: l₂

theorem Turn.total (h : Turn s t op rest push) (μ : RefOp → Nat) :
    t.total μ + μ op = s.total μ + (push.map μ).sum := by
  obtain ⟨l₁, l₂, hs, ht⟩ := h
  unfold RefRun.total
  rw [hs, ht]
  simp only [List.flatten_append, List.flatten_cons, List.map_append, List.map_cons, List.sum_append, List.sum_cons]
  omega

/-- Steps are taken away, and others come. -/
def Work (s t : RefRun) (taken given : List RefOp) : Prop :=
  ∀ μ : RefOp → Nat, t.total μ + (taken.map μ).sum = s.total μ + (given.map μ).sum

theorem Work.counts {taken given : List RefOp} (h : Work s t taken given) (ctx : Nat) :
    t.temporary ctx + (taken.map (RefOp.heldAt ctx)).sum = s.temporary ctx + (given.map (RefOp.heldAt ctx)).sum ∧
    t.freeing ctx + (taken.map (RefOp.freesAt ctx)).sum = s.freeing ctx + (given.map (RefOp.freesAt ctx)).sum ∧
    t.cleaning ctx + (taken.map (RefOp.cleansAt ctx)).sum = s.cleaning ctx + (given.map (RefOp.cleansAt ctx)).sum ∧
    t.setting ctx + (taken.map (RefOp.setsAt ctx)).sum = s.setting ctx + (given.map (RefOp.setsAt ctx)).sum :=
  ⟨h _, h _, h _, h _⟩

theorem Turn.work (h : Turn s t op rest push) : Work s t [op] push := by
  intro μ
  have htotal := h.total μ
  rw [List.map_singleton, List.sum_singleton]
  exact htotal

theorem work_begin (h : t.running = s.running ++ [ops]) : Work s t [] ops := by
  intro μ
  unfold RefRun.total
  rw [h]
  simp only [List.flatten_append, List.flatten_cons, List.flatten_nil, List.append_nil, List.map_append,
    List.sum_append, List.map_nil, List.sum_nil, Nat.add_zero]

theorem Turn.counts (h : Turn s t op rest push) (ctx : Nat) :
    t.temporary ctx + op.heldAt ctx = s.temporary ctx + (push.map (RefOp.heldAt ctx)).sum ∧
    t.freeing ctx + op.freesAt ctx = s.freeing ctx + (push.map (RefOp.freesAt ctx)).sum ∧
    t.cleaning ctx + op.cleansAt ctx = s.cleaning ctx + (push.map (RefOp.cleansAt ctx)).sum ∧
    t.setting ctx + op.setsAt ctx = s.setting ctx + (push.map (RefOp.setsAt ctx)).sum :=
  ⟨h.total _, h.total _, h.total _, h.total _⟩

theorem Turn.mem (h : Turn s t op rest push) : op :: rest ∈ s.running := by
  obtain ⟨l₁, l₂, hs, -⟩ := h
  rw [hs]
  exact List.mem_append_right _ List.mem_cons_self

/-! ## What a step does not change -/

/-- All of a context but its state. -/
def shape (x : CountedContext) : Nat × FileType × Option Nat := (x.refc, x.type, x.listenerContext)

/-- Nothing of the context is changed but its state. -/
def SameContext (s t : RefRun) (ctx : Nat) : Prop := (t.contexts ctx).map shape = (s.contexts ctx).map shape

theorem sameContext_of_eq (h : t.contexts ctx = s.contexts ctx) : SameContext s t ctx := congrArg _ h

/-- Nothing of the context is changed but its state, and the step is none of those that matter for it; a
reference may be handed on. -/
structure SameView (s t : RefRun) (ctx : Nat) : Prop where
  context : SameContext s t ctx
  listed : t.contextList.count ctx = s.contextList.count ctx
  opened : t.opened.count ctx = s.opened.count ctx
  shared : t.irpsFor ctx + t.accepters ctx + t.temporary ctx = s.irpsFor ctx + s.accepters ctx + s.temporary ctx
  freeing : t.freeing ctx = s.freeing ctx
  cleaning : t.cleaning ctx = s.cleaning ctx
  setting : t.setting ctx = s.setting ctx
  listening : ∀ x, t.contexts ctx = some x → x.state = .listening → x.type = .listener
  created : ctx ∈ s.created → ctx ∈ t.created

section
variable (h : SameContext s t ctx)
include h

theorem refcOf_congr : t.refcOf ctx = s.refcOf ctx := by
  unfold refcOf
  have := congrArg (Option.map Prod.fst) h
  rw [Option.map_map, Option.map_map] at this
  exact congrArg (Option.getD · 0) this

theorem typeOf_congr : t.typeOf ctx = s.typeOf ctx := by
  unfold typeOf
  have := congrArg (Option.map fun x => x.2.1) h
  rw [Option.map_map, Option.map_map] at this
  exact congrArg (Option.getD · .unspecified) this

theorem listenerOf_congr : t.listenerOf ctx = s.listenerOf ctx := by
  unfold listenerOf
  have := congrArg (Option.bind · fun x => x.2.2) h
  rw [Option.bind_map, Option.bind_map] at this
  exact this

theorem liveListener_congr : t.liveListener ctx = s.liveListener ctx := by
  unfold liveListener
  have := congrArg (Option.bind · fun x => if x.1 = 0 then none else x.2.2) h
  rw [Option.bind_map, Option.bind_map] at this
  exact this

theorem any_congr : ((t.contexts ctx).any fun x => x.refc == 0) = (s.contexts ctx).any fun x => x.refc == 0 := by
  have := congrArg (Option.any fun x => x.1 == 0) h
  rw [Option.any_map, Option.any_map] at this
  exact this

theorem ne_none_congr (hne : t.contexts ctx ≠ none) : s.contexts ctx ≠ none := by
  intro hnone
  rw [SameContext, hnone] at h
  exact hne (Option.map_eq_none_iff.mp h)

end

theorem Typed.congr (h : s.Typed ctx) (hcontext : SameContext s t ctx) (hset : t.setting ctx = s.setting ctx)
    (hlistening : ∀ x, t.contexts ctx = some x → x.state = .listening → x.type = .listener)
    (hcreated : ctx ∈ s.created → ctx ∈ t.created) : t.Typed ctx := by
  have htype := typeOf_congr hcontext
  have hlistener := listenerOf_congr hcontext
  constructor
  · rw [htype, hlistener]
    exact h.alone
  · rw [htype, hlistener]
    exact h.accepter
  · rw [htype, hlistener, hset]
    exact h.setting
  · exact hlistening
  · exact fun hne => hcreated (h.created (ne_none_congr hcontext hne))

theorem Good.congr (h : s.Good ctx) (hv : SameView s t ctx) : t.Good ctx := by
  have hrefc := refcOf_congr hv.context
  have htype := typeOf_congr hv.context
  have hrefs := h.refs
  have hshared := hv.shared
  constructor
  · exact h.toTyped.congr hv.context hv.setting hv.listening hv.created
  · rw [hrefc, hv.listed, hv.opened]
    omega
  · rw [hv.freeing, any_congr hv.context]
    exact h.freed
  · rw [hv.listed]
    exact h.once
  · rw [hv.listed, hv.opened]
    exact h.opened
  · rw [hv.listed, hv.cleaning]
    exact h.cleaning
  · rw [hv.listed, hv.opened, hv.cleaning, htype]
    exact h.listed
  · rw [hv.listed, hrefc, htype]
    exact h.listener

theorem agrees_congr (h : SameContext s t ctx) (hopened : ctx ∉ s.opened → ctx ∉ t.opened) : Agrees s t ctx := by
  have htype := typeOf_congr h
  have hlistener := listenerOf_congr h
  exact ⟨fun heq => htype.trans heq, fun heq => htype.trans heq, fun l heq => hlistener.trans heq,
    fun hclosed => ⟨hopened hclosed, htype⟩⟩

/-- The other routines rely on what they relied on. -/
theorem Sound.ready_turn (h : s.Sound) (hturn : Turn s t op rest push)
    (ha : ∀ ops ∈ s.running, ∀ ctx, Keeps ops ctx → Agrees s t ctx) (hopened : t.opened = s.opened)
    (hpush : t.Ready rest → t.Ready (push ++ rest)) : ∀ ops ∈ t.running, t.Ready ops := by
  obtain ⟨l₁, l₂, hs, ht⟩ := hturn
  have hmono : ∀ ops ∈ s.running, t.Ready ops := fun ops hops =>
    (h.ready ops hops).mono (ha ops hops) fun ctx _ hctx => hopened ▸ hctx
  intro ops hops
  rw [ht] at hops
  rw [hs] at hmono
  rcases List.mem_append.mp hops with hops | hops
  · exact hmono ops (List.mem_append_left _ hops)
  rcases List.mem_cons.mp hops with rfl | hops
  · exact hpush (hmono _ (List.mem_append_right _ List.mem_cons_self)).2
  · exact hmono ops (List.mem_append_right _ (List.mem_cons_of_mem _ hops))

/-- ... and so do they when a routine begins. -/
theorem ready_begin (hrun : t.running = s.running ++ [ops]) (hold : ∀ ops ∈ s.running, t.Ready ops)
    (hnew : t.Ready ops) : ∀ ops ∈ t.running, t.Ready ops := by
  intro ops' hmem
  rw [hrun] at hmem
  rcases List.mem_append.mp hmem with hmem | hmem
  · exact hold ops' hmem
  · exact List.mem_singleton.mp hmem ▸ hnew

/-- No context is changed but in its state. -/
structure SameShape (s t : RefRun) : Prop where
  contexts : ∀ ctx, SameContext s t ctx
  contextList : t.contextList = s.contextList
  contextCount : t.contextCount = s.contextCount
  opened : t.opened = s.opened
  created : t.created = s.created
  strayed : t.strayed = s.strayed

theorem SameShape.agrees (h : SameShape s t) (ctx : Nat) : Agrees s t ctx :=
  agrees_congr (h.contexts ctx) fun hclosed => h.opened ▸ hclosed

theorem SameShape.ready (h : SameShape s t) (hready : s.Ready ops) : t.Ready ops :=
  hready.mono (fun c _ => h.agrees c) fun _ _ hc => h.opened ▸ hc

theorem SameShape.accepters (h : SameShape s t) (ctx : Nat) : t.accepters ctx = s.accepters ctx := by
  unfold RefRun.accepters
  rw [h.created]
  refine List.countP_congr fun actx _ => ?_
  rw [liveListener_congr (h.contexts actx)]

/-- The same is counted of the steps. -/
structure Alike (taken given : List RefOp) : Prop where
  held : ∀ ctx, (given.map (RefOp.heldAt ctx)).sum = (taken.map (RefOp.heldAt ctx)).sum
  frees : ∀ ctx, (given.map (RefOp.freesAt ctx)).sum = (taken.map (RefOp.freesAt ctx)).sum
  cleans : ∀ ctx, (given.map (RefOp.cleansAt ctx)).sum = (taken.map (RefOp.cleansAt ctx)).sum
  sets : ∀ ctx, (given.map (RefOp.setsAt ctx)).sum = (taken.map (RefOp.setsAt ctx)).sum

theorem Work.alike {taken given : List RefOp} (h : Work s t taken given) (hsame : Alike taken given) (ctx : Nat) :
    t.temporary ctx = s.temporary ctx ∧ t.freeing ctx = s.freeing ctx ∧ t.cleaning ctx = s.cleaning ctx ∧
      t.setting ctx = s.setting ctx := by
  obtain ⟨hheld, hfrees, hcleans, hsets⟩ := h.counts ctx
  rw [hsame.held] at hheld
  rw [hsame.frees] at hfrees
  rw [hsame.cleans] at hcleans
  rw [hsame.sets] at hsets
  exact ⟨Nat.add_right_cancel hheld, Nat.add_right_cancel hfrees, Nat.add_right_cancel hcleans,
    Nat.add_right_cancel hsets⟩

/-- **A step that only hands references on**, from routines to IRPs or back. -/
theorem Sound.handed (h : s.Sound) (hsame : SameShape s t)
    (hshared : ∀ ctx, t.irpsFor ctx + t.temporary ctx = s.irpsFor ctx + s.temporary ctx)
    (hwork : ∀ ctx, t.freeing ctx = s.freeing ctx ∧ t.cleaning ctx = s.cleaning ctx ∧ t.setting ctx = s.setting ctx)
    (hirps : ∀ p ∈ t.acceptIrps, s.listenerOf p.2 = some p.1 ∧ s.typeOf p.2 = .accepter)
    (hlistening : ∀ ctx x, t.contexts ctx = some x → x.state = .listening → x.type = .listener)
    (hready : ∀ ops ∈ t.running, t.Ready ops) : t.Sound := by
  have hview : ∀ ctx, SameView s t ctx := fun ctx => by
    obtain ⟨hfrees, hcleans, hsets⟩ := hwork ctx
    have hsum := hshared ctx
    have hacc := hsame.accepters ctx
    exact ⟨hsame.contexts ctx, by rw [hsame.contextList], by rw [hsame.opened], by omega, hfrees, hcleans, hsets,
      hlistening ctx, fun hmem => hsame.created ▸ hmem⟩
  refine ⟨fun ctx => (h.good ctx).congr (hview ctx), fun actx l hl => ?_, fun p hp => ?_, hready, ?_, ?_, ?_⟩
  · rw [liveListener_congr (hsame.contexts actx)] at hl
    rw [typeOf_congr (hsame.contexts l)]
    exact h.listens actx l hl
  · rw [listenerOf_congr (hsame.contexts p.2), typeOf_congr (hsame.contexts p.2)]
    exact hirps p hp
  · rw [hsame.contextCount, hsame.contextList]
    exact h.count
  · rw [hsame.created]
    exact h.created
  · rw [hsame.strayed]
    exact h.strayed

/-- ... or from a routine to itself. -/
theorem Sound.same (h : s.Sound) (hsame : SameShape s t) (hirps : t.acceptIrps = s.acceptIrps)
    {taken given : List RefOp} (hwork : Work s t taken given) (halike : Alike taken given)
    (hlistening : ∀ ctx x, t.contexts ctx = some x → x.state = .listening → x.type = .listener)
    (hready : ∀ ops ∈ t.running, t.Ready ops) : t.Sound :=
  h.handed hsame (fun ctx => by rw [irpsFor, irpsFor, hirps, (hwork.alike halike ctx).1])
    (fun ctx => (hwork.alike halike ctx).2) (fun p hp => h.irps p (hirps ▸ hp)) hlistening hready

/-- Such a step of a routine. -/
theorem Sound.same_turn (h : s.Sound) (hsame : SameShape s t) (hirps : t.acceptIrps = s.acceptIrps)
    (hturn : Turn s t op rest push) (halike : Alike [op] push)
    (hlistening : ∀ ctx x, t.contexts ctx = some x → x.state = .listening → x.type = .listener)
    (hpush : t.Ready rest → t.Ready (push ++ rest)) : t.Sound :=
  h.same hsame hirps hturn.work halike hlistening (h.ready_turn hturn
    (fun _ _ ctx _ => hsame.agrees ctx) hsame.opened hpush)

theorem sameShape_of_running {running : List (List RefOp)} : SameShape s { s with running := running } :=
  ⟨fun _ => rfl, rfl, rfl, rfl, rfl, rfl⟩

section
variable {l₁ l₂ : List (List RefOp)}

/-- Where a step leads to. -/
def turned (l₁ l₂ : List (List RefOp)) (rest : List RefOp) (p : RefRun × List RefOp) : RefRun :=
  { p.1 with running := l₁ ++ (p.2 ++ rest) :: l₂ }

theorem turn_turned (hs : s.running = l₁ ++ (op :: rest) :: l₂) (t : RefRun) :
    Turn s (turned l₁ l₂ rest (t, push)) op rest push := ⟨l₁, l₂, hs, rfl⟩

theorem Sound.ready_of (h : s.Sound) (hs : s.running = l₁ ++ (op :: rest) :: l₂) :
    s.Req rest op ∧ s.Ready rest :=
  h.ready (op :: rest) (hs ▸ List.mem_append_right _ List.mem_cons_self)

/-- The context of a step is there. -/
theorem Sound.found (h : s.Sound) (hs : s.running = l₁ ++ (op :: rest) :: l₂) (hk : Keeps (op :: rest) ctx) :
    ∃ x, s.contexts ctx = some x ∧ 0 < x.refc := by
  have hpos := h.kept (hs ▸ List.mem_append_right _ List.mem_cons_self) hk
  obtain ⟨x, hx, heq⟩ := exists_of_refcOf hpos
  exact ⟨x, hx, heq ▸ hpos⟩

theorem on_some {f : CountedContext → RefRun × List RefOp} (hx : s.contexts ctx = some x) : s.on ctx f = f x := by
  unfold on
  rw [hx]

/-- A step without any effect but what it puts in front. -/
theorem Sound.front (h : s.Sound) (hs : s.running = l₁ ++ (op :: rest) :: l₂) (halike : Alike [op] push)
    (hpush : s.Ready (push ++ rest)) : (turned l₁ l₂ rest (s, push)).Sound :=
  h.same_turn sameShape_of_running rfl (turn_turned hs s) halike (fun ctx => (h.good ctx).listening)
    fun _ => sameShape_of_running.ready hpush

/-- The state of a context is changed. -/
theorem sameShape_setState (hx : s.contexts ctx = some x) (new : FileState) (running : List (List RefOp)) :
    SameShape s { s.setContext ctx { x with state := new } with running := running } := by
  refine ⟨fun c => ?_, rfl, rfl, rfl, rfl, rfl⟩
  change (Function.update s.contexts ctx _ c).map _ = _
  by_cases hc : c = ctx
  · rw [hc, Function.update_self, hx]
    rfl
  · rw [Function.update_of_ne hc]

theorem typeOf_some (hx : s.contexts ctx = some x) : s.typeOf ctx = x.type := by
  unfold typeOf
  rw [hx]
  rfl

theorem listenerOf_some (hx : s.contexts ctx = some x) : s.listenerOf ctx = x.listenerContext := by
  unfold listenerOf
  rw [hx]
  rfl

theorem refcOf_some (hx : s.contexts ctx = some x) : s.refcOf ctx = x.refc := by
  unfold refcOf
  rw [hx]
  rfl

theorem typeOf_none (hnone : s.contexts ctx = none) : s.typeOf ctx = .unspecified := by
  unfold typeOf
  rw [hnone]
  rfl

theorem listenerOf_none (hnone : s.contexts ctx = none) : s.listenerOf ctx = none := by
  unfold listenerOf
  rw [hnone]
  rfl

theorem refcOf_none (hnone : s.contexts ctx = none) : s.refcOf ctx = 0 := by
  unfold refcOf
  rw [hnone]
  rfl

/-- **An exchange of the state.** -/
theorem Sound.setState (h : s.Sound) (hs : s.running = l₁ ++ (op :: rest) :: l₂) (hx : s.contexts ctx = some x)
    {new : FileState} (hnew : new = .listening → s.typeOf ctx = .listener) (halike : Alike [op] push)
    (hpush : s.Ready (push ++ rest)) :
    (turned l₁ l₂ rest (s.setContext ctx { x with state := new }, push)).Sound := by
  have hsame := sameShape_setState hx new (l₁ ++ (push ++ rest) :: l₂)
  refine h.same_turn hsame rfl (turn_turned hs _) halike (fun c y hy hlistening => ?_) fun _ => ?_
  · change Function.update s.contexts ctx _ c = some y at hy
    by_cases hc : c = ctx
    · rw [hc, Function.update_self] at hy
      cases hy
      rw [← typeOf_some hx]
      exact hnew hlistening
    · rw [Function.update_of_ne hc] at hy
      exact (h.good c).listening y hy hlistening
  · exact hsame.ready hpush

theorem weights_idle (h : RefOp.Idle op) (ctx : Nat) :
    op.heldAt ctx = 0 ∧ op.freesAt ctx = 0 ∧ op.cleansAt ctx = 0 ∧ op.setsAt ctx = 0 := by
  obtain ⟨hheld, hnone⟩ := h
  have hsets : op.setsAt ctx = 0 := by
    cases op with
    | accept pc ctx actx fate => cases pc <;> first | rfl | cases hheld
    | _ => rfl
  refine ⟨?_, if_neg (hnone ctx).1, if_neg fun hor => hor.elim (hnone ctx).2.1 (hnone ctx).2.2, hsets⟩
  rw [RefOp.heldAt, hheld]
  rfl

theorem sum_idle {ops : List RefOp} (h : ∀ op ∈ ops, RefOp.Idle op) (ctx : Nat) :
    (ops.map (RefOp.heldAt ctx)).sum = 0 ∧ (ops.map (RefOp.freesAt ctx)).sum = 0 ∧
      (ops.map (RefOp.cleansAt ctx)).sum = 0 ∧ (ops.map (RefOp.setsAt ctx)).sum = 0 := by
  induction ops with
  | nil => exact ⟨rfl, rfl, rfl, rfl⟩
  | cons op ops ih =>
    obtain ⟨w₁, w₂, w₃, w₄⟩ := weights_idle (h op List.mem_cons_self) ctx
    obtain ⟨h₁, h₂, h₃, h₄⟩ := ih fun op' hop' => h op' (List.mem_cons_of_mem _ hop')
    simp only [List.map_cons, List.sum_cons, h₁, h₂, h₃, h₄, w₁, w₂, w₃, w₄, Nat.add_zero, and_self]

theorem alike_idle {taken given : List RefOp} (htaken : ∀ op ∈ taken, RefOp.Idle op)
    (hgiven : ∀ op ∈ given, RefOp.Idle op) : Alike taken given :=
  ⟨fun ctx => (sum_idle hgiven ctx).1.trans (sum_idle htaken ctx).1.symm,
    fun ctx => (sum_idle hgiven ctx).2.1.trans (sum_idle htaken ctx).2.1.symm,
    fun ctx => (sum_idle hgiven ctx).2.2.1.trans (sum_idle htaken ctx).2.2.1.symm,
    fun ctx => (sum_idle hgiven ctx).2.2.2.trans (sum_idle htaken ctx).2.2.2.symm⟩

/-- **A step that works on one context.** -/
theorem Sound.turn_at (h : s.Sound) (hturn : Turn s t op rest push) (ctx : Nat)
    (hview : ∀ c ≠ ctx, SameView s t c) (hgood : t.Good ctx)
    (hlistens : ∀ actx l, t.liveListener actx = some l → t.typeOf l = .listener)
    (hirps : ∀ p ∈ t.acceptIrps, t.listenerOf p.2 = some p.1 ∧ t.typeOf p.2 = .accepter)
    (hcount : t.contextCount = t.contextList.length) (hcreated : t.created = s.created)
    (hstrayed : t.strayed = s.strayed) (hopened : t.opened = s.opened)
    (hagree : ∀ ops ∈ s.running, Keeps ops ctx → Agrees s t ctx)
    (hpush : t.Ready rest → t.Ready (push ++ rest)) : t.Sound := by
  refine ⟨fun c => ?_, hlistens, hirps, h.ready_turn hturn (fun ops hops c hk => ?_) hopened hpush, hcount,
    hcreated ▸ h.created, hstrayed.trans h.strayed⟩
  · by_cases hc : c = ctx
    · exact hc ▸ hgood
    · exact (h.good c).congr (hview c hc)
  · by_cases hc : c = ctx
    · subst hc
      exact hagree ops hops hk
    · exact agrees_congr (hview c hc).context fun hclosed => hopened ▸ hclosed

/-- One context has changed, and no list. -/
structure Changed (s t : RefRun) (ctx : Nat) (y : CountedContext) : Prop where
  self : t.contexts ctx = some y
  others : ∀ c ≠ ctx, t.contexts c = s.contexts c
  contextList : t.contextList = s.contextList
  contextCount : t.contextCount = s.contextCount
  opened : t.opened = s.opened
  acceptIrps : t.acceptIrps = s.acceptIrps
  created : t.created = s.created
  strayed : t.strayed = s.strayed

theorem changed_turned (y : CountedContext) :
    Changed s (turned l₁ l₂ rest (s.setContext ctx y, push)) ctx y :=
  ⟨Function.update_self .., fun _ hc => Function.update_of_ne hc .., rfl, rfl, rfl, rfl, rfl, rfl⟩

/-- The accepters of a listener, when one context has changed. -/
theorem accepters_change (hcreated : s.created.Nodup) (hmem : ctx ∈ s.created) (hsame : t.created = s.created)
    (hothers : ∀ c ≠ ctx, t.contexts c = s.contexts c) (l : Nat) :
    t.accepters l + (if s.liveListener ctx = some l then 1 else 0) =
      s.accepters l + (if t.liveListener ctx = some l then 1 else 0) := by
  obtain ⟨l₁, l₂, heq⟩ := List.append_of_mem hmem
  rw [heq, List.nodup_middle, List.nodup_cons, List.mem_append, not_or] at hcreated
  have hlive : ∀ c ≠ ctx, t.liveListener c = s.liveListener c := fun c hc => by
    rw [liveListener, liveListener, hothers c hc]
  have hpart : ∀ part : List Nat, ctx ∉ part →
      part.countP (fun a => t.liveListener a == some l) = part.countP fun a => s.liveListener a == some l := by
    intro part hpart
    refine List.countP_congr fun a ha => ?_
    rw [hlive a (by rintro rfl; exact hpart ha)]
  unfold accepters
  rw [hsame, heq, List.countP_append, List.countP_append, List.countP_cons, List.countP_cons,
    hpart l₁ hcreated.1.1, hpart l₂ hcreated.1.2]
  simp only [beq_iff_eq]
  omega

theorem Changed.accepters {y : CountedContext} (hchanged : Changed s t ctx y) (h : s.Sound)
    (hx : s.contexts ctx = some x) (l : Nat) :
    t.accepters l + (if s.liveListener ctx = some l then 1 else 0) =
      s.accepters l + (if t.liveListener ctx = some l then 1 else 0) :=
  accepters_change h.created ((h.good ctx).created (by rw [hx]; exact Option.some_ne_none x)) hchanged.created
    hchanged.others l

theorem liveListener_some (hx : s.contexts ctx = some x) :
    s.liveListener ctx = if x.refc = 0 then none else x.listenerContext := by
  unfold liveListener
  rw [hx]
  rfl

/-- **A step that changes a context, and no list.** -/
theorem Sound.turn_context {y : CountedContext} (h : s.Sound) (hturn : Turn s t op rest push)
    (hchanged : Changed s t ctx y)
    (hshared : ∀ c ≠ ctx, t.accepters c + t.temporary c = s.accepters c + s.temporary c)
    (hwork : ∀ c ≠ ctx, t.freeing c = s.freeing c ∧ t.cleaning c = s.cleaning c ∧ t.setting c = s.setting c)
    (hgood : t.Good ctx)
    (hlistens : ∀ actx l, t.liveListener actx = some l → t.typeOf l = .listener)
    (hagree : Agrees s t ctx) (hpush : t.Ready rest → t.Ready (push ++ rest)) : t.Sound := by
  refine h.turn_at hturn ctx (fun c hc => ?_) hgood hlistens (fun p hp => ?_) ?_ hchanged.created hchanged.strayed
    hchanged.opened (fun _ _ _ => hagree) hpush
  · obtain ⟨hfree, hclean, hset⟩ := hwork c hc
    have hsum := hshared c hc
    have hirps : t.irpsFor c = s.irpsFor c := by rw [irpsFor, irpsFor, hchanged.acceptIrps]
    exact ⟨sameContext_of_eq (hchanged.others c hc), by rw [hchanged.contextList], by rw [hchanged.opened], by omega,
      hfree, hclean, hset, by rw [hchanged.others c hc]; exact (h.good c).listening,
      fun hmem => hchanged.created ▸ hmem⟩
  · rw [hchanged.acceptIrps] at hp
    obtain ⟨hlistener, htype⟩ := h.irps p hp
    by_cases hc : p.2 = ctx
    · rw [hc] at hlistener htype ⊢
      exact ⟨hagree.listens _ hlistener, hagree.accepter htype⟩
    · rw [listenerOf, typeOf, hchanged.others _ hc]
      exact ⟨hlistener, htype⟩
  · rw [hchanged.contextCount, hchanged.contextList]
    exact h.count

theorem typed_some (hx : s.contexts ctx = some x) (halone : x.type = .listener → x.listenerContext = none)
    (haccepter : x.type = .accepter → x.listenerContext ≠ none)
    (hsetting : x.listenerContext ≠ none → x.type = .accepter ∨ 0 < s.setting ctx)
    (hlistening : x.state = .listening → x.type = .listener) (hcreated : ctx ∈ s.created) : s.Typed ctx := by
  constructor
  · rw [typeOf_some hx, listenerOf_some hx]
    exact halone
  · rw [typeOf_some hx, listenerOf_some hx]
    exact haccepter
  · rw [typeOf_some hx, listenerOf_some hx]
    exact hsetting
  · intro y hy
    rw [hx] at hy
    cases hy
    exact hlistening
  · exact fun _ => hcreated

theorem typed_none (hnone : s.contexts ctx = none) : s.Typed ctx := by
  have htype := typeOf_none hnone
  constructor
  · rw [htype]
    rintro ⟨⟩
  · rw [htype]
    rintro ⟨⟩
  · exact fun hne => absurd (listenerOf_none hnone) hne
  · rw [hnone]
    rintro _ ⟨⟩
  · exact fun hne => absurd hnone hne

/-- The count does not matter for the type. -/
theorem Typed.recount {n : Nat} (h : s.Typed ctx) (hx : s.contexts ctx = some x)
    (hself : t.contexts ctx = some { x with refc := n }) (hset : t.setting ctx = s.setting ctx)
    (hcreated : t.created = s.created) : t.Typed ctx := by
  have htype := typeOf_some hx
  have hlistener := listenerOf_some hx
  refine typed_some hself ?_ ?_ ?_ (h.listening x hx) ?_
  · exact htype ▸ hlistener ▸ h.alone
  · exact htype ▸ hlistener ▸ h.accepter
  · exact htype ▸ hlistener ▸ hset ▸ h.setting
  · rw [hcreated]
    exact h.created (by rw [hx]; exact Option.some_ne_none x)

/-- **The count changes**, and is not 0. -/
theorem Sound.recount (h : s.Sound) (hs : s.running = l₁ ++ (op :: rest) :: l₂) (hx : s.contexts ctx = some x)
    (hpos : 0 < x.refc) {n : Nat} (hn : 0 < n) (htwo : s.typeOf ctx = .listener → 2 ≤ n)
    (hheld : ∀ c, (push.map (RefOp.heldAt c)).sum + (if c = ctx then x.refc else 0) =
      op.heldAt c + if c = ctx then n else 0)
    (hfrees : ∀ c, (push.map (RefOp.freesAt c)).sum = op.freesAt c)
    (hcleans : ∀ c, (push.map (RefOp.cleansAt c)).sum = op.cleansAt c)
    (hsets : ∀ c, (push.map (RefOp.setsAt c)).sum = op.setsAt c) (hpush : s.Ready (push ++ rest)) :
    (turned l₁ l₂ rest (s.setContext ctx { x with refc := n }, push)).Sound := by
  obtain ⟨t, ht⟩ : ∃ t, t = turned l₁ l₂ rest (s.setContext ctx { x with refc := n }, push) := ⟨_, rfl⟩
  have hturn : Turn s t op rest push := ht ▸ turn_turned hs _
  have hchanged : Changed s t ctx { x with refc := n } := ht ▸ changed_turned _
  rw [← ht]
  clear ht
  have htype : ∀ c, t.typeOf c = s.typeOf c := fun c => by
    by_cases hc : c = ctx
    · rw [hc, typeOf_some hchanged.self, typeOf_some hx]
    · rw [typeOf, typeOf, hchanged.others c hc]
  have hlistener : t.listenerOf ctx = s.listenerOf ctx := by
    rw [listenerOf_some hchanged.self, listenerOf_some hx]
  have hlive : t.liveListener ctx = s.liveListener ctx := by
    rw [liveListener_some hchanged.self, liveListener_some hx, if_neg hn.ne', if_neg hpos.ne']
  have hwork : ∀ c, t.temporary c + (if c = ctx then x.refc else 0) = s.temporary c + (if c = ctx then n else 0) ∧
      t.freeing c = s.freeing c ∧ t.cleaning c = s.cleaning c ∧ t.setting c = s.setting c := fun c => by
    have h₀ := hheld c
    obtain ⟨h₁, h₂, h₃, h₄⟩ := hturn.counts c
    rw [hfrees] at h₂
    rw [hcleans] at h₃
    rw [hsets] at h₄
    omega
  have hacc : ∀ c, t.accepters c = s.accepters c := fun c => by
    have hchange := hchanged.accepters h hx c
    rw [hlive] at hchange
    exact Nat.add_right_cancel hchange
  have hagree : Agrees s t ctx := ⟨fun heq => (htype _).trans heq, fun heq => (htype _).trans heq,
    fun l heq => hlistener.trans heq, fun hclosed => ⟨hchanged.opened ▸ hclosed, htype _⟩⟩
  refine h.turn_context hturn hchanged (fun c hc => ?_) (fun c hc => (hwork c).2) ?_ (fun a l hl => ?_) hagree fun _ => ?_
  · have htemp := (hwork c).1
    rw [if_neg hc, if_neg hc] at htemp
    rw [hacc, Nat.add_right_cancel htemp]
  · obtain ⟨htemp, hfree, hclean, hset⟩ := hwork ctx
    rw [if_pos rfl, if_pos rfl] at htemp
    have hg := h.good ctx
    have hrefs := hg.refs
    rw [refcOf_some hx] at hrefs
    constructor
    · exact hg.toTyped.recount hx hchanged.self hset hchanged.created
    · rw [refcOf_some hchanged.self, hchanged.contextList, hchanged.opened, irpsFor, hchanged.acceptIrps, hacc]
      rw [irpsFor] at hrefs
      dsimp only
      omega
    · rw [hfree, hg.freed, hchanged.self, hx]
      simp only [Option.any_some, beq_iff_eq]
      rw [if_neg hpos.ne', if_neg hn.ne']
    · rw [hchanged.contextList]; exact hg.once
    · rw [hchanged.contextList, hchanged.opened]; exact hg.opened
    · rw [hchanged.contextList, hclean]; exact hg.cleaning
    · rw [hchanged.contextList, hchanged.opened, hclean, htype]; exact hg.listed
    · intro hl _
      rw [htype] at hl
      rw [refcOf_some hchanged.self, hchanged.contextList]
      exact ⟨(hg.listener hl (refcOf_some hx ▸ hpos)).1, htwo hl⟩
  · rw [htype]
    refine h.listens a l (hl ▸ ?_)
    by_cases ha : a = ctx
    · rw [ha, hlive]
    · rw [liveListener, liveListener, hchanged.others a ha]
  · refine hpush.mono (fun c _ => ?_) fun c _ hc => hchanged.opened ▸ hc
    by_cases hc : c = ctx
    · exact hc ▸ hagree
    · exact agrees_congr (sameContext_of_eq (hchanged.others c hc)) fun hclosed => hchanged.opened ▸ hclosed

/-- **A reference is taken.** -/
theorem Sound.addRef (h : s.Sound) (hs : s.running = l₁ ++ (op :: rest) :: l₂) (hx : s.contexts ctx = some x)
    (hpos : 0 < x.refc)
    (hheld : ∀ c, (push.map (RefOp.heldAt c)).sum = op.heldAt c + if c = ctx then 1 else 0)
    (hfrees : ∀ c, (push.map (RefOp.freesAt c)).sum = op.freesAt c)
    (hcleans : ∀ c, (push.map (RefOp.cleansAt c)).sum = op.cleansAt c)
    (hsets : ∀ c, (push.map (RefOp.setsAt c)).sum = op.setsAt c) (hpush : s.Ready (push ++ rest)) :
    (turned l₁ l₂ rest (s.setContext ctx { x with refc := x.refc + 1 }, push)).Sound := by
  refine h.recount hs hx hpos (Nat.succ_pos _) (fun hl => ?_) (fun c => ?_) hfrees hcleans hsets hpush
  · have htwo := ((h.good ctx).listener hl (refcOf_some hx ▸ hpos)).2
    rw [refcOf_some hx] at htwo
    exact Nat.le_succ_of_le htwo
  · rw [hheld]
    split <;> omega

/-- What an open file has. -/
theorem Good.of_opened (h : s.Good ctx) (hopened : ctx ∈ s.opened) :
    s.contextList.count ctx = 1 ∧ s.opened.count ctx = 1 ∧ 2 ≤ s.refcOf ctx := by
  have hpos := List.count_pos_iff.mpr hopened
  have hle := h.opened
  have hone := h.once
  have hrefs := h.refs
  omega

/-- The context of an open file has changed, but for its count. -/
theorem Changed.good {y : CountedContext} (hchanged : Changed s t ctx y) (h : s.Good ctx)
    (hx : s.contexts ctx = some x) (hrefc : y.refc = x.refc) (hopened : ctx ∈ s.opened)
    (hshared : t.accepters ctx + t.temporary ctx = s.accepters ctx + s.temporary ctx)
    (hfree : t.freeing ctx = s.freeing ctx) (hclean : t.cleaning ctx = s.cleaning ctx)
    (halone : y.type = .listener → y.listenerContext = none)
    (haccepter : y.type = .accepter → y.listenerContext ≠ none)
    (hsetting : y.listenerContext ≠ none → y.type = .accepter ∨ 0 < t.setting ctx)
    (hlistening : y.state = .listening → y.type = .listener) : t.Good ctx := by
  obtain ⟨hlist, hopen, htwo⟩ := h.of_opened hopened
  have hrefs := h.refs
  have hrefc' : t.refcOf ctx = s.refcOf ctx := by
    rw [refcOf_some hchanged.self, refcOf_some hx, hrefc]
  constructor
  · refine typed_some hchanged.self halone haccepter hsetting hlistening ?_
    rw [hchanged.created]
    exact h.created (by rw [hx]; exact Option.some_ne_none x)
  · rw [hrefc', hchanged.contextList, hchanged.opened, irpsFor, hchanged.acceptIrps, Nat.add_assoc, hshared,
      ← Nat.add_assoc]
    exact hrefs
  · rw [hfree, h.freed, hchanged.self, hx, Option.any_some, Option.any_some, hrefc]
  · rw [hchanged.contextList]; exact h.once
  · rw [hchanged.contextList, hchanged.opened]; exact h.opened
  · rw [hchanged.contextList, hclean]; exact h.cleaning
  · rw [hchanged.opened, hopen]
    exact fun _ => .inl Nat.one_pos
  · rw [hrefc', hchanged.contextList, hlist]
    exact fun _ _ => ⟨Nat.one_pos, htwo⟩

end

end RefRun

end V4v.Windows
