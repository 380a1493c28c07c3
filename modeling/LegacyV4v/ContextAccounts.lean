import LegacyV4v.ContextSteps

/-! # The contexts are accounted for

Files are created and closed, IRPs are cancelled, and DPCs go over the contexts.  In every careful run the count of
each context is right, no context is accessed when it is gone, and none remains in the end. -/
namespace V4v.Windows
open GuardedRun

namespace RefRun
variable {s t : RefRun} {op : RefOp} {rest push ops : List RefOp} {ctx actx l : Nat} {x : CountedContext}

/-! ## What begins a routine -/

/-- **A routine begins** that holds nothing. -/
theorem Sound.begin (h : s.Sound) (hsame : SameShape s t) (hirps : t.acceptIrps = s.acceptIrps)
    (hcontexts : t.contexts = s.contexts) (hrun : t.running = s.running ++ [ops]) (hidle : ∀ op ∈ ops, RefOp.Idle op)
    (hops : s.Ready ops) : t.Sound := by
  exact h.same hsame hirps (work_begin hrun) (alike_idle nofun hidle) (fun c => hcontexts ▸ (h.good c).listening)
    (ready_begin hrun (fun ops hmem => hsame.ready (h.ready ops hmem)) (hsame.ready hops))

/-- The steps of a call hold nothing. -/
theorem idle_ops (ctx : Nat) (c : FileCall) : ∀ op ∈ c.ops ctx, RefOp.Idle op := by
  cases c with
  | initializeFile ok | bind ok | listen ok => cases ok <;> simp [FileCall.ops, RefOp.Idle, RefOp.held]
  | _ => simp [FileCall.ops, RefOp.Idle, RefOp.held]

/-- The steps of a call have what they rely on. -/
theorem ready_ops (hopened : ctx ∈ s.opened) (c : FileCall) : s.Ready (c.ops ctx) := by
  have hleave : s.Ready [.leave ctx] := ⟨hopened, trivial⟩
  have hmem : .leave ctx ∈ ([.leave ctx] : List RefOp) := List.mem_cons_self
  cases c with
  | initializeFile ok =>
    cases ok
    · exact ⟨keeps_of_leave hmem, hleave⟩
    · exact ⟨⟨keeps_of_leave hmem, nofun⟩, hleave⟩
  | bind ok =>
    cases ok
    · exact ⟨keeps_of_leave hmem, hleave⟩
    · exact ⟨⟨hmem, nofun, nofun⟩, hleave⟩
  | listen ok =>
    cases ok
    · exact ⟨keeps_of_leave hmem, hleave⟩
    · exact ⟨⟨hmem, nofun, fun _ => rfl⟩, hleave⟩
  | connect | wait | disconnect => exact ⟨⟨hmem, nofun, nofun⟩, hleave⟩
  | accept actx fate => exact ⟨⟨hmem, fun hne => absurd rfl hne, False.elim, False.elim, False.elim⟩, hleave⟩
  | other queued => exact ⟨keeps_of_leave hmem, hleave⟩

/-- **A handle is closed**, while there is no call for the file. -/
theorem Sound.close (h : s.Sound) (hmem : ctx ∈ s.opened) (hcareful : ∀ ops ∈ s.running, .leave ctx ∉ ops) :
    ({ s with opened := s.opened.erase ctx }.begin [.touch ctx, .cleanup ctx]).Sound := by
  obtain ⟨t, ht⟩ : ∃ t, t = { s with opened := s.opened.erase ctx }.begin [.touch ctx, .cleanup ctx] := ⟨_, rfl⟩
  have hcontexts : t.contexts = s.contexts := by rw [ht]; rfl
  have hlist : t.contextList = s.contextList := by rw [ht]; rfl
  have hcount : t.contextCount = s.contextCount := by rw [ht]; rfl
  have hopened : t.opened = s.opened.erase ctx := by rw [ht]; rfl
  have hirps : t.acceptIrps = s.acceptIrps := by rw [ht]; rfl
  have hcreated : t.created = s.created := by rw [ht]; rfl
  have hstrayed : t.strayed = s.strayed := by rw [ht]; rfl
  have hrun : t.running = s.running ++ [[.touch ctx, .cleanup ctx]] := by rw [ht]; rfl
  rw [← ht]
  clear ht
  have hg := h.good ctx
  obtain ⟨hone, hopen, -⟩ := hg.of_opened hmem
  have hself : ctx ∉ t.opened := by
    rw [hopened, ← List.count_eq_zero, List.count_erase_self, hopen]
  have hacc : ∀ c, t.accepters c = s.accepters c := fun c => by
    unfold accepters liveListener
    rw [hcreated, hcontexts]
  have hirpsFor : ∀ c, t.irpsFor c = s.irpsFor c := fun c => by rw [irpsFor, irpsFor, hirps]
  have hwork : ∀ c, t.temporary c = s.temporary c + (if ctx = c then 1 else 0) ∧ t.freeing c = s.freeing c ∧
      t.cleaning c = s.cleaning c + (if ctx = c then 1 else 0) ∧ t.setting c = s.setting c := fun c => by
    obtain ⟨h₁, h₂, h₃, h₄⟩ := (work_begin hrun).counts c
    simp only [List.map_cons, List.map_nil, List.sum_cons, List.sum_nil, RefOp.heldAt, RefOp.held, RefOp.freesAt,
      RefOp.cleansAt, RefOp.setsAt, List.count_cons, List.count_nil, reduceCtorEq, or_false, or_self, if_false,
      Nat.add_zero, Nat.zero_add, beq_iff_eq, RefOp.cleanup.injEq] at h₁ h₂ h₃ h₄
    exact ⟨h₁, h₂, h₃, h₄⟩
  have hcleaning : s.cleaning ctx = 0 := by
    by_contra hne
    exact (of_cleaning h.ready (Nat.pos_of_ne_zero hne)).1 hmem
  have hagree : ∀ c, Agrees s t c := fun c =>
    agrees_congr (sameContext_of_eq (congrFun hcontexts c)) fun hclosed hc =>
      hclosed (List.mem_of_mem_erase (hopened ▸ hc))
  have htypes : ∀ c, t.typeOf c = s.typeOf c := fun c => by rw [typeOf, typeOf, hcontexts]
  have hlisteners : ∀ c, t.listenerOf c = s.listenerOf c := fun c => by rw [listenerOf, listenerOf, hcontexts]
  refine ⟨fun c => ?_, fun a l hl => ?_, fun p hp => ?_, ready_begin hrun (fun ops hops => ?_) ?_, ?_,
    hcreated ▸ h.created, hstrayed.trans h.strayed⟩
  · obtain ⟨htemp, hfree, hclean, hset⟩ := hwork c
    by_cases hc : c = ctx
    · subst hc
      rw [if_pos rfl] at htemp hclean
      have hrefs := hg.refs
      have hrefc : t.refcOf c = s.refcOf c := by rw [refcOf, refcOf, hcontexts]
      have hnone : t.opened.count c = 0 := List.count_eq_zero_of_not_mem hself
      constructor
      · exact hg.toTyped.congr (sameContext_of_eq (congrFun hcontexts c)) hset (hcontexts ▸ hg.listening)
          fun hmem => hcreated ▸ hmem
      · rw [hrefc, hlist, hnone, hirpsFor, hacc, htemp]
        omega
      · rw [hfree, hcontexts]; exact hg.freed
      · rw [hlist]; exact hg.once
      · rw [hnone]; exact Nat.zero_le _
      · rw [hlist, hclean, hcleaning, hone]
      · rw [hclean]; exact fun _ => .inr (.inr (Nat.succ_pos _))
      · rw [htypes, hrefc, hlist]; exact hg.listener
    · rw [if_neg (Ne.symm hc)] at htemp hclean
      exact (h.good c).congr ⟨sameContext_of_eq (congrFun hcontexts c), by rw [hlist],
        by rw [hopened, List.count_erase_of_ne hc], by rw [hirpsFor, hacc, htemp, Nat.add_zero], hfree, hclean, hset,
        hcontexts ▸ (h.good c).listening, fun hmem => hcreated ▸ hmem⟩
  · rw [htypes]
    rw [liveListener, hcontexts] at hl
    exact h.listens a l hl
  · rw [hlisteners, htypes]
    exact h.irps p (hirps ▸ hp)
  · refine (h.ready ops hops).mono (fun c _ => hagree c) fun c hleave hc => ?_
    have hne : c ≠ ctx := fun heq => hcareful ops hops (heq ▸ hleave)
    exact hopened ▸ (List.mem_erase_of_ne hne).mpr hc
  · exact ⟨keeps_of_mem List.mem_cons_self (List.mem_singleton_self ctx), hself, trivial⟩
  · rw [hcount, hlist]
    exact h.count

/-- The accepter of a queued IRP is there, and its listener. -/
theorem Sound.of_irp (h : s.Sound) (hmem : (l, actx) ∈ s.acceptIrps) :
    ∃ x y, s.contexts l = some x ∧ s.contexts actx = some y ∧ x.type = .listener := by
  obtain ⟨hlistens, -⟩ := h.irps _ hmem
  have hirps : 0 < s.irpsFor actx := List.count_pos_iff.mpr (List.mem_map_of_mem hmem)
  have hrefs := (h.good actx).refs
  obtain ⟨y, hy, hrefc⟩ := exists_of_refcOf (show 0 < s.refcOf actx by omega)
  have hlive : s.liveListener actx = some l := by
    rw [liveListener_some hy, if_neg (by omega)]
    exact listenerOf_some hy ▸ hlistens
  have hacc := h.accepters_pos hlive
  have hrefs' := (h.good l).refs
  obtain ⟨x, hx, -⟩ := exists_of_refcOf (show 0 < s.refcOf l by omega)
  exact ⟨x, y, hx, hy, (typeOf_some hx).symm.trans (h.listens actx l hlive)⟩

theorem completeCanceledAccept_accepting {y : CountedContext} (hx : s.contexts l = some x)
    (hy : s.contexts actx = some y) (htype : x.type ≠ .connector) (hstate : y.state = .accepting) :
    s.completeCanceledAccept l actx = s.begin [.release actx] := by
  unfold completeCanceledAccept
  rw [on_some hx, if_neg fun hand => htype hand.1, on_some hy, if_pos hstate]

/-- **An accept IRP is cancelled** while its accepter is ACCEPTING. -/
theorem Sound.cancelAccept (h : s.Sound) (hmem : (l, actx) ∈ s.acceptIrps)
    (hcareful : (s.contexts actx).map CountedContext.state = some .accepting) :
    ({ s with acceptIrps := s.acceptIrps.erase (l, actx) }.completeCanceledAccept l actx).Sound := by
  obtain ⟨x, y, hx, hy, htype⟩ := h.of_irp hmem
  rw [hy] at hcareful
  have hstate : y.state = .accepting := Option.some.inj hcareful
  have hstep : { s with acceptIrps := s.acceptIrps.erase (l, actx) }.completeCanceledAccept l actx =
      { s with acceptIrps := s.acceptIrps.erase (l, actx) }.begin [.release actx] :=
    completeCanceledAccept_accepting hx hy (by rw [htype]; exact nofun) hstate
  rw [hstep]
  clear hstep
  obtain ⟨t, ht⟩ : ∃ t, t = { s with acceptIrps := s.acceptIrps.erase (l, actx) }.begin [.release actx] := ⟨_, rfl⟩
  have hirps : t.acceptIrps = s.acceptIrps.erase (l, actx) := by rw [ht]; rfl
  have hrun : t.running = s.running ++ [[.release actx]] := by rw [ht]; rfl
  have hcontexts : t.contexts = s.contexts := by rw [ht]; rfl
  have hsame : SameShape s t := by
    rw [ht]
    exact ⟨fun _ => rfl, rfl, rfl, rfl, rfl, rfl⟩
  rw [← ht]
  clear ht
  have hwork : ∀ c, t.irpsFor c + t.temporary c = s.irpsFor c + s.temporary c ∧ t.freeing c = s.freeing c ∧
      t.cleaning c = s.cleaning c ∧ t.setting c = s.setting c := fun c => by
    have h₀ : t.irpsFor c + (if actx = c then 1 else 0) = s.irpsFor c := irpsFor_erase hmem hirps c
    obtain ⟨h₁, h₂, h₃, h₄⟩ := (work_begin hrun).counts c
    simp only [List.map_cons, List.map_nil, List.sum_cons, List.sum_nil, RefOp.heldAt, RefOp.held, RefOp.freesAt,
      RefOp.cleansAt, RefOp.setsAt, List.count_cons, List.count_nil, reduceCtorEq, or_self, if_false,
      Nat.add_zero, Nat.zero_add, beq_iff_eq] at h₁ h₂ h₃ h₄
    omega
  refine h.handed hsame (fun c => (hwork c).1) (fun c => (hwork c).2)
    (fun p hp => h.irps p (List.mem_of_mem_erase (hirps ▸ hp))) (fun c => hcontexts ▸ (h.good c).listening)
    (ready_begin hrun (fun ops hops => hsame.ready (h.ready ops hops)) (hsame.ready ?_))
  exact ⟨.inr (.inr (.inr (h.irps _ hmem).2)), trivial⟩

/-- Nothing that is counted is changed. -/
theorem Sound.otherIrps (h : s.Sound) (irps : List Nat) : { s with otherIrps := irps }.Sound := by
  have hwork : Work s { s with otherIrps := irps } [] [] := fun _ => rfl
  have hsame : SameShape s { s with otherIrps := irps } := ⟨fun _ => rfl, rfl, rfl, rfl, rfl, rfl⟩
  exact h.same hsame rfl hwork (alike_idle nofun nofun) (fun c => (h.good c).listening)
    fun ops hops => hsame.ready (h.ready ops hops)

/-- A context is named once. -/
theorem Sound.fresh (h : s.Sound) (hctx : ctx ∉ s.created) : s.contexts ctx = none ∧ s.contextList.count ctx = 0 ∧
    s.opened.count ctx = 0 ∧ s.irpsFor ctx = 0 ∧ s.accepters ctx = 0 ∧ s.temporary ctx = 0 ∧ s.freeing ctx = 0 := by
  have hg := h.good ctx
  have hnone : s.contexts ctx = none := by
    by_contra hne
    exact hctx (hg.created hne)
  have hrefs := hg.refs
  have hfreed := hg.freed
  rw [hnone] at hfreed
  have hzero := refcOf_none hnone
  exact ⟨hnone, by omega, by omega, by omega, by omega, by omega, hfreed⟩

/-- **A file is created.** -/
theorem Sound.create (h : s.Sound) (hctx : ctx ∉ s.created) :
    { s.setContext ctx ⟨2, .uninitialized, .unspecified, none⟩ with
      created := ctx :: s.created
      contextList := ctx :: s.contextList
      contextCount := s.contextCount + 1
      opened := ctx :: s.opened }.Sound := by
  obtain ⟨t, ht⟩ : ∃ t, t = { s.setContext ctx ⟨2, .uninitialized, .unspecified, none⟩ with
      created := ctx :: s.created
      contextList := ctx :: s.contextList
      contextCount := s.contextCount + 1
      opened := ctx :: s.opened } := ⟨_, rfl⟩
  have hself : t.contexts ctx = some ⟨2, .uninitialized, .unspecified, none⟩ := ht ▸ Function.update_self ..
  have hothers : ∀ c ≠ ctx, t.contexts c = s.contexts c := fun c hc => ht ▸ Function.update_of_ne hc ..
  have hlist : t.contextList = ctx :: s.contextList := by rw [ht]
  have hcount : t.contextCount = s.contextCount + 1 := by rw [ht]
  have hopened : t.opened = ctx :: s.opened := by rw [ht]
  have hirps : t.acceptIrps = s.acceptIrps := by rw [ht]; rfl
  have hcreated : t.created = ctx :: s.created := by rw [ht]
  have hstrayed : t.strayed = s.strayed := by rw [ht]; rfl
  have hrun : t.running = s.running := by rw [ht]; rfl
  rw [← ht]
  clear ht
  obtain ⟨hnone, hlist₀, hopened₀, hirps₀, hacc₀, htemp₀, hfree₀⟩ := h.fresh hctx
  have htotal : ∀ μ : RefOp → Nat, t.total μ = s.total μ := fun μ => by rw [total, total, hrun]
  have hlive : t.liveListener ctx = none := by
    rw [liveListener_some hself]
    rfl
  have hacc : ∀ c, t.accepters c = s.accepters c := fun c => by
    unfold accepters
    rw [hcreated, List.countP_cons, hlive]
    refine List.countP_congr fun a ha => ?_
    have hne : a ≠ ctx := fun heq => hctx (heq ▸ ha)
    rw [liveListener, liveListener, hothers a hne]
  have hirpsFor : ∀ c, t.irpsFor c = s.irpsFor c := fun c => by rw [irpsFor, irpsFor, hirps]
  have hagree : ∀ c ≠ ctx, Agrees s t c := fun c hc =>
    agrees_congr (sameContext_of_eq (hothers c hc)) fun hclosed hmem => by
      rw [hopened] at hmem
      exact hclosed ((List.mem_cons.mp hmem).resolve_left hc)
  refine ⟨fun c => ?_, fun a l hl => ?_, fun p hp => ?_, fun ops hops => ?_, ?_, ?_, hstrayed.trans h.strayed⟩
  · by_cases hc : c = ctx
    · subst hc
      have hcleaning : t.cleaning c = 0 := by
        rw [cleaning, htotal]
        by_contra hne
        have hpos := (of_cleaning h.ready (Nat.pos_of_ne_zero hne)).2
        omega
      constructor
      · refine typed_some hself ?_ ?_ (fun hne => absurd rfl hne) ?_ (hcreated ▸ List.mem_cons_self)
        all_goals rintro ⟨⟩
      · rw [refcOf_some hself, hlist, hopened, List.count_cons_self, List.count_cons_self, hirpsFor, hacc, temporary,
          htotal]
        unfold temporary at htemp₀
        dsimp only
        omega
      · rw [freeing, htotal, hself]
        exact hfree₀
      · rw [hlist, List.count_cons_self, hlist₀]
      · rw [hlist, hopened, List.count_cons_self, List.count_cons_self, hlist₀, hopened₀]
      · rw [hcleaning]; exact Nat.zero_le _
      · rw [hopened, List.count_cons_self]
        exact fun _ => .inl (Nat.succ_pos _)
      · rw [typeOf_some hself]; rintro ⟨⟩
    · refine (h.good c).congr ⟨sameContext_of_eq (hothers c hc), by rw [hlist, List.count_cons_of_ne (Ne.symm hc)],
        by rw [hopened, List.count_cons_of_ne (Ne.symm hc)], ?_, htotal _, htotal _, htotal _,
        by rw [hothers c hc]; exact (h.good c).listening, fun hmem => hcreated ▸ List.mem_cons_of_mem _ hmem⟩
      rw [hirpsFor, hacc, temporary, temporary, htotal]
  · have hne : a ≠ ctx := by
      rintro rfl
      rw [hlive] at hl
      cases hl
    rw [liveListener, hothers a hne] at hl
    have hlistener := h.listens a l hl
    have hl' : l ≠ ctx := by
      rintro rfl
      have hpos := h.accepters_pos hl
      omega
    rw [typeOf, hothers l hl']
    exact hlistener
  · rw [hirps] at hp
    have hne : p.2 ≠ ctx := by
      intro heq
      have hpos : 0 < s.irpsFor ctx := List.count_pos_iff.mpr (heq ▸ List.mem_map_of_mem hp)
      omega
    rw [listenerOf, typeOf, hothers _ hne]
    exact h.irps p hp
  · rw [hrun] at hops
    refine (h.ready ops hops).mono (fun c hk => hagree c ?_) fun c _ hc => hopened ▸ List.mem_cons_of_mem _ hc
    rintro rfl
    have hkept := h.kept hops hk
    rw [refcOf, hnone] at hkept
    exact absurd hkept (Nat.lt_irrefl 0)
  · rw [hcount, hlist, List.length_cons, h.count]
    rfl
  · rw [hcreated]
    exact List.nodup_cons.mpr ⟨hctx, h.created⟩

/-- The contexts that a DPC goes over are all there. -/
theorem Sound.of_listed (h : s.Sound) (hmem : ctx ∈ s.contextList) : ∃ x, s.contexts ctx = some x ∧ 0 < x.refc := by
  have hlt := List.count_pos_iff.mpr hmem
  have hrefs := (h.good ctx).refs
  obtain ⟨x, hx, hrefc⟩ := exists_of_refcOf (show 0 < s.refcOf ctx by omega)
  exact ⟨x, hx, by omega⟩

/-- The DPC drops each of its references, and only it. -/
theorem sum_dpc (list : List Nat) (c : Nat) :
    ((list.map RefOp.contextReads ++ list.map RefOp.releaseLocked).map (RefOp.heldAt c)).sum = list.count c ∧
      ((list.map RefOp.contextReads ++ list.map RefOp.releaseLocked).map (RefOp.freesAt c)).sum = 0 ∧
      ((list.map RefOp.contextReads ++ list.map RefOp.releaseLocked).map (RefOp.cleansAt c)).sum = 0 ∧
      ((list.map RefOp.contextReads ++ list.map RefOp.releaseLocked).map (RefOp.setsAt c)).sum = 0 := by
  have hidle : ∀ op ∈ list.map RefOp.contextReads, RefOp.Idle op := fun op hop => by
    obtain ⟨c, -, rfl⟩ := List.mem_map.mp hop
    simp [RefOp.Idle, RefOp.held]
  have hreads := sum_idle hidle c
  clear hidle
  simp only [List.map_append, List.sum_append, hreads, Nat.zero_add]
  clear hreads
  induction list with
  | nil => exact ⟨rfl, rfl, rfl, rfl⟩
  | cons a list ih =>
    obtain ⟨h₁, h₂, h₃, h₄⟩ := ih
    have w₁ : RefOp.heldAt c (.releaseLocked a) = if c = a then 1 else 0 := count_singleton_eq c a
    have w₂ : RefOp.freesAt c (.releaseLocked a) = 0 := if_neg (by rintro ⟨⟩)
    have w₃ : RefOp.cleansAt c (.releaseLocked a) = 0 :=
      if_neg (by simp only [reduceCtorEq, or_self, not_false_eq_true])
    have w₄ : RefOp.setsAt c (.releaseLocked a) = 0 := rfl
    simp only [List.map_cons, List.sum_cons, h₁, h₂, h₃, h₄, w₁, w₂, w₃, w₄, List.count_cons, beq_iff_eq,
      @eq_comm _ a c, Nat.add_comm, and_self, Nat.zero_add]

/-- Its reads rely on the references that it drops behind them. -/
theorem ready_dpc {list all : List Nat} (h : ∀ c ∈ list, c ∈ all) :
    s.Ready (list.map RefOp.contextReads ++ all.map RefOp.releaseLocked) := by
  induction list with
  | nil =>
    clear h
    induction all with
    | nil => trivial
    | cons c all ih => exact ⟨trivial, ih⟩
  | cons c list ih =>
    refine ⟨?_, ih fun c hc => h c (List.mem_cons_of_mem _ hc)⟩
    exact keeps_append.mpr (.inr (keeps_of_mem (List.mem_map_of_mem (h c List.mem_cons_self)) List.mem_cons_self))

/-- **A DPC begins**: each context on the list is referenced. -/
theorem Sound.dpc (h : s.Sound) : ({ s with contexts := s.getAllContexts }.begin
    (s.contextList.map RefOp.contextReads ++ s.contextList.map RefOp.releaseLocked)).Sound := by
  obtain ⟨ops, hops⟩ : ∃ ops, ops = s.contextList.map RefOp.contextReads ++ s.contextList.map RefOp.releaseLocked :=
    ⟨_, rfl⟩
  obtain ⟨t, ht⟩ : ∃ t, t = { s with contexts := s.getAllContexts }.begin ops := ⟨_, rfl⟩
  have hcontexts : t.contexts = s.getAllContexts := by rw [ht]; rfl
  have hlist : t.contextList = s.contextList := by rw [ht]; rfl
  have hcount : t.contextCount = s.contextCount := by rw [ht]; rfl
  have hopened : t.opened = s.opened := by rw [ht]; rfl
  have hirps : t.acceptIrps = s.acceptIrps := by rw [ht]; rfl
  have hcreated : t.created = s.created := by rw [ht]; rfl
  have hstrayed : t.strayed = s.strayed := by rw [ht]; rfl
  have hrun : t.running = s.running ++ [ops] := by rw [ht]; rfl
  rw [← hops, ← ht]
  clear ht
  have hlisted : ∀ c ∈ s.contextList, ∃ x, s.contexts c = some x ∧ 0 < x.refc ∧
      t.contexts c = some { x with refc := x.refc + 1 } := fun c hc => by
    obtain ⟨x, hx, hpos⟩ := h.of_listed hc
    refine ⟨x, hx, hpos, ?_⟩
    rw [hcontexts, getAllContexts, if_pos hc, hx]
    rfl
  have hothers : ∀ c ∉ s.contextList, t.contexts c = s.contexts c := fun c hc => by
    rw [hcontexts, getAllContexts, if_neg hc]
  have htypes : ∀ c, t.typeOf c = s.typeOf c := fun c => by
    by_cases hc : c ∈ s.contextList
    · obtain ⟨x, hx, -, hx'⟩ := hlisted c hc
      rw [typeOf_some hx, typeOf_some hx']
    · rw [typeOf, typeOf, hothers c hc]
  have hlisteners : ∀ c, t.listenerOf c = s.listenerOf c := fun c => by
    by_cases hc : c ∈ s.contextList
    · obtain ⟨x, hx, -, hx'⟩ := hlisted c hc
      rw [listenerOf_some hx, listenerOf_some hx']
    · rw [listenerOf, listenerOf, hothers c hc]
  have hlive : ∀ c, t.liveListener c = s.liveListener c := fun c => by
    by_cases hc : c ∈ s.contextList
    · obtain ⟨x, hx, hpos, hx'⟩ := hlisted c hc
      rw [liveListener_some hx, liveListener_some hx', if_neg hpos.ne', if_neg (Nat.succ_ne_zero _)]
    · rw [liveListener, liveListener, hothers c hc]
  have hrefc : ∀ c, t.refcOf c = s.refcOf c + s.contextList.count c := fun c => by
    by_cases hc : c ∈ s.contextList
    · obtain ⟨x, hx, -, hx'⟩ := hlisted c hc
      have hone := (h.good c).once
      have hlt := List.count_pos_iff.mpr hc
      rw [refcOf_some hx, refcOf_some hx', show s.contextList.count c = 1 by omega]
    · rw [refcOf, refcOf, hothers c hc, List.count_eq_zero_of_not_mem hc]
      rfl
  have hacc : ∀ c, t.accepters c = s.accepters c := fun c => by
    unfold accepters
    rw [hcreated]
    exact List.countP_congr fun a _ => by rw [hlive]
  have hirpsFor : ∀ c, t.irpsFor c = s.irpsFor c := fun c => by rw [irpsFor, irpsFor, hirps]
  have hwork : ∀ c, t.temporary c = s.temporary c + s.contextList.count c ∧ t.freeing c = s.freeing c ∧
      t.cleaning c = s.cleaning c ∧ t.setting c = s.setting c := fun c => by
    obtain ⟨w₁, w₂, w₃, w₄⟩ := sum_dpc s.contextList c
    obtain ⟨h₁, h₂, h₃, h₄⟩ := (work_begin hrun).counts c
    rw [hops, w₁] at h₁
    rw [hops, w₂] at h₂
    rw [hops, w₃] at h₃
    rw [hops, w₄] at h₄
    exact ⟨h₁, h₂, h₃, h₄⟩
  have hagree : ∀ c, Agrees s t c := fun c => ⟨fun heq => (htypes c).trans heq, fun heq => (htypes c).trans heq,
    fun l heq => (hlisteners c).trans heq, fun hclosed => ⟨hopened ▸ hclosed, htypes c⟩⟩
  refine ⟨fun c => ?_, fun a l hl => ?_, fun p hp => ?_, ready_begin hrun (fun ops' hold => ?_) ?_, ?_,
    hcreated ▸ h.created, hstrayed.trans h.strayed⟩
  · obtain ⟨htemp, hfree, hclean, hset⟩ := hwork c
    have hg := h.good c
    have hrefs := hg.refs
    constructor
    · by_cases hc : c ∈ s.contextList
      · obtain ⟨x, hx, -, hx'⟩ := hlisted c hc
        exact hg.toTyped.recount hx hx' hset hcreated
      · exact hg.toTyped.congr (sameContext_of_eq (hothers c hc)) hset (hothers c hc ▸ hg.listening)
          fun hmem => hcreated ▸ hmem
    · rw [hrefc, hlist, hopened, hirpsFor, hacc, htemp]
      omega
    · rw [hfree, hg.freed]
      by_cases hc : c ∈ s.contextList
      · obtain ⟨x, hx, hpos, hx'⟩ := hlisted c hc
        rw [hx, hx', Option.any_some, Option.any_some, beq_false_of_ne hpos.ne', beq_false_of_ne (Nat.succ_ne_zero _)]
      · rw [hothers c hc]
    · rw [hlist]; exact hg.once
    · rw [hlist, hopened]; exact hg.opened
    · rw [hlist, hclean]; exact hg.cleaning
    · rw [hlist, hopened, hclean, htypes]; exact hg.listed
    · rw [htypes, hrefc, hlist]
      intro hl hlt
      obtain ⟨hlist, htwo⟩ := hg.listener hl (by omega)
      exact ⟨hlist, Nat.le_add_right_of_le htwo⟩
  · rw [htypes]
    exact h.listens a l (hlive a ▸ hl)
  · rw [hlisteners, htypes]
    exact h.irps p (hirps ▸ hp)
  · exact (h.ready ops' hold).mono (fun c _ => hagree c) fun c _ hc => hopened ▸ hc
  · rw [hops]
    exact ready_dpc fun _ hc => hc
  · rw [hcount, hlist]
    exact h.count

/-- **Every step** of a careful run. -/
theorem Sound.step (h : s.Sound) {a : RefAct} (hcareful : s.Careful a) (hstep : s.step a = some t) : t.Sound := by
  cases a with
  | create ctx =>
    rw [RefRun.step] at hstep
    split at hstep
    · cases hstep
    · next hctx =>
      cases hstep
      exact h.create hctx
  | call ctx c =>
    rw [RefRun.step] at hstep
    split at hstep
    · next hopened =>
      cases hstep
      exact h.begin ⟨fun _ => rfl, rfl, rfl, rfl, rfl, rfl⟩ rfl rfl rfl (idle_ops ctx c) (ready_ops hopened c)
    · cases hstep
  | close ctx =>
    rw [RefRun.step] at hstep
    split at hstep
    · next hopened =>
      cases hstep
      exact h.close hopened hcareful
    · cases hstep
  | cancelAccept ctx actx =>
    rw [RefRun.step] at hstep
    split at hstep
    · next hmem =>
      cases hstep
      exact h.cancelAccept hmem hcareful
    · cases hstep
  | cancelOther ctx =>
    rw [RefRun.step] at hstep
    split at hstep
    · obtain ⟨x, hx⟩ := Option.ne_none_iff_exists'.mp hcareful
      have hx' : { s with otherIrps := s.otherIrps.erase ctx }.contexts ctx = some x := hx
      rw [on_some hx'] at hstep
      cases hstep
      exact h.otherIrps _
    · cases hstep
  | completeOther ctx =>
    cases hstep
    exact h.otherIrps _
  | dpc =>
    cases hstep
    exact h.dpc
  | perform i finds =>
    rw [RefRun.step] at hstep
    cases hrun : s.running[i]? with
    | none =>
      rw [hrun] at hstep
      cases hstep
    | some ops =>
      cases ops with
      | nil =>
        rw [hrun] at hstep
        cases hstep
      | cons op rest =>
        rw [hrun] at hstep
        cases hstep
        obtain ⟨hlt, hi⟩ := List.getElem?_eq_some_iff.mp hrun
        have hs : s.running = s.running.take i ++ (op :: rest) :: s.running.drop (i + 1) := by
          rw [← hi, List.cons_getElem_drop_succ, List.take_append_drop]
        have hop : s.CarefulOp finds op := by
          rw [Careful, hrun] at hcareful
          exact hcareful
        rw [List.set_eq_take_append_cons_drop, if_pos hlt]
        exact h.perform hs hop

theorem sound_of_start (h : s.Start) : s.Sound := by
  subst h
  exact ⟨fun c => ⟨typed_none rfl, rfl, rfl, Nat.zero_le _, Nat.zero_le _, Nat.zero_le _,
    fun hlt => absurd hlt (Nat.lt_irrefl 0), nofun⟩, nofun, nofun, nofun, rfl, List.nodup_nil, rfl⟩

/-- A context that is referenced although nothing runs is a listener. -/
theorem Sound.listener_of_rest (h : s.Sound) (hopened : s.opened = []) (hirps : s.acceptIrps = [])
    (hrest : s.running.flatten = []) (hpos : 0 < s.refcOf ctx) :
    s.typeOf ctx = .listener ∧ 0 < s.accepters ctx := by
  have hg := h.good ctx
  have htotal : ∀ μ : RefOp → Nat, s.total μ = 0 := fun μ => by rw [total, hrest]; rfl
  have hopen : s.opened.count ctx = 0 := by rw [hopened]; rfl
  have hirpsFor : s.irpsFor ctx = 0 := by rw [irpsFor, hirps]; rfl
  have hrefs := hg.refs
  have hlisted := hg.listed
  rw [hopen, hirpsFor, temporary, htotal] at hrefs
  rw [hopen, cleaning, htotal] at hlisted
  have htype : s.typeOf ctx = .listener := by
    rcases Nat.eq_zero_or_pos (s.accepters ctx) with hnone | hacc
    · rcases hlisted (by omega) with hlt | htype | hlt
      · exact absurd hlt (Nat.lt_irrefl 0)
      · exact htype
      · exact absurd hlt (Nat.lt_irrefl 0)
    · obtain ⟨actx, -, hlive⟩ := List.countP_pos_iff.mp hacc
      exact h.listens actx ctx (beq_iff_eq.mp hlive)
  refine ⟨htype, ?_⟩
  have htwo := (hg.listener htype hpos).2
  have hone := hg.once
  omega

/-- **Nothing remains** when the handles are closed and nothing runs: a listener that remains has an accepter that
remains, and that is no listener. -/
theorem Sound.gone (h : s.Sound) (hopened : s.opened = []) (hirps : s.acceptIrps = [])
    (hrest : s.running.flatten = []) (ctx : Nat) : s.contexts ctx = none := by
  have htotal : ∀ μ : RefOp → Nat, s.total μ = 0 := fun μ => by rw [total, hrest]; rfl
  have hzero : s.refcOf ctx = 0 := by
    by_contra hne
    obtain ⟨-, hacc⟩ := h.listener_of_rest hopened hirps hrest (Nat.pos_of_ne_zero hne)
    obtain ⟨actx, -, hlive⟩ := List.countP_pos_iff.mp hacc
    have hlive := beq_iff_eq.mp hlive
    obtain ⟨y, hy, hsome⟩ := Option.bind_eq_some_iff.mp hlive
    have hpos : 0 < s.refcOf actx := by
      rw [refcOf_some hy]
      by_contra hzero
      rw [if_pos (Nat.eq_zero_of_not_pos hzero)] at hsome
      cases hsome
    obtain ⟨htype, -⟩ := h.listener_of_rest hopened hirps hrest hpos
    have halone := (h.good actx).alone htype
    rw [listenerOf_some hy] at halone
    rw [liveListener_some hy, halone, ite_self] at hlive
    cases hlive
  have hfreed := (h.good ctx).freed
  rw [freeing, htotal] at hfreed
  cases hctx : s.contexts ctx with
  | none => rfl
  | some x =>
    rw [refcOf_some hctx] at hzero
    rw [hctx, Option.any_some, hzero] at hfreed
    cases hfreed

theorem count_le_one {list : List Nat} (h : list.count ctx ≤ 1) : list.count ctx = if ctx ∈ list then 1 else 0 := by
  split
  · next hmem =>
    have hpos := List.count_pos_iff.mpr hmem
    omega
  · next hmem => exact List.count_eq_zero_of_not_mem hmem

theorem Sound.accounted (h : s.Sound) : s.Accounted where
  refc ctx x hx := by
    have hg := h.good ctx
    have hrefs := hg.refs
    rw [refcOf_some hx, count_le_one hg.once, count_le_one (hg.opened.trans hg.once)] at hrefs
    exact hrefs
  count := h.count
  freed ctx := (h.good ctx).freed
  strayed := h.strayed
  gone hopened hirps _ hrest := h.gone hopened hirps hrest

/-! ## Runs -/

/-- The runs whose steps satisfy `ok`. -/
abbrev Reached (ok : RefRun → RefAct → Prop) : RefRun → Prop := Reachable Start (fun s a s' => s.step a = some s') ok

/-- **In every careful run the contexts are accounted for.** -/
theorem contexts_accounted (h : Reached Careful s) : s.Accounted := by
  have hsound : s.Sound := h.invariant (fun _ => sound_of_start) fun _ _ _ hs hcareful hstep => hs.step hcareful hstep
  exact hsound.accounted

instance (s : RefRun) (finds : Finds) : (op : RefOp) → Decidable (s.CarefulOp finds op)
  | .retype .. => inferInstanceAs (Decidable (_ ∧ _))
  | .accept .setListener .. => inferInstanceAs (Decidable (_ ∧ _))
  | .accept .insert .. => inferInstanceAs (Decidable (_ = _))
  | .doAccepts .. => inferInstanceAs (Decidable (_ → ∀ p ∈ _, _))
  | .accept .readState .. | .accept .lookUp .. | .accept .reference .. | .accept .initFile .. | .accept .share ..
  | .accept .setType .. | .accept .setState .. | .touch _ | .exchange .. | .ctrl .. | .leave _ | .cleanup _
  | .unlink _ | .release _ | .drop .. | .releaseLocked _ | .free _ | .contextReads _ | .listenerReads .. =>
    inferInstanceAs (Decidable True)

instance (s : RefRun) (finds : Finds) : (ops : Option (List RefOp)) → Decidable (s.CarefulNext finds ops)
  | some (op :: _) => inferInstanceAs (Decidable (s.CarefulOp finds op))
  | some [] | none => inferInstanceAs (Decidable True)

instance (s : RefRun) : (a : RefAct) → Decidable (s.Careful a)
  | .close ctx => inferInstanceAs (Decidable (∀ ops ∈ s.running, .leave ctx ∉ ops))
  | .cancelAccept .. => inferInstanceAs (Decidable (_ = _))
  | .cancelOther _ => inferInstanceAs (Decidable (_ ≠ _))
  | .perform .. => inferInstanceAs (Decidable (s.CarefulNext _ _))
  | .create _ | .call .. | .completeOther _ | .dpc => inferInstanceAs (Decidable True)

/-- Nothing has been created. -/
def initial : RefRun := ⟨fun _ => none, [], [], 0, [], [], [], [], []⟩

/-- The file 0 becomes a listener, and accepts on the file 1. -/
def listenAndAccept (fate : AcceptFate) : List RefAct :=
  [.create 0, .create 1, .call 0 (.initializeFile true), .perform 0 .nothing, .perform 0 .nothing,
    .call 0 (.bind true)] ++ List.replicate 4 (.perform 1 .nothing) ++
    .call 0 (.listen true) :: List.replicate 4 (.perform 2 .nothing) ++
    .call 0 (.accept 1 fate) :: List.replicate 9 (.perform 3 .nothing)

/-- A SYN is accepted, a DPC goes by, and both files are closed. -/
theorem contexts_accounted_closed : ∃ s, Reached Careful s ∧ s.created = [1, 0] ∧ s.contexts 0 = none ∧
    s.contexts 1 = none ∧ s.Accounted := by
  have hrun : ∃ s : RefRun, Reachable Start (fun s a s' => True ∧ s.step a = some s') Careful s ∧
      decide (s.created = [1, 0] ∧ s.contexts 0 = none ∧ s.contexts 1 = none) = true :=
    exists_reachable_of_follow initial
      (listenAndAccept ⟨true, true⟩ ++ List.replicate 9 (.perform 3 (.accept true)) ++
        .dpc :: List.replicate 6 (.perform 4 .nothing) ++ .close 1 :: List.replicate 9 (.perform 5 .nothing) ++
        .close 0 :: List.replicate 6 (.perform 6 .nothing)) rfl (by decide +kernel)
  obtain ⟨s, hs, hend⟩ := hrun
  obtain ⟨hcreated, hlistener, haccepter⟩ := of_decide_eq_true hend
  have hreached : Reached Careful s := hs.imp_step fun _ _ _ hstep => hstep.2
  exact ⟨s, hreached, hcreated, hlistener, haccepter, contexts_accounted hreached⟩

/-- **An accept whose IRP is not queued** keeps the reference to its accepter. -/
theorem accept_keeps_reference : ¬ ∀ s, Reached (fun _ _ => True) s → s.Accounted := by
  intro hall
  have hrun : ∃ s : RefRun, Reachable Start (fun s a s' => True ∧ s.step a = some s') (fun _ _ => True) s ∧
      decide ((s.contexts 1).map CountedContext.refc = some 3 ∧ s.references 1 = 2) = true :=
    exists_reachable_of_follow initial (listenAndAccept ⟨true, false⟩) rfl (by decide +kernel)
  obtain ⟨s, hs, hend⟩ := hrun
  obtain ⟨hrefc, hrefs⟩ := of_decide_eq_true hend
  obtain ⟨x, hx, hthree⟩ := Option.map_eq_some_iff.mp hrefc
  have hcount := (hall s (hs.imp_step fun _ _ _ hstep => hstep.2)).refc 1 x hx
  rw [hthree, hrefs] at hcount
  exact absurd hcount (by decide)

end RefRun

end V4v.Windows
