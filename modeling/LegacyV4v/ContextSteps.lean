import LegacyV4v.ContextCount

/-! # The steps of a routine keep the count of contexts

A file gets its type, and an accepter its listener; an accept IRP is queued and taken; a reference is dropped, and
the last one frees the context; a file is cleaned up; and messages are read. -/
namespace V4v.Windows

namespace RefRun
variable {s t : RefRun} {op : RefOp} {rest push ops : List RefOp} {ctx actx l : Nat} {x : CountedContext}
  {l₁ l₂ : List (List RefOp)}

/-! ## Types and listeners -/

/-- **The exchange of the type**, for a context that is no listener and no accepter. -/
theorem Sound.retype (h : s.Sound) {type : FileType} {new : FileState}
    (hs : s.running = l₁ ++ (.retype ctx type new :: rest) :: l₂) (hx : s.contexts ctx = some x)
    (hok : s.typeOf ctx ≠ .listener ∧ s.listenerOf ctx = none) :
    (turned l₁ l₂ rest (s.setContext ctx { x with type := type }, [.exchange ctx new])).Sound := by
  obtain ⟨⟨hleave, htype, hnew⟩, hready⟩ := h.ready_of hs
  have hopened := hready.opened hleave
  obtain ⟨t, ht⟩ : ∃ t, t = turned l₁ l₂ rest (s.setContext ctx { x with type := type }, [.exchange ctx new]) :=
    ⟨_, rfl⟩
  have hturn : Turn s t (.retype ctx type new) rest [.exchange ctx new] := ht ▸ turn_turned hs _
  have hchanged : Changed s t ctx { x with type := type } := ht ▸ changed_turned _
  rw [← ht]
  clear ht
  have halike : Alike [.retype ctx type new] [.exchange ctx new] :=
    alike_idle (by simp [RefOp.Idle, RefOp.held]) (by simp [RefOp.Idle, RefOp.held])
  have hnone : x.listenerContext = none := listenerOf_some hx ▸ hok.2
  have hacc : ∀ c, t.accepters c = s.accepters c := fun c => by
    have hchange := hchanged.accepters h hx c
    rw [liveListener_some hchanged.self, liveListener_some hx] at hchange
    exact Nat.add_right_cancel hchange
  have hagree : Agrees s t ctx := by
    refine ⟨fun heq => absurd heq hok.1, fun heq => ?_, fun l hl => ?_, fun hclosed => absurd hopened hclosed⟩
    · exact absurd hok.2 ((h.good ctx).accepter heq)
    · rw [hok.2] at hl
      cases hl
  have hlisten : ∀ l, s.typeOf l = .listener → t.typeOf l = .listener := fun l hl => by
    by_cases hc : l = ctx
    · exact absurd (hc ▸ hl) hok.1
    · rw [typeOf, hchanged.others l hc]
      exact hl
  refine h.turn_context hturn hchanged (fun c _ => ?_) (fun c _ => (hturn.work.alike halike c).2) ?_ (fun a l hl => ?_)
    hagree fun hrest => ⟨⟨keeps_of_leave hleave, fun heq => ?_⟩, hrest⟩
  · rw [hacc, (hturn.work.alike halike c).1]
  · obtain ⟨htemp, hfree, hclean, hset⟩ := hturn.work.alike halike ctx
    refine hchanged.good (h.good ctx) hx rfl hopened (by rw [hacc, htemp]) hfree hclean (fun _ => hnone)
      (fun heq => absurd heq htype) (fun hne => absurd hnone hne) fun hstate => ?_
    exact absurd ((h.good ctx).listening x hx hstate) (typeOf_some hx ▸ hok.1)
  · refine hlisten l (h.listens a l (hl ▸ ?_))
    by_cases ha : a = ctx
    · rw [ha, liveListener_some hchanged.self, liveListener_some hx]
    · rw [liveListener, liveListener, hchanged.others a ha]
  · rw [typeOf_some hchanged.self]
    exact hnew heq

/-- **The accepter gets its listener.** -/
theorem Sound.setListener (h : s.Sound) {fate : AcceptFate}
    (hs : s.running = l₁ ++ (.accept .setListener ctx actx fate :: rest) :: l₂) (hx : s.contexts actx = some x)
    (hok : s.typeOf actx ≠ .listener ∧ s.listenerOf actx = none) :
    (turned l₁ l₂ rest (s.setContext actx { x with listenerContext := some ctx },
      [.accept .setType ctx actx fate])).Sound := by
  obtain ⟨⟨hleave, htype, hleave', -, -⟩, hready⟩ := h.ready_of hs
  have hopened := hready.opened (hleave' trivial)
  obtain ⟨t, ht⟩ : ∃ t, t = turned l₁ l₂ rest (s.setContext actx { x with listenerContext := some ctx },
    [.accept .setType ctx actx fate]) := ⟨_, rfl⟩
  have hturn : Turn s t (.accept .setListener ctx actx fate) rest [.accept .setType ctx actx fate] := ht ▸ turn_turned hs _
  have hchanged : Changed s t actx { x with listenerContext := some ctx } := ht ▸ changed_turned _
  rw [← ht]
  clear ht
  have hctx : s.typeOf ctx = .listener := htype (by decide)
  have hpos : 0 < x.refc := by
    have htwo := ((h.good actx).of_opened hopened).2.2
    rw [refcOf_some hx] at htwo
    omega
  have hnone : x.listenerContext = none := listenerOf_some hx ▸ hok.2
  have hlive : s.liveListener actx = none := by
    rw [liveListener_some hx, hnone, ite_self]
  have hlive' : t.liveListener actx = some ctx := by
    rw [liveListener_some hchanged.self, if_neg hpos.ne']
  have htypes : ∀ c, t.typeOf c = s.typeOf c := fun c => by
    by_cases hc : c = actx
    · rw [hc, typeOf_some hchanged.self, typeOf_some hx]
    · rw [typeOf, typeOf, hchanged.others c hc]
  have hwork : ∀ c, t.accepters c + t.temporary c = s.accepters c + s.temporary c ∧ t.freeing c = s.freeing c ∧
      t.cleaning c = s.cleaning c ∧ t.setting c = s.setting c + if actx = c then 1 else 0 := fun c => by
    have h₀ := hchanged.accepters h hx c
    obtain ⟨h₁, h₂, h₃, h₄⟩ := hturn.counts c
    rw [hlive, hlive'] at h₀
    simp only [List.map_cons, List.map_nil, List.sum_cons, List.sum_nil, RefOp.heldAt, RefOp.held, RefOp.freesAt,
      RefOp.cleansAt, RefOp.setsAt, List.count_cons, List.count_nil, reduceCtorEq, or_self, if_false, Nat.add_zero,
      Nat.zero_add, Option.some.injEq, beq_iff_eq] at h₀ h₁ h₂ h₃ h₄
    omega
  have hagree : Agrees s t actx := by
    refine ⟨fun heq => (htypes _).trans heq, fun heq => (htypes _).trans heq, fun l hl => ?_,
      fun hclosed => absurd hopened hclosed⟩
    rw [hok.2] at hl
    cases hl
  refine h.turn_context hturn hchanged (fun c _ => (hwork c).1) (fun c hc => ?_) ?_ (fun a l hl => ?_)
    hagree fun hrest => ⟨⟨hleave, fun _ => (htypes _).trans hctx, fun _ => hleave' trivial, fun _ => ?_,
      fun hf => hf.elim⟩, hrest⟩
  · obtain ⟨-, hfree, hclean, hset⟩ := hwork c
    rw [if_neg (Ne.symm hc)] at hset
    exact ⟨hfree, hclean, hset⟩
  · obtain ⟨hshared, hfree, hclean, hset⟩ := hwork actx
    rw [if_pos rfl] at hset
    refine hchanged.good (h.good actx) hx rfl hopened hshared hfree hclean
      (fun heq => absurd heq (typeOf_some hx ▸ hok.1)) (fun _ => Option.some_ne_none ctx) (fun _ => .inr ?_)
      ((h.good actx).listening x hx)
    rw [hset]
    exact Nat.succ_pos _
  · rw [htypes]
    by_cases ha : a = actx
    · rw [ha, hlive'] at hl
      cases hl
      exact hctx
    · rw [liveListener, hchanged.others a ha] at hl
      exact h.listens a l hl
  · exact listenerOf_some hchanged.self

/-- **The accepter gets its type.** -/
theorem Sound.setType (h : s.Sound) {fate : AcceptFate}
    (hs : s.running = l₁ ++ (.accept .setType ctx actx fate :: rest) :: l₂) (hx : s.contexts actx = some x) :
    (turned l₁ l₂ rest (s.setContext actx { x with type := .accepter }, [.accept .setState ctx actx fate])).Sound := by
  obtain ⟨⟨hleave, htype, hleave', hstored, -⟩, hready⟩ := h.ready_of hs
  have hopened := hready.opened (hleave' trivial)
  have hlistener := hstored trivial
  obtain ⟨t, ht⟩ : ∃ t, t = turned l₁ l₂ rest (s.setContext actx { x with type := .accepter },
    [.accept .setState ctx actx fate]) := ⟨_, rfl⟩
  have hturn : Turn s t (.accept .setType ctx actx fate) rest [.accept .setState ctx actx fate] := ht ▸ turn_turned hs _
  have hchanged : Changed s t actx { x with type := .accepter } := ht ▸ changed_turned _
  rw [← ht]
  clear ht
  have hne : s.typeOf actx ≠ .listener := fun heq => by
    rw [(h.good actx).alone heq] at hlistener
    cases hlistener
  have hlisten : ∀ l, s.typeOf l = .listener → t.typeOf l = .listener := fun l hl => by
    by_cases hc : l = actx
    · exact absurd (hc ▸ hl) hne
    · rw [typeOf, hchanged.others l hc]
      exact hl
  have hwork : ∀ c, t.accepters c + t.temporary c = s.accepters c + s.temporary c ∧ t.freeing c = s.freeing c ∧
      t.cleaning c = s.cleaning c ∧ s.setting c = t.setting c + if actx = c then 1 else 0 := fun c => by
    have h₀ := hchanged.accepters h hx c
    obtain ⟨h₁, h₂, h₃, h₄⟩ := hturn.counts c
    rw [liveListener_some hchanged.self, liveListener_some hx] at h₀
    simp only [List.map_cons, List.map_nil, List.sum_cons, List.sum_nil, RefOp.heldAt, RefOp.held, RefOp.freesAt,
      RefOp.cleansAt, RefOp.setsAt, List.count_cons, List.count_nil, reduceCtorEq, or_self, if_false, Nat.add_zero,
      Nat.zero_add, beq_iff_eq] at h₀ h₁ h₂ h₃ h₄
    omega
  have hagree : Agrees s t actx :=
    ⟨fun heq => absurd heq hne, fun _ => typeOf_some hchanged.self, fun l hl => by
      rw [listenerOf_some hchanged.self]
      exact listenerOf_some hx ▸ hl, fun hclosed => absurd hopened hclosed⟩
  refine h.turn_context hturn hchanged (fun c _ => (hwork c).1) (fun c hc => ?_) ?_ (fun a l hl => ?_)
    hagree fun hrest => ⟨⟨hleave, fun _ => hlisten _ (htype (by decide)), fun _ => hleave' trivial, fun _ => ?_,
      fun _ => ?_⟩, hrest⟩
  · obtain ⟨-, hfree, hclean, hset⟩ := hwork c
    rw [if_neg (Ne.symm hc)] at hset
    exact ⟨hfree, hclean, hset.symm⟩
  · obtain ⟨hshared, hfree, hclean, -⟩ := hwork actx
    refine hchanged.good (h.good actx) hx rfl hopened hshared hfree hclean (by rintro ⟨⟩)
      (fun _ hnone => ?_) (fun _ => .inl rfl) fun hstate => ?_
    · have hsome : x.listenerContext = some ctx := listenerOf_some hx ▸ hlistener
      rw [hnone] at hsome
      cases hsome
    · exact absurd ((h.good actx).listening x hx hstate) (typeOf_some hx ▸ hne)
  · refine hlisten l (h.listens a l (hl ▸ ?_))
    by_cases ha : a = actx
    · rw [ha, liveListener_some hchanged.self, liveListener_some hx]
    · rw [liveListener, liveListener, hchanged.others a ha]
  · exact hagree.listens _ hlistener
  · exact typeOf_some hchanged.self

/-! ## Accept IRPs -/

/-- **An accept IRP is queued.** -/
theorem Sound.insert (h : s.Sound) {fate : AcceptFate}
    (hs : s.running = l₁ ++ (.accept .insert ctx actx fate :: rest) :: l₂) :
    (turned l₁ l₂ rest ({ s with acceptIrps := s.acceptIrps ++ [(ctx, actx)] }, [.doAccepts ctx])).Sound := by
  obtain ⟨⟨hleave, -, hleave', hstored, htyped⟩, hready⟩ := h.ready_of hs
  obtain ⟨t, ht⟩ : ∃ t, t = turned l₁ l₂ rest
    ({ s with acceptIrps := s.acceptIrps ++ [(ctx, actx)] }, [.doAccepts ctx]) := ⟨_, rfl⟩
  have hturn : Turn s t (.accept .insert ctx actx fate) rest [.doAccepts ctx] := ht ▸ turn_turned hs _
  have hirps : t.acceptIrps = s.acceptIrps ++ [(ctx, actx)] := by rw [ht]; rfl
  have hcontexts : t.contexts = s.contexts := by rw [ht]; rfl
  have hopened : t.opened = s.opened := by rw [ht]; rfl
  have hsame : SameShape s t := by
    rw [ht]
    exact ⟨fun _ => rfl, rfl, rfl, rfl, rfl, rfl⟩
  rw [← ht]
  clear ht
  have hwork : ∀ c, t.irpsFor c + t.temporary c = s.irpsFor c + s.temporary c ∧ t.freeing c = s.freeing c ∧
      t.cleaning c = s.cleaning c ∧ t.setting c = s.setting c := fun c => by
    have h₀ : t.irpsFor c = s.irpsFor c + if actx = c then 1 else 0 := by
      rw [irpsFor, irpsFor, hirps, List.map_append, List.count_append, List.map_singleton, List.count_singleton]
      simp only [beq_iff_eq]
    obtain ⟨h₁, h₂, h₃, h₄⟩ := hturn.counts c
    simp only [List.map_cons, List.map_nil, List.sum_cons, List.sum_nil, RefOp.heldAt, RefOp.held, RefOp.freesAt,
      RefOp.cleansAt, RefOp.setsAt, List.count_cons, List.count_nil, reduceCtorEq, or_self, if_false, Nat.add_zero,
      Nat.zero_add, beq_iff_eq] at h₁ h₂ h₃ h₄
    omega
  refine h.handed hsame (fun c => (hwork c).1) (fun c => (hwork c).2) (fun p hp => ?_)
    (fun c x hx => (h.good c).listening x (hcontexts ▸ hx)) (h.ready_turn hturn
      (fun _ _ c _ => hsame.agrees c) hopened fun hrest =>
        ⟨keeps_of_leave hleave, hrest⟩)
  rw [hirps] at hp
  rcases List.mem_append.mp hp with hp | hp
  · exact h.irps p hp
  · rw [List.mem_singleton.mp hp]
    exact ⟨hstored trivial, htyped trivial⟩

theorem irpsFor_erase {p : Nat × Nat} (hp : p ∈ s.acceptIrps) (ht : t.acceptIrps = s.acceptIrps.erase p) (c : Nat) :
    t.irpsFor c + (if p.2 = c then 1 else 0) = s.irpsFor c := by
  have hperm := ((List.perm_cons_erase hp).map Prod.snd).count_eq c
  rw [List.map_cons, List.count_cons] at hperm
  rw [irpsFor, irpsFor, ht, hperm]
  simp only [beq_iff_eq]

/-- **An accept IRP is taken**, whose accepter has a handle. -/
theorem Sound.takeIrp (h : s.Sound) {p : Nat × Nat} {more : List RefOp}
    (hs : s.running = l₁ ++ (.doAccepts ctx :: rest) :: l₂) (hp : p ∈ s.acceptIrps) (hopen : p.2 ∈ s.opened)
    (hmore : more = [] ∨ more = [.exchange p.2 .disconnected]) :
    (turned l₁ l₂ rest ({ s with acceptIrps := s.acceptIrps.erase p },
      [.release p.2, .exchange p.2 .accepted, .touch p.2] ++ more ++ [.leave p.2, .doAccepts ctx])).Sound := by
  obtain ⟨hreq, hready⟩ := h.ready_of hs
  obtain ⟨push, hpush⟩ : ∃ push, push = [.release p.2, .exchange p.2 .accepted, .touch p.2] ++ more ++
    [.leave p.2, .doAccepts ctx] := ⟨_, rfl⟩
  obtain ⟨t, ht⟩ : ∃ t, t = turned l₁ l₂ rest ({ s with acceptIrps := s.acceptIrps.erase p }, push) := ⟨_, rfl⟩
  have hturn : Turn s t (.doAccepts ctx) rest push := ht ▸ turn_turned hs _
  have hirps : t.acceptIrps = s.acceptIrps.erase p := by rw [ht]; rfl
  have hcontexts : t.contexts = s.contexts := by rw [ht]; rfl
  have hopened : t.opened = s.opened := by rw [ht]; rfl
  have hsame : SameShape s t := by
    rw [ht]
    exact ⟨fun _ => rfl, rfl, rfl, rfl, rfl, rfl⟩
  rw [← hpush, ← ht]
  clear ht
  have hwork : ∀ c, t.irpsFor c + t.temporary c = s.irpsFor c + s.temporary c ∧ t.freeing c = s.freeing c ∧
      t.cleaning c = s.cleaning c ∧ t.setting c = s.setting c := fun c => by
    have h₀ := irpsFor_erase hp hirps c
    obtain ⟨h₁, h₂, h₃, h₄⟩ := hturn.counts c
    rw [hpush] at h₁ h₂ h₃ h₄
    rcases hmore with rfl | rfl <;>
    simp only [List.map_append, List.sum_append, List.map_cons, List.map_nil, List.sum_cons, List.sum_nil,
      RefOp.heldAt, RefOp.held, RefOp.freesAt, RefOp.cleansAt, RefOp.setsAt, List.count_cons, List.count_nil,
      reduceCtorEq, or_self, if_false, Nat.add_zero, Nat.zero_add, beq_iff_eq] at h₁ h₂ h₃ h₄ <;>
    omega
  refine h.handed hsame (fun c => (hwork c).1) (fun c => (hwork c).2)
    (fun q hq => h.irps q (List.mem_of_mem_erase (hirps ▸ hq)))
    (fun c x hx => (h.good c).listening x (hcontexts ▸ hx)) (h.ready_turn hturn
      (fun _ _ c _ => hsame.agrees c) hopened fun hrest => ?_)
  have htype : t.typeOf p.2 = .accepter := (typeOf_congr (hsame.contexts p.2)).trans (h.irps p hp).2
  have hleave : t.Ready ([.leave p.2, .doAccepts ctx] ++ rest) :=
    ⟨show p.2 ∈ t.opened from hopened ▸ hopen, hreq, hrest⟩
  have hkeeps : ∀ ops : List RefOp, Keeps (ops ++ ([.leave p.2, .doAccepts ctx] ++ rest)) p.2 := fun ops =>
    keeps_of_leave (List.mem_append_right _ List.mem_cons_self)
  have hmore : t.Ready (more ++ ([.leave p.2, .doAccepts ctx] ++ rest)) := by
    rcases hmore with rfl | rfl
    · exact hleave
    · exact ⟨⟨hkeeps [], by rintro ⟨⟩⟩, hleave⟩
  rw [hpush, List.append_assoc, List.append_assoc]
  exact ⟨.inr (.inr (.inr htype)), ⟨hkeeps (.touch p.2 :: more), by rintro ⟨⟩⟩, hkeeps more, hmore⟩

/-! ## A reference is dropped -/

/-- A step that drops a reference to `ctx`. -/
def RefOp.Drops (op : RefOp) (ctx : Nat) : Prop := (∃ val, op = .drop ctx val) ∨ op = .releaseLocked ctx

theorem count_singleton_eq (c a : Nat) : [a].count c = if c = a then 1 else 0 :=
  List.count_singleton.trans (if_congr (beq_iff_eq.trans eq_comm) rfl rfl)

theorem RefOp.Drops.weights (h : RefOp.Drops op ctx) (c : Nat) :
    op.heldAt c = (if c = ctx then 1 else 0) ∧ op.freesAt c = 0 ∧ op.cleansAt c = 0 ∧ op.setsAt c = 0 := by
  rcases h with ⟨val, rfl⟩ | rfl <;>
  exact ⟨count_singleton_eq c ctx, if_neg nofun,
    if_neg (by simp only [reduceCtorEq, or_self, not_false_eq_true]), rfl⟩

/-- It is not the last one, nor does the list alone keep a listener. -/
theorem Sound.dropRef (h : s.Sound) (hs : s.running = l₁ ++ (op :: rest) :: l₂) (hop : RefOp.Drops op ctx)
    (hx : s.contexts ctx = some x) {n : Nat} (hn : x.refc = n + 1) (hpos : 0 < n)
    (htwo : s.typeOf ctx = .listener → n ≠ 1) :
    (turned l₁ l₂ rest (s.setContext ctx { x with refc := n }, [])).Sound := by
  refine h.recount hs hx (by omega) hpos (fun hl => ?_) (fun c => ?_) (fun c => (hop.weights c).2.1.symm)
    (fun c => (hop.weights c).2.2.1.symm) (fun c => (hop.weights c).2.2.2.symm) (h.ready_of hs).2
  · have hne := htwo hl
    omega
  · rw [(hop.weights c).1]
    split
    · simp only [List.map_nil, List.sum_nil]
      omega
    · rfl

/-- A step of a routine has what it relies on. -/
theorem Ready.req (h : s.Ready ops) (hmem : op ∈ ops) : ∃ rest, s.Req rest op ∧ ∀ o ∈ rest, o ∈ ops := by
  induction ops with
  | nil => cases hmem
  | cons o rest ih =>
    rcases List.mem_cons.mp hmem with rfl | hmem
    · exact ⟨rest, h.1, fun o ho => List.mem_cons_of_mem _ ho⟩
    · obtain ⟨rest', hreq, hsub⟩ := ih h.2 hmem
      exact ⟨rest', hreq, fun o ho => List.mem_cons_of_mem _ (hsub o ho)⟩

/-- A step that counts is in some routine. -/
theorem exists_of_total {μ : RefOp → Nat} (hpos : 0 < s.total μ) :
    ∃ ops ∈ s.running, ∃ op ∈ ops, 0 < μ op := by
  obtain ⟨n, hn, hone⟩ := List.exists_mem_ne_zero_of_sum_ne_zero hpos.ne'
  obtain ⟨op, hop, rfl⟩ := List.mem_map.mp hn
  obtain ⟨ops, hops, hmem⟩ := List.mem_flatten.mp hop
  exact ⟨ops, hops, op, hmem, Nat.pos_of_ne_zero hone⟩

/-- The file that is about to become an accepter has a handle. -/
theorem Sound.opened_of_setting (h : s.Sound) (hpos : 0 < s.setting ctx) : ctx ∈ s.opened := by
  obtain ⟨ops, hops, op, hmem, hone⟩ := exists_of_total hpos
  have hready := h.ready ops hops
  obtain ⟨rest, hreq, hsub⟩ := hready.req hmem
  cases op with
  | accept pc c actx fate =>
    cases pc with
    | setType =>
      have heq : actx = ctx := by
        by_contra hne
        exact absurd hone (by rw [RefOp.setsAt, if_neg hne]; exact Nat.lt_irrefl 0)
      exact heq ▸ hready.opened (hsub _ (hreq.2.2.1 trivial))
    | _ => exact absurd hone (Nat.lt_irrefl 0)
  | _ => exact absurd hone (Nat.lt_irrefl 0)

/-- The file that is being cleaned up has none, and the cleanup holds a reference. -/
theorem of_cleaning (h : ∀ ops ∈ s.running, s.Ready ops) (hpos : 0 < s.cleaning ctx) :
    ctx ∉ s.opened ∧ 0 < s.temporary ctx := by
  obtain ⟨ops, hops, op, hmem, hone⟩ := exists_of_total hpos
  have hready := h ops hops
  obtain ⟨rest, hreq, hsub⟩ := hready.req hmem
  have hcleans : op = .cleanup ctx ∨ op = .unlink ctx := by
    by_contra hne
    exact absurd hone (by rw [RefOp.cleansAt, if_neg hne]; exact Nat.lt_irrefl 0)
  have hheld : ∀ o ∈ ops, 0 < RefOp.heldAt ctx o → 0 < s.temporary ctx := fun o ho hlt =>
    Nat.lt_of_lt_of_le hlt (le_total hops ho)
  rcases hcleans with rfl | rfl
  · exact ⟨hreq, hheld _ hmem (List.count_pos_iff.mpr List.mem_cons_self)⟩
  · exact ⟨hreq.2.1, hheld _ (hsub _ hreq.1) (List.count_pos_iff.mpr List.mem_cons_self)⟩

theorem Sound.accepters_pos (h : s.Sound) (hl : s.liveListener actx = some l) : 0 < s.accepters l := by
  have hmem : actx ∈ s.created := by
    refine (h.good actx).created fun hnone => ?_
    rw [liveListener, hnone] at hl
    cases hl
  exact List.countP_pos_iff.mpr ⟨actx, hmem, by rw [hl]; exact beq_self_eq_true _⟩

/-- A dropped reference was one. -/
theorem held_pos (hs : s.running = l₁ ++ (op :: rest) :: l₂) (hheld : 0 < op.heldAt ctx) : 0 < s.temporary ctx :=
  Nat.lt_of_lt_of_le hheld (le_total (hs ▸ List.mem_append_right _ List.mem_cons_self) List.mem_cons_self)

/-- **The last reference is dropped.**  An accepter releases its listener. -/
theorem Sound.dropLast (h : s.Sound) (hs : s.running = l₁ ++ (op :: rest) :: l₂) (hop : RefOp.Drops op ctx)
    (hx : s.contexts ctx = some x) (hone : x.refc = 1) {given : List RefOp}
    (hgiven : given = [] ∧ x.listenerContext = none ∨
      ∃ l, x.listenerContext = some l ∧ x.type = .accepter ∧ (given = [.release l] ∨ given = [.releaseLocked l])) :
    (turned l₁ l₂ rest (s.setContext ctx { x with refc := 0 }, given ++ [.free ctx])).Sound := by
  have hg := h.good ctx
  have hrefs := hg.refs
  rw [refcOf_some hx, hone] at hrefs
  have htemp : 0 < s.temporary ctx := held_pos hs (by rw [(hop.weights ctx).1, if_pos rfl]; exact Nat.one_pos)
  have hnot : s.typeOf ctx ≠ .listener := fun hl => by
    have htwo := (hg.listener hl (by rw [refcOf_some hx, hone]; exact Nat.one_pos)).2
    rw [refcOf_some hx, hone] at htwo
    omega
  obtain ⟨t, ht⟩ : ∃ t, t = turned l₁ l₂ rest (s.setContext ctx { x with refc := 0 }, given ++ [.free ctx]) :=
    ⟨_, rfl⟩
  have hturn : Turn s t op rest (given ++ [.free ctx]) := ht ▸ turn_turned hs _
  have hchanged : Changed s t ctx { x with refc := 0 } := ht ▸ changed_turned _
  rw [← ht]
  clear ht
  have hlive : s.liveListener ctx = x.listenerContext := by
    rw [liveListener_some hx, if_neg (by omega)]
  have hlive' : t.liveListener ctx = none := by
    rw [liveListener_some hchanged.self]
    rfl
  have htypes : ∀ c, t.typeOf c = s.typeOf c := fun c => by
    by_cases hc : c = ctx
    · rw [hc, typeOf_some hchanged.self, typeOf_some hx]
    · rw [typeOf, typeOf, hchanged.others c hc]
  have hlistener : t.listenerOf ctx = s.listenerOf ctx := by
    rw [listenerOf_some hchanged.self, listenerOf_some hx]
  -- What is given holds the listener of an accepter, and nothing else.
  have hsums : ∀ c, (given.map (RefOp.heldAt c)).sum = (if x.listenerContext = some c then 1 else 0) ∧
      (given.map (RefOp.freesAt c)).sum = 0 ∧ (given.map (RefOp.cleansAt c)).sum = 0 ∧
      (given.map (RefOp.setsAt c)).sum = 0 := fun c => by
    rcases hgiven with ⟨rfl, hnone⟩ | ⟨l, hl, -, rfl | rfl⟩
    · rw [hnone]
      exact ⟨rfl, rfl, rfl, rfl⟩
    all_goals
      rw [hl]
      simp only [List.map_cons, List.map_nil, List.sum_cons, List.sum_nil, RefOp.heldAt, RefOp.held, RefOp.freesAt,
        RefOp.cleansAt, RefOp.setsAt, List.count_cons, List.count_nil, reduceCtorEq, or_self, if_false, Nat.add_zero,
        Nat.zero_add, Option.some.injEq, beq_iff_eq, and_self]
  have hwork : ∀ c, t.accepters c + t.temporary c + (if c = ctx then 1 else 0) = s.accepters c + s.temporary c ∧
      t.freeing c = s.freeing c + (if ctx = c then 1 else 0) ∧ t.cleaning c = s.cleaning c ∧
      t.setting c = s.setting c := fun c => by
    have h₀ := hchanged.accepters h hx c
    obtain ⟨h₁, h₂, h₃, h₄⟩ := hturn.counts c
    obtain ⟨hheld, hfrees, hcleans, hsets⟩ := hsums c
    obtain ⟨wheld, wfrees, wcleans, wsets⟩ := hop.weights c
    have hfreeHeld : RefOp.heldAt c (.free ctx) = 0 := rfl
    have hfreeFrees : RefOp.freesAt c (.free ctx) = if ctx = c then 1 else 0 :=
      if_congr ⟨fun heq => RefOp.free.inj heq, fun heq => heq ▸ rfl⟩ rfl rfl
    have hfreeCleans : RefOp.cleansAt c (.free ctx) = 0 := if_neg (by simp only [reduceCtorEq, or_self, not_false_eq_true])
    have hfreeSets : RefOp.setsAt c (.free ctx) = 0 := rfl
    rw [List.map_append, List.sum_append, List.map_singleton, List.sum_singleton] at h₁ h₂ h₃ h₄
    rw [hlive, hlive', if_neg (Option.some_ne_none c).symm] at h₀
    rw [hheld, hfreeHeld, wheld] at h₁
    rw [hfrees, hfreeFrees, wfrees] at h₂
    rw [hcleans, hfreeCleans, wcleans] at h₃
    rw [hsets, hfreeSets, wsets] at h₄
    omega
  have hagree : Agrees s t ctx := ⟨fun heq => (htypes _).trans heq, fun heq => (htypes _).trans heq,
    fun l heq => hlistener.trans heq, fun hclosed => ⟨hchanged.opened ▸ hclosed, htypes _⟩⟩
  refine h.turn_context hturn hchanged (fun c hc => ?_) (fun c hc => ?_) ?_ (fun a l hl => ?_) hagree fun hrest => ?_
  · have hshared := (hwork c).1
    rw [if_neg hc] at hshared
    exact hshared
  · obtain ⟨-, hfree, hclean, hset⟩ := hwork c
    rw [if_neg (Ne.symm hc)] at hfree
    exact ⟨hfree, hclean, hset⟩
  · obtain ⟨hshared, hfree, hclean, hset⟩ := hwork ctx
    rw [if_pos rfl] at hshared hfree
    have hcleaning := hg.cleaning
    have hfreed := hg.freed
    rw [hx, Option.any_some, hone] at hfreed
    have hfreed : s.freeing ctx = 0 := hfreed
    constructor
    · exact hg.toTyped.recount hx hchanged.self hset hchanged.created
    · rw [refcOf_some hchanged.self, hchanged.contextList, hchanged.opened, irpsFor, hchanged.acceptIrps]
      rw [irpsFor] at hrefs
      dsimp only
      omega
    · rw [hfree, hfreed, hchanged.self]
      rfl
    · rw [hchanged.contextList]; exact hg.once
    · rw [hchanged.contextList, hchanged.opened]; exact hg.opened
    · rw [hchanged.contextList, hclean]; exact hg.cleaning
    · rw [hchanged.contextList, hchanged.opened, hclean, htypes]; exact hg.listed
    · rw [htypes]; exact fun hl => absurd hl hnot
  · rw [htypes]
    by_cases ha : a = ctx
    · rw [ha, hlive'] at hl
      cases hl
    · rw [liveListener, hchanged.others a ha] at hl
      exact h.listens a l hl
  · rcases hgiven with ⟨rfl, -⟩ | ⟨l, hl, -, rfl | rfl⟩
    · exact ⟨trivial, hrest⟩
    · have htype : t.typeOf l = .listener := (htypes l).trans (h.listens ctx l (hlive.trans hl))
      exact ⟨.inr (.inr (.inl htype)), trivial, hrest⟩
    · exact ⟨trivial, trivial, hrest⟩

/-- **A context goes off the list**, and the count changes. -/
theorem Sound.unlist (h : s.Sound) (hs : s.running = l₁ ++ (op :: rest) :: l₂) (hx : s.contexts ctx = some x)
    (hpos : 0 < x.refc) {n : Nat} (hmem : ctx ∈ s.contextList) (hclosed : ctx ∉ s.opened)
    (hzero : n = 0 → x.listenerContext = none) (hnot : 0 < n → s.typeOf ctx ≠ .listener ∧ op.cleansAt ctx = 1)
    (hheld : ∀ c, (push.map (RefOp.heldAt c)).sum + (if c = ctx then x.refc else 0) =
      op.heldAt c + if c = ctx then n + 1 else 0)
    (hfrees : ∀ c, (push.map (RefOp.freesAt c)).sum = op.freesAt c + if c = ctx ∧ n = 0 then 1 else 0)
    (hcleans : ∀ c, (push.map (RefOp.cleansAt c)).sum = 0 ∧ (c ≠ ctx → op.cleansAt c = 0))
    (hsets : ∀ c, (push.map (RefOp.setsAt c)).sum = op.setsAt c) (hpush : s.Ready (push ++ rest)) :
    (turned l₁ l₂ rest ({ s.setContext ctx { x with refc := n } with
      contextList := s.contextList.erase ctx
      contextCount := s.contextCount - 1 }, push)).Sound := by
  obtain ⟨t, ht⟩ : ∃ t, t = turned l₁ l₂ rest ({ s.setContext ctx { x with refc := n } with
      contextList := s.contextList.erase ctx
      contextCount := s.contextCount - 1 }, push) := ⟨_, rfl⟩
  have hturn : Turn s t op rest push := ht ▸ turn_turned hs _
  have hself : t.contexts ctx = some { x with refc := n } := ht ▸ Function.update_self ..
  have hothers : ∀ c ≠ ctx, t.contexts c = s.contexts c := fun c hc => ht ▸ Function.update_of_ne hc ..
  have hlist : t.contextList = s.contextList.erase ctx := by rw [ht]; rfl
  have hopened : t.opened = s.opened := by rw [ht]; rfl
  have hirps : t.acceptIrps = s.acceptIrps := by rw [ht]; rfl
  have hcreated : t.created = s.created := by rw [ht]; rfl
  have hcount : t.contextCount = t.contextList.length := by
    have hlength := List.length_pos_of_mem hmem
    have hold := h.count
    have hnew : t.contextCount = s.contextCount - 1 := by rw [ht]; rfl
    rw [hnew, hlist, List.length_erase_of_mem hmem]
    omega
  have hstrayed : t.strayed = s.strayed := by rw [ht]; rfl
  rw [← ht]
  clear ht
  have hg := h.good ctx
  have htypes : ∀ c, t.typeOf c = s.typeOf c := fun c => by
    by_cases hc : c = ctx
    · rw [hc, typeOf_some hself, typeOf_some hx]
    · rw [typeOf, typeOf, hothers c hc]
  have hlistener : t.listenerOf ctx = s.listenerOf ctx := by
    rw [listenerOf_some hself, listenerOf_some hx]
  have hlive : ∀ c, t.liveListener c = s.liveListener c := fun c => by
    by_cases hc : c = ctx
    · rw [hc, liveListener_some hself, liveListener_some hx, if_neg hpos.ne']
      split
      · next hn => exact (hzero hn).symm
      · rfl
    · rw [liveListener, liveListener, hothers c hc]
  have hacc : ∀ c, t.accepters c = s.accepters c := fun c => by
    unfold accepters
    rw [hcreated]
    exact List.countP_congr fun a _ => by rw [hlive]
  have hirpsFor : ∀ c, t.irpsFor c = s.irpsFor c := fun c => by rw [irpsFor, irpsFor, hirps]
  have hagree : ∀ c, Agrees s t c := fun c => by
    by_cases hc : c = ctx
    · rw [hc]
      exact ⟨fun heq => (htypes _).trans heq, fun heq => (htypes _).trans heq,
        fun l heq => hlistener.trans heq, fun hclosed => ⟨hopened ▸ hclosed, htypes _⟩⟩
    · exact agrees_congr (sameContext_of_eq (hothers c hc)) fun hclosed => hopened ▸ hclosed
  have hready := h.ready_turn hturn (fun _ _ c _ => hagree c) hopened fun _ =>
    hpush.mono (fun c _ => hagree c) fun c _ hc => hopened ▸ hc
  have hwork : ∀ c, t.temporary c + (if c = ctx then x.refc else 0) = s.temporary c + (if c = ctx then n + 1 else 0) ∧
      t.freeing c = s.freeing c + (if c = ctx ∧ n = 0 then 1 else 0) ∧
      t.cleaning c + op.cleansAt c = s.cleaning c ∧ t.setting c = s.setting c := fun c => by
    have h₀ := hheld c
    obtain ⟨h₁, h₂, h₃, h₄⟩ := hturn.counts c
    rw [hfrees] at h₂
    rw [(hcleans c).1] at h₃
    rw [hsets] at h₄
    omega
  have hone : s.contextList.count ctx = 1 := by
    have hlt := List.count_pos_iff.mpr hmem
    have hle := hg.once
    omega
  have hnone : t.contextList.count ctx = 0 := by
    rw [hlist, List.count_erase_self, hone]
  refine h.turn_at hturn ctx (fun c hc => ?_) ?_ (fun a l hl => ?_) (fun p hp => ?_) hcount hcreated hstrayed hopened
    (fun _ _ _ => hagree ctx) fun _ => hpush.mono (fun c _ => hagree c) fun c _ hc => hopened ▸ hc
  · obtain ⟨htemp, hfree, hclean, hset⟩ := hwork c
    rw [if_neg hc, if_neg hc] at htemp
    rw [if_neg fun hand => hc hand.1] at hfree
    rw [(hcleans c).2 hc] at hclean
    refine ⟨sameContext_of_eq (hothers c hc), by rw [hlist, List.count_erase_of_ne hc], by rw [hopened], ?_, hfree,
      hclean, hset, by rw [hothers c hc]; exact (h.good c).listening, fun hmem => hcreated ▸ hmem⟩
    rw [hirpsFor, hacc, Nat.add_right_cancel htemp]
  · obtain ⟨htemp, hfree, hclean, hset⟩ := hwork ctx
    rw [if_pos rfl, if_pos rfl] at htemp
    have hrefs := hg.refs
    have hopen : s.opened.count ctx = 0 := List.count_eq_zero_of_not_mem hclosed
    rw [refcOf_some hx, hone, hopen] at hrefs
    have hsum : n = t.irpsFor ctx + t.accepters ctx + t.temporary ctx := by
      rw [hirpsFor, hacc]
      omega
    have hcleaning : t.cleaning ctx = 0 := by
      rcases Nat.eq_zero_or_pos n with hn | hn
      · by_contra hne
        have hheld := (of_cleaning hready (Nat.pos_of_ne_zero hne)).2
        omega
      · have hle := hg.cleaning
        rw [(hnot hn).2] at hclean
        omega
    constructor
    · exact hg.toTyped.recount hx hself hset hcreated
    · rw [refcOf_some hself, hnone, hopened, hopen]
      dsimp only
      omega
    · have hfreed := hg.freed
      rw [hx, Option.any_some, beq_false_of_ne hpos.ne'] at hfreed
      rw [hfree, hfreed, hself]
      simp only [Option.any_some, beq_iff_eq, true_and, Bool.false_eq_true, if_false, Nat.zero_add]
    · rw [hnone]; exact Nat.zero_le 1
    · rw [hnone, hopened, hopen]
    · rw [hnone, hcleaning]
    · rw [hnone]; exact fun hlt => absurd hlt (Nat.lt_irrefl 0)
    · rw [htypes, refcOf_some hself]
      exact fun hl hn => absurd hl (hnot hn).1
  · rw [hlive] at hl
    rw [htypes]
    exact h.listens a l hl
  · rw [hirps] at hp
    obtain ⟨hlistens, htype⟩ := h.irps p hp
    exact ⟨(hagree _).listens _ hlistens, (hagree _).accepter htype⟩

/-- **The list alone has kept the listener**, and it goes. -/
theorem Sound.dropListener (h : s.Sound) (hs : s.running = l₁ ++ (op :: rest) :: l₂) (hop : RefOp.Drops op ctx)
    (hx : s.contexts ctx = some x) (htwo : x.refc = 2) (hl : s.typeOf ctx = .listener) :
    (turned l₁ l₂ rest ({ s.setContext ctx { x with refc := 0 } with
      contextList := s.contextList.erase ctx
      contextCount := s.contextCount - 1 }, [.free ctx])).Sound := by
  have hg := h.good ctx
  have hlist := (hg.listener hl (by rw [refcOf_some hx, htwo]; exact Nat.two_pos)).1
  have htemp : 0 < s.temporary ctx := held_pos hs (by rw [(hop.weights ctx).1, if_pos rfl]; exact Nat.one_pos)
  have hrefs := hg.refs
  rw [refcOf_some hx, htwo] at hrefs
  have hclosed : ctx ∉ s.opened := fun hopened => by
    have hlt := List.count_pos_iff.mpr hopened
    omega
  have hnone : x.listenerContext = none := listenerOf_some hx ▸ hg.alone hl
  refine h.unlist hs hx (by omega) (List.count_pos_iff.mp hlist) hclosed (fun _ => hnone)
    (fun hlt => absurd hlt (Nat.lt_irrefl 0)) (fun c => ?_) (fun c => ?_) (fun c => ?_) (fun c => ?_)
    ⟨trivial, (h.ready_of hs).2⟩
  · rw [(hop.weights c).1, htwo]
    split <;> rfl
  · rw [(hop.weights c).2.1, List.map_singleton, List.sum_singleton, RefOp.freesAt, Nat.zero_add]
    exact if_congr ⟨fun heq => ⟨(RefOp.free.inj heq).symm, rfl⟩, fun heq => heq.1 ▸ rfl⟩ rfl rfl
  · refine ⟨?_, fun _ => (hop.weights c).2.2.1⟩
    rw [List.map_singleton, List.sum_singleton]
    exact if_neg (by simp only [reduceCtorEq, or_self, not_false_eq_true])
  · rw [(hop.weights c).2.2.2]
    rfl

/-- **A reference is dropped**, by a step that has read the type, or sees that of a file that has a handle. -/
theorem Sound.dropped (h : s.Sound) (hs : s.running = l₁ ++ (op :: rest) :: l₂) (hop : RefOp.Drops op ctx)
    (hx : s.contexts ctx = some x) (hpos : 0 < x.refc) {val : FileType}
    (hval : .leave ctx ∈ rest ∨ val = s.typeOf ctx) (locked : Bool) :
    (turned l₁ l₂ rest (s.dropped ctx x val locked)).Sound := by
  have hg := h.good ctx
  have hrefs := hg.refs
  have htemp : 0 < s.temporary ctx := held_pos hs (by rw [(hop.weights ctx).1, if_pos rfl]; exact Nat.one_pos)
  rw [refcOf_some hx] at hrefs
  have hcount : countDown x.refc = x.refc - 1 := if_neg hpos.ne'
  -- With a handle and the list, more than one reference is left.
  have htype : x.refc ≤ 2 → val = x.type := fun hle => by
    refine (hval.resolve_left fun hleave => ?_).trans (typeOf_some hx)
    have hopened := hg.of_opened ((h.ready_of hs).2.opened hleave)
    omega
  unfold RefRun.dropped
  dsimp only
  rw [hcount]
  split
  · next hcond =>
    have htwo : x.refc = 2 := by omega
    exact h.dropListener hs hop hx htwo ((typeOf_some hx).trans ((htype htwo.le).symm.trans hcond.1))
  · next hcond =>
    split
    · next hzero =>
      have hone : x.refc = 1 := by omega
      have hval := htype (by omega)
      have hlast : ∀ given : List RefOp, (given = [] ∧ x.listenerContext = none ∨
          ∃ l, x.listenerContext = some l ∧ x.type = .accepter ∧
            (given = [.release l] ∨ given = [.releaseLocked l])) →
          (turned l₁ l₂ rest (s.setContext ctx { x with refc := 0 }, given ++ [.free ctx])).Sound :=
        fun given hgiven => h.dropLast hs hop hx hone hgiven
      split
      · next l hl _ =>
        have hgiven : ([if locked then .releaseLocked l else .release l] : List RefOp) = [.release l] ∨
            ([if locked then .releaseLocked l else .release l] : List RefOp) = [.releaseLocked l] := by
          cases locked
          · exact .inl rfl
          · exact .inr rfl
        exact hlast [if locked then .releaseLocked l else .release l] (.inr ⟨l, hl, hval.symm, hgiven⟩)
      · next hother =>
        refine hlast [] (.inl ⟨rfl, ?_⟩)
        by_contra hne
        obtain ⟨l, hl⟩ := Option.ne_none_iff_exists'.mp hne
        have hsome : s.listenerOf ctx ≠ none := by rw [listenerOf_some hx, hl]; exact nofun
        rcases hg.setting hsome with hacc | hset
        · exact hother l (hval.trans ((typeOf_some hx).symm.trans hacc)) hl
        · have hopened := hg.of_opened (h.opened_of_setting hset)
          rw [refcOf_some hx] at hopened
          omega
    · next hzero =>
      refine h.dropRef hs hop hx (by omega) (by omega) fun hl hn => hcond ⟨?_, hn⟩
      exact (htype (by omega)).trans ((typeOf_some hx).symm.trans hl)

/-- **The cleanup takes the context off the list.** -/
theorem Sound.unlink (h : s.Sound) (hs : s.running = l₁ ++ (.unlink ctx :: rest) :: l₂)
    (hx : s.contexts ctx = some x) :
    (turned l₁ l₂ rest ({ ({ s with contextList := s.contextList.erase ctx }.dropped ctx x x.type true).1 with
        contextCount := ({ s with contextList := s.contextList.erase ctx }.dropped ctx x x.type true).1.contextCount - 1 },
      ({ s with contextList := s.contextList.erase ctx }.dropped ctx x x.type true).2)).Sound := by
  obtain ⟨⟨hrelease, hclosed, htype⟩, hready⟩ := h.ready_of hs
  have hg := h.good ctx
  have hmem : RefOp.unlink ctx :: rest ∈ s.running := hs ▸ List.mem_append_right _ List.mem_cons_self
  have hcleans : RefOp.cleansAt ctx (.unlink ctx) = 1 := if_pos (.inr rfl)
  have hlist : 0 < s.contextList.count ctx := by
    have hone : RefOp.cleansAt ctx (.unlink ctx) ≤ s.cleaning ctx := le_total hmem List.mem_cons_self
    have hle := hg.cleaning
    omega
  have htemp : 0 < s.temporary ctx := by
    have hone : RefOp.heldAt ctx (.release ctx) ≤ s.temporary ctx := le_total hmem (List.mem_cons_of_mem _ hrelease)
    have hheld : 0 < RefOp.heldAt ctx (.release ctx) := List.count_pos_iff.mpr List.mem_cons_self
    exact Nat.lt_of_lt_of_le hheld hone
  have hrefs := hg.refs
  rw [refcOf_some hx] at hrefs
  have hpos : 0 < x.refc := by omega
  have hne : x.type ≠ .listener := typeOf_some hx ▸ htype
  have hcount : countDown x.refc = x.refc - 1 := if_neg hpos.ne'
  have hdropped : { s with contextList := s.contextList.erase ctx }.dropped ctx x x.type true =
      ({ s with contextList := s.contextList.erase ctx }.setContext ctx { x with refc := x.refc - 1 }, []) := by
    unfold RefRun.dropped
    dsimp only
    rw [hcount, if_neg fun hand => hne hand.1, if_neg (by omega)]
  rw [hdropped]
  refine h.unlist hs hx hpos (List.count_pos_iff.mp hlist) hclosed (fun hzero => absurd hzero (by omega))
    (fun _ => ⟨htype, hcleans⟩) (fun c => ?_) (fun c => ?_) (fun c => ⟨rfl, fun hc => if_neg ?_⟩) (fun _ => rfl)
    hready
  · have hheld : RefOp.heldAt c (.unlink ctx) = 0 := rfl
    rw [hheld, Nat.sub_add_cancel hpos]
    rfl
  · have hfrees : RefOp.freesAt c (.unlink ctx) = 0 := if_neg nofun
    rw [hfrees, if_neg fun hand => absurd hand.2 (by omega)]
    rfl
  · rintro (heq | heq)
    · cases heq
    · exact hc (RefOp.unlink.inj heq).symm

/-- **A context is freed.** -/
theorem Sound.free (h : s.Sound) (hs : s.running = l₁ ++ (.free ctx :: rest) :: l₂) :
    (∃ x, s.contexts ctx = some x) ∧
      (turned l₁ l₂ rest ({ s with contexts := Function.update s.contexts ctx none }, [])).Sound := by
  have hg := h.good ctx
  have hmem : RefOp.free ctx :: rest ∈ s.running := hs ▸ List.mem_append_right _ List.mem_cons_self
  have hfrees : RefOp.freesAt ctx (.free ctx) ≤ s.freeing ctx := le_total hmem List.mem_cons_self
  have hself : RefOp.freesAt ctx (.free ctx) = 1 := if_pos rfl
  have hany : ((s.contexts ctx).any fun x => x.refc == 0) = true := by
    by_contra hne
    have hfreed := hg.freed
    rw [if_neg hne] at hfreed
    omega
  have hone : s.freeing ctx = 1 := hg.freed.trans (if_pos hany)
  obtain ⟨x, hx, hzero⟩ := (Option.any_eq_true ..).mp hany
  have hzero : x.refc = 0 := beq_iff_eq.mp hzero
  refine ⟨⟨x, hx⟩, ?_⟩
  obtain ⟨t, ht⟩ : ∃ t, t = turned l₁ l₂ rest ({ s with contexts := Function.update s.contexts ctx none }, []) :=
    ⟨_, rfl⟩
  have hturn : Turn s t (.free ctx) rest [] := ht ▸ turn_turned hs _
  have hgone : t.contexts ctx = none := ht ▸ Function.update_self ..
  have hothers : ∀ c ≠ ctx, t.contexts c = s.contexts c := fun c hc => ht ▸ Function.update_of_ne hc ..
  have hlist : t.contextList = s.contextList := by rw [ht]; rfl
  have hopened : t.opened = s.opened := by rw [ht]; rfl
  have hirps : t.acceptIrps = s.acceptIrps := by rw [ht]; rfl
  have hcreated : t.created = s.created := by rw [ht]; rfl
  have hcount : t.contextCount = t.contextList.length := by rw [ht]; exact h.count
  have hstrayed : t.strayed = s.strayed := by rw [ht]; rfl
  rw [← ht]
  clear ht
  have hrefs := hg.refs
  rw [refcOf_some hx, hzero] at hrefs
  have hlive : ∀ c, t.liveListener c = s.liveListener c := fun c => by
    by_cases hc : c = ctx
    · rw [hc, liveListener_some hx, if_pos hzero, liveListener, hgone]
      rfl
    · rw [liveListener, liveListener, hothers c hc]
  have hacc : ∀ c, t.accepters c = s.accepters c := fun c => by
    unfold accepters
    rw [hcreated]
    exact List.countP_congr fun a _ => by rw [hlive]
  have hirpsFor : ∀ c, t.irpsFor c = s.irpsFor c := fun c => by rw [irpsFor, irpsFor, hirps]
  have hwork : ∀ c, t.temporary c = s.temporary c ∧ t.freeing c + (if c = ctx then 1 else 0) = s.freeing c ∧
      t.cleaning c = s.cleaning c ∧ t.setting c = s.setting c := fun c => by
    obtain ⟨h₁, h₂, h₃, h₄⟩ := hturn.counts c
    have hcleans : RefOp.cleansAt c (.free ctx) = 0 := if_neg (by simp only [reduceCtorEq, or_self, not_false_eq_true])
    have hfree : RefOp.freesAt c (.free ctx) = if c = ctx then 1 else 0 :=
      if_congr ⟨fun heq => (RefOp.free.inj heq).symm, fun heq => heq ▸ rfl⟩ rfl rfl
    rw [hfree] at h₂
    rw [hcleans] at h₃
    exact ⟨h₁, h₂, h₃, h₄⟩
  -- Nothing refers to it any more.
  have hagree : ∀ c ≠ ctx, Agrees s t c := fun c hc =>
    agrees_congr (sameContext_of_eq (hothers c hc)) fun hclosed => hopened ▸ hclosed
  refine h.turn_at hturn ctx (fun c hc => ?_) ?_ (fun a l hl => ?_) (fun p hp => ?_) hcount hcreated hstrayed hopened
    (fun ops hops hk => ?_) id
  · obtain ⟨htemp, hfree, hclean, hset⟩ := hwork c
    rw [if_neg hc] at hfree
    refine ⟨sameContext_of_eq (hothers c hc), by rw [hlist], by rw [hopened], ?_, hfree, hclean, hset,
      by rw [hothers c hc]; exact (h.good c).listening, fun hmem => hcreated ▸ hmem⟩
    rw [hirpsFor, hacc, htemp]
  · obtain ⟨htemp, hfree, hclean, -⟩ := hwork ctx
    rw [if_pos rfl, hone] at hfree
    constructor
    · exact typed_none hgone
    · rw [refcOf_none hgone, hlist, hopened, hirpsFor, hacc, htemp]
      exact hrefs
    · rw [hgone]
      exact Nat.add_right_cancel hfree
    · rw [hlist]; exact hg.once
    · rw [hlist, hopened]; exact hg.opened
    · rw [hlist, hclean]; exact hg.cleaning
    · rw [hlist]
      exact fun hlt => absurd hlt (by omega)
    · rw [typeOf_none hgone]; rintro ⟨⟩
  · rw [hlive] at hl
    have hlt := h.accepters_pos hl
    have hne : l ≠ ctx := by
      rintro rfl
      omega
    rw [typeOf, hothers l hne]
    exact h.listens a l hl
  · rw [hirps] at hp
    have hne : p.2 ≠ ctx := by
      intro heq
      have hlt : 0 < s.irpsFor ctx := List.count_pos_iff.mpr (heq ▸ List.mem_map_of_mem hp)
      omega
    rw [listenerOf, typeOf, hothers _ hne]
    exact h.irps p hp
  · have hkept := h.kept hops hk
    rw [refcOf_some hx, hzero] at hkept
    exact absurd hkept (Nat.lt_irrefl 0)

/-! ## The steps of a routine -/

theorem alike_single {o : RefOp} (hheld : o.held = op.held) (hfrees : ∀ c, op ≠ .free c ∧ o ≠ .free c)
    (hcleans : ∀ c, (o = .cleanup c ∨ o = .unlink c) ↔ (op = .cleanup c ∨ op = .unlink c))
    (hsets : ∀ c, o.setsAt c = op.setsAt c) : Alike [op] [o] where
  held c := by simp only [List.map_cons, List.map_nil, RefOp.heldAt, hheld]
  frees c := by simp only [List.map_cons, List.map_nil, RefOp.freesAt, if_neg (hfrees c).1, if_neg (hfrees c).2]
  cleans c := by simp only [List.map_cons, List.map_nil, RefOp.cleansAt, hcleans c]
  sets c := by simp only [List.map_cons, List.map_nil, hsets c]

/-- **The cleanup of a listener** leaves it on the list. -/
theorem Sound.cleanupListener (h : s.Sound) (hs : s.running = l₁ ++ (.cleanup ctx :: rest) :: l₂)
    (htype : s.typeOf ctx = .listener) :
    (turned l₁ l₂ rest (s, [.exchange ctx .passive, .release ctx])).Sound := by
  obtain ⟨hclosed, hready⟩ := h.ready_of hs
  obtain ⟨t, ht⟩ : ∃ t, t = turned l₁ l₂ rest (s, [.exchange ctx .passive, .release ctx]) := ⟨_, rfl⟩
  have hturn : Turn s t (.cleanup ctx) rest [.exchange ctx .passive, .release ctx] := ht ▸ turn_turned hs _
  have hsame : SameShape s t := ht ▸ sameShape_of_running
  have hirps : t.acceptIrps = s.acceptIrps := by rw [ht]; rfl
  have hcontexts : t.contexts = s.contexts := by rw [ht]; rfl
  rw [← ht]
  clear ht
  have hg := h.good ctx
  have hwork : ∀ c, t.temporary c = s.temporary c ∧ t.freeing c = s.freeing c ∧
      t.cleaning c + (if ctx = c then 1 else 0) = s.cleaning c ∧ t.setting c = s.setting c := fun c => by
    obtain ⟨h₁, h₂, h₃, h₄⟩ := hturn.counts c
    simp only [List.map_cons, List.map_nil, List.sum_cons, List.sum_nil, RefOp.heldAt, RefOp.held, RefOp.freesAt,
      RefOp.cleansAt, RefOp.setsAt, List.count_cons, List.count_nil, reduceCtorEq, or_false, or_self, if_false,
      Nat.add_zero, Nat.zero_add, beq_iff_eq, RefOp.cleanup.injEq] at h₁ h₂ h₃ h₄
    omega
  have hirpsFor : ∀ c, t.irpsFor c = s.irpsFor c := fun c => by rw [irpsFor, irpsFor, hirps]
  have hshared : ∀ c, t.irpsFor c + t.accepters c + t.temporary c = s.irpsFor c + s.accepters c + s.temporary c :=
    fun c => by rw [hirpsFor, hsame.accepters, (hwork c).1]
  have hagree := hsame.agrees
  have htypes : ∀ c, t.typeOf c = s.typeOf c := fun c => typeOf_congr (hsame.contexts c)
  have hlistener : t.listenerOf ctx = s.listenerOf ctx := listenerOf_congr (hsame.contexts ctx)
  refine h.turn_at hturn ctx (fun c hc => ?_) ?_ (fun a l hl => ?_) (fun p hp => ?_) ?_ hsame.created hsame.strayed
    hsame.opened (fun _ _ _ => hagree ctx) fun hrest => ?_
  · obtain ⟨-, hfree, hclean, hset⟩ := hwork c
    rw [if_neg (Ne.symm hc)] at hclean
    exact ⟨hsame.contexts c, by rw [hsame.contextList], by rw [hsame.opened], hshared c, hfree, hclean, hset,
      hcontexts ▸ (h.good c).listening, fun hmem => hsame.created ▸ hmem⟩
  · obtain ⟨-, hfree, hclean, hset⟩ := hwork ctx
    rw [if_pos rfl] at hclean
    have hcleaning := hg.cleaning
    have hrefs := hg.refs
    have hsum := hshared ctx
    have hrefc : t.refcOf ctx = s.refcOf ctx := refcOf_congr (hsame.contexts ctx)
    constructor
    · exact hg.toTyped.congr (hsame.contexts ctx) hset (hcontexts ▸ hg.listening) fun hmem => hsame.created ▸ hmem
    · rw [hrefc, hsame.contextList, hsame.opened]
      omega
    · rw [hfree, hcontexts]; exact hg.freed
    · rw [hsame.contextList]; exact hg.once
    · rw [hsame.contextList, hsame.opened]; exact hg.opened
    · rw [hsame.contextList]; omega
    · rw [htypes]; exact fun _ => .inr (.inl htype)
    · rw [htypes, hrefc, hsame.contextList]; exact hg.listener
  · rw [liveListener_congr (hsame.contexts a)] at hl
    rw [htypes]
    exact h.listens a l hl
  · rw [hirps] at hp
    rw [listenerOf_congr (hsame.contexts p.2), htypes]
    exact h.irps p hp
  · rw [hsame.contextCount, hsame.contextList]
    exact h.count
  · have hkeeps : Keeps ([.release ctx] ++ rest) ctx := keeps_of_release List.mem_cons_self
    exact ⟨⟨hkeeps, by rintro ⟨⟩⟩, .inr (.inl (hsame.opened ▸ hclosed)), hrest⟩

/-- `V4vDispatchCleanup`. -/
theorem Sound.cleanup (h : s.Sound) (hs : s.running = l₁ ++ (.cleanup ctx :: rest) :: l₂) (finds : Finds) :
    (turned l₁ l₂ rest (s.perform finds (.cleanup ctx))).Sound := by
  obtain ⟨hclosed, hready⟩ := h.ready_of hs
  obtain ⟨x, hx, -⟩ := h.found hs (keeps_of_mem List.mem_cons_self (List.mem_singleton_self ctx))
  rw [perform, on_some hx]
  split
  · next htype => exact h.cleanupListener hs ((typeOf_some hx).trans htype)
  · next htype =>
    have hkeeps : ∀ ops : List RefOp, Keeps (ops ++ (.release ctx :: rest)) ctx := fun ops =>
      keeps_of_release (List.mem_append_right _ List.mem_cons_self)
    have halike : Alike [.cleanup ctx] [.exchange ctx .closed, .unlink ctx, .release ctx] := by
      refine ⟨fun c => ?_, fun c => ?_, fun c => ?_, fun c => rfl⟩
      all_goals
        simp only [List.map_cons, List.map_nil, List.sum_cons, List.sum_nil, RefOp.heldAt, RefOp.held, RefOp.freesAt,
          RefOp.cleansAt, List.count_cons, List.count_nil, reduceCtorEq, or_false, false_or, or_self, if_false,
          Nat.add_zero, Nat.zero_add, RefOp.cleanup.injEq, RefOp.unlink.injEq]
    refine h.front hs halike ⟨⟨hkeeps [.unlink ctx], by rintro ⟨⟩⟩, ⟨List.mem_cons_self, hclosed, ?_⟩,
      .inr (.inl hclosed), hready⟩
    exact typeOf_some hx ▸ htype

/-- **`V4vCtrlAccept`** makes a step. -/
theorem Sound.accept (h : s.Sound) {pc : AcceptPc} {fate : AcceptFate} {finds : Finds}
    (hs : s.running = l₁ ++ (.accept pc ctx actx fate :: rest) :: l₂)
    (hcareful : s.CarefulOp finds (.accept pc ctx actx fate)) :
    (turned l₁ l₂ rest (s.acceptStep ctx actx fate pc)).Sound := by
  obtain ⟨⟨hleave, htype, hlooked, hstored, htyped⟩, hready⟩ := h.ready_of hs
  have hctx : ∃ x, s.contexts ctx = some x ∧ 0 < x.refc := h.found hs (keeps_cons.mpr (.inr (keeps_of_leave hleave)))
  have hactx : pc.lookedUp → ∃ x, s.contexts actx = some x ∧ 0 < x.refc := fun hpc =>
    h.found hs (keeps_cons.mpr (.inr (keeps_of_leave (hlooked hpc))))
  cases pc with
  | readState =>
    obtain ⟨x, hx, -⟩ := hctx
    rw [acceptStep, on_some hx]
    split
    · next hstate =>
      refine h.front hs (alike_idle (by simp [RefOp.Idle, RefOp.held]) (by simp [RefOp.Idle, RefOp.held]))
        ⟨⟨hleave, fun _ => ?_, False.elim, False.elim, False.elim⟩, hready⟩
      exact (typeOf_some hx).trans ((h.good ctx).listening x hx hstate)
    · exact h.front hs (alike_idle (by simp [RefOp.Idle, RefOp.held]) (by simp)) hready
  | lookUp =>
    rw [acceptStep]
    split
    · next hopened =>
      refine h.front hs (alike_idle (by simp [RefOp.Idle, RefOp.held]) (by simp [RefOp.Idle, RefOp.held]))
        ⟨⟨List.mem_cons_of_mem _ hleave, fun _ => htype nofun, fun _ => List.mem_cons_self, False.elim, False.elim⟩,
          hopened, hready⟩
    · exact h.front hs (alike_idle (by simp [RefOp.Idle, RefOp.held]) (by simp)) hready
  | reference =>
    obtain ⟨y, hy, hpos⟩ := hactx trivial
    rw [acceptStep, on_some hy]
    refine h.addRef hs hy hpos (fun c => ?_) (fun c => rfl) (fun c => rfl) (fun c => rfl)
      ⟨⟨hleave, fun _ => htype nofun, hlooked, False.elim, False.elim⟩, hready⟩
    have hop : RefOp.heldAt c (.accept .reference ctx actx fate) = 0 := rfl
    rw [List.map_singleton, List.sum_singleton, hop, Nat.zero_add]
    exact count_singleton_eq c actx
  | initFile =>
    obtain ⟨y, hy, hpos⟩ := hactx trivial
    rw [acceptStep, on_some hy]
    split
    · exact h.setState hs hy nofun (alike_single rfl (fun _ => ⟨nofun, nofun⟩) (fun c => by simp) fun _ => rfl)
        ⟨⟨hleave, fun _ => htype nofun, hlooked, False.elim, False.elim⟩, hready⟩
    · exact h.front hs (alike_single rfl (fun _ => ⟨nofun, nofun⟩) (fun c => by simp) fun _ => rfl)
        ⟨.inl (hlooked trivial), hready⟩
  | share =>
    obtain ⟨x, hx, hpos⟩ := hctx
    rw [acceptStep, on_some hx]
    refine h.addRef hs hx hpos (fun c => ?_) (fun c => rfl) (fun c => rfl) (fun c => rfl)
      ⟨⟨hleave, fun _ => htype nofun, hlooked, False.elim, False.elim⟩, hready⟩
    have hpush : RefOp.heldAt c (.accept .setListener ctx actx fate) = ([ctx] ++ [actx]).count c := rfl
    rw [List.map_singleton, List.sum_singleton, hpush, List.count_append, count_singleton_eq c ctx, Nat.add_comm]
    rfl
  | setListener =>
    obtain ⟨y, hy, -⟩ := hactx trivial
    rw [acceptStep, on_some hy]
    exact h.setListener hs hy hcareful
  | setType =>
    obtain ⟨y, hy, -⟩ := hactx trivial
    rw [acceptStep, on_some hy]
    exact h.setType hs hy
  | setState =>
    obtain ⟨y, hy, -⟩ := hactx trivial
    rw [acceptStep, on_some hy]
    exact h.setState hs hy nofun (alike_single rfl (fun _ => ⟨nofun, nofun⟩) (fun c => by simp) fun _ => rfl)
      ⟨⟨hleave, fun _ => htype nofun, hlooked, hstored, htyped⟩, hready⟩
  | insert =>
    rw [acceptStep, if_pos (show fate.queued = true from hcareful)]
    exact h.insert hs

/-- **`V4vDoAccepts`** makes a round. -/
theorem Sound.doAccepts (h : s.Sound) {finds : Finds} (hs : s.running = l₁ ++ (.doAccepts ctx :: rest) :: l₂)
    (hcareful : s.CarefulOp finds (.doAccepts ctx)) : (turned l₁ l₂ rest (s.doAcceptsStep ctx finds)).Sound := by
  have hnothing : (turned l₁ l₂ rest (s, [])).Sound :=
    h.front hs (alike_idle (by simp [RefOp.Idle, RefOp.held]) (by simp)) (h.ready_of hs).2
  unfold doAcceptsStep
  split
  · next acked p hfind =>
    have hmem := List.mem_of_find?_eq_some hfind
    have hopen : p.2 ∈ s.opened := hcareful rfl p hfind
    cases acked with
    | true => exact h.takeIrp hs hmem hopen (.inl rfl)
    | false => exact h.takeIrp hs hmem hopen (.inr rfl)
  · exact hnothing

/-- `V4vProcessContextReads`. -/
theorem Sound.contextReads (h : s.Sound) {finds : Finds}
    (hs : s.running = l₁ ++ (.contextReads ctx :: rest) :: l₂) :
    (turned l₁ l₂ rest (s, contextReadsStep ctx finds x)).Sound := by
  obtain ⟨hkeeps, hready⟩ := h.ready_of hs
  have hone : ∀ o : RefOp, RefOp.Idle o → s.Req rest o → (turned l₁ l₂ rest (s, [o])).Sound := fun o ho hreq =>
    h.front hs (alike_idle (by simp [RefOp.Idle, RefOp.held])
      (fun op hop => (List.mem_singleton.mp hop) ▸ ho)) ⟨hreq, hready⟩
  have hexchange : ∀ connected : Bool, (turned l₁ l₂ rest
      (s, [.exchange ctx (if connected then .connected else .disconnected)])).Sound := fun connected =>
    hone _ (by simp [RefOp.Idle, RefOp.held]) ⟨hkeeps, fun heq => by cases connected <;> cases heq⟩
  unfold contextReadsStep
  split
  · exact hone _ (by simp [RefOp.Idle, RefOp.held]) hkeeps
  · exact hone _ (by simp [RefOp.Idle, RefOp.held]) hkeeps
  · exact hexchange _
  · exact hexchange _
  · exact hone _ (by simp [RefOp.Idle, RefOp.held]) hkeeps

/-- A message for an accepter: a reference is taken, and dropped later. -/
theorem Sound.onAccepter (h : s.Sound) (hs : s.running = l₁ ++ (op :: rest) :: l₂) {actx : Nat} {o : RefOp}
    {more : List RefOp} (hconnected : s.connected actx = true) (hop : RefOp.Idle op) (ho : RefOp.Idle o)
    (hmore : ∀ o ∈ more, RefOp.Idle o)
    (hreq : s.Req ([.release actx] ++ more ++ rest) o) (hrest : s.Ready (more ++ rest)) :
    (turned l₁ l₂ rest (s.on actx fun y => (s.setContext actx { y with refc := y.refc + 1 },
      [o, .release actx] ++ more))).Sound := by
  unfold connected at hconnected
  rw [Bool.and_eq_true, decide_eq_true_eq] at hconnected
  obtain ⟨hlist, hany⟩ := hconnected
  obtain ⟨y, hy, hstate⟩ := (Option.any_eq_true ..).mp hany
  rw [Bool.and_eq_true, beq_iff_eq, beq_iff_eq] at hstate
  have hpos : 0 < y.refc := by
    have hlt := List.count_pos_iff.mpr hlist
    have hrefs := (h.good actx).refs
    rw [refcOf_some hy] at hrefs
    omega
  have hidle := weights_idle hop
  have hidle' := weights_idle ho
  have hidle'' := sum_idle hmore
  rw [on_some hy]
  refine h.addRef hs hy hpos (fun c => ?_) (fun c => ?_) (fun c => ?_) (fun c => ?_) ⟨?_, .inr (.inr (.inr ?_)), hrest⟩
  · obtain ⟨hheld, -⟩ := hidle c
    obtain ⟨hheld', -⟩ := hidle' c
    obtain ⟨hheld'', -⟩ := hidle'' c
    rw [List.map_append, List.sum_append, hheld'', hheld, List.map_cons, List.sum_cons, hheld', List.map_singleton,
      List.sum_singleton, RefOp.heldAt, RefOp.held, count_singleton_eq, Nat.zero_add, Nat.add_zero]
  · rw [List.map_append, List.sum_append, (hidle'' c).2.1, (hidle c).2.1, List.map_cons, List.sum_cons, (hidle' c).2.1]
    rfl
  · have hrelease : RefOp.cleansAt c (.release actx) = 0 :=
      if_neg (by simp only [reduceCtorEq, or_self, not_false_eq_true])
    rw [List.map_append, List.sum_append, (hidle'' c).2.2.1, (hidle c).2.2.1, List.map_cons, List.sum_cons,
      (hidle' c).2.2.1, List.map_singleton, List.sum_singleton, hrelease]
  · rw [List.map_append, List.sum_append, (hidle'' c).2.2.2, (hidle c).2.2.2, List.map_cons, List.sum_cons,
      (hidle' c).2.2.2]
    rfl
  · exact hreq
  · exact (typeOf_some hy).trans hstate.2

/-- **`V4vProcessListenerReads`** makes a round. -/
theorem Sound.listenerReads (h : s.Sound) {state : FileState} {finds : Finds}
    (hs : s.running = l₁ ++ (.listenerReads ctx state :: rest) :: l₂) :
    (turned l₁ l₂ rest (s.listenerStep ctx state finds)).Sound := by
  obtain ⟨hkeeps, hready⟩ := h.ready_of hs
  have hidle : RefOp.Idle (.listenerReads ctx state) := by simp [RefOp.Idle, RefOp.held]
  have hagain : (turned l₁ l₂ rest (s, [.listenerReads ctx state])).Sound :=
    h.front hs (alike_idle (by simp [RefOp.Idle, RefOp.held]) (by simp [RefOp.Idle, RefOp.held])) ⟨hkeeps, hready⟩
  cases finds with
  | nothing => exact h.front hs (alike_idle (by simp [RefOp.Idle, RefOp.held]) (by simp)) hready
  | accept acked => exact h.front hs (alike_idle (by simp [RefOp.Idle, RefOp.held]) (by simp)) hready
  | answer connected => exact h.front hs (alike_idle (by simp [RefOp.Idle, RefOp.held]) (by simp)) hready
  | syn =>
    rw [listenerStep]
    split
    · exact h.front hs (alike_idle (by simp [RefOp.Idle, RefOp.held]) (by simp [RefOp.Idle, RefOp.held]))
        ⟨keeps_cons.mpr (.inr hkeeps), hkeeps, hready⟩
    · exact hagain
  | data actx =>
    rw [listenerStep]
    split
    · next hconnected =>
      refine h.onAccepter hs hconnected hidle (by simp [RefOp.Idle, RefOp.held])
        (fun o ho => (List.mem_singleton.mp ho) ▸ hidle) (keeps_of_release List.mem_cons_self) ⟨hkeeps, hready⟩
    · exact hagain
  | rst actx =>
    rw [listenerStep]
    split
    · next hconnected =>
      have hnone : ∀ o ∈ ([] : List RefOp), RefOp.Idle o := nofun
      exact h.onAccepter hs hconnected hidle (by simp [RefOp.Idle, RefOp.held]) hnone
        ⟨keeps_of_release List.mem_cons_self, nofun⟩ hready
    · exact hagain

/-- **A routine makes a step.** -/
theorem Sound.perform (h : s.Sound) {finds : Finds} (hs : s.running = l₁ ++ (op :: rest) :: l₂)
    (hcareful : s.CarefulOp finds op) : (turned l₁ l₂ rest (s.perform finds op)).Sound := by
  obtain ⟨hreq, hready⟩ := h.ready_of hs
  have hrest : ∀ {c : Nat}, Keeps rest c → ∃ x, s.contexts c = some x ∧ 0 < x.refc := fun hk =>
    h.found hs (keeps_cons.mpr (.inr hk))
  have hheld : ∀ {c : Nat}, c ∈ op.anchors → ∃ x, s.contexts c = some x ∧ 0 < x.refc := fun hk =>
    h.found hs (keeps_cons.mpr (.inl hk))
  cases op with
  | touch ctx =>
    obtain ⟨x, hx, -⟩ := hrest hreq
    rw [RefRun.perform, on_some hx]
    exact h.front hs (alike_idle (by simp [RefOp.Idle, RefOp.held]) (by simp)) hready
  | exchange ctx new =>
    obtain ⟨x, hx, -⟩ := hrest hreq.1
    rw [RefRun.perform, on_some hx]
    exact h.setState hs hx hreq.2 (alike_idle (by simp [RefOp.Idle, RefOp.held]) (by simp)) hready
  | ctrl ctx wants type new =>
    obtain ⟨hleave, htype, hnew⟩ := hreq
    obtain ⟨x, hx, -⟩ := hrest (keeps_of_leave hleave)
    unfold RefRun.perform
    dsimp only
    rw [on_some hx]
    split
    · cases type with
      | none =>
        exact h.front hs (alike_idle (by simp [RefOp.Idle, RefOp.held]) (by simp [RefOp.Idle, RefOp.held]))
          ⟨⟨keeps_of_leave hleave, fun heq => nomatch hnew heq⟩, hready⟩
      | some type =>
        exact h.front hs (alike_idle (by simp [RefOp.Idle, RefOp.held]) (by simp [RefOp.Idle, RefOp.held]))
          ⟨⟨hleave, fun heq => htype (heq ▸ rfl), fun heq => Option.some.inj (hnew heq)⟩, hready⟩
    · exact h.front hs (alike_idle (by simp [RefOp.Idle, RefOp.held]) (by simp)) hready
  | retype ctx type new =>
    obtain ⟨x, hx, -⟩ := hrest (keeps_of_leave hreq.1)
    rw [RefRun.perform, on_some hx]
    exact h.retype hs hx hcareful
  | leave ctx => exact h.front hs (alike_idle (by simp [RefOp.Idle, RefOp.held]) (by simp)) hready
  | cleanup ctx => exact h.cleanup hs finds
  | unlink ctx =>
    obtain ⟨x, hx, -⟩ := hrest (keeps_of_release hreq.1)
    rw [RefRun.perform, on_some hx]
    exact h.unlink hs hx
  | release ctx =>
    obtain ⟨x, hx, -⟩ := hheld (List.mem_singleton_self ctx)
    rw [RefRun.perform, on_some hx]
    refine h.front hs (alike_single rfl (fun _ => ⟨nofun, nofun⟩) (fun c => by simp) fun _ => rfl)
      ⟨hreq.imp_right fun hor => ⟨(typeOf_some hx).symm, hor⟩, hready⟩
  | drop ctx val =>
    obtain ⟨x, hx, hpos⟩ := hheld (List.mem_singleton_self ctx)
    rw [RefRun.perform, on_some hx]
    exact h.dropped hs (.inl ⟨val, rfl⟩) hx hpos (hreq.imp_right And.left) false
  | releaseLocked ctx =>
    obtain ⟨x, hx, hpos⟩ := hheld (List.mem_singleton_self ctx)
    rw [RefRun.perform, on_some hx]
    exact h.dropped hs (.inr rfl) hx hpos (.inr (typeOf_some hx).symm) true
  | free ctx =>
    obtain ⟨⟨x, hx⟩, hfree⟩ := h.free hs
    rw [RefRun.perform, on_some hx]
    exact hfree
  | accept pc ctx actx fate => exact h.accept hs hcareful
  | doAccepts ctx =>
    obtain ⟨x, hx, -⟩ := hrest hreq
    rw [RefRun.perform, on_some hx]
    exact h.doAccepts hs hcareful
  | contextReads ctx =>
    obtain ⟨x, hx, -⟩ := hrest hreq
    rw [RefRun.perform, on_some hx]
    exact h.contextReads hs
  | listenerReads ctx state =>
    obtain ⟨x, hx, -⟩ := hrest hreq
    rw [RefRun.perform, on_some hx]
    exact h.listenerReads hs

end RefRun

end V4v.Windows
