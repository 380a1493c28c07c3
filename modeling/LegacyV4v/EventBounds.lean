import LegacyV4v.EventStop

/-! # The interrupt stays in its arrays

While no port is stopped, the handlers that the interrupt, the DPCs and the threads have are those of the
table, with a port that is there.  Ports that are pending are ports of handlers, so `EventChannelHandlers`
has an entry for each that the interrupt comes to; and it starts with a word that is there as long as
`last_evtchn_serviced` is less than the number of bits. -/
namespace V4v.Xenutil
open GuardedRun

namespace EventPc

/-- The thread is in `EvtchnPortStop`. -/
def stops : EventPc → Bool
  | .unhooking _ | .synchronizing _ | .settingStopping _ | .waiting _ | .clearingPort _
  | .clearingHandler _ => true
  | .idle | .raising _ | .settingMasked _ | .retesting _ | .remasking _ | .masking _
  | .settingUnmasked _ | .unmasking _ => false

/-- The port that the thread raises. -/
def raises : EventPc → Option Nat
  | .settingMasked port | .retesting port | .remasking port | .masking port | .settingUnmasked port
  | .unmasking port => some port
  | .idle | .raising _ | .unhooking _ | .synchronizing _ | .settingStopping _ | .waiting _
  | .clearingPort _ | .clearingHandler _ => none

end EventPc

/-- The step is a call of `EvtchnPortStop`. -/
def EventAct.stops {N : Nat} : EventAct N → Bool
  | .portStop .. => true
  | .notify _ | .raiseLocally .. | .go _ | .interrupt _ | .startDpc _ | .dpc => false

/-- The word that the interrupt is at is there, and so are the ports of the bits that it has. -/
def InterruptPc.InBounds (b : Arch) : InterruptPc → Prop
  | .idle | .testing | .clearing | .exchanging | .leaving => True
  | .tops f | .word f => f.nextTop < b.evtchnsPerToplevel
  | .half f pendingFirst w => f.nextTop < b.evtchnsPerToplevel ∧
    (pendingFirst = true → ∀ sub ∈ w, f.nextTop * b.evtchnsPerToplevel + sub < maxEvtchn)
  | .subs f | .unhandled f _ | .firing f _ | .inserting f _ | .inserted f _ | .calling f _ _
  | .handling f _ => f.nextTop < b.evtchnsPerToplevel ∧
    ∀ sub ∈ f.bits, f.nextTop * b.evtchnsPerToplevel + sub < maxEvtchn

theorem Arch.mem_word {b : Arch} {bits : Finset Nat} {top sub : Nat} :
    sub ∈ b.word bits top ↔ sub < b.evtchnsPerToplevel ∧ top * b.evtchnsPerToplevel + sub ∈ bits := by
  unfold Arch.word
  rw [Finset.mem_filter, Finset.mem_range]

theorem Arch.evtchnsPerToplevel_pos (b : Arch) : 0 < b.evtchnsPerToplevel := by
  cases b <;> decide

namespace EventSys
variable {b : Arch} {N : Nat} {s s' : EventSys b N} {a : EventAct N} {th : Fin N} {q : Nat}

/-- Steps in which no event gets lost: a thread that has found a port unmasked sets it pending while it is
masked, or pending already; the interrupt starts with a word that is there.  Nobody stops ports here. -/
def Heeded (s : EventSys b N) : EventAct N → Prop
  | .portStop .. => False
  | .go th =>
    match s.pc th with
    | .settingUnmasked port => port ∈ s.info.evtchnMask ∨ port ∈ s.info.evtchnPending
    | _ => True
  | .interrupt _ =>
    match s.interrupt with
    | .exchanging => s.lastEvtchnServiced + 1 < b.evtchnsPerToplevel * b.evtchnsPerToplevel
    | _ => True
  | _ => True

/-- The handler can be used. -/
structure Wired (s : EventSys b N) (q : Nat) : Prop where
  xenPort : (s.port q).xenPort ≠ none
  handler : (s.port q).handler = true
  stopping : (s.port q).stopping = false

/-- **What holds at every step** while no port is stopped. -/
structure BoundsInv (s : EventSys b N) : Prop where
  bounded : ∀ q port, (s.port q).xenPort = some port → port < maxEvtchn
  pending : ∀ port ∈ s.info.evtchnPending, port < maxEvtchn
  running : ∀ th, (s.pc th).stops = false
  raised : ∀ th port, (s.pc th).raises = some port → port < maxEvtchn
  raising : ∀ th q, s.pc th = .raising q → (s.port q).xenPort ≠ none
  wired : ∀ port q, s.eventChannelHandlers port = some q → s.Wired q
  used : ∀ q, s.interrupt.uses = some q → s.Wired q
  queued : ∀ q ∈ s.dpcQueue, s.Wired q
  dpc : ∀ q pc, s.dpc = some (q, pc) → s.Wired q
  inBounds : s.interrupt.InBounds b

/-- **A step** with handlers from where they may come. -/
theorem BoundsInv.next (h : s.BoundsInv)
    (hports : ∀ x, (s'.port x).xenPort = (s.port x).xenPort ∧
      (s'.port x).handler = (s.port x).handler ∧ (s'.port x).stopping = (s.port x).stopping)
    (htable : s'.eventChannelHandlers = s.eventChannelHandlers)
    (hpending : ∀ p ∈ s'.info.evtchnPending, p ∈ s.info.evtchnPending ∨ p < maxEvtchn)
    (hpc : ∀ th, s'.pc th = s.pc th ∨ (s'.pc th).stops = false ∧
      (∀ port, (s'.pc th).raises = some port → port < maxEvtchn) ∧
      ∀ q, s'.pc th = .raising q → (s.port q).xenPort ≠ none)
    (huses : ∀ q, s'.interrupt.uses = some q → s.interrupt.uses = some q ∨
      ∃ port, s.eventChannelHandlers port = some q)
    (hqueue : ∀ q ∈ s'.dpcQueue, q ∈ s.dpcQueue ∨ s.interrupt.uses = some q)
    (hdpc : ∀ q pc, s'.dpc = some (q, pc) → q ∈ s.dpcQueue ∨ ∃ pc, s.dpc = some (q, pc))
    (hin : s'.interrupt.InBounds b) : s'.BoundsInv := by
  have hwired (q : Nat) (hw : s.Wired q) : s'.Wired q := by
    obtain ⟨hx, hh, hs⟩ := hports q
    exact ⟨hx ▸ hw.xenPort, hh.trans hw.handler, hs.trans hw.stopping⟩
  refine ⟨?_, ?_, ?_, ?_, ?_, ?_, ?_, ?_, ?_, hin⟩
  · exact fun q port hq => h.bounded q port ((hports q).1 ▸ hq)
  · exact fun p hp => (hpending p hp).elim (h.pending p) id
  · intro th
    rcases hpc th with heq | ⟨hstops, -⟩
    · rw [heq]
      exact h.running th
    · exact hstops
  · intro th port hp
    rcases hpc th with heq | ⟨-, hraises, -⟩
    · rw [heq] at hp
      exact h.raised th port hp
    · exact hraises port hp
  · intro th q hq
    rw [(hports q).1]
    rcases hpc th with heq | ⟨-, -, hraising⟩
    · rw [heq] at hq
      exact h.raising th q hq
    · exact hraising q hq
  · intro port q hq
    rw [htable] at hq
    exact hwired q (h.wired port q hq)
  · intro q hq
    rcases huses q hq with hold | ⟨port, hport⟩
    · exact hwired q (h.used q hold)
    · exact hwired q (h.wired port q hport)
  · intro q hq
    rcases hqueue q hq with hold | huse
    · exact hwired q (h.queued q hold)
    · exact hwired q (h.used q huse)
  · intro q pc hq
    rcases hdpc q pc hq with hold | ⟨pc', hold⟩
    · exact hwired q (h.queued q hold)
    · exact hwired q (h.dpc q pc' hold)

/-- A thread goes on. -/
theorem BoundsInv.thread {pc : EventPc} (h : s.BoundsInv) (info : SharedInfo) (log : List PortEvent)
    (hpending : ∀ p ∈ info.evtchnPending, p ∈ s.info.evtchnPending ∨ p < maxEvtchn)
    (hstops : pc.stops = false) (hraises : ∀ port, pc.raises = some port → port < maxEvtchn)
    (hraising : ∀ q, pc = .raising q → (s.port q).xenPort ≠ none) :
    ({ s.setPc th pc with info := info, log := log } : EventSys b N).BoundsInv := by
  refine h.next (fun _ => ⟨rfl, rfl, rfl⟩) rfl hpending ?_ (fun _ => .inl) (fun _ => .inl)
    (fun q pc hq => .inr ⟨pc, hq⟩) h.inBounds
  intro t
  by_cases ht : t = th
  · have hself : (s.setPc th pc).pc t = pc := by
      rw [setPc_pc, if_pos ht]
    right
    change ((s.setPc th pc).pc t).stops = false ∧
      (∀ port, ((s.setPc th pc).pc t).raises = some port → port < maxEvtchn) ∧
      ∀ q, (s.setPc th pc).pc t = .raising q → (s.port q).xenPort ≠ none
    rw [hself]
    exact ⟨hstops, hraises, hraising⟩
  · left
    change (s.setPc th pc).pc t = s.pc t
    rw [setPc_pc, if_neg ht]

/-- The interrupt goes on. -/
theorem BoundsInv.interrupt (h : s.BoundsInv) (info : SharedInfo) (live : Bool) (last : Nat)
    (log : List PortEvent) (pc : InterruptPc)
    (hpending : info.evtchnPending ⊆ s.info.evtchnPending)
    (huses : ∀ q, pc.uses = some q → s.interrupt.uses = some q ∨
      ∃ port, s.eventChannelHandlers port = some q) (hin : pc.InBounds b) :
    ({ s with
      info := info
      interruptLive := live
      lastEvtchnServiced := last
      log := log
      interrupt := pc } : EventSys b N).BoundsInv :=
  h.next (fun _ => ⟨rfl, rfl, rfl⟩) rfl (fun _ hp => .inl (hpending hp)) (fun _ => .inl rfl) huses
    (fun _ => .inl) (fun _ pc hq => .inr ⟨pc, hq⟩) hin

theorem boundsInv_interruptStep {pendingFirst : Bool} (h : s.BoundsInv)
    (hok : s.Heeded (.interrupt pendingFirst)) (hstep : s.interruptStep pendingFirst = some s') :
    s'.BoundsInv := by
  have hbounds := h.inBounds
  unfold interruptStep at hstep
  split at hstep
  case h_1 hpc =>
    rw [← Option.some.inj hstep]
    exact h.interrupt s.info true s.lastEvtchnServiced s.log .testing (fun _ => id) nofun trivial
  case h_2 hpc =>
    rw [← Option.some.inj hstep]
    refine h.interrupt s.info s.interruptLive s.lastEvtchnServiced s.log _ (fun _ => id) ?_ ?_
    · split <;> exact nofun
    · split <;> trivial
  case h_3 hpc =>
    rw [← Option.some.inj hstep]
    exact h.interrupt _ s.interruptLive s.lastEvtchnServiced s.log .exchanging (fun _ => id) nofun
      trivial
  case h_4 hpc =>
    simp only [Heeded, hpc] at hok
    rw [← Option.some.inj hstep]
    exact h.interrupt _ s.interruptLive _ s.log (.tops _) (fun _ => id) nofun
      (Nat.div_lt_of_lt_mul hok)
  case h_5 f hpc =>
    rw [hpc] at hbounds
    split at hstep
    · rw [← Option.some.inj hstep]
      exact h.interrupt s.info s.interruptLive s.lastEvtchnServiced s.log .testing (fun _ => id) nofun
        trivial
    split at hstep
    · exact nomatch hstep
    split at hstep
    · rw [← Option.some.inj hstep]
      exact h.interrupt s.info s.interruptLive s.lastEvtchnServiced s.log (.word _) (fun _ => id) nofun
        hbounds
    · rw [← Option.some.inj hstep]
      exact h.interrupt s.info s.interruptLive s.lastEvtchnServiced s.log (.tops _) (fun _ => id) nofun
        (Nat.mod_lt _ b.evtchnsPerToplevel_pos)
  case h_6 f hpc =>
    rw [hpc] at hbounds
    rw [← Option.some.inj hstep]
    refine h.interrupt s.info s.interruptLive s.lastEvtchnServiced s.log (.half ..) (fun _ => id) nofun
      ⟨hbounds, fun hfirst sub hsub => ?_⟩
    rw [if_pos hfirst] at hsub
    exact h.pending _ (Arch.mem_word.mp hsub).2
  case h_7 f first w hpc =>
    rw [hpc] at hbounds
    rw [← Option.some.inj hstep]
    refine h.interrupt s.info s.interruptLive s.lastEvtchnServiced s.log (.subs _) (fun _ => id) nofun
      ⟨hbounds.1, fun sub hsub => ?_⟩
    change sub ∈ (if first = true then _ else _) at hsub
    split at hsub
    · next hfirst => exact hbounds.2 hfirst sub (Finset.mem_sdiff.mp hsub).1
    · exact h.pending _ (Arch.mem_word.mp (Finset.mem_sdiff.mp hsub).1).2
  case h_8 f hpc =>
    rw [hpc] at hbounds
    split at hstep
    · rw [← Option.some.inj hstep]
      exact h.interrupt s.info s.interruptLive s.lastEvtchnServiced s.log (.tops _) (fun _ => id) nofun
        (Nat.mod_lt _ b.evtchnsPerToplevel_pos)
    split at hstep
    · dsimp only at hstep
      have hrest : ∀ sub ∈ f.bits.erase f.nextSub,
          f.nextTop * b.evtchnsPerToplevel + sub < maxEvtchn :=
        fun sub hsub => hbounds.2 sub (Finset.mem_of_mem_erase hsub)
      split at hstep
      · exact nomatch hstep
      split at hstep
      · next q hq =>
        rw [← Option.some.inj hstep]
        refine h.interrupt s.info s.interruptLive _ s.log (.firing _ q) (fun _ => id) ?_
          ⟨hbounds.1, hrest⟩
        intro x hx
        obtain rfl := Option.some.inj hx
        exact .inr ⟨_, hq⟩
      · rw [← Option.some.inj hstep]
        exact h.interrupt s.info s.interruptLive _ s.log (.unhandled ..) (fun _ => id) nofun
          ⟨hbounds.1, hrest⟩
    · rw [← Option.some.inj hstep]
      exact h.interrupt s.info s.interruptLive s.lastEvtchnServiced s.log (.subs _) (fun _ => id) nofun
        hbounds
  case h_9 f port hpc =>
    rw [hpc] at hbounds
    rw [← Option.some.inj hstep]
    exact h.interrupt _ s.interruptLive s.lastEvtchnServiced s.log (.subs _) (Finset.erase_subset ..)
      nofun hbounds
  case h_10 f q hpc =>
    have huses (pc : InterruptPc) (hpc' : pc.uses = some q) (x : Nat) (hx : pc.uses = some x) :
        s.interrupt.uses = some x ∨ ∃ port, s.eventChannelHandlers port = some x := by
      left
      rw [hpc]
      exact hpc'.symm.trans hx
    rw [hpc] at hbounds
    split at hstep
    · exact nomatch hstep
    split at hstep
    · rw [← Option.some.inj hstep]
      exact h.interrupt _ s.interruptLive s.lastEvtchnServiced s.log (.inserting f q) (fun _ => id)
        (huses _ rfl) hbounds
    · rw [← Option.some.inj hstep]
      exact h.interrupt _ s.interruptLive s.lastEvtchnServiced s.log (.calling f q _)
        (Finset.erase_subset ..) (huses _ rfl) hbounds
  case h_11 f q hpc =>
    have huse : s.interrupt.uses = some q := by
      rw [hpc]
      rfl
    rw [hpc] at hbounds
    split at hstep
    · rw [← Option.some.inj hstep]
      exact h.interrupt s.info s.interruptLive s.lastEvtchnServiced s.log (.subs _) (fun _ => id) nofun
        hbounds
    · rw [← Option.some.inj hstep]
      refine h.next (fun _ => ⟨rfl, rfl, rfl⟩) rfl (fun _ => .inl) (fun _ => .inl rfl)
        (fun x hx => .inl (huse.trans hx)) ?_ (fun _ pc hx => .inr ⟨pc, hx⟩) hbounds
      intro x hx
      rcases Finset.mem_insert.mp hx with rfl | hx
      · exact .inr huse
      · exact .inl hx
  case h_12 f q hpc =>
    rw [hpc] at hbounds
    split at hstep
    · exact nomatch hstep
    · rw [← Option.some.inj hstep]
      refine h.next ?_ rfl (fun _ => .inl) (fun _ => .inl rfl) nofun (fun _ => .inl)
        (fun _ pc hx => .inr ⟨pc, hx⟩) hbounds
      exact fun x => (setPort_insertCount s q _ x).2
  case h_13 f q port hpc =>
    rw [hpc] at hbounds
    split at hstep
    · exact nomatch hstep
    · rw [← Option.some.inj hstep]
      refine h.interrupt s.info s.interruptLive s.lastEvtchnServiced _ (.handling f q) (fun _ => id) ?_
        hbounds
      intro x hx
      left
      rw [hpc]
      exact hx
  case h_14 f q hpc =>
    rw [hpc] at hbounds
    rw [← Option.some.inj hstep]
    exact h.interrupt s.info s.interruptLive s.lastEvtchnServiced s.log (.subs _) (fun _ => id) nofun
      hbounds
  case h_15 hpc =>
    rw [← Option.some.inj hstep]
    exact h.interrupt s.info false s.lastEvtchnServiced s.log .idle (fun _ => id) nofun trivial

theorem boundsInv_dpcStep (h : s.BoundsInv) (hstep : s.dpcStep = some s') : s'.BoundsInv := by
  unfold dpcStep at hstep
  split at hstep
  · rw [← Option.some.inj hstep]
    exact h
  next q pc hdpc =>
  -- the DPC goes on with its handler
  have hgo (info : SharedInfo) (log : List PortEvent) (pc' : DpcPc)
      (hpending : info.evtchnPending ⊆ s.info.evtchnPending) :
      ({ s with info := info, log := log, dpc := some (q, pc') } : EventSys b N).BoundsInv := by
    refine h.next (fun _ => ⟨rfl, rfl, rfl⟩) rfl (fun _ hp => .inl (hpending hp)) (fun _ => .inl rfl)
      (fun _ => .inl) (fun _ => .inl) ?_ h.inBounds
    intro x y heq
    obtain ⟨rfl, -⟩ := Prod.mk.inj (Option.some.inj heq)
    exact .inr ⟨pc, hdpc⟩
  split at hstep
  · split at hstep
    · rw [← Option.some.inj hstep]
      exact hgo _ s.log (.calling _) (Finset.erase_subset ..)
    · rw [← Option.some.inj hstep]
      exact hgo s.info s.log .unmasking fun _ => id
  · split at hstep
    · exact nomatch hstep
    · rw [← Option.some.inj hstep]
      exact hgo s.info _ .handling fun _ => id
  · rw [← Option.some.inj hstep]
    exact hgo s.info s.log .testing fun _ => id
  · rw [← Option.some.inj hstep]
    exact hgo _ s.log .checking fun _ => id
  · rw [← Option.some.inj hstep]
    exact hgo s.info s.log _ fun _ => id
  · rw [← Option.some.inj hstep]
    exact hgo _ s.log .testing fun _ => id
  · rw [← Option.some.inj hstep]
    refine h.next (fun x => (setPort_insertCount s q _ x).2) rfl (fun _ => .inl) (fun _ => .inl rfl)
      (fun _ => .inl) (fun _ => .inl) ?_ h.inBounds
    intro x y heq
    obtain ⟨rfl, -⟩ := Prod.mk.inj (Option.some.inj heq)
    exact .inr ⟨_, hdpc⟩
  · rw [← Option.some.inj hstep]
    exact h.next (fun _ => ⟨rfl, rfl, rfl⟩) rfl (fun _ => .inl) (fun _ => .inl rfl) (fun _ => .inl)
      (fun _ => .inl) nofun h.inBounds
  all_goals exact nomatch hstep

/-- A port that is set pending is one that there is. -/
theorem pending_insert {port : Nat} {pending : Finset Nat} (hport : port < maxEvtchn) :
    ∀ p ∈ insert port pending, p ∈ pending ∨ p < maxEvtchn := by
  intro p hp
  rcases Finset.mem_insert.mp hp with rfl | hp
  · exact .inr hport
  · exact .inl hp

theorem boundsInv_goOn (h : s.BoundsInv) (hstep : s.goOn th = some s') : s'.BoundsInv := by
  have hrun := h.running th
  have hraised := h.raised th
  unfold goOn at hstep
  split at hstep
  case h_1 =>
    rw [← Option.some.inj hstep]
    exact h
  case h_2 q hpc =>
    split at hstep
    · exact nomatch hstep
    next port hxen =>
    rw [← Option.some.inj hstep]
    refine h.thread s.info s.log (fun _ => .inl) ?_ ?_ ?_
    · split <;> rfl
    · intro x hx
      have hport : port = x := by
        split at hx
        · exact Option.some.inj hx
        · exact Option.some.inj hx
      exact hport ▸ h.bounded q port hxen
    · intro x hx
      split at hx <;> exact nomatch hx
  case h_4 port hpc =>
    rw [hpc] at hraised
    rw [← Option.some.inj hstep]
    refine h.thread s.info s.log (fun _ => .inl) ?_ ?_ ?_
    · split <;> rfl
    · intro x hx
      split at hx
      · exact nomatch hx
      · exact hraised x hx
    · intro x hx
      split at hx <;> exact nomatch hx
  case h_3 port hpc =>
    rw [hpc] at hraised
    rw [← Option.some.inj hstep]
    exact h.thread _ _ (pending_insert (hraised port rfl)) rfl hraised nofun
  case h_5 port hpc =>
    rw [hpc] at hraised
    rw [← Option.some.inj hstep]
    exact h.thread _ s.log (fun _ => .inl) rfl hraised nofun
  case h_6 port hpc =>
    rw [hpc] at hraised
    rw [← Option.some.inj hstep]
    exact h.thread _ s.log (fun _ => .inl) rfl hraised nofun
  case h_7 port hpc =>
    rw [hpc] at hraised
    rw [← Option.some.inj hstep]
    exact h.thread _ _ (pending_insert (hraised port rfl)) rfl hraised nofun
  case h_8 port hpc =>
    rw [← Option.some.inj hstep]
    refine h.thread _ s.log ?_ rfl nofun nofun
    intro p hp
    rw [SharedInfo.pending_unmaskOp] at hp
    exact .inl hp
  all_goals
    next hpc =>
    rw [hpc] at hrun
    exact nomatch hrun

/-- **The invariant at one step.** -/
theorem boundsInv_step (h : s.BoundsInv) (hs : s.StopInv) (hok : s.Heeded a) (henabled : s.Enabled a)
    (hstep : s.step a = some s') : s'.BoundsInv := by
  cases a with
  | notify port =>
    rw [← Option.some.inj hstep]
    refine h.next (fun _ => ⟨rfl, rfl, rfl⟩) rfl ?_ (fun _ => .inl rfl) (fun _ => .inl) (fun _ => .inl)
      (fun _ pc hq => .inr ⟨pc, hq⟩) h.inBounds
    intro p hp
    rcases (SharedInfo.pending_notify b s.info port p).mp hp with rfl | hp
    · obtain ⟨q, hq⟩ := Option.ne_none_iff_exists'.mp henabled
      exact .inr (h.bounded q p (hs.table p q hq))
    · exact .inl hp
  | raiseLocally th q =>
    rw [← Option.some.inj hstep]
    split
    · exact h
    · next hsome =>
      refine h.thread s.info s.log (fun _ => .inl) rfl nofun ?_
      intro x hx
      obtain rfl := EventPc.raising.inj hx
      exact hsome
  | portStop => exact False.elim hok
  | go th => exact boundsInv_goOn h hstep
  | interrupt pendingFirst => exact boundsInv_interruptStep h hok hstep
  | startDpc q =>
    rw [← Option.some.inj hstep]
    refine h.next (fun _ => ⟨rfl, rfl, rfl⟩) rfl (fun _ => .inl) (fun _ => .inl rfl) (fun _ => .inl)
      (fun _ hx => .inl (Finset.mem_of_mem_erase hx)) ?_ h.inBounds
    intro x y heq
    obtain ⟨rfl, -⟩ := Prod.mk.inj (Option.some.inj heq)
    exact .inl henabled.2.2
  | dpc => exact boundsInv_dpcStep h hstep

theorem Start.boundsInv (h : s.Start) : s.BoundsInv := by
  refine ⟨h.bounded, ?_, ?_, ?_, ?_, ?_, ?_, ?_, ?_, ?_⟩
  · rw [h.clear.1]
    exact fun p hp => absurd hp (Finset.notMem_empty p)
  · intro th
    rw [h.pc]
    rfl
  · intro th
    rw [h.pc]
    exact nofun
  · intro th
    rw [h.pc]
    exact nofun
  · intro port q hq
    obtain ⟨hxen, hhandler, -⟩ := h.registered port q hq
    exact ⟨by rw [hxen]; exact nofun, hhandler, (h.fresh q).2⟩
  · rw [h.interrupt]
    exact nofun
  · rw [h.dpcQueue]
    exact fun q hq => absurd hq (Finset.notMem_empty q)
  · rw [h.dpc]
    exact nofun
  · rw [h.interrupt]
    trivial

/-- The invariant holds in every run. -/
theorem Reached.boundsInv (h : Reached Heeded s) : s.BoundsInv := by
  have hboth : s.StopInv ∧ s.BoundsInv := by
    refine Reachable.invariant (P := fun s => s.StopInv ∧ s.BoundsInv) h ?_ ?_
    · exact fun s hs => ⟨hs.stopInv, hs.boundsInv⟩
    · rintro s a s' ⟨hs, hinv⟩ hok ⟨henabled, hstep⟩
      exact ⟨stopInv_step hs henabled hstep, boundsInv_step hinv hs hok henabled hstep⟩
  exact hboth.2

/-- **No step leaves the arrays or fails an assertion.** -/
theorem step_defined (h : s.BoundsInv) (hok : s.Heeded a) : s.step a ≠ none := by
  cases a with
  | notify | raiseLocally | startDpc => exact Option.some_ne_none _
  | portStop => exact False.elim hok
  | go th =>
    change s.goOn th ≠ none
    unfold goOn
    split
    case h_2 q hpc =>
      split
      · next hnone => exact absurd hnone (h.raising th q hpc)
      · exact Option.some_ne_none _
    all_goals exact Option.some_ne_none _
  | interrupt pendingFirst =>
    have hbounds := h.inBounds
    have hused := h.used
    change s.interruptStep pendingFirst ≠ none
    unfold interruptStep
    split
    case h_5 f hpc =>
      rw [hpc] at hbounds
      split
      · exact Option.some_ne_none _
      rw [if_neg (Nat.not_le.mpr hbounds)]
      split <;> exact Option.some_ne_none _
    case h_8 f hpc =>
      rw [hpc] at hbounds
      split
      · exact Option.some_ne_none _
      split
      · next hbit =>
        dsimp only
        rw [if_neg (Nat.not_le.mpr (hbounds.2 f.nextSub hbit))]
        split <;> exact Option.some_ne_none _
      · exact Option.some_ne_none _
    case h_10 f q hpc =>
      rw [hpc] at hused
      split
      · next hnone => exact absurd hnone (hused q rfl).xenPort
      · split <;> exact Option.some_ne_none _
    case h_11 f q hpc => split <;> exact Option.some_ne_none _
    case h_12 f q hpc =>
      rw [hpc] at hused
      rw [if_neg (by rw [(hused q rfl).stopping]; exact nofun)]
      exact Option.some_ne_none _
    case h_13 f q port hpc =>
      rw [hpc] at hused
      rw [if_neg (by rw [(hused q rfl).handler]; exact nofun)]
      exact Option.some_ne_none _
    all_goals exact Option.some_ne_none _
  | dpc =>
    change s.dpcStep ≠ none
    unfold dpcStep
    split
    · exact Option.some_ne_none _
    next q pc hdpc =>
    obtain ⟨hxen, hhandler, -⟩ := h.dpc q pc hdpc
    split
    · split <;> exact Option.some_ne_none _
    · rw [if_neg (by rw [hhandler]; exact nofun)]
      exact Option.some_ne_none _
    · exact Option.some_ne_none _
    · exact Option.some_ne_none _
    · exact Option.some_ne_none _
    · exact Option.some_ne_none _
    · exact Option.some_ne_none _
    · exact Option.some_ne_none _
    all_goals
      next hnone => exact absurd hnone hxen

end EventSys
end V4v.Xenutil
