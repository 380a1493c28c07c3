import LegacyV4v.EventBounds

/-! # Events are delivered

A port that is pending and masked is safe, as whoever has masked it will unmask it, and look at it then,
or have Xen do so.  A port that is pending and not masked is safe while the upcall is pending for its
word, or the interrupt has still to come to it, or the DPC or a thread will look at it again.  Every
step keeps both, with two exceptions: a thread that has found the port unmasked, and masked it, sets it
pending after somebody else has unmasked it; and the interrupt goes through words from one on that is not
there, after many upcalls with nothing to do. -/
namespace V4v.Xenutil
open GuardedRun

/-- The port that the thread will look at again. -/
def EventPc.looks : EventPc → Option Nat
  | .retesting port | .remasking port => some port
  | .idle | .raising _ | .settingMasked _ | .masking _ | .settingUnmasked _ | .unmasking _
  | .unhooking _ | .synchronizing _ | .settingStopping _ | .waiting _ | .clearingPort _
  | .clearingHandler _ => none

/-- The port that the thread has masked and will unmask. -/
def EventPc.unmasks : EventPc → Option Nat
  | .settingUnmasked port | .unmasking port => some port
  | .idle | .raising _ | .settingMasked _ | .retesting _ | .remasking _ | .masking _
  | .unhooking _ | .synchronizing _ | .settingStopping _ | .waiting _ | .clearingPort _
  | .clearingHandler _ => none

/-- The DPC has unmasked its port and will look at it again. -/
def DpcPc.looks : DpcPc → Bool
  | .checking | .remasking => true
  | .testing | .calling _ | .handling | .unmasking | .decrementing | .returning => false

/-- The DPC will unmask its port. -/
def DpcPc.unmasks : DpcPc → Bool
  | .testing | .calling _ | .handling | .unmasking => true
  | .checking | .remasking | .decrementing | .returning => false

/-- The loops have still to come to the port. -/
def Scan.Covers (b : Arch) (f : Scan) (port : Nat) : Prop :=
  port / b.evtchnsPerToplevel ∈ f.sel ∨
    f.nextTop = port / b.evtchnsPerToplevel ∧ port % b.evtchnsPerToplevel ∈ f.bits

/-- The interrupt has still to come to the port, if that is pending and not masked. -/
def InterruptPc.Scans (b : Arch) (port : Nat) : InterruptPc → Prop
  | .idle | .testing | .clearing | .exchanging | .leaving => False
  | .tops f => port / b.evtchnsPerToplevel ∈ f.sel
  | .word f => port / b.evtchnsPerToplevel ∈ f.sel ∨ f.nextTop = port / b.evtchnsPerToplevel
  | .half f pendingFirst w => port / b.evtchnsPerToplevel ∈ f.sel ∨
    f.nextTop = port / b.evtchnsPerToplevel ∧
      (port % b.evtchnsPerToplevel ∈ w ↔ pendingFirst = true)
  | .subs f | .unhandled f _ | .firing f _ | .inserting f _ | .inserted f _ | .calling f _ _
  | .handling f _ => f.Covers b port

/-- The interrupt has neither the selector nor a port at hand. -/
def InterruptPc.loops : InterruptPc → Bool
  | .idle | .testing | .clearing | .tops _ | .word _ | .half .. | .subs _ | .unhandled .. | .inserted ..
  | .handling .. | .leaving => true
  | .exchanging | .firing .. | .inserting .. | .calling .. => false

/-- The port was raised, and its handler has not started since. -/
def outstanding (port : Nat) : List PortEvent → Bool
  | [] => false
  | .raised other :: log => if other = port then true else outstanding port log
  | .started other :: log => if other = port then false else outstanding port log

/-- The bit of a port in its word. -/
theorem Arch.mem_word_port {b : Arch} {bits : Finset Nat} {port : Nat} :
    port % b.evtchnsPerToplevel ∈ b.word bits (port / b.evtchnsPerToplevel) ↔ port ∈ bits := by
  rw [Arch.mem_word, Nat.div_add_mod']
  exact and_iff_right (Nat.mod_lt _ b.evtchnsPerToplevel_pos)

namespace EventSys
variable {b : Arch} {N : Nat} {s s' : EventSys b N} {a : EventAct N} {th : Fin N} {p q : Nat}

/-- Nothing runs or is queued, and no upcall is pending. -/
structure Quiescent (s : EventSys b N) : Prop where
  upcall : s.info.evtchnUpcallPending = false
  interrupt : s.interrupt = .idle
  dpcQueue : s.dpcQueue = ∅
  dpc : s.dpc = none
  pc : ∀ th, s.pc th = .idle

/-- The interrupt looks at the port. -/
def InterruptLooks (s : EventSys b N) (port : Nat) : Prop :=
  port / b.evtchnsPerToplevel ∈ s.info.evtchnPendingSel ∧
      (s.info.evtchnUpcallPending = true ∨ s.interrupt = .exchanging) ∨
    s.interrupt.Scans b port ∨
    ∃ f q, s.interrupt = .firing f q ∧ (s.port q).xenPort = some port

/-- Somebody looks at the port. -/
def WillLook (s : EventSys b N) (port : Nat) : Prop :=
  s.InterruptLooks port ∨
    (∃ q pc, s.dpc = some (q, pc) ∧ pc.looks = true ∧ (s.port q).xenPort = some port) ∨
    ∃ th, (s.pc th).looks = some port

/-- Somebody unmasks the port. -/
def WillUnmask (s : EventSys b N) (port : Nat) : Prop :=
  (∃ q, (q ∈ s.dpcQueue ∨ ∃ f, s.interrupt = .inserting f q) ∧ (s.port q).xenPort = some port) ∨
    (∃ q pc, s.dpc = some (q, pc) ∧ pc.unmasks = true ∧ (s.port q).xenPort = some port) ∨
    ∃ th, (s.pc th).unmasks = some port

/-- The handler of the port is to start. -/
def Starting (s : EventSys b N) (port : Nat) : Prop :=
  (∃ f q, s.interrupt = .calling f q port) ∨ ∃ q, s.dpc = some (q, .calling port)

/-- **What holds at every step.** -/
structure DeliveryInv (s : EventSys b N) : Prop where
  running : ∀ th, (s.pc th).stops = false
  unhandled : ∀ f port, s.interrupt = .unhandled f port → s.eventChannelHandlers port = none
  masked : ∀ port, s.eventChannelHandlers port ≠ none → port ∈ s.info.evtchnMask → s.WillUnmask port
  pending : ∀ port, s.eventChannelHandlers port ≠ none → port ∈ s.info.evtchnPending →
    port ∉ s.info.evtchnMask → s.WillLook port
  owed : ∀ port, s.eventChannelHandlers port ≠ none → outstanding port s.log = true →
    port ∈ s.info.evtchnPending ∨ s.Starting port

/-- Nobody is there to look or to unmask. -/
theorem Quiescent.clear (hq : s.Quiescent) (h : s.DeliveryInv) {port : Nat}
    (hport : s.eventChannelHandlers port ≠ none) : port ∉ s.info.evtchnPending ∧ outstanding port s.log = false := by
  have hlook : ¬s.WillLook port := by
    rintro ((⟨-, hup | hex⟩ | hscan | ⟨f, q, hfire, -⟩) | ⟨q, pc, hdpc, -⟩ | ⟨th, hth⟩)
    · exact nomatch hq.upcall.symm.trans hup
    · exact nomatch hq.interrupt.symm.trans hex
    · rw [hq.interrupt] at hscan
      exact hscan
    · exact nomatch hq.interrupt.symm.trans hfire
    · exact nomatch hq.dpc.symm.trans hdpc
    · rw [hq.pc] at hth
      exact nomatch hth
  have hunmask : ¬s.WillUnmask port := by
    rintro (⟨q, hqueue | ⟨f, hins⟩, -⟩ | ⟨q, pc, hdpc, -⟩ | ⟨th, hth⟩)
    · rw [hq.dpcQueue] at hqueue
      exact absurd hqueue (Finset.notMem_empty q)
    · exact nomatch hq.interrupt.symm.trans hins
    · exact nomatch hq.dpc.symm.trans hdpc
    · rw [hq.pc] at hth
      exact nomatch hth
  have hclear : port ∉ s.info.evtchnPending := by
    intro hpending
    by_cases hmask : port ∈ s.info.evtchnMask
    · exact hunmask (h.masked port hport hmask)
    · exact hlook (h.pending port hport hpending hmask)
  refine ⟨hclear, Bool.eq_false_iff.mpr fun howed => ?_⟩
  rcases h.owed port hport howed with hpending | ⟨f, q, hcall⟩ | ⟨q, hcall⟩
  · exact hclear hpending
  · exact nomatch hq.interrupt.symm.trans hcall
  · exact nomatch hq.dpc.symm.trans hcall

/-! ## The threads -/

/-- A thread goes on, and somebody else looks. -/
theorem WillLook.thread {pc : EventPc} {info : SharedInfo} {log : List PortEvent} (h : s.WillLook p)
    (hsel : s.info.evtchnPendingSel ⊆ info.evtchnPendingSel)
    (hup : s.info.evtchnUpcallPending = true → info.evtchnUpcallPending = true)
    (hpc : (s.pc th).looks ≠ some p) :
    ({ s.setPc th pc with info := info, log := log } : EventSys b N).WillLook p := by
  rcases h with (⟨hin, hwhen⟩ | hscan) | hdpc | ⟨t, ht⟩
  · exact .inl (.inl ⟨hsel hin, hwhen.imp_left hup⟩)
  · exact .inl (.inr hscan)
  · exact .inr (.inl hdpc)
  · refine .inr (.inr ⟨t, ?_⟩)
    have hne : t ≠ th := by
      rintro rfl
      exact hpc ht
    change ((s.setPc th pc).pc t).looks = some p
    rw [setPc_pc, if_neg hne]
    exact ht

/-- A thread goes on, and somebody else unmasks. -/
theorem WillUnmask.thread {pc : EventPc} {info : SharedInfo} {log : List PortEvent}
    (h : s.WillUnmask p) (hpc : (s.pc th).unmasks ≠ some p) :
    ({ s.setPc th pc with info := info, log := log } : EventSys b N).WillUnmask p := by
  rcases h with hqueue | hdpc | ⟨t, ht⟩
  · exact .inl hqueue
  · exact .inr (.inl hdpc)
  · refine .inr (.inr ⟨t, ?_⟩)
    have hne : t ≠ th := by
      rintro rfl
      exact hpc ht
    change ((s.setPc th pc).pc t).unmasks = some p
    rw [setPc_pc, if_neg hne]
    exact ht

/-- The thread looks itself. -/
theorem willLook_setPc {pc : EventPc} {info : SharedInfo} {log : List PortEvent}
    (h : pc.looks = some p) : ({ s.setPc th pc with info := info, log := log } : EventSys b N).WillLook p := by
  refine .inr (.inr ⟨th, ?_⟩)
  change ((s.setPc th pc).pc th).looks = some p
  rw [setPc_pc, if_pos rfl]
  exact h

/-- The thread unmasks itself. -/
theorem willUnmask_setPc {pc : EventPc} {info : SharedInfo} {log : List PortEvent}
    (h : pc.unmasks = some p) :
    ({ s.setPc th pc with info := info, log := log } : EventSys b N).WillUnmask p := by
  refine .inr (.inr ⟨th, ?_⟩)
  change ((s.setPc th pc).pc th).unmasks = some p
  rw [setPc_pc, if_pos rfl]
  exact h

/-- **A thread goes on**: what is to be shown of the port that it is at. -/
theorem DeliveryInv.thread {pc : EventPc} (h : s.DeliveryInv) (info : SharedInfo)
    (log : List PortEvent) (hstops : pc.stops = false)
    (hsel : s.info.evtchnPendingSel ⊆ info.evtchnPendingSel)
    (hup : s.info.evtchnUpcallPending = true → info.evtchnUpcallPending = true)
    (hmask : ∀ p, p ∈ info.evtchnMask → pc.unmasks = some p ∨
      p ∈ s.info.evtchnMask ∧ (s.pc th).unmasks ≠ some p)
    (hpending : ∀ p, p ∈ info.evtchnPending → p ∉ info.evtchnMask → pc.looks = some p ∨
      (p / b.evtchnsPerToplevel ∈ info.evtchnPendingSel ∧ info.evtchnUpcallPending = true) ∨
      (p ∈ s.info.evtchnPending ∧ p ∉ s.info.evtchnMask ∧ (s.pc th).looks ≠ some p))
    (hkeep : s.info.evtchnPending ⊆ info.evtchnPending)
    (howed : ∀ p, outstanding p log = true → outstanding p s.log = true ∨ p ∈ info.evtchnPending) :
    ({ s.setPc th pc with info := info, log := log } : EventSys b N).DeliveryInv where
  running t := by
    change ((s.setPc th pc).pc t).stops = false
    rw [setPc_pc]
    split
    · exact hstops
    · exact h.running t
  unhandled := h.unhandled
  masked p hp hm := by
    rcases hmask p hm with hself | ⟨hold, hne⟩
    · exact willUnmask_setPc hself
    · exact (h.masked p hp hold).thread hne
  pending p hp hin hm := by
    rcases hpending p hin hm with hself | hsignal | ⟨hold, hm', hne⟩
    · exact willLook_setPc hself
    · exact .inl (.inl ⟨hsignal.1, .inl hsignal.2⟩)
    · exact (h.pending p hp hold hm').thread hsel hup hne
  owed p hp ho := by
    rcases howed p ho with hold | hin
    · exact (h.owed p hp hold).imp_left fun hin => hkeep hin
    · exact .inl hin

theorem outstanding_raised {port : Nat} {log : List PortEvent}
    (h : outstanding p (.raised port :: log) = true) : p = port ∨ outstanding p log = true := by
  unfold outstanding at h
  split at h
  · next heq => exact .inl heq.symm
  · exact .inr h

theorem outstanding_started {port : Nat} {log : List PortEvent}
    (h : outstanding p (.started port :: log) = true) : port ≠ p ∧ outstanding p log = true := by
  unfold outstanding at h
  split at h
  · exact nomatch h
  · next hne => exact ⟨hne, h⟩

theorem deliveryInv_goOn (h : s.DeliveryInv) (hok : s.Heeded (.go th)) (hstep : s.goOn th = some s') :
    s'.DeliveryInv := by
  have hrun := h.running th
  -- a thread that goes on without the shared page, and has nothing to look at or unmask
  have hmove (pc : EventPc) (hstops : pc.stops = false) (hlooks : (s.pc th).looks = none)
      (hunmasks : (s.pc th).unmasks = none) : (s.setPc th pc).DeliveryInv := by
    refine h.thread s.info s.log hstops (fun _ => id) id ?_ ?_ (fun _ => id) ?_
    · exact fun p hp => .inr ⟨hp, fun hu => Option.some_ne_none _ (hu.symm.trans hunmasks)⟩
    · exact fun p hp hm => .inr (.inr ⟨hp, hm, fun hl => Option.some_ne_none _ (hl.symm.trans hlooks)⟩)
    · exact fun p ho => .inl ho
  -- a thread that masks a port, to unmask it later
  have hmask {port : Nat} {pc : EventPc} (hstops : pc.stops = false) (hown : pc.unmasks = some port)
      (hunmasks : (s.pc th).unmasks = none) (hlooks : ∀ p, (s.pc th).looks = some p → port = p) :
      ({ s.setPc th pc with info := s.info.maskPort port } : EventSys b N).DeliveryInv := by
    refine h.thread _ s.log hstops (fun _ => id) id ?_ ?_ (fun _ => id) fun p ho => .inl ho
    · intro p hp
      rcases Finset.mem_insert.mp hp with rfl | hp
      · exact .inl hown
      · exact .inr ⟨hp, fun hu => Option.some_ne_none _ (hu.symm.trans hunmasks)⟩
    · intro p hp hm
      refine .inr (.inr ⟨hp, fun hold => hm (Finset.mem_insert_of_mem hold), fun hl => hm ?_⟩)
      exact hlooks p hl ▸ Finset.mem_insert_self ..
  unfold goOn at hstep
  split at hstep
  case h_1 =>
    rw [← Option.some.inj hstep]
    exact h
  case h_2 q hpc =>
    split at hstep
    · cases hstep
    · rw [← Option.some.inj hstep]
      apply hmove
      · split <;> rfl
      · rw [hpc]
        rfl
      · rw [hpc]
        rfl
  case h_3 port hpc =>
    rw [← Option.some.inj hstep]
    refine h.thread _ _ rfl (fun _ => id) id ?_ ?_ (Finset.subset_insert ..) ?_
    · intro p hp
      refine .inr ⟨hp, ?_⟩
      rw [hpc]
      exact (Option.some_ne_none p).symm
    · intro p hp hm
      rcases Finset.mem_insert.mp hp with rfl | hp
      · exact .inl rfl
      · refine .inr (.inr ⟨hp, hm, ?_⟩)
        rw [hpc]
        exact (Option.some_ne_none p).symm
    · intro p ho
      rcases outstanding_raised ho with rfl | ho
      · exact .inr (Finset.mem_insert_self ..)
      · exact .inl ho
  case h_4 port hpc =>
    rw [← Option.some.inj hstep]
    refine h.thread s.info s.log ?_ (fun _ => id) id ?_ ?_ (fun _ => id) ?_
    · split <;> rfl
    · intro p hp
      refine .inr ⟨hp, ?_⟩
      rw [hpc]
      exact (Option.some_ne_none p).symm
    · intro p hp hm
      by_cases heq : p = port
      · rw [heq] at hm
        rw [if_neg hm, heq]
        exact .inl rfl
      · refine .inr (.inr ⟨hp, hm, ?_⟩)
        rw [hpc]
        exact fun hl => heq (Option.some.inj hl).symm
    · exact fun p ho => .inl ho
  case h_5 port hpc =>
    rw [← Option.some.inj hstep]
    refine hmask rfl rfl (by rw [hpc]; rfl) fun p hl => ?_
    rw [hpc] at hl
    exact Option.some.inj hl
  case h_6 port hpc =>
    rw [← Option.some.inj hstep]
    refine hmask rfl rfl (by rw [hpc]; rfl) fun p hl => ?_
    rw [hpc] at hl
    cases hl
  case h_7 port hpc =>
    simp only [Heeded, hpc] at hok
    rw [← Option.some.inj hstep]
    refine h.thread _ _ rfl (fun _ => id) id ?_ ?_ (Finset.subset_insert ..) ?_
    · intro p hp
      by_cases heq : p = port
      · exact .inl (congrArg some heq.symm)
      · refine .inr ⟨hp, ?_⟩
        rw [hpc]
        exact fun hu => heq (Option.some.inj hu).symm
    · intro p hp hm
      refine .inr (.inr ⟨?_, hm, ?_⟩)
      · rcases Finset.mem_insert.mp hp with rfl | hp
        · exact hok.resolve_left hm
        · exact hp
      · rw [hpc]
        exact (Option.some_ne_none p).symm
    · intro p ho
      rcases outstanding_raised ho with rfl | ho
      · exact .inr (Finset.mem_insert_self ..)
      · exact .inl ho
  case h_8 port hpc =>
    rw [← Option.some.inj hstep]
    refine h.thread _ s.log rfl (SharedInfo.sel_unmaskOp b s.info port)
      (SharedInfo.upcall_unmaskOp b s.info port) ?_ ?_ ?_ fun p ho => .inl ho
    · intro p hp
      rw [SharedInfo.mask_unmaskOp] at hp
      obtain ⟨hne, hp⟩ := Finset.mem_erase.mp hp
      refine .inr ⟨hp, ?_⟩
      rw [hpc]
      exact fun hu => hne (Option.some.inj hu).symm
    · intro p hp hm
      rw [SharedInfo.pending_unmaskOp] at hp
      rw [SharedInfo.mask_unmaskOp] at hm
      have hrest : (s.pc th).looks ≠ some p := by
        rw [hpc]
        exact (Option.some_ne_none p).symm
      by_cases hold : p ∈ s.info.evtchnMask
      · obtain rfl : p = port := by
          by_contra hne
          exact hm (Finset.mem_erase.mpr ⟨hne, hold⟩)
        exact .inr (.inl (SharedInfo.signal_unmaskOp hold hp))
      · exact .inr (.inr ⟨hp, hold, hrest⟩)
    · rw [SharedInfo.pending_unmaskOp]
  all_goals
    next hpc =>
    rw [hpc] at hrun
    cases hrun

/-- Somebody else is notified of the port, too. -/
theorem DeliveryInv.notify (h : s.DeliveryInv) (port : Nat) :
    ({ s with
      info := s.info.notify b port
      log := .raised port :: s.log } : EventSys b N).DeliveryInv := by
  have hkeep := SharedInfo.pending_notify b s.info port
  have hlook {p : Nat} (hl : s.WillLook p) : ({ s with
      info := s.info.notify b port
      log := .raised port :: s.log } : EventSys b N).WillLook p := by
    rcases hl with (⟨hin, hwhen⟩ | hscan) | hrest
    · exact .inl (.inl ⟨SharedInfo.sel_notify b s.info port hin,
        hwhen.imp_left (SharedInfo.upcall_notify b s.info port)⟩)
    · exact .inl (.inr hscan)
    · exact .inr hrest
  refine ⟨h.running, h.unhandled, ?_, ?_, ?_⟩
  · intro p hp hm
    rw [SharedInfo.mask_notify] at hm
    exact h.masked p hp hm
  · intro p hp hin hm
    rw [SharedInfo.mask_notify] at hm
    by_cases hold : p ∈ s.info.evtchnPending
    · exact hlook (h.pending p hp hold hm)
    · obtain rfl : p = port := by
        rcases (hkeep p).mp hin with heq | hin
        · exact heq
        · exact absurd hin hold
      have hsignal := SharedInfo.signal_notify (b := b) hold hm
      exact .inl (.inl ⟨hsignal.1, .inl hsignal.2⟩)
  · intro p hp ho
    rcases outstanding_raised ho with rfl | ho
    · exact .inl ((hkeep p).mpr (.inl rfl))
    · exact (h.owed p hp ho).imp_left fun hin => (hkeep p).mpr (.inr hin)

/-! ## The DPC -/

/-- **The DPC goes on**: what is to be shown of its port. -/
theorem DeliveryInv.dpc {pc : DpcPc} {d : Option (Nat × DpcPc)} (h : s.DeliveryInv)
    (hdpc : s.dpc = some (q, pc)) (hd : s'.dpc = d) (hpc : s'.pc = s.pc)
    (htable : s'.eventChannelHandlers = s.eventChannelHandlers)
    (hports : ∀ x, (s'.port x).xenPort = (s.port x).xenPort) (hqueue : s'.dpcQueue = s.dpcQueue)
    (hinterrupt : s'.interrupt = s.interrupt)
    (hsel : s'.info.evtchnPendingSel = s.info.evtchnPendingSel)
    (hup : s'.info.evtchnUpcallPending = s.info.evtchnUpcallPending)
    (hmask : ∀ p, p ∈ s'.info.evtchnMask →
      (∃ pc', d = some (q, pc') ∧ pc'.unmasks = true ∧ (s.port q).xenPort = some p) ∨
      p ∈ s.info.evtchnMask ∧ (pc.unmasks = true → (s.port q).xenPort ≠ some p))
    (hpending : ∀ p, p ∈ s'.info.evtchnPending → p ∉ s'.info.evtchnMask →
      (∃ pc', d = some (q, pc') ∧ pc'.looks = true ∧ (s.port q).xenPort = some p) ∨
      p ∈ s.info.evtchnPending ∧ p ∉ s.info.evtchnMask ∧
        (pc.looks = true → (s.port q).xenPort ≠ some p))
    (howed : ∀ p, outstanding p s'.log = true → outstanding p s.log = true ∧ pc ≠ .calling p ∧
      (p ∈ s.info.evtchnPending → p ∈ s'.info.evtchnPending ∨ d = some (q, .calling p))) :
    s'.DeliveryInv := by
  have hat {x : Nat} {y : DpcPc} (hx : s.dpc = some (x, y)) : q = x ∧ pc = y :=
    Prod.mk.inj (Option.some.inj (hdpc.symm.trans hx))
  refine ⟨?_, ?_, ?_, ?_, ?_⟩
  · rw [hpc]
    exact h.running
  · rw [hinterrupt, htable]
    exact h.unhandled
  · intro p hp hm
    rw [htable] at hp
    unfold WillUnmask
    simp only [hqueue, hinterrupt, hports, hd, hpc]
    rcases hmask p hm with ⟨pc', hd', hself⟩ | ⟨hold, hne⟩
    · exact .inr (.inl ⟨q, pc', hd', hself⟩)
    rcases h.masked p hp hold with hq | ⟨x, y, hx, hy, hxen⟩ | hth
    · exact .inl hq
    · obtain ⟨rfl, rfl⟩ := hat hx
      exact absurd hxen (hne hy)
    · exact .inr (.inr hth)
  · intro p hp hin hm
    rw [htable] at hp
    unfold WillLook InterruptLooks
    simp only [hinterrupt, hports, hd, hpc, hsel, hup]
    rcases hpending p hin hm with ⟨pc', hd', hself⟩ | ⟨hold, hm', hne⟩
    · exact .inr (.inl ⟨q, pc', hd', hself⟩)
    rcases h.pending p hp hold hm' with hint | ⟨x, y, hx, hy, hxen⟩ | hth
    · exact .inl hint
    · obtain ⟨rfl, rfl⟩ := hat hx
      exact absurd hxen (hne hy)
    · exact .inr (.inr hth)
  · intro p hp ho
    rw [htable] at hp
    unfold Starting
    simp only [hinterrupt, hd]
    obtain ⟨hold, hne, hgo⟩ := howed p ho
    rcases h.owed p hp hold with hin | hcall | ⟨x, hx⟩
    · rcases hgo hin with hin | hcall
      · exact .inl hin
      · exact .inr (.inr ⟨q, hcall⟩)
    · exact .inr (.inl hcall)
    · exact absurd (hat hx).2 hne

theorem deliveryInv_dpcStep (h : s.DeliveryInv) (hstep : s.dpcStep = some s') : s'.DeliveryInv := by
  unfold dpcStep at hstep
  split at hstep
  · rw [← Option.some.inj hstep]
    exact h
  next q pc hdpc =>
  split at hstep
  case h_1 port hxen =>
    split at hstep
    · rw [← Option.some.inj hstep]
      refine h.dpc hdpc rfl rfl rfl (fun _ => rfl) rfl rfl rfl rfl ?_ ?_ ?_
      · intro p hp
        by_cases heq : (s.port q).xenPort = some p
        · exact .inl ⟨.calling port, rfl, rfl, heq⟩
        · exact .inr ⟨hp, fun _ => heq⟩
      · exact fun p hp hm => .inr ⟨Finset.mem_of_mem_erase hp, hm, nofun⟩
      · intro p ho
        refine ⟨ho, nofun, fun hp => ?_⟩
        by_cases heq : p = port
        · exact .inr (by rw [heq])
        · exact .inl (Finset.mem_erase.mpr ⟨heq, hp⟩)
    · rw [← Option.some.inj hstep]
      refine h.dpc hdpc rfl rfl rfl (fun _ => rfl) rfl rfl rfl rfl ?_ ?_ ?_
      · intro p hp
        by_cases heq : (s.port q).xenPort = some p
        · exact .inl ⟨.unmasking, rfl, rfl, heq⟩
        · exact .inr ⟨hp, fun _ => heq⟩
      · exact fun p hp hm => .inr ⟨hp, hm, nofun⟩
      · exact fun p ho => ⟨ho, nofun, .inl⟩
  case h_2 port xen =>
    split at hstep
    · exact nomatch hstep
    · rw [← Option.some.inj hstep]
      refine h.dpc hdpc rfl rfl rfl (fun _ => rfl) rfl rfl rfl rfl ?_ ?_ ?_
      · intro p hp
        by_cases heq : (s.port q).xenPort = some p
        · exact .inl ⟨.handling, rfl, rfl, heq⟩
        · exact .inr ⟨hp, fun _ => heq⟩
      · exact fun p hp hm => .inr ⟨hp, hm, nofun⟩
      · intro p ho
        obtain ⟨hne, ho⟩ := outstanding_started ho
        exact ⟨ho, fun heq => hne (DpcPc.calling.inj heq), .inl⟩
  case h_3 xen =>
    rw [← Option.some.inj hstep]
    refine h.dpc hdpc rfl rfl rfl (fun _ => rfl) rfl rfl rfl rfl ?_ ?_ ?_
    · intro p hp
      by_cases heq : (s.port q).xenPort = some p
      · exact .inl ⟨.testing, rfl, rfl, heq⟩
      · exact .inr ⟨hp, fun _ => heq⟩
    · exact fun p hp hm => .inr ⟨hp, hm, nofun⟩
    · exact fun p ho => ⟨ho, nofun, .inl⟩
  case h_4 port hxen =>
    rw [← Option.some.inj hstep]
    refine h.dpc hdpc rfl rfl rfl (fun _ => rfl) rfl rfl rfl rfl ?_ ?_ ?_
    · intro p hp
      obtain ⟨hne, hp⟩ := Finset.mem_erase.mp hp
      exact .inr ⟨hp, fun _ heq => hne (Option.some.inj (heq.symm.trans hxen))⟩
    · intro p hp hm
      by_cases heq : p = port
      · exact .inl ⟨.checking, rfl, rfl, by rw [heq, hxen]⟩
      · exact .inr ⟨hp, fun hold => hm (Finset.mem_erase.mpr ⟨heq, hold⟩), nofun⟩
    · exact fun p ho => ⟨ho, nofun, .inl⟩
  case h_5 port hxen =>
    rw [← Option.some.inj hstep]
    refine h.dpc hdpc rfl rfl rfl (fun _ => rfl) rfl rfl rfl rfl ?_ ?_ ?_
    · exact fun p hp => .inr ⟨hp, nofun⟩
    · intro p hp hm
      by_cases heq : p = port
      · rw [heq] at hp
        refine .inl ⟨.remasking, ?_, rfl, by rw [heq, hxen]⟩
        rw [if_pos hp]
      · refine .inr ⟨hp, hm, fun _ hx => heq ?_⟩
        exact Option.some.inj (hx.symm.trans hxen)
    · exact fun p ho => ⟨ho, nofun, .inl⟩
  case h_6 port hxen =>
    rw [← Option.some.inj hstep]
    refine h.dpc hdpc rfl rfl rfl (fun _ => rfl) rfl rfl rfl rfl ?_ ?_ ?_
    · intro p hp
      rcases Finset.mem_insert.mp hp with rfl | hp
      · exact .inl ⟨.testing, rfl, rfl, hxen⟩
      · exact .inr ⟨hp, nofun⟩
    · intro p hp hm
      refine .inr ⟨hp, fun hold => hm (Finset.mem_insert_of_mem hold), fun _ hx => hm ?_⟩
      rw [Option.some.inj (hx.symm.trans hxen)]
      exact Finset.mem_insert_self ..
    · exact fun p ho => ⟨ho, nofun, .inl⟩
  case h_7 xen =>
    rw [← Option.some.inj hstep]
    refine h.dpc hdpc rfl rfl rfl ?_ rfl rfl rfl rfl ?_ ?_ ?_
    · exact fun x => (setPort_insertCount s q _ x).2.1
    · exact fun p hp => .inr ⟨hp, nofun⟩
    · exact fun p hp hm => .inr ⟨hp, hm, nofun⟩
    · exact fun p ho => ⟨ho, nofun, .inl⟩
  case h_8 xen =>
    rw [← Option.some.inj hstep]
    refine h.dpc hdpc rfl rfl rfl (fun _ => rfl) rfl rfl rfl rfl ?_ ?_ ?_
    · exact fun p hp => .inr ⟨hp, nofun⟩
    · exact fun p hp hm => .inr ⟨hp, hm, nofun⟩
    · exact fun p ho => ⟨ho, nofun, .inl⟩
  all_goals exact nomatch hstep

/-- A DPC starts. -/
theorem DeliveryInv.startDpc (h : s.DeliveryInv) (hnone : s.dpc = none) :
    ({ s with
      dpcQueue := s.dpcQueue.erase q
      dpc := some (q, .testing) } : EventSys b N).DeliveryInv := by
  have hno {x : Nat} {y : DpcPc} {r : Prop} (hx : s.dpc = some (x, y)) : r := nomatch hnone.symm.trans hx
  refine ⟨h.running, h.unhandled, ?_, ?_, ?_⟩
  · intro p hp hm
    rcases h.masked p hp hm with ⟨x, hx | hx, hxen⟩ | ⟨x, y, hx, -⟩ | hth
    · by_cases heq : x = q
      · exact .inr (.inl ⟨q, .testing, rfl, rfl, heq ▸ hxen⟩)
      · exact .inl ⟨x, .inl (Finset.mem_erase.mpr ⟨heq, hx⟩), hxen⟩
    · exact .inl ⟨x, .inr hx, hxen⟩
    · exact hno hx
    · exact .inr (.inr hth)
  · intro p hp hin hm
    rcases h.pending p hp hin hm with hint | ⟨x, y, hx, -⟩ | hth
    · exact .inl hint
    · exact hno hx
    · exact .inr (.inr hth)
  · intro p hp ho
    rcases h.owed p hp ho with hin | hcall | ⟨x, hx⟩
    · exact .inl hin
    · exact .inr (.inl hcall)
    · exact hno hx

/-! ## The interrupt -/

/-- **The interrupt goes on**: what is to be shown of the ports that it comes to. -/
theorem DeliveryInv.interrupt (h : s.DeliveryInv) (hdpc : s'.dpc = s.dpc) (hpc : s'.pc = s.pc)
    (htable : s'.eventChannelHandlers = s.eventChannelHandlers)
    (hports : ∀ x, (s'.port x).xenPort = (s.port x).xenPort) (hqueue : s.dpcQueue ⊆ s'.dpcQueue)
    (hunhandled : ∀ f port, s'.interrupt = .unhandled f port → s.eventChannelHandlers port = none)
    (hmask : ∀ p, p ∈ s'.info.evtchnMask →
      (∃ f q, s'.interrupt = .inserting f q ∧ (s.port q).xenPort = some p) ∨
      p ∈ s.info.evtchnMask ∧ ∀ f q, s.interrupt = .inserting f q → q ∈ s'.dpcQueue)
    (hpending : ∀ p, s.eventChannelHandlers p ≠ none → p ∈ s'.info.evtchnPending →
      p ∉ s'.info.evtchnMask → p ∈ s.info.evtchnPending ∧ p ∉ s.info.evtchnMask ∧
        (s.InterruptLooks p → s'.InterruptLooks p))
    (howed : ∀ p, s.eventChannelHandlers p ≠ none → outstanding p s'.log = true →
      outstanding p s.log = true ∧ (∀ f q, s.interrupt ≠ .calling f q p) ∧
        (p ∈ s.info.evtchnPending → p ∈ s'.info.evtchnPending ∨ s'.Starting p)) :
    s'.DeliveryInv := by
  refine ⟨?_, ?_, ?_, ?_, ?_⟩
  · rw [hpc]
    exact h.running
  · rw [htable]
    exact hunhandled
  · intro p hp hm
    rw [htable] at hp
    unfold WillUnmask
    simp only [hports, hdpc, hpc]
    rcases hmask p hm with ⟨f, q, hins, hxen⟩ | ⟨hold, hins⟩
    · exact .inl ⟨q, .inr ⟨f, hins⟩, hxen⟩
    rcases h.masked p hp hold with ⟨q, hq | ⟨f, hq⟩, hxen⟩ | hrest
    · exact .inl ⟨q, .inl (hqueue hq), hxen⟩
    · exact .inl ⟨q, .inl (hins f q hq), hxen⟩
    · exact .inr hrest
  · intro p hp hin hm
    rw [htable] at hp
    obtain ⟨hold, hm', hlook⟩ := hpending p hp hin hm
    unfold WillLook
    simp only [hports, hdpc, hpc]
    exact (h.pending p hp hold hm').imp_left hlook
  · intro p hp ho
    rw [htable] at hp
    obtain ⟨hold, hne, hgo⟩ := howed p hp ho
    rcases h.owed p hp hold with hin | ⟨f, q, hcall⟩ | hcall
    · exact hgo hin
    · exact absurd hcall (hne f q)
    · exact .inr (.inr (by rw [hdpc]; exact hcall))

/-- The interrupt looks behind a step as it did before. -/
theorem InterruptLooks.go (h : s.InterruptLooks p) (hexchange : s.interrupt ≠ .exchanging)
    (hfire : ∀ f q, s.interrupt = .firing f q → (s.port q).xenPort ≠ some p)
    (hsel : s'.info.evtchnPendingSel = s.info.evtchnPendingSel)
    (hup : s'.info.evtchnUpcallPending = s.info.evtchnUpcallPending)
    (hscan : s.interrupt.Scans b p → s'.interrupt.Scans b p ∨
      ∃ f q, s'.interrupt = .firing f q ∧ (s'.port q).xenPort = some p) : s'.InterruptLooks p := by
  rcases h with ⟨hin, hwhen⟩ | hs | ⟨f, q, hq, hxen⟩
  · refine .inl ⟨?_, .inl ?_⟩
    · rw [hsel]
      exact hin
    · rw [hup]
      exact hwhen.resolve_right hexchange
  · exact .inr (hscan hs)
  · exact absurd hxen (hfire f q hq)

/-- **The interrupt goes on with no port at hand.** -/
theorem DeliveryInv.loop (h : s.DeliveryInv) (pc : InterruptPc) (live : Bool) (last : Nat)
    (ports : Nat → EvtchnPortHandler) (hports : ∀ x, (ports x).xenPort = (s.port x).xenPort)
    (hloops : s.interrupt.loops = true)
    (hunhandled : ∀ f port, pc = .unhandled f port → s.eventChannelHandlers port = none)
    (hscan : ∀ p, s.eventChannelHandlers p ≠ none → p ∈ s.info.evtchnPending →
      p ∉ s.info.evtchnMask → s.interrupt.Scans b p →
      pc.Scans b p ∨ ∃ f q, pc = .firing f q ∧ (s.port q).xenPort = some p) :
    ({ s with
      interruptLive := live
      lastEvtchnServiced := last
      port := ports
      interrupt := pc } : EventSys b N).DeliveryInv := by
  have hnot {pc : InterruptPc} (hpc : pc.loops = false) : s.interrupt ≠ pc := by
    rintro rfl
    exact nomatch hloops.symm.trans hpc
  refine h.interrupt rfl rfl rfl hports (fun _ => id) hunhandled ?_ ?_ ?_
  · exact fun p hp => .inr ⟨hp, fun f q hq => absurd hq (hnot rfl)⟩
  · intro p hp hin hm
    refine ⟨hin, hm, fun hlook => ?_⟩
    refine hlook.go (hnot rfl) (fun f q hq => absurd hq (hnot rfl)) rfl rfl fun hs => ?_
    simp only [hports]
    exact hscan p hp hin hm hs
  · exact fun p hp ho => ⟨ho, fun f q => hnot rfl, .inl⟩

/-- **The interrupt takes the flag, or the selector**, and will look at the ports that it selects. -/
theorem DeliveryInv.takes (h : s.DeliveryInv) (hat : s.interrupt = .clearing ∨ s.interrupt = .exchanging)
    (hdpc : s'.dpc = s.dpc) (hpc : s'.pc = s.pc) (htable : s'.eventChannelHandlers = s.eventChannelHandlers)
    (hport : s'.port = s.port) (hqueue : s'.dpcQueue = s.dpcQueue) (hlog : s'.log = s.log)
    (hpending : s'.info.evtchnPending = s.info.evtchnPending) (hmask : s'.info.evtchnMask = s.info.evtchnMask)
    (hunhandled : ∀ f port, s'.interrupt ≠ .unhandled f port)
    (hlook : ∀ p, p / b.evtchnsPerToplevel ∈ s.info.evtchnPendingSel → s'.InterruptLooks p) : s'.DeliveryInv := by
  refine h.interrupt hdpc hpc htable (fun _ => by rw [hport]) hqueue.symm.subset
    (fun f port heq => absurd heq (hunhandled f port)) ?_ ?_ ?_
  · intro p hp
    refine .inr ⟨hmask ▸ hp, ?_⟩
    rcases hat with hat | hat <;> rw [hat] <;> exact nofun
  · intro p _ hin hm
    refine ⟨hpending ▸ hin, hmask ▸ hm, ?_⟩
    rintro (⟨hsel, -⟩ | hs | ⟨f, q, hq, -⟩)
    · exact hlook p hsel
    · rcases hat with hat | hat <;> rw [hat] at hs <;> exact False.elim hs
    · rcases hat with hat | hat <;> exact nomatch hat.symm.trans hq
  · intro p _ ho
    refine ⟨hlog ▸ ho, ?_, fun hin => .inl (hpending ▸ hin)⟩
    rcases hat with hat | hat <;> rw [hat] <;> exact nofun

theorem deliveryInv_interruptStep {pendingFirst : Bool} (h : s.DeliveryInv)
    (htable : ∀ port q, s.eventChannelHandlers port = some q → (s.port q).xenPort = some port)
    (hstep : s.interruptStep pendingFirst = some s') : s'.DeliveryInv := by
  -- the interrupt goes on in its loops
  have hgo (pc : InterruptPc) (live : Bool) (last : Nat) (hloops : s.interrupt.loops = true)
      (hunhandled : ∀ f port, pc = .unhandled f port → s.eventChannelHandlers port = none)
      (hscan : ∀ p, s.eventChannelHandlers p ≠ none → p ∈ s.info.evtchnPending →
        p ∉ s.info.evtchnMask → s.interrupt.Scans b p →
        pc.Scans b p ∨ ∃ f q, pc = .firing f q ∧ (s.port q).xenPort = some p) :
      ({ s with interruptLive := live, lastEvtchnServiced := last, interrupt := pc } :
        EventSys b N).DeliveryInv :=
    h.loop pc live last s.port (fun _ => rfl) hloops hunhandled hscan
  unfold interruptStep at hstep
  split at hstep
  case h_1 hpc =>
    rw [← Option.some.inj hstep]
    refine hgo .testing true s.lastEvtchnServiced (by rw [hpc]; rfl) nofun ?_
    rw [hpc]
    exact nofun
  case h_2 hpc =>
    rw [← Option.some.inj hstep]
    refine hgo _ s.interruptLive s.lastEvtchnServiced (by rw [hpc]; rfl) ?_ ?_
    · intro f port heq
      split at heq <;> exact nomatch heq
    · rw [hpc]
      exact nofun
  case h_3 hpc =>
    rw [← Option.some.inj hstep]
    exact h.takes (.inl hpc) rfl rfl rfl rfl rfl rfl rfl rfl nofun fun p hsel => .inl ⟨hsel, .inr rfl⟩
  case h_4 hpc =>
    rw [← Option.some.inj hstep]
    exact h.takes (.inr hpc) rfl rfl rfl rfl rfl rfl rfl rfl nofun fun p hsel => .inr (.inl hsel)
  case h_5 f hpc =>
    have hto (pc : InterruptPc)
        (hunhandled : ∀ f port, pc = .unhandled f port → s.eventChannelHandlers port = none)
        (hscan : ∀ p, p / b.evtchnsPerToplevel ∈ f.sel → pc.Scans b p) :
        ({ s with interrupt := pc } : EventSys b N).DeliveryInv := by
      refine hgo pc s.interruptLive s.lastEvtchnServiced (by rw [hpc]; rfl) hunhandled ?_
      rw [hpc]
      exact fun p _ _ _ hs => .inl (hscan p hs)
    split at hstep
    · next hnone =>
      rw [← Option.some.inj hstep]
      refine hto .testing nofun fun p hp => ?_
      rw [hnone] at hp
      exact absurd hp (Finset.notMem_empty _)
    split at hstep
    · exact nomatch hstep
    split at hstep
    · rw [← Option.some.inj hstep]
      refine hto (.word _) nofun fun p hp => ?_
      by_cases heq : f.nextTop = p / b.evtchnsPerToplevel
      · exact .inr heq
      · exact .inl (Finset.mem_erase.mpr ⟨fun h => heq h.symm, hp⟩)
    · rw [← Option.some.inj hstep]
      exact hto (.tops _) nofun fun p hp => hp
  case h_6 f hpc =>
    rw [← Option.some.inj hstep]
    refine hgo (.half ..) s.interruptLive s.lastEvtchnServiced (by rw [hpc]; rfl) nofun ?_
    rw [hpc]
    intro p hp hin hm hs
    refine .inl (hs.imp_right fun heq => ⟨heq, ?_⟩)
    rw [heq, Arch.mem_word_port]
    cases pendingFirst with
    | true => exact iff_of_true hin rfl
    | false => exact iff_of_false hm nofun
  case h_7 f first w hpc =>
    rw [← Option.some.inj hstep]
    refine hgo (.subs _) s.interruptLive s.lastEvtchnServiced (by rw [hpc]; rfl) nofun ?_
    rw [hpc]
    intro p hp hin hm hs
    refine .inl (hs.imp_right fun ⟨heq, hw⟩ => ⟨heq, ?_⟩)
    change p % b.evtchnsPerToplevel ∈ (if first = true then _ else _)
    rw [heq]
    cases first with
    | true =>
      rw [if_pos rfl, Finset.mem_sdiff, Arch.mem_word_port]
      exact ⟨hw.mpr rfl, hm⟩
    | false =>
      rw [if_neg nofun, Finset.mem_sdiff, Arch.mem_word_port]
      exact ⟨hin, fun hx => nomatch hw.mp hx⟩
  case h_8 f hpc =>
    have hto (pc : InterruptPc) (last : Nat)
        (hunhandled : ∀ f port, pc = .unhandled f port → s.eventChannelHandlers port = none)
        (hscan : ∀ p, s.eventChannelHandlers p ≠ none → f.Covers b p →
          pc.Scans b p ∨ ∃ f q, pc = .firing f q ∧ (s.port q).xenPort = some p) :
        ({ s with lastEvtchnServiced := last, interrupt := pc } : EventSys b N).DeliveryInv := by
      refine hgo pc s.interruptLive last (by rw [hpc]; rfl) hunhandled ?_
      rw [hpc]
      exact fun p hp _ _ hs => hscan p hp hs
    split at hstep
    · next hnone =>
      rw [← Option.some.inj hstep]
      refine hto (.tops _) s.lastEvtchnServiced nofun fun p hp hc => ?_
      rcases hc with hsel | ⟨-, hbit⟩
      · exact .inl hsel
      · rw [hnone] at hbit
        exact absurd hbit (Finset.notMem_empty _)
    split at hstep
    · dsimp only at hstep
      split at hstep
      · exact nomatch hstep
      -- the port is the one at hand, or its bit is still there
      have hbit (p : Nat) (hc : f.Covers b p) :
          p = f.nextTop * b.evtchnsPerToplevel + f.nextSub ∨
            ({ f with bits := f.bits.erase f.nextSub } : Scan).Covers b p := by
        rcases hc with hsel | ⟨htop, hbit⟩
        · exact .inr (.inl hsel)
        · by_cases heq : p % b.evtchnsPerToplevel = f.nextSub
          · left
            rw [htop, ← heq, Nat.div_add_mod']
          · exact .inr (.inr ⟨htop, Finset.mem_erase.mpr ⟨heq, hbit⟩⟩)
      split at hstep
      · next q hq =>
        rw [← Option.some.inj hstep]
        refine hto (.firing _ q) _ nofun fun p hp hc => ?_
        rcases hbit p hc with rfl | hc
        · exact .inr ⟨_, q, rfl, htable _ q hq⟩
        · exact .inl hc
      · next hnone =>
        rw [← Option.some.inj hstep]
        refine hto (.unhandled ..) _ ?_ fun p hp hc => ?_
        · intro f' port heq
          obtain ⟨-, rfl⟩ := InterruptPc.unhandled.inj heq
          exact hnone
        · rcases hbit p hc with rfl | hc
          · exact absurd hnone hp
          · exact .inl hc
    · rw [← Option.some.inj hstep]
      exact hto (.subs _) s.lastEvtchnServiced nofun fun p hp hc => .inl hc
  case h_9 f port hpc =>
    have hnone := h.unhandled f port hpc
    rw [← Option.some.inj hstep]
    refine h.interrupt rfl rfl rfl (fun _ => rfl) (fun _ => id) nofun ?_ ?_ ?_
    · intro p hp
      refine .inr ⟨hp, ?_⟩
      rw [hpc]
      exact nofun
    · intro p hp hin hm
      refine ⟨Finset.mem_of_mem_erase hin, hm, fun hlook => hlook.go ?_ ?_ rfl rfl ?_⟩
      · rw [hpc]
        exact nofun
      · rw [hpc]
        exact nofun
      · rw [hpc]
        exact .inl
    · intro p hp ho
      refine ⟨ho, ?_, fun hin => .inl (Finset.mem_erase.mpr ⟨?_, hin⟩)⟩
      · rw [hpc]
        exact nofun
      · rintro rfl
        exact hp hnone
  case h_10 f q hpc =>
    split at hstep
    · exact nomatch hstep
    next port hxen =>
    have hexchange : s.interrupt ≠ .exchanging := by
      rw [hpc]
      exact nofun
    -- another port
    have hfire {p : Nat} (hne : p ≠ port) (f' : Scan) (q' : Nat) (heq : s.interrupt = .firing f' q') :
        (s.port q').xenPort ≠ some p := by
      obtain ⟨-, rfl⟩ := InterruptPc.firing.inj (hpc.symm.trans heq)
      exact fun hx => hne (Option.some.inj (hx.symm.trans hxen))
    split at hstep
    · rw [← Option.some.inj hstep]
      refine h.interrupt rfl rfl rfl (fun _ => rfl) (fun _ => id) nofun ?_ ?_ ?_
      · intro p hp
        rcases Finset.mem_insert.mp hp with rfl | hp
        · exact .inl ⟨f, q, rfl, hxen⟩
        · refine .inr ⟨hp, ?_⟩
          rw [hpc]
          exact nofun
      · intro p hp hin hm
        have hne : p ≠ port := by
          rintro rfl
          exact hm (Finset.mem_insert_self ..)
        refine ⟨hin, fun hold => hm (Finset.mem_insert_of_mem hold), fun hlook => ?_⟩
        refine hlook.go hexchange (hfire hne) rfl rfl ?_
        rw [hpc]
        exact .inl
      · intro p hp ho
        refine ⟨ho, ?_, .inl⟩
        rw [hpc]
        exact nofun
    · rw [← Option.some.inj hstep]
      refine h.interrupt rfl rfl rfl (fun _ => rfl) (fun _ => id) nofun ?_ ?_ ?_
      · intro p hp
        refine .inr ⟨hp, ?_⟩
        rw [hpc]
        exact nofun
      · intro p hp hin hm
        obtain ⟨hne, hin⟩ := Finset.mem_erase.mp hin
        refine ⟨hin, hm, fun hlook => hlook.go hexchange (hfire hne) rfl rfl ?_⟩
        rw [hpc]
        exact .inl
      · intro p hp ho
        refine ⟨ho, ?_, fun hin => ?_⟩
        · rw [hpc]
          exact nofun
        · by_cases heq : p = port
          · exact .inr (.inl ⟨f, q, by rw [heq]⟩)
          · exact .inl (Finset.mem_erase.mpr ⟨heq, hin⟩)
  case h_11 f q hpc =>
    -- the DPC is queued now, or was queued
    have hkeep {queue : Finset Nat} {pc : InterruptPc} (hqueue : s.dpcQueue ⊆ queue) (hq : q ∈ queue)
        (hunhandled : ∀ f port, pc = .unhandled f port → s.eventChannelHandlers port = none)
        (hscan : ∀ p, f.Covers b p → pc.Scans b p) :
        ({ s with dpcQueue := queue, interrupt := pc } : EventSys b N).DeliveryInv := by
      refine h.interrupt rfl rfl rfl (fun _ => rfl) hqueue hunhandled ?_ ?_ ?_
      · intro p hp
        refine .inr ⟨hp, fun f' q' heq => ?_⟩
        obtain ⟨-, rfl⟩ := InterruptPc.inserting.inj (hpc.symm.trans heq)
        exact hq
      · intro p hp hin hm
        refine ⟨hin, hm, fun hlook => hlook.go ?_ ?_ rfl rfl ?_⟩
        · rw [hpc]
          exact nofun
        · rw [hpc]
          exact nofun
        · rw [hpc]
          exact fun hs => .inl (hscan p hs)
      · intro p hp ho
        refine ⟨ho, ?_, .inl⟩
        rw [hpc]
        exact nofun
    split at hstep
    · next hq =>
      rw [← Option.some.inj hstep]
      exact hkeep (fun _ => id) hq nofun fun p => id
    · rw [← Option.some.inj hstep]
      exact hkeep (Finset.subset_insert ..) (Finset.mem_insert_self ..) nofun fun p => id
  case h_12 f q hpc =>
    split at hstep
    · exact nomatch hstep
    · rw [← Option.some.inj hstep]
      refine h.loop (.subs _) s.interruptLive s.lastEvtchnServiced _ ?_ (by rw [hpc]; rfl) nofun ?_
      · exact fun x => (setPort_insertCount s q _ x).2.1
      · rw [hpc]
        exact fun p _ _ _ hs => .inl hs
  case h_13 f q port hpc =>
    split at hstep
    · exact nomatch hstep
    · rw [← Option.some.inj hstep]
      refine h.interrupt rfl rfl rfl (fun _ => rfl) (fun _ => id) nofun ?_ ?_ ?_
      · intro p hp
        refine .inr ⟨hp, ?_⟩
        rw [hpc]
        exact nofun
      · intro p hp hin hm
        refine ⟨hin, hm, fun hlook => hlook.go ?_ ?_ rfl rfl ?_⟩
        · rw [hpc]
          exact nofun
        · rw [hpc]
          exact nofun
        · rw [hpc]
          exact .inl
      · intro p hp ho
        obtain ⟨hne, ho⟩ := outstanding_started ho
        refine ⟨ho, fun f' q' heq => ?_, .inl⟩
        obtain ⟨-, -, rfl⟩ := InterruptPc.calling.inj (hpc.symm.trans heq)
        exact hne rfl
  case h_14 f q hpc =>
    rw [← Option.some.inj hstep]
    refine hgo (.subs _) s.interruptLive s.lastEvtchnServiced (by rw [hpc]; rfl) nofun ?_
    rw [hpc]
    exact fun p _ _ _ hs => .inl hs
  case h_15 hpc =>
    rw [← Option.some.inj hstep]
    refine hgo .idle false s.lastEvtchnServiced (by rw [hpc]; rfl) nofun ?_
    rw [hpc]
    exact nofun

/-! ## Every run -/

/-- **The invariant at one step.** -/
theorem deliveryInv_step (h : s.DeliveryInv) (hs : s.StopInv) (hok : s.Heeded a)
    (henabled : s.Enabled a) (hstep : s.step a = some s') : s'.DeliveryInv := by
  cases a with
  | notify port =>
    rw [← Option.some.inj hstep]
    exact h.notify port
  | raiseLocally th q =>
    rw [← Option.some.inj hstep]
    split
    · exact h
    · have hidle : s.pc th = .idle := henabled
      refine h.thread s.info s.log rfl (fun _ => id) id ?_ ?_ (fun _ => id) fun p => .inl
      · intro p hp
        refine .inr ⟨hp, ?_⟩
        rw [hidle]
        exact nofun
      · intro p hp hm
        refine .inr (.inr ⟨hp, hm, ?_⟩)
        rw [hidle]
        exact nofun
  | portStop => exact False.elim hok
  | go th => exact deliveryInv_goOn h hok hstep
  | interrupt pendingFirst => exact deliveryInv_interruptStep h hs.table hstep
  | startDpc q =>
    rw [← Option.some.inj hstep]
    exact h.startDpc henabled.2.1
  | dpc => exact deliveryInv_dpcStep h hstep

theorem Start.deliveryInv (h : s.Start) : s.DeliveryInv := by
  refine ⟨?_, ?_, ?_, ?_, ?_⟩
  · intro th
    rw [h.pc]
    rfl
  · rw [h.interrupt]
    exact nofun
  · intro port hport hmask
    obtain ⟨q, hq⟩ := Option.ne_none_iff_exists'.mp hport
    exact absurd hmask (h.registered port q hq).2.2
  · intro port _ hin
    rw [h.clear.1] at hin
    exact absurd hin (Finset.notMem_empty port)
  · intro port _ ho
    rw [h.log] at ho
    exact nomatch ho

/-- The invariant holds in every run. -/
theorem Reached.deliveryInv (h : Reached Heeded s) : s.DeliveryInv := by
  have hboth : s.StopInv ∧ s.DeliveryInv := by
    refine Reachable.invariant (P := fun s => s.StopInv ∧ s.DeliveryInv) h ?_ ?_
    · exact fun s hs => ⟨hs.stopInv, hs.deliveryInv⟩
    · rintro s a s' ⟨hs, hinv⟩ hok ⟨henabled, hstep⟩
      exact ⟨stopInv_step hs henabled hstep, deliveryInv_step hinv hs hok henabled hstep⟩
  exact hboth.2

/-- A port whose last event is a start of its handler has had one after each time that it was raised. -/
theorem started_of_raised {log : List PortEvent} (h : outstanding p log = false)
    {post pre : List PortEvent} (hlog : log = post ++ .raised p :: pre) : .started p ∈ post := by
  subst hlog
  induction post with
  | nil =>
    rw [List.nil_append, outstanding, if_pos rfl] at h
    exact nomatch h
  | cons e post ih =>
    cases e with
    | raised other =>
      by_cases heq : other = p
      · rw [List.cons_append, outstanding, if_pos heq] at h
        exact nomatch h
      · refine List.mem_cons_of_mem _ (ih ?_)
        rw [List.cons_append, outstanding, if_neg heq] at h
        exact h
    | started other =>
      by_cases heq : other = p
      · rw [heq]
        exact List.mem_cons_self
      · refine List.mem_cons_of_mem _ (ih ?_)
        rw [List.cons_append, outstanding, if_neg heq] at h
        exact h

/-- No event is lost: when nothing runs, no port with a handler is pending, and each time that it was
raised was followed by a start of the handler. -/
def Delivered (s : EventSys b N) : Prop :=
  s.Quiescent → ∀ port, s.eventChannelHandlers port ≠ none → port ∉ s.info.evtchnPending ∧
    ∀ post pre, s.log = post ++ .raised port :: pre → .started port ∈ post

/-- **No event is lost** in a run whose steps heed this, and none of these steps is undefined. -/
theorem events_delivered (h : Reached Heeded s) :
    s.Delivered ∧ ∀ a, s.Enabled a → s.Heeded a → s.step a ≠ none := by
  refine ⟨fun hq port hport => ?_, fun a _ hok => step_defined h.boundsInv hok⟩
  obtain ⟨hclear, ho⟩ := hq.clear h.deliveryInv hport
  exact ⟨hclear, fun post pre hlog => started_of_raised ho hlog⟩

/-! ## Runs -/

instance : Decidable (s.Heeded a) := by
  cases a with
  | go th =>
    delta Heeded
    dsimp only
    generalize s.pc th = pc
    cases pc <;> dsimp only <;> infer_instance
  | interrupt pendingFirst =>
    delta Heeded
    dsimp only
    generalize s.interrupt = pc
    cases pc <;> dsimp only <;> infer_instance
  | portStop => exact .isFalse id
  | notify | raiseLocally | startDpc | dpc => exact .isTrue trivial

/-- A port with a DPC is raised while the DPC runs, and then nothing runs. -/
theorem events_delivered_dpc : ∃ s : EventSys .x86 1, s.Quiescent ∧
    s.log = [.started 1, .raised 1, .started 1, .raised 1] ∧ s.Delivered := by
  have hrun : ∃ s : EventSys .x86 1, Reached Heeded s ∧
      decide (s.info.evtchnUpcallPending = false ∧ s.interrupt = .idle ∧ s.dpcQueue = ∅ ∧ s.dpc = none ∧
        (∀ th, s.pc th = .idle) ∧ s.log = [.started 1, .raised 1, .started 1, .raised 1]) = true :=
    exists_reachable_of_follow (initial .interdomainDpc)
      (.notify 1 :: List.replicate 15 (.interrupt true) ++
        [.startDpc 1, .dpc, .dpc, .dpc, .raiseLocally 0 1, .go 0, .go 0, .go 0] ++
        List.replicate 8 .dpc)
      (initial_start _) (by decide)
  obtain ⟨s, h, hs⟩ := hrun
  obtain ⟨hup, hinterrupt, hqueue, hdpc, hpc, hlog⟩ := of_decide_eq_true hs
  exact ⟨s, ⟨hup, hinterrupt, hqueue, hdpc, hpc⟩, hlog, (events_delivered h).1⟩

/-- **An event is lost**: two threads raise a port, and find it unmasked.  The first raises it, and unmasks
it, before the second sets it pending. -/
theorem raise_lost : ¬∀ s : EventSys .x86 2, Reached (fun _ a => a.stops = false) s → s.Delivered := by
  intro hall
  have hrun : ∃ s : EventSys .x86 2, Reached (fun _ a => a.stops = false) s ∧
      decide (s.info.evtchnUpcallPending = false ∧ s.interrupt = .idle ∧ s.dpcQueue = ∅ ∧ s.dpc = none ∧
        (∀ th, s.pc th = .idle) ∧ s.eventChannelHandlers 1 ≠ none ∧ 1 ∈ s.info.evtchnPending) = true :=
    exists_reachable_of_follow (initial .fixed)
      ([.raiseLocally 0 1, .go 0, .raiseLocally 1 1, .go 1, .go 0, .go 1, .go 0, .go 0] ++
        List.replicate 15 (.interrupt true) ++ [.go 1, .go 1])
      (initial_start _) (by decide)
  obtain ⟨s, h, hs⟩ := hrun
  obtain ⟨hup, hinterrupt, hqueue, hdpc, hpc, hhandler, hpending⟩ := of_decide_eq_true hs
  exact (hall s h ⟨hup, hinterrupt, hqueue, hdpc, hpc⟩ 1 hhandler).1 hpending

end EventSys
end V4v.Xenutil
