import LegacyV4v.EventChannel

/-! # Stopping an event channel port

`EvtchnPortStop` takes the handler out of the table, waits until the interrupt is not running, sets
`stopping`, and waits until `insert_count` is zero.  The interrupt gets handlers from the table only, so
from the end of the first wait on it has no pointer to this one and does not queue the DPC; and the count
is that of the DPC being queued and of it running, less the one that the interrupt has queued and not
counted yet. -/
namespace V4v.Xenutil
open GuardedRun

/-- The handler that the interrupt has. -/
def InterruptPc.uses : InterruptPc → Option Nat
  | .firing _ q | .inserting _ q | .inserted _ q | .calling _ q _ | .handling _ q => some q
  | .idle | .testing | .clearing | .exchanging | .tops _ | .word _ | .half .. | .subs _
  | .unhandled .. | .leaving => none

/-- The handler whose DPC the interrupt queues. -/
def InterruptPc.inserts : InterruptPc → Option Nat
  | .inserting _ q | .inserted _ q => some q
  | .idle | .testing | .clearing | .exchanging | .tops _ | .word _ | .half .. | .subs _
  | .unhandled .. | .firing .. | .calling .. | .handling .. | .leaving => none

/-- The handler whose DPC the interrupt has queued and not counted yet. -/
def InterruptPc.uncounted : InterruptPc → Option Nat
  | .inserted _ q => some q
  | .idle | .testing | .clearing | .exchanging | .tops _ | .word _ | .half .. | .subs _
  | .unhandled .. | .firing .. | .inserting .. | .calling .. | .handling .. | .leaving => none

namespace EventPc

/-- The handler that the thread has taken out of the table. -/
def unhooks : EventPc → Option Nat
  | .synchronizing q | .settingStopping q | .waiting q | .clearingPort q | .clearingHandler q => some q
  | .idle | .raising _ | .settingMasked _ | .retesting _ | .remasking _ | .masking _
  | .settingUnmasked _ | .unmasking _ | .unhooking _ => none

/-- The handler for which the thread has waited for the interrupt. -/
def synchronizes : EventPc → Option Nat
  | .settingStopping q | .waiting q | .clearingPort q | .clearingHandler q => some q
  | .idle | .raising _ | .settingMasked _ | .retesting _ | .remasking _ | .masking _
  | .settingUnmasked _ | .unmasking _ | .unhooking _ | .synchronizing _ => none

/-- The handler for which the thread has waited for the DPC. -/
def drains : EventPc → Option Nat
  | .clearingPort q | .clearingHandler q => some q
  | .idle | .raising _ | .settingMasked _ | .retesting _ | .remasking _ | .masking _
  | .settingUnmasked _ | .unmasking _ | .unhooking _ | .synchronizing _ | .settingStopping _
  | .waiting _ => none

end EventPc

/-- The handler that the DPC, before its final decrement, has. -/
def dpcTouches : Option (Nat × DpcPc) → Option Nat
  | none | some (_, .returning) => none
  | some (q, .testing) | some (q, .calling _) | some (q, .handling) | some (q, .unmasking)
  | some (q, .checking) | some (q, .remasking) | some (q, .decrementing) => some q

namespace EventSys
variable {b : Arch} {N : Nat} {s s' : EventSys b N} {a : EventAct N} {th : Fin N} {q : Nat}

/-- The interrupt does not have the handler, and cannot get it. -/
def Away (s : EventSys b N) (q : Nat) : Prop :=
  (∀ port, s.eventChannelHandlers port ≠ some q) ∧ s.interrupt.uses ≠ some q

/-- The DPC is neither queued nor before its final decrement. -/
def Still (s : EventSys b N) (q : Nat) : Prop := q ∉ s.dpcQueue ∧ dpcTouches s.dpc ≠ some q

/-- What `insert_count` counts. -/
def insertions (s : EventSys b N) (q : Nat) : Nat :=
  (if q ∈ s.dpcQueue then 1 else 0) + if dpcTouches s.dpc = some q then 1 else 0

/-- What the interrupt has still to count. -/
def uncounted (s : EventSys b N) (q : Nat) : Nat := if s.interrupt.uncounted = some q then 1 else 0

/-- Stopping ports is safe: the count is right and 0, 1 or 2, the assertion in `FireHandler` holds, and
behind `EvtchnPortStop` neither the interrupt nor the DPC has the handler. -/
structure StopSafe (s : EventSys b N) : Prop where
  counted : ∀ q, (s.port q).insertCount = s.insertions q - s.uncounted q
  range : ∀ q, (s.port q).insertCount = 0 ∨ (s.port q).insertCount = 1 ∨ (s.port q).insertCount = 2
  asserted : ∀ f q, s.interrupt = .inserted f q → (s.port q).stopping = false
  returned : ∀ q ∈ s.stopped, s.Away q ∧ s.Still q

/-- **What holds at every step.** -/
structure StopInv (s : EventSys b N) : Prop where
  counted : ∀ q, (s.port q).insertCount + s.uncounted q = s.insertions q
  queued : ∀ q, s.interrupt.uncounted = some q → q ∈ s.dpcQueue
  live : s.interrupt = .idle ∨ s.interruptLive = true
  table : ∀ port q, s.eventChannelHandlers port = some q → (s.port q).xenPort = some port
  queueClass : ∀ q ∈ s.dpcQueue, (s.port q).cls.usesDpc = true
  dpcClass : ∀ q pc, s.dpc = some (q, pc) → (s.port q).cls.usesDpc = true
  insertClass : ∀ q, s.interrupt.inserts = some q → (s.port q).cls.usesDpc = true
  unhooked : ∀ th q, (s.pc th).unhooks = some q → ∀ port, s.eventChannelHandlers port ≠ some q
  synchronized : ∀ th q, (s.pc th).synchronizes = some q → s.Away q
  drained : ∀ th q, (s.pc th).drains = some q → s.Still q
  stopping : ∀ q, (s.port q).stopping = true → s.Away q
  stopped : ∀ q ∈ s.stopped, s.Away q ∧ s.Still q

/-! ## The interrupt -/

theorem EventPc.drains_synchronizes {pc : EventPc} (h : pc.drains = some q) :
    pc.synchronizes = some q := by
  cases pc with
  | clearingPort | clearingHandler => exact h
  | idle | raising | settingMasked | retesting | remasking | masking | settingUnmasked | unmasking
  | unhooking | synchronizing | settingStopping | waiting => exact nomatch h

theorem EventPc.synchronizes_unhooks {pc : EventPc} (h : pc.synchronizes = some q) :
    pc.unhooks = some q := by
  cases pc with
  | settingStopping | waiting | clearingPort | clearingHandler => exact h
  | idle | raising | settingMasked | retesting | remasking | masking | settingUnmasked | unmasking
  | unhooking | synchronizing => exact nomatch h

theorem InterruptPc.uncounted_uses {pc : InterruptPc} (h : pc.uncounted = some q) :
    pc.uses = some q := by
  cases pc with
  | inserted => exact h
  | idle | testing | clearing | exchanging | tops | word | half | subs | unhandled | firing | inserting
  | calling | handling | leaving => exact nomatch h

/-- **The interrupt goes on**, and gets handlers from the table only. -/
theorem StopInv.interrupt (h : s.StopInv) (info : SharedInfo) (live : Bool) (last : Nat)
    (log : List PortEvent) (pc : InterruptPc) (hlive : pc = .idle ∨ live = true)
    (huses : ∀ q, pc.uses = some q → s.interrupt.uses = some q ∨
      ∃ port, s.eventChannelHandlers port = some q)
    (hinserts : ∀ q, pc.inserts = some q → (s.port q).cls.usesDpc = true)
    (huncounted : pc.uncounted = s.interrupt.uncounted) :
    ({ s with
      info := info
      interruptLive := live
      lastEvtchnServiced := last
      log := log
      interrupt := pc } : EventSys b N).StopInv := by
  have haway (q : Nat) (ha : s.Away q) : pc.uses ≠ some q := by
    intro hq
    rcases huses q hq with hsame | ⟨port, hport⟩
    · exact ha.2 hsame
    · exact ha.1 port hport
  refine ⟨?_, ?_, hlive, h.table, h.queueClass, h.dpcClass, hinserts, h.unhooked, ?_, h.drained, ?_, ?_⟩
  · intro q
    have hc := h.counted q
    unfold uncounted at hc ⊢
    change _ + ((if pc.uncounted = some q then 1 else 0 : Nat) : Int) = _
    rw [huncounted]
    exact hc
  · intro q hq
    exact h.queued q (huncounted.symm.trans hq)
  · exact fun th q hq => ⟨(h.synchronized th q hq).1, haway q (h.synchronized th q hq)⟩
  · exact fun q hq => ⟨(h.stopping q hq).1, haway q (h.stopping q hq)⟩
  · exact fun q hq => ⟨⟨(h.stopped q hq).1.1, haway q (h.stopped q hq).1⟩, (h.stopped q hq).2⟩

/-- Bits change. -/
theorem StopInv.record (h : s.StopInv) (info : SharedInfo) (log : List PortEvent) :
    ({ s with info := info, log := log } : EventSys b N).StopInv :=
  h.interrupt info s.interruptLive s.lastEvtchnServiced log s.interrupt h.live (fun _ => .inl)
    h.insertClass rfl

/-- `KeInsertQueueDpc` queues the DPC. -/
theorem StopInv.insert (h : s.StopInv) {f : Scan} (hpc : s.interrupt = .inserting f q)
    (hnew : q ∉ s.dpcQueue) :
    ({ s with
      dpcQueue := insert q s.dpcQueue
      interrupt := .inserted f q } : EventSys b N).StopInv := by
  have huses : s.interrupt.uses = some q := by
    rw [hpc]
    rfl
  have hclass : (s.port q).cls.usesDpc = true := by
    apply h.insertClass
    rw [hpc]
    rfl
  have hne {x : Nat} (ha : s.Away x) : x ≠ q := fun heq => ha.2 (heq ▸ huses)
  have haway (x : Nat) (ha : s.Away x) : some q ≠ some x := fun heq => hne ha (Option.some.inj heq).symm
  have hstill (x : Nat) (ha : s.Away x) (hs : s.Still x) : x ∉ Insert.insert q s.dpcQueue := by
    rw [Finset.mem_insert]
    rintro (heq | hm)
    · exact hne ha heq
    · exact hs.1 hm
  refine ⟨?_, ?_, ?_, h.table, ?_, h.dpcClass, ?_, h.unhooked, ?_, ?_, ?_, ?_⟩
  · intro x
    have hc := h.counted x
    unfold uncounted insertions at hc ⊢
    rw [hpc] at hc
    change _ + ((if some q = some x then 1 else 0 : Nat) : Int) = _
    change _ + ((if (none : Option Nat) = some x then 1 else 0 : Nat) : Int) = _ at hc
    by_cases hx : x = q
    · subst hx
      rw [if_neg hnew, if_neg nofun] at hc
      rw [if_pos rfl, if_pos (Finset.mem_insert_self ..)]
      push_cast at hc ⊢
      omega
    · have hiff : x ∈ Insert.insert q s.dpcQueue ↔ x ∈ s.dpcQueue := by
        rw [Finset.mem_insert]
        exact or_iff_right hx
      have hne' : some q ≠ some x := fun heq => hx (Option.some.inj heq).symm
      rw [if_neg nofun] at hc
      rw [if_neg hne']
      simp only [hiff]
      exact hc
  · intro x hx
    obtain rfl := Option.some.inj hx
    exact Finset.mem_insert_self ..
  · right
    rcases h.live with hidle | hlive
    · exact nomatch hpc.symm.trans hidle
    · exact hlive
  · intro x hx
    rcases Finset.mem_insert.mp hx with rfl | hx
    · exact hclass
    · exact h.queueClass x hx
  · intro x hx
    obtain rfl := Option.some.inj hx
    exact hclass
  · exact fun t x hx => ⟨(h.synchronized t x hx).1, haway x (h.synchronized t x hx)⟩
  · intro t x hx
    exact ⟨hstill x (h.synchronized t x (EventPc.drains_synchronizes hx)) (h.drained t x hx),
      (h.drained t x hx).2⟩
  · exact fun x hx => ⟨(h.stopping x hx).1, haway x (h.stopping x hx)⟩
  · intro x hx
    obtain ⟨ha, hs⟩ := h.stopped x hx
    exact ⟨⟨ha.1, haway x ha⟩, hstill x ha hs, hs.2⟩

/-- **`insert_count` changes**, with what it counts. -/
theorem StopInv.recount (h : s.StopInv) (q : Nat) (count : Int) (pc : InterruptPc)
    (d : Option (Nat × DpcPc)) (hlive : pc = .idle ∨ s.interruptLive = true)
    (huses : pc.uses = none ∨ pc = s.interrupt) (hinserts : pc.inserts = none ∨ pc = s.interrupt)
    (hqueued : ∀ x, pc.uncounted = some x ↔ x ≠ q ∧ s.interrupt.uncounted = some x)
    (htouch : ∀ x, dpcTouches d = some x → dpcTouches s.dpc = some x)
    (hother : ∀ x, x ≠ q → dpcTouches s.dpc = some x → dpcTouches d = some x)
    (hclass : ∀ x dpc, d = some (x, dpc) → (s.port x).cls.usesDpc = true)
    (hcount : count = ((if q ∈ s.dpcQueue then 1 else 0) +
      (if dpcTouches d = some q then 1 else 0) : Nat)) :
    ({ s.setPort q { s.port q with insertCount := count } with
      interrupt := pc
      dpc := d } : EventSys b N).StopInv := by
  have hport := setPort_insertCount s q count
  have haway (x : Nat) (ha : s.Away x) : pc.uses ≠ some x := by
    rcases huses with hnone | hsame
    · rw [hnone]
      exact nofun
    · rw [hsame]
      exact ha.2
  have hstill (x : Nat) (hs : s.Still x) : dpcTouches d ≠ some x := fun hx => hs.2 (htouch x hx)
  refine ⟨?_, ?_, hlive, ?_, ?_, ?_, ?_, h.unhooked, ?_, ?_, ?_, ?_⟩
  · intro x
    change ((s.setPort q { s.port q with insertCount := count }).port x).insertCount +
      ((if pc.uncounted = some x then 1 else 0 : Nat) : Int) = ((if x ∈ s.dpcQueue then 1 else 0) +
        (if dpcTouches d = some x then 1 else 0) : Nat)
    rw [setPort_port]
    by_cases hx : x = q
    · subst hx
      rw [if_pos rfl, if_neg fun hu => ((hqueued x).mp hu).1 rfl]
      exact (Int.add_zero _).trans hcount
    · have hiff : dpcTouches d = some x ↔ dpcTouches s.dpc = some x := ⟨htouch x, hother x hx⟩
      have hiff' : pc.uncounted = some x ↔ s.interrupt.uncounted = some x :=
        (hqueued x).trans (and_iff_right hx)
      rw [if_neg hx]
      simp only [hiff, hiff']
      exact h.counted x
  · exact fun x hx => h.queued x ((hqueued x).mp hx).2
  · intro port x hx
    exact (hport x).2.1.trans (h.table port x hx)
  · intro x hx
    exact (congrArg _ (hport x).1).trans (h.queueClass x hx)
  · intro x dpc hx
    exact (congrArg _ (hport x).1).trans (hclass x dpc hx)
  · intro x hx
    refine (congrArg _ (hport x).1).trans ?_
    rcases hinserts with hnone | hsame
    · exact nomatch hnone.symm.trans hx
    · exact h.insertClass x (hsame ▸ hx)
  · exact fun t x hx => ⟨(h.synchronized t x hx).1, haway x (h.synchronized t x hx)⟩
  · exact fun t x hx => ⟨(h.drained t x hx).1, hstill x (h.drained t x hx)⟩
  · intro x hx
    have hs := h.stopping x ((hport x).2.2.2 ▸ hx)
    exact ⟨hs.1, haway x hs⟩
  · intro x hx
    obtain ⟨ha, hs⟩ := h.stopped x hx
    exact ⟨⟨ha.1, haway x ha⟩, hs.1, hstill x hs⟩

/-! ## The DPC -/

/-- **The DPC goes on** with the handler that it has. -/
theorem StopInv.dpc (h : s.StopInv) (info : SharedInfo) (log : List PortEvent)
    (d : Option (Nat × DpcPc)) (htouch : dpcTouches d = dpcTouches s.dpc)
    (hclass : ∀ q pc, d = some (q, pc) → (s.port q).cls.usesDpc = true) :
    ({ s with info := info, log := log, dpc := d } : EventSys b N).StopInv := by
  have hstill (x : Nat) (hs : s.Still x) : dpcTouches d ≠ some x := by
    rw [htouch]
    exact hs.2
  refine ⟨?_, h.queued, h.live, h.table, h.queueClass, hclass, h.insertClass, h.unhooked,
    h.synchronized, ?_, h.stopping, ?_⟩
  · intro q
    change _ = (((if q ∈ s.dpcQueue then 1 else 0) + if dpcTouches d = some q then 1 else 0 : Nat) : Int)
    rw [htouch]
    exact h.counted q
  · exact fun t x hx => ⟨(h.drained t x hx).1, hstill x (h.drained t x hx)⟩
  · exact fun x hx => ⟨(h.stopped x hx).1, (h.stopped x hx).2.1, hstill x (h.stopped x hx).2⟩

/-- The DPC starts. -/
theorem StopInv.startDpc (h : s.StopInv) (hidle : s.interrupt = .idle) (hnone : s.dpc = none)
    (hq : q ∈ s.dpcQueue) :
    ({ s with
      dpcQueue := s.dpcQueue.erase q
      dpc := some (q, .testing) } : EventSys b N).StopInv := by
  have hstill (x : Nat) (hs : s.Still x) : x ∉ s.dpcQueue.erase q ∧ some q ≠ some x := by
    refine ⟨fun hm => hs.1 (Finset.mem_of_mem_erase hm), fun heq => hs.1 ?_⟩
    rw [← Option.some.inj heq]
    exact hq
  refine ⟨?_, ?_, h.live, h.table, ?_, ?_, h.insertClass, h.unhooked, h.synchronized, ?_, h.stopping, ?_⟩
  · intro x
    have hc := h.counted x
    unfold insertions at hc
    change _ = (((if x ∈ s.dpcQueue.erase q then 1 else 0) + if some q = some x then 1 else 0 : Nat) : Int)
    rw [hnone, if_neg (c := dpcTouches none = some x) nofun] at hc
    by_cases hx : x = q
    · subst hx
      rw [if_pos hq] at hc
      rw [if_neg (Finset.notMem_erase _ _), if_pos rfl]
      exact hc
    · have hne : some q ≠ some x := fun heq => hx (Option.some.inj heq).symm
      have hiff : x ∈ s.dpcQueue.erase q ↔ x ∈ s.dpcQueue := by
        rw [Finset.mem_erase]
        exact and_iff_right hx
      rw [if_neg hne]
      simp only [hiff]
      exact hc
  · intro x hx
    change s.interrupt.uncounted = some x at hx
    rw [hidle] at hx
    exact nomatch hx
  · exact fun x hx => h.queueClass x (Finset.mem_of_mem_erase hx)
  · intro x pc heq
    obtain ⟨rfl, -⟩ := Prod.mk.inj (Option.some.inj heq)
    exact h.queueClass q hq
  · exact fun t x hx => hstill x (h.drained t x hx)
  · exact fun x hx => ⟨(h.stopped x hx).1, hstill x (h.stopped x hx).2⟩

/-! ## The threads -/

theorem dpcTouches_some {pc : DpcPc} {x : Nat} (h : dpcTouches (some (x, pc)) = some q) : x = q := by
  cases pc with
  | returning => exact nomatch h
  | testing | calling | handling | unmasking | checking | remasking | decrementing =>
    exact Option.some.inj h

/-- `insert_count` is zero, and the interrupt does not have the handler. -/
theorem StopInv.still_of_zero (h : s.StopInv) (haway : s.Away q) (hzero : (s.port q).insertCount = 0) :
    s.Still q := by
  have hnone : s.interrupt.uncounted ≠ some q := fun hq => haway.2 (InterruptPc.uncounted_uses hq)
  have hc := h.counted q
  unfold uncounted insertions at hc
  rw [hzero, if_neg hnone] at hc
  constructor
  · intro hq
    rw [if_pos hq] at hc
    omega
  · intro htouch
    rw [if_pos htouch] at hc
    omega

/-- **A thread goes to another place.** -/
theorem StopInv.move {pc : EventPc} (h : s.StopInv)
    (hunhooks : ∀ q, pc.unhooks = some q → ∀ port, s.eventChannelHandlers port ≠ some q)
    (hsynchronizes : ∀ q, pc.synchronizes = some q → s.Away q)
    (hdrains : ∀ q, pc.drains = some q → s.Still q) : (s.setPc th pc).StopInv := by
  refine ⟨h.counted, h.queued, h.live, h.table, h.queueClass, h.dpcClass, h.insertClass, ?_, ?_, ?_,
    h.stopping, h.stopped⟩
  · intro t x hx
    rw [setPc_pc] at hx
    split at hx
    · exact hunhooks x hx
    · exact h.unhooked t x hx
  · intro t x hx
    rw [setPc_pc] at hx
    split at hx
    · exact hsynchronizes x hx
    · exact h.synchronized t x hx
  · intro t x hx
    rw [setPc_pc] at hx
    split at hx
    · exact hdrains x hx
    · exact h.drained t x hx

/-- A thread that stops port `q` goes on. -/
theorem StopInv.moveFor {pc : EventPc} (h : s.StopInv) (hfor : pc.unhooks = some q) (haway : s.Away q)
    (hstill : pc.drains = some q → s.Still q) : (s.setPc th pc).StopInv := by
  refine h.move ?_ ?_ ?_
  · intro x hx
    obtain rfl := Option.some.inj (hfor.symm.trans hx)
    exact haway.1
  · intro x hx
    obtain rfl := Option.some.inj (hfor.symm.trans (EventPc.synchronizes_unhooks hx))
    exact haway
  · intro x hx
    obtain rfl := Option.some.inj
      (hfor.symm.trans (EventPc.synchronizes_unhooks (EventPc.drains_synchronizes hx)))
    exact hstill hx

/-- A handler changes, but not its count. -/
theorem StopInv.setPort (h : s.StopInv) (q : Nat) (port : EvtchnPortHandler)
    (hcls : port.cls = (s.port q).cls) (hcount : port.insertCount = (s.port q).insertCount)
    (hxen : port.xenPort = (s.port q).xenPort ∨ ∀ x, s.eventChannelHandlers x ≠ some q)
    (hstopping : port.stopping = true → s.Away q) : (s.setPort q port).StopInv := by
  have hcls' (x : Nat) : ((s.setPort q port).port x).cls = (s.port x).cls := by
    rw [setPort_port]
    split
    · next heq => rw [heq, hcls]
    · rfl
  refine ⟨?_, h.queued, h.live, ?_, ?_, ?_, ?_, h.unhooked, h.synchronized, h.drained, ?_, h.stopped⟩
  · intro x
    rw [setPort_port]
    split
    · next heq =>
      rw [hcount, heq]
      exact h.counted q
    · exact h.counted x
  · intro x y hx
    rw [setPort_port]
    split
    · next heq =>
      rcases hxen with hsame | hnone
      · rw [hsame, ← heq]
        exact h.table x y hx
      · exact absurd (heq ▸ hx) (hnone x)
    · exact h.table x y hx
  · exact fun x hx => (congrArg _ (hcls' x)).trans (h.queueClass x hx)
  · exact fun x pc hx => (congrArg _ (hcls' x)).trans (h.dpcClass x pc hx)
  · exact fun x hx => (congrArg _ (hcls' x)).trans (h.insertClass x hx)
  · intro x hx
    rw [setPort_port] at hx
    split at hx
    · next heq => exact heq ▸ hstopping hx
    · exact h.stopping x hx

/-- The handler leaves the table. -/
theorem StopInv.unhook (h : s.StopInv) (q : Nat) :
    (s.unhook q).StopInv ∧ ∀ port, (s.unhook q).eventChannelHandlers port ≠ some q := by
  have hout {port : Nat} (hno : s.eventChannelHandlers port ≠ some q)
      (hxen : (s.port q).xenPort = some port) (x : Nat) : s.eventChannelHandlers x ≠ some q := by
    intro hx
    obtain rfl := Option.some.inj (hxen.symm.trans (h.table x q hx))
    exact hno hx
  unfold EventSys.unhook
  split
  · next hnone =>
    refine ⟨h, fun port hport => ?_⟩
    exact nomatch hnone.symm.trans (h.table port q hport)
  · next port hxen =>
    split
    · have hsub (x y : Nat) (hx : Function.update s.eventChannelHandlers port none x = some y) :
          s.eventChannelHandlers x = some y ∧ x ≠ port := by
        rw [Function.update_apply] at hx
        split at hx
        · exact nomatch hx
        · next hne => exact ⟨hx, hne⟩
      have haway (x : Nat) (ha : s.Away x) (y : Nat) :
          Function.update s.eventChannelHandlers port none y ≠ some x :=
        fun hy => ha.1 y (hsub y x hy).1
      refine ⟨⟨h.counted, h.queued, h.live, ?_, h.queueClass, h.dpcClass, h.insertClass, ?_, ?_,
        h.drained, ?_, ?_⟩, ?_⟩
      · exact fun x y hx => h.table x y (hsub x y hx).1
      · exact fun t x hx y hy => h.unhooked t x hx y (hsub y x hy).1
      · exact fun t x hx => ⟨haway x (h.synchronized t x hx), (h.synchronized t x hx).2⟩
      · exact fun x hx => ⟨haway x (h.stopping x hx), (h.stopping x hx).2⟩
      · exact fun x hx =>
          ⟨⟨haway x (h.stopped x hx).1, (h.stopped x hx).1.2⟩, (h.stopped x hx).2⟩
      · intro x hx
        obtain ⟨hold, hne⟩ := hsub x q hx
        exact hne (Option.some.inj ((h.table x q hold).symm.trans hxen))
    · next hno => exact ⟨h, hout hno hxen⟩

/-! ## Every step -/

theorem stopInv_interruptStep {pendingFirst : Bool} (h : s.StopInv)
    (hstep : s.interruptStep pendingFirst = some s') : s'.StopInv := by
  -- where the interrupt has no handler before the step, and none behind it
  have hgo (info : SharedInfo) (last : Nat) (log : List PortEvent) (pc : InterruptPc)
      (hpc : s.interrupt ≠ .idle) (huses : pc.uses = none) (hinserts : pc.inserts = none)
      (huncounted : pc.uncounted = s.interrupt.uncounted) :
      ({ s with info := info, lastEvtchnServiced := last, log := log, interrupt := pc } :
        EventSys b N).StopInv := by
    refine h.interrupt info s.interruptLive last log pc (.inr (h.live.resolve_left hpc)) ?_ ?_ huncounted
    · exact fun q hq => nomatch huses.symm.trans hq
    · exact fun q hq => nomatch hinserts.symm.trans hq
  have hlive (hpc : s.interrupt ≠ .idle) : s.interruptLive = true := h.live.resolve_left hpc
  unfold interruptStep at hstep
  split at hstep
  case h_1 hpc =>
    rw [← Option.some.inj hstep]
    exact h.interrupt s.info true s.lastEvtchnServiced s.log .testing (.inr rfl) nofun nofun
      (by rw [hpc]; rfl)
  case h_2 hpc =>
    rw [← Option.some.inj hstep]
    refine hgo s.info s.lastEvtchnServiced s.log _ (by rw [hpc]; exact nofun) ?_ ?_ ?_
    · split <;> rfl
    · split <;> rfl
    · rw [hpc]
      split <;> rfl
  case h_3 hpc =>
    rw [← Option.some.inj hstep]
    exact hgo _ s.lastEvtchnServiced s.log .exchanging (by rw [hpc]; exact nofun) rfl rfl
      (by rw [hpc]; rfl)
  case h_4 hpc =>
    rw [← Option.some.inj hstep]
    exact hgo _ _ s.log (.tops _) (by rw [hpc]; exact nofun) rfl rfl (by rw [hpc]; rfl)
  case h_5 f hpc =>
    have hne : s.interrupt ≠ .idle := by
      rw [hpc]
      exact nofun
    have hto (pc : InterruptPc) (huses : pc.uses = none) (hinserts : pc.inserts = none)
        (huncounted : pc.uncounted = none) : ({ s with interrupt := pc } : EventSys b N).StopInv := by
      refine hgo s.info s.lastEvtchnServiced s.log pc hne huses hinserts ?_
      rw [hpc]
      exact huncounted
    split at hstep
    · rw [← Option.some.inj hstep]
      exact hto .testing rfl rfl rfl
    split at hstep
    · exact nomatch hstep
    split at hstep
    · rw [← Option.some.inj hstep]
      exact hto (.word _) rfl rfl rfl
    · rw [← Option.some.inj hstep]
      exact hto (.tops _) rfl rfl rfl
  case h_6 f hpc =>
    rw [← Option.some.inj hstep]
    exact hgo s.info s.lastEvtchnServiced s.log (.half ..) (by rw [hpc]; exact nofun) rfl rfl
      (by rw [hpc]; rfl)
  case h_7 f first w hpc =>
    rw [← Option.some.inj hstep]
    exact hgo s.info s.lastEvtchnServiced s.log (.subs _) (by rw [hpc]; exact nofun) rfl rfl
      (by rw [hpc]; rfl)
  case h_8 f hpc =>
    have hne : s.interrupt ≠ .idle := by
      rw [hpc]
      exact nofun
    have hnone : s.interrupt.uncounted = none := by
      rw [hpc]
      rfl
    split at hstep
    · rw [← Option.some.inj hstep]
      exact hgo s.info s.lastEvtchnServiced s.log (.tops _) hne rfl rfl hnone.symm
    split at hstep
    · dsimp only at hstep
      split at hstep
      · exact nomatch hstep
      split at hstep
      · next q hq =>
        rw [← Option.some.inj hstep]
        refine h.interrupt s.info s.interruptLive _ s.log (.firing _ q) (.inr (hlive hne)) ?_ nofun
          hnone.symm
        intro x hx
        obtain rfl := Option.some.inj hx
        exact .inr ⟨_, hq⟩
      · rw [← Option.some.inj hstep]
        exact hgo s.info _ s.log (.unhandled ..) hne rfl rfl hnone.symm
    · rw [← Option.some.inj hstep]
      exact hgo s.info s.lastEvtchnServiced s.log (.subs _) hne rfl rfl hnone.symm
  case h_9 f port hpc =>
    rw [← Option.some.inj hstep]
    exact hgo _ s.lastEvtchnServiced s.log (.subs _) (by rw [hpc]; exact nofun) rfl rfl
      (by rw [hpc]; rfl)
  case h_10 f q hpc =>
    have hne : s.interrupt ≠ .idle := by
      rw [hpc]
      exact nofun
    have hnone : s.interrupt.uncounted = none := by
      rw [hpc]
      rfl
    have huses : s.interrupt.uses = some q := by
      rw [hpc]
      rfl
    split at hstep
    · exact nomatch hstep
    split at hstep
    · next hclass =>
      rw [← Option.some.inj hstep]
      refine h.interrupt _ s.interruptLive s.lastEvtchnServiced s.log (.inserting f q)
        (.inr (hlive hne)) ?_ ?_ hnone.symm
      · exact fun x hx => .inl (huses.trans hx)
      · intro x hx
        obtain rfl := Option.some.inj hx
        exact hclass
    · rw [← Option.some.inj hstep]
      exact h.interrupt _ s.interruptLive s.lastEvtchnServiced s.log (.calling f q _)
        (.inr (hlive hne)) (fun x hx => .inl (huses.trans hx)) nofun hnone.symm
  case h_11 f q hpc =>
    split at hstep
    · rw [← Option.some.inj hstep]
      exact hgo s.info s.lastEvtchnServiced s.log (.subs _) (by rw [hpc]; exact nofun) rfl rfl
        (by rw [hpc]; rfl)
    · next hnew =>
      rw [← Option.some.inj hstep]
      exact h.insert hpc hnew
  case h_12 f q hpc =>
    split at hstep
    · exact nomatch hstep
    · have hq : q ∈ s.dpcQueue := by
        apply h.queued
        rw [hpc]
        rfl
      have hc := h.counted q
      unfold uncounted insertions at hc
      rw [hpc, if_pos hq, if_pos (by rfl)] at hc
      rw [← Option.some.inj hstep]
      refine h.recount q _ (.subs _) s.dpc ?_ (.inl rfl) (.inl rfl) ?_ (fun x => id) (fun x _ => id)
        h.dpcClass ?_
      · right
        apply hlive
        rw [hpc]
        exact nofun
      · intro x
        rw [hpc]
        exact iff_of_false nofun fun hx => hx.1 (Option.some.inj hx.2).symm
      · rw [if_pos hq]
        exact hc
  case h_13 f q port hpc =>
    split at hstep
    · exact nomatch hstep
    · rw [← Option.some.inj hstep]
      refine h.interrupt s.info s.interruptLive s.lastEvtchnServiced _ (.handling f q) ?_ ?_ nofun ?_
      · right
        apply hlive
        rw [hpc]
        exact nofun
      · intro x hx
        left
        rw [hpc]
        exact hx
      · rw [hpc]
        rfl
  case h_14 f q hpc =>
    rw [← Option.some.inj hstep]
    exact hgo s.info s.lastEvtchnServiced s.log (.subs _) (by rw [hpc]; exact nofun) rfl rfl
      (by rw [hpc]; rfl)
  case h_15 hpc =>
    rw [← Option.some.inj hstep]
    exact h.interrupt s.info false s.lastEvtchnServiced s.log .idle (.inl rfl) nofun nofun
      (by rw [hpc]; rfl)

theorem stopInv_dpcStep (h : s.StopInv) (hidle : s.interrupt = .idle) (hstep : s.dpcStep = some s') : s'.StopInv := by
  unfold dpcStep at hstep
  split at hstep
  · rw [← Option.some.inj hstep]
    exact h
  next q pc hdpc =>
  have hclass := h.dpcClass q pc hdpc
  -- the DPC goes on with its handler
  have hgo (info : SharedInfo) (log : List PortEvent) (pc' : DpcPc)
      (hpc : dpcTouches (some (q, pc)) = some q) (hpc' : dpcTouches (some (q, pc')) = some q) :
      ({ s with info := info, log := log, dpc := some (q, pc') } : EventSys b N).StopInv := by
    refine h.dpc info log _ ?_ ?_
    · rw [hpc', hdpc, hpc]
    · intro x y heq
      obtain ⟨rfl, -⟩ := Prod.mk.inj (Option.some.inj heq)
      exact hclass
  split at hstep
  · split at hstep
    · rw [← Option.some.inj hstep]
      exact hgo _ s.log (.calling _) rfl rfl
    · rw [← Option.some.inj hstep]
      exact hgo s.info s.log .unmasking rfl rfl
  · split at hstep
    · exact nomatch hstep
    · rw [← Option.some.inj hstep]
      exact hgo s.info _ .handling rfl rfl
  · rw [← Option.some.inj hstep]
    exact hgo s.info s.log .testing rfl rfl
  · rw [← Option.some.inj hstep]
    exact hgo _ s.log .checking rfl rfl
  · rw [← Option.some.inj hstep]
    refine hgo s.info s.log _ rfl ?_
    split <;> rfl
  · rw [← Option.some.inj hstep]
    exact hgo _ s.log .testing rfl rfl
  · have hnone : s.interrupt.uncounted = none := by
      rw [hidle]
      rfl
    have hc := h.counted q
    unfold uncounted insertions at hc
    rw [hnone, hdpc, if_neg nofun, if_pos (c := dpcTouches (some (q, .decrementing)) = some q) rfl] at hc
    rw [← Option.some.inj hstep]
    refine h.recount q _ s.interrupt (some (q, .returning)) (.inl hidle) (.inr rfl) (.inr rfl) ?_ nofun ?_
      ?_ ?_
    · intro x
      rw [hnone]
      exact iff_of_false nofun fun hx => nomatch hx.2
    · intro x hx htouch
      rw [hdpc] at htouch
      exact absurd (Option.some.inj htouch).symm hx
    · intro x pc heq
      obtain ⟨rfl, -⟩ := Prod.mk.inj (Option.some.inj heq)
      exact hclass
    · rw [if_neg (c := dpcTouches (some (q, .returning)) = some q) nofun]
      push_cast at hc ⊢
      omega
  · rw [← Option.some.inj hstep]
    exact h.dpc s.info s.log none (by rw [hdpc]; rfl) nofun
  all_goals exact nomatch hstep

theorem stopInv_goOn (h : s.StopInv) (hstep : s.goOn th = some s') : s'.StopInv := by
  -- a thread that is in none of the places behind the lock
  have hmove (pc : EventPc) (hun : pc.unhooks = none) (hsync : pc.synchronizes = none)
      (hdrain : pc.drains = none) : (s.setPc th pc).StopInv := by
    refine h.move ?_ ?_ ?_
    · exact fun q hq => nomatch hun.symm.trans hq
    · exact fun q hq => nomatch hsync.symm.trans hq
    · exact fun q hq => nomatch hdrain.symm.trans hq
  unfold goOn at hstep
  split at hstep
  case h_1 =>
    rw [← Option.some.inj hstep]
    exact h
  case h_2 q hpc =>
    split at hstep
    · exact nomatch hstep
    · rw [← Option.some.inj hstep]
      apply hmove <;> split <;> rfl
  case h_3 port hpc =>
    rw [← Option.some.inj hstep]
    exact (hmove (.retesting port) rfl rfl rfl).record _ _
  case h_4 port hpc =>
    rw [← Option.some.inj hstep]
    apply hmove <;> split <;> rfl
  case h_5 port hpc =>
    rw [← Option.some.inj hstep]
    exact (hmove (.unmasking port) rfl rfl rfl).record _ s.log
  case h_6 port hpc =>
    rw [← Option.some.inj hstep]
    exact (hmove (.settingUnmasked port) rfl rfl rfl).record _ s.log
  case h_7 port hpc =>
    rw [← Option.some.inj hstep]
    exact (hmove (.unmasking port) rfl rfl rfl).record _ _
  case h_8 port hpc =>
    rw [← Option.some.inj hstep]
    exact (hmove .idle rfl rfl rfl).record _ s.log
  case h_9 q hpc =>
    obtain ⟨hinv, hout⟩ := h.unhook q
    rw [← Option.some.inj hstep]
    refine hinv.move ?_ nofun nofun
    intro x hx
    obtain rfl := Option.some.inj hx
    exact hout
  case h_10 q hpc =>
    have hout : ∀ port, s.eventChannelHandlers port ≠ some q := by
      apply h.unhooked th
      rw [hpc]
      rfl
    rw [← Option.some.inj hstep]
    split
    · exact h
    next hlive =>
    have hidle : s.interrupt = .idle := h.live.resolve_right hlive
    have haway : s.Away q := by
      refine ⟨hout, ?_⟩
      rw [hidle]
      exact nofun
    split
    · exact h.moveFor rfl haway nofun
    · next hclass =>
      refine h.moveFor rfl haway fun _ => ⟨fun hq => hclass (h.queueClass q hq), fun htouch => ?_⟩
      cases hdpc : s.dpc with
      | none =>
        rw [hdpc] at htouch
        exact nomatch htouch
      | some d =>
        obtain ⟨x, pc⟩ := d
        rw [hdpc] at htouch
        have hxq : x = q := dpcTouches_some htouch
        exact hclass (hxq ▸ h.dpcClass x pc hdpc)
  case h_11 q hpc =>
    have haway : s.Away q := by
      apply h.synchronized th
      rw [hpc]
      rfl
    rw [← Option.some.inj hstep]
    exact (h.setPort q { s.port q with stopping := true } rfl rfl (.inl rfl) fun _ => haway).moveFor rfl
      haway nofun
  case h_12 q hpc =>
    have haway : s.Away q := by
      apply h.synchronized th
      rw [hpc]
      rfl
    rw [← Option.some.inj hstep]
    split
    · next hzero => exact h.moveFor rfl haway fun _ => h.still_of_zero haway hzero
    · exact h
  case h_13 q hpc =>
    have haway : s.Away q := by
      apply h.synchronized th
      rw [hpc]
      rfl
    have hstill : s.Still q := by
      apply h.drained th
      rw [hpc]
      rfl
    rw [← Option.some.inj hstep]
    exact (h.setPort q { s.port q with xenPort := none } rfl rfl (.inr haway.1)
      (h.stopping q)).moveFor rfl haway fun _ => hstill
  case h_14 q hpc =>
    have haway : s.Away q := by
      apply h.synchronized th
      rw [hpc]
      rfl
    have hstill : s.Still q := by
      apply h.drained th
      rw [hpc]
      rfl
    have hset : ((s.setPort q { s.port q with handler := false }).setPc th .idle).StopInv :=
      (h.setPort q { s.port q with handler := false } rfl rfl (.inl rfl) (h.stopping q)).move nofun nofun
        nofun
    rw [← Option.some.inj hstep]
    refine ⟨hset.counted, hset.queued, hset.live, hset.table, hset.queueClass, hset.dpcClass,
      hset.insertClass, hset.unhooked, hset.synchronized, hset.drained, hset.stopping, ?_⟩
    intro x hx
    rcases Finset.mem_insert.mp hx with rfl | hx
    · exact ⟨haway, hstill⟩
    · exact h.stopped x hx

/-- **The invariant at one step.** -/
theorem stopInv_step (h : s.StopInv) (henabled : s.Enabled a) (hstep : s.step a = some s') :
    s'.StopInv := by
  cases a with
  | notify port =>
    rw [← Option.some.inj hstep]
    exact h.record _ _
  | raiseLocally th q =>
    rw [← Option.some.inj hstep]
    split
    · exact h
    · exact h.move nofun nofun nofun
  | portStop th q =>
    rw [← Option.some.inj hstep]
    exact h.move nofun nofun nofun
  | go th => exact stopInv_goOn h hstep
  | interrupt pendingFirst => exact stopInv_interruptStep h hstep
  | startDpc q =>
    obtain ⟨hidle, hnone, hq⟩ := henabled
    rw [← Option.some.inj hstep]
    exact h.startDpc hidle hnone hq
  | dpc => exact stopInv_dpcStep h henabled hstep

theorem Start.stopInv (h : s.Start) : s.StopInv := by
  have hnone : s.interrupt.uncounted = none := by
    rw [h.interrupt]
    rfl
  have hpc {f : EventPc → Option Nat} {th : Fin N} {q : Nat} {p : Prop} (hf : f .idle = none)
      (hq : f (s.pc th) = some q) : p := by
    rw [h.pc, hf] at hq
    exact nomatch hq
  refine ⟨?_, ?_, .inl h.interrupt, ?_, ?_, ?_, ?_, ?_, ?_, ?_, ?_, ?_⟩
  · intro q
    unfold uncounted insertions
    rw [(h.fresh q).1, hnone, h.dpcQueue, h.dpc]
    rfl
  · exact fun q hq => nomatch hnone.symm.trans hq
  · exact fun port q hq => (h.registered port q hq).1
  · intro q hq
    rw [h.dpcQueue] at hq
    exact absurd hq (Finset.notMem_empty q)
  · exact fun q pc hq => nomatch h.dpc.symm.trans hq
  · intro q hq
    rw [h.interrupt] at hq
    exact nomatch hq
  · exact fun th q hq => hpc (f := EventPc.unhooks) rfl hq
  · exact fun th q hq => hpc (f := EventPc.synchronizes) rfl hq
  · exact fun th q hq => hpc (f := EventPc.drains) rfl hq
  · exact fun q hq => nomatch (h.fresh q).2.symm.trans hq
  · intro q hq
    rw [h.stopped] at hq
    exact absurd hq (Finset.notMem_empty q)

/-- The invariant holds in every run. -/
theorem Reached.stopInv {ok : EventSys b N → EventAct N → Prop} (h : Reached ok s) : s.StopInv :=
  Reachable.invariant h (fun _ => Start.stopInv) fun _ _ _ hinv _ hstep =>
    stopInv_step hinv hstep.1 hstep.2

/-- **Stopping ports is safe** in every run. -/
theorem port_stop_safe (h : Reached (fun _ _ => True) s) : s.StopSafe := by
  have hinv := h.stopInv
  refine ⟨fun q => ?_, fun q => ?_, ?_, hinv.stopped⟩
  · have hc := hinv.counted q
    omega
  · have hc := hinv.counted q
    have hq := hinv.queued q
    unfold uncounted insertions at hc
    split at hc <;> split at hc <;> split at hc <;> grind
  · intro f q hpc
    apply Bool.eq_false_iff.mpr
    intro hstopping
    apply (hinv.stopping q hstopping).2
    rw [hpc]
    rfl

/-- A port is stopped while its DPC is queued; the DPC runs, and then the stop returns. -/
theorem port_stop_safe_drained : ∃ s : EventSys .x86 1, s.log = [.started 1, .raised 1] ∧
    1 ∈ s.stopped ∧ s.StopSafe := by
  have hrun : ∃ s : EventSys .x86 1, Reached (fun _ _ => True) s ∧
      decide (s.log = [.started 1, .raised 1] ∧ 1 ∈ s.stopped) = true :=
    exists_reachable_of_follow (initial .interdomainDpc)
      (.notify 1 :: List.replicate 15 (.interrupt true) ++
        [.portStop 0 1, .go 0, .go 0, .go 0, .go 0, .startDpc 1, .dpc, .dpc, .dpc, .dpc, .dpc, .dpc,
          .go 0, .dpc, .go 0, .go 0, .go 0])
      (initial_start _) (by decide)
  obtain ⟨s, h, hs⟩ := hrun
  obtain ⟨hlog, hstopped⟩ := of_decide_eq_true hs
  exact ⟨s, hlog, hstopped, port_stop_safe h⟩

/-- **The interrupt has queued the DPC**, and not counted it yet. -/
theorem insert_count_late : ¬∀ s : EventSys .x86 1, Reached (fun _ _ => True) s →
    ∀ q, (s.port q).insertCount = s.insertions q := by
  intro hall
  have hrun : ∃ s : EventSys .x86 1, Reached (fun _ _ => True) s ∧
      decide ((s.port 1).insertCount = 0 ∧ s.insertions 1 = 1) = true :=
    exists_reachable_of_follow (initial .interdomainDpc)
      (.notify 1 :: List.replicate 10 (.interrupt true)) (initial_start _) (by decide)
  obtain ⟨s, h, hs⟩ := hrun
  obtain ⟨hzero, hone⟩ := of_decide_eq_true hs
  have heq := hall s h 1
  rw [hzero, hone] at heq
  exact absurd heq (by decide)

end EventSys
end V4v.Xenutil
