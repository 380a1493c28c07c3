import LegacyV4v.GuardedRun
import LegacyV4v.SuspendTokens
import LegacyV4v.Tally
import Mathlib.Data.List.FinRange

/-! # Capturing the processors

`QuiesceSystem` queues `SpinProcessorDpc` on every other processor, waits until all of them run it,
and goes to phase 1.  Then every processor is in `GatherInterruptDisabledProcessors`: it raises to
`HIGH_LEVEL`, decrements `processorCount` and waits for zero; when it has waited too long it adds
itself again, by compare and exchange and never to zero, lowers its level and starts over.
`UnquiesceSystem` goes back to phase 0.

`processorCount` is a local variable of `QuiesceSystem`, and the DPCs have a pointer to it.  It is
named by the call whose frame it is in. -/
namespace V4v.Xenutil
open GuardedRun Tally

/-- `HIGH_LEVEL`. -/
def highLevel : Nat := 31

/-- `QUIESCE_WAIT`. -/
def quiesceWait : Int32 := 2048

/-- Where a processor is in `GatherInterruptDisabledProcessors`. -/
inductive GatherPc where
  | raising
  | decrementing
  | spinning (spinCount : Int32)
  | reading (spinCount : Int32)
  | exchanging (old : Int) (spinCount : Int32)
  | lowering
  | rechecking
  deriving DecidableEq, Repr

/-- What a processor runs: something else, the wait for `_g_QuiesceLock`, the call that has the lock,
or `SpinProcessorDpc` with its `DeferredContext`. -/
inductive CpuPc where
  | idle
  | acquiring
  | calling
  | starting (context : Nat)
  | awaitingPhase (context : Nat)
  | gathering (context : Nat) (gather : GatherPc)
  | acknowledging (context : Nat)
  | awaitingRelease
  | releasing
  deriving DecidableEq, Repr

/-- A processor.  `oldIrql` is the local variable of the routine that last raised the level, `dpc` the
context of the queued DPC, and `counted` names, for the record, the variable that the processor has
decremented and not incremented again. -/
structure Cpu where
  pc : CpuPc
  irql : Nat
  oldIrql : Nat
  dpc : Option Nat
  counted : Option Nat
  deriving DecidableEq, Repr

/-- Where the initiator is, from the lock to its release: launching the DPCs, with the processors that
are left; waiting for `_g_ProcessorSpinCount1`; setting the phase; gathering; waiting for
`_g_ProcessorSpinCount2`; behind `QuiesceSystem`; in `UnquiesceSystem`, lowering the level and
releasing the lock. -/
inductive CallPc (N : Nat) where
  | launching (rest : List (Fin N))
  | awaitingStart
  | settingPhase
  | gathering (gather : GatherPc)
  | awaitingAcks
  | returned
  | lowering
  | unlocking
  deriving DecidableEq, Repr

/-- `QuiesceSystem` has not returned. -/
def CallPc.live {N : Nat} : CallPc N → Bool
  | .launching _ | .awaitingStart | .settingPhase | .gathering _ | .awaitingAcks => true
  | .returned | .lowering | .unlocking => false

/-- The call that has `_g_QuiesceLock`; `frame` is its number. -/
structure QuiesceCall (N : Nat) where
  frame : Nat
  me : Fin N
  oldIrql : Nat
  processorCount : Int
  pc : CallPc N
  deriving DecidableEq, Repr

/-- The processors and the globals; `calls` is the number of calls so far. -/
structure QuiesceSys (N : Nat) where
  cpu : Fin N → Cpu
  call : Option (QuiesceCall N)
  spinCount1 : Int
  spinCount2 : Int
  quiescePhase : Int
  calls : Nat

/-- An idle processor goes to another level, enters `QuiesceSystem`, or takes its DPC; the initiator
enters `UnquiesceSystem`; a processor goes on. -/
inductive QuiesceAct (N : Nat) where
  | setIrql (p : Fin N) (irql : Nat)
  | quiesceSystem (p : Fin N)
  | startDpc (p : Fin N)
  | unquiesceSystem
  | cpu (p : Fin N)
  deriving DecidableEq, Repr

/-- A step of `GatherInterruptDisabledProcessors` with `*Count`; the place behind it is `none` when the
routine returns. -/
def gatherInterruptDisabledProcessors (c : Cpu) (count : Int) (context : Nat) :
    GatherPc → Cpu × Int × Option GatherPc
  | .raising => ({ c with irql := highLevel, oldIrql := c.irql }, count, some .decrementing)
  | .decrementing => ({ c with counted := some context }, count - 1, some (.spinning 0))
  | .spinning spinCount =>
    (c, count, some (if count = 0 then .rechecking
      else if spinCount + 1 > quiesceWait then .reading (spinCount + 1)
      else .spinning (spinCount + 1)))
  | .reading spinCount =>
    (c, count, some (if count = 0 then .rechecking else .exchanging count spinCount))
  | .exchanging old spinCount =>
    if count = old then ({ c with counted := none }, old + 1, some .lowering)
    else (c, count, some (.spinning spinCount))
  | .lowering => ({ c with irql := c.oldIrql }, count, some .rechecking)
  | .rechecking => (c, count, if count = 0 then none else some .raising)

/-! ## What a processor counts for -/

/-- It is at `HIGH_LEVEL` and counted. -/
def Cpu.countedHigh (frame : Nat) (c : Cpu) : Bool :=
  c.irql = highLevel ∧ c.counted = some frame

/-- It keeps the count from zero. -/
def Cpu.uncounted (frame : Nat) (c : Cpu) : Bool := !c.countedHigh frame

/-- `_g_ProcessorSpinCount1` waits for it. -/
def Cpu.awaited (frame : Nat) (c : Cpu) : Bool :=
  c.dpc = some frame ∨ c.pc = .starting frame

/-- The `DeferredContext` of the DPC, until the count of zero is acknowledged. -/
def CpuPc.context : CpuPc → Option Nat
  | .starting context | .awaitingPhase context | .gathering context _ | .acknowledging context =>
    some context
  | .idle | .acquiring | .calling | .awaitingRelease | .releasing => none

/-- `_g_ProcessorSpinCount2` waits for it. -/
def Cpu.unacked (frame : Nat) (c : Cpu) : Bool :=
  c.dpc = some frame ∨ c.pc.context = some frame

/-- It is about to leave `GatherInterruptDisabledProcessors`, having seen zero. -/
def GatherPc.seen (c : Cpu) : GatherPc → Bool
  | .rechecking => c.counted.isSome
  | .raising | .decrementing | .spinning _ | .reading _ | .exchanging .. | .lowering => false

/-- It has seen zero, as an auxiliary. -/
def CpuPc.past (c : Cpu) : CpuPc → Bool
  | .gathering _ gather => gather.seen c
  | .acknowledging _ | .awaitingRelease => true
  | .idle | .acquiring | .calling | .starting _ | .awaitingPhase _ | .releasing => false

/-- It has seen zero, as the initiator. -/
def CallPc.past {N : Nat} (c : Cpu) : CallPc N → Bool
  | .gathering gather => gather.seen c
  | .awaitingAcks | .returned => true
  | .launching _ | .awaitingStart | .settingPhase | .lowering | .unlocking => false

/-- What is known in `GatherInterruptDisabledProcessors`. -/
def GatherOk (frame : Nat) (c : Cpu) : GatherPc → Prop
  | .raising | .lowering => c.counted = none
  | .decrementing => c.counted = none ∧ c.irql = highLevel
  | .spinning _ | .reading _ => c.countedHigh frame = true
  | .exchanging old _ => c.countedHigh frame = true ∧ old ≠ 0
  | .rechecking => c.counted = none ∨ c.countedHigh frame = true

/-- It is in no DPC of the frame, nor has it been: it may only still be on its way out of an earlier
one. -/
def CpuPc.Free (frame : Nat) (c : Cpu) : CpuPc → Prop
  | .idle | .acquiring => c.counted = none
  | .awaitingRelease | .releasing => c.counted ≠ some frame
  | .calling | .starting _ | .awaitingPhase _ | .gathering .. | .acknowledging _ => False

/-- It is in none of the places of a DPC that has not ended. -/
def CpuPc.free : CpuPc → Bool
  | .idle | .acquiring | .awaitingRelease | .releasing => true
  | .calling | .starting _ | .awaitingPhase _ | .gathering .. | .acknowledging _ => false

/-- Before its DPC is queued. -/
def Cpu.Outside (frame : Nat) (c : Cpu) : Prop := c.dpc = none ∧ c.pc.Free frame c

/-- Its DPC is queued or has been started, in phase 0. -/
def Cpu.Launched (frame : Nat) (c : Cpu) : Prop :=
  c.dpc = some frame ∧ c.pc.Free frame c ∨
    c.dpc = none ∧ c.counted = none ∧ (c.pc = .starting frame ∨ c.pc = .awaitingPhase frame)

/-- In `SpinProcessorDpc`, in phase 1. -/
def CpuPc.Inside (frame : Nat) (c : Cpu) : CpuPc → Prop
  | .awaitingPhase context => context = frame ∧ c.counted = none
  | .gathering context gather => context = frame ∧ GatherOk frame c gather
  | .acknowledging context => context = frame ∧ c.countedHigh frame = true
  | .awaitingRelease => c.countedHigh frame = true
  | .idle | .acquiring | .calling | .starting _ | .releasing => False

/-- What is known of an auxiliary, by the place of the initiator. -/
def AuxOk {N : Nat} (frame calls : Nat) (p : Fin N) (c : Cpu) : CallPc N → Prop
  | .launching rest => if p ∈ rest then c.Outside frame else c.Launched frame
  | .awaitingStart => c.Launched frame
  | .settingPhase => c.dpc = none ∧ c.counted = none ∧ c.pc = .awaitingPhase frame
  | .gathering _ | .awaitingAcks => c.dpc = none ∧ c.pc.Inside frame c
  | .returned => c.dpc = none ∧ c.pc = .awaitingRelease ∧ c.countedHigh frame = true
  | .lowering | .unlocking => c.Outside calls

/-- What is known of the initiator. -/
def MineOk {N : Nat} (frame : Nat) (c : Cpu) : CallPc N → Prop
  | .launching _ | .awaitingStart | .settingPhase | .unlocking => c.counted = none
  | .gathering gather => GatherOk frame c gather
  | .awaitingAcks | .returned | .lowering => c.countedHigh frame = true

namespace CallPc
variable {N : Nat}

/-- The processors whose DPC is still to be queued. -/
def rest : CallPc N → List (Fin N)
  | .launching rest => rest
  | .awaitingStart | .settingPhase | .gathering _ | .awaitingAcks | .returned | .lowering
  | .unlocking => []

/-- The system is in phase 1. -/
def phaseOne : CallPc N → Bool
  | .gathering _ | .awaitingAcks | .returned => true
  | .launching _ | .awaitingStart | .settingPhase | .lowering | .unlocking => false

/-- The initiator has not seen `_g_ProcessorSpinCount1` at zero. -/
def starting : CallPc N → Bool
  | .launching _ | .awaitingStart => true
  | .settingPhase | .gathering _ | .awaitingAcks | .returned | .lowering | .unlocking => false

theorem live_of_starting {pc : CallPc N} (h : pc.starting = true) : pc.live = true := by
  cases pc with
  | launching | awaitingStart | settingPhase | gathering | awaitingAcks => rfl
  | returned | lowering | unlocking => exact nomatch h

end CallPc

theorem countedHigh_iff {frame : Nat} {c : Cpu} :
    c.countedHigh frame = true ↔ c.irql = highLevel ∧ c.counted = some frame :=
  decide_eq_true_iff

theorem countedHigh_of_ne {frame : Nat} {c : Cpu} (h : c.counted ≠ some frame) :
    c.countedHigh frame = false :=
  decide_eq_false fun hc => h hc.2

theorem countedHigh_of_none {frame : Nat} {c : Cpu} (h : c.counted = none) :
    c.countedHigh frame = false :=
  countedHigh_of_ne (by rw [h]; exact nofun)

theorem uncounted_iff {frame : Nat} {c : Cpu} :
    c.uncounted frame = true ↔ ¬ (c.irql = highLevel ∧ c.counted = some frame) := by
  unfold Cpu.uncounted
  rw [Bool.not_eq_true', ← Bool.not_eq_true, countedHigh_iff]

theorem uncounted_of_none {frame : Nat} {c : Cpu} (h : c.counted = none) :
    c.uncounted frame = true :=
  congrArg not (countedHigh_of_none h)

theorem awaited_of_dpc {frame : Nat} {c : Cpu} (h : c.dpc = some frame) :
    c.awaited frame = true :=
  decide_eq_true (.inl h)

theorem awaited_of_starting {frame : Nat} {c : Cpu} (h : c.pc = .starting frame) :
    c.awaited frame = true :=
  decide_eq_true (.inr h)

theorem not_awaited {frame : Nat} {c : Cpu} (hdpc : c.dpc = none) (hpc : c.pc ≠ .starting frame) :
    c.awaited frame = false := by
  apply decide_eq_false
  rintro (hd | hst)
  · exact nomatch hdpc.symm.trans hd
  · exact hpc hst

theorem unacked_of_dpc {frame : Nat} {c : Cpu} (h : c.dpc = some frame) :
    c.unacked frame = true :=
  decide_eq_true (.inl h)

theorem unacked_of_context {frame : Nat} {c : Cpu} (h : c.pc.context = some frame) :
    c.unacked frame = true :=
  decide_eq_true (.inr h)

theorem not_unacked {frame : Nat} {c : Cpu} (hdpc : c.dpc = none) (hpc : c.pc.context = none) :
    c.unacked frame = false := by
  apply decide_eq_false
  rintro (hd | hc)
  · exact nomatch hdpc.symm.trans hd
  · exact nomatch hpc.symm.trans hc

/-- A free processor is not counted, and nothing but its DPC is waited for. -/
theorem free_counts {frame : Nat} {c : Cpu} (h : c.pc.Free frame c) :
    c.uncounted frame = true ∧ c.pc.context = none ∧ c.pc ≠ .starting frame := by
  have hne : c.counted ≠ some frame := by
    revert h
    cases c.pc with
    | idle | acquiring =>
      intro h
      rw [show c.counted = none from h]
      exact nofun
    | awaitingRelease | releasing => exact id
    | calling | starting | awaitingPhase | gathering | acknowledging => exact False.elim
  refine ⟨congrArg not (countedHigh_of_ne hne), ?_, ?_⟩
  · revert h
    cases c.pc with
    | idle | acquiring | awaitingRelease | releasing | calling => exact fun _ => rfl
    | starting | awaitingPhase | gathering | acknowledging => exact False.elim
  · intro hpc
    rw [hpc] at h
    exact h

theorem Cpu.Outside.stays {frame : Nat} {c c' : Cpu} (h : c.Outside frame) (hdpc : c'.dpc = c.dpc)
    (hstays : ∀ f, c.pc.Free f c → c'.pc.Free f c') : c'.Outside frame :=
  ⟨hdpc.trans h.1, hstays _ h.2⟩

theorem Cpu.Launched.of_free {frame : Nat} {c : Cpu} (h : c.Launched frame)
    (hfree : c.pc.free = true) : c.dpc = some frame ∧ c.pc.Free frame c := by
  rcases h with h | ⟨-, -, hpc | hpc⟩
  · exact h
  · rw [hpc] at hfree
    exact nomatch hfree
  · rw [hpc] at hfree
    exact nomatch hfree

theorem Cpu.Launched.stays {frame : Nat} {c c' : Cpu} (h : c.Launched frame)
    (hfree : c.pc.free = true) (hdpc : c'.dpc = c.dpc)
    (hstays : ∀ f, c.pc.Free f c → c'.pc.Free f c') : c'.Launched frame := by
  obtain ⟨hd, hf⟩ := h.of_free hfree
  exact .inl ⟨hdpc.trans hd, hstays _ hf⟩

/-- A free processor, in phase 0. -/
theorem auxOk_free {N : Nat} {frame calls : Nat} {p : Fin N} {c : Cpu} {pc : CallPc N}
    (h : AuxOk frame calls p c pc) (hph : pc.phaseOne = false) (hfree : c.pc.free = true) :
    (pc.live = true → c.pc.Free frame c) ∧
      ∀ c' : Cpu, c'.dpc = c.dpc → (∀ f, c.pc.Free f c → c'.pc.Free f c') →
        AuxOk frame calls p c' pc := by
  cases pc with
  | launching rest =>
    by_cases hmem : p ∈ rest
    · rw [AuxOk, if_pos hmem] at h
      refine ⟨fun _ => h.2, fun c' hdpc hstays => ?_⟩
      rw [AuxOk, if_pos hmem]
      exact h.stays hdpc hstays
    · rw [AuxOk, if_neg hmem] at h
      refine ⟨fun _ => (h.of_free hfree).2, fun c' hdpc hstays => ?_⟩
      rw [AuxOk, if_neg hmem]
      exact h.stays hfree hdpc hstays
  | awaitingStart =>
    exact ⟨fun _ => (Cpu.Launched.of_free h hfree).2,
      fun _ hdpc hstays => Cpu.Launched.stays h hfree hdpc hstays⟩
  | settingPhase =>
    rw [show c.pc = .awaitingPhase frame from h.2.2] at hfree
    exact nomatch hfree
  | gathering | awaitingAcks | returned => exact nomatch hph
  | lowering | unlocking =>
    exact ⟨nofun, fun _ hdpc hstays => Cpu.Outside.stays h hdpc hstays⟩

/-- An auxiliary whose DPC has been started. -/
theorem auxOk_starting {N : Nat} {frame calls context : Nat} {p : Fin N} {c : Cpu} {pc : CallPc N}
    (h : AuxOk frame calls p c pc) (hpc : c.pc = .starting context) :
    context = frame ∧ c.dpc = none ∧ c.counted = none ∧ pc.starting = true ∧
      ∀ c' : Cpu, c'.Launched frame → AuxOk frame calls p c' pc := by
  have hlaunched (h : c.Launched frame) : context = frame ∧ c.dpc = none ∧ c.counted = none := by
    rcases h with ⟨-, hf⟩ | ⟨hd, hn, hs | hs⟩
    · rw [hpc] at hf
      exact hf.elim
    · exact ⟨CpuPc.starting.inj (hpc.symm.trans hs), hd, hn⟩
    · exact nomatch hpc.symm.trans hs
  have hnot (f : Nat) (h : c.Outside f) : False := by
    have hf := h.2
    rw [hpc] at hf
    exact hf
  cases pc with
  | launching rest =>
    by_cases hmem : p ∈ rest
    · rw [AuxOk, if_pos hmem] at h
      exact (hnot _ h).elim
    · rw [AuxOk, if_neg hmem] at h
      obtain ⟨hf, hd, hn⟩ := hlaunched h
      refine ⟨hf, hd, hn, rfl, fun c' hc' => ?_⟩
      rw [AuxOk, if_neg hmem]
      exact hc'
  | awaitingStart =>
    obtain ⟨hf, hd, hn⟩ := hlaunched h
    exact ⟨hf, hd, hn, rfl, fun _ hc' => hc'⟩
  | settingPhase => exact nomatch hpc.symm.trans h.2.2
  | gathering | awaitingAcks =>
    have hin := h.2
    rw [hpc] at hin
    exact hin.elim
  | returned => exact nomatch hpc.symm.trans h.2.1
  | lowering | unlocking => exact (hnot _ h).elim

/-- An auxiliary whose DPC is queued. -/
theorem auxOk_queued {N : Nat} {frame calls context : Nat} {p : Fin N} {c : Cpu} {pc : CallPc N}
    (h : AuxOk frame calls p c pc) (hfree : c.pc.free = true) (hdpc : c.dpc = some context) :
    context = frame ∧ c.pc.Free frame c ∧ pc.starting = true ∧
      ∀ c' : Cpu, c'.Launched frame → AuxOk frame calls p c' pc := by
  have hnot (f : Nat) (h : c.Outside f) : False := nomatch h.1.symm.trans hdpc
  cases pc with
  | launching rest =>
    by_cases hmem : p ∈ rest
    · rw [AuxOk, if_pos hmem] at h
      exact (hnot _ h).elim
    · rw [AuxOk, if_neg hmem] at h
      obtain ⟨hd, hf⟩ := h.of_free hfree
      refine ⟨Option.some.inj (hdpc.symm.trans hd), hf, rfl, fun c' hc' => ?_⟩
      rw [AuxOk, if_neg hmem]
      exact hc'
  | awaitingStart =>
    obtain ⟨hd, hf⟩ := Cpu.Launched.of_free h hfree
    exact ⟨Option.some.inj (hdpc.symm.trans hd), hf, rfl, fun _ hc' => hc'⟩
  | settingPhase | gathering | awaitingAcks | returned => exact nomatch h.1.symm.trans hdpc
  | lowering | unlocking => exact (hnot _ h).elim

/-- An auxiliary in phase 1 that has not acknowledged. -/
theorem auxOk_inside {N : Nat} {frame calls : Nat} {p : Fin N} {c : Cpu} {pc : CallPc N}
    (h : AuxOk frame calls p c pc) (hin : c.pc ≠ .awaitingRelease) (hph : pc.phaseOne = true) :
    pc.live = true ∧ pc.starting = false ∧ c.dpc = none ∧ c.pc.Inside frame c ∧
      ∀ c' : Cpu, c'.dpc = none → c'.pc.Inside frame c' → AuxOk frame calls p c' pc := by
  cases pc with
  | gathering | awaitingAcks => exact ⟨rfl, rfl, h.1, h.2, fun _ hd hi => ⟨hd, hi⟩⟩
  | returned => exact absurd h.2.1 hin
  | launching | awaitingStart | settingPhase | lowering | unlocking => exact nomatch hph

/-- What cannot be in phase 0. -/
theorem auxOk_phaseOne {N : Nat} {frame calls : Nat} {p : Fin N} {c : Cpu} {pc : CallPc N}
    (h : AuxOk frame calls p c pc) (hfree : c.pc.free = false)
    (hst : ∀ context, c.pc ≠ .starting context ∧ c.pc ≠ .awaitingPhase context) :
    pc.phaseOne = true := by
  have hnot (f : Nat) (h : c.pc.Free f c) : False := by
    revert h hfree
    cases c.pc with
    | idle | acquiring | awaitingRelease | releasing => exact fun hf => nomatch hf
    | calling | starting | awaitingPhase | gathering | acknowledging => exact fun _ => id
  have hlaunched (h : c.Launched frame) : False := by
    rcases h with ⟨-, hf⟩ | ⟨-, -, hpc | hpc⟩
    · exact hnot _ hf
    · exact (hst frame).1 hpc
    · exact (hst frame).2 hpc
  cases pc with
  | launching rest =>
    by_cases hmem : p ∈ rest
    · rw [AuxOk, if_pos hmem] at h
      exact (hnot _ h.2).elim
    · rw [AuxOk, if_neg hmem] at h
      exact (hlaunched h).elim
  | awaitingStart => exact (hlaunched h).elim
  | settingPhase => exact absurd h.2.2 (hst frame).2
  | gathering | awaitingAcks | returned => rfl
  | lowering | unlocking => exact (hnot _ h.2).elim

/-- **What a step of `GatherInterruptDisabledProcessors` does.**  The count follows the processor, it
does not leave zero, and the routine returns at zero only. -/
theorem gather_spec {frame : Nat} {c : Cpu} {count : Int} {gather : GatherPc}
    (h : GatherOk frame c gather) (hcount : count = 0 → c.countedHigh frame = true)
    (hseen : gather.seen c = true → count = 0) :
    let r := gatherInterruptDisabledProcessors c count frame gather
    r.1.pc = c.pc ∧ r.1.dpc = c.dpc ∧
      r.2.1 = count + (r.1.uncounted frame).toNat - (c.uncounted frame).toNat ∧
      (count = 0 → r.2.1 = 0) ∧
      match r.2.2 with
      | some next => GatherOk frame r.1 next ∧ (next.seen r.1 = true → r.2.1 = 0)
      | none => r.2.1 = 0 ∧ r.1.countedHigh frame = true := by
  intro r
  unfold Cpu.uncounted
  cases gather with
  | raising =>
    have hnot : c.countedHigh frame = false := countedHigh_of_none h
    have hnot' : r.1.countedHigh frame = false := countedHigh_of_none h
    rw [hnot, hnot']
    exact ⟨rfl, rfl, (Int.add_sub_cancel ..).symm, id, ⟨h, rfl⟩, nofun⟩
  | decrementing =>
    have hnot : c.countedHigh frame = false := countedHigh_of_none h.1
    have hyes : r.1.countedHigh frame = true := countedHigh_iff.mpr ⟨h.2, rfl⟩
    rw [hnot, hyes]
    refine ⟨rfl, rfl, ?_, ?_, hyes, nofun⟩
    · change count - 1 = count + (0 : Nat) - (1 : Nat)
      omega
    · intro hz
      exact Bool.noConfusion (hnot.symm.trans (hcount hz))
  | spinning spinCount =>
    refine ⟨rfl, rfl, (Int.add_sub_cancel ..).symm, id, ?_⟩
    change GatherOk frame c (if count = 0 then _ else if _ then _ else _) ∧
      (GatherPc.seen c (if count = 0 then _ else if _ then _ else _) = true → count = 0)
    split
    · next hz => exact ⟨.inr h, fun _ => hz⟩
    · split
      · exact ⟨h, nofun⟩
      · exact ⟨h, nofun⟩
  | reading spinCount =>
    refine ⟨rfl, rfl, (Int.add_sub_cancel ..).symm, id, ?_⟩
    change GatherOk frame c (if count = 0 then _ else _) ∧
      (GatherPc.seen c (if count = 0 then _ else _) = true → count = 0)
    split
    · next hz => exact ⟨.inr h, fun _ => hz⟩
    · next hne => exact ⟨⟨h, hne⟩, nofun⟩
  | exchanging old spinCount =>
    obtain ⟨hyes, hold⟩ := h
    by_cases heq : count = old
    · have hr : r = ({ c with counted := none }, old + 1, some .lowering) := if_pos heq
      have hnot : r.1.countedHigh frame = false := by
        rw [hr]
        exact countedHigh_of_none rfl
      rw [hyes, hnot, hr]
      refine ⟨rfl, rfl, ?_, ?_, rfl, nofun⟩
      · change old + 1 = count + (1 : Nat) - (0 : Nat)
        omega
      · intro hz
        exact absurd (heq.symm.trans hz) hold
    · have hr : r = (c, count, some (.spinning spinCount)) := if_neg heq
      rw [hr]
      exact ⟨rfl, rfl, (Int.add_sub_cancel ..).symm, id, hyes, nofun⟩
  | lowering =>
    have hnot : c.countedHigh frame = false := countedHigh_of_none h
    have hnot' : r.1.countedHigh frame = false := countedHigh_of_none h
    rw [hnot, hnot']
    refine ⟨rfl, rfl, (Int.add_sub_cancel ..).symm, id, .inl h, ?_⟩
    intro hs
    rw [show GatherPc.rechecking.seen r.1 = c.counted.isSome from rfl,
      show c.counted = none from h] at hs
    exact nomatch hs
  | rechecking =>
    refine ⟨rfl, rfl, (Int.add_sub_cancel ..).symm, id, ?_⟩
    by_cases hz : count = 0
    · have hr : r = (c, count, none) := by
        change (c, count, if count = 0 then none else some GatherPc.raising) = _
        rw [if_pos hz]
      rw [hr]
      exact ⟨hz, hcount hz⟩
    · have hr : r = (c, count, some .raising) := by
        change (c, count, if count = 0 then none else some GatherPc.raising) = _
        rw [if_neg hz]
      have hnone : c.counted = none := by
        cases hc : c.counted with
        | none => rfl
        | some g =>
          have hsome : GatherPc.rechecking.seen c = true := by
            change c.counted.isSome = true
            rw [hc]
            rfl
          exact absurd (hseen hsome) hz
      rw [hr]
      exact ⟨hnone, nofun⟩

namespace QuiesceSys
variable {N : Nat} {s s' : QuiesceSys N} {a : QuiesceAct N} {p : Fin N}

def setCpu (s : QuiesceSys N) (p : Fin N) (c : Cpu) : QuiesceSys N :=
  { s with cpu := Function.update s.cpu p c }

/-- `*Count`, if the frame that it is in is alive. -/
def countAt (s : QuiesceSys N) (context : Nat) : Option Int :=
  s.call.bind fun k =>
    if k.frame = context ∧ k.pc.live = true then some k.processorCount else none

/-- A step of `SpinProcessorDpc`; `none` if an assertion fails or the frame of `*Count` is gone. -/
def spinProcessorDpc (s : QuiesceSys N) (p : Fin N) : Option (QuiesceSys N) :=
  let c := s.cpu p
  match c.pc with
  | .starting context =>
    if s.spinCount1 > 0 then some { s.setCpu p { c with pc := .awaitingPhase context } with
      spinCount1 := s.spinCount1 - 1 }
    else none
  | .awaitingPhase context =>
    some (if s.quiescePhase = 0 then s
      else s.setCpu p { c with pc := .gathering context .raising })
  | .gathering context gather => (s.countAt context).map fun count =>
    let r := gatherInterruptDisabledProcessors c count context gather
    let pc := match r.2.2 with
      | some gather => .gathering context gather
      | none => .acknowledging context
    { s.setCpu p { r.1 with pc := pc } with
      call := s.call.map fun k => { k with processorCount := r.2.1 } }
  | .acknowledging _ =>
    if s.spinCount2 > 0 then some { s.setCpu p { c with pc := .awaitingRelease } with
      spinCount2 := s.spinCount2 - 1 }
    else none
  | .awaitingRelease =>
    some (if s.quiescePhase ≠ 0 then s else s.setCpu p { c with pc := .releasing })
  | .releasing => some (s.setCpu p { c with pc := .idle, irql := c.oldIrql, counted := none })
  | .idle | .acquiring | .calling => some s

/-- `QuiesceSystem` takes the lock and sets its counts. -/
def acquired (s : QuiesceSys N) (p : Fin N) : QuiesceSys N :=
  { s.setCpu p { s.cpu p with pc := .calling } with
    call := some ⟨s.calls, p, (s.cpu p).oldIrql, N, .launching (List.finRange N)⟩
    spinCount1 := N - 1
    spinCount2 := N - 1
    calls := s.calls + 1 }

/-- A step of the initiator; `none` if a DPC is initialised that is queued. -/
def callStep (s : QuiesceSys N) (k : QuiesceCall N) : Option (QuiesceSys N) :=
  match k.pc with
  | .launching (number :: rest) =>
    let s := { s with call := some { k with pc := .launching rest } }
    if number = k.me then some s
    else if (s.cpu number).dpc ≠ none then none
    else some (s.setCpu number { s.cpu number with dpc := some k.frame })
  | .launching [] => some { s with call := some { k with pc := .awaitingStart } }
  | .awaitingStart =>
    some (if s.spinCount1 ≠ 0 then s else { s with call := some { k with pc := .settingPhase } })
  | .settingPhase =>
    some { s with quiescePhase := 1, call := some { k with pc := .gathering .raising } }
  | .gathering gather =>
    let r := gatherInterruptDisabledProcessors (s.cpu k.me) k.processorCount k.frame gather
    let pc := match r.2.2 with
      | some gather => .gathering gather
      | none => .awaitingAcks
    some { s.setCpu k.me r.1 with call := some { k with pc := pc, processorCount := r.2.1 } }
  | .awaitingAcks =>
    some (if s.spinCount2 ≠ 0 then s else { s with call := some { k with pc := .returned } })
  | .returned => some s
  | .lowering =>
    some { s.setCpu k.me { s.cpu k.me with irql := dispatchLevel, counted := none } with
      call := some { k with pc := .unlocking } }
  | .unlocking =>
    some { s.setCpu k.me { s.cpu k.me with pc := .idle, irql := k.oldIrql } with call := none }

/-- A processor goes on. -/
def cpuStep (s : QuiesceSys N) (p : Fin N) : Option (QuiesceSys N) :=
  match (s.cpu p).pc, s.call with
  | .acquiring, none => some (s.acquired p)
  | .calling, some k => s.callStep k
  | _, _ => s.spinProcessorDpc p

/-- The result of a step; `none` if an assertion fails or `processorCount` is accessed behind the
return of `QuiesceSystem`. -/
def step (s : QuiesceSys N) : QuiesceAct N → Option (QuiesceSys N)
  | .setIrql p irql => some (s.setCpu p { s.cpu p with irql := irql })
  | .quiesceSystem p =>
    if s.quiescePhase = 0 then some (s.setCpu p { s.cpu p with
      pc := .acquiring, irql := dispatchLevel, oldIrql := (s.cpu p).irql })
    else none
  | .startDpc p => (s.cpu p).dpc.map fun context =>
    s.setCpu p { s.cpu p with pc := .starting context, irql := dispatchLevel, dpc := none }
  | .unquiesceSystem => some { s with
      quiescePhase := 0
      call := s.call.map fun k => { k with pc := .lowering } }
  | .cpu p => s.cpuStep p

/-- What can happen: calls are made at most at `DISPATCH_LEVEL`, DPCs are taken below it, and the
initiator unquiesces the system when it has quiesced it. -/
def Enabled (s : QuiesceSys N) : QuiesceAct N → Prop
  | .setIrql p _ => (s.cpu p).pc = .idle
  | .quiesceSystem p => (s.cpu p).pc = .idle ∧ (s.cpu p).irql ≤ dispatchLevel
  | .startDpc p => (s.cpu p).pc = .idle ∧ (s.cpu p).irql < dispatchLevel ∧ (s.cpu p).dpc ≠ none
  | .unquiesceSystem => ∃ k ∈ s.call, k.pc = .returned
  | .cpu _ => True

/-- Nothing has been quiesced yet. -/
def Start (s : QuiesceSys N) : Prop :=
  s.call = none ∧ s.quiescePhase = 0 ∧
    ∀ p, (s.cpu p).pc = .idle ∧ (s.cpu p).dpc = none ∧ (s.cpu p).counted = none

/-- The states of all runs. -/
abbrev Reached : QuiesceSys N → Prop :=
  Reachable Start (fun s a s' => s.Enabled a ∧ s.step a = some s') fun _ _ => True

/-! ## What holds at every step -/

/-- The processors, under a call. -/
def CpuOk (calls : Nat) (k : QuiesceCall N) (p : Fin N) (c : Cpu) : Prop :=
  if p = k.me then c.pc = .calling ∧ c.dpc = none ∧ MineOk k.frame c k.pc
  else AuxOk k.frame calls p c k.pc

/-- How many DPCs are still to be queued. -/
def unlaunched (k : QuiesceCall N) : Nat := (k.pc.rest.filter fun p => p ≠ k.me).length

/-- **What holds during a call.** -/
structure CallOk (s : QuiesceSys N) (k : QuiesceCall N) : Prop where
  fresh : k.frame < s.calls
  cpus : ∀ p, CpuOk s.calls k p (s.cpu p)
  phase : s.quiescePhase = if k.pc.phaseOne = true then 1 else 0
  nodup : k.pc.rest.Nodup
  spin1 : k.pc.starting = true →
    s.spinCount1 = (tally (Cpu.awaited k.frame) s.cpu + unlaunched k : Nat)
  spin2 : k.pc.live = true →
    s.spinCount2 = (tally (Cpu.unacked k.frame) s.cpu + unlaunched k : Nat)
  count : k.pc.live = true → k.processorCount = (tally (Cpu.uncounted k.frame) s.cpu : Nat)
  zero : k.pc.phaseOne = true →
    k.pc.past (s.cpu k.me) = true ∨ (∃ p, (s.cpu p).pc.past (s.cpu p) = true) →
      k.processorCount = 0

/-- **What holds at every step.** -/
def Inv (s : QuiesceSys N) : Prop :=
  match s.call with
  | none => s.quiescePhase = 0 ∧ ∀ p, (s.cpu p).Outside s.calls
  | some k => s.CallOk k

/-! ## Steps of the auxiliaries -/

theorem inv_of_call {k : QuiesceCall N} (hcall : s.call = some k) (h : s.CallOk k) : s.Inv := by
  unfold Inv
  rw [hcall]
  exact h

theorem cpus_update {calls : Nat} {k : QuiesceCall N} {c : Cpu}
    (hothers : ∀ q, q ≠ p → CpuOk calls k q (s.cpu q)) (hp : CpuOk calls k p c) :
    ∀ q, CpuOk calls k q (Function.update s.cpu p c q) := by
  intro q
  by_cases hq : q = p
  · rw [hq, Function.update_self]
    exact hp
  · rw [Function.update_of_ne hq]
    exact hothers q hq

theorem exists_past_update {c : Cpu} (h : ∃ q, (Function.update s.cpu p c q).pc.past
    (Function.update s.cpu p c q) = true) :
    c.pc.past c = true ∨ ∃ q, (s.cpu q).pc.past (s.cpu q) = true := by
  obtain ⟨q, hq⟩ := h
  by_cases hqp : q = p
  · rw [hqp, Function.update_self] at hq
    exact .inl hq
  · rw [Function.update_of_ne hqp] at hq
    exact .inr ⟨q, hq⟩

/-- **An auxiliary makes a step.** -/
theorem CallOk.aux {k : QuiesceCall N} {c : Cpu} {call : Option (QuiesceCall N)} {u v n : Int}
    (h : s.CallOk k) (hp : p ≠ k.me)
    (hc : AuxOk k.frame s.calls p c k.pc)
    (h₁ : k.pc.starting = true → u =
      s.spinCount1 + (c.awaited k.frame).toNat - ((s.cpu p).awaited k.frame).toNat)
    (h₂ : k.pc.live = true → v =
      s.spinCount2 + (c.unacked k.frame).toNat - ((s.cpu p).unacked k.frame).toNat)
    (h₃ : k.pc.live = true → n =
      k.processorCount + (c.uncounted k.frame).toNat - ((s.cpu p).uncounted k.frame).toNat)
    (h₀ : k.pc.phaseOne = true →
      (k.processorCount = 0 → n = 0) ∧ (c.pc.past c = true → n = 0)) :
    CallOk { s.setCpu p c with call := call, spinCount1 := u, spinCount2 := v }
      { k with processorCount := n } where
  fresh := h.fresh
  cpus := by
    apply cpus_update (fun q _ => h.cpus q)
    unfold CpuOk
    rw [if_neg hp]
    exact hc
  phase := h.phase
  nodup := h.nodup
  spin1 := by
    intro hst
    have heq := h.spin1 hst
    have htally := tally_update (Cpu.awaited k.frame) s.cpu p c
    have hn := h₁ hst
    change u = (tally (Cpu.awaited k.frame) (Function.update s.cpu p c) + unlaunched k : Nat)
    omega
  spin2 := by
    intro hl
    have heq := h.spin2 hl
    have htally := tally_update (Cpu.unacked k.frame) s.cpu p c
    have hn := h₂ hl
    change v = (tally (Cpu.unacked k.frame) (Function.update s.cpu p c) + unlaunched k : Nat)
    omega
  count := by
    intro hl
    have heq := h.count hl
    have htally := tally_update (Cpu.uncounted k.frame) s.cpu p c
    have hn := h₃ hl
    change n = (tally (Cpu.uncounted k.frame) (Function.update s.cpu p c) : Nat)
    omega
  zero := by
    intro hph hpast
    obtain ⟨hzero, hself⟩ := h₀ hph
    rcases hpast with hpc | hex
    · change k.pc.past (Function.update s.cpu p c k.me) = true at hpc
      rw [Function.update_of_ne (Ne.symm hp)] at hpc
      exact hzero (h.zero hph (.inl hpc))
    · rcases exists_past_update hex with hc | hex
      · exact hself hc
      · exact hzero (h.zero hph (.inr hex))

/-- An auxiliary makes a step that nobody waits for. -/
theorem CallOk.aux_same {k : QuiesceCall N} {c : Cpu} (h : s.CallOk k) (hp : p ≠ k.me)
    (hc : AuxOk k.frame s.calls p c k.pc)
    (h₁ : k.pc.starting = true → c.awaited k.frame = (s.cpu p).awaited k.frame)
    (h₂ : k.pc.live = true → c.unacked k.frame = (s.cpu p).unacked k.frame)
    (h₃ : k.pc.live = true → c.uncounted k.frame = (s.cpu p).uncounted k.frame)
    (h₀ : k.pc.phaseOne = true → c.pc.past c = true → k.processorCount = 0) :
    (s.setCpu p c).CallOk k := by
  refine h.aux hp hc ?_ ?_ ?_ ?_
  · intro hst
    rw [h₁ hst]
    exact (Int.add_sub_cancel ..).symm
  · intro hl
    rw [h₂ hl]
    exact (Int.add_sub_cancel ..).symm
  · intro hl
    rw [h₃ hl]
    exact (Int.add_sub_cancel ..).symm
  · exact fun hph => ⟨id, h₀ hph⟩

/-- A free processor stays free. -/
theorem CallOk.free {k : QuiesceCall N} {c : Cpu} (h : s.CallOk k) (hp : p ≠ k.me)
    (hph : k.pc.phaseOne = false) (hfree : (s.cpu p).pc.free = true)
    (hdpc : c.dpc = (s.cpu p).dpc)
    (hstays : ∀ f, (s.cpu p).pc.Free f (s.cpu p) → c.pc.Free f c) : (s.setCpu p c).CallOk k := by
  have hcpu := h.cpus p
  rw [CpuOk, if_neg hp] at hcpu
  obtain ⟨hlive, hkeep⟩ := auxOk_free hcpu hph hfree
  have hsame : k.pc.live = true → c.awaited k.frame = (s.cpu p).awaited k.frame ∧
      c.unacked k.frame = (s.cpu p).unacked k.frame ∧
      c.uncounted k.frame = (s.cpu p).uncounted k.frame := by
    intro hl
    obtain ⟨hun, hack, hst⟩ := free_counts (hlive hl)
    obtain ⟨hun', hack', hst'⟩ := free_counts (hstays _ (hlive hl))
    unfold Cpu.awaited Cpu.unacked
    simp only [hdpc, hack, hack', hst, hst', hun, hun', and_self]
  refine h.aux_same hp (hkeep c hdpc hstays) ?_ ?_ ?_ ?_
  · exact fun hst => (hsame (CallPc.live_of_starting hst)).1
  · exact fun hl => (hsame hl).2.1
  · exact fun hl => (hsame hl).2.2
  · intro hph'
    rw [hph] at hph'
    exact nomatch hph'

theorem CallOk.auxOk {k : QuiesceCall N} (h : s.CallOk k) (hpc : (s.cpu p).pc ≠ .calling) :
    p ≠ k.me ∧ AuxOk k.frame s.calls p (s.cpu p) k.pc := by
  have hcpu := h.cpus p
  unfold CpuOk at hcpu
  split at hcpu
  · exact absurd hcpu.1 hpc
  · next hne => exact ⟨hne, hcpu⟩

theorem CallOk.mine {k : QuiesceCall N} (h : s.CallOk k) :
    (s.cpu k.me).pc = .calling ∧ (s.cpu k.me).dpc = none ∧ MineOk k.frame (s.cpu k.me) k.pc := by
  have hcpu := h.cpus k.me
  rw [CpuOk, if_pos rfl] at hcpu
  exact hcpu

theorem CallOk.phase_iff {k : QuiesceCall N} (h : s.CallOk k) :
    s.quiescePhase = 0 ↔ k.pc.phaseOne = false := by
  rw [h.phase]
  cases k.pc.phaseOne with
  | false => exact ⟨fun _ => rfl, fun _ => rfl⟩
  | true => exact ⟨nofun, nofun⟩

/-- At zero, every processor is counted. -/
theorem CallOk.countedHigh_of_zero {k : QuiesceCall N} (h : s.CallOk k) (hl : k.pc.live = true)
    (hz : k.processorCount = 0) : (s.cpu p).countedHigh k.frame = true := by
  have htally : tally (Cpu.uncounted k.frame) s.cpu = 0 := by
    have hcount := h.count hl
    omega
  have hnot := tally_eq_zero.mp htally p
  exact (Bool.not_eq_false' _).mp hnot

/-- There is a call, and what a processor does is part of it. -/
theorem Inv.exists_call (h : s.Inv) (hfree : (s.cpu p).pc.free = false) :
    ∃ k, s.call = some k ∧ s.CallOk k := by
  unfold Inv at h
  split at h
  · have hf := (h.2 p).2
    revert hf hfree
    cases (s.cpu p).pc with
    | idle | acquiring | awaitingRelease | releasing => exact fun hf => nomatch hf
    | calling | starting | awaitingPhase | gathering | acknowledging => exact fun _ => False.elim
  · next k hcall => exact ⟨k, hcall, h⟩

/-- Outside the DPC, the system is in phase 0. -/
theorem Inv.phase_zero (h : s.Inv) (hfree : (s.cpu p).pc.free = true)
    (hpc : (s.cpu p).pc ≠ .awaitingRelease) : s.quiescePhase = 0 := by
  unfold Inv at h
  split at h
  · exact h.1
  · next k hcall =>
    obtain ⟨-, haux⟩ := h.auxOk (p := p) (by intro hc; rw [hc] at hfree; exact nomatch hfree)
    rw [h.phase_iff]
    by_contra hph
    obtain ⟨-, -, -, hin, -⟩ := auxOk_inside haux hpc (Bool.eq_true_of_not_eq_false hph)
    revert hin hfree hpc
    cases (s.cpu p).pc with
    | idle | acquiring | releasing => exact fun _ _ => False.elim
    | awaitingRelease => exact fun _ hne => absurd rfl hne
    | calling | starting | awaitingPhase | gathering | acknowledging => exact fun hf => nomatch hf

/-- A free processor stays free. -/
theorem Inv.free {c : Cpu} (h : s.Inv) (hphase : s.quiescePhase = 0)
    (hfree : (s.cpu p).pc.free = true) (hdpc : c.dpc = (s.cpu p).dpc)
    (hstays : ∀ f, (s.cpu p).pc.Free f (s.cpu p) → c.pc.Free f c) : (s.setCpu p c).Inv := by
  cases hcall : s.call with
  | none =>
    rw [Inv, hcall] at h
    rw [Inv, show (s.setCpu p c).call = none from hcall]
    refine ⟨hphase, fun q => ?_⟩
    change (Function.update s.cpu p c q).Outside s.calls
    by_cases hq : q = p
    · rw [hq, Function.update_self]
      exact (h.2 p).stays hdpc hstays
    · rw [Function.update_of_ne hq]
      exact h.2 q
  | some k =>
    rw [Inv, hcall] at h
    have hne : (s.cpu p).pc ≠ .calling := by
      intro hc
      rw [hc] at hfree
      exact nomatch hfree
    exact inv_of_call hcall
      (h.free (h.auxOk hne).1 (h.phase_iff.mp hphase) hfree hdpc hstays)

/-- The DPC is taken. -/
theorem inv_startDpc {context : Nat} (h : s.Inv) (hpc : (s.cpu p).pc = .idle)
    (hdpc : (s.cpu p).dpc = some context) :
    (s.setCpu p { s.cpu p with
      pc := .starting context, irql := dispatchLevel, dpc := none }).Inv := by
  cases hcall : s.call with
  | none =>
    rw [Inv, hcall] at h
    exact nomatch (h.2 p).1.symm.trans hdpc
  | some k =>
    rw [Inv, hcall] at h
    obtain ⟨hne, haux⟩ := h.auxOk (p := p) (by rw [hpc]; exact nofun)
    obtain ⟨rfl, hnone, hst, hkeep⟩ := auxOk_queued haux (by rw [hpc]; rfl) hdpc
    have hcount : (s.cpu p).counted = none := by
      rw [hpc] at hnone
      exact hnone
    refine inv_of_call hcall (h.aux_same hne (hkeep _ ?_) ?_ ?_ ?_ ?_)
    · exact .inr ⟨rfl, hcount, .inl rfl⟩
    · intro _
      rw [awaited_of_dpc hdpc]
      exact awaited_of_starting rfl
    · intro _
      rw [unacked_of_dpc hdpc]
      exact unacked_of_context rfl
    · intro _
      rw [uncounted_of_none hcount]
      exact uncounted_of_none hcount
    · exact fun _ => nofun

/-- The start of the DPC is announced. -/
theorem inv_starting {context : Nat} (h : s.Inv) (hpc : (s.cpu p).pc = .starting context) :
    ∃ t, s.spinProcessorDpc p = some t ∧ t.Inv := by
  obtain ⟨k, hcall, hk⟩ := h.exists_call (p := p) (by rw [hpc]; rfl)
  obtain ⟨hne, haux⟩ := hk.auxOk (p := p) (by rw [hpc]; exact nofun)
  obtain ⟨rfl, hdpc, hnone, hst, hkeep⟩ := auxOk_starting haux hpc
  have haw : (s.cpu p).awaited k.frame = true := awaited_of_starting hpc
  have hpos : s.spinCount1 > 0 := by
    have hspin := hk.spin1 hst
    have htally := tally_pos haw
    omega
  simp only [spinProcessorDpc, hpc, if_pos hpos]
  refine ⟨_, rfl, inv_of_call hcall ?_⟩
  refine hk.aux (c := { s.cpu p with pc := .awaitingPhase k.frame }) (v := s.spinCount2)
    (n := k.processorCount) hne (hkeep _ (.inr ⟨hdpc, hnone, .inr rfl⟩)) ?_ ?_ ?_ ?_
  · intro _
    rw [haw, not_awaited (c := { s.cpu p with pc := .awaitingPhase k.frame }) hdpc nofun]
    change s.spinCount1 - 1 = s.spinCount1 + 0 - 1
    rw [Int.add_zero]
  · intro _
    have hold : (s.cpu p).unacked k.frame = true := unacked_of_context (by rw [hpc]; rfl)
    have hnew : Cpu.unacked k.frame { s.cpu p with pc := .awaitingPhase k.frame } = true :=
      unacked_of_context rfl
    rw [hold, hnew]
    exact (Int.add_sub_cancel ..).symm
  · intro _
    have hnew : Cpu.uncounted k.frame { s.cpu p with pc := .awaitingPhase k.frame } = true :=
      uncounted_of_none hnone
    rw [uncounted_of_none hnone, hnew]
    exact (Int.add_sub_cancel ..).symm
  · exact fun _ => ⟨id, nofun⟩

/-- Phase 1 is seen. -/
theorem inv_awaitingPhase {context : Nat} (h : s.Inv)
    (hpc : (s.cpu p).pc = .awaitingPhase context) :
    ∃ t, s.spinProcessorDpc p = some t ∧ t.Inv := by
  obtain ⟨k, hcall, hk⟩ := h.exists_call (p := p) (by rw [hpc]; rfl)
  obtain ⟨hne, haux⟩ := hk.auxOk (p := p) (by rw [hpc]; exact nofun)
  simp only [spinProcessorDpc, hpc]
  refine ⟨_, rfl, ?_⟩
  by_cases hphase : s.quiescePhase = 0
  · rw [if_pos hphase]
    exact h
  rw [if_neg hphase]
  have hph : k.pc.phaseOne = true := by
    by_contra hno
    exact hphase (hk.phase_iff.mpr (Bool.eq_false_iff.mpr hno))
  obtain ⟨-, -, hdpc, hin, hkeep⟩ := auxOk_inside haux (by rw [hpc]; exact nofun) hph
  rw [hpc] at hin
  obtain ⟨rfl, hnone⟩ := hin
  refine inv_of_call hcall (hk.aux_same hne (hkeep _ hdpc ⟨rfl, hnone⟩) ?_ ?_ ?_ ?_)
  · intro _
    rw [not_awaited hdpc (by rw [hpc]; exact nofun)]
    exact not_awaited hdpc nofun
  · intro _
    have hold : (s.cpu p).unacked k.frame = true := unacked_of_context (by rw [hpc]; rfl)
    rw [hold]
    exact unacked_of_context rfl
  · intro _
    rw [uncounted_of_none hnone]
    exact uncounted_of_none hnone
  · exact fun _ => nofun

/-- A step of the barrier. -/
theorem inv_gathering {context : Nat} {gather : GatherPc} (h : s.Inv)
    (hpc : (s.cpu p).pc = .gathering context gather) :
    ∃ t, s.spinProcessorDpc p = some t ∧ t.Inv := by
  obtain ⟨k, hcall, hk⟩ := h.exists_call (p := p) (by rw [hpc]; rfl)
  obtain ⟨hne, haux⟩ := hk.auxOk (p := p) (by rw [hpc]; exact nofun)
  have hph := auxOk_phaseOne haux (by rw [hpc]; rfl) fun _ => by rw [hpc]; exact ⟨nofun, nofun⟩
  obtain ⟨hl, hst, hdpc, hin, hkeep⟩ := auxOk_inside haux (by rw [hpc]; exact nofun) hph
  rw [hpc] at hin
  obtain ⟨rfl, hgather⟩ := hin
  have hcount : s.countAt k.frame = some k.processorCount := by
    rw [countAt, hcall]
    exact if_pos ⟨rfl, hl⟩
  have hall := hk.countedHigh_of_zero hl (p := p)
  have hseen : gather.seen (s.cpu p) = true → k.processorCount = 0 := fun hs =>
    hk.zero hph (.inr ⟨p, by rw [hpc]; exact hs⟩)
  have hspec := gather_spec hgather hall hseen
  obtain ⟨⟨c, count, next⟩, hr⟩ : ∃ r, gatherInterruptDisabledProcessors (s.cpu p)
    k.processorCount k.frame gather = r := ⟨_, rfl⟩
  rw [hr] at hspec
  obtain ⟨-, hd, hn, hz, hnext⟩ := hspec
  simp only [spinProcessorDpc, hpc, hcount, Option.map_some, hr]
  have hun : (s.cpu p).unacked k.frame = true := unacked_of_context (by rw [hpc]; rfl)
  refine ⟨_, rfl, inv_of_call (k := { k with processorCount := count }) ?_ ?_⟩
  · change Option.map _ s.call = _
    rw [hcall]
    rfl
  cases next with
  | some next =>
    refine hk.aux (c := { c with pc := .gathering k.frame next }) (u := s.spinCount1)
      (v := s.spinCount2) hne (hkeep _ (hd.trans hdpc) ⟨rfl, ?_⟩) ?_ ?_ (fun _ => hn) ?_
    · cases next <;> exact hnext.1
    · exact fun hst' => nomatch hst.symm.trans hst'
    · intro _
      have hnew : Cpu.unacked k.frame { c with pc := .gathering k.frame next } = true :=
        unacked_of_context rfl
      rw [hun, hnew]
      exact (Int.add_sub_cancel ..).symm
    · exact fun _ => ⟨hz, hnext.2⟩
  | none =>
    refine hk.aux (c := { c with pc := .acknowledging k.frame }) (u := s.spinCount1)
      (v := s.spinCount2) hne (hkeep _ (hd.trans hdpc) ⟨rfl, hnext.2⟩) ?_ ?_ (fun _ => hn) ?_
    · exact fun hst' => nomatch hst.symm.trans hst'
    · intro _
      have hnew : Cpu.unacked k.frame { c with pc := .acknowledging k.frame } = true :=
        unacked_of_context rfl
      rw [hun, hnew]
      exact (Int.add_sub_cancel ..).symm
    · exact fun _ => ⟨hz, fun _ => hnext.1⟩

/-- Zero is acknowledged. -/
theorem inv_acknowledging {context : Nat} (h : s.Inv)
    (hpc : (s.cpu p).pc = .acknowledging context) :
    ∃ t, s.spinProcessorDpc p = some t ∧ t.Inv := by
  obtain ⟨k, hcall, hk⟩ := h.exists_call (p := p) (by rw [hpc]; rfl)
  obtain ⟨hne, haux⟩ := hk.auxOk (p := p) (by rw [hpc]; exact nofun)
  have hph := auxOk_phaseOne haux (by rw [hpc]; rfl) fun _ => by rw [hpc]; exact ⟨nofun, nofun⟩
  obtain ⟨hl, hst, hdpc, hin, hkeep⟩ := auxOk_inside haux (by rw [hpc]; exact nofun) hph
  rw [hpc] at hin
  obtain ⟨rfl, hhigh⟩ := hin
  have hun : (s.cpu p).unacked k.frame = true := unacked_of_context (by rw [hpc]; rfl)
  have hpos : s.spinCount2 > 0 := by
    have hspin := hk.spin2 hl
    have htally := tally_pos hun
    omega
  simp only [spinProcessorDpc, hpc, if_pos hpos]
  refine ⟨_, rfl, inv_of_call hcall ?_⟩
  refine hk.aux (c := { s.cpu p with pc := .awaitingRelease }) (u := s.spinCount1)
    (n := k.processorCount) hne (hkeep _ hdpc hhigh) ?_ ?_ ?_ ?_
  · intro hst'
    exact nomatch hst.symm.trans hst'
  · intro _
    rw [hun, not_unacked (c := { s.cpu p with pc := .awaitingRelease }) hdpc rfl]
    change s.spinCount2 - 1 = s.spinCount2 + 0 - 1
    rw [Int.add_zero]
  · intro _
    exact (Int.add_sub_cancel ..).symm
  · intro _
    exact ⟨id, fun _ => hk.zero hph (.inr ⟨p, by rw [hpc]; rfl⟩)⟩

/-- The release is seen, or the DPC ends. -/
theorem inv_release (h : s.Inv)
    (hpc : (s.cpu p).pc = .awaitingRelease ∨ (s.cpu p).pc = .releasing) :
    ∃ t, s.spinProcessorDpc p = some t ∧ t.Inv := by
  rcases hpc with hpc | hpc
  · simp only [spinProcessorDpc, hpc]
    refine ⟨_, rfl, ?_⟩
    by_cases hphase : s.quiescePhase = 0
    · rw [if_neg (not_not.mpr hphase)]
      exact h.free hphase (by rw [hpc]; rfl) rfl fun f hf => by
        rw [hpc] at hf
        exact hf
    · rw [if_pos hphase]
      exact h
  · simp only [spinProcessorDpc, hpc]
    have hphase := h.phase_zero (p := p) (by rw [hpc]; rfl) (by rw [hpc]; exact nofun)
    exact ⟨_, rfl, h.free hphase (by rw [hpc]; rfl) rfl fun _ _ => rfl⟩

/-- **No assertion fails in `SpinProcessorDpc`, and it does not use a frame that is gone.** -/
theorem inv_spinProcessorDpc (h : s.Inv) : ∃ t, s.spinProcessorDpc p = some t ∧ t.Inv := by
  cases hpc : (s.cpu p).pc with
  | idle | acquiring | calling => exact ⟨s, by simp only [spinProcessorDpc, hpc], h⟩
  | starting => exact inv_starting h hpc
  | awaitingPhase => exact inv_awaitingPhase h hpc
  | gathering => exact inv_gathering h hpc
  | acknowledging => exact inv_acknowledging h hpc
  | awaitingRelease => exact inv_release h (.inl hpc)
  | releasing => exact inv_release h (.inr hpc)

/-! ## Steps of the initiator -/

theorem length_filter_finRange (p : Fin N) :
    ((List.finRange N).filter fun q => q ≠ p).length + 1 = N := by
  have hperm := List.perm_cons_erase (List.mem_finRange p)
  have hlen := hperm.length_eq
  rw [List.length_finRange, (List.nodup_finRange N).erase_eq_filter] at hlen
  refine Eq.trans ?_ hlen.symm
  rw [List.length_cons]
  congr 2
  apply List.filter_congr
  intro q _
  simp only [ne_eq, decide_not, bne, beq_eq_decide]

/-- The lock is taken. -/
theorem inv_acquired (h : s.Inv) (hcall : s.call = none) (hpc : (s.cpu p).pc = .acquiring) :
    (s.acquired p).Inv := by
  rw [Inv, hcall] at h
  obtain ⟨hphase, hall⟩ := h
  have hdpc := (hall p).1
  have hnone : (s.cpu p).counted = none := by
    have hf := (hall p).2
    rw [hpc] at hf
    exact hf
  have hcpu (q : Fin N) : (s.acquired p).cpu q =
      if q = p then { s.cpu p with pc := .calling } else s.cpu q := by
    exact Function.update_apply ..
  -- Nobody is waited for yet, and nobody is counted.
  have hbits (q : Fin N) : ((s.acquired p).cpu q).awaited s.calls = false ∧
      ((s.acquired p).cpu q).unacked s.calls = false ∧
      ((s.acquired p).cpu q).uncounted s.calls = true := by
    rw [hcpu]
    split
    · exact ⟨not_awaited hdpc nofun, not_unacked hdpc rfl, uncounted_of_none hnone⟩
    · obtain ⟨hd, hf⟩ := hall q
      obtain ⟨hun, hctx, hst⟩ := free_counts hf
      exact ⟨not_awaited hd hst, not_unacked hd hctx, hun⟩
  have hrest := length_filter_finRange p
  refine inv_of_call (k := ⟨s.calls, p, (s.cpu p).oldIrql, N, .launching (List.finRange N)⟩) rfl
    ⟨Nat.lt_succ_self _, ?_, hphase, List.nodup_finRange N, ?_, ?_, ?_, nofun⟩
  · intro q
    rw [hcpu, CpuOk]
    split
    · exact ⟨rfl, hdpc, hnone⟩
    · rw [AuxOk, if_pos (List.mem_finRange q)]
      exact hall q
  · intro _
    rw [tally_eq_zero.mpr fun q => (hbits q).1]
    change (N : Int) - 1 = (0 + ((List.finRange N).filter fun q => q ≠ p).length : Nat)
    omega
  · intro _
    rw [tally_eq_zero.mpr fun q => (hbits q).2.1]
    change (N : Int) - 1 = (0 + ((List.finRange N).filter fun q => q ≠ p).length : Nat)
    omega
  · intro _
    rw [tally_eq_card fun q => (hbits q).2.2, Fintype.card_fin]

/-- A processor is passed over, or its DPC is queued. -/
theorem inv_launch {k : QuiesceCall N} {number : Fin N} {rest : List (Fin N)} (h : s.CallOk k)
    (hpc : k.pc = .launching (number :: rest)) : ∃ t, s.callStep k = some t ∧ t.Inv := by
  have hnd := h.nodup
  rw [hpc] at hnd
  obtain ⟨hnotin, hnd'⟩ := List.nodup_cons.mp hnd
  have hph : k.pc.phaseOne = false := by rw [hpc]; rfl
  have hl : k.pc.live = true := by rw [hpc]; rfl
  have hst : k.pc.starting = true := by rw [hpc]; rfl
  have hphase := h.phase
  rw [hph] at hphase
  have hothers (q : Fin N) (hq : q ≠ number) :
      CpuOk s.calls { k with pc := .launching rest } q (s.cpu q) := by
    have hcpu := h.cpus q
    unfold CpuOk at hcpu ⊢
    split at hcpu
    · next heq =>
      rw [if_pos heq]
      rw [hpc] at hcpu
      exact hcpu
    · next hne =>
      rw [if_neg hne]
      rw [hpc, AuxOk] at hcpu
      rw [AuxOk]
      split at hcpu
      · next hmem =>
        rw [if_pos ((List.mem_cons.mp hmem).resolve_left hq)]
        exact hcpu
      · next hmem =>
        rw [if_neg fun hr => hmem (List.mem_cons_of_mem _ hr)]
        exact hcpu
  have hspin1 := h.spin1 hst
  have hspin2 := h.spin2 hl
  have hcount := h.count hl
  by_cases hme : number = k.me
  · -- No DPC for the initiator.
    have hun : unlaunched k = unlaunched { k with pc := .launching rest } := by
      unfold unlaunched
      rw [hpc]
      exact congrArg List.length (List.filter_cons_of_neg (by simp [hme]))
    refine ⟨{ s with call := some { k with pc := .launching rest } },
      by simp only [callStep, hpc, if_pos hme], inv_of_call rfl
      ⟨h.fresh, ?_, hphase, hnd', fun _ => hun ▸ hspin1, fun _ => hun ▸ hspin2, fun _ => hcount,
        nofun⟩⟩
    intro q
    by_cases hq : q = number
    · have hcpu := h.cpus q
      rw [CpuOk, if_pos (hq.trans hme), hpc] at hcpu
      change CpuOk s.calls _ q (s.cpu q)
      rw [CpuOk, if_pos (hq.trans hme)]
      exact hcpu
    · exact hothers q hq
  · have hcpu := h.cpus number
    rw [CpuOk, if_neg hme, hpc, AuxOk, if_pos List.mem_cons_self] at hcpu
    obtain ⟨hdpc, hfree⟩ := hcpu
    obtain ⟨hunc, hctx, hstart⟩ := free_counts hfree
    have hun : unlaunched k = unlaunched { k with pc := .launching rest } + 1 := by
      unfold unlaunched
      rw [hpc]
      exact congrArg List.length (List.filter_cons_of_pos (by simp [hme]))
    let c : Cpu := { s.cpu number with dpc := some k.frame }
    have haw : (s.cpu number).awaited k.frame = false := not_awaited hdpc hstart
    have haw' : c.awaited k.frame = true := awaited_of_dpc rfl
    have hack : (s.cpu number).unacked k.frame = false := not_unacked hdpc hctx
    have hack' : c.unacked k.frame = true := unacked_of_dpc rfl
    have hunc' : c.uncounted k.frame = true := hunc
    have htally1 := tally_update (Cpu.awaited k.frame) s.cpu number c
    have htally2 := tally_update (Cpu.unacked k.frame) s.cpu number c
    have htally3 := tally_update (Cpu.uncounted k.frame) s.cpu number c
    rw [haw, haw'] at htally1
    rw [hack, hack'] at htally2
    rw [hunc, hunc'] at htally3
    simp only [Bool.toNat_false, Bool.toNat_true] at htally1 htally2 htally3
    refine ⟨{ s.setCpu number c with call := some { k with pc := .launching rest } },
      by simp only [callStep, hpc, if_neg hme, hdpc]; rfl, inv_of_call rfl
      ⟨h.fresh, ?_, hphase, hnd', ?_, ?_, ?_, nofun⟩⟩
    · apply cpus_update hothers
      rw [CpuOk, if_neg hme, AuxOk, if_neg hnotin]
      refine .inl ⟨rfl, ?_⟩
      revert hfree
      change CpuPc.Free _ _ (s.cpu number).pc → CpuPc.Free _ _ (s.cpu number).pc
      cases (s.cpu number).pc <;> exact id
    · intro _
      change s.spinCount1 = (tally (Cpu.awaited k.frame) (Function.update s.cpu number c) +
        unlaunched _ : Nat)
      omega
    · intro _
      change s.spinCount2 = (tally (Cpu.unacked k.frame) (Function.update s.cpu number c) +
        unlaunched _ : Nat)
      omega
    · intro _
      change k.processorCount = (tally (Cpu.uncounted k.frame)
        (Function.update s.cpu number c) : Nat)
      omega

/-- Every DPC has been queued. -/
theorem inv_launched {k : QuiesceCall N} (h : s.CallOk k) (hpc : k.pc = .launching []) :
    ∃ t, s.callStep k = some t ∧ t.Inv := by
  have hun : unlaunched k = unlaunched { k with pc := .awaitingStart } := by
    unfold unlaunched
    rw [hpc]
    rfl
  have hspin1 := h.spin1 (by rw [hpc]; rfl)
  have hspin2 := h.spin2 (by rw [hpc]; rfl)
  have hcount := h.count (by rw [hpc]; rfl)
  have hphase := h.phase
  rw [hpc] at hphase
  refine ⟨{ s with call := some { k with pc := .awaitingStart } }, by simp only [callStep, hpc],
    inv_of_call rfl ⟨h.fresh, ?_, hphase, List.nodup_nil, fun _ => hun ▸ hspin1,
      fun _ => hun ▸ hspin2, fun _ => hcount, nofun⟩⟩
  intro q
  have hcpu := h.cpus q
  change CpuOk s.calls _ q (s.cpu q)
  unfold CpuOk at hcpu ⊢
  rw [hpc] at hcpu
  split at hcpu
  · next heq =>
    rw [if_pos heq]
    exact hcpu
  · next hne =>
    rw [if_neg hne]
    rw [AuxOk, if_neg List.not_mem_nil] at hcpu
    exact hcpu

/-- All have started. -/
theorem inv_started {k : QuiesceCall N} (h : s.CallOk k) (hcall : s.call = some k)
    (hpc : k.pc = .awaitingStart) : ∃ t, s.callStep k = some t ∧ t.Inv := by
  by_cases hspin : s.spinCount1 = 0
  · have hspin1 := h.spin1 (by rw [hpc]; rfl)
    have hspin2 := h.spin2 (by rw [hpc]; rfl)
    have hcount := h.count (by rw [hpc]; rfl)
    have hphase := h.phase
    rw [hpc] at hphase
    have hun : unlaunched k = unlaunched { k with pc := .settingPhase } := by
      unfold unlaunched
      rw [hpc]
      rfl
    have hnone : tally (Cpu.awaited k.frame) s.cpu = 0 := by omega
    refine ⟨{ s with call := some { k with pc := .settingPhase } },
      by simp only [callStep, hpc, hspin, ne_eq, not_true_eq_false, if_false], inv_of_call rfl
      ⟨h.fresh, ?_, hphase, List.nodup_nil, nofun, fun _ => hun ▸ hspin2, fun _ => hcount,
        nofun⟩⟩
    intro q
    have hcpu := h.cpus q
    have hnot := tally_eq_zero.mp hnone q
    change CpuOk s.calls _ q (s.cpu q)
    unfold CpuOk at hcpu ⊢
    rw [hpc] at hcpu
    split at hcpu
    · next heq =>
      rw [if_pos heq]
      exact hcpu
    · next hne =>
      rw [if_neg hne]
      -- One that is still awaited would be counted.
      rcases hcpu with ⟨hd, -⟩ | ⟨hd, hn, hst | hst⟩
      · exact nomatch hnot.symm.trans (awaited_of_dpc hd)
      · exact nomatch hnot.symm.trans (awaited_of_starting hst)
      · exact ⟨hd, hn, hst⟩
  · refine ⟨s, by simp only [callStep, hpc, ne_eq, hspin, not_false_eq_true, if_true], ?_⟩
    exact inv_of_call hcall h

/-- Phase 1 begins. -/
theorem inv_settingPhase {k : QuiesceCall N} (h : s.CallOk k) (hpc : k.pc = .settingPhase) :
    ∃ t, s.callStep k = some t ∧ t.Inv := by
  have hspin2 := h.spin2 (by rw [hpc]; rfl)
  have hcount := h.count (by rw [hpc]; rfl)
  have hun : unlaunched k = unlaunched { k with pc := .gathering .raising } := by
    unfold unlaunched
    rw [hpc]
    rfl
  refine ⟨{ s with quiescePhase := 1, call := some { k with pc := .gathering .raising } },
    by simp only [callStep, hpc], inv_of_call rfl ⟨h.fresh, ?_, rfl, List.nodup_nil, nofun,
      fun _ => hun ▸ hspin2, fun _ => hcount, ?_⟩⟩
  · intro q
    have hcpu := h.cpus q
    change CpuOk s.calls _ q (s.cpu q)
    unfold CpuOk at hcpu ⊢
    rw [hpc] at hcpu
    split at hcpu
    · next heq =>
      rw [if_pos heq]
      exact hcpu
    · next hne =>
      rw [if_neg hne]
      obtain ⟨hd, hn, hp⟩ := hcpu
      refine ⟨hd, ?_⟩
      rw [hp]
      exact ⟨rfl, hn⟩
  · rintro _ (hself | ⟨q, hq⟩)
    · exact nomatch hself
    · change (s.cpu q).pc.past (s.cpu q) = true at hq
      have hcpu := h.cpus q
      rw [CpuOk, hpc] at hcpu
      split at hcpu
      · rw [hcpu.1] at hq
        exact nomatch hq
      · rw [hcpu.2.2] at hq
        exact nomatch hq

/-- The initiator makes a step of the barrier. -/
theorem inv_callGathering {k : QuiesceCall N} {gather : GatherPc} (h : s.CallOk k)
    (hpc : k.pc = .gathering gather) : ∃ t, s.callStep k = some t ∧ t.Inv := by
  have hl : k.pc.live = true := by rw [hpc]; rfl
  have hph : k.pc.phaseOne = true := by rw [hpc]; rfl
  obtain ⟨hcalling, hdpc, hmine⟩ := h.mine
  rw [hpc] at hmine
  have hseen : gather.seen (s.cpu k.me) = true → k.processorCount = 0 := fun hs =>
    h.zero hph (.inl (by rw [hpc]; exact hs))
  have hspec := gather_spec hmine (h.countedHigh_of_zero hl) hseen
  obtain ⟨⟨c, count, next⟩, hr⟩ : ∃ r, gatherInterruptDisabledProcessors (s.cpu k.me)
    k.processorCount k.frame gather = r := ⟨_, rfl⟩
  rw [hr] at hspec
  obtain ⟨hcpc, hd, hn, hz, hnext⟩ := hspec
  dsimp only at hn
  have hspin2 := h.spin2 hl
  have hcount := h.count hl
  have hphase := h.phase
  rw [hph] at hphase
  have hun : unlaunched k = 0 := by
    unfold unlaunched
    rw [hpc]
    rfl
  have hback : (s.cpu k.me).unacked k.frame = false := not_unacked hdpc (by rw [hcalling]; rfl)
  have hback' : c.unacked k.frame = false :=
    not_unacked (hd.trans hdpc) (by rw [hcpc, hcalling]; rfl)
  have htally2 := tally_update (Cpu.unacked k.frame) s.cpu k.me c
  have htally3 := tally_update (Cpu.uncounted k.frame) s.cpu k.me c
  rw [hback, hback'] at htally2
  have hspin : s.spinCount2 =
      (tally (Cpu.unacked k.frame) (Function.update s.cpu k.me c) + 0 : Nat) := by omega
  have hcounts : count = (tally (Cpu.uncounted k.frame) (Function.update s.cpu k.me c) : Nat) := by
    omega
  have hpast : (∃ q, (Function.update s.cpu k.me c q).pc.past
      (Function.update s.cpu k.me c q) = true) → count = 0 := by
    intro hex
    rcases exists_past_update hex with hc | hex
    · rw [hcpc, hcalling] at hc
      exact nomatch hc
    · exact hz (h.zero hph (.inr hex))
  have hothers (pc : CallPc N) (hkeep : ∀ q c, AuxOk k.frame s.calls q c k.pc →
      AuxOk k.frame s.calls q c pc) (hme : MineOk k.frame c pc) (q : Fin N) :
      CpuOk s.calls { k with pc := pc, processorCount := count } q
        (Function.update s.cpu k.me c q) := by
    by_cases hq : q = k.me
    · rw [hq, Function.update_self, CpuOk, if_pos rfl]
      exact ⟨hcpc.trans hcalling, hd.trans hdpc, hme⟩
    · have hcpu := h.cpus q
      rw [CpuOk, if_neg hq] at hcpu
      rw [Function.update_of_ne hq, CpuOk, if_neg hq]
      exact hkeep q _ hcpu
  cases next with
  | some next =>
    refine ⟨{ s.setCpu k.me c with
      call := some { k with pc := .gathering next, processorCount := count } },
      by simp only [callStep, hpc, hr], inv_of_call rfl ⟨h.fresh, ?_, hphase, List.nodup_nil, nofun,
        fun _ => hspin, fun _ => hcounts, ?_⟩⟩
    · exact hothers _ (fun _ _ haux => by rw [hpc] at haux; exact haux) hnext.1
    · rintro - (hself | hex)
      · change next.seen (Function.update s.cpu k.me c k.me) = true at hself
        rw [Function.update_self] at hself
        exact hnext.2 hself
      · exact hpast hex
  | none =>
    refine ⟨{ s.setCpu k.me c with
      call := some { k with pc := .awaitingAcks, processorCount := count } },
      by simp only [callStep, hpc, hr], inv_of_call rfl ⟨h.fresh, ?_, hphase, List.nodup_nil, nofun,
        fun _ => hspin, fun _ => hcounts, fun _ _ => hnext.1⟩⟩
    exact hothers _ (fun _ _ haux => by rw [hpc] at haux; exact haux) hnext.2

/-- All have acknowledged. -/
theorem inv_acked {k : QuiesceCall N} (h : s.CallOk k) (hcall : s.call = some k)
    (hpc : k.pc = .awaitingAcks) : ∃ t, s.callStep k = some t ∧ t.Inv := by
  by_cases hspin : s.spinCount2 = 0
  · have hspin2 := h.spin2 (by rw [hpc]; rfl)
    have hphase := h.phase
    rw [hpc] at hphase
    have hnone : tally (Cpu.unacked k.frame) s.cpu = 0 := by omega
    refine ⟨{ s with call := some { k with pc := .returned } },
      by simp only [callStep, hpc, hspin, ne_eq, not_true_eq_false, if_false], inv_of_call rfl
      ⟨h.fresh, ?_, hphase, List.nodup_nil, nofun, nofun, nofun,
        fun _ _ => h.zero (by rw [hpc]; rfl) (.inl (by rw [hpc]; rfl))⟩⟩
    intro q
    have hcpu := h.cpus q
    have hnot := tally_eq_zero.mp hnone q
    change CpuOk s.calls _ q (s.cpu q)
    unfold CpuOk at hcpu ⊢
    rw [hpc] at hcpu
    split at hcpu
    · next heq =>
      rw [if_pos heq]
      exact hcpu
    · next hne =>
      rw [if_neg hne]
      -- One that still has its context would be counted.
      obtain ⟨hd, hin⟩ := hcpu
      have hctx (hc : (s.cpu q).pc.context = some k.frame) : False :=
        nomatch hnot.symm.trans (unacked_of_context hc)
      cases hq : (s.cpu q).pc with
      | awaitingRelease =>
        rw [hq] at hin
        exact ⟨hd, hq, hin⟩
      | awaitingPhase | gathering | acknowledging =>
        rw [hq] at hin hctx
        exact (hctx (congrArg some hin.1)).elim
      | idle | acquiring | calling | starting | releasing =>
        rw [hq] at hin
        exact hin.elim
  · refine ⟨s, by simp only [callStep, hpc, ne_eq, hspin, not_false_eq_true, if_true], ?_⟩
    exact inv_of_call hcall h

/-- `UnquiesceSystem` goes back to phase 0. -/
theorem inv_unquiesce {k : QuiesceCall N} (h : s.CallOk k) (hcall : s.call = some k)
    (hpc : k.pc = .returned) : ({ s with
      quiescePhase := 0
      call := s.call.map fun k => { k with pc := .lowering } } : QuiesceSys N).Inv := by
  refine inv_of_call (k := { k with pc := .lowering }) ?_
    ⟨h.fresh, ?_, rfl, List.nodup_nil, nofun, nofun, nofun, nofun⟩
  · change s.call.map _ = _
    rw [hcall]
    rfl
  · intro q
    have hcpu := h.cpus q
    change CpuOk s.calls _ q (s.cpu q)
    unfold CpuOk at hcpu ⊢
    rw [hpc] at hcpu
    split at hcpu
    · next heq =>
      rw [if_pos heq]
      exact hcpu
    · next hne =>
      rw [if_neg hne]
      obtain ⟨hd, hp, hhigh⟩ := hcpu
      refine ⟨hd, ?_⟩
      rw [hp]
      -- The frame is older than the next one.
      intro hc
      have hframe := Option.some.inj ((countedHigh_iff.mp hhigh).2.symm.trans hc)
      exact absurd hframe (Nat.ne_of_lt h.fresh)

/-- The level is lowered, and the lock is released. -/
theorem inv_unlock {k : QuiesceCall N} (h : s.CallOk k)
    (hpc : k.pc = .lowering ∨ k.pc = .unlocking) : ∃ t, s.callStep k = some t ∧ t.Inv := by
  obtain ⟨hcalling, hdpc, hmine⟩ := h.mine
  have hothers (q : Fin N) (hq : q ≠ k.me) : (s.cpu q).Outside s.calls := by
    have hcpu := h.cpus q
    rw [CpuOk, if_neg hq] at hcpu
    rcases hpc with hpc | hpc
    · rw [hpc] at hcpu
      exact hcpu
    · rw [hpc] at hcpu
      exact hcpu
  rcases hpc with hpc | hpc
  · have hphase := h.phase
    rw [hpc] at hphase
    refine ⟨{ s.setCpu k.me { s.cpu k.me with irql := dispatchLevel, counted := none } with
      call := some { k with pc := .unlocking } }, by simp only [callStep, hpc], inv_of_call rfl
      ⟨h.fresh, ?_, hphase, List.nodup_nil, nofun, nofun, nofun, nofun⟩⟩
    apply cpus_update
    · intro q hq
      rw [CpuOk, if_neg hq]
      exact hothers q hq
    · rw [CpuOk, if_pos rfl]
      exact ⟨hcalling, hdpc, rfl⟩
  · have hphase := h.phase
    rw [hpc] at hphase hmine
    refine ⟨{ s.setCpu k.me { s.cpu k.me with pc := .idle, irql := k.oldIrql } with call := none },
      by simp only [callStep, hpc], ?_⟩
    refine ⟨hphase, fun q => ?_⟩
    change (Function.update s.cpu k.me _ q).Outside s.calls
    by_cases hq : q = k.me
    · rw [hq, Function.update_self]
      exact ⟨hdpc, hmine⟩
    · rw [Function.update_of_ne hq]
      exact hothers q hq

/-- **No assertion fails on the initiator.** -/
theorem inv_callStep {k : QuiesceCall N} (h : s.CallOk k) (hcall : s.call = some k) :
    ∃ t, s.callStep k = some t ∧ t.Inv := by
  cases hpc : k.pc with
  | launching rest =>
    cases rest with
    | nil => exact inv_launched h hpc
    | cons => exact inv_launch h hpc
  | awaitingStart => exact inv_started h hcall hpc
  | settingPhase => exact inv_settingPhase h hpc
  | gathering => exact inv_callGathering h hpc
  | awaitingAcks => exact inv_acked h hcall hpc
  | returned => exact ⟨s, by simp only [callStep, hpc], inv_of_call hcall h⟩
  | lowering => exact inv_unlock h (.inl hpc)
  | unlocking => exact inv_unlock h (.inr hpc)

/-! ## Runs -/

/-- **Every step that can happen is survived, and keeps the invariant.** -/
theorem inv_step (h : s.Inv) (hen : s.Enabled a) : ∃ t, s.step a = some t ∧ t.Inv := by
  cases a with
  | setIrql p irql =>
    have hpc : (s.cpu p).pc = .idle := hen
    have hphase := h.phase_zero (p := p) (by rw [hpc]; rfl) (by rw [hpc]; exact nofun)
    refine ⟨_, rfl, h.free hphase (by rw [hpc]; rfl) rfl fun f hf => ?_⟩
    rw [hpc] at hf
    change CpuPc.Free f _ (s.cpu p).pc
    rw [hpc]
    exact hf
  | quiesceSystem p =>
    have hpc : (s.cpu p).pc = .idle := hen.1
    have hphase := h.phase_zero (p := p) (by rw [hpc]; rfl) (by rw [hpc]; exact nofun)
    refine ⟨_, if_pos hphase, h.free hphase (by rw [hpc]; rfl) rfl fun f hf => ?_⟩
    rw [hpc] at hf
    exact hf
  | startDpc p =>
    obtain ⟨hpc, -, hdpc⟩ := hen
    obtain ⟨context, hcontext⟩ := Option.ne_none_iff_exists'.mp hdpc
    refine ⟨_, ?_, inv_startDpc h hpc hcontext⟩
    change (s.cpu p).dpc.map _ = _
    rw [hcontext]
    rfl
  | unquiesceSystem =>
    obtain ⟨k, hcall, hpc⟩ := hen
    rw [Inv, hcall] at h
    exact ⟨_, rfl, inv_unquiesce h hcall hpc⟩
  | cpu p =>
    change ∃ t, s.cpuStep p = some t ∧ t.Inv
    unfold cpuStep
    split
    · next hpc hcall => exact ⟨_, rfl, inv_acquired h hcall hpc⟩
    · next k hpc hcall =>
      rw [Inv, hcall] at h
      exact inv_callStep h hcall
    · exact inv_spinProcessorDpc h

theorem inv_start (h : Start s) : s.Inv := by
  obtain ⟨hcall, hphase, hcpus⟩ := h
  unfold Inv
  rw [hcall]
  refine ⟨hphase, fun p => ⟨(hcpus p).2.1, ?_⟩⟩
  rw [(hcpus p).1]
  exact (hcpus p).2.2

theorem Reached.inv (h : Reached s) : s.Inv := by
  apply Reachable.invariant h (fun _ => inv_start)
  intro s a s' hinv _ hs
  obtain ⟨t, ht, hinv'⟩ := inv_step hinv hs.1
  exact Option.some.inj (ht.symm.trans hs.2) ▸ hinv'

/-! ## Zero is final -/

/-- What a step of `SpinProcessorDpc` does to the call. -/
theorem spin_call (hs : s.spinProcessorDpc p = some s') :
    s'.call = s.call ∨ ∃ context gather count, (s.cpu p).pc = .gathering context gather ∧
      s.countAt context = some count ∧ s'.call = s.call.map fun k => { k with processorCount :=
        (gatherInterruptDisabledProcessors (s.cpu p) count context gather).2.1 } := by
  cases hpc : (s.cpu p).pc with
  | starting | acknowledging =>
    simp only [spinProcessorDpc, hpc] at hs
    split at hs
    · obtain rfl := Option.some.inj hs
      exact .inl rfl
    · exact nomatch hs
  | awaitingPhase | awaitingRelease =>
    simp only [spinProcessorDpc, hpc] at hs
    obtain rfl := Option.some.inj hs
    left
    split <;> rfl
  | releasing | idle | acquiring | calling =>
    simp only [spinProcessorDpc, hpc] at hs
    obtain rfl := Option.some.inj hs
    exact .inl rfl
  | gathering context gather =>
    simp only [spinProcessorDpc, hpc] at hs
    obtain ⟨count, hcount, rfl⟩ := Option.map_eq_some_iff.mp hs
    exact .inr ⟨context, gather, count, rfl, hcount, rfl⟩

/-- What a step of the initiator does to the call. -/
theorem callStep_call {k : QuiesceCall N} (hcall : s.call = some k) (hs : s.callStep k = some s') :
    s'.call = none ∧ k.pc = .unlocking ∨ ∃ k', s'.call = some k' ∧
      (k.pc.phaseOne = true → k'.pc.phaseOne = true) ∧
      (k'.processorCount = k.processorCount ∨ ∃ gather, k.pc = .gathering gather ∧
        k'.processorCount = (gatherInterruptDisabledProcessors (s.cpu k.me) k.processorCount
          k.frame gather).2.1) := by
  cases hpc : k.pc with
  | launching rest =>
    cases rest with
    | nil =>
      simp only [callStep, hpc] at hs
      obtain rfl := Option.some.inj hs
      exact .inr ⟨_, rfl, nofun, .inl rfl⟩
    | cons number rest =>
      simp only [callStep, hpc] at hs
      split at hs
      · obtain rfl := Option.some.inj hs
        exact .inr ⟨_, rfl, nofun, .inl rfl⟩
      · split at hs
        · exact nomatch hs
        · obtain rfl := Option.some.inj hs
          exact .inr ⟨_, rfl, nofun, .inl rfl⟩
  | awaitingStart =>
    simp only [callStep, hpc] at hs
    obtain rfl := Option.some.inj hs
    split
    · exact .inr ⟨k, hcall, nofun, .inl rfl⟩
    · exact .inr ⟨_, rfl, nofun, .inl rfl⟩
  | settingPhase =>
    simp only [callStep, hpc] at hs
    obtain rfl := Option.some.inj hs
    exact .inr ⟨_, rfl, nofun, .inl rfl⟩
  | gathering gather =>
    simp only [callStep, hpc] at hs
    obtain rfl := Option.some.inj hs
    refine .inr ⟨_, rfl, fun _ => ?_, .inr ⟨gather, rfl, rfl⟩⟩
    dsimp only
    split <;> rfl
  | awaitingAcks =>
    simp only [callStep, hpc] at hs
    obtain rfl := Option.some.inj hs
    split
    · exact .inr ⟨k, hcall, fun _ => by rw [hpc]; rfl, .inl rfl⟩
    · exact .inr ⟨_, rfl, fun _ => rfl, .inl rfl⟩
  | returned =>
    simp only [callStep, hpc] at hs
    obtain rfl := Option.some.inj hs
    exact .inr ⟨k, hcall, fun _ => by rw [hpc]; rfl, .inl rfl⟩
  | lowering =>
    simp only [callStep, hpc] at hs
    obtain rfl := Option.some.inj hs
    exact .inr ⟨_, rfl, nofun, .inl rfl⟩
  | unlocking =>
    simp only [callStep, hpc] at hs
    obtain rfl := Option.some.inj hs
    exact .inl ⟨rfl, rfl⟩

/-- **The count is never raised from zero**, and phase 1 lasts until `UnquiesceSystem`. -/
theorem step_call {k : QuiesceCall N} (h : s.Inv) (hcall : s.call = some k)
    (hen : s.Enabled a) (hs : s.step a = some s') :
    (∀ k', s'.call = some k' → k.processorCount = 0 → k'.processorCount = 0) ∧
      (a ≠ .unquiesceSystem → k.pc.phaseOne = true →
        ∃ k', s'.call = some k' ∧ k'.pc.phaseOne = true) := by
  have hk := h
  rw [Inv, hcall] at hk
  -- A step that leaves the call alone.
  have hsame (heq : s'.call = s.call) :
      (∀ k', s'.call = some k' → k.processorCount = 0 → k'.processorCount = 0) ∧
        (a ≠ .unquiesceSystem → k.pc.phaseOne = true →
          ∃ k', s'.call = some k' ∧ k'.pc.phaseOne = true) := by
    rw [heq, hcall]
    refine ⟨?_, fun _ hph => ⟨k, rfl, hph⟩⟩
    intro k' hk'
    obtain rfl := Option.some.inj hk'
    exact id
  cases a with
  | setIrql p irql =>
    obtain rfl := Option.some.inj hs
    exact hsame rfl
  | quiesceSystem p =>
    change (if s.quiescePhase = 0 then _ else none) = some s' at hs
    split at hs
    · obtain rfl := Option.some.inj hs
      exact hsame rfl
    · exact nomatch hs
  | startDpc p =>
    obtain ⟨context, -, rfl⟩ := Option.map_eq_some_iff.mp hs
    exact hsame rfl
  | unquiesceSystem =>
    obtain rfl := Option.some.inj hs
    refine ⟨?_, fun hne => absurd rfl hne⟩
    intro k' hk' hz
    change s.call.map _ = some k' at hk'
    rw [hcall] at hk'
    obtain rfl := Option.some.inj hk'
    exact hz
  | cpu p =>
    change s.cpuStep p = some s' at hs
    unfold cpuStep at hs
    split at hs
    · next hnone => exact nomatch hcall.symm.trans hnone
    · next k₁ hpc hcall₁ =>
      obtain rfl := Option.some.inj (hcall.symm.trans hcall₁)
      rcases callStep_call hcall hs with ⟨hnone, hun⟩ | ⟨k', hk', hph, hcount⟩
      · rw [hnone, hun]
        exact ⟨nofun, fun _ => nofun⟩
      · rw [hk']
        refine ⟨?_, fun _ hone => ⟨k', rfl, hph hone⟩⟩
        intro k'' heq hz
        obtain rfl := Option.some.inj heq
        rcases hcount with hcount | ⟨gather, hg, hcount⟩
        · exact hcount.trans hz
        · have hmine := hk.mine.2.2
          rw [hg] at hmine
          have hl : k.pc.live = true := by rw [hg]; rfl
          rw [hcount]
          exact (gather_spec hmine (hk.countedHigh_of_zero hl) fun _ => hz).2.2.2.1 hz
    · rcases spin_call hs with heq | ⟨context, gather, count, hpc, hcount, heq⟩
      · exact hsame heq
      · rw [heq, hcall]
        refine ⟨?_, fun _ hph => ⟨_, rfl, hph⟩⟩
        intro k' hk' hz
        obtain rfl := Option.some.inj hk'
        rw [countAt, hcall] at hcount
        obtain ⟨⟨rfl, hl⟩, hc⟩ := Option.ite_none_right_eq_some.mp hcount
        obtain rfl := Option.some.inj hc
        obtain ⟨-, haux⟩ := hk.auxOk (p := p) (by rw [hpc]; exact nofun)
        have hph := auxOk_phaseOne haux (by rw [hpc]; rfl)
          fun _ => by rw [hpc]; exact ⟨nofun, nofun⟩
        obtain ⟨-, -, -, hin, -⟩ := auxOk_inside haux (by rw [hpc]; exact nofun) hph
        rw [hpc] at hin
        exact (gather_spec hin.2 (hk.countedHigh_of_zero hl) fun _ => hz).2.2.2.1 hz

/-- A processor has left `GatherInterruptDisabledProcessors`, and the system has not been unquiesced
since. -/
def Left (s : QuiesceSys N) : Prop :=
  (∃ p context, (s.cpu p).pc = .acknowledging context) ∨
    (s.quiescePhase ≠ 0 ∧ ∃ p, (s.cpu p).pc = .awaitingRelease) ∨
    ∃ k, s.call = some k ∧ (k.pc = .awaitingAcks ∨ k.pc = .returned)

/-- The barrier is closed. -/
def Closed (s : QuiesceSys N) : Prop :=
  ∃ k, s.call = some k ∧ k.pc.phaseOne = true ∧ k.processorCount = 0

theorem Inv.closed (h : s.Inv) (hleft : s.Left) : s.Closed := by
  rcases hleft with ⟨p, context, hpc⟩ | ⟨hphase, p, hpc⟩ | ⟨k, hcall, hpc⟩
  · obtain ⟨k, hcall, hk⟩ := h.exists_call (p := p) (by rw [hpc]; rfl)
    obtain ⟨-, haux⟩ := hk.auxOk (p := p) (by rw [hpc]; exact nofun)
    have hph := auxOk_phaseOne haux (by rw [hpc]; rfl) fun _ => by rw [hpc]; exact ⟨nofun, nofun⟩
    exact ⟨k, hcall, hph, hk.zero hph (.inr ⟨p, by rw [hpc]; rfl⟩)⟩
  · cases hcall : s.call with
    | none =>
      rw [Inv, hcall] at h
      exact absurd h.1 hphase
    | some k =>
      rw [Inv, hcall] at h
      have hph : k.pc.phaseOne = true := by
        by_contra hno
        exact hphase (h.phase_iff.mpr (Bool.eq_false_iff.mpr hno))
      exact ⟨k, hcall, hph, h.zero hph (.inr ⟨p, by rw [hpc]; rfl⟩)⟩
  · rw [Inv, hcall] at h
    rcases hpc with hpc | hpc
    · have hph : k.pc.phaseOne = true := by rw [hpc]; rfl
      exact ⟨k, hcall, hph, h.zero hph (.inl (by rw [hpc]; rfl))⟩
    · have hph : k.pc.phaseOne = true := by rw [hpc]; rfl
      exact ⟨k, hcall, hph, h.zero hph (.inl (by rw [hpc]; rfl))⟩

/-- When the barrier is closed every processor is at `HIGH_LEVEL`. -/
theorem Inv.highLevel (h : s.Inv) (hclosed : s.Closed) (p : Fin N) :
    (s.cpu p).irql = highLevel := by
  obtain ⟨k, hcall, hph, hzero⟩ := hclosed
  rw [Inv, hcall] at h
  suffices hc : (s.cpu p).countedHigh k.frame = true from (countedHigh_iff.mp hc).1
  cases hl : k.pc.live with
  | true => exact h.countedHigh_of_zero hl hzero
  | false =>
    have hpc : k.pc = .returned := by
      revert hl hph
      cases k.pc with
      | returned => exact fun _ _ => rfl
      | gathering | awaitingAcks => exact fun _ hl => nomatch hl
      | launching | awaitingStart | settingPhase | lowering | unlocking => exact fun hph => nomatch hph
    have hcpu := h.cpus p
    rw [CpuOk, hpc] at hcpu
    split at hcpu
    · exact hcpu.2.2
    · exact hcpu.2.2

theorem Inv.closed_step (h : s.Inv) (hclosed : s.Closed) (hne : a ≠ .unquiesceSystem)
    (hen : s.Enabled a) (hs : s.step a = some s') : s'.Closed := by
  obtain ⟨k, hcall, hph, hzero⟩ := hclosed
  obtain ⟨hstays, hone⟩ := step_call h hcall hen hs
  obtain ⟨k', hk', hph'⟩ := hone hne hph
  exact ⟨k', hk', hph', hstays k' hk' hzero⟩

/-- **The processor capture barrier.**  While `QuiesceSystem` is running, `processorCount` is the
number of processors that are not both at `HIGH_LEVEL` and counted; it is never raised from zero.
Once a processor has left the barrier, all are at `HIGH_LEVEL` until `UnquiesceSystem`.  And every
step is survived: no assertion fails, and nobody accesses `processorCount` when it is gone. -/
theorem capture_barrier (h : Reached s) :
    (∀ k, s.call = some k → k.pc.live = true → k.processorCount = (Finset.univ.filter fun p =>
      ¬ ((s.cpu p).irql = highLevel ∧ (s.cpu p).counted = some k.frame)).card) ∧
    (∀ a s' k k', s.Enabled a → s.step a = some s' → s.call = some k → s'.call = some k' →
      k.processorCount = 0 → k'.processorCount = 0) ∧
    (s.Left → ∀ t, Reachable (fun u => u = s) (fun u a u' => u.Enabled a ∧ u.step a = some u')
      (fun _ a => a ≠ .unquiesceSystem) t → ∀ p, (t.cpu p).irql = highLevel) ∧
    ∀ a, s.Enabled a → s.step a ≠ none := by
  have hinv := h.inv
  refine ⟨?_, ?_, ?_, ?_⟩
  · intro k hcall hl
    rw [Inv, hcall] at hinv
    rw [hinv.count hl]
    unfold tally
    congr 2
    ext p
    rw [Finset.mem_filter, Finset.mem_filter, uncounted_iff]
  · intro a s' k k' hen hs hcall hcall'
    exact (step_call hinv hcall hen hs).1 k' hcall'
  · intro hleft t ht
    have hkeep : t.Inv ∧ t.Closed := by
      apply Reachable.invariant ht
      · rintro u rfl
        exact ⟨hinv, hinv.closed hleft⟩
      · rintro u a u' ⟨hu, hclosed⟩ hne ⟨hen, hs⟩
        obtain ⟨v, hv, hinv'⟩ := inv_step hu hen
        obtain rfl := Option.some.inj (hv.symm.trans hs)
        exact ⟨hinv', hu.closed_step hclosed hne hen hs⟩
    exact hkeep.1.highLevel hkeep.2
  · intro a hen hnone
    obtain ⟨t, ht, -⟩ := inv_step hinv hen
    exact nomatch ht.symm.trans hnone

instance (s : QuiesceSys N) (a : QuiesceAct N) : Decidable (s.Enabled a) := by
  cases a <;> unfold Enabled <;> infer_instance

/-- Two processors that have nothing to do. -/
def twoIdle : QuiesceSys 2 := ⟨fun _ => ⟨.idle, 0, 0, none, none⟩, none, 0, 0, 0, 0⟩

/-- The first processor captures the second. -/
theorem capture_barrier_two : ∃ s : QuiesceSys 2,
    (s.cpu 1).pc = .acknowledging 0 ∧ (s.cpu 0).irql = highLevel ∧ (s.cpu 1).irql = highLevel := by
  have hrun : ∃ s, Reached s ∧ decide ((s.cpu 1).pc = .acknowledging 0) = true :=
    exists_reachable_of_follow twoIdle
      [.quiesceSystem 0, .cpu 0, .cpu 0, .cpu 0, .cpu 0, .startDpc 1, .cpu 1, .cpu 0, .cpu 0, .cpu 1,
        .cpu 0, .cpu 0, .cpu 1, .cpu 1, .cpu 1, .cpu 1]
      ⟨rfl, rfl, fun _ => ⟨rfl, rfl, rfl⟩⟩ (by decide)
  obtain ⟨s, h, hs⟩ := hrun
  have hpc := of_decide_eq_true hs
  have hhigh := (capture_barrier h).2.2.1 (.inl ⟨1, 0, hpc⟩) s (.start rfl)
  exact ⟨s, hpc, hhigh 0, hhigh 1⟩

end QuiesceSys
end V4v.Xenutil
