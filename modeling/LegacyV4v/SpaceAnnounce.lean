import LegacyV4v.GuardedRun
import LegacyV4v.StreamRecv

/-! # Announcing the space that a receiver has freed

Xen wakes the senders that wait for space in a ring when the ring's owner issues
`V4VOP_notify`.  So whoever moves `rx_ptr` has to do so afterwards.  `v4v_interrupt` ends with
`v4v_notify` whatever it has consumed.  `v4v_recvfrom_dgram` calls `v4v_null_notify` after it has
consumed a message, but not after `recover_ring`, and not after it has thrown a message away while
it peeks; then it sleeps, or returns, and the space stays unknown to the senders.

The rings are memory here, as the handlers find it.  Xen and the rest of the driver may change
memory and sockets between any two steps. -/
namespace V4v.Linux
open MachineWord GuardedRun

/-- `V4V_PROTO_DGRAM`. -/
def protoDgram : UInt32 := 0x3c2c1db8

/-! ## Rings as memory -/

/-- `rx_ptr == tx_ptr`. -/
def drained (m : PageMem) : Prop :=
  read m.byte offsetofRxPtr 4 = read m.byte offsetofTxPtr 4

instance (m : PageMem) : Decidable (drained m) := inferInstanceAs (Decidable (_ = _))

/-- `recover_ring`. -/
def recoverRing (m : PageMem) : PageMem := m.storeWord offsetofRxPtr (read m.byte offsetofTxPtr 4)

/-- The message that a handler peeks; there is none when `v4v_copy_out` returns -1. -/
def headMessage (m : PageMem) : Option Message :=
  let o := copyOut m sizeofStreamHeader false
  if o.ret = -1 then none
  else some ⟨o.source, o.protocol, (copyOut m o.ret.toNat false).buf⟩

/-- `struct ring` with its memory; the `queue` of `ring` is not used. -/
structure ShmRing where
  ring : Ring
  mem : PageMem

/-- What a handler returns, and the ring. -/
structure ShmOut where
  ret : Int
  ring : ShmRing

/-- A call of the handler that the ring's type has, on the ring in memory; idle and datagram
rings have none. -/
def ShmRing.handle (x : ShmRing) : Option ShmOut :=
  match { x.ring with queue := (headMessage x.mem).toList }.handle none with
  | none => none
  | some o =>
    if x.ring.type = .connector ∧ x.ring.sponsor = none then some ⟨-1, x⟩
    else if headMessage x.mem = none then some ⟨0, { x with mem := recoverRing x.mem }⟩
    else
      -- the handler has taken the message out, or left it
      some ⟨o.ret, { o.ring with queue := [] },
        if o.ring.queue.isEmpty then (copyOut x.mem 0 true).mem else x.mem⟩

/-! ## Calls -/

/-- The arguments of `v4v_recvfrom_dgram`; `i` is the socket's ring. -/
structure DgramCall where
  i : Nat
  len : Nat
  nonblock : Bool
  peek : Bool

/-- Where a thread is in `v4v_recvfrom_dgram`: at the top of its loop, asleep, about to take
`r->lock`, about to recover the ring, or with what `v4v_copy_out` returned, before and after the
`v4v_null_notify`. -/
inductive DgramPc where
  | idle
  | top (c : DgramCall)
  | asleep (c : DgramCall)
  | locked (c : DgramCall)
  | garbled (c : DgramCall)
  | taken (c : DgramCall) (o : ReadOut)
  | judge (c : DgramCall) (o : ReadOut)

/-- The ring on which the thread works. -/
def DgramPc.call : DgramPc → Option DgramCall
  | .idle => none
  | .top c | .asleep c | .locked c | .garbled c | .taken c _ | .judge c _ => some c

/-- Where `v4v_interrupt` is: in `v4v_interrupt_rx`, with the rings to come, or at `v4v_notify`. -/
inductive IrqPc where
  | idle
  | rx (todo : List Nat)
  | notify

/-- A thread, or the interrupt. -/
inductive Runner where
  | thread (t : Nat)
  | interrupt
  deriving DecidableEq

/-- What is logged: `rx_ptr` of a ring moves, `V4VOP_notify` is issued, a thread goes to sleep or
returns, and `v4v_interrupt` ends. -/
inductive SpaceEvent where
  | advance (who : Runner) (i : Nat)
  | notify
  | sleep (t : Nat)
  | ret (t : Nat) (ret : Int)
  | handled
  deriving DecidableEq

namespace SpaceEvent

/-- The event is a move by `who`. -/
def Advances (who : Runner) (e : SpaceEvent) : Prop := ∃ i, e = advance who i

/-- The event is a `V4VOP_notify`. -/
def Notifies (e : SpaceEvent) : Prop := e = notify

/-- `who` sleeps, returns, or ends. -/
def Stops : Runner → SpaceEvent → Prop
  | .thread t, e => e = sleep t ∨ ∃ n, e = ret t n
  | .interrupt, e => e = handled

end SpaceEvent

/-- The message is no datagram, or, on a connected socket, not one of its peer. -/
def Rubbish (x : ShmRing) (o : ReadOut) : Prop :=
  o.protocol ≠ protoDgram ∨
    ∃ p, x.ring.sponsor = some p ∧ p.state = .connected ∧ o.source ≠ p.peer

/-- One step of thread `t` in `v4v_recvfrom_dgram` on its ring: where it goes on, the memory
behind it, and what is seen of it. -/
inductive DgramStep (t : Nat) (x : ShmRing) : DgramPc → DgramPc → PageMem → Option SpaceEvent → Prop
  | ready {c : DgramCall} : c.nonblock = false → ¬ drained x.mem →
      DgramStep t x (.top c) (.locked c) x.mem none
  | sleep {c : DgramCall} : c.nonblock = false → drained x.mem →
      DgramStep t x (.top c) (.asleep c) x.mem (some (.sleep t))
  | skip {c : DgramCall} : c.nonblock = true → DgramStep t x (.top c) (.locked c) x.mem none
  | wake {c : DgramCall} : ¬ drained x.mem → DgramStep t x (.asleep c) (.locked c) x.mem none
  | signal {c : DgramCall} : drained x.mem →
      DgramStep t x (.asleep c) .idle x.mem (some (.ret t (-erestartsys)))
  | again {c : DgramCall} : drained x.mem → c.nonblock = true →
      DgramStep t x (.locked c) .idle x.mem (some (.ret t (-eagain)))
  | retry {c : DgramCall} : drained x.mem → c.nonblock = false →
      DgramStep t x (.locked c) (.top c) x.mem none
  | copy {c : DgramCall} : ¬ drained x.mem → 0 ≤ (copyOut x.mem c.len !c.peek).ret →
      DgramStep t x (.locked c) (.taken c (copyOut x.mem c.len !c.peek))
        (copyOut x.mem c.len !c.peek).mem none
  | refuse {c : DgramCall} : ¬ drained x.mem → (copyOut x.mem c.len !c.peek).ret < 0 →
      DgramStep t x (.locked c) (.garbled c) x.mem none
  | recover {c : DgramCall} : DgramStep t x (.garbled c) (.top c) (recoverRing x.mem) none
  | notify {c : DgramCall} {o : ReadOut} : c.peek = false →
      DgramStep t x (.taken c o) (.judge c o) x.mem (some .notify)
  | peeked {c : DgramCall} {o : ReadOut} : c.peek = true →
      DgramStep t x (.taken c o) (.judge c o) x.mem none
  | rubbish {c : DgramCall} {o : ReadOut} : Rubbish x o → c.peek = false →
      DgramStep t x (.judge c o) (.top c) x.mem none
  | discard {c : DgramCall} {o : ReadOut} : Rubbish x o → c.peek = true →
      DgramStep t x (.judge c o) (.top c) (copyOut x.mem 1 true).mem none
  | done {c : DgramCall} {o : ReadOut} : ¬ Rubbish x o →
      DgramStep t x (.judge c o) .idle x.mem (some (.ret t o.ret))

/-- One step of `v4v_interrupt_rx` on the first of the rings to come. -/
inductive RxRingStep (i : Nat) (todo : List Nat) (x : ShmRing) : List Nat → ShmRing → Prop
  | skip : drained x.mem → RxRingStep i todo x todo x
  | idle : ¬ drained x.mem → x.ring.type = .idle →
      RxRingStep i todo x todo { x with mem := (copyOut x.mem 1 true).mem }
  | dgram : x.ring.type = .dgram → RxRingStep i todo x todo x
  | again {o : ShmOut} : ¬ drained x.mem → x.handle = some o → o.ret = 0 →
      RxRingStep i todo x (i :: todo) o.ring
  | stop {o : ShmOut} : ¬ drained x.mem → x.handle = some o → o.ret ≠ 0 →
      RxRingStep i todo x todo o.ring

/-! ## The driver -/

/-- The rings, the threads in `v4v_recvfrom_dgram`, the interrupt, and what has happened, newest
first. -/
structure SpaceSys where
  rings : List ShmRing
  threads : Nat → DgramPc
  irq : IrqPc
  log : List SpaceEvent

/-- A step of Xen or another part of the driver, or of a call. -/
inductive SpaceAct where
  | other (rings : List ShmRing) (notifies : Bool)
  | call (t : Nat) (c : DgramCall)
  | go (t : Nat)
  | interrupt
  | irq

namespace SpaceSys

/-- `who` changes ring `i` from `x` to `x'`. -/
def write (s : SpaceSys) (who : Runner) (i : Nat) (x x' : ShmRing) : SpaceSys :=
  { s with
    rings := s.rings.set i x'
    log := if read x'.mem.byte offsetofRxPtr 4 = read x.mem.byte offsetofRxPtr 4 then s.log
      else .advance who i :: s.log }

/-- What is seen is logged. -/
def see (s : SpaceSys) : Option SpaceEvent → SpaceSys
  | none => s
  | some e => { s with log := e :: s.log }

/-- One step. -/
inductive Step (s : SpaceSys) : SpaceAct → SpaceSys → Prop
  | other {rings : List ShmRing} {notifies : Bool} : Step s (.other rings notifies)
      (see { s with rings := rings } (if notifies then some .notify else none))
  | call {t : Nat} {c : DgramCall} : s.threads t = .idle →
      Step s (.call t c) { s with threads := Function.update s.threads t (.top c) }
  | go {t : Nat} {c : DgramCall} {x : ShmRing} {pc : DgramPc} {m : PageMem}
      {e : Option SpaceEvent} : (s.threads t).call = some c → s.rings[c.i]? = some x →
      DgramStep t x (s.threads t) pc m e →
      Step s (.go t) (see { s.write (.thread t) c.i x { x with mem := m } with
        threads := Function.update s.threads t pc } e)
  | interrupt : s.irq = .idle →
      Step s .interrupt { s with irq := .rx (List.range s.rings.length) }
  | rx {i : Nat} {rest todo : List Nat} {x x' : ShmRing} : s.irq = .rx (i :: rest) →
      s.rings[i]? = some x → RxRingStep i rest x todo x' →
      Step s .irq { s.write .interrupt i x x' with irq := .rx todo }
  | rxEnd : s.irq = .rx [] → Step s .irq { s with irq := .notify }
  | notify : s.irq = .notify →
      Step s .irq { s with irq := .idle, log := .handled :: .notify :: s.log }

/-- No call is in progress, and nothing has happened. -/
def Quiet (s : SpaceSys) : Prop := (∀ t, s.threads t = .idle) ∧ s.irq = .idle ∧ s.log = []

/-- The states to which steps that satisfy `ok` lead. -/
abbrev Reached (ok : SpaceSys → SpaceAct → Prop) : SpaceSys → Prop := Reachable Quiet Step ok

/-- Whoever stops has announced the space that it has freed. -/
def Announced (s : SpaceSys) : Prop :=
  ∀ who, Settled (SpaceEvent.Advances who) SpaceEvent.Notifies (SpaceEvent.Stops who) s.log

/-- `v4v_recvfrom_dgram` recovers no ring in which something is left, and throws nothing away while
it peeks. -/
def DropsNothing (s : SpaceSys) : SpaceAct → Prop
  | .go t => ∀ c x, (s.threads t).call = some c → s.rings[c.i]? = some x →
    (s.threads t = .garbled c → drained x.mem) ∧
    ∀ o, s.threads t = .judge c o → c.peek = true → Rubbish x o → (copyOut x.mem 1 true).ret < 0
  | _ => True

/-- `who` is on the way to a `V4VOP_notify`. -/
def WillNotify (s : SpaceSys) : Runner → Prop
  | .thread t => ∃ c o, s.threads t = .taken c o ∧ c.peek = false
  | .interrupt => s.irq ≠ .idle

/-- **The invariant.** -/
structure Inv (s : SpaceSys) : Prop where
  announced : s.Announced
  pending : ∀ who, Unpaid (SpaceEvent.Advances who) SpaceEvent.Notifies s.log → s.WillNotify who

theorem Inv.quiet {s : SpaceSys} (h : s.Quiet) : s.Inv := by
  obtain ⟨-, -, hlog⟩ := h
  refine ⟨fun who => ?_, fun who hu => ?_⟩
  · rw [hlog]
    trivial
  · rw [hlog] at hu
    cases hu

end SpaceSys

/-! ## What moves `rx_ptr` -/

theorem copyOut_peek (m : PageMem) (t : Nat) : (copyOut m t false).mem = m := by
  rw [copyOut]
  dsimp only
  split
  · rfl
  · split <;> rfl

theorem copyOut_refused {m : PageMem} {t : Nat} {consume : Bool}
    (h : (copyOut m t consume).ret < 0) : (copyOut m t consume).mem = m := by
  rw [copyOut] at h ⊢
  dsimp only at h ⊢
  split
  · rfl
  · split
    · rfl
    · next hshort hlong =>
      rw [if_neg hshort, if_neg hlong] at h
      exact absurd h (by simp)

/-- A drained ring is recovered without a move. -/
theorem recoverRing_drained {m : PageMem} (h : drained m) :
    read (recoverRing m).byte offsetofRxPtr 4 = read m.byte offsetofRxPtr 4 := by
  rw [recoverRing, PageMem.read_storeWord (by decide) (read_lt _ _ 4)]
  exact h.symm

theorem drained_recoverRing (m : PageMem) : drained (recoverRing m) := by
  have htx : read (recoverRing m).byte offsetofTxPtr 4 = read m.byte offsetofTxPtr 4 :=
    PageMem.read_storeWord_of_ne (by decide) (by decide)
  rw [drained, htx, recoverRing, PageMem.read_storeWord (by decide) (read_lt _ _ 4)]

namespace SpaceSys

/-! ## Steps -/

section
variable {s s' : SpaceSys}

@[simp] theorem see_log (s : SpaceSys) (e : Option SpaceEvent) :
    (s.see e).log = e.toList ++ s.log := by
  cases e <;> rfl

theorem write_log_of_eq {who : Runner} {i : Nat} {x x' : ShmRing}
    (h : read x'.mem.byte offsetofRxPtr 4 = read x.mem.byte offsetofRxPtr 4) :
    (s.write who i x x').log = s.log := by
  rw [write, if_pos h]

theorem write_log_of_ne {who : Runner} {i : Nat} {x x' : ShmRing}
    (h : read x'.mem.byte offsetofRxPtr 4 ≠ read x.mem.byte offsetofRxPtr 4) :
    (s.write who i x x').log = .advance who i :: s.log := by
  rw [write, if_neg h]

/-- Nothing is logged. -/
theorem Inv.silent (h : s.Inv) (hlog : s'.log = s.log)
    (hkeep : ∀ w, s.WillNotify w → s'.WillNotify w) : s'.Inv := by
  refine ⟨fun who => ?_, fun who hu => ?_⟩
  · rw [hlog]
    exact h.announced who
  · rw [hlog] at hu
    exact hkeep who (h.pending who hu)

/-- Somebody moves `rx_ptr`, and is on the way to a `V4VOP_notify`. -/
theorem Inv.advance {who : Runner} {i : Nat} (h : s.Inv)
    (hlog : s'.log = .advance who i :: s.log) (hwho : s'.WillNotify who)
    (hkeep : ∀ w, s.WillNotify w → s'.WillNotify w) : s'.Inv := by
  refine ⟨fun w => ?_, fun w hu => ?_⟩
  · rw [hlog]
    refine ⟨h.announced w, fun hstop => ?_⟩
    cases w <;> simp [SpaceEvent.Stops] at hstop
  · rw [hlog] at hu
    rcases hu with ⟨j, hj⟩ | ⟨-, hu⟩
    · cases hj
      exact hwho
    · exact hkeep w (h.pending w hu)

/-- After a `V4VOP_notify` nothing is unpaid. -/
theorem Inv.notifies (h : s.Inv) (hlog : s'.log = .notify :: s.log) : s'.Inv := by
  refine ⟨fun w => ?_, fun w hu => ?_⟩
  · rw [hlog]
    refine ⟨h.announced w, fun hstop => ?_⟩
    cases w <;> simp [SpaceEvent.Stops] at hstop
  · rw [hlog] at hu
    exact absurd hu (not_unpaid_of_pays (by rintro ⟨j, hj⟩; cases hj) rfl)

/-- Thread `t` stops, and was not on the way to a `V4VOP_notify`. -/
theorem Inv.stops {t : Nat} {e : SpaceEvent} (h : s.Inv) (hlog : s'.log = e :: s.log)
    (he : SpaceEvent.Stops (.thread t) e) (hnot : ¬ s.WillNotify (.thread t))
    (hkeep : ∀ w, s.WillNotify w → s'.WillNotify w) : s'.Inv := by
  have hadv : ∀ w, ¬ SpaceEvent.Advances w e := by
    rintro w ⟨j, rfl⟩
    simp [SpaceEvent.Stops] at he
  refine ⟨fun w => ?_, fun w hu => ?_⟩
  · rw [hlog]
    refine ⟨h.announced w, fun hstop hu => ?_⟩
    have hw : w = .thread t := by
      cases w with
      | thread t' =>
        rcases he with rfl | ⟨n, rfl⟩ <;> simpa [SpaceEvent.Stops, eq_comm] using hstop
      | interrupt => rcases he with rfl | ⟨n, rfl⟩ <;> simp [SpaceEvent.Stops] at hstop
    exact hnot (hw ▸ h.pending w hu)
  · rw [hlog] at hu
    exact hkeep w (h.pending w (hu.of_cons (hadv w)))

end

/-- Whether the others are on the way to a `V4VOP_notify` is not for thread `t` to say. -/
theorem willNotify_go {s : SpaceSys} {t i : Nat} {pc : DgramPc} {x x' : ShmRing}
    {e : Option SpaceEvent}
    (hpc : s.WillNotify (.thread t) → ∃ c o, pc = .taken c o ∧ c.peek = false) (w : Runner)
    (hw : s.WillNotify w) : WillNotify (see { s.write (.thread t) i x x' with
      threads := Function.update s.threads t pc } e) w := by
  have hsame : ∀ s₀ : SpaceSys, (s₀.see e).threads = s₀.threads ∧ (s₀.see e).irq = s₀.irq := by
    intro s₀
    cases e <;> exact ⟨rfl, rfl⟩
  cases w with
  | thread t' =>
    rw [WillNotify, (hsame _).1]
    by_cases ht : t' = t
    · subst ht
      dsimp only
      rw [Function.update_self]
      exact hpc hw
    · dsimp only
      rw [Function.update_of_ne ht]
      exact hw
  | interrupt =>
    rw [WillNotify, (hsame _).2]
    exact hw

/-- One step of `v4v_recvfrom_dgram`. -/
theorem inv_go {s : SpaceSys} {t : Nat} {c : DgramCall} {x : ShmRing} {pc : DgramPc} {m : PageMem}
    {e : Option SpaceEvent} (h : s.Inv) (hok : s.DropsNothing (.go t))
    (hc : (s.threads t).call = some c) (hx : s.rings[c.i]? = some x)
    (hs : DgramStep t x (s.threads t) pc m e) :
    Inv (see { s.write (.thread t) c.i x { x with mem := m } with
      threads := Function.update s.threads t pc } e) := by
  generalize hs' : see { s.write (.thread t) c.i x { x with mem := m } with
    threads := Function.update s.threads t pc } e = s'
  have hkeep : (s.WillNotify (.thread t) → ∃ c o, pc = .taken c o ∧ c.peek = false) →
      ∀ w, s.WillNotify w → s'.WillNotify w := by
    rw [← hs']
    exact willNotify_go
  have hlog : s'.log = e.toList ++ (s.write (.thread t) c.i x { x with mem := m }).log := by
    rw [← hs', see_log]
  have hself : s'.threads t = pc := by
    rw [← hs']
    cases e <;> exact Function.update_self ..
  have hstill : read m.byte offsetofRxPtr 4 = read x.mem.byte offsetofRxPtr 4 →
      s'.log = e.toList ++ s.log :=
    fun hm => hlog.trans (congrArg _ (write_log_of_eq hm))
  have hmoved : read m.byte offsetofRxPtr 4 ≠ read x.mem.byte offsetofRxPtr 4 →
      s'.log = e.toList ++ .advance (.thread t) c.i :: s.log :=
    fun hm => hlog.trans (congrArg _ (write_log_of_ne hm))
  clear hs' hlog
  obtain ⟨hgarbled, hjudge⟩ := hok c x hc hx
  generalize hold : s.threads t = old at hs hgarbled hjudge hc
  have hnot : (∀ c o, old ≠ .taken c o) → ¬ s.WillNotify (.thread t) := by
    rintro hne ⟨c', o, ht, -⟩
    exact hne c' o (hold.symm.trans ht)
  have hvac : (∀ c o, old ≠ .taken c o) → ∀ w, s.WillNotify w → s'.WillNotify w :=
    fun hne => hkeep fun hw => absurd hw (hnot hne)
  cases hs with
  | ready | skip | wake | retry | refuse | rubbish =>
    exact h.silent (hstill rfl) (hvac (by simp))
  | sleep => exact h.stops (hstill rfl) (.inl rfl) (hnot (by simp)) (hvac (by simp))
  | signal | again | done =>
    exact h.stops (hstill rfl) (.inr ⟨_, rfl⟩) (hnot (by simp)) (hvac (by simp))
  | notify => exact h.notifies (hstill rfl)
  | peeked hpeek =>
    refine h.silent (hstill rfl) (hkeep ?_)
    rintro ⟨c', o', ht, hp⟩
    rw [hold] at ht
    cases ht
    rw [hpeek] at hp
    cases hp
  | recover =>
    cases hc
    exact h.silent (hstill (recoverRing_drained (hgarbled rfl))) (hvac (by simp))
  | discard hr hpeek =>
    cases hc
    have hsame := copyOut_refused (hjudge _ rfl hpeek hr)
    exact h.silent (hstill (by rw [hsame])) (hvac (by simp))
  | @copy c' hne hret =>
    by_cases hpeek : c'.peek = true
    · have hsame := copyOut_peek x.mem c'.len
      exact h.silent (hstill (by rw [hpeek, Bool.not_true, hsame])) (hvac (by simp))
    · by_cases hmove : read (copyOut x.mem c'.len !c'.peek).mem.byte offsetofRxPtr 4 =
          read x.mem.byte offsetofRxPtr 4
      · exact h.silent (hstill hmove) (hvac (by simp))
      · exact h.advance (hmoved hmove) ⟨c', _, hself, by simpa using hpeek⟩ (hvac (by simp))

/-- One step of `v4v_interrupt_rx`. -/
theorem inv_rx {s : SpaceSys} {i : Nat} {todo : List Nat} {x x' : ShmRing} (h : s.Inv) :
    Inv { s.write .interrupt i x x' with irq := .rx todo } := by
  have hlog : SpaceSys.log { s.write .interrupt i x x' with irq := .rx todo } =
      (s.write .interrupt i x x').log := rfl
  have hkeep : ∀ w, s.WillNotify w →
      WillNotify { s.write .interrupt i x x' with irq := .rx todo } w := by
    intro w hw
    cases w with
    | thread t => exact hw
    | interrupt => simp [WillNotify]
  by_cases hmove : read x'.mem.byte offsetofRxPtr 4 = read x.mem.byte offsetofRxPtr 4
  · exact h.silent (hlog.trans (write_log_of_eq hmove)) hkeep
  · exact h.advance (hlog.trans (write_log_of_ne hmove)) (by simp [WillNotify]) hkeep

theorem inv_step {s s' : SpaceSys} {a : SpaceAct} (h : s.Inv) (hok : s.DropsNothing a)
    (hs : s.Step a s') : s'.Inv := by
  cases hs with
  | @other rings notifies =>
    cases notifies with
    | false => exact h.silent rfl fun w hw => by cases w <;> exact hw
    | true => exact h.notifies rfl
  | @call t c hidle =>
    refine h.silent rfl fun w hw => ?_
    cases w with
    | thread t' =>
      obtain ⟨c', o, ht, hp⟩ := hw
      have hne : t' ≠ t := by
        rintro rfl
        rw [hidle] at ht
        cases ht
      exact ⟨c', o, (Function.update_of_ne hne _ _).trans ht, hp⟩
    | interrupt => exact hw
  | go hc hx hd => exact inv_go h hok hc hx hd
  | interrupt hirq =>
    refine h.silent rfl fun w hw => ?_
    cases w with
    | thread t => exact hw
    | interrupt => simp [WillNotify]
  | rx => exact inv_rx h
  | rxEnd =>
    refine h.silent rfl fun w hw => ?_
    cases w with
    | thread t => exact hw
    | interrupt => simp [WillNotify]
  | notify =>
    -- `v4v_notify` comes first, so nothing is unpaid at the end
    have hpaid : Inv { s with irq := .idle, log := .notify :: s.log } := h.notifies rfl
    refine ⟨fun w => ⟨hpaid.announced w, fun _ => ?_⟩, fun w hu => ?_⟩
    · exact not_unpaid_of_pays (by rintro ⟨j, hj⟩; cases hj) rfl
    · exact absurd (hu.of_cons (by rintro ⟨j, hj⟩; cases hj))
        (not_unpaid_of_pays (by rintro ⟨j, hj⟩; cases hj) rfl)

/-- **Freed space is announced**, if nothing is dropped otherwise than by a read. -/
theorem space_announced (s : SpaceSys) (h : Reached DropsNothing s) : s.Announced :=
  (h.invariant (fun _ hs => Inv.quiet hs) fun _ _ _ hs hok hstep => inv_step hs hok hstep).announced

/-! What a call that does not block makes of a ring with one message. -/

/-- A ring with 16 bytes in it, which begin with a header of this length and protocol. -/
def dgramRing (len : Nat) (protocol : UInt32) : ShmRing where
  ring := ⟨⟨⟨10, 1⟩, domidAny⟩, .dgram, some ⟨0, .bound, ⟨0, 0⟩, 0, [], 0, false⟩, [], []⟩
  mem := PageMem.storeWord (PageMem.storeWord (PageMem.storeWord (PageMem.storeWord (fun _ _ => 0)
    offsetofLen 48) offsetofTxPtr 16) sizeofRing len) (sizeofRing + 12) protocol.toNat

/-- A state can be reached with this one ring, thread 0 at `pc`, and this log. -/
def At (ok : SpaceSys → SpaceAct → Prop) (pc : DgramPc) (x : ShmRing) (log : List SpaceEvent) :
    Prop :=
  ∃ s, Reached ok s ∧ s.threads 0 = pc ∧ s.rings = [x] ∧ s.log = log

theorem at_top {ok : SpaceSys → SpaceAct → Prop} (c : DgramCall) (x : ShmRing)
    (hok : ∀ s, ok s (.call 0 c)) : At ok (.top c) x [] :=
  ⟨_, Reachable.next (.start (s := ⟨[x], fun _ => .idle, .idle, []⟩) ⟨fun _ => rfl, rfl, rfl⟩)
    (hok _) (.call rfl), rfl, rfl, rfl⟩

/-- Thread 0 goes on. -/
theorem At.go {ok : SpaceSys → SpaceAct → Prop} {old pc : DgramPc} {x : ShmRing} {m : PageMem}
    {c : DgramCall} {e : Option SpaceEvent} {log l : List SpaceEvent} (h : At ok old x log)
    (hok : ∀ s, s.threads 0 = old → s.rings = [x] → ok s (.go 0)) (hc : old.call = some c)
    (hi : c.i = 0) (hs : DgramStep 0 x old pc m e)
    (hlog : l = e.toList ++
      if read m.byte offsetofRxPtr 4 = read x.mem.byte offsetofRxPtr 4 then log
      else .advance (.thread 0) 0 :: log) : At ok pc { x with mem := m } l := by
  obtain ⟨s, hreach, rfl, hrings, rfl⟩ := h
  have hx : s.rings[c.i]? = some x := by rw [hrings, hi]; rfl
  refine ⟨_, hreach.next (hok s rfl hrings) (.go hc hx hs), ?_, ?_, ?_⟩
  · cases e <;> rfl
  · have hset : s.rings.set c.i { x with mem := m } = [{ x with mem := m }] := by
      rw [hrings, hi]
      rfl
    cases e <;> exact hset
  · rw [see_log, hlog, hi, write]

/-- It goes on without touching the ring. -/
theorem At.stay {ok : SpaceSys → SpaceAct → Prop} {old pc : DgramPc} {x : ShmRing} {c : DgramCall}
    {e : Option SpaceEvent} {log : List SpaceEvent} (h : At ok old x log)
    (hok : ∀ s, s.threads 0 = old → s.rings = [x] → ok s (.go 0)) (hc : old.call = some c)
    (hi : c.i = 0) (hs : DgramStep 0 x old pc x.mem e) : At ok pc x (e.toList ++ log) :=
  h.go hok hc hi hs (by rw [if_pos rfl])

/-- A call that does not block returns when it finds nothing in the ring. -/
theorem At.emptied {x : ShmRing} {c : DgramCall} {log : List SpaceEvent}
    (h : At (fun _ _ => True) (.top c) x log) (hi : c.i = 0) (hnonblock : c.nonblock = true)
    (hdrained : drained x.mem) : At (fun _ _ => True) .idle x (.ret 0 (-eagain) :: log) :=
  (h.stay (fun _ _ _ => trivial) rfl hi (.skip hnonblock)).stay (fun _ _ _ => trivial) rfl hi
    (.again hdrained hnonblock)

theorem not_announced {s : SpaceSys} {t i : Nat} {n : Int}
    (h : s.log = [.ret t n, .advance (.thread t) i]) : ¬ s.Announced := by
  intro hann
  have hset := hann (.thread t)
  rw [h] at hset
  exact hset.2 (.inr ⟨n, rfl⟩) (.inl ⟨i, rfl⟩)

/-- A damaged ring is recovered, and a peeking call throws a stream message away; both calls
return, and nobody has announced the space. -/
theorem dropped_unannounced :
    (∃ s, Reached (fun _ _ => True) s ∧ s.threads 0 = .idle ∧ ¬ s.Announced ∧
      s.rings.map ShmRing.ring = [(dgramRing 32 protoDgram).ring]) ∧
    (∃ s, Reached (fun _ _ => True) s ∧ s.threads 0 = .idle ∧ ¬ s.Announced ∧
      s.rings.map ShmRing.ring = [(dgramRing 16 protoStream).ring]) := by
  constructor
  · have htop : At (fun _ _ => True) _ (dgramRing 32 protoDgram) [] :=
      at_top ⟨0, 0, true, false⟩ _ fun _ => trivial
    have hlocked := htop.stay (fun _ _ _ => trivial) rfl rfl (.skip rfl)
    have hgarbled := hlocked.stay (fun _ _ _ => trivial) rfl rfl
      (.refuse (by decide) (by decide))
    have htop' := hgarbled.go (l := [.advance (.thread 0) 0]) (fun _ _ _ => trivial) rfl rfl
      .recover (by decide)
    obtain ⟨s, hs, hidle, hrings, hlog⟩ := htop'.emptied rfl rfl (drained_recoverRing _)
    exact ⟨s, hs, hidle, not_announced hlog, by rw [hrings]; rfl⟩
  · have htop : At (fun _ _ => True) _ (dgramRing 16 protoStream) [] :=
      at_top ⟨0, 0, true, true⟩ _ fun _ => trivial
    have hlocked := htop.stay (fun _ _ _ => trivial) rfl rfl (.skip rfl)
    have htaken := hlocked.stay (fun _ _ _ => trivial) rfl rfl (.copy (by decide) (by decide))
    have hjudge := htaken.stay (fun _ _ _ => trivial) rfl rfl (.peeked rfl)
    have htop' := hjudge.go (l := [.advance (.thread 0) 0]) (fun _ _ _ => trivial) rfl rfl
      (.discard (.inl (by decide)) rfl) (by decide)
    obtain ⟨s, hs, hidle, hrings, hlog⟩ := htop'.emptied rfl rfl (by decide)
    exact ⟨s, hs, hidle, not_announced hlog, by rw [hrings]; rfl⟩

/-- A datagram is read, the space is announced, and the call returns. -/
theorem space_announced_read : ∃ s, Reached DropsNothing s ∧ s.Announced ∧
    s.log = [.ret 0 0, .notify, .advance (.thread 0) 0] := by
  have hok : ∀ {pc : DgramPc} {x : ShmRing}, (∀ c, pc ≠ .garbled c) →
      (∀ c o, pc = .judge c o → c.peek = false) →
      ∀ s : SpaceSys, s.threads 0 = pc → s.rings = [x] → s.DropsNothing (.go 0) := by
    intro pc x hgarbled hjudge s hpc _ c x' _ _
    refine ⟨fun h => absurd (hpc.symm.trans h) (hgarbled c), fun o h hpeek => ?_⟩
    rw [hjudge c o (hpc.symm.trans h)] at hpeek
    cases hpeek
  have htop : At DropsNothing _ (dgramRing 16 protoDgram) [] :=
    at_top ⟨0, 0, true, false⟩ _ fun _ => trivial
  have hlocked := htop.stay (hok (by simp) (by simp)) rfl rfl (.skip rfl)
  have htaken := hlocked.go (l := [.advance (.thread 0) 0]) (hok (by simp) (by simp)) rfl rfl
    (.copy (by decide) (by decide)) (by decide)
  have hjudge := htaken.stay (hok (by simp) (by simp)) rfl rfl (.notify rfl)
  have hgood : ¬ Rubbish ⟨(dgramRing 16 protoDgram).ring,
      (copyOut (dgramRing 16 protoDgram).mem 0 true).mem⟩
      (copyOut (dgramRing 16 protoDgram).mem 0 true) := by
    rintro (h | ⟨p, hp, hst, -⟩)
    · exact h (by decide)
    · cases hp
      cases hst
  obtain ⟨s, hs, -, -, hlog⟩ :=
    hjudge.stay (hok (by simp) (by rintro c o h; cases h; rfl)) rfl rfl (.done hgood)
  exact ⟨s, hs, space_announced s hs, hlog⟩

end SpaceSys

end V4v.Linux
