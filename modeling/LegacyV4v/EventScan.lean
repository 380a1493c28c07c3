import LegacyV4v.EventChannel
import Mathlib.Data.Finset.Max
import Mathlib.Order.Lattice.Nat

/-! # The scan for event channels

A pass of `EvtchnHandleInterrupt` takes the selector, and looks for its bits, and for the bits of the words
it selects, from a position that rotates: the last port that was served, plus one.  Each looks at its bits
in a circle until there are none left.

The position is a counter that every pass increments, and only a port that is served sets it back.  After
enough passes that serve nothing it is no position any more; nor is it after the last port of all.  And the
ports that can be pending are more than there are handlers for. -/

/-! ## Looking for bits in a circle -/

namespace CircularScan

/-- How far position `i` is from `start` in a circle of `w`. -/
def ahead (w start i : ℕ) : ℕ := (i + w - start) % w

/-- How many positions there are from `start` up to the last bit. -/
def extent (w : ℕ) (bits : Finset ℕ) (start : ℕ) : ℕ := bits.sup fun i => ahead w start i + 1

variable {w start i : ℕ} {bits : Finset ℕ}

theorem ahead_lt (hw : 0 < w) : ahead w start i < w := Nat.mod_lt _ hw

theorem extent_le (hw : 0 < w) : extent w bits start ≤ w :=
  Finset.sup_le fun _ _ => ahead_lt hw

theorem ahead_next (hstart : start < w) (hi : i < w) (hne : i ≠ start) :
    ahead w ((start + 1) % w) i + 1 = ahead w start i := by
  have hahead : ∀ a < w, ahead w a i = if a ≤ i then i - a else i + w - a := by
    intro a ha
    unfold ahead
    split
    · rw [show i + w - a = (i - a) + w by omega, Nat.add_mod_right, Nat.mod_eq_of_lt (by omega)]
    · exact Nat.mod_eq_of_lt (by omega)
  rcases Nat.lt_or_ge (start + 1) w with hlt | hge
  · rw [Nat.mod_eq_of_lt hlt, hahead _ hlt, hahead _ hstart]
    split <;> split <;> omega
  · rw [show start + 1 = w by omega, Nat.mod_self, hahead 0 (by omega), hahead _ hstart]
    split <;> split <;> omega

/-- **A look at one position** shortens the rest. -/
theorem extent_next (hbits : ∀ i ∈ bits, i < w) (hstart : start < w) (hne : bits.Nonempty) :
    extent w (bits.erase start) ((start + 1) % w) < extent w bits start := by
  have hbound : extent w (bits.erase start) ((start + 1) % w) ≤ extent w bits start - 1 := by
    refine Finset.sup_le fun i hi => ?_
    obtain ⟨hother, hmem⟩ := Finset.mem_erase.mp hi
    have hle : ahead w start i + 1 ≤ extent w bits start :=
      Finset.le_sup (f := fun i => ahead w start i + 1) hmem
    rw [ahead_next hstart (hbits i hmem) hother]
    exact Nat.le_sub_one_of_lt hle
  obtain ⟨i, hi⟩ := hne
  have hpos : ahead w start i + 1 ≤ extent w bits start :=
    Finset.le_sup (f := fun i => ahead w start i + 1) hi
  omega

end CircularScan

namespace V4v.Xenutil
open GuardedRun CircularScan

/-! ## The model -/

/-- What a pass finds in the shared page: the selector that it takes, and the words as they are when it reads
them. -/
structure SharedWords where
  sel : Finset Nat
  evtchnPending : Nat → Finset Nat
  evtchnMask : Nat → Finset Nat

/-- The bits of words of this size. -/
structure SharedWords.Sized (b : Arch) (i : SharedWords) : Prop where
  sel : ∀ top ∈ i.sel, top < b.evtchnsPerToplevel
  pending : ∀ top, ∀ sub ∈ i.evtchnPending top, sub < b.evtchnsPerToplevel

/-- A port is pending and not masked, and its word is selected. -/
def SharedWords.Due (b : Arch) (i : SharedWords) (port : Nat) : Prop :=
  port / b.evtchnsPerToplevel ∈ i.sel ∧
    port % b.evtchnsPerToplevel ∈ i.evtchnPending (port / b.evtchnsPerToplevel) \
      i.evtchnMask (port / b.evtchnsPerToplevel)

/-- Where the pass is: at the selector, or at a word, with the bits that are left of it. -/
inductive PassPc where
  | tops
  | subs (evtchnsPending : Finset Nat)
  deriving DecidableEq

/-- The variables of a pass, `last_evtchn_serviced`, and for the record the ports that have been handled,
the last one first. -/
structure EventPass where
  sel : Finset Nat
  nextTopSelector : Nat
  nextSubSelector : Nat
  pc : PassPc
  lastEvtchnServiced : UInt32
  handled : List Nat
  deriving DecidableEq

section Model
variable (b : Arch) (i : SharedWords)

/-- A pass up to its loop. -/
def beginPass (last : UInt32) : EventPass where
  sel := i.sel
  nextTopSelector := (last + 1).toNat / b.evtchnsPerToplevel
  nextSubSelector := (last + 1).toNat % b.evtchnsPerToplevel
  pc := .tops
  lastEvtchnServiced := last + 1
  handled := []

/-- The next bit of the selector. -/
def EventPass.advance (s : EventPass) : EventPass :=
  { s with
    nextTopSelector := (s.nextTopSelector + 1) % b.evtchnsPerToplevel
    nextSubSelector := 0
    pc := .tops }

/-- The next bit of the word. -/
def EventPass.next (s : EventPass) (evtchnsPending : Finset Nat) : EventPass :=
  { s with
    nextSubSelector := (s.nextSubSelector + 1) % b.evtchnsPerToplevel
    pc := .subs evtchnsPending }

/-- A round of the loops of a pass; `none` where it leaves an array, or shifts by too much. -/
def passStep (s : EventPass) : Option (Bool × EventPass) :=
  match s.pc with
  | .tops =>
    if s.sel = ∅ then some (false, s)
    -- the shift in `EVTCHN_SUB_MASK`, and then the index of the words
    else if b.evtchnsPerToplevel ≤ s.nextTopSelector then none
    else if s.nextTopSelector ∈ s.sel then
      some (true, { s with
        sel := s.sel.erase s.nextTopSelector
        pc := .subs (i.evtchnPending s.nextTopSelector \ i.evtchnMask s.nextTopSelector) })
    else some (true, s.advance b)
  | .subs bits =>
    if bits = ∅ then some (true, s.advance b)
    else if s.nextSubSelector ∈ bits then
      let port := s.nextTopSelector * b.evtchnsPerToplevel + s.nextSubSelector
      -- the index of `EventChannelHandlers`
      if maxEvtchn ≤ port then none
      else some (true, ({ s with
        lastEvtchnServiced := .ofNat port
        handled := port :: s.handled }).next b (bits.erase s.nextSubSelector))
    else some (true, s.next b bits)

/-- **A pass is right**: it ends, within its arrays, with the selector clear, and has handled the ports that
are due, each of them once. -/
def ScansRight (last : UInt32) : Prop :=
  ∃ s, Loop (passStep b i) (beginPass b i last) s ∧ s.sel = ∅ ∧ s.handled.Nodup ∧
    ∀ port, port ∈ s.handled ↔ i.Due b port

/-- There is nothing to be done, or the counter is a position, and all ports that are due have an entry. -/
def Orderly (last : UInt32) : Prop :=
  i.sel = ∅ ∨ (last + 1).toNat / b.evtchnsPerToplevel < b.evtchnsPerToplevel ∧
    ∀ port, i.Due b port → port < maxEvtchn

end Model

/-! ## One round -/

/-- What is left to be done of a port. -/
def EventPass.Left (b : Arch) (i : SharedWords) (s : EventPass) (port : Nat) : Prop :=
  (port / b.evtchnsPerToplevel ∈ s.sel ∧
      port % b.evtchnsPerToplevel ∈ i.evtchnPending (port / b.evtchnsPerToplevel) \
        i.evtchnMask (port / b.evtchnsPerToplevel)) ∨
    ∃ bits, s.pc = .subs bits ∧ port / b.evtchnsPerToplevel = s.nextTopSelector ∧
      port % b.evtchnsPerToplevel ∈ bits

/-- **The invariant of a pass**: what is due has been handled or is left, and not both. -/
structure PassInv (b : Arch) (i : SharedWords) (s : EventPass) : Prop where
  sel : s.sel ⊆ i.sel
  sub : s.nextSubSelector < b.evtchnsPerToplevel
  bits : ∀ bits, s.pc = .subs bits → s.nextTopSelector < b.evtchnsPerToplevel ∧
    s.nextTopSelector ∉ s.sel ∧ ∀ sub ∈ bits, sub < b.evtchnsPerToplevel
  due : ∀ port, i.Due b port ↔ port ∈ s.handled ∨ s.Left b i port
  once : ∀ port ∈ s.handled, ¬ s.Left b i port
  nodup : s.handled.Nodup
  small : ∀ port ∈ s.handled, port < maxEvtchn

section Round
variable {b : Arch} {i : SharedWords} {s s' : EventPass} {last : UInt32}

theorem width_pos (b : Arch) : 0 < b.evtchnsPerToplevel := by
  cases b <;> decide

theorem passInv_begin : PassInv b i (beginPass b i last) where
  sel := Finset.Subset.refl _
  sub := Nat.mod_lt _ (width_pos b)
  bits := fun _ h => nomatch h
  due := fun port => by
    refine ⟨fun h => .inr (.inl h), ?_⟩
    rintro (h | h | ⟨bits, h, -⟩)
    · exact absurd h List.not_mem_nil
    · exact h
    · cases h
  once := fun port h => absurd h List.not_mem_nil
  nodup := .nil
  small := fun port h => absurd h List.not_mem_nil

/-- Only what is left matters. -/
theorem PassInv.of_left (h : PassInv b i s) (hsel : s'.sel ⊆ s.sel)
    (hsub : s'.nextSubSelector < b.evtchnsPerToplevel)
    (hbits : ∀ bits, s'.pc = .subs bits → s'.nextTopSelector < b.evtchnsPerToplevel ∧
      s'.nextTopSelector ∉ s'.sel ∧ ∀ sub ∈ bits, sub < b.evtchnsPerToplevel)
    (hhandled : s'.handled = s.handled) (hleft : ∀ port, s'.Left b i port ↔ s.Left b i port) :
    PassInv b i s' where
  sel := hsel.trans h.sel
  sub := hsub
  bits := hbits
  due := fun port => by rw [hhandled, hleft]; exact h.due port
  once := fun port hport => by
    rw [hleft]
    exact h.once port (hhandled ▸ hport)
  nodup := hhandled ▸ h.nodup
  small := hhandled ▸ h.small

/-- A port is its word and its bit. -/
theorem port_iff {top sub port : Nat} (hsub : sub < b.evtchnsPerToplevel) :
    port / b.evtchnsPerToplevel = top ∧ port % b.evtchnsPerToplevel = sub ↔
      port = top * b.evtchnsPerToplevel + sub := by
  have hw := width_pos b
  constructor
  · rintro ⟨rfl, rfl⟩
    rw [Nat.mul_comm]
    exact (Nat.div_add_mod _ _).symm
  · rintro rfl
    rw [Nat.mul_comm, Nat.mul_add_div hw, Nat.div_eq_of_lt hsub, Nat.mul_add_mod, Nat.mod_eq_of_lt hsub]
    exact ⟨Nat.add_zero _, rfl⟩

/-- A word that has no bits left is done. -/
theorem left_advance (hpc : s.pc = .subs ∅ ∨ s.pc = .tops) (port : Nat) :
    (s.advance b).Left b i port ↔ s.Left b i port := by
  refine or_congr Iff.rfl (iff_of_false ?_ ?_)
  · rintro ⟨bits, h, -⟩
    cases h
  · rintro ⟨bits, h, -, hbit⟩
    rcases hpc with hpc | hpc
    · rw [hpc] at h
      cases h
      exact absurd hbit (Finset.notMem_empty _)
    · rw [hpc] at h
      cases h

/-- A port is handled. -/
theorem PassInv.handle (h : PassInv b i s) {bits : Finset Nat} (hpc : s.pc = .subs bits)
    (hmem : s.nextSubSelector ∈ bits)
    (hport : s.nextTopSelector * b.evtchnsPerToplevel + s.nextSubSelector < maxEvtchn) :
    PassInv b i (({ s with
      lastEvtchnServiced := .ofNat (s.nextTopSelector * b.evtchnsPerToplevel + s.nextSubSelector)
      handled := (s.nextTopSelector * b.evtchnsPerToplevel + s.nextSubSelector) :: s.handled } :
        EventPass).next b (bits.erase s.nextSubSelector)) := by
  obtain ⟨htop, hnot, hall⟩ := h.bits bits hpc
  have hsplit (port : Nat) : port / b.evtchnsPerToplevel = s.nextTopSelector ∧
      port % b.evtchnsPerToplevel = s.nextSubSelector ↔
        port = s.nextTopSelector * b.evtchnsPerToplevel + s.nextSubSelector := port_iff h.sub
  generalize s.nextTopSelector * b.evtchnsPerToplevel + s.nextSubSelector = this at *
  obtain ⟨hthis, hbit⟩ := (hsplit this).mpr rfl
  have hmine : s.Left b i this := .inr ⟨bits, hpc, hthis, hbit.symm ▸ hmem⟩
  have hleft : ∀ port, (({ s with
      lastEvtchnServiced := .ofNat this, handled := this :: s.handled } : EventPass).next b
        (bits.erase s.nextSubSelector)).Left b i port ↔ s.Left b i port ∧ port ≠ this := by
    intro port
    constructor
    · rintro (⟨hsel, hbits⟩ | ⟨bits', hbits', hword, hbits⟩)
      · refine ⟨.inl ⟨hsel, hbits⟩, ?_⟩
        rintro rfl
        exact hnot (hthis ▸ hsel)
      · cases hbits'
        obtain ⟨hother, hbits⟩ := Finset.mem_erase.mp hbits
        exact ⟨.inr ⟨bits, hpc, hword, hbits⟩, fun heq => hother (heq ▸ hbit)⟩
    · rintro ⟨⟨hsel, hbits⟩ | ⟨bits', hbits', hword, hbits⟩, hne⟩
      · exact .inl ⟨hsel, hbits⟩
      · rw [hpc] at hbits'
        cases hbits'
        refine .inr ⟨_, rfl, hword, Finset.mem_erase.mpr ⟨fun heq => hne ?_, hbits⟩⟩
        exact (hsplit port).mp ⟨hword, heq⟩
  refine ⟨h.sel, Nat.mod_lt _ (width_pos b), fun bits' hbits => ?_, fun port => ?_, fun port hmem => ?_, ?_,
    fun port hmem => ?_⟩
  · cases hbits
    exact ⟨htop, hnot, fun sub hsub => hall sub (Finset.mem_of_mem_erase hsub)⟩
  · rw [hleft, h.due]
    by_cases heq : port = this
    · exact iff_of_true (.inr (heq ▸ hmine)) (.inl (heq ▸ List.mem_cons_self))
    · exact or_congr ⟨List.mem_cons_of_mem _, fun hin => (List.mem_cons.mp hin).resolve_left heq⟩
        ⟨fun hl => ⟨hl, heq⟩, fun hl => hl.1⟩
  · rw [hleft]
    rintro ⟨hl, hne⟩
    exact h.once port ((List.mem_cons.mp hmem).resolve_left hne) hl
  · exact List.nodup_cons.mpr ⟨fun hin => h.once this hin hmine, h.nodup⟩
  · rcases List.mem_cons.mp hmem with rfl | hmem
    · exact hport
    · exact h.small port hmem

/-- **A round keeps the invariant.** -/
theorem PassInv.step (hsized : i.Sized b) (h : PassInv b i s) {more : Bool}
    (hs : passStep b i s = some (more, s')) : PassInv b i s' := by
  have hw := width_pos b
  unfold passStep at hs
  cases hpc : s.pc with
  | tops =>
    simp only [hpc] at hs
    split at hs
    · cases hs
      exact h
    · split at hs
      · cases hs
      · next hlt =>
        split at hs
        · next hmem =>
          cases hs
          refine h.of_left (Finset.erase_subset _ _) h.sub (fun bits hbits => ?_) rfl fun port => ?_
          · cases hbits
            refine ⟨not_le.mp hlt, Finset.notMem_erase _ _, fun sub hsub => ?_⟩
            exact hsized.pending _ sub (Finset.mem_sdiff.mp hsub).1
          · constructor
            · rintro (⟨htop, hbit⟩ | ⟨bits, hbits, htop, hbit⟩)
              · exact .inl ⟨Finset.mem_of_mem_erase htop, hbit⟩
              · cases hbits
                have htop : port / b.evtchnsPerToplevel = s.nextTopSelector := htop
                exact .inl (by rw [htop]; exact ⟨hmem, hbit⟩)
            · rintro (⟨htop, hbit⟩ | ⟨bits, hbits, -⟩)
              · by_cases hthis : port / b.evtchnsPerToplevel = s.nextTopSelector
                · exact .inr ⟨_, rfl, hthis, hthis ▸ hbit⟩
                · exact .inl ⟨Finset.mem_erase.mpr ⟨hthis, htop⟩, hbit⟩
              · rw [hpc] at hbits
                cases hbits
        · cases hs
          exact h.of_left (Finset.Subset.refl _) hw (fun _ hbits => nomatch hbits) rfl
            (left_advance (.inr hpc))
  | subs bits =>
    obtain ⟨htop, hnot, hall⟩ := h.bits bits hpc
    simp only [hpc] at hs
    split at hs
    · next hempty =>
      cases hs
      exact h.of_left (Finset.Subset.refl _) hw (fun _ hbits => nomatch hbits) rfl
        (left_advance (.inl (by rw [hpc, hempty])))
    · split at hs
      · next hmem =>
        split at hs
        · cases hs
        · next hport =>
          cases hs
          exact h.handle hpc hmem (not_le.mp hport)
      · next hmem =>
        cases hs
        refine h.of_left (Finset.Subset.refl _) (Nat.mod_lt _ hw) (fun bits' hbits => ?_) rfl fun port => ?_
        · cases hbits
          exact ⟨htop, hnot, hall⟩
        · refine or_congr Iff.rfl ?_
          rw [hpc]
          exact Iff.rfl

/-! ## Termination -/

/-- How many rounds are left at most. -/
def EventPass.rank (b : Arch) (s : EventPass) : Nat :=
  match s.pc with
  | .tops => (b.evtchnsPerToplevel + 2) * extent b.evtchnsPerToplevel s.sel s.nextTopSelector
  | .subs bits =>
    (b.evtchnsPerToplevel + 2) *
        extent b.evtchnsPerToplevel s.sel ((s.nextTopSelector + 1) % b.evtchnsPerToplevel) +
      extent b.evtchnsPerToplevel bits s.nextSubSelector + 1

/-- **A round brings the pass nearer to its end.** -/
theorem rank_lt (hsized : i.Sized b) (h : PassInv b i s) (hs : passStep b i s = some (true, s')) :
    s'.rank b < s.rank b := by
  have hw := width_pos b
  unfold passStep at hs
  cases hpc : s.pc with
  | tops =>
    simp only [hpc] at hs
    split at hs
    · cases hs
    · next hsel =>
      split at hs
      · cases hs
      · next hlt =>
        have hsmaller := extent_next (fun top htop => hsized.sel top (h.sel htop)) (not_le.mp hlt)
          (Finset.nonempty_of_ne_empty hsel)
        split at hs
        · cases hs
          have hbits : extent b.evtchnsPerToplevel (i.evtchnPending s.nextTopSelector \
              i.evtchnMask s.nextTopSelector) s.nextSubSelector ≤ b.evtchnsPerToplevel := extent_le hw
          simp only [EventPass.rank, hpc]
          calc _ ≤ (b.evtchnsPerToplevel + 2) * extent b.evtchnsPerToplevel
                  (s.sel.erase s.nextTopSelector) ((s.nextTopSelector + 1) % b.evtchnsPerToplevel) +
                  b.evtchnsPerToplevel + 1 := by omega
            _ < (b.evtchnsPerToplevel + 2) * (extent b.evtchnsPerToplevel
                  (s.sel.erase s.nextTopSelector) ((s.nextTopSelector + 1) % b.evtchnsPerToplevel) + 1) := by
                rw [Nat.mul_succ]; omega
            _ ≤ _ := Nat.mul_le_mul_left _ hsmaller
        · next hnot =>
          cases hs
          rw [Finset.erase_eq_of_notMem hnot] at hsmaller
          simp only [EventPass.rank, hpc, EventPass.advance]
          exact Nat.mul_lt_mul_of_pos_left hsmaller (Nat.succ_pos _)
  | subs bits =>
    obtain ⟨-, -, hall⟩ := h.bits bits hpc
    simp only [hpc] at hs
    split at hs
    · cases hs
      simp only [EventPass.rank, hpc, EventPass.advance]
      omega
    · next hbits =>
      have hsmaller := extent_next hall h.sub (Finset.nonempty_of_ne_empty hbits)
      split at hs
      · split at hs
        · cases hs
        · cases hs
          simp only [EventPass.rank, hpc, EventPass.next]
          omega
      · next hnot =>
        cases hs
        rw [Finset.erase_eq_of_notMem hnot] at hsmaller
        simp only [EventPass.rank, hpc, EventPass.next]
        omega

/-! ## A pass -/

/-- The states that a pass comes to have the invariant, and a position if there is anything to be done. -/
theorem visited_inv (hsized : i.Sized b) (h : Visits (passStep b i) (beginPass b i last) s) :
    PassInv b i s :=
  h.invariant passInv_begin fun _ _ hinv hs => hinv.step hsized hs

/-- The position of a pass stays one. -/
theorem visited_position (hstart : (beginPass b i last).nextTopSelector < b.evtchnsPerToplevel)
    (h : Visits (passStep b i) (beginPass b i last) s) : s.nextTopSelector < b.evtchnsPerToplevel := by
  refine h.invariant (P := fun s => s.nextTopSelector < b.evtchnsPerToplevel) hstart fun u t hu hs => ?_
  have hadvance : (u.advance b).nextTopSelector < b.evtchnsPerToplevel := Nat.mod_lt _ (width_pos b)
  unfold passStep at hs
  split at hs
  · split at hs
    · cases hs
    · split at hs
      · cases hs
      · split at hs
        · cases hs
          exact hu
        · cases hs
          exact hadvance
  · split at hs
    · cases hs
      exact hadvance
    · split at hs
      · dsimp only at hs
        split at hs
        · cases hs
        · cases hs
          exact hu
      · cases hs
        exact hu

/-- A pass that is left has handled what was due. -/
theorem scansRight_of_loop (hsized : i.Sized b) (h : Loop (passStep b i) (beginPass b i last) s) :
    s.sel = ∅ ∧ s.handled.Nodup ∧ (∀ port, port ∈ s.handled ↔ i.Due b port) ∧
      ∀ port ∈ s.handled, port < maxEvtchn := by
  obtain ⟨u, hu, hlast⟩ := h.exists_last
  have hinv := visited_inv hsized hu
  have hend : u = s ∧ s.sel = ∅ ∧ s.pc = .tops := by
    unfold passStep at hlast
    split at hlast
    · next hpc =>
      split at hlast
      · next hempty =>
        cases hlast
        exact ⟨rfl, hempty, hpc⟩
      · split at hlast
        · cases hlast
        · split at hlast <;> cases hlast
    · split at hlast
      · cases hlast
      · split at hlast
        · dsimp only at hlast
          split at hlast <;> cases hlast
        · cases hlast
  obtain ⟨rfl, hempty, hpc⟩ := hend
  refine ⟨hempty, hinv.nodup, fun port => ?_, hinv.small⟩
  rw [hinv.due]
  refine (or_iff_left ?_).symm
  rintro (⟨hsel, -⟩ | ⟨bits, hbits, -⟩)
  · rw [hempty] at hsel
    exact absurd hsel (Finset.notMem_empty _)
  · rw [hpc] at hbits
    cases hbits

/-- **A pass is right** just if there is nothing to be done, or the counter is a position and all ports that
are due have an entry. -/
theorem scansRight_iff (hsized : i.Sized b) : ScansRight b i last ↔ Orderly b i last := by
  constructor
  · rintro ⟨s, hloop, -⟩
    obtain ⟨-, -, hdue, hsmall⟩ := scansRight_of_loop hsized hloop
    by_cases hsel : i.sel = ∅
    · exact .inl hsel
    · refine .inr ⟨?_, fun port hport => hsmall port ((hdue port).mpr hport)⟩
      by_contra hlarge
      have hfirst : passStep b i (beginPass b i last) = none := by
        rw [passStep]
        exact (if_neg hsel).trans (if_pos (not_lt.mp hlarge))
      cases hloop with
      | again hs => rw [hfirst] at hs; cases hs
      | last hs => rw [hfirst] at hs; cases hs
  · intro h
    have hends : ∃ s, Loop (passStep b i) (beginPass b i last) s := by
      rcases h with hsel | ⟨hstart, hports⟩
      · exact ⟨_, .last (if_pos hsel)⟩
      · have hhalts : Halts (passStep b i) (beginPass b i last) :=
          halts_of_rank (EventPass.rank b) fun u t hu hs => rank_lt hsized (visited_inv hsized hu) hs
        refine hhalts.exists_loop fun u hu => ?_
        have hinv := visited_inv hsized hu
        have hposition := visited_position hstart hu
        unfold passStep
        split
        · split
          · exact fun h => nomatch h
          · rw [if_neg (not_le.mpr hposition)]
            split <;> exact fun h => nomatch h
        · next bits hpc =>
          split
          · exact fun h => nomatch h
          · split
            · next hmem =>
              obtain ⟨hword, hbit⟩ := (port_iff hinv.sub).mpr (rfl :
                u.nextTopSelector * b.evtchnsPerToplevel + u.nextSubSelector = _)
              have hdue := (hinv.due _).mpr (.inr (.inr ⟨bits, hpc, hword, hbit.symm ▸ hmem⟩))
              dsimp only
              rw [if_neg (not_le.mpr (hports _ hdue))]
              exact fun h => nomatch h
            · exact fun h => nomatch h
    obtain ⟨s, hloop⟩ := hends
    obtain ⟨hsel, hnodup, hdue, -⟩ := scansRight_of_loop hsized hloop
    exact ⟨s, hloop, hsel, hnodup, hdue⟩

end Round

/-! ## Runs of passes -/

/-- A pass with these words takes the counter from `last` to `last'`. -/
def PassLeads (b : Arch) (last : UInt32) (i : SharedWords) (last' : UInt32) : Prop :=
  i.Sized b ∧ ∃ s, Loop (passStep b i) (beginPass b i last) s ∧ s.lastEvtchnServiced = last'

/-- The values of the counter that passes lead to, if they are orderly. -/
abbrev Counted (b : Arch) : UInt32 → Prop :=
  Reachable (fun last => last = 0) (PassLeads b) fun last i => Orderly b i last

/-- Nothing is selected. -/
def nothingSelected : SharedWords := ⟨∅, fun _ => ∅, fun _ => ∅⟩

theorem passLeads_nothing (b : Arch) (last : UInt32) : PassLeads b last nothingSelected (last + 1) := by
  have hend : passStep b nothingSelected (beginPass b nothingSelected last) =
      some (false, beginPass b nothingSelected last) := rfl
  exact ⟨⟨fun _ h => absurd h (Finset.notMem_empty _), fun _ _ h => absurd h (Finset.notMem_empty _)⟩,
    _, .last hend, rfl⟩

/-- **The counter comes to every value**, by passes that serve nothing. -/
theorem counted (b : Arch) (last : UInt32) : Counted b last := by
  have hall : ∀ n : Nat, Counted b (.ofNat n) := by
    intro n
    induction n with
    | zero => exact .start rfl
    | succ n ih =>
      rw [UInt32.ofNat_add]
      exact .next ih (.inl rfl) (passLeads_nothing b _)
  have hlast := hall last.toNat
  rwa [UInt32.ofNat_toNat] at hlast

/-- **The passes of a run** are right just where they are orderly, and orderly passes let the counter come to
every value. -/
theorem passes_right_iff (b : Arch) : (∀ last, Counted b last) ∧
    ∀ last (i : SharedWords), i.Sized b → (ScansRight b i last ↔ Orderly b i last) :=
  ⟨counted b, fun _ _ hsized => scansRight_iff hsized⟩

/-- Port 3 is pending. -/
def portThree : SharedWords := ⟨{0}, fun _ => {3}, fun _ => ∅⟩

theorem portThree_sized : portThree.Sized .x86 :=
  ⟨by decide, fun top sub hsub => by rw [Finset.mem_singleton.mp hsub]; decide⟩

/-- The first pass of all handles it. -/
theorem portThree_handled : ScansRight .x86 portThree 0 := by
  refine ((passes_right_iff .x86).2 0 portThree portThree_sized).mpr (.inr ⟨by decide, ?_⟩)
  rintro port ⟨hword, -⟩
  have hword : port / 32 = 0 := Finset.mem_singleton.mp hword
  show port < 256
  omega

/-- After 1023 passes that served nothing, the word that is looked at is the 32nd. -/
theorem portThree_lost : ¬ ∀ (b : Arch) (last : UInt32) (i : SharedWords), Counted b last → i.Sized b →
    ScansRight b i last := by
  intro h
  obtain ⟨s, hloop, -⟩ := h .x86 1023 portThree (counted .x86 1023) portThree_sized
  have hfirst : passStep .x86 portThree (beginPass .x86 portThree 1023) = none := by
    decide
  cases hloop with
  | again hs => rw [hfirst] at hs; cases hs
  | last hs => rw [hfirst] at hs; cases hs

end V4v.Xenutil
