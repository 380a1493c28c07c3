import LegacyV4v.ConnectorLoop
import Mathlib.Data.List.Nodup

/-! # Which reads a connector completes

`V4vProcessConnectorReads` on the ring in memory, whatever it holds.  Its loop keeps an IRP in hand while it
throws messages away, and remembers this in `retain`.  When the next message cannot be read, the IRP in hand is
completed and the ring is emptied, but `retain` is left as it is: the loop finds the ring empty and puts the
completed IRP back into the queue, or, when the queue is full, completes it again.

This happens when a message to be thrown away is followed by one that `v4v_copy_out` refuses, and a read meets
them.  In all other rings each IRP is completed once or stays queued; and always the payloads of the peer's
messages that are taken from the ring go to the reads that succeed, one each, in their order. -/
namespace V4v.Windows
open MachineWord
open Linux (StreamHeader shfSyn shfAck shfRst drained sizeofStreamHeader)

/-! ## Where it goes wrong -/

/-- A read meets a message that is thrown away, and `v4v_copy_out` refuses the next one.  `reads` are the reads
in the queue, `m` is the ring. -/
inductive Spoils (x : FileContext) : List Pending → PageMem → Prop
  | torn {irp : Pending} {reads : List Pending} {m : PageMem} : ¬ drained m → irp.Plain →
      headCase x m = .discard → ¬ drained (dropHead m) → headCase x (dropHead m) = .refused →
      Spoils x (irp :: reads) m
  | discard {irp : Pending} {reads : List Pending} {m : PageMem} : ¬ drained m → irp.Plain →
      headCase x m = .discard → Spoils x (irp :: reads) (dropHead m) → Spoils x (irp :: reads) m
  | ioctl {irp : Pending} {reads : List Pending} {m : PageMem} : ¬ drained m → ¬ irp.Plain →
      Spoils x reads m → Spoils x (irp :: reads) m
  | small {irp : Pending} {reads : List Pending} {m : PageMem} {n : Nat} : ¬ drained m → irp.Plain →
      headCase x m = .data n → irp.length.toNat < n → Spoils x reads m → Spoils x (irp :: reads) m
  | fits {irp : Pending} {reads : List Pending} {m : PageMem} {n : Nat} : ¬ drained m → irp.Plain →
      headCase x m = .data n → n ≤ irp.length.toNat → Spoils x reads (dropHead m) → Spoils x (irp :: reads) m

section Spoils
variable {x : FileContext} {irp : Pending} {reads : List Pending} {m : PageMem} {n : Nat}

theorem spoils_drained (h : drained m) : ¬ Spoils x reads m := by
  intro hs
  cases hs with
  | torn hm | discard hm | ioctl hm | small hm | fits hm => exact hm h

theorem spoils_nil : ¬ Spoils x [] m := by
  intro hs
  cases hs

theorem spoils_ioctl (reads : List Pending) (hm : ¬ drained m) (hirp : ¬ irp.Plain) :
    Spoils x (irp :: reads) m ↔ Spoils x reads m := by
  constructor
  · intro hs
    cases hs with
    | ioctl _ _ hs => exact hs
    | torn _ hplain | discard _ hplain | small _ hplain | fits _ hplain => exact absurd hplain hirp
  · exact .ioctl hm hirp

theorem spoils_stop (hirp : irp.Plain) (h : headCase x m = .refused ∨ headCase x m = .rst) :
    ¬ Spoils x (irp :: reads) m := by
  intro hs
  cases hs with
  | torn _ _ hcase | discard _ _ hcase | small _ _ hcase | fits _ _ hcase =>
    rw [hcase] at h
    rcases h with h | h <;> cases h
  | ioctl _ hioctl => exact hioctl hirp

theorem spoils_discard (reads : List Pending) (hm : ¬ drained m) (hirp : irp.Plain) (h : headCase x m = .discard) :
    Spoils x (irp :: reads) m ↔ ¬ drained (dropHead m) ∧ headCase x (dropHead m) = .refused ∨
      Spoils x (irp :: reads) (dropHead m) := by
  constructor
  · intro hs
    cases hs with
    | torn _ _ _ hnext hrefused => exact .inl ⟨hnext, hrefused⟩
    | discard _ _ _ hs => exact .inr hs
    | ioctl _ hioctl => exact absurd hirp hioctl
    | small _ _ hcase | fits _ _ hcase =>
      rw [h] at hcase
      cases hcase
  · rintro (⟨hnext, hrefused⟩ | hs)
    · exact .torn hm hirp h hnext hrefused
    · exact .discard hm hirp h hs

theorem spoils_data (reads : List Pending) (hm : ¬ drained m) (hirp : irp.Plain) (h : headCase x m = .data n) :
    Spoils x (irp :: reads) m ↔
      if irp.length.toNat < n then Spoils x reads m else Spoils x reads (dropHead m) := by
  constructor
  · intro hs
    cases hs with
    | torn _ _ hcase | discard _ _ hcase =>
      rw [h] at hcase
      cases hcase
    | ioctl _ hioctl => exact absurd hirp hioctl
    | small _ _ hcase hlt hs =>
      obtain rfl := HeadCase.data.inj (h.symm.trans hcase)
      rwa [if_pos hlt]
    | fits _ _ hcase hle hs =>
      obtain rfl := HeadCase.data.inj (h.symm.trans hcase)
      rwa [if_neg (Nat.not_lt.mpr hle)]
  · intro hs
    split at hs
    · next hlt => exact .small hm hirp h hlt hs
    · next hle => exact .fits hm hirp h (Nat.not_lt.mp hle) hs

theorem not_refused_of_holds {q : List Message} (h : m.Holds q) (hm : ¬ drained m) :
    headCase x m ≠ .refused := by
  intro hrefused
  cases q with
  | nil => exact hm h.empty.symm
  | cons msg q =>
    rcases headCase_cases x m with ⟨-, hret⟩ | hdiscard | ⟨-, hif⟩
    · rw [(HeadIs.of_holds h).ret] at hret
      omega
    · rw [hrefused] at hdiscard
      cases hdiscard
    · rw [hrefused] at hif
      split at hif <;> cases hif

theorem holds_dropHead {q : List Message} (h : m.Holds q) (hm : ¬ drained m) : ∃ q', (dropHead m).Holds q' := by
  cases q with
  | nil => exact absurd h.empty.symm hm
  | cons msg q => exact ⟨q, dropHead_holds h⟩

/-- In a ring that holds a queue of messages nothing goes wrong. -/
theorem not_spoils_of_holds {q : List Message} (h : m.Holds q) : ¬ Spoils x reads m := by
  intro hs
  induction hs generalizing q with
  | torn hm _ _ hnext hrefused =>
    obtain ⟨q', hq'⟩ := holds_dropHead h hm
    exact not_refused_of_holds hq' hnext hrefused
  | discard hm _ _ _ ih | fits hm _ _ _ _ ih =>
    obtain ⟨q', hq'⟩ := holds_dropHead h hm
    exact ih hq'
  | ioctl _ _ _ ih | small _ _ _ _ _ ih => exact ih h

end Spoils

/-! ## The IRPs of a call -/

namespace Device

/-- How often the IRP is queued or was completed. -/
def tally (s : Device) (irp : Pending) : Nat :=
  s.queue.count irp + (s.completed.map Completion.irp).count irp

variable {s s' : Device} {irp : Pending} {c : Nat}

theorem tally_complete (s : Device) (irp : Pending) (status : NtStatus) (data : List UInt8) (y : Pending) :
    (s.complete irp status data).tally y = s.tally y + [irp].count y := by
  unfold tally complete
  rw [List.map_append, List.count_append]
  exact (Nat.add_assoc ..).symm

theorem tally_removeNextIrp {qp : QPeek} (h : s.removeNextIrp qp = some (irp, s')) (y : Pending) :
    s.tally y = s'.tally y + [irp].count y := by
  obtain ⟨-, l₁, l₂, hq, rfl, -⟩ := removeNextIrp_some h
  unfold tally
  rw [hq]
  dsimp only
  rw [List.count_append, List.count_append, ← List.singleton_append, List.count_append]
  omega

/-- The writes that `V4vCancelAllFileIrps` completes were in the queue. -/
theorem tally_disconnect (s : Device) (c : Nat) (y : Pending) :
    (s.disconnectStreamAndSignal c).tally y = s.tally y := by
  have hperm := (List.filter_append_perm (Pending.test (writePeek c)) s.queue).count_eq y
  rw [List.count_append] at hperm
  have hcancelled : ∀ l : List Pending,
      (l.map fun x => (⟨x, .cancelled, []⟩ : Completion)).map Completion.irp = l := by
    intro l
    rw [List.map_map]
    exact List.map_id l
  unfold tally disconnectStreamAndSignal cancelAllFileIrps setContext
  dsimp only
  rw [List.map_append, hcancelled, List.count_append]
  omega

end Device

namespace ReadLoop
variable {s s' : ReadLoop} {c : Nat} {insert : InsertStatus} {irp : Pending} {n : Nat}

/-- The IRP that is kept. -/
def inHand (s : ReadLoop) : List Pending := if s.retain then s.nextIrp.toList else []

/-- The reads that the loop will come to. -/
def reads (s : ReadLoop) (c : Nat) : List Pending := s.inHand ++ s.device.reads c

/-- How often the IRP is queued, was completed, or is in hand. -/
def tally (s : ReadLoop) (y : Pending) : Nat := s.device.tally y + s.inHand.count y

/-- What the loop keeps: an IRP in hand is no IOCTL. -/
def Keeps (s : ReadLoop) : Prop := s.retain = true → ∃ irp, s.nextIrp = some irp ∧ irp.Plain

/-- The IRP in hand will be completed, and put back. -/
def Bad (s : ReadLoop) (c : Nat) : Prop :=
  s.retain = true ∧ ¬ drained s.ring ∧ headCase (s.device.contexts c) s.ring = .refused ∨
    Spoils (s.device.contexts c) (s.reads c) s.ring

theorem inHand_free (h : s.retain = false) : s.inHand = [] := by
  unfold inHand
  rw [h, if_neg Bool.false_ne_true]

theorem inHand_kept (h : s.retain = true) (hnext : s.nextIrp = some irp) : s.inHand = [irp] := by
  unfold inHand
  rw [h, if_pos rfl, hnext]
  rfl

theorem keeps_free (h : s.retain = false) : s.Keeps := by
  intro hretain
  rw [h] at hretain
  cases hretain

theorem bad_free (h : s.retain = false) :
    s.Bad c ↔ Spoils (s.device.contexts c) (s.device.reads c) s.ring := by
  unfold Bad reads
  rw [inHand_free h, h, List.nil_append]
  simp

theorem bad_kept (h : s.retain = true) (hnext : s.nextIrp = some irp) :
    s.Bad c ↔ ¬ drained s.ring ∧ headCase (s.device.contexts c) s.ring = .refused ∨
      Spoils (s.device.contexts c) (irp :: s.device.reads c) s.ring := by
  unfold Bad reads
  rw [inHand_kept h hnext, h, List.singleton_append]
  simp

/-- In an empty ring nothing goes wrong. -/
theorem bad_drained (h : drained s.ring) : ¬ s.Bad c := by
  rintro (⟨-, hm, -⟩ | hs)
  · exact hm h
  · exact spoils_drained h hs

theorem tally_free (h : s.retain = false) (y : Pending) : s.tally y = s.device.tally y := by
  unfold tally
  rw [inHand_free h]
  rfl

theorem tally_kept (h : s.retain = true) (hnext : s.nextIrp = some irp) (y : Pending) :
    s.tally y = s.device.tally y + [irp].count y := by
  unfold tally
  rw [inHand_kept h hnext]

/-- What `take` does: `irp` comes from the hand or from the queue, and is in hand then. -/
structure Takes (s : ReadLoop) (c : Nat) (irp : Pending) (t : ReadLoop) : Prop where
  ring : t.ring = s.ring
  retain : t.retain = s.retain
  nextIrp : t.nextIrp = some irp
  kept : s.retain = true → s.nextIrp = some irp
  contexts : t.device.contexts = s.device.contexts
  completed : t.device.completed = s.device.completed
  taken : t.taken = s.taken
  resets : t.resets = s.resets
  reads : s.reads c = irp :: t.device.reads c
  tally : ∀ y, s.tally y = t.device.tally y + [irp].count y

theorem take_some (h : s.take c = some (irp, s')) : s.Takes c irp s' := by
  unfold take at h
  rcases Bool.eq_false_or_eq_true s.retain with hretain | hretain
  · rw [if_pos hretain] at h
    obtain ⟨x, hx, heq⟩ := Option.map_eq_some_iff.mp h
    obtain ⟨rfl, rfl⟩ := Prod.mk.inj heq
    have hhand := inHand_kept hretain hx
    refine ⟨rfl, rfl, hx, fun _ => hx, rfl, rfl, rfl, rfl, ?_, fun y => tally_kept hretain hx y⟩
    unfold ReadLoop.reads
    rw [hhand, List.singleton_append]
  · rw [hretain, if_neg Bool.false_ne_true] at h
    obtain ⟨⟨x, device⟩, hx, heq⟩ := Option.map_eq_some_iff.mp h
    obtain ⟨rfl, rfl⟩ := Prod.mk.inj heq
    have hreads := Device.reads_of_removeNextIrp hx
    have htally := Device.tally_removeNextIrp hx
    obtain ⟨-, l₁, l₂, -, rfl, -⟩ := Device.removeNextIrp_some hx
    refine ⟨rfl, hretain.symm, rfl, fun hkept => ?_, rfl, rfl, rfl, rfl, ?_, fun y => ?_⟩
    · rw [hretain] at hkept
      cases hkept
    · unfold ReadLoop.reads
      rw [inHand_free hretain, List.nil_append]
      exact hreads
    · rw [tally_free hretain]
      exact htally y

theorem take_none (hk : s.Keeps) (h : s.take c = none) : s.retain = false ∧ s.reads c = [] := by
  unfold take at h
  unfold reads inHand
  cases hretain : s.retain with
  | true =>
    obtain ⟨irp, hirp, -⟩ := hk hretain
    rw [hretain, if_pos rfl, hirp] at h
    cases h
  | false =>
    rw [hretain, if_neg Bool.false_ne_true] at h
    exact ⟨rfl, Device.reads_eq_nil (Option.map_eq_none_iff.mp h)⟩

/-- At the end no IRP is in hand any more. -/
theorem tally_requeue (hk : s.Keeps) (y : Pending) : (s.requeue insert).device.tally y = s.tally y := by
  unfold tally inHand requeue
  cases hretain : s.retain with
  | false => rfl
  | true =>
    obtain ⟨irp, hirp, -⟩ := hk hretain
    rw [hirp]
    cases insert with
    | success =>
      unfold Device.tally
      dsimp only
      rw [← List.singleton_append, List.count_append]
      simp only [if_true, Option.toList_some]
      omega
    | quotaExceeded => exact Device.tally_complete ..
    | noMemory => exact Device.tally_complete ..

theorem drained_recover (m : PageMem) : drained (v4vRecoverRing m) := Linux.drained_recoverRing m

/-- A round with `irp` in hand after which the loop goes on. -/
theorem handle_next {t : ReadLoop} (hk : s.retain = true → irp.Plain) (hnext : s.nextIrp = some irp)
    (hm : ¬ drained s.ring) (h : s.handle c irp = (true, t)) :
    t.Keeps ∧
      ((∀ y, t.tally y = s.device.tally y + [irp].count y) ∧
          (t.Bad c ↔ s.retain = true ∧ headCase (s.device.contexts c) s.ring = .refused ∨
            Spoils (s.device.contexts c) (irp :: s.device.reads c) s.ring) ∨
        s.retain = true ∧ headCase (s.device.contexts c) s.ring = .refused ∧ drained t.ring ∧
          ∀ y, t.tally y = s.device.tally y + [irp].count y + [irp].count y) := by
  by_cases hirp : irp.Plain
  · cases hcase : headCase (s.device.contexts c) s.ring with
    | refused =>
      rw [handle_refused hirp hcase] at h
      obtain rfl := (Prod.mk.inj h).2
      cases hretain : s.retain with
      | false =>
        refine ⟨keeps_free hretain, .inl ⟨fun y => ?_, iff_of_false (bad_drained (drained_recover _)) ?_⟩⟩
        · refine (tally_free ?_ y).trans (Device.tally_complete ..)
          exact hretain
        · rintro (⟨hkept, -⟩ | hs)
          · exact Bool.false_ne_true hkept
          · exact spoils_stop hirp (.inl hcase) hs
      | true =>
        -- the IRP is completed, and is still in hand
        refine ⟨fun _ => ⟨irp, hnext, hirp⟩, .inr ⟨rfl, rfl, drained_recover _, fun y => ?_⟩⟩
        refine (tally_kept ?_ ?_ y).trans (congrArg (· + [irp].count y) (Device.tally_complete ..))
        · exact hretain
        · exact hnext
    | discard =>
      obtain ⟨resets, hhandle⟩ := handle_discard (s := s) hirp hcase
      rw [hhandle] at h
      obtain rfl := (Prod.mk.inj h).2
      refine ⟨fun _ => ⟨irp, hnext, hirp⟩, .inl ⟨fun y => ?_, ?_⟩⟩
      · exact tally_kept (s := consume { s with retain := true } (dropHead s.ring) resets) rfl hnext y
      have hspoils := spoils_discard (s.device.reads c) hm hirp hcase
      refine (bad_kept ?_ ?_).trans (hspoils.symm.trans ?_)
      · rfl
      · exact hnext
      · simp
    | rst =>
      rw [handle_rst hirp hcase] at h
      cases (Prod.mk.inj h).1
    | data n =>
      obtain ⟨msg, -, -, hhandle⟩ := handle_data (s := s) hirp hcase
      have hspoils := spoils_data (s.device.reads c) hm hirp hcase
      rw [hhandle] at h
      split at h
      · next hlt =>
        obtain rfl := (Prod.mk.inj h).2
        rw [if_pos hlt] at hspoils
        refine ⟨keeps_free rfl, .inl ⟨fun y => (tally_free rfl y).trans (Device.tally_complete ..), ?_⟩⟩
        refine (bad_free ?_).trans (hspoils.symm.trans ?_)
        · rfl
        · simp
      · next hlt =>
        obtain rfl := (Prod.mk.inj h).2
        rw [if_neg hlt] at hspoils
        refine ⟨keeps_free rfl, .inl ⟨fun y => (tally_free rfl y).trans (Device.tally_complete ..), ?_⟩⟩
        refine (bad_free ?_).trans (hspoils.symm.trans ?_)
        · rfl
        · simp
  · have hretain : s.retain = false := by
      rcases Bool.eq_false_or_eq_true s.retain with hkept | hfree
      · exact absurd (hk hkept) hirp
      · exact hfree
    rw [handle_ioctl hirp] at h
    obtain rfl := (Prod.mk.inj h).2
    have hspoils := spoils_ioctl (x := s.device.contexts c) (s.device.reads c) hm hirp
    refine ⟨keeps_free hretain, .inl ⟨fun y => ?_, ?_⟩⟩
    · refine (tally_free ?_ y).trans (Device.tally_complete ..)
      exact hretain
    · refine (bad_free ?_).trans (hspoils.symm.trans ?_)
      · exact hretain
      · simp [hretain]

/-- A round with `irp` in hand that is the last: nothing went wrong. -/
theorem handle_last {t : ReadLoop} (h : s.handle c irp = (false, t)) :
    irp.Plain ∧ headCase (s.device.contexts c) s.ring = .rst ∧
      ∀ y, t.device.tally y = s.device.tally y + [irp].count y := by
  by_cases hirp : irp.Plain
  · cases hcase : headCase (s.device.contexts c) s.ring with
    | refused =>
      rw [handle_refused hirp hcase] at h
      cases (Prod.mk.inj h).1
    | discard =>
      obtain ⟨resets, hhandle⟩ := handle_discard (s := s) hirp hcase
      rw [hhandle] at h
      cases (Prod.mk.inj h).1
    | rst =>
      rw [handle_rst hirp hcase] at h
      obtain rfl := (Prod.mk.inj h).2
      refine ⟨hirp, rfl, fun y => ?_⟩
      rw [← s.device.tally_disconnect c y]
      exact Device.tally_complete ..
    | data n =>
      obtain ⟨msg, -, -, hhandle⟩ := handle_data (s := s) hirp hcase
      rw [hhandle] at h
      split at h <;> cases (Prod.mk.inj h).1
  · rw [handle_ioctl hirp] at h
    cases (Prod.mk.inj h).1

/-- What a round is: the last one on an empty ring, the last one without a read, or one that handles the message
at the head. -/
theorem round_cases (s : ReadLoop) (c : Nat) (insert : InsertStatus) :
    drained s.ring ∧ s.round c insert = (false, { s.noted.requeue insert with event := false }) ∨
      ¬ drained s.ring ∧ s.noted.take c = none ∧ s.round c insert = (false, { s.noted with event := true }) ∨
      ¬ drained s.ring ∧ ∃ irp t, s.noted.take c = some (irp, t) ∧ s.round c insert = t.handle c irp := by
  by_cases hm : drained s.ring
  · exact .inl ⟨hm, if_pos hm⟩
  · refine .inr ?_
    have hround : s.round c insert = _ := if_neg hm
    cases htake : s.noted.take c with
    | none =>
      rw [htake] at hround
      exact .inl ⟨hm, rfl, hround⟩
    | some o =>
      rw [htake] at hround
      exact .inr ⟨hm, o.1, o.2, rfl, hround⟩

theorem Takes.plain {t : ReadLoop} (h : s.Takes c irp t) (hk : s.Keeps) (hretain : t.retain = true) :
    irp.Plain := by
  obtain ⟨irp', hirp', hplain⟩ := hk (h.retain ▸ hretain)
  rw [h.kept (h.retain ▸ hretain)] at hirp'
  exact Option.some.inj hirp' ▸ hplain

/-- **One round**: an IRP is queued, completed or in hand as often as before; or things go wrong, now. -/
theorem round_next {t : ReadLoop} (hk : s.Keeps) (h : s.round c insert = (true, t)) :
    t.Keeps ∧
      ((∀ y, t.tally y = s.tally y) ∧ (t.Bad c ↔ s.Bad c) ∨
        s.Bad c ∧ drained t.ring ∧ ∃ irp, ∀ y, t.tally y = s.tally y + [irp].count y) := by
  rcases round_cases s c insert with ⟨-, hround⟩ | ⟨-, -, hround⟩ | ⟨hm, irp, s₁, htake, hround⟩
  · cases (Prod.mk.inj (hround.symm.trans h)).1
  · cases (Prod.mk.inj (hround.symm.trans h)).1
  have ht := take_some htake
  have hm₁ : ¬ drained s₁.ring := ht.ring ▸ hm
  have hbad : s.Bad c ↔ s₁.retain = true ∧ headCase (s₁.device.contexts c) s₁.ring = .refused ∨
      Spoils (s₁.device.contexts c) (irp :: s₁.device.reads c) s₁.ring := by
    rw [ht.retain, ht.contexts, ht.ring, ← ht.reads]
    unfold Bad
    simp only [hm, not_false_iff, true_and]
    rfl
  obtain ⟨hkeeps, ⟨htally, hiff⟩ | ⟨hretain, hrefused, hdrained, htally⟩⟩ :=
    handle_next (ht.plain hk) ht.nextIrp hm₁ (hround.symm.trans h)
  · exact ⟨hkeeps, .inl ⟨fun y => (htally y).trans (ht.tally y).symm, hiff.trans hbad.symm⟩⟩
  · refine ⟨hkeeps, .inr ⟨hbad.mpr (.inl ⟨hretain, hrefused⟩), hdrained, irp, fun y => ?_⟩⟩
    rw [htally y, ← ht.tally y]
    rfl

/-- The last round: all went well. -/
theorem round_last {t : ReadLoop} (hk : s.Keeps) (h : s.round c insert = (false, t)) :
    (∀ y, t.device.tally y = s.tally y) ∧ ¬ s.Bad c := by
  rcases round_cases s c insert with ⟨hm, hround⟩ | ⟨-, htake, hround⟩ | ⟨-, irp, s₁, htake, hround⟩
  · obtain rfl := (Prod.mk.inj (hround.symm.trans h)).2
    exact ⟨tally_requeue (s := s.noted) hk, bad_drained hm⟩
  · obtain rfl := (Prod.mk.inj (hround.symm.trans h)).2
    obtain ⟨hretain, hreads⟩ := take_none (s := s.noted) hk htake
    refine ⟨fun y => (tally_free hretain y).symm, ?_⟩
    rintro (⟨hkept, -⟩ | hs)
    · exact Bool.false_ne_true (hretain.symm.trans hkept)
    · rw [show s.reads c = [] from hreads] at hs
      exact spoils_nil hs
  · have ht := take_some htake
    obtain ⟨hirp, hcase, htally⟩ := handle_last (hround.symm.trans h)
    refine ⟨fun y => (htally y).trans (ht.tally y).symm, ?_⟩
    rw [ht.contexts, ht.ring] at hcase
    rintro (⟨-, -, hrefused⟩ | hs)
    · cases hcase.symm.trans hrefused
    · rw [show s.reads c = _ from ht.reads] at hs
      exact spoils_stop hirp (.inr hcase) hs

theorem run_last {t : ReadLoop} (h : s.round c insert = (false, t)) : run c insert (n + 1) s = some t := by
  unfold run
  rw [h]
  rfl

theorem run_more {t : ReadLoop} (h : s.round c insert = (true, t)) :
    run c insert (n + 1) s = run c insert n t :=
  congrArg (fun o : Bool × ReadLoop => if o.1 then run c insert n o.2 else some o.2) h

/-- **Each IRP once**: from any state of the loop, an IRP is in the end queued or completed as often as it was
queued, completed or in hand, unless things go wrong. -/
theorem run_tally (hk : s.Keeps) (h : run c insert n s = some s') :
    (∀ y, s'.device.tally y = s.tally y) ↔ ¬ s.Bad c := by
  induction n generalizing s with
  | zero => cases h
  | succ n ih =>
    rcases hround : s.round c insert with ⟨on, t⟩
    cases on with
    | true =>
      rw [run_more hround] at h
      obtain ⟨hkeeps, ⟨htally, hbad⟩ | ⟨hbad, hdrained, irp, htally⟩⟩ := round_next hk hround
      · rw [← hbad, ← ih hkeeps h]
        simp only [htally]
      · -- the IRP is once too often
        have hrest := (ih hkeeps h).mpr (bad_drained hdrained)
        refine iff_of_false (fun hall => ?_) (not_not.mpr hbad)
        have hone := (hrest irp).symm.trans (hall irp)
        rw [htally irp, List.count_singleton_self] at hone
        omega
    | false =>
      rw [run_last hround] at h
      obtain rfl := Option.some.inj h
      obtain ⟨htally, hbad⟩ := round_last hk hround
      exact iff_of_true htally hbad

/-! ### A ring with a queue of messages -/

/-- The IRP that is kept, if there is one. -/
def kept (s : ReadLoop) : Option Pending := if s.retain then s.nextIrp else none

/-- The connector, when the ring holds `q`. -/
def connector (s : ReadLoop) (q : List Message) : Connector := ⟨s.device, q, s.resets⟩

theorem take_nextRead (hk : s.Keeps) :
    s.device.nextRead c s.kept = (s.take c).map fun o => (o.1, o.2.device) := by
  unfold kept take
  rcases Bool.eq_false_or_eq_true s.retain with hretain | hretain
  · obtain ⟨irp, hirp, -⟩ := hk hretain
    rw [hretain, hirp]
    rfl
  · rw [hretain, if_neg Bool.false_ne_true, if_neg Bool.false_ne_true, Option.map_map]
    exact Option.map_id'.symm

/-- An IRP that is kept goes back into the queue, if the queue is not full. -/
theorem requeue_putBack (hk : s.Keeps) :
    ∃ insert, (s.connector []).processConnectorReads c s.kept = (s.requeue insert).connector [] := by
  rw [Connector.processConnectorReads_nil rfl]
  unfold kept requeue
  rcases Bool.eq_false_or_eq_true s.retain with hretain | hretain
  · obtain ⟨irp, hirp, -⟩ := hk hretain
    rw [hretain, hirp]
    by_cases hfull : s.device.queue.length = maxIrpCount
    · refine ⟨.quotaExceeded, ?_⟩
      rw [if_pos rfl]
      dsimp only
      rw [show (s.connector []).device.putBack irp = s.device.complete irp .quotaExceeded [] from if_pos hfull]
      rfl
    · refine ⟨.success, ?_⟩
      rw [if_pos rfl]
      dsimp only
      rw [show (s.connector []).device.putBack irp = _ from if_neg hfull]
      rfl
  · rw [hretain]
    exact ⟨.success, rfl⟩

theorem requeue_ring (s : ReadLoop) (insert : InsertStatus) : (s.requeue insert).ring = s.ring := by
  unfold requeue
  split
  · cases insert <;> rfl
  · rfl

/-- **Refinement**: on a ring that holds a queue of messages the loop returns, and does to the device and to the
queue what `processConnectorReads` does. -/
theorem run_holds {q : List Message} (hk : s.Keeps) (h : s.ring.Holds q) (hn : (s.connector q).size s.kept < n) :
    ∃ insert t q', run c insert n s = some t ∧ t.ring.Holds q' ∧
      (s.connector q).processConnectorReads c s.kept = t.connector q' := by
  induction n generalizing s q with
  | zero => omega
  | succ n ih =>
    cases q with
    | nil =>
      obtain ⟨insert, hback⟩ := requeue_putBack (s := s.noted) (c := c) hk
      have hm : drained s.ring := h.empty.symm
      exact ⟨insert, _, [], run_last (if_pos hm), (requeue_ring s.noted insert).symm ▸ h, hback⟩
    | cons msg q =>
      have hm : ¬ drained s.ring := h.not_empty
      have hnext := take_nextRead (s := s.noted) (c := c) hk
      rcases round_cases s c .success with ⟨hm', -⟩ | ⟨-, htake, hround⟩ | ⟨-, irp, s₁, htake, -⟩
      · exact absurd hm' hm
      · obtain ⟨hretain, -⟩ := take_none (s := s.noted) hk htake
        have hkept : s.noted.kept = none := by
          unfold kept
          rw [hretain, if_neg Bool.false_ne_true]
        rw [htake, hkept] at hnext
        refine ⟨.success, _, msg :: q, run_last hround, h, ?_⟩
        rw [show s.kept = none from hkept]
        exact Connector.processConnectorReads_none hnext
      · have ht := take_some htake
        rw [htake] at hnext
        have hafter := handle_holds (s := s₁) (c := c) (ht.ring ▸ h) (ht.plain hk)
        have hround : ∀ insert, s.round c insert = s₁.handle c irp := by
          intro insert
          rcases round_cases s c insert with ⟨hm', -⟩ | ⟨-, hnone, -⟩ | ⟨-, _, _, hsome, hround⟩
          · exact absurd hm' hm
          · cases hnone.symm.trans htake
          · obtain ⟨rfl, rfl⟩ := Prod.mk.inj (Option.some.inj (hsome.symm.trans htake))
            exact hround
        have hcons := Connector.processConnectorReads_cons (s := s.connector (msg :: q)) rfl hnext
        generalize ho : s₁.device.connectorRound c irp msg = o at hafter hcons
        -- the queue and the device after the round
        have hconnector : (s.connector (msg :: q)).afterRound o msg q =
            (s₁.handle c irp).2.connector (if o.consumed then q else msg :: q) := by
          unfold Connector.afterRound connector
          rw [hafter.device, hafter.resets, ht.resets]
          rfl
        have hon := hafter.on
        have hretain := hafter.retain
        have hnextIrp := hafter.nextIrp.trans ht.nextIrp
        have hholds := hafter.ring
        rw [hconnector] at hcons
        generalize s₁.handle c irp = r at hround hon hretain hnextIrp hholds hcons hconnector
        generalize (if o.consumed then q else msg :: q) = q₁ at hholds hcons hconnector
        -- the rounds that are left
        have hmore : r.1 = true → (s.connector (msg :: q)).processConnectorReads c s.kept =
            (r.2.connector q₁).processConnectorReads c r.2.kept →
            (r.2.connector q₁).size r.2.kept < (s.connector (msg :: q)).size s.kept →
            ∃ insert t q', run c insert (n + 1) s = some t ∧ t.ring.Holds q' ∧
              (s.connector (msg :: q)).processConnectorReads c s.kept = t.connector q' := by
          intro hr hstep hsize
          have hkeeps := (round_next hk ((hround .success).trans (Prod.ext hr rfl))).1
          obtain ⟨insert, t, q', hrun, hq', heq⟩ :=
            ih hkeeps hholds (Nat.lt_of_lt_of_le hsize (Nat.lt_succ_iff.mp hn))
          refine ⟨insert, t, q', ?_, hq', hstep.trans heq⟩
          rw [run_more ((hround _).trans (Prod.ext hr rfl)), hrun]
        cases hverdict : o.verdict with
        | stop =>
          rw [hverdict] at hcons hon
          exact ⟨.success, _, _, run_last ((hround _).trans (Prod.ext hon rfl)), hholds, hcons⟩
        | retain =>
          have hsize := Connector.size_retain (s := s.connector (msg :: q)) rfl hnext (ho ▸ hverdict)
          have hkept : r.2.kept = some irp := by
            unfold kept
            rw [hretain, hnextIrp, hverdict]
            rfl
          rw [hverdict] at hcons hon
          rw [ho, hconnector] at hsize
          exact hmore hon (hkept ▸ hcons) (hkept ▸ hsize)
        | next =>
          have hsize := Connector.size_next (s := s.connector (msg :: q)) rfl hnext (ho ▸ hverdict)
          have hkept : r.2.kept = none := by
            unfold kept
            rw [hretain, hverdict]
            rfl
          rw [hverdict] at hcons hon
          rw [ho, hconnector] at hsize
          exact hmore hon (hkept ▸ hcons) (hkept ▸ hsize)

end ReadLoop

/-! ## The payloads of a call -/

/-- The data of the IRPs that were completed with success. -/
def successes (l : List Completion) : List (List UInt8) :=
  (l.filter fun o => o.status == .success).map Completion.data

theorem successes_append (l₁ l₂ : List Completion) : successes (l₁ ++ l₂) = successes l₁ ++ successes l₂ := by
  unfold successes
  rw [List.filter_append, List.map_append]

theorem successes_cancelled (l : List Pending) : successes (l.map fun x => ⟨x, .cancelled, []⟩) = [] := by
  unfold successes
  rw [List.filter_map]
  induction l with
  | nil => rfl
  | cons x l ih => exact ih

namespace ReadLoop
variable {s s' t : ReadLoop} {x : FileContext} {c : Nat} {insert : InsertStatus} {irp : Pending} {n : Nat}

/-- From `s` to `t`, the payloads of the peer that are taken from the ring go to the reads that succeed. -/
def Delivers (x : FileContext) (s t : ReadLoop) : Prop :=
  ∃ took news, t.taken = s.taken ++ took ∧ t.device.completed = s.device.completed ++ news ∧
    took.filterMap (peerPayload x) = successes news

theorem Delivers.trans {u : ReadLoop} (h : Delivers x s t) (h' : Delivers x t u) : Delivers x s u := by
  obtain ⟨took, news, htook, hnews, hpayload⟩ := h
  obtain ⟨took', news', htook', hnews', hpayload'⟩ := h'
  refine ⟨took ++ took', news ++ news', ?_, ?_, ?_⟩
  · rw [htook', htook, List.append_assoc]
  · rw [hnews', hnews, List.append_assoc]
  · rw [List.filterMap_append, successes_append, hpayload, hpayload']

/-- Nothing is taken, and no IRP is completed. -/
theorem Delivers.same (htaken : t.taken = s.taken) (hcompleted : t.device.completed = s.device.completed) :
    Delivers x s t :=
  ⟨[], [], by rw [htaken, List.append_nil], by rw [hcompleted, List.append_nil], rfl⟩

/-- Nothing is taken, and these IRPs fail. -/
theorem Delivers.failed {news : List Completion} (htaken : t.taken = s.taken)
    (hcompleted : t.device.completed = s.device.completed ++ news) (h : successes news = []) : Delivers x s t :=
  ⟨[], news, by rw [htaken, List.append_nil], hcompleted, h.symm⟩

theorem requeue_delivers (s : ReadLoop) (insert : InsertStatus) : Delivers x s (s.requeue insert) := by
  unfold requeue
  split
  · cases insert with
    | success => exact .same rfl rfl
    | quotaExceeded => exact .failed rfl rfl rfl
    | noMemory => exact .failed rfl rfl rfl
  · exact .same rfl rfl

theorem handle_delivers (s : ReadLoop) (c : Nat) (irp : Pending) :
    Delivers (s.device.contexts c) s (s.handle c irp).2 := by
  by_cases hirp : irp.Plain
  · cases hcase : headCase (s.device.contexts c) s.ring with
    | refused =>
      rw [handle_refused hirp hcase]
      exact .failed rfl rfl rfl
    | discard =>
      obtain ⟨resets, hhandle⟩ := handle_discard (s := s) hirp hcase
      obtain ⟨msg, rxp, hmsg⟩ := head_of_discard hcase
      rw [hhandle]
      refine ⟨[msg], [], ?_, (List.append_nil _).symm, ?_⟩
      · unfold consume
        rw [hmsg.headMessage]
        rfl
      · rw [List.filterMap_cons_none (hmsg.peerPayload_discard hcase)]
        rfl
    | rst =>
      rw [handle_rst hirp hcase]
      refine .failed rfl (List.append_assoc ..) ?_
      rw [successes_append, successes_cancelled]
      rfl
    | data n =>
      obtain ⟨msg, hmsg, hpayload, hhandle⟩ := handle_data (s := s) hirp hcase
      rw [hhandle]
      split
      · exact .failed rfl rfl rfl
      · refine ⟨[msg], [⟨irp, .success, msg.payload.drop sizeofStreamHeader⟩], ?_, rfl, ?_⟩
        · unfold consume
          rw [show (finish { s with retain := false } irp .success
            (msg.payload.drop sizeofStreamHeader)).ring = s.ring from rfl, hmsg]
          rfl
        · rw [List.filterMap_cons_some hpayload]
          rfl
  · rw [handle_ioctl hirp]
    exact .failed rfl rfl rfl

/-- The context of the file is the same while the loop goes on. -/
theorem handle_contexts (h : (s.handle c irp).1 = true) :
    (s.handle c irp).2.device.contexts = s.device.contexts := by
  by_cases hirp : irp.Plain
  · cases hcase : headCase (s.device.contexts c) s.ring with
    | refused =>
      rw [handle_refused hirp hcase]
      rfl
    | discard =>
      obtain ⟨resets, hhandle⟩ := handle_discard (s := s) hirp hcase
      rw [hhandle]
      rfl
    | rst =>
      rw [handle_rst hirp hcase] at h
      cases h
    | data n =>
      obtain ⟨msg, -, -, hhandle⟩ := handle_data (s := s) hirp hcase
      rw [hhandle]
      split <;> rfl
  · rw [handle_ioctl hirp]
    rfl

theorem round_delivers (s : ReadLoop) (c : Nat) (insert : InsertStatus) :
    Delivers (s.device.contexts c) s (s.round c insert).2 ∧
      ((s.round c insert).1 = true → (s.round c insert).2.device.contexts = s.device.contexts) := by
  rcases round_cases s c insert with ⟨-, hround⟩ | ⟨-, -, hround⟩ | ⟨-, irp, s₁, htake, hround⟩
  · rw [hround]
    exact ⟨requeue_delivers s.noted insert, fun h => by cases h⟩
  · rw [hround]
    exact ⟨.same rfl rfl, fun h => by cases h⟩
  · have ht := take_some htake
    have hcontexts : s₁.device.contexts = s.device.contexts := ht.contexts
    have hfirst : Delivers (s.device.contexts c) s s₁ := .same ht.taken ht.completed
    rw [hround]
    exact ⟨hfirst.trans (hcontexts ▸ handle_delivers s₁ c irp),
      fun hon => (handle_contexts hon).trans hcontexts⟩

/-- **The payloads**: whatever the ring holds, the payloads of the peer that are taken from it go to the reads
that succeed, one each and in their order. -/
theorem run_delivers (h : run c insert n s = some s') : Delivers (s.device.contexts c) s s' := by
  induction n generalizing s with
  | zero => cases h
  | succ n ih =>
    obtain ⟨hfirst, hcontexts⟩ := round_delivers s c insert
    rcases hround : s.round c insert with ⟨on, t⟩
    rw [hround] at hfirst hcontexts
    cases on with
    | true =>
      rw [run_more hround] at h
      have hrest := ih h
      rw [hcontexts rfl] at hrest
      exact hfirst.trans hrest
    | false =>
      rw [run_last hround] at h
      obtain rfl := Option.some.inj h
      exact hfirst

end ReadLoop

/-! ## Exactly once -/

/-- When `V4vProcessConnectorReads` returns with `t`: every IRP that was queued is queued or was completed, as
often as it was queued, and the payloads of the peer that were taken from the ring are the data of the reads
that succeeded. -/
def CompletesOnce (device : Device) (c : Nat) (t : ReadLoop) : Prop :=
  ∃ news, t.device.completed = device.completed ++ news ∧
    (∀ irp, t.device.queue.count irp + (news.map Completion.irp).count irp = device.queue.count irp) ∧
    t.taken.filterMap (peerPayload (device.contexts c)) = successes news

/-- An IRP that was in the queue once is completed once or back in the queue once. -/
theorem CompletesOnce.once {device : Device} {c : Nat} {t : ReadLoop} (h : CompletesOnce device c t)
    (hnodup : device.queue.Nodup) {irp : Pending} (hirp : irp ∈ device.queue) :
    ∃ news, t.device.completed = device.completed ++ news ∧
      (t.device.queue.count irp = 1 ∧ irp ∉ news.map Completion.irp ∨
        irp ∉ t.device.queue ∧ (news.map Completion.irp).count irp = 1) := by
  obtain ⟨news, hnews, hcount, -⟩ := h
  have hone := hcount irp
  rw [List.count_eq_one_of_mem hnodup hirp] at hone
  refine ⟨news, hnews, ?_⟩
  rw [← List.count_eq_zero, ← List.count_eq_zero]
  omega

section Once
variable {device : Device} {ring : PageMem} {event notify : Bool} {c : Nat} {insert : InsertStatus} {n : Nat}
  {t : ReadLoop}

/-- **Exactly once**: whatever the ring holds, a call of `V4vProcessConnectorReads` completes each IRP once or
leaves it in the queue, and gives each payload to one read, if and only if no read meets a message to be thrown
away in front of one that `v4v_copy_out` refuses. -/
theorem connector_reads_once
    (h : v4vProcessConnectorReads device ring event notify c insert n = some t) :
    CompletesOnce device c t ↔ ¬ Spoils (device.contexts c) (device.reads c) ring := by
  unfold v4vProcessConnectorReads at h
  have htally := ReadLoop.run_tally (ReadLoop.keeps_free rfl) h
  rw [ReadLoop.bad_free rfl] at htally
  obtain ⟨took, news, htook, hnews, hpayload⟩ := ReadLoop.run_delivers h
  rw [List.nil_append] at htook
  rw [← htally]
  -- the count of the completions is that of the new ones and that of the earlier ones
  have hcount : ∀ y, t.device.tally y = t.device.queue.count y + (news.map Completion.irp).count y +
      (device.completed.map Completion.irp).count y := by
    intro y
    unfold Device.tally
    rw [hnews, List.map_append, List.count_append, Nat.add_right_comm, Nat.add_assoc]
  constructor
  · rintro ⟨news', hnews', honce, -⟩ y
    obtain rfl := List.append_cancel_left (hnews.symm.trans hnews')
    rw [hcount, honce]
    rfl
  · intro hall
    refine ⟨news, hnews, fun y => ?_, htook ▸ hpayload⟩
    have hy := hall y
    rw [hcount] at hy
    exact Nat.add_right_cancel hy

end Once

/-- A ring of 96 bytes with the given words in its data area, up to `tx`. -/
def ringOf (tx : Nat) (words : List (Nat × Nat)) : PageMem :=
  ([(offsetofLen, 96), (offsetofTxPtr, tx)] ++ words.map fun w => (sizeofRing + w.1, w.2)).foldl
    (fun m w => m.storeWord w.1 w.2) fun _ _ => 0

/-- A message of another protocol, and behind it the header of a message that is longer than what follows. -/
def tornRing : PageMem := ringOf 32 [(0, 16), (4, 5), (8, 3), (16, 32), (20, 5), (24, 2)]

/-- Three bytes of the peer. -/
def dataRing : PageMem :=
  ringOf 32 [(0, 27), (4, 5), (8, 2), (12, protoStream.toNat), (20, 7), (24, 0x030201)]

/-- The read that waits gets the peer's data. -/
theorem connector_reads_once_data : ∃ t,
    v4vProcessConnectorReads (Connector.lonelyConnector .connected (peekStream ||| peekRead) []).device dataRing
      false false 0 .success 3 = some t ∧
    CompletesOnce (Connector.lonelyConnector .connected (peekStream ||| peekRead) []).device 0 t := by
  obtain ⟨t, ht⟩ := Option.isSome_iff_exists.mp (show (v4vProcessConnectorReads
    (Connector.lonelyConnector .connected (peekStream ||| peekRead) []).device dataRing
      false false 0 .success 3).isSome = true by decide +kernel)
  refine ⟨t, ht, (connector_reads_once ht).mpr ?_⟩
  have hirp : Pending.Plain ⟨1, peekStream ||| peekRead, 16, 0, ⟨0, 0⟩⟩ := by decide
  intro hs
  exact spoils_nil ((spoils_data (n := 3) [] (by decide +kernel) hirp (by decide +kernel)).mp hs)

/-- The IRP of `tornRing` is completed, and put back into the queue. -/
theorem connector_read_twice : ¬ ∀ (device : Device) (ring : PageMem) (event notify : Bool) (c : Nat)
    (insert : InsertStatus) (n : Nat) (t : ReadLoop),
    v4vProcessConnectorReads device ring event notify c insert n = some t → CompletesOnce device c t := by
  intro h
  have hrun : (v4vProcessConnectorReads (Connector.lonelyConnector .connected (peekStream ||| peekRead) []).device
      tornRing false false 0 .success 4).map (fun t => (t.device.queue, t.device.completed)) =
      some ([⟨1, peekStream ||| peekRead, 16, 0, ⟨0, 0⟩⟩],
        [⟨⟨1, peekStream ||| peekRead, 16, 0, ⟨0, 0⟩⟩, .internalDbCorruption, []⟩]) := by decide +kernel
  obtain ⟨t, ht, heq⟩ := Option.map_eq_some_iff.mp hrun
  obtain ⟨hqueue, hcompleted⟩ := Prod.mk.inj heq
  obtain ⟨news, hnews, honce, -⟩ := h _ _ _ _ _ _ _ _ ht
  rw [hcompleted] at hnews
  obtain rfl : _ = news := hnews
  have htwice := honce ⟨1, peekStream ||| peekRead, 16, 0, ⟨0, 0⟩⟩
  rw [hqueue] at htwice
  exact absurd htwice (by decide)

end V4v.Windows
