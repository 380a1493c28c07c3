import Mathlib.Data.List.Infix

/-! # A pipe

What one direction of a connection is for.  Of what the writer has `written`, part is in
`transit`, part is `parked` at the reader's end and part has been `taken` by the reader.  Items
are added at one end and leave at the other, and none is lost, doubled or passed by another,
until the reader's end is closed: then what is on its way does not matter any more. -/
namespace BytePipe

/-- One direction of a connection. -/
structure Pipe (α : Type*) where
  written : List α
  transit : List α
  parked : List α
  taken : List α
  closed : Bool

variable {α : Type*}

/-- What can happen to a pipe. -/
inductive Step : Pipe α → Pipe α → Prop
  | keep (P : Pipe α) : Step P P
  | write (P : Pipe α) (x : List α) :
      Step P { P with written := P.written ++ x, transit := P.transit ++ x }
  | park (P : Pipe α) (x rest : List α) : P.transit = x ++ rest →
      Step P { P with transit := rest, parked := P.parked ++ x }
  | take (P : Pipe α) (x rest : List α) : P.closed = false → P.parked = x ++ rest →
      Step P { P with parked := rest, taken := P.taken ++ x }
  | lose (P : Pipe α) (x transit parked : List α) :
      Step P ⟨P.written ++ x, transit, parked, P.taken, true⟩

/-- What has been taken is the beginning of what was written, and the rest of it is on its way in
the same order. -/
def Pipe.Sound (P : Pipe α) : Prop :=
  P.taken <+: P.written ∧
    (P.closed = false → P.taken ++ (P.parked ++ P.transit) = P.written)

theorem sound_of_eq {P : Pipe α} (h : P.taken ++ (P.parked ++ P.transit) = P.written) : P.Sound :=
  ⟨⟨_, h⟩, fun _ => h⟩

/-- **One step.** -/
theorem Step.sound {P P' : Pipe α} (hs : Step P P') (h : P.Sound) : P'.Sound := by
  cases hs with
  | keep => exact h
  | write x =>
    refine ⟨h.1.trans (List.prefix_append ..), fun hc => ?_⟩
    rw [← List.append_assoc, ← List.append_assoc, List.append_assoc P.taken, h.2 hc]
  | park x rest htransit =>
    refine ⟨h.1, fun hc => ?_⟩
    rw [← h.2 hc, htransit, List.append_assoc P.parked]
  | take x rest hc hparked =>
    apply sound_of_eq
    rw [← h.2 hc, hparked, List.append_assoc, List.append_assoc]
  | lose x => exact ⟨h.1.trans (List.prefix_append ..), fun hc => (nomatch hc)⟩

/-- A pipe in which nothing has been written. -/
theorem sound_nil (closed : Bool) : (⟨[], [], [], [], closed⟩ : Pipe α).Sound := sound_of_eq rfl

end BytePipe
