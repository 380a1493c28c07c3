import LegacyV4v.ConnectorReads
import LegacyV4v.GuardedRun
import LegacyV4v.ListenerReads

/-! # A RST is not answered with a RST

The read routines of the Windows driver look for the RST flag wherever they are about to send a
RST, so that two ends do not answer each other for ever.  There are seven such places.  The one in
`V4vProcessPreAcceptReads` is reached for a SYN and does not look: with the backlog full, a message
that is a SYN and a RST at once is answered.  That is the only case. -/
namespace V4v.Windows
open Linux (StreamHeader peekHeader streamMessage shfSyn shfAck shfRst)
open GuardedRun

/-- The RST with which a message may be answered. -/
def answers (m : Message) : List SentReset :=
  match peekHeader m with
  | none => []
  | some (sh, _) => if sh.has shfRst then [] else [⟨sh.conid, m.source⟩]

section
variable {m : Message} {sh : StreamHeader} {data : List UInt8}

theorem answers_of_peekHeader (hm : peekHeader m = some (sh, data)) :
    answers m = if sh.has shfRst then [] else [⟨sh.conid, m.source⟩] := by
  rw [answers, hm]

theorem answers_rst (hm : peekHeader m = some (sh, data)) (hrst : sh.has shfRst = true) :
    answers m = [] := by
  rw [answers_of_peekHeader hm, if_pos hrst]

end

namespace Device
variable {s : Device} {c l : Nat} {irp : Pending} {m : Message} {sh : StreamHeader}
  {data : List UInt8}

/-! ## Connectors -/

/-- A round answers the message as it may be answered, or not at all, and what it answers it takes
from the ring. -/
theorem connectorRound_resets (s : Device) (c : Nat) (irp : Pending) (m : Message) :
    (s.connectorRound c irp m).resets = [] ∨
      (s.connectorRound c irp m).resets = answers m ∧
        (s.connectorRound c irp m).consumed = true := by
  rw [connectorRound]
  dsimp only
  by_cases hflags : has irp.flags (peekSyn ||| peekAck) = true
  · rw [if_pos hflags]
    exact .inl rfl
  rw [if_neg hflags]
  cases hm : peekHeader m with
  | none => exact .inl rfl
  | some p =>
    obtain ⟨sh, data⟩ := p
    have hans := answers_of_peekHeader hm
    have hbare : ∀ {x : Round}, x.resets = (if data = [] then answers m else []) →
        x.consumed = true → x.resets = [] ∨ x.resets = answers m ∧ x.consumed = true := by
      intro x hx hc
      by_cases hdata : data = []
      · rw [if_pos hdata] at hx
        exact .inr ⟨hx, hc⟩
      · rw [if_neg hdata] at hx
        exact .inl hx
    dsimp only
    rw [← hans]
    by_cases hsyn : sh.has shfSyn = true
    · rw [if_pos hsyn]
      exact hbare rfl rfl
    rw [if_neg hsyn]
    by_cases hconid : sh.conid ≠ (s.contexts c).connId.toUInt32
    · rw [if_pos hconid]
      exact .inr ⟨rfl, rfl⟩
    rw [if_neg hconid]
    by_cases hdomain : (s.contexts c).sdst.domain ≠ m.source.domain
    · rw [if_pos hdomain]
      exact .inr ⟨rfl, rfl⟩
    rw [if_neg hdomain]
    by_cases hack : sh.has shfAck = true
    · rw [if_pos hack]
      exact hbare rfl rfl
    rw [if_neg hack]
    -- what is left is the stream itself
    split
    · exact .inl rfl
    · split <;> exact .inl rfl

end Device

namespace Connector

/-- **A whole pass** of `V4vProcessConnectorReads` answers some of the messages in the ring, each at
most once and in their order. -/
theorem processConnectorReads_resets (s : Connector) (c : Nat) (retained : Option Pending) :
    ∃ rs, (s.processConnectorReads c retained).resets = s.resets ++ rs ∧
      rs.Sublist (s.ring.flatMap answers) := by
  induction hn : s.size retained using Nat.strong_induction_on generalizing s retained with
  | _ n ih =>
  subst hn
  by_cases hnil : s.ring = []
  · refine ⟨[], ?_, List.nil_sublist _⟩
    rw [processConnectorReads_nil hnil, List.append_nil]
    cases retained <;> rfl
  obtain ⟨m, rest, hring⟩ := List.exists_cons_of_ne_nil hnil
  cases hread : s.device.nextRead c retained with
  | none =>
    refine ⟨[], ?_, List.nil_sublist _⟩
    cases retained with
    | some x => cases hread
    | none => rw [processConnectorReads_none hread, List.append_nil]
  | some p =>
    obtain ⟨irp, device⟩ := p
    -- the round, and then the rest of the pass
    have hround : ((device.connectorRound c irp m).resets ++
        (s.afterRound (device.connectorRound c irp m) m rest).ring.flatMap answers).Sublist
          (s.ring.flatMap answers) := by
      rw [hring, List.flatMap_cons, afterRound]
      dsimp only
      rcases device.connectorRound_resets c irp m with hnone | ⟨hsome, hconsumed⟩
      · rw [hnone, List.nil_append]
        split
        · exact List.sublist_append_right _ _
        · exact .refl _
      · rw [hsome, hconsumed, if_pos rfl]
    have hpass : ∀ {t : Connector} {rs : List SentReset},
        t.resets = (s.afterRound (device.connectorRound c irp m) m rest).resets ++ rs →
        rs.Sublist ((s.afterRound (device.connectorRound c irp m) m rest).ring.flatMap answers) →
        ∃ rs, t.resets = s.resets ++ rs ∧ rs.Sublist (s.ring.flatMap answers) := by
      intro t rs ht hrs
      refine ⟨(device.connectorRound c irp m).resets ++ rs, ?_,
        (hrs.append_left _).trans hround⟩
      rw [ht, afterRound, List.append_assoc]
    rw [processConnectorReads_cons hring hread]
    cases hverdict : (device.connectorRound c irp m).verdict with
    | retain =>
      obtain ⟨rs, hrs, hsub⟩ := ih _ (size_retain hring hread hverdict) _ _ rfl
      exact hpass hrs hsub
    | next =>
      obtain ⟨rs, hrs, hsub⟩ := ih _ (size_next hring hread hverdict) _ _ rfl
      exact hpass hrs hsub
    | stop => exact hpass (List.append_nil _).symm (List.nil_sublist _)

end Connector

/-! ## Listeners -/

namespace Device
variable {s : Device} {l : Nat} {m : Message} {sh : StreamHeader} {data : List UInt8}

/-- The backlog of SYNs is full. -/
def BacklogFull (s : Device) (l : Nat) : Prop :=
  (s.contexts l).synList.length = (s.contexts l).backlog

instance (s : Device) (l : Nat) : Decidable (s.BacklogFull l) :=
  inferInstanceAs (Decidable (_ = _))

theorem processPreAcceptReads_resets (s : Device) (l : Nat) (sh : StreamHeader) (src : Addr)
    (ack : Nat → Bool) :
    (s.processPreAcceptReads l sh src ack).2 = if s.BacklogFull l then [⟨sh.conid, src⟩] else [] := by
  rw [processPreAcceptReads]
  by_cases hfull : s.BacklogFull l
  · rw [if_pos hfull, if_pos (show (s.contexts l).synList.length = _ from hfull)]
  · rw [if_neg hfull, if_neg (show ¬ (s.contexts l).synList.length = _ from hfull)]

/-- What a round answers. -/
theorem listenerRead_resets (s : Device) (l : Nat) (state : FileState) (m : Message)
    (rest : List Message) (pool : Bool) (ack : Nat → Bool) (hm : peekHeader m = some (sh, data)) :
    (s.listenerRead l state m rest pool ack).resets = [] ∨
      (s.listenerRead l state m rest pool ack).resets = answers m ∨
      (s.listenerRead l state m rest pool ack).resets = [⟨sh.conid, m.source⟩] ∧
        state = .listening ∧ sh.has shfSyn = true ∧ s.BacklogFull l := by
  have hans := answers_of_peekHeader hm
  rw [listenerRead, hm]
  dsimp only
  rw [← hans]
  by_cases hsyn : sh.has shfSyn = true
  · rw [if_pos hsyn]
    by_cases hstate : state = .listening
    · rw [if_pos hstate]
      dsimp only
      rw [processPreAcceptReads_resets]
      by_cases hfull : s.BacklogFull l
      · rw [if_pos hfull]
        exact .inr (.inr ⟨rfl, hstate, hsyn, hfull⟩)
      · rw [if_neg hfull]
        exact .inl rfl
    · rw [if_neg hstate]
      exact .inr (.inl rfl)
  rw [if_neg hsyn]
  cases s.getContextByConnectionId sh.conid.toUInt64 with
  | none => exact .inr (.inl rfl)
  | some actx =>
    dsimp only
    split
    · exact .inr (.inl rfl)
    · split <;> exact .inl rfl

/-- A listener's ring that is read: the device, what is in the ring, and whether the pass has been
broken off. -/
structure ListenerPass where
  device : Device
  ring : List Message
  stopped : Bool

/-- A round of the pass, for the first message in the ring; the input says whether there is memory
for data and for the ACKs. -/
def ListenerPass.step (l : Nat) (state : FileState) (p : ListenerPass) (i : Bool × (Nat → Bool)) :
    Option ((Message × List SentReset) × ListenerPass) :=
  match p.stopped, p.ring with
  | false, m :: rest =>
    let o := p.device.listenerRead l state m rest i.1 i.2
    some ((m, o.resets), ⟨o.device, o.ring, o.stop⟩)
  | _, _ => none

/-- The first message is no SYN with a RST that the backlog has no room for. -/
def ListenerPass.Harmless (l : Nat) (state : FileState) (p : ListenerPass) : Prop :=
  ∀ m sh data, p.ring.head? = some m → peekHeader m = some (sh, data) → sh.has shfRst = true →
    ¬ (state = .listening ∧ sh.has shfSyn = true ∧ p.device.BacklogFull l)

/-- One round answers a RST exactly if it is a SYN as well, and the backlog is full. -/
theorem listenerRead_rst_iff (s : Device) (l : Nat) (state : FileState) (m : Message)
    (rest : List Message) (pool : Bool) (ack : Nat → Bool) (hm : peekHeader m = some (sh, data))
    (hrst : sh.has shfRst = true) :
    (s.listenerRead l state m rest pool ack).resets = [] ↔
      ¬ (state = .listening ∧ sh.has shfSyn = true ∧ s.BacklogFull l) := by
  constructor
  · rintro h ⟨hstate, hsyn, hfull⟩
    rw [listenerRead, hm] at h
    dsimp only at h
    rw [if_pos hsyn, if_pos hstate] at h
    dsimp only at h
    rw [processPreAcceptReads_resets, if_pos hfull] at h
    cases h
  · intro h
    rcases s.listenerRead_resets l state m rest pool ack hm with hnone | hans | ⟨-, hcase⟩
    · exact hnone
    · rw [hans, answers_rst hm hrst]
    · exact absurd hcase h

/-- **A whole pass** over a listener's ring answers no RST, if its rounds are harmless. -/
theorem listenerPass_rst {state : FileState} {p p' : ListenerPass}
    {log : List (Message × List SentReset)}
    (h : Run (ListenerPass.step l state) (fun p _ => p.Harmless l state) p log p') :
    ∀ e ∈ log, ∀ sh data, peekHeader e.1 = some (sh, data) → sh.has shfRst = true → e.2 = [] := by
  refine h.outputs (P := fun _ => True) trivial ?_
  intro p i o p' _ hok hstep
  refine ⟨trivial, fun sh data hm hrst => ?_⟩
  obtain ⟨device, ring, stopped⟩ := p
  cases stopped with
  | true => cases hstep
  | false =>
    cases ring with
    | nil => cases hstep
    | cons m rest =>
      obtain ⟨rfl, rfl⟩ := Prod.mk.inj (Option.some.inj hstep)
      exact (listenerRead_rst_iff device l state m rest i.1 i.2 hm hrst).mpr
        (hok m sh data rfl hm hrst)

end Device

/-- **Whether a RST is answered.**  A connector never answers one, alone or in a whole pass over its
ring; neither does a listener that is only passive.  A listening one does exactly if the message is
a SYN as well and finds the backlog full, and in a pass without such messages it answers none. -/
theorem rst_unanswered_iff (s : Device) (m : Message) (sh : StreamHeader) (data : List UInt8)
    (hm : peekHeader m = some (sh, data)) (hrst : sh.has shfRst = true) :
    ((∀ c irp, (s.connectorRound c irp m).resets = []) ∧
      ∀ (p : Connector) (c : Nat) (retained : Option Pending) (before after : List Message),
        p.ring = before ++ m :: after → ∃ rs,
          (p.processConnectorReads c retained).resets = p.resets ++ rs ∧
            rs.Sublist ((before ++ after).flatMap answers)) ∧
    ∀ l, (∀ rest pool ack, (s.listenerRead l .passive m rest pool ack).resets = []) ∧
      (∀ rest pool ack, (s.listenerRead l .listening m rest pool ack).resets = [] ↔
        ¬ (sh.has shfSyn = true ∧ s.BacklogFull l)) ∧
      ∀ state p log p',
        Run (Device.ListenerPass.step l state) (fun p _ => p.Harmless l state) p log p' →
        ∀ e ∈ log, e.1 = m → e.2 = [] := by
  have hnone := answers_rst hm hrst
  refine ⟨⟨fun c irp => ?_, fun p c retained before after hring => ?_⟩, fun l => ⟨fun rest pool ack => ?_,
    fun rest pool ack => ?_, fun state p log p' hrun e he hem => ?_⟩⟩
  · rcases s.connectorRound_resets c irp m with h | ⟨h, -⟩
    · exact h
    · rw [h, hnone]
  · obtain ⟨rs, heq, hsub⟩ := p.processConnectorReads_resets c retained
    refine ⟨rs, heq, ?_⟩
    rwa [hring, List.flatMap_append, List.flatMap_cons, hnone, List.nil_append,
      ← List.flatMap_append] at hsub
  · exact (s.listenerRead_rst_iff l .passive m rest pool ack hm hrst).mpr fun h => by cases h.1
  · rw [s.listenerRead_rst_iff l .listening m rest pool ack hm hrst]
    simp only [true_and]
  · exact Device.listenerPass_rst hrun e he sh data (hem ▸ hm) hrst

/-- A listener that has room for one SYN, and has got it. -/
def fullListener : Device where
  contexts := fun _ => ⟨.listening, .listener, ⟨0, 0⟩, 0, 1, [(⟨5, 2⟩, 7)], none, []⟩
  contextList := [0]
  queue := []
  stashed := fun _ => 0
  completed := []

/-- A plain RST is not answered there. -/
theorem plain_rst_unanswered :
    (fullListener.listenerRead 0 .listening (streamMessage ⟨9, 3⟩ ⟨shfRst, 8⟩ []) [] true
      fun _ => true).resets = [] :=
  (((rst_unanswered_iff fullListener (streamMessage ⟨9, 3⟩ ⟨shfRst, 8⟩ []) ⟨shfRst, 8⟩ []
    (Linux.peekHeader_streamMessage _ _ _) (by decide)).2 0).2.1 [] true _).mpr
    fun h => absurd h.1 (by decide)

/-- A SYN with the RST flag is. -/
theorem syn_rst_answered : ¬ ∀ (s : Device) (l : Nat) (m : Message) (sh : StreamHeader)
    (data : List UInt8) (rest : List Message), peekHeader m = some (sh, data) →
    sh.has shfRst = true →
    (s.listenerRead l .listening m rest true fun _ => true).resets = [] := by
  intro h
  have hanswer := h fullListener 0 (streamMessage ⟨9, 3⟩ ⟨shfSyn ||| shfRst, 8⟩ [])
    ⟨shfSyn ||| shfRst, 8⟩ [] [] (Linux.peekHeader_streamMessage _ _ _) (by decide)
  rw [Device.listenerRead, Linux.peekHeader_streamMessage] at hanswer
  exact absurd hanswer (by decide)

end V4v.Windows
