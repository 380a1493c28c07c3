import LegacyV4v.BackPressure

/-! # A ring that is not empty is looked at again

Whole runs of the driver.  What carries the argument is that of every ring one of four things
is true: it needs no pass, an interrupt is raised, the pass in progress has still to visit it, or
a receive that took an entry off a full list has still to run the handlers.  In a quiescent
state only the first is left. -/
namespace V4v.Linux

namespace Driver

/-- Some receive has still to run the handlers. -/
def Fakes (s : Driver) : Prop := ∃ E ∈ s.ends, E.Fakes

/-- Somebody will look at ring `i`. -/
def Coming (s : Driver) (i : Nat) : Prop :=
  s.irq = true ∨ (∃ P, s.rx = some P ∧ i ∈ P.todo) ∨ s.Fakes

/-- What the driver relies on.  A call that takes away what a ring waits for, or hands over a ring
with messages in it, does so while a pass over that ring is still to come; the timer of a connect
finds no listener; and a list that the pass found full is still full, and the one that the first
message waits for, when it is marked. -/
def Careful (s : Driver) : DriverAct → Prop
  | .call i a => ∀ E, s.ends[i]? = some E → E.InTime a ∧ (s.Coming i ∨ E.LeavesNothing a)
  | .rx => ∀ i rest ref caller E, s.rx = some ⟨i :: rest, some ref, caller⟩ →
      s.ends[i]? = some E →
      ∃ p, E.ring.waitsFor = some p ∧ p.ref = ref ∧ p.pendingRecv.length > maxPendingRecvs
  | _ => True

/-- The states that the driver comes to by steps that satisfy `ok` where they are taken. -/
inductive Reached (ok : Driver → DriverAct → Prop) : Driver → Prop
  | init : Reached ok init
  | step {s s' : Driver} {act : DriverAct} : Reached ok s → ok s act → s.Step act s' → Reached ok s'

/-! ## Rings of the driver -/

theorem getElem?_set_imp {P : Nat → Endpoint → Prop} {ends : List Endpoint} {i : Nat}
    {E' : Endpoint} (hothers : ∀ j E, j ≠ i → ends[j]? = some E → P j E) (hE' : P i E') :
    ∀ j E, (ends.set i E')[j]? = some E → P j E := by
  intro j E hj
  by_cases hji : j = i
  · subst hji
    have hlt : j < ends.length := by
      simpa using (List.getElem?_eq_some_iff.mp hj).1
    rw [List.getElem?_set_self hlt] at hj
    obtain rfl := Option.some.inj hj
    exact hE'
  · rw [List.getElem?_set_ne (Ne.symm hji)] at hj
    exact hothers j E hji hj

/-- A ring takes another's place, and its receives forget nothing. -/
theorem fakes_set {ends : List Endpoint} {i : Nat} {E E' : Endpoint} (hi : ends[i]? = some E)
    (hE : E.Fakes → E'.Fakes) (h : ∃ E ∈ ends, E.Fakes) : ∃ E ∈ ends.set i E', E.Fakes := by
  have hlt := (List.getElem?_eq_some_iff.mp hi).1
  obtain ⟨F, hF, hfakes⟩ := h
  obtain ⟨j, hj⟩ := List.mem_iff_getElem?.mp hF
  by_cases hji : j = i
  · subst hji
    obtain rfl := Option.some.inj (hi.symm.trans hj)
    exact ⟨E', List.mem_of_getElem? (List.getElem?_set_self hlt), hE hfakes⟩
  · refine ⟨F, List.mem_of_getElem? (i := j) ?_, hfakes⟩
    rw [List.getElem?_set_ne (Ne.symm hji), hj]

/-- Rings may change, if their receives forget nothing. -/
theorem Coming.setEnds {s : Driver} {i : Nat} (h : s.Coming i) {ends : List Endpoint}
    (hfakes : s.Fakes → ∃ E ∈ ends, E.Fakes) : Coming { s with ends := ends } i :=
  h.imp id (Or.imp id hfakes)

/-- **The invariant.** -/
structure Inv (s : Driver) : Prop where
  sound : ∀ (i : Nat) (E : Endpoint), s.ends[i]? = some E → E.alive = true → E.Sound
  watched : ∀ (i : Nat) (E : Endpoint), s.ends[i]? = some E → E.Driven ∨ s.Coming i

theorem Inv.init : Inv init := by
  constructor <;> intro i E hi <;> rw [Driver.init, List.getElem?_nil] at hi <;> cases hi

/-! ## A step of the pass -/

/-- What a step of the pass leaves to visit. -/
theorem RxStep.todo {todo todo' : List Nat} {stalled stalled' : Option Nat} {E E' : Endpoint}
    (h : RxStep todo stalled E todo' stalled' E') : todo' = todo ∨ todo' = todo.tail := by
  cases h with
  | skip | idle | full => exact .inr rfl
  | stall => exact .inl rfl
  | handle =>
    split
    · exact .inl rfl
    · exact .inr rfl

theorem RxStep.readers {todo todo' : List Nat} {stalled stalled' : Option Nat} {E E' : Endpoint}
    (h : RxStep todo stalled E todo' stalled' E') : E'.readers = E.readers := by
  cases h <;> rfl

theorem RxStep.sound {todo todo' : List Nat} {stalled stalled' : Option Nat} {E E' : Endpoint}
    (h : RxStep todo stalled E todo' stalled' E') (hE : E.alive = true → E.Sound)
    (hal : E'.alive = true) : E'.Sound := by
  cases h with
  | skip | stall => exact hE hal
  | idle => exact (hE hal).sameShape ⟨rfl, rfl, rfl, (SameShape.refl E.ring).state⟩ rfl
  | full => exact (hE hal).sameShape (.setFull ..) rfl
  | handle _ _ hne _ ho => exact (hE hal).sameShape (handle_shape hne ho) rfl

/-- A ring that the pass leaves needs no pass any more. -/
theorem RxStep.driven {i : Nat} {rest todo' : List Nat} {stalled stalled' : Option Nat}
    {E E' : Endpoint} (h : RxStep (i :: rest) stalled E todo' stalled' E')
    (hE : E.alive = true → E.Sound)
    (hstalled : ∀ ref, stalled = some ref → ∃ p, E.ring.waitsFor = some p ∧ p.ref = ref ∧
      p.pendingRecv.length > maxPendingRecvs) : E'.Driven ∨ todo' = i :: rest := by
  cases h with
  | skip _ hno =>
    left
    intro hal hty hne
    rcases hno with hno | hno | hno
    · rw [hno] at hal; cases hal
    · exact absurd hno hne
    · rcases hty with hty | hty <;> rw [hno] at hty <;> cases hty
  | idle _ _ hidle =>
    left
    intro _ hty
    rcases hty with hty | hty <;> rw [show E.ring.type = _ from hty] at hidle <;> cases hidle
  | stall => exact .inr rfl
  | @full ref hst =>
    left
    intro _ _ _
    obtain ⟨p, hp, href, hlen⟩ := hstalled ref hst
    have hw := Ring.waitsFor_mapSocks (f := fun q => if q.ref = ref then { q with full := true }
      else q) (fun q => by split <;> exact ⟨rfl, rfl⟩) hp
    rw [if_pos href] at hw
    exact ⟨_, hw, hlen, rfl⟩
  | @handle o _ hal hne hroom ho =>
    right
    rcases handle_ret (hE hal).sponsor_ne_none hne ho with hret | ⟨q, hq, hfull⟩
    · exact if_pos hret
    · exact absurd hfull (hroom q hq)

/-! ## A step of the driver -/

theorem Inv.arrive {s : Driver} {i : Nat} {m : Message} {E : Endpoint} (h : s.Inv)
    (hi : s.ends[i]? = some E) (hal : E.alive = true) : Inv { s with
      ends := s.ends.set i { E with ring := { E.ring with queue := E.ring.queue ++ [m] } }
      irq := true } := by
  refine ⟨?_, fun _ _ _ => .inr (.inl rfl)⟩
  refine getElem?_set_imp (P := fun _ E => E.alive = true → E.Sound)
    (fun j E _ hj => h.sound j E hj) fun _ => ?_
  exact (h.sound i E hi hal).sameShape ⟨rfl, rfl, rfl, (SameShape.refl E.ring).state⟩ rfl

theorem mem_range_of_getElem? {ends : List Endpoint} {i : Nat} {E : Endpoint}
    (hi : ends[i]? = some E) : i ∈ List.range ends.length :=
  List.mem_range.mpr (List.getElem?_eq_some_iff.mp hi).1

theorem Inv.fakeIrq {s : Driver} {i ref : Nat} {E : Endpoint} {c : RecvCall} (h : s.Inv)
    (hi : s.ends[i]? = some E) : Inv { s with
      ends := s.ends.set i { E with
        readers := Function.update E.readers ref (some { c with phase := .checking }) }
      rx := some ⟨List.range s.ends.length, none, some (i, ref)⟩ } := by
  constructor
  · refine getElem?_set_imp (P := fun _ E => E.alive = true → E.Sound)
      (fun j E _ hj => h.sound j E hj) fun hal => ?_
    exact (h.sound i E hi hal).sameShape (.refl _) rfl
  · refine getElem?_set_imp (P := fun j F => F.Driven ∨ Coming _ j) (fun j E _ hj => ?_) ?_
    · exact .inr (.inr (.inl ⟨_, rfl, mem_range_of_getElem? hj⟩))
    · exact .inr (.inr (.inl ⟨_, rfl, mem_range_of_getElem? hi⟩))

theorem Inv.rx {s : Driver} {i : Nat} {rest todo' : List Nat} {stalled stalled' : Option Nat}
    {caller : Option (Nat × Nat)} {E E' : Endpoint} (h : s.Inv) (hok : s.Careful .rx)
    (hrx : s.rx = some ⟨i :: rest, stalled, caller⟩) (hi : s.ends[i]? = some E)
    (hs : RxStep (i :: rest) stalled E todo' stalled' E') :
    Inv { s with ends := s.ends.set i E', rx := some ⟨todo', stalled', caller⟩ } := by
  have hfakes : s.Fakes → ∃ E ∈ s.ends.set i E', E.Fakes :=
    fakes_set hi fun hE => hE.congr hs.readers
  constructor
  · exact getElem?_set_imp (P := fun _ E => E.alive = true → E.Sound)
      (fun j E _ hj => h.sound j E hj) (hs.sound (h.sound i E hi))
  · refine getElem?_set_imp (P := fun j F => F.Driven ∨ Coming _ j) (fun j F hji hj => ?_) ?_
    · rcases h.watched j F hj with hF | hirq | ⟨P, hP, hmem⟩ | hF
      · exact .inl hF
      · exact .inr (.inl hirq)
      · obtain rfl := Option.some.inj (hrx.symm.trans hP)
        have hrest : j ∈ rest := (List.mem_cons.mp hmem).resolve_left hji
        refine .inr (.inr (.inl ⟨_, rfl, ?_⟩))
        rcases hs.todo with htodo | htodo
        · exact htodo ▸ List.mem_cons_of_mem i hrest
        · exact htodo ▸ hrest
      · exact .inr (.inr (.inr (hfakes hF)))
    · rcases hs.driven (h.sound i E hi) fun ref href => hok i rest ref caller E (href ▸ hrx) hi with
        hE' | htodo
      · exact .inl hE'
      · exact .inr (.inr (.inl ⟨_, rfl, htodo ▸ List.mem_cons_self⟩))

theorem Inv.bind {s : Driver} {id : RingId} {ref : Nat} (h : s.Inv) :
    Inv { s with ends := s.ends ++ [.bind id ref] } := by
  have hnew : ∀ (j : Nat) (E : Endpoint), (s.ends ++ [Endpoint.bind id ref])[j]? = some E →
      s.ends[j]? = some E ∨ E = Endpoint.bind id ref := by
    intro j E hj
    rw [List.getElem?_append] at hj
    split at hj
    · exact .inl hj
    · right
      obtain ⟨hlt, rfl⟩ := List.getElem?_eq_some_iff.mp hj
      exact List.mem_singleton.mp (List.getElem_mem hlt)
  constructor
  · intro j E hj hal
    rcases hnew j E hj with hj | rfl
    · exact h.sound j E hj hal
    · refine ⟨fun hne => absurd rfl hne, fun hnone => (nomatch hnone), ?_,
        fun _ _ hc => (nomatch hc), List.nodup_singleton _⟩
      rintro p ⟨⟩
      exact ⟨fun hst => (nomatch hst), fun hty => (nomatch hty)⟩
  · intro j E hj
    rcases hnew j E hj with hj | rfl
    · refine (h.watched j E hj).imp_right fun hcom => hcom.setEnds fun hF => ?_
      obtain ⟨F, hF, hfakes⟩ := hF
      exact ⟨F, List.mem_append_left _ hF, hfakes⟩
    · exact .inl fun _ _ hne => absurd rfl hne

theorem Inv.call {s : Driver} {i : Nat} {a : EndAct} {E E' : Endpoint} (h : s.Inv)
    (hok : s.Careful (.call i a)) (hi : s.ends[i]? = some E) (hal : E.alive = true)
    (hs : E.Step a E') : Inv { s with ends := s.ends.set i E' } := by
  have hlt := (List.getElem?_eq_some_iff.mp hi).1
  have hsound := h.sound i E hi hal
  obtain ⟨htime, hleaves⟩ := hok E hi
  have hfakes : s.Fakes → ∃ E ∈ s.ends.set i E', E.Fakes := fakes_set hi hs.fakes
  constructor
  · exact getElem?_set_imp (P := fun _ E => E.alive = true → E.Sound)
      (fun j E _ hj => h.sound j E hj) (hs.sound hsound htime)
  · refine getElem?_set_imp (P := fun j F => F.Driven ∨ Coming _ j) (fun j F _ hj => ?_) ?_
    · exact (h.watched j F hj).imp_right fun hcom => hcom.setEnds hfakes
    · rcases h.watched i E hi with hE | hcom
      · rcases hleaves with hcom | hleaves
        · exact .inr (hcom.setEnds hfakes)
        · rcases hs.driven hE hsound hal hleaves with hE' | hE'
          · exact .inl hE'
          · exact .inr (.inr (.inr ⟨E', List.mem_of_getElem? (List.getElem?_set_self hlt), hE'⟩))
      · exact .inr (hcom.setEnds hfakes)

/-- **One step.** -/
theorem Step.inv {s s' : Driver} {act : DriverAct} (hs : s.Step act s') (h : s.Inv)
    (hok : s.Careful act) : s'.Inv := by
  cases hs with
  | arrive hi hal => exact h.arrive hi hal
  | interrupt _ _ =>
    exact ⟨h.sound, fun i E hi => .inr (.inr (.inl ⟨_, rfl, mem_range_of_getElem? hi⟩))⟩
  | fakeIrq hi _ _ _ => exact h.fakeIrq hi
  | rx hrx hi hrs => exact h.rx hok hrx hi hrs
  | rxEnd hrx =>
    refine ⟨h.sound, fun i E hi => (h.watched i E hi).imp id (Or.imp id ?_)⟩
    rintro (⟨P, hP, hmem⟩ | hF)
    · obtain rfl := Option.some.inj (hrx.symm.trans hP)
      cases hmem
    · exact .inr hF
  | bind _ _ => exact h.bind
  | call hi hal _ _ hcall => exact h.call hok hi hal hcall

/-- **Every run.** -/
theorem Reached.inv {s : Driver} (h : Reached Careful s) : s.Inv := by
  induction h with
  | init => exact .init
  | step _ hok hs ih => exact hs.inv ih hok

/-! ## Quiescent states -/

/-- Nothing but its list holds up a ring that is not empty. -/
def HeadBlocked (s : Driver) : Prop :=
  ∀ E ∈ s.ends, E.alive = true → E.ring.Stream → E.ring.queue ≠ [] →
    ∃ p, E.ring.waitsFor = some p ∧ p.pendingRecv.length > maxPendingRecvs

theorem not_fakes_of_quiescent {s : Driver} (hq : s.Quiescent) : ¬ s.Fakes := by
  rintro ⟨E, hE, ref, c, hc, -⟩
  rw [(hq.2.2 E hE).1 ref] at hc
  cases hc

/-- **In every run of a careful driver**, a ring that is not empty in a quiescent state waits for
a full list. -/
theorem headBlocked_of_careful (s : Driver) (h : Reached Careful s) (hq : s.Quiescent) :
    s.HeadBlocked := by
  intro E hE hal hty hne
  obtain ⟨i, hi⟩ := List.mem_iff_getElem?.mp hE
  rcases h.inv.watched i E hi with hdriven | hirq | ⟨P, hP, -⟩ | hF
  · obtain ⟨p, hp, hlen, -⟩ := hdriven hal hty hne
    exact ⟨p, hp, hlen⟩
  · rw [hq.1] at hirq; cases hirq
  · rw [hq.2.1] at hP; cases hP
  · exact absurd hF (not_fakes_of_quiescent hq)

/-! ## A backlog of connections

Eighteen SYNs to one listener: seventeen fill its list, and the last one stays in the ring. -/

theorem Reached.mono {ok ok' : Driver → DriverAct → Prop} (hok : ∀ s act, ok s act → ok' s act)
    {s : Driver} (h : Reached ok s) : Reached ok' s := by
  induction h with
  | init => exact .init
  | step _ hact hs ih => exact ih.step (hok _ _ hact) hs

/-- The SYN of connection `k`. -/
def backlogSyn (k : Nat) : Message := streamMessage ⟨1000, 2⟩ ⟨shfSyn, UInt32.ofNat k⟩ []

/-- The listener, with `k` SYNs in its list. -/
def backlogSock (k : Nat) (full : Bool) : Sock where
  ref := 0
  state := .listening
  peer := ⟨0, 0⟩
  conid := 0
  pendingRecv := (List.range k).map fun j => ⟨⟨1000, 2⟩, ⟨shfSyn, UInt32.ofNat j⟩, [], 0⟩
  pendingError := 0
  full := full

/-- Its ring, with the next `n` SYNs. -/
def backlog (k n : Nat) (full : Bool) : Endpoint where
  ring := {
    id := ⟨⟨80, 1⟩, domidAny⟩
    type := .listener
    sponsor := some (backlogSock k full)
    privates := []
    queue := (List.range' k n).map backlogSyn }
  alive := true
  readers := fun _ => none
  accepts := fun _ => none
  connects := fun _ => false

theorem backlogSyn_has (k : Nat) :
    StreamHeader.has ⟨shfSyn, UInt32.ofNat k⟩ shfRst = false ∧
      StreamHeader.has ⟨shfSyn, UInt32.ofNat k⟩ shfSyn = true :=
  ⟨StreamHeader.has_of_flags _ (by decide), StreamHeader.has_of_flags _ (by decide)⟩

theorem backlog_waitsFor (k n : Nat) (full : Bool) :
    (backlog k (n + 1) full).ring.waitsFor = some (backlogSock k full) := by
  obtain ⟨hrst, hsyn⟩ := backlogSyn_has k
  simp only [backlog, Ring.waitsFor, List.range'_succ, List.map_cons, backlogSyn,
    peekHeader_streamMessage, List.find?_nil]
  exact if_pos ⟨hrst, hsyn, trivial⟩

theorem backlog_handle (k n : Nat) (hk : k ≤ maxPendingRecvs) :
    (backlog k (n + 1) false).ring.handle none =
      some ⟨0, (backlog (k + 1) n false).ring, none, none⟩ := by
  have hroom : ¬ (backlogSock k false).pendingRecv.length > maxPendingRecvs := by
    simpa [backlogSock] using hk
  obtain ⟨hrst, hsyn⟩ := backlogSyn_has k
  simp only [backlog, Ring.handle, listenerInterrupt, List.range'_succ, List.map_cons, backlogSyn,
    peekHeader_streamMessage, onFirst, hrst, hsyn, copyIntoPendingRecv, if_neg hroom]
  simp [backlogSock, kmalloc, List.range_succ, streamMessage]

/-- The SYNs arrive. -/
theorem reached_backlog (n : Nat) : Reached Careful ⟨[backlog 0 n false], n != 0, none⟩ := by
  induction n with
  | zero =>
    have hbind : Step init (.bind ⟨⟨80, 1⟩, domidAny⟩ 0)
        ⟨[.bind ⟨⟨80, 1⟩, domidAny⟩ 0], false, none⟩ :=
      .bind rfl fun E hE => (nomatch hE)
    have hcall : (Endpoint.bind ⟨⟨80, 1⟩, domidAny⟩ 0).Step .listen (backlog 0 0 false) :=
      Endpoint.Step.listen (E := Endpoint.bind ⟨⟨80, 1⟩, domidAny⟩ 0) rfl
    have hlisten : Step ⟨[.bind ⟨⟨80, 1⟩, domidAny⟩ 0], false, none⟩ (.call 0 .listen)
        ⟨[backlog 0 0 false], false, none⟩ :=
      .call rfl rfl (fun h => (nomatch h)) (fun _ _ _ h => (nomatch h)) hcall
    refine (Reached.init.step trivial hbind).step ?_ hlisten
    rintro E ⟨⟩
    exact ⟨trivial, .inr fun _ _ _ => rfl⟩
  | succ n ih =>
    have hqueue : (List.range' 0 n).map backlogSyn ++ [backlogSyn n] =
        (List.range' 0 (n + 1)).map backlogSyn := by
      rw [List.range'_1_concat, List.map_append, Nat.zero_add]
      rfl
    have harrive : Step ⟨[backlog 0 n false], n != 0, none⟩ (.arrive 0 (backlogSyn n))
        ⟨[{ backlog 0 n false with ring := { (backlog 0 n false).ring with
          queue := (List.range' 0 n).map backlogSyn ++ [backlogSyn n] } }], true, none⟩ :=
      .arrive rfl rfl
    rw [hqueue] at harrive
    refine ih.step ?_ harrive
    exact trivial

theorem rx_one {E E' : Endpoint} {irq : Bool} {todo' : List Nat} {stalled stalled' : Option Nat}
    (h : RxStep [0] stalled E todo' stalled' E') :
    Step ⟨[E], irq, some ⟨[0], stalled, none⟩⟩ .rx ⟨[E'], irq, some ⟨todo', stalled', none⟩⟩ :=
  .rx rfl rfl h

/-- The pass moves `k` of them to the list. -/
theorem reached_drained (n k : Nat) (hk : k ≤ maxPendingRecvs + 1) :
    Reached Careful ⟨[backlog k (n + (maxPendingRecvs + 1 - k)) false], false,
      some ⟨[0], none, none⟩⟩ := by
  induction k with
  | zero =>
    have hpass : Step ⟨[backlog 0 (n + (maxPendingRecvs + 1)) false], true, none⟩ .interrupt
        ⟨[backlog 0 (n + (maxPendingRecvs + 1)) false], false, some ⟨[0], none, none⟩⟩ :=
      .interrupt rfl rfl
    refine (reached_backlog (n + (maxPendingRecvs + 1))).step ?_ hpass
    exact trivial
  | succ k ih =>
    have hk' : k ≤ maxPendingRecvs := by omega
    obtain ⟨j, hj⟩ : ∃ j, maxPendingRecvs + 1 - k = j + 1 := ⟨maxPendingRecvs - k, by omega⟩
    have hj' : maxPendingRecvs + 1 - (k + 1) = j := by omega
    have ih := ih (by omega)
    rw [hj, ← Nat.add_assoc] at ih
    rw [hj']
    have hroom : ∀ p, (backlog k (n + j + 1) false).ring.waitsFor = some p →
        ¬ p.pendingRecv.length > maxPendingRecvs := by
      intro p hp
      rw [backlog_waitsFor] at hp
      obtain rfl := Option.some.inj hp
      simpa [backlogSock] using hk'
    have hne : (backlog k (n + j + 1) false).ring.queue ≠ [] := by
      simp [backlog, List.range'_succ]
    have hstep : Step ⟨[backlog k (n + j + 1) false], false, some ⟨[0], none, none⟩⟩ .rx
        ⟨[backlog (k + 1) (n + j) false], false, some ⟨[0], none, none⟩⟩ :=
      rx_one (.handle rfl rfl hne hroom (backlog_handle k (n + j) hk'))
    refine ih.step ?_ hstep
    exact fun i rest ref caller E hrx => (nomatch hrx)

/-- The list is full, and the pass leaves the ring. -/
theorem reached_blocked (n : Nat) : Reached Careful ⟨[backlog 17 (n + 1) true], false, none⟩ := by
  have hlong : (backlogSock 17 false).pendingRecv.length > maxPendingRecvs := by decide
  have hstall : Step ⟨[backlog 17 (n + 1) false], false, some ⟨[0], none, none⟩⟩ .rx
      ⟨[backlog 17 (n + 1) false], false, some ⟨[0], some 0, none⟩⟩ :=
    rx_one (.stall rfl rfl (backlog_waitsFor 17 n false) hlong)
  have hfull : Step ⟨[backlog 17 (n + 1) false], false, some ⟨[0], some 0, none⟩⟩ .rx
      ⟨[backlog 17 (n + 1) true], false, some ⟨[], none, none⟩⟩ :=
    rx_one (.full rfl)
  have hend : Step ⟨[backlog 17 (n + 1) true], false, some ⟨[], none, none⟩⟩ .rx
      ⟨[backlog 17 (n + 1) true], false, none⟩ := .rxEnd rfl
  refine (((reached_drained (n + 1) 17 (by decide)).step ?_ hstall).step ?_ hfull).step ?_ hend
  · exact fun i rest ref caller E hrx => (nomatch hrx)
  · rintro i rest ref caller E ⟨⟩ ⟨⟩
    exact ⟨_, backlog_waitsFor 17 n false, rfl, hlong⟩
  · exact fun i rest ref caller E hrx => (nomatch hrx)

theorem quiescent_blocked (n : Nat) : Quiescent ⟨[backlog 17 (n + 1) true], false, none⟩ := by
  refine ⟨rfl, rfl, fun E hE => ?_⟩
  obtain rfl := List.mem_singleton.mp hE
  exact ⟨fun _ => rfl, fun _ => rfl, fun _ => rfl⟩

theorem headBlocked_backlog :
    (∃ E, HeadBlocked ⟨[E], false, none⟩ ∧ E.alive = true ∧ E.ring.Stream ∧ E.ring.queue ≠ []) :=
  ⟨backlog 17 1 true, headBlocked_of_careful _ (reached_blocked 0) (quiescent_blocked 0), rfl,
    .inr rfl, List.cons_ne_nil _ _⟩

/-- The ring when the first connection has been taken off the list. -/
def acceptedBacklog (accepts : Nat → Option AcceptCall) (privates : List Sock) : Endpoint where
  ring := {
    id := ⟨⟨80, 1⟩, domidAny⟩
    type := .listener
    sponsor := some { backlogSock 17 true with
      pendingRecv := (backlogSock 17 true).pendingRecv.tail }
    privates := privates
    queue := [backlogSyn 17] }
  alive := true
  readers := fun _ => none
  accepts := accepts
  connects := fun _ => false

theorem call_one {E E' : Endpoint} {irq : Bool} {a : EndAct} (hal : E.alive = true)
    (h : E.Step a E') : Step ⟨[E], irq, none⟩ (.call 0 a) ⟨[E'], irq, none⟩ :=
  .call rfl hal (fun _ => rfl) (fun _ _ _ hrx => (nomatch hrx)) h

/-- **`v4v_accept` does not restart the ring**: the list has room again, nothing is in progress,
and the eighteenth SYN stays in the ring. -/
theorem accept_strands : ¬ ∀ s, Reached (fun _ _ => True) s → s.Quiescent → s.HeadBlocked := by
  intro hall
  let called : Nat → Option AcceptCall :=
    Function.update (fun _ => none) 0 (some (.waiting false))
  let taken : Nat → Option AcceptCall :=
    Function.update called 0 (some (.taken ⟨⟨1000, 2⟩, ⟨shfSyn, 0⟩, [], 0⟩))
  let stranded : Endpoint := acceptedBacklog (Function.update taken 0 none)
    [⟨1, .accepted, ⟨1000, 2⟩, 0, [], 0, false⟩]
  have hreached : Reached (fun _ _ => True) ⟨[backlog 17 1 true], false, none⟩ :=
    (reached_blocked 0).mono fun _ _ _ => trivial
  have haccept : (backlog 17 1 true).Step (.accept 0 false)
      { backlog 17 1 true with accepts := called } := .accept rfl rfl rfl
  have hpop : Endpoint.Step { backlog 17 1 true with accepts := called } (.acceptPop 0)
      (acceptedBacklog taken []) := .acceptPop rfl rfl rfl
  have hend : (acceptedBacklog taken []).Step (.acceptEnd 0 1 true) stranded := by
    have hfresh : ∀ p ∈ (acceptedBacklog taken []).ring.socks, p.ref ≠ 1 := by
      intro p hp
      obtain rfl := List.mem_singleton.mp hp
      exact Nat.zero_ne_one
    exact Endpoint.Step.acceptEnd (E := acceptedBacklog taken []) (t := 0) rfl hfresh rfl
  have hstranded := ((hreached.step trivial (call_one rfl haccept)).step trivial
    (call_one rfl hpop)).step trivial (call_one rfl hend)
  have hquiet : Quiescent ⟨[stranded], false, none⟩ := by
    refine ⟨rfl, rfl, fun E hE => ?_⟩
    obtain rfl := List.mem_singleton.mp hE
    refine ⟨fun _ => rfl, fun t => ?_, fun _ => rfl⟩
    simp [stranded, acceptedBacklog, taken, called]
  obtain ⟨p, hp, hlen⟩ := hall _ hstranded hquiet stranded List.mem_cons_self rfl (.inr rfl)
    (List.cons_ne_nil _ _)
  have hwaits : stranded.ring.waitsFor =
      some { backlogSock 17 true with pendingRecv := (backlogSock 17 true).pendingRecv.tail } := by
    decide
  obtain rfl := Option.some.inj (hwaits.symm.trans hp)
  exact absurd hlen (by decide)

end Driver

end V4v.Linux
