import LegacyV4v.ConnectorCompletion
import LegacyV4v.ListenerLoop

/-! # How a listener's ring is drained

`V4vProcessListenerReads` where the rings hold queues of messages.  A round should take the message at the head of
the listener's ring, or nothing.  It takes more when a listener that is passive gets a SYN: the next message is
dumped as well.  And it takes from another ring when the connection id is that of another listener's accepter.

The loop should go on until the ring is empty.  It is left at once for the RST of an accepted connection, which
stays in the ring; it does not come to an end when the connection id is that of another listener's accepter, nor
when there is never memory for the data of an accepter without reads. -/
namespace V4v.Windows
open MachineWord CyclicBuffer RecordStream GuardedRun
open Linux (StreamHeader peekHeader shfSyn shfRst drained sizeofStreamHeader)

section Ring
variable {m : PageMem} {q : List Message}

theorem holds_drained (h : m.Holds q) : drained m ↔ q = [] := by
  cases q with
  | nil => exact iff_of_true h.empty.symm rfl
  | cons msg q => exact iff_of_false h.not_empty (List.cons_ne_nil _ _)

/-- There is nothing at the head of an empty ring. -/
theorem headMessage_drained (h : drained m) : headMessage m = none := by
  unfold headMessage
  rw [copyOut_empty h.symm]
  rfl

theorem dropHead_drained (h : drained m) : dropHead m = m := by
  unfold dropHead
  rw [copyOut_empty h.symm]

/-- The bytes that have not been read. -/
def unread (m : PageMem) : Nat :=
  distance (read m.byte offsetofLen 4) (read m.byte offsetofRxPtr 4) (read m.byte offsetofTxPtr 4)

theorem unread_dropHead (h : m.Holds q) (hm : ¬ drained m) : unread (dropHead m) < unread m := by
  have htail := dropHead_tail h
  cases q with
  | nil => exact absurd h.empty.symm hm
  | cons msg q =>
    unfold unread
    rw [← h.unread, ← htail.unread, List.map_cons, total_cons, Message.record_size, List.tail_cons]
    unfold sizeofMessageHeader
    omega

end Ring

namespace ListenerLoop
variable {s t u : ListenerLoop} {l actx n : Nat} {state : FileState} {memory : RoundMemory} {pool : Bool}
  {sh : StreamHeader} {msg : Message} {q q' : List Message}

/-- Every ring holds a queue of messages. -/
def Queued (s : ListenerLoop) : Prop := ∀ r, ∃ q, (s.rings r).Holds q

/-- From `s` to `t` at most the message at the head of the listener's ring is gone. -/
structure RemovesAtMostHead (l : Nat) (s t : ListenerLoop) : Prop where
  head : ∀ q, (s.ring l).Holds q → ∃ q', (t.rings (s.ringObject l)).Holds q' ∧ (q' = q ∨ q' = q.tail)
  others : ∀ r, r ≠ s.ringObject l → ∀ q, (s.rings r).Holds q → (t.rings r).Holds q

/-- The message at the head of the listener's ring has this header, no SYN, and `n` bytes of data, and its
connection id is that of an accepter. -/
structure Finds (s : ListenerLoop) (l : Nat) (sh : StreamHeader) (n actx : Nat) : Prop where
  message : ∃ msg data, headMessage (s.ring l) = some msg ∧ peekHeader msg = some (sh, data) ∧ data.length = n
  syn : sh.has shfSyn = false
  found : s.device.getContextByConnectionId sh.conid.toUInt64 = some actx

/-- The round takes more than the head: it dumps what follows a SYN, or takes from another ring. -/
def Swallows (s : ListenerLoop) (l : Nat) (state : FileState) (pool : Bool) : Prop :=
  (∃ msg sh data, headMessage (s.ring l) = some msg ∧ peekHeader msg = some (sh, data) ∧
    sh.has shfSyn = true ∧ state ≠ .listening ∧ ¬ drained (dropHead (s.ring l))) ∨
  ∃ sh n actx, s.Finds l sh n actx ∧ sh.has shfRst = false ∧ s.ringObject actx ≠ s.ringObject l ∧
    ¬ drained (s.ring actx) ∧ (s.device.NeedsBuffer actx n → pool = true)

/-- The loop is left here, or never: at the head is a RST for an accepter, or data for one that has another
ring. -/
def Strands (s : ListenerLoop) (l : Nat) : Prop :=
  ∃ sh n actx, s.Finds l sh n actx ∧ (sh.has shfRst = true ∨ s.ringObject actx ≠ s.ringObject l)

/-- At the head is data that has to be kept in memory, and there is none. -/
def Starved (s : ListenerLoop) (l : Nat) (pool : Bool) : Prop :=
  ∃ sh n actx, s.Finds l sh n actx ∧ s.device.NeedsBuffer actx n ∧ pool = false

/-! ## One round -/

/-- What a round is to the rings and to the loop. -/
inductive RoundIs (s : ListenerLoop) (l : Nat) (state : FileState) (pool : Bool) : Bool × ListenerLoop → Prop
  | empty : drained (s.ring l) → RoundIs s l state pool (false, s)
  | head {t : ListenerLoop} {msg : Message} {q : List Message} : (s.ring l).Holds (msg :: q) →
      (∀ sh data, peekHeader msg = some (sh, data) → sh.has shfSyn = true → state = .listening) →
      (∀ sh n actx, ¬ s.Finds l sh n actx) → t.ringObject = s.ringObject →
      t.rings = Function.update s.rings (s.ringObject l) (dropHead (s.ring l)) → RoundIs s l state pool (true, t)
  | twice {t : ListenerLoop} {msg : Message} {q : List Message} {sh : StreamHeader} {data : List UInt8} :
      (s.ring l).Holds (msg :: q) → peekHeader msg = some (sh, data) → sh.has shfSyn = true →
      state ≠ .listening → t.ringObject = s.ringObject →
      t.rings = Function.update s.rings (s.ringObject l) (dropHead (dropHead (s.ring l))) →
      RoundIs s l state pool (true, t)
  | rst {t : ListenerLoop} {msg : Message} {q : List Message} {sh : StreamHeader} {n actx : Nat} :
      (s.ring l).Holds (msg :: q) → s.Finds l sh n actx → sh.has shfRst = true → t.ringObject = s.ringObject →
      t.rings = s.rings → RoundIs s l state pool (false, t)
  | data {t : ListenerLoop} {msg : Message} {q : List Message} {sh : StreamHeader} {n actx : Nat} :
      (s.ring l).Holds (msg :: q) → s.Finds l sh n actx → sh.has shfRst = false → t.ringObject = s.ringObject →
      s.device.SameConnections t.device →
      t.rings = (if s.device.NeedsBuffer actx n → pool = true then
        Function.update s.rings (s.ringObject actx) (readOut (s.ring actx)) else s.rings) →
      RoundIs s l state pool (true, t)

theorem round_is (h : s.Queued) (l : Nat) (state : FileState) (memory : RoundMemory) :
    s.RoundIs l state memory.pool (s.round l state memory) := by
  obtain ⟨q, hq⟩ := h (s.ringObject l)
  have hring : (s.ring l).Holds q := hq
  cases q with
  | nil =>
    have hm : drained (s.ring l) := hring.empty.symm
    rw [show s.round l state memory = (false, s) from if_pos hm]
    exact .empty hm
  | cons msg q =>
    have hhead := (HeadIs.of_holds hring).headMessage
    have hnone : ∀ {sh' n' actx'}, s.Finds l sh' n' actx' → ∃ data, peekHeader msg = some (sh', data) := by
      rintro sh' n' actx' ⟨⟨msg', data', hmsg', hpeek', -⟩, -, -⟩
      obtain rfl := Option.some.inj (hmsg'.symm.trans hhead)
      exact ⟨data', hpeek'⟩
    rw [round_cons hring]
    cases hpeek : peekHeader msg with
    | none =>
      refine .head hring (fun sh data hsome => ?_) (fun sh n actx hf => ?_) rfl rfl
      · rw [hpeek] at hsome
        cases hsome
      · obtain ⟨data, hdata⟩ := hnone hf
        rw [hpeek] at hdata
        cases hdata
    | some o =>
      obtain ⟨sh, data⟩ := o
      dsimp only
      split
      · next hsyn =>
        split
        · next hstate =>
          refine .head hring (fun _ _ _ _ => hstate) (fun sh' n actx hf => ?_) rfl rfl
          obtain ⟨data', hdata'⟩ := hnone hf
          obtain ⟨rfl, -⟩ := Prod.mk.inj (Option.some.inj (hpeek.symm.trans hdata'))
          rw [hf.syn] at hsyn
          cases hsyn
        · next hstate => exact .twice hring hpeek hsyn hstate rfl rfl
      · next hsyn =>
        have hfinds : ∀ {actx}, s.device.getContextByConnectionId sh.conid.toUInt64 = some actx →
            s.Finds l sh data.length actx :=
          fun hfound => ⟨⟨msg, data, hhead, hpeek, rfl⟩, Bool.not_eq_true _ ▸ hsyn, hfound⟩
        split
        · next hfound =>
          refine .head hring (fun sh' _ hsome hsyn' => ?_) (fun sh' n actx hf => ?_) rfl rfl
          · obtain ⟨rfl, -⟩ := Prod.mk.inj (Option.some.inj (hpeek.symm.trans hsome))
            exact absurd hsyn' hsyn
          · obtain ⟨data', hdata'⟩ := hnone hf
            obtain ⟨rfl, -⟩ := Prod.mk.inj (Option.some.inj (hpeek.symm.trans hdata'))
            cases hfound.symm.trans hf.found
        · next actx hfound =>
          split
          · next hrst => exact .rst hring (hfinds hfound) hrst rfl rfl
          · next hrst =>
            have hframe := s.bufferedReads_frame actx msg.payload.length memory.pool
            have hlength : msg.payload.length - sizeofStreamHeader = data.length := by
              unfold peekHeader at hpeek
              split at hpeek
              · cases hpeek
              · obtain ⟨-, rfl⟩ := Prod.mk.inj (Option.some.inj hpeek)
                rw [List.length_drop]
            refine .data hring (hfinds hfound) (Bool.not_eq_true _ ▸ hrst) hframe.1 hframe.2 ?_
            rw [bufferedReads_rings, hlength]

/-- Every ring still holds a queue. -/
theorem RoundIs.queued {o : Bool × ListenerLoop} (h : s.RoundIs l state pool o) (hs : s.Queued) :
    o.2.Queued ∧ o.2.ringObject = s.ringObject := by
  have hupdate : ∀ {t : ListenerLoop} {r : Nat} {m : PageMem} {q : List Message}, m.Holds q →
      t.rings = Function.update s.rings r m → t.Queued := by
    intro t r m q hm ht r'
    rw [ht]
    by_cases hr : r' = r
    · rw [hr, Function.update_self]
      exact ⟨q, hm⟩
    · rw [Function.update_of_ne hr]
      exact hs r'
  cases h with
  | empty => exact ⟨hs, rfl⟩
  | head hring _ _ hobject ht => exact ⟨hupdate (dropHead_tail hring) ht, hobject⟩
  | twice hring _ _ _ hobject ht => exact ⟨hupdate (dropHead_tail (dropHead_tail hring)) ht, hobject⟩
  | rst hring _ _ hobject ht =>
    refine ⟨fun r => ?_, hobject⟩
    rw [ht]
    exact hs r
  | @data t _ _ sh n actx hring _ _ hobject _ ht =>
    refine ⟨?_, hobject⟩
    obtain ⟨q, hq⟩ := hs (s.ringObject actx)
    split at ht
    · exact hupdate (readOut_holds hq) ht
    · intro r
      rw [ht]
      exact hs r

/-- What is gone when one ring is replaced. -/
theorem removes_update {r : Nat} {m : PageMem} (hq : (s.rings r).Holds q) (hm : m.Holds q')
    (ht : t.rings = Function.update s.rings r m) :
    RemovesAtMostHead l s t ↔ q' = q ∨ r = s.ringObject l ∧ q' = q.tail := by
  constructor
  · rintro ⟨hhead, hothers⟩
    by_cases hr : r = s.ringObject l
    · obtain ⟨q'', hq'', hcase⟩ := hhead q (show (s.rings (s.ringObject l)).Holds q from hr ▸ hq)
      rw [ht, ← hr, Function.update_self] at hq''
      rw [holds_unique hm hq'']
      exact hcase.imp_right fun heq => ⟨hr, heq⟩
    · have hsame := hothers r hr q hq
      rw [ht, Function.update_self] at hsame
      exact .inl (holds_unique hm hsame)
  · intro hcase
    refine ⟨fun p hp => ?_, fun r' hr' p hp => ?_⟩
    · by_cases hr : s.ringObject l = r
      · rw [ht, hr, Function.update_self]
        obtain rfl := holds_unique hq (show (s.rings r).Holds p from hr ▸ hp)
        exact ⟨q', hm, hcase.imp_right And.right⟩
      · rw [ht, Function.update_of_ne hr]
        exact ⟨p, hp, .inl rfl⟩
    · rw [ht]
      by_cases hr : r' = r
      · obtain rfl := holds_unique hq (hr ▸ hp)
        rcases hcase with rfl | ⟨hl, -⟩
        · rw [hr, Function.update_self]
          exact hm
        · exact absurd (hr.trans hl) hr'
      · rw [Function.update_of_ne hr]
        exact hp

theorem removes_same (ht : t.rings = s.rings) : RemovesAtMostHead l s t := by
  refine ⟨fun p hp => ?_, fun r _ p hp => ?_⟩
  · rw [ht]
    exact ⟨p, hp, .inl rfl⟩
  · rw [ht]
    exact hp

theorem Finds.unique {sh' : StreamHeader} {n' actx' : Nat} (h : s.Finds l sh n actx)
    (h' : s.Finds l sh' n' actx') : sh' = sh ∧ n' = n ∧ actx' = actx := by
  obtain ⟨⟨msg, data, hmsg, hpeek, rfl⟩, -, hfound⟩ := h
  obtain ⟨⟨msg', data', hmsg', hpeek', rfl⟩, -, hfound'⟩ := h'
  obtain rfl := Option.some.inj (hmsg.symm.trans hmsg')
  obtain ⟨rfl, rfl⟩ := Prod.mk.inj (Option.some.inj (hpeek.symm.trans hpeek'))
  exact ⟨rfl, rfl, Option.some.inj (hfound'.symm.trans hfound)⟩

/-- The header of the message at the head has no SYN, if it finds an accepter. -/
theorem Finds.no_syn {data : List UInt8} {sh' : StreamHeader} (h : s.Finds l sh n actx)
    (hmsg : headMessage (s.ring l) = some msg) (hpeek : peekHeader msg = some (sh', data)) :
    sh'.has shfSyn = false := by
  obtain ⟨⟨msg', data', hmsg', hpeek', -⟩, hsyn, -⟩ := h
  obtain rfl := Option.some.inj (hmsg.symm.trans hmsg')
  obtain ⟨rfl, -⟩ := Prod.mk.inj (Option.some.inj (hpeek.symm.trans hpeek'))
  exact hsyn

/-- **One round removes at most the head, exactly if** it does not swallow. -/
theorem RoundIs.removes {o : Bool × ListenerLoop} (h : s.RoundIs l state pool o) (hs : s.Queued) :
    RemovesAtMostHead l s o.2 ↔ ¬ s.Swallows l state pool := by
  cases h with
  | empty hm =>
    refine iff_of_true (removes_same rfl) ?_
    rintro (⟨msg, -, -, hmsg, -⟩ | ⟨sh, n, actx, ⟨⟨msg, -, hmsg, -⟩, -, -⟩, -⟩)
    · rw [headMessage_drained hm] at hmsg
      cases hmsg
    · rw [headMessage_drained hm] at hmsg
      cases hmsg
  | @head t msg q hring hsyn hfinds hobject ht =>
    refine iff_of_true ((removes_update hring (dropHead_holds hring) ht).mpr (.inr ⟨rfl, rfl⟩)) ?_
    rintro (⟨msg', sh, data, hmsg, hpeek, hsyn', hstate, -⟩ | ⟨sh, n, actx, hf, -⟩)
    · obtain rfl := Option.some.inj (hmsg.symm.trans (HeadIs.of_holds hring).headMessage)
      exact hstate (hsyn sh data hpeek hsyn')
    · exact hfinds sh n actx hf
  | @twice t msg q sh data hring hpeek hsyn hstate hobject ht =>
    have hmsg := (HeadIs.of_holds hring).headMessage
    have htail := dropHead_holds hring
    rw [removes_update hring (dropHead_tail htail) ht]
    -- two messages are gone, if there are two
    have hgone : (q.tail = msg :: q ∨ s.ringObject l = s.ringObject l ∧ q.tail = (msg :: q).tail) ↔ q = [] := by
      have hlength := List.length_tail (l := q)
      constructor
      · rintro (heq | ⟨-, heq⟩)
        · rw [heq, List.length_cons] at hlength
          omega
        · rw [List.tail_cons] at heq
          rw [heq] at hlength
          exact List.length_eq_zero_iff.mp (by omega)
      · rintro rfl
        exact .inr ⟨rfl, rfl⟩
    rw [hgone, ← holds_drained htail]
    constructor
    · rintro hm (⟨-, -, -, -, -, -, -, hmore⟩ | ⟨sh', n, actx, hf, -⟩)
      · exact hmore hm
      · rw [hf.no_syn hmsg hpeek] at hsyn
        cases hsyn
    · intro hno
      by_contra hm
      exact hno (.inl ⟨msg, sh, data, hmsg, hpeek, hsyn, hstate, hm⟩)
  | @rst t msg q sh n actx hring hf hrst hobject ht =>
    refine iff_of_true (removes_same ht) ?_
    rintro (⟨msg', sh', data, hmsg, hpeek, hsyn, -⟩ | ⟨sh', n', actx', hf', hrst', -⟩)
    · rw [hf.no_syn hmsg hpeek] at hsyn
      cases hsyn
    · obtain ⟨rfl, -, -⟩ := hf.unique hf'
      rw [hrst] at hrst'
      cases hrst'
  | @data t msg q sh n actx hring hf hrst hobject hsame ht =>
    obtain ⟨p, hp⟩ := hs (s.ringObject actx)
    have hswallows : s.Swallows l state pool ↔ s.ringObject actx ≠ s.ringObject l ∧
        ¬ drained (s.ring actx) ∧ (s.device.NeedsBuffer actx n → pool = true) := by
      constructor
      · rintro (⟨msg', sh', data, hmsg, hpeek, hsyn, -⟩ | ⟨sh', n', actx', hf', -, hrest⟩)
        · rw [hf.no_syn hmsg hpeek] at hsyn
          cases hsyn
        · obtain ⟨rfl, rfl, rfl⟩ := hf.unique hf'
          exact hrest
      · exact fun hrest => .inr ⟨sh, n, actx, hf, hrst, hrest⟩
    rw [hswallows]
    split at ht
    · next htakes =>
      rw [removes_update hp (readOut_holds hp) ht, holds_drained (show (s.ring actx).Holds p from hp)]
      have hgone : p.tail = p ↔ p = [] := by
        cases p with
        | nil => simp
        | cons x p => simp
      constructor
      · rintro (heq | ⟨heq, -⟩) ⟨hother, hmore, -⟩
        · exact hmore (hgone.mp heq)
        · exact hother heq
      · intro hno
        by_cases hown : s.ringObject actx = s.ringObject l
        · exact .inr ⟨hown, rfl⟩
        · by_cases hnil : p = []
          · exact .inl (hgone.mpr hnil)
          · exact absurd ⟨hown, hnil, htakes⟩ hno
    · next htakes => exact iff_of_true (removes_same ht) fun hrest => htakes hrest.2.2

/-! ## The loop -/

/-- The body of the loop. -/
def body (l : Nat) (state : FileState) (s : ListenerLoop) (memory : RoundMemory) : Bool × ListenerLoop :=
  s.round l state memory

section Loop
variable {i : Nat → RoundMemory} {k : Nat}

theorem begins_queued (h : begins (body l state) i s k = some u) (hs : s.Queued) :
    u.Queued ∧ u.ringObject = s.ringObject := by
  refine begins_invariant (P := fun u => u.Queued ∧ u.ringObject = s.ringObject) h ⟨hs, rfl⟩ ?_
  rintro u j t ⟨hu, hobject⟩ hb
  have hround := (round_is hu l state j).queued hu
  rw [show u.round l state j = (true, t) from hb] at hround
  exact ⟨hround.1, hround.2.trans hobject⟩

/-- Data for an accepter with another ring is never taken, and the loop goes on for ever. -/
theorem foreign_forever (hk : begins (body l state) i s k = some u) (hu : u.Queued) (hf : u.Finds l sh n actx)
    (hrst : sh.has shfRst = false) (hother : u.ringObject actx ≠ u.ringObject l) (d : Nat) :
    ∃ t, begins (body l state) i s (k + d) = some t := by
  let P (t : ListenerLoop) : Prop := t.Queued ∧ t.Finds l sh n actx ∧ t.ringObject actx ≠ t.ringObject l
  suffices hstep : ∀ v j, P v → ∃ t, body l state v j = (true, t) ∧ P t by
    obtain ⟨t, ht, -⟩ := begins_forever hk (⟨hu, hf, hother⟩ : P u) hstep d
    exact ⟨t, ht⟩
  rintro v j ⟨hv, hfv, hotherv⟩
  have hround := round_is hv l state j
  have hqueued := hround.queued hv
  show ∃ t, v.round l state j = (true, t) ∧ _
  generalize v.round l state j = o at hround hqueued
  cases hround with
  | empty hm =>
    obtain ⟨⟨msg, -, hmsg, -⟩, -, -⟩ := hfv
    rw [headMessage_drained hm] at hmsg
    cases hmsg
  | head _ _ hfinds => exact absurd hfv (hfinds sh n actx)
  | twice hring hpeek hsyn =>
    rw [hfv.no_syn (HeadIs.of_holds hring).headMessage hpeek] at hsyn
    cases hsyn
  | rst _ hf' hrst' =>
    obtain ⟨rfl, -, -⟩ := hf'.unique hfv
    rw [hrst] at hrst'
    cases hrst'
  | @data t _ _ _ _ _ _ hf' _ hobject hsame ht =>
    obtain ⟨rfl, rfl, rfl⟩ := hf'.unique hfv
    have hring : t.ring l = v.ring l := by
      unfold ring
      rw [hobject]
      split at ht
      · rw [ht, Function.update_of_ne hotherv.symm]
      · rw [ht]
    refine ⟨t, rfl, hqueued.1, ⟨?_, hfv.syn, ?_⟩, ?_⟩
    · rw [hring]
      exact hfv.message
    · rw [hsame.found]
      exact hfv.found
    · rw [hobject]
      exact hotherv

/-- The loop is left for a RST, which stays at the head of the ring. -/
theorem RoundIs.closes {o : Bool × ListenerLoop} (h : s.RoundIs l state pool o) (hf : s.Finds l sh n actx)
    (hrst : sh.has shfRst = true) : ∃ t, o = (false, t) ∧ ¬ drained (t.ring l) := by
  cases h with
  | empty hm =>
    obtain ⟨⟨msg, -, hmsg, -⟩, -, -⟩ := hf
    rw [headMessage_drained hm] at hmsg
    cases hmsg
  | head _ _ hfinds => exact absurd hf (hfinds sh n actx)
  | twice hq hpeek hsyn =>
    rw [hf.no_syn (HeadIs.of_holds hq).headMessage hpeek] at hsyn
    cases hsyn
  | @rst t _ _ _ _ _ hq _ _ hobject ht =>
    refine ⟨t, rfl, ?_⟩
    unfold ring
    rw [hobject, ht]
    exact hq.not_empty
  | data _ hf' hrst' =>
    obtain ⟨rfl, -, -⟩ := hf'.unique hf
    rw [hrst] at hrst'
    cases hrst'

/-- With memory, data for an accepter of this listener is taken. -/
theorem RoundIs.takes {o : Bool × ListenerLoop} (h : s.RoundIs l state true o) (hf : s.Finds l sh n actx)
    (hrst : sh.has shfRst = false) (hown : s.ringObject actx = s.ringObject l) (hp : (s.ring l).Holds q) :
    ∃ t, o = (true, t) ∧ (t.ring l).Holds q.tail := by
  cases h with
  | empty hm =>
    obtain ⟨⟨msg, -, hmsg, -⟩, -, -⟩ := hf
    rw [headMessage_drained hm] at hmsg
    cases hmsg
  | head _ _ hfinds => exact absurd hf (hfinds sh n actx)
  | twice hq hpeek hsyn =>
    rw [hf.no_syn (HeadIs.of_holds hq).headMessage hpeek] at hsyn
    cases hsyn
  | rst _ hf' hrst' =>
    obtain ⟨rfl, -, -⟩ := hf'.unique hf
    rw [hrst] at hrst'
    cases hrst'
  | @data t _ _ _ _ _ _ hf' _ hobject _ ht =>
    obtain ⟨rfl, rfl, rfl⟩ := hf'.unique hf
    rw [if_pos fun _ => rfl, hown] at ht
    refine ⟨t, rfl, ?_⟩
    unfold ring
    rw [hobject, ht, Function.update_self, show s.ring actx = s.ring l from congrArg s.rings hown]
    exact readOut_holds hp

/-- A round that does not strand takes the head, or finds the ring empty, or there is no memory. -/
theorem RoundIs.progress {o : Bool × ListenerLoop} (h : s.RoundIs l state pool o) (hstrands : ¬ s.Strands l) :
    o = (false, s) ∧ drained (s.ring l) ∨
      o.1 = true ∧ (unread (o.2.ring l) < unread (s.ring l) ∨ s.Starved l pool ∧ o.2.ring l = s.ring l) := by
  have hring : ∀ {t : ListenerLoop} {m : PageMem}, t.ringObject = s.ringObject →
      t.rings = Function.update s.rings (s.ringObject l) m → t.ring l = m := by
    intro t m hobject ht
    unfold ring
    rw [hobject, ht, Function.update_self]
  cases h with
  | empty hm => exact .inl ⟨rfl, hm⟩
  | head hq _ _ hobject ht =>
    refine .inr ⟨rfl, .inl ?_⟩
    rw [hring hobject ht]
    exact unread_dropHead hq hq.not_empty
  | @twice t msg q _ _ hq _ _ _ hobject ht =>
    refine .inr ⟨rfl, .inl ?_⟩
    rw [hring hobject ht]
    have hfirst := unread_dropHead hq hq.not_empty
    by_cases hm : drained (dropHead (s.ring l))
    · rw [dropHead_drained hm]
      exact hfirst
    · exact (unread_dropHead (dropHead_holds hq) hm).trans hfirst
  | @rst _ _ _ sh n actx _ hf hrst => exact absurd ⟨sh, n, actx, hf, .inl hrst⟩ hstrands
  | @data t msg q sh n actx hq hf hrst hobject hsame ht =>
    have hown : s.ringObject actx = s.ringObject l := by
      by_contra hother
      exact hstrands ⟨sh, n, actx, hf, .inr hother⟩
    refine .inr ⟨rfl, ?_⟩
    split at ht
    · rw [hown] at ht
      have hread : readOut (s.ring actx) = dropHead (s.ring l) := by
        unfold readOut
        rw [show s.ring actx = s.ring l from congrArg s.rings hown, (HeadIs.of_holds hq).ret, if_neg (by omega)]
      rw [hring hobject ht, hread]
      exact .inl (unread_dropHead hq hq.not_empty)
    · next htakes =>
      obtain ⟨hneeds, hpool⟩ := Classical.not_imp.mp htakes
      refine .inr ⟨⟨sh, n, actx, hf, hneeds, Bool.not_eq_true _ ▸ hpool⟩, ?_⟩
      unfold ring
      rw [hobject, ht]

end Loop

end ListenerLoop

/-! ## Draining the ring -/

section Drain
open ListenerLoop
variable {s : ListenerLoop} {l : Nat} {state : FileState} {i : Nat → RoundMemory}

/-- **No round takes more than the message that it looked at**, if and only if no round swallows: a listener that
is passive gets no SYN with a message behind it, and for no other listener's accepter, with messages in its ring,
there is data that is read or kept. -/
theorem listener_takes_head (h : s.Queued) :
    (∀ k u, begins (body l state) i s k = some u → RemovesAtMostHead l u (u.round l state (i k)).2) ↔
      ∀ k u, begins (body l state) i s k = some u → ¬ u.Swallows l state (i k).pool := by
  refine forall_congr' fun k => forall_congr' fun u => forall_congr' fun hu => ?_
  have hqueued := (begins_queued hu h).1
  exact (round_is hqueued l state (i k)).removes hqueued

/-- **The loop ends, with an empty ring**, if and only if no round strands, and memory does not fail for ever. -/
theorem listener_drains (h : s.Queued) :
    (∃ t, Ends (body l state) i s t ∧ drained (t.ring l)) ↔
      (∀ k u, begins (body l state) i s k = some u → ¬ u.Strands l) ∧
        ¬ ∃ m, ∀ k ≥ m, ∃ u, begins (body l state) i s k = some u ∧ u.Starved l (i k).pool := by
  constructor
  · rintro ⟨t, hends, hdrained⟩
    refine ⟨fun k u hu => ?_, ?_⟩
    · rintro ⟨sh, n, actx, hf, hcase⟩
      have hqueued := (begins_queued hu h).1
      cases hrst : sh.has shfRst with
      | false =>
        rw [hrst] at hcase
        exact not_ends_of_forever (foreign_forever hu hqueued hf hrst (hcase.resolve_left Bool.false_ne_true)) hends
      | true =>
        obtain ⟨v, hb, hv⟩ := (round_is hqueued l state (i k)).closes hf hrst
        obtain rfl := hends.of_last hu hb
        exact hv hdrained
    · rintro ⟨m, hm⟩
      refine not_ends_of_forever (n := m) (fun d => ?_) hends
      obtain ⟨u, hu, -⟩ := hm (m + d) (Nat.le_add_right m d)
      exact ⟨u, hu⟩
  · rintro ⟨hstrands, hstarved⟩
    have hround : ∀ k u, begins (body l state) i s k = some u → _ := fun k u hu =>
      (round_is (begins_queued hu h).1 l state (i k)).progress (hstrands k u hu)
    obtain ⟨t, hends⟩ : ∃ t, Ends (body l state) i s t := by
      refine ends_of_rank (fun u => unread (u.ring l)) (fun k u t hu hb => ?_) fun m => ?_
      · rcases hround k u hu with ⟨ho, -⟩ | ⟨-, hcase⟩
        · cases (Prod.mk.inj (ho.symm.trans hb)).1
        · rw [show u.round l state (i k) = (true, t) from hb] at hcase
          rcases hcase with hlt | ⟨-, hsame⟩
          · exact hlt.le
          · rw [hsame]
      · by_contra hno
        refine hstarved ⟨m, fun k hk => ?_⟩
        by_contra hfed
        refine hno ⟨k, hk, fun u t hu hb => ?_⟩
        rcases hround k u hu with ⟨ho, -⟩ | ⟨-, hcase⟩
        · cases (Prod.mk.inj (ho.symm.trans hb)).1
        · rw [show u.round l state (i k) = (true, t) from hb] at hcase
          exact hcase.resolve_right fun hs => hfed ⟨u, hu, hs.1⟩
    obtain ⟨k, u, hu, hb⟩ := hends
    rcases hround k u hu with ⟨ho, hm⟩ | ⟨hon, -⟩
    · have heq := hb.symm.trans ho
      obtain rfl := (Prod.mk.inj heq).2
      exact ⟨t, ⟨k, t, hu, hb⟩, hm⟩
    · rw [show u.round l state (i k) = (false, t) from hb] at hon
      cases hon

end Drain

/-! ## Three rings -/

/-- A SYN, and behind it data of the connection with number 7. -/
def synRing : PageMem :=
  ringOf 64 [(0, 24), (4, 5), (8, 2), (12, protoStream.toNat), (16, shfSyn.toNat), (20, 8), (32, 27), (36, 5),
    (40, 2), (44, protoStream.toNat), (52, 7), (56, 0x030201)]

/-- A RST of that connection. -/
def rstRing : PageMem :=
  ringOf 32 [(0, 24), (4, 5), (8, 2), (12, protoStream.toNat), (16, shfRst.toNat), (20, 7)]

theorem synRing_holds : synRing.Holds
    [Linux.streamMessage ⟨5, 2⟩ ⟨shfSyn, 8⟩ [], Linux.streamMessage ⟨5, 2⟩ ⟨0, 7⟩ [1, 2, 3]] where
  len_mod := by decide
  len_ge := by decide
  small := by decide
  rx_lt := by decide
  rx_mod := by decide
  tx_lt := by decide
  unread := by decide
  carries := ⟨by decide +kernel, by decide +kernel, trivial⟩

theorem rstRing_holds : rstRing.Holds [Linux.streamMessage ⟨5, 2⟩ ⟨shfRst, 7⟩ []] where
  len_mod := by decide
  len_ge := by decide
  small := by decide
  rx_lt := by decide
  rx_mod := by decide
  tx_lt := by decide
  unread := by decide
  carries := ⟨by decide +kernel, trivial⟩

theorem dataRing_holds : dataRing.Holds [Linux.streamMessage ⟨5, 2⟩ ⟨0, 7⟩ [1, 2, 3]] where
  len_mod := by decide
  len_ge := by decide
  small := by decide
  rx_lt := by decide
  rx_mod := by decide
  tx_lt := by decide
  unread := by decide
  carries := ⟨by decide +kernel, trivial⟩

namespace ListenerLoop

/-- The device with one accepted connection, and this ring. -/
def sharing (m : PageMem) : ListenerLoop := ⟨Device.oneAccepted, fun _ => 0, fun _ => m, []⟩

theorem sharing_queued {m : PageMem} {q : List Message} (h : m.Holds q) : (sharing m).Queued := fun _ => ⟨q, h⟩

/-- A listener that is listening takes the SYN, and then the data. -/
theorem listener_takes_syn : RemovesAtMostHead 0 (sharing synRing)
    ((sharing synRing).round 0 .listening ⟨true, fun _ => true⟩).2 := by
  refine (listener_takes_head (i := fun _ => ⟨true, fun _ => true⟩) (sharing_queued synRing_holds)).mpr
    (fun k u hu => ?_) 0 _ rfl
  have hobject := (begins_queued hu (sharing_queued synRing_holds)).2
  rintro (⟨-, -, -, -, -, -, hstate, -⟩ | ⟨-, -, actx, -, -, hother, -⟩)
  · exact hstate rfl
  · rw [hobject] at hother
    exact hother rfl

/-- A listener that is passive dumps the data with the SYN. -/
theorem listener_swallows : ¬ ∀ (s : ListenerLoop) (l : Nat) (state : FileState) (i : Nat → RoundMemory),
    s.Queued → ∀ k u, begins (body l state) i s k = some u →
      RemovesAtMostHead l u (u.round l state (i k)).2 := by
  intro h
  have hqueued := sharing_queued synRing_holds
  have hremoves := h (sharing synRing) 0 .passive (fun _ => ⟨true, fun _ => true⟩) hqueued 0 _ rfl
  refine ((round_is hqueued 0 .passive ⟨true, fun _ => true⟩).removes hqueued).mp hremoves (.inl ⟨_, _, _,
    (HeadIs.of_holds synRing_holds).headMessage, Linux.peekHeader_streamMessage _ _ _, ?_, ?_, ?_⟩)
  · decide
  · decide
  · exact (dropHead_holds synRing_holds).not_empty

/-- Data that can be kept leaves the ring empty. -/
theorem listener_drains_data : ∃ t, Ends (body 0 .listening) (fun _ => ⟨true, fun _ => true⟩)
    (sharing dataRing) t ∧ drained (t.ring 0) := by
  have hqueued := sharing_queued dataRing_holds
  have hfinds : (sharing dataRing).Finds 0 ⟨0, 7⟩ 3 1 :=
    ⟨⟨_, [1, 2, 3], (HeadIs.of_holds dataRing_holds).headMessage, Linux.peekHeader_streamMessage _ _ _, rfl⟩,
      by decide, by decide⟩
  obtain ⟨t, hb, ht⟩ := (round_is hqueued 0 .listening ⟨true, fun _ => true⟩).takes hfinds (by decide) rfl dataRing_holds
  refine (listener_drains hqueued).mpr ⟨fun k u hu => ?_, ?_⟩
  · rintro ⟨sh, n, actx, hf, hcase⟩
    cases k with
    | zero =>
      obtain rfl := Option.some.inj hu
      obtain ⟨rfl, -, -⟩ := hfinds.unique hf
      exact hcase.elim (by decide) fun hother => hother rfl
    | succ k =>
      -- the ring is empty then, and the next round is the last
      have hfirst : begins (body 0 .listening) (fun _ => ⟨true, fun _ => true⟩) (sharing dataRing) 1 = some t :=
        begins_again rfl hb
      have hm : drained (t.ring 0) := ht.empty.symm
      cases k with
      | zero =>
        obtain rfl := Option.some.inj (hfirst.symm.trans hu)
        obtain ⟨msg, -, hmsg, -⟩ := hf.message
        rw [headMessage_drained hm] at hmsg
        cases hmsg
      | succ k =>
        obtain ⟨v, hv⟩ := begins_le hu (show 2 ≤ k + 1 + 1 by omega)
        rw [begins_last hfirst (show body 0 .listening t _ = (false, t) from if_pos hm)] at hv
        cases hv
  · rintro ⟨m, hm⟩
    obtain ⟨u, -, -, -, -, -, -, hpool⟩ := hm m le_rfl
    cases hpool

/-- The RST stays in the ring. -/
theorem listener_leaves_rst : ¬ ∀ (s : ListenerLoop) (l : Nat) (state : FileState) (i : Nat → RoundMemory),
    s.Queued → ∃ t, Ends (body l state) i s t ∧ drained (t.ring l) := by
  intro h
  have hqueued := sharing_queued rstRing_holds
  obtain ⟨t, hends, hdrained⟩ := h (sharing rstRing) 0 .listening (fun _ => ⟨true, fun _ => true⟩) hqueued
  have hfinds : (sharing rstRing).Finds 0 ⟨shfRst, 7⟩ 0 1 :=
    ⟨⟨_, [], (HeadIs.of_holds rstRing_holds).headMessage, Linux.peekHeader_streamMessage _ _ _, rfl⟩,
      by decide, by decide⟩
  obtain ⟨v, hb, hv⟩ := (round_is hqueued 0 .listening ⟨true, fun _ => true⟩).closes hfinds (by decide)
  obtain rfl := hends.of_last (n := 0) rfl hb
  exact hv hdrained

end ListenerLoop

end V4v.Windows
