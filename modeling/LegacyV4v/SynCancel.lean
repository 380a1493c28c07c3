import LegacyV4v.GuardedRun
import LegacyV4v.ListenerReads

/-! # A connection attempt that is given up

A peer that gives up its attempt to connect sends a RST behind the SYN.  `V4vProcessListenerReads`
looks for an accepted connection with the connection id of the RST, and for nothing else: a SYN that
waits for an accept IRP is not taken from its list, and is accepted like any other.  (The listener
of the Linux driver takes it from the list.)

The run of one listener: messages come into its ring, are read, and the rounds of `V4vDoAccepts` are
made by whoever calls it.  Nothing else in the driver writes to the list of SYNs. -/
namespace V4v.Windows
open GuardedRun
open Linux (StreamHeader peekHeader streamMessage shfSyn shfAck shfRst)

/-! ## SYNs and RSTs -/

/-- The message is a RST that gives up this SYN. -/
def givesUp (m : Message) (syn : Addr × UInt64) : Bool :=
  match peekHeader m with
  | none => false
  | some (sh, _) =>
    sh.has shfRst && !sh.has shfSyn && m.source == syn.1 && sh.conid.toUInt64 == syn.2

/-- The SYN that a message is. -/
def synOf (m : Message) : Option (Addr × UInt64) :=
  match peekHeader m with
  | none => none
  | some (sh, _) => if sh.has shfSyn then some (m.source, sh.conid.toUInt64) else none

theorem synOf_eq {m : Message} {sh : StreamHeader} {data : List UInt8}
    (h : peekHeader m = some (sh, data)) (hsyn : sh.has shfSyn = true) :
    synOf m = some (m.source, sh.conid.toUInt64) := by
  rw [synOf, h]
  exact if_pos hsyn

/-! ## Reading and accepting in single rounds -/

namespace Device
variable {s s' d : Device} {l : Nat} {ack : Nat → Bool} {status : NtStatus}

/-- The SYNs that wait at a listener. -/
def syns (s : Device) (l : Nat) : List (Addr × UInt64) := (s.contexts l).synList

/-- One round of `V4vDoAccepts`, and how the accept IRP was completed. -/
def acceptRound (s : Device) (l : Nat) (ack : Nat → Bool) : Option (NtStatus × Device) :=
  match (s.contexts l).synList with
  | [] => none
  | (dst, connId) :: synList =>
    match s.removeNextIrp (acceptPeek l) with
    | none => none
    | some (irp, s') =>
      let s' := s'.setContext l { s'.contexts l with synList := synList }
      let actx := s'.stashed irp.id
      let x := { s'.contexts actx with sdst := dst, connId := connId }
      if ack irp.id then
        some (.success,
          (s'.setContext actx { x with state := .accepted }).complete irp .success [])
      else
        some (.noMemory,
          (s'.setContext actx { x with state := .disconnected }).complete irp .noMemory [])

/-- `V4vDoAccepts` makes rounds until there is nothing to pair. -/
theorem doAccepts_round (s : Device) (l : Nat) (ack : Nat → Bool) :
    s.doAccepts l ack = match s.acceptRound l ack with
      | none => s
      | some (_, s') => s'.doAccepts l ack := by
  have hdef := doAccepts.eq_def s l ack
  split at hdef
  · next hnil =>
    have hround : s.acceptRound l ack = none := by
      rw [acceptRound, hnil]
    rw [hdef, hround]
  · next dst connId synList hlist =>
    split at hdef
    · next hnone =>
      have hround : s.acceptRound l ack = none := by
        rw [acceptRound, hlist]
        dsimp only
        rw [hnone]
      rw [hdef, hround]
    · next irp s' hsome =>
      rw [hdef, acceptRound, hlist]
      dsimp only
      rw [hsome]
      dsimp only
      split <;> rfl

/-- `V4vCtrlAccept` up to `V4vDoAccepts`. -/
def requestAccept (s : Device) (l : Nat) (irp : Pending) (actx : Nat) : Device :=
  { s.setContext actx { s.contexts actx with
      type := .accepter, state := .accepting, listenerContext := some l } with
    queue := s.queue ++ [irp]
    stashed := Function.update s.stashed irp.id actx }

/-- `V4vProcessPreAcceptReads` up to `V4vDoAccepts`; `none` if the backlog is full. -/
def admitSyn (s : Device) (l : Nat) (syn : Addr × UInt64) : Option Device :=
  let x := s.contexts l
  if x.synList.length = x.backlog then none
  else some (s.setContext l { x with synList := x.synList ++ [syn] })

theorem processPreAcceptReads_eq (sh : StreamHeader) (src : Addr) :
    s.processPreAcceptReads l sh src ack = match s.admitSyn l (src, sh.conid.toUInt64) with
      | none => (s, [⟨sh.conid, src⟩])
      | some s' => (s'.doAccepts l ack, []) := by
  rw [processPreAcceptReads, admitSyn]
  split <;> rfl

theorem syns_setContext (s : Device) (ctx : Nat) {x : FileContext}
    (hx : x.synList = (s.contexts ctx).synList) : (s.setContext ctx x).syns l = s.syns l := by
  by_cases h : l = ctx
  · rw [syns, h, setContext_self, hx, syns]
  · rw [syns, setContext_of_ne s x h, syns]

theorem syns_requestAccept (s : Device) (l : Nat) (irp : Pending) (actx : Nat) :
    (s.requestAccept l irp actx).syns l = s.syns l :=
  syns_setContext s actx rfl

theorem syns_admitSyn {syn : Addr × UInt64} (h : s.admitSyn l syn = some d) :
    d.syns l = s.syns l ++ [syn] := by
  rw [admitSyn] at h
  split at h
  · cases h
  · cases h
    rw [syns, setContext_self, syns]

theorem syns_removeNextIrp {qp : QPeek} {irp : Pending} (h : s.removeNextIrp qp = some (irp, s')) :
    s'.contexts = s.contexts := by
  obtain ⟨-, l₁, l₂, -, rfl, -⟩ := removeNextIrp_some h
  rfl

/-- A round takes the SYN at the front. -/
theorem syns_acceptRound (h : s.acceptRound l ack = some (status, d)) :
    s.syns l = (s.syns l).headD (⟨0, 0⟩, 0) :: d.syns l := by
  rw [acceptRound] at h
  rw [syns]
  split at h
  · cases h
  · next dst connId synList hlist =>
    rw [hlist]
    split at h
    · cases h
    · next irp s' hsome =>
      have hafter : ∀ {x : FileContext} {actx : Nat} {st : NtStatus},
          x.synList = ((s'.setContext l { s'.contexts l with synList := synList }).contexts
            actx).synList →
          (((s'.setContext l { s'.contexts l with synList := synList }).setContext actx
            x).complete irp st []).syns l = synList := by
        intro x actx st hx
        refine (syns_setContext _ actx hx).trans ?_
        rw [syns, setContext_self]
      dsimp only at h
      split at h
      · cases h
        refine congrArg (List.cons (dst, connId)) (Eq.symm (hafter ?_))
        rfl
      · cases h
        refine congrArg (List.cons (dst, connId)) (Eq.symm (hafter ?_))
        rfl

/-- With an accept IRP in the queue there is a round. -/
theorem exists_acceptRound {irp : Pending} (hsyns : s.syns l ≠ []) (hirp : irp ∈ s.queue)
    (htest : irp.test (acceptPeek l) = true) :
    ∃ d, s.acceptRound l (fun _ => true) = some (.success, d) := by
  rw [acceptRound]
  split
  · next hnil => exact absurd hnil hsyns
  · split
    · next hnone =>
      rw [removeNext_eq_none (Option.map_eq_none_iff.mp hnone) irp hirp] at htest
      cases htest
    · exact ⟨_, rfl⟩

theorem syns_processAccepterReads (s : Device) (ctx : Nat) :
    (s.processAccepterReads ctx).2.syns l = s.syns l := by
  by_cases h : l = ctx
  · rw [h, syns, (served_processAccepterReads s ctx).context, syns]
  · rw [syns, (untouched_processAccepterReads s h).context, syns]

/-- Keeping data for an accepter leaves the SYNs alone, ... -/
theorem syns_bufferedReads (s : Device) (ctx : Nat) (data : List UInt8) (pool : Bool) :
    (s.processAccepterBufferedReads ctx data pool).2.syns l = s.syns l := by
  have hqueue : ∀ s : Device, (s.queueData ctx data pool).2.syns l = s.syns l := by
    intro s
    rw [queueData]
    split
    · exact syns_setContext s ctx rfl
    · rfl
  rw [processAccepterBufferedReads, ← syns_processAccepterReads s ctx]
  split
  · next irp s' hsome =>
    have hsame : s'.syns l = (s.processAccepterReads ctx).2.syns l := by
      rw [syns, syns_removeNextIrp hsome, syns]
    split
    · exact (hqueue _).trans hsame
    · exact hsame
  · exact hqueue _

/-- ... and so does a message that is no SYN, or is not taken as one. -/
theorem syns_listenerRead {state : FileState} {m : Message} {rest : List Message} {pool : Bool}
    (h : ∀ syn, synOf m = some syn → state = .listening → s.admitSyn l syn = none) :
    (s.listenerRead l state m rest pool ack).device.syns l = s.syns l := by
  rw [listenerRead]
  split
  · rfl
  · next sh data hsh =>
    dsimp only
    split
    · next hsyn =>
      split
      · next hlistening =>
        rw [processPreAcceptReads_eq, h _ (synOf_eq hsh hsyn) hlistening]
      · rfl
    · split
      · rfl
      · next actx _ =>
        split
        · rfl
        split
        · rw [disconnectStreamAndSignal]
          refine syns_setContext s actx ?_
          dsimp only
          split <;> rfl
        · exact syns_bufferedReads s actx data pool

end Device

/-! ## Runs -/

/-- A SYN for which an accept IRP was completed, and whether it had been given up before. -/
structure TakenSyn where
  syn : Addr × UInt64
  givenUp : Bool
  status : NtStatus

/-- The device, the ring of a listener, which of the SYNs that wait there have been given up, and
those that wait no more. -/
structure SynRun where
  device : Device
  ring : List Message
  givenUp : List Bool
  taken : List TakenSyn

/-- A message comes into the ring; the first one is a SYN and is put into the list, or is dealt with
in some other way; a round of `V4vDoAccepts`; an accept IRP is queued for the accepter `actx`; or the
driver does something else. -/
inductive SynRunAct where
  | arrive (m : Message)
  | enlist
  | read (state : FileState) (pool : Bool)
  | round (ack : Nat → Bool)
  | request (irp : Pending) (actx : Nat)
  | other

namespace SynRun
variable {l : Nat} {s s' : SynRun} {a : SynRunAct}

/-- One step. -/
inductive Step (l : Nat) (s : SynRun) : SynRunAct → SynRun → Prop
  | arrive {m : Message} : Step l s (.arrive m) { s with
      ring := s.ring ++ [m]
      givenUp := List.zipWith (fun c syn => c || givesUp m syn) s.givenUp (s.device.syns l) }
  | enlist {m : Message} {rest : List Message} {syn : Addr × UInt64} {d : Device} :
      s.ring = m :: rest → synOf m = some syn → s.device.admitSyn l syn = some d →
      Step l s .enlist ⟨d, rest, s.givenUp ++ [rest.any (givesUp · syn)], s.taken⟩
  | read {m : Message} {rest : List Message} {state : FileState} {pool : Bool} {ack : Nat → Bool} :
      s.ring = m :: rest →
      (∀ syn, synOf m = some syn → state = .listening → s.device.admitSyn l syn = none) →
      Step l s (.read state pool) { s with
        device := (s.device.listenerRead l state m rest pool ack).device
        ring := (s.device.listenerRead l state m rest pool ack).ring }
  | round {ack : Nat → Bool} {status : NtStatus} {d : Device} :
      s.device.acceptRound l ack = some (status, d) →
      Step l s (.round ack) ⟨d, s.ring, s.givenUp.tail,
        s.taken ++ [⟨(s.device.syns l).headD (⟨0, 0⟩, 0), s.givenUp.headD false, status⟩]⟩
  | request {irp : Pending} {actx : Nat} : irp.test (Device.acceptPeek l) = true →
      Step l s (.request irp actx) { s with
        device := s.device.requestAccept l irp actx }
  | other {d : Device} : d.syns l = s.device.syns l → Step l s .other { s with device := d }

/-- No SYN waits, and the ring is empty. -/
def Start (l : Nat) (s : SynRun) : Prop :=
  s.device.syns l = [] ∧ s.ring = [] ∧ s.givenUp = [] ∧ s.taken = []

/-- No accept IRP is completed with success for a SYN that was given up. -/
def Respects (s : SynRun) : Prop := ∀ e ∈ s.taken, e.givenUp = true → e.status ≠ .success

/-- A RST does not come when the SYN that it gives up is in the ring, or waits. -/
def NoneGivenUp (l : Nat) (s : SynRun) : SynRunAct → Prop
  | .arrive m => (∀ syn ∈ s.device.syns l, givesUp m syn = false) ∧
      ∀ m' ∈ s.ring, ∀ syn, synOf m' = some syn → givesUp m syn = false
  | _ => True

/-! ## What happens in any case -/

/-- It is known of every SYN that waits whether it has been given up. -/
def Aligned (l : Nat) (s : SynRun) : Prop := s.givenUp.length = (s.device.syns l).length

theorem Aligned.step (h : s.Aligned l) (hs : Step l s a s') : s'.Aligned l := by
  rw [Aligned] at h ⊢
  cases hs with
  | arrive =>
    dsimp only
    rw [List.length_zipWith, h, Nat.min_self]
  | enlist _ _ hadmit =>
    dsimp only
    rw [Device.syns_admitSyn hadmit, List.length_append, List.length_append, h]
    rfl
  | read _ hsyn =>
    dsimp only
    rw [Device.syns_listenerRead hsyn, h]
  | round hround =>
    have hlen := congrArg List.length (Device.syns_acceptRound hround)
    dsimp only
    rw [List.length_tail, h, hlen, List.length_cons, Nat.add_sub_cancel]
  | request _ =>
    dsimp only
    rw [Device.syns_requestAccept, h]
  | other hsame =>
    dsimp only
    rw [hsame, h]

/-- `V4vDoAccepts` is made of rounds, ... -/
theorem reachable_doAccepts (l : Nat) (s : SynRun) (ack : Nat → Bool) :
    ∃ s', From (Step l) s s' ∧
      s'.device = s.device.doAccepts l ack ∧ s'.ring = s.ring := by
  obtain ⟨n, hn⟩ : ∃ n, (s.device.syns l).length = n := ⟨_, rfl⟩
  induction n generalizing s with
  | zero =>
    refine ⟨s, .refl s, ?_, rfl⟩
    have hnil : (s.device.contexts l).synList = [] := List.eq_nil_of_length_eq_zero hn
    rw [Device.doAccepts_round, Device.acceptRound, hnil]
  | succ n ih =>
    rw [Device.doAccepts_round]
    cases hround : s.device.acceptRound l ack with
    | none => exact ⟨s, .refl s, rfl, rfl⟩
    | some o =>
      have hstep := Step.round (s := s) hround
      have hlen := congrArg List.length (Device.syns_acceptRound hround)
      rw [List.length_cons, hn] at hlen
      obtain ⟨s', hreach, hdevice, hring⟩ := ih ⟨o.2, s.ring, _, _⟩ (Nat.succ.inj hlen).symm
      exact ⟨s', (From.single hstep).trans hreach, hdevice, hring⟩

/-- ... and what `V4vProcessListenerReads` does with a message is such steps. -/
theorem reachable_listenerRead {m : Message} {rest : List Message} (h : s.ring = m :: rest)
    (state : FileState) (pool : Bool) (ack : Nat → Bool) :
    ∃ s', From (Step l) s s' ∧
      s'.device = (s.device.listenerRead l state m rest pool ack).device ∧
      s'.ring = (s.device.listenerRead l state m rest pool ack).ring := by
  by_cases hread : ∀ syn, synOf m = some syn → state = .listening → s.device.admitSyn l syn = none
  · exact ⟨_, From.single (.read h hread), rfl, rfl⟩
  · -- it is a SYN, and there is room for it
    push Not at hread
    obtain ⟨syn, hsyn, rfl, hroom⟩ := hread
    obtain ⟨d, hadmit⟩ := Option.ne_none_iff_exists'.mp hroom
    obtain ⟨s', hreach, hdevice, hring⟩ := reachable_doAccepts l
      ⟨d, rest, s.givenUp ++ [rest.any (givesUp · syn)], s.taken⟩ ack
    have hout : s.device.listenerRead l .listening m rest pool ack =
        ⟨d.doAccepts l ack, rest, [], false⟩ := by
      rw [synOf] at hsyn
      split at hsyn
      · cases hsyn
      · next sh data hsh =>
        split at hsyn
        · next hflag =>
          cases hsyn
          rw [Device.listenerRead, hsh]
          dsimp only
          rw [if_pos hflag, if_pos rfl, Device.processPreAcceptReads_eq, hadmit]
        · cases hsyn
    rw [hout]
    exact ⟨s', (From.single (.enlist h hsyn hadmit)).trans hreach, hdevice, hring⟩

/-- An accept IRP. -/
def acceptIrp (l : Nat) : Pending := ⟨0, peekStream ||| peekAccept, 0, l, ⟨0, 0⟩⟩

theorem test_acceptIrp (l : Nat) : (acceptIrp l).test (Device.acceptPeek l) = true := by
  have hflags : (has peekStream ((peekStream ||| peekAccept) &&& peekAnyType) &&
    has peekAccept ((peekStream ||| peekAccept) &&& peekAnyOp)) = true := by decide
  exact Bool.and_eq_true_iff.mpr ⟨hflags, beq_self_eq_true l⟩

/-- **A SYN that has been given up can be accepted**: all it takes are accept IRPs. -/
theorem accepted_of_givenUp (h : s.Aligned l) (hgiven : true ∈ s.givenUp) :
    ∃ s', From (Step l) s s' ∧ ¬ s'.Respects := by
  obtain ⟨n, hn⟩ : ∃ n, s.givenUp.length = n := ⟨_, rfl⟩
  induction n generalizing s with
  | zero =>
    rw [List.eq_nil_of_length_eq_zero hn] at hgiven
    cases hgiven
  | succ n ih =>
    -- an accept IRP is queued, and a round takes the first SYN
    have htest := test_acceptIrp l
    have hrequest : Step l s (.request (acceptIrp l) 0) _ := .request htest
    have haligned := h.step hrequest
    have hlen : n + 1 = ((s.device.requestAccept l (acceptIrp l) 0).syns l).length :=
      hn.symm.trans haligned
    have hsyns : (s.device.requestAccept l (acceptIrp l) 0).syns l ≠ [] := fun hnil => by
      rw [hnil] at hlen
      cases hlen
    have hqueued : acceptIrp l ∈ (s.device.requestAccept l (acceptIrp l) 0).queue :=
      List.mem_append_right _ List.mem_cons_self
    obtain ⟨d, hround⟩ := Device.exists_acceptRound hsyns hqueued htest
    have hstep : Step l { s with device := s.device.requestAccept l (acceptIrp l) 0 }
        (.round fun _ => true) _ := .round hround
    have hreach := (From.single hrequest).trans (From.single hstep)
    cases hgivenUp : s.givenUp with
    | nil =>
      rw [hgivenUp] at hgiven
      cases hgiven
    | cons c cs =>
      rw [hgivenUp] at hgiven hn
      rcases List.mem_cons.mp hgiven with hc | hcs
      · refine ⟨_, hreach, fun hrespects => ?_⟩
        refine hrespects _ (List.mem_append_right _ List.mem_cons_self) ?_ rfl
        dsimp only
        rw [hgivenUp, ← hc]
        rfl
      · obtain ⟨s', hreach', hnot⟩ := ih (haligned.step hstep)
          (show true ∈ s.givenUp.tail from hgivenUp ▸ hcs)
          (show s.givenUp.tail.length = n by rw [hgivenUp]; exact Nat.succ.inj hn)
        exact ⟨s', hreach.trans hreach', hnot⟩

/-! ## Runs in which nothing is given up -/

/-- No SYN that waits, and none in the ring, has been given up. -/
structure Clean (l : Nat) (s : SynRun) : Prop where
  aligned : s.Aligned l
  waiting : ∀ c ∈ s.givenUp, c = false
  ring : s.ring.Pairwise fun m m' => ∀ syn, synOf m = some syn → givesUp m' syn = false
  taken : ∀ e ∈ s.taken, e.givenUp = false

/-- What is left in the ring when its first message has been dealt with. -/
theorem ring_sublist (s : Device) (l : Nat) (state : FileState) (m : Message) (rest : List Message)
    (pool : Bool) (ack : Nat → Bool) :
    (s.listenerRead l state m rest pool ack).ring.Sublist (m :: rest) := by
  have hrest : rest.Sublist (m :: rest) := List.sublist_cons_self m rest
  rw [Device.listenerRead]
  split
  · exact hrest
  · dsimp only
    split
    · split
      · exact hrest
      · exact (List.tail_sublist rest).trans hrest
    · split
      · exact hrest
      · split
        · exact hrest
        split
        · exact List.Sublist.refl _
        · dsimp only
          split
          · exact hrest
          · exact List.Sublist.refl _

theorem Clean.start (h : Start l s) : s.Clean l := by
  obtain ⟨hsyns, hring, hgiven, htaken⟩ := h
  refine ⟨?_, ?_, ?_, ?_⟩
  · rw [Aligned, hsyns, hgiven]
    rfl
  · rw [hgiven]
    exact List.forall_mem_nil _
  · rw [hring]
    exact List.Pairwise.nil
  · rw [htaken]
    exact List.forall_mem_nil _

/-- **One step.** -/
theorem Clean.step (h : s.Clean l) (hok : s.NoneGivenUp l a) (hs : Step l s a s') : s'.Clean l := by
  have haligned := h.aligned.step hs
  cases hs with
  | arrive =>
    obtain ⟨hwaiting, hring⟩ := hok
    refine ⟨haligned, fun c hc => ?_, ?_, h.taken⟩
    · obtain ⟨i, hi, rfl⟩ := List.mem_iff_getElem.mp hc
      dsimp only
      rw [List.getElem_zipWith, h.waiting _ (List.getElem_mem _), hwaiting _ (List.getElem_mem _)]
      rfl
    · refine List.pairwise_append.mpr ⟨h.ring, List.pairwise_singleton _ _, fun m hm m' hm' => ?_⟩
      rw [List.mem_singleton.mp hm']
      exact hring m hm
  | @enlist m rest syn d hring hsyn hadmit =>
    have hpairwise := h.ring
    rw [hring, List.pairwise_cons] at hpairwise
    refine ⟨haligned, fun c hc => ?_, hpairwise.2, h.taken⟩
    rcases List.mem_append.mp hc with hc | hc
    · exact h.waiting c hc
    · rw [List.mem_singleton.mp hc]
      exact List.any_eq_false.mpr fun m' hm' => by
        rw [hpairwise.1 m' hm' syn hsyn]
        exact Bool.false_ne_true
  | read hring hread =>
    have hpairwise := h.ring
    rw [hring] at hpairwise
    exact ⟨haligned, h.waiting, hpairwise.sublist (ring_sublist _ _ _ _ _ _ _), h.taken⟩
  | round hround =>
    refine ⟨haligned, fun c hc => h.waiting c (List.mem_of_mem_tail hc), h.ring, fun e he => ?_⟩
    rcases List.mem_append.mp he with he | he
    · exact h.taken e he
    · rw [List.mem_singleton.mp he]
      cases hgiven : s.givenUp with
      | nil => rfl
      | cons c cs => exact h.waiting c (hgiven ▸ List.mem_cons_self)
  | request _ => exact ⟨haligned, h.waiting, h.ring, h.taken⟩
  | other _ => exact ⟨haligned, h.waiting, h.ring, h.taken⟩

/-- **No SYN that was given up is accepted** if no RST comes for a SYN that is in the ring or waits;
and when one comes for a SYN that waits, it can be. -/
theorem respects_of_noneGivenUp (h : Reachable (Start l) (Step l) (NoneGivenUp l) s) :
    s.Respects ∧ ∀ m s', Step l s (.arrive m) s' →
      (∃ syn ∈ s.device.syns l, givesUp m syn = true) →
        ∃ s'', From (Step l) s' s'' ∧ ¬ s''.Respects := by
  have hclean : s.Clean l :=
    h.invariant (fun _ hs => .start hs) fun _ _ _ hs hok hstep => hs.step hok hstep
  refine ⟨fun e he hgiven => ?_, fun m s' hs hsyn => ?_⟩
  · rw [hclean.taken e he] at hgiven
    cases hgiven
  · refine accepted_of_givenUp (hclean.aligned.step hs) ?_
    obtain ⟨syn, hmem, hgives⟩ := hsyn
    obtain ⟨i, hi, rfl⟩ := List.mem_iff_getElem.mp hmem
    cases hs with
    | arrive =>
      refine List.mem_iff_getElem.mpr ⟨i, ?_, ?_⟩
      · rw [List.length_zipWith, hclean.aligned, Nat.min_self]
        exact hi
      · rw [List.getElem_zipWith, hgives, Bool.or_true]

/-- A listener where nothing has happened. -/
def fresh : SynRun :=
  ⟨⟨fun _ => ⟨.listening, .listener, ⟨0, 0⟩, 0, 4, [], none, []⟩, [0], [], fun _ => 0, []⟩, [], [], []⟩

/-- A SYN of port 5 of domain 2 waits there. -/
def waiting : SynRun :=
  ⟨fresh.device.setContext 0 { fresh.device.contexts 0 with synList := [(⟨5, 2⟩, 7)] }, [], [false],
    []⟩

theorem reachable_waiting : Reachable (Start 0) (Step 0) (NoneGivenUp 0) waiting := by
  have harrive : Step 0 fresh (.arrive (streamMessage ⟨5, 2⟩ ⟨shfSyn, 7⟩ []))
      { fresh with ring := [streamMessage ⟨5, 2⟩ ⟨shfSyn, 7⟩ []] } := .arrive
  have hsyn : synOf (streamMessage ⟨5, 2⟩ ⟨shfSyn, 7⟩ []) = some (⟨5, 2⟩, 7) :=
    synOf_eq (Linux.peekHeader_streamMessage _ _ _) (by decide)
  have hadmit : Step 0 { fresh with ring := [streamMessage ⟨5, 2⟩ ⟨shfSyn, 7⟩ []] } .enlist waiting :=
    .enlist rfl hsyn rfl
  refine .next (i := .enlist) (.next (.start ⟨rfl, rfl, rfl, rfl⟩) ?_ harrive) trivial hadmit
  exact ⟨List.forall_mem_nil _, List.forall_mem_nil _⟩

/-- The SYN is accepted. -/
theorem respects_of_noneGivenUp_waiting :
    ∃ s : SynRun, s.taken = [⟨(⟨5, 2⟩, 7), false, .success⟩] ∧ s.Respects := by
  have hsyns : (waiting.device.requestAccept 0 (acceptIrp 0) 1).syns 0 ≠ [] :=
    show [((⟨5, 2⟩, 7) : Addr × UInt64)] ≠ [] from List.cons_ne_nil _ _
  obtain ⟨d, hround⟩ := Device.exists_acceptRound hsyns
    (List.mem_append_right _ List.mem_cons_self) (test_acceptIrp 0)
  have hrequest : Step 0 waiting (.request (acceptIrp 0) 1) _ := .request (test_acceptIrp 0)
  have hstep : Step 0 { waiting with device := waiting.device.requestAccept 0 (acceptIrp 0) 1 }
      (.round fun _ => true) _ := .round hround
  exact ⟨_, rfl, (respects_of_noneGivenUp (.next (i := .round fun _ => true)
    (.next (i := .request (acceptIrp 0) 1) reachable_waiting trivial hrequest) trivial hstep)).1⟩

/-- It is also accepted when a RST has come for it. -/
theorem given_up_accepted : ¬ ∀ (l : Nat) (s : SynRun),
    Reachable (Start l) (Step l) (fun _ _ => True) s → s.Respects := by
  intro h
  have hrst : givesUp (streamMessage ⟨5, 2⟩ ⟨shfRst, 7⟩ []) (⟨5, 2⟩, 7) = true := by
    rw [givesUp, Linux.peekHeader_streamMessage]
    decide
  obtain ⟨s, hs⟩ : ∃ s, Step 0 waiting (.arrive (streamMessage ⟨5, 2⟩ ⟨shfRst, 7⟩ [])) s ∧
      s.Aligned 0 ∧ true ∈ s.givenUp := by
    refine ⟨_, .arrive, rfl, ?_⟩
    change true ∈ [false || givesUp _ (⟨5, 2⟩, 7)]
    rw [hrst]
    exact List.mem_cons_self
  obtain ⟨s', hreach, hnot⟩ := accepted_of_givenUp hs.2.1 hs.2.2
  have hwaiting := reachable_waiting.mono fun _ _ _ => trivial
  exact hnot (h 0 s' ((Reachable.next hwaiting trivial hs.1).trans hreach))

end SynRun

end V4v.Windows
