import LegacyV4v.Tally
import LegacyV4v.XenbusClient

/-! # Turning the xenstore driver off

`start_operation` counts a request before it comes to the list and `end_operation` takes it from the
count when it has left the list; between these the request goes its way under the ring lock.
`xenbus_driver_off` forbids new operations and then looks at the count, again and again where it can
wait.  Its comment promises that no operation is in flight when it comes back.  Here any number of
threads do these things in any order, beside the transmitting and receiving half of the driver and
resumes. -/
namespace V4v.Xenutil
open GuardedRun Tally

namespace Xenbus

/-- `start_operation`. -/
def startOperation (s : Xenbus) : Bool × Xenbus :=
  if s.allowNewXenbusOperation then
    (true, { s with xenbusOutstandingCtr := s.xenbusOutstandingCtr + 1 })
  else (false, s)

/-- `submit_request` under the ring lock. -/
def enqueueRequest (s : Xenbus) (r : Nat) (req : PendingReq) : Xenbus :=
  { s.setReq r req with
    pending := s.pending ++ [r]
    currentTxReq := if s.currentTxReq = none then some r else s.currentTxReq }

/-- `get_request_results` under the ring lock. -/
def dequeueRequest (s : Xenbus) (r : Nat) : Option Xenbus :=
  if s.currentTxReq = some r then none
  else if s.currentRxReq = some r then none
  else some { s with pending := s.pending.erase r }

/-- `end_operation`. -/
def endOperation (s : Xenbus) : Xenbus :=
  { s with xenbusOutstandingCtr := s.xenbusOutstandingCtr - 1 }

variable {s s' : Xenbus} {r : Nat} {req : PendingReq}

/-- `submit_request` starts an operation and goes to the list. -/
theorem submitRequest_eq (s : Xenbus) (r : Nat) (req : PendingReq) : s.submitRequest r req =
    if s.startOperation.1 then (true, s.startOperation.2.enqueueRequest r req) else (false, s) := by
  unfold submitRequest startOperation
  split <;> rfl

/-- The end of `get_request_results` leaves the list and ends the operation. -/
theorem unhookRequest_eq (s : Xenbus) (r : Nat) :
    s.unhookRequest r = (s.dequeueRequest r).map endOperation := by
  unfold unhookRequest dequeueRequest
  split
  · rfl
  · split <;> rfl

/-- The next request on the list is on the list. -/
theorem mem_pending_of_nextReq {x : Nat} (h : s.nextReq r = some x) : x ∈ s.pending :=
  (List.dropWhile_suffix _).subset (List.mem_of_mem_tail (List.mem_of_mem_head? h))

/-- What is transmitted stays on the list. -/
theorem transmitRound_current {again : Bool} (h : s.transmitRound = some (again, s'))
    (hs : ∀ x, s.currentTxReq = some x → x ∈ s.pending) (x : Nat)
    (hx : s'.currentTxReq = some x) : x ∈ s'.pending := by
  unfold transmitRound at h
  split at h
  · cases h
    exact hs x hx
  · next r hr =>
    unfold advanceTxReq at h
    split at h
    · cases h
    · next hadvance =>
      split at hadvance
      · cases hadvance
      · obtain ⟨_, rfl⟩ := Prod.mk.inj (Option.some.inj hadvance)
        cases h
        exact hs x hx
    · next hadvance =>
      split at hadvance
      · cases hadvance
      · obtain ⟨_, rfl⟩ := Prod.mk.inj (Option.some.inj hadvance)
        split at h
        · cases h
          exact mem_pending_of_nextReq hx
        · cases h
          exact hs x hx

end Xenbus

/-- Where a thread is: outside, between `start_operation` and the list, on the list, between the list
and `end_operation`, or in `xenbus_driver_off`. -/
inductive OpPc where
  | idle
  | started
  | listed
  | unhooked
  | turningOff
  deriving DecidableEq, Repr

/-- The thread is counted. -/
def OpPc.counts : OpPc → Bool
  | .started | .listed | .unhooked => true
  | _ => false

/-- The driver, and `N` threads.  A thread has its request on its stack, so its number is the
request's name.  `quiet` is where `req_prod` stood when `xenbus_driver_off` came back without a
warning, if operations were still forbidden then and have been ever since. -/
structure OffSys (N : Nat) where
  client : Client
  pc : Fin N → OpPc
  quiet : Option UInt32

inductive OffAct (N : Nat) where
  | start (t : Fin N)
  | enqueue (t : Fin N) (hdr : XsdSockmsg) (io : List (List UInt8)) (size : Option Nat)
  | dequeue (t : Fin N)
  | finish (t : Fin N)
  | driverOff (t : Fin N)
  | check (t : Fin N) (passive : Bool)
  | driverOn (t : Fin N)
  | transmit
  | receive (austere : Bool) (mem : Option (Nat → UInt8))
  | resume
  | xenstored (buf : XenstoreDomainInterface)

namespace OffSys
variable {N : Nat}

def setPc (s : OffSys N) (t : Fin N) (p : OpPc) : OffSys N :=
  { s with pc := Function.update s.pc t p }

def setBus (s : OffSys N) (bus : Xenbus) : OffSys N :=
  { s with client := { s.client with bus := bus } }

/-- A thread calls `start_operation`. -/
def startOp (s : OffSys N) (t : Fin N) : OffSys N :=
  match s.client.bus.startOperation with
  | (true, bus) => (s.setBus bus).setPc t .started
  | (false, bus) => s.setBus bus

/-- `xenbus_driver_off` looks at the count; `passive` says whether it can wait. -/
def checkCtr (s : OffSys N) (t : Fin N) (passive : Bool) : OffSys N :=
  if s.client.bus.xenbusOutstandingCtr = 0 then
    { s.setPc t .idle with
      quiet := if s.client.bus.allowNewXenbusOperation then none
        else some s.client.bus.sharedBuf.reqProd }
  else if passive then s
  else s.setPc t .idle

/-- One step. -/
inductive Step (s : OffSys N) : OffAct N → OffSys N → Prop
  | start {t : Fin N} : s.pc t = .idle → Step s (.start t) (s.startOp t)
  | enqueue {t : Fin N} {hdr : XsdSockmsg} {io : List (List UInt8)} {size : Option Nat}
      {req : PendingReq} : s.pc t = .started → newRequest hdr io size = some req →
      Step s (.enqueue t hdr io size)
        (setPc { s with client := ⟨s.client.bus.enqueueRequest t.val req,
          Function.update s.client.txIo t.val io⟩ } t .listed)
  | dequeue {t : Fin N} {bus : Xenbus} : s.pc t = .listed → s.client.bus.hasReply t.val = true →
      s.client.bus.dequeueRequest t.val = some bus →
      Step s (.dequeue t) ((s.setBus bus).setPc t .unhooked)
  | finish {t : Fin N} : s.pc t = .unhooked →
      Step s (.finish t) ((s.setBus s.client.bus.endOperation).setPc t .idle)
  | driverOff {t : Fin N} : s.pc t = .idle → Step s (.driverOff t)
      ((s.setBus { s.client.bus with
        allowNewXenbusOperation := false
        allowXenbusWatchOperation := false }).setPc t .turningOff)
  | check {t : Fin N} {passive : Bool} : s.pc t = .turningOff →
      Step s (.check t passive) (s.checkCtr t passive)
  | driverOn {t : Fin N} : s.pc t = .idle → Step s (.driverOn t)
      { s.setBus { s.client.bus with allowNewXenbusOperation := true } with quiet := none }
  | transmit {again : Bool} {bus : Xenbus} : s.client.bus.transmitRound = some (again, bus) →
      Step s .transmit (s.setBus bus)
  | receive {austere again : Bool} {mem : Option (Nat → UInt8)} {bus : Xenbus} :
      s.client.bus.receiveIn austere mem = some (again, bus) →
      Step s (.receive austere mem) (s.setBus bus)
  | resume : Step s .resume (s.setBus (s.client.bus.resetRequests s.client.txIo))
  | xenstored {buf : XenstoreDomainInterface} :
      buf.reqProd = s.client.bus.sharedBuf.reqProd →
      Step s (.xenstored buf) (s.setBus { s.client.bus with sharedBuf := buf })

/-- No thread is in the driver, and there is no request. -/
structure Start (s : OffSys N) : Prop where
  pc : ∀ t, s.pc t = .idle
  ctr : s.client.bus.xenbusOutstandingCtr = 0
  pending : s.client.bus.pending = []
  current : s.client.bus.currentTxReq = none
  quiet : s.quiet = none

abbrev Reached : OffSys N → Prop := Reachable Start Step fun _ _ => True

/-! ## The invariant -/

/-- The count is right, the list has the requests of the threads that wait for a reply, the request
that is transmitted is one of them, and while the driver is quiet there is nothing to do. -/
structure Inv (s : OffSys N) : Prop where
  ctr : s.client.bus.xenbusOutstandingCtr = tally OpPc.counts s.pc
  listed : ∀ r, r ∈ s.client.bus.pending ↔ ∃ t, t.val = r ∧ s.pc t = .listed
  nodup : s.client.bus.pending.Nodup
  current : ∀ r, s.client.bus.currentTxReq = some r → r ∈ s.client.bus.pending
  quiet : ∀ p, s.quiet = some p → s.client.bus.allowNewXenbusOperation = false ∧
    s.client.bus.xenbusOutstandingCtr = 0 ∧ s.client.bus.sharedBuf.reqProd = p

variable {s s' : OffSys N} {t : Fin N} {a : OffAct N} {bus : Xenbus}

theorem Start.inv (h : s.Start) : s.Inv where
  ctr := by
    rw [h.ctr, tally_eq_zero.mpr fun t => by rw [h.pc t]; rfl]
    rfl
  listed r := by
    rw [h.pending]
    refine iff_of_false List.not_mem_nil ?_
    rintro ⟨t, _, ht⟩
    rw [h.pc t] at ht
    cases ht
  nodup := by
    rw [h.pending]
    exact List.nodup_nil
  current r hr := by
    rw [h.current] at hr
    cases hr
  quiet p hp := by
    rw [h.quiet] at hp
    cases hp

theorem setBus_pc (s : OffSys N) (bus : Xenbus) : (s.setBus bus).pc = s.pc := rfl

/-- When nothing is counted, nothing is on the list, and nothing is transmitted. -/
theorem Inv.nothing (h : s.Inv) (hctr : s.client.bus.xenbusOutstandingCtr = 0) :
    (∀ t, (s.pc t).counts = false) ∧ s.client.bus.pending = [] ∧
      s.client.bus.currentTxReq = none := by
  have hnone : ∀ t, (s.pc t).counts = false := by
    have hzero := h.ctr.symm.trans hctr
    exact tally_eq_zero.mp (by omega)
  have hpending : s.client.bus.pending = [] := by
    refine List.eq_nil_iff_forall_not_mem.mpr fun r hr => ?_
    obtain ⟨t, _, ht⟩ := (h.listed r).mp hr
    have hcounts := hnone t
    rw [ht] at hcounts
    cases hcounts
  refine ⟨hnone, hpending, Option.eq_none_iff_forall_ne_some.mpr fun r hr => ?_⟩
  have hmem := h.current r hr
  rw [hpending] at hmem
  cases hmem

/-- A thread moves on, and is counted as before. -/
theorem tally_setPc {p : OpPc} (hp : p.counts = (s.pc t).counts) :
    tally OpPc.counts (s.setPc t p).pc = tally OpPc.counts s.pc := by
  have hupdate := tally_update OpPc.counts s.pc t p
  rw [hp] at hupdate
  exact Nat.add_right_cancel hupdate

/-- A thread moves on that was not listed and is not listed. -/
theorem listed_setPc {p : OpPc} (hold : s.pc t ≠ .listed) (hnew : p ≠ .listed) (r : Nat) :
    (∃ u, u.val = r ∧ (s.setPc t p).pc u = .listed) ↔ ∃ u, u.val = r ∧ s.pc u = .listed := by
  refine exists_congr fun u => and_congr_right fun _ => ?_
  change Function.update s.pc t p u = .listed ↔ _
  rw [Function.update_apply]
  split
  · next hu => exact iff_of_false hnew (hu ▸ hold)
  · exact Iff.rfl

/-- The half of the driver that transmits and receives does its work. -/
theorem Inv.setBus (h : s.Inv)
    (hctr : bus.xenbusOutstandingCtr = s.client.bus.xenbusOutstandingCtr)
    (hallow : bus.allowNewXenbusOperation = s.client.bus.allowNewXenbusOperation)
    (hpending : bus.pending.Perm s.client.bus.pending)
    (hcurrent : ∀ r, bus.currentTxReq = some r → r ∈ bus.pending)
    (hprod : s.quiet ≠ none → bus.sharedBuf.reqProd = s.client.bus.sharedBuf.reqProd) :
    (s.setBus bus).Inv := by
  refine ⟨hctr.trans h.ctr, fun r => hpending.mem_iff.trans (h.listed r),
    hpending.nodup_iff.mpr h.nodup, hcurrent, fun p hp => ?_⟩
  obtain ⟨hforbidden, hzero, hat⟩ := h.quiet p hp
  have hsome : s.quiet ≠ none := fun hnone => Option.some_ne_none p (hp.symm.trans hnone)
  exact ⟨hallow.trans hforbidden, hctr.trans hzero, (hprod hsome).trans hat⟩

/-- A thread moves on without the driver taking notice. -/
theorem Inv.setPc {p : OpPc} (h : s.Inv) (hcounts : p.counts = (s.pc t).counts)
    (hold : s.pc t ≠ .listed) (hnew : p ≠ .listed) : (s.setPc t p).Inv :=
  ⟨h.ctr.trans (congrArg Nat.cast (tally_setPc hcounts).symm),
    fun r => (h.listed r).trans (listed_setPc hold hnew r).symm, h.nodup, h.current, h.quiet⟩

/-- An operation starts, or is refused. -/
theorem Inv.start (h : s.Inv) (hidle : s.pc t = .idle) : (s.startOp t).Inv := by
  unfold startOp Xenbus.startOperation
  by_cases hallow : s.client.bus.allowNewXenbusOperation = true
  · rw [if_pos hallow]
    have htally := tally_update OpPc.counts s.pc t .started
    rw [hidle] at htally
    refine ⟨?_, fun r => (h.listed r).trans (listed_setPc (by rw [hidle]; decide) (by decide) r).symm,
      h.nodup, h.current, fun p hp => ?_⟩
    · change s.client.bus.xenbusOutstandingCtr + 1 = _
      rw [h.ctr]
      exact congrArg Nat.cast htally.symm
    · rw [(h.quiet p hp).1] at hallow
      cases hallow
  · rw [if_neg hallow]
    exact h

/-- A request comes to the list. -/
theorem Inv.enqueue {req : PendingReq} {io : Nat → List (List UInt8)} (h : s.Inv)
    (hstarted : s.pc t = .started) :
    (OffSys.setPc { s with client := ⟨s.client.bus.enqueueRequest t.val req, io⟩ } t .listed).Inv := by
  have hnot : t.val ∉ s.client.bus.pending := fun hmem => by
    obtain ⟨u, hu, hlisted⟩ := (h.listed t.val).mp hmem
    rw [Fin.ext hu, hstarted] at hlisted
    cases hlisted
  have htally := tally_setPc (s := s) (t := t) (p := .listed) (by rw [hstarted]; rfl)
  refine ⟨h.ctr.trans (congrArg Nat.cast htally.symm), fun r => ?_, ?_, fun r hr => ?_, fun p hp => ?_⟩
  · change r ∈ s.client.bus.pending ++ [t.val] ↔
      ∃ u, u.val = r ∧ Function.update s.pc t .listed u = .listed
    rw [List.mem_append, List.mem_singleton, h.listed r]
    constructor
    · rintro (⟨u, rfl, hu⟩ | rfl)
      · exact ⟨u, rfl, by rw [Function.update_apply, hu, ite_self]⟩
      · exact ⟨t, rfl, Function.update_self ..⟩
    · rintro ⟨u, rfl, hu⟩
      rw [Function.update_apply] at hu
      split at hu
      · next heq => exact Or.inr (congrArg Fin.val heq)
      · exact Or.inl ⟨u, rfl, hu⟩
  · exact List.nodup_append.mpr ⟨h.nodup, List.nodup_singleton _, fun x hx y hy => by
      rw [List.mem_singleton.mp hy]
      rintro rfl
      exact hnot hx⟩
  · change (if s.client.bus.currentTxReq = none then some t.val else s.client.bus.currentTxReq) =
      some r at hr
    split at hr
    · exact List.mem_append_right _ (List.mem_singleton.mpr (Option.some.inj hr).symm)
    · exact List.mem_append_left _ (h.current r hr)
  · -- a started operation is counted, so the driver is not quiet
    have hcounts := (h.nothing (h.quiet p hp).2.1).1 t
    rw [hstarted] at hcounts
    cases hcounts

/-- A request leaves the list. -/
theorem Inv.dequeue (h : s.Inv) (hlisted : s.pc t = .listed)
    (hbus : s.client.bus.dequeueRequest t.val = some bus) :
    ((s.setBus bus).setPc t .unhooked).Inv := by
  unfold Xenbus.dequeueRequest at hbus
  split at hbus
  · cases hbus
  next hcurrent =>
  split at hbus
  · cases hbus
  obtain rfl := Option.some.inj hbus
  have htally := tally_setPc (s := s) (t := t) (p := .unhooked) (by rw [hlisted]; rfl)
  refine ⟨h.ctr.trans (congrArg Nat.cast htally.symm), fun r => ?_, h.nodup.erase _, fun r hr => ?_,
    h.quiet⟩
  · change r ∈ s.client.bus.pending.erase t.val ↔
      ∃ u, u.val = r ∧ Function.update s.pc t .unhooked u = .listed
    rw [h.nodup.mem_erase_iff, h.listed r]
    constructor
    · rintro ⟨hne, u, rfl, hu⟩
      refine ⟨u, rfl, ?_⟩
      rw [Function.update_of_ne fun heq => hne (congrArg Fin.val heq)]
      exact hu
    · rintro ⟨u, rfl, hu⟩
      rw [Function.update_apply] at hu
      split at hu
      · cases hu
      · next hne => exact ⟨fun heq => hne (Fin.ext heq), u, rfl, hu⟩
  · refine (List.mem_erase_of_ne ?_).mpr (h.current r hr)
    rintro rfl
    exact hcurrent hr

/-- An operation ends. -/
theorem Inv.finish (h : s.Inv) (hunhooked : s.pc t = .unhooked) :
    ((s.setBus s.client.bus.endOperation).setPc t .idle).Inv := by
  have htally := tally_update OpPc.counts s.pc t .idle
  rw [hunhooked] at htally
  refine ⟨?_, fun r => (h.listed r).trans
    (listed_setPc (by rw [hunhooked]; decide) (by decide) r).symm, h.nodup, h.current, fun p hp => ?_⟩
  · change s.client.bus.xenbusOutstandingCtr - 1 = _
    rw [h.ctr]
    change (tally OpPc.counts s.pc : ℤ) - 1 = (tally OpPc.counts (Function.update s.pc t .idle) : ℤ)
    rw [show OpPc.counts .unhooked = true from rfl, show OpPc.counts .idle = false from rfl] at htally
    simp only [Bool.toNat_true, Bool.toNat_false] at htally
    omega
  · have hcounts := (h.nothing (h.quiet p hp).2.1).1 t
    rw [hunhooked] at hcounts
    cases hcounts

/-- `xenbus_driver_off` forbids operations. -/
theorem Inv.driverOff (h : s.Inv) (hidle : s.pc t = .idle) :
    ((s.setBus { s.client.bus with
      allowNewXenbusOperation := false
      allowXenbusWatchOperation := false }).setPc t .turningOff).Inv := by
  have hoff : (s.setBus { s.client.bus with
      allowNewXenbusOperation := false
      allowXenbusWatchOperation := false }).Inv :=
    ⟨h.ctr, h.listed, h.nodup, h.current, fun p hp => ⟨rfl, (h.quiet p hp).2⟩⟩
  exact hoff.setPc (by rw [setBus_pc, hidle]; rfl) (by rw [setBus_pc, hidle]; decide) (by decide)

/-- `xenbus_driver_off` looks at the count. -/
theorem Inv.check {passive : Bool} (h : s.Inv) (hoff : s.pc t = .turningOff) :
    (s.checkCtr t passive).Inv := by
  have hidle : (s.setPc t .idle).Inv :=
    h.setPc (by rw [hoff]; rfl) (by rw [hoff]; decide) (by decide)
  unfold checkCtr
  split
  · next hzero =>
    refine ⟨hidle.ctr, hidle.listed, hidle.nodup, hidle.current, fun p hp => ?_⟩
    split at hp
    · cases hp
    · next hallow => exact ⟨Bool.eq_false_iff.mpr hallow, hzero, Option.some.inj hp⟩
  · split
    · exact h
    · exact hidle

/-- One round of the loop that transmits.  While the driver is quiet it finds no request. -/
theorem Inv.transmit {again : Bool} (h : s.Inv)
    (hround : s.client.bus.transmitRound = some (again, bus)) : (s.setBus bus).Inv := by
  cases hcurrent : s.client.bus.currentTxReq with
  | none =>
    rw [Xenbus.transmitRound, hcurrent] at hround
    cases hround
    exact h
  | some r =>
    have hbusy : s.quiet = none := by
      cases hquiet : s.quiet with
      | none => rfl
      | some p =>
        have hnone := (h.nothing (h.quiet p hquiet).2.1).2.2
        rw [hcurrent] at hnone
        cases hnone
    have hmem := Xenbus.transmitRound_current hround h.current
    rcases Xenbus.transmitRound_cases hround with rfl | ⟨r', p, current, rfl⟩
    · exact h
    · exact h.setBus rfl rfl (.refl _) hmem fun hquiet => absurd hbusy hquiet

/-- `receive_from_xenstored`. -/
theorem Inv.receive {austere again : Bool} {mem : Option (Nat → UInt8)} (h : s.Inv)
    (hcall : s.client.bus.receiveIn austere mem = some (again, bus)) : (s.setBus bus).Inv := by
  cases Xenbus.call_of_receiveIn hcall with
  | body _ _ _ _ =>
    split
    · exact h.setBus rfl rfl (.refl _) h.current fun _ => rfl
    · exact h.setBus rfl rfl (.refl _) h.current fun _ => rfl
  | _ => exact h.setBus rfl rfl (.refl _) h.current fun _ => rfl

/-- The domain resumes. -/
theorem Inv.resume (h : s.Inv) :
    (s.setBus (s.client.bus.resetRequests s.client.txIo)).Inv := by
  refine h.setBus rfl rfl ?_ (fun r hr => ?_) fun _ => rfl
  · exact List.filter_append_perm _ _
  · exact List.mem_append_right _ (List.mem_of_mem_head? hr)

/-- **Every step** keeps the invariant. -/
theorem Inv.step (h : s.Inv) (hs : Step s a s') : s'.Inv := by
  cases hs with
  | start hidle => exact h.start hidle
  | enqueue hstarted _ => exact h.enqueue hstarted
  | dequeue hlisted _ hbus => exact h.dequeue hlisted hbus
  | finish hunhooked => exact h.finish hunhooked
  | driverOff hidle => exact h.driverOff hidle
  | check hoff => exact h.check hoff
  | driverOn _ => exact ⟨h.ctr, h.listed, h.nodup, h.current, fun p hp => nomatch hp⟩
  | transmit hround => exact h.transmit hround
  | receive hcall => exact h.receive hcall
  | resume => exact h.resume
  | xenstored hprod => exact h.setBus rfl rfl (.refl _) h.current fun _ => hprod

theorem Reached.inv (h : s.Reached) : s.Inv :=
  h.invariant (fun _ hs => hs.inv) fun _ _ _ hi _ hs => hi.step hs

/-- No thread has called yet. -/
def fresh : OffSys 2 := ⟨Client.idle, fun _ => .idle, none⟩

theorem fresh_reached : fresh.Reached := .start ⟨fun _ => rfl, rfl, rfl, rfl, rfl⟩

end OffSys
end V4v.Xenutil
