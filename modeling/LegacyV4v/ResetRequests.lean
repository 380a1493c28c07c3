import LegacyV4v.GuardedRun
import LegacyV4v.PointerChain
import LegacyV4v.Xenbus

/-! # Requests are sent again after a resume

xenstored forgets about the requests that it has not answered when the domain is suspended.
`reset_requests` has them sent again.  It cuts the list of pending requests into those with a reply
and those without, and splices the two parts; the list is one of structures with pointers in both
directions.  Here it is shown what list this is, and that the list of names of `Xenbus` is what the
pointers say.  The two counts, which are only printed, are left out. -/
namespace V4v.Xenutil
open GuardedRun PointerChain

/-- The list of pending requests; `reqs` has the fields of a request that are not listed. -/
structure RequestList where
  next : Nat → Option Nat
  prev : Nat → Option Nat
  txIo : Nat → List (List UInt8)
  reqs : Nat → PendingReq
  headPendingXenbusReq : Option Nat
  tailPendingXenbusReq : Option Nat
  currentTxReq : Option Nat
  currentRxReq : Option Nat

/-- A list that is being built. -/
structure ListEnds where
  head : Option Nat
  tail : Option Nat

/-- The local variables of `reset_requests`. -/
structure ResetParts where
  comp : ListEnds
  incomp : ListEnds

/-- `p->next_tx_seg = p->tx_io; p->tx_sg_off = 0;`. -/
def PendingReq.resetTransmission (req : PendingReq) (txIo : List (List UInt8)) : PendingReq :=
  { req with nextTxSeg := txIo, txSgOff := 0 }

namespace RequestList

/-- `p->prev = tail; if (tail) tail->next = p; else head = p; tail = p;`. -/
def hook (s : RequestList) (ends : ListEnds) (p : Nat) : RequestList × ListEnds :=
  ({ s with
      prev := Function.update s.prev p ends.tail
      next := link s.next ends.tail (some p) },
    ⟨if ends.tail = none then some p else ends.head, some p⟩)

/-- `submit_request`, where it is on the list, of the request `req` with the segments `io`. -/
def submitRequest (s : RequestList) (r : Nat) (req : PendingReq) (io : List (List UInt8)) :
    RequestList :=
  let s := { s with
    reqs := Function.update s.reqs r req
    txIo := Function.update s.txIo r io
    next := Function.update s.next r none }
  let (s, ends) := s.hook ⟨s.headPendingXenbusReq, s.tailPendingXenbusReq⟩ r
  { s with
    headPendingXenbusReq := ends.head
    tailPendingXenbusReq := ends.tail
    currentTxReq := if s.currentTxReq = none then some r else s.currentTxReq }

/-- The end of `get_request_results`. -/
def unhookRequest (s : RequestList) (r : Nat) : Option RequestList :=
  let s' := { s with
    next := link s.next (s.prev r) (s.next r)
    prev := link s.prev (s.next r) (s.prev r)
    headPendingXenbusReq := if s.prev r = none then s.next r else s.headPendingXenbusReq
    tailPendingXenbusReq := if s.next r = none then s.prev r else s.tailPendingXenbusReq }
  if s.currentTxReq = some r then none
  else if s.currentRxReq = some r then none
  else some s'

/-- The body of the loop of `reset_requests`, and where it goes on. -/
def resetRound (s : RequestList) (v : ResetParts) (p : Nat) : RequestList × ResetParts × Option Nat :=
  let n := s.next p
  let s := { s with next := Function.update s.next p none }
  if (s.reqs p).xenbusReplied then
    let (s, comp) := s.hook v.comp p
    (s, { v with comp := comp }, n)
  else
    let s := { s with
      reqs := Function.update s.reqs p ((s.reqs p).resetTransmission (s.txIo p)) }
    let (s, incomp) := s.hook v.incomp p
    (s, { v with incomp := incomp }, n)

/-- The loop of `reset_requests`, for so many rounds. -/
def resetLoop : Nat → RequestList → ResetParts → Option Nat → Option (RequestList × ResetParts)
  | _, s, v, none => some (s, v)
  | 0, _, _, some _ => none
  | rounds + 1, s, v, some p =>
    let (s, v, p) := s.resetRound v p
    resetLoop rounds s v p

/-- The end of `reset_requests`, which splices the two lists. -/
def splice (s : RequestList) (v : ResetParts) : RequestList :=
  { s with
    next := link s.next v.comp.tail v.incomp.head
    prev := link s.prev v.incomp.head v.comp.tail
    headPendingXenbusReq := if v.comp.head = none then v.incomp.head else v.comp.head
    tailPendingXenbusReq := if v.incomp.tail = none then v.comp.tail else v.incomp.tail
    currentTxReq := v.incomp.head
    currentRxReq := none }

/-- `reset_requests`, if its loop takes no more than so many rounds. -/
def resetRequests (rounds : Nat) (s : RequestList) : Option RequestList :=
  (resetLoop rounds s ⟨⟨none, none⟩, ⟨none, none⟩⟩ s.headPendingXenbusReq).map fun (s, v) => s.splice v

/-- The pending requests are those of `l`, in this order. -/
def Lists (s : RequestList) (l : List Nat) : Prop :=
  Linked s.next s.prev s.headPendingXenbusReq s.tailPendingXenbusReq l

/-- The request has its reply. -/
def replied (s : RequestList) (r : Nat) : Bool := (s.reqs r).xenbusReplied

/-- What becomes of the request. -/
def resetReq (s : RequestList) (r : Nat) : PendingReq :=
  if s.replied r then s.reqs r else (s.reqs r).resetTransmission (s.txIo r)

variable {s s' : RequestList} {l l₁ l₂ : List Nat} {r p : Nat} {ends : ListEnds} {v : ResetParts}

/-! ## One request -/

/-- A request is put behind a list. -/
theorem hook_linked (h : Linked s.next s.prev ends.head ends.tail l) (hp : p ∉ l)
    (hnext : s.next p = none) :
    Linked (s.hook ends p).1.next (s.hook ends p).1.prev (s.hook ends p).2.head
      (s.hook ends p).2.tail (l ++ [p]) := by
  have hpush := h.push hp hnext
  have hhead : ends.head.or (some p) = if ends.tail = none then some p else ends.head := by
    rw [h.head_eq, h.tail_eq]
    cases l <;> simp
  rwa [hhead] at hpush

/-- The requests that are not on the list keep their pointers. -/
theorem hook_frame {i : Nat} (h : Linked s.next s.prev ends.head ends.tail l) (hi : i ∉ l)
    (hp : i ≠ p) : (s.hook ends p).1.next i = s.next i ∧ (s.hook ends p).1.prev i = s.prev i := by
  refine ⟨link_of_ne fun htail => hi ?_, Function.update_of_ne hp _ _⟩
  rw [h.tail_eq] at htail
  exact List.mem_of_getLast? htail

/-- Of two lists, one gets a request that is its own; the other one and the requests behind are left
alone. -/
theorem hook_part {done rest : List Nat} {f g : Nat → Bool} {other : ListEnds} {n : Option Nat}
    (hmine : Linked s.next s.prev ends.head ends.tail (done.filter f))
    (hother : Linked s.next s.prev other.head other.tail (done.filter g))
    (hrest : Chain s.next n rest) (hnd : (done ++ p :: rest).Nodup) (hnext : s.next p = none)
    (hf : f p = true) (hg : ∀ i, g i = !f i) :
    Linked (s.hook ends p).1.next (s.hook ends p).1.prev (s.hook ends p).2.head
        (s.hook ends p).2.tail ((done ++ [p]).filter f) ∧
      Linked (s.hook ends p).1.next (s.hook ends p).1.prev other.head other.tail
        ((done ++ [p]).filter g) ∧
      Chain (s.hook ends p).1.next n rest ∧
      ∀ r ∉ done ++ p :: rest, (s.hook ends p).1.next r = s.next r ∧ (s.hook ends p).1.prev r = s.prev r := by
  obtain ⟨-, hnd', hdisj⟩ := List.nodup_append.mp hnd
  obtain ⟨hprest, -⟩ := List.nodup_cons.mp hnd'
  have hpdone : p ∉ done := fun hmem => hdisj p hmem p List.mem_cons_self rfl
  have hframe := fun i (hi : i ∉ done.filter f) (hip : i ≠ p) => hook_frame hmine hi hip
  have hleft : ∀ i ∈ done.filter g, i ∉ done.filter f ∧ i ≠ p := by
    intro i hi
    obtain ⟨hmem, hyes⟩ := List.mem_filter.mp hi
    refine ⟨fun hmine => ?_, fun heq => hpdone (heq ▸ hmem)⟩
    rw [hg, (List.mem_filter.mp hmine).2] at hyes
    exact Bool.noConfusion hyes
  have hbehind : ∀ i ∈ rest, i ∉ done.filter f ∧ i ≠ p := fun i hi =>
    ⟨fun hmem => hdisj i (List.mem_filter.mp hmem).1 i (List.mem_cons_of_mem p hi) rfl,
      fun heq => hprest (heq ▸ hi)⟩
  refine ⟨?_, ?_, ?_, fun r hr => ?_⟩
  · rw [List.filter_append, List.filter_singleton, hf, cond_true]
    exact hook_linked hmine (fun hmem => hpdone (List.mem_filter.mp hmem).1) hnext
  · rw [List.filter_append, List.filter_singleton, hg, hf, Bool.not_true, cond_false, List.append_nil]
    exact hother.congr (fun i hi => (hframe i (hleft i hi).1 (hleft i hi).2).1)
      fun i hi => (hframe i (hleft i hi).1 (hleft i hi).2).2
  · exact hrest.congr fun i hi => (hframe i (hbehind i hi).1 (hbehind i hi).2).1
  · refine hframe r (fun hmem => hr (List.mem_append_left _ (List.mem_filter.mp hmem).1)) ?_
    rintro rfl
    exact hr (List.mem_append_right _ List.mem_cons_self)

/-! ## The loop -/

/-- The requests `done` have been put on the two lists, from `q` on there are those of `rest`. -/
structure Segregates (s₀ s : RequestList) (v : ResetParts) (q : Option Nat) (done rest : List Nat) :
    Prop where
  comp : Linked s.next s.prev v.comp.head v.comp.tail (done.filter s₀.replied)
  incomp : Linked s.next s.prev v.incomp.head v.incomp.tail (done.filter (!s₀.replied ·))
  behind : Chain s.next q rest
  nodup : (done ++ rest).Nodup
  reqs : ∀ r, s.reqs r = if r ∈ done then s₀.resetReq r else s₀.reqs r
  txIo : s.txIo = s₀.txIo
  frame : ∀ r ∉ done ++ rest, s.next r = s₀.next r ∧ s.prev r = s₀.prev r

variable {s₀ : RequestList} {q : Option Nat} {done rest : List Nat}

/-- **One round** puts the next request on its list. -/
theorem Segregates.round (h : Segregates s₀ s v q done (p :: rest)) :
    Segregates s₀ (s.resetRound v p).1 (s.resetRound v p).2.1 (s.resetRound v p).2.2
      (done ++ [p]) rest := by
  obtain ⟨-, hbehind⟩ := h.behind
  have hnd := h.nodup
  obtain ⟨-, hnd', hdisj⟩ := List.nodup_append.mp hnd
  obtain ⟨hprest, -⟩ := List.nodup_cons.mp hnd'
  have hpdone : p ∉ done := fun hmem => hdisj p hmem p List.mem_cons_self rfl
  have happend : done ++ [p] ++ rest = done ++ p :: rest := by
    rw [List.append_assoc, List.singleton_append]
  have hreqp : s.reqs p = s₀.reqs p := by rw [h.reqs, if_neg hpdone]
  -- the request is taken off the list
  have hclear : ∀ i, i ≠ p → Function.update s.next p none i = s.next i :=
    fun i hi => Function.update_of_ne hi _ _
  have hkeep : ∀ {f : Nat → Bool} {ends : ListEnds},
      Linked s.next s.prev ends.head ends.tail (done.filter f) →
      Linked (Function.update s.next p none) s.prev ends.head ends.tail (done.filter f) := fun hl =>
    hl.congr (fun i hi => hclear i (by rintro rfl; exact hpdone (List.mem_filter.mp hi).1))
      fun i _ => rfl
  have hrest : Chain (Function.update s.next p none) (s.next p) rest :=
    hbehind.congr fun i hi => hclear i (by rintro rfl; exact hprest hi)
  have hnone : Function.update s.next p none p = none := Function.update_self ..
  have houter : ∀ r ∉ done ++ p :: rest,
      Function.update s.next p none r = s₀.next r ∧ s.prev r = s₀.prev r := fun r hr =>
    ⟨(hclear r (by rintro rfl; exact hr (List.mem_append_right _ List.mem_cons_self))).trans
      (h.frame r hr).1, (h.frame r hr).2⟩
  have hdone : ∀ r, r ≠ p → (r ∈ done ++ [p] ↔ r ∈ done) := fun r hr => by
    rw [List.mem_append, List.mem_singleton, or_iff_left hr]
  have hp : p ∈ done ++ [p] := List.mem_append_right _ (List.mem_singleton.mpr rfl)
  cases hreplied : s₀.replied p with
  | true =>
    obtain ⟨hcomp, hincomp, hnext, hout⟩ := hook_part
      (s := { s with next := Function.update s.next p none }) (g := (!s₀.replied ·))
      (hkeep h.comp) (hkeep h.incomp) hrest hnd hnone hreplied fun _ => rfl
    rw [resetRound]
    dsimp only
    rw [if_pos (by rw [hreqp]; exact hreplied)]
    refine ⟨hcomp, hincomp, hnext, happend ▸ hnd, fun r => ?_, h.txIo, fun r hr => ?_⟩
    · change s.reqs r = _
      by_cases hrp : r = p
      · rw [hrp, if_pos hp, resetReq, hreplied, hreqp]
        rfl
      · rw [h.reqs, if_congr (hdone r hrp) rfl rfl]
    · rw [happend] at hr
      exact ⟨(hout r hr).1.trans (houter r hr).1, (hout r hr).2.trans (houter r hr).2⟩
  | false =>
    obtain ⟨hincomp, hcomp, hnext, hout⟩ := hook_part
      (s := { s with
        next := Function.update s.next p none
        reqs := Function.update s.reqs p ((s.reqs p).resetTransmission (s.txIo p)) })
      (f := (!s₀.replied ·)) (g := s₀.replied)
      (hkeep h.incomp) (hkeep h.comp) hrest hnd hnone (by rw [hreplied]; rfl)
      fun _ => (Bool.not_not _).symm
    rw [resetRound]
    dsimp only
    rw [if_neg (by rw [hreqp]; exact fun heq => Bool.noConfusion (heq.symm.trans hreplied))]
    refine ⟨hcomp, hincomp, hnext, happend ▸ hnd, fun r => ?_, h.txIo, fun r hr => ?_⟩
    · change Function.update s.reqs p _ r = _
      by_cases hrp : r = p
      · rw [hrp, if_pos hp, Function.update_self, resetReq, hreplied, hreqp, h.txIo]
        rfl
      · rw [Function.update_of_ne hrp, h.reqs, if_congr (hdone r hrp) rfl rfl]
    · rw [happend] at hr
      exact ⟨(hout r hr).1.trans (houter r hr).1, (hout r hr).2.trans (houter r hr).2⟩

/-- **The loop** puts all requests on the two lists. -/
theorem Segregates.loop (h : Segregates s₀ s v q done rest) :
    ∃ s' v', (∀ rounds, rest.length ≤ rounds → resetLoop rounds s v q = some (s', v')) ∧
      Segregates s₀ s' v' none (done ++ rest) [] := by
  induction rest generalizing s v q done with
  | nil =>
    obtain rfl : q = none := h.behind
    refine ⟨s, v, fun rounds _ => ?_, (List.append_nil done).symm ▸ h⟩
    cases rounds <;> rfl
  | cons p rest ih =>
    obtain ⟨rfl, -⟩ := h.behind
    obtain ⟨s', v', hloop, hend⟩ := ih h.round
    rw [List.append_assoc, List.singleton_append] at hend
    refine ⟨s', v', fun rounds hrounds => ?_, hend⟩
    cases rounds with
    | zero => cases hrounds
    | succ rounds => exact hloop rounds (Nat.le_of_succ_le_succ hrounds)

/-! ## What becomes of the list -/

/-- What `reset_requests` makes of the pending requests `l`. -/
structure Retransmits (s s' : RequestList) (l : List Nat) : Prop where
  lists : s'.Lists (l.filter s.replied ++ l.filter (!s.replied ·))
  once : (l.filter s.replied ++ l.filter (!s.replied ·)).Perm l
  unreplied : ∀ r ∈ l, s.replied r = false → s'.reqs r = (s.reqs r).resetTransmission (s.txIo r)
  kept : ∀ r, r ∉ l ∨ s.replied r = true → s'.reqs r = s.reqs r
  txIo : s'.txIo = s.txIo
  currentTxReq : s'.currentTxReq = (l.filter (!s.replied ·)).head?
  currentRxReq : s'.currentRxReq = none

/-- The two lists are spliced. -/
theorem Segregates.splice (h : Segregates s₀ s v none l []) : Retransmits s₀ (s.splice v) l := by
  refine ⟨?_, List.filter_append_perm s₀.replied l, fun r hr hno => ?_, fun r hr => ?_, h.txIo,
    h.incomp.head_eq, rfl⟩
  · have hnd : (l.filter s₀.replied ++ l.filter (!s₀.replied ·)).Nodup :=
      (List.filter_append_perm s₀.replied l).nodup_iff.mpr (List.append_nil l ▸ h.nodup)
    have hor : ∀ a b : Option Nat, a.or b = if a = none then b else a := by
      intro a b
      cases a <;> rfl
    have hsplice := h.comp.splice h.incomp hnd
    rwa [hor, hor] at hsplice
  · change s.reqs r = _
    rw [h.reqs, if_pos hr, resetReq, hno]
    rfl
  · change s.reqs r = _
    rw [h.reqs]
    rcases hr with hr | hyes
    · rw [if_neg hr]
    · rw [resetReq, if_pos hyes, ite_self]

/-- `reset_requests` ends, when all requests are on the two lists. -/
theorem Lists.segregates (h : s.Lists l) :
    ∃ s' v, (∀ rounds, l.length ≤ rounds → s.resetRequests rounds = some (s'.splice v)) ∧
      Segregates s s' v none l [] := by
  have hstart : Segregates s s ⟨⟨none, none⟩, ⟨none, none⟩⟩ s.headPendingXenbusReq [] l :=
    ⟨.empty, .empty, h.forward, h.nodup, fun r => (if_neg List.not_mem_nil).symm, rfl, fun _ _ => ⟨rfl, rfl⟩⟩
  obtain ⟨s', v, hloop, hend⟩ := hstart.loop
  refine ⟨s', v, fun rounds hrounds => ?_, hend⟩
  rw [resetRequests, hloop rounds hrounds]
  rfl

/-- **The list behind `reset_requests`**: the requests that have their reply and then the others,
which are sent again from the first on. -/
theorem reset_requests_retransmits (h : s.Lists l) :
    ∃ s', (∀ rounds, l.length ≤ rounds → s.resetRequests rounds = some s') ∧ Retransmits s s' l := by
  obtain ⟨s', v, hs', hend⟩ := h.segregates
  exact ⟨s'.splice v, hs', hend.splice⟩

/-- A list of three requests of which the second has its reply. -/
def threeRequests : RequestList where
  next := fun r => if r = 0 then some 1 else if r = 1 then some 2 else none
  prev := fun r => if r = 2 then some 1 else if r = 1 then some 0 else none
  txIo := fun _ => [[1, 2]]
  reqs := fun r => { initialisePendingReq ⟨11, 5, 0, 0⟩ [[2]] with xenbusReplied := r == 1 }
  headPendingXenbusReq := some 0
  tailPendingXenbusReq := some 2
  currentTxReq := none
  currentRxReq := some 2

/-- The first and the third request are sent again. -/
theorem reset_three_requests : ∃ s', threeRequests.resetRequests 3 = some s' ∧ s'.Lists [1, 0, 2] ∧
    s'.currentTxReq = some 0 := by
  have hlists : threeRequests.Lists [0, 1, 2] :=
    ⟨⟨rfl, rfl, rfl, rfl⟩, ⟨rfl, rfl, rfl, rfl⟩, by decide⟩
  obtain ⟨s', hs', hre⟩ := reset_requests_retransmits hlists
  exact ⟨s', hs' 3 (Nat.le_refl _), hre.lists, hre.currentTxReq⟩

/-! ## The other operations -/

theorem Lists.nodup (h : s.Lists l) : l.Nodup := Linked.nodup h

/-- A request is put behind the others. -/
theorem Lists.submit {req : PendingReq} {io : List (List UInt8)} (h : s.Lists l) (hr : r ∉ l) :
    (s.submitRequest r req io).Lists (l ++ [r]) := by
  have hlinked : Linked (Function.update s.next r none) s.prev
      (⟨s.headPendingXenbusReq, s.tailPendingXenbusReq⟩ : ListEnds).head
      (⟨s.headPendingXenbusReq, s.tailPendingXenbusReq⟩ : ListEnds).tail l :=
    h.congr (fun i hi => Function.update_of_ne (by rintro rfl; exact hr hi) _ _) fun _ _ => rfl
  exact hook_linked
    (s := { s with
      reqs := Function.update s.reqs r req
      txIo := Function.update s.txIo r io
      next := Function.update s.next r none }) hlinked hr (Function.update_self ..)

/-- A request is taken out. -/
theorem Lists.unhook (h : s.Lists l) (hr : r ∈ l) (hs' : s.unhookRequest r = some s') :
    s'.Lists (l.erase r) := by
  obtain ⟨l₁, l₂, rfl⟩ := List.append_of_mem hr
  have hnot : r ∉ l₁ := fun hmem => (List.nodup_append.mp h.nodup).2.2 r hmem r List.mem_cons_self rfl
  rw [List.erase_append_right _ hnot, List.erase_cons_head]
  have hremove := Linked.remove h
  unfold unhookRequest at hs'
  dsimp only at hs'
  split at hs'
  · cases hs'
  · split at hs'
    · cases hs'
    · cases hs'
      exact hremove

/-! ## Runs -/

/-- What happens to the list. -/
inductive Act where
  | submit (r : Nat) (req : PendingReq) (io : List (List UInt8))
  | unhook (r : Nat)
  | reset
  | work

/-- A request that is submitted is not on the list, and one that is unhooked is.  The requests are
also worked on, which does not change the list. -/
inductive Step (s : RequestList) : Act → RequestList → Prop
  | submit {r : Nat} {req : PendingReq} {io : List (List UInt8)} : (∀ l, s.Lists l → r ∉ l) →
      Step s (.submit r req io) (s.submitRequest r req io)
  | unhook {r : Nat} {s' : RequestList} : (∀ l, s.Lists l → r ∈ l) → s.unhookRequest r = some s' →
      Step s (.unhook r) s'
  | reset {n : Nat} {s' : RequestList} : (∀ rounds, n ≤ rounds → s.resetRequests rounds = some s') →
      Step s .reset s'
  | work {reqs : Nat → PendingReq} {tx rx : Option Nat} :
      Step s .work { s with reqs := reqs, currentTxReq := tx, currentRxReq := rx }

/-- No request is pending. -/
def Empty (s : RequestList) : Prop := s.headPendingXenbusReq = none ∧ s.tailPendingXenbusReq = none

/-- **The list is always in order.** -/
theorem lists_of_reachable (h : Reachable Empty Step (fun _ _ => True) s) : ∃ l, s.Lists l := by
  refine h.invariant (P := fun s => ∃ l, s.Lists l) (fun s hs => ⟨[], hs.1, hs.2, List.nodup_nil⟩)
    fun s a s' ⟨l, hl⟩ _ hstep => ?_
  cases hstep with
  | submit hr => exact ⟨_, hl.submit (hr l hl)⟩
  | unhook hr hs' => exact ⟨_, hl.unhook (hr l hl) hs'⟩
  | @reset n s' hs' =>
    obtain ⟨t, v, ht, hend⟩ := hl.segregates
    have heq := (hs' _ (Nat.le_max_right l.length n)).symm.trans (ht _ (Nat.le_max_left l.length n))
    exact ⟨_, Option.some.inj heq ▸ hend.splice.lists⟩
  | work => exact ⟨l, hl⟩

end RequestList

/-! ## The list of names -/

namespace Xenbus

/-- The request has its reply. -/
def hasReply (s : Xenbus) (r : Nat) : Bool := (s.reqs r).xenbusReplied

/-- `reset_requests`, where the segments of the requests are `txIo`. -/
def resetRequests (s : Xenbus) (txIo : Nat → List (List UInt8)) : Xenbus :=
  { s with
    reqs := fun r =>
      if r ∈ s.pending ∧ s.hasReply r = false then (s.reqs r).resetTransmission (txIo r) else s.reqs r
    pending := s.pending.filter s.hasReply ++ s.pending.filter (!s.hasReply ·)
    currentTxReq := (s.pending.filter (!s.hasReply ·)).head?
    currentRxReq := none }

end Xenbus

/-- The pointers say what the list of names says. -/
structure Represents (p : RequestList) (s : Xenbus) : Prop where
  lists : p.Lists s.pending
  reqs : p.reqs = s.reqs
  currentTxReq : p.currentTxReq = s.currentTxReq
  currentRxReq : p.currentRxReq = s.currentRxReq

namespace Represents
variable {p : RequestList} {s : Xenbus} {r : Nat}

/-- `req->next`. -/
theorem next (h : Represents p s) (hr : r ∈ s.pending) : p.next r = s.nextReq r := by
  obtain ⟨l₁, l₂, hl⟩ := List.append_of_mem hr
  have hlists := h.lists
  rw [hl] at hlists
  have hnot : ∀ i ∈ l₁, (i != r) = true := fun i hi =>
    bne_iff_ne.mpr fun heq => (List.nodup_append.mp hlists.nodup).2.2 i hi r List.mem_cons_self heq
  rw [hlists.next_eq, Xenbus.nextReq, hl, List.dropWhile_append_of_pos hnot, List.dropWhile_cons_of_neg (by simp)]
  rfl

/-- `submit_request`. -/
theorem submit {req : PendingReq} {io : List (List UInt8)} (h : Represents p s)
    (hallow : s.allowNewXenbusOperation = true) (hr : r ∉ s.pending) :
    Represents (p.submitRequest r req io) (s.submitRequest r req).2 := by
  rw [Xenbus.submitRequest, if_pos hallow]
  refine ⟨h.lists.submit hr, ?_, ?_, h.currentRxReq⟩
  · change Function.update p.reqs r req = Function.update s.reqs r req
    rw [h.reqs]
  · change (if p.currentTxReq = none then some r else p.currentTxReq) = _
    rw [h.currentTxReq]
    rfl

/-- The end of `get_request_results`. -/
theorem unhook (h : Represents p s) (hr : r ∈ s.pending) :
    Option.Rel Represents (p.unhookRequest r) (s.unhookRequest r) := by
  rw [RequestList.unhookRequest, Xenbus.unhookRequest, h.currentTxReq, h.currentRxReq]
  by_cases htx : s.currentTxReq = some r
  · rw [if_pos htx, if_pos htx]
    exact .none
  rw [if_neg htx, if_neg htx]
  by_cases hrx : s.currentRxReq = some r
  · rw [if_pos hrx, if_pos hrx]
    exact .none
  rw [if_neg hrx, if_neg hrx]
  refine .some ⟨h.lists.unhook hr ?_, h.reqs, rfl, rfl⟩
  rw [RequestList.unhookRequest, h.currentTxReq, h.currentRxReq, if_neg htx, if_neg hrx]

/-- `reset_requests`. -/
theorem reset (h : Represents p s) :
    ∃ p', (∀ rounds, s.pending.length ≤ rounds → p.resetRequests rounds = some p') ∧
      Represents p' (s.resetRequests p.txIo) := by
  obtain ⟨p', v, hp', hend⟩ := h.lists.segregates
  have hre := hend.splice
  have hreplied : p.replied = s.hasReply := by
    funext r
    rw [RequestList.replied, h.reqs, Xenbus.hasReply]
  refine ⟨p'.splice v, hp', ?_, ?_, ?_, hre.currentRxReq⟩
  · have hlists := hre.lists
    rwa [hreplied] at hlists
  · funext r
    change _ = if r ∈ s.pending ∧ s.hasReply r = false then _ else _
    by_cases hr : r ∈ s.pending ∧ s.hasReply r = false
    · rw [if_pos hr, hre.unreplied r hr.1 (hreplied ▸ hr.2), h.reqs]
    · rw [if_neg hr, hre.kept r, h.reqs]
      rw [hreplied]
      by_cases hmem : r ∈ s.pending
      · exact .inr (Bool.eq_true_of_not_eq_false fun hno => hr ⟨hmem, hno⟩)
      · exact .inl hmem
  · rw [hre.currentTxReq, hreplied]
    rfl

end Represents

end V4v.Xenutil
