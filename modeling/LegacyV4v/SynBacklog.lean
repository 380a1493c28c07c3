import LegacyV4v.ListenerReads
import LegacyV4v.PointerChain
import Mathlib.Data.List.Perm.Subperm

/-! # The SYNs that wait at a listener on Windows

`V4vCtrlListen` allocates a slot for every SYN that may wait.  `V4vProcessPreAcceptReads` takes the
first slot that is free, wherever it is, and appends it to a list that is threaded through the slots
in the order of arrival; `V4vDoAccepts` takes from the front of the list and clears the slot.  Both
hold `synLock`, so what can be interleaved are an admission and single rounds of `V4vDoAccepts`,
with accept IRPs coming and going in between.

Slots are named by their index.  A failed `ASSERT` is `none`. -/
namespace V4v.Windows
open GuardedRun PointerChain

/-- `V4V_SOMAXCONN`. -/
def somaxconn : Nat := 128

/-- `XENV4V_SYN`. -/
structure Syn where
  next : Option Nat
  last : Option Nat
  pending : Bool
  sdst : Addr
  connId : UInt64
  deriving DecidableEq

/-- What `RtlZeroMemory` makes of a slot. -/
def Syn.zero : Syn := ⟨none, none, false, ⟨0, 0⟩, 0⟩

/-- What a listener has in its context. -/
structure SynList where
  backlog : Nat
  synList : Nat → Syn
  synHead : Option Nat
  synTail : Option Nat
  synCount : Int

/-- How `V4vCtrlListen` fails. -/
inductive ListenError where
  | invalidDeviceRequest
  | invalidParameter
  | noMemory
  deriving DecidableEq, Repr

/-- `V4vCtrlListen`; `pool` says whether there is memory for the slots. -/
def ctrlListen (state : FileState) (backlog : UInt32) (pool : Bool) : Except ListenError SynList :=
  if state ≠ .bound then .error .invalidDeviceRequest
  else if somaxconn < backlog.toNat then .error .invalidParameter
  else if pool = false then .error .noMemory
  else .ok ⟨if backlog = 0 then somaxconn else backlog.toNat, fun _ => .zero, none, none, 0⟩

/-- What an accept IRP was given, and how it was completed. -/
structure Accepted where
  irp : Nat
  peer : Addr
  connId : UInt64
  status : NtStatus
  deriving DecidableEq

/-- A listener with the accept IRPs in the queue, oldest first, and whether its event is set.
`admitted`, `refused` and `accepted` say what has happened so far. -/
structure SynListener where
  ctx : SynList
  queue : List Nat
  event : Bool
  admitted : List (Addr × UInt64)
  refused : List SentReset
  accepted : List Accepted

namespace SynList

/-- The slot behind a slot. -/
def next (c : SynList) (i : Nat) : Option Nat := (c.synList i).next

/-- Write to a slot. -/
def setSyn (c : SynList) (i : Nat) (x : Syn) : SynList :=
  { c with synList := Function.update c.synList i x }

/-- The loop that looks for a free slot. -/
def freeSlot (c : SynList) : Option Nat :=
  (List.range c.backlog).find? fun i => !(c.synList i).pending

/-- A SYN is put into a slot and chained in. -/
def append (c : SynList) (i : Nat) (src : Addr) (connId : UInt64) : SynList :=
  let c := c.setSyn i ⟨none, none, true, src, connId⟩
  match c.synTail with
  | some tail =>
    let c := c.setSyn tail { c.synList tail with next := some i }
    let c := c.setSyn i { c.synList i with last := some tail }
    { c with synTail := some i, synCount := c.synCount + 1 }
  | none => { c with synHead := some i, synTail := some i, synCount := c.synCount + 1 }

/-- The SYN at the head of the list is taken out of it. -/
def pop (c : SynList) (head tail : Nat) : SynList :=
  let c :=
    if head ≠ tail then { c with synHead := c.next head }
    else { c with synHead := none, synTail := none }
  { c with synCount := c.synCount - 1 }

end SynList

namespace SynListener

/-- `V4vProcessPreAcceptReads`, as far as it holds the lock; the result says whether a RST is sent. -/
def preAccept (s : SynListener) (src : Addr) (conid : UInt32) : Option (Bool × SynListener) :=
  let c := s.ctx
  if ¬ (0 ≤ c.synCount ∧ c.synCount ≤ c.backlog) then none
  else if c.synCount = c.backlog then
    some (true, { s with refused := s.refused ++ [⟨conid, src⟩] })
  else
    match c.freeSlot with
    | none => none
    | some i =>
      some (false, { s with
        ctx := c.append i src conid.toUInt64
        admitted := s.admitted ++ [(src, conid.toUInt64)] })

/-- One round of `V4vDoAccepts`; the result says whether there is another one.  `ack` says for each
accept IRP whether there is memory for the ACK. -/
def acceptRound (s : SynListener) (ack : Nat → Bool) : Option (Bool × SynListener) :=
  let c := s.ctx
  if c.synCount = 0 then some (false, { s with event := false })
  else
    match s.queue with
    | [] => some (false, { s with event := true })
    | irp :: queue =>
      match c.synHead, c.synTail with
      | some head, some tail =>
        let sptr := c.synList head
        let c := c.pop head tail
        if c.synCount < 0 then none
        else
          some (true, { s with
            ctx := c.setSyn head .zero
            queue := queue
            accepted := s.accepted ++
              [⟨irp, sptr.sdst, sptr.connId, if ack irp then .success else .noMemory⟩] })
      | _, _ => none

theorem acceptRound_queue {s s' : SynListener} {ack : Nat → Bool}
    (h : s.acceptRound ack = some (true, s')) : s'.queue.length < s.queue.length := by
  rw [acceptRound] at h
  dsimp only at h
  split at h
  · cases h
  split at h
  · cases h
  · next irp queue hqueue =>
    split at h
    · split at h
      · cases h
      · cases h
        rw [hqueue]
        exact Nat.lt_succ_self _
    · cases h

/-- `V4vDoAccepts`. -/
def doAccepts (s : SynListener) (ack : Nat → Bool) : Option SynListener :=
  match h : s.acceptRound ack with
  | none => none
  | some (false, s') => some s'
  | some (true, s') =>
    have := acceptRound_queue h
    doAccepts s' ack
termination_by s.queue.length

/-- `V4vProcessPreAcceptReads`. -/
def processPreAcceptReads (s : SynListener) (src : Addr) (conid : UInt32) (ack : Nat → Bool) :
    Option (Bool × SynListener) :=
  match s.preAccept src conid with
  | none => none
  | some (true, s') => some (true, s')
  | some (false, s') => (s'.doAccepts ack).map fun s'' => (false, s'')

end SynListener

/-- A SYN arrives, a round of `V4vDoAccepts` is made, an accept IRP is queued, or is taken out of the
queue because it is cancelled. -/
inductive SynAct where
  | syn (src : Addr) (conid : UInt32)
  | round (ack : Nat → Bool)
  | request (irp : Nat)
  | cancel (irp : Nat)

namespace SynListener

/-- One step. -/
inductive Step (s : SynListener) : SynAct → SynListener → Prop
  | syn {src : Addr} {conid : UInt32} {refused : Bool} {s' : SynListener} :
      s.preAccept src conid = some (refused, s') → Step s (.syn src conid) s'
  | round {ack : Nat → Bool} {again : Bool} {s' : SynListener} :
      s.acceptRound ack = some (again, s') → Step s (.round ack) s'
  | request {irp : Nat} : Step s (.request irp) { s with queue := s.queue ++ [irp] }
  | cancel {irp : Nat} : Step s (.cancel irp) { s with queue := s.queue.erase irp }

/-- A listener that has just been made, with whatever accept IRPs. -/
def Start (c : SynList) (s : SynListener) : Prop :=
  s.ctx = c ∧ s.admitted = [] ∧ s.refused = [] ∧ s.accepted = []

/-- The states that a new listener can come to. -/
abbrev Reached (c : SynList) : SynListener → Prop := Reachable (Start c) Step fun _ _ => True

end SynListener

/-! ## The list through the slots -/

/-- The list goes through the slots `l`, which are the ones that are taken. -/
structure SynList.Threaded (c : SynList) (l : List Nat) : Prop where
  chain : Chain c.next c.synHead l
  tail : c.synTail = l.getLast?
  nodup : l.Nodup
  pending : ∀ i, (c.synList i).pending = true ↔ i ∈ l
  bound : ∀ i ∈ l, i < c.backlog
  count : c.synCount = l.length

namespace SynList
variable {c : SynList} {l : List Nat} {i : Nat}

/-- The SYNs in the slots. -/
def contents (c : SynList) (l : List Nat) : List (Addr × UInt64) :=
  l.map fun i => ((c.synList i).sdst, (c.synList i).connId)

theorem next_setSyn (c : SynList) (i : Nat) (x : Syn) :
    (c.setSyn i x).next = Function.update c.next i x.next := by
  funext j
  by_cases hji : j = i
  · subst hji
    simp only [next, setSyn, Function.update_self]
  · simp only [next, setSyn, Function.update_of_ne hji]

/-- There is no room for a longer list. -/
theorem Threaded.length_le (h : c.Threaded l) : l.length ≤ c.backlog := by
  have hsub : l ⊆ List.range c.backlog := fun i hi => List.mem_range.mpr (h.bound i hi)
  have hle := (h.nodup.subperm hsub).length_le
  rwa [List.length_range] at hle

/-- `synCount` counts the slots that are taken. -/
theorem Threaded.countP (h : c.Threaded l) :
    (List.range c.backlog).countP (fun i => (c.synList i).pending) = l.length := by
  rw [List.countP_eq_length_filter]
  refine ((List.perm_ext_iff_of_nodup (List.nodup_range.filter _) h.nodup).mpr fun i => ?_).length_eq
  rw [List.mem_filter, h.pending, List.mem_range]
  exact ⟨fun hi => hi.2, fun hi => ⟨h.bound i hi, hi⟩⟩

/-- If the list can be longer, there is a free slot. -/
theorem Threaded.freeSlot (h : c.Threaded l) (hroom : l.length ≠ c.backlog) :
    ∃ i, c.freeSlot = some i ∧ i < c.backlog ∧ i ∉ l := by
  cases hfind : c.freeSlot with
  | some i =>
    have hfree := List.find?_some hfind
    rw [Bool.not_eq_true'] at hfree
    refine ⟨i, rfl, List.mem_range.mp (List.mem_of_find?_eq_some hfind), fun hi => ?_⟩
    rw [(h.pending i).mpr hi] at hfree
    cases hfree
  | none =>
    exfalso
    have hall := List.find?_eq_none.mp hfind
    have hsub : List.range c.backlog ⊆ l := by
      intro i hi
      refine (h.pending i).mp ?_
      simpa using hall i hi
    have hle := (List.nodup_range.subperm hsub).length_le
    rw [List.length_range] at hle
    exact hroom (Nat.le_antisymm h.length_le hle)

theorem threaded_nil {n : Nat} : Threaded ⟨n, fun _ => .zero, none, none, 0⟩ [] :=
  ⟨rfl, rfl, List.nodup_nil, fun _ => ⟨(nomatch ·), (nomatch ·)⟩, fun _ hi => (nomatch hi), rfl⟩

/-- What is written when there is a last SYN already. -/
theorem append_some {tail : Nat} {src : Addr} {connId : UInt64} (htail : c.synTail = some tail)
    (hne : tail ≠ i) : c.append i src connId = { c with
      synList := Function.update (Function.update c.synList tail
        { c.synList tail with next := some i }) i ⟨none, some tail, true, src, connId⟩
      synTail := some i
      synCount := c.synCount + 1 } := by
  rw [append]
  dsimp only [setSyn]
  rw [htail]
  dsimp only
  congr 1
  funext j
  by_cases hji : j = i
  · subst hji
    rw [Function.update_self, Function.update_self, Function.update_of_ne hne.symm,
      Function.update_self]
  · rw [Function.update_of_ne hji, Function.update_of_ne hji]
    by_cases hjt : j = tail
    · subst hjt
      rw [Function.update_self, Function.update_self, Function.update_of_ne hji]
    · rw [Function.update_of_ne hjt, Function.update_of_ne hjt, Function.update_of_ne hji]

/-- **A SYN is chained in** behind the others. -/
theorem Threaded.append (h : c.Threaded l) (hi : i < c.backlog) (hfree : i ∉ l) (src : Addr)
    (connId : UInt64) : (c.append i src connId).Threaded (l ++ [i]) ∧
      (c.append i src connId).contents (l ++ [i]) = c.contents l ++ [(src, connId)] ∧
        (c.append i src connId).backlog = c.backlog := by
  have hcongr : ∀ j ∈ l, j ≠ i := by
    rintro j hj rfl
    exact hfree hj
  have hnodup : (l ++ [i]).Nodup :=
    List.nodup_append.mpr ⟨h.nodup, List.pairwise_singleton _ i, fun a ha b hb => by
      rw [List.mem_singleton.mp hb]
      exact hcongr a ha⟩
  have hbound : ∀ j ∈ l ++ [i], j < c.backlog := by
    intro j hj
    rcases List.mem_append.mp hj with hj | hj
    · exact h.bound j hj
    · rw [List.mem_singleton.mp hj]
      exact hi
  have hcount : c.synCount + 1 = ((l ++ [i]).length : Int) := by
    rw [h.count, List.length_append, List.length_singleton]
    push_cast
    rfl
  rcases List.eq_nil_or_concat' l with rfl | ⟨k, t, rfl⟩
  · -- it is the only one
    have htail : c.synTail = none := h.tail
    rw [SynList.append]
    dsimp only
    rw [show (c.setSyn i ⟨none, none, true, src, connId⟩).synTail = none from htail]
    refine ⟨⟨⟨rfl, ?_⟩, rfl, hnodup, fun j => ?_, hbound, hcount⟩, ?_, rfl⟩
    · rw [chain_nil]
      show (c.setSyn i _).next i = none
      rw [next_setSyn, Function.update_self]
    · by_cases hji : j = i
      · subst hji
        simp [setSyn]
      · have hnot := (h.pending j).not.mpr List.not_mem_nil
        simp [setSyn, hji, hnot]
    · simp [contents, setSyn]
  · -- it goes behind the last
    have htail : c.synTail = some t := by
      rw [h.tail, List.getLast?_concat]
    have hti : t ≠ i := hcongr t (by simp)
    rw [append_some htail hti]
    have hslot : ∀ j, j ≠ i → (Function.update (Function.update c.synList t
        { c.synList t with next := some i }) i ⟨none, some t, true, src, connId⟩ j) =
        { c.synList j with next := if j = t then some i else c.next j } := by
      intro j hji
      rw [Function.update_of_ne hji]
      by_cases hjt : j = t
      · subst hjt
        rw [Function.update_self, if_pos rfl]
      · rw [Function.update_of_ne hjt, if_neg hjt]
        rfl
    have hown : (Function.update (Function.update c.synList t
        { c.synList t with next := some i }) i ⟨none, some t, true, src, connId⟩ i) =
        ⟨none, some t, true, src, connId⟩ := Function.update_self ..
    generalize Function.update (Function.update c.synList t _) i _ = f at hslot hown ⊢
    refine ⟨⟨?_, ?_, hnodup, fun j => ?_, hbound, hcount⟩, ?_, rfl⟩
    · have hfirst : Chain (Function.update c.next i none) c.synHead (k ++ [t]) :=
        h.chain.congr fun j hj => Function.update_of_ne (hcongr j hj) _ _
      have hlast := hfirst.append h.nodup hfree (Function.update_self ..)
      rw [List.append_assoc]
      refine hlast.congr fun j _ => ?_
      rw [next]
      dsimp only
      by_cases hji : j = i
      · subst hji
        rw [Function.update_of_ne hti.symm, Function.update_self, hown]
      · rw [hslot j hji]
        dsimp only
        by_cases hjt : j = t
        · subst hjt
          rw [Function.update_self, if_pos rfl]
        · rw [Function.update_of_ne hjt, Function.update_of_ne hji, if_neg hjt]
    · exact List.getLast?_concat.symm
    · dsimp only
      by_cases hji : j = i
      · subst hji
        rw [hown]
        simp
      · rw [hslot j hji, List.mem_append, List.mem_singleton, or_iff_left hji]
        exact h.pending j
    · rw [contents, List.map_append, List.map_singleton]
      dsimp only
      rw [hown]
      refine congrArg (· ++ _) (List.map_congr_left fun j hj => ?_)
      rw [hslot j (hcongr j hj)]

/-- **The oldest SYN is taken out**, and its slot is cleared. -/
theorem Threaded.pop {head : Nat} (h : c.Threaded (head :: l)) :
    ∃ tail, c.synHead = some head ∧ c.synTail = some tail ∧ ¬ (c.pop head tail).synCount < 0 ∧
      ((c.pop head tail).setSyn head .zero).Threaded l ∧
        ((c.pop head tail).setSyn head .zero).contents l = c.contents l ∧
          ((c.pop head tail).setSyn head .zero).backlog = c.backlog := by
  obtain ⟨hhead, hrest⟩ := h.chain
  obtain ⟨hnot, hnodup⟩ := List.nodup_cons.mp h.nodup
  have hne : ∀ j ∈ l, j ≠ head := by
    rintro j hj rfl
    exact hnot hj
  have hcount : c.synCount - 1 = (l.length : Int) := by
    rw [h.count, List.length_cons]
    push_cast
    omega
  -- what the two branches have in common
  have hrest' : ∀ d : SynList, d.backlog = c.backlog → d.synList = c.synList →
      d.synHead = c.next head → d.synTail = l.getLast? → d.synCount = c.synCount - 1 →
      (d.setSyn head .zero).Threaded l := by
    intro d hbacklog hlist hdhead hdtail hdcount
    refine ⟨?_, hdtail, hnodup, fun j => ?_, fun j hj => ?_, hdcount.trans hcount⟩
    · rw [next_setSyn, show (d.setSyn head .zero).synHead = c.next head from hdhead,
        show d.next = c.next from funext fun j => congrArg (fun f => (f j).next) hlist]
      exact hrest.congr fun j hj => Function.update_of_ne (hne j hj) _ _
    · rw [setSyn, hlist]
      dsimp only
      by_cases hj : j = head
      · subst hj
        rw [Function.update_self]
        exact ⟨(nomatch ·), fun hmem => absurd hmem hnot⟩
      · rw [Function.update_of_ne hj, h.pending, List.mem_cons, or_iff_right hj]
    · rw [show (d.setSyn head .zero).backlog = c.backlog from hbacklog]
      exact h.bound j (List.mem_cons_of_mem head hj)
  have hcontents : ∀ d : SynList, d.synList = c.synList →
      (d.setSyn head .zero).contents l = c.contents l := by
    intro d hlist
    refine List.map_congr_left fun j hj => ?_
    rw [setSyn, hlist]
    dsimp only
    rw [Function.update_of_ne (hne j hj)]
  have hlen : ¬ c.synCount - 1 < 0 := by
    rw [hcount]
    omega
  cases l with
  | nil =>
    have hpop : c.pop head head = { c with
        synHead := none, synTail := none, synCount := c.synCount - 1 } := by
      rw [SynList.pop, if_neg (fun hx => hx rfl)]
    rw [chain_nil] at hrest
    exact ⟨head, hhead, h.tail, by rw [hpop]; exact hlen,
      hrest' _ (by rw [hpop]) (by rw [hpop]) (by rw [hpop, hrest]) (by rw [hpop]; rfl) (by rw [hpop]),
      hcontents _ (by rw [hpop]), by rw [hpop]; rfl⟩
  | cons b k =>
    obtain ⟨tail, htail⟩ : ∃ tail, (b :: k).getLast? = some tail :=
      ⟨_, List.getLast?_eq_some_getLast (List.cons_ne_nil b k)⟩
    have hlast : c.synTail = some tail := by
      rw [h.tail, List.getLast?_cons_cons, htail]
    have hpop : c.pop head tail = { c with
        synHead := c.next head, synCount := c.synCount - 1 } := by
      rw [SynList.pop, if_pos (hne tail (List.mem_of_getLast? htail)).symm]
    exact ⟨tail, hhead, hlast, by rw [hpop]; exact hlen,
      hrest' _ (by rw [hpop]) (by rw [hpop]) (by rw [hpop]) (by rw [hpop, hlast, htail])
        (by rw [hpop]), hcontents _ (by rw [hpop]), by rw [hpop]; rfl⟩

end SynList

/-! ## Runs -/

namespace SynListener
variable {s s' : SynListener} {c : SynList} {l : List Nat} {ack : Nat → Bool}

/-- What the listener has handed out, and what waits, is what was admitted. -/
structure Orderly (n : Nat) (s : SynListener) (l : List Nat) : Prop where
  threaded : s.ctx.Threaded l
  backlog : s.ctx.backlog = n
  order : s.admitted = s.accepted.map (fun a => (a.peer, a.connId)) ++ s.ctx.contents l

theorem Orderly.count_bound {n : Nat} (h : s.Orderly n l) :
    0 ≤ s.ctx.synCount ∧ s.ctx.synCount ≤ s.ctx.backlog := by
  have hle := h.threaded.length_le
  rw [h.threaded.count]
  omega

/-- An arriving SYN: it is refused if as many are waiting as may. -/
theorem Orderly.preAccept {n : Nat} (h : s.Orderly n l) (src : Addr) (conid : UInt32) :
    ∃ refused s' l', s.preAccept src conid = some (refused, s') ∧ s'.Orderly n l' ∧
      (refused = true ↔ s.ctx.synCount = s.ctx.backlog) := by
  have hcount := h.threaded.count
  rw [SynListener.preAccept, if_neg (not_not_intro h.count_bound)]
  by_cases hfull : s.ctx.synCount = s.ctx.backlog
  · rw [if_pos hfull]
    exact ⟨true, _, l, rfl, ⟨h.threaded, h.backlog, h.order⟩, iff_of_true rfl hfull⟩
  · rw [if_neg hfull]
    have hroom : l.length ≠ s.ctx.backlog := by
      intro hlen
      rw [hcount, hlen] at hfull
      exact hfull rfl
    obtain ⟨i, hfree, hi, hil⟩ := h.threaded.freeSlot hroom
    obtain ⟨hthreaded, hcontents, hbacklog⟩ := h.threaded.append hi hil src conid.toUInt64
    rw [hfree]
    refine ⟨false, _, l ++ [i], rfl, ⟨hthreaded, hbacklog.trans h.backlog, ?_⟩,
      iff_of_false Bool.false_ne_true hfull⟩
    dsimp only
    rw [hcontents, h.order, List.append_assoc]

/-- A round of `V4vDoAccepts`. -/
theorem Orderly.acceptRound {n : Nat} (h : s.Orderly n l) (ack : Nat → Bool) :
    ∃ again s' l', s.acceptRound ack = some (again, s') ∧ s'.Orderly n l' := by
  rw [SynListener.acceptRound]
  dsimp only
  by_cases hzero : s.ctx.synCount = 0
  · rw [if_pos hzero]
    exact ⟨false, _, l, rfl, h.threaded, h.backlog, h.order⟩
  rw [if_neg hzero]
  cases s.queue with
  | nil => exact ⟨false, _, l, rfl, h.threaded, h.backlog, h.order⟩
  | cons irp queue =>
    cases l with
    | nil => exact absurd h.threaded.count hzero
    | cons head l =>
      obtain ⟨tail, hhead, htail, hpos, hthreaded, hcontents, hbacklog⟩ := h.threaded.pop
      dsimp only
      rw [hhead, htail]
      dsimp only
      rw [if_neg hpos]
      refine ⟨true, _, l, rfl, hthreaded, hbacklog.trans h.backlog, ?_⟩
      dsimp only
      rw [hcontents, h.order, List.map_append, List.append_assoc]
      rfl

theorem Orderly.step {n : Nat} {a : SynAct} (h : s.Orderly n l) (hs : s.Step a s') :
    ∃ l', s'.Orderly n l' := by
  cases hs with
  | @syn src conid refused s' heq =>
    obtain ⟨refused', s'', l', heq', h', -⟩ := h.preAccept src conid
    obtain ⟨-, rfl⟩ := Prod.mk.inj (Option.some.inj (heq.symm.trans heq'))
    exact ⟨l', h'⟩
  | @round ack again s' heq =>
    obtain ⟨again', s'', l', heq', h'⟩ := h.acceptRound ack
    obtain ⟨-, rfl⟩ := Prod.mk.inj (Option.some.inj (heq.symm.trans heq'))
    exact ⟨l', h'⟩
  | request => exact ⟨l, h.threaded, h.backlog, h.order⟩
  | cancel => exact ⟨l, h.threaded, h.backlog, h.order⟩

/-- A pass of `V4vDoAccepts` is a number of rounds, the last of which has found no SYN, or no accept
IRP. -/
theorem doAccepts_spec {n : Nat} (h : s.Orderly n l) (hs : Reached c s) (ack : Nat → Bool) :
    ∃ s', s.doAccepts ack = some s' ∧ Reached c s' ∧ (s'.ctx.synCount = 0 ∨ s'.queue = []) := by
  induction hq : s.queue.length using Nat.strong_induction_on generalizing s l with
  | _ k ih =>
  obtain ⟨again, s', l', heq, h'⟩ := h.acceptRound ack
  have hs' : Reached c s' := hs.next trivial (.round heq)
  have hdef := doAccepts.eq_def s ack
  split at hdef
  · next hnone =>
    rw [hnone] at heq
    cases heq
  · next t hlast =>
    rw [hlast] at heq
    obtain ⟨rfl, rfl⟩ := Prod.mk.inj (Option.some.inj heq)
    refine ⟨t, hdef, hs', ?_⟩
    rw [SynListener.acceptRound] at hlast
    dsimp only at hlast
    by_cases hzero : s.ctx.synCount = 0
    · rw [if_pos hzero] at hlast
      cases hlast
      exact .inl hzero
    · rw [if_neg hzero] at hlast
      cases hqueue : s.queue with
      | nil =>
        rw [hqueue] at hlast
        cases hlast
        exact .inr rfl
      | cons irp queue =>
        rw [hqueue] at hlast
        dsimp only at hlast
        split at hlast
        · split at hlast <;> cases hlast
        · cases hlast
  · next t hmore =>
    rw [hmore] at heq
    obtain ⟨rfl, rfl⟩ := Prod.mk.inj (Option.some.inj heq)
    obtain ⟨s'', hdo, hrest⟩ := ih _ (hq ▸ acceptRound_queue hmore) h' hs' rfl
    exact ⟨s'', hdef.trans hdo, hrest⟩

/-- **The backlog is a bounded queue.**  `synCount` counts the slots that are taken and the list
through them, and lies between 0 and the backlog; a SYN is refused exactly at the backlog; no
`ASSERT` fails; and what the accept IRPs have got, followed by what is in the list, is what was
admitted, in the order of arrival. -/
structure Fifo (s : SynListener) : Prop where
  list : ∃ l, Chain s.ctx.next s.ctx.synHead l ∧ s.ctx.synTail = l.getLast? ∧
    s.ctx.synCount = l.length ∧ (∀ i, (s.ctx.synList i).pending = true ↔ i ∈ l) ∧
      s.admitted = s.accepted.map (fun a => (a.peer, a.connId)) ++ s.ctx.contents l
  slots : s.ctx.synCount = (List.range s.ctx.backlog).countP fun i => (s.ctx.synList i).pending
  bound : 0 ≤ s.ctx.synCount ∧ s.ctx.synCount ≤ s.ctx.backlog
  refuse : ∀ src conid, ∃ refused s', s.preAccept src conid = some (refused, s') ∧
    (refused = true ↔ s.ctx.synCount = s.ctx.backlog)
  accept : ∀ ack, ∃ s', s.doAccepts ack = some s' ∧ (s'.ctx.synCount = 0 ∨ s'.queue = [])

theorem fifo_of_listen {state : FileState} {backlog : UInt32} {pool : Bool}
    (hlisten : ctrlListen state backlog pool = .ok c) (h : Reached c s) :
    s.Fifo ∧ s.ctx.backlog = if backlog = 0 then somaxconn else backlog.toNat := by
  rw [ctrlListen] at hlisten
  obtain rfl : (⟨if backlog = 0 then somaxconn else backlog.toNat, fun _ => .zero, none, none, 0⟩ :
      SynList) = c := by
    split at hlisten
    · cases hlisten
    split at hlisten
    · cases hlisten
    split at hlisten
    · cases hlisten
    · exact Except.ok.inj hlisten
  obtain ⟨l, hl⟩ : ∃ l, s.Orderly (if backlog = 0 then somaxconn else backlog.toNat) l := by
    refine h.invariant
      (P := fun s => ∃ l, s.Orderly (if backlog = 0 then somaxconn else backlog.toNat) l) ?_
      fun s a s' hp _ hs => ?_
    · rintro t ⟨hctx, hadmitted, -, haccepted⟩
      refine ⟨[], by rw [hctx]; exact SynList.threaded_nil, by rw [hctx], ?_⟩
      rw [hadmitted, haccepted]
      rfl
    · obtain ⟨l, hl⟩ := hp
      exact hl.step hs
  refine ⟨⟨⟨l, hl.threaded.chain, hl.threaded.tail, hl.threaded.count, hl.threaded.pending, hl.order⟩,
    ?_, hl.count_bound, fun src conid => ?_, fun ack => ?_⟩, hl.backlog⟩
  · rw [hl.threaded.countP, hl.threaded.count]
  · obtain ⟨refused, s', -, heq, -, hiff⟩ := hl.preAccept src conid
    exact ⟨refused, s', heq, hiff⟩
  · obtain ⟨s', heq, -, hend⟩ := doAccepts_spec hl h ack
    exact ⟨s', heq, hend⟩

/-- A listener for one SYN, with an accept IRP. -/
def oneSlot : SynListener := ⟨⟨1, fun _ => .zero, none, none, 0⟩, [4], false, [], [], []⟩

/-- It stays in order when a SYN is taken. -/
theorem fifo_of_listen_oneSlot :
    ∃ s, oneSlot.preAccept ⟨3, 7⟩ 9 = some (false, s) ∧ s.ctx.synCount = 1 ∧ s.Fifo := by
  refine ⟨_, rfl, rfl, (@fifo_of_listen _ oneSlot.ctx .bound 1 true rfl
    (.next (i := .syn ⟨3, 7⟩ 9) (.start ⟨rfl, rfl, rfl, rfl⟩) trivial
      (@Step.syn oneSlot ⟨3, 7⟩ 9 false _ rfl))).1⟩

end SynListener

end V4v.Windows
