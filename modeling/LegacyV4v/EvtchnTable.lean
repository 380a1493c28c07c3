import LegacyV4v.EventChannel
import LegacyV4v.PointerChain
import Mathlib.Data.List.Nodup

/-! # The table of event channel handlers

`evtchn.c` keeps each registered handler twice: under its port in `EventChannelHandlers`, where the
interrupt looks, and in a list that is linked both ways, which is gone through after a suspend to
register every handler with Xen again.  `EventChannelLock` makes registering and stopping atomic, and
after a suspend nothing else runs, so that an operation is one step here; what the interrupt and a
DPC may do while a port is stopped is the subject of `EventStop`.

What Xen answers to a hypercall is any function of the hypercalls so far. -/
namespace V4v.Xenutil
open PointerChain GuardedRun

/-- What a handler is bound to: its class, with the part of the union that goes with it. -/
inductive PortBinding where
  | interdomain (dom : UInt16)
  | interdomainDpc (dom : UInt16)
  | fixed
  | virq (virq : Int)
  | alien (dom : UInt16) (alienPort : UInt32)
  deriving DecidableEq

/-- The hypercalls on event channels, with what they are given. -/
inductive EventChannelOp where
  | allocUnbound (remoteDom : UInt16)
  | bindInterdomain (remoteDom : UInt16) (remotePort : UInt32)
  | bindVirq (virq : Int)
  | close (port : Int)
  deriving DecidableEq

/-- What `reconstruct_handler` asks Xen for; a fixed port is there already. -/
def PortBinding.request : PortBinding → Option EventChannelOp
  | .interdomain dom | .interdomainDpc dom => some (.allocUnbound dom)
  | .alien dom port => some (.bindInterdomain dom port)
  | .virq v => some (.bindVirq v)
  | .fixed => none

/-- `struct evtchn_port_handler` without its links; `handler` says that it is not `NULL`. -/
structure TableHandler where
  binding : PortBinding
  xenPort : Int
  handler : Bool

/-- Why the operations may not return. -/
inductive TableCrash where
  /-- an assertion that a port is in the table's range -/
  | portRange
  /-- Xen gave a port that has a handler -/
  | portTaken
  /-- more rounds of a loop over the list than the table has entries -/
  | listCorrupt
  /-- a place outside the table -/
  | tableRange
  /-- a handler that is not allocated -/
  | notAllocated
  deriving DecidableEq

/-- The static variables, the handlers, their bits in the mask, and the hypercalls so far, newest
first. -/
structure EvtchnTable where
  node : Nat → Option TableHandler
  next : Nat → Option Nat
  prev : Nat → Option Nat
  handlers : Nat → Option Nat
  head : Option Nat
  masked : Nat → Bool
  started : Bool
  ops : List EventChannelOp

namespace EvtchnTable
variable (xen : List EventChannelOp → Option Int)

/-! ## The operations -/

/-- A handler is looked at. -/
def look (s : EvtchnTable) (p : Nat) : Except TableCrash TableHandler :=
  match s.node p with
  | some n => .ok n
  | none => .error .notAllocated

/-- `if (t) t->prev = q;` -/
def setPrev (s : EvtchnTable) (t q : Option Nat) : Except TableCrash EvtchnTable :=
  match t with
  | none => .ok s
  | some t => do
    let _ ← s.look t
    .ok { s with prev := link s.prev (some t) q }

/-- `if (t) t->next = q; else HeadEvtchnHandler = q;` -/
def setNext (s : EvtchnTable) (t q : Option Nat) : Except TableCrash EvtchnTable :=
  match t with
  | none => .ok { s with head := q }
  | some t => do
    let _ ← s.look t
    .ok { s with next := link s.next (some t) q }

/-- `EventChannelHandlers[k]` -/
def slot (s : EvtchnTable) (k : Nat) : Except TableCrash (Option Nat) :=
  if k < maxEvtchn then .ok (s.handlers k) else .error .tableRange

def setPort (s : EvtchnTable) (p : Nat) (n : TableHandler) (port : Int) : EvtchnTable :=
  { s with node := Function.update s.node p (some { n with xenPort := port }) }

/-- `HYPERVISOR_event_channel_op` -/
def hypercall (s : EvtchnTable) (op : EventChannelOp) : Option Int × EvtchnTable :=
  (xen (op :: s.ops), { s with ops := op :: s.ops })

def registerHandler (s : EvtchnTable) (p : Nat) : Except TableCrash (Bool × EvtchnTable) := do
  let port ← s.look p
  if 0 ≤ port.xenPort ∧ port.xenPort < maxEvtchn then
    let k := port.xenPort.toNat
    if (← s.slot k).isSome then .ok (false, s)
    else
      let s := { s with
        handlers := Function.update s.handlers k (some p)
        next := Function.update s.next p s.head
        prev := Function.update s.prev p none }
      let s ← s.setPrev s.head (some p)
      .ok (true, { s with head := some p, masked := Function.update s.masked k false })
  else .error .portRange

def reconstructHandler (s : EvtchnTable) (p : Nat) : Except TableCrash (Bool × EvtchnTable) := do
  let port ← s.look p
  match port.binding.request with
  | some op =>
    match s.hypercall xen op with
    | (none, s) => .ok (false, s)
    | (some k, s) =>
      match ← (s.setPort p port k).registerHandler p with
      | (true, s) => .ok (true, s)
      | (false, _) => .error .portTaken
  | none =>
    -- a second handler of a fixed port is only worth a warning
    let (_, s) ← s.registerHandler p
    .ok (true, s)

/-- `allocate_handler`, at `p`, and the fields that are set behind it. -/
def allocateHandler (s : EvtchnTable) (p : Nat) (binding : PortBinding) (xenPort : Int) :
    EvtchnTable :=
  { s with
    node := Function.update s.node p (some ⟨binding, xenPort, true⟩)
    next := Function.update s.next p none
    prev := Function.update s.prev p none }

/-- A handler is allocated, at `mem`, and registered. -/
def construct (s : EvtchnTable) (mem : Option Nat) (binding : PortBinding) (xenPort : Int) :
    Except TableCrash (Option Nat × EvtchnTable) :=
  match mem with
  | none => .ok (none, s)
  | some p => do
    match ← (s.allocateHandler p binding xenPort).reconstructHandler xen p with
    | (true, s) => .ok (some p, s)
    | (false, s) => .ok (none, { s with node := Function.update s.node p none })

def evtchnRegisterHandler (s : EvtchnTable) (mem : Option Nat) (xenPort : Int) :=
  s.construct xen mem .fixed xenPort

def evtchnBindVirq (s : EvtchnTable) (mem : Option Nat) (virq : Int) :=
  s.construct xen mem (.virq virq) 0

def evtchnAllocUnboundDpc (s : EvtchnTable) (mem : Option Nat) (domid : UInt16) :=
  s.construct xen mem (.interdomainDpc domid) 0

def evtchnConnectRemotePort (s : EvtchnTable) (mem : Option Nat) (domid : UInt16)
    (aport : UInt32) :=
  s.construct xen mem (.alien domid aport) 0

def evtchnAllocUnbound (s : EvtchnTable) (mem : Option Nat) (domid : UInt16) :=
  s.construct xen mem (.interdomain domid) 0

/-- A registered handler is taken out. -/
def unhook (s : EvtchnTable) (p : Nat) (k : Nat) : Except TableCrash EvtchnTable := do
  let (_, s) := s.hypercall xen (.close k)
  let s ← s.setPrev (s.next p) (s.prev p)
  let s ← s.setNext (s.prev p) (s.next p)
  .ok { s with handlers := Function.update s.handlers k none }

/-- The part of `EvtchnPortStop` that is under the lock. -/
def unregister (s : EvtchnTable) (p : Nat) (port : TableHandler) : Except TableCrash EvtchnTable :=
  if 0 ≤ port.xenPort then do
    if (← s.slot port.xenPort.toNat) = some p then s.unhook xen p port.xenPort.toNat else .ok s
  else .ok s

def evtchnPortStop (s : EvtchnTable) (p : Nat) : Except TableCrash EvtchnTable := do
  let port ← s.look p
  let s ← s.unregister xen p port
  .ok { s with node := Function.update s.node p (some { port with xenPort := -1, handler := false }) }

def evtchnClose (s : EvtchnTable) (p : Nat) : Except TableCrash EvtchnTable := do
  let s ← s.evtchnPortStop xen p
  let _ ← s.look p
  .ok { s with node := Function.update s.node p none }

/-- The loop of `EvtchnRecoverFromSuspend`, with the number of rounds that are left before the list is
taken to be corrupt. -/
def recoverLoop (s : EvtchnTable) : Nat → Option Nat → Except TableCrash EvtchnTable
  | _, none => .ok s
  | left, some h => do
    let _ ← s.look h
    let n := s.next h
    let (_, s) ← s.reconstructHandler xen h
    match left with
    | 0 => .error .listCorrupt
    | left + 1 => recoverLoop s left n

def evtchnRecoverFromSuspend (s : EvtchnTable) : Except TableCrash EvtchnTable :=
  recoverLoop xen { s with handlers := fun _ => none, head := none } maxEvtchn s.head

/-- The loop of `EvtchnStart` that forgets the handlers, with a number of rounds. -/
def forgetLoop (s : EvtchnTable) : Nat → Except TableCrash EvtchnTable
  | 0 => if s.head = none then .ok s else .error .listCorrupt
  | left + 1 =>
    match s.head with
    | none => .ok s
    | some p => do
      let port ← s.look p
      let n := s.next p
      forgetLoop { s.setPort p port (-1) with
        prev := Function.update s.prev p none
        next := Function.update s.next p none
        head := n } left

/-- `EvtchnStart`, not in austere mode, as far as the handlers go; `initHvm` says whether `InitHvm`
succeeds. -/
def evtchnStart (s : EvtchnTable) (initHvm : Bool) : Except TableCrash EvtchnTable :=
  if s.started then .ok s
  else do
    let s ← forgetLoop { s with handlers := fun _ => none } maxEvtchn
    .ok (if initHvm then { s with started := true } else s)

def evtchnStop (s : EvtchnTable) : EvtchnTable := { s with started := false }

/-! ## What others ask for -/

end EvtchnTable

/-- A call of one of the operations; `mem` is where `XmAllocateZeroedMemory` finds room. -/
inductive TableCall where
  | registerHandler (mem : Option Nat) (xenPort : Int)
  | bindVirq (mem : Option Nat) (virq : Int)
  | allocUnboundDpc (mem : Option Nat) (domid : UInt16)
  | connectRemotePort (mem : Option Nat) (domid : UInt16) (aport : UInt32)
  | allocUnbound (mem : Option Nat) (domid : UInt16)
  | portStop (p : Nat)
  | close (p : Nat)
  | recoverFromSuspend
  | start (initHvm : Bool)
  | stop

/-- New memory is not in use, and a port is stopped or closed by one who has it. -/
def TableCall.Proper (s : EvtchnTable) : TableCall → Prop
  | .registerHandler mem _ | .bindVirq mem _ | .allocUnboundDpc mem _ | .connectRemotePort mem _ _
  | .allocUnbound mem _ => ∀ p ∈ mem, s.node p = none
  | .portStop p | .close p => s.node p ≠ none
  | .recoverFromSuspend | .start _ | .stop => True

namespace EvtchnTable
variable (xen : List EventChannelOp → Option Int)

def call (s : EvtchnTable) : TableCall → Except TableCrash EvtchnTable
  | .registerHandler mem xenPort => (s.evtchnRegisterHandler xen mem xenPort).map Prod.snd
  | .bindVirq mem virq => (s.evtchnBindVirq xen mem virq).map Prod.snd
  | .allocUnboundDpc mem domid => (s.evtchnAllocUnboundDpc xen mem domid).map Prod.snd
  | .connectRemotePort mem domid aport => (s.evtchnConnectRemotePort xen mem domid aport).map Prod.snd
  | .allocUnbound mem domid => (s.evtchnAllocUnbound xen mem domid).map Prod.snd
  | .portStop p => s.evtchnPortStop xen p
  | .close p => s.evtchnClose xen p
  | .recoverFromSuspend => s.evtchnRecoverFromSuspend xen
  | .start initHvm => s.evtchnStart initHvm
  | .stop => .ok s.evtchnStop

/-- The driver has been loaded. -/
structure Fresh (s : EvtchnTable) : Prop where
  node : ∀ p, s.node p = none
  handlers : ∀ k, s.handlers k = none
  head : s.head = none

/-- The states that the calls can lead to. -/
abbrev Reached : EvtchnTable → Prop :=
  Reachable Fresh (fun s c s' => s.call xen c = .ok s') fun s c => c.Proper s

/-! ## The table and the list agree -/

/-- The list has what is in the table, and that is allocated and has its port. -/
structure Agrees (s : EvtchnTable) (l : List Nat) : Prop where
  linked : ∃ tail, Linked s.next s.prev s.head tail l
  registered : ∀ p, p ∈ l ↔ ∃ k, s.handlers k = some p
  handler : ∀ k p, s.handlers k = some p →
    k < maxEvtchn ∧ ∃ n, s.node p = some n ∧ n.xenPort = k ∧ n.handler = true

/-- Besides, the ports of all handlers are in the table's range, or −1. -/
structure Inv (s : EvtchnTable) (l : List Nat) : Prop extends Agrees s l where
  ports : ∀ p n, s.node p = some n → n.xenPort = -1 ∨ (0 ≤ n.xenPort ∧ n.xenPort < maxEvtchn)

/-- An operation returns with `Q`, unless Xen or a caller has given it a port it cannot use. -/
def Ends {α : Type} (Q : α → Prop) : Except TableCrash α → Prop
  | .ok a => Q a
  | .error e => e = .portRange ∨ e = .portTaken

variable {xen} {s s' : EvtchnTable} {l rest : List Nat} {p q k : Nat} {n : TableHandler}

theorem Ends.bind {α β : Type} {P : α → Prop} {Q : β → Prop} {x : Except TableCrash α}
    {f : α → Except TableCrash β} (hx : Ends P x) (hf : ∀ a, P a → Ends Q (f a)) :
    Ends Q (x >>= f) := by
  cases x with
  | ok a => exact hf a hx
  | error e => exact hx

theorem Ends.map {α β : Type} {Q : β → Prop} {x : Except TableCrash α} {f : α → β}
    (hx : Ends (fun a => Q (f a)) x) : Ends Q (x.map f) := by
  cases x with
  | ok a => exact hx
  | error e => exact hx

theorem Ends.mono {α : Type} {P Q : α → Prop} {x : Except TableCrash α} (hx : Ends P x)
    (himp : ∀ a, P a → Q a) : Ends Q x := by
  cases x with
  | ok a => exact himp a hx
  | error e => exact hx

theorem look_eq (hn : s.node p = some n) : s.look p = .ok n := by
  rw [look, hn]

theorem slot_eq (hk : k < maxEvtchn) : s.slot k = .ok (s.handlers k) := if_pos hk

theorem Agrees.live (h : s.Agrees l) (hp : p ∈ l) : ∃ n, s.node p = some n ∧ n.handler = true := by
  obtain ⟨k, hk⟩ := (h.registered p).mp hp
  obtain ⟨-, n, hn, -, hcb⟩ := h.handler k p hk
  exact ⟨n, hn, hcb⟩

theorem Agrees.nodup (h : s.Agrees l) : l.Nodup :=
  h.linked.choose_spec.nodup

/-- Each handler of the list has a place of its own. -/
theorem Agrees.length_le (h : s.Agrees l) : l.length ≤ maxEvtchn := by
  let place p := ((s.node p).map (·.xenPort.toNat)).getD 0
  have hplace : ∀ p ∈ l, s.handlers (place p) = some p := by
    intro p hp
    obtain ⟨k, hk⟩ := (h.registered p).mp hp
    obtain ⟨-, n, hn, hport, -⟩ := h.handler k p hk
    have hk' : place p = k := by
      dsimp only [place]
      rw [hn, Option.map_some, Option.getD_some, hport, Int.toNat_natCast]
    rw [hk', hk]
  have hnd : (l.map place).Nodup := by
    refine h.nodup.map_on fun a ha b hb heq => ?_
    have hab := (hplace a ha).symm.trans (heq ▸ hplace b hb)
    exact Option.some.inj hab
  have hsub : l.map place ⊆ List.range maxEvtchn := by
    intro k hk
    obtain ⟨a, ha, rfl⟩ := List.mem_map.mp hk
    exact List.mem_range.mpr (h.handler _ a (hplace a ha)).1
  have hle := (List.subperm_of_subset hnd hsub).length_le
  rwa [List.length_map, List.length_range] at hle

/-- What is not in the list may change, and so may the mask and the hypercalls. -/
theorem Agrees.congr (h : s.Agrees l) (hnext : ∀ p ∈ l, s'.next p = s.next p)
    (hprev : ∀ p ∈ l, s'.prev p = s.prev p) (hhead : s'.head = s.head)
    (hhandlers : s'.handlers = s.handlers) (hnode : ∀ p ∈ l, s'.node p = s.node p) :
    s'.Agrees l where
  linked := by
    obtain ⟨tail, hlinked⟩ := h.linked
    exact ⟨tail, hhead ▸ hlinked.congr hnext hprev⟩
  registered := hhandlers ▸ h.registered
  handler k p hk := by
    rw [hhandlers] at hk
    rw [hnode p ((h.registered p).mpr ⟨k, hk⟩)]
    exact h.handler k p hk

theorem Agrees.nil (hhead : s.head = none) (hhandlers : ∀ k, s.handlers k = none) : s.Agrees [] where
  linked := ⟨none, by rw [hhead]; exact Linked.empty⟩
  registered p := by
    refine ⟨fun hp => absurd hp List.not_mem_nil, ?_⟩
    rintro ⟨k, hk⟩
    rw [hhandlers] at hk
    cases hk
  handler k p hk := by
    rw [hhandlers] at hk
    cases hk

/-! ## Registering -/

/-- The state when `p` has been put in at `k`. -/
def hook (s : EvtchnTable) (p k : Nat) : EvtchnTable :=
  { s with
    handlers := Function.update s.handlers k (some p)
    next := Function.update s.next p s.head
    prev := link (Function.update s.prev p none) s.head (some p)
    head := some p
    masked := Function.update s.masked k false }

theorem setPrev_eq {t r : Option Nat} (ht : ∀ q ∈ t, ∃ n, s.node q = some n) :
    s.setPrev t r = .ok { s with prev := link s.prev t r } := by
  cases t with
  | none => rfl
  | some q =>
    obtain ⟨n, hn⟩ := ht q rfl
    rw [setPrev, look_eq hn]
    rfl

theorem setNext_eq {t r : Option Nat} (ht : ∀ q ∈ t, ∃ n, s.node q = some n) :
    s.setNext t r =
      .ok { s with next := link s.next t r, head := if t = none then r else s.head } := by
  cases t with
  | none => rfl
  | some q =>
    obtain ⟨n, hn⟩ := ht q rfl
    rw [setNext, look_eq hn]
    rfl

theorem Agrees.mem_head (h : s.Agrees l) (hq : q ∈ s.head) : q ∈ l := by
  obtain ⟨tail, hlinked⟩ := h.linked
  rw [hlinked.head_eq] at hq
  exact List.mem_of_head? hq

/-- `register_handler`, when the table and the list agree. -/
theorem Agrees.registerHandler (h : s.Agrees l) (hn : s.node p = some n) :
    s.registerHandler p =
      if 0 ≤ n.xenPort ∧ n.xenPort < maxEvtchn then
        if (s.handlers n.xenPort.toNat).isSome then .ok (false, s)
        else .ok (true, s.hook p n.xenPort.toNat)
      else .error .portRange := by
  rw [EvtchnTable.registerHandler, look_eq hn]
  change (if 0 ≤ n.xenPort ∧ n.xenPort < maxEvtchn then _ else _) = _
  by_cases hrange : 0 ≤ n.xenPort ∧ n.xenPort < maxEvtchn
  · rw [if_pos hrange, if_pos hrange]
    have hk : n.xenPort.toNat < maxEvtchn := by omega
    rw [slot_eq hk]
    change (if (s.handlers n.xenPort.toNat).isSome then _ else _) = _
    by_cases hfree : (s.handlers n.xenPort.toNat).isSome
    · rw [if_pos hfree, if_pos hfree]
    · rw [if_neg hfree, if_neg hfree, setPrev_eq]
      · rfl
      · intro q hq
        obtain ⟨n, hn, -⟩ := h.live (h.mem_head hq)
        exact ⟨n, hn⟩
  · rw [if_neg hrange, if_neg hrange]

/-- A handler that is not in the list is put in front. -/
theorem Agrees.hook (h : s.Agrees l) (hn : s.node p = some n) (hcb : n.handler = true)
    (hport : n.xenPort = k) (hk : k < maxEvtchn) (hfree : s.handlers k = none) :
    (s.hook p k).Agrees (p :: l) := by
  have hp : p ∉ l := by
    intro hp
    obtain ⟨k', hk'⟩ := (h.registered p).mp hp
    obtain ⟨-, n', hn', hport', -⟩ := h.handler k' p hk'
    obtain rfl := Option.some.inj (hn.symm.trans hn')
    have heq : k' = k := by omega
    rw [heq, hfree] at hk'
    cases hk'
  refine ⟨?_, fun q => ?_, fun k' q hq => ?_⟩
  · obtain ⟨tail, hlinked⟩ := h.linked
    exact ⟨_, hlinked.cons hp⟩
  · rw [List.mem_cons, h.registered]
    constructor
    · rintro (rfl | ⟨k', hk'⟩)
      · exact ⟨k, Function.update_self ..⟩
      · refine ⟨k', ?_⟩
        have hne : k' ≠ k := by
          rintro rfl
          rw [hfree] at hk'
          cases hk'
        exact (Function.update_of_ne hne _ _).trans hk'
    · rintro ⟨k', hk'⟩
      by_cases heq : k' = k
      · subst heq
        exact .inl (Option.some.inj (hk'.symm.trans (Function.update_self ..)))
      · exact .inr ⟨k', (Function.update_of_ne heq _ _).symm.trans hk'⟩
  · by_cases heq : k' = k
    · subst heq
      obtain rfl := Option.some.inj (hq.symm.trans (Function.update_self ..))
      exact ⟨hk, n, hn, hport, hcb⟩
    · exact h.handler k' q ((Function.update_of_ne heq _ _).symm.trans hq)

/-- What `reconstruct_handler` may have made of a handler that is not in the list: it is registered
under some port, or it is as it was. -/
structure Attempt (s : EvtchnTable) (l : List Nat) (p : Nat) (n : TableHandler)
    (r : Bool × EvtchnTable) : Prop where
  outcome : (r.1 = true ∧ r.2.Agrees (p :: l) ∧
      ∃ k < maxEvtchn, r.2.node = Function.update s.node p (some { n with xenPort := k })) ∨
    (r.2.Agrees l ∧ r.2.node = s.node ∧ (r.1 = true → 0 ≤ n.xenPort ∧ n.xenPort < maxEvtchn))
  next : ∀ q, q ≠ p → r.2.next q = s.next q
  started : r.2.started = s.started

theorem Agrees.reconstructHandler (h : s.Agrees l) (hp : p ∉ l) (hn : s.node p = some n)
    (hcb : n.handler = true) : Ends (s.Attempt l p n) (s.reconstructHandler xen p) := by
  have hkeep : s.node = Function.update s.node p (some n) := by rw [← hn, Function.update_eq_self]
  rw [EvtchnTable.reconstructHandler, look_eq hn]
  change Ends _ (match n.binding.request with | some op => _ | none => _)
  cases n.binding.request with
  | none =>
    dsimp only
    rw [h.registerHandler hn]
    by_cases hrange : 0 ≤ n.xenPort ∧ n.xenPort < maxEvtchn
    · rw [if_pos hrange]
      split
      · exact ⟨.inr ⟨h, rfl, fun _ => hrange⟩, fun _ _ => rfl, rfl⟩
      · next hfree =>
        have hport : n.xenPort = n.xenPort.toNat := (Int.toNat_of_nonneg hrange.1).symm
        have hk : n.xenPort.toNat < maxEvtchn := by omega
        have hook := h.hook hn hcb hport hk (Option.not_isSome_iff_eq_none.mp hfree)
        refine ⟨.inl ⟨rfl, hook, _, hk, ?_⟩, fun q hq => Function.update_of_ne hq _ _, rfl⟩
        rw [← hport]
        exact hkeep
    · rw [if_neg hrange]
      exact .inl rfl
  | some op =>
    dsimp only [hypercall]
    cases xen (op :: s.ops) with
    | none =>
      dsimp only
      exact ⟨.inr ⟨h.congr (fun _ _ => rfl) (fun _ _ => rfl) rfl rfl fun _ _ => rfl, rfl,
        fun hf => absurd hf Bool.false_ne_true⟩, fun _ _ => rfl, rfl⟩
    | some port =>
      dsimp only
      generalize hs₁ : ({ s with ops := op :: s.ops } : EvtchnTable).setPort p n port = s₁
      have h₁ : s₁.Agrees l := by
        subst hs₁
        refine h.congr (fun _ _ => rfl) (fun _ _ => rfl) rfl rfl fun q hq => ?_
        refine Function.update_of_ne ?_ _ _
        rintro rfl
        exact hp hq
      have hn₁ : s₁.node p = some { n with xenPort := port } := by
        subst hs₁
        exact Function.update_self ..
      rw [h₁.registerHandler hn₁]
      dsimp only
      by_cases hrange : 0 ≤ port ∧ port < maxEvtchn
      · rw [if_pos hrange]
        split
        · exact .inr rfl
        · next hfree =>
          have hport : port = port.toNat := (Int.toNat_of_nonneg hrange.1).symm
          have hk : port.toNat < maxEvtchn := by omega
          have hook := h₁.hook hn₁ hcb hport hk (Option.not_isSome_iff_eq_none.mp hfree)
          subst hs₁
          refine ⟨.inl ⟨rfl, hook, _, hk, ?_⟩, fun q hq => Function.update_of_ne hq _ _, rfl⟩
          rw [← hport]
          rfl
      · rw [if_neg hrange]
        exact .inl rfl

/-- A handler with its new port is in the table's range too. -/
theorem ports_update {node : Nat → Option TableHandler}
    (h : ∀ q m, node q = some m → m.xenPort = -1 ∨ (0 ≤ m.xenPort ∧ m.xenPort < maxEvtchn))
    (hn : n.xenPort = -1 ∨ (0 ≤ n.xenPort ∧ n.xenPort < maxEvtchn)) (q : Nat) (m : TableHandler)
    (hq : Function.update node p (some n) q = some m) :
    m.xenPort = -1 ∨ (0 ≤ m.xenPort ∧ m.xenPort < maxEvtchn) := by
  by_cases heq : q = p
  · subst heq
    rw [Function.update_self] at hq
    exact Option.some.inj hq ▸ hn
  · rw [Function.update_of_ne heq] at hq
    exact h q m hq

@[simp] theorem allocateHandler_node {binding : PortBinding} {xenPort : Int} :
    (s.allocateHandler p binding xenPort).node =
      Function.update s.node p (some ⟨binding, xenPort, true⟩) := rfl

/-- A handler is freed. -/
theorem ports_none {node : Nat → Option TableHandler}
    (h : ∀ q m, node q = some m → m.xenPort = -1 ∨ (0 ≤ m.xenPort ∧ m.xenPort < maxEvtchn))
    (q : Nat) (m : TableHandler) (hq : Function.update node p none q = some m) :
    m.xenPort = -1 ∨ (0 ≤ m.xenPort ∧ m.xenPort < maxEvtchn) := by
  by_cases heq : q = p
  · subst heq
    rw [Function.update_self] at hq
    cases hq
  · rw [Function.update_of_ne heq] at hq
    exact h q m hq

/-- A new handler. -/
theorem Inv.construct (h : s.Inv l) {mem : Option Nat} (hmem : ∀ p ∈ mem, s.node p = none)
    (binding : PortBinding) (xenPort : Int) :
    Ends (fun r => ∃ l', r.2.Inv l') (s.construct xen mem binding xenPort) := by
  cases mem with
  | none => exact ⟨l, h⟩
  | some p =>
    have hp : p ∉ l := by
      intro hp
      obtain ⟨n, hn, -⟩ := h.live hp
      rw [hmem p rfl] at hn
      cases hn
    have hne : ∀ q ∈ l, q ≠ p := by
      rintro q hq rfl
      exact hp hq
    have h₁ : (s.allocateHandler p binding xenPort).Agrees l :=
      h.toAgrees.congr (fun q hq => Function.update_of_ne (hne q hq) _ _)
        (fun q hq => Function.update_of_ne (hne q hq) _ _) rfl rfl
        fun q hq => Function.update_of_ne (hne q hq) _ _
    have hn₁ : (s.allocateHandler p binding xenPort).node p = some ⟨binding, xenPort, true⟩ :=
      Function.update_self ..
    refine (h₁.reconstructHandler hp hn₁ rfl).bind ?_
    rintro ⟨ok, s₂⟩ hr
    rcases hr.outcome with ⟨hok, hagrees, k, hk, hnode⟩ | ⟨hagrees, hnode, hok⟩
    · dsimp only at hok hagrees hnode
      subst hok
      refine ⟨p :: l, hagrees, ?_⟩
      rw [hnode, allocateHandler_node, Function.update_idem]
      exact ports_update h.ports (.inr ⟨Int.natCast_nonneg k, Int.ofNat_lt.mpr hk⟩)
    · dsimp only at hok hagrees hnode
      cases ok with
      | true =>
        refine ⟨l, hagrees, ?_⟩
        rw [hnode]
        exact ports_update h.ports (.inr (hok rfl))
      | false =>
        refine ⟨l, hagrees.congr (fun _ _ => rfl) (fun _ _ => rfl) rfl rfl
          fun q hq => Function.update_of_ne (hne q hq) _ _, ?_⟩
        dsimp only
        rw [hnode, allocateHandler_node, Function.update_idem]
        exact ports_none h.ports

/-- So it is for what the state is then. -/
theorem Inv.construct_snd (h : s.Inv l) {mem : Option Nat} (hmem : ∀ p ∈ mem, s.node p = none)
    (binding : PortBinding) (xenPort : Int) :
    Ends (fun s' => ∃ l', s'.Inv l') ((s.construct xen mem binding xenPort).map Prod.snd) :=
  Ends.map (Q := fun s' : EvtchnTable => ∃ l', s'.Inv l') (h.construct hmem binding xenPort)

/-! ## Stopping -/

/-- The state when `p` has been taken out at `k`. -/
def unhooked (xen : List EventChannelOp → Option Int) (s : EvtchnTable) (p k : Nat) : EvtchnTable :=
  { (s.hypercall xen (.close k)).2 with
    next := link s.next (s.prev p) (s.next p)
    prev := link s.prev (s.next p) (s.prev p)
    head := if s.prev p = none then s.next p else s.head
    handlers := Function.update s.handlers k none }

theorem Agrees.unhook {l₁ l₂ : List Nat} (h : s.Agrees (l₁ ++ p :: l₂)) :
    s.unhook xen p k = .ok (s.unhooked xen p k) := by
  obtain ⟨tail, hlinked⟩ := h.linked
  have hnext := hlinked.next_eq
  have hprev := hlinked.prev_eq
  have hlive : ∀ q, q ∈ s.next p ∨ q ∈ s.prev p → ∃ n, s.node q = some n := by
    rintro q (hq | hq)
    · rw [hnext] at hq
      obtain ⟨n, hn, -⟩ := h.live
        (List.mem_append_right l₁ (List.mem_cons_of_mem p (List.mem_of_head? hq)))
      exact ⟨n, hn⟩
    · rw [hprev] at hq
      obtain ⟨n, hn, -⟩ := h.live (List.mem_append_left _ (List.mem_of_getLast? hq))
      exact ⟨n, hn⟩
  -- the node itself is not its own neighbour
  have hself : link s.prev (s.next p) (s.prev p) p = s.prev p := by
    refine link_of_ne fun hp => ?_
    rw [hnext] at hp
    have hnd := (List.nodup_append.mp h.nodup).2.1
    exact (List.nodup_cons.mp hnd).1 (List.mem_of_head? hp)
  rw [EvtchnTable.unhook]
  dsimp only [hypercall]
  rw [setPrev_eq (s := { s with ops := .close k :: s.ops }) fun q hq => hlive q (.inl hq)]
  change (setNext _ (link s.prev (s.next p) (s.prev p) p) (s.next p) >>= _) = _
  rw [hself, setNext_eq (s := { s with
    ops := .close k :: s.ops
    prev := link s.prev (s.next p) (s.prev p) }) fun q hq => hlive q (.inr hq)]
  rfl

theorem Agrees.unhooked {l₁ l₂ : List Nat} (h : s.Agrees (l₁ ++ p :: l₂))
    (hk : s.handlers k = some p) : (s.unhooked xen p k).Agrees (l₁ ++ l₂) := by
  obtain ⟨tail, hlinked⟩ := h.linked
  have hnd := (List.perm_middle.nodup_iff).mp h.nodup
  have hmem : ∀ q, q ∈ l₁ ++ l₂ ↔ q ∈ l₁ ++ p :: l₂ ∧ q ≠ p := by
    intro q
    rw [List.perm_middle.mem_iff, List.mem_cons]
    constructor
    · intro hq
      refine ⟨.inr hq, ?_⟩
      rintro rfl
      exact (List.nodup_cons.mp hnd).1 hq
    · rintro ⟨rfl | hq, hne⟩
      · exact absurd rfl hne
      · exact hq
  refine ⟨⟨_, hlinked.remove⟩, fun q => ?_, fun k' q hq => ?_⟩
  · rw [hmem, h.registered]
    constructor
    · rintro ⟨⟨k', hk'⟩, hne⟩
      refine ⟨k', ?_⟩
      have hkk : k' ≠ k := by
        rintro rfl
        exact hne (Option.some.inj (hk'.symm.trans hk))
      exact (Function.update_of_ne hkk _ _).trans hk'
    · rintro ⟨k', hk'⟩
      by_cases hkk : k' = k
      · subst hkk
        cases (Function.update_self ..).symm.trans hk'
      · have hk'' : s.handlers k' = some q := (Function.update_of_ne hkk _ _).symm.trans hk'
        refine ⟨⟨k', hk''⟩, ?_⟩
        rintro rfl
        -- two places of one handler have its port
        obtain ⟨-, n, hn, hport, -⟩ := h.handler k' _ hk''
        obtain ⟨-, n', hn', hport', -⟩ := h.handler k _ hk
        obtain rfl := Option.some.inj (hn.symm.trans hn')
        omega
  · by_cases hkk : k' = k
    · subst hkk
      cases (Function.update_self ..).symm.trans hq
    · exact h.handler k' q ((Function.update_of_ne hkk _ _).symm.trans hq)

/-- What is under the lock takes a handler out of the table and the list, or finds it there no more. -/
theorem Inv.unregister (xen : List EventChannelOp → Option Int) (h : s.Inv l) (hn : s.node p = some n) :
    ∃ s' l', s.unregister xen p n = .ok s' ∧ s'.Agrees l' ∧ p ∉ l' ∧ s'.node = s.node := by
  have hthere : p ∈ l → 0 ≤ n.xenPort ∧ s.handlers n.xenPort.toNat = some p := by
    intro hp
    obtain ⟨k, hk⟩ := (h.registered p).mp hp
    obtain ⟨-, n', hn', hport, -⟩ := h.handler k p hk
    obtain rfl := Option.some.inj (hn.symm.trans hn')
    rw [hport, Int.toNat_natCast]
    exact ⟨Int.natCast_nonneg k, hk⟩
  rw [EvtchnTable.unregister]
  by_cases hport : 0 ≤ n.xenPort
  · have hk : n.xenPort.toNat < maxEvtchn := by
      have := h.ports p n hn
      omega
    rw [if_pos hport, slot_eq hk]
    change ∃ s' l', (if s.handlers n.xenPort.toNat = some p then _ else _) = _ ∧ _
    by_cases hhere : s.handlers n.xenPort.toNat = some p
    · obtain ⟨l₁, l₂, rfl⟩ := List.append_of_mem ((h.registered p).mpr ⟨_, hhere⟩)
      rw [if_pos hhere, h.toAgrees.unhook]
      have hnd := (List.perm_middle.nodup_iff).mp h.nodup
      exact ⟨_, l₁ ++ l₂, rfl, h.toAgrees.unhooked hhere, (List.nodup_cons.mp hnd).1, rfl⟩
    · rw [if_neg hhere]
      exact ⟨s, l, rfl, h.toAgrees, fun hp => hhere (hthere hp).2, rfl⟩
  · rw [if_neg hport]
    exact ⟨s, l, rfl, h.toAgrees, fun hp => hport (hthere hp).1, rfl⟩

/-- A port is stopped: it is in the table and in the list no more, and its handler has no port. -/
theorem Inv.evtchnPortStop (xen : List EventChannelOp → Option Int) (h : s.Inv l) (hn : s.node p = some n) :
    ∃ s' l', s.evtchnPortStop xen p = .ok s' ∧ s'.Inv l' ∧ p ∉ l' ∧
      s'.node = Function.update s.node p (some { n with xenPort := -1, handler := false }) := by
  obtain ⟨s₁, l', hs₁, h₁, hp₁, hnode₁⟩ := h.unregister xen hn
  refine ⟨{ s₁ with node := Function.update s₁.node p (some { n with xenPort := -1, handler := false }) },
    l', ?_, ⟨h₁.congr (fun _ _ => rfl) (fun _ _ => rfl) rfl rfl fun q hq => ?_, ?_⟩, hp₁, ?_⟩
  · rw [EvtchnTable.evtchnPortStop, look_eq hn]
    change s.unregister xen p n >>= _ = _
    rw [hs₁]
    rfl
  · refine Function.update_of_ne ?_ _ _
    rintro rfl
    exact hp₁ hq
  · rw [hnode₁]
    exact ports_update h.ports (.inl rfl)
  · rw [hnode₁]

/-- A port is closed. -/
theorem Inv.evtchnClose (xen : List EventChannelOp → Option Int) (h : s.Inv l) (hn : s.node p = some n) :
    ∃ s' l', s.evtchnClose xen p = .ok s' ∧ s'.Inv l' := by
  obtain ⟨s₁, l', hs₁, h₁, hp, hnode⟩ := h.evtchnPortStop xen hn
  have hn₁ : s₁.node p = some { n with xenPort := -1, handler := false } := by
    rw [hnode, Function.update_self]
  refine ⟨{ s₁ with node := Function.update s₁.node p none }, l', ?_,
    h₁.toAgrees.congr (fun _ _ => rfl) (fun _ _ => rfl) rfl rfl fun q hq => ?_, ports_none h₁.ports⟩
  · rw [EvtchnTable.evtchnClose, hs₁]
    change s₁.look p >>= _ = _
    rw [look_eq hn₁]
    rfl
  · refine Function.update_of_ne ?_ _ _
    rintro rfl
    exact hp hq

/-! ## After a suspend, and when the driver starts again -/

theorem Attempt.node_of_ne {r : Bool × EvtchnTable} (h : s.Attempt l p n r) (hq : q ≠ p) :
    r.2.node q = s.node q := by
  rcases h.outcome with ⟨-, -, k, -, hnode⟩ | ⟨-, hnode, -⟩
  · rw [hnode]
    exact Function.update_of_ne hq _ _
  · rw [hnode]

theorem Attempt.inv {r : Bool × EvtchnTable} (h : s.Attempt l p n r) (hinv : s.Inv l) :
    ∃ l', r.2.Inv l' ∧ ∀ q ∈ l', q = p ∨ q ∈ l := by
  rcases h.outcome with ⟨-, hagrees, k, hk, hnode⟩ | ⟨hagrees, hnode, -⟩
  · refine ⟨p :: l, ⟨hagrees, ?_⟩, fun q hq => List.mem_cons.mp hq⟩
    rw [hnode]
    exact ports_update hinv.ports (.inr ⟨Int.natCast_nonneg k, Int.ofNat_lt.mpr hk⟩)
  · exact ⟨l, ⟨hagrees, hnode ▸ hinv.ports⟩, fun q hq => .inr hq⟩

/-- The loop has registered some of `l`, and `rest` is left. -/
theorem Inv.recoverLoop {left : Nat} {cur : Option Nat} (h : s.Inv l) (hchain : Chain s.next cur rest)
    (hnd : rest.Nodup) (hapart : ∀ p ∈ rest, p ∉ l)
    (hlive : ∀ p ∈ rest, ∃ n, s.node p = some n ∧ n.handler = true) (hleft : rest.length ≤ left) :
    Ends (fun s' => ∃ l', s'.Inv l') (recoverLoop xen s left cur) := by
  induction rest generalizing s l cur left with
  | nil =>
    rw [chain_nil.mp hchain, EvtchnTable.recoverLoop]
    exact ⟨l, h⟩
  | cons p rest ih =>
    obtain ⟨rfl, hchain⟩ := hchain
    obtain ⟨hp, hnd⟩ := List.nodup_cons.mp hnd
    obtain ⟨n, hn, hcb⟩ := hlive p List.mem_cons_self
    obtain ⟨left, rfl⟩ : ∃ m, left = m + 1 := by
      rw [List.length_cons] at hleft
      exact ⟨left - 1, by omega⟩
    have hne : ∀ q ∈ rest, q ≠ p := by
      rintro q hq rfl
      exact hp hq
    rw [EvtchnTable.recoverLoop, look_eq hn]
    refine (h.toAgrees.reconstructHandler (hapart p List.mem_cons_self) hn hcb).bind fun r hr => ?_
    obtain ⟨l', hinv, hmem⟩ := hr.inv h
    refine ih hinv (hchain.congr fun q hq => hr.next q (hne q hq)) hnd ?_ ?_
      (Nat.le_of_succ_le_succ hleft)
    · intro q hq hql
      rcases hmem q hql with rfl | hql
      · exact hp hq
      · exact hapart q (List.mem_cons_of_mem p hq) hql
    · intro q hq
      rw [hr.node_of_ne (hne q hq)]
      exact hlive q (List.mem_cons_of_mem p hq)

/-- The table and the head of the list have been cleared. -/
theorem Inv.cleared (h : s.Inv l) :
    ({ s with handlers := fun _ => none, head := none } : EvtchnTable).Inv [] :=
  ⟨Agrees.nil rfl fun _ => rfl, h.ports⟩

/-- What was in the list is there still when the head has been cleared. -/
theorem Agrees.chain (h : s.Agrees l) : Chain s.next s.head l :=
  h.linked.choose_spec.forward

theorem Inv.evtchnRecoverFromSuspend (h : s.Inv l) :
    Ends (fun s' => ∃ l', s'.Inv l') (s.evtchnRecoverFromSuspend xen) :=
  h.cleared.recoverLoop h.toAgrees.chain h.nodup (fun _ _ => List.not_mem_nil)
    (fun _ hp => h.toAgrees.live hp) h.toAgrees.length_le

theorem forgetLoop_eq {left : Nat} (hhandlers : ∀ k, s.handlers k = none)
    (hchain : Chain s.next s.head l) (hnd : l.Nodup) (hlive : ∀ p ∈ l, ∃ n, s.node p = some n)
    (hports : ∀ p n, s.node p = some n → n.xenPort = -1 ∨ (0 ≤ n.xenPort ∧ n.xenPort < maxEvtchn))
    (hleft : l.length ≤ left) : ∃ s', s.forgetLoop left = .ok s' ∧ s'.Inv [] := by
  induction l generalizing s left with
  | nil =>
    have hhead := chain_nil.mp hchain
    refine ⟨s, ?_, Agrees.nil hhead hhandlers, hports⟩
    cases left with
    | zero => rw [forgetLoop, if_pos hhead]
    | succ left => rw [forgetLoop, hhead]
  | cons p l ih =>
    obtain ⟨hhead, hchain⟩ := hchain
    obtain ⟨hp, hnd⟩ := List.nodup_cons.mp hnd
    obtain ⟨n, hn⟩ := hlive p List.mem_cons_self
    obtain ⟨left, rfl⟩ : ∃ m, left = m + 1 := by
      rw [List.length_cons] at hleft
      exact ⟨left - 1, by omega⟩
    have hne : ∀ q ∈ l, q ≠ p := by
      rintro q hq rfl
      exact hp hq
    rw [forgetLoop, hhead]
    dsimp only
    rw [look_eq hn]
    refine ih hhandlers (hchain.congr fun q hq => Function.update_of_ne (hne q hq) _ _) hnd
      (fun q hq => ?_) (ports_update hports (.inl rfl)) (Nat.le_of_succ_le_succ hleft)
    obtain ⟨m, hm⟩ := hlive q (List.mem_cons_of_mem p hq)
    exact ⟨m, (Function.update_of_ne (hne q hq) _ _).trans hm⟩

theorem Inv.evtchnStart (h : s.Inv l) (initHvm : Bool) :
    ∃ s' l', s.evtchnStart initHvm = .ok s' ∧ s'.Inv l' := by
  rw [EvtchnTable.evtchnStart]
  split
  · exact ⟨s, l, rfl, h⟩
  · obtain ⟨s₁, hs₁, h₁⟩ := forgetLoop_eq (s := { s with handlers := fun _ => none }) (fun _ => rfl)
      h.toAgrees.chain h.nodup (fun p hp => (h.toAgrees.live hp).imp fun n hn => hn.1) h.ports
      h.toAgrees.length_le
    rw [hs₁]
    refine ⟨_, [], rfl, ?_⟩
    split
    · exact ⟨h₁.toAgrees.congr (fun _ _ => rfl) (fun _ _ => rfl) rfl rfl fun _ _ => rfl, h₁.ports⟩
    · exact h₁

/-! ## All runs -/

theorem Fresh.inv (h : s.Fresh) : s.Inv [] := by
  refine ⟨Agrees.nil h.head h.handlers, fun p n hn => ?_⟩
  rw [h.node] at hn
  cases hn

/-- One call. -/
theorem Inv.call (h : s.Inv l) {c : TableCall} (hc : c.Proper s) :
    Ends (fun s' => ∃ l', s'.Inv l') (s.call xen c) := by
  cases c with
  | registerHandler mem xenPort => exact h.construct_snd hc .fixed xenPort
  | bindVirq mem virq => exact h.construct_snd hc (.virq virq) 0
  | allocUnboundDpc mem domid => exact h.construct_snd hc (.interdomainDpc domid) 0
  | connectRemotePort mem domid aport => exact h.construct_snd hc (.alien domid aport) 0
  | allocUnbound mem domid => exact h.construct_snd hc (.interdomain domid) 0
  | portStop p =>
    obtain ⟨n, hn⟩ := Option.ne_none_iff_exists'.mp hc
    obtain ⟨s', l', hs', hinv, -⟩ := h.evtchnPortStop xen hn
    rw [EvtchnTable.call, hs']
    exact ⟨l', hinv⟩
  | close p =>
    obtain ⟨n, hn⟩ := Option.ne_none_iff_exists'.mp hc
    obtain ⟨s', l', hs', hinv⟩ := h.evtchnClose xen hn
    rw [EvtchnTable.call, hs']
    exact ⟨l', hinv⟩
  | recoverFromSuspend => exact h.evtchnRecoverFromSuspend
  | start initHvm =>
    obtain ⟨s', l', hs', hinv⟩ := h.evtchnStart initHvm
    rw [EvtchnTable.call, hs']
    exact ⟨l', hinv⟩
  | stop => exact ⟨l, h.toAgrees.congr (fun _ _ => rfl) (fun _ _ => rfl) rfl rfl fun _ _ => rfl, h.ports⟩

theorem Reached.inv (h : s.Reached xen) : ∃ l, s.Inv l := by
  refine Reachable.invariant (P := fun s => ∃ l, s.Inv l) h (fun s hs => ⟨[], Fresh.inv hs⟩) ?_
  rintro s c s' ⟨l, hinv⟩ hc hs'
  have hends : Ends (fun s' => ∃ l', s'.Inv l') (s.call xen c) := hinv.call hc
  rw [hs'] at hends
  exact hends

/-- **The table and the list agree in every state.**  What the interrupt finds in the table is
allocated, has a function and has that port; the list has exactly what the table has, is linked both
ways and is no longer than the table; and no call can fail but for a port that is out of range or taken. -/
theorem table_sound (h : s.Reached xen) :
    (∀ k p, s.handlers k = some p →
        k < maxEvtchn ∧ ∃ n, s.node p = some n ∧ n.xenPort = k ∧ n.handler = true) ∧
      (∃ l tail, Linked s.next s.prev s.head tail l ∧ l.length ≤ maxEvtchn ∧
        ∀ p, p ∈ l ↔ ∃ k, s.handlers k = some p) ∧
      ∀ c e, c.Proper s → s.call xen c = .error e → e = .portRange ∨ e = .portTaken := by
  obtain ⟨l, hinv⟩ := h.inv
  obtain ⟨tail, hlinked⟩ := hinv.linked
  refine ⟨hinv.handler, ⟨l, tail, hlinked, hinv.toAgrees.length_le, hinv.registered⟩, ?_⟩
  intro c e hc he
  have hends : Ends (fun s' => ∃ l', s'.Inv l') (s.call xen c) := hinv.call hc
  rw [he] at hends
  exact hends

/-- Xen gives port 5 first, then 6, and so on. -/
def countingXen (ops : List EventChannelOp) : Option Int := some (ops.length + 4)

/-- The driver has been loaded, and no port has been asked for. -/
def unused : EvtchnTable where
  node _ := none
  next _ := none
  prev _ := none
  handlers _ := none
  head := none
  masked _ := true
  started := false
  ops := []

/-- Two handlers are registered: one of port 2, which is there already, and one that gets port 5. -/
theorem two_reached : ∃ s : EvtchnTable, s.Reached countingXen ∧ s.handlers 2 = some 0 ∧
    s.handlers 5 = some 1 ∧ Chain s.next s.head [1, 0] ∧ s.ops = [.allocUnbound 7] ∧
    s.node 0 = some ⟨.fixed, 2, true⟩ ∧ s.node 1 = some ⟨.interdomain 7, 5, true⟩ := by
  have hstart : unused.Reached countingXen := .start ⟨fun _ => rfl, fun _ => rfl, rfl⟩
  have hfixed := Reachable.next (i := TableCall.registerHandler (some 0) 2) hstart
    (fun _ _ => rfl) rfl
  have hunbound := Reachable.next (i := TableCall.allocUnbound (some 1) 7) hfixed
    (fun p hp => by cases hp; rfl) rfl
  exact ⟨_, hunbound, rfl, rfl, ⟨rfl, rfl, rfl⟩, rfl, rfl, rfl⟩

/-- With two handlers, the list has both. -/
theorem table_sound_two : ∃ s : EvtchnTable, s.Reached countingXen ∧ s.handlers 5 = some 1 ∧
    ∃ l tail, Linked s.next s.prev s.head tail l ∧ 0 ∈ l ∧ 1 ∈ l := by
  obtain ⟨s, hs, h2, h5, -⟩ := two_reached
  obtain ⟨-, ⟨l, tail, hl, -, hmem⟩, -⟩ := table_sound hs
  exact ⟨s, hs, h5, l, tail, hl, (hmem 0).mpr ⟨2, h2⟩, (hmem 1).mpr ⟨5, h5⟩⟩

/-! ## What a suspend leaves -/

/-- The hypercalls behind `reconstruct_handler`, and the port the handler is to have, if Xen does not
refuse it. -/
def answer (xen : List EventChannelOp → Option Int) (n : TableHandler) (ops : List EventChannelOp) :
    List EventChannelOp × Option Int :=
  match n.binding.request with
  | some op => (op :: ops, xen (op :: ops))
  | none => (ops, some n.xenPort)

/-- The handlers of `l` with the ports they are to have, one after the other. -/
def answers (xen : List EventChannelOp → Option Int) (node : Nat → Option TableHandler) :
    List EventChannelOp → List Nat → List (Nat × Option Int)
  | _, [] => []
  | ops, p :: l =>
    match node p with
    | none => answers xen node ops l
    | some n => (p, (answer xen n ops).2) :: answers xen node (answer xen n ops).1 l

/-- What the handlers of `l` are bound to, as requests, newest first. -/
def requests (node : Nat → Option TableHandler) (l : List Nat) : List EventChannelOp :=
  (l.filterMap fun p => (node p).bind (·.binding.request)).reverse

theorem answers_congr {node node' : Nat → Option TableHandler} {ops : List EventChannelOp}
    (h : ∀ p ∈ l, node' p = node p) : answers xen node' ops l = answers xen node ops l := by
  induction l generalizing ops with
  | nil => rfl
  | cons p l ih =>
    have htail : ∀ q ∈ l, node' q = node q := fun q hq => h q (List.mem_cons_of_mem p hq)
    rw [answers, answers, h p List.mem_cons_self]
    cases node p with
    | none => exact ih htail
    | some n => exact congrArg _ (ih htail)

theorem mem_of_mem_answers {node : Nat → Option TableHandler} {ops : List EventChannelOp}
    {a : Option Int} (h : (p, a) ∈ answers xen node ops l) : p ∈ l := by
  induction l generalizing ops with
  | nil => exact absurd h List.not_mem_nil
  | cons q l ih =>
    rw [answers] at h
    cases hq : node q with
    | none =>
      rw [hq] at h
      exact List.mem_cons_of_mem q (ih h)
    | some n =>
      rw [hq] at h
      rcases List.mem_cons.mp h with heq | h
      · exact (Prod.mk.inj heq).1 ▸ List.mem_cons_self
      · exact List.mem_cons_of_mem q (ih h)

/-- Xen refuses. -/
theorem reconstructHandler_refused (hn : s.node p = some n) (hans : (answer xen n s.ops).2 = none) :
    s.reconstructHandler xen p = .ok (false, { s with ops := (answer xen n s.ops).1 }) := by
  rw [EvtchnTable.reconstructHandler, look_eq hn]
  change (match n.binding.request with | some op => _ | none => _) = _
  rw [answer] at hans ⊢
  cases hreq : n.binding.request with
  | none =>
    rw [hreq] at hans
    cases hans
  | some op =>
    rw [hreq] at hans
    dsimp only at hans ⊢
    rw [hypercall, hans]

/-- Xen, or what is known of a fixed port, gives a port that is free. -/
theorem Agrees.reconstructHandler_registered (h : s.Agrees l) (hp : p ∉ l) (hn : s.node p = some n)
    {port : Int} (hans : (answer xen n s.ops).2 = some port)
    (hrange : 0 ≤ port ∧ port < maxEvtchn) (hfree : s.handlers port.toNat = none) :
    s.reconstructHandler xen p =
      .ok (true, (({ s with ops := (answer xen n s.ops).1 } : EvtchnTable).setPort p n port).hook p
        port.toNat) := by
  have hne : ∀ q ∈ l, q ≠ p := by
    rintro q hq rfl
    exact hp hq
  have hbusy : ¬ (s.handlers port.toNat).isSome := by
    rw [hfree]
    exact Bool.false_ne_true
  rw [EvtchnTable.reconstructHandler, look_eq hn]
  change (match n.binding.request with | some op => _ | none => _) = _
  rw [answer] at hans ⊢
  cases hreq : n.binding.request with
  | none =>
    rw [hreq] at hans
    obtain rfl := Option.some.inj hans
    have hsame : ({ s with ops := s.ops } : EvtchnTable).setPort p n n.xenPort = s := by
      rw [setPort, ← hn, Function.update_eq_self]
    dsimp only
    rw [hsame, h.registerHandler hn, if_pos hrange, if_neg hbusy]
    rfl
  | some op =>
    rw [hreq] at hans
    dsimp only at hans ⊢
    have h₁ : (({ s with ops := op :: s.ops } : EvtchnTable).setPort p n port).Agrees l :=
      h.congr (fun _ _ => rfl) (fun _ _ => rfl) rfl rfl
        fun q hq => Function.update_of_ne (hne q hq) _ _
    have hn₁ : (({ s with ops := op :: s.ops } : EvtchnTable).setPort p n port).node p =
        some { n with xenPort := port } := Function.update_self ..
    rw [hypercall, hans]
    dsimp only
    rw [h₁.registerHandler hn₁]
    dsimp only
    rw [if_pos hrange]
    change (if (s.handlers port.toNat).isSome then _ else _) >>= _ = _
    rw [if_neg hbusy]
    rfl

theorem fst_answer (ops : List EventChannelOp) :
    (answer xen n ops).1 = n.binding.request.toList ++ ops := by
  rw [answer]
  cases n.binding.request <;> rfl

theorem requests_cons (hn : s.node p = some n) :
    requests s.node (p :: rest) = requests s.node rest ++ n.binding.request.toList := by
  rw [requests, requests, List.filterMap_cons, hn, Option.bind_some]
  cases n.binding.request with
  | none => exact (List.append_nil _).symm
  | some op => exact List.reverse_cons

theorem requests_congr {node node' : Nat → Option TableHandler} (h : ∀ p ∈ l, node' p = node p) :
    requests node' l = requests node l := by
  refine congrArg List.reverse (List.filterMap_congr fun p hp => ?_)
  rw [h p hp]

/-- The handlers of `ans` that were given a port, in the order in which the list has them then. -/
def given (ans : List (Nat × Option Int)) : List Nat :=
  ((ans.filter (·.2.isSome)).map Prod.fst).reverse

/-- What the loop makes of `s`, where `l` is registered already, if `ans` are the ports for the rest. -/
structure Recovered (s : EvtchnTable) (l rest : List Nat) (ans : List (Nat × Option Int))
    (s' : EvtchnTable) : Prop where
  agrees : s'.Agrees (given ans ++ l)
  handlers : ∀ k p, s'.handlers k = some p ↔ s.handlers k = some p ∨ (p, some (k : Int)) ∈ ans
  ops : s'.ops = requests s.node rest ++ s.ops
  refused : ∀ q, (∀ k, (q, some k) ∉ ans) → s'.node q = s.node q
  binding : ∀ q n, s.node q = some n → ∃ k, s'.node q = some { n with xenPort := k }

/-- One handler has been registered. -/
theorem Recovered.step {port : Int} {ans : List (Nat × Option Int)} {s₁ : EvtchnTable}
    (hn : s.node p = some n) (hp : p ∉ rest) (hops : s₁.ops = n.binding.request.toList ++ s.ops)
    (hnode : s₁.node = Function.update s.node p (some { n with xenPort := port }))
    (hhandlers : s₁.handlers = Function.update s.handlers port.toNat (some p))
    (hport : 0 ≤ port) (hfree : s.handlers port.toNat = none)
    (h : s₁.Recovered (p :: l) rest ans s') : s.Recovered l (p :: rest) ((p, some port) :: ans) s' := by
  have hnode_of_ne : ∀ q, q ≠ p → s₁.node q = s.node q := fun q hq => by
    rw [hnode]
    exact Function.update_of_ne hq _ _
  refine ⟨?_, fun k q => ?_, ?_, fun q hq => ?_, fun q m hq => ?_⟩
  · have hgiven : given ((p, some port) :: ans) ++ l = given ans ++ p :: l := by
      rw [given, List.filter_cons_of_pos rfl, List.map_cons, List.reverse_cons, List.append_assoc]
      rfl
    rw [hgiven]
    exact h.agrees
  · rw [h.handlers, hhandlers, List.mem_cons, Prod.mk.injEq]
    by_cases hk : k = port.toNat
    · subst hk
      rw [Function.update_self, hfree, Int.toNat_of_nonneg hport]
      simp [eq_comm]
    · have hne : (k : Int) ≠ port := by omega
      rw [Function.update_of_ne hk]
      simp [hne]
  · have hrest : requests s₁.node rest = requests s.node rest :=
      requests_congr fun q hq => hnode_of_ne q fun heq => hp (heq ▸ hq)
    rw [h.ops, hops, requests_cons hn, hrest, List.append_assoc]
  · have hne : q ≠ p := by
      rintro rfl
      exact hq port List.mem_cons_self
    rw [h.refused q fun k hk => hq k (List.mem_cons_of_mem _ hk), hnode_of_ne q hne]
  · by_cases heq : q = p
    · subst heq
      obtain rfl := Option.some.inj (hn.symm.trans hq)
      exact h.binding q { n with xenPort := port } (by rw [hnode, Function.update_self])
    · exact h.binding q m (by rw [hnode_of_ne q heq, hq])

/-- The loop, when each port it is given is in the range, is free and is given only once. -/
theorem Agrees.recoverLoop {left : Nat} {cur : Option Nat} (h : s.Agrees l)
    (hchain : Chain s.next cur rest) (hnd : rest.Nodup) (hapart : ∀ p ∈ rest, p ∉ l)
    (hlive : ∀ p ∈ rest, ∃ n, s.node p = some n ∧ n.handler = true) (hleft : rest.length ≤ left)
    (hrange : ∀ p k, (p, some k) ∈ answers xen s.node s.ops rest → 0 ≤ k ∧ k < maxEvtchn)
    (honce : ((answers xen s.node s.ops rest).filterMap Prod.snd).Nodup)
    (hfree : ∀ p k, (p, some k) ∈ answers xen s.node s.ops rest → s.handlers k.toNat = none) :
    ∃ s', recoverLoop xen s left cur = .ok s' ∧
      s.Recovered l rest (answers xen s.node s.ops rest) s' := by
  induction rest generalizing s l cur left with
  | nil =>
    rw [chain_nil.mp hchain, EvtchnTable.recoverLoop]
    exact ⟨s, rfl, h, fun k p => ⟨.inl, fun h => h.resolve_right List.not_mem_nil⟩, rfl,
      fun _ _ => rfl, fun q n hn => ⟨n.xenPort, hn⟩⟩
  | cons p rest ih =>
    obtain ⟨rfl, hchain⟩ := hchain
    obtain ⟨hp, hnd⟩ := List.nodup_cons.mp hnd
    obtain ⟨n, hn, hcb⟩ := hlive p List.mem_cons_self
    obtain ⟨left, rfl⟩ : ∃ m, left = m + 1 := by
      rw [List.length_cons] at hleft
      exact ⟨left - 1, by omega⟩
    have hne : ∀ q ∈ rest, q ≠ p := by
      rintro q hq rfl
      exact hp hq
    have hpl := hapart p List.mem_cons_self
    have hans : answers xen s.node s.ops (p :: rest) =
        (p, (answer xen n s.ops).2) :: answers xen s.node (answer xen n s.ops).1 rest := by
      rw [answers, hn]
    rw [hans] at hrange honce hfree ⊢
    rw [EvtchnTable.recoverLoop, look_eq hn]
    change ∃ s', (s.reconstructHandler xen p >>= _) = _ ∧ _
    cases hport : (answer xen n s.ops).2 with
    | none =>
      -- Xen refuses, and the handler is left as it is
      rw [reconstructHandler_refused hn hport]
      rw [hport] at honce
      obtain ⟨s', hs', hrec⟩ := ih (s := { s with ops := (answer xen n s.ops).1 })
        (h.congr (fun _ _ => rfl) (fun _ _ => rfl) rfl rfl fun _ _ => rfl) hchain hnd
        (fun q hq => hapart q (List.mem_cons_of_mem p hq))
        (fun q hq => hlive q (List.mem_cons_of_mem p hq)) (Nat.le_of_succ_le_succ hleft)
        (fun q k hq => hrange q k (List.mem_cons_of_mem _ hq)) honce
        (fun q k hq => hfree q k (List.mem_cons_of_mem _ hq))
      refine ⟨s', hs', hrec.agrees, fun k q => ?_, ?_, fun q hq => ?_, hrec.binding⟩
      · rw [hrec.handlers, List.mem_cons, Prod.mk.injEq]
        simp
      · rw [hrec.ops, requests_cons hn, fst_answer, List.append_assoc]
      · exact hrec.refused q fun k hk => hq k (List.mem_cons_of_mem _ hk)
    | some port =>
      rw [hport] at hrange honce hfree
      obtain ⟨hin, honce⟩ := List.nodup_cons.mp honce
      have hport_range := hrange p port List.mem_cons_self
      have hport_free := hfree p port List.mem_cons_self
      rw [h.reconstructHandler_registered hpl hn hport hport_range hport_free]
      generalize hs₁ : (({ s with ops := (answer xen n s.ops).1 } : EvtchnTable).setPort p n port).hook
        p port.toNat = s₁
      have hnode : s₁.node = Function.update s.node p (some { n with xenPort := port }) := by
        rw [← hs₁]
        rfl
      have hhandlers : s₁.handlers = Function.update s.handlers port.toNat (some p) := by
        rw [← hs₁]
        rfl
      have hops : s₁.ops = (answer xen n s.ops).1 := by
        rw [← hs₁]
        rfl
      have h₁ : s₁.Agrees (p :: l) := by
        rw [← hs₁]
        refine Agrees.hook (n := { n with xenPort := port })
          (h.congr (fun _ _ => rfl) (fun _ _ => rfl) rfl rfl fun q hq => Function.update_of_ne ?_ _ _)
          (Function.update_self ..) hcb (Int.toNat_of_nonneg hport_range.1).symm (by omega) hport_free
        rintro rfl
        exact hpl hq
      have hanswers : answers xen s₁.node s₁.ops rest =
          answers xen s.node (answer xen n s.ops).1 rest := by
        rw [hops]
        refine answers_congr fun q hq => ?_
        rw [hnode]
        exact Function.update_of_ne (hne q hq) _ _
      have hchain₁ : Chain s₁.next (s.next p) rest := by
        rw [← hs₁]
        exact hchain.congr fun q hq => Function.update_of_ne (hne q hq) _ _
      rw [← hanswers] at hrange honce hfree hin ⊢
      obtain ⟨s', hs', hrec⟩ := ih h₁ hchain₁ hnd
        (fun q hq => by
          rw [List.mem_cons, not_or]
          exact ⟨hne q hq, hapart q (List.mem_cons_of_mem p hq)⟩)
        (fun q hq => by
          rw [hnode, Function.update_of_ne (hne q hq)]
          exact hlive q (List.mem_cons_of_mem p hq)) (Nat.le_of_succ_le_succ hleft)
        (fun q k hq => hrange q k (List.mem_cons_of_mem _ hq)) honce
        (fun q k hq => by
          -- the ports are different, so the new place is another
          have hk := hrange q k (List.mem_cons_of_mem _ hq)
          have hneq : k ≠ port := by
            rintro rfl
            exact hin (List.mem_filterMap.mpr ⟨_, hq, rfl⟩)
          rw [hhandlers, Function.update_of_ne (by omega)]
          exact hfree q k (List.mem_cons_of_mem _ hq))
      exact ⟨s', hs', hrec.step hn hp (hops.trans (fst_answer _)) hnode hhandlers hport_range.1
        hport_free⟩

/-- **What a suspend leaves.**  When the ports that Xen gives, and those of the fixed handlers, are in
the table's range and differ, every handler Xen does not refuse is in the table again under its new
port, and bound to what it was bound to; the list has them in the other order; and a handler that is
refused is as it was, but registered no more. -/
theorem recovered (h : s.Reached xen) {tail : Option Nat}
    (hl : Linked s.next s.prev s.head tail l)
    (hrange : ∀ p k, (p, some k) ∈ answers xen s.node s.ops l → 0 ≤ k ∧ k < maxEvtchn)
    (honce : ((answers xen s.node s.ops l).filterMap Prod.snd).Nodup) :
    ∃ s', s.call xen .recoverFromSuspend = .ok s' ∧
      (∃ tail, Linked s'.next s'.prev s'.head tail (given (answers xen s.node s.ops l))) ∧
      (∀ k p, s'.handlers k = some p ↔ (p, some (k : Int)) ∈ answers xen s.node s.ops l) ∧
      s'.ops = requests s.node l ++ s.ops ∧
      (∀ p, (∀ k, (p, some k) ∉ answers xen s.node s.ops l) → s'.node p = s.node p) ∧
      ∀ p n, s.node p = some n → ∃ k, s'.node p = some { n with xenPort := k } := by
  obtain ⟨l', hinv⟩ := h.inv
  obtain rfl : l = l' := hl.forward.unique hinv.toAgrees.chain
  obtain ⟨s', hs', hrec⟩ := hinv.cleared.toAgrees.recoverLoop hinv.toAgrees.chain hinv.nodup
    (fun _ _ => List.not_mem_nil) (fun _ hp => hinv.toAgrees.live hp) hinv.toAgrees.length_le
    hrange honce (fun _ _ _ => rfl)
  refine ⟨s', hs', List.append_nil (given _) ▸ hrec.agrees.linked, fun k p => ?_, hrec.ops,
    hrec.refused, hrec.binding⟩
  rw [hrec.handlers]
  exact ⟨fun hor => hor.resolve_left (by rintro ⟨⟩), .inr⟩

/-- After a suspend the two handlers have ports 2 and 6. -/
theorem recovered_two : ∃ s s' : EvtchnTable, s.Reached countingXen ∧ s.handlers 5 = some 1 ∧
    s.call countingXen .recoverFromSuspend = .ok s' ∧ s'.handlers 2 = some 0 ∧
    s'.handlers 6 = some 1 := by
  obtain ⟨s, hs, h2, h5, hchain, hops, hn0, hn1⟩ := two_reached
  obtain ⟨l, hinv⟩ := Reached.inv hs
  obtain ⟨tail, hlinked⟩ := hinv.linked
  obtain rfl : l = [1, 0] := hlinked.forward.unique hchain
  have hans : answers countingXen s.node s.ops [1, 0] = [(1, some 6), (0, some 2)] := by
    simp [hops, answers, hn1, hn0, answer, PortBinding.request, countingXen]
  obtain ⟨s', hs', -, hmem, -⟩ := recovered hs hlinked
    (by
      rw [hans]
      rintro p k hk
      rcases List.mem_pair.mp hk with heq | heq
      all_goals
        cases heq
        decide)
    (by
      rw [hans]
      decide)
  rw [hans] at hmem
  exact ⟨s, s', hs, h5, hs', (hmem 2 0).mpr (by decide), (hmem 6 1).mpr (by decide)⟩

end EvtchnTable
end V4v.Xenutil
