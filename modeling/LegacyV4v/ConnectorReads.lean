import LegacyV4v.FileContext
import LegacyV4v.StreamSocket

/-! # What other domains can do to a connector on Windows

A connector has a ring of its own, into which any domain may write.  Once it is connected,
`V4vProcessConnectorReads` drops what is from other domains: it takes a read out of the queue before
it looks at a message, keeps it when it has dropped the message, and puts it back if the ring runs
empty.  So the reads get what they would get without the other domains' messages.

While it is connecting, `V4vProcessPreConnectReads` expects the ACK as the first message.  Anything
else, from whatever domain, ends the attempt. -/
namespace V4v.Windows
open Linux (StreamHeader peekHeader streamMessage shfSyn shfAck shfRst)

/-- The device with the ring of a connector, and the RSTs that were sent. -/
structure Connector where
  device : Device
  ring : List Message
  resets : List SentReset

/-- How a round of the loop ends: with the IRP kept, with the IRP completed, or for good. -/
inductive Verdict where
  | retain
  | next
  | stop
  deriving DecidableEq

/-- A round of the loop: whether the message was taken from the ring, and what was done. -/
structure Round where
  verdict : Verdict
  consumed : Bool
  device : Device
  resets : List SentReset

/-- The IRPs that `V4vProcessPreConnectReads` takes. -/
def preConnectPeek (c : Nat) (state : FileState) : QPeek :=
  if state = .connecting then ⟨some c, peekStream, peekRead ||| peekAck, ⟨0, 0⟩⟩
  else ⟨some c, peekStream, peekRead ||| peekSyn, ⟨0, 0⟩⟩

/-- The flags of a SYN that was read: it sends the ACK. -/
def ackSwizzle (flags : PeekFlags) : PeekFlags :=
  flags &&& ~~~(peekRead ||| peekSyn) ||| (peekWrite ||| peekAck)

namespace Device

/-- Put a read back at the head of the queue, if the queue is not full. -/
def putBack (s : Device) (irp : Pending) : Device :=
  if s.queue.length = maxIrpCount then s.complete irp .quotaExceeded []
  else { s with queue := irp :: s.queue }

/-- One round of `V4vProcessConnectorReads`, with `irp` in hand and `m` the first message. -/
def connectorRound (s : Device) (c : Nat) (irp : Pending) (m : Message) : Round :=
  let x := s.contexts c
  if has irp.flags (peekSyn ||| peekAck) then
    ⟨.next, false, s.complete irp .invalidDeviceRequest [], []⟩
  else
    match peekHeader m with
    | none => ⟨.retain, true, s, []⟩
    | some (sh, data) =>
      let reset : List SentReset := if sh.has shfRst then [] else [⟨sh.conid, m.source⟩]
      -- a SYN or ACK with a payload is not answered
      let bareReset := if data = [] then reset else []
      if sh.has shfSyn then ⟨.retain, true, s, bareReset⟩
      else if sh.conid ≠ x.connId.toUInt32 then ⟨.retain, true, s, reset⟩
      else if x.sdst.domain ≠ m.source.domain then ⟨.retain, true, s, reset⟩
      else if sh.has shfAck then ⟨.retain, true, s, bareReset⟩
      else if sh.has shfRst then
        ⟨.stop, false, (s.disconnectStreamAndSignal c).complete irp .virtualCircuitClosed [], []⟩
      else if irp.length.toNat < data.length then
        -- the data stays in the ring
        ⟨.next, false, s.complete irp .bufferOverflow [], []⟩
      else ⟨.next, true, s.complete irp .success data, []⟩

/-- Disconnect, and complete the IRP in hand with an error. -/
def giveUp (s : Device) (c : Nat) (irp : Pending) (status : NtStatus) : Device :=
  (s.disconnectStreamAndSignal c).complete irp status []

/-- `V4vProcessPreConnectReads` with `irp` in hand, when it has consumed message `m`; the result says
whether the context is connected now.  `failed` is the status if the IRP of a SYN cannot be queued
again.  An IRP with `XENV4V_PEEK_IOCTL` is one of `IRP_MJ_DEVICE_CONTROL`. -/
def preConnectRound (s : Device) (c : Nat) (state : FileState) (failed : Option NtStatus)
    (irp : Pending) (m : Message) : Bool × Device :=
  let x := s.contexts c
  let ioctl := has irp.flags peekIoctl
  match state, peekHeader m with
  | .connecting, none => (false, s.giveUp c irp .deviceProtocolError)
  | .connecting, some (sh, _) =>
    if ioctl = false ∨ sh.conid ≠ x.connId.toUInt32 ∨ sh.has shfAck = false ∨
        x.sdst.domain ≠ m.source.domain then
      (false, s.giveUp c irp .deviceProtocolError)
    else (true, (s.setContext c { x with state := .connected }).complete irp .success [])
  | .waiting, none => (false, s.giveUp c irp .deviceProtocolError)
  | .waiting, some (sh, _) =>
    if ioctl = false ∨ sh.has shfSyn = false then (false, s.giveUp c irp .deviceProtocolError)
    else
      let s := s.setContext c { x with sdst := m.source, connId := sh.conid.toUInt64 }
      match failed with
      | none =>
        let irp := { irp with flags := ackSwizzle irp.flags, dst := m.source }
        (false, { s with queue := s.queue ++ [irp] })
      | some status => (false, s.giveUp c irp status)
  | _, _ => (false, s.complete irp .internalError [])

/-- The IRP that was kept, or the next one. -/
def nextRead (s : Device) (c : Nat) : Option Pending → Option (Pending × Device)
  | some irp => some (irp, s)
  | none => s.removeNextIrp (readPeek c)

variable {s s' : Device} {c : Nat} {irp : Pending} {m : Message}

/-- What a round can do: drop a message, complete the IRP, or disconnect. -/
theorem connectorRound_cases (s : Device) (c : Nat) (irp : Pending) (m : Message) :
    ((s.connectorRound c irp m).verdict = .retain ∧ (s.connectorRound c irp m).consumed = true ∧
        (s.connectorRound c irp m).device = s) ∨
      ((s.connectorRound c irp m).verdict = .next ∧
        ∃ status data, (s.connectorRound c irp m).device = s.complete irp status data) ∨
      (s.connectorRound c irp m).verdict = .stop := by
  generalize ho : s.connectorRound c irp m = o
  rw [connectorRound] at ho
  by_cases hread : has irp.flags (peekSyn ||| peekAck) = true
  · rw [if_pos hread] at ho
    exact ho ▸ .inr (.inl ⟨rfl, _, _, rfl⟩)
  rw [if_neg hread] at ho
  cases hpeek : peekHeader m with
  | none =>
    rw [hpeek] at ho
    exact ho ▸ .inl ⟨rfl, rfl, rfl⟩
  | some p =>
    obtain ⟨sh, data⟩ := p
    rw [hpeek] at ho
    dsimp only at ho
    by_cases hsyn : sh.has shfSyn = true
    · rw [if_pos hsyn] at ho
      exact ho ▸ .inl ⟨rfl, rfl, rfl⟩
    rw [if_neg hsyn] at ho
    by_cases hconid : sh.conid ≠ (s.contexts c).connId.toUInt32
    · rw [if_pos hconid] at ho
      exact ho ▸ .inl ⟨rfl, rfl, rfl⟩
    rw [if_neg hconid] at ho
    by_cases hdomain : (s.contexts c).sdst.domain ≠ m.source.domain
    · rw [if_pos hdomain] at ho
      exact ho ▸ .inl ⟨rfl, rfl, rfl⟩
    rw [if_neg hdomain] at ho
    by_cases hack : sh.has shfAck = true
    · rw [if_pos hack] at ho
      exact ho ▸ .inl ⟨rfl, rfl, rfl⟩
    rw [if_neg hack] at ho
    by_cases hrst : sh.has shfRst = true
    · rw [if_pos hrst] at ho
      exact ho ▸ .inr (.inr rfl)
    rw [if_neg hrst] at ho
    by_cases hsmall : irp.length.toNat < data.length
    · rw [if_pos hsmall] at ho
      exact ho ▸ .inr (.inl ⟨rfl, _, _, rfl⟩)
    · rw [if_neg hsmall] at ho
      exact ho ▸ .inr (.inl ⟨rfl, _, _, rfl⟩)

theorem connectorRound_retain (h : (s.connectorRound c irp m).verdict = .retain) :
    (s.connectorRound c irp m).consumed = true ∧ (s.connectorRound c irp m).device = s := by
  rcases connectorRound_cases s c irp m with ⟨-, hsame⟩ | ⟨hnext, -⟩ | hstop
  · exact hsame
  · rw [hnext] at h
    cases h
  · rw [hstop] at h
    cases h

theorem connectorRound_next (h : (s.connectorRound c irp m).verdict = .next) :
    ∃ status data, (s.connectorRound c irp m).device = s.complete irp status data := by
  rcases connectorRound_cases s c irp m with ⟨hretain, -⟩ | ⟨-, hdone⟩ | hstop
  · rw [hretain] at h
    cases h
  · exact hdone
  · rw [hstop] at h
    cases h

theorem nextRead_length {retained : Option Pending}
    (h : s.nextRead c retained = some (irp, s')) :
    s'.queue.length + 1 = s.queue.length + retained.toList.length := by
  cases retained with
  | some x =>
    obtain ⟨rfl, rfl⟩ := Prod.mk.inj (Option.some.inj h)
    rfl
  | none =>
    obtain ⟨-, l₁, l₂, hq, rfl, -⟩ := removeNextIrp_some h
    rw [hq]
    simp only [List.length_append, List.length_cons, Option.toList_none, List.length_nil]
    omega

end Device

namespace Connector

/-- `V4vProcessPreConnectReads`. -/
def processPreConnectReads (s : Connector) (c : Nat) (state : FileState)
    (failed : Option NtStatus) : Bool × Connector :=
  match s.ring with
  | [] => (false, s)
  | m :: rest =>
    match s.device.removeNextIrp (preConnectPeek c state) with
    | none => (false, s)
    | some (irp, device) =>
      let o := device.preConnectRound c state failed irp m
      (o.1, ⟨o.2, rest, s.resets⟩)

/-- The state behind a round, for message `m` in front of `rest`. -/
def afterRound (s : Connector) (o : Round) (m : Message) (rest : List Message) : Connector :=
  ⟨o.device, if o.consumed then rest else m :: rest, s.resets ++ o.resets⟩

/-- Every round makes this smaller. -/
def size (s : Connector) (retained : Option Pending) : Nat :=
  s.ring.length + s.device.queue.length + retained.toList.length

section
variable {s : Connector} {c : Nat} {retained : Option Pending} {irp : Pending} {device : Device}
  {m : Message} {rest : List Message}

theorem size_retain (hring : s.ring = m :: rest)
    (hread : s.device.nextRead c retained = some (irp, device))
    (h : (device.connectorRound c irp m).verdict = .retain) :
    (s.afterRound (device.connectorRound c irp m) m rest).size (some irp) < s.size retained := by
  have hlen := Device.nextRead_length hread
  obtain ⟨hconsumed, hdevice⟩ := Device.connectorRound_retain h
  rw [size, size, afterRound, hring, hconsumed, hdevice, if_pos rfl, List.length_cons,
    Option.toList_some, List.length_singleton]
  dsimp only
  omega

theorem size_next (hring : s.ring = m :: rest)
    (hread : s.device.nextRead c retained = some (irp, device))
    (h : (device.connectorRound c irp m).verdict = .next) :
    (s.afterRound (device.connectorRound c irp m) m rest).size none < s.size retained := by
  have hlen := Device.nextRead_length hread
  obtain ⟨status, data, hdevice⟩ := Device.connectorRound_next h
  have hrest : (if (device.connectorRound c irp m).consumed then rest else m :: rest).length ≤
      rest.length + 1 := by
    split
    · exact Nat.le_succ _
    · exact Nat.le_refl _
  rw [size, size, afterRound, hring, hdevice, List.length_cons, Option.toList_none,
    List.length_nil]
  dsimp only [Device.complete]
  omega

end

/-- `V4vProcessConnectorReads`, when `retained` was kept in the last round. -/
def processConnectorReads (s : Connector) (c : Nat) (retained : Option Pending) : Connector :=
  match hring : s.ring with
  | [] =>
    match retained with
    | none => s
    | some irp => { s with device := s.device.putBack irp }
  | m :: rest =>
    match hread : s.device.nextRead c retained with
    | none => s
    | some (irp, device) =>
      match h : (device.connectorRound c irp m).verdict with
      | .retain =>
        have := size_retain hring hread h
        processConnectorReads (s.afterRound (device.connectorRound c irp m) m rest) c (some irp)
      | .next =>
        have := size_next hring hread h
        processConnectorReads (s.afterRound (device.connectorRound c irp m) m rest) c none
      | .stop => s.afterRound (device.connectorRound c irp m) m rest
termination_by s.size retained

/-! ## What is from other domains -/

/-- The message is from the domain. -/
def fromDomain (d : DomId) (m : Message) : Bool := m.source.domain == d

/-- No read is one of the IOCTLs that belong before the stream. -/
def StreamReads (s : Device) (c : Nat) (retained : Option Pending) : Prop :=
  ∀ irp ∈ retained.toList ++ s.reads c, has irp.flags (peekSyn ||| peekAck) = false

/-- Context `c` cannot tell the devices apart: contexts are in the same state, the same IRPs were
completed in the same way, and the same reads wait, in their order. -/
structure Alike (c : Nat) (s t : Device) : Prop where
  contexts : s.contexts = t.contexts
  completed : s.completed = t.completed
  reads : s.reads c = t.reads c

section
variable {s t : Connector} {c : Nat} {d : DomId} {retained : Option Pending} {irp : Pending}
  {device : Device} {m : Message} {rest : List Message}

theorem Alike.refl (c : Nat) (s : Device) : Alike c s s := ⟨rfl, rfl, rfl⟩

theorem Alike.trans {s t u : Device} (h : Alike c s t) (h' : Alike c t u) : Alike c s u :=
  ⟨h.contexts.trans h'.contexts, h.completed.trans h'.completed, h.reads.trans h'.reads⟩

theorem processConnectorReads_nil (h : s.ring = []) : s.processConnectorReads c retained =
    match retained with
    | none => s
    | some irp => { s with device := s.device.putBack irp } := by
  have hdef := processConnectorReads.eq_def s c retained
  split at hdef
  · exact hdef
  · next hring =>
    rw [h] at hring
    cases hring

theorem processConnectorReads_none (h : s.device.nextRead c none = none) :
    s.processConnectorReads c none = s := by
  have hdef := processConnectorReads.eq_def s c none
  split at hdef
  · exact hdef
  · split at hdef
    · exact hdef
    · next hread =>
      rw [h] at hread
      cases hread

theorem processConnectorReads_cons (h : s.ring = m :: rest)
    (hread : s.device.nextRead c retained = some (irp, device)) :
    s.processConnectorReads c retained =
      match (device.connectorRound c irp m).verdict with
      | .retain =>
        processConnectorReads (s.afterRound (device.connectorRound c irp m) m rest) c (some irp)
      | .next =>
        processConnectorReads (s.afterRound (device.connectorRound c irp m) m rest) c none
      | .stop => s.afterRound (device.connectorRound c irp m) m rest := by
  have hdef := processConnectorReads.eq_def s c retained
  split at hdef
  · next hring =>
    rw [h] at hring
    cases hring
  · next hring =>
    rw [h] at hring
    cases hring
    split at hdef
    · next hread' =>
      rw [hread] at hread'
      cases hread'
    · next hread' =>
      rw [hread] at hread'
      cases hread'
      split at hdef
      all_goals
        next hverdict =>
        rw [hverdict]
        exact hdef

/-- What is in hand and what waits, as it was. -/
theorem nextRead_some {s device : Device} (h : s.nextRead c retained = some (irp, device)) :
    device.contexts = s.contexts ∧ device.completed = s.completed ∧
      irp :: device.reads c = retained.toList ++ s.reads c := by
  cases retained with
  | some x =>
    obtain ⟨rfl, rfl⟩ := Prod.mk.inj (Option.some.inj h)
    exact ⟨rfl, rfl, rfl⟩
  | none =>
    have hreads := Device.reads_of_removeNextIrp h
    obtain ⟨-, l₁, l₂, -, rfl, -⟩ := Device.removeNextIrp_some h
    exact ⟨rfl, rfl, hreads.symm⟩

/-- A message of another domain is dropped, whatever it is. -/
theorem connectorRound_foreign {s : Device} (hirp : has irp.flags (peekSyn ||| peekAck) = false)
    (hm : (s.contexts c).sdst.domain ≠ m.source.domain) :
    (s.connectorRound c irp m).verdict = .retain := by
  rw [Device.connectorRound]
  dsimp only
  rw [hirp, if_neg Bool.false_ne_true]
  split
  · rfl
  · split
    · rfl
    · split
      · rfl
      · rfl

/-- A read that was taken for nothing goes back where it was among the reads. -/
theorem alike_putBack {s : Device} (hread : s.nextRead c none = some (irp, device))
    (hbound : s.queue.length ≤ maxIrpCount) : Alike c (device.putBack irp) s := by
  have hlen := Device.nextRead_length hread
  obtain ⟨hcontexts, hcompleted, hreads⟩ := nextRead_some hread
  have htest := (Device.removeNextIrp_some hread).1
  have hroom : ¬ device.queue.length = maxIrpCount := by
    rw [Option.toList_none, List.length_nil] at hlen
    omega
  rw [Device.putBack, if_neg hroom]
  refine ⟨hcontexts, hcompleted, ?_⟩
  rw [← List.nil_append (s.reads c), ← Option.toList_none, ← hreads]
  exact List.filter_cons_of_pos htest

/-- It makes no difference whether the next read is in hand or in the queue. -/
theorem alike_nextRead (hread : s.device.nextRead c retained = some (irp, device))
    (hbound : s.device.queue.length ≤ maxIrpCount) :
    Alike c (processConnectorReads { s with device := device } c (some irp)).device
      (s.processConnectorReads c retained).device := by
  by_cases hring : s.ring = []
  · rw [processConnectorReads_nil (s := { s with device := device }) hring,
      processConnectorReads_nil hring]
    cases retained with
    | none => exact alike_putBack hread hbound
    | some x =>
      obtain ⟨rfl, rfl⟩ := Prod.mk.inj (Option.some.inj hread)
      exact .refl c _
  · obtain ⟨m, rest, hcons⟩ := List.exists_cons_of_ne_nil hring
    rw [processConnectorReads_cons (s := { s with device := device }) hcons rfl,
      processConnectorReads_cons hcons hread]
    exact .refl c _

/-- What the pass keeps: the reads are of the stream, and the one in hand fits in the queue. -/
structure Streaming (c : Nat) (d : DomId) (s : Device) (retained : Option Pending) : Prop where
  reads : StreamReads s c retained
  bound : s.queue.length + retained.toList.length ≤ maxIrpCount
  domain : d = (s.contexts c).sdst.domain

theorem Streaming.flags {s : Device} (h : Streaming c d s (some irp)) :
    has irp.flags (peekSyn ||| peekAck) = false :=
  h.reads irp List.mem_cons_self

theorem Streaming.nextRead {s : Device} (h : Streaming c d s retained)
    (hread : s.nextRead c retained = some (irp, device)) : Streaming c d device (some irp) := by
  obtain ⟨hcontexts, -, hreads⟩ := nextRead_some hread
  have hlen := Device.nextRead_length hread
  have hbound := h.bound
  refine ⟨?_, ?_, ?_⟩
  · rw [StreamReads, Option.toList_some, List.singleton_append, hreads]
    exact h.reads
  · rw [Option.toList_some, List.length_singleton, hlen]
    exact hbound
  · rw [hcontexts]
    exact h.domain

theorem Streaming.complete {s : Device} (h : Streaming c d s (some irp)) (status : NtStatus)
    (data : List UInt8) : Streaming c d (s.complete irp status data) none :=
  ⟨fun irp' hirp' => h.reads irp' (List.mem_cons_of_mem irp hirp'),
    Nat.le_trans (Nat.le_add_right _ _) h.bound, h.domain⟩

/-- **Connected: the messages of other domains make no difference.** -/
theorem processConnectorReads_purge (hs : Streaming c d s.device retained)
    (hdevice : t.device = s.device) (hring : t.ring = s.ring.filter (fromDomain d)) :
    Alike c (s.processConnectorReads c retained).device
      (t.processConnectorReads c retained).device := by
  induction hn : s.size retained using Nat.strong_induction_on generalizing s t retained with
  | _ n ih =>
  subst hn
  by_cases hnil : s.ring = []
  · -- nothing is left
    have hnil' : t.ring = [] := by rw [hring, hnil, List.filter_nil]
    rw [processConnectorReads_nil hnil, processConnectorReads_nil hnil']
    cases retained <;> dsimp only <;> rw [hdevice] <;> exact .refl c _
  obtain ⟨m, rest, hcons⟩ := List.exists_cons_of_ne_nil hnil
  cases hread : s.device.nextRead c retained with
  | none =>
    cases retained with
    | some x => cases hread
    | none =>
      rw [processConnectorReads_none hread, processConnectorReads_none (hdevice ▸ hread), hdevice]
      exact .refl c _
  | some p =>
    obtain ⟨irp, device⟩ := p
    have hnext := hs.nextRead hread
    have hread' : t.device.nextRead c retained = some (irp, device) := hdevice ▸ hread
    cases hm : fromDomain d m with
    | false =>
      -- it is dropped with the read in hand
      have hne : (device.contexts c).sdst.domain ≠ m.source.domain :=
        hnext.domain ▸ (beq_eq_false_iff_ne.mp hm).symm
      have hverdict := connectorRound_foreign hnext.flags hne
      obtain ⟨hconsumed, hsame⟩ := Device.connectorRound_retain hverdict
      have hbound : t.device.queue.length ≤ maxIrpCount := by
        rw [hdevice]
        exact Nat.le_trans (Nat.le_add_right _ _) hs.bound
      rw [processConnectorReads_cons hcons hread, hverdict]
      refine Alike.trans (ih _ (size_retain hcons hread hverdict) ?_
        (t := { t with device := device }) ?_ ?_ rfl) (alike_nextRead hread' hbound)
      · rw [afterRound, hsame]
        exact hnext
      · rw [afterRound, hsame]
      · rw [afterRound, hconsumed, if_pos rfl, hring, hcons,
          List.filter_cons_of_neg (by rw [hm]; exact Bool.false_ne_true)]
    | true =>
      have hcons' : t.ring = m :: rest.filter (fromDomain d) := by
        rw [hring, hcons, List.filter_cons_of_pos hm]
      have hafter : (t.afterRound (device.connectorRound c irp m) m (rest.filter (fromDomain d))).ring =
          (s.afterRound (device.connectorRound c irp m) m rest).ring.filter (fromDomain d) := by
        simp only [afterRound]
        split
        · rfl
        · rw [List.filter_cons_of_pos hm]
      rw [processConnectorReads_cons hcons hread, processConnectorReads_cons hcons' hread']
      cases hverdict : (device.connectorRound c irp m).verdict with
      | retain =>
        obtain ⟨-, hsame⟩ := Device.connectorRound_retain hverdict
        refine ih _ (size_retain hcons hread hverdict) ?_ rfl hafter rfl
        rw [afterRound, hsame]
        exact hnext
      | next =>
        obtain ⟨status, data, hdone⟩ := Device.connectorRound_next hverdict
        refine ih _ (size_next hcons hread hverdict) ?_ rfl hafter rfl
        rw [afterRound, hdone]
        exact hnext.complete status data
      | stop => exact .refl c _

/-- **Connecting: a message of another domain ends the attempt**, if an IRP waits. -/
theorem processPreConnectReads_foreign (failed : Option NtStatus) (hring : s.ring = m :: rest)
    (hm : fromDomain (s.device.contexts c).sdst.domain m = false) :
    s.processPreConnectReads c .connecting failed =
      match s.device.removeNextIrp (preConnectPeek c .connecting) with
      | none => (false, s)
      | some (irp, device) => (false, ⟨device.giveUp c irp .deviceProtocolError, rest, s.resets⟩) := by
  rw [processPreConnectReads, hring]
  dsimp only
  cases hnext : s.device.removeNextIrp (preConnectPeek c .connecting) with
  | none => rfl
  | some p =>
    obtain ⟨irp, device⟩ := p
    obtain ⟨-, l₁, l₂, -, rfl, -⟩ := Device.removeNextIrp_some hnext
    have hne : (s.device.contexts c).sdst.domain ≠ m.source.domain :=
      (beq_eq_false_iff_ne.mp hm).symm
    dsimp only [Device.preConnectRound]
    cases peekHeader m with
    | none => rfl
    | some p =>
      dsimp only
      rw [if_pos (.inr (.inr (.inr hne)))]

/-- Only the first message counts. -/
theorem processPreConnectReads_rest (state : FileState) (failed : Option NtStatus)
    (rest' : List Message) (hring : s.ring = m :: rest) :
    (processPreConnectReads { s with ring := m :: rest' } c state failed).2.device =
      (s.processPreConnectReads c state failed).2.device := by
  rw [processPreConnectReads, processPreConnectReads, hring]
  dsimp only
  cases s.device.removeNextIrp (preConnectPeek c state) <;> rfl

end

/-- **What other domains can do to a connector.**  Once it is connected, nothing: state, completed
IRPs and waiting reads are as without their messages.  While it is connecting, a message of theirs
that is not the first makes no difference; the first one ends the attempt, if an IRP waits for it. -/
theorem connector_unaffected (s : Connector) (c : Nat) (hbound : s.device.queue.length ≤ maxIrpCount) :
    (StreamReads s.device c none → Alike c (s.processConnectorReads c none).device
      (processConnectorReads { s with
        ring := s.ring.filter (fromDomain (s.device.contexts c).sdst.domain) } c none).device) ∧
    ∀ m rest failed, s.ring = m :: rest →
      (∀ rest', (processPreConnectReads { s with ring := m :: rest' } c .connecting failed).2.device =
        (s.processPreConnectReads c .connecting failed).2.device) ∧
      (fromDomain (s.device.contexts c).sdst.domain m = false →
        s.processPreConnectReads c .connecting failed =
          match s.device.removeNextIrp (preConnectPeek c .connecting) with
          | none => (false, s)
          | some (irp, device) =>
            (false, ⟨device.giveUp c irp .deviceProtocolError, rest, s.resets⟩)) :=
  ⟨fun hclean => processConnectorReads_purge ⟨hclean, hbound, rfl⟩ rfl rfl, fun _ _ failed hring =>
    ⟨fun rest' => processPreConnectReads_rest .connecting failed rest' hring,
      processPreConnectReads_foreign failed hring⟩⟩

/-- A connector to port 5 of domain 2, with the IRP that waits. -/
def lonelyConnector (state : FileState) (flags : PeekFlags) (ring : List Message) : Connector where
  device :=
    { contexts := fun _ => ⟨state, .connector, ⟨5, 2⟩, 7, 0, [], none, []⟩
      contextList := [0]
      queue := [⟨1, flags, 16, 0, ⟨0, 0⟩⟩]
      stashed := fun _ => 0
      completed := [] }
  ring := ring
  resets := []

/-- A message of domain 3 in front of the peer's data makes no difference to the read. -/
theorem connector_unaffected_read :
    Alike 0 (processConnectorReads (lonelyConnector .connected (peekStream ||| peekRead)
        [⟨⟨9, 3⟩, 0, []⟩, streamMessage ⟨5, 2⟩ ⟨0, 7⟩ [1]]) 0 none).device
      (processConnectorReads (lonelyConnector .connected (peekStream ||| peekRead)
        [streamMessage ⟨5, 2⟩ ⟨0, 7⟩ [1]]) 0 none).device :=
  (connector_unaffected (lonelyConnector .connected (peekStream ||| peekRead)
    [⟨⟨9, 3⟩, 0, []⟩, streamMessage ⟨5, 2⟩ ⟨0, 7⟩ [1]]) 0 (by decide)).1 (by
      intro irp hirp
      have hreads : irp ∈ [(⟨1, peekStream ||| peekRead, 16, 0, ⟨0, 0⟩⟩ : Pending)] := hirp
      rw [List.mem_singleton.mp hreads]
      decide)

/-- Before the ACK it ends the connection attempt. -/
theorem stranger_ends_connect :
    ¬ ∀ (s : Connector) (c : Nat) (m : Message) (rest : List Message),
      (s.device.contexts c).state = .connecting → s.ring = m :: rest →
      fromDomain (s.device.contexts c).sdst.domain m = false →
      ((s.processPreConnectReads c .connecting none).2.device.contexts c).state = .connecting ∧
        (s.processPreConnectReads c .connecting none).2.device.completed = s.device.completed := by
  intro h
  have hstate := (h (lonelyConnector .connecting
    (peekStream ||| peekRead ||| peekAck ||| peekIoctl) [⟨⟨9, 3⟩, 0, []⟩]) 0 ⟨⟨9, 3⟩, 0, []⟩ [] rfl rfl
    (by decide)).1
  exact absurd hstate (by decide)

end Connector

end V4v.Windows
