import LegacyV4v.SpaceAnnounce

/-! # One message per step of the drain loops

`connector_interrupt` and `listener_interrupt` on the ring in memory, as the source has them: each branch
takes the message out by a read of its own, into a buffer of its own.  `v4v_interrupt_rx` calls them for as
long as the ring is not empty and they return 0, with a lock held; so a branch that takes nothing out and
returns 0 would never let it go. -/
namespace V4v.Linux
open MachineWord CyclicBuffer

/-- What a handler returns, the ring, the RST that it asks for, and how many allocations still succeed. -/
structure ShmHandled where
  ret : Int
  ring : ShmRing
  reset : Option Reset
  alloc : Option Nat

/-- What the part of a handler returns that deals with one socket. -/
structure ShmSockOut where
  ret : Int
  mem : PageMem
  sock : Sock
  reset : Option Reset
  alloc : Option Nat

/-- What a round of `v4v_interrupt_rx` leaves of a ring. -/
structure ShmPass where
  ring : ShmRing
  resets : List Reset
  alloc : Option Nat

/-- `copy_into_pending_recv`, of a message of `len` bytes. -/
def copyIntoPending (m : PageMem) (len : Nat) (p : Sock) (alloc : Option Nat) : ShmSockOut :=
  if p.pendingRecv.length > maxPendingRecvs then ⟨-1, m, { p with full := true }, none, alloc⟩
  else if (kmalloc alloc).1 = false then ⟨-1, m, p, none, (kmalloc alloc).2⟩
  else
    let o := copyOut m len true
    ⟨0, o.mem,
      { p with
        pendingRecv := p.pendingRecv ++
          [⟨o.source, StreamHeader.ofBytes o.buf, o.buf.drop sizeofStreamHeader, 0⟩]
        full := false },
      none, (kmalloc alloc).2⟩

/-- `acceptor_interrupt`, with the header `sh` and the length `msgLen` that were peeked. -/
def acceptorOnMem (id : RingId) (p : Sock) (m : PageMem) (sh : StreamHeader) (msgLen : Nat)
    (alloc : Option Nat) : ShmSockOut :=
  if sh.has (shfSyn ||| shfAck) then
    let o := copyOut m sizeofStreamHeader true
    ⟨0, o.mem, p,
      if o.ret = sizeofStreamHeader then some ⟨id, (StreamHeader.ofBytes o.buf).conid, o.source⟩ else none,
      alloc⟩
  else if sh.has shfRst then
    -- consume the RST
    let o := copyOut m sizeofStreamHeader true
    ⟨0, o.mem, if o.ret = sizeofStreamHeader then acceptorStateMachine p (.ofBytes o.buf) else p, none, alloc⟩
  else copyIntoPending m msgLen p alloc

namespace ShmRing

/-- `connector_interrupt`. -/
def connectorInterrupt (x : ShmRing) (alloc : Option Nat) : ShmHandled :=
  match x.ring.sponsor with
  | none => ⟨-1, x, none, alloc⟩
  | some p =>
    -- peek the header
    let o := copyOut x.mem sizeofStreamHeader false
    if o.ret = -1 then ⟨0, { x with mem := recoverRing x.mem }, none, alloc⟩
    else if o.protocol ≠ protoStream ∨ o.ret < sizeofStreamHeader then
      -- wrong protocol, bin it
      ⟨0, { x with mem := (copyOut x.mem 0 true).mem }, none, alloc⟩
    else
      let sh := StreamHeader.ofBytes o.buf
      let again := copyOut x.mem sizeofStreamHeader true
      let sh' := StreamHeader.ofBytes again.buf
      if sh.has shfSyn then
        ⟨0, { x with mem := again.mem },
          if again.ret = sizeofStreamHeader then some ⟨x.ring.id, sh'.conid, again.source⟩ else none, alloc⟩
      else if sh.conid ≠ p.conid then
        ⟨0, { x with mem := again.mem }, some ⟨x.ring.id, sh'.conid, again.source⟩, alloc⟩
      else if sh.has (shfAck ||| shfRst) then
        if again.ret = sizeofStreamHeader then
          let (rst, p') := connectorStateMachine p sh'
          ⟨0, { ring := { x.ring with sponsor := some p' }, mem := again.mem },
            if rst then some ⟨x.ring.id, sh'.conid, again.source⟩ else none, alloc⟩
        else ⟨0, { x with mem := again.mem }, none, alloc⟩
      else
        let c := copyIntoPending x.mem o.ret.toNat p alloc
        ⟨c.ret, { ring := { x.ring with sponsor := some c.sock }, mem := c.mem }, none, c.alloc⟩

/-- `listener_interrupt`. -/
def listenerInterrupt (x : ShmRing) (alloc : Option Nat) : ShmHandled :=
  -- peek the header
  let o := copyOut x.mem sizeofStreamHeader false
  if o.ret = -1 then ⟨0, { x with mem := recoverRing x.mem }, none, alloc⟩
  else if o.protocol ≠ protoStream ∨ o.ret < sizeofStreamHeader then
    -- wrong protocol, bin it
    ⟨0, { x with mem := (copyOut x.mem 0 true).mem }, none, alloc⟩
  else
    let sh := StreamHeader.ofBytes o.buf
    let consumed := (copyOut x.mem sizeofStreamHeader true).mem
    match x.ring.privates.find? (·.isPeer o.source sh.conid) with
    | some p =>
      let a := acceptorOnMem x.ring.id p x.mem sh o.ret.toNat alloc
      let privates := x.ring.privates.replaceF fun q => if q.isPeer o.source sh.conid then some a.sock else none
      ⟨a.ret, { ring := { x.ring with privates := privates }, mem := a.mem }, a.reset, a.alloc⟩
    | none =>
      if sh.has shfRst then
        ⟨0, { ring := { x.ring with sponsor := x.ring.sponsor.map (evictSyn sh.conid) }, mem := consumed },
          none, alloc⟩
      else if sh.has shfSyn then
        -- SYN to a new connexion
        match x.ring.sponsor with
        | none => ⟨0, { x with mem := consumed }, none, alloc⟩
        | some p =>
          if o.ret ≠ sizeofStreamHeader then ⟨0, { x with mem := consumed }, none, alloc⟩
          else
            let c := copyIntoPending x.mem o.ret.toNat p alloc
            ⟨c.ret, { ring := { x.ring with sponsor := some c.sock }, mem := c.mem }, none, c.alloc⟩
      else
        -- data for an unknown destination
        ⟨0, { x with mem := consumed }, some ⟨x.ring.id, sh.conid, o.source⟩, alloc⟩

/-- `while (tx_ptr != rx_ptr && !handler (r))`, for as many rounds as there is fuel. -/
def drain (handler : ShmRing → Option Nat → ShmHandled) : Nat → ShmRing → Option Nat → Option ShmPass
  | 0, _, _ => none
  | fuel + 1, x, alloc =>
    if drained x.mem then some ⟨x, [], alloc⟩
    else
      let o := handler x alloc
      if o.ret ≠ 0 then some ⟨o.ring, o.reset.toList, o.alloc⟩
      else (drain handler fuel o.ring o.alloc).map fun out => { out with resets := o.reset.toList ++ out.resets }

/-- One round of the loop in `v4v_interrupt_rx`. -/
def interruptRx (fuel : Nat) (x : ShmRing) (alloc : Option Nat) : Option ShmPass :=
  if drained x.mem then some ⟨x, [], alloc⟩
  else
    match x.ring.type with
    | .idle => some ⟨{ x with mem := (copyOut x.mem 1 true).mem }, [], alloc⟩
    | .dgram => some ⟨x, [], alloc⟩
    | .connector => x.drain connectorInterrupt fuel alloc
    | .listener => x.drain listenerInterrupt fuel alloc

end ShmRing

/-! ## The unread bytes -/

/-- The pages show length `l`, `rx_ptr` `p` and `tx_ptr` `q`, as they are in a ring in use. -/
structure Ready (m : PageMem) (l p q : Nat) : Prop where
  len : read m.byte offsetofLen 4 = l
  rx : read m.byte offsetofRxPtr 4 = p
  tx : read m.byte offsetofTxPtr 4 = q
  len_mod : l % 16 = 0
  small : l ≤ 2147483648
  rx_lt : p < l
  rx_mod : p % 16 = 0
  tx_lt : q < l

/-- `len` in the header of the message at position `p`. -/
def lenAt (m : PageMem) (p : Nat) : Nat := (readHeader m.byte (sizeofRing + p)).len.toNat

/-- A message of `n` payload bytes stands at `p`, and the unread bytes have all of it. -/
def WellFormed (m : PageMem) (l p q n : Nat) : Prop :=
  lenAt m p = sizeofMessageHeader + n ∧ sizeofMessageHeader + n ≤ distance l p q

/-- The unread bytes end in the middle of the message at `p`. -/
def Truncated (m : PageMem) (l p q : Nat) : Prop :=
  distance l p q < sizeofMessageHeader ∨ distance l p q < lenAt m p

/-- Where the message behind one of `n` payload bytes stands. -/
def behind (l p n : Nat) : Nat := advance l p (sizeofMessageHeader + (n + 15) / 16 * 16)

/-- From `p` on there are well-formed messages up to `tx_ptr`, or up to a truncated one. -/
inductive Unread (m : PageMem) (l q : Nat) : Nat → Prop
  | none : Unread m l q q
  | message {p n : Nat} : WellFormed m l p q n → Unread m l q (behind l p n) → Unread m l q p
  | truncated {p : Nat} : p ≠ q → Truncated m l p q → Unread m l q p

/-- **What a call of a handler does to the ring.**  If it returns 0, `rx_ptr` has moved past the message at
the head, or the head is truncated and the ring is empty.  Otherwise it returns -1, and the ring is as it was. -/
structure OneMessage (m : PageMem) (l p q : Nat) (o : ShmHandled) : Prop where
  ret : o.ret = 0 ∨ o.ret = -1
  taken : o.ret = 0 →
    (∃ n, WellFormed m l p q n ∧ o.ring.mem = m.storeWord offsetofRxPtr (behind l p n)) ∨
      Truncated m l p q ∧ drained o.ring.mem ∧ o.ring.mem = m.storeWord offsetofRxPtr q
  left : o.ret = -1 → o.ring.mem = m

section
variable {m : PageMem} {l p q n t : Nat} {x : ShmRing} {alloc : Option Nat} {consume : Bool}

/-! ## Reads -/

/-- The payload of the message at `p`. -/
def payloadAt (m : PageMem) (l p n : Nat) : List UInt8 :=
  (List.range n).map fun i => m.byte (sizeofRing + advance l p (sizeofMessageHeader + i))

theorem Ready.copyOut_message (h : Ready m l p q) (hw : WellFormed m l p q n) :
    copyOut m t consume = ⟨n, (readHeader m.byte (sizeofRing + p)).source,
      (readHeader m.byte (sizeofRing + p)).protocol, (payloadAt m l p n).take t,
      if consume then m.storeWord offsetofRxPtr (behind l p n) else m⟩ := by
  rw [copyOut_head h.len h.len_mod h.small h.rx h.rx_lt h.rx_mod h.tx h.tx_lt rfl hw.1 hw.2 consume, behind,
    payloadAt, ← List.map_take, List.take_range]

theorem Ready.copyOut_truncated (h : Ready m l p q) (ht : Truncated m l p q) :
    copyOut m t consume = ⟨-1, ⟨0, 0⟩, 0, [], m⟩ := by
  have hb := ringBytesToRead_eq h.len h.rx h.small h.rx_lt h.tx h.tx_lt
  rw [copyOut, hb]
  dsimp only
  rw [h.rx]
  rcases ht with ht | ht
  · rw [if_pos ht]
  · split
    · rfl
    · exact if_pos ht

/-! ## The handlers on lists of messages -/

/-- The well-formed message at `p`. -/
def messageAt (m : PageMem) (l p n : Nat) : Message :=
  ⟨(readHeader m.byte (sizeofRing + p)).source, (readHeader m.byte (sizeofRing + p)).protocol, payloadAt m l p n⟩

/-- What a handler on lists makes of the message at the head, for the ring in memory. -/
def ShmRing.withHead (x : ShmRing) (moved : PageMem) (o : RingOut) : ShmHandled :=
  ⟨o.ret, ⟨{ o.ring with queue := x.ring.queue }, if o.ring.queue.isEmpty then moved else x.mem⟩, o.reset, o.mem⟩

theorem payloadAt_length : (payloadAt m l p n).length = n := by
  rw [payloadAt, List.length_map, List.length_range]

theorem StreamHeader.ofBytes_take (bs : List UInt8) :
    StreamHeader.ofBytes (bs.take sizeofStreamHeader) = .ofBytes bs := by
  rw [ofBytes, ofBytes, List.take_take, List.drop_take, List.take_take]
  rfl

theorem onFirst_eq_find (sel : Sock → Bool) (f : Sock → SockOut) (ps : List Sock) :
    onFirst sel f ps = (ps.find? sel).map fun s =>
      (f s, ps.replaceF fun q => if sel q then some (f s).sock else none) := by
  induction ps with
  | nil => rfl
  | cons s ps ih =>
    rw [onFirst, ih]
    cases hs : sel s with
    | true => simp [hs]
    | false =>
      cases hfind : ps.find? sel with
      | none => simp [hs, hfind]
      | some t => simp [hs, hfind]

/-- The header that is peeked. -/
theorem peekHeader_messageAt : peekHeader (messageAt m l p n) =
    if (messageAt m l p n).protocol ≠ protoStream ∨ (n : Int) < sizeofStreamHeader then none
    else some (.ofBytes (payloadAt m l p n), (payloadAt m l p n).drop sizeofStreamHeader) := by
  have hlen : (messageAt m l p n).payload.length = n := payloadAt_length
  rw [peekHeader, hlen]
  simp only [Int.ofNat_lt]
  rfl

/-- What is behind the header. -/
theorem drop_eq_nil_iff (hlong : ¬ (n : Int) < sizeofStreamHeader) :
    (payloadAt m l p n).drop sizeofStreamHeader = [] ↔ (n : Int) = sizeofStreamHeader := by
  rw [List.drop_eq_nil_iff, payloadAt_length]
  omega

theorem copyIntoPending_eq (h : Ready m l p q) (hw : WellFormed m l p q n) (s : Sock) :
    copyIntoPending m n s alloc =
      let c := copyIntoPendingRecv [messageAt m l p n] (messageAt m l p n).source
        (.ofBytes (payloadAt m l p n)) ((payloadAt m l p n).drop sizeofStreamHeader) s alloc
      ⟨c.ret, if c.queue.isEmpty then m.storeWord offsetofRxPtr (behind l p n) else m, c.sock, c.reset,
        c.mem⟩ := by
  rw [copyIntoPending, copyIntoPendingRecv]
  split
  · rfl
  · split
    · rfl
    · rw [h.copyOut_message hw, List.take_of_length_le payloadAt_length.le]
      rfl

/-- `connector_interrupt` in memory does what it does on a list. -/
theorem connectorInterrupt_eq (h : Ready x.mem l p q) (hw : WellFormed x.mem l p q n) :
    x.connectorInterrupt alloc = x.withHead (x.mem.storeWord offsetofRxPtr (behind l p n))
      (connectorInterrupt { x.ring with queue := [messageAt x.mem l p n] } alloc) := by
  have hread : ∀ t consume, copyOut x.mem t consume = ⟨n, (messageAt x.mem l p n).source,
      (messageAt x.mem l p n).protocol, (payloadAt x.mem l p n).take t,
      if consume then x.mem.storeWord offsetofRxPtr (behind l p n) else x.mem⟩ :=
    fun _ _ => h.copyOut_message hw
  obtain ⟨⟨id, type, sponsor, privates, queue⟩, mem⟩ := x
  rw [ShmRing.connectorInterrupt, connectorInterrupt]
  cases sponsor with
  | none => rfl
  | some s =>
    have hret : ¬ (n : Int) = -1 := by omega
    simp only [hread, hret, if_false, peekHeader_messageAt, StreamHeader.ofBytes_take]
    by_cases hbin : (messageAt mem l p n).protocol ≠ protoStream ∨ (n : Int) < sizeofStreamHeader
    · simp only [if_pos hbin]
      rfl
    · simp only [if_neg hbin, drop_eq_nil_iff (not_or.mp hbin).2]
      split
      · rfl
      · split
        · rfl
        · split
          · split
            · rfl
            · rfl
          · simp only [Int.toNat_natCast, copyIntoPending_eq h hw]
            rfl

/-- `acceptor_interrupt` in memory does what it does on a list. -/
theorem acceptorOnMem_eq (h : Ready m l p q) (hw : WellFormed m l p q n)
    (hlong : ¬ (n : Int) < sizeofStreamHeader) (id : RingId) (s : Sock) :
    acceptorOnMem id s m (.ofBytes (payloadAt m l p n)) n alloc =
      let c := acceptorInterrupt id s (messageAt m l p n) [] (.ofBytes (payloadAt m l p n))
        ((payloadAt m l p n).drop sizeofStreamHeader) alloc
      ⟨c.ret, if c.queue.isEmpty then m.storeWord offsetofRxPtr (behind l p n) else m, c.sock, c.reset,
        c.mem⟩ := by
  rw [acceptorOnMem, acceptorInterrupt]
  simp only [h.copyOut_message hw, StreamHeader.ofBytes_take, drop_eq_nil_iff hlong]
  split
  · rfl
  · split
    · rfl
    · exact copyIntoPending_eq h hw s

/-- `listener_interrupt` in memory does what it does on a list. -/
theorem listenerInterrupt_eq (h : Ready x.mem l p q) (hw : WellFormed x.mem l p q n) :
    x.listenerInterrupt alloc = x.withHead (x.mem.storeWord offsetofRxPtr (behind l p n))
      (listenerInterrupt { x.ring with queue := [messageAt x.mem l p n] } alloc) := by
  have hread : ∀ t consume, copyOut x.mem t consume = ⟨n, (messageAt x.mem l p n).source,
      (messageAt x.mem l p n).protocol, (payloadAt x.mem l p n).take t,
      if consume then x.mem.storeWord offsetofRxPtr (behind l p n) else x.mem⟩ :=
    fun _ _ => h.copyOut_message hw
  obtain ⟨⟨id, type, sponsor, privates, queue⟩, mem⟩ := x
  have hret : ¬ (n : Int) = -1 := by omega
  rw [ShmRing.listenerInterrupt, listenerInterrupt]
  simp only [hread, hret, if_false, peekHeader_messageAt, StreamHeader.ofBytes_take]
  by_cases hbin : (messageAt mem l p n).protocol ≠ protoStream ∨ (n : Int) < sizeofStreamHeader
  · simp only [if_pos hbin]
    rfl
  · have hlong := (not_or.mp hbin).2
    simp only [if_neg hbin, onFirst_eq_find, Int.toNat_natCast]
    cases privates.find? fun s => s.isPeer (messageAt mem l p n).source
        (StreamHeader.ofBytes (payloadAt mem l p n)).conid with
    | some s =>
      simp only [acceptorOnMem_eq h hw hlong]
      rfl
    | none =>
      dsimp only [Option.map_none]
      split
      · rfl
      · split
        · cases sponsor with
          | none => rfl
          | some s =>
            simp only [ne_eq, drop_eq_nil_iff hlong, copyIntoPending_eq h hw]
            split
            · rfl
            · rfl
        · rfl

/-! ## One call -/

/-- The message at the head has been taken out, or nothing has been done. -/
def Takes (m : PageMem) (l p n : Nat) (ret : Int) (m' : PageMem) : Prop :=
  ret = 0 ∧ m' = m.storeWord offsetofRxPtr (behind l p n) ∨ ret = -1 ∧ m' = m

/-- A handler on lists takes the message, or leaves it. -/
theorem withHead_takes {o : RingOut} {y : Message}
    (ho : o.ret = 0 ∧ o.ring.queue = [] ∨ o.ret = -1 ∧ o.reset = none ∧ o.ring.queue = [y]) :
    Takes x.mem l p n (x.withHead (x.mem.storeWord offsetofRxPtr (behind l p n)) o).ret
      (x.withHead (x.mem.storeWord offsetofRxPtr (behind l p n)) o).ring.mem := by
  rcases ho with ⟨hret, hqueue⟩ | ⟨hret, -, hqueue⟩
  · refine .inl ⟨hret, ?_⟩
    rw [ShmRing.withHead, hqueue]
    rfl
  · refine .inr ⟨hret, ?_⟩
    rw [ShmRing.withHead, hqueue]
    rfl

/-- What `connector_interrupt` does with a well-formed message. -/
theorem connectorInterrupt_takes (h : Ready x.mem l p q) (hw : WellFormed x.mem l p q n) :
    Takes x.mem l p n (x.connectorInterrupt alloc).ret (x.connectorInterrupt alloc).ring.mem := by
  rw [connectorInterrupt_eq h hw]
  cases hs : x.ring.sponsor with
  | none =>
    refine withHead_takes (y := messageAt x.mem l p n) (.inr ?_)
    rw [connectorInterrupt, hs]
    exact ⟨rfl, rfl, rfl⟩
  | some s =>
    have hcase := connector_cases (r := { x.ring with queue := [messageAt x.mem l p n] }) hs rfl alloc
    exact withHead_takes hcase.consumed

/-- What `listener_interrupt` does with a well-formed message. -/
theorem listenerInterrupt_takes (h : Ready x.mem l p q) (hw : WellFormed x.mem l p q n) :
    Takes x.mem l p n (x.listenerInterrupt alloc).ret (x.listenerInterrupt alloc).ring.mem := by
  rw [listenerInterrupt_eq h hw]
  have hcase := listener_cases (r := { x.ring with queue := [messageAt x.mem l p n] }) rfl alloc
  exact withHead_takes hcase.consumed

/-- A truncated message: `recover_ring`, unless there is no sponsor. -/
theorem connectorInterrupt_truncated (h : Ready x.mem l p q) (ht : Truncated x.mem l p q) :
    x.connectorInterrupt alloc = ⟨-1, x, none, alloc⟩ ∨
      x.connectorInterrupt alloc = ⟨0, { x with mem := recoverRing x.mem }, none, alloc⟩ := by
  rw [ShmRing.connectorInterrupt]
  split
  · exact .inl rfl
  · rw [h.copyOut_truncated ht]
    exact .inr rfl

theorem listenerInterrupt_truncated (h : Ready x.mem l p q) (ht : Truncated x.mem l p q) :
    x.listenerInterrupt alloc = ⟨0, { x with mem := recoverRing x.mem }, none, alloc⟩ := by
  rw [ShmRing.listenerInterrupt, h.copyOut_truncated ht]
  rfl

/-- The two handlers. -/
inductive IsHandler : (ShmRing → Option Nat → ShmHandled) → Prop
  | connector : IsHandler ShmRing.connectorInterrupt
  | listener : IsHandler ShmRing.listenerInterrupt

variable {handler : ShmRing → Option Nat → ShmHandled}

/-- **One call of a handler** on a ring that is not empty. -/
theorem IsHandler.oneMessage (hh : IsHandler handler) (h : Ready x.mem l p q) (hu : Unread x.mem l q p)
    (hne : p ≠ q) (alloc : Option Nat) : OneMessage x.mem l p q (handler x alloc) := by
  cases hu with
  | none => exact absurd rfl hne
  | @message _ n hw _ =>
    have htakes : Takes x.mem l p n (handler x alloc).ret (handler x alloc).ring.mem := by
      cases hh with
      | connector => exact connectorInterrupt_takes h hw
      | listener => exact listenerInterrupt_takes h hw
    rcases htakes with ⟨hret, hmem⟩ | ⟨hret, hmem⟩
    · exact ⟨.inl hret, fun _ => .inl ⟨n, hw, hmem⟩, fun hleft => absurd (hret.symm.trans hleft) (by decide)⟩
    · exact ⟨.inr hret, fun htaken => absurd (hret.symm.trans htaken) (by decide), fun _ => hmem⟩
  | truncated _ ht =>
    have hcases : handler x alloc = ⟨-1, x, none, alloc⟩ ∨
        handler x alloc = ⟨0, { x with mem := recoverRing x.mem }, none, alloc⟩ := by
      cases hh with
      | connector => exact connectorInterrupt_truncated h ht
      | listener => exact .inr (listenerInterrupt_truncated h ht)
    rcases hcases with heq | heq <;> rw [heq]
    · exact ⟨.inr rfl, nofun, fun _ => rfl⟩
    · refine ⟨.inl rfl, fun _ => .inr ⟨ht, drained_recoverRing x.mem, ?_⟩, nofun⟩
      exact congrArg (PageMem.storeWord x.mem offsetofRxPtr) h.tx

/-! ## The loop -/

/-- Only `rx_ptr` is written. -/
theorem lenAt_storeRx (m : PageMem) (v r : Nat) : lenAt (m.storeWord offsetofRxPtr v) r = lenAt m r := by
  have hword : read (m.storeWord offsetofRxPtr v).byte (sizeofRing + r) 4 = read m.byte (sizeofRing + r) 4 :=
    PageMem.read_storeWord_of_ne (by decide) (by
      unfold offsetofRxPtr sizeofRing
      omega)
  rw [lenAt, lenAt, readHeader, readHeader, hword]

theorem Ready.storeRx {p' : Nat} (h : Ready m l p q) (hp : p' < l) (hmod : p' % 16 = 0) :
    Ready (m.storeWord offsetofRxPtr p') l p' q where
  len := (PageMem.read_storeWord_of_ne (by decide) (by decide)).trans h.len
  rx := PageMem.read_storeWord (by decide) (by have hsmall := h.small; omega)
  tx := (PageMem.read_storeWord_of_ne (by decide) (by decide)).trans h.tx
  len_mod := h.len_mod
  small := h.small
  rx_lt := hp
  rx_mod := hmod
  tx_lt := h.tx_lt

/-- `rx_ptr` behind a message. -/
theorem Ready.behind (h : Ready m l p q) (hw : WellFormed m l p q n) :
    Ready (m.storeWord offsetofRxPtr (behind l p n)) l (behind l p n) q := by
  have hdist := distance_lt h.rx_lt h.tx_lt
  have hfit := hw.2
  have hmod := h.len_mod
  refine h.storeRx (advance_lt h.rx_lt ?_) (Nat.mod_eq_zero_of_dvd (advance_dvd
    (Nat.dvd_of_mod_eq_zero h.len_mod) (Nat.dvd_of_mod_eq_zero h.rx_mod) ?_))
  · unfold sizeofMessageHeader at hfit ⊢
    omega
  · unfold sizeofMessageHeader
    omega

theorem drained_iff (h : Ready m l p q) : drained m ↔ p = q := by
  rw [drained, h.rx, h.tx]

theorem Unread.congr {m' : PageMem} (hu : Unread m l q p) (hsame : ∀ r, lenAt m' r = lenAt m r) :
    Unread m' l q p := by
  induction hu with
  | none => exact .none
  | message hw _ ih => exact .message ⟨(hsame _).trans hw.1, hw.2⟩ ih
  | truncated hne ht => exact .truncated hne (ht.imp_right fun hlt => Nat.lt_of_lt_of_eq hlt (hsame _).symm)

/-- The loop ends at an empty ring, ... -/
theorem drain_of_drained (handler : ShmRing → Option Nat → ShmHandled) (alloc : Option Nat) (hd : drained x.mem) :
    ∃ fuel out, x.drain handler fuel alloc = some out :=
  ⟨1, ⟨x, [], alloc⟩, if_pos hd⟩

/-- ... and where it does from the next round on. -/
theorem drain_of_next (hnext : (handler x alloc).ret = 0 → ∃ fuel out,
      (handler x alloc).ring.drain handler fuel (handler x alloc).alloc = some out) :
    ∃ fuel out, x.drain handler fuel alloc = some out := by
  by_cases hd : drained x.mem
  · exact drain_of_drained handler alloc hd
  · by_cases hret : (handler x alloc).ret = 0
    · obtain ⟨fuel, out, heq⟩ := hnext hret
      refine ⟨fuel + 1, { out with resets := (handler x alloc).reset.toList ++ out.resets }, ?_⟩
      rw [ShmRing.drain, if_neg hd]
      dsimp only
      rw [if_neg (not_not_intro hret), heq]
      rfl
    · refine ⟨1, ⟨(handler x alloc).ring, (handler x alloc).reset.toList, (handler x alloc).alloc⟩, ?_⟩
      rw [ShmRing.drain, if_neg hd]
      exact if_pos hret

/-- **The loop ends.**  The induction is on the messages that are there when it starts, whose headers nobody
changes. -/
theorem IsHandler.drain_ends (hh : IsHandler handler) (hu : Unread m l q p) (h : Ready x.mem l p q)
    (hsame : ∀ r, lenAt x.mem r = lenAt m r) (alloc : Option Nat) :
    ∃ fuel out, x.drain handler fuel alloc = some out := by
  have hone : p ≠ q → OneMessage x.mem l p q (handler x alloc) :=
    fun hne => hh.oneMessage h (hu.congr hsame) hne alloc
  induction hu generalizing x alloc with
  | none => exact drain_of_drained handler alloc ((drained_iff h).mpr rfl)
  | @message p n hw _ ih =>
    by_cases hne : p = q
    · exact drain_of_drained handler alloc ((drained_iff h).mpr hne)
    · refine drain_of_next fun hret => ?_
      rcases (hone hne).taken hret with ⟨k, hk, hmem⟩ | ⟨-, hd, -⟩
      · obtain rfl : k = n := Nat.add_left_cancel (hk.1.symm.trans ((hsame p).trans hw.1))
        have hnext : ∀ r, lenAt (handler x alloc).ring.mem r = lenAt m r := by
          intro r
          rw [hmem, lenAt_storeRx, hsame]
        have hready := hmem ▸ h.behind hk
        exact ih hready hnext _ fun hne => hh.oneMessage hready (.congr ‹_› hnext) hne _
      · exact drain_of_drained handler _ hd
  | truncated hne ht =>
    refine drain_of_next fun hret => ?_
    rcases (hone hne).taken hret with ⟨k, hk, -⟩ | ⟨-, hd, -⟩
    · have hlen := hk.1.symm.trans (hsame _)
      have hfit := hk.2
      rcases ht with ht | ht
      · omega
      · omega
    · exact drain_of_drained handler _ hd

/-- **One message per interrupt step**, and the loops of `v4v_interrupt_rx` end. -/
theorem interrupt_takes_one {l p q : Nat} {x : ShmRing} (h : Ready x.mem l p q) (hu : Unread x.mem l q p)
    (alloc : Option Nat) : (∀ handler, IsHandler handler → p ≠ q → OneMessage x.mem l p q (handler x alloc)) ∧
      ∃ fuel out, x.interruptRx fuel alloc = some out := by
  refine ⟨fun handler hh hne => hh.oneMessage h hu hne alloc, ?_⟩
  obtain ⟨n, out, hconnector⟩ := IsHandler.connector.drain_ends hu h (fun _ => rfl) alloc
  obtain ⟨k, out', hlistener⟩ := IsHandler.listener.drain_ends hu h (fun _ => rfl) alloc
  by_cases hd : drained x.mem
  · exact ⟨0, _, if_pos hd⟩
  · cases htype : x.ring.type with
    | idle => exact ⟨0, _, by rw [ShmRing.interruptRx, if_neg hd, htype]⟩
    | dgram => exact ⟨0, _, by rw [ShmRing.interruptRx, if_neg hd, htype]⟩
    | connector => exact ⟨n, out, by rw [ShmRing.interruptRx, if_neg hd, htype]; exact hconnector⟩
    | listener => exact ⟨k, out', by rw [ShmRing.interruptRx, if_neg hd, htype]; exact hlistener⟩

/-- A ring of 64 bytes with one message of eight payload bytes. -/
def oneMessageRing : ShmRing where
  ring := { id := ⟨⟨1, 0⟩, 0⟩, type := .listener, sponsor := none, privates := [], queue := [] }
  mem := PageMem.storeWord (PageMem.storeWord (PageMem.storeWord (fun _ _ => 0) offsetofLen 64) offsetofTxPtr 32)
    sizeofRing 24

theorem interrupt_takes_one_listener : OneMessage oneMessageRing.mem 64 0 32
    (oneMessageRing.listenerInterrupt none) := by
  have hready : Ready oneMessageRing.mem 64 0 32 :=
    ⟨by decide, by decide, by decide, by decide, by decide, by decide, by decide, by decide⟩
  have hunread : Unread oneMessageRing.mem 64 32 0 := .message (n := 8) ⟨by decide, by decide⟩ .none
  exact (interrupt_takes_one hready hunread none).1 _ .listener (by decide)

end

end V4v.Linux
