import LegacyV4v.Hypervisor

/-! # Pending senders and `V4VOP_notify`

A sender that found a ring full is entered in the ring's pending list.  When the owner
issues a notify, every pending sender whose message would fit now is signalled; the same
hypercall tells the caller about rings it wants to send to. -/
namespace V4v
open MachineWord

/-! ## The pending list -/

/-- Raise the length of the first entry of domain `id` to at least `len`. -/
def raisePending (id : DomId) (len : UInt32) : List PendingEnt → List PendingEnt
  | [] => []
  | ent :: l =>
    if ent.id = id then { ent with len := if ent.len < len then len else ent.len } :: l
    else ent :: raisePending id len l

/-- `v4v_pending_requeue`, with `v4v_pending_queue` for a sender that has no entry yet. -/
def pendingRequeue (pending : List PendingEnt) (id : DomId) (len : UInt32) (alloc : Bool) :
    Int × List PendingEnt :=
  if pending.any fun ent => ent.id = id then (0, raisePending id len pending)
  else if !alloc then (-enomem, pending)
  else (0, ⟨id, len⟩ :: pending)

/-- `v4v_pending_cancel`. -/
def pendingCancel (pending : List PendingEnt) (id : DomId) : List PendingEnt :=
  pending.filter fun ent => ent.id ≠ id

/-- The entries `v4v_pending_find` moves to the list of senders to notify. -/
def pendingFits (pending : List PendingEnt) (payloadSpace : Nat) : List PendingEnt :=
  pending.filter fun ent => ent.len.toNat ≤ payloadSpace

/-- The entries it leaves. -/
def pendingRest (pending : List PendingEnt) (payloadSpace : Nat) : List PendingEnt :=
  pending.filter fun ent => ¬ ent.len.toNat ≤ payloadSpace

/-- `v4v_ringbuf_payload_space`.  Like an insertion it reads through a `NULL` page list
(`none`) after a failed re-registration. -/
def payloadSpace (r : RingInfo) : Option Nat :=
  if r.npage = 0 then some 0
  else if r.mfns = none then none
  else if r.rxPtr = r.txPtr.toNat then some (u32 (r.len.toNat - sizeofMessageHeader))
  else
    let ret := i32 (r.rxPtr - r.txPtr.toNat)
    let ret := if ret < 0 then i32 (ret + r.len.toNat) else ret
    let ret := i32 (ret - sizeofMessageHeader)
    let ret := i32 (ret - 16)
    some (if ret < 0 then 0 else u32 ret)

/-! ## The rings of the caller -/

/-- `v4v_notify_ring`: the lock is taken once for the free space and once more for the
pending list. -/
def notifyRing (p : Hyp × List PendingEnt) (r : RingInfo) : Option (Hyp × List PendingEnt) :=
  (payloadSpace r).map fun space =>
    let s := (p.1.acquire (.l3 r.id)).release (.l3 r.id)
    let s := s.acquire (.l3 r.id)
    (s.release (.l3 r.id), (pendingFits r.pending space).reverse ++ p.2)

/-- All rings of a domain in turn. -/
def notifyRings (p : Hyp × List PendingEnt) : List RingInfo → Option (Hyp × List PendingEnt)
  | [] => some p
  | r :: l => (notifyRing p r).bind fun p => notifyRings p l

/-- The table with the notified entries taken out. -/
def RingTable.settle (t : RingTable) : RingTable := fun i =>
  (t i).map fun r =>
    match payloadSpace r with
    | none => r
    | some space => { r with pending := pendingRest r.pending space }

/-- `v4v_pending_notify`. -/
def pendingNotify (s : Hyp) (toNotify : List PendingEnt) : Hyp :=
  toNotify.foldl (fun s ent => s.signalDomid ent.id) s

/-! ## The rings the caller asks about -/

/-- `struct v4v_ring_data_ent` as it is read. -/
structure RingDataEnt where
  ring : Addr
  spaceRequired : UInt32

/-- One entry of the caller's array: `none` if it cannot be read; whether a pending entry
can be allocated and whether the flags can be written back. -/
structure NotifyEnt where
  ent : Option RingDataEnt
  alloc : Bool
  written : Bool

def ringDataEmpty : UInt16 := 1
def ringDataExists : UInt16 := 2
def ringDataPending : UInt16 := 4
def ringDataSufficient : UInt16 := 8

/-- The part of `v4v_fill_ring_data` under L2: the flags for the ring `r` of domain `dst`
and the pending list it is left with.  A failing `v4v_pending_requeue` is ignored. -/
def fillFlags (r : RingInfo) (d : DomId) (ent : RingDataEnt) (alloc : Bool) (space : Nat) :
    UInt16 × List PendingEnt :=
  let maxMessageSize := u32 (r.len.toNat - sizeofMessageHeader - 16)
  let p :=
    if ent.spaceRequired.toNat ≤ space then
      (ringDataExists ||| ringDataSufficient, pendingCancel r.pending d)
    else
      (ringDataExists ||| ringDataPending,
        (pendingRequeue r.pending d ent.spaceRequired alloc).2)
  (if space = maxMessageSize then p.1 ||| ringDataEmpty else p.1, p.2)

/-- The lookup and the flags, once the domain is there. -/
def fillRing (s : Hyp) (d : DomId) (ent : RingDataEnt) (alloc : Bool) (t : RingTable) :
    Option (UInt16 × Hyp) :=
  let dst := ent.ring.domain
  let s := s.acquire (.l2Read dst)
  match ringFindInfoByAddr t dst ent.ring d with
  | none => some (0, s.release (.l2Read dst))
  | some r =>
    (payloadSpace r).map fun space =>
      let s := s.acquire (.l3 r.id)
      let p := fillFlags r d ent alloc space
      let s := s.setV4v dst
        (some (ChainedHash.replace RingInfo.id hashFn t { r with pending := p.2 }))
      (p.1, (s.release (.l3 r.id)).release (.l2Read dst))

/-- The domain is looked up and referenced while its ring is looked at. -/
def fillDomain (s : Hyp) (d : DomId) (ent : RingDataEnt) (alloc : Bool) : Option (UInt16 × Hyp) :=
  match s.domains ent.ring.domain with
  | none => some (0, s)
  | some dom =>
    let s := s.acquire (.domainRef ent.ring.domain)
    match dom.v4v with
    | none => some (0, s.release (.domainRef ent.ring.domain))
    | some t =>
      (fillRing s d ent alloc t).map fun p => (p.1, p.2.release (.domainRef ent.ring.domain))

/-- `v4v_fill_ring_data`: the result and the flags written back. -/
def fillRingData (s : Hyp) (d : DomId) (e : NotifyEnt) : Option (Int × List UInt16 × Hyp) :=
  match e.ent with
  | none => some (-efault, [], s)
  | some ent =>
    (fillDomain s d ent e.alloc).map fun p =>
      if !e.written then (-efault, [], p.2) else (0, [p.1], p.2)

/-- The loop of `v4v_fill_ring_datas`. -/
def fillLoop (s : Hyp) (d : DomId) : List NotifyEnt → Option (Int × List UInt16 × Hyp)
  | [] => some (0, [], s)
  | e :: rest =>
    (fillRingData s d e).bind fun p =>
      if p.1 ≠ 0 then some p
      else (fillLoop p.2.2 d rest).map fun q => (q.1, p.2.1 ++ q.2.1, q.2.2)

/-- `v4v_fill_ring_datas`. -/
def fillRingDatas (s : Hyp) (d : DomId) (ents : List NotifyEnt) :
    Option (Int × List UInt16 × Hyp) :=
  (fillLoop (s.acquire .l1Read) d ents).map fun p => (p.1, p.2.1, p.2.2.release .l1Read)

/-! ## The hypercall -/

/-- The ring data of a notify: its magic number, which is read on its own first, whether
the header can be read after that, and the `nent` entries behind it. -/
structure RingData where
  magic : Option UInt64
  readable : Bool
  ents : List NotifyEnt

/-- The part of `v4v_notify` behind the caller's own rings; `none` stands for a null
handle. -/
def notifyData (s : Hyp) (d : DomId) : Option RingData → Option (Int × List UInt16 × Hyp)
  | none => some (0, [], s)
  | some data =>
    match data.magic with
    | none => some (-efault, [], s)
    | some magic =>
      if magic ≠ ringDataMagic then some (-einval, [], s)
      else if !data.readable then some (-efault, [], s)
      else fillRingDatas s d data.ents

/-- `v4v_notify`: its result and the flags it answers with. -/
def notify (s : Hyp) (d : DomId) (data : Option RingData) : Option (Int × List UInt16 × Hyp) :=
  let s := s.acquire .l1Read
  match s.v4v d with
  | none => some (-enodev, [], s.release .l1Read)
  | some t =>
    let s := s.acquire (.l2Read d)
    (notifyRings (s, []) t.rings).bind fun p =>
      let s := (p.1.setV4v d (some t.settle)).release (.l2Read d)
      let s := pendingNotify s p.2
      (notifyData s d data).map fun q => (q.1, q.2.1, q.2.2.release .l1Read)

end V4v
