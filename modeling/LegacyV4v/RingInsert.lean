import LegacyV4v.CyclicBuffer
import LegacyV4v.RingPages

/-! # Inserting a message into a ring

`v4v_ringbuf_insert` and `v4v_ringbuf_insertv` of the hypervisor.  Both run in the
same frame (`insertWith`): two size checks, the header and the payload with a split
at the ring end (`copyPayload`), and the new `tx_ptr` (`publish`).  They differ in
where the payload comes from and in how the new `tx_ptr` is computed.  Copying the
message is a pure function of the ring, so the frame takes its outcome as an
argument and uses it only once both checks have passed.

A ring whose last re-registration failed has a `NULL` page list beside a stale
`npage`.  Mapping one of its pages reads through that `NULL`; the two functions
return `none` there, since the hypercall does not return. -/
namespace V4v
open MachineWord CyclicBuffer

/-- `struct v4v_pending_ent`. -/
structure PendingEnt where
  id : DomId
  len : UInt32
  deriving DecidableEq, Repr

/-- `struct v4v_ring_info`.  `mem` stands for the contents of the listed pages,
which Xen shares with the owner of the ring; the mapping cache `mfn_mapping` is
empty between calls and is left out. -/
structure RingInfo where
  id : RingId
  len : UInt32
  npage : UInt32
  txPtr : UInt32
  mfns : Option (List Nat)
  pending : List PendingEnt
  mem : PageMem

/-- One `v4v_iov_t` as Xen reads it: its length, the buffer its base address
leads to, and whether `guest_handle_okay` accepts the pair. -/
structure Iov where
  iovLen : UInt64
  buf : GuestBuf
  okay : Bool

/-- What an insertion returns and leaves behind. -/
structure InsertOut where
  ret : Int
  ring : RingInfo
  chunks : List Chunk
  maps : List Nat

/-! ## Page copies of one ring -/

/-- The loop of `v4v_memcpy_from_guest_ring`. -/
def readLoop (m : PageMem) : (left page off len : Nat) → Option (List UInt8)
  | 0, _, _, _ => none
  | left + 1, page, off, len =>
    if pageSize < (off + len) % 4294967296 then
      (readLoop m left (page + 1) 0 (len - (pageSize - off))).map
        (((List.range (pageSize - off)).map fun i => m page (off + i)) ++ ·)
    else some ((List.range len).map fun i => m page (off + i))

namespace RingInfo

/-- `v4v_ring_map_page` returns a page. -/
def mapPage (r : RingInfo) (i : Nat) : Bool := i < r.npage.toNat

def memcpyFromGuestRing (r : RingInfo) (offset len : Nat) : Option (List UInt8) :=
  readLoop r.mem (r.npage.toNat - offset / pageSize) (offset / pageSize) (offset % pageSize) len

def memcpyToGuestRingFromGuest (r : RingInfo) (m : PageMem) (offset : Nat) (buf : GuestBuf)
    (src : Int) (len : Nat) : CopyOut :=
  copyLoop buf (r.npage.toNat - offset / pageSize) (offset / pageSize) (offset % pageSize) src len m

def memcpyToGuestRing (r : RingInfo) (m : PageMem) (offset : Nat) (l : List UInt8) : CopyOut :=
  r.memcpyToGuestRingFromGuest m offset (GuestBuf.ofBytes l) 0 l.length

/-! ## The steps of an insertion -/

/-- The shared `rx_ptr`. -/
def rxPtr (r : RingInfo) : Nat := read r.mem.byte offsetofRxPtr 4

/-- The shared `tx_ptr`. -/
def sharedTxPtr (r : RingInfo) : Nat := read r.mem.byte offsetofTxPtr 4

/-- The shared `len`. -/
def sharedLen (r : RingInfo) : Nat := read r.mem.byte offsetofLen 4

/-- `sp`, the free space computed from the `rx_ptr` the owner shows, an
`int32_t`. -/
def space (r : RingInfo) (rx : Nat) : Int :=
  if rx = r.txPtr.toNat then i32 r.len.toNat
  else
    let sp := i32 (rx - r.txPtr.toNat)
    if sp < 0 then i32 (sp + r.len.toNat) else sp

/-- The room a message of `len` payload bytes takes, as the size checks compute
it: `V4V_ROUNDUP` in 32 bits, the sum in `size_t`. -/
def messageSize (len : UInt32) : Nat := (roundup len).toNat + sizeofMessageHeader

/-- The second size check: read the ring header, compare with `sp` converted to
`size_t`. -/
def reserve (r : RingInfo) (len : UInt32) : Option Int :=
  if r.npage ≠ 0 ∧ r.mfns = none then none
  else
    match r.memcpyFromGuestRing 0 sizeofRing with
    | none => some (-efault)
    | some ring =>
      let rx := value ((ring.drop offsetofRxPtr).take 4)
      if sizeT (r.space rx) ≤ messageSize len then some (-eagain) else some 0

/-- `if (ring.tx_ptr == ring_info->len) ring.tx_ptr = 0;` -/
def wrap (r : RingInfo) (tx : Nat) : Nat := if tx = r.len.toNat then 0 else tx

/-- `sp = ring.len - ring.tx_ptr`; it is compared with and passed as a
`uint32_t`. -/
def roomToEnd (r : RingInfo) (tx : Nat) : Nat := u32 (r.len.toNat - tx)

/-- Copy `len` payload bytes to `tx`, the first part up to the ring end and the
rest from its start.  The buffer handle is moved on by the `int32_t` `sp`. -/
def copyPayload (r : RingInfo) (m : PageMem) (tx : Nat) (buf : GuestBuf) (len : Nat) : CopyOut :=
  if r.roomToEnd tx < len then
    (r.memcpyToGuestRingFromGuest m (u32 (tx + sizeofRing)) buf 0 (r.roomToEnd tx)).andThen fun m =>
      r.memcpyToGuestRingFromGuest m sizeofRing buf (i32 (r.roomToEnd tx))
        (len - r.roomToEnd tx)
  else r.memcpyToGuestRingFromGuest m (u32 (tx + sizeofRing)) buf 0 len

/-- `ring.tx_ptr` and `len` as they stand before the last copy of the payload. -/
def lastPiece (r : RingInfo) (tx len : Nat) : Nat × Nat :=
  if r.roomToEnd tx < len then (0, len - r.roomToEnd tx) else (tx, len)

/-- The header goes to `tx_ptr`; the payload starts behind it. -/
def afterHeader (r : RingInfo) : Nat := r.wrap (u32 (r.txPtr.toNat + sizeofMessageHeader))

def writeHeader (r : RingInfo) (src : Addr) (proto len : UInt32) : CopyOut :=
  let mh : MessageHeader := ⟨len + 16, src, 0, proto⟩
  r.memcpyToGuestRing r.mem (u32 (r.txPtr.toNat + sizeofRing)) mh.bytes

/-- Header and payload of a message that comes in one buffer. -/
def writeMessage (r : RingInfo) (src : Addr) (proto : UInt32) (buf : GuestBuf) (len : UInt32) :
    CopyOut :=
  (r.writeHeader src proto len).andThen fun m => r.copyPayload m r.afterHeader buf len.toNat

/-- `ring.tx_ptr` behind a message that came in one buffer: the last piece is
rounded up. -/
def afterMessage (r : RingInfo) (len : UInt32) : Nat :=
  let piece := r.lastPiece r.afterHeader len.toNat
  r.wrap (u32 (piece.1 + (roundup (UInt32.ofNat piece.2)).toNat))

/-- Store the new `tx_ptr` in the ring info and, by `v4v_update_tx_ptr`, in the
shared header. -/
def publish (r : RingInfo) (o : CopyOut) (tx : Nat) (len : UInt32) : InsertOut :=
  let r' := { r with txPtr := UInt32.ofNat tx, mem := o.mem }
  if r.mapPage 0 then
    ⟨i32 len.toNat, { r' with mem := o.mem.storeWord offsetofTxPtr tx }, o.chunks, o.maps ++ [0]⟩
  else ⟨-efault, r', o.chunks, o.maps ++ [0]⟩

/-- `ring.tx_ptr` behind a message that came in pieces: the position itself is
rounded up. -/
def afterIovs (r : RingInfo) (tx : Nat) : Nat :=
  let tx := (roundup (UInt32.ofNat tx)).toNat
  if r.len.toNat ≤ tx then u32 (tx - r.len.toNat) else tx

/-- The loop of `v4v_ringbuf_insertv` over the iovs, `none` being an entry that
cannot be read.  Also returns the final `ring.tx_ptr`. -/
def iovLoop (r : RingInfo) : List (Option Iov) → Nat → PageMem → CopyOut × Nat
  | [], tx, m => (⟨0, m, [], []⟩, tx)
  | none :: _, tx, m => (⟨-efault, m, [], []⟩, tx)
  | some v :: rest, tx, m =>
    if v.okay then
      let len := u32 v.iovLen.toNat
      let o := r.copyPayload m tx v.buf len
      if o.ret ≠ 0 then (o, tx)
      else
        let piece := r.lastPiece tx len
        let p := iovLoop r rest (r.wrap (u32 (piece.1 + piece.2))) o.mem
        (⟨p.1.ret, p.1.mem, o.chunks ++ p.1.chunks, o.maps ++ p.1.maps⟩, p.2)
    else (⟨-efault, m, [], []⟩, tx)

/-- Header and payload of a message that comes in pieces, with the final
`ring.tx_ptr`. -/
def writeIovs (r : RingInfo) (src : Addr) (proto : UInt32) (iovs : List (Option Iov))
    (len : UInt32) : CopyOut × Nat :=
  let h := r.writeHeader src proto len
  if h.ret ≠ 0 then (h, r.txPtr.toNat)
  else
    let p := r.iovLoop iovs r.afterHeader h.mem
    (⟨p.1.ret, p.1.mem, h.chunks ++ p.1.chunks, h.maps ++ p.1.maps⟩, p.2)

/-- The frame both functions share: `o` is what copying the message comes to, and
`tx` the position behind it. -/
def insertWith (r : RingInfo) (len : UInt32) (o : CopyOut) (tx : Nat) : Option InsertOut :=
  if r.len.toNat ≤ messageSize len then some ⟨-emsgsize, r, [], []⟩
  else
    match r.reserve len with
    | none => none
    | some ret =>
      if ret ≠ 0 then some ⟨ret, r, [], [0]⟩
      else if o.ret ≠ 0 then some ⟨o.ret, { r with mem := o.mem }, o.chunks, 0 :: o.maps⟩
      else some (r.publish ⟨0, o.mem, o.chunks, 0 :: o.maps⟩ tx len)

end RingInfo

/-! ## The two functions -/

/-- `v4v_ringbuf_insert`. -/
def ringbufInsert (r : RingInfo) (src : Addr) (proto : UInt32) (buf : GuestBuf) (len : UInt32) :
    Option InsertOut :=
  r.insertWith len (r.writeMessage src proto buf len) (r.afterMessage len)

/-- `v4v_ringbuf_insertv`. -/
def ringbufInsertv (r : RingInfo) (src : Addr) (proto : UInt32) (iovs : List (Option Iov))
    (len : UInt32) : Option InsertOut :=
  r.insertWith len (r.writeIovs src proto iovs len).1
    (r.afterIovs (r.writeIovs src proto iovs len).2)

/-- `v4v_iov_count`: a `size_t` sum, returned as an `int`. -/
def iovCount : List (Option Iov) → (sum : Nat) → Int
  | [], sum => i32 sum
  | none :: _, _ => -efault
  | some v :: rest, sum => iovCount rest (sizeT (sum + v.iovLen.toNat))

end V4v
