import LegacyV4v.MachineWord

/-! # The v4v ring format

The structures and constants of `public/v4v.h`.  All of them are packed, so
`sizeof (v4v_ring_t)` is 60 and the ring's data does not start on a 16-byte
boundary of its page, while a message header is exactly 16 bytes long.

Word-sized fields keep their width (`UInt32` for ports, lengths and pointers,
`UInt16` for domain ids); arithmetic on them is done on their values, with the
conversions of `MachineWord` where the source converts. -/
namespace V4v
open MachineWord

abbrev DomId := UInt16

/-- `struct v4v_addr`. -/
structure Addr where
  port : UInt32
  domain : DomId
  deriving DecidableEq, Repr

/-- `struct v4v_ring_id`. -/
structure RingId where
  addr : Addr
  partner : DomId
  deriving DecidableEq, Repr

/-- `V4V_DOMID_ANY`, which is also `V4V_DOMID_NONE` and `V4V_DOMID_INVALID`. -/
def domidAny : DomId := 0x7fff

def ringMagic : UInt64 := 0xdf6977f231abd910
def pfnListMagic : UInt64 := 0x91dd6159045b302d
def ringDataMagic : UInt64 := 0x4ce4d30fbc82e92a

/-! ## Error numbers -/

def eperm : Int := 1
def enoent : Int := 2
def eagain : Int := 11
def enomem : Int := 12
def efault : Int := 14
def enodev : Int := 19
def einval : Int := 22
def enosys : Int := 38
def emsgsize : Int := 90
def econnrefused : Int := 111

/-! ## Sizes and offsets -/

/-- `PAGE_SIZE`. -/
def pageSize : Nat := 4096

theorem pageSize_pos : 0 < pageSize := by decide

/-- `sizeof (v4v_ring_t)`: the offset of the data in the ring's pages. -/
def sizeofRing : Nat := 60

/-- `sizeof (struct v4v_ring_message_header)`. -/
def sizeofMessageHeader : Nat := 16

/-- `offsetof (v4v_ring_t, len)`. -/
def offsetofLen : Nat := 16

/-- `offsetof (v4v_ring_t, rx_ptr)`. -/
def offsetofRxPtr : Nat := 20

/-- `offsetof (v4v_ring_t, tx_ptr)`. -/
def offsetofTxPtr : Nat := 24

/-- `V4V_ROUNDUP` on a `uint32_t`. -/
def roundup (a : UInt32) : UInt32 := (a + 0xf) &&& ~~~0xf

/-- The value of `V4V_ROUNDUP`: the addition wraps, and the mask drops the last
four bits. -/
theorem roundup_toNat (a : UInt32) :
    (roundup a).toNat = (a.toNat + 15) % 4294967296 / 16 * 16 := by
  have h : (roundup a).toBitVec = ((a + 0xf).toBitVec >>> 4) <<< 4 := and_not_fifteen _
  rw [← UInt32.toNat_toBitVec, h, BitVec.toNat_shiftLeft, BitVec.toNat_ushiftRight,
    UInt32.toNat_toBitVec, UInt32.toNat_add, Nat.shiftLeft_eq, Nat.shiftRight_eq_div_pow]
  have := a.toNat_lt
  simp
  omega

/-- `V4V_ROUNDUP (a) == a` says that `a` is a multiple of 16. -/
theorem roundup_eq_self {a : UInt32} : roundup a = a ↔ a.toNat % 16 = 0 := by
  have ha := a.toNat_lt
  constructor
  · intro h
    have := congrArg UInt32.toNat h
    rw [roundup_toNat] at this
    omega
  · intro h
    apply UInt32.toNat_inj.mp
    rw [roundup_toNat]
    omega

/-! ## Message headers -/

/-- `struct v4v_ring_message_header`, without the data that follows it. -/
structure MessageHeader where
  len : UInt32
  source : Addr
  pad : UInt16
  protocol : UInt32
  deriving DecidableEq, Repr

/-- The header as it stands in memory. -/
def MessageHeader.bytes (mh : MessageHeader) : List UInt8 :=
  MachineWord.bytes 4 mh.len.toNat ++ MachineWord.bytes 4 mh.source.port.toNat ++
    MachineWord.bytes 2 mh.source.domain.toNat ++ MachineWord.bytes 2 mh.pad.toNat ++
    MachineWord.bytes 4 mh.protocol.toNat

@[simp] theorem MessageHeader.bytes_length (mh : MessageHeader) :
    mh.bytes.length = sizeofMessageHeader := by
  simp [MessageHeader.bytes, sizeofMessageHeader]

/-- The header that stands at address `a` of a memory. -/
def readHeader (m : Nat → UInt8) (a : Nat) : MessageHeader where
  len := UInt32.ofNat (read m a 4)
  source := ⟨UInt32.ofNat (read m (a + 4) 4), UInt16.ofNat (read m (a + 8) 2)⟩
  pad := UInt16.ofNat (read m (a + 10) 2)
  protocol := UInt32.ofNat (read m (a + 12) 4)

/-- Reading back a header whose bytes stand at `a`. -/
theorem readHeader_of_bytes {m : Nat → UInt8} {a : Nat} {mh : MessageHeader}
    (h : ∀ i, i < sizeofMessageHeader → m (a + i) = mh.bytes.getD i 0) :
    readHeader m a = mh := by
  have h' : ∀ i, i < mh.bytes.length → m (a + i) = mh.bytes.getD i 0 := by
    simpa using h
  have hlen : read m a 4 = mh.len.toNat % 256 ^ 4 :=
    read_field [] h'
      (by simp only [MessageHeader.bytes, List.append_assoc]; rfl)
  have hport : read m (a + 4) 4 = mh.source.port.toNat % 256 ^ 4 :=
    read_field (bytes 4 mh.len.toNat) h'
      (by simp only [MessageHeader.bytes, List.append_assoc]; rfl)
  have hdomain : read m (a + 8) 2 = mh.source.domain.toNat % 256 ^ 2 :=
    read_field (bytes 4 mh.len.toNat ++ bytes 4 mh.source.port.toNat) h'
      (by simp only [MessageHeader.bytes, List.append_assoc]; rfl)
  have hpad : read m (a + 10) 2 = mh.pad.toNat % 256 ^ 2 :=
    read_field (bytes 4 mh.len.toNat ++ bytes 4 mh.source.port.toNat ++
      bytes 2 mh.source.domain.toNat) h'
      (by simp only [MessageHeader.bytes, List.append_assoc]; rfl)
  have hprotocol : read m (a + 12) 4 = mh.protocol.toNat % 256 ^ 4 :=
    read_field (bytes 4 mh.len.toNat ++ bytes 4 mh.source.port.toNat ++
      bytes 2 mh.source.domain.toNat ++ bytes 2 mh.pad.toNat) h'
      (by simp only [MessageHeader.bytes, List.append_assoc]; rfl)
  have w32 : ∀ x : UInt32, UInt32.ofNat (x.toNat % 256 ^ 4) = x := by
    intro x
    have hx : x.toNat < 256 ^ 4 := by have := x.toNat_lt; omega
    rw [Nat.mod_eq_of_lt hx, UInt32.ofNat_toNat]
  have w16 : ∀ x : UInt16, UInt16.ofNat (x.toNat % 256 ^ 2) = x := by
    intro x
    have hx : x.toNat < 256 ^ 2 := by have := x.toNat_lt; omega
    rw [Nat.mod_eq_of_lt hx, UInt16.ofNat_toNat]
  simp only [readHeader, hlen, hport, hdomain, hpad, hprotocol, w32, w16]

end V4v
