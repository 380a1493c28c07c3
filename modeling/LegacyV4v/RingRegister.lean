import LegacyV4v.Hypervisor

/-! # Registering and removing rings

`v4v_ring_add`, `v4v_ring_remove`, `v4v_destroy` and `v4v_init`, with the page
references they take and release.  A call's arguments carry what the guest supplies
and how each guest copy and allocation on its way turns out, so that every failure can
happen at every place.  The `do { … } while (1 == 0)` blocks of the source become a pair
of result and state, behind which the lock is released. -/
namespace V4v
open MachineWord

/-! ## The page list -/

/-- `struct v4v_pfn_list`, without the page numbers that follow it. -/
structure PfnList where
  magic : UInt64
  npage : UInt32

/-- What becomes of one entry of the page list: its number cannot be read, it names no
page, or it names machine page `mfn`, which may be invalid or of another type. -/
inductive PfnRead where
  | unreadable
  | noPage
  | page (mfn : Nat) (valid writable : Bool)

/-- `INVALID_MFN`. -/
def invalidMfn : Nat := 18446744073709551615

/-- `v4v_ring_t` as registration reads it. -/
structure RingHeader where
  magic : UInt64
  id : RingId
  len : UInt32
  rxPtr : UInt32
  txPtr : UInt32

/-- The arguments of `V4VOP_register_ring`.  `ring` and `pfnList` are `none` when they
cannot be copied; `mem` is what the listed pages hold. -/
structure RegisterArgs where
  ringOkay : Bool
  pfnListOkay : Bool
  pageAligned : Bool
  ring : Option RingHeader
  idWritten : Bool
  ringInfoAlloc : Bool
  pfnList : Option PfnList
  mfnsAlloc : Bool
  mappingAlloc : Bool
  pfn : Nat → PfnRead
  mem : PageMem

/-- The loop of `v4v_find_ring_mfns` over the entries of the list; `mfns` are the pages
found so far.  A failure releases them, except for the last one, and keeps the reference
on a page of the wrong type. -/
def mfnLoop (s : Hyp) : List PfnRead → (mfns : List Nat) → Int × List Nat × Hyp
  | [], mfns => (0, mfns, s)
  | .unreadable :: _, mfns => (-efault, mfns, s.putPagesAndTypes mfns)
  | .noPage :: _, mfns => (-einval, mfns, s.putPagesAndTypes mfns)
  | .page mfn valid writable :: rest, mfns =>
    let s := s.getPage mfn
    if !valid then (-einval, mfns, (s.putPage mfn).putPagesAndTypes mfns)
    else if !writable then (-einval, mfns, s.putPagesAndTypes mfns)
    else if mfn = invalidMfn then (-einval, mfns, s.getPageType mfn)
    else mfnLoop (s.getPageType mfn) rest (mfns ++ [mfn])

/-- `v4v_find_ring_mfns` for a ring of `len` bytes: on success the page count and the
pages. -/
def findRingMfns (s : Hyp) (len : UInt32) (a : RegisterArgs) :
    Int × Option (UInt32 × List Nat) × Hyp :=
  match a.pfnList with
  | none => (-efault, none, s)
  | some pfnList =>
    if pfnList.magic ≠ pfnListMagic then (-einval, none, s)
    -- `npage << PAGE_SHIFT` is a `uint32_t`
    else if pfnList.npage <<< 12 < len then (-einval, none, s)
    else if !a.mfnsAlloc then (-enomem, none, s)
    else if !a.mappingAlloc then (-enomem, none, s)
    else
      let p := mfnLoop s ((List.range pfnList.npage.toNat).map a.pfn) []
      (p.1, if p.1 = 0 then some (pfnList.npage, p.2.1) else none, p.2.2)

/-- `v4v_ring_remove_mfns`, the part that releases the pages. -/
def ringRemoveMfns (s : Hyp) (r : RingInfo) : Hyp :=
  match r.mfns with
  | none => s
  | some mfns => s.putPagesAndTypes mfns

/-! ## `v4v_ring_add` -/

/-- The checks on the ring header.  Behind them its `id` names the caller, and `tx_ptr`
is replaced by `rx_ptr` if it looks bogus. -/
def RegisterArgs.header (a : RegisterArgs) (d : DomId) : Except Int RingHeader :=
  match a.ring with
  | none => .error (-efault)
  | some ring =>
    if ring.magic ≠ ringMagic then .error (-einval)
    else if ring.len.toNat < sizeofMessageHeader + 16 + 16 ∨ roundup ring.len ≠ ring.len then
      .error (-einval)
    else if !a.idWritten then .error (-efault)
    else
      .ok { ring with
        id := ⟨⟨ring.id.addr.port, d⟩, ring.id.partner⟩
        txPtr := if ring.len ≤ ring.txPtr ∨ roundup ring.txPtr ≠ ring.txPtr then ring.rxPtr
          else ring.txPtr }

/-- A ring that is not in the table yet: it is added once its pages are found. -/
def registerNew (s : Hyp) (d : DomId) (t : RingTable) (ring : RingHeader) (a : RegisterArgs) :
    Int × Hyp :=
  if !a.ringInfoAlloc then (-enomem, s)
  else
    let p := findRingMfns (s.acquire (.l3 ring.id)) ring.len a
    let s := p.2.2.release (.l3 ring.id)
    match p.2.1 with
    | none => (p.1, s)
    | some (npage, mfns) =>
      let r : RingInfo := ⟨ring.id, ring.len, npage, ring.txPtr, some mfns, [], a.mem⟩
      let s := s.acquire (.l2Write d)
      let s := s.setV4v d (some (ChainedHash.insert RingInfo.id hashFn t r))
      (0, s.release (.l2Write d))

/-- A ring that is registered already: its pages are given up before the new ones are
looked for.  The caller holds R(L2); it is released on success only. -/
def registerAgain (s : Hyp) (d : DomId) (t : RingTable) (ring : RingHeader) (r : RingInfo)
    (a : RegisterArgs) : Int × Hyp :=
  let s := ringRemoveMfns s r
  let p := findRingMfns (s.acquire (.l3 ring.id)) ring.len a
  let s := p.2.2.release (.l3 ring.id)
  let r := { r with id := ring.id, len := ring.len, txPtr := ring.txPtr, mfns := none }
  match p.2.1 with
  | none => (p.1, s.setV4v d (some (ChainedHash.replace RingInfo.id hashFn t r)))
  | some (npage, mfns) =>
    let r := { r with npage := npage, mfns := some mfns, mem := a.mem }
    let s := s.setV4v d (some (ChainedHash.replace RingInfo.id hashFn t r))
    (0, s.release (.l2Read d))

/-- `v4v_ring_add`. -/
def ringAdd (s : Hyp) (d : DomId) (a : RegisterArgs) : Int × Hyp :=
  if !a.pageAligned then (-einval, s)
  else
    let s := s.acquire .l1Read
    let p :=
      match s.v4v d with
      | none => (-einval, s)
      | some t =>
        match a.header d with
        | .error e => (e, s)
        | .ok ring =>
          let s := s.acquire (.l2Read d)
          match ringFindInfo t ring.id with
          | none => registerNew (s.release (.l2Read d)) d t ring a
          | some r => registerAgain s d t ring r a
    (p.1, p.2.release .l1Read)

/-- A registration in which nothing fails and the list names the pages from 1 on. -/
def RegisterArgs.smooth (id : RingId) (len rxPtr txPtr npage : UInt32) : RegisterArgs where
  ringOkay := true
  pfnListOkay := true
  pageAligned := true
  ring := some ⟨ringMagic, id, len, rxPtr, txPtr⟩
  idWritten := true
  ringInfoAlloc := true
  pfnList := some ⟨pfnListMagic, npage⟩
  mfnsAlloc := true
  mappingAlloc := true
  pfn i := .page (i + 1) true true
  mem := PageMem.storeWord (PageMem.storeWord (PageMem.storeWord (fun _ _ => 0)
    offsetofLen len.toNat) offsetofRxPtr rxPtr.toNat) offsetofTxPtr txPtr.toNat

/-! ## `v4v_ring_remove` -/

/-- The arguments of `V4VOP_unregister_ring`. -/
structure UnregisterArgs where
  ringOkay : Bool
  ring : Option RingHeader

/-- `v4v_ring_remove_info`; the pending entries are freed with the ring. -/
def ringRemoveInfo (s : Hyp) (d : DomId) (t : RingTable) (r : RingInfo) : Hyp :=
  ringRemoveMfns (s.setV4v d (some (ChainedHash.erase RingInfo.id hashFn t r.id))) r

/-- `v4v_ring_remove`. -/
def ringRemove (s : Hyp) (d : DomId) (a : UnregisterArgs) : Int × Hyp :=
  let s := s.acquire .l1Read
  let p :=
    match s.v4v d with
    | none => (-einval, s)
    | some t =>
      match a.ring with
      | none => (-efault, s)
      | some ring =>
        if ring.magic ≠ ringMagic then (-einval, s)
        else
          let s := s.acquire (.l2Write d)
          match ringFindInfo t ⟨⟨ring.id.addr.port, d⟩, ring.id.partner⟩ with
          | none => (-enoent, s.release (.l2Write d))
          | some r => (0, (ringRemoveInfo s d t r).release (.l2Write d))
  (p.1, p.2.release .l1Read)

/-! ## Domains -/

/-- `v4v_destroy`; `none` when `BUG_ON (!d->is_dying)` strikes. -/
def destroy (s : Hyp) (d : DomId) : Option Hyp :=
  match s.domains d with
  | none => none
  | some dom =>
    if !dom.isDying then none
    else
      let s := s.acquire .l1Write
      let s :=
        match dom.v4v with
        | none => s
        | some t => t.rings.foldl ringRemoveMfns s
      some ((s.setV4v d none).release .l1Write)

/-- `v4v_init`: an empty table, with a fresh lock, unless the allocation fails. -/
def init (s : Hyp) (d : DomId) (alloc : Bool) : Int × Hyp :=
  if !alloc then (-enomem, s)
  else
    let s := { s with
      holds := fun k => if k = Lock.l2Read d ∨ k = Lock.l2Write d then 0 else s.holds k }
    let s := s.acquire .l1Write
    (0, (s.setV4v d (some fun _ => [])).release .l1Write)

end V4v
