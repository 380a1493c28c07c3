import LegacyV4v.GuardedRun
import Mathlib.Algebra.Ring.Nat
import Mathlib.Logic.Function.Basic

/-! # The austere heap

In austere mode `XmAllocateMemory` has one heap of a few pages.  The big allocator hands out runs of
pages and keeps their sizes in `heap_block_sizes`; the small one takes pages from it as subheaps, cuts
them into chunks with a header and a trailer, and keeps them in a list, the one last used in front.

Addresses are those of a 32-bit system, where `struct subheap` is one page.  Memory is read and written in
words, each under the address of its first byte; all addresses here are multiples of four, as long as the
heap is sound.  `NULL` is address 0.  A result is `none` where an assertion of the code fails, it divides
by zero or it never comes back. -/
namespace V4v.Xenutil
open GuardedRun

/-- `PAGE_SIZE`. -/
def pageSize : Nat := 4096

/-- `FREE_CHUNK`, the highest bit of a word. -/
def freeChunk : Nat := 0x80000000

/-- `AUSTERE_HEAP_PAGES`. -/
def austereHeapPages : Nat := 21

/-- `SUBHEAP_SIZE`. -/
def subheapSize : Nat := 4084

/-- `w & FREE_CHUNK`. -/
def isFree (w : Nat) : Bool := decide (freeChunk ≤ w)

/-- `w & ~FREE_CHUNK`. -/
def withoutFree (w : Nat) : Nat := w % freeChunk

/-- `w | FREE_CHUNK`. -/
def withFree (w : Nat) : Nat := w % freeChunk + freeChunk

/-- The sum of two `ULONG`s. -/
def addUlong (a b : Nat) : Nat := (a + b) % 4294967296

/-- The difference of two `ULONG`s. -/
def subUlong (a b : Nat) : Nat := (a + 4294967296 - b) % 4294967296

/-- The variables of the allocators, and the memory. -/
structure AustereHeap where
  bigHeapStart : Nat
  nrHeapPages : Nat
  heapBlockSizes : Nat → Nat
  bigHeapCursor : Nat
  headSubheap : Nat
  mem : Nat → Nat

namespace AustereHeap

/-- A word is written. -/
def store (h : AustereHeap) (p w : Nat) : AustereHeap := { h with mem := Function.update h.mem p w }

/-- The address of a page of the heap. -/
def page (h : AustereHeap) (i : Nat) : Nat := h.bigHeapStart + i * pageSize

/-! ## The big allocator -/

/-- The loop of `CompactBigHeap` from run `i` on.  Each turn comes further, or the loop does not end. -/
def compactFrom (nr : Nat) : Nat → (Nat → Nat) → Nat → Bool → Option (Bool × (Nat → Nat))
  | 0, _, _, _ => none
  | fuel + 1, sizes, i, ret =>
    if i < nr then
      if isFree (sizes i) = true ∧ i + withoutFree (sizes i) < nr ∧
          isFree (sizes (i + withoutFree (sizes i))) = true then
        compactFrom nr fuel (Function.update sizes i
          (addUlong (withoutFree (sizes i)) (sizes (i + withoutFree (sizes i))))) i true
      else compactFrom nr fuel sizes (i + withoutFree (sizes i)) ret
    else some (ret, sizes)

/-- `CompactBigHeap`. -/
def compactBigHeap (h : AustereHeap) : Option (Bool × AustereHeap) :=
  (compactFrom h.nrHeapPages (h.nrHeapPages + 2) h.heapBlockSizes 0 false).map fun r =>
    (r.1, { h with heapBlockSizes := r.2 })

/-- The search of `BigAllocation` from run `i` on: a run that is free and long enough, or none when it
is back at the cursor.  If it has seen more runs than there are pages, it never ends. -/
def bigSearch (h : AustereHeap) (nPages : Nat) : Nat → Nat → Option (Option Nat)
  | 0, _ => none
  | fuel + 1, i =>
    if nPages ≤ withoutFree (h.heapBlockSizes i) ∧ isFree (h.heapBlockSizes i) = true then
      some (some i)
    else if (i + withoutFree (h.heapBlockSizes i)) % h.nrHeapPages = h.bigHeapCursor then some none
    else bigSearch h nPages fuel ((i + withoutFree (h.heapBlockSizes i)) % h.nrHeapPages)

/-- From `retry` to the end of the loop. -/
def searchFromCursor (h : AustereHeap) (nPages : Nat) : Option (Option Nat) :=
  h.bigSearch nPages (h.nrHeapPages + 1) (h.bigHeapCursor % h.nrHeapPages)

/-- What `BigAllocation` does with the run that it found. -/
def takePages (h : AustereHeap) (nPages i : Nat) : Option (Nat × AustereHeap) :=
  if h.heapBlockSizes i = withFree nPages then
    some (h.page i, { h with
      heapBlockSizes := Function.update h.heapBlockSizes i nPages
      bigHeapCursor := (i + nPages) % h.nrHeapPages })
  else if isFree (h.heapBlockSizes i) = true ∧ withFree nPages < h.heapBlockSizes i ∧
      i + nPages ≤ austereHeapPages then
    -- Split the chunk.
    let sizes := if i + nPages ≠ austereHeapPages then
        Function.update h.heapBlockSizes (i + nPages) (subUlong (h.heapBlockSizes i) nPages)
      else h.heapBlockSizes
    if isFree (sizes (i + nPages)) = true then
      some (h.page i, { h with
        heapBlockSizes := Function.update sizes i nPages
        bigHeapCursor := (i + nPages) % h.nrHeapPages })
    else none
  else none

/-- The number of pages for so many bytes, as `BigAllocation` computes it. -/
def pagesFor (nBytes : Nat) : Nat := addUlong nBytes (pageSize - 1) / pageSize

/-- `BigAllocation`. -/
def bigAllocation (h : AustereHeap) (nBytes : Nat) : Option (Nat × AustereHeap) :=
  if h.nrHeapPages = 0 then none
  else match h.searchFromCursor (pagesFor nBytes) with
    | none => none
    | some (some i) => h.takePages (pagesFor nBytes) i
    | some none =>
      if 1 < pagesFor nBytes then
        match h.compactBigHeap with
        | none => none
        | some (false, h') => some (0, h')
        | some (true, h') =>
          match h'.searchFromCursor (pagesFor nBytes) with
          | none => none
          | some (some i) => h'.takePages (pagesFor nBytes) i
          | some none => some (0, h')
      else some (0, h)

/-- `start_nr` of `BigFreeMemory`. -/
def startNr (h : AustereHeap) (block : Nat) : Int :=
  Int.tdiv ((block : Int) - (h.bigHeapStart : Int)) (pageSize : Int)

/-- `BigFreeMemory`. -/
def bigFreeMemory (h : AustereHeap) (block : Nat) : AustereHeap :=
  if h.startNr block < 0 ∨ (h.nrHeapPages : Int) ≤ h.startNr block then h
  else if isFree (h.heapBlockSizes (h.startNr block).toNat) = true then h
  else { h with
    heapBlockSizes := Function.update h.heapBlockSizes (h.startNr block).toNat
      (withFree (h.heapBlockSizes (h.startNr block).toNat))
    bigHeapCursor := (h.startNr block).toNat }

/-! ## Subheaps -/

/-- `sh->next`. -/
def next (h : AustereHeap) (sh : Nat) : Nat := h.mem sh

/-- `sh->prev`. -/
def prev (h : AustereHeap) (sh : Nat) : Nat := h.mem (sh + 4)

/-- `sh->free_bytes`. -/
def freeBytes (h : AustereHeap) (sh : Nat) : Nat := h.mem (sh + 8)

def setNext (h : AustereHeap) (sh p : Nat) : AustereHeap := h.store sh p
def setPrev (h : AustereHeap) (sh p : Nat) : AustereHeap := h.store (sh + 4) p
def setFreeBytes (h : AustereHeap) (sh n : Nat) : AustereHeap := h.store (sh + 8) n

/-- The first of `sh->heap`. -/
def heapOf (sh : Nat) : Nat := sh + 12

/-- `sh + 1`. -/
def endOf (sh : Nat) : Nat := sh + 4096

/-- The loop of `TrySmallAllocation` over the chunks: where it ends, and `size` there.  Every chunk
brings it further, or it does not end. -/
def findChunk (mem : Nat → Nat) (stop nBytes : Nat) : Nat → Nat → Nat → Option (Nat × Nat)
  | 0, _, _ => none
  | fuel + 1, ptr, size =>
    if ptr < stop then
      if isFree (mem ptr) = true ∧ nBytes ≤ withoutFree (mem ptr) then
        some (ptr, withoutFree (mem ptr))
      else findChunk mem stop nBytes fuel (ptr + withoutFree (mem ptr)) (withoutFree (mem ptr))
    else some (ptr, size)

/-- A chunk is put in use, the end of it staying free if it is much too long. -/
def cutChunk (h : AustereHeap) (sh nBytes ptr size : Nat) : AustereHeap :=
  if nBytes + 64 < size then
    -- Split the chunk.
    let h := h.store ptr nBytes
    let h := h.store (ptr + nBytes - 4) nBytes
    let h := h.store (ptr + nBytes) (withFree (size - nBytes))
    let h := h.store (ptr + size - 4) (size - nBytes)
    h.setFreeBytes sh (subUlong (h.freeBytes sh) nBytes)
  else
    let h := h.store ptr size
    h.setFreeBytes sh (subUlong (h.freeBytes sh) size)

/-- `TrySmallAllocation`. -/
def trySmallAllocation (h : AustereHeap) (sh nBytes : Nat) : Option (Nat × AustereHeap) :=
  if h.freeBytes sh < nBytes then some (0, h)
  else (findChunk h.mem (endOf sh) nBytes (subheapSize + 1) (heapOf sh) 0xf001dead).map fun r =>
    if endOf sh ≤ r.1 then (0, h) else (r.1 + 4, h.cutChunk sh nBytes r.1 r.2)

/-- `NewSubheap`. -/
def newSubheap (h : AustereHeap) : Option (Nat × AustereHeap) :=
  (h.bigAllocation pageSize).map fun r =>
    if r.1 = 0 then r
    else
      let h := r.2.setFreeBytes r.1 subheapSize
      let h := (h.setPrev r.1 0).setNext r.1 0
      let h := h.store (heapOf r.1) (withFree subheapSize)
      (r.1, h.store (heapOf r.1 + subheapSize - 4) subheapSize)

/-- `sh` is taken out of the list, at the nodes beside it. -/
def unlinkPrev (h : AustereHeap) (sh : Nat) : AustereHeap :=
  if h.prev sh ≠ 0 then h.setNext (h.prev sh) (h.next sh) else h

def unlinkNext (h : AustereHeap) (sh : Nat) : AustereHeap :=
  if h.next sh ≠ 0 then h.setPrev (h.next sh) (h.prev sh) else h

/-- "Pull the subheap to the head of the list", at the end of `SmallAllocation` and of
`SmallFreeMemory`. -/
def pullToHead (h : AustereHeap) (sh : Nat) : AustereHeap :=
  if sh ≠ h.headSubheap then
    let h := (h.unlinkPrev sh).unlinkNext sh
    let h := h.setPrev sh 0
    let h := h.setNext sh h.headSubheap
    { h with headSubheap := sh }
  else h

/-- The loop of `SmallAllocation` over the subheaps: what was allocated, and from which.  A list of more
nodes than there are addresses has no end. -/
def trySubheaps (nBytes : Nat) : Nat → AustereHeap → Nat → Option (Nat × Nat × AustereHeap)
  | 0, _, _ => none
  | fuel + 1, h, sh =>
    if sh = 0 then some (0, sh, h)
    else if nBytes < h.freeBytes sh then
      match h.trySmallAllocation sh nBytes with
      | none => none
      | some (res, h') => if res ≠ 0 then some (res, sh, h') else trySubheaps nBytes fuel h' (h'.next sh)
    else trySubheaps nBytes fuel h (h.next sh)

/-- What `SmallAllocation` makes of a size: rounded up, with header and trailer. -/
def chunkFor (nBytes : Nat) : Nat := (nBytes + 3) / 4 * 4 + 8

/-- `SmallAllocation`. -/
def smallAllocation (h : AustereHeap) (nBytes : Nat) : Option (Nat × AustereHeap) :=
  match trySubheaps (chunkFor nBytes) 4294967297 h h.headSubheap with
  | none => none
  | some (res, sh, h) =>
    if res ≠ 0 then some (res, h.pullToHead sh)
    else match h.newSubheap with
      | none => none
      | some (sh, h) =>
        if sh = 0 then some (0, h)
        else match h.trySmallAllocation sh (chunkFor nBytes) with
          | none => none
          | some (res, h) => if res = 0 then some (0, h) else some (res, h.pullToHead sh)

/-- "Is there a free block above us?", with the size of the chunk then. -/
def mergeUp (h : AustereHeap) (sh ptr size : Nat) : Nat × AustereHeap :=
  if ptr + size < endOf sh ∧ isFree (h.mem (ptr + size)) = true then
    let size := withoutFree (addUlong size (h.mem (ptr + size)))
    (size, (h.store ptr size).store (ptr + size - 4) size)
  else (size, h)

/-- "Is there a free block below us?", with the start of the chunk then. -/
def mergeDown (h : AustereHeap) (sh ptr size : Nat) : Nat × AustereHeap :=
  if heapOf sh < ptr ∧ isFree (h.mem (ptr - h.mem (ptr - 4))) = true then
    let lsize := addUlong (h.mem (ptr - 4)) size
    let l := ptr - h.mem (ptr - 4)
    (l, (h.store l lsize).store (l + lsize - 4) lsize)
  else (ptr, h)

/-- "Release the subheap back to the big pool". -/
def releaseSubheap (h : AustereHeap) (sh : Nat) : AustereHeap :=
  let h := (h.unlinkNext sh).unlinkPrev sh
  let h := if sh = h.headSubheap then { h with headSubheap := h.next sh } else h
  h.bigFreeMemory sh

/-- `SmallFreeMemory`. -/
def smallFreeMemory (h : AustereHeap) (block : Nat) : AustereHeap :=
  let sh := block / pageSize * pageSize
  let ptr := block - 4
  let size := h.mem ptr
  if isFree size = true then h
  else
    let h := h.setFreeBytes sh (addUlong (h.freeBytes sh) size)
    if h.freeBytes sh = subheapSize then h.releaseSubheap sh
    else
      let up := h.mergeUp sh ptr size
      let down := up.2.mergeDown sh ptr up.1
      (down.2.store down.1 (withFree (down.2.mem down.1))).pullToHead sh

/-! ## The top level -/

/-- `memset(p, 0, n)`; of a word that is not wholly in the `n` bytes, the low ones are cleared. -/
def zero (h : AustereHeap) (p n : Nat) : AustereHeap :=
  { h with mem := fun q =>
      if p ≤ q ∧ q < p + n then
        if q + 4 ≤ p + n then 0 else h.mem q / 256 ^ (p + n - q) * 256 ^ (p + n - q)
      else h.mem q }

/-- The size that `_XmAllocateMemory` goes by: at least that of a pointer. -/
def paddedSize (nBytes : Nat) : Nat := max nBytes 4

/-- The small allocator is asked. -/
def goesSmall (nBytes : Nat) : Bool := decide (paddedSize nBytes < pageSize - 4 * 5)

/-- `_XmAllocateMemory` in austere mode. -/
def xmAllocateMemory (h : AustereHeap) (nBytes : Nat) : Option (Nat × AustereHeap) :=
  let res := if goesSmall nBytes then h.smallAllocation (paddedSize nBytes)
    else h.bigAllocation (paddedSize nBytes)
  res.bind fun r => if r.1 ≠ 0 then some (r.1, r.2.zero r.1 (paddedSize nBytes)) else none

/-- `XmFreeMemory` in austere mode. -/
def xmFreeMemory (h : AustereHeap) (block : Nat) : Option AustereHeap :=
  if block = 0 then some h
  else if h.bigHeapStart ≤ block ∧ block < h.bigHeapStart + h.nrHeapPages * pageSize then
    if block % pageSize ≠ 0 then some (h.smallFreeMemory block) else some (h.bigFreeMemory block)
  else none

/-- `XmInitMemory`, of a heap that has contents `mem`. -/
def xmInitMemory (heap nrPages : Nat) (mem : Nat → Nat) : Option AustereHeap :=
  if austereHeapPages < nrPages then none
  else some {
    bigHeapStart := heap
    nrHeapPages := nrPages
    heapBlockSizes := Function.update (fun _ => 0) 0 (withFree nrPages)
    bigHeapCursor := 0
    headSubheap := 0
    mem := mem }

end AustereHeap

/-! ## The heap and its users -/

/-- A block that was allocated, and the size that was asked for. -/
structure LiveBlock where
  address : Nat
  requested : Nat
  deriving DecidableEq, Repr

/-- The end of what the user has of a block. -/
def LiveBlock.stop (b : LiveBlock) : Nat := b.address + AustereHeap.paddedSize b.requested

structure AustereSys where
  heap : AustereHeap
  live : List LiveBlock

inductive AustereAct where
  | allocate (nBytes : UInt32)
  | free (b : LiveBlock)
  /-- The user of a block writes word `k` of it. -/
  | write (b : LiveBlock) (k : Nat) (w : UInt32)

namespace AustereSys

/-- Blocks are freed and written while they are live. -/
def Possible (s : AustereSys) : AustereAct → Prop
  | .allocate _ => True
  | .free b => b ∈ s.live
  | .write b k _ => b ∈ s.live ∧ 4 * k < AustereHeap.paddedSize b.requested

def step (s : AustereSys) : AustereAct → Option AustereSys
  | .allocate nBytes => (s.heap.xmAllocateMemory nBytes.toNat).map fun r =>
      { heap := r.2, live := ⟨r.1, nBytes.toNat⟩ :: s.live }
  | .free b => (s.heap.xmFreeMemory b.address).map fun h => { heap := h, live := s.live.erase b }
  | .write b k w => some { s with heap := s.heap.store (b.address + 4 * k) w.toNat }

/-- After `XmInitMemory`, with a heap of whole pages below the end of memory. -/
def Start (s : AustereSys) : Prop :=
  s.live = [] ∧ ∃ heap nrPages, ∃ mem : Nat → UInt32,
    AustereHeap.xmInitMemory heap nrPages (fun p => (mem p).toNat) = some s.heap ∧
    heap % pageSize = 0 ∧ 0 < heap ∧ heap + nrPages * pageSize ≤ 4294967296

/-- The states of runs whose steps satisfy `ok`. -/
abbrev Reached (ok : AustereSys → AustereAct → Prop) : AustereSys → Prop :=
  Reachable Start (fun s a s' => s.Possible a ∧ s.step a = some s') ok

instance (s : AustereSys) (a : AustereAct) : Decidable (s.Possible a) :=
  match a with
  | .allocate _ => inferInstanceAs (Decidable True)
  | .free b => inferInstanceAs (Decidable (b ∈ s.live))
  | .write b k _ => inferInstanceAs (Decidable (b ∈ s.live ∧ 4 * k < AustereHeap.paddedSize b.requested))

end AustereSys

end V4v.Xenutil
