import LegacyV4v.AustereSafety

/-! # One subheap

A subheap is used by `TrySmallAllocation` and `SmallFreeMemory` from when `NewSubheap` makes it until its
last block is freed.  In between the users of its blocks write them, and the other subheaps are used, which
can change the links of this one, but not so that they lead back to it.  At every time the chunks tile the
heap bytes, free ones are merged, and what the two functions check on their way is as it should be. -/
namespace V4v.Xenutil
open GuardedRun BlockTiling

/-- What the two functions trace. -/
inductive HeapMessage where
  /-- "Heap full!" -/
  | heapFull
  /-- "Heap corruption: header 0." -/
  | headerZero
  /-- "Heap chain corrupt". -/
  | chainCorrupt (header trailer : Nat)
  /-- "Ran off end of heap". -/
  | ranOff (ptr : Nat)
  /-- "Double free". -/
  | doubleFree (block size : Nat)
  deriving DecidableEq, Repr

namespace AustereHeap

/-- What the loop of `TrySmallAllocation` traces, and the check behind it. -/
def findMessages (mem : Nat → Nat) (stop nBytes : Nat) : Nat → Nat → List HeapMessage
  | 0, _ => []
  | fuel + 1, ptr =>
    if ptr < stop then
      (if mem ptr = 0 then [.headerZero] else []) ++
      if isFree (mem ptr) = true ∧ nBytes ≤ withoutFree (mem ptr) then []
      else
        (if mem (ptr + withoutFree (mem ptr) - 4) ≠ withoutFree (mem ptr) then
          [.chainCorrupt (mem ptr) (mem (ptr + withoutFree (mem ptr) - 4))] else []) ++
        findMessages mem stop nBytes fuel (ptr + withoutFree (mem ptr))
    else if ptr = stop then []
    else [.ranOff ptr]

/-- What `TrySmallAllocation` traces. -/
def trySmallMessages (h : AustereHeap) (sh nBytes : Nat) : List HeapMessage :=
  if h.freeBytes sh < nBytes then [.heapFull]
  else findMessages h.mem (endOf sh) nBytes (subheapSize + 1) (heapOf sh)

/-- What `SmallFreeMemory` traces. -/
def smallFreeMessages (h : AustereHeap) (block : Nat) : List HeapMessage :=
  if isFree (h.mem (block - 4)) = true then [.doubleFree block (h.mem (block - 4))] else []

/-- `SmallFreeMemory` comes to "Release subheap". -/
def releases (h : AustereHeap) (block : Nat) : Bool :=
  !isFree (h.mem (block - 4)) &&
    decide (addUlong (h.freeBytes (block / pageSize * pageSize)) (h.mem (block - 4)) = subheapSize)

end AustereHeap

/-- A subheap, the blocks that are allocated from it and have not been freed, whether it has been given
back, and what has been traced. -/
structure SubheapSys where
  heap : AustereHeap
  sh : Nat
  live : List LiveBlock
  released : Bool
  messages : List HeapMessage

inductive SubheapAct where
  /-- `TrySmallAllocation` for a block of `nBytes`. -/
  | allocate (nBytes : Nat)
  /-- `SmallFreeMemory`. -/
  | free (b : LiveBlock)
  /-- The users of the blocks write them, and other parts of the heap are used. -/
  | others (h : AustereHeap)

/-- Address 0, or that of a node which is not in subheap `sh`. -/
def Away (sh p : Nat) : Prop := p = 0 ∨ p + 8 ≤ sh ∨ sh + 4096 ≤ p

/-- The list does not lead from `sh` back to it. -/
structure LinksAway (h : AustereHeap) (sh : Nat) : Prop where
  next : Away sh (h.next sh)
  prev : Away sh (h.prev sh)
  head : h.headSubheap = sh ∨ Away sh h.headSubheap

namespace SubheapSys

/-- In the subheap only live blocks are written. -/
structure Spares (s : SubheapSys) (h : AustereHeap) : Prop where
  same : ∀ p, s.sh + 8 ≤ p → p < s.sh + 4096 →
    (∀ b ∈ s.live, p < b.address ∨ b.address + b.requested ≤ p) → h.mem p = s.heap.mem p
  links : LinksAway h s.sh

/-- The subheap is there, blocks are freed while they are live, and they are of sizes below
`SUBHEAP_SIZE`. -/
def Possible (s : SubheapSys) : SubheapAct → Prop
  | .allocate nBytes => s.released = false ∧ AustereHeap.chunkFor nBytes < subheapSize
  | .free b => s.released = false ∧ b ∈ s.live
  | .others h => s.released = false ∧ s.Spares h

def step (s : SubheapSys) : SubheapAct → Option SubheapSys
  | .allocate nBytes => (s.heap.trySmallAllocation s.sh (AustereHeap.chunkFor nBytes)).map fun r =>
      { s with
        heap := r.2
        live := if r.1 = 0 then s.live else ⟨r.1, nBytes⟩ :: s.live
        messages := s.messages ++ s.heap.trySmallMessages s.sh (AustereHeap.chunkFor nBytes) }
  | .free b => some { s with
      heap := s.heap.smallFreeMemory b.address
      live := s.live.erase b
      released := s.heap.releases b.address
      messages := s.messages ++ s.heap.smallFreeMessages b.address }
  | .others h => some { s with heap := h }

/-- `NewSubheap` has made the subheap, and it is not in the list yet. -/
def Start (s : SubheapSys) : Prop :=
  s.live = [] ∧ s.released = false ∧ s.messages = [] ∧ s.sh ≠ 0 ∧ Away s.sh s.heap.headSubheap ∧
    ∃ h : AustereHeap, h.bigHeapStart % pageSize = 0 ∧ h.newSubheap = some (s.sh, s.heap)

/-- The states of all runs. -/
abbrev Reached : SubheapSys → Prop :=
  Reachable Start (fun s a s' => s.Possible a ∧ s.step a = some s') fun _ _ => True

/-- **The structure of the subheap.**  It is cut into `chunks`, whose headers and trailers say so; free ones are
not adjacent, the used ones are those of live blocks, and an allocation comes to an end and fails only
where no free chunk is large enough. -/
structure Structured (s : SubheapSys) (chunks : List Block) : Prop where
  tiles : Tiles 12 chunks 4096
  header : ∀ x ∈ chunks, s.heap.mem (s.sh + x.start) = tag x
  trailer : ∀ x ∈ chunks, s.heap.mem (s.sh + x.start + x.size - 4) = x.size
  merged : Merged chunks
  freeBytes : s.heap.freeBytes s.sh = freeSize chunks
  used : ∀ p, (∃ x ∈ chunks, x.free = false ∧ p = s.sh + x.start + 4) ↔ ∃ b ∈ s.live, p = b.address
  serves : ∀ nBytes, AustereHeap.chunkFor nBytes < subheapSize → ∃ r,
    s.heap.trySmallAllocation s.sh (AustereHeap.chunkFor nBytes) = some r ∧
      (r.1 = 0 → ∀ x ∈ chunks, ¬ Fits (AustereHeap.chunkFor nBytes) x)

/-- As long as the subheap is there, it has its structure, and nothing is ever traced but that it is
full. -/
structure Sound (s : SubheapSys) : Prop where
  structured : s.released = false → ∃ chunks, s.Structured chunks
  empty : s.released = true → s.live = []
  quiet : ∀ m ∈ s.messages, m = .heapFull

end SubheapSys

/-! ## What is read -/

section
variable {h u : AustereHeap} {mem mem' : Nat → Nat} {sh n p : Nat} {chunks : List Block} {x : Block}

/-- The loop finds nothing to trace. -/
theorem findMessages_nil (hc : ChunksOk mem sh chunks) {fuel ptr : Nat}
    (hptr : ptr = sh + 4096 ∨ ∃ x ∈ chunks, ptr = sh + x.start) :
    AustereHeap.findMessages mem (sh + 4096) n fuel ptr = [] := by
  induction fuel generalizing ptr with
  | zero => rfl
  | succ fuel ih =>
    rw [AustereHeap.findMessages]
    split
    · next hlt =>
      obtain ⟨x, hx, rfl⟩ := hptr.resolve_left hlt.ne
      have hb := hc.bounds hx
      have hheader : mem (sh + x.start) ≠ 0 := by
        rw [(hc.each x hx).header]
        unfold tag
        omega
      rw [if_neg hheader, hc.withoutFree_header hx, List.nil_append]
      split
      · rfl
      · rw [if_neg (not_not_intro (hc.each x hx).trailer), List.nil_append]
        exact ih (hc.next hx)
    · next hge => exact if_pos (hptr.resolve_right fun ⟨x, hx, heq⟩ => by
        have hb := hc.bounds hx
        omega)

theorem SubheapCut.trySmallMessages (hs : SubheapCut h.mem sh chunks) :
    ∀ m ∈ h.trySmallMessages sh n, m = .heapFull := by
  rw [AustereHeap.trySmallMessages]
  split
  · exact fun m hm => List.mem_singleton.mp hm
  · intro m hm
    have hnil : AustereHeap.findMessages h.mem (sh + 4096) n (subheapSize + 1) (AustereHeap.heapOf sh) = [] :=
      findMessages_nil hs.cut hs.cut.first
    exact absurd (hnil ▸ hm) List.not_mem_nil

theorem SubheapCut.smallFreeMessages (hs : SubheapCut h.mem sh chunks) (hx : x ∈ chunks)
    (hused : x.free = false) (hpage : sh % pageSize = 0) : h.smallFreeMessages (sh + x.start + 4) = [] := by
  obtain ⟨-, hsize, hnot, -⟩ := hs.found hx hused hpage
  rw [AustereHeap.smallFreeMessages, hsize, if_neg (Bool.eq_false_iff.mp hnot)]

theorem SubheapCut.releases (hs : SubheapCut h.mem sh chunks) (hx : x ∈ chunks) (hused : x.free = false)
    (hpage : sh % pageSize = 0) :
    h.releases (sh + x.start + 4) = decide (freeSize chunks + x.size = subheapSize) := by
  obtain ⟨hsh, hsize, hnot, hsum⟩ := hs.found hx hused hpage
  rw [AustereHeap.releases, hsize, hsh, hnot, hsum]
  rfl

/-- Only what the users of the chunks have may be written. -/
theorem SubheapCut.congr (hs : SubheapCut mem sh chunks)
    (hmem : ∀ p, sh + 8 ≤ p → p < sh + 4096 →
      (∀ x ∈ chunks, x.free = false → p < sh + x.start + 4 ∨ sh + x.start + x.size - 4 ≤ p) →
      mem' p = mem p) : SubheapCut mem' sh chunks where
  cut := hs.cut.congr fun p hlo => hmem p (by omega)
  free := by
    refine (hmem _ le_rfl (by omega) fun x hx _ => ?_).trans hs.free
    have hb := hs.cut.bounds hx
    omega

/-! ## The links -/

theorem Away.ne (ha : Away sh p) (hp : p ≠ 0) {q : Nat} (hlo : sh ≤ q) (hhi : q < sh + 4096) :
    q ≠ p ∧ q ≠ p + 4 := by
  rcases ha with rfl | ha | ha
  · exact absurd rfl hp
  · omega
  · omega

/-- `prev` is not in the subheap. -/
theorem unlinkPrev_mem (ha : Away sh (h.prev sh)) (hlo : sh ≤ p) (hhi : p < sh + 4096) :
    (h.unlinkPrev sh).mem p = h.mem p := by
  rw [AustereHeap.unlinkPrev]
  split
  · next hprev => exact Function.update_of_ne (ha.ne hprev hlo hhi).1 ..
  · rfl

theorem unlinkNext_mem (ha : Away sh (h.next sh)) (hlo : sh ≤ p) (hhi : p < sh + 4096) :
    (h.unlinkNext sh).mem p = h.mem p := by
  rw [AustereHeap.unlinkNext]
  split
  · next hnext => exact Function.update_of_ne (ha.ne hnext hlo hhi).2 ..
  · rfl

theorem unlinkPrev_head : (h.unlinkPrev sh).headSubheap = h.headSubheap := by
  rw [AustereHeap.unlinkPrev]
  split <;> rfl

theorem unlinkNext_head : (h.unlinkNext sh).headSubheap = h.headSubheap := by
  rw [AustereHeap.unlinkNext]
  split <;> rfl

/-- **A subheap is pulled to the head of the list**, and it stays as it is. -/
theorem LinksAway.pulled (hl : LinksAway h sh) : LinksAway (h.pullToHead sh) sh ∧
    ∀ p, sh + 8 ≤ p → p < sh + 4096 → (h.pullToHead sh).mem p = h.mem p := by
  by_cases hhead : h.headSubheap = sh
  · rw [pullToHead_head hhead]
    exact ⟨hl, fun _ _ _ => rfl⟩
  · have hne : sh ≠ h.headSubheap := Ne.symm hhead
    have hun : ∀ p, sh ≤ p → p < sh + 4096 → ((h.unlinkPrev sh).unlinkNext sh).mem p = h.mem p := by
      intro p hlo hhi
      have hnext : (h.unlinkPrev sh).next sh = h.next sh := unlinkPrev_mem hl.prev le_rfl (by omega)
      rw [unlinkNext_mem (hnext ▸ hl.next) hlo hhi, unlinkPrev_mem hl.prev hlo hhi]
    rw [AustereHeap.pullToHead, if_pos hne]
    refine ⟨{ next := ?_, prev := ?_, head := .inl rfl }, fun p hlo hhi => ?_⟩
    · have hold : ((h.unlinkPrev sh).unlinkNext sh).headSubheap = h.headSubheap :=
        unlinkNext_head.trans unlinkPrev_head
      simp only [AustereHeap.next, AustereHeap.setNext, AustereHeap.setPrev, AustereHeap.store,
        Function.update_self, hold]
      exact hl.head.resolve_left hhead
    · refine .inl ?_
      simp (disch := omega) only [AustereHeap.prev, AustereHeap.setNext, AustereHeap.setPrev,
        AustereHeap.store, Function.update_of_ne, Function.update_self]
    · rw [← hun p (by omega) hhi]
      simp (disch := omega) only [AustereHeap.setNext, AustereHeap.setPrev, AustereHeap.store,
        Function.update_of_ne]

/-- The links are as before. -/
theorem LinksAway.congr (hl : LinksAway h sh) (hhead : u.headSubheap = h.headSubheap)
    (hmem : ∀ p, p = sh ∨ p = sh + 4 → u.mem p = h.mem p) : LinksAway u sh where
  next := by
    rw [AustereHeap.next, hmem sh (.inl rfl)]
    exact hl.next
  prev := by
    rw [AustereHeap.prev, hmem (sh + 4) (.inr rfl)]
    exact hl.prev
  head := by
    rw [hhead]
    exact hl.head

end

namespace SubheapSys

/-! ## The invariant -/

variable {s s' : SubheapSys} {chunks : List Block} {b c : LiveBlock} {x y : Block}

/-- The block is in chunk `x`. -/
def Uses (s : SubheapSys) (b : LiveBlock) (x : Block) : Prop :=
  b.address = s.sh + x.start + 4 ∧ AustereHeap.chunkFor b.requested ≤ x.size

/-- The subheap is cut into `chunks`, and each used one has its block. -/
structure Cut (s : SubheapSys) (chunks : List Block) : Prop where
  page : s.sh % pageSize = 0
  cut : SubheapCut s.heap.mem s.sh chunks
  merged : Merged chunks
  links : LinksAway s.heap s.sh
  owner : ∀ b ∈ s.live, ∃ x ∈ chunks, x.free = false ∧ s.Uses b x
  owned : ∀ x ∈ chunks, x.free = false → ∃ b ∈ s.live, s.Uses b x
  distinct : (s.live.map LiveBlock.address).Nodup

structure Inv (s : SubheapSys) : Prop where
  there : s.released = false → ∃ chunks, s.Cut chunks
  empty : s.released = true → s.live = []
  quiet : ∀ m ∈ s.messages, m = .heapFull

theorem Cut.eq_of_address (hc : s.Cut chunks) (hb : b ∈ s.live) (hc' : c ∈ s.live)
    (heq : b.address = c.address) : b = c :=
  List.inj_on_of_nodup_map hc.distinct hb hc' heq

/-- A block uses one chunk. -/
theorem Cut.eq_of_uses (hc : s.Cut chunks) (hx : x ∈ chunks) (hy : y ∈ chunks) (hbx : s.Uses b x)
    (hcy : s.Uses c y) (heq : b.address = c.address) : x = y := by
  have hbaddr := hbx.1
  have hcaddr := hcy.1
  exact hc.cut.cut.tiles.eq_of_start hx hy (by omega)

/-- `TrySmallAllocation` cuts a chunk. -/
theorem Cut.allocated (hc : s.Cut chunks) (hx : x ∈ chunks) {n : Nat} (hfit : Fits (AustereHeap.chunkFor n) x)
    (messages : List HeapMessage) : ∃ chunks', Cut { s with
      heap := s.heap.cutChunk s.sh (AustereHeap.chunkFor n) (s.sh + x.start) x.size
      live := ⟨s.sh + x.start + 4, n⟩ :: s.live
      messages := messages } chunks' := by
  obtain ⟨hlarge, hfour, -⟩ := AustereHeap.chunkFor_ok n
  obtain ⟨chunks', m, w, hcut, hr, hup, htakes, ⟨mem, honly⟩, hkeep⟩ :=
    cutChunk_cut hc.cut hx hfit hlarge hfour
  have hb := hc.cut.cut.bounds hx
  have hw : w.start = x.start ∧ AustereHeap.chunkFor n ≤ w.size := by
    cases hup with
    | whole => exact ⟨rfl, hfit.2⟩
    | part => exact ⟨rfl, le_rfl⟩
  refine ⟨chunks', { page := hc.page, cut := hcut, merged := ?_, links := ?_, owner := ?_, owned := ?_, distinct := ?_ }⟩
  · cases hup with
    | whole =>
      refine hc.merged.shrink fun y hy hyf => ?_
      rcases (hr.mem y).mp hy with hy | ⟨hy, -⟩
      · rw [List.mem_singleton.mp hy] at hyf
        cases hyf
      · exact hy
    | part hlt => exact hc.merged.split hc.cut.cut.tiles hx hfit.1 (by omega) hlt hr
  · refine hc.links.congr (by rw [honly]) fun p hp => hkeep p ?_ ?_
    · omega
    · omega
  · intro c hcl
    rcases List.mem_cons.mp hcl with rfl | hcl
    · exact ⟨w, htakes.mem, htakes.isUsed, by rw [hw.1], hw.2⟩
    · obtain ⟨y, hy, hyf, hu⟩ := hc.owner c hcl
      exact ⟨y, (htakes.others y hyf).mpr (.inr hy), hyf, hu⟩
  · intro y hy hyf
    rcases (htakes.others y hyf).mp hy with rfl | hy
    · exact ⟨_, List.mem_cons_self, by rw [hw.1], hw.2⟩
    · obtain ⟨c, hcl, hu⟩ := hc.owned y hy hyf
      exact ⟨c, List.mem_cons_of_mem _ hcl, hu⟩
  · refine List.nodup_cons.mpr ⟨fun hmem => ?_, hc.distinct⟩
    obtain ⟨c, hcl, haddr⟩ := List.mem_map.mp hmem
    obtain ⟨y, hy, hyf, hu⟩ := hc.owner c hcl
    have hstart : y.start = x.start := by
      have hcaddr := hu.1
      dsimp only at haddr
      omega
    obtain rfl := hc.cut.cut.tiles.eq_of_start hy hx hstart
    exact Bool.noConfusion (hyf.symm.trans hfit.1)

/-- Users write their blocks. -/
theorem Cut.others {h : AustereHeap} (hc : s.Cut chunks) (hs : s.Spares h) : Cut { s with heap := h } chunks where
  page := hc.page
  cut := by
    refine hc.cut.congr fun p hlo hhi hout => hs.same p hlo hhi fun b hb => ?_
    obtain ⟨x, hx, hxf, haddr, hsize⟩ := hc.owner b hb
    have hle := (AustereHeap.chunkFor_ok b.requested).2.2
    have hxb := hc.cut.cut.bounds hx
    have haway := hout x hx hxf
    omega
  merged := hc.merged
  links := hs.links
  owner := hc.owner
  owned := hc.owned
  distinct := hc.distinct

/-- `SmallFreeMemory` where other blocks are live. -/
theorem Cut.freed (hc : s.Cut chunks) (hb : b ∈ s.live) (hx : x ∈ chunks) (hxf : x.free = false)
    (hu : s.Uses b x) (hmore : freeSize chunks + x.size ≠ subheapSize) (released : Bool)
    (messages : List HeapMessage) : ∃ chunks', Cut { s with
      heap := s.heap.smallFreeMemory b.address
      live := s.live.erase b
      released := released
      messages := messages } chunks' := by
  obtain ⟨h', chunks', heq, hfreed⟩ := smallFreeMemory_freed hc.cut hx hxf hc.page hmore
  have hnd : s.live.Nodup := hc.distinct.of_map
  obtain ⟨mem, rfl, hmem⟩ := hfreed.only
  obtain ⟨hlinks, hpulled⟩ := (hc.links.congr (u := { s.heap with mem := mem }) rfl fun p hp =>
    hmem p (by omega) (by omega)).pulled
  rw [hu.1, heq]
  refine ⟨chunks', { page := hc.page, cut := ?_, merged := hfreed.merged hc.merged, links := hlinks, owner := ?_, owned := ?_, distinct := ?_ }⟩
  · exact hfreed.cut.congr fun p hlo hhi _ => hpulled p hlo hhi
  · intro c hcl
    obtain ⟨hne, hcl⟩ := (List.Nodup.mem_erase_iff hnd).mp hcl
    obtain ⟨y, hy, hyf, huy⟩ := hc.owner c hcl
    refine ⟨y, (hfreed.others y hyf).mpr ⟨hy, ?_⟩, hyf, huy⟩
    rintro rfl
    exact hne (hc.eq_of_address hcl hb (huy.1.trans hu.1.symm))
  · intro y hy hyf
    obtain ⟨hy, hne⟩ := (hfreed.others y hyf).mp hy
    obtain ⟨c, hcl, huy⟩ := hc.owned y hy hyf
    refine ⟨c, (List.Nodup.mem_erase_iff hnd).mpr ⟨?_, hcl⟩, huy⟩
    rintro rfl
    exact hne (hc.eq_of_uses hy hx huy hu rfl)
  · exact (List.erase_sublist.map _).nodup hc.distinct

/-- Where the subheap is released, no block is left. -/
theorem Cut.last (hc : s.Cut chunks) (hb : b ∈ s.live) (hx : x ∈ chunks) (hxf : x.free = false)
    (hu : s.Uses b x) (hall : freeSize chunks + x.size = subheapSize) : s.live.erase b = [] := by
  rw [List.eq_nil_iff_forall_not_mem]
  intro c hcl
  obtain ⟨hne, hcl⟩ := (List.Nodup.mem_erase_iff hc.distinct.of_map).mp hcl
  obtain ⟨y, hy, hyf, huy⟩ := hc.owner c hcl
  obtain rfl := hc.cut.last_used hx hxf hall hy hyf
  exact hne (hc.eq_of_address hcl hb (huy.1.trans hu.1.symm))

/-! ## The start -/

theorem takePages_page {h u : AustereHeap} {n i res : Nat} (heq : h.takePages n i = some (res, u)) :
    res = h.page i := by
  unfold AustereHeap.takePages at heq
  split at heq
  · cases heq
    rfl
  · dsimp only at heq
    rw [Option.ite_none_right_eq_some, Option.ite_none_right_eq_some] at heq
    obtain ⟨-, -, hpair⟩ := heq
    cases hpair
    rfl

theorem compactBigHeap_start {h u : AustereHeap} {ret : Bool} (heq : h.compactBigHeap = some (ret, u)) :
    u.bigHeapStart = h.bigHeapStart := by
  obtain ⟨_, -, hpair⟩ := Option.map_eq_some_iff.mp heq
  cases hpair
  rfl

/-- `BigAllocation` returns a page, or `NULL`. -/
theorem bigAllocation_page {h u : AustereHeap} {n res : Nat} (hbase : h.bigHeapStart % pageSize = 0)
    (heq : h.bigAllocation n = some (res, u)) : res % pageSize = 0 := by
  have hpage : ∀ {v : AustereHeap} {i : Nat}, v.bigHeapStart = h.bigHeapStart → v.page i % pageSize = 0 := by
    intro v i hv
    rw [AustereHeap.page, hv, Nat.add_mul_mod_self_right, hbase]
  unfold AustereHeap.bigAllocation at heq
  split at heq
  · exact nomatch heq
  · split at heq
    · exact nomatch heq
    · rw [takePages_page heq]
      exact hpage rfl
    · split at heq
      · split at heq
        · exact nomatch heq
        · cases heq
          rfl
        · next hcompact =>
          split at heq
          · exact nomatch heq
          · rw [takePages_page heq]
            exact hpage (compactBigHeap_start hcompact)
          · cases heq
            rfl
      · cases heq
        rfl

theorem Start.inv (hs : s.Start) : s.Inv := by
  obtain ⟨hlive, hreleased, hmessages, hsh, hhead, h, hbase, hnew⟩ := hs
  obtain ⟨u, hbig, -, hok⟩ := newSubheap_ok hnew hsh
  refine { there := fun _ => ⟨[⟨12, 4084, true⟩], ?_⟩, empty := fun _ => hlive, quiet := ?_ }
  · refine { page := bigAllocation_page hbase hbig, cut := hok.isCut, merged := ?_, links := ?_, owner := ?_, owned := ?_, distinct := ?_ }
    · intro x hx y hy _ _
      rw [List.mem_singleton.mp hx, List.mem_singleton.mp hy]
      decide
    · exact { next := .inl hok.alone.1, prev := .inl hok.alone.2, head := .inr hhead }
    · rw [hlive]
      exact fun b hb => nomatch hb
    · intro x hx hxf
      rw [List.mem_singleton.mp hx] at hxf
      cases hxf
    · rw [hlive]
      exact List.nodup_nil
  · rw [hmessages]
    exact fun m hm => nomatch hm

/-! ## The steps -/

theorem quiet_append {l l' : List HeapMessage} (hl : ∀ m ∈ l, m = .heapFull) (hl' : ∀ m ∈ l', m = .heapFull) :
    ∀ m ∈ l ++ l', m = .heapFull :=
  fun m hm => (List.mem_append.mp hm).elim (hl m) (hl' m)

/-- **A step keeps the invariant.** -/
theorem Inv.step {a : SubheapAct} (hinv : s.Inv) (hpos : s.Possible a) (heq : s.step a = some s') :
    s'.Inv := by
  cases a with
  | allocate n =>
    obtain ⟨hthere, -⟩ := hpos
    obtain ⟨chunks, hc⟩ := hinv.there hthere
    obtain ⟨r, hr, hcases⟩ := trySmallAllocation_cases (n := AustereHeap.chunkFor n) hc.cut
    obtain ⟨r', hr', rfl⟩ := Option.map_eq_some_iff.mp heq
    obtain rfl := Option.some.inj (hr.symm.trans hr')
    have hreleased : ∀ {P : Prop}, s.released = true → P := fun h => Bool.noConfusion (hthere.symm.trans h)
    refine { there := fun _ => ?_, empty := hreleased, quiet := quiet_append hinv.quiet hc.cut.trySmallMessages }
    rcases hcases with ⟨rfl, -⟩ | ⟨x, hx, hfit, rfl⟩
    · exact ⟨chunks, hc.page, hc.cut, hc.merged, hc.links, hc.owner, hc.owned, hc.distinct⟩
    · dsimp only
      rw [if_neg (Nat.succ_ne_zero _)]
      exact hc.allocated hx hfit _
  | free b =>
    obtain ⟨hthere, hb⟩ := hpos
    obtain ⟨chunks, hc⟩ := hinv.there hthere
    obtain ⟨x, hx, hxf, hu⟩ := hc.owner b hb
    have hrel := hc.cut.releases hx hxf hc.page
    have hmsg := hc.cut.smallFreeMessages hx hxf hc.page
    rw [← hu.1] at hrel hmsg
    cases heq
    refine { there := fun hnot => ?_, empty := fun hnow => ?_, quiet := ?_ }
    · exact hc.freed hb hx hxf hu (of_decide_eq_false (hrel.symm.trans hnot)) _ _
    · exact hc.last hb hx hxf hu (of_decide_eq_true (hrel.symm.trans hnow))
    · refine quiet_append hinv.quiet ?_
      rw [hmsg]
      exact fun m hm => nomatch hm
  | others h =>
    obtain ⟨hthere, hs⟩ := hpos
    obtain ⟨chunks, hc⟩ := hinv.there hthere
    cases heq
    exact { there := fun _ => ⟨chunks, hc.others hs⟩, empty := hinv.empty, quiet := hinv.quiet }

theorem Reached.inv (h : Reached s) : s.Inv :=
  h.invariant (fun _ hs => hs.inv) fun _ _ _ hinv _ hstep => hinv.step hstep.1 hstep.2

theorem Cut.structured (hc : s.Cut chunks) : s.Structured chunks where
  tiles := hc.cut.cut.tiles
  header x hx := (hc.cut.cut.each x hx).header
  trailer x hx := (hc.cut.cut.each x hx).trailer
  merged := hc.merged
  freeBytes := hc.cut.free
  used p := by
    constructor
    · rintro ⟨x, hx, hxf, rfl⟩
      obtain ⟨b, hb, hu⟩ := hc.owned x hx hxf
      exact ⟨b, hb, hu.1.symm⟩
    · rintro ⟨b, hb, rfl⟩
      obtain ⟨x, hx, hxf, hu⟩ := hc.owner b hb
      exact ⟨x, hx, hxf, hu.1⟩
  serves n _ := by
    obtain ⟨r, hr, hcases⟩ := trySmallAllocation_cases (n := AustereHeap.chunkFor n) hc.cut
    refine ⟨r, hr, fun hzero => ?_⟩
    rcases hcases with ⟨-, hnone⟩ | ⟨x, -, -, rfl⟩
    · exact hnone
    · exact absurd hzero (Nat.succ_ne_zero _)

/-- **A subheap has its structure** in every run. -/
theorem subheap_sound (h : Reached s) : s.Sound where
  structured hthere := (h.inv.there hthere).imp fun _ hc => hc.structured
  empty := h.inv.empty
  quiet := h.inv.quiet

/-- Two blocks are allocated, and the first is freed. -/
theorem subheap_sound_two : ∃ s : SubheapSys, s.live = [⟨4132, 20⟩] ∧ s.released = false ∧ s.Sound := by
  obtain ⟨⟨sh, h⟩, hnew, hr⟩ := (Option.any_eq_true
    (fun r : Nat × AustereHeap => decide (r.1 = 4096 ∧ r.2.headSubheap = 0))
      AustereSys.twoPages.heap.newSubheap).mp (by decide +kernel)
  obtain ⟨rfl, hhead⟩ := of_decide_eq_true hr
  obtain ⟨t, ht, hp⟩ := (Option.any_eq_true
    (fun t : SubheapSys => decide (t.released = false)) ((AustereSys.twoPages.heap.newSubheap).bind
      fun r => step ⟨r.2, 4096, [], false, []⟩ (.allocate 10))).mp (by decide +kernel)
  obtain ⟨u, hu, hq⟩ := (Option.any_eq_true
    (fun u : SubheapSys => decide (u.released = false ∧ ⟨4112, 10⟩ ∈ u.live))
      ((AustereSys.twoPages.heap.newSubheap).bind fun r =>
        (step ⟨r.2, 4096, [], false, []⟩ (.allocate 10)).bind (·.step (.allocate 20)))).mp (by decide +kernel)
  obtain ⟨v, hv, hlive⟩ := (Option.any_eq_true
    (fun v : SubheapSys => decide (v.live = [⟨4132, 20⟩] ∧ v.released = false))
      ((AustereSys.twoPages.heap.newSubheap).bind fun r =>
        ((step ⟨r.2, 4096, [], false, []⟩ (.allocate 10)).bind (·.step (.allocate 20))).bind
          (·.step (.free ⟨4112, 10⟩)))).mp (by decide +kernel)
  rw [hnew, Option.bind_some] at ht hu hv
  rw [ht, Option.bind_some] at hu hv
  rw [hu, Option.bind_some] at hv
  have hstart : Start ⟨h, 4096, [], false, []⟩ :=
    ⟨rfl, rfl, rfl, Nat.succ_ne_zero _, .inl hhead, AustereSys.twoPages.heap, rfl, hnew⟩
  obtain ⟨hl, hreleased⟩ := of_decide_eq_true hlive
  refine ⟨v, hl, hreleased, subheap_sound ?_⟩
  have hten : Possible ⟨h, 4096, [], false, []⟩ (.allocate 10) := ⟨rfl, by decide⟩
  have htwenty : t.Possible (.allocate 20) := ⟨of_decide_eq_true hp, by decide⟩
  have hlast := of_decide_eq_true hq
  have hfree : u.Possible (.free ⟨4112, 10⟩) := hlast
  exact .next (.next (.next (.start hstart) trivial ⟨hten, ht⟩) trivial ⟨htwenty, hu⟩) trivial ⟨hfree, hv⟩

end SubheapSys

end V4v.Xenutil
