import LegacyV4v.AustereChunks
import Mathlib.Data.List.Nodup

/-! # Safety of the austere heap

The live blocks are apart from each other and in the heap, and the list of subheaps is sound, as long as
there is at most one subheap.  A second one is put in front of the first without setting the `prev` of
the first, and the two links between them do not agree from then on.  So a careful user never asks for a
small block that does not fit into the subheap that there is; and never for a size that is rounded up to
more than an address can be. -/
namespace V4v.Xenutil
open GuardedRun BlockTiling

namespace AustereHeap

/-- From `sh` on the list is `l`, and `q` is before it. -/
def Linked (h : AustereHeap) : Nat → Nat → List Nat → Prop
  | _, sh, [] => sh = 0
  | q, sh, x :: l => sh ≠ 0 ∧ x = sh ∧ h.prev sh = q ∧ h.Linked sh (h.next sh) l

/-- The headers of a subheap lead to `p`. -/
inductive ChunkAt (h : AustereHeap) (sh : Nat) : Nat → Prop
  | first : ChunkAt h sh (heapOf sh)
  | next {p : Nat} : ChunkAt h sh p → p < endOf sh → ChunkAt h sh (p + withoutFree (h.mem p))

/-- There is no subheap, or a free chunk of `nBytes` in the first, which has more than that free. -/
def HasRoom (h : AustereHeap) (nBytes : Nat) : Prop :=
  h.headSubheap = 0 ∨ nBytes < h.freeBytes h.headSubheap ∧ ∃ p, h.ChunkAt h.headSubheap p ∧
    p < endOf h.headSubheap ∧ isFree (h.mem p) = true ∧ nBytes ≤ withoutFree (h.mem p)

end AustereHeap

/-- **What the heap is for.**  Live blocks do not overlap, each as large as was asked for, and the list
from `head_subheap` is linked both ways and has the subheaps of the small ones. -/
structure AustereSys.Safe (s : AustereSys) : Prop where
  inside : ∀ b ∈ s.live, s.heap.bigHeapStart ≤ b.address ∧
    b.stop ≤ s.heap.bigHeapStart + s.heap.nrHeapPages * pageSize
  apart : s.live.Pairwise fun b c => b.stop ≤ c.address ∨ c.stop ≤ b.address
  list : ∃ l, l.Nodup ∧ s.heap.Linked 0 s.heap.headSubheap l ∧ ∀ sh, sh ∈ l ↔
    ∃ b ∈ s.live, AustereHeap.goesSmall b.requested = true ∧ b.address / pageSize * pageSize = sh

/-- Sizes can be rounded up, and small blocks do not need a second subheap. -/
def AustereSys.Careful (s : AustereSys) : AustereAct → Prop
  | .allocate nBytes => nBytes.toNat + (pageSize - 1) < 4294967296 ∧
      (AustereHeap.goesSmall nBytes.toNat = true →
        s.heap.HasRoom (AustereHeap.chunkFor (AustereHeap.paddedSize nBytes.toNat)))
  | .free _ => True
  | .write _ _ _ => True

/-! ## The invariant -/

section
variable {h h' : AustereHeap} {pages chunks pages' chunks' : List Block} {b c : LiveBlock}
  {live : List LiveBlock} {x z : Block}

/-- The heap starts at a page that is not the first of memory. -/
def AustereHeap.Placed (h : AustereHeap) : Prop := h.bigHeapStart % pageSize = 0 ∧ 0 < h.bigHeapStart

/-- There is no subheap, or one, which has a page to itself. -/
def AustereHeap.HeadOk (h : AustereHeap) (pages chunks : List Block) : Prop :=
  h.headSubheap = 0 ∧ chunks = [] ∨
    (∃ z ∈ pages, z.free = false ∧ h.headSubheap = h.page z.start) ∧
      SubheapOk h.mem h.headSubheap chunks

/-- A block of the big allocator. -/
def AustereHeap.IsBig (h : AustereHeap) (pages : List Block) (b : LiveBlock) : Prop :=
  AustereHeap.goesSmall b.requested = false ∧ ∃ z ∈ pages, z.free = false ∧
    b.address = h.page z.start ∧ b.address ≠ h.headSubheap ∧
    AustereHeap.paddedSize b.requested ≤ z.size * pageSize

/-- A block of the small allocator, with its chunk. -/
def AustereHeap.Uses (h : AustereHeap) (b : LiveBlock) (x : Block) : Prop :=
  AustereHeap.goesSmall b.requested = true ∧ b.address = h.headSubheap + x.start + 4 ∧
    AustereHeap.paddedSize b.requested + 8 ≤ x.size

/-- The pages are cut into `pages` and the subheap into `chunks`, and the live blocks have their places
there. -/
structure HeapInv (h : AustereHeap) (live : List LiveBlock) (pages chunks : List Block) : Prop where
  placed : h.Placed
  cut : PagesOk h pages
  cursor : CursorOk h pages
  head : h.HeadOk pages chunks
  owner : ∀ b ∈ live, h.IsBig pages b ∨ ∃ x ∈ chunks, x.free = false ∧ h.Uses b x
  owned : ∀ x ∈ chunks, x.free = false → ∃ b ∈ live, h.Uses b x
  distinct : (live.map LiveBlock.address).Nodup

/-- The subheap is not kept empty. -/
def AustereHeap.Busy (h : AustereHeap) (chunks : List Block) : Prop :=
  h.headSubheap = 0 ∨ freeSize chunks < subheapSize

theorem AustereHeap.Placed.page_mod (hp : h.Placed) (i : Nat) : h.page i % pageSize = 0 := by
  have hbase := hp.1
  unfold AustereHeap.page pageSize at *
  omega

theorem AustereHeap.Placed.page_pos (hp : h.Placed) (i : Nat) : 0 < h.page i :=
  Nat.add_pos_left hp.2 _

namespace HeapInv

/-- Where there is a chunk, there is a subheap. -/
theorem subheap (hinv : HeapInv h live pages chunks) (hx : x ∈ chunks) :
    (∃ z ∈ pages, z.free = false ∧ h.headSubheap = h.page z.start) ∧
      SubheapOk h.mem h.headSubheap chunks := by
  rcases hinv.head with ⟨-, rfl⟩ | hsub
  · exact nomatch hx
  · exact hsub

theorem eq_of_address (hinv : HeapInv h live pages chunks) (hb : b ∈ live) (hc : c ∈ live)
    (heq : b.address = c.address) : b = c :=
  List.inj_on_of_nodup_map hinv.distinct hb hc heq

/-- Runs at different addresses are apart. -/
theorem runs_apart (hinv : HeapInv h live pages chunks) (hz : z ∈ pages) (hx : x ∈ pages)
    (hne : h.page z.start ≠ h.page x.start) :
    h.page z.start + z.size * pageSize ≤ h.page x.start ∨
      h.page x.start + x.size * pageSize ≤ h.page z.start := by
  have hapart := (hinv.cut.tiles.apart hz hx).resolve_left fun heq => hne (heq ▸ rfl)
  unfold Block.stop at hapart
  unfold AustereHeap.page pageSize
  omega

/-- A run is in the heap, and it is a page at least. -/
theorem run_bounds (hinv : HeapInv h live pages chunks) (hz : z ∈ pages) :
    h.bigHeapStart ≤ h.page z.start ∧ pageSize ≤ z.size * pageSize ∧
      h.page z.start + z.size * pageSize ≤ h.bigHeapStart + h.nrHeapPages * pageSize := by
  have hb := hinv.cut.bounds hz
  unfold AustereHeap.page pageSize
  omega

/-- Small blocks are in the page of the subheap, behind its header. -/
theorem small_bounds (hinv : HeapInv h live pages chunks) (hx : x ∈ chunks) (hu : h.Uses b x) :
    h.headSubheap + 16 ≤ b.address ∧ b.address + 4 ≤ b.stop ∧ b.stop + 4 ≤ h.headSubheap + pageSize := by
  have hb := (hinv.subheap hx).2.cut.bounds hx
  obtain ⟨-, haddr, hsize⟩ := hu
  have hpad : 4 ≤ AustereHeap.paddedSize b.requested := Nat.le_max_right ..
  unfold LiveBlock.stop pageSize
  omega

/-- Live blocks do not overlap. -/
theorem apart (hinv : HeapInv h live pages chunks) (hb : b ∈ live) (hc : c ∈ live) (hne : b ≠ c) :
    b.stop ≤ c.address ∨ c.stop ≤ b.address := by
  have haddr : b.address ≠ c.address := fun heq => hne (hinv.eq_of_address hb hc heq)
  rcases hinv.owner b hb with ⟨-, z, hz, -, hbz, hbhead, hbsize⟩ | ⟨x, hx, -, hu⟩ <;>
    rcases hinv.owner c hc with ⟨-, w, hw, -, hcw, hchead, hcsize⟩ | ⟨y, hy, -, hv⟩
  · -- two big blocks
    have hapart := hinv.runs_apart hz hw (by rwa [← hbz, ← hcw])
    unfold LiveBlock.stop
    omega
  · -- a big one and a small one
    obtain ⟨⟨w, hw, -, hcw⟩, -⟩ := hinv.subheap hy
    have hapart := hinv.runs_apart hz hw (by rwa [← hbz, ← hcw])
    have hwb := hinv.run_bounds hw
    have hcb := hinv.small_bounds hy hv
    unfold LiveBlock.stop at hcb ⊢
    omega
  · obtain ⟨⟨z, hz, -, hbz⟩, -⟩ := hinv.subheap hx
    have hapart := hinv.runs_apart hw hz (by rwa [← hbz, ← hcw])
    have hzb := hinv.run_bounds hz
    have hbb := hinv.small_bounds hx hu
    unfold LiveBlock.stop at hbb ⊢
    omega
  · -- two small blocks
    have hxy : x ≠ y := by
      rintro rfl
      exact haddr (hu.2.1.trans hv.2.1.symm)
    have hs := (hinv.subheap hx).2.cut
    have hapart := hs.apart hx hy hxy
    have hxb := hs.bounds hx
    have hyb := hs.bounds hy
    obtain ⟨-, hba, hbs⟩ := hu
    obtain ⟨-, hca, hcs⟩ := hv
    unfold LiveBlock.stop
    omega

theorem inside (hinv : HeapInv h live pages chunks) (hb : b ∈ live) :
    h.bigHeapStart ≤ b.address ∧ b.stop ≤ h.bigHeapStart + h.nrHeapPages * pageSize := by
  rcases hinv.owner b hb with ⟨-, z, hz, -, hbz, -, hbsize⟩ | ⟨x, hx, -, hu⟩
  · have hzb := hinv.run_bounds hz
    unfold LiveBlock.stop
    omega
  · obtain ⟨⟨z, hz, -, hbz⟩, -⟩ := hinv.subheap hx
    have hzb := hinv.run_bounds hz
    have hbb := hinv.small_bounds hx hu
    omega

/-- The page of a small block is the subheap. -/
theorem page_of_small (hinv : HeapInv h live pages chunks) (hx : x ∈ chunks) (hu : h.Uses b x) :
    b.address / pageSize * pageSize = h.headSubheap := by
  obtain ⟨⟨z, -, -, hhead⟩, -⟩ := hinv.subheap hx
  have hmod := hinv.placed.page_mod z.start
  have hbb := hinv.small_bounds hx hu
  unfold pageSize at hmod hbb ⊢
  omega

/-- **The invariant is what the heap is for.** -/
theorem safe {s : AustereSys} (hinv : HeapInv s.heap s.live pages chunks) (hbusy : s.heap.Busy chunks) :
    s.Safe where
  inside b hb := hinv.inside hb
  apart := by
    have hnd : s.live.Nodup := List.Nodup.of_map _ hinv.distinct
    exact hnd.imp_of_mem fun hb hc hne => hinv.apart hb hc hne
  list := by
    have hsmall : ∀ b ∈ s.live, AustereHeap.goesSmall b.requested = true →
        ∃ x ∈ chunks, s.heap.Uses b x := by
      intro b hb hgoes
      rcases hinv.owner b hb with ⟨hnot, -⟩ | ⟨x, hx, -, hu⟩
      · exact Bool.noConfusion (hgoes.symm.trans hnot)
      · exact ⟨x, hx, hu⟩
    rcases hinv.head with ⟨hhead, hnil⟩ | ⟨⟨z, -, -, hhead⟩, hs⟩
    · refine ⟨[], List.nodup_nil, hhead, fun sh => ⟨nofun, ?_⟩⟩
      rintro ⟨b, hb, hgoes, -⟩
      obtain ⟨x, hx, -⟩ := hsmall b hb hgoes
      rw [hnil] at hx
      exact nomatch hx
    · have hne : s.heap.headSubheap ≠ 0 := hhead ▸ (hinv.placed.page_pos z.start).ne'
      refine ⟨[s.heap.headSubheap], List.nodup_singleton _,
        ⟨hne, rfl, hs.alone.2, hs.alone.1⟩, fun sh => ?_⟩
      rw [List.mem_singleton]
      constructor
      · rintro rfl
        have hless := hbusy.resolve_left hne
        obtain ⟨x, hx, hused⟩ := hs.cut.tiles.exists_used (by unfold subheapSize at hless; omega)
        obtain ⟨b, hb, hu⟩ := hinv.owned x hx hused
        exact ⟨b, hb, hu.1, hinv.page_of_small hx hu⟩
      · rintro ⟨b, hb, hgoes, rfl⟩
        obtain ⟨x, hx, hu⟩ := hsmall b hb hgoes
        exact hinv.page_of_small hx hu

/-! ## What the operations do to it -/

/-- **A block is written**, by its user or by `memset`. -/
theorem written {mem : Nat → Nat} (hinv : HeapInv h live pages chunks) (hb : b ∈ live)
    (hmem : ∀ p, p < b.address ∨ b.stop ≤ p → mem p = h.mem p) :
    HeapInv { h with mem := mem } live pages chunks where
  placed := hinv.placed
  cut := ⟨hinv.cut.few, hinv.cut.tiles, hinv.cut.tags⟩
  cursor := hinv.cursor
  head := by
    refine hinv.head.imp_right fun ⟨⟨z, hz, hzf, hhead⟩, hs⟩ => ⟨⟨z, hz, hzf, hhead⟩, ?_⟩
    refine hs.congr fun p hlo hhi hfree => hmem p ?_
    rcases hinv.owner b hb with ⟨-, w, hw, -, hbw, hbhead, hbsize⟩ | ⟨x, hx, hxf, hu⟩
    · have hapart := hinv.runs_apart hw hz (by rwa [← hbw, ← hhead])
      have hzb := hinv.run_bounds hz
      unfold LiveBlock.stop pageSize at *
      omega
    · have hout := hfree x hx hxf
      obtain ⟨-, hba, hbs⟩ := hu
      unfold LiveBlock.stop
      omega
  owner := hinv.owner
  owned := hinv.owned
  distinct := hinv.distinct

/-- Without a subheap there are no chunks. -/
theorem chunks_nil (hinv : HeapInv h live pages chunks) (hhead : h.headSubheap = 0) : chunks = [] := by
  rcases hinv.head with ⟨-, hnil⟩ | ⟨⟨z, -, -, hpage⟩, -⟩
  · exact hnil
  · exact absurd (hpage.symm.trans hhead) (hinv.placed.page_pos z.start).ne'

/-- A run that has just been taken is not at the address of one that was in use. -/
theorem run_fresh (ht : Taken h pages h' pages' x) (hz : z ∈ pages) (hused : z.free = false) :
    h.page z.start ≠ h.page x.start := by
  intro heq
  have hstart : z.start = x.start := by
    unfold AustereHeap.page pageSize at heq
    omega
  have hsame := ht.ok.tiles.eq_of_start ((ht.takes.others z hused).mpr (.inr hz)) ht.takes.mem hstart
  exact ht.takes.new (hsame ▸ hz)

/-- Small blocks are not where pages start. -/
theorem small_mod (hinv : HeapInv h live pages chunks) (hx : x ∈ chunks) (hu : h.Uses b x) :
    b.address % pageSize ≠ 0 := by
  obtain ⟨⟨z, -, -, hhead⟩, -⟩ := hinv.subheap hx
  have hmod := hinv.placed.page_mod z.start
  have hbb := hinv.small_bounds hx hu
  unfold pageSize at *
  omega

/-- **A big block is allocated.** -/
theorem allocated_big (hinv : HeapInv h live pages chunks) (ht : Taken h pages h' pages' x) {n : Nat}
    (hbig : AustereHeap.goesSmall n = false) (hsize : AustereHeap.paddedSize n ≤ x.size * pageSize) :
    HeapInv h' (⟨h.page x.start, n⟩ :: live) pages' chunks := by
  have hstays : ∀ z ∈ pages, z.free = false → z ∈ pages' := fun z hz hzf =>
    (ht.takes.others z hzf).mpr (.inr hz)
  have hhead : h.page x.start ≠ h.headSubheap := by
    rcases hinv.head with ⟨hzero, -⟩ | ⟨⟨z, hz, hzf, hpage⟩, -⟩
    · exact hzero ▸ (hinv.placed.page_pos x.start).ne'
    · exact fun heq => run_fresh ht hz hzf (hpage.symm.trans heq.symm)
  have hfresh : h.page x.start ∉ live.map LiveBlock.address := by
    intro hmem
    obtain ⟨b, hb, haddr⟩ := List.mem_map.mp hmem
    rcases hinv.owner b hb with ⟨-, z, hz, hzf, hbz, -⟩ | ⟨y, hy, -, hu⟩
    · exact run_fresh ht hz hzf (hbz.symm.trans haddr)
    · exact hinv.small_mod hy hu (haddr ▸ hinv.placed.page_mod x.start)
  have hok := ht.ok
  have hcursor := ht.cursor
  obtain ⟨sizes, cursor, rfl⟩ := ht.only
  exact {
    placed := hinv.placed
    cut := hok
    cursor := hcursor
    head := hinv.head.imp_right fun ⟨⟨z, hz, hzf, hpage⟩, hs⟩ => ⟨⟨z, hstays z hz hzf, hzf, hpage⟩, hs⟩
    owner := by
      intro b hb
      rcases List.mem_cons.mp hb with rfl | hb
      · exact .inl ⟨hbig, x, ht.takes.mem, ht.takes.isUsed, rfl, hhead, hsize⟩
      · exact (hinv.owner b hb).imp_left fun ⟨hb, z, hz, hzf, hrest⟩ =>
          ⟨hb, z, hstays z hz hzf, hzf, hrest⟩
    owned := fun y hy hyf => (hinv.owned y hy hyf).imp fun b hb => ⟨List.mem_cons_of_mem _ hb.1, hb.2⟩
    distinct := List.nodup_cons.mpr ⟨hfresh, hinv.distinct⟩ }

/-- **A page becomes a subheap**, where there was none. -/
theorem new_subheap {u : AustereHeap} (hinv : HeapInv h live pages chunks) (hhead : h.headSubheap = 0)
    (ht : Taken h pages u pages' x) (honly : OnlyMem u h')
    (hs : SubheapOk h'.mem (h.page x.start) [⟨12, 4084, true⟩]) :
    HeapInv { h' with headSubheap := h.page x.start } live pages' [⟨12, 4084, true⟩] := by
  have hnil := hinv.chunks_nil hhead
  have hok := ht.ok
  have hcursor := ht.cursor
  obtain ⟨sizes, cursor, rfl⟩ := ht.only
  obtain ⟨mem, rfl⟩ := honly
  exact {
    placed := hinv.placed
    cut := ⟨hok.few, hok.tiles, hok.tags⟩
    cursor := hcursor
    head := .inr ⟨⟨x, ht.takes.mem, ht.takes.isUsed, rfl⟩, hs⟩
    owner := by
      intro b hb
      rcases hinv.owner b hb with ⟨hbig, z, hz, hzf, hbz, -, hsize⟩ | ⟨y, hy, -⟩
      · refine .inl ⟨hbig, z, (ht.takes.others z hzf).mpr (.inr hz), hzf, hbz, ?_, hsize⟩
        exact fun heq => run_fresh ht hz hzf (hbz.symm.trans heq)
      · rw [hnil] at hy
        exact nomatch hy
    owned := by
      intro y hy hyf
      rw [List.mem_singleton.mp hy] at hyf
      exact nomatch hyf
    distinct := hinv.distinct }

/-- **A small block is allocated** in the subheap. -/
theorem allocated_small {w : Block} (hinv : HeapInv h live pages chunks)
    (hsub : ∃ z ∈ pages, z.free = false ∧ h.headSubheap = h.page z.start)
    (ht : ChunkTaken h h.headSubheap chunks h' chunks' w) {n : Nat}
    (hsmall : AustereHeap.goesSmall n = true) (hsize : AustereHeap.paddedSize n + 8 ≤ w.size) :
    HeapInv h' (⟨h.headSubheap + w.start + 4, n⟩ :: live) pages chunks' ∧ h'.Busy chunks' := by
  have hwb := ht.ok.cut.bounds ht.takes.mem
  have hstays : ∀ y ∈ chunks, y.free = false → y ∈ chunks' := fun y hy hyf =>
    (ht.takes.others y hyf).mpr (.inr hy)
  have hfresh : h.headSubheap + w.start + 4 ∉ live.map LiveBlock.address := by
    intro hmem
    obtain ⟨b, hb, haddr⟩ := List.mem_map.mp hmem
    rcases hinv.owner b hb with ⟨-, z, hz, hzf, hbz, -⟩ | ⟨y, hy, hyf, hu⟩
    · obtain ⟨v, -, -, hhead⟩ := hsub
      have hmod := hinv.placed.page_mod v.start
      have hmod' := hinv.placed.page_mod z.start
      unfold pageSize at hmod hmod'
      omega
    · have hstart : y.start = w.start := by
        have hya := hu.2.1
        omega
      have hsame := ht.ok.cut.tiles.eq_of_start (hstays y hy hyf) ht.takes.mem hstart
      exact ht.takes.new (hsame ▸ hy)
  have hs := ht.ok
  have hbusy : freeSize chunks' < subheapSize := by
    have hle := hs.cut.tiles.freeSize_add_le ht.takes.mem ht.takes.isUsed
    unfold subheapSize
    omega
  obtain ⟨mem, rfl⟩ := ht.only
  refine ⟨?_, .inr hbusy⟩
  exact {
    placed := hinv.placed
    cut := ⟨hinv.cut.few, hinv.cut.tiles, hinv.cut.tags⟩
    cursor := hinv.cursor
    head := .inr ⟨hsub, hs⟩
    owner := by
      intro b hb
      rcases List.mem_cons.mp hb with rfl | hb
      · exact .inr ⟨w, ht.takes.mem, ht.takes.isUsed, hsmall, rfl, hsize⟩
      · exact (hinv.owner b hb).imp_right fun ⟨y, hy, hyf, hu⟩ => ⟨y, hstays y hy hyf, hyf, hu⟩
    owned := by
      intro y hy hyf
      rcases (ht.takes.others y hyf).mp hy with rfl | hy
      · exact ⟨_, List.mem_cons_self, hsmall, rfl, hsize⟩
      · exact (hinv.owned y hy hyf).imp fun b hb => ⟨List.mem_cons_of_mem _ hb.1, hb.2⟩
    distinct := List.nodup_cons.mpr ⟨hfresh, hinv.distinct⟩ }

theorem erase_distinct (hinv : HeapInv h live pages chunks) (b : LiveBlock) :
    ((live.erase b).map LiveBlock.address).Nodup :=
  hinv.distinct.sublist (List.erase_sublist.map _)

theorem mem_erase (hinv : HeapInv h live pages chunks) : c ∈ live.erase b ↔ c ≠ b ∧ c ∈ live :=
  (List.Nodup.of_map _ hinv.distinct).mem_erase_iff

/-- A big block is forgotten. -/
theorem erase_big (hinv : HeapInv h live pages chunks) (hbig : AustereHeap.goesSmall b.requested = false) :
    HeapInv h (live.erase b) pages chunks where
  placed := hinv.placed
  cut := hinv.cut
  cursor := hinv.cursor
  head := hinv.head
  owner c hc := hinv.owner c (hinv.mem_erase.mp hc).2
  owned x hx hxf := by
    obtain ⟨c, hc, hu⟩ := hinv.owned x hx hxf
    refine ⟨c, hinv.mem_erase.mpr ⟨?_, hc⟩, hu⟩
    rintro rfl
    exact Bool.noConfusion (hu.1.symm.trans hbig)
  distinct := hinv.erase_distinct b

/-- **A run is given back** that has no block and is not the subheap. -/
theorem freed_run (hinv : HeapInv h live pages chunks) (hz : z ∈ pages) (hzf : z.free = false)
    (hnot : ∀ b ∈ live, b.address ≠ h.page z.start) (hhead : h.headSubheap ≠ h.page z.start) :
    ∃ pages', HeapInv (h.bigFreeMemory (h.page z.start)) live pages' chunks := by
  obtain ⟨honly, pages', hok, hcursor, hgive⟩ := bigFreeMemory_pages hinv.cut hz hzf
  have hstays : ∀ w ∈ pages, w.free = false → h.page w.start ≠ h.page z.start → w ∈ pages' :=
    fun w hw hwf hne => (hgive w hwf).mpr ⟨hw, fun heq => hne (heq ▸ rfl)⟩
  refine ⟨pages', ?_⟩
  generalize h.bigFreeMemory (h.page z.start) = h' at *
  obtain ⟨sizes, cursor, rfl⟩ := honly
  exact {
    placed := hinv.placed
    cut := hok
    cursor := hcursor
    head := hinv.head.imp_right fun ⟨⟨w, hw, hwf, hpage⟩, hs⟩ =>
      ⟨⟨w, hstays w hw hwf (fun heq => hhead (hpage.trans heq)), hwf, hpage⟩, hs⟩
    owner := fun b hb => (hinv.owner b hb).imp_left fun ⟨hbig, w, hw, hwf, hbw, hrest⟩ =>
      ⟨hbig, w, hstays w hw hwf (fun heq => hnot b hb (hbw.trans heq)), hwf, hbw, hrest⟩
    owned := hinv.owned
    distinct := hinv.distinct }

/-- **A chunk is given back.** -/
theorem freed_chunk (hinv : HeapInv h live pages chunks) (hb : b ∈ live) (hx : x ∈ chunks)
    (hu : h.Uses b x) (honly : OnlyMem h h') (hs : SubheapOk h'.mem h.headSubheap chunks')
    (hgive : ∀ y, y.free = false → (y ∈ chunks' ↔ y ∈ chunks ∧ y ≠ x)) :
    HeapInv h' (live.erase b) pages chunks' := by
  obtain ⟨mem, rfl⟩ := honly
  exact {
    placed := hinv.placed
    cut := ⟨hinv.cut.few, hinv.cut.tiles, hinv.cut.tags⟩
    cursor := hinv.cursor
    head := .inr ⟨(hinv.subheap hx).1, hs⟩
    owner := by
      intro c hc
      obtain ⟨hne, hc⟩ := hinv.mem_erase.mp hc
      refine (hinv.owner c hc).imp_right fun ⟨y, hy, hyf, hv⟩ => ⟨y, (hgive y hyf).mpr ⟨hy, ?_⟩, hyf, hv⟩
      rintro rfl
      exact hne (hinv.eq_of_address hc hb (hv.2.1.trans hu.2.1.symm))
    owned := by
      intro y hy hyf
      obtain ⟨hy, hyx⟩ := (hgive y hyf).mp hy
      obtain ⟨c, hc, hv⟩ := hinv.owned y hy hyf
      refine ⟨c, hinv.mem_erase.mpr ⟨?_, hc⟩, hv⟩
      rintro rfl
      have hstart : y.start = x.start := by
        have hyc := hv.2.1
        have hxc := hu.2.1
        omega
      exact hyx ((hinv.subheap hx).2.cut.tiles.eq_of_start hy hx hstart)
    distinct := hinv.erase_distinct b }

/-- **The last chunk is given back**, and the subheap leaves the list. -/
theorem freed_last (hinv : HeapInv h live pages chunks) (mem : Nat → Nat) (hb : b ∈ live)
    (hx : x ∈ chunks) (hu : h.Uses b x) (hlast : ∀ y ∈ chunks, y.free = false → y = x) :
    HeapInv { h with mem := mem, headSubheap := 0 } (live.erase b) pages [] where
  placed := hinv.placed
  cut := ⟨hinv.cut.few, hinv.cut.tiles, hinv.cut.tags⟩
  cursor := hinv.cursor
  head := .inl ⟨rfl, rfl⟩
  owner := by
    intro c hc
    obtain ⟨hne, hc⟩ := hinv.mem_erase.mp hc
    rcases hinv.owner c hc with ⟨hbig, z, hz, hzf, hcz, -, hsize⟩ | ⟨y, hy, hyf, hv⟩
    · exact .inl ⟨hbig, z, hz, hzf, hcz, hcz ▸ (hinv.placed.page_pos z.start).ne', hsize⟩
    · obtain rfl := hlast y hy hyf
      exact absurd (hinv.eq_of_address hc hb (hv.2.1.trans hu.2.1.symm)) hne
  owned _ hy := nomatch hy
  distinct := hinv.erase_distinct b

end HeapInv

/-! ## The operations -/

namespace AustereHeap

theorem ChunkAt.chunk {sh p : Nat} (hp : h.ChunkAt sh p) (hc : ChunksOk h.mem sh chunks) :
    p = sh + 4096 ∨ ∃ x ∈ chunks, p = sh + x.start := by
  induction hp with
  | first =>
    obtain ⟨x, hx, hstart⟩ := hc.tiles.exists_first (by decide)
    exact .inr ⟨x, hx, congrArg (sh + ·) hstart.symm⟩
  | next _ hlt ih =>
    obtain ⟨x, hx, rfl⟩ := ih.resolve_left hlt.ne
    rw [hc.withoutFree_header hx]
    exact hc.next hx

theorem chunkFor_ok (n : Nat) : 8 ≤ chunkFor n ∧ chunkFor n % 4 = 0 ∧ n + 8 ≤ chunkFor n := by
  unfold chunkFor
  omega

/-- The first subheap has room, and the loop ends there. -/
theorem smallAllocation_head {n res : Nat} (hs : SubheapOk h.mem h.headSubheap chunks)
    (hne : h.headSubheap ≠ 0) (hroom : h.HasRoom (chunkFor n))
    (heq : h.smallAllocation n = some (res, h')) :
    ∃ chunks' w, ChunkTaken h h.headSubheap chunks h' chunks' w ∧ res = h.headSubheap + w.start + 4 ∧
      n + 8 ≤ w.size := by
  obtain ⟨hfree, p, hp, hlt, hpf, hsize⟩ := hroom.resolve_left hne
  obtain ⟨hlarge, hfour, hle⟩ := chunkFor_ok n
  obtain ⟨x, hx, rfl⟩ := (hp.chunk hs.cut).resolve_left hlt.ne
  rw [hs.cut.isFree_header hx] at hpf
  rw [hs.cut.withoutFree_header hx] at hsize
  rw [smallAllocation, trySubheaps, if_neg hne, if_pos hfree] at heq
  cases htry : h.trySmallAllocation h.headSubheap (chunkFor n) with
  | none =>
    rw [htry] at heq
    exact nomatch heq
  | some r =>
    obtain ⟨r, u⟩ := r
    obtain ⟨chunks', w, ht, rfl, hw⟩ :=
      trySmallAllocation_taken hs hlarge hfour ⟨x, hx, hpf, hsize⟩ htry
    have hhead : u.headSubheap = h.headSubheap := by
      obtain ⟨mem, rfl⟩ := ht.only
      rfl
    have hres : h.headSubheap + w.start + 4 ≠ 0 := Nat.succ_ne_zero _
    rw [htry] at heq
    dsimp only at heq
    rw [if_pos hres] at heq
    dsimp only at heq
    rw [if_pos hres, pullToHead_head hhead] at heq
    cases heq
    exact ⟨chunks', w, ht, rfl, hle.trans hw⟩

/-- There is no subheap, and the loop has nothing to try. -/
theorem smallAllocation_fresh {n res : Nat} (hinv : HeapInv h live pages chunks)
    (hhead : h.headSubheap = 0) (hn : goesSmall n = true)
    (heq : h.smallAllocation (paddedSize n) = some (res, h')) (hres : res ≠ 0) :
    ∃ pages' chunks', HeapInv h' (⟨res, n⟩ :: live) pages' chunks' ∧ h'.Busy chunks' := by
  obtain ⟨hlarge, hfour, hle⟩ := chunkFor_ok (paddedSize n)
  have hsmall : chunkFor (paddedSize n) ≤ 4084 := by
    have hlt := of_decide_eq_true hn
    unfold chunkFor
    unfold pageSize at hlt
    omega
  rw [smallAllocation, trySubheaps, if_pos hhead] at heq
  dsimp only at heq
  rw [if_neg (not_not_intro rfl)] at heq
  split at heq
  · exact nomatch heq
  · next sh u hnew =>
    split at heq
    · cases heq
      exact absurd rfl hres
    · next hsh =>
      obtain ⟨v, hbig, honly, hs⟩ := newSubheap_ok hnew hsh
      obtain ⟨pages', x, ht, rfl, -⟩ :=
        bigAllocation_taken hinv.cut hinv.cursor (by decide) (by decide) hbig hsh
      split at heq
      · exact nomatch heq
      · next r k htry =>
        obtain ⟨chunks', w, htaken, rfl, hw⟩ := trySmallAllocation_taken hs hlarge hfour
          ⟨_, List.mem_cons_self, rfl, hsmall⟩ htry
        have hu : u.headSubheap = 0 := by
          obtain ⟨_, _, rfl⟩ := ht.only
          obtain ⟨_, rfl⟩ := honly
          exact hhead
        have hk : k.headSubheap = 0 := by
          obtain ⟨_, rfl⟩ := htaken.only
          exact hu
        rw [if_neg (Nat.succ_ne_zero _), pullToHead_first htaken.ok.alone hk hsh] at heq
        cases heq
        -- The subheap counts as in the list before the chunk is taken from it.
        have hinv' := hinv.new_subheap hhead ht honly hs
        have htaken' : ChunkTaken { u with headSubheap := h.page x.start } (h.page x.start)
            [⟨12, 4084, true⟩] { k with headSubheap := h.page x.start } chunks' w := by
          refine ⟨?_, htaken.ok, htaken.takes⟩
          obtain ⟨mem, rfl⟩ := htaken.only
          exact ⟨mem, rfl⟩
        have hpage := (hinv'.subheap List.mem_cons_self).1
        exact ⟨pages', chunks', hinv'.allocated_small hpage htaken' hn (hle.trans hw)⟩

/-- **`_XmAllocateMemory` keeps the invariant.** -/
theorem xmAllocateMemory_inv {n res : Nat} (hinv : HeapInv h live pages chunks) (hbusy : h.Busy chunks)
    (hn : n + (pageSize - 1) < 4294967296)
    (hroom : goesSmall n = true → h.HasRoom (chunkFor (paddedSize n)))
    (heq : h.xmAllocateMemory n = some (res, h')) :
    ∃ pages' chunks', HeapInv h' (⟨res, n⟩ :: live) pages' chunks' ∧ h'.Busy chunks' := by
  obtain ⟨⟨r, u⟩, halloc, hzero⟩ := Option.bind_eq_some_iff.mp heq
  dsimp only at hzero
  split at hzero
  · next hres =>
    cases hzero
    -- before `memset`
    have hgot : ∃ pages' chunks', HeapInv u (⟨res, n⟩ :: live) pages' chunks' ∧ u.Busy chunks' := by
      cases hgoes : goesSmall n with
      | true =>
        rw [hgoes, if_pos rfl] at halloc
        by_cases hhead : h.headSubheap = 0
        · exact smallAllocation_fresh hinv hhead hgoes halloc hres
        · obtain ⟨hpage, hs⟩ := hinv.head.resolve_left fun hnone => hhead hnone.1
          obtain ⟨chunks', w, ht, rfl, hw⟩ := smallAllocation_head hs hhead (hroom hgoes) halloc
          exact ⟨pages, chunks', hinv.allocated_small hpage ht hgoes hw⟩
      | false =>
        rw [hgoes, if_neg Bool.false_ne_true] at halloc
        have hpad : paddedSize n = n := by
          have hge := of_decide_eq_false hgoes
          unfold paddedSize pageSize at *
          omega
        have hpos : 0 < paddedSize n := Nat.lt_of_lt_of_le (by decide) (Nat.le_max_right n 4)
        obtain ⟨pages', x, ht, rfl, hsize⟩ :=
          bigAllocation_taken hinv.cut hinv.cursor hpos (hpad.symm ▸ hn) halloc hres
        refine ⟨pages', chunks, hinv.allocated_big ht hgoes hsize, ?_⟩
        obtain ⟨sizes, cursor, rfl⟩ := ht.only
        exact hbusy
    obtain ⟨pages', chunks', hinv', hbusy'⟩ := hgot
    refine ⟨pages', chunks', hinv'.written List.mem_cons_self fun p hp => if_neg ?_, hbusy'⟩
    unfold LiveBlock.stop at hp
    dsimp only at hp
    omega
  · exact nomatch hzero

/-- **`XmFreeMemory` keeps the invariant.** -/
theorem xmFreeMemory_inv (hinv : HeapInv h live pages chunks) (hbusy : h.Busy chunks) (hb : b ∈ live)
    (heq : h.xmFreeMemory b.address = some h') :
    ∃ pages' chunks', HeapInv h' (live.erase b) pages' chunks' ∧ h'.Busy chunks' := by
  have hpos : b.address ≠ 0 := by
    have hin := hinv.inside hb
    have hstart := hinv.placed.2
    omega
  rw [xmFreeMemory, if_neg hpos] at heq
  split at heq
  · rcases hinv.owner b hb with ⟨hbig, z, hz, hzf, hbz, hbhead, -⟩ | ⟨x, hx, hxf, hu⟩
    · -- a run of pages
      rw [if_neg (by rw [hbz, hinv.placed.page_mod]; exact not_not_intro rfl)] at heq
      cases heq
      have hinv' := hinv.erase_big hbig
      have hnot : ∀ c ∈ live.erase b, c.address ≠ h.page z.start := by
        intro c hc heq
        obtain ⟨hne, hc⟩ := hinv.mem_erase.mp hc
        exact hne (hinv.eq_of_address hc hb (heq.trans hbz.symm))
      have hhead : h.headSubheap ≠ h.page z.start := fun heq => hbhead (hbz.trans heq.symm)
      obtain ⟨pages', hfreed⟩ := hinv'.freed_run hz hzf hnot hhead
      rw [hbz]
      refine ⟨pages', chunks, hfreed, ?_⟩
      obtain ⟨sizes, cursor, hfree⟩ := (bigFreeMemory_pages hinv.cut hz hzf).1
      rw [hfree]
      exact hbusy
    · -- a chunk
      obtain ⟨⟨z, hz, hzf, hpage⟩, hs⟩ := hinv.subheap hx
      have hmod : h.headSubheap % pageSize = 0 := hpage ▸ hinv.placed.page_mod z.start
      rw [if_pos (hinv.small_mod hx hu)] at heq
      cases heq
      rw [hu.2.1]
      by_cases hall : freeSize chunks + x.size = subheapSize
      · obtain ⟨⟨mem, hfree⟩, hlast⟩ := smallFreeMemory_last hs hx hxf hmod rfl hall
        have hinv' := hinv.freed_last mem hb hx hu hlast
        have hnot : ∀ c ∈ live.erase b, c.address ≠ h.page z.start := by
          intro c hc heq
          obtain ⟨hne, hc⟩ := hinv.mem_erase.mp hc
          rcases hinv.owner c hc with ⟨-, w, -, -, hcw, hchead, -⟩ | ⟨y, hy, hyf, hv⟩
          · exact hchead (heq.trans hpage.symm)
          · obtain rfl := hlast y hy hyf
            exact hne (hinv.eq_of_address hc hb (hv.2.1.trans hu.2.1.symm))
        obtain ⟨pages', hfreed⟩ := hinv'.freed_run hz hzf hnot (hinv.placed.page_pos z.start).ne
        rw [hfree, hpage]
        refine ⟨pages', [], hfreed, .inl ?_⟩
        obtain ⟨sizes, cursor, hbig⟩ := (bigFreeMemory_pages hinv'.cut hz hzf).1
        exact congrArg headSubheap hbig
      · obtain ⟨honly, chunks', hs', hsum, hgive⟩ := smallFreeMemory_kept hs hx hxf hmod rfl hall
        refine ⟨pages, chunks', hinv.freed_chunk hb hx hu honly hs' hgive, .inr ?_⟩
        have hle := hs'.cut.tiles.freeSize_le
        rw [hsum] at hle ⊢
        unfold subheapSize at hall ⊢
        omega
  · exact nomatch heq

end AustereHeap

end

/-! ## Runs -/

namespace AustereSys
variable {s s' : AustereSys} {a : AustereAct}

/-- What holds in every state of a careful run. -/
def Inv (s : AustereSys) : Prop :=
  ∃ pages chunks, HeapInv s.heap s.live pages chunks ∧ s.heap.Busy chunks

theorem Start.inv (h : s.Start) : s.Inv := by
  obtain ⟨hlive, heap, nrPages, mem, hinit, hpage, hpos, -⟩ := h
  obtain ⟨hstart, hhead, pages, hcut, hcursor, -⟩ := xmInitMemory_pages hinit
  rw [← hstart] at hpage hpos
  refine ⟨pages, [], ?_, .inl hhead⟩
  exact {
    placed := ⟨hpage, hpos⟩
    cut := hcut
    cursor := hcursor
    head := .inl ⟨hhead, rfl⟩
    owner := by simp [hlive]
    owned := by simp
    distinct := by simp [hlive] }

/-- **The step lemma.** -/
theorem Inv.step (hinv : s.Inv) (hcareful : s.Careful a) (hpos : s.Possible a)
    (hstep : s.step a = some s') : s'.Inv := by
  obtain ⟨pages, chunks, hinv, hbusy⟩ := hinv
  cases a with
  | allocate nBytes =>
    obtain ⟨⟨res, h'⟩, halloc, rfl⟩ := Option.map_eq_some_iff.mp hstep
    exact AustereHeap.xmAllocateMemory_inv hinv hbusy hcareful.1 hcareful.2 halloc
  | free b =>
    obtain ⟨h', hfree, rfl⟩ := Option.map_eq_some_iff.mp hstep
    exact AustereHeap.xmFreeMemory_inv hinv hbusy hpos hfree
  | write b k w =>
    cases hstep
    have hmem : ∀ p, p < b.address ∨ b.stop ≤ p →
        Function.update s.heap.mem (b.address + 4 * k) w.toNat p = s.heap.mem p := by
      intro p hp
      have hin := hpos.2
      unfold LiveBlock.stop at hp
      exact Function.update_of_ne (by omega) ..
    exact ⟨pages, chunks, hinv.written hpos.1 hmem, hbusy⟩

/-- **Safety.**  In every state of a careful run the heap is safe. -/
theorem heap_safe (h : Reached Careful s) : s.Safe := by
  have hinv : s.Inv := Reachable.invariant h (fun _ => Start.inv) fun _ _ _ hinv hok hstep =>
    hinv.step hok hstep.1 hstep.2
  obtain ⟨pages, chunks, hinv, hbusy⟩ := hinv
  exact hinv.safe hbusy

/-- The `prev` of the second subheap is the first. -/
theorem Safe.prev_next (h : s.Safe) (hhead : s.heap.headSubheap ≠ 0)
    (hnext : s.heap.next s.heap.headSubheap ≠ 0) :
    s.heap.prev (s.heap.next s.heap.headSubheap) = s.heap.headSubheap := by
  obtain ⟨l, -, hlinked, -⟩ := h.list
  cases l with
  | nil => exact absurd hlinked hhead
  | cons x l =>
    obtain ⟨-, -, -, hrest⟩ := hlinked
    cases l with
    | nil => exact absurd hrest hnext
    | cons y l => exact hrest.2.2.1

/-- A heap of two pages. -/
def twoPages : AustereSys where
  heap :=
    { bigHeapStart := 4096
      nrHeapPages := 2
      heapBlockSizes := Function.update (fun _ => 0) 0 (withFree 2)
      bigHeapCursor := 0
      headSubheap := 0
      mem := fun _ => 0 }
  live := []

theorem twoPages_start : twoPages.Start :=
  ⟨rfl, 4096, 2, fun _ => 0, rfl, by decide, by decide, by decide⟩

/-- A careful user takes a block that leaves little room, and one that fits there. -/
theorem heap_safe_two : ∃ s : AustereSys, s.live = [⟨8120, 10⟩, ⟨4112, 4000⟩] ∧ s.Safe := by
  obtain ⟨s, hs, hp⟩ := (Option.any_eq_true
    (fun s : AustereSys => decide (s.heap.headSubheap = 4096 ∧ s.heap.freeBytes 4096 = 76 ∧
      withoutFree (s.heap.mem 4108) = 4008 ∧ isFree (s.heap.mem 8116) = true ∧
      withoutFree (s.heap.mem 8116) = 76)) (twoPages.step (.allocate 4000))).mp (by decide +kernel)
  obtain ⟨hhead, hbytes, hfirst, hfree, hsize⟩ := of_decide_eq_true hp
  obtain ⟨t, ht, hlive⟩ := (Option.any_eq_true
    (fun t : AustereSys => decide (t.live = [⟨8120, 10⟩, ⟨4112, 4000⟩]))
      ((twoPages.step (.allocate 4000)).bind (·.step (.allocate 10)))).mp (by decide +kernel)
  rw [hs] at ht
  have hcareful : twoPages.Careful (.allocate 4000) := ⟨by decide, fun _ => .inl rfl⟩
  have hroom : s.heap.HasRoom 20 := by
    refine .inr ⟨by rw [hhead, hbytes]; decide, 8116, ?_, by rw [hhead]; decide, hfree,
      by rw [hsize]; decide⟩
    have hstart : s.heap.ChunkAt 4096 (AustereHeap.heapOf 4096) := .first
    have hnext := hstart.next (by decide)
    rw [AustereHeap.heapOf, hfirst] at hnext
    exact hhead ▸ hnext
  have hcareful' : s.Careful (.allocate 10) := ⟨by decide, fun _ => hroom⟩
  refine ⟨t, of_decide_eq_true hlive, heap_safe ?_⟩
  exact .next (.next (.start twoPages_start) hcareful ⟨trivial, hs⟩) hcareful' ⟨trivial, ht⟩

/-- **A second subheap** is in front of the first, whose `prev` is still `NULL`. -/
theorem second_subheap : ¬∀ s : AustereSys, Reached (fun _ _ => True) s → s.Safe := by
  intro hall
  have hrun : ∃ s : AustereSys, Reached (fun _ _ => True) s ∧
      decide (s.heap.headSubheap ≠ 0 ∧ s.heap.next s.heap.headSubheap ≠ 0 ∧
        s.heap.prev (s.heap.next s.heap.headSubheap) ≠ s.heap.headSubheap) = true :=
    exists_reachable_of_follow twoPages [.allocate 4000, .allocate 4000] twoPages_start
      (by decide +kernel)
  obtain ⟨s, hs, hp⟩ := hrun
  obtain ⟨hhead, hnext, hprev⟩ := of_decide_eq_true hp
  exact hprev ((hall s hs).prev_next hhead hnext)

end AustereSys

end V4v.Xenutil
