import LegacyV4v.AusterePages

/-! # The chunks of a subheap

A subheap is cut into chunks, each with its size in a header, where it also says whether it is free, and
in a trailer.  `free_bytes` is what is free of it.  `SmallFreeMemory` joins the chunk that it frees with
the free ones above and below it; until that is done, the chunk counts as used, but `free_bytes` has its
size already. -/
namespace V4v.Xenutil
open BlockTiling

variable {mem mem' : Nat → Nat} {sh n : Nat} {chunks chunks' m m' : List Block} {x y cur : Block}

/-- A chunk is as its header and its trailer say. -/
structure ChunkOk (mem : Nat → Nat) (sh : Nat) (x : Block) : Prop where
  header : mem (sh + x.start) = tag x
  trailer : mem (sh + x.start + x.size - 4) = x.size
  large : 8 ≤ x.size
  aligned : x.start % 4 = 0 ∧ x.size % 4 = 0

/-- Subheap `sh` is cut into `chunks`. -/
structure ChunksOk (mem : Nat → Nat) (sh : Nat) (chunks : List Block) : Prop where
  tiles : Tiles 12 chunks 4096
  each : ∀ x ∈ chunks, ChunkOk mem sh x

/-- A subheap that is alone in the list. -/
structure SubheapOk (mem : Nat → Nat) (sh : Nat) (chunks : List Block) : Prop where
  cut : ChunksOk mem sh chunks
  free : mem (sh + 8) = freeSize chunks
  alone : mem sh = 0 ∧ mem (sh + 4) = 0

/-- Subheap `sh` is cut into `chunks`, and `free_bytes` is what is free of them. -/
structure SubheapCut (mem : Nat → Nat) (sh : Nat) (chunks : List Block) : Prop where
  cut : ChunksOk mem sh chunks
  free : mem (sh + 8) = freeSize chunks

theorem SubheapOk.isCut (hs : SubheapOk mem sh chunks) : SubheapCut mem sh chunks := ⟨hs.cut, hs.free⟩

/-- Only the memory may be different. -/
def OnlyMem (h h' : AustereHeap) : Prop := ∃ mem, h' = { h with mem := mem }

theorem OnlyMem.trans {h h' h'' : AustereHeap} (h₁ : OnlyMem h h') (h₂ : OnlyMem h' h'') :
    OnlyMem h h'' := by
  obtain ⟨mem, rfl⟩ := h₁
  obtain ⟨mem, rfl⟩ := h₂
  exact ⟨mem, rfl⟩

/-- The words of a chunk are not written, and it stays as it is. -/
theorem ChunkOk.congr (hx : ChunkOk mem sh x) (hheader : mem' (sh + x.start) = mem (sh + x.start))
    (htrailer : mem' (sh + x.start + x.size - 4) = mem (sh + x.start + x.size - 4)) :
    ChunkOk mem' sh x where
  header := hheader.trans hx.header
  trailer := htrailer.trans hx.trailer
  large := hx.large
  aligned := hx.aligned

namespace ChunksOk

theorem bounds (hc : ChunksOk mem sh chunks) (hx : x ∈ chunks) :
    12 ≤ x.start ∧ 8 ≤ x.size ∧ x.start + x.size ≤ 4096 :=
  ⟨(hc.tiles.bounds hx).1, (hc.each x hx).large, (hc.tiles.bounds hx).2.2⟩

theorem size_lt (hc : ChunksOk mem sh chunks) (hx : x ∈ chunks) : x.size < freeChunk := by
  have hb := hc.bounds hx
  unfold freeChunk
  omega

theorem isFree_header (hc : ChunksOk mem sh chunks) (hx : x ∈ chunks) :
    isFree (mem (sh + x.start)) = x.free := by
  rw [(hc.each x hx).header, isFree_tag (hc.size_lt hx)]

theorem withoutFree_header (hc : ChunksOk mem sh chunks) (hx : x ∈ chunks) :
    withoutFree (mem (sh + x.start)) = x.size := by
  rw [(hc.each x hx).header, withoutFree_tag (hc.size_lt hx)]

theorem apart (hc : ChunksOk mem sh chunks) (hx : x ∈ chunks) (hy : y ∈ chunks) (hne : x ≠ y) :
    x.start + x.size ≤ y.start ∨ y.start + y.size ≤ x.start :=
  (hc.tiles.apart hx hy).resolve_left hne

/-- The end of a chunk is the end of the subheap or the start of the next. -/
theorem next (hc : ChunksOk mem sh chunks) (hx : x ∈ chunks) :
    sh + x.start + x.size = sh + 4096 ∨ ∃ y ∈ chunks, sh + x.start + x.size = sh + y.start := by
  rw [Nat.add_assoc]
  exact (hc.tiles.next hx).imp (congrArg (sh + ·)) fun ⟨y, hy, hyx⟩ =>
    ⟨y, hy, congrArg (sh + ·) hyx.symm⟩

/-- **Chunks are replaced**, and nothing is written but from the first to the end of the last. -/
theorem replaced (lo hi : Nat) (hc : ChunksOk mem sh chunks) (htiles : Tiles 12 chunks' 4096)
    (hr : Replaces chunks m m' chunks')
    (hout : ∀ y ∈ chunks, y ∉ m → y.start + y.size ≤ lo ∨ hi ≤ y.start)
    (hmem : ∀ p, sh + 12 ≤ p → p < sh + lo ∨ sh + hi ≤ p → mem' p = mem p)
    (hnew : ∀ x ∈ m', ChunkOk mem' sh x) : ChunksOk mem' sh chunks' where
  tiles := htiles
  each x hx := by
    rcases (hr.mem x).mp hx with hx | ⟨hx, hxm⟩
    · exact hnew x hx
    · have hb := hc.bounds hx
      have haway := hout x hx hxm
      exact (hc.each x hx).congr (hmem _ (by omega) (by omega)) (hmem _ (by omega) (by omega))

/-- Words that are in no header and in no trailer may be written. -/
theorem congr (hc : ChunksOk mem sh chunks)
    (hmem : ∀ p, sh + 12 ≤ p → p < sh + 4096 →
      (∀ x ∈ chunks, x.free = false → p < sh + x.start + 4 ∨ sh + x.start + x.size - 4 ≤ p) →
      mem' p = mem p) : ChunksOk mem' sh chunks where
  tiles := hc.tiles
  each x hx := by
    have hb := hc.bounds hx
    have haway : ∀ y ∈ chunks, x = y ∨ x.start + x.size ≤ y.start ∨ y.start + y.size ≤ x.start := by
      intro y hy
      by_cases hxy : x = y
      · exact .inl hxy
      · exact .inr (hc.apart hx hy hxy)
    refine (hc.each x hx).congr (hmem _ (by omega) (by omega) fun y hy _ => ?_)
      (hmem _ (by omega) (by omega) fun y hy _ => ?_)
    · have hyb := hc.bounds hy
      rcases haway y hy with rfl | hxy <;> omega
    · have hyb := hc.bounds hy
      rcases haway y hy with rfl | hxy <;> omega

end ChunksOk

theorem SubheapOk.congr (hs : SubheapOk mem sh chunks)
    (hmem : ∀ p, sh ≤ p → p < sh + 4096 →
      (∀ x ∈ chunks, x.free = false → p < sh + x.start + 4 ∨ sh + x.start + x.size - 4 ≤ p) →
      mem' p = mem p) : SubheapOk mem' sh chunks where
  cut := hs.cut.congr fun p hlo => hmem p (by omega)
  free := by
    refine (hmem _ (by omega) (by omega) fun x hx _ => ?_).trans hs.free
    have hb := hs.cut.bounds hx
    omega
  alone := by
    refine ⟨(hmem _ le_rfl (by omega) fun x hx _ => ?_).trans hs.alone.1,
      (hmem _ (by omega) (by omega) fun x hx _ => ?_).trans hs.alone.2⟩
    · have hb := hs.cut.bounds hx
      omega
    · have hb := hs.cut.bounds hx
      omega

/-! ## The search -/

theorem findChunk_cases (hc : ChunksOk mem sh chunks) {fuel ptr size : Nat} {r : Nat × Nat}
    (hptr : ptr = sh + 4096 ∨ ∃ x ∈ chunks, ptr = sh + x.start)
    (hr : AustereHeap.findChunk mem (sh + 4096) n fuel ptr size = some r) :
    (∃ x ∈ chunks, r = (sh + x.start, x.size) ∧ Fits n x) ∨
      sh + 4096 ≤ r.1 ∧ ∀ x ∈ chunks, ptr ≤ sh + x.start → ¬ Fits n x := by
  induction fuel generalizing ptr size with
  | zero => exact nomatch hr
  | succ fuel ih =>
    rw [AustereHeap.findChunk] at hr
    split at hr
    · next hlt =>
      obtain ⟨x, hx, rfl⟩ := hptr.resolve_left hlt.ne
      have hxb := hc.bounds hx
      rw [hc.isFree_header hx, hc.withoutFree_header hx] at hr
      split at hr
      · next hfit =>
        cases hr
        exact .inl ⟨x, hx, rfl, hfit⟩
      · next hfit =>
        refine (ih (hc.next hx) hr).imp_right fun ⟨hend, hrest⟩ => ⟨hend, fun y hy hle hyfit => ?_⟩
        rcases eq_or_ne x y with rfl | hxy
        · exact hfit hyfit
        · have hyb := hc.bounds hy
          have hapart := hc.apart hx hy hxy
          exact hrest y hy (by omega) hyfit
    · next hge =>
      cases hr
      refine .inr ⟨Nat.le_of_not_lt hge, fun x hx hle => ?_⟩
      have hb := hc.bounds hx
      omega

/-- The search ends, with fuel for each of the bytes. -/
theorem findChunk_some (hc : ChunksOk mem sh chunks) {fuel ptr size : Nat}
    (hptr : ptr = sh + 4096 ∨ ∃ x ∈ chunks, ptr = sh + x.start) (hfuel : sh + 4096 < ptr + fuel) :
    ∃ r, AustereHeap.findChunk mem (sh + 4096) n fuel ptr size = some r := by
  induction fuel generalizing ptr size with
  | zero =>
    rcases hptr with rfl | ⟨x, hx, rfl⟩
    · exact absurd hfuel (Nat.lt_irrefl _)
    · have hb := hc.bounds hx
      omega
  | succ fuel ih =>
    rw [AustereHeap.findChunk]
    split
    · next hlt =>
      split
      · exact ⟨_, rfl⟩
      · obtain ⟨x, hx, rfl⟩ := hptr.resolve_left hlt.ne
        have hb := hc.bounds hx
        rw [hc.withoutFree_header hx]
        exact ih (hc.next hx) (by omega)
    · exact ⟨_, rfl⟩

/-- The search starts at a chunk. -/
theorem ChunksOk.first (hc : ChunksOk mem sh chunks) :
    AustereHeap.heapOf sh = sh + 4096 ∨ ∃ x ∈ chunks, AustereHeap.heapOf sh = sh + x.start := by
  obtain ⟨x, hx, hstart⟩ := hc.tiles.exists_first (by decide)
  exact .inr ⟨x, hx, congrArg (sh + ·) hstart.symm⟩

/-! ## Allocation from a subheap -/

variable {h h' : AustereHeap}

/-- Chunk `w` has been taken. -/
structure ChunkTaken (h : AustereHeap) (sh : Nat) (chunks : List Block) (h' : AustereHeap)
    (chunks' : List Block) (w : Block) : Prop where
  only : OnlyMem h h'
  ok : SubheapOk h'.mem sh chunks'
  takes : Takes chunks chunks' w

theorem update_of_eq {f : Nat → Nat} {p q w : Nat} (h : q = p) : Function.update f p w q = w :=
  h ▸ Function.update_self ..

/-- The words of the chunks are written that are put for `x`, and `free_bytes`. -/
theorem SubheapCut.replaced (hs : SubheapCut mem sh chunks) (hx : x ∈ chunks)
    (htiles : Tiles 12 chunks' 4096) (hr : Replaces chunks [x] m chunks')
    (hchunks : ∀ y ∈ m, ChunkOk mem' sh y)
    (hfree : mem' (sh + 8) + freeSize [x] = mem (sh + 8) + freeSize m)
    (hkeep : ∀ p, p ≠ sh + 8 → p < sh + x.start ∨ sh + x.start + x.size ≤ p → mem' p = mem p) :
    SubheapCut mem' sh chunks' := by
  have hb := hs.cut.bounds hx
  refine { cut := ?_, free := ?_ }
  · refine hs.cut.replaced x.start (x.start + x.size) htiles hr ?_ ?_ hchunks
    · exact fun y hy hyx => hs.cut.apart hy hx fun heq => hyx (List.mem_singleton.mpr heq)
    · exact fun p hlo hp => hkeep p (by omega) (by omega)
  · have hsum := hr.free
    have hold := hs.free
    omega

/-- How a chunk is cut up: the whole of it is used, or the first `n` bytes. -/
inductive CutUp (n : Nat) (x : Block) : List Block → Block → Prop where
  | whole : CutUp n x [{ x with free := false }] { x with free := false }
  | part : n < x.size → CutUp n x [⟨x.start, n, false⟩, ⟨x.start + n, x.size - n, true⟩] ⟨x.start, n, false⟩

/-- **A free chunk is put in use**, the whole of it or the first `n` bytes, and nothing is written outside
but `free_bytes`. -/
theorem cutChunk_cut (hs : SubheapCut h.mem sh chunks) (hx : x ∈ chunks) (hfit : Fits n x)
    (hn : 8 ≤ n) (hfour : n % 4 = 0) :
    ∃ chunks' m w, SubheapCut (h.cutChunk sh n (sh + x.start) x.size).mem sh chunks' ∧
      Replaces chunks [x] m chunks' ∧ CutUp n x m w ∧ Takes chunks chunks' w ∧
      (∃ mem, h.cutChunk sh n (sh + x.start) x.size = { h with mem := mem }) ∧
      ∀ p, p ≠ sh + 8 → p < sh + x.start ∨ sh + x.start + x.size ≤ p →
        (h.cutChunk sh n (sh + x.start) x.size).mem p = h.mem p := by
  obtain ⟨hxf, hle⟩ := hfit
  have hb := hs.cut.bounds hx
  have hal := (hs.cut.each x hx).aligned
  have hxs : freeSize [x] = x.size := by
    rw [freeSize, if_pos hxf]
    rfl
  have hin : x.size ≤ h.mem (sh + 8) ∧ h.mem (sh + 8) ≤ 4084 := by
    have hle := hs.cut.tiles.freeSize_le
    have hge := size_le_freeSize hx hxf
    have hfree := hs.free
    omega
  rw [AustereHeap.cutChunk]
  split
  · next hlong =>
    obtain ⟨chunks', htiles, hr, htakes⟩ :=
      hs.cut.tiles.take_part hx hxf (by omega) (by omega : n < x.size)
    have hkeep : ∀ p, p ≠ sh + 8 → p < sh + x.start ∨ sh + x.start + x.size ≤ p →
        (((((h.store (sh + x.start) n).store (sh + x.start + n - 4) n).store (sh + x.start + n)
          (withFree (x.size - n))).store (sh + x.start + x.size - 4) (x.size - n)).setFreeBytes sh
            (subUlong (h.freeBytes sh) n)).mem p = h.mem p := by
      intro p hp hout
      simp (disch := omega) only [AustereHeap.store, AustereHeap.setFreeBytes, Function.update_of_ne]
    have hbytes : ((((h.store (sh + x.start) n).store (sh + x.start + n - 4) n).store (sh + x.start + n)
        (withFree (x.size - n))).store (sh + x.start + x.size - 4) (x.size - n)).freeBytes sh =
          h.freeBytes sh := by
      simp (disch := omega) only [AustereHeap.store, AustereHeap.freeBytes, Function.update_of_ne]
    dsimp only
    rw [hbytes]
    refine ⟨chunks', _, _, hs.replaced hx htiles hr ?_ ?_ hkeep, hr, .part (by omega), htakes, ⟨_, rfl⟩, hkeep⟩
    · intro y hy
      rcases List.mem_pair.mp hy with rfl | rfl
      · refine ⟨?_, ?_, hn, hal.1, hfour⟩
        · simp (disch := omega) only [AustereHeap.store, AustereHeap.setFreeBytes, Function.update_of_ne,
            update_of_eq]
          rfl
        · simp (disch := omega) only [AustereHeap.store, AustereHeap.setFreeBytes, Function.update_of_ne,
            update_of_eq]
      · refine ⟨?_, ?_, ?_, ?_⟩
        · simp (disch := omega) only [AustereHeap.store, AustereHeap.setFreeBytes, Function.update_of_ne,
            update_of_eq]
          rw [withFree_of_lt (by unfold freeChunk; omega)]
          rfl
        · simp (disch := omega) only [AustereHeap.store, AustereHeap.setFreeBytes, Function.update_of_ne,
            update_of_eq]
        · dsimp only
          omega
        · dsimp only
          omega
    · have hnew : freeSize [⟨x.start, n, false⟩, ⟨x.start + n, x.size - n, true⟩] = x.size - n :=
        Nat.zero_add _
      simp (disch := omega) only [AustereHeap.store, AustereHeap.setFreeBytes, AustereHeap.freeBytes,
        update_of_eq]
      rw [hxs, hnew]
      unfold subUlong
      omega
  · obtain ⟨chunks', htiles, hr, htakes⟩ := hs.cut.tiles.take_all hx hxf
    have hkeep : ∀ p, p ≠ sh + 8 → p < sh + x.start ∨ sh + x.start + x.size ≤ p →
        ((h.store (sh + x.start) x.size).setFreeBytes sh (subUlong (h.freeBytes sh) x.size)).mem p =
          h.mem p := by
      intro p hp hout
      simp (disch := omega) only [AustereHeap.store, AustereHeap.setFreeBytes, Function.update_of_ne]
    have hbytes : (h.store (sh + x.start) x.size).freeBytes sh = h.freeBytes sh := by
      simp (disch := omega) only [AustereHeap.store, AustereHeap.freeBytes, Function.update_of_ne]
    dsimp only
    rw [hbytes]
    refine ⟨chunks', _, _, hs.replaced hx htiles hr ?_ ?_ hkeep, hr, .whole, htakes, ⟨_, rfl⟩, hkeep⟩
    · intro y hy
      rw [List.mem_singleton.mp hy]
      refine ⟨?_, ?_, hb.2.1, hal⟩
      · simp (disch := omega) only [AustereHeap.store, AustereHeap.setFreeBytes, Function.update_of_ne,
          update_of_eq]
        rfl
      · simp (disch := omega) only [AustereHeap.store, AustereHeap.setFreeBytes, Function.update_of_ne]
        exact (hs.cut.each x hx).trailer
    · have hnew : freeSize [{ x with free := false }] = 0 := rfl
      simp (disch := omega) only [AustereHeap.store, AustereHeap.setFreeBytes, AustereHeap.freeBytes,
        update_of_eq]
      rw [hxs, hnew]
      unfold subUlong
      omega

/-- The same in a subheap that is alone. -/
theorem cutChunk_taken (hs : SubheapOk h.mem sh chunks) (hx : x ∈ chunks) (hfit : Fits n x)
    (hn : 8 ≤ n) (hfour : n % 4 = 0) :
    ∃ chunks' w, ChunkTaken h sh chunks (h.cutChunk sh n (sh + x.start) x.size) chunks' w ∧
      w.start = x.start ∧ n ≤ w.size := by
  have hb := hs.cut.bounds hx
  obtain ⟨chunks', m, w, hcut, -, hup, htakes, honly, hkeep⟩ := cutChunk_cut hs.isCut hx hfit hn hfour
  have halone : (h.cutChunk sh n (sh + x.start) x.size).mem sh = 0 ∧
      (h.cutChunk sh n (sh + x.start) x.size).mem (sh + 4) = 0 := by
    rw [hkeep sh (by omega) (by omega), hkeep (sh + 4) (by omega) (by omega)]
    exact hs.alone
  refine ⟨chunks', w, ⟨honly, ⟨hcut.cut, hcut.free, halone⟩, htakes⟩, ?_⟩
  cases hup with
  | whole => exact ⟨rfl, hfit.2⟩
  | part => exact ⟨rfl, le_rfl⟩

/-- **`TrySmallAllocation`** comes to an end.  It cuts a chunk that fits, or there is none. -/
theorem trySmallAllocation_cases (hs : SubheapCut h.mem sh chunks) : ∃ r, h.trySmallAllocation sh n = some r ∧
    ((r = (0, h) ∧ ∀ x ∈ chunks, ¬ Fits n x) ∨
      ∃ x ∈ chunks, Fits n x ∧ r = (sh + x.start + 4, h.cutChunk sh n (sh + x.start) x.size)) := by
  rw [AustereHeap.trySmallAllocation]
  split
  · next hfull =>
    refine ⟨_, rfl, .inl ⟨rfl, fun x hx hfit => ?_⟩⟩
    have hle := size_le_freeSize hx hfit.1
    have hn := hfit.2
    have hfree := hs.free
    unfold AustereHeap.freeBytes at hfull
    omega
  · have hfuel : sh + 4096 < AustereHeap.heapOf sh + (subheapSize + 1) := by
      unfold AustereHeap.heapOf subheapSize
      omega
    have hsearch : ∃ r, AustereHeap.findChunk h.mem (sh + 4096) n (subheapSize + 1)
        (AustereHeap.heapOf sh) 0xf001dead = some r := findChunk_some hs.cut hs.cut.first hfuel
    obtain ⟨r, hr⟩ := hsearch
    refine ⟨_, congrArg (Option.map _) hr, ?_⟩
    rcases findChunk_cases hs.cut hs.cut.first hr with ⟨x, hx, rfl, hfit⟩ | ⟨hend, hnone⟩
    · have hb := hs.cut.bounds hx
      have hin : ¬ AustereHeap.endOf sh ≤ sh + x.start := by
        unfold AustereHeap.endOf
        omega
      exact .inr ⟨x, hx, hfit, if_neg hin⟩
    · refine .inl ⟨if_pos hend, fun x hx => hnone x hx ?_⟩
      have hb := hs.cut.bounds hx
      unfold AustereHeap.heapOf
      omega

/-- A chunk is taken if one fits. -/
theorem trySmallAllocation_taken (hs : SubheapOk h.mem sh chunks) (hn : 8 ≤ n) (hfour : n % 4 = 0)
    (hfits : ∃ x ∈ chunks, Fits n x) {res : Nat} (heq : h.trySmallAllocation sh n = some (res, h')) :
    ∃ chunks' w, ChunkTaken h sh chunks h' chunks' w ∧ res = sh + w.start + 4 ∧ n ≤ w.size := by
  obtain ⟨r, hr, hcases⟩ := trySmallAllocation_cases (n := n) hs.isCut
  obtain rfl := Option.some.inj (hr.symm.trans heq)
  rcases hcases with ⟨-, hnone⟩ | ⟨x, hx, hfit, hcut⟩
  · obtain ⟨x, hx, hfit⟩ := hfits
    exact absurd hfit (hnone x hx)
  · obtain ⟨rfl, rfl⟩ := Prod.mk.inj hcut
    obtain ⟨chunks', w, htaken, hstart, hle⟩ := cutChunk_taken hs hx hfit hn hfour
    exact ⟨chunks', w, htaken, by rw [hstart], hle⟩

/-! ## Freeing in a subheap -/

/-- Chunk `cur` is being freed, and `total` bytes will be free then. -/
structure Freeing (mem : Nat → Nat) (sh : Nat) (chunks : List Block) (cur : Block) (total : Nat) :
    Prop where
  cut : ChunksOk mem sh chunks
  there : cur ∈ chunks
  isUsed : cur.free = false
  free : mem (sh + 8) = total
  sum : total = freeSize chunks + cur.size

/-- The used chunks but for the one that is being freed. -/
def SameOthers (chunks : List Block) (cur : Block) (chunks' : List Block) (cur' : Block) : Prop :=
  ∀ y, y.free = false → (y ∈ chunks' ∧ y ≠ cur' ↔ y ∈ chunks ∧ y ≠ cur)

/-- Nothing is written but in the chunks. -/
def OnlyChunks (sh : Nat) (h h' : AustereHeap) : Prop :=
  ∃ mem, h' = { h with mem := mem } ∧ ∀ p, p < sh + 12 ∨ sh + 4096 ≤ p → mem p = h.mem p

theorem OnlyChunks.refl (sh : Nat) (h : AustereHeap) : OnlyChunks sh h h := ⟨_, rfl, fun _ _ => rfl⟩

theorem OnlyChunks.trans {h h' h'' : AustereHeap} (h₁ : OnlyChunks sh h h') (h₂ : OnlyChunks sh h' h'') :
    OnlyChunks sh h h'' := by
  obtain ⟨mem, rfl, hmem⟩ := h₁
  obtain ⟨mem', rfl, hmem'⟩ := h₂
  exact ⟨mem', rfl, fun p hp => (hmem' p hp).trans (hmem p hp)⟩

/-- The chunk above `cur` is used, if there is one. -/
def UsedAbove (chunks : List Block) (cur : Block) : Prop := ∀ y ∈ chunks, y.start = cur.stop → y.free = false

/-- The chunk below `cur` is used, if there is one. -/
def UsedBelow (chunks : List Block) (cur : Block) : Prop := ∀ y ∈ chunks, y.stop = cur.start → y.free = false

variable {total : Nat}

/-- Chunk `x` and chunk `y` above it become one, where one of them is being freed and the other is free. -/
theorem Freeing.join (hf : Freeing mem sh chunks cur total) (hx : x ∈ chunks) (hy : y ∈ chunks)
    (hxy : y.start = x.stop) (hcur : x = cur ∧ y.free = true ∨ y = cur ∧ x.free = true) :
    ∃ chunks', Freeing (Function.update (Function.update mem (sh + x.start) (x.size + y.size))
          (sh + x.start + (x.size + y.size) - 4) (x.size + y.size)) sh chunks'
        ⟨x.start, x.size + y.size, false⟩ total ∧
      SameOthers chunks cur chunks' ⟨x.start, x.size + y.size, false⟩ ∧
      ∀ z ∈ chunks', z.free = true → z ∈ chunks := by
  have hxb := hf.cut.bounds hx
  have hyb := hf.cut.bounds hy
  have hxa := (hf.cut.each x hx).aligned
  have hya := (hf.cut.each y hy).aligned
  have hstop : y.start = x.start + x.size := hxy
  obtain ⟨chunks', htiles, hr⟩ := hf.cut.tiles.replace_two hx hy hxy (tiles_join false (by omega) hxy)
  have hthere : (⟨x.start, x.size + y.size, false⟩ : Block) ∈ chunks' :=
    (hr.mem _).mpr (.inl List.mem_cons_self)
  have hnew : ∀ z ∈ chunks, z ≠ ⟨x.start, x.size + y.size, false⟩ := by
    rintro z hz rfl
    have hsize := congrArg Block.size (hf.cut.tiles.eq_of_start hz hx rfl)
    dsimp only at hsize
    omega
  refine ⟨chunks', { cut := ?_, there := hthere, isUsed := rfl, free := ?_, sum := ?_ }, ?_, ?_⟩
  · refine hf.cut.replaced x.start (x.start + (x.size + y.size)) htiles hr ?_ ?_ ?_
    · intro z hz hzm
      rw [List.mem_pair, not_or] at hzm
      have hzb := hf.cut.bounds hz
      have hzx := hf.cut.apart hz hx hzm.1
      have hzy := hf.cut.apart hz hy hzm.2
      omega
    · intro p hlo hp
      simp (disch := omega) only [Function.update_of_ne]
    · intro z hz
      rw [List.mem_singleton.mp hz]
      refine ⟨?_, ?_, ?_, ?_⟩
      · simp (disch := omega) only [Function.update_of_ne, update_of_eq]
        rfl
      · simp (disch := omega) only [update_of_eq]
      · dsimp only
        omega
      · dsimp only
        omega
  · simp (disch := omega) only [Function.update_of_ne]
    exact hf.free
  · -- What was free of the two is in the chunk now.
    have hpair : freeSize [x, y] + cur.size = x.size + y.size := by
      rcases hcur with ⟨rfl, hyf⟩ | ⟨rfl, hxf⟩
      · simp only [freeSize, hf.isUsed, hyf, Bool.false_eq_true, if_true, if_false]
        omega
      · simp only [freeSize, hf.isUsed, hxf, Bool.false_eq_true, if_true, if_false]
        omega
    have hone : freeSize [⟨x.start, x.size + y.size, false⟩] = 0 := rfl
    have hsum := hr.free
    have hold := hf.sum
    dsimp only
    omega
  · intro z hzf
    rw [hr.mem, List.mem_singleton, List.mem_pair, not_or]
    constructor
    · rintro ⟨hz | ⟨hz, hzx, hzy⟩, hne⟩
      · exact absurd hz hne
      · refine ⟨hz, ?_⟩
        rcases hcur with ⟨rfl, -⟩ | ⟨rfl, -⟩
        · exact hzx
        · exact hzy
    · rintro ⟨hz, hzcur⟩
      refine ⟨.inr ⟨hz, ?_, ?_⟩, hnew z hz⟩
      · rintro rfl
        rcases hcur with ⟨rfl, -⟩ | ⟨-, hxf⟩
        · exact hzcur rfl
        · exact Bool.noConfusion (hxf.symm.trans hzf)
      · rintro rfl
        rcases hcur with ⟨-, hyf⟩ | ⟨rfl, -⟩
        · exact Bool.noConfusion (hyf.symm.trans hzf)
        · exact hzcur rfl
  · intro z hz hzf
    rcases (hr.mem z).mp hz with hz | ⟨hz, -⟩
    · rw [List.mem_singleton.mp hz] at hzf
      cases hzf
    · exact hz

/-- "Merge up". -/
theorem mergeUp_freeing (hf : Freeing h.mem sh chunks cur total) :
    ∃ size h' chunks' cur', h.mergeUp sh (sh + cur.start) cur.size = (size, h') ∧ OnlyChunks sh h h' ∧
      Freeing h'.mem sh chunks' cur' total ∧ cur'.start = cur.start ∧ cur'.size = size ∧
      SameOthers chunks cur chunks' cur' ∧ (Merged chunks → Merged chunks' ∧ UsedAbove chunks' cur') := by
  have hb := hf.cut.bounds hf.there
  rw [AustereHeap.mergeUp]
  split
  · next hcond =>
    obtain ⟨hin, hyf⟩ := hcond
    unfold AustereHeap.endOf at hin
    have hnext := (hf.cut.tiles.next hf.there).resolve_left fun hlast => by
      rw [Block.stop] at hlast
      omega
    obtain ⟨y, hy, hstop⟩ := hnext
    have hyb := hf.cut.bounds hy
    have hat : sh + cur.start + cur.size = sh + y.start := by
      rw [hstop, Nat.add_assoc]
      rfl
    rw [hat, hf.cut.isFree_header hy] at hyf
    have hsize : withoutFree (addUlong cur.size (h.mem (sh + cur.start + cur.size))) =
        cur.size + y.size := by
      rw [hat, (hf.cut.each y hy).header, tag_of_free hyf]
      unfold withoutFree addUlong freeChunk
      omega
    obtain ⟨chunks', hf', hothers, hfree⟩ := hf.join hf.there hy hstop (.inl ⟨rfl, hyf⟩)
    rw [hsize]
    refine ⟨_, _, chunks', _, rfl, ⟨_, rfl, fun p hp => ?_⟩, hf', rfl, rfl, hothers, fun hm => ⟨hm.shrink hfree, ?_⟩⟩
    · simp (disch := omega) only [AustereHeap.store, Function.update_of_ne]
    · -- A free chunk above would have followed `y`, which was free.
      intro z hz hzstart
      rw [Bool.eq_false_iff]
      refine fun hzf => hm y hy z (hfree z hz hzf) hyf hzf (hzstart.trans ?_)
      rw [Block.stop, Block.stop, hstop]
      exact (Nat.add_assoc ..).symm
  · next hcond =>
    refine ⟨_, _, chunks, cur, rfl, .refl sh h, hf, rfl, rfl, fun _ _ => Iff.rfl, fun hm => ⟨hm, ?_⟩⟩
    intro y hy hstart
    rw [Bool.eq_false_iff]
    have hyb := hf.cut.bounds hy
    have hat : sh + cur.start + cur.size = sh + y.start := by
      rw [hstart, Nat.add_assoc]
      rfl
    refine fun hyf => hcond ⟨?_, ?_⟩
    · unfold AustereHeap.endOf
      omega
    · rw [hat, hf.cut.isFree_header hy, hyf]

/-- "Merge down". -/
theorem mergeDown_freeing (hf : Freeing h.mem sh chunks cur total) :
    ∃ ptr h' chunks' cur', h.mergeDown sh (sh + cur.start) cur.size = (ptr, h') ∧ OnlyChunks sh h h' ∧
      Freeing h'.mem sh chunks' cur' total ∧ ptr = sh + cur'.start ∧ SameOthers chunks cur chunks' cur' ∧
      (Merged chunks → UsedAbove chunks cur →
        Merged chunks' ∧ UsedAbove chunks' cur' ∧ UsedBelow chunks' cur') := by
  have hb := hf.cut.bounds hf.there
  have hbelow : ∀ x ∈ chunks, x.stop = cur.start →
      h.mem (sh + cur.start - 4) = x.size ∧ sh + cur.start - x.size = sh + x.start := by
    intro x hx hstop
    have hcurstart : x.start + x.size = cur.start := hstop
    refine ⟨?_, by omega⟩
    rw [← hcurstart, ← Nat.add_assoc]
    exact (hf.cut.each x hx).trailer
  rw [AustereHeap.mergeDown]
  split
  · next hcond =>
    obtain ⟨hin, hxf⟩ := hcond
    unfold AustereHeap.heapOf at hin
    have hprev := (hf.cut.tiles.prev hf.there).resolve_left (by omega)
    obtain ⟨x, hx, hstop⟩ := hprev
    have hxb := hf.cut.bounds hx
    obtain ⟨hlsize, hl⟩ := hbelow x hx hstop
    have hsum : addUlong x.size cur.size = x.size + cur.size := by
      unfold addUlong
      omega
    rw [hlsize, hl, hf.cut.isFree_header hx] at hxf
    obtain ⟨chunks', hf', hothers, hfree⟩ := hf.join hx hf.there hstop.symm (.inr ⟨rfl, hxf⟩)
    rw [hlsize, hl, hsum]
    refine ⟨_, _, chunks', _, rfl, ⟨_, rfl, fun p hp => ?_⟩, hf', rfl, hothers,
      fun hm habove => ⟨hm.shrink hfree, ?_, ?_⟩⟩
    · have hstart : x.start + x.size = cur.start := hstop
      simp (disch := omega) only [AustereHeap.store, Function.update_of_ne]
    · intro z hz hzstart
      rw [Bool.eq_false_iff]
      refine fun hzf => Bool.eq_false_iff.mp (habove z (hfree z hz hzf) (hzstart.trans ?_)) hzf
      rw [Block.stop, Block.stop, ← hstop]
      exact (Nat.add_assoc ..).symm
    · intro z hz hzstop
      rw [Bool.eq_false_iff]
      exact fun hzf => hm z (hfree z hz hzf) x hx hzf hxf hzstop.symm
  · next hcond =>
    refine ⟨_, _, chunks, cur, rfl, .refl sh h, hf, rfl, fun _ _ => Iff.rfl,
      fun hm habove => ⟨hm, habove, ?_⟩⟩
    intro x hx hstop
    rw [Bool.eq_false_iff]
    have hxb := hf.cut.bounds hx
    have hstart : x.start + x.size = cur.start := hstop
    obtain ⟨hlsize, hl⟩ := hbelow x hx hstop
    refine fun hxf => hcond ⟨?_, ?_⟩
    · unfold AustereHeap.heapOf
      omega
    · rw [hlsize, hl, hf.cut.isFree_header hx, hxf]

/-- "This block is now free". -/
theorem Freeing.done (hf : Freeing mem sh chunks cur total) :
    ∃ chunks', SubheapCut (Function.update mem (sh + cur.start) (withFree (mem (sh + cur.start)))) sh
        chunks' ∧ freeSize chunks' = total ∧ (∀ y, y.free = false → (y ∈ chunks' ↔ y ∈ chunks ∧ y ≠ cur)) ∧
      (Merged chunks → UsedAbove chunks cur → UsedBelow chunks cur → Merged chunks') := by
  have hb := hf.cut.bounds hf.there
  obtain ⟨chunks', htiles, hr, hgive⟩ := hf.cut.tiles.give hf.there
  have hsum : freeSize chunks' = total := by
    have hnew : freeSize [{ cur with free := true }] = cur.size := rfl
    have hold : freeSize [cur] = 0 := by
      simp only [freeSize, hf.isUsed, Bool.false_eq_true, if_false]
    have hfree := hr.free
    have htotal := hf.sum
    omega
  refine ⟨chunks', { cut := ?_, free := ?_ }, hsum, hgive,
    fun hm habove hbelow => hm.give hf.cut.tiles hf.there habove hbelow hr⟩
  · refine hf.cut.replaced cur.start (cur.start + cur.size) htiles hr ?_ ?_ ?_
    · exact fun y hy hyx => hf.cut.apart hy hf.there fun heq => hyx (List.mem_singleton.mpr heq)
    · intro p hlo hp
      exact Function.update_of_ne (by omega) ..
    · intro y hy
      rw [List.mem_singleton.mp hy]
      refine ⟨?_, ?_, hb.2.1, (hf.cut.each cur hf.there).aligned⟩
      · rw [Function.update_self, (hf.cut.each cur hf.there).header, tag_of_used hf.isUsed,
          withFree_of_lt (hf.cut.size_lt hf.there)]
        rfl
      · simp (disch := omega) only [Function.update_of_ne]
        exact (hf.cut.each cur hf.there).trailer
  · rw [hsum, ← hf.free]
    exact Function.update_of_ne (by omega) ..

/-- The size of the chunk is added to `free_bytes`. -/
theorem SubheapCut.freeing (hs : SubheapCut mem sh chunks) (hx : x ∈ chunks) (hused : x.free = false) :
    Freeing (Function.update mem (sh + 8) (freeSize chunks + x.size)) sh chunks x
      (freeSize chunks + x.size) where
  cut := hs.cut.congr fun p hlo _ _ => Function.update_of_ne (by omega) ..
  there := hx
  isUsed := hused
  free := Function.update_self ..
  sum := rfl

theorem pullToHead_head (hhead : h.headSubheap = sh) : h.pullToHead sh = h :=
  if_neg (not_not_intro hhead.symm)

/-- What `SmallFreeMemory` finds for the block in chunk `x`. -/
theorem SubheapCut.found (hs : SubheapCut h.mem sh chunks) (hx : x ∈ chunks) (hused : x.free = false)
    (hpage : sh % pageSize = 0) : (sh + x.start + 4) / pageSize * pageSize = sh ∧
      h.mem (sh + x.start + 4 - 4) = x.size ∧ isFree x.size = false ∧
      addUlong (h.freeBytes sh) x.size = freeSize chunks + x.size := by
  have hb := hs.cut.bounds hx
  have hle := hs.cut.tiles.freeSize_le
  refine ⟨?_, ?_, ?_, ?_⟩
  · unfold pageSize at hpage ⊢
    omega
  · rw [Nat.add_sub_cancel, (hs.cut.each x hx).header, tag_of_used hused]
  · unfold isFree freeChunk
    rw [decide_eq_false_iff_not]
    omega
  · rw [AustereHeap.freeBytes, hs.free]
    unfold addUlong
    omega

/-- The way through `SmallFreeMemory` to the two ends. -/
theorem smallFreeMemory_eq (hs : SubheapCut h.mem sh chunks) (hx : x ∈ chunks) (hused : x.free = false)
    (hpage : sh % pageSize = 0) :
    h.smallFreeMemory (sh + x.start + 4) =
      if freeSize chunks + x.size = subheapSize then
        (h.setFreeBytes sh (freeSize chunks + x.size)).releaseSubheap sh
      else
        let up := (h.setFreeBytes sh (freeSize chunks + x.size)).mergeUp sh (sh + x.start) x.size
        let down := up.2.mergeDown sh (sh + x.start) up.1
        (down.2.store down.1 (withFree (down.2.mem down.1))).pullToHead sh := by
  obtain ⟨hsh, hsize, hnot, hsum⟩ := hs.found hx hused hpage
  have hptr : sh + x.start + 4 - 4 = sh + x.start := Nat.add_sub_cancel ..
  have hread : (h.setFreeBytes sh (freeSize chunks + x.size)).freeBytes sh = freeSize chunks + x.size :=
    Function.update_self ..
  unfold AustereHeap.smallFreeMemory
  dsimp only
  rw [hsh, hsize, if_neg (Bool.eq_false_iff.mp hnot), hsum, hread, hptr]

/-- Chunk `x` has been freed, and the free chunks beside it are part of the free one now. -/
structure ChunkFreed (h : AustereHeap) (sh : Nat) (chunks : List Block) (x : Block) (h' : AustereHeap)
    (chunks' : List Block) : Prop where
  cut : SubheapCut h'.mem sh chunks'
  sum : freeSize chunks' = freeSize chunks + x.size
  others : ∀ y, y.free = false → (y ∈ chunks' ↔ y ∈ chunks ∧ y ≠ x)
  merged : Merged chunks → Merged chunks'
  only : ∃ mem, h' = { h with mem := mem } ∧
    ∀ p, p ≠ sh + 8 → p < sh + 12 ∨ sh + 4096 ≤ p → mem p = h.mem p

/-- **A chunk is freed** in a subheap that stays. -/
theorem smallFreeMemory_freed (hs : SubheapCut h.mem sh chunks) (hx : x ∈ chunks)
    (hused : x.free = false) (hpage : sh % pageSize = 0)
    (hmore : freeSize chunks + x.size ≠ subheapSize) :
    ∃ h' chunks', h.smallFreeMemory (sh + x.start + 4) = h'.pullToHead sh ∧
      ChunkFreed h sh chunks x h' chunks' := by
  rw [smallFreeMemory_eq hs hx hused hpage, if_neg hmore]
  obtain ⟨size, h₁, chunks₁, cur₁, hup, honly₁, hf₁, hstart, rfl, ho₁, hm₁⟩ :=
    mergeUp_freeing (h := h.setFreeBytes sh (freeSize chunks + x.size)) (hs.freeing hx hused)
  obtain ⟨ptr, h₂, chunks₂, cur₂, hdown, honly₂, hf₂, rfl, ho₂, hm₂⟩ := mergeDown_freeing hf₁
  obtain ⟨chunks₃, hs₃, hsum, ho₃, hm₃⟩ := hf₂.done
  have hb₂ := hf₂.cut.bounds hf₂.there
  rw [hstart] at hdown
  dsimp only
  rw [hup]
  dsimp only
  rw [hdown]
  refine ⟨_, chunks₃, rfl, { cut := hs₃, sum := hsum, others := fun y hy => ?_, merged := fun hm => ?_, only := ?_ }⟩
  · rw [ho₃ y hy, ho₂ y hy, ho₁ y hy]
  · obtain ⟨hmerged₁, habove₁⟩ := hm₁ hm
    obtain ⟨hmerged₂, habove₂, hbelow₂⟩ := hm₂ hmerged₁ habove₁
    exact hm₃ hmerged₂ habove₂ hbelow₂
  · obtain ⟨mem, rfl, hmem⟩ := honly₁.trans honly₂
    refine ⟨_, rfl, fun p hp hout => ?_⟩
    have hne : p ≠ sh + cur₂.start := by omega
    exact (Function.update_of_ne hne ..).trans ((hmem p hout).trans (Function.update_of_ne hp ..))

/-- The same in a subheap that is alone. -/
theorem smallFreeMemory_kept (hs : SubheapOk h.mem sh chunks) (hx : x ∈ chunks)
    (hused : x.free = false) (hpage : sh % pageSize = 0) (hhead : h.headSubheap = sh)
    (hmore : freeSize chunks + x.size ≠ subheapSize) :
    OnlyMem h (h.smallFreeMemory (sh + x.start + 4)) ∧
      ∃ chunks', SubheapOk (h.smallFreeMemory (sh + x.start + 4)).mem sh chunks' ∧
        freeSize chunks' = freeSize chunks + x.size ∧
        ∀ y, y.free = false → (y ∈ chunks' ↔ y ∈ chunks ∧ y ≠ x) := by
  obtain ⟨h', chunks', heq, hfreed⟩ := smallFreeMemory_freed hs.isCut hx hused hpage hmore
  obtain ⟨mem, rfl, hmem⟩ := hfreed.only
  have hkeep : ({ h with mem := mem } : AustereHeap).pullToHead sh = { h with mem := mem } :=
    pullToHead_head hhead
  rw [heq, hkeep]
  refine ⟨⟨mem, rfl⟩, chunks', ⟨hfreed.cut.cut, hfreed.cut.free, ?_⟩, hfreed.sum, hfreed.others⟩
  have halone := hs.alone
  rw [← hmem sh (by omega) (by omega), ← hmem (sh + 4) (by omega) (by omega)] at halone
  exact halone

/-- With chunk `x` all of the subheap would be free, so the others are. -/
theorem SubheapCut.last_used (hs : SubheapCut mem sh chunks) (hx : x ∈ chunks) (hused : x.free = false)
    (hall : freeSize chunks + x.size = subheapSize) {y : Block} (hy : y ∈ chunks) (hyf : y.free = false) :
    y = x := by
  obtain ⟨chunks', htiles, hr, hgive⟩ := hs.cut.tiles.give hx
  by_contra hyx
  have hmem := (hgive y hyf).mpr ⟨hy, hyx⟩
  have hle := htiles.freeSize_add_le hmem hyf
  have hb := hs.cut.bounds hy
  have hnew : freeSize [{ x with free := true }] = x.size := rfl
  have hold : freeSize [x] = 0 := by
    simp only [freeSize, hused, Bool.false_eq_true, if_false]
  have hfree := hr.free
  unfold subheapSize at hall
  omega

/-- **The last chunk is freed**, and the subheap with it. -/
theorem smallFreeMemory_last (hs : SubheapOk h.mem sh chunks) (hx : x ∈ chunks)
    (hused : x.free = false) (hpage : sh % pageSize = 0) (hhead : h.headSubheap = sh)
    (hall : freeSize chunks + x.size = subheapSize) :
    (∃ mem, h.smallFreeMemory (sh + x.start + 4) =
      { h with mem := mem, headSubheap := 0 }.bigFreeMemory sh) ∧
      ∀ y ∈ chunks, y.free = false → y = x := by
  refine ⟨?_, fun y hy hyf => hs.isCut.last_used hx hused hall hy hyf⟩
  rw [smallFreeMemory_eq hs.isCut hx hused hpage, if_pos hall, AustereHeap.releaseSubheap]
  generalize freeSize chunks + x.size = total
  have hnext : (h.setFreeBytes sh total).next sh = 0 :=
    (Function.update_of_ne (by omega) ..).trans hs.alone.1
  have hprev : (h.setFreeBytes sh total).prev sh = 0 :=
    (Function.update_of_ne (by omega) ..).trans hs.alone.2
  have hun : ((h.setFreeBytes sh total).unlinkNext sh).unlinkPrev sh = h.setFreeBytes sh total := by
    rw [AustereHeap.unlinkNext, if_neg (not_not_intro hnext), AustereHeap.unlinkPrev,
      if_neg (not_not_intro hprev)]
  have hhead' : (h.setFreeBytes sh total).headSubheap = sh := hhead
  rw [hun, if_pos hhead'.symm, hnext]
  exact ⟨_, rfl⟩

/-! ## A new subheap -/

/-- **`NewSubheap`** makes a page one free chunk. -/
theorem newSubheap_ok (heq : h.newSubheap = some (sh, h')) (hsh : sh ≠ 0) :
    ∃ u, h.bigAllocation pageSize = some (sh, u) ∧ OnlyMem u h' ∧
      SubheapOk h'.mem sh [⟨12, 4084, true⟩] := by
  obtain ⟨⟨res, u⟩, hbig, hpair⟩ := Option.map_eq_some_iff.mp heq
  dsimp only at hpair
  split at hpair
  · next hres =>
    cases hpair
    exact absurd hres hsh
  · cases hpair
    refine ⟨u, hbig, ⟨_, rfl⟩, { cut := ⟨⟨rfl, by decide, rfl⟩, ?_⟩, free := ?_, alone := ?_ }⟩
    · intro x hx
      rw [List.mem_singleton.mp hx]
      refine ⟨?_, ?_, by decide, by decide⟩
      · simp (disch := omega) only [AustereHeap.store, AustereHeap.heapOf, subheapSize, update_of_eq,
          Function.update_of_ne]
        rfl
      · simp (disch := omega) only [AustereHeap.store, AustereHeap.heapOf, subheapSize, update_of_eq]
    · simp (disch := omega) only [AustereHeap.store, AustereHeap.setFreeBytes, AustereHeap.setNext,
        AustereHeap.setPrev, AustereHeap.heapOf, subheapSize, update_of_eq, Function.update_of_ne]
      rfl
    · simp (disch := omega) only [AustereHeap.store, AustereHeap.setFreeBytes, AustereHeap.setNext,
        AustereHeap.setPrev, AustereHeap.heapOf, subheapSize, update_of_eq, Function.update_of_ne,
        and_self]

/-- The first subheap comes to the head of the list. -/
theorem pullToHead_first (halone : h.mem sh = 0 ∧ h.mem (sh + 4) = 0) (hhead : h.headSubheap = 0)
    (hsh : sh ≠ 0) : h.pullToHead sh = { h with headSubheap := sh } := by
  have hnext : h.next sh = 0 := halone.1
  have hprev : h.prev sh = 0 := halone.2
  have hun : (h.unlinkPrev sh).unlinkNext sh = h := by
    rw [AustereHeap.unlinkPrev, if_neg (not_not_intro hprev), AustereHeap.unlinkNext,
      if_neg (not_not_intro hnext)]
  have hmem : Function.update (Function.update h.mem (sh + 4) 0) sh 0 = h.mem := by
    rw [← halone.2, Function.update_eq_self, halone.2, ← halone.1, Function.update_eq_self]
  rw [AustereHeap.pullToHead, if_pos (fun heq => hsh (heq.trans hhead)), hun]
  simp only [AustereHeap.setNext, AustereHeap.setPrev, AustereHeap.store, hhead, hmem]

end V4v.Xenutil
