import LegacyV4v.AustereHeap
import LegacyV4v.BlockTiling

/-! # The big allocator of the austere heap

`heap_block_sizes` says how the heap's pages are cut into runs; entries inside a run are left over from
earlier and mean nothing.  After `CompactBigHeap` the cursor can be inside a run, and the second search of
`BigAllocation` starts from such an entry.  It is one that did not fit in the first search, and from it
the search comes to entries that count. -/
namespace V4v.Xenutil
open BlockTiling

/-- The word that `heap_block_sizes` has for a run, and a chunk in its header. -/
def tag (x : Block) : Nat := x.size + if x.free = true then freeChunk else 0

variable {x y : Block} {n : Nat}

theorem tag_of_free (hx : x.free = true) : tag x = x.size + freeChunk := by
  rw [tag, if_pos hx]

theorem tag_of_used (hx : x.free = false) : tag x = x.size := by
  rw [tag, if_neg (by rw [hx]; exact Bool.false_ne_true), Nat.add_zero]

theorem isFree_tag (hx : x.size < freeChunk) : isFree (tag x) = x.free := by
  cases hf : x.free with
  | true => exact decide_eq_true (tag_of_free hf ▸ Nat.le_add_left ..)
  | false => exact decide_eq_false (tag_of_used hf ▸ hx.not_ge)

theorem withoutFree_tag (hx : x.size < freeChunk) : withoutFree (tag x) = x.size := by
  cases hf : x.free with
  | true => rw [tag_of_free hf, withoutFree, Nat.add_mod_right, Nat.mod_eq_of_lt hx]
  | false => rw [tag_of_used hf, withoutFree, Nat.mod_eq_of_lt hx]

theorem withFree_of_lt (hn : n < freeChunk) : withFree n = n + freeChunk := by
  rw [withFree, Nat.mod_eq_of_lt hn]

/-- The heap's pages are cut into the runs `pages`. -/
structure PagesOk (h : AustereHeap) (pages : List Block) : Prop where
  few : h.nrHeapPages ≤ austereHeapPages
  tiles : Tiles 0 pages h.nrHeapPages
  tags : ∀ x ∈ pages, h.heapBlockSizes x.start = tag x

/-- The cursor is at a run. -/
def CursorOk (h : AustereHeap) (pages : List Block) : Prop :=
  0 < h.nrHeapPages → ∃ x ∈ pages, x.start = h.bigHeapCursor

/-- Only `heap_block_sizes` and the cursor may be different. -/
def OnlyPages (h h' : AustereHeap) : Prop :=
  ∃ sizes cursor, h' = { h with heapBlockSizes := sizes, bigHeapCursor := cursor }

variable {h h' : AustereHeap} {pages old : List Block} {nPages : Nat}

theorem OnlyPages.trans {h'' : AustereHeap} (h₁ : OnlyPages h h') (h₂ : OnlyPages h' h'') :
    OnlyPages h h'' := by
  obtain ⟨sizes, cursor, rfl⟩ := h₁
  obtain ⟨sizes, cursor, rfl⟩ := h₂
  exact ⟨sizes, cursor, rfl⟩

namespace PagesOk

theorem bounds (hp : PagesOk h pages) (hx : x ∈ pages) :
    0 < x.size ∧ x.start + x.size ≤ h.nrHeapPages ∧ x.start + x.size ≤ 21 := by
  obtain ⟨-, hpos, hstop⟩ := hp.tiles.bounds hx
  exact ⟨hpos, hstop, hstop.trans hp.few⟩

theorem size_lt (hp : PagesOk h pages) (hx : x ∈ pages) : x.size < freeChunk := by
  have hb := hp.bounds hx
  unfold freeChunk
  omega

theorem isFree_start (hp : PagesOk h pages) (hx : x ∈ pages) :
    isFree (h.heapBlockSizes x.start) = x.free := by
  rw [hp.tags x hx, isFree_tag (hp.size_lt hx)]

theorem withoutFree_start (hp : PagesOk h pages) (hx : x ∈ pages) :
    withoutFree (h.heapBlockSizes x.start) = x.size := by
  rw [hp.tags x hx, withoutFree_tag (hp.size_lt hx)]

end PagesOk

/-! ## The search -/

/-- A run is what `BigAllocation` looks for. -/
def Fits (nPages : Nat) (x : Block) : Prop := x.free = true ∧ nPages ≤ x.size

/-- The entries of `old` that do not count any more are of runs that do not fit. -/
def Stale (h : AustereHeap) (pages old : List Block) (nPages : Nat) : Prop :=
  ∀ z ∈ old, (∃ x ∈ pages, x.start = z.start) ∨
    h.heapBlockSizes z.start = tag z ∧ z.size < freeChunk ∧ ¬ Fits nPages z

/-- The search ends at a run that fits. -/
theorem bigSearch_fits (hp : PagesOk h pages) (hold : Tiles 0 old h.nrHeapPages)
    (hsub : ∀ x ∈ pages, ∃ z ∈ old, z.start = x.start) (hstale : Stale h pages old nPages)
    {fuel i j : Nat} (hi : ∃ z ∈ old, z.start = i)
    (hj : h.bigSearch nPages fuel i = some (some j)) :
    ∃ x ∈ pages, x.start = j ∧ Fits nPages x := by
  induction fuel generalizing i with
  | zero => exact nomatch hj
  | succ fuel ih =>
    obtain ⟨z, hz, rfl⟩ := hi
    rw [AustereHeap.bigSearch] at hj
    rcases hstale z hz with ⟨x, hx, hxz⟩ | ⟨htag, hlt, hnot⟩
    · -- at a run
      rw [← hxz, hp.isFree_start hx, hp.withoutFree_start hx] at hj
      split at hj
      · next hfit =>
        cases hj
        exact ⟨x, hx, rfl, hfit.2, hfit.1⟩
      · split at hj
        · exact nomatch hj
        · obtain ⟨y, hy, hyx⟩ := hp.tiles.next_mod hx
          obtain ⟨u, hu, huy⟩ := hsub y hy
          exact ih ⟨u, hu, huy.trans hyx⟩ hj
    · -- at an entry that is left over
      rw [htag, isFree_tag hlt, withoutFree_tag hlt, if_neg fun hfit => hnot ⟨hfit.2, hfit.1⟩] at hj
      split at hj
      · exact nomatch hj
      · obtain ⟨y, hy, hyz⟩ := hold.next_mod hz
        exact ih ⟨y, hy, hyz⟩ hj

/-- From `i` round to the cursor `c`. -/
def Between (i c p : Nat) : Prop := i ≤ p ∧ p < c ∨ c ≤ i ∧ (i ≤ p ∨ p < c)

/-- If the search comes back to the cursor, nothing on the way fits. -/
theorem bigSearch_exhausted (hp : PagesOk h pages) (hc : CursorOk h pages) {fuel i : Nat}
    (hi : ∃ z ∈ pages, z.start = i) (hnone : h.bigSearch nPages fuel i = some none) :
    ∀ x ∈ pages, Between i h.bigHeapCursor x.start → ¬ Fits nPages x := by
  induction fuel generalizing i with
  | zero => exact nomatch hnone
  | succ fuel ih =>
    obtain ⟨z, hz, rfl⟩ := hi
    have hzb := hp.bounds hz
    obtain ⟨c, hcp, hcs⟩ := hc (by omega)
    rw [AustereHeap.bigSearch, hp.isFree_start hz, hp.withoutFree_start hz] at hnone
    split at hnone
    · exact nomatch hnone
    · next hnot =>
      intro x hx hbetween hfit
      -- where the search is next
      obtain ⟨y, hy, hyz⟩ := hp.tiles.next_mod hz
      have hwrap : z.start + z.size = h.nrHeapPages ∧ (z.start + z.size) % h.nrHeapPages = 0 ∨
          z.start + z.size < h.nrHeapPages ∧
            (z.start + z.size) % h.nrHeapPages = z.start + z.size := by
        rcases hzb.2.1.eq_or_lt with heq | hlt
        · exact .inl ⟨heq, by rw [heq, Nat.mod_self]⟩
        · exact .inr ⟨hlt, Nat.mod_eq_of_lt hlt⟩
      rcases hp.tiles.apart hz hx with rfl | hxz
      · exact hnot ⟨hfit.2, hfit.1⟩
      have hzc := hp.tiles.apart hz hcp
      have hxb := hp.bounds hx
      have hcb := hp.bounds hcp
      unfold Between at hbetween
      unfold Block.stop at hxz hzc
      split at hnone
      · next hend =>
        rw [← hcs] at hend hbetween
        have hzc' : z.start = c.start ∨ z.start + z.size ≤ c.start ∨ c.start + c.size ≤ z.start :=
          hzc.imp_left (congrArg Block.start)
        omega
      · next hend =>
        refine ih ⟨y, hy, hyz⟩ hnone x hx ?_ hfit
        rw [← hcs] at hend hbetween ⊢
        have hzc' : z.start = c.start ∨ z.start + z.size ≤ c.start ∨ c.start + c.size ≤ z.start :=
          hzc.imp_left (congrArg Block.start)
        unfold Between
        unfold Block.stop
        omega

/-- The search from the cursor either finds a run that fits, or there is none. -/
theorem searchFromCursor_cases (hp : PagesOk h pages) (hc : CursorOk h pages)
    (hpos : 0 < h.nrHeapPages) {r : Option Nat} (hr : h.searchFromCursor nPages = some r) :
    (∃ x ∈ pages, r = some x.start ∧ Fits nPages x) ∨ r = none ∧ ∀ x ∈ pages, ¬ Fits nPages x := by
  obtain ⟨c, hcp, hcs⟩ := hc hpos
  have hlt : h.bigHeapCursor < h.nrHeapPages := by
    have hb := hp.bounds hcp
    omega
  rw [AustereHeap.searchFromCursor, Nat.mod_eq_of_lt hlt] at hr
  cases r with
  | some j =>
    obtain ⟨x, hx, rfl, hfit⟩ := bigSearch_fits hp hp.tiles (fun x hx => ⟨x, hx, rfl⟩)
      (fun z hz => .inl ⟨z, hz, rfl⟩) ⟨c, hcp, hcs⟩ hr
    exact .inl ⟨x, hx, rfl, hfit⟩
  | none =>
    refine .inr ⟨rfl, fun x hx => bigSearch_exhausted hp hc ⟨c, hcp, hcs⟩ hr x hx ?_⟩
    exact .inr ⟨le_rfl, (Nat.lt_or_ge ..).symm⟩

/-! ## Compaction -/

def AustereHeap.withSizes (h : AustereHeap) (sizes : Nat → Nat) : AustereHeap :=
  { h with heapBlockSizes := sizes }

/-- What `CompactBigHeap` makes of the runs `old`. -/
structure Compacted (h : AustereHeap) (old pages : List Block) : Prop where
  ok : PagesOk h pages
  used : ∀ x, x.free = false → (x ∈ pages ↔ x ∈ old)
  starts : ∀ x ∈ pages, ∃ z ∈ old, z.start = x.start
  stale : ∀ z ∈ old, (∃ x ∈ pages, x.start = z.start) ∨
    z.free = true ∧ h.heapBlockSizes z.start = tag z

theorem PagesOk.compacted (hp : PagesOk h pages) : Compacted h pages pages where
  ok := hp
  used _ _ := Iff.rfl
  starts x hx := ⟨x, hx, rfl⟩
  stale z hz := .inl ⟨z, hz, rfl⟩

/-- Two free runs that follow each other become one, the second as it was at first. -/
theorem Compacted.merge (hc : Compacted h old pages) (hold : PagesOk h' old) (hx : x ∈ pages)
    (hy : y ∈ pages) (hxy : y.start = x.stop) (hxf : x.free = true) (hyf : y.free = true)
    (hyo : y ∈ old) :
    ∃ pages', Compacted (h.withSizes (Function.update h.heapBlockSizes x.start
        (addUlong x.size (tag y)))) old pages' ∧
      ∀ z, z ∈ pages' ↔ z = ⟨x.start, x.size + y.size, true⟩ ∨ z ∈ pages ∧ z ≠ x ∧ z ≠ y := by
  have hyb := hc.ok.bounds hy
  have hxb := hc.ok.bounds hx
  obtain ⟨pages', htiles, hr⟩ := hc.ok.tiles.replace_two hx hy hxy (tiles_join true hxb.1 hxy)
  have hmem : ∀ z, z ∈ pages' ↔ z = ⟨x.start, x.size + y.size, true⟩ ∨ z ∈ pages ∧ z ≠ x ∧ z ≠ y := by
    intro z
    rw [hr.mem, List.mem_singleton, List.mem_pair, not_or]
  have hmerged : (⟨x.start, x.size + y.size, true⟩ : Block) ∈ pages' := (hmem _).mpr (.inl rfl)
  refine ⟨pages', { ok := ⟨hc.ok.few, htiles, ?_⟩, used := ?_, starts := ?_, stale := ?_ }, hmem⟩
  · intro z hz
    rcases (hmem z).mp hz with rfl | ⟨hz, hzx, -⟩
    · have hsum : addUlong x.size (tag y) = x.size + y.size + freeChunk := by
        rw [addUlong, tag_of_free hyf, freeChunk]
        omega
      rw [hsum, tag_of_free rfl]
      exact Function.update_self ..
    · refine (Function.update_of_ne (fun heq => hzx ?_) ..).trans (hc.ok.tags z hz)
      exact hc.ok.tiles.eq_of_start hz hx heq
  · intro z hzf
    rw [hmem, ← hc.used z hzf]
    constructor
    · rintro (rfl | ⟨hz, -⟩)
      · exact nomatch hzf
      · exact hz
    · intro hz
      refine .inr ⟨hz, ?_, ?_⟩ <;> rintro rfl
      · exact Bool.noConfusion (hxf.symm.trans hzf)
      · exact Bool.noConfusion (hyf.symm.trans hzf)
  · intro z hz
    rcases (hmem z).mp hz with rfl | ⟨hz, -⟩
    · exact hc.starts x hx
    · exact hc.starts z hz
  · intro z hz
    by_cases hzx : z.start = x.start
    · exact .inl ⟨_, hmerged, hzx.symm⟩
    · -- Entry `z` is not written.
      have hsame : Function.update h.heapBlockSizes x.start (addUlong x.size (tag y)) z.start =
          h.heapBlockSizes z.start := Function.update_of_ne hzx ..
      rcases hc.stale z hz with ⟨w, hw, hwz⟩ | ⟨hzf, htag⟩
      · by_cases hwy : w = y
        · have hzy : z = y := hold.tiles.eq_of_start hz hyo (hwz.symm.trans (congrArg Block.start hwy))
          exact .inr ⟨hzy ▸ hyf, hsame.trans (hzy ▸ hc.ok.tags y hy)⟩
        · refine .inl ⟨w, (hmem w).mpr (.inr ⟨hw, ?_, hwy⟩), hwz⟩
          rintro rfl
          exact hzx hwz.symm
      · exact .inr ⟨hzf, hsame.trans htag⟩

/-- **The loop of `CompactBigHeap`** ends.  Behind run `i` nothing has changed yet, and up to it no free
run follows another one. -/
theorem compactFrom_spec (hold : PagesOk h' old) (fuel i : Nat) {sizes : Nat → Nat} (ret : Bool)
    (hc : Compacted (h.withSizes sizes) old pages)
    (hi : i = h.nrHeapPages ∧ 0 < fuel ∨ ∃ x ∈ pages, x.start = i ∧ h.nrHeapPages + 2 ≤ fuel + x.stop)
    (hrest : ∀ y ∈ pages, i < y.start → y ∈ old)
    (hmerged : ∀ x ∈ pages, ∀ y ∈ pages, x.free = true → y.free = true → y.start = x.stop → i < y.start) :
    ∃ ret' sizes' pages',
      AustereHeap.compactFrom h.nrHeapPages fuel sizes i ret = some (ret', sizes') ∧
      Compacted (h.withSizes sizes') old pages' ∧ Merged pages' ∧
      (ret' = false → ret = false ∧ sizes' = sizes ∧ pages' = pages) := by
  induction fuel generalizing sizes i ret pages with
  | zero =>
    rcases hi with ⟨-, hpos⟩ | ⟨x, hx, -, hfuel⟩
    · exact absurd hpos (Nat.lt_irrefl 0)
    · have hxb : x.stop ≤ h.nrHeapPages := (hc.ok.bounds hx).2.1
      omega
  | succ fuel ih =>
    rw [AustereHeap.compactFrom]
    rcases hi with ⟨rfl, -⟩ | ⟨x, hx, rfl, hfuel⟩
    · -- the end of the heap
      rw [if_neg (Nat.lt_irrefl _)]
      refine ⟨ret, sizes, pages, rfl, hc, fun x hx y hy hxf hyf heq => ?_, fun hret => ⟨hret, rfl, rfl⟩⟩
      have hyb : 0 < y.size ∧ y.start + y.size ≤ h.nrHeapPages ∧ _ := hc.ok.bounds hy
      have hlt := hmerged x hx y hy hxf hyf heq
      omega
    · have hxb : 0 < x.size ∧ x.start + x.size ≤ h.nrHeapPages ∧ _ := hc.ok.bounds hx
      have hxfree : isFree (sizes x.start) = x.free := hc.ok.isFree_start hx
      have hxsize : withoutFree (sizes x.start) = x.size := hc.ok.withoutFree_start hx
      have hnext : x.start + x.size = h.nrHeapPages ∨ ∃ y ∈ pages, y.start = x.start + x.size :=
        hc.ok.tiles.next hx
      have hstop : x.stop = x.start + x.size := rfl
      rw [if_pos (by omega), hxfree, hxsize]
      split
      · next hcond =>
        -- two free runs
        obtain ⟨hxf, hin, hyf⟩ := hcond
        obtain ⟨y, hy, hyx⟩ := hnext.resolve_left hin.ne
        have hyb := hc.ok.bounds hy
        have hyo : y ∈ old := hrest y hy (by omega)
        have hytag : sizes y.start = tag y := hc.ok.tags y hy
        rw [← hyx, hytag, isFree_tag (hc.ok.size_lt hy)] at hyf
        rw [← hyx, hytag]
        obtain ⟨pages', hc', hmem⟩ := hc.merge hold hx hy hyx hxf hyf hyo
        obtain ⟨ret', sizes', pages'', hr, hc'', hm, hret⟩ := ih x.start true hc'
          (.inr ⟨_, (hmem _).mpr (.inl rfl), rfl, by unfold Block.stop at hfuel ⊢; dsimp only; omega⟩)
          (fun z hz hlt => by
            rcases (hmem z).mp hz with rfl | ⟨hz, -⟩
            · exact absurd hlt (Nat.lt_irrefl _)
            · exact hrest z hz hlt)
          (fun u hu v hv huf hvf huv => by
            rcases (hmem v).mp hv with rfl | ⟨hv, hvx, hvy⟩
            · -- in front of `x` there was no free run
              rcases (hmem u).mp hu with rfl | ⟨hu, -⟩
              · unfold Block.stop at huv
                dsimp only at huv
                omega
              · exact hmerged u hu x hx huf hxf huv
            · rcases (hmem u).mp hu with rfl | ⟨hu, -⟩
              · change v.start = x.start + (x.size + y.size) at huv
                omega
              · exact hmerged u hu v hv huf hvf huv)
        exact ⟨ret', sizes', pages'', hr, hc'', hm, fun hfalse => absurd (hret hfalse).1.symm Bool.false_ne_true⟩
      · next hcond =>
        refine ih (x.start + x.size) ret hc ?_ (fun y hy hlt => hrest y hy (by omega)) fun u hu v hv huf hvf huv => ?_
        · rcases hnext with hend | ⟨y, hy, hyx⟩
          · exact .inl ⟨hend, by omega⟩
          · have hyb := hc.ok.bounds hy
            exact .inr ⟨y, hy, hyx, by unfold Block.stop at hfuel ⊢; omega⟩
        · have hlt := hmerged u hu v hv huf hvf huv
          have hvb : 0 < v.size ∧ v.start + v.size ≤ h.nrHeapPages ∧ _ := hc.ok.bounds hv
          rcases hc.ok.tiles.apart hx hv with rfl | hxv | hvx
          · exact absurd hlt (Nat.lt_irrefl _)
          · refine Nat.lt_of_le_of_ne hxv fun heq => hcond ?_
            -- `v` follows `x`
            have hux : u = x := by
              have hub := hc.ok.bounds hu
              refine hc.ok.tiles.eq_of_mem (p := u.stop - 1) hu hx ?_ ?_ ?_ ?_ <;> unfold Block.stop at * <;> omega
            refine ⟨hux ▸ huf, by omega, ?_⟩
            have hvfree : isFree (sizes v.start) = v.free := hc.ok.isFree_start hv
            change isFree (sizes (x.start + x.size)) = true
            rw [heq, hvfree, hvf]
          · unfold Block.stop at hvx
            omega

/-- **`CompactBigHeap`** merges the free runs that follow each other, and says whether there were any. -/
theorem compactBigHeap_spec (hp : PagesOk h pages) : ∃ ret h' pages', h.compactBigHeap = some (ret, h') ∧
    h'.bigHeapCursor = h.bigHeapCursor ∧ OnlyPages h h' ∧ Compacted h' pages pages' ∧ Merged pages' ∧
    (ret = false → h' = h ∧ pages' = pages) := by
  obtain ⟨ret, sizes, pages', hr, hc, hm, hret⟩ := compactFrom_spec hp (h.nrHeapPages + 2) 0 false
    hp.compacted
    ((Nat.eq_zero_or_pos h.nrHeapPages).imp (fun hz => ⟨hz.symm, Nat.succ_pos _⟩) fun hpos => by
      obtain ⟨x, hx, hx0⟩ := hp.tiles.exists_first hpos
      exact ⟨x, hx, hx0, Nat.le_add_right _ _⟩)
    (fun y hy _ => hy) fun x hx y _ _ _ heq => by
      have hxb := hp.bounds hx
      unfold Block.stop at heq
      omega
  have hr' : AustereHeap.compactFrom h.nrHeapPages (h.nrHeapPages + 2) h.heapBlockSizes 0 false =
    some (ret, sizes) := hr
  refine ⟨ret, h.withSizes sizes, pages', by rw [AustereHeap.compactBigHeap, hr']; rfl, rfl,
    ⟨sizes, h.bigHeapCursor, rfl⟩, hc, hm, fun hfalse => ?_⟩
  obtain ⟨-, hsizes, hpages⟩ := hret hfalse
  exact ⟨by rw [hsizes]; rfl, hpages⟩

theorem compactBigHeap_compacted (hp : PagesOk h pages) {ret : Bool}
    (heq : h.compactBigHeap = some (ret, h')) :
    h'.bigHeapCursor = h.bigHeapCursor ∧ OnlyPages h h' ∧ ∃ pages', Compacted h' pages pages' := by
  obtain ⟨ret', u, pages', hu, hcursor, honly, hc, -⟩ := compactBigHeap_spec hp
  obtain ⟨-, rfl⟩ := Prod.mk.inj (Option.some.inj (hu.symm.trans heq))
  exact ⟨hcursor, honly, pages', hc⟩

/-! ## Taking and giving back -/

/-- Run `x` has been taken. -/
structure Taken (h : AustereHeap) (pages : List Block) (h' : AustereHeap) (pages' : List Block)
    (x : Block) : Prop where
  only : OnlyPages h h'
  ok : PagesOk h' pages'
  cursor : CursorOk h' pages'
  takes : Takes pages pages' x

/-- The entries of the runs are written that are put for `x`. -/
theorem PagesOk.replaced {m pages' : List Block} {sizes : Nat → Nat} (hp : PagesOk h pages)
    (hx : x ∈ pages) (htiles : Tiles 0 pages' h.nrHeapPages) (hr : Replaces pages [x] m pages')
    (htags : ∀ y ∈ m, sizes y.start = tag y)
    (hkeep : ∀ p, p < x.start ∨ x.stop ≤ p → sizes p = h.heapBlockSizes p) (cursor : Nat) :
    PagesOk { h with heapBlockSizes := sizes, bigHeapCursor := cursor } pages' := by
  refine ⟨hp.few, htiles, fun y hy => ?_⟩
  rcases (hr.mem y).mp hy with hy | ⟨hy, hyx⟩
  · exact htags y hy
  · refine (hkeep y.start ?_).trans (hp.tags y hy)
    have hyb := hp.bounds hy
    rcases hp.tiles.apart hy hx with heq | hlt | hlt
    · exact absurd (List.mem_singleton.mpr heq) hyx
    · unfold Block.stop at hlt
      omega
    · exact .inr hlt

/-- What `BigAllocation` does with a run that fits. -/
theorem takePages_taken (hp : PagesOk h pages) (hx : x ∈ pages) (hfit : Fits nPages x)
    (hpos : 0 < nPages) {res : Nat} (heq : h.takePages nPages x.start = some (res, h')) :
    res = h.page x.start ∧ ∃ pages', Taken h pages h' pages' ⟨x.start, nPages, false⟩ := by
  obtain ⟨hxf, hle⟩ := hfit
  have hxb := hp.bounds hx
  have hsmall : nPages < freeChunk := hle.trans_lt (hp.size_lt hx)
  rw [AustereHeap.takePages, hp.tags x hx, tag_of_free hxf, withFree_of_lt hsmall] at heq
  split at heq
  · next hall =>
    -- all of it
    obtain rfl : x.size = nPages := Nat.add_right_cancel hall
    cases heq
    obtain ⟨pages', htiles, hr, htakes⟩ := hp.tiles.take_all hx hxf
    have hnext := htiles.next_mod htakes.mem
    refine ⟨rfl, pages', ⟨_, _, rfl⟩, hp.replaced hx htiles hr ?_ ?_ _, fun _ => hnext, htakes⟩
    · intro y hy
      rw [List.mem_singleton.mp hy]
      exact Function.update_self ..
    · intro p hp
      unfold Block.stop at hp
      exact Function.update_of_ne (by omega) ..
  · split at heq
    · next hcond =>
      have hlt : nPages < x.size := by
        have hlt := hcond.2.1
        omega
      have hsub : subUlong (x.size + freeChunk) nPages = x.size - nPages + freeChunk := by
        unfold subUlong freeChunk
        omega
      have hin : x.start + nPages ≠ austereHeapPages := by
        unfold austereHeapPages
        omega
      rw [if_pos hin, hsub] at heq
      dsimp only at heq
      split at heq
      · cases heq
        obtain ⟨pages', htiles, hr, htakes⟩ := hp.tiles.take_part hx hxf hpos hlt
        have hnext := htiles.next_mod htakes.mem
        refine ⟨rfl, pages', ⟨_, _, rfl⟩, hp.replaced hx htiles hr ?_ ?_ _, fun _ => hnext, htakes⟩
        · intro y hy
          rcases List.mem_pair.mp hy with rfl | rfl
          · exact Function.update_self ..
          · refine (Function.update_of_ne ?_ ..).trans (Function.update_self ..)
            exact (Nat.lt_add_of_pos_right hpos).ne'
        · intro p hp
          unfold Block.stop at hp
          exact (Function.update_of_ne (by omega) ..).trans (Function.update_of_ne (by omega) ..)
      · exact nomatch heq
    · exact nomatch heq

/-- A run taken from the compacted heap was not there before, and the used ones are the same. -/
theorem Taken.of_compacted {u : AustereHeap} {pages' : List Block} (ht : Taken u pages h' pages' x)
    (hc : Compacted u old pages) (honly : OnlyPages h u) : Taken h old h' pages' x where
  only := honly.trans ht.only
  ok := ht.ok
  cursor := ht.cursor
  takes :=
    { mem := ht.takes.mem
      isUsed := ht.takes.isUsed
      new := fun hx => ht.takes.new ((hc.used x ht.takes.isUsed).mpr hx)
      others := fun y hy => by rw [ht.takes.others y hy, hc.used y hy] }

theorem AustereHeap.pagesFor_eq {n : Nat} (hn : n + 4095 < 4294967296) : pagesFor n = (n + 4095) / 4096 := by
  have hmod : (n + 4095) % 4294967296 = n + 4095 := Nat.mod_eq_of_lt hn
  exact congrArg (· / 4096) hmod

/-- A size that cannot be rounded up is taken for no pages. -/
theorem AustereHeap.pagesFor_wraps {n : Nat} (hn : 4294967296 ≤ n + 4095) (hlt : n < 4294967296) :
    pagesFor n = 0 := by
  have hmod : (n + 4095) % 4294967296 = n - 4294963201 := by omega
  have hdiv : (n - 4294963201) / 4096 = 0 := Nat.div_eq_of_lt (by omega)
  exact (congrArg (· / 4096) hmod).trans hdiv

/-- **A new heap** is free, and its cursor at the front. -/
theorem xmInitMemory_pages {heap nrPages : Nat} {mem : Nat → Nat}
    (hinit : AustereHeap.xmInitMemory heap nrPages mem = some h) :
    h.bigHeapStart = heap ∧ h.headSubheap = 0 ∧
      ∃ pages, PagesOk h pages ∧ CursorOk h pages ∧ ∀ x ∈ pages, x.free = true := by
  unfold AustereHeap.xmInitMemory at hinit
  by_cases hfew : austereHeapPages < nrPages
  · rw [if_pos hfew] at hinit
    cases hinit
  rw [if_neg hfew] at hinit
  cases hinit
  have hle : nrPages ≤ austereHeapPages := Nat.le_of_not_lt hfew
  have hsmall : nrPages < freeChunk := hle.trans_lt (by decide)
  refine ⟨rfl, rfl, ?_⟩
  rcases Nat.eq_zero_or_pos nrPages with rfl | hnr
  · exact ⟨[], ⟨hle, rfl, by simp⟩, fun hlt => absurd hlt (Nat.lt_irrefl 0), by simp⟩
  · refine ⟨[⟨0, nrPages, true⟩], ⟨hle, ⟨rfl, hnr, Nat.zero_add _⟩, fun x hx => ?_⟩,
      fun _ => ⟨_, List.mem_cons_self, rfl⟩, by simp⟩
    rw [List.mem_singleton.mp hx, tag_of_free rfl, ← withFree_of_lt hsmall]
    exact Function.update_self (0 : Nat) (withFree nrPages) fun _ => 0

/-- **`BigAllocation` takes a run that is long enough.** -/
theorem bigAllocation_taken (hp : PagesOk h pages) (hc : CursorOk h pages) {nBytes res : Nat}
    (hpos : 0 < nBytes) (hn : nBytes + 4095 < 4294967296)
    (heq : h.bigAllocation nBytes = some (res, h')) (hres : res ≠ 0) :
    ∃ pages' x, Taken h pages h' pages' x ∧ res = h.page x.start ∧ nBytes ≤ x.size * pageSize := by
  have hpages := AustereHeap.pagesFor_eq hn
  have hmany : 0 < AustereHeap.pagesFor nBytes ∧ nBytes ≤ AustereHeap.pagesFor nBytes * pageSize := by
    unfold pageSize
    omega
  rw [AustereHeap.bigAllocation] at heq
  split at heq
  · exact nomatch heq
  · next hnr =>
    split at heq
    · exact nomatch heq
    · next i hi =>
      -- found at once
      rcases searchFromCursor_cases hp hc (Nat.pos_of_ne_zero hnr) hi with ⟨x, hx, hxi, hfit⟩ | ⟨hi, -⟩
      · cases hxi
        obtain ⟨rfl, pages', ht⟩ := takePages_taken hp hx hfit hmany.1 heq
        exact ⟨pages', _, ht, rfl, hmany.2⟩
      · exact nomatch hi
    · next hnone =>
      have hnofit := (searchFromCursor_cases hp hc (Nat.pos_of_ne_zero hnr) hnone).resolve_left
        fun ⟨_, _, hx, _⟩ => nomatch hx
      split at heq
      · split at heq
        · exact nomatch heq
        · cases heq
          exact absurd rfl hres
        · next u hu =>
          -- found after compaction
          obtain ⟨hcur, honly, pages', hcompact⟩ := compactBigHeap_compacted hp hu
          have hnr' : u.nrHeapPages = h.nrHeapPages := by
            obtain ⟨sizes, cursor, rfl⟩ := honly
            rfl
          split at heq
          · exact nomatch heq
          · next i hi =>
            obtain ⟨c, hcp, hcs⟩ := hc (Nat.pos_of_ne_zero hnr)
            have hcb := hp.bounds hcp
            rw [AustereHeap.searchFromCursor, hcur, hnr', ← hcs, Nat.mod_eq_of_lt (by omega)] at hi
            have hstale : Stale u pages' pages (AustereHeap.pagesFor nBytes) := by
              intro z hz
              refine (hcompact.stale z hz).imp_right fun ⟨_, htag⟩ => ?_
              exact ⟨htag, hp.size_lt hz, hnofit.2 z hz⟩
            obtain ⟨x, hx, rfl, hfit⟩ := bigSearch_fits hcompact.ok (hnr' ▸ hp.tiles)
              hcompact.starts hstale ⟨c, hcp, rfl⟩ hi
            obtain ⟨rfl, pages'', ht⟩ := takePages_taken hcompact.ok hx hfit hmany.1 heq
            refine ⟨pages'', _, ht.of_compacted hcompact honly, ?_, hmany.2⟩
            obtain ⟨sizes, cursor, rfl⟩ := honly
            rfl
          · cases heq
            exact absurd rfl hres
      · cases heq
        exact absurd rfl hres

theorem AustereHeap.startNr_page (h : AustereHeap) (i : Nat) : h.startNr (h.page i) = i := by
  have hdiff : ((h.page i : Nat) : Int) - h.bigHeapStart = i * (pageSize : Int) := by
    unfold AustereHeap.page
    omega
  rw [AustereHeap.startNr, hdiff]
  exact Int.mul_tdiv_cancel _ (by decide)

/-- **`BigFreeMemory` gives back a run that is used.** -/
theorem bigFreeMemory_pages (hp : PagesOk h pages) (hx : x ∈ pages) (hused : x.free = false) :
    OnlyPages h (h.bigFreeMemory (h.page x.start)) ∧
      ∃ pages', PagesOk (h.bigFreeMemory (h.page x.start)) pages' ∧
        CursorOk (h.bigFreeMemory (h.page x.start)) pages' ∧
        ∀ y, y.free = false → (y ∈ pages' ↔ y ∈ pages ∧ y ≠ x) := by
  have hxb := hp.bounds hx
  have hin : ¬ ((x.start : Int) < 0 ∨ (h.nrHeapPages : Int) ≤ x.start) := by omega
  have hnot : ¬ isFree (h.heapBlockSizes x.start) = true := by
    rw [hp.isFree_start hx, hused]
    exact Bool.false_ne_true
  rw [AustereHeap.bigFreeMemory, h.startNr_page, if_neg hin, Int.toNat_natCast, if_neg hnot]
  obtain ⟨pages', htiles, hr, hgive⟩ := hp.tiles.give hx
  refine ⟨⟨_, _, rfl⟩, pages', hp.replaced hx htiles hr ?_ ?_ _, fun _ => ?_, hgive⟩
  · intro y hy
    rw [List.mem_singleton.mp hy, hp.tags x hx, tag_of_used hused, withFree_of_lt (hp.size_lt hx)]
    exact Function.update_self ..
  · intro p hp
    unfold Block.stop at hp
    exact Function.update_of_ne (by omega) ..
  · exact ⟨_, (hr.mem _).mpr (.inl List.mem_cons_self), rfl⟩

end V4v.Xenutil
