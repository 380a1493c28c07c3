import LegacyV4v.AusterePages

/-! # Whether the big allocator comes back

`BigAllocation` searches in a circle, from the cursor until it is back there.  If nothing is long enough
it merges the free runs that follow each other, and searches again.  The cursor can then be inside of a
run.  The second search walks out of that run over entries that are left over, and from then on goes from
run to run: it finds what is long enough, but it does not come back to the cursor, so that it has no end
if nothing is. -/
namespace V4v.Xenutil
open BlockTiling GuardedRun

namespace AustereHeap

/-- A run of pages starts here. -/
inductive RunAt (h : AustereHeap) : Nat → Prop
  | first : 0 < h.nrHeapPages → RunAt h 0
  | next {i : Nat} : RunAt h i → i + withoutFree (h.heapBlockSizes i) < h.nrHeapPages →
      RunAt h (i + withoutFree (h.heapBlockSizes i))

/-- A page is free. -/
def PageFree (h : AustereHeap) (p : Nat) : Prop :=
  ∃ i, h.RunAt i ∧ isFree (h.heapBlockSizes i) = true ∧ i ≤ p ∧ p < i + withoutFree (h.heapBlockSizes i)

/-- There are `n` free pages in a row, in one run or in some that follow each other. -/
def FreePages (h : AustereHeap) (n : Nat) : Prop :=
  ∃ a, ∀ p, a ≤ p → p < a + n → h.PageFree p

/-- The number of pages that so many bytes need. -/
def pagesOf (nBytes : Nat) : Nat := (nBytes + (pageSize - 1)) / pageSize

/-- **`BigAllocation` comes back**, with `NULL` only if there are not as many free pages in a row, and
otherwise with that many pages which were free. -/
def Serves (h : AustereHeap) (nBytes : Nat) : Prop :=
  ∃ res h', h.bigAllocation nBytes = some (res, h') ∧
    (res = 0 → 0 < pagesOf nBytes → ¬ h.FreePages (pagesOf nBytes)) ∧
    (res ≠ 0 → ∃ i, res = h.page i ∧ ∀ p, i ≤ p → p < i + pagesOf nBytes → h.PageFree p)

/-- The page at the cursor and the one in front of it are free, and there are not enough in a row. -/
def Wedges (h : AustereHeap) (nBytes : Nat) : Prop :=
  1 < pagesOf nBytes ∧ ¬ h.FreePages (pagesOf nBytes) ∧ 0 < h.bigHeapCursor ∧
    h.PageFree h.bigHeapCursor ∧ h.PageFree (h.bigHeapCursor - 1)

/-- The size cannot be rounded up to whole pages. -/
def Wraps (nBytes : Nat) : Prop := 4294967296 ≤ nBytes + (pageSize - 1)

instance (nBytes : Nat) : Decidable (Wraps nBytes) := inferInstanceAs (Decidable (_ ≤ _))

end AustereHeap

variable {h h' u : AustereHeap} {pages old : List Block} {x y z m : Block} {nPages nBytes p i d t : Nat}

/-! ## What is free -/

/-- The runs are those of the tiling. -/
theorem PagesOk.runAt_iff (hp : PagesOk h pages) : h.RunAt i ↔ ∃ x ∈ pages, x.start = i := by
  constructor
  · intro hi
    induction hi with
    | first hpos => exact hp.tiles.exists_first hpos
    | next _ hlt ih =>
      obtain ⟨x, hx, rfl⟩ := ih
      rw [hp.withoutFree_start hx] at hlt ⊢
      exact (hp.tiles.next hx).resolve_left (Nat.ne_of_lt hlt)
  · rintro ⟨x, hx, rfl⟩
    induction hn : x.start using Nat.strong_induction_on generalizing x with
    | _ n ih =>
      have hxb := hp.bounds hx
      rcases hp.tiles.prev hx with hzero | ⟨y, hy, hyx⟩
      · rw [← hn, hzero]
        exact .first (by omega)
      · have hyb := hp.bounds hy
        unfold Block.stop at hyx
        have hrun := ih y.start (by omega) y hy rfl
        have hsize := hp.withoutFree_start hy
        rw [← hn, ← hyx, ← hsize]
        exact .next hrun (by rw [hsize]; omega)

theorem PagesOk.pageFree_iff (hp : PagesOk h pages) : h.PageFree p ↔ FreeAt pages p := by
  constructor
  · rintro ⟨i, hi, hfree, hle, hlt⟩
    obtain ⟨x, hx, rfl⟩ := hp.runAt_iff.mp hi
    rw [hp.isFree_start hx] at hfree
    rw [hp.withoutFree_start hx] at hlt
    exact ⟨x, hx, hfree, hle, hlt⟩
  · rintro ⟨x, hx, hfree, hle, hlt⟩
    refine ⟨x.start, hp.runAt_iff.mpr ⟨x, hx, rfl⟩, ?_, hle, ?_⟩
    · rwa [hp.isFree_start hx]
    · rwa [hp.withoutFree_start hx]

theorem PagesOk.freePages_iff (hp : PagesOk h pages) : h.FreePages nPages ↔ FreeRun pages nPages :=
  exists_congr fun _ => forall_congr' fun _ => imp_congr_right fun _ => imp_congr_right fun _ =>
    hp.pageFree_iff

/-! ## The search ends -/

/-- From `i` it is `d` pages to `t`, round the heap; a run of `s` pages at `i` is on the way. -/
theorem circle_step {s nr : Nat} (hin : i + s ≤ nr) (hapart : t ≤ i ∨ i + s ≤ t)
    (hd : (i + d) % nr = t) (hpos : 0 < d) : s ≤ d ∧ ((i + s) % nr + (d - s)) % nr = t := by
  have hsd : s ≤ d := by
    by_cases hlt : i + d < nr
    · rw [Nat.mod_eq_of_lt hlt] at hd
      omega
    · omega
  refine ⟨hsd, ?_⟩
  rcases Nat.eq_or_lt_of_le hin with heq | hlt
  · have hround : i + d = nr + (d - s) := by omega
    rw [heq, Nat.mod_self, Nat.zero_add, ← hd, hround, Nat.add_mod_left]
  · rw [Nat.mod_eq_of_lt hlt, ← hd]
    congr 1
    omega

/-- **The search ends** where a run is on the way that fits or that the cursor is at. -/
theorem bigSearch_ends (hp : PagesOk h pages) (hold : Tiles 0 old h.nrHeapPages)
    (hsub : ∀ x ∈ pages, ∃ z ∈ old, z.start = x.start) (hstale : Stale h pages old nPages)
    (hx : x ∈ pages) (hstop : x.start = h.bigHeapCursor ∨ Fits nPages x) {fuel : Nat}
    (hi : ∃ z ∈ old, z.start = i) (hd : (i + d) % h.nrHeapPages = x.start) (hle : d ≤ h.nrHeapPages)
    (hpos : 0 < d ∨ Fits nPages x) (hfuel : d < fuel) : ∃ r, h.bigSearch nPages fuel i = some r := by
  induction fuel generalizing i d with
  | zero => exact absurd hfuel (Nat.not_lt_zero d)
  | succ fuel ih =>
    obtain ⟨z, hz, rfl⟩ := hi
    have hxb := hp.bounds hx
    have hzb := hold.bounds hz
    unfold Block.stop at hzb
    obtain ⟨z', hz', hzx⟩ := hsub x hx
    -- the entry at `z` is that of a run of `s` pages
    have hgo : ∀ {w : Block}, 0 < w.size → z.start + w.size ≤ h.nrHeapPages →
        x.start ≤ z.start ∨ z.start + w.size ≤ x.start →
        isFree (h.heapBlockSizes z.start) = w.free → withoutFree (h.heapBlockSizes z.start) = w.size →
        (∃ y ∈ old, y.start = (z.start + w.size) % h.nrHeapPages) →
        (d = 0 → Fits nPages w) → ∃ r, h.bigSearch nPages (fuel + 1) z.start = some r := by
      intro w hw hin hapart hfree hsize hnext hhere
      rw [AustereHeap.bigSearch, hfree, hsize]
      by_cases hfit : nPages ≤ w.size ∧ w.free = true
      · rw [if_pos hfit]
        exact ⟨_, rfl⟩
      rw [if_neg hfit]
      by_cases hend : (z.start + w.size) % h.nrHeapPages = h.bigHeapCursor
      · rw [if_pos hend]
        exact ⟨_, rfl⟩
      rw [if_neg hend]
      have hdpos : 0 < d := by
        rcases Nat.eq_zero_or_pos d with hzero | hdpos
        · exact absurd ⟨(hhere hzero).2, (hhere hzero).1⟩ hfit
        · exact hdpos
      obtain ⟨hsd, hd'⟩ := circle_step hin hapart hd hdpos
      refine ih hnext hd' (by omega) ?_ (by omega)
      rcases Nat.eq_zero_or_pos (d - w.size) with hzero | hpos'
      · rw [hzero, Nat.add_zero, Nat.mod_mod] at hd'
        exact .inr (hstop.resolve_left fun hcur => hend (hd'.trans hcur))
      · exact .inl hpos'
    have hhere : d = 0 → x.start = z.start := by
      rintro rfl
      rw [Nat.add_zero, Nat.mod_eq_of_lt (by omega)] at hd
      exact hd.symm
    by_cases hlive : ∃ w ∈ pages, w.start = z.start
    · obtain ⟨w, hw, hwz⟩ := hlive
      have hwb := hp.bounds hw
      have hnext : ∃ y ∈ old, y.start = (z.start + w.size) % h.nrHeapPages := by
        obtain ⟨y, hy, hyw⟩ := hp.tiles.next_mod hw
        obtain ⟨y', hy', hyy⟩ := hsub y hy
        exact ⟨y', hy', hyy.trans (hyw.trans (by rw [Block.stop, hwz]))⟩
      refine hgo hwb.1 (by omega) ?_ (hwz ▸ hp.isFree_start hw) (hwz ▸ hp.withoutFree_start hw) hnext
        fun hzero => ?_
      · rcases hp.tiles.apart hw hx with rfl | hlt | hlt
        · exact .inl (Nat.le_of_eq hwz)
        · exact .inr (hwz ▸ hlt)
        · exact .inl (Nat.le_trans (Nat.le_add_right _ _) (hwz ▸ hlt))
      · obtain rfl := hp.tiles.eq_of_start hw hx (hwz.trans (hhere hzero).symm)
        exact hpos.resolve_left (by omega)
    · obtain ⟨htag, hlt, -⟩ := (hstale z hz).resolve_left hlive
      refine hgo hzb.2.1 hzb.2.2 ?_ (by rw [htag, isFree_tag hlt]) (by rw [htag, withoutFree_tag hlt])
        (hold.next_mod hz) fun hzero => absurd ⟨x, hx, hhere hzero⟩ hlive
      rcases hold.apart hz hz' with rfl | hlt | hlt
      · exact absurd ⟨x, hx, hzx.symm⟩ hlive
      · exact .inr (hzx ▸ hlt)
      · exact .inl (hzx ▸ Nat.le_trans (Nat.le_add_right z'.start z'.size) hlt)

/-- The run behind a cursor that is inside of run `m`: it is where a run starts, or in `m`, at or behind
the cursor. -/
def Past (h : AustereHeap) (pages old : List Block) (m : Block) (i : Nat) : Prop :=
  (∃ x ∈ pages, x.start = i) ∨ h.bigHeapCursor ≤ i ∧ i < m.stop ∧ ∃ z ∈ old, z.start = i

/-- **From inside of a run** the search does not come back to the cursor. -/
theorem bigSearch_ne_none (hp : PagesOk h pages) (hold : Tiles 0 old h.nrHeapPages)
    (hsub : ∀ x ∈ pages, ∃ z ∈ old, z.start = x.start) (hstale : Stale h pages old nPages)
    (hm : m ∈ pages) (hcm : m.start < h.bigHeapCursor ∧ h.bigHeapCursor < m.stop) {fuel : Nat}
    (hi : Past h pages old m i) : h.bigSearch nPages fuel i ≠ some none := by
  have hinside : ∀ x ∈ pages, ¬ (m.start < x.start ∧ x.start < m.stop) := by
    intro x hx hin
    have hxb := hp.bounds hx
    have hmx := hp.tiles.eq_of_mem hx hm (Nat.le_refl x.start) (by unfold Block.stop; omega)
      (Nat.le_of_lt hin.1) hin.2
    exact Nat.lt_irrefl _ (hmx ▸ hin.1)
  have hcursor : ∀ x ∈ pages, x.start ≠ h.bigHeapCursor := fun x hx heq => hinside x hx (heq ▸ hcm)
  have hmb := hp.bounds hm
  induction fuel generalizing i with
  | zero => exact (Option.some_ne_none _).symm
  | succ fuel ih =>
    rw [AustereHeap.bigSearch]
    split
    · exact fun heq => Option.some_ne_none _ (Option.some.inj heq)
    by_cases hlive : ∃ x ∈ pages, x.start = i
    · -- at a run
      obtain ⟨x, hx, rfl⟩ := hlive
      rw [hp.withoutFree_start hx]
      obtain ⟨y, hy, hyx⟩ := hp.tiles.next_mod hx
      change y.start = (x.start + x.size) % h.nrHeapPages at hyx
      rw [← hyx, if_neg (hcursor y hy)]
      exact ih (.inl ⟨y, hy, rfl⟩)
    · -- at an entry that is left over
      obtain ⟨hci, him, z, hz, rfl⟩ := hi.resolve_left hlive
      obtain ⟨htag, hlt, -⟩ := (hstale z hz).resolve_left hlive
      rw [htag, withoutFree_tag hlt]
      have hzb := hold.bounds hz
      have hstop : z.stop ≤ m.stop := by
        rcases hp.tiles.next hm with hend | ⟨y, hy, hym⟩
        · exact hend ▸ hzb.2.2
        · obtain ⟨w, hw, hwy⟩ := hsub y hy
          rcases hold.apart hz hw with rfl | hle | hle
          · exact absurd (hwy.trans hym) (Nat.ne_of_lt him)
          · exact hym ▸ hwy ▸ hle
          · have hwb := hold.bounds hw
            unfold Block.stop at hle him hym hwb
            omega
      rcases Nat.eq_or_lt_of_le hstop with heq | hless
      · obtain ⟨y, hy, hym⟩ := hp.tiles.next_mod hm
        rw [← heq] at hym
        change y.start = (z.start + z.size) % h.nrHeapPages at hym
        rw [← hym, if_neg (hcursor y hy)]
        exact ih (.inl ⟨y, hy, rfl⟩)
      · obtain ⟨w, hw, hwz⟩ := (hold.next hz).resolve_left (by unfold Block.stop at hless ⊢; omega)
        unfold Block.stop at hless hwz hzb
        rw [Nat.mod_eq_of_lt (by omega), if_neg (by omega)]
        exact ih (.inr ⟨by omega, hless, w, hw, hwz⟩)

/-! ## What the allocator does -/

/-- A run that fits is taken. -/
theorem takePages_eq_some (hp : PagesOk h pages) (hx : x ∈ pages) (hfit : Fits nPages x) :
    ∃ h', h.takePages nPages x.start = some (h.page x.start, h') := by
  obtain ⟨hxf, hle⟩ := hfit
  have hxb := hp.bounds hx
  have hsmall : nPages < freeChunk := hle.trans_lt (hp.size_lt hx)
  rw [AustereHeap.takePages, hp.tags x hx, tag_of_free hxf, withFree_of_lt hsmall]
  split
  · exact ⟨_, rfl⟩
  · next hpart =>
    have hlt : nPages < x.size := Nat.lt_of_le_of_ne hle fun heq => hpart (by rw [heq])
    have hsub : subUlong (x.size + freeChunk) nPages = x.size - nPages + freeChunk := by
      unfold subUlong freeChunk
      omega
    have hfree : isFree (x.size - nPages + freeChunk) = true := decide_eq_true (Nat.le_add_left _ _)
    have hin : x.start + nPages ≠ austereHeapPages := by
      unfold austereHeapPages
      omega
    have hroom : x.start + nPages ≤ austereHeapPages := by
      unfold austereHeapPages
      omega
    rw [if_pos ⟨decide_eq_true (Nat.le_add_left _ _), Nat.add_lt_add_right hlt _, hroom⟩, if_pos hin, hsub]
    dsimp only
    rw [Function.update_self, if_pos hfree]
    exact ⟨_, rfl⟩

/-- The cursor is at a run that no free run is in front of, if it is free. -/
theorem CursorOk.front (hc : CursorOk h pages) (hp : PagesOk h pages) (hm : Merged pages)
    (hpos : 0 < h.bigHeapCursor) (hfree : FreeAt pages h.bigHeapCursor) :
    ¬ FreeAt pages (h.bigHeapCursor - 1) := by
  rintro ⟨y, hy, hyf, hyp, hpy⟩
  obtain ⟨x, hx, hxf, hxp, hpx⟩ := hfree
  have hxb := hp.bounds hx
  obtain ⟨c, hcp, hcs⟩ := hc (by omega)
  have hcb := hp.bounds hcp
  obtain rfl := hp.tiles.eq_of_mem hcp hx (Nat.le_of_eq hcs) (by unfold Block.stop; omega) hxp hpx
  refine hm y hy c hcp hyf hxf ?_
  have hapart := hp.tiles.apart hy hcp
  unfold Block.stop at hpy hapart ⊢
  rcases hapart with rfl | hlt | hlt <;> omega

theorem OnlyPages.nr (ho : OnlyPages h h') : h'.nrHeapPages = h.nrHeapPages := by
  obtain ⟨sizes, cursor, rfl⟩ := ho
  rfl

theorem OnlyPages.page (ho : OnlyPages h h') (i : Nat) : h'.page i = h.page i := by
  obtain ⟨sizes, cursor, rfl⟩ := ho
  rfl

theorem PagesOk.stale_self (_ : PagesOk h pages) : Stale h pages pages nPages :=
  fun z hz => .inl ⟨z, hz, rfl⟩

/-- **From a run** the search ends, with one that fits if there is one. -/
theorem searchFromCursor_spec (hp : PagesOk h pages) (hc : CursorOk h pages) (hpos : 0 < h.nrHeapPages)
    (n : Nat) : (∃ x ∈ pages, h.searchFromCursor n = some (some x.start) ∧ Fits n x) ∨
      h.searchFromCursor n = some none ∧ ∀ x ∈ pages, ¬ Fits n x := by
  obtain ⟨c, hcp, hcs⟩ := hc hpos
  have hcb := hp.bounds hcp
  have hmod : h.bigHeapCursor % h.nrHeapPages = c.start := by
    rw [← hcs, Nat.mod_eq_of_lt (by omega)]
  obtain ⟨r, hr⟩ : ∃ r, h.searchFromCursor n = some r := by
    rw [AustereHeap.searchFromCursor, hmod]
    refine bigSearch_ends hp hp.tiles (fun x hx => ⟨x, hx, rfl⟩) hp.stale_self hcp (.inl hcs)
      (d := h.nrHeapPages) ⟨c, hcp, rfl⟩ ?_ (Nat.le_refl _) (.inl hpos) (Nat.lt_succ_self _)
    rw [Nat.add_mod_right, Nat.mod_eq_of_lt (by omega)]
  rcases searchFromCursor_cases hp hc hpos hr with ⟨x, hx, rfl, hfit⟩ | ⟨rfl, hno⟩
  · exact .inl ⟨x, hx, hr, hfit⟩
  · exact .inr ⟨hr, hno⟩

/-- The cursor is inside of a free run that was merged. -/
structure Inside (h : AustereHeap) (pages : List Block) (m : Block) : Prop where
  mem : m ∈ pages
  isFree : m.free = true
  lt : m.start < h.bigHeapCursor
  stop : h.bigHeapCursor < m.stop

/-- After the compaction, the cursor is at a run or inside of one. -/
theorem Compacted.cursor (hcomp : Compacted u old pages) (hold : PagesOk h old) (hc : CursorOk h old)
    (hpos : 0 < h.nrHeapPages) (ho : OnlyPages h u) (hcur : u.bigHeapCursor = h.bigHeapCursor) :
    CursorOk u pages ∨ ∃ m, Inside u pages m := by
  obtain ⟨z, hz, hzc⟩ := hc hpos
  have hzb := hold.bounds hz
  rcases hcomp.stale z hz with hlive | ⟨hzf, -⟩
  · exact .inl fun _ => by rwa [hcur, ← hzc]
  · obtain ⟨m, hm, hmz, hzm⟩ := hcomp.ok.tiles.cover (p := z.start) (Nat.zero_le _) (by rw [ho.nr]; omega)
    have hmf : m.free = true := by
      by_contra hmf
      have hmf := Bool.eq_false_iff.mpr hmf
      obtain rfl := hold.tiles.eq_of_mem ((hcomp.used m hmf).mp hm) hz hmz hzm (Nat.le_refl _)
        (by unfold Block.stop; omega)
      exact Bool.false_ne_true (hmf.symm.trans hzf)
    rcases Nat.eq_or_lt_of_le hmz with heq | hlt
    · exact .inl fun _ => ⟨m, hm, by rw [hcur, ← hzc, heq]⟩
    · exact .inr ⟨m, hm, hmf, by rwa [hcur, ← hzc], by rwa [hcur, ← hzc]⟩

/-- **From inside of a run** the search ends with a run that fits, or it has no end. -/
theorem searchFromInside (hp : PagesOk u pages) (hold : Tiles 0 old u.nrHeapPages)
    (hsub : ∀ x ∈ pages, ∃ z ∈ old, z.start = x.start) (hstale : Stale u pages old nPages)
    (hm : Inside u pages m) (hz : ∃ z ∈ old, z.start = u.bigHeapCursor) :
    (∃ x ∈ pages, u.searchFromCursor nPages = some (some x.start) ∧ Fits nPages x) ∨
      (∀ x ∈ pages, ¬ Fits nPages x) ∧
        ∀ fuel, u.bigSearch nPages fuel (u.bigHeapCursor % u.nrHeapPages) = none := by
  have hmb := hp.bounds hm.mem
  have hstop := hm.stop
  unfold Block.stop at hstop
  have hmod : u.bigHeapCursor % u.nrHeapPages = u.bigHeapCursor := Nat.mod_eq_of_lt (by omega)
  have hne : ∀ fuel, u.bigSearch nPages fuel u.bigHeapCursor ≠ some none := fun fuel =>
    bigSearch_ne_none hp hold hsub hstale hm.mem ⟨hm.lt, hm.stop⟩ (.inr ⟨Nat.le_refl _, hm.stop, hz⟩)
  have hfits : ∀ {fuel j}, u.bigSearch nPages fuel u.bigHeapCursor = some (some j) →
      ∃ x ∈ pages, x.start = j ∧ Fits nPages x := fun hj => bigSearch_fits hp hold hsub hstale hz hj
  rw [AustereHeap.searchFromCursor, hmod]
  by_cases hfit : ∃ x ∈ pages, Fits nPages x
  · left
    obtain ⟨t, ht, htf⟩ := hfit
    have htb := hp.bounds ht
    -- the way to `t`
    obtain ⟨d, hd, hd'⟩ : ∃ d, d < u.nrHeapPages ∧ (u.bigHeapCursor + d) % u.nrHeapPages = t.start := by
      rcases Nat.lt_or_ge t.start u.bigHeapCursor with hlt | hge
      · refine ⟨u.nrHeapPages - u.bigHeapCursor + t.start, by omega, ?_⟩
        have hsum : u.bigHeapCursor + (u.nrHeapPages - u.bigHeapCursor + t.start) =
            u.nrHeapPages + t.start := by omega
        rw [hsum, Nat.add_mod_left, Nat.mod_eq_of_lt (by omega)]
      · refine ⟨t.start - u.bigHeapCursor, by omega, ?_⟩
        rw [Nat.add_sub_cancel' hge, Nat.mod_eq_of_lt (by omega)]
    obtain ⟨r, hr⟩ := bigSearch_ends hp hold hsub hstale ht (.inr htf) hz hd' (Nat.le_of_lt hd) (.inr htf)
      (Nat.lt_succ_of_lt hd)
    cases r with
    | none => exact absurd hr (hne _)
    | some j =>
      obtain ⟨x, hx, rfl, hxf⟩ := hfits hr
      exact ⟨x, hx, hr, hxf⟩
  · right
    refine ⟨fun x hx hxf => hfit ⟨x, hx, hxf⟩, fun fuel => ?_⟩
    cases hr : u.bigSearch nPages fuel u.bigHeapCursor with
    | none => rfl
    | some r =>
      cases r with
      | none => exact absurd hr (hne fuel)
      | some j =>
        obtain ⟨x, hx, -, hxf⟩ := hfits hr
        exact absurd ⟨x, hx, hxf⟩ hfit

/-- What a call of `BigAllocation` comes to: a run is taken, there is none that fits, or the second
search has no end. -/
inductive BigOutcome (h : AustereHeap) (pages : List Block) (nBytes : Nat) : Prop
  | taken {u h' : AustereHeap} {pages' : List Block} {x : Block} : OnlyPages h u →
      Compacted u pages pages' → x ∈ pages' → Fits (AustereHeap.pagesFor nBytes) x →
      u.takePages (AustereHeap.pagesFor nBytes) x.start = some (h.page x.start, h') →
      h.bigAllocation nBytes = some (h.page x.start, h') → BigOutcome h pages nBytes
  | full {h' : AustereHeap} {pages' : List Block} : OnlyPages h h' → Compacted h' pages pages' →
      h'.bigHeapCursor = h.bigHeapCursor → CursorOk h' pages' →
      (∀ x ∈ pages', ¬ Fits (AustereHeap.pagesFor nBytes) x) →
      (1 < AustereHeap.pagesFor nBytes → Merged pages') →
      h.bigAllocation nBytes = some (0, h') → BigOutcome h pages nBytes
  | endless {u : AustereHeap} {pages' : List Block} {m : Block} : 1 < AustereHeap.pagesFor nBytes →
      OnlyPages h u → Compacted u pages pages' → Merged pages' → u.bigHeapCursor = h.bigHeapCursor →
      Inside u pages' m → (∀ x ∈ pages', ¬ Fits (AustereHeap.pagesFor nBytes) x) →
      h.compactBigHeap = some (true, u) →
      (∀ fuel, u.bigSearch (AustereHeap.pagesFor nBytes) fuel (u.bigHeapCursor % u.nrHeapPages) = none) →
      h.bigAllocation nBytes = none → BigOutcome h pages nBytes

/-- **Every call** comes to one of these. -/
theorem bigAllocation_outcome (hp : PagesOk h pages) (hc : CursorOk h pages) (hpos : 0 < h.nrHeapPages)
    (nBytes : Nat) : BigOutcome h pages nBytes := by
  obtain ⟨n, hn⟩ : ∃ n, n = AustereHeap.pagesFor nBytes := ⟨_, rfl⟩
  have honly : OnlyPages h h := ⟨_, _, rfl⟩
  have htake : ∀ {u : AustereHeap} {pages' : List Block} {x : Block}, OnlyPages h u → PagesOk u pages' →
      x ∈ pages' → Fits n x → ∃ h', u.takePages n x.start = some (h.page x.start, h') := by
    intro u pages' x ho hok hx hfit
    obtain ⟨h', hh'⟩ := takePages_eq_some hok hx hfit
    exact ⟨h', ho.page x.start ▸ hh'⟩
  obtain ⟨r, hr⟩ : ∃ r, h.bigAllocation nBytes = r := ⟨_, rfl⟩
  have hcall := hr
  rw [AustereHeap.bigAllocation, if_neg (Nat.ne_of_gt hpos), ← hn] at hcall
  rcases searchFromCursor_spec hp hc hpos n with ⟨x, hx, hsearch, hfit⟩ | ⟨hsearch, hnone⟩
  · -- found at once
    obtain ⟨h', hh'⟩ := htake honly hp hx hfit
    rw [hsearch] at hcall
    exact .taken honly hp.compacted hx (hn ▸ hfit) (hn ▸ hh') (hr.trans (hcall.symm.trans hh'))
  rw [hsearch] at hcall
  by_cases hmany : 1 < n
  swap
  · dsimp only at hcall
    rw [if_neg hmany] at hcall
    exact .full honly hp.compacted rfl hc (hn ▸ hnone) (fun h1 => absurd (hn ▸ h1) hmany)
      (hr.trans hcall.symm)
  dsimp only at hcall
  rw [if_pos hmany] at hcall
  obtain ⟨ret, u, pages', hcompact, hcur, ho, hcomp, hmerged, hret⟩ := compactBigHeap_spec hp
  rw [hcompact] at hcall
  cases ret with
  | false =>
    obtain ⟨rfl, rfl⟩ := hret rfl
    exact .full honly hp.compacted rfl hc (hn ▸ hnone) (fun _ => hmerged) (hr.trans hcall.symm)
  | true =>
    dsimp only at hcall
    have hpos' : 0 < u.nrHeapPages := ho.nr ▸ hpos
    have hfound : ∀ {x}, x ∈ pages' → Fits n x → u.searchFromCursor n = some (some x.start) →
        BigOutcome h pages nBytes := by
      intro x hx hfit hsearch'
      obtain ⟨h', hh'⟩ := htake ho hcomp.ok hx hfit
      rw [hsearch'] at hcall
      exact .taken ho hcomp hx (hn ▸ hfit) (hn ▸ hh') (hr.trans (hcall.symm.trans hh'))
    rcases hcomp.cursor hp hc hpos ho hcur with hc' | ⟨m, hm⟩
    · rcases searchFromCursor_spec hcomp.ok hc' hpos' n with ⟨x, hx, hsearch', hfit⟩ | ⟨hsearch', hno⟩
      · exact hfound hx hfit hsearch'
      · rw [hsearch'] at hcall
        exact .full ho hcomp hcur hc' (hn ▸ hno) (fun _ => hmerged) (hr.trans hcall.symm)
    · have hstale : Stale u pages' pages n := fun z hz =>
        (hcomp.stale z hz).imp_right fun hz' => ⟨hz'.2, hp.size_lt hz, hnone z hz⟩
      rcases searchFromInside hcomp.ok (ho.nr ▸ hp.tiles) hcomp.starts hstale hm (hcur ▸ hc hpos)
        with ⟨x, hx, hsearch', hfit⟩ | ⟨hno, hend⟩
      · exact hfound hx hfit hsearch'
      · have hsearch' : u.searchFromCursor n = none := hend _
        rw [hsearch'] at hcall
        exact .endless (hn ▸ hmany) ho hcomp hmerged hcur hm (hn ▸ hno) hcompact (hn ▸ hend)
          (hr.trans hcall.symm)

/-- What is free is the same after the compaction. -/
theorem Compacted.freeAt_iff (hcomp : Compacted u old pages) (hold : PagesOk h old) (ho : OnlyPages h u) :
    FreeAt pages p ↔ FreeAt old p :=
  hold.tiles.freeAt_congr (ho.nr ▸ hcomp.ok.tiles) hcomp.used

theorem Compacted.freeRun_iff (hcomp : Compacted u old pages) (hold : PagesOk h old) (ho : OnlyPages h u) :
    FreeRun pages nPages ↔ FreeRun old nPages :=
  hold.tiles.freeRun_congr (ho.nr ▸ hcomp.ok.tiles) hcomp.used

/-- A size that can be rounded up is. -/
theorem pagesFor_eq_pagesOf (hn : ¬ AustereHeap.Wraps nBytes) :
    AustereHeap.pagesFor nBytes = AustereHeap.pagesOf nBytes :=
  AustereHeap.pagesFor_eq (Nat.lt_of_not_le hn)

/-- There are no more free pages in a row than there are pages. -/
theorem PagesOk.not_freeRun (hp : PagesOk h pages) (hn : h.nrHeapPages < nPages) :
    ¬ FreeRun pages nPages := by
  rintro ⟨a, ha⟩
  have hfree := (ha (a + h.nrHeapPages) (Nat.le_add_right _ _) (Nat.add_lt_add_left hn a)).lt hp.tiles
  omega

/-- If there are enough free pages in a row, a run of the tiling fits. -/
theorem fits_of_freeRun (hp : PagesOk h pages) (hmerged : 1 < nPages → Merged pages) (hpos : 0 < nPages)
    (hrun : FreeRun pages nPages) : ∃ x ∈ pages, Fits nPages x := by
  by_cases hmany : 1 < nPages
  · exact (hp.tiles.freeRun_iff (hmerged hmany) hpos).mp hrun
  · obtain ⟨a, ha⟩ := hrun
    obtain ⟨x, hx, hxf, -⟩ := ha a (Nat.le_refl a) (Nat.lt_add_of_pos_right hpos)
    have hxb := hp.bounds hx
    exact ⟨x, hx, hxf, by omega⟩

/-- **One call** serves unless it wedges or the size wraps. -/
theorem serves_iff (hp : PagesOk h pages) (hc : CursorOk h pages) (hplaced : 0 < h.bigHeapStart)
    (nBytes : UInt32) : h.Serves nBytes.toNat ↔ 0 < h.nrHeapPages ∧ ¬ h.Wedges nBytes.toNat ∧
      (AustereHeap.Wraps nBytes.toNat → ∀ p, ¬ h.PageFree p) := by
  rcases Nat.eq_zero_or_pos h.nrHeapPages with hzero | hpos
  · -- division by zero
    refine iff_of_false ?_ fun hright => Nat.ne_of_gt hright.1 hzero
    rintro ⟨res, h', hcall, -⟩
    rw [AustereHeap.bigAllocation, if_pos hzero] at hcall
    cases hcall
  have hfew := hp.few
  have hlt := nBytes.toNat_lt
  obtain ⟨n, hn⟩ : ∃ n, n = nBytes.toNat := ⟨_, rfl⟩
  rw [← hn] at hlt ⊢
  -- what a wrapping size asks for, and what it gets
  have hwraps : AustereHeap.Wraps n → AustereHeap.pagesFor n = 0 ∧ 21 < AustereHeap.pagesOf n := by
    intro hw
    refine ⟨AustereHeap.pagesFor_wraps hw hlt, ?_⟩
    unfold AustereHeap.Wraps AustereHeap.pagesOf pageSize at *
    omega
  have hmod : ∀ {res : Nat} {h' : AustereHeap}, h.bigAllocation n = some (res, h') → h.Serves n →
      (res = 0 → 0 < AustereHeap.pagesOf n → ¬ h.FreePages (AustereHeap.pagesOf n)) ∧
      (res ≠ 0 → ∃ i, res = h.page i ∧
        ∀ p, i ≤ p → p < i + AustereHeap.pagesOf n → h.PageFree p) := by
    rintro res h' hcall ⟨res', h'', hcall', hnull, hrun⟩
    obtain ⟨rfl, -⟩ := Prod.mk.inj (Option.some.inj (hcall.symm.trans hcall'))
    exact ⟨hnull, hrun⟩
  rcases bigAllocation_outcome hp hc hpos n with
    @⟨u, h', pages', x, ho, hcomp, hx, hfit, -, hcall⟩ |
    @⟨h', pages', ho, hcomp, hcur, hc', hno, hmerged, hcall⟩ |
    @⟨u, pages', m, hmany, ho, hcomp, hmerged, hcur, hm, hno, -, -, hcall⟩
  · -- a run is taken
    have hxb := hcomp.ok.bounds hx
    have hpage : h.page x.start ≠ 0 := Nat.ne_of_gt (Nat.lt_of_lt_of_le hplaced (Nat.le_add_right _ _))
    have hfree : ∀ p, x.start ≤ p → p < x.start + x.size → h.PageFree p := fun p hlo hhi =>
      hp.pageFree_iff.mpr ((hcomp.freeAt_iff hp ho).mp ⟨x, hx, hfit.1, hlo, hhi⟩)
    by_cases hw : AustereHeap.Wraps n
    · refine iff_of_false (fun hserves => ?_) fun hright =>
        hright.2.2 hw x.start (hfree x.start (Nat.le_refl _) (Nat.lt_add_of_pos_right hxb.1))
      obtain ⟨i, -, hi⟩ := (hmod hcall hserves).2 hpage
      exact hp.not_freeRun (Nat.lt_of_le_of_lt hfew (hwraps hw).2) ((hp.freePages_iff).mp ⟨i, hi⟩)
    · rw [pagesFor_eq_pagesOf hw] at hfit
      refine iff_of_true ⟨_, h', hcall, fun hnull => absurd hnull hpage, fun _ =>
        ⟨x.start, rfl, fun p hlo hhi => hfree p hlo (Nat.lt_of_lt_of_le hhi (Nat.add_le_add_left hfit.2 _))⟩⟩
        ⟨hpos, fun hwedge => hwedge.2.1 ?_, fun hw' => absurd hw' hw⟩
      exact hp.freePages_iff.mpr ((hcomp.freeRun_iff hp ho).mp (freeRun_of_mem hx hfit.1 hfit.2))
  · -- there is none
    have hnopage : AustereHeap.Wraps n → ∀ p, ¬ h.PageFree p := by
      intro hw p hfree
      obtain ⟨x, hx, hxf, -⟩ := (hcomp.freeAt_iff hp ho).mpr (hp.pageFree_iff.mp hfree)
      exact hno x hx ⟨hxf, (hwraps hw).1 ▸ Nat.zero_le _⟩
    have hnull : 0 < AustereHeap.pagesOf n → ¬ h.FreePages (AustereHeap.pagesOf n) := by
      intro hn0 hfree
      by_cases hw : AustereHeap.Wraps n
      · exact hp.not_freeRun (Nat.lt_of_le_of_lt hfew (hwraps hw).2) (hp.freePages_iff.mp hfree)
      · rw [pagesFor_eq_pagesOf hw] at hno hmerged
        obtain ⟨x, hx, hfit⟩ := fits_of_freeRun hcomp.ok hmerged hn0
          ((hcomp.freeRun_iff hp ho).mpr (hp.freePages_iff.mp hfree))
        exact hno x hx hfit
    refine iff_of_true ⟨0, h', hcall, fun _ => hnull, fun hne => absurd rfl hne⟩ ⟨hpos, ?_, hnopage⟩
    rintro ⟨hmany, -, hcpos, hhere, hfront⟩
    by_cases hw : AustereHeap.Wraps n
    · exact hnopage hw _ hhere
    · rw [pagesFor_eq_pagesOf hw] at hmerged
      have hfree : ∀ {p}, h.PageFree p → FreeAt pages' p := fun hp' =>
        (hcomp.freeAt_iff hp ho).mpr (hp.pageFree_iff.mp hp')
      exact hc'.front hcomp.ok (hmerged hmany) (hcur ▸ hcpos) (hcur ▸ hfree hhere) (hcur ▸ hfree hfront)
  · -- the search has no end
    have hw : ¬ AustereHeap.Wraps n := fun hw => by
      rw [(hwraps hw).1] at hmany
      exact absurd hmany (by decide)
    refine iff_of_false ?_ fun hright => hright.2.1 ?_
    · rintro ⟨res, h', hcall', -⟩
      cases hcall.symm.trans hcall'
    · rw [pagesFor_eq_pagesOf hw] at hmany hno
      have hlt' := hm.lt
      have hstop := hm.stop
      rw [hcur] at hlt' hstop
      have hfree : ∀ p, m.start ≤ p → p < m.stop → h.PageFree p := fun p hlo hhi =>
        hp.pageFree_iff.mpr ((hcomp.freeAt_iff hp ho).mp ⟨m, hm.mem, hm.isFree, hlo, hhi⟩)
      refine ⟨hmany, fun hrun => ?_, by omega, hfree _ (by omega) hstop, hfree _ (by omega) (by omega)⟩
      obtain ⟨x, hx, hfit⟩ := fits_of_freeRun hcomp.ok (fun _ => hmerged) (Nat.zero_lt_of_lt hmany)
        ((hcomp.freeRun_iff hp ho).mpr (hp.freePages_iff.mp hrun))
      exact hno x hx hfit

/-! ## The pages and their users -/

/-- The page heap, and the addresses of the blocks that its users have. -/
structure PageSys where
  heap : AustereHeap
  live : List Nat

inductive PageAct where
  | allocate (nBytes : UInt32)
  | free (block : Nat)

namespace PageSys

/-- Something is asked for, as all callers do, and a block is freed while it is live. -/
def Possible (s : PageSys) : PageAct → Prop
  | .allocate nBytes => 0 < nBytes.toNat
  | .free block => block ∈ s.live

def step (s : PageSys) : PageAct → Option PageSys
  | .allocate nBytes => (s.heap.bigAllocation nBytes.toNat).map fun r =>
      { heap := r.2, live := if r.1 = 0 then s.live else r.1 :: s.live }
  | .free block => some { heap := s.heap.bigFreeMemory block, live := s.live.erase block }

/-- After `XmInitMemory`. -/
def Start (s : PageSys) : Prop :=
  s.live = [] ∧ ∃ heap nrPages, ∃ mem : Nat → UInt32, 0 < heap ∧
    AustereHeap.xmInitMemory heap nrPages (fun p => (mem p).toNat) = some s.heap

/-- No size that cannot be rounded up is asked for while a page is free. -/
def Sensible (s : PageSys) : PageAct → Prop
  | .allocate nBytes => AustereHeap.Wraps nBytes.toNat → ∀ p, ¬ s.heap.PageFree p
  | .free _ => True

/-- The states of runs whose steps satisfy `ok`. -/
abbrev Reached (ok : PageSys → PageAct → Prop) : PageSys → Prop :=
  Reachable Start (fun s a s' => s.Possible a ∧ s.step a = some s') ok

instance (s : PageSys) (a : PageAct) : Decidable (s.Possible a) :=
  match a with
  | .allocate nBytes => inferInstanceAs (Decidable (0 < nBytes.toNat))
  | .free block => inferInstanceAs (Decidable (block ∈ s.live))

/-- The pages are cut into runs, and every live block is one that is used. -/
structure Inv (s : PageSys) (pages : List Block) : Prop where
  placed : 0 < s.heap.bigHeapStart
  cut : PagesOk s.heap pages
  cursor : CursorOk s.heap pages
  distinct : s.live.Nodup
  owner : ∀ b ∈ s.live, ∃ x ∈ pages, x.free = false ∧ b = s.heap.page x.start

variable {s s' : PageSys}

theorem Start.inv (h : s.Start) : ∃ pages, s.Inv pages := by
  obtain ⟨hlive, heap, nrPages, mem, hpos, hinit⟩ := h
  obtain ⟨hstart, -, pages, hcut, hcursor, -⟩ := xmInitMemory_pages hinit
  exact ⟨pages, hstart ▸ hpos, hcut, hcursor, by simp [hlive], by simp [hlive]⟩

/-- A run is taken, and is a new block. -/
theorem Inv.taken (hinv : s.Inv pages) {old : List Block}
    (ht : Taken s.heap pages h' old ⟨i, nPages, false⟩) :
    Inv { heap := h', live := s.heap.page i :: s.live } old := by
  have hpage := ht.only.page
  refine ⟨?_, ht.ok, ht.cursor, List.nodup_cons.mpr ⟨fun hb => ?_, hinv.distinct⟩, fun b hb => ?_⟩
  · obtain ⟨sizes, cursor, rfl⟩ := ht.only
    exact hinv.placed
  · -- it would be the run of a live block
    obtain ⟨y, hy, hyf, heq⟩ := hinv.owner _ hb
    have hy' := (ht.takes.others y hyf).mpr (.inr hy)
    have hstart : i = y.start := by
      unfold AustereHeap.page pageSize at heq
      omega
    exact ht.takes.new (ht.ok.tiles.eq_of_start ht.takes.mem hy' hstart ▸ hy)
  · rcases List.mem_cons.mp hb with rfl | hb
    · exact ⟨_, ht.takes.mem, rfl, (hpage i).symm⟩
    · obtain ⟨y, hy, hyf, rfl⟩ := hinv.owner b hb
      exact ⟨y, (ht.takes.others y hyf).mpr (.inr hy), hyf, (hpage _).symm⟩

/-- **Allocating.** -/
theorem Inv.allocate (hinv : s.Inv pages) {nBytes : UInt32} (hn : 0 < nBytes.toNat)
    (hok : s.Sensible (.allocate nBytes)) (hstep : s.step (.allocate nBytes) = some s') :
    ∃ pages', s'.Inv pages' := by
  obtain ⟨⟨res, h'⟩, hcall, rfl⟩ := Option.map_eq_some_iff.mp hstep
  have hpos : 0 < s.heap.nrHeapPages := by
    by_contra hzero
    rw [AustereHeap.bigAllocation, if_pos (Nat.eq_zero_of_not_pos hzero)] at hcall
    cases hcall
  rcases bigAllocation_outcome hinv.cut hinv.cursor hpos nBytes.toNat with
    @⟨u, _, _, x, ho, hcomp, hx, hfit, htake, hcall'⟩ |
    @⟨_, _, ho, hcomp, -, hcursor, -, -, hcall'⟩ | ⟨-, -, -, -, -, -, -, -, -, hcall'⟩
  · obtain ⟨rfl, rfl⟩ := Prod.mk.inj (Option.some.inj (hcall.symm.trans hcall'))
    -- a size that wraps would not have been asked for
    have hw : ¬ AustereHeap.Wraps nBytes.toNat := fun hw => by
      refine hok hw x.start (hinv.cut.pageFree_iff.mpr ((hcomp.freeAt_iff hinv.cut ho).mp ?_))
      exact ⟨x, hx, hfit.1, Nat.le_refl _, Nat.lt_add_of_pos_right (hcomp.ok.bounds hx).1⟩
    have hmany : 0 < AustereHeap.pagesFor nBytes.toNat := by
      rw [pagesFor_eq_pagesOf hw]
      unfold AustereHeap.pagesOf pageSize
      omega
    obtain ⟨-, pages', ht⟩ := takePages_taken hcomp.ok hx hfit hmany htake
    have hres : s.heap.page x.start ≠ 0 :=
      Nat.ne_of_gt (Nat.lt_of_lt_of_le hinv.placed (Nat.le_add_right _ _))
    dsimp only
    rw [if_neg hres]
    exact ⟨pages', hinv.taken (ht.of_compacted hcomp ho)⟩
  · obtain ⟨rfl, rfl⟩ := Prod.mk.inj (Option.some.inj (hcall.symm.trans hcall'))
    refine ⟨_, ?_, hcomp.ok, hcursor, hinv.distinct, fun b hb => ?_⟩
    · obtain ⟨sizes, cursor, rfl⟩ := ho
      exact hinv.placed
    · obtain ⟨y, hy, hyf, rfl⟩ := hinv.owner b hb
      exact ⟨y, (hcomp.used y hyf).mpr hy, hyf, (ho.page _).symm⟩
  · cases hcall.symm.trans hcall'

/-- **Freeing.** -/
theorem Inv.free (hinv : s.Inv pages) {block : Nat} (hb : block ∈ s.live) :
    ∃ pages', Inv { heap := s.heap.bigFreeMemory block, live := s.live.erase block } pages' := by
  obtain ⟨x, hx, hxf, rfl⟩ := hinv.owner block hb
  obtain ⟨ho, pages', hcut, hcursor, hgive⟩ := bigFreeMemory_pages hinv.cut hx hxf
  refine ⟨pages', ?_, hcut, hcursor, hinv.distinct.erase _, fun b hb' => ?_⟩
  · obtain ⟨sizes, cursor, heq⟩ := ho
    rw [heq]
    exact hinv.placed
  · obtain ⟨hne, hb'⟩ := hinv.distinct.mem_erase_iff.mp hb'
    obtain ⟨y, hy, hyf, rfl⟩ := hinv.owner b hb'
    exact ⟨y, (hgive y hyf).mpr ⟨hy, fun heq => hne (heq ▸ rfl)⟩, hyf, (ho.page _).symm⟩

/-- The tiling holds along a run. -/
theorem Reached.inv (h : Reached Sensible s) : ∃ pages, s.Inv pages := by
  refine Reachable.invariant (P := fun s => ∃ pages, s.Inv pages) h (fun _ => Start.inv)
    fun s a s' ⟨pages, hinv⟩ hok hstep => ?_
  obtain ⟨hpos, hstep⟩ := hstep
  cases a with
  | allocate nBytes => exact hinv.allocate hpos hok hstep
  | free block =>
    cases hstep
    exact hinv.free hpos

/-- **In every state of a sensible run** a request is served, unless it cannot be rounded up while a page
is free, or asks for too many pages while the page at the cursor and the one in front of it are free. -/
theorem big_request_served_iff (h : Reached Sensible s) (nBytes : UInt32) :
    s.heap.Serves nBytes.toNat ↔ 0 < s.heap.nrHeapPages ∧ ¬ s.heap.Wedges nBytes.toNat ∧
      (AustereHeap.Wraps nBytes.toNat → ∀ p, ¬ s.heap.PageFree p) := by
  obtain ⟨pages, hinv⟩ := h.inv
  exact serves_iff hinv.cut hinv.cursor hinv.placed nBytes

/-- A heap of so many pages. -/
def fresh (nrPages : Nat) : PageSys where
  heap :=
    { bigHeapStart := 4096
      nrHeapPages := nrPages
      heapBlockSizes := Function.update (fun _ => 0) 0 (withFree nrPages)
      bigHeapCursor := 0
      headSubheap := 0
      mem := fun _ => 0 }
  live := []

theorem fresh_start {n : Nat} (hn : n ≤ austereHeapPages) : (fresh n).Start :=
  ⟨rfl, 4096, n, fun _ => 0, by decide, if_neg (Nat.not_lt.mpr hn)⟩

/-- The first request is served. -/
theorem big_request_served : (fresh 3).heap.Serves 8192 := by
  refine (big_request_served_iff (.start (fresh_start (by decide))) 8192).mpr ⟨by decide, ?_, ?_⟩
  · rintro ⟨-, -, hcursor, -⟩
    exact absurd hcursor (by decide)
  · intro hw
    exact absurd hw (by decide)

/-- **All pages are taken one by one**, and the first and the second given back: three pages are asked
for then, and the search has no end. -/
theorem big_request_wedged : ¬ ∀ s : PageSys, Reached (fun _ _ => True) s →
    ∀ nBytes : UInt32, s.heap.Serves nBytes.toNat := by
  intro hall
  have hrun : ∃ s : PageSys, Reached (fun _ _ => True) s ∧
      decide (s.heap.bigAllocation 12288 = none) = true :=
    exists_reachable_of_follow (fresh 3)
      [.allocate 4096, .allocate 4096, .allocate 4096, .free 4096, .free 8192] (fresh_start (by decide))
      (by decide +kernel)
  obtain ⟨s, hs, hnone⟩ := hrun
  obtain ⟨res, h', hcall, -⟩ := hall s hs 12288
  cases (of_decide_eq_true hnone).symm.trans hcall

end PageSys

end V4v.Xenutil
