import Mathlib.Data.List.Basic
import Mathlib.Order.Nat
import Mathlib.Tactic.Common

/-! # Intervals cut into blocks

An interval of numbers is cut into blocks that follow each other, each of them free or not, as a heap is
by an allocator that cuts blocks up and joins them again.  `Tiles lo l hi` says that the blocks of `l` are
from `lo` to `hi`.  A block, or two that follow each other, can be replaced by blocks from the same start
to the same end, and `Replaces` says which blocks there are then, and how much of them is free. -/
namespace BlockTiling

/-- The numbers from `start` on, `size` many. -/
structure Block where
  start : Nat
  size : Nat
  free : Bool
  deriving DecidableEq, Repr

def Block.stop (x : Block) : Nat := x.start + x.size

/-- The blocks follow each other from `lo` to `hi`. -/
def Tiles : Nat → List Block → Nat → Prop
  | lo, [], hi => lo = hi
  | lo, x :: l, hi => x.start = lo ∧ 0 < x.size ∧ Tiles x.stop l hi

/-- How much of the blocks is free. -/
def freeSize : List Block → Nat
  | [] => 0
  | x :: l => (if x.free = true then x.size else 0) + freeSize l

/-- The blocks of `l'` are those of `l`, with `m'` for `m`. -/
structure Replaces (l m m' l' : List Block) : Prop where
  mem : ∀ x, x ∈ l' ↔ x ∈ m' ∨ x ∈ l ∧ x ∉ m
  free : freeSize l' + freeSize m = freeSize l + freeSize m'

/-- In `l'` block `w` is in use, which was not in `l`, and otherwise the used blocks are the same. -/
structure Takes (l l' : List Block) (w : Block) : Prop where
  mem : w ∈ l'
  isUsed : w.free = false
  new : w ∉ l
  others : ∀ y, y.free = false → (y ∈ l' ↔ y = w ∨ y ∈ l)

variable {lo mid hi : Nat} {l m m' l' : List Block} {x y : Block}

theorem tiles_single : Tiles lo [x] hi ↔ x.start = lo ∧ 0 < x.size ∧ x.stop = hi := Iff.rfl

theorem tiles_pair : Tiles lo [x, y] hi ↔
    x.start = lo ∧ 0 < x.size ∧ y.start = x.stop ∧ 0 < y.size ∧ y.stop = hi := Iff.rfl

/-- One block for two that follow each other. -/
theorem tiles_join (b : Bool) (hx : 0 < x.size) (hxy : y.start = x.stop) :
    Tiles x.start [⟨x.start, x.size + y.size, b⟩] y.stop := by
  refine tiles_single.mpr ⟨rfl, Nat.add_pos_left hx _, ?_⟩
  rw [Block.stop, Block.stop, hxy]
  exact (Nat.add_assoc ..).symm

/-- Two blocks for one. -/
theorem tiles_cut {n : Nat} (b c : Bool) (hn : 0 < n) (hlt : n < x.size) :
    Tiles x.start [⟨x.start, n, b⟩, ⟨x.start + n, x.size - n, c⟩] x.stop := by
  refine tiles_pair.mpr ⟨rfl, hn, rfl, Nat.sub_pos_of_lt hlt, ?_⟩
  have hsum : n + (x.size - n) = x.size := Nat.add_sub_of_le hlt.le
  exact (Nat.add_assoc ..).trans (congrArg (x.start + ·) hsum)

/-- The same block, free or not. -/
theorem tiles_mark (b : Bool) (hx : 0 < x.size) : Tiles x.start [{ x with free := b }] x.stop :=
  tiles_single.mpr ⟨rfl, hx, rfl⟩

theorem freeSize_append (l l' : List Block) : freeSize (l ++ l') = freeSize l + freeSize l' := by
  induction l with
  | nil => exact (Nat.zero_add _).symm
  | cons x l ih =>
    rw [List.cons_append, freeSize, freeSize, ih]
    exact (Nat.add_assoc ..).symm

/-- Two runs of blocks, one behind the other. -/
theorem tiles_append : Tiles lo (l ++ l') hi ↔ ∃ mid, Tiles lo l mid ∧ Tiles mid l' hi := by
  induction l generalizing lo with
  | nil => exact ⟨fun h => ⟨lo, rfl, h⟩, fun ⟨_, h, h'⟩ => h ▸ h'⟩
  | cons x l ih =>
    constructor
    · rintro ⟨hx, hs, h⟩
      obtain ⟨mid, h₁, h₂⟩ := ih.mp h
      exact ⟨mid, ⟨hx, hs, h₁⟩, h₂⟩
    · rintro ⟨mid, ⟨hx, hs, h₁⟩, h₂⟩
      exact ⟨hx, hs, ih.mpr ⟨mid, h₁, h₂⟩⟩

theorem Tiles.le (h : Tiles lo l hi) : lo ≤ hi := by
  induction l generalizing lo with
  | nil => exact h.le
  | cons x l ih =>
    obtain ⟨rfl, -, h⟩ := h
    exact (Nat.le_add_right ..).trans (ih h)

/-- A block is in the interval. -/
theorem Tiles.bounds (h : Tiles lo l hi) (hx : x ∈ l) : lo ≤ x.start ∧ 0 < x.size ∧ x.stop ≤ hi := by
  induction l generalizing lo with
  | nil => exact nomatch hx
  | cons y l ih =>
    obtain ⟨rfl, hs, h⟩ := h
    rcases List.mem_cons.mp hx with rfl | hx
    · exact ⟨le_rfl, hs, h.le⟩
    · obtain ⟨hlo, hpos, hhi⟩ := ih h hx
      exact ⟨(Nat.le_add_right ..).trans hlo, hpos, hhi⟩

/-- Blocks do not overlap. -/
theorem Tiles.apart (h : Tiles lo l hi) (hx : x ∈ l) (hy : y ∈ l) :
    x = y ∨ x.stop ≤ y.start ∨ y.stop ≤ x.start := by
  induction l generalizing lo with
  | nil => exact nomatch hx
  | cons z l ih =>
    obtain ⟨rfl, -, h⟩ := h
    rcases List.mem_cons.mp hx with hxz | hx <;> rcases List.mem_cons.mp hy with hyz | hy
    · exact .inl (hxz.trans hyz.symm)
    · exact .inr (.inl (hxz ▸ (h.bounds hy).1))
    · exact .inr (.inr (hyz ▸ (h.bounds hx).1))
    · exact ih h hx hy

/-- Blocks have different starts. -/
theorem Tiles.eq_of_start (h : Tiles lo l hi) (hx : x ∈ l) (hy : y ∈ l) (heq : x.start = y.start) :
    x = y := by
  have hx' := (h.bounds hx).2.1
  have hy' := (h.bounds hy).2.1
  rcases h.apart hx hy with h | h | h
  · exact h
  · unfold Block.stop at h
    omega
  · unfold Block.stop at h
    omega

/-- A block is the last, or there is one behind it. -/
theorem Tiles.next (h : Tiles lo l hi) (hx : x ∈ l) : x.stop = hi ∨ ∃ y ∈ l, y.start = x.stop := by
  induction l generalizing lo with
  | nil => exact nomatch hx
  | cons z l ih =>
    obtain ⟨rfl, -, h⟩ := h
    rcases List.mem_cons.mp hx with rfl | hx
    · cases l with
      | nil => exact .inl h
      | cons y l => exact .inr ⟨y, List.mem_cons_of_mem _ List.mem_cons_self, h.1⟩
    · rcases ih h hx with hlast | ⟨y, hy, heq⟩
      · exact .inl hlast
      · exact .inr ⟨y, List.mem_cons_of_mem _ hy, heq⟩

/-- A block is the first, or there is one before it. -/
theorem Tiles.prev (h : Tiles lo l hi) (hx : x ∈ l) : x.start = lo ∨ ∃ y ∈ l, y.stop = x.start := by
  induction l generalizing lo with
  | nil => exact nomatch hx
  | cons z l ih =>
    obtain ⟨rfl, -, h⟩ := h
    rcases List.mem_cons.mp hx with rfl | hx
    · exact .inl rfl
    · rcases ih h hx with hfirst | ⟨y, hy, heq⟩
      · exact .inr ⟨z, List.mem_cons_self, hfirst.symm⟩
      · exact .inr ⟨y, List.mem_cons_of_mem _ hy, heq⟩

/-- An interval that is not empty has a first block. -/
theorem Tiles.exists_first (h : Tiles lo l hi) (hlt : lo < hi) : ∃ x ∈ l, x.start = lo := by
  cases l with
  | nil => exact absurd h hlt.ne
  | cons x l => exact ⟨x, List.mem_cons_self, h.1⟩

/-- Round the interval, behind each block there is one. -/
theorem Tiles.next_mod (h : Tiles 0 l hi) (hx : x ∈ l) : ∃ y ∈ l, y.start = x.stop % hi := by
  have hb := h.bounds hx
  unfold Block.stop at hb ⊢
  rcases h.next hx with hlast | ⟨y, hy, heq⟩
  · rw [Block.stop] at hlast
    rw [hlast, Nat.mod_self]
    exact h.exists_first (by omega)
  · have hyb := h.bounds hy
    unfold Block.stop at heq hyb
    exact ⟨y, hy, by rw [Nat.mod_eq_of_lt (by omega), heq]⟩

theorem Tiles.nodup (h : Tiles lo l hi) : l.Nodup := by
  induction l generalizing lo with
  | nil => exact List.nodup_nil
  | cons x l ih =>
    obtain ⟨rfl, hs, h⟩ := h
    refine List.nodup_cons.mpr ⟨fun hx => ?_, ih h⟩
    have hlo := (h.bounds hx).1
    unfold Block.stop at hlo
    omega

/-- A run of blocks is replaced. -/
theorem Tiles.replace {l₁ l₂ : List Block} (h : Tiles lo (l₁ ++ m ++ l₂) hi)
    (hm : ∀ i j, Tiles i m j → Tiles i m' j) :
    Tiles lo (l₁ ++ m' ++ l₂) hi ∧ Replaces (l₁ ++ m ++ l₂) m m' (l₁ ++ m' ++ l₂) := by
  constructor
  · obtain ⟨j, h₁, h₂⟩ := tiles_append.mp h
    obtain ⟨i, h₁, h₃⟩ := tiles_append.mp h₁
    exact tiles_append.mpr ⟨j, tiles_append.mpr ⟨i, h₁, hm i j h₃⟩, h₂⟩
  · constructor
    · intro x
      have hnd := h.nodup
      have hdisj : ∀ z, z ∈ m → z ∉ l₁ ∧ z ∉ l₂ := by
        intro z hz
        obtain ⟨hnd₁, -, hd⟩ := List.nodup_append.mp hnd
        obtain ⟨-, -, hd₁⟩ := List.nodup_append.mp hnd₁
        refine ⟨fun hz' => hd₁ z hz' z hz rfl, fun hz' => ?_⟩
        exact hd z (List.mem_append_right _ hz) z hz' rfl
      simp only [List.mem_append]
      constructor
      · rintro ((h₁ | hm') | h₂)
        · exact .inr ⟨.inl (.inl h₁), fun hm => (hdisj x hm).1 h₁⟩
        · exact .inl hm'
        · exact .inr ⟨.inr h₂, fun hm => (hdisj x hm).2 h₂⟩
      · rintro (hm' | ⟨(h₁ | hm) | h₂, hnot⟩)
        · exact .inl (.inr hm')
        · exact .inl (.inl h₁)
        · exact absurd hm hnot
        · exact .inr h₂
    · simp only [freeSize_append]
      omega

/-- **A block is replaced.** -/
theorem Tiles.replace_one (h : Tiles lo l hi) (hx : x ∈ l) (hm : Tiles x.start m' x.stop) :
    ∃ l', Tiles lo l' hi ∧ Replaces l [x] m' l' := by
  obtain ⟨l₁, l₂, rfl⟩ := List.append_of_mem hx
  have hsplit : l₁ ++ x :: l₂ = l₁ ++ [x] ++ l₂ := by rw [List.append_assoc, List.singleton_append]
  rw [hsplit] at h ⊢
  refine ⟨l₁ ++ m' ++ l₂, h.replace fun i j hij => ?_⟩
  obtain ⟨rfl, -, rfl⟩ := tiles_single.mp hij
  exact hm

/-- **Two blocks that follow each other are replaced.** -/
theorem Tiles.replace_two (h : Tiles lo l hi) (hx : x ∈ l) (hy : y ∈ l) (hxy : y.start = x.stop)
    (hm : Tiles x.start m' y.stop) : ∃ l', Tiles lo l' hi ∧ Replaces l [x, y] m' l' := by
  obtain ⟨l₁, l₂, rfl⟩ := List.append_of_mem hx
  have hall := h
  obtain ⟨i, -, hxi, hs, h₂⟩ := tiles_append.mp h
  obtain ⟨l₃, rfl⟩ : ∃ l₃, l₂ = y :: l₃ := by
    cases l₂ with
    | nil =>
      have hlast : hi = x.stop := h₂.symm
      have hend := hall.bounds hy
      unfold Block.stop at hend hlast hxy
      omega
    | cons z l₃ =>
      have hz : z ∈ l₁ ++ x :: z :: l₃ :=
        List.mem_append_right _ (List.mem_cons_of_mem _ List.mem_cons_self)
      exact ⟨l₃, by rw [hall.eq_of_start hy hz (hxy.trans h₂.1.symm)]⟩
  have hsplit : l₁ ++ x :: y :: l₃ = l₁ ++ [x, y] ++ l₃ := by
    rw [List.append_assoc, List.cons_append, List.singleton_append]
  rw [hsplit] at hall ⊢
  refine ⟨l₁ ++ m' ++ l₃, hall.replace fun i j hij => ?_⟩
  obtain ⟨rfl, -, -, -, rfl⟩ := tiles_pair.mp hij
  exact hm

/-- A free block is taken when `w` and free blocks are put for it. -/
theorem Replaces.takes {w : Block} (hr : Replaces l [x] m l') (h : Tiles lo l hi) (hx : x ∈ l)
    (hxf : x.free = true) (hw : w ∈ m) (hstart : w.start = x.start)
    (hused : ∀ y ∈ m, y.free = false ↔ y = w) : Takes l l' w where
  mem := (hr.mem w).mpr (.inl hw)
  isUsed := (hused w hw).mpr rfl
  new hmem := by
    rw [← h.eq_of_start hmem hx hstart, (hused w hw).mpr rfl] at hxf
    exact nomatch hxf
  others y hy := by
    rw [hr.mem, List.mem_singleton]
    constructor
    · exact fun hmem => hmem.imp (fun hm => (hused y hm).mp hy) And.left
    · rintro (rfl | hmem)
      · exact .inl hw
      · refine .inr ⟨hmem, ?_⟩
        rintro rfl
        exact Bool.noConfusion (hxf.symm.trans hy)

/-- All of a free block is taken. -/
theorem Tiles.take_all (h : Tiles lo l hi) (hx : x ∈ l) (hxf : x.free = true) :
    ∃ l', Tiles lo l' hi ∧ Replaces l [x] [{ x with free := false }] l' ∧
      Takes l l' { x with free := false } := by
  obtain ⟨l', hl', hr⟩ := h.replace_one hx (tiles_mark false (h.bounds hx).2.1)
  refine ⟨l', hl', hr, hr.takes h hx hxf List.mem_cons_self rfl fun y hy => ?_⟩
  rw [List.mem_singleton.mp hy]
  exact ⟨fun _ => rfl, fun _ => rfl⟩

/-- The first part of a free block is taken. -/
theorem Tiles.take_part {n : Nat} (h : Tiles lo l hi) (hx : x ∈ l) (hxf : x.free = true)
    (hn : 0 < n) (hlt : n < x.size) :
    ∃ l', Tiles lo l' hi ∧
      Replaces l [x] [⟨x.start, n, false⟩, ⟨x.start + n, x.size - n, true⟩] l' ∧
      Takes l l' ⟨x.start, n, false⟩ := by
  obtain ⟨l', hl', hr⟩ := h.replace_one hx (tiles_cut false true hn hlt)
  refine ⟨l', hl', hr, hr.takes h hx hxf List.mem_cons_self rfl fun y hy => ?_⟩
  rcases List.mem_pair.mp hy with rfl | rfl
  · exact ⟨fun _ => rfl, fun _ => rfl⟩
  · exact ⟨nofun, fun heq => nomatch congrArg Block.free heq⟩

/-- A block is given back. -/
theorem Tiles.give (h : Tiles lo l hi) (hx : x ∈ l) :
    ∃ l', Tiles lo l' hi ∧ Replaces l [x] [{ x with free := true }] l' ∧
      ∀ y, y.free = false → (y ∈ l' ↔ y ∈ l ∧ y ≠ x) := by
  obtain ⟨l', hl', hr⟩ := h.replace_one hx (tiles_mark true (h.bounds hx).2.1)
  refine ⟨l', hl', hr, fun y hy => ?_⟩
  rw [hr.mem, List.mem_singleton, List.mem_singleton]
  refine or_iff_right ?_
  rintro rfl
  exact nomatch hy

theorem size_le_freeSize (hx : x ∈ l) (hxf : x.free = true) : x.size ≤ freeSize l := by
  induction l with
  | nil => exact nomatch hx
  | cons y l ih =>
    rw [freeSize]
    rcases List.mem_cons.mp hx with rfl | hx
    · rw [if_pos hxf]
      exact Nat.le_add_right ..
    · exact (ih hx).trans (Nat.le_add_left ..)

/-- The free blocks are no more than the interval, and all of it if there are no others. -/
theorem Tiles.freeSize_le (h : Tiles lo l hi) : lo + freeSize l ≤ hi := by
  induction l generalizing lo with
  | nil => exact h.le
  | cons x l ih =>
    obtain ⟨rfl, -, h⟩ := h
    have hrest := ih h
    unfold Block.stop at hrest
    unfold freeSize
    split <;> omega

/-- With a block that is not free there is less. -/
theorem Tiles.freeSize_add_le (h : Tiles lo l hi) (hx : x ∈ l) (hfree : x.free = false) :
    lo + freeSize l + x.size ≤ hi := by
  obtain ⟨l', hl', hr⟩ := h.replace_one hx (tiles_mark true (h.bounds hx).2.1)
  have hle := hl'.freeSize_le
  have heq := hr.free
  have hold : freeSize [x] = 0 := by
    unfold freeSize
    rw [if_neg (by rw [hfree]; exact nofun)]
    rfl
  have hnew : freeSize [{ x with free := true }] = x.size := rfl
  rw [hold, hnew] at heq
  omega

/-- If less than all is free, some block is not. -/
theorem Tiles.exists_used (h : Tiles lo l hi) (hlt : lo + freeSize l < hi) :
    ∃ x ∈ l, x.free = false := by
  induction l generalizing lo with
  | nil =>
    have heq : lo = hi := h
    unfold freeSize at hlt
    omega
  | cons x l ih =>
    obtain ⟨rfl, -, h⟩ := h
    unfold freeSize at hlt
    split at hlt
    · obtain ⟨y, hy, hfree⟩ := ih h (by unfold Block.stop; omega)
      exact ⟨y, List.mem_cons_of_mem _ hy, hfree⟩
    · next hx => exact ⟨x, List.mem_cons_self, Bool.eq_false_iff.mpr hx⟩

/-! ## What is free -/

/-- The number is in a free block. -/
def FreeAt (l : List Block) (p : Nat) : Prop :=
  ∃ x ∈ l, x.free = true ∧ x.start ≤ p ∧ p < x.stop

/-- There are `n` free numbers in a row. -/
def FreeRun (l : List Block) (n : Nat) : Prop :=
  ∃ a, ∀ p, a ≤ p → p < a + n → FreeAt l p

/-- No free block follows another one. -/
def Merged (l : List Block) : Prop :=
  ∀ x ∈ l, ∀ y ∈ l, x.free = true → y.free = true → y.start ≠ x.stop

/-- Every number is in a block. -/
theorem Tiles.cover {p : Nat} (h : Tiles lo l hi) (hlo : lo ≤ p) (hhi : p < hi) :
    ∃ x ∈ l, x.start ≤ p ∧ p < x.stop := by
  induction l generalizing lo with
  | nil =>
    have heq : lo = hi := h
    omega
  | cons x l ih =>
    obtain ⟨rfl, -, h⟩ := h
    by_cases hp : p < x.stop
    · exact ⟨x, List.mem_cons_self, hlo, hp⟩
    · obtain ⟨y, hy, hin⟩ := ih h (Nat.le_of_not_lt hp)
      exact ⟨y, List.mem_cons_of_mem _ hy, hin⟩

/-- A number is in one block only. -/
theorem Tiles.eq_of_mem {p : Nat} (h : Tiles lo l hi) (hx : x ∈ l) (hy : y ∈ l) (hpx : x.start ≤ p)
    (hpx' : p < x.stop) (hpy : y.start ≤ p) (hpy' : p < y.stop) : x = y := by
  rcases h.apart hx hy with heq | hlt | hlt
  · exact heq
  · omega
  · omega

/-- What is not free is in a used block. -/
theorem Tiles.freeAt_iff {p : Nat} (h : Tiles lo l hi) (hlo : lo ≤ p) (hhi : p < hi) :
    FreeAt l p ↔ ¬ ∃ x ∈ l, x.free = false ∧ x.start ≤ p ∧ p < x.stop := by
  constructor
  · rintro ⟨x, hx, hxf, hxp, hpx⟩ ⟨y, hy, hyf, hyp, hpy⟩
    obtain rfl := h.eq_of_mem hx hy hxp hpx hyp hpy
    exact Bool.false_ne_true (hyf.symm.trans hxf)
  · intro hno
    obtain ⟨x, hx, hxp, hpx⟩ := h.cover hlo hhi
    refine ⟨x, hx, ?_, hxp, hpx⟩
    by_contra hxf
    exact hno ⟨x, hx, Bool.eq_false_iff.mpr hxf, hxp, hpx⟩

theorem FreeAt.lt {p : Nat} (hp : FreeAt l p) (h : Tiles lo l hi) : lo ≤ p ∧ p < hi := by
  obtain ⟨x, hx, -, hxp, hpx⟩ := hp
  obtain ⟨hlo, -, hhi⟩ := h.bounds hx
  omega

/-- A block that is free is a run. -/
theorem freeRun_of_mem {n : Nat} (hx : x ∈ l) (hxf : x.free = true) (hn : n ≤ x.size) : FreeRun l n :=
  ⟨x.start, fun _ hlo hhi => ⟨x, hx, hxf, hlo, Nat.lt_of_lt_of_le hhi (Nat.add_le_add_left hn _)⟩⟩

/-- **When free blocks are merged**, a run is in one of them. -/
theorem Tiles.freeRun_iff {n : Nat} (h : Tiles lo l hi) (hm : Merged l) (hn : 0 < n) :
    FreeRun l n ↔ ∃ x ∈ l, x.free = true ∧ n ≤ x.size := by
  constructor
  · rintro ⟨a, ha⟩
    obtain ⟨x, hx, hxf, hxa, hax⟩ := ha a (Nat.le_refl a) (Nat.lt_add_of_pos_right hn)
    refine ⟨x, hx, hxf, ?_⟩
    by_contra hsize
    -- the number behind the block is in a free one, too
    unfold Block.stop at hax
    obtain ⟨y, hy, hyf, hyp, hpy⟩ := ha x.stop (by unfold Block.stop; omega) (by unfold Block.stop; omega)
    have hapart := h.apart hx hy
    unfold Block.stop at hyp hpy hapart
    have hstart : y.start = x.stop := by
      unfold Block.stop
      rcases hapart with rfl | hlt | hlt <;> omega
    exact hm x hx y hy hxf hyf hstart
  · rintro ⟨x, hx, hxf, hsize⟩
    exact freeRun_of_mem hx hxf hsize

/-- Where the used blocks are the same, the same is free. -/
theorem Tiles.freeAt_congr {p : Nat} (h : Tiles lo l hi) (h' : Tiles lo l' hi)
    (hused : ∀ z, z.free = false → (z ∈ l' ↔ z ∈ l)) : FreeAt l' p ↔ FreeAt l p := by
  by_cases hp : lo ≤ p ∧ p < hi
  · rw [h.freeAt_iff hp.1 hp.2, h'.freeAt_iff hp.1 hp.2]
    refine not_congr (exists_congr fun z => ?_)
    by_cases hzf : z.free = false
    · rw [hused z hzf]
    · exact iff_of_false (fun hz => hzf hz.2.1) fun hz => hzf hz.2.1
  · exact iff_of_false (fun hf => hp (hf.lt h')) fun hf => hp (hf.lt h)

theorem Tiles.freeRun_congr {n : Nat} (h : Tiles lo l hi) (h' : Tiles lo l' hi)
    (hused : ∀ z, z.free = false → (z ∈ l' ↔ z ∈ l)) : FreeRun l' n ↔ FreeRun l n :=
  exists_congr fun _ => forall_congr' fun _ => imp_congr_right fun _ => imp_congr_right fun _ =>
    h.freeAt_congr h' hused

/-! ## Free blocks stay apart -/

/-- No block becomes free. -/
theorem Merged.shrink (hm : Merged l) (hsub : ∀ y ∈ l', y.free = true → y ∈ l) : Merged l' :=
  fun y hy z hz hyf hzf => hm y (hsub y hy hyf) z (hsub z hz hzf) hyf hzf

/-- Part of a free block is taken. -/
theorem Merged.split {n : Nat} (hm : Merged l) (h : Tiles lo l hi) (hx : x ∈ l) (hxf : x.free = true)
    (hn : 0 < n) (hlt : n < x.size)
    (hr : Replaces l [x] [⟨x.start, n, false⟩, ⟨x.start + n, x.size - n, true⟩] l') : Merged l' := by
  have hfree : ∀ y ∈ l', y.free = true → y = ⟨x.start + n, x.size - n, true⟩ ∨ y ∈ l ∧ y ≠ x := by
    intro y hy hyf
    rcases (hr.mem y).mp hy with hy | ⟨hy, hyx⟩
    · rcases List.mem_pair.mp hy with rfl | rfl
      · cases hyf
      · exact .inl rfl
    · exact .inr ⟨hy, fun heq => hyx (List.mem_singleton.mpr heq)⟩
  intro y hy z hz hyf hzf heq
  rcases hfree y hy hyf with rfl | ⟨hyl, hyx⟩
  · rcases hfree z hz hzf with rfl | ⟨hzl, -⟩
    · simp only [Block.stop] at heq
      omega
    · refine hm x hx z hzl hxf hzf ?_
      simp only [Block.stop] at heq ⊢
      omega
  · rcases hfree z hz hzf with rfl | ⟨hzl, -⟩
    · have hapart := (h.apart hyl hx).resolve_left hyx
      simp only [Block.stop] at heq hapart
      omega
    · exact hm y hyl z hzl hyf hzf heq

/-- A block is given back whose neighbours are used. -/
theorem Merged.give (hm : Merged l) (h : Tiles lo l hi) (hx : x ∈ l)
    (habove : ∀ y ∈ l, y.start = x.stop → y.free = false)
    (hbelow : ∀ y ∈ l, y.stop = x.start → y.free = false)
    (hr : Replaces l [x] [{ x with free := true }] l') : Merged l' := by
  have hsize := (h.bounds hx).2.1
  have hfree : ∀ y ∈ l', y = { x with free := true } ∨ y ∈ l := fun y hy =>
    ((hr.mem y).mp hy).imp List.mem_singleton.mp And.left
  intro y hy z hz hyf hzf heq
  rcases hfree y hy with rfl | hyl
  · rcases hfree z hz with rfl | hzl
    · simp only [Block.stop] at heq
      omega
    · rw [habove z hzl heq] at hzf
      cases hzf
  · rcases hfree z hz with rfl | hzl
    · rw [hbelow y hyl heq.symm] at hyf
      cases hyf
    · exact hm y hyl z hzl hyf hzf heq

end BlockTiling
