import LegacyV4v.GuardedRun
import LegacyV4v.MachineWord
import Mathlib.Algebra.Group.Int.Defs
import Mathlib.Data.List.Count

/-! # The IO hole

The pages of the PCI device's memory are handed out one by one, as page frames, or in runs, as mapped
memory.  A bitmap says which are in use; it is an array of 64 bits, for the 45 pages that the hole is said
to have.  Its size is set to the larger of 45 and the number of pages of the hole: with a smaller hole,
pages behind it are handed out, and with one of more than 64 pages bits behind the array are used.

The kernel's `RtlFindClearBitsAndSet` is a parameter. -/
namespace V4v.Xenutil
open GuardedRun MachineWord

/-! ## The model -/

/-- `IO_HOLE_MAX_PAGES`. -/
def ioHoleMaxPages : Nat := 45

/-- The bits of `io_hole_bitmap`. -/
def ioHoleBitmapBits : Nat := 32 * ((ioHoleMaxPages + 31) / 32)

/-- What a caller has, and, for the record, which page it begins with: a page frame, or memory of some
length, with its virtual and its physical address. -/
inductive IoAllocation where
  | page (pageNr pfn : Nat)
  | memory (pageNr va pa : Nat) (nrBytes : UInt32)
  deriving DecidableEq, Repr

/-- The hole: where it starts, the bitmap and its size; and, for the record, what is not released yet, and
one more than the last bit of the bitmap that has been looked at or written. -/
structure IoHole where
  ioHoleStart : UInt64
  ioHoleVaStart : Nat
  sizeOfBitMap : Nat
  bitmap : Nat → Bool
  live : List IoAllocation
  accessed : Nat

/-- The calls; what is released is live. -/
inductive IoCall where
  | allocIoPfn
  | allocIoMemory (nrBytes : UInt32)
  | release (a : IoAllocation)
  deriving DecidableEq, Repr

/-- What is in a word of 64 bits, or of 32. -/
def word (wide : Bool) (z : Int) : Nat := (z % 2 ^ (if wide = true then 64 else 32)).toNat

/-- `QuadPart`, which is signed. -/
def quadPart (x : UInt64) : Int := if x.toNat < 2 ^ 63 then x.toNat else (x.toNat : Int) - 2 ^ 64

/-- `nr_bytes` as a number of pages, rounded up. -/
def nrBytesPages (nrBytes : UInt32) : Nat :=
  let nrBytes := nrBytes + 4095
  ((nrBytes - nrBytes % 4096) / 4096).toNat

namespace IoHole

/-- `__XenevtchnInitIoHole`. -/
def initIoHole (base : UInt64) (baseVa : Nat) (nbytes : UInt32) : IoHole where
  ioHoleStart := base
  ioHoleVaStart := baseVa
  sizeOfBitMap := max ioHoleMaxPages (nbytes / 4096).toNat
  bitmap := fun _ => false
  live := []
  accessed := 0

/-- Bits up to this one are used. -/
def access (s : IoHole) (n : Nat) : IoHole := { s with accessed := max s.accessed n }

def setBits (s : IoHole) (start n : Nat) : IoHole :=
  { s.access (start + n) with bitmap := fun i => s.bitmap i || decide (start ≤ i ∧ i < start + n) }

/-- `RtlClearBits`. -/
def clearBits (s : IoHole) (start n : Nat) : IoHole :=
  { s.access (start + n) with bitmap := fun i => s.bitmap i && !decide (start ≤ i ∧ i < start + n) }

/-- `RtlAreBitsSet`, which says no where there are no bits. -/
def areBitsSet (s : IoHole) (start n : Nat) : Bool :=
  0 < n && (List.range n).all fun i => s.bitmap (start + i)

def handOut (s : IoHole) (a : IoAllocation) : IoHole := { s with live := a :: s.live }

def takeBack (s : IoHole) (a : IoAllocation) : IoHole := { s with live := s.live.erase a }

/-- The page frame of a page. -/
def pfn (s : IoHole) (wide : Bool) (pageNr : Nat) : Nat := word wide (pageNr + quadPart s.ioHoleStart / 4096)

section
variable (wide : Bool) (find : Nat → (Nat → Bool) → Nat → Option Nat)

/-- `XenevtchnAllocIoPFN`. -/
def xenevtchnAllocIoPfn (s : IoHole) : IoHole :=
  match find s.sizeOfBitMap s.bitmap 1 with
  | none => s.access s.sizeOfBitMap
  | some pageNr => (s.setBits pageNr 1).handOut (.page pageNr (s.pfn wide pageNr))

/-- `XenevtchnAllocIoMemory`. -/
def xenevtchnAllocIoMemory (s : IoHole) (nrBytes : UInt32) : IoHole :=
  match find s.sizeOfBitMap s.bitmap (nrBytesPages nrBytes) with
  | none => s.access s.sizeOfBitMap
  | some pageNr =>
    (s.setBits pageNr (nrBytesPages nrBytes)).handOut
      (.memory pageNr (word wide (s.ioHoleVaStart + u32 (pageNr * 4096)))
        (word true (s.ioHoleStart.toNat + u32 (pageNr * 4096))) nrBytes)

/-- `XenevtchnReleaseIoPFN`. -/
def xenevtchnReleaseIoPfn (s : IoHole) (pfn : Nat) : IoHole :=
  s.clearBits (u32 (pfn - quadPart s.ioHoleStart / 4096)) 1

/-- `XenevtchnReleaseIoMemory`; `none` if an assertion fails. -/
def xenevtchnReleaseIoMemory (s : IoHole) (va : Nat) (nrBytes : UInt32) : Option IoHole :=
  let pageNr := u32 (word wide (va - s.ioHoleVaStart) / 4096 : Nat)
  if va % 4096 = 0 ∧ s.areBitsSet pageNr (nrBytesPages nrBytes) = true then
    some (s.clearBits pageNr (nrBytesPages nrBytes))
  else none

/-- One call, under the lock. -/
def step (s : IoHole) : IoCall → Option IoHole
  | .allocIoPfn => some (s.xenevtchnAllocIoPfn wide find)
  | .allocIoMemory nrBytes => some (s.xenevtchnAllocIoMemory wide find nrBytes)
  | .release a =>
    if a ∈ s.live then
      match a with
      | .page _ pfn => some ((s.xenevtchnReleaseIoPfn pfn).takeBack a)
      | .memory _ va _ nrBytes =>
        (s.xenevtchnReleaseIoMemory wide va nrBytes).map fun s => s.takeBack a
    else none

end

end IoHole

/-! ## Safety -/

namespace IoAllocation

/-- The first page of the hole that the caller has. -/
def first : IoAllocation → Nat
  | page pageNr _ => pageNr
  | memory pageNr _ _ _ => pageNr

/-- How many pages it has asked for. -/
def pages : IoAllocation → Nat
  | page _ _ => 1
  | memory _ _ _ nrBytes => (nrBytes.toNat + 4095) / 4096

/-- Where they are. -/
def address : IoAllocation → Nat
  | page _ pfn => 4096 * pfn
  | memory _ _ pa _ => pa

/-- This address is in one of them. -/
def Covers (a : IoAllocation) (x : Nat) : Prop := a.address ≤ x ∧ x < a.address + 4096 * a.pages

/-- This is one of the pages. -/
def Has (a : IoAllocation) (i : Nat) : Prop := a.first ≤ i ∧ i < a.first + a.pages

end IoAllocation

/-- **The hole is safe**: what is handed out is in the hole, no two callers have the same memory, and the
bitmap is used within its array. -/
structure IoHole.Safe (base : UInt64) (nbytes : UInt32) (s : IoHole) : Prop where
  inside : ∀ a ∈ s.live, base.toNat ≤ a.address ∧
    a.address + 4096 * a.pages ≤ base.toNat + nbytes.toNat
  disjoint : s.live.Pairwise fun a b => ∀ x, a.Covers x → ¬ b.Covers x
  bounded : s.accessed ≤ ioHoleBitmapBits

/-- What is assumed of `RtlFindClearBitsAndSet`: it finds clear bits below the size, if there are any. -/
structure FindsClearBits (find : Nat → (Nat → Bool) → Nat → Option Nat) : Prop where
  sound : ∀ size bits n p, find size bits n = some p →
    p + n ≤ size ∧ ∀ i, p ≤ i → i < p + n → bits i = false
  complete : ∀ size bits n, find size bits n = none →
    ¬ ∃ p, p + n ≤ size ∧ ∀ i, p ≤ i → i < p + n → bits i = false

/-- A call whose number of bytes does not wrap when it is rounded up. -/
def Modest (_ : IoHole) : IoCall → Prop
  | .allocIoMemory nrBytes => nrBytes.toNat + 4095 < 2 ^ 32
  | _ => True

/-- The hole fits its bitmap: it starts at a page, has 45 to 64 of them, and their numbers fit. -/
structure HoleFits (wide : Bool) (base : UInt64) (nbytes : UInt32) : Prop where
  aligned : base.toNat % 4096 = 0
  enough : 45 ≤ nbytes.toNat / 4096
  few : nbytes.toNat / 4096 ≤ 64
  numbers : if wide = true then base.toNat < 2 ^ 63
    else base.toNat / 4096 + nbytes.toNat / 4096 ≤ 2 ^ 32

/-! ## What is live -/

/-- What a live allocation is, from its first page. -/
def IoHole.Names (wide : Bool) (s : IoHole) : IoAllocation → Prop
  | .page pageNr pfn => pfn = s.pfn wide pageNr
  | .memory pageNr va pa nrBytes =>
    va = word wide (s.ioHoleVaStart + u32 (pageNr * 4096)) ∧
      pa = word true (s.ioHoleStart.toNat + u32 (pageNr * 4096)) ∧ nrBytes.toNat + 4095 < 2 ^ 32

/-- **The invariant**: the bits that are set are the pages of what is live, and each page has one owner. -/
structure HoleInv (wide : Bool) (s : IoHole) : Prop where
  small : s.sizeOfBitMap < 2 ^ 20
  owner : ∀ i, s.bitmap i = true ↔ ∃ a ∈ s.live, a.Has i
  below : ∀ a ∈ s.live, a.first + a.pages ≤ s.sizeOfBitMap
  apart : s.live.Pairwise fun a b => ∀ i, a.Has i → ¬ b.Has i
  names : ∀ a ∈ s.live, s.Names wide a
  bounded : s.accessed ≤ s.sizeOfBitMap
  reached : ∀ a ∈ s.live, a.first + a.pages ≤ s.accessed

section Invariant
variable {wide : Bool} {find : Nat → (Nat → Bool) → Nat → Option Nat} {s s' : IoHole}
  {base : UInt64} {baseVa : Nat} {nbytes : UInt32}

theorem nrBytesPages_eq {nrBytes : UInt32} (h : nrBytes.toNat + 4095 < 2 ^ 32) :
    nrBytesPages nrBytes = (nrBytes.toNat + 4095) / 4096 := by
  have hadd : (nrBytes + 4095).toNat = nrBytes.toNat + 4095 := by
    rw [UInt32.toNat_add]
    exact Nat.mod_eq_of_lt h
  have hle : (nrBytes + 4095) % 4096 ≤ nrBytes + 4095 := by
    rw [UInt32.le_iff_toNat_le, UInt32.toNat_mod]
    exact Nat.mod_le _ _
  rw [nrBytesPages, UInt32.toNat_div, UInt32.toNat_sub_of_le _ _ hle, UInt32.toNat_mod, hadd]
  simp only [UInt32.reduceToNat]
  omega

theorem holeInv_init : HoleInv wide (.initIoHole base baseVa nbytes) where
  small := by
    have hlt := nbytes.toNat_lt
    show max 45 (nbytes / 4096).toNat < 2 ^ 20
    rw [UInt32.toNat_div]
    simp only [UInt32.reduceToNat]
    omega
  owner := fun i => by simp [IoHole.initIoHole]
  below := fun a ha => absurd ha List.not_mem_nil
  apart := .nil
  names := fun a ha => absurd ha List.not_mem_nil
  bounded := Nat.zero_le _
  reached := fun a ha => absurd ha List.not_mem_nil

theorem HoleInv.access (h : HoleInv wide s) {n : Nat} (hn : n ≤ s.sizeOfBitMap) :
    HoleInv wide (s.access n) :=
  ⟨h.small, h.owner, h.below, h.apart, h.names, max_le h.bounded hn,
    fun a ha => (h.reached a ha).trans (le_max_left _ _)⟩

/-- Clear bits are given to a new owner. -/
theorem HoleInv.handOut (h : HoleInv wide s) {a : IoAllocation} (hbelow : a.first + a.pages ≤ s.sizeOfBitMap)
    (hclear : ∀ i, a.first ≤ i → i < a.first + a.pages → s.bitmap i = false) (hnames : s.Names wide a) :
    HoleInv wide ((s.setBits a.first a.pages).handOut a) where
  small := h.small
  owner := fun i => by
    have hbit : ((s.setBits a.first a.pages).handOut a).bitmap i = true ↔ s.bitmap i = true ∨ a.Has i := by
      simp [IoHole.setBits, IoHole.handOut, IoAllocation.Has]
    rw [hbit, h.owner]
    constructor
    · rintro (⟨b, hb, hi⟩ | hi)
      · exact ⟨b, List.mem_cons_of_mem _ hb, hi⟩
      · exact ⟨a, List.mem_cons_self, hi⟩
    · rintro ⟨b, hb, hi⟩
      rcases List.mem_cons.mp hb with rfl | hb
      · exact .inr hi
      · exact .inl ⟨b, hb, hi⟩
  below := fun b hb => by
    rcases List.mem_cons.mp hb with rfl | hb
    · exact hbelow
    · exact h.below b hb
  apart := .cons (fun b hb i hi hbi => by
    have hset := (h.owner i).mpr ⟨b, hb, hbi⟩
    rw [hclear i hi.1 hi.2] at hset
    cases hset) h.apart
  names := fun b hb => by
    rcases List.mem_cons.mp hb with rfl | hb
    · exact hnames
    · exact h.names b hb
  bounded := max_le h.bounded hbelow
  reached := fun b hb => by
    rcases List.mem_cons.mp hb with rfl | hb
    · exact le_max_right _ _
    · exact (h.reached b hb).trans (le_max_left _ _)

/-- The bits of what is released are cleared. -/
theorem HoleInv.takeBack (h : HoleInv wide s) {a : IoAllocation} (ha : a ∈ s.live) :
    HoleInv wide ((s.clearBits a.first a.pages).takeBack a) where
  small := h.small
  owner := fun i => by
    have hbit : ((s.clearBits a.first a.pages).takeBack a).bitmap i = true ↔
        s.bitmap i = true ∧ ¬ a.Has i := by
      simp only [IoHole.clearBits, IoHole.takeBack, IoAllocation.Has, Bool.and_eq_true, Bool.not_eq_true',
        decide_eq_false_iff_not]
    rw [hbit, h.owner]
    have hperm := (List.perm_cons_erase ha).pairwise h.apart fun hbc i hc hb => hbc i hb hc
    have hothers := (List.pairwise_cons.mp hperm).1
    constructor
    · rintro ⟨⟨b, hb, hi⟩, hnot⟩
      have hne : b ≠ a := fun heq => hnot (heq ▸ hi)
      exact ⟨b, (List.mem_erase_of_ne hne).mpr hb, hi⟩
    · rintro ⟨b, hb, hi⟩
      exact ⟨⟨b, List.mem_of_mem_erase hb, hi⟩, fun hai => hothers b hb i hai hi⟩
  below := fun b hb => h.below b (List.mem_of_mem_erase hb)
  apart := h.apart.sublist List.erase_sublist
  names := fun b hb => h.names b (List.mem_of_mem_erase hb)
  bounded := max_le h.bounded (h.below a ha)
  reached := fun b hb => (h.reached b (List.mem_of_mem_erase hb)).trans (le_max_left _ _)

/-- A page is found again from its frame. -/
theorem pageNr_of_pfn (wide : Bool) (s : IoHole) {pageNr : Nat} (hsmall : pageNr < 2 ^ 20) :
    u32 (s.pfn wide pageNr - quadPart s.ioHoleStart / 4096) = pageNr := by
  rw [IoHole.pfn, word, u32]
  generalize quadPart s.ioHoleStart / 4096 = q
  split <;> omega

/-- A run is found again from its address. -/
theorem pageNr_of_va (wide : Bool) (s : IoHole) {pageNr : Nat} (hsmall : pageNr < 2 ^ 20) :
    u32 ((word wide ((word wide (s.ioHoleVaStart + u32 (pageNr * 4096)) : Nat) - s.ioHoleVaStart) / 4096 :
      Nat) : Int) = pageNr := by
  have hu : u32 ((pageNr : Int) * 4096) = pageNr * 4096 := by
    unfold u32
    omega
  rw [hu, word, word, u32]
  split <;> omega

/-- **A call keeps the invariant.** -/
theorem HoleInv.step (h : HoleInv wide s) (hfind : FindsClearBits find) {c : IoCall} (hc : Modest s c)
    (hs : s.step wide find c = some s') : HoleInv wide s' := by
  cases c with
  | allocIoPfn =>
    injection hs with hs
    rw [← hs, IoHole.xenevtchnAllocIoPfn]
    cases hfound : find s.sizeOfBitMap s.bitmap 1 with
    | none => exact h.access (le_refl _)
    | some pageNr =>
      obtain ⟨hle, hclear⟩ := hfind.sound _ _ _ _ hfound
      exact h.handOut (a := .page pageNr (s.pfn wide pageNr)) hle hclear rfl
  | allocIoMemory nrBytes =>
    have hmodest : nrBytes.toNat + 4095 < 2 ^ 32 := hc
    injection hs with hs
    rw [← hs, IoHole.xenevtchnAllocIoMemory]
    cases hfound : find s.sizeOfBitMap s.bitmap (nrBytesPages nrBytes) with
    | none => exact h.access (le_refl _)
    | some pageNr =>
      obtain ⟨hle, hclear⟩ := hfind.sound _ _ _ _ hfound
      rw [nrBytesPages_eq hmodest] at hle hclear ⊢
      exact h.handOut (a := .memory pageNr _ _ nrBytes) hle hclear ⟨rfl, rfl, hmodest⟩
  | release a =>
    rw [IoHole.step.eq_def] at hs
    dsimp only at hs
    split at hs
    · next ha =>
      have hnames := h.names a ha
      have hbelow := h.below a ha
      have hback := h.takeBack ha
      have hsmall := h.small
      cases a with
      | page pageNr pfn =>
        have hpfn : pfn = s.pfn wide pageNr := hnames
        injection hs with hs
        rw [← hs, IoHole.xenevtchnReleaseIoPfn, hpfn]
        rw [hpfn] at hback
        have hpage : u32 (s.pfn wide pageNr - quadPart s.ioHoleStart / 4096) = pageNr :=
          pageNr_of_pfn wide s (by simp only [IoAllocation.first, IoAllocation.pages] at hbelow; omega)
        rw [hpage]
        exact hback
      | memory pageNr va pa nrBytes =>
        obtain ⟨hva, -, hmodest⟩ := hnames
        obtain ⟨s₁, hrelease, rfl⟩ := Option.map_eq_some_iff.mp hs
        have hpage : u32 ((word wide (va - s.ioHoleVaStart) / 4096 : Nat) : Int) = pageNr := by
          rw [hva]
          exact pageNr_of_va wide s (by simp only [IoAllocation.first, IoAllocation.pages] at hbelow; omega)
        rw [IoHole.xenevtchnReleaseIoMemory] at hrelease
        simp only [hpage, nrBytesPages_eq hmodest] at hrelease
        split at hrelease
        · injection hrelease with hrelease
          rw [← hrelease]
          exact hback
        · cases hrelease
    · cases hs

/-- Where the hole is does not change. -/
theorem step_place {c : IoCall} (hs : s.step wide find c = some s') :
    s'.ioHoleStart = s.ioHoleStart ∧ s'.sizeOfBitMap = s.sizeOfBitMap := by
  cases c with
  | allocIoPfn =>
    injection hs with hs
    rw [← hs, IoHole.xenevtchnAllocIoPfn]
    split <;> exact ⟨rfl, rfl⟩
  | allocIoMemory nrBytes =>
    injection hs with hs
    rw [← hs, IoHole.xenevtchnAllocIoMemory]
    split <;> exact ⟨rfl, rfl⟩
  | release a =>
    rw [IoHole.step.eq_def] at hs
    dsimp only at hs
    split at hs
    · cases a with
      | page pageNr pfn =>
        injection hs with hs
        rw [← hs]
        exact ⟨rfl, rfl⟩
      | memory pageNr va pa nrBytes =>
        obtain ⟨s₁, hrelease, rfl⟩ := Option.map_eq_some_iff.mp hs
        rw [IoHole.xenevtchnReleaseIoMemory] at hrelease
        split at hrelease
        · injection hrelease with hrelease
          rw [← hrelease]
          exact ⟨rfl, rfl⟩
        · cases hrelease
    · cases hs

/-! ## Where the pages are -/

/-- The states that modest calls lead to from an initialisation. -/
abbrev HoleRun (wide : Bool) (find : Nat → (Nat → Bool) → Nat → Option Nat) (base : UInt64) (baseVa : Nat)
    (nbytes : UInt32) : IoHole → Prop :=
  Reachable (fun s => s = .initIoHole base baseVa nbytes) (fun s c s' => s.step wide find c = some s') Modest

/-- The pages that the hole is taken to have. -/
def holePages (nbytes : UInt32) : Nat := max 45 (nbytes.toNat / 4096)

theorem HoleRun.inv (h : HoleRun wide find base baseVa nbytes s) (hfind : FindsClearBits find) :
    HoleInv wide s ∧ s.ioHoleStart = base ∧ s.sizeOfBitMap = holePages nbytes := by
  refine Reachable.invariant (P := fun s => HoleInv wide s ∧ s.ioHoleStart = base ∧
    s.sizeOfBitMap = holePages nbytes) h ?_ ?_
  · rintro s rfl
    refine ⟨holeInv_init, rfl, ?_⟩
    show max 45 (nbytes / 4096).toNat = _
    rw [UInt32.toNat_div]
    rfl
  · rintro s c s' ⟨hinv, hbase, hsize⟩ hc hs
    obtain ⟨hbase', hsize'⟩ := step_place hs
    exact ⟨hinv.step hfind hc hs, hbase'.trans hbase, hsize'.trans hsize⟩

/-- In a hole that fits, each allocation is where its pages are. -/
theorem address_eq (hfits : HoleFits wide base nbytes) (hbase : s.ioHoleStart = base) {a : IoAllocation}
    (hnames : s.Names wide a) (hbelow : a.first + a.pages ≤ nbytes.toNat / 4096) :
    a.address = base.toNat + 4096 * a.first := by
  have haligned := hfits.aligned
  have hfew := hfits.few
  have hnumbers := hfits.numbers
  cases a with
  | page pageNr pfn =>
    have hpfn : pfn = s.pfn wide pageNr := hnames
    simp only [IoAllocation.first, IoAllocation.pages, IoAllocation.address] at hbelow ⊢
    rw [hpfn, IoHole.pfn, word, quadPart, hbase]
    split at hnumbers
    · next hwide =>
      rw [if_pos hwide, if_pos hnumbers]
      omega
    · next hwide =>
      rw [if_neg hwide, if_pos (by omega)]
      omega
  | memory pageNr va pa nrBytes =>
    obtain ⟨-, hpa, -⟩ := hnames
    simp only [IoAllocation.first, IoAllocation.pages, IoAllocation.address] at hbelow ⊢
    have hbound : base.toNat < 2 ^ 63 := by
      split at hnumbers <;> omega
    rw [hpa, word, u32, hbase]
    simp only [↓reduceIte]
    omega

/-- **A hole that fits is safe.** -/
theorem HoleInv.safe (h : HoleInv wide s) (hfits : HoleFits wide base nbytes) (hbase : s.ioHoleStart = base)
    (hsize : s.sizeOfBitMap = holePages nbytes) : s.Safe base nbytes := by
  have hpages : holePages nbytes = nbytes.toNat / 4096 := max_eq_right hfits.enough
  have hbelow : ∀ a ∈ s.live, a.first + a.pages ≤ nbytes.toNat / 4096 := fun a ha => by
    rw [← hpages, ← hsize]
    exact h.below a ha
  have haddress : ∀ a ∈ s.live, a.address = base.toNat + 4096 * a.first := fun a ha =>
    address_eq hfits hbase (h.names a ha) (hbelow a ha)
  constructor
  · intro a ha
    have hle := hbelow a ha
    rw [haddress a ha]
    omega
  · refine h.apart.imp_of_mem fun {a b} ha hb hdisjoint x hax hbx => ?_
    rw [IoAllocation.Covers, haddress a ha] at hax
    rw [IoAllocation.Covers, haddress b hb] at hbx
    refine hdisjoint ((x - base.toNat) / 4096) ?_ ?_
    · simp only [IoAllocation.Has]
      omega
    · simp only [IoAllocation.Has]
      omega
  · have hfew := hfits.few
    have hle := h.bounded
    rw [hsize, hpages] at hle
    exact hle.trans hfew

/-! ## A full hole -/

/-- Only pages have been handed out, one by one. -/
def IoHole.AllPages (wide : Bool) (s : IoHole) : Prop := ∀ a ∈ s.live, ∃ p, a = .page p (s.pfn wide p)

/-- The bits that are clear. -/
def IoHole.clear (s : IoHole) : List Nat := (List.range s.sizeOfBitMap).filter fun i => !s.bitmap i

/-- While a bit is clear, a page can be handed out. -/
theorem exists_allocIoPfn (wide : Bool) (hfind : FindsClearBits find) {i : Nat} (hi : i ∈ s.clear) :
    ∃ p, p ∈ s.clear ∧ s.xenevtchnAllocIoPfn wide find =
      (s.setBits p 1).handOut (.page p (s.pfn wide p)) := by
  obtain ⟨hlt, hclear⟩ := List.mem_filter.mp hi
  rw [IoHole.xenevtchnAllocIoPfn]
  cases hfound : find s.sizeOfBitMap s.bitmap 1 with
  | none =>
    refine absurd ⟨i, List.mem_range.mp hlt, fun j hj hji => ?_⟩ (hfind.complete _ _ _ hfound)
    have heq : j = i := by omega
    rw [heq]
    simpa using hclear
  | some p =>
    obtain ⟨hle, hbits⟩ := hfind.sound _ _ _ _ hfound
    refine ⟨p, List.mem_filter.mpr ⟨List.mem_range.mpr hle, ?_⟩, rfl⟩
    simpa using hbits p (le_refl p) (Nat.lt_succ_self p)

/-- **All pages can be handed out**, by induction on the bits that are clear. -/
theorem exists_full (hfind : FindsClearBits find) (h : HoleRun wide find base baseVa nbytes s)
    (hall : s.AllPages wide) : ∃ s', HoleRun wide find base baseVa nbytes s' ∧ s'.AllPages wide ∧
      s'.clear = [] := by
  induction hn : s.clear.length using Nat.strong_induction_on generalizing s with
  | _ n ih =>
    by_cases hempty : s.clear = []
    · exact ⟨s, h, hall, hempty⟩
    · obtain ⟨i, hi⟩ := List.exists_mem_of_ne_nil _ hempty
      obtain ⟨p, hp, hstep⟩ := exists_allocIoPfn wide hfind hi
      have hs : s.step wide find .allocIoPfn = some (s.xenevtchnAllocIoPfn wide find) := rfl
      rw [hstep] at hs
      refine ih _ ?_ (Reachable.next (i := .allocIoPfn) h trivial hs) ?_ rfl
      · rw [← hn]
        have hsub : ((s.setBits p 1).handOut (.page p (s.pfn wide p))).clear =
            s.clear.filter fun j => !decide (p ≤ j ∧ j < p + 1) := by
          rw [IoHole.clear, IoHole.clear, List.filter_filter]
          refine List.filter_congr fun j _ => ?_
          simp only [IoHole.setBits, IoHole.handOut, Bool.not_or, Bool.and_comm]
        rw [hsub]
        refine List.length_filter_lt_length_iff_exists.mpr ⟨p, hp, ?_⟩
        simp
      · intro a ha
        rcases List.mem_cons.mp ha with rfl | ha
        · exact ⟨p, rfl⟩
        · exact hall a ha

/-- In a full hole there is each page. -/
theorem page_mem_of_full (hinv : HoleInv wide s) (hall : s.AllPages wide) (hfull : s.clear = []) {p : Nat}
    (hp : p < s.sizeOfBitMap) : .page p (s.pfn wide p) ∈ s.live := by
  have hset : s.bitmap p = true := by
    by_contra hclear
    have hmem : p ∈ s.clear := List.mem_filter.mpr ⟨List.mem_range.mpr hp, by simpa using hclear⟩
    rw [hfull] at hmem
    exact absurd hmem List.not_mem_nil
  obtain ⟨a, ha, hpa⟩ := (hinv.owner p).mp hset
  obtain ⟨q, rfl⟩ := hall a ha
  have heq : q = p := by
    simp only [IoAllocation.Has, IoAllocation.first, IoAllocation.pages] at hpa
    omega
  exact heq ▸ ha

/-- A hole whose first pages are all inside, and not too many for the bitmap, fits. -/
theorem fits_of_inside (hfew : holePages nbytes ≤ 64)
    (hinside : ∀ p < holePages nbytes, base.toNat ≤ 4096 * word wide (p + quadPart base / 4096) ∧
      4096 * word wide (p + quadPart base / 4096) + 4096 ≤ base.toNat + nbytes.toNat) :
    HoleFits wide base nbytes := by
  have hlt := base.toNat_lt
  have hmany : 45 ≤ holePages nbytes := le_max_left _ _
  have hpages : nbytes.toNat / 4096 ≤ holePages nbytes := le_max_right _ _
  have hfirst := hinside 0 (by omega)
  have hlater := hinside 44 (by omega)
  have hlast := hinside (holePages nbytes - 1) (by omega)
  generalize holePages nbytes = pages at *
  have hsmall : base.toNat < 2 ^ 63 := by
    by_contra hlarge
    rw [word, quadPart, if_neg hlarge] at hfirst
    split at hfirst <;> omega
  rw [quadPart, if_pos hsmall] at hfirst hlater hlast
  unfold word at hfirst hlater hlast
  cases wide with
  | true =>
    simp only [↓reduceIte] at hfirst hlater hlast
    refine ⟨by omega, by omega, by omega, ?_⟩
    simp only [↓reduceIte]
    exact hsmall
  | false =>
    simp only [Bool.false_eq_true, ↓reduceIte] at hfirst hlater hlast
    refine ⟨by omega, by omega, by omega, ?_⟩
    simp only [Bool.false_eq_true, ↓reduceIte]
    omega

/-- **The hole is safe in every run** just if it fits. -/
theorem hole_safe_iff (wide : Bool) (find : Nat → (Nat → Bool) → Nat → Option Nat)
    (hfind : FindsClearBits find) (base : UInt64) (baseVa : Nat) (nbytes : UInt32) :
    (∀ s, HoleRun wide find base baseVa nbytes s → s.Safe base nbytes) ↔ HoleFits wide base nbytes := by
  constructor
  · intro hsafe
    obtain ⟨s, hrun, hall, hfull⟩ := exists_full hfind
      (.start rfl : HoleRun wide find base baseVa nbytes _) fun a ha => absurd ha List.not_mem_nil
    obtain ⟨hinv, hbase, hsize⟩ := hrun.inv hfind
    have hsafe := hsafe s hrun
    have hmem : ∀ p < holePages nbytes, .page p (s.pfn wide p) ∈ s.live := fun p hp =>
      page_mem_of_full hinv hall hfull (by rw [hsize]; exact hp)
    refine fits_of_inside ?_ fun p hp => ?_
    · have hpos : 0 < holePages nbytes := lt_of_lt_of_le (by decide) (le_max_left 45 _)
      have hreached : holePages nbytes - 1 + 1 ≤ s.accessed := hinv.reached _ (hmem _ (Nat.sub_lt hpos Nat.one_pos))
      have hbounded : s.accessed ≤ 64 := hsafe.bounded
      omega
    · rw [← hbase]
      have hinside := hsafe.inside _ (hmem p hp)
      rw [← hbase] at hinside
      exact hinside
  · intro hfits s hrun
    obtain ⟨hinv, hbase, hsize⟩ := hrun.inv hfind
    exact hinv.safe hfits hbase hsize

/-- A call that is not modest is given what no hole has. -/
theorem not_safe_of_not_modest (hfind : FindsClearBits find) {nrBytes : UInt32}
    (h : ¬ Modest s (.allocIoMemory nrBytes)) : ¬ (s.xenevtchnAllocIoMemory wide find nrBytes).Safe base nbytes := by
  have hlarge : 2 ^ 32 ≤ nrBytes.toNat + 4095 := not_lt.mp h
  have hlt := nrBytes.toNat_lt
  have hadd : (nrBytes + 4095).toNat < 4096 := by
    rw [UInt32.toNat_add]
    simp only [UInt32.reduceToNat]
    omega
  have hnone : nrBytesPages nrBytes = 0 := by
    rw [nrBytesPages, UInt32.toNat_div, UInt32.toNat_sub, UInt32.toNat_mod]
    simp only [UInt32.reduceToNat]
    omega
  rw [IoHole.xenevtchnAllocIoMemory, hnone]
  cases hfound : find s.sizeOfBitMap s.bitmap 0 with
  | none =>
    exact absurd ⟨0, Nat.zero_le _, fun i hi hlt => absurd hlt (Nat.not_lt.mpr hi)⟩
      (hfind.complete _ _ _ hfound)
  | some p =>
    intro hsafe
    obtain ⟨hbase, hend⟩ := hsafe.inside _ List.mem_cons_self
    have hmax := nbytes.toNat_lt
    simp only [IoAllocation.pages] at hend
    omega

end Invariant

/-! ## A kernel -/

/-- The first clear bits. -/
def firstClearBits (size : Nat) (bits : Nat → Bool) (n : Nat) : Option Nat :=
  (List.range (size + 1)).find? fun p => decide (p + n ≤ size) && (List.range n).all fun i => !bits (p + i)

theorem clear_iff (bits : Nat → Bool) (p n : Nat) :
    ((List.range n).all fun i => !bits (p + i)) = true ↔ ∀ i, p ≤ i → i < p + n → bits i = false := by
  rw [List.all_eq_true]
  constructor
  · intro h i hp hi
    have hbit := h (i - p) (List.mem_range.mpr (by omega))
    rw [Nat.add_sub_cancel' hp] at hbit
    simpa using hbit
  · intro h i hi
    have hlt := List.mem_range.mp hi
    rw [h (p + i) (Nat.le_add_right p i) (by omega)]
    rfl

theorem firstClearBits_finds : FindsClearBits firstClearBits where
  sound := fun size bits n p h => by
    have hfound := List.find?_some (p := fun p => decide (p + n ≤ size) &&
      (List.range n).all fun i => !bits (p + i)) h
    obtain ⟨hle, hclear⟩ := Bool.and_eq_true_iff.mp hfound
    exact ⟨of_decide_eq_true hle, (clear_iff bits p n).mp hclear⟩
  complete := fun size bits n h => by
    rintro ⟨p, hle, hclear⟩
    have hno := List.find?_eq_none.mp h p (List.mem_range.mpr (by omega))
    refine hno (Bool.and_eq_true_iff.mpr ⟨decide_eq_true hle, (clear_iff bits p n).mpr hclear⟩)

/-- A hole of 45 pages is safe: a page of it is handed out. -/
theorem hole_safe_full : ((IoHole.initIoHole 0xf2000000 0xd0000000 0x2d000).xenevtchnAllocIoPfn true
    firstClearBits).Safe 0xf2000000 0x2d000 :=
  (hole_safe_iff true firstClearBits firstClearBits_finds 0xf2000000 0xd0000000 0x2d000).mpr
    ⟨by decide, by decide, by decide, by decide⟩ _ (.next (i := .allocIoPfn) (.start rfl) trivial rfl)

/-- From a hole of one page, the second page that is handed out is behind it. -/
theorem small_hole_unsafe : ¬ ∀ (wide : Bool) (find : Nat → (Nat → Bool) → Nat → Option Nat) (base : UInt64)
    (baseVa : Nat) (nbytes : UInt32) (s : IoHole), FindsClearBits find →
    Reachable (fun s => s = .initIoHole base baseVa nbytes) (fun s c s' => s.step wide find c = some s')
      (fun _ _ => True) s → s.Safe base nbytes := by
  intro h
  have htwo : Reachable (fun s => s = .initIoHole 0xf2000000 0xd0000000 0x1000)
      (fun s c s' => s.step true firstClearBits c = some s') (fun _ _ => True)
      (((IoHole.initIoHole 0xf2000000 0xd0000000 0x1000).xenevtchnAllocIoPfn true
        firstClearBits).xenevtchnAllocIoPfn true firstClearBits) :=
    .next (i := .allocIoPfn) (.next (i := .allocIoPfn) (.start rfl) trivial rfl) trivial rfl
  have hsafe := h true firstClearBits 0xf2000000 0xd0000000 0x1000 _ firstClearBits_finds htwo
  have hinside := hsafe.inside (.page 1 0xf2001) (by decide)
  exact absurd hinside.2 (by decide)

end V4v.Xenutil
