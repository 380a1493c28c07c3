import LegacyV4v.Viptables
import Mathlib.Data.List.Basic

/-! # The numbers of the firewall rules

`v4v_viptables_add`, `v4v_viptables_del` and `v4v_viptables_list` each walk `viprules` by
counting a number down, the first two from the list head and with an `int32_t`, the last
from the first rule and with a `uint32_t`.  A negative `int32_t` is counted down as well:
it wraps around and comes to 0 in the end, if the list is that long.  So the three agree
on what rule number `n` is as long as an `int32_t` can number the rules. -/
namespace V4v
open MachineWord

/-! ## The walks -/

/-- How many steps an `int32_t` takes to be counted down to 0. -/
def countdown (position : Int) : Nat := (position % 4294967296).toNat

theorem countdown_pos {position : Int} (h : 0 ≤ position) (h' : position < 2147483648) :
    countdown position = position.toNat := by
  unfold countdown
  omega

theorem countdown_neg {position : Int} (h : -2147483648 ≤ position) (h' : position < 0) :
    2147483648 ≤ countdown position := by
  unfold countdown
  omega

theorem i32_range (z : Int) : -2147483648 ≤ i32 z ∧ i32 z < 2147483648 := by
  unfold i32
  omega

theorem countdown_i32 (z : Int) : countdown (i32 z) = countdown z := by
  unfold countdown i32
  omega

/-- One step of a walk. -/
theorem countdown_step {position : Int} (hrange : -2147483648 ≤ position ∧ position < 2147483648)
    (h : position ≠ 0) : countdown position = countdown (i32 (position - 1)) + 1 := by
  rw [countdown_i32]
  unfold countdown
  omega

/-- **Where a rule is inserted**, for every list and every `int32_t`. -/
theorem insertAt_eq (new : Rule) (l : List Rule) {position : Int}
    (hrange : -2147483648 ≤ position ∧ position < 2147483648) :
    insertAt new l position = l.insertIdx (min (countdown position) l.length) new := by
  induction l generalizing position with
  | nil => simp [insertAt]
  | cons x l ih =>
    rw [insertAt]
    split
    · rename_i hzero
      simp [hzero, countdown]
    · rename_i hzero
      rw [ih (i32_range _), countdown_step hrange hzero, List.length_cons, Nat.succ_min_succ,
        List.insertIdx_succ_cons]

/-- **Which rule is removed**, for every list and every `int32_t`. -/
theorem removeAt_eq (l : List Rule) {position : Int}
    (hrange : -2147483648 ≤ position ∧ position < 2147483648) :
    removeAt l position =
      if position = 0 then l else l.eraseIdx (countdown position - 1) := by
  induction l generalizing position with
  | nil => simp [removeAt]
  | cons x l ih =>
    rw [removeAt]
    split
    · rfl
    · rename_i hzero
      have hstep := countdown_step hrange hzero
      split
      · rename_i hone
        have hcount : countdown position = 1 := by rw [hstep, hone]; rfl
        rw [hcount, Nat.sub_self, List.eraseIdx_zero, List.tail_cons]
      · rename_i hone
        have hnext := countdown_step (i32_range (position - 1)) hone
        rw [ih (i32_range _), if_neg hone, hstep, hnext, Nat.add_sub_cancel, Nat.add_sub_cancel,
          List.eraseIdx_cons_succ]

/-! ## Rule numbers -/

section
variable (L : List Rule) (new : Rule) {position : Int}

theorem viptablesAdd_eq :
    viptablesAdd L true (some new) position =
      some (0, L.insertIdx (min (countdown (position - 1)) L.length) new) := by
  have hwalk := insertAt_eq new L (i32_range (position - 1))
  rw [countdown_i32] at hwalk
  simp only [viptablesAdd, hwalk, Bool.not_true, Bool.false_eq_true, if_false]

/-- A positive position is the rule's number, or else the rule is the last one. -/
theorem viptablesAdd_number (h : 1 ≤ position) (h' : position < 2147483648) :
    viptablesAdd L true (some new) position =
      some (0, L.insertIdx (min position.toNat (L.length + 1) - 1) new) := by
  have hmin : min (countdown (position - 1)) L.length =
      min position.toNat (L.length + 1) - 1 := by
    rw [countdown_pos (by omega) (by omega)]
    omega
  rw [viptablesAdd_eq, hmin]

/-- Any other position puts the rule last, unless the walk gets to the wrap-around. -/
theorem viptablesAdd_last (h : -2147483648 ≤ position) (h' : position ≤ 0)
    (hlen : L.length < 2147483648) :
    viptablesAdd L true (some new) position = some (0, L ++ [new]) := by
  have hmin : min (countdown (position - 1)) L.length = L.length := by
    unfold countdown
    omega
  rw [viptablesAdd_eq, hmin, List.insertIdx_length_self]

variable (alloc : Bool) (rule : Option (Option Rule))

theorem viptablesDel_number (h : 1 ≤ position) (h' : position < 2147483648) :
    viptablesDel L alloc rule position = some (0, L.eraseIdx (position.toNat - 1)) := by
  have hwalk := removeAt_eq L (⟨by omega, h'⟩ : -2147483648 ≤ position ∧ position < 2147483648)
  rw [if_neg (by omega), countdown_pos (by omega) h'] at hwalk
  simp only [viptablesDel, hwalk, if_pos (show position ≠ -1 by omega)]

theorem viptablesDel_none (h : -2147483648 ≤ position) (h' : position ≤ 0) (hne : position ≠ -1)
    (hlen : L.length < 2147483648) : viptablesDel L alloc rule position = some (0, L) := by
  have hwalk := removeAt_eq L (⟨h, by omega⟩ : -2147483648 ≤ position ∧ position < 2147483648)
  have herase : position ≠ 0 → L.eraseIdx (countdown position - 1) = L := by
    intro hzero
    have hcount := countdown_neg h (by omega)
    exact List.eraseIdx_of_length_le (by omega)
  have hrules : removeAt L position = L := by
    rw [hwalk]
    split
    · rfl
    · exact herase (by assumption)
  simp only [viptablesDel, hrules, if_pos hne]

/-! ## Listing -/

theorem viptablesList_page {offset : UInt32} (h : offset.toNat < L.length ∨ offset.toNat = 0) :
    viptablesList L (some offset) true = (0, some ((L.drop offset.toNat).take 8)) := by
  have hreach : ¬ (offset.toNat ≠ 0 ∧ L.length ≤ offset.toNat) := by omega
  simp only [viptablesList, if_neg hreach, viptablesListSize, Bool.not_true, Bool.false_eq_true,
    if_false]

/-- The first `n` pages. -/
def pages (n : Nat) : List Rule :=
  (List.range n).flatMap fun i =>
    ((viptablesList L (some (UInt32.ofNat (8 * i))) true).2).getD []

theorem pages_eq_take {n : Nat} (h : 8 * n ≤ L.length + 7) (hlen : L.length ≤ 4294967296) :
    pages L n = L.take (8 * n) := by
  induction n with
  | zero => rfl
  | succ n ih =>
    have hoffset : (UInt32.ofNat (8 * n)).toNat = 8 * n := toNat_ofNat_of_lt (by omega)
    have hpage := @viptablesList_page L (UInt32.ofNat (8 * n)) (by omega)
    rw [hoffset] at hpage
    rw [pages, List.range_succ, List.flatMap_append, List.flatMap_singleton, hpage]
    rw [Nat.mul_succ, List.take_add, ← ih (by omega)]
    rfl

/-- The pages at 0, 8, 16, … up to the last rule. -/
theorem pages_eq (hlen : L.length ≤ 4294967296) : pages L ((L.length + 7) / 8) = L := by
  rw [pages_eq_take L (by omega) hlen]
  exact List.take_of_length_le (by omega)

end

/-- **The rules are numbered coherently** as far as an `int32_t` numbers them: adding at a
number, removing by number and listing from an offset mean the same rules, so an added rule
is removed again by its number and the pages of the listing make up the list. -/
theorem viptables_numbering (L : List Rule) (new : Rule) (alloc : Bool)
    (rule : Option (Option Rule)) (position : Int) (h : -2147483648 ≤ position)
    (h' : position < 2147483648) :
    (1 ≤ position → viptablesAdd L true (some new) position =
        some (0, L.insertIdx (min position.toNat (L.length + 1) - 1) new)) ∧
      (position ≤ 0 → L.length < 2147483648 →
        viptablesAdd L true (some new) position = some (0, L ++ [new])) ∧
      (1 ≤ position → position ≤ L.length →
        viptablesDel L alloc rule position = some (0, L.eraseIdx (position.toNat - 1))) ∧
      (position = 0 ∨ L.length < position ∨ position < -1 ∧ L.length < 2147483648 →
        viptablesDel L alloc rule position = some (0, L)) ∧
      (∀ offset : UInt32, offset.toNat < L.length → ∃ page : List Rule,
        viptablesList L (some offset) true = (0, some page) ∧
        page = (L.take (min (offset.toNat + 8) L.length)).drop offset.toNat) ∧
      (1 ≤ position → position ≤ L.length + 1 →
        ((viptablesAdd L true (some new) position).bind fun p =>
          viptablesDel p.2 alloc rule position) = some (0, L)) ∧
      (L.length ≤ 4294967296 → pages L ((L.length + 7) / 8) = L) := by
  refine ⟨fun hpos => viptablesAdd_number L new hpos h', fun hpos hlen =>
    viptablesAdd_last L new h hpos hlen, fun hpos _ => viptablesDel_number L alloc rule hpos h',
    ?_, ?_, ?_, pages_eq L⟩
  · rintro (rfl | hpos | ⟨hneg, hlen⟩)
    · simp [viptablesDel, removeAt_eq L ⟨h, h'⟩]
    · rw [viptablesDel_number L alloc rule (by omega) h', List.eraseIdx_of_length_le (by omega)]
    · exact viptablesDel_none L alloc rule h (by omega) (by omega) hlen
  · intro offset hoffset
    refine ⟨_, viptablesList_page L (Or.inl hoffset), ?_⟩
    rw [List.drop_take]
    apply List.take_eq_take_iff.mpr
    rw [List.length_drop]
    omega
  · intro hpos hle
    have hmin : min position.toNat (L.length + 1) = position.toNat := by omega
    rw [viptablesAdd_number L new hpos h', Option.bind_some, hmin,
      viptablesDel_number _ alloc rule hpos h', List.eraseIdx_insertIdx_self]

/-- A rule about messages from domain 1 to domain 2. -/
def oneToTwo (accept : UInt32) : Rule := ⟨⟨1, 1⟩, ⟨2, 2⟩, accept⟩

theorem viptables_numbering_two :
    viptablesAdd [oneToTwo 0, oneToTwo 1] true (some (oneToTwo 2)) 2 =
        some (0, [oneToTwo 0, oneToTwo 2, oneToTwo 1]) ∧
      pages [oneToTwo 0, oneToTwo 1] 1 = [oneToTwo 0, oneToTwo 1] := by
  obtain ⟨hadd, _, _, _, _, _, hpages⟩ := viptables_numbering [oneToTwo 0, oneToTwo 1] (oneToTwo 2)
    true none 2 (by decide) (by decide)
  exact ⟨hadd (by decide), hpages (by decide)⟩

/-- A rule that is inserted in front of a different last one is not the last. -/
theorem insertIdx_replicate_ne {a b : Rule} (hne : a ≠ b) (n : Nat) :
    (List.replicate (n + 1) a).insertIdx n b ≠ List.replicate (n + 1) a ++ [b] := by
  intro heq
  have hlast : ((List.replicate (n + 1) a).insertIdx n b)[n + 1]? =
      (List.replicate (n + 1) a ++ [b])[n + 1]? := by rw [heq]
  rw [List.getElem?_insertIdx_of_gt (Nat.lt_succ_self n),
    List.getElem?_append_right (by rw [List.length_replicate]), List.length_replicate,
    Nat.sub_self, List.getElem?_replicate] at hlast
  simp [hne] at hlast

/-- With 2^31 rules the smallest position is not the last place: it is counted down by
2^31 - 1 after it has wrapped around, which is one rule short of the end. -/
theorem viptablesAdd_wraps :
    viptablesAdd (List.replicate 2147483648 (oneToTwo 0)) true (some (oneToTwo 1)) (-2147483648) ≠
      some (0, List.replicate 2147483648 (oneToTwo 0) ++ [oneToTwo 1]) := by
  intro heq
  have hcount : min (countdown (-2147483648 - 1)) 2147483648 = 2147483647 := by decide
  rw [viptablesAdd_eq, List.length_replicate, hcount, Option.some.injEq, Prod.mk.injEq] at heq
  exact insertIdx_replicate_ne (by decide) 2147483647 heq.2

end V4v
