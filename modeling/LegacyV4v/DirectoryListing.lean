import LegacyV4v.NumberParse
import LegacyV4v.ReplyBacking

/-! # The listing of a directory

`xenbus_ls` counts the nuls of the reply, allocates an array for that many strings and a `NULL`, and
copies the strings one by one.  If there is no memory for one of them, it is to free those that it has:
its loop starts at the one before and runs down to the array's second entry.  The first string is lost,
and if that is the one there is no memory for, the loop starts at 2^32 - 1.

Memory is a parameter: which calls of `XmAllocateMemory` are successful.  Blocks are named by the number
of the call that made them. -/
namespace V4v.Xenutil
open MachineWord

/-! ## The model -/

/-- The array, its size, what the blocks contain, the blocks that are in use, newest first, and the number
of calls of `XmAllocateMemory`. -/
structure LsMem where
  slots : Nat
  res : Nat → Option Nat
  string : Nat → List UInt8
  live : List Nat
  calls : Nat

namespace LsMem

/-- The next call of `XmAllocateMemory` is successful. -/
def allocate (m : LsMem) : LsMem := { m with live := m.calls :: m.live, calls := m.calls + 1 }

/-- `XmFreeMemory`; `none` for a block that is not in use. -/
def free (m : LsMem) (block : Nat) : Option LsMem :=
  if block ∈ m.live then some { m with live := m.live.erase block } else none

/-- `XmFreeMemory(res[y])`; `none` if that is no entry. -/
def freeEntry (m : LsMem) (y : UInt32) : Option LsMem :=
  if y.toNat < m.slots then
    match m.res y.toNat with
    | some block => m.free block
    | none => some m
  else none

/-- `res[y] = block`; `none` if that is no entry. -/
def store (m : LsMem) (y : UInt32) (block : Option Nat) : Option LsMem :=
  if y.toNat < m.slots then some { m with res := Function.update m.res y.toNat block } else none

/-- `strcpy(res[y], string)`. -/
def copy (m : LsMem) (block : Nat) (string : List UInt8) : LsMem :=
  { m with string := Function.update m.string block (string ++ [0]) }

end LsMem

/-- The size of an array of `nr_entries + 1` pointers, in pointers. -/
def arraySlots (wide : Bool) (nrEntries : UInt32) : Nat :=
  if wide = true then sizeT (8 * (nrEntries + 1).toNat) / 8 else u32 (4 * (nrEntries + 1).toNat) / 4

/-- How the copying ends: all strings are there, or there is no memory for one. -/
inductive LsCopied where
  | all (y : UInt32) (m : LsMem)
  | failed (y : UInt32) (m : LsMem)

/-- The strings are copied, from the offset `x` on; `none` if one is not terminated or the array is too
small. -/
def lsCopy (memory : Nat → Bool) (reply : List UInt8) (len x : Nat) (y : UInt32) (m : LsMem) :
    Option LsCopied :=
  if x < len then
    if 0 ∈ reply.drop x then
      let string := cString (reply.drop x)
      if memory m.calls = true then
        match m.allocate.store y (some m.calls) with
        | some m' => lsCopy memory reply len (x + string.length + 1) (y + 1) (m'.copy m.calls string)
        | none => none
      else (m.store y none).map fun m' => .failed y { m' with calls := m'.calls + 1 }
    else none
  else some (.all y m)
termination_by len - x

/-- `while (y)` of the clean-up. -/
def lsUndo (y : UInt32) (m : LsMem) : Option LsMem :=
  if y = 0 then some m else (m.freeEntry y).bind (lsUndo (y - 1))
termination_by y.toNat
decreasing_by
  have hpos : y.toNat ≠ 0 := fun h => ‹¬ y = 0› (UInt32.toNat_inj.mp h)
  have hle : (1 : UInt32) ≤ y := by rw [UInt32.le_iff_toNat_le]; exact Nat.one_le_iff_ne_zero.mpr hpos
  rw [UInt32.toNat_sub_of_le _ _ hle]
  exact Nat.sub_lt (Nat.pos_of_ne_zero hpos) Nat.one_pos

/-- What `xenbus_ls` returns, `*Res`, and the blocks that it has left in use. -/
structure LsResult where
  status : Ntstatus
  res : Option LsMem
  live : List Nat
  sys : TransactionSys

namespace TransactionSys

/-- `fail` in `xenbus_ls`. -/
def lsFail (s : TransactionSys) (xbt : XenbusTransactionT) (live : List Nat) : LsResult :=
  ⟨statusInsufficientResources, none, live, s.xenbusFailTransaction statusInsufficientResources xbt⟩

/-- `xenbus_ls` after the copying. -/
def lsFinish (s : TransactionSys) (xbt : XenbusTransactionT) : Option LsCopied → Option LsResult
  | none => none
  | some (.failed y m) => ((lsUndo (y - 1) m).bind fun m => m.free 0).map fun m => s.lsFail xbt m.live
  | some (.all y m) => (m.store y none).map fun m => ⟨statusSuccess, some m, m.live, s⟩

/-- `xenbus_ls` from the reply on.  The array is the first block, and has anything in it. -/
def lsReply (s : TransactionSys) (xbt : XenbusTransactionT) (wide : Bool) (memory : Nat → Bool)
    (garbage : Nat → Option Nat) (reply : List UInt8) (len : UInt32) : Option LsResult :=
  if len.toNat ≤ reply.length then
    let nrEntries : UInt32 := .ofNat ((reply.take len.toNat).count 0)
    if memory 0 = true then
      s.lsFinish xbt (lsCopy memory reply len.toNat 0 0
        ⟨arraySlots wide nrEntries, garbage, fun _ => [], [0], 1⟩)
    else some (s.lsFail xbt [])
  else none

/-- `xenbus_ls`, where the request ends with this status and this reply. -/
def xenbusLs (s : TransactionSys) (xbt : XenbusTransactionT) (wide : Bool) (memory : Nat → Bool)
    (garbage : Nat → Option Nat) (stat : Ntstatus) (reply : List UInt8) (len : UInt32) :
    Option LsResult :=
  if ntSuccess (s.transactionStatus xbt) = false then some ⟨s.transactionStatus xbt, none, [], s⟩
  else if ntSuccess stat = false then some ⟨stat, none, [], s.xenbusFailTransaction stat xbt⟩
  else s.lsReply xbt wide memory garbage reply len

end TransactionSys

/-! ## The copying -/

/-- The memory when `y` of the strings are there. -/
structure LsMem.Has (m : LsMem) (slots : Nat) (names : List (List UInt8)) (y : Nat) : Prop where
  slots_eq : m.slots = slots
  calls_eq : m.calls = y + 1
  live_eq : m.live = (List.range (y + 1)).reverse
  entry : ∀ i < y, m.res i = some (i + 1)
  content : ∀ i < y, ∃ name, names[i]? = some name ∧ m.string (i + 1) = name ++ [0]

variable {names : List (List UInt8)} {slots : Nat} {m m' : LsMem} {memory : Nat → Bool}
  {reply : List UInt8} {len : Nat}

theorem LsMem.store_eq_some {y : UInt32} {block : Option Nat} : m.store y block = some m' ↔
    y.toNat < m.slots ∧ { m with res := Function.update m.res y.toNat block } = m' := by
  unfold LsMem.store
  split <;> simp_all

/-- One more string is there. -/
theorem LsMem.Has.next {y : UInt32} (h : m.Has slots names y.toNat) {name : List UInt8}
    (hname : names[y.toNat]? = some name) (hstore : m.allocate.store y (some m.calls) = some m') :
    (m'.copy m.calls name).Has slots names (y.toNat + 1) := by
  obtain ⟨-, rfl⟩ := LsMem.store_eq_some.mp hstore
  refine ⟨h.slots_eq, congrArg (· + 1) h.calls_eq, ?_, fun i hi => ?_, fun i hi => ?_⟩
  · simp [LsMem.copy, LsMem.allocate, h.calls_eq, h.live_eq, List.range_succ]
  · show Function.update m.res y.toNat (some m.calls) i = some (i + 1)
    rcases Nat.lt_succ_iff_lt_or_eq.mp hi with hi | rfl
    · rw [Function.update_of_ne hi.ne, h.entry i hi]
    · rw [Function.update_self, h.calls_eq]
  · show ∃ name', names[i]? = some name' ∧
      Function.update m.string m.calls (name ++ [0]) (i + 1) = name' ++ [0]
    rcases Nat.lt_succ_iff_lt_or_eq.mp hi with hi | rfl
    · obtain ⟨name', hname', hstring⟩ := h.content i hi
      have hne : i + 1 ≠ m.calls := by rw [h.calls_eq]; omega
      exact ⟨name', hname', by rw [Function.update_of_ne hne, hstring]⟩
    · exact ⟨name, hname, by rw [h.calls_eq, Function.update_self]⟩

/-- How the copying of the strings can end, after those before `first`. -/
inductive CopyEnds (memory : Nat → Bool) (slots : Nat) (names : List (List UInt8)) (first : Nat) :
    LsCopied → Prop where
  | all {y : UInt32} {m : LsMem} (hy : y.toNat = names.length) (hm : m.Has slots names y.toNat)
      (hmemory : ∀ i, first ≤ i → i < names.length → memory (i + 1) = true) :
      CopyEnds memory slots names first (.all y m)
  | failed {y : UInt32} {m : LsMem} (hy : y.toNat < names.length) (hroom : y.toNat < slots)
      (hslots : m.slots = slots) (hlive : m.live = (List.range (y.toNat + 1)).reverse)
      (hentry : ∀ i < y.toNat, m.res i = some (i + 1)) (hmemory : memory (y.toNat + 1) = false) :
      CopyEnds memory slots names first (.failed y m)

/-- A string more or less before. -/
theorem CopyEnds.back {first : Nat} {out : LsCopied} (h : CopyEnds memory slots names (first + 1) out)
    (hmemory : memory (first + 1) = true) : CopyEnds memory slots names first out := by
  cases h with
  | all hy hm hrest =>
    refine .all hy hm fun i hi hlt => ?_
    rcases hi.eq_or_lt with rfl | hi
    · exact hmemory
    · exact hrest i hi hlt
  | failed hy hroom hslots hlive hentry hno => exact .failed hy hroom hslots hlive hentry hno

/-- There are no more strings than bytes. -/
theorem length_le_flatMap (names : List (List UInt8)) :
    names.length ≤ (names.flatMap (· ++ [0])).length := by
  induction names with
  | nil => exact le_refl 0
  | cons name names ih =>
    rw [List.flatMap_cons, List.length_append, List.length_append, List.length_cons,
      List.length_singleton]
    omega

/-- **The copying**, by induction on the strings that are still to be copied.  It comes to an end if the
array is large enough. -/
theorem lsCopy_ends {before rest : List (List UInt8)} {x : Nat} {y : UInt32}
    (hlen : len ≤ reply.length) (hsmall : len < 2 ^ 32)
    (hreply : reply.take len = (before ++ rest).flatMap (· ++ [0])) (hnames : ∀ name ∈ rest, 0 ∉ name)
    (hx : x = (before.flatMap (· ++ [0])).length) (hy : y.toNat = before.length)
    (hm : m.Has slots (before ++ rest) y.toNat) :
    (∀ out, lsCopy memory reply len x y m = some out →
        CopyEnds memory slots (before ++ rest) before.length out) ∧
      ((before ++ rest).length ≤ slots → lsCopy memory reply len x y m ≠ none) := by
  have hcount := congrArg List.length hreply
  rw [List.length_take, Nat.min_eq_left hlen, List.flatMap_append, List.length_append, ← hx] at hcount
  induction rest generalizing before x y m with
  | nil =>
    rw [List.flatMap_nil, List.length_nil] at hcount
    rw [lsCopy, if_neg (by omega)]
    refine ⟨?_, fun _ h => nomatch h⟩
    intro out h
    cases h
    exact .all (by rw [hy, List.append_nil]) hm fun i hi hlt => by
      rw [List.append_nil] at hlt
      omega
  | cons name rest ih =>
    rw [List.flatMap_cons, List.length_append, List.length_append, List.length_singleton] at hcount
    have hhere : reply.take len =
        before.flatMap (· ++ [0]) ++ (name ++ 0 :: rest.flatMap (· ++ [0])) := by
      rw [hreply, List.flatMap_append, List.flatMap_cons, List.append_assoc name, List.singleton_append]
    obtain ⟨hnul, hstring⟩ := cString_drop hhere (hnames name List.mem_cons_self)
    have hget : (before ++ name :: rest)[y.toNat]? = some name := by simp [hy]
    have hall : before ++ name :: rest = (before ++ [name]) ++ rest := by simp
    have hroom : (before ++ name :: rest).length ≤ slots → y.toNat < m.slots := fun h => by
      rw [List.length_append, List.length_cons] at h
      rw [hy, hm.slots_eq]
      omega
    rw [lsCopy, if_pos (by omega), hx, if_pos hnul, hstring, ← hx]
    dsimp only
    cases hmemory : memory m.calls with
    | true =>
      simp only [↓reduceIte]
      cases hstore : m.allocate.store y (some m.calls) with
      | none =>
        refine ⟨fun out h => (nomatch h), fun h => ?_⟩
        have hlt : y.toNat < m.allocate.slots := hroom h
        rw [LsMem.store, if_pos hlt] at hstore
        cases hstore
      | some m' =>
        have hnext := hm.next hget hstore
        have hsucc : (y + 1).toNat = y.toNat + 1 := by
          have hmany := length_le_flatMap before
          rw [UInt32.toNat_add]
          exact Nat.mod_eq_of_lt (by rw [hy, UInt32.toNat_one]; omega)
        have hlength : (before ++ [name]).length = before.length + 1 := by simp
        have hoffset : x + name.length + 1 = ((before ++ [name]).flatMap (· ++ [0])).length := by
          rw [List.flatMap_append, List.length_append, ← hx, List.flatMap_singleton, List.length_append,
            List.length_singleton, Nat.add_assoc]
        rw [← hsucc, hall] at hnext
        rw [hall] at hreply ⊢
        obtain ⟨hends, hsome⟩ := ih hreply (fun n hn => hnames n (List.mem_cons_of_mem _ hn))
          hoffset (by rw [hsucc, hy, hlength]) hnext (by omega)
        rw [hlength] at hends
        rw [hm.calls_eq, hy] at hmemory
        exact ⟨fun out h => (hends out h).back hmemory, hsome⟩
    | false =>
      simp only [Bool.false_eq_true, ↓reduceIte]
      refine ⟨fun out h => ?_, fun h => ?_⟩
      · obtain ⟨m', hstore, rfl⟩ := Option.map_eq_some_iff.mp h
        obtain ⟨hlt, rfl⟩ := LsMem.store_eq_some.mp hstore
        refine .failed (by rw [hy]; simp) (by rw [← hm.slots_eq]; exact hlt) hm.slots_eq hm.live_eq
          (fun i hi => ?_) (by rw [← hm.calls_eq]; exact hmemory)
        show Function.update m.res y.toNat none i = some (i + 1)
        rw [Function.update_of_ne hi.ne, hm.entry i hi]
      · rw [LsMem.store, if_pos (hroom h)]
        exact fun hnone => nomatch hnone

/-! ## The clean-up -/

/-- The first string stays in use. -/
theorem lsUndo_keeps {y : UInt32} (hentry : ∀ i, 0 < i → i ≤ y.toNat → m.res i ≠ some 1)
    (hlive : 1 ∈ m.live) (h : lsUndo y m = some m') : 1 ∈ m'.live := by
  induction hn : y.toNat generalizing y m with
  | zero =>
    have hzero : y = 0 := UInt32.toNat_inj.mp hn
    rw [lsUndo, if_pos hzero] at h
    cases h
    exact hlive
  | succ n ih =>
    have hne : y ≠ 0 := fun h => by rw [h] at hn; cases hn
    rw [lsUndo, if_neg hne] at h
    obtain ⟨m₁, hfree, hrest⟩ := Option.bind_eq_some_iff.mp h
    have hprev : (y - 1).toNat = n := by
      rw [UInt32.toNat_sub_of_le _ _ (by rw [UInt32.le_iff_toNat_le, hn]; exact Nat.le_add_left 1 n), hn]
      rfl
    have hkept : m₁.res = m.res ∧ 1 ∈ m₁.live := by
      rw [LsMem.freeEntry] at hfree
      split at hfree
      · split at hfree
        · next block hblock =>
          rw [LsMem.free] at hfree
          split at hfree
          · cases hfree
            have hother : block ≠ 1 := fun h => hentry y.toNat (by omega) le_rfl (by rw [hblock, h])
            exact ⟨rfl, (List.mem_erase_of_ne hother.symm).mpr hlive⟩
          · cases hfree
        · cases hfree
          exact ⟨rfl, hlive⟩
      · cases hfree
    exact ih (fun i hi hle => by rw [hkept.1]; exact hentry i hi (by omega)) hkept.2 hrest hprev

/-! ## The listing -/

/-- What is at `(*Res)[i]`. -/
def LsMem.read (m : LsMem) (i : Nat) : Option (List UInt8) := (m.res i).map m.string

/-- **The directory is listed**: the call is successful and has exactly these strings and a `NULL`, in
blocks of its own, or there was no memory, the transaction is marked, and no block is left. -/
def Listed (s : TransactionSys) (xbt : XenbusTransactionT) (names : List (List UInt8)) :
    Option LsResult → Prop
  | some ⟨status, some m, live, sys⟩ =>
    status = statusSuccess ∧ sys = s ∧ live = (List.range (names.length + 1)).reverse ∧
      (∀ i ≤ names.length, m.read i = (names[i]?).map (· ++ [0])) ∧
      names.length < m.slots ∧ ∀ i < names.length, m.res i = some (i + 1)
  | some ⟨status, none, live, sys⟩ =>
    status = statusInsufficientResources ∧ live = [] ∧
      sys = s.xenbusFailTransaction statusInsufficientResources xbt
  | none => False

/-- The array has room for this many strings and the `NULL`. -/
def ArrayFits (wide : Bool) (n : Nat) : Prop := n + 1 < 2 ^ 32 ∧ (wide = false → 4 * (n + 1) < 2 ^ 32)

theorem arrayFits_iff (wide : Bool) {n : Nat} (hn : n < 2 ^ 32) :
    ArrayFits wide n ↔ n < arraySlots wide (.ofNat n) := by
  have hcount : (UInt32.ofNat n + 1).toNat = (n + 1) % 2 ^ 32 := by
    rw [UInt32.toNat_add, UInt32.toNat_ofNat_of_lt' hn, UInt32.toNat_one]
  rw [ArrayFits, arraySlots, hcount]
  cases wide with
  | true =>
    simp only [↓reduceIte, sizeT, Bool.true_eq_false, false_implies, and_true]
    omega
  | false =>
    simp only [Bool.false_eq_true, ↓reduceIte, u32, true_implies]
    omega

theorem arraySlots_lt (wide : Bool) (nrEntries : UInt32) : arraySlots wide nrEntries ≤ 2 ^ 32 - 1 := by
  have hlt := (nrEntries + 1).toNat_lt
  unfold arraySlots sizeT u32
  split <;> omega

/-- Each name has one nul. -/
theorem count_names {names : List (List UInt8)} (hnames : ∀ name ∈ names, 0 ∉ name) :
    (names.flatMap (· ++ [0])).count 0 = names.length := by
  induction names with
  | nil => rfl
  | cons name names ih =>
    rw [List.flatMap_cons, List.count_append, List.count_append,
      List.count_eq_zero_of_not_mem (hnames name List.mem_cons_self),
      ih fun n hn => hnames n (List.mem_cons_of_mem _ hn), List.length_cons, List.count_singleton_self]
    omega

namespace TransactionSys
variable {s : TransactionSys} {xbt : XenbusTransactionT} {wide : Bool} {garbage : Nat → Option Nat}
  {stat : Ntstatus}

/-- The strings are there, and then the `NULL`. -/
theorem listed_all {y : UInt32} (hy : y.toNat = names.length) (hm : m.Has slots names y.toNat) :
    Listed s xbt names (s.lsFinish xbt (some (.all y m))) ↔ names.length < slots := by
  rw [lsFinish, LsMem.store, hy, ← hm.slots_eq]
  split
  · next hroom =>
    rw [hy] at hm
    refine iff_of_true ⟨rfl, rfl, hm.live_eq, fun i hi => ?_, hroom, fun i hi => ?_⟩ hroom
    · show (Function.update m.res names.length none i).map m.string = _
      rcases hi.eq_or_lt with rfl | hi
      · simp
      · obtain ⟨name, hname, hstring⟩ := hm.content i hi
        rw [Function.update_of_ne hi.ne, hm.entry i hi, hname]
        exact congrArg some hstring
    · show Function.update m.res names.length none i = some (i + 1)
      rw [Function.update_of_ne hi.ne, hm.entry i hi]
  · next hfull => exact iff_of_false id hfull

/-- Where there is no memory for a string, a block is left or the clean-up leaves the array. -/
theorem not_listed_failed {y : UInt32} (hslots : m.slots = slots) (hmax : slots ≤ 2 ^ 32 - 1)
    (hlive : m.live = (List.range (y.toNat + 1)).reverse) (hentry : ∀ i < y.toNat, m.res i = some (i + 1)) :
    ¬ Listed s xbt names (s.lsFinish xbt (some (.failed y m))) := by
  intro h
  rw [lsFinish] at h
  cases hundo : lsUndo (y - 1) m with
  | none =>
    rw [hundo] at h
    exact h
  | some m₁ =>
    by_cases hzero : y = 0
    · -- the first entry that is freed is 2^32 - 1
      have hlast : (y - 1).toNat = 2 ^ 32 - 1 := by rw [hzero]; rfl
      have hne : y - 1 ≠ 0 := fun h => by rw [h] at hlast; cases hlast
      rw [lsUndo, if_neg hne, LsMem.freeEntry, if_neg (by omega)] at hundo
      cases hundo
    · -- the first string is not freed
      have hpos : 0 < y.toNat := Nat.pos_of_ne_zero fun h => hzero (UInt32.toNat_inj.mp h)
      have hprev : (y - 1).toNat = y.toNat - 1 := by
        rw [UInt32.toNat_sub_of_le _ _ (by rw [UInt32.le_iff_toNat_le]; exact hpos)]
        rfl
      have hfirst : 1 ∈ m₁.live := by
        refine lsUndo_keeps (fun i hi hle heq => ?_) ?_ hundo
        · rw [hentry i (by omega)] at heq
          injection heq with heq
          omega
        · rw [hlive]
          simpa using hpos
      rw [hundo, Option.bind_some, LsMem.free] at h
      split at h
      · have hleft : 1 ∈ m₁.live.erase 0 := (List.mem_erase_of_ne (by decide)).mpr hfirst
        obtain ⟨-, hnone, -⟩ := h
        have hnone : m₁.live.erase 0 = [] := hnone
        rw [hnone] at hleft
        exact absurd hleft List.not_mem_nil
      · exact h

/-- **A directory is listed** just if there is no memory for the array, or memory for the array and all the
strings, and the size of the array does not wrap. -/
theorem xenbusLs_listed_iff {len : UInt32} (hread : s.readable xbt stat = true)
    (hlen : len.toNat ≤ reply.length) (hreply : reply.take len.toNat = names.flatMap (· ++ [0]))
    (hnames : ∀ name ∈ names, 0 ∉ name) :
    Listed s xbt names (s.xenbusLs xbt wide memory garbage stat reply len) ↔
      memory 0 = false ∨
        (∀ i < names.length, memory (i + 1) = true) ∧ ArrayFits wide names.length := by
  obtain ⟨hstatus, hstat⟩ := Bool.and_eq_true_iff.mp hread
  have hcount : (reply.take len.toNat).count 0 = names.length := by rw [hreply, count_names hnames]
  have hmany : names.length < 2 ^ 32 := by
    have hle := length_le_flatMap names
    rw [← hreply, List.length_take] at hle
    have hlt := len.toNat_lt
    omega
  have hfits := arrayFits_iff wide hmany
  have hmax := arraySlots_lt wide (.ofNat names.length)
  simp only [xenbusLs, hstatus, hstat, Bool.true_eq_false, ↓reduceIte, lsReply, if_pos hlen, hcount]
  cases harray : memory 0 with
  | false => exact iff_of_true ⟨rfl, rfl, rfl⟩ (.inl rfl)
  | true =>
    simp only [↓reduceIte, Bool.true_eq_false, false_or]
    let start : LsMem := ⟨arraySlots wide (.ofNat names.length), garbage, fun _ => [], [0], 1⟩
    have hstart : start.Has (arraySlots wide (.ofNat names.length)) names 0 :=
      ⟨rfl, rfl, rfl, fun i hi => absurd hi (Nat.not_lt_zero i), fun i hi => absurd hi (Nat.not_lt_zero i)⟩
    have hcopy : (∀ out, lsCopy memory reply len.toNat 0 0 start = some out →
          CopyEnds memory (arraySlots wide (.ofNat names.length)) names 0 out) ∧
        (names.length ≤ arraySlots wide (.ofNat names.length) →
          lsCopy memory reply len.toNat 0 0 start ≠ none) :=
      @lsCopy_ends _ _ _ _ _ [] names 0 0 hlen len.toNat_lt hreply hnames rfl rfl hstart
    cases hout : lsCopy memory reply len.toNat 0 0 start with
    | none =>
      refine iff_of_false id ?_
      rintro ⟨-, hroom⟩
      exact hcopy.2 (hfits.mp hroom).le hout
    | some out =>
      cases hcopy.1 out hout with
      | all hy hm hmemory =>
        rw [listed_all hy hm, ← hfits]
        exact ⟨fun h => ⟨fun i hi => hmemory i (Nat.zero_le i) hi, h⟩, fun h => h.2⟩
      | failed hy hroom hslots hlive hentry hmemory =>
        refine iff_of_false (not_listed_failed hslots hmax hlive hentry) ?_
        rintro ⟨hall, -⟩
        rw [hall _ hy] at hmemory
        cases hmemory

/-- No transaction is open. -/
def noTransactions : TransactionSys := ⟨fun _ => ⟨0, 0, .absent, 0, none⟩, [], []⟩

/-- A directory with `a` and an empty name is listed if there is memory. -/
theorem xenbusLs_listed_two : Listed noTransactions .nil [[97], []]
    (noTransactions.xenbusLs .nil false (fun _ => true) (fun _ => none) statusSuccess [97, 0, 0] 3) := by
  refine (xenbusLs_listed_iff rfl (by decide) (by decide) (by decide)).mpr (.inr ⟨fun _ _ => rfl, ?_⟩)
  exact ⟨by decide, fun _ => by decide⟩

/-- There is no memory for the second string: the first is lost. -/
theorem xenbusLs_leaks : ¬ ∀ (s : TransactionSys) (xbt : XenbusTransactionT) (wide : Bool)
    (memory : Nat → Bool) (garbage : Nat → Option Nat) (reply : List UInt8) (len : UInt32)
    (names : List (List UInt8)), s.readable xbt statusSuccess = true → len.toNat ≤ reply.length →
    reply.take len.toNat = names.flatMap (· ++ [0]) → (∀ name ∈ names, 0 ∉ name) →
    Listed s xbt names (s.xenbusLs xbt wide memory garbage statusSuccess reply len) := by
  intro h
  have hlisted := h noTransactions .nil false (· != 2) (fun _ => none) [97, 0, 98, 0] 4 [[97], [98]] rfl
    (by decide) (by decide) (by decide)
  have hcopy : lsCopy (· != 2) [97, 0, 98, 0] 4 0 0 ⟨3, fun _ => none, fun _ => [], [0], 1⟩ =
      some (.failed 1 ⟨3, Function.update (Function.update (fun _ => none) 0 (some 1)) 1 none,
        Function.update (fun _ => []) 1 [97, 0], [1, 0], 3⟩) := by
    rw [lsCopy, if_pos (by decide), if_pos (by decide)]
    show lsCopy (· != 2) [97, 0, 98, 0] 4 2 1 ⟨3, Function.update (fun _ => none) 0 (some 1),
      Function.update (fun _ => []) 1 [97, 0], [1, 0], 2⟩ = _
    rw [lsCopy]
    rfl
  have hrun : noTransactions.xenbusLs .nil false (· != 2) (fun _ => none) statusSuccess [97, 0, 98, 0] 4 =
      noTransactions.lsFinish .nil
        (lsCopy (· != 2) [97, 0, 98, 0] 4 0 0 ⟨3, fun _ => none, fun _ => [], [0], 1⟩) := rfl
  rw [hrun, hcopy, lsFinish] at hlisted
  rw [lsUndo] at hlisted
  exact absurd hlisted.2.1 (by decide)

end TransactionSys
end V4v.Xenutil
