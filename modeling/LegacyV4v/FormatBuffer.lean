import LegacyV4v.AustereFormat
import LegacyV4v.MachineWord

/-! # Formatting in austere mode

`_Xmvsnprintf` counts the room that is left, and says that there was not enough by returning the size of
the buffer; `Xmvasprintf` then tries a buffer that is twice as large.  Both results go through `int`.
What is written to a buffer is what is written to any larger one, as far as it has room, so that it is
enough to know what is written to an unbounded one.

A format that ends in a `%` is cut off there; one that ends in the digits or the `l` of a directive is
not, and the loop goes past its end. -/
namespace V4v.Xenutil
open MachineWord

/-! ## The model -/

/-- What `va_arg` finds. -/
inductive FormatArg where
  | ulong (v : UInt32)
  | ulongPtr (v : UInt64)
  | ull (v : UInt64)
  | str (s : Option (List UInt8))
  deriving DecidableEq, Repr

/-- The cases of `switch(*fmt)`. -/
inductive Conversion where
  | d
  | u
  | x
  | p
  | i64x
  | s
  | other
  deriving DecidableEq, Repr

/-- What one round of the loop does with the format: it copies a character, it expands a directive, or it
finds that there is none and goes past the end. -/
inductive FormatItem where
  | char (c : UInt8)
  | conv (k : Conversion)
  | cutOff
  deriving DecidableEq, Repr

/-- Field lengths and `l`s are stripped out. -/
def stripFields (fmt : List UInt8) : List UInt8 :=
  let fmt := fmt.dropWhile fun c => 48 ≤ c ∧ c ≤ 57
  if fmt.head? = some 108 then
    if fmt.tail.head? = some 108 then fmt.tail.tail else fmt.tail
  else fmt

theorem stripFields_length (fmt : List UInt8) : (stripFields fmt).length ≤ fmt.length := by
  have hdrop : (fmt.dropWhile fun c => 48 ≤ c ∧ c ≤ 57).length ≤ fmt.length :=
    (List.dropWhile_suffix _).length_le
  unfold stripFields
  dsimp only
  split
  · split
    · rw [List.length_tail, List.length_tail]
      omega
    · rw [List.length_tail]
      omega
  · exact hdrop

/-- The directive with this character. -/
def conversion (c : UInt8) : Conversion :=
  if c = 100 then .d else if c = 117 then .u else if c = 120 then .x else if c = 112 then .p
  else if c = 115 then .s else .other

/-- The rounds of the loop, for the characters of the format. -/
def formatItems : List UInt8 → List FormatItem
  | [] => []
  | c :: fmt =>
    if c ≠ 37 then .char c :: formatItems fmt
    else if fmt = [] then []
    else
      match _h : stripFields fmt with
      | [] => [.cutOff]
      | k :: rest =>
        if k = 73 ∧ rest.take 3 = [54, 52, 120] then .conv .i64x :: formatItems (rest.drop 3)
        else .conv (conversion k) :: formatItems rest
termination_by fmt => fmt.length
decreasing_by
  · exact Nat.lt_succ_self _
  · have hle := stripFields_length fmt
    rw [_h] at hle
    simp only [List.length_drop, List.length_cons] at hle ⊢
    omega
  · have hle := stripFields_length fmt
    rw [_h] at hle
    simp only [List.length_cons] at hle ⊢
    omega

/-- A directive that is not cut off. -/
theorem formatItems_directive {fmt rest : List UInt8} {k : UInt8} (h : stripFields fmt = k :: rest) :
    formatItems (37 :: fmt) =
      if k = 73 ∧ rest.take 3 = [54, 52, 120] then .conv .i64x :: formatItems (rest.drop 3)
      else .conv (conversion k) :: formatItems rest := by
  have hne : fmt ≠ [] := by
    rintro rfl
    cases h
  rw [formatItems, if_neg (not_not_intro rfl), if_neg hne]
  split
  · next hnil => rw [hnil] at h; cases h
  · next k' rest' hcons =>
    rw [hcons] at h
    injection h with hk hrest
    rw [hk, hrest]

/-- `"(null)"`. -/
def nullText : List UInt8 := [40, 110, 117, 108, 108, 41]

section Model
variable (wide : Bool) (outside : Int → UInt8) (memory : Nat → Bool)

/-- What a directive writes where there is room for `n` characters, and the arguments that are left; `none`
if the next argument has another type. -/
def Conversion.write (n : Nat) : Conversion → List FormatArg → Option (List UInt8 × List FormatArg)
  | .d, .ulong v :: args => some (litoa outside v.toInt32 .ten n, args)
  | .u, .ulong v :: args => some (lutoa outside v .ten n, args)
  | .x, .ulong v :: args => some (lutoa outside v .sixteen n, args)
  | .p, .ulongPtr v :: args => some (lutoaX outside v n, args)
  | .i64x, .ull v :: args => some (lutoaX outside v n, args)
  | .s, .str text :: args => some ((text.getD nullText).take n, args)
  | .other, args => some ([], args)
  | _, _ => none

/-- The loop of `_Xmvsnprintf`: what it writes where there is room for `n` characters, and the room that is
left; `none` if it goes past the end of the format. -/
def formatLoop : List FormatItem → List FormatArg → Nat → Option (List UInt8 × Nat)
  | [], _, n => some ([], n)
  | item :: items, args, n =>
    if n = 0 then some ([], n)
    else
      match item with
      | .char c => (formatLoop items args (n - 1)).map fun out => (c :: out.1, out.2)
      | .conv k =>
        match k.write outside n args with
        | some (field, args) =>
          (formatLoop items args (n - field.length)).map fun out => (field ++ out.1, out.2)
        | none => none
      | .cutOff => none

/-- What has been written, with the nul, and what is returned. -/
structure Printed where
  written : List UInt8
  ret : Nat
  deriving DecidableEq, Repr

/-- An `int` that is returned as a `size_t`. -/
def intToSize (z : Int) : Nat := if wide = true then sizeT z else u32 z

/-- `_Xmvsnprintf`. -/
def xmvsnprintf (fmt : List UInt8) (args : List FormatArg) (bufsz : Nat) : Option Printed :=
  if bufsz = 0 then some ⟨[], 0⟩
  else (formatLoop outside (formatItems fmt) args (bufsz - 1)).map fun out =>
    ⟨out.1 ++ [0], if out.2 = 0 then intToSize wide (i32 bufsz)
      else intToSize wide (i32 (i32 ((bufsz - out.2 : Nat) : Int) - 1))⟩

/-- `work_size` when it has been doubled `k` times. -/
def workSize (k : Nat) : Nat := 32 * 2 ^ k % 2 ^ (if wide = true then 64 else 32)

theorem workSize_eq_zero {wide : Bool} {k : Nat} (hk : 64 ≤ k) : workSize wide k = 0 := by
  refine Nat.mod_eq_zero_of_dvd (Dvd.dvd.mul_left ?_ 32)
  exact Nat.pow_dvd_pow 2 (by split <;> omega)

/-- The loop of `Xmvasprintf`, when `work_size` has been doubled `k` times: the buffer, or `some none` for
`NULL`.  It ends when `work_size` has wrapped. -/
def xmvasprintfFrom (fmt : List UInt8) (args : List FormatArg) (k : Nat) : Option (Option (List UInt8)) :=
  if memory k = true then
    match _h : xmvsnprintf wide outside fmt args (workSize wide k) with
    | none => none
    | some r =>
      if _hr : r.ret = 0 then some none
      else if r.ret < workSize wide k then some (some r.written)
      else xmvasprintfFrom fmt args (k + 1)
  else some none
termination_by 64 - k
decreasing_by
  have hk : k < 64 := by
    by_contra hge
    rw [workSize_eq_zero (Nat.not_lt.mp hge), xmvsnprintf, if_pos rfl] at _h
    injection _h with _h
    exact _hr (congrArg Printed.ret _h).symm
  omega

/-- `Xmvasprintf`. -/
def xmvasprintf (fmt : List UInt8) (args : List FormatArg) : Option (Option (List UInt8)) :=
  xmvasprintfFrom wide outside memory fmt args 0

end Model

/-! ## The full expansion -/

/-- What a directive writes where there is room for it, and the arguments that are left; `none` if the next
argument has another type, or is the number that `litoa` cannot write. -/
def Conversion.field : Conversion → List FormatArg → Option (List UInt8 × List FormatArg)
  | .d, .ulong v :: args =>
    if v.toInt32 = Int32.minValue then none else some (signedNumeral v.toInt32.toInt, args)
  | .u, .ulong v :: args => some (numeral 10 v.toNat, args)
  | .x, .ulong v :: args => some (numeral 16 v.toNat, args)
  | .p, .ulongPtr v :: args => some (numeral 16 v.toNat, args)
  | .i64x, .ull v :: args => some (numeral 16 v.toNat, args)
  | .s, .str text :: args => some (text.getD nullText, args)
  | .other, args => some ([], args)
  | _, _ => none

/-- What the rounds write; `none` if they go past the end of the format. -/
def expand : List FormatItem → List FormatArg → Option (List UInt8)
  | [], _ => some []
  | .char c :: items, args => (expand items args).map (c :: ·)
  | .conv k :: items, args =>
    match k.field args with
    | some (field, args) => (expand items args).map (field ++ ·)
    | none => none
  | .cutOff :: _, _ => none

/-- The arguments are of matching types, as far as the loop takes them, and no `d` argument is the number
that `litoa` cannot write. -/
def Matching : List FormatItem → List FormatArg → Prop
  | [], _ => True
  | .char _ :: items, args => Matching items args
  | .conv k :: items, args => ∃ field rest, k.field args = some (field, rest) ∧ Matching items rest
  | .cutOff :: _, _ => True

variable {wide : Bool} {outside : Int → UInt8} {memory : Nat → Bool} {fmt : List UInt8}
  {items : List FormatItem} {args : List FormatArg} {e : List UInt8}

/-- A directive is written as far as there is room. -/
theorem Conversion.write_of_field {k : Conversion} {field : List UInt8} {rest : List FormatArg}
    (h : k.field args = some (field, rest)) (n : Nat) :
    k.write outside n args = some (field.take n, rest) := by
  have hten : Radix.ten.val ≤ 16 := by decide
  have hsixteen : Radix.sixteen.val ≤ 16 := by decide
  unfold Conversion.field at h
  split at h
  · split at h
    · cases h
    · next hmin =>
      cases h
      rw [write, litoa_eq outside hmin]
  · cases h
    rw [write, lutoa_eq outside _ hten]
    rfl
  · cases h
    rw [write, lutoa_eq outside _ hsixteen]
    rfl
  · cases h
    rw [write, lutoaX_eq]
  · cases h
    rw [write, lutoaX_eq]
  · cases h
    rfl
  · cases h
    rw [write, List.take_nil]
  · cases h

/-- **What is written to a buffer** is the expansion, as far as there is room. -/
theorem formatLoop_of_expand (h : expand items args = some e) (n : Nat) :
    formatLoop outside items args n = some (e.take n, n - e.length) := by
  induction items generalizing args e n with
  | nil =>
    cases h
    rw [formatLoop, List.take_nil, List.length_nil, Nat.sub_zero]
  | cons item items ih =>
    by_cases hn : n = 0
    · rw [formatLoop.eq_def]
      simp only [if_pos hn]
      rw [hn, List.take_zero, Nat.zero_sub]
    · rw [formatLoop.eq_def]
      simp only [if_neg hn]
      cases item with
      | char c =>
        obtain ⟨e', he', rfl⟩ := Option.map_eq_some_iff.mp h
        obtain ⟨n, rfl⟩ := Nat.exists_eq_succ_of_ne_zero hn
        simp [ih he']
      | conv k =>
        rw [expand] at h
        cases hfield : k.field args with
        | none => rw [hfield] at h; cases h
        | some out =>
          rw [hfield] at h
          obtain ⟨e', he', rfl⟩ := Option.map_eq_some_iff.mp h
          have hroom : n - (out.1.take n).length = n - out.1.length := by
            rw [List.length_take]
            omega
          simp only [Conversion.write_of_field hfield, ih he', hroom, Option.map_some, List.take_append,
            List.length_append, Nat.sub_sub]
      | cutOff => cases h

/-- A format that is cut off has no expansion: with enough room, the loop goes past its end. -/
theorem expand_or_outside (outside : Int → UInt8) (h : Matching items args) :
    (∃ e, expand items args = some e) ∨ ∃ room, ∀ n, room ≤ n → formatLoop outside items args n = none := by
  induction items generalizing args with
  | nil => exact .inl ⟨[], rfl⟩
  | cons item items ih =>
    cases item with
    | char c =>
      rcases ih h with ⟨e, he⟩ | ⟨room, hout⟩
      · exact .inl ⟨c :: e, by rw [expand, he]; rfl⟩
      · refine .inr ⟨room + 1, fun n hn => ?_⟩
        rw [formatLoop.eq_def]
        simp only [if_neg (show n ≠ 0 by omega), hout (n - 1) (by omega), Option.map_none]
    | conv k =>
      obtain ⟨field, rest, hfield, hrest⟩ := h
      rcases ih hrest with ⟨e, he⟩ | ⟨room, hout⟩
      · exact .inl ⟨field ++ e, by rw [expand, hfield]; simp [he]⟩
      · refine .inr ⟨room + field.length + 1, fun n hn => ?_⟩
        rw [formatLoop.eq_def]
        have htake : field.take n = field := List.take_of_length_le (by omega)
        simp only [if_neg (show n ≠ 0 by omega), Conversion.write_of_field hfield, htake,
          hout (n - field.length) (by omega), Option.map_none]
    | cutOff =>
      refine .inr ⟨1, fun n hn => ?_⟩
      rw [formatLoop.eq_def]
      simp only [if_neg (show n ≠ 0 by omega)]

/-- **The full expansion**: what `_Xmvsnprintf` writes to every buffer that is large enough. -/
def FullExpansion (outside : Int → UInt8) (fmt : List UInt8) (args : List FormatArg) (e : List UInt8) :
    Prop :=
  ∃ room, ∀ n, room ≤ n → ∃ left, formatLoop outside (formatItems fmt) args n = some (e, left)

theorem fullExpansion_iff (h : Matching (formatItems fmt) args) :
    FullExpansion outside fmt args e ↔ expand (formatItems fmt) args = some e := by
  constructor
  · rintro ⟨room, hroom⟩
    rcases expand_or_outside outside h with ⟨e', he'⟩ | ⟨room', hout⟩
    · obtain ⟨left, hleft⟩ := hroom (room + e'.length) (Nat.le_add_right _ _)
      rw [formatLoop_of_expand he', List.take_of_length_le (Nat.le_add_left _ _)] at hleft
      injection hleft with hleft
      have hsame : e' = e := congrArg Prod.fst hleft
      rw [he', hsame]
    · obtain ⟨left, hleft⟩ := hroom (room + room') (Nat.le_add_right _ _)
      rw [hout _ (Nat.le_add_left _ _)] at hleft
      cases hleft
  · intro he
    refine ⟨e.length, fun n hn => ⟨n - e.length, ?_⟩⟩
    rw [formatLoop_of_expand he, List.take_of_length_le hn]

/-! ## One call -/

/-- What a call returns, for an expansion of this length. -/
def printedRet (wide : Bool) (length bufsz : Nat) : Nat :=
  if bufsz ≤ length + 1 then intToSize wide (i32 bufsz)
  else intToSize wide (i32 (i32 (length + 1 : Nat) - 1))

theorem xmvsnprintf_of_expand (h : expand (formatItems fmt) args = some e) {bufsz : Nat}
    (hpos : 0 < bufsz) : xmvsnprintf wide outside fmt args bufsz =
      some ⟨e.take (bufsz - 1) ++ [0], printedRet wide e.length bufsz⟩ := by
  rw [xmvsnprintf, if_neg hpos.ne', formatLoop_of_expand h, printedRet]
  simp only [Option.map_some]
  by_cases hfull : bufsz ≤ e.length + 1
  · rw [if_pos hfull, if_pos (by omega)]
  · have hleft : bufsz - (bufsz - 1 - e.length) = e.length + 1 := by omega
    rw [if_neg hfull, if_neg (by omega), hleft]

/-- The first length that is too large. -/
def expansionLimit (wide : Bool) : Nat := if wide = true then 2 ^ 31 else 2 ^ 31 - 1

/-- Where a buffer is too small, or only just large enough, the call says so. -/
theorem printedRet_full {length bufsz : Nat} (hsize : bufsz ≤ 2 ^ 31)
    (hfull : bufsz ≤ length + 1) : bufsz ≤ printedRet wide length bufsz := by
  rw [printedRet, if_pos hfull, intToSize]
  unfold i32 sizeT u32
  split <;> omega

/-- Where it is large enough, it returns the length. -/
theorem printedRet_fits {length bufsz : Nat} (hlimit : length < expansionLimit wide)
    (hfits : length + 1 < bufsz) : printedRet wide length bufsz = length := by
  rw [printedRet, if_neg (by omega), intToSize]
  unfold expansionLimit at hlimit
  unfold i32 sizeT u32
  split at hlimit
  · next hwide =>
    rw [if_pos hwide]
    omega
  · next hwide =>
    rw [if_neg hwide]
    omega

/-! ## The loop over the buffers -/

theorem workSize_eq {k : Nat} (hk : 32 * 2 ^ k < 2 ^ 32) : workSize wide k = 32 * 2 ^ k := by
  refine Nat.mod_eq_of_lt (hk.trans_le ?_)
  split <;> decide

/-- `work_size` when it is 0: the call returns 0, and that is `NULL`. -/
theorem xmvasprintfFrom_zero {k : Nat} (hmemory : memory k = true) (hsize : workSize wide k = 0) :
    xmvasprintfFrom wide outside memory fmt args k = some none := by
  have hcall : xmvsnprintf wide outside fmt args (workSize wide k) = some ⟨[], 0⟩ := by
    rw [xmvsnprintf, if_pos hsize]
  rw [xmvasprintfFrom, if_pos hmemory, hcall]
  rfl

/-- A round of the loop. -/
theorem xmvasprintfFrom_round (h : expand (formatItems fmt) args = some e) {k : Nat}
    (hmemory : memory k = true) (hsize : 0 < workSize wide k) :
    xmvasprintfFrom wide outside memory fmt args k =
      if printedRet wide e.length (workSize wide k) = 0 then some none
      else if printedRet wide e.length (workSize wide k) < workSize wide k then
        some (some (e.take (workSize wide k - 1) ++ [0]))
      else xmvasprintfFrom wide outside memory fmt args (k + 1) := by
  rw [xmvasprintfFrom, if_pos hmemory, xmvsnprintf_of_expand h hsize]
  simp only [dite_eq_ite]

/-- The buffer is too small. -/
theorem xmvasprintfFrom_next (h : expand (formatItems fmt) args = some e) {k : Nat}
    (hmemory : memory k = true) (hsize : 0 < workSize wide k)
    (hret : workSize wide k ≤ printedRet wide e.length (workSize wide k)) :
    xmvasprintfFrom wide outside memory fmt args k =
      xmvasprintfFrom wide outside memory fmt args (k + 1) := by
  rw [xmvasprintfFrom_round h hmemory hsize, if_neg (by omega), if_neg (by omega)]

/-- It is large enough. -/
theorem xmvasprintfFrom_fits (h : expand (formatItems fmt) args = some e)
    (hlimit : e.length < expansionLimit wide) {k : Nat} (hmemory : memory k = true)
    (hfits : e.length + 1 < workSize wide k) : xmvasprintfFrom wide outside memory fmt args k =
      some (if e = [] then none else some (e ++ [0])) := by
  rw [xmvasprintfFrom_round h hmemory (by omega), printedRet_fits hlimit hfits,
    if_pos (show e.length < workSize wide k by omega), List.take_of_length_le (by omega)]
  by_cases hnil : e = []
  · rw [if_pos hnil, if_pos (List.length_eq_zero_iff.mpr hnil)]
  · rw [if_neg hnil, if_neg fun hzero => hnil (List.length_eq_zero_iff.mp hzero)]

/-- **The loop finds a buffer**, by induction on how often the size can still be doubled. -/
theorem xmvasprintfFrom_ok (h : expand (formatItems fmt) args = some e)
    (hlimit : e.length < expansionLimit wide) (hmemory : ∀ k, memory k = true) (last : Nat)
    (hsmall : ∀ k < last, 32 * 2 ^ k ≤ 2 ^ 31) (hlast : e.length + 1 < workSize wide last) (k : Nat)
    (hk : k ≤ last) : xmvasprintfFrom wide outside memory fmt args k =
      some (if e = [] then none else some (e ++ [0])) := by
  induction hn : last - k generalizing k with
  | zero =>
    have heq : k = last := by omega
    rw [heq, xmvasprintfFrom_fits h hlimit (hmemory _) hlast]
  | succ n ih =>
    have hsize : workSize wide k = 32 * 2 ^ k :=
      workSize_eq ((hsmall k (by omega)).trans_lt (by decide))
    by_cases hfits : e.length + 1 < workSize wide k
    · rw [xmvasprintfFrom_fits h hlimit (hmemory _) hfits]
    · have hpos : 0 < workSize wide k := by rw [hsize]; positivity
      rw [xmvasprintfFrom_next h (hmemory _) hpos
        (printedRet_full (by rw [hsize]; exact hsmall k (by omega)) (not_lt.mp hfits)),
        ih (k + 1) (by omega) (by omega)]

/-- Where no call says that the buffer is large enough, there is none in the end. -/
theorem xmvasprintfFrom_null (h : expand (formatItems fmt) args = some e)
    (hmemory : ∀ k, memory k = true) (last : Nat)
    (hfull : ∀ k < last, 0 < workSize wide k ∧
      workSize wide k ≤ printedRet wide e.length (workSize wide k))
    (hlast : workSize wide last = 0 ∨ printedRet wide e.length (workSize wide last) = 0) (k : Nat)
    (hk : k ≤ last) : xmvasprintfFrom wide outside memory fmt args k = some none := by
  induction hn : last - k generalizing k with
  | zero =>
    have heq : k = last := by omega
    rw [heq]
    by_cases hzero : workSize wide last = 0
    · exact xmvasprintfFrom_zero (hmemory _) hzero
    · rw [xmvasprintfFrom_round h (hmemory _) (Nat.pos_of_ne_zero hzero), if_pos (hlast.resolve_left hzero)]
  | succ n ih =>
    obtain ⟨hpos, hret⟩ := hfull k (by omega)
    rw [xmvasprintfFrom_next h (hmemory _) hpos hret, ih (k + 1) (by omega) (by omega)]

/-- A power of two is kept by the conversion to `int`, up to 2^31, and is then 0. -/
theorem printedRet_large {length k : Nat} (hwide : wide = true) (hlow : 2 ^ 31 ≤ length)
    (hhigh : length < 2 ^ 32 - 1) (hk : k < 59) :
    workSize wide k ≤ printedRet wide length (workSize wide k) := by
  subst hwide
  have hsize : workSize true k = 32 * 2 ^ k := by
    have hle : 2 ^ k ≤ 2 ^ 58 := Nat.pow_le_pow_right (by decide) (by omega)
    refine Nat.mod_eq_of_lt ?_
    simp only [↓reduceIte]
    omega
  have hle : 2 ^ k ≤ 2 ^ 58 := Nat.pow_le_pow_right (by decide) (by omega)
  by_cases hsmall : k ≤ 26
  · have hle : 2 ^ k ≤ 2 ^ 26 := Nat.pow_le_pow_right (by decide) hsmall
    exact printedRet_full (by rw [hsize]; omega) (by rw [hsize]; omega)
  · have hge : 2 ^ 27 ≤ 2 ^ k := Nat.pow_le_pow_right (by decide) (by omega)
    rw [hsize, printedRet, if_neg (by omega), intToSize]
    simp only [↓reduceIte]
    unfold i32 sizeT
    omega

/-- **An expansion that is too long** is not returned. -/
theorem xmvasprintf_long (h : expand (formatItems fmt) args = some e)
    (hlimit : expansionLimit wide ≤ e.length) (hmemory : ∀ k, memory k = true) :
    xmvasprintf wide outside memory fmt args = some none := by
  have hup {last : Nat} (hlast : last ≤ 27) (k : Nat) (hk : k < last) : 32 * 2 ^ k ≤ 2 ^ 31 := by
    have hle : 2 ^ k ≤ 2 ^ 26 := Nat.pow_le_pow_right (by decide) (by omega)
    omega
  cases wide with
  | false =>
    -- 2^32 is 0
    have hlimit : 2 ^ 31 - 1 ≤ e.length := hlimit
    refine xmvasprintfFrom_null h hmemory 27 (fun k hk => ?_) (.inl rfl) 0 (Nat.zero_le _)
    have hle := hup (le_refl 27) k hk
    rw [workSize_eq (by omega)]
    exact ⟨by positivity, printedRet_full hle (by omega)⟩
  | true =>
    have hlimit : 2 ^ 31 ≤ e.length := hlimit
    by_cases hlong : 2 ^ 32 - 1 ≤ e.length
    · -- the size is 2^32, which is 0 as an `int`
      refine xmvasprintfFrom_null h hmemory 27 (fun k hk => ?_) (.inr ?_) 0 (Nat.zero_le _)
      · have hle := hup (le_refl 27) k hk
        rw [workSize_eq (by omega)]
        exact ⟨by positivity, printedRet_full hle (by omega)⟩
      · rw [printedRet, if_pos (show workSize true 27 ≤ e.length + 1 by
          rw [show workSize true 27 = 2 ^ 32 from rfl]; omega)]
        rfl
    · -- the length is negative as an `int`, until 2^64 is 0
      refine xmvasprintfFrom_null h hmemory 59 (fun k hk => ⟨?_, ?_⟩) (.inl rfl) 0 (Nat.zero_le _)
      · have hle : 2 ^ k ≤ 2 ^ 58 := Nat.pow_le_pow_right (by decide) (by omega)
        have hpos : 0 < 2 ^ k := by positivity
        rw [workSize, Nat.mod_eq_of_lt (by simp only [↓reduceIte]; omega)]
        omega
      · exact printedRet_large rfl hlimit (by omega) hk

/-! ## Formatting to a fresh buffer -/

/-- **A format is formatted** with these arguments: there is a full expansion, `Xmvasprintf` returns it if
there is memory, and a call with any buffer keeps to the buffer and cuts nothing off without saying so. -/
def Formatted (wide : Bool) (outside : Int → UInt8) (fmt : List UInt8) (args : List FormatArg) : Prop :=
  ∃ e, FullExpansion outside fmt args e ∧
    (∀ memory, (∀ k, memory k = true) → xmvasprintf wide outside memory fmt args =
      some (if e = [] then none else some (e ++ [0]))) ∧
    ∀ bufsz < 2 ^ (if wide = true then 64 else 32), ∃ r,
      xmvsnprintf wide outside fmt args bufsz = some r ∧ r.written.length ≤ bufsz ∧
        (r.ret < bufsz → r.written = e ++ [0])

/-- A call with any buffer. -/
theorem xmvsnprintf_honest (h : expand (formatItems fmt) args = some e)
    (hlimit : e.length < expansionLimit wide) (bufsz : Nat) : ∃ r,
      xmvsnprintf wide outside fmt args bufsz = some r ∧ r.written.length ≤ bufsz ∧
        (r.ret < bufsz → r.written = e ++ [0]) := by
  by_cases hzero : bufsz = 0
  · refine ⟨⟨[], 0⟩, by rw [xmvsnprintf, if_pos hzero], Nat.zero_le _, fun hlt => ?_⟩
    rw [hzero] at hlt
    exact absurd hlt (Nat.not_lt_zero _)
  · refine ⟨_, xmvsnprintf_of_expand h (Nat.pos_of_ne_zero hzero), ?_, fun hret => ?_⟩
    · rw [List.length_append, List.length_take, List.length_singleton]
      omega
    · have hroom : e.length ≤ bufsz - 1 := by
        by_contra hcut
        have hmax : expansionLimit wide ≤ 2 ^ 31 := by
          unfold expansionLimit
          split <;> decide
        exact absurd hret (not_lt.mpr (printedRet_full (by omega) (by omega)))
      exact congrArg (· ++ [0]) (List.take_of_length_le hroom)

/-- **Formatting works** just where no directive is cut off by the end of the format and the expansion is
shorter than 2^31 - 1 characters, or than 2^31 where a `size_t` has 64 bits. -/
theorem formatted_iff (h : Matching (formatItems fmt) args) : Formatted wide outside fmt args ↔
    ∃ e, expand (formatItems fmt) args = some e ∧ e.length < expansionLimit wide := by
  constructor
  · rintro ⟨e, hfull, hbuffer, -⟩
    have he := (fullExpansion_iff h).mp hfull
    refine ⟨e, he, ?_⟩
    by_contra hlong
    have hpos : 0 < expansionLimit wide := by
      unfold expansionLimit
      split <;> decide
    have hne : e ≠ [] := fun hnil => by
      rw [hnil] at hlong
      exact hlong hpos
    have hnull := hbuffer (fun _ => true) fun _ => rfl
    rw [xmvasprintf_long he (not_lt.mp hlong) fun _ => rfl, if_neg hne] at hnull
    cases hnull
  · rintro ⟨e, he, hlimit⟩
    refine ⟨e, (fullExpansion_iff h).mpr he, fun memory hmemory => ?_, fun bufsz _ =>
      xmvsnprintf_honest he hlimit bufsz⟩
    cases wide with
    | false =>
      have hlimit' : e.length < 2 ^ 31 - 1 := hlimit
      refine xmvasprintfFrom_ok he hlimit hmemory 26 (fun k hk => ?_) ?_ 0 (Nat.zero_le _)
      · have hle : 2 ^ k ≤ 2 ^ 26 := Nat.pow_le_pow_right (by decide) hk.le
        omega
      · rw [show workSize false 26 = 2 ^ 31 from rfl]
        omega
    | true =>
      have hlimit' : e.length < 2 ^ 31 := hlimit
      refine xmvasprintfFrom_ok he hlimit hmemory 27 (fun k hk => ?_) ?_ 0 (Nat.zero_le _)
      · have hle : 2 ^ k ≤ 2 ^ 26 := Nat.pow_le_pow_right (by decide) (by omega)
        omega
      · rw [show workSize true 27 = 2 ^ 32 from rfl]
        omega

/-- `"n%5lu"` is formatted, with 42. -/
theorem formatted_number : Formatted false (fun _ => 0) [110, 37, 53, 108, 117] [.ulong 42] := by
  have hitems : formatItems [110, 37, 53, 108, 117] = [.char 110, .conv .u] := by
    have hfields : stripFields [53, 108, 117] = [117] := rfl
    rw [formatItems, if_pos (by decide), formatItems_directive hfields, if_neg (by decide), formatItems]
    rfl
  have hexpand : expand (formatItems [110, 37, 53, 108, 117]) [.ulong 42] = some [110, 52, 50] := by
    rw [hitems]
    simp [expand, Conversion.field, numeral]
    decide
  refine (formatted_iff ?_).mpr ⟨_, hexpand, by decide⟩
  rw [hitems]
  exact ⟨_, _, rfl, trivial⟩

/-- The directive of `"%5"` is cut off. -/
theorem not_formatted_five : ¬ ∀ (wide : Bool) (outside : Int → UInt8) (fmt : List UInt8)
    (args : List FormatArg), Matching (formatItems fmt) args → Formatted wide outside fmt args := by
  intro h
  have hitems : formatItems [37, 53] = [.cutOff] := by
    rw [formatItems]
    rfl
  obtain ⟨e, ⟨room, hroom⟩, -⟩ := h false (fun _ => 0) [37, 53] [] (by rw [hitems]; trivial)
  obtain ⟨left, hleft⟩ := hroom (room + 1) (Nat.le_succ room)
  rw [hitems] at hleft
  cases hleft

end V4v.Xenutil
