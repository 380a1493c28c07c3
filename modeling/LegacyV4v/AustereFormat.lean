import LegacyV4v.NumberParse
import Mathlib.Data.Nat.Digits.Lemmas

/-! # Numbers in austere mode

In austere mode there is no `RtlStringCbVPrintfA`, and numbers are written by `lutoa`, `lutoaX` and
`litoa`.  The digits go backwards into a scratch buffer and are copied from its end, as far as there is
room.  `litoa` negates a negative number first, and the most negative one stays as it is: its remainder
is the index -8. -/
namespace V4v.Xenutil

/-! ## The model -/

/-- `numbers`. -/
def numbers : List UInt8 := [48, 49, 50, 51, 52, 53, 54, 55, 56, 57, 65, 66, 67, 68, 69, 70]

/-- `numbers[i]`, where other bytes are before and after the array. -/
def numberAt (outside : Int → UInt8) (i : Int) : UInt8 :=
  if 0 ≤ i then numbers[i.toNat]?.getD (outside i) else outside i

/-- A base that numbers can be written in. -/
structure Radix where
  val : Nat
  one_lt : 1 < val

def Radix.ten : Radix := ⟨10, by decide⟩

def Radix.sixteen : Radix := ⟨16, by decide⟩

/-- The loop that fills the scratch buffer, which is kept from its end on. -/
def scratch (outside : Int → UInt8) (base : Radix) (number : Int) (buf : List UInt8) : List UInt8 :=
  let buf := numberAt outside (number.tmod base.val) :: buf
  if 0 < number.tdiv base.val then scratch outside base (number.tdiv base.val) buf else buf
termination_by number.toNat
decreasing_by
  have hone := base.one_lt
  have hpos : 0 < number := by
    by_contra hle
    have hneg : 0 ≤ (-number).tdiv base.val := Int.tdiv_nonneg (by omega) (Int.natCast_nonneg _)
    rw [Int.neg_tdiv] at hneg
    omega
  rw [Int.tdiv_eq_ediv_of_nonneg hpos.le]
  have := Int.ediv_lt_self_of_pos_of_ne_one hpos (show (base.val : Int) ≠ 1 by omega)
  omega

/-- `lutoa`: what it writes.  It returns how many characters that are. -/
def lutoa (outside : Int → UInt8) (number : UInt32) (base : Radix) (bufsz : Nat) : List UInt8 :=
  (scratch outside base number.toNat []).take bufsz

/-- `lutoaX`. -/
def lutoaX (outside : Int → UInt8) (number : UInt64) (bufsz : Nat) : List UInt8 :=
  (scratch outside .sixteen number.toNat []).take bufsz

/-- `litoa`. -/
def litoa (outside : Int → UInt8) (number : Int32) (base : Radix) (bufsz : Nat) : List UInt8 :=
  let negative := decide (number < 0)
  let number := if number < 0 then -number else number
  let buf := scratch outside base number.toInt []
  (if negative = true then 45 :: buf else buf).take bufsz

/-! ## Numerals -/

/-- The character of a digit. -/
def digitChar (digit : Nat) : UInt8 := numbers[digit]?.getD 0

/-- The canonical digits of a number, the first one first. -/
def numeral (base n : Nat) : List UInt8 :=
  if n = 0 then [48] else ((Nat.digits base n).map digitChar).reverse

/-- The canonical decimal of a signed number. -/
def signedNumeral (n : Int) : List UInt8 :=
  if n < 0 then 45 :: numeral 10 n.natAbs else numeral 10 n.natAbs

theorem digitValue_digitChar {digit : Nat} (h : digit < 16) : digitValue (digitChar digit) = some digit := by
  have hall : ∀ digit : Fin 16, digitValue (digitChar digit.val) = some digit.val := by decide
  exact hall ⟨digit, h⟩

theorem numberAt_of_lt (outside : Int → UInt8) {digit : Nat} (h : digit < 16) :
    numberAt outside digit = digitChar digit := by
  have hlen : digit < numbers.length := h
  rw [numberAt, if_pos (Int.natCast_nonneg digit), Int.toNat_natCast, digitChar,
    List.getElem?_eq_getElem hlen]
  rfl

section Numerals
variable {base : Nat} {n : Nat}

/-- The last digit of a number, and those before. -/
theorem numeral_step (hone : 1 < base) (hn : 0 < n / base) :
    numeral base n = numeral base (n / base) ++ [digitChar (n % base)] := by
  have hpos : 0 < n := Nat.pos_of_ne_zero fun h => by rw [h, Nat.zero_div] at hn; exact absurd hn (lt_irrefl 0)
  rw [numeral, if_neg hpos.ne', numeral, if_neg hn.ne', Nat.digits_def' hone hpos]
  simp

theorem numeral_of_lt (hone : 1 < base) (hn : n / base = 0) : numeral base n = [digitChar (n % base)] := by
  have hlt : n < base := (Nat.div_eq_zero_iff_lt (Nat.zero_lt_of_lt hone)).mp hn
  rw [numeral, Nat.mod_eq_of_lt hlt]
  split
  · next hzero => rw [hzero]; rfl
  · next hne => rw [Nat.digits_of_lt base n hne hlt]; rfl

/-- The scratch buffer gets the digits. -/
theorem scratch_eq (outside : Int → UInt8) (base : Radix) (hbase : base.val ≤ 16) (n : Nat)
    (buf : List UInt8) : scratch outside base n buf = numeral base.val n ++ buf := by
  have hone := base.one_lt
  induction n using Nat.strong_induction_on generalizing buf with
  | _ n ih =>
    have hdiv : (n : Int).tdiv base.val = ((n / base.val : Nat) : Int) := rfl
    have hmod : (n : Int).tmod base.val = ((n % base.val : Nat) : Int) := rfl
    have hlt : n % base.val < 16 := (Nat.mod_lt n (Nat.zero_lt_of_lt hone)).trans_le hbase
    rw [scratch, hdiv, hmod, numberAt_of_lt outside hlt]
    split
    · next hpos =>
      have hpos : 0 < n / base.val := by exact_mod_cast hpos
      have hsmaller : n / base.val < n :=
        Nat.div_lt_self (Nat.pos_of_div_pos hpos) hone
      rw [ih _ hsmaller, numeral_step hone hpos, List.append_assoc, List.singleton_append]
    · next hzero =>
      have hzero : n / base.val = 0 := Nat.eq_zero_of_not_pos (by exact_mod_cast hzero)
      rw [numeral_of_lt hone hzero, List.singleton_append]

/-- The digits of a numeral are digits. -/
theorem digits_numeral (hone : 1 < base) (hbase : base ≤ 16) : ∀ b ∈ numeral base n, IsDigit base b := by
  intro b hb
  rw [numeral] at hb
  split at hb
  · rw [List.mem_singleton.mp hb]
    exact ⟨0, rfl, Nat.zero_lt_of_lt hone⟩
  · obtain ⟨digit, hdigit, rfl⟩ := List.mem_map.mp (List.mem_reverse.mp hb)
    have hlt := Nat.digits_lt_base hone hdigit
    exact ⟨digit, digitValue_digitChar (hlt.trans_le hbase), hlt⟩

/-- A numeral is read as its number. -/
theorem reading_numeral (hone : 1 < base) (hbase : base ≤ 16) : reading base (numeral base n) = n := by
  rw [reading_eq_ofDigits, numeral]
  split
  · next hzero =>
    rw [hzero]
    simp [digitOr, digitValue]
  · have hdigits : ((Nat.digits base n).map digitChar).map (digitOr base) = Nat.digits base n := by
      rw [List.map_map]
      refine (List.map_congr_left fun digit hdigit => ?_).trans (List.map_id _)
      have hlt := (Nat.digits_lt_base hone hdigit).trans_le hbase
      simp [digitOr, digitValue_digitChar hlt]
    rw [List.map_reverse, List.reverse_reverse, hdigits, Nat.ofDigits_digits]

/-- A scratch buffer of 32 characters has room for the digits of a 64-bit number, and a sign. -/
theorem numeral_length_le (hbase : 10 ≤ base) (hn : n < 2 ^ 64) : (numeral base n).length ≤ 20 := by
  rw [numeral]
  split
  · decide
  · rw [List.length_reverse, List.length_map, Nat.digits_length_le_iff (by omega)]
    calc n < 2 ^ 64 := hn
      _ ≤ 10 ^ 20 := by norm_num
      _ ≤ base ^ 20 := Nat.pow_le_pow_left hbase 20

end Numerals

/-- The parser returns the number. -/
theorem xmStrtoll_numeral {base : UInt64} (hbase : IsBase base) (n : UInt64) :
    xmStrtoll (numeral base.toNat n.toNat) base = ⟨n, false⟩ := by
  have hone : 1 < base.toNat := by rcases hbase.toNat with h | h <;> omega
  have hle : base.toNat ≤ 16 := by rcases hbase.toNat with h | h <;> omega
  have hdigits := digits_numeral (n := n.toNat) hone hle
  have hbody := (body_of_digits hdigits).1
  have hread := reading_numeral (n := n.toNat) hone hle
  have hacc := xmStrtoll_acc (numeral base.toNat n.toNat) base
  rw [hbody, hread, Nat.mod_eq_of_lt n.toNat_lt] at hacc
  have herr := (xmStrtoll_ok_iff hbase (numeral base.toNat n.toNat)).mpr
    ⟨by rw [hbody]; exact hdigits, by rw [hbody, hread]; exact n.toNat_lt⟩
  cases hparsed : xmStrtoll (numeral base.toNat n.toNat) base with
  | mk acc err =>
    rw [hparsed] at hacc herr
    have hacc : acc = n := UInt64.toNat_inj.mp hacc
    have herr : err = false := herr
    rw [hacc, herr]

/-! ## What is written -/

theorem lutoa_eq (outside : Int → UInt8) (n : UInt32) {base : Radix} (hbase : base.val ≤ 16) (bufsz : Nat) :
    lutoa outside n base bufsz = (numeral base.val n.toNat).take bufsz := by
  rw [lutoa, scratch_eq outside base hbase, List.append_nil]

theorem lutoaX_eq (outside : Int → UInt8) (n : UInt64) (bufsz : Nat) :
    lutoaX outside n bufsz = (numeral 16 n.toNat).take bufsz := by
  rw [lutoaX, scratch_eq outside .sixteen (le_refl 16), List.append_nil]
  rfl

/-- The negation is that of the number, unless it is the most negative one. -/
theorem abs_toInt {n : Int32} (hn : n ≠ Int32.minValue) :
    (if n < 0 then -n else n).toInt = (n.toInt.natAbs : Int) := by
  have hmin : n.toInt ≠ -2147483648 := fun h => hn (Int32.toInt_inj.mp h)
  have hlow : -2147483648 ≤ n.toInt := n.minValue_le_toInt
  have hhigh := n.toInt_lt
  split
  · next hneg =>
    rw [Int32.lt_iff_toInt_lt] at hneg
    have hneg : n.toInt < 0 := hneg
    rw [Int32.toInt_neg, Int.bmod_eq_of_le (by omega) (by omega)]
    omega
  · next hpos =>
    rw [Int32.lt_iff_toInt_lt] at hpos
    have hpos : ¬ n.toInt < 0 := hpos
    omega

theorem litoa_eq (outside : Int → UInt8) {n : Int32} (hn : n ≠ Int32.minValue) (bufsz : Nat) :
    litoa outside n .ten bufsz = (signedNumeral n.toInt).take bufsz := by
  have hneg : n < 0 ↔ n.toInt < 0 := Int32.lt_iff_toInt_lt
  rw [litoa, abs_toInt hn, scratch_eq outside .ten (by decide), List.append_nil, signedNumeral]
  simp only [hneg, decide_eq_true_eq]
  rfl

/-- The most negative number is written as a sign and what is eight bytes before the array. -/
theorem litoa_min (outside : Int → UInt8) (bufsz : Nat) :
    litoa outside Int32.minValue .ten bufsz = [45, outside (-8)].take bufsz := by
  rw [litoa, show (if Int32.minValue < 0 then -Int32.minValue else Int32.minValue).toInt = -2147483648
    from rfl, scratch]
  rfl

/-- **The formatters write canonical numerals**, as far as there is room, which the parser reads back; and
`litoa` does so just for the numbers other than the most negative one. -/
theorem austere_numerals (outside : Int → UInt8) :
    (∀ (n : UInt32) (base : Radix), base.val = 10 ∨ base.val = 16 → ∀ bufsz,
        lutoa outside n base bufsz = (numeral base.val n.toNat).take bufsz ∧
        ((numeral base.val n.toNat).length ≤ bufsz →
          xmStrtoll (lutoa outside n base bufsz) (.ofNat base.val) = ⟨n.toUInt64, false⟩)) ∧
      (∀ (n : UInt64) (bufsz : Nat), lutoaX outside n bufsz = (numeral 16 n.toNat).take bufsz ∧
        ((numeral 16 n.toNat).length ≤ bufsz → xmStrtoll (lutoaX outside n bufsz) 16 = ⟨n, false⟩)) ∧
      ∀ n : Int32, (∀ bufsz, litoa outside n .ten bufsz = (signedNumeral n.toInt).take bufsz) ↔
        n ≠ Int32.minValue := by
  refine ⟨fun n base hbase bufsz => ?_, fun n bufsz => ?_, fun n => ⟨?_, litoa_eq outside⟩⟩
  · have hlutoa := lutoa_eq outside n (show base.val ≤ 16 by omega) bufsz
    refine ⟨hlutoa, fun hroom => ?_⟩
    rw [hlutoa, List.take_of_length_le hroom]
    rcases hbase with h | h <;> rw [h]
    · exact xmStrtoll_numeral (.inl rfl) n.toUInt64
    · exact xmStrtoll_numeral (.inr rfl) n.toUInt64
  · have hlutoa := lutoaX_eq outside n bufsz
    refine ⟨hlutoa, fun hroom => ?_⟩
    rw [hlutoa, List.take_of_length_le hroom]
    exact xmStrtoll_numeral (.inr rfl) n
  · rintro hall rfl
    have hlength := congrArg List.length (hall 3)
    have hthree : ((signedNumeral Int32.minValue.toInt).take 3).length = 3 := by decide
    rw [litoa_min, hthree] at hlength
    cases hlength

/-- The largest 32-bit number in base 16, with room for three of its digits. -/
theorem austere_numerals_max : lutoa (fun _ => 0) 0xffffffff .sixteen 3 = [70, 70, 70] :=
  ((austere_numerals fun _ => 0).1 0xffffffff .sixteen (.inr rfl) 3).1.trans (by simp [numeral]; decide)

/-- `litoa(-2147483648)` is two characters long. -/
theorem litoa_not_canonical : ¬ ∀ (outside : Int → UInt8) (n : Int32) (bufsz : Nat),
    litoa outside n .ten bufsz = (signedNumeral n.toInt).take bufsz := by
  intro h
  have hlength := congrArg List.length (h (fun _ => 0) Int32.minValue 12)
  rw [litoa_min] at hlength
  exact absurd hlength (by decide)

end V4v.Xenutil
