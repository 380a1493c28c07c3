import LegacyV4v.XenbusTransaction
import Mathlib.Data.Nat.Digits.Defs
import Mathlib.Tactic.Common

/-! # Numbers in xenstore

`xm_strtoll` reads a number of base 10 or 16 out of a buffer that need not be terminated.  It goes on
after an error, so that there is always a value beside the flag.  The two tests for overflow, one before
the multiplication and one after the addition, are exact together, and the flag is exact.
`xenbus_read_int` looks at the flag; `xenbus_read_domain_id` only at the value, which may have wrapped. -/
namespace V4v.Xenutil

/-! ## The parser -/

/-- The digit that a character is, in base 16. -/
def digitValue (b : UInt8) : Option Nat :=
  if 48 ≤ b ∧ b ≤ 57 then some (b.toNat - 48)
  else if 97 ≤ b ∧ b ≤ 102 then some (b.toNat - 97 + 10)
  else if 65 ≤ b ∧ b ≤ 70 then some (b.toNat - 65 + 10)
  else none

/-- `acc` and `*err`. -/
structure Parsed where
  acc : UInt64
  err : Bool
  deriving DecidableEq, Repr

/-- The end of a round of `xm_strtoll`, where `digit` is known. -/
def Parsed.push (base : UInt64) (p : Parsed) (digit : UInt64) : Parsed :=
  let limit := (~~~(0 : UInt64)) / base
  let err := p.err || decide (base ≤ digit ∨ limit < p.acc)
  let acc := p.acc * base
  ⟨acc + digit, err || decide (acc + digit < acc)⟩

/-- The loop of `xm_strtoll`, over the rest of the buffer. -/
def xmStrtollLoop (base : UInt64) : List UInt8 → Parsed → Parsed
  | [], p => p
  | b :: rest, p =>
    match digitValue b with
    | some digit => xmStrtollLoop base rest (p.push base (.ofNat digit))
    | none => if b = 0 ∧ rest = [] then p else xmStrtollLoop base rest (p.push base base)

/-- `xm_strtoll`, for a buffer of less than 4 GiB: the offset in it does not wrap. -/
def xmStrtoll (buf : List UInt8) (base : UInt64) : Parsed := xmStrtollLoop base buf ⟨0, false⟩

/-! ## Numerals -/

/-- A digit of the base. -/
def IsDigit (base : Nat) (b : UInt8) : Prop := ∃ digit ∈ digitValue b, digit < base

/-- The digit that a character is for the parser, which takes the base where there is none. -/
def digitOr (base : Nat) (b : UInt8) : Nat := (digitValue b).getD base

/-- The number that the characters come to, after those that have come to `n`. -/
def readingFrom (base n : Nat) (bs : List UInt8) : Nat := bs.foldl (fun n b => n * base + digitOr base b) n

/-- The number that the characters come to. -/
def reading (base : Nat) (bs : List UInt8) : Nat := readingFrom base 0 bs

/-- The buffer without the nul at its end, if there is one. -/
def body : List UInt8 → List UInt8
  | [] => []
  | b :: rest => if b = 0 ∧ rest = [] then [] else b :: body rest

@[simp] theorem readingFrom_nil (base n : Nat) : readingFrom base n [] = n := rfl

@[simp] theorem readingFrom_cons (base n : Nat) (b : UInt8) (bs : List UInt8) :
    readingFrom base n (b :: bs) = readingFrom base (n * base + digitOr base b) bs := rfl

/-- The characters are read as a number in positional notation. -/
theorem reading_eq_ofDigits (base : Nat) (bs : List UInt8) :
    reading base bs = Nat.ofDigits base (bs.map (digitOr base)).reverse := by
  rw [reading, readingFrom, Nat.ofDigits_eq_foldr, List.foldr_reverse, List.foldl_map]
  congr 1
  funext n b
  simp [Nat.mul_comm, Nat.add_comm]

/-- The number grows with each character. -/
theorem le_readingFrom {base : Nat} (hbase : 0 < base) (n : Nat) (bs : List UInt8) :
    n ≤ readingFrom base n bs := by
  induction bs generalizing n with
  | nil => exact le_refl n
  | cons b bs ih =>
    calc n ≤ n * base := Nat.le_mul_of_pos_right n hbase
      _ ≤ n * base + digitOr base b := Nat.le_add_right _ _
      _ ≤ readingFrom base n (b :: bs) := ih _

theorem digitValue_lt {b : UInt8} {digit : Nat} (h : digitValue b = some digit) : digit < 16 := by
  simp only [digitValue, UInt8.le_iff_toNat_le, UInt8.reduceToNat] at h
  split at h
  · injection h; omega
  · split at h
    · injection h; omega
    · split at h
      · injection h; omega
      · cases h

theorem digitOr_lt_iff (base : Nat) (b : UInt8) : digitOr base b < base ↔ IsDigit base b := by
  unfold digitOr IsDigit
  cases digitValue b <;> simp

theorem body_or (bs : List UInt8) : bs = body bs ∨ bs = body bs ++ [0] := by
  induction bs with
  | nil => exact .inl rfl
  | cons b rest ih =>
    rw [body]
    split
    · next h => exact .inr (by rw [h.1, h.2]; rfl)
    · exact ih.imp (congrArg (b :: ·)) (congrArg (b :: ·))

/-- Digits have no nul among them. -/
theorem body_of_digits {base : Nat} {ds : List UInt8} (hds : ∀ b ∈ ds, IsDigit base b) :
    body ds = ds ∧ body (ds ++ [0]) = ds := by
  induction ds with
  | nil => exact ⟨rfl, rfl⟩
  | cons b rest ih =>
    have hb : b ≠ 0 := by
      rintro rfl
      obtain ⟨digit, hdigit, -⟩ := hds 0 List.mem_cons_self
      cases hdigit
    obtain ⟨h₁, h₂⟩ := ih fun c hc => hds c (List.mem_cons_of_mem b hc)
    simp [body, hb, h₁, h₂]

/-! ## What the parser computes -/

/-- One round is one character. -/
theorem xmStrtollLoop_cons {base : UInt64} {b : UInt8} {rest : List UInt8} (p : Parsed)
    (h : ¬ (b = 0 ∧ rest = [])) : xmStrtollLoop base (b :: rest) p =
      xmStrtollLoop base rest (p.push base (.ofNat (digitOr base.toNat b))) := by
  rw [xmStrtollLoop, digitOr]
  cases digitValue b with
  | some digit => rfl
  | none => simp [h]

/-- The nul at the end ends the loop. -/
theorem xmStrtollLoop_nul (base : UInt64) (p : Parsed) : xmStrtollLoop base [0] p = p := by
  rfl

/-- The value is that of the characters, as far as 64 bits go. -/
theorem xmStrtollLoop_acc {base : UInt64} {bs : List UInt8} {p : Parsed} {n : Nat}
    (hp : p.acc = .ofNat n) :
    (xmStrtollLoop base bs p).acc = .ofNat (readingFrom base.toNat n (body bs)) := by
  induction bs generalizing p n with
  | nil => exact hp
  | cons b rest ih =>
    by_cases hend : b = 0 ∧ rest = []
    · obtain ⟨rfl, rfl⟩ := hend
      exact hp
    · rw [xmStrtollLoop_cons p hend, body, if_neg hend, readingFrom_cons]
      refine ih ?_
      simp [Parsed.push, hp]

theorem xmStrtollLoop_err {base : UInt64} {bs : List UInt8} {p : Parsed} (hp : p.err = true) :
    (xmStrtollLoop base bs p).err = true := by
  induction bs generalizing p with
  | nil => exact hp
  | cons b rest ih =>
    by_cases hend : b = 0 ∧ rest = []
    · obtain ⟨rfl, rfl⟩ := hend
      exact hp
    · rw [xmStrtollLoop_cons p hend]
      exact ih (by simp [Parsed.push, hp])

/-- The bases that there are. -/
def IsBase (base : UInt64) : Prop := base = 10 ∨ base = 16

theorem IsBase.toNat {base : UInt64} (h : IsBase base) : base.toNat = 10 ∨ base.toNat = 16 := by
  rcases h with rfl | rfl
  · exact .inl rfl
  · exact .inr rfl

theorem IsBase.digitOr_lt {base : UInt64} (h : IsBase base) (b : UInt8) : digitOr base.toNat b ≤ 16 := by
  unfold digitOr
  cases hb : digitValue b with
  | none => rcases h.toNat with h | h <;> simp [h]
  | some digit => exact (digitValue_lt hb).le

/-- The two tests of a round fail together just if the number is too large. -/
theorem push_err {base : UInt64} (hbase : IsBase base) {p : Parsed} (hp : p.err = false) {digit : Nat}
    (hdigit : digit ≤ 16) : (p.push base (.ofNat digit)).err = false ↔
      digit < base.toNat ∧ p.acc.toNat * base.toNat + digit < 2 ^ 64 := by
  have hacc := p.acc.toNat_lt
  have hof : (UInt64.ofNat digit).toNat = digit := by
    rw [UInt64.toNat_ofNat']; omega
  simp only [Parsed.push, hp, Bool.false_or, Bool.or_eq_false_iff, decide_eq_false_iff_not, not_or,
    UInt64.lt_iff_toNat_lt, UInt64.le_iff_toNat_le, UInt64.toNat_add,
    UInt64.toNat_mul, UInt64.toNat_div, hof]
  have hmax : (~~~(0 : UInt64)).toNat = 18446744073709551615 := rfl
  rw [hmax]
  rcases hbase.toNat with h | h <;> rw [h] <;> omega

/-- **The flag is exact.** -/
theorem xmStrtollLoop_ok_iff {base : UInt64} (hbase : IsBase base) {bs : List UInt8} {p : Parsed}
    (hp : p.err = false) : (xmStrtollLoop base bs p).err = false ↔
      (∀ b ∈ body bs, IsDigit base.toNat b) ∧
        readingFrom base.toNat p.acc.toNat (body bs) < 2 ^ 64 := by
  have hpos : 0 < base.toNat := by rcases hbase.toNat with h | h <;> omega
  induction bs generalizing p with
  | nil => simp [xmStrtollLoop, hp, body, p.acc.toNat_lt]
  | cons b rest ih =>
    by_cases hend : b = 0 ∧ rest = []
    · obtain ⟨rfl, rfl⟩ := hend
      simp [xmStrtollLoop_nul, hp, body, p.acc.toNat_lt]
    · rw [xmStrtollLoop_cons p hend, body, if_neg hend, readingFrom_cons, List.forall_mem_cons]
      have hround := push_err hbase hp (hbase.digitOr_lt b)
      rw [digitOr_lt_iff] at hround
      cases hbad : (p.push base (.ofNat (digitOr base.toNat b))).err with
      | true =>
        have hgrow := le_readingFrom hpos (p.acc.toNat * base.toNat + digitOr base.toNat b) (body rest)
        refine iff_of_false (by rw [xmStrtollLoop_err hbad]; decide) ?_
        rintro ⟨⟨hb, -⟩, hlt⟩
        rw [hround.mpr ⟨hb, hgrow.trans_lt hlt⟩] at hbad
        exact absurd hbad (by decide)
      | false =>
        obtain ⟨hb, hlt⟩ := hround.mp hbad
        have hacc : (p.push base (.ofNat (digitOr base.toNat b))).acc.toNat =
            p.acc.toNat * base.toNat + digitOr base.toNat b := by
          have hof : (p.push base (.ofNat (digitOr base.toNat b))).acc =
              .ofNat (p.acc.toNat * base.toNat + digitOr base.toNat b) := by simp [Parsed.push]
          rw [hof]
          exact UInt64.toNat_ofNat_of_lt' hlt
        have hrest := ih hbad
        rw [hacc] at hrest
        exact hrest.trans ⟨fun h => ⟨⟨hb, h.1⟩, h.2⟩, fun h => ⟨h.1.2, h.2⟩⟩

theorem xmStrtoll_acc (buf : List UInt8) (base : UInt64) :
    (xmStrtoll buf base).acc.toNat = reading base.toNat (body buf) % 2 ^ 64 := by
  have hacc : (xmStrtoll buf base).acc = .ofNat (reading base.toNat (body buf)) :=
    xmStrtollLoop_acc rfl
  rw [hacc, UInt64.toNat_ofNat']

theorem xmStrtoll_ok_iff {base : UInt64} (hbase : IsBase base) (buf : List UInt8) :
    (xmStrtoll buf base).err = false ↔
      (∀ b ∈ body buf, IsDigit base.toNat b) ∧ reading base.toNat (body buf) < 2 ^ 64 :=
  xmStrtollLoop_ok_iff hbase rfl

/-- The buffer is written with these digits: there may be a nul after them. -/
structure Written (base : Nat) (ds buf : List UInt8) : Prop where
  digits : ∀ b ∈ ds, IsDigit base b
  buf_eq : buf = ds ∨ buf = ds ++ [0]

theorem Written.body_eq {base : Nat} {ds buf : List UInt8} (h : Written base ds buf) : body buf = ds := by
  rcases h.buf_eq with rfl | rfl
  · exact (body_of_digits h.digits).1
  · exact (body_of_digits h.digits).2

theorem written_body {base : Nat} {buf : List UInt8} (h : ∀ b ∈ body buf, IsDigit base b) :
    Written base (body buf) buf := ⟨h, body_or buf⟩

/-- **`xm_strtoll` accepts its grammar**, the digits of the base and perhaps a nul, and nothing else; and
what it returns is what the digits denote. -/
theorem xmStrtoll_accepts_iff (buf : List UInt8) (base : UInt64) (hbase : base = 10 ∨ base = 16) :
    ((xmStrtoll buf base).err = false ↔
        ∃ ds, Written base.toNat ds buf ∧ reading base.toNat ds < 2 ^ 64) ∧
      ∀ ds, Written base.toNat ds buf → reading base.toNat ds < 2 ^ 64 →
        (xmStrtoll buf base).acc.toNat = reading base.toNat ds := by
  refine ⟨(xmStrtoll_ok_iff hbase buf).trans ⟨fun h => ⟨body buf, written_body h.1, h.2⟩, ?_⟩, ?_⟩
  · rintro ⟨ds, hds, hlt⟩
    rw [hds.body_eq]
    exact ⟨hds.digits, hlt⟩
  · intro ds hds hlt
    rw [xmStrtoll_acc, hds.body_eq, Nat.mod_eq_of_lt hlt]

/-- 2^64 - 1 is accepted, in both bases. -/
theorem xmStrtoll_accepts_max :
    (xmStrtoll [102, 70, 102, 102, 102, 102, 102, 102, 102, 102, 102, 102, 102, 102, 102, 102, 0] 16).err =
      false := by
  have hwritten : Written (16 : UInt64).toNat
      [102, 70, 102, 102, 102, 102, 102, 102, 102, 102, 102, 102, 102, 102, 102, 102]
      [102, 70, 102, 102, 102, 102, 102, 102, 102, 102, 102, 102, 102, 102, 102, 102, 0] :=
    ⟨fun b hb => ⟨15, by
      simp only [List.mem_cons, List.not_mem_nil, or_false] at hb
      rcases hb with h | h | h | h | h | h | h | h | h | h | h | h | h | h | h | h <;> rw [h] <;> rfl,
      by decide⟩, .inr rfl⟩
  exact (xmStrtoll_accepts_iff _ 16 (.inr rfl)).1.mpr ⟨_, hwritten, by decide⟩

/-! ## The readers of numbers -/

/-- A `DOMAIN_ID`: the number is kept with some bits inverted, so that 0 is no domain. -/
abbrev DomainId : Type := UInt32

def nullDomainId : DomainId := 0

def wrapDomainId (x : UInt32) : DomainId := x ^^^ 0xf001

def unwrapDomainId (x : DomainId) : UInt32 := x ^^^ 0xf001

/-- `DOMID_FIRST_RESERVED`. -/
def domidFirstReserved : UInt64 := 0x7ff0

namespace TransactionSys

/-- `xenbus_read_bin`, where the request ends with this status and this buffer: the buffer, and the
status. -/
def xenbusReadBin (s : TransactionSys) (xbt : XenbusTransactionT) (res : Ntstatus) (buf : List UInt8) :
    Ntstatus × Option (List UInt8) × TransactionSys :=
  let res := if ntSuccess (s.transactionStatus xbt) = true then res else s.transactionStatus xbt
  if ntSuccess res = true then (res, some buf, s) else (res, none, s.xenbusFailTransaction res xbt)

/-- `xenbus_read_int`. -/
def xenbusReadInt (s : TransactionSys) (xbt : XenbusTransactionT) (res : Ntstatus) (buf : List UInt8) :
    Ntstatus × UInt64 × TransactionSys :=
  match s.xenbusReadBin xbt res buf with
  | (stat, none, s) => (stat, 0, s)
  | (_, some buf, s) =>
    let r := xmStrtoll buf 10
    if r.err = true then (statusDataError, 0, s.xenbusFailTransaction statusDataError xbt)
    else (statusSuccess, r.acc, s)

/-- `xenbus_read_domain_id`. -/
def xenbusReadDomainId (s : TransactionSys) (xbt : XenbusTransactionT) (res : Ntstatus)
    (buf : List UInt8) : Ntstatus × DomainId × TransactionSys :=
  match s.xenbusReadBin xbt res buf with
  | (res, none, s) => (res, nullDomainId, s)
  | (res, some buf, s) =>
    let number := (xmStrtoll buf 10).acc
    if domidFirstReserved ≤ number then
      (statusInvalidParameter, nullDomainId, s.xenbusFailTransaction statusInvalidParameter xbt)
    else (res, wrapDomainId number.toUInt32, s)

variable {s : TransactionSys} {xbt : XenbusTransactionT} {buf : List UInt8} {res : Ntstatus}

/-- Neither the transaction nor the request has failed. -/
def readable (s : TransactionSys) (xbt : XenbusTransactionT) (res : Ntstatus) : Bool :=
  ntSuccess (s.transactionStatus xbt) && ntSuccess res

theorem xenbusReadBin_readable (h : s.readable xbt res = true) (buf : List UInt8) :
    s.xenbusReadBin xbt res buf = (res, some buf, s) := by
  obtain ⟨hstatus, hres⟩ := Bool.and_eq_true_iff.mp h
  simp [xenbusReadBin, hstatus, hres]

theorem xenbusReadBin_unreadable (h : s.readable xbt res = false) (buf : List UInt8) :
    ∃ stat, ntSuccess stat = false ∧
      s.xenbusReadBin xbt res buf = (stat, none, s.xenbusFailTransaction stat xbt) := by
  cases hstatus : ntSuccess (s.transactionStatus xbt) with
  | false => exact ⟨_, hstatus, by simp [xenbusReadBin, hstatus]⟩
  | true =>
    have hres : ntSuccess res = false := by simpa [readable, hstatus] using h
    exact ⟨res, hres, by simp [xenbusReadBin, hstatus, hres]⟩

/-- **`xenbus_read_int` is strict**: a value that can be read is a numeral below 2^64 or the call fails. -/
theorem xenbusReadInt_readable (h : s.readable xbt res = true) (buf : List UInt8) :
    (∃ ds, Written 10 ds buf ∧ reading 10 ds < 2 ^ 64 ∧
        s.xenbusReadInt xbt res buf = (statusSuccess, .ofNat (reading 10 ds), s)) ∨
      (∀ ds, Written 10 ds buf → 2 ^ 64 ≤ reading 10 ds) ∧
        s.xenbusReadInt xbt res buf =
          (statusDataError, 0, s.xenbusFailTransaction statusDataError xbt) := by
  have hbase : IsBase 10 := .inl rfl
  have haccepts := xmStrtoll_ok_iff hbase buf
  rw [xenbusReadInt, xenbusReadBin_readable h]
  cases herr : (xmStrtoll buf 10).err with
  | true =>
    refine .inr ⟨fun ds hds => ?_, by simp [herr]⟩
    by_contra hlt
    have hok := haccepts.mpr (by rw [hds.body_eq]; exact ⟨hds.digits, not_le.mp hlt⟩)
    rw [herr] at hok
    cases hok
  | false =>
    obtain ⟨hdigits, hlt⟩ := haccepts.mp herr
    refine .inl ⟨body buf, written_body hdigits, hlt, ?_⟩
    have hacc : (xmStrtoll buf 10).acc = .ofNat (reading 10 (body buf)) := xmStrtollLoop_acc rfl
    simp [herr, hacc]

/-! ## Domain ids -/

/-- These digits denote the id of a domain. -/
def DenotesDomain (buf : List UInt8) (n : Nat) : Prop :=
  ∃ ds, ds ≠ [] ∧ Written 10 ds buf ∧ reading 10 ds = n ∧ n < domidFirstReserved.toNat

/-- **A domain id is validated**: the call is successful only with the id that the value denotes, and
fails otherwise, with the transaction marked and without an id. -/
def Validated (s : TransactionSys) (xbt : XenbusTransactionT) (res : Ntstatus) (buf : List UInt8) : Prop :=
  match s.xenbusReadDomainId xbt res buf with
  | (stat, id, s') =>
    (ntSuccess stat = true ∧ ∃ n, DenotesDomain buf n ∧ (unwrapDomainId id).toNat = n) ∨
      ((∀ n, ¬ DenotesDomain buf n) ∨ s.readable xbt res = false) ∧
        ntSuccess stat = false ∧ id = nullDomainId ∧ s' = s.xenbusFailTransaction stat xbt

theorem unwrap_wrap (x : UInt32) : unwrapDomainId (wrapDomainId x) = x := by
  rw [unwrapDomainId, wrapDomainId, UInt32.xor_assoc, UInt32.xor_self, UInt32.xor_zero]

/-- **A value is validated** if it cannot be read, if it is a numeral, or if it comes to a number that is
large in its last 64 bits, where every character that is no digit counts as one. -/
theorem validated_iff (s : TransactionSys) (xbt : XenbusTransactionT) (res : Ntstatus)
    (buf : List UInt8) : Validated s xbt res buf ↔ s.readable xbt res = false ∨
      (∃ ds, ds ≠ [] ∧ Written 10 ds buf ∧ reading 10 ds < 2 ^ 64) ∨
      domidFirstReserved.toNat ≤ reading 10 (body buf) % 2 ^ 64 := by
  have hfirst : domidFirstReserved.toNat = 32752 := rfl
  rw [Validated, xenbusReadDomainId]
  cases hread : s.readable xbt res with
  | false =>
    obtain ⟨stat, hstat, heq⟩ := xenbusReadBin_unreadable hread buf
    rw [heq]
    exact iff_of_true (.inr ⟨.inr rfl, hstat, rfl, rfl⟩) (.inl rfl)
  | true =>
    have hres : ntSuccess res = true := (Bool.and_eq_true_iff.mp hread).2
    rw [xenbusReadBin_readable hread]
    have hacc : (xmStrtoll buf 10).acc.toNat = reading 10 (body buf) % 2 ^ 64 := xmStrtoll_acc buf 10
    simp only [UInt64.le_iff_toNat_le, hacc, Bool.true_eq_false, or_false, false_or]
    split
    · next hlarge =>
      refine iff_of_true (.inr ⟨?_, rfl, rfl, rfl⟩) (.inr hlarge)
      rintro n ⟨ds, -, hds, rfl, hlt⟩
      rw [hds.body_eq] at hlarge
      omega
    · next hsmall =>
      have hid : (unwrapDomainId (wrapDomainId (xmStrtoll buf 10).acc.toUInt32)).toNat =
          reading 10 (body buf) % 2 ^ 64 := by
        rw [unwrap_wrap, UInt64.toNat_toUInt32, hacc]
        omega
      simp only [hres, hid, true_and, Bool.true_eq_false, false_and, and_false, or_false]
      constructor
      · rintro ⟨n, ⟨ds, hne, hds, rfl, hlt⟩, -⟩
        exact .inl ⟨ds, hne, hds, by omega⟩
      · rintro (⟨ds, hne, hds, hlt⟩ | hlarge)
        · rw [hds.body_eq, Nat.mod_eq_of_lt hlt] at hsmall ⊢
          exact ⟨_, ⟨ds, hne, hds, rfl, not_le.mp hsmall⟩, rfl⟩
        · exact absurd hlarge hsmall

/-- `abc` is read as 1010 + 112 = 1122, and that is a domain. -/
theorem letters_validated : ¬ ∀ (s : TransactionSys) (xbt : XenbusTransactionT) (res : Ntstatus)
    (buf : List UInt8), Validated s xbt res buf := by
  intro h
  have habc := h ⟨fun _ => ⟨0, 0, .absent, 0, none⟩, [], []⟩ .nil statusSuccess [97, 98, 99]
  rcases habc with ⟨-, n, ⟨ds, -, hds, -⟩, -⟩ | ⟨-, hfail, -⟩
  · have hbody := hds.body_eq
    obtain ⟨digit, hvalue, hlt⟩ := hds.digits 97 (by rw [← hbody]; decide)
    cases hvalue
    exact absurd hlt (by decide)
  · exact absurd hfail (by decide)

end TransactionSys
end V4v.Xenutil
