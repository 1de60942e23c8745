/-
This file models `cvt.c` in the arithmetic of its own types, and states which texts its
conversions accept, and with which values.

`parse_integer` computes in `uintmax_t` and checks before each digit that the next number
still fits. A signed conversion compares the magnitude of a negative number minus one with
the largest value of its type, and the one magnitude from which one cannot be subtracted
is zero.
-/

import Mathlib.Data.Nat.Digits.Defs
import Splintermail.Dstr.Text

namespace Splintermail

open List

/-! ### Parsing -/

/-- `integer_t` -/
structure IntegerT where
  negative : Bool := false
  integer : UInt64 := 0
  ok : Bool := false
  deriving DecidableEq, Repr

/-- `UINTMAX_MAX`, as a `uintmax_t`. -/
def umaxMax : UInt64 := .ofNat uintmaxMax

/-- The loop of `parse_integer`, from a character on. -/
def parseIntegerLoop (baseReader : Char → Option Nat) (ubase : UInt64) : IntegerT → Text → IntegerT
  | out, [] => { out with ok := true }
  | out, c :: rest =>
    match baseReader c with
    | none => out
    | some digit =>
      let limit := umaxMax / ubase
      let mod := umaxMax % ubase
      if limit < out.integer then out
      else if out.integer = limit ∧ mod < .ofNat digit then out
      else
        parseIntegerLoop baseReader ubase
          { out with integer := out.integer * ubase + .ofNat digit } rest

/-- `parse_integer`, in the arithmetic of `uintmax_t`. -/
def parseIntegerUmax (text : Text) (base : Nat) : IntegerT :=
  match getBaseReader base, text with
  | none, _ => {}
  | _, [] => {}
  | some baseReader, c :: rest =>
    if c = '-' ∨ c = '+' then
      let out : IntegerT := { negative := c = '-' }
      -- a sign isn't enough
      if rest = [] then out else parseIntegerLoop baseReader (.ofNat base) out rest
    else parseIntegerLoop baseReader (.ofNat base) {} (c :: rest)

/-! ### Conversions -/

/-- What a conversion returns: its error type, if it fails, and `*out`. -/
structure Converted (Number : Type) where
  etype : Option DerrType := none
  out : Number
  deriving DecidableEq, Repr

open Converted

/-- The unsigned conversions, with the largest value of their type. -/
def dstrToUnsignedQuiet (max : UInt64) (text : Text) (base : Nat) : Converted Nat :=
  let num := parseIntegerUmax text base
  if !num.ok ∨ num.negative ∨ max < num.integer then ⟨some .param, 0⟩
  else ⟨none, num.integer.toNat⟩

/-- `dstr_tou_quiet` -/
def dstrTouQuiet : Text → Nat → Converted Nat := dstrToUnsignedQuiet (.ofNat uintMax)

/-- `dstr_toul_quiet` -/
def dstrToulQuiet : Text → Nat → Converted Nat := dstrToUnsignedQuiet umaxMax

/-- `dstr_tosize_quiet` -/
def dstrTosizeQuiet : Text → Nat → Converted Nat := dstrToUnsignedQuiet umaxMax

/-- `dstr_toull_quiet` -/
def dstrToullQuiet : Text → Nat → Converted Nat := dstrToUnsignedQuiet umaxMax

/-- `dstr_tou64_quiet` -/
def dstrTou64Quiet : Text → Nat → Converted Nat := dstrToUnsignedQuiet umaxMax

/-- `dstr_toumax_quiet`, which has no range to check. -/
def dstrToumaxQuiet (text : Text) (base : Nat) : Converted Nat :=
  let num := parseIntegerUmax text base
  if !num.ok ∨ num.negative then ⟨some .param, 0⟩ else ⟨none, num.integer.toNat⟩

/-- The signed conversions, with the largest value of their type. -/
def dstrToSignedQuiet (max : UInt64) (text : Text) (base : Nat) : Converted Int :=
  let num := parseIntegerUmax text base
  if !num.ok then ⟨some .param, 0⟩
  else if num.negative then
    if max < num.integer - 1 then ⟨some .param, 0⟩
    else ⟨none, -1 * ((num.integer - 1).toNat : Int) - 1⟩
  else if max < num.integer then ⟨some .param, 0⟩
  else ⟨none, num.integer.toNat⟩

/-- `INTMAX_MAX` -/
def intmaxMax : Nat := 2 ^ 63 - 1

/-- `dstr_toi_quiet` -/
def dstrToiQuiet : Text → Nat → Converted Int := dstrToSignedQuiet (.ofNat intMax)

/-- `dstr_tol_quiet` -/
def dstrTolQuiet : Text → Nat → Converted Int := dstrToSignedQuiet (.ofNat intmaxMax)

/-- `dstr_toll_quiet` -/
def dstrTollQuiet : Text → Nat → Converted Int := dstrToSignedQuiet (.ofNat intmaxMax)

/-- `dstr_toi64_quiet` -/
def dstrToi64Quiet : Text → Nat → Converted Int := dstrToSignedQuiet (.ofNat intmaxMax)

/-- `dstr_toimax_quiet` -/
def dstrToimaxQuiet : Text → Nat → Converted Int := dstrToSignedQuiet (.ofNat intmaxMax)

/-! ### Digits -/

/-- The value of a character that is a digit of a base. -/
def digitOf (base : Nat) (char : Char) : Option Nat := (readBase16 char).filter (· < base)

/-- The bases that have a reader. -/
def KnownBase (base : Nat) : Prop := base = 8 ∨ base = 10 ∨ base = 16

/-- The value of a character in a range of digits. -/
theorem readRange_eq_some {first last char : Char} {start value : Nat} :
    readRange first last start char = some value ↔
      first.toNat ≤ char.toNat ∧ char.toNat ≤ last.toNat ∧
        value = char.toNat - first.toNat + start := by
  have order : first ≤ char ∧ char ≤ last ↔ first.toNat ≤ char.toNat ∧ char.toNat ≤ last.toNat :=
    Iff.rfl
  unfold readRange
  split_ifs with inside
  · obtain ⟨low, high⟩ := order.mp inside
    rw [Option.some.injEq]
    exact ⟨fun same => ⟨low, high, same.symm⟩, fun is => is.2.2.symm⟩
  · exact ⟨nofun, fun is => absurd (order.mpr ⟨is.1, is.2.1⟩) inside⟩

theorem readRange_eq_none {first last char : Char} {start : Nat} :
    readRange first last start char = none ↔ ¬(first.toNat ≤ char.toNat ∧ char.toNat ≤ last.toNat) := by
  rw [Option.eq_none_iff_forall_ne_some]
  constructor
  · exact fun none inside => none _ (readRange_eq_some.mpr ⟨inside.1, inside.2, rfl⟩)
  · exact fun outside value same => outside ⟨(readRange_eq_some.mp same).1, (readRange_eq_some.mp same).2.1⟩

/-- The value of a hexadecimal digit. -/
theorem readBase16_eq_some {char : Char} {value : Nat} :
    readBase16 char = some value ↔ 48 ≤ char.toNat ∧ char.toNat ≤ 57 ∧ value = char.toNat - 48 ∨
      97 ≤ char.toNat ∧ char.toNat ≤ 102 ∧ value = char.toNat - 97 + 10 ∨
      65 ≤ char.toNat ∧ char.toNat ≤ 70 ∧ value = char.toNat - 65 + 10 := by
  unfold readBase16
  cases digit : readRange '0' '9' 0 char with
  | some number =>
    obtain ⟨low, high, rfl⟩ : 48 ≤ char.toNat ∧ char.toNat ≤ 57 ∧ number = char.toNat - 48 :=
      readRange_eq_some.mp digit
    show some (char.toNat - 48) = some value ↔ _
    rw [Option.some.injEq]
    omega
  | none =>
    have notDigit : ¬(48 ≤ char.toNat ∧ char.toNat ≤ 57) := readRange_eq_none.mp digit
    cases lower : readRange 'a' 'f' 10 char with
    | some number =>
      obtain ⟨low, high, rfl⟩ : 97 ≤ char.toNat ∧ char.toNat ≤ 102 ∧ number = char.toNat - 97 + 10 :=
        readRange_eq_some.mp lower
      show some (char.toNat - 97 + 10) = some value ↔ _
      rw [Option.some.injEq]
      omega
    | none =>
      have notLower : ¬(97 ≤ char.toNat ∧ char.toNat ≤ 102) := readRange_eq_none.mp lower
      refine Iff.trans (@readRange_eq_some 'A' 'F' char 10 value) ?_
      show 65 ≤ char.toNat ∧ char.toNat ≤ 70 ∧ value = char.toNat - 65 + 10 ↔ _
      omega

variable {base : Nat}

theorem digitOf_eq_some {char : Char} {value : Nat} :
    digitOf base char = some value ↔ readBase16 char = some value ∧ value < base := by
  unfold digitOf
  rw [Option.filter_eq_some_iff, decide_eq_true_eq]

theorem readRange_digits {last : Char} (small : base ≤ 10) (end' : last.toNat = 47 + base) :
    readRange '0' last 0 = digitOf base := by
  funext char
  ext value
  rw [digitOf_eq_some, readBase16_eq_some, readRange_eq_some, end']
  show 48 ≤ char.toNat ∧ char.toNat ≤ 47 + base ∧ value = char.toNat - 48 ↔ _
  omega

theorem getBaseReader_eq (known : KnownBase base) : getBaseReader base = some (digitOf base) := by
  obtain rfl | rfl | rfl := known
  · exact congrArg some (readRange_digits (by decide) rfl)
  · exact congrArg some (readRange_digits (by decide) rfl)
  · refine congrArg some ?_
    funext char
    ext value
    rw [digitOf_eq_some, readBase16_eq_some]
    omega

/-! ### The loop does not wrap around -/

theorem addDigit_le {total digit : Nat} (positive : 0 < base) (below : digit < base)
    (passes : ¬(total > uintmaxMax / base ∨ total = uintmaxMax / base ∧ digit > uintmaxMax % base)) :
    total * base + digit ≤ uintmaxMax := by
  rw [not_or, not_lt, not_and_or, not_lt] at passes
  obtain ⟨least, other | last⟩ := passes
  · have less : total + 1 ≤ uintmaxMax / base := lt_of_le_of_ne least other
    have product := (Nat.le_div_iff_mul_le positive).mp less
    rw [Nat.add_mul, Nat.one_mul] at product
    omega
  · have product := Nat.mul_le_mul_right base least
    have whole := Nat.div_add_mod' uintmaxMax base
    omega

theorem toNat_umaxMax : umaxMax.toNat = uintmaxMax := rfl

/-- The loop computes what it would compute in numbers without a bound. -/
theorem parseIntegerLoop_eq (known : KnownBase base) (out : IntegerT) (text : Text) :
    match parseDigits (digitOf base) base out.integer.toNat text with
    | some total => total ≤ uintmaxMax ∧
        parseIntegerLoop (digitOf base) (.ofNat base) out text =
          { out with integer := .ofNat total, ok := true }
    | none => (parseIntegerLoop (digitOf base) (.ofNat base) out text).ok = out.ok := by
  have positive : 0 < base := by
    obtain rfl | rfl | rfl := known <;> decide
  have ubase : (UInt64.ofNat base).toNat = base := by
    obtain rfl | rfl | rfl := known <;> rfl
  induction text generalizing out with
  | nil =>
    refine ⟨Nat.le_of_lt_succ out.integer.toNat_lt, ?_⟩
    rw [UInt64.ofNat_toNat]
    rfl
  | cons c rest ih =>
    rw [parseDigits, parseIntegerLoop]
    cases read : digitOf base c with
    | none => rfl
    | some digit =>
      dsimp only
      have below := (digitOf_eq_some.mp read).2
      have udigit : (UInt64.ofNat digit).toNat = digit := by
        refine UInt64.toNat_ofNat_of_lt' ?_
        obtain rfl | rfl | rfl := known <;> exact lt_trans below (by decide)
      have above : umaxMax / .ofNat base < out.integer ↔ out.integer.toNat > uintmaxMax / base := by
        rw [UInt64.lt_iff_toNat_lt, UInt64.toNat_div, toNat_umaxMax, ubase]
      have equal : out.integer = umaxMax / .ofNat base ∧ umaxMax % .ofNat base < .ofNat digit ↔
          out.integer.toNat = uintmaxMax / base ∧ digit > uintmaxMax % base := by
        rw [← UInt64.toNat_inj, UInt64.lt_iff_toNat_lt, UInt64.toNat_div, UInt64.toNat_mod,
          toNat_umaxMax, ubase, udigit]
      by_cases stops : out.integer.toNat > uintmaxMax / base ∨
          out.integer.toNat = uintmaxMax / base ∧ digit > uintmaxMax % base
      · rw [if_pos stops]
        dsimp only
        obtain more | last := stops
        · rw [if_pos (above.mpr more)]
        · rw [if_neg fun more => absurd (above.mp more) (by omega), if_pos (equal.mpr last)]
      · have small := addDigit_le positive below stops
        have next : (out.integer * .ofNat base + .ofNat digit).toNat =
            out.integer.toNat * base + digit := by
          rw [UInt64.toNat_add, UInt64.toNat_mul, ubase, udigit, Nat.mod_add_mod]
          exact Nat.mod_eq_of_lt (Nat.lt_succ_of_le small)
        rw [if_neg stops, if_neg fun more => stops (.inl (above.mp more)),
          if_neg fun last => stops (.inr (equal.mp last)), ← next]
        exact ih { out with integer := out.integer * .ofNat base + .ofNat digit }

/-! ### The number that digits write -/

/-- The number that digits of a base write, after a number in front of them. -/
def accumulate (base total : Nat) (digits : List Nat) : Nat :=
  digits.foldl (fun total digit => total * base + digit) total

theorem accumulate_eq_ofDigits (base : Nat) (digits : List Nat) :
    accumulate base 0 digits = Nat.ofDigits base digits.reverse := by
  rw [Nat.ofDigits_eq_foldr, foldr_reverse]
  unfold accumulate
  congr 1
  funext total digit
  rw [Nat.mul_comm, Nat.add_comm]
  rfl

theorem le_accumulate (positive : 0 < base) (total : Nat) (digits : List Nat) :
    total ≤ accumulate base total digits := by
  induction digits generalizing total with
  | nil => exact le_rfl
  | cons digit rest ih =>
    refine le_trans ?_ (ih (total * base + digit))
    exact le_trans (Nat.le_mul_of_pos_right total positive) (Nat.le_add_right _ digit)

theorem lt_addDigit {total digit : Nat} (positive : 0 < base)
    (stops : total > uintmaxMax / base ∨ total = uintmaxMax / base ∧ digit > uintmaxMax % base) :
    uintmaxMax < total * base + digit := by
  obtain more | ⟨rfl, last⟩ := stops
  · exact Nat.lt_add_right digit ((Nat.div_lt_iff_lt_mul positive).mp more)
  · have whole := Nat.div_add_mod' uintmaxMax base
    omega

/-- The loop reads the number that the digits write, if all are digits and it fits. -/
theorem parseDigits_accumulate (positive : 0 < base) (total : Nat) (small : total ≤ uintmaxMax)
    (text : Text) :
    parseDigits (digitOf base) base total text = (text.mapM (digitOf base)).bind fun digits =>
        if accumulate base total digits ≤ uintmaxMax then some (accumulate base total digits)
        else none := by
  induction text generalizing total with
  | nil => exact (if_pos small).symm
  | cons c rest ih =>
    rw [parseDigits, mapM_cons]
    cases read : digitOf base c with
    | none => rfl
    | some digit =>
      dsimp only
      have below := (digitOf_eq_some.mp read).2
      by_cases stops : total > uintmaxMax / base ∨
          total = uintmaxMax / base ∧ digit > uintmaxMax % base
      · rw [if_pos stops]
        cases rest.mapM (digitOf base) with
        | none => rfl
        | some digits =>
          refine (if_neg ?_).symm
          have first := lt_addDigit positive stops
          exact not_le_of_gt (lt_of_lt_of_le first (le_accumulate positive _ digits))
      · rw [if_neg stops, ih _ (addDigit_le positive below stops)]
        cases rest.mapM (digitOf base) <;> rfl

/-- Digits of a base, of which there is at least one, and the number they write. -/
def Numeral (base : Nat) (text : Text) (value : Nat) : Prop :=
  ∃ digits, text.mapM (digitOf base) = some digits ∧ digits ≠ [] ∧
    value = Nat.ofDigits base digits.reverse

theorem KnownBase.pos (known : KnownBase base) : 0 < base := by
  obtain rfl | rfl | rfl := known <;> decide

theorem parseDigits_eq_some (known : KnownBase base) {text : Text} (nonempty : text ≠ [])
    {value : Nat} : parseDigits (digitOf base) base 0 text = some value ↔
      Numeral base text value ∧ value ≤ uintmaxMax := by
  rw [parseDigits_accumulate known.pos 0 (Nat.zero_le _), Option.bind_eq_some_iff]
  constructor
  · rintro ⟨digits, read, result⟩
    split_ifs at result with small
    cases result
    refine ⟨⟨digits, read, ?_, accumulate_eq_ofDigits base digits⟩, small⟩
    rintro rfl
    cases text with
    | nil => exact nonempty rfl
    | cons c rest =>
      rw [mapM_cons] at read
      cases first : digitOf base c with
      | none =>
        rw [first] at read
        cases read
      | some digit =>
        rw [first] at read
        cases others : rest.mapM (digitOf base) with
        | none =>
          rw [others] at read
          cases read
        | some digits =>
          rw [others] at read
          cases read
  · rintro ⟨⟨digits, read, -, rfl⟩, small⟩
    refine ⟨digits, read, ?_⟩
    rw [accumulate_eq_ofDigits]
    exact if_pos small

/-! ### Signs -/

/-- The characters behind a sign, if there is one, and whether it is a minus. -/
def splitSign : Text → Bool × Text
  | [] => (false, [])
  | c :: rest => if c = '-' ∨ c = '+' then (c = '-', rest) else (false, c :: rest)

theorem splitSign_cases (text : Text) : (∃ rest, text = '-' :: rest) ∨ (∃ rest, text = '+' :: rest) ∨
    splitSign text = (false, text) := by
  cases text with
  | nil => exact .inr (.inr rfl)
  | cons c rest =>
    by_cases signed : c = '-' ∨ c = '+'
    · obtain rfl | rfl := signed
      · exact .inl ⟨rest, rfl⟩
      · exact .inr (.inl ⟨rest, rfl⟩)
    · exact .inr (.inr (if_neg signed))

theorem digitOf_sign {c : Char} (sign : c = '-' ∨ c = '+') : digitOf base c = none := by
  obtain rfl | rfl := sign <;> rfl

theorem Numeral.splitSign_eq {text : Text} {value : Nat} (numeral : Numeral base text value) :
    splitSign text = (false, text) := by
  obtain ⟨digits, read, nonempty, -⟩ := numeral
  cases text with
  | nil => rfl
  | cons c rest =>
    refine if_neg fun sign => ?_
    rw [mapM_cons, digitOf_sign sign] at read
    cases read

theorem Numeral.ne_nil {text : Text} {value : Nat} (numeral : Numeral base text value) :
    text ≠ [] := by
  rintro rfl
  obtain ⟨digits, read, nonempty, -⟩ := numeral
  exact nonempty (Option.some.inj read).symm

/-- What the parser reads in unbounded arithmetic. -/
theorem parseInteger_eq (known : KnownBase base) (text : Text) : parseInteger text base =
    if (splitSign text).2 = [] then none
    else (parseDigits (digitOf base) base 0 (splitSign text).2).map fun total =>
      ((splitSign text).1, total) := by
  unfold parseInteger
  rw [getBaseReader_eq known]
  cases text with
  | nil => rfl
  | cons c rest =>
    by_cases signed : c = '-' ∨ c = '+'
    · rw [splitSign, if_pos signed]
      exact if_pos signed
    · rw [splitSign, if_neg signed, if_neg (cons_ne_nil c rest)]
      exact if_neg signed

/-- The parser reads the number behind the sign, if it is one and fits, in either arithmetic. -/
theorem parseInteger_cases (known : KnownBase base) (text : Text) :
    (∃ total ≤ uintmaxMax, Numeral base (splitSign text).2 total ∧
      parseInteger text base = some ((splitSign text).1, total) ∧
      parseIntegerUmax text base = ⟨(splitSign text).1, .ofNat total, true⟩) ∨
    (∀ total, Numeral base (splitSign text).2 total → uintmaxMax < total) ∧
      parseInteger text base = none ∧ (parseIntegerUmax text base).ok = false := by
  have whole : parseIntegerUmax text base =
      if (splitSign text).2 = [] then { negative := (splitSign text).1 }
      else parseIntegerLoop (digitOf base) (.ofNat base) { negative := (splitSign text).1 }
        (splitSign text).2 := by
    unfold parseIntegerUmax
    rw [getBaseReader_eq known]
    cases text with
    | nil => rfl
    | cons c rest =>
      by_cases signed : c = '-' ∨ c = '+'
      · rw [splitSign, if_pos signed]
        exact if_pos signed
      · rw [splitSign, if_neg signed, if_neg (cons_ne_nil c rest)]
        exact if_neg signed
  rw [parseInteger_eq known, whole]
  by_cases nothing : (splitSign text).2 = []
  · rw [if_pos nothing, if_pos nothing]
    exact .inr ⟨fun value numeral => absurd nothing numeral.ne_nil, rfl, rfl⟩
  · rw [if_neg nothing, if_neg nothing]
    have read := @parseDigits_eq_some base known _ nothing
    have loop := parseIntegerLoop_eq known { negative := (splitSign text).1 } (splitSign text).2
    have start : ({ negative := (splitSign text).1 } : IntegerT).integer.toNat = 0 := rfl
    rw [start] at loop
    cases parsed : parseDigits (digitOf base) base 0 (splitSign text).2 with
    | none =>
      rw [parsed] at loop
      refine .inr ⟨fun value numeral => not_le.mp fun small => ?_, rfl, loop⟩
      exact absurd (parsed.symm.trans (read.mpr ⟨numeral, small⟩)) nofun
    | some total =>
      rw [parsed] at loop
      obtain ⟨numeral, small⟩ := read.mp parsed
      exact .inl ⟨total, small, numeral, rfl, loop.2⟩

theorem Numeral.unique {text : Text} {value other : Nat} (first : Numeral base text value)
    (second : Numeral base text other) : value = other := by
  obtain ⟨digits, read, -, rfl⟩ := first
  obtain ⟨others, again, -, rfl⟩ := second
  rw [Option.some.inj (read.symm.trans again)]

/-- An optional plus and a numeral. -/
inductive UnsignedText (base : Nat) : Text → Nat → Prop where
  | plain {text : Text} {value : Nat} : Numeral base text value → UnsignedText base text value
  | plus {text : Text} {value : Nat} : Numeral base text value → UnsignedText base ('+' :: text) value

/-- An optional sign and a numeral. -/
inductive SignedText (base : Nat) : Text → Int → Prop where
  | plain {text : Text} {value : Nat} : Numeral base text value → SignedText base text value
  | plus {text : Text} {value : Nat} : Numeral base text value → SignedText base ('+' :: text) value
  | minus {text : Text} {value : Nat} : Numeral base text value → SignedText base ('-' :: text) (-value)

theorem unsignedText_iff {text : Text} {value : Nat} : UnsignedText base text value ↔
    (splitSign text).1 = false ∧ Numeral base (splitSign text).2 value := by
  constructor
  · rintro (numeral | numeral)
    · rw [numeral.splitSign_eq]
      exact ⟨rfl, numeral⟩
    · exact ⟨rfl, numeral⟩
  · rintro ⟨sign, numeral⟩
    obtain ⟨rest, rfl⟩ | ⟨rest, rfl⟩ | same := splitSign_cases text
    · exact Bool.noConfusion sign
    · exact .plus numeral
    · rw [same] at numeral
      exact .plain numeral

theorem signedText_iff {text : Text} {value : Int} : SignedText base text value ↔
    ∃ magnitude, Numeral base (splitSign text).2 magnitude ∧
      value = if (splitSign text).1 then -(magnitude : Int) else magnitude := by
  constructor
  · rintro (numeral | numeral | numeral)
    · rw [numeral.splitSign_eq]
      exact ⟨_, numeral, rfl⟩
    · exact ⟨_, numeral, rfl⟩
    · exact ⟨_, numeral, rfl⟩
  · rintro ⟨magnitude, numeral, rfl⟩
    obtain ⟨rest, rfl⟩ | ⟨rest, rfl⟩ | same := splitSign_cases text
    · exact .minus numeral
    · exact .plus numeral
    · rw [same] at numeral ⊢
      exact .plain numeral

/-! ### The types -/

/-- The types of the unsigned conversions. -/
inductive UnsignedType where
  | u
  | ul
  | size
  | ull
  | u64
  | umax

/-- The types of the signed conversions. -/
inductive SignedType where
  | i
  | l
  | ll
  | i64
  | imax

namespace UnsignedType

/-- The largest value of a type. -/
def max : UnsignedType → Nat
  | .u => uintMax
  | .ul | .size | .ull | .u64 | .umax => uintmaxMax

/-- The conversion to a type. -/
def convert : UnsignedType → Text → Nat → Converted Nat
  | .u => dstrTouQuiet
  | .ul => dstrToulQuiet
  | .size => dstrTosizeQuiet
  | .ull => dstrToullQuiet
  | .u64 => dstrTou64Quiet
  | .umax => dstrToumaxQuiet

/-- The conversion reads a text exactly. -/
structure Exact (type : UnsignedType) (text : Text) (base : Nat) : Prop where
  accepts : ∀ value, UnsignedText base text value → value ≤ type.max →
    type.convert text base = ⟨none, value⟩
  refuses : (∀ value, UnsignedText base text value → type.max < value) →
    type.convert text base = ⟨some .param, 0⟩

end UnsignedType

namespace SignedType

/-- The largest value of a type; the least one is below its negation. -/
def max : SignedType → Nat
  | .i => intMax
  | .l | .ll | .i64 | .imax => intmaxMax

/-- A value is in the range of a type. -/
def InRange (type : SignedType) (value : Int) : Prop := -(type.max : Int) - 1 ≤ value ∧ value ≤ type.max

/-- The conversion to a type. -/
def convert : SignedType → Text → Nat → Converted Int
  | .i => dstrToiQuiet
  | .l => dstrTolQuiet
  | .ll => dstrTollQuiet
  | .i64 => dstrToi64Quiet
  | .imax => dstrToimaxQuiet

/-- The conversion reads a text exactly. -/
structure Exact (type : SignedType) (text : Text) (base : Nat) : Prop where
  accepts : ∀ value, SignedText base text value → type.InRange value →
    type.convert text base = ⟨none, value⟩
  refuses : (∀ value, SignedText base text value → ¬ type.InRange value) →
    type.convert text base = ⟨some .param, 0⟩

end SignedType

/-- No step wraps around: the number is the one that unbounded arithmetic gives, and one is
subtracted from positive magnitudes only. -/
def NoWrap (text : Text) (base : Nat) : Prop :=
  match parseInteger text base with
  | some (negative, total) =>
    parseIntegerUmax text base = ⟨negative, .ofNat total, true⟩ ∧ total ≤ uintmaxMax ∧
      (negative → (UInt64.ofNat total - 1).toNat + 1 = total)
  | none => (parseIntegerUmax text base).ok = false

/-- All conversions read a text exactly, and no step wraps around. -/
structure IntegersExact (text : Text) (base : Nat) : Prop where
  unsigned : ∀ type : UnsignedType, type.Exact text base
  signed : ∀ type : SignedType, type.Exact text base
  noWrap : NoWrap text base

/-- A minus, and zeros. -/
def NegativeZero (text : Text) : Prop := ∃ zeros, text = '-' :: replicate (zeros + 1) '0'

/-! ### The unsigned conversions -/

section
variable {base : Nat} {text : Text}

theorem dstrToUnsignedQuiet_exact (known : KnownBase base) {max : Nat} (fits : max ≤ uintmaxMax) :
    (∀ value, UnsignedText base text value → value ≤ max →
      dstrToUnsignedQuiet (.ofNat max) text base = ⟨none, value⟩) ∧
    ((∀ value, UnsignedText base text value → max < value) →
      dstrToUnsignedQuiet (.ofNat max) text base = ⟨some .param, 0⟩) := by
  have number : ∀ value ≤ uintmaxMax, (UInt64.ofNat value).toNat = value := fun value small =>
    UInt64.toNat_ofNat_of_lt' (Nat.lt_succ_of_le small)
  unfold dstrToUnsignedQuiet
  obtain ⟨total, small, numeral, -, parsed⟩ | ⟨none, -, stops⟩ := parseInteger_cases known text
  · rw [parsed]
    have order : UInt64.ofNat max < .ofNat total ↔ max < total := by
      rw [UInt64.lt_iff_toNat_lt, number max fits, number total small]
    constructor
    · intro value unsigned within
      obtain ⟨sign, other⟩ := unsignedText_iff.mp unsigned
      obtain rfl := other.unique numeral
      rw [sign]
      dsimp only
      rw [if_neg, number value small]
      simpa [order] using within
    · intro above
      refine if_pos ?_
      cases sign : (splitSign text).1 with
      | true => exact .inr (.inl rfl)
      | false => exact .inr (.inr (order.mpr (above total (unsignedText_iff.mpr ⟨sign, numeral⟩))))
  · constructor
    · intro value unsigned within
      have large := none value (unsignedText_iff.mp unsigned).2
      omega
    · exact fun _ => if_pos (.inl (by rw [stops]; rfl))

theorem dstrToumaxQuiet_eq : dstrToumaxQuiet text base = dstrToUnsignedQuiet umaxMax text base := by
  have within : ∀ number : UInt64, ¬ umaxMax < number := fun number => by
    rw [UInt64.lt_iff_toNat_lt, toNat_umaxMax]
    exact Nat.not_lt_of_le (Nat.le_of_lt_succ number.toNat_lt)
  unfold dstrToumaxQuiet dstrToUnsignedQuiet
  simp only [within, or_false]

theorem UnsignedType.exact (known : KnownBase base) (type : UnsignedType) : type.Exact text base := by
  have small := @dstrToUnsignedQuiet_exact base text known uintMax (by decide)
  have large := @dstrToUnsignedQuiet_exact base text known uintmaxMax le_rfl
  cases type with
  | u => exact ⟨small.1, small.2⟩
  | ul | size | ull | u64 => exact ⟨large.1, large.2⟩
  | umax =>
    refine ⟨fun value unsigned fits => ?_, fun above => ?_⟩
    · exact dstrToumaxQuiet_eq.trans (large.1 value unsigned fits)
    · exact dstrToumaxQuiet_eq.trans (large.2 above)

/-- What a conversion with a message returns. -/
def Converted.toExcept {Number : Type} (converted : Converted Number) : Except Derr Number :=
  match converted.etype with
  | none => .ok converted.out
  | some type => .error ⟨type, "invalid number string"⟩

theorem dstrToUnsigned_eq (known : KnownBase base) {limit : Nat} (fits : limit ≤ uintmaxMax) :
    dstrToUnsigned limit text base = (dstrToUnsignedQuiet (.ofNat limit) text base).toExcept := by
  have number : ∀ value ≤ uintmaxMax, (UInt64.ofNat value).toNat = value := fun value small =>
    UInt64.toNat_ofNat_of_lt' (Nat.lt_succ_of_le small)
  unfold dstrToUnsigned dstrToUnsignedQuiet
  obtain ⟨total, small, -, same, parsed⟩ | ⟨-, none, stops⟩ := parseInteger_cases known text
  · rw [same, parsed]
    cases (splitSign text).1 with
    | true => rfl
    | false =>
      have order : UInt64.ofNat limit < .ofNat total ↔ total > limit := by
        rw [UInt64.lt_iff_toNat_lt, number limit fits, number total small]
      by_cases above : total > limit
      · simp [above, order.mpr above, toExcept]
      · simp [above, mt order.mp above, toExcept, number total small]
  · rw [none]
    simp [stops, toExcept]

/-! ### Negative zero -/

theorem digitOf_eq_zero (positive : 0 < base) {c : Char} : digitOf base c = some 0 ↔ c = '0' := by
  rw [digitOf_eq_some, readBase16_eq_some]
  have same : c = '0' ↔ c.toNat = 48 := Char.toNat_inj.symm
  rw [same]
  omega

/-- The numerals of zero are written with zeros. -/
theorem numeral_zero (positive : 0 < base) {text : Text} :
    Numeral base text 0 ↔ ∃ zeros, text = replicate (zeros + 1) '0' := by
  constructor
  · intro numeral
    have nonempty := numeral.ne_nil
    obtain ⟨digits, read, -, zero⟩ := numeral
    have all : ∀ (text : Text) (digits : List Nat), text.mapM (digitOf base) = some digits →
        accumulate base 0 digits = 0 → text = replicate text.length '0' := by
      intro text
      induction text with
      | nil => exact fun _ _ _ => rfl
      | cons c rest ih =>
        intro digits read zero
        rw [mapM_cons] at read
        obtain ⟨digit, first, read⟩ := Option.bind_eq_some_iff.mp read
        obtain ⟨others, behind, read⟩ := Option.bind_eq_some_iff.mp read
        cases read
        have zero : accumulate base (0 * base + digit) others = 0 := zero
        have least := le_accumulate positive (0 * base + digit) others
        rw [zero, Nat.zero_mul, Nat.zero_add] at least
        obtain rfl := Nat.le_zero.mp least
        obtain rfl := (digitOf_eq_zero positive).mp first
        rw [Nat.zero_mul] at zero
        have tail := ih others behind zero
        rw [length_cons, replicate_succ, ← tail]
    obtain ⟨zeros, length⟩ := Nat.exists_eq_succ_of_ne_zero (mt length_eq_zero_iff.mp nonempty)
    refine ⟨zeros, ?_⟩
    rw [← Nat.succ_eq_add_one, ← length]
    exact all text digits read ((accumulate_eq_ofDigits base digits).trans zero.symm)
  · rintro ⟨zeros, rfl⟩
    have read : ∀ count, (replicate count '0').mapM (digitOf base) =
        some (replicate count 0) := by
      intro count
      induction count with
      | zero => rfl
      | succ count ih =>
        rw [replicate_succ, mapM_cons, (digitOf_eq_zero positive).mpr rfl, ih]
        rfl
    have sum : ∀ count, accumulate base 0 (replicate count 0) = 0 := by
      intro count
      induction count with
      | zero => rfl
      | succ count ih =>
        rw [replicate_succ]
        show accumulate base (0 * base + 0) (replicate count 0) = 0
        rw [Nat.zero_mul]
        exact ih
    refine ⟨_, read (zeros + 1), cons_ne_nil _ _, ?_⟩
    rw [← accumulate_eq_ofDigits, sum]

theorem negativeZero_iff (positive : 0 < base) :
    NegativeZero text ↔ (splitSign text).1 = true ∧ Numeral base (splitSign text).2 0 := by
  constructor
  · rintro ⟨zeros, rfl⟩
    exact ⟨rfl, (numeral_zero positive).mpr ⟨zeros, rfl⟩⟩
  · rintro ⟨sign, numeral⟩
    obtain ⟨rest, rfl⟩ | ⟨rest, rfl⟩ | same := splitSign_cases text
    · obtain ⟨zeros, rfl⟩ := (numeral_zero positive).mp numeral
      exact ⟨zeros, rfl⟩
    · exact Bool.noConfusion sign
    · rw [same] at sign
      exact Bool.noConfusion sign

/-! ### The signed conversions -/

theorem toNat_pred {magnitude : Nat} (small : magnitude ≤ uintmaxMax) (positive : 0 < magnitude) :
    (UInt64.ofNat magnitude - 1).toNat + 1 = magnitude := by
  have number : (UInt64.ofNat magnitude).toNat = magnitude :=
    UInt64.toNat_ofNat_of_lt' (Nat.lt_succ_of_le small)
  have one : (1 : UInt64) ≤ .ofNat magnitude := by
    rw [UInt64.le_iff_toNat_le, number]
    exact positive
  rw [UInt64.toNat_sub_of_le _ _ one, number]
  exact Nat.sub_add_cancel positive

section

variable (known : KnownBase base)

include known

theorem dstrToSignedQuiet_exact {max : Nat} (fits : max ≤ intmaxMax)
    (nonzero : ¬ NegativeZero text) :
    (∀ value, SignedText base text value → -(max : Int) - 1 ≤ value ∧ value ≤ max →
      dstrToSignedQuiet (.ofNat max) text base = ⟨none, value⟩) ∧
    ((∀ value, SignedText base text value → ¬(-(max : Int) - 1 ≤ value ∧ value ≤ max)) →
      dstrToSignedQuiet (.ofNat max) text base = ⟨some .param, 0⟩) := by
  have number : ∀ value ≤ uintmaxMax, (UInt64.ofNat value).toNat = value := fun value small =>
    UInt64.toNat_ofNat_of_lt' (Nat.lt_succ_of_le small)
  have most : intmaxMax + 1 ≤ uintmaxMax := by decide
  unfold dstrToSignedQuiet
  obtain ⟨total, small, numeral, -, parsed⟩ | ⟨none, -, stops⟩ := parseInteger_cases known text
  · -- what is computed of the magnitude, by the sign
    have computes : (let num := parseIntegerUmax text base
        if !num.ok then (⟨some .param, 0⟩ : Converted Int)
        else if num.negative then
          if .ofNat max < num.integer - 1 then ⟨some .param, 0⟩
          else ⟨none, -1 * ((num.integer - 1).toNat : Int) - 1⟩
        else if .ofNat max < num.integer then ⟨some .param, 0⟩
        else ⟨none, num.integer.toNat⟩) =
        if -(max : Int) - 1 ≤ (if (splitSign text).1 then -(total : Int) else total) ∧
            (if (splitSign text).1 then -(total : Int) else total) ≤ max then
          ⟨none, if (splitSign text).1 then -(total : Int) else total⟩
        else ⟨some .param, 0⟩ := by
      rw [parsed]
      cases sign : (splitSign text).1 with
      | true =>
        have positive : 0 < total := by
          refine Nat.pos_of_ne_zero ?_
          rintro rfl
          exact nonzero ((negativeZero_iff known.pos).mpr ⟨sign, numeral⟩)
        have pred := toNat_pred small positive
        simp only [Bool.not_true, Bool.false_eq_true, if_false, if_true]
        have order : UInt64.ofNat max < .ofNat total - 1 ↔ max < (UInt64.ofNat total - 1).toNat := by
          rw [UInt64.lt_iff_toNat_lt, number max (by omega)]
        by_cases above : max < (UInt64.ofNat total - 1).toNat
        · rw [if_pos (order.mpr above), if_neg (by omega)]
        · rw [if_neg (mt order.mp above), if_pos (by omega)]
          congr 1
          omega
      | false =>
        simp only [Bool.not_true, Bool.false_eq_true, if_false]
        have order : UInt64.ofNat max < .ofNat total ↔ max < total := by
          rw [UInt64.lt_iff_toNat_lt, number max (by omega), number total small]
        by_cases above : max < total
        · rw [if_pos (order.mpr above), if_neg (by omega)]
        · rw [if_neg (mt order.mp above), if_pos (by omega), number total small]
    rw [computes]
    constructor
    · intro value signed within
      obtain ⟨magnitude, other, rfl⟩ := signedText_iff.mp signed
      obtain rfl := other.unique numeral
      exact if_pos within
    · exact fun outside => if_neg (outside _ (signedText_iff.mpr ⟨total, numeral, rfl⟩))
  · constructor
    · intro value signed within
      obtain ⟨magnitude, other, rfl⟩ := signedText_iff.mp signed
      have large := none magnitude other
      split_ifs at within <;> omega
    · refine fun _ => if_pos ?_
      rw [stops]
      rfl

theorem SignedType.exact (nonzero : ¬ NegativeZero text) (type : SignedType) :
    type.Exact text base := by
  have small := @dstrToSignedQuiet_exact base text known intMax (by decide) nonzero
  have large := @dstrToSignedQuiet_exact base text known intmaxMax le_rfl nonzero
  cases type with
  | i => exact ⟨small.1, small.2⟩
  | l | ll | i64 | imax => exact ⟨large.1, large.2⟩

/-! ### All conversions -/

/-- Only for a negative zero a step wraps around. -/
theorem noWrap_of_nonzero (nonzero : ¬ NegativeZero text) : NoWrap text base := by
  unfold NoWrap
  obtain ⟨total, small, numeral, same, parsed⟩ | ⟨-, none, stops⟩ := parseInteger_cases known text
  · rw [same]
    refine ⟨parsed, small, fun negative => toNat_pred small (Nat.pos_of_ne_zero ?_)⟩
    rintro rfl
    exact nonzero ((negativeZero_iff known.pos).mpr ⟨negative, numeral⟩)
  · rw [none]
    exact stops

theorem dstrToSignedQuiet_negativeZero (zero : NegativeZero text) {max : Nat}
    (fits : max ≤ intmaxMax) : dstrToSignedQuiet (.ofNat max) text base = ⟨some .param, 0⟩ := by
  obtain ⟨sign, numeral⟩ := (negativeZero_iff known.pos).mp zero
  obtain ⟨total, small, other, -, parsed⟩ | ⟨none, -⟩ := parseInteger_cases known text
  · obtain rfl := other.unique numeral
    unfold dstrToSignedQuiet
    rw [parsed, sign]
    have bound : intmaxMax < uintmaxMax := by decide
    show (if UInt64.ofNat max < .ofNat 0 - 1 then (⟨some .param, 0⟩ : Converted Int) else _) = _
    refine if_pos ?_
    have below := lt_of_le_of_lt fits bound
    rw [UInt64.lt_iff_toNat_lt, UInt64.toNat_ofNat_of_lt' (Nat.lt_succ_of_lt below)]
    exact below
  · exact absurd (none 0 numeral) (Nat.not_lt_zero _)

/-- The conversion to an `int` in unbounded arithmetic is that of the code. -/
theorem dstrToi_eq : dstrToi text base = (dstrToiQuiet text base).toExcept := by
  have number : ∀ value ≤ uintmaxMax, (UInt64.ofNat value).toNat = value := fun value small =>
    UInt64.toNat_ofNat_of_lt' (Nat.lt_succ_of_le small)
  have limit : (UInt64.ofNat intMax).toNat = intMax := rfl
  unfold dstrToi dstrToiQuiet dstrToSignedQuiet
  obtain ⟨total, small, -, same, parsed⟩ | ⟨-, none, stops⟩ := parseInteger_cases known text
  · rw [same, parsed]
    cases (splitSign text).1 with
    | true =>
      obtain rfl | positive := Nat.eq_zero_or_pos total
      · rfl
      · have pred := toNat_pred small positive
        have same : (UInt64.ofNat total - 1).toNat = total - 1 := Nat.eq_sub_of_add_eq pred
        have order : UInt64.ofNat intMax < .ofNat total - 1 ↔ total - 1 > intMax := by
          rw [UInt64.lt_iff_toNat_lt, limit, same]
        have nonzero : total ≠ 0 := Nat.ne_of_gt positive
        by_cases above : total - 1 > intMax
        · simp [above, order.mpr above, toExcept]
        · simp [above, mt order.mp above, toExcept, same, nonzero]
    | false =>
      have order : UInt64.ofNat intMax < .ofNat total ↔ total > intMax := by
        rw [UInt64.lt_iff_toNat_lt, limit, number total small]
      by_cases above : total > intMax
      · simp [above, order.mpr above, toExcept]
      · simp [above, mt order.mp above, toExcept, number total small]
  · rw [none]
    simp [stops, toExcept]

end

/-- The conversions in unbounded arithmetic are those of the code, which computes in the 64 bits of
a `uintmax_t`. -/
theorem dstrTo_unbounded (text : Text) (base : Nat) :
    dstrTou text base = (dstrTouQuiet text base).toExcept ∧
      dstrTou64 text base = (dstrTou64Quiet text base).toExcept ∧
      dstrToi text base = (dstrToiQuiet text base).toExcept := by
  by_cases known : KnownBase base
  · exact ⟨dstrToUnsigned_eq known (by decide), dstrToUnsigned_eq known le_rfl, dstrToi_eq known⟩
  · have unknown : getBaseReader base = none := by
      unfold KnownBase at known
      simp only [not_or] at known
      rw [getBaseReader, if_neg known.1, if_neg known.2.1, if_neg known.2.2]
    have none : parseInteger text base = none := by
      unfold parseInteger
      rw [unknown]
    have stops : parseIntegerUmax text base = {} := by
      unfold parseIntegerUmax
      rw [unknown]
    simp [dstrTou, dstrTou64, dstrToi, dstrToUnsigned, dstrTouQuiet, dstrTou64Quiet, dstrToiQuiet,
      dstrToUnsignedQuiet, dstrToSignedQuiet, none, stops, toExcept]

/-- All conversions read a text exactly and without a wrap, unless it is a negative zero, which the
signed ones refuse. -/
theorem dstrTo_exact (known : KnownBase base) : IntegersExact text base ↔ ¬ NegativeZero text := by
  constructor
  · rintro exact zero
    obtain ⟨sign, numeral⟩ := (negativeZero_iff known.pos).mp zero
    have signed : SignedText base text 0 :=
      signedText_iff.mpr ⟨0, numeral, by rw [sign]; rfl⟩
    have accepted := (exact.signed .i).accepts 0 signed ⟨by decide, by decide⟩
    exact nomatch accepted.symm.trans (dstrToSignedQuiet_negativeZero known zero (by decide))
  · exact fun nonzero => ⟨UnsignedType.exact known, SignedType.exact known nonzero,
      noWrap_of_nonzero known nonzero⟩

/-- The least number of an `int`, in capital letters. -/
theorem dstrTo_exact_least : IntegersExact ['-', '8', '0', '0', '0', '0', '0', '0', '0'] 16 :=
  (dstrTo_exact (.inr (.inr rfl))).mpr fun ⟨_, same⟩ =>
    absurd (congrArg (fun text => text.getD 1 ' ') same : '8' = '0') (by decide)

/-- A negative zero is a numeral with a sign, and its value is zero, but it is refused. -/
theorem dstrTo_negativeZero : SignedText 10 ['-', '0'] 0 ∧ SignedType.i.InRange 0 ∧
    (∀ type : SignedType, type.convert ['-', '0'] 10 = ⟨some .param, 0⟩) ∧
      ¬ NoWrap ['-', '0'] 10 := by
  have numeral : Numeral 10 ['0'] 0 := ⟨[0], rfl, cons_ne_nil _ _, rfl⟩
  refine ⟨.minus numeral, ⟨by decide, by decide⟩, fun type => ?_, fun noWrap => ?_⟩
  · cases type <;> decide +kernel
  · obtain ⟨-, -, pred⟩ : _ ∧ _ ∧ (_ → _) := noWrap
    exact absurd (pred rfl) (by decide)

end

end Splintermail
