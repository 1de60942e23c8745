/-
This file models the text primitives of libdstr that the cache log is written
and read with: the integer formatters `FU` and `FI`, the integer parser of
`cvt.c` and the conversions built on it, and the word splitters of `common.c`.

A `dstr_t` is modelled as the list of its characters. What the log relies on is
that parsing undoes formatting, and that splitting at a separator undoes writing
words with the separator between them.
-/

import Mathlib.Algebra.Group.Int.Defs
import Mathlib.Algebra.GroupWithZero.Nat
import Mathlib.Data.Nat.Basic
import Mathlib.Data.List.Basic
import Mathlib.Tactic.Common

namespace Splintermail

open List

/-- The content of a `dstr_t`. -/
abbrev Text := List Char

/-- The error types that the modelled functions raise. The last is not one of the source: it stands
for a byte that is read from outside of a buffer. -/
inductive DerrType where
  | param
  | value
  | internal
  | fixedsize
  | response
  | imaildir
  | ssl
  | not4me
  | overread
  deriving DecidableEq, Repr

/-- A raised error: its type and its message. -/
structure Derr where
  type : DerrType
  text : String
  deriving DecidableEq, Repr

theorem exists_of_bind_eq_ok {Error Value Result : Type} {first : Except Error Value}
    {next : Value → Except Error Result} {result : Result} (done : first >>= next = .ok result) :
    ∃ value, first = .ok value ∧ next value = .ok result := by
  cases first with
  | error error => cases done
  | ok value => exact ⟨value, rfl, done⟩

/-! ### Formatting integers -/

/-- `FU`: an unsigned integer in decimal. -/
def fmtUint (value : Nat) : Text := Nat.toDigits 10 value

/-- `FI`: a signed integer in decimal. -/
def fmtInt (value : Int) : Text :=
  if value < 0 then '-' :: Nat.toDigits 10 value.natAbs else Nat.toDigits 10 value.natAbs

variable {value : Nat} {char : Char}

theorem isDigit_of_mem_fmtUint (mem : char ∈ fmtUint value) : char.isDigit :=
  Nat.isDigit_of_mem_toDigits (by decide) (by decide) mem

theorem fmtUint_ne_nil (value : Nat) : fmtUint value ≠ [] := Nat.toDigits_ne_nil

theorem notMem_fmtUint (other : char.isDigit = false) : char ∉ fmtUint value := fun mem => by
  rw [isDigit_of_mem_fmtUint mem] at other
  cases other

theorem notMem_fmtInt {value : Int} (other : char.isDigit = false) (sign : char ≠ '-') :
    char ∉ fmtInt value := by
  unfold fmtInt
  split
  · intro mem
    rcases mem_cons.mp mem with same | mem
    · exact sign same
    · exact notMem_fmtUint other mem
  · exact notMem_fmtUint other

theorem length_fmtUint_le {bound : Nat} (positive : 0 < bound) (small : value < 10 ^ bound) :
    (fmtUint value).length ≤ bound :=
  (Nat.length_toDigits_le_iff (by decide) positive).mpr small

theorem length_fmtInt_le {value : Int} {bound : Nat} (positive : 0 < bound)
    (small : value.natAbs < 10 ^ bound) : (fmtInt value).length ≤ bound + 1 := by
  have digits := length_fmtUint_le positive small
  unfold fmtUint at digits
  unfold fmtInt
  split
  · rw [length_cons]
    omega
  · omega

/-! ### Parsing integers -/

/-- `UINTMAX_MAX` -/
def uintmaxMax : Nat := 2 ^ 64 - 1

/-- `UINT_MAX` -/
def uintMax : Nat := 2 ^ 32 - 1

/-- `INT_MAX` -/
def intMax : Nat := 2 ^ 31 - 1

/-- The value of a character within a range of digits that starts at `first`. -/
def readRange (first last : Char) (start : Nat) (char : Char) : Option Nat :=
  if first ≤ char ∧ char ≤ last then some (char.toNat - first.toNat + start) else none

def readBase8 : Char → Option Nat := readRange '0' '7' 0

def readBase10 : Char → Option Nat := readRange '0' '9' 0

def readBase16 (char : Char) : Option Nat :=
  readRange '0' '9' 0 char <|> readRange 'a' 'f' 10 char <|> readRange 'A' 'F' 10 char

/-- `get_base_reader` -/
def getBaseReader (base : Nat) : Option (Char → Option Nat) :=
  if base = 8 then some readBase8
  else if base = 10 then some readBase10
  else if base = 16 then some readBase16
  else none

/-- The digit loop of `parse_integer`, with its check that the next digit still fits. -/
def parseDigits (reader : Char → Option Nat) (base : Nat) : Nat → Text → Option Nat
  | total, [] => some total
  | total, char :: rest =>
    match reader char with
    | none => none
    | some digit =>
      if total > uintmaxMax / base ∨ (total = uintmaxMax / base ∧ digit > uintmaxMax % base) then
        none
      else parseDigits reader base (total * base + digit) rest

/-- `parse_integer`: the sign and the magnitude, if the text is a number. -/
def parseInteger (text : Text) (base : Nat) : Option (Bool × Nat) :=
  match getBaseReader base, text with
  | none, _ => none
  | _, [] => none
  | some reader, char :: rest =>
    if char = '-' ∨ char = '+' then
      if rest = [] then none else (parseDigits reader base 0 rest).map fun total => (char = '-', total)
    else (parseDigits reader base 0 (char :: rest)).map fun total => (false, total)

/-- The unsigned conversions, which differ in the largest value only. -/
def dstrToUnsigned (limit : Nat) (text : Text) (base : Nat) : Except Derr Nat :=
  match parseInteger text base with
  | some (false, total) =>
    if total > limit then .error ⟨.param, "invalid number string"⟩ else .ok total
  | _ => .error ⟨.param, "invalid number string"⟩

/-- `dstr_tou` -/
def dstrTou (text : Text) (base : Nat) : Except Derr Nat := dstrToUnsigned uintMax text base

/-- `dstr_tou64` -/
def dstrTou64 (text : Text) (base : Nat) : Except Derr Nat := dstrToUnsigned uintmaxMax text base

/-- `dstr_toi`. A negative zero is rejected: the magnitude minus one wraps around. -/
def dstrToi (text : Text) (base : Nat) : Except Derr Int :=
  match parseInteger text base with
  | some (true, total) =>
    if total = 0 ∨ total - 1 > intMax then .error ⟨.param, "invalid number string"⟩
    else .ok (-1 * ((total - 1 : Nat) : Int) - 1)
  | some (false, total) =>
    if total > intMax then .error ⟨.param, "invalid number string"⟩ else .ok total
  | none => .error ⟨.param, "invalid number string"⟩

/-! ### Parsing undoes formatting -/

theorem readBase10_of_isDigit (digit : char.isDigit) :
    readBase10 char = some (char.toNat - '0'.toNat) := by
  unfold readBase10 readRange
  have bounds := (Char.isDigit_iff_toNat.mp digit)
  rw [if_pos]
  · rfl
  · exact ⟨bounds.1, bounds.2⟩

theorem ofDigitChars_ge (text : Text) (total : Nat) : total ≤ Nat.ofDigitChars 10 text total := by
  induction text generalizing total with
  | nil => exact le_of_eq rfl
  | cons char rest ih =>
    rw [Nat.ofDigitChars_cons]
    exact le_trans (by omega) (ih _)

theorem digitValue_lt (digit : char.isDigit) : char.toNat - '0'.toNat < 10 := by
  have bounds := Char.isDigit_iff_toNat.mp digit
  have last : '9'.toNat = 57 := rfl
  have first : '0'.toNat = 48 := rfl
  omega

/-- The digit loop reads a text of digits as the number it writes, as long as that number
fits. -/
theorem parseDigits_eq (text : Text) (total : Nat) (digits : ∀ char ∈ text, char.isDigit)
    (small : Nat.ofDigitChars 10 text total ≤ uintmaxMax) :
    parseDigits readBase10 10 total text = some (Nat.ofDigitChars 10 text total) := by
  induction text generalizing total with
  | nil => rfl
  | cons char rest ih =>
    have digit := digits char mem_cons_self
    rw [Nat.ofDigitChars_cons] at small ⊢
    have grows := le_trans (ofDigitChars_ge rest (10 * total + (char.toNat - '0'.toNat))) small
    have below := digitValue_lt digit
    rw [parseDigits, readBase10_of_isDigit digit]
    simp only
    rw [if_neg, Nat.mul_comm total 10]
    · exact ih _ (fun other mem => digits other (.tail _ mem)) small
    · unfold uintmaxMax at grows ⊢
      omega

theorem parseDigits_eq_none (text : Text) (total : Nat) (digits : ∀ char ∈ text, char.isDigit)
    (fits : total ≤ uintmaxMax) (large : uintmaxMax < Nat.ofDigitChars 10 text total) :
    parseDigits readBase10 10 total text = none := by
  induction text generalizing total with
  | nil => exact absurd fits (Nat.not_le_of_lt large)
  | cons char rest ih =>
    have digit := digits char mem_cons_self
    rw [Nat.ofDigitChars_cons] at large
    have below := digitValue_lt digit
    rw [parseDigits, readBase10_of_isDigit digit]
    simp only
    split
    · rfl
    next checked =>
      rw [Nat.mul_comm total 10]
      refine ih _ (fun other mem => digits other (.tail _ mem)) ?_ large
      unfold uintmaxMax at checked ⊢
      omega

theorem parseInteger_digits {text : Text} (nonempty : text ≠ [])
    (digits : ∀ char ∈ text, char.isDigit) :
    parseInteger text 10 = (parseDigits readBase10 10 0 text).map fun total => (false, total) := by
  cases text with
  | nil => exact absurd rfl nonempty
  | cons char rest =>
    have notMinus : ¬(char = '-' ∨ char = '+') := by
      rintro (rfl | rfl)
      · exact absurd (digits _ mem_cons_self) (by decide)
      · exact absurd (digits _ mem_cons_self) (by decide)
    show (if char = '-' ∨ char = '+' then _ else _) = _
    rw [if_neg notMinus]

theorem parseInteger_fmtUint (small : value ≤ uintmaxMax) :
    parseInteger (fmtUint value) 10 = some (false, value) := by
  have digits : ∀ char ∈ fmtUint value, char.isDigit := fun _ mem => isDigit_of_mem_fmtUint mem
  have reads : Nat.ofDigitChars 10 (fmtUint value) 0 = value := Nat.ofDigitChars_ten_toDigits
  rw [parseInteger_digits (fmtUint_ne_nil value) digits,
    parseDigits_eq _ _ digits (le_of_eq_of_le reads small), reads]
  rfl

theorem dstrToUnsigned_fmtUint {limit : Nat} (fits : value ≤ limit) (limited : limit ≤ uintmaxMax) :
    dstrToUnsigned limit (fmtUint value) 10 = .ok value := by
  unfold dstrToUnsigned
  rw [parseInteger_fmtUint (le_trans fits limited)]
  simp only
  rw [if_neg (by omega)]

/-- A text of digits is read exactly, or refused. -/
theorem dstrTou64_digits {text : Text} (nonempty : text ≠ [])
    (digits : ∀ char ∈ text, char.isDigit) :
    dstrTou64 text 10 =
      if Nat.ofDigitChars 10 text 0 ≤ uintmaxMax then .ok (Nat.ofDigitChars 10 text 0)
      else .error ⟨.param, "invalid number string"⟩ := by
  unfold dstrTou64 dstrToUnsigned
  rw [parseInteger_digits nonempty digits]
  split_ifs with fits
  · rw [parseDigits_eq _ _ digits fits]
    exact if_neg (Nat.not_lt_of_le fits)
  · rw [parseDigits_eq_none _ _ digits (Nat.zero_le _) (Nat.lt_of_not_le fits)]
    rfl

@[simp] theorem dstrTou_fmtUint (fits : value ≤ uintMax) : dstrTou (fmtUint value) 10 = .ok value :=
  dstrToUnsigned_fmtUint fits (by decide)

@[simp] theorem dstrTou64_fmtUint (fits : value ≤ uintmaxMax) :
    dstrTou64 (fmtUint value) 10 = .ok value :=
  dstrToUnsigned_fmtUint fits le_rfl

theorem parseInteger_fmtInt {value : Int} (small : value.natAbs ≤ uintmaxMax) :
    parseInteger (fmtInt value) 10 = some (decide (value < 0), value.natAbs) := by
  have unsigned := parseInteger_fmtUint small
  unfold fmtInt
  split
  · rename_i negative
    have digits : ∀ char ∈ fmtUint value.natAbs, char.isDigit :=
      fun _ mem => isDigit_of_mem_fmtUint mem
    have reads : Nat.ofDigitChars 10 (fmtUint value.natAbs) 0 = value.natAbs :=
      Nat.ofDigitChars_ten_toDigits
    have total : parseDigits readBase10 10 0 (fmtUint value.natAbs) = some value.natAbs := by
      rw [parseDigits_eq _ _ digits (le_of_eq_of_le reads small), reads]
    have base : getBaseReader 10 = some readBase10 := rfl
    unfold parseInteger
    rw [base]
    simp only
    rw [if_pos (Or.inl trivial), if_neg Nat.toDigits_ne_nil, decide_eq_true negative]
    unfold fmtUint at total
    rw [total]
    rfl
  · rename_i nonnegative
    rw [decide_eq_false nonnegative]
    exact unsigned

@[simp] theorem dstrToi_fmtInt {value : Int} (lower : -2 ^ 31 ≤ value) (upper : value < 2 ^ 31) :
    dstrToi (fmtInt value) 10 = .ok value := by
  have small : value.natAbs ≤ uintmaxMax := by
    unfold uintmaxMax
    omega
  unfold dstrToi
  rw [parseInteger_fmtInt small]
  by_cases negative : value < 0
  · rw [decide_eq_true negative]
    simp only
    rw [if_neg (by unfold intMax; omega)]
    congr 1
    omega
  · rw [decide_eq_false negative]
    simp only
    rw [if_neg (by unfold intMax; omega)]
    congr 1
    omega

/-! ### Splitting words -/

/-- The first word, and what follows its separator if there is one. -/
def cutWord (separator : Char) : Text → Text × Option Text
  | [] => ([], none)
  | char :: rest =>
    if char = separator then ([], some rest)
    else ((char :: (cutWord separator rest).1), (cutWord separator rest).2)

/-- `dstr_split2_soft` with a number of outputs: the last output keeps the rest of the text. -/
def dstrSplit2Soft (separator : Char) : Nat → Text → List Text
  | 0, _ => []
  | 1, text => [text]
  | count + 2, text =>
    match cutWord separator text with
    | (word, none) => [word]
    | (word, some rest) => word :: dstrSplit2Soft separator (count + 1) rest

/-- `dstr_split2` with a number of outputs: more words than outputs is an error. -/
def dstrSplit2 (separator : Char) : Nat → Text → Except Derr (List Text)
  | 0, _ => .error ⟨.fixedsize, "too many words"⟩
  | count + 1, text =>
    match cutWord separator text with
    | (word, none) => .ok [word]
    | (word, some rest) => (dstrSplit2 separator count rest).map fun words => word :: words

variable {separator : Char}

theorem cutWord_of_notMem {word : Text} (absent : separator ∉ word) :
    cutWord separator word = (word, none) := by
  induction word with
  | nil => rfl
  | cons char rest ih =>
    rw [mem_cons, not_or] at absent
    rw [cutWord, if_neg (Ne.symm absent.1), ih absent.2]

theorem cutWord_append {word : Text} (absent : separator ∉ word) (rest : Text) :
    cutWord separator (word ++ separator :: rest) = (word, some rest) := by
  induction word with
  | nil => exact if_pos rfl
  | cons char tail ih =>
    rw [mem_cons, not_or] at absent
    rw [cons_append, cutWord, if_neg (Ne.symm absent.1), ih absent.2]

/-- Words written with a separator between them. -/
def joinWords (separator : Char) : List Text → Text
  | [] => []
  | [word] => word
  | word :: next :: rest => word ++ separator :: joinWords separator (next :: rest)

variable {words : List Text}

theorem dstrSplit2Soft_joinWords {count : Nat} (absent : ∀ word ∈ words, separator ∉ word)
    (nonempty : words ≠ []) (room : words.length < count) :
    dstrSplit2Soft separator count (joinWords separator words) = words := by
  induction words generalizing count with
  | nil => exact absurd rfl nonempty
  | cons word rest ih =>
    obtain ⟨more, rfl⟩ : ∃ more, count = more + 2 := ⟨count - 2, by
      rw [length_cons] at room
      omega⟩
    have wordAbsent := absent word mem_cons_self
    cases rest with
    | nil =>
      show (match cutWord separator word with | _ => _) = _
      rw [dstrSplit2Soft, joinWords, cutWord_of_notMem wordAbsent]
    | cons next tail =>
      rw [dstrSplit2Soft, joinWords, cutWord_append wordAbsent]
      simp only
      rw [ih (fun other mem => absent other (.tail _ mem))
        (cons_ne_nil _ _) (by rw [length_cons] at room; omega)]

theorem dstrSplit2_joinWords {count : Nat} (absent : ∀ word ∈ words, separator ∉ word)
    (nonempty : words ≠ []) (room : words.length ≤ count) :
    dstrSplit2 separator count (joinWords separator words) = .ok words := by
  induction words generalizing count with
  | nil => exact absurd rfl nonempty
  | cons word rest ih =>
    obtain ⟨more, rfl⟩ : ∃ more, count = more + 1 := ⟨count - 1, by
      rw [length_cons] at room
      omega⟩
    have wordAbsent := absent word mem_cons_self
    cases rest with
    | nil => rw [dstrSplit2, joinWords, cutWord_of_notMem wordAbsent]
    | cons next tail =>
      rw [dstrSplit2, joinWords, cutWord_append wordAbsent]
      simp only
      rw [ih (fun other mem => absent other (.tail _ mem))
        (cons_ne_nil _ _) (by rw [length_cons] at room; omega)]
      rfl

/-- The words of a text: there is one at least, and none has the separator. -/
structure Words (separator : Char) where
  list : List Text
  nonempty : list ≠ []
  plain : ∀ word ∈ list, separator ∉ word

theorem exists_words (separator : Char) (text : Text) :
    ∃ words : Words separator, joinWords separator words.list = text := by
  induction text with
  | nil => exact ⟨⟨[[]], cons_ne_nil _ _, by simp⟩, rfl⟩
  | cons char rest ih =>
    obtain ⟨⟨list, nonempty, plain⟩, joined⟩ := ih
    cases list with
    | nil => exact absurd rfl nonempty
    | cons word others =>
      obtain ⟨first, later⟩ := forall_mem_cons.mp plain
      by_cases same : char = separator
      · refine ⟨⟨[] :: word :: others, cons_ne_nil _ _, forall_mem_cons.mpr ⟨not_mem_nil, plain⟩⟩, ?_⟩
        exact congrArg₂ cons same.symm joined
      · refine ⟨⟨(char :: word) :: others, cons_ne_nil _ _, forall_mem_cons.mpr ⟨?_, later⟩⟩, ?_⟩
        · exact fun mem => (mem_cons.mp mem).elim (same ∘ Eq.symm) first
        · cases others <;> exact congrArg (cons char) joined

theorem dstrSplit2_words (nonempty : words ≠ []) (plain : ∀ word ∈ words, separator ∉ word)
    (count : Nat) :
    dstrSplit2 separator count (joinWords separator words) =
      if words.length ≤ count then .ok words else .error ⟨.fixedsize, "too many words"⟩ := by
  induction words generalizing count with
  | nil => exact absurd rfl nonempty
  | cons word rest ih =>
    obtain ⟨first, later⟩ := forall_mem_cons.mp plain
    cases count with
    | zero => rfl
    | succ count =>
      cases rest with
      | nil =>
        rw [joinWords, dstrSplit2, cutWord_of_notMem first, if_pos (by simp)]
      | cons next more =>
        rw [joinWords, dstrSplit2, cutWord_append first, length_cons,
          if_congr Nat.succ_le_succ_iff rfl rfl]
        dsimp only
        rw [ih (cons_ne_nil _ _) later]
        split_ifs <;> rfl

theorem dstrSplit2Soft_words (nonempty : words ≠ []) (plain : ∀ word ∈ words, separator ∉ word)
    (count : Nat) :
    dstrSplit2Soft separator (count + 1) (joinWords separator words) =
      if words.length ≤ count + 1 then words
      else words.take count ++ [joinWords separator (words.drop count)] := by
  induction words generalizing count with
  | nil => exact absurd rfl nonempty
  | cons word rest ih =>
    obtain ⟨first, later⟩ := forall_mem_cons.mp plain
    cases rest with
    | nil =>
      rw [joinWords, if_pos (by simp)]
      cases count with
      | zero => rfl
      | succ count => rw [dstrSplit2Soft, cutWord_of_notMem first]
    | cons next more =>
      cases count with
      | zero => rfl
      | succ count =>
        rw [joinWords, dstrSplit2Soft, cutWord_append first, length_cons,
          if_congr Nat.succ_le_succ_iff rfl rfl]
        dsimp only
        rw [ih (cons_ne_nil _ _) later]
        split_ifs <;> rfl

theorem Words.list_inj {words others : Words separator}
    (same : joinWords separator words.list = joinWords separator others.list) :
    words.list = others.list := by
  have first := dstrSplit2_words words.nonempty words.plain (words.list.length + others.list.length)
  have second := dstrSplit2_words others.nonempty others.plain (words.list.length + others.list.length)
  rw [if_pos (by omega)] at first second
  rw [same, second] at first
  exact (Except.ok.inj first).symm

/-- Splitting is exact. A text has one list of words, whatever it is split into. With too few
outputs `dstr_split2` fails, and `dstr_split2_soft` keeps the rest in the last one. -/
theorem dstrSplit_exact (separator : Char) (text : Text) : ∃ words : Words separator,
    joinWords separator words.list = text ∧
    (∀ others : Words separator, joinWords separator others.list = text → others.list = words.list) ∧
    ∀ count,
      dstrSplit2 separator (count + 1) text = (if words.list.length ≤ count + 1 then .ok words.list
        else .error ⟨.fixedsize, "too many words"⟩) ∧
      dstrSplit2Soft separator (count + 1) text = if words.list.length ≤ count + 1 then words.list
        else words.list.take count ++ [joinWords separator (words.list.drop count)] := by
  obtain ⟨words, rfl⟩ := exists_words separator text
  exact ⟨words, rfl, fun others => Words.list_inj, fun count => ⟨dstrSplit2_words words.nonempty words.plain _,
    dstrSplit2Soft_words words.nonempty words.plain count⟩⟩

end Splintermail
