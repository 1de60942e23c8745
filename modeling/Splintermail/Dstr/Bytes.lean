/-
This file models the primitives of libdstr that work on arbitrary bytes: the comparison
`dstr_cmp2`, hex coding, the replacement of patterns, and reading a file line by line.

The comparison looks at the first byte in which two strings differ, and at the next
byte of the longer one if the shorter one is its beginning. That byte may be NUL, and
then two different strings compare equal.
-/

import Mathlib.Data.List.Lex
import Mathlib.Data.List.Infix
import Splintermail.Dstr.Text

namespace Splintermail

open List

/-- The content of a `dstr_t` as bytes. -/
abbrev Bytes := List UInt8

/-! ### Comparison -/

/-- The value of a `char`, which is signed. -/
def charValue (byte : UInt8) : Int := if byte.toNat < 128 then byte.toNat else byte.toNat - 256

/-- The loop of `do_dstr_cmp2` and what follows it, case-sensitive. -/
def cmpChars : Bytes → Bytes → Int
  | [], [] => 0
  | first :: _, [] => charValue first
  | [], second :: _ => -charValue second
  | first :: firsts, second :: seconds =>
    if first ≠ second then charValue first - charValue second else cmpChars firsts seconds

/-- `dstr_cmp2` with a first string that was copied: an empty copy has no data, and then the first
byte of the other string is the result. -/
def dstrCmp2 : Bytes → Bytes → Int
  | [], second :: _ => charValue second
  | first, second => cmpChars first second

theorem charValue_injective {first second : UInt8} (same : charValue first = charValue second) :
    first = second := by
  have firstBound := first.toNat_lt
  have secondBound := second.toNat_lt
  refine UInt8.toNat_inj.mp ?_
  unfold charValue at same
  split at same
  · split at same <;> omega
  · split at same <;> omega

theorem charValue_eq_zero {byte : UInt8} : charValue byte = 0 ↔ byte = 0 :=
  ⟨fun zero => charValue_injective zero, fun zero => zero ▸ rfl⟩

/-- A string with its end, as the comparison ranks it. -/
def cmpRank (text : Bytes) : List Int := text.map charValue ++ [0]

theorem cmpRank_injective {first second : Bytes} (same : cmpRank first = cmpRank second) :
    first = second :=
  map_injective_iff.mpr (fun _ _ => charValue_injective) (append_cancel_right same)

theorem cmpChars_self (text : Bytes) : cmpChars text text = 0 := by
  induction text with
  | nil => rfl
  | cons char rest ih =>
    rw [cmpChars, if_neg (not_not.mpr rfl)]
    exact ih

/-- Different strings compare equal if one is the other with a NUL after it. -/
theorem cmpChars_eq_zero {first second : Bytes} :
    cmpChars first second = 0 ↔
      first = second ∨ first ++ [0] <+: second ∨ second ++ [0] <+: first := by
  induction first generalizing second with
  | nil =>
    cases second with
    | nil => simp [cmpChars]
    | cons char rest =>
      rw [cmpChars, Int.neg_eq_zero, charValue_eq_zero]
      simp only [nil_append, cons_append, cons_prefix_cons, nil_prefix,
        prefix_nil, reduceCtorEq, false_or, or_false, and_true]
      exact eq_comm
  | cons char rest ih =>
    cases second with
    | nil =>
      rw [cmpChars, charValue_eq_zero]
      simp only [nil_append, cons_append, cons_prefix_cons, nil_prefix,
        prefix_nil, reduceCtorEq, false_or, and_true]
      exact eq_comm
    | cons other others =>
      rw [cmpChars]
      by_cases same : char = other
      · subst same
        rw [if_neg (not_not.mpr rfl), ih]
        simp [cons_prefix_cons]
      · rw [if_pos same]
        have apart : charValue char - charValue other ≠ 0 := fun zero =>
          same (charValue_injective (by omega))
        simp [cons_prefix_cons, same, Ne.symm same, apart]

/-- The comparison agrees with the rank where it tells two strings apart. -/
theorem cmpChars_lt_zero {first second : Bytes} (apart : cmpChars first second ≠ 0) :
    cmpChars first second < 0 ↔ cmpRank first < cmpRank second := by
  induction first generalizing second with
  | nil =>
    cases second with
    | nil => exact absurd rfl apart
    | cons char rest =>
      rw [cmpChars] at apart ⊢
      unfold cmpRank
      rw [map_nil, map_cons, nil_append, cons_append, cons_lt_cons_iff]
      omega
  | cons char rest ih =>
    cases second with
    | nil =>
      rw [cmpChars] at apart ⊢
      unfold cmpRank
      rw [map_nil, map_cons, nil_append, cons_append, cons_lt_cons_iff]
      have order : ¬(rest.map charValue ++ [0] < []) := not_lt_nil _
      omega
    | cons other others =>
      have ranks : cmpRank (char :: rest) < cmpRank (other :: others) ↔
          charValue char < charValue other ∨
            charValue char = charValue other ∧ cmpRank rest < cmpRank others := by
        unfold cmpRank
        rw [map_cons, map_cons, cons_append, cons_append, cons_lt_cons_iff]
      rw [ranks]
      rw [cmpChars] at apart ⊢
      by_cases same : char = other
      · subst same
        rw [if_neg (not_not.mpr rfl)] at apart ⊢
        rw [ih apart]
        simp
      · rw [if_pos same]
        have distinct : charValue char ≠ charValue other := fun equal =>
          same (charValue_injective equal)
        omega

theorem dstrCmp2_of_ne_nil {first : Bytes} (nonempty : first ≠ []) (second : Bytes) :
    dstrCmp2 first second = cmpChars first second := by
  cases first with
  | nil => exact absurd rfl nonempty
  | cons char rest => rfl

/-! ### Hex coding -/

/-- A digit of `%.2x`. -/
def hexDigit (nibble : Nat) : UInt8 := if nibble < 10 then .ofNat (48 + nibble) else .ofNat (87 + nibble)

/-- `bin2hex` -/
def bin2hex (bin : Bytes) : Bytes :=
  bin.flatMap fun byte => [hexDigit (byte.toNat / 16), hexDigit (byte.toNat % 16)]

/-- The value of a hex digit, of either case. -/
def hexValue (char : UInt8) : Option Nat :=
  if 48 ≤ char.toNat ∧ char.toNat ≤ 57 then some (char.toNat - 48)
  else if 65 ≤ char.toNat ∧ char.toNat ≤ 70 then some (char.toNat - 55)
  else if 97 ≤ char.toNat ∧ char.toNat ≤ 102 then some (char.toNat - 87)
  else none

/-- `isspace` -/
def isSpace (char : UInt8) : Bool := char = 32 || (9 ≤ char.toNat && char.toNat ≤ 13)

/-- The loop of `hex2bin`, with the first digit of a byte if there is one. Space is ignored. -/
def hex2binFrom : Option Nat → Bytes → Except Derr Bytes
  | _, [] => .ok []
  | high, char :: rest =>
    match hexValue char, high with
    | some value, none => hex2binFrom (some value) rest
    | some value, some high => do
      let bytes ← hex2binFrom none rest
      return .ofNat (16 * high + value) :: bytes
    | none, high => if isSpace char then hex2binFrom high rest else .error ⟨.param, "bad hex input"⟩

/-- `hex2bin` -/
def hex2bin (hex : Bytes) : Except Derr Bytes := hex2binFrom none hex

theorem hexValue_hexDigit {nibble : Nat} (small : nibble < 16) :
    hexValue (hexDigit nibble) = some nibble := by
  have all : ∀ value < 16, hexValue (hexDigit value) = some value := by decide
  exact all nibble small

theorem hexDigit_ne_newline {nibble : Nat} (small : nibble < 16) : hexDigit nibble ≠ 10 := by
  have all : ∀ value < 16, hexDigit value ≠ 10 := by decide
  exact all nibble small

theorem hex2binFrom_first {char : UInt8} {value : Nat} (digit : hexValue char = some value)
    (rest : Bytes) : hex2binFrom none (char :: rest) = hex2binFrom (some value) rest := by
  unfold hex2binFrom
  rw [digit]
  cases rest <;> rfl

theorem hex2binFrom_second {char : UInt8} {value : Nat} (digit : hexValue char = some value)
    (high : Nat) {rest bytes : Bytes} (decoded : hex2binFrom none rest = .ok bytes) :
    hex2binFrom (some high) (char :: rest) = .ok (.ofNat (16 * high + value) :: bytes) := by
  unfold hex2binFrom
  rw [digit]
  show (hex2binFrom none rest >>= fun bytes => pure (UInt8.ofNat (16 * high + value) :: bytes)) = _
  rw [decoded]
  rfl

theorem hex2bin_bin2hex (bin : Bytes) : hex2bin (bin2hex bin) = .ok bin := by
  unfold hex2bin
  induction bin with
  | nil => rfl
  | cons byte rest ih =>
    have bound := byte.toNat_lt
    have shape : bin2hex (byte :: rest) =
        hexDigit (byte.toNat / 16) :: hexDigit (byte.toNat % 16) :: bin2hex rest := rfl
    have joined : UInt8.ofNat (16 * (byte.toNat / 16) + byte.toNat % 16) = byte := by
      rw [Nat.div_add_mod]
      exact UInt8.ofNat_toNat
    rw [shape, hex2binFrom_first (hexValue_hexDigit (by omega)),
      hex2binFrom_second (hexValue_hexDigit (by omega)) _ ih, joined]

/-- Bytes from their digits, two for each. A digit that is left over is dropped. -/
def hexPairs : List Nat → Bytes
  | high :: low :: rest => .ofNat (16 * high + low) :: hexPairs rest
  | _ => []

/-- The loop of `hex2bin` with the first digit of a byte if there is one. -/
theorem hex2binFrom_eq (high : Option Nat) (hex : Bytes) : hex2binFrom high hex =
    if hex.all fun char => (hexValue char).isSome || isSpace char then
      .ok (hexPairs (high.toList ++ hex.filterMap hexValue))
    else .error ⟨.param, "bad hex input"⟩ := by
  induction hex generalizing high with
  | nil => cases high <;> rfl
  | cons char rest ih =>
    rw [all_cons]
    cases digit : hexValue char with
    | some value =>
      rw [filterMap_cons_some digit, Option.isSome_some, Bool.true_or, Bool.true_and]
      cases high with
      | none => exact (hex2binFrom_first digit rest).trans (ih (some value))
      | some high =>
        conv_lhs => unfold hex2binFrom
        rw [digit]
        dsimp only
        rw [ih none]
        split_ifs <;> rfl
    | none =>
      rw [filterMap_cons_none digit]
      conv_lhs => unfold hex2binFrom
      rw [digit]
      cases space : isSpace char with
      | true => exact ih high
      | false => rfl

/-- `hex2bin` accepts digits and space, and nothing else. It reads two digits at a time, whatever
space is between them. -/
theorem hex2bin_exact (hex : Bytes) : hex2bin hex =
    if hex.all fun char => (hexValue char).isSome || isSpace char then
      .ok (hexPairs (hex.filterMap hexValue))
    else .error ⟨.param, "bad hex input"⟩ := hex2binFrom_eq none hex

theorem newline_notMem_bin2hex (bin : Bytes) : 10 ∉ bin2hex bin := by
  intro mem
  obtain ⟨byte, -, digits⟩ := mem_flatMap.mp mem
  have bound := byte.toNat_lt
  rcases mem_cons.mp digits with same | digits
  · exact hexDigit_ne_newline (by omega) same.symm
  · exact hexDigit_ne_newline (by omega) (mem_singleton.mp digits).symm

theorem bin2hex_ne_nil {bin : Bytes} (nonempty : bin ≠ []) : bin2hex bin ≠ [] := by
  cases bin with
  | nil => exact absurd rfl nonempty
  | cons byte rest => exact cons_ne_nil _ _

/-! ### Replacing patterns -/

/-- The loop of `do_dstr_recode`, with a number of bytes of a pattern that is being skipped. The
first pattern that matches counts. -/
def recodeFrom (table : List (Bytes × Bytes)) : Nat → Bytes → Bytes
  | _, [] => []
  | skip + 1, _ :: rest => recodeFrom table skip rest
  | 0, char :: rest =>
    match table.find? fun entry => entry.1.isPrefixOf (char :: rest) with
    | some (pattern, replacement) => replacement ++ recodeFrom table (pattern.length - 1) rest
    | none => char :: recodeFrom table 0 rest

/-- `dstr_recode` -/
def dstrRecode (table : List (Bytes × Bytes)) (text : Bytes) : Bytes := recodeFrom table 0 text

/-! ### Lines -/

/-- `dstr_split2_soft` at a newline with two outputs: the first line and what follows it. -/
def cutLine : Bytes → Bytes × Bytes
  | [] => ([], [])
  | char :: rest => if char = 10 then ([], rest) else (char :: (cutLine rest).1, (cutLine rest).2)

theorem length_cutLine_lt {text : Bytes} (more : ¬(cutLine text = ([], []))) :
    (cutLine text).2.length < text.length := by
  have bound : ∀ text : Bytes, text ≠ [] → (cutLine text).2.length < text.length := by
    intro text
    induction text with
    | nil => exact fun nonempty => absurd rfl nonempty
    | cons char rest ih =>
      intro _
      rw [cutLine, length_cons]
      split
      · exact Nat.lt_succ_self _
      · cases rest with
        | nil => exact Nat.succ_pos _
        | cons next tail => exact Nat.lt_succ_of_lt (ih (cons_ne_nil _ _))
  refine bound text ?_
  rintro rfl
  exact more rfl

/-- The lines of a file that are not empty. The loop ends where neither a line nor anything after it
is left. -/
def nonemptyLines (text : Bytes) : List Bytes :=
  if more : cutLine text = ([], []) then []
  else
    have := length_cutLine_lt more
    if (cutLine text).1 = [] then nonemptyLines (cutLine text).2
    else (cutLine text).1 :: nonemptyLines (cutLine text).2
  termination_by text.length

theorem cutLine_append {line : Bytes} (single : 10 ∉ line) (rest : Bytes) :
    cutLine (line ++ 10 :: rest) = (line, rest) := by
  induction line with
  | nil => rfl
  | cons char tail ih =>
    rw [mem_cons, not_or] at single
    rw [cons_append, cutLine, if_neg (Ne.symm single.1), ih single.2]

theorem nonemptyLines_eq_cons {text line rest : Bytes} (cut : cutLine text = (line, rest))
    (nonempty : line ≠ []) : nonemptyLines text = line :: nonemptyLines rest := by
  have more : ¬(cutLine text = ([], [])) := fun same =>
    nonempty (congrArg Prod.fst (cut.symm.trans same))
  rw [nonemptyLines, dif_neg more, if_neg (by rw [cut]; exact nonempty), cut]

theorem nonemptyLines_flatMap {lines : List Bytes} (nonempty : ∀ line ∈ lines, line ≠ [])
    (single : ∀ line ∈ lines, 10 ∉ line) :
    nonemptyLines (lines.flatMap fun line => line ++ [10]) = lines := by
  induction lines with
  | nil =>
    rw [nonemptyLines]
    rfl
  | cons line rest ih =>
    have cut := cutLine_append (single line mem_cons_self) (rest.flatMap fun line => line ++ [10])
    rw [flatMap_cons, append_assoc, singleton_append,
      nonemptyLines_eq_cons cut (nonempty line mem_cons_self),
      ih (fun other mem => nonempty other (.tail _ mem))
        fun other mem => single other (.tail _ mem)]

end Splintermail
