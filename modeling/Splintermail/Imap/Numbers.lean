/-
This file models how the IMAP grammar reads numbers: the rules `_n`, `modseqnum` and `num`.

The scanner breaks a long run of digits at the end of a packet, so that a number can be
several tokens. The parser scales what it has by a power of ten and adds the next token. It
checks that the scaled value fits 64 bits, but not that the sum does: a value right at the
limit wraps when the last token does not fit any more.
-/

import Mathlib.Data.List.Induction
import Splintermail.Dstr.Text

namespace Splintermail

open List

namespace Imap

/-! ### The rules -/

/-- The message of a `THROW_SYNTAX_ERROR`. -/
structure SyntaxError where
  msg : String
  deriving DecidableEq

/-- `_n` -/
def n (dtoken : Text) : Except SyntaxError Nat :=
  match dstrTou64 dtoken 10 with
  | .ok value => .ok value
  | .error _ => .error ⟨"invalid number"⟩

/-- The loop of `modseqnum` over the length of a token, on its `limit` and its `out`. -/
def scale : Nat → Nat × Nat → Nat × Nat
  | 0, scaled => scaled
  | nlen + 1, (limit, out) => scale nlen (limit / 10, out * 10 % 2 ^ 64)

/-- `modseqnum` at a token after the first one. -/
def anotherToken (total : Nat) (dtoken : Text) : Except SyntaxError Nat := do
  let value ← n dtoken
  let (limit, out) := scale dtoken.length (uintmaxMax, total)
  if total > limit then .error ⟨"integer overflow"⟩ else .ok ((out + value) % 2 ^ 64)

/-- `modseqnum` -/
def modseqnum (first : Text) (rest : List Text) : Except SyntaxError Nat := do
  let total ← n first
  rest.foldlM anotherToken total

/-- `num` -/
def num (first : Text) (rest : List Text) : Except SyntaxError Nat := do
  let value ← modseqnum first rest
  if value > uintMax then .error ⟨"integer overflow"⟩ else .ok value

/-! ### What they should read -/

/-- A token of the scanner's `num`. -/
structure NumToken (dtoken : Text) : Prop where
  nonempty : dtoken ≠ []
  digits : ∀ char ∈ dtoken, char.isDigit

/-- The decimal value of digits. -/
def decimal (digits : Text) : Nat := Nat.ofDigitChars 10 digits 0

/-- The value is parsed if it is within the limit, and an error is reported otherwise. -/
def Exact (limit value : Nat) (parsed : Except SyntaxError Nat) : Prop :=
  if value ≤ limit then parsed = .ok value else ∃ reported, parsed = .error reported

/-- A number is parsed exactly after each of its tokens, so that no value wraps on the way, in the
position of a `modseqnum` and in that of a `num`. -/
def ParsedExactly (first : Text) (rest : List Text) : Prop :=
  ∀ tokens, tokens <+: rest →
    Exact uintmaxMax (decimal (first ++ tokens.flatten)) (modseqnum first tokens) ∧
    Exact uintMax (decimal (first ++ tokens.flatten)) (num first tokens)

/-- A token goes across the limit of 64 bits: the value scaled by its length fits, and with the token
it does not. -/
def Crosses (total : Nat) (dtoken : Text) : Prop :=
  0 < total ∧ total * 10 ^ dtoken.length ≤ uintmaxMax ∧
    uintmaxMax < total * 10 ^ dtoken.length + decimal dtoken

/-! ### Decimal values -/

theorem decimal_append (digits more : Text) :
    decimal (digits ++ more) = decimal digits * 10 ^ more.length + decimal more := by
  rw [decimal, Nat.ofDigitChars_append, Nat.ofDigitChars_eq_ofDigitChars_zero, Nat.mul_comm]
  rfl

theorem decimal_lt {digits : Text} (each : ∀ char ∈ digits, char.isDigit) :
    decimal digits < 10 ^ digits.length := by
  induction digits with
  | nil => exact Nat.one_pos
  | cons char rest ih =>
    have value : decimal (char :: rest) =
        (char.toNat - '0'.toNat) * 10 ^ rest.length + decimal rest := by
      rw [decimal, Nat.ofDigitChars_cons, Nat.ofDigitChars_eq_ofDigitChars_zero, Nat.mul_zero,
        Nat.zero_add, Nat.mul_comm]
      rfl
    have below := digitValue_lt (each char mem_cons_self)
    have later := ih fun other mem => each other (.tail _ mem)
    rw [value, length_cons]
    calc (char.toNat - '0'.toNat) * 10 ^ rest.length + decimal rest
        < (char.toNat - '0'.toNat) * 10 ^ rest.length + 10 ^ rest.length :=
          Nat.add_lt_add_left later _
      _ = (char.toNat - '0'.toNat + 1) * 10 ^ rest.length := (Nat.succ_mul _ _).symm
      _ ≤ 10 * 10 ^ rest.length := Nat.mul_le_mul_right _ below
      _ = 10 ^ (rest.length + 1) := (Nat.pow_succ').symm

/-! ### One token -/

variable {total : Nat} {dtoken : Text}

theorem n_eq (token : NumToken dtoken) :
    n dtoken = if decimal dtoken ≤ uintmaxMax then .ok (decimal dtoken)
      else .error ⟨"invalid number"⟩ := by
  rw [n, dstrTou64_digits token.nonempty token.digits]
  unfold decimal
  split_ifs <;> rfl

theorem n_exact (token : NumToken dtoken) : Exact uintmaxMax (decimal dtoken) (n dtoken) := by
  rw [n_eq token, Exact]
  split_ifs
  · rfl
  · exact ⟨_, rfl⟩

theorem scale_eq (nlen limit out : Nat) :
    scale nlen (limit, out % 2 ^ 64) = (limit / 10 ^ nlen, out * 10 ^ nlen % 2 ^ 64) := by
  induction nlen generalizing limit out with
  | zero => simp [scale]
  | succ nlen ih =>
    rw [scale, Nat.mod_mul_mod, ih, Nat.div_div_eq_div_mul, Nat.mul_assoc, @Nat.pow_succ' 10 nlen]

/-- What a token does to a value that was parsed exactly. -/
theorem anotherToken_eq (token : NumToken dtoken) (fits : total ≤ uintmaxMax) :
    anotherToken total dtoken = if uintmaxMax < decimal dtoken then .error ⟨"invalid number"⟩
      else if uintmaxMax < total * 10 ^ dtoken.length then .error ⟨"integer overflow"⟩
      else .ok ((total * 10 ^ dtoken.length + decimal dtoken) % 2 ^ 64) := by
  have small : total % 2 ^ 64 = total := Nat.mod_eq_of_lt (by unfold uintmaxMax at fits; omega)
  have scaled := scale_eq dtoken.length uintmaxMax total
  rw [small] at scaled
  have limited : total > uintmaxMax / 10 ^ dtoken.length ↔ uintmaxMax < total * 10 ^ dtoken.length :=
    Nat.div_lt_iff_lt_mul (Nat.pow_pos (by decide))
  rw [anotherToken, n_eq token, scaled]
  by_cases large : uintmaxMax < decimal dtoken
  · rw [if_neg (Nat.not_le_of_lt large), if_pos large]
    rfl
  · rw [if_pos (Nat.le_of_not_lt large), if_neg large]
    show (if total > uintmaxMax / 10 ^ dtoken.length then _ else Except.ok _) = _
    simp only [limited, Nat.mod_add_mod]

theorem anotherToken_exact (token : NumToken dtoken) (fits : total ≤ uintmaxMax)
    (inside : ¬ Crosses total dtoken) :
    Exact uintmaxMax (total * 10 ^ dtoken.length + decimal dtoken) (anotherToken total dtoken) := by
  rw [anotherToken_eq token fits, Exact]
  by_cases whole : total * 10 ^ dtoken.length + decimal dtoken ≤ uintmaxMax
  · have bound : total * 10 ^ dtoken.length + decimal dtoken < 2 ^ 64 := by
      unfold uintmaxMax at whole
      omega
    rw [if_pos whole, if_neg (by omega), if_neg (by omega), Nat.mod_eq_of_lt bound]
  · rw [if_neg whole]
    by_cases large : uintmaxMax < decimal dtoken
    · exact ⟨_, if_pos large⟩
    · -- with nothing before it the token alone does not fit
      have positive : 0 < total := by
        rcases Nat.eq_zero_or_pos total with rfl | positive
        · omega
        · exact positive
      have scaled : uintmaxMax < total * 10 ^ dtoken.length := by
        by_contra scaled
        exact inside ⟨positive, Nat.le_of_not_lt scaled, Nat.lt_of_not_le whole⟩
      exact ⟨_, (if_neg large).trans (if_pos scaled)⟩

theorem anotherToken_crosses (token : NumToken dtoken) (crosses : Crosses total dtoken) :
    anotherToken total dtoken = .ok ((total * 10 ^ dtoken.length + decimal dtoken) % 2 ^ 64) := by
  obtain ⟨positive, scaled, _⟩ := crosses
  have power : 10 ^ dtoken.length ≤ total * 10 ^ dtoken.length := Nat.le_mul_of_pos_left _ positive
  have below := decimal_lt token.digits
  have one : total ≤ total * 10 ^ dtoken.length :=
    Nat.le_mul_of_pos_right _ (Nat.pow_pos (by decide))
  rw [anotherToken_eq token (Nat.le_trans one scaled), if_neg (by omega), if_neg (by omega)]

/-! ### Numbers of several tokens -/

variable {first : Text} {tokens rest : List Text}

theorem modseqnum_append (first : Text) (tokens : List Text) (dtoken : Text) :
    modseqnum first (tokens ++ [dtoken]) =
      (modseqnum first tokens >>= fun total => anotherToken total dtoken) := by
  simp [modseqnum, foldlM_append]

theorem Exact.ok {limit value : Nat} {parsed : Except SyntaxError Nat}
    (exactly : Exact limit value parsed) (fits : value ≤ limit) : parsed = .ok value := by
  rw [Exact, if_pos fits] at exactly
  exact exactly

/-- The check of `num` makes an exact 64 bit number an exact 32 bit number. -/
theorem num_exact {value : Nat} (exactly : Exact uintmaxMax value (modseqnum first tokens)) :
    Exact uintMax value (num first tokens) := by
  rw [Exact] at exactly ⊢
  split_ifs at exactly with fits
  · have checked : num first tokens =
        if value > uintMax then .error ⟨"integer overflow"⟩ else .ok value := by
      rw [num, exactly]
      rfl
    rw [checked]
    split_ifs with small large
    · exact absurd large (Nat.not_lt_of_le small)
    · rfl
    · exact ⟨_, rfl⟩
    · omega
  · obtain ⟨reported, failed⟩ := exactly
    have large : ¬ value ≤ uintMax := fun small => fits (Nat.le_trans small (by decide))
    rw [if_neg large, num, failed]
    exact ⟨reported, rfl⟩

/-- One more token keeps a number exact just if it does not cross the limit. -/
theorem append_exact_iff (token : NumToken dtoken)
    (before : Exact uintmaxMax (decimal (first ++ tokens.flatten)) (modseqnum first tokens)) :
    Exact uintmaxMax (decimal (first ++ (tokens ++ [dtoken]).flatten))
        (modseqnum first (tokens ++ [dtoken])) ↔
      ¬ Crosses (decimal (first ++ tokens.flatten)) dtoken := by
  have value : decimal (first ++ (tokens ++ [dtoken]).flatten) =
      decimal (first ++ tokens.flatten) * 10 ^ dtoken.length + decimal dtoken := by
    rw [flatten_append, ← append_assoc, decimal_append]
    simp
  rw [value, modseqnum_append]
  by_cases fits : decimal (first ++ tokens.flatten) ≤ uintmaxMax
  · rw [before.ok fits]
    show Exact _ _ (anotherToken _ dtoken) ↔ _
    refine ⟨fun exactly crosses => ?_, anotherToken_exact token fits⟩
    rw [anotherToken_crosses token crosses, Exact, if_neg (Nat.not_le_of_lt crosses.2.2)] at exactly
    exact absurd exactly nofun
  · rw [Exact, if_neg fits] at before
    obtain ⟨reported, failed⟩ := before
    have scaled : decimal (first ++ tokens.flatten) ≤
        decimal (first ++ tokens.flatten) * 10 ^ dtoken.length :=
      Nat.le_mul_of_pos_right _ (Nat.pow_pos (by decide))
    refine ⟨fun _ crosses => fits (Nat.le_trans scaled crosses.2.1), fun _ => ?_⟩
    rw [failed, Exact, if_neg (by omega)]
    exact ⟨reported, rfl⟩

/-- A number is parsed exactly just if none of its tokens crosses the limit. -/
theorem parsedExactly_iff (firstToken : NumToken first) (each : ∀ dtoken ∈ rest, NumToken dtoken) :
    ParsedExactly first rest ↔ ∀ tokens dtoken, tokens ++ [dtoken] <+: rest →
      ¬ Crosses (decimal (first ++ tokens.flatten)) dtoken := by
  constructor
  · intro exactly tokens dtoken inside
    have token := each dtoken (inside.subset (by simp))
    have before := (exactly tokens ((prefix_append _ _).trans inside)).1
    exact (append_exact_iff token before).mp (exactly _ inside).1
  · intro within tokens
    induction tokens using reverseRecOn with
    | nil =>
      intro _
      have alone : Exact uintmaxMax (decimal (first ++ [].flatten)) (modseqnum first []) := by
        rw [flatten_nil, append_nil, modseqnum]
        simpa using n_exact firstToken
      exact ⟨alone, num_exact alone⟩
    | append_singleton tokens dtoken ih =>
      intro inside
      have token := each dtoken (inside.subset (by simp))
      have before := (ih ((prefix_append _ _).trans inside)).1
      have here := (append_exact_iff token before).mpr (within tokens dtoken inside)
      exact ⟨here, num_exact here⟩

/-- 2^64 - 1 in two tokens. -/
theorem parsedExactly_iff_max :
    ParsedExactly "18446744073".toList ["709551615".toList] ↔
      ∀ tokens dtoken, tokens ++ [dtoken] <+: ["709551615".toList] →
        ¬ Crosses (decimal ("18446744073".toList ++ tokens.flatten)) dtoken :=
  parsedExactly_iff ⟨by simp, by simp⟩ fun dtoken mem =>
    mem_singleton.mp mem ▸ ⟨by simp, by simp⟩

/-- 2^64 + 3 wraps to three if its last digit is a token of its own. -/
theorem parsedExactly_fails :
    decimal "18446744073709551619".toList = 2 ^ 64 + 3 ∧
      modseqnum "1844674407370955161".toList ["9".toList] = .ok 3 ∧
      num "1844674407370955161".toList ["9".toList] = .ok 3 ∧
      ¬ ParsedExactly "1844674407370955161".toList ["9".toList] := by
  refine ⟨by decide, by decide, by decide, fun exactly => ?_⟩
  have last := (exactly ["9".toList] prefix_rfl).1
  have large : ¬ decimal ("1844674407370955161".toList ++ ["9".toList].flatten) ≤ uintmaxMax := by
    decide
  have wrapped : modseqnum "1844674407370955161".toList ["9".toList] = .ok 3 := by decide
  rw [Exact, if_neg large, wrapped] at last
  exact absurd last nofun

end Imap

end Splintermail
