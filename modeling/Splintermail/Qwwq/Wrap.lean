/-
This file models `wrap()` of qwwq: the tokens of a text, and the two passes that fill lines
with them.

The first pass counts what the second one appends to a string of that size. A word ends at
the first byte that is not above a space, and the loop that looks for it reads one byte
more than the text has when there is none. What that byte is makes no difference to the
tokens.
-/

import Splintermail.Dstr.Bytes

namespace Splintermail

open List

/-! ### Tokens -/

/-- The loop over the bytes of a word, whose text begins with the byte at `i`: where it stops, and
whether it read the byte behind the text. -/
def wordLoop (beyond : UInt8) : Nat → Bytes → Nat × Bool
  | i, [] => (i + 1, false)
  | i, _ :: rest =>
    let u := rest.headD beyond
    let outside := rest.isEmpty
    if u ≤ 32 then (i + 1, outside)
    else
      let more := wordLoop beyond (i + 1) rest
      (more.1, outside || more.2)

/-- `next_token`: the token and the text behind it, and whether the byte behind the text was read. -/
def nextToken (beyond : UInt8) : Bytes → Option (Bytes × Bytes) × Bool
  | [] => (none, false)
  | first :: rest =>
    if first < 32 ∧ first ≠ 10 then (some ([first], rest), false)
    else if first = 10 then
      -- find consecutive newlines
      let i := 1 + (rest.takeWhile (· = 10)).length
      -- return multiple or final newlines, otherwise drop single newlines
      if 1 < i ∨ (first :: rest).length = 1 then
        (some ((first :: rest).take i, (first :: rest).drop i), false)
      else nextToken beyond (rest.drop (i - 1))
    else if first = 32 then
      -- drop all the spaces and rescan
      nextToken beyond (rest.drop (rest.takeWhile (· = 32)).length)
    else
      let word := wordLoop beyond 0 (first :: rest)
      (some ((first :: rest).take word.1, (first :: rest).drop word.1), word.2)
termination_by text => text.length
decreasing_by
  · rw [length_drop, length_cons]
    omega
  · rw [length_drop, length_cons]
    omega

theorem le_wordLoop (beyond : UInt8) (i : Nat) (text : Bytes) : i < (wordLoop beyond i text).1 := by
  induction text generalizing i with
  | nil => exact Nat.lt_succ_self i
  | cons _ rest ih =>
    rw [wordLoop]
    dsimp only
    split_ifs
    · exact Nat.lt_succ_self i
    · exact Nat.lt_of_succ_lt (ih (i + 1))

theorem nextToken_shorter {beyond : UInt8} {text token rest : Bytes} {outside : Bool}
    (next : nextToken beyond text = (some (token, rest), outside)) : rest.length < text.length := by
  have cut : ∀ {first : UInt8} {behind : Bytes} {i : Nat}, 0 < i →
      ((first :: behind).drop i).length < (first :: behind).length := by
    intro first behind i positive
    rw [length_drop]
    exact Nat.sub_lt (Nat.succ_pos _) positive
  fun_induction nextToken beyond text with
  | case1 => exact absurd (congrArg Prod.fst next) nofun
  | case2 first behind =>
    obtain ⟨-, rfl⟩ := Prod.mk.inj (Option.some.inj (Prod.mk.inj next).1)
    exact Nat.lt_succ_self _
  | case3 behind =>
    obtain ⟨-, rfl⟩ := Prod.mk.inj (Option.some.inj (Prod.mk.inj next).1)
    exact cut (by omega)
  | case4 behind _ _ _ ih =>
    refine (ih next).trans_le ?_
    rw [length_drop]
    exact (Nat.sub_le _ _).trans (Nat.le_succ _)
  | case5 behind _ _ ih =>
    refine (ih next).trans_le ?_
    rw [length_drop]
    exact (Nat.sub_le _ _).trans (Nat.le_succ _)
  | case6 first behind =>
    obtain ⟨-, rfl⟩ := Prod.mk.inj (Option.some.inj (Prod.mk.inj next).1)
    exact cut ((Nat.zero_le _).trans_lt (le_wordLoop beyond 0 _))

/-! ### Filling lines -/

/-- Why `wrap()` stops. -/
inductive WrapError where
  | indentExceedsWidth
  | hangExceedsWidth
  | controlCharacter (u : UInt8)
  deriving DecidableEq, Repr

/-- The last byte of a token calls for two spaces behind it. -/
def endsSentence (token : Bytes) : Bool :=
  match token.getLast? with
  | some last => last = 46 || last = 33 || last = 63
  | none => false

section
variable {Out : Type} (append : Out → Bytes → Out) (beyond : UInt8) (width : Nat)
  (indent hang : Bytes)

/-- `_wrap`, and whether the byte behind the text was read. -/
def wrapLoop (text : Bytes) (line : Nat) (paragraph sentence : Bool) (out : Out) :
    Except WrapError Out × Bool :=
  match _next : nextToken beyond text with
  | (none, outside) => (.ok out, outside)
  | (some (token, rest), outside) =>
    let u := token.headD 0
    if u = 10 then
      let more := wrapLoop rest 0 true sentence (append out token)
      (more.1, outside || more.2)
    else if u ≤ 32 then (.error (.controlCharacter u), outside)
    else if line = 0 then
      -- start of a line, always emit at least one token, no matter the size
      let lead := if paragraph then indent else hang
      let more := wrapLoop rest (lead.length + token.length) false (endsSentence token)
        (append (append out lead) token)
      (more.1, outside || more.2)
    else if line + 1 + sentence.toNat + token.length ≤ width then
      -- token fits in line
      let more := wrapLoop rest (line + (1 + sentence.toNat + token.length)) paragraph
        (endsSentence token) (append (append out (if sentence then [32, 32] else [32])) token)
      (more.1, outside || more.2)
    else
      -- token does not fit on this line
      let more := wrapLoop rest (hang.length + token.length) paragraph (endsSentence token)
        (append (append (append out [10]) hang) token)
      (more.1, outside || more.2)
termination_by text.length
decreasing_by all_goals exact nextToken_shorter _next

end

/-- `dstr_append_count`. -/
def dstrAppendCount (out : Nat) (piece : Bytes) : Nat := out + piece.length

/-- `dstr_append_quiet` on a string of a fixed size, whose result is not looked at. -/
def dstrAppendFixed (size : Nat) (out piece : Bytes) : Bytes :=
  if size < out.length + piece.length then out else out ++ piece

/-- `qw_instr_wrap` after its arguments were read, and whether a byte behind the text was read. -/
def qwInstrWrap (beyond : UInt8) (width : Nat) (indent hang text : Bytes) :
    Except WrapError Bytes × Bool :=
  if width ≤ indent.length then (.error .indentExceedsWidth, false)
  else if width ≤ hang.length then (.error .hangExceedsWidth, false)
  else
    -- first pass to figure length
    match wrapLoop dstrAppendCount beyond width indent hang text 0 true false 0 with
    | (.error err, outside) => (.error err, outside)
    | (.ok len, outside) =>
      -- second pass to actually build string
      let built := wrapLoop (dstrAppendFixed len) beyond width indent hang text 0 true false []
      (built.1, outside || built.2)

end Splintermail
