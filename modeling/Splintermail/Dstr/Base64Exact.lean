/-
This file models the base64 formatter of `b64.c` and `b642bin`, and proves that the base64 coders
agree in every form.

The formatter writes characters one at a time and keeps the bits that it has not written. The
decoder only looks at base64 characters and padding, which are the significant ones, and what it
leaves behind begins after the last complete quartet. So a text that arrives in pieces is decoded
quartet by quartet, and a text that is to be decoded at once is accepted if its last byte
completes a quartet.
-/

import Splintermail.Dstr.Base64
import Splintermail.Dstr.Find

namespace Splintermail

open List

/-! ### The code -/

/-- `b64lut` -/
def b64lut : Bytes := ascii "ABCDEFGHIJKLMNOPQRSTUVWXYZabcdefghijklmnopqrstuvwxyz0123456789+/"

/-- The state of a `_writer_b64_t`. -/
structure WriterB64 where
  pos : Nat := 0
  leftover : Nat := 0
  deriving DecidableEq, Repr

/-- `_b64_encode_char`: the characters that are put, and the state after it. -/
def b64EncodeChar (writer : WriterB64) (c : UInt8) : Bytes × WriterB64 :=
  let old := writer.leftover
  let c := c.toNat
  if writer.pos = 0 then ([b64lut.getD ((c >>> 2) &&& 0x3f) 0], ⟨1, (c &&& 0x03) <<< 4⟩)
  else if writer.pos = 1 then
    ([b64lut.getD (old ||| ((c >>> 4) &&& 0xf)) 0], ⟨2, (c &&& 0xf) <<< 2⟩)
  else
    ([b64lut.getD (old ||| ((c >>> 6) &&& 0x3)) 0, b64lut.getD (c &&& 0x3f) 0],
      -- pointless to reset, since pos=0 doesn't read leftover
      ⟨0, old⟩)

/-- `_b64_encode_finish` -/
def b64EncodeFinish (writer : WriterB64) : Bytes × WriterB64 :=
  if writer.pos = 0 then ([], {})
  else if writer.pos = 1 then (b64lut.getD writer.leftover 0 :: ascii "==", {})
  else (b64lut.getD writer.leftover 0 :: ascii "=", {})

/-- `_writer_b64_puts` -/
def writerB64Puts (writer : WriterB64) : Bytes → Bytes × WriterB64
  | [] => ([], writer)
  | c :: rest =>
    let (text, writer) := b64EncodeChar writer c
    let (more, writer) := writerB64Puts writer rest
    (text ++ more, writer)

/-- The calls of a `WB64` writer, one for each piece, and `_writer_b64_unlock` at the end. -/
def writerB64 (writer : WriterB64) : List Bytes → Bytes
  | [] => (b64EncodeFinish writer).1
  | piece :: rest =>
    let (text, writer) := writerB64Puts writer piece
    text ++ writerB64 writer rest

/-- `_b64_encode_strn` -/
def b64EncodeStrn (s : Bytes) : Bytes :=
  let (text, writer) := writerB64Puts {} s
  text ++ (b64EncodeFinish writer).1

/-- `bin2b64` -/
def bin2b64 (bin : Bytes) : Bytes := (bin2b64Stream bin 0 true).1

/-- The calls of `bin2b64_stream`, one for each piece that is appended to the buffer, where the last
one is forced to end. -/
def bin2b64Pieces (lineWidth : Nat) : Bytes → List Bytes → Bytes
  | _, [] => []
  | left, [last] => (bin2b64Stream (left ++ last) lineWidth true).1
  | left, piece :: next :: rest =>
    let (text, left) := bin2b64Stream (left ++ piece) lineWidth false
    text ++ bin2b64Pieces lineWidth left (next :: rest)

/-- The number of characters in the chunk at the end of the loop of `b642bin_quiet`, from a number
of them and of those that are padding. -/
def b642binIndex : Nat → Nat → Bytes → Nat
  | index, _, [] => index
  | index, skip, char :: rest =>
    let filled :=
      if (b64Value char).isSome then (index + 1, skip)
      else if char = 61 then (index + 1, skip + 1) else (index, skip)
    if filled.1 = 4 then if 0 < filled.2 then 0 else b642binIndex 0 0 rest
    else b642binIndex filled.1 filled.2 rest

/-- `b642bin`, where `none` stands for invalid base64. -/
def b642bin (b64 : Bytes) : Option Bytes :=
  let read := b642binLoop [0, 0, 0, 0] 0 0 0 0 b64
  -- consumed wasn't set, but we didn't get a complete b64 string
  if read.2 ≠ b64.length ∨ b642binIndex 0 0 b64 ≠ 0 then none else some read.1

/-- The calls of `b642bin_stream`, one for each piece that is appended to what is left. -/
def b642binPieces : Bytes → List Bytes → Bytes
  | _, [] => []
  | left, piece :: rest =>
    let (bin, left) := b642binStream (left ++ piece)
    bin ++ b642binPieces left rest

/-! ### The formatter -/

theorem b64lut_eq {value : Nat} (small : value < 64) : b64lut.getD value 0 = b64Char value := by
  have all : ∀ value < 64, b64lut.getD value 0 = b64Char value := by
    decide +kernel
  exact all value small

/-- The characters that three bytes give and the bits that are kept between them. -/
theorem b64EncodeChar_values (c : UInt8) :
    ((c.toNat >>> 2) &&& 0x3f = c.toNat / 4 ∧ (c.toNat &&& 0x03) <<< 4 = c.toNat % 4 * 16) ∧
    ((c.toNat >>> 4) &&& 0xf = c.toNat / 16 ∧ (c.toNat &&& 0xf) <<< 2 = c.toNat % 16 * 4) ∧
    (c.toNat >>> 6) &&& 0x3 = c.toNat / 64 ∧ c.toNat &&& 0x3f = c.toNat % 64 := by
  have all : ∀ byte < 256, ((byte >>> 2) &&& 0x3f = byte / 4 ∧
      (byte &&& 0x03) <<< 4 = byte % 4 * 16) ∧
      ((byte >>> 4) &&& 0xf = byte / 16 ∧ (byte &&& 0xf) <<< 2 = byte % 16 * 4) ∧
      (byte >>> 6) &&& 0x3 = byte / 64 ∧ byte &&& 0x3f = byte % 64 := by decide +kernel
  exact all c.toNat c.toNat_lt

theorem b64Encode_append {first : Bytes} (whole : first.length % 3 = 0) (second : Bytes) :
    b64Encode (first ++ second) = b64Encode first ++ b64Encode second := by
  induction first using b64Encode.induct with
  | case1 => rfl
  | case2 byte => exact absurd whole (by simp)
  | case3 byte other => exact absurd whole (by simp)
  | case4 one two three rest ih =>
    rw [length_cons, length_cons, length_cons] at whole
    rw [cons_append, cons_append, cons_append, b64Encode, b64Encode, ih (by omega), append_assoc]

/-- The writer has begun a group with these bytes. -/
inductive WriterB64.Holds : WriterB64 → Bytes → Prop
  | none (leftover : Nat) : Holds ⟨0, leftover⟩ []
  | one (first : UInt8) : Holds ⟨1, first.toNat % 4 * 16⟩ [first]
  | two (first second : UInt8) : Holds ⟨2, second.toNat % 16 * 4⟩ [first, second]

/-- The characters that were put of a group that was begun. -/
def b64Begun : Bytes → Bytes
  | [first] => [b64Char (first.toNat / 4)]
  | [first, second] =>
    [b64Char (first.toNat / 4), b64Char (first.toNat % 4 * 16 + second.toNat / 16)]
  | _ => []

section Writer

variable {writer : WriterB64} {begun : Bytes} (holds : writer.Holds begun)

include holds

theorem b64EncodeFinish_holds : b64Begun begun ++ (b64EncodeFinish writer).1 = b64Encode begun := by
  cases holds with
  | none leftover => rfl
  | one first =>
    show [b64Char (first.toNat / 4)] ++ (b64lut.getD (first.toNat % 4 * 16) 0 :: ascii "==") = _
    rw [b64lut_eq (by omega), b64Encode, b64Group_one]
    rfl
  | two first second =>
    have bound := second.toNat_lt
    show [b64Char (first.toNat / 4), b64Char (first.toNat % 4 * 16 + second.toNat / 16)] ++
      (b64lut.getD (second.toNat % 16 * 4) 0 :: ascii "=") = _
    rw [b64lut_eq (by omega), b64Encode, b64Group_two]
    rfl

/-- A byte is put in a group, which may be full with it. -/
theorem b64EncodeChar_holds (c : UInt8) :
    ∃ full next, begun ++ [c] = full ++ next ∧ full.length % 3 = 0 ∧
      (b64EncodeChar writer c).2.Holds next ∧
        b64Begun begun ++ (b64EncodeChar writer c).1 = b64Encode full ++ b64Begun next := by
  have bound := c.toNat_lt
  obtain ⟨⟨zero, zeroLeft⟩, ⟨one, oneLeft⟩, two, last⟩ := b64EncodeChar_values c
  cases holds with
  | none leftover =>
    refine ⟨[], [c], rfl, rfl, ?_, ?_⟩
    · show WriterB64.Holds ⟨1, (c.toNat &&& 0x03) <<< 4⟩ [c]
      rw [zeroLeft]
      exact .one c
    · show [] ++ [b64lut.getD ((c.toNat >>> 2) &&& 0x3f) 0] = _
      rw [zero, b64lut_eq (by omega)]
      rfl
  | one first =>
    have join : ∀ front < 4, ∀ back < 16, front * 16 ||| back = front * 16 + back := by decide
    refine ⟨[], [first, c], rfl, rfl, ?_, ?_⟩
    · show WriterB64.Holds ⟨2, (c.toNat &&& 0xf) <<< 2⟩ [first, c]
      rw [oneLeft]
      exact .two first c
    · show [b64Char (first.toNat / 4)] ++
        [b64lut.getD (first.toNat % 4 * 16 ||| ((c.toNat >>> 4) &&& 0xf)) 0] = _
      rw [one, join _ (by omega) _ (by omega), b64lut_eq (by omega)]
      rfl
  | two first second =>
    have join : ∀ front < 16, ∀ back < 4, front * 4 ||| back = front * 4 + back := by decide
    refine ⟨[first, second, c], [], rfl, Nat.mod_self 3, .none _, ?_⟩
    show [b64Char (first.toNat / 4), b64Char (first.toNat % 4 * 16 + second.toNat / 16)] ++
      [b64lut.getD (second.toNat % 16 * 4 ||| ((c.toNat >>> 6) &&& 0x3)) 0,
        b64lut.getD (c.toNat &&& 0x3f) 0] = _
    rw [two, last, join _ (by omega) _ (by omega), b64lut_eq (by omega), b64lut_eq (by omega),
      b64Encode, b64Group_three]
    rfl

omit holds in
theorem writerB64Puts_holds {writer : WriterB64} {begun : Bytes} (holds : writer.Holds begun)
    (piece : Bytes) :
    ∃ full next, begun ++ piece = full ++ next ∧ full.length % 3 = 0 ∧
      (writerB64Puts writer piece).2.Holds next ∧
        b64Begun begun ++ (writerB64Puts writer piece).1 = b64Encode full ++ b64Begun next := by
  induction piece generalizing writer begun with
  | nil => exact ⟨[], begun, append_nil _, rfl, holds, append_nil _⟩
  | cons c rest ih =>
    obtain ⟨full, next, split, whole, after, text⟩ := b64EncodeChar_holds holds c
    obtain ⟨more, last, later, wholes, final, texts⟩ := ih after
    refine ⟨full ++ more, last, ?_, ?_, final, ?_⟩
    · rw [append_cons, split, append_assoc, later, append_assoc]
    · rw [length_append]
      omega
    · show b64Begun begun ++ ((b64EncodeChar writer c).1 ++
        (writerB64Puts (b64EncodeChar writer c).2 rest).1) = _
      rw [← append_assoc, text, append_assoc, texts, b64Encode_append whole, append_assoc]

omit holds in
theorem writerB64_holds {writer : WriterB64} {begun : Bytes} (holds : writer.Holds begun)
    (pieces : List Bytes) :
    b64Begun begun ++ writerB64 writer pieces = b64Encode (begun ++ pieces.flatten) := by
  induction pieces generalizing writer begun with
  | nil =>
    rw [writerB64, flatten_nil, append_nil]
    exact b64EncodeFinish_holds holds
  | cons piece rest ih =>
    obtain ⟨full, next, split, whole, after, text⟩ := writerB64Puts_holds holds piece
    show b64Begun begun ++ ((writerB64Puts writer piece).1 ++
      writerB64 (writerB64Puts writer piece).2 rest) = _
    rw [← append_assoc, text, append_assoc, ih after,
      ← b64Encode_append whole, ← append_assoc, ← split, flatten_cons, append_assoc]

end Writer

theorem bin2b64_eq (bin : Bytes) : bin2b64 bin = b64Encode bin :=
  congrArg Prod.fst (bin2b64Stream_zero bin)

theorem writerB64_eq (pieces : List Bytes) : writerB64 {} pieces = bin2b64 pieces.flatten := by
  rw [bin2b64_eq]
  exact writerB64_holds (.none 0) pieces

theorem b64EncodeStrn_eq (s : Bytes) : b64EncodeStrn s = bin2b64 s := by
  have whole := writerB64_eq [s]
  rwa [flatten_singleton] at whole

/-! ### The encoder, piece by piece -/

theorem bin2b64Pieces_eq {lineWidth : Nat} (wide : 4 ≤ lineWidth) (left : Bytes)
    {pieces : List Bytes} (called : pieces ≠ []) :
    bin2b64Pieces lineWidth left pieces =
      b64LinesOf (lineWidth / 4 * 3) (left ++ pieces.flatten) := by
  induction pieces generalizing left with
  | nil => exact absurd rfl called
  | cons piece rest ih =>
    cases rest with
    | nil =>
      rw [bin2b64Pieces, bin2b64Stream_all wide rfl, flatten_singleton]
    | cons next others =>
      show (bin2b64Stream (left ++ piece) lineWidth false).1 ++
        bin2b64Pieces lineWidth (bin2b64Stream (left ++ piece) lineWidth false).2
          (next :: others) = _
      rw [ih _ (cons_ne_nil _ _), ← bin2b64Stream_linesOf wide rfl]
      simp only [flatten_cons, append_assoc]

/-! ### What the decoder looks at -/

/-- A character of base64 or padding. -/
def b64Significant (char : UInt8) : Bool := (b64Value char).isSome || char = 61

/-- The characters that the decoder looks at. -/
def b64Chars (text : Bytes) : Bytes := text.filter b64Significant

section Significant

variable {chunk : List Nat} {index skip i totalRead : Nat} {text rest : Bytes} {char : UInt8}

theorem b642binLoop_junk (junk : b64Significant char = false) (open_ : index ≠ 4) :
    b642binLoop chunk index skip i totalRead (char :: rest) =
      b642binLoop chunk index skip (i + 1) totalRead rest := by
  rw [b64Significant, Bool.or_eq_false_iff, decide_eq_false_iff_not] at junk
  have missing : b64Value char = none := Option.not_isSome_iff_eq_none.mp (by
    rw [junk.1]
    exact Bool.false_ne_true)
  rw [b642binLoop_cons, missing]
  dsimp only
  rw [if_neg junk.2]
  exact if_neg open_

/-- Before the first significant character nothing happens. -/
theorem b642binLoop_skip {chars : Bytes} (found : b64Chars text = char :: chars)
    (open_ : index ≠ 4) :
    ∃ front back, text = front ++ char :: back ∧ b64Chars front = [] ∧ b64Chars back = chars ∧
      b64Significant char = true ∧
      ∀ chunk skip i totalRead, b642binLoop chunk index skip i totalRead text =
        b642binLoop chunk index skip (i + front.length) totalRead (char :: back) := by
  induction text with
  | nil => exact nomatch found
  | cons head tail ih =>
    unfold b64Chars at found
    cases significant : b64Significant head with
    | true =>
      rw [filter_cons_of_pos significant] at found
      obtain ⟨rfl, same⟩ := cons.inj found
      exact ⟨[], tail, rfl, rfl, same, significant, fun _ _ _ _ => rfl⟩
    | false =>
      rw [filter_cons_of_neg (Bool.not_eq_true _ ▸ significant)] at found
      obtain ⟨front, back, rfl, junk, same, here, loop⟩ := ih found
      refine ⟨head :: front, back, rfl, ?_, same, here, fun chunk skip i totalRead => ?_⟩
      · unfold b64Chars at junk ⊢
        rw [filter_cons_of_neg (Bool.not_eq_true _ ▸ significant), junk]
      · rw [b642binLoop_junk significant open_, loop, length_cons]
        rw [Nat.add_assoc, Nat.add_comm 1]

theorem b642binLoop_none (junk : b64Chars text = []) (open_ : index ≠ 4) :
    b642binLoop chunk index skip i totalRead text = ([], totalRead) := by
  induction text generalizing i with
  | nil => rfl
  | cons head tail ih =>
    unfold b64Chars at junk
    cases significant : b64Significant head with
    | true =>
      rw [filter_cons_of_pos significant] at junk
      exact nomatch junk
    | false =>
      rw [filter_cons_of_neg (Bool.not_eq_true _ ▸ significant)] at junk
      rw [b642binLoop_junk significant open_]
      exact ih junk

theorem b642binLoop_short (short : index + (b64Chars text).length < 4) :
    b642binLoop chunk index skip i totalRead text = ([], totalRead) := by
  obtain ⟨chars, found⟩ : ∃ chars, b64Chars text = chars := ⟨_, rfl⟩
  induction chars generalizing text chunk index skip i with
  | nil => exact b642binLoop_none found (by omega)
  | cons char chars ih =>
    rw [found, length_cons] at short
    obtain ⟨front, back, rfl, -, rest, significant, loop⟩ :=
      b642binLoop_skip found (show index ≠ 4 by omega)
    rw [loop]
    have later : ∀ chunk skip i,
        b642binLoop chunk (index + 1) skip i totalRead back = ([], totalRead) :=
      fun chunk skip i => ih (by rw [rest]; omega) rest
    unfold b64Significant at significant
    cases known : b64Value char with
    | some value => rw [b642binLoop_value known (by omega), later]
    | none =>
      rw [known, Option.isSome_none, Bool.false_or, decide_eq_true_eq] at significant
      rw [significant, b642binLoop_pad (by omega), later]

end Significant

variable {text : Bytes} {char : UInt8}

/-- Characters that are not significant may be moved before a quartet that is begun. -/
theorem b642binLoop_move (begun : Bytes) (index : Nat) (open_ : index + begun.length < 4)
    (significant : ∀ char ∈ begun, b64Significant char = true) {chars : Bytes}
    (found : b64Chars text = char :: chars) :
    ∃ front back, text = front ++ char :: back ∧ b64Chars front = [] ∧ b64Chars back = chars ∧
      b64Significant char = true ∧
      ∀ chunk skip i totalRead, b642binLoop chunk index skip i totalRead (begun ++ text) =
        b642binLoop chunk index skip (i + front.length) totalRead (begun ++ char :: back) := by
  induction begun generalizing index with
  | nil => exact b642binLoop_skip found (by rw [length_nil] at open_; omega)
  | cons head tail ih =>
    rw [length_cons] at open_
    obtain ⟨front, back, same, junk, rest, here, loop⟩ := ih (index + 1)
      (by omega) fun other mem => significant other (.tail _ mem)
    refine ⟨front, back, same, junk, rest, here, fun chunk skip i totalRead => ?_⟩
    have headHere := significant head mem_cons_self
    unfold b64Significant at headHere
    rw [cons_append, cons_append]
    cases known : b64Value head with
    | some value =>
      rw [b642binLoop_value known (by omega), b642binLoop_value known (by omega), loop,
        Nat.add_right_comm]
    | none =>
      rw [known, Option.isSome_none, Bool.false_or, decide_eq_true_eq] at headHere
      rw [headHere, b642binLoop_pad (by omega), b642binLoop_pad (by omega), loop,
        Nat.add_right_comm]

/-- A quartet is decoded where its last character stands. -/
theorem b642binLoop_quartet {one two three four : UInt8} {chars : Bytes}
    (found : b64Chars text = one :: two :: three :: four :: chars) :
    ∃ used back, text = used ++ back ∧ b64Chars used = [one, two, three, four] ∧
      b64Chars back = chars ∧
      ∀ chunk i totalRead, ∃ place, place + 4 = i + used.length ∧
        b642binLoop chunk 0 0 i totalRead text =
          b642binLoop chunk 0 0 place totalRead (one :: two :: three :: four :: back) := by
  obtain ⟨front1, back1, rfl, junk1, rest1, here1, loop1⟩ :=
    b642binLoop_move [] 0 (by decide) (by simp) found
  obtain ⟨front2, back2, rfl, junk2, rest2, here2, loop2⟩ :=
    b642binLoop_move [one] 0 (by simp) (by simp [here1]) rest1
  obtain ⟨front3, back3, rfl, junk3, rest3, here3, loop3⟩ :=
    b642binLoop_move [one, two] 0 (by simp) (by simp [here1, here2]) rest2
  obtain ⟨front4, back4, rfl, junk4, rest4, here4, loop4⟩ :=
    b642binLoop_move [one, two, three] 0 (by simp) (by simp [here1, here2, here3]) rest3
  refine ⟨front1 ++ one :: (front2 ++ two :: (front3 ++ three :: (front4 ++ [four]))), back4, ?_,
    ?_, rest4, fun chunk i totalRead => ?_⟩
  · simp
  · unfold b64Chars at *
    simp [junk1, junk2, junk3, junk4, here1, here2, here3, here4]
  · refine ⟨i + front1.length + front2.length + front3.length + front4.length, ?_, ?_⟩
    · simp only [length_append, length_cons, length_nil]
      omega
    · refine (loop1 chunk 0 i totalRead).trans ?_
      refine (loop2 chunk 0 _ totalRead).trans ?_
      refine (loop3 chunk 0 _ totalRead).trans ?_
      exact loop4 chunk 0 _ totalRead

variable {chunk : List Nat}

/-- The text of some bytes and the beginning of a quartet are decoded up to the last quartet that is
complete. -/
theorem b642binLoop_text {data tail : Bytes} (found : b64Chars text = b64Encode data ++ tail)
    (short : tail.length < 4) (open_ : tail ≠ [] → data.length % 3 = 0) (four : chunk.length = 4)
    (i totalRead : Nat) :
    ∃ used back, text = used ++ back ∧ b64Chars used = b64Encode data ∧ b64Chars back = tail ∧
      b642binLoop chunk 0 0 i totalRead text =
        (data, if data = [] then totalRead else i + used.length) ∧
      (data = [] → used = []) := by
  induction data using b64Encode.induct generalizing text chunk i totalRead with
  | case1 =>
    refine ⟨[], text, rfl, rfl, found, ?_, fun _ => rfl⟩
    rw [if_pos rfl]
    exact b642binLoop_short (by rw [found]; simpa [b64Encode] using short)
  | case2 first =>
    obtain rfl : tail = [] := by
      by_contra some
      exact absurd (open_ some) (by simp)
    rw [append_nil] at found
    obtain ⟨used, back, rfl, chars, rest, loop⟩ := b642binLoop_quartet found
    obtain ⟨place, place4, same⟩ := loop chunk i totalRead
    refine ⟨used, back, rfl, chars, rest, ?_, fun nil => absurd nil (cons_ne_nil _ _)⟩
    rw [same, if_neg (cons_ne_nil _ _), ← place4]
    exact b642binLoop_one place totalRead back four first
  | case3 first second =>
    obtain rfl : tail = [] := by
      by_contra some
      exact absurd (open_ some) (by simp)
    rw [append_nil] at found
    obtain ⟨used, back, rfl, chars, rest, loop⟩ := b642binLoop_quartet found
    obtain ⟨place, place4, same⟩ := loop chunk i totalRead
    refine ⟨used, back, rfl, chars, rest, ?_, fun nil => absurd nil (cons_ne_nil _ _)⟩
    rw [same, if_neg (cons_ne_nil _ _), ← place4]
    exact b642binLoop_two place totalRead back four first second
  | case4 first second third data ih =>
    rw [b64Encode, append_assoc] at found
    obtain ⟨used, back, rfl, chars, rest, loop⟩ := b642binLoop_quartet found
    obtain ⟨place, place4, same⟩ := loop chunk i totalRead
    obtain ⟨next, nextFour, read⟩ := b642binLoop_three place totalRead back four first second third
    have wholes : tail ≠ [] → data.length % 3 = 0 := fun some => by
      have whole := open_ some
      rw [length_cons, length_cons, length_cons] at whole
      omega
    obtain ⟨more, left, rfl, moreChars, leftChars, later, empty⟩ :=
      ih rest wholes nextFour (place + 4) (place + 4)
    refine ⟨used ++ more, left, (append_assoc _ _ _).symm, ?_, leftChars, ?_,
      fun nil => absurd nil (cons_ne_nil _ _)⟩
    · unfold b64Chars at chars moreChars ⊢
      rw [filter_append, chars, moreChars]
      rfl
    · have group : b642binLoop chunk 0 0 place totalRead
          (b64Group [first, second, third] ++ (more ++ left)) = _ := read
      rw [same, if_neg (cons_ne_nil _ _)]
      refine group.trans ?_
      rw [later, length_append, ← Nat.add_assoc, ← place4]
      by_cases done : data = []
      · rw [if_pos done, empty done]
        rfl
      · rw [if_neg done]
        rfl

/-! ### Decoding in pieces -/

theorem b64Chars_append (front back : Bytes) :
    b64Chars (front ++ back) = b64Chars front ++ b64Chars back :=
  filter_append front back

theorem b64Significant_b64Char (value : Nat) : b64Significant (b64Char value) = true := by
  unfold b64Significant b64Char
  split_ifs with upper lower digit plus
  · have all : ∀ value < 26, (b64Value (.ofNat (65 + value))).isSome = true := by decide
    rw [all value upper, Bool.true_or]
  · have all : ∀ value < 52, (b64Value (.ofNat (97 + value - 26))).isSome = true ∨ value < 26 := by
      decide
    rw [(all value lower).resolve_right upper, Bool.true_or]
  · have all : ∀ value < 62, (b64Value (.ofNat (48 + value - 52))).isSome = true ∨ value < 52 := by
      decide
    rw [(all value digit).resolve_right lower, Bool.true_or]
  · rfl
  · rfl

theorem b64Chars_group (chunk : Bytes) : b64Chars (b64Group chunk) = b64Group chunk := by
  refine filter_eq_self.mpr fun char mem => ?_
  have pad : b64Significant 61 = true := rfl
  unfold b64Group at mem
  simp only [mem_cons, not_mem_nil, or_false] at mem
  obtain rfl | rfl | rfl | rfl := mem
  · exact b64Significant_b64Char _
  · exact b64Significant_b64Char _
  · split_ifs
    · exact pad
    · exact b64Significant_b64Char _
  · split_ifs
    · exact pad
    · exact b64Significant_b64Char _

theorem b64Chars_encode (data : Bytes) : b64Chars (b64Encode data) = b64Encode data := by
  induction data using b64Encode.induct with
  | case1 => rfl
  | case2 first => rw [b64Encode, b64Chars_group]
  | case3 first second => rw [b64Encode, b64Chars_group]
  | case4 first second third rest ih =>
    rw [b64Encode, b64Chars_append, b64Chars_group, ih]

theorem b64Encode_split (groups : Nat) (data : Bytes) :
    (b64Encode data).take (4 * groups) = b64Encode (data.take (3 * groups)) ∧
      (b64Encode data).drop (4 * groups) = b64Encode (data.drop (3 * groups)) := by
  by_cases enough : 3 * groups ≤ data.length
  · have whole : (data.take (3 * groups)).length = 3 * groups := length_take_of_le enough
    have split := b64Encode_append (by rw [whole, Nat.mul_mod_right]) (data.drop (3 * groups))
    have length : (b64Encode (data.take (3 * groups))).length = 4 * groups := by
      rw [length_b64Encode, whole]
      omega
    rw [take_append_drop] at split
    rw [split, take_left' length, drop_left' length]
    exact ⟨rfl, rfl⟩
  · have all : (b64Encode data).length ≤ 4 * groups := by
      rw [length_b64Encode]
      omega
    have short : data.length ≤ 3 * groups := by omega
    rw [take_of_length_le all, take_of_length_le short, drop_of_length_le all,
      drop_of_length_le short]
    exact ⟨rfl, rfl⟩

/-- A text with a line break after every so many characters and after a final shorter line. -/
def breakLines (width : Nat) (text : Bytes) : Bytes :=
  if width = 0 ∨ text = [] then []
  else text.take width ++ 10 :: breakLines width (text.drop width)
  termination_by text.length
  decreasing_by
    rename_i present
    rw [not_or] at present
    rw [length_drop]
    have positive := length_pos_iff.mpr present.2
    omega

theorem b64Encode_ne_nil {data : Bytes} (nonempty : data ≠ []) : b64Encode data ≠ [] := by
  have positive := length_pos_iff.mpr nonempty
  refine length_pos_iff.mp ?_
  rw [length_b64Encode]
  omega

theorem b64LinesOf_eq {groups : Nat} (positive : 0 < groups) (data : Bytes) :
    b64LinesOf (groups * 3) data = breakLines (groups * 4) (b64Encode data) := by
  obtain ⟨size, sized⟩ : ∃ size, data.length = size := ⟨_, rfl⟩
  induction size using Nat.strongRecOn generalizing data with
  | ind size ih =>
    by_cases done : data = []
    · rw [done, b64LinesOf_nil, b64Encode, breakLines, if_pos (.inr rfl)]
    · have some := length_pos_iff.mpr done
      have less : (data.drop (groups * 3)).length < size := by
        rw [length_drop]
        omega
      obtain ⟨front, back⟩ := b64Encode_split groups data
      rw [b64LinesOf_cons (by omega) done, breakLines,
        if_neg (not_or.mpr ⟨by omega, b64Encode_ne_nil done⟩),
        ih _ less _ rfl, Nat.mul_comm groups 4, Nat.mul_comm groups 3, front, back]

theorem b64Chars_breakLines (width : Nat) (text : Bytes) (positive : 0 < width) :
    b64Chars (breakLines width text) = b64Chars text := by
  induction text using breakLines.induct width with
  | case1 text done =>
    rw [breakLines, if_pos done, done.resolve_left positive.ne']
  | case2 text present ih =>
    have newline : b64Chars (10 :: breakLines width (text.drop width)) =
        b64Chars (breakLines width (text.drop width)) := rfl
    rw [breakLines, if_neg present, b64Chars_append, newline, ih,
      ← b64Chars_append, take_append_drop]

/-- What is decoded of a text in pieces. The quartet that is not complete is left. -/
theorem b642binPieces_eq {left data : Bytes} (pieces : List Bytes)
    (short : (b64Chars left).length < 4)
    (whole : b64Chars (left ++ pieces.flatten) = b64Encode data) :
    b642binPieces left pieces = data := by
  induction pieces generalizing left data with
  | nil =>
    rw [flatten_nil, append_nil] at whole
    have length := length_b64Encode data
    rw [← whole] at length
    rw [b642binPieces]
    exact (length_eq_zero_iff.mp (by omega)).symm
  | cons piece rest ih =>
    rw [flatten_cons, ← append_assoc, b64Chars_append] at whole
    -- the groups of bytes of the quartets that are complete by now
    obtain ⟨groups, tailLength, division, small⟩ :
        ∃ groups tailLength, 4 * groups + tailLength = (b64Chars (left ++ piece)).length ∧
          tailLength < 4 :=
      ⟨_, _, Nat.div_add_mod _ 4, Nat.mod_lt _ (by decide)⟩
    obtain ⟨front, back⟩ := b64Encode_split groups data
    have split := take_append_drop (4 * groups) (b64Chars (left ++ piece))
    have frontSame : (b64Chars (left ++ piece)).take (4 * groups) =
        b64Encode (data.take (3 * groups)) := by
      rw [← front, ← whole, take_append_of_le_length (by omega)]
    have tailSame : (b64Chars (left ++ piece)).drop (4 * groups) ++ b64Chars rest.flatten =
        b64Encode (data.drop (3 * groups)) := by
      rw [← back, ← whole, drop_append_of_le_length (by omega)]
    have tailShort : ((b64Chars (left ++ piece)).drop (4 * groups)).length < 4 := by
      rw [length_drop]
      omega
    have wholes : (b64Chars (left ++ piece)).drop (4 * groups) ≠ [] →
        (data.take (3 * groups)).length % 3 = 0 := by
      intro some
      have positive := length_pos_iff.mpr some
      have length := congrArg length whole
      rw [length_append, length_b64Encode] at length
      rw [length_drop] at positive
      rw [length_take_of_le (by omega), Nat.mul_mod_right]
    obtain ⟨used, next, same, -, nextChars, read, empty⟩ :=
      b642binLoop_text (split.symm.trans (congrArg (· ++ _) frontSame)) tailShort wholes
        (rfl : [0, 0, 0, 0].length = 4) 0 0
    have stream : b642binStream (left ++ piece) = (data.take (3 * groups), next) := by
      rw [b642binStream, read, same]
      by_cases none : data.take (3 * groups) = []
      · rw [if_pos none, empty none]
        rfl
      · rw [if_neg none, Nat.zero_add, drop_left]
    show (b642binStream (left ++ piece)).1 ++
      b642binPieces (b642binStream (left ++ piece)).2 rest = _
    have later : b64Chars (next ++ rest.flatten) = b64Encode (data.drop (3 * groups)) := by
      rw [b64Chars_append, nextChars, tailSame]
    rw [stream, ih (nextChars ▸ tailShort) later, take_append_drop]

/-! ### What is accepted at once -/

/-- Quartets are complete, and there is padding in the last one only; the first quartet was begun
with a number of characters and of those that are padding. -/
def B64Complete (index skip : Nat) (chars : Bytes) : Prop :=
  (index + chars.length) % 4 = 0 ∧ (4 < index + chars.length → skip = 0) ∧
    61 ∉ chars.take (chars.length - 4)

/-- The characters and the padding in the chunk after a character. -/
def b64Fill (index skip : Nat) (char : UInt8) : Nat × Nat :=
  if (b64Value char).isSome then (index + 1, skip)
  else if char = 61 then (index + 1, skip + 1) else (index, skip)

/-- How far a text is read does not depend on the values in the chunk. -/
theorem b642binLoop_cons_read (chunk : List Nat) (index skip i totalRead : Nat) (char : UInt8)
    (rest : Bytes) :
    ∃ next, (b642binLoop chunk index skip i totalRead (char :: rest)).2 =
      if (b64Fill index skip char).1 = 4 then
        if 0 < (b64Fill index skip char).2 then i + 1
        else (b642binLoop next 0 0 (i + 1) (i + 1) rest).2
      else
        (b642binLoop next (b64Fill index skip char).1 (b64Fill index skip char).2 (i + 1) totalRead
          rest).2 := by
  rw [b642binLoop_cons, b64Fill]
  cases b64Value char with
  | some value =>
    refine ⟨chunk.set index value, ?_⟩
    simp only [Option.isSome_some, if_true]
    split_ifs <;> rfl
  | none =>
    refine ⟨chunk, ?_⟩
    simp only [Option.isSome_none, Bool.false_eq_true, if_false]
    by_cases pad : char = 61
    · simp only [pad, if_true]
      split_ifs <;> rfl
    · simp only [pad, if_false]
      split_ifs <;> rfl

theorem b642binIndex_cons (index skip : Nat) (char : UInt8) (rest : Bytes) :
    b642binIndex index skip (char :: rest) = if (b64Fill index skip char).1 = 4 then
        if 0 < (b64Fill index skip char).2 then 0 else b642binIndex 0 0 rest
      else b642binIndex (b64Fill index skip char).1 (b64Fill index skip char).2 rest := rfl

/-- What was read whole left no chunk. -/
theorem b642binIndex_of_read {index skip i totalRead : Nat} (behind : totalRead ≤ i)
    (begun : totalRead = i → index = 0)
    (read : (b642binLoop chunk index skip i totalRead text).2 = i + text.length) :
    b642binIndex index skip text = 0 := by
  induction text generalizing chunk index skip i totalRead with
  | nil => exact begun read
  | cons char rest ih =>
    obtain ⟨next, same⟩ := b642binLoop_cons_read chunk index skip i totalRead char rest
    rw [same, length_cons, Nat.add_comm rest.length, ← Nat.add_assoc] at read
    rw [b642binIndex_cons]
    split_ifs at read ⊢ with full padded
    · rfl
    · exact ih (le_rfl) (fun _ => rfl) read
    · exact ih (by omega) (by omega) read

theorem b64Fill_junk (junk : b64Significant char = false) (index skip : Nat) :
    b64Fill index skip char = (index, skip) := by
  rw [b64Significant, Bool.or_eq_false_iff, decide_eq_false_iff_not] at junk
  rw [b64Fill, junk.1, if_neg Bool.false_ne_true, if_neg junk.2]

theorem b64Fill_significant (significant : b64Significant char = true) (index skip : Nat) :
    b64Fill index skip char = (index + 1, if char = 61 then skip + 1 else skip) := by
  unfold b64Fill
  by_cases pad : char = 61
  · rw [pad, b64Value_pad, if_pos rfl]
    rfl
  · rw [b64Significant, decide_eq_false pad, Bool.or_false] at significant
    rw [if_pos significant, if_neg pad]

section Complete

variable {index skip : Nat} {char : UInt8} {chars : Bytes}

theorem b64Complete_open (open_ : index + 1 < 4) :
    B64Complete index skip (char :: chars) ↔
      B64Complete (index + 1) (if char = 61 then skip + 1 else skip) chars := by
  unfold B64Complete
  rw [length_cons, ← Nat.add_assoc, Nat.add_right_comm]
  refine and_congr_right fun whole => ?_
  by_cases more : 4 < index + 1 + chars.length
  · have taken : chars.length + 1 - 4 = chars.length - 4 + 1 := by omega
    rw [taken, take_succ_cons, mem_cons, not_or]
    by_cases pad : char = 61
    · rw [if_pos pad]
      refine iff_of_false (fun both => both.2.1 pad.symm) fun both => ?_
      exact Nat.succ_ne_zero skip (both.1 more)
    · rw [if_neg pad]
      exact ⟨fun both => ⟨both.1, both.2.2⟩, fun both => ⟨both.1, Ne.symm pad, both.2⟩⟩
  · have none : chars.length + 1 - 4 = 0 := by omega
    have nothing : chars.length - 4 = 0 := by omega
    rw [none, nothing, take_zero, take_zero]
    exact ⟨fun _ => ⟨fun less => absurd less more, not_mem_nil⟩,
      fun _ => ⟨fun less => absurd less more, not_mem_nil⟩⟩

theorem b64Complete_full :
    B64Complete 3 skip (char :: chars) ↔
      if 0 < (if char = 61 then skip + 1 else skip) then chars = [] else B64Complete 0 0 chars := by
  by_cases last : chars = []
  · simp [last, B64Complete]
  have more := length_pos_iff.mpr last
  have taken : 4 ≤ chars.length →
      (char :: chars).take (chars.length + 1 - 4) = char :: chars.take (chars.length - 4) := by
    intro enough
    have shift : chars.length + 1 - 4 = chars.length - 4 + 1 := by omega
    rw [shift, take_succ_cons]
  unfold B64Complete
  rw [length_cons]
  by_cases pad : char = 61
  · rw [if_pos pad, if_pos (Nat.succ_pos skip)]
    refine iff_of_false (fun both => ?_) last
    refine both.2.2 ?_
    rw [taken (by omega), pad]
    exact mem_cons_self
  · rw [if_neg pad]
    by_cases padded : 0 < skip
    · rw [if_pos padded]
      exact iff_of_false (fun both => padded.ne' (both.2.1 (by omega))) last
    · rw [if_neg padded]
      constructor
      · rintro ⟨whole, -, plain⟩
        rw [taken (by omega), mem_cons, not_or] at plain
        exact ⟨by omega, fun _ => rfl, plain.2⟩
      · rintro ⟨whole, -, plain⟩
        refine ⟨by omega, fun _ => Nat.eq_zero_of_not_pos padded, ?_⟩
        rw [taken (by omega), mem_cons, not_or]
        exact ⟨Ne.symm pad, plain⟩

end Complete

/-- The last byte is significant. -/
def B64Ends (text : Bytes) : Prop := ∃ last ∈ text.getLast?, b64Significant last = true

theorem b64Ends_cons_cons (char head : UInt8) (tail : Bytes) :
    B64Ends (char :: head :: tail) ↔ B64Ends (head :: tail) := by
  unfold B64Ends
  rw [getLast?_cons_cons]

theorem b64Ends_singleton (char : UInt8) : B64Ends [char] ↔ b64Significant char = true := by
  simp [B64Ends]

theorem B64Ends.chars_ne_nil (ends : B64Ends text) : b64Chars text ≠ [] := by
  obtain ⟨last, found, significant⟩ := ends
  exact ne_nil_of_mem (mem_filter.mpr ⟨mem_of_getLast? found, significant⟩)

/-- A text that is not empty is read whole if and only if its last byte completes a quartet, and
only the last quartet has padding. -/
theorem b642binLoop_read_iff {index skip i totalRead : Nat} (nonempty : text ≠ [])
    (open_ : index < 4) (behind : totalRead ≤ i) :
    (b642binLoop chunk index skip i totalRead text).2 = i + text.length ↔
      B64Ends text ∧ B64Complete index skip (b64Chars text) := by
  induction text generalizing chunk index skip i totalRead with
  | nil => exact absurd rfl nonempty
  | cons char rest ih =>
    obtain ⟨next, same⟩ := b642binLoop_cons_read chunk index skip i totalRead char rest
    rw [same, length_cons, Nat.add_comm rest.length, ← Nat.add_assoc]
    cases significant : b64Significant char with
    | false =>
      have chars : b64Chars (char :: rest) = b64Chars rest :=
        filter_cons_of_neg (by rw [significant]; exact Bool.false_ne_true)
      rw [b64Fill_junk significant, chars, if_neg open_.ne]
      cases rest with
      | nil =>
        refine iff_of_false (fun read => ?_) fun both => ?_
        · exact absurd (show totalRead = i + 1 from read) (by omega)
        · rw [b64Ends_singleton, significant] at both
          exact Bool.false_ne_true both.1
      | cons head tail =>
        rw [ih (cons_ne_nil _ _) open_ (by omega), b64Ends_cons_cons]
    | true =>
      have chars : b64Chars (char :: rest) = char :: b64Chars rest :=
        filter_cons_of_pos significant
      rw [b64Fill_significant significant, chars]
      by_cases full : index + 1 = 4
      · obtain rfl : index = 3 := Nat.succ.inj full
        rw [if_pos full, b64Complete_full]
        dsimp only
        generalize (if char = 61 then skip + 1 else skip) = padding
        cases rest with
        | nil =>
          rw [b64Ends_singleton]
          refine iff_of_true ?_ ⟨significant, ?_⟩
          · split_ifs <;> rfl
          · split_ifs
            · rfl
            · exact ⟨rfl, fun less => absurd less (by decide), not_mem_nil⟩
        | cons head tail =>
          rw [b64Ends_cons_cons]
          by_cases padded : 0 < padding
          · rw [if_pos padded, if_pos padded]
            refine iff_of_false (fun read => ?_) fun both => both.1.chars_ne_nil both.2
            rw [length_cons] at read
            omega
          · rw [if_neg padded, if_neg padded]
            exact ih (cons_ne_nil _ _) (by decide) (le_rfl)
      · rw [if_neg full, b64Complete_open (by omega)]
        cases rest with
        | nil =>
          refine iff_of_false (fun read => ?_) fun both => ?_
          · exact absurd (show totalRead = i + 1 from read) (by omega)
          · have whole : (index + 1 + 0) % 4 = 0 := both.2.1
            omega
        | cons head tail =>
          rw [ih (cons_ne_nil _ _) (by omega) (by omega), b64Ends_cons_cons]

theorem b642bin_isSome_iff (text : Bytes) :
    (b642bin text).isSome = true ↔ text = [] ∨ B64Ends text ∧ B64Complete 0 0 (b64Chars text) := by
  by_cases empty : text = []
  · rw [empty]
    exact iff_of_true rfl (.inl rfl)
  · have whole := @b642binLoop_read_iff text [0, 0, 0, 0] 0 0 0 0 empty (by decide) (Nat.le_refl 0)
    rw [Nat.zero_add] at whole
    rw [or_iff_right empty, ← whole]
    unfold b642bin
    dsimp only
    by_cases read : (b642binLoop [0, 0, 0, 0] 0 0 0 0 text).2 = text.length
    · have index := b642binIndex_of_read (Nat.le_refl 0) (fun _ => rfl)
        (read.trans (Nat.zero_add _).symm)
      rw [if_neg (not_or.mpr ⟨not_not.mpr read, not_not.mpr index⟩)]
      exact iff_of_true rfl read
    · rw [if_pos (.inl read)]
      exact iff_of_false Bool.false_ne_true read

theorem b64Complete_padded {chars body padding : Bytes} (whole : chars.length % 4 = 0)
    (split : chars = body ++ padding) (short : padding.length ≤ 2) (plain : 61 ∉ body) :
    B64Complete 0 0 chars := by
  refine ⟨by rw [Nat.zero_add]; exact whole, fun _ => rfl, fun mem => plain ?_⟩
  have length := congrArg length split
  rw [length_append] at length
  rw [split, take_append_of_le_length (by rw [← split]; omega)] at mem
  exact mem_of_mem_take mem

theorem b642bin_bin2b64 (bin : Bytes) : b642bin (bin2b64 bin) = some bin := by
  rw [bin2b64_eq]
  have found : b64Chars (b64Encode bin) = b64Encode bin ++ [] := by
    rw [b64Chars_encode, append_nil]
  obtain ⟨used, back, same, usedChars, backChars, read, -⟩ :=
    b642binLoop_text found (by decide) (absurd rfl) (rfl : [0, 0, 0, 0].length = 4) 0 0
  have significant : ∀ char ∈ b64Encode bin, b64Significant char = true :=
    filter_eq_self.mp (b64Chars_encode bin)
  -- nothing is left, since all of the text is significant
  obtain rfl : back = [] := by
    have kept : b64Chars back = back := filter_eq_self.mpr fun char mem =>
      significant char (same ▸ mem_append_right used mem)
    rw [← kept, backChars]
  rw [append_nil] at same
  rw [Nat.zero_add, ← same] at read
  have all : (b642binLoop [0, 0, 0, 0] 0 0 0 0 (b64Encode bin)).2 = (b64Encode bin).length := by
    rw [read]
    dsimp only
    split_ifs with empty
    · rw [empty]
      rfl
    · rfl
  have index := b642binIndex_of_read (Nat.le_refl 0) (fun _ => rfl)
    (all.trans (Nat.zero_add _).symm)
  unfold b642bin
  dsimp only
  rw [if_neg (not_or.mpr ⟨not_not.mpr all, not_not.mpr index⟩), read]

/-! ### The coders agree -/

/-- Base64 of the same bytes is the same text from every encoder, however the bytes arrive, and they
are what is decoded from it, at once or in any pieces. Text that is decoded at once may have other
bytes between its characters, and is accepted if they are complete quartets with padding at the end
and nothing stands after them. -/
theorem b64_exact (x : Bytes) :
    (b642bin (bin2b64 x) = some x) ∧
    (b64EncodeStrn x = bin2b64 x ∧
      ∀ pieces : List Bytes, pieces.flatten = x → writerB64 {} pieces = bin2b64 x) ∧
    (∀ lineWidth, 4 ≤ lineWidth →
      (∀ pieces : List Bytes, pieces ≠ [] → pieces.flatten = x →
        bin2b64Pieces lineWidth [] pieces = (bin2b64Stream x lineWidth true).1) ∧
      (bin2b64Stream x lineWidth true).1 = breakLines (lineWidth - lineWidth % 4) (bin2b64 x) ∧
      ∀ pieces : List Bytes, pieces.flatten = (bin2b64Stream x lineWidth true).1 →
        b642binPieces [] pieces = x) ∧
    (∀ text body : Bytes, ∀ padding ≤ 2, b64Chars text = body ++ replicate padding 61 →
      61 ∉ body → (b64Chars text).length % 4 = 0 → (text = [] ∨ B64Ends text) →
        (b642bin text).isSome = true) ∧
    ∀ text : Bytes, (b642bin text).isSome = true →
      (b64Chars text).length % 4 = 0 ∧
        61 ∉ (b64Chars text).take ((b64Chars text).length - 4) ∧ (text = [] ∨ B64Ends text) := by
  refine ⟨b642bin_bin2b64 x, ⟨b64EncodeStrn_eq x, fun pieces same => ?_⟩,
    fun lineWidth wide => ?_, fun text body padding short split plain whole ends => ?_,
    fun text accepted => ?_⟩
  · rw [writerB64_eq, same]
  · have groups : lineWidth - lineWidth % 4 = lineWidth / 4 * 4 := by omega
    have positive : 0 < lineWidth / 4 := by omega
    have once : (bin2b64Stream x lineWidth true).1 =
        breakLines (lineWidth - lineWidth % 4) (bin2b64 x) := by
      rw [bin2b64Stream_all wide rfl, b64LinesOf_eq positive, bin2b64_eq, groups]
    refine ⟨fun pieces called same => ?_, once, fun pieces same => ?_⟩
    · rw [bin2b64Pieces_eq wide [] called, nil_append, same, bin2b64Stream_all wide rfl]
    · refine b642binPieces_eq pieces (by decide) ?_
      rw [nil_append, same, once, b64Chars_breakLines _ _ (by omega), bin2b64_eq, b64Chars_encode]
  · refine (b642bin_isSome_iff text).mpr (ends.imp_right fun last => ⟨last, ?_⟩)
    refine b64Complete_padded whole split ?_ plain
    rw [length_replicate]
    exact short
  · obtain empty | ⟨last, complete⟩ := (b642bin_isSome_iff text).mp accepted
    · rw [empty]
      exact ⟨rfl, not_mem_nil, .inl rfl⟩
    · rw [B64Complete, Nat.zero_add] at complete
      exact ⟨complete.1, complete.2.2, .inr last⟩

theorem b64_exact_hello : b642bin (ascii "aGVsbG8=") = some (ascii "hello") ∧
    writerB64 {} [ascii "he", [], ascii "llo"] = ascii "aGVsbG8=" ∧
    bin2b64Pieces 6 [] [ascii "h", ascii "ell", ascii "o"] = ascii "aGVs\nbG8=\n" ∧
    b642binPieces [] [ascii "aG", ascii "Vs\nbG8", ascii "=\n"] = ascii "hello" ∧
    (b642bin (ascii "aG V\nsbG8=")).isSome = true := by
  obtain ⟨whole, ⟨-, writer⟩, stream, accepted, -⟩ := b64_exact (ascii "hello")
  have text : bin2b64 (ascii "hello") = ascii "aGVsbG8=" := by decide
  have once : (bin2b64Stream (ascii "hello") 6 true).1 = ascii "aGVs\nbG8=\n" := by decide
  obtain ⟨pieces, -, decoded⟩ := stream 6 (by decide)
  rw [text] at whole writer
  rw [once] at pieces decoded
  refine ⟨whole, writer _ (by decide), pieces _ (by decide) (by decide), decoded _ (by decide), ?_⟩
  exact accepted (ascii "aG V\nsbG8=") (ascii "aGVsbG8") 1 (by decide) (by decide) (by decide)
    (by decide) (.inr ⟨61, by decide, by decide⟩)

/-- A line break between the characters is accepted, although the text is not one of quartets. -/
theorem b642bin_accepts_newline :
    ¬ ∀ text : Bytes, (b642bin text).isSome = true ↔
      ∃ body, ∃ padding ≤ 2, text = body ++ replicate padding 61 ∧
        (∀ char ∈ body, (b64Value char).isSome = true) ∧ text.length % 4 = 0 := by
  intro exactly
  obtain ⟨_, _, _, _, _, whole⟩ := (exactly (ascii "AA\nAA")).mp (by decide)
  exact absurd whole (by decide)

end Splintermail
