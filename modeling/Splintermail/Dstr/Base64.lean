/-
This file models the streaming base64 coder of `common.c`: `bin2b64_quiet` and
`b642bin_quiet`, which both leave behind what they did not use.

The encoder writes lines, each of whole groups of three bytes, and keeps a last line
that is not full until it is forced to end. What it writes is therefore the text of
the data cut into lines of 48 bytes, however the data arrived. The decoder ignores
what is not base64 and stops after a padded group.
-/

import Mathlib.Data.List.Basic
import Splintermail.Dstr.Bytes

namespace Splintermail

open List

/-! ### Encoding -/

/-- The character of a value of six bits. -/
def b64Char (value : Nat) : UInt8 :=
  if value < 26 then .ofNat (65 + value)
  else if value < 52 then .ofNat (97 + value - 26)
  else if value < 62 then .ofNat (48 + value - 52)
  else if value = 62 then 43
  else 47

/-- The four characters of a chunk of one to three bytes. -/
def b64Group (chunk : Bytes) : Bytes :=
  let ch0 := (chunk.getD 0 0).toNat
  let ch1 := (chunk.getD 1 0).toNat
  let ch2 := (chunk.getD 2 0).toNat
  [b64Char (0x3f &&& (ch0 >>> 2)), b64Char ((0x30 &&& (ch0 <<< 4)) ||| (0x0f &&& (ch1 >>> 4))),
    if 2 > chunk.length then 61 else b64Char ((0x3c &&& (ch1 <<< 2)) ||| (0x03 &&& (ch2 >>> 6))),
    if 3 > chunk.length then 61 else b64Char (0x3f &&& ch2)]

/-- A line break stands after so many bytes. -/
def b64BreakAt (lineWidth length position : Nat) : Bool :=
  0 < lineWidth && (position % (lineWidth / 4 * 3) = 0 || position = length)

/-- The loop of `bin2b64_quiet` over the bytes up to its end condition, with the number of bytes
before them and the chunk that is being filled. -/
def bin2b64Loop (lineWidth length : Nat) : Nat → Bytes → Bytes → Bytes
  | _, _, [] => []
  | i, chunk, byte :: rest =>
    if (chunk ++ [byte]).length = 3 ∨ i + 1 = length then
      b64Group (chunk ++ [byte]) ++ (if b64BreakAt lineWidth length (i + 1) then [10] else []) ++
        bin2b64Loop lineWidth length (i + 1) [] rest
    else bin2b64Loop lineWidth length (i + 1) (chunk ++ [byte]) rest

/-- `bin2b64_stream`: the text that is appended and the bytes that are left. -/
def bin2b64Stream (bin : Bytes) (lineWidth : Nat) (forceEnd : Bool) : Bytes × Bytes :=
  let endOfFullLines := bin.length - bin.length % (lineWidth / 4 * 3)
  let endCondition :=
    if 0 < lineWidth then (if forceEnd then bin.length else endOfFullLines) else bin.length
  (bin2b64Loop lineWidth bin.length 0 [] (bin.take endCondition), bin.drop endCondition)

/-! ### Decoding -/

/-- The value of a character, if it has one. -/
def b64Value (char : UInt8) : Option Nat :=
  if 65 ≤ char ∧ char ≤ 90 then some (char.toNat - 65)
  else if 97 ≤ char ∧ char ≤ 122 then some (char.toNat - 97 + 26)
  else if 48 ≤ char ∧ char ≤ 57 then some (char.toNat - 48 + 52)
  else if char = 43 then some 62
  else if char = 47 then some 63
  else none

/-- The bytes of a full chunk of four values, with the number of padding characters in it. -/
def b64Flush (chunk : List Nat) (skip : Nat) : Bytes :=
  [.ofNat (chunk.getD 0 0 <<< 2 ||| chunk.getD 1 0 >>> 4)] ++
    (if skip < 2 then [.ofNat (chunk.getD 1 0 <<< 4 ||| chunk.getD 2 0 >>> 2)] else []) ++
    if skip < 1 then [.ofNat (chunk.getD 2 0 <<< 6 ||| chunk.getD 3 0)] else []

/-- The loop of `b642bin_quiet`: the chunk with the number of values in it, the padding, how many
characters were looked at and how many were used. -/
def b642binLoop : List Nat → Nat → Nat → Nat → Nat → Bytes → Bytes × Nat
  | _, _, _, _, totalRead, [] => ([], totalRead)
  | chunk, index, skip, i, totalRead, char :: rest =>
    let filled :=
      match b64Value char with
      | some value => (chunk.set index value, index + 1, skip)
      | none => if char = 61 then (chunk, index + 1, skip + 1) else (chunk, index, skip)
    if filled.2.1 = 4 then
      -- the text ends with its padding
      if 0 < filled.2.2 then (b64Flush filled.1 filled.2.2, i + 1)
      else
        let more := b642binLoop filled.1 0 0 (i + 1) (i + 1) rest
        (b64Flush filled.1 filled.2.2 ++ more.1, more.2)
    else b642binLoop filled.1 filled.2.1 filled.2.2 (i + 1) totalRead rest

/-- `b642bin_stream`: the bytes that are appended and the text that is left. -/
def b642binStream (text : Bytes) : Bytes × Bytes :=
  let read := b642binLoop [0, 0, 0, 0] 0 0 0 0 text
  (read.1, text.drop read.2)

/-! ### The text of the data -/

/-- The base64 text of some bytes, without line breaks. -/
def b64Encode : Bytes → Bytes
  | [] => []
  | [first] => b64Group [first]
  | [first, second] => b64Group [first, second]
  | first :: second :: third :: rest => b64Group [first, second, third] ++ b64Encode rest

/-- The base64 text of some bytes in lines of 48 bytes. -/
def b64Lines (data : Bytes) : Bytes :=
  if data = [] then [] else b64Encode (data.take 48) ++ 10 :: b64Lines (data.drop 48)
  termination_by data.length
  decreasing_by
    rw [length_drop]
    have positive := length_pos_iff.mpr ‹_›
    omega

theorem length_b64Group (chunk : Bytes) : (b64Group chunk).length = 4 := rfl

/-- A run of bytes without a line break in it is encoded group by group. -/
theorem bin2b64Loop_append (lineWidth length i : Nat) {run : Bytes} (rest : Bytes)
    (nonempty : run ≠ [])
    (bound : i + run.length + rest.length ≤ length)
    (whole : run.length % 3 = 0 ∨ i + run.length = length)
    (single : ∀ k, 0 < k → k < run.length → b64BreakAt lineWidth length (i + k) = false) :
    bin2b64Loop lineWidth length i [] (run ++ rest) =
      b64Encode run ++ (if b64BreakAt lineWidth length (i + run.length) then [10] else []) ++
        bin2b64Loop lineWidth length (i + run.length) [] rest := by
  induction run using b64Encode.induct generalizing i with
  | case1 => exact absurd rfl nonempty
  | case2 byte =>
    have last : i + 1 = length := whole.resolve_left (by simp)
    show bin2b64Loop lineWidth length i [] (byte :: rest) = _
    rw [bin2b64Loop, if_pos (Or.inr last)]
    rfl
  | case3 byte next =>
    have last : i + 2 = length := whole.resolve_left (by simp)
    show bin2b64Loop lineWidth length i [] (byte :: next :: rest) = _
    rw [bin2b64Loop, if_neg (by simp; omega), bin2b64Loop, if_pos (Or.inr last)]
    rfl
  | case4 first second third tail ih =>
    simp only [length_cons] at bound whole single ⊢
    show bin2b64Loop lineWidth length i [] (first :: second :: third :: (tail ++ rest)) = _
    rw [bin2b64Loop, if_neg (by simp; omega), bin2b64Loop, if_neg (by simp; omega), bin2b64Loop,
      if_pos (by simp)]
    cases tail with
    | nil => simp [b64Encode]
    | cons head others =>
      have apart : b64BreakAt lineWidth length (i + 3) = false :=
        single 3 (by decide) (by simp)
      have later := ih (i + 3) (cons_ne_nil _ _) (by omega) (by omega) (fun k positive below => by
          rw [Nat.add_assoc, Nat.add_comm 3 k]
          exact single (k + 3) (by omega) (by omega))
      show b64Group [first, second, third] ++
          (if b64BreakAt lineWidth length (i + 3) then [10] else []) ++
            bin2b64Loop lineWidth length (i + 3) [] (head :: others ++ rest) = _
      rw [apart, later, b64Encode]
      simp only [Nat.add_assoc, Nat.add_comm 3]
      simp

theorem b64Lines_nil : b64Lines [] = [] := by
  rw [b64Lines, if_pos rfl]

variable {data : Bytes}

theorem b64Lines_cons (nonempty : data ≠ []) :
    b64Lines data = b64Encode (data.take 48) ++ 10 :: b64Lines (data.drop 48) := by
  rw [b64Lines, if_neg nonempty]

/-- The base64 text of some bytes in lines of so many bytes. -/
def b64LinesOf (size : Nat) (data : Bytes) : Bytes :=
  if size = 0 ∨ data = [] then []
  else b64Encode (data.take size) ++ 10 :: b64LinesOf size (data.drop size)
  termination_by data.length
  decreasing_by
    rename_i present
    rw [not_or] at present
    rw [length_drop]
    have positive := length_pos_iff.mpr present.2
    omega

theorem b64LinesOf_nil (size : Nat) : b64LinesOf size [] = [] := by
  rw [b64LinesOf, if_pos (.inr rfl)]

theorem b64LinesOf_cons {size : Nat} (positive : 0 < size) (nonempty : data ≠ []) :
    b64LinesOf size data =
      b64Encode (data.take size) ++ 10 :: b64LinesOf size (data.drop size) := by
  rw [b64LinesOf, if_neg (not_or.mpr ⟨positive.ne', nonempty⟩)]

theorem b64Lines_eq (data : Bytes) : b64Lines data = b64LinesOf 48 data := by
  induction data using b64Lines.induct with
  | case1 => rw [b64Lines_nil, b64LinesOf_nil]
  | case2 data nonempty ih =>
    rw [b64Lines_cons nonempty, b64LinesOf_cons (by decide) nonempty, ih]

theorem b64LinesOf_line {size : Nat} (positive : 0 < size) {line : Bytes}
    (full : line.length = size) (more : Bytes) :
    b64LinesOf size (line ++ more) = b64Encode line ++ 10 :: b64LinesOf size more := by
  have nonempty : line ++ more ≠ [] := by
    intro none
    have zero := congrArg List.length none
    rw [length_append, full, length_nil] at zero
    omega
  rw [b64LinesOf_cons positive nonempty, take_left' full, drop_left' full]

section Lines

variable {lineWidth chunkSize : Nat} (wide : 4 ≤ lineWidth) (chunks : lineWidth / 4 * 3 = chunkSize)

include wide chunks

theorem chunkSize_pos : 0 < chunkSize :=
  chunks ▸ Nat.mul_pos (Nat.div_pos wide (by decide)) (by decide)

theorem b64BreakAt_wide (length position : Nat) :
    b64BreakAt lineWidth length position = (position % chunkSize = 0 || position = length) := by
  rw [b64BreakAt, decide_eq_true (Nat.lt_of_lt_of_le (by decide) wide), Bool.true_and, chunks]

theorem b64BreakAt_within {length i k : Nat} (start : i % chunkSize = 0) (inside : 0 < k)
    (below : k < chunkSize) (before : i + k < length) :
    b64BreakAt lineWidth length (i + k) = false := by
  rw [b64BreakAt_wide wide chunks, Bool.or_eq_false_iff, decide_eq_false_iff_not,
    decide_eq_false_iff_not, Nat.add_mod, start, Nat.zero_add, Nat.mod_mod, Nat.mod_eq_of_lt below]
  exact ⟨inside.ne', before.ne⟩

/-- Full lines are written one after the other. -/
theorem bin2b64Loop_lines (length i : Nat) {count : Nat} {lines : Bytes}
    (size : lines.length = chunkSize * count) (rest : Bytes)
    (bound : i + lines.length + rest.length ≤ length) (start : i % chunkSize = 0) :
    ∃ text, bin2b64Loop lineWidth length i [] (lines ++ rest) =
        text ++ bin2b64Loop lineWidth length (i + lines.length) [] rest ∧
      ∀ more, b64LinesOf chunkSize (lines ++ more) = text ++ b64LinesOf chunkSize more := by
  have positive := chunkSize_pos wide chunks
  induction count generalizing i lines with
  | zero =>
    have none : lines = [] := length_eq_zero_iff.mp size
    subst none
    exact ⟨[], rfl, fun more => rfl⟩
  | succ count ih =>
    rw [Nat.mul_succ] at size
    have full : (lines.take chunkSize).length = chunkSize := by
      rw [length_take]
      omega
    have left : (lines.drop chunkSize).length = chunkSize * count := by
      rw [length_drop]
      omega
    have split : lines.take chunkSize ++ lines.drop chunkSize = lines :=
      take_append_drop chunkSize lines
    have nonempty : lines.take chunkSize ≠ [] := fun none => by
      rw [none, length_nil] at full
      omega
    obtain ⟨text, written, same⟩ := ih (i + chunkSize) left (by omega)
      (by rw [Nat.add_mod_right, start])
    refine ⟨b64Encode (lines.take chunkSize) ++ [10] ++ text, ?_, fun more => ?_⟩
    · have line := bin2b64Loop_append lineWidth length i (lines.drop chunkSize ++ rest) nonempty
        (by rw [length_append]; omega) (Or.inl (by rw [full, ← chunks, Nat.mul_mod_left]))
        (fun k inside below => b64BreakAt_within wide chunks start inside (by omega) (by omega))
      have ends : b64BreakAt lineWidth length (i + (lines.take chunkSize).length) = true := by
        rw [b64BreakAt_wide wide chunks, full, Nat.add_mod_right, start]
        rfl
      have last : i + chunkSize + (lines.drop chunkSize).length = i + lines.length := by omega
      rw [← append_assoc, split, ends, full, written, last] at line
      rw [line]
      simp
    · have more := same more
      conv_lhs => rw [← split, append_assoc, b64LinesOf_line positive full, more]
      simp

/-- The encoder writes the lines that are full, and what is left of the data continues the text. -/
theorem bin2b64Stream_linesOf (bin more : Bytes) :
    b64LinesOf chunkSize (bin ++ more) = (bin2b64Stream bin lineWidth false).1 ++
      b64LinesOf chunkSize ((bin2b64Stream bin lineWidth false).2 ++ more) := by
  have size : (bin.take (bin.length - bin.length % chunkSize)).length =
      chunkSize * (bin.length / chunkSize) := by
    have division := Nat.div_add_mod bin.length chunkSize
    rw [length_take]
    omega
  obtain ⟨text, written, same⟩ := bin2b64Loop_lines wide chunks bin.length 0 size []
    (by rw [length_nil, length_take]; omega) (Nat.zero_mod _)
  rw [append_nil, bin2b64Loop, append_nil] at written
  have stream : bin2b64Stream bin lineWidth false =
      (bin2b64Loop lineWidth bin.length 0 [] (bin.take (bin.length - bin.length % chunkSize)),
        bin.drop (bin.length - bin.length % chunkSize)) := by
    rw [bin2b64Stream, chunks, if_pos (Nat.lt_of_lt_of_le (by decide) wide)]
    rfl
  rw [stream, written, ← same, ← append_assoc, take_append_drop]

theorem bin2b64Stream_left (bin : Bytes) :
    (bin2b64Stream bin lineWidth false).2.length = bin.length % chunkSize := by
  have stream : (bin2b64Stream bin lineWidth false).2 =
      bin.drop (bin.length - bin.length % chunkSize) := by
    rw [bin2b64Stream, chunks, if_pos (Nat.lt_of_lt_of_le (by decide) wide)]
    rfl
  have least := Nat.mod_le bin.length chunkSize
  rw [stream, length_drop]
  omega

/-- When it is forced to end, the encoder writes all lines. -/
theorem bin2b64Stream_all (bin : Bytes) :
    bin2b64Stream bin lineWidth true = (b64LinesOf chunkSize bin, []) := by
  have positive := chunkSize_pos wide chunks
  have whole : bin2b64Stream bin lineWidth true =
      (bin2b64Loop lineWidth bin.length 0 [] (bin.take bin.length), bin.drop bin.length) := by
    rw [bin2b64Stream, if_pos (Nat.lt_of_lt_of_le (by decide) wide), if_pos rfl]
  have division := Nat.div_add_mod bin.length chunkSize
  have below := Nat.mod_lt bin.length positive
  have size : (bin.take (bin.length - bin.length % chunkSize)).length =
      chunkSize * (bin.length / chunkSize) := by
    rw [length_take]
    omega
  have part : (bin.drop (bin.length - bin.length % chunkSize)).length = bin.length % chunkSize := by
    rw [length_drop]
    omega
  obtain ⟨text, written, same⟩ := bin2b64Loop_lines wide chunks bin.length 0 size
    (bin.drop (bin.length - bin.length % chunkSize)) (by omega) (Nat.zero_mod _)
  have lines := same (bin.drop (bin.length - bin.length % chunkSize))
  rw [take_append_drop] at written lines
  rw [whole, take_length, drop_length, written, lines, Nat.zero_add]
  by_cases none : bin.drop (bin.length - bin.length % chunkSize) = []
  · rw [none, bin2b64Loop, b64LinesOf_nil]
  · have start : (bin.take (bin.length - bin.length % chunkSize)).length % chunkSize = 0 := by
      rw [size, Nat.mul_mod_right]
    have last := bin2b64Loop_append lineWidth bin.length
      (bin.take (bin.length - bin.length % chunkSize)).length [] none
      (by rw [length_nil]; omega) (Or.inr (by omega))
      (fun k inside below => b64BreakAt_within wide chunks start inside (by omega) (by omega))
    have ends : b64BreakAt lineWidth bin.length
        ((bin.take (bin.length - bin.length % chunkSize)).length +
          (bin.drop (bin.length - bin.length % chunkSize)).length) = true := by
      rw [b64BreakAt_wide wide chunks, Bool.or_eq_true_iff, decide_eq_true_eq, decide_eq_true_eq]
      right
      omega
    rw [append_nil, ends, bin2b64Loop, append_nil] at last
    have short : (bin.drop (bin.length - bin.length % chunkSize)).length ≤ chunkSize := by omega
    rw [last, b64LinesOf_cons positive none, take_of_length_le short,
      drop_of_length_le short, b64LinesOf_nil]
    rfl

end Lines

theorem bin2b64Stream_lines (bin : Bytes) :
    ∀ more, b64Lines (bin ++ more) =
      (bin2b64Stream bin 64 false).1 ++ b64Lines ((bin2b64Stream bin 64 false).2 ++ more) := by
  intro more
  rw [b64Lines_eq, b64Lines_eq]
  exact bin2b64Stream_linesOf (show 4 ≤ 64 by decide) rfl bin more

theorem length_bin2b64Stream (bin : Bytes) :
    (bin2b64Stream bin 64 false).2.length = bin.length % 48 :=
  bin2b64Stream_left (show 4 ≤ 64 by decide) rfl bin

theorem bin2b64Stream_end (bin : Bytes) : bin2b64Stream bin 64 true = (b64Lines bin, []) := by
  rw [b64Lines_eq]
  exact bin2b64Stream_all (show 4 ≤ 64 by decide) rfl bin

theorem bin2b64Stream_zero (bin : Bytes) : bin2b64Stream bin 0 true = (b64Encode bin, []) := by
  have whole : bin2b64Stream bin 0 true =
      (bin2b64Loop 0 bin.length 0 [] (bin.take bin.length), bin.drop bin.length) := rfl
  rw [whole, take_length, drop_length]
  by_cases none : bin = []
  · rw [none]
    rfl
  · have run := bin2b64Loop_append 0 bin.length 0 [] none
      (by rw [length_nil]; omega) (Or.inr (by omega)) (fun _ _ _ => rfl)
    rw [append_nil] at run
    rw [run]
    show (b64Encode bin ++ [] ++ [], ([] : Bytes)) = _
    simp

/-! ### Decoding undoes encoding -/

theorem b64Value_b64Char {value : Nat} (small : value < 64) :
    b64Value (b64Char value) = some value := by
  have all : ∀ value < 64, b64Value (b64Char value) = some value := by decide
  exact all value small

theorem b64Value_pad : b64Value 61 = none := by decide

theorem b64Value_newline : b64Value 10 = none := by decide

/-- The values that the encoder makes of three bytes. -/
theorem b64Group_values (first second third : Nat) (small : first < 256) (below : second < 256)
    (least : third < 256) :
    (0x3f &&& (first >>> 2) = first / 4 ∧
      (0x30 &&& (first <<< 4)) ||| (0x0f &&& (second >>> 4)) = first % 4 * 16 + second / 16) ∧
    ((0x3c &&& (second <<< 2)) ||| (0x03 &&& (third >>> 6)) = second % 16 * 4 + third / 64 ∧
      0x3f &&& third = third % 64) := by
  have high : ∀ byte < 256, 0x3f &&& (byte >>> 2) = byte / 4 ∧
      0x30 &&& (byte <<< 4) = byte % 4 * 16 ∧ 0x0f &&& (byte >>> 4) = byte / 16 ∧
        0x3c &&& (byte <<< 2) = byte % 16 * 4 ∧ 0x03 &&& (byte >>> 6) = byte / 64 ∧
          0x3f &&& byte = byte % 64 := by decide +kernel
  have join : ∀ front < 4, ∀ back < 16, front * 16 ||| back = front * 16 + back := by decide
  have joined : ∀ front < 16, ∀ back < 4, front * 4 ||| back = front * 4 + back := by decide
  obtain ⟨top, left, -⟩ := high first small
  obtain ⟨-, -, right, middle, -⟩ := high second below
  obtain ⟨-, -, -, -, low, last⟩ := high third least
  rw [top, left, right, middle, low, last, join _ (by omega) _ (by omega),
    joined _ (by omega) _ (by omega)]
  exact ⟨⟨rfl, rfl⟩, rfl, rfl⟩

theorem b64Group_one (first : UInt8) :
    b64Group [first] = [b64Char (first.toNat / 4), b64Char (first.toNat % 4 * 16), 61, 61] := by
  obtain ⟨⟨front, next⟩, -⟩ := b64Group_values first.toNat 0 0 first.toNat_lt (by decide)
    (by decide)
  show [b64Char (0x3f &&& (first.toNat >>> 2)),
    b64Char ((0x30 &&& (first.toNat <<< 4)) ||| (0x0f &&& (0 >>> 4))), 61, 61] = _
  rw [front, next]
  rfl

theorem b64Group_two (first second : UInt8) :
    b64Group [first, second] =
      [b64Char (first.toNat / 4), b64Char (first.toNat % 4 * 16 + second.toNat / 16),
        b64Char (second.toNat % 16 * 4), 61] := by
  obtain ⟨⟨front, next⟩, middle, -⟩ :=
    b64Group_values first.toNat second.toNat 0 first.toNat_lt second.toNat_lt
    (by decide)
  show [b64Char (0x3f &&& (first.toNat >>> 2)),
    b64Char ((0x30 &&& (first.toNat <<< 4)) ||| (0x0f &&& (second.toNat >>> 4))),
    b64Char ((0x3c &&& (second.toNat <<< 2)) ||| (0x03 &&& (0 >>> 6))), 61] = _
  rw [front, next, middle]
  rfl

theorem b64Group_three (first second third : UInt8) :
    b64Group [first, second, third] =
      [b64Char (first.toNat / 4), b64Char (first.toNat % 4 * 16 + second.toNat / 16),
        b64Char (second.toNat % 16 * 4 + third.toNat / 64), b64Char (third.toNat % 64)] := by
  obtain ⟨⟨front, next⟩, middle, last⟩ :=
    b64Group_values first.toNat second.toNat third.toNat first.toNat_lt second.toNat_lt
    third.toNat_lt
  show [b64Char (0x3f &&& (first.toNat >>> 2)),
    b64Char ((0x30 &&& (first.toNat <<< 4)) ||| (0x0f &&& (second.toNat >>> 4))),
    b64Char ((0x3c &&& (second.toNat <<< 2)) ||| (0x03 &&& (third.toNat >>> 6))),
    b64Char (0x3f &&& third.toNat)] = _
  rw [front, next, middle, last]

/-- The bytes that the decoder makes of the values. -/
theorem b64Flush_values (first second third : UInt8) {chunk : List Nat} {skip : Nat}
    (front : chunk.getD 0 0 = first.toNat / 4)
    (next : chunk.getD 1 0 = first.toNat % 4 * 16 + second.toNat / 16)
    (middle : skip < 2 → chunk.getD 2 0 = second.toNat % 16 * 4 + third.toNat / 64)
    (last : skip < 1 → chunk.getD 3 0 = third.toNat % 64) :
    b64Flush chunk skip =
      [first] ++ (if skip < 2 then [second] else []) ++ if skip < 1 then [third] else [] := by
  have one : ∀ front < 64, ∀ next < 64, (UInt8.ofNat (front <<< 2 ||| next >>> 4)).toNat =
      front * 4 + next / 16 := by decide +kernel
  have two : ∀ next < 64, ∀ middle < 64, (UInt8.ofNat (next <<< 4 ||| middle >>> 2)).toNat =
      next % 16 * 16 + middle / 4 := by decide +kernel
  have three : ∀ middle < 64, ∀ last < 64, (UInt8.ofNat (middle <<< 6 ||| last)).toNat =
      middle % 4 * 64 + last := by decide +kernel
  have bounds := first.toNat_lt
  have bounds' := second.toNat_lt
  have bounds'' := third.toNat_lt
  have begins : UInt8.ofNat (chunk.getD 0 0 <<< 2 ||| chunk.getD 1 0 >>> 4) = first := by
    refine UInt8.toNat_inj.mp ?_
    rw [front, next, one _ (by omega) _ (by omega)]
    omega
  unfold b64Flush
  rw [begins]
  by_cases some : skip < 2
  · have follows : UInt8.ofNat (chunk.getD 1 0 <<< 4 ||| chunk.getD 2 0 >>> 2) = second := by
      refine UInt8.toNat_inj.mp ?_
      rw [next, middle some, two _ (by omega) _ (by omega)]
      omega
    rw [if_pos some, if_pos some, follows]
    by_cases none : skip < 1
    · have ends : UInt8.ofNat (chunk.getD 2 0 <<< 6 ||| chunk.getD 3 0) = third := by
        refine UInt8.toNat_inj.mp ?_
        rw [middle some, last none, three _ (by omega) _ (by omega)]
        omega
      rw [if_pos none, if_pos none, ends]
    · rw [if_neg none, if_neg none]
  · rw [if_neg some, if_neg some, if_neg (by omega), if_neg (by omega)]

section

variable {chunk : List Nat} {index skip i totalRead : Nat} {text : Bytes}

theorem b642binLoop_cons (char : UInt8) :
    b642binLoop chunk index skip i totalRead (char :: text) =
      let filled :=
        match b64Value char with
        | some value => (chunk.set index value, index + 1, skip)
        | none => if char = 61 then (chunk, index + 1, skip + 1) else (chunk, index, skip)
      if filled.2.1 = 4 then
        if 0 < filled.2.2 then (b64Flush filled.1 filled.2.2, i + 1)
        else
          let more := b642binLoop filled.1 0 0 (i + 1) (i + 1) text
          (b64Flush filled.1 filled.2.2 ++ more.1, more.2)
      else b642binLoop filled.1 filled.2.1 filled.2.2 (i + 1) totalRead text := rfl

theorem b642binLoop_value {char : UInt8} {value : Nat} (known : b64Value char = some value)
    (more : index + 1 ≠ 4) :
    b642binLoop chunk index skip i totalRead (char :: text) =
      b642binLoop (chunk.set index value) (index + 1) skip (i + 1) totalRead text := by
  rw [b642binLoop_cons, known]
  exact if_neg more

theorem b642binLoop_last {char : UInt8} {value : Nat} (known : b64Value char = some value) :
    b642binLoop chunk 3 0 i totalRead (char :: text) =
      (b64Flush (chunk.set 3 value) 0 ++
          (b642binLoop (chunk.set 3 value) 0 0 (i + 1) (i + 1) text).1,
        (b642binLoop (chunk.set 3 value) 0 0 (i + 1) (i + 1) text).2) := by
  rw [b642binLoop_cons, known]
  rfl

theorem b642binLoop_pad (more : index + 1 ≠ 4) :
    b642binLoop chunk index skip i totalRead (61 :: text) =
      b642binLoop chunk (index + 1) (skip + 1) (i + 1) totalRead text := by
  rw [b642binLoop_cons, b64Value_pad]
  exact if_neg more

theorem b642binLoop_end :
    b642binLoop chunk 3 skip i totalRead (61 :: text) = (b64Flush chunk (skip + 1), i + 1) := by
  rw [b642binLoop_cons, b64Value_pad]
  rfl

theorem b642binLoop_newline (more : index ≠ 4) :
    b642binLoop chunk index skip i totalRead (10 :: text) =
      b642binLoop chunk index skip (i + 1) totalRead text := by
  rw [b642binLoop_cons, b64Value_newline]
  exact if_neg more

end

section

variable {chunk : List Nat} (i totalRead : Nat) (text : Bytes) (four : chunk.length = 4)

include four

theorem chunk_eq : ∃ value0 value1 value2 value3, chunk = [value0, value1, value2, value3] := by
  match chunk, four with
  | [value0, value1, value2, value3], _ => exact ⟨_, _, _, _, rfl⟩

theorem b642binLoop_one (first : UInt8) :
    b642binLoop chunk 0 0 i totalRead (b64Group [first] ++ text) = ([first], i + 4) := by
  obtain ⟨value0, value1, value2, value3, rfl⟩ := chunk_eq four
  have bound := first.toNat_lt
  rw [b64Group_one, cons_append, cons_append, cons_append,
    b642binLoop_value (b64Value_b64Char (by omega)) (by decide),
    b642binLoop_value (b64Value_b64Char (by omega)) (by decide), b642binLoop_pad (by decide),
    cons_append, b642binLoop_end, b64Flush_values first 0 0 rfl rfl
      (fun small => absurd small (by decide)) (fun small => absurd small (by decide))]
  rfl

theorem b642binLoop_two (first second : UInt8) :
    b642binLoop chunk 0 0 i totalRead (b64Group [first, second] ++ text) =
      ([first, second], i + 4) := by
  obtain ⟨value0, value1, value2, value3, rfl⟩ := chunk_eq four
  have bound := first.toNat_lt
  have bound' := second.toNat_lt
  rw [b64Group_two, cons_append, cons_append, cons_append,
    b642binLoop_value (b64Value_b64Char (by omega)) (by decide),
    b642binLoop_value (b64Value_b64Char (by omega)) (by decide),
    b642binLoop_value (b64Value_b64Char (by omega)) (by decide), cons_append,
    b642binLoop_end, b64Flush_values first second 0 rfl rfl (fun _ => rfl)
      (fun small => absurd small (by decide))]
  rfl

/-- After a full quartet the loop goes on. -/
theorem b642binLoop_three (first second third : UInt8) :
    ∃ next : List Nat, next.length = 4 ∧
      b642binLoop chunk 0 0 i totalRead (b64Group [first, second, third] ++ text) =
        ([first, second, third] ++ (b642binLoop next 0 0 (i + 4) (i + 4) text).1,
          (b642binLoop next 0 0 (i + 4) (i + 4) text).2) := by
  obtain ⟨value0, value1, value2, value3, rfl⟩ := chunk_eq four
  have bound := first.toNat_lt
  have bound' := second.toNat_lt
  have bound'' := third.toNat_lt
  rw [b64Group_three, cons_append, cons_append, cons_append, cons_append,
    nil_append, b642binLoop_value (b64Value_b64Char (by omega)) (by decide),
    b642binLoop_value (b64Value_b64Char (by omega)) (by decide),
    b642binLoop_value (b64Value_b64Char (by omega)) (by decide),
    b642binLoop_last (b64Value_b64Char (by omega)),
    b64Flush_values first second third rfl rfl (fun _ => rfl) (fun _ => rfl)]
  exact ⟨_, rfl, rfl⟩

end

/-- The decoder reads the text of a line up to its end. -/
theorem b642binLoop_encode (chunk : List Nat) (i totalRead : Nat) (four : chunk.length = 4)
    (nonempty : data ≠ []) :
    b642binLoop chunk 0 0 i totalRead (b64Encode data ++ [10]) =
      (data, i + (b64Encode data).length) := by
  induction data using b64Encode.induct generalizing chunk i totalRead with
  | case1 => exact absurd rfl nonempty
  | case2 first =>
    rw [b64Encode]
    exact b642binLoop_one i totalRead [10] four first
  | case3 first second =>
    rw [b64Encode]
    exact b642binLoop_two i totalRead [10] four first second
  | case4 first second third rest ih =>
    obtain ⟨next, nextFour, read⟩ := b642binLoop_three i totalRead
      (b64Encode rest ++ [10]) four first second third
    rw [b64Encode, append_assoc, read, length_append, length_b64Group]
    cases rest with
    | nil =>
      rw [b64Encode, nil_append, b642binLoop_newline (by decide)]
      rfl
    | cons head tail =>
      rw [ih _ _ _ nextFour (cons_ne_nil _ _), ← Nat.add_assoc]
      rfl

theorem b642binStream_line {front : Bytes} (left : front = [] ∨ front = [10])
    (nonempty : data ≠ []) : b642binStream (front ++ (b64Encode data ++ [10])) = (data, [10]) := by
  rcases left with rfl | rfl
  · have read := b642binLoop_encode [0, 0, 0, 0] 0 0 rfl nonempty
    rw [nil_append]
    unfold b642binStream
    rw [read, Nat.zero_add]
    simp
  · have read := b642binLoop_encode [0, 0, 0, 0] 1 0 rfl nonempty
    unfold b642binStream
    rw [cons_append, nil_append, b642binLoop_newline (by decide), Nat.zero_add, read, Nat.add_comm]
    simp

theorem b64Char_plain (value : Nat) (small : value < 64) :
    b64Char value ≠ 10 ∧ b64Char value ≠ 61 := by
  have all : ∀ value < 64, b64Char value ≠ 10 ∧ b64Char value ≠ 61 := by decide
  exact all value small

theorem b64Encode_plain (data : Bytes) :
    10 ∉ b64Encode data ∧ (data ≠ [] → ∃ char rest, b64Encode data = char :: rest ∧ char ≠ 61) := by
  induction data using b64Encode.induct with
  | case1 => exact ⟨not_mem_nil, fun nonempty => absurd rfl nonempty⟩
  | case2 first =>
    have bound := first.toNat_lt
    have front := b64Char_plain (first.toNat / 4) (by omega)
    have next := b64Char_plain (first.toNat % 4 * 16) (by omega)
    rw [b64Encode, b64Group_one]
    refine ⟨?_, fun _ => ⟨_, _, rfl, front.2⟩⟩
    simp [front.1.symm, next.1.symm]
  | case3 first second =>
    have bound := first.toNat_lt
    have bound' := second.toNat_lt
    have front := b64Char_plain (first.toNat / 4) (by omega)
    have next := b64Char_plain (first.toNat % 4 * 16 + second.toNat / 16) (by omega)
    have middle := b64Char_plain (second.toNat % 16 * 4) (by omega)
    rw [b64Encode, b64Group_two]
    refine ⟨?_, fun _ => ⟨_, _, rfl, front.2⟩⟩
    simp [front.1.symm, next.1.symm, middle.1.symm]
  | case4 first second third rest ih =>
    have bound := first.toNat_lt
    have bound' := second.toNat_lt
    have bound'' := third.toNat_lt
    have front := b64Char_plain (first.toNat / 4) (by omega)
    have next := b64Char_plain (first.toNat % 4 * 16 + second.toNat / 16) (by omega)
    have middle := b64Char_plain (second.toNat % 16 * 4 + third.toNat / 64) (by omega)
    have last := b64Char_plain (third.toNat % 64) (by omega)
    rw [b64Encode, b64Group_three]
    refine ⟨?_, fun _ => ⟨_, _, rfl, front.2⟩⟩
    simp [front.1.symm, next.1.symm, middle.1.symm, last.1.symm, ih.1]

theorem length_b64Encode (data : Bytes) : (b64Encode data).length = (data.length + 2) / 3 * 4 := by
  induction data using b64Encode.induct with
  | case1 => rfl
  | case2 first =>
    rw [b64Encode, length_b64Group]
    simp
  | case3 first second =>
    rw [b64Encode, length_b64Group]
    simp
  | case4 first second third rest ih =>
    rw [b64Encode, length_append, length_b64Group, ih, length_cons, length_cons, length_cons]
    omega

end Splintermail
