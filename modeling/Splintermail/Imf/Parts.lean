/-
This file proves that the parts of a multipart body are split where the boundary lines are.

For the marks that the loop finds, the two trimming loops cut the text between them in the way
that `Framed` states. The marks are the boundary lines of the range, with the exception of one
mark at the end of the range which the range does not hold as a whole. So the split is right
unless that mark ends a part; and whether it is or not, the parts are the same when they are
enumerated, and they are apart from each other.
-/

import Splintermail.Imf.Marks

namespace Splintermail

open List ByteRange

/-! ### Trimming -/

section Trimming

theorem ltrim_pair (chars : Bytes) : ltrim true true chars = 0 := by
  cases chars <;> simp [ltrim]

theorem rtrim_pair (chars : Bytes) : rtrim true true chars = 0 := by
  cases chars <;> simp [rtrim]

theorem isEol_iff {char : UInt8} : isEol char = true ↔ char = 10 ∨ char = 13 := by
  simp [isEol]

/-- A line ending of two bytes has both of them. -/
theorem lineEnding_pair {first second : UInt8} :
    LineEnding [first, second] ↔ isEol first = true ∧ isEol second = true ∧ second ≠ first := by
  simp only [LineEnding, ascii, isEol_iff]
  constructor
  · intro mem
    have same : first = 13 ∧ second = 10 ∨ first = 10 ∧ second = 13 := by simpa using mem
    rcases same with ⟨rfl, rfl⟩ | ⟨rfl, rfl⟩ <;> decide
  · rintro ⟨rfl | rfl, rfl | rfl, apart⟩
    · exact absurd rfl apart
    · decide
    · decide
    · exact absurd rfl apart

theorem lineEnding_single {char : UInt8} : LineEnding [char] ↔ isEol char = true := by
  simp [LineEnding, ascii, isEol_iff, or_comm]

theorem not_lineEnding_three (first second third : UInt8) : ¬ LineEnding [first, second, third] := by
  simp [LineEnding, ascii]

/-- After the first byte of a line ending both loops take the other byte, if it is there. -/
theorem trim_second {first : UInt8} (eol : isEol first = true) (rest : Bytes) :
    ltrim false false (first :: rest) =
        (if rest.head?.any fun char => isEol char && char ≠ first then 2 else 1) ∧
      rtrim false false (first :: rest) =
        (if rest.head?.any fun char => isEol char && char ≠ first then 2 else 1) := by
  rcases isEol_iff.mp eol with rfl | rfl
  · cases rest with
    | nil => decide
    | cons char tail =>
      by_cases cr : char = 13
      · subst cr
        simp [ltrim, rtrim, ltrim_pair, rtrim_pair, isEol]
      · by_cases lf : char = 10
        · subst lf
          simp [ltrim, rtrim]
        · simp [ltrim, rtrim, isEol, cr, lf]
  · cases rest with
    | nil => decide
    | cons char tail =>
      by_cases lf : char = 10
      · subst lf
        simp [ltrim, rtrim, ltrim_pair, rtrim_pair, isEol]
      · by_cases cr : char = 13
        · subst cr
          simp [ltrim, rtrim]
        · simp [ltrim, rtrim, isEol, cr, lf]

/-- What the first loop cuts off: the rest of the line and one line ending. -/
theorem ltrim_spec {text : Bytes} (ends : ∃ char ∈ text, isEol char = true) :
    ∃ rest eol tail, text = rest ++ eol ++ tail ∧ (∀ char ∈ rest, isEol char = false) ∧
      LineEnding eol ∧ (∀ char ∈ tail.head?, ¬ LineEnding (eol ++ [char])) ∧
      ltrim false false text = (rest ++ eol).length := by
  induction text with
  | nil =>
    obtain ⟨char, mem, -⟩ := ends
    cases mem
  | cons first text ih =>
    cases eol : isEol first with
    | true =>
      rw [(trim_second eol text).1]
      cases pair : text.head?.any fun char => isEol char && decide (char ≠ first) with
      | true =>
        cases text with
        | nil => cases pair
        | cons second tail =>
          obtain ⟨secondEol, apart⟩ := Bool.and_eq_true_iff.mp pair
          refine ⟨[], [first, second], tail, rfl, nofun, ?_, fun char _ =>
            not_lineEnding_three first second char, rfl⟩
          exact lineEnding_pair.mpr ⟨eol, secondEol, of_decide_eq_true apart⟩
      | false =>
        refine ⟨[], [first], text, rfl, nofun, lineEnding_single.mpr eol, ?_, rfl⟩
        intro char mem ending
        rw [Option.mem_def.mp mem] at pair
        obtain ⟨-, secondEol, apart⟩ := lineEnding_pair.mp ending
        simp [secondEol, apart] at pair
    | false =>
      have later : ∃ char ∈ text, isEol char = true := by
        obtain ⟨char, mem, isEnd⟩ := ends
        rcases mem_cons.mp mem with rfl | inText
        · rw [eol] at isEnd
          cases isEnd
        · exact ⟨char, inText, isEnd⟩
      obtain ⟨rest, ending, tail, rfl, plain, isEnding, most, count⟩ := ih later
      have notEol := Bool.eq_false_iff.mp eol
      rw [Ne, isEol_iff, not_or] at notEol
      refine ⟨first :: rest, ending, tail, rfl, ?_, isEnding, most, ?_⟩
      · exact forall_mem_cons.mpr ⟨eol, plain⟩
      · have step : ltrim false false (first :: (rest ++ ending ++ tail)) =
            ltrim false false (rest ++ ending ++ tail) + 1 := by
          simp [ltrim, notEol]
        rw [step, count]
        rfl

/-- What the second loop cuts off: one line ending. -/
theorem rtrim_spec {text : Bytes} {last : UInt8} (ends : text.getLast? = some last)
    (eol : isEol last = true) :
    ∃ part back, text = part ++ back ∧ LineEnding back ∧
      (∀ char ∈ part.getLast?, ¬ LineEnding (char :: back)) ∧
      rtrim false false text.reverse = back.length := by
  obtain ⟨front, rfl⟩ := getLast?_eq_some_iff.mp ends
  rw [reverse_append, reverse_singleton, singleton_append, (trim_second eol _).2]
  cases pair : front.reverse.head?.any fun char => isEol char && decide (char ≠ last) with
  | true =>
    rw [head?_reverse] at pair
    cases before : front.getLast? with
    | none =>
      rw [before] at pair
      cases pair
    | some char =>
      rw [before] at pair
      obtain ⟨secondEol, apart⟩ := Bool.and_eq_true_iff.mp pair
      obtain ⟨part, rfl⟩ := getLast?_eq_some_iff.mp before
      refine ⟨part, [char, last], by simp, ?_, fun other _ => not_lineEnding_three other char last, rfl⟩
      exact lineEnding_pair.mpr ⟨secondEol, eol, (of_decide_eq_true apart).symm⟩
  | false =>
    refine ⟨front, [last], rfl, lineEnding_single.mpr eol, ?_, rfl⟩
    intro char mem ending
    rw [head?_reverse, Option.mem_def.mp mem] at pair
    obtain ⟨charEol, -, apart⟩ := lineEnding_pair.mp ending
    simp [charEol, apart.symm] at pair

/-- Both loops together cut out the part. -/
theorem framed_of_trim {between : Bytes} {last : UInt8} (ends : between.getLast? = some last)
    (eol : isEol last = true) :
    ∃ front part back, Framed between front part back ∧
      ltrim false false between = front.length ∧
      between.length - front.length - rtrim false false (between.drop front.length).reverse =
        part.length := by
  obtain ⟨rest, ending, tail, whole, plain, isEnding, most, left⟩ :=
    ltrim_spec ⟨last, mem_of_getLast? ends, eol⟩
  have dropped : between.drop (rest ++ ending).length = tail := by rw [whole, drop_left]
  cases tail with
  | nil =>
    refine ⟨rest ++ ending, [], [], ?_, left, ?_⟩
    · exact ⟨by rw [whole, append_nil, append_nil], ⟨rest, ending, rfl, plain, isEnding, most⟩,
        .inr ⟨rfl, rfl⟩⟩
    · rw [dropped, whole, append_nil, Nat.sub_self, Nat.zero_sub]
      rfl
  | cons char more =>
    have tailEnds : (char :: more).getLast? = some last := by
      rwa [whole, getLast?_append_of_ne_nil _ (cons_ne_nil char more)] at ends
    obtain ⟨part, back, split, backEnding, widest, right⟩ := rtrim_spec tailEnds eol
    refine ⟨rest ++ ending, part, back, ?_, left, ?_⟩
    · refine ⟨by rw [whole, split, append_assoc _ part], ⟨rest, ending, rfl, plain, isEnding, ?_⟩,
        .inl ⟨backEnding, widest⟩⟩
      rwa [← split]
    · rw [dropped, right, whole, split]
      simp only [length_append]
      omega

end Trimming

/-! ### The marks of a range -/

namespace ByteRange

variable (bytes : ByteRange) (boundary : Bytes)

/-- The marks that the loop finds in a range. -/
def codeMarks : List Nat :=
  marks (eolAt bytes.buf) (matchesBoundary bytes.buf boundary) bytes.fin true bytes.start

variable {bytes boundary}

theorem length_text : bytes.text.length = bytes.len := by
  have inside := bytes.inside
  rw [text, length_take, length_drop]
  omega

variable {place : Nat}

theorem getD_text (inside : place < bytes.len) :
    bytes.text.getD place 0 = bytes.buf.getD (bytes.start + place) 0 := by
  rw [text, getD_eq_getElem?_getD, getElem?_take_of_lt inside, getElem?_drop,
    getD_eq_getElem?_getD]

theorem dstrSub2_text {i j : Nat} (inside : j ≤ bytes.len) :
    dstrSub2 bytes.text i j = dstrSub2 bytes.buf (bytes.start + i) (bytes.start + j) := by
  rw [dstrSub2, text, take_take, Nat.min_eq_left inside, dstrSub2, take_drop, drop_drop]

theorem lineStart_iff (inside : place < bytes.len) :
    LineStart bytes.text place ↔
      (place = 0 ∨ eolAt bytes.buf (bytes.start + place - 1) = true) ∧
        eolAt bytes.buf (bytes.start + place) = false := by
  rw [LineStart, getD_text inside, eolAt, eolAt]
  refine and_congr_left fun _ => ?_
  rcases Nat.eq_zero_or_pos place with rfl | positive
  · simp
  · rw [getD_text (by omega), Nat.add_sub_assoc positive]

theorem append_prefix_iff {front back text : Bytes} :
    front ++ back <+: text ↔ front <+: text ∧ back <+: text.drop front.length := by
  constructor
  · rintro ⟨tail, rfl⟩
    refine ⟨⟨back ++ tail, by rw [append_assoc]⟩, tail, ?_⟩
    rw [append_assoc, drop_left]
  · rintro ⟨⟨tail, rfl⟩, later⟩
    rw [drop_left] at later
    exact prefix_append_right_inj front |>.mpr later

/-- A pattern that is found in the text is found in the buffer, and ends within the range. -/
theorem prefix_text_iff {pattern : Bytes} (inside : place ≤ bytes.len) :
    pattern <+: bytes.text.drop place ↔
      place + pattern.length ≤ bytes.len ∧
        dstrSub2 bytes.buf (bytes.start + place) (bytes.start + place + pattern.length) = pattern := by
  have length : (bytes.text.drop place).length = bytes.len - place := by
    rw [length_drop, length_text]
  have sub (fits : place + pattern.length ≤ bytes.len) :
      (bytes.text.drop place).take pattern.length =
        dstrSub2 bytes.buf (bytes.start + place) (bytes.start + place + pattern.length) := by
    rw [Nat.add_assoc, ← dstrSub2_text fits, dstrSub2, drop_take, Nat.add_sub_cancel_left]
  constructor
  · intro found
    have fits : place + pattern.length ≤ bytes.len := by
      have bound := found.length_le
      omega
    exact ⟨fits, (sub fits).symm.trans (prefix_iff_eq_take.mp found).symm⟩
  · rintro ⟨fits, same⟩
    exact prefix_iff_eq_take.mpr ((sub fits).trans same).symm

theorem cmpChars_dstrSub2 {buf pattern : Bytes} {i : Nat} (inside : i + pattern.length ≤ buf.length) :
    cmpChars (dstrSub2 buf i (i + pattern.length)) pattern = 0 ↔
      dstrSub2 buf i (i + pattern.length) = pattern := by
  constructor
  · intro equal
    refine (prefix_of_cmpChars equal).eq_of_length ?_
    rw [dstrSub2, length_drop, length_take]
    omega
  · intro same
    rw [same]
    exact cmpChars_self pattern

/-- A boundary is found in the text where the loop finds it and the range holds all of it. -/
theorem boundary_prefix_iff (inside : place < bytes.len) :
    ascii "--" ++ boundary <+: bytes.text.drop place ↔
      place + 2 + boundary.length ≤ bytes.len ∧
        matchesBoundary bytes.buf boundary (bytes.start + place) = true := by
  have two : (ascii "--").length = 2 := rfl
  have range := bytes.inside
  rw [append_prefix_iff, drop_drop, two, prefix_text_iff inside.le, two]
  by_cases fits : place + 2 + boundary.length ≤ bytes.len
  · have dashes := @cmpChars_dstrSub2 bytes.buf (ascii "--") (bytes.start + place) (by omega)
    have same := @cmpChars_dstrSub2 bytes.buf boundary (bytes.start + place + 2) (by omega)
    rw [two] at dashes
    rw [prefix_text_iff (by omega), ← Nat.add_assoc, ← dashes, ← same, matchesBoundary,
      Bool.and_eq_true_iff, decide_eq_true_iff, decide_eq_true_iff]
    have less : place + 2 ≤ bytes.len := by omega
    simp only [fits, less, true_and]
  · refine iff_of_false (fun found => fits ?_) fun found => fits found.1
    have bound := found.2.length_le
    rw [length_drop, length_text] at bound
    omega

theorem mem_boundaryLines :
    place ∈ boundaryLines bytes.text boundary ↔
      bytes.start + place ∈ bytes.codeMarks boundary ∧ place + 2 + boundary.length ≤ bytes.len := by
  rw [boundaryLines, mem_filter, mem_range, length_text, decide_eq_true_iff, BoundaryLine,
    codeMarks, mem_marks, fin]
  by_cases inside : place < bytes.len
  · rw [lineStart_iff inside, boundary_prefix_iff inside]
    constructor
    · rintro ⟨-, ⟨begins, plain⟩, fits, matched⟩
      refine ⟨⟨⟨by omega, by omega⟩, ?_, plain, matched⟩, fits⟩
      rcases begins with rfl | ends
      · exact .inl ⟨rfl, rfl⟩
      · rcases Nat.eq_zero_or_pos place with rfl | positive
        · exact .inl ⟨rfl, rfl⟩
        · exact .inr ⟨by omega, ends⟩
    · rintro ⟨⟨-, begins, plain, matched⟩, fits⟩
      refine ⟨inside, ⟨?_, plain⟩, fits, matched⟩
      rcases begins with ⟨same, -⟩ | ⟨-, ends⟩
      · exact .inl (by omega)
      · exact .inr ends
  · refine iff_of_false (fun found => inside found.1) fun found => inside (by omega)

section Plain

variable (plain : ∀ char ∈ boundary, isEol char = false)

include plain

/-- A mark ends before the line ending that is before the next mark. -/
theorem add_lt_of_mem_codeMarks {mark later : Nat} (mem : mark ∈ bytes.codeMarks boundary)
    (next : later ∈ bytes.codeMarks boundary) (less : mark < later) :
    mark + 2 + boundary.length < later ∧ eolAt bytes.buf (later - 1) = true := by
  obtain ⟨⟨low, -⟩, -, -, matched⟩ := mem_marks.mp mem
  obtain ⟨⟨-, high⟩, begins, -, -⟩ := mem_marks.mp next
  have ends : eolAt bytes.buf (later - 1) = true := by
    rcases begins with ⟨same, -⟩ | ⟨-, ends⟩
    · omega
    · exact ends
  refine ⟨?_, ends⟩
  by_contra close
  have range := bytes.inside
  have noEnd := @eolAt_of_matches bytes.buf boundary plain mark (later - 1) matched (by omega)
    (by omega) (by unfold fin at high; omega)
  rw [ends] at noEnd
  cases noEnd

theorem le_of_overrun {mark : Nat} (mem : mark ∈ bytes.codeMarks boundary)
    (cut : bytes.fin < mark + 2 + boundary.length) {other : Nat}
    (another : other ∈ bytes.codeMarks boundary) : other ≤ mark := by
  by_contra later
  have before := (mem_marks.mp another).1.2
  have apart := (add_lt_of_mem_codeMarks plain mem another (Nat.lt_of_not_le later)).1
  omega

/-- The marks are the boundary lines of the range, and one more that the range cuts short, if there
is one. -/
theorem codeMarks_eq :
    (bytes.codeMarks boundary = (boundaryLines bytes.text boundary).map (bytes.start + ·) ∧
      ∀ mark ∈ bytes.codeMarks boundary, mark + 2 + boundary.length ≤ bytes.fin) ∨
    ∃ mark, bytes.codeMarks boundary =
        (boundaryLines bytes.text boundary).map (bytes.start + ·) ++ [mark] ∧
      mark ∈ bytes.codeMarks boundary ∧ bytes.fin < mark + 2 + boundary.length := by
  have sorted : (bytes.codeMarks boundary).Pairwise (· < ·) := pairwise_marks _ _
  have lines : ((boundaryLines bytes.text boundary).map (bytes.start + ·)).Pairwise (· < ·) := by
    refine List.Pairwise.map _ (fun _ _ less => Nat.add_lt_add_left less _) ?_
    exact List.Pairwise.filter _ pairwise_lt_range
  have memberLines (mark : Nat) : mark ∈ (boundaryLines bytes.text boundary).map (bytes.start + ·) ↔
      mark ∈ bytes.codeMarks boundary ∧ mark + 2 + boundary.length ≤ bytes.fin := by
    rw [mem_map]
    constructor
    · rintro ⟨place, mem, rfl⟩
      obtain ⟨inCode, fits⟩ := mem_boundaryLines.mp mem
      exact ⟨inCode, by unfold fin; omega⟩
    · rintro ⟨inCode, fits⟩
      have low := (mem_marks.mp inCode).1.1
      refine ⟨mark - bytes.start, mem_boundaryLines.mpr ⟨?_, by unfold fin at fits; omega⟩, by omega⟩
      rwa [Nat.add_sub_cancel' low]
  by_cases whole : ∀ mark ∈ bytes.codeMarks boundary, mark + 2 + boundary.length ≤ bytes.fin
  · refine .inl ⟨List.Pairwise.eq_of_mem_iff sorted lines fun mark => ?_, whole⟩
    rw [memberLines]
    exact ⟨fun mem => ⟨mem, whole mark mem⟩, And.left⟩
  · push Not at whole
    obtain ⟨mark, mem, cut⟩ := whole
    refine .inr ⟨mark, List.Pairwise.eq_of_mem_iff sorted ?_ fun other => ?_, mem, cut⟩
    · refine pairwise_append.mpr ⟨lines, pairwise_singleton _ _, fun other before last same => ?_⟩
      rw [mem_singleton.mp same]
      obtain ⟨another, fits⟩ := (memberLines other).mp before
      have below := le_of_overrun plain mem cut another
      omega
    · rw [mem_append, memberLines, mem_singleton]
      constructor
      · intro another
        by_cases fits : other + 2 + boundary.length ≤ bytes.fin
        · exact .inl ⟨another, fits⟩
        · have above := le_of_overrun plain another (Nat.lt_of_not_le fits) mem
          have below := le_of_overrun plain mem cut another
          exact .inr (by omega)
      · rintro (⟨another, -⟩ | rfl)
        · exact another
        · exact mem

/-- Whether a boundary line is a final one is seen in the range, if another mark follows. -/
theorem endsBoundary_eq {place later : Nat} (mem : place ∈ boundaryLines bytes.text boundary)
    (next : later ∈ bytes.codeMarks boundary) (less : bytes.start + place < later) :
    endsBoundary bytes.buf boundary (bytes.start + place) =
      decide (FinalLine bytes.text boundary place) := by
  have two : (ascii "--").length = 2 := rfl
  have range := bytes.inside
  obtain ⟨inCode, fits⟩ := mem_boundaryLines.mp mem
  obtain ⟨apart, ends⟩ := add_lt_of_mem_codeMarks plain inCode next less
  have high : later < bytes.start + bytes.len := (mem_marks.mp next).1.2
  have inside : place < bytes.len := by
    have low := (mem_marks.mp inCode).1.2
    unfold fin at low
    omega
  have found := (boundary_prefix_iff inside).mpr ⟨fits, (mem_marks.mp inCode).2.2.2⟩
  have length : (ascii "--" ++ boundary).length = 2 + boundary.length := by
    rw [length_append, two]
  have final : FinalLine bytes.text boundary place ↔
      place + 2 + boundary.length + 2 ≤ bytes.len ∧
        dstrSub2 bytes.buf (bytes.start + place + 2 + boundary.length)
          (bytes.start + place + 2 + boundary.length + 2) = ascii "--" := by
    rw [FinalLine, append_prefix_iff, drop_drop, length, and_iff_right found,
      prefix_text_iff (by omega), two]
    simp only [← Nat.add_assoc]
  rw [endsBoundary, decide_eq_decide, final]
  constructor
  · intro equal
    have longer : bytes.start + place + 2 + boundary.length + 2 ≤ later - 1 := by
      by_contra short
      have among := (@prefix_of_cmpChars _ (ascii "--") _ equal).subset
        (@getD_mem_dstrSub2 bytes.buf _ (bytes.start + place + 2 + boundary.length + 2) (later - 1)
          (by omega) (by omega) (by omega))
      have noEnd : eolAt bytes.buf (later - 1) = false := isEol_dashes _ among
      rw [ends] at noEnd
      cases noEnd
    exact ⟨by omega, (@cmpChars_dstrSub2 _ (ascii "--") _ (by rw [two]; omega)).mp equal⟩
  · rintro ⟨-, same⟩
    exact (@cmpChars_dstrSub2 _ (ascii "--") _ (by rw [two]; omega)).mpr same

end Plain

end ByteRange

/-! ### The parts -/

section Parts

variable {bytes : ByteRange} {boundary : Bytes}

/-- What `get_multipart_index` makes of a target and the boundary after it. -/
def subpartOf (bytes : ByteRange) (boundary : Bytes) (found : Nat × Nat) : Subpart :=
  let tgt := dstrSub2 bytes.buf (found.1 + 2 + boundary.length) found.2
  let left := ltrim false false tgt
  let right := rtrim false false (tgt.drop left).reverse
  ⟨found.1 + 2 + boundary.length + left, tgt.length - left - right, found.2 - bytes.start⟩

/-- A part is the text between its boundary lines, trimmed. -/
def IsPart (bytes : ByteRange) (boundary : Bytes) (index : Nat) (part : Subpart) : Prop :=
  ∃ first second front body back, partLines bytes.text boundary index = some (first, second) ∧
    Framed (dstrSub2 bytes.text (first + 2 + boundary.length) second) front body back ∧
    part.start = bytes.start + (first + 2 + boundary.length + front.length) ∧
    part.len = body.length ∧ part.nextSkip = second

/-- A range is split as its boundary lines say: each part is found under its number and is missing
only if it is not there, the parts are the same when they are read one after the other, they are
in the range, and they are apart. -/
structure SplitRight (bytes : ByteRange) (boundary : Bytes) : Prop where
  found : ∀ index > 0, ∀ part, getMultipartIndex bytes 0 boundary index = some part →
    IsPart bytes boundary index part
  missing : ∀ index > 0, getMultipartIndex bytes 0 boundary index = none ↔
    partLines bytes.text boundary index = none
  enumerated : ∃ parts, nextParts bytes boundary (bytes.len + 1) 0 = some parts ∧
    ∀ index > 0, parts[index - 1]? = getMultipartIndex bytes 0 boundary index
  inside : ∀ index > 0, ∀ part, getMultipartIndex bytes 0 boundary index = some part →
    bytes.start ≤ part.start ∧ part.start + part.len ≤ bytes.fin
  apart : ∀ index > 0, ∀ other > index, ∀ part later,
    getMultipartIndex bytes 0 boundary index = some part →
    getMultipartIndex bytes 0 boundary other = some later → part.start + part.len ≤ later.start

/-- A range is cut short in a boundary line: at a line of it the buffer compares equal with the
boundary, and goes past the end of the range. A part is open there, since there is a boundary line
before it, and no final one. -/
structure CutShort (bytes : ByteRange) (boundary : Bytes) : Prop where
  cut : ∃ place < bytes.len, LineStart bytes.text place ∧
    matchesBoundary bytes.buf boundary (bytes.start + place) = true ∧
    bytes.len < place + 2 + boundary.length
  begun : boundaryLines bytes.text boundary ≠ []
  unfinished : ∀ place ∈ boundaryLines bytes.text boundary, ¬ FinalLine bytes.text boundary place

theorem partLines_eq {text : Bytes} {index : Nat} (positive : 0 < index) :
    partLines text boundary index =
      pick (fun place => decide (FinalLine text boundary place)) index (boundaryLines text boundary) := by
  have same : (fun place => decide (decide (FinalLine text boundary place) = false)) =
      fun place => decide ¬ FinalLine text boundary place := by
    funext place
    simp
  rw [pick_eq positive, partLines, same]

/-- Two marks in a row are found by their numbers. -/
theorem getElem?_of_pick {index first second : Nat} (positive : 0 < index)
    (found : pick (endsBoundary bytes.buf boundary) index (bytes.codeMarks boundary) =
      some (first, second)) :
    (bytes.codeMarks boundary)[index - 1]? = some first ∧
      (bytes.codeMarks boundary)[index]? = some second := by
  rw [pick_eq positive] at found
  obtain ⟨early, first', found⟩ := Option.bind_eq_some_iff.mp found
  obtain ⟨late, second', same⟩ := Option.bind_eq_some_iff.mp found
  cases same
  refine ⟨?_, second'⟩
  obtain ⟨inside, value⟩ := List.getElem?_eq_some_iff.mp first'
  rw [prefix_iff_getElem?.mp ( takeWhile_prefix _) _ inside, value]

/-- The marks of a target are two marks in a row. -/
theorem mem_of_pick {index first second : Nat}
    (found : pick (endsBoundary bytes.buf boundary) index (bytes.codeMarks boundary) =
      some (first, second)) :
    first ∈ bytes.codeMarks boundary ∧ second ∈ bytes.codeMarks boundary ∧ first < second := by
  obtain ⟨front, back, split, -⟩ := pick_spec found
  have sorted : (bytes.codeMarks boundary).Pairwise (· < ·) := pairwise_marks _ _
  rw [split] at sorted ⊢
  have less := (pairwise_append.mp sorted).2.1
  exact ⟨by simp, by simp, (pairwise_cons.mp less).1 second mem_cons_self⟩

variable (plain : ∀ char ∈ boundary, isEol char = false)

include plain

theorem getMultipartIndex_eq {index : Nat} (positive : 0 < index) (skip : Nat) :
    getMultipartIndex bytes skip boundary index =
      (pick (endsBoundary bytes.buf boundary) index
        (marks (eolAt bytes.buf) (matchesBoundary bytes.buf boundary) bytes.fin true
          (bytes.start + skip))).map (subpartOf bytes boundary) := by
  have range : bytes.fin ≤ bytes.buf.length := bytes.inside
  rw [getMultipartIndex, if_neg positive.ne', scanLines_eq plain range _ rfl]
  dsimp only
  cases pick (endsBoundary bytes.buf boundary) index
    (marks (eolAt bytes.buf) (matchesBoundary bytes.buf boundary) bytes.fin true
      (bytes.start + skip)) with
  | none => rfl
  | some pair => rfl

/-- The text between two marks in a row is cut where a part is. -/
theorem subpartOf_spec {first second : Nat} (mem : first ∈ bytes.codeMarks boundary)
    (next : second ∈ bytes.codeMarks boundary) (less : first < second) :
    ∃ front body back,
      Framed (dstrSub2 bytes.buf (first + 2 + boundary.length) second) front body back ∧
        subpartOf bytes boundary (first, second) =
          ⟨first + 2 + boundary.length + front.length, body.length, second - bytes.start⟩ := by
  obtain ⟨apart, ends⟩ := add_lt_of_mem_codeMarks plain mem next less
  have high := (mem_marks.mp next).1.2
  have range := bytes.inside
  unfold fin at high
  have last : (dstrSub2 bytes.buf (first + 2 + boundary.length) second).getLast? =
      some (bytes.buf.getD (second - 1) 0) := by
    have length : (dstrSub2 bytes.buf (first + 2 + boundary.length) second).length =
        second - (first + 2 + boundary.length) := by
      rw [dstrSub2, length_drop, length_take, Nat.min_eq_left (by omega)]
    rw [getLast?_eq_getElem?, length, dstrSub2, getElem?_drop, getElem?_take_of_lt (by omega)]
    have place : first + 2 + boundary.length + (second - (first + 2 + boundary.length) - 1) =
        second - 1 := by omega
    rw [place, getD_eq_getElem?_getD, getElem?_eq_getElem (by omega)]
    rfl
  obtain ⟨front, body, back, framed, left, length⟩ := framed_of_trim last ends
  refine ⟨front, body, back, framed, ?_⟩
  rw [subpartOf]
  dsimp only
  rw [left, length]

/-- The parts are found between the boundary lines of the range, if it is not cut short. -/
theorem pick_codeMarks {index : Nat} (positive : 0 < index) (whole : ¬ CutShort bytes boundary) :
    pick (endsBoundary bytes.buf boundary) index (bytes.codeMarks boundary) =
      (partLines bytes.text boundary index).map (Prod.map (bytes.start + ·) (bytes.start + ·)) := by
  have ordered : (boundaryLines bytes.text boundary).Pairwise (· < ·) :=
    List.Pairwise.filter _ pairwise_lt_range
  rw [partLines_eq positive]
  rcases @ByteRange.codeMarks_eq bytes boundary plain with ⟨same, -⟩ | ⟨mark, same, mem, cut⟩
  · rw [same, pick_map]
    congr 1
    refine pick_congr fun place early => ?_
    cases lines : (boundaryLines bytes.text boundary).getLast? with
    | none =>
      rw [getLast?_eq_none_iff.mp lines] at early
      cases early
    | some last =>
      obtain ⟨front, split⟩ := getLast?_eq_some_iff.mp lines
      rw [split, dropLast_concat] at early
      rw [split] at ordered
      have less := (pairwise_append.mp ordered).2.2 place early last mem_cons_self
      refine @ByteRange.endsBoundary_eq bytes boundary plain _ (bytes.start + last) ?_ ?_ (by omega)
      · rw [split]
        exact mem_append_left _ early
      · rw [same, split]
        simp
  · have final (place : Nat) (line : place ∈ boundaryLines bytes.text boundary) :
        endsBoundary bytes.buf boundary (bytes.start + place) =
          decide (FinalLine bytes.text boundary place) := by
      have inCode := (mem_boundaryLines.mp line)
      have below := le_of_overrun plain mem cut inCode.1
      refine endsBoundary_eq plain line mem ?_
      unfold fin at cut
      omega
    have picked : pick (endsBoundary bytes.buf boundary) index
        ((boundaryLines bytes.text boundary).map (bytes.start + ·)) =
          (pick (fun place => decide (FinalLine bytes.text boundary place)) index
            (boundaryLines bytes.text boundary)).map
              (Prod.map (bytes.start + ·) (bytes.start + ·)) := by
      rw [pick_map]
      congr 1
      exact pick_congr fun place early => final place (dropLast_subset _ early)
    rw [same]
    by_cases begun : boundaryLines bytes.text boundary = []
    · rw [begun]
      simp [pick]
    · by_cases ended : ∃ place ∈ boundaryLines bytes.text boundary,
          FinalLine bytes.text boundary place
      · obtain ⟨place, line, isFinal⟩ := ended
        rw [pick_append, picked]
        exact ⟨bytes.start + place, mem_map_of_mem line, by simp [final place line, isFinal]⟩
      · refine absurd ⟨⟨mark - bytes.start, ?_⟩, begun, fun place line isFinal =>
          ended ⟨place, line, isFinal⟩⟩ whole
        obtain ⟨⟨low, high⟩, begins, plainMark, matched⟩ := mem_marks.mp mem
        unfold fin at high cut
        have inside : mark - bytes.start < bytes.len := by omega
        have back : bytes.start + (mark - bytes.start) = mark := Nat.add_sub_cancel' low
        refine ⟨inside, ?_, by rwa [back], by omega⟩
        rw [lineStart_iff inside, back]
        refine ⟨?_, plainMark⟩
        rcases begins with ⟨first, -⟩ | ⟨-, ends⟩
        · exact .inl (by omega)
        · exact .inr ends

/-- A part that is found is in the range. -/
theorem inside_of_found {index : Nat} (positive : 0 < index) {part : Subpart}
    (found : getMultipartIndex bytes 0 boundary index = some part) :
    ∃ first second, (bytes.codeMarks boundary)[index - 1]? = some first ∧
      (bytes.codeMarks boundary)[index]? = some second ∧ bytes.start ≤ first ∧
      first ≤ part.start ∧ part.start + part.len ≤ second ∧ second < bytes.fin := by
  rw [getMultipartIndex_eq plain positive] at found
  obtain ⟨⟨first, second⟩, picked, rfl⟩ := Option.map_eq_some_iff.mp found
  obtain ⟨mem, next, less⟩ := mem_of_pick picked
  obtain ⟨front, body, back, framed, same⟩ := subpartOf_spec plain mem next less
  obtain ⟨firstPlace, secondPlace⟩ := getElem?_of_pick positive picked
  have length := congrArg length framed.whole
  have low := (mem_marks.mp mem).1.1
  obtain ⟨-, high⟩ := (mem_marks.mp next).1
  have range := bytes.inside
  have apart := (add_lt_of_mem_codeMarks plain mem next less).1
  unfold fin at high
  rw [dstrSub2, length_drop, length_take, Nat.min_eq_left (by omega), length_append,
    length_append] at length
  refine ⟨first, second, firstPlace, secondPlace, low, ?_⟩
  rw [same]
  exact ⟨by dsimp only; omega, by dsimp only; omega, high⟩

/-- One by one the same parts are read as by their numbers. -/
theorem nextParts_spec {fuel skip : Nat} :
    (marks (eolAt bytes.buf) (matchesBoundary bytes.buf boundary) bytes.fin true
      (bytes.start + skip)).length < fuel →
    ∃ parts, nextParts bytes boundary fuel skip = some parts ∧
      ∀ index > 0, parts[index - 1]? = getMultipartIndex bytes skip boundary index := by
  induction fuel generalizing skip with
  | zero => exact fun short => absurd short (Nat.not_lt_zero _)
  | succ fuel ih =>
    intro enough
    rw [nextParts, getMultipartIndex_eq plain Nat.one_pos]
    have others (index : Nat) (positive : 0 < index) := @getMultipartIndex_eq bytes boundary plain
      index positive skip
    cases places : marks (eolAt bytes.buf) (matchesBoundary bytes.buf boundary) bytes.fin true
        (bytes.start + skip) with
    | nil => exact ⟨[], rfl, fun index positive => by rw [others index positive, places]; rfl⟩
    | cons first rest =>
      rw [places] at enough
      cases final : endsBoundary bytes.buf boundary first with
      | true =>
        refine ⟨[], by simp [pick, final], fun index positive => ?_⟩
        rw [others index positive, places]
        simp [pick, final]
      | false =>
        cases rest with
        | nil =>
          refine ⟨[], by simp [pick, final], fun index positive => ?_⟩
          rw [others index positive, places]
          simp [pick, final]
        | cons second rest =>
          have restart := @marks_restart _ _ _ _ _ [first] _ _ places
          have low : bytes.start ≤ second := by
            have mem : second ∈ first :: second :: rest := by simp
            rw [← places] at mem
            have bound := (mem_marks.mp mem).1.1
            omega
          have back : bytes.start + (second - bytes.start) = second := Nat.add_sub_cancel' low
          rw [← back] at restart
          obtain ⟨parts, read, same⟩ := @ih (second - bytes.start)
            (by rw [restart]; simpa using enough)
          refine ⟨subpartOf bytes boundary (first, second) :: parts, ?_, fun index positive => ?_⟩
          · simp [pick, final, subpartOf, read]
          · rw [others index positive, places]
            rcases Nat.eq_or_lt_of_le (Nat.succ_le_of_lt positive) with rfl | more
            · simp [pick, final]
            · have before : 0 < index - 1 := Nat.sub_pos_of_lt more
              have shift : index - 1 = index - 1 - 1 + 1 := by omega
              rw [shift, getElem?_cons_succ, same (index - 1) before,
                getMultipartIndex_eq plain before, restart, pick.eq_2 _ index, if_neg (by simp [final]),
                if_pos before, back]

/-- A range that is cut short has a part too many. -/
theorem not_splitRight_of_cutShort (short : CutShort bytes boundary) :
    ¬ SplitRight bytes boundary := by
  intro right
  obtain ⟨place, inside, begins, matched, cut⟩ := short.cut
  obtain ⟨begins, plainMark⟩ := (lineStart_iff inside).mp begins
  have mem : bytes.start + place ∈ bytes.codeMarks boundary := by
    refine mem_marks.mpr ⟨⟨Nat.le_add_right _ _, Nat.add_lt_add_left inside _⟩, ?_, plainMark, matched⟩
    rcases Nat.eq_zero_or_pos place with rfl | positive
    · exact .inl ⟨rfl, rfl⟩
    · exact .inr ⟨Nat.lt_add_of_pos_right positive, begins.resolve_left positive.ne'⟩
  have beyond : bytes.fin < bytes.start + place + 2 + boundary.length := by
    unfold fin
    omega
  rcases @ByteRange.codeMarks_eq bytes boundary plain with ⟨-, whole⟩ | ⟨mark, same, inCode, past⟩
  · exact absurd (whole _ mem) (Nat.not_le_of_lt beyond)
  · have count : ((boundaryLines bytes.text boundary).map (bytes.start + ·)).length =
        (boundaryLines bytes.text boundary).length := length_map _
    have positive : 0 < (boundaryLines bytes.text boundary).length :=
      length_pos_iff.mpr short.begun
    have begun : (boundaryLines bytes.text boundary).map (bytes.start + ·) ≠ [] :=
      fun empty => short.begun (map_eq_nil_iff.mp empty)
    have open' : ∀ line ∈ (boundaryLines bytes.text boundary).map (bytes.start + ·),
        endsBoundary bytes.buf boundary line = false := by
      intro line inLines
      obtain ⟨at', isLine, rfl⟩ := mem_map.mp inLines
      have inMarks := mem_boundaryLines.mp isLine
      have below := le_of_overrun plain inCode past inMarks.1
      rw [endsBoundary_eq plain isLine inCode (by unfold fin at past; omega)]
      exact decide_eq_false (short.unfinished at' isLine)
    have found := @pick_last (endsBoundary bytes.buf boundary) _ mark begun open'
    rw [← same, count] at found
    have missing := right.missing _ positive
    rw [partLines_eq positive, pick_length, getMultipartIndex_eq plain positive, Nat.add_zero,
      ← codeMarks, found] at missing
    exact absurd (missing.mpr rfl) (by simp)

/-- A range is split right if and only if it is not cut short in a boundary line. -/
theorem splitRight_iff : SplitRight bytes boundary ↔ ¬ CutShort bytes boundary := by
  refine ⟨fun right short => not_splitRight_of_cutShort plain short right, fun whole => ?_⟩
  have found (index : Nat) (positive : 0 < index) :
      getMultipartIndex bytes 0 boundary index = ((partLines bytes.text boundary index).map
        (Prod.map (bytes.start + ·) (bytes.start + ·))).map (subpartOf bytes boundary) := by
    rw [getMultipartIndex_eq plain positive, ← pick_codeMarks plain positive whole]
    rfl
  constructor
  · intro index positive part isPart
    rw [found index positive] at isPart
    obtain ⟨⟨first, second⟩, lines, rfl⟩ := Option.map_eq_some_iff.mp isPart
    obtain ⟨⟨place, next⟩, places, same⟩ := Option.map_eq_some_iff.mp lines
    cases same
    rw [← pick_codeMarks plain positive whole] at lines
    obtain ⟨mem, inCode, less⟩ := mem_of_pick lines
    obtain ⟨front, body, back, framed, result⟩ := subpartOf_spec plain mem inCode less
    have inside : next ≤ bytes.len := by
      have high : bytes.start + next < bytes.start + bytes.len := (mem_marks.mp inCode).1.2
      omega
    refine ⟨place, next, front, body, back, places, ?_, ?_⟩
    · rw [dstrSub2_text inside, ← Nat.add_assoc, ← Nat.add_assoc]
      exact framed
    · rw [result]
      exact ⟨by dsimp only; omega, rfl, Nat.add_sub_cancel_left _ _⟩
  · intro index positive
    rw [found index positive, Option.map_eq_none_iff, Option.map_eq_none_iff]
  · have short : (marks (eolAt bytes.buf) (matchesBoundary bytes.buf boundary) bytes.fin true
        (bytes.start + 0)).length < bytes.len + 1 := by
      refine Nat.lt_succ_of_le ((length_marks_le _ _).trans ?_)
      unfold fin
      omega
    exact nextParts_spec plain short
  · intro index positive part isPart
    obtain ⟨first, second, -, -, low, front, back, high⟩ := inside_of_found plain positive isPart
    exact ⟨low.trans front, (back.trans high.le)⟩
  · intro index positive other more part later isPart isLater
    obtain ⟨-, second, -, secondPlace, -, -, back, -⟩ := inside_of_found plain positive isPart
    obtain ⟨first, _, firstPlace, -, -, front, -, -⟩ :=
      inside_of_found plain (positive.trans more) isLater
    have sorted : (bytes.codeMarks boundary).Pairwise (· < ·) := pairwise_marks _ _
    obtain ⟨here, secondIs⟩ := List.getElem?_eq_some_iff.mp secondPlace
    obtain ⟨there, firstIs⟩ := List.getElem?_eq_some_iff.mp firstPlace
    have ordered : second ≤ first := by
      rcases Nat.eq_or_lt_of_le (Nat.le_sub_one_of_lt more) with rfl | later
      · rw [← secondIs, ← firstIs]
      · have less := pairwise_iff_getElem.mp sorted index (other - 1) here there later
        rw [secondIs, firstIs] at less
        exact less.le
    exact back.trans (ordered.trans front)

omit plain in
/-- Two parts, in a range with something before it and after it. -/
theorem splitRight_iff_two :
    SplitRight ⟨ascii "..--b\r\nhi\r\n--b\n\n--b--..", 2, 21, by decide⟩ (ascii "b") ↔
      ¬ CutShort ⟨ascii "..--b\r\nhi\r\n--b\n\n--b--..", 2, 21, by decide⟩ (ascii "b") :=
  splitRight_iff (by decide +kernel)

omit plain in
/-- A range that ends between the dashes and the text of a boundary. -/
theorem splitRight_fails :
    ¬ SplitRight ⟨ascii "--b\nhi\n--b", 0, 9, by decide⟩ (ascii "b") := by
  refine not_splitRight_of_cutShort (by decide +kernel) ⟨⟨7, by decide, ?_, ?_, by decide⟩, ?_, ?_⟩
  · decide +kernel
  · decide +kernel
  · decide +kernel
  · decide +kernel

end Parts

end Splintermail
