/-
This file proves what `wrap()` does to a text without control characters.

The pieces that its passes append lay the words out in lines: a line holds the words that
fit, or one that does not, and the next word went to the next line because it did not fit
either. The lines of the result are read as the same words again, and fill in the same way.
-/

import Splintermail.Qwwq.WrapTokens

namespace Splintermail

open List

/-! ### Lines -/

/-- The spaces behind a word. -/
def wordGap (word : Bytes) : Bytes := if endsSentence word then [32, 32] else [32]

/-- Words behind another one in the same line. -/
def moreWords (previous : Bytes) : List Bytes → Bytes
  | [] => []
  | word :: words => wordGap previous ++ word ++ moreWords word words

/-- Words in a line. -/
def joinLine : List Bytes → Bytes
  | [] => []
  | word :: words => word ++ moreWords word words

/-- The lines of a paragraph, the first behind a lead and the others behind `hang`. -/
def joinLines (hang : Bytes) : Bytes → List (List Bytes) → Bytes
  | _, [] => []
  | lead, [words] => lead ++ joinLine words
  | lead, words :: next :: lines => lead ++ joinLine words ++ [10] ++ joinLines hang hang (next :: lines)

/-- A paragraph with its lines, or newlines that are kept. -/
inductive WrapBlock where
  | paragraph (lines : List (List Bytes))
  | newlines (count : Nat)

def WrapBlock.text (indent hang : Bytes) : WrapBlock → Bytes
  | .paragraph lines => joinLines hang indent lines
  | .newlines count => replicate count 10

def WrapBlock.items : WrapBlock → List WrapItem
  | .paragraph lines => lines.flatten.map .word
  | .newlines count => [.newlines count]

/-- A line behind its lead is no longer than the width, or holds a single word. -/
def LineFits (width : Nat) (lead : Bytes) (words : List Bytes) : Prop :=
  (lead ++ joinLine words).length ≤ width ∨ words.length = 1

/-- The first word of the next line does not fit behind the last word of this one. -/
def WordMoved (width : Nat) (lead : Bytes) (words next : List Bytes) : Prop :=
  ∃ last first, words.getLast? = some last ∧ next.head? = some first ∧
    width < (lead ++ joinLine words ++ wordGap last ++ first).length

/-- The lines of a paragraph hold what fits. -/
inductive LinesFilled (width : Nat) (hang : Bytes) : Bytes → List (List Bytes) → Prop where
  | last {lead : Bytes} {words : List Bytes} : words ≠ [] → LineFits width lead words →
    LinesFilled width hang lead [words]
  | more {lead : Bytes} {words next : List Bytes} {lines : List (List Bytes)} : words ≠ [] →
    LineFits width lead words → WordMoved width lead words next →
    LinesFilled width hang hang (next :: lines) →
    LinesFilled width hang lead (words :: next :: lines)

/-- The paragraphs are filled, and only newlines end one. -/
inductive BlocksFilled (width : Nat) (indent hang : Bytes) : List WrapBlock → Prop where
  | nil : BlocksFilled width indent hang []
  | newlines {count : Nat} {blocks : List WrapBlock} : BlocksFilled width indent hang blocks →
    BlocksFilled width indent hang (.newlines count :: blocks)
  | final {lines : List (List Bytes)} : LinesFilled width hang indent lines →
    BlocksFilled width indent hang [.paragraph lines]
  | paragraph {lines : List (List Bytes)} {count : Nat} {blocks : List WrapBlock} :
    LinesFilled width hang indent lines → BlocksFilled width indent hang blocks →
    BlocksFilled width indent hang (.paragraph lines :: .newlines count :: blocks)

/-- What is laid out from a place on: words of the line that was begun, further lines of its
paragraph, and what follows. -/
structure WrapLayout where
  words : List Bytes
  lines : List (List Bytes)
  blocks : List WrapBlock

/-- How items are laid out, at the start of a line or behind a word in a line of some length. -/
def layoutFrom (width : Nat) (indent hang : Bytes) :
    Option (Nat × Bytes) → List WrapItem → WrapLayout
  | _, [] => ⟨[], [], []⟩
  | _, .newlines count :: items =>
    ⟨[], [], .newlines count :: (layoutFrom width indent hang none items).blocks⟩
  | none, .word word :: items =>
    let more := layoutFrom width indent hang (some (indent.length + word.length, word)) items
    ⟨[], [], .paragraph ((word :: more.words) :: more.lines) :: more.blocks⟩
  | some (line, previous), .word word :: items =>
    if line + 1 + (endsSentence previous).toNat + word.length ≤ width then
      let more := layoutFrom width indent hang
        (some (line + (1 + (endsSentence previous).toNat + word.length), word)) items
      ⟨word :: more.words, more.lines, more.blocks⟩
    else
      let more := layoutFrom width indent hang (some (hang.length + word.length, word)) items
      ⟨[], (word :: more.words) :: more.lines, more.blocks⟩

/-! ### The pieces make the layout -/

theorem length_wordGap (word : Bytes) : (wordGap word).length = 1 + (endsSentence word).toNat := by
  unfold wordGap
  cases endsSentence word <;> rfl

theorem moreWords_concat {previous last : Bytes} {words : List Bytes} (word : Bytes)
    (ends : (previous :: words).getLast? = some last) :
    moreWords previous (words ++ [word]) = moreWords previous words ++ wordGap last ++ word := by
  induction words generalizing previous with
  | nil =>
    obtain rfl : previous = last := Option.some.inj ends
    rw [nil_append, moreWords, moreWords, moreWords, append_nil, nil_append]
  | cons next words ih =>
    rw [getLast?_cons_cons] at ends
    rw [cons_append, moreWords, moreWords, ih ends]
    simp only [append_assoc]

theorem joinLine_concat {words : List Bytes} {last : Bytes} (word : Bytes)
    (ends : words.getLast? = some last) :
    joinLine (words ++ [word]) = joinLine words ++ wordGap last ++ word := by
  obtain _ | ⟨first, words⟩ := words
  · exact absurd ends nofun
  · rw [cons_append, joinLine, joinLine, moreWords_concat word ends]
    simp only [append_assoc]

theorem joinLine_singleton (word : Bytes) : joinLine [word] = word := append_nil word

/-- What may follow a paragraph. -/
def EndsParagraph (blocks : List WrapBlock) : Prop :=
  blocks = [] ∨ ∃ count rest, blocks = .newlines count :: rest

theorem BlocksFilled.cons {width : Nat} {indent hang : Bytes} {lines : List (List Bytes)}
    {blocks : List WrapBlock} (filled : BlocksFilled width indent hang blocks)
    (ends : EndsParagraph blocks) (paragraph : LinesFilled width hang indent lines) :
    BlocksFilled width indent hang (.paragraph lines :: blocks) := by
  obtain rfl | ⟨count, rest, rfl⟩ := ends
  · exact .final paragraph
  · cases filled with
    | newlines rest => exact .paragraph paragraph rest

/-- The layout behind the words of a line that was begun. -/
structure LaidBehind (width : Nat) (indent hang lead : Bytes) (words : List Bytes)
    (items : List WrapItem) (pieces : Bytes) (layout : WrapLayout) : Prop where
  lines : LinesFilled width hang lead ((words ++ layout.words) :: layout.lines)
  filled : BlocksFilled width indent hang layout.blocks
  ends : EndsParagraph layout.blocks
  text : lead ++ joinLine words ++ pieces =
    joinLines hang lead ((words ++ layout.words) :: layout.lines) ++
      layout.blocks.flatMap (WrapBlock.text indent hang)
  kept : (layout.words ++ layout.lines.flatten).map WrapItem.word ++
    layout.blocks.flatMap WrapBlock.items = items

/-- The layout at the start of a line. -/
structure LaidOut (width : Nat) (indent hang : Bytes) (items : List WrapItem) (pieces : Bytes)
    (blocks : List WrapBlock) : Prop where
  filled : BlocksFilled width indent hang blocks
  text : pieces = blocks.flatMap (WrapBlock.text indent hang)
  kept : blocks.flatMap WrapBlock.items = items

section
variable {width : Nat} {indent hang : Bytes}

theorem layoutFrom_spec (items : List WrapItem) (words : ∀ word, .word word ∈ items → word ≠ []) :
    (∀ sentence, LaidOut width indent hang items
      (fillPieces width indent hang items 0 true sentence).flatten
      (layoutFrom width indent hang none items).blocks) ∧
    ∀ {lead : Bytes} {line : Nat} {words : List Bytes} {previous : Bytes} (paragraph : Bool),
      words.getLast? = some previous → 0 < line → (lead ++ joinLine words).length = line →
      LineFits width lead words →
      LaidBehind width indent hang lead words items
        (fillPieces width indent hang items line paragraph (endsSentence previous)).flatten
        (layoutFrom width indent hang (some (line, previous)) items) := by
  induction items with
  | nil =>
    refine ⟨fun sentence => ⟨.nil, rfl, rfl⟩, ?_⟩
    intro lead line words previous paragraph ends _ _ fits
    have present : words ≠ [] := fun none => by rw [none] at ends; exact absurd ends nofun
    refine ⟨?_, .nil, .inl rfl, ?_, rfl⟩
    · rw [layoutFrom, append_nil]
      exact .last present fits
    · rw [layoutFrom, append_nil]
      rfl
  | cons item items ih =>
    obtain ⟨fromStart, behind⟩ := ih fun word mem =>
      words word (.tail item mem)
    obtain word | count := item
    · have present := words word mem_cons_self
      have length := length_pos_iff.mpr present
      have single : [word].getLast? = some word := rfl
      -- a word at the start of a line stands alone there at first
      have alone : ∀ lead : Bytes, (lead ++ joinLine [word]).length = lead.length + word.length ∧
          LineFits width lead [word] := fun lead =>
        ⟨by rw [joinLine_singleton, length_append], .inr rfl⟩
      refine ⟨fun sentence => ?_, ?_⟩
      · obtain ⟨lines, filled, ends, text, kept⟩ := behind false single
          (Nat.add_pos_right indent.length length) (alone indent).1 (alone indent).2
        have pieces : fillPieces width indent hang (.word word :: items) 0 true sentence =
            indent :: word :: fillPieces width indent hang items (indent.length + word.length) false
              (endsSentence word) := rfl
        rw [pieces, layoutFrom]
        refine ⟨filled.cons ends lines, ?_, ?_⟩
        · rw [joinLine_singleton] at text
          refine Eq.trans ?_ text
          simp only [flatten_cons, append_assoc]
        · exact congrArg (WrapItem.word word :: ·) kept
      · intro lead line before previous paragraph ends positive size fits
        have gap := joinLine_concat word ends
        have longer : (lead ++ joinLine (before ++ [word])).length =
            line + (1 + (endsSentence previous).toNat + word.length) := by
          rw [gap, ← size]
          simp only [length_append, length_wordGap]
          omega
        rw [fillPieces, if_neg (Nat.ne_of_gt positive), layoutFrom]
        by_cases room : line + 1 + (endsSentence previous).toNat + word.length ≤ width
        · rw [if_pos room, if_pos room]
          obtain ⟨lines, filled, ends, text, kept⟩ := behind paragraph
            getLast?_concat (Nat.add_pos_left positive _) longer (.inl (longer.trans_le (by omega)))
          rw [gap] at text
          rw [append_assoc before] at lines text
          refine ⟨lines, filled, ends, ?_, ?_⟩
          · refine Eq.trans ?_ text
            simp only [flatten_cons, append_assoc, wordGap]
          · exact congrArg (WrapItem.word word :: ·) kept
        · rw [if_neg room, if_neg room]
          obtain ⟨lines, filled, ends', text, kept⟩ := behind paragraph single
            (Nat.add_pos_right hang.length length) (alone hang).1 (alone hang).2
          have moved : WordMoved width lead before (word :: (layoutFrom width indent hang
              (some (hang.length + word.length, word)) items).words) := by
            refine ⟨previous, word, ends, rfl, ?_⟩
            rw [length_append, length_append, size, length_wordGap]
            omega
          have present' : before ≠ [] := fun none => by
            rw [none] at ends
            exact absurd ends nofun
          refine ⟨?_, filled, ends', ?_, ?_⟩
          · rw [append_nil]
            exact .more present' fits moved lines
          · rw [joinLine_singleton] at text
            rw [append_nil, joinLines, append_assoc _ (joinLines _ _ _)]
            refine Eq.trans ?_ (congrArg (lead ++ joinLine before ++ [10] ++ ·) text)
            simp only [flatten_cons, append_assoc]
          · exact congrArg (WrapItem.word word :: ·) kept
    · refine ⟨fun sentence => ?_, ?_⟩
      · obtain ⟨filled, text, kept⟩ := fromStart sentence
        exact ⟨.newlines filled, congrArg (replicate count 10 ++ ·) text,
          congrArg (WrapItem.newlines count :: ·) kept⟩
      · intro lead line before previous paragraph ends _ _ fits
        obtain ⟨filled, text, kept⟩ := fromStart (endsSentence previous)
        have present' : before ≠ [] := fun none => by
          rw [none] at ends
          exact absurd ends nofun
        refine ⟨?_, .newlines filled, .inr ⟨count, _, rfl⟩, ?_,
          congrArg (WrapItem.newlines count :: ·) kept⟩
        · rw [layoutFrom, append_nil]
          exact .last present' fits
        · rw [fillPieces, layoutFrom, append_nil, flatten_cons, flatMap_cons, text]
          rfl

end

/-! ### The two passes -/

theorem foldl_appendCount (pieces : List Bytes) (count : Nat) :
    pieces.foldl dstrAppendCount count = count + pieces.flatten.length := by
  induction pieces generalizing count with
  | nil => rfl
  | cons piece pieces ih =>
    rw [foldl_cons, ih, flatten_cons, length_append, dstrAppendCount, Nat.add_assoc]

theorem foldl_appendFixed {size : Nat} {pieces : List Bytes} {out : Bytes}
    (room : (out ++ pieces.flatten).length ≤ size) :
    pieces.foldl (dstrAppendFixed size) out = out ++ pieces.flatten := by
  induction pieces generalizing out with
  | nil => exact (append_nil out).symm
  | cons piece pieces ih =>
    rw [flatten_cons, ← append_assoc] at room
    have fits : ¬ size < out.length + piece.length := by
      rw [length_append, length_append] at room
      omega
    rw [foldl_cons, dstrAppendFixed, if_neg fits, ih room, flatten_cons, append_assoc]

section
variable {width : Nat} {indent hang : Bytes} {items : List WrapItem}

/-- The passes agree, and the second one has room for all that it appends. -/
theorem qwInstrWrap_reads (beyond : UInt8) (narrow : indent.length < width)
    (narrow' : hang.length < width) {text : Bytes} (reads : WrapReads text items) :
    qwInstrWrap beyond width indent hang text =
      (.ok (fillPieces width indent hang items 0 true false).flatten, endsInWord text) := by
  rw [qwInstrWrap, if_neg (Nat.not_le.mpr narrow), if_neg (Nat.not_le.mpr narrow'),
    wrapLoop_reads reads]
  dsimp only
  rw [wrapLoop_reads reads, foldl_appendCount, Nat.zero_add]
  have built : (fillPieces width indent hang items 0 true false).foldl
      (dstrAppendFixed (fillPieces width indent hang items 0 true false).flatten.length) [] =
      (fillPieces width indent hang items 0 true false).flatten := foldl_appendFixed le_rfl
  rw [built, Bool.or_self]

/-! ### Wrapping again -/

/-- Words and newlines that `next_token` can give. -/
inductive WrapValid : List WrapItem → Prop where
  | nil : WrapValid []
  | word {word : Bytes} {items : List WrapItem} : word ≠ [] → (∀ u ∈ word, 32 < u) →
    WrapValid items → WrapValid (.word word :: items)
  | newlines {count : Nat} {items : List WrapItem} : 2 ≤ count → WrapValid items →
    WrapValid (.newlines count :: items)
  | final : WrapValid [.newlines 1]

theorem WrapReads.valid {text : Bytes} (reads : WrapReads text items) : WrapValid items := by
  induction reads with
  | nil => exact .nil
  | space _ ih => exact ih
  | single _ _ _ ih => exact ih
  | final => exact .final
  | run several _ _ ih => exact .newlines several ih
  | word present bytes _ _ ih => exact .word present bytes ih

theorem WrapValid.word_ne_nil (valid : WrapValid items) :
    ∀ word, .word word ∈ items → word ≠ [] := by
  induction valid with
  | nil => exact nofun
  | word present _ _ ih =>
    rintro word (_ | ⟨_, mem⟩)
    · exact present
    · exact ih word mem
  | newlines _ _ ih =>
    rintro word (_ | ⟨_, mem⟩)
    exact ih word mem
  | final =>
    rintro word (_ | ⟨_, mem⟩)
    exact absurd mem nofun

/-- Newlines in front of items, if there are any. -/
def keepNewlines (count : Nat) (items : List WrapItem) : List WrapItem :=
  if count = 0 then items else .newlines count :: items

/-- The items behind some newlines, with the newlines that follow each other counted together. -/
def mergeFrom : Nat → List WrapItem → List WrapItem
  | count, [] => keepNewlines count []
  | count, .newlines more :: items => mergeFrom (count + more) items
  | count, .word word :: items => keepNewlines count (.word word :: mergeFrom 0 items)

/-- Behind a word comes a space or a newline. -/
theorem fillPieces_head {line : Nat} (positive : 0 < line) (valid : WrapValid items)
    (paragraph sentence : Bool) (u : UInt8)
    (head : (fillPieces width indent hang items line paragraph sentence).flatten.head? = some u) :
    u ≤ 32 := by
  cases valid with
  | nil => exact absurd head nofun
  | @word word items _ _ _ =>
    rw [fillPieces, if_neg (Nat.ne_of_gt positive)] at head
    split_ifs at head <;> obtain rfl := Option.some.inj head <;> decide
  | @newlines count items several _ =>
    obtain ⟨count, rfl⟩ := Nat.exists_eq_add_of_le' several
    cases head
    decide
  | final =>
    cases head
    decide

/-- A word and what is behind it. -/
theorem wrapReads_word {word : Bytes} {rest : List WrapItem} {line : Nat}
    {paragraph sentence : Bool} (present : word ≠ []) (bytes : ∀ u ∈ word, 32 < u)
    (valid : WrapValid items) (positive : 0 < line)
    (reads : WrapReads (fillPieces width indent hang items line paragraph sentence).flatten rest) :
    WrapReads (word ++ (fillPieces width indent hang items line paragraph sentence).flatten)
      (.word word :: rest) :=
  .word present bytes (fillPieces_head positive valid paragraph sentence) reads

theorem wrapReads_newlines (count : Nat) :
    WrapReads (replicate count 10) (keepNewlines count []) := by
  obtain rfl | rfl | several : count = 0 ∨ count = 1 ∨ 2 ≤ count := by omega
  · exact .nil
  · exact .final
  · have reads := WrapReads.run several (nofun : ([] : Bytes).head? ≠ some 10) .nil
    rw [append_nil] at reads
    rw [keepNewlines, if_neg (by omega)]
    exact reads

/-- The result is read as the same words, with newlines counted together. -/
theorem wrapReads_fill (valid : WrapValid items) :
    (∀ count sentence, (count ≠ 1 ∨ items = []) →
      WrapReads (replicate count 10 ++ (fillPieces width [] [] items 0 true sentence).flatten)
        (mergeFrom count items)) ∧
    ∀ line paragraph sentence, 0 < line →
      WrapReads (fillPieces width [] [] items line paragraph sentence).flatten (mergeFrom 0 items) := by
  induction valid with
  | nil =>
    refine ⟨fun count sentence _ => ?_, fun _ _ _ _ => .nil⟩
    rw [fillPieces, flatten_nil, append_nil]
    exact wrapReads_newlines count
  | @word word items present bytes valid ih =>
    have length := length_pos_iff.mpr present
    have other : ∀ rest : Bytes, (word ++ rest).head? ≠ some 10 := by
      intro rest same
      obtain ⟨first, behind, rfl⟩ := exists_cons_of_ne_nil present
      have high := bytes first mem_cons_self
      rw [Option.some.inj same] at high
      exact absurd high (by decide)
    refine ⟨fun count sentence ok => ?_, fun line paragraph sentence positive => ?_⟩
    · have reads := wrapReads_word present bytes valid (Nat.add_pos_right 0 length)
        (ih.2 (0 + word.length) false (endsSentence word) (Nat.add_pos_right 0 length))
      have pieces : (fillPieces width [] [] (.word word :: items) 0 true sentence).flatten =
          word ++ (fillPieces width [] [] items (0 + word.length) false
            (endsSentence word)).flatten := rfl
      rw [pieces, mergeFrom, keepNewlines]
      split_ifs with none
      · rw [none]
        exact reads
      · have several : 2 ≤ count := by
          have := ok.resolve_right (cons_ne_nil _ _)
          omega
        exact .run several (other _) reads
    · rw [fillPieces, if_neg (Nat.ne_of_gt positive), mergeFrom, keepNewlines, if_pos rfl]
      by_cases room : line + 1 + sentence.toNat + word.length ≤ width
      · rw [if_pos room]
        have reads := wrapReads_word present bytes valid (Nat.add_pos_left positive _)
          (ih.2 (line + (1 + sentence.toNat + word.length)) paragraph
            (endsSentence word) (Nat.add_pos_left positive _))
        cases sentence with
        | false => exact .space reads
        | true => exact .space (.space reads)
      · rw [if_neg room]
        have reads := wrapReads_word present bytes valid (Nat.add_pos_right 0 length)
          (ih.2 (0 + word.length) paragraph (endsSentence word) (Nat.add_pos_right 0 length))
        exact .single (append_ne_nil_of_left_ne_nil present _) (other _) reads
  | @newlines more items several valid ih =>
    refine ⟨fun count sentence _ => ?_, fun line paragraph sentence positive => ?_⟩
    · rw [mergeFrom, fillPieces, flatten_cons, ← append_assoc, replicate_append_replicate]
      exact ih.1 (count + more) sentence (.inl (by omega))
    · rw [mergeFrom, fillPieces, flatten_cons, Nat.zero_add]
      exact ih.1 more sentence (.inl (by omega))
  | final =>
    refine ⟨fun count sentence _ => ?_, fun _ _ _ _ => .final⟩
    rw [fillPieces, fillPieces, flatten_cons, flatten_nil, append_nil, replicate_append_replicate]
    exact wrapReads_newlines (count + 1)

theorem fill_keepNewlines (count : Nat) (items : List WrapItem) (sentence : Bool) :
    (fillPieces width indent hang (keepNewlines count items) 0 true sentence).flatten =
      replicate count 10 ++ (fillPieces width indent hang items 0 true sentence).flatten := by
  unfold keepNewlines
  split_ifs with none
  · rw [none]
    rfl
  · rfl

/-- Behind newlines a line is begun, wherever they are. -/
theorem fill_newlines {count : Nat} (positive : 0 < count) (items : List WrapItem) (line : Nat)
    (paragraph sentence : Bool) :
    (fillPieces width indent hang (keepNewlines count items) line paragraph sentence).flatten =
      replicate count 10 ++ (fillPieces width indent hang items 0 true sentence).flatten := by
  rw [keepNewlines, if_neg (Nat.ne_of_gt positive)]
  rfl

/-- Newlines that are counted together fill lines in the same way, at the start of a line, behind
other newlines and behind a word. -/
theorem fillPieces_merge (valid : WrapValid items) :
    (∀ count sentence, (fillPieces width indent hang (mergeFrom count items) 0 true sentence).flatten =
      replicate count 10 ++ (fillPieces width indent hang items 0 true sentence).flatten) ∧
    (∀ count line paragraph sentence, 0 < count →
      (fillPieces width indent hang (mergeFrom count items) line paragraph sentence).flatten =
        replicate count 10 ++ (fillPieces width indent hang items 0 true sentence).flatten) ∧
    ∀ line paragraph sentence, 0 < line →
      (fillPieces width indent hang (mergeFrom 0 items) line paragraph sentence).flatten =
        (fillPieces width indent hang items line paragraph sentence).flatten := by
  induction valid with
  | nil =>
    exact ⟨fun count => fill_keepNewlines count [],
      fun count line paragraph sentence positive => fill_newlines positive [] line paragraph sentence,
      fun _ _ _ _ => rfl⟩
  | @word word items present _ _ ih =>
    have length := length_pos_iff.mpr present
    obtain ⟨-, -, behind⟩ := ih
    have start : ∀ sentence,
        (fillPieces width indent hang (.word word :: mergeFrom 0 items) 0 true sentence).flatten =
          (fillPieces width indent hang (.word word :: items) 0 true sentence).flatten := fun _ =>
      congrArg (indent ++ ·) (congrArg (word ++ ·)
        (behind _ false (endsSentence word) (Nat.add_pos_right _ length)))
    refine ⟨fun count sentence => ?_, fun count line paragraph sentence positive => ?_,
      fun line paragraph sentence positive => ?_⟩
    · rw [mergeFrom, fill_keepNewlines, start]
    · rw [mergeFrom, fill_newlines positive, start]
    · rw [mergeFrom, keepNewlines, if_pos rfl, fillPieces, fillPieces,
        if_neg (Nat.ne_of_gt positive), if_neg (Nat.ne_of_gt positive)]
      by_cases room : line + 1 + sentence.toNat + word.length ≤ width
      · rw [if_pos room, if_pos room]
        simp only [flatten_cons, behind _ _ _ (Nat.add_pos_left positive _)]
      · rw [if_neg room, if_neg room]
        simp only [flatten_cons, behind _ _ _ (Nat.add_pos_right _ length)]
  | @newlines more items several _ ih =>
    obtain ⟨start, after, -⟩ := ih
    refine ⟨fun count sentence => ?_, fun count line paragraph sentence positive => ?_,
      fun line paragraph sentence positive => ?_⟩
    · rw [mergeFrom, start, fillPieces, flatten_cons, ← append_assoc, replicate_append_replicate]
    · rw [mergeFrom, after _ _ _ _ (Nat.add_pos_left positive more), fillPieces, flatten_cons,
        ← append_assoc, replicate_append_replicate]
    · rw [mergeFrom, Nat.zero_add, after _ _ _ _ (by omega), fillPieces, flatten_cons]
  | final =>
    refine ⟨fun count sentence => ?_, fun count line paragraph sentence _ => ?_,
      fun line paragraph sentence _ => ?_⟩
    · rw [mergeFrom, mergeFrom, fill_keepNewlines, ← replicate_append_replicate, append_assoc]
      rfl
    · rw [mergeFrom, mergeFrom, fill_newlines count.succ_pos, Nat.succ_eq_add_one,
        ← replicate_append_replicate, append_assoc]
      rfl
    · rfl

end

/-! ### What wrapping is to do -/

/-- What `wrap()` is to do: the passes agree, the result lays out the words and kept newlines of the
text, in order, in lines that are filled, nothing outside of the text is read, and wrapping again
without indentation changes nothing. -/
def WrapsRight (width : Nat) (indent hang text : Bytes) : Prop :=
  ∀ beyond, ∃ out items blocks, qwInstrWrap beyond width indent hang text = (.ok out, false) ∧
    (wrapLoop dstrAppendCount beyond width indent hang text 0 true false 0).1 = .ok out.length ∧
    WrapReads text items ∧ blocks.flatMap WrapBlock.items = items ∧
    out = blocks.flatMap (WrapBlock.text indent hang) ∧ BlocksFilled width indent hang blocks ∧
    (indent = [] → hang = [] → ∀ beyond', (qwInstrWrap beyond' width [] [] out).1 = .ok out)

/-- `wrap()` does all of this, except that it reads the byte behind a text that ends in a word. -/
theorem qwInstrWrap_right (beyond : UInt8) {width : Nat} {indent hang text : Bytes}
    (plain : PlainText text) (narrow : indent.length < width) (narrow' : hang.length < width) :
    ∃ out items blocks, qwInstrWrap beyond width indent hang text = (.ok out, endsInWord text) ∧
      (wrapLoop dstrAppendCount beyond width indent hang text 0 true false 0).1 = .ok out.length ∧
      WrapReads text items ∧ blocks.flatMap WrapBlock.items = items ∧
      out = blocks.flatMap (WrapBlock.text indent hang) ∧ BlocksFilled width indent hang blocks ∧
      (indent = [] → hang = [] → ∀ beyond', (qwInstrWrap beyond' width [] [] out).1 = .ok out) := by
  obtain ⟨items, reads⟩ := exists_wrapReads plain
  have valid := reads.valid
  obtain ⟨filled, laid, kept⟩ :=
    (@layoutFrom_spec width indent hang items valid.word_ne_nil).1 false
  refine ⟨_, items, _, qwInstrWrap_reads beyond narrow narrow' reads, ?_, reads, kept, laid, filled, ?_⟩
  · rw [wrapLoop_reads reads, foldl_appendCount, Nat.zero_add]
  · rintro rfl rfl beyond'
    have again : WrapReads (fillPieces width [] [] items 0 true false).flatten (mergeFrom 0 items) :=
      (wrapReads_fill valid).1 0 false (.inl nofun)
    rw [qwInstrWrap_reads beyond' narrow narrow' again, (fillPieces_merge valid).1]
    rfl

/-- `wrap()` does what it is to do if and only if the text is empty or ends in a space or a newline:
behind a word at the end it reads one byte of what is not the text. -/
theorem wraps_right_iff {width : Nat} {indent hang text : Bytes} (plain : PlainText text)
    (narrow : indent.length < width) (narrow' : hang.length < width) :
    WrapsRight width indent hang text ↔ ∀ u, text.getLast? = some u → u = 32 ∨ u = 10 := by
  have last : endsInWord text = false ↔ ∀ u, text.getLast? = some u → u = 32 ∨ u = 10 := by
    unfold endsInWord
    cases final : text.getLast? with
    | none => exact ⟨fun _ => nofun, fun _ => rfl⟩
    | some u =>
      have kinds := plain u (mem_of_getLast? final)
      constructor
      · rintro low _ ⟨⟩
        have below : u ≤ 32 := UInt8.not_lt.mp (of_decide_eq_false low)
        by_cases same : u = 32
        · exact .inl same
        · exact .inr (kinds (UInt8.lt_of_le_of_ne below same))
      · intro ends
        obtain rfl | rfl := ends u rfl <;> rfl
  rw [← last]
  constructor
  · intro right
    obtain ⟨out, items, blocks, wrapped, -⟩ := right 0
    obtain ⟨_, _, _, wrapped', -⟩ := qwInstrWrap_right 0 plain narrow narrow'
    exact congrArg Prod.snd (wrapped'.symm.trans wrapped)
  · intro low beyond
    have right := qwInstrWrap_right beyond plain narrow narrow'
    rwa [low] at right

theorem wraps_right_line :
    WrapsRight 10 [35, 32] [35, 32] [97, 32, 98, 10] ↔
      ∀ u, ([97, 32, 98, 10] : Bytes).getLast? = some u → u = 32 ∨ u = 10 :=
  wraps_right_iff (show ∀ u ∈ ([97, 32, 98, 10] : Bytes), u < 32 → u = 10 by decide +kernel)
    (by decide) (by decide)

/-- One word alone: the loop over its bytes goes on behind it. -/
theorem wraps_right_word :
    qwInstrWrap 0 10 [] [] [97] = (.ok [97], true) ∧ ¬ WrapsRight 10 [] [] [97] := by
  have wrapped : qwInstrWrap 0 10 [] [] [97] = (.ok [97], true) := by decide +kernel
  refine ⟨wrapped, fun right => ?_⟩
  obtain ⟨out, items, blocks, clean, -⟩ := right 0
  exact absurd (congrArg Prod.snd (wrapped.symm.trans clean)) nofun

end Splintermail
