/-
This file proves which words `wrap()` reads in a text without control characters, and which
pieces its passes append for them.

A text consists of words and of runs of newlines; single newlines and spaces only keep
words apart. The passes take the words and the runs one by one. Only the loop over the
bytes of a word reads too far, when the word ends the text.
-/

import Mathlib.Data.List.TakeWhile
import Splintermail.Qwwq.Wrap

namespace Splintermail

open List

/-! ### What a text consists of -/

/-- A word, or newlines that are kept. -/
inductive WrapItem where
  | word (text : Bytes)
  | newlines (count : Nat)
  deriving DecidableEq, Repr

/-- The words and the kept newlines of a text, in order. -/
inductive WrapReads : Bytes → List WrapItem → Prop where
  | nil : WrapReads [] []
  | space {rest : Bytes} {items : List WrapItem} : WrapReads rest items →
    WrapReads (32 :: rest) items
  | single {rest : Bytes} {items : List WrapItem} : rest ≠ [] → rest.head? ≠ some 10 →
    WrapReads rest items → WrapReads (10 :: rest) items
  | final : WrapReads [10] [.newlines 1]
  | run {count : Nat} {rest : Bytes} {items : List WrapItem} : 2 ≤ count → rest.head? ≠ some 10 →
    WrapReads rest items → WrapReads (replicate count 10 ++ rest) (.newlines count :: items)
  | word {word rest : Bytes} {items : List WrapItem} : word ≠ [] → (∀ u ∈ word, 32 < u) →
    (∀ u, rest.head? = some u → u ≤ 32) → WrapReads rest items →
    WrapReads (word ++ rest) (.word word :: items)

/-- The last byte belongs to a word. -/
def endsInWord (text : Bytes) : Bool :=
  match text.getLast? with
  | some u => 32 < u
  | none => false

/-- The bytes of a text that `wrap()` takes. -/
def PlainText (text : Bytes) : Prop := ∀ u ∈ text, u < 32 → u = 10

/-! ### Tokens -/

variable {rest : Bytes} {u : UInt8}

theorem takeWhile_of_head (other : rest.head? ≠ some u) : rest.takeWhile (· = u) = [] := by
  obtain _ | ⟨first, rest⟩ := rest
  · rfl
  · exact takeWhile_cons_of_neg fun same => other (congrArg some (of_decide_eq_true same))

theorem nextToken_space (beyond : UInt8) (rest : Bytes) :
    nextToken beyond (32 :: rest) = nextToken beyond rest := by
  have dropped : ∀ rest : Bytes, nextToken beyond (32 :: rest) =
      nextToken beyond (rest.drop (rest.takeWhile (· = 32)).length) := by
    intro rest
    rw [nextToken, if_neg (by decide), if_neg (by decide), if_pos rfl]
  rw [dropped]
  by_cases more : rest.head? = some 32
  · obtain ⟨behind, rfl⟩ := head?_eq_some_iff.mp more
    rw [takeWhile_cons_of_pos rfl, length_cons, drop_succ_cons, dropped]
  · rw [takeWhile_of_head more]
    rfl

theorem nextToken_newline (beyond : UInt8) (rest : Bytes) :
    nextToken beyond (10 :: rest) = if 0 < (rest.takeWhile (· = 10)).length ∨ rest = [] then
        (some ((10 :: rest).take (1 + (rest.takeWhile (· = 10)).length),
          rest.drop (rest.takeWhile (· = 10)).length), false)
      else nextToken beyond (rest.drop (rest.takeWhile (· = 10)).length) := by
  rw [nextToken, if_neg (by decide), if_pos rfl]
  dsimp only
  rw [Nat.add_sub_cancel_left, Nat.add_comm 1, drop_succ_cons]
  refine if_congr (or_congr (by omega) ?_) rfl rfl
  rw [length_cons, Nat.add_eq_right, length_eq_zero_iff]

variable {beyond : UInt8}

theorem nextToken_single (more : rest ≠ []) (other : rest.head? ≠ some 10) :
    nextToken beyond (10 :: rest) = nextToken beyond rest := by
  rw [nextToken_newline, takeWhile_of_head other]
  exact if_neg fun either => either.elim (Nat.lt_irrefl 0) more

theorem nextToken_run {count : Nat} (several : 2 ≤ count) (other : rest.head? ≠ some 10) :
    nextToken beyond (replicate count 10 ++ rest) = (some (replicate count 10, rest), false) := by
  obtain ⟨count, rfl⟩ := Nat.exists_eq_add_of_le' several
  have run : (replicate (count + 1) 10 ++ rest).takeWhile (· = 10) = replicate (count + 1) 10 := by
    rw [takeWhile_append_of_pos fun u mem => decide_eq_true (eq_of_mem_replicate mem),
      takeWhile_of_head other, append_nil]
  rw [replicate_succ, cons_append, nextToken_newline, run, length_replicate,
    if_pos (.inl (Nat.succ_pos _)), drop_left' length_replicate, Nat.add_comm 1,
    take_succ_cons, take_left' length_replicate]

theorem wordLoop_last (beyond : UInt8) (i : Nat) (first : UInt8) :
    i + 1 ≤ (wordLoop beyond i [first]).1 ∧ (wordLoop beyond i [first]).2 = true := by
  rw [wordLoop]
  by_cases ending : beyond ≤ 32
  · exact ⟨by rw [headD_nil, if_pos ending], by rw [headD_nil, if_pos ending]; rfl⟩
  · exact ⟨by rw [headD_nil, if_neg ending]; exact Nat.le_succ _,
      by rw [headD_nil, if_neg ending]; rfl⟩

theorem wordLoop_stop (beyond : UInt8) (i : Nat) (first : UInt8) (ending : u ≤ 32) (rest : Bytes) :
    wordLoop beyond i (first :: u :: rest) = (i + 1, false) := by
  rw [wordLoop, headD_cons, if_pos ending]
  rfl

theorem wordLoop_more (beyond : UInt8) (i : Nat) (first : UInt8) (high : 32 < u) (rest : Bytes) :
    wordLoop beyond i (first :: u :: rest) = wordLoop beyond (i + 1) (u :: rest) := by
  rw [wordLoop, headD_cons, if_neg (UInt8.not_le.mpr high)]
  rfl

/-- The loop stops behind the word, or one byte later if the text ends there. -/
theorem wordLoop_word (beyond : UInt8) (i : Nat) (first : UInt8) {word : Bytes}
    (bytes : ∀ u ∈ word, 32 < u) (ending : ∀ u, rest.head? = some u → u ≤ 32) :
    (rest ≠ [] → (wordLoop beyond i (first :: (word ++ rest))).1 = i + 1 + word.length) ∧
      i + 1 + word.length ≤ (wordLoop beyond i (first :: (word ++ rest))).1 ∧
      (wordLoop beyond i (first :: (word ++ rest))).2 = rest.isEmpty := by
  induction word generalizing i first with
  | nil =>
    obtain _ | ⟨u, rest⟩ := rest
    · exact ⟨fun some => absurd rfl some, wordLoop_last beyond i first⟩
    · rw [nil_append, wordLoop_stop beyond i first (ending u rfl)]
      exact ⟨fun _ => rfl, le_rfl, rfl⟩
  | cons u word ih =>
    obtain ⟨stops, behind, outside⟩ := ih (i + 1) u fun other mem =>
      bytes other (.tail u mem)
    rw [cons_append, wordLoop_more beyond i first (bytes u mem_cons_self), length_cons]
    exact ⟨fun some => (stops some).trans (by omega), le_trans (by omega) behind, outside⟩

theorem nextToken_word {word : Bytes} (present : word ≠ []) (bytes : ∀ u ∈ word, 32 < u)
    (ending : ∀ u, rest.head? = some u → u ≤ 32) :
    nextToken beyond (word ++ rest) = (some (word, rest), rest.isEmpty) := by
  obtain ⟨first, word, rfl⟩ := exists_cons_of_ne_nil present
  have high := bytes first mem_cons_self
  have control : ¬ (first < 32 ∧ first ≠ 10) := fun low => UInt8.lt_asymm high low.1
  have newline : ¬ first = 10 := by
    rintro rfl
    exact absurd high (by decide)
  have space : ¬ first = 32 := fun same => UInt8.lt_irrefl 32 (same ▸ high)
  obtain ⟨stops, behind, outside⟩ := wordLoop_word beyond 0 first
    (fun u mem => bytes u (.tail first mem)) ending
  rw [cons_append, nextToken, if_neg control, if_neg newline, if_neg space]
  dsimp only
  rw [outside]
  obtain rfl | more := eq_or_ne rest []
  · rw [append_nil] at *
    have whole : (first :: word).length ≤ (wordLoop beyond 0 (first :: word)).1 := by
      rw [length_cons]
      omega
    rw [take_of_length_le whole, drop_eq_nil_of_le whole]
  · rw [stops more, Nat.zero_add, Nat.add_comm, take_succ_cons, drop_succ_cons,
      take_left, drop_left]

/-- A plain text can be read. -/
theorem exists_wrapReads {text : Bytes} (plain : PlainText text) : ∃ items, WrapReads text items := by
  induction length : text.length using Nat.strongRecOn generalizing text with
  | ind size ih =>
    obtain _ | ⟨first, rest⟩ := text
    · exact ⟨[], .nil⟩
    · have later : ∀ {front back : Bytes}, front ≠ [] → first :: rest = front ++ back →
          ∃ items, WrapReads back items := by
        intro front back some split
        refine ih back.length ?_ (fun u mem => plain u ?_) rfl
        · rw [← length, split, length_append]
          exact Nat.lt_add_of_pos_left (length_pos_iff.mpr some)
        · rw [split]
          exact mem_append_right _ mem
      have cut : ∀ kind : UInt8 → Bool, first :: rest =
          (first :: rest).takeWhile kind ++ (first :: rest).dropWhile kind :=
        fun kind => (takeWhile_append_dropWhile).symm
      have some : ∀ {kind : UInt8 → Bool}, kind first = true → (first :: rest).takeWhile kind ≠ [] :=
        fun same => by rw [takeWhile_cons_of_pos same]; exact cons_ne_nil _ _
      have all : ∀ (kind : UInt8 → Bool), ∀ u ∈ (first :: rest).takeWhile kind, kind u = true :=
        fun kind u => mem_takeWhile_imp
      have stops : ∀ (kind : UInt8 → Bool) (u : UInt8),
          ((first :: rest).dropWhile kind).head? = .some u → kind u = false := by
        intro kind u head
        have stop := head?_dropWhile_not kind (first :: rest)
        rw [head] at stop
        exact stop
      have kinds : first < 32 ∨ first = 32 ∨ 32 < first := by
        rw [UInt8.lt_iff_toNat_lt, UInt8.lt_iff_toNat_lt, ← UInt8.toNat_inj]
        exact Nat.lt_trichotomy _ _
      obtain low | space | high := kinds
      · obtain rfl := plain first mem_cons_self low
        obtain ⟨items, reads⟩ := later (some (decide_eq_true rfl)) (cut (· = 10))
        have run : (10 :: rest).takeWhile (· = 10) =
            replicate ((10 :: rest).takeWhile (· = 10)).length 10 :=
          eq_replicate_of_mem fun u mem =>
            of_decide_eq_true (all (· = 10) u mem)
        have other : ((10 :: rest).dropWhile (· = 10)).head? ≠ .some 10 := fun head =>
          absurd (stops (· = 10) 10 head) (by decide)
        have split := cut (· = 10)
        have positive := length_pos_iff.mpr (@some (· = 10) rfl)
        rw [run] at split
        generalize ((10 :: rest).takeWhile (· = 10)).length = count at split positive
        generalize (10 :: rest).dropWhile (· = 10) = back at split other reads
        rw [split]
        by_cases several : 2 ≤ count
        · exact ⟨_, .run several other reads⟩
        · obtain rfl : count = 1 := by omega
          obtain rfl | more := eq_or_ne back []
          · exact ⟨_, .final⟩
          · exact ⟨_, .single more other reads⟩
      · obtain rfl := space
        obtain ⟨items, reads⟩ := later (cons_ne_nil 32 []) rfl
        exact ⟨items, .space reads⟩
      · obtain ⟨items, reads⟩ := later (some (decide_eq_true high)) (cut (32 < ·))
        rw [cut (32 < ·)]
        exact ⟨_, .word (some (decide_eq_true high))
          (fun u mem => of_decide_eq_true (all (32 < ·) u mem))
          (fun u head => UInt8.not_lt.mp (of_decide_eq_false (stops (32 < ·) u head))) reads⟩

/-! ### The pieces -/

/-- What is appended for the items of a text, in order. -/
def fillPieces (width : Nat) (indent hang : Bytes) : List WrapItem → Nat → Bool → Bool → List Bytes
  | [], _, _, _ => []
  | .newlines count :: items, _, _, sentence =>
    replicate count 10 :: fillPieces width indent hang items 0 true sentence
  | .word word :: items, line, paragraph, sentence =>
    if line = 0 then
      let lead := if paragraph then indent else hang
      lead :: word ::
        fillPieces width indent hang items (lead.length + word.length) false (endsSentence word)
    else if line + 1 + sentence.toNat + word.length ≤ width then
      (if sentence then [32, 32] else [32]) :: word ::
        fillPieces width indent hang items (line + (1 + sentence.toNat + word.length)) paragraph
          (endsSentence word)
    else
      [10] :: hang :: word ::
        fillPieces width indent hang items (hang.length + word.length) paragraph (endsSentence word)

section
variable {Out : Type} {append : Out → Bytes → Out} {beyond : UInt8} {width : Nat}
  {indent hang : Bytes}

theorem wrapLoop_congr {text other : Bytes} (same : nextToken beyond text = nextToken beyond other)
    (line : Nat) (paragraph sentence : Bool) (out : Out) :
    wrapLoop append beyond width indent hang text line paragraph sentence out =
      wrapLoop append beyond width indent hang other line paragraph sentence out := by
  rw [wrapLoop, same, ← wrapLoop]

theorem endsInWord_append {front back : Bytes} (more : back ≠ []) :
    endsInWord (front ++ back) = endsInWord back := by
  unfold endsInWord
  rw [getLast?_append_of_ne_nil front more]

theorem endsInWord_low {front : Bytes} {u : UInt8} (low : u ≤ 32) :
    endsInWord (front ++ [u]) = false := by
  unfold endsInWord
  rw [getLast?_concat]
  exact decide_eq_false (UInt8.not_lt.mpr low)

theorem wrapLoop_newlines {text rest : Bytes} {count : Nat} (present : 0 < count)
    (next : nextToken beyond text = (some (replicate count 10, rest), false))
    (line : Nat) (paragraph sentence : Bool) (out : Out) :
    wrapLoop append beyond width indent hang text line paragraph sentence out =
      wrapLoop append beyond width indent hang rest 0 true sentence
        (append out (replicate count 10)) := by
  obtain ⟨count, rfl⟩ := Nat.exists_eq_add_of_lt present
  rw [wrapLoop, next]
  rfl

/-- The loop appends the pieces for the items of its text, and reads too far if a word ends it. -/
theorem wrapLoop_reads {text : Bytes} {items : List WrapItem} (reads : WrapReads text items)
    (line : Nat) (paragraph sentence : Bool) (out : Out) :
    wrapLoop append beyond width indent hang text line paragraph sentence out =
      (.ok ((fillPieces width indent hang items line paragraph sentence).foldl append out),
        endsInWord text) := by
  induction reads generalizing line paragraph sentence out with
  | nil =>
    have next : nextToken beyond [] = (none, false) := by rw [nextToken]
    rw [wrapLoop, next]
    rfl
  | @space rest items _ ih =>
    rw [wrapLoop_congr (nextToken_space beyond rest), ih]
    obtain rfl | more := eq_or_ne rest []
    · rfl
    · exact congrArg _ (@endsInWord_append [32] rest more).symm
  | @single rest items more other _ ih =>
    rw [wrapLoop_congr (nextToken_single more other), ih]
    exact congrArg _ (@endsInWord_append [10] rest more).symm
  | final =>
    have next : nextToken beyond [10] = (some (replicate 1 10, []), false) := by
      rw [nextToken_newline]
      rfl
    have ending : nextToken beyond [] = (none, false) := by rw [nextToken]
    rw [wrapLoop_newlines Nat.one_pos next, wrapLoop, ending]
    rfl
  | @run count rest items several other _ ih =>
    rw [wrapLoop_newlines (by omega) (nextToken_run several other), ih]
    obtain rfl | more := eq_or_ne rest []
    · have low : endsInWord (replicate count 10) = false := by
        obtain ⟨count, rfl⟩ := Nat.exists_eq_add_of_le' several
        rw [replicate_succ', endsInWord_low (by decide)]
      rw [append_nil, low]
      rfl
    · rw [endsInWord_append more]
      rfl
  | @word word rest items present bytes ending _ ih =>
    have outside : (rest.isEmpty || endsInWord rest) = endsInWord (word ++ rest) := by
      obtain rfl | more := eq_or_ne rest []
      · obtain ⟨front, last, rfl⟩ := eq_nil_or_concat' word |>.resolve_left present
        rw [append_nil]
        unfold endsInWord
        rw [getLast?_concat]
        exact (decide_eq_true (bytes last (mem_append_right _ mem_cons_self))).symm
      · rw [endsInWord_append more, isEmpty_eq_false_iff.mpr more, Bool.false_or]
    have high : 32 < word.headD 0 := by
      obtain ⟨first, behind, rfl⟩ := exists_cons_of_ne_nil present
      exact bytes first mem_cons_self
    have newline : ¬ word.headD 0 = 10 := by
      intro same
      rw [same] at high
      exact absurd high (by decide)
    rw [wrapLoop, nextToken_word present bytes ending]
    dsimp only
    rw [if_neg newline, if_neg (UInt8.not_le.mpr high), ih, ih, ih, outside, fillPieces]
    split_ifs <;> rfl

end

end Splintermail
