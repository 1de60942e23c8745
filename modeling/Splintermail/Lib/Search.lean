/-
This file is the theory of a search for a pattern that reads the text once and never looks
back.

Such a search counts how much of the pattern it has matched. When a symbol does not fit,
it drops the match together with that symbol and begins anew with the next one. It can
therefore find the pattern only where it begins anew, and it finds the first occurrence
if and only if it begins anew there. This is so for every text exactly if the pattern
repeats one symbol.
-/

import Mathlib.Data.List.Basic
import Mathlib.Data.List.Infix

namespace Splintermail

open List

namespace Search

section
variable {Symbol : Type} {pattern text : List Symbol} {position other : Nat}

/-! ### Occurrences -/

/-- The pattern begins at a position of the text, and at none before it. -/
def IsFirst (pattern text : List Symbol) (position : Nat) : Prop :=
  pattern <+: text.drop position ∧ ∀ earlier < position, ¬ pattern <+: text.drop earlier

theorem exists_isFirst (occurs : pattern <+: text.drop position) :
    ∃ first, IsFirst pattern text first := by
  induction position using Nat.strongRecOn with
  | ind position ih =>
    by_cases earlier : ∃ before < position, pattern <+: text.drop before
    · obtain ⟨before, below, found⟩ := earlier
      exact ih before below found
    · exact ⟨position, occurs, fun before below found => earlier ⟨before, below, found⟩⟩

theorem IsFirst.drop (first : IsFirst pattern text (other + position)) :
    IsFirst pattern (text.drop other) position := by
  refine ⟨?_, fun earlier below found => ?_⟩
  · rw [drop_drop]
    exact first.1
  · rw [drop_drop] at found
    exact first.2 (other + earlier) (Nat.add_lt_add_left below other) found

theorem IsFirst.le (first : IsFirst pattern text position) (present : pattern ≠ []) :
    position + pattern.length ≤ text.length := by
  have fits := first.1.length_le
  have some := length_pos_iff.mpr present
  rw [length_drop] at fits
  omega

end

section
variable {Symbol : Type} [DecidableEq Symbol]

/-! ### Where the search begins anew -/

/-- How much of the pattern the text begins with. -/
def agreed : List Symbol → List Symbol → Nat
  | first :: pattern, symbol :: text => if symbol = first then agreed pattern text + 1 else 0
  | _, _ => 0

/-- The positions at which the search begins anew. -/
inductive Fresh (pattern : List Symbol) : List Symbol → Nat → Prop where
  | start (text : List Symbol) : Fresh pattern text 0
  | later {text : List Symbol} {position : Nat} : ¬ pattern <+: text →
    Fresh pattern (text.drop (agreed pattern text + 1)) position →
    Fresh pattern text (agreed pattern text + 1 + position)

variable {pattern text : List Symbol} {position other : Nat}

theorem Fresh.unique (fresh : Fresh pattern text position) (fresh' : Fresh pattern text other)
    (found : pattern <+: text.drop position) (found' : pattern <+: text.drop other) :
    position = other := by
  induction fresh generalizing other with
  | start text =>
    cases fresh' with
    | start => rfl
    | later misses _ => exact absurd found misses
  | @later text position misses _ ih =>
    cases fresh' with
    | start => exact absurd found' misses
    | later _ rest =>
      rw [← drop_drop] at found found'
      rw [ih rest found found']

theorem Fresh.eq_zero_or_lt (fresh : Fresh pattern text position) :
    position = 0 ∨ agreed pattern text < position := by
  cases fresh with
  | start => exact .inl rfl
  | later _ _ => exact .inr (by omega)

/-- A search that finds the pattern where it begins anew finds the first occurrence of it if and only
if it begins anew there. -/
theorem exact_iff {found : Nat → Prop} (finds : ∀ {position}, found position ↔
      Fresh pattern text position ∧ pattern <+: text.drop position) :
    (∀ position, found position ↔ IsFirst pattern text position) ↔
      ∀ position, IsFirst pattern text position → Fresh pattern text position := by
  constructor
  · exact fun exact' position first => (finds.mp ((exact' position).mpr first)).1
  · intro reached position
    constructor
    · intro here
      obtain ⟨fresh, occurs⟩ := finds.mp here
      obtain ⟨first, isFirst⟩ := exists_isFirst occurs
      rw [fresh.unique (reached first isFirst) occurs isFirst.1]
      exact isFirst
    · exact fun first => finds.mpr ⟨reached position first, first.1⟩

/-! ### Patterns of one symbol -/

theorem agreed_spec (misses : ¬ pattern <+: text) :
    agreed pattern text < pattern.length ∧
      text[agreed pattern text]? ≠ pattern[agreed pattern text]? := by
  induction pattern generalizing text with
  | nil => exact absurd nil_prefix misses
  | cons first pattern ih =>
    obtain _ | ⟨symbol, text⟩ := text
    · exact ⟨Nat.succ_pos _, nofun⟩
    · rw [agreed]
      split_ifs with same
      · obtain rfl := same
        have rest : ¬ pattern <+: text := fun found =>
          misses (cons_prefix_cons.mpr ⟨rfl, found⟩)
        obtain ⟨below, differs⟩ := ih rest
        refine ⟨Nat.succ_lt_succ below, ?_⟩
        rw [getElem?_cons_succ, getElem?_cons_succ]
        exact differs
      · exact ⟨Nat.succ_pos _, fun equal => same (Option.some.inj equal)⟩

theorem fresh_of_replicate {symbol : Symbol} {count : Nat}
    (first : IsFirst (replicate count symbol) text position) :
    Fresh (replicate count symbol) text position := by
  induction length : text.length using Nat.strongRecOn generalizing text position with
  | ind size ih =>
    by_cases found : replicate count symbol <+: text
    · obtain rfl : position = 0 := by
        by_contra later
        exact first.2 0 (Nat.pos_of_ne_zero later) found
      exact .start text
    · obtain ⟨below, differs⟩ := agreed_spec found
      have symbols : (replicate count symbol)[agreed (replicate count symbol) text]? =
          some symbol := by
        rw [length_replicate] at below
        exact getElem?_replicate_of_lt below
      obtain ⟨rest, rfl⟩ : ∃ rest, position = agreed (replicate count symbol) text + 1 + rest := by
        refine ⟨_, (Nat.add_sub_of_le ?_).symm⟩
        by_contra before
        obtain ⟨tail, occurs⟩ := first.1
        have inside : (text.drop position)[agreed (replicate count symbol) text - position]? =
            some symbol := by
          rw [length_replicate] at below
          rw [← occurs, getElem?_append_left (by rw [length_replicate]; omega)]
          exact getElem?_replicate_of_lt (by omega)
        rw [getElem?_drop, Nat.add_sub_of_le (by omega), ← symbols] at inside
        exact differs inside
      refine .later found (ih _ ?_ first.drop rfl)
      have some := first.le (ne_nil_of_length_pos (below.trans_le' (Nat.zero_le _)))
      rw [← length, length_drop]
      omega

theorem agreed_append (common pattern text : List Symbol) :
    agreed (common ++ pattern) (common ++ text) = common.length + agreed pattern text := by
  induction common with
  | nil => exact (Nat.zero_add _).symm
  | cons symbol common ih =>
    rw [cons_append, cons_append, agreed, if_pos rfl, ih, length_cons, Nat.add_right_comm]

/-- A pattern with two symbols has an occurrence that is jumped over. -/
theorem not_fresh_of_two {symbol second : Symbol} (apart : second ≠ symbol) (count : Nat)
    (rest : List Symbol) :
    ∃ text position, IsFirst (replicate (count + 1) symbol ++ second :: rest) text position ∧
      ¬ Fresh (replicate (count + 1) symbol ++ second :: rest) text position := by
  have length : (replicate (count + 1) symbol).length = count + 1 := length_replicate
  refine ⟨replicate (count + 1) symbol ++ (replicate (count + 1) symbol ++ second :: rest),
    count + 1, ⟨?_, ?_⟩, ?_⟩
  · rw [drop_left' length]
  · rintro earlier below ⟨tail, occurs⟩
    -- the second symbol would stand where the first one is still repeated
    have here := congrArg (fun list : List Symbol => list[count + 1]?) occurs
    have repeated : (replicate (count + 1 + (count + 1)) symbol ++
        second :: rest)[earlier + (count + 1)]? = some symbol := by
      rw [getElem?_append_left (by rw [length_replicate]; omega)]
      exact getElem?_replicate_of_lt (by omega)
    rw [append_assoc, getElem?_append_right length.le, length, Nat.sub_self,
      getElem?_drop, ← append_assoc, replicate_append_replicate, repeated] at here
    exact apart (Option.some.inj here)
  · intro fresh
    have agrees : agreed (replicate (count + 1) symbol ++ second :: rest)
        (replicate (count + 1) symbol ++ (replicate (count + 1) symbol ++ second :: rest)) =
        count + 1 := by
      rw [agreed_append, length, replicate_succ, cons_append, agreed,
        if_neg (fun same => apart same.symm)]
    obtain zero | behind := fresh.eq_zero_or_lt
    · exact absurd zero nofun
    · rw [agrees] at behind
      exact absurd behind (Nat.lt_irrefl _)

theorem replicate_or_second (symbol : Symbol) (list : List Symbol) :
    list = replicate list.length symbol ∨
      ∃ count second rest, second ≠ symbol ∧ list = replicate count symbol ++ second :: rest := by
  induction list with
  | nil => exact .inl rfl
  | cons first list ih =>
    by_cases same : first = symbol
    · obtain rfl := same
      obtain equal | ⟨count, second, rest, apart, rfl⟩ := ih
      · exact .inl (congrArg (first :: ·) equal)
      · exact .inr ⟨count + 1, second, rest, apart, rfl⟩
    · exact .inr ⟨0, first, list, same, rfl⟩

/-- The search finds every first occurrence exactly if the pattern repeats one symbol. -/
theorem fresh_iff_replicate (present : pattern ≠ []) :
    (∀ text position, IsFirst pattern text position → Fresh pattern text position) ↔
      ∃ symbol, pattern = replicate pattern.length symbol := by
  constructor
  · intro finds
    obtain ⟨symbol, list, rfl⟩ := exists_cons_of_ne_nil present
    refine ⟨symbol, ?_⟩
    obtain equal | ⟨count, second, rest, apart, rfl⟩ := replicate_or_second symbol list
    · exact congrArg (symbol :: ·) equal
    · obtain ⟨text, position, first, jumped⟩ := not_fresh_of_two apart count rest
      exact absurd (finds text position first) jumped
  · rintro ⟨symbol, equal⟩ text position first
    rw [equal] at first ⊢
    exact fresh_of_replicate first

end

end Search

end Splintermail
