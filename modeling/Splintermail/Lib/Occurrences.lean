/-
This file counts the occurrences of a pattern in a text that do not overlap, from left to
right: where the pattern occurs, the count goes on behind the occurrence.
-/

import Mathlib.Data.List.Infix

namespace Splintermail

open List

variable {Symbol : Type} [DecidableEq Symbol]

/-- The number of occurrences of a pattern that do not overlap. The empty pattern has none. -/
def occurrences (pattern : List Symbol) : List Symbol → Nat
  | [] => 0
  | symbol :: rest =>
    if pattern ≠ [] ∧ pattern <+: symbol :: rest then
      occurrences pattern ((symbol :: rest).drop pattern.length) + 1
    else occurrences pattern rest
  termination_by text => text.length
  decreasing_by
    · rename_i occurs
      have present := length_pos_iff.mpr occurs.1
      rw [length_drop, length_cons]
      omega
    · exact Nat.lt_succ_self _

section

variable {pattern text : List Symbol}

theorem occurrences_of_here (present : pattern ≠ []) (here : pattern <+: text) :
    occurrences pattern text = occurrences pattern (text.drop pattern.length) + 1 := by
  cases text with
  | nil => exact absurd (prefix_nil.mp here) present
  | cons symbol rest => rw [occurrences, if_pos ⟨present, here⟩]

theorem occurrences_of_other {symbol : Symbol} {rest : List Symbol}
    (notHere : ¬ pattern <+: symbol :: rest) :
    occurrences pattern (symbol :: rest) = occurrences pattern rest := by
  rw [occurrences, if_neg fun both => notHere both.2]

theorem occurrences_of_short (short : text.length < pattern.length) :
    occurrences pattern text = 0 := by
  induction text with
  | nil => rw [occurrences]
  | cons symbol rest ih =>
    rw [occurrences_of_other fun here => Nat.not_le_of_lt short here.length_le]
    exact ih (Nat.lt_of_succ_lt short)

theorem occurrences_pos (present : pattern ≠ []) :
    0 < occurrences pattern text ↔ pattern <:+: text := by
  induction text with
  | nil =>
    rw [occurrences, infix_nil]
    exact iff_of_false (Nat.lt_irrefl 0) present
  | cons symbol rest ih =>
    by_cases here : pattern <+: symbol :: rest
    · rw [occurrences_of_here present here]
      exact iff_of_true (Nat.succ_pos _) here.isInfix
    · rw [occurrences_of_other here, ih, infix_cons_iff, or_iff_right here]

omit [DecidableEq Symbol] in
/-- A pattern occurs in a text if and only if it occurs in a front part of it or in what is left
from as far before the end of that part as the pattern is long. -/
theorem infix_iff_split (front : Nat) :
    pattern <:+: text ↔
      pattern <:+: text.take front ∨ pattern <:+: text.drop (front - min front pattern.length) := by
  constructor
  · rintro ⟨before, after, rfl⟩
    by_cases inside : before.length + pattern.length ≤ front
    · left
      have fits : (before ++ pattern).length ≤ front := by rwa [length_append]
      refine (infix_append before pattern []).trans ?_
      rw [append_nil]
      exact (prefix_take_iff.mpr ⟨prefix_append _ after, fits⟩).isInfix
    · right
      rw [append_assoc, drop_append_of_le_length (by omega)]
      exact ⟨_, after, (append_assoc _ _ _)⟩
  · rintro (here | there)
    · exact here.trans (List.take_prefix _ _).isInfix
    · exact there.trans (drop_suffix _ _).isInfix

end

end Splintermail
