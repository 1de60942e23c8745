/-
This file models `do_dstr_count2`, which counts how often a pattern occurs in a text, and says
when it returns and what.

After a match the index is advanced by the length of the pattern, less the one that the loop
adds. With an empty pattern, whose length less one wraps around, the index stays where it is,
and the loop does not end.
-/

import Splintermail.Dstr.Find
import Splintermail.Lib.Fuel
import Splintermail.Lib.Occurrences

namespace Splintermail

open List Returns

/-! ### The loop -/

/-- The fault of a loop that does not end. -/
inductive LoopFault where
  | hangs
  deriving DecidableEq, Repr

/-- A `size_t`. -/
def sizeWrap (size : Nat) : Nat := size % 2 ^ 64

/-- The check of the whole pattern at an index. -/
def matchesAt (charFn : UInt8 → UInt8) (text pattern : Bytes) (i : Nat) : Bool :=
  (range pattern.length).all fun j => charFn (text.getD (i + j) 0) = charFn (pattern.getD j 0)

/-- The loop of `do_dstr_count2`. -/
def countLoop (charFn : UInt8 → UInt8) (exitfirst : Bool) (text pattern : Bytes) :
    Nat → Nat → Nat → Except LoopFault Nat
  | 0, _, _ => .error .hangs
  | fuel + 1, i, count =>
    if sizeWrap (i + pattern.length) ≤ text.length then
      if matchesAt charFn text pattern i then
        if exitfirst then .ok 1
        else
          -- compensating for the fact that the loop adds 1 to i
          let i := sizeWrap (i + sizeWrap (pattern.length + 2 ^ 64 - 1))
          countLoop charFn exitfirst text pattern fuel (sizeWrap (i + 1)) (count + 1)
      else countLoop charFn exitfirst text pattern fuel (sizeWrap (i + 1)) count
    else .ok count

/-- `do_dstr_count2`; `charFn` is `noichar` or `ichar`. -/
def doDstrCount2 (fuel : Nat) (text pattern : Bytes) (charFn : UInt8 → UInt8) (exitfirst : Bool) :
    Except LoopFault Nat := countLoop charFn exitfirst text pattern fuel 0 0

/-- `noichar` -/
def noichar (char : UInt8) : UInt8 := char

/-- `dstr_count2` -/
def dstrCount2 (fuel : Nat) (text pattern : Bytes) : Except LoopFault Nat :=
  doDstrCount2 fuel text pattern noichar false

/-- `dstr_icount2` -/
def dstrIcount2 (fuel : Nat) (text pattern : Bytes) : Except LoopFault Nat :=
  doDstrCount2 fuel text pattern ichar false

/-! ### What the loop counts -/

/-- The text is an object in memory. -/
def InMemory (text : Bytes) : Prop := text.length < 2 ^ 63

instance (text : Bytes) : Decidable (InMemory text) := inferInstanceAs (Decidable (_ < _))

section

variable {charFn : UInt8 → UInt8} {exitfirst : Bool} {text pattern : Bytes} {i : Nat}

theorem matchesAt_iff (inside : i + pattern.length ≤ text.length) :
    matchesAt charFn text pattern i = true ↔ pattern.map charFn <+: (text.drop i).map charFn := by
  unfold matchesAt
  rw [all_eq_true, prefix_iff_getElem?]
  simp only [mem_range, decide_eq_true_eq, length_map]
  refine forall_congr' fun j => forall_congr' fun below => ?_
  have inText : i + j < text.length := by omega
  rw [getElem?_map, getElem?_drop, getElem?_eq_getElem inText, getElem_map,
    getD_eq_getElem?_getD, getD_eq_getElem?_getD, getElem?_eq_getElem inText,
    getElem?_eq_getElem below]
  exact (Option.some_inj).symm

/-- Behind a match the loop goes on from there. -/
theorem countLoop_found (room : sizeWrap (i + pattern.length) ≤ text.length)
    (found : matchesAt charFn text pattern i = true) (fuel count : Nat) :
    countLoop charFn false text pattern (fuel + 1) i count =
      countLoop charFn false text pattern fuel
        (sizeWrap (sizeWrap (i + sizeWrap (pattern.length + 2 ^ 64 - 1)) + 1)) (count + 1) := by
  rw [countLoop, if_pos room, if_pos found]
  rfl

theorem sizeWrap_of_lt {size : Nat} (small : size < 2 ^ 64) : sizeWrap size = size :=
  Nat.mod_eq_of_lt small

/-- An empty pattern matches at every index, and the index does not move. -/
theorem countLoop_hangs (textSmall : InMemory text) (inside : i ≤ text.length) (fuel count : Nat) :
    countLoop charFn false text [] fuel i count = .error .hangs := by
  unfold InMemory at textSmall
  induction fuel generalizing count with
  | zero => rfl
  | succ fuel ih =>
    have whole : sizeWrap (i + ([] : Bytes).length) = i := by
      rw [length_nil]
      exact sizeWrap_of_lt (by omega)
    have still : sizeWrap (sizeWrap (i + sizeWrap (([] : Bytes).length + 2 ^ 64 - 1)) + 1) = i := by
      unfold sizeWrap
      rw [length_nil]
      omega
    have found : matchesAt charFn text [] i = true := rfl
    rw [countLoop_found (whole.trans_le inside) found, still]
    exact ih (count + 1)

variable (textSmall : InMemory text) (patternSmall : InMemory pattern)

include textSmall patternSmall

/-- From any index that is not behind the text, the occurrences in the rest are counted. -/
theorem countLoop_returns (present : pattern ≠ []) (inside : i ≤ text.length) (count : Nat) :
    Returns (fun fuel => countLoop charFn false text pattern fuel i count)
      (count + occurrences (pattern.map charFn) ((text.drop i).map charFn)) := by
  unfold InMemory at textSmall patternSmall
  have some := length_pos_iff.mpr present
  have mapPresent : pattern.map charFn ≠ [] := fun nil => present (map_eq_nil_iff.mp nil)
  obtain ⟨left, lefts⟩ : ∃ left, text.length - i = left := ⟨_, rfl⟩
  induction left using Nat.strongRecOn generalizing i count with
  | ind left ih =>
    have whole : sizeWrap (i + pattern.length) = i + pattern.length := sizeWrap_of_lt (by omega)
    have next : sizeWrap (i + 1) = i + 1 := sizeWrap_of_lt (by omega)
    by_cases room : i + pattern.length ≤ text.length
    · by_cases found : matchesAt charFn text pattern i = true
      · have occurs := (matchesAt_iff room).mp found
        have less : sizeWrap (pattern.length + 2 ^ 64 - 1) = pattern.length - 1 := by
          unfold sizeWrap
          omega
        have back : sizeWrap (i + (pattern.length - 1)) = i + (pattern.length - 1) :=
          sizeWrap_of_lt (by omega)
        have behind : sizeWrap (i + (pattern.length - 1) + 1) = i + pattern.length := by
          rw [sizeWrap_of_lt (by omega)]
          omega
        have rest := ih (text.length - (i + pattern.length)) (by omega) room (count + 1) rfl
        rw [occurrences_of_here mapPresent occurs, length_map, ← map_drop,
          drop_drop, Nat.add_comm _ 1, ← Nat.add_assoc]
        refine succ (fun fuel => ?_) rest
        rw [countLoop_found (whole.trans_le room) found, less, back, behind]
      · have notHere : ¬ pattern.map charFn <+: (text.drop i).map charFn := fun occurs =>
          found ((matchesAt_iff room).mpr occurs)
        have rest := ih (text.length - (i + 1)) (by omega) (by omega) count rfl
        have below : i < text.length := by omega
        refine succ (fun fuel => ?_) (?_ : Returns
          (fun fuel => countLoop charFn false text pattern fuel (i + 1) count) _)
        · rw [countLoop, whole, if_pos room, if_neg found, next]
        · rw [drop_eq_getElem_cons below, map_cons] at notHere ⊢
          rw [occurrences_of_other notHere]
          exact rest
    · have short : ((text.drop i).map charFn).length < (pattern.map charFn).length := by
        rw [length_map, length_map, length_drop]
        omega
      rw [occurrences_of_short short]
      refine last fun fuel => ?_
      rw [countLoop, whole, if_neg room]
      rfl

/-- To exit at the first match tells whether there is one. -/
theorem countLoop_first (present : pattern ≠ []) (inside : i ≤ text.length) (count : Nat) :
    Returns (fun fuel => countLoop charFn true text pattern fuel i count)
      (if pattern.map charFn <:+: (text.drop i).map charFn then 1 else count) := by
  unfold InMemory at textSmall patternSmall
  obtain ⟨left, lefts⟩ : ∃ left, text.length - i = left := ⟨_, rfl⟩
  induction left generalizing i with
  | zero =>
    have atEnd : i = text.length := by omega
    have whole : sizeWrap (i + pattern.length) = i + pattern.length := sizeWrap_of_lt (by omega)
    have room : ¬ i + pattern.length ≤ text.length := by
      have some := length_pos_iff.mpr present
      omega
    have absent : ¬ pattern.map charFn <:+: (text.drop i).map charFn := by
      rw [atEnd, drop_length, map_nil, infix_nil, map_eq_nil_iff]
      exact present
    rw [if_neg absent]
    refine last fun fuel => ?_
    rw [countLoop, whole, if_neg room]
  | succ left ih =>
    have below : i < text.length := by omega
    have whole : sizeWrap (i + pattern.length) = i + pattern.length := sizeWrap_of_lt (by omega)
    have next : sizeWrap (i + 1) = i + 1 := sizeWrap_of_lt (by omega)
    by_cases room : i + pattern.length ≤ text.length
    · by_cases found : matchesAt charFn text pattern i = true
      · rw [if_pos ((matchesAt_iff room).mp found).isInfix]
        refine last fun fuel => ?_
        rw [countLoop, whole, if_pos room, if_pos found, if_pos rfl]
      · have rest := ih (i := i + 1) (by omega) (by omega)
        have here : pattern.map charFn <:+: (text.drop i).map charFn ↔
            pattern.map charFn <:+: (text.drop (i + 1)).map charFn := by
          have notHere := (matchesAt_iff room).not.mp found
          rw [drop_eq_getElem_cons below, map_cons] at notHere ⊢
          rw [infix_cons_iff, or_iff_right notHere]
        simp only [here]
        refine succ (fun fuel => ?_) rest
        rw [countLoop, whole, if_pos room, if_neg found, next]
    · have absent : ¬ pattern.map charFn <:+: (text.drop i).map charFn := by
        intro occurs
        have fits := occurs.length_le
        rw [length_map, length_map, length_drop] at fits
        omega
      rw [if_neg absent]
      refine last fun fuel => ?_
      rw [countLoop, whole, if_neg room]

end

/-- The counter returns unless it is to count an empty pattern. -/
theorem doDstrCount2_returns_iff {text pattern : Bytes} (textSmall : InMemory text)
    (patternSmall : InMemory pattern) (charFn : UInt8 → UInt8) (exitfirst : Bool) :
    (∃ count, Returns (fun fuel => doDstrCount2 fuel text pattern charFn exitfirst) count) ↔
      exitfirst = true ∨ pattern ≠ [] := by
  cases exitfirst with
  | false =>
    rw [or_iff_right Bool.false_ne_true]
    constructor
    · rintro ⟨count, enough, result⟩ rfl
      have hangs : doDstrCount2 enough text [] charFn false = .error .hangs :=
        countLoop_hangs textSmall (Nat.zero_le _) enough 0
      exact nomatch hangs.symm.trans (result enough (le_rfl))
    · intro present
      exact ⟨_, countLoop_returns textSmall patternSmall present (Nat.zero_le _) 0⟩
  | true =>
    refine iff_of_true ?_ (.inl rfl)
    by_cases present : pattern ≠ []
    · exact ⟨_, countLoop_first textSmall patternSmall present (Nat.zero_le _) 0⟩
    · obtain rfl := not_not.mp present
      exact ⟨1, last fun fuel => rfl⟩

/-- What is counted are the occurrences that do not overlap, from left to right. -/
theorem doDstrCount2_returns {text pattern : Bytes} (textSmall : InMemory text)
    (patternSmall : InMemory pattern) (charFn : UInt8 → UInt8) (present : pattern ≠ []) :
    Returns (fun fuel => doDstrCount2 fuel text pattern charFn false)
      (occurrences (pattern.map charFn) (text.map charFn)) := by
  have counted : Returns (fun fuel => countLoop charFn false text pattern fuel 0 0) _ :=
    countLoop_returns textSmall patternSmall present (Nat.zero_le _) 0
  rw [drop_zero, Nat.zero_add] at counted
  exact counted

end Splintermail
