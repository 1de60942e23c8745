/-
This file is the theory of blocks of cells that are copied into a memory.

A writer that goes through a memory from one place on has copied one block, the cells it
wrote one after another. What a block covers is read back, and the rest is as before.
-/

import Mathlib.Data.List.GetD

namespace Splintermail

open List

variable {Cell : Type}

/-- The memory after a block was copied to a place. -/
def copyTo (memory : Nat → Cell) (start : Nat) (block : List Cell) : Nat → Cell :=
  fun place => if start ≤ place then block.getD (place - start) (memory place) else memory place

/-- The cells of a range. -/
def cellsFrom (memory : Nat → Cell) (start count : Nat) : List Cell :=
  (List.range count).map fun index => memory (start + index)

variable {memory : Nat → Cell}

theorem copyTo_nil (start : Nat) : copyTo memory start [] = memory := by
  funext place
  unfold copyTo
  split
  · exact getD_nil
  · rfl

theorem copyTo_append (start : Nat) (first second : List Cell) :
    copyTo (copyTo memory start first) (start + first.length) second =
      copyTo memory start (first ++ second) := by
  funext place
  unfold copyTo
  by_cases before : start ≤ place
  · rw [if_pos before, if_pos before]
    by_cases inFirst : place - start < first.length
    · rw [if_neg (by omega), getD_append _ _ _ _ inFirst, getD_eq_getElem _ _ inFirst]
    · rw [if_pos (by omega), getD_append_right _ _ _ _ (Nat.le_of_not_lt inFirst),
        getD_eq_default _ _ (Nat.le_of_not_lt inFirst), Nat.sub_sub]
  · rw [if_neg before, if_neg before, if_neg (by omega)]

theorem length_cellsFrom (start count : Nat) : (cellsFrom memory start count).length = count := by
  unfold cellsFrom
  rw [length_map, length_range]

theorem getElem_cellsFrom (start count index : Nat)
    (inside : index < (cellsFrom memory start count).length) :
    (cellsFrom memory start count)[index] = memory (start + index) := by
  simp [cellsFrom]

theorem cellsFrom_copyTo_before (first second : List Cell) :
    cellsFrom (copyTo (copyTo memory first.length second) 0 first) 0
      (first.length + second.length) = first ++ second := by
  refine ext_getElem ?_ fun index _ inside => ?_
  · rw [length_cellsFrom, length_append]
  rw [getElem_cellsFrom, Nat.zero_add]
  rw [length_append] at inside
  unfold copyTo
  rw [if_pos (Nat.zero_le index), Nat.sub_zero]
  by_cases inFirst : index < first.length
  · rw [getD_eq_getElem _ _ inFirst, getElem_append_left inFirst]
  · rw [getD_eq_default _ _ (Nat.le_of_not_lt inFirst),
      if_pos (Nat.le_of_not_lt inFirst), getD_eq_getElem _ _ (by omega),
      getElem_append_right (Nat.le_of_not_lt inFirst)]

end Splintermail
