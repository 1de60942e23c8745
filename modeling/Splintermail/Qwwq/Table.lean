/-
This file models `table()` of qwwq: the pass that measures the cells, and the pass that
writes their lines side by side.

Both passes split the cells into lines. The first one stops at the end of a cell, so that
an empty line behind the last newline of a cell is not counted. The second one writes to a
string of the size that the first one found, and an append that does not fit leaves it as
it was; whether this happened is kept beside the text.
-/

import Mathlib.Algebra.Order.BigOperators.Group.List
import Mathlib.Algebra.Order.Group.Nat
import Mathlib.Data.List.DropRight
import Splintermail.Dstr.Bytes

namespace Splintermail

open List

/-! ### Lines of a cell -/

/-- `dstr_split2_soft` at a newline with two outputs: how many were filled, the line, and the rest
of the cell. -/
def splitSoft (cell : Bytes) : Nat × Bytes × Bytes := (if 10 ∈ cell then 2 else 1, cutLine cell)

theorem length_cutLine_le (cell : Bytes) : (cutLine cell).2.length ≤ cell.length := by
  by_cases done : cutLine cell = ([], [])
  · rw [done]
    exact Nat.zero_le _
  · exact (length_cutLine_lt done).le

theorem length_cutLine_of_mem {cell : Bytes} (more : 10 ∈ cell) :
    (cutLine cell).2.length < cell.length := by
  induction cell with
  | nil => cases more
  | cons char rest ih =>
    rw [cutLine]
    split_ifs with newline
    · exact Nat.lt_succ_self _
    · refine Nat.lt_succ_of_lt (ih ?_)
      exact (mem_cons.mp more).resolve_left (Ne.symm newline)

/-- The loop of `cell_dims`. -/
def cellDimsLoop (cell : Bytes) (wout hout : Nat) : Nat × Nat :=
  if cell = [] then (wout, hout)
  else
    cellDimsLoop (splitSoft cell).2.2 (max wout (splitSoft cell).2.1.length) (hout + 1)
termination_by cell.length
decreasing_by
  obtain _ | ⟨char, rest⟩ := cell
  · contradiction
  · show (cutLine (char :: rest)).2.length < (char :: rest).length
    rw [cutLine]
    split_ifs
    · exact Nat.lt_succ_self _
    · exact Nat.lt_succ_of_le (length_cutLine_le rest)

/-- `cell_dims` -/
def cellDims (cell : Bytes) : Nat × Nat :=
  let (wout, hout) := cellDimsLoop cell 0 0
  (wout, max 1 hout)

/-! ### Writing a row -/

/-- The output, a string of a fixed size, and whether an append to it has failed. -/
structure TableOut where
  text : Bytes
  failed : Bool
  deriving DecidableEq, Repr

/-- `dstr_append_quiet`, `dstr_append_char_n` and `dstr_append_char` to the output. -/
def TableOut.append (size : Nat) (out : TableOut) (piece : Bytes) : TableOut :=
  if size < out.text.length + piece.length then { out with failed := true }
  else { out with text := out.text ++ piece }

/-- `dstr_rstrip_chars` of the output with a space. -/
def TableOut.rstrip (out : TableOut) : TableOut :=
  { out with text := out.text.rdropWhile (· = 32) }

/-- One line of every cell: the output, what remains of the cells, and whether there is more. -/
def generateLine (size : Nat) : List Nat → List Bytes → TableOut → TableOut × List Bytes × Bool
  | _, [], out => (out, [], false)
  | widths, cell :: cells, out =>
    let (count, line, rest) := splitSoft cell
    let out := out.append size line
    -- either pad the cell or terminate the line
    let out :=
      if cells ≠ [] then out.append size (replicate (widths.headD 0 + 1 - line.length) 32)
      else out.rstrip.append size [10]
    let (out, rests, more) := generateLine size widths.tail cells out
    (out, rest :: rests, 1 < count || more)

theorem generateLine_rest (size : Nat) (widths : List Nat) (cells : List Bytes) (out : TableOut) :
    (generateLine size widths cells out).2 =
      (cells.map fun cell => (cutLine cell).2, cells.any fun cell => 10 ∈ cell) := by
  induction cells generalizing widths out with
  | nil => rfl
  | cons cell cells ih =>
    have counted : decide (1 < (splitSoft cell).1) = decide (10 ∈ cell) := by
      rw [splitSoft]
      split_ifs with newline
      · exact (decide_eq_true newline).symm
      · exact (decide_eq_false newline).symm
    refine Prod.ext ?_ ?_
    · exact congrArg (cons _) (congrArg Prod.fst (ih _ _))
    · rw [any_cons]
      exact congrArg₂ or counted (congrArg Prod.snd (ih _ _))

theorem generateLine_shorter {size : Nat} {widths : List Nat} {cells rests : List Bytes}
    {out next : TableOut} (line : generateLine size widths cells out = (next, rests, true)) :
    (rests.map length).sum < (cells.map length).sum := by
  have rest := generateLine_rest size widths cells out
  rw [line] at rest
  obtain ⟨rfl, more⟩ := Prod.mk.inj rest
  obtain ⟨cell, mem, newline⟩ := any_eq_true.mp more.symm
  rw [map_map]
  exact sum_lt_sum _ _ (fun cell _ => length_cutLine_le cell)
    ⟨cell, mem, length_cutLine_of_mem (of_decide_eq_true newline)⟩

/-- `generate_row` -/
def generateRow (size : Nat) (widths : List Nat) (cells : List Bytes) (out : TableOut) : TableOut :=
  match _line : generateLine size widths cells out with
  | (out, _, false) => out
  | (out, rests, true) => generateRow size widths rests out
termination_by (cells.map length).sum
decreasing_by exact generateLine_shorter _line

/-! ### The two passes -/

/-- Why `table()` stops. -/
inductive TableError where
  | emptyList
  | zeroColumns
  | tooManyColumns
  | unequalLengths (index length first : Nat)
  deriving DecidableEq, Repr

/-- The cells of a row in the first pass: the widths of the columns and the height of the row. -/
def measureRow : List Nat → List Bytes → Nat → List Nat × Nat
  | width :: widths, cell :: cells, rowHeight =>
    let (w, h) := cellDims cell
    let (widths, rowHeight) := measureRow widths cells (max rowHeight h)
    (max width w :: widths, rowHeight)
  | widths, _, rowHeight => (widths, rowHeight)

/-- The first pass over the rows, from the one with the index `i` on. -/
def measureRows (ncols : Nat) :
    Nat → List (List Bytes) → List Nat → Nat → Except TableError (List Nat × Nat)
  | _, [], widths, nlines => .ok (widths, nlines)
  | i, row :: rows, widths, nlines =>
    if i ≠ 0 ∧ row.length ≠ ncols then .error (.unequalLengths i row.length ncols)
    else
      let (widths, rowHeight) := measureRow widths row 0
      measureRows ncols (i + 1) rows widths (nlines + rowHeight)

/-- `qw_instr_table` after the types of its argument were checked. -/
def qwInstrTable (rows : List (List Bytes)) : Except TableError TableOut :=
  match rows with
  | [] => .error .emptyList
  | first :: _ =>
    let ncols := first.length
    if ncols = 0 then .error .zeroColumns
    else if 256 < ncols then .error .tooManyColumns
    else do
      let (widths, nlines) ← measureRows ncols 0 rows (replicate ncols 0) 0
      -- figure out how much space we need
      let linesize := ncols + widths.sum
      let out := rows.foldl
        (fun out row => generateRow (linesize * nlines) widths row out) ⟨[], false⟩
      -- drop the final newline
      .ok { out with text := out.text.dropLast }

end Splintermail
