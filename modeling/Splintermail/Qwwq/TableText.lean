/-
This file proves which tables `table()` writes without losing anything.

The text of a table consists of its lines, and each line of the pieces that the cells have
in it, padded to the width of their column. The size of the output is that of the counted
lines, each as long as a line may become. An empty line behind the last newline of a cell
is not counted, so that a row whose tallest cells all end with a newline needs room that
the trimming of earlier lines must leave.
-/

import Mathlib.Data.List.GetD
import Mathlib.Data.List.MinMax
import Splintermail.Dstr.Find
import Splintermail.Qwwq.Table

namespace Splintermail

open List TableOut

/-! ### The text of a table -/

/-- The lines of a cell. -/
def cellLines (cell : Bytes) : List Bytes := cell.splitOn 10

/-- A line without its trailing spaces. -/
def trimmed (line : Bytes) : Bytes := line.rdropWhile (· = 32)

/-- The pieces of a line side by side, all but the last one padded to the width of their column
plus one. -/
def layLine : List Nat → List Bytes → Bytes
  | _, [] => []
  | _, [piece] => piece
  | widths, piece :: pieces =>
    piece ++ replicate (widths.headD 0 + 1 - piece.length) 32 ++ layLine widths.tail pieces

/-- The longest line that a column has in any row. -/
def columnWidth (rows : List (List Bytes)) (column : Nat) : Nat :=
  ((rows.flatMap fun row => cellLines (row.getD column [])).map length).foldr max 0

/-- The widths of the columns of a table. -/
def columnWidths (columns : Nat) (rows : List (List Bytes)) : List Nat :=
  (range columns).map (columnWidth rows)

/-- The lines of the tallest cell. -/
def rowHeight (row : List Bytes) : Nat :=
  (row.map fun cell => (cellLines cell).length).foldr max 0

/-- The lines of a row, each as the pieces that the cells have in it. -/
def rowPieces (row : List Bytes) : List (List Bytes) :=
  (range (rowHeight row)).map fun place => row.map fun cell => (cellLines cell).getD place []

/-- The lines of a table before their trailing spaces are trimmed. -/
def tableLines (columns : Nat) (rows : List (List Bytes)) : List Bytes :=
  (rows.flatMap rowPieces).map (layLine (columnWidths columns rows))

/-- The text of a table. -/
def tableText (columns : Nat) (rows : List (List Bytes)) : Bytes :=
  [10].intercalate ((tableLines columns rows).map trimmed)

/-! ### The room for it -/

/-- The lines of a cell without an empty one behind its last newline. -/
def countedHeight (cell : Bytes) : Nat :=
  if cell.getLast? = some 10 then (cellLines cell).length - 1 else (cellLines cell).length

/-- The counted lines of a table. -/
def countedLines (rows : List (List Bytes)) : Nat :=
  (rows.map fun row => (row.map countedHeight).foldr max 0).sum

/-- The room for one line. -/
def lineSize (columns : Nat) (rows : List (List Bytes)) : Nat :=
  columns + (columnWidths columns rows).sum

/-- What trimmed lines take, each with its newline. -/
def trimmedSize (lines : List Bytes) : Nat := (lines.map fun line => (trimmed line).length + 1).sum

/-- What a line takes while it is written, behind the lines before it. -/
def writtenSize (before : List Bytes) (line : Bytes) : Nat :=
  trimmedSize before + max line.length ((trimmed line).length + 1)

/-! ### Lines of a cell -/

variable {cell : Bytes}

theorem cutLine_of_notMem (absent : 10 ∉ cell) : cutLine cell = (cell, []) := by
  induction cell with
  | nil => rfl
  | cons char rest ih =>
    rw [mem_cons, not_or] at absent
    rw [cutLine, if_neg (Ne.symm absent.1), ih absent.2]

theorem cellLines_of_notMem (absent : 10 ∉ cell) : cellLines cell = [cell] :=
  splitOn_eq_singleton absent

theorem cellLines_of_mem (more : 10 ∈ cell) :
    cellLines cell = (cutLine cell).1 :: cellLines (cutLine cell).2 := by
  induction cell with
  | nil => cases more
  | cons char rest ih =>
    rw [cellLines, splitOn_cons_eq_if_modifyHead, cutLine]
    by_cases newline : char = 10
    · rw [if_pos newline, if_pos (beq_iff_eq.mpr newline)]
      rfl
    · rw [if_neg newline, if_neg (by simpa using newline)]
      rw [← cellLines, ih ((mem_cons.mp more).resolve_left (Ne.symm newline))]
      rfl

theorem cellLines_nil : cellLines [] = [[]] := rfl

theorem length_cellLines_pos (cell : Bytes) : 0 < (cellLines cell).length :=
  length_pos_iff.mpr (splitOn_ne_nil 10 cell)

theorem cellLines_getD_zero (cell : Bytes) : (cellLines cell).getD 0 [] = (cutLine cell).1 := by
  by_cases more : 10 ∈ cell
  · rw [cellLines_of_mem more]
    rfl
  · rw [cellLines_of_notMem more, cutLine_of_notMem more]
    rfl

theorem cellLines_getD_succ (cell : Bytes) (place : Nat) :
    (cellLines cell).getD (place + 1) [] = (cellLines (cutLine cell).2).getD place [] := by
  by_cases more : 10 ∈ cell
  · rw [cellLines_of_mem more]
    rfl
  · rw [cellLines_of_notMem more, cutLine_of_notMem more, cellLines_nil]
    cases place <;> rfl

/-- A longest line of a cell. -/
def cellWidth (cell : Bytes) : Nat := ((cellLines cell).map length).foldr max 0

theorem cutLine_of_mem (more : 10 ∈ cell) : cell = (cutLine cell).1 ++ 10 :: (cutLine cell).2 := by
  induction cell with
  | nil => cases more
  | cons char rest ih =>
    rw [cutLine]
    split_ifs with newline
    · rw [newline]
      rfl
    · exact congrArg (cons char) (ih ((mem_cons.mp more).resolve_left (Ne.symm newline)))

/-! ### The first pass -/

theorem countedHeight_of_mem (more : 10 ∈ cell) :
    countedHeight cell =
      1 + if (cutLine cell).2 = [] then 0 else countedHeight (cutLine cell).2 := by
  have lines := cellLines_of_mem more
  have last : cell.getLast? = (10 :: (cutLine cell).2).getLast? := by
    conv_lhs => rw [cutLine_of_mem more, getLast?_append_cons]
  rw [countedHeight, last, lines, length_cons, Nat.add_sub_cancel]
  by_cases done : (cutLine cell).2 = []
  · rw [done]
    rfl
  · rw [if_neg done, getLast?_cons_of_ne_nil done, countedHeight]
    have positive := length_cellLines_pos (cutLine cell).2
    split_ifs
    · exact (Nat.add_sub_cancel' positive).symm
    · exact Nat.add_comm _ _

theorem countedHeight_of_notMem (absent : 10 ∉ cell) : countedHeight cell = 1 := by
  have other : cell.getLast? ≠ some 10 := fun last => absent (mem_of_getLast? last)
  rw [countedHeight, if_neg other, cellLines_of_notMem absent]
  rfl

theorem cellWidth_of_mem (more : 10 ∈ cell) :
    cellWidth cell = max (cutLine cell).1.length (cellWidth (cutLine cell).2) := by
  rw [cellWidth, cellLines_of_mem more]
  rfl

theorem cellWidth_of_notMem (absent : 10 ∉ cell) : cellWidth cell = cell.length := by
  rw [cellWidth, cellLines_of_notMem absent]
  exact Nat.max_zero _

theorem cellDimsLoop_eq (cell : Bytes) (wout hout : Nat) :
    cellDimsLoop cell wout hout =
      (max wout (cellWidth cell), hout + if cell = [] then 0 else countedHeight cell) := by
  fun_induction cellDimsLoop cell wout hout with
  | case1 wout hout => exact Prod.ext (Nat.max_zero wout).symm rfl
  | case2 cell wout hout present ih =>
    rw [ih, if_neg present]
    show (max (max wout (cutLine cell).1.length) (cellWidth (cutLine cell).2),
      hout + 1 + if (cutLine cell).2 = [] then 0 else countedHeight (cutLine cell).2) = _
    by_cases more : 10 ∈ cell
    · rw [cellWidth_of_mem more, countedHeight_of_mem more, max_assoc, Nat.add_assoc]
    · rw [cellWidth_of_notMem more, countedHeight_of_notMem more, cutLine_of_notMem more]
      exact Prod.ext (Nat.max_eq_left (Nat.zero_le _)) rfl

theorem cellDims_eq (cell : Bytes) : cellDims cell = (cellWidth cell, countedHeight cell) := by
  rw [cellDims, cellDimsLoop_eq]
  refine Prod.ext (Nat.max_eq_right (Nat.zero_le _)) ?_
  show max 1 (0 + if cell = [] then 0 else countedHeight cell) = countedHeight cell
  rw [Nat.zero_add]
  by_cases more : 10 ∈ cell
  · rw [if_neg (ne_nil_of_mem more)]
    refine Nat.max_eq_right ?_
    rw [countedHeight_of_mem more]
    exact Nat.le_add_right 1 _
  · rw [countedHeight_of_notMem more]
    split_ifs <;> rfl

variable {row : List Bytes} {widths : List Nat}

theorem measureRow_eq (same : widths.length = row.length) (height : Nat) :
    measureRow widths row height =
      (zipWith max widths (row.map cellWidth),
        max height ((row.map countedHeight).foldr max 0)) := by
  induction row generalizing widths height with
  | nil =>
    rw [length_eq_zero_iff.mp same]
    exact Prod.ext rfl (Nat.max_zero height).symm
  | cons cell row ih =>
    obtain _ | ⟨width, widths⟩ := widths
    · exact absurd same (Nat.succ_ne_zero _).symm
    · rw [measureRow, cellDims_eq]
      dsimp only
      rw [ih (Nat.succ_injective same)]
      exact Prod.ext rfl (max_assoc _ _ _)

theorem foldr_max_append (first second : List Nat) :
    (first ++ second).foldr max 0 = max (first.foldr max 0) (second.foldr max 0) := by
  induction first with
  | nil => exact (Nat.max_eq_right (Nat.zero_le _)).symm
  | cons number first ih =>
    rw [cons_append, foldr_cons, foldr_cons, ih, max_assoc]

theorem columnWidth_cons (row : List Bytes) (rows : List (List Bytes)) (column : Nat) :
    columnWidth (row :: rows) column =
      max (cellWidth (row.getD column [])) (columnWidth rows column) := by
  rw [columnWidth, flatMap_cons, map_append, foldr_max_append]
  rfl

theorem map_cellWidth (row : List Bytes) :
    row.map cellWidth = (range row.length).map fun column => cellWidth (row.getD column []) := by
  refine ext_getElem ?_ fun place bound _ => ?_
  · rw [length_map, length_map, length_range]
  · rw [length_map] at bound
    rw [getElem_map, getElem_map, getElem_range, (getElem_eq_getD (h := bound) []).symm]

variable {columns : Nat} {rows : List (List Bytes)}

/-- The first pass finds the widths of the columns and the counted lines. -/
theorem measureRows_eq (equal : ∀ row ∈ rows, row.length = columns) (index nlines : Nat)
    (measured : Nat → Nat) :
    measureRows columns index rows ((range columns).map measured) nlines =
      .ok ((range columns).map fun column => max (measured column) (columnWidth rows column),
        nlines + countedLines rows) := by
  induction rows generalizing index nlines measured with
  | nil =>
    refine congrArg Except.ok (Prod.ext (congrArg (map · (range columns)) ?_) rfl)
    exact funext fun column => (Nat.max_zero _).symm
  | cons row rows ih =>
    have length := equal row mem_cons_self
    have widths : zipWith max ((range columns).map measured) (row.map cellWidth) =
        (range columns).map fun column =>
          max (measured column) (cellWidth (row.getD column [])) := by
      rw [map_cellWidth, length, zipWith_map, zipWith_self]
    have rest : (fun column => max (measured column) (columnWidth (row :: rows) column)) =
        fun column => max (max (measured column) (cellWidth (row.getD column [])))
          (columnWidth rows column) :=
      funext fun column => by rw [columnWidth_cons, max_assoc]
    rw [measureRows, if_neg fun wrong => wrong.2 length]
    rw [measureRow_eq (by rw [length_map, length_range, length])]
    dsimp only
    rw [widths, ih fun other mem => equal other (.tail _ mem)]
    rw [rest, Nat.zero_max, Nat.add_assoc]
    rfl

/-! ### The lines that the second pass writes -/

/-- The pieces of one line are written to the output. -/
def emitLine (size : Nat) : List Nat → List Bytes → TableOut → TableOut
  | _, [], out => out
  | widths, piece :: pieces, out =>
    let out := out.append size piece
    emitLine size widths.tail pieces
      (if pieces ≠ [] then out.append size (replicate (widths.headD 0 + 1 - piece.length) 32)
       else out.rstrip.append size [10])

theorem generateLine_out (size : Nat) (widths : List Nat) (cells : List Bytes) (out : TableOut) :
    (generateLine size widths cells out).1 =
      emitLine size widths (cells.map fun cell => (cutLine cell).1) out := by
  induction cells generalizing widths out with
  | nil => rfl
  | cons cell cells ih =>
    rw [map_cons, emitLine]
    refine (ih _ _).trans ?_
    cases cells <;> rfl

theorem le_foldr_max {number : Nat} {numbers : List Nat} (mem : number ∈ numbers) :
    number ≤ numbers.foldr max 0 :=
  le_max_of_le' 0 mem le_rfl

/-- A row is one line higher than what remains of it after a line, if anything does. -/
theorem rowHeight_of_more (more : ∃ cell ∈ row, 10 ∈ cell) :
    rowHeight row = rowHeight (row.map fun cell => (cutLine cell).2) + 1 := by
  have cell : ∀ cell : Bytes,
      max 2 (cellLines cell).length = (cellLines (cutLine cell).2).length + 1 := by
    intro cell
    have positive := length_cellLines_pos (cutLine cell).2
    by_cases newline : 10 ∈ cell
    · rw [cellLines_of_mem newline, length_cons]
      exact Nat.max_eq_right (Nat.succ_le_succ positive)
    · rw [cellLines_of_notMem newline, cutLine_of_notMem newline]
      rfl
  have all : ∀ row : List Bytes,
      max 2 (rowHeight row) = max 1 (rowHeight (row.map fun cell => (cutLine cell).2)) + 1 := by
    intro row
    induction row with
    | nil => rfl
    | cons first row ih =>
      have step := cell first
      show max 2 (max (cellLines first).length (rowHeight row)) =
        max 1 (max (cellLines (cutLine first).2).length
          (rowHeight (row.map fun cell => (cutLine cell).2))) + 1
      omega
  obtain ⟨tall, mem, newline⟩ := more
  have high : 2 ≤ rowHeight row := by
    refine le_trans ?_ (le_foldr_max (mem_map_of_mem mem))
    rw [cellLines_of_mem newline]
    exact Nat.succ_le_succ (length_cellLines_pos _)
  have low : 1 ≤ rowHeight (row.map fun cell => (cutLine cell).2) := by
    refine le_trans (length_cellLines_pos (cutLine tall).2) (le_foldr_max ?_)
    exact mem_map_of_mem (mem_map_of_mem mem)
  have both := all row
  rw [max_eq_right high, max_eq_right low] at both
  exact both

theorem rowHeight_of_flat (present : row ≠ []) (flat : ¬ ∃ cell ∈ row, 10 ∈ cell) :
    rowHeight row = 1 := by
  have same : row.map (fun cell => (cellLines cell).length) = row.map fun _ => 1 := by
    refine map_congr_left fun cell mem => ?_
    rw [cellLines_of_notMem fun newline => flat ⟨cell, mem, newline⟩]
    rfl
  rw [rowHeight, same]
  clear same flat
  induction row with
  | nil => exact absurd rfl present
  | cons cell row ih =>
    obtain _ | ⟨next, row⟩ := row
    · rfl
    · rw [map_cons, foldr_cons, ih (cons_ne_nil _ _)]
      rfl

theorem rowPieces_eq_cons {height : Nat} (high : rowHeight row = height + 1) :
    rowPieces row = (row.map fun cell => (cutLine cell).1) :: (range height).map fun place =>
        (row.map fun cell => (cutLine cell).2).map fun cell => (cellLines cell).getD place [] := by
  rw [rowPieces, high, range_succ_eq_map, map_cons, map_map]
  refine congrArg₂ cons ?_ (congrArg (map · _) (funext fun place => ?_))
  · exact map_congr_left fun cell _ => cellLines_getD_zero cell
  · rw [map_map]
    exact map_congr_left fun cell _ => cellLines_getD_succ cell place

variable {size : Nat}

/-- `generate_row` writes the lines of a row. -/
theorem generateRow_eq (present : row ≠ []) (out : TableOut) :
    generateRow size widths row out =
      (rowPieces row).foldl (fun out pieces => emitLine size widths pieces out) out := by
  fun_induction generateRow size widths row out with
  | case1 row out last rests line =>
    have rest := generateLine_rest size widths row out
    have first := generateLine_out size widths row out
    rw [line] at rest first
    have flat : ¬ ∃ cell ∈ row, 10 ∈ cell := by
      rintro ⟨cell, mem, newline⟩
      have any := any_eq_false.mp (congrArg Prod.snd rest).symm cell mem
      exact any (decide_eq_true newline)
    rw [rowPieces_eq_cons (rowHeight_of_flat present flat)]
    exact first
  | case2 row out next rests line ih =>
    have rest := generateLine_rest size widths row out
    have first := generateLine_out size widths row out
    rw [line] at rest first
    obtain ⟨cell, mem, newline⟩ := any_eq_true.mp (congrArg Prod.snd rest).symm
    have more := rowHeight_of_more ⟨cell, mem, of_decide_eq_true newline⟩
    obtain rfl : rests = row.map fun cell => (cutLine cell).2 := congrArg Prod.fst rest
    rw [ih fun empty => present (map_eq_nil_iff.mp empty),
      rowPieces_eq_cons more, foldl_cons, ← first]
    rfl

/-! ### What arrives in the output -/

/-- Lines that were written, each trimmed and with its newline. -/
def written (lines : List Bytes) : Bytes := lines.flatMap fun line => trimmed line ++ [10]

theorem length_written (lines : List Bytes) : (written lines).length = trimmedSize lines := by
  rw [written, length_flatMap]
  refine congrArg sum (map_congr_left fun line _ => ?_)
  rw [length_append]
  rfl

theorem written_concat (lines : List Bytes) (line : Bytes) :
    written (lines ++ [line]) = written lines ++ (trimmed line ++ [10]) := by
  rw [written, flatMap_append, flatMap_singleton]
  rfl

theorem rdropWhile_written (lines : List Bytes) (line : Bytes) :
    (written lines ++ line).rdropWhile (· = 32) = written lines ++ trimmed line := by
  induction line using reverseRecOn with
  | nil =>
    rw [append_nil]
    refine Eq.trans ?_ (append_nil _).symm
    obtain rfl | ⟨before, last, rfl⟩ := eq_nil_or_concat' lines
    · rfl
    · rw [written_concat, ← append_assoc, rdropWhile_concat_neg]
      decide
  | append_singleton line char ih =>
    rw [← append_assoc, trimmed, rdropWhile_concat, rdropWhile_concat]
    split_ifs
    · exact ih
    · exact append_assoc _ _ _

theorem append_of_fits {text piece : Bytes} (failed : Bool)
    (fits : text.length + piece.length ≤ size) :
    append size ⟨text, failed⟩ piece = ⟨text ++ piece, failed⟩ :=
  if_neg (Nat.not_lt.mpr fits)

theorem append_of_wide {text piece : Bytes} (failed : Bool)
    (wide : ¬ text.length + piece.length ≤ size) :
    (append size ⟨text, failed⟩ piece).failed = true := by
  rw [append, if_pos (Nat.not_le.mp wide)]

theorem failed_append {out : TableOut} (failed : out.failed = true) (size : Nat) (piece : Bytes) :
    (out.append size piece).failed = true := by
  rw [append]
  split_ifs
  · rfl
  · exact failed

theorem failed_emitLine {out : TableOut} (failed : out.failed = true) (widths : List Nat)
    (pieces : List Bytes) : (emitLine size widths pieces out).failed = true := by
  induction pieces generalizing widths out with
  | nil => exact failed
  | cons piece pieces ih =>
    have first := failed_append failed size piece
    refine ih ?_ _
    split_ifs
    · exact failed_append first _ _
    · have stripped : (out.append size piece).rstrip.failed = true := first
      exact failed_append stripped _ _

theorem layLine_cons_cons (widths : List Nat) (piece next : Bytes) (pieces : List Bytes) :
    layLine widths (piece :: next :: pieces) =
      piece ++ replicate (widths.headD 0 + 1 - piece.length) 32 ++
        layLine widths.tail (next :: pieces) := rfl

/-- The last piece of a line, which is trimmed then and ended. -/
theorem emitLine_last (lines : List Bytes) (size : Nat) (widths : List Nat) (begun piece : Bytes)
    (failed : Bool) : let last := emitLine size widths [piece] ⟨written lines ++ begun, failed⟩
    if writtenSize lines (begun ++ piece) ≤ size then
      last = ⟨written (lines ++ [begun ++ piece]), failed⟩
    else last.failed = true := by
  intro last
  have used : (written lines ++ begun).length + piece.length =
      trimmedSize lines + (begun ++ piece).length := by
    rw [length_append, length_append, length_written, Nat.add_assoc]
  have need : (written lines ++ trimmed (begun ++ piece)).length + [(10 : UInt8)].length =
      trimmedSize lines + ((trimmed (begun ++ piece)).length + 1) := by
    rw [length_append, length_written]
    rfl
  have room : writtenSize lines (begun ++ piece) ≤ size ↔
      trimmedSize lines + (begun ++ piece).length ≤ size ∧
        trimmedSize lines + ((trimmed (begun ++ piece)).length + 1) ≤ size := by
    rw [writtenSize, ← Nat.add_max_add_left, max_le_iff]
  rw [← used, ← need] at room
  by_cases fits : (written lines ++ begun).length + piece.length ≤ size
  · have ended : last = append size ⟨written lines ++ trimmed (begun ++ piece), failed⟩ [10] := by
      have begin := append_of_fits failed fits
      have stripped := rdropWhile_written lines (begun ++ piece)
      rw [← append_assoc] at stripped
      show append size (rstrip (append size _ _)) [10] = _
      rw [begin, rstrip, stripped]
    rw [ended]
    split_ifs with whole
    · rw [append_of_fits failed (room.mp whole).2, written_concat, append_assoc]
    · exact append_of_wide failed fun end_ => whole (room.mpr ⟨fits, end_⟩)
  · rw [if_neg fun whole => fits (room.mp whole).1]
    have stripped : (append size ⟨written lines ++ begun, failed⟩ piece).rstrip.failed = true :=
      append_of_wide failed fits
    exact failed_append stripped _ _

/-- A line that was begun is finished if it finds room, and otherwise an append fails. -/
theorem emitLine_spec (lines : List Bytes) (size : Nat) {pieces : List Bytes}
    (present : pieces ≠ []) (widths : List Nat) (begun : Bytes) (failed : Bool) :
    let line := begun ++ layLine widths pieces
    let last := emitLine size widths pieces ⟨written lines ++ begun, failed⟩
    if writtenSize lines line ≤ size then last = ⟨written (lines ++ [line]), failed⟩
    else last.failed = true := by
  induction pieces generalizing widths begun with
  | nil => exact absurd rfl present
  | cons piece pieces ih =>
    obtain _ | ⟨next, pieces⟩ := pieces
    · exact emitLine_last lines size widths begun piece failed
    · intro line last
      have padding : ∃ padding : Bytes,
          padding = replicate (widths.headD 0 + 1 - piece.length) 32 := ⟨_, rfl⟩
      obtain ⟨padding, padded⟩ := padding
      have whole : line = begun ++ piece ++ padding ++ layLine widths.tail (next :: pieces) := by
        show begun ++ layLine widths (piece :: next :: pieces) = _
        rw [layLine_cons_cons, padded, append_assoc, append_assoc, append_assoc]
      have step : last = emitLine size widths.tail (next :: pieces)
          ((append size ⟨written lines ++ begun, failed⟩ piece).append size padding) := by
        rw [padded]
        rfl
      -- the line needs the room of its pieces
      have least :
          trimmedSize lines + (begun ++ piece ++ padding).length ≤ writtenSize lines line := by
        have longer : (begun ++ piece ++ padding).length ≤ line.length := by
          rw [whole]
          exact (prefix_append _ _).length_le
        exact Nat.add_le_add_left (longer.trans (le_max_left _ _)) _
      have used : (written lines ++ begun).length + piece.length + padding.length =
          trimmedSize lines + (begun ++ piece ++ padding).length := by
        rw [← length_written, ← length_append, ← length_append, ← length_append,
          append_assoc, append_assoc, append_assoc]
      rw [step]
      by_cases first : (written lines ++ begun).length + piece.length ≤ size
      · by_cases second : (written lines ++ begun ++ piece).length + padding.length ≤ size
        · have rest := ih (cons_ne_nil _ _) widths.tail (begun ++ piece ++ padding)
          rw [append_of_fits failed first, append_of_fits failed second]
          rw [← whole, ← append_assoc, ← append_assoc] at rest
          exact rest
        · rw [append_of_fits failed first, if_neg ?_]
          · exact failed_emitLine (append_of_wide failed second) _ _
          · have more : (written lines ++ begun ++ piece).length =
                (written lines ++ begun).length + piece.length := length_append
            omega
      · rw [if_neg (by omega)]
        exact failed_emitLine (failed_append (append_of_wide failed first) _ _) _ _

/-- Every line finds room behind the lines before it. -/
def LinesFit (size : Nat) (lines : List Bytes) : Prop :=
  ∀ before line after, lines = before ++ line :: after → writtenSize before line ≤ size

theorem linesFit_concat (size : Nat) (lines : List Bytes) (line : Bytes) :
    LinesFit size (lines ++ [line]) ↔ LinesFit size lines ∧ writtenSize lines line ≤ size := by
  refine ⟨fun fits => ⟨fun before other after same => ?_, fits lines line [] rfl⟩, ?_⟩
  · refine fits before other (after ++ [line]) ?_
    rw [same, append_assoc]
    rfl
  · rintro ⟨fits, last⟩ before other after same
    obtain rfl | ⟨front, final, rfl⟩ := eq_nil_or_concat' after
    · obtain ⟨rfl, single⟩ := append_inj' same rfl
      cases single
      exact last
    · rw [← cons_append, ← append_assoc] at same
      exact fits before other front (append_inj' same rfl).1

theorem foldl_emitLine (size : Nat) (widths : List Nat) {pieces : List (List Bytes)}
    (present : ∀ line ∈ pieces, line ≠ []) :
    let lines := pieces.map (layLine widths)
    let last := pieces.foldl (fun out line => emitLine size widths line out) ⟨[], false⟩
    (LinesFit size lines → last = ⟨written lines, false⟩) ∧
      (¬ LinesFit size lines → last.failed = true) := by
  induction pieces using reverseRecOn with
  | nil =>
    have fits : LinesFit size [] := fun before line after same =>
      absurd same.symm (append_ne_nil_of_right_ne_nil _ (cons_ne_nil _ _))
    exact ⟨fun _ => rfl, fun wrong => absurd fits wrong⟩
  | append_singleton pieces line ih =>
    intro lines last
    have earlier := ih fun other mem =>
      present other (mem_append_left _ mem)
    have split : lines = pieces.map (layLine widths) ++ [layLine widths line] := map_append
    have step : last = emitLine size widths line
        (pieces.foldl (fun out line => emitLine size widths line out) ⟨[], false⟩) :=
      foldl_append
    rw [split, step, linesFit_concat]
    by_cases fits : LinesFit size (pieces.map (layLine widths))
    · have spec := emitLine_spec (pieces.map (layLine widths)) size
        (present line (mem_append_right _ (mem_singleton_self line))) widths [] false
      dsimp only at spec
      rw [append_nil, nil_append] at spec
      rw [earlier.1 fits]
      refine ⟨fun both => ?_, fun wrong => ?_⟩
      · rw [if_pos both.2] at spec
        exact spec
      · rw [if_neg fun room => wrong ⟨fits, room⟩] at spec
        exact spec
    · refine ⟨fun both => absurd both.1 fits, fun _ => ?_⟩
      exact failed_emitLine (earlier.2 fits) widths line

theorem dropLast_written (lines : List Bytes) :
    (written lines).dropLast = [10].intercalate (lines.map trimmed) := by
  induction lines with
  | nil => rfl
  | cons line lines ih =>
    show (trimmed line ++ [10] ++ written lines).dropLast = _
    obtain _ | ⟨next, lines⟩ := lines
    · rw [written, flatMap_nil, append_nil, dropLast_concat]
      exact (append_nil _).symm
    · have more : written (next :: lines) ≠ [] := by
        rw [written, flatMap_cons]
        exact append_ne_nil_of_left_ne_nil (concat_ne_nil _ _) _
      rw [dropLast_append_of_ne_nil more, ih]
      exact append_assoc _ _ _

/-! ### The whole table -/

theorem rowPieces_ne_nil {line : List Bytes} (present : row ≠ []) (mem : line ∈ rowPieces row) :
    line ≠ [] := by
  obtain ⟨place, -, rfl⟩ := mem_map.mp mem
  exact fun empty => present (map_eq_nil_iff.mp empty)

/-- `table()` writes the lines of its rows one by one. -/
theorem qwInstrTable_eq (present : rows ≠ []) (positive : 1 ≤ columns) (bounded : columns ≤ 256)
    (equal : ∀ row ∈ rows, row.length = columns) :
    qwInstrTable rows =
      let out := (rows.flatMap rowPieces).foldl
        (fun out line => emitLine (lineSize columns rows * countedLines rows)
          (columnWidths columns rows) line out) ⟨[], false⟩
      .ok { out with text := out.text.dropLast } := by
  obtain ⟨first, rest, rfl⟩ := exists_cons_of_ne_nil present
  have length := equal first mem_cons_self
  have zeros : replicate columns 0 = (range columns).map fun _ => 0 := by
    rw [map_const', length_range]
  have measured := measureRows_eq equal 0 0 fun _ => 0
  have widths : ((range columns).map fun column =>
      max 0 (columnWidth (first :: rest) column)) = columnWidths columns (first :: rest) :=
    map_congr_left fun _ _ => Nat.zero_max _
  have generated : ∀ size out, (first :: rest).foldl
      (fun out row => generateRow size (columnWidths columns (first :: rest)) row out) out =
        ((first :: rest).flatMap rowPieces).foldl
          (fun out line => emitLine size (columnWidths columns (first :: rest)) line out) out := by
    intro size out
    rw [foldl_flatMap]
    refine foldl_ext _ _ _ fun out row mem => ?_
    refine generateRow_eq (length_pos_iff.mp ?_) out
    rw [equal row mem]
    exact positive
  rw [← zeros, widths, Nat.zero_add] at measured
  rw [qwInstrTable]
  dsimp only
  rw [length, if_neg (Nat.ne_of_gt positive), if_neg (Nat.not_lt.mpr bounded), measured]
  show Except.ok _ = _
  dsimp only
  rw [generated]
  rfl

/-- The pieces of a line are no longer than their columns are wide, and then the line is shorter
than the room for one. -/
theorem length_layLine_lt {pieces : List Bytes} (present : pieces ≠ [])
    (narrow : Forall₂ (fun width piece => length piece ≤ width) widths pieces) :
    (layLine widths pieces).length < pieces.length + widths.sum := by
  induction narrow with
  | nil => exact absurd rfl present
  | @cons width piece widths pieces fits narrow ih =>
    obtain _ | ⟨next, pieces⟩ := pieces
    · cases narrow
      exact Nat.lt_of_le_of_lt fits (by simp)
    · have rest := ih (cons_ne_nil _ _)
      rw [layLine_cons_cons, length_append, length_append, length_replicate, sum_cons, length_cons]
      show piece.length + (width + 1 - piece.length) + (layLine widths (next :: pieces)).length < _
      omega

theorem length_tableLines_lt (positive : 1 ≤ columns) (equal : ∀ row ∈ rows, row.length = columns)
    {line : Bytes} (mem : line ∈ tableLines columns rows) :
    line.length < lineSize columns rows := by
  obtain ⟨pieces, inTable, rfl⟩ := mem_map.mp mem
  obtain ⟨row, inRows, inRow⟩ := mem_flatMap.mp inTable
  have length := equal row inRows
  have present := rowPieces_ne_nil (length_pos_iff.mp (by rw [length]; exact positive)) inRow
  obtain ⟨place, -, rfl⟩ := mem_map.mp inRow
  have same : (row.map fun cell => (cellLines cell).getD place []).length = columns := by
    rw [length_map, length]
  refine (length_layLine_lt present ?_).trans_eq (by rw [same, lineSize])
  refine forall₂_iff_get.mpr ⟨?_, fun column inWidths inPieces => ?_⟩
  · rw [same, columnWidths, length_map, length_range]
  · have bound : column < row.length := by
      rw [length_map] at inPieces
      exact inPieces
    have width : (columnWidths columns rows).get ⟨column, inWidths⟩ = columnWidth rows column := by
      simp only [columnWidths, get_eq_getElem, getElem_map, getElem_range]
    rw [width, get_eq_getElem, getElem_map, columnWidth]
    by_cases there : place < (cellLines row[column]).length
    · rw [← getElem_eq_getD (h := there)]
      refine le_foldr_max (mem_map_of_mem (mem_flatMap.mpr ⟨row, inRows, ?_⟩))
      rw [← getElem_eq_getD (h := bound)]
      exact getElem_mem there
    · rw [getD_eq_default _ _ (Nat.not_lt.mp there)]
      exact Nat.zero_le _

theorem trimmedSize_le {lines : List Bytes} (short : ∀ line ∈ lines, line.length < size) :
    trimmedSize lines ≤ lines.length * size := by
  induction lines with
  | nil => exact Nat.zero_le _
  | cons line lines ih =>
    have rest := ih fun other mem => short other (.tail _ mem)
    have first := ( rdropWhile_prefix (· = 32) line).length_le.trans_lt (short line mem_cons_self)
    rw [length_cons, Nat.succ_mul, Nat.add_comm]
    exact Nat.add_le_add first rest

theorem writtenSize_le {before : List Bytes} {line : Bytes}
    (short : ∀ other ∈ before ++ [line], other.length < size) :
    writtenSize before line ≤ (before.length + 1) * size := by
  have earlier := trimmedSize_le fun other mem => short other (mem_append_left _ mem)
  have last := short line (mem_append_right _ (mem_singleton_self line))
  rw [writtenSize, Nat.succ_mul]
  refine Nat.add_le_add earlier (max_le last.le ?_)
  exact ( rdropWhile_prefix _ line).length_le.trans_lt last

theorem linesFit_of_length (positive : 1 ≤ columns) (equal : ∀ row ∈ rows, row.length = columns)
    {count : Nat} (enough : (tableLines columns rows).length ≤ count) :
    LinesFit (lineSize columns rows * count) (tableLines columns rows) := by
  intro before line after same
  have short : ∀ other ∈ before ++ [line], other.length < lineSize columns rows := by
    intro other mem
    refine length_tableLines_lt positive equal ?_
    rw [same, ← singleton_append, ← append_assoc]
    exact mem_append_left _ mem
  refine (writtenSize_le short).trans ?_
  rw [Nat.mul_comm]
  refine Nat.mul_le_mul_left _ (le_trans ?_ enough)
  rw [same, length_append, length_cons]
  omega

/-- A table arrives without a failing append exactly if its lines, of which an empty one behind the
last newline of a cell does not count for the room, all find room. -/
theorem table_right_iff {columns : Nat} {rows : List (List Bytes)} (present : rows ≠ [])
    (positive : 1 ≤ columns) (bounded : columns ≤ 256)
    (equal : ∀ row ∈ rows, row.length = columns) :
    qwInstrTable rows = .ok ⟨tableText columns rows, false⟩ ↔
      ∀ before line after, tableLines columns rows = before ++ line :: after →
        writtenSize before line ≤ lineSize columns rows * countedLines rows := by
  have nonempty : ∀ line ∈ rows.flatMap rowPieces, line ≠ [] := by
    intro line mem
    obtain ⟨row, inRows, inRow⟩ := mem_flatMap.mp mem
    refine rowPieces_ne_nil (length_pos_iff.mp ?_) inRow
    rw [equal row inRows]
    exact positive
  obtain ⟨right, wrong⟩ := foldl_emitLine (lineSize columns rows * countedLines rows)
    (columnWidths columns rows) nonempty
  rw [qwInstrTable_eq present positive bounded equal]
  refine ⟨fun same => ?_, fun fits => ?_⟩
  · by_contra overfull
    have failed := congrArg failed (Except.ok.inj same)
    rw [wrong overfull] at failed
    exact Bool.noConfusion failed
  · dsimp only
    rw [right fits, tableText, ← dropLast_written]
    rfl

theorem table_right_aligned :
    qwInstrTable [[ascii "a", ascii "b"], [ascii "ccc\n", ascii "d\ne "]] =
      .ok ⟨tableText 2 [[ascii "a", ascii "b"], [ascii "ccc\n", ascii "d\ne "]], false⟩ := by
  refine (table_right_iff (cons_ne_nil _ _) (by decide) (by decide) (by decide)).mpr ?_
  exact linesFit_of_length (by decide) (by decide) (by decide +kernel)

/-- A cell that ends with a newline loses its last line. -/
theorem table_right_newline :
    qwInstrTable [[ascii "a\n"]] = .ok ⟨ascii "a", true⟩ ∧
      tableText 1 [[ascii "a\n"]] = ascii "a\n" := by
  decide +kernel

end Splintermail
