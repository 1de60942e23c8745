/-
This file proves what the loop of `get_multipart_index` finds.

The loop is read as a scan for marks, which are the places where a line begins that looks like
a boundary, and a choice from the list of marks. Where a target is found the loop jumps over
the boundary; there is no line ending in it, so no mark is lost.
-/

import Mathlib.Data.List.Infix
import Mathlib.Data.List.Sort
import Splintermail.Imf.Multipart

namespace Splintermail

open List

/-! ### Marks -/

section Marks

variable (eol hit : Nat → Bool) (fin : Nat)

/-- The marks from a place on, with the flag that a line ending is right before it. -/
def marks (inLineEnding : Bool) (i : Nat) : List Nat :=
  if i < fin then
    if eol i then marks true (i + 1)
    else if inLineEnding && hit i then i :: marks false (i + 1)
    else marks false (i + 1)
  else []
  termination_by fin - i

variable {eol hit fin} {i : Nat} {flag : Bool}

theorem marks_end (done : ¬ i < fin) : marks eol hit fin flag i = [] := by
  rw [marks, if_neg done]

theorem marks_eol (more : i < fin) (ends : eol i = true) :
    marks eol hit fin flag i = marks eol hit fin true (i + 1) := by
  rw [marks, if_pos more, if_pos ends]

theorem marks_hit (more : i < fin) (plain : ¬ eol i = true) (matched : hit i = true) :
    marks eol hit fin true i = i :: marks eol hit fin false (i + 1) := by
  rw [marks, if_pos more, if_neg plain, matched]
  rfl

theorem marks_apart (more : i < fin) (plain : ¬ eol i = true) (apart : (flag && hit i) = false) :
    marks eol hit fin flag i = marks eol hit fin false (i + 1) := by
  rw [marks, if_pos more, if_neg plain, apart]
  rfl

theorem mem_marks {inLineEnding : Bool} {place : Nat} :
    place ∈ marks eol hit fin inLineEnding i ↔
      (i ≤ place ∧ place < fin) ∧
        (place = i ∧ inLineEnding = true ∨ i < place ∧ eol (place - 1) = true) ∧
        eol place = false ∧ hit place = true := by
  fun_induction marks eol hit fin inLineEnding i with
  | case1 flag i more ends ih =>
    rw [ih]
    by_cases here : place = i
    · subst here
      simp [ends]
    · by_cases next : place = i + 1
      · subst next
        simp [ends]
      · grind
  | case2 flag i more ends matched ih =>
    obtain ⟨rfl, matched⟩ := Bool.and_eq_true_iff.mp matched
    rw [mem_cons, ih]
    by_cases here : place = i
    · subst here
      simp_all
    · by_cases next : place = i + 1
      · subst next
        simp_all
      · grind
  | case3 flag i more ends apart ih =>
    rw [ih]
    by_cases here : place = i
    · subst here
      grind
    · by_cases next : place = i + 1
      · subst next
        simp_all
      · grind
  | case4 flag i done =>
    simp
    omega

theorem pairwise_marks (inLineEnding : Bool) (i : Nat) :
    (marks eol hit fin inLineEnding i).Pairwise (· < ·) := by
  fun_induction marks eol hit fin inLineEnding i with
  | case1 flag i more ends ih => exact ih
  | case2 flag i more ends matched ih =>
    exact pairwise_cons.mpr ⟨fun place mem => (mem_marks.mp mem).1.1, ih⟩
  | case3 flag i more ends apart ih => exact ih
  | case4 flag i done => exact List.Pairwise.nil

theorem length_marks_le (inLineEnding : Bool) (i : Nat) :
    (marks eol hit fin inLineEnding i).length ≤ fin - i := by
  fun_induction marks eol hit fin inLineEnding i with
  | case1 flag i more ends ih => omega
  | case2 flag i more ends matched ih =>
    rw [length_cons]
    omega
  | case3 flag i more ends apart ih => omega
  | case4 flag i done => exact Nat.zero_le _

theorem marks_skip {j : Nat} (forward : i ≤ j)
    (plain : ∀ place, i ≤ place → place < j → place < fin → eol place = false) :
    marks eol hit fin false i = marks eol hit fin false j := by
  induction j, forward using Nat.le_induction with
  | base => rfl
  | succ j forward ih =>
    rw [ih fun place low high => plain place low (Nat.lt_succ_of_lt high)]
    conv_lhs => rw [marks]
    split
    · next more => simp [plain j forward (Nat.lt_succ_self j) more]
    · next done =>
      rw [marks, if_neg (by omega)]

theorem marks_restart {inLineEnding : Bool} {front back : List Nat} {place : Nat}
    (split : marks eol hit fin inLineEnding i = front ++ place :: back) :
    marks eol hit fin true place = place :: back := by
  fun_induction marks eol hit fin inLineEnding i generalizing front with
  | case1 flag i more ends ih => exact ih split
  | case2 flag i more ends matched ih =>
    cases front with
    | nil =>
      obtain ⟨rfl, rfl⟩ := cons_eq_cons.mp split
      obtain ⟨-, matched⟩ := Bool.and_eq_true_iff.mp matched
      rw [marks, if_pos more, if_neg ends, if_pos (by rw [matched]; rfl)]
    | cons first front =>
      exact ih (cons_eq_cons.mp split).2
  | case3 flag i more ends apart ih => exact ih split
  | case4 flag i done => simp at split

end Marks

/-! ### The choice -/

/-- The mark with a number among those before the first final one, and the mark after it. -/
def pick (final : Nat → Bool) : Nat → List Nat → Option (Nat × Nat)
  | _, [] => none
  | index, place :: rest =>
    if final place then none
    else if index - 1 > 0 then pick final (index - 1) rest
    else rest.head?.map (place, ·)

section Choice

variable {final other : Nat → Bool} {index : Nat} {places : List Nat}

theorem pick_eq (positive : 0 < index) : pick final index places = do
      let first ← (places.takeWhile fun place => final place = false)[index - 1]?
      let second ← places[index]?
      return (first, second) := by
  induction places generalizing index with
  | nil => simp [pick]
  | cons place rest ih =>
    rw [pick]
    cases ends : final place with
    | true => simp [ends]
    | false =>
      obtain ⟨index, rfl⟩ := Nat.exists_eq_succ_of_ne_zero positive.ne'
      cases index with
      | zero => cases rest <;> simp [ends]
      | succ index =>
        have next : index + 1 + 1 - 1 = index + 1 := rfl
        rw [if_neg Bool.false_ne_true, next, if_pos (Nat.succ_pos index), ih (Nat.succ_pos index)]
        simp [ends]

theorem pick_spec {first second : Nat} (found : pick final index places = some (first, second)) :
    ∃ front back, places = front ++ first :: second :: back ∧ final first = false := by
  induction places generalizing index with
  | nil => cases found
  | cons place rest ih =>
    rw [pick] at found
    split at found
    · cases found
    · next notFinal =>
      split at found
      · obtain ⟨front, back, rfl, ends⟩ := ih found
        exact ⟨place :: front, back, rfl, ends⟩
      · cases rest with
        | nil => cases found
        | cons next back =>
          cases found
          exact ⟨[], back, rfl, Bool.eq_false_iff.mpr notFinal⟩

/-- Whether the last mark is final makes no difference. -/
theorem pick_congr (same : ∀ place ∈ places.dropLast, final place = other place) :
    pick final index places = pick other index places := by
  induction places generalizing index with
  | nil => rfl
  | cons place rest ih =>
    cases rest with
    | nil =>
      rw [pick, pick]
      split_ifs <;> simp [pick]
    | cons next back =>
      rw [dropLast_cons_cons] at same
      have later := @ih (index - 1) fun later mem => same later (.tail _ mem)
      rw [pick.eq_2 final, pick.eq_2 other, same place mem_cons_self, later]

theorem pick_append {later : List Nat} (ended : ∃ place ∈ places, final place = true) :
    pick final index (places ++ later) = pick final index places := by
  induction places generalizing index with
  | nil =>
    obtain ⟨place, mem, -⟩ := ended
    cases mem
  | cons place rest ih =>
    rw [cons_append, pick, pick]
    cases ends : final place with
    | true => rfl
    | false =>
      obtain ⟨last, mem, lastEnds⟩ := ended
      rcases mem_cons.mp mem with rfl | inRest
      · rw [ends] at lastEnds
        cases lastEnds
      · rw [ih ⟨last, inRest, lastEnds⟩]
        cases rest with
        | nil => cases inRest
        | cons next back => rfl

theorem pick_last {last : Nat} (nonempty : places ≠ [])
    (open' : ∀ place ∈ places, final place = false) :
    pick final places.length (places ++ [last]) = some (places.getLast nonempty, last) := by
  induction places with
  | nil => exact absurd rfl nonempty
  | cons place rest ih =>
    rw [cons_append, pick, open' place mem_cons_self, if_neg Bool.false_ne_true]
    cases rest with
    | nil => rfl
    | cons next back =>
      have more : 0 < (place :: next :: back).length - 1 := Nat.succ_pos _
      rw [if_pos more, getLast_cons (cons_ne_nil next back)]
      exact ih (cons_ne_nil next back) fun later mem => open' later (.tail _ mem)

theorem pick_length (final : Nat → Bool) (places : List Nat) :
    pick final places.length places = none := by
  cases found : pick final places.length places with
  | none => rfl
  | some pair =>
    rcases Nat.eq_zero_or_pos places.length with empty | positive
    · rw [length_eq_zero_iff.mp empty] at found
      cases found
    · rw [pick_eq positive, getElem?_eq_none (le_refl places.length)] at found
      cases first : (places.takeWhile fun place => final place = false)[places.length - 1]? <;>
        simp at found

theorem pick_map (place : Nat → Nat) :
    pick final index (places.map place) =
      (pick (fun i => final (place i)) index places).map (Prod.map place place) := by
  induction places generalizing index with
  | nil => rfl
  | cons first rest ih =>
    rw [map_cons, pick, pick, ih]
    split_ifs
    · rfl
    · rfl
    · cases rest <;> rfl

end Choice

/-! ### The loop -/

section Loop

variable {buf boundary : Bytes} {fin : Nat}

/-- The line endings of a buffer. -/
def eolAt (buf : Bytes) (i : Nat) : Bool := isEol (buf.getD i 0)

theorem scanLines_inTgt (scan : LineScan) (target : scan.inTgt = true) :
    scanLines buf boundary fin scan =
      (marks (eolAt buf) (matchesBoundary buf boundary) fin scan.inLineEnding scan.i).head?.map
        (scan.tgtstart, ·) := by
  fun_induction scanLines buf boundary fin scan with
  | case1 scan more ends ih =>
    rw [ih target, @marks_eol (eolAt buf) _ _ _ _ more ends]
  | case2 scan more plain inside ih =>
    rw [ih target, @marks_apart (eolAt buf) _ _ _ _ more plain (by rw [inside]; rfl)]
    rw [inside]
  | case3 scan more plain begins apart ih =>
    rw [ih target, @marks_apart (eolAt buf) _ _ _ _ more plain (by rw [apart, Bool.and_false])]
  | case4 scan more plain begins matched _ =>
    rw [eq_true_of_ne_false begins,
      @marks_hit (eolAt buf) _ _ _ more plain (eq_true_of_ne_false matched)]
    rfl
  | case5 | case6 | case7 => simp_all
  | case8 scan done => rw [marks_end done]; rfl

/-- What compares equal with a pattern is the pattern, as far as the buffer goes. -/
theorem prefix_of_cmpChars {pattern : Bytes} {i : Nat}
    (equal : cmpChars (dstrSub2 buf i (i + pattern.length)) pattern = 0) :
    dstrSub2 buf i (i + pattern.length) <+: pattern := by
  have short : (dstrSub2 buf i (i + pattern.length)).length ≤ pattern.length := by
    rw [dstrSub2, length_drop, length_take]
    omega
  rcases cmpChars_eq_zero.mp equal with same | before | longer
  · rw [same]
  · exact (prefix_append _ _).trans before
  · have more := longer.length_le
    rw [length_append, length_singleton] at more
    omega

theorem getD_mem_dstrSub2 {i j place : Nat} (low : i ≤ place) (high : place < j)
    (inside : place < buf.length) : buf.getD place 0 ∈ dstrSub2 buf i j := by
  refine mem_iff_getElem?.mpr ⟨place - i, ?_⟩
  rw [dstrSub2, getElem?_drop, Nat.add_sub_cancel' low, getElem?_take_of_lt high,
    getD_eq_getElem?_getD, getElem?_eq_getElem inside]
  rfl

theorem isEol_dashes : ∀ char ∈ ascii "--", isEol char = false := by decide +kernel

/-- There is no line ending in what looks like a boundary. -/
theorem eolAt_of_matches (plain : ∀ char ∈ boundary, isEol char = false) {i place : Nat}
    (matched : matchesBoundary buf boundary i = true) (low : i ≤ place)
    (high : place < i + 2 + boundary.length) (inside : place < buf.length) :
    eolAt buf place = false := by
  obtain ⟨dashes, same⟩ := Bool.and_eq_true_iff.mp matched
  rcases Nat.lt_or_ge place (i + 2) with first | second
  · have among := (@prefix_of_cmpChars _ (ascii "--") _ (of_decide_eq_true dashes)).subset
      (getD_mem_dstrSub2 low first inside)
    exact isEol_dashes _ among
  · exact plain _ ((prefix_of_cmpChars (of_decide_eq_true same)).subset
      (getD_mem_dstrSub2 second high inside))

theorem scanLines_eq (plain : ∀ char ∈ boundary, isEol char = false) (bound : fin ≤ buf.length)
    (scan : LineScan) (searching : scan.inTgt = false) :
    scanLines buf boundary fin scan =
      (pick (endsBoundary buf boundary) scan.index
        (marks (eolAt buf) (matchesBoundary buf boundary) fin scan.inLineEnding scan.i)).map
          fun found => (found.1 + 2 + boundary.length, found.2) := by
  fun_induction scanLines buf boundary fin scan with
  | case1 scan more ends ih =>
    rw [ih searching, @marks_eol (eolAt buf) _ _ _ _ more ends]
  | case2 scan more plain inside ih =>
    rw [ih searching, @marks_apart (eolAt buf) _ _ _ _ more plain (by rw [inside]; rfl), inside]
  | case3 scan more plain begins apart ih =>
    rw [ih searching, @marks_apart (eolAt buf) _ _ _ _ more plain (by rw [apart, Bool.and_false])]
  | case4 scan more plain begins matched target =>
    rw [searching] at target
    cases target
  | case5 scan more noEol begins matched open' ends =>
    rw [eq_true_of_ne_false begins,
      @marks_hit (eolAt buf) _ _ _ more noEol (eq_true_of_ne_false matched), pick, if_pos ends]
    rfl
  | case6 scan more noEol begins matched open' ends counts ih =>
    rw [eq_true_of_ne_false begins, ih searching,
      @marks_hit (eolAt buf) _ _ _ more noEol (eq_true_of_ne_false matched), pick, if_neg ends,
      if_pos counts]
  | case7 scan more noEol begins matched open' ends counts _ =>
    rw [eq_true_of_ne_false begins, scanLines_inTgt _ rfl,
      @marks_hit (eolAt buf) _ _ _ more noEol (eq_true_of_ne_false matched), pick, if_neg ends,
      if_neg counts]
    dsimp only
    rw [@marks_skip (eolAt buf) _ _ (scan.i + 1) (scan.i + 2 + boundary.length) (by omega)
      fun place low high inside => eolAt_of_matches plain (eq_true_of_ne_false matched)
        (by omega) high (by omega)]
    cases marks (eolAt buf) (matchesBoundary buf boundary) fin false
      (scan.i + 2 + boundary.length) <;> rfl
  | case8 scan done => rw [marks_end done]; rfl

end Loop

end Splintermail
