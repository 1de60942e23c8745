/-
This file is the theory of a walk through two sorted lists that looks for
mismatches.

At each step the walk compares the first elements of what is left of the two
lists, passes over both where they are equal, and reports and passes over the
lesser one where they are not. The elements are paired off in this way, so an
element is reported as often as one list has it more often than the other.
-/

import Mathlib.Data.List.Count
import Mathlib.Data.List.Sort
import Mathlib.Order.Defs.LinearOrder

namespace Splintermail

open List

/-- What the walk finds: an element that only the old list has, or only the new one. -/
inductive Mismatch (α : Type) where
  | gone (element : α)
  | fresh (element : α)
  deriving DecidableEq

namespace Mismatch

variable {α : Type} [LinearOrder α]

/-- The walk through an old and a new list. -/
def walk : List α → List α → List (Mismatch α)
  | [], news => news.map fresh
  | old :: olds, [] => gone old :: walk olds []
  | old :: olds, new :: news =>
    if old = new then walk olds news
    else if old < new then gone old :: walk olds (new :: news)
    else fresh new :: walk (old :: olds) news
termination_by olds news => olds.length + news.length

theorem count_map_fresh_gone (news : List α) (element : α) :
    (news.map fresh).count (gone element) = 0 :=
  count_eq_zero.mpr fun among => by simp at among

theorem count_map_fresh (news : List α) (element : α) :
    (news.map fresh).count (fresh element) = news.count element :=
  count_map_of_injective news fresh (fun _ _ => fresh.inj) element

theorem count_gone_fresh_cons (element new : α) (found : List (Mismatch α)) :
    (fresh new :: found).count (gone element) = found.count (gone element) :=
  count_cons_of_ne (fun same => by cases same)

theorem count_fresh_gone_cons (element old : α) (found : List (Mismatch α)) :
    (gone old :: found).count (fresh element) = found.count (fresh element) :=
  count_cons_of_ne (fun same => by cases same)

theorem count_eq_zero_of_lt {element least : α} {others : List α}
    (sorted : (least :: others).Pairwise (· ≤ ·)) (lt : element < least) :
    (least :: others).count element = 0 := by
  refine count_eq_zero.mpr fun among => ?_
  rcases mem_cons.mp among with same | later
  · exact lt.ne same
  · exact absurd ((pairwise_cons.mp sorted).1 element later) (not_le.mpr lt)

section

variable {olds : List α} (sortedOld : olds.Pairwise (· ≤ ·))

include sortedOld

theorem count_walk_gone {news : List α} (sortedNew : news.Pairwise (· ≤ ·)) (element : α) :
    (walk olds news).count (gone element) = olds.count element - news.count element := by
  fun_induction walk olds news with
  | case1 news => simp [count_map_fresh_gone]
  | case2 old olds ih =>
    rw [count_cons, ih sortedOld.of_cons sortedNew]
    simp [count_cons]
  | case3 olds new news ih =>
    rw [ih sortedOld.of_cons sortedNew.of_cons, count_cons, count_cons]
    omega
  | case4 old olds new news apart lt ih =>
    rw [count_cons, ih sortedOld.of_cons sortedNew, @count_cons _ _ _ old]
    by_cases same : old = element
    · subst same
      simp [count_eq_zero_of_lt sortedNew lt]
    · simp [same]
  | case5 old olds new news apart order ih =>
    have lt : new < old := lt_of_le_of_ne (not_lt.mp order) (Ne.symm apart)
    rw [count_gone_fresh_cons, ih sortedOld sortedNew.of_cons]
    by_cases same : new = element
    · subst same
      simp [count_eq_zero_of_lt sortedOld lt]
    · rw [count_cons_of_ne same]

theorem count_walk_fresh {news : List α} (sortedNew : news.Pairwise (· ≤ ·)) (element : α) :
    (walk olds news).count (fresh element) = news.count element - olds.count element := by
  fun_induction walk olds news with
  | case1 news => simp [count_map_fresh]
  | case2 old olds ih =>
    rw [count_fresh_gone_cons, ih sortedOld.of_cons sortedNew]
    simp
  | case3 olds new news ih =>
    rw [ih sortedOld.of_cons sortedNew.of_cons, count_cons, count_cons]
    omega
  | case4 old olds new news apart lt ih =>
    rw [count_fresh_gone_cons, ih sortedOld.of_cons sortedNew]
    by_cases same : old = element
    · subst same
      simp [count_eq_zero_of_lt sortedNew lt]
    · rw [count_cons_of_ne same]
  | case5 old olds new news apart order ih =>
    have lt : new < old := lt_of_le_of_ne (not_lt.mp order) (Ne.symm apart)
    rw [count_cons, ih sortedOld sortedNew.of_cons, @count_cons _ _ _ new]
    by_cases same : new = element
    · subst same
      simp [count_eq_zero_of_lt sortedOld lt]
    · simp [same]

/-- Where the lists agree below an element that only the new list has, the walk reports that element
first. -/
theorem walk_first {news : List α} (sortedNew : news.Pairwise (· ≤ ·)) {element : α}
    (among : element ∈ news) (unknown : element ∉ olds)
    (below : ∀ lesser, lesser < element → olds.count lesser = news.count lesser) :
    ∃ rest, walk olds news = fresh element :: rest := by
  fun_induction walk olds news with
  | case1 news =>
    cases news with
    | nil => cases among
    | cons new news =>
      rcases mem_cons.mp among with rfl | later
      · exact ⟨_, rfl⟩
      · rcases ((pairwise_cons.mp sortedNew).1 element later).lt_or_eq with lt | rfl
        · have none := below new lt
          simp at none
        · exact ⟨_, rfl⟩
  | case2 old olds => cases among
  | case3 olds new news ih =>
    have apart : element ≠ new := fun same => unknown (same ▸ mem_cons_self)
    refine ih sortedOld.of_cons sortedNew.of_cons
      (mem_of_ne_of_mem apart among) (fun mem => unknown (.tail _ mem)) ?_
    intro lesser lt
    have counts := below lesser lt
    rw [count_cons, count_cons] at counts
    exact Nat.add_right_cancel counts
  | case4 old olds new news apart lt ih =>
    have least : new ≤ element := by
      rcases mem_cons.mp among with rfl | later
      · exact le_refl _
      · exact (pairwise_cons.mp sortedNew).1 element later
    have counts := below old (lt.trans_le least)
    rw [count_eq_zero_of_lt sortedNew lt, count_cons_self] at counts
    cases counts
  | case5 old olds new news apart order ih =>
    have lt : new < old := lt_of_le_of_ne (not_lt.mp order) (Ne.symm apart)
    rcases mem_cons.mp among with rfl | later
    · exact ⟨_, rfl⟩
    · rcases ((pairwise_cons.mp sortedNew).1 element later).lt_or_eq with less | rfl
      · have counts := below new less
        rw [count_eq_zero_of_lt sortedOld lt, count_cons_self] at counts
        cases counts
      · exact ⟨_, rfl⟩

end

/-! ### Following the walk -/

/-- A copy of the old list that follows what is reported. -/
def follow (held : List α) : Mismatch α → List α
  | gone element => held.erase element
  | fresh element => held ++ [element]

/-- Whatever the order of the lists, one that follows the walk from the old list becomes the new one,
next to what it has beside the old list. -/
theorem foldl_follow_append {olds news held beside : List α} (same : held.Perm (olds ++ beside)) :
    ((walk olds news).foldl follow held).Perm (news ++ beside) := by
  fun_induction walk olds news generalizing held beside with
  | case1 news =>
    induction news generalizing held beside with
    | nil => exact same
    | cons new news ih =>
      refine (@ih (held ++ [new]) (new :: beside) ?_).trans perm_middle
      exact perm_append_singleton _ _ |>.trans (same.cons new)
  | case2 old olds ih =>
    refine ih ?_
    exact (same.erase old).trans (by rw [cons_append, erase_cons_head])
  | case3 olds new news ih =>
    exact (ih (same.trans perm_middle.symm)).trans perm_middle
  | case4 old olds new news apart lt ih =>
    refine ih ?_
    exact (same.erase old).trans (by rw [cons_append, erase_cons_head])
  | case5 old olds new news apart order ih =>
    refine (@ih (held ++ [new]) (new :: beside) ?_).trans perm_middle
    exact (perm_append_singleton _ _).trans ((same.cons new).trans perm_middle.symm)

theorem foldl_follow {olds news held : List α} (same : held.Perm olds) :
    ((walk olds news).foldl follow held).Perm news := by
  have followed := @foldl_follow_append _ _ olds news held [] (by rwa [append_nil])
  rwa [append_nil] at followed

end Mismatch

end Splintermail
