/-
This file is about `seq_set_builder_extract` on a builder with ranges.

The ranges are joined in the order of their first numbers. The end of the range that grows
is set to that of the next one that touches it, also if this is a lower one, and nothing
touches a range that ends with the largest number. So numbers are lost, or ranges overlap,
unless each range that is not joined with the next one has the highest end so far.
-/

import Splintermail.Imap.SeqSet
import Splintermail.Lib.ATree

namespace Splintermail

open List IeSeqRange

/-- The numbers of a range. -/
def IeSeqRange.Holds (range : IeSeqRange) (n : Nat) : Prop := range.n1 ≤ n ∧ n ≤ range.n2

/-- Calls of `seq_set_builder_add_range`, where `seq_set_builder_add_val` gives a number twice. -/
def seqSetBuilderAddAll (added : List (Nat × Nat)) : Except Derr (List IeSeqRange) :=
  added.foldlM (fun builder pair => seqSetBuilderAddRange builder pair.1 pair.2) []

/-- A number that may be added. -/
def IsUid (n : Nat) : Prop := 1 ≤ n ∧ n ≤ uintMax

/-- The numbers between the ends that were added, which may be reversed. -/
def Added (added : List (Nat × Nat)) (n : Nat) : Prop :=
  ∃ pair ∈ added, min pair.1 pair.2 ≤ n ∧ n ≤ max pair.1 pair.2

/-- The set has the numbers that were added, in ascending ranges with gaps between them. -/
structure Joins (set : IeSeqSet) (numbers : Nat → Prop) : Prop where
  same : ∀ n, (∃ range ∈ set, range.Holds n) ↔ numbers n
  apart : set.Pairwise fun first second => first.n2 + 1 < second.n1

/-- Ranges after one that ends at `high`, where others ended at `highest`: each that the next one
does not touch, and the last one, has the highest end so far, and only the last one may end with
the largest number. -/
def EndsRightFrom (highest high : Nat) : List IeSeqRange → Prop
  | [] => highest ≤ high
  | next :: rest =>
    (next.n1 ≤ uintSucc high ∨ (highest ≤ high ∧ high < uintMax)) ∧
      EndsRightFrom (max highest high) next.n2 rest

/-- `EndsRightFrom` of the ranges of a builder. -/
def EndsRight : List IeSeqRange → Prop
  | [] => True
  | range :: rest => EndsRightFrom 0 range.n2 rest

/-! ### The builder -/

/-- The ranges of the builder have their ends in order. -/
def Builds (builder : List IeSeqRange) : Prop :=
  Tree.WeakSorted n1 builder ∧
    ∀ range ∈ builder, 1 ≤ range.n1 ∧ range.n1 ≤ range.n2 ∧ range.n2 ≤ uintMax

theorem seqSetBuilderAddAll_eq {added : List (Nat × Nat)}
    (valid : ∀ pair ∈ added, IsUid pair.1 ∧ IsUid pair.2) :
    ∃ builder, seqSetBuilderAddAll added = .ok builder ∧ Builds builder ∧
      ∀ n, (∃ range ∈ builder, range.Holds n) ↔ Added added n := by
  induction added using List.reverseRecOn with
  | nil => exact ⟨[], rfl, ⟨List.Pairwise.nil, nofun⟩, fun n => by simp [Added]⟩
  | append_singleton front pair ih =>
    obtain ⟨builder, adds, ⟨sorted, fits⟩, members⟩ := ih fun other mem =>
      valid other (mem_append_left _ mem)
    obtain ⟨first, second⟩ := valid pair (mem_append_right _ (mem_singleton_self pair))
    unfold IsUid at first second
    have nonzero : ¬(pair.1 = 0 ∨ pair.2 = 0) := by omega
    refine ⟨Tree.insert n1 ⟨min pair.1 pair.2, max pair.1 pair.2⟩ builder, ?_,
      ⟨ATree.weakSorted_insert sorted, fun range mem => ?_⟩, fun n => ?_⟩
    · unfold seqSetBuilderAddAll at adds ⊢
      rw [foldlM_append, adds]
      show (seqSetBuilderAddRange builder pair.1 pair.2 >>= pure) = _
      rw [seqSetBuilderAddRange, if_neg nonzero]
      rfl
    · rcases Tree.mem_insert.mp mem with rfl | old
      · dsimp only
        omega
      · exact fits range old
    · have before : (∃ range ∈ builder, range.Holds n) ↔ Added front n := members n
      simp only [Tree.mem_insert, before, Added, mem_append,
        mem_singleton, or_and_right, exists_or, exists_eq_left]
      exact or_comm

/-! ### Extraction -/

theorem extractLoop_head (cur : IeSeqRange) (rest : List IeSeqRange) :
    ∃ last more, seqSetBuilderExtractLoop cur rest = ⟨cur.n1, last⟩ :: more := by
  induction rest generalizing cur with
  | nil => exact ⟨cur.n2, [], rfl⟩
  | cons next rest ih =>
    unfold seqSetBuilderExtractLoop
    split
    · exact ih { cur with n2 := next.n2 }
    · exact ⟨cur.n2, _, rfl⟩

theorem le_of_mem_extractLoop {cur range : IeSeqRange} {rest : List IeSeqRange}
    (sorted : Tree.WeakSorted n1 (cur :: rest))
    (mem : range ∈ seqSetBuilderExtractLoop cur rest) : cur.n1 ≤ range.n1 := by
  induction rest generalizing cur with
  | nil => rw [mem_singleton.mp mem]
  | cons next rest ih =>
    obtain ⟨above, restSorted⟩ := pairwise_cons.mp sorted
    unfold seqSetBuilderExtractLoop at mem
    split at mem
    · refine @ih { cur with n2 := next.n2 } ?_ mem
      exact pairwise_cons.mpr ⟨fun other inRest => above other (.tail _ inRest),
        (pairwise_cons.mp restSorted).2⟩
    · rcases mem_cons.mp mem with rfl | later
      · exact le_rfl
      · exact (above next mem_cons_self).trans (ih restSorted later)

/-- The loop, when the ranges so far have the numbers from `low` up to the highest end. -/
theorem joins_extractLoop_iff {low high highest : Nat} {rest : List IeSeqRange}
    (sorted : Tree.WeakSorted n1 (⟨low, high⟩ :: rest)) (ordered : low ≤ high)
    (fits : high ≤ uintMax) (restFits : ∀ range ∈ rest, range.n1 ≤ range.n2 ∧ range.n2 ≤ uintMax)
    (positive : ∀ range ∈ rest, 1 ≤ range.n1) :
    Joins (seqSetBuilderExtractLoop ⟨low, high⟩ rest)
        (fun n => (low ≤ n ∧ n ≤ max highest high) ∨ ∃ range ∈ rest, range.Holds n) ↔
      EndsRightFrom highest high rest := by
  induction rest generalizing low high highest with
  | nil =>
    refine ⟨fun joins => ?_, fun last => ⟨fun n => ?_, pairwise_singleton _ _⟩⟩
    · obtain ⟨range, mem, holds⟩ := (joins.same (max highest high)).mpr (.inl ⟨by omega, le_rfl⟩)
      rw [mem_singleton.mp mem] at holds
      exact (le_max_left _ _).trans holds.2
    · have top : max highest high = high := max_eq_right last
      simp [seqSetBuilderExtractLoop, IeSeqRange.Holds, top]
  | cons next rest ih =>
    obtain ⟨above, restSorted⟩ := pairwise_cons.mp sorted
    have behind : low ≤ next.n1 := above next mem_cons_self
    obtain ⟨nextOrdered, nextFits⟩ := restFits next mem_cons_self
    have nextPositive := positive next mem_cons_self
    have later := fun range mem => restFits range (.tail next mem)
    have laterPositive := fun range mem => positive range (.tail next mem)
    unfold seqSetBuilderExtractLoop EndsRightFrom
    by_cases touch : next.n1 ≤ uintSucc high
    · -- The range grows, or shrinks, to the end of the next one.
      have below : high < uintMax := by
        refine lt_of_le_of_ne fits fun last => ?_
        rw [last, show uintSucc uintMax = 0 from Nat.mod_self _] at touch
        omega
      have near := touch
      rw [uintSucc_of_lt below] at near
      rw [if_pos touch, and_iff_right (Or.inl touch)]
      have grownSorted : Tree.WeakSorted n1 (⟨low, next.n2⟩ :: rest) :=
        pairwise_cons.mpr ⟨fun other mem => above other (.tail _ mem),
          (pairwise_cons.mp restSorted).2⟩
      rw [← ih grownSorted (behind.trans nextOrdered) nextFits later laterPositive]
      have numbers : (fun n => (low ≤ n ∧ n ≤ max highest high) ∨
            ∃ range ∈ next :: rest, range.Holds n) =
          fun n => (low ≤ n ∧ n ≤ max (max highest high) next.n2) ∨ ∃ range ∈ rest, range.Holds n := by
        funext n
        rw [eq_iff_iff, exists_mem_cons_iff, ← or_assoc]
        refine or_congr_left ?_
        unfold IeSeqRange.Holds
        omega
      rw [numbers]
    · rw [if_neg touch, or_iff_right touch]
      have starts : ∀ range ∈ seqSetBuilderExtractLoop next rest, next.n1 ≤ range.n1 :=
        fun range mem => le_of_mem_extractLoop restSorted mem
      constructor
      · rintro ⟨same, apart⟩
        obtain ⟨gaps, restApart⟩ := pairwise_cons.mp apart
        obtain ⟨last, more, head⟩ := extractLoop_head next rest
        have gap := gaps ⟨next.n1, last⟩ (head ▸ mem_cons_self)
        have below : high < uintMax := by
          dsimp only at gap
          omega
        have top : highest ≤ high := by
          -- Otherwise the number behind the range is lost.
          by_contra higher
          obtain ⟨range, mem, holds⟩ := (same (high + 1)).mpr (.inl (by omega))
          unfold IeSeqRange.Holds at holds
          rcases mem_cons.mp mem with rfl | inLoop
          · exact absurd holds.2 (Nat.not_succ_le_self high)
          · have := starts range inLoop
            dsimp only at gap
            omega
        refine ⟨⟨top, below⟩, ?_⟩
        rw [← ih restSorted nextOrdered nextFits later laterPositive]
        refine ⟨fun n => ?_, restApart⟩
        dsimp only at gap
        have whole := same n
        rw [exists_mem_cons_iff, exists_mem_cons_iff] at whole
        have first : (∃ range ∈ seqSetBuilderExtractLoop next rest, range.Holds n) → next.n1 ≤ n :=
          fun ⟨range, mem, holds⟩ => (starts range mem).trans holds.1
        have second : (∃ range ∈ rest, range.Holds n) → next.n1 ≤ n := fun ⟨range, mem, holds⟩ =>
          ((pairwise_cons.mp restSorted).1 range mem).trans holds.1
        rw [max_eq_right top, max_eq_right (by omega : high ≤ next.n2)]
        unfold IeSeqRange.Holds at whole first second ⊢
        dsimp only at whole
        by_cases from_ : next.n1 ≤ n
        · rw [or_iff_right (by omega), or_iff_right (by omega)] at whole
          exact whole
        · exact iff_of_false (mt first from_) (not_or.mpr ⟨by omega, mt second from_⟩)
      · rintro ⟨⟨top, below⟩, ends⟩
        rw [uintSucc_of_lt below] at touch
        obtain ⟨same, apart⟩ :=
          (ih restSorted nextOrdered nextFits later laterPositive).mpr ends
        refine ⟨fun n => ?_, pairwise_cons.mpr ⟨fun range mem => ?_, apart⟩⟩
        · rw [exists_mem_cons_iff, same n, exists_mem_cons_iff, max_eq_right top,
            max_eq_right (by omega : high ≤ next.n2)]
          rfl
        · have := starts range mem
          dsimp only
          omega

/-- What is extracted has the numbers that were added, in ascending ranges with gaps between them,
if and only if the ranges of the builder end right. -/
theorem seqSetBuilderExtract_joins_iff (added : List (Nat × Nat))
    (valid : ∀ pair ∈ added, IsUid pair.1 ∧ IsUid pair.2) :
    ∃ builder, seqSetBuilderAddAll added = .ok builder ∧
      (Joins (seqSetBuilderExtract builder) (Added added) ↔ EndsRight builder) := by
  obtain ⟨builder, adds, ⟨sorted, fits⟩, members⟩ := seqSetBuilderAddAll_eq valid
  refine ⟨builder, adds, ?_⟩
  rw [← funext fun n => propext (members n)]
  cases builder with
  | nil => exact iff_of_true ⟨fun n => by simp [seqSetBuilderExtract], List.Pairwise.nil⟩ trivial
  | cons range rest =>
    obtain ⟨-, ordered, small⟩ := fits range mem_cons_self
    show Joins (seqSetBuilderExtractLoop range rest) _ ↔ EndsRightFrom 0 range.n2 rest
    rw [← joins_extractLoop_iff sorted ordered small (fun other mem => (fits other (.tail _ mem)).2)
      fun other mem => (fits other (.tail _ mem)).1]
    simp only [exists_mem_cons_iff, Nat.zero_max]
    rfl

theorem seqSetBuilderExtract_joins_iff_two :
    ∃ builder, seqSetBuilderAddAll [(5, 3), (5, 9)] = .ok builder ∧
      (Joins (seqSetBuilderExtract builder) (Added [(5, 3), (5, 9)]) ↔ EndsRight builder) :=
  seqSetBuilderExtract_joins_iff [(5, 3), (5, 9)] (by unfold IsUid uintMax; decide)

/-- A range within another one cuts it off. -/
theorem seqSetBuilderExtract_nested :
    seqSetBuilderAddAll [(1, 10), (2, 3)] = .ok [⟨1, 10⟩, ⟨2, 3⟩] ∧
      seqSetBuilderExtract [⟨1, 10⟩, ⟨2, 3⟩] = [⟨1, 3⟩] ∧
      ¬Joins [⟨1, 3⟩] (Added [(1, 10), (2, 3)]) := by
  refine ⟨by decide, by decide, fun joins => ?_⟩
  obtain ⟨range, mem, holds⟩ :=
    (joins.same 10).mpr ⟨(1, 10), mem_cons_self, by decide⟩
  rw [mem_singleton.mp mem] at holds
  exact absurd holds.2 (by decide)

end Splintermail
