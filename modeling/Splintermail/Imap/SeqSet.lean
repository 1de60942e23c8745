/-
This file models the traversal of a message set in `expression.c` and the builder of message
sets in `util.c`, and says what either gives.

A traversal goes through the ranges of a set, cut to its bounds, one number at a time. The
builder keeps its ranges in a tree and joins those that touch when it is extracted. The
comparison is made with `unsigned int`s, so that nothing touches a range that ends with the
largest one.
-/

import Mathlib.Data.List.Count
import Splintermail.Imap.Expression

namespace Splintermail

open List

/-- An `unsigned int` is incremented. -/
def uintSucc (count : Nat) : Nat := (count + 1) % (uintMax + 1)

theorem uintSucc_of_lt {count : Nat} (below : count < uintMax) : uintSucc count = count + 1 :=
  Nat.mod_eq_of_lt (Nat.succ_lt_succ below)

/-! ### The traversal -/

/-- `ie_seq_set_trav_t` -/
structure SeqSetTrav where
  ptr : IeSeqSet
  i : UInt32
  imax : UInt32
  min : UInt32
  max : UInt32
  deriving DecidableEq

/-- An end of a range, where zero stands for the maximum. -/
def seqSetEnd (max : UInt32) (n : Nat) : UInt32 := if n ≠ 0 then UInt32.ofNat n else max

namespace SeqSetTrav

/-- The loop of `ie_seq_set_iter` and `ie_seq_set_next`, which goes to the next range that is in
bounds. -/
def settle (min max : UInt32) : IeSeqSet → SeqSetTrav × UInt32
  | [] => (⟨[], 0, 0, min, max⟩, 0)
  | range :: rest =>
    let i := Min.min (seqSetEnd max range.n1) (seqSetEnd max range.n2)
    let imax := Max.max (seqSetEnd max range.n1) (seqSetEnd max range.n2)
    if imax < min ∨ (max ≠ 0 ∧ i > max) then settle min max rest
    else
      let i := Max.max i min
      let imax := if max ≠ 0 then Min.min imax max else imax
      (⟨range :: rest, i, imax, min, max⟩, i)

/-- `ie_seq_set_next` -/
def next (trav : SeqSetTrav) : SeqSetTrav × UInt32 :=
  match trav.ptr with
  | [] => (trav, 0)
  | _ :: rest =>
    if trav.i = trav.imax then settle trav.min trav.max rest
    else ({ trav with i := trav.i + 1 }, trav.i + 1)

theorem length_settle (min max : UInt32) (set : IeSeqSet) :
    (settle min max set).1.ptr.length ≤ set.length := by
  induction set with
  | nil => exact Nat.le_refl 0
  | cons range rest ih =>
    unfold settle
    dsimp only
    split
    · exact Nat.le_succ_of_le ih
    · exact le_rfl

theorem next_last {range : IeSeqRange} {rest : IeSeqSet} {i min max : UInt32} :
    (⟨range :: rest, i, i, min, max⟩ : SeqSetTrav).next = settle min max rest := if_pos rfl

theorem next_more {range : IeSeqRange} {rest : IeSeqSet} {i imax min max : UInt32} (more : i ≠ imax) :
    (⟨range :: rest, i, imax, min, max⟩ : SeqSetTrav).next =
      (⟨range :: rest, i + 1, imax, min, max⟩, i + 1) := if_neg more

/-- The body of a loop over a traversal runs for these numbers. -/
def values (trav : SeqSetTrav) (n : UInt32) : List UInt32 :=
  if n = 0 then [] else n :: values trav.next.1 trav.next.2
  termination_by (trav.ptr.length + if n = 0 then 0 else 1, (trav.imax - trav.i).toNat)
  decreasing_by
    rename_i more
    rw [if_neg more]
    obtain ⟨ptr, i, imax, min, max⟩ := trav
    cases ptr with
    | nil => exact Prod.Lex.left _ _ (Nat.lt_succ_self 0)
    | cons range rest =>
      by_cases last : i = imax
      · rw [last]
        simp only [next_last]
        have shorter := length_settle min max rest
        refine Prod.Lex.left _ _ ?_
        rw [length_cons]
        split <;> omega
      · simp only [next_more last]
        by_cases wraps : i + 1 = 0
        · rw [if_pos wraps]
          exact Prod.Lex.left _ _ (Nat.lt_succ_self _)
        · rw [if_neg wraps]
          refine Prod.Lex.right _ ?_
          have differ : i.toNat ≠ imax.toNat := fun same => last (UInt32.toNat_inj.mp same)
          have first := i.toNat_lt
          have second := imax.toNat_lt
          rw [UInt32.toNat_sub, UInt32.toNat_sub, UInt32.toNat_add, UInt32.toNat_one]
          omega

end SeqSetTrav

/-- `ie_seq_set_iter` -/
def ieSeqSetIter (set : IeSeqSet) (min max : UInt32) : SeqSetTrav × UInt32 := SeqSetTrav.settle min max set

/-- The numbers of a loop from `ie_seq_set_iter`, with `ie_seq_set_next`, until there is none. -/
def ieSeqSetValues (set : IeSeqSet) (min max : Nat) : List Nat :=
  let (trav, n) := ieSeqSetIter set (UInt32.ofNat min) (UInt32.ofNat max)
  (trav.values n).map UInt32.toNat

/-! ### The numbers of a traversal -/

namespace IeSeqRange

/-- An end of a range, where `*` is the largest number. -/
def resolve (largest n : Nat) : Nat := if n ≠ 0 then n else largest

def low (largest : Nat) (range : IeSeqRange) : Nat :=
  min (resolve largest range.n1) (resolve largest range.n2)

def high (largest : Nat) (range : IeSeqRange) : Nat :=
  max (resolve largest range.n1) (resolve largest range.n2)

/-- The number is in the range, whose ends may stand in either order. -/
def Denotes (largest : Nat) (range : IeSeqRange) (n : Nat) : Prop :=
  range.low largest ≤ n ∧ n ≤ range.high largest

instance (largest : Nat) (range : IeSeqRange) (n : Nat) : Decidable (range.Denotes largest n) :=
  inferInstanceAs (Decidable (_ ∧ _))

/-- The range holds `unsigned int`s. -/
def Fits (range : IeSeqRange) : Prop := range.n1 ≤ uintMax ∧ range.n2 ≤ uintMax

instance (range : IeSeqRange) : Decidable range.Fits := inferInstanceAs (Decidable (_ ∧ _))

/-- The numbers of a range that are in bounds. An upper bound of zero is none. -/
def clip (least largest : Nat) (range : IeSeqRange) : List Nat :=
  let last := if largest ≠ 0 then min (range.high largest) largest else range.high largest
  range' (max (range.low largest) least) (last + 1 - max (range.low largest) least)

theorem low_le_high (largest : Nat) (range : IeSeqRange) : range.low largest ≤ range.high largest :=
  inf_le_sup

theorem mem_clip {least largest : Nat} (bounded : largest ≠ 0) {range : IeSeqRange} {n : Nat} :
    n ∈ range.clip least largest ↔ range.Denotes largest n ∧ least ≤ n ∧ n ≤ largest := by
  unfold clip Denotes
  rw [if_pos bounded, mem_range'_1]
  have order := low_le_high largest range
  omega

theorem nodup_clip (least largest : Nat) (range : IeSeqRange) : (range.clip least largest).Nodup :=
  nodup_range'

end IeSeqRange

namespace SeqSetTrav

/-- The rest of a range comes before the next range. -/
theorem values_range {range : IeSeqRange} {rest : IeSeqSet} {min max imax : UInt32} :
    ∀ {i : UInt32}, i ≠ 0 → i ≤ imax →
      ((⟨range :: rest, i, imax, min, max⟩ : SeqSetTrav).values i).map UInt32.toNat =
        range' i.toNat (imax.toNat + 1 - i.toNat) ++
          ((settle min max rest).1.values (settle min max rest).2).map UInt32.toNat := by
  intro i positive below
  obtain ⟨count, counts⟩ : ∃ count, imax.toNat - i.toNat = count := ⟨_, rfl⟩
  have order : i.toNat ≤ imax.toNat := UInt32.le_iff_toNat_le.mp below
  induction count generalizing i with
  | zero =>
    obtain rfl : i = imax := UInt32.toNat_inj.mp (by omega)
    rw [values, if_neg positive, next_last, Nat.add_sub_cancel_left]
    rfl
  | succ count ih =>
    have more : i ≠ imax := fun same => by rw [same] at counts; omega
    have small := imax.toNat_lt
    have succ : (i + 1).toNat = i.toNat + 1 := by
      rw [UInt32.toNat_add, UInt32.toNat_one]
      omega
    have nonzero : i + 1 ≠ 0 := fun zero => by
      rw [zero] at succ
      exact Nat.succ_ne_zero _ succ.symm
    rw [values, if_neg positive, next_more more, map_cons, ih nonzero (UInt32.le_iff_toNat_le.mpr (by omega)) (by omega)
        (by omega), succ,
      show imax.toNat + 1 - i.toNat = (imax.toNat + 1 - (i.toNat + 1)) + 1 by omega,
      range'_succ, cons_append]

theorem toNat_min (first second : UInt32) :
    (Min.min first second).toNat = Min.min first.toNat second.toNat := by
  rw [UInt32.min_def, Nat.min_def]
  exact apply_ite UInt32.toNat _ _ _

theorem toNat_max (first second : UInt32) :
    (Max.max first second).toNat = Max.max first.toNat second.toNat := by
  rw [UInt32.max_def, Nat.max_def]
  exact apply_ite UInt32.toNat _ _ _

theorem toNat_seqSetEnd (max : UInt32) {n : Nat} (fits : n ≤ uintMax) :
    (seqSetEnd max n).toNat = IeSeqRange.resolve max.toNat n := by
  unfold seqSetEnd IeSeqRange.resolve
  split
  · exact UInt32.toNat_ofNat_of_lt' (Nat.lt_succ_of_le fits)
  · rfl

/-- A traversal gives the numbers of the ranges that are in bounds, one range after the other. -/
theorem values_settle {min max : UInt32} (ordered : max = 0 ∨ min ≤ max) {set : IeSeqSet}
    (fits : ∀ range ∈ set, range.Fits)
    (positive : ∀ range ∈ set, ∀ n ∈ range.clip min.toNat max.toNat, n ≠ 0) :
    ((settle min max set).1.values (settle min max set).2).map UInt32.toNat =
      set.flatMap fun range => range.clip min.toNat max.toNat := by
  induction set with
  | nil =>
    rw [settle, values]
    rfl
  | cons range rest ih =>
    have restValues := ih (fun other mem => fits other (.tail _ mem))
      fun other mem => positive other (.tail _ mem)
    have low : (Min.min (seqSetEnd max range.n1) (seqSetEnd max range.n2)).toNat =
        range.low max.toNat := by
      rw [toNat_min, toNat_seqSetEnd max (fits range mem_cons_self).1,
        toNat_seqSetEnd max (fits range mem_cons_self).2]
      rfl
    have high : (Max.max (seqSetEnd max range.n1) (seqSetEnd max range.n2)).toNat =
        range.high max.toNat := by
      rw [toNat_max, toNat_seqSetEnd max (fits range mem_cons_self).1,
        toNat_seqSetEnd max (fits range mem_cons_self).2]
      rfl
    have lowHigh := range.low_le_high max.toNat
    have bounded : max ≠ 0 ↔ max.toNat ≠ 0 :=
      not_congr ⟨fun zero => congrArg UInt32.toNat zero, fun zero => UInt32.toNat_inj.mp zero⟩
    have inOrder : max.toNat = 0 ∨ min.toNat ≤ max.toNat :=
      ordered.imp (fun zero => congrArg UInt32.toNat zero) UInt32.le_iff_toNat_le.mp
    rw [flatMap_cons, settle]
    by_cases outside : Max.max (seqSetEnd max range.n1) (seqSetEnd max range.n2) < min ∨
        (max ≠ 0 ∧ Min.min (seqSetEnd max range.n1) (seqSetEnd max range.n2) > max)
    · rw [if_pos outside, restValues]
      have nothing : range.clip min.toNat max.toNat = [] := by
        rw [gt_iff_lt, UInt32.lt_iff_toNat_lt, UInt32.lt_iff_toNat_lt, low, high, bounded] at outside
        unfold IeSeqRange.clip
        refine range'_eq_nil_iff.mpr ?_
        split <;> omega
      rw [nothing, nil_append]
    · rw [if_neg outside]
      rw [gt_iff_lt, UInt32.lt_iff_toNat_lt, UInt32.lt_iff_toNat_lt, low, high, bounded] at outside
      have last : (if max ≠ 0
          then Min.min (Max.max (seqSetEnd max range.n1) (seqSetEnd max range.n2)) max
          else Max.max (seqSetEnd max range.n1) (seqSetEnd max range.n2)).toNat =
          if max.toNat ≠ 0 then Min.min (range.high max.toNat) max.toNat
            else range.high max.toNat := by
        rw [apply_ite UInt32.toNat, toNat_min, high]
        exact if_congr bounded rfl rfl
      have first : (Max.max (Min.min (seqSetEnd max range.n1) (seqSetEnd max range.n2)) min).toNat =
          Max.max (range.low max.toNat) min.toNat := by
        rw [toNat_max, low]
      have below : Max.max (range.low max.toNat) min.toNat ≤
          if max.toNat ≠ 0 then Min.min (range.high max.toNat) max.toNat
            else range.high max.toNat := by
        split <;> omega
      have mem : Max.max (range.low max.toNat) min.toNat ∈ range.clip min.toNat max.toNat := by
        unfold IeSeqRange.clip
        rw [mem_range'_1]
        exact ⟨le_rfl, by omega⟩
      have nonzero := positive range mem_cons_self _ mem
      dsimp only
      rw [values_range (fun zero => nonzero (by rw [← first, zero]; rfl))
        (UInt32.le_iff_toNat_le.mpr (by rw [first, last]; exact below)), restValues, first, last]
      rfl

end SeqSetTrav

/-- A loop over a message set runs for the numbers of its ranges that are in bounds. -/
theorem ieSeqSetValues_eq {least largest : Nat} (small : least ≤ uintMax ∧ largest ≤ uintMax)
    (ordered : largest = 0 ∨ least ≤ largest) {set : IeSeqSet} (fits : ∀ range ∈ set, range.Fits)
    (positive : ∀ range ∈ set, ∀ n ∈ range.clip least largest, n ≠ 0) :
    ieSeqSetValues set least largest = set.flatMap fun range => range.clip least largest := by
  have lower : (UInt32.ofNat least).toNat = least :=
    UInt32.toNat_ofNat_of_lt' (Nat.lt_succ_of_le small.1)
  have upper : (UInt32.ofNat largest).toNat = largest :=
    UInt32.toNat_ofNat_of_lt' (Nat.lt_succ_of_le small.2)
  unfold ieSeqSetValues ieSeqSetIter
  dsimp only
  rw [SeqSetTrav.values_settle _ fits, lower, upper]
  · rw [lower, upper]
    exact positive
  · refine ordered.imp (fun zero => by rw [zero]; rfl) fun below => ?_
    rw [UInt32.le_iff_toNat_le, lower, upper]
    exact below

/-! ### The builder -/

/-- `seq_set_builder_add_range`. The elements of a `seq_set_builder_t` are ranges. -/
def seqSetBuilderAddRange (builder : List IeSeqRange) (n1 n2 : Nat) :
    Except Derr (List IeSeqRange) :=
  if n1 = 0 ∨ n2 = 0 then .error ⟨.param, "invalid UID in seq_set_builder"⟩
  else .ok (Tree.insert IeSeqRange.n1 ⟨min n1 n2, max n1 n2⟩ builder)

/-- `seq_set_builder_add_val` -/
def seqSetBuilderAddVal (builder : List IeSeqRange) (n1 : Nat) : Except Derr (List IeSeqRange) :=
  seqSetBuilderAddRange builder n1 n1

/-- The loop of `seq_set_builder_extract`, with the range that may still grow. -/
def seqSetBuilderExtractLoop (cur : IeSeqRange) : List IeSeqRange → IeSeqSet
  | [] => [cur]
  | ssbe :: rest =>
    -- sequences touch?
    if ssbe.n1 ≤ uintSucc cur.n2 then seqSetBuilderExtractLoop { cur with n2 := ssbe.n2 } rest
    else cur :: seqSetBuilderExtractLoop ssbe rest

/-- `seq_set_builder_extract` -/
def seqSetBuilderExtract : List IeSeqRange → IeSeqSet
  | [] => []
  | ssbe :: rest => seqSetBuilderExtractLoop ssbe rest

/-- The numbers of a set, range by range. -/
def IeSeqSet.expand (set : IeSeqSet) : List Nat :=
  set.flatMap fun range => range' range.n1 (range.n2 + 1 - range.n1)

open IeSeqSet

/-- The range of one number. -/
def IeSeqRange.single (n : Nat) : IeSeqRange := ⟨n, n⟩

variable {values : List Nat}

theorem seqSetBuilderAddVal_eq {n : Nat} (positive : n ≠ 0) :
    seqSetBuilderAddVal (values.map IeSeqRange.single) n =
      .ok ((Tree.insert id n values).map IeSeqRange.single) := by
  have insertion : Tree.insert IeSeqRange.n1 (IeSeqRange.single n) (values.map IeSeqRange.single) =
      (Tree.insert id n values).map IeSeqRange.single := by
    unfold Tree.insert
    induction values with
    | nil => rfl
    | cons value rest ih =>
      rw [map_cons, orderedInsert_cons, orderedInsert_cons, ih, apply_ite (map IeSeqRange.single)]
      rfl
  unfold seqSetBuilderAddVal seqSetBuilderAddRange
  rw [if_neg (not_or.mpr ⟨positive, positive⟩), min_self, max_self]
  exact congrArg Except.ok insertion

theorem extractLoop_touch {low high value : Nat} {rest : List IeSeqRange}
    (touch : value ≤ uintSucc high) :
    seqSetBuilderExtractLoop ⟨low, high⟩ (IeSeqRange.single value :: rest) =
      seqSetBuilderExtractLoop ⟨low, value⟩ rest := if_pos touch

theorem extractLoop_apart {low high value : Nat} {rest : List IeSeqRange}
    (apart : ¬ value ≤ uintSucc high) :
    seqSetBuilderExtractLoop ⟨low, high⟩ (IeSeqRange.single value :: rest) =
      ⟨low, high⟩ :: seqSetBuilderExtractLoop ⟨value, value⟩ rest := if_neg apart

theorem mem_rangeNumbers (low high n : Nat) :
    n ∈ range' low (high + 1 - low) ↔ low ≤ n ∧ n ≤ high := by
  rw [mem_range'_1]
  omega

theorem count_rangeNumbers_le (low high n : Nat) : (range' low (high + 1 - low)).count n ≤ 1 :=
  nodup_iff_count_le_one.mp nodup_range' n

section

variable {low high : Nat} (ordered : low ≤ high)

include ordered

theorem count_rangeNumbers_top (fits : high ≤ uintMax) :
    (range' low (high + 1 - low)).count uintMax = if high = uintMax then 1 else 0 := by
  by_cases last : high = uintMax
  · rw [if_pos last]
    exact count_eq_one_of_mem nodup_range' ((mem_rangeNumbers _ _ _).mpr (by omega))
  · rw [if_neg last]
    exact count_eq_zero.mpr fun mem => last (by
      have := ((mem_rangeNumbers _ _ _).mp mem).2
      omega)

/-- What is extracted has the numbers of the builder in order, and each once except the largest
`unsigned int`, which it has as often as the builder. -/
theorem expand_seqSetBuilderExtractLoop_counts (sorted : (high :: values).Pairwise (· ≤ ·))
    (small : ∀ n ∈ high :: values, n ≤ uintMax) {expanded : List Nat}
    (expands : expand (seqSetBuilderExtractLoop ⟨low, high⟩
      (values.map IeSeqRange.single)) = expanded) :
    (∀ n, n ∈ expanded ↔ (low ≤ n ∧ n ≤ high) ∨ n ∈ values) ∧ expanded.Pairwise (· ≤ ·) ∧
      (∀ n, n ≠ uintMax → expanded.count n ≤ 1) ∧
      expanded.count uintMax = (high :: values).count uintMax := by
  have fits := small high mem_cons_self
  induction values generalizing low high expanded with
  | nil =>
    obtain rfl : range' low (high + 1 - low) = expanded := (append_nil _).symm.trans expands
    refine ⟨fun n => ?_, pairwise_le_range', fun n _ => count_rangeNumbers_le low high n, ?_⟩
    · rw [mem_rangeNumbers, or_iff_left not_mem_nil]
    · rw [count_rangeNumbers_top ordered fits, count_singleton]
      simp
  | cons value rest ih =>
    obtain ⟨above, restSorted⟩ := pairwise_cons.mp sorted
    have restSmall : ∀ n ∈ value :: rest, n ≤ uintMax := fun n mem => small n (.tail _ mem)
    have next := above value mem_cons_self
    have valueFits := restSmall value mem_cons_self
    rw [map_cons] at expands
    by_cases touch : value ≤ uintSucc high
    · rw [extractLoop_touch touch] at expands
      -- The range grows. It cannot end with the largest number, which nothing touches.
      have below : high < uintMax := by
        refine lt_of_le_of_ne fits fun last => ?_
        rw [last, show uintSucc uintMax = 0 from Nat.mod_self _] at touch
        have := Nat.le_zero.mp touch
        rw [last, this] at next
        exact absurd next (by decide)
      rw [uintSucc_of_lt below] at touch
      obtain ⟨members, weak, once, top⟩ :=
        ih (ordered.trans next) restSorted restSmall expands valueFits
      refine ⟨fun n => (members n).trans ?_, weak, once, ?_⟩
      · rw [mem_cons]
        constructor
        · rintro (inRange | inRest)
          · by_cases new : n = value
            · exact .inr (.inl new)
            · exact .inl (by omega)
          · exact .inr (.inr inRest)
        · rintro (inRange | rfl | inRest)
          · exact .inl (by omega)
          · exact .inl (by omega)
          · exact .inr inRest
      · rw [top, count_cons_of_ne (Nat.ne_of_lt below)]
    · obtain ⟨members, weak, once, top⟩ :=
        ih (Nat.le_refl value) restSorted restSmall rfl valueFits
      rw [extractLoop_apart touch] at expands
      obtain rfl : range' low (high + 1 - low) ++ expand (seqSetBuilderExtractLoop
          ⟨value, value⟩ (rest.map IeSeqRange.single)) = expanded :=
        flatMap_cons.symm.trans expands
      have atLeast : ∀ n ∈ expand (seqSetBuilderExtractLoop ⟨value, value⟩
          (rest.map IeSeqRange.single)), value ≤ n := by
        intro n mem
        obtain ⟨le, -⟩ | inRest := (members n).mp mem
        · exact le
        · exact (pairwise_cons.mp restSorted).1 n inRest
      refine ⟨fun n => ?_, pairwise_append.mpr ⟨pairwise_le_range', weak, ?_⟩, ?_, ?_⟩
      · rw [mem_append, mem_rangeNumbers, members, mem_cons, ← Nat.le_antisymm_iff,
          @eq_comm _ value]
      · intro n inFirst other inSecond
        exact ((mem_rangeNumbers _ _ _).mp inFirst).2.trans (next.trans (atLeast other inSecond))
      · intro n inner
        rw [count_append]
        by_cases inFirst : n ∈ range' low (high + 1 - low)
        · -- A number of both parts would be the largest one, which nothing touches.
          have notInSecond : n ∉ expand (seqSetBuilderExtractLoop ⟨value, value⟩
              (rest.map IeSeqRange.single)) := by
            intro inSecond
            have lower := atLeast n inSecond
            have upper := ((mem_rangeNumbers _ _ _).mp inFirst).2
            have below : high < uintMax := lt_of_le_of_ne fits fun last => inner (by omega)
            rw [uintSucc_of_lt below] at touch
            omega
          rw [count_eq_zero.mpr notInSecond]
          exact count_rangeNumbers_le low high n
        · rw [count_eq_zero.mpr inFirst, Nat.zero_add]
          exact once n inner
      · rw [count_append, count_rangeNumbers_top ordered fits]
        refine (congrArg _ top).trans ?_
        rw [count_cons (l := value :: rest), Nat.add_comm]
        simp

/-- Extracting joins the numbers up to the largest `unsigned int`: the set has the numbers of the
builder in ascending order unless the largest one is there twice. -/
theorem expand_seqSetBuilderExtractLoop_ascending (sorted : (high :: values).Pairwise (· ≤ ·))
    (small : ∀ n ∈ high :: values, n ≤ uintMax) :
    (expand (seqSetBuilderExtractLoop ⟨low, high⟩
        (values.map IeSeqRange.single))).Pairwise (· < ·) ↔ (high :: values).count uintMax ≤ 1 := by
  obtain ⟨-, weak, once, top⟩ := expand_seqSetBuilderExtractLoop_counts ordered sorted small rfl
  rw [← top]
  constructor
  · intro ascending
    exact nodup_iff_count_le_one.mp (ascending.imp Nat.ne_of_lt) uintMax
  · intro single
    have nodup : (expand (seqSetBuilderExtractLoop ⟨low, high⟩
        (values.map IeSeqRange.single))).Nodup := nodup_iff_count_le_one.mpr fun n => by
      by_cases largest : n = uintMax
      · rw [largest]
        exact single
      · exact once n largest
    exact (weak.and nodup).imp fun both => lt_of_le_of_ne both.1 both.2

theorem seqSetBuilderExtractLoop_ordered (sorted : (high :: values).Pairwise (· ≤ ·)) :
    ∀ range ∈ seqSetBuilderExtractLoop ⟨low, high⟩ (values.map IeSeqRange.single),
      range.n1 ≤ range.n2 := by
  induction values generalizing low high with
  | nil =>
    intro range mem
    obtain rfl := mem_singleton.mp mem
    exact ordered
  | cons value rest ih =>
    obtain ⟨above, restSorted⟩ := pairwise_cons.mp sorted
    rw [map_cons]
    by_cases touch : value ≤ uintSucc high
    · rw [extractLoop_touch touch]
      exact ih (ordered.trans (above value mem_cons_self)) restSorted
    · rw [extractLoop_apart touch]
      intro range mem
      obtain rfl | inRest := mem_cons.mp mem
      · exact ordered
      · exact ih (Nat.le_refl value) restSorted range inRest

end

/-- What is extracted from a builder with some numbers. -/
theorem expand_seqSetBuilderExtract (sorted : values.Pairwise (· ≤ ·))
    (small : ∀ n ∈ values, n ≤ uintMax) :
    (∀ n, n ∈ expand (seqSetBuilderExtract (values.map IeSeqRange.single)) ↔ n ∈ values) ∧
      ((expand (seqSetBuilderExtract (values.map IeSeqRange.single))).Pairwise (· < ·) ↔
        values.count uintMax ≤ 1) := by
  cases values with
  | nil => exact ⟨fun n => Iff.rfl, iff_of_true .nil (Nat.zero_le 1)⟩
  | cons value rest =>
    obtain ⟨members, -⟩ := expand_seqSetBuilderExtractLoop_counts (Nat.le_refl value) sorted small rfl
    refine ⟨fun n => (members n).trans ?_,
      expand_seqSetBuilderExtractLoop_ascending (Nat.le_refl value) sorted small⟩
    rw [mem_cons, eq_comm, eq_iff_le_not_lt, not_lt]

/-! ### Canonical sets -/

/-- The set is extracted from a builder of positive `unsigned int`s. -/
def IeSeqSet.Canonical (set : IeSeqSet) : Prop :=
  ∃ values : List Nat, values.Pairwise (· ≤ ·) ∧ (∀ n ∈ values, n ≠ 0 ∧ n ≤ uintMax) ∧
    set = seqSetBuilderExtract (values.map IeSeqRange.single)

namespace IeSeqSet.Canonical

variable {set : IeSeqSet}

theorem nil : Canonical [] := ⟨[], .nil, nofun, rfl⟩

/-- A loop over a canonical set needs no bounds. -/
theorem values_eq (canonical : Canonical set) : ieSeqSetValues set 0 0 = expand set := by
  obtain ⟨values, sorted, numbers, rfl⟩ := canonical
  have members := (expand_seqSetBuilderExtract sorted fun n mem => (numbers n mem).2).1
  have ordered : ∀ range ∈ seqSetBuilderExtract (values.map IeSeqRange.single),
      range.n1 ≤ range.n2 := by
    cases values with
    | nil => exact nofun
    | cons value rest => exact seqSetBuilderExtractLoop_ordered (Nat.le_refl value) sorted
  have ends : ∀ range ∈ seqSetBuilderExtract (values.map IeSeqRange.single),
      ∀ n, range.n1 ≤ n → n ≤ range.n2 → n ≠ 0 ∧ n ≤ uintMax := by
    intro range mem n lower upper
    refine numbers n ((members n).mp (mem_flatMap.mpr ⟨range, mem, ?_⟩))
    rw [mem_range'_1]
    omega
  have clips : ∀ range ∈ seqSetBuilderExtract (values.map IeSeqRange.single),
      range.clip 0 0 = range' range.n1 (range.n2 + 1 - range.n1) := by
    intro range mem
    have inOrder := ordered range mem
    have positive := (ends range mem range.n1 (le_rfl) inOrder).1
    have resolves : range.low 0 = range.n1 ∧ range.high 0 = range.n2 := by
      unfold IeSeqRange.low IeSeqRange.high IeSeqRange.resolve
      rw [if_pos positive, if_pos (show range.n2 ≠ 0 by omega)]
      exact ⟨min_eq_left inOrder, max_eq_right inOrder⟩
    unfold IeSeqRange.clip
    rw [resolves.1, resolves.2, if_neg (not_not.mpr rfl), max_eq_left (Nat.zero_le _)]
  rw [ieSeqSetValues_eq ⟨Nat.zero_le _, Nat.zero_le _⟩ (.inl rfl)]
  · exact flatMap_congr clips
  · intro range mem
    have inOrder := ordered range mem
    exact ⟨(ends range mem _ (le_rfl) inOrder).2,
      (ends range mem _ inOrder (le_rfl)).2⟩
  · intro range mem n inClip
    rw [clips range mem, mem_range'_1] at inClip
    exact (ends range mem n inClip.1 (by omega)).1

/-- The numbers of a canonical set are in order, and only the largest one may come up again. -/
theorem weak (canonical : Canonical set) : (expand set).Pairwise (· ≤ ·) ∧
    ∀ n, n ≠ uintMax → (expand set).count n ≤ 1 := by
  obtain ⟨values, sorted, numbers, rfl⟩ := canonical
  cases values with
  | nil => exact ⟨.nil, fun n _ => Nat.zero_le 1⟩
  | cons value rest =>
    obtain ⟨-, inOrder, once, -⟩ := expand_seqSetBuilderExtractLoop_counts (Nat.le_refl value) sorted
      (fun n mem => (numbers n mem).2) rfl
    exact ⟨inOrder, once⟩

end IeSeqSet.Canonical

end Splintermail
