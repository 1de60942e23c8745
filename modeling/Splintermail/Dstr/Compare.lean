/-
This file is about `dstr_cmp2` and `dstr_icmp2` as orders of strings that have data.

The order is that of the signed bytes, where the end of a string counts as a NUL. But where
one string ends the comparison looks at one byte of the other only. So a string is taken for
the same as what goes on with a NUL behind it, and such strings may lie on either side of a
third one. These are the only strings that are not ordered.
-/

import Splintermail.Dstr.Count
import Splintermail.Lib.ATree

namespace Splintermail

/-- The `char_fn` of `do_dstr_cmp2`. -/
def charFn (sensitive : Bool) : UInt8 → UInt8 := if sensitive then noichar else ichar

/-- `do_dstr_cmp2` of two strings that have data. -/
def doDstrCmp2 (sensitive : Bool) (first second : Bytes) : Int :=
  cmpChars (first.map (charFn sensitive)) (second.map (charFn sensitive))

/-- A string as it is compared. -/
def folded (sensitive : Bool) (text : Bytes) : Bytes := text.map (charFn sensitive)

theorem folded_true (text : Bytes) : folded true text = text := List.map_id text

/-- The comparison orders the strings: it tells those apart that differ as they are compared, the
other way round it is the other way round, and it is transitive. -/
structure Orders (sensitive : Bool) (texts : Set Bytes) : Prop where
  equal : ∀ first ∈ texts, ∀ second ∈ texts,
    doDstrCmp2 sensitive first second = 0 ↔ folded sensitive first = folded sensitive second
  opposite : ∀ first ∈ texts, ∀ second ∈ texts,
    (doDstrCmp2 sensitive first second).sign = -(doDstrCmp2 sensitive second first).sign
  trans : ∀ first ∈ texts, ∀ second ∈ texts, ∀ third ∈ texts,
    doDstrCmp2 sensitive first second ≤ 0 → doDstrCmp2 sensitive second third ≤ 0 →
      doDstrCmp2 sensitive first third ≤ 0

/-- No string goes on with a NUL where another one ends. -/
def NulApart (sensitive : Bool) (texts : Set Bytes) : Prop :=
  ∀ first ∈ texts, ∀ second ∈ texts, ¬folded sensitive first ++ [0] <+: folded sensitive second

theorem cmpChars_neg (first second : Bytes) : cmpChars second first = -cmpChars first second := by
  induction first generalizing second with
  | nil =>
    cases second with
    | nil => rfl
    | cons char rest => rw [cmpChars, cmpChars, Int.neg_neg]
  | cons char rest ih =>
    cases second with
    | nil => rfl
    | cons other others =>
      rw [cmpChars, cmpChars]
      by_cases same : char = other
      · subst same
        rw [if_neg (not_not.mpr rfl), if_neg (not_not.mpr rfl), ih]
      · rw [if_pos same, if_pos (Ne.symm same), Int.neg_sub]

namespace NulApart

variable {sensitive : Bool} {texts : Set Bytes} {first second : Bytes}

section

variable (apart : NulApart sensitive texts)

include apart

theorem eq_zero_iff (firstMem : first ∈ texts) (secondMem : second ∈ texts) :
    doDstrCmp2 sensitive first second = 0 ↔ folded sensitive first = folded sensitive second := by
  refine cmpChars_eq_zero.trans ⟨?_, Or.inl⟩
  rintro (same | before | after)
  · exact same
  · exact absurd before (apart first firstMem second secondMem)
  · exact absurd after (apart second secondMem first firstMem)

theorem le_zero_iff (firstMem : first ∈ texts) (secondMem : second ∈ texts) :
    doDstrCmp2 sensitive first second ≤ 0 ↔
      cmpRank (folded sensitive first) ≤ cmpRank (folded sensitive second) := by
  by_cases zero : doDstrCmp2 sensitive first second = 0
  · rw [zero, (apart.eq_zero_iff firstMem secondMem).mp zero]
    exact iff_of_true le_rfl le_rfl
  · have differ : cmpRank (folded sensitive first) ≠ cmpRank (folded sensitive second) := fun same =>
      zero ((apart.eq_zero_iff firstMem secondMem).mpr (cmpRank_injective same))
    have below : doDstrCmp2 sensitive first second < 0 ↔
        cmpRank (folded sensitive first) < cmpRank (folded sensitive second) := cmpChars_lt_zero zero
    rw [le_iff_lt_or_eq, or_iff_left zero, below, le_iff_lt_or_eq, or_iff_left differ]

theorem orders : Orders sensitive texts where
  equal _ firstMem _ secondMem := apart.eq_zero_iff firstMem secondMem
  opposite first _ second _ := by
    rw [doDstrCmp2, cmpChars_neg, Int.sign_neg]
    rfl
  trans first firstMem second secondMem third thirdMem below above := by
    rw [apart.le_zero_iff firstMem secondMem] at below
    rw [apart.le_zero_iff secondMem thirdMem] at above
    rw [apart.le_zero_iff firstMem thirdMem]
    exact le_trans below above

end

/-- A search tree may be keyed with such strings. -/
theorem ranks (apart : NulApart true texts) : ATree.Ranks (doDstrCmp2 true) cmpRank texts where
  equal _ firstMem _ secondMem zero := by
    have same := (apart.eq_zero_iff firstMem secondMem).mp zero
    rwa [folded_true, folded_true] at same
  same _ mem := (apart.eq_zero_iff mem mem).mpr rfl
  below first _ second _ differ := by
    refine (cmpChars_lt_zero differ).trans ?_
    rw [show first.map (charFn true) = first from folded_true first,
      show second.map (charFn true) = second from folded_true second]
  distinct _ _ _ _ same := cmpRank_injective same

theorem find_inserted (apart : NulApart true texts) {inserted : List Bytes}
    (known : ∀ text ∈ inserted, text ∈ texts) (distinct : inserted.Nodup) {target : Bytes}
    (mem : target ∈ texts) :
    ((inserted.foldl (fun tree text => tree.insert (doDstrCmp2 true) text) ATree.nil).find
      (doDstrCmp2 true) target).isSome ↔ target ∈ inserted := by
  obtain ⟨ordered, same⟩ := ATree.Ordered.nil.insertAll apart.ranks known distinct
    fun _ _ => List.not_mem_nil
  rw [ordered.find_isSome apart.ranks mem, same]
  exact or_iff_left List.not_mem_nil

end NulApart

theorem orders_iff (sensitive : Bool) (texts : Set Bytes) :
    Orders sensitive texts ↔ NulApart sensitive texts := by
  refine ⟨fun orders first firstMem second secondMem before => ?_, NulApart.orders⟩
  have zero : doDstrCmp2 sensitive first second = 0 := cmpChars_eq_zero.mpr (.inr (.inl before))
  have same := (orders.equal first firstMem second secondMem).mp zero
  have shorter := before.length_le
  rw [same, List.length_append] at shorter
  exact absurd shorter (Nat.not_succ_le_self _)

end Splintermail
