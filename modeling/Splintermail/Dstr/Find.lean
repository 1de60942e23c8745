/-
This file models the comparisons and the search of `common.c` that work on a part of
a string: `dstr_icmp2`, `dstr_beginswith`, `dstr_sub` and `dstr_find`.
-/

import Splintermail.Dstr.Bytes

namespace Splintermail

open List

/-- The bytes of a C string literal. -/
def ascii (text : String) : Bytes := text.toList.map fun char => .ofNat char.toNat

/-- `ichar` -/
def ichar (char : UInt8) : UInt8 := if 97 ≤ char ∧ char ≤ 122 then char - 32 else char

/-- `dstr_icmp2` -/
def dstrIcmp2 (first second : Bytes) : Int := dstrCmp2 (first.map ichar) (second.map ichar)

/-- `dstr_beginswith` -/
def dstrBeginswith (text pattern : Bytes) : Bool := pattern.isPrefixOf text

/-- `dstr_sub`: an end of zero is the end of the string. -/
def dstrSub (text : Bytes) (start finish : Nat) : Bytes :=
  (text.take (if finish = 0 then text.length else finish)).drop start

/-- `dstr_find`: the place of the first match and the pattern that matches there. -/
def dstrFind (patterns : List Bytes) : Bytes → Option (Nat × Nat)
  | [] => none
  | char :: rest =>
    match patterns.findIdx? fun pattern => pattern.isPrefixOf (char :: rest) with
    | some which => some (0, which)
    | none => (dstrFind patterns rest).map fun (position, which) => (position + 1, which)

theorem dstrFind_spec {patterns : List Bytes} {text : Bytes} {position which : Nat}
    (found : dstrFind patterns text = some (position, which)) :
    ∃ front tail, text = front ++ patterns.getD which [] ++ tail ∧ front.length = position ∧
      which < patterns.length := by
  induction text generalizing position with
  | nil => cases found
  | cons char rest ih =>
    rw [dstrFind] at found
    split at found
    · rename_i matched
      cases found
      obtain ⟨bound, fits, -⟩ := findIdx?_eq_some_iff_getElem.mp matched
      obtain ⟨tail, whole⟩ := isPrefixOf_iff_prefix.mp fits
      refine ⟨[], tail, ?_, rfl, bound⟩
      rw [nil_append, ← whole, getD_eq_getElem?_getD, getElem?_eq_getElem bound]
      rfl
    · obtain ⟨⟨place, index⟩, later, same⟩ := Option.map_eq_some_iff.mp found
      cases same
      obtain ⟨front, tail, whole, length, bound⟩ := ih later
      exact ⟨char :: front, tail, by rw [whole]; rfl, congrArg Nat.succ length, bound⟩

end Splintermail
