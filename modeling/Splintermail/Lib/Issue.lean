/-
This file is the theory of numbers that are handed out by a counter.

A number belongs to one owner. The counter goes up before a number is handed out,
so that no number is above the counter and none is handed out twice. Zero stands
for no number, and may belong to anybody. Which owner holds which number is a set
of pairs, as it is collected from all places where numbers are kept.
-/

import Mathlib.Data.Set.Insert

namespace Splintermail

variable {Owner : Type}

/-- The pairs of owners and numbers that a counter at `top` can have led to. -/
structure Issued (top : Nat) (pairs : Set (Owner × Nat)) : Prop where
  bound : ∀ pair ∈ pairs, pair.2 ≤ top
  owner : ∀ first ∈ pairs, ∀ second ∈ pairs, first.2 ≠ 0 → first.2 = second.2 → first.1 = second.1

namespace Issued

variable {top : Nat} {pairs others : Set (Owner × Nat)}

theorem mono (issued : Issued top pairs) (fewer : others ⊆ pairs) : Issued top others where
  bound pair mem := issued.bound pair (fewer mem)
  owner first firstMem second secondMem :=
    issued.owner first (fewer firstMem) second (fewer secondMem)

theorem empty : Issued top (∅ : Set (Owner × Nat)) where
  bound _ mem := mem.elim
  owner _ mem := mem.elim

theorem zero (issued : Issued top pairs) (owner : Owner) :
    Issued top (insert (owner, 0) pairs) where
  bound pair mem := by
    rcases Set.mem_insert_iff.mp mem with rfl | mem
    · exact Nat.zero_le _
    · exact issued.bound pair mem
  owner first firstMem second secondMem nonzero same := by
    rcases Set.mem_insert_iff.mp firstMem with rfl | firstMem
    · exact absurd rfl nonzero
    rcases Set.mem_insert_iff.mp secondMem with rfl | secondMem
    · exact absurd same nonzero
    · exact issued.owner first firstMem second secondMem nonzero same

theorem next (issued : Issued top pairs) (owner : Owner) :
    Issued (top + 1) (insert (owner, top + 1) pairs) where
  bound pair mem := by
    rcases Set.mem_insert_iff.mp mem with rfl | mem
    · exact le_rfl
    · exact Nat.le_succ_of_le (issued.bound pair mem)
  owner first firstMem second secondMem nonzero same := by
    rcases Set.mem_insert_iff.mp firstMem with rfl | firstMem
    · rcases Set.mem_insert_iff.mp secondMem with rfl | secondMem
      · rfl
      · have below := issued.bound second secondMem
        dsimp only at same
        omega
    · rcases Set.mem_insert_iff.mp secondMem with rfl | secondMem
      · have below := issued.bound first firstMem
        dsimp only at same
        omega
      · exact issued.owner first firstMem second secondMem nonzero same

end Issued

end Splintermail
