/-
This file is the theory of programs that are given fuel and may stop with a fault, one of
which is that the fuel is used up.

A program returns a value if it gives that value with every fuel from some amount on. So a
program that returns does not hang, and what it returns is unique.
-/

import Mathlib.Order.Basic
import Mathlib.Data.Nat.Notation

namespace Splintermail

variable {Fault Value Result : Type}

/-- With enough fuel the value is the result. -/
def Returns (run : Nat → Except Fault Value) (value : Value) : Prop :=
  ∃ enough, ∀ fuel, enough ≤ fuel → run fuel = .ok value

namespace Returns

variable {run : Nat → Except Fault Value} {value : Value}

theorem pure : Returns (fun _ => (.ok value : Except Fault Value)) value :=
  ⟨0, fun _ _ => rfl⟩

theorem unique {other : Value} (first : Returns run value) (second : Returns run other) :
    value = other := by
  obtain ⟨firstEnough, firstResult⟩ := first
  obtain ⟨secondEnough, secondResult⟩ := second
  have same := (firstResult _ (Nat.le_max_left firstEnough secondEnough)).symm.trans
    (secondResult _ (Nat.le_max_right firstEnough secondEnough))
  exact Except.ok.inj same

theorem exists_fuel (returns : Returns run value) : ∃ fuel, run fuel = .ok value := by
  obtain ⟨enough, result⟩ := returns
  exact ⟨enough, result enough (Nat.le_refl enough)⟩

theorem bind {next : Nat → Value → Except Fault Result} {final : Result}
    (first : Returns run value) (second : Returns (fun fuel => next fuel value) final) :
    Returns (fun fuel => run fuel >>= next fuel) final := by
  obtain ⟨firstEnough, firstResult⟩ := first
  obtain ⟨secondEnough, secondResult⟩ := second
  refine ⟨max firstEnough secondEnough, fun fuel enough => ?_⟩
  show (run fuel).bind (next fuel) = _
  rw [firstResult fuel (Nat.le_trans (Nat.le_max_left _ _) enough)]
  exact secondResult fuel (Nat.le_trans (Nat.le_max_right _ _) enough)

theorem exists_bind {next : Nat → Value → Except Fault Result} (first : Returns run value)
    (second : ∃ final, Returns (fun fuel => next fuel value) final) :
    ∃ final, Returns (fun fuel => run fuel >>= next fuel) final := by
  obtain ⟨final, second⟩ := second
  exact ⟨final, first.bind second⟩

theorem succ {next : Nat → Except Fault Value} (step : ∀ fuel, next (fuel + 1) = run fuel)
    (returns : Returns run value) : Returns next value := by
  obtain ⟨enough, result⟩ := returns
  refine ⟨enough + 1, fun fuel more => ?_⟩
  obtain ⟨rest, rfl⟩ := Nat.exists_eq_add_of_le' (Nat.le_trans (Nat.le_add_left 1 enough) more)
  rw [step]
  exact result rest (Nat.le_of_succ_le_succ more)

theorem last {next : Nat → Except Fault Value} (step : ∀ fuel, next (fuel + 1) = .ok value) :
    Returns next value :=
  pure.succ step

end Returns

theorem ok_bind {first : Except Fault Value} {next : Value → Except Fault Result} {final : Result}
    (result : first >>= next = .ok final) : ∃ value, first = .ok value ∧ next value = .ok final := by
  cases first with
  | ok value => exact ⟨value, rfl, result⟩
  | error fault => exact nomatch result

/-- With enough fuel the outcome is this one. -/
def Yields (run : Nat → Except Fault Value) (outcome : Except Fault Value) : Prop :=
  ∃ enough, ∀ fuel, enough ≤ fuel → run fuel = outcome

theorem Yields.const (outcome : Except Fault Value) : Yields (fun _ => outcome) outcome :=
  ⟨0, fun _ _ => rfl⟩

variable {run : Nat → Except Fault Value}

theorem Yields.unique {outcome other : Except Fault Value} (first : Yields run outcome)
    (second : Yields run other) : outcome = other := by
  obtain ⟨firstEnough, firstResult⟩ := first
  obtain ⟨secondEnough, secondResult⟩ := second
  exact (firstResult _ (Nat.le_max_left firstEnough secondEnough)).symm.trans
    (secondResult _ (Nat.le_max_right firstEnough secondEnough))

theorem Yields.then {outcome : Except Fault Value} (first : Yields run outcome)
    (next : Value → Except Fault Result) :
    Yields (fun fuel => run fuel >>= next) (outcome >>= next) := by
  obtain ⟨enough, result⟩ := first
  exact ⟨enough, fun fuel more => congrArg (· >>= next) (result fuel more)⟩

theorem Yields.fault {fault : Fault} (first : Yields run (.error fault))
    (next : Nat → Value → Except Fault Result) :
    Yields (fun fuel => run fuel >>= next fuel) (.error fault) := by
  obtain ⟨enough, result⟩ := first
  refine ⟨enough, fun fuel more => ?_⟩
  show (run fuel).bind (next fuel) = _
  rw [result fuel more]
  rfl

theorem Returns.yields {value : Value} {next : Nat → Value → Except Fault Result}
    {outcome : Except Fault Result} (first : Returns run value)
    (second : Yields (fun fuel => next fuel value) outcome) :
    Yields (fun fuel => run fuel >>= next fuel) outcome := by
  obtain ⟨firstEnough, firstResult⟩ := first
  obtain ⟨secondEnough, secondResult⟩ := second
  refine ⟨max firstEnough secondEnough, fun fuel enough => ?_⟩
  show (run fuel).bind (next fuel) = _
  rw [firstResult fuel (Nat.le_trans (Nat.le_max_left _ _) enough)]
  exact secondResult fuel (Nat.le_trans (Nat.le_max_right _ _) enough)

/-- More fuel does not change a result. -/
def Persists (run : Nat → Except Fault Value) : Prop :=
  ∀ fuel value, run fuel = .ok value → Returns run value

namespace Persists

variable {run : Nat → Except Fault Value}

theorem const (outcome : Except Fault Value) : Persists fun _ => outcome :=
  fun _ _ result => ⟨0, fun _ _ => result⟩

theorem bind {next : Nat → Value → Except Fault Result} (first : Persists run)
    (second : ∀ value, Persists fun fuel => next fuel value) :
    Persists fun fuel => run fuel >>= next fuel := by
  intro fuel final result
  obtain ⟨value, middle, result⟩ := ok_bind result
  exact (first fuel value middle).bind (second value fuel final result)

theorem ite {condition : Prop} [Decidable condition] {first second : Nat → Except Fault Value}
    (one : Persists first) (other : Persists second) :
    Persists fun fuel => if condition then first fuel else second fuel := by
  by_cases met : condition
  · simp only [met, if_true]
    exact one
  · simp only [met, if_false]
    exact other

end Persists

end Splintermail
