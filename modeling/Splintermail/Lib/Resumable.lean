/-
This file is the theory of writers that are called again and again, each time with
another buffer, until they have written everything.

A writer is a step function from a state and a buffer to the next state, the bytes that
were put into the buffer and whether that was all. What is left to write is told by the
state. If each call writes a beginning of what is left, and something as long as
anything is left, then the buffers together hold the whole, however large each of them
is, and there are finitely many calls.
-/

import Mathlib.Data.List.Basic

namespace Splintermail

open List

namespace Resumable

variable {State Buf Byte : Type} (step : State → Buf → State × List Byte × Bool)
  (remaining : State → List Byte)

/-- The bytes of the calls with these buffers, up to the call that says it is the last. -/
def calls : State → List Buf → Option (List Byte)
  | _, [] => none
  | state, buf :: bufs =>
    match step state buf with
    | (_, out, true) => some out
    | (next, out, false) => (calls next bufs).map (out ++ ·)

/-- A call writes a beginning of what is left, and says whether nothing is left. -/
structure Takes (state : State) (result : State × List Byte × Bool) : Prop where
  split : remaining state = result.2.1 ++ remaining result.1
  last : result.2.2 = true ↔ remaining result.1 = []
  moves : remaining state ≠ [] → result.2.1 ≠ []

variable {step remaining}

theorem calls_last {state next : State} {buf : Buf} {bufs : List Buf} {out : List Byte}
    (result : step state buf = (next, out, true)) : calls step state (buf :: bufs) = some out := by
  rw [calls, result]

theorem calls_more {state next : State} {buf : Buf} {bufs : List Buf} {out : List Byte}
    (result : step state buf = (next, out, false)) :
    calls step state (buf :: bufs) = (calls step next bufs).map (out ++ ·) := by
  rw [calls, result]

variable {good : State → Prop}

/-- What the calls have written when they are done is all that was left. -/
theorem calls_sound (takes : ∀ state buf, good state → Takes remaining state (step state buf))
    (closed : ∀ state buf, good state → good (step state buf).1) {state : State} (start : good state)
    {bufs : List Buf} {out : List Byte} (written : calls step state bufs = some out) :
    out = remaining state := by
  induction bufs generalizing state out with
  | nil => exact absurd written nofun
  | cons buf bufs ih =>
    have taken := takes state buf start
    have next := closed state buf start
    obtain ⟨after, piece, last, result⟩ : ∃ after piece last,
        step state buf = (after, piece, last) := ⟨_, _, _, rfl⟩
    rw [result] at taken next
    cases last with
    | true =>
      rw [calls_last result] at written
      rw [taken.split, taken.last.mp rfl, append_nil]
      exact (Option.some.inj written).symm
    | false =>
      rw [calls_more result] at written
      obtain ⟨more, later, rfl⟩ := Option.map_eq_some_iff.mp written
      rw [taken.split, ih next later]

/-- There are finitely many calls, whatever buffers they are given. -/
theorem calls_finite (takes : ∀ state buf, good state → Takes remaining state (step state buf))
    (closed : ∀ state buf, good state → good (step state buf).1) {state : State} (start : good state)
    (bufs : Nat → Buf) :
    ∃ count, calls step state ((range count).map bufs) = some (remaining state) := by
  suffices some : ∃ count out, calls step state ((range count).map bufs) = some out by
    obtain ⟨count, out, written⟩ := some
    exact ⟨count, by rw [written, calls_sound takes closed start written]⟩
  induction length : (remaining state).length using Nat.strongRecOn generalizing state bufs with
  | ind size ih =>
    have taken := takes state (bufs 0) start
    have next := closed state (bufs 0) start
    obtain ⟨after, piece, last, result⟩ : ∃ after piece last,
        step state (bufs 0) = (after, piece, last) := ⟨_, _, _, rfl⟩
    rw [result] at taken next
    cases last with
    | true => exact ⟨1, piece, calls_last result⟩
    | false =>
      have left : remaining after ≠ [] := fun none => absurd (taken.last.mpr none) nofun
      have some : remaining state ≠ [] := fun none => by
        have split := taken.split
        rw [none] at split
        exact left (append_eq_nil_iff.mp split.symm).2
      have shorter : (remaining after).length < size := by
        have moved := length_pos_iff.mpr (taken.moves some)
        rw [← length, taken.split, length_append]
        exact Nat.lt_add_of_pos_left moved
      obtain ⟨count, out, written⟩ := ih _ shorter next (fun i => bufs (i + 1)) rfl
      refine ⟨count + 1, piece ++ out, ?_⟩
      rw [range_succ_eq_map, map_cons, map_map, calls_more result]
      show (calls step after ((range count).map fun i => bufs (i + 1))).map _ = _
      rw [written]
      rfl

end Resumable

end Splintermail
