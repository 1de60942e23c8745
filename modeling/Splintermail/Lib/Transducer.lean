/-
This file is the theory of decoders that read bytes one at a time and put out items.

A step takes a state and a byte and gives the next state with the items that are put out,
or refuses the byte. A run puts out the items of its steps in order and stops at the
first refusal. Such a run does not depend on how its text is cut, and neither does a
function that is called for one piece after the other, as long as each of its calls does
what a run does, up to a relation of the states. A text made of parts each of which leads
from a resting state to a resting state is read part by part.
-/

import Mathlib.Data.List.Basic

namespace Splintermail

open List

namespace Transducer

/-- What a run or a call gives: the items it put out, and the state, unless it was refused. -/
abbrev Result (State Item : Type) := List Item × Option State

/-- Items that were put out before. -/
def Result.after {State Item : Type} (items : List Item) (result : Result State Item) :
    Result State Item := (items ++ result.1, result.2)

/-- A result and what happens from the state it ends in. -/
def Result.andThen {State Item : Type} (result : Result State Item)
    (next : State → Result State Item) : Result State Item :=
  match result.2 with
  | none => result
  | some state => (next state).after result.1

section
variable {State Byte Item : Type} (step : State → Byte → Option (State × List Item))

/-- The steps of a text, up to the first refusal. -/
def run : State → List Byte → Result State Item
  | state, [] => ([], some state)
  | state, byte :: rest =>
    match step state byte with
    | none => ([], none)
    | some (next, items) => (run next rest).after items

/-- A function that is called for one piece after the other, up to the first refusal. -/
def pieces (call : State → List Byte → Result State Item) :
    State → List (List Byte) → Result State Item
  | state, [] => ([], some state)
  | state, piece :: rest => (call state piece).andThen fun next => pieces call next rest

/-- Two results with the same items and related states. -/
def Agree (related : State → State → Prop) (first second : Result State Item) : Prop :=
  first.1 = second.1 ∧ Option.Rel related first.2 second.2

variable {step}

@[simp] theorem after_nil (result : Result State Item) : result.after [] = result := rfl

@[simp] theorem after_after (first second : List Item) (result : Result State Item) :
    (result.after second).after first = result.after (first ++ second) :=
  Prod.ext (append_assoc first second result.1).symm rfl

@[simp] theorem run_nil (state : State) : run step state [] = ([], some state) := rfl

theorem run_cons_some {state next : State} {byte : Byte} {items : List Item}
    (stepped : step state byte = some (next, items)) (rest : List Byte) :
    run step state (byte :: rest) = (run step next rest).after items := by
  simp only [run, stepped]

theorem run_cons_none {state : State} {byte : Byte} (stepped : step state byte = none)
    (rest : List Byte) : run step state (byte :: rest) = ([], none) := by
  simp only [run, stepped]

/-- A byte that is refused keeps a run from ending in a state. -/
theorem run_cons_last {state last : State} {byte : Byte} {rest : List Byte} {items : List Item}
    (whole : run step state (byte :: rest) = (items, some last)) :
    ∃ next out more, step state byte = some (next, out) ∧ items = out ++ more ∧
      run step next rest = (more, some last) := by
  cases stepped : step state byte with
  | none =>
    rw [run_cons_none stepped] at whole
    exact absurd (congrArg Prod.snd whole) nofun
  | some result =>
    rw [run_cons_some stepped] at whole
    have ended : (run step result.1 rest).2 = some last := congrArg Prod.snd whole
    exact ⟨result.1, result.2, _, rfl, (congrArg Prod.fst whole).symm, Prod.ext rfl ended⟩

/-! ### Cuts -/

theorem andThen_none (items : List Item) (next : State → Result State Item) :
    Result.andThen (items, none) next = (items, none) := rfl

theorem andThen_some (items : List Item) (state : State) (next : State → Result State Item) :
    Result.andThen (items, some state) next = (next state).after items := rfl

theorem after_andThen (items : List Item) (result : Result State Item)
    (next : State → Result State Item) :
    (result.after items).andThen next = (result.andThen next).after items := by
  obtain ⟨out, _ | state⟩ := result
  · rfl
  · exact (after_after items out (next state)).symm

/-- A text is run like its first part and then, from where that ended, the rest. -/
theorem run_append (state : State) (front back : List Byte) :
    run step state (front ++ back) =
      (run step state front).andThen fun next => run step next back := by
  induction front generalizing state with
  | nil => rfl
  | cons byte rest ih =>
    cases stepped : step state byte with
    | none =>
      rw [cons_append, run_cons_none stepped, run_cons_none stepped, andThen_none]
    | some result =>
      obtain ⟨next, items⟩ := result
      rw [cons_append, run_cons_some stepped, ih, run_cons_some stepped, after_andThen]

/-- Calls that do what runs do, up to a relation of the states, give for the pieces of a text
what a run gives for the text. -/
theorem pieces_agree {call : State → List Byte → Result State Item}
    {related : State → State → Prop}
    (follows : ∀ {state other : State} (piece : List Byte), related state other →
      Agree related (call state piece) (run step other piece))
    {state other : State} (start : related state other) (texts : List (List Byte)) :
    Agree related (pieces call state texts) (run step other texts.flatten) := by
  induction texts generalizing state other with
  | nil => exact ⟨rfl, .some start⟩
  | cons piece rest ih =>
    obtain ⟨same, agree⟩ := follows piece start
    rw [flatten_cons, run_append, pieces]
    generalize call state piece = called at same agree
    generalize run step other piece = ran at same agree
    obtain ⟨out, _ | next⟩ := called
    · obtain ⟨items, _ | mid⟩ := ran
      · exact ⟨same, .none⟩
      · cases agree
    · obtain ⟨items, _ | mid⟩ := ran
      · cases agree
      · cases agree with
        | some after =>
          obtain ⟨sameRest, agreeRest⟩ := ih after
          exact ⟨congrArg₂ (· ++ ·) same sameRest, agreeRest⟩

end

/-! ### Parts -/

section
variable {State Byte Item Part : Type} {step : State → Byte → Option (State × List Item)}
  {rests : State → Prop} {text : Part → List Byte} {item : Part → Item}

/-- A text made of parts that each lead from rest to rest puts out the items of the parts. -/
theorem run_flatMap (parts : List Part)
    (each : ∀ part ∈ parts, ∀ state, rests state →
      ∃ next, rests next ∧ run step state (text part) = ([item part], some next))
    {state : State} (start : rests state) :
    ∃ last, rests last ∧ run step state (parts.flatMap text) = (parts.map item, some last) := by
  induction parts generalizing state with
  | nil => exact ⟨state, start, rfl⟩
  | cons part rest ih =>
    obtain ⟨next, resting, one⟩ := each part mem_cons_self state start
    obtain ⟨last, ended, more⟩ :=
      ih (fun other mem => each other (.tail part mem)) resting
    refine ⟨last, ended, ?_⟩
    rw [flatMap_cons, run_append, one, andThen_some, more, map_cons]
    rfl

/-- If every run from rest to rest begins with a part, then it consists of parts. -/
theorem run_parts {good : Part → Prop}
    (begins : ∀ {state last : State} {whole : List Byte} {items : List Item}, rests state →
      rests last → whole ≠ [] → run step state whole = (items, some last) →
      ∃ part next rest more, good part ∧ text part ≠ [] ∧ whole = text part ++ rest ∧
        items = item part :: more ∧ rests next ∧ run step next rest = (more, some last))
    {state last : State} {whole : List Byte} {items : List Item} (start : rests state)
    (ended : rests last) (ran : run step state whole = (items, some last)) :
    ∃ parts : List Part, whole = parts.flatMap text ∧ items = parts.map item ∧
      ∀ part ∈ parts, good part := by
  induction length : whole.length using Nat.strongRecOn generalizing state whole items with
  | ind size ih =>
    by_cases empty : whole = []
    · rw [empty, run_nil] at ran
      exact ⟨[], empty, (congrArg Prod.fst ran).symm, nofun⟩
    · obtain ⟨part, next, rest, more, isGood, some, rfl, rfl, resting, goesOn⟩ :=
        begins start ended empty ran
      have shorter : rest.length < size := by
        rw [← length, length_append]
        exact Nat.lt_add_of_pos_left (length_pos_iff.mpr some)
      obtain ⟨parts, rfl, rfl, all⟩ := ih _ shorter resting goesOn rfl
      exact ⟨part :: parts, rfl, rfl, forall_mem_cons.mpr ⟨isGood, all⟩⟩

end

end Transducer

end Splintermail
