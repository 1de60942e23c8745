/-
This file is the theory of runs of a system that answers an event with a next
state or stops with a fault.

A system is a step function from a state and an event to an outcome. Its runs
are driven by lists of events. Two things are asked of a run: that every state
it reaches satisfies an invariant, and that it does not stop with a fault of a
certain kind. Both follow from a statement about one step, and the statement
may assume a condition on the state and the event before the step: a run whose
steps all meet the condition is a guarded run.
-/

import Mathlib.Logic.Basic

namespace Splintermail

/-! ### Outcomes -/

namespace Outcome

variable {Fault Value Result : Type}

/-- The outcome is a good value or an allowed fault. -/
def Sat (outcome : Except Fault Value) (good : Value → Prop) (allowed : Fault → Prop) : Prop :=
  match outcome with
  | .ok value => good value
  | .error fault => allowed fault

variable {good : Value → Prop} {allowed : Fault → Prop} {value : Value}

@[simp] theorem sat_ok : Sat (.ok value) good allowed ↔ good value := Iff.rfl

@[simp] theorem sat_pure :
    Sat (pure value : Except Fault Value) good allowed ↔ good value := Iff.rfl

@[simp] theorem sat_error {fault : Fault} :
    Sat (.error fault : Except Fault Value) good allowed ↔ allowed fault := Iff.rfl

variable {outcome : Except Fault Value}

theorem Sat.mono {better : Value → Prop} (sat : Sat outcome good allowed)
    (weaker : ∀ value, good value → better value) : Sat outcome better allowed := by
  cases outcome with
  | ok value => exact weaker value sat
  | error fault => exact sat

instance [∀ value, Decidable (good value)] [∀ fault, Decidable (allowed fault)] :
    (outcome : Except Fault Value) → Decidable (Sat outcome good allowed)
  | .ok value => inferInstanceAs (Decidable (good value))
  | .error fault => inferInstanceAs (Decidable (allowed fault))

/-- Sequencing: the second part is run on the good values of the first. -/
theorem Sat.bind {next : Value → Except Fault Result} {final : Result → Prop}
    (first : Sat outcome good allowed)
    (second : ∀ value, good value → Sat (next value) final allowed) :
    Sat (outcome >>= next) final allowed := by
  cases outcome with
  | ok value => exact second value first
  | error fault => exact first

theorem Sat.ite {condition : Prop} [Decidable condition] {first second : Except Fault Value}
    (yes : condition → Sat first good allowed) (no : ¬condition → Sat second good allowed) :
    Sat (if condition then first else second) good allowed := by
  by_cases holds : condition
  · rw [if_pos holds]
    exact yes holds
  · rw [if_neg holds]
    exact no holds

/-- The good values and the faults of an outcome may be known separately. -/
theorem Sat.faultless (sat : Sat outcome good fun _ => True)
    (spared : Sat outcome (fun _ => True) allowed) : Sat outcome good allowed := by
  cases outcome with
  | ok value => exact sat
  | error fault => exact spared

theorem Sat.of_ok (sat : Sat outcome good allowed) (result : outcome = .ok value) : good value := by
  subst result
  exact sat

theorem Sat.of_error {fault : Fault} (sat : Sat outcome good allowed)
    (result : outcome = .error fault) : allowed fault := by
  subst result
  exact sat

end Outcome

/-! ### Runs -/

namespace Run

variable {State Event Fault : Type} (step : State → Event → Except Fault State)

/-- The outcome of a list of events. -/
def run : State → List Event → Except Fault State
  | state, [] => .ok state
  | state, event :: rest => step state event >>= fun next => run next rest

/-- Every step of the run meets the condition on the state before it and its event. -/
def Guarded (condition : State → Event → Prop) : State → List Event → Prop
  | _, [] => True
  | state, event :: rest =>
    condition state event ∧ ∀ next, step state event = .ok next → Guarded condition next rest

variable {step} {condition : State → Event → Prop}

@[simp] theorem run_nil (state : State) : run step state [] = .ok state := rfl

theorem run_cons (state : State) (event : Event) (rest : List Event) :
    run step state (event :: rest) = step state event >>= fun next => run step next rest := rfl

instance Guarded.decidable [decide : ∀ state event, Decidable (condition state event)] :
    (state : State) → (events : List Event) → Decidable (Guarded step condition state events)
  | _, [] => isTrue trivial
  | state, event :: rest =>
    match outcome : step state event with
    | .error _ => decidable_of_iff (condition state event)
        ⟨fun met => ⟨met, fun _ same => nomatch outcome.symm.trans same⟩, fun guarded => guarded.1⟩
    | .ok next =>
      have := Guarded.decidable next rest
      decidable_of_iff (condition state event ∧ Guarded step condition next rest)
        ⟨fun both => ⟨both.1, fun _ same => Except.ok.inj (outcome.symm.trans same) ▸ both.2⟩,
          fun guarded => ⟨guarded.1, guarded.2 next outcome⟩⟩

theorem run_append (state : State) (events rest : List Event) :
    run step state (events ++ rest) = run step state events >>= fun next => run step next rest := by
  induction events generalizing state with
  | nil => rfl
  | cons event events ih =>
    rw [List.cons_append, run_cons, run_cons, bind_assoc]
    exact congrArg _ (funext ih)

variable {state : State} {events : List Event}

/-- A guarded run goes on as a guarded run from the state in its middle. -/
theorem Guarded.append {rest : List Event}
    (guarded : Guarded step condition state (events ++ rest)) :
    Guarded step condition state events ∧
      ∀ next, run step state events = .ok next → Guarded step condition next rest := by
  induction events generalizing state with
  | nil => exact ⟨trivial, fun next same => Except.ok.inj same ▸ guarded⟩
  | cons event events ih =>
    obtain ⟨met, tail⟩ := guarded
    refine ⟨⟨met, fun next outcome => (ih (tail next outcome)).1⟩, ?_⟩
    intro last outcome
    rw [run_cons] at outcome
    cases middle : step state event with
    | ok next =>
      rw [middle] at outcome
      exact (ih (tail next middle)).2 last outcome
    | error fault =>
      rw [middle] at outcome
      cases outcome

theorem Guarded.of_mem {always : Event → Prop} (guarded : Guarded step condition state events)
    (each : ∀ event ∈ events, always event) :
    Guarded step (fun state event => condition state event ∧ always event) state events := by
  induction events generalizing state with
  | nil => exact trivial
  | cons event rest ih =>
    exact ⟨⟨guarded.1, each event List.mem_cons_self⟩, fun next outcome =>
      ih (guarded.2 next outcome) fun other mem => each other (.tail _ mem)⟩

variable {invariant : State → Prop} {allowed : Fault → Prop}

/-- A condition on one step that keeps an invariant and allows only some faults does so along
every guarded run. -/
theorem Guarded.sat (preserved : ∀ state event, invariant state → condition state event →
      Outcome.Sat (step state event) invariant allowed) (start : invariant state)
    (guarded : Guarded step condition state events) :
    Outcome.Sat (run step state events) invariant allowed := by
  induction events generalizing state with
  | nil => exact start
  | cons event rest ih =>
    obtain ⟨met, tail⟩ := guarded
    have first := preserved state event start met
    rw [run_cons]
    cases outcome : step state event with
    | ok next =>
      exact ih (first.of_ok outcome) (tail next outcome)
    | error fault => exact first.of_error outcome

/-- An invariant that every step keeps holds along every run. -/
theorem run_sat
    (preserved : ∀ state event, invariant state → Outcome.Sat (step state event) invariant allowed)
    (start : invariant state) (events : List Event) :
    Outcome.Sat (run step state events) invariant allowed := by
  induction events generalizing state with
  | nil => exact start
  | cons event rest ih =>
    rw [run_cons]
    exact (preserved state event start).bind fun _ next => ih next

/-- A relation holds between the states before and after every step of the run. -/
def Throughout (step : State → Event → Except Fault State) (relation : State → Event → State → Prop)
    (state : State) (events : List Event) : Prop :=
  ∀ before event after, events = before ++ event :: after →
    ∀ earlier, run step state before = .ok earlier →
      ∀ next, step earlier event = .ok next → relation earlier event next

/-- What a step guarantees under an invariant and a condition, every step of a guarded run does. -/
theorem Guarded.throughout {relation : State → Event → State → Prop}
    (preserved : ∀ state event, invariant state → condition state event →
      Outcome.Sat (step state event) invariant allowed)
    (guaranteed : ∀ state event, invariant state → condition state event →
      ∀ next, step state event = .ok next → relation state event next) (start : invariant state)
    (guarded : Guarded step condition state events) : Throughout step relation state events := by
  rintro before event after rfl earlier outcome next result
  obtain ⟨first, rest⟩ := guarded.append
  exact guaranteed earlier event ((first.sat preserved start).of_ok outcome)
    (rest earlier outcome).1 next result

end Run

end Splintermail
