/-
This file is the theory of streams that are framed by tokens.

A format is a relation of tokens: in a phase it allows some texts, each of which means
something and leads to another phase. A stream is read from phase to phase, and what it
means is what its tokens mean, one after the other. A format in which no two tokens of
a phase begin the same text can be read in one way only: what was read of a stream is the
beginning of every reading of it, and what is left of it is read from the phase that was
reached.
-/

import Mathlib.Data.List.Basic

namespace Splintermail

open List

namespace Framing

variable {Phase Byte Item : Type} (token : Phase → List Byte → List Item → Phase → Prop)

/-- A text is read from a phase to another, and means these items. -/
inductive Spelled : Phase → List Byte → List Item → Phase → Prop where
  | nil (phase : Phase) : Spelled phase [] [] phase
  | cons {phase next last : Phase} {text rest : List Byte} {items more : List Item} :
    token phase text items next → Spelled next rest more last →
    Spelled phase (text ++ rest) (items ++ more) last

/-- Of the tokens of a phase only one can begin a text. -/
def Unambiguous : Prop :=
  ∀ ⦃phase : Phase⦄ ⦃first second front back : List Byte⦄ ⦃items others : List Item⦄
    ⦃next other : Phase⦄, token phase first items next → token phase second others other →
    first ++ front = second ++ back → first = second ∧ items = others ∧ next = other

variable {token} {text : List Byte} {items : List Item}

theorem Spelled.single {phase next : Phase} (read : token phase text items next) :
    Spelled token phase text items next := by
  have reads := Spelled.cons read (Spelled.nil next)
  rw [append_nil, append_nil] at reads
  exact reads

variable {rest : List Byte}

theorem Spelled.append {phase next last : Phase} {more : List Item}
    (reads : Spelled token phase text items next) (then' : Spelled token next rest more last) :
    Spelled token phase (text ++ rest) (items ++ more) last := by
  induction reads with
  | nil phase => exact then'
  | cons read reads ih =>
    rw [append_assoc, append_assoc]
    exact .cons read (ih then')

theorem Spelled.concat {phase next last : Phase} {more : List Item}
    (reads : Spelled token phase text items next) (read : token next rest more last) :
    Spelled token phase (text ++ rest) (items ++ more) last :=
  reads.append (.single read)

/-- A text that is read to another phase begins with a token. -/
theorem Spelled.begins {phase last : Phase} (reads : Spelled token phase text items last)
    (moves : phase ≠ last) :
    ∃ first rest next meaning more, text = first ++ rest ∧ token phase first meaning next ∧
      Spelled token next rest more last := by
  cases reads with
  | nil => exact absurd rfl moves
  | cons read reads => exact ⟨_, _, _, _, _, rfl, read, reads⟩

/-- What was read of a text that is read to its end is the beginning of that reading. -/
theorem Spelled.residual (unambiguous : Unambiguous token) {phase next last : Phase}
    (final : ∀ text items other, ¬ token last text items other) {whole : List Item}
    (reads : Spelled token phase text items next)
    (complete : Spelled token phase (text ++ rest) whole last) :
    ∃ more, whole = items ++ more ∧ Spelled token next rest more last := by
  induction reads generalizing whole with
  | nil phase => exact ⟨whole, rfl, complete⟩
  | @cons phase middle next first tail meaning items read reads ih =>
    by_cases same : phase = last
    · exact absurd (same ▸ read) (final _ _ _)
    · generalize spelled : first ++ tail ++ rest = text at complete
      cases complete with
      | nil => exact absurd rfl same
      | @cons _ other _ begun rest' others more begins continues =>
        rw [append_assoc] at spelled
        obtain ⟨rfl, rfl, rfl⟩ := unambiguous read begins spelled
        rw [← append_cancel_left spelled] at continues
        obtain ⟨left, rfl, goesOn⟩ := ih continues
        exact ⟨left, (append_assoc _ _ _).symm, goesOn⟩

end Framing

end Splintermail
