/-
This file follows the decrypter through any text, line by line.

A text that arrives in parts is read as if it were all there: what a call leaves is the
beginning of what the next one reads. A reading remembers the lines that were taken, and
so what the decrypter knows is told by what these lines decode to: lines of metadata, and
then the message, of which every byte has gone through the library.
-/

import Mathlib.Logic.Relation
import Splintermail.Crypto.Metadata

namespace Splintermail

open List

/-! ### Taking lines -/

/-- The decrypter within a text: what was taken of it, and what is left. -/
structure Reading (OpenCtx : Type) where
  dc : Decrypter OpenCtx
  out : Bytes
  lines : List Bytes
  tagLine : Bytes
  rest : Bytes

/-- What some lines decode to, and what is left of them in `base64`. -/
def decodeLines (lines : List Bytes) : Bytes × Bytes :=
  lines.foldl (fun (decoded, left) line =>
    (decoded ++ (b642binStream (left ++ line)).1, (b642binStream (left ++ line)).2)) ([], [])

section

variable {Key SealCtx OpenCtx : Type} {evp : Evp Key SealCtx OpenCtx} {kp : Key}

/-- A line leaves what was found of the text around it. -/
theorem decrypterLine_frame {dc after : Decrypter OpenCtx} {sub out text : Bytes} {goOn : Bool}
    (read : decrypterLine evp kp dc sub out = .ok (after, text, goOn)) :
    after.headerFound = dc.headerFound ∧ after.tagFound = dc.tagFound ∧ after.tag = dc.tag ∧
      after.base64 = (b642binStream (dc.base64 ++ sub)).2 := by
  unfold decrypterLine at read
  dsimp only at read
  split at read
  · exact absurd read nofun
  split at read
  · exact absurd read nofun
  · cases read
    exact ⟨rfl, rfl, rfl, rfl⟩
  · split at read
    · cases read
      exact ⟨rfl, rfl, rfl, rfl⟩
    · split at read
      · exact absurd read nofun
      · cases read
        exact ⟨rfl, rfl, rfl, rfl⟩

theorem decrypterTag_sat (dc : Decrypter OpenCtx) (sub : Bytes) :
    Outcome.Sat (decrypterTag dc sub) (fun after => after = { dc with
          tagFound := true
          base64 := []
          tag := dc.tag ++ (b642binStream (dstrSub sub 1 0)).1 })
      fun error => error.type = .param := by
  unfold decrypterTag
  dsimp only
  split <;> rfl

theorem decrypterTag_short {dc after : Decrypter OpenCtx} {sub : Bytes}
    (read : decrypterTag dc sub = .ok after) : after.tag.length ≤ 16 := by
  unfold decrypterTag at read
  dsimp only at read
  split at read
  · exact absurd read nofun
  · next short =>
    cases read
    exact Nat.le_of_not_lt short

end

namespace Reading

variable {Key SealCtx OpenCtx : Type}

/-- A text of which nothing is read. -/
def start (text : Bytes) : Reading OpenCtx := ⟨.start, [], [], [], text⟩

/-- What the loop of `decrypter_update` reads next: a line, or as much of it as there is room for. -/
def nextPiece (reading : Reading OpenCtx) : Option Bytes :=
  if reading.dc.headerFound = true ∧ reading.dc.tagFound = false ∧
      decrypterSize - reading.dc.base64.length ≠ 0 then
    (dstrFind [ascii "\n"] reading.rest).map fun place =>
      reading.rest.take (min (decrypterSize - reading.dc.base64.length) (place.1 + 1))
  else none

variable {reading : Reading OpenCtx}

/-- What is read next is not empty, and there is room for it. -/
theorem nextPiece_fits {piece : Bytes} (next : reading.nextPiece = some piece) :
    reading.dc.headerFound = true ∧
      reading.dc.tagFound = false ∧ piece ≠ [] ∧
      reading.dc.base64.length + piece.length ≤ decrypterSize := by
  unfold nextPiece at next
  split at next
  · next state =>
    obtain ⟨headed, untagged, room⟩ := state
    obtain ⟨⟨position, which⟩, found, rfl⟩ := Option.map_eq_some_iff.mp next
    have newline : ascii "\n" = [10] := rfl
    rw [newline] at found
    obtain ⟨front, tail, whole, -, rfl⟩ := dstrFind_byte_some found
    rw [whole]
    refine ⟨headed, untagged, fun empty => ?_, ?_⟩
    · rcases take_eq_nil_iff.mp empty with none | nothing
      · omega
      · simp at nothing
    · rw [length_take]
      omega
  · exact absurd next nofun

variable (evp : Evp Key SealCtx OpenCtx) (kp : Key)

/-- One step in the text: the header, a line, or the line of the tag. -/
inductive Advances : Reading OpenCtx → Reading OpenCtx → Prop
  | header (reading : Reading OpenCtx) (header rest : Bytes)
      (unread : reading.dc.headerFound = false) (begins : reading.rest = header ++ rest)
      (size : header.length = pemHeader.length) (same : dstrCmp2 header pemHeader = 0) :
      Advances reading { reading with dc := { reading.dc with headerFound := true }, rest }
  | line (reading : Reading OpenCtx) (piece rest : Bytes) (dc : Decrypter OpenCtx) (out : Bytes)
      (goOn : Bool) (next : reading.nextPiece = some piece) (begins : reading.rest = piece ++ rest)
      (untagged : piece.head? ≠ some 61)
      (read : decrypterLine evp kp reading.dc piece reading.out = .ok (dc, out, goOn)) :
      Advances reading { reading with dc, out, lines := reading.lines ++ [piece], rest }
  | tag (reading : Reading OpenCtx) (piece rest : Bytes) (dc : Decrypter OpenCtx)
      (next : reading.nextPiece = some piece) (begins : reading.rest = piece ++ rest)
      (tagged : piece.head? = some 61) (read : decrypterTag reading.dc piece = .ok dc) :
      Advances reading { reading with dc, tagLine := piece, rest }

/-- What a step raises. -/
inductive Raises : Reading OpenCtx → Derr → Prop
  | header (reading : Reading OpenCtx) : Raises reading ⟨.param, "PEM header not found"⟩
  | long (reading : Reading OpenCtx) : Raises reading ⟨.param, "bad decryption, line too long"⟩
  | line (reading : Reading OpenCtx) (piece : Bytes) (error : Derr)
      (next : reading.nextPiece = some piece) (untagged : piece.head? ≠ some 61)
      (read : decrypterLine evp kp reading.dc piece reading.out = .error error) :
      Raises reading error
  | tag (reading : Reading OpenCtx) (piece : Bytes) (error : Derr)
      (next : reading.nextPiece = some piece) (tagged : piece.head? = some 61)
      (read : decrypterTag reading.dc piece = .error error) : Raises reading error

/-- The readings that the decrypter comes to. -/
def Reaches : Reading OpenCtx → Reading OpenCtx → Prop := Relation.ReflTransGen (Advances evp kp)

section

variable {evp kp} {first second third : Reading OpenCtx}

/-- There is one next step. -/
theorem Advances.unique (one : Advances evp kp first second) (other : Advances evp kp first third) :
    second = third := by
  cases one with
  | header header rest unread begins size same =>
    cases other with
    | header header' rest' unread' begins' size' same' =>
      obtain ⟨-, rfl⟩ := append_inj (begins.symm.trans begins') (size.trans size'.symm)
      rfl
    | line piece rest dc out goOn next =>
      exact absurd (unread.symm.trans (nextPiece_fits next).1) nofun
    | tag piece rest dc next => exact absurd (unread.symm.trans (nextPiece_fits next).1) nofun
  | line piece rest dc out goOn next begins plain read =>
    cases other with
    | header header rest unread => exact absurd (unread.symm.trans (nextPiece_fits next).1) nofun
    | line piece' rest' dc' out' goOn' next' begins' plain' read' =>
      cases next.symm.trans next'
      obtain rfl := append_cancel_left (begins.symm.trans begins')
      obtain ⟨rfl, rfl, rfl⟩ : dc = dc' ∧ out = out' ∧ goOn = goOn' := by
        simpa using read.symm.trans read'
      rfl
    | tag piece' rest' dc' next' begins' tagged =>
      cases next.symm.trans next'
      exact absurd tagged plain
  | tag piece rest dc next begins tagged read =>
    cases other with
    | header header rest unread => exact absurd (unread.symm.trans (nextPiece_fits next).1) nofun
    | line piece' rest' dc' out' goOn' next' begins' plain =>
      cases next.symm.trans next'
      exact absurd tagged plain
    | tag piece' rest' dc' next' begins' tagged' read' =>
      cases next.symm.trans next'
      obtain rfl := append_cancel_left (begins.symm.trans begins')
      cases read.symm.trans read'
      rfl

theorem Reaches.next (advances : Advances evp kp first second) (reached : Reaches evp kp first third) :
    third = first ∨ Reaches evp kp second third := by
  rcases Relation.ReflTransGen.cases_head reached with same | ⟨next, step, later⟩
  · exact .inl same.symm
  · exact .inr (step.unique advances ▸ later)

theorem Reaches.stays (headed : first.dc.headerFound = true) (last : first.nextPiece = none)
    (reached : Reaches evp kp first third) : third = first := by
  rcases Relation.ReflTransGen.cases_head reached with same | ⟨next, step, -⟩
  · exact same.symm
  · cases step with
    | header header rest unread => exact absurd (headed.symm.trans unread) nofun
    | line piece rest dc out goOn next => exact absurd (last.symm.trans next) nofun
    | tag piece rest dc next => exact absurd (last.symm.trans next) nofun

end

/-! ### Parts of a text -/

/-- The reading that belongs to a state of the decrypter, with what is left of the text. Once the tag
is found, nothing more is read. -/
structure Shows (reading : Reading OpenCtx) (dc : Decrypter OpenCtx) (out rest : Bytes) : Prop where
  state : reading.dc = dc
  output : reading.out = out
  left : (dc.headerFound && dc.tagFound) = false → reading.rest = rest

/-- What a call makes of a text: the reading of the state it returns, or one that raises its error. -/
def Follows (reading : Reading OpenCtx) (undelivered : Bytes) :
    Except Derr (Decrypter OpenCtx × Bytes × Bytes) → Prop
  | .ok (dc, left, out) => ∃ later, Reaches evp kp reading later ∧
      later.Shows dc out (left ++ undelivered)
  | .error error => ∃ later, Reaches evp kp reading later ∧ Raises evp kp later error

variable {evp kp} {undelivered : Bytes}

theorem Follows.after {later : Reading OpenCtx}
    {result : Except Derr (Decrypter OpenCtx × Bytes × Bytes)}
    (reached : Reaches evp kp reading later) (follows : Follows evp kp later undelivered result) :
    Follows evp kp reading undelivered result := by
  cases result with
  | ok state =>
    obtain ⟨last, more, shows⟩ := follows
    exact ⟨last, Relation.ReflTransGen.trans reached more, shows⟩
  | error error =>
    obtain ⟨last, more, raises⟩ := follows
    exact ⟨last, Relation.ReflTransGen.trans reached more, raises⟩

variable {dc : Decrypter OpenCtx}

section

variable {reading : Reading OpenCtx} {out input : Bytes}
  (shows : reading.Shows dc out (input ++ undelivered))

include shows

/-- A line that is there is the next one of the whole text. -/
theorem nextPiece_eq {place : Nat × Nat} (headed : dc.headerFound = true)
    (untagged : dc.tagFound = false) (room : decrypterSize - dc.base64.length ≠ 0)
    (found : dstrFind [ascii "\n"] input = some place) :
    reading.nextPiece =
      some (input.take (min (decrypterSize - dc.base64.length) (place.1 + 1))) := by
  obtain ⟨position, which⟩ := place
  have newline : ascii "\n" = [10] := rfl
  rw [newline] at found
  obtain ⟨front, tail, rfl, apart, rfl⟩ := dstrFind_byte_some found
  have whole : dstrFind [ascii "\n"] (front ++ 10 :: tail ++ undelivered) =
      some (front.length, 0) := by
    rw [append_assoc, cons_append]
    exact dstrFind_byte apart _
  have within : min (decrypterSize - dc.base64.length) (front.length + 1) ≤
      (front ++ 10 :: tail).length := by
    rw [length_append, length_cons]
    omega
  have more : (dc.headerFound && dc.tagFound) = false := by rw [untagged, Bool.and_false]
  rw [nextPiece, shows.state, if_pos ⟨headed, untagged, room⟩, shows.left more, whole,
    Option.map_some, take_append_of_le_length within]

/-- The loop of `decrypter_update` goes on in the text. -/
theorem follows_decrypterLoop (headed : dc.headerFound = true) :
    Follows evp kp reading undelivered (decrypterLoop evp kp dc input out) := by
  induction length : input.length using Nat.strongRecOn generalizing reading dc input out with
  | ind count ih =>
    rw [decrypterLoop]
    split
    · next empty =>
      rw [empty] at shows
      exact ⟨reading, .refl, shows⟩
    split
    · next nonempty tagged =>
      rw [← headed] at tagged
      exact ⟨reading, .refl, shows.state, shows.output, fun more =>
        absurd more (by rw [tagged, Bool.and_self, headed]; nofun)⟩
    next nonempty untagged =>
    rw [Bool.not_eq_true] at untagged
    split
    · exact ⟨reading, .refl, .long reading⟩
    next room =>
    cases found : dstrFind [ascii "\n"] input with
    | none => exact ⟨reading, .refl, shows⟩
    | some place =>
    have next := nextPiece_eq shows headed untagged room found
    dsimp only
    generalize taken : min (decrypterSize - dc.base64.length) (place.1 + 1) = count at next ⊢
    have begins : reading.rest = input.take count ++ (input.drop count ++ undelivered) := by
      have more : (dc.headerFound && dc.tagFound) = false := by rw [untagged, Bool.and_false]
      rw [shows.left more, ← append_assoc, take_append_drop]
    obtain ⟨rfl, rfl⟩ := And.intro shows.state shows.output
    split
    · next tagLine =>
      cases read : decrypterTag reading.dc (input.take count) with
      | error error => exact ⟨reading, .refl, .tag reading _ error next tagLine read⟩
      | ok after =>
        refine ⟨_, .single (.tag reading _ _ after next begins tagLine read), rfl, rfl, ?_⟩
        rw [(decrypterTag_sat reading.dc (input.take count)).of_ok read]
        show (reading.dc.headerFound && true) = false → _
        rw [headed]
        exact nofun
    · next other =>
      cases read : decrypterLine evp kp reading.dc (input.take count) reading.out with
      | error error => exact ⟨reading, .refl, .line reading _ error next other read⟩
      | ok result =>
        obtain ⟨after, text, goOn⟩ := result
        have advances := Advances.line reading _ _ after text goOn next begins other read
        refine Follows.after (.single advances) ?_
        have following : Reading.Shows { reading with
              dc := after, out := text, lines := reading.lines ++ [input.take count],
              rest := input.drop count ++ undelivered }
            after text (input.drop count ++ undelivered) := ⟨rfl, rfl, fun _ => rfl⟩
        cases goOn with
        | false => exact ⟨_, .refl, following⟩
        | true =>
          have shorter : (input.drop count).length < input.length := by
            have positive := length_pos_iff.mpr nonempty
            rw [length_drop]
            omega
          refine ih _ (length ▸ shorter) following ?_ rfl
          rw [(decrypterLine_frame read).1]
          exact headed

theorem follows_decrypterUpdate :
    Follows evp kp reading undelivered (decrypterUpdate evp kp dc input out) := by
  unfold decrypterUpdate
  split
  · next headed => exact follows_decrypterLoop shows headed
  next unread =>
  rw [Bool.not_eq_true] at unread
  split
  · exact ⟨reading, .refl, shows⟩
  next enough =>
  split
  · exact ⟨reading, .refl, .header reading⟩
  next same =>
  rw [not_not, dstrSub_zero (by decide)] at same
  have more : (dc.headerFound && dc.tagFound) = false := by rw [unread, Bool.false_and]
  have begins : reading.rest =
      input.take pemHeader.length ++ (input.drop pemHeader.length ++ undelivered) := by
    rw [shows.left more, ← append_assoc, take_append_drop]
  have size : (input.take pemHeader.length).length = pemHeader.length :=
    length_take_of_le (Nat.le_of_not_lt enough)
  obtain ⟨rfl, rfl⟩ := And.intro shows.state shows.output
  refine Follows.after (.single (.header reading _ _ unread begins size same)) ?_
  exact follows_decrypterLoop ⟨rfl, rfl, fun _ => rfl⟩ rfl

end

theorem follows_decrypterDeliver {left out : Bytes} (deliveries : List Bytes)
    (shows : reading.Shows dc out (left ++ deliveries.flatten)) :
    Follows evp kp reading [] (decrypterDeliver evp kp dc left out deliveries) := by
  induction deliveries generalizing reading dc left out with
  | nil => exact ⟨reading, .refl, shows⟩
  | cons part others ih =>
    rw [flatten_cons, ← append_assoc] at shows
    have follows := @follows_decrypterUpdate _ _ _ evp kp _ _ _ _ _ shows
    rw [decrypterDeliver]
    cases result : decrypterUpdate evp kp dc (left ++ part) out with
    | error error =>
      rw [result] at follows
      exact follows
    | ok state =>
      obtain ⟨after, remaining, text⟩ := state
      rw [result] at follows
      obtain ⟨later, reached, following⟩ := follows
      exact (ih following).after reached

theorem follows_decrypter (deliveries : List Bytes) :
    Follows evp kp (start deliveries.flatten) []
      (decrypterDeliver evp kp .start [] [] deliveries) :=
  follows_decrypterDeliver deliveries ⟨rfl, rfl, fun _ => rfl⟩

end Reading

end Splintermail
