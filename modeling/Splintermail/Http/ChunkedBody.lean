/-
This file says what a chunked body is, and what `parse_chunk_header` finds in one.

A body is chunks, of which each has a line with its size, as many bytes, and the end of a
line, then the line of the last chunk, which has the size zero, and lines of the trailer up
to an empty one. It is read in one way only, because the lines are. The lines are those that
fit in the buffer, together with the end of a line that comes before them.
-/

import Splintermail.Http.Chunked
import Splintermail.Lib.Framing

namespace Splintermail

open List

open Framing

/-! ### Lines -/

namespace LineParser

variable {Value : Type} (parser : LineParser Value) {value : Value}

theorem unique {line other front back : Bytes} {another : Value} (first : parser.Line line value)
    (second : parser.Line other another) (same : line ++ front = other ++ back) :
    line = other ∧ value = another := by
  have found := parser.done_of_line front first
  rw [same, parser.done_of_line back second] at found
  injection found with length values
  exact ⟨(append_inj same length.symm).1, values.symm⟩

/-- A text is not refused if it goes on as a line. -/
theorem parse_of_begins {text more line tail : Bytes} (is : parser.Line line value)
    (begins : text ++ more = line ++ tail) :
    parser.parse text = .more ∧ text.length < line.length ∨
      ∃ rest, text = line ++ rest ∧ parser.parse text = .done line.length value := by
  rcases append_eq_append_iff.mp begins with ⟨rest, whole, -⟩ | ⟨rest, whole, -⟩
  · by_cases none : rest = []
    · rw [none, append_nil] at whole
      refine .inr ⟨[], by rw [whole, append_nil], ?_⟩
      have found := parser.done_of_line [] is
      rw [append_nil] at found
      rw [← whole]
      exact found
    · refine .inl ⟨parser.more_of_short (whole ▸ is) none, ?_⟩
      rw [whole, length_append]
      exact Nat.lt_add_of_pos_right (length_pos_iff.mpr none)
  · exact .inr ⟨rest, whole, whole ▸ parser.done_of_line rest is⟩

theorem parse_done {text : Bytes} {used : Nat} (found : parser.parse text = .done used value) :
    ∃ line rest, text = line ++ rest ∧ used = line.length ∧ 0 < used ∧ parser.Line line value := by
  obtain ⟨bound, is⟩ := parser.line_of_done found
  have length : (text.take used).length = used := by rw [length_take, Nat.min_eq_left bound]
  refine ⟨text.take used, text.drop used, (take_append_drop _ _).symm, length.symm, ?_, is⟩
  rw [← length]
  exact length_pos_iff.mpr (parser.nonempty is)

end LineParser

/-! ### The format -/

/-- A byte of a chunk, or a header of the trailer. -/
inductive ChunkedItem where
  | byte (byte : UInt8)
  | header (hdr : HttpHdr)
  deriving DecidableEq, Repr

/-- What comes next in a body: its first line, so many bytes of a chunk and then a line, the lines
of the trailer, or nothing. -/
inductive ChunkedPhase where
  | start
  | data (left : Nat)
  | trailer
  | finished
  deriving DecidableEq, Repr

/-- What comes before the line of a chunk. -/
inductive Leads : ChunkedPhase → Bytes → Prop where
  | start : Leads .start []
  | data : Leads (.data 0) crlf

/-- What follows the line of a chunk of this size. -/
def afterLine (size : Nat) : ChunkedPhase := if size = 0 then .trailer else .data size

/-- The parts of a body. -/
inductive ChunkedToken (web : Web) : ChunkedPhase → Bytes → List ChunkedItem → ChunkedPhase → Prop where
  | line {phase : ChunkedPhase} {lead line : Bytes} {size : Nat} :
    Leads phase lead → web.chunk.Line line size → (lead ++ line).length ≤ chunkedBufSize →
    ChunkedToken web phase (lead ++ line) [] (afterLine size)
  | byte (byte : UInt8) (left : Nat) : ChunkedToken web (.data (left + 1)) [byte] [.byte byte] (.data left)
  | header {line : Bytes} {hdr : HttpHdr} :
    web.hdrLine.Line line hdr → hdr.key ≠ [] → line.length ≤ chunkedBufSize →
    ChunkedToken web .trailer line [.header hdr] .trailer
  | ending {line : Bytes} {hdr : HttpHdr} :
    web.hdrLine.Line line hdr → hdr.key = [] → line.length ≤ chunkedBufSize →
    ChunkedToken web .trailer line [] .finished

/-- A part of a body, from one phase to another, with what it means. -/
abbrev ChunkedReads (web : Web) : ChunkedPhase → Bytes → List ChunkedItem → ChunkedPhase → Prop :=
  Spelled (ChunkedToken web)

/-- A complete chunked body, with its data and the headers of its trailer. -/
def ChunkedBody (web : Web) (text : Bytes) (items : List ChunkedItem) : Prop :=
  ChunkedReads web .start text items .finished

section

variable {web : Web} {phase : ChunkedPhase}

theorem Leads.unique {lead other : Bytes} (first : Leads phase lead) (second : Leads phase other) :
    lead = other := by
  cases first <;> cases second <;> rfl

theorem chunkedToken_unambiguous : Unambiguous (ChunkedToken web) := by
  intro phase first second front back items others next other one two same
  cases one with
  | line leads is fits =>
    cases two with
    | line leads' is' fits' =>
      cases leads.unique leads'
      rw [append_assoc, append_assoc] at same
      obtain ⟨rfl, rfl⟩ := web.chunk.unique is is' (append_cancel_left same)
      exact ⟨rfl, rfl, rfl⟩
    | byte => exact absurd leads nofun
    | header => exact absurd leads nofun
    | ending => exact absurd leads nofun
  | byte byte left =>
    cases two with
    | line leads' is' fits' => exact absurd leads' nofun
    | byte byte' left' =>
      cases (List.cons.inj same).1
      exact ⟨rfl, rfl, rfl⟩
  | header is named fits =>
    cases two with
    | line leads' is' fits' => exact absurd leads' nofun
    | header is' named' fits' =>
      obtain ⟨rfl, rfl⟩ := web.hdrLine.unique is is' same
      exact ⟨rfl, rfl, rfl⟩
    | ending is' unnamed fits' =>
      obtain ⟨rfl, rfl⟩ := web.hdrLine.unique is is' same
      exact absurd unnamed named
  | ending is unnamed fits =>
    cases two with
    | line leads' is' fits' => exact absurd leads' nofun
    | header is' named' fits' =>
      obtain ⟨rfl, rfl⟩ := web.hdrLine.unique is is' same
      exact absurd unnamed named'
    | ending is' unnamed' fits' =>
      obtain ⟨rfl, rfl⟩ := web.hdrLine.unique is is' same
      exact ⟨rfl, rfl, rfl⟩

theorem chunkedToken_finished (text : Bytes) (items : List ChunkedItem) (phase : ChunkedPhase) :
    ¬ ChunkedToken web .finished text items phase := by
  intro token
  cases token with
  | line leads is fits => exact absurd leads nofun

variable {text : Bytes} {items : List ChunkedItem}

/-- What was read of a body is the beginning of it, and the rest is read from there. -/
theorem ChunkedReads.residual {next : ChunkedPhase} {rest : Bytes} {whole : List ChunkedItem}
    (reads : ChunkedReads web phase text items next)
    (complete : ChunkedReads web phase (text ++ rest) whole .finished) :
    ∃ more, whole = items ++ more ∧ ChunkedReads web next rest more .finished :=
  Spelled.residual chunkedToken_unambiguous chunkedToken_finished reads complete

theorem chunkedReads_data {left : Nat} {piece : Bytes} (bound : piece.length ≤ left) :
    ChunkedReads web (.data left) piece (piece.map .byte) (.data (left - piece.length)) := by
  induction piece generalizing left with
  | nil => exact .nil _
  | cons byte rest ih =>
    obtain ⟨before, rfl⟩ : ∃ before, left = before + 1 :=
      ⟨left - 1, (Nat.sub_add_cancel (Nat.le_trans (Nat.succ_pos _) bound)).symm⟩
    have goesOn := ih (Nat.le_of_succ_le_succ bound)
    rw [length_cons, Nat.add_sub_add_right]
    exact Spelled.cons (.byte byte before) goesOn

/-- A body does not end within a chunk. -/
theorem ChunkedReads.longer {left : Nat}
    (reads : ChunkedReads web (.data left) text items .finished) : left < text.length := by
  induction left generalizing text items with
  | zero =>
    obtain ⟨first, rest, next, meaning, more, rfl, token, -⟩ := reads.begins nofun
    cases token with
    | line leads is fits =>
      rw [length_append, length_append]
      exact Nat.add_pos_left (Nat.add_pos_right _ (length_pos_iff.mpr (web.chunk.nonempty is))) _
  | succ left ih =>
    obtain ⟨first, rest, next, meaning, more, rfl, token, reads⟩ := reads.begins nofun
    cases token with
    | line leads is fits => exact absurd leads nofun
    | byte byte => exact Nat.succ_lt_succ (ih reads)

/-! ### The headers of chunks -/

/-- Nothing that goes on from a text in this phase is a body. -/
def Refused (web : Web) (phase : ChunkedPhase) (text : Bytes) : Prop :=
  ∀ more items, ¬ ChunkedReads web phase (text ++ more) items .finished

theorem Refused.append (refused : Refused web phase text) (more : Bytes) :
    Refused web phase (text ++ more) := by
  intro rest items reads
  rw [append_assoc] at reads
  exact refused _ _ reads

/-- What comes next is the line of a chunk, after what leads to it. -/
theorem ChunkedReads.begins_line {lead : Bytes} (leads : Leads phase lead)
    (reads : ChunkedReads web phase text items .finished) :
    ∃ line size tail, text = lead ++ line ++ tail ∧ web.chunk.Line line size ∧
      (lead ++ line).length ≤ chunkedBufSize := by
  obtain ⟨first, rest, next, meaning, more, rfl, token, -⟩ := reads.begins (by cases leads <;> nofun)
  cases token with
  | line leads' is fits =>
    cases leads.unique leads'
    exact ⟨_, _, rest, rfl, is, fits⟩
  | byte => exact absurd leads nofun
  | header => exact absurd leads nofun
  | ending => exact absurd leads nofun

theorem ChunkedReads.begins_hdrLine (reads : ChunkedReads web .trailer text items .finished) :
    ∃ line hdr tail, text = line ++ tail ∧ web.hdrLine.Line line hdr ∧
      line.length ≤ chunkedBufSize := by
  obtain ⟨first, rest, next, meaning, more, rfl, token, -⟩ := reads.begins nofun
  cases token with
  | line leads is fits => exact absurd leads nofun
  | header is named fits => exact ⟨_, _, rest, rfl, is, fits⟩
  | ending is unnamed fits => exact ⟨_, _, rest, rfl, is, fits⟩

end

end Splintermail
