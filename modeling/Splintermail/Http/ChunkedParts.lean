/-
This file says what each part of `advance_state` does to a reader of chunked bodies, in terms
of the body: what is left in the buffer is read from the phase that the counters tell.

A chunk is delivered as far as it is in the buffer. If the end of what is readable wraps
around then nothing is readable, and that is noticed only where a chunk begins: further
inside of a chunk the buffer is emptied, and then nothing wraps.
-/

import Splintermail.Http.ChunkedBody

namespace Splintermail

open List

open Framing

/-! ### Lines that are not there yet -/

namespace LineParser

variable {Value : Type} (parser : LineParser Value)

theorem short_of_more {text more line tail : Bytes} {value : Value} (asks : parser.parse text = .more)
    (is : parser.Line line value) (begins : text ++ more = line ++ tail) :
    text.length < line.length := by
  rcases parser.parse_of_begins is begins with ⟨-, short⟩ | ⟨rest, -, found⟩
  · exact short
  · rw [asks] at found
    exact absurd found nofun

theorem not_of_failed {text more line tail : Bytes} {value : Value} {error : Derr}
    (refused : parser.parse text = .failed error) (begins : text ++ more = line ++ tail) :
    ¬ parser.Line line value := by
  intro is
  rcases parser.parse_of_begins is begins with ⟨asks, -⟩ | ⟨rest, -, found⟩
  · rw [refused] at asks
    exact absurd asks nofun
  · rw [refused] at found
    exact absurd found nofun

end LineParser

namespace Chunked

/-- What of the buffer was not read yet. -/
def rest (c : Chunked) : Bytes := c.buf.drop c.nbufread

/-- Where in the body the rest of the buffer begins. -/
def phase (c : Chunked) : ChunkedPhase :=
  if c.trailerRead then .finished
  else if c.chunksDone then .trailer
  else if c.firstChunkParsed then .data (c.nchunkbytes - c.nchunkread)
  else .start

/-- What has to come before the next line of a chunk. -/
def lead (c : Chunked) : Bytes := if c.firstChunkParsed then crlf else []

variable {web : Web} {c : Chunked}

theorem rest_length : c.rest.length = c.buf.length - c.nbufread := length_drop

/-! ### `parse_chunk_header` -/

variable (web c) in
theorem parseChunkLine_sat (nread : Nat) : Outcome.Sat (parseChunkLine web c nread) (fun
        | some next => ∃ line size tail, c.buf.drop nread = line ++ tail ∧ web.chunk.Line line size ∧
            next = { c with
              firstChunkParsed := true, nbufread := nread + line.length, nchunkbytes := size }
        | none => ∀ more line size tail, c.buf.drop nread ++ more = line ++ tail →
            web.chunk.Line line size → (c.buf.drop nread).length < line.length)
      fun _ => ∀ more line size tail, c.buf.drop nread ++ more = line ++ tail →
        ¬ web.chunk.Line line size := by
  unfold parseChunkLine
  cases found : web.chunk.parse (c.buf.drop nread) with
  | more => exact fun more line size tail begins is => web.chunk.short_of_more found is begins
  | done used size =>
    obtain ⟨line, tail, whole, rfl, -, is⟩ := web.chunk.parse_done found
    exact ⟨line, size, tail, whole, is, rfl⟩
  | failed error => exact fun more line size tail => web.chunk.not_of_failed found

variable (web c) in
/-- The line of a chunk is taken with what leads to it, or it is not there yet. -/
theorem parseChunkHeader_sat : Outcome.Sat (c.parseChunkHeader web) (fun
        | some next => ∃ line size tail, c.rest = c.lead ++ line ++ tail ∧ web.chunk.Line line size ∧
            next = { c with
              firstChunkParsed := true
              nbufread := c.nbufread + (c.lead ++ line).length
              nchunkbytes := size }
        | none => ∀ more line size tail, c.rest ++ more = c.lead ++ line ++ tail →
            web.chunk.Line line size → c.rest.length < (c.lead ++ line).length)
      fun _ => ∀ more line size tail, c.rest ++ more = c.lead ++ line ++ tail →
        ¬ web.chunk.Line line size := by
  unfold parseChunkHeader
  have lead : c.lead = if c.firstChunkParsed then crlf else [] := rfl
  split
  · next parsed =>
    rw [if_pos parsed] at lead
    rw [lead]
    split
    · next short =>
      intro more line size tail begins is
      have room : c.rest.length < 2 := by
        rw [rest_length]
        omega
      rw [length_append]
      exact Nat.lt_of_lt_of_le room (Nat.le_add_right _ _)
    split
    · next long other =>
      intro more line size tail begins is
      refine other ?_
      have front := congrArg (take 2) begins
      rw [append_assoc, take_append_of_le_length] at front
      · exact front
      · rw [rest_length]
        omega
    · next long same =>
      have spelled : c.rest = crlf ++ c.buf.drop (c.nbufread + 2) := by
        have two := take_append_drop 2 c.rest
        rw [rest, drop_drop, not_not.mp same] at two
        exact two.symm
      rw [spelled]
      have line := parseChunkLine_sat web c (c.nbufread + 2)
      generalize parseChunkLine web c (c.nbufread + 2) = result at line ⊢
      rcases result with error | _ | next
      · intro more text size tail begins
        rw [append_assoc, append_assoc] at begins
        exact line more text size tail (append_cancel_left begins)
      · intro more text size tail begins is
        rw [append_assoc, append_assoc] at begins
        have short := line more text size tail (append_cancel_left begins) is
        rw [length_append, length_append]
        exact Nat.add_lt_add_left short _
      · obtain ⟨text, size, tail, whole, is, rfl⟩ := line
        refine ⟨text, size, tail, by rw [whole, append_assoc], is, ?_⟩
        rw [length_append, ← Nat.add_assoc]
        rfl
  · next first =>
    rw [if_neg first] at lead
    rw [lead]
    exact parseChunkLine_sat web c c.nbufread

/-! ### `fill_buffer` -/

/-- A body that goes on like this has more to come, and what is there of it does not fill the
buffer. -/
def Lacks (web : Web) (phase : ChunkedPhase) (text : Bytes) : Prop :=
  ∀ more items, ChunkedReads web phase (text ++ more) items .finished →
    more ≠ [] ∧ text.length < chunkedBufSize

/-- Either the buffer is full and the body is refused, or a read is made. -/
theorem fillBuffer_sat (open' : (c.base.awaited || c.base.canceled || c.base.eof) = false)
    (what : String) :
    Outcome.Sat (c.fillBuffer what) (fun next =>
        (next = { c with
            buf := c.rest, nbufread := 0
            e := some (.raised ⟨.response, what ++ " header line way too long"⟩) } ∧
          chunkedBufSize ≤ c.rest.length) ∨
        next = { c with buf := c.rest, nbufread := 0, reading := true })
      fun _ => False := by
  unfold fillBuffer
  dsimp only
  rw [open']
  split
  · next full => exact .inl ⟨rfl, Nat.le_of_sub_eq_zero full⟩
  · exact .inr rfl

/-! ### `get_readable` and what is passed along -/

/-- The bytes of the chunk that are in the buffer, unless their end wraps around. -/
theorem getReadable_eq (within : c.nbufread ≤ c.buf.length) (counted : c.nchunkread ≤ c.nchunkbytes)
    (sized : c.nchunkbytes ≤ sizeMax) (room : c.buf.length ≤ chunkedBufSize) : c.getReadable = .ok (
      if c.nbufread + (c.nchunkbytes - c.nchunkread) ≤ sizeMax then
        c.rest.take (c.nchunkbytes - c.nchunkread)
      else []) := by
  have fault : ¬ (c.buf.length < c.nbufread ∨ c.nchunkbytes < c.nchunkread) := by omega
  unfold sizeMax at sized ⊢
  unfold chunkedBufSize at room
  rw [getReadable, if_neg fault]
  split
  · next fits =>
    dsimp only
    rw [Nat.mod_eq_of_lt (Nat.lt_of_le_of_lt fits (by decide)), drop_take, Nat.add_sub_cancel_left]
    rfl
  · next wraps =>
    have early : (c.nbufread + (c.nchunkbytes - c.nchunkread)) % 2 ^ 64 ≤ c.nbufread := by
      rw [Nat.mod_eq_sub_mod (by omega), Nat.mod_eq_of_lt (by omega)]
      omega
    dsimp only
    rw [drop_eq_nil_of_le (Nat.le_trans (length_take_le _ _) early)]

/-- What is passed along is read, in the buffer and in the chunk. -/
theorem passAlong_eq {sub tail : Bytes} (front : c.rest = sub ++ tail) (some : sub ≠ []) :
    ∃ buf nbufread nchunkbytes nchunkread,
      c.passAlong sub = { c with buf, nbufread, nchunkbytes, nchunkread } ∧
        buf.drop nbufread = tail ∧ nbufread ≤ buf.length ∧ buf.length ≤ c.buf.length ∧
        nchunkbytes ≤ c.nchunkbytes ∧ (nchunkread < nchunkbytes ∨ nchunkbytes = 0 ∧ nchunkread = 0) ∧
        nchunkbytes - nchunkread = c.nchunkbytes - c.nchunkread - sub.length := by
  have length := congrArg length front
  have read : c.buf.drop (c.nbufread + sub.length) = tail := by
    rw [← drop_drop, ← rest, front, drop_left]
  have positive := length_pos_iff.mpr some
  rw [rest_length, length_append] at length
  unfold passAlong
  dsimp only
  split
  · next emptied =>
    have none : tail = [] := by rw [← read, drop_eq_nil_of_le emptied]
    split
    · next finished =>
      exact ⟨[], 0, 0, 0, rfl, none.symm, le_rfl, Nat.zero_le _, Nat.zero_le _, .inr ⟨rfl, rfl⟩,
        by dsimp only at finished; omega⟩
    · next more =>
      exact ⟨[], 0, c.nchunkbytes, c.nchunkread + sub.length, rfl, none.symm, le_rfl,
        Nat.zero_le _, le_rfl, .inl (Nat.lt_of_not_le more), Nat.sub_add_eq _ _ _⟩
  · next left =>
    split
    · next finished =>
      exact ⟨c.buf, c.nbufread + sub.length, 0, 0, rfl, read, Nat.le_of_not_le left, le_rfl,
        Nat.zero_le _, .inr ⟨rfl, rfl⟩, by dsimp only at finished; omega⟩
    · next more =>
      exact ⟨c.buf, c.nbufread + sub.length, c.nchunkbytes, c.nchunkread + sub.length, rfl, read,
        Nat.le_of_not_le left, le_rfl, le_rfl, .inl (Nat.lt_of_not_le more),
        Nat.sub_add_eq _ _ _⟩

end Chunked

end Splintermail
