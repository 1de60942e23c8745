/-
This file models how `get_multipart_index` splits the body of a multipart message.

One loop over the bytes looks for lines that begin with the boundary, counts down to the one
that was asked for, and ends at the line after it. The marks of a range are the places where
such lines begin, and what the loop finds is read off the list of marks: the same list is
there whether the parts are asked for by number or one after the other. The comparison with
the boundary reads the whole buffer and not only the range. A range that ends within a
boundary line has a mark there all the same.
-/

import Mathlib.Data.List.Range
import Splintermail.Dstr.Find

namespace Splintermail

/-! ### The function -/

/-- A `dstr_off_t` whose bytes are all in its buffer. -/
structure ByteRange where
  buf : Bytes
  start : Nat
  len : Nat
  inside : start + len ≤ buf.length

namespace ByteRange

/-- The end of a range. -/
def fin (bytes : ByteRange) : Nat := bytes.start + bytes.len

/-- The text of a range. -/
def text (bytes : ByteRange) : Bytes := (bytes.buf.drop bytes.start).take bytes.len

end ByteRange

/-- `dstr_sub2` -/
def dstrSub2 (text : Bytes) (start finish : Nat) : Bytes := (text.take finish).drop start

/-- A byte of a line ending. -/
def isEol (char : UInt8) : Bool := char = 10 || char = 13

section Scanning

variable (buf boundary : Bytes)

/-- The two comparisons for the boundary at a place. -/
def matchesBoundary (i : Nat) : Bool :=
  cmpChars (dstrSub2 buf i (i + 2)) (ascii "--") = 0 &&
    cmpChars (dstrSub2 buf (i + 2) (i + 2 + boundary.length)) boundary = 0

/-- The comparison for an end-boundary. -/
def endsBoundary (i : Nat) : Bool :=
  cmpChars (dstrSub2 buf (i + 2 + boundary.length) (i + 2 + boundary.length + 2)) (ascii "--") = 0

/-- The state of the loop of `get_multipart_index`. -/
structure LineScan where
  i : Nat
  inLineEnding : Bool
  inTgt : Bool
  tgtstart : Nat
  index : Nat

/-- The loop of `get_multipart_index`, up to `fin`: the start of the target, and where the
boundary after it begins. -/
def scanLines (fin : Nat) (scan : LineScan) : Option (Nat × Nat) :=
  if scan.i < fin then
    -- check for line endings
    if isEol (buf.getD scan.i 0) then
      scanLines fin { scan with i := scan.i + 1, inLineEnding := true }
    -- ignore normal characters completely
    else if scan.inLineEnding = false then scanLines fin { scan with i := scan.i + 1 }
    -- start of a non-empty new line
    else if matchesBoundary buf boundary scan.i = false then
      scanLines fin { scan with i := scan.i + 1, inLineEnding := false }
    -- this boundary (end or otherwise) is the end of our search
    else if scan.inTgt then some (scan.tgtstart, scan.i)
    else if endsBoundary buf boundary scan.i then none
    else if scan.index - 1 > 0 then
      scanLines fin { scan with i := scan.i + 1, inLineEnding := false, index := scan.index - 1 }
    -- this is the target boundary, and its characters are not processed again
    else
      scanLines fin
        { i := scan.i + 2 + boundary.length
          inLineEnding := false
          inTgt := true
          tgtstart := scan.i + 2 + boundary.length
          index := scan.index - 1 }
  else none
  termination_by fin - scan.i

end Scanning

/-- Part 1 of the post-processing, which counts the bytes up to the first line ending. -/
def ltrim (haveCr haveLf : Bool) : Bytes → Nat
  | [] => 0
  | c :: rest =>
    if c = 13 then if haveCr then 0 else ltrim true haveLf rest + 1
    else if c = 10 then if haveLf then 0 else ltrim haveCr true rest + 1
    -- first char after first EOL
    else if haveLf || haveCr then 0
    else ltrim haveCr haveLf rest + 1

/-- Part 2 of the post-processing, which counts the bytes of the final line ending, on the bytes from
the last one to the first one. -/
def rtrim (haveCr haveLf : Bool) : Bytes → Nat
  | [] => 0
  | c :: rest =>
    if c = 13 then if haveCr then 0 else rtrim true haveLf rest + 1
    else if c = 10 then if haveLf then 0 else rtrim haveCr true rest + 1
    -- last char before final EOL
    else 0

/-- A part: where it begins, its length, and `next_skip`. -/
structure Subpart where
  start : Nat
  len : Nat
  nextSkip : Nat
  deriving DecidableEq, Repr

/-- `get_multipart_index`, where `none` stands for missing. -/
def getMultipartIndex (bytes : ByteRange) (skip : Nat) (boundary : Bytes) (index : Nat) :
    Option Subpart :=
  -- enforce 1-indexing
  if index = 0 then none
  else
    match scanLines bytes.buf boundary bytes.fin ⟨bytes.start + skip, true, false, 0, index⟩ with
    | none => none
    | some (tgtstart, i) =>
      let tgt := dstrSub2 bytes.buf tgtstart i
      let left := ltrim false false tgt
      let right := rtrim false false (tgt.drop left).reverse
      some ⟨tgtstart + left, tgt.length - left - right, i - bytes.start⟩

/-- The loop of `read_bodystructure` over the parts of a body: the next part is the first one after
the parts that were read. -/
def nextParts (bytes : ByteRange) (boundary : Bytes) : Nat → Nat → Option (List Subpart)
  | 0, _ => none
  | fuel + 1, skip =>
    match getMultipartIndex bytes skip boundary 1 with
    | none => some []
    | some part => (nextParts bytes boundary fuel part.nextSkip).map (part :: ·)

/-! ### The parts of a text -/

section Lines

variable (text boundary : Bytes)

/-- A line begins at a place, and it is not empty. -/
def LineStart (place : Nat) : Prop :=
  (place = 0 ∨ isEol (text.getD (place - 1) 0) = true) ∧ isEol (text.getD place 0) = false

/-- A boundary line begins at a place. -/
def BoundaryLine (place : Nat) : Prop :=
  LineStart text place ∧ ascii "--" ++ boundary <+: text.drop place

/-- A boundary line that begins at a place is the last one. -/
def FinalLine (place : Nat) : Prop := ascii "--" ++ boundary ++ ascii "--" <+: text.drop place

instance (place : Nat) : Decidable (LineStart text place) := inferInstanceAs (Decidable (_ ∧ _))

instance (place : Nat) : Decidable (BoundaryLine text boundary place) :=
  inferInstanceAs (Decidable (_ ∧ _))

instance (place : Nat) : Decidable (FinalLine text boundary place) :=
  inferInstanceAs (Decidable (_ <+: _))

/-- The places of all boundary lines, in order. -/
def boundaryLines : List Nat :=
  (List.range text.length).filter fun place => BoundaryLine text boundary place

/-- The boundary lines of a part: the one with its number among those before the first final one,
and the next one, of either kind. -/
def partLines (index : Nat) : Option (Nat × Nat) := do
  let first ← ((boundaryLines text boundary).takeWhile
    fun place => ¬ FinalLine text boundary place)[index - 1]?
  let second ← (boundaryLines text boundary)[index]?
  return (first, second)

end Lines

/-- The four line endings. -/
def LineEnding (eol : Bytes) : Prop := eol ∈ [ascii "\r", ascii "\n", ascii "\r\n", ascii "\n\r"]

/-- The text between a boundary and the next boundary line, cut where a part is: before it are the
rest of the boundary line and a line ending, and after it is another line ending. A line ending
that can be of two bytes is. If there is one line ending only, then the part is empty. -/
structure Framed (between front part back : Bytes) : Prop where
  whole : between = front ++ part ++ back
  front : ∃ rest eol, front = rest ++ eol ∧ (∀ char ∈ rest, isEol char = false) ∧ LineEnding eol ∧
    ∀ char ∈ (part ++ back).head?, ¬ LineEnding (eol ++ [char])
  back : LineEnding back ∧ (∀ char ∈ part.getLast?, ¬ LineEnding (char :: back)) ∨
    part = [] ∧ back = []

end Splintermail
