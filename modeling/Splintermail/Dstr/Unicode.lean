/-
This file models the coders of `unicode.c`: one codepoint to UTF-8 or UTF-16, and the
streams that read UTF-8 and UTF-16 piece by piece.

The UTF-8 stream keeps the bits of a sequence that is not complete and how many bytes it
still waits for, so that its `goto` loop goes on with the next piece in the middle of the
sequence. The UTF-16 stream keeps the bytes of the pair it is in. What is given to the
callback is listed in order, up to the point where the stream stops.
-/

import Splintermail.Dstr.Bytes
import Splintermail.Lib.Transducer

namespace Splintermail

open Transducer (Result)

/-! ### Encoding -/

/-- `utf8_encode_quiet`: the bytes given to the callback, unless the codepoint is refused. -/
def utf8EncodeQuiet (codepoint : UInt32) : Option Bytes :=
  if codepoint < 0x80 then some [codepoint.toUInt8]
  else if codepoint < 0x800 then
    some [UInt32.toUInt8 ((0xC0 : UInt32) ||| ((codepoint >>> 6) &&& 0x1F)),
      UInt32.toUInt8 (0x80 ||| (codepoint &&& 0x3F))]
  else if codepoint < 0x10000 then
    if 0xD800 ≤ codepoint ∧ codepoint ≤ 0xDFFF then none
    else
      some [UInt32.toUInt8 ((0xE0 : UInt32) ||| ((codepoint >>> 12) &&& 0x0F)),
        UInt32.toUInt8 ((0x80 : UInt32) ||| ((codepoint >>> 6) &&& 0x3F)),
        UInt32.toUInt8 (0x80 ||| (codepoint &&& 0x3F))]
  else if codepoint < 0x110000 then
    some [UInt32.toUInt8 ((0xF0 : UInt32) ||| ((codepoint >>> 18) &&& 0x07)),
      UInt32.toUInt8 ((0x80 : UInt32) ||| ((codepoint >>> 12) &&& 0x3F)),
      UInt32.toUInt8 ((0x80 : UInt32) ||| ((codepoint >>> 6) &&& 0x3F)),
      UInt32.toUInt8 (0x80 ||| (codepoint &&& 0x3F))]
  else none

/-- `utf16_encode_quiet`: the units given to the callback, unless the codepoint is refused. -/
def utf16EncodeQuiet (codepoint : UInt32) : Option (List UInt16) :=
  if codepoint < 0x10000 then
    if 0xD800 ≤ codepoint ∧ codepoint ≤ 0xDFFF then none else some [codepoint.toUInt16]
  else
    let codepoint := codepoint - 0x10000
    let w1 := (0xD800 : UInt32) ||| ((codepoint >>> 10) &&& 0x3FF)
    let w2 := (0xDC00 : UInt32) ||| (codepoint &&& 0x3FF)
    some [w1.toUInt16, w2.toUInt16]

/-! ### UTF-8 -/

/-- What the caller of `utf8_decode_stream` keeps between the pieces. -/
structure Utf8State where
  codepoint : UInt32 := 0
  tail : Nat := 0
deriving DecidableEq, Repr

/-- One byte, which is read at `loop_start` when no tail is expected and in the loop of
`process_tail` otherwise. -/
def utf8Step (state : Utf8State) (u : UInt8) : Option (Utf8State × List UInt32) :=
  match state.tail with
  | 0 =>
    if u &&& 0x80 = 0 then some (state, [u.toUInt32])
    else if u &&& 0xE0 = 0xC0 then some (⟨(u &&& 0x1F).toUInt32, 1⟩, [])
    else if u &&& 0xF0 = 0xE0 then some (⟨(u &&& 0x0F).toUInt32, 2⟩, [])
    else if u &&& 0xF8 = 0xF0 then some (⟨(u &&& 0x0F).toUInt32, 3⟩, [])
    else none
  | tail + 1 =>
    if u &&& 0xC0 ≠ 0x80 then none
    else
      let codepoint := (state.codepoint <<< 6) ||| (u &&& 0x3F).toUInt32
      if 0 < tail then some (⟨codepoint, tail⟩, [])
      else if 0xD800 ≤ codepoint ∧ codepoint ≤ 0xDFFF then none
      else some (⟨codepoint, 0⟩, [codepoint])

/-- `utf8_decode_stream`: the codepoint of the caller is only written when a sequence is not
complete. -/
def utf8DecodeStream (state : Utf8State) (input : Bytes) : Result Utf8State UInt32 :=
  let (codepoints, last) := Transducer.run utf8Step state input
  (codepoints, last.map fun last =>
    if 0 < last.tail then last else { codepoint := state.codepoint, tail := 0 })

/-- What a decoder gave to the callback, and whether it accepted its input. -/
structure Transcoded where
  codepoints : List UInt32
  accepted : Bool
deriving DecidableEq, Repr

/-- What the caller of a stream concludes when the input is over. -/
def Transcoded.ofStream {State : Type} (complete : State → Bool) (result : Result State UInt32) :
    Transcoded :=
  ⟨result.1, result.2.any complete⟩

/-- No sequence is left open. -/
def Utf8State.complete (state : Utf8State) : Bool := state.tail = 0

/-- `utf8_decode_quiet`. -/
def utf8DecodeQuiet (input : Bytes) : Transcoded :=
  .ofStream Utf8State.complete (utf8DecodeStream {} input)

/-- `utf8_decode_stream`, called for one piece after the other. -/
def utf8DecodePieces (pieces : List Bytes) : Transcoded :=
  .ofStream Utf8State.complete (Transducer.pieces utf8DecodeStream {} pieces)

/-! ### UTF-16 -/

/-- `utf16_state_t`. -/
structure Utf16State where
  haveBom : Bool := false
  bigendian : Bool := false
  state : Nat := 0
  u1 : UInt8 := 0
  u2 : UInt8 := 0
  u3 : UInt8 := 0
deriving DecidableEq, Repr

def utf16StartBe : Utf16State := { haveBom := true, bigendian := true }

def utf16StartLe : Utf16State := { haveBom := true, bigendian := false }

/-- The first byte of a byte order mark, if the state waits for it and there is one. -/
def utf16BomFirst (state : Utf16State) : Bytes → Utf16State × Bytes
  | u :: rest => if state.state = 0 then ({ state with u1 := u, state := 1 }, rest)
    else (state, u :: rest)
  | [] => (state, [])

/-- The second byte of a byte order mark, if the state waits for it and there is one. -/
def utf16BomSecond (state : Utf16State) : Bytes → Option (Utf16State × Bytes)
  | u :: rest =>
    if state.state = 1 then
      let state : Utf16State := { state with u2 := u }
      if state.u1 = 0xFE ∧ u = 0xFF then
        some ({ state with bigendian := true, state := 0, haveBom := true }, rest)
      else if state.u1 = 0xFF ∧ u = 0xFE then
        some ({ state with bigendian := false, state := 0, haveBom := true }, rest)
      else none
    else some (state, u :: rest)
  | [] => some (state, [])

/-- The byte order mark, unless it was read before. -/
def utf16ReadBom (state : Utf16State) (input : Bytes) : Option (Utf16State × Bytes) :=
  if state.haveBom then some (state, input)
  else
    let (state, rest) := utf16BomFirst state input
    utf16BomSecond state rest

/-- `mku16`. -/
def mku16 (bigendian : Bool) (u1 u2 : UInt8) : UInt16 :=
  let shift1 : UInt16 := if bigendian then 8 else 0
  let shift2 : UInt16 := if bigendian then 0 else 8
  (u1.toUInt16 <<< shift1) ||| (u2.toUInt16 <<< shift2)

/-- `mku32`. -/
def mku32 (u12 u34 : UInt16) : UInt32 :=
  ((((u12 &&& 0x3FF).toUInt32) <<< 10) ||| (u34 &&& 0x3FF).toUInt32) + 0x10000

/-- The loop of `utf16_decode_stream`, with the unit that was made of the first two bytes. -/
def utf16Loop (state : Utf16State) (u12 : UInt16) : Bytes → Result Utf16State UInt32
  | [] => ([], some { state with state := state.state &&& 3 })
  | u :: rest =>
    match state.state with
    | 0 => utf16Loop { state with u1 := u, state := 1 } u12 rest
    | 1 =>
      let u12 := mku16 state.bigendian state.u1 u
      if u12 < 0xD800 ∨ u12 > 0xDFFF then
        (utf16Loop { state with u2 := u, state := 0 } u12 rest).after [u12.toUInt32]
      else if u12 < 0xDC00 then utf16Loop { state with u2 := u, state := 2 } u12 rest
      else ([], none)
    | 2 => utf16Loop { state with u3 := u, state := 3 } u12 rest
    | _ =>
      let u34 := mku16 state.bigendian state.u3 u
      if u34 < 0xDC00 ∨ u34 > 0xDFFF then ([], none)
      else (utf16Loop { state with state := 0 } u12 rest).after [mku32 u12 u34]

/-- `utf16_decode_stream`. -/
def utf16DecodeStream (state : Utf16State) (input : Bytes) : Result Utf16State UInt32 :=
  match utf16ReadBom state input with
  | none => ([], none)
  | some (state, rest) => utf16Loop state (mku16 state.bigendian state.u1 state.u2) rest

/-- The input ended on a boundary. -/
def Utf16State.complete (state : Utf16State) : Bool := state.state = 0

/-- `_utf16_decode_quiet`. -/
def utf16DecodeFrom (state : Utf16State) (input : Bytes) : Transcoded :=
  .ofStream Utf16State.complete (utf16DecodeStream state input)

/-- `utf16_decode_quiet`. -/
def utf16DecodeQuiet (input : Bytes) : Transcoded := utf16DecodeFrom {} input

/-- `utf16_be_decode_quiet`. -/
def utf16BeDecodeQuiet (input : Bytes) : Transcoded := utf16DecodeFrom utf16StartBe input

/-- `utf16_le_decode_quiet`. -/
def utf16LeDecodeQuiet (input : Bytes) : Transcoded := utf16DecodeFrom utf16StartLe input

/-- `utf16_decode_stream`, called for one piece after the other. -/
def utf16DecodePieces (state : Utf16State) (pieces : List Bytes) : Transcoded :=
  .ofStream Utf16State.complete (Transducer.pieces utf16DecodeStream state pieces)

end Splintermail
