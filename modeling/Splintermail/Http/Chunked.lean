/-
This file models the reader of chunked bodies, `chunked.c`.

The reader takes bytes from a base stream into a buffer of its own and answers the reads of
its user from there. The buffer is read in three stages: the chunks, of which the user gets
the data, the lines of the trailer, of which the user gets the headers, and the end. Where a
chunk begins or ends within the buffer is kept in four counters.

`advance_state` is run when the user has asked for something and when the base stream has
answered. In every callback it makes, the user may ask for more. A turn is what it does up
to the next such callback, so a run of the reader is turns with anything between them that
the user and the base stream may do. Only after `hdr_cb` the reader goes on without a look
at whether it was canceled, and a run keeps that it is inside of that callback.
-/

import Splintermail.Dstr.Find
import Splintermail.Lib.Run

namespace Splintermail

/-! ### The generated parsers -/

/-- What a generated parser says of a text: that it needs more of it, that it has used some of it
for one whole line, or that the text is none. -/
inductive Parsed (Value : Type) where
  | more
  | done (used : Nat) (value : Value)
  | failed (error : Derr)
  deriving DecidableEq, Repr

/-- A generated parser of lines. It finds the line that a text begins with, and asks for more of
a text that is the beginning of a line. -/
structure LineParser (Value : Type) where
  parse : Bytes → Parsed Value
  Line : Bytes → Value → Prop
  nonempty : ∀ {line value}, Line line value → line ≠ []
  done_of_line : ∀ {line value} rest, Line line value → parse (line ++ rest) = .done line.length value
  more_of_short : ∀ {text rest value}, Line (text ++ rest) value → rest ≠ [] → parse text = .more
  line_of_done : ∀ {text used value}, parse text = .done used value →
    used ≤ text.length ∧ Line (text.take used) value

def sizeMax : Nat := 2 ^ 64 - 1

def crlf : Bytes := [13, 10]

/-- The number that some digits to the base 16 write, if they are such digits. -/
def hexNumber (digits : Bytes) : Option Nat :=
  digits.foldl (fun total char => total.bind fun high => (hexValue char).map (16 * high + ·)) (some 0)

/-- `http_pair_t` of a header line. -/
structure HttpHdr where
  key : Bytes
  value : Bytes
  deriving DecidableEq, Repr

/-- The grammars of libweb that the reader uses: `web_parse_chunk` and `web_parse_hdr_line`. A
chunk header is its size in digits to the base 16, extensions, and the end of the line. -/
structure Web where
  chunk : LineParser Nat
  hdrLine : LineParser HttpHdr
  Extensions : Bytes → Prop
  chunk_line : ∀ {line size}, chunk.Line line size ↔
    ∃ digits extensions, line = digits ++ extensions ++ crlf ∧ digits ≠ [] ∧
      hexNumber digits = some size ∧ size ≤ sizeMax ∧ Extensions extensions

/-! ### The state -/

/-- The size of `_buf`. -/
def chunkedBufSize : Nat := 4096

/-- What a base stream tells of itself. -/
structure BaseStream where
  canceled : Bool
  eof : Bool
  awaited : Bool
  deriving DecidableEq, Repr

/-- An error of the reader: one with a text, or one that only says that the stream was canceled, or
an error of the base stream. -/
inductive StreamError where
  | raised (error : Derr)
  | canceled
  | other (type : Nat)
  deriving DecidableEq, Repr

/-- `chunked_rstream_t`. A read of the user is the size of its buffer. -/
structure Chunked where
  canceled : Bool
  eof : Bool
  awaited : Bool
  base : BaseStream
  buf : Bytes
  nbufread : Nat
  nchunkbytes : Nat
  nchunkread : Nat
  e : Option StreamError
  reading : Bool
  firstChunkParsed : Bool
  baseCanceled : Bool
  triedDetach : Bool
  detached : Bool
  chunksDone : Bool
  trailerRead : Bool
  reads : List Nat
  awaitCb : Bool
  deriving DecidableEq, Repr

/-- `chunked_rstream` -/
def chunkedRstream : Chunked where
  canceled := false
  eof := false
  awaited := false
  base := ⟨false, false, false⟩
  buf := []
  nbufread := 0
  nchunkbytes := 0
  nchunkread := 0
  e := none
  reading := false
  firstChunkParsed := false
  baseCanceled := false
  triedDetach := false
  detached := false
  chunksDone := false
  trailerRead := false
  reads := []
  awaitCb := false

/-- The calls of the user's functions: the answer of a read with some bytes, a header of the
trailer, the answers of all reads that wait when the body has ended, and `await_cb`. -/
inductive Given where
  | data (bytes : Bytes)
  | header (hdr : HttpHdr)
  | eof (count : Nat)
  | awaited (error : Option StreamError)
  deriving DecidableEq, Repr

namespace Given

def isHeader : Given → Bool
  | .header _ => true
  | _ => false

end Given

/-- What stops the program, and what the base stream must not do. -/
inductive ChunkedFault where
  | underflow
  | appendFailure
  | mustRead
  | contract
  deriving DecidableEq, Repr

namespace Chunked

/-- `failing` -/
def failing (c : Chunked) : Bool := c.canceled || c.e.isSome

/-- `closing` -/
def closing (c : Chunked) : Bool := c.failing || c.eof

/-- The result of `parse_chunk_header` after the end of the chunk before, where `nread` counts it. -/
def parseChunkLine (web : Web) (c : Chunked) (nread : Nat) : Except Derr (Option Chunked) :=
  match web.chunk.parse (c.buf.drop nread) with
  | .more => .ok none
  | .failed error => .error error
  | .done used size =>
    .ok (some { c with firstChunkParsed := true, nbufread := nread + used, nchunkbytes := size })

/-- `parse_chunk_header`: nothing, if the header is not yet complete. -/
def parseChunkHeader (web : Web) (c : Chunked) : Except Derr (Option Chunked) :=
  if c.firstChunkParsed then
    if c.buf.length < 2 + c.nbufread then .ok none
    else if (c.buf.drop c.nbufread).take 2 ≠ crlf then
      .error ⟨.response, "malformed chunk missing crlf"⟩
    else parseChunkLine web c (c.nbufread + 2)
  else parseChunkLine web c c.nbufread

/-- `fill_buffer` -/
def fillBuffer (c : Chunked) (what : String) : Except ChunkedFault Chunked :=
  let c := { c with buf := c.buf.drop c.nbufread, nbufread := 0 }
  if chunkedBufSize - c.buf.length = 0 then
    .ok { c with e := some (.raised ⟨.response, what ++ " header line way too long"⟩) }
  else if c.base.awaited || c.base.canceled || c.base.eof then .error .mustRead
  else .ok { c with reading := true }

/-- `get_readable`. The end of what is readable is a `size_t`. -/
def getReadable (c : Chunked) : Except ChunkedFault Bytes :=
  if c.buf.length < c.nbufread ∨ c.nchunkbytes < c.nchunkread then .error .underflow
  else
    let limit := c.nchunkbytes - c.nchunkread
    .ok ((c.buf.take ((c.nbufread + limit) % 2 ^ 64)).drop c.nbufread)

/-- A read is answered with these bytes of the buffer. -/
def passAlong (c : Chunked) (sub : Bytes) : Chunked :=
  let c := { c with nbufread := c.nbufread + sub.length }
  let c := if c.buf.length ≤ c.nbufread then { c with buf := [], nbufread := 0 } else c
  let c := { c with nchunkread := c.nchunkread + sub.length }
  if c.nchunkbytes ≤ c.nchunkread then { c with nchunkbytes := 0, nchunkread := 0 } else c

/-- `advance_chunks`, up to its next callback. -/
def advanceChunks (web : Web) (c : Chunked) : Except ChunkedFault (Chunked × List Given) :=
  if c.reading then .ok (c, [])
  else
    match c.reads with
    | [] => .ok (c, [])
    | size :: reads => do
      let readable ← c.getReadable
      if 0 < readable.length then
        let sub := readable.take size
        .ok ({ c with reads }.passAlong sub, [.data sub])
      else if c.nchunkread = 0 ∧ c.nbufread < c.buf.length then
        match c.parseChunkHeader web with
        | .error error => .ok ({ c with e := some (.raised error) }, [])
        | .ok (some c) => .ok ({ c with chunksDone := c.nchunkbytes = 0 }, [])
        | .ok none => return (← c.fillBuffer "chunk", [])
      else return (← c.fillBuffer "chunk", [])

/-- One round of the loop of `advance_trailer`, up to `hdr_cb`. -/
def trailerLine (web : Web) (c : Chunked) : Except ChunkedFault (Chunked × List Given) :=
  match web.hdrLine.parse (c.buf.drop c.nbufread) with
  | .more => return (← c.fillBuffer "trailer", [])
  | .failed error => .ok ({ c with e := some (.raised error) }, [])
  | .done used hdr =>
    let c := { c with nbufread := c.nbufread + used }
    if hdr.key ≠ [] then .ok (c, [.header hdr])
    else if c.nbufread ≠ c.buf.length then
      .ok ({ c with e := some (.raised
        ⟨.response, "extraneous content after chunked response"⟩) }, [])
    else .ok ({ c with trailerRead := true }, [])

/-- `advance_trailer`, up to its first `hdr_cb`. -/
def advanceTrailer (web : Web) (c : Chunked) : Except ChunkedFault (Chunked × List Given) :=
  if c.reading then .ok (c, []) else c.trailerLine web

/-- What `advance_state` does after the trailer. `detaches` is the answer of `try_detach`. The reads
are answered in one turn: none is taken any more in between, and a cancellation changes nothing
before the last one. -/
def respondEof (c : Chunked) (detaches : Bool) : Chunked × List Given :=
  if c.reads = [] then (c, [])
  else
    ({ c with
        eof := true
        reads := []
        triedDetach := true
        detached := if c.triedDetach then c.detached else detaches },
      [.eof c.reads.length])

/-- The end of `advance_state`, after `closing`. -/
def close (c : Chunked) : Chunked × List Given :=
  if c.awaited then (c, [])
  else
    let c :=
      if !c.base.awaited && !c.base.canceled && c.failing then
        { c with base := { c.base with canceled := true }, baseCanceled := true }
      else c
    if c.reading then (c, [])
    else if !c.base.awaited && !c.detached then (c, [])
    else if !c.awaitCb then (c, [])
    else
      let e := if c.e.isNone && c.canceled then some .canceled else c.e
      ({ c with awaited := true, e, reads := [] }, [.awaited e])

/-- `advance_state`, up to its next callback. -/
def advanceState (web : Web) (c : Chunked) (detaches : Bool) :
    Except ChunkedFault (Chunked × List Given) :=
  if c.closing then .ok c.close
  else if !c.chunksDone then c.advanceChunks web
  else if !c.trailerRead then c.advanceTrailer web
  else .ok (c.respondEof detaches)

/-! ### What the user and the base stream do -/

/-- `chunked_read` -/
def read (c : Chunked) (size : Nat) : Chunked :=
  if size = 0 ∨ c.awaited ∨ c.canceled ∨ c.eof then c else { c with reads := c.reads ++ [size] }

/-- `chunked_cancel` -/
def cancel (c : Chunked) : Chunked :=
  { c with canceled := true, base := { c.base with canceled := true }, baseCanceled := true }

/-- `chunked_await` -/
def await (c : Chunked) : Chunked := if c.awaited then c else { c with awaitCb := true }

/-- `read_cb`, before it advances the state. -/
def readCb (c : Chunked) (bytes : Bytes) : Chunked :=
  let c := { c with reading := false, buf := c.buf ++ bytes }
  if bytes = [] then
    { c with
      base := { c.base with eof := true }
      e := some (.raised ⟨.response, "incomplete chunked response"⟩) }
  else c

/-- `KEEP_FIRST_IF_NOT_CANCELED_VAR` -/
def keepFirst (first second : Option StreamError) : Option StreamError :=
  match first with
  | none => second
  | some .canceled => second
  | some error => some error

/-- `await_cb`, before it advances the state. -/
def awaitBase (c : Chunked) (e : Option StreamError) : Chunked :=
  let e := if c.baseCanceled ∧ e = some .canceled then none else e
  let e := if e = some .canceled then some (.raised ⟨.internal, ""⟩) else e
  { c with base := { c.base with awaited := true }, e := keepFirst c.e e }

end Chunked

/-- What happens to a reader. -/
inductive ChunkedEvent where
  | read (size : Nat)
  | cancel
  | await
  | turn (detaches : Bool)
  | baseRead (bytes : Bytes)
  | baseAwait (e : Option StreamError)
  deriving DecidableEq, Repr

/-- A reader with what its base stream has delivered and what its user was given. `inHdrCb` is
whether `hdr_cb` was called in the last turn, so that the next one goes on in `advance_trailer`. -/
structure ChunkedRun where
  c : Chunked
  received : Bytes
  given : List Given
  inHdrCb : Bool
  deriving DecidableEq, Repr

namespace ChunkedRun

/-- What a turn leaves. -/
def turned (s : ChunkedRun) (result : Chunked × List Given) : ChunkedRun :=
  { s with
    c := result.1
    given := s.given ++ result.2
    inHdrCb := result.2.any Given.isHeader }

/-- One turn of `advance_state`, up to its next callback. -/
def advance (web : Web) (s : ChunkedRun) (detaches : Bool) :
    Except ChunkedFault (Chunked × List Given) :=
  if s.inHdrCb then s.c.trailerLine web else s.c.advanceState web detaches

/-- One event. The base stream answers a read that was made, with no more than there was room for
and with nothing when it has ended, and it is awaited once, with an error unless it has ended. It
does neither inside of `hdr_cb`. -/
def step (web : Web) (s : ChunkedRun) : ChunkedEvent → Except ChunkedFault ChunkedRun
  | .read size => .ok { s with c := s.c.read size }
  | .cancel => .ok { s with c := s.c.cancel }
  | .await => .ok { s with c := s.c.await }
  | .turn detaches => return s.turned (← s.advance web detaches)
  | .baseRead bytes =>
    if s.c.reading ∧ s.c.base.awaited = false ∧ bytes.length ≤ chunkedBufSize - s.c.buf.length then
      .ok { s with c := s.c.readCb bytes, received := s.received ++ bytes }
    else .error .contract
  | .baseAwait e =>
    if s.inHdrCb = false ∧ s.c.base.awaited = false ∧ (e = none → s.c.base.eof) then
      .ok { s with c := s.c.awaitBase e }
    else .error .contract

def start : ChunkedRun where
  c := chunkedRstream
  received := []
  given := []
  inHdrCb := false

end ChunkedRun

end Splintermail
