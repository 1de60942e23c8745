/-
This file models the marshaler of HTTP requests, `marshal.c`.

The marshaler writes a request in stages, into whatever buffer it is given. A stage that
does not fit is written again from its beginning in the next call, and as many bytes of
it are skipped as have been passed to the buffers before. The state of the marshaler is
the stages that are done, and how many bytes to skip of the next one.
-/

import Splintermail.Dstr.Bytes
import Splintermail.Dstr.Find

namespace Splintermail

/-! ### Filling a buffer -/

/-- `skip_fill_t`, with the content and the size of the buffer. -/
structure SkipFill where
  out : Bytes
  size : Nat
  skip : Nat
  passed : Nat
  want : Nat
  deriving DecidableEq, Repr

/-- `dstr_skip_fill` -/
def dstrSkipFill (sf : SkipFill) (input : Bytes) : SkipFill :=
  let want := if 0 < sf.want then sf.want + input.length else sf.want
  let skip := min sf.skip input.length
  let space := sf.size - sf.out.length
  let appendme := (input.drop skip).take space
  { sf with
    out := sf.out ++ appendme
    skip := sf.skip - skip
    passed := sf.passed + skip + appendme.length
    want :=
      if skip + space < input.length then want + (input.length - skip - space) else want }

/-- `char_skip_fill` -/
def charSkipFill (sf : SkipFill) (char : UInt8) : SkipFill :=
  if 0 < sf.want then { sf with want := sf.want + 1 }
  else if sf.skip ≠ 0 then { sf with skip := sf.skip - 1, passed := sf.passed + 1 }
  else if sf.out.length < sf.size then
    { sf with out := sf.out ++ [char], passed := sf.passed + 1 }
  else { sf with want := sf.want + 1 }

/-- `hex_nibble` -/
def hexNibble (nibble : UInt8) : UInt8 := if nibble < 10 then 48 + nibble else 55 + nibble

/-- The characters that `url_encode_skip_fill` writes as they are. -/
def urlAllowed (char : UInt8) : Bool :=
  char = 42 || char = 45 || char = 46 || char = 95 || (48 ≤ char && char ≤ 57) ||
    (97 ≤ char && char ≤ 122) || (65 ≤ char && char ≤ 90)

/-- `url_encode_skip_fill` for one character. -/
def urlEncodeChar (sf : SkipFill) (char : UInt8) : SkipFill :=
  if urlAllowed char then charSkipFill sf char
  else if char = 32 then charSkipFill sf 43
  else
    charSkipFill (charSkipFill (charSkipFill sf 37) (hexNibble (char >>> 4 &&& 0xf)))
      (hexNibble (char &&& 0xf))

/-- `url_encode_skip_fill` -/
def urlEncodeSkipFill (sf : SkipFill) (text : Bytes) : SkipFill := text.foldl urlEncodeChar sf

/-! ### The parts of a request -/

/-- `http_method_e` -/
inductive HttpMethod where
  | get
  | head
  | post
  | put
  | delete
  deriving DecidableEq, Repr

/-- `http_method_to_dstr` -/
def httpMethodToDstr : HttpMethod → Bytes
  | .get => ascii "GET"
  | .head => ascii "HEAD"
  | .post => ascii "POST"
  | .put => ascii "PUT"
  | .delete => ascii "DELETE"

/-- `dstr_off_t`, with `NULL` as an empty buffer. -/
structure DstrOff where
  buf : Bytes
  start : Nat
  len : Nat
  deriving DecidableEq, Repr

/-- `dstr_from_off` -/
def dstrFromOff (off : DstrOff) : Bytes :=
  (off.buf.take ((off.start + off.len) % 2 ^ 64)).drop off.start

/-- `dstr_off_extend` -/
def dstrOffExtend (start finish : DstrOff) : DstrOff :=
  { start with len := (2 ^ 64 + finish.start - start.start + finish.len) % 2 ^ 64 }

/-- The parts of `url_t` that are written. -/
structure Url where
  host : DstrOff
  port : DstrOff
  path : DstrOff
  query : DstrOff
  fragment : DstrOff
  deriving DecidableEq, Repr

/-- `http_pair_t` -/
structure HttpPair where
  key : Bytes
  value : Bytes
  deriving DecidableEq, Repr

/-- `path_skip_fill` -/
def pathSkipFill (sf : SkipFill) (url : Url) : SkipFill :=
  let path := dstrFromOff url.path
  if path.length = 0 then dstrSkipFill sf (ascii "/") else dstrSkipFill sf path

/-- `params_skip_fill`, with `need_amp`. -/
def paramsSkipFill (sf : SkipFill) (url : Url) (moreParams needAmp : Bool) : SkipFill × Bool :=
  let urlParams := dstrFromOff url.query
  if urlParams.length = 0 ∧ !moreParams then (sf, needAmp)
  else
    (dstrSkipFill (dstrSkipFill sf (ascii "?")) urlParams,
      urlParams.length ≠ 0 && urlParams.getLast? ≠ some 38)

/-- `fragment_skip_fill` -/
def fragmentSkipFill (sf : SkipFill) (url : Url) : SkipFill :=
  let fragment := dstrFromOff url.fragment
  if fragment.length ≠ 0 then dstrSkipFill (dstrSkipFill sf (ascii "#")) fragment else sf

/-- `request_method_url_skip_fill`, with `need_amp`. -/
def requestMethodUrlSkipFill (sf : SkipFill) (method : HttpMethod) (url : Url)
    (moreParams needAmp : Bool) : SkipFill × Bool :=
  let sf := dstrSkipFill sf (httpMethodToDstr method)
  let sf := dstrSkipFill sf (ascii " ")
  let sf := pathSkipFill sf url
  paramsSkipFill sf url moreParams needAmp

/-- `request_fragment_version_skip_fill` -/
def requestFragmentVersionSkipFill (sf : SkipFill) (url : Url) : SkipFill :=
  dstrSkipFill (fragmentSkipFill sf url) (ascii " HTTP/1.1\r\n")

/-- `hdr_line_skip_fill` -/
def hdrLineSkipFill (sf : SkipFill) (pair : HttpPair) : SkipFill :=
  let sf := dstrSkipFill sf pair.key
  let sf := dstrSkipFill sf (ascii ": ")
  let sf := dstrSkipFill sf pair.value
  dstrSkipFill sf (ascii "\r\n")

/-! ### The marshaler -/

/-- `http_marshaler_t`: a chain of pairs is the list of them, from the pair that is written next. -/
structure HttpMarshaler where
  method : HttpMethod
  url : Url
  params : List HttpPair
  hdrs : List HttpPair
  bodyLen : Nat
  skip : Nat
  hdrptr : List HttpPair
  paramptr : List HttpPair
  needAmp : Bool
  requestMethodUrl : Bool
  requestFragmentVersion : Bool
  host : Bool
  contentLength : Bool
  eoh : Bool
  deriving DecidableEq, Repr

/-- `http_marshaler` -/
def httpMarshaler (method : HttpMethod) (url : Url) (params hdrs : List HttpPair) (bodyLen : Nat) :
    HttpMarshaler where
  method
  url
  params
  hdrs
  bodyLen
  skip := 0
  hdrptr := hdrs
  paramptr := params
  needAmp := false
  requestMethodUrl := false
  requestFragmentVersion := false
  host := false
  -- not all methods have a payload
  contentLength := !(method = .post || method = .put)
  eoh := false

/-- The buffer of a call: what is in it, and its size. -/
structure OutBuf where
  content : Bytes
  size : Nat
  deriving DecidableEq, Repr

/-- The state of a call: the marshaler and the buffer. -/
abbrev Marshaling : Type := HttpMarshaler × OutBuf

/-- The beginning of a stage. -/
def Marshaling.fill (state : Marshaling) : SkipFill :=
  ⟨state.2.content, state.2.size, state.1.skip, 0, 0⟩

/-- The end of a stage: the call returns if the stage did not fit, and the marshaler is left as it was
but for the bytes to skip. Otherwise the stage is done. -/
def endStage (sf : SkipFill) (m done : HttpMarshaler) : Except Marshaling Marshaling :=
  let buf : OutBuf := ⟨sf.out, sf.size⟩
  if sf.want ≠ 0 then .error ({ m with skip := sf.passed }, buf)
  else .ok ({ done with skip := 0 }, buf)

/-- The request line, before the parameters. -/
def methodUrlStage (state : Marshaling) : Except Marshaling Marshaling :=
  if state.1.requestMethodUrl then .ok state
  else
    let m := state.1
    let (sf, needAmp) := requestMethodUrlSkipFill state.fill m.method m.url (m.params ≠ []) m.needAmp
    let m := { m with needAmp }
    endStage sf m { m with requestMethodUrl := true }

/-- A parameter. -/
def paramSkipFill (sf : SkipFill) (needAmp : Bool) (pair : HttpPair) : SkipFill :=
  let sf := if needAmp then dstrSkipFill sf (ascii "&") else sf
  let sf := urlEncodeSkipFill sf pair.key
  let sf := dstrSkipFill sf (ascii "=")
  urlEncodeSkipFill sf pair.value

/-- The loop over the parameters, which are `paramptr`. -/
def paramStages : List HttpPair → Marshaling → Except Marshaling Marshaling
  | [], state => .ok state
  | pair :: rest, state => do
    let sf := paramSkipFill state.fill state.1.needAmp pair
    let m := { state.1 with needAmp := true }
    let state ← endStage sf m { m with paramptr := rest }
    paramStages rest state

/-- The request line after the parameters. -/
def fragmentVersionStage (state : Marshaling) : Except Marshaling Marshaling :=
  if state.1.requestFragmentVersion then .ok state
  else
    endStage (requestFragmentVersionSkipFill state.fill state.1.url) state.1
      { state.1 with requestFragmentVersion := true }

/-- The line of the host. -/
def hostPair (url : Url) : HttpPair := ⟨ascii "Host", dstrFromOff (dstrOffExtend url.host url.port)⟩

def hostStage (state : Marshaling) : Except Marshaling Marshaling :=
  if state.1.host then .ok state
  else
    endStage (hdrLineSkipFill state.fill (hostPair state.1.url)) state.1 { state.1 with host := true }

/-- The line of the length of the body. -/
def contentLengthPair (bodyLen : Nat) : HttpPair :=
  ⟨ascii "Content-Length", (fmtUint bodyLen).map fun char => .ofNat char.toNat⟩

def contentLengthStage (state : Marshaling) : Except Marshaling Marshaling :=
  if state.1.contentLength then .ok state
  else
    endStage (hdrLineSkipFill state.fill (contentLengthPair state.1.bodyLen)) state.1
      { state.1 with contentLength := true }

/-- The loop over the headers, which are `hdrptr`. -/
def hdrStages : List HttpPair → Marshaling → Except Marshaling Marshaling
  | [], state => .ok state
  | pair :: rest, state => do
    let state ← endStage (hdrLineSkipFill state.fill pair) state.1 { state.1 with hdrptr := rest }
    hdrStages rest state

/-- The empty line. -/
def eohStage (state : Marshaling) : Except Marshaling Marshaling :=
  if state.1.eoh then .ok state
  else endStage (dstrSkipFill state.fill (ascii "\r\n")) state.1 { state.1 with eoh := true }

/-- `http_marshal_req`: the marshaler and the buffer after it, and whether marshaling is complete. -/
def httpMarshalReq (m : HttpMarshaler) (buf : OutBuf) : HttpMarshaler × OutBuf × Bool :=
  let result := do
    let state ← methodUrlStage (m, buf)
    let state ← paramStages state.1.paramptr state
    let state ← fragmentVersionStage state
    let state ← hostStage state
    let state ← contentLengthStage state
    let state ← hdrStages state.1.hdrptr state
    eohStage state
  match result with
  | .error (m, buf) => (m, buf, false)
  | .ok (m, buf) => (m, buf, true)

end Splintermail
