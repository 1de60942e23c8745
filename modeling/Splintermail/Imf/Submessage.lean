/-
This file models `imf_get_submessage`, which goes down to a part of a message, and the functions
of `dn.c` that make the response for a section of it.

At every number of the section the part is what the flags of its content type say: a message, whose
headers are read first, or a multipart body, or something that has no parts. The message that
is handed on is there if the last part was one. The functions that read header fields look at
it without a check.
-/

import Splintermail.Imap.Expression
import Splintermail.Imf.Fields
import Splintermail.Imf.Partition

namespace Splintermail

open List

/-! ### The code -/

/-- What stops the building of a response: an error of the parser of fields, another one, or that
the headers of a part that is no message are read. -/
inductive SubmsgFault (Error : Type) where
  | parser (error : Error)
  | error (error : Derr)
  | noImf
  deriving DecidableEq, Repr

/-- The error of headers that do not parse. -/
def SubmsgFault.syntaxError {Error : Type} : SubmsgFault Error :=
  .error ⟨.param, "syntax error"⟩

/-- A range that is in its buffer. What is not would be cut, as in `dstr_sub2`. -/
def ByteOff.range (off : ByteOff) (buf : Bytes) : ByteRange where
  buf := buf
  start := min off.start buf.length
  len := min off.len (buf.length - min off.start buf.length)
  inside := by omega

/-- The texts of a header. -/
def HdrOff.hdr (hdr : HdrOff) (buf : Bytes) : ImfHdr where
  bytes := hdr.bytes.text buf
  name := hdr.name.text buf
  value := hdr.value.text buf

/-- A message as a `loader_t` has it: its bytes, and the headers that were found. -/
structure LoadedMsg where
  buf : Bytes
  hdrs : HdrsOff

/-- `loader_parse_imf` -/
def LoadedMsg.imf (msg : LoadedMsg) : Option ImfOff := imfParseOff msg.buf (some msg.hdrs)

/-- `get_mime_boundary`, where `none` stands for missing. -/
def getMimeBoundary (contentType : MimeContentType) : Option Bytes :=
  let found := contentType.params.find? fun param =>
    dstrIcmp2 (ieDstrText param.key) (ascii "boundary") = 0
  found.map fun param => ieDstrText param.val

namespace MimeContentType

/-- `ismessage && isrfc822` -/
def isRfc822 (contentType : MimeContentType) : Bool :=
  contentType.type = .message && contentType.subtype = .rfc822

/-- `ismultipart` -/
def isMultipart (contentType : MimeContentType) : Bool := contentType.type = .multipart

/-- `isdigest` -/
def isDigest (contentType : MimeContentType) : Bool := contentType.subtype = .digest

/-- `isterminal` -/
def isTerminal (contentType : MimeContentType) : Bool :=
  !contentType.isMultipart && !contentType.isRfc822

end MimeContentType

/-- The variables of `imf_get_submessage`. Its flags are those of the content type. -/
structure Submsg where
  bytes : ByteOff
  mimeHdrs : ByteOff
  imf : Option ImfOff
  contentType : MimeContentType

section Submessage

variable (parser : ImfParser) (buf : Bytes)

/-- `read_mime_content_type` of headers that are ranges. -/
def readContentType (hdrs : HdrsOff) (defaultType defaultSubtype : Bytes) :
    Except (SubmsgFault parser.Error) MimeContentType :=
  (parser.readMimeContentType (hdrs.hdr.map fun hdr => hdr.hdr buf) defaultType
    defaultSubtype).mapError .parser

/-- The branch of the loop for a message: the body of the message, and what its headers say it
is. -/
def enterMessage (sub : Submsg) : Except (SubmsgFault parser.Error) Submsg :=
  if sub.contentType.isRfc822 then
    match sub.imf with
    | none => .error .noImf
    | some imf => do
      let contentType ← readContentType parser buf imf.hdrs (ascii "text") (ascii "plain")
      return ⟨imf.body, imf.hdrs.bytes, none, contentType⟩
  else .ok sub

/-- The branch of the loop for a multipart body: the part of a number, without its headers. -/
def enterPart (sub : Submsg) (part : Subpart) : Except (SubmsgFault parser.Error) Submsg := do
  let bytes : ByteOff := ⟨part.start, part.len⟩
  -- get the mime headers from the subpart
  let some mimeHdrs := imfHdrsParseSub (bytes.range buf) | throw .syntaxError
  let contentType ←
    -- multipart/digest changes the default Content-Type
    if sub.contentType.isDigest then
      readContentType parser buf mimeHdrs (ascii "message") (ascii "rfc822")
    else readContentType parser buf mimeHdrs (ascii "text") (ascii "plain")
  -- remove the mime headers from the bytes we're considering
  return ⟨⟨part.start + mimeHdrs.bytes.len, part.len - mimeHdrs.bytes.len⟩, mimeHdrs.bytes,
    sub.imf, contentType⟩

/-- The end of an iteration: a message is parsed. -/
def parseSubmsg (sub : Submsg) : Except (SubmsgFault parser.Error) Submsg :=
  if sub.contentType.isRfc822 then
    match imfParseSub (sub.bytes.range buf) none with
    | none => .error .syntaxError
    | some imf => .ok { sub with imf := some imf }
  else .ok sub

/-- The loop of `imf_get_submessage`, where `none` stands for missing. -/
def getSubpart : List Nat → Submsg → Except (SubmsgFault parser.Error) (Option Submsg)
  | [], sub => .ok (some sub)
  | n :: next, sub =>
    -- terminal content types have no subparts
    if sub.contentType.isTerminal then .ok none
    else do
      let entered ← enterMessage parser buf sub
      -- part 1 of a message with a terminal body, but only part 1
      if sub.contentType.isRfc822 && entered.contentType.isTerminal then
        if n ≠ 1 ∨ next ≠ [] then return none
        return some entered
      if entered.contentType.isMultipart then
        match getMimeBoundary entered.contentType with
        | none =>
          -- the missing boundary case
          if n = 1 ∧ next = [] then
            return some { entered with
              bytes := ⟨entered.bytes.start, 0⟩
              mimeHdrs := ⟨entered.bytes.start, 0⟩ }
          return none
        | some boundary =>
          match getMultipartIndex (entered.bytes.range buf) 0 boundary n with
          | none =>
            -- the zero multiparts case
            if n = 1 ∧ next = [] then
              return some { entered with bytes := ⟨0, 0⟩, mimeHdrs := ⟨0, 0⟩ }
            return none
          | some part =>
            let sub ← enterPart parser buf entered part
            getSubpart next (← parseSubmsg parser buf sub)
      else getSubpart next (← parseSubmsg parser buf entered)

/-- `imf_get_submessage`, where `none` stands for missing. -/
def imfGetSubmessage (rootImf : ImfOff) (sectPart : List Nat) :
    Except (SubmsgFault parser.Error) (Option Submsg) :=
  getSubpart parser buf sectPart ⟨rootImf.bytes, rootImf.hdrs.bytes, some rootImf,
    mimeContentTypeNew (ascii "message") (ascii "rfc822") []⟩

end Submessage

/-! ### The responses -/

/-- `build_sect_txt_content_resp`, where `none` stands for a request that is not fetchable. -/
def buildSectTxtContentResp {Error : Type} (buf : Bytes) (sectTxt : Option IeSectTxt)
    (sub : Submsg) : Except (SubmsgFault Error) (Option Bytes) :=
  match sectTxt with
  -- a missing sect_txt indicates the whole submessage
  | none => .ok (some (sub.bytes.text buf))
  | some ⟨.mime, _⟩ => .ok (some (sub.mimeHdrs.text buf))
  | some ⟨.text, _⟩ => .ok (sub.imf.map fun imf => imf.body.text buf)
  | some ⟨.header, _⟩ => .ok (sub.imf.map fun imf => imf.hdrs.bytes.text buf)
  | some ⟨.hdrFlds, headers⟩ => .ok (sub.imf.map fun imf => copyHdrFields buf imf.hdrs headers)
  | some ⟨.hdrFldsNot, headers⟩ =>
    match sub.imf with
    | none => .error .noImf
    | some imf => .ok (some (copyHdrFieldsNot buf imf.hdrs headers))

/-- `ie_dstr_sub` -/
def ieDstrSub (content : Bytes) (start fin : Nat) : Bytes :=
  -- don't support the end semantics of dstr_sub
  if fin = 0 then [] else dstrSub content start fin

/-- `ie_fetch_resp_extra_t` -/
structure FetchRespExtra where
  sect : Option IeSect
  offset : Option Nat
  content : Bytes
  deriving DecidableEq, Repr

section Extras

variable (parser : ImfParser) (loader : Except Derr LoadedMsg)

/-- The general clause of `build_fetch_resp_extra`, where `none` stands for missing. -/
def sectContent (sect : IeSect) : Except (SubmsgFault parser.Error) (Option Bytes) := do
  let msg ← loader.mapError .error
  let some rootImf := msg.imf | throw .syntaxError
  match ← imfGetSubmessage parser msg.buf rootImf sect.sectPart with
  | none => return none
  | some sub => buildSectTxtContentResp msg.buf sect.sectTxt sub

/-- The content of a section in `build_fetch_resp_extra`, where `none` stands for missing. -/
def extraContent (extra : IeFetchExtra) : Except (SubmsgFault parser.Error) (Option Bytes) :=
  match extra.sect with
  -- BODY[] by itself
  | none => do return some (← loader.mapError .error).buf
  -- cases where we don't have to read the whole message at all
  | some ⟨[], some ⟨.header, _⟩⟩ => do
    let msg ← loader.mapError .error
    return some (msg.hdrs.bytes.text msg.buf)
  | some ⟨[], some ⟨.hdrFlds, headers⟩⟩ => do
    let msg ← loader.mapError .error
    return some (copyHdrFields msg.buf msg.hdrs headers)
  | some ⟨[], some ⟨.hdrFldsNot, headers⟩⟩ => do
    let msg ← loader.mapError .error
    return some (copyHdrFieldsNot msg.buf msg.hdrs headers)
  | some sect => sectContent parser loader sect

/-- `build_fetch_resp_extra`: the responses so far with the one for a section, and whether it is
missing. -/
def buildFetchRespExtra (f : List FetchRespExtra) (extra : IeFetchExtra) :
    Except (SubmsgFault parser.Error) (List FetchRespExtra × Bool) := do
  match ← extraContent parser loader extra with
  | none => return (f, true)
  | some content =>
    match extra.part with
    | none => return (f ++ [⟨extra.sect, none, content⟩], false)
    | some part =>
      return (f ++ [⟨extra.sect, some part.a, ieDstrSub content part.a (part.a + part.b)⟩], false)

/-- The loop of `send_fetch_resp` over the extra attributes. The flag is passed on to every call. -/
def sendFetchExtras : List IeFetchExtra → List FetchRespExtra → Bool →
    Except (SubmsgFault parser.Error) (List FetchRespExtra × Bool)
  | [], f, partMissing => .ok (f, partMissing)
  | extra :: next, f, _ => do
    let (f, partMissing) ← buildFetchRespExtra parser loader f extra
    sendFetchExtras next f partMissing

end Extras

/-! ### What is missing -/

section Missing

variable (parser : ImfParser) (msg : LoadedMsg)

/-- `imf_get_submessage` on a message that was loaded. -/
def LoadedMsg.submessage (sectPart : List Nat) :
    Except (SubmsgFault parser.Error) (Option Submsg) :=
  match msg.imf with
  | none => .error .syntaxError
  | some rootImf => imfGetSubmessage parser msg.buf rootImf sectPart

/-- The sections that only a message has. -/
def IeSectTxtType.ofMessage : IeSectTxtType → Bool
  | .mime => false
  | .text => true
  | .header => true
  | .hdrFlds => true
  | .hdrFldsNot => true

/-- A section does not exist: the part is missing, or it is no message and the section is one of a
message. -/
def SectionMissing (extra : IeFetchExtra) : Prop :=
  ∃ sect, extra.sect = some sect ∧
    (msg.submessage parser sect.sectPart = .ok none ∨
      ∃ sub sectTxt, msg.submessage parser sect.sectPart = .ok (some sub) ∧ sub.imf = none ∧
        sect.sectTxt = some sectTxt ∧ sectTxt.type.ofMessage = true)

/-- A section is what is left of the header fields of a part that is no message. -/
def FieldsOfNoMessage (extra : IeFetchExtra) : Prop :=
  ∃ sect headers sub, extra.sect = some sect ∧ sect.sectTxt = some ⟨.hdrFldsNot, headers⟩ ∧
    msg.submessage parser sect.sectPart = .ok (some sub) ∧ sub.imf = none

/-- The part of a section is looked up without an error. -/
def SectionFound (extra : IeFetchExtra) : Prop :=
  ∀ sect, extra.sect = some sect → ∃ found, msg.submessage parser sect.sectPart = .ok found

/-- Among some sections the fields of a part that is no message are asked for, and the sections
before them can be answered. -/
def FieldsOfNoMessageAsked (extras : List IeFetchExtra) : Prop :=
  ∃ front extra back, extras = front ++ extra :: back ∧ FieldsOfNoMessage parser msg extra ∧
    ∀ other ∈ front, SectionFound parser msg other ∧ ¬ FieldsOfNoMessage parser msg other

end Missing

/-! ### The loop over the numbers of a section -/

section Loop

variable {parser : ImfParser} {buf : Bytes}

/-- A message was parsed if the flags say that there is one. -/
def Submsg.Parsed (sub : Submsg) : Prop := sub.contentType.isRfc822 = true → sub.imf.isSome = true

/-- No headers of a part that is no message are read. -/
def Guarded {Error Value : Type} (outcome : Except (SubmsgFault Error) Value) : Prop :=
  outcome ≠ .error .noImf

theorem Guarded.bind {Error Value Result : Type} {first : Except (SubmsgFault Error) Value}
    {next : Value → Except (SubmsgFault Error) Result} (one : Guarded first)
    (other : ∀ value, first = .ok value → Guarded (next value)) : Guarded (first >>= next) := by
  cases first with
  | ok value => exact other value rfl
  | error fault => exact fun same => one (congrArg Except.error (Except.error.inj same))

theorem Guarded.ok {Error Value : Type} (value : Value) :
    Guarded (.ok value : Except (SubmsgFault Error) Value) := nofun

theorem Guarded.syntaxError {Error Value : Type} :
    Guarded (.error .syntaxError : Except (SubmsgFault Error) Value) := nofun

theorem readContentType_guarded (hdrs : HdrsOff) (defaultType defaultSubtype : Bytes) :
    Guarded (readContentType parser buf hdrs defaultType defaultSubtype) := by
  unfold readContentType
  cases parser.readMimeContentType (hdrs.hdr.map fun hdr => hdr.hdr buf) defaultType
    defaultSubtype with
  | ok contentType => exact Guarded.ok contentType
  | error error => exact nofun

theorem enterMessage_guarded {sub : Submsg} (parsed : sub.Parsed) :
    Guarded (enterMessage parser buf sub) := by
  unfold enterMessage
  split
  · rename_i message
    obtain ⟨imf, found⟩ := Option.isSome_iff_exists.mp (parsed message)
    rw [found]
    exact (readContentType_guarded _ _ _).bind fun _ _ => Guarded.ok _
  · exact Guarded.ok sub

theorem enterPart_guarded (sub : Submsg) (part : Subpart) :
    Guarded (enterPart parser buf sub part) := by
  unfold enterPart
  dsimp only
  split
  · split <;> exact (readContentType_guarded _ _ _).bind fun _ _ => Guarded.ok _
  · exact Guarded.syntaxError

theorem parseSubmsg_guarded (sub : Submsg) : Guarded (parseSubmsg parser buf sub) := by
  unfold parseSubmsg
  split
  · split
    · exact Guarded.syntaxError
    · exact Guarded.ok _
  · exact Guarded.ok _

theorem parseSubmsg_parsed {sub parsed : Submsg}
    (result : parseSubmsg parser buf sub = .ok parsed) : parsed.Parsed := by
  unfold parseSubmsg at result
  split at result
  · split at result
    · exact nomatch result
    · cases result
      exact fun _ => rfl
  · rename_i plain
    cases result
    exact fun message => absurd message plain

/-- On the way down no headers are read that are not there. -/
theorem getSubpart_guarded (path : List Nat) {sub : Submsg} (parsed : sub.Parsed) :
    Guarded (getSubpart parser buf path sub) := by
  induction path generalizing sub with
  | nil => exact Guarded.ok _
  | cons n next ih =>
    have further : ∀ sub, Guarded (parseSubmsg parser buf sub >>= getSubpart parser buf next) :=
      fun sub => (parseSubmsg_guarded sub).bind fun found result =>
        ih (parseSubmsg_parsed result)
    rw [getSubpart]
    by_cases terminal : sub.contentType.isTerminal = true
    · rw [if_pos terminal]
      exact Guarded.ok none
    rw [if_neg terminal]
    refine (enterMessage_guarded parsed).bind fun entered _ => ?_
    by_cases special : (sub.contentType.isRfc822 && entered.contentType.isTerminal) = true
    · rw [if_pos special]
      split <;> exact Guarded.ok _
    rw [if_neg special]
    by_cases multipart : entered.contentType.isMultipart = true
    · rw [if_pos multipart]
      cases getMimeBoundary entered.contentType with
      | none =>
        dsimp only
        split <;> exact Guarded.ok _
      | some boundary =>
        dsimp only
        cases getMultipartIndex (entered.bytes.range buf) 0 boundary n with
        | none =>
          dsimp only
          split <;> exact Guarded.ok _
        | some part => exact (enterPart_guarded entered part).bind fun sub _ => further sub
    · rw [if_neg multipart]
      exact further entered

end Loop

/-! ### What the loop over the sections keeps -/

section Extras

variable {parser : ImfParser} {msg : LoadedMsg}

theorem submessage_guarded (path : List Nat) : Guarded (msg.submessage parser path) := by
  unfold LoadedMsg.submessage
  split
  · exact Guarded.syntaxError
  · exact getSubpart_guarded path fun _ => rfl

theorem sectContent_of_ok {sect : IeSect} {found : Option Submsg}
    (submessage : msg.submessage parser sect.sectPart = .ok found) :
    sectContent parser (.ok msg) sect = match found with
      | none => .ok none
      | some sub => buildSectTxtContentResp msg.buf sect.sectTxt sub := by
  have looked : imfGetSubmessage parser msg.buf _ sect.sectPart = .ok found := submessage
  show (imfGetSubmessage parser msg.buf _ sect.sectPart >>= _) = _
  rw [looked]
  cases found <;> rfl

theorem sectContent_of_error {sect : IeSect} {fault : SubmsgFault parser.Error}
    (submessage : msg.submessage parser sect.sectPart = .error fault) :
    sectContent parser (.ok msg) sect = .error fault := by
  have looked : imfGetSubmessage parser msg.buf _ sect.sectPart = .error fault := submessage
  show (imfGetSubmessage parser msg.buf _ sect.sectPart >>= _) = _
  rw [looked]
  rfl

variable {extra : IeFetchExtra}

theorem extraContent_eq {sect : IeSect} (asked : extra.sect = some sect) :
    extraContent parser (.ok msg) extra = sectContent parser (.ok msg) sect := by
  obtain ⟨peek, _, part⟩ := extra
  obtain rfl : _ = some sect := asked
  obtain ⟨path, sectTxt⟩ := sect
  cases path with
  | cons n next => rfl
  | nil =>
    cases sectTxt with
    | none => rfl
    | some sectTxt =>
      obtain ⟨type, headers⟩ := sectTxt
      cases type <;> rfl

/-- The section text lookup on a part that was found. -/
theorem buildSectTxtContentResp_cases {Error : Type} (buf : Bytes) (sectTxt : Option IeSectTxt)
    (sub : Submsg) {outcome : Except (SubmsgFault Error) (Option Bytes)}
    (result : buildSectTxtContentResp buf sectTxt sub = outcome) :
    (∃ headers, sectTxt = some ⟨.hdrFldsNot, headers⟩ ∧ sub.imf = none ∧ outcome = .error .noImf) ∨
    (∃ kind, sectTxt = some kind ∧ kind.type.ofMessage = true ∧ kind.type ≠ .hdrFldsNot ∧
      sub.imf = none ∧ outcome = .ok none) ∨
    ((sub.imf = none → ∀ kind, sectTxt = some kind → kind.type.ofMessage = false) ∧
      ∃ content, outcome = .ok (some content)) := by
  subst result
  cases sectTxt with
  | none => exact .inr (.inr ⟨nofun, _, rfl⟩)
  | some kind =>
    obtain ⟨type, headers⟩ := kind
    cases message : sub.imf with
    | some imf =>
      refine .inr (.inr ⟨nofun, ?_⟩)
      cases type <;> simp only [buildSectTxtContentResp, message] <;> exact ⟨_, rfl⟩
    | none =>
      cases type with
      | mime => exact .inr (.inr ⟨fun _ kind same => by cases same; rfl, _, rfl⟩)
      | hdrFldsNot =>
        exact .inl ⟨headers, rfl, rfl, by simp only [buildSectTxtContentResp, message]⟩
      | _ =>
        refine .inr (.inl ⟨_, rfl, rfl, nofun, rfl, ?_⟩)
        simp only [buildSectTxtContentResp, message]
        rfl

/-- A section is one of the fields of what is no message, or it is missing, or it has its content,
or its part cannot be looked up. -/
theorem extraContent_cases (extra : IeFetchExtra)
    {outcome : Except (SubmsgFault parser.Error) (Option Bytes)}
    (result : extraContent parser (.ok msg) extra = outcome) :
    (FieldsOfNoMessage parser msg extra ∧ outcome = .error .noImf) ∨
    (SectionFound parser msg extra ∧ ¬ FieldsOfNoMessage parser msg extra ∧
      ∃ content, outcome = .ok content ∧ (content = none ↔ SectionMissing parser msg extra)) ∨
    (¬ SectionFound parser msg extra ∧ ¬ FieldsOfNoMessage parser msg extra ∧
      ∃ fault, fault ≠ .noImf ∧ outcome = .error fault) := by
  cases asked : extra.sect with
  | none =>
    have body : extraContent parser (.ok msg) extra = .ok (some msg.buf) := by
      unfold extraContent
      rw [asked]
      rfl
    refine .inr (.inl ⟨?_, ?_, _, result.symm.trans body, iff_of_false nofun ?_⟩)
    · rintro sect same
      exact nomatch asked.symm.trans same
    · rintro ⟨sect, headers, sub, same, -⟩
      exact nomatch asked.symm.trans same
    · rintro ⟨sect, same, -⟩
      exact nomatch asked.symm.trans same
  | some sect =>
    have only : ∀ other, extra.sect = some other → other = sect := fun other same =>
      Option.some.inj (same.symm.trans asked)
    rw [extraContent_eq asked] at result
    cases submessage : msg.submessage parser sect.sectPart with
    | error fault =>
      refine .inr (.inr ⟨fun found => ?_, ?_, fault, ?_, ?_⟩)
      · obtain ⟨sub, same⟩ := found sect asked
        exact nomatch submessage.symm.trans same
      · rintro ⟨other, headers, sub, same, -, found, -⟩
        rw [only other same] at found
        exact nomatch submessage.symm.trans found
      · rintro rfl
        exact submessage_guarded _ submessage
      · exact result.symm.trans (sectContent_of_error submessage)
    | ok found =>
      have unique : ∀ other sub, extra.sect = some other →
          msg.submessage parser other.sectPart = .ok sub → other = sect ∧ sub = found :=
        fun other sub same looked => by
          obtain rfl := only other same
          exact ⟨rfl, Except.ok.inj (looked.symm.trans submessage)⟩
      have foundHere : SectionFound parser msg extra := fun other same => by
        obtain rfl := only other same
        exact ⟨found, submessage⟩
      rw [sectContent_of_ok submessage] at result
      cases found with
      | none =>
        refine .inr (.inl ⟨foundHere, ?_, none, result.symm, iff_of_true rfl ?_⟩)
        · rintro ⟨other, headers, sub, same, -, looked, -⟩
          exact nomatch (unique other sub same looked).2
        · exact ⟨sect, asked, .inl submessage⟩
      | some sub =>
        obtain ⟨headers, kind, message, crashed⟩ |
          ⟨kind, same, ofMessage, other, message, missing⟩ | ⟨fine, content, answered⟩ :=
            buildSectTxtContentResp_cases msg.buf sect.sectTxt sub result
        · exact .inl ⟨⟨sect, headers, sub, asked, kind, submessage, message⟩, crashed⟩
        · refine .inr (.inl ⟨foundHere, ?_, none, missing, iff_of_true rfl ?_⟩)
          · rintro ⟨another, headers, part, sectSame, kindSame, looked, -⟩
            obtain ⟨rfl, -⟩ := unique another part sectSame looked
            cases same.symm.trans kindSame
            exact other rfl
          · exact ⟨sect, asked, .inr ⟨sub, kind, submessage, message, same, ofMessage⟩⟩
        · refine .inr (.inl ⟨foundHere, ?_, some content, answered, iff_of_false nofun ?_⟩)
          · rintro ⟨another, headers, part, sectSame, kindSame, looked, message⟩
            obtain ⟨rfl, partSame⟩ := unique another part sectSame looked
            cases partSame
            exact Bool.noConfusion (fine message _ kindSame)
          · rintro ⟨another, sectSame, looked | ⟨part, kind, looked, message, kindSame, ofMessage⟩⟩
            · exact nomatch (unique another none sectSame looked).2
            · obtain ⟨rfl, partSame⟩ := unique another part sectSame looked
              cases partSame
              exact Bool.noConfusion (ofMessage.symm.trans (fine message kind kindSame))

theorem extraContent_unloaded (error : Derr) (extra : IeFetchExtra) :
    extraContent parser (.error error) extra = .error (.error error) := by
  obtain ⟨peek, sect, part⟩ := extra
  cases sect with
  | none => rfl
  | some sect =>
    obtain ⟨path, sectTxt⟩ := sect
    cases path with
    | cons n next => rfl
    | nil =>
      cases sectTxt with
      | none => rfl
      | some sectTxt =>
        obtain ⟨type, headers⟩ := sectTxt
        cases type <;> rfl

theorem fieldsOfNoMessageAsked_cons {next : List IeFetchExtra} :
    FieldsOfNoMessageAsked parser msg (extra :: next) ↔
      FieldsOfNoMessage parser msg extra ∨
        (SectionFound parser msg extra ∧ ¬ FieldsOfNoMessage parser msg extra ∧
          FieldsOfNoMessageAsked parser msg next) := by
  constructor
  · rintro ⟨front, other, back, whole, fields, before⟩
    cases front with
    | nil =>
      obtain ⟨rfl, -⟩ := cons.inj whole
      exact .inl fields
    | cons head front =>
      obtain ⟨rfl, rest⟩ := cons.inj whole
      obtain ⟨found, plain⟩ := before extra mem_cons_self
      exact .inr ⟨found, plain, front, other, back, rest, fields, fun another mem =>
        before another (.tail _ mem)⟩
  · rintro (fields | ⟨found, plain, front, other, back, rfl, fields, before⟩)
    · exact ⟨[], extra, next, rfl, fields, nofun⟩
    · refine ⟨extra :: front, other, back, rfl, fields, fun another mem => ?_⟩
      obtain rfl | mem := mem_cons.mp mem
      · exact ⟨found, plain⟩
      · exact before another mem

/-- One round of the loop. -/
theorem sendFetchExtras_cons {content : Option Bytes}
    (answered : extraContent parser (.ok msg) extra = .ok content) (next : List IeFetchExtra)
    (f : List FetchRespExtra) (partMissing : Bool) :
    ∃ f', sendFetchExtras parser (.ok msg) (extra :: next) f partMissing =
      sendFetchExtras parser (.ok msg) next f' content.isNone := by
  obtain ⟨peek, sect, part⟩ := extra
  rw [sendFetchExtras, buildFetchRespExtra, answered]
  cases content with
  | none => exact ⟨f, rfl⟩
  | some content => cases part <;> exact ⟨_, rfl⟩

theorem sendFetchExtras_error {loader : Except Derr LoadedMsg} {next : List IeFetchExtra}
    {fault : SubmsgFault parser.Error} (failed : extraContent parser loader extra = .error fault)
    (f : List FetchRespExtra) (partMissing : Bool) :
    sendFetchExtras parser loader (extra :: next) f partMissing = .error fault := by
  rw [sendFetchExtras, buildFetchRespExtra, failed]
  rfl

/-- The loop reads the fields of what is no message if and only if it comes to a section that asks
for them. -/
theorem sendFetchExtras_noImf_iff (extras : List IeFetchExtra) (f : List FetchRespExtra)
    (partMissing : Bool) :
    sendFetchExtras parser (.ok msg) extras f partMissing = .error .noImf ↔
      FieldsOfNoMessageAsked parser msg extras := by
  induction extras generalizing f partMissing with
  | nil =>
    refine iff_of_false nofun ?_
    rintro ⟨front, extra, back, whole, -⟩
    exact absurd whole (append_ne_nil_of_right_ne_nil _ (cons_ne_nil _ _)).symm
  | cons extra next ih =>
    rw [fieldsOfNoMessageAsked_cons]
    obtain ⟨fields, crashed⟩ | ⟨found, plain, content, answered, -⟩ |
      ⟨lost, plain, fault, other, failed⟩ := extraContent_cases extra rfl
    · exact iff_of_true (sendFetchExtras_error crashed f partMissing) (.inl fields)
    · obtain ⟨f', same⟩ := sendFetchExtras_cons answered next f partMissing
      rw [same, ih, or_iff_right plain]
      exact ⟨fun asked => ⟨found, plain, asked⟩, fun asked => asked.2.2⟩
    · rw [sendFetchExtras_error failed]
      refine iff_of_false (fun same => other (Except.error.inj same)) ?_
      rintro (fields | ⟨found, -⟩)
      · exact plain fields
      · exact lost found

/-- The flag that is left is that of the last section. -/
theorem sendFetchExtras_ok {extras : List IeFetchExtra} {f fs : List FetchRespExtra}
    {partMissing missing : Bool}
    (result : sendFetchExtras parser (.ok msg) extras f partMissing = .ok (fs, missing)) :
    missing = true ↔ match extras.getLast? with
      | none => partMissing = true
      | some last => SectionMissing parser msg last := by
  induction extras generalizing f partMissing with
  | nil =>
    cases result
    rfl
  | cons extra next ih =>
    obtain ⟨-, crashed⟩ | ⟨-, -, content, answered, missed⟩ | ⟨-, -, fault, -, failed⟩ :=
      extraContent_cases extra rfl
    · exact nomatch (sendFetchExtras_error crashed f partMissing).symm.trans result
    · obtain ⟨f', same⟩ := sendFetchExtras_cons answered next f partMissing
      rw [ih (same.symm.trans result)]
      cases next with
      | nil =>
        rw [getLast?_nil, getLast?_singleton]
        exact Option.isNone_iff_eq_none.trans missed
      | cons other rest =>
        rw [getLast?_cons_cons, getLast?_eq_some_getLast (cons_ne_nil other rest)]
    · exact nomatch (sendFetchExtras_error failed f partMissing).symm.trans result

end Extras

end Splintermail
