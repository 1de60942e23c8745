/-
This file models how `read_envelope_info`, `read_mime_content_type` and
`read_bodystruct_info` choose the header fields that they parse.

All three make one pass over the headers, and stop it early once a countdown that all their
fields share is at zero. A field is the first nonempty header with its name, whatever the
other fields are, and whenever the pass stops. The parser of `imf.in` is generated by the
build and is a parameter here; between two fields it is reset, so that a field is parsed
from its own text only. One of the names is spelled wrong, and so the description of a body
is taken from another header than the one it is in.
-/

import Mathlib.Data.List.DropRight
import Mathlib.Data.List.Find
import Mathlib.Logic.Function.Basic
import Splintermail.Imap.Expression
import Splintermail.Imf.Hdrs

namespace Splintermail

open List

/-! ### The first pass -/

section Locating

variable {Field : Type} [DecidableEq Field] (name : Field → Bytes)

/-- `DETECT_HDR` for one field, on the texts of the fields and on `need`. -/
def detectHdr (hdr : ImfHdr) (found : (Field → Bytes) × Nat) (field : Field) :
    (Field → Bytes) × Nat :=
  if found.1 field = [] then
    if dstrIcmp2 hdr.name (name field) = 0 then
      (Function.update found.1 field hdr.value, found.2 - 1)
    else found
  else found

/-- The first pass, which only locates the headers that are read later. -/
def locate (fields : List Field) : (Field → Bytes) × Nat → List ImfHdr → Field → Bytes
  | found, [] => found.1
  | found, hdr :: rest =>
    if found.2 = 0 then found.1
    -- empty fields are ignored
    else if hdr.value = [] then locate fields found rest
    else locate fields (fields.foldl (detectHdr name hdr) found) rest

end Locating

/-- The fields of `read_envelope_info`. -/
inductive EnvelopeField where
  | date
  | subj
  | from
  | sender
  | replyTo
  | to
  | cc
  | bcc
  | inReplyTo
  | msgId
  deriving DecidableEq, Repr

/-- The names `d_date` to `d_msg_id`. -/
def EnvelopeField.name : EnvelopeField → Bytes
  | .date => ascii "date"
  | .subj => ascii "subject"
  | .from => ascii "from"
  | .sender => ascii "sender"
  | .replyTo => ascii "reply-to"
  | .to => ascii "to"
  | .cc => ascii "cc"
  | .bcc => ascii "bcc"
  | .inReplyTo => ascii "in-reply-to"
  | .msgId => ascii "message-id"

/-- The fields in the order of `read_envelope_info`. -/
def EnvelopeField.all : List EnvelopeField :=
  [.date, .subj, .from, .sender, .replyTo, .to, .cc, .bcc, .inReplyTo, .msgId]

/-- The fields of `read_mime_content_type`. -/
inductive MimeField where
  | version
  | contentType
  deriving DecidableEq, Repr

/-- The names `d_version` and `d_content_type` of `read_mime_content_type`. -/
def MimeField.name : MimeField → Bytes
  | .version => ascii "mime-version"
  | .contentType => ascii "content-type"

def MimeField.all : List MimeField := [.version, .contentType]

/-- The fields of `read_bodystruct_info`. -/
inductive BodyField where
  | version
  | contentType
  | contentId
  | description
  | contentTransferEncoding
  | md5
  | disposition
  | lang
  | location
  deriving DecidableEq, Repr

/-- The names `d_version` to `d_location` of `read_bodystruct_info`. -/
def BodyField.name : BodyField → Bytes
  | .version => ascii "mime-version"
  | .contentType => ascii "content-type"
  | .contentId => ascii "content-id"
  | .description => ascii "contentmdescription"
  | .contentTransferEncoding => ascii "content-transfer-encoding"
  | .md5 => ascii "content-md5"
  | .disposition => ascii "content-disposition"
  | .lang => ascii "content-language"
  | .location => ascii "content-location"

/-- The fields in the order of `read_bodystruct_info`. -/
def BodyField.all : List BodyField :=
  [.version, .contentType, .contentId, .description, .contentTransferEncoding, .md5, .disposition,
    .lang, .location]

/-! ### The second pass -/

/-- `ie_addr_t` -/
structure IeAddr where
  name : IeDstr
  mailbox : IeDstr
  host : IeDstr
  deriving DecidableEq, Repr

/-- `mime_version_t` -/
structure MimeVersion where
  major : Nat
  minor : Nat
  deriving DecidableEq, Repr

/-- `mime_param_t` -/
structure MimeParam where
  key : IeDstr
  val : IeDstr
  deriving DecidableEq, Repr

/-- `mime_type_e` -/
inductive MimeType where
  | other
  | message
  | multipart
  | text
  deriving DecidableEq, Repr

/-- `mime_subtype_e` -/
inductive MimeSubtype where
  | other
  | rfc822
  | digest
  deriving DecidableEq, Repr

/-- `mime_content_type_t` -/
structure MimeContentType where
  type : MimeType
  subtype : MimeSubtype
  typestr : Bytes
  subtypestr : Bytes
  params : List MimeParam
  deriving DecidableEq, Repr

/-- `ie_body_disp_t` -/
structure IeBodyDisp where
  disp : IeDstr
  params : List MimeParam
  deriving DecidableEq, Repr

/-- `mime_content_type_new` -/
def mimeContentTypeNew (typestr subtypestr : Bytes) (params : List MimeParam) : MimeContentType where
  type :=
    if dstrIcmp2 typestr (ascii "message") = 0 then .message
    else if dstrIcmp2 typestr (ascii "multipart") = 0 then .multipart
    else if dstrIcmp2 typestr (ascii "text") = 0 then .text
    else .other
  subtype :=
    if dstrIcmp2 subtypestr (ascii "rfc822") = 0 then .rfc822
    else if dstrIcmp2 subtypestr (ascii "digest") = 0 then .digest
    else .other
  typestr := typestr
  subtypestr := subtypestr
  params := params

/-- The rules of `imf.in` that parse the text of a field. -/
inductive ImfRule where
  | unstruct
  | subj
  | from
  | sender
  | replyTo
  | to
  | cc
  | bcc
  | inReplyTo
  | msgId
  | mimeVersion
  | contentType
  | contentId
  | contentDescription
  | contentTransferEncoding
  | contentMd5
  | contentDisposition
  | contentLanguage
  | contentLocation
  deriving DecidableEq, Repr

/-- What a rule makes. -/
def ImfOut : ImfRule → Type
  | .from | .sender | .replyTo | .to | .cc | .bcc => List IeAddr
  | .mimeVersion => MimeVersion
  | .contentType => Option MimeContentType
  | .contentDisposition => Option IeBodyDisp
  | _ => IeDstr

/-- What a variable for the output of a rule begins with: a null pointer or zeros. -/
def ImfOut.zero : (rule : ImfRule) → ImfOut rule
  | .from | .sender | .replyTo | .to | .cc | .bcc => ([] : List IeAddr)
  | .mimeVersion => MimeVersion.mk 0 0
  | .contentType => (none : Option MimeContentType)
  | .contentDisposition => (none : Option IeBodyDisp)
  | .unstruct | .subj | .inReplyTo | .msgId | .contentId | .contentDescription
  | .contentTransferEncoding | .contentMd5 | .contentLanguage | .contentLocation => ([] : IeDstr)

/-- `imf_status_e` -/
inductive ImfStatus where
  | ok
  | done
  | syntaxError
  | semstackOverflow
  | callstackOverflow
  deriving DecidableEq, Repr

/-- The parser that the build generates, with the scanner that feeds it. -/
structure ImfParser where
  State : Type
  Token : Type
  Error : Type
  /-- `IMF_ONSTACK_PARSER` -/
  onstack : State
  /-- The tokens of `imf_scan_builder` on the text of a field, up to its end. -/
  scan : Bytes → List Token
  /-- `imf_parse_*_field` on one token. -/
  parse : (rule : ImfRule) → State → Bytes → Token → ImfOut rule →
    Except Error (State × ImfStatus × ImfOut rule)
  /-- `imf_parser_reset` -/
  reset : State → State
  /-- A parser that was reset has nothing left of what it parsed. -/
  reset_eq : ∀ state, reset state = onstack

/-- `stripws` -/
def stripws (field : Bytes) : Bytes :=
  let space (char : UInt8) : Bool := char = 32 ∨ char = 9 ∨ char = 13 ∨ char = 10
  (field.rdropWhile space).dropWhile space

/-- `ie_envelope_t` -/
structure IeEnvelope where
  date : IeDstr
  subj : IeDstr
  fromAddr : List IeAddr
  sender : List IeAddr
  replyTo : List IeAddr
  toAddr : List IeAddr
  cc : List IeAddr
  bcc : List IeAddr
  inReplyTo : IeDstr
  msgId : IeDstr
  deriving DecidableEq, Repr

/-- The outputs of `read_bodystruct_info`. -/
structure BodystructInfo where
  contentType : MimeContentType
  contentId : IeDstr
  description : IeDstr
  contentTransferEncoding : IeDstr
  md5 : IeDstr
  disposition : Option IeBodyDisp
  lang : IeDstr
  location : IeDstr
  deriving DecidableEq, Repr

namespace ImfParser

variable (parser : ImfParser)

/-- The loop of `imf_parse_or_nil`. -/
def loop (rule : ImfRule) (field : Bytes) :
    List parser.Token → parser.State → ImfOut rule → Except parser.Error (parser.State × ImfOut rule)
  | [], p, out => .ok (p, out)
  | token :: rest, p, out => do
    let (p, status, out) ← parser.parse rule p field token out
    if status = .ok then loop rule field rest p out else .ok (p, out)

/-- `imf_parse_or_nil` -/
def imfParseOrNil (rule : ImfRule) (field : Bytes) (p : parser.State) :
    Except parser.Error (parser.State × ImfOut rule) := do
  if field = [] then return (p, ImfOut.zero rule)
  let (p, out) ← parser.loop rule field (parser.scan field) p (ImfOut.zero rule)
  return (parser.reset p, out)

/-- `read_envelope_info` -/
def readEnvelopeInfo (hdrs : List ImfHdr) : Except parser.Error IeEnvelope := do
  let field := locate EnvelopeField.name EnvelopeField.all (fun _ => [], 10) hdrs
  -- the sender and reply-to fields default to the from field
  let senderField := if field .sender = [] then field .from else field .sender
  let replyToField := if field .replyTo = [] then field .from else field .replyTo
  let p := parser.onstack
  let (p, date) ← parser.imfParseOrNil .unstruct (field .date) p
  let (p, subj) ← parser.imfParseOrNil .subj (field .subj) p
  let (p, fromAddr) ← parser.imfParseOrNil .from (field .from) p
  let (p, sender) ← parser.imfParseOrNil .sender senderField p
  let (p, replyTo) ← parser.imfParseOrNil .replyTo replyToField p
  let (p, toAddr) ← parser.imfParseOrNil .to (field .to) p
  let (p, cc) ← parser.imfParseOrNil .cc (field .cc) p
  let (p, bcc) ← parser.imfParseOrNil .bcc (field .bcc) p
  let (p, inReplyTo) ← parser.imfParseOrNil .inReplyTo (field .inReplyTo) p
  let (_, msgId) ← parser.imfParseOrNil .msgId (field .msgId) p
  let inReplyTo : IeDstr := inReplyTo
  let msgId : IeDstr := msgId
  return {
    date := date
    subj := subj
    fromAddr := fromAddr
    sender := sender
    replyTo := replyTo
    toAddr := toAddr
    cc := cc
    bcc := bcc
    inReplyTo :=
      if inReplyTo = [] ∧ field .inReplyTo ≠ [] then [stripws (field .inReplyTo)]
      else inReplyTo
    msgId :=
      if msgId = [] ∧ field .msgId ≠ [] then [stripws (field .msgId)] else msgId }

/-- `read_mime_content_type` -/
def readMimeContentType (hdrs : List ImfHdr) (defaultType defaultSubtype : Bytes) :
    Except parser.Error MimeContentType := do
  let field := locate MimeField.name MimeField.all (fun _ => [], 2) hdrs
  let p := parser.onstack
  let (p, _) ← parser.imfParseOrNil .mimeVersion (field .version) p
  let (_, contentType) ← parser.imfParseOrNil .contentType (field .contentType) p
  return Option.getD contentType (mimeContentTypeNew defaultType defaultSubtype [])

/-- `read_bodystruct_info` -/
def readBodystructInfo (hdrs : List ImfHdr) (defaultType defaultSubtype : Bytes) :
    Except parser.Error BodystructInfo := do
  let field := locate BodyField.name BodyField.all (fun _ => [], 9) hdrs
  let p := parser.onstack
  let (p, _) ← parser.imfParseOrNil .mimeVersion (field .version) p
  let (p, contentType) ← parser.imfParseOrNil .contentType (field .contentType) p
  let (p, contentId) ← parser.imfParseOrNil .contentId (field .contentId) p
  let (p, description) ← parser.imfParseOrNil .contentDescription (field .description) p
  let (p, contentTransferEncoding) ←
    parser.imfParseOrNil .contentTransferEncoding (field .contentTransferEncoding) p
  let (p, md5) ← parser.imfParseOrNil .contentMd5 (field .md5) p
  let (p, disposition) ← parser.imfParseOrNil .contentDisposition (field .disposition) p
  let (p, lang) ← parser.imfParseOrNil .contentLanguage (field .lang) p
  let (_, location) ← parser.imfParseOrNil .contentLocation (field .location) p
  return {
    contentType := Option.getD contentType (mimeContentTypeNew defaultType defaultSubtype [])
    contentId := contentId
    description := description
    contentTransferEncoding := contentTransferEncoding
    md5 := md5
    disposition := disposition
    lang := lang
    location := location }

end ImfParser

/-! ### Which header a field is -/

/-- The first header with a name, in any case, that has a value. -/
def firstHdr (name : Bytes) (hdrs : List ImfHdr) : Option ImfHdr :=
  hdrs.find? fun hdr => hdr.value ≠ [] && hdr.name.map ichar = name.map ichar

/-- The text of the field with a name: empty, if there is none. -/
def fieldText (name : Bytes) (hdrs : List ImfHdr) : Bytes :=
  ((firstHdr name hdrs).map ImfHdr.value).getD []

/-- The names of the fields of an ENVELOPE. -/
def EnvelopeField.rfcName : EnvelopeField → Bytes
  | .date => ascii "Date"
  | .subj => ascii "Subject"
  | .from => ascii "From"
  | .sender => ascii "Sender"
  | .replyTo => ascii "Reply-To"
  | .to => ascii "To"
  | .cc => ascii "Cc"
  | .bcc => ascii "Bcc"
  | .inReplyTo => ascii "In-Reply-To"
  | .msgId => ascii "Message-ID"

/-- The names of the fields of a body structure. -/
def BodyField.rfcName : BodyField → Bytes
  | .version => ascii "MIME-Version"
  | .contentType => ascii "Content-Type"
  | .contentId => ascii "Content-ID"
  | .description => ascii "Content-Description"
  | .contentTransferEncoding => ascii "Content-Transfer-Encoding"
  | .md5 => ascii "Content-MD5"
  | .disposition => ascii "Content-Disposition"
  | .lang => ascii "Content-Language"
  | .location => ascii "Content-Location"

namespace ImfParser

variable (parser : ImfParser)

/-- What a field has if only its own text is parsed. -/
def read (rule : ImfRule) (text : Bytes) : Except parser.Error (ImfOut rule) :=
  Prod.snd <$> parser.imfParseOrNil rule text parser.onstack

/-- The identifiers of messages are their text if it cannot be parsed. -/
def readId (rule : ImfRule) (same : ImfOut rule = IeDstr) (text : Bytes) :
    Except parser.Error IeDstr := do
  let id : IeDstr := same ▸ (← parser.read rule text)
  return if id = [] ∧ text ≠ [] then [stripws text] else id

/-- The ENVELOPE that is computed from one text for each field. -/
def envelopeOf (text : EnvelopeField → Bytes) : Except parser.Error IeEnvelope := do
  let orFrom (field : EnvelopeField) := if text field = [] then text .from else text field
  return {
    date := ← parser.read .unstruct (text .date)
    subj := ← parser.read .subj (text .subj)
    fromAddr := ← parser.read .from (text .from)
    sender := ← parser.read .sender (orFrom .sender)
    replyTo := ← parser.read .replyTo (orFrom .replyTo)
    toAddr := ← parser.read .to (text .to)
    cc := ← parser.read .cc (text .cc)
    bcc := ← parser.read .bcc (text .bcc)
    inReplyTo := ← parser.readId .inReplyTo rfl (text .inReplyTo)
    msgId := ← parser.readId .msgId rfl (text .msgId) }

/-- The body structure that is computed from one text for each field. -/
def bodystructOf (text : BodyField → Bytes) (defaultType defaultSubtype : Bytes) :
    Except parser.Error BodystructInfo := do
  -- the version is parsed, but whatever it is has no effect
  let _ ← parser.read .mimeVersion (text .version)
  return {
    contentType := Option.getD (← parser.read .contentType (text .contentType))
      (mimeContentTypeNew defaultType defaultSubtype [])
    contentId := ← parser.read .contentId (text .contentId)
    description := ← parser.read .contentDescription (text .description)
    contentTransferEncoding :=
      ← parser.read .contentTransferEncoding (text .contentTransferEncoding)
    md5 := ← parser.read .contentMd5 (text .md5)
    disposition := ← parser.read .contentDisposition (text .disposition)
    lang := ← parser.read .contentLanguage (text .lang)
    location := ← parser.read .contentLocation (text .location) }

end ImfParser

/-! ### The pass finds the first header of each name -/

section Locating

variable {Field : Type} [DecidableEq Field] {name : Field → Bytes} {fields all : List Field}
  {found : (Field → Bytes) × Nat} {hdr : ImfHdr}

/-- The countdown is never below the number of the fields that are still empty. -/
def Counted (all : List Field) (found : (Field → Bytes) × Nat) : Prop :=
  (all.filter fun field => found.1 field = []).length ≤ found.2

theorem detectHdr_apply (field other : Field) :
    (detectHdr name hdr found field).1 other =
      if other = field ∧ found.1 other = [] ∧ dstrIcmp2 hdr.name (name other) = 0 then hdr.value
      else found.1 other := by
  unfold detectHdr
  by_cases same : other = field
  · subst same
    split_ifs <;> simp_all
  · split_ifs <;> simp_all [Function.update_of_ne]

theorem Counted.detectHdr (counted : Counted all found) (nonempty : hdr.value ≠ []) {field : Field}
    (mem : field ∈ all) : Counted all (detectHdr name hdr found field) := by
  by_cases empty : found.1 field = []
  · by_cases named : dstrIcmp2 hdr.name (name field) = 0
    · have fewer : (all.filter fun other => Function.update found.1 field hdr.value other = []) =
          (all.filter fun other => found.1 other = []).filter fun other => other ≠ field := by
        rw [filter_filter]
        congr 1
        funext other
        by_cases same : other = field
        · subst same
          simp [nonempty]
        · simp [same, Function.update_of_ne]
      have less : ((all.filter fun other => found.1 other = []).filter
          fun other => other ≠ field).length < (all.filter fun other => found.1 other = []).length :=
        length_filter_lt_length_iff_exists.mpr
          ⟨field, mem_filter.mpr ⟨mem, decide_eq_true empty⟩, by simp⟩
      rw [Counted, Splintermail.detectHdr, if_pos empty, if_pos named]
      dsimp only
      rw [fewer]
      exact Nat.le_sub_one_of_lt (less.trans_le counted)
    · rwa [Counted, Splintermail.detectHdr, if_pos empty, if_neg named]
  · rwa [Counted, Splintermail.detectHdr, if_neg empty]

theorem Counted.foldl (counted : Counted all found) (nonempty : hdr.value ≠ [])
    (members : ∀ field ∈ fields, field ∈ all) :
    Counted all (fields.foldl (Splintermail.detectHdr name hdr) found) := by
  induction fields generalizing found with
  | nil => exact counted
  | cons field rest ih =>
    exact ih (counted.detectHdr nonempty (members field mem_cons_self))
      fun other mem => members other (.tail _ mem)

/-- One header goes to every field with its name that is still empty. -/
theorem foldl_detectHdr_apply (nonempty : hdr.value ≠ []) (field : Field) :
    (fields.foldl (detectHdr name hdr) found).1 field =
      if field ∈ fields ∧ found.1 field = [] ∧ dstrIcmp2 hdr.name (name field) = 0 then hdr.value
      else found.1 field := by
  induction fields generalizing found with
  | nil => simp
  | cons first rest ih =>
    rw [foldl_cons, ih, detectHdr_apply]
    by_cases named : found.1 field = [] ∧ dstrIcmp2 hdr.name (name field) = 0
    · by_cases same : field = first
      · subst same
        simp [named, nonempty]
      · simp [same, named]
    · have other : ∀ place : Prop, ¬ (place ∧ found.1 field = [] ∧
          dstrIcmp2 hdr.name (name field) = 0) := fun place both => named both.2
      simp only [if_neg (other _)]

theorem locate_apply (counted : Counted all found) {field : Field} (mem : field ∈ all)
    (hdrs : List ImfHdr) :
    locate name all found hdrs field = if found.1 field = [] then
        ((hdrs.find? fun hdr => hdr.value ≠ [] && dstrIcmp2 hdr.name (name field) = 0).map
          ImfHdr.value).getD []
      else found.1 field := by
  induction hdrs generalizing found with
  | nil => simp +contextual [locate]
  | cons hdr rest ih =>
    rw [locate]
    by_cases done : found.2 = 0
    · -- with nothing left to find the field is not empty
      have none' := length_eq_zero_iff.mp (Nat.le_zero.mp (counted.trans_eq done))
      have filled : found.1 field ≠ [] := by
        simpa using filter_eq_nil_iff.mp none' field mem
      rw [if_pos done, if_neg filled]
    · rw [if_neg done]
      by_cases empty : hdr.value = []
      · rw [if_pos empty, ih counted, find?_cons]
        simp [empty]
      · rw [if_neg empty, ih (counted.foldl empty fun _ mem => mem),
          foldl_detectHdr_apply empty, find?_cons]
        by_cases named : dstrIcmp2 hdr.name (name field) = 0
        · by_cases open' : found.1 field = [] <;> simp [named, open', empty, mem]
        · simp [named]

end Locating

/-! ### Names -/

/-- The name of a header that was parsed has no NUL in it, and is not empty. -/
theorem name_of_mem_imfHdrs {text sep : Bytes} {hdrs : List ImfHdr}
    (parsed : imfHdrs (imfScan text) = some (hdrs, sep)) {hdr : ImfHdr} (mem : hdr ∈ hdrs) :
    0 ∉ hdr.name ∧ hdr.name ≠ [] := by
  obtain ⟨shapes, tail, rfl, scanned, -⟩ := imfHdrs_iff.mp parsed
  obtain ⟨shape, among, rfl⟩ := mem_map.mp mem
  have each : ∀ token ∈ shape.name, ∃ byte, byte ≠ 0 ∧ token.bytes = [byte] := by
    intro token inName
    have inText : token ∈ imfScan text := by
      rw [scanned]
      exact mem_append_left _ (mem_flatMap.mpr ⟨shape, among,
        mem_append_left _ (mem_append_left _ inName)⟩)
    rcases scanned_of_mem_imfScan inText with ⟨byte, rfl⟩ | ⟨byte, next, -, rfl⟩
    · refine ⟨byte, ?_, rfl⟩
      rintro rfl
      exact absurd (shape.nameText _ inName) (by decide)
    · exact absurd (shape.nameText _ inName) (by simp)
  constructor
  · intro nul
    obtain ⟨token, inName, inToken⟩ := mem_flatMap.mp nul
    obtain ⟨byte, nonzero, bytes⟩ := each token inName
    rw [bytes] at inToken
    exact nonzero (mem_singleton.mp inToken).symm
  · cases name : shape.name with
    | nil => exact absurd name shape.named
    | cons token rest =>
      obtain ⟨byte, -, bytes⟩ := each token (name ▸ mem_cons_self)
      simp [HdrShape.hdr, name, bytes]

theorem ichar_eq_zero {char : UInt8} : ichar char = 0 ↔ char = 0 := by
  unfold ichar
  split_ifs with lower
  · obtain ⟨low, high⟩ := lower
    have small : 97 ≤ char.toNat := UInt8.le_iff_toNat_le.mp low
    have large : char.toNat ≤ 122 := UInt8.le_iff_toNat_le.mp high
    have space : (32 : UInt8).toNat = 32 := rfl
    have nul : (0 : UInt8).toNat = 0 := rfl
    refine iff_of_false (fun zero => ?_) fun zero => ?_
    · have value := congrArg UInt8.toNat zero
      rw [UInt8.toNat_sub_of_le _ _ (UInt8.le_iff_toNat_le.mpr (by omega)), space, nul] at value
      omega
    · rw [zero] at small
      exact absurd small (by decide)
  · rfl

theorem dstrIcmp2_eq_zero {first second : Bytes} (nonempty : first ≠ []) (plain : 0 ∉ first)
    (other : 0 ∉ second) : dstrIcmp2 first second = 0 ↔ first.map ichar = second.map ichar := by
  have nul {text : Bytes} (plain : 0 ∉ text) {longer : Bytes}
      (before : longer.map ichar ++ [0] <+: text.map ichar) : False := by
    obtain ⟨char, mem, zero⟩ :=
      mem_map.mp (before.subset (mem_append_right _ mem_cons_self))
    exact plain (ichar_eq_zero.mp zero ▸ mem)
  rw [dstrIcmp2, dstrCmp2_of_ne_nil (by simpa using nonempty), cmpChars_eq_zero]
  refine ⟨fun zero => ?_, Or.inl⟩
  rcases zero with same | before | before
  · exact same
  · exact (nul other before).elim
  · exact (nul plain before).elim

section Parsed

variable {text sep : Bytes} {hdrs : List ImfHdr}
  (parsed : imfHdrs (imfScan text) = some (hdrs, sep))

include parsed

theorem locate_eq {Field : Type} [DecidableEq Field] {name : Field → Bytes} {all : List Field}
    (plain : ∀ field, 0 ∉ name field) (complete : ∀ field, field ∈ all) :
    locate name all (fun _ => [], all.length) hdrs = fun field => fieldText (name field) hdrs := by
  funext field
  have counted : Counted all ((fun _ => [], all.length) : (Field → Bytes) × Nat) :=
    length_filter_le _ _
  rw [locate_apply counted (complete field), if_pos rfl, fieldText, firstHdr]
  congr 2
  refine find?_congr fun hdr mem => ?_
  obtain ⟨nameless, nonempty⟩ := name_of_mem_imfHdrs parsed mem
  simp only [dstrIcmp2_eq_zero nonempty nameless (plain field)]

end Parsed

theorem fieldText_congr {first second : Bytes} (same : first.map ichar = second.map ichar)
    (hdrs : List ImfHdr) : fieldText first hdrs = fieldText second hdrs := by
  rw [fieldText, fieldText, firstHdr, firstHdr, same]

/-! ### The outputs depend on nothing else -/

namespace ImfParser

variable (parser : ImfParser)

theorem imfParseOrNil_onstack (rule : ImfRule) (field : Bytes) :
    parser.imfParseOrNil rule field parser.onstack =
      (fun out => (parser.onstack, out)) <$> parser.read rule field := by
  unfold read imfParseOrNil
  split
  · rfl
  · cases parsed : parser.loop rule field (parser.scan field) parser.onstack (ImfOut.zero rule) with
    | error => rfl
    | ok result =>
      show Except.ok (parser.reset result.1, result.2) = Except.ok (parser.onstack, result.2)
      rw [parser.reset_eq]

section Parsed

variable {text sep : Bytes} {hdrs : List ImfHdr}
  (parsed : imfHdrs (imfScan text) = some (hdrs, sep))

include parsed

theorem readEnvelopeInfo_eq :
    parser.readEnvelopeInfo hdrs = parser.envelopeOf fun field => fieldText field.rfcName hdrs := by
  have plain : ∀ field : EnvelopeField, 0 ∉ field.name := by
    rintro (_ | _) <;> decide
  have located := @locate_eq _ _ _ parsed _ _ _ EnvelopeField.all plain fun field => by
    cases field <;> decide
  have same : (fun field : EnvelopeField => fieldText field.name hdrs) =
      fun field => fieldText field.rfcName hdrs := by
    funext field
    exact fieldText_congr (by cases field <;> decide) hdrs
  have ten : EnvelopeField.all.length = 10 := rfl
  rw [same, ten] at located
  unfold readEnvelopeInfo envelopeOf readId
  rw [located]
  simp only [imfParseOrNil_onstack, bind_map_left, bind_assoc, pure_bind]

theorem readMimeContentType_eq (defaultType defaultSubtype : Bytes) :
    parser.readMimeContentType hdrs defaultType defaultSubtype = do
      let _ ← parser.read .mimeVersion (fieldText (ascii "MIME-Version") hdrs)
      let contentType ← parser.read .contentType (fieldText (ascii "Content-Type") hdrs)
      return Option.getD contentType (mimeContentTypeNew defaultType defaultSubtype []) := by
  have plain : ∀ field : MimeField, 0 ∉ field.name := by
    rintro (_ | _) <;> decide
  have located := @locate_eq _ _ _ parsed _ _ _ MimeField.all plain fun field => by
    cases field <;> decide
  have two : MimeField.all.length = 2 := rfl
  have version : fieldText MimeField.version.name hdrs = fieldText (ascii "MIME-Version") hdrs :=
    fieldText_congr (by decide) hdrs
  have type : fieldText MimeField.contentType.name hdrs = fieldText (ascii "Content-Type") hdrs :=
    fieldText_congr (by decide) hdrs
  rw [two] at located
  unfold readMimeContentType
  rw [located]
  simp only [imfParseOrNil_onstack, bind_map_left, version, type]

/-- The fields of a body structure come from the headers that have the names in the code. -/
theorem readBodystructInfo_eq (defaultType defaultSubtype : Bytes) :
    parser.readBodystructInfo hdrs defaultType defaultSubtype =
      parser.bodystructOf (fun field => fieldText field.name hdrs) defaultType defaultSubtype := by
  have plain : ∀ field : BodyField, 0 ∉ field.name := by
    rintro (_ | _) <;> decide
  have located := @locate_eq _ _ _ parsed _ _ _ BodyField.all plain fun field => by
    cases field <;> decide
  have nine : BodyField.all.length = 9 := rfl
  rw [nine] at located
  unfold readBodystructInfo bodystructOf
  rw [located]
  simp only [imfParseOrNil_onstack, bind_map_left]

/-- A body structure has the content type that `read_mime_content_type` reads. -/
theorem readMimeContentType_of_readBodystructInfo {defaultType defaultSubtype : Bytes}
    {info : BodystructInfo}
    (read : parser.readBodystructInfo hdrs defaultType defaultSubtype = .ok info) :
    parser.readMimeContentType hdrs defaultType defaultSubtype = .ok info.contentType := by
  have version : fieldText BodyField.version.name hdrs = fieldText (ascii "MIME-Version") hdrs :=
    fieldText_congr (by decide) hdrs
  have type : fieldText BodyField.contentType.name hdrs = fieldText (ascii "Content-Type") hdrs :=
    fieldText_congr (by decide) hdrs
  rw [readBodystructInfo_eq parser parsed, bodystructOf, version, type] at read
  rw [readMimeContentType_eq parser parsed]
  obtain ⟨_, first, read⟩ := exists_of_bind_eq_ok read
  obtain ⟨contentType, second, read⟩ := exists_of_bind_eq_ok read
  obtain ⟨_, -, read⟩ := exists_of_bind_eq_ok read
  obtain ⟨_, -, read⟩ := exists_of_bind_eq_ok read
  obtain ⟨_, -, read⟩ := exists_of_bind_eq_ok read
  obtain ⟨_, -, read⟩ := exists_of_bind_eq_ok read
  obtain ⟨_, -, read⟩ := exists_of_bind_eq_ok read
  obtain ⟨_, -, read⟩ := exists_of_bind_eq_ok read
  obtain ⟨_, -, read⟩ := exists_of_bind_eq_ok read
  cases read
  rw [first, second]
  rfl

end Parsed

end ImfParser

/-- Every field is computed from the first header that has its name and a value, and from no other
one: those of an ENVELOPE, where the sender and reply-to fields default to the from field, and those
of a body structure, whose content type is the one that `read_mime_content_type` reads. -/
structure FieldsChosen (hdrs : List ImfHdr) : Prop where
  envelope : ∀ parser : ImfParser, parser.readEnvelopeInfo hdrs =
    parser.envelopeOf fun field => fieldText field.rfcName hdrs
  bodystruct : ∀ (parser : ImfParser) (defaultType defaultSubtype : Bytes),
    parser.readBodystructInfo hdrs defaultType defaultSubtype =
      parser.bodystructOf (fun field => fieldText field.rfcName hdrs) defaultType defaultSubtype
  contentType : ∀ (parser : ImfParser) (defaultType defaultSubtype : Bytes) (info : BodystructInfo),
    parser.readBodystructInfo hdrs defaultType defaultSubtype = .ok info →
      parser.readMimeContentType hdrs defaultType defaultSubtype = .ok info.contentType

/-- A parser whose rules for strings give back the text. -/
def textParser : ImfParser where
  State := Unit
  Token := Unit
  Error := Unit
  onstack := ()
  scan _ := [()]
  parse rule _ field _ out :=
    match rule with
    | .contentDescription => .ok ((), .done, ([field] : IeDstr))
    | _ => .ok ((), .done, out)
  reset := id
  reset_eq _ := rfl

/-- What the parser above makes of a text. -/
def described (text : Bytes) : IeDstr := if text = [] then [] else [text]

theorem described_injective {first second : Bytes} (same : described first = described second) :
    first = second := by
  unfold described at same
  split_ifs at same with empty other
  · rw [empty, other]
  · exact head_eq_of_cons_eq same

theorem textParser_bodystructOf (text : BodyField → Bytes) :
    ∃ info, textParser.bodystructOf text [] [] = .ok info ∧
      info.description = described (text .description) := by
  have same (rule : ImfRule) (field : Bytes) (other : rule ≠ .contentDescription) :
      textParser.read rule field = .ok (ImfOut.zero rule) := by
    unfold ImfParser.read ImfParser.imfParseOrNil
    split
    · rfl
    · cases rule <;> first | rfl | exact absurd rfl other
  have description : textParser.read .contentDescription (text .description) =
      .ok (described (text .description)) := by
    unfold ImfParser.read ImfParser.imfParseOrNil described
    split <;> rfl
  refine ⟨⟨mimeContentTypeNew [] [] [], [], described (text .description), [], [], none, [], []⟩, ?_, rfl⟩
  rw [ImfParser.bodystructOf, description]
  simp (disch := decide) only [same]
  rfl

/-- If the fields are chosen right, then so is the description, which has to be that of the header
which is looked for. -/
theorem FieldsChosen.description {text sep : Bytes} {hdrs : List ImfHdr}
    (parsed : imfHdrs (imfScan text) = some (hdrs, sep)) (chosen : FieldsChosen hdrs) :
    fieldText (ascii "Content-Description") hdrs = fieldText (ascii "contentmdescription") hdrs := by
  obtain ⟨info, read, description⟩ :=
    textParser_bodystructOf fun field => fieldText field.name hdrs
  obtain ⟨again, reread, chosenDescription⟩ :=
    textParser_bodystructOf fun field => fieldText field.rfcName hdrs
  have result := chosen.bodystruct textParser [] []
  rw [textParser.readBodystructInfo_eq parsed, read, reread] at result
  cases result
  rw [chosenDescription] at description
  exact described_injective description

/-- The fields of a message are chosen right if and only if its description is in the header which
is looked for: the first nonempty header named Content-Description has the text of the first
nonempty one named contentmdescription, or there is neither. -/
theorem fieldsChosen_iff {text sep : Bytes} {hdrs : List ImfHdr}
    (parsed : imfHdrs (imfScan text) = some (hdrs, sep)) :
    FieldsChosen hdrs ↔
      fieldText (ascii "Content-Description") hdrs = fieldText (ascii "contentmdescription") hdrs := by
  have each (field : BodyField) (other : field ≠ .description) :
      fieldText field.name hdrs = fieldText field.rfcName hdrs :=
    fieldText_congr (by cases field <;> first | decide | exact absurd rfl other) hdrs
  constructor
  · exact FieldsChosen.description parsed
  · intro same
    have texts : (fun field : BodyField => fieldText field.name hdrs) =
        fun field => fieldText field.rfcName hdrs := by
      funext field
      by_cases description : field = .description
      · rw [description]
        exact same.symm
      · exact each field description
    refine ⟨fun parser => parser.readEnvelopeInfo_eq parsed, fun parser type subtype => ?_,
      fun parser type subtype info => parser.readMimeContentType_of_readBodystructInfo parsed⟩
    rw [parser.readBodystructInfo_eq parsed, texts]

/-- A message without a description. -/
theorem fieldsChosen_iff_plain :
    FieldsChosen [⟨ascii "To: a\r\n", ascii "To", ascii " a"⟩] ↔
      fieldText (ascii "Content-Description") [⟨ascii "To: a\r\n", ascii "To", ascii " a"⟩] =
        fieldText (ascii "contentmdescription") [⟨ascii "To: a\r\n", ascii "To", ascii " a"⟩] := by
  have parsed : imfHdrs (imfScan (ascii "To: a\r\n\r\n")) =
      some ([⟨ascii "To: a\r\n", ascii "To", ascii " a"⟩], ascii "\r\n") := by
    decide +kernel
  exact fieldsChosen_iff parsed

/-- The description of a message is not found. -/
theorem fieldsChosen_fails :
    ∃ hdrs sep, imfHdrs (imfScan (ascii "Content-Description: a\r\n\r\n")) = some (hdrs, sep) ∧
      ¬ FieldsChosen hdrs := by
  have parsed : imfHdrs (imfScan (ascii "Content-Description: a\r\n\r\n")) =
      some ([⟨ascii "Content-Description: a\r\n", ascii "Content-Description", ascii " a"⟩],
        ascii "\r\n") := by
    decide +kernel
  refine ⟨_, _, parsed, fun chosen => ?_⟩
  exact absurd (chosen.description parsed) (by decide)

end Splintermail
