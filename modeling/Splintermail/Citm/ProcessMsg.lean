/-
This file models how `keydir.c` hands a downloaded message to the mail client:
`imaildir_hooks_process_msg` with the two ways of rewriting a message, and decides when
a message that is not encrypted is marked in the subject that a client shows.

The marker is put where a search for bytes finds `Subject:` after a newline, or an
empty line. What a client shows is the first subject that the parser of headers
finds, in any case of letters and with any kind of line end. The two agree only if
the place that the search finds is the place of that header.
-/

import Splintermail.Imf.Hdrs

namespace Splintermail

open List

/-! ### Rewriting a message -/

/-- `subj_entire` -/
def subjEntire : Bytes := ascii "Subject: NOT ENCRYPTED: (no subject)"

/-- `subj`: the patterns for the subject line and for the end of the headers. -/
def subjPatterns : List Bytes := [ascii "\nSubject:", ascii "\r\n\r\n", ascii "\n\n"]

/-- The line end that one of the two last patterns is made of. -/
def nativeLineBreak (which : Nat) : Bytes :=
  (subjPatterns.getD which []).take ((subjPatterns.getD which []).length / 2)

/-- The second branch of `mangle_unencrypted`: the warning goes where the pattern ends. -/
def mangleSubject (msg : Bytes) (subjEnd : Nat) : Bytes :=
  msg.take subjEnd ++ ascii " NOT ENCRYPTED:" ++ msg.drop subjEnd

/-- `mangle_unencrypted`: the content of the file. -/
def mangleUnencrypted (msg : Bytes) : Bytes :=
  if dstrBeginswith msg (ascii "Subject:") then
    -- the pattern has a newline that is not there
    mangleSubject msg ((subjPatterns.getD 0 []).length - 1)
  else
    match dstrFind subjPatterns msg with
    | none => msg
    | some (position, 0) => mangleSubject msg (position + (subjPatterns.getD 0 []).length)
    | some (headersEnd, which) =>
      msg.take headersEnd ++ nativeLineBreak which ++ subjEntire ++ msg.drop headersEnd

/-- `mangle_corrupted`: the content of the file, with the value of the date. -/
def mangleCorrupted (dateField msg : Bytes) : Bytes :=
  ascii "From: CITM <citm@localhost>\r\n" ++ ascii "To: Local User <email_user@localhost>\r\n" ++
    ascii "Date: " ++ dateField ++ ascii "\r\n" ++
    ascii "Subject: CITM failed to decrypt message\r\n" ++ ascii "\r\n" ++
    ascii "The following message appears to be corrupted and cannot be decrypted:\r\n" ++
    ascii "\r\n" ++ msg

/-- The outcomes of `decrypt_msg` that are told apart: the file it wrote, `E_NOT4ME`, an error of
decryption (`is_decrypt_err`), and any other error. -/
inductive DecryptMsg where
  | written (plain : Bytes)
  | not4me
  | decryptErr
  | failed (error : Derr)

/-- What `process_msg` leaves behind: the file, and its two results. -/
structure ProcessMsg where
  file : Option Bytes
  len : Nat
  not4me : Bool
  deriving DecidableEq, Repr

/-- `enc_header` -/
def encHeader : Bytes := ascii "-----BEGIN SPLINTERMAIL MESSAGE-----"

/-- A file and its length, as all three ways of writing one report them. -/
def ProcessMsg.wrote (file : Bytes) : ProcessMsg := ⟨some file, file.length, false⟩

/-- `imaildir_hooks_process_msg` -/
def processMsg (decryptMsg : Bytes → DecryptMsg) (dateField content : Bytes) :
    Except Derr ProcessMsg :=
  if dstrBeginswith content encHeader then
    match decryptMsg content with
    | .written plain => .ok (.wrote plain)
    | .not4me => .ok ⟨none, 0, true⟩
    | .decryptErr => .ok (.wrote (mangleCorrupted dateField content))
    | .failed error => .error error
  else .ok (.wrote (mangleUnencrypted content))

/-! ### What the marker is for -/

/-- The value of a header begins with the warning. Blanks before it are not part of the subject. -/
def Marked (hdr : ImfHdr) : Prop :=
  ascii "NOT ENCRYPTED:" <+: hdr.value.dropWhile fun byte => imfByteType byte = .ws

/-- The subject that a client shows, with the headers before and after it. -/
structure FirstSubject (hdrs front : List ImfHdr) (subject : ImfHdr) (back : List ImfHdr) :
    Prop where
  split : hdrs = front ++ subject :: back
  named : isSubject subject = true
  first : ∀ hdr ∈ front, isSubject hdr = false

/-- A message as it was received and as it is stored: the subject shown bears the mark, and apart
from it the headers are those received, less at most the subject that was marked. -/
def MarkedFrom (before after : Imf) : Prop :=
  ∃ front subject back, FirstSubject after.hdr front subject back ∧ Marked subject ∧
    (before.hdr = front ++ back ∨
      ∃ old, dstrIcmp2 old.name (ascii "subject") = 0 ∧ before.hdr = front ++ old :: back) ∧
    after.body = before.body

/-- The file is the marked message, and its length is reported. -/
def AlwaysMarked (before : Imf) (result : ProcessMsg) : Prop :=
  ∃ file after, result.file = some file ∧ imfParse file = some after ∧ MarkedFrom before after ∧
    result.len = file.length

/-- The header that is added to a message without a subject. -/
def missingSubject (lineBreak : Bytes) : ImfHdr :=
  ⟨subjEntire ++ lineBreak, ascii "Subject", ascii " NOT ENCRYPTED: (no subject)"⟩

/-- The place that the search finds is where the headers have it: the line of the first subject, or
the end of headers without a subject. A message in which nothing is found is marked already. -/
def MarkFits (msg : Bytes) (before : Imf) : Prop :=
  if dstrBeginswith msg (ascii "Subject:") then True
  else
    match dstrFind subjPatterns msg with
    | none => ∃ front subject back, FirstSubject before.hdr front subject back ∧ Marked subject
    | some (position, 0) =>
      ∃ front subject back, before.hdr = front ++ subject :: back ∧
        hdrsLength front = position + 1 ∧ ∀ hdr ∈ front, isSubject hdr = false
    | some (headersEnd, which) =>
      headersEnd + (nativeLineBreak which).length = hdrsLength before.hdr ∧
        -- headers after the last are those that would be added, if there are any
        ∃ front count, before.hdr = front ++ replicate count (missingSubject (nativeLineBreak which)) ∧
          ∀ hdr ∈ front, isSubject hdr = false

/-! ### Where the search finds a pattern -/

/-- The tokens of a text within a line. -/
def lineTokens (text : Bytes) : List ImfToken := text.map fun byte => ⟨imfByteType byte, [byte]⟩

@[simp] theorem tokenBytes_lineTokens (text : Bytes) : tokenBytes (lineTokens text) = text := by
  induction text with
  | nil => rfl
  | cons byte rest ih =>
    show byte :: tokenBytes (lineTokens rest) = _
    rw [ih]

variable {text : Bytes}

theorem imfScan_line (inLine : ∀ byte ∈ text, imfByteType byte ≠ .eol ∧ byte ≠ 0) (rest : Bytes) :
    imfScan (text ++ rest) = lineTokens text ++ imfScan rest :=
  imfScan_plain_append inLine rest

/-- A header that begins with `Subject:` stands where these bytes of the headers end. -/
def SubjectAfter (shapes : List HdrShape) (bytes : Bytes) : Prop :=
  ∃ before shape others, shapes = before ++ shape :: others ∧
    tokenBytes (before.flatMap HdrShape.tokens) = bytes ∧
    shape.name = lineTokens (ascii "Subject") ∧ shape.gap = [] ∧ shape.colon = ⟨.colon, [58]⟩

variable {shapes : List HdrShape}

/-- Headers that begin with `Subject:` begin with a header of that name. -/
theorem shapes_subject {tail : List ImfToken} {sep : Bytes}
    (scanned : imfScan (ascii "Subject:" ++ text) = shapes.flatMap HdrShape.tokens ++ tail)
    (separated : Separated tail sep) : SubjectAfter shapes [] := by
  have inLine : ∀ byte ∈ ascii "Subject:", imfByteType byte ≠ .eol ∧ byte ≠ 0 :=
    forall_iff_forall_mem.mp (by decide)
  have starts : imfScan (ascii "Subject:" ++ text) =
      lineTokens (ascii "Subject") ++ ⟨.colon, [58]⟩ :: imfScan text := imfScan_line inLine text
  rw [starts] at scanned
  cases shapes with
  | nil =>
    rcases separated with ⟨rfl, -⟩ | ⟨eol, rest, rfl, ends, -⟩
    · cases scanned
    · cases scanned
      cases ends
  | cons shape others =>
    have whole : lineTokens (ascii "Subject") ++ ⟨.colon, [58]⟩ :: imfScan text =
        shape.name ++ (shape.gap ++ shape.colon :: (shape.value ++ shape.eol ::
          (others.flatMap HdrShape.tokens ++ tail))) := by
      rw [scanned]
      simp [HdrShape.tokens]
    have nameEnds : nextIs .text (shape.gap ++ shape.colon :: (shape.value ++ shape.eol ::
        (others.flatMap HdrShape.tokens ++ tail))) = false := by
      cases gap : shape.gap with
      | nil => simp [shape.colonType]
      | cons token rest => simp [shape.gapBlank token (gap ▸ mem_cons_self)]
    obtain ⟨name, after⟩ := span_append shape.nameText nameEnds
    have letters : ∀ token ∈ lineTokens (ascii "Subject"), token.type = .text := by decide
    have colon : nextIs .text (⟨.colon, [58]⟩ :: imfScan text) = false := rfl
    obtain ⟨here, there⟩ := span_append letters colon
    rw [← whole, here] at name
    rw [← whole, there] at after
    cases gap : shape.gap with
    | nil =>
      rw [gap] at after
      exact ⟨[], shape, others, rfl, rfl, name.symm, gap, (cons.inj after).1.symm⟩
    | cons token rest =>
      have blank := shape.gapBlank token (gap ▸ mem_cons_self)
      rw [gap] at after
      rw [← (cons.inj after).1] at blank
      cases blank

/-- `Subject:` after a newline among the headers begins a header of that name. -/
theorem shapes_subject_line {front rest : Bytes} {sep : Bytes}
    (scanned : imfScan (front ++ [10] ++ (ascii "Subject:" ++ text)) =
      shapes.flatMap HdrShape.tokens ++ imfScan rest)
    (whole : front ++ [10] ++ (ascii "Subject:" ++ text) =
      tokenBytes (shapes.flatMap HdrShape.tokens) ++ rest)
    (separated : Separated (imfScan rest) sep)
    (inside : front.length < (tokenBytes (shapes.flatMap HdrShape.tokens)).length) :
    SubjectAfter shapes (front ++ [10]) := by
  induction shapes generalizing front with
  | nil => exact absurd inside (Nat.not_lt_zero _)
  | cons shape others ih =>
    rw [flatMap_cons, append_assoc shape.tokens] at scanned
    rw [flatMap_cons, tokenBytes_append, append_assoc (tokenBytes shape.tokens)] at whole
    rw [flatMap_cons, tokenBytes_append, length_append] at inside
    have members : ∀ token ∈ shape.tokens, token.Scanned := fun token mem =>
      scanned_of_mem_imfScan (scanned ▸ mem_append_left _ mem)
    obtain ⟨left, again, back, -⟩ := imfScan_split scanned
    rw [whole] at again
    obtain rfl := append_cancel_left again
    -- the header ends with this newline, or a blank would follow it
    have here : tokenBytes shape.tokens = front ++ [10] →
        ascii "Subject:" ++ text = tokenBytes (others.flatMap HdrShape.tokens) ++ rest →
        SubjectAfter (shape :: others) (front ++ [10]) := by
      intro spans starts
      rw [← starts] at back
      obtain ⟨before, subject, more, rfl, bytes, named⟩ := shapes_subject back.symm separated
      refine ⟨shape :: before, subject, more, rfl, ?_, named⟩
      rw [flatMap_cons, tokenBytes_append, bytes, append_nil, spans]
    rcases append_eq_append_iff.mp whole with ⟨middle, spans, more⟩ | ⟨middle, spans, more⟩
    · cases middle with
      | nil =>
        rw [append_nil] at spans
        exact here spans more
      | cons byte middle =>
        have first : byte = 83 := by
          have same : (83 : UInt8) :: (ascii "ubject:" ++ text) = byte :: (middle ++ _) := more
          exact (cons.inj same).1.symm
        subst first
        rw [append_assoc] at spans
        rcases newline_in_hdr members shape.chain spans with same | same | same <;> cases same
    · rcases eq_nil_or_concat middle with rfl | ⟨before, last, rfl⟩
      · rw [append_nil] at spans
        exact here spans.symm more.symm
      · obtain ⟨rfl, same⟩ : front = tokenBytes shape.tokens ++ before ∧ [10] = [last] := by
          rw [concat_eq_append, ← append_assoc] at spans
          exact append_inj' spans rfl
        cases same
        rw [length_append] at inside
        have shorter : before.length < (tokenBytes (others.flatMap HdrShape.tokens)).length := by omega
        obtain ⟨earlier, subject, later, rfl, bytes, named⟩ := ih
          (by rw [back, more]; simp) (by simpa using more.symm) shorter
        refine ⟨shape :: earlier, subject, later, rfl, ?_, named⟩
        rw [flatMap_cons, tokenBytes_append, bytes, append_assoc]

/-! ### What a change to the message does to its headers -/

theorem folded_line_append (inLine : ∀ byte ∈ text, imfByteType byte ≠ .eol) {value : List ImfToken}
    (folded : Folded value) : Folded (lineTokens text ++ value) := by
  induction text with
  | nil => exact folded
  | cons byte rest ih =>
    exact ⟨fun line => absurd line (inLine byte mem_cons_self),
      ih fun other mem => inLine other (.tail _ mem)⟩

/-- A header with the warning before its value. -/
def HdrShape.mark (shape : HdrShape) : HdrShape :=
  { shape with
    value := lineTokens (ascii " NOT ENCRYPTED:") ++ shape.value
    folded := folded_line_append (forall_iff_forall_mem.mp (by decide)) shape.folded }

/-- The header that is added, as the parser finds it. -/
def missingShape (lineBreak : Bytes) : HdrShape where
  name := lineTokens (ascii "Subject")
  gap := []
  colon := ⟨.colon, [58]⟩
  value := lineTokens (ascii " NOT ENCRYPTED: (no subject)")
  eol := ⟨.eol, lineBreak⟩
  named := by decide
  nameText := by decide
  gapBlank := by simp
  colonType := rfl
  folded := by
    have inLine : ∀ byte ∈ ascii " NOT ENCRYPTED: (no subject)", imfByteType byte ≠ .eol :=
      forall_iff_forall_mem.mp (by decide)
    have nothing : Folded [] := trivial
    simpa using folded_line_append inLine nothing
  eolType := rfl

theorem missingShape_hdr (lineBreak : Bytes) :
    (missingShape lineBreak).hdr = missingSubject lineBreak := by
  have bytes : tokenBytes (missingShape lineBreak).tokens = subjEntire ++ lineBreak := by
    show tokenBytes (lineTokens (ascii "Subject") ++ [] ++ (⟨.colon, [58]⟩ : ImfToken) ::
      (lineTokens (ascii " NOT ENCRYPTED: (no subject)") ++ [⟨.eol, lineBreak⟩])) = _
    simp only [tokenBytes_append, tokenBytes_cons, tokenBytes_lineTokens, tokenBytes_nil,
      append_nil]
    rfl
  unfold HdrShape.hdr missingSubject
  rw [bytes]
  rfl

/-- The warning after the colon of a header becomes a part of its value, and nothing else
changes. -/
theorem ImfShape.mark {msg rest : Bytes} {imf : Imf} {before others : List HdrShape}
    {shape : HdrShape} (whole : ImfShape msg imf (before ++ shape :: others) rest) {front : Bytes}
    (cut : front = tokenBytes (before.flatMap HdrShape.tokens) ++
      tokenBytes (shape.name ++ shape.gap ++ [shape.colon])) :
    ImfShape (mangleSubject msg front.length)
      { imf with hdr := (before ++ shape.mark :: others).map HdrShape.hdr }
      (before ++ shape.mark :: others) rest := by
  have split : (before ++ shape :: others).flatMap HdrShape.tokens ++ imfScan rest =
      (before.flatMap HdrShape.tokens ++ (shape.name ++ shape.gap ++ [shape.colon])) ++
        (shape.value ++ [shape.eol] ++ others.flatMap HdrShape.tokens ++ imfScan rest) := by
    simp [HdrShape.tokens]
  obtain ⟨back, bytes, scanned, replaced⟩ := imfScan_split (whole.scanned.trans split)
  rw [tokenBytes_append, ← cut] at bytes replaced
  have mangled : mangleSubject msg front.length = front ++ (ascii " NOT ENCRYPTED:" ++ back) := by
    unfold mangleSubject
    rw [bytes, take_left, drop_left, append_assoc]
  have marked : (before ++ shape.mark :: others).flatMap HdrShape.tokens =
      (before.flatMap HdrShape.tokens ++ (shape.name ++ shape.gap ++ [shape.colon])) ++
        (lineTokens (ascii " NOT ENCRYPTED:") ++
          (shape.value ++ [shape.eol] ++ others.flatMap HdrShape.tokens)) := by
    simp [HdrShape.tokens, HdrShape.mark]
  refine ⟨rfl, ?_, ?_, whole.separated, whole.body⟩
  · have tail : back =
        tokenBytes (shape.value ++ [shape.eol] ++ others.flatMap HdrShape.tokens) ++ rest := by
      refine (append_cancel_left_eq front _ _).mp ?_
      rw [← bytes, whole.bytes, cut]
      simp [HdrShape.tokens]
    rw [mangled, marked, tokenBytes_append, tokenBytes_append, ← cut, tokenBytes_append,
      tokenBytes_lineTokens, tail]
    simp
  · rw [mangled, replaced _ (.inr ⟨32, rfl, by decide⟩),
      imfScan_line (forall_iff_forall_mem.mp (by decide)), ← scanned, marked]
    simp

theorem nativeLineBreak_crlf : nativeLineBreak 1 = [13, 10] := by decide

theorem nativeLineBreak_lf : nativeLineBreak 2 = [10] := by decide

theorem imfScan_nativeLineBreak {which : Nat} (pattern : which = 1 ∨ which = 2) (tail : Bytes) :
    imfScan (nativeLineBreak which ++ (nativeLineBreak which ++ tail)) =
      ⟨.eol, nativeLineBreak which⟩ :: imfScan (nativeLineBreak which ++ tail) := by
  rcases pattern with rfl | rfl
  · rw [nativeLineBreak_crlf]
    show imfScan (13 :: 10 :: 13 :: 10 :: tail) = ⟨.eol, [13, 10]⟩ :: imfScan (13 :: 10 :: tail)
    rw [imfScan, if_pos (by decide)]
  · rw [nativeLineBreak_lf]
    show imfScan (10 :: 10 :: tail) = ⟨imfByteType 10, [10]⟩ :: imfScan (10 :: tail)
    rw [imfScan, if_neg (by decide)]

/-- A subject added where the headers end is one more header, and nothing else changes. -/
theorem ImfShape.insert {msg tail : Bytes} {imf : Imf} {which : Nat}
    (pattern : which = 1 ∨ which = 2)
    (whole : ImfShape msg imf shapes (nativeLineBreak which ++ tail)) :
    ImfShape
      (tokenBytes (shapes.flatMap HdrShape.tokens) ++ subjEntire ++
        (nativeLineBreak which ++ (nativeLineBreak which ++ tail)))
      { imf with hdr := imf.hdr ++ [missingSubject (nativeLineBreak which)] }
      (shapes ++ [missingShape (nativeLineBreak which)]) (nativeLineBreak which ++ tail) := by
  obtain ⟨back, bytes, -, replaced⟩ := imfScan_split whole.scanned
  have added : (missingShape (nativeLineBreak which)).tokens =
      lineTokens subjEntire ++ [⟨.eol, nativeLineBreak which⟩] := rfl
  refine ⟨?_, ?_, ?_, whole.separated, whole.body⟩
  · rw [map_append, ← whole.hdr, map_singleton, missingShape_hdr]
  · rw [flatMap_append, flatMap_singleton, added, tokenBytes_append, tokenBytes_append,
      tokenBytes_lineTokens]
    simp
  · rw [append_assoc, replaced _ (.inr ⟨83, rfl, by decide⟩),
      imfScan_line (forall_iff_forall_mem.mp (by decide)),
      imfScan_nativeLineBreak pattern, flatMap_append, flatMap_singleton, added]
    simp

/-- A change after the headers does not change them, and at most two bytes of what follows are
their separator. -/
theorem ImfShape.later {msg : Bytes} {imf : Imf} {byte : UInt8} {tail : Bytes}
    (whole : ImfShape msg imf shapes (byte :: tail)) (ends : imfByteType byte = .eol)
    (other : Bytes) :
    ∃ after, imfParse (tokenBytes (shapes.flatMap HdrShape.tokens) ++ byte :: other) = some after ∧
      after.hdr = imf.hdr ∧ other.length ≤ after.body.length + 1 := by
  obtain ⟨back, bytes, -, replaced⟩ := imfScan_split whole.scanned
  have same : back = byte :: tail := append_cancel_left (bytes.symm.trans whole.bytes)
  have scanned := replaced (byte :: other) (.inl (by rw [same]; rfl))
  have starts : ∃ eol rest, imfScan (byte :: other) = eol :: rest ∧ eol.type = .eol ∧
      eol.bytes.length ≤ 2 := by
    have nonzero : byte ≠ 0 := by
      rintro rfl
      cases ends
    cases other with
    | nil =>
      rw [imfScan, if_neg nonzero]
      exact ⟨_, _, rfl, ends, Nat.le_succ 1⟩
    | cons next more =>
      rw [imfScan]
      split
      · exact ⟨_, _, rfl, rfl, Nat.le_refl 2⟩
      · exact ⟨_, _, rfl, ends, Nat.le_succ 1⟩
  obtain ⟨eol, rest, first, type, short⟩ := starts
  refine ⟨⟨imf.hdr, eol.bytes, (byte :: other).drop eol.bytes.length⟩, imfParse_iff.mpr
    ⟨shapes, byte :: other, whole.hdr, rfl, scanned, .inr ⟨eol, rest, first, type, rfl⟩, rfl⟩, rfl,
    ?_⟩
  rw [length_drop, length_cons]
  omega

/-! ### When a change marks the message -/

/-- The stored message is the received one with its mark. -/
def Marks (before : Imf) (file : Bytes) : Prop :=
  ∃ after, imfParse file = some after ∧ MarkedFrom before after

/-- Two lists that differ in one place, split twice around one place. -/
theorem same_place {Value : Type} {front other back back' : List Value} {first second old new : Value}
    (before : front ++ first :: back = other ++ old :: back')
    (after : front ++ second :: back = other ++ new :: back') (differ : first ≠ second) :
    front = other := by
  induction front generalizing other with
  | nil =>
    cases other with
    | nil => rfl
    | cons head rest =>
      exact absurd ((cons.inj before).1.trans (cons.inj after).1.symm) differ
  | cons head rest ih =>
    cases other with
    | nil =>
      have same := (cons.inj before).2.trans (cons.inj after).2.symm
      exact absurd (cons.inj (append_cancel_left same)).1 differ
    | cons head' rest' =>
      obtain ⟨rfl, tails⟩ := cons.inj before
      rw [ih tails (cons.inj after).2]

theorem same_length {front other back back' : List ImfHdr}
    (same : front ++ back = other ++ back') (nonempty : ∀ hdr ∈ front ++ back, hdr.bytes ≠ [])
    (length : hdrsLength front = hdrsLength other) : front = other := by
  have positive : ∀ (hdr : ImfHdr) (rest : List ImfHdr), hdr.bytes ≠ [] →
      hdrsLength (hdr :: rest) ≠ 0 := by
    intro hdr rest bytes zero
    have parts : hdr.bytes.length + hdrsLength rest = 0 := zero
    exact bytes (length_eq_zero_iff.mp (by omega))
  induction front generalizing other with
  | nil =>
    cases other with
    | nil => rfl
    | cons hdr rest =>
      have mem : hdr ∈ [] ++ back := same ▸ mem_cons_self
      exact absurd length.symm (positive hdr rest (nonempty hdr mem))
  | cons hdr rest ih =>
    cases other with
    | nil => exact absurd length (positive hdr rest (nonempty hdr mem_cons_self))
    | cons hdr' rest' =>
      obtain ⟨rfl, tails⟩ := cons.inj same
      have later : hdrsLength rest = hdrsLength rest' := Nat.add_left_cancel length
      rw [ih tails (fun other mem => nonempty other (.tail _ mem)) later]

/-- A list to which one element is added at its end, and which is still that list after its first
element. -/
theorem replicate_of_shift {Value : Type} {list : List Value} {first last : Value}
    (shifted : list ++ [last] = first :: list) :
    first = last ∧ list = replicate list.length last := by
  induction list generalizing first with
  | nil => exact ⟨(cons.inj shifted).1.symm, rfl⟩
  | cons head rest ih =>
    obtain ⟨rfl, more⟩ := cons.inj shifted
    obtain ⟨rfl, same⟩ := ih more
    refine ⟨rfl, ?_⟩
    rw [length_cons, replicate_succ, ← same]

section

variable {msg rest : Bytes} {before : Imf} {shapes : List HdrShape}

theorem ImfShape.bytes_ne_nil (whole : ImfShape msg before shapes rest) {hdr : ImfHdr}
    (mem : hdr ∈ before.hdr) : hdr.bytes ≠ [] := by
  rw [whole.hdr] at mem
  obtain ⟨shape, found, rfl⟩ := mem_map.mp mem
  cases name : shape.name with
  | nil => exact absurd name shape.named
  | cons token others =>
    have inside : token ∈ shape.tokens := by
      rw [HdrShape.tokens, name]
      exact mem_cons_self
    have starts : shape.hdr.bytes = token.bytes ++ tokenBytes (others ++ shape.gap ++
        shape.colon :: (shape.value ++ [shape.eol])) := by
      show tokenBytes shape.tokens = _
      rw [HdrShape.tokens, name]
      rfl
    rw [starts]
    rcases whole.scanned_of_mem (mem_flatMap.mpr ⟨shape, found, inside⟩) with
      ⟨byte, rfl⟩ | ⟨byte, next, -, rfl⟩
    · exact cons_ne_nil _ _
    · exact cons_ne_nil _ _

theorem marked_mark (shape : HdrShape) : Marked shape.mark.hdr := by
  have value : shape.mark.hdr.value = ascii " NOT ENCRYPTED:" ++ tokenBytes shape.value := by
    show tokenBytes (lineTokens (ascii " NOT ENCRYPTED:") ++ shape.value) = _
    rw [tokenBytes_append, tokenBytes_lineTokens]
  unfold Marked
  rw [value]
  exact ⟨tokenBytes shape.value, rfl⟩

/-- The warning after `Subject:` of a header marks the message if no header before it is the
subject that is shown. -/
theorem marks_subject_iff (whole : ImfShape msg before shapes rest) {bytes : Bytes}
    (place : SubjectAfter shapes bytes) :
    Marks before (mangleSubject msg (bytes.length + 8)) ↔
      ∃ front subject back, before.hdr = front ++ subject :: back ∧
        hdrsLength front = bytes.length ∧ ∀ hdr ∈ front, isSubject hdr = false := by
  obtain ⟨earlier, shape, others, rfl, spans, name, gap, colon⟩ := place
  have cut : bytes ++ ascii "Subject:" = tokenBytes (earlier.flatMap HdrShape.tokens) ++
      tokenBytes (shape.name ++ shape.gap ++ [shape.colon]) := by
    rw [spans, name, gap, colon, append_nil, tokenBytes_append, tokenBytes_lineTokens]
    rfl
  have after := whole.mark cut
  have size : (bytes ++ ascii "Subject:").length = bytes.length + 8 := by
    rw [length_append]
    rfl
  rw [size] at after
  have parsed := imfParse_iff.mpr ⟨_, _, after⟩
  have hdrs : before.hdr = earlier.map HdrShape.hdr ++ shape.hdr :: others.map HdrShape.hdr := by
    rw [whole.hdr, map_append, map_cons]
  have marked : (earlier ++ shape.mark :: others).map HdrShape.hdr =
      earlier.map HdrShape.hdr ++ shape.mark.hdr :: others.map HdrShape.hdr := by
    rw [map_append, map_cons]
  have length : hdrsLength (earlier.map HdrShape.hdr) = bytes.length := by
    rw [hdrsLength_shapes, spans]
  have differ : shape.hdr ≠ shape.mark.hdr := by
    intro same
    have value : tokenBytes shape.value =
        tokenBytes (lineTokens (ascii " NOT ENCRYPTED:") ++ shape.value) :=
      congrArg ImfHdr.value same
    have longer := congrArg List.length value
    rw [tokenBytes_append, tokenBytes_lineTokens, length_append] at longer
    have warning : (ascii " NOT ENCRYPTED:").length = 15 := rfl
    omega
  constructor
  · rintro ⟨found, again, front, subject, back, shown, -, kept, -⟩
    rw [parsed] at again
    cases again
    have split := marked.symm.trans shown.split
    rcases kept with removed | ⟨old, -, replaced⟩
    · have counts := congrArg List.length (hdrs.symm.trans removed)
      have others := congrArg List.length split
      simp only [length_append, length_cons] at counts others
      omega
    · have same := same_place (hdrs.symm.trans replaced) split differ
      exact ⟨_, _, _, hdrs, length, same ▸ shown.first⟩
  · rintro ⟨front, subject, back, split, size, none⟩
    have same : earlier.map HdrShape.hdr = front := by
      refine same_length (hdrs.symm.trans split) ?_ (length.trans size.symm)
      intro hdr mem
      exact whole.bytes_ne_nil (hdrs ▸ mem)
    refine ⟨_, parsed, _, _, _, ⟨marked, ?_, same ▸ none⟩, marked_mark shape, .inr ⟨_, ?_, hdrs⟩,
      rfl⟩
    · show (tokenBytes (lineTokens (ascii " NOT ENCRYPTED:") ++ shape.value) ≠ [] &&
        dstrIcmp2 (tokenBytes shape.name) (ascii "subject") = 0) = true
      rw [name, tokenBytes_append, tokenBytes_lineTokens, tokenBytes_lineTokens]
      rfl
    · show dstrIcmp2 (tokenBytes shape.name) (ascii "subject") = 0
      rw [name, tokenBytes_lineTokens]
      rfl

/-- A subject that is added where the headers end marks the message if there is none, or if it is
the line that is there already. -/
theorem marks_insert_iff {tail : Bytes} {which : Nat} (pattern : which = 1 ∨ which = 2)
    (whole : ImfShape msg before shapes (nativeLineBreak which ++ tail)) :
    Marks before
        (tokenBytes (shapes.flatMap HdrShape.tokens) ++ subjEntire ++
          (nativeLineBreak which ++ (nativeLineBreak which ++ tail))) ↔
      ∃ front count,
        before.hdr = front ++ replicate count (missingSubject (nativeLineBreak which)) ∧
          ∀ hdr ∈ front, isSubject hdr = false := by
  have parsed := imfParse_iff.mpr ⟨_, _, whole.insert pattern⟩
  have subject : isSubject (missingSubject (nativeLineBreak which)) = true := rfl
  constructor
  · rintro ⟨found, again, front, shown, back, first, -, kept, -⟩
    rw [parsed] at again
    cases again
    have split : before.hdr ++ [missingSubject (nativeLineBreak which)] = front ++ shown :: back :=
      first.split
    rcases kept with removed | ⟨old, -, replaced⟩
    · rw [removed, append_assoc, append_cancel_left_eq] at split
      obtain ⟨-, same⟩ := replicate_of_shift split
      exact ⟨front, back.length, same ▸ removed, first.first⟩
    · have counts := congrArg length replaced
      have others := congrArg length split
      simp only [length_append, length_cons, length_nil] at counts others
      omega
  · rintro ⟨front, count, split, none⟩
    refine ⟨_, parsed, front, missingSubject (nativeLineBreak which),
      replicate count (missingSubject (nativeLineBreak which)), ⟨?_, subject, none⟩,
      ⟨ascii " (no subject)", rfl⟩, .inl split, rfl⟩
    rw [split, append_assoc, ← replicate_succ', replicate_succ]

/-- A change after the headers leaves the subject unmarked or changes the body. -/
theorem not_marks_later (whole : ImfShape msg before shapes rest) {cut : Nat} {added : Bytes}
    (later : hdrsLength before.hdr < cut) (long : hdrsLength before.hdr + 2 ≤ msg.length)
    (grown : msg.length + 2 < (msg.take cut ++ added).length) :
    ¬Marks before (msg.take cut ++ added) := by
  rintro ⟨after, parsed, front, subject, back, -, -, -, body⟩
  rw [whole.hdrsLength_eq] at later long
  have total := congrArg length whole.bytes
  rw [length_append] at total
  rcases rest with _ | ⟨byte, _ | ⟨next, tail⟩⟩
  · rw [length_nil] at total
    omega
  · rw [length_singleton] at total
    omega
  · have ends : imfByteType byte = .eol := by
      have starts : ∃ token more, imfScan (byte :: next :: tail) = token :: more ∧
          token.type = imfByteType byte := by
        rw [imfScan]
        split
        next pair =>
          refine ⟨_, _, rfl, (imfByteType_eol.mpr ?_).symm⟩
          rcases eolPair_cases pair with ⟨same, -⟩ | ⟨same, -⟩
          · exact .inl same
          · exact .inr same
        next => exact ⟨_, _, rfl, rfl⟩
      obtain ⟨token, more, scanned, type⟩ := starts
      rcases whole.separated with ⟨none, -⟩ | ⟨eol, others, found, line, -⟩
      · rw [scanned] at none
        cases none
      · rw [scanned] at found
        cases found
        exact type ▸ line
    have same : msg.take cut ++ added = tokenBytes (shapes.flatMap HdrShape.tokens) ++
        byte :: ((next :: tail).take (cut - (tokenBytes (shapes.flatMap HdrShape.tokens)).length - 1)
          ++ added) := by
      obtain ⟨more, size⟩ : ∃ more, cut =
          (tokenBytes (shapes.flatMap HdrShape.tokens)).length + (more + 1) :=
        ⟨cut - (tokenBytes (shapes.flatMap HdrShape.tokens)).length - 1, by omega⟩
      rw [whole.bytes, size, take_length_add_append, take_succ_cons, append_assoc,
        Nat.add_sub_cancel_left, Nat.add_sub_cancel]
      rfl
    obtain ⟨found, again, -, short⟩ := whole.later ends
      ((next :: tail).take (cut - (tokenBytes (shapes.flatMap HdrShape.tokens)).length - 1) ++ added)
    rw [← same, parsed] at again
    cases again
    rw [same] at grown
    have old := congrArg length (body.trans whole.body)
    simp only [length_append, length_cons, length_drop] at grown short old total
    omega

/-- A pattern of two line ends is not among the headers. -/
theorem not_inside (whole : ImfShape msg before shapes rest) {which : Nat}
    (pattern : which = 1 ∨ which = 2) {front tail : Bytes}
    (found : msg = front ++ (nativeLineBreak which ++ nativeLineBreak which) ++ tail) :
    hdrsLength before.hdr ≤ front.length + (nativeLineBreak which).length := by
  rw [whole.hdrsLength_eq]
  by_contra inside
  have members : ∀ token ∈ shapes.flatMap HdrShape.tokens, token.Scanned :=
    fun token mem => whole.scanned_of_mem mem
  have split : front ++ nativeLineBreak which ++ (nativeLineBreak which ++ tail) =
      tokenBytes (shapes.flatMap HdrShape.tokens) ++ rest := by
    rw [← whole.bytes, found]
    simp
  rcases append_eq_append_iff.mp split with ⟨middle, spans, more⟩ | ⟨middle, spans, -⟩
  · rcases middle with _ | ⟨byte, middle⟩
    · rw [spans, append_nil, length_append] at inside
      omega
    · rcases pattern with rfl | rfl
      · rw [nativeLineBreak_crlf] at spans more
        have first : byte = 13 := (cons.inj more).1.symm
        subst first
        rw [append_assoc] at spans
        exact (eols_in_hdrs members (chain_shapes shapes) (by decide) (by decide) spans).2 13 middle
          rfl (by decide)
      · rw [nativeLineBreak_lf] at spans more
        have first : byte = 10 := (cons.inj more).1.symm
        subst first
        rw [append_assoc] at spans
        have pair := (eols_in_hdrs members (chain_shapes shapes) (by decide) (by decide) spans).1
        cases pair
  · have lengths := congrArg length spans
    rw [length_append, length_append] at lengths
    omega

theorem marks_unchanged_iff (parsed : imfParse msg = some before) :
    Marks before msg ↔
      ∃ front subject back, FirstSubject before.hdr front subject back ∧ Marked subject := by
  constructor
  · rintro ⟨after, again, front, subject, back, shown, marked, -⟩
    rw [parsed] at again
    cases again
    exact ⟨front, subject, back, shown, marked⟩
  · rintro ⟨front, subject, back, shown, marked⟩
    have named := (Bool.and_eq_true_iff.mp shown.named).2
    exact ⟨before, parsed, front, subject, back, shown, marked,
      .inr ⟨subject, of_decide_eq_true named, shown.split⟩, rfl⟩

/-- The stored message is the received one with its mark exactly where the search fits. -/
theorem marks_mangleUnencrypted_iff (parsed : imfParse msg = some before) :
    Marks before (mangleUnencrypted msg) ↔ MarkFits msg before := by
  obtain ⟨shapes, rest, whole⟩ := imfParse_iff.mp parsed
  unfold mangleUnencrypted MarkFits
  by_cases starts : dstrBeginswith msg (ascii "Subject:") = true
  · rw [if_pos starts, if_pos starts]
    obtain ⟨text, spans⟩ := isPrefixOf_iff_prefix.mp starts
    have scanned := whole.scanned
    rw [← spans] at scanned
    have place := shapes_subject scanned whole.separated
    refine iff_of_true ((marks_subject_iff whole place).mpr ?_) trivial
    obtain ⟨earlier, shape, others, rfl, -⟩ := place
    rw [whole.hdr]
    cases earlier with
    | nil => exact ⟨[], _, _, rfl, rfl, fun _ mem => nomatch mem⟩
    | cons head more => exact ⟨[], _, _, rfl, rfl, fun _ mem => nomatch mem⟩
  · rw [if_neg starts, if_neg starts]
    cases found : dstrFind subjPatterns msg with
    | none => exact marks_unchanged_iff parsed
    | some place =>
      obtain ⟨position, which⟩ := place
      obtain ⟨front, tail, spans, rfl, bound⟩ := dstrFind_spec found
      cases which with
      | zero =>
        show Marks before (mangleSubject msg (front.length + 9)) ↔ _
        have pattern : subjPatterns.getD 0 [] = [10] ++ ascii "Subject:" := by decide
        rw [pattern] at spans
        have lines : msg = front ++ [10] ++ (ascii "Subject:" ++ tail) := by
          rw [spans]
          simp
        by_cases inside : front.length < hdrsLength before.hdr
        · have scanned := whole.scanned
          have bytes := whole.bytes
          rw [lines] at scanned bytes
          have place := shapes_subject_line scanned bytes whole.separated
            (whole.hdrsLength_eq ▸ inside)
          have fits := marks_subject_iff whole place
          rw [length_append, length_singleton] at fits
          exact fits
        · refine iff_of_false ?_ ?_
          · have lengths := congrArg length spans
            have nine : ([10] ++ ascii "Subject:").length = 9 := rfl
            rw [length_append, length_append, nine] at lengths
            unfold mangleSubject
            rw [append_assoc]
            refine not_marks_later whole (by omega) (by omega) ?_
            have warning : (ascii " NOT ENCRYPTED:").length = 15 := rfl
            simp only [length_append, length_take, length_drop, warning]
            omega
          · rintro ⟨earlier, subject, back, split, size, -⟩
            have total : hdrsLength before.hdr =
                hdrsLength earlier + (subject.bytes.length + hdrsLength back) := by
              rw [split]
              simp [hdrsLength]
            omega
      | succ which =>
        have pattern : which + 1 = 1 ∨ which + 1 = 2 := by
          have three : subjPatterns.length = 3 := rfl
          omega
        have double : subjPatterns.getD (which + 1) [] =
            nativeLineBreak (which + 1) ++ nativeLineBreak (which + 1) := by
          rcases pattern with same | same
          · rw [same]
            decide
          · rw [same]
            decide
        rw [double] at spans
        have least := not_inside whole pattern spans
        have total := congrArg length spans
        rw [length_append, length_append, length_append] at total
        have some : 0 < (nativeLineBreak (which + 1)).length := by
          rcases pattern with same | same
          · rw [same]
            decide
          · rw [same]
            decide
        have taken : msg.take front.length = front := by
          rw [spans, append_assoc, take_left]
        have dropped : msg.drop front.length =
            nativeLineBreak (which + 1) ++ (nativeLineBreak (which + 1) ++ tail) := by
          rw [spans, append_assoc, drop_left, append_assoc]
        show Marks before (msg.take front.length ++ nativeLineBreak (which + 1) ++ subjEntire ++
          msg.drop front.length) ↔ _ ∧ _
        by_cases aligned : front.length + (nativeLineBreak (which + 1)).length =
            hdrsLength before.hdr
        · have ends : front ++ nativeLineBreak (which + 1) =
              tokenBytes (shapes.flatMap HdrShape.tokens) ∧
                nativeLineBreak (which + 1) ++ tail = rest := by
            refine append_inj ?_ ?_
            · rw [← whole.bytes, spans]
              simp
            · rw [length_append, aligned, whole.hdrsLength_eq]
          rw [← ends.2] at whole
          have fits := marks_insert_iff pattern whole
          rw [← ends.1] at fits
          rw [taken, dropped, fits]
          exact (and_iff_right aligned).symm
        · refine iff_of_false ?_ fun fits => aligned fits.1
          have cut : msg.take (front.length + (nativeLineBreak (which + 1)).length) =
              front ++ nativeLineBreak (which + 1) := by
            rw [spans, ← append_assoc, append_assoc (front ++ _), ← length_append, take_left]
          rw [taken, append_assoc _ subjEntire, ← cut]
          refine not_marks_later whole (by omega) (by omega) ?_
          have line : subjEntire.length = 36 := rfl
          rw [cut, dropped]
          simp only [length_append, line]
          omega

/-- A message that is not encrypted is stored with its mark, and apart from it as it was received,
exactly if the place where the mark goes is the place of the subject. -/
theorem processMsg_marks_iff (decryptMsg : Bytes → DecryptMsg) (dateField : Bytes)
    (plain : dstrBeginswith msg encHeader = false) (parsed : imfParse msg = some before) :
    (∃ result, processMsg decryptMsg dateField msg = .ok result ∧ AlwaysMarked before result) ↔
      MarkFits msg before := by
  rw [← marks_mangleUnencrypted_iff parsed]
  have written : processMsg decryptMsg dateField msg = .ok (.wrote (mangleUnencrypted msg)) := by
    unfold processMsg
    rw [plain]
    rfl
  constructor
  · rintro ⟨result, same, file, after, wrote, stored, marked, -⟩
    rw [written] at same
    cases same
    cases wrote
    exact ⟨after, stored, marked⟩
  · rintro ⟨after, stored, marked⟩
    exact ⟨_, written, _, after, rfl, stored, marked, rfl⟩

/-- A message with its subject on the first line is marked. -/
theorem processMsg_marks_first_line :
    ∃ result, processMsg (fun _ => .not4me) [] (ascii "Subject: hi\r\n\r\nbody") = .ok result ∧
      AlwaysMarked
        ⟨[⟨ascii "Subject: hi\r\n", ascii "Subject", ascii " hi"⟩], ascii "\r\n", ascii "body"⟩
        result :=
  (processMsg_marks_iff _ _ (by decide) (by decide +kernel)).mpr (by
    unfold MarkFits
    rw [if_pos (by decide)]
    trivial)

/-- A subject in small letters is shown without the mark: the search for bytes misses it, and a
second subject is added after it. -/
theorem processMsg_misses_lowercase :
    ∃ before, imfParse (ascii "subject: hi\r\n\r\nbody") = some before ∧
      dstrBeginswith (ascii "subject: hi\r\n\r\nbody") encHeader = false ∧
        ∀ decryptMsg dateField,
          ¬∃ result,
            processMsg decryptMsg dateField (ascii "subject: hi\r\n\r\nbody") = .ok result ∧
              AlwaysMarked before result := by
  have parsed : imfParse (ascii "subject: hi\r\n\r\nbody") = some
      ⟨[⟨ascii "subject: hi\r\n", ascii "subject", ascii " hi"⟩], ascii "\r\n", ascii "body"⟩ := by
    decide +kernel
  have found : dstrFind subjPatterns (ascii "subject: hi\r\n\r\nbody") = some (11, 1) := by decide
  refine ⟨_, parsed, by decide, fun decryptMsg dateField => ?_⟩
  rintro ⟨result, same, file, after, wrote, stored, marked, -⟩
  have plain : processMsg decryptMsg dateField (ascii "subject: hi\r\n\r\nbody") =
      .ok (.wrote (mangleUnencrypted (ascii "subject: hi\r\n\r\nbody"))) := rfl
  rw [plain] at same
  cases same
  cases wrote
  have fits := (marks_mangleUnencrypted_iff parsed).mp ⟨after, stored, marked⟩
  unfold MarkFits at fits
  rw [if_neg (by decide), found] at fits
  obtain ⟨-, front, count, split, none⟩ := fits
  cases front with
  | nil =>
    cases count with
    | zero => cases split
    | succ count =>
      have same := (cons.inj split).1
      exact absurd same (by decide)
  | cons hdr rest =>
    have same := (cons.inj split).1
    have subject := none hdr mem_cons_self
    rw [← same] at subject
    exact absurd subject (by decide)

end

end Splintermail
