/-
This file models the first pass over an email message: the scanner of
`imf_scan.c.in`, the grammar of headers of `imf.in` and the choice of a header
field that `read_envelope_info` makes.

Every kind of line end is accepted, and what ends a line may be two bytes, so where
a message is cut matters: `\n` and `\r` next to each other are one line end. The
grammar itself is stated once more as a shape, `HdrTokens` and `HdrsTokens`, and the
parser is proved to accept exactly that shape. What a change to a message does to
its headers is then read off the shape.
-/

import Mathlib.Data.List.Chain
import Mathlib.Data.List.TakeWhile
import Splintermail.Dstr.Find

namespace Splintermail

open List

/-! ### Scanning -/

/-- The kinds of tokens, as far as the grammar of headers tells them apart: `text` stands for
every kind that both `field_name` and `unstruct` list. -/
inductive ImfTokenType where
  | nil
  | eol
  | ws
  | nonWsCtrl
  | colon
  | text
  deriving DecidableEq, Repr

structure ImfToken where
  type : ImfTokenType
  bytes : Bytes
  deriving DecidableEq, Repr

/-- The kind of token that a byte begins. -/
def imfByteType (byte : UInt8) : ImfTokenType :=
  if byte = 0 then .nil
  else if byte = 10 ∨ byte = 13 then .eol
  else if byte = 9 ∨ byte = 32 then .ws
  else if byte < 32 ∨ byte = 127 then .nonWsCtrl
  else if byte = 58 then .colon
  else .text

/-- Two bytes that are one `eol`. -/
def eolPair (byte next : UInt8) : Bool := (byte == 10 && next == 13) || (byte == 13 && next == 10)

/-- `imf_scan`, called until the end of the bytes. A run of blanks, letters, digits or symbols is one
token in the source; the grammar repeats each of these, and here each byte is a token. A NUL that
is the last byte is taken for the end. -/
def imfScan : Bytes → List ImfToken
  | [] => []
  | [byte] => if byte = 0 then [] else [⟨imfByteType byte, [byte]⟩]
  | byte :: next :: rest =>
    if eolPair byte next then ⟨.eol, [byte, next]⟩ :: imfScan rest
    else ⟨imfByteType byte, [byte]⟩ :: imfScan (next :: rest)

/-- What a list of tokens spans. -/
def tokenBytes (tokens : List ImfToken) : Bytes := tokens.flatMap ImfToken.bytes

/-- The next token is of some kind. -/
def nextIs (type : ImfTokenType) (tokens : List ImfToken) : Bool :=
  tokens.head?.any fun token => token.type = type

/-! ### Parsing -/

/-- `imf_hdr_t` -/
structure ImfHdr where
  bytes : Bytes
  name : Bytes
  value : Bytes
  deriving DecidableEq, Repr

/-- `imf_t` with its `imf_hdrs_t`. -/
structure Imf where
  hdr : List ImfHdr
  sep : Bytes
  body : Bytes
  deriving DecidableEq, Repr

/-- What follows the colon of a header, `xunstruct EOL *(WS xunstruct EOL)`: the tokens of the
value, the `EOL` that ends the header, and what is left. -/
def imfValue : List ImfToken → Option (List ImfToken × ImfToken × List ImfToken)
  | [] => none
  | token :: rest =>
    if token.type = .eol ∧ nextIs .ws rest = false then some ([], token, rest)
    else (imfValue rest).map fun (value, eol, after) => (token :: value, eol, after)

/-- The rule `hdr`. -/
def imfHdr (tokens : List ImfToken) : Option (ImfHdr × List ImfToken) :=
  let name := tokens.takeWhile fun token => token.type = .text
  let named := tokens.dropWhile fun token => token.type = .text
  let gap := named.takeWhile fun token => token.type = .ws
  match named.dropWhile fun token => token.type = .ws with
  | [] => none
  | colon :: rest =>
    if name ≠ [] ∧ colon.type = .colon then
      (imfValue rest).map fun (value, eol, after) =>
        (⟨tokenBytes (name ++ gap ++ colon :: (value ++ [eol])), tokenBytes name, tokenBytes value⟩,
          after)
    else none

theorem length_imfValue_lt {tokens value after : List ImfToken} {eol : ImfToken}
    (parsed : imfValue tokens = some (value, eol, after)) : after.length < tokens.length := by
  induction tokens generalizing value with
  | nil => cases parsed
  | cons token rest ih =>
    rw [imfValue] at parsed
    split at parsed
    · cases parsed
      exact Nat.lt_succ_self _
    · obtain ⟨⟨tail, last, left⟩, found, same⟩ := Option.map_eq_some_iff.mp parsed
      cases same
      exact Nat.lt_succ_of_lt (ih found)

theorem length_imfHdr_lt {tokens after : List ImfToken} {hdr : ImfHdr}
    (parsed : imfHdr tokens = some (hdr, after)) : after.length < tokens.length := by
  unfold imfHdr at parsed
  dsimp only at parsed
  have named : (tokens.dropWhile fun token => token.type = .text).length ≤ tokens.length :=
    (dropWhile_suffix _).length_le
  split at parsed
  · cases parsed
  · rename_i colon rest shape
    have gap := (dropWhile_suffix (l := tokens.dropWhile fun token => token.type = .text)
      fun token => decide (token.type = .ws)).length_le
    rw [shape, length_cons] at gap
    split at parsed
    · obtain ⟨⟨value, eol, left⟩, found, same⟩ := Option.map_eq_some_iff.mp parsed
      obtain ⟨-, rfl⟩ := Prod.mk.inj same
      have shorter : left.length < rest.length := length_imfValue_lt found
      show left.length < tokens.length
      omega
    · cases parsed

/-- The rule `hdrs`: the headers and the separator, which is empty at the end of the bytes. -/
def imfHdrs (tokens : List ImfToken) : Option (List ImfHdr × Bytes) :=
  match tokens with
  | [] => some ([], [])
  | token :: rest =>
    if token.type = .eol then some ([], token.bytes)
    else
      match parsed : imfHdr (token :: rest) with
      | none => none
      | some (hdr, after) =>
        (imfHdrs after).map fun (hdrs, sep) => (hdr :: hdrs, sep)
  termination_by tokens.length
  decreasing_by exact length_imfHdr_lt parsed

/-- The length of all headers. -/
def hdrsLength (hdrs : List ImfHdr) : Nat := (hdrs.map fun hdr => hdr.bytes.length).sum

/-- `imf_parse`: the body is what the headers and the separator leave of the message. -/
def imfParse (msg : Bytes) : Option Imf :=
  (imfHdrs (imfScan msg)).map fun (hdr, sep) =>
    { hdr, sep, body := msg.drop (hdrsLength hdr + sep.length) }

/-- The header that the first pass of `read_envelope_info` takes for the subject: `DETECT_HDR` with
the rule that empty fields are ignored. The pass stops early only once it has all its fields. -/
def isSubject (hdr : ImfHdr) : Bool :=
  hdr.value ≠ [] && dstrIcmp2 hdr.name (ascii "subject") = 0

/-! ### Tokens and the bytes they span -/

/-- A token as the scanner makes it. -/
def ImfToken.Scanned (token : ImfToken) : Prop :=
  (∃ byte, token = ⟨imfByteType byte, [byte]⟩) ∨
    ∃ byte next, eolPair byte next = true ∧ token = ⟨.eol, [byte, next]⟩

@[simp] theorem tokenBytes_nil : tokenBytes [] = [] := rfl

@[simp] theorem tokenBytes_cons (token : ImfToken) (rest : List ImfToken) :
    tokenBytes (token :: rest) = token.bytes ++ tokenBytes rest := rfl

@[simp] theorem tokenBytes_append (front back : List ImfToken) :
    tokenBytes (front ++ back) = tokenBytes front ++ tokenBytes back :=
  flatMap_append

variable {byte next : UInt8}

theorem eolPair_cases (pair : eolPair byte next = true) :
    byte = 10 ∧ next = 13 ∨ byte = 13 ∧ next = 10 := by
  simpa [eolPair] using pair

theorem imfByteType_eol : imfByteType byte = .eol ↔ byte = 10 ∨ byte = 13 := by
  unfold imfByteType
  by_cases zero : byte = 0
  · subst zero
    decide
  · rw [if_neg zero]
    by_cases line : byte = 10 ∨ byte = 13
    · simp [line]
    · rw [if_neg line]
      split_ifs <;> simp_all

theorem imfByteType_ws (blank : imfByteType byte = .ws) : byte = 9 ∨ byte = 32 := by
  unfold imfByteType at blank
  split_ifs at blank
  assumption

theorem eolPair_eq_false (other : imfByteType next ≠ .eol) : eolPair byte next = false := by
  refine Bool.eq_false_iff.mpr fun pair => other (imfByteType_eol.mpr ?_)
  rcases eolPair_cases pair with ⟨-, same⟩ | ⟨-, same⟩
  · exact .inr same
  · exact .inl same

variable {token : ImfToken}

theorem scanned_of_mem_imfScan {text : Bytes} (mem : token ∈ imfScan text) : token.Scanned := by
  induction text using imfScan.induct with
  | case1 => cases mem
  | case2 =>
    rw [imfScan, if_pos rfl] at mem
    cases mem
  | case3 byte other =>
    rw [imfScan, if_neg other] at mem
    exact .inl ⟨byte, mem_singleton.mp mem⟩
  | case4 byte next rest pair ih =>
    rw [imfScan, if_pos pair] at mem
    rcases mem_cons.mp mem with same | later
    · exact .inr ⟨byte, next, pair, same⟩
    · exact ih later
  | case5 byte next rest apart ih =>
    rw [imfScan, if_neg apart] at mem
    rcases mem_cons.mp mem with same | later
    · exact .inl ⟨byte, same⟩
    · exact ih later

/-- Bytes that end no line are scanned one by one, whatever follows them. -/
theorem imfScan_plain_append {plain : Bytes}
    (inLine : ∀ byte ∈ plain, imfByteType byte ≠ .eol ∧ byte ≠ 0) (rest : Bytes) :
    imfScan (plain ++ rest) =
      plain.map (fun byte => ⟨imfByteType byte, [byte]⟩) ++ imfScan rest := by
  induction plain with
  | nil => rfl
  | cons byte tail ih =>
    have here := inLine byte mem_cons_self
    have later := ih fun other mem => inLine other (.tail _ mem)
    rw [cons_append, map_cons, cons_append, ← later]
    cases follows : tail ++ rest with
    | nil =>
      show imfScan [byte] = [⟨imfByteType byte, [byte]⟩]
      rw [imfScan, if_neg here.2]
    | cons next more =>
      have apart : ¬eolPair byte next = true := fun pair => by
        refine here.1 (imfByteType_eol.mpr ?_)
        rcases eolPair_cases pair with ⟨same, -⟩ | ⟨same, -⟩
        · exact .inl same
        · exact .inr same
      rw [imfScan, if_neg apart]

/-- Where a text can be cut without changing the tokens before the cut: what follows begins with the
byte that followed, or with a byte that ends no line. -/
def SameStart (rest other : Bytes) : Prop :=
  other.head? = rest.head? ∨ ∃ byte, other.head? = some byte ∧ imfByteType byte ≠ .eol

/-- The first tokens of a text depend on what follows them only by its first byte. -/
theorem imfScan_split {text : Bytes} {front back : List ImfToken}
    (scanned : imfScan text = front ++ back) :
    ∃ rest, text = tokenBytes front ++ rest ∧ back = imfScan rest ∧
      ∀ other, SameStart rest other →
        imfScan (tokenBytes front ++ other) = front ++ imfScan other := by
  induction text using imfScan.induct generalizing front with
  | case1 =>
    obtain ⟨rfl, rfl⟩ := append_eq_nil_iff.mp scanned.symm
    exact ⟨[], rfl, rfl, fun other _ => rfl⟩
  | case2 =>
    rw [imfScan, if_pos rfl] at scanned
    obtain ⟨rfl, rfl⟩ := append_eq_nil_iff.mp scanned.symm
    exact ⟨[0], rfl, by rw [imfScan, if_pos rfl], fun other _ => rfl⟩
  | case3 byte nonzero =>
    cases front with
    | nil => exact ⟨[byte], rfl, scanned.symm, fun other _ => rfl⟩
    | cons token tail =>
      rw [imfScan, if_neg nonzero, cons_append, cons.injEq] at scanned
      obtain ⟨rfl, ends⟩ := scanned
      obtain ⟨rfl, rfl⟩ := append_eq_nil_iff.mp ends.symm
      refine ⟨[], rfl, rfl, fun other starts => ?_⟩
      cases other with
      | nil =>
        show imfScan [byte] = [⟨imfByteType byte, [byte]⟩]
        rw [imfScan, if_neg nonzero]
      | cons next more =>
        rcases starts with same | ⟨start, found, inLine⟩
        · cases same
        · cases found
          show imfScan (byte :: next :: more) = _
          rw [imfScan, eolPair_eq_false inLine, if_neg Bool.false_ne_true]
          rfl
  | case4 byte next rest pair ih =>
    cases front with
    | nil => exact ⟨byte :: next :: rest, rfl, scanned.symm, fun other _ => rfl⟩
    | cons token tail =>
      rw [imfScan, if_pos pair, cons_append, cons.injEq] at scanned
      obtain ⟨rfl, more⟩ := scanned
      obtain ⟨left, whole, back, replaced⟩ := ih more
      refine ⟨left, ?_, back, fun other starts => ?_⟩
      · rw [tokenBytes_cons, append_assoc, ← whole]
        rfl
      · rw [tokenBytes_cons, append_assoc]
        show imfScan (byte :: next :: (tokenBytes tail ++ other)) = _
        rw [imfScan, if_pos pair, replaced other starts]
        rfl
  | case5 byte next rest apart ih =>
    cases front with
    | nil => exact ⟨byte :: next :: rest, rfl, scanned.symm, fun other _ => rfl⟩
    | cons token tail =>
      rw [imfScan, if_neg apart, cons_append, cons.injEq] at scanned
      obtain ⟨rfl, more⟩ := scanned
      obtain ⟨left, whole, back, replaced⟩ := ih more
      refine ⟨left, ?_, back, fun other starts => ?_⟩
      · rw [tokenBytes_cons, append_assoc, ← whole]
        rfl
      · rw [cons_append, ← replaced other starts]
        show imfScan (byte :: (tokenBytes tail ++ other)) =
          ⟨imfByteType byte, [byte]⟩ :: imfScan (tokenBytes tail ++ other)
        -- the byte after this one is still `next`, or it ends no line
        cases follows : tokenBytes tail ++ other with
        | nil =>
          obtain ⟨none, rfl⟩ := append_eq_nil_iff.mp follows
          rcases starts with same | ⟨start, found, -⟩
          · rw [none, nil_append] at whole
            rw [← whole] at same
            cases same
          · cases found
        | cons start more =>
          have still : ¬eolPair byte start = true := by
            cases spans : tokenBytes tail with
            | nil =>
              rw [spans, nil_append] at whole follows
              subst follows whole
              rcases starts with same | ⟨other, found, inLine⟩
              · cases same
                exact apart
              · cases found
                rw [eolPair_eq_false inLine]
                exact Bool.false_ne_true
            | cons head others =>
              rw [spans, cons_append, cons.injEq] at whole follows
              rw [← follows.1, ← whole.1]
              exact apart
          rw [imfScan, if_neg still]

/-! ### The shape of parsed headers -/

/-- A value as its grammar has it: a line ends within it only where a blank follows. -/
def Folded : List ImfToken → Prop
  | [] => True
  | token :: rest => (token.type = .eol → nextIs .ws rest = true) ∧ Folded rest

/-- One header as the rule `hdr` has it: `field_name *WS COLON value EOL`. -/
structure HdrShape where
  name : List ImfToken
  gap : List ImfToken
  colon : ImfToken
  value : List ImfToken
  eol : ImfToken
  named : name ≠ []
  nameText : ∀ token ∈ name, token.type = .text
  gapBlank : ∀ token ∈ gap, token.type = .ws
  colonType : colon.type = .colon
  folded : Folded value
  eolType : eol.type = .eol

namespace HdrShape

def tokens (shape : HdrShape) : List ImfToken :=
  shape.name ++ shape.gap ++ shape.colon :: (shape.value ++ [shape.eol])

def hdr (shape : HdrShape) : ImfHdr :=
  ⟨tokenBytes shape.tokens, tokenBytes shape.name, tokenBytes shape.value⟩

end HdrShape

@[simp] theorem nextIs_nil (type : ImfTokenType) : nextIs type [] = false := rfl

@[simp] theorem nextIs_cons (type : ImfTokenType) (token : ImfToken) (rest : List ImfToken) :
    nextIs type (token :: rest) = decide (token.type = type) := rfl

/-- `imfValue` accepts a folded value up to a line end that no blank follows. -/
theorem imfValue_iff {tokens value after : List ImfToken} {eol : ImfToken} :
    imfValue tokens = some (value, eol, after) ↔
      tokens = value ++ eol :: after ∧ Folded value ∧ eol.type = .eol ∧ nextIs .ws after = false := by
  constructor
  · intro parsed
    induction tokens generalizing value with
    | nil => cases parsed
    | cons token rest ih =>
      rw [imfValue] at parsed
      split at parsed
      next ends =>
        cases parsed
        exact ⟨rfl, trivial, ends⟩
      next more =>
        obtain ⟨⟨tail, last, left⟩, found, same⟩ := Option.map_eq_some_iff.mp parsed
        cases same
        obtain ⟨shape, folded, ends⟩ := ih found
        refine ⟨congrArg _ shape, ⟨fun line => ?_, folded⟩, ends⟩
        have blank : nextIs .ws rest = true := by
          by_contra other
          exact more ⟨line, Bool.not_eq_true _ ▸ other⟩
        rw [shape] at blank
        cases tail with
        | nil =>
          rw [nil_append, nextIs_cons, ends.1] at blank
          cases blank
        | cons head others => exact blank
  · rintro ⟨rfl, folded, ends, stops⟩
    induction value with
    | nil => rw [nil_append, imfValue, if_pos ⟨ends, stops⟩]
    | cons token rest ih =>
      obtain ⟨follows, folded⟩ := folded
      rw [cons_append, imfValue, if_neg, ih folded]
      · rfl
      · rintro ⟨line, other⟩
        have blank := follows line
        cases rest with
        | nil => cases blank
        | cons head others =>
          rw [cons_append, nextIs_cons, ← nextIs_cons .ws head others, blank] at other
          cases other

/-- Cutting the first tokens of a kind off. -/
theorem span_append {type : ImfTokenType} {front back : List ImfToken}
    (all : ∀ token ∈ front, token.type = type) (stops : nextIs type back = false) :
    (front ++ back).takeWhile (fun token => token.type = type) = front ∧
      (front ++ back).dropWhile (fun token => token.type = type) = back := by
  induction front with
  | nil =>
    cases back with
    | nil => exact ⟨rfl, rfl⟩
    | cons token rest =>
      rw [nextIs_cons] at stops
      rw [nil_append, takeWhile_cons, dropWhile_cons, stops]
      exact ⟨rfl, rfl⟩
  | cons token rest ih =>
    have here := all token mem_cons_self
    obtain ⟨taken, dropped⟩ :=
      ih fun other mem => all other (.tail _ mem)
    rw [cons_append, takeWhile_cons_of_pos (by simp [here]),
      dropWhile_cons_of_pos (by simp [here]), taken, dropped]
    exact ⟨rfl, rfl⟩

/-- How the tokens of a header are cut into its parts. -/
theorem HdrShape.spans (shape : HdrShape) (after : List ImfToken) :
    (shape.tokens ++ after).takeWhile (fun token => token.type = .text) = shape.name ∧
      (shape.tokens ++ after).dropWhile (fun token => token.type = .text) =
        shape.gap ++ shape.colon :: (shape.value ++ shape.eol :: after) ∧
      (shape.gap ++ shape.colon :: (shape.value ++ shape.eol :: after)).takeWhile
        (fun token => token.type = .ws) = shape.gap ∧
      (shape.gap ++ shape.colon :: (shape.value ++ shape.eol :: after)).dropWhile
        (fun token => token.type = .ws) = shape.colon :: (shape.value ++ shape.eol :: after) := by
  have assoc : shape.tokens ++ after =
      shape.name ++ (shape.gap ++ shape.colon :: (shape.value ++ shape.eol :: after)) := by
    simp [HdrShape.tokens]
  have nameEnds : nextIs .text (shape.gap ++ shape.colon :: (shape.value ++ shape.eol :: after)) =
      false := by
    cases gap : shape.gap with
    | nil => simp [shape.colonType]
    | cons token rest =>
      have blank := shape.gapBlank token (gap ▸ mem_cons_self)
      simp [blank]
  have gapEnds : nextIs .ws (shape.colon :: (shape.value ++ shape.eol :: after)) = false := by
    simp [shape.colonType]
  obtain ⟨name, named⟩ := span_append shape.nameText nameEnds
  obtain ⟨gap, gapped⟩ := span_append shape.gapBlank gapEnds
  rw [assoc]
  exact ⟨name, named, gap, gapped⟩

/-- `imfHdr` accepts the shape of a header that no blank follows. -/
theorem imfHdr_iff {tokens after : List ImfToken} {hdr : ImfHdr} :
    imfHdr tokens = some (hdr, after) ↔
      ∃ shape : HdrShape, hdr = shape.hdr ∧ tokens = shape.tokens ++ after ∧
        nextIs .ws after = false := by
  constructor
  · intro parsed
    have front : ∀ token ∈ tokens.takeWhile fun token => token.type = .text, token.type = .text :=
      fun token mem => by simpa using mem_takeWhile_imp mem
    have gap : ∀ token ∈ (tokens.dropWhile fun token => token.type = .text).takeWhile
        fun token => token.type = .ws, token.type = .ws :=
      fun token mem => by simpa using mem_takeWhile_imp mem
    have whole : tokens.takeWhile (fun token => token.type = .text) ++
        ((tokens.dropWhile fun token => token.type = .text).takeWhile
            (fun token => token.type = .ws) ++
          (tokens.dropWhile fun token => token.type = .text).dropWhile
            fun token => token.type = .ws) = tokens := by
      rw [takeWhile_append_dropWhile, takeWhile_append_dropWhile]
    unfold imfHdr at parsed
    dsimp only at parsed
    split at parsed
    · cases parsed
    · rename_i colon rest shape
      split at parsed
      next starts =>
        obtain ⟨⟨value, eol, left⟩, found, same⟩ := Option.map_eq_some_iff.mp parsed
        cases same
        obtain ⟨rfl, folded, ends, stops⟩ := imfValue_iff.mp found
        refine ⟨⟨_, _, colon, value, eol, starts.1, front, gap, starts.2, folded, ends⟩, rfl, ?_,
          stops⟩
        rw [shape] at whole
        simpa [HdrShape.tokens] using whole.symm
      next => cases parsed
  · rintro ⟨shape, rfl, rfl, stops⟩
    have value : imfValue (shape.value ++ shape.eol :: after) = some (shape.value, shape.eol, after) :=
      imfValue_iff.mpr ⟨rfl, shape.folded, shape.eolType, stops⟩
    obtain ⟨name, named, gap, gapped⟩ := shape.spans after
    unfold imfHdr
    dsimp only
    rw [name, named, gap, gapped]
    dsimp only
    rw [if_pos ⟨shape.named, shape.colonType⟩, value]
    rfl

/-- What ends the headers: a line end at once, or the end of the bytes. -/
def Separated (tail : List ImfToken) (sep : Bytes) : Prop :=
  (tail = [] ∧ sep = []) ∨ ∃ eol rest, tail = eol :: rest ∧ eol.type = .eol ∧ sep = eol.bytes

theorem nextIs_ws_shapes (shapes : List HdrShape) {tail : List ImfToken} {sep : Bytes}
    (separated : Separated tail sep) :
    nextIs .ws (shapes.flatMap HdrShape.tokens ++ tail) = false := by
  cases shapes with
  | nil =>
    rcases separated with ⟨rfl, -⟩ | ⟨eol, rest, rfl, ends, -⟩
    · rfl
    · simp [ends]
  | cons shape others =>
    cases name : shape.name with
    | nil => exact absurd name shape.named
    | cons token rest =>
      have text := shape.nameText token (name ▸ mem_cons_self)
      simp [HdrShape.tokens, name, text]

/-- The parser accepts exactly the texts of the shape of the grammar. -/
theorem imfHdrs_iff {tokens : List ImfToken} {hdrs : List ImfHdr} {sep : Bytes} :
    imfHdrs tokens = some (hdrs, sep) ↔
      ∃ (shapes : List HdrShape) (tail : List ImfToken), hdrs = shapes.map HdrShape.hdr ∧
        tokens = shapes.flatMap HdrShape.tokens ++ tail ∧ Separated tail sep := by
  constructor
  · intro parsed
    induction tokens using imfHdrs.induct generalizing hdrs with
    | case1 =>
      rw [imfHdrs] at parsed
      cases parsed
      exact ⟨[], [], rfl, rfl, .inl ⟨rfl, rfl⟩⟩
    | case2 token rest ends =>
      rw [imfHdrs, if_pos ends] at parsed
      cases parsed
      exact ⟨[], token :: rest, rfl, rfl, .inr ⟨token, rest, rfl, ends, rfl⟩⟩
    | case3 token rest more failed =>
      rw [imfHdrs, if_neg more] at parsed
      split at parsed
      · cases parsed
      · rename_i found
        rw [failed] at found
        cases found
    | case4 token rest more hdr after found ih =>
      rw [imfHdrs, if_neg more] at parsed
      split at parsed
      · cases parsed
      · rename_i other left again
        rw [found] at again
        cases again
        obtain ⟨⟨later, last⟩, parsed, same⟩ := Option.map_eq_some_iff.mp parsed
        cases same
        obtain ⟨shapes, tail, rfl, rfl, separated⟩ := ih parsed
        obtain ⟨shape, rfl, whole, -⟩ := imfHdr_iff.mp found
        exact ⟨shape :: shapes, tail, rfl, by rw [whole, flatMap_cons, append_assoc], separated⟩
  · rintro ⟨shapes, tail, rfl, rfl, separated⟩
    induction shapes with
    | nil =>
      rcases separated with ⟨rfl, rfl⟩ | ⟨eol, rest, rfl, ends, rfl⟩
      · exact imfHdrs.eq_1
      · rw [flatMap_nil, nil_append, imfHdrs, if_pos ends]
        rfl
    | cons shape others ih =>
      have found : imfHdr (shape.tokens ++ (others.flatMap HdrShape.tokens ++ tail)) =
          some (shape.hdr, others.flatMap HdrShape.tokens ++ tail) :=
        imfHdr_iff.mpr ⟨shape, rfl, rfl, nextIs_ws_shapes others separated⟩
      rw [flatMap_cons, append_assoc]
      cases starts : shape.tokens ++ (others.flatMap HdrShape.tokens ++ tail) with
      | nil =>
        rw [starts] at found
        cases found
      | cons token rest =>
        have text : token.type = .text := by
          cases name : shape.name with
          | nil => exact absurd name shape.named
          | cons head more =>
            rw [HdrShape.tokens, name] at starts
            cases starts
            exact shape.nameText _ (name ▸ mem_cons_self)
        rw [starts] at found
        rw [imfHdrs, if_neg (by rw [text]; decide)]
        split
        · rename_i failed
          rw [found] at failed
          cases failed
        · rename_i hdr after again
          rw [found] at again
          cases again
          rw [ih]
          rfl

/-! ### The shape of a message -/

/-- A message with the headers, the separator and the body that the parser finds in it. -/
structure ImfShape (msg : Bytes) (imf : Imf) (shapes : List HdrShape) (rest : Bytes) : Prop where
  hdr : imf.hdr = shapes.map HdrShape.hdr
  bytes : msg = tokenBytes (shapes.flatMap HdrShape.tokens) ++ rest
  scanned : imfScan msg = shapes.flatMap HdrShape.tokens ++ imfScan rest
  separated : Separated (imfScan rest) imf.sep
  body : imf.body = rest.drop imf.sep.length

theorem hdrsLength_shapes (shapes : List HdrShape) :
    hdrsLength (shapes.map HdrShape.hdr) =
      (tokenBytes (shapes.flatMap HdrShape.tokens)).length := by
  induction shapes with
  | nil => rfl
  | cons shape others ih =>
    rw [flatMap_cons, tokenBytes_append, length_append, ← ih]
    rfl

theorem imfParse_iff {msg : Bytes} {imf : Imf} :
    imfParse msg = some imf ↔
      ∃ (shapes : List HdrShape) (rest : Bytes), ImfShape msg imf shapes rest := by
  unfold imfParse
  constructor
  · intro parsed
    obtain ⟨⟨hdrs, sep⟩, found, same⟩ := Option.map_eq_some_iff.mp parsed
    obtain ⟨shapes, tail, rfl, scanned, separated⟩ := imfHdrs_iff.mp found
    obtain ⟨rest, whole, rfl, -⟩ := imfScan_split scanned
    refine ⟨shapes, rest, ?_⟩
    cases same
    refine ⟨rfl, whole, scanned, separated, ?_⟩
    show msg.drop (hdrsLength (shapes.map HdrShape.hdr) + sep.length) = _
    rw [hdrsLength_shapes, whole, ← drop_drop, drop_left]
  · rintro ⟨shapes, rest, shape⟩
    have found : imfHdrs (imfScan msg) = some (imf.hdr, imf.sep) :=
      imfHdrs_iff.mpr ⟨shapes, imfScan rest, shape.hdr, shape.scanned, shape.separated⟩
    have body : msg.drop (hdrsLength imf.hdr + imf.sep.length) = imf.body := by
      rw [shape.hdr, hdrsLength_shapes, shape.body, ← drop_drop]
      conv_lhs => rw [shape.bytes]
      rw [drop_left]
    rw [found, Option.map_some]
    dsimp only
    rw [body]

namespace ImfShape

variable {msg : Bytes} {imf : Imf} {shapes : List HdrShape} {rest : Bytes}

theorem hdrsLength_eq (shape : ImfShape msg imf shapes rest) :
    hdrsLength imf.hdr = (tokenBytes (shapes.flatMap HdrShape.tokens)).length := by
  rw [shape.hdr, hdrsLength_shapes]

theorem scanned_of_mem (shape : ImfShape msg imf shapes rest) {token : ImfToken}
    (mem : token ∈ shapes.flatMap HdrShape.tokens) : token.Scanned :=
  scanned_of_mem_imfScan (shape.scanned ▸ mem_append_left _ mem)

end ImfShape

/-! ### Line ends among the headers -/

/-- A line end within a header is followed by a blank. -/
theorem HdrShape.chain (shape : HdrShape) :
    shape.tokens.IsChain fun token next => token.type = .eol → next.type = .ws := by
  have value : ∀ tokens : List ImfToken, Folded tokens →
      (tokens ++ [shape.eol]).IsChain fun token next => token.type = .eol → next.type = .ws := by
    intro tokens
    induction tokens with
    | nil => exact fun _ => isChain_singleton _
    | cons token rest ih =>
      rintro ⟨follows, folded⟩
      cases rest with
      | nil =>
        refine isChain_pair.mpr fun line => ?_
        cases follows line
      | cons next others =>
        refine isChain_cons_cons.mpr ⟨fun line => ?_, ih folded⟩
        exact of_decide_eq_true (follows line)
  have inLine : ∀ (tokens more : List ImfToken), (∀ token ∈ tokens, token.type ≠ .eol) →
      (more.IsChain fun token next => token.type = .eol → next.type = .ws) →
      (tokens ++ more).IsChain fun token next => token.type = .eol → next.type = .ws := by
    intro tokens more none chain
    induction tokens with
    | nil => exact chain
    | cons token rest ih =>
      rw [cons_append]
      refine isChain_cons.mpr ⟨fun next _ line => ?_, ?_⟩
      · exact absurd line (none token mem_cons_self)
      · exact ih fun other mem => none other (.tail _ mem)
  have shown : shape.tokens =
      (shape.name ++ shape.gap ++ [shape.colon]) ++ (shape.value ++ [shape.eol]) := by
    simp [HdrShape.tokens]
  rw [shown]
  refine inLine _ _ (fun token mem => ?_) (value _ shape.folded)
  rcases mem_append.mp mem with front | last
  · rcases mem_append.mp front with name | gap
    · rw [shape.nameText token name]
      decide
    · rw [shape.gapBlank token gap]
      decide
  · rw [mem_singleton.mp last, shape.colonType]
    decide

theorem chain_shapes (shapes : List HdrShape) :
    (shapes.flatMap HdrShape.tokens).IsChain
      fun token next => token.type = .eol → next.type ≠ .eol := by
  induction shapes with
  | nil => exact isChain_nil
  | cons shape others ih =>
    rw [flatMap_cons]
    refine isChain_append.mpr ⟨?_, ih, fun token _ next starts line => ?_⟩
    · refine shape.chain.imp fun token next blank line => ?_
      rw [blank line]
      decide
    · cases others with
      | nil => cases starts
      | cons head more =>
        cases name : head.name with
        | nil => exact absurd name head.named
        | cons begin others =>
          rw [flatMap_cons, HdrShape.tokens, name] at starts
          cases starts
          rw [head.nameText next (name ▸ mem_cons_self)]
          decide

theorem ImfToken.Scanned.type_eq (scanned : token.Scanned) {more tail : Bytes}
    (starts : token.bytes ++ more = byte :: tail) : token.type = imfByteType byte := by
  rcases scanned with ⟨byte, rfl⟩ | ⟨byte, next, pair, rfl⟩
  · cases starts
    rfl
  · cases starts
    refine (imfByteType_eol.mpr ?_).symm
    rcases eolPair_cases pair with ⟨same, -⟩ | ⟨same, -⟩
    · exact .inl same
    · exact .inr same

/-- What follows a line end token, as bytes. -/
theorem next_of_chain {follows : ImfToken → ImfToken → Prop} {tokens : List ImfToken}
    (scanned : ∀ other ∈ tokens, other.Scanned) (chain : (token :: tokens).IsChain follows)
    {tail : Bytes} (starts : tokenBytes tokens = byte :: tail) :
    ∃ next, follows token next ∧ next.type = imfByteType byte := by
  cases tokens with
  | nil => cases starts
  | cons next others =>
    exact ⟨next, (isChain_cons_cons.mp chain).1, (scanned next mem_cons_self).type_eq starts⟩

/-- Within a header, what follows a newline is a carriage return that belongs to it, or a blank. -/
theorem newline_in_hdr {tokens : List ImfToken} (scanned : ∀ token ∈ tokens, token.Scanned)
    (chain : tokens.IsChain fun token next => token.type = .eol → next.type = .ws)
    {front tail : Bytes} (found : tokenBytes tokens = front ++ 10 :: byte :: tail) :
    byte = 13 ∨ byte = 9 ∨ byte = 32 := by
  induction tokens generalizing front with
  | nil => exact absurd found.symm (by simp)
  | cons token rest ih =>
    have others : ∀ other ∈ rest, other.Scanned :=
      fun other mem => scanned other (.tail _ mem)
    have after : token.type = .eol → tokenBytes rest = byte :: tail →
        byte = 13 ∨ byte = 9 ∨ byte = 32 := by
      intro line starts
      obtain ⟨next, blank, type⟩ := next_of_chain others chain starts
      exact .inr (imfByteType_ws (type ▸ blank line))
    have later : ∀ front, tokenBytes rest = front ++ 10 :: byte :: tail →
        byte = 13 ∨ byte = 9 ∨ byte = 32 := fun front => ih others chain.tail
    rw [tokenBytes_cons] at found
    rcases scanned token mem_cons_self with ⟨char, rfl⟩ | ⟨char, next, pair, rfl⟩
    · cases front with
      | nil =>
        obtain ⟨rfl, more⟩ := cons.inj found
        exact after rfl more
      | cons begin front => exact later front (cons.inj found).2
    · rcases front with _ | ⟨begin, _ | ⟨second, front⟩⟩
      · obtain ⟨rfl, more⟩ := cons.inj found
        obtain ⟨rfl, -⟩ := cons.inj more
        rcases eolPair_cases pair with ⟨-, same⟩ | ⟨same, -⟩
        · exact .inl same
        · cases same
      · exact after rfl (cons.inj (cons.inj found).2).2
      · exact later front (cons.inj (cons.inj found).2).2

/-- Among headers, two bytes that end lines are one line end, and no third one follows. -/
theorem eols_in_hdrs {tokens : List ImfToken} (scanned : ∀ token ∈ tokens, token.Scanned)
    (chain : tokens.IsChain fun token next => token.type = .eol → next.type ≠ .eol)
    {front tail : Bytes} (here : imfByteType byte = .eol) (there : imfByteType next = .eol)
    (found : tokenBytes tokens = front ++ byte :: next :: tail) :
    eolPair byte next = true ∧ ∀ third more, tail = third :: more → imfByteType third ≠ .eol := by
  induction tokens generalizing front with
  | nil => exact absurd found.symm (by simp)
  | cons token rest ih =>
    have others : ∀ other ∈ rest, other.Scanned :=
      fun other mem => scanned other (.tail _ mem)
    have apart : ∀ {start : UInt8} {more : Bytes}, token.type = .eol →
        tokenBytes rest = start :: more → imfByteType start ≠ .eol := by
      intro start more line starts
      obtain ⟨follower, other, type⟩ := next_of_chain others chain starts
      exact type ▸ other line
    have later : ∀ front, tokenBytes rest = front ++ byte :: next :: tail →
        eolPair byte next = true ∧ ∀ third more, tail = third :: more → imfByteType third ≠ .eol :=
      fun front => ih others chain.tail
    rw [tokenBytes_cons] at found
    rcases scanned token mem_cons_self with ⟨char, rfl⟩ | ⟨char, second, pair, rfl⟩
    · cases front with
      | nil =>
        obtain ⟨rfl, more⟩ := cons.inj found
        exact absurd there (apart here more)
      | cons begin front => exact later front (cons.inj found).2
    · rcases front with _ | ⟨begin, _ | ⟨middle, front⟩⟩
      · obtain ⟨rfl, more⟩ := cons.inj found
        obtain ⟨rfl, ends⟩ := cons.inj more
        exact ⟨pair, fun third others starts => apart rfl (ends.trans starts)⟩
      · exact absurd there (apart rfl (cons.inj (cons.inj found).2).2)
      · exact later front (cons.inj (cons.inj found).2).2

end Splintermail
