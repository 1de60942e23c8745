/-
This file models the ranges of the first pass over an email message: `dstr_off_t`, the actions of
the grammar in `imf.in` that make ranges, and `do_imf_hdrs_parse` and `do_imf_parse` around them.

No text is copied: what is found are offsets into the buffer, and a range is extended from its
first token to its last. As each token begins where the one before it ended, the ranges are
those of the texts that the other model of the grammar finds.
-/

import Splintermail.Imf.Hdrs
import Splintermail.Imf.Multipart

namespace Splintermail

open List

/-! ### Ranges -/

/-- A `dstr_off_t` of a buffer that is known. -/
structure ByteOff where
  start : Nat
  len : Nat
  deriving DecidableEq, Repr

namespace ByteOff

/-- The end of a range. -/
def fin (off : ByteOff) : Nat := off.start + off.len

/-- `dstr_off_extend` -/
def extend (first last : ByteOff) : ByteOff := ⟨first.start, (last.start - first.start) + last.len⟩

/-- `dstr_from_off` -/
def text (off : ByteOff) (buf : Bytes) : Bytes := dstrSub2 buf off.start (off.start + off.len)

/-- The same range, further back in the buffer. -/
def shift (by_ : Nat) (off : ByteOff) : ByteOff := ⟨by_ + off.start, off.len⟩

end ByteOff

/-- A token with its `dstr_off_t`. -/
structure OffToken where
  type : ImfTokenType
  off : ByteOff
  deriving DecidableEq, Repr

/-- The `token_out` of the calls of `imf_scan`: a token begins where the one before it ended. -/
def locateTokens : Nat → List ImfToken → List OffToken
  | _, [] => []
  | start, token :: rest =>
    ⟨token.type, start, token.bytes.length⟩ :: locateTokens (start + token.bytes.length) rest

/-! ### The grammar -/

/-- The next token is of some kind. -/
def nextOffIs (type : ImfTokenType) (tokens : List OffToken) : Bool :=
  tokens.head?.any fun token => token.type = type

/-- `imf_hdr_t` -/
structure HdrOff where
  bytes : ByteOff
  name : ByteOff
  value : ByteOff
  deriving DecidableEq, Repr

/-- `imf_hdrs_t` -/
structure HdrsOff where
  bytes : ByteOff
  sep : ByteOff
  hdr : List HdrOff
  deriving DecidableEq, Repr

/-- `imf_t` -/
structure ImfOff where
  bytes : ByteOff
  hdrs : HdrsOff
  body : ByteOff
  deriving DecidableEq, Repr

/-- The location of a nonterminal: that of its first token, extended by each that follows. -/
def spanOff (zero : ByteOff) : List OffToken → ByteOff
  | [] => zero
  | token :: rest => rest.foldl (fun loc next => loc.extend next.off) token.off

/-- `xunstruct EOL *(WS xunstruct EOL)`, where `@v` is extended by each part of the value. As an
extension only looks at where the last part ends, it is extended by the folds as well. -/
def valueOff (v : ByteOff) : List OffToken → Option (ByteOff × OffToken × List OffToken)
  | [] => none
  | token :: rest =>
    if token.type = .eol ∧ nextOffIs .ws rest = false then some (v, token, rest)
    else valueOff (v.extend token.off) rest

/-- The rule `hdr`. An empty value begins where the colon ends. -/
def hdrOff (tokens : List OffToken) : Option (HdrOff × List OffToken) :=
  let name := tokens.takeWhile fun token => token.type = .text
  let named := tokens.dropWhile fun token => token.type = .text
  match named.dropWhile fun token => token.type = .ws with
  | [] => none
  | colon :: rest =>
    if name ≠ [] ∧ colon.type = .colon then
      (valueOff ⟨colon.off.fin, 0⟩ rest).map fun (v, eol, after) =>
        let n := spanOff colon.off name
        (⟨n.extend eol.off, n, v⟩, after)
    else none

theorem length_valueOff_lt {v value : ByteOff} {tokens after : List OffToken} {eol : OffToken}
    (parsed : valueOff v tokens = some (value, eol, after)) : after.length < tokens.length := by
  induction tokens generalizing v with
  | nil => cases parsed
  | cons token rest ih =>
    rw [valueOff] at parsed
    split_ifs at parsed
    · cases parsed
      exact Nat.lt_succ_self _
    · exact Nat.lt_succ_of_lt (ih parsed)

theorem length_hdrOff_lt {tokens after : List OffToken} {hdr : HdrOff}
    (parsed : hdrOff tokens = some (hdr, after)) : after.length < tokens.length := by
  rw [hdrOff] at parsed
  dsimp only at parsed
  have named := (dropWhile_suffix (l := tokens) fun token => decide (token.type = .text)).length_le
  have gap := (dropWhile_suffix (l := tokens.dropWhile fun token => token.type = .text)
    fun token => decide (token.type = .ws)).length_le
  split at parsed
  · cases parsed
  · rename_i colon rest shape
    rw [shape, length_cons] at gap
    split_ifs at parsed
    obtain ⟨⟨v, eol, left⟩, found, same⟩ := Option.map_eq_some_iff.mp parsed
    obtain ⟨-, rfl⟩ := Prod.mk.inj same
    exact (length_valueOff_lt found).trans (gap.trans named)

/-- `hdrs_0 eoh`. The token for the end of the bytes is where they end. -/
def hdrsOff (start : Nat) (tokens : List OffToken) : Option (List HdrOff × ByteOff) :=
  match tokens with
  | [] => some ([], ⟨start, 0⟩)
  | token :: rest =>
    if token.type = .eol then some ([], token.off)
    else
      match parsed : hdrOff (token :: rest) with
      | none => none
      | some (hdr, after) =>
        (hdrsOff hdr.bytes.fin after).map fun (hdrs, sep) => (hdr :: hdrs, sep)
  termination_by tokens.length
  decreasing_by exact length_hdrOff_lt parsed

/-- `do_imf_hdrs_parse`, with a scanner that begins at `start` and makes the tokens. -/
def doImfHdrsParse (start : Nat) (tokens : List ImfToken) : Option HdrsOff :=
  (hdrsOff start (locateTokens start tokens)).map fun (hdr, sep) =>
    let list := (hdr.map HdrOff.bytes).foldl ByteOff.extend ⟨start, 0⟩
    ⟨list.extend sep, sep, hdr⟩

/-- `do_imf_parse` -/
def doImfParse (msg : Bytes) (startIdx : Nat) (fixedLength : Option Nat) (hdrs : Option HdrsOff) :
    Option ImfOff :=
  let hdrs := match hdrs with
    | some hdrs => some hdrs
    -- haven't parsed headers yet
    | none =>
      let fin := match fixedLength with
        | some len => startIdx + len
        | none => msg.length
      doImfHdrsParse startIdx (imfScan (dstrSub2 msg startIdx fin))
  hdrs.map fun hdrs =>
    -- we either use the submsg length or the length of the whole msg buffer
    let msgLen := fixedLength.getD msg.length
    { bytes := ⟨hdrs.bytes.start, msgLen⟩
      hdrs
      body := ⟨hdrs.bytes.start + hdrs.bytes.len, msgLen - hdrs.bytes.len⟩ }

/-- `imf_parse_sub`, for bytes that are in the buffer. -/
def imfParseSub (bytes : ByteRange) (hdrs : Option HdrsOff) : Option ImfOff :=
  doImfParse bytes.buf bytes.start (some bytes.len) hdrs

/-- `imf_hdrs_parse_sub` -/
def imfHdrsParseSub (bytes : ByteRange) : Option HdrsOff :=
  doImfHdrsParse bytes.start (imfScan bytes.text)

/-! ### What is found -/

/-- The length of the text of some tokens. -/
def tokensLength (tokens : List ImfToken) : Nat := (tokenBytes tokens).length

@[simp] theorem tokensLength_nil : tokensLength [] = 0 := rfl

@[simp] theorem tokensLength_cons (token : ImfToken) (rest : List ImfToken) :
    tokensLength (token :: rest) = token.bytes.length + tokensLength rest := by
  simp [tokensLength]

@[simp] theorem tokensLength_append (front back : List ImfToken) :
    tokensLength (front ++ back) = tokensLength front + tokensLength back := by
  simp [tokensLength]

theorem nextOffIs_locate (type : ImfTokenType) (start : Nat) (tokens : List ImfToken) :
    nextOffIs type (locateTokens start tokens) = nextIs type tokens := by
  cases tokens <;> rfl

theorem takeWhile_locate (type : ImfTokenType) (start : Nat) (tokens : List ImfToken) :
    (locateTokens start tokens).takeWhile (fun token => token.type = type) =
        locateTokens start (tokens.takeWhile fun token => token.type = type) ∧
      (locateTokens start tokens).dropWhile (fun token => token.type = type) =
        locateTokens (start + tokensLength (tokens.takeWhile fun token => token.type = type))
          (tokens.dropWhile fun token => token.type = type) := by
  induction tokens generalizing start with
  | nil => exact ⟨rfl, rfl⟩
  | cons token rest ih =>
    obtain ⟨taken, dropped⟩ := ih (start + token.bytes.length)
    rw [locateTokens]
    by_cases same : token.type = type
    · rw [takeWhile_cons_of_pos (by simp [same]), takeWhile_cons_of_pos (by simp [same]),
        dropWhile_cons_of_pos (by simp [same]), dropWhile_cons_of_pos (by simp [same]),
        taken, dropped, locateTokens, tokensLength_cons, Nat.add_assoc]
      exact ⟨rfl, rfl⟩
    · rw [takeWhile_cons_of_neg (by simp [same]), takeWhile_cons_of_neg (by simp [same]),
        dropWhile_cons_of_neg (by simp [same]), dropWhile_cons_of_neg (by simp [same])]
      exact ⟨rfl, rfl⟩

theorem foldl_extend_locate (loc : ByteOff) (tokens : List ImfToken) :
    (locateTokens loc.fin tokens).foldl (fun loc next => loc.extend next.off) loc =
      ⟨loc.start, loc.len + tokensLength tokens⟩ := by
  induction tokens generalizing loc with
  | nil => rfl
  | cons token rest ih =>
    have extended : loc.extend ⟨loc.fin, token.bytes.length⟩ =
        ⟨loc.start, loc.len + token.bytes.length⟩ := by
      simp [ByteOff.extend, ByteOff.fin]
    have fin : loc.fin + token.bytes.length =
        (⟨loc.start, loc.len + token.bytes.length⟩ : ByteOff).fin := by
      simp [ByteOff.fin, Nat.add_assoc]
    rw [locateTokens, foldl_cons, extended, fin, ih, tokensLength_cons, Nat.add_assoc]

theorem spanOff_locate {tokens : List ImfToken} (some : tokens ≠ []) (zero : ByteOff)
    (start : Nat) : spanOff zero (locateTokens start tokens) = ⟨start, tokensLength tokens⟩ := by
  cases tokens with
  | nil => exact absurd rfl some
  | cons token rest =>
    rw [locateTokens, spanOff, tokensLength_cons]
    exact foldl_extend_locate ⟨start, token.bytes.length⟩ rest

theorem valueOff_locate (v : ByteOff) (tokens : List ImfToken) :
    valueOff v (locateTokens v.fin tokens) = (imfValue tokens).map fun (value, eol, after) =>
      (⟨v.start, v.len + tokensLength value⟩,
        ⟨eol.type, v.fin + tokensLength value, eol.bytes.length⟩,
        locateTokens (v.fin + tokensLength value + eol.bytes.length) after) := by
  induction tokens generalizing v with
  | nil => rfl
  | cons token rest ih =>
    have extended : v.extend ⟨v.fin, token.bytes.length⟩ =
        ⟨v.start, v.len + token.bytes.length⟩ := by simp [ByteOff.extend, ByteOff.fin]
    have fin : v.fin + token.bytes.length =
        (⟨v.start, v.len + token.bytes.length⟩ : ByteOff).fin := by
      simp [ByteOff.fin, Nat.add_assoc]
    rw [locateTokens, valueOff, imfValue, nextOffIs_locate]
    by_cases ends : token.type = .eol ∧ nextIs .ws rest = false
    · rw [if_pos ends, if_pos ends]
      rfl
    · rw [if_neg ends, if_neg ends, extended, fin, ih, Option.map_map]
      congr 1
      funext parts
      obtain ⟨value, eol, after⟩ := parts
      simp [ByteOff.fin, Nat.add_assoc]

namespace HdrShape

/-- The ranges of a header that begins at some place. -/
def off (shape : HdrShape) (start : Nat) : HdrOff where
  bytes := ⟨start, tokensLength shape.tokens⟩
  name := ⟨start, tokensLength shape.name⟩
  value := ⟨start + tokensLength (shape.name ++ shape.gap ++ [shape.colon]),
    tokensLength shape.value⟩

end HdrShape

/-- The ranges of headers, one behind the other. -/
def offsFrom (start : Nat) : List HdrShape → List HdrOff
  | [] => []
  | shape :: rest => shape.off start :: offsFrom (start + tokensLength shape.tokens) rest

theorem hdrOff_isSome (start : Nat) (tokens : List ImfToken) :
    (hdrOff (locateTokens start tokens)).isSome = (imfHdr tokens).isSome := by
  obtain ⟨name, named⟩ := takeWhile_locate .text start tokens
  obtain ⟨-, gapped⟩ := takeWhile_locate .ws
    (start + tokensLength (tokens.takeWhile fun token => token.type = .text))
    (tokens.dropWhile fun token => token.type = .text)
  rw [hdrOff, imfHdr]
  dsimp only
  rw [name, named, gapped]
  cases (tokens.dropWhile fun token => token.type = .text).dropWhile
      fun token => decide (token.type = .ws) with
  | nil => rfl
  | cons colon rest =>
    have same (tokens : List ImfToken) : locateTokens start tokens = [] ↔ tokens = [] := by
      cases tokens <;> simp [locateTokens]
    rw [locateTokens]
    simp only [ne_eq, same]
    split_ifs
    · have value := valueOff_locate
        ⟨(start + tokensLength (tokens.takeWhile fun token => token.type = .text)) +
          tokensLength ((tokens.dropWhile fun token => token.type = .text).takeWhile
            fun token => token.type = .ws) + colon.bytes.length, 0⟩ rest
      simp only [ByteOff.fin, Nat.add_zero] at value ⊢
      rw [value]
      simp
    · rfl

theorem hdrOff_shape (shape : HdrShape) (start : Nat) {after : List ImfToken}
    (unfolded : nextIs .ws after = false) :
    hdrOff (locateTokens start (shape.tokens ++ after)) =
      some (shape.off start, locateTokens (start + tokensLength shape.tokens) after) := by
  obtain ⟨name, named, gap, gapped⟩ := shape.spans after
  obtain ⟨nameOff, namedOff⟩ := takeWhile_locate .text start (shape.tokens ++ after)
  obtain ⟨-, gappedOff⟩ := takeWhile_locate .ws (start + tokensLength shape.name)
    (shape.gap ++ shape.colon :: (shape.value ++ shape.eol :: after))
  have value : imfValue (shape.value ++ shape.eol :: after) = some (shape.value, shape.eol, after) :=
    imfValue_iff.mpr ⟨rfl, shape.folded, shape.eolType, unfolded⟩
  have valued := valueOff_locate
    ⟨start + tokensLength shape.name + tokensLength shape.gap + shape.colon.bytes.length, 0⟩
    (shape.value ++ shape.eol :: after)
  rw [value] at valued
  rw [hdrOff]
  dsimp only
  rw [nameOff, namedOff, name, named, gappedOff, gap, gapped, locateTokens]
  dsimp only
  have some : locateTokens start shape.name ≠ [] := by
    cases tokens : shape.name with
    | nil => exact absurd tokens shape.named
    | cons token rest => simp [locateTokens]
  rw [if_pos ⟨some, shape.colonType⟩]
  simp only [ByteOff.fin, Nat.add_zero] at valued ⊢
  rw [valued]
  simp only [spanOff_locate shape.named, HdrShape.off, HdrShape.tokens, ByteOff.extend,
    Option.map_some, Option.some.injEq, Prod.mk.injEq, HdrOff.mk.injEq, ByteOff.mk.injEq,
    tokensLength_append, tokensLength_cons, tokensLength_nil, Nat.add_zero, Nat.zero_add, true_and,
    and_true]
  refine ⟨⟨?_, ?_⟩, congrArg (locateTokens · after) ?_⟩ <;> omega

theorem hdrsOff_cons {start : Nat} {token : OffToken} {rest after : List OffToken} {hdr : HdrOff}
    (more : token.type ≠ .eol) (found : hdrOff (token :: rest) = some (hdr, after)) :
    hdrsOff start (token :: rest) =
      (hdrsOff hdr.bytes.fin after).map fun (hdrs, sep) => (hdr :: hdrs, sep) := by
  rw [hdrsOff, if_neg more]
  split
  · rename_i failed
    rw [found] at failed
    cases failed
  · rename_i again
    rw [found] at again
    cases again
    rfl

theorem hdrsOff_cons_none {start : Nat} {token : OffToken} {rest : List OffToken}
    (more : token.type ≠ .eol) (failed : hdrOff (token :: rest) = none) :
    hdrsOff start (token :: rest) = none := by
  rw [hdrsOff, if_neg more]
  split
  · rfl
  · rename_i found
    rw [failed] at found
    cases found

theorem HdrShape.tokens_cons (shape : HdrShape) :
    ∃ token rest, shape.tokens = token :: rest ∧ token.type = .text := by
  cases name : shape.name with
  | nil => exact absurd name shape.named
  | cons token rest =>
    refine ⟨token, _, by rw [HdrShape.tokens, name]; rfl, ?_⟩
    exact shape.nameText token (name ▸ mem_cons_self)

/-- The headers that are found are where their texts are. -/
theorem hdrsOff_shapes (start : Nat) (shapes : List HdrShape) {tail : List ImfToken} {sep : Bytes}
    (separated : Separated tail sep) :
    hdrsOff start (locateTokens start (shapes.flatMap HdrShape.tokens ++ tail)) =
      some (offsFrom start shapes,
        ⟨start + tokensLength (shapes.flatMap HdrShape.tokens), sep.length⟩) := by
  induction shapes generalizing start with
  | nil =>
    rcases separated with ⟨rfl, rfl⟩ | ⟨eol, rest, rfl, ends, rfl⟩
    · rw [flatMap_nil, nil_append, locateTokens, hdrsOff]
      rfl
    · rw [flatMap_nil, nil_append, locateTokens, hdrsOff, if_pos ends]
      rfl
  | cons shape others ih =>
    have found := hdrOff_shape shape start (nextIs_ws_shapes others separated)
    obtain ⟨token, rest, whole, text⟩ := shape.tokens_cons
    rw [flatMap_cons, append_assoc]
    have next := ih (start + tokensLength shape.tokens)
    rw [whole] at next
    rw [whole, cons_append, locateTokens] at found ⊢
    rw [hdrsOff_cons (by simp [text]) found]
    have fin : (shape.off start).bytes.fin = start + tokensLength shape.tokens := rfl
    rw [fin, offsFrom, whole, next, Option.map_some, tokensLength_append, Nat.add_assoc]

/-- A range is found exactly where a text is found. -/
theorem hdrsOff_isSome (start : Nat) (tokens : List ImfToken) :
    (hdrsOff start (locateTokens start tokens)).isSome = (imfHdrs tokens).isSome := by
  cases parsed : imfHdrs tokens with
  | some found =>
    obtain ⟨hdrs, sep⟩ := found
    obtain ⟨shapes, tail, -, rfl, separated⟩ := imfHdrs_iff.mp parsed
    rw [hdrsOff_shapes start shapes separated]
    rfl
  | none =>
    induction tokens using imfHdrs.induct generalizing start with
    | case1 => simp [imfHdrs] at parsed
    | case2 token rest ends => simp [imfHdrs, ends] at parsed
    | case3 token rest more failed =>
      have same := hdrOff_isSome start (token :: rest)
      rw [failed, Option.isSome_none, Option.isSome_eq_false_iff, Option.isNone_iff_eq_none,
        locateTokens] at same
      rw [locateTokens, hdrsOff_cons_none more same]
      rfl
    | case4 token rest more hdr after found ih =>
      have later : imfHdrs after = none := by
        rw [imfHdrs, if_neg more] at parsed
        split at parsed
        · rename_i failed
          rw [failed] at found
          cases found
        · rename_i again
          rw [found] at again
          cases again
          exact Option.map_eq_none_iff.mp parsed
      obtain ⟨shape, -, whole, unfolded⟩ := imfHdr_iff.mp found
      have located := hdrOff_shape shape start unfolded
      rw [← whole, locateTokens] at located
      rw [locateTokens, hdrsOff_cons more located, Option.isSome_map]
      exact ih (start + tokensLength shape.tokens) later

/-! ### What is parsed -/

/-- The ranges of some headers that begin at some place, with their separator. -/
def hdrsFrom (start : Nat) (shapes : List HdrShape) (sep : Bytes) : HdrsOff :=
  let len := tokensLength (shapes.flatMap HdrShape.tokens)
  { bytes := ⟨start, len + sep.length⟩
    sep := ⟨start + len, sep.length⟩
    hdr := offsFrom start shapes }

theorem foldl_extend_offsFrom (loc : ByteOff) (shapes : List HdrShape) :
    ((offsFrom loc.fin shapes).map HdrOff.bytes).foldl ByteOff.extend loc =
      ⟨loc.start, loc.len + tokensLength (shapes.flatMap HdrShape.tokens)⟩ := by
  induction shapes generalizing loc with
  | nil => rfl
  | cons shape others ih =>
    have extended : loc.extend ⟨loc.fin, tokensLength shape.tokens⟩ =
        ⟨loc.start, loc.len + tokensLength shape.tokens⟩ := by
      simp [ByteOff.extend, ByteOff.fin]
    have fin : loc.fin + tokensLength shape.tokens =
        (⟨loc.start, loc.len + tokensLength shape.tokens⟩ : ByteOff).fin := by
      simp [ByteOff.fin, Nat.add_assoc]
    rw [offsFrom, map_cons, foldl_cons, HdrShape.off, extended, fin,
      ih, flatMap_cons, tokensLength_append, Nat.add_assoc]

/-- The headers are found exactly in the texts of the shape of the grammar. -/
theorem doImfHdrsParse_iff {start : Nat} {tokens : List ImfToken} {hdrs : HdrsOff} :
    doImfHdrsParse start tokens = some hdrs ↔
      ∃ (shapes : List HdrShape) (tail : List ImfToken) (sep : Bytes),
        tokens = shapes.flatMap HdrShape.tokens ++ tail ∧ Separated tail sep ∧
          hdrs = hdrsFrom start shapes sep := by
  have computes (shapes : List HdrShape) {tail : List ImfToken} {sep : Bytes}
      (separated : Separated tail sep) :
      doImfHdrsParse start (shapes.flatMap HdrShape.tokens ++ tail) =
        some (hdrsFrom start shapes sep) := by
    have list := foldl_extend_offsFrom ⟨start, 0⟩ shapes
    rw [ByteOff.fin] at list
    rw [doImfHdrsParse, hdrsOff_shapes start shapes separated, Option.map_some]
    dsimp only
    rw [Nat.add_zero] at list
    rw [list]
    simp [hdrsFrom, ByteOff.extend]
  constructor
  · intro parsed
    have some : (imfHdrs tokens).isSome = true := by
      rw [← hdrsOff_isSome start tokens]
      obtain ⟨found, outcome, -⟩ := Option.map_eq_some_iff.mp parsed
      rw [outcome]
      rfl
    obtain ⟨⟨texts, sep⟩, found⟩ := Option.isSome_iff_exists.mp some
    obtain ⟨shapes, tail, -, rfl, separated⟩ := imfHdrs_iff.mp found
    rw [computes shapes separated] at parsed
    exact ⟨shapes, tail, sep, rfl, separated, (Option.some.inj parsed).symm⟩
  · rintro ⟨shapes, tail, sep, rfl, separated, rfl⟩
    exact computes shapes separated

end Splintermail
