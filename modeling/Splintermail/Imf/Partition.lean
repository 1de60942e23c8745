/-
This file proves that the header and the body of a message make up the message, with every header
line in its place, and says when the headers that are read chunk by chunk are the same.

That the ranges are consecutive follows from how they are found; that they are the same in a part
of a larger buffer follows as a parser only knows where it began. A reading finds other ranges as
soon as one token of the headers is broken: then the ends of the headers do not agree.
-/

import Splintermail.Imf.Chunks

namespace Splintermail

open List

/-! ### What the server answers -/

/-- `copy_hdr_fields` -/
def copyHdrFields (msg : Bytes) (hdrs : HdrsOff) (names : List Bytes) : Bytes :=
  (hdrs.hdr.flatMap fun hdr =>
    if names.any fun name => dstrIcmp2 (hdr.name.text msg) name = 0 then hdr.bytes.text msg else [])
    -- include any post-header separator line
    ++ hdrs.sep.text msg

/-- `copy_hdr_fields_not` -/
def copyHdrFieldsNot (msg : Bytes) (hdrs : HdrsOff) (names : List Bytes) : Bytes :=
  (hdrs.hdr.flatMap fun hdr =>
    let keep := !names.any fun name => dstrIcmp2 (hdr.name.text msg) name = 0
    if keep then hdr.bytes.text msg else [])
    -- include any post-header separator line
    ++ hdrs.sep.text msg

/-- The sections of a message that are asked for without a part. -/
inductive SectTxt where
  | text
  | header
  | hdrFlds (names : List Bytes)
  | hdrFldsNot (names : List Bytes)

section Loader

variable (asks : Bytes → Bytes → Nat) (reading : ImfReading)

/-- `loader_parse_hdrs`, on a message that is not parsed yet: what cannot be parsed is one big
body. -/
def loaderParseHdrs : HdrsOff := (imfHdrsParse asks reading).getD ⟨⟨0, 0⟩, ⟨0, 0⟩, []⟩

/-- `imf_parse`, where the whole message is read first. -/
def imfParseOff (msg : Bytes) (hdrs : Option HdrsOff) : Option ImfOff := doImfParse msg 0 none hdrs

/-- What `build_fetch_resp_extra` answers for a section of the whole message. -/
def bodySection : Option SectTxt → Option Bytes
  | none => some reading.text
  | some .header => some ((loaderParseHdrs asks reading).bytes.text reading.text)
  | some (.hdrFlds names) =>
    some (copyHdrFields reading.text (loaderParseHdrs asks reading) names)
  | some (.hdrFldsNot names) =>
    some (copyHdrFieldsNot reading.text (loaderParseHdrs asks reading) names)
  | some .text =>
    (imfParseOff reading.text (some (loaderParseHdrs asks reading))).map fun imf =>
      imf.body.text reading.text

end Loader

/-! ### What is promised -/

/-- The ranges begin at a place and each where the one before it ends. -/
def Consecutive : Nat → List ByteOff → Nat → Prop
  | start, [], fin => start = fin
  | start, off :: rest, fin => off.start = start ∧ Consecutive off.fin rest fin

/-- The headers and the body are the message, and the lines and the separator are the headers. -/
structure Partitioned (msg : Bytes) (imf : ImfOff) : Prop where
  whole : imf.hdrs.bytes.text msg ++ imf.body.text msg = msg
  ranges : imf.hdrs.bytes.start = 0 ∧
    Consecutive 0 (imf.hdrs.hdr.map HdrOff.bytes ++ [imf.hdrs.sep]) imf.hdrs.bytes.fin
  lines : (imf.hdrs.hdr.flatMap fun hdr => hdr.bytes.text msg) ++ imf.hdrs.sep.text msg =
    imf.hdrs.bytes.text msg

/-- The name of a header is among some names. -/
def hdrNamed (msg : Bytes) (names : List Bytes) (hdr : HdrOff) : Bool :=
  names.any fun name => dstrIcmp2 (hdr.name.text msg) name = 0

/-- The header section and the text section are the message, and of two complementary lists of
fields each has its lines in their order, with the separator. -/
structure SectionsAgree (asks : Bytes → Bytes → Nat) (reading : ImfReading) : Prop where
  header_text : ∃ header text, bodySection asks reading (some .header) = some header ∧
    bodySection asks reading (some .text) = some text ∧
      bodySection asks reading none = some (header ++ text)
  fields : ∀ names, ∃ lines others sep : Bytes,
    lines = (((loaderParseHdrs asks reading).hdr.filter (hdrNamed reading.text names)).flatMap
      fun hdr => hdr.bytes.text reading.text) ∧
    others = (((loaderParseHdrs asks reading).hdr.filter
      fun hdr => !hdrNamed reading.text names hdr).flatMap fun hdr => hdr.bytes.text reading.text) ∧
    bodySection asks reading (some (.hdrFlds names)) = some (lines ++ sep) ∧
    bodySection asks reading (some (.hdrFldsNot names)) = some (others ++ sep)

/-- The same ranges, further back in the buffer. -/
def HdrOff.shift (by_ : Nat) (hdr : HdrOff) : HdrOff :=
  ⟨hdr.bytes.shift by_, hdr.name.shift by_, hdr.value.shift by_⟩

def HdrsOff.shift (by_ : Nat) (hdrs : HdrsOff) : HdrsOff :=
  ⟨hdrs.bytes.shift by_, hdrs.sep.shift by_, hdrs.hdr.map (HdrOff.shift by_)⟩

def ImfOff.shift (by_ : Nat) (imf : ImfOff) : ImfOff :=
  ⟨imf.bytes.shift by_, imf.hdrs.shift by_, imf.body.shift by_⟩

/-- A part of a larger buffer is parsed as a message of its own is. -/
def SameInside (msg : Bytes) (imf : ImfOff) : Prop :=
  ∀ bytes : ByteRange, bytes.text = msg →
    imfParseSub bytes none = some (imf.shift bytes.start) ∧
      imfHdrsParseSub bytes = some (imf.hdrs.shift bytes.start)

/-! ### Ranges and their texts -/

theorem ByteOff.text_append (msg : Bytes) {first middle last : Nat} (one : first ≤ middle)
    (two : middle ≤ last) :
    ByteOff.text ⟨first, middle - first⟩ msg ++ ByteOff.text ⟨middle, last - middle⟩ msg =
      ByteOff.text ⟨first, last - first⟩ msg := by
  simp only [ByteOff.text, dstrSub2, Nat.add_sub_cancel' one, Nat.add_sub_cancel' two,
    Nat.add_sub_cancel' (one.trans two), drop_take]
  have back : msg.drop middle = (msg.drop first).drop (middle - first) := by
    rw [drop_drop, Nat.add_sub_cancel' one]
  have length : last - first = (middle - first) + (last - middle) := by omega
  rw [back, length, take_add]

theorem Consecutive.start_le {offs : List ByteOff} : ∀ {start fin : Nat}, Consecutive start offs fin →
    start ≤ fin := by
  induction offs with
  | nil => exact fun same => Nat.le_of_eq same
  | cons off rest ih =>
    rintro start fin ⟨begins, later⟩
    exact begins ▸ (Nat.le_add_right _ _).trans (ih later)

theorem Consecutive.text {offs : List ByteOff} (msg : Bytes) : ∀ {start fin : Nat},
    Consecutive start offs fin →
      (offs.flatMap fun off => off.text msg) = ByteOff.text ⟨start, fin - start⟩ msg := by
  induction offs with
  | nil =>
    rintro start fin rfl
    simp [ByteOff.text, dstrSub2]
  | cons off rest ih =>
    rintro start fin ⟨rfl, later⟩
    have whole := ByteOff.text_append msg (Nat.le_add_right off.start off.len) later.start_le
    rw [Nat.add_sub_cancel_left] at whole
    rw [flatMap_cons, ih later]
    exact whole

theorem consecutive_offsFrom (start : Nat) (shapes : List HdrShape) (sep : Bytes) :
    Consecutive start ((offsFrom start shapes).map HdrOff.bytes ++
        [⟨start + tokensLength (shapes.flatMap HdrShape.tokens), sep.length⟩])
      (start + (tokensLength (shapes.flatMap HdrShape.tokens) + sep.length)) := by
  induction shapes generalizing start with
  | nil => exact ⟨rfl, by simp [Consecutive, ByteOff.fin]⟩
  | cons shape others ih =>
    have later := ih (start + tokensLength shape.tokens)
    rw [flatMap_cons, tokensLength_append]
    refine ⟨rfl, ?_⟩
    simp only [Nat.add_assoc] at later ⊢
    exact later

variable {hdrs : HdrsOff} {imf : ImfOff}

theorem whole_of_start (msg : Bytes) (start : hdrs.bytes.start = 0)
    (parsed : imfParseOff msg (some hdrs) = some imf) :
    imf.hdrs = hdrs ∧ hdrs.bytes.text msg ++ imf.body.text msg = msg := by
  rw [imfParseOff, doImfParse] at parsed
  cases parsed
  refine ⟨rfl, ?_⟩
  simp only [ByteOff.text, dstrSub2, start, Nat.zero_add, Option.getD_none, drop_zero]
  have enough : msg.length ≤ hdrs.bytes.len + (msg.length - hdrs.bytes.len) := by omega
  rw [take_of_length_le enough, take_append_drop]

theorem partitioned_of_parsed {msg : Bytes} (parsed : imfParseOff msg none = some imf) :
    Partitioned msg imf := by
  rw [imfParseOff, doImfParse] at parsed
  obtain ⟨hdrs, found, same⟩ := Option.map_eq_some_iff.mp parsed
  obtain ⟨shapes, tail, sep, tokens, separated, rfl⟩ := doImfHdrsParse_iff.mp found
  have again : imfParseOff msg (some (hdrsFrom 0 shapes sep)) = some imf := same ▸ rfl
  obtain ⟨hdrs, whole⟩ := whole_of_start msg rfl again
  have ranges := consecutive_offsFrom 0 shapes sep
  refine ⟨hdrs ▸ whole, ?_, ?_⟩
  · rw [hdrs]
    exact ⟨rfl, ranges⟩
  · have lines := ranges.text msg
    rw [flatMap_append, flatMap_singleton, flatMap_map] at lines
    rw [hdrs]
    simpa [hdrsFrom] using lines

/-! ### Headers that are read in chunks -/

/-- Two fronts of the same tokens that span the same length are the same. -/
theorem append_inj_of_tokensLength {front back other rest : List ImfToken}
    (positive : ∀ token ∈ front ++ back, 0 < token.bytes.length)
    (same : front ++ back = other ++ rest) (length : tokensLength front = tokensLength other) :
    front = other ∧ back = rest := by
  rcases append_eq_append_iff.mp same with ⟨more, rfl, rfl⟩ | ⟨more, rfl, rfl⟩
  · cases more with
    | nil => simp
    | cons token others =>
      have inside := positive token (by simp)
      simp only [tokensLength_append, tokensLength_cons] at length
      omega
  · cases more with
    | nil => simp
    | cons token others =>
      have inside := positive token (by simp)
      simp only [tokensLength_append, tokensLength_cons] at length
      omega

/-- Where nothing is broken the headers are the same. -/
theorem imfHdrsParse_unbroken {asks : Bytes → Bytes → Nat} {reading : ImfReading}
    (asking : ∀ scanned, 1 ≤ asks scanned []) (given : reading.Given)
    (accepted : doImfHdrsParse 0 (imfScan reading.text) = some hdrs)
    (unbroken : UnbrokenUpTo asks reading hdrs.bytes.len) :
    imfHdrsParse asks reading = some hdrs := by
  obtain ⟨shapes, tail, sep, tokens, separated, rfl⟩ := doImfHdrsParse_iff.mp accepted
  rcases separated with ⟨rfl, rfl⟩ | ⟨eol, rest, rfl, ends, rfl⟩
  · obtain ⟨other, same, none⟩ := imfScanChunks_agrees asking given tokens
      fun view mem before => unbroken view mem (by simpa [hdrsFrom] using before)
    obtain rfl := none rfl
    exact doImfHdrsParse_iff.mpr ⟨shapes, [], [], same, Or.inl ⟨rfl, rfl⟩, rfl⟩
  · have front : imfScan reading.text = (shapes.flatMap HdrShape.tokens ++ [eol]) ++ rest := by
      rw [tokens, append_assoc]
      rfl
    obtain ⟨other, same, -⟩ := imfScanChunks_agrees asking given front
      fun view mem before => unbroken view mem (by simpa [hdrsFrom] using before)
    rw [append_assoc] at same
    exact doImfHdrsParse_iff.mpr
      ⟨shapes, eol :: other, eol.bytes, same, Or.inr ⟨eol, other, rfl, ends, rfl⟩, rfl⟩

theorem Separated.length_le {tail : List ImfToken} {sep : Bytes} (separated : Separated tail sep) :
    sep.length ≤ tokensLength tail := by
  rcases separated with ⟨rfl, rfl⟩ | ⟨eol, rest, rfl, -, rfl⟩
  · exact le_rfl
  · rw [tokensLength_cons]
    exact Nat.le_add_right _ _

/-- A line end of two bytes is not seen as two line ends where the headers are the same. -/
theorem not_cut_of_same {before rest first : List ImfToken} {second : ImfToken} {byte next : UInt8}
    {shapes others : List HdrShape} {tail end_ : List ImfToken} {sep mark : Bytes}
    (positive : ∀ token ∈ before ++ ⟨.eol, [byte, next]⟩ :: rest, 0 < token.bytes.length)
    (type : second.type = .eol)
    (whole : before ++ ⟨.eol, [byte, next]⟩ :: rest = shapes.flatMap HdrShape.tokens ++ tail)
    (cut : before ++ ⟨.eol, [byte]⟩ :: second :: first = others.flatMap HdrShape.tokens ++ end_)
    (separated : Separated tail sep) (ended : Separated end_ mark)
    (length : tokensLength (shapes.flatMap HdrShape.tokens) =
      tokensLength (others.flatMap HdrShape.tokens))
    (marks : sep.length = mark.length)
    (inside : tokensLength before < tokensLength (others.flatMap HdrShape.tokens) + mark.length) :
    False := by
  -- the separator is not cut in two
  have separator (heads : before = others.flatMap HdrShape.tokens)
      (tails : end_ = ⟨.eol, [byte]⟩ :: second :: first) : False := by
    obtain ⟨-, same⟩ := append_inj_of_tokensLength positive whole (length.symm ▸ heads ▸ rfl)
    rcases ended with ⟨rfl, -⟩ | ⟨eol, others, rfl, -, rfl⟩
    · simp at tails
    · rcases separated with ⟨rfl, -⟩ | ⟨line, more, rfl, -, rfl⟩
      · simp at same
      · simp only [cons.injEq] at tails same
        rw [← same.1, tails.1] at marks
        simp at marks
  rcases append_eq_append_iff.mp cut with ⟨more, heads, tails⟩ | ⟨more, heads, tails⟩
  · rcases more with _ | ⟨token, more⟩
    · exact separator (by simpa using heads.symm) (by simpa using tails.symm)
    · rw [cons_append, cons.injEq] at tails
      obtain ⟨rfl, tails⟩ := tails
      rw [heads] at length
      rcases more with _ | ⟨token, more⟩
      · -- a header ends between the two bytes
        simp only [tokensLength_append, tokensLength_cons, tokensLength_nil, length_singleton,
          Nat.add_zero] at length
        rcases append_eq_append_iff.mp whole with ⟨part, place, left⟩ | ⟨part, place, left⟩
        · rw [place, tokensLength_append] at length
          rcases part with _ | ⟨line, part⟩
          · simp at length
          · rw [cons_append, cons.injEq] at left
            rw [tokensLength_cons, ← left.1] at length
            simp only [length_cons, length_nil] at length
            omega
        · rw [place, tokensLength_append] at length
          omega
      · -- no line end follows another among headers
        rw [cons_append, cons.injEq] at tails
        obtain ⟨rfl, -⟩ := tails
        have chain := chain_shapes others
        rw [heads] at chain
        have pair := (isChain_append.mp chain).2.1
        exact (isChain_cons_cons.mp pair).1 rfl type
  · rcases more with _ | ⟨token, more⟩
    · exact separator (by simpa using heads) (by simpa using tails)
    · -- the separator was before
      rw [cons_append] at tails
      rcases ended with ⟨rfl, -⟩ | ⟨eol, others, rfl, -, rfl⟩
      · simp at tails
      · simp only [cons.injEq] at tails
        rw [heads, tokensLength_append, tokensLength_cons, ← tails.1] at inside
        omega

/-- Where the headers are the same nothing was broken. -/
theorem unbroken_of_same {asks : Bytes → Bytes → Nat} {reading : ImfReading}
    (asking : ∀ scanned, 1 ≤ asks scanned []) (given : reading.Given)
    (accepted : doImfHdrsParse 0 (imfScan reading.text) = some hdrs)
    (same : imfHdrsParse asks reading = some hdrs) : UnbrokenUpTo asks reading hdrs.bytes.len := by
  intro view mem before broken
  obtain ⟨shapes, tail, sep, tokens, separated, rfl⟩ := doImfHdrsParse_iff.mp accepted
  obtain ⟨others, last, mark, chunks, ended, equal⟩ := doImfHdrsParse_iff.mp same
  simp only [hdrsFrom, HdrsOff.mk.injEq, ByteOff.mk.injEq, true_and, Nat.zero_add] at equal before
  obtain ⟨-, ⟨length, marks⟩, -⟩ := equal
  obtain ⟨front, place, outcome⟩ :=
    imfScanChunks_breaks asking (imfScan reading.text) given rfl mem broken
  simp only [length_nil, Nat.zero_add] at place
  have inside := place.trans_lt before
  rw [length, marks] at inside
  rcases outcome with stopped | ⟨byte, next, second, first, rest, type, whole, cut⟩
  · have spans := ended.length_le
    rw [← stopped, chunks, tokensLength_append] at inside
    omega
  · have positive : ∀ token ∈ front ++ ⟨.eol, [byte, next]⟩ :: rest, 0 < token.bytes.length :=
      fun token inText => (scanned_of_mem_imfScan (whole ▸ inText)).length_pos
    exact not_cut_of_same positive type (whole.symm.trans tokens) (cut.symm.trans chunks) separated
      ended length marks inside

/-! ### A part of a larger buffer -/

theorem offsFrom_shift (start : Nat) (shapes : List HdrShape) (by_ : Nat) :
    offsFrom (by_ + start) shapes = (offsFrom start shapes).map (HdrOff.shift by_) := by
  induction shapes generalizing start with
  | nil => rfl
  | cons shape others ih =>
    rw [offsFrom, offsFrom, map_cons, Nat.add_assoc, ih]
    simp [HdrShape.off, HdrOff.shift, ByteOff.shift, Nat.add_assoc]

theorem doImfHdrsParse_shift {tokens : List ImfToken} (parsed : doImfHdrsParse 0 tokens = some hdrs)
    (by_ : Nat) : doImfHdrsParse by_ tokens = some (hdrs.shift by_) := by
  obtain ⟨shapes, tail, sep, whole, separated, rfl⟩ := doImfHdrsParse_iff.mp parsed
  refine doImfHdrsParse_iff.mpr ⟨shapes, tail, sep, whole, separated, ?_⟩
  have offs := offsFrom_shift 0 shapes by_
  simp only [Nat.add_zero] at offs
  simp [hdrsFrom, HdrsOff.shift, ByteOff.shift, offs]

theorem sameInside_of_parsed {msg : Bytes} (parsed : imfParseOff msg none = some imf) :
    SameInside msg imf := by
  rintro bytes rfl
  rw [imfParseOff, doImfParse] at parsed
  obtain ⟨hdrs, found, rfl⟩ := Option.map_eq_some_iff.mp parsed
  have scanned : dstrSub2 bytes.text 0 bytes.text.length = bytes.text := by
    simp [dstrSub2]
  simp only [scanned] at found
  have inside : dstrSub2 bytes.buf bytes.start (bytes.start + bytes.len) = bytes.text := by
    rw [dstrSub2, ByteRange.text, drop_take, Nat.add_sub_cancel_left]
  have shifted := doImfHdrsParse_shift found bytes.start
  refine ⟨?_, shifted⟩
  rw [imfParseSub, doImfParse]
  simp only [inside, shifted, Option.map_some, Option.getD_some, Option.getD_none]
  have length : bytes.text.length = bytes.len := by
    rw [ByteRange.text, length_take, length_drop]
    exact Nat.min_eq_left (Nat.le_sub_of_add_le (Nat.add_comm _ _ ▸ bytes.inside))
  simp [ImfOff.shift, HdrsOff.shift, ByteOff.shift, length, Nat.add_assoc]

/-! ### What is answered -/

theorem loaderParseHdrs_start (asks : Bytes → Bytes → Nat) (reading : ImfReading) :
    (loaderParseHdrs asks reading).bytes.start = 0 := by
  rw [loaderParseHdrs]
  cases parsed : imfHdrsParse asks reading with
  | none => rfl
  | some hdrs =>
    obtain ⟨shapes, tail, sep, -, -, rfl⟩ := doImfHdrsParse_iff.mp parsed
    rfl

theorem flatMap_filter_hdr (keep : HdrOff → Bool) (text : HdrOff → Bytes) (hdrs : List HdrOff) :
    (hdrs.flatMap fun hdr => if keep hdr then text hdr else []) =
      (hdrs.filter keep).flatMap text := by
  induction hdrs with
  | nil => rfl
  | cons hdr rest ih =>
    rw [flatMap_cons, ih, filter_cons]
    split_ifs
    · rfl
    · rfl

theorem sectionsAgree (asks : Bytes → Bytes → Nat) (reading : ImfReading) :
    SectionsAgree asks reading where
  header_text := by
    obtain ⟨-, whole⟩ := whole_of_start reading.text (loaderParseHdrs_start asks reading) rfl
    exact ⟨_, _, rfl, rfl, congrArg some whole.symm⟩
  fields names := by
    refine ⟨_, _, (loaderParseHdrs asks reading).sep.text reading.text, rfl, rfl, ?_, ?_⟩
    · rw [bodySection, copyHdrFields, ← flatMap_filter_hdr]
      rfl
    · rw [bodySection, copyHdrFieldsNot, ← flatMap_filter_hdr]
      rfl

/-- The message is partitioned, and its headers are found again in every reading of it, if and
only if the reading breaks no token of them. -/
theorem headers_read_iff {asks : Bytes → Bytes → Nat} {reading : ImfReading} {imf : ImfOff}
    (asking : ∀ scanned, 1 ≤ asks scanned []) (given : reading.Given)
    (accepted : imfParseOff reading.text none = some imf) :
    (Partitioned reading.text imf ∧ SectionsAgree asks reading ∧ SameInside reading.text imf ∧
        imfHdrsParse asks reading = some imf.hdrs) ↔
      UnbrokenUpTo asks reading imf.hdrs.bytes.len := by
  have found : doImfHdrsParse 0 (imfScan reading.text) = some imf.hdrs := by
    rw [imfParseOff, doImfParse] at accepted
    obtain ⟨hdrs, found, rfl⟩ := Option.map_eq_some_iff.mp accepted
    simpa [dstrSub2] using found
  constructor
  · rintro ⟨-, -, -, same⟩
    exact unbroken_of_same asking given found same
  · intro unbroken
    exact ⟨partitioned_of_parsed accepted, sectionsAgree asks reading,
      sameInside_of_parsed accepted, imfHdrsParse_unbroken asking given found unbroken⟩

/-- A scanner that asks within a word when nothing is left, and at the start of a token when less
than the longest keyword is left. -/
def asksOf (scanned loaded : Bytes) : Nat :=
  (if scanned.getLast?.any (fun char => 97 ≤ char && char ≤ 122) && loaded.isEmpty then 1 else 0) +
    if loaded.length < (ascii "multipart").length then 1 else 0

theorem asksOf_nil (scanned : Bytes) : 1 ≤ asksOf scanned [] := Nat.le_add_left 1 _

/-- A message with one header, read in two chunks. -/
def briefReading : ImfReading := ⟨ascii "a:b", [ascii "\r\n\r\nc"]⟩

/-- The ranges of the message. -/
def briefImf : ImfOff :=
  ⟨⟨0, 8⟩, ⟨⟨0, 7⟩, ⟨5, 2⟩, [⟨⟨0, 5⟩, ⟨0, 1⟩, ⟨2, 1⟩⟩]⟩, ⟨7, 1⟩⟩

theorem headers_read_iff_brief :
    (Partitioned briefReading.text briefImf ∧ SectionsAgree asksOf briefReading ∧
        SameInside briefReading.text briefImf ∧
        imfHdrsParse asksOf briefReading = some briefImf.hdrs) ↔
      UnbrokenUpTo asksOf briefReading briefImf.hdrs.bytes.len :=
  headers_read_iff asksOf_nil (by simp [ImfReading.Given, briefReading, ascii]) (by decide +kernel)

/-- Read byte by byte, the line end behind the headers is taken for two. -/
theorem headers_read_broken :
    imfParseOff (ascii "a:b\r\n\r\nc") none = some briefImf ∧
      imfHdrsParse asksOf ⟨[], (ascii "a:b\r\n\r\nc").map fun char => [char]⟩ =
        some ⟨⟨0, 6⟩, ⟨5, 1⟩, [⟨⟨0, 5⟩, ⟨0, 1⟩, ⟨2, 1⟩⟩]⟩ := by
  decide +kernel

end Splintermail
