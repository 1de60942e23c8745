/-
This file proves what the decrypter knows at every place of a text.

What was decoded so far is lines of metadata, and then the message. Before the message
begins the rest of what is decoded stays in the buffer; after that every byte has gone
through the library. The text that was read is the header, the lines of base64 and the
line of the tag. How the numbers of the metadata are spelled does not matter for this.
-/

import Splintermail.Crypto.Reading
import Splintermail.Crypto.RoundTrip

namespace Splintermail

open List

section

variable {Key SealCtx OpenCtx : Type} (evp : Evp Key SealCtx OpenCtx) (kp : Key)

/-! ### One line of base64 -/

/-- The buffer after a line of base64 is decoded into it. -/
def filledBuffer (dc : Decrypter OpenCtx) (piece : Bytes) : Bytes :=
  dc.buffer ++ (b642binStream (dc.base64 ++ piece)).1

/-- The passes through the loop of `decrypter_parse_metadata` for a line of base64. -/
def linePasses (dc : Decrypter OpenCtx) (piece : Bytes) : List Bytes :=
  match dc.ctx with
  | some _ => []
  | none => passes evp kp (filledBuffer dc piece).length dc.metadata (filledBuffer dc piece)

/-- Lines of metadata that were read, in buffers that are allowed. -/
def ReadAs (allowed : Bytes → Prop) (reads : List LineRead) : Prop :=
  ∀ read ∈ reads, read.1.Valid ∧ (read.1.isVersion = true ∨ allowed read.buffer)

/-- What the decrypter knows when some bytes are decoded. -/
inductive Decoded (allowed : Bytes → Prop) (decoded : Bytes) (dc : Decrypter OpenCtx)
    (out : Bytes) : Prop where
  | metadata (reads : List LineRead) (each : ReadAs allowed reads)
      (tells : Tells (evp.fingerprint kp) reads .start dc.metadata) (before : dc.ctx = none)
      (silent : out = []) (left : decoded = textOf reads ++ dc.buffer)
  | message (reads : List LineRead) (each : ReadAs allowed reads)
      (tells : Tells (evp.fingerprint kp) reads .start dc.metadata)
      (found : dc.metadata.versionFound = true ∧ dc.metadata.keyFound = true ∧
        dc.metadata.ivFound = true)
      (opened ctx : OpenCtx) (parts : List Bytes)
      (start : evp.openInit kp dc.metadata.encKey dc.metadata.iv = some opened)
      (run : evp.openRun opened parts = some (ctx, out)) (begun : dc.ctx = some ctx)
      (empty : dc.buffer = []) (left : decoded = textOf reads ++ (messageTag ++ parts.flatten))

variable {evp kp}

/-- One more part goes through the library. -/
theorem openRun_snoc {opened ctx after : OpenCtx} {parts : List Bytes} {out part text : Bytes}
    (run : evp.openRun opened parts = some (ctx, out))
    (update : evp.openUpdate ctx part = some (after, text)) :
    evp.openRun opened (parts ++ [part]) = some (after, out ++ text) := by
  rw [openRun_append, run, Option.bind_some, Evp.openRun, update]
  simp [Evp.openRun]

/-- The bytes that are decoded after the message has begun go through the library. -/
theorem Decoded.feed {allowed : Bytes → Prop} {decoded buffer : Bytes} {dc : Decrypter OpenCtx}
    {reads : List LineRead} {opened ctx : OpenCtx} {parts : List Bytes} {out : Bytes}
    {other : Derr → Prop}
    (each : ReadAs allowed reads) (tells : Tells (evp.fingerprint kp) reads .start dc.metadata)
    (found : dc.metadata.versionFound = true ∧ dc.metadata.keyFound = true ∧
      dc.metadata.ivFound = true)
    (start : evp.openInit kp dc.metadata.encKey dc.metadata.iv = some opened)
    (run : evp.openRun opened parts = some (ctx, out))
    (left : decoded = textOf reads ++ (messageTag ++ (parts.flatten ++ buffer))) :
    Outcome.Sat (if buffer = [] then .ok ({ dc with ctx := some ctx, buffer := [] }, out, false)
      else
        match evp.openUpdate ctx buffer with
        | none => .error ⟨.ssl, "EVP_OpenUpdate failed"⟩
        | some (ctx, text) => .ok ({ dc with ctx := some ctx, buffer := [] }, out ++ text, true) :
        Except Derr (Decrypter OpenCtx × Bytes × Bool))
      (fun (after, text, _) => Decoded evp kp allowed decoded after text ∧
        after.buffer.length ≤ decrypterSize)
      fun error => DecryptErr error.type ∨ other error := by
  split
  · next empty =>
    refine ⟨.message reads each tells found opened ctx parts start run rfl rfl ?_, Nat.zero_le _⟩
    rw [left, empty, append_nil]
  · cases update : evp.openUpdate ctx buffer with
    | none => exact .inl (.inr (.inl rfl))
    | some result =>
      obtain ⟨after, text⟩ := result
      refine ⟨.message reads each tells found opened after (parts ++ [buffer]) start
        (openRun_snoc run update) rfl rfl ?_, Nat.zero_le _⟩
      rw [left, flatten_append, flatten_cons, flatten_nil, append_nil]

/-- A line of base64, if the buffer has room for it. -/
theorem decrypterLine_sat {allowed : Bytes → Prop} {decoded piece out : Bytes}
    {dc : Decrypter OpenCtx} (inv : Decoded evp kp allowed decoded dc out)
    (fits : (filledBuffer dc piece).length ≤ decrypterSize)
    (each : ∀ pass ∈ linePasses evp kp dc piece, allowed pass) :
    Outcome.Sat (decrypterLine evp kp dc piece out) (fun (after, text, _) =>
        Decoded evp kp allowed (decoded ++ (b642binStream (dc.base64 ++ piece)).1) after text ∧
          after.buffer.length ≤ decrypterSize)
      fun error => DecryptErr error.type ∨
        error.type = .overread ∧ ∃ pass ∈ linePasses evp kp dc piece, Overlong pass := by
  have filled : dc.buffer ++ (b642binStream (dc.base64 ++ piece)).1 = filledBuffer dc piece := rfl
  unfold decrypterLine
  dsimp only
  rw [filled, if_neg (Nat.not_lt_of_le fits)]
  cases inv with
  | metadata reads sound tells before silent left =>
    rw [before]
    have passed : linePasses evp kp dc piece =
        passes evp kp (filledBuffer dc piece).length dc.metadata (filledBuffer dc piece) := by
      rw [linePasses, before]
    have parsed : Outcome.Sat (decrypterParseMetadata evp kp dc.metadata (filledBuffer dc piece)) _ _ :=
      parseMetadataFrom_sat _ dc.metadata fits
    dsimp only
    cases result : decrypterParseMetadata evp kp dc.metadata (filledBuffer dc piece) with
    | error error =>
      rw [result] at parsed
      rw [passed]
      exact parsed
    | ok state =>
    obtain ⟨metadata, opened, rest⟩ := state
    rw [result] at parsed
    obtain ⟨more, soundMore, told, text⟩ := parsed
    have both : ReadAs allowed (reads ++ more) := by
      intro read mem
      rcases mem_append.mp mem with earlier | later
      · exact sound read earlier
      · exact (soundMore read later).imp_right fun here =>
          here.imp_right fun pass => each _ (passed ▸ pass)
    have whole : decoded ++ (b642binStream (dc.base64 ++ piece)).1 =
        textOf reads ++ filledBuffer dc piece := by
      rw [left, append_assoc]
      rfl
    have spelled : textOf (reads ++ more) = textOf reads ++ textOf more := flatMap_append
    cases opened with
    | none =>
      refine ⟨.metadata (reads ++ more) both (tells.trans told) rfl silent ?_, ?_⟩
      · rw [whole, text, spelled, append_assoc]
      · refine Nat.le_trans ?_ fits
        rw [text, length_append]
        exact Nat.le_add_left _ _
    | some ctx =>
      obtain ⟨text, version, key, iv, opened⟩ := text
      have run : evp.openRun ctx [] = some (ctx, out) := by rw [silent]; rfl
      refine @Decoded.feed _ _ _ _ _ _ _ _
        { dc with base64 := (b642binStream (dc.base64 ++ piece)).2, metadata } _ _ _ _ _ _ both
        (tells.trans told) ⟨version, key, iv⟩ opened run ?_
      rw [whole, text, spelled, append_assoc]
      rfl
  | message reads sound tells found opened ctx parts start run begun empty left =>
    rw [begun]
    dsimp only
    refine @Decoded.feed _ _ _ _ _ _ _ _
      { dc with base64 := (b642binStream (dc.base64 ++ piece)).2 } _ _ _ _ _ _ sound tells found
      start run ?_
    rw [left, filledBuffer, empty, nil_append]
    simp only [append_assoc]

theorem filledBuffer_fits {dc after : Decrypter OpenCtx} {piece out text : Bytes} {goOn : Bool}
    (read : decrypterLine evp kp dc piece out = .ok (after, text, goOn)) :
    (filledBuffer dc piece).length ≤ decrypterSize := by
  refine Nat.le_of_not_lt fun long => ?_
  unfold decrypterLine at read
  dsimp only at read
  rw [if_pos (show decrypterSize < (dc.buffer ++ _).length from long)] at read
  exact absurd read nofun

theorem eq_pemHeader {header : Bytes} (size : header.length = pemHeader.length)
    (same : dstrCmp2 header pemHeader = 0) : header = pemHeader := by
  have nonempty : header ≠ [] := fun empty => by
    rw [empty] at size
    exact absurd size (by decide)
  rw [dstrCmp2_of_ne_nil nonempty, cmpChars_eq_zero] at same
  rcases same with equal | longer | shorter
  · exact equal
  · have bound := longer.length_le
    rw [length_append, size] at bound
    exact absurd bound (Nat.not_succ_le_self _)
  · have bound := shorter.length_le
    rw [length_append, size] at bound
    exact absurd bound (Nat.not_succ_le_self _)

theorem length_b642binStream_le (text : Bytes) : (b642binStream text).2.length ≤ text.length := by
  show (text.drop _).length ≤ _
  rw [length_drop]
  exact Nat.sub_le _ _

theorem decodeLines_snoc (lines : List Bytes) (piece : Bytes) :
    decodeLines (lines ++ [piece]) =
      ((decodeLines lines).1 ++ (b642binStream ((decodeLines lines).2 ++ piece)).1,
        (b642binStream ((decodeLines lines).2 ++ piece)).2) := by
  unfold decodeLines
  rw [foldl_append]
  rfl

/-! ### The whole text -/

namespace Reading

variable (evp kp)

/-- Each pass for the next line of base64 is in a buffer that is allowed. -/
def Allows (allowed : Bytes → Prop) (reading : Reading OpenCtx) : Prop :=
  ∀ piece, reading.nextPiece = some piece → piece.head? ≠ some 61 →
    ∀ pass ∈ linePasses evp kp reading.dc piece, allowed pass

/-- What is known at a place of a text. -/
inductive Progress (allowed : Bytes → Prop) (text : Bytes) : Reading OpenCtx → Prop
  | unread : Progress allowed text (start text)
  | headed (dc : Decrypter OpenCtx) (out : Bytes) (lines : List Bytes) (rest : Bytes)
      (found : dc.headerFound = true) (untagged : dc.tagFound = false) (noTag : dc.tag = [])
      (room : dc.base64.length ≤ decrypterSize) (small : dc.buffer.length ≤ decrypterSize)
      (left : dc.base64 = (decodeLines lines).2)
      (decoded : Decoded evp kp allowed (decodeLines lines).1 dc out)
      (whole : text = pemHeader ++ (lines.flatten ++ rest)) :
      Progress allowed text ⟨dc, out, lines, [], rest⟩
  | tagged (dc : Decrypter OpenCtx) (out : Bytes) (lines : List Bytes) (tagLine rest : Bytes)
      (found : dc.headerFound = true) (done : dc.tagFound = true) (begins : tagLine.head? = some 61)
      (tag : dc.tag = (b642binStream (tagLine.drop 1)).1) (short : dc.tag.length ≤ 16)
      (clean : dc.base64 = []) (small : dc.buffer.length ≤ decrypterSize)
      (decoded : Decoded evp kp allowed (decodeLines lines).1 dc out)
      (whole : text = pemHeader ++ (lines.flatten ++ (tagLine ++ rest))) :
      Progress allowed text ⟨dc, out, lines, tagLine, rest⟩

variable {evp kp} {allowed : Bytes → Prop} {text : Bytes} {reading : Reading OpenCtx}

theorem Progress.decoded (progress : Progress evp kp allowed text reading) :
    Decoded evp kp allowed (decodeLines reading.lines).1 reading.dc reading.out := by
  cases progress with
  | unread => exact .metadata [] nofun (.refl _ _) rfl rfl rfl
  | headed dc out lines rest found untagged noTag room small left decoded => exact decoded
  | tagged dc out lines tagLine rest found done begins tag short clean small decoded =>
    exact decoded

/-- A step keeps what is known. -/
theorem Progress.step {later : Reading OpenCtx} (progress : Progress evp kp allowed text reading)
    (advances : Advances evp kp reading later) (allows : Allows evp kp allowed reading) :
    Progress evp kp allowed text later := by
  cases advances with
  | header header rest unread begins size same =>
    cases progress with
    | unread =>
      refine .headed _ _ _ _ rfl rfl rfl (Nat.zero_le _) (Nat.zero_le _) rfl ?_ ?_
      · exact .metadata [] nofun (.refl _ _) rfl rfl rfl
      · rw [eq_pemHeader size same] at begins
        exact begins
    | headed dc out lines rest found => exact absurd (unread.symm.trans found) nofun
    | tagged dc out lines tagLine rest found => exact absurd (unread.symm.trans found) nofun
  | line piece rest dc out goOn next begins plain read =>
    obtain ⟨headed, untagged, -, fits⟩ := nextPiece_fits next
    cases progress with
    | unread => exact absurd headed nofun
    | tagged dc out lines tagLine rest found done => exact absurd (done.symm.trans untagged) nofun
    | headed before text lines all found open_ noTag room small left decoded whole =>
      obtain ⟨sameHeader, sameTag, tag, base64⟩ := decrypterLine_frame read
      have result := decrypterLine_sat decoded (filledBuffer_fits read) (allows piece next plain)
      obtain ⟨after, short⟩ := result.of_ok read
      rw [left] at after base64
      refine .headed dc out _ rest (sameHeader.trans found) (sameTag.trans untagged)
        (tag.trans noTag) ?_ short ?_ ?_ ?_
      · rw [base64, ← left]
        refine Nat.le_trans (length_b642binStream_le _) ?_
        rw [length_append]
        exact fits
      · rw [base64, decodeLines_snoc]
      · rw [decodeLines_snoc]
        exact after
      · dsimp only at begins
        rw [whole, begins, flatten_append, flatten_cons, flatten_nil, append_nil, append_assoc]
  | tag piece rest dc next begins tagged read =>
    obtain ⟨headed, untagged, -, fits⟩ := nextPiece_fits next
    cases progress with
    | unread => exact absurd headed nofun
    | tagged dc out lines tagLine rest found done => exact absurd (done.symm.trans untagged) nofun
    | headed before text lines all found open_ noTag room small left decoded whole =>
      have short := decrypterTag_short read
      obtain rfl := (decrypterTag_sat before piece).of_ok read
      refine .tagged _ _ lines piece rest found rfl tagged ?_ short rfl small ?_ ?_
      · show before.tag ++ _ = _
        rw [noTag, nil_append, dstrSub_rest]
      · cases decoded with
        | metadata reads each tells before silent left =>
          exact .metadata reads each tells before silent left
        | message reads each tells found opened ctx parts start run begun empty left =>
          exact .message reads each tells found opened ctx parts start run begun empty left
      · dsimp only at begins
        rw [whole, begins]

/-- So does a run. -/
theorem Progress.run (reached : Reaches evp kp (start text) reading)
    (allows : ∀ earlier, Reaches evp kp (start text) earlier → Allows evp kp allowed earlier) :
    Progress evp kp allowed text reading := by
  induction reached with
  | refl => exact .unread
  | tail reached advances ih =>
    exact ih.step advances (allows _ reached)

end Reading

end

end Splintermail
