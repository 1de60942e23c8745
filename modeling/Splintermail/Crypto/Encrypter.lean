/-
This file models the encrypter of `crypto.c`: `encrypter_start`, `encrypter_update` and
`encrypter_finish`, over the envelope functions of OpenSSL as a parameter.

The encrypter writes one stream of bytes, the metadata followed by the encrypted
message, as base64 in lines. However the message is cut into calls, the text is the
text of that stream between the two PEM lines, with the tag on a line of its own.
-/

import Splintermail.Dstr.Base64
import Splintermail.Dstr.Find

namespace Splintermail

open List

/-! ### The envelope functions -/

/-- The envelope functions of OpenSSL: `EVP_SealInit` makes the encrypted keys and the initialization
vector, with its random choices fixed, and the rest work on a context. -/
structure Evp (Key SealCtx OpenCtx : Type) where
  fingerprint : Key → Bytes
  blockSize : Nat
  sealInit : List Key → List Bytes × Bytes × SealCtx
  sealUpdate : SealCtx → Bytes → SealCtx × Bytes
  sealFinal : SealCtx → Bytes × Bytes
  openInit : Key → Bytes → Bytes → Option OpenCtx
  openUpdate : OpenCtx → Bytes → Option (OpenCtx × Bytes)
  openFinal : OpenCtx → Bytes → Option Bytes

namespace Evp

variable {Key SealCtx OpenCtx : Type} (evp : Evp Key SealCtx OpenCtx)

/-- Encrypting a message piece by piece. -/
def sealRun : SealCtx → List Bytes → SealCtx × Bytes
  | ctx, [] => (ctx, [])
  | ctx, piece :: rest =>
    let first := evp.sealUpdate ctx piece
    let more := sealRun first.1 rest
    (more.1, first.2 ++ more.2)

/-- The encrypted message and its tag. -/
def sealAll (ctx : SealCtx) (pieces : List Bytes) : Bytes × Bytes :=
  let run := evp.sealRun ctx pieces
  (run.2 ++ (evp.sealFinal run.1).1, (evp.sealFinal run.1).2)

/-- Decrypting a message piece by piece. -/
def openRun : OpenCtx → List Bytes → Option (OpenCtx × Bytes)
  | ctx, [] => some (ctx, [])
  | ctx, piece :: rest => do
    let first ← evp.openUpdate ctx piece
    let more ← openRun first.1 rest
    return (more.1, first.2 ++ more.2)

/-- What the code relies on. Sealing and opening are inverse however the message and its encryption
are cut, and in the counter mode that is used an encryption is as long as its message. A fingerprint
is a SHA-256 digest, and tells keys apart. -/
structure Lawful : Prop where
  fingerprint_length : ∀ key, (evp.fingerprint key).length = 32
  fingerprint_injective : Function.Injective evp.fingerprint
  eks_length : ∀ keys, (evp.sealInit keys).1.length = keys.length
  ek_ne_nil : ∀ keys, ∀ ek ∈ (evp.sealInit keys).1, ek ≠ []
  iv_length : ∀ keys, (evp.sealInit keys).2.1.length = 12
  tag_length : ∀ ctx, (evp.sealFinal ctx).2.length = 16
  seal_length : ∀ keys pieces,
    (evp.sealAll (evp.sealInit keys).2.2 pieces).1.length = pieces.flatten.length
  opens : ∀ keys key ek, (key, ek) ∈ keys.zip (evp.sealInit keys).1 → ∀ pieces parts,
    parts.flatten = (evp.sealAll (evp.sealInit keys).2.2 pieces).1 →
      ∃ start ctx front last, evp.openInit key ek (evp.sealInit keys).2.1 = some start ∧
        evp.openRun start parts = some (ctx, front) ∧
        evp.openFinal ctx (evp.sealAll (evp.sealInit keys).2.2 pieces).2 = some last ∧
        front ++ last = pieces.flatten

end Evp

/-! ### The text of the message -/

/-- `pem_header` -/
def pemHeader : Bytes := ascii "-----BEGIN SPLINTERMAIL MESSAGE-----"

/-- `pem_footer` -/
def pemFooter : Bytes := ascii "-----END SPLINTERMAIL MESSAGE-----"

/-- `FU` in a string of bytes. -/
def fmtBytes (value : Nat) : Bytes := (fmtUint value).map fun char => .ofNat char.toNat

/-- `V:1`: the version. -/
def versionLine : Bytes := ascii "V:" ++ fmtBytes 1 ++ [10]

/-- A field with its length before it and a byte after it. -/
def countedBytes (field : Bytes) (stop : UInt8) : Bytes :=
  fmtBytes field.length ++ 58 :: (field ++ [stop])

/-- `R:`: a recipient and the key that is encrypted to it. -/
def recipientLine (fingerprint ek : Bytes) : Bytes :=
  ascii "R:" ++ countedBytes fingerprint 58 ++ countedBytes ek 10

/-- `IV:`: the initialization vector. -/
def ivLine (iv : Bytes) : Bytes := ascii "IV:" ++ countedBytes iv 10

/-- `M:`: what follows is the message. -/
def messageTag : Bytes := ascii "M:"

/-! ### The encrypter -/

/-- `MAX_ENCRYPTER_PUBKEYS` -/
def maxEncrypterPubkeys : Nat := 128

/-- The size of `pre64`. -/
def pre64Size : Nat := 1024

/-- `encrypter_t` while a message is written. -/
structure Encrypter (SealCtx : Type) where
  ctx : SealCtx
  pre64 : Bytes

/-- `FMT` into `pre64`, which is of a fixed size and holds a terminator as well, and the flush of
`pre64` after it: what is left of `pre64`, and the output. -/
def dumpLine (pre64 out line : Bytes) : Except Derr (Bytes × Bytes) :=
  if pre64.length + line.length + 1 ≤ pre64Size then
    let stream := bin2b64Stream (pre64 ++ line) 64 false
    .ok (stream.2, out ++ stream.1)
  else .error ⟨.fixedsize, "_fmt_quiet failed"⟩

/-- Writing lines one after the other. -/
def dumpLines : Bytes → Bytes → List Bytes → Except Derr (Bytes × Bytes)
  | pre64, out, [] => .ok (pre64, out)
  | pre64, out, line :: rest =>
    match dumpLine pre64 out line with
    | .error error => .error error
    | .ok (pre64, out) => dumpLines pre64 out rest

section

variable {Key SealCtx OpenCtx : Type} (evp : Evp Key SealCtx OpenCtx)

/-- The texts that `encrypter_start` formats: the version, a line for each recipient, and the
initialization vector with the beginning of the message. -/
def metadataTexts (keys : List Key) : List Bytes :=
  versionLine ::
    ((keys.zip (evp.sealInit keys).1).map (fun (key, ek) => recipientLine (evp.fingerprint key) ek) ++
      [ivLine (evp.sealInit keys).2.1 ++ messageTag])

/-- `encrypter_start` -/
def encrypterStart (keys : List Key) (out : Bytes) : Except Derr (Encrypter SealCtx × Bytes) :=
  if maxEncrypterPubkeys < keys.length then
    .error ⟨.fixedsize, "too many pubkeys to encrypt to"⟩
  else
    match dumpLines [] (out ++ pemHeader ++ [10]) (metadataTexts evp keys) with
    | .error error => .error error
    | .ok (pre64, out) => .ok (⟨(evp.sealInit keys).2.2, pre64⟩, out)

/-- The chunk that one call of `EVP_SealUpdate` is given at most. -/
def sealChunkSize : Nat := pre64Size - 48 - evp.blockSize + 1

/-- `encrypter_update` -/
def encrypterUpdate (ec : Encrypter SealCtx) (input out : Bytes) : Encrypter SealCtx × Bytes :=
  if input = [] then (ec, out)
  else
    let (ctx, encrypted) := evp.sealUpdate ec.ctx (input.take (sealChunkSize evp))
    let stream := bin2b64Stream (ec.pre64 ++ encrypted) 64 false
    encrypterUpdate ⟨ctx, stream.2⟩ (input.drop (sealChunkSize evp)) (out ++ stream.1)
  termination_by input.length
  decreasing_by
    rw [length_drop]
    have positive := length_pos_iff.mpr ‹_›
    unfold sealChunkSize
    omega

/-- `encrypter_finish` -/
def encrypterFinish (ec : Encrypter SealCtx) (out : Bytes) : Bytes :=
  let (encrypted, tag) := evp.sealFinal ec.ctx
  out ++ (bin2b64Stream (ec.pre64 ++ encrypted) 64 true).1 ++
    61 :: ((bin2b64Stream tag 0 true).1 ++ [10]) ++ pemFooter ++ [10]

/-- A message that is encrypted in several calls. -/
def encrypt (keys : List Key) (chunks : List Bytes) : Except Derr Bytes :=
  match encrypterStart evp keys [] with
  | .error error => .error error
  | .ok (ec, out) =>
    let updated := chunks.foldl (fun (ec, out) chunk => encrypterUpdate evp ec chunk out) (ec, out)
    .ok (encrypterFinish evp updated.1 updated.2)

/-! ### What the encrypter writes -/

/-- Lines that fit into `pre64` after the bytes that the lines before leave in it. -/
def linesFit : Nat → List Bytes → Prop
  | _, [] => True
  | left, line :: rest =>
    left + line.length + 1 ≤ pre64Size ∧ linesFit ((left + line.length) % 48) rest

/-- The text of a tag, and of the footer. -/
def tagText (tag : Bytes) : Bytes := 61 :: (b64Encode tag ++ [10]) ++ pemFooter ++ [10]

/-- Lines that fit are written, and what is left of them continues the text. -/
theorem dumpLines_ok {lines : List Bytes} {pre64 : Bytes} (out : Bytes)
    (fit : linesFit pre64.length lines) :
    ∃ left text, dumpLines pre64 out lines = .ok (left, out ++ text) ∧
      ∀ more, b64Lines (pre64 ++ lines.flatten ++ more) = text ++ b64Lines (left ++ more) := by
  induction lines generalizing pre64 out with
  | nil =>
    refine ⟨pre64, [], ?_, fun more => ?_⟩
    · rw [dumpLines, append_nil]
    · rw [flatten_nil, append_nil, nil_append]
  | cons line rest ih =>
    obtain ⟨here, later⟩ := fit
    rw [← length_append, ← length_bin2b64Stream] at later
    obtain ⟨left, text, written, same⟩ :=
      ih (out ++ (bin2b64Stream (pre64 ++ line) 64 false).1) later
    refine ⟨left, (bin2b64Stream (pre64 ++ line) 64 false).1 ++ text, ?_, fun more => ?_⟩
    · rw [dumpLines, dumpLine, if_pos here, ← append_assoc]
      exact written
    · have first := bin2b64Stream_lines (pre64 ++ line) (rest.flatten ++ more)
      rw [flatten_cons]
      simp only [append_assoc] at first same ⊢
      rw [first, same]

theorem dumpLines_error {lines : List Bytes} {pre64 : Bytes} (out : Bytes)
    (fit : ¬linesFit pre64.length lines) :
    dumpLines pre64 out lines = .error ⟨.fixedsize, "_fmt_quiet failed"⟩ := by
  induction lines generalizing pre64 out with
  | nil => exact absurd trivial fit
  | cons line rest ih =>
    rw [dumpLines, dumpLine]
    by_cases here : pre64.length + line.length + 1 ≤ pre64Size
    · rw [if_pos here]
      refine ih _ ?_
      rw [length_bin2b64Stream, length_append]
      exact fun later => fit ⟨here, later⟩
    · rw [if_neg here]

theorem sealRun_append (ctx : SealCtx) (front back : List Bytes) :
    evp.sealRun ctx (front ++ back) =
      ((evp.sealRun (evp.sealRun ctx front).1 back).1,
        (evp.sealRun ctx front).2 ++ (evp.sealRun (evp.sealRun ctx front).1 back).2) := by
  induction front generalizing ctx with
  | nil => rfl
  | cons piece rest ih =>
    rw [cons_append, Evp.sealRun, ih, Evp.sealRun]
    simp

/-- One call encrypts its input in pieces. -/
theorem encrypterUpdate_spec (ec : Encrypter SealCtx) (input out : Bytes) :
    ∃ pieces text, pieces.flatten = input ∧
      (encrypterUpdate evp ec input out).2 = out ++ text ∧
      (encrypterUpdate evp ec input out).1.ctx = (evp.sealRun ec.ctx pieces).1 ∧
      ∀ more, b64Lines (ec.pre64 ++ (evp.sealRun ec.ctx pieces).2 ++ more) =
        text ++ b64Lines ((encrypterUpdate evp ec input out).1.pre64 ++ more) := by
  induction ec, input, out using encrypterUpdate.induct evp with
  | case1 ec out =>
    rw [encrypterUpdate, if_pos rfl]
    exact ⟨[], [], rfl, (append_nil out).symm, rfl, fun more => by
      show b64Lines (ec.pre64 ++ [] ++ more) = _
      rw [append_nil, nil_append]⟩
  | case2 ec input out some ctx encrypted updated stream ih =>
    obtain ⟨pieces, text, whole, written, last, same⟩ := ih
    rw [encrypterUpdate, if_neg some, updated]
    refine ⟨input.take (sealChunkSize evp) :: pieces, stream.1 ++ text, ?_, ?_, ?_, fun more => ?_⟩
    · rw [flatten_cons, whole, take_append_drop]
    · rw [← append_assoc]
      exact written
    · rw [Evp.sealRun, updated]
      exact last
    · have first := bin2b64Stream_lines (ec.pre64 ++ encrypted) ((evp.sealRun ctx pieces).2 ++ more)
      have next := same more
      rw [Evp.sealRun, updated]
      simp only [append_assoc] at first next ⊢
      rw [first, next]

/-- However the message is cut, the text is that of the metadata and the encrypted message. -/
theorem encrypt_ok {keys : List Key} (few : keys.length ≤ maxEncrypterPubkeys)
    (fit : linesFit 0 (metadataTexts evp keys)) (chunks : List Bytes) :
    ∃ pieces, pieces.flatten = chunks.flatten ∧
      encrypt evp keys chunks = .ok (pemHeader ++ [10] ++
        b64Lines ((metadataTexts evp keys).flatten ++
          (evp.sealAll (evp.sealInit keys).2.2 pieces).1) ++
        tagText (evp.sealAll (evp.sealInit keys).2.2 pieces).2) := by
  have empty : linesFit ([] : Bytes).length (metadataTexts evp keys) := fit
  obtain ⟨left, text, written, same⟩ := dumpLines_ok ([] ++ pemHeader ++ [10]) empty
  have updates : ∀ (chunks : List Bytes) (ec : Encrypter SealCtx) (out : Bytes),
      ∃ pieces text, pieces.flatten = chunks.flatten ∧
        (chunks.foldl (fun (ec, out) chunk => encrypterUpdate evp ec chunk out) (ec, out)).2 =
          out ++ text ∧
        (chunks.foldl (fun (ec, out) chunk => encrypterUpdate evp ec chunk out) (ec, out)).1.ctx =
          (evp.sealRun ec.ctx pieces).1 ∧
        ∀ more, b64Lines (ec.pre64 ++ (evp.sealRun ec.ctx pieces).2 ++ more) = text ++ b64Lines
          ((chunks.foldl (fun (ec, out) chunk => encrypterUpdate evp ec chunk out) (ec, out)).1.pre64
            ++ more) := by
    intro chunks
    induction chunks with
    | nil =>
      intro ec out
      refine ⟨[], [], rfl, (append_nil out).symm, rfl, fun more => ?_⟩
      show b64Lines (ec.pre64 ++ [] ++ more) = [] ++ b64Lines (ec.pre64 ++ more)
      rw [append_nil, nil_append]
    | cons chunk rest ih =>
      intro ec out
      obtain ⟨pieces, text, whole, written, last, same⟩ := encrypterUpdate_spec evp ec chunk out
      obtain ⟨pieces', text', whole', written', last', same'⟩ := ih
        (encrypterUpdate evp ec chunk out).1 (encrypterUpdate evp ec chunk out).2
      refine ⟨pieces ++ pieces', text ++ text', ?_, ?_, ?_, fun more => ?_⟩
      · rw [flatten_append, whole, whole', flatten_cons]
      · rw [foldl_cons, written', written, append_assoc]
      · rw [foldl_cons, last', last, sealRun_append]
      · rw [sealRun_append, ← last]
        have first := same ((evp.sealRun (encrypterUpdate evp ec chunk out).1.ctx pieces').2 ++ more)
        have next := same' more
        simp only [append_assoc, foldl_cons] at first next ⊢
        rw [first, next]
  obtain ⟨pieces, more, whole, output, ctx, continued⟩ :=
    updates chunks ⟨(evp.sealInit keys).2.2, left⟩ ([] ++ pemHeader ++ [10] ++ text)
  refine ⟨pieces, whole, ?_⟩
  unfold encrypt encrypterStart
  rw [if_neg (by omega), written]
  dsimp only
  unfold encrypterFinish
  dsimp only
  rw [output, ctx, bin2b64Stream_end, bin2b64Stream_zero]
  have last := continued (evp.sealFinal (evp.sealRun (evp.sealInit keys).2.2 pieces).1).1
  have first := same (evp.sealAll (evp.sealInit keys).2.2 pieces).1
  unfold Evp.sealAll at first ⊢
  dsimp only at first ⊢
  rw [nil_append] at first
  rw [first, ← append_assoc left, last]
  unfold tagText
  simp

end

end Splintermail
