/-
This file models `decrypt_msg` of `keydir.c`, and proves which messages cannot do harm to
the decrypter.

A message that cannot be decrypted should be handed to the client with a note, so the
errors of the decrypter should be those that are told apart. There are three kinds of
text for which this fails. Metadata that fills the buffer raises an internal error. A
length of 2^32 - 1 has a byte read that is not in the buffer. And a recipient without a
hash is reported as one whose hash is the rest of the buffer.
-/

import Splintermail.Citm.ProcessMsg
import Splintermail.Crypto.Authentic

namespace Splintermail

open List Reading

/-! ### Decrypting a message -/

/-- `is_decrypt_err` -/
def isDecryptErr (type : DerrType) : Bool := type = .ssl || type = .param

section

variable {Key SealCtx OpenCtx : Type} (evp : Evp Key SealCtx OpenCtx) (kp : Key)

/-- `decrypt_msg`: the message is decrypted in one piece. -/
def decryptMsg (content : Bytes) : DecryptMsg :=
  match decrypt evp kp [content] with
  | .ok (plain, _) => .written plain
  | .error error =>
    if error.type = .not4me then .not4me
    else if isDecryptErr error.type then .decryptErr
    else .failed error

/-! ### What should hold of every message -/

/-- Every place that is written to or read from is in its buffer. -/
structure InBounds (reading : Reading OpenCtx) : Prop where
  base64 : reading.dc.base64.length ≤ decrypterSize
  buffer : reading.dc.buffer.length ≤ decrypterSize
  tag : reading.dc.tag.length ≤ 16
  /-- The line that is read next has a first byte, and is appended to `base64`. -/
  line : ∀ piece, reading.nextPiece = some piece →
    piece ≠ [] ∧ reading.dc.base64.length + piece.length ≤ decrypterSize

/-- The lines that are taken of the text decode to metadata and a message, and the recipients are the
hashes that the metadata declares. -/
def Reports (text : Bytes) (recips : List Bytes) : Prop :=
  ∃ reading reads cipher rest, Reaches evp kp (.start text) reading ∧
    text = pemHeader ++ (reading.lines.flatten ++ rest) ∧
    (decodeLines reading.lines).1 = textOf reads ++ (messageTag ++ cipher) ∧
    (∀ read ∈ reads, read.1.Valid) ∧ recips = declaredHashes reads

/-- The text is handed to the client, with a note if it is for this device and cannot be decrypted. -/
def Handled (dateField text : Bytes) : Prop :=
  ∃ result, processMsg (decryptMsg evp kp) dateField text = .ok result ∧
    (dstrBeginswith text encHeader = true → ∀ error, decrypt evp kp [text] = .error error →
      error.type ≠ .not4me → result.file = some (mangleCorrupted dateField text))

/-- The message does no harm to the decrypter, in whatever pieces it is delivered. -/
structure Unbroken (dateField : Bytes) (deliveries : List Bytes) : Prop where
  bounded : ∀ reading, Reaches evp kp (.start deliveries.flatten) reading → InBounds reading
  delivered : Outcome.Sat (decrypterDeliver evp kp .start [] [] deliveries) (fun _ => True)
    fun error => DecryptErr error.type
  finished : Outcome.Sat (decrypt evp kp deliveries)
    (fun (_, recips) => Reports evp kp deliveries.flatten recips) fun error => DecryptErr error.type
  handled : Handled evp kp dateField deliveries.flatten

/-! ### Messages that are read as they should be -/

/-- The buffer begins with the line of a recipient without a hash. -/
def BeginsHashless (buffer : Bytes) : Prop :=
  ∃ (line : TextLine) (rest : Bytes), line.Valid ∧ line.Hashless ∧ buffer = line.bytes ++ rest

/-- The next line of base64 has room in the buffer, and no line of metadata in it has a length of
2^32 - 1 or is that of a recipient without a hash. -/
structure Harmless (reading : Reading OpenCtx) : Prop where
  fits : ∀ piece, reading.nextPiece = some piece → piece.head? ≠ some 61 →
    (filledBuffer reading.dc piece).length ≤ decrypterSize
  lengths : reading.Allows evp kp fun buffer => ¬ Overlong buffer
  hashes : reading.Allows evp kp fun buffer => ¬ BeginsHashless buffer

variable {evp kp}

theorem DecryptErr.param : DecryptErr .param := .inl rfl

variable {text : Bytes} {reading : Reading OpenCtx}

/-- What a step raises is the error of a message that cannot be decrypted. -/
theorem decryptErr_of_raises {error : Derr} {allowed : Bytes → Prop}
    (progress : reading.Progress evp kp allowed text) (allows : reading.Allows evp kp allowed)
    (harmless : Harmless evp kp reading) (raises : Raises evp kp reading error) :
    DecryptErr error.type := by
  cases raises with
  | header => exact .param
  | long => exact .param
  | line piece error next untagged read =>
    have result := decrypterLine_sat progress.decoded (harmless.fits piece next untagged)
      (allows piece next untagged)
    rcases result.of_error read with known | ⟨past, pass, mem, long⟩
    · exact known
    · exact absurd long (harmless.lengths piece next untagged pass mem)
  | tag piece error next tagged read =>
    exact .inl ((decrypterTag_sat reading.dc piece).of_error read)

theorem hashed_of_readAs {reads : List LineRead}
    (each : ReadAs (fun buffer => ¬ BeginsHashless buffer) reads) :
    ∀ read ∈ reads, ¬ read.1.Hashless := by
  intro read mem hashless
  obtain ⟨valid, version | allowed⟩ := each read mem
  · obtain ⟨line, rest⟩ := read
    cases line with
    | version digits => exact hashless
    | recipient digits hash keyDigits key => exact absurd version nofun
    | iv digits vector => exact absurd version nofun
  · exact allowed ⟨read.1, read.2, valid, hashless, rfl⟩

theorem inBounds_of_progress {allowed : Bytes → Prop}
    (progress : reading.Progress evp kp allowed text) : InBounds reading := by
  have line : ∀ piece, reading.nextPiece = some piece →
      piece ≠ [] ∧ reading.dc.base64.length + piece.length ≤ decrypterSize := fun piece next =>
    (nextPiece_fits next).2.2
  cases progress with
  | unread => exact ⟨Nat.zero_le _, Nat.zero_le _, Nat.zero_le _, line⟩
  | headed dc out lines rest found untagged noTag room small =>
    exact ⟨room, small, by rw [noTag]; exact Nat.zero_le _, line⟩
  | tagged dc out lines tagLine rest found done begins tag short clean small =>
    exact ⟨by rw [clean]; exact Nat.zero_le _, small, short, line⟩

/-- Every line of a text is harmless. -/
def HarmlessText (evp : Evp Key SealCtx OpenCtx) (kp : Key) (text : Bytes) : Prop :=
  ∀ reading, Reaches evp kp (.start text) reading → Harmless evp kp reading

theorem HarmlessText.progress (harmless : HarmlessText evp kp text)
    (reached : Reaches evp kp (.start text) reading) :
    reading.Progress evp kp (fun buffer => ¬ BeginsHashless buffer) text :=
  .run reached fun earlier before => (harmless earlier before).hashes

variable {deliveries : List Bytes}

/-- What all deliveries of a harmless text leave. -/
theorem HarmlessText.delivered (harmless : HarmlessText evp kp deliveries.flatten) :
    Outcome.Sat (decrypterDeliver evp kp .start [] [] deliveries)
      (fun (dc, _, out) => ∃ reading : Reading OpenCtx, reading.dc = dc ∧ reading.out = out ∧
        Reaches evp kp (.start deliveries.flatten) reading)
      fun error => DecryptErr error.type := by
  have follows := @Reading.follows_decrypter _ _ _ evp kp deliveries
  cases result : decrypterDeliver evp kp .start [] [] deliveries with
  | ok state =>
    obtain ⟨dc, left, out⟩ := state
    rw [result] at follows
    obtain ⟨reading, reached, shows⟩ := follows
    exact ⟨reading, shows.state, shows.output, reached⟩
  | error error =>
    rw [result] at follows
    obtain ⟨reading, reached, raises⟩ := follows
    exact decryptErr_of_raises (harmless.progress reached) (harmless reading reached).hashes
      (harmless reading reached) raises

theorem HarmlessText.reports {ctx : OpenCtx} (harmless : HarmlessText evp kp text)
    (reached : Reaches evp kp (.start text) reading) (begun : reading.dc.ctx = some ctx) :
    Reports evp kp text reading.dc.metadata.recips := by
  have progress := harmless.progress reached
  have decoded := progress.decoded
  obtain ⟨rest, whole⟩ : ∃ rest, text = pemHeader ++ (reading.lines.flatten ++ rest) := by
    cases progress with
    | unread => exact absurd begun nofun
    | headed dc out lines rest found untagged noTag room small left decoded whole =>
      exact ⟨rest, whole⟩
    | tagged dc out lines tagLine rest found done begins tag short clean small decoded whole =>
      exact ⟨tagLine ++ rest, whole⟩
  cases decoded with
  | metadata reads each tells before => exact absurd (before.symm.trans begun) nofun
  | message reads each tells found opened ctx parts start run begun empty left =>
    refine ⟨reading, reads, parts.flatten, rest, reached, whole, left,
      fun read mem => (each read mem).1, ?_⟩
    rw [tells.recips, takenHashes_eq (hashed_of_readAs each)]
    rfl

theorem HarmlessText.finished (harmless : HarmlessText evp kp deliveries.flatten) :
    Outcome.Sat (decrypt evp kp deliveries)
      (fun (_, recips) => Reports evp kp deliveries.flatten recips) fun error => DecryptErr error.type := by
  have delivered := harmless.delivered
  unfold decrypt
  cases result : decrypterDeliver evp kp .start [] [] deliveries with
  | error error =>
    rw [result] at delivered
    exact delivered
  | ok state =>
    obtain ⟨dc, left, out⟩ := state
    rw [result] at delivered
    obtain ⟨reading, rfl, rfl, reached⟩ := delivered
    dsimp only
    unfold decrypterFinish
    cases begun : reading.dc.ctx with
    | none => exact .param
    | some ctx =>
      dsimp only
      cases evp.openFinal ctx reading.dc.tag with
      | none => exact .inr (.inl rfl)
      | some text => exact harmless.reports reached begun

theorem handled_of_decryptErr (dateField text : Bytes)
    (errors : ∀ error, decrypt evp kp [text] = .error error → DecryptErr error.type) :
    Handled evp kp dateField text := by
  unfold Handled processMsg decryptMsg
  cases encrypted : dstrBeginswith text encHeader with
  | false => exact ⟨_, rfl, nofun⟩
  | true =>
    rw [if_pos rfl]
    cases result : decrypt evp kp [text] with
    | ok message => exact ⟨_, rfl, fun _ _ wrong => absurd wrong nofun⟩
    | error error =>
      dsimp only
      by_cases others : error.type = .not4me
      · rw [if_pos others]
        exact ⟨_, rfl, fun _ _ same mine => absurd (Except.error.inj same ▸ others) mine⟩
      · have known : isDecryptErr error.type = true := by
          unfold isDecryptErr
          rcases errors error result with param | ssl | foreign
          · rw [param]
            rfl
          · rw [ssl]
            rfl
          · exact absurd foreign others
        rw [if_neg others, if_pos known]
        exact ⟨_, rfl, fun _ _ _ _ => rfl⟩

/-- A message is reported and handled as it should be if every line of it is harmless. -/
theorem unbroken_of_harmless (evp : Evp Key SealCtx OpenCtx) (kp : Key) (dateField : Bytes)
    (deliveries : List Bytes) (harmless : HarmlessText evp kp deliveries.flatten) :
    Unbroken evp kp dateField deliveries where
  bounded reading reached := inBounds_of_progress (harmless.progress reached)
  delivered := harmless.delivered.mono fun _ _ => trivial
  finished := harmless.finished
  handled := by
    have same : [deliveries.flatten].flatten = deliveries.flatten := flatten_singleton
    rw [← same] at harmless
    exact handled_of_decryptErr dateField _ fun error result => harmless.finished.of_error result

end

/-! ### Lines that do no harm -/

theorem colon_notMem {digits : Bytes} {length : Nat} (number : touBytes digits = .ok length) :
    58 ∉ digits := fun mem => touBytes_of_mem mem (by decide) (by decide) length number

/-- What stands before the first colon of a text, and what behind it, is given by the text. -/
theorem eq_of_colon {front front' behind behind' : Bytes} (absent : 58 ∉ front)
    (absent' : 58 ∉ front') (same : front ++ 58 :: behind = front' ++ 58 :: behind') :
    front = front' ∧ behind = behind' := by
  have spelled (part tail : Bytes) (apart : 58 ∉ part) :
      (part ++ 58 :: tail).takeWhile (· != 58) = part := by
    have passed : ∀ byte ∈ part, (byte != 58) = true := fun byte mem =>
      bne_iff_ne.mpr (ne_of_mem_of_not_mem mem apart)
    rw [takeWhile_append_of_pos passed, takeWhile_cons_of_neg (by decide), append_nil]
  have fronts := (spelled front behind absent).symm.trans (same ▸ spelled front' behind' absent')
  subst fronts
  exact ⟨rfl, (cons.inj (append_cancel_left same)).2⟩

theorem Declares.unique {digits more : Bytes} {length other : Nat}
    (number : touBytes digits = .ok length) (declares : Declares (digits ++ 58 :: more) other) :
    length = other := by
  obtain ⟨digits', more', same, apart, number'⟩ := declares
  obtain ⟨rfl, -⟩ := eq_of_colon (colon_notMem number) apart same
  exact Except.ok.inj (number.symm.trans number')

theorem not_overlong {byte : UInt8} {rest : Bytes} (noRecipient : byte ≠ 82) (noIv : byte ≠ 73) :
    ¬ Overlong (byte :: rest) := by
  rintro (⟨leftover, same, -⟩ | ⟨leftover, same, -⟩)
  · exact noRecipient (cons.inj same).1
  · exact noIv (cons.inj same).1

theorem not_beginsHashless {byte : UInt8} {rest : Bytes} (noRecipient : byte ≠ 82) :
    ¬ BeginsHashless (byte :: rest) := by
  rintro ⟨line, rest, -, hashless, same⟩
  cases line with
  | version digits => exact hashless
  | recipient => exact noRecipient (cons.inj same).1
  | iv digits vector => exact hashless

/-- A line of metadata that is not longer than a length field can tell, and that has a hash if it is
that of a recipient, does no harm. -/
theorem TextLine.harmless {line : TextLine} (valid : line.Valid) (hashed : ¬ line.Hashless)
    (short : line.bytes.length < uintMax) (rest : Bytes) :
    ¬ Overlong (line.bytes ++ rest) ∧ ¬ BeginsHashless (line.bytes ++ rest) := by
  cases line with
  | version digits => exact ⟨not_overlong (by decide) (by decide), not_beginsHashless (by decide)⟩
  | recipient digits hash keyDigits key =>
    obtain ⟨number, keyNumber⟩ := valid
    have spelled : (recipient digits hash keyDigits key).bytes ++ rest =
        ascii "R:" ++ (digits ++ 58 :: (hash ++ 58 :: (keyDigits ++ 58 :: (key ++ 10 :: rest)))) := by
      simp only [bytes, append_assoc, cons_append, nil_append]
    have lengths : hash.length < uintMax ∧ key.length < uintMax := by
      simp only [bytes, length_append, length_cons] at short
      omega
    rw [spelled]
    refine ⟨?_, ?_⟩
    · rintro (⟨leftover, same, declared⟩ | ⟨leftover, same, -⟩)
      · obtain rfl := append_cancel_left same
        rcases declared with declares | ⟨hash', between, ⟨digits', same, apart, number'⟩, declares⟩
        · exact absurd (declares.unique number) (Nat.ne_of_lt lengths.1)
        · obtain ⟨rfl, hashes⟩ := eq_of_colon (colon_notMem number) apart same
          have size := Except.ok.inj (number.symm.trans number')
          obtain ⟨rfl, keys⟩ := append_inj hashes size
          obtain rfl := (cons.inj keys).2
          exact absurd (declares.unique keyNumber) (Nat.ne_of_lt lengths.2)
      · exact absurd (cons.inj same).1 (by decide)
    · rintro ⟨line, other, valid, hashless, same⟩
      cases line with
      | version digits => exact hashless
      | recipient digits' hash' keyDigits' key' =>
        obtain rfl : hash' = [] := hashless
        rw [bytes, append_assoc] at same
        have behind := append_cancel_left same
        rw [append_assoc, cons_append] at behind
        obtain ⟨rfl, -⟩ := eq_of_colon (colon_notMem valid.1) (colon_notMem number) behind.symm
        exact hashed (length_eq_zero_iff.mp (Except.ok.inj (number.symm.trans valid.1)))
      | iv digits vector => exact hashless
  | iv digits vector =>
    obtain ⟨number, -⟩ := valid
    have spelled : (iv digits vector).bytes ++ rest =
        ascii "IV:" ++ (digits ++ 58 :: (vector ++ 10 :: rest)) := by
      simp only [bytes, append_assoc, cons_append, nil_append]
    have length : vector.length < uintMax := by
      simp only [bytes, length_append, length_cons] at short
      omega
    rw [spelled]
    refine ⟨?_, not_beginsHashless (by decide)⟩
    rintro (⟨leftover, same, -⟩ | ⟨leftover, same, declares⟩)
    · exact absurd (cons.inj same).1 (by decide)
    · obtain rfl := append_cancel_left same
      exact absurd (declares.unique number) (Nat.ne_of_lt length)

theorem harmless_message (cipher : Bytes) :
    ¬ Overlong (messageTag ++ cipher) ∧ ¬ BeginsHashless (messageTag ++ cipher) :=
  ⟨not_overlong (by decide) (by decide), not_beginsHashless (by decide)⟩

/-- Where nothing is read next, nothing does harm. -/
theorem Harmless.of_none {Key SealCtx OpenCtx : Type} {evp : Evp Key SealCtx OpenCtx} {kp : Key}
    {reading : Reading OpenCtx} (last : reading.nextPiece = none) : Harmless evp kp reading :=
  ⟨fun _ next => absurd (last.symm.trans next) nofun,
    fun _ next => absurd (last.symm.trans next) nofun,
    fun _ next => absurd (last.symm.trans next) nofun⟩

/-- A line does no harm that has room and of which no pass does. -/
theorem Harmless.of_passes {Key SealCtx OpenCtx : Type} {evp : Evp Key SealCtx OpenCtx} {kp : Key}
    {reading : Reading OpenCtx} {piece : Bytes} (next : reading.nextPiece = some piece)
    (fits : (filledBuffer reading.dc piece).length ≤ decrypterSize)
    (each : ∀ pass ∈ linePasses evp kp reading.dc piece, ¬ Overlong pass ∧ ¬ BeginsHashless pass) :
    Harmless evp kp reading := by
  refine ⟨fun other same _ => ?_, fun other same _ pass mem => ?_, fun other same _ pass mem => ?_⟩
  · cases next.symm.trans same
    exact fits
  · cases next.symm.trans same
    exact (each pass mem).1
  · cases next.symm.trans same
    exact (each pass mem).2

/-! ### A message of one byte -/

/-- The line of its recipient. -/
def oneByteRecipient : TextLine := .recipient (ascii "32") (replicate 32 3) (ascii "1") [10]

/-- The line of its vector. -/
def oneByteIv : TextLine := .iv (ascii "12") (replicate 12 0)

/-- The passes for its line. -/
theorem linePasses_oneByte :
    linePasses prefixEvp 3 (.lined : Decrypter (UInt8 × Bytes)) (b64Encode oneByteMessage ++ [10]) =
      [oneByteRecipient.bytes ++ (oneByteIv.bytes ++ (messageTag ++ ascii "h")),
        oneByteIv.bytes ++ (messageTag ++ ascii "h"), messageTag ++ ascii "h"] := rfl

theorem harmless_oneByte : HarmlessText prefixEvp 3 (oneByteText (replicate 16 97)) := by
  intro reading reached
  rcases reaches_oneByte rfl rfl reached with unread | rfl | rfl | rfl | rfl
  · refine .of_none (Option.eq_none_iff_forall_ne_some.mpr fun piece next => ?_)
    exact absurd ((nextPiece_fits next).1.symm.trans unread) nofun
  · exact @Harmless.of_passes _ _ _ _ _ _ [10] rfl (by decide) nofun
  · refine @Harmless.of_passes _ _ _ _ _ _ (b64Encode oneByteMessage ++ [10]) rfl (by decide)
      fun pass mem => ?_
    rw [linePasses_oneByte] at mem
    rcases mem_cons.mp mem with rfl | mem
    · exact @TextLine.harmless oneByteRecipient ⟨rfl, rfl⟩ nofun (by decide) _
    rcases mem_cons.mp mem with rfl | mem
    · exact @TextLine.harmless oneByteIv ⟨rfl, rfl⟩ id (by decide) _
    · rw [mem_singleton.mp mem]
      exact harmless_message _
  · exact .of_passes rfl (by decide) (nofun)
  · exact .of_none rfl

/-- The message is decrypted in whatever pieces, and its recipient reported. -/
theorem unbroken_oneByte :
    Unbroken prefixEvp 3 [] [(oneByteText (replicate 16 97)).take 90,
      (oneByteText (replicate 16 97)).drop 90] :=
  unbroken_of_harmless prefixEvp 3 [] _ (by
    have whole : [(oneByteText (replicate 16 97)).take 90,
        (oneByteText (replicate 16 97)).drop 90].flatten = oneByteText (replicate 16 97) := by
      simp
    rw [whole]
    exact harmless_oneByte)

/-! ### Messages that do harm -/

/-- Metadata with a length that wraps around when one is added. -/
def wrappingLength : Bytes := ascii "V:1\nR:4294967295:0"

/-- Metadata with a recipient without a hash, and a message of one byte. -/
def missingHash : Bytes :=
  ascii "V:1\nR:0::1:k\nR:32:" ++ replicate 32 3 ++ ascii ":1:\n\nIV:12:" ++
    replicate 12 0 ++ ascii "\nM:h"

/-- The tag of that message. -/
def missingHashTag : Bytes := 61 :: b64Encode (replicate 16 97)

theorem wrappingLength_overread :
    decrypterDeliver shiftEvp 3 .start [] [] [oneLineText wrappingLength []] =
      .error ⟨.overread, "failed to parse R line"⟩ := by
  have line : decrypterLine shiftEvp 3 .lined (b64Encode wrappingLength ++ [10]) [] =
      .error ⟨.overread, "failed to parse R line"⟩ := rfl
  have some : wrappingLength ≠ [] := cons_ne_nil _ _
  rw [decrypterDeliver, nil_append, decrypterUpdate_oneLine 3 some (by decide), line]

theorem missingHash_reported :
    decrypt shiftEvp 3 [oneLineText missingHash (missingHashTag ++ [10])] =
      .ok ([97], [missingHash.drop 8, replicate 32 3]) := by
  let metadata : Metadata := ⟨true, true, true, [10], replicate 12 0,
    [missingHash.drop 8, replicate 32 3]⟩
  have line : decrypterLine shiftEvp 3 .lined (b64Encode missingHash ++ [10]) [] =
      .ok (⟨true, false, metadata, some (7, [97]), [10], [], []⟩, [97], true) := rfl
  have tag : decrypterTag ⟨true, false, metadata, some ((7, [97]) : UInt8 × Bytes), [10], [], []⟩
      (missingHashTag ++ [10]) =
      .ok ⟨true, true, metadata, some (7, [97]), [], [], replicate 16 97⟩ := rfl
  have some : missingHash ≠ [] := cons_ne_nil _ _
  have loop := @decrypterLoop_tagLine _ _ _ shiftEvp 3 _ _ missingHashTag [] [97] (by decide) rfl
    (by decide) rfl tag
  rw [decrypt, decrypterDeliver, nil_append, decrypterUpdate_oneLine 3 some (by decide), line]
  dsimp only
  rw [loop]
  rfl

/-- A message breaks the decrypter, and another has a recipient reported that it does not declare. -/
theorem unbroken_fails :
    ¬ Unbroken shiftEvp 3 [] [oneLineText wrappingLength []] ∧
      decrypt shiftEvp 3 [oneLineText missingHash (missingHashTag ++ [10])] =
        .ok ([97], [missingHash.drop 8, replicate 32 3]) := by
  refine ⟨fun unbroken => ?_, missingHash_reported⟩
  have known : DecryptErr .overread := unbroken.delivered.of_error wrappingLength_overread
  rcases known with param | ssl | not4me
  · exact absurd param nofun
  · exact absurd ssl nofun
  · exact absurd not4me nofun

end Splintermail
