/-
This file proves when a message that is decrypted was fully authenticated.

The library compares as many bytes of the tag as it is given. So everything depends on
the line of the tag: if it decodes to fewer than 16 bytes, a message is accepted whose
tag was only compared in part. What waits in `base64` when the line of the tag is read is
dropped, and if a whole group waits there then a part of the message is missing.
-/

import Splintermail.Crypto.Progress
import Splintermail.Crypto.Delivery

namespace Splintermail

open List Reading

/-! ### Decoding the beginning of a line -/

/-- What a character does to the chunk does not depend on what follows it. -/
theorem b642binLoop_filled (chunk : List Nat) (index skip i totalRead : Nat) (char : UInt8) :
    ∃ filled : List Nat × Nat × Nat, ∀ rest : Bytes,
      b642binLoop chunk index skip i totalRead (char :: rest) = if filled.2.1 = 4 then
          if 0 < filled.2.2 then (b64Flush filled.1 filled.2.2, i + 1)
          else
            let more := b642binLoop filled.1 0 0 (i + 1) (i + 1) rest
            (b64Flush filled.1 filled.2.2 ++ more.1, more.2)
        else b642binLoop filled.1 filled.2.1 filled.2.2 (i + 1) totalRead rest :=
  ⟨_, fun _ => rfl⟩

/-- The decoder has stopped at the padding, or what it has decoded is whole groups. -/
theorem b642binLoop_append (chunk : List Nat) (index skip i totalRead : Nat) (front back : Bytes) :
    b642binLoop chunk index skip i totalRead (front ++ back) =
        b642binLoop chunk index skip i totalRead front ∨
      3 ∣ (b642binLoop chunk index skip i totalRead front).1.length := by
  induction front generalizing chunk index skip i totalRead with
  | nil => exact .inr (Nat.dvd_zero 3)
  | cons char rest ih =>
    obtain ⟨filled, next⟩ := b642binLoop_filled chunk index skip i totalRead char
    rw [cons_append, next, next]
    split
    · split
      · exact .inl rfl
      · next whole =>
        have group : (b64Flush filled.1 filled.2.2).length = 3 := by
          rw [Nat.le_zero.mp (Nat.le_of_not_lt whole)]
          rfl
        rcases ih filled.1 0 0 (i + 1) (i + 1) with same | groups
        · exact .inl (by rw [same])
        · refine .inr ?_
          rw [length_append, group]
          exact (Nat.dvd_add_right (Nat.dvd_refl 3)).mpr groups
    · exact ih filled.1 filled.2.1 filled.2.2 (i + 1) totalRead

theorem b642binStream_prefix {front text : Bytes} (begins : front <+: text)
    (padded : ¬ 3 ∣ (b642binStream front).1.length) :
    (b642binStream text).1 = (b642binStream front).1 := by
  obtain ⟨back, rfl⟩ := begins
  rcases b642binLoop_append [0, 0, 0, 0] 0 0 0 0 front back with same | groups
  · show (b642binLoop _ _ _ _ _ (front ++ back)).1 = _
    rw [same]
    rfl
  · exact absurd groups padded

section

variable {Key SealCtx OpenCtx : Type} (evp : Evp Key SealCtx OpenCtx) (kp : Key)
  (mac : OpenCtx → Bytes)

/-! ### What should hold of every message that is decrypted -/

/-- A tag of some length makes `EVP_OpenFinal` compare just so many bytes of the tag that it has
computed, and a tag of no length cannot be set. -/
structure TagCompares : Prop where
  length : ∀ ctx, (mac ctx).length = 16
  accepts : ∀ ctx tag, (evp.openFinal ctx tag).isSome = true ↔ tag ≠ [] ∧ tag <+: mac ctx

/-- What the line of the tag decodes to, without the character that it begins with. -/
def tagOf (line : Bytes) : Bytes := (b642binStream ((line ++ [10]).drop 1)).1

/-- A text with all its parts, of which every byte of the tag was compared after every byte of the
encrypted message. -/
structure FullyVerified (text plain : Bytes) (reading : Reading OpenCtx) (line rest : Bytes)
    (reads : List LineRead) (parts : List Bytes) : Prop where
  reached : Reaches evp kp (.start text) reading
  last : reading.dc.tagFound = true
  whole : text = pemHeader ++ (reading.lines.flatten ++ (line ++ 10 :: rest))
  tagLine : line.head? = some 61 ∧ 10 ∉ line
  decoded : (decodeLines reading.lines).1 = textOf reads ++ (messageTag ++ parts.flatten)
  complete : (b642binStream (decodeLines reading.lines).2).1 = []
  valid : ∀ read ∈ reads, read.1.Valid
  version : ∃ read ∈ reads, read.1.isVersion = true
  recipient : evp.fingerprint kp ∈ declaredHashes reads
  iv : ∃ read ∈ reads, read.1.isIv = true
  sixteen : (tagOf line).length = 16
  verified : ∃ encKey vector opened ctx front back,
    evp.openInit kp encKey vector = some opened ∧
      evp.openRun opened parts = some (ctx, front) ∧ mac ctx = tagOf line ∧
      evp.openFinal ctx (tagOf line) = some back ∧ plain = front ++ back

/-- A message is decrypted only if it was fully authenticated. -/
def OnlyAuthentic (deliveries : List Bytes) : Prop :=
  ∀ plain recips, decrypt evp kp deliveries = .ok (plain, recips) →
    ∃ reading line rest reads parts,
      FullyVerified evp kp mac deliveries.flatten plain reading line rest reads parts

/-! ### Messages for which it holds -/

/-- The buffer begins with the line of a recipient without a hash, and what is taken for the hash is the
fingerprint. -/
def Misleads (fingerprint buffer : Bytes) : Prop :=
  ∃ (line : TextLine) (rest : Bytes), line.Valid ∧ line.Hashless ∧ buffer = line.bytes ++ rest ∧
    line.taken rest = [fingerprint]

/-- The next line is not that of a tag with too few bytes, nothing that can be decoded waits before that
line, and the rest of the buffer is not taken for the fingerprint. -/
structure Genuine (reading : Reading OpenCtx) : Prop where
  tag : ∀ piece, reading.nextPiece = some piece → piece.head? = some 61 →
    (b642binStream (piece.drop 1)).1.length = 0 ∨ 16 ≤ (b642binStream (piece.drop 1)).1.length
  complete : ∀ piece, reading.nextPiece = some piece → piece.head? = some 61 →
    (b642binStream reading.dc.base64).1 = []
  hashes : reading.Allows evp kp fun buffer => ¬ Misleads (evp.fingerprint kp) buffer

variable {evp kp mac}

/-- A fingerprint that is taken from lines is declared by one of them. -/
theorem declared_of_taken {reads : List LineRead} {fingerprint : Bytes}
    (each : ReadAs (fun buffer => ¬ Misleads fingerprint buffer) reads)
    (taken : fingerprint ∈ takenHashes reads) : fingerprint ∈ declaredHashes reads := by
  obtain ⟨read, mem, found⟩ := mem_flatMap.mp taken
  refine mem_flatMap.mpr ⟨read, mem, ?_⟩
  obtain ⟨line, rest⟩ := read
  by_cases hashless : line.Hashless
  · obtain ⟨valid, version | allowed⟩ := each _ mem
    · cases line with
      | version digits => exact absurd hashless id
      | recipient digits hash keyDigits key => exact absurd version nofun
      | iv digits vector => exact absurd hashless id
    · cases line with
      | version digits => exact absurd hashless id
      | recipient digits hash keyDigits key =>
        have only := mem_singleton.mp found
        exact absurd ⟨_, _, valid, hashless, rfl, by rw [only]; rfl⟩ allowed
      | iv digits vector => exact absurd hashless id
  · rw [← TextLine.taken_eq rest hashless]
    exact found

variable {text : Bytes} {reading : Reading OpenCtx}

/-- Where the tag was found, the last step has read its line. -/
theorem tag_of_reaches (reached : Reaches evp kp (.start text) reading)
    (found : reading.dc.tagFound = true) :
    ∃ earlier piece, Reaches evp kp (.start text) earlier ∧
      earlier.nextPiece = some piece ∧ earlier.rest = piece ++ reading.rest ∧
      piece.head? = some 61 ∧ earlier.lines = reading.lines ∧ reading.tagLine = piece := by
  induction reached with
  | refl => exact absurd found nofun
  | tail reached advances ih =>
    cases advances with
    | header header rest unread begins size same =>
      have progress := @Reading.Progress.run _ _ _ evp kp (fun _ => True) _ _ reached
        fun _ _ _ _ _ _ _ => trivial
      cases progress with
      | unread => exact absurd found nofun
      | headed dc out lines rest headed => exact absurd (headed.symm.trans unread) nofun
      | tagged dc out lines tagLine rest headed => exact absurd (headed.symm.trans unread) nofun
    | line piece rest dc out goOn next begins plain read =>
      have untagged := (nextPiece_fits next).2.1
      rw [← (decrypterLine_frame read).2.1] at untagged
      exact absurd (found.symm.trans untagged) nofun
    | tag piece rest dc next begins tagged read =>
      exact ⟨_, piece, reached, next, begins, tagged, rfl, rfl⟩

section

variable {allowed : Bytes → Prop} (progress : reading.Progress evp kp allowed text)

include progress

theorem Reading.Progress.tagFound (some : reading.dc.tag ≠ []) : reading.dc.tagFound = true := by
  cases progress with
  | unread => exact absurd rfl some
  | headed dc out lines rest found untagged noTag => exact absurd noTag some
  | tagged dc out lines tagLine rest found done => exact done

theorem Reading.Progress.ofTagged (found : reading.dc.tagFound = true) :
    text = pemHeader ++ (reading.lines.flatten ++ (reading.tagLine ++ reading.rest)) ∧
      reading.dc.tag = (b642binStream (reading.tagLine.drop 1)).1 ∧ reading.dc.tag.length ≤ 16 := by
  cases progress with
  | unread => exact absurd found nofun
  | headed dc out lines rest headed untagged => exact absurd (found.symm.trans untagged) nofun
  | tagged dc out lines tagLine rest headed done begins tag short clean small decoded whole =>
    exact ⟨whole, tag, short⟩

/-- Before the line of the tag, `base64` holds what the lines leave. -/
theorem Reading.Progress.base64 (untagged : reading.dc.tagFound = false) :
    reading.dc.base64 = (decodeLines reading.lines).2 := by
  cases progress with
  | unread => rfl
  | headed dc out lines rest headed before noTag room small left => exact left
  | tagged dc out lines tagLine rest headed done => exact absurd (done.symm.trans untagged) nofun

end

/-- A piece of the text that begins with the mark of the tag is the beginning of its line. -/
theorem tagLine_of_nextPiece {piece : Bytes} (next : reading.nextPiece = some piece)
    (tagged : piece.head? = some 61) :
    ∃ line rest, reading.rest = line ++ 10 :: rest ∧ line.head? = some 61 ∧ 10 ∉ line ∧
      piece <+: line ++ [10] := by
  unfold nextPiece at next
  split at next
  · obtain ⟨⟨position, which⟩, found, rfl⟩ := Option.map_eq_some_iff.mp next
    have newline : ascii "\n" = [10] := rfl
    rw [newline] at found
    obtain ⟨line, rest, whole, apart, rfl⟩ := dstrFind_byte_some found
    have within : min (decrypterSize - reading.dc.base64.length) (line.length + 1) ≤
        (line ++ [10]).length := by
      rw [length_append]
      exact Nat.min_le_right _ _
    have begins : reading.rest.take (min (decrypterSize - reading.dc.base64.length)
        (line.length + 1)) <+: line ++ [10] := by
      have split : line ++ 10 :: rest = (line ++ [10]) ++ rest := by simp
      rw [whole, split, take_append_of_le_length within]
      exact take_prefix _ _
    refine ⟨line, rest, whole, ?_, apart, begins⟩
    cases line with
    | nil =>
      dsimp only at tagged
      rcases prefix_cons_iff.mp begins with empty | ⟨tail, same, -⟩
      · rw [empty] at tagged
        exact absurd tagged nofun
      · rw [same] at tagged
        exact absurd (Option.some.inj tagged) (by decide)
    | cons first others =>
      dsimp only at tagged
      rcases prefix_cons_iff.mp begins with empty | ⟨tail, same, -⟩
      · rw [empty] at tagged
        exact absurd tagged nofun
      · rw [same] at tagged
        exact tagged
  · exact absurd next nofun

/-- A message that is decrypted was fully authenticated, if every line of it is genuine. -/
theorem onlyAuthentic_of_genuine (evp : Evp Key SealCtx OpenCtx) (mac : OpenCtx → Bytes)
    (compares : TagCompares evp mac) (kp : Key) (deliveries : List Bytes)
    (genuine : ∀ reading, Reaches evp kp (.start deliveries.flatten) reading →
      Genuine evp kp reading) : OnlyAuthentic evp kp mac deliveries := by
  intro plain recips success
  have follows := @Reading.follows_decrypter _ _ _ evp kp deliveries
  unfold decrypt at success
  cases result : decrypterDeliver evp kp .start [] [] deliveries with
  | error error =>
    rw [result] at success
    exact absurd success nofun
  | ok state =>
  obtain ⟨dc, left, out⟩ := state
  rw [result] at success follows
  obtain ⟨reading, reached, rfl, rfl, -⟩ := follows
  dsimp only at success
  unfold decrypterFinish at success
  cases begun : reading.dc.ctx with
  | none =>
    rw [begun] at success
    exact absurd success nofun
  | some ctx =>
  cases final : evp.openFinal ctx reading.dc.tag with
  | none =>
    rw [begun] at success
    dsimp only at success
    rw [final] at success
    exact absurd success nofun
  | some back =>
  rw [begun] at success
  dsimp only at success
  rw [final] at success
  obtain ⟨rfl, -⟩ := Prod.mk.inj (Except.ok.inj success)
  obtain ⟨some, prefixed⟩ := (compares.accepts ctx reading.dc.tag).mp (by rw [final]; rfl)
  have progress : ∀ earlier, Reaches evp kp (.start deliveries.flatten) earlier →
      earlier.Progress evp kp (fun buffer => ¬ Misleads (evp.fingerprint kp) buffer)
        deliveries.flatten :=
    fun earlier before => .run before fun first place => (genuine first place).hashes
  have last := (progress reading reached).tagFound some
  obtain ⟨earlier, piece, before, next, follow, tagged, lines, tagLine⟩ := tag_of_reaches reached last
  obtain ⟨line, rest, spelled, mark, apart, begins⟩ := tagLine_of_nextPiece next tagged
  obtain ⟨whole, tag, short⟩ := (progress reading reached).ofTagged last
  rw [tagLine] at whole tag
  -- all 16 bytes are there
  have sixteen : (b642binStream (piece.drop 1)).1.length = 16 := by
    rcases (genuine earlier before).tag piece next tagged with zero | enough
    · exact absurd (tag.trans (length_eq_zero_iff.mp zero)) some
    · exact Nat.le_antisymm (tag ▸ short) enough
  have same : tagOf line = reading.dc.tag := by
    rw [tag]
    exact b642binStream_prefix (begins.drop 1) (by rw [sixteen]; decide)
  have compared : mac ctx = tagOf line := by
    rw [same]
    refine (prefixed.eq_of_length ?_).symm
    rw [compares.length, tag, sixteen]
  have left : earlier.dc.base64 = (decodeLines reading.lines).2 := by
    rw [← lines]
    exact (progress earlier before).base64 (nextPiece_fits next).2.1
  cases (progress reading reached).decoded with
  | metadata reads each tells before => exact absurd (before.symm.trans begun) nofun
  | message reads each tells found opened ctx' parts start run begun' empty decoded =>
    cases begun.symm.trans begun'
    obtain ⟨version, key, iv⟩ := found
    rw [tells.version] at version
    rw [tells.key] at key
    rw [tells.iv] at iv
    refine ⟨reading, line, rest, reads, parts, reached, last, ?_, ⟨mark, apart⟩, decoded, ?_,
      fun read mem => (each read mem).1, ?_, ?_, ?_, ?_, ?_⟩
    · rw [whole, ← follow, spelled]
    · rw [← left]
      exact (genuine earlier before).complete piece next tagged
    · exact any_eq_true.mp version
    · exact declared_of_taken each (of_decide_eq_true key)
    · exact any_eq_true.mp iv
    · rw [same, tag, sixteen]
    · exact ⟨_, _, opened, ctx, reading.out, back, start, run, compared, by rw [same, final], rfl⟩

end

/-! ### A message of one byte -/

/-- The cipher with a tag of which only so many bytes are compared as there are. -/
def prefixEvp : Evp UInt8 Bytes (UInt8 × Bytes) :=
  { shiftEvp with
    openFinal := fun ctx tag =>
      if tag ≠ [] ∧ tag <+: replicate 16 ctx.2.sum then some [] else none }

theorem prefixEvp_compares : TagCompares prefixEvp fun ctx => replicate 16 ctx.2.sum where
  length _ := length_replicate
  accepts ctx tag := by
    show (if tag ≠ [] ∧ tag <+: replicate 16 ctx.2.sum then some [] else none).isSome = true ↔ _
    split
    · next accepted => exact ⟨fun _ => accepted, fun _ => rfl⟩
    · next rejected => exact ⟨nofun, fun accepted => absurd accepted rejected⟩

/-- The metadata and the message. -/
def oneByteMessage : Bytes :=
  ascii "V:1\nR:32:" ++ replicate 32 3 ++ ascii ":1:\n\nIV:12:" ++ replicate 12 0 ++ ascii "\nM:h"

/-- The line of a tag. -/
def tagLineOf (tag : Bytes) : Bytes := 61 :: b64Encode tag

/-- The message with a tag. -/
def oneByteText (tag : Bytes) : Bytes := oneLineText oneByteMessage (tagLineOf tag ++ [10])

/-- What the decrypter knows when the message was read. -/
def oneByteDecrypter (tagFound : Bool) (base64 tag : Bytes) : Decrypter (UInt8 × Bytes) :=
  ⟨true, tagFound, ⟨true, true, true, [10], replicate 12 0, [replicate 32 3]⟩,
    some (7, [97]), base64, [], tag⟩

/-- The lines of the message. -/
def oneByteLines : List Bytes := [[10], b64Encode oneByteMessage ++ [10]]

theorem oneByteLine_read :
    decrypterLine prefixEvp 3 .lined (b64Encode oneByteMessage ++ [10]) [] =
      .ok (oneByteDecrypter false [10] [], [97], true) := rfl

/-- The places in the text of the message. -/
theorem reaches_oneByte {tag : Bytes} {reading : Reading (UInt8 × Bytes)}
    (third : (⟨oneByteDecrypter false [10] [], [97], oneByteLines, [], tagLineOf tag ++ [10]⟩ :
      Reading (UInt8 × Bytes)).nextPiece = some (tagLineOf tag ++ [10]))
    (read : decrypterTag (oneByteDecrypter false [10] []) (tagLineOf tag ++ [10]) =
      .ok (oneByteDecrypter true [] tag))
    (reached : Reaches prefixEvp 3 (.start (oneByteText tag)) reading) :
    reading.dc.headerFound = false ∨
      reading = ⟨.headed, [], [], [], 10 :: (b64Encode oneByteMessage ++ 10 :: (tagLineOf tag ++ [10]))⟩ ∨
      reading = ⟨.lined, [], [[10]], [], b64Encode oneByteMessage ++ 10 :: (tagLineOf tag ++ [10])⟩ ∨
      reading = ⟨oneByteDecrypter false [10] [], [97], oneByteLines, [], tagLineOf tag ++ [10]⟩ ∨
      reading = ⟨oneByteDecrypter true [] tag, [97], oneByteLines, tagLineOf tag ++ [10], []⟩ := by
  have first : Advances prefixEvp 3 (.start (oneByteText tag))
      ⟨.headed, [], [], [], 10 :: (b64Encode oneByteMessage ++ 10 :: (tagLineOf tag ++ [10]))⟩ :=
    .header (.start (oneByteText tag)) pemHeader _ rfl rfl rfl (by decide)
  have second : Advances prefixEvp 3
      ⟨.headed, [], [], [], 10 :: (b64Encode oneByteMessage ++ 10 :: (tagLineOf tag ++ [10]))⟩
      ⟨.lined, [], [[10]], [], b64Encode oneByteMessage ++ 10 :: (tagLineOf tag ++ [10])⟩ :=
    .line _ [10] _ _ _ true rfl rfl (by decide) rfl
  have line : Advances prefixEvp 3
      ⟨.lined, [], [[10]], [], b64Encode oneByteMessage ++ 10 :: (tagLineOf tag ++ [10])⟩
      ⟨oneByteDecrypter false [10] [], [97], oneByteLines, [], tagLineOf tag ++ [10]⟩ :=
    .line _ (b64Encode oneByteMessage ++ [10]) _ _ _ true rfl rfl (by decide) oneByteLine_read
  have last : Advances prefixEvp 3
      ⟨oneByteDecrypter false [10] [], [97], oneByteLines, [], tagLineOf tag ++ [10]⟩
      ⟨oneByteDecrypter true [] tag, [97], oneByteLines, tagLineOf tag ++ [10], []⟩ :=
    .tag _ _ _ _ third (append_nil _).symm rfl read
  rcases reached.next first with rfl | reached
  · exact .inl rfl
  rcases Reaches.next second reached with rfl | reached
  · exact .inr (.inl rfl)
  rcases Reaches.next line reached with rfl | reached
  · exact .inr (.inr (.inl rfl))
  rcases Reaches.next last reached with rfl | reached
  · exact .inr (.inr (.inr (.inl rfl)))
  · exact .inr (.inr (.inr (.inr (Reaches.stays rfl rfl reached))))

/-- What begins with a colon is not the fingerprint. -/
theorem not_misleads (buffer : Bytes) : ¬ Misleads (prefixEvp.fingerprint 3) buffer := by
  rintro ⟨line, rest, valid, hashless, -, taken⟩
  cases line with
  | version digits => exact hashless
  | recipient digits hash keyDigits key =>
    rw [show hash = [] from hashless] at taken
    exact absurd (cons.inj (cons.inj taken).1).1 (by decide)
  | iv digits vector => exact hashless

theorem genuine_oneByte {reading : Reading (UInt8 × Bytes)}
    (reached : Reaches prefixEvp 3 (.start (oneByteText (replicate 16 97))) reading) :
    Genuine prefixEvp 3 reading := by
  have hashes : reading.Allows prefixEvp 3 fun buffer =>
      ¬ Misleads (prefixEvp.fingerprint 3) buffer := fun _ _ _ buffer _ => not_misleads buffer
  have line : ∀ other, reading.nextPiece = some other → other.head? = some 61 →
      (b642binStream (other.drop 1)).1.length = 16 ∧ (b642binStream reading.dc.base64).1 = [] := by
    intro other next tagged
    rcases reaches_oneByte rfl rfl reached with unread | rfl | rfl | rfl | rfl
    · exact absurd ((nextPiece_fits next).1.symm.trans unread) nofun
    · obtain rfl : [10] = other := Option.some.inj next
      exact absurd (Option.some.inj tagged) (by decide)
    · have line : (⟨.lined, [], [[10]], [], b64Encode oneByteMessage ++
          10 :: (tagLineOf (replicate 16 97) ++ [10])⟩ : Reading (UInt8 × Bytes)).nextPiece =
          some (b64Encode oneByteMessage ++ [10]) := rfl
      cases line.symm.trans next
      exact absurd (Option.some.inj tagged) (by decide)
    · have line : (⟨oneByteDecrypter false [10] [], [97], oneByteLines, [],
          tagLineOf (replicate 16 97) ++ [10]⟩ : Reading (UInt8 × Bytes)).nextPiece =
          some (tagLineOf (replicate 16 97) ++ [10]) := rfl
      cases line.symm.trans next
      exact ⟨rfl, rfl⟩
    · exact absurd (nextPiece_fits next).2.1 nofun
  exact ⟨fun other next tagged => .inr (Nat.le_of_eq (line other next tagged).1.symm),
    fun other next tagged => (line other next tagged).2, hashes⟩

/-- The message is decrypted with its whole tag, in whatever pieces, and it was fully authenticated. -/
theorem onlyAuthentic_oneByte :
    OnlyAuthentic prefixEvp 3 (fun ctx => replicate 16 ctx.2.sum)
      [(oneByteText (replicate 16 97)).take 90, (oneByteText (replicate 16 97)).drop 90] :=
  onlyAuthentic_of_genuine prefixEvp _ prefixEvp_compares 3 _ (by
    have whole : [(oneByteText (replicate 16 97)).take 90,
        (oneByteText (replicate 16 97)).drop 90].flatten = oneByteText (replicate 16 97) := by
      simp
    rw [whole]
    exact fun reading reached => genuine_oneByte reached)

/-- A message is decrypted of whose tag one byte is there. -/
theorem oneByte_decrypted :
    decrypt prefixEvp 3 [oneByteText [97]] = .ok ([97], [replicate 32 3]) := by
  have some : oneByteMessage ≠ [] := cons_ne_nil _ _
  have tag : decrypterTag (oneByteDecrypter false [10] []) (tagLineOf [97] ++ [10]) =
      .ok (oneByteDecrypter true [] [97]) := rfl
  have loop := @decrypterLoop_tagLine _ _ _ prefixEvp 3 _ _ (tagLineOf [97]) [] [97] (by decide) rfl
    (by decide) rfl tag
  rw [decrypt, decrypterDeliver, nil_append, oneByteText,
    decrypterUpdate_oneLine 3 some (by decide), oneByteLine_read]
  dsimp only
  rw [loop]
  rfl

theorem onlyAuthentic_fails :
    ¬ OnlyAuthentic prefixEvp 3 (fun ctx => replicate 16 ctx.2.sum) [oneByteText [97]] := by
  intro authentic
  obtain ⟨reading, line, rest, reads, parts, verified⟩ := authentic _ _ oneByte_decrypted
  have whole := verified.whole
  have sixteen := verified.sixteen
  have reached := verified.reached
  rw [flatten_singleton] at whole reached
  rcases reaches_oneByte rfl rfl reached with unread | rfl | rfl | rfl | rfl
  · have progress := @Reading.Progress.run _ _ _ prefixEvp 3 (fun _ => True) _ _ reached
      fun _ _ _ _ _ _ _ => trivial
    cases progress with
    | unread => exact absurd verified.last nofun
    | headed dc out lines rest headed => exact absurd (headed.symm.trans unread) nofun
    | tagged dc out lines tagLine rest headed => exact absurd (headed.symm.trans unread) nofun
  · exact absurd verified.last nofun
  · exact absurd verified.last nofun
  · exact absurd verified.last nofun
  · have follows : tagLineOf [97] ++ 10 :: [] = line ++ 10 :: rest := by
      have split : oneByteText [97] =
          pemHeader ++ (oneByteLines.flatten ++ (tagLineOf [97] ++ 10 :: [])) := rfl
      rw [split] at whole
      exact append_cancel_left (append_cancel_left whole)
    obtain ⟨rfl, -⟩ := line_unique follows (by decide) verified.tagLine.2
    exact absurd sixteen (by decide)

end Splintermail
