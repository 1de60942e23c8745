/-
This file says what the decrypter reads of metadata that anybody may have written.

A line that is read is a line of its kind, with the lengths that it declares, whatever
spelling a number has. There are two exceptions. A length of 2^32 - 1 passes the check that
the field is there, because one more wraps to zero, and then a byte far outside of the
buffer is read. A recipient whose hash has a length of zero is taken to be the rest of the
buffer, because zero is the end of a string to `dstr_sub`.
-/

import Splintermail.Crypto.Decrypter
import Splintermail.Lib.Run

namespace Splintermail

open List
open Outcome (Sat)

/-! ### Numbers and fields -/

/-- A text begins with a number and a colon. -/
def Declares (leftover : Bytes) (length : Nat) : Prop :=
  ∃ digits more, leftover = digits ++ 58 :: more ∧ 58 ∉ digits ∧ touBytes digits = .ok length

/-- A text begins with a field, its length before it and a byte after it. -/
def CountedField (stop : UInt8) (leftover field rest : Bytes) : Prop :=
  ∃ digits, leftover = digits ++ 58 :: (field ++ stop :: rest) ∧ 58 ∉ digits ∧
    touBytes digits = .ok field.length

theorem dstrFind_byte_some {byte : UInt8} {text : Bytes} {position which : Nat}
    (found : dstrFind [[byte]] text = some (position, which)) :
    ∃ front tail, text = front ++ byte :: tail ∧ byte ∉ front ∧ front.length = position := by
  by_cases inside : byte ∈ text
  · obtain ⟨front, tail, rfl, apart⟩ := eq_append_cons_of_mem inside
    rw [dstrFind_byte apart] at found
    exact ⟨front, tail, rfl, apart, congrArg Prod.fst (Option.some.inj found)⟩
  · rw [dstrFind_byte_none inside] at found
    exact absurd found nofun

/-- A text that is no number is a parameter that is wrong, and a number is an `unsigned int`. -/
theorem touBytes_sat (text : Bytes) :
    Sat (touBytes text) (· ≤ uintMax) fun error => error.type = .param := by
  unfold touBytes dstrTou dstrToUnsigned
  split
  · split
    · rfl
    · next fits => exact Nat.le_of_not_lt fits
  · rfl

theorem parseDigits_none {reader : Char → Option Nat} {base total : Nat} {text : Text} {char : Char}
    (mem : char ∈ text) (unread : reader char = none) :
    parseDigits reader base total text = none := by
  induction text generalizing total with
  | nil => cases mem
  | cons head rest ih =>
    rw [parseDigits]
    rcases mem_cons.mp mem with rfl | later
    · rw [unread]
    · split
      · rfl
      · split
        · rfl
        · exact ih later

/-- A text is no number if it has a byte in it that is neither a digit nor a sign. -/
theorem touBytes_of_mem {text : Bytes} {byte : UInt8} (mem : byte ∈ text)
    (unread : readBase10 (Char.ofNat byte.toNat) = none)
    (unsigned : ¬(Char.ofNat byte.toNat = '-' ∨ Char.ofNat byte.toNat = '+')) (length : Nat) :
    touBytes text ≠ .ok length := by
  have char : Char.ofNat byte.toNat ∈ text.map fun byte => Char.ofNat byte.toNat :=
    mem_map.mpr ⟨byte, mem, rfl⟩
  have none : parseInteger (text.map fun byte => Char.ofNat byte.toNat) 10 = none := by
    cases chars : text.map fun byte => Char.ofNat byte.toNat with
    | nil => exact absurd (chars ▸ char) not_mem_nil
    | cons first rest =>
      rw [chars] at char
      show (if first = '-' ∨ first = '+' then _ else _) = _
      split
      · next sign =>
        have later : Char.ofNat byte.toNat ∈ rest := by
          rcases mem_cons.mp char with same | later
          · exact absurd (same ▸ sign) unsigned
          · exact later
        rw [parseDigits_none later unread]
        split <;> rfl
      · rw [parseDigits_none char unread]
        rfl
  unfold touBytes dstrTou dstrToUnsigned
  rw [none]
  exact nofun

/-- Where a number ends at the first stop, there is a number before it. -/
theorem touBytes_before {digits more : Bytes} {stop : UInt8} {length : Nat}
    (unread : readBase10 (Char.ofNat stop.toNat) = none)
    (unsigned : ¬(Char.ofNat stop.toNat = '-' ∨ Char.ofNat stop.toNat = '+'))
    (number : touBytes (dstrSub (digits ++ stop :: more) 0 digits.length) = .ok length) :
    touBytes digits = .ok length := by
  -- without digits the whole text would be taken for the number
  have some : digits.length ≠ 0 := fun none => by
    rw [length_eq_zero_iff.mp none, length_nil, dstrSub_rest] at number
    exact touBytes_of_mem (by simp) unread unsigned length number
  rwa [dstrSub_zero some, take_left] at number

variable {stop : UInt8} {problem : String} {leftover : Bytes}

/-- What a counted field is, if it is there. -/
theorem countedField_sat (stop : UInt8) (problem : String)
    (small : leftover.length ≤ decrypterSize) :
    Sat (countedField stop problem leftover)
      (fun found => ∀ length field rest, found = some (length, field, rest) →
        ∃ declared, CountedField stop leftover declared rest ∧ declared.length = length ∧
          field = if declared = [] then stop :: rest else declared)
      fun error => error.type = .param ∨ error.type = .overread ∧ Declares leftover uintMax := by
  unfold countedField
  have colon : ascii ":" = [58] := rfl
  rw [colon]
  cases found : dstrFind [[58]] leftover with
  | none =>
    dsimp only
    split
    · exact nofun
    · exact .inl rfl
  | some place =>
  obtain ⟨position, which⟩ := place
  obtain ⟨digits, more, rfl, apart, rfl⟩ := dstrFind_byte_some found
  dsimp only
  cases whole : touBytes (dstrSub (digits ++ 58 :: more) 0 digits.length) with
  | error error => exact .inl ((touBytes_sat _).of_error whole)
  | ok length =>
  have fits : length ≤ uintMax := (touBytes_sat _).of_ok whole
  have number : touBytes digits = .ok length := touBytes_before (by decide) (by decide) whole
  have after : dstrSub (digits ++ 58 :: more) (digits.length + 1) 0 = more := by
    rw [dstrSub_rest, ← drop_drop, drop_left]
    rfl
  have short : more.length < 2 ^ 32 - 1 := by
    rw [length_append, length_cons] at small
    unfold decrypterSize at small
    omega
  dsimp only
  rw [after]
  by_cases wraps : length = uintMax
  · subst wraps
    have zero : (uintMax + 1) % 2 ^ 32 = 0 := by decide
    have outside : more[uintMax]? = none := getElem?_eq_none (Nat.le_of_lt short)
    rw [zero, if_neg (Nat.not_lt_zero _), outside]
    exact .inr ⟨rfl, digits, more, rfl, apart, number⟩
  · have next : (length + 1) % 2 ^ 32 = length + 1 := Nat.mod_eq_of_lt (by
      unfold uintMax at fits wraps
      omega)
    rw [next]
    split
    · exact nofun
    · next room =>
      have inside : length < more.length := Nat.lt_of_succ_le (Nat.le_of_not_lt room)
      rw [getElem?_eq_getElem inside]
      dsimp only
      split
      · next stops =>
        intro length' field rest same
        cases same
        have split : more = more.take length ++ stop :: more.drop (length + 1) := by
          rw [← stops, getElem_cons_drop, take_append_drop]
        have size : (more.take length).length = length :=
          length_take_of_le (Nat.le_of_lt inside)
        refine ⟨more.take length, ⟨digits, ?_, apart, ?_⟩, size, ?_⟩
        · rw [dstrSub_rest, ← split]
        · rw [size]
          exact number
        · by_cases zero : length = 0
          · subst zero
            rw [take_zero, if_pos rfl, dstrSub_rest, dstrSub_rest, drop_zero]
            exact split
          · have some : more.take length ≠ [] := fun none => zero (by rw [← size, none]; rfl)
            rw [if_neg some, dstrSub_zero zero]
      · exact .inl rfl

/-! ### Lines -/

/-- A line of metadata as anybody may have written it, with its numbers as they are spelled. -/
inductive TextLine where
  | version (digits : Bytes)
  | recipient (digits hash keyDigits key : Bytes)
  | iv (digits vector : Bytes)

open TextLine

namespace TextLine

def bytes : TextLine → Bytes
  | version digits => ascii "V:" ++ (digits ++ [10])
  | recipient digits hash keyDigits key =>
    ascii "R:" ++ (digits ++ 58 :: (hash ++ 58 :: (keyDigits ++ 58 :: (key ++ [10]))))
  | iv digits vector => ascii "IV:" ++ (digits ++ 58 :: (vector ++ [10]))

/-- The numbers are what they should be. -/
def Valid : TextLine → Prop
  | version digits => touBytes digits = .ok 1
  | recipient digits hash keyDigits key =>
    touBytes digits = .ok hash.length ∧ touBytes keyDigits = .ok key.length
  | iv digits vector => touBytes digits = .ok vector.length ∧ vector.length = 12

def isVersion : TextLine → Bool
  | version _ => true
  | _ => false

def isIv : TextLine → Bool
  | iv _ _ => true
  | _ => false

/-- The hash that a line declares. -/
def hashes : TextLine → List Bytes
  | recipient _ hash _ _ => [hash]
  | _ => []

/-- The hash that is taken from a line, with `rest` after it in the buffer. -/
def taken (rest : Bytes) : TextLine → List Bytes
  | recipient _ hash keyDigits key =>
    [if hash = [] then 58 :: (keyDigits ++ 58 :: (key ++ 10 :: rest)) else hash]
  | _ => []

/-- The line of a recipient without a hash. -/
def Hashless : TextLine → Prop
  | recipient _ hash _ _ => hash = []
  | _ => False

theorem taken_eq {line : TextLine} (rest : Bytes) (hashed : ¬ line.Hashless) :
    line.taken rest = line.hashes := by
  cases line with
  | version digits => rfl
  | recipient digits hash keyDigits key => exact congrArg (fun hash => [hash]) (if_neg hashed)
  | iv digits vector => rfl

end TextLine

/-- A line that was read, with what was after it in the buffer. -/
abbrev LineRead : Type := TextLine × Bytes

/-- The buffer when the line was read. -/
def LineRead.buffer (read : LineRead) : Bytes := read.1.bytes ++ read.2

/-- The bytes of the lines. -/
def textOf (reads : List LineRead) : Bytes := reads.flatMap fun read => read.1.bytes

/-- The hashes that the lines declare. -/
def declaredHashes (reads : List LineRead) : List Bytes := reads.flatMap fun read => read.1.hashes

/-- The hashes that are taken from the lines. -/
def takenHashes (reads : List LineRead) : List Bytes :=
  reads.flatMap fun read => read.1.taken read.2

theorem takenHashes_eq {reads : List LineRead} (hashed : ∀ read ∈ reads, ¬ read.1.Hashless) :
    takenHashes reads = declaredHashes reads :=
  flatMap_congr fun read mem => taken_eq read.2 (hashed read mem)

/-- What the decrypter knows before and after it has read some lines, apart from the key that is
encrypted to it. -/
structure Tells (fingerprint : Bytes) (reads : List LineRead) (before after : Metadata) : Prop where
  recips : after.recips = before.recips ++ takenHashes reads
  version : after.versionFound = (before.versionFound || reads.any fun read => read.1.isVersion)
  key : after.keyFound = (before.keyFound || decide (fingerprint ∈ takenHashes reads))
  iv : after.ivFound = (before.ivFound || reads.any fun read => read.1.isIv)

theorem Tells.refl (fingerprint : Bytes) (metadata : Metadata) :
    Tells fingerprint [] metadata metadata := by
  constructor <;> simp [takenHashes]

theorem Tells.trans {fingerprint : Bytes} {reads more : List LineRead}
    {before middle after : Metadata} (first : Tells fingerprint reads before middle)
    (second : Tells fingerprint more middle after) :
    Tells fingerprint (reads ++ more) before after := by
  have hashes : takenHashes (reads ++ more) = takenHashes reads ++ takenHashes more :=
    flatMap_append
  constructor
  · rw [second.recips, first.recips, hashes, append_assoc]
  · rw [second.version, first.version, any_append, Bool.or_assoc]
  · rw [second.key, first.key, hashes, Bool.or_assoc]
    simp [Bool.decide_or]
  · rw [second.iv, first.iv, any_append, Bool.or_assoc]

/-! ### One line -/

/-- A length field that is read of the line at the beginning of the buffer is 2^32 - 1. -/
def Overlong (buffer : Bytes) : Prop :=
  (∃ leftover, buffer = ascii "R:" ++ leftover ∧ (Declares leftover uintMax ∨
    ∃ hash between, CountedField 58 leftover hash between ∧ Declares between uintMax)) ∨
  ∃ leftover, buffer = ascii "IV:" ++ leftover ∧ Declares leftover uintMax

/-- The errors of a message that cannot be decrypted. -/
def DecryptErr (type : DerrType) : Prop := type = .param ∨ type = .ssl ∨ type = .not4me

section

variable {Key SealCtx OpenCtx : Type} {evp : Evp Key SealCtx OpenCtx} {kp : Key}
  {metadata : Metadata} {leftover : Bytes}

/-- A step has read what is at the beginning of the buffer. -/
def StepReads (evp : Evp Key SealCtx OpenCtx) (kp : Key) (metadata : Metadata) (buffer : Bytes) :
    MetadataStep OpenCtx → Prop
  | .wait => True
  | .next after rest => ∃ line : TextLine, line.Valid ∧ buffer = line.bytes ++ rest ∧
      (line.isVersion = true ∨ metadata.versionFound = true) ∧
      Tells (evp.fingerprint kp) [(line, rest)] metadata after
  | .started after ctx rest => after = metadata ∧ buffer = messageTag ++ rest ∧
      metadata.versionFound = true ∧ metadata.keyFound = true ∧ metadata.ivFound = true ∧
      evp.openInit kp metadata.encKey metadata.iv = some ctx

theorem TextLine.length_lt (line : TextLine) {buffer rest : Bytes}
    (begins : buffer = line.bytes ++ rest) : rest.length < buffer.length := by
  have tag : 0 < line.bytes.length := by
    cases line <;> simp [bytes, ascii]
  rw [begins, length_append]
  exact Nat.lt_add_of_pos_left tag

/-- What can be wrong at the beginning of the buffer. -/
def StepFails (metadata : Metadata) (buffer : Bytes) (error : Derr) : Prop :=
  DecryptErr error.type ∨ error.type = .overread ∧ metadata.versionFound = true ∧ Overlong buffer

theorem parseVersion_sat (metadata : Metadata) (leftover : Bytes) :
    Sat (parseVersion metadata leftover)
      (StepReads evp kp metadata (ascii "V:" ++ leftover)) (StepFails metadata (ascii "V:" ++ leftover)) := by
  unfold parseVersion
  have newline : ascii "\n" = [10] := rfl
  rw [newline]
  cases found : dstrFind [[10]] leftover with
  | none =>
    dsimp only
    split
    · exact trivial
    · exact .inl (.inl rfl)
  | some place =>
  obtain ⟨position, which⟩ := place
  obtain ⟨digits, rest, rfl, apart, rfl⟩ := dstrFind_byte_some found
  dsimp only
  cases number : touBytes (dstrSub (digits ++ 10 :: rest) 0 digits.length) with
  | error error => exact .inl (.inl ((touBytes_sat _).of_error number))
  | ok version =>
  dsimp only
  split
  · exact .inl (.inl rfl)
  · next one =>
    rw [not_not] at one
    subst one
    have spelled : touBytes digits = .ok 1 := touBytes_before (by decide) (by decide) number
    have after : (digits ++ 10 :: rest).drop (digits.length + 1) = rest := by
      rw [← drop_drop, drop_left]
      rfl
    have whole : ascii "V:" ++ (digits ++ 10 :: rest) = (version digits).bytes ++ rest := by
      simp [bytes]
    rw [after]
    refine ⟨.version digits, spelled, whole, .inl rfl, ?_⟩
    constructor <;> simp [takenHashes, isVersion, isIv, taken]

/-- A counted field as the bytes it is written with. -/
theorem CountedField.bytes {stop : UInt8} {field rest : Bytes}
    (counted : CountedField stop leftover field rest) :
    ∃ digits, touBytes digits = .ok field.length ∧
      leftover = digits ++ 58 :: (field ++ [stop]) ++ rest := by
  obtain ⟨digits, same, _, number⟩ := counted
  exact ⟨digits, number, by simp [same]⟩

section

variable (found : metadata.versionFound = true)

include found

theorem parseRecipient_sat (small : leftover.length ≤ decrypterSize) :
    Sat (parseRecipient evp kp metadata leftover)
      (StepReads evp kp metadata (ascii "R:" ++ leftover)) (StepFails metadata (ascii "R:" ++ leftover)) := by
  unfold parseRecipient
  have first := countedField_sat 58 "failed to parse R line" small
  cases read : countedField 58 "failed to parse R line" leftover with
  | error error =>
    rw [read] at first
    rcases first with param | ⟨overread, declares⟩
    · exact .inl (.inl param)
    · exact .inr ⟨overread, found, .inl ⟨leftover, rfl, .inl declares⟩⟩
  | ok counted =>
  cases counted with
  | none => exact trivial
  | some counted =>
  obtain ⟨length, hash, between⟩ := counted
  rw [read] at first
  obtain ⟨declared, hashField, size, hashed⟩ := first length hash between rfl
  obtain ⟨digits, number, spelled⟩ := hashField.bytes
  have shorter : between.length ≤ decrypterSize := by
    refine Nat.le_trans ?_ small
    rw [spelled, length_append]
    exact Nat.le_add_left _ _
  have second := countedField_sat 10 "failed to parse R line" shorter
  dsimp only
  cases keyRead : countedField 10 "failed to parse R line" between with
  | error error =>
    rw [keyRead] at second
    rcases second with param | ⟨overread, declares⟩
    · exact .inl (.inl param)
    · exact .inr ⟨overread, found, .inl ⟨leftover, rfl, .inr ⟨declared, between, hashField, declares⟩⟩⟩
  | ok counted =>
  cases counted with
  | none => exact trivial
  | some counted =>
  obtain ⟨keyLength, key, rest⟩ := counted
  rw [keyRead] at second
  obtain ⟨declaredKey, keyField, _⟩ := second keyLength key rest rfl
  obtain ⟨keyDigits, keyNumber, keySpelled⟩ := keyField.bytes
  have whole : ascii "R:" ++ leftover =
      (recipient digits declared keyDigits declaredKey).bytes ++ rest := by
    rw [spelled, keySpelled]
    simp [bytes]
  have valid : (recipient digits declared keyDigits declaredKey).Valid :=
    ⟨number, keyNumber⟩
  refine ⟨_, valid, whole, .inr found, ?_⟩
  have same : (recipient digits declared keyDigits declaredKey).taken rest = [hash] := by
    have after : between = keyDigits ++ 58 :: (declaredKey ++ 10 :: rest) := by
      rw [keySpelled]
      simp
    rw [hashed, after]
    rfl
  constructor <;> simp [takenHashes, same, isVersion, isIv, eq_comm]

theorem parseIv_sat (small : leftover.length ≤ decrypterSize) :
    Sat (parseIv metadata leftover)
      (StepReads evp kp metadata (ascii "IV:" ++ leftover)) (StepFails metadata (ascii "IV:" ++ leftover)) := by
  unfold parseIv
  have field := countedField_sat 10 "failed to parse IV line" small
  cases read : countedField 10 "failed to parse IV line" leftover with
  | error error =>
    rw [read] at field
    rcases field with param | ⟨overread, declares⟩
    · exact .inl (.inl param)
    · exact .inr ⟨overread, found, .inr ⟨leftover, rfl, declares⟩⟩
  | ok counted =>
  cases counted with
  | none => exact trivial
  | some counted =>
  obtain ⟨length, vector, rest⟩ := counted
  rw [read] at field
  obtain ⟨declared, ivField, size, _⟩ := field length vector rest rfl
  obtain ⟨digits, number, spelled⟩ := ivField.bytes
  dsimp only
  split
  · exact .inl (.inl rfl)
  · next twelve =>
    have whole : ascii "IV:" ++ leftover = (iv digits declared).bytes ++ rest := by
      rw [spelled]
      simp [bytes]
    refine ⟨.iv digits declared, ⟨number, size.trans (not_not.mp twelve)⟩, whole, .inr found, ?_⟩
    constructor <;> simp [takenHashes, taken, isVersion, isIv]

theorem parseMessage_sat (leftover : Bytes) :
    Sat (parseMessage evp kp metadata leftover)
      (StepReads evp kp metadata (messageTag ++ leftover)) (StepFails metadata (messageTag ++ leftover)) := by
  unfold parseMessage
  split
  · exact .inl (.inr (.inr rfl))
  split
  · exact .inl (.inl rfl)
  split
  · exact .inl (.inl rfl)
  next keyFound ivFound _ =>
  rw [Bool.not_eq_true', Bool.not_eq_false] at keyFound ivFound
  split
  · exact .inl (.inr (.inl rfl))
  · next ctx opened => exact ⟨rfl, rfl, found, keyFound, ivFound, opened⟩

end

/-- What one pass through the loop reads, and what can be wrong. -/
theorem metadataStep_sat (metadata : Metadata) {buffer : Bytes}
    (small : buffer.length ≤ decrypterSize) :
    Sat (metadataStep evp kp metadata buffer) (StepReads evp kp metadata buffer)
      (StepFails metadata buffer) := by
  unfold metadataStep
  split
  · next which found =>
    obtain ⟨front, tail, rfl, empty, bound⟩ := dstrFind_spec found
    rw [length_eq_zero_iff.mp empty, nil_append] at small ⊢
    split
    · exact .inl (.inl rfl)
    next versionFirst =>
    rw [dstrSub_rest, drop_left]
    have shorter : tail.length ≤ decrypterSize := by
      rw [length_append] at small
      exact Nat.le_trans (Nat.le_add_left _ _) small
    match which, bound with
    | 0, _ => exact parseVersion_sat metadata tail
    | 1, _ => exact parseRecipient_sat (by simpa using versionFirst) shorter
    | 2, _ => exact parseIv_sat (by simpa using versionFirst) shorter
    | 3, _ => exact parseMessage_sat (by simpa using versionFirst) tail
  · exact .inl (.inl rfl)

/-! ### The loop -/

/-- The buffers of the passes through the loop, once the version is known. -/
def passes (evp : Evp Key SealCtx OpenCtx) (kp : Key) : Nat → Metadata → Bytes → List Bytes
  | 0, _, _ => []
  | fuel + 1, metadata, buffer =>
    if buffer.length < 3 then []
    else
      (if metadata.versionFound then [buffer] else []) ++
        match metadataStep evp kp metadata buffer with
        | .ok (.next metadata rest) => passes evp kp fuel metadata rest
        | _ => []

/-- What the loop has read, with each line in one of its passes, and what it leaves. -/
def LoopReads (evp : Evp Key SealCtx OpenCtx) (kp : Key) (passed : List Bytes) (metadata : Metadata)
    (buffer : Bytes) : Metadata × Option OpenCtx × Bytes → Prop
  | (after, opened, rest) => ∃ reads : List LineRead,
      (∀ read ∈ reads, read.1.Valid ∧ (read.1.isVersion = true ∨ read.buffer ∈ passed)) ∧
      Tells (evp.fingerprint kp) reads metadata after ∧ match opened with
      | none => buffer = textOf reads ++ rest
      | some ctx => buffer = textOf reads ++ (messageTag ++ rest) ∧ after.versionFound = true ∧
          after.keyFound = true ∧ after.ivFound = true ∧
          evp.openInit kp after.encKey after.iv = some ctx

theorem LoopReads.none (passed : List Bytes) (metadata : Metadata) (buffer : Bytes) :
    LoopReads evp kp passed metadata buffer (metadata, none, buffer) :=
  ⟨[], nofun, .refl _ _, rfl⟩

/-- One more line before what the loop reads. -/
theorem LoopReads.cons {line : TextLine} {buffer rest : Bytes} {middle : Metadata}
    {first passed : List Bytes} {result : Metadata × Option OpenCtx × Bytes} (valid : line.Valid)
    (begins : buffer = line.bytes ++ rest) (pass : line.isVersion = true ∨ buffer ∈ first)
    (tells : Tells (evp.fingerprint kp) [(line, rest)] metadata middle)
    (later : LoopReads evp kp passed middle rest result) :
    LoopReads evp kp (first ++ passed) metadata buffer result := by
  obtain ⟨after, opened, remaining⟩ := result
  obtain ⟨reads, each, told, text⟩ := later
  subst begins
  refine ⟨(line, rest) :: reads, ?_, tells.trans told, ?_⟩
  · intro read mem
    rcases mem_cons.mp mem with rfl | mem
    · exact ⟨valid, pass.imp_right fun here => mem_append_left _ here⟩
    · obtain ⟨valid, pass⟩ := each read mem
      exact ⟨valid, pass.imp_right fun here => mem_append_right _ here⟩
  · have spelled (more : Bytes) :
        line.bytes ++ (textOf reads ++ more) = textOf ((line, rest) :: reads) ++ more :=
      (append_assoc _ _ _).symm
    cases opened with
    | none => exact (congrArg (line.bytes ++ ·) text).trans (spelled _)
    | some ctx => exact text.imp_left fun text => (congrArg (line.bytes ++ ·) text).trans (spelled _)

/-- What the loop reads, and what can be wrong. -/
theorem parseMetadataFrom_sat (fuel : Nat) (metadata : Metadata) {buffer : Bytes}
    (small : buffer.length ≤ decrypterSize) :
    Sat (parseMetadataFrom evp kp fuel metadata buffer)
      (LoopReads evp kp (passes evp kp fuel metadata buffer) metadata buffer)
      fun error => DecryptErr error.type ∨
        error.type = .overread ∧ ∃ pass ∈ passes evp kp fuel metadata buffer, Overlong pass := by
  induction fuel generalizing metadata buffer with
  | zero => exact .none _ _ _
  | succ fuel ih =>
    rw [parseMetadataFrom, passes]
    split
    · exact .none _ _ _
    have step := @metadataStep_sat _ _ _ evp kp metadata _ small
    cases result : metadataStep evp kp metadata buffer with
    | error error =>
      rw [result] at step
      rcases step with known | ⟨past, found, long⟩
      · exact .inl known
      · exact .inr ⟨past, buffer, by simp [found], long⟩
    | ok found =>
    rw [result] at step
    cases found with
    | wait => exact .none _ _ _
    | started after ctx rest =>
      obtain ⟨rfl, begins, found⟩ := step
      exact ⟨[], nofun, .refl _ _, begins, found⟩
    | next after rest =>
      obtain ⟨line, valid, begins, version, tells⟩ := step
      have shorter := line.length_lt begins
      have later := ih after (Nat.le_trans (Nat.le_of_lt shorter) small)
      dsimp only
      cases result : parseMetadataFrom evp kp fuel after rest with
      | error error =>
        rw [result] at later
        rcases later with known | ⟨past, pass, mem, long⟩
        · exact .inl known
        · exact .inr ⟨past, pass, mem_append_right _ mem, long⟩
      | ok found =>
        rw [result] at later
        exact LoopReads.cons valid begins (version.imp_right fun found => by simp [found]) tells later

end

end Splintermail
