/-
This file proves when a message that was encrypted is decrypted again.

The metadata is a list of lines. Whatever part of the decoded bytes the parser is given,
it reads the lines that are complete and waits in the middle of the next one, so the
state after each line of base64 is told by what is decoded so far. The message itself
begins once a byte of it is there. A message without any bytes therefore never begins,
and its text cannot be decrypted by anyone.
-/

import Splintermail.Crypto.Decrypter

namespace Splintermail

open List

/-! ### Lines of metadata -/

/-- A line of the metadata. -/
inductive MetadataLine where
  | version
  | recipient (fingerprint ek : Bytes)
  | iv (vector : Bytes)

open MetadataLine

namespace MetadataLine

def bytes : MetadataLine → Bytes
  | version => versionLine
  | recipient fingerprint ek => recipientLine fingerprint ek
  | iv vector => ivLine vector

/-- The lengths that the fields of a line have. -/
def Valid : MetadataLine → Prop
  | version => True
  | recipient fingerprint ek => fingerprint.length = 32 ∧ ek ≠ [] ∧ ek.length < pre64Size
  | iv vector => vector.length = 12

end MetadataLine

section

variable {Key SealCtx OpenCtx : Type} (evp : Evp Key SealCtx OpenCtx) (kp : Key)

/-- What a line tells the decrypter. -/
def MetadataLine.apply (metadata : Metadata) : MetadataLine → Metadata
  | .version => { metadata with versionFound := true }
  | .recipient hash key =>
    { metadata with
      keyFound := metadata.keyFound || decide (hash = evp.fingerprint kp)
      encKey := if hash = evp.fingerprint kp then key else metadata.encKey
      recips := metadata.recips ++ [hash] }
  | .iv vector => { metadata with ivFound := true, iv := vector }

theorem dstrFind_version (rest : Bytes) :
    dstrFind metadataTags (ascii "V:" ++ rest) = some (0, 0) := rfl

theorem dstrFind_recipient (rest : Bytes) :
    dstrFind metadataTags (ascii "R:" ++ rest) = some (0, 1) := rfl

theorem dstrFind_iv (rest : Bytes) :
    dstrFind metadataTags (ascii "IV:" ++ rest) = some (0, 2) := rfl

theorem dstrFind_message (rest : Bytes) :
    dstrFind metadataTags (ascii "M:" ++ rest) = some (0, 3) := rfl

variable {metadata : Metadata}

theorem metadataStep_version (rest : Bytes) :
    metadataStep evp kp metadata (ascii "V:" ++ rest) = parseVersion metadata rest := by
  unfold metadataStep
  rw [dstrFind_version]
  show (if (!metadata.versionFound) = true ∧ (0 : Nat) ≠ 0 then _
    else parseVersion metadata (dstrSub (ascii "V:" ++ rest) 2 0)) = _
  rw [if_neg (fun wrong => wrong.2 rfl), dstrSub_rest]
  rfl

section

variable (found : metadata.versionFound = true)

include found

theorem metadataStep_recipient (rest : Bytes) :
    metadataStep evp kp metadata (ascii "R:" ++ rest) = parseRecipient evp kp metadata rest := by
  unfold metadataStep
  rw [dstrFind_recipient]
  show (if (!metadata.versionFound) = true ∧ (1 : Nat) ≠ 0 then _
    else parseRecipient evp kp metadata (dstrSub (ascii "R:" ++ rest) 2 0)) = _
  rw [if_neg (fun wrong => by simp [found] at wrong), dstrSub_rest]
  rfl

theorem metadataStep_iv (rest : Bytes) :
    metadataStep evp kp metadata (ascii "IV:" ++ rest) = parseIv metadata rest := by
  unfold metadataStep
  rw [dstrFind_iv]
  show (if (!metadata.versionFound) = true ∧ (2 : Nat) ≠ 0 then _
    else parseIv metadata (dstrSub (ascii "IV:" ++ rest) 3 0)) = _
  rw [if_neg (fun wrong => by simp [found] at wrong), dstrSub_rest]
  rfl

theorem metadataStep_message (rest : Bytes) :
    metadataStep evp kp metadata (ascii "M:" ++ rest) = parseMessage evp kp metadata rest := by
  unfold metadataStep
  rw [dstrFind_message]
  show (if (!metadata.versionFound) = true ∧ (3 : Nat) ≠ 0 then _
    else parseMessage evp kp metadata (dstrSub (ascii "M:" ++ rest) 2 0)) = _
  rw [if_neg (fun wrong => by simp [found] at wrong), dstrSub_rest]
  rfl

end

/-- The version comes first. -/
def Ordered (found : Bool) (lines : List MetadataLine) : Prop :=
  found = true ∨ ∃ rest, lines = .version :: rest

variable {line : MetadataLine}

theorem Ordered.found {found : Bool} {rest : List MetadataLine}
    (ordered : Ordered found (line :: rest)) (other : line ≠ .version) : found = true := by
  rcases ordered with found | ⟨tail, same⟩
  · exact found
  · exact absurd (List.cons.inj same).1 other

theorem Ordered.tail {rest : List MetadataLine}
    (ordered : Ordered metadata.versionFound (line :: rest)) :
    Ordered (line.apply evp kp metadata).versionFound rest := by
  cases line with
  | version => exact .inl rfl
  | recipient hash key => exact .inl (ordered.found (by simp))
  | iv vector => exact .inl (ordered.found (by simp))

/-- A line that is all there is read. -/
theorem metadataStep_line (valid : line.Valid) {others : List MetadataLine}
    (ordered : Ordered metadata.versionFound (line :: others)) (rest : Bytes) :
    metadataStep evp kp metadata (line.bytes ++ rest) =
      .ok (.next (line.apply evp kp metadata) rest) := by
  cases line with
  | version =>
    have spans : version.bytes ++ rest = ascii "V:" ++ ([49] ++ 10 :: rest) := rfl
    have found : dstrFind [ascii "\n"] ([49] ++ 10 :: rest) = some (1, 0) :=
      dstrFind_byte (show (10 : UInt8) ∉ ([49] : Bytes) by decide) rest
    have one : touBytes [49] = .ok 1 := touBytes_fmtBytes (show 1 ≤ uintMax by decide)
    rw [spans, metadataStep_version]
    unfold parseVersion
    rw [found]
    dsimp only
    have taken : ([49] ++ 10 :: rest).take 1 = [49] := rfl
    rw [dstrSub_zero (by decide), taken, one]
    rfl
  | recipient hash key =>
    obtain ⟨digest, nonempty, short⟩ := valid
    have limit : pre64Size = 1024 := rfl
    have spans : (recipient hash key).bytes ++ rest =
        ascii "R:" ++ (countedBytes hash 58 ++ (countedBytes key 10 ++ rest)) := by
      simp [bytes, recipientLine]
    have some : hash ≠ [] := fun none => by
      rw [none] at digest
      cases digest
    rw [spans, metadataStep_recipient evp kp (ordered.found (by simp))]
    unfold parseRecipient
    rw [countedField_countedBytes some (by omega)]
    dsimp only
    rw [countedField_countedBytes nonempty (by omega)]
    rfl
  | iv vector =>
    have twelve : vector.length = 12 := valid
    have spans : (iv vector).bytes ++ rest = ascii "IV:" ++ (countedBytes vector 10 ++ rest) := by
      simp [bytes, ivLine]
    have some : vector ≠ [] := fun none => by
      rw [none] at twelve
      cases twelve
    rw [spans, metadataStep_iv evp kp (ordered.found (by simp))]
    unfold parseIv
    rw [countedField_countedBytes some (by omega)]
    dsimp only
    rw [if_neg (by rw [twelve]; decide)]
    rfl

theorem prefix_of_length_le {Value : Type} {front part whole : List Value}
    (starts : part <+: front ++ whole) (long : front.length ≤ part.length) :
    ∃ rest, part = front ++ rest ∧ rest <+: whole := by
  obtain ⟨rest, rfl⟩ : front <+: part :=
    prefix_of_prefix_length_le (prefix_append _ _) starts long
  exact ⟨rest, rfl, (prefix_append_right_inj _).mp starts⟩

/-- A line of which only a part is there is waited for. -/
theorem metadataStep_part (valid : line.Valid) {others : List MetadataLine}
    (ordered : Ordered metadata.versionFound (line :: others)) {part : Bytes}
    (starts : part <+: line.bytes) (long : 3 ≤ part.length)
    (incomplete : part.length < line.bytes.length) :
    metadataStep evp kp metadata part = .ok .wait := by
  have limit : pre64Size = 1024 := rfl
  cases line with
  | version =>
    have whole : version.bytes = ascii "V:" ++ [49, 10] := rfl
    rw [whole] at starts incomplete
    obtain ⟨rest, rfl, within⟩ := prefix_of_length_le starts (by
      have two : (ascii "V:").length = 2 := rfl
      omega)
    rw [length_append] at long incomplete
    have two : (ascii "V:").length = 2 := rfl
    have four : (ascii "V:" ++ [49, 10]).length = 4 := rfl
    rw [metadataStep_version]
    obtain rfl : rest = [49] := by
      rcases rest with _ | ⟨head, _ | ⟨next, tail⟩⟩
      · simp only [length_nil] at long
        omega
      · rw [(cons_prefix_cons.mp within).1]
      · simp only [length_cons] at incomplete
        omega
    rfl
  | recipient hash key =>
    obtain ⟨digest, nonempty, short⟩ := valid
    have two : (ascii "R:").length = 2 := rfl
    have whole : (recipient hash key).bytes =
        ascii "R:" ++ (countedBytes hash 58 ++ countedBytes key 10) := by
      simp [bytes, recipientLine]
    have some : hash ≠ [] := fun none => by
      rw [none] at digest
      cases digest
    rw [whole] at starts incomplete
    obtain ⟨rest, rfl, within⟩ := prefix_of_length_le starts (by omega)
    rw [metadataStep_recipient evp kp (ordered.found (by simp))]
    unfold parseRecipient
    by_cases inside : rest.length < (countedBytes hash 58).length
    · have front : rest <+: countedBytes hash 58 :=
        prefix_of_prefix_length_le within (prefix_append _ _) (by omega)
      rw [countedField_part (by omega) _ front inside]
    · obtain ⟨more, rfl, last⟩ := prefix_of_length_le within (by omega)
      rw [countedField_countedBytes some (by omega)]
      dsimp only
      simp only [length_append] at incomplete
      rw [countedField_part (by omega) _ last (by omega)]
  | iv vector =>
    have twelve : vector.length = 12 := valid
    have three : (ascii "IV:").length = 3 := rfl
    have whole : (iv vector).bytes = ascii "IV:" ++ countedBytes vector 10 := rfl
    rw [whole] at starts incomplete
    obtain ⟨rest, rfl, within⟩ := prefix_of_length_le starts (by omega)
    rw [metadataStep_iv evp kp (ordered.found (by simp))]
    unfold parseIv
    simp only [length_append] at incomplete
    rw [countedField_part (by omega) _ within (by omega)]

/-! ### Parsing what is there -/

/-- The bytes of the lines that are left to read. -/
def linesBytes (lines : List MetadataLine) : Bytes := lines.flatMap bytes

/-- What some lines tell the decrypter. -/
def applyLines (metadata : Metadata) (lines : List MetadataLine) : Metadata :=
  lines.foldl (fun metadata line => line.apply evp kp metadata) metadata

/-- The next line is not all there, or the message has not begun. -/
def Stuck : List MetadataLine → Bytes → Prop
  | [], buffer => buffer.length < 3
  | line :: _, buffer => buffer.length < line.bytes.length

/-- The parser reads the lines that are complete. Then it waits for more, or the message begins. -/
theorem parseMetadataFrom_spec {lines : List MetadataLine} {fuel : Nat}
    {buffer todo cipher : Bytes} (enough : buffer.length ≤ fuel)
    (valid : ∀ line ∈ lines, line.Valid) (ordered : Ordered metadata.versionFound lines)
    (whole : buffer ++ todo = linesBytes lines ++ (messageTag ++ cipher)) :
    (∃ front back left, lines = front ++ back ∧
        parseMetadataFrom evp kp fuel metadata buffer =
          .ok (applyLines evp kp metadata front, none, left) ∧
        left ++ todo = linesBytes back ++ (messageTag ++ cipher) ∧ Stuck back left) ∨
      ∃ text, text ≠ [] ∧ text ++ todo = cipher ∧
        (∀ error, parseMessage evp kp (applyLines evp kp metadata lines) text = .error error →
          parseMetadataFrom evp kp fuel metadata buffer = .error error) ∧
        ∀ known ctx rest, parseMessage evp kp (applyLines evp kp metadata lines) text =
            .ok (.started known ctx rest) →
          parseMetadataFrom evp kp fuel metadata buffer = .ok (known, some ctx, rest) := by
  induction lines generalizing fuel metadata buffer with
  | nil =>
    have message : buffer ++ todo = messageTag ++ cipher := whole
    have found : metadata.versionFound = true := by
      rcases ordered with found | ⟨rest, same⟩
      · exact found
      · cases same
    by_cases short : buffer.length < 3
    · refine .inl ⟨[], [], buffer, rfl, ?_, whole, short⟩
      cases fuel with
      | zero => rfl
      | succ fuel => exact if_pos short
    · have two : messageTag.length = 2 := rfl
      have starts : buffer <+: messageTag ++ cipher := ⟨todo, message⟩
      obtain ⟨text, rfl, -⟩ := prefix_of_length_le starts (by omega)
      rw [append_assoc, append_cancel_left_eq] at message
      refine .inr ⟨text, ?_, message, fun error failed => ?_, fun known ctx rest begins => ?_⟩
      · rintro rfl
        rw [append_nil] at short
        omega
      · cases fuel with
        | zero => omega
        | succ fuel =>
          rw [parseMetadataFrom, if_neg short]
          have here : parseMessage evp kp metadata text = .error error := failed
          unfold messageTag
          rw [metadataStep_message evp kp found, here]
      · cases fuel with
        | zero => omega
        | succ fuel =>
          rw [parseMetadataFrom, if_neg short]
          have here : parseMessage evp kp metadata text = .ok (.started known ctx rest) := begins
          unfold messageTag
          rw [metadataStep_message evp kp found, here]
  | cons line rest ih =>
    have spans : buffer ++ todo = line.bytes ++ (linesBytes rest ++ (messageTag ++ cipher)) := by
      rw [whole]
      simp [linesBytes]
    have here := valid line mem_cons_self
    have starts : buffer <+: line.bytes ++ (linesBytes rest ++ (messageTag ++ cipher)) :=
      ⟨todo, spans⟩
    by_cases incomplete : buffer.length < line.bytes.length
    · refine .inl ⟨[], line :: rest, buffer, rfl, ?_, whole, incomplete⟩
      cases fuel with
      | zero => rfl
      | succ fuel =>
        rw [parseMetadataFrom]
        by_cases short : buffer.length < 3
        · exact if_pos short
        · have within : buffer <+: line.bytes :=
            prefix_of_prefix_length_le starts (prefix_append _ _) (by omega)
          rw [if_neg short, metadataStep_part evp kp here ordered within (by omega) incomplete]
          rfl
    · obtain ⟨left, rfl, -⟩ := prefix_of_length_le starts (by omega)
      rw [append_assoc, append_cancel_left_eq] at spans
      have three : 3 ≤ line.bytes.length := by
        cases line with
        | version => decide
        | recipient hash key =>
          simp only [bytes, recipientLine, countedBytes, length_append, length_cons]
          omega
        | iv vector =>
          have size : (ascii "IV:").length = 3 := rfl
          simp only [bytes, ivLine, countedBytes, length_append, length_cons]
          omega
      rw [length_append] at enough
      cases fuel with
      | zero => omega
      | succ fuel =>
        have step : parseMetadataFrom evp kp (fuel + 1) metadata (line.bytes ++ left) =
            parseMetadataFrom evp kp fuel (line.apply evp kp metadata) left := by
          rw [parseMetadataFrom, if_neg (by rw [length_append]; omega),
            metadataStep_line evp kp here ordered]
        rw [step]
        rcases ih (show left.length ≤ fuel by omega) (fun other mem => valid other (.tail _ mem))
          (ordered.tail evp kp) spans with ⟨front, back, more, rfl, parsed, same, stuck⟩ | begun
        · exact .inl ⟨line :: front, back, more, rfl, parsed, same, stuck⟩
        · exact .inr begun

/-! ### What the metadata says -/

/-- The lines of the metadata. -/
def metadataLines (keys : List Key) : List MetadataLine :=
  .version ::
    ((keys.zip (evp.sealInit keys).1).map
        (fun (key, ek) => .recipient (evp.fingerprint key) ek) ++
      [.iv (evp.sealInit keys).2.1])

/-- The recipients, as their lines tell the decrypter. -/
structure RecipientsRead (pairs : List (Key × Bytes)) (before after : Metadata) : Prop where
  recips : after.recips = before.recips ++ pairs.map fun pair => evp.fingerprint pair.1
  keyFound : after.keyFound = true ↔ before.keyFound = true ∨ kp ∈ pairs.map Prod.fst
  encKey : kp ∈ pairs.map Prod.fst → (kp, after.encKey) ∈ pairs
  kept : kp ∉ pairs.map Prod.fst → after.encKey = before.encKey

theorem applyLines_recipients (injective : Function.Injective evp.fingerprint)
    (pairs : List (Key × Bytes)) (before : Metadata) :
    RecipientsRead evp kp pairs before (applyLines evp kp before
      (pairs.map fun (key, ek) => .recipient (evp.fingerprint key) ek)) := by
  induction pairs generalizing before with
  | nil => exact ⟨(append_nil _).symm, by simp [applyLines], by simp, fun _ => rfl⟩
  | cons pair rest ih =>
    obtain ⟨key, ek⟩ := pair
    have later := ih ((recipient (evp.fingerprint key) ek).apply evp kp before)
    have same : ∀ other, evp.fingerprint other = evp.fingerprint kp ↔ other = kp := fun other =>
      ⟨fun same => injective same, fun same => same ▸ rfl⟩
    refine ⟨?_, ?_, fun mem => ?_, fun other => ?_⟩
    · refine later.recips.trans ?_
      simp [apply]
    · refine later.keyFound.trans ?_
      simp only [apply, Bool.or_eq_true, decide_eq_true_eq, same, map_cons, mem_cons]
      rw [or_assoc, eq_comm (a := key)]
    · by_cases again : kp ∈ rest.map Prod.fst
      · exact .tail _ (later.encKey again)
      · have found : kp = key := (mem_cons.mp mem).resolve_right again
        subst found
        have kept : (applyLines evp kp before (((kp, ek) :: rest).map
            fun (key, ek) => .recipient (evp.fingerprint key) ek)).encKey = ek :=
          (later.kept again).trans (if_pos rfl)
        rw [kept]
        exact mem_cons_self
    · rw [map_cons, mem_cons, not_or] at other
      refine (later.kept other.2).trans ?_
      have differ : ¬evp.fingerprint key = evp.fingerprint kp := fun found =>
        other.1 (injective found).symm
      simp [apply, differ]

variable {evp} {keys : List Key}

theorem mem_keys_iff (lawful : evp.Lawful) (key : Key) :
    key ∈ (keys.zip (evp.sealInit keys).1).map Prod.fst ↔ key ∈ keys := by
  rw [map_fst_zip (le_of_eq (lawful.eks_length keys).symm)]

/-- At the beginning of the message the decrypter has its key, or the message is not for it. -/
theorem parseMessage_spec (lawful : evp.Lawful)
    (short : ∀ ek ∈ (evp.sealInit keys).1, ek.length < pre64Size) (text : Bytes) :
    (kp ∈ keys → ∃ ek known, (kp, ek) ∈ keys.zip (evp.sealInit keys).1 ∧
        known.recips = keys.map evp.fingerprint ∧
        ∀ ctx, evp.openInit kp ek (evp.sealInit keys).2.1 = some ctx →
          parseMessage evp kp (applyLines evp kp .start (metadataLines evp keys)) text =
            .ok (.started known ctx text)) ∧
      (kp ∉ keys → parseMessage evp kp (applyLines evp kp .start (metadataLines evp keys)) text =
        .error ⟨.not4me, "our key not found"⟩) := by
  have read := applyLines_recipients evp kp lawful.fingerprint_injective
    (keys.zip (evp.sealInit keys).1) { Metadata.start with versionFound := true }
  obtain ⟨applied, same⟩ : ∃ applied, applied = applyLines evp kp
      { Metadata.start with versionFound := true }
      ((keys.zip (evp.sealInit keys).1).map
        fun (key, ek) => .recipient (evp.fingerprint key) ek) := ⟨_, rfl⟩
  have whole : applyLines evp kp .start (metadataLines evp keys) =
      { applied with ivFound := true, iv := (evp.sealInit keys).2.1 } := by
    rw [same]
    unfold applyLines metadataLines
    rw [foldl_cons, foldl_append]
    rfl
  rw [← same] at read
  have found := read.keyFound
  rw [mem_keys_iff lawful] at found
  rw [whole]
  constructor
  · intro mem
    have known : applied.keyFound = true := found.mpr (.inr mem)
    have pair := read.encKey ((mem_keys_iff lawful kp).mpr mem)
    have bound := short _ (of_mem_zip pair).2
    refine ⟨applied.encKey, { applied with ivFound := true, iv := (evp.sealInit keys).2.1 }, pair, ?_,
      fun ctx opened => ?_⟩
    · have names : (keys.zip (evp.sealInit keys).1).map (fun pair => evp.fingerprint pair.1) =
          ((keys.zip (evp.sealInit keys).1).map Prod.fst).map evp.fingerprint := by
        rw [map_map]
        rfl
      show applied.recips = _
      rw [read.recips, names, map_fst_zip (le_of_eq (lawful.eks_length keys).symm)]
      rfl
    · unfold parseMessage
      dsimp only
      rw [known, if_neg (by decide), if_neg (by decide), if_neg, opened]
      unfold pre64Size at bound
      unfold intMax
      omega
  · intro other
    have missing : applied.keyFound = false := by
      refine Bool.eq_false_iff.mpr fun known => ?_
      rcases found.mp known with early | mem
      · cases early
      · exact other mem
    unfold parseMessage
    dsimp only
    rw [missing]
    rfl

/-! ### The state after each line -/

/-- The bytes that the text encodes. -/
def messageData (evp : Evp Key SealCtx OpenCtx) (keys : List Key) (cipher : Bytes) : Bytes :=
  linesBytes (metadataLines evp keys) ++ (messageTag ++ cipher)

/-- The state of the decrypter when the bytes `todo` are not decoded yet. -/
inductive DataInv (evp : Evp Key SealCtx OpenCtx) (keys : List Key) (cipher : Bytes)
    (dc : Decrypter OpenCtx) (out todo : Bytes) : Prop where
  | waiting (front back : List MetadataLine) (split : metadataLines evp keys = front ++ back)
      (before : dc.ctx = none) (silent : out = [])
      (metadata : dc.metadata = applyLines evp kp .start front)
      (left : dc.buffer ++ todo = linesBytes back ++ (messageTag ++ cipher))
      (stuck : Stuck back dc.buffer)
  | started (ek : Bytes) (start ctx : OpenCtx) (parts : List Bytes)
      (pair : (kp, ek) ∈ keys.zip (evp.sealInit keys).1)
      (opened : evp.openInit kp ek (evp.sealInit keys).2.1 = some start)
      (run : evp.openRun start parts = some (ctx, out)) (begun : dc.ctx = some ctx)
      (left : parts.flatten ++ todo = cipher) (empty : dc.buffer = [])
      (recips : dc.metadata.recips = keys.map evp.fingerprint) (some : cipher ≠ [])

/-- The message is not for this key, and this is the error. -/
def NotForMe (keys : List Key) (cipher : Bytes) {Value : Type} (result : Except Derr Value) : Prop :=
  kp ∉ keys ∧ cipher ≠ [] ∧ ∃ error, result = .error error ∧ error.type = .not4me

theorem openRun_append (ctx : OpenCtx) (front back : List Bytes) :
    evp.openRun ctx (front ++ back) = (evp.openRun ctx front).bind fun first =>
        (evp.openRun first.1 back).map fun more => (more.1, first.2 ++ more.2) := by
  induction front generalizing ctx with
  | nil =>
    rw [nil_append, Evp.openRun, Option.bind_some]
    cases evp.openRun ctx back with
    | none => rfl
    | some result => rfl
  | cons piece rest ih =>
    rw [cons_append, Evp.openRun, Evp.openRun]
    cases evp.openUpdate ctx piece with
    | none => rfl
    | some first =>
      show ((evp.openRun first.1 (rest ++ back)).bind fun more => _) =
        ((evp.openRun first.1 rest).bind fun more => _).bind _
      rw [ih]
      cases evp.openRun first.1 rest with
      | none => rfl
      | some middle =>
        show ((evp.openRun middle.1 back).map _).bind _ =
          (evp.openRun middle.1 back).map fun more => (more.1, first.2 ++ middle.2 ++ more.2)
        cases evp.openRun middle.1 back with
        | none => rfl
        | some last =>
          show some (last.1, first.2 ++ (middle.2 ++ last.2)) =
            some (last.1, first.2 ++ middle.2 ++ last.2)
          rw [append_assoc]

section

variable {cipher tag : Bytes} {pieces : List Bytes}

/-- What is there of the encrypted message is decrypted. -/
theorem openRun_part (lawful : evp.Lawful)
    (sealed : evp.sealAll (evp.sealInit keys).2.2 pieces = (cipher, tag)) {ek : Bytes}
    (pair : (kp, ek) ∈ keys.zip (evp.sealInit keys).1) {parts : List Bytes} {todo : Bytes}
    (whole : parts.flatten ++ todo = cipher) :
    ∃ start result, evp.openInit kp ek (evp.sealInit keys).2.1 = some start ∧
      evp.openRun start parts = some result := by
  have flat : (parts ++ [todo]).flatten = (evp.sealAll (evp.sealInit keys).2.2 pieces).1 := by
    rw [sealed, flatten_append, flatten_singleton, whole]
  obtain ⟨start, ctx, front, last, opened, run, -⟩ :=
    lawful.opens keys kp ek pair pieces (parts ++ [todo]) flat
  rw [openRun_append] at run
  cases prefixed : evp.openRun start parts with
  | none =>
    rw [prefixed] at run
    cases run
  | some result => exact ⟨start, result, opened, prefixed⟩

/-- A piece of the encrypted message is decrypted, and the run goes on. -/
theorem openUpdate_next (lawful : evp.Lawful)
    (sealed : evp.sealAll (evp.sealInit keys).2.2 pieces = (cipher, tag)) {ek : Bytes}
    (pair : (kp, ek) ∈ keys.zip (evp.sealInit keys).1) {start ctx : OpenCtx} {parts : List Bytes}
    {out piece todo : Bytes} (opened : evp.openInit kp ek (evp.sealInit keys).2.1 = some start)
    (run : evp.openRun start parts = some (ctx, out))
    (whole : parts.flatten ++ (piece ++ todo) = cipher) :
    ∃ ctx' text, evp.openUpdate ctx piece = some (ctx', text) ∧
      evp.openRun start (parts ++ [piece]) = some (ctx', out ++ text) := by
  have flat : (parts ++ [piece]).flatten ++ todo = cipher := by
    rw [← whole]
    simp
  obtain ⟨start', result, again, longer⟩ := openRun_part kp lawful sealed pair flat
  rw [opened] at again
  cases again
  rw [openRun_append, run, Option.bind_some, Evp.openRun] at longer
  rw [openRun_append, run, Option.bind_some, Evp.openRun]
  cases update : evp.openUpdate ctx piece with
  | none =>
    rw [update] at longer
    cases longer
  | some next =>
    obtain ⟨ctx', text⟩ := next
    refine ⟨ctx', text, rfl, ?_⟩
    show some (ctx', out ++ (text ++ [])) = _
    rw [append_nil]

theorem metadataLines_valid (lawful : evp.Lawful)
    (short : ∀ ek ∈ (evp.sealInit keys).1, ek.length < pre64Size) :
    ∀ line ∈ metadataLines evp keys, line.Valid := by
  intro line mem
  rcases mem_cons.mp mem with rfl | mem
  · trivial
  · rcases mem_append.mp mem with mem | mem
    · obtain ⟨⟨key, ek⟩, pair, rfl⟩ := mem_map.mp mem
      have inside := (of_mem_zip pair).2
      exact ⟨lawful.fingerprint_length key, lawful.ek_ne_nil keys ek inside, short ek inside⟩
    · rw [mem_singleton.mp mem]
      exact lawful.iv_length keys

theorem ordered_back {front back : List MetadataLine}
    (split : metadataLines evp keys = front ++ back) :
    Ordered (applyLines evp kp .start front).versionFound back := by
  have after : ∀ (front back : List MetadataLine) (metadata : Metadata),
      Ordered metadata.versionFound (front ++ back) →
        Ordered (applyLines evp kp metadata front).versionFound back := by
    intro front
    induction front with
    | nil => exact fun back metadata ordered => ordered
    | cons line rest ih =>
      intro back metadata ordered
      exact ih back _ (Ordered.tail evp kp ordered)
  exact after front back .start (split ▸ .inr ⟨_, rfl⟩)

theorem applyLines_append (metadata : Metadata) (front back : List MetadataLine) :
    applyLines evp kp (applyLines evp kp metadata front) back =
      applyLines evp kp metadata (front ++ back) :=
  foldl_append.symm

theorem stuck_short {back : List MetadataLine} {buffer : Bytes} (stuck : Stuck back buffer)
    (valid : ∀ line ∈ back, line.Valid) : buffer.length + 48 ≤ decrypterSize := by
  have size : decrypterSize = 2048 := rfl
  have limit : pre64Size = 1024 := rfl
  cases back with
  | nil =>
    have three : buffer.length < 3 := stuck
    omega
  | cons line rest =>
    have below : buffer.length < line.bytes.length := stuck
    have fields := valid line mem_cons_self
    cases line with
    | version =>
      have four : version.bytes.length = 4 := rfl
      omega
    | recipient hash key =>
      obtain ⟨digest, -, short⟩ := fields
      have first := length_fmtBytes_le hash.length (by omega)
      have second := length_fmtBytes_le key.length (by omega)
      have two : (ascii "R:").length = 2 := rfl
      simp only [bytes, recipientLine, countedBytes, length_append,
        length_cons, length_nil] at below
      omega
    | iv vector =>
      have twelve : vector.length = 12 := fields
      have first := length_fmtBytes_le vector.length (by omega)
      have three : (ascii "IV:").length = 3 := rfl
      simp only [bytes, ivLine, countedBytes, length_append, length_cons, length_nil] at below
      omega

/-- A line of base64 is decoded and used, unless the message turns out to be for others. -/
theorem decrypterLine_spec (lawful : evp.Lawful)
    (short : ∀ ek ∈ (evp.sealInit keys).1, ek.length < pre64Size)
    (sealed : evp.sealAll (evp.sealInit keys).2.2 pieces = (cipher, tag))
    {dc : Decrypter OpenCtx} {out todo : Bytes} (inv : DataInv kp evp keys cipher dc out todo)
    (more : todo ≠ []) (clean : dc.base64 = [] ∨ dc.base64 = [10]) :
    (∃ metadata ctx buffer out',
        decrypterLine evp kp dc (b64Encode (todo.take 48) ++ [10]) out =
          .ok ({ dc with base64 := [10], metadata, ctx, buffer }, out', true) ∧
        DataInv kp evp keys cipher { dc with base64 := [10], metadata, ctx, buffer } out'
          (todo.drop 48)) ∨
      NotForMe kp keys cipher (decrypterLine evp kp dc (b64Encode (todo.take 48) ++ [10]) out) := by
  have full : todo.take 48 ≠ [] := fun empty => by
    rcases take_eq_nil_iff.mp empty with zero | nothing
    · cases zero
    · exact more nothing
  have decoded := b642binStream_line clean full
  have length : (todo.take 48).length ≤ 48 := length_take_le 48 todo
  have size : decrypterSize = 2048 := rfl
  have valid : ∀ line ∈ metadataLines evp keys, line.Valid := metadataLines_valid lawful short
  unfold decrypterLine
  dsimp only
  rw [decoded]
  cases inv with
  | waiting front back split before silent metadata left stuck =>
    have room := stuck_short stuck fun line mem =>
      valid line (split ▸ mem_append_right _ mem)
    have whole : dc.buffer ++ todo.take 48 ++ todo.drop 48 =
        linesBytes back ++ (messageTag ++ cipher) := by
      rw [append_assoc, take_append_drop, left]
    have ordered : Ordered dc.metadata.versionFound back := metadata ▸ ordered_back kp split
    have parse := parseMetadataFrom_spec evp kp (Nat.le_refl (dc.buffer ++ todo.take 48).length)
      (fun line mem => valid line (split ▸ mem_append_right _ mem)) ordered whole
    have fits : ¬decrypterSize < (dc.buffer ++ todo.take 48).length := by
      rw [length_append]
      omega
    rw [if_neg fits, before]
    dsimp only
    unfold decrypterParseMetadata
    rcases parse with ⟨front', back', rest, rfl, parsed, same, stuck⟩ | ⟨text, begun, same, fails,
      starts⟩
    · refine .inl ⟨applyLines evp kp dc.metadata front', none, rest, out, ?_,
        .waiting (front ++ front') back' ?_ rfl silent ?_ same stuck⟩
      · rw [parsed]
      · rw [split, append_assoc]
      · show applyLines evp kp dc.metadata front' = _
        rw [metadata, applyLines_append]
    · have known : applyLines evp kp dc.metadata back =
          applyLines evp kp .start (metadataLines evp keys) := by
        rw [metadata, applyLines_append, split]
      obtain ⟨mine, others⟩ := parseMessage_spec kp lawful short text
      rw [← known] at mine others
      by_cases mem : kp ∈ keys
      · obtain ⟨ek, after, pair, recips, message⟩ := mine mem
        have unread : ([] : List Bytes).flatten ++ cipher = cipher := rfl
        obtain ⟨start, -, opened, -⟩ := openRun_part kp lawful sealed pair unread
        have beginning : ([] : List Bytes).flatten ++ (text ++ todo.drop 48) = cipher := same
        obtain ⟨ctx, plain, update, run⟩ :=
          openUpdate_next kp lawful sealed pair opened rfl beginning
        rw [starts after start text (message start opened)]
        dsimp only
        rw [if_neg begun, update]
        refine .inl ⟨after, _, [], out ++ plain, rfl, .started ek start ctx [text] pair opened ?_ rfl
          ?_ rfl recips ?_⟩
        · rw [silent]
          exact run
        · rw [flatten_singleton, same]
        · rw [← same]
          exact append_ne_nil_of_left_ne_nil begun _
      · rw [fails _ (others mem)]
        refine .inr ⟨mem, ?_, _, rfl, rfl⟩
        rintro rfl
        exact begun (append_eq_nil_iff.mp same).1
  | started ek start ctx parts pair opened run begun left empty recips nonempty =>
    have fits : ¬decrypterSize < (todo.take 48).length := by omega
    rw [begun, empty, nil_append, if_neg fits]
    dsimp only
    have following : parts.flatten ++ (todo.take 48 ++ todo.drop 48) = cipher := by
      rw [take_append_drop, left]
    obtain ⟨ctx', text, update, longer⟩ :=
      openUpdate_next kp lawful sealed pair opened run following
    rw [if_neg full, update]
    refine .inl ⟨dc.metadata, _, [], out ++ text, rfl, .started ek start ctx'
      (parts ++ [todo.take 48]) pair opened longer rfl ?_ rfl recips nonempty⟩
    rw [flatten_append, flatten_singleton, append_assoc, take_append_drop, left]

end

end

end Splintermail
