/-
This file models the decrypter of `crypto.c`: `decrypter_parse_metadata`,
`decrypter_update` and `decrypter_finish`.

The decrypter takes whole lines of its input, decodes each, and parses the metadata
from what is decoded so far. A line of metadata may end anywhere in a line of base64,
so the parser has to tell a line that is not complete from one that is broken. It looks
for the next tag only if three bytes are there, which is the length of the longest tag
and not of the last one.
-/

import Splintermail.Crypto.Encrypter

namespace Splintermail

open List

/-! ### Parsing the metadata -/

/-- What `decrypter_t` knows of the message before it begins. -/
structure Metadata where
  versionFound : Bool
  keyFound : Bool
  ivFound : Bool
  encKey : Bytes
  iv : Bytes
  recips : List Bytes

/-- `decrypter_start` -/
def Metadata.start : Metadata := ⟨false, false, false, [], [], []⟩

/-- What one pass through the loop of `decrypter_parse_metadata` finds: it needs more bytes, it has
read a line, or the message begins. The buffer is what is left of it. -/
inductive MetadataStep (OpenCtx : Type) where
  | wait
  | next (metadata : Metadata) (buffer : Bytes)
  | started (metadata : Metadata) (ctx : OpenCtx) (buffer : Bytes)

/-- `dstr_tou` with base ten. -/
def touBytes (text : Bytes) : Except Derr Nat :=
  dstrTou (text.map fun byte => Char.ofNat byte.toNat) 10

/-- A field of an `R` or an `IV` line, with its length before it and the byte `stop` after it: the
length, the field and what follows it, if all of it is there. -/
def countedField (stop : UInt8) (problem : String) (leftover : Bytes) :
    Except Derr (Option (Nat × Bytes × Bytes)) :=
  match dstrFind [ascii ":"] leftover with
  | none => if leftover.length ≤ 5 then .ok none else .error ⟨.param, problem⟩
  | some (position, _) =>
    match touBytes (dstrSub leftover 0 position) with
    | .error error => .error error
    | .ok length =>
      let leftover := dstrSub leftover (position + 1) 0
      -- an `unsigned int`, which wraps around
      let past := (length + 1) % 2 ^ 32
      if leftover.length < past then .ok none
      else
        match leftover[length]? with
        | none => .error ⟨.overread, problem⟩
        | some byte =>
          if byte = stop then
            .ok (some (length, dstrSub leftover 0 length, dstrSub leftover past 0))
          else .error ⟨.param, problem⟩

/-- The tags, in the order in which they are looked for. -/
def metadataTags : List Bytes := [ascii "V:", ascii "R:", ascii "IV:", ascii "M:"]

section

variable {Key SealCtx OpenCtx : Type} (evp : Evp Key SealCtx OpenCtx) (kp : Key)

/-- The version line. -/
def parseVersion (metadata : Metadata) (leftover : Bytes) : Except Derr (MetadataStep OpenCtx) :=
  match dstrFind [ascii "\n"] leftover with
  | none =>
    if leftover.length ≤ 4 then .ok .wait else .error ⟨.param, "failed to parse version"⟩
  | some (position, _) =>
    match touBytes (dstrSub leftover 0 position) with
    | .error error => .error error
    | .ok version =>
      if version ≠ 1 then .error ⟨.param, "unsupported message version"⟩
      else .ok (.next { metadata with versionFound := true } (leftover.drop (position + 1)))

/-- The line of a recipient. -/
def parseRecipient (metadata : Metadata) (leftover : Bytes) : Except Derr (MetadataStep OpenCtx) :=
  match countedField 58 "failed to parse R line" leftover with
  | .error error => .error error
  | .ok none => .ok .wait
  | .ok (some (_, hash, leftover)) =>
    match countedField 10 "failed to parse R line" leftover with
    | .error error => .error error
    | .ok none => .ok .wait
    | .ok (some (_, key, buffer)) =>
      let found := hash = evp.fingerprint kp
      .ok (.next { metadata with
          keyFound := metadata.keyFound || decide found
          encKey := if found then key else metadata.encKey
          recips := metadata.recips ++ [hash] }
        buffer)

/-- The line of the initialization vector. -/
def parseIv (metadata : Metadata) (leftover : Bytes) : Except Derr (MetadataStep OpenCtx) :=
  match countedField 10 "failed to parse IV line" leftover with
  | .error error => .error error
  | .ok none => .ok .wait
  | .ok (some (length, iv, buffer)) =>
    if length ≠ 12 then .error ⟨.param, "found invalid IV"⟩
    else .ok (.next { metadata with ivFound := true, iv := iv } buffer)

/-- The beginning of the message. -/
def parseMessage (metadata : Metadata) (leftover : Bytes) : Except Derr (MetadataStep OpenCtx) :=
  if !metadata.keyFound then .error ⟨.not4me, "our key not found"⟩
  else if !metadata.ivFound then .error ⟨.param, "no IV found"⟩
  else if intMax < metadata.encKey.length then
    .error ⟨.param, "somehow encryption key is way too long"⟩
  else
    match evp.openInit kp metadata.encKey metadata.iv with
    | none => .error ⟨.ssl, "EVP_OpenInit failed"⟩
    | some ctx => .ok (.started metadata ctx leftover)

/-- One pass through the loop of `decrypter_parse_metadata`. -/
def metadataStep (metadata : Metadata) (buffer : Bytes) : Except Derr (MetadataStep OpenCtx) :=
  match dstrFind metadataTags buffer with
  | some (0, which) =>
    if !metadata.versionFound ∧ which ≠ 0 then .error ⟨.param, "failed to parse message"⟩
    else
      let leftover := dstrSub buffer (metadataTags.getD which []).length 0
      match which with
      | 0 => parseVersion metadata leftover
      | 1 => parseRecipient evp kp metadata leftover
      | 2 => parseIv metadata leftover
      | _ => parseMessage evp kp metadata leftover
  | _ => .error ⟨.param, "failed to parse message"⟩

/-- The loop of `decrypter_parse_metadata`. Each pass but the last takes bytes from the buffer, so as
many passes as there are bytes are enough. -/
def parseMetadataFrom : Nat → Metadata → Bytes → Except Derr (Metadata × Option OpenCtx × Bytes)
  | 0, metadata, buffer => .ok (metadata, none, buffer)
  | fuel + 1, metadata, buffer =>
    if buffer.length < 3 then .ok (metadata, none, buffer)
    else
      match metadataStep evp kp metadata buffer with
      | .error error => .error error
      | .ok .wait => .ok (metadata, none, buffer)
      | .ok (.started metadata ctx buffer) => .ok (metadata, some ctx, buffer)
      | .ok (.next metadata buffer) => parseMetadataFrom fuel metadata buffer

/-- `decrypter_parse_metadata` -/
def decrypterParseMetadata (metadata : Metadata) (buffer : Bytes) :
    Except Derr (Metadata × Option OpenCtx × Bytes) :=
  parseMetadataFrom evp kp buffer.length metadata buffer

/-! ### The decrypter -/

/-- `decrypter_t`. The context is there once the message has started. -/
structure Decrypter (OpenCtx : Type) where
  headerFound : Bool
  tagFound : Bool
  metadata : Metadata
  ctx : Option OpenCtx
  base64 : Bytes
  buffer : Bytes
  tag : Bytes

/-- `decrypter_start` -/
def Decrypter.start : Decrypter OpenCtx := ⟨false, false, .start, none, [], [], []⟩

/-- The size of `base64` and of `buffer`. -/
def decrypterSize : Nat := 2048

/-- `decrypter_update` for one line of base64: the new state and output, and if the loop goes on. -/
def decrypterLine (dc : Decrypter OpenCtx) (sub out : Bytes) :
    Except Derr (Decrypter OpenCtx × Bytes × Bool) :=
  let decoded := b642binStream (dc.base64 ++ sub)
  let buffer := dc.buffer ++ decoded.1
  if decrypterSize < buffer.length then .error ⟨.internal, "failed to append to output"⟩
  else
    let parsed : Except Derr (Metadata × Option OpenCtx × Bytes) :=
      match dc.ctx with
      | some ctx => .ok (dc.metadata, some ctx, buffer)
      | none => decrypterParseMetadata evp kp dc.metadata buffer
    match parsed with
    | .error error => .error error
    | .ok (metadata, none, buffer) =>
      .ok ({ dc with base64 := decoded.2, metadata := metadata, buffer := buffer }, out, true)
    | .ok (metadata, some ctx, buffer) =>
      let dc := { dc with base64 := decoded.2, metadata := metadata }
      if buffer = [] then .ok ({ dc with ctx := some ctx, buffer := [] }, out, false)
      else
        match evp.openUpdate ctx buffer with
        | none => .error ⟨.ssl, "EVP_OpenUpdate failed"⟩
        | some (ctx, text) => .ok ({ dc with ctx := some ctx, buffer := [] }, out ++ text, true)

/-- `decrypter_update` for the line of the tag. -/
def decrypterTag (dc : Decrypter OpenCtx) (sub : Bytes) : Except Derr (Decrypter OpenCtx) :=
  let tag := dc.tag ++ (b642binStream (dstrSub sub 1 0)).1
  if 16 < tag.length then .error ⟨.param, "failed to append to output"⟩
  else .ok { dc with tagFound := true, base64 := [], tag := tag }

/-- The loop of `decrypter_update`: the state, what is left of the input, and the output. -/
def decrypterLoop (dc : Decrypter OpenCtx) (input out : Bytes) :
    Except Derr (Decrypter OpenCtx × Bytes × Bytes) :=
  if input = [] then .ok (dc, [], out)
  else if dc.tagFound then .ok (dc, [], out)
  else if decrypterSize - dc.base64.length = 0 then
    .error ⟨.param, "bad decryption, line too long"⟩
  else
    match dstrFind [ascii "\n"] input with
    | none => .ok (dc, input, out)
    | some (position, _) =>
      let bytesToRead := min (decrypterSize - dc.base64.length) (position + 1)
      let sub := input.take bytesToRead
      if sub.head? = some 61 then
        match decrypterTag dc sub with
        | .error error => .error error
        | .ok dc => .ok (dc, [], out)
      else
        match decrypterLine evp kp dc sub out with
        | .error error => .error error
        | .ok (dc, out, true) => decrypterLoop dc (input.drop bytesToRead) out
        | .ok (dc, out, false) => .ok (dc, input.drop bytesToRead, out)
  termination_by input.length
  decreasing_by
    rw [length_drop]
    have positive := length_pos_iff.mpr ‹_›
    omega

/-- `decrypter_update` -/
def decrypterUpdate (dc : Decrypter OpenCtx) (input out : Bytes) :
    Except Derr (Decrypter OpenCtx × Bytes × Bytes) :=
  if dc.headerFound then decrypterLoop evp kp dc input out
  else if input.length < pemHeader.length then .ok (dc, input, out)
  else if dstrCmp2 (dstrSub input 0 pemHeader.length) pemHeader ≠ 0 then
    .error ⟨.param, "PEM header not found"⟩
  else
    decrypterLoop evp kp { dc with headerFound := true } (input.drop pemHeader.length) out

/-- `decrypter_finish` -/
def decrypterFinish (dc : Decrypter OpenCtx) (out : Bytes) : Except Derr Bytes :=
  match dc.ctx with
  | none => .error ⟨.param, "tried to finish decryption before the message began"⟩
  | some ctx =>
    match evp.openFinal ctx dc.tag with
    | none => .error ⟨.ssl, "EVP_OpenFinal failed"⟩
    | some text => .ok (out ++ text)

/-- Decrypting a text that arrives in parts, each appended to what the call before left. -/
def decrypterDeliver : Decrypter OpenCtx → Bytes → Bytes → List Bytes →
    Except Derr (Decrypter OpenCtx × Bytes × Bytes)
  | dc, left, out, [] => .ok (dc, left, out)
  | dc, left, out, part :: rest =>
    match decrypterUpdate evp kp dc (left ++ part) out with
    | .error error => .error error
    | .ok (dc, left, out) => decrypterDeliver dc left out rest

/-- The message and its recipients. -/
def decrypt (deliveries : List Bytes) : Except Derr (Bytes × List Bytes) :=
  match decrypterDeliver evp kp .start [] [] deliveries with
  | .error error => .error error
  | .ok (dc, _, out) =>
    match decrypterFinish evp dc out with
    | .error error => .error error
    | .ok plain => .ok (plain, dc.metadata.recips)

end

/-! ### Fields that are written and read -/

variable {byte : UInt8}

theorem dstrFind_byte {front : Bytes} (apart : byte ∉ front) (rest : Bytes) :
    dstrFind [[byte]] (front ++ byte :: rest) = some (front.length, 0) := by
  induction front with
  | nil =>
    rw [nil_append, dstrFind]
    simp
  | cons head tail ih =>
    rw [mem_cons, not_or] at apart
    rw [cons_append, dstrFind, ih apart.2]
    simp [apart.1]

theorem dstrFind_byte_none {text : Bytes} (apart : byte ∉ text) :
    dstrFind [[byte]] text = none := by
  induction text with
  | nil => rfl
  | cons head tail ih =>
    rw [mem_cons, not_or] at apart
    rw [dstrFind, ih apart.2]
    simp [apart.1]

theorem dstrSub_zero {text : Bytes} {length : Nat} (positive : length ≠ 0) :
    dstrSub text 0 length = text.take length := by
  unfold dstrSub
  rw [if_neg positive, drop_zero]

theorem dstrSub_rest (text : Bytes) (start : Nat) : dstrSub text start 0 = text.drop start := by
  unfold dstrSub
  rw [if_pos rfl, take_length]

theorem digit_of_mem_fmtBytes {value : Nat} (mem : byte ∈ fmtBytes value) :
    48 ≤ byte.toNat ∧ byte.toNat ≤ 57 := by
  obtain ⟨char, digit, rfl⟩ := mem_map.mp mem
  have bounds := Char.isDigit_iff_toNat.mp (isDigit_of_mem_fmtUint digit)
  have first : '0'.toNat = 48 := rfl
  have last : '9'.toNat = 57 := rfl
  rw [UInt8.toNat_ofNat']
  omega

theorem notMem_fmtBytes {value : Nat} (other : byte.toNat < 48 ∨ 57 < byte.toNat) :
    byte ∉ fmtBytes value := fun mem => by
  have bounds := digit_of_mem_fmtBytes mem
  omega

theorem fmtBytes_ne_nil (value : Nat) : fmtBytes value ≠ [] := fun none =>
  fmtUint_ne_nil value (map_eq_nil_iff.mp none)

theorem length_fmtBytes_le (value : Nat) (small : value < 10 ^ 4) : (fmtBytes value).length ≤ 4 := by
  unfold fmtBytes
  rw [length_map]
  exact length_fmtUint_le (by decide) small

theorem touBytes_fmtBytes {value : Nat} (small : value ≤ uintMax) :
    touBytes (fmtBytes value) = .ok value := by
  have same : (fmtBytes value).map (fun byte => Char.ofNat byte.toNat) = fmtUint value := by
    unfold fmtBytes
    rw [map_map]
    refine map_congr_left (fun char mem => ?_) |>.trans (map_id _)
    have bounds := Char.isDigit_iff_toNat.mp (isDigit_of_mem_fmtUint mem)
    have last : '9'.toNat = 57 := rfl
    show Char.ofNat (UInt8.ofNat char.toNat).toNat = char
    rw [UInt8.toNat_ofNat', Nat.mod_eq_of_lt (by omega), Char.ofNat_toNat]
  unfold touBytes
  rw [same]
  exact dstrTou_fmtUint small

/-- A field that is all there is read back. -/
theorem countedField_countedBytes {field : Bytes} (nonempty : field ≠ [])
    (short : field.length < 10 ^ 4) (stop : UInt8) (problem : String) (rest : Bytes) :
    countedField stop problem (countedBytes field stop ++ rest) =
      .ok (some (field.length, field, rest)) := by
  have spans : countedBytes field stop ++ rest =
      fmtBytes field.length ++ 58 :: (field ++ stop :: rest) := by
    simp [countedBytes]
  have digits : 58 ∉ fmtBytes field.length := notMem_fmtBytes (Or.inr (by decide))
  have found := dstrFind_byte digits (field ++ stop :: rest)
  have positive : (fmtBytes field.length).length ≠ 0 := fun zero =>
    fmtBytes_ne_nil _ (length_eq_zero_iff.mp zero)
  have full : field.length ≠ 0 := fun zero => nonempty (length_eq_zero_iff.mp zero)
  have small : field.length ≤ uintMax := by
    unfold uintMax
    omega
  rw [spans]
  unfold countedField
  show (match dstrFind [[58]] (fmtBytes field.length ++ 58 :: (field ++ stop :: rest)) with
    | none => _ | some (position, _) => _) = _
  rw [found]
  dsimp only
  rw [dstrSub_zero positive, take_left, touBytes_fmtBytes small]
  dsimp only
  have after : dstrSub (fmtBytes field.length ++ 58 :: (field ++ stop :: rest))
      ((fmtBytes field.length).length + 1) 0 = field ++ stop :: rest := by
    rw [dstrSub_rest, ← drop_drop, drop_left]
    rfl
  have stops : (field ++ stop :: rest)[field.length]? = some stop := by simp
  rw [after, Nat.mod_eq_of_lt (by omega), if_neg (by rw [length_append]; simp), stops]
  dsimp only
  rw [if_pos rfl, dstrSub_zero full, take_left, dstrSub_rest, ← drop_drop, drop_left]
  rfl

/-- A field of which only a part is there is waited for. -/
theorem countedField_part {field part : Bytes} (short : field.length < 10 ^ 4) {stop : UInt8}
    (problem : String) (starts : part <+: countedBytes field stop)
    (incomplete : part.length < (countedBytes field stop).length) :
    countedField stop problem part = .ok none := by
  have digits := length_fmtBytes_le field.length short
  have small : field.length ≤ uintMax := by
    unfold uintMax
    omega
  unfold countedField
  show (match dstrFind [[58]] part with | none => _ | some (position, _) => _) = _
  unfold countedBytes at starts incomplete
  rcases prefix_or_prefix_of_prefix starts (prefix_append _ _) with inside | longer
  · -- the length itself is not complete
    have apart : (58 : UInt8) ∉ part := fun mem =>
      notMem_fmtBytes (Or.inr (by decide)) (inside.mem mem)
    have bound := inside.length_le
    rw [dstrFind_byte_none apart]
    exact if_pos (by omega)
  · obtain ⟨tail, rfl⟩ := longer
    have rest := (prefix_append_right_inj _).mp starts
    cases tail with
    | nil =>
      rw [append_nil, dstrFind_byte_none (notMem_fmtBytes (Or.inr (by decide)))]
      exact if_pos (by omega)
    | cons head others =>
      obtain ⟨rfl, more⟩ := cons_prefix_cons.mp rest
      have positive : (fmtBytes field.length).length ≠ 0 := fun zero =>
        fmtBytes_ne_nil _ (length_eq_zero_iff.mp zero)
      rw [dstrFind_byte (notMem_fmtBytes (Or.inr (by decide)))]
      dsimp only
      rw [dstrSub_zero positive, take_left, touBytes_fmtBytes small]
      dsimp only
      have after : dstrSub (fmtBytes field.length ++ 58 :: others)
          ((fmtBytes field.length).length + 1) 0 = others := by
        rw [dstrSub_rest, ← drop_drop, drop_left]
        rfl
      simp only [length_append, length_cons, length_nil] at incomplete
      rw [after, Nat.mod_eq_of_lt (by omega), if_pos (by omega)]

end Splintermail
