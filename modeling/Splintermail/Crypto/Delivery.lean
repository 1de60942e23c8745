/-
This file follows the decrypter through a text that arrives in parts.

Of what is there the decrypter takes whole lines, and it leaves the rest to the caller.
What it has left and what is still to be delivered is therefore always the text from the
beginning of some line on, and the state is the one that belongs to the lines before it.
When all is delivered the tag has been read, so the state is the same for every way of
cutting the text.
-/

import Mathlib.Data.UInt
import Splintermail.Crypto.RoundTrip

namespace Splintermail

open List Decrypter

/-! ### Lines of the text -/

theorem line_unique {front rest line more : Bytes} (same : front ++ 10 :: rest = line ++ 10 :: more)
    (before : 10 ∉ front) (apart : 10 ∉ line) : front = line ∧ rest = more := by
  induction front generalizing line with
  | nil =>
    cases line with
    | nil => exact ⟨rfl, (cons.inj same).2⟩
    | cons head tail => exact absurd ((cons.inj same).1 ▸ mem_cons_self) apart
  | cons first others ih =>
    cases line with
    | nil => exact absurd ((cons.inj same).1 ▸ mem_cons_self) before
    | cons head tail =>
      obtain ⟨rfl, following⟩ := cons.inj same
      obtain ⟨rfl, later⟩ := ih following (fun mem => before (.tail _ mem))
        (fun mem => apart (.tail _ mem))
      exact ⟨rfl, later⟩

theorem line_split {input undelivered line more : Bytes}
    (whole : input ++ undelivered = line ++ 10 :: more) (apart : 10 ∉ line) :
    10 ∉ input ∨ ∃ rest, input = line ++ 10 :: rest ∧ rest ++ undelivered = more := by
  by_cases inside : (10 : UInt8) ∈ input
  · obtain ⟨front, rest, rfl, before⟩ := eq_append_cons_of_mem inside
    rw [append_assoc, cons_append] at whole
    obtain ⟨same, later⟩ := line_unique whole before apart
    exact .inr ⟨rest, by rw [same], later⟩
  · exact .inl inside

section

variable {Key SealCtx OpenCtx : Type} {evp : Evp Key SealCtx OpenCtx} {kp : Key}

theorem decrypterLoop_none {dc : Decrypter OpenCtx} {input : Bytes} (out : Bytes)
    (apart : 10 ∉ input) (short : dc.base64.length < decrypterSize) (untagged : dc.tagFound = false) :
    decrypterLoop evp kp dc input out = .ok (dc, input, out) := by
  have missing : dstrFind [ascii "\n"] input = none := dstrFind_byte_none apart
  rw [decrypterLoop, untagged, missing]
  by_cases empty : input = []
  · rw [if_pos empty, empty]
  · rw [if_neg empty, if_neg Bool.false_ne_true, if_neg (by omega)]

/-- The loop takes the next line. -/
theorem decrypterLoop_line {dc : Decrypter OpenCtx} {line : Bytes} (rest out : Bytes)
    (apart : 10 ∉ line) (short : line.length + dc.base64.length < decrypterSize)
    (untagged : dc.tagFound = false) :
    decrypterLoop evp kp dc (line ++ 10 :: rest) out = if (line ++ [10]).head? = some 61 then
        match decrypterTag dc (line ++ [10]) with
        | .error error => .error error
        | .ok dc => .ok (dc, [], out)
      else
        match decrypterLine evp kp dc (line ++ [10]) out with
        | .error error => .error error
        | .ok (dc, out, true) => decrypterLoop evp kp dc rest out
        | .ok (dc, out, false) => .ok (dc, rest, out) := by
  have found : dstrFind [ascii "\n"] (line ++ 10 :: rest) = some (line.length, 0) :=
    dstrFind_byte apart rest
  have room : min (decrypterSize - dc.base64.length) (line.length + 1) = line.length + 1 := by omega
  have size : (line ++ [10]).length = line.length + 1 := length_append
  have spans : line ++ 10 :: rest = (line ++ [10]) ++ rest := by simp
  rw [decrypterLoop, untagged, found]
  dsimp only
  rewrite [room, if_neg (by simp), if_neg Bool.false_ne_true, if_neg (by omega), spans,
    take_left' size, drop_left' size]
  rfl

/-! ### The state after each delivery -/

variable (kp)

/-- The state in which the header has been read. -/
def Decrypter.headed : Decrypter OpenCtx := { start with headerFound := true }

/-- The state of the decrypter when the text `pending` is not read yet. -/
inductive TextInv (evp : Evp Key SealCtx OpenCtx) (keys : List Key) (cipher tag : Bytes)
    (dc : Decrypter OpenCtx) (out pending : Bytes) : Prop where
  | header (start : dc = .start) (silent : out = [])
      (left : pending = pemHeader ++ 10 :: (b64Lines (messageData evp keys cipher) ++ tagText tag))
  | firstLine (found : dc = .headed) (silent : out = [])
      (left : pending = 10 :: (b64Lines (messageData evp keys cipher) ++ tagText tag))
  | reading (todo : Bytes) (found : dc.headerFound = true) (untagged : dc.tagFound = false)
      (noTag : dc.tag = []) (clean : dc.base64 = [] ∨ dc.base64 = [10])
      (data : DataInv kp evp keys cipher dc out todo)
      (left : pending = b64Lines todo ++ tagText tag)
  | tagged (found : dc.headerFound = true) (done : dc.tagFound = true) (same : dc.tag = tag)
      (data : DataInv kp evp keys cipher dc out [])

/-- What a call makes of a part of the text: the next state, in which no whole line is left, or the
error of a message that is for others. -/
def Reads (evp : Evp Key SealCtx OpenCtx) (keys : List Key) (cipher tag undelivered : Bytes)
    (result : Except Derr (Decrypter OpenCtx × Bytes × Bytes)) : Prop :=
  (∃ dc left out, result = .ok (dc, left, out) ∧ (dc.tagFound = true ∨ 10 ∉ left) ∧
      TextInv kp evp keys cipher tag dc out (left ++ undelivered)) ∨
    NotForMe kp keys cipher result

section

variable {keys : List Key} {cipher tag undelivered : Bytes} {pieces : List Bytes}

theorem DataInv.first : DataInv kp evp keys cipher
    { (headed : Decrypter OpenCtx) with base64 := [10] } [] (messageData evp keys cipher) := by
  refine .waiting [] (metadataLines evp keys) rfl rfl rfl rfl rfl ?_
  show 0 < versionLine.length
  decide

theorem decrypterLine_newline (out : Bytes) :
    decrypterLine evp kp .headed [10] out = .ok ({ headed with base64 := [10] }, out, true) :=
  rfl

/-- The state in which the header and the line break after it have been read. -/
def Decrypter.lined : Decrypter OpenCtx := { headed with base64 := [10] }

theorem decrypterUpdate_headed (rest : Bytes) :
    decrypterUpdate evp kp .start (pemHeader ++ 10 :: rest) [] =
      decrypterLoop evp kp .lined rest [] := by
  have header : dstrSub (pemHeader ++ 10 :: rest) 0 pemHeader.length = pemHeader := by
    rw [dstrSub_zero (by decide), take_left]
  have enough : ¬(pemHeader ++ 10 :: rest).length < pemHeader.length := by simp
  have unread : (start : Decrypter OpenCtx).headerFound = false := rfl
  unfold decrypterUpdate
  rw [unread, if_neg Bool.false_ne_true, if_neg enough, header,
    if_neg (fun differ => differ (by decide)), drop_left]
  have first := @decrypterLoop_line _ _ _ evp kp (headed : Decrypter OpenCtx) [] rest []
    not_mem_nil (Nat.zero_lt_succ 2047) rfl
  rw [nil_append, nil_append, if_neg (by decide), decrypterLine_newline] at first
  exact first

/-- A text of one line of base64, with what follows it. -/
def oneLineText (data rest : Bytes) : Bytes := pemHeader ++ 10 :: (b64Encode data ++ 10 :: rest)

/-- The line is read after the header. -/
theorem decrypterUpdate_oneLine {data : Bytes} (nonempty : data ≠ [])
    (short : (b64Encode data).length + 1 < decrypterSize) (rest : Bytes) :
    decrypterUpdate evp kp .start (oneLineText data rest) [] =
      match decrypterLine evp kp .lined (b64Encode data ++ [10]) [] with
      | .error error => .error error
      | .ok (dc, out, true) => decrypterLoop evp kp dc rest out
      | .ok (dc, out, false) => .ok (dc, rest, out) := by
  obtain ⟨plain, starts⟩ := b64Encode_plain data
  have other : ¬(b64Encode data ++ [10]).head? = some 61 := by
    obtain ⟨char, others, same, differ⟩ := starts nonempty
    rw [same]
    exact fun head => differ (Option.some.inj head)
  have next := @decrypterLoop_line _ _ _ evp kp (.lined : Decrypter OpenCtx) _ rest [] plain short rfl
  rw [if_neg other] at next
  rw [oneLineText, decrypterUpdate_headed, next]

variable {dc : Decrypter OpenCtx}

/-- Nothing is read after the line of the tag. -/
theorem decrypterLoop_tagLine {tagged : Decrypter OpenCtx} {line : Bytes} (rest out : Bytes)
    (apart : 10 ∉ line) (begins : (line ++ [10]).head? = some 61)
    (short : line.length + dc.base64.length < decrypterSize) (untagged : dc.tagFound = false)
    (read : decrypterTag dc (line ++ [10]) = .ok tagged) :
    decrypterLoop evp kp dc (line ++ 10 :: rest) out = .ok (tagged, [], out) := by
  rw [decrypterLoop_line rest out apart short untagged, if_pos begins, read]

theorem decrypterTag_spec (noTag : dc.tag = []) (size : tag.length = 16) :
    decrypterTag dc (61 :: (b64Encode tag ++ [10])) =
      .ok { dc with tagFound := true, base64 := [], tag := tag } := by
  have nonempty : tag ≠ [] := by
    rintro rfl
    cases size
  have decoded : (b642binStream (dstrSub (61 :: (b64Encode tag ++ [10])) 1 0)).1 = tag := by
    rw [dstrSub_rest, drop_succ_cons, drop_zero]
    have clean : ([] : Bytes) = [] ∨ ([] : Bytes) = [10] := .inl rfl
    exact congrArg Prod.fst (b642binStream_line clean nonempty)
  unfold decrypterTag
  rw [decoded, noTag, nil_append, if_neg (by omega)]

/-- The loop reads the lines that are there. -/
theorem decrypterLoop_reading (lawful : evp.Lawful)
    (short : ∀ ek ∈ (evp.sealInit keys).1, ek.length < pre64Size)
    (sealed : evp.sealAll (evp.sealInit keys).2.2 pieces = (cipher, tag)) {input out todo : Bytes}
    (found : dc.headerFound = true) (untagged : dc.tagFound = false) (noTag : dc.tag = [])
    (clean : dc.base64 = [] ∨ dc.base64 = [10]) (data : DataInv kp evp keys cipher dc out todo)
    (whole : input ++ undelivered = b64Lines todo ++ tagText tag) :
    Reads kp evp keys cipher tag undelivered (decrypterLoop evp kp dc input out) := by
  have size : decrypterSize = 2048 := rfl
  have left : dc.base64.length ≤ 1 := by
    rcases clean with empty | newline
    · rw [empty]
      exact Nat.zero_le 1
    · rw [newline]
      exact Nat.le_refl 1
  have sixteen : tag.length = 16 := by
    have same := lawful.tag_length (evp.sealRun (evp.sealInit keys).2.2 pieces).1
    exact (congrArg (fun both : Bytes × Bytes => both.2.length) sealed).symm.trans same
  induction length : input.length using Nat.strongRecOn generalizing dc input out todo with
  | ind count ih =>
    -- nothing is taken of a line that is not complete
    have waits : 10 ∉ input →
        Reads kp evp keys cipher tag undelivered (decrypterLoop evp kp dc input out) := fun apart =>
      .inl ⟨dc, input, out, decrypterLoop_none out apart (by omega) untagged, .inr apart,
        .reading todo found untagged noTag clean data whole⟩
    by_cases done : todo = []
    · subst done
      have last : input ++ undelivered = (61 :: b64Encode tag) ++ 10 :: (pemFooter ++ [10]) := by
        rw [whole, b64Lines_nil]
        simp [tagText]
      have plain : 10 ∉ 61 :: b64Encode tag := by
        rw [mem_cons, not_or]
        exact ⟨by decide, (b64Encode_plain tag).1⟩
      rcases line_split last plain with apart | ⟨rest, rfl, -⟩
      · exact waits apart
      · have line : (61 :: b64Encode tag).length = 25 := by
          rw [length_cons, length_b64Encode, sixteen]
        rw [decrypterLoop_line rest out plain (by omega) untagged, if_pos (show (61 :: b64Encode tag ++ [10] : Bytes).head? = some 61 from rfl)]
        have read := decrypterTag_spec noTag sixteen
        rw [← cons_append] at read
        rw [read]
        refine .inl ⟨_, _, _, rfl, .inl rfl, .tagged found rfl rfl ?_⟩
        cases data with
        | waiting front back split before silent metadata left stuck =>
          exact .waiting front back split before silent metadata left stuck
        | started ek start ctx parts pair opened run begun left empty recips some =>
          exact .started ek start ctx parts pair opened run begun left empty recips some
    · have next : input ++ undelivered =
          b64Encode (todo.take 48) ++ 10 :: (b64Lines (todo.drop 48) ++ tagText tag) := by
        rw [whole, b64Lines_cons done]
        simp
      have full : todo.take 48 ≠ [] := fun empty => by
        rcases take_eq_nil_iff.mp empty with zero | nothing
        · cases zero
        · exact done nothing
      obtain ⟨plain, starts⟩ := b64Encode_plain (todo.take 48)
      rcases line_split next plain with apart | ⟨rest, rfl, later⟩
      · exact waits apart
      · have line : (b64Encode (todo.take 48)).length ≤ 64 := by
          have taken := length_take_le 48 todo
          rw [length_b64Encode]
          omega
        have other : ¬(b64Encode (todo.take 48) ++ [10]).head? = some 61 := by
          obtain ⟨char, others, same, differ⟩ := starts full
          rw [same]
          exact fun head => differ (Option.some.inj head)
        rw [decrypterLoop_line rest out plain (by omega) untagged, if_neg other]
        rcases decrypterLine_spec kp lawful short sealed data done clean with
          ⟨metadata, ctx, buffer, out', read, after⟩ | ⟨notMember, nonempty, error, failed, type⟩
        · rw [read]
          refine ih rest.length ?_ found untagged noTag (.inr rfl) after later (Nat.le_refl 1) rfl
          rw [← length, length_append, length_cons]
          omega
        · rw [failed]
          exact .inr ⟨notMember, nonempty, error, rfl, type⟩

/-- A call of the decrypter reads what is there. -/
theorem decrypterUpdate_spec (lawful : evp.Lawful)
    (short : ∀ ek ∈ (evp.sealInit keys).1, ek.length < pre64Size)
    (sealed : evp.sealAll (evp.sealInit keys).2.2 pieces = (cipher, tag)) {input out : Bytes}
    (inv : TextInv kp evp keys cipher tag dc out (input ++ undelivered)) :
    Reads kp evp keys cipher tag undelivered (decrypterUpdate evp kp dc input out) := by
  -- the line break after the header is a line of its own
  have first : ∀ {input : Bytes}, input ++ undelivered =
      10 :: (b64Lines (messageData evp keys cipher) ++ tagText tag) →
        Reads kp evp keys cipher tag undelivered (decrypterLoop evp kp .headed input []) := by
    intro input whole
    have plain : (10 : UInt8) ∉ ([] : Bytes) := not_mem_nil
    have room : (headed : Decrypter OpenCtx).base64.length < decrypterSize :=
      Nat.zero_lt_succ 2047
    have untagged : (headed : Decrypter OpenCtx).tagFound = false := rfl
    have starts : input ++ undelivered =
        [] ++ 10 :: (b64Lines (messageData evp keys cipher) ++ tagText tag) := whole
    rcases line_split starts plain with apart | ⟨rest, rfl, later⟩
    · exact .inl ⟨_, input, [], decrypterLoop_none [] apart room untagged, .inr apart,
        .firstLine rfl rfl whole⟩
    · rw [decrypterLoop_line rest [] plain (by rwa [length_nil, Nat.zero_add]) untagged,
        if_neg (by decide), nil_append, decrypterLine_newline]
      exact decrypterLoop_reading kp lawful short sealed rfl rfl rfl (.inr rfl) (.first kp) later
  cases inv with
  | header start silent whole =>
    subst start silent
    have unread : (start : Decrypter OpenCtx).headerFound = false := rfl
    unfold decrypterUpdate
    rw [unread, if_neg Bool.false_ne_true]
    have starts : input <+: pemHeader ++
        10 :: (b64Lines (messageData evp keys cipher) ++ tagText tag) := ⟨undelivered, whole⟩
    by_cases few : input.length < pemHeader.length
    · rw [if_pos few]
      have within : input <+: pemHeader :=
        prefix_of_prefix_length_le starts (prefix_append _ _) (Nat.le_of_lt few)
      have apart : 10 ∉ pemHeader := by decide
      exact .inl ⟨_, input, [], rfl, .inr fun mem => apart (within.mem mem),
        .header rfl rfl whole⟩
    · obtain ⟨rest, rfl, -⟩ := prefix_of_length_le starts (by omega)
      rw [append_assoc, append_cancel_left_eq] at whole
      have header : dstrSub (pemHeader ++ rest) 0 pemHeader.length = pemHeader := by
        rw [dstrSub_zero (by decide), take_left]
      rw [if_neg few, header, if_neg (fun differ => differ (by decide)), drop_left]
      exact first whole
  | firstLine found silent whole =>
    subst found silent
    exact first whole
  | reading todo found untagged noTag clean data whole =>
    unfold decrypterUpdate
    rw [if_pos found]
    exact decrypterLoop_reading kp lawful short sealed found untagged noTag clean data whole
  | tagged found done same data =>
    unfold decrypterUpdate
    rw [if_pos found, decrypterLoop, done]
    by_cases empty : input = []
    · rw [if_pos empty]
      exact .inl ⟨dc, [], out, rfl, .inl done, .tagged found done same data⟩
    · rw [if_neg empty, if_pos rfl]
      exact .inl ⟨dc, [], out, rfl, .inl done, .tagged found done same data⟩

/-- So do the calls for all parts of the text. -/
theorem decrypterDeliver_spec (lawful : evp.Lawful)
    (short : ∀ ek ∈ (evp.sealInit keys).1, ek.length < pre64Size)
    (sealed : evp.sealAll (evp.sealInit keys).2.2 pieces = (cipher, tag)) (deliveries : List Bytes)
    {left out : Bytes} (settled : dc.tagFound = true ∨ 10 ∉ left)
    (inv : TextInv kp evp keys cipher tag dc out (left ++ deliveries.flatten)) :
    Reads kp evp keys cipher tag [] (decrypterDeliver evp kp dc left out deliveries) := by
  induction deliveries generalizing dc left out with
  | nil => exact .inl ⟨dc, left, out, rfl, settled, inv⟩
  | cons part rest ih =>
    rw [flatten_cons, ← append_assoc] at inv
    rw [decrypterDeliver]
    rcases decrypterUpdate_spec kp lawful short sealed inv with
      ⟨dc', left', out', read, settled', inv'⟩ | ⟨notMember, nonempty, error, failed, type⟩
    · rw [read]
      exact ih settled' inv'
    · rw [failed]
      exact .inr ⟨notMember, nonempty, error, rfl, type⟩

theorem TextInv.tagged_of_settled {left out : Bytes} (settled : dc.tagFound = true ∨ 10 ∉ left)
    (inv : TextInv kp evp keys cipher tag dc out (left ++ [])) :
    dc.tag = tag ∧ DataInv kp evp keys cipher dc out [] := by
  rw [append_nil] at inv
  cases inv with
  | header start silent whole =>
    refine absurd (settled.resolve_left ?_) (not_not_intro ?_)
    · rw [start]
      exact Bool.false_ne_true
    · rw [whole]
      exact mem_append_right _ mem_cons_self
  | firstLine found silent whole =>
    refine absurd (settled.resolve_left ?_) (not_not_intro ?_)
    · rw [found]
      exact Bool.false_ne_true
    · rw [whole]
      exact mem_cons_self
  | reading todo found untagged noTag clean data whole =>
    refine absurd (settled.resolve_left ?_) (not_not_intro ?_)
    · rw [untagged]
      exact Bool.false_ne_true
    · rw [whole]
      exact mem_append_right _ (mem_append_right _ mem_cons_self)
  | tagged found done same data => exact ⟨same, data⟩

/-- When a message with at least a byte is decrypted, that is because its key is a recipient's. -/
theorem decrypt_spec (lawful : evp.Lawful)
    (short : ∀ ek ∈ (evp.sealInit keys).1, ek.length < pre64Size)
    (sealed : evp.sealAll (evp.sealInit keys).2.2 pieces = (cipher, tag)) {deliveries : List Bytes}
    (whole : deliveries.flatten =
      pemHeader ++ 10 :: (b64Lines (messageData evp keys cipher) ++ tagText tag)) :
    (cipher = [] → decrypt evp kp deliveries =
        .error ⟨.param, "tried to finish decryption before the message began"⟩) ∧
      (cipher ≠ [] → kp ∈ keys →
        decrypt evp kp deliveries = .ok (pieces.flatten, keys.map evp.fingerprint)) ∧
      (cipher ≠ [] → kp ∉ keys →
        ∃ error, decrypt evp kp deliveries = .error error ∧ error.type = .not4me) := by
  have start : TextInv kp evp keys cipher tag .start [] ([] ++ deliveries.flatten) :=
    .header rfl rfl whole
  unfold decrypt
  rcases decrypterDeliver_spec kp lawful short sealed deliveries (.inr not_mem_nil) start with
    ⟨dc, left, out, read, settled, inv⟩ | ⟨notMember, nonempty, error, failed, type⟩
  · rw [read]
    dsimp only
    obtain ⟨same, data⟩ := inv.tagged_of_settled kp settled
    unfold decrypterFinish
    cases data with
    | waiting front back split before silent metadata left stuck =>
      -- the message did not begin, so it has no bytes
      have empty : cipher = [] := by
        rw [append_nil] at left
        cases back with
        | nil =>
          have three : dc.buffer.length < 3 := stuck
          have two : messageTag.length = 2 := rfl
          rw [left, linesBytes, flatMap_nil, nil_append, length_append, two] at three
          exact length_eq_zero_iff.mp (by omega)
        | cons line rest =>
          have below : dc.buffer.length < line.bytes.length := stuck
          rw [left, linesBytes, flatMap_cons, length_append, length_append] at below
          omega
      rw [before]
      exact ⟨fun _ => rfl, fun nonempty => absurd empty nonempty,
        fun nonempty => absurd empty nonempty⟩
    | started ek start ctx parts pair opened run begun left empty recips nonempty =>
      have flat : parts.flatten = (evp.sealAll (evp.sealInit keys).2.2 pieces).1 := by
        rw [sealed, ← left, append_nil]
      obtain ⟨start', ctx', front, last, opened', run', final, plain⟩ :=
        lawful.opens keys kp ek pair pieces parts flat
      rw [opened] at opened'
      cases opened'
      rw [run] at run'
      cases run'
      rw [sealed] at final
      have mem := (of_mem_zip pair).1
      rw [begun, same]
      dsimp only
      rw [final]
      refine ⟨fun none => absurd none nonempty, fun _ _ => ?_, fun _ other => absurd mem other⟩
      rw [← plain, ← recips]
  · rw [failed]
    exact ⟨fun none => absurd none nonempty, fun _ mem => absurd mem notMember,
      fun _ _ => ⟨error, rfl, type⟩⟩

end

/-! ### Round trips -/

variable {keys : List Key}

theorem recipientLines_flatten (evp : Evp Key SealCtx OpenCtx) (pairs : List (Key × Bytes)) :
    (pairs.map fun (key, ek) => recipientLine (evp.fingerprint key) ek).flatten =
      linesBytes (pairs.map fun (key, ek) => .recipient (evp.fingerprint key) ek) := by
  unfold linesBytes
  rw [flatMap_map, flatMap_def]
  rfl

theorem metadataTexts_flatten (evp : Evp Key SealCtx OpenCtx) (keys : List Key) (cipher : Bytes) :
    (metadataTexts evp keys).flatten ++ cipher = messageData evp keys cipher := by
  unfold metadataTexts messageData metadataLines
  rw [flatten_cons, flatten_append, flatten_singleton, recipientLines_flatten]
  unfold linesBytes
  rw [flatMap_cons, flatMap_append, flatMap_cons, flatMap_nil, append_nil]
  simp [MetadataLine.bytes]

theorem linesFit_length {left : Nat} {lines : List Bytes} (fit : linesFit left lines) :
    ∀ line ∈ lines, line.length < pre64Size := by
  induction lines generalizing left with
  | nil => exact fun line mem => absurd mem not_mem_nil
  | cons first rest ih =>
    intro line mem
    rcases mem_cons.mp mem with rfl | mem
    · have here := fit.1
      omega
    · exact ih fit.2 line mem

theorem ek_short (lawful : evp.Lawful) (fit : linesFit 0 (metadataTexts evp keys)) :
    ∀ ek ∈ (evp.sealInit keys).1, ek.length < pre64Size := by
  intro ek mem
  rw [← map_snd_zip (le_of_eq (lawful.eks_length keys))] at mem
  obtain ⟨⟨key, ek⟩, pair, rfl⟩ := mem_map.mp mem
  have line := linesFit_length fit (recipientLine (evp.fingerprint key) ek)
    (.tail _ (mem_append_left _ (mem_map.mpr ⟨(key, ek), pair, rfl⟩)))
  simp only [recipientLine, countedBytes, length_append, length_cons] at line
  show ek.length < pre64Size
  omega

/-- Every message that is encrypted is decrypted by its recipients, however its text is delivered,
and by no one else. -/
def RoundTrips (evp : Evp Key SealCtx OpenCtx) (keys : List Key) (chunks : List Bytes) : Prop :=
  ∃ text, encrypt evp keys chunks = .ok text ∧
    ∀ (kp : Key) (deliveries : List Bytes), deliveries.flatten = text →
      (kp ∈ keys → decrypt evp kp deliveries = .ok (chunks.flatten, keys.map evp.fingerprint)) ∧
      (kp ∉ keys → ∃ error, decrypt evp kp deliveries = .error error ∧ error.type = .not4me)

/-- A line of metadata that does not fit is an error. -/
theorem encrypt_error (few : keys.length ≤ maxEncrypterPubkeys)
    (unfit : ¬linesFit 0 (metadataTexts evp keys)) (chunks : List Bytes) :
    encrypt evp keys chunks = .error ⟨.fixedsize, "_fmt_quiet failed"⟩ := by
  have failed : dumpLines [] ([] ++ pemHeader ++ [10]) (metadataTexts evp keys) =
      .error ⟨.fixedsize, "_fmt_quiet failed"⟩ := dumpLines_error _ unfit
  unfold encrypt encrypterStart
  rw [if_neg (by omega), failed]

/-- The text of a message, and what its encryption is. -/
theorem encrypt_text (lawful : evp.Lawful) (few : keys.length ≤ maxEncrypterPubkeys)
    (fit : linesFit 0 (metadataTexts evp keys)) (chunks : List Bytes) :
    ∃ pieces cipher tag, evp.sealAll (evp.sealInit keys).2.2 pieces = (cipher, tag) ∧
      pieces.flatten = chunks.flatten ∧ (cipher = [] ↔ chunks.flatten = []) ∧
      encrypt evp keys chunks =
        .ok (pemHeader ++ 10 :: (b64Lines (messageData evp keys cipher) ++ tagText tag)) := by
  obtain ⟨pieces, same, written⟩ := encrypt_ok evp few fit chunks
  obtain ⟨cipher, tag, sealed⟩ :
      ∃ cipher tag, evp.sealAll (evp.sealInit keys).2.2 pieces = (cipher, tag) := ⟨_, _, rfl⟩
  have size := lawful.seal_length keys pieces
  rw [sealed, same] at size
  rw [sealed, metadataTexts_flatten] at written
  simp only [append_assoc, cons_append, nil_append] at written
  refine ⟨pieces, cipher, tag, sealed, same, ?_, written⟩
  rw [← length_eq_zero_iff, ← length_eq_zero_iff, ← size]

/-- The text of an empty message is decrypted by no one. -/
theorem not_roundTrips_empty (lawful : evp.Lawful) (some : keys ≠ [])
    (few : keys.length ≤ maxEncrypterPubkeys) {chunks : List Bytes} (empty : chunks.flatten = []) :
    ¬RoundTrips evp keys chunks := by
  rintro ⟨text, result, delivered⟩
  by_cases fit : linesFit 0 (metadataTexts evp keys)
  · obtain ⟨pieces, cipher, tag, sealed, -, begins, written⟩ := encrypt_text lawful few fit chunks
    rw [written] at result
    cases result
    obtain ⟨kp, others, rfl⟩ := exists_cons_of_ne_nil some
    have success := (delivered kp [_] flatten_singleton).1 mem_cons_self
    have failure :=
      (decrypt_spec kp lawful (ek_short lawful fit) sealed flatten_singleton).1 (begins.mpr empty)
    rw [failure] at success
    cases success
  · rw [encrypt_error few fit] at result
    cases result

/-- A message is decrypted again exactly if it is not empty and every line of its metadata fits into
the buffer of the encrypter. -/
theorem encrypt_roundTrips_iff (evp : Evp Key SealCtx OpenCtx) (lawful : evp.Lawful)
    (keys : List Key) (some : keys ≠ []) (few : keys.length ≤ maxEncrypterPubkeys)
    (chunks : List Bytes) :
    RoundTrips evp keys chunks ↔ chunks.flatten ≠ [] ∧ linesFit 0 (metadataTexts evp keys) := by
  constructor
  · intro trips
    refine ⟨fun empty => not_roundTrips_empty lawful some few empty trips, ?_⟩
    by_contra unfit
    obtain ⟨text, result, -⟩ := trips
    rw [encrypt_error few unfit] at result
    cases result
  · rintro ⟨nonempty, fit⟩
    obtain ⟨pieces, cipher, tag, sealed, same, begins, written⟩ := encrypt_text lawful few fit chunks
    refine ⟨_, written, fun kp deliveries whole => ?_⟩
    obtain ⟨-, mine, others⟩ := decrypt_spec kp lawful (ek_short lawful fit) sealed whole
    have some : cipher ≠ [] := fun empty => nonempty (begins.mp empty)
    rw [same] at mine
    exact ⟨mine some, others some⟩

end

/-! ### A cipher that fulfils the assumptions -/

/-- A key is a byte, and a message is encrypted by adding a session key to each of its bytes. The tag
is the sum of the message. -/
def shiftEvp : Evp UInt8 Bytes (UInt8 × Bytes) where
  fingerprint key := replicate 32 key
  blockSize := 1
  sealInit keys := (keys.map fun key => [key + 7], replicate 12 0, [])
  sealUpdate seen piece := (seen ++ piece, piece.map (· + 7))
  sealFinal seen := ([], replicate 16 seen.sum)
  openInit key ek _ := some (ek.sum - key, [])
  openUpdate ctx piece :=
    let text := piece.map (· - ctx.1)
    some ((ctx.1, ctx.2 ++ text), text)
  openFinal ctx tag := if tag = replicate 16 ctx.2.sum then some [] else none

theorem shiftEvp_sealRun (seen : Bytes) (pieces : List Bytes) :
    shiftEvp.sealRun seen pieces = (seen ++ pieces.flatten, pieces.flatten.map (· + 7)) := by
  induction pieces generalizing seen with
  | nil => simp [Evp.sealRun]
  | cons piece rest ih =>
    rw [Evp.sealRun, ih]
    simp [shiftEvp]

theorem shiftEvp_sealAll (pieces : List Bytes) :
    shiftEvp.sealAll [] pieces = (pieces.flatten.map (· + 7), replicate 16 pieces.flatten.sum) := by
  unfold Evp.sealAll
  rw [shiftEvp_sealRun]
  simp [shiftEvp]

theorem shiftEvp_openRun (session : UInt8) (seen : Bytes) (parts : List Bytes) :
    shiftEvp.openRun (session, seen) parts =
      some ((session, seen ++ parts.flatten.map (· - session)), parts.flatten.map (· - session)) := by
  induction parts generalizing seen with
  | nil => simp [Evp.openRun]
  | cons part rest ih =>
    have update : shiftEvp.openUpdate (session, seen) part =
        some ((session, seen ++ part.map (· - session)), part.map (· - session)) := rfl
    rw [Evp.openRun, update, Option.bind_eq_bind, Option.bind_some, ih]
    simp

theorem shiftEvp_lawful : shiftEvp.Lawful where
  fingerprint_length key := length_replicate
  fingerprint_injective key other same := (cons.inj same).1
  eks_length keys := length_map _
  ek_ne_nil keys ek mem := by
    obtain ⟨key, -, rfl⟩ := mem_map.mp mem
    exact cons_ne_nil _ _
  iv_length keys := length_replicate
  tag_length ctx := length_replicate
  seal_length keys pieces := by
    show (shiftEvp.sealAll [] pieces).1.length = _
    rw [shiftEvp_sealAll, length_map]
  opens keys key ek pair pieces parts whole := by
    obtain rfl : ek = [key + 7] := by
      have both : (key, ek) ∈ keys.map fun key => (key, [key + 7]) := by
        rw [← zip_map', map_id']
        exact pair
      obtain ⟨other, -, same⟩ := mem_map.mp both
      cases same
      rfl
    have session : shiftEvp.openInit key [key + 7] (shiftEvp.sealInit keys).2.1 = some (7, []) := by
      show some (key + 7 + 0 - key, ([] : Bytes)) = _
      rw [UInt8.add_zero, UInt8.add_comm, UInt8.add_sub_cancel]
    have plain : parts.flatten.map (· - 7) = pieces.flatten := by
      rw [whole]
      show (shiftEvp.sealAll [] pieces).1.map _ = _
      rw [shiftEvp_sealAll, map_map]
      refine (map_congr_left fun byte _ => ?_).trans (map_id _)
      exact UInt8.add_sub_cancel byte 7
    refine ⟨(7, []), _, _, [], session, shiftEvp_openRun 7 [] parts, ?_, ?_⟩
    · show (if (shiftEvp.sealAll [] pieces).2 = replicate 16 ([] ++ _).sum then _ else _) = _
      rw [shiftEvp_sealAll, plain]
      exact if_pos rfl
    · rw [append_nil, plain]

/-- A message for two recipients. -/
theorem encrypt_roundTrips_two : RoundTrips shiftEvp [3, 5] [[104, 105]] :=
  (encrypt_roundTrips_iff shiftEvp shiftEvp_lawful [3, 5] (by decide) (by decide) [[104, 105]]).mpr
    ⟨by decide, by decide, by decide, by decide, by decide, trivial⟩

/-- A message without any bytes is encrypted, and the text is decrypted by no one. -/
theorem encrypt_empty_lost : ¬∀ chunks : List Bytes, RoundTrips shiftEvp [3] chunks := fun trips =>
  not_roundTrips_empty shiftEvp_lawful (by decide) (by decide) flatten_nil (trips [])

end Splintermail
