/-
This file models `name.c`, which writes and parses the names of the files of a maildir.

A name is written with three separators: a colon before the info, dots between the epoch, the
delivery identifier and the host, and commas within the delivery identifier. Parsing undoes
writing. But a name of less than 16 characters is not parsed: nothing is set, and no error is
raised. Names as short as this are written for small numbers and short hosts.
-/

import Splintermail.Imaildir.Message

namespace Splintermail

open List

/-- `deliv_id_ver` -/
def delivIdVer : Nat := 1

/-- What a parsed name is made of. -/
structure NameParts where
  epoch : Nat
  key : MsgKey
  len : Nat
  host : Text
  info : Text
  deriving DecidableEq

/-- Exactly one of the two numbers of a key is nonzero. -/
def MsgKey.OneUid (key : MsgKey) : Prop := (key.uidUp = 0) ≠ (key.uidLocal = 0)

instance (key : MsgKey) : Decidable key.OneUid :=
  inferInstanceAs (Decidable ((key.uidUp = 0) ≠ (key.uidLocal = 0)))

/-! ### The functions -/

/-- The fields of the delivery identifier behind the version, with the epoch and the host. -/
def parseDeliv (epoch host info : Text) : List Text → Except Derr NameParts
  | [_, dUidUp, dUidLocal, dLen] => do
    let epoch ← dstrTou64 epoch 10
    let uidUp ← dstrTou dUidUp 10
    let uidLocal ← dstrTou dUidLocal 10
    if (uidUp ≠ 0 ∧ uidLocal ≠ 0) ∨ (uidUp = 0 ∧ uidLocal = 0) then
      .error ⟨.param, "invalid uid_up/uid_local"⟩
    else
      -- `dstr_tosize`
      let len ← dstrToUnsigned uintmaxMax dLen 10
      .ok ⟨epoch, ⟨uidUp, uidLocal⟩, len, host, info⟩
  | _ => .error ⟨.param, "wrong number of fields"⟩

/-- The part of a name before the info. -/
def parseUniq (uniq info : Text) : Except Derr NameParts :=
  match dstrSplit2Soft '.' 3 uniq with
  | [epoch, deliv, host] => do
    let fields := dstrSplit2Soft ',' 5 deliv
    let version ← dstrTou (fields.headD []) 10
    if version ≠ delivIdVer then .error ⟨.internal, "unallowed delivery identifier version"⟩
    else parseDeliv epoch host info fields
  | _ => .error ⟨.param, "wrong number of minor tokens"⟩

/-- `maildir_name_parse`, with what is set, if anything is. -/
def maildirNameParse (name : Text) : Except Derr (Option NameParts) :=
  -- this filename is too short for a maildir name
  if name.length < 16 then .ok none
  else
    match dstrSplit2 ':' 2 name with
    | .error _ => .error ⟨.param, "too many major tokens"⟩
    | .ok tokens => some <$> parseUniq (tokens.headD []) (tokens.getD 1 [])

/-- `maildir_name_mod_hostname`. What is replaced are single characters. -/
def maildirNameModHostname (host : Text) : Text :=
  host.flatMap fun char =>
    if char = '/' then ['0', '5', '7'] else if char = ':' then ['0', '7', '2'] else [char]

/-- The delivery identifier. -/
def writeDeliv (key : MsgKey) (len : Nat) : Text :=
  joinWords ',' ([delivIdVer, key.uidUp, key.uidLocal, len].map fmtUint)

/-- The part of a name before the info. -/
def writeUniq (epoch : Nat) (key : MsgKey) (len : Nat) (host : Text) : Text :=
  joinWords '.' [fmtUint epoch, writeDeliv key len, maildirNameModHostname host]

/-- `maildir_name_write` -/
def maildirNameWrite (epoch : Nat) (key : MsgKey) (len : Nat) (host info : Text) : Text :=
  writeUniq epoch key len host ++ if info.length > 0 then ':' :: info else []

/-! ### Names that are written -/

/-- What a name is written for. -/
structure MaildirName where
  epoch : Nat
  key : MsgKey
  len : Nat
  host : Text
  info : Text
  epochFits : epoch ≤ uintmaxMax
  keyFits : key.Fits
  oneUid : key.OneUid
  lenFits : len ≤ uintmaxMax
  hostNonempty : host ≠ []
  hostShort : host.length ≤ 32
  infoPlain : ':' ∉ info

namespace MaildirName

variable (name : MaildirName)

def write : Text := maildirNameWrite name.epoch name.key name.len name.host name.info

/-- What should come back. -/
def parts : NameParts :=
  ⟨name.epoch, name.key, name.len, maildirNameModHostname name.host, name.info⟩

/-- The digits of the numbers, the characters between them, the host, in which a slash or a colon
takes three characters, and the info behind its colon. -/
def size : Nat :=
  (fmtUint name.epoch).length + (fmtUint name.key.uidUp).length +
    (fmtUint name.key.uidLocal).length + (fmtUint name.len).length + 6 +
    (name.host.length + 2 * name.host.countP fun char => char = '/' ∨ char = ':') +
    if name.info = [] then 0 else 1 + name.info.length

end MaildirName

theorem notMem_modHostname (host : Text) : ':' ∉ maildirNameModHostname host := by
  intro mem
  obtain ⟨char, -, written⟩ := mem_flatMap.mp mem
  split_ifs at written with slash colon
  · exact absurd written (by decide)
  · exact absurd written (by decide)
  · exact colon (mem_singleton.mp written).symm

theorem length_modHostname (host : Text) : (maildirNameModHostname host).length =
    host.length + 2 * host.countP fun char => char = '/' ∨ char = ':' := by
  induction host with
  | nil => rfl
  | cons char rest ih =>
    rw [maildirNameModHostname, flatMap_cons, length_append, ← maildirNameModHostname,
      ih, countP_cons, length_cons]
    by_cases slash : char = '/'
    · simp [slash]
      omega
    · by_cases colon : char = ':'
      · simp [colon]
        omega
      · simp [slash, colon]
        omega

theorem notMem_numbers {separator : Char} (other : separator.isDigit = false) (numbers : List Nat) :
    ∀ word ∈ numbers.map fmtUint, separator ∉ word := by
  intro word mem
  obtain ⟨number, -, rfl⟩ := mem_map.mp mem
  exact notMem_fmtUint other

theorem notMem_joinWords {char separator : Char} {words : List Text} (other : char ≠ separator)
    (absent : ∀ word ∈ words, char ∉ word) : char ∉ joinWords separator words := by
  induction words with
  | nil => exact not_mem_nil
  | cons word rest ih =>
    have first := absent word mem_cons_self
    have later := ih fun next mem => absent next (.tail _ mem)
    cases rest with
    | nil => exact first
    | cons next rest =>
      intro mem
      rcases mem_append.mp mem with inFirst | behind
      · exact first inFirst
      · rcases mem_cons.mp behind with same | inRest
        · exact other same
        · exact later inRest

theorem dstrSplit2Soft_three {separator : Char} {first second : Text} (firstPlain : separator ∉ first)
    (secondPlain : separator ∉ second) (third : Text) :
    dstrSplit2Soft separator 3 (joinWords separator [first, second, third]) =
      [first, second, third] := by
  show dstrSplit2Soft separator 3 (first ++ separator :: (second ++ separator :: third)) = _
  rw [dstrSplit2Soft, cutWord_append firstPlain]
  dsimp only
  rw [dstrSplit2Soft, cutWord_append secondPlain]
  rfl

namespace MaildirName

variable (name : MaildirName)

theorem length_write : name.write.length = name.size := by
  have version : (fmtUint delivIdVer).length = 1 := rfl
  unfold write maildirNameWrite writeUniq writeDeliv size
  simp only [joinWords, map_cons, map_nil, length_append, length_cons, length_modHostname, version]
  by_cases empty : name.info = []
  · rw [empty]
    simp
    omega
  · rw [if_pos (length_pos_iff.mpr empty), if_neg empty, length_cons]
    omega

theorem notMem_writeDeliv {char : Char} (other : char.isDigit = false) (comma : char ≠ ',') :
    char ∉ writeDeliv name.key name.len := notMem_joinWords comma (notMem_numbers other _)

theorem parseUniq_writeUniq (info : Text) :
    parseUniq (writeUniq name.epoch name.key name.len name.host) info =
      .ok { name.parts with info := info } := by
  have one : ¬((name.key.uidUp ≠ 0 ∧ name.key.uidLocal ≠ 0) ∨
      (name.key.uidUp = 0 ∧ name.key.uidLocal = 0)) := by
    have oneUid := name.oneUid
    rw [MsgKey.OneUid, ne_eq, eq_iff_iff] at oneUid
    tauto
  have fields : dstrSplit2Soft ',' 5 (writeDeliv name.key name.len) =
      [delivIdVer, name.key.uidUp, name.key.uidLocal, name.len].map fmtUint :=
    dstrSplit2Soft_joinWords (notMem_numbers rfl _) (cons_ne_nil _ _) (Nat.lt_succ_self 4)
  have version : dstrTou (fmtUint delivIdVer) 10 = .ok delivIdVer := dstrTou_fmtUint (by decide)
  have reads : parseDeliv (fmtUint name.epoch) (maildirNameModHostname name.host) info
      ([delivIdVer, name.key.uidUp, name.key.uidLocal, name.len].map fmtUint) =
        .ok { name.parts with info := info } := by
    simp only [map_cons, map_nil, parseDeliv]
    rw [dstrTou64_fmtUint name.epochFits, dstrTou_fmtUint name.keyFits.1,
      dstrTou_fmtUint name.keyFits.2, dstrToUnsigned_fmtUint name.lenFits le_rfl]
    exact if_neg one
  unfold parseUniq writeUniq
  rw [dstrSplit2Soft_three (notMem_fmtUint rfl) (name.notMem_writeDeliv rfl (by decide))]
  dsimp only
  rw [fields, map_cons, headD_cons, version]
  exact reads

theorem notMem_writeUniq : ':' ∉ writeUniq name.epoch name.key name.len name.host := by
  refine notMem_joinWords (by decide) fun word mem => ?_
  simp only [mem_cons, not_mem_nil, or_false] at mem
  rcases mem with rfl | rfl | rfl
  · exact notMem_fmtUint rfl
  · exact name.notMem_writeDeliv rfl (by decide)
  · exact notMem_modHostname name.host

theorem parse_write (long : 16 ≤ name.write.length) :
    maildirNameParse name.write = .ok (some name.parts) := by
  unfold maildirNameParse
  rw [if_neg (Nat.not_lt_of_le long)]
  unfold write maildirNameWrite
  by_cases empty : name.info = []
  · rw [empty, if_neg (by decide : ¬([] : Text).length > 0), append_nil, dstrSplit2,
      cutWord_of_notMem name.notMem_writeUniq]
    show some <$> parseUniq (writeUniq name.epoch name.key name.len name.host) [] = _
    rw [name.parseUniq_writeUniq, ← empty]
    rfl
  · rw [if_pos (length_pos_iff.mpr empty), dstrSplit2, cutWord_append name.notMem_writeUniq]
    dsimp only
    rw [dstrSplit2, cutWord_of_notMem name.infoPlain]
    show some <$> parseUniq (writeUniq name.epoch name.key name.len name.host) name.info = _
    rw [name.parseUniq_writeUniq]
    rfl

end MaildirName

theorem oneUid_of_parseDeliv {epoch host info : Text} {fields : List Text} {parts : NameParts}
    (parses : parseDeliv epoch host info fields = .ok parts) : parts.key.OneUid := by
  unfold parseDeliv at parses
  split at parses
  · obtain ⟨epoch, -, parses⟩ := exists_of_bind_eq_ok parses
    obtain ⟨uidUp, -, parses⟩ := exists_of_bind_eq_ok parses
    obtain ⟨uidLocal, -, parses⟩ := exists_of_bind_eq_ok parses
    split_ifs at parses with wrong
    obtain ⟨len, -, parses⟩ := exists_of_bind_eq_ok parses
    rw [← Except.ok.inj parses, MsgKey.OneUid, ne_eq, eq_iff_iff]
    tauto
  · cases parses

theorem oneUid_of_parseUniq {uniq info : Text} {parts : NameParts}
    (parses : parseUniq uniq info = .ok parts) : parts.key.OneUid := by
  unfold parseUniq at parses
  split at parses
  · obtain ⟨version, -, parses⟩ := exists_of_bind_eq_ok parses
    split_ifs at parses with other
    exact oneUid_of_parseDeliv parses
  · cases parses

theorem parsed_of_length {text : Text} (long : 16 ≤ text.length) {set : Option NameParts}
    (parses : maildirNameParse text = .ok set) : ∃ parts, set = some parts ∧ parts.key.OneUid := by
  unfold maildirNameParse at parses
  rw [if_neg (Nat.not_lt_of_le long)] at parses
  split at parses
  · cases parses
  · obtain ⟨parts, reads, same⟩ := exists_of_bind_eq_ok
      ((map_eq_pure_bind some (parseUniq _ _)).symm.trans parses)
    exact ⟨parts, (Except.ok.inj same).symm, oneUid_of_parseUniq reads⟩

theorem maildirNameParse_short {text : Text} (short : ¬16 ≤ text.length) :
    maildirNameParse text = .ok none := if_pos (Nat.lt_of_not_le short)

/-- A name is read back as it was written, and a text that is parsed sets the key, if and only if
it has at least 16 characters. -/
theorem maildirName_roundTrips_iff (name : MaildirName) (text : Text) :
    (maildirNameParse name.write = .ok (some name.parts) ↔ 16 ≤ name.size) ∧
      ((∀ set, maildirNameParse text = .ok set → ∃ parts, set = some parts ∧ parts.key.OneUid) ↔
        16 ≤ text.length) := by
  rw [← name.length_write]
  refine ⟨⟨fun reads => ?_, name.parse_write⟩, fun sets => ?_, fun long _ => parsed_of_length long⟩
  · by_contra short
    rw [maildirNameParse_short short] at reads
    cases reads
  · by_contra short
    obtain ⟨parts, same, -⟩ := sets none (maildirNameParse_short short)
    cases same

/-- A message of 1234 bytes that was seen, from a host whose name has a slash and a colon. -/
def seenMail : MaildirName where
  epoch := 1700000000
  key := ⟨5, 0⟩
  len := 1234
  host := "mail/1:a".toList
  info := "2,S".toList
  epochFits := by decide
  keyFits := by decide
  oneUid := by decide
  lenFits := by decide
  hostNonempty := by decide
  hostShort := by decide
  infoPlain := by decide

theorem maildirName_roundTrips_seenMail :
    maildirNameParse seenMail.write = .ok (some seenMail.parts) ∧
      ∃ parts, maildirNameParse seenMail.write = .ok (some parts) ∧ parts.key.OneUid := by
  obtain ⟨reads, sets⟩ := maildirName_roundTrips_iff seenMail seenMail.write
  have whole := reads.mpr (by decide)
  obtain ⟨parts, same, oneUid⟩ := sets.mpr (by decide) _ whole
  cases same
  exact ⟨whole, _, whole, oneUid⟩

/-- The name of a short message of a host with a short name is taken for no name. -/
theorem maildirName_short :
    maildirNameWrite 1 ⟨5, 0⟩ 3 ['h'] [] = "1.1,5,0,3.h".toList ∧
      maildirNameParse "1.1,5,0,3.h".toList = .ok none := by
  decide

theorem MaildirName.cutWord_write (name : MaildirName) : cutWord ':' name.write =
    (writeUniq name.epoch name.key name.len name.host,
      if name.info = [] then none else some name.info) := by
  unfold write maildirNameWrite
  by_cases empty : name.info = []
  · rw [empty, if_neg (by decide), append_nil, if_pos rfl]
    exact cutWord_of_notMem name.notMem_writeUniq
  · rw [if_pos (length_pos_iff.mpr empty), if_neg empty]
    exact cutWord_append name.notMem_writeUniq name.info

/-- A name of any length tells what it was written for, so no two messages share a file. -/
theorem maildirNameWrite_eq_iff (first second : MaildirName) :
    first.write = second.write ↔ first.parts = second.parts := by
  constructor
  · intro same
    have words := congrArg (cutWord ':') same
    rw [first.cutWord_write, second.cutWord_write] at words
    obtain ⟨uniq, infos⟩ := Prod.mk.inj words
    have read (name : MaildirName) :
        parseUniq (writeUniq name.epoch name.key name.len name.host) name.info = .ok name.parts :=
      name.parseUniq_writeUniq name.info
    have info : first.info = second.info := by
      split_ifs at infos with firstEmpty secondEmpty secondEmpty
      · rw [firstEmpty, secondEmpty]
      · exact Option.some.inj infos
    have firstRead := read first
    rw [uniq, info, read second] at firstRead
    exact (Except.ok.inj firstRead).symm
  · intro same
    obtain ⟨epoch, key, len, host, info⟩ := NameParts.mk.inj same
    unfold MaildirName.write maildirNameWrite writeUniq
    rw [epoch, key, len, host, info]

/-- Another key is another file, and how a slash in the name of the host is spelled makes none. -/
theorem maildirNameWrite_eq_iff_seenMail :
    seenMail.write ≠ { seenMail with key := ⟨0, 5⟩, keyFits := by decide, oneUid := by decide }.write ∧
      seenMail.write = { seenMail with
        host := "mail0571:a".toList, hostNonempty := by decide, hostShort := by decide }.write :=
  ⟨fun same => absurd ((maildirNameWrite_eq_iff _ _).mp same) (by decide),
    (maildirNameWrite_eq_iff _ _).mpr (by decide)⟩

end Splintermail
