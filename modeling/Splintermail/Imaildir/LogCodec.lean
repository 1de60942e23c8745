/-
This file models `log.c`: the text of the keys and values of the cache log, and
the parsers that read them back.

A line of the log is a key, a bar, a value and a newline. There are four kinds of
keys; the value of a message key is either a message or an expunge. What the rest
of the development uses is that every parser undoes its formatter on numbers that
fit the C types, and that no text written holds a separator of an outer level.
-/

import Splintermail.Imaildir.Message

namespace Splintermail

open List

/-! ### Keys -/

/-- `log_key_t` -/
inductive LogKey where
  | uidvlds
  | himodsequp
  | modseqdn
  | msg (key : MsgKey)
  deriving DecidableEq, Repr

/-- `log_key_marshal` -/
def logKeyMarshal : LogKey → Text
  | .uidvlds => ['v']
  | .himodsequp => ['h']
  | .modseqdn => ['d']
  | .msg key => joinWords '.' [['m'], fmtUint key.uidUp, fmtUint key.uidLocal]

/-- `log_key_unmarshal` -/
def logKeyUnmarshal (text : Text) : Except Derr LogKey :=
  match text with
  | [] => .error ⟨.value, "zero-length key in database"⟩
  | char :: rest =>
    if char = 'v' then
      if rest ≠ [] then .error ⟨.value, "uidvalidity key is too long in database"⟩
      else .ok .uidvlds
    else if char = 'h' then
      if rest ≠ [] then .error ⟨.value, "himodsequp key is too long in database"⟩
      else .ok .himodsequp
    else if char = 'd' then
      if rest ≠ [] then .error ⟨.value, "modseqdn key is too long in database"⟩
      else .ok .modseqdn
    else if char = 'm' then do
      match ← dstrSplit2 '.' 3 text with
      | [_, uidUp, uidLocal] =>
        return .msg ⟨← dstrTou uidUp 10, ← dstrTou uidLocal 10⟩
      | _ => .error ⟨.value, "invalid msg_key_t in key in database"⟩
    else .error ⟨.value, "invalid key in database"⟩

theorem logKeyUnmarshal_marshal_msg {key : MsgKey} (fits : key.Fits) :
    logKeyUnmarshal (logKeyMarshal (.msg key)) = .ok (.msg key) := by
  have split : dstrSplit2 '.' 3 (logKeyMarshal (.msg key)) =
      .ok [['m'], fmtUint key.uidUp, fmtUint key.uidLocal] := by
    refine dstrSplit2_joinWords ?_ (cons_ne_nil _ _) le_rfl
    intro word mem
    simp only [mem_cons, not_mem_nil, or_false] at mem
    rcases mem with rfl | rfl | rfl
    · decide
    · exact notMem_fmtUint rfl
    · exact notMem_fmtUint rfl
  have unfolded : logKeyUnmarshal (logKeyMarshal (.msg key)) =
      (dstrSplit2 '.' 3 (logKeyMarshal (.msg key)) >>= fun words =>
        match words with
        | [_, uidUp, uidLocal] => do
          return .msg ⟨← dstrTou uidUp 10, ← dstrTou uidLocal 10⟩
        | _ => .error ⟨.value, "invalid msg_key_t in key in database"⟩) := rfl
  rw [unfolded, split]
  show (do return LogKey.msg ⟨← dstrTou (fmtUint key.uidUp) 10, ← dstrTou (fmtUint key.uidLocal) 10⟩) = _
  rw [dstrTou_fmtUint fits.1, dstrTou_fmtUint fits.2]
  rfl

theorem logKeyUnmarshal_marshal {key : LogKey} (fits : ∀ msgKey, key = .msg msgKey → msgKey.Fits) :
    logKeyUnmarshal (logKeyMarshal key) = .ok key := by
  cases key with
  | uidvlds => rfl
  | himodsequp => rfl
  | modseqdn => rfl
  | msg key => exact logKeyUnmarshal_marshal_msg (fits key rfl)

/-- Distinct keys have distinct texts, so a map keyed by the text is a map keyed by the key. -/
theorem logKeyMarshal_injective {first second : LogKey}
    (firstFits : ∀ key, first = .msg key → key.Fits)
    (secondFits : ∀ key, second = .msg key → key.Fits)
    (same : logKeyMarshal first = logKeyMarshal second) : first = second := by
  have firstBack := logKeyUnmarshal_marshal firstFits
  rw [same, logKeyUnmarshal_marshal secondFits] at firstBack
  exact (Except.ok.inj firstBack).symm

/-! ### Numbers -/

/-- `marshal_uidvlds` -/
def marshalUidvlds (up dn : Nat) : Text := joinWords ':' [fmtUint up, fmtUint dn]

/-- `parse_uidvlds` -/
def parseUidvlds (text : Text) : Except Derr (Nat × Nat) :=
  match dstrSplit2Soft ':' 3 text with
  | [up, dn] => do return (← dstrTou up 10, ← dstrTou dn 10)
  | _ => .error ⟨.param, "did not find 2 UIDVALIDITY values in log"⟩

theorem parseUidvlds_marshal {up dn : Nat} (upFits : up ≤ uintMax) (dnFits : dn ≤ uintMax) :
    parseUidvlds (marshalUidvlds up dn) = .ok (up, dn) := by
  have split : dstrSplit2Soft ':' 3 (marshalUidvlds up dn) = [fmtUint up, fmtUint dn] := by
    refine dstrSplit2Soft_joinWords ?_ (cons_ne_nil _ _) (by simp)
    intro word mem
    simp only [mem_cons, not_mem_nil, or_false] at mem
    rcases mem with rfl | rfl
    · exact notMem_fmtUint rfl
    · exact notMem_fmtUint rfl
  unfold parseUidvlds
  rw [split]
  simp only
  rw [dstrTou_fmtUint upFits, dstrTou_fmtUint dnFits]
  rfl

/-! ### Dates and flags -/

/-- The fields of a date in the order they are written. -/
def ImapTime.fields (date : ImapTime) : List Int32 :=
  [date.year, date.month, date.day, date.hour, date.min, date.sec, date.zHour, date.zMin]

/-- `marshal_date` -/
def marshalDate (date : ImapTime) : Text :=
  joinWords '.' (date.fields.map fun field => fmtInt field.toInt)

/-- `dstr_toi` into an `int`. -/
def dstrToInt32 (text : Text) : Except Derr Int32 := (dstrToi text 10).map Int32.ofInt

/-- `parse_date` -/
def parseDate (text : Text) : Except Derr ImapTime := do
  match ← dstrSplit2 '.' 8 text with
  | [year, month, day, hour, min, sec, zHour, zMin] =>
    return {
      year := ← dstrToInt32 year
      month := ← dstrToInt32 month
      day := ← dstrToInt32 day
      hour := ← dstrToInt32 hour
      min := ← dstrToInt32 min
      sec := ← dstrToInt32 sec
      zHour := ← dstrToInt32 zHour
      zMin := ← dstrToInt32 zMin }
  | _ => .error ⟨.param, "invalid internaldate"⟩

theorem dstrToInt32_fmtInt (value : Int32) : dstrToInt32 (fmtInt value.toInt) = .ok value := by
  unfold dstrToInt32
  have lower := value.le_toInt
  have upper := value.toInt_lt
  rw [dstrToi_fmtInt lower upper]
  show Except.ok (Int32.ofInt value.toInt) = _
  rw [Int32.ofInt_toInt]

variable {char : Char}

theorem notMem_marshalDate_fields (other : char.isDigit = false) (sign : char ≠ '-')
    (date : ImapTime) : ∀ word ∈ date.fields.map fun field => fmtInt field.toInt, char ∉ word := by
  intro word mem
  obtain ⟨field, -, rfl⟩ := mem_map.mp mem
  exact notMem_fmtInt other sign

theorem parseDate_marshal (date : ImapTime) : parseDate (marshalDate date) = .ok date := by
  have split : dstrSplit2 '.' 8 (marshalDate date) =
      .ok (date.fields.map fun field => fmtInt field.toInt) :=
    dstrSplit2_joinWords (notMem_marshalDate_fields rfl (by decide) date) (cons_ne_nil _ _)
      (by simp [ImapTime.fields])
  unfold parseDate
  rw [split]
  show (do
    return ({
      year := ← dstrToInt32 (fmtInt date.year.toInt)
      month := ← dstrToInt32 (fmtInt date.month.toInt)
      day := ← dstrToInt32 (fmtInt date.day.toInt)
      hour := ← dstrToInt32 (fmtInt date.hour.toInt)
      min := ← dstrToInt32 (fmtInt date.min.toInt)
      sec := ← dstrToInt32 (fmtInt date.sec.toInt)
      zHour := ← dstrToInt32 (fmtInt date.zHour.toInt)
      zMin := ← dstrToInt32 (fmtInt date.zMin.toInt) } : ImapTime)) = _
  simp only [dstrToInt32_fmtInt]
  rfl

/-- One character of `parse_flags`. -/
def parseFlag (char : Char) (flags : MsgFlags) : Except Derr MsgFlags :=
  if char = 'a' ∨ char = 'A' then .ok { flags with answered := true }
  else if char = 'f' ∨ char = 'F' then .ok { flags with flagged := true }
  else if char = 's' ∨ char = 'S' then .ok { flags with seen := true }
  else if char = 'd' ∨ char = 'D' then .ok { flags with draft := true }
  else if char = 'x' ∨ char = 'X' then .ok { flags with deleted := true }
  else .error ⟨.param, "invalid flag"⟩

/-- `parse_flags` -/
def parseFlags (text : Text) : Except Derr MsgFlags :=
  text.foldlM (fun flags char => parseFlag char flags) {}

/-- The flags as `marshal_message` writes them. -/
def marshalFlags (flags : MsgFlags) : Text :=
  (if flags.answered then ['A'] else []) ++ (if flags.draft then ['D'] else []) ++
    (if flags.flagged then ['F'] else []) ++ (if flags.seen then ['S'] else []) ++
    (if flags.deleted then ['X'] else [])

theorem parseFlags_marshal (flags : MsgFlags) : parseFlags (marshalFlags flags) = .ok flags := by
  obtain ⟨answered, flagged, seen, draft, deleted⟩ := flags
  cases answered <;> cases flagged <;> cases seen <;> cases draft <;> cases deleted <;> rfl

theorem mem_marshalFlags {flags : MsgFlags} (mem : char ∈ marshalFlags flags) :
    char ∈ ['A', 'D', 'F', 'S', 'X'] := by
  unfold marshalFlags at mem
  simp only [mem_append, mem_ite_nil_right, mem_singleton] at mem
  simp only [mem_cons, not_mem_nil, or_false]
  tauto

/-! ### Messages and expunges -/

/-- What a value of a message key describes. -/
inductive LogValue where
  | message (msg : Msg)
  | expunge (expunge : Expunge)
  deriving DecidableEq

namespace LogValue

def key : LogValue → MsgKey
  | .message msg => msg.key
  | .expunge record => record.key

def uidDn : LogValue → Nat
  | .message msg => msg.uidDn
  | .expunge record => record.uidDn

def modseq : LogValue → Nat
  | .message msg => msg.modseq
  | .expunge record => record.modseq

end LogValue

/-- The part of a message that its log line keeps: the file is found again at start-up. -/
def Msg.logged (msg : Msg) : Msg := { msg with length := 0, file := none }

/-- `log_format_version` -/
def logFormatVersion : Text := ['1']

/-- The state character of a message; an expunged message has none. -/
def msgStatechar : MsgState → Option Char
  | .unfilled => some 'u'
  | .filled => some 'f'
  | .not4me => some 'n'
  | .expunged => none

/-- `marshal_message` -/
def marshalMessage (msg : Msg) : Except Derr Text :=
  match msgStatechar msg.state with
  | none => .error ⟨.internal, "can't log an EXPUNGED message"⟩
  | some char => .ok (joinWords ':' [logFormatVersion, fmtUint msg.uidDn, fmtUint msg.modseq,
      [char], marshalFlags msg.flags, marshalDate msg.internaldate])

theorem marshalMessage_eq {msg : Msg} (shape : msgStatechar msg.state = some char) :
    marshalMessage msg = .ok (joinWords ':' [logFormatVersion, fmtUint msg.uidDn,
      fmtUint msg.modseq, [char], marshalFlags msg.flags, marshalDate msg.internaldate]) := by
  unfold marshalMessage
  rw [shape]

theorem msgStatechar_eq_none {state : MsgState} :
    msgStatechar state = none ↔ state = .expunged := by
  cases state <;> simp [msgStatechar]

def expungeStatechar : ExpungeState → Char
  | .unpushed => 'e'
  | .pushed => 'x'

/-- `marshal_expunge` -/
def marshalExpunge (expunge : Expunge) : Text :=
  joinWords ':' [logFormatVersion, fmtUint expunge.uidDn, fmtUint expunge.modseq,
    [expungeStatechar expunge.state]]

/-- The message states that a value can be in, by their character. -/
def msgStateOfChar (char : Char) : Option MsgState :=
  if char = 'u' then some .unfilled
  else if char = 'n' then some .not4me
  else if char = 'f' then some .filled
  else none

def expungeStateOfChar (char : Char) : Option ExpungeState :=
  if char = 'e' then some .unpushed
  else if char = 'x' then some .pushed
  else none

/-- The fields of `parse_value` after the version, split: a message has two more than an
expunge. -/
def parseFields (key : MsgKey) (uidDn modseq state : Text) (more : Option (Text × Text)) :
    Except Derr LogValue := do
  let uidDn ← dstrTou uidDn 10
  let modseq ← dstrTou64 modseq 10
  match state with
  | [char] =>
    match msgStateOfChar char, expungeStateOfChar char, more with
    | some state, _, some (flags, date) => do
      let flags ← parseFlags flags
      let internaldate ← parseDate date
      return .message { key, uidDn, internaldate, flags, modseq, state }
    | some _, _, none => .error ⟨.value, "wrong field count for message"⟩
    | none, some state, none => return .expunge { key, uidDn, state, modseq }
    | none, some _, some _ => .error ⟨.value, "wrong field count for message"⟩
    | none, none, _ => .error ⟨.value, "invalid state"⟩
  | _ => .error ⟨.param, "invalid state field"⟩

/-- Messages fill five fields, expunges three. -/
def parsePostversion (key : MsgKey) : List Text → Except Derr LogValue
  | [uidDn, modseq, state] => parseFields key uidDn modseq state none
  | [uidDn, modseq, state, flags, date] => parseFields key uidDn modseq state (some (flags, date))
  | _ => .error ⟨.param, "wrong field count"⟩

/-- `parse_value` -/
def parseValue (text : Text) (key : MsgKey) : Except Derr LogValue :=
  let (version, postversion) := cutWord ':' text
  if version ≠ logFormatVersion then
    .error ⟨.param, "invalid format version found, not parsing"⟩
  else parsePostversion key (dstrSplit2Soft ':' 6 (postversion.getD []))

theorem colon_notMem_marshalFlags (flags : MsgFlags) : ':' ∉ marshalFlags flags := fun mem =>
  absurd (mem_marshalFlags mem) (by decide)

theorem mem_joinWords {separator : Char} {words : List Text}
    (mem : char ∈ joinWords separator words) : char = separator ∨ ∃ word ∈ words, char ∈ word := by
  induction words with
  | nil => cases mem
  | cons word rest ih =>
    cases rest with
    | nil => exact Or.inr ⟨word, mem_cons_self, mem⟩
    | cons next tail =>
      rw [joinWords, mem_append, mem_cons] at mem
      rcases mem with inWord | same | inRest
      · exact Or.inr ⟨word, mem_cons_self, inWord⟩
      · exact Or.inl same
      · rcases ih inRest with same | ⟨other, otherMem, inOther⟩
        · exact Or.inl same
        · exact Or.inr ⟨other, .tail _ otherMem, inOther⟩

theorem notMem_marshalDate (other : char.isDigit = false) (sign : char ≠ '-') (dot : char ≠ '.')
    (date : ImapTime) : char ∉ marshalDate date := by
  intro mem
  rcases mem_joinWords mem with same | ⟨word, wordMem, inWord⟩
  · exact dot same
  · exact notMem_marshalDate_fields other sign date word wordMem inWord

theorem parseValue_joinWords {fields : List Text} (key : MsgKey) (nonempty : fields ≠ [])
    (absent : ∀ word ∈ fields, ':' ∉ word) (room : fields.length < 6) :
    parseValue (joinWords ':' (logFormatVersion :: fields)) key = parsePostversion key fields := by
  have cut : cutWord ':' (joinWords ':' (logFormatVersion :: fields)) =
      (logFormatVersion, some (joinWords ':' fields)) := by
    cases fields with
    | nil => exact absurd rfl nonempty
    | cons field rest => exact cutWord_append (by decide) _
  unfold parseValue
  rw [cut]
  simp only [ne_eq, not_true_eq_false, if_false, Option.getD_some]
  rw [dstrSplit2Soft_joinWords absent nonempty room]

/-- The numbers of a value fit the C types. -/
structure LogValue.Fits (value : LogValue) : Prop where
  key : value.key.Fits
  uidDn : value.uidDn ≤ uintMax
  modseq : value.modseq ≤ uintmaxMax

theorem parseValue_marshalMessage {msg : Msg} {text : Text} (fits : (LogValue.message msg).Fits)
    (written : marshalMessage msg = .ok text) :
    parseValue text msg.key = .ok (.message msg.logged) := by
  cases shape : msgStatechar msg.state with
  | none =>
    unfold marshalMessage at written
    rw [shape] at written
    cases written
  | some char =>
    rw [marshalMessage_eq shape, Except.ok.injEq] at written
    subst written
    have stateBack : msgStateOfChar char = some msg.state := by
      cases state : msg.state <;> rw [state] at shape <;> cases shape <;> rfl
    have notColon : ':' ≠ char := by
      rintro rfl
      cases stateBack
    rw [parseValue_joinWords msg.key (cons_ne_nil _ _) ?absent (by simp)]
    case absent =>
      intro word mem
      simp only [mem_cons, not_mem_nil, or_false] at mem
      rcases mem with rfl | rfl | rfl | rfl | rfl
      · exact notMem_fmtUint rfl
      · exact notMem_fmtUint rfl
      · simpa using notColon
      · exact colon_notMem_marshalFlags _
      · exact notMem_marshalDate rfl (by decide) (by decide) _
    have uidDnBack : dstrTou (fmtUint msg.uidDn) 10 = .ok msg.uidDn := dstrTou_fmtUint fits.uidDn
    have modseqBack : dstrTou64 (fmtUint msg.modseq) 10 = .ok msg.modseq :=
      dstrTou64_fmtUint fits.modseq
    simp only [parsePostversion, parseFields]
    rw [uidDnBack, modseqBack, stateBack]
    simp only [bind, Except.bind]
    rw [parseFlags_marshal, parseDate_marshal]
    rfl

theorem parseValue_marshalExpunge {expunge : Expunge} (fits : (LogValue.expunge expunge).Fits) :
    parseValue (marshalExpunge expunge) expunge.key = .ok (.expunge expunge) := by
  unfold marshalExpunge
  rw [parseValue_joinWords expunge.key (cons_ne_nil _ _) ?absent (by simp)]
  case absent =>
    intro word mem
    simp only [mem_cons, not_mem_nil, or_false] at mem
    rcases mem with rfl | rfl | rfl
    · exact notMem_fmtUint rfl
    · exact notMem_fmtUint rfl
    · cases expunge.state <;> decide
  have uidDnBack : dstrTou (fmtUint expunge.uidDn) 10 = .ok expunge.uidDn :=
    dstrTou_fmtUint fits.uidDn
  have modseqBack : dstrTou64 (fmtUint expunge.modseq) 10 = .ok expunge.modseq :=
    dstrTou64_fmtUint fits.modseq
  simp only [parsePostversion, parseFields]
  rw [uidDnBack, modseqBack]
  obtain ⟨key, uidDn, state, modseq⟩ := expunge
  cases state <;> rfl

end Splintermail
