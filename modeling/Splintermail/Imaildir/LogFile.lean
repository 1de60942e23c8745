/-
This file models the reading half of `log_file.c`: the line reader, the values
that a line sets, and the opening of a log with its truncation of an incomplete
last line.

The functions here read text. The second half of the file gives every line the
entry it was written from, and shows that the text of a list of entries, followed
by an incomplete line, is read back entry by entry: everything else about the log
is then proved about lists of entries.
-/

import Mathlib.Data.List.TakeWhile
import Splintermail.Imaildir.Index
import Splintermail.Imaildir.LogCodec

namespace Splintermail

open List

/-! ### Reading lines -/

/-- `MAX_LINE_LEN` -/
def maxLineLen : Nat := 1024

/-- The reading loop of `fgets` with room for some more characters: the characters read, the
rest of the file, and whether the end of the file was seen. -/
def fgetsLoop : Nat → Text → Text × Text × Bool
  | 0, file => ([], file, false)
  | _ + 1, [] => ([], [], true)
  | room + 1, char :: file =>
    if char = '\n' then (['\n'], file, false)
    else
      let (line, rest, eof) := fgetsLoop room file
      (char :: line, rest, eof)

/-- The lines that repeated calls of `fgets` return, each with `feof` after it. -/
def fgetsLines : Nat → Text → List (Text × Bool)
  | 0, _ => []
  | fuel + 1, file =>
    match fgetsLoop (maxLineLen - 1) file with
    | ([], _, _) => []
    | (line, rest, eof) => (line, eof) :: fgetsLines fuel rest

/-- Every call consumes a character, so the length of the file is enough fuel. -/
def fileLines (file : Text) : List (Text × Bool) := fgetsLines file.length file

/-- The buffer up to its terminator, which is what `strnlen` measures. -/
def cString (buffer : Text) : Text := buffer.takeWhile fun char => char ≠ '\x00'

/-! ### What the lines describe -/

/-- A line of the log: one of the four kinds of keys with its value. -/
inductive LogEntry where
  | uidvlds (up dn : Nat)
  | himodseqUp (himodseq : Nat)
  | modseqDn (modseq : Nat)
  | value (content : LogValue)
  deriving DecidableEq

/-- What reading a log fills: the trees of the `imaildir_t` and the fields of the `log_t`. -/
structure LogState extends Trees where
  himodseqDn : Nat := 1
  uidvldUp : Nat := 0
  uidvldDn : Nat := 0
  himodseqUp : Nat := 0
  lines : Nat := 0
  updates : Nat := 0
  deriving DecidableEq

/-- The value of a line, parsed according to its key. -/
def parseContent (text : Text) : LogKey → Except Derr LogEntry
  | .uidvlds => do
    let (up, dn) ← parseUidvlds text
    return .uidvlds up dn
  | .himodsequp => do return .himodseqUp (← dstrTou64 text 10)
  | .modseqdn => do return .modseqDn (← dstrTou64 text 10)
  | .msg key => do return .value (← parseValue text key)

/-- The key and value of a line, parsed. -/
def parseLine (line : Text) : Except Derr LogEntry :=
  match dstrSplit2Soft '|' 2 line with
  | [key, value] => do
    let key ← logKeyUnmarshal key
    parseContent value key
  | _ => .error ⟨.param, "missing '|' in logfile line"⟩

/-- The part of `read_one_value` that detects an update to another message: the superseded
structure leaves its tree and the index. -/
def LogState.dropKey (state : LogState) (key : MsgKey) : LogState :=
  match Tree.find Msg.key key state.msgs, Tree.find Expunge.key key state.expunged with
  | some msg, _ =>
    { state with
      msgs := Tree.erase Msg.key key state.msgs
      mods := Trees.eraseMod msg.modseq state.mods
      updates := state.updates + 1 }
  | none, some expunge =>
    { state with
      expunged := Tree.erase Expunge.key key state.expunged
      mods := Tree.erase Mod.modseq expunge.modseq state.mods
      updates := state.updates + 1 }
  | none, none => state

/-- The part of `read_one_value` that submits a parsed value. -/
def LogState.submit (state : LogState) : LogValue → Except Derr LogState
  | .message msg =>
    if msg.modseq ≠ 0 ∧ msg.state ≠ .filled then
      .error ⟨.internal, "invalid nonzero modseq on non-FILLED message"⟩
    else if msg.modseq = 0 ∧ msg.state = .filled then
      .error ⟨.internal, "invalid zero modseq on FILLED message"⟩
    else .ok { state with
      msgs := Tree.insert Msg.key msg state.msgs
      mods := Trees.insertMod msg.mod state.mods }
  | .expunge expunge =>
    -- ignore values we wouldn't write anymore
    if expunge.uidDn = 0 ∧ expunge.modseq = 0 then
      .ok { state with updates := state.updates + 1 }
    else .ok { state with
      expunged := Tree.insert Expunge.key expunge state.expunged
      mods := Trees.insertMod expunge.mod state.mods }

/-- `read_one_value`, after the value is parsed. A value that does not parse fails the whole
reading, so it does not matter that the source drops the superseded structure first. -/
def LogState.readOneValue (state : LogState) (value : LogValue) : Except Derr LogState :=
  (state.dropKey value.key).submit value

/-- One round of the loop of `read_all_keys` on a parsed line. The counter of the explicit
modseq lines tests `himodseq_up`, as the source does. -/
def LogState.readEntry (state : LogState) (entry : LogEntry) : Except Derr LogState :=
  let state := { state with lines := state.lines + 1 }
  match entry with
  | .uidvlds up dn =>
    .ok { state with
      updates := if 0 < state.uidvldUp then state.updates + 1 else state.updates
      uidvldUp := up
      uidvldDn := dn }
  | .himodseqUp himodseq =>
    .ok { state with
      updates := if 0 < state.himodseqUp then state.updates + 1 else state.updates
      himodseqUp := himodseq }
  | .modseqDn modseq =>
    .ok { state with
      updates := if 0 < state.himodseqUp then state.updates + 1 else state.updates
      himodseqDn := max state.himodseqDn modseq }
  | .value content => state.readOneValue content

/-- The end of `read_all_keys`: the highest modseq seen in the messages counts too. -/
def LogState.finish (state : LogState) : LogState :=
  match state.mods.getLast? with
  | none => state
  | some mod => { state with himodseqDn := max state.himodseqDn mod.modseq }

/-- What `read_all_keys` returns. -/
structure ReadResult where
  state : LogState
  validLen : Nat
  wantTrunc : Bool
  deriving DecidableEq

/-- The loop of `read_all_keys` over the lines of the file. -/
def readLines (state : LogState) (validLen : Nat) : List (Text × Bool) → Except Derr ReadResult
  | [] => .ok ⟨state, validLen, false⟩
  | (buffer, eof) :: rest =>
    let line := cString buffer
    if line.getLast? ≠ some '\n' then
      if eof then .ok ⟨state, validLen, true⟩
      else .error ⟨.param, "line-too-long in logfile, discarding"⟩
    else do
      let entry ← parseLine line.dropLast
      let state ← state.readEntry entry
      readLines state (validLen + line.length) rest

/-- `read_all_keys` -/
def readAllKeys (file : Text) : Except Derr ReadResult := do
  let result ← readLines {} 0 (fileLines file)
  return { result with state := result.state.finish }

/-- `imaildir_log_open`: what the log holds, and the file it leaves. -/
def imaildirLogOpen (file : Text) : Except Derr (LogState × Text) := do
  let result ← readAllKeys file
  return (result.state, if result.wantTrunc then file.take result.validLen else file)

/-! ### The text of an entry -/

def LogEntry.logKey : LogEntry → LogKey
  | .uidvlds _ _ => .uidvlds
  | .himodseqUp _ => .himodsequp
  | .modseqDn _ => .modseqdn
  | .value content => .msg content.key

/-- The key and the value of an entry as the log writes them. -/
def LogEntry.keyText (entry : LogEntry) : Text := logKeyMarshal entry.logKey

def LogEntry.valueText : LogEntry → Text
  | .uidvlds up dn => marshalUidvlds up dn
  | .himodseqUp himodseq => fmtUint himodseq
  | .modseqDn modseq => fmtUint modseq
  | .value (.message msg) => (marshalMessage msg).toOption.getD []
  | .value (.expunge expunge) => marshalExpunge expunge

theorem LogEntry.valueText_message {msg : Msg} {text : Text}
    (written : marshalMessage msg = .ok text) :
    (LogEntry.value (.message msg)).valueText = text := by
  show (marshalMessage msg).toOption.getD [] = text
  rw [written]
  rfl

def LogEntry.line (entry : LogEntry) : Text :=
  entry.keyText ++ '|' :: entry.valueText ++ ['\n']

/-- The text of a log with these entries. -/
def logText (entries : List LogEntry) : Text := entries.flatMap LogEntry.line

/-- The entries that the log writes: numbers that fit the C types, and messages as
`marshal_message` accepts them, without what it leaves out. -/
def LogEntry.Fits : LogEntry → Prop
  | .uidvlds up dn => up ≤ uintMax ∧ dn ≤ uintMax
  | .himodseqUp himodseq => himodseq ≤ uintmaxMax
  | .modseqDn modseq => modseq ≤ uintmaxMax
  | .value (.message msg) =>
    (LogValue.message msg).Fits ∧ msg.state ≠ .expunged ∧ msg.logged = msg
  | .value (.expunge expunge) => (LogValue.expunge expunge).Fits

/-- The entries that reading a file applies, in order. -/
def readEntries (state : LogState) : List LogEntry → Except Derr LogState
  | [] => .ok state
  | entry :: rest => do
    let state ← state.readEntry entry
    readEntries state rest

/-! ### The characters of an entry -/

/-- The characters of an entry: none of them ends a line, ends a string or is a bar. -/
def plainChar (char : Char) : Bool :=
  char.isDigit || char ∈ ['-', '.', ':', 'v', 'h', 'd', 'm', 'u', 'f', 'n', 'e', 'x',
    'A', 'D', 'F', 'S', 'X']

def Plain (text : Text) : Prop := ∀ char ∈ text, plainChar char

theorem Plain.fmtUint (value : Nat) : Plain (fmtUint value) := by
  intro char mem
  unfold plainChar
  rw [isDigit_of_mem_fmtUint mem]
  rfl

theorem Plain.fmtInt (value : Int) : Plain (fmtInt value) := by
  unfold Splintermail.fmtInt
  split
  · intro char mem
    rcases mem_cons.mp mem with rfl | mem
    · rfl
    · exact Plain.fmtUint _ char mem
  · exact Plain.fmtUint _

theorem Plain.joinWords {separator : Char} {words : List Text} (sepPlain : plainChar separator)
    (plain : ∀ word ∈ words, Plain word) : Plain (joinWords separator words) := by
  intro char mem
  rcases mem_joinWords mem with rfl | ⟨word, wordMem, inWord⟩
  · exact sepPlain
  · exact plain word wordMem char inWord

variable {char : Char}

theorem Plain.singleton (plain : plainChar char) : Plain [char] := by
  intro other mem
  rw [mem_singleton.mp mem]
  exact plain

theorem Plain.logKeyMarshal (key : LogKey) : Plain (logKeyMarshal key) := by
  cases key with
  | uidvlds => exact Plain.singleton rfl
  | himodsequp => exact Plain.singleton rfl
  | modseqdn => exact Plain.singleton rfl
  | msg key =>
    refine Plain.joinWords rfl ?_
    intro word mem
    simp only [mem_cons, not_mem_nil, or_false] at mem
    rcases mem with rfl | rfl | rfl
    · exact Plain.singleton rfl
    · exact Plain.fmtUint _
    · exact Plain.fmtUint _

theorem Plain.marshalDate (date : ImapTime) : Plain (marshalDate date) := by
  refine Plain.joinWords rfl ?_
  intro word mem
  obtain ⟨field, -, rfl⟩ := mem_map.mp mem
  exact Plain.fmtInt _

theorem Plain.marshalFlags (flags : MsgFlags) : Plain (marshalFlags flags) := by
  intro char mem
  have letter := mem_marshalFlags mem
  simp only [mem_cons, not_mem_nil, or_false] at letter
  rcases letter with rfl | rfl | rfl | rfl | rfl <;> rfl

variable {entry : LogEntry}

theorem Plain.valueText (fits : entry.Fits) : Plain entry.valueText := by
  cases entry with
  | uidvlds up dn =>
    refine Plain.joinWords rfl ?_
    intro word mem
    simp only [mem_cons, not_mem_nil, or_false] at mem
    rcases mem with rfl | rfl
    · exact Plain.fmtUint _
    · exact Plain.fmtUint _
  | himodseqUp himodseq => exact Plain.fmtUint _
  | modseqDn modseq => exact Plain.fmtUint _
  | value value =>
    cases value with
    | message msg =>
      cases shape : msgStatechar msg.state with
      | none => exact absurd (msgStatechar_eq_none.mp shape) fits.2.1
      | some stateChar =>
        rw [LogEntry.valueText_message (marshalMessage_eq shape)]
        refine Plain.joinWords rfl ?_
        intro word mem
        simp only [mem_cons, not_mem_nil, or_false] at mem
        rcases mem with rfl | rfl | rfl | rfl | rfl | rfl
        · exact Plain.singleton rfl
        · exact Plain.fmtUint _
        · exact Plain.fmtUint _
        · cases state : msg.state <;> rw [state] at shape <;> cases shape <;>
            exact Plain.singleton rfl
        · exact Plain.marshalFlags _
        · exact Plain.marshalDate _
    | expunge expunge =>
      refine Plain.joinWords rfl ?_
      intro word mem
      simp only [mem_cons, not_mem_nil, or_false] at mem
      rcases mem with rfl | rfl | rfl | rfl
      · exact Plain.singleton rfl
      · exact Plain.fmtUint _
      · exact Plain.fmtUint _
      · cases expunge.state <;> exact Plain.singleton rfl

theorem Plain.notMem {text : Text} (plain : Plain text) (other : plainChar char = false) :
    char ∉ text := fun mem => by
  rw [plain char mem] at other
  cases other

/-! ### The length of a line -/

theorem length_joinWords_le (separator : Char) (words : List Text) (bound : Nat)
    (each : ∀ word ∈ words, word.length ≤ bound) :
    (joinWords separator words).length ≤ words.length * (bound + 1) := by
  induction words with
  | nil => exact Nat.zero_le _
  | cons word rest ih =>
    have first := each word mem_cons_self
    have others := ih fun other mem => each other (.tail _ mem)
    rw [length_cons, Nat.succ_mul]
    cases rest with
    | nil =>
      show word.length ≤ _
      omega
    | cons next tail =>
      rw [joinWords, length_append, length_cons]
      omega

theorem length_fmtUint_le_ten {value : Nat} (fits : value ≤ uintMax) :
    (fmtUint value).length ≤ 10 :=
  length_fmtUint_le (by decide) (lt_of_le_of_lt fits (by decide))

theorem length_fmtUint_le_twenty {value : Nat} (fits : value ≤ uintmaxMax) :
    (fmtUint value).length ≤ 20 :=
  length_fmtUint_le (by decide) (lt_of_le_of_lt fits (by decide))

theorem length_marshalDate_le (date : ImapTime) : (marshalDate date).length ≤ 96 := by
  refine length_joinWords_le '.' _ 11 ?_
  intro word mem
  obtain ⟨field, -, rfl⟩ := mem_map.mp mem
  refine length_fmtInt_le (by decide) ?_
  have lower := field.le_toInt
  have upper := field.toInt_lt
  omega

theorem LogEntry.fits_logKey (fits : entry.Fits) (key : MsgKey) (same : entry.logKey = .msg key) :
    key.Fits := by
  cases entry with
  | uidvlds up dn => cases same
  | himodseqUp himodseq => cases same
  | modseqDn modseq => cases same
  | value content =>
    cases content with
    | message msg =>
      cases same
      exact fits.1.key
    | expunge expunge =>
      cases same
      exact fits.key

theorem length_keyText_le (fits : entry.Fits) : entry.keyText.length ≤ 33 := by
  unfold LogEntry.keyText
  cases shape : entry.logKey with
  | uidvlds => decide
  | himodsequp => decide
  | modseqdn => decide
  | msg key =>
    have keyFits := entry.fits_logKey fits key shape
    refine length_joinWords_le '.' _ 10 ?_
    intro word mem
    simp only [mem_cons, not_mem_nil, or_false] at mem
    rcases mem with rfl | rfl | rfl
    · decide
    · exact length_fmtUint_le_ten keyFits.1
    · exact length_fmtUint_le_ten keyFits.2

theorem length_valueText_le (fits : entry.Fits) : entry.valueText.length ≤ 582 := by
  cases entry with
  | uidvlds up dn =>
    refine le_trans (length_joinWords_le ':' _ 10 ?_) (by simp)
    intro word mem
    simp only [mem_cons, not_mem_nil, or_false] at mem
    rcases mem with rfl | rfl
    · exact length_fmtUint_le_ten fits.1
    · exact length_fmtUint_le_ten fits.2
  | himodseqUp himodseq => exact le_trans (length_fmtUint_le_twenty fits) (by decide)
  | modseqDn modseq => exact le_trans (length_fmtUint_le_twenty fits) (by decide)
  | value content =>
    cases content with
    | message msg =>
      cases shape : msgStatechar msg.state with
      | none => exact absurd (msgStatechar_eq_none.mp shape) fits.2.1
      | some stateChar =>
        rw [LogEntry.valueText_message (marshalMessage_eq shape)]
        refine le_trans (length_joinWords_le ':' _ 96 ?_) (by simp)
        intro word mem
        simp only [mem_cons, not_mem_nil, or_false] at mem
        rcases mem with rfl | rfl | rfl | rfl | rfl | rfl
        · decide
        · exact le_trans (length_fmtUint_le_ten fits.1.uidDn) (by decide)
        · exact le_trans (length_fmtUint_le_twenty fits.1.modseq) (by decide)
        · exact Nat.le_add_left 1 95
        · obtain ⟨answered, flagged, seen, draft, deleted⟩ := msg.flags
          cases answered <;> cases flagged <;> cases seen <;> cases draft <;> cases deleted <;>
            decide
        · exact length_marshalDate_le _
    | expunge expunge =>
      refine le_trans (length_joinWords_le ':' _ 20 ?_) (by simp)
      intro word mem
      simp only [mem_cons, not_mem_nil, or_false] at mem
      rcases mem with rfl | rfl | rfl | rfl
      · decide
      · exact le_trans (length_fmtUint_le_ten fits.uidDn) (by decide)
      · exact length_fmtUint_le_twenty fits.modseq
      · exact Nat.le_add_left 1 19

/-! ### Reading a written line -/

/-- The text of an entry without its newline. -/
def LogEntry.body (entry : LogEntry) : Text := entry.keyText ++ '|' :: entry.valueText

theorem LogEntry.line_eq (entry : LogEntry) : entry.line = entry.body ++ ['\n'] := rfl

theorem LogEntry.length_body (fits : entry.Fits) : entry.body.length + 1 < maxLineLen := by
  have key := length_keyText_le fits
  have value := length_valueText_le fits
  unfold LogEntry.body maxLineLen
  rw [length_append, length_cons]
  omega

theorem LogEntry.notMem_body (fits : entry.Fits) (other : plainChar char = false)
    (notBar : char ≠ '|') : char ∉ entry.body := by
  unfold LogEntry.body
  rw [mem_append, mem_cons, not_or, not_or]
  exact ⟨(Plain.logKeyMarshal _).notMem other, notBar, (Plain.valueText fits).notMem other⟩

theorem parseContent_valueText (fits : entry.Fits) :
    parseContent entry.valueText entry.logKey = .ok entry := by
  cases entry with
  | uidvlds up dn =>
    show (parseUidvlds (marshalUidvlds up dn) >>= _) = _
    rw [parseUidvlds_marshal fits.1 fits.2]
    rfl
  | himodseqUp himodseq =>
    show (dstrTou64 (fmtUint himodseq) 10 >>= _) = _
    rw [dstrTou64_fmtUint fits]
    rfl
  | modseqDn modseq =>
    show (dstrTou64 (fmtUint modseq) 10 >>= _) = _
    rw [dstrTou64_fmtUint fits]
    rfl
  | value content =>
    cases content with
    | message msg =>
      cases shape : msgStatechar msg.state with
      | none => exact absurd (msgStatechar_eq_none.mp shape) fits.2.1
      | some stateChar =>
        have written := marshalMessage_eq shape
        rw [LogEntry.valueText_message written]
        show (parseValue _ msg.key >>= _) = _
        rw [parseValue_marshalMessage fits.1 written, fits.2.2]
        rfl
    | expunge expunge =>
      show (parseValue (marshalExpunge expunge) expunge.key >>= _) = _
      rw [parseValue_marshalExpunge fits]
      rfl

theorem LogEntry.split_body (entry : LogEntry) :
    dstrSplit2Soft '|' 2 entry.body = [entry.keyText, entry.valueText] := by
  have absent : '|' ∉ entry.keyText := (Plain.logKeyMarshal entry.logKey).notMem rfl
  unfold LogEntry.body
  rw [dstrSplit2Soft, cutWord_append absent]
  rfl

theorem parseLine_body (fits : entry.Fits) : parseLine entry.body = .ok entry := by
  have key : logKeyUnmarshal entry.keyText = .ok entry.logKey :=
    logKeyUnmarshal_marshal (entry.fits_logKey fits)
  unfold parseLine
  rw [entry.split_body]
  show (logKeyUnmarshal entry.keyText >>= _) = _
  rw [key]
  exact parseContent_valueText fits

/-- What a log keeps of a message is written without a separator of the log, and read back. -/
theorem marshalMessage_codec {msg : Msg} (fits : (LogValue.message msg).Fits)
    (loggable : msg.state ≠ .expunged) :
    ∃ text, marshalMessage msg = .ok text ∧ parseValue text msg.key = .ok (.message msg.logged) ∧
      '|' ∉ text ∧ '\n' ∉ text := by
  cases shape : msgStatechar msg.state with
  | none => exact absurd (msgStatechar_eq_none.mp shape) loggable
  | some stateChar =>
    have written := marshalMessage_eq shape
    have entryFits : (LogEntry.value (.message msg.logged)).Fits :=
      ⟨⟨fits.key, fits.uidDn, fits.modseq⟩, loggable, rfl⟩
    have plain := Plain.valueText entryFits
    rw [@LogEntry.valueText_message msg.logged _ written] at plain
    exact ⟨_, written, parseValue_marshalMessage fits written, plain.notMem rfl, plain.notMem rfl⟩

/-- Keys and values are read back from what is written of them, which holds no separator of the log,
and distinct keys are written differently. -/
theorem logKeyMarshal_parseValue_codec :
    (∀ key : MsgKey, key.Fits → logKeyUnmarshal (logKeyMarshal (.msg key)) = .ok (.msg key)) ∧
    (∀ first second : MsgKey, first.Fits → second.Fits →
      logKeyMarshal (.msg first) = logKeyMarshal (.msg second) → first = second) ∧
    (∀ msg : Msg, (LogValue.message msg).Fits → msg.state ≠ .expunged →
      ∃ text, marshalMessage msg = .ok text ∧
        parseValue text msg.key = .ok (.message msg.logged) ∧ '|' ∉ text ∧ '\n' ∉ text) ∧
    (∀ expunge : Expunge, (LogValue.expunge expunge).Fits →
      parseValue (marshalExpunge expunge) expunge.key = .ok (.expunge expunge) ∧
        '|' ∉ marshalExpunge expunge ∧ '\n' ∉ marshalExpunge expunge) ∧
    (∀ key : LogKey, '|' ∉ logKeyMarshal key ∧ '\n' ∉ logKeyMarshal key) ∧
    (∀ up dn : Nat, '|' ∉ marshalUidvlds up dn ∧ '\n' ∉ marshalUidvlds up dn) ∧
    ∀ modseq : Nat, '|' ∉ fmtUint modseq ∧ '\n' ∉ fmtUint modseq := by
  refine ⟨fun key => logKeyUnmarshal_marshal_msg, ?_, fun msg => marshalMessage_codec, ?_, ?_, ?_,
    fun modseq => ⟨notMem_fmtUint rfl, notMem_fmtUint rfl⟩⟩
  · intro first second firstFits secondFits same
    have fit : ∀ {key : MsgKey}, key.Fits → ∀ other, LogKey.msg key = .msg other → other.Fits := by
      rintro key fits _ ⟨⟩
      exact fits
    exact LogKey.msg.inj (logKeyMarshal_injective (fit firstFits) (fit secondFits) same)
  · intro expunge fits
    have entryFits : (LogEntry.value (.expunge expunge)).Fits := fits
    have plain := Plain.valueText entryFits
    exact ⟨parseValue_marshalExpunge fits, plain.notMem rfl, plain.notMem rfl⟩
  · intro key
    have plain := Plain.logKeyMarshal key
    exact ⟨plain.notMem rfl, plain.notMem rfl⟩
  · intro up dn
    have plain : Plain (marshalUidvlds up dn) := by
      refine Plain.joinWords rfl ?_
      intro word mem
      obtain rfl | rfl := mem_pair.mp mem
      · exact Plain.fmtUint _
      · exact Plain.fmtUint _
    exact ⟨plain.notMem rfl, plain.notMem rfl⟩

/-- The largest key, and a message with the least and the largest number in its date. -/
theorem logKeyMarshal_parseValue_codec_extremes :
    logKeyUnmarshal (logKeyMarshal (.msg ⟨4294967295, 0⟩)) = .ok (.msg ⟨4294967295, 0⟩) ∧
    ∃ text, marshalMessage ⟨⟨0, 7⟩, 4294967295, 12, { year := -2147483648, zMin := 2147483647 },
        { seen := true, draft := true }, 18446744073709551615, .unfilled, none⟩ = .ok text ∧
      parseValue text ⟨0, 7⟩ = .ok (.message ⟨⟨0, 7⟩, 4294967295, 0,
        { year := -2147483648, zMin := 2147483647 }, { seen := true, draft := true },
        18446744073709551615, .unfilled, none⟩) ∧ '|' ∉ text ∧ '\n' ∉ text :=
  ⟨logKeyMarshal_parseValue_codec.1 _ (by decide),
    logKeyMarshal_parseValue_codec.2.2.1
      ⟨⟨0, 7⟩, 4294967295, 12, { year := -2147483648, zMin := 2147483647 },
        { seen := true, draft := true }, 18446744073709551615, .unfilled, none⟩
      ⟨by decide, by decide, by decide⟩ (by decide)⟩

theorem fgetsLoop_line {room : Nat} {text : Text} (absent : '\n' ∉ text) (fits : text.length < room)
    (rest : Text) : fgetsLoop room (text ++ '\n' :: rest) = (text ++ ['\n'], rest, false) := by
  induction text generalizing room with
  | nil =>
    obtain ⟨more, rfl⟩ : ∃ more, room = more + 1 := ⟨room - 1, by rw [length_nil] at fits; omega⟩
    rfl
  | cons char tail ih =>
    obtain ⟨more, rfl⟩ : ∃ more, room = more + 1 := ⟨room - 1, by omega⟩
    rw [mem_cons, not_or] at absent
    rw [cons_append, fgetsLoop, if_neg (Ne.symm absent.1),
      ih absent.2 (by rw [length_cons] at fits; omega)]
    rfl

theorem fgetsLoop_tail {room : Nat} {text : Text} (absent : '\n' ∉ text)
    (fits : text.length < room) : fgetsLoop room text = (text, [], true) := by
  induction text generalizing room with
  | nil =>
    obtain ⟨more, rfl⟩ : ∃ more, room = more + 1 := ⟨room - 1, by rw [length_nil] at fits; omega⟩
    rfl
  | cons char tail ih =>
    obtain ⟨more, rfl⟩ : ∃ more, room = more + 1 := ⟨room - 1, by omega⟩
    rw [mem_cons, not_or] at absent
    rw [fgetsLoop, if_neg (Ne.symm absent.1), ih absent.2 (by rw [length_cons] at fits; omega)]

/-- What a crash in the middle of a write leaves after the complete lines: a text that ends no
line and is shorter than a line. -/
structure Incomplete (tail : Text) : Prop where
  newline : '\n' ∉ tail
  short : tail.length + 1 < maxLineLen

variable {entries : List LogEntry} {tail : Text}

theorem fgetsLines_logText (fits : ∀ entry ∈ entries, entry.Fits) (incomplete : Incomplete tail)
    (fuel : Nat) (enough : (logText entries ++ tail).length ≤ fuel) :
    fgetsLines fuel (logText entries ++ tail) =
      entries.map (fun entry => (entry.line, false)) ++ if tail = [] then [] else [(tail, true)] := by
  induction entries generalizing fuel with
  | nil =>
    show fgetsLines fuel tail = if tail = [] then [] else [(tail, true)]
    have read : fgetsLoop (maxLineLen - 1) tail = (tail, [], true) :=
      fgetsLoop_tail incomplete.newline (by have := incomplete.short; unfold maxLineLen at *; omega)
    cases fuel with
    | zero =>
      have empty : tail = [] := by
        cases tail with
        | nil => rfl
        | cons char rest => exact absurd enough (by simp)
      rw [empty]
      rfl
    | succ fuel =>
      rw [fgetsLines, read]
      cases tail with
      | nil => rfl
      | cons char rest =>
        simp only
        rw [if_neg (cons_ne_nil _ _)]
        cases fuel with
        | zero => rfl
        | succ fuel => rfl
  | cons entry rest ih =>
    have entryFits := fits entry mem_cons_self
    have shape : logText (entry :: rest) ++ tail = entry.body ++ '\n' :: (logText rest ++ tail) := by
      unfold logText
      rw [flatMap_cons, LogEntry.line_eq, append_assoc, append_assoc]
      rfl
    have read : fgetsLoop (maxLineLen - 1) (entry.body ++ '\n' :: (logText rest ++ tail)) =
        (entry.body ++ ['\n'], logText rest ++ tail, false) :=
      fgetsLoop_line (entry.notMem_body entryFits rfl (by decide))
        (by have := entry.length_body entryFits; omega) _
    rw [shape, length_append, length_cons] at enough
    obtain ⟨more, rfl⟩ : ∃ more, fuel = more + 1 := ⟨fuel - 1, by omega⟩
    rw [shape, fgetsLines, read]
    have nonempty : entry.body ++ ['\n'] ≠ [] := by simp
    cases bodyShape : entry.body ++ ['\n'] with
    | nil => exact absurd bodyShape nonempty
    | cons char others =>
      simp only
      rw [ih (fun other mem => fits other (.tail _ mem)) more (by omega), ← bodyShape]
      rfl

theorem cString_of_notMem {buffer : Text} (absent : '\x00' ∉ buffer) : cString buffer = buffer := by
  unfold cString
  rw [takeWhile_eq_self_iff]
  intro char mem
  have other : char ≠ '\x00' := fun same => absent (same ▸ mem)
  simpa using other

theorem getLast_cString_ne {buffer : Text} (absent : '\n' ∉ buffer) :
    (cString buffer).getLast? ≠ some '\n' := by
  intro last
  have mem : '\n' ∈ cString buffer := mem_of_getLast? last
  exact absent ((takeWhile_subset _) mem)

/-- A written line is read as its entry. -/
theorem readLines_line (fits : entry.Fits) (state : LogState) (validLen : Nat) (eof : Bool)
    (rest : List (Text × Bool)) :
    readLines state validLen ((entry.line, eof) :: rest) = state.readEntry entry >>= fun state =>
        readLines state (validLen + entry.line.length) rest := by
  have noNul : '\x00' ∉ entry.line := by
    rw [LogEntry.line_eq, mem_append, not_or]
    exact ⟨entry.notMem_body fits rfl (by decide), by decide⟩
  have last : entry.line.getLast? = some '\n' := by
    rw [LogEntry.line_eq, getLast?_concat]
  have body : entry.line.dropLast = entry.body := by
    rw [LogEntry.line_eq, dropLast_concat]
  rw [readLines]
  simp only [cString_of_notMem noNul, last, ne_eq, not_true_eq_false, if_false, body,
    parseLine_body fits]
  rfl

theorem readLines_logText (fits : ∀ entry ∈ entries, entry.Fits) (incomplete : Incomplete tail)
    (state : LogState) (validLen : Nat) :
    readLines state validLen (entries.map (fun entry => (entry.line, false)) ++
        if tail = [] then [] else [(tail, true)]) =
      readEntries state entries >>= fun state =>
        .ok ⟨state, validLen + (logText entries).length, decide (tail ≠ [])⟩ := by
  induction entries generalizing state validLen with
  | nil =>
    show readLines state validLen (if tail = [] then [] else [(tail, true)]) =
      .ok ⟨state, validLen, decide (tail ≠ [])⟩
    by_cases empty : tail = []
    · rw [if_pos empty, empty]
      rfl
    · rw [if_neg empty, readLines]
      simp only [ne_eq, getLast_cString_ne incomplete.newline, not_false_eq_true, if_true, empty,
        decide_true]
  | cons entry rest ih =>
    rw [map_cons, cons_append, readLines_line (fits entry mem_cons_self), readEntries]
    cases next : state.readEntry entry with
    | error err => rfl
    | ok state =>
      show readLines state _ _ = _
      rw [ih fun other mem => fits other (.tail _ mem)]
      have length : (logText (entry :: rest)).length = entry.line.length + (logText rest).length := by
        unfold logText
        rw [flatMap_cons, length_append]
      rw [length, Nat.add_assoc]
      rfl

/-- The text of a list of entries followed by an incomplete line is read entry by entry, and
the incomplete line is what is truncated. -/
theorem imaildirLogOpen_logText (fits : ∀ entry ∈ entries, entry.Fits)
    (incomplete : Incomplete tail) :
    imaildirLogOpen (logText entries ++ tail) =
      (readEntries {} entries).map fun state => (state.finish, logText entries) := by
  unfold imaildirLogOpen readAllKeys fileLines
  rw [fgetsLines_logText fits incomplete _ le_rfl, readLines_logText fits incomplete]
  cases readEntries {} entries with
  | error err => rfl
  | ok state =>
    show Except.ok (state.finish, _) = .ok (state.finish, _)
    by_cases empty : tail = []
    · simp [empty]
    · simp [empty]

end Splintermail
