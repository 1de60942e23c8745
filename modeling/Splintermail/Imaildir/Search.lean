/-
This file models `search.c`, the evaluation of a search key on a message, and says when it comes
to an end and what a search of the text finds.

The evaluation goes down the key and always ends, unless it asks the counter of substrings for an
empty string. Then the counter stays at the first index. A search of the text looks at the
headers first and after that only at what is left, from as far before the end of the headers as
the string is long.
-/

import Splintermail.Dstr.Count
import Splintermail.Imap.Expression
import Splintermail.Imf.Partition

namespace Splintermail

open Returns List

/-! ### The code -/

/-- A search does not end, or it ends with an error. -/
inductive SearchFault where
  | hangs
  | error (error : Derr)
  deriving DecidableEq

/-- `search_args_t`, where the headers and the message that are got are ranges of one buffer. -/
structure SearchKeyArgs where
  view : MsgView
  seq : Nat
  seqMax : Nat
  uidDnMax : Nat
  buf : Bytes
  getHdrs : Except Derr HdrsOff
  getImf : Except Derr ImfOff

/-- `in_seq_set` -/
def inSeqSet (val : Nat) (seqSet : IeSeqSet) (seqMax : Nat) : Bool :=
  seqSet.any fun range =>
    -- straighten out the range
    let n1 := if range.n1 ≠ 0 then range.n1 else seqMax
    let n2 := if range.n2 ≠ 0 then range.n2 else seqMax
    decide (val ≥ min n1 n2 ∧ val ≤ max n1 n2)

/-- `find_header`: the value of the first header of a name. A message that cannot be parsed has no
headers. -/
def findHeader (args : SearchKeyArgs) (name : Bytes) : Option Bytes :=
  match args.getHdrs with
  | .error _ => none
  | .ok hdrs => (hdrs.hdr.find? fun hdr => dstrIcmp2 (hdr.name.text args.buf) name = 0).map
      fun hdr => hdr.value.text args.buf

/-- The comparison of `dstr_icount2` with zero. -/
def icounts (fuel : Nat) (text pattern : Bytes) : Except SearchFault Bool :=
  match dstrIcount2 fuel text pattern with
  | .error .hangs => .error .hangs
  | .ok count => .ok (count > 0)

/-- `search_headers` -/
def searchHeaders (fuel : Nat) (args : SearchKeyArgs) (name value : Bytes) :
    Except SearchFault Bool :=
  match findHeader args name with
  | none => .ok false
  | some hvalue => icounts fuel hvalue value

/-- `parse_date`: a date that cannot be parsed is zero. -/
def searchParseDate (imfParseDate : Bytes → Except Derr ImapTime) (args : SearchKeyArgs) : ImapTime :=
  match findHeader args (ascii "Date") with
  | none => {}
  | some hvalue =>
    match imfParseDate hvalue with
    | .error _ => {}
    | .ok date => date

/-- `date_a_is_on_b` -/
def dateAIsOnB (a b : ImapTime) : Bool := a.year = b.year ∧ a.month = b.month ∧ a.day = b.day

/-- `date_a_is_before_b` -/
def dateAIsBeforeB (a b : ImapTime) : Bool :=
  if a.year < b.year then true
  else if a.year > b.year then false
  else if a.month < b.month then true
  else if a.month > b.month then false
  else a.day < b.day

/-- `date_a_is_since_b` -/
def dateAIsSinceB (a b : ImapTime) : Bool :=
  if a.year > b.year then true
  else if a.year < b.year then false
  else if a.month > b.month then true
  else if a.month < b.month then false
  else a.day ≥ b.day

/-- The branches of `do_eval` for keys without a parameter. -/
def evalZero (view : MsgView) : IeSearch0 → Bool
  | .all => true
  | .answered => view.flags.answered
  | .unanswered => !view.flags.answered
  | .deleted => view.flags.deleted
  | .undeleted => !view.flags.deleted
  | .flagged => view.flags.flagged
  | .unflagged => !view.flags.flagged
  | .seen => view.flags.seen
  | .unseen => !view.flags.seen
  | .draft => view.flags.draft
  | .undraft => !view.flags.draft
  -- we don't support recent
  | .new => false
  | .old => true
  | .recent => false

/-- `IE_SEARCH_BODY` -/
def searchBody (fuel : Nat) (args : SearchKeyArgs) (tgt : Bytes) : Except SearchFault Bool :=
  match args.getImf with
  | .error _ => .ok false
  | .ok imf => icounts fuel (imf.body.text args.buf) tgt

/-- `IE_SEARCH_TEXT` -/
def searchText (fuel : Nat) (args : SearchKeyArgs) (tgt : Bytes) : Except SearchFault Bool :=
  match args.getHdrs with
  | .error _ => .ok false
  | .ok hdrs => do
    -- search the headers first, then search the body if necessary
    if ← icounts fuel (hdrs.bytes.text args.buf) tgt then return true
    -- remember how far we already searched
    let hdrsEnd := hdrs.bytes.start + hdrs.bytes.len
    match args.getImf with
    | .error _ => return false
    | .ok imf =>
      let start := hdrsEnd - min hdrsEnd tgt.length
      let fin := imf.bytes.start + imf.bytes.len
      icounts fuel (dstrSub2 (imf.bytes.text args.buf) start fin) tgt

/-- The branches of `do_eval` for keys with a string. -/
def evalDstr (fuel : Nat) (args : SearchKeyArgs) (tgt : Bytes) :
    IeSearchDstr → Except SearchFault Bool
  | .subject => searchHeaders fuel args (ascii "Subject") tgt
  | .bcc => searchHeaders fuel args (ascii "Bcc") tgt
  | .cc => searchHeaders fuel args (ascii "Cc") tgt
  | .from => searchHeaders fuel args (ascii "From") tgt
  | .to => searchHeaders fuel args (ascii "To") tgt
  | .body => searchBody fuel args tgt
  | .text => searchText fuel args tgt
  -- we don't support keyword flags
  | .keyword => .ok false
  | .unkeyword => .ok true

/-- The branches of `do_eval` for keys with a date. -/
def evalDate (imfParseDate : Bytes → Except Derr ImapTime) (args : SearchKeyArgs)
    (date : ImapTime) : IeSearchDate → Bool
  | .before => dateAIsBeforeB args.view.internaldate date
  | .on => dateAIsOnB args.view.internaldate date
  | .since => dateAIsSinceB args.view.internaldate date
  | .sentbefore =>
    let sent := searchParseDate imfParseDate args
    sent.year ≠ 0 && dateAIsBeforeB sent date
  | .senton =>
    let sent := searchParseDate imfParseDate args
    sent.year ≠ 0 && dateAIsOnB sent date
  | .sentsince =>
    let sent := searchParseDate imfParseDate args
    sent.year ≠ 0 && dateAIsSinceB sent date

/-- `do_eval` -/
def doEval (imfParseDate : Bytes → Except Derr ImapTime) (fuel : Nat) (args : SearchKeyArgs)
    (lvl : Nat) (key : IeSearchKey) : Except SearchFault Bool :=
  -- recursion limit
  if lvl > 1000 then .ok false
  else
    match key with
    | .zero type => .ok (evalZero args.view type)
    | .not key => do
      let temp ← doEval imfParseDate fuel args (lvl + 1) key
      return !temp
    | .group key => doEval imfParseDate fuel args (lvl + 1) key
    | .pair type a b => do
      let a ← doEval imfParseDate fuel args (lvl + 1) a
      let b ← doEval imfParseDate fuel args (lvl + 1) b
      match type with
      | .or => return a || b
      | .and => return a && b
    | .seqSet .uid seqSet => .ok (inSeqSet args.view.uidDn seqSet args.uidDnMax)
    | .seqSet .seqSet seqSet => .ok (inSeqSet args.seq seqSet args.seqMax)
    | .dstr type dstr => evalDstr fuel args (ieDstrText dstr) type
    | .header name value => searchHeaders fuel args (ieDstrText name) (ieDstrText value)
    | .date type date => .ok (evalDate imfParseDate args date type)
    | .num .larger num => .ok (args.view.length > num)
    | .num .smaller num => .ok (args.view.length < num)
    | .modseq _ _ => .error (.error ⟨.internal, "not implemented"⟩)

/-- `search_key_eval` -/
def searchKeyEval (imfParseDate : Bytes → Except Derr ImapTime) (fuel : Nat) (key : IeSearchKey)
    (args : SearchKeyArgs) : Except SearchFault Bool := doEval imfParseDate fuel args 0 key

/-! ### What is asked of the counter -/

/-- A key that is evaluated is one with a modification sequence. -/
def asksModseq (lvl : Nat) (key : IeSearchKey) : Bool :=
  if lvl > 1000 then false
  else
    match key with
    | .modseq _ _ => true
    | .not key => asksModseq (lvl + 1) key
    | .group key => asksModseq (lvl + 1) key
    | .pair _ a b => asksModseq (lvl + 1) a || asksModseq (lvl + 1) b
    | _ => false

/-- The message has what a key with a string searches. -/
def searches (args : SearchKeyArgs) : IeSearchDstr → Bool
  | .subject => (findHeader args (ascii "Subject")).isSome
  | .bcc => (findHeader args (ascii "Bcc")).isSome
  | .cc => (findHeader args (ascii "Cc")).isSome
  | .from => (findHeader args (ascii "From")).isSome
  | .to => (findHeader args (ascii "To")).isSome
  | .body => args.getImf.isOk
  | .text => args.getHdrs.isOk
  | .keyword => false
  | .unkeyword => false

/-- A key that is evaluated asks for an empty string in something that the message has. The second
key of a pair is not evaluated after an error. -/
def asksEmpty (args : SearchKeyArgs) (lvl : Nat) (key : IeSearchKey) : Bool :=
  if lvl > 1000 then false
  else
    match key with
    | .dstr type dstr => ieDstrText dstr = [] && searches args type
    | .header name value => ieDstrText value = [] && (findHeader args (ieDstrText name)).isSome
    | .not key => asksEmpty args (lvl + 1) key
    | .group key => asksEmpty args (lvl + 1) key
    | .pair _ a b =>
      asksEmpty args (lvl + 1) a || !asksModseq (lvl + 1) a && asksEmpty args (lvl + 1) b
    | _ => false

/-- The strings that a key looks for are objects in memory. -/
def IeSearchKey.InMemory : IeSearchKey → Prop
  | .dstr _ tgt => Splintermail.InMemory (ieDstrText tgt)
  | .header _ value => Splintermail.InMemory (ieDstrText value)
  | .not key => key.InMemory
  | .group key => key.InMemory
  | .pair _ a b => a.InMemory ∧ b.InMemory
  | _ => True

section Counting

variable {text pattern : Bytes} (textSmall : InMemory text)

include textSmall

theorem icounts_nil (fuel : Nat) : icounts fuel text [] = .error .hangs := by
  have hangs : dstrIcount2 fuel text [] = .error .hangs :=
    countLoop_hangs textSmall (Nat.zero_le _) fuel 0
  unfold icounts
  rw [hangs]

theorem icounts_returns (patternSmall : InMemory pattern) (present : pattern ≠ []) :
    Returns (fun fuel => icounts fuel text pattern)
      (decide (pattern.map ichar <:+: text.map ichar)) := by
  have mapPresent : pattern.map ichar ≠ [] := fun nil => present (map_eq_nil_iff.mp nil)
  obtain ⟨enough, result⟩ := doDstrCount2_returns textSmall patternSmall ichar present
  refine ⟨enough, fun fuel more => ?_⟩
  have counted : dstrIcount2 fuel text pattern = .ok _ := result fuel more
  simp only [icounts, counted]
  exact congrArg Except.ok (decide_eq_decide.mpr (occurrences_pos mapPresent))

end Counting

theorem icounts_cases (fuel : Nat) (text pattern : Bytes) :
    icounts fuel text pattern = .error .hangs ∨ ∃ found, icounts fuel text pattern = .ok found := by
  unfold icounts
  split
  · exact .inl rfl
  · exact .inr ⟨_, rfl⟩

theorem length_dstrSub2_le (text : Bytes) (start fin : Nat) :
    (dstrSub2 text start fin).length ≤ text.length := by
  rw [dstrSub2, length_drop, length_take]
  omega

theorem InMemory.sub {text : Bytes} (small : InMemory text) (start fin : Nat) :
    InMemory (dstrSub2 text start fin) :=
  (length_dstrSub2_le text start fin).trans_lt small

theorem InMemory.off {text : Bytes} (small : InMemory text) (off : ByteOff) :
    InMemory (off.text text) := small.sub _ _

/-! ### Searches of the headers, the body and the text -/

section Searches

variable {args : SearchKeyArgs} (small : InMemory args.buf)

theorem findHeader_some {name hvalue : Bytes} (found : findHeader args name = some hvalue) :
    ∃ off : ByteOff, hvalue = off.text args.buf := by
  unfold findHeader at found
  split at found
  · cases found
  · obtain ⟨hdr, -, same⟩ := Option.map_eq_some_iff.mp found
    exact ⟨hdr.value, same.symm⟩

include small

theorem searchHeaders_hangs {name : Bytes} (found : (findHeader args name).isSome = true)
    (fuel : Nat) : searchHeaders fuel args name [] = .error .hangs := by
  obtain ⟨hvalue, found⟩ := Option.isSome_iff_exists.mp found
  obtain ⟨off, rfl⟩ := findHeader_some found
  rw [searchHeaders, found]
  exact icounts_nil (small.off off) fuel

theorem searchHeaders_returns {name value : Bytes} (valueSmall : InMemory value)
    (fine : value ≠ [] ∨ (findHeader args name).isSome = false) :
    ∃ found, Returns (fun fuel => searchHeaders fuel args name value) found := by
  unfold searchHeaders
  cases found : findHeader args name with
  | none => exact ⟨false, pure⟩
  | some hvalue =>
    obtain ⟨off, rfl⟩ := findHeader_some found
    rw [found] at fine
    have present := fine.resolve_right (Bool.noConfusion ·)
    exact ⟨_, icounts_returns (small.off off) valueSmall present⟩

theorem searchBody_hangs (parsed : args.getImf.isOk = true) (fuel : Nat) :
    searchBody fuel args [] = .error .hangs := by
  unfold searchBody
  cases got : args.getImf with
  | error fault => rw [got] at parsed; exact Bool.noConfusion parsed
  | ok imf => exact icounts_nil (small.off imf.body) fuel

variable {tgt : Bytes}

theorem searchBody_returns (tgtSmall : InMemory tgt) (fine : tgt ≠ [] ∨ args.getImf.isOk = false) :
    ∃ found, Returns (fun fuel => searchBody fuel args tgt) found := by
  unfold searchBody
  cases got : args.getImf with
  | error fault => exact ⟨false, pure⟩
  | ok imf =>
    rw [got] at fine
    have present := fine.resolve_right (Bool.noConfusion ·)
    exact ⟨_, icounts_returns (small.off imf.body) tgtSmall present⟩

theorem searchText_hangs (parsed : args.getHdrs.isOk = true) (fuel : Nat) :
    searchText fuel args [] = .error .hangs := by
  unfold searchText
  cases got : args.getHdrs with
  | error fault => rw [got] at parsed; exact Bool.noConfusion parsed
  | ok hdrs =>
    dsimp only
    rw [icounts_nil (small.off hdrs.bytes) fuel]
    rfl

/-- After the headers what is left is searched, from as far before their end as the string is
long. -/
theorem searchText_of_ok (tgtSmall : InMemory tgt) (present : tgt ≠ []) {hdrs : HdrsOff}
    (got : args.getHdrs = .ok hdrs) {imf : ImfOff} (parsed : args.getImf = .ok imf) :
    Returns (fun fuel => searchText fuel args tgt)
      (decide (tgt.map ichar <:+: (hdrs.bytes.text args.buf).map ichar) ||
        decide (tgt.map ichar <:+: (dstrSub2 (imf.bytes.text args.buf)
          (hdrs.bytes.fin - min hdrs.bytes.fin tgt.length) imf.bytes.fin).map ichar)) := by
  unfold searchText
  rw [got, parsed]
  refine (icounts_returns (small.off hdrs.bytes) tgtSmall present).bind ?_
  cases decide (tgt.map ichar <:+: (hdrs.bytes.text args.buf).map ichar) with
  | true => exact pure
  | false => exact icounts_returns ((small.off imf.bytes).sub _ _) tgtSmall present

theorem searchText_returns (tgtSmall : InMemory tgt) (fine : tgt ≠ [] ∨ args.getHdrs.isOk = false) :
    ∃ found, Returns (fun fuel => searchText fuel args tgt) found := by
  cases got : args.getHdrs with
  | error fault =>
    unfold searchText
    rw [got]
    exact ⟨false, pure⟩
  | ok hdrs =>
    rw [got] at fine
    have present := fine.resolve_right (Bool.noConfusion ·)
    cases parsed : args.getImf with
    | ok imf => exact ⟨_, searchText_of_ok small tgtSmall present got parsed⟩
    | error fault =>
      unfold searchText
      rw [got, parsed]
      refine exists_bind (icounts_returns (small.off hdrs.bytes) tgtSmall present) ?_
      cases decide (tgt.map ichar <:+: (hdrs.bytes.text args.buf).map ichar) with
      | true => exact ⟨true, pure⟩
      | false => exact ⟨false, pure⟩

end Searches

/-! ### When the evaluation ends -/

section Evaluation

variable {imfParseDate : Bytes → Except Derr ImapTime} {args : SearchKeyArgs}

section

variable (small : InMemory args.buf)

include small

theorem evalDstr_hangs {type : IeSearchDstr} (asked : searches args type = true) (fuel : Nat) :
    evalDstr fuel args [] type = .error .hangs := by
  cases type with
  | subject => exact searchHeaders_hangs small asked fuel
  | bcc => exact searchHeaders_hangs small asked fuel
  | cc => exact searchHeaders_hangs small asked fuel
  | «from» => exact searchHeaders_hangs small asked fuel
  | «to» => exact searchHeaders_hangs small asked fuel
  | body => exact searchBody_hangs small asked fuel
  | text => exact searchText_hangs small asked fuel
  | keyword => exact Bool.noConfusion asked
  | unkeyword => exact Bool.noConfusion asked

theorem evalDstr_returns {type : IeSearchDstr} {tgt : Bytes} (tgtSmall : InMemory tgt)
    (fine : tgt ≠ [] ∨ searches args type = false) :
    ∃ found, Returns (fun fuel => evalDstr fuel args tgt type) found := by
  cases type with
  | subject => exact searchHeaders_returns small tgtSmall fine
  | bcc => exact searchHeaders_returns small tgtSmall fine
  | cc => exact searchHeaders_returns small tgtSmall fine
  | «from» => exact searchHeaders_returns small tgtSmall fine
  | «to» => exact searchHeaders_returns small tgtSmall fine
  | body => exact searchBody_returns small tgtSmall fine
  | text => exact searchText_returns small tgtSmall fine
  | keyword => exact ⟨false, pure⟩
  | unkeyword => exact ⟨true, pure⟩

end

end Evaluation

/-- A run that ends with an answer or not at all. -/
def Unfailing (outcome : Except SearchFault Bool) : Prop :=
  outcome = .error .hangs ∨ ∃ found, outcome = .ok found

theorem Unfailing.bind {first : Except SearchFault Bool} {next : Bool → Except SearchFault Bool}
    (one : Unfailing first) (other : ∀ found, Unfailing (next found)) :
    Unfailing (first >>= next) := by
  obtain rfl | ⟨found, rfl⟩ := one
  · exact .inl rfl
  · exact other found

/-- What comes of an evaluation that asks for an empty string or not, and for a modification
sequence or not. -/
structure Evaluates (empty modseq : Bool) (run : Nat → Except SearchFault Bool) : Prop where
  hangs : empty = true → ∀ fuel, run fuel = .error .hangs
  unfailing : modseq = false → ∀ fuel, Unfailing (run fuel)
  fails : empty = false → modseq = true →
    Yields run (.error (.error ⟨.internal, "not implemented"⟩))
  answers : empty = false → modseq = false → ∃ found, Returns run found

namespace Evaluates

variable {empty modseq : Bool} {run : Nat → Except SearchFault Bool}

theorem answer (found : Bool) : Evaluates false false fun _ => .ok found where
  hangs := (Bool.noConfusion ·)
  unfailing _ _ := .inr ⟨found, rfl⟩
  fails _ := (Bool.noConfusion ·)
  answers _ _ := ⟨found, pure⟩

theorem notImplemented :
    Evaluates false true fun _ => .error (.error ⟨.internal, "not implemented"⟩) where
  hangs := (Bool.noConfusion ·)
  unfailing := (Bool.noConfusion ·)
  fails _ _ := Yields.const _
  answers _ := (Bool.noConfusion ·)

/-- A search for a string. -/
theorem search (hangs : empty = true → ∀ fuel, run fuel = .error .hangs)
    (unfailing : ∀ fuel, Unfailing (run fuel))
    (answers : empty = false → ∃ found, Returns run found) : Evaluates empty false run where
  hangs := hangs
  unfailing _ := unfailing
  fails _ := (Bool.noConfusion ·)
  answers missing _ := answers missing

theorem map (first : Evaluates empty modseq run) (change : Bool → Bool) :
    Evaluates empty modseq fun fuel => run fuel >>= fun found => .ok (change found) where
  hangs asked fuel := by
    rw [first.hangs asked fuel]
    rfl
  unfailing plain fuel := (first.unfailing plain fuel).bind fun _ => .inr ⟨_, rfl⟩
  fails missing asked := (first.fails missing asked).then _
  answers missing plain := by
    obtain ⟨found, returns⟩ := first.answers missing plain
    exact ⟨change found, returns.bind pure⟩

/-- Both runs are needed for the answer, and the second one is not begun after an error. -/
theorem pair {otherEmpty otherModseq : Bool} {otherRun : Nat → Except SearchFault Bool}
    (first : Evaluates empty modseq run) (second : Evaluates otherEmpty otherModseq otherRun)
    (combine : Bool → Bool → Bool) :
    Evaluates (empty || !modseq && otherEmpty) (modseq || otherModseq) fun fuel =>
      run fuel >>= fun one => otherRun fuel >>= fun other => .ok (combine one other) where
  hangs asked fuel := by
    by_cases here : empty = true
    · rw [first.hangs here fuel]
      rfl
    · rw [Bool.not_eq_true] at here
      rw [here, Bool.false_or, Bool.and_eq_true, Bool.not_eq_true'] at asked
      obtain hang | ⟨found, answer⟩ := first.unfailing asked.1 fuel
      · rw [hang]
        rfl
      · rw [answer]
        show (otherRun fuel >>= _) = _
        rw [second.hangs asked.2 fuel]
        rfl
  unfailing plain fuel := by
    rw [Bool.or_eq_false_iff] at plain
    exact (first.unfailing plain.1 fuel).bind fun _ =>
      (second.unfailing plain.2 fuel).bind fun _ => .inr ⟨_, rfl⟩
  fails missing asked := by
    rw [Bool.or_eq_false_iff] at missing
    cases modseq with
    | true => exact (first.fails missing.1 rfl).fault _
    | false =>
      rw [Bool.false_or] at asked
      obtain ⟨found, returns⟩ := first.answers missing.1 rfl
      exact returns.yields ((second.fails missing.2 asked).then _)
  answers missing plain := by
    rw [Bool.or_eq_false_iff] at missing plain
    obtain ⟨plain, otherPlain⟩ := plain
    rw [plain, Bool.not_false, Bool.true_and] at missing
    obtain ⟨one, returns⟩ := first.answers missing.1 plain
    obtain ⟨other, otherReturns⟩ := second.answers missing.2 otherPlain
    exact ⟨combine one other, returns.bind (otherReturns.bind pure)⟩

end Evaluates

theorem searchHeaders_unfailing (fuel : Nat) (args : SearchKeyArgs) (name value : Bytes) :
    Unfailing (searchHeaders fuel args name value) := by
  unfold searchHeaders
  split
  · exact .inr ⟨false, rfl⟩
  · exact icounts_cases fuel _ value

theorem evalDstr_unfailing (fuel : Nat) (args : SearchKeyArgs) (tgt : Bytes) (type : IeSearchDstr) :
    Unfailing (evalDstr fuel args tgt type) := by
  cases type with
  | subject => exact searchHeaders_unfailing fuel args _ tgt
  | bcc => exact searchHeaders_unfailing fuel args _ tgt
  | cc => exact searchHeaders_unfailing fuel args _ tgt
  | «from» => exact searchHeaders_unfailing fuel args _ tgt
  | «to» => exact searchHeaders_unfailing fuel args _ tgt
  | body =>
    rw [evalDstr, searchBody]
    split
    · exact .inr ⟨false, rfl⟩
    · exact icounts_cases fuel _ tgt
  | text =>
    rw [evalDstr, searchText]
    split
    · exact .inr ⟨false, rfl⟩
    · refine Unfailing.bind (icounts_cases fuel _ tgt) fun found => ?_
      cases found with
      | true => exact .inr ⟨true, rfl⟩
      | false =>
        cases args.getImf with
        | error fault => exact .inr ⟨false, rfl⟩
        | ok imf => exact icounts_cases fuel _ tgt
  | keyword => exact .inr ⟨false, rfl⟩
  | unkeyword => exact .inr ⟨true, rfl⟩

theorem eq_nil_of_asked {tgt : Bytes} {searched : Bool} (asked : (tgt = [] && searched) = true) :
    tgt = [] ∧ searched = true := by
  rwa [Bool.and_eq_true, decide_eq_true_eq] at asked

theorem ne_nil_of_not_asked {tgt : Bytes} {searched : Bool}
    (missing : (tgt = [] && searched) = false) : tgt ≠ [] ∨ searched = false := by
  rwa [Bool.and_eq_false_iff, decide_eq_false_iff_not] at missing

section

variable (imfParseDate : Bytes → Except Derr ImapTime) {args : SearchKeyArgs}

/-- What is nested too deep is not evaluated. -/
theorem evaluates_of_shallow {lvl : Nat} {key : IeSearchKey}
    (evaluates : ¬ lvl > 1000 → Evaluates (asksEmpty args lvl key) (asksModseq lvl key)
      fun fuel => doEval imfParseDate fuel args lvl key) :
    Evaluates (asksEmpty args lvl key) (asksModseq lvl key)
      fun fuel => doEval imfParseDate fuel args lvl key := by
  by_cases deep : lvl > 1000
  · have unasked : asksEmpty args lvl key = false := by cases key <;> exact if_pos deep
    have plain : asksModseq lvl key = false := by cases key <;> exact if_pos deep
    have answer : ∀ fuel, doEval imfParseDate fuel args lvl key = .ok false := fun fuel => by
      unfold doEval
      exact if_pos deep
    simp only [unasked, plain, answer]
    exact Evaluates.answer false
  · exact evaluates deep

/-- Every evaluation goes as its key asks. -/
theorem doEval_evaluates (small : InMemory args.buf) (lvl : Nat) {key : IeSearchKey}
    (keySmall : key.InMemory) :
    Evaluates (asksEmpty args lvl key) (asksModseq lvl key)
      fun fuel => doEval imfParseDate fuel args lvl key := by
  refine evaluates_of_shallow imfParseDate fun deep => ?_
  induction key generalizing lvl with
  | zero type =>
    unfold asksEmpty asksModseq doEval
    simp only [if_neg deep]
    exact Evaluates.answer _
  | date type date =>
    unfold asksEmpty asksModseq doEval
    simp only [if_neg deep]
    exact Evaluates.answer _
  | num type num =>
    unfold asksEmpty asksModseq doEval
    simp only [if_neg deep]
    cases type <;> exact Evaluates.answer _
  | seqSet type seqSet =>
    unfold asksEmpty asksModseq doEval
    simp only [if_neg deep]
    cases type <;> exact Evaluates.answer _
  | modseq ext modseq =>
    unfold asksEmpty asksModseq doEval
    simp only [if_neg deep]
    exact Evaluates.notImplemented
  | dstr type dstr =>
    unfold asksEmpty asksModseq doEval
    simp only [if_neg deep]
    refine Evaluates.search (fun asked fuel => ?_) (fun fuel => evalDstr_unfailing fuel args _ type)
      fun missing => evalDstr_returns small keySmall (ne_nil_of_not_asked missing)
    obtain ⟨nil, searched⟩ := eq_nil_of_asked asked
    rw [nil]
    exact evalDstr_hangs small searched fuel
  | header name value =>
    unfold asksEmpty asksModseq doEval
    simp only [if_neg deep]
    refine Evaluates.search (fun asked fuel => ?_)
      (fun fuel => searchHeaders_unfailing fuel args _ _)
      fun missing => searchHeaders_returns small keySmall (ne_nil_of_not_asked missing)
    obtain ⟨nil, found⟩ := eq_nil_of_asked asked
    rw [nil]
    exact searchHeaders_hangs small found fuel
  | not key ih =>
    unfold asksEmpty asksModseq doEval
    simp only [if_neg deep]
    have inner := evaluates_of_shallow imfParseDate fun shallow =>
      ih (lvl + 1) keySmall shallow
    exact inner.map Bool.not
  | group key ih =>
    unfold asksEmpty asksModseq doEval
    simp only [if_neg deep]
    exact evaluates_of_shallow imfParseDate fun shallow =>
      ih (lvl + 1) keySmall shallow
  | pair type a b first second =>
    have empty : asksEmpty args lvl (.pair type a b) = (asksEmpty args (lvl + 1) a ||
      !asksModseq (lvl + 1) a && asksEmpty args (lvl + 1) b) := if_neg deep
    have modseq : asksModseq lvl (.pair type a b) =
      (asksModseq (lvl + 1) a || asksModseq (lvl + 1) b) := if_neg deep
    rw [empty, modseq]
    unfold doEval
    simp only [if_neg deep]
    have one := evaluates_of_shallow imfParseDate fun shallow => first (lvl + 1) keySmall.1 shallow
    have other := evaluates_of_shallow imfParseDate fun shallow =>
      second (lvl + 1) keySmall.2 shallow
    cases type with
    | or => exact one.pair other Bool.or
    | and => exact one.pair other Bool.and

end

/-- A message with one header, and what its parsers find. -/
def helloArgs : SearchKeyArgs where
  view := ⟨.up 1, 1, 17, {}, {}⟩
  seq := 1
  seqMax := 1
  uidDnMax := 1
  buf := ascii "Subject: hi\n\nyou"
  getHdrs := .ok ⟨⟨0, 13⟩, ⟨12, 1⟩, [⟨⟨0, 12⟩, ⟨0, 7⟩, ⟨8, 3⟩⟩]⟩
  getImf := .ok ⟨⟨0, 16⟩, ⟨⟨0, 13⟩, ⟨12, 1⟩, [⟨⟨0, 12⟩, ⟨0, 7⟩, ⟨8, 3⟩⟩]⟩, ⟨13, 3⟩⟩

/-- The evaluation of a key returns if and only if the key does not ask for an empty string in
something that the message has; and the counter of substrings, if it is not to exit at the first
match, returns if and only if the pattern is not empty, and then with the number of occurrences. -/
theorem doEval_returns_iff (imfParseDate : Bytes → Except Derr ImapTime) {args : SearchKeyArgs}
    (small : InMemory args.buf) (lvl : Nat) {key : IeSearchKey} (keySmall : key.InMemory) :
    ((∃ outcome, outcome ≠ .error .hangs ∧
        Yields (fun fuel => doEval imfParseDate fuel args lvl key) outcome) ↔
      asksEmpty args lvl key = false) ∧
    ∀ (text pattern : Bytes) (charFn : UInt8 → UInt8), InMemory text → InMemory pattern →
      (∀ exitfirst, (∃ count, Returns (fun fuel => doDstrCount2 fuel text pattern charFn exitfirst)
        count) ↔ exitfirst = true ∨ pattern ≠ []) ∧
      (Returns (fun fuel => doDstrCount2 fuel text pattern charFn false)
        (occurrences (pattern.map charFn) (text.map charFn)) ↔ pattern ≠ []) := by
  have evaluates := doEval_evaluates imfParseDate small lvl keySmall
  refine ⟨⟨?_, fun missing => ?_⟩, fun text pattern charFn textSmall patternSmall => ?_⟩
  · rintro ⟨outcome, ends, enough, result⟩
    rw [← Bool.not_eq_true]
    intro asked
    exact ends ((result enough (le_rfl)).symm.trans (evaluates.hangs asked enough))
  · cases asked : asksModseq lvl key with
    | true =>
      refine ⟨_, ?_, evaluates.fails missing asked⟩
      exact nofun
    | false =>
      obtain ⟨found, returns⟩ := evaluates.answers missing asked
      exact ⟨.ok found, nofun, returns⟩
  · have terminates := doDstrCount2_returns_iff textSmall patternSmall charFn
    refine ⟨terminates, fun returns => ?_, doDstrCount2_returns textSmall patternSmall charFn⟩
    exact ((terminates false).mp ⟨_, returns⟩).resolve_left Bool.false_ne_true

/-- With some fuel the key is found. -/
theorem doEval_returns_iff_subject :
    ((∃ outcome, outcome ≠ .error .hangs ∧
        Yields (fun fuel => doEval (fun _ => .ok {}) fuel helloArgs 0 (.dstr .subject [ascii "HI"]))
          outcome) ↔
      asksEmpty helloArgs 0 (.dstr .subject [ascii "HI"]) = false) ∧
    ∀ (text pattern : Bytes) (charFn : UInt8 → UInt8), InMemory text → InMemory pattern →
      (∀ exitfirst, (∃ count, Returns (fun fuel => doDstrCount2 fuel text pattern charFn exitfirst)
        count) ↔ exitfirst = true ∨ pattern ≠ []) ∧
      (Returns (fun fuel => doDstrCount2 fuel text pattern charFn false)
        (occurrences (pattern.map charFn) (text.map charFn)) ↔ pattern ≠ []) :=
  doEval_returns_iff (fun _ => .ok {}) (by decide) 0 (by show InMemory _; decide)

/-- To ask for an empty string in the subject is not answered. -/
theorem doEval_empty_subject :
    ¬ ∀ (imfParseDate : Bytes → Except Derr ImapTime) (args : SearchKeyArgs) (lvl : Nat)
      (key : IeSearchKey), InMemory args.buf → key.InMemory →
        ∃ outcome, outcome ≠ .error .hangs ∧
          Yields (fun fuel => doEval imfParseDate fuel args lvl key) outcome := by
  intro always
  obtain ⟨outcome, ends, enough, result⟩ := always (fun _ => .ok {}) helloArgs 0
    (.header [ascii "Subject"] [[]]) (by decide) (show InMemory _ by decide)
  have hangs : doEval (fun _ => .ok {}) enough helloArgs 0 (.header [ascii "Subject"] [[]]) =
      .error .hangs :=
    (doEval_evaluates _ (by decide) 0 (by show InMemory _; decide)).hangs (by decide) enough
  exact ends ((result enough (le_rfl)).symm.trans hangs)

/-- A search of a text finds a string that is there, whatever the case of the letters, also where it
begins in the headers and ends in the body. -/
theorem doEval_text (imfParseDate : Bytes → Except Derr ImapTime) {args : SearchKeyArgs}
    (small : InMemory args.buf) {lvl : Nat} (evaluated : lvl ≤ 1000) {hdrs : HdrsOff}
    (gotHdrs : args.getHdrs = .ok hdrs) {imf : ImfOff} (gotImf : args.getImf = .ok imf)
    (front : hdrs.bytes.start = 0) (parsed : imfParseOff args.buf (some hdrs) = some imf)
    {tgt : Bytes} (tgtSmall : InMemory tgt) (present : tgt ≠ []) :
    Returns (fun fuel => doEval imfParseDate fuel args lvl (.dstr .text [tgt]))
      (decide (tgt.map ichar <:+: args.buf.map ichar)) := by
  have shallow : ¬ lvl > 1000 := Nat.not_lt.mpr evaluated
  have searched : ∀ fuel, doEval imfParseDate fuel args lvl (.dstr .text [tgt]) =
      searchText fuel args tgt := fun fuel => if_neg shallow
  simp only [searched]
  have returns := searchText_of_ok small tgtSmall present gotHdrs gotImf
  have whole : imf.bytes = ⟨0, args.buf.length⟩ := by
    rw [imfParseOff, doImfParse] at parsed
    cases parsed
    show (⟨hdrs.bytes.start, args.buf.length⟩ : ByteOff) = _
    rw [front]
  have headers : hdrs.bytes.text args.buf = args.buf.take hdrs.bytes.fin := by
    rw [ByteOff.text, dstrSub2, front, drop_zero, ByteOff.fin, front]
  have message : imf.bytes.text args.buf = args.buf := by
    rw [whole, ByteOff.text, dstrSub2, drop_zero, Nat.zero_add, take_length]
  have left : dstrSub2 args.buf (hdrs.bytes.fin - min hdrs.bytes.fin tgt.length) imf.bytes.fin =
      args.buf.drop (hdrs.bytes.fin - min hdrs.bytes.fin tgt.length) := by
    rw [dstrSub2, whole]
    show (args.buf.take (0 + args.buf.length)).drop _ = _
    rw [Nat.zero_add, take_length]
  have split : tgt.map ichar <:+: args.buf.map ichar ↔ _ := infix_iff_split hdrs.bytes.fin
  rw [length_map, ← map_take, ← map_drop] at split
  rw [headers, message, left, ← Bool.decide_or] at returns
  rwa [decide_eq_decide.mpr split]

/-- A string is found across the end of the headers. -/
theorem doEval_text_across :
    Returns
      (fun fuel => doEval (fun _ => .ok {}) fuel helloArgs 0 (.dstr .text [ascii "\nYOU"])) true :=
  doEval_text (fun _ => .ok {}) (by decide) (Nat.zero_le _) rfl rfl rfl rfl (by decide) (by decide)

end Splintermail
