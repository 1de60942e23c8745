/-
This file says what reading a log yields, as a function of the list of its
entries: the last value of every message key, the last of the numbers, and the
largest of the explicit modification sequences.

The reader keeps its trees up to date line by line, so the proof is a step lemma
for one entry and an induction over the entries. It needs the log to be valid: a
message has a modification sequence exactly in the filled state, and a
modification sequence belongs to one key only.
-/

import Mathlib.Data.List.Induction
import Splintermail.Imaildir.LogFile

namespace Splintermail

open List LogState LogEntry Splintermail.Tree

/-! ### The meaning of a list of entries -/

/-- The value that an entry gives to a message key, if any. -/
def LogEntry.valueAt (key : MsgKey) : LogEntry → Option LogValue
  | .value content => if content.key = key then some content else none
  | _ => none

/-- The last value of a message key. -/
def lastValue (entries : List LogEntry) (key : MsgKey) : Option LogValue :=
  entries.foldl (fun last entry => (entry.valueAt key).or last) none

/-- The last pair of validities. -/
def lastUidvlds (entries : List LogEntry) : Nat × Nat :=
  entries.foldl (fun last entry => match entry with | .uidvlds up dn => (up, dn) | _ => last) (0, 0)

/-- The last modification sequence synced from above. -/
def lastHimodseqUp (entries : List LogEntry) : Nat :=
  entries.foldl (fun last entry => match entry with | .himodseqUp himodseq => himodseq | _ => last) 0

/-- The largest explicit modification sequence. -/
def maxModseqDn (entries : List LogEntry) : Nat :=
  entries.foldl (fun last entry => match entry with | .modseqDn modseq => max last modseq | _ => last)
    1

section Snoc

variable (entries : List LogEntry) (entry : LogEntry)

theorem lastValue_snoc (key : MsgKey) :
    lastValue (entries ++ [entry]) key = (entry.valueAt key).or (lastValue entries key) := by
  unfold lastValue
  rw [foldl_append]
  rfl

theorem lastUidvlds_snoc : lastUidvlds (entries ++ [entry]) =
    match entry with | .uidvlds up dn => (up, dn) | _ => lastUidvlds entries := by
  unfold lastUidvlds
  rw [foldl_append]
  rfl

theorem lastHimodseqUp_snoc : lastHimodseqUp (entries ++ [entry]) =
    match entry with | .himodseqUp himodseq => himodseq | _ => lastHimodseqUp entries := by
  unfold lastHimodseqUp
  rw [foldl_append]
  rfl

theorem maxModseqDn_snoc : maxModseqDn (entries ++ [entry]) = match entry with
    | .modseqDn modseq => max (maxModseqDn entries) modseq
    | _ => maxModseqDn entries := by
  unfold maxModseqDn
  rw [foldl_append]
  rfl

end Snoc

variable {content : LogValue} {entry : LogEntry}

theorem LogEntry.valueAt_eq_some {key : MsgKey} :
    entry.valueAt key = some content ↔ entry = .value content ∧ content.key = key := by
  cases entry with
  | uidvlds up dn => simp [valueAt]
  | himodseqUp himodseq => simp [valueAt]
  | modseqDn modseq => simp [valueAt]
  | value other =>
    by_cases same : other.key = key
    · simp only [valueAt, same, if_true, Option.some.injEq, value.injEq]
      exact ⟨fun equal => ⟨equal, equal ▸ same⟩, And.left⟩
    · simp only [valueAt, same, if_false, value.injEq]
      constructor
      · rintro ⟨⟩
      · rintro ⟨rfl, equal⟩
        exact absurd equal same

variable {entries : List LogEntry}

theorem lastValue_mem {key : MsgKey} (last : lastValue entries key = some content) :
    value content ∈ entries ∧ content.key = key := by
  induction entries using reverseRecOn with
  | nil => cases last
  | append_singleton front entry ih =>
    rw [lastValue_snoc, Option.or_eq_some_iff] at last
    rcases last with here | ⟨-, before⟩
    · obtain ⟨rfl, same⟩ := valueAt_eq_some.mp here
      exact ⟨mem_append_right _ (mem_singleton_self _), same⟩
    · obtain ⟨mem, same⟩ := ih before
      exact ⟨mem_append_left _ mem, same⟩

theorem lastValue_isSome (mem : value content ∈ entries) :
    ∃ last, lastValue entries content.key = some last := by
  induction entries using reverseRecOn with
  | nil => cases mem
  | append_singleton front entry ih =>
    rw [lastValue_snoc]
    cases here : entry.valueAt content.key with
    | some value => exact ⟨value, rfl⟩
    | none =>
      rcases mem_append.mp mem with before | now
      · exact ih before
      · rw [mem_singleton] at now
        rw [← now, valueAt, if_pos rfl] at here
        cases here

/-! ### Valid logs -/

/-- The values that the `imaildir_t` writes. A filled message has both numbers and another one
none; an expunge has both numbers or none, and is pushed if it has none. -/
def LogValue.Valid : LogValue → Prop
  | .message msg =>
    (msg.modseq ≠ 0 ↔ msg.state = .filled) ∧ (msg.uidDn ≠ 0 ↔ msg.state = .filled)
  | .expunge record =>
    (record.modseq = 0 ↔ record.uidDn = 0) ∧ (record.uidDn = 0 → record.state = .pushed)

theorem LogValue.Valid.modseq_eq_zero {value : LogValue} (valid : value.Valid) :
    value.modseq = 0 ↔ value.uidDn = 0 := by
  cases value with
  | message msg => exact not_iff_not.mp (valid.1.trans valid.2.symm)
  | expunge record => exact valid.1

/-- Valid values, and no modification sequence that is used for two keys. -/
structure ValidLog (entries : List LogEntry) : Prop where
  valid : ∀ content, value content ∈ entries → content.Valid
  modseq : ∀ first second, value first ∈ entries → value second ∈ entries →
    first.modseq ≠ 0 → first.modseq = second.modseq → first.key = second.key

theorem ValidLog.subset {part : List LogEntry} (valid : ValidLog entries)
    (subset : part ⊆ entries) : ValidLog part where
  valid content mem := valid.valid content (subset mem)
  modseq first second firstMem secondMem :=
    valid.modseq first second (subset firstMem) (subset secondMem)

/-! ### Reading an entry -/

/-- An expunge that the reader ignores. -/
def Expunge.Ignored (expunge : Expunge) : Prop := expunge.uidDn = 0 ∧ expunge.modseq = 0

instance (expunge : Expunge) : Decidable expunge.Ignored := inferInstanceAs (Decidable (_ ∧ _))

/-- The trees hold the last values of the entries. -/
structure Trees.Hold (trees : Trees) (entries : List LogEntry) : Prop where
  indexed : trees.Indexed
  mem_msgs : ∀ msg, msg ∈ trees.msgs ↔ lastValue entries msg.key = some (.message msg)
  mem_expunged : ∀ expunge, expunge ∈ trees.expunged ↔
    lastValue entries expunge.key = some (.expunge expunge) ∧ ¬expunge.Ignored

/-- What the reader has after some entries. -/
structure LogState.Describes (state : LogState) (entries : List LogEntry) : Prop where
  trees : state.toTrees.Hold entries
  uidvldUp : state.uidvldUp = (lastUidvlds entries).1
  uidvldDn : state.uidvldDn = (lastUidvlds entries).2
  himodseqUp : state.himodseqUp = lastHimodseqUp entries
  himodseqDn : state.himodseqDn = maxModseqDn entries

/-- The numbers of the reader, which a value does not change. -/
structure LogState.SameNumbers (first second : LogState) : Prop where
  uidvldUp : first.uidvldUp = second.uidvldUp
  uidvldDn : first.uidvldDn = second.uidvldDn
  himodseqUp : first.himodseqUp = second.himodseqUp
  himodseqDn : first.himodseqDn = second.himodseqDn

variable {state : LogState}

/-- Dropping a key removes the message or expunge with the key, and nothing else. -/
theorem LogState.dropKey_spec (holds : state.toTrees.Hold entries) (key : MsgKey) :
    (state.dropKey key).toTrees.Indexed ∧
      (∀ msg, msg ∈ (state.dropKey key).msgs ↔ msg ∈ state.msgs ∧ msg.key ≠ key) ∧
      (∀ expunge, expunge ∈ (state.dropKey key).expunged ↔
        expunge ∈ state.expunged ∧ expunge.key ≠ key) ∧
      (state.dropKey key).SameNumbers state := by
  have indexed := holds.indexed
  unfold dropKey
  cases foundMsg : find Msg.key key state.msgs with
  | some msg =>
    have mem := find_mem foundMsg
    have sameKey := find_key foundMsg
    subst sameKey
    -- the last value of the key is a message, so no expunge has it
    refine ⟨indexed.eraseMsg mem, fun other => indexed.msgsSorted.mem_erase,
      fun expunge => ⟨fun expungeMem => ⟨expungeMem, fun same => ?_⟩, And.left⟩, rfl, rfl, rfl, rfl⟩
    have lastMsg := (holds.mem_msgs msg).mp mem
    have lastExpunge := ((holds.mem_expunged expunge).mp expungeMem).1
    rw [same, lastMsg] at lastExpunge
    cases lastExpunge
  | none =>
    have noMsg := find_eq_none.mp foundMsg
    cases foundExpunge : find Expunge.key key state.expunged with
    | some expunge =>
      have mem := find_mem foundExpunge
      have sameKey := find_key foundExpunge
      subst sameKey
      simp only
      rw [Trees.erase_eq_eraseMod fun _ => indexed.modseq_ne_zero]
      exact ⟨indexed.eraseExpunge mem,
        fun msg => ⟨fun msgMem => ⟨msgMem, noMsg msg msgMem⟩, And.left⟩,
        fun other => indexed.expungedSorted.mem_erase, rfl, rfl, rfl, rfl⟩
    | none =>
      have noExpunge := find_eq_none.mp foundExpunge
      exact ⟨indexed, fun msg => ⟨fun msgMem => ⟨msgMem, noMsg msg msgMem⟩, And.left⟩,
        fun expunge => ⟨fun expungeMem => ⟨expungeMem, noExpunge expunge expungeMem⟩, And.left⟩,
        rfl, rfl, rfl, rfl⟩

theorem lastValue_snoc_value (entries : List LogEntry) (content : LogValue) (key : MsgKey) :
    lastValue (entries ++ [.value content]) key =
      if content.key = key then some content else lastValue entries key := by
  rw [lastValue_snoc, valueAt]
  split
  · rfl
  · rfl

/-- Submitting a valid value over trees without its key. -/
theorem LogState.submit_spec (valid : content.Valid) (indexed : state.toTrees.Indexed)
    (noMsg : ∀ msg ∈ state.msgs, msg.key ≠ content.key)
    (noExpunge : ∀ expunge ∈ state.expunged, expunge.key ≠ content.key)
    (fresh : content.modseq ≠ 0 → ∀ mod ∈ state.mods, mod.modseq ≠ content.modseq) :
    ∃ next, state.submit content = .ok next ∧ next.toTrees.Indexed ∧
      (∀ msg, msg ∈ next.msgs ↔ msg ∈ state.msgs ∨ content = .message msg) ∧
      (∀ expunge, expunge ∈ next.expunged ↔
        expunge ∈ state.expunged ∨ (content = .expunge expunge ∧ ¬expunge.Ignored)) ∧
      next.SameNumbers state := by
  cases content with
  | message msg =>
    have modseqState : (msg.modseq ≠ 0 ↔ msg.state = .filled) := valid.1
    have accepted : state.submit (.message msg) = .ok { state with
        msgs := insert Msg.key msg state.msgs
        mods := Trees.insertMod msg.mod state.mods } := by
      unfold submit
      simp only
      rw [if_neg (fun both => both.2 (modseqState.mp both.1)),
        if_neg (fun both => modseqState.mpr both.2 both.1)]
    refine ⟨_, accepted, indexed.insertMsg noMsg fresh, ?_, ?_, rfl, rfl, rfl, rfl⟩
    · intro other
      rw [mem_insert, LogValue.message.injEq, or_comm, eq_comm (a := other)]
    · intro expunge
      exact ⟨.inl, fun either => either.resolve_right fun both => by cases both.1⟩
  | expunge expunge =>
    by_cases ignored : expunge.Ignored
    · refine ⟨_, if_pos ignored, indexed, ?_, ?_, rfl, rfl, rfl, rfl⟩
      · intro msg
        exact ⟨.inl, fun either => either.resolve_right fun equal => by cases equal⟩
      · intro other
        refine ⟨.inl, fun either => either.resolve_right ?_⟩
        rintro ⟨equal, kept⟩
        cases equal
        exact kept ignored
    · refine ⟨_, if_neg ignored, indexed.insertExpunge noExpunge fresh, ?_, ?_, rfl, rfl, rfl, rfl⟩
      · intro msg
        exact ⟨.inl, fun either => either.resolve_right fun equal => by cases equal⟩
      · intro other
        rw [mem_insert, LogValue.expunge.injEq, or_comm, eq_comm (a := other)]
        refine or_congr_right ⟨fun equal => ⟨equal, equal ▸ ignored⟩, And.left⟩

/-- Reading the value of a key replaces what the trees held for it. -/
theorem LogState.readOneValue_spec (state : LogState) (holds : state.toTrees.Hold entries)
    (valid : ValidLog (entries ++ [.value content])) :
    ∃ next, state.readOneValue content = .ok next ∧
      next.toTrees.Hold (entries ++ [.value content]) ∧ next.SameNumbers state := by
  obtain ⟨dropIndexed, dropMsgs, dropExpunged, dropNumbers⟩ :=
    dropKey_spec holds content.key
  have here : value content ∈ entries ++ [.value content] :=
    mem_append_right _ (mem_singleton_self _)
  have freshOf : ∀ other : LogValue, lastValue entries other.key = some other →
      other.key ≠ content.key → content.modseq ≠ 0 → other.modseq ≠ content.modseq := by
    intro other last otherKey nonzero same
    have mem := mem_append_left [.value content] (lastValue_mem last).1
    exact otherKey (valid.modseq content other here mem nonzero same.symm).symm
  obtain ⟨next, submitted, nextIndexed, nextMsgs, nextExpunged, nextNumbers⟩ :=
    submit_spec (valid.valid content here) dropIndexed (fun msg mem => ((dropMsgs msg).mp mem).2)
      (fun expunge mem => ((dropExpunged expunge).mp mem).2) (fun nonzero mod mem => by
        rcases (dropIndexed.mem_mods mod).mp mem with
          ⟨msg, msgMem, -, rfl⟩ | ⟨expunge, expungeMem, -, rfl⟩
        · obtain ⟨msgMem, msgKey⟩ := (dropMsgs msg).mp msgMem
          exact freshOf (.message msg) ((holds.mem_msgs msg).mp msgMem) msgKey nonzero
        · obtain ⟨expungeMem, expungeKey⟩ := (dropExpunged expunge).mp expungeMem
          exact freshOf (.expunge expunge) ((holds.mem_expunged expunge).mp expungeMem).1 expungeKey
            nonzero)
  refine ⟨next, submitted, ⟨nextIndexed, fun msg => ?_, fun expunge => ?_⟩, ?_⟩
  · rw [nextMsgs, dropMsgs, holds.mem_msgs, lastValue_snoc_value]
    by_cases same : content.key = msg.key
    · rw [if_pos same, Option.some.injEq]
      exact ⟨fun either => either.resolve_left fun both => both.2 same.symm, .inr⟩
    · rw [if_neg same]
      refine ⟨fun either => ?_, fun last => .inl ⟨last, Ne.symm same⟩⟩
      rcases either with both | equal
      · exact both.1
      · exact absurd (congrArg LogValue.key equal) same
  · rw [nextExpunged, dropExpunged, holds.mem_expunged, lastValue_snoc_value]
    by_cases same : content.key = expunge.key
    · rw [if_pos same, Option.some.injEq]
      exact ⟨fun either => either.resolve_left fun both => both.2 same.symm, .inr⟩
    · rw [if_neg same]
      refine ⟨fun either => ?_, fun last => .inl ⟨last, Ne.symm same⟩⟩
      rcases either with both | equal
      · exact both.1
      · exact absurd (congrArg LogValue.key equal.1) same
  · exact ⟨nextNumbers.uidvldUp.trans dropNumbers.uidvldUp,
      nextNumbers.uidvldDn.trans dropNumbers.uidvldDn,
      nextNumbers.himodseqUp.trans dropNumbers.himodseqUp,
      nextNumbers.himodseqDn.trans dropNumbers.himodseqDn⟩

theorem Trees.Hold.snoc {trees : Trees} (holds : trees.Hold entries)
    (noValue : ∀ key, entry.valueAt key = none) : trees.Hold (entries ++ [entry]) where
  indexed := holds.indexed
  mem_msgs msg := by
    rw [lastValue_snoc, noValue, Option.none_or]
    exact holds.mem_msgs msg
  mem_expunged expunge := by
    rw [lastValue_snoc, noValue, Option.none_or]
    exact holds.mem_expunged expunge

theorem LogState.readEntry_spec (describes : state.Describes entries)
    (valid : ValidLog (entries ++ [entry])) :
    ∃ next, state.readEntry entry = .ok next ∧ next.Describes (entries ++ [entry]) := by
  obtain ⟨trees, uidvldUp, uidvldDn, himodseqUp, himodseqDn⟩ := describes
  cases entry with
  | uidvlds up dn =>
    refine ⟨_, rfl, trees.snoc fun _ => rfl, ?_, ?_, ?_, ?_⟩
    · rw [lastUidvlds_snoc]
    · rw [lastUidvlds_snoc]
    · rw [lastHimodseqUp_snoc, ← himodseqUp]
    · rw [maxModseqDn_snoc, ← himodseqDn]
  | himodseqUp himodseq =>
    refine ⟨_, rfl, trees.snoc fun _ => rfl, ?_, ?_, ?_, ?_⟩
    · rw [lastUidvlds_snoc, ← uidvldUp]
    · rw [lastUidvlds_snoc, ← uidvldDn]
    · rw [lastHimodseqUp_snoc]
    · rw [maxModseqDn_snoc, ← himodseqDn]
  | modseqDn modseq =>
    refine ⟨_, rfl, trees.snoc fun _ => rfl, ?_, ?_, ?_, ?_⟩
    · rw [lastUidvlds_snoc, ← uidvldUp]
    · rw [lastUidvlds_snoc, ← uidvldDn]
    · rw [lastHimodseqUp_snoc, ← himodseqUp]
    · rw [maxModseqDn_snoc, ← himodseqDn]
  | value content =>
    have counted : SameNumbers { state with lines := state.lines + 1 } state :=
      ⟨rfl, rfl, rfl, rfl⟩
    obtain ⟨next, read, holds, numbers⟩ :=
      readOneValue_spec { state with lines := state.lines + 1 } trees valid
    refine ⟨next, read, holds, ?_, ?_, ?_, ?_⟩
    · rw [lastUidvlds_snoc, numbers.uidvldUp, counted.uidvldUp, ← uidvldUp]
    · rw [lastUidvlds_snoc, numbers.uidvldDn, counted.uidvldDn, ← uidvldDn]
    · rw [lastHimodseqUp_snoc, numbers.himodseqUp, counted.himodseqUp, ← himodseqUp]
    · rw [maxModseqDn_snoc, numbers.himodseqDn, counted.himodseqDn, ← himodseqDn]

/-! ### Reading a log -/

theorem readEntries_spec {front : List LogEntry} (describes : state.Describes front)
    (valid : ValidLog (front ++ entries)) :
    ∃ final, readEntries state entries = .ok final ∧ final.Describes (front ++ entries) := by
  induction entries generalizing state front with
  | nil =>
    rw [append_nil]
    exact ⟨state, rfl, describes⟩
  | cons entry rest ih =>
    rw [show front ++ entry :: rest = (front ++ [entry]) ++ rest by simp] at valid ⊢
    obtain ⟨next, read, nextDescribes⟩ := readEntry_spec describes
      (valid.subset (subset_append_left _ _))
    obtain ⟨final, readRest, finalDescribes⟩ := ih nextDescribes valid
    refine ⟨final, ?_, finalDescribes⟩
    rw [readEntries, read]
    exact readRest

theorem LogState.describes_nil : Describes {} [] where
  trees := ⟨Trees.Indexed.empty, fun _ => ⟨fun mem => absurd mem not_mem_nil, nofun⟩,
    fun _ => ⟨fun mem => absurd mem not_mem_nil, fun both => nomatch both.1⟩⟩
  uidvldUp := rfl
  uidvldDn := rfl
  himodseqUp := rfl
  himodseqDn := rfl

theorem readEntries_describes (valid : ValidLog entries) :
    ∃ state, readEntries {} entries = .ok state ∧ state.Describes entries :=
  readEntries_spec describes_nil valid

theorem modseq_le_getLast {mods : List Mod} (sorted : Sorted Mod.modseq mods) {mod : Mod}
    (mem : mod ∈ mods) : ∃ last, mods.getLast? = some last ∧ mod.modseq ≤ last.modseq := by
  induction mods using reverseRecOn with
  | nil => cases mem
  | append_singleton front last ih =>
    refine ⟨last, getLast?_concat, ?_⟩
    rcases mem_append.mp mem with before | here
    · exact le_of_lt ((pairwise_append.mp sorted).2.2 mod before last (mem_singleton_self _))
    · rw [mem_singleton.mp here]

theorem LogState.finish_himodseqDn (indexed : state.toTrees.Indexed) :
    state.himodseqDn ≤ state.finish.himodseqDn ∧
      ∀ mod ∈ state.mods, mod.modseq ≤ state.finish.himodseqDn := by
  unfold finish
  cases last : state.mods.getLast? with
  | none =>
    refine ⟨le_rfl, fun mod mem => ?_⟩
    rw [getLast?_eq_none_iff.mp last] at mem
    exact absurd mem not_mem_nil
  | some top =>
    refine ⟨le_max_left _ _, fun mod mem => ?_⟩
    obtain ⟨found, foundLast, below⟩ := modseq_le_getLast indexed.modsSorted mem
    rw [last, Option.some.injEq] at foundLast
    rw [foundLast]
    exact le_trans below (le_max_right _ _)

theorem LogState.finish_uidvldDn (state : LogState) : state.finish.uidvldDn = state.uidvldDn := by
  unfold finish
  split
  · rfl
  · rfl

theorem LogState.finish_trees (state : LogState) : state.finish.toTrees = state.toTrees := by
  unfold finish
  split
  · rfl
  · rfl

end Splintermail
