/-
This file models `maybe_compact` of `log_file.c`, the second interpreter of the
log: when most lines update other lines, the file is rewritten with the last line
of every key.

The reader and the compactor disagree about one value. An expunge without a
`uid_dn` and a modification sequence is ignored by both, but the reader lets it
supersede the value before it, and the compactor skips its line and keeps that
value. So a compaction brings back a message that was deleted before it was
downloaded. It preserves the meaning of the log exactly when there is no such
message.

The hashmap is emptied in an arbitrary order, which is a parameter.
-/

import Mathlib.Data.List.Perm.Basic
import Splintermail.Imaildir.LogReplay

namespace Splintermail

open List

/-! ### The rewriting of the file -/

/-- `hashmap_sets`: a map as the list of its elements, which know their keys. -/
def mapSet {Elem Key : Type} [DecidableEq Key] (key : Elem → Key) (elem : Elem) :
    List Elem → List Elem
  | [] => [elem]
  | other :: rest => if key other = key elem then elem :: rest else other :: mapSet key elem rest

/-- The order in which `hashmap_pop_iter` empties a map, which may depend on its history. -/
structure PopOrder (History Elem : Type) where
  pop : History → List Elem → List Elem
  perm : ∀ history map, (pop history map).Perm map

/-- The reading loop of `maybe_compact`: the map of the keys and values of the lines. -/
def compactLines (map : List (Text × Text)) : List (Text × Bool) → Except Derr (List (Text × Text))
  | [] => .ok map
  | (buffer, eof) :: rest =>
    let line := cString buffer
    if line.getLast? ≠ some '\n' then
      if eof then .error ⟨.param, "incomplete line in logfile while compacting\n"⟩
      else .error ⟨.param, "line-too-long in logfile while compacting\n"⟩
    else
      match dstrSplit2Soft '|' 2 line.dropLast with
      | [key, value] =>
        -- ignore values we wouldn't write anymore
        if value = "1:0:0:x".toList then compactLines map rest
        else compactLines (mapSet Prod.fst (key, value) map) rest
      | _ => .error ⟨.param, "missing '|' in logfile line"⟩

/-- The thresholds of `maybe_compact`: a thousand lines, three quarters of them updates. -/
def Compacts (lines updates : Nat) : Prop := ¬lines < 1000 ∧ ¬lines * 3 > updates * 4

instance (lines updates : Nat) : Decidable (Compacts lines updates) :=
  inferInstanceAs (Decidable (_ ∧ _))

/-- The file and the counters of a log. -/
structure LogOnDisk where
  file : Text
  lines : Nat
  updates : Nat

/-- `maybe_compact` -/
def maybeCompact (order : PopOrder Text (Text × Text)) (log : LogOnDisk) : Except Derr LogOnDisk :=
  if Compacts log.lines log.updates then do
    let map ← compactLines [] (fileLines log.file)
    let written := order.pop log.file map
    return {
      file := written.flatMap fun (key, value) => key ++ '|' :: value ++ ['\n']
      lines := written.length
      updates := 0 }
  else .ok log

/-! ### The last entry of a key -/

/-- The last entry with a key. -/
def lastEntry (entries : List LogEntry) (key : LogKey) : Option LogEntry :=
  entries.foldl (fun last entry => if entry.logKey = key then some entry else last) none

theorem lastEntry_snoc (entries : List LogEntry) (entry : LogEntry) (key : LogKey) :
    lastEntry (entries ++ [entry]) key =
      if entry.logKey = key then some entry else lastEntry entries key := by
  unfold lastEntry
  rw [foldl_append]
  rfl

variable {entries : List LogEntry} {entry : LogEntry} {key : LogKey}

theorem lastEntry_mem (last : lastEntry entries key = some entry) :
    entry ∈ entries ∧ entry.logKey = key := by
  induction entries using reverseRecOn with
  | nil => cases last
  | append_singleton front here ih =>
    rw [lastEntry_snoc] at last
    split at last
    · rename_i same
      rw [← Option.some.inj last]
      exact ⟨mem_append_right _ (mem_singleton_self _), same⟩
    · obtain ⟨mem, same⟩ := ih last
      exact ⟨mem_append_left _ mem, same⟩

/-- The value of an entry with a message key. -/
def LogEntry.content? : LogEntry → Option LogValue
  | .value content => some content
  | _ => none

theorem lastValue_eq_lastEntry (entries : List LogEntry) (key : MsgKey) :
    lastValue entries key = (lastEntry entries (.msg key)).bind LogEntry.content? := by
  induction entries using reverseRecOn with
  | nil => rfl
  | append_singleton front entry ih =>
    rw [lastValue_snoc, lastEntry_snoc, ih]
    cases entry with
    | uidvlds up dn => rfl
    | himodseqUp himodseq => rfl
    | modseqDn modseq => rfl
    | value content =>
      by_cases same : content.key = key
      · have sameKey : (LogEntry.value content).logKey = .msg key := congrArg LogKey.msg same
        rw [LogEntry.valueAt, if_pos same, if_pos sameKey]
        rfl
      · have otherKey : (LogEntry.value content).logKey ≠ .msg key :=
          fun equal => same (LogKey.msg.inj equal)
        rw [LogEntry.valueAt, if_neg same, if_neg otherKey]
        rfl

theorem lastUidvlds_eq_lastEntry (entries : List LogEntry) :
    lastUidvlds entries =
      match lastEntry entries .uidvlds with | some (.uidvlds up dn) => (up, dn) | _ => (0, 0) := by
  induction entries using reverseRecOn with
  | nil => rfl
  | append_singleton front entry ih =>
    rw [lastUidvlds_snoc, lastEntry_snoc]
    cases entry with
    | uidvlds up dn => rfl
    | himodseqUp himodseq => exact ih
    | modseqDn modseq => exact ih
    | value content => exact ih

theorem lastHimodseqUp_eq_lastEntry (entries : List LogEntry) :
    lastHimodseqUp entries =
      match lastEntry entries .himodsequp with | some (.himodseqUp himodseq) => himodseq | _ => 0 := by
  induction entries using reverseRecOn with
  | nil => rfl
  | append_singleton front entry ih =>
    rw [lastHimodseqUp_snoc, lastEntry_snoc]
    cases entry with
    | uidvlds up dn => exact ih
    | himodseqUp himodseq => rfl
    | modseqDn modseq => exact ih
    | value content => exact ih

/-- The explicit modification sequences are written in increasing order. -/
def ExplicitIncreasing (entries : List LogEntry) : Prop :=
  entries.Pairwise fun first second =>
    ∀ before after, first = .modseqDn before → second = .modseqDn after → before ≤ after

theorem maxModseqDn_eq_lastEntry (increasing : ExplicitIncreasing entries) :
    maxModseqDn entries =
      match lastEntry entries .modseqdn with | some (.modseqDn modseq) => max 1 modseq | _ => 1 := by
  induction entries using reverseRecOn with
  | nil => rfl
  | append_singleton front entry ih =>
    obtain ⟨frontIncreasing, -, across⟩ := pairwise_append.mp increasing
    have before := ih frontIncreasing
    rw [maxModseqDn_snoc, lastEntry_snoc]
    cases entry with
    | uidvlds up dn => exact before
    | himodseqUp himodseq => exact before
    | value content => exact before
    | modseqDn modseq =>
      show max (maxModseqDn front) modseq = max 1 modseq
      rw [before]
      cases last : lastEntry front .modseqdn with
      | none => rfl
      | some previous =>
        cases previous with
        | uidvlds up dn => rfl
        | himodseqUp himodseq => rfl
        | value content => rfl
        | modseqDn earlier =>
          have mem := (lastEntry_mem last).1
          have below := across _ mem _ (mem_singleton_self _) earlier modseq rfl rfl
          simp only
          omega

/-! ### The entries that a compaction keeps -/

section MapSet

variable {Elem Key : Type} [DecidableEq Key] {key : Elem → Key}

theorem mem_mapSet {elem other : Elem} {map : List Elem} (distinct : (map.map key).Nodup) :
    other ∈ mapSet key elem map ↔ other = elem ∨ (other ∈ map ∧ key other ≠ key elem) := by
  induction map with
  | nil => simp [mapSet]
  | cons head rest ih =>
    obtain ⟨headFresh, restDistinct⟩ := nodup_cons.mp distinct
    rw [mapSet]
    split
    · rename_i same
      rw [mem_cons, mem_cons]
      refine or_congr_right ⟨fun inRest => ⟨.inr inRest, fun equal => headFresh ?_⟩, ?_⟩
      · rw [same, ← equal]
        exact mem_map_of_mem inRest
      · rintro ⟨rfl | inRest, differs⟩
        · exact absurd same differs
        · exact inRest
    · rename_i differs
      rw [mem_cons, ih restDistinct, mem_cons]
      constructor
      · rintro (rfl | rfl | ⟨inRest, otherKey⟩)
        · exact .inr ⟨.inl rfl, differs⟩
        · exact .inl rfl
        · exact .inr ⟨.inr inRest, otherKey⟩
      · rintro (rfl | ⟨rfl | inRest, otherKey⟩)
        · exact .inr (.inl rfl)
        · exact .inl rfl
        · exact .inr (.inr ⟨inRest, otherKey⟩)

theorem nodup_mapSet {elem : Elem} {map : List Elem} (distinct : (map.map key).Nodup) :
    ((mapSet key elem map).map key).Nodup := by
  induction map with
  | nil => simp [mapSet]
  | cons head rest ih =>
    obtain ⟨headFresh, restDistinct⟩ := nodup_cons.mp distinct
    rw [mapSet]
    split
    · rename_i same
      rw [map_cons, ← same]
      exact nodup_cons.mpr ⟨headFresh, restDistinct⟩
    · rename_i differs
      rw [map_cons]
      refine nodup_cons.mpr ⟨fun mem => ?_, ih restDistinct⟩
      obtain ⟨other, otherMem, sameKey⟩ := mem_map.mp mem
      rcases (mem_mapSet restDistinct).mp otherMem with rfl | ⟨inRest, -⟩
      · exact differs sameKey.symm
      · rw [← sameKey] at headFresh
        exact headFresh (mem_map_of_mem inRest)

/-- A map of images is the image of a map when keys agree. -/
theorem map_mapSet {Other OtherKey : Type} [DecidableEq OtherKey] (otherKey : Other → OtherKey)
    (image : Elem → Other) (elem : Elem) (map : List Elem)
    (agree : ∀ other ∈ map, otherKey (image other) = otherKey (image elem) ↔ key other = key elem) :
    (mapSet key elem map).map image = mapSet otherKey (image elem) (map.map image) := by
  induction map with
  | nil => rfl
  | cons head rest ih =>
    rw [mapSet, map_cons, mapSet]
    by_cases same : key head = key elem
    · rw [if_pos same, if_pos ((agree head mem_cons_self).mpr same)]
      rfl
    · rw [if_neg same, if_neg fun equal => same ((agree head mem_cons_self).mp equal), map_cons,
        ih fun other mem => agree other (.tail _ mem)]

end MapSet

/-- The entry of an ignored expunge, whose value is the text that the compactor skips. -/
def LogEntry.stale : LogEntry → Bool
  | .value (.expunge record) => record.uidDn = 0 && record.modseq = 0 && record.state = .pushed
  | _ => false

/-- The last entry of every key among some entries. -/
def collapse (entries : List LogEntry) : List LogEntry :=
  entries.foldl (fun map entry => mapSet LogEntry.logKey entry map) []

/-- The entries that are kept. -/
def keptEntries (entries : List LogEntry) : List LogEntry := entries.filter fun entry => !entry.stale

theorem collapse_snoc (entries : List LogEntry) (entry : LogEntry) :
    collapse (entries ++ [entry]) = mapSet LogEntry.logKey entry (collapse entries) := by
  unfold collapse
  rw [foldl_append]
  rfl

theorem nodup_collapse (entries : List LogEntry) :
    ((collapse entries).map LogEntry.logKey).Nodup := by
  induction entries using reverseRecOn with
  | nil => exact nodup_nil
  | append_singleton front entry ih =>
    rw [collapse_snoc]
    exact nodup_mapSet ih

theorem mem_collapse : entry ∈ collapse entries ↔ lastEntry entries entry.logKey = some entry := by
  induction entries using reverseRecOn with
  | nil => exact ⟨fun mem => absurd mem not_mem_nil, nofun⟩
  | append_singleton front here ih =>
    rw [collapse_snoc, mem_mapSet (nodup_collapse front), lastEntry_snoc, ih]
    by_cases same : here.logKey = entry.logKey
    · rw [if_pos same, Option.some.injEq, eq_comm]
      exact ⟨fun either => either.resolve_right fun both => both.2 same.symm, .inl⟩
    · rw [if_neg same]
      constructor
      · rintro (rfl | both)
        · exact absurd rfl same
        · exact both.1
      · exact fun last => .inr ⟨last, Ne.symm same⟩

theorem lastEntry_of_nodup (distinct : (entries.map LogEntry.logKey).Nodup) :
    lastEntry entries key = some entry ↔ entry ∈ entries ∧ entry.logKey = key := by
  refine ⟨lastEntry_mem, ?_⟩
  rintro ⟨mem, rfl⟩
  induction entries using reverseRecOn with
  | nil => cases mem
  | append_singleton front here ih =>
    rw [map_append] at distinct
    obtain ⟨frontDistinct, -, apart⟩ := nodup_append.mp distinct
    rw [lastEntry_snoc]
    rcases mem_append.mp mem with before | now
    · have differs : here.logKey ≠ entry.logKey := fun equal =>
        apart entry.logKey (mem_map_of_mem before) here.logKey
          (mem_map_of_mem (mem_singleton_self _)) equal.symm
      rw [if_neg differs]
      exact ih frontDistinct before
    · rw [mem_singleton.mp now, if_pos rfl]

variable {written : List LogEntry}

theorem lastEntry_of_perm_collapse (perm : written.Perm (collapse entries)) (key : LogKey) :
    lastEntry written key = lastEntry entries key := by
  have distinct : (written.map LogEntry.logKey).Nodup :=
    (perm.map LogEntry.logKey).nodup_iff.mpr (nodup_collapse entries)
  refine Option.ext fun entry => ?_
  rw [lastEntry_of_nodup distinct, perm.mem_iff, mem_collapse]
  constructor
  · rintro ⟨last, rfl⟩
    exact last
  · intro last
    have same := (lastEntry_mem last).2
    exact ⟨same ▸ last, same⟩

/-! ### The compacted text -/

/-- The key and the value of a line. -/
def LogEntry.pair (entry : LogEntry) : Text × Text := (entry.keyText, entry.valueText)

/-- The skipped text is the value of the ignored expunges and of nothing else. -/
theorem valueText_eq_skipped (fits : entry.Fits) :
    entry.valueText = "1:0:0:x".toList ↔ entry.stale = true := by
  have back := parseContent_valueText fits
  constructor
  · intro skipped
    rw [skipped] at back
    cases entry with
    | uidvlds up dn => cases back
    | himodseqUp himodseq => cases back
    | modseqDn modseq => cases back
    | value content =>
      have parsed : parseContent "1:0:0:x".toList (.msg content.key) =
          .ok (.value (.expunge ⟨content.key, 0, .pushed, 0⟩)) := rfl
      rw [LogEntry.logKey, parsed, Except.ok.injEq, LogEntry.value.injEq] at back
      rw [← back]
      rfl
  · intro stale
    cases entry with
    | uidvlds up dn => cases stale
    | himodseqUp himodseq => cases stale
    | modseqDn modseq => cases stale
    | value content =>
      cases content with
      | message msg => cases stale
      | expunge expunge =>
        obtain ⟨key, uidDn, state, modseq⟩ := expunge
        simp only [LogEntry.stale, Bool.and_eq_true, decide_eq_true_eq] at stale
        obtain ⟨⟨rfl, rfl⟩, rfl⟩ := stale
        have written : joinWords ':' [logFormatVersion, fmtUint 0, fmtUint 0, ['x']] =
            "1:0:0:x".toList := by decide
        exact written

/-- The reading loop of the compactor collapses the kept entries. -/
theorem compactLines_entries (before : List LogEntry) (fits : ∀ entry ∈ entries, entry.Fits)
    (beforeFits : ∀ entry ∈ before, entry.Fits) :
    compactLines ((collapse (keptEntries before)).map LogEntry.pair)
        (entries.map fun entry => (entry.line, false)) =
      .ok ((collapse (keptEntries (before ++ entries))).map LogEntry.pair) := by
  induction entries generalizing before with
  | nil =>
    rw [append_nil]
    rfl
  | cons entry rest ih =>
    have entryFits := fits entry mem_cons_self
    have noNul : '\x00' ∉ entry.line := by
      rw [LogEntry.line_eq, mem_append, not_or]
      exact ⟨entry.notMem_body entryFits rfl (by decide), by decide⟩
    have last : entry.line.getLast? = some '\n' := by
      rw [LogEntry.line_eq, getLast?_concat]
    have body : entry.line.dropLast = entry.body := by
      rw [LogEntry.line_eq, dropLast_concat]
    have split := entry.split_body
    have tail := ih (before ++ [entry]) (fun other mem => fits other (.tail _ mem)) (by
        intro other mem
        rcases mem_append.mp mem with inBefore | here
        · exact beforeFits other inBefore
        · rw [mem_singleton.mp here]
          exact entryFits)
    rw [append_assoc, singleton_append] at tail
    rw [map_cons, compactLines]
    simp only [cString_of_notMem noNul, last, ne_eq, not_true_eq_false, if_false, body, split]
    by_cases stale : entry.stale = true
    · rw [if_pos ((valueText_eq_skipped entryFits).mpr stale), ← tail]
      unfold keptEntries
      rw [filter_append, filter_cons, stale]
      simp
    · rw [if_neg fun skipped => stale ((valueText_eq_skipped entryFits).mp skipped), ← tail]
      have kept : keptEntries (before ++ [entry]) = keptEntries before ++ [entry] := by
        unfold keptEntries
        rw [filter_append, filter_cons]
        simp [stale]
      rw [kept, collapse_snoc]
      have image := map_mapSet Prod.fst LogEntry.pair entry (collapse (keptEntries before)) (by
          intro other mem
          have otherMem : other ∈ before :=
            (mem_filter.mp (lastEntry_mem (mem_collapse.mp mem)).1).1
          exact ⟨logKeyMarshal_injective (other.fits_logKey (beforeFits other otherMem))
            (entry.fits_logKey entryFits), congrArg logKeyMarshal⟩)
      rw [image]
      rfl

theorem exists_perm_of_perm_map {Elem Image : Type} {image : Elem → Image} {map : List Elem}
    {popped : List Image} (perm : popped.Perm (map.map image)) :
    ∃ written : List Elem, written.Perm map ∧ written.map image = popped := by
  have pairs : Forall₂ (fun shown elem => shown = image elem) (map.map image) map :=
    forall₂_map_left_iff.mpr (forall₂_same.mpr fun _ _ => rfl)
  obtain ⟨written, shown, writtenPerm⟩ := perm_comp_forall₂ perm pairs
  refine ⟨written, writtenPerm, ?_⟩
  clear perm pairs writtenPerm
  induction shown with
  | nil => rfl
  | cons head rest ih => rw [map_cons, ih, ← head]

/-- A compaction of a written log writes the last kept entry of every key, in some order. -/
theorem maybeCompact_logText (fits : ∀ entry ∈ entries, entry.Fits)
    (order : PopOrder Text (Text × Text)) {lines updates : Nat}
    (compacts : Compacts lines updates) :
    ∃ written, written.Perm (collapse (keptEntries entries)) ∧
      maybeCompact order ⟨logText entries, lines, updates⟩ =
        .ok ⟨logText written, written.length, 0⟩ := by
  have complete : Incomplete [] := ⟨not_mem_nil, by decide⟩
  have lineList : fileLines (logText entries) = entries.map fun entry => (entry.line, false) := by
    have read := fgetsLines_logText fits complete (logText entries).length (by simp)
    rw [append_nil, if_pos rfl, append_nil] at read
    exact read
  have map := compactLines_entries [] fits nofun
  obtain ⟨written, perm, image⟩ := exists_perm_of_perm_map
    (order.perm (logText entries) ((collapse (keptEntries entries)).map LogEntry.pair))
  refine ⟨written, perm, ?_⟩
  unfold maybeCompact
  rw [if_pos compacts, lineList]
  show (compactLines ((collapse (keptEntries [])).map LogEntry.pair) _ >>= _) = _
  rw [map, nil_append]
  show Except.ok _ = Except.ok _
  rw [← image, length_map, flatMap_map]
  rfl

/-! ### What a compaction preserves -/

/-- What reading a log back yields, without the counters of the reader. -/
structure LogMeaning extends Trees where
  himodseqDn : Nat
  uidvldUp : Nat
  uidvldDn : Nat
  himodseqUp : Nat
  deriving DecidableEq

def LogState.meaning (state : LogState) : LogMeaning :=
  { state.toTrees, state with }

/-- Reading back the file of a log. -/
def readBack (file : Text) : Except Derr LogMeaning :=
  (imaildirLogOpen file).map fun opened => opened.1.meaning

/-- The logs that the `imaildir_t` writes: lines that fit, valid values, and explicit
modification sequences in increasing order. -/
structure IssuedLog (entries : List LogEntry) : Prop where
  fits : ∀ entry ∈ entries, entry.Fits
  valid : ValidLog entries
  explicit : ExplicitIncreasing entries

theorem readBack_logText (issued : IssuedLog entries) :
    ∃ state : LogState, state.Describes entries ∧ readBack (logText entries) = .ok state.finish.meaning := by
  have complete : Incomplete [] := ⟨not_mem_nil, by decide⟩
  obtain ⟨state, read, describes⟩ := readEntries_describes issued.valid
  refine ⟨state, describes, ?_⟩
  have opened := imaildirLogOpen_logText issued.fits complete
  rw [append_nil, read] at opened
  unfold readBack
  rw [opened]
  rfl

/-- Trees that hold the same last values are the same. -/
theorem Trees.Hold.eq {first second : Trees} {others : List LogEntry}
    (firstHolds : first.Hold entries) (secondHolds : second.Hold others)
    (msgs : ∀ msg : Msg, lastValue entries msg.key = some (.message msg) ↔
      lastValue others msg.key = some (.message msg))
    (expunged : ∀ expunge : Expunge, ¬expunge.Ignored →
      (lastValue entries expunge.key = some (.expunge expunge) ↔
        lastValue others expunge.key = some (.expunge expunge))) : first = second := by
  have sameMsgs : first.msgs = second.msgs :=
    firstHolds.indexed.msgsSorted.ext secondHolds.indexed.msgsSorted fun msg => by
      rw [firstHolds.mem_msgs, secondHolds.mem_msgs, msgs]
  have sameExpunged : first.expunged = second.expunged :=
    firstHolds.indexed.expungedSorted.ext secondHolds.indexed.expungedSorted fun expunge => by
      rw [firstHolds.mem_expunged, secondHolds.mem_expunged]
      exact and_congr_left (expunged expunge)
  have sameMods : first.mods = second.mods :=
    firstHolds.indexed.modsSorted.ext secondHolds.indexed.modsSorted fun mod => by
      rw [firstHolds.indexed.mem_mods, secondHolds.indexed.mem_mods, sameMsgs, sameExpunged]
  obtain ⟨firstMsgs, firstExpunged, firstMods⟩ := first
  rw [Trees.mk.injEq]
  exact ⟨sameMsgs, sameExpunged, sameMods⟩

/-- No key whose last value is the ignored expunge has another value before it. -/
def NoneSuperseded (entries : List LogEntry) : Prop :=
  ∀ last, lastValue entries last.key = some last → (LogEntry.value last).stale = true →
    ∀ content, LogEntry.value content ∈ entries → content.key = last.key → content = last

theorem stale_ignored {expunge : Expunge} (stale : (LogEntry.value (.expunge expunge)).stale = true) :
    expunge.Ignored := by
  simp only [LogEntry.stale, Bool.and_eq_true, decide_eq_true_eq] at stale
  exact stale.1

/-- A valid ignored expunge is the one whose line is skipped. -/
theorem ignored_stale {expunge : Expunge} (valid : (LogValue.expunge expunge).Valid)
    (ignored : expunge.Ignored) : (LogEntry.value (.expunge expunge)).stale = true := by
  simp only [LogEntry.stale, Bool.and_eq_true, decide_eq_true_eq]
  exact ⟨ignored, valid.2 ignored.1⟩

theorem stale_eq {first second : LogValue} (firstStale : (LogEntry.value first).stale = true)
    (secondStale : (LogEntry.value second).stale = true) (sameKey : first.key = second.key) :
    first = second := by
  cases first with
  | message msg => cases firstStale
  | expunge record =>
    cases second with
    | message msg => cases secondStale
    | expunge other =>
      obtain ⟨key, uidDn, state, modseq⟩ := record
      obtain ⟨otherKey, otherUidDn, otherState, otherModseq⟩ := other
      simp only [LogEntry.stale, Bool.and_eq_true, decide_eq_true_eq] at firstStale secondStale
      obtain ⟨⟨rfl, rfl⟩, rfl⟩ := firstStale
      obtain ⟨⟨rfl, rfl⟩, rfl⟩ := secondStale
      cases sameKey
      rfl

theorem lastEntry_kept (notMsg : ∀ msgKey, key ≠ .msg msgKey) :
    lastEntry (keptEntries entries) key = lastEntry entries key := by
  induction entries using reverseRecOn with
  | nil => rfl
  | append_singleton front entry ih =>
    unfold keptEntries at ih ⊢
    rw [filter_append, lastEntry_snoc]
    by_cases stale : entry.stale = true
    · have otherKey : entry.logKey ≠ key := by
        cases entry with
        | uidvlds up dn => cases stale
        | himodseqUp himodseq => cases stale
        | modseqDn modseq => cases stale
        | value content => exact Ne.symm (notMsg _)
      rw [if_neg otherKey, filter_cons, stale]
      simpa using ih
    · rw [filter_cons]
      simp only [stale, Bool.not_false, if_true, filter_nil]
      rw [lastEntry_snoc, ih]

variable {content : LogValue}

/-- The last kept value of a key is the last value that is not skipped. -/
theorem lastValue_kept_of_not_stale (last : lastValue entries content.key = some content)
    (fresh : (LogEntry.value content).stale = false) :
    lastValue (keptEntries entries) content.key = some content := by
  induction entries using reverseRecOn with
  | nil => cases last
  | append_singleton front entry ih =>
    unfold keptEntries at ih ⊢
    rw [lastValue_snoc] at last
    rw [filter_append, filter_cons]
    cases here : entry.valueAt content.key with
    | some value =>
      rw [here, Option.some_or, Option.some.injEq] at last
      subst last
      obtain ⟨rfl, -⟩ := LogEntry.valueAt_eq_some.mp here
      simp only [fresh, Bool.not_false, if_true, filter_nil]
      rw [lastValue_snoc, here, Option.some_or]
    | none =>
      rw [here, Option.none_or] at last
      have before := ih last
      by_cases stale : entry.stale = true
      · simpa [stale] using before
      · simp only [stale, Bool.not_false, if_true, filter_nil]
        rw [lastValue_snoc, here, Option.none_or]
        exact before

theorem keptEntries_subset (entries : List LogEntry) : keptEntries entries ⊆ entries :=
  filter_sublist.subset

theorem lastValue_kept_not_stale {key : MsgKey}
    (last : lastValue (keptEntries entries) key = some content) :
    (LogEntry.value content).stale = false := by
  have mem := (mem_filter.mp (lastValue_mem last).1).2
  simpa using mem

theorem IssuedLog.of_perm (issued : IssuedLog entries)
    (perm : written.Perm (collapse (keptEntries entries))) : IssuedLog written := by
  have subset : written ⊆ entries := fun entry mem =>
    keptEntries_subset entries (lastEntry_mem (mem_collapse.mp (perm.mem_iff.mp mem))).1
  refine ⟨fun entry mem => issued.fits entry (subset mem), issued.valid.subset subset, ?_⟩
  have distinct : (written.map LogEntry.logKey).Nodup :=
    (perm.map LogEntry.logKey).nodup_iff.mpr (nodup_collapse _)
  refine (pairwise_map.mp distinct).imp fun {first second} differs before after isFirst isSecond => ?_
  rw [isFirst, isSecond] at differs
  exact absurd rfl differs

/-- A compaction keeps all numbers of the log. -/
theorem describes_numbers_of_perm (issued : IssuedLog entries)
    (perm : written.Perm (collapse (keptEntries entries))) {before after : LogState}
    (beforeDescribes : before.Describes entries) (afterDescribes : after.Describes written) :
    after.SameNumbers before := by
  have sameEntry : ∀ key, (∀ msgKey, key ≠ LogKey.msg msgKey) →
      lastEntry written key = lastEntry entries key := fun key notMsg =>
    (lastEntry_of_perm_collapse perm key).trans (lastEntry_kept notMsg)
  have uidvlds : lastUidvlds written = lastUidvlds entries := by
    rw [lastUidvlds_eq_lastEntry, lastUidvlds_eq_lastEntry, sameEntry .uidvlds nofun]
  refine ⟨?_, ?_, ?_, ?_⟩
  · rw [afterDescribes.uidvldUp, beforeDescribes.uidvldUp, uidvlds]
  · rw [afterDescribes.uidvldDn, beforeDescribes.uidvldDn, uidvlds]
  · rw [afterDescribes.himodseqUp, beforeDescribes.himodseqUp, lastHimodseqUp_eq_lastEntry,
      lastHimodseqUp_eq_lastEntry, sameEntry .himodsequp nofun]
  · rw [afterDescribes.himodseqDn, beforeDescribes.himodseqDn,
      maxModseqDn_eq_lastEntry (issued.of_perm perm).explicit,
      maxModseqDn_eq_lastEntry issued.explicit, sameEntry .modseqdn nofun]

theorem lastValue_of_perm (perm : written.Perm (collapse (keptEntries entries))) (key : MsgKey) :
    lastValue written key = lastValue (keptEntries entries) key := by
  rw [lastValue_eq_lastEntry, lastValue_eq_lastEntry, lastEntry_of_perm_collapse perm]

/-- If no value is superseded by an ignored expunge, the compactor and the reader agree about
all values that are not ignored. -/
theorem NoneSuperseded.lastValue_kept (none : NoneSuperseded entries) (content : LogValue)
    (fresh : (LogEntry.value content).stale = false) :
    lastValue (keptEntries entries) content.key = some content ↔
      lastValue entries content.key = some content := by
  refine ⟨fun last => ?_, fun last => lastValue_kept_of_not_stale last fresh⟩
  have mem := keptEntries_subset entries (lastValue_mem last).1
  obtain ⟨final, finalLast⟩ := lastValue_isSome mem
  have finalKey := (lastValue_mem finalLast).2
  rw [← finalKey] at finalLast
  cases stale : (LogEntry.value final).stale with
  | true =>
    have same := none final finalLast stale content mem finalKey.symm
    rw [same, stale] at fresh
    cases fresh
  | false =>
    have kept := lastValue_kept_of_not_stale finalLast stale
    rw [finalKey, last] at kept
    rw [Option.some.inj kept, finalLast]

/-- A compaction changes what is read exactly when a value is superseded by an ignored
expunge. -/
theorem readBack_compacted_iff (issued : IssuedLog entries)
    (perm : written.Perm (collapse (keptEntries entries))) :
    readBack (logText written) = readBack (logText entries) ↔ NoneSuperseded entries := by
  obtain ⟨before, beforeDescribes, beforeRead⟩ := readBack_logText issued
  obtain ⟨after, afterDescribes, afterRead⟩ := readBack_logText (issued.of_perm perm)
  have numbers := describes_numbers_of_perm issued perm beforeDescribes afterDescribes
  rw [beforeRead, afterRead, Except.ok.injEq]
  constructor
  · intro same last finalLast stale content mem sameKey
    -- the kept value of the key would be read after the compaction and not before it
    have sameTrees : after.toTrees = before.toTrees := by
      rw [← after.finish_trees, ← before.finish_trees]
      exact congrArg LogMeaning.toTrees same
    by_contra differs
    have fresh : (LogEntry.value content).stale = false := by
      rw [Bool.eq_false_iff]
      exact fun contentStale => differs (stale_eq contentStale stale sameKey)
    have keptMember : LogEntry.value content ∈ keptEntries entries :=
      mem_filter.mpr ⟨mem, by rw [fresh]; rfl⟩
    obtain ⟨kept, keptLast⟩ := lastValue_isSome keptMember
    have keptKey : kept.key = last.key := (lastValue_mem keptLast).2.trans sameKey
    have keptFresh := lastValue_kept_not_stale keptLast
    have keptInEntries := keptEntries_subset entries (lastValue_mem keptLast).1
    rw [sameKey, ← keptKey, ← lastValue_of_perm perm] at keptLast
    rw [← keptKey] at finalLast
    cases kept with
    | message msg =>
      have inAfter := (afterDescribes.trees.mem_msgs msg).mpr keptLast
      rw [sameTrees, beforeDescribes.trees.mem_msgs] at inAfter
      rw [show msg.key = (LogValue.message msg).key from rfl, finalLast] at inAfter
      rw [Option.some.inj inAfter] at stale
      cases stale
    | expunge expunge =>
      have kept : ¬expunge.Ignored := by
        intro ignored
        rw [ignored_stale (issued.valid.valid _ keptInEntries) ignored] at keptFresh
        cases keptFresh
      have inAfter := (afterDescribes.trees.mem_expunged expunge).mpr ⟨keptLast, kept⟩
      rw [sameTrees, beforeDescribes.trees.mem_expunged] at inAfter
      rw [show expunge.key = (LogValue.expunge expunge).key from rfl, finalLast] at inAfter
      rw [Option.some.inj inAfter.1] at stale
      rw [stale] at keptFresh
      cases keptFresh
  · intro none
    have sameTrees : after.toTrees = before.toTrees := by
      refine afterDescribes.trees.eq beforeDescribes.trees (fun msg => ?_) fun expunge kept => ?_
      · rw [lastValue_of_perm perm]
        exact none.lastValue_kept (.message msg) rfl
      · rw [lastValue_of_perm perm]
        refine none.lastValue_kept (.expunge expunge) ?_
        rw [Bool.eq_false_iff]
        exact fun stale => kept (stale_ignored stale)
    have meaning : after.finish.meaning = before.finish.meaning := by
      obtain ⟨afterTrees, afterDn, afterUp, afterUidDn, afterHi, afterLines, afterUpdates⟩ := after
      obtain ⟨beforeTrees, beforeDn, beforeUp, beforeUidDn, beforeHi, beforeLines, beforeUpdates⟩ :=
        before
      obtain ⟨uidvldUp, uidvldDn, himodseqUp, himodseqDn⟩ := numbers
      simp only at sameTrees uidvldUp uidvldDn himodseqUp himodseqDn
      subst sameTrees uidvldUp uidvldDn himodseqUp himodseqDn
      unfold LogState.finish
      simp only
      split
      · rfl
      · rfl
    exact meaning

/-- `maybe_compact` preserves the meaning of a log exactly when it does not rewrite the file, or
no message key whose last value is the ignored expunge has another value in the log. -/
theorem maybeCompact_preserves_iff (order : PopOrder Text (Text × Text)) (entries : List LogEntry)
    (issued : IssuedLog entries) (lines updates : Nat) :
    ∃ compacted, maybeCompact order ⟨logText entries, lines, updates⟩ = .ok compacted ∧
      (readBack compacted.file = readBack (logText entries) ↔
        (Compacts lines updates → NoneSuperseded entries)) := by
  by_cases compacts : Compacts lines updates
  · obtain ⟨written, perm, result⟩ := maybeCompact_logText issued.fits order compacts
    refine ⟨_, result, ?_⟩
    rw [readBack_compacted_iff issued perm]
    exact ⟨fun none _ => none, fun implies => implies compacts⟩
  · exact ⟨_, if_neg compacts, fun _ holds => absurd holds compacts, fun _ => rfl⟩

/-- A map that is emptied in the order of its list. -/
def PopOrder.inOrder {History Elem : Type} : PopOrder History Elem := ⟨fun _ map => map, fun _ _ => .rfl⟩

/-- The message 5 as it is logged when it is first seen, and the expunge that is logged when it
vanishes before it was downloaded. -/
def seenMessage : Msg :=
  { key := .up 5, uidDn := 0, internaldate := {}, flags := {}, modseq := 0, state := .unfilled }

def vanishedExpunge : Expunge := ⟨.up 5, 0, .pushed, 0⟩

/-- A thousand lines: the synced modification sequences of 998 polls, and a message that
vanished before it was downloaded. -/
def vanishedLog : List LogEntry :=
  (range 998).map (fun poll => LogEntry.himodseqUp (poll + 1)) ++
    [.value (.message seenMessage), .value (.expunge vanishedExpunge)]

theorem mem_vanishedLog (mem : entry ∈ vanishedLog) :
    (∃ poll < 998, entry = .himodseqUp (poll + 1)) ∨ entry = .value (.message seenMessage) ∨
      entry = .value (.expunge vanishedExpunge) := by
  rcases mem_append.mp mem with polled | last
  · obtain ⟨poll, inRange, rfl⟩ := mem_map.mp polled
    exact .inl ⟨poll, mem_range.mp inRange, rfl⟩
  · simp only [mem_cons, not_mem_nil, or_false] at last
    exact .inr last

theorem vanishedLog_value (mem : LogEntry.value content ∈ vanishedLog) :
    content = .message seenMessage ∨ content = .expunge vanishedExpunge := by
  rcases mem_vanishedLog mem with ⟨poll, -, polled⟩ | seen | vanished
  · cases polled
  · exact .inl (LogEntry.value.inj seen)
  · exact .inr (LogEntry.value.inj vanished)

theorem vanishedLog_issued : IssuedLog vanishedLog where
  fits entry mem := by
    rcases mem_vanishedLog mem with ⟨poll, small, rfl⟩ | rfl | rfl
    · show poll + 1 ≤ uintmaxMax
      unfold uintmaxMax
      omega
    · exact ⟨⟨by decide, by decide, by decide⟩, by decide, by decide⟩
    · exact ⟨by decide, by decide, by decide⟩
  valid := {
    valid := fun content mem => by
      rcases vanishedLog_value mem with rfl | rfl
      · exact ⟨by decide, by decide⟩
      · exact ⟨by decide, by decide⟩
    modseq := fun first second firstMem _ nonzero _ => by
      rcases vanishedLog_value firstMem with rfl | rfl
      · exact absurd rfl nonzero
      · exact absurd rfl nonzero }
  explicit := by
    refine pairwise_of_forall_mem_list fun first firstMem second _ before after isFirst _ => ?_
    rcases mem_vanishedLog firstMem with ⟨poll, -, rfl⟩ | rfl | rfl
    · cases isFirst
    · cases isFirst
    · cases isFirst

/-- Compacting the log of a message that vanished before its download changes what is read. -/
theorem maybeCompact_resurrects :
    ∃ compacted, maybeCompact .inOrder ⟨logText vanishedLog, 1000, 1000⟩ = .ok compacted ∧
      readBack compacted.file ≠ readBack (logText vanishedLog) := by
  obtain ⟨written, perm, result⟩ := maybeCompact_logText vanishedLog_issued.fits
    .inOrder (by decide : Compacts 1000 1000)
  refine ⟨_, result, fun same => ?_⟩
  have none := (readBack_compacted_iff vanishedLog_issued perm).mp same
  have last : lastValue vanishedLog (.up 5) = some (.expunge vanishedExpunge) := by
    have shape : vanishedLog = ((range 998).map (fun poll => LogEntry.himodseqUp (poll + 1)) ++
        [.value (.message seenMessage)]) ++ [.value (.expunge vanishedExpunge)] := by
      simp [vanishedLog]
    rw [shape, lastValue_snoc]
    rfl
  have seen : LogEntry.value (.message seenMessage) ∈ vanishedLog :=
    mem_append_right _ mem_cons_self
  cases none (.expunge vanishedExpunge) last (by decide) (.message seenMessage) seen rfl

/-- The exact condition at the log of the vanished message. -/
theorem maybeCompact_preserves_iff_vanishedLog :
    ∃ compacted, maybeCompact .inOrder ⟨logText vanishedLog, 1000, 1000⟩ = .ok compacted ∧
      (readBack compacted.file = readBack (logText vanishedLog) ↔
        (Compacts 1000 1000 → NoneSuperseded vanishedLog)) :=
  maybeCompact_preserves_iff .inOrder vanishedLog vanishedLog_issued 1000 1000

end Splintermail
