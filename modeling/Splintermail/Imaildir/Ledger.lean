/-
This file is the bookkeeping of the two numbers of a message, its `uid_dn` and its
modseq. Both are handed out by counters, both are kept in memory and in the lines
of the log, and for both the log has to remember the highest number of a key: a
line that supersedes another one never has a smaller number.

A line is written for what is in memory. That its number is not smaller than those
of the earlier lines of the key is known from the message or the expunge it is
written for; a key that is in neither tree has no number in the log.
-/

import Splintermail.Imaildir.Compaction
import Splintermail.Lib.Issue

namespace Splintermail

open List LogValue Splintermail.Tree

/-! ### Numbers -/

/-- The numbers of a message. -/
inductive Number where
  | uidDn
  | modseq
  deriving DecidableEq

def LogValue.number (value : LogValue) : Number → Nat
  | .uidDn => value.uidDn
  | .modseq => value.modseq

/-- The numbers in memory. -/
def Trees.values (trees : Trees) : List LogValue :=
  trees.msgs.map message ++ trees.expunged.map expunge

/-- The numbers in the log. -/
def cacheValues (cache : List LogEntry) : List LogValue := cache.filterMap LogEntry.content?

/-- The keys and numbers of some values. -/
def numbered (number : Number) (values : List LogValue) : Set (MsgKey × Nat) :=
  {pair | ∃ value ∈ values, pair = (value.key, value.number number)}

theorem mem_values {trees : Trees} {value : LogValue} :
    value ∈ trees.values ↔
      (∃ msg ∈ trees.msgs, .message msg = value) ∨ ∃ record ∈ trees.expunged, .expunge record = value := by
  unfold Trees.values
  rw [mem_append, mem_map, mem_map]

theorem mem_cacheValues {cache : List LogEntry} {value : LogValue} :
    value ∈ cacheValues cache ↔ .value value ∈ cache := by
  unfold cacheValues
  rw [mem_filterMap]
  constructor
  · rintro ⟨entry, mem, content⟩
    cases entry with
    | value other =>
      cases content
      exact mem
    | uidvlds up dn | himodseqUp himodseq | modseqDn modseq => cases content
  · exact fun mem => ⟨_, mem, rfl⟩

theorem numbered_subset {number : Number} {values others : List LogValue} (fewer : values ⊆ others) :
    numbered number values ⊆ numbered number others := by
  rintro pair ⟨value, mem, equal⟩
  exact ⟨value, fewer mem, equal⟩

/-! ### The ledger -/

/-- A line that supersedes another one does not have a smaller number. -/
def Rising (number : Number) (lines : List LogValue) : Prop :=
  lines.Pairwise fun first second => first.key = second.key → first.number number ≤ second.number number

/-- The bookkeeping of a number: what is in memory and in the log was handed out by the counter,
and the log never goes back. A message or unpushed expunge, for which a line may be written, has a
number that is not below those in the lines of its key. -/
structure Ledger (number : Number) (top : Nat) (trees : Trees) (lines : List LogValue) : Prop where
  issued : Issued top (numbered number (trees.values ++ lines))
  rising : Rising number lines
  msg : ∀ msg ∈ trees.msgs, msg.state ≠ .expunged →
    (∀ record ∈ trees.expunged, record.key = msg.key → (expunge record).number number = 0) →
    ∀ line ∈ lines, line.key = msg.key → line.number number ≤ (message msg).number number
  unpushed : ∀ record ∈ trees.expunged, record.state = .unpushed →
    ∀ line ∈ lines, line.key = record.key → line.number number ≤ (expunge record).number number
  present : ∀ line ∈ lines, line.number number ≠ 0 →
    (∃ msg ∈ trees.msgs, msg.key = line.key) ∨ ∃ record ∈ trees.expunged, record.key = line.key

namespace Ledger

variable {number : Number} {top : Nat} {trees : Trees} {lines : List LogValue}

theorem bound_msg (ledger : Ledger number top trees lines) {msg : Msg} (mem : msg ∈ trees.msgs) :
    (message msg).number number ≤ top :=
  ledger.issued.bound _ ⟨.message msg, mem_append_left _ (mem_values.mpr (.inl ⟨msg, mem, rfl⟩)), rfl⟩

theorem bound_line (ledger : Ledger number top trees lines) {line : LogValue} (mem : line ∈ lines) :
    line.number number ≤ top :=
  ledger.issued.bound _ ⟨line, mem_append_right _ mem, rfl⟩

variable {key : MsgKey}

section

variable (ledger : Ledger number top trees lines)

include ledger

theorem line_eq_zero (noMsg : ∀ msg ∈ trees.msgs, msg.key ≠ key)
    (noExpunge : ∀ record ∈ trees.expunged, record.key ≠ key) {line : LogValue} (mem : line ∈ lines)
    (same : line.key = key) : line.number number = 0 := by
  by_contra nonzero
  rcases ledger.present line mem nonzero with ⟨msg, inMsgs, equal⟩ | ⟨record, inExpunged, equal⟩
  · exact noMsg msg inMsgs (equal.trans same)
  · exact noExpunge record inExpunged (equal.trans same)

/-! ### The log -/

theorem restrict {fewer : List LogValue} (subset : fewer ⊆ lines) (rising : Rising number fewer) :
    Ledger number top trees fewer where
  issued := by
    refine ledger.issued.mono (numbered_subset ?_)
    exact append_subset.mpr
      ⟨subset_append_left _ _, fun line mem => mem_append_right _ (subset mem)⟩
  rising := rising
  msg msg mem state records line inLines := ledger.msg msg mem state records line (subset inLines)
  unpushed record mem state line inLines :=
    ledger.unpushed record mem state line (subset inLines)
  present line inLines := ledger.present line (subset inLines)

/-- A line is written. -/
theorem append {value : LogValue} (known : value.number number = 0 ∨
      (value.key, value.number number) ∈ numbered number (trees.values ++ lines))
    (above : ∀ line ∈ lines, line.key = value.key → line.number number ≤ value.number number)
    (msg : ∀ msg ∈ trees.msgs, msg.key = value.key → msg.state ≠ .expunged →
      (∀ record ∈ trees.expunged, record.key = msg.key → (expunge record).number number = 0) →
      value.number number ≤ (message msg).number number)
    (unpushed : ∀ record ∈ trees.expunged, record.key = value.key → record.state = .unpushed →
      value.number number ≤ (expunge record).number number)
    (present : value.number number ≠ 0 →
      (∃ msg ∈ trees.msgs, msg.key = value.key) ∨ ∃ record ∈ trees.expunged, record.key = value.key) :
    Ledger number top trees (lines ++ [value]) where
  issued := by
    have pairs : numbered number (trees.values ++ (lines ++ [value])) ⊆
        insert (value.key, value.number number) (numbered number (trees.values ++ lines)) := by
      rintro pair ⟨other, mem, rfl⟩
      rw [← append_assoc] at mem
      rcases mem_append.mp mem with old | last
      · exact Set.mem_insert_of_mem _ ⟨other, old, rfl⟩
      · rw [mem_singleton.mp last]
        exact Set.mem_insert _ _
    refine Issued.mono ?_ pairs
    rcases known with none | known
    · rw [none]
      exact ledger.issued.zero value.key
    · rw [Set.insert_eq_of_mem known]
      exact ledger.issued
  rising := by
    refine pairwise_append.mpr ⟨ledger.rising, pairwise_singleton _ _, ?_⟩
    intro first firstMem second secondMem
    rw [mem_singleton.mp secondMem]
    exact above first firstMem
  msg := by
    intro other mem state records line inLines same
    rcases mem_append.mp inLines with old | last
    · exact ledger.msg other mem state records line old same
    · rw [mem_singleton.mp last] at same ⊢
      exact msg other mem same.symm state records
  unpushed := by
    intro record mem state line inLines same
    rcases mem_append.mp inLines with old | last
    · exact ledger.unpushed record mem state line old same
    · rw [mem_singleton.mp last] at same ⊢
      exact unpushed record mem same.symm state
  present := by
    intro line inLines nonzero
    rcases mem_append.mp inLines with old | last
    · exact ledger.present line old nonzero
    · rw [mem_singleton.mp last] at nonzero ⊢
      exact present nonzero

/-- The line of a message in memory is written. -/
theorem appendMsg {msg : Msg} (sorted : Sorted Msg.key trees.msgs) (mem : msg ∈ trees.msgs)
    (state : msg.state ≠ .expunged) (records : ∀ record ∈ trees.expunged, record.key = msg.key →
      record.state = .pushed ∧ (expunge record).number number = 0) :
    Ledger number top trees (lines ++ [.message msg.logged]) := by
  have sameNumber : (message msg.logged).number number = (message msg).number number := by
    cases number <;> rfl
  refine ledger.append (.inr ⟨.message msg, ?_, Prod.ext rfl sameNumber⟩) ?_ ?_ ?_ ?_
  · exact mem_append_left _ (mem_values.mpr (.inl ⟨msg, mem, rfl⟩))
  · intro line inLines same
    rw [sameNumber]
    exact ledger.msg msg mem state (fun record inExpunged equal =>
      (records record inExpunged equal).2) line inLines same
  · intro other otherMem same _ _
    rw [sameNumber, sorted.eq_of_key otherMem mem same]
  · intro record inExpunged same unpushed
    rw [(records record inExpunged same).1] at unpushed
    cases unpushed
  · exact fun _ => .inl ⟨msg, mem, rfl⟩

/-- The line of an expunge in memory is written. -/
theorem appendExpunge {record : Expunge} (sorted : Sorted Expunge.key trees.expunged)
    (mem : record ∈ trees.expunged) (above : ∀ line ∈ lines, line.key = record.key →
      line.number number ≤ (expunge record).number number) :
    Ledger number top trees (lines ++ [.expunge record]) := by
  refine ledger.append (.inr ⟨.expunge record, ?_, rfl⟩) above ?_ ?_ ?_
  · exact mem_append_left _ (mem_values.mpr (.inr ⟨record, mem, rfl⟩))
  · intro msg _ same _ zero
    rw [zero record mem same.symm]
    exact Nat.zero_le _
  · intro other otherMem same _
    rw [sorted.eq_of_key otherMem mem same]
  · exact fun _ => .inr ⟨record, mem, rfl⟩

end

/-! ### The memory -/

variable {next : Trees} {after : Nat}

/-- The pairs after one more is in memory. -/
theorem issued_of_values {owner : MsgKey} {value : Nat}
    (issued : Issued after (insert (owner, value) (numbered number (trees.values ++ lines))))
    (values : ∀ other ∈ next.values,
      (other.key, other.number number) = (owner, value) ∨
        (other.key, other.number number) ∈ numbered number trees.values) :
    Issued after (numbered number (next.values ++ lines)) := by
  refine issued.mono ?_
  rintro pair ⟨other, mem, rfl⟩
  rcases mem_append.mp mem with inMemory | inLines
  · rcases values other inMemory with equal | ⟨old, oldMem, equal⟩
    · rw [equal]
      exact Set.mem_insert _ _
    · rw [equal]
      exact Set.mem_insert_of_mem _ ⟨old, mem_append_left _ oldMem, rfl⟩
  · exact Set.mem_insert_of_mem _ ⟨other, mem_append_right _ inLines, rfl⟩

section

variable (ledger : Ledger number top trees lines)

include ledger

/-- A message without a number is inserted for a key without a number. -/
theorem insertMsg {msg : Msg} (msgs : next.msgs = insert Msg.key msg trees.msgs)
    (expunged : next.expunged = trees.expunged) (zero : (message msg).number number = 0)
    (lineZero : ∀ line ∈ lines, line.key = msg.key → line.number number = 0) :
    Ledger number top next lines where
  issued := by
    refine issued_of_values (ledger.issued.zero msg.key) fun other mem => ?_
    rcases mem_values.mp mem with ⟨old, oldMem, rfl⟩ | ⟨record, recordMem, rfl⟩
    · rw [msgs] at oldMem
      rcases mem_insert.mp oldMem with rfl | oldMem
      · exact .inl (Prod.ext rfl zero)
      · exact .inr ⟨_, mem_values.mpr (.inl ⟨old, oldMem, rfl⟩), rfl⟩
    · rw [expunged] at recordMem
      exact .inr ⟨_, mem_values.mpr (.inr ⟨record, recordMem, rfl⟩), rfl⟩
  rising := ledger.rising
  msg := by
    intro other mem state records line inLines same
    rw [msgs] at mem
    rw [expunged] at records
    rcases mem_insert.mp mem with rfl | mem
    · rw [lineZero line inLines same]
      exact Nat.zero_le _
    · exact ledger.msg other mem state records line inLines same
  unpushed := by
    rw [expunged]
    exact ledger.unpushed
  present := by
    intro line inLines nonzero
    rcases ledger.present line inLines nonzero with ⟨old, oldMem, same⟩ | record
    · exact .inl ⟨old, msgs ▸ mem_insert.mpr (.inr oldMem), same⟩
    · exact .inr (expunged ▸ record)

/-- The messages with a key are changed in place: their number stays or is the next one. -/
theorem updateMsg {change : Msg → Msg}
    (msgs : next.msgs = update Msg.key key change trees.msgs)
    (expunged : next.expunged = trees.expunged)
    (sameKey : ∀ msg ∈ trees.msgs, msg.key = key → (change msg).key = key)
    (state : ∀ msg ∈ trees.msgs, msg.key = key → (change msg).state ≠ .expunged →
      msg.state ≠ .expunged) (numbers : (after = top ∧ ∀ msg ∈ trees.msgs, msg.key = key →
        (message (change msg)).number number = (message msg).number number) ∨
      (after = top + 1 ∧ ∀ msg ∈ trees.msgs, msg.key = key →
        (message (change msg)).number number = top + 1)) :
    Ledger number after next lines := by
  have notBelow : ∀ msg ∈ trees.msgs, msg.key = key →
      (message msg).number number ≤ (message (change msg)).number number := by
    intro msg mem same
    rcases numbers with ⟨-, equal⟩ | ⟨-, equal⟩
    · exact le_of_eq (equal msg mem same).symm
    · rw [equal msg mem same]
      exact Nat.le_succ_of_le (ledger.bound_msg mem)
  refine ⟨?_, ledger.rising, ?_, ?_, ?_⟩
  · rcases numbers with ⟨rfl, equal⟩ | ⟨rfl, equal⟩
    · refine ledger.issued.mono ?_
      rintro pair ⟨other, mem, rfl⟩
      rcases mem_append.mp mem with inMemory | inLines
      · rcases mem_values.mp inMemory with ⟨old, oldMem, rfl⟩ | ⟨record, recordMem, rfl⟩
        · rw [msgs] at oldMem
          rcases mem_update.mp oldMem with ⟨oldMem, -⟩ | ⟨msg, msgMem, same, rfl⟩
          · exact ⟨_, mem_append_left _ (mem_values.mpr (.inl ⟨old, oldMem, rfl⟩)), rfl⟩
          · refine ⟨.message msg,
              mem_append_left _ (mem_values.mpr (.inl ⟨msg, msgMem, rfl⟩)), ?_⟩
            rw [equal msg msgMem same]
            exact Prod.ext ((sameKey msg msgMem same).trans same.symm) rfl
        · rw [expunged] at recordMem
          exact ⟨_, mem_append_left _ (mem_values.mpr (.inr ⟨record, recordMem, rfl⟩)), rfl⟩
      · exact ⟨other, mem_append_right _ inLines, rfl⟩
    · refine issued_of_values (ledger.issued.next key) fun other mem => ?_
      rcases mem_values.mp mem with ⟨old, oldMem, rfl⟩ | ⟨record, recordMem, rfl⟩
      · rw [msgs] at oldMem
        rcases mem_update.mp oldMem with ⟨oldMem, -⟩ | ⟨msg, msgMem, same, rfl⟩
        · exact .inr ⟨_, mem_values.mpr (.inl ⟨old, oldMem, rfl⟩), rfl⟩
        · exact .inl (Prod.ext (sameKey msg msgMem same) (equal msg msgMem same))
      · rw [expunged] at recordMem
        exact .inr ⟨_, mem_values.mpr (.inr ⟨record, recordMem, rfl⟩), rfl⟩
  · intro other mem notExpunged records line inLines same
    rw [msgs] at mem
    rw [expunged] at records
    rcases mem_update.mp mem with ⟨mem, -⟩ | ⟨msg, msgMem, msgKey, rfl⟩
    · exact ledger.msg other mem notExpunged records line inLines same
    · have keyEq : (change msg).key = msg.key := (sameKey msg msgMem msgKey).trans msgKey.symm
      rw [keyEq] at records same
      exact le_trans (ledger.msg msg msgMem (state msg msgMem msgKey notExpunged) records line
        inLines same) (notBelow msg msgMem msgKey)
  · rw [expunged]
    exact ledger.unpushed
  · intro line inLines nonzero
    rcases ledger.present line inLines nonzero with ⟨old, oldMem, same⟩ | record
    · left
      by_cases isKey : old.key = key
      · refine ⟨change old, msgs ▸ mem_update.mpr (.inr ⟨old, oldMem, isKey, rfl⟩), ?_⟩
        exact (sameKey old oldMem isKey).trans (isKey.symm.trans same)
      · exact ⟨old, msgs ▸ mem_update.mpr (.inl ⟨oldMem, isKey⟩), same⟩
    · exact .inr (expunged ▸ record)

/-- An expunge is inserted, with no number, with the number of a message of its key, or with the
next number. -/
theorem insertExpunge {record : Expunge} (msgs : next.msgs = trees.msgs)
    (expunged : next.expunged = insert Expunge.key record trees.expunged)
    (issued : Issued after (insert (record.key, (expunge record).number number)
      (numbered number (trees.values ++ lines))))
    (unpushed : record.state = .unpushed → ∀ line ∈ lines, line.key = record.key →
      line.number number ≤ (expunge record).number number) :
    Ledger number after next lines where
  issued := by
    refine issued_of_values issued fun other mem => ?_
    rcases mem_values.mp mem with ⟨msg, msgMem, rfl⟩ | ⟨old, oldMem, rfl⟩
    · rw [msgs] at msgMem
      exact .inr ⟨_, mem_values.mpr (.inl ⟨msg, msgMem, rfl⟩), rfl⟩
    · rw [expunged] at oldMem
      rcases mem_insert.mp oldMem with rfl | oldMem
      · exact .inl rfl
      · exact .inr ⟨_, mem_values.mpr (.inr ⟨old, oldMem, rfl⟩), rfl⟩
  rising := ledger.rising
  msg := by
    intro msg mem state records
    rw [msgs] at mem
    refine ledger.msg msg mem state fun old oldMem => records old ?_
    rw [expunged]
    exact mem_insert.mpr (.inr oldMem)
  unpushed := by
    intro old mem state
    rw [expunged] at mem
    rcases mem_insert.mp mem with rfl | mem
    · exact unpushed state
    · exact ledger.unpushed old mem state
  present := by
    intro line inLines nonzero
    rcases ledger.present line inLines nonzero with msg | ⟨old, oldMem, same⟩
    · exact .inl (msgs ▸ msg)
    · exact .inr ⟨old, expunged ▸ mem_insert.mpr (.inr oldMem), same⟩

/-- The expunges with a key are marked as pushed. -/
theorem pushExpunge (msgs : next.msgs = trees.msgs)
    (expunged : next.expunged = update Expunge.key key
      (fun record => { record with state := .pushed }) trees.expunged) :
    Ledger number top next lines := by
  -- an expunge before and after differs in its state only
  have back : ∀ record ∈ next.expunged, ∃ old ∈ trees.expunged,
      old.key = record.key ∧ (expunge old).number number = (expunge record).number number ∧
        (record.state = .unpushed → old = record) := by
    intro record mem
    rw [expunged] at mem
    rcases mem_update.mp mem with ⟨mem, -⟩ | ⟨old, oldMem, -, rfl⟩
    · exact ⟨record, mem, rfl, rfl, fun _ => rfl⟩
    · refine ⟨old, oldMem, rfl, ?_, fun state => nomatch state⟩
      cases number <;> rfl
  have forth : ∀ old ∈ trees.expunged, ∃ record ∈ next.expunged, record.key = old.key ∧
      (expunge record).number number = (expunge old).number number := by
    intro old mem
    rw [expunged]
    by_cases same : old.key = key
    · refine ⟨_, mem_update.mpr (.inr ⟨old, mem, same, rfl⟩), rfl, ?_⟩
      cases number <;> rfl
    · exact ⟨old, mem_update.mpr (.inl ⟨mem, same⟩), rfl, rfl⟩
  refine ⟨?_, ledger.rising, ?_, ?_, ?_⟩
  · refine ledger.issued.mono ?_
    rintro pair ⟨other, mem, rfl⟩
    rcases mem_append.mp mem with inMemory | inLines
    · rcases mem_values.mp inMemory with ⟨msg, msgMem, rfl⟩ | ⟨record, recordMem, rfl⟩
      · rw [msgs] at msgMem
        exact ⟨_, mem_append_left _ (mem_values.mpr (.inl ⟨msg, msgMem, rfl⟩)), rfl⟩
      · obtain ⟨old, oldMem, sameKey, sameNumber, -⟩ := back record recordMem
        exact ⟨.expunge old, mem_append_left _ (mem_values.mpr (.inr ⟨old, oldMem, rfl⟩)),
          Prod.ext sameKey.symm sameNumber.symm⟩
    · exact ⟨other, mem_append_right _ inLines, rfl⟩
  · intro msg mem state records
    rw [msgs] at mem
    refine ledger.msg msg mem state fun old oldMem same => ?_
    obtain ⟨record, recordMem, sameKey, sameNumber⟩ := forth old oldMem
    rw [← sameNumber]
    exact records record recordMem (sameKey.trans same)
  · intro record mem state
    obtain ⟨old, oldMem, -, -, equal⟩ := back record mem
    rw [equal state] at oldMem
    exact ledger.unpushed record oldMem state
  · intro line inLines nonzero
    rcases ledger.present line inLines nonzero with msg | ⟨old, oldMem, same⟩
    · exact .inl (msgs ▸ msg)
    · obtain ⟨record, recordMem, sameKey, -⟩ := forth old oldMem
      exact .inr ⟨record, recordMem, sameKey.trans same⟩

/-- A message leaves the memory: its key has an expunge, or no number in the log. -/
theorem dropMsg (sorted : Sorted Msg.key trees.msgs)
    (msgs : next.msgs = erase Msg.key key trees.msgs) (expunged : next.expunged = trees.expunged)
    (record : ∃ record ∈ trees.expunged, record.key = key) : Ledger number top next lines where
  issued := by
    refine ledger.issued.mono (numbered_subset ?_)
    intro other mem
    rcases mem_append.mp mem with inMemory | inLines
    · rcases mem_values.mp inMemory with ⟨msg, msgMem, rfl⟩ | ⟨record, recordMem, rfl⟩
      · rw [msgs] at msgMem
        exact mem_append_left _ (mem_values.mpr (.inl ⟨msg, mem_of_mem_erase msgMem, rfl⟩))
      · rw [expunged] at recordMem
        exact mem_append_left _ (mem_values.mpr (.inr ⟨record, recordMem, rfl⟩))
    · exact mem_append_right _ inLines
  rising := ledger.rising
  msg := by
    intro msg mem state records
    rw [msgs] at mem
    rw [expunged] at records
    exact ledger.msg msg (mem_of_mem_erase mem) state records
  unpushed := by
    rw [expunged]
    exact ledger.unpushed
  present := by
    intro line inLines nonzero
    rcases ledger.present line inLines nonzero with ⟨old, oldMem, same⟩ | found
    · by_cases isKey : old.key = key
      · obtain ⟨found, foundMem, foundKey⟩ := record
        exact .inr ⟨found, expunged ▸ foundMem, foundKey.trans (isKey.symm.trans same)⟩
      · exact .inl ⟨old, msgs ▸ sorted.mem_erase.mpr ⟨oldMem, isKey⟩, same⟩
    · exact .inr (expunged ▸ found)

end

end Ledger

end Splintermail
