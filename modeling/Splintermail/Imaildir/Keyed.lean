/-
This file states what the log and the trees of a mailbox are at any time, and what
keeps it.

The log is sound: its values are valid and its modseqs never go back. In the trees
the state of a message goes with its numbers: a message that is not downloaded, or
not for this user, has neither a `uid_dn` nor a modseq, and a message that waits to be
removed has an expunge.
-/

import Splintermail.Imaildir.Ledger

namespace Splintermail

open Splintermail.Tree

/-! ### Sound logs -/

/-- What the log of a mailbox is at any time: valid values as `update_msg` accepts them, modseqs
that belong to one key each and never go back, explicit modseqs in increasing order. -/
structure SoundLog (cache : List LogEntry) : Prop where
  valid : ∀ value ∈ cacheValues cache, value.Valid
  plain : ∀ msg, .message msg ∈ cacheValues cache → msg.state ≠ .expunged ∧ msg.logged = msg
  owner : ∀ first ∈ cacheValues cache, ∀ second ∈ cacheValues cache,
    first.modseq ≠ 0 → first.modseq = second.modseq → first.key = second.key
  rising : Rising .modseq (cacheValues cache)
  explicit : ExplicitIncreasing cache

namespace SoundLog

variable {cache written : List LogEntry}

theorem nil : SoundLog [] where
  valid _ mem := absurd mem List.not_mem_nil
  plain _ mem := absurd mem List.not_mem_nil
  owner _ mem := absurd mem List.not_mem_nil
  rising := List.Pairwise.nil
  explicit := List.Pairwise.nil

theorem validLog (sound : SoundLog cache) : ValidLog cache where
  valid content mem := sound.valid content (mem_cacheValues.mpr mem)
  modseq first second firstMem secondMem :=
    sound.owner first (mem_cacheValues.mpr firstMem) second (mem_cacheValues.mpr secondMem)

end SoundLog

theorem cacheValues_append (first second : List LogEntry) :
    cacheValues (first ++ second) = cacheValues first ++ cacheValues second :=
  List.filterMap_append

theorem cacheValues_subset {part whole : List LogEntry} (subset : part ⊆ whole) :
    cacheValues part ⊆ cacheValues whole := fun _ mem =>
  mem_cacheValues.mpr (subset (mem_cacheValues.mp mem))

variable {cache written : List LogEntry}

/-- A compaction keeps only lines of the log, one for each key. -/
theorem compacted_subset (perm : written.Perm (collapse (keptEntries cache))) :
    written ⊆ cache := fun _ mem =>
  keptEntries_subset cache (lastEntry_mem (mem_collapse.mp (perm.mem_iff.mp mem))).1

theorem compacted_nodup (perm : written.Perm (collapse (keptEntries cache))) :
    (written.map LogEntry.logKey).Nodup :=
  (perm.map LogEntry.logKey).nodup_iff.mpr (nodup_collapse _)

theorem rising_of_nodup {number : Number} (distinct : (cache.map LogEntry.logKey).Nodup) :
    Rising number (cacheValues cache) := by
  refine List.pairwise_filterMap.mpr ((List.pairwise_map.mp distinct).imp ?_)
  intro first second differs value content other otherContent same
  cases first with
  | value firstValue =>
    cases second with
    | value secondValue =>
      cases content
      cases otherContent
      exact absurd (congrArg LogKey.msg same) differs
    | uidvlds up dn | himodseqUp himodseq | modseqDn modseq => cases otherContent
  | uidvlds up dn | himodseqUp himodseq | modseqDn modseq => cases content

theorem explicitIncreasing_of_nodup (distinct : (cache.map LogEntry.logKey).Nodup) :
    ExplicitIncreasing cache := by
  refine (List.pairwise_map.mp distinct).imp ?_
  intro first second differs before after isFirst isSecond
  rw [isFirst, isSecond] at differs
  exact absurd rfl differs

theorem SoundLog.compacted (sound : SoundLog cache)
    (perm : written.Perm (collapse (keptEntries cache))) : SoundLog written := by
  have subset := cacheValues_subset (compacted_subset perm)
  exact {
    valid := fun value mem => sound.valid value (subset mem)
    plain := fun msg mem => sound.plain msg (subset mem)
    owner := fun first firstMem second secondMem =>
      sound.owner first (subset firstMem) second (subset secondMem)
    rising := rising_of_nodup (compacted_nodup perm)
    explicit := explicitIncreasing_of_nodup (compacted_nodup perm) }

/-! ### Keyed trees -/

/-- The states in which a message has a `uid_dn` and a modseq. -/
def MsgState.numbered : MsgState → Bool
  | .filled | .expunged => true
  | .unfilled | .not4me => false

/-- The trees are sorted, the states of messages and expunges go with their numbers, a message
that waits for its finalizer has an expunge, and no other message has one with a `uid_dn`. -/
structure Trees.Keyed (trees : Trees) : Prop where
  msgsSorted : Sorted Msg.key trees.msgs
  expungedSorted : Sorted Expunge.key trees.expunged
  msg : ∀ msg ∈ trees.msgs,
    (msg.modseq ≠ 0 ↔ msg.state.numbered = true) ∧ (msg.uidDn ≠ 0 ↔ msg.state.numbered = true)
  expunge : ∀ record ∈ trees.expunged, (LogValue.expunge record).Valid
  expunged : ∀ msg ∈ trees.msgs, msg.state = .expunged →
    ∃ record ∈ trees.expunged, record.key = msg.key
  apart : ∀ msg ∈ trees.msgs, msg.state ≠ .expunged →
    ∀ record ∈ trees.expunged, record.key = msg.key → record.uidDn = 0

namespace Trees.Keyed

variable {trees next : Trees}

section

variable (keyed : trees.Keyed)

include keyed

theorem insertMsg {msg : Msg} (msgs : next.msgs = insert Msg.key msg trees.msgs)
    (expunged : next.expunged = trees.expunged) (fresh : ∀ other ∈ trees.msgs, other.key ≠ msg.key)
    (unnumbered : msg.state.numbered = false) (uidDn : msg.uidDn = 0) (modseq : msg.modseq = 0)
    (apart : ∀ record ∈ trees.expunged, record.key = msg.key → record.uidDn = 0) : next.Keyed where
  msgsSorted := msgs ▸ keyed.msgsSorted.insert msg fresh
  expungedSorted := expunged ▸ keyed.expungedSorted
  msg other mem := by
    rw [msgs] at mem
    rcases mem_insert.mp mem with rfl | mem
    · rw [uidDn, modseq, unnumbered]
      decide
    · exact keyed.msg other mem
  expunge := expunged ▸ keyed.expunge
  expunged other mem state := by
    rw [msgs] at mem
    rw [expunged]
    rcases mem_insert.mp mem with rfl | mem
    · rw [state] at unnumbered
      cases unnumbered
    · exact keyed.expunged other mem state
  apart other mem state := by
    rw [msgs] at mem
    rw [expunged]
    rcases mem_insert.mp mem with rfl | mem
    · exact apart
    · exact keyed.apart other mem state

/-- A message is changed in place. -/
theorem updateMsg {key : MsgKey} {change : Msg → Msg}
    (msgs : next.msgs = update Msg.key key change trees.msgs)
    (expunged : next.expunged = trees.expunged)
    (sameKey : ∀ msg ∈ trees.msgs, msg.key = key → (change msg).key = key)
    (numbers : ∀ msg ∈ trees.msgs, msg.key = key →
      ((change msg).modseq ≠ 0 ↔ (change msg).state.numbered = true) ∧
        ((change msg).uidDn ≠ 0 ↔ (change msg).state.numbered = true))
    (states : ∀ msg ∈ trees.msgs, msg.key = key →
      ((change msg).state = .expunged ↔ msg.state = .expunged)) : next.Keyed where
  msgsSorted := msgs ▸ keyed.msgsSorted.update key change sameKey
  expungedSorted := expunged ▸ keyed.expungedSorted
  msg msg mem := by
    rw [msgs] at mem
    rcases mem_update.mp mem with ⟨mem, -⟩ | ⟨old, oldMem, same, rfl⟩
    · exact keyed.msg msg mem
    · exact numbers old oldMem same
  expunge := expunged ▸ keyed.expunge
  expunged msg mem state := by
    rw [msgs] at mem
    rw [expunged]
    rcases mem_update.mp mem with ⟨mem, -⟩ | ⟨old, oldMem, same, rfl⟩
    · exact keyed.expunged msg mem state
    · rw [sameKey old oldMem same, ← same]
      exact keyed.expunged old oldMem ((states old oldMem same).mp state)
  apart msg mem state := by
    rw [msgs] at mem
    rw [expunged]
    rcases mem_update.mp mem with ⟨mem, -⟩ | ⟨old, oldMem, same, rfl⟩
    · exact keyed.apart msg mem state
    · rw [sameKey old oldMem same, ← same]
      exact keyed.apart old oldMem fun isExpunged => state ((states old oldMem same).mpr isExpunged)

theorem dropMsg {key : MsgKey} (msgs : next.msgs = erase Msg.key key trees.msgs)
    (expunged : next.expunged = trees.expunged) : next.Keyed where
  msgsSorted := msgs ▸ keyed.msgsSorted.erase key
  expungedSorted := expunged ▸ keyed.expungedSorted
  msg msg mem := keyed.msg msg (mem_of_mem_erase (msgs ▸ mem))
  expunge := expunged ▸ keyed.expunge
  expunged msg mem := expunged ▸ keyed.expunged msg (mem_of_mem_erase (msgs ▸ mem))
  apart msg mem := expunged ▸ keyed.apart msg (mem_of_mem_erase (msgs ▸ mem))

/-- An expunge is inserted while its message waits for the finalizer, has no numbers, or is not
there. -/
theorem insertExpunge {record : Expunge} (msgs : next.msgs = trees.msgs)
    (expunged : next.expunged = insert Expunge.key record trees.expunged)
    (fresh : ∀ other ∈ trees.expunged, other.key ≠ record.key)
    (valid : (LogValue.expunge record).Valid)
    (apart : ∀ msg ∈ trees.msgs, msg.key = record.key → msg.state ≠ .expunged → record.uidDn = 0) :
    next.Keyed where
  msgsSorted := msgs ▸ keyed.msgsSorted
  expungedSorted := expunged ▸ keyed.expungedSorted.insert record fresh
  msg := msgs ▸ keyed.msg
  expunge other mem := by
    rw [expunged] at mem
    rcases mem_insert.mp mem with rfl | mem
    · exact valid
    · exact keyed.expunge other mem
  expunged msg mem state := by
    rw [msgs] at mem
    obtain ⟨other, otherMem, same⟩ := keyed.expunged msg mem state
    exact ⟨other, expunged ▸ mem_insert.mpr (Or.inr otherMem), same⟩
  apart msg mem state other otherMem same := by
    rw [msgs] at mem
    rw [expunged] at otherMem
    rcases mem_insert.mp otherMem with rfl | otherMem
    · exact apart msg mem same.symm state
    · exact keyed.apart msg mem state other otherMem same

theorem pushExpunge {key : MsgKey} (msgs : next.msgs = trees.msgs)
    (expunged : next.expunged = update Expunge.key key
      (fun record => { record with state := .pushed }) trees.expunged) : next.Keyed where
  msgsSorted := msgs ▸ keyed.msgsSorted
  expungedSorted := expunged ▸ keyed.expungedSorted.update key _ fun _ _ same => same
  msg := msgs ▸ keyed.msg
  expunge record mem := by
    rw [expunged] at mem
    rcases mem_update.mp mem with ⟨mem, -⟩ | ⟨old, oldMem, -, rfl⟩
    · exact keyed.expunge record mem
    · exact ⟨(keyed.expunge old oldMem).1, fun _ => rfl⟩
  expunged msg mem state := by
    rw [msgs] at mem
    obtain ⟨old, oldMem, same⟩ := keyed.expunged msg mem state
    rw [expunged]
    by_cases isKey : old.key = key
    · exact ⟨_, mem_update.mpr (Or.inr ⟨old, oldMem, isKey, rfl⟩), same⟩
    · exact ⟨old, mem_update.mpr (Or.inl ⟨oldMem, isKey⟩), same⟩
  apart msg mem state record recordMem same := by
    rw [msgs] at mem
    rw [expunged] at recordMem
    rcases mem_update.mp recordMem with ⟨recordMem, -⟩ | ⟨old, oldMem, -, rfl⟩
    · exact keyed.apart msg mem state record recordMem same
    · exact keyed.apart msg mem state old oldMem same

theorem expireMsg {msg : Msg} (mem : msg ∈ trees.msgs) (filled : msg.state = .filled)
    (msgs : next.msgs = update Msg.key msg.key (fun msg => { msg with state := .expunged })
      trees.msgs) (expungedSorted : Sorted Expunge.key next.expunged)
    (valid : ∀ record ∈ next.expunged, (LogValue.expunge record).Valid)
    (expunged : ∀ record, record.key ≠ msg.key → (record ∈ next.expunged ↔ record ∈ trees.expunged))
    (has : ∃ record ∈ next.expunged, record.key = msg.key) : next.Keyed where
  msgsSorted := msgs ▸ keyed.msgsSorted.update msg.key _ fun _ _ same => same
  expungedSorted := expungedSorted
  msg other otherMem := by
    rw [msgs] at otherMem
    rcases mem_update.mp otherMem with ⟨otherMem, -⟩ | ⟨old, oldMem, same, rfl⟩
    · exact keyed.msg other otherMem
    · rw [keyed.msgsSorted.eq_of_key oldMem mem same]
      have numbers := keyed.msg msg mem
      rw [filled] at numbers
      exact numbers
  expunge := valid
  expunged other otherMem state := by
    rw [msgs] at otherMem
    rcases mem_update.mp otherMem with ⟨otherMem, differs⟩ | ⟨old, oldMem, same, rfl⟩
    · obtain ⟨record, recordMem, same⟩ := keyed.expunged other otherMem state
      exact ⟨record, (expunged record (same ▸ differs)).mpr recordMem, same⟩
    · obtain ⟨record, recordMem, equal⟩ := has
      exact ⟨record, recordMem, equal.trans same.symm⟩
  apart other otherMem state record recordMem same := by
    rw [msgs] at otherMem
    rcases mem_update.mp otherMem with ⟨otherMem, differs⟩ | ⟨old, oldMem, -, rfl⟩
    · exact keyed.apart other otherMem state record
        ((expunged record (same ▸ differs)).mp recordMem) same
    · exact absurd rfl state

end

end Trees.Keyed

end Splintermail
