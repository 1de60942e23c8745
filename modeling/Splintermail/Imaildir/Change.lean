/-
This file says what the operations of an `imaildir_t` do to a box: one change after
another, each of which keeps the memory, the log and the connections in step.

What is asked of a mailbox is proved once for each change. Sound boxes are those whose
log and trees are sound, whose log remembers the highest modseq of every key, and
whose connections hold expunge updates only for messages that wait to be removed. All
changes keep a box sound, and leave only sound logs on the disk at any point.
-/

import Mathlib.Logic.Relation
import Splintermail.Imaildir.Custody
import Splintermail.Imaildir.Keyed
import Splintermail.Imaildir.Maildir

namespace Splintermail

open List Splintermail.Tree

/-- A message is changed in place without a change of its numbers: at most it gets another state
without numbers. -/
structure Msg.Edits (old new : Msg) : Prop where
  key : new.key = old.key
  uidDn : new.uidDn = old.uidDn
  modseq : new.modseq = old.modseq
  numbered : new.state.numbered = old.state.numbered
  expunged : new.state = .expunged ↔ old.state = .expunged
  filed : old.file.isSome = true → new.file.isSome = true

namespace Box

variable {host : Host} {box next : Box}

/-! ### Writing a line -/

/-- What writing a line to the log does. -/
structure Appended (box : Box) (entry : LogEntry) (given : List Assignment) (next : Box) :
    Prop where
  store : ∃ lines updates, next.store = { box.store with lines, updates }
  dns : next.dns = box.dns
  assigned : next.disk.assigned = box.disk.assigned ++ given
  invalid : next.disk.invalid = box.disk.invalid
  cache : next.disk.cache = box.disk.cache ++ [entry] ∨
    next.disk.cache.Perm (collapse (keptEntries (box.disk.cache ++ [entry])))
  written : ∃ disk ∈ next.trail, disk.cache = box.disk.cache ++ [entry]
  trail : ∀ disk ∈ next.trail, disk ∈ box.trail ∨ disk = next.disk ∨
    (disk.cache = box.disk.cache ++ [entry] ∧ disk.assigned = box.disk.assigned ++ given ∧
      disk.invalid = box.disk.invalid)

theorem append_spec (host : Host) (box : Box) (entry : LogEntry) (assigned : List Assignment) :
    Appended box entry assigned (box.append host entry assigned) := by
  unfold append maybeCompact
  dsimp only [write]
  split
  · refine ⟨⟨_, _, rfl⟩, rfl, rfl, rfl, .inr (host.order.perm _ _), ?_, fun disk mem => ?_⟩
    · exact ⟨_, mem_append_left _ (mem_append_right _ (mem_singleton_self _)), rfl⟩
    simp only [mem_append, mem_singleton] at mem
    rcases mem with (old | written) | compacted
    · exact .inl old
    · rw [written]
      exact .inr (.inr ⟨rfl, rfl, rfl⟩)
    · exact .inr (.inl compacted)
  · refine ⟨⟨_, _, rfl⟩, rfl, rfl, rfl, .inl rfl, ?_, fun disk mem => ?_⟩
    · exact ⟨_, mem_append_right _ (mem_singleton_self _), rfl⟩
    simp only [mem_append, mem_singleton] at mem
    rcases mem with old | written
    · exact .inl old
    · exact .inr (.inl written)

/-! A line is written from the counters of the log and the disk only, so that the memory may be
changed before or after it. -/

section Commute

variable (host : Host) (box : Box) (entry : LogEntry) (assigned : List Assignment)

theorem append_insertMsg (msg : Msg) :
    (box.append host entry assigned).insertMsg msg = (box.insertMsg msg).append host entry assigned := by
  unfold append maybeCompact
  dsimp only [write, insertMsg]
  split <;> rfl

theorem append_changeMsg (key : MsgKey) (change : Msg → Msg) :
    (box.append host entry assigned).changeMsg key change =
      (box.changeMsg key change).append host entry assigned := by
  unfold append maybeCompact
  dsimp only [write, changeMsg]
  split <;> rfl

theorem append_insertExpunge (record : Expunge) :
    (box.append host entry assigned).insertExpunge record =
      (box.insertExpunge record).append host entry assigned := by
  unfold append maybeCompact
  dsimp only [write, insertExpunge]
  split <;> rfl

theorem append_dropMsg (msg : Msg) :
    (box.append host entry assigned).dropMsg msg = (box.dropMsg msg).append host entry assigned := by
  unfold append maybeCompact
  dsimp only [write, dropMsg]
  split <;> rfl

end Commute

namespace Appended

variable {entry : LogEntry} {assigned : List Assignment}

section

variable (appended : Appended box entry assigned next)

include appended

theorem trees : next.store.toTrees = box.store.toTrees := by
  obtain ⟨lines, updates, equal⟩ := appended.store
  rw [equal]

theorem himodseqDn : next.store.himodseqDn = box.store.himodseqDn := by
  obtain ⟨lines, updates, equal⟩ := appended.store
  rw [equal]

theorem hiUidDn : next.store.hiUidDn = box.store.hiUidDn := by
  obtain ⟨lines, updates, equal⟩ := appended.store
  rw [equal]

theorem hiUidLocal : next.store.hiUidLocal = box.store.hiUidLocal := by
  obtain ⟨lines, updates, equal⟩ := appended.store
  rw [equal]

theorem cache_subset : next.disk.cache ⊆ box.disk.cache ++ [entry] := by
  rcases appended.cache with equal | perm
  · rw [equal]
    exact List.Subset.refl _
  · exact compacted_subset perm

/-- The logs that are on disk while a line is written. -/
theorem soundLogs (sound : SoundLog (box.disk.cache ++ [entry]))
    (trail : ∀ disk ∈ box.trail, SoundLog disk.cache) :
    SoundLog next.disk.cache ∧ ∀ disk ∈ next.trail, SoundLog disk.cache := by
  have here : SoundLog next.disk.cache := by
    rcases appended.cache with equal | perm
    · rw [equal]
      exact sound
    · exact sound.compacted perm
  refine ⟨here, fun disk mem => ?_⟩
  rcases appended.trail disk mem with old | now | ⟨written, -⟩
  · exact trail disk old
  · rw [now]
    exact here
  · rw [written]
    exact sound

theorem ledger {number : Number} {top : Nat} {trees : Trees}
    (ledger : Ledger number top trees (cacheValues (box.disk.cache ++ [entry]))) :
    Ledger number top trees (cacheValues next.disk.cache) := by
  rcases appended.cache with equal | perm
  · rw [equal]
    exact ledger
  · exact ledger.restrict (cacheValues_subset (compacted_subset perm))
      (rising_of_nodup (compacted_nodup perm))

end

end Appended

/-! ### Sound boxes -/

theorem holdsExpunge_iff {key : MsgKey} {dn : Dn} :
    holdsExpunge key dn = true ↔ ∃ record, .expunge record ∈ dn.held ∧ record.key = key := by
  unfold holdsExpunge
  rw [any_eq_true]
  constructor
  · rintro ⟨update, mem, equal⟩
    cases update with
    | expunge record =>
      exact ⟨record, mem, Option.some.inj (of_decide_eq_true equal)⟩
    | new view | flags view | sync resp => cases of_decide_eq_true equal
  · rintro ⟨record, mem, rfl⟩
    exact ⟨.expunge record, mem, decide_eq_true rfl⟩

/-- A message with the key is there, and waits for its finalizer. -/
def Waits (box : Box) (key : MsgKey) : Prop :=
  ∃ msg ∈ box.store.msgs, msg.key = key ∧ msg.state = .expunged

theorem mem_held_update {dn : Dn} {update : Update} {record : Expunge} :
    .expunge record ∈ (dnImaildirUpdate dn update).held ↔
      .expunge record ∈ dn.held ∨ .expunge record = update := by
  have gathered : (dnImaildirUpdate dn update).gathered = dn.gathered := by
    cases update with
    | sync resp =>
      have woken : (dnImaildirUpdate dn (.sync resp)).command = dn.command.map Command.wake := rfl
      unfold Dn.gathered
      rw [woken]
      cases dn.command with
      | none => rfl
      | some command => cases command <;> rfl
    | new view | flags view | expunge record => rfl
  have pending : (dnImaildirUpdate dn update).pending = dn.pending ++ [update] := by
    cases update <;> rfl
  unfold Dn.held
  rw [gathered, pending]
  simp only [mem_append, mem_singleton]
  tauto

theorem waits_update {key target : MsgKey} {change : Msg → Msg} {msg : Msg}
    (mem : msg ∈ box.store.msgs) (same : msg.key = target) (state : msg.state = .expunged)
    (sameKey : ∀ msg ∈ box.store.msgs, msg.key = key → (change msg).key = key)
    (stays : msg.key = key → (change msg).state = .expunged) :
    (box.changeMsg key change).Waits target := by
  by_cases isKey : msg.key = key
  · refine ⟨change msg, mem_update.mpr (.inr ⟨msg, mem, isKey, rfl⟩), ?_, stays isKey⟩
    rw [sameKey msg mem isKey, ← isKey, same]
  · exact ⟨msg, mem_update.mpr (.inl ⟨mem, isKey⟩), same, state⟩

/-- The state of a mailbox at any time. -/
structure Sound (box : Box) : Prop where
  keyed : box.store.toTrees.Keyed
  ledger : Ledger .modseq box.store.himodseqDn box.store.toTrees (cacheValues box.disk.cache)
  log : SoundLog box.disk.cache
  explicit : ∀ modseq, .modseqDn modseq ∈ box.disk.cache → modseq ≤ box.store.himodseqDn
  held : ∀ dn ∈ box.dns, ∀ record, .expunge record ∈ dn.held → box.Waits record.key
  trail : ∀ disk ∈ box.trail, SoundLog disk.cache

namespace Sound

variable {assigned : List Assignment}

section

variable (sound : Sound box)

include sound

/-- A line with a value is written. -/
theorem appendValue {value : LogValue} (appended : Appended box (.value value) assigned next)
    (valid : value.Valid)
    (plain : ∀ msg, value = .message msg → msg.state ≠ .expunged ∧ msg.logged = msg)
    (ledger : Ledger .modseq box.store.himodseqDn box.store.toTrees
      (cacheValues box.disk.cache ++ [value])) : Sound next := by
  have values : cacheValues (box.disk.cache ++ [.value value]) = cacheValues box.disk.cache ++ [value] :=
    cacheValues_append _ _
  have soundLog : SoundLog (box.disk.cache ++ [.value value]) := by
    refine ⟨?_, ?_, ?_, values ▸ ledger.rising, ?_⟩
    · rw [values]
      intro other mem
      rcases mem_append.mp mem with old | last
      · exact sound.log.valid other old
      · rw [mem_singleton.mp last]
        exact valid
    · rw [values]
      intro msg mem
      rcases mem_append.mp mem with old | last
      · exact sound.log.plain msg old
      · exact plain msg (mem_singleton.mp last).symm
    · rw [values]
      intro first firstMem second secondMem
      exact ledger.issued.owner _ ⟨first, mem_append_right _ firstMem, rfl⟩ _
        ⟨second, mem_append_right _ secondMem, rfl⟩
    · refine pairwise_append.mpr ⟨sound.log.explicit, pairwise_singleton _ _, ?_⟩
      intro first _ second secondMem before after _ isSecond
      rw [mem_singleton.mp secondMem] at isSecond
      cases isSecond
  obtain ⟨log, trail⟩ := appended.soundLogs soundLog sound.trail
  refine ⟨appended.trees ▸ sound.keyed, ?_, log, ?_, ?_, trail⟩
  · rw [appended.trees, appended.himodseqDn]
    exact appended.ledger (values ▸ ledger)
  · intro modseq mem
    rw [appended.himodseqDn]
    rcases mem_append.mp (appended.cache_subset mem) with old | last
    · exact sound.explicit modseq old
    · cases mem_singleton.mp last
  · unfold Waits
    rw [appended.dns, appended.trees]
    exact sound.held

/-- A line without a value is written. An explicit modseq is the last one that was given out. -/
theorem appendNote {entry : LogEntry} (appended : Appended box entry assigned next)
    (noValue : entry.content? = none)
    (explicit : ∀ modseq, entry = .modseqDn modseq → modseq = box.store.himodseqDn) :
    Sound next := by
  have values : cacheValues (box.disk.cache ++ [entry]) = cacheValues box.disk.cache := by
    rw [cacheValues_append]
    have nothing : cacheValues [entry] = [] :=
      filterMap_eq_nil_iff.mpr fun other mem => by rwa [mem_singleton.mp mem]
    rw [nothing, append_nil]
  have soundLog : SoundLog (box.disk.cache ++ [entry]) := by
    refine ⟨values ▸ sound.log.valid, values ▸ sound.log.plain, values ▸ sound.log.owner,
      values ▸ sound.log.rising, ?_⟩
    refine pairwise_append.mpr ⟨sound.log.explicit, pairwise_singleton _ _, ?_⟩
    intro first firstMem second secondMem before after isFirst isSecond
    rw [mem_singleton.mp secondMem] at isSecond
    rw [explicit after isSecond]
    exact sound.explicit before (isFirst ▸ firstMem)
  obtain ⟨log, trail⟩ := appended.soundLogs soundLog sound.trail
  refine ⟨appended.trees ▸ sound.keyed, ?_, log, ?_, ?_, trail⟩
  · rw [appended.trees, appended.himodseqDn]
    exact appended.ledger (values ▸ sound.ledger)
  · intro modseq mem
    rw [appended.himodseqDn]
    rcases mem_append.mp (appended.cache_subset mem) with old | last
    · exact sound.explicit modseq old
    · exact le_of_eq (explicit modseq (mem_singleton.mp last).symm)
  · unfold Waits
    rw [appended.dns, appended.trees]
    exact sound.held

/-- The memory changes: the trees stay keyed and the ledger is kept. -/
theorem memory (disk : next.disk = box.disk) (trail : next.trail = box.trail)
    (keyed : next.store.toTrees.Keyed)
    (ledger : Ledger .modseq next.store.himodseqDn next.store.toTrees (cacheValues box.disk.cache))
    (himodseqDn : box.store.himodseqDn ≤ next.store.himodseqDn)
    (held : ∀ dn ∈ next.dns, ∀ record, .expunge record ∈ dn.held → next.Waits record.key) :
    Sound next where
  keyed := keyed
  ledger := disk ▸ ledger
  log := disk ▸ sound.log
  explicit modseq mem := le_trans (sound.explicit modseq (disk ▸ mem)) himodseqDn
  held := held
  trail := trail ▸ sound.trail

theorem write {disk : Disk} (cache : disk.cache = box.disk.cache) : Sound (box.write disk) where
  keyed := sound.keyed
  ledger := by
    show Ledger .modseq _ _ (cacheValues disk.cache)
    rw [cache]
    exact sound.ledger
  log := by
    show SoundLog disk.cache
    rw [cache]
    exact sound.log
  explicit := by
    show ∀ modseq, .modseqDn modseq ∈ disk.cache → _
    rw [cache]
    exact sound.explicit
  held := sound.held
  trail other mem := by
    rcases mem_append.mp mem with old | last
    · exact sound.trail other old
    · rw [mem_singleton.mp last, cache]
      exact sound.log

theorem connections {dns : List Dn} (held : ∀ dn ∈ dns, ∀ record, .expunge record ∈ dn.held →
      ∃ old ∈ box.dns, .expunge record ∈ old.held) : Sound { box with dns } where
  keyed := sound.keyed
  ledger := sound.ledger
  log := sound.log
  explicit := sound.explicit
  held dn mem record recordMem := by
    obtain ⟨old, oldMem, oldHeld⟩ := held dn mem record recordMem
    exact sound.held old oldMem record oldHeld
  trail := sound.trail

/-- An update is passed on. -/
theorem distribute {update : Update}
    (waits : ∀ record, update = .expunge record → box.Waits record.key) :
    Sound (box.distribute update) where
  keyed := sound.keyed
  ledger := sound.ledger
  log := sound.log
  explicit := sound.explicit
  held dn mem record recordMem := by
    obtain ⟨old, oldMem, rfl⟩ := mem_map.mp mem
    rcases mem_held_update.mp recordMem with inOld | isNew
    · exact sound.held old oldMem record inOld
    · exact waits record isNew.symm
  trail := sound.trail

/-! ### Messages -/

/-- The message with a key is changed, and only messages without numbers change their state. -/
theorem changeMsg {key : MsgKey} {change : Msg → Msg}
    (edits : ∀ msg ∈ box.store.msgs, msg.key = key → msg.Edits (change msg)) :
    Sound (box.changeMsg key change) := by
  have sameKey : ∀ msg ∈ box.store.msgs, msg.key = key → (change msg).key = key :=
    fun msg mem same => (edits msg mem same).key.trans same
  refine sound.memory rfl rfl ?_ ?_ le_rfl ?_
  · refine sound.keyed.updateMsg rfl rfl sameKey (fun msg mem same => ?_) fun msg mem same => ?_
    · have edited := edits msg mem same
      rw [edited.modseq, edited.uidDn, edited.numbered]
      exact sound.keyed.msg msg mem
    · exact (edits msg mem same).expunged
  · refine sound.ledger.updateMsg rfl rfl sameKey (fun msg mem same state isExpunged => ?_)
      (.inl ⟨rfl, fun msg mem same => (edits msg mem same).modseq⟩)
    exact state ((edits msg mem same).expunged.mpr isExpunged)
  · intro dn mem record recordMem
    obtain ⟨msg, msgMem, msgKey, state⟩ := sound.held dn mem record recordMem
    exact waits_update msgMem msgKey state sameKey fun same => (edits msg msgMem same).expunged.mpr state

end

variable {msg : Msg} {record : Expunge}

section

variable (sound : Sound box)

include sound

theorem pushed_of_apart (mem : msg ∈ box.store.msgs) (state : msg.state ≠ .expunged)
    (recordMem : record ∈ box.store.expunged) (same : record.key = msg.key) :
    record.state = .pushed ∧ record.modseq = 0 := by
  have uidDn := sound.keyed.apart msg mem state record recordMem same
  obtain ⟨numbers, pushed⟩ := sound.keyed.expunge record recordMem
  exact ⟨pushed uidDn, numbers.mpr uidDn⟩

theorem appendMsg (mem : msg ∈ box.store.msgs) (state : msg.state ≠ .expunged)
    (appended : Appended box (.value (.message msg.logged)) assigned next) : Sound next := by
  have numbers := sound.keyed.msg msg mem
  have filled : msg.state.numbered = true ↔ msg.state = .filled := by
    cases equal : msg.state with
    | expunged => exact absurd equal state
    | unfilled | filled | not4me => decide
  refine sound.appendValue appended ⟨numbers.1.trans filled, numbers.2.trans filled⟩ ?_ ?_
  · intro other equal
    cases equal
    exact ⟨state, rfl⟩
  · exact sound.ledger.appendMsg sound.keyed.msgsSorted mem state fun record recordMem same =>
      sound.pushed_of_apart mem state recordMem same

theorem insertMsg {key : MsgKey} (internaldate : ImapTime) (flags : MsgFlags)
    (fresh : box.findMsg key = none)
    (unseen : ∀ line ∈ cacheValues box.disk.cache, line.key = key → line.uidDn = 0)
    (apart : ∀ record ∈ box.store.expunged, record.key = key → record.uidDn = 0) :
    Sound (box.insertMsg (.unfilled key internaldate flags)) := by
  refine sound.memory rfl rfl ?_ ?_ le_rfl ?_
  · exact sound.keyed.insertMsg rfl rfl (find_eq_none.mp fresh) rfl rfl rfl apart
  · refine sound.ledger.insertMsg rfl rfl rfl fun line mem same => ?_
    exact (sound.log.valid line mem).modseq_eq_zero.mpr (unseen line mem same)
  · intro dn mem record recordMem
    obtain ⟨msg, msgMem, facts⟩ := sound.held dn mem record recordMem
    exact ⟨msg, mem_insert.mpr (.inr msgMem), facts⟩

/-- Messages with numbers are given the next ones. -/
theorem renumber (mem : msg ∈ box.store.msgs) (change : Msg → Msg)
    (sameKey : (change msg).key = msg.key) (modseq : (change msg).modseq = box.store.himodseqDn + 1)
    (numbered : (change msg).state.numbered = true) (uidDn : (change msg).uidDn ≠ 0)
    (state : (change msg).state = .expunged ↔ msg.state = .expunged) (disk : next.disk = box.disk)
    (trail : next.trail = box.trail) (dns : next.dns = box.dns)
    (himodseqDn : next.store.himodseqDn = box.store.himodseqDn + 1)
    (msgs : next.store.msgs = update Msg.key msg.key change box.store.msgs)
    (expunged : next.store.expunged = box.store.expunged) : Sound next := by
  have only : ∀ other ∈ box.store.msgs, other.key = msg.key → other = msg := fun other otherMem same =>
    sound.keyed.msgsSorted.eq_of_key otherMem mem same
  have keys : ∀ other ∈ box.store.msgs, other.key = msg.key → (change other).key = msg.key :=
    fun other otherMem same => by rw [only other otherMem same, sameKey]
  refine sound.memory disk trail ?_ ?_ (himodseqDn ▸ Nat.le_succ _) ?_
  · refine sound.keyed.updateMsg msgs expunged keys (fun other otherMem same => ?_)
      fun other otherMem same => ?_
    · rw [only other otherMem same, modseq]
      exact ⟨⟨fun _ => numbered, fun _ => Nat.succ_ne_zero _⟩, fun _ => numbered, fun _ => uidDn⟩
    · rw [only other otherMem same]
      exact state
  · refine sound.ledger.updateMsg msgs expunged keys (fun other otherMem same => ?_)
      (.inr ⟨himodseqDn, fun other otherMem same => ?_⟩)
    · rw [only other otherMem same]
      exact fun notExpunged isExpunged => notExpunged (state.mpr isExpunged)
    · rw [only other otherMem same]
      exact modseq
  · intro dn inDns record recordMem
    rw [dns] at inDns
    obtain ⟨other, otherMem, same, isExpunged⟩ := sound.held dn inDns record recordMem
    unfold Waits
    rw [msgs]
    exact waits_update otherMem same isExpunged keys fun isMsg => by
      rw [only other otherMem isMsg] at isExpunged ⊢
      exact state.mpr isExpunged

theorem finalizeMsg (mem : msg ∈ box.store.msgs) (unnumbered : msg.state.numbered = false) :
    Sound (box.finalizeMsg msg.key) := by
  refine sound.renumber mem (fun msg => { msg with
    uidDn := box.store.hiUidDn + 1, modseq := box.store.himodseqDn + 1, state := .filled }) rfl rfl rfl (Nat.succ_ne_zero _) ⟨nofun, fun state => ?_⟩ rfl rfl rfl rfl rfl rfl
  rw [state] at unnumbered
  cases unnumbered

theorem bumpFlags (mem : msg ∈ box.store.msgs) (numbered : msg.state.numbered = true)
    (flags : MsgFlags) : Sound (box.bumpFlags msg flags) :=
  sound.renumber mem (fun msg => { msg with flags, modseq := box.store.himodseqDn + 1 }) rfl rfl
    numbered ((sound.keyed.msg msg mem).2.mpr numbered) Iff.rfl rfl rfl rfl rfl rfl rfl

/-! ### Expunges -/

theorem appendExpunge (mem : record ∈ box.store.expunged)
    (above : ∀ line ∈ cacheValues box.disk.cache, line.key = record.key → line.modseq ≤ record.modseq)
    (appended : Appended box (.value (.expunge record)) assigned next) : Sound next :=
  sound.appendValue appended (sound.keyed.expunge record mem) (fun _ => nofun)
    (sound.ledger.appendExpunge sound.keyed.expungedSorted mem above)

theorem dropMsg (has : ∃ record ∈ box.store.expunged, record.key = msg.key)
    (free : ∀ dn ∈ box.dns, ∀ record, .expunge record ∈ dn.held → record.key ≠ msg.key) :
    Sound (box.dropMsg msg) := by
  refine sound.memory rfl rfl ?_ ?_ le_rfl ?_
  · exact sound.keyed.dropMsg rfl rfl
  · exact sound.ledger.dropMsg sound.keyed.msgsSorted rfl rfl has
  · intro dn mem record recordMem
    obtain ⟨other, otherMem, same, state⟩ := sound.held dn mem record recordMem
    refine ⟨other, sound.keyed.msgsSorted.mem_erase.mpr ⟨otherMem, ?_⟩, same, state⟩
    rw [same]
    exact free dn mem record recordMem

theorem removeAndDeleteMsg (has : ∃ record ∈ box.store.expunged, record.key = msg.key)
    (free : ∀ dn ∈ box.dns, ∀ record, .expunge record ∈ dn.held → record.key ≠ msg.key) :
    Sound (box.removeAndDeleteMsg msg) := by
  unfold Box.removeAndDeleteMsg
  cases msg.file with
  | none => exact sound.dropMsg has free
  | some file =>
    have removed : Sound (box.removeFile file) := sound.write rfl
    exact removed.dropMsg has free

/-- Only messages that wait for their finalizer are held. -/
theorem free_of_state (mem : msg ∈ box.store.msgs) (state : msg.state ≠ .expunged) {dn : Dn}
    (inDns : dn ∈ box.dns) (recordMem : .expunge record ∈ dn.held) : record.key ≠ msg.key := by
  intro same
  obtain ⟨other, otherMem, otherKey, isExpunged⟩ := sound.held dn inDns record recordMem
  rw [sound.keyed.msgsSorted.eq_of_key otherMem mem (otherKey.trans same)] at isExpunged
  exact state isExpunged

/-- An expunge that is there already is marked as pushed. -/
theorem markPushed {key : MsgKey} (disk : next.disk = box.disk) (trail : next.trail = box.trail)
    (dns : next.dns = box.dns) (himodseqDn : next.store.himodseqDn = box.store.himodseqDn)
    (msgs : next.store.msgs = box.store.msgs)
    (expunged : next.store.expunged = update Expunge.key key
      (fun record => { record with state := .pushed }) box.store.expunged) : Sound next := by
  refine sound.memory disk trail (sound.keyed.pushExpunge msgs expunged) ?_ (le_of_eq himodseqDn.symm)
    ?_
  · rw [himodseqDn]
    exact sound.ledger.pushExpunge msgs expunged
  · unfold Waits
    rw [dns, msgs]
    exact sound.held

/-- The expunge of a message without numbers is inserted. -/
theorem insertUnnumbered (fresh : box.findExpunge record.key = none) (uidDn : record.uidDn = 0)
    (modseq : record.modseq = 0) (pushed : record.state = .pushed) (disk : next.disk = box.disk)
    (trail : next.trail = box.trail) (dns : next.dns = box.dns)
    (himodseqDn : next.store.himodseqDn = box.store.himodseqDn)
    (msgs : next.store.msgs = box.store.msgs)
    (expunged : next.store.expunged = insert Expunge.key record box.store.expunged) :
    Sound next := by
  refine sound.memory disk trail ?_ ?_ (le_of_eq himodseqDn.symm) ?_
  · refine sound.keyed.insertExpunge msgs expunged (find_eq_none.mp fresh) ?_ fun _ _ _ _ => uidDn
    exact ⟨⟨fun _ => uidDn, fun _ => modseq⟩, fun _ => pushed⟩
  · rw [himodseqDn]
    refine sound.ledger.insertExpunge msgs expunged ?_ fun unpushed => ?_
    · have zero : (LogValue.expunge record).number .modseq = 0 := modseq
      rw [zero]
      exact sound.ledger.issued.zero record.key
    · rw [pushed] at unpushed
      cases unpushed
  · unfold Waits
    rw [dns, msgs]
    exact sound.held

/-- A filled message gets an expunge and waits for its finalizer. -/
theorem expireMsg (mem : msg ∈ box.store.msgs) (filled : msg.state = .filled)
    (sameKey : record.key = msg.key) (fresh : box.findExpunge msg.key = none)
    (uidDn : record.uidDn = msg.uidDn) (modseq : record.modseq = box.store.himodseqDn + 1)
    (pushed : record.state = .pushed) (disk : next.disk = box.disk) (trail : next.trail = box.trail)
    (dns : next.dns = box.dns) (himodseqDn : next.store.himodseqDn = box.store.himodseqDn + 1)
    (msgs : next.store.msgs = update Msg.key msg.key (fun msg => { msg with state := .expunged })
      box.store.msgs)
    (expunged : next.store.expunged = insert Expunge.key record box.store.expunged) :
    Sound next := by
  have noRecord := find_eq_none.mp fresh
  have nonzero : record.uidDn ≠ 0 := by
    rw [uidDn]
    refine (sound.keyed.msg msg mem).2.mpr ?_
    rw [filled]
    rfl
  refine sound.memory disk trail ?_ ?_ (himodseqDn ▸ Nat.le_succ _) ?_
  · refine sound.keyed.expireMsg mem filled msgs ?_ ?_ ?_ ?_
    · rw [expunged]
      exact sound.keyed.expungedSorted.insert record (sameKey ▸ noRecord)
    · intro other otherMem
      rw [expunged] at otherMem
      rcases mem_insert.mp otherMem with rfl | otherMem
      · refine ⟨⟨fun zero => ?_, fun zero => absurd zero nonzero⟩, fun zero => absurd zero nonzero⟩
        rw [modseq] at zero
        cases zero
      · exact sound.keyed.expunge other otherMem
    · intro other differs
      rw [expunged, mem_insert]
      refine ⟨fun either => either.resolve_left fun equal => differs ?_, .inr⟩
      rw [equal, sameKey]
    · exact ⟨record, expunged ▸ mem_insert.mpr (.inl rfl), sameKey⟩
  · -- the expunge is entered first: from then on the message is not written to the log
    have entered : Ledger .modseq (box.store.himodseqDn + 1)
        { box.store.toTrees with expunged := next.store.expunged } (cacheValues box.disk.cache) := by
      refine sound.ledger.insertExpunge rfl expunged ?_ fun unpushed => ?_
      · have number : (LogValue.expunge record).number .modseq = box.store.himodseqDn + 1 := modseq
        rw [number]
        exact sound.ledger.issued.next record.key
      · rw [pushed] at unpushed
        cases unpushed
    rw [himodseqDn]
    exact entered.updateMsg msgs rfl (fun _ _ same => same) (fun _ _ _ state => absurd rfl state)
      (.inl ⟨rfl, fun _ _ _ => rfl⟩)
  · intro dn inDns other otherMem
    rw [dns] at inDns
    obtain ⟨held, heldMem, heldKey, state⟩ := sound.held dn inDns other otherMem
    unfold Waits
    rw [msgs]
    exact waits_update heldMem heldKey state (fun _ _ same => same) fun _ => rfl

theorem expireKnown (mem : msg ∈ box.store.msgs) (filled : msg.state = .filled)
    (has : ∃ record ∈ box.store.expunged, record.key = msg.key) :
    Sound (box.changeMsg msg.key fun msg => { msg with state := .expunged }) := by
  refine sound.memory rfl rfl ?_ ?_ le_rfl ?_
  · exact sound.keyed.expireMsg mem filled rfl sound.keyed.expungedSorted sound.keyed.expunge
      (fun _ _ => Iff.rfl) has
  · exact sound.ledger.updateMsg rfl rfl (fun _ _ same => same) (fun _ _ _ state => absurd rfl state)
      (.inl ⟨rfl, fun _ _ _ => rfl⟩)
  · intro dn inDns other otherMem
    obtain ⟨held, heldMem, heldKey, state⟩ := sound.held dn inDns other otherMem
    exact waits_update heldMem heldKey state (fun _ _ same => same) fun _ => rfl

/-- A filled message whose file is missing is replaced by an expunge that has to be pushed. -/
theorem loseMsg (mem : msg ∈ box.store.msgs) (filled : msg.state = .filled)
    (sameKey : record.key = msg.key) (fresh : box.findExpunge msg.key = none)
    (uidDn : record.uidDn = msg.uidDn) (modseq : record.modseq = box.store.himodseqDn + 1)
    (noDns : box.dns = []) (disk : next.disk = box.disk) (trail : next.trail = box.trail)
    (dns : next.dns = box.dns) (himodseqDn : next.store.himodseqDn = box.store.himodseqDn + 1)
    (msgs : next.store.msgs = erase Msg.key msg.key box.store.msgs)
    (expunged : next.store.expunged = insert Expunge.key record box.store.expunged) :
    Sound next := by
  have noRecord := find_eq_none.mp fresh
  have nonzero : record.uidDn ≠ 0 := by
    rw [uidDn]
    refine (sound.keyed.msg msg mem).2.mpr ?_
    rw [filled]
    rfl
  refine sound.memory disk trail ?_ ?_ (himodseqDn ▸ Nat.le_succ _) ?_
  · have dropped : Trees.Keyed { box.store.toTrees with msgs := next.store.msgs } :=
      sound.keyed.dropMsg msgs rfl
    refine dropped.insertExpunge rfl expunged (sameKey ▸ noRecord) ?_ ?_
    · refine ⟨⟨fun zero => ?_, fun zero => absurd zero nonzero⟩, fun zero => absurd zero nonzero⟩
      rw [modseq] at zero
      cases zero
    · intro other otherMem same
      have inErased : other ∈ erase Msg.key msg.key box.store.msgs := msgs ▸ otherMem
      exact absurd (same.trans sameKey) (sound.keyed.msgsSorted.mem_erase.mp inErased).2
  · have entered : Ledger .modseq (box.store.himodseqDn + 1)
        { box.store.toTrees with expunged := next.store.expunged } (cacheValues box.disk.cache) := by
      refine sound.ledger.insertExpunge rfl expunged ?_ fun _ line inLines _ => ?_
      · have number : (LogValue.expunge record).number .modseq = box.store.himodseqDn + 1 := modseq
        rw [number]
        exact sound.ledger.issued.next record.key
      · have below := sound.ledger.bound_line inLines
        show _ ≤ record.modseq
        rw [modseq]
        exact Nat.le_succ_of_le below
    rw [himodseqDn]
    exact entered.dropMsg sound.keyed.msgsSorted msgs rfl
      ⟨record, expunged ▸ mem_insert.mpr (.inl rfl), sameKey⟩
  · intro dn inDns
    rw [dns, noDns] at inDns
    exact absurd inDns not_mem_nil

end

end Sound

/-! ### Changes -/

/-- A message with the numbers that it is finalized with. -/
def finalized (box : Box) (msg : Msg) : Msg :=
  { msg with uidDn := box.store.hiUidDn + 1, modseq := box.store.himodseqDn + 1, state := .filled }

/-- A message with changed flags. -/
def flagged (box : Box) (msg : Msg) (flags : MsgFlags) : Msg :=
  { msg with flags, modseq := box.store.himodseqDn + 1 }

/-- The line that is written for changed flags. -/
def flagsLine (box : Box) (msg : Msg) (flags : MsgFlags) : LogEntry :=
  if msg.state = .expunged then .modseqDn (box.store.himodseqDn + 1)
  else .value (.message (box.flagged msg flags).logged)

/-- An expunge is entered in memory. -/
def enterExpunge (box : Box) (record : Expunge) : Box :=
  ((box.takeModseq record.uidDn).insertExpunge record).indexExpunge record

/-- An expunge is marked as pushed in memory. -/
def markPushed (box : Box) (key : MsgKey) : Box :=
  { box with
    store := { box.store with
      expunged := update Expunge.key key (fun record => { record with state := .pushed })
        box.store.expunged } }

/-- A message waits for its finalizer. -/
def expire (box : Box) (key : MsgKey) : Box :=
  box.changeMsg key fun msg => { msg with state := .expunged }

/-- The changes as statements about a mailbox tell them apart: those that also happen while it is
opened and those that only happen while it is open; a message is finalized, which may have its file
already; a file is found to be missing; a message with a key is entered, which may have an expunge
already; a message is expunged that has an expunge already. -/
inductive ChangeKind where
  | plain
  | working
  | finalize (filed : Bool)
  | missing
  | meet (key : MsgKey) (again : Bool)
  | twice
  deriving DecidableEq

/-- A change of a box. -/
inductive Change (host : Host) (box : Box) : ChangeKind → Box → Prop
  | disk (disk : Disk) (cache : disk.cache = box.disk.cache)
      (assigned : disk.assigned = box.disk.assigned) (invalid : disk.invalid = box.disk.invalid) :
      Change host box .plain (box.write disk)
  | himodseqUp (himodseqUp : Nat) : Change host box .working (box.setHimodseqUp host himodseqUp)
  | takeLocal (uidUp : Nat) : Change host box .working (box.takeLocal uidUp)
  | meet (key : MsgKey) (internaldate : ImapTime) (flags : MsgFlags)
      (fresh : box.findMsg key = none)
      (unseen : ∀ line ∈ cacheValues box.disk.cache, line.key = key → line.uidDn = 0)
      (apart : ∀ record ∈ box.store.expunged, record.key = key → record.uidDn = 0)
      (locals : key.uidLocal ≤ box.store.hiUidLocal) :
      Change host box (.meet key (box.findExpunge key).isSome)
        ((box.insertMsg (.unfilled key internaldate flags)).append host
          (.value (.message (.unfilled key internaldate flags))) [])
  | edit (key : MsgKey) (change : Msg → Msg)
      (edits : ∀ msg ∈ box.store.msgs, msg.key = key → msg.Edits (change msg))
      (unseen : box.dns = [] ∨ ∀ msg ∈ box.store.msgs, msg.key = key → msg.state.numbered = false) :
      Change host box .plain (box.changeMsg key change)
  | save (msg : Msg) (mem : msg ∈ box.store.msgs) (unnumbered : msg.state.numbered = false) :
      Change host box .working (box.append host (.value (.message msg.logged)) [])
  | finalize (msg : Msg) (mem : msg ∈ box.store.msgs)
      (unnumbered : msg.state.numbered = false) :
      Change host box (.finalize msg.file.isSome) (((box.finalizeMsg msg.key).append host
        (.value (.message (box.finalized msg).logged))
        [⟨box.store.uidvldDn, box.store.hiUidDn + 1, msg.key⟩]).distribute
          (.new (box.finalized msg).view))
  | bump (msg : Msg) (flags : MsgFlags) (mem : msg ∈ box.store.msgs)
      (numbered : msg.state.numbered = true) :
      Change host box .working (((box.bumpFlags msg flags).append host (box.flagsLine msg flags) []
        ).distribute (.flags (box.flagged msg flags).view))
  | push (record : Expunge) (mem : record ∈ box.store.expunged)
      (unpushed : record.state = .unpushed) :
      Change host box .working ((box.markPushed record.key).append host
        (.value (.expunge { record with state := .pushed })) [])
  | discard (msg : Msg) (mem : msg ∈ box.store.msgs)
      (unnumbered : msg.state.numbered = false) (fresh : box.findExpunge msg.key = none) :
      Change host box .working ((box.enterExpunge ⟨msg.key, 0, .pushed, 0⟩).append host
        (.value (.expunge ⟨msg.key, 0, .pushed, 0⟩)) [])
  | expire (msg : Msg) (mem : msg ∈ box.store.msgs) (filled : msg.state = .filled)
      (fresh : box.findExpunge msg.key = none) :
      Change host box .working ((((box.enterExpunge (box.newExpunge msg.key msg.uidDn .pushed)).expire
        msg.key).append host (.value (.expunge (box.newExpunge msg.key msg.uidDn .pushed))) []
          ).distribute (.expunge (box.newExpunge msg.key msg.uidDn .pushed)))
  | expireKnown (msg : Msg) (record : Expunge) (mem : msg ∈ box.store.msgs)
      (filled : msg.state = .filled) (recordMem : record ∈ box.store.expunged)
      (same : record.key = msg.key) :
      Change host box .twice ((box.expire msg.key).distribute (.expunge record))
  | drop (msg old : Msg) (mem : old ∈ box.store.msgs) (key : msg.key = old.key)
      (modseq : msg.modseq = old.modseq) (has : ∃ record ∈ box.store.expunged, record.key = msg.key)
      (free : ∀ dn ∈ box.dns, ∀ record, .expunge record ∈ dn.held → record.key ≠ msg.key)
      (state : old.state ≠ .filled) : Change host box .working (box.removeAndDeleteMsg msg)
  | missing (msg : Msg) (mem : msg ∈ box.store.msgs) (filled : msg.state = .filled)
      (fresh : box.findExpunge msg.key = none) (noDns : box.dns = []) :
      Change host box .missing ((((box.takeModseq msg.uidDn).insertExpunge
        (box.newExpunge msg.key msg.uidDn .unpushed)).dropMsg msg).append host
          (.value (.expunge (box.newExpunge msg.key msg.uidDn .unpushed))) [])
  | openDn (id : Nat) (examine : Bool) (full : box.store.lite = false) :
      Change host box .working
        { box with dns := box.dns ++ [{ id, examine, views := box.buildViews }] }
  | forgetDn (id : Nat) : Change host box .working { box with dns := box.dns.filter (·.id ≠ id) }
  | callDn (id : Nat) (dn after : Dn) (call : DnCall) (responses : List Response)
      (freed : List Update) (mem : dn ∈ box.dns)
      (result : dn.call call = .ok (after, responses, freed)) :
      Change host box .working
        { box with dns := box.dns.map fun other => if other.id = id then after else other }
  | syncDn (id : Nat) (resp : Option StResp) : Change host box .working (box.syncDn id resp)

theorem takeModseq_of_ne {uidDn : Nat} (nonzero : uidDn ≠ 0) (box : Box) : box.takeModseq uidDn =
    { box with store := { box.store with himodseqDn := box.store.himodseqDn + 1 } } :=
  if_neg nonzero

theorem newExpunge_of_ne {uidDn : Nat} (nonzero : uidDn ≠ 0) (box : Box) (key : MsgKey)
    (state : ExpungeState) :
    box.newExpunge key uidDn state = ⟨key, uidDn, state, box.store.himodseqDn + 1⟩ := by
  unfold newExpunge
  rw [if_neg nonzero]

theorem ne_expunged_of_unnumbered {msg : Msg} (unnumbered : msg.state.numbered = false) :
    msg.state ≠ .expunged := by
  intro state
  rw [state] at unnumbered
  cases unnumbered

namespace Sound

variable {msg : Msg}

section

variable (sound : Sound box)

include sound

theorem finalize (mem : msg ∈ box.store.msgs) (unnumbered : msg.state.numbered = false)
    (assigned : List Assignment) :
    Sound (((box.finalizeMsg msg.key).append host (.value (.message (box.finalized msg).logged))
      assigned).distribute (.new (box.finalized msg).view)) := by
  have inMsgs : box.finalized msg ∈ (box.finalizeMsg msg.key).store.msgs :=
    mem_update.mpr (.inr ⟨msg, mem, rfl, rfl⟩)
  have saved := (sound.finalizeMsg mem unnumbered).appendMsg inMsgs nofun
    (append_spec host _ _ assigned)
  exact saved.distribute nofun

theorem bump (mem : msg ∈ box.store.msgs) (numbered : msg.state.numbered = true)
    (flags : MsgFlags) :
    Sound (((box.bumpFlags msg flags).append host (box.flagsLine msg flags) []).distribute
      (.flags (box.flagged msg flags).view)) := by
  have inMsgs : box.flagged msg flags ∈ (box.bumpFlags msg flags).store.msgs :=
    mem_update.mpr (.inr ⟨msg, mem, rfl, rfl⟩)
  have bumped := sound.bumpFlags mem numbered flags
  suffices saved : Sound ((box.bumpFlags msg flags).append host (box.flagsLine msg flags) []) from
    saved.distribute nofun
  unfold flagsLine
  split
  · refine bumped.appendNote (append_spec host _ _ _) rfl fun modseq equal => ?_
    cases equal
    rfl
  · rename_i state
    exact bumped.appendMsg inMsgs state (append_spec host _ _ _)

theorem push {record : Expunge} (mem : record ∈ box.store.expunged)
    (unpushed : record.state = .unpushed) :
    Sound ((box.markPushed record.key).append host
      (.value (.expunge { record with state := .pushed })) []) := by
  have marked : Sound (box.markPushed record.key) := sound.markPushed rfl rfl rfl rfl rfl rfl
  have inExpunged : { record with state := .pushed } ∈ (box.markPushed record.key).store.expunged :=
    mem_update.mpr (.inr ⟨record, mem, rfl, rfl⟩)
  exact marked.appendExpunge inExpunged (sound.ledger.unpushed record mem unpushed)
    (append_spec host _ _ _)

theorem discard (mem : msg ∈ box.store.msgs) (unnumbered : msg.state.numbered = false)
    (fresh : box.findExpunge msg.key = none) :
    Sound ((box.enterExpunge ⟨msg.key, 0, .pushed, 0⟩).append host
      (.value (.expunge ⟨msg.key, 0, .pushed, 0⟩)) []) := by
  have entered : Sound (box.enterExpunge ⟨msg.key, 0, .pushed, 0⟩) :=
    sound.insertUnnumbered fresh rfl rfl rfl rfl rfl rfl rfl rfl rfl
  have zero : msg.modseq = 0 := by
    by_contra nonzero
    rw [(sound.keyed.msg msg mem).1.mp nonzero] at unnumbered
    cases unnumbered
  refine entered.appendExpunge (mem_insert.mpr (.inl rfl)) ?_ (append_spec host _ _ _)
  intro line inLines same
  have below := sound.ledger.msg msg mem (ne_expunged_of_unnumbered unnumbered)
    (fun record recordMem equal => absurd equal (find_eq_none.mp fresh record recordMem))
    line inLines same
  exact zero ▸ below

theorem expire (mem : msg ∈ box.store.msgs) (filled : msg.state = .filled)
    (fresh : box.findExpunge msg.key = none) :
    Sound ((((box.enterExpunge (box.newExpunge msg.key msg.uidDn .pushed)).expire msg.key).append
      host (.value (.expunge (box.newExpunge msg.key msg.uidDn .pushed))) []).distribute
        (.expunge (box.newExpunge msg.key msg.uidDn .pushed))) := by
  have nonzero : msg.uidDn ≠ 0 := by
    refine (sound.keyed.msg msg mem).2.mpr ?_
    rw [filled]
    rfl
  rw [newExpunge_of_ne nonzero]
  have expired : Sound ((box.enterExpunge ⟨msg.key, msg.uidDn, .pushed, box.store.himodseqDn + 1⟩
      ).expire msg.key) := by
    unfold enterExpunge
    rw [takeModseq_of_ne nonzero]
    exact sound.expireMsg mem filled rfl fresh rfl rfl rfl rfl rfl rfl rfl rfl rfl
  have inExpunged : (⟨msg.key, msg.uidDn, .pushed, box.store.himodseqDn + 1⟩ : Expunge) ∈
      ((box.enterExpunge ⟨msg.key, msg.uidDn, .pushed, box.store.himodseqDn + 1⟩
        ).expire msg.key).store.expunged := mem_insert.mpr (.inl rfl)
  have waits : ((box.enterExpunge ⟨msg.key, msg.uidDn, .pushed, box.store.himodseqDn + 1⟩
      ).expire msg.key).Waits msg.key := by
    refine ⟨{ msg with state := .expunged }, ?_, rfl, rfl⟩
    unfold enterExpunge
    rw [takeModseq_of_ne nonzero]
    exact mem_update.mpr (.inr ⟨msg, mem, rfl, rfl⟩)
  have appended := append_spec host ((box.enterExpunge ⟨msg.key, msg.uidDn, .pushed,
    box.store.himodseqDn + 1⟩).expire msg.key) (.value (.expunge ⟨msg.key, msg.uidDn, .pushed,
      box.store.himodseqDn + 1⟩)) []
  have saved := expired.appendExpunge inExpunged (fun line inLines _ => by
    unfold enterExpunge at inLines
    rw [takeModseq_of_ne nonzero] at inLines
    exact Nat.le_succ_of_le (sound.ledger.bound_line inLines)) appended
  refine saved.distribute fun record equal => ?_
  cases equal
  unfold Waits
  rw [appended.trees]
  exact waits

theorem missing (mem : msg ∈ box.store.msgs) (filled : msg.state = .filled)
    (fresh : box.findExpunge msg.key = none) (noDns : box.dns = []) :
    Sound ((((box.takeModseq msg.uidDn).insertExpunge (box.newExpunge msg.key msg.uidDn .unpushed)
      ).dropMsg msg).append host (.value (.expunge (box.newExpunge msg.key msg.uidDn .unpushed))) []) := by
  have nonzero : msg.uidDn ≠ 0 := by
    refine (sound.keyed.msg msg mem).2.mpr ?_
    rw [filled]
    rfl
  rw [newExpunge_of_ne nonzero, takeModseq_of_ne nonzero]
  suffices lost : Sound (({ box with store := { box.store with
      himodseqDn := box.store.himodseqDn + 1 } } : Box).insertExpunge
        ⟨msg.key, msg.uidDn, .unpushed, box.store.himodseqDn + 1⟩ |>.dropMsg msg) by
    refine lost.appendExpunge (mem_insert.mpr (.inl rfl)) ?_ (append_spec host _ _ _)
    exact fun line inLines _ => Nat.le_succ_of_le (sound.ledger.bound_line inLines)
  exact sound.loseMsg mem filled rfl fresh rfl rfl noDns rfl rfl rfl rfl rfl rfl

theorem takeLocal (uidUp : Nat) : Sound (box.takeLocal uidUp) := by
  unfold Box.takeLocal
  split
  · exact sound
  · exact sound.memory rfl rfl sound.keyed sound.ledger le_rfl sound.held

/-- Every change keeps a box sound. -/
theorem change {kind : ChangeKind} (change : Change host box kind next) : Sound next := by
  cases change with
  | disk disk cache assigned invalid => exact sound.write cache
  | himodseqUp himodseqUp =>
    have noted : Sound { box with store := { box.store with himodseqUp } } :=
      sound.memory rfl rfl sound.keyed sound.ledger le_rfl sound.held
    exact noted.appendNote (append_spec host _ _ _) rfl nofun
  | takeLocal uidUp => exact sound.takeLocal uidUp
  | meet key internaldate flags fresh unseen apart locals =>
    exact (sound.insertMsg internaldate flags fresh unseen apart).appendMsg
      (mem_insert.mpr (.inl rfl)) nofun (append_spec host _ _ _)
  | edit key change edits unseen => exact sound.changeMsg edits
  | save msg mem unnumbered =>
    exact sound.appendMsg mem (ne_expunged_of_unnumbered unnumbered) (append_spec host _ _ _)
  | finalize msg mem unnumbered => exact sound.finalize mem unnumbered _
  | bump msg flags mem numbered => exact sound.bump mem numbered flags
  | push record mem unpushed => exact sound.push mem unpushed
  | discard msg mem unnumbered fresh => exact sound.discard mem unnumbered fresh
  | expire msg mem filled fresh => exact sound.expire mem filled fresh
  | expireKnown msg record mem filled recordMem same =>
    refine (sound.expireKnown mem filled ⟨record, recordMem, same⟩).distribute fun other equal => ?_
    cases equal
    exact ⟨{ msg with state := .expunged },
      mem_update.mpr (.inr ⟨msg, mem, rfl, rfl⟩), same.symm, rfl⟩
  | drop msg old mem key modseq has free state => exact sound.removeAndDeleteMsg has free
  | missing msg mem filled fresh noDns => exact sound.missing mem filled fresh noDns
  | openDn id examine full =>
    refine sound.connections fun dn mem record recordMem => ?_
    rcases mem_append.mp mem with old | new
    · exact ⟨dn, old, recordMem⟩
    · rw [mem_singleton.mp new] at recordMem
      exact absurd recordMem not_mem_nil
  | forgetDn id =>
    exact sound.connections fun dn mem record recordMem =>
      ⟨dn, mem_of_mem_filter mem, recordMem⟩
  | callDn id dn after call responses freed mem result =>
    refine sound.connections fun other otherMem record recordMem => ?_
    obtain ⟨old, oldMem, rfl⟩ := mem_map.mp otherMem
    split at recordMem
    · refine ⟨dn, mem, ?_⟩
      exact ((dn.call_keeps call).of_ok result) record (mem_append_left _ recordMem)
    · exact ⟨old, oldMem, recordMem⟩
  | syncDn id resp =>
    refine sound.connections fun other otherMem record recordMem => ?_
    obtain ⟨old, oldMem, rfl⟩ := mem_map.mp otherMem
    split at recordMem
    · rcases mem_held_update.mp recordMem with inOld | isNew
      · exact ⟨old, oldMem, inOld⟩
      · cases isNew
    · exact ⟨old, oldMem, recordMem⟩

end

end Sound

/-- A lite box stays one, and the validities stay. -/
theorem Change.validity {kind : ChangeKind} (change : Change host box kind next) :
    next.store.lite = box.store.lite ∧ next.store.uidvldUp = box.store.uidvldUp ∧
      next.store.uidvldDn = box.store.uidvldDn := by
  have appended : ∀ (middle : Box) (entry : LogEntry) (assigned : List Assignment),
      middle.store.lite = box.store.lite ∧ middle.store.uidvldUp = box.store.uidvldUp ∧
        middle.store.uidvldDn = box.store.uidvldDn →
      (middle.append host entry assigned).store.lite = box.store.lite ∧
        (middle.append host entry assigned).store.uidvldUp = box.store.uidvldUp ∧
          (middle.append host entry assigned).store.uidvldDn = box.store.uidvldDn := by
    intro middle entry assigned same
    obtain ⟨lines, updates, equal⟩ := (append_spec host middle entry assigned).store
    rw [equal]
    exact same
  have taken : ∀ uidDn, (box.takeModseq uidDn).store.lite = box.store.lite ∧
      (box.takeModseq uidDn).store.uidvldUp = box.store.uidvldUp ∧
        (box.takeModseq uidDn).store.uidvldDn = box.store.uidvldDn := by
    intro uidDn
    unfold takeModseq
    split
    · exact ⟨rfl, rfl, rfl⟩
    · exact ⟨rfl, rfl, rfl⟩
  cases change with
  | disk disk cache assigned invalid => exact ⟨rfl, rfl, rfl⟩
  | himodseqUp himodseqUp =>
    exact appended { box with store := { box.store with himodseqUp } } _ _ ⟨rfl, rfl, rfl⟩
  | takeLocal uidUp =>
    unfold Box.takeLocal
    split
    · exact ⟨rfl, rfl, rfl⟩
    · exact ⟨rfl, rfl, rfl⟩
  | meet key internaldate flags fresh unseen apart locals => exact appended _ _ _ ⟨rfl, rfl, rfl⟩
  | edit key change edits unseen => exact ⟨rfl, rfl, rfl⟩
  | save msg mem unnumbered => exact appended _ _ _ ⟨rfl, rfl, rfl⟩
  | finalize msg mem unnumbered => exact appended (box.finalizeMsg msg.key) _ _ ⟨rfl, rfl, rfl⟩
  | bump msg flags mem numbered => exact appended (box.bumpFlags msg flags) _ _ ⟨rfl, rfl, rfl⟩
  | push record mem unpushed => exact appended (box.markPushed record.key) _ _ ⟨rfl, rfl, rfl⟩
  | discard msg mem unnumbered fresh => exact appended _ _ _ ⟨rfl, rfl, rfl⟩
  | expire msg mem filled fresh => exact appended _ _ _ (taken msg.uidDn)
  | expireKnown msg record mem filled recordMem same => exact ⟨rfl, rfl, rfl⟩
  | drop msg old mem key modseq has free state =>
    unfold removeAndDeleteMsg
    split
    · exact ⟨rfl, rfl, rfl⟩
    · exact ⟨rfl, rfl, rfl⟩
  | missing msg mem filled fresh noDns => exact appended _ _ _ (taken msg.uidDn)
  | openDn id examine full => exact ⟨rfl, rfl, rfl⟩
  | forgetDn id => exact ⟨rfl, rfl, rfl⟩
  | callDn id dn after call responses freed mem result => exact ⟨rfl, rfl, rfl⟩
  | syncDn id resp => exact ⟨rfl, rfl, rfl⟩

/-! ### What a change writes -/

/-- A message is finalized. -/
def ChangeKind.finalizes : ChangeKind → Bool
  | .finalize _ => true
  | _ => false

/-- Nothing but message files is written. -/
structure Quiet (box next : Box) : Prop where
  hiUidDn : next.store.hiUidDn = box.store.hiUidDn
  cache : next.disk.cache = box.disk.cache
  assigned : next.disk.assigned = box.disk.assigned
  invalid : next.disk.invalid = box.disk.invalid
  trail : ∀ disk ∈ next.trail, disk ∈ box.trail ∨ (disk.cache = box.disk.cache ∧
    disk.assigned = box.disk.assigned ∧ disk.invalid = box.disk.invalid)

/-- A line is written, and nothing else. -/
structure Written (box : Box) (entry : LogEntry) (given : List Assignment) (next : Box) : Prop where
  assigned : next.disk.assigned = box.disk.assigned ++ given
  invalid : next.disk.invalid = box.disk.invalid
  cache : next.disk.cache = box.disk.cache ++ [entry] ∨
    next.disk.cache.Perm (collapse (keptEntries (box.disk.cache ++ [entry])))
  written : ∃ disk ∈ next.trail, disk.cache = box.disk.cache ++ [entry]
  trail : ∀ disk ∈ next.trail, disk ∈ box.trail ∨ disk = next.disk ∨
    (disk.cache = box.disk.cache ++ [entry] ∧ disk.assigned = box.disk.assigned ++ given ∧
      disk.invalid = box.disk.invalid)

/-- The memory is changed before a line is written. -/
theorem Appended.written_of {middle : Box} {entry : LogEntry} {given : List Assignment}
    (appended : Appended middle entry given next) (disk : middle.disk = box.disk)
    (trail : middle.trail = box.trail) : Written box entry given next where
  assigned := disk ▸ appended.assigned
  invalid := disk ▸ appended.invalid
  cache := disk ▸ appended.cache
  written := disk ▸ appended.written
  trail := disk ▸ trail ▸ appended.trail

/-- The line that a change writes: at most one, and with an assignment when a message is
finalized. -/
inductive Effect (box : Box) (kind : ChangeKind) (next : Box) : Prop
  | quiet (quiet : Quiet box next) (kept : kind.finalizes = false)
  | line (entry : LogEntry) (written : Written box entry [] next) (kept : kind.finalizes = false)
      (hiUidDn : next.store.hiUidDn = box.store.hiUidDn) (validity : ∀ up dn, entry ≠ .uidvlds up dn)
  | assignment (msg : Msg) (uidDn : msg.uidDn = box.store.hiUidDn + 1)
      (written : Written box (.value (.message msg))
        [⟨box.store.uidvldDn, box.store.hiUidDn + 1, msg.key⟩] next)
      (finalizes : kind.finalizes = true) (hiUidDn : next.store.hiUidDn = box.store.hiUidDn + 1)

theorem takeModseq_quiet (box : Box) (uidDn : Nat) : (box.takeModseq uidDn).disk = box.disk ∧
    (box.takeModseq uidDn).trail = box.trail ∧
      (box.takeModseq uidDn).store.hiUidDn = box.store.hiUidDn := by
  unfold takeModseq
  split
  · exact ⟨rfl, rfl, rfl⟩
  · exact ⟨rfl, rfl, rfl⟩

theorem Change.effect {kind : ChangeKind} (change : Change host box kind next) :
    Effect box kind next := by
  have line : ∀ (middle : Box) (entry : LogEntry) (dns : List Dn), middle.disk = box.disk →
      middle.trail = box.trail → middle.store.hiUidDn = box.store.hiUidDn →
      (∀ up dn, entry ≠ .uidvlds up dn) → kind.finalizes = false →
      Effect box kind { middle.append host entry [] with dns } := by
    intro middle entry dns disk trail hiUidDn validity kept
    have appended := append_spec host middle entry []
    have written := appended.written_of disk trail
    exact .line entry ⟨written.assigned, written.invalid, written.cache, written.written, written.trail⟩
      kept (appended.hiUidDn.trans hiUidDn) validity
  have still : ∀ (next : Box), next.disk = box.disk → next.trail = box.trail →
      next.store.hiUidDn = box.store.hiUidDn → kind.finalizes = false → Effect box kind next := by
    intro next disk trail hiUidDn kept
    refine .quiet ⟨hiUidDn, by rw [disk], by rw [disk], by rw [disk], fun other mem => ?_⟩ kept
    rw [trail] at mem
    exact .inl mem
  cases change with
  | disk disk cache assigned invalid =>
    refine .quiet ⟨rfl, cache, assigned, invalid, fun other mem => ?_⟩ rfl
    rcases mem_append.mp mem with old | last
    · exact .inl old
    · rw [mem_singleton.mp last]
      exact .inr ⟨cache, assigned, invalid⟩
  | himodseqUp himodseqUp =>
    exact line { box with store := { box.store with himodseqUp } } _ _ rfl rfl rfl nofun rfl
  | takeLocal uidUp =>
    unfold Box.takeLocal
    split
    · exact still _ rfl rfl rfl rfl
    · exact still _ rfl rfl rfl rfl
  | meet key internaldate flags fresh unseen apart locals =>
    exact line (box.insertMsg _) _ _ rfl rfl rfl nofun rfl
  | edit key change edits unseen => exact still _ rfl rfl rfl rfl
  | save msg mem unnumbered => exact line box _ _ rfl rfl rfl nofun rfl
  | finalize msg mem unnumbered =>
    have appended := append_spec host (box.finalizeMsg msg.key)
      (.value (.message (box.finalized msg).logged))
      [⟨box.store.uidvldDn, box.store.hiUidDn + 1, msg.key⟩]
    have written : Written box _ _ _ := appended.written_of rfl rfl
    exact .assignment (box.finalized msg).logged rfl
      ⟨written.assigned, written.invalid, written.cache, written.written, written.trail⟩ rfl
      appended.hiUidDn
  | bump msg flags mem numbered =>
    refine line (box.bumpFlags msg flags) _ _ rfl rfl rfl (fun up dn => ?_) rfl
    unfold flagsLine
    split <;> nofun
  | push record mem unpushed => exact line (box.markPushed record.key) _ _ rfl rfl rfl nofun rfl
  | discard msg mem unnumbered fresh =>
    exact line (box.enterExpunge _) _ _ rfl rfl rfl nofun rfl
  | expire msg mem filled fresh =>
    obtain ⟨disk, trail, hiUidDn⟩ := takeModseq_quiet box msg.uidDn
    exact line ((box.enterExpunge (box.newExpunge msg.key msg.uidDn .pushed)).expire msg.key) _ _
      disk trail hiUidDn nofun rfl
  | expireKnown msg record mem filled recordMem same => exact still _ rfl rfl rfl rfl
  | drop msg old mem key modseq has free state =>
    unfold removeAndDeleteMsg
    split
    · refine .quiet ⟨rfl, rfl, rfl, rfl, fun other mem => ?_⟩ rfl
      rcases mem_append.mp mem with old | last
      · exact .inl old
      · rw [mem_singleton.mp last]
        exact .inr ⟨rfl, rfl, rfl⟩
    · exact still _ rfl rfl rfl rfl
  | missing msg mem filled fresh noDns =>
    obtain ⟨disk, trail, hiUidDn⟩ := takeModseq_quiet box msg.uidDn
    exact line (((box.takeModseq msg.uidDn).insertExpunge (box.newExpunge msg.key msg.uidDn .unpushed)
      ).dropMsg msg) _ _ disk trail hiUidDn nofun rfl
  | openDn id examine full => exact still _ rfl rfl rfl rfl
  | forgetDn id => exact still _ rfl rfl rfl rfl
  | callDn id dn after call responses freed mem result => exact still _ rfl rfl rfl rfl
  | syncDn id resp => exact still _ rfl rfl rfl rfl

/-- The box may change in the allowed ways. -/
def Evolves (host : Host) (allowed : ChangeKind → Prop) : Box → Box → Prop :=
  Relation.ReflTransGen fun box next => ∃ kind, allowed kind ∧ Change host box kind next

namespace Evolves

variable {allowed wider : ChangeKind → Prop}

theorem refl : Evolves host allowed box box := Relation.ReflTransGen.refl

theorem trans {last : Box} (first : Evolves host allowed box next)
    (second : Evolves host allowed next last) : Evolves host allowed box last :=
  Relation.ReflTransGen.trans first second

theorem single {kind : ChangeKind} (isAllowed : allowed kind) (change : Change host box kind next) :
    Evolves host allowed box next :=
  Relation.ReflTransGen.single ⟨kind, isAllowed, change⟩

section

variable (evolves : Evolves host allowed box next)

include evolves

theorem keeps {invariant : Box → Prop}
    (step : ∀ {box next : Box} {kind : ChangeKind}, allowed kind → Change host box kind next →
      invariant box → invariant next) (start : invariant box) : invariant next := by
  induction evolves with
  | refl => exact start
  | tail _ last ih =>
    obtain ⟨kind, isAllowed, change⟩ := last
    exact step isAllowed change ih

theorem sound (start : Sound box) : Sound next :=
  evolves.keeps (fun _ change sound => sound.change change) start

/-- What every allowed change of a sound box keeps is kept, together with soundness. -/
theorem keepsSound {invariant : Box → Prop}
    (step : ∀ {box next : Box} {kind : ChangeKind}, allowed kind → Change host box kind next →
      Sound box → invariant box → invariant next) (sound : Sound box) (start : invariant box) :
    Sound next ∧ invariant next := by
  have both : ∀ {box next : Box} {kind : ChangeKind}, allowed kind → Change host box kind next →
      Sound box ∧ invariant box → Sound next ∧ invariant next := fun isAllowed change holds =>
    ⟨holds.1.change change, step isAllowed change holds.1 holds.2⟩
  exact evolves.keeps both ⟨sound, start⟩

theorem lite : next.store.lite = box.store.lite := by
  induction evolves with
  | refl => rfl
  | tail _ last ih =>
    obtain ⟨kind, -, change⟩ := last
    exact change.validity.1.trans ih

end

end Evolves

end Box

end Splintermail
