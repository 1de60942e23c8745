/-
This file is about the `uid_dn` of messages over the life of a mailbox: no two
messages have the same one, and each new one is above all that were given out under
the same `uidvld_dn`.

The counter is in memory only. When a mailbox is opened it is rebuilt from the trees,
so that the log has to cover every `uid_dn` that was given out. But the messages whose
files are found while the mailbox is opened are finalized before the counter is
rebuilt: they get the first numbers again.
-/

import Splintermail.Imaildir.IndexUpkeep

namespace Splintermail

open List Splintermail.Tree Maildir LogValue

/-- The numbers in a log: those of a key rise, and each belongs to one key. -/
structure UidLog (cache : List LogEntry) : Prop where
  rising : Rising .uidDn (cacheValues cache)
  owner : ∀ first ∈ cacheValues cache, ∀ second ∈ cacheValues cache,
    first.uidDn ≠ 0 → first.uidDn = second.uidDn → first.key = second.key

/-- Some number covers the log: it is not below any of its `uid_dn`. -/
def CoversLog (top : Nat) (cache : List LogEntry) : Prop := ∀ line ∈ cacheValues cache, line.uidDn ≤ top

/-- The assignments rise under each `uidvld_dn`. -/
def Assigned (assigned : List Assignment) : Prop :=
  assigned.Pairwise fun first second => first.uidvldDn = second.uidvldDn → first.uidDn < second.uidDn

/-- What the disk is at any time: the log remembers the assignments under its `uidvld_dn`. -/
structure Disk.Uids (disk : Disk) : Prop where
  log : UidLog disk.cache
  assigned : Assigned disk.assigned
  covered : ∀ given ∈ disk.assigned, given.uidvldDn = (lastUidvlds disk.cache).2 →
    ∀ top, CoversLog top disk.cache → given.uidDn ≤ top
  invalid : disk.invalid = true → ∀ given ∈ disk.assigned, given.uidvldDn ≠ 0

theorem UidLog.nil : UidLog [] where
  rising := List.Pairwise.nil
  owner _ mem := absurd mem not_mem_nil

variable {cache written : List LogEntry}

theorem lastUidvlds_compacted (perm : written.Perm (collapse (keptEntries cache))) :
    lastUidvlds written = lastUidvlds cache := by
  have sameEntry : lastEntry written .uidvlds = lastEntry cache .uidvlds :=
    (lastEntry_of_perm_collapse perm .uidvlds).trans (lastEntry_kept nofun)
  rw [lastUidvlds_eq_lastEntry, lastUidvlds_eq_lastEntry, sameEntry]

theorem UidLog.compacted (log : UidLog cache) (perm : written.Perm (collapse (keptEntries cache))) :
    UidLog written where
  rising := rising_of_nodup (compacted_nodup perm)
  owner first firstMem second secondMem :=
    log.owner first (cacheValues_subset (compacted_subset perm) firstMem)
      second (cacheValues_subset (compacted_subset perm) secondMem)

theorem CoversLog.of_compacted {top : Nat} (log : UidLog cache)
    (perm : written.Perm (collapse (keptEntries cache))) (covers : CoversLog top written) :
    CoversLog top cache := by
  intro line mem
  obtain ⟨last, isLast⟩ := lastValue_isSome (mem_cacheValues.mp mem)
  have below : line.uidDn ≤ last.uidDn := log.rising.le_last mem isLast
  rw [← (lastValue_mem isLast).2] at isLast
  cases stale : (LogEntry.value last).stale with
  | true =>
    cases last with
    | message msg => cases stale
    | expunge record =>
      have zero : record.uidDn = 0 := (stale_ignored stale).1
      rw [show (expunge record).uidDn = 0 from zero] at below
      exact le_trans below (Nat.zero_le _)
  | false =>
    have kept := lastValue_kept_of_not_stale isLast stale
    rw [← lastValue_of_perm perm] at kept
    exact le_trans below (covers last (mem_cacheValues.mpr (lastValue_mem kept).1))

theorem CoversLog.of_append {top : Nat} {entry : LogEntry}
    (covers : CoversLog top (cache ++ [entry])) : CoversLog top cache := fun line mem =>
  covers line (cacheValues_subset (subset_append_left _ _) mem)

theorem lastUidvlds_note {entry : LogEntry} (noValidity : ∀ up dn, entry ≠ .uidvlds up dn) :
    lastUidvlds (cache ++ [entry]) = lastUidvlds cache := by
  rw [lastUidvlds_snoc]
  cases entry with
  | uidvlds up dn => exact absurd rfl (noValidity up dn)
  | himodseqUp himodseq | modseqDn modseq | value content => rfl

theorem Ledger.uidLog {top : Nat} {trees : Trees}
    (ledger : Ledger .uidDn top trees (cacheValues cache)) : UidLog cache where
  rising := ledger.rising
  owner first firstMem second secondMem :=
    ledger.issued.owner _ ⟨first, mem_append_right _ firstMem, rfl⟩ _
      ⟨second, mem_append_right _ secondMem, rfl⟩

namespace Box

variable {host : Host} {box next : Box} {top : Nat}

/-! ### The changes -/

/-- The bookkeeping of the `uid_dn` with a counter at `top`. -/
structure UidLedger (top : Nat) (box : Box) : Prop where
  ledger : Ledger .uidDn top box.store.toTrees (cacheValues box.disk.cache)
  trail : ∀ disk ∈ box.trail, UidLog disk.cache

namespace UidLedger

/-- The memory changes. -/
theorem memory {after : Nat} (ledger : UidLedger top box) (disk : next.disk = box.disk)
    (trail : next.trail = box.trail)
    (changed : Ledger .uidDn after next.store.toTrees (cacheValues box.disk.cache)) :
    UidLedger after next := ⟨disk ▸ changed, trail ▸ ledger.trail⟩

variable {assigned : List Assignment}

section

variable (ledger : UidLedger top box)

include ledger

/-- A line is written. -/
theorem append {entry : LogEntry} (appended : Appended box entry assigned next)
    (written : Ledger .uidDn top box.store.toTrees (cacheValues (box.disk.cache ++ [entry]))) :
    UidLedger top next where
  ledger := by
    rw [appended.trees]
    exact appended.ledger written
  trail disk mem := by
    rcases appended.trail disk mem with old | here | ⟨line, -⟩
    · exact ledger.trail disk old
    · rw [here]
      exact (appended.ledger written).uidLog
    · rw [line]
      exact written.uidLog

theorem appendNote {entry : LogEntry} (appended : Appended box entry assigned next)
    (noValue : entry.content? = none) : UidLedger top next := by
  have values : cacheValues (box.disk.cache ++ [entry]) = cacheValues box.disk.cache := by
    rw [cacheValues_append]
    have nothing : cacheValues [entry] = [] :=
      filterMap_eq_nil_iff.mpr fun other mem => by rwa [mem_singleton.mp mem]
    rw [nothing, append_nil]
  exact ledger.append appended (values ▸ ledger.ledger)

theorem appendValue {value : LogValue} (appended : Appended box (.value value) assigned next)
    (written : Ledger .uidDn top box.store.toTrees (cacheValues box.disk.cache ++ [value])) :
    UidLedger top next := by
  have values : cacheValues (box.disk.cache ++ [.value value]) = cacheValues box.disk.cache ++ [value] :=
    cacheValues_append _ _
  exact ledger.append appended (values ▸ written)

theorem appendMsg (sound : Sound box) {msg : Msg} (mem : msg ∈ box.store.msgs)
    (state : msg.state ≠ .expunged)
    (appended : Appended box (.value (.message msg.logged)) assigned next) :
    UidLedger top next := by
  refine ledger.appendValue appended (ledger.ledger.appendMsg sound.keyed.msgsSorted mem state ?_)
  intro record recordMem same
  exact ⟨(sound.pushed_of_apart mem state recordMem same).1,
    sound.keyed.apart msg mem state record recordMem same⟩

theorem appendExpunge {record : Expunge} (sorted : Sorted Expunge.key box.store.expunged)
    (mem : record ∈ box.store.expunged)
    (above : ∀ line ∈ cacheValues box.disk.cache, line.key = record.key → line.uidDn ≤ record.uidDn)
    (appended : Appended box (.value (.expunge record)) assigned next) : UidLedger top next :=
  ledger.appendValue appended (ledger.ledger.appendExpunge sorted mem above)

theorem msg_above {msg : Msg} (mem : msg ∈ box.store.msgs) (state : msg.state ≠ .expunged)
    (fresh : box.findExpunge msg.key = none) :
    ∀ line ∈ cacheValues box.disk.cache, line.key = msg.key → line.uidDn ≤ msg.uidDn :=
  ledger.ledger.msg msg mem state fun record recordMem same =>
    absurd same (find_eq_none.mp fresh record recordMem)

/-- An expunge is entered with the number of its message. -/
theorem insertExpunge {msg : Msg} (mem : msg ∈ box.store.msgs) (state : msg.state ≠ .expunged)
    (fresh : box.findExpunge msg.key = none) {record : Expunge} (key : record.key = msg.key)
    (uidDn : record.uidDn = msg.uidDn) (disk : next.disk = box.disk)
    (trail : next.trail = box.trail) (msgs : next.store.msgs = box.store.msgs)
    (expunged : next.store.expunged = insert Expunge.key record box.store.expunged) :
    UidLedger top next := by
  refine ledger.memory disk trail (ledger.ledger.insertExpunge msgs expunged ?_ fun _ line inLines same => ?_)
  · have known : (record.key, (expunge record).number .uidDn) ∈
        numbered .uidDn (box.store.toTrees.values ++ cacheValues box.disk.cache) :=
      ⟨.message msg, mem_append_left _ (mem_values.mpr (.inl ⟨msg, mem, rfl⟩)),
        Prod.ext key uidDn⟩
    rw [Set.insert_eq_of_mem known]
    exact ledger.ledger.issued
  · show line.uidDn ≤ record.uidDn
    rw [uidDn]
    exact ledger.msg_above mem state fresh line inLines (same.trans key)

end

end UidLedger

/-- The counter after a change. -/
def ChangeKind.count (kind : ChangeKind) (top : Nat) : Nat := if kind.finalizes then top + 1 else top

theorem enterExpunge_fields (box : Box) (record : Expunge) :
    (box.enterExpunge record).disk = box.disk ∧ (box.enterExpunge record).trail = box.trail ∧
      (box.enterExpunge record).store.msgs = box.store.msgs ∧
        (box.enterExpunge record).store.expunged =
          insert Expunge.key record box.store.expunged := by
  unfold enterExpunge takeModseq
  split
  · exact ⟨rfl, rfl, rfl, rfl⟩
  · exact ⟨rfl, rfl, rfl, rfl⟩

variable {kind : ChangeKind}

/-- Every change keeps the bookkeeping; a message is finalized with the number after the counter. -/
theorem Change.uidLedger (change : Change host box kind next) (sound : Sound box)
    (counter : kind.finalizes = true → top = box.store.hiUidDn) (ledger : UidLedger top box) :
    UidLedger (kind.count top) next := by
  cases change with
  | disk disk cache assigned invalid =>
    refine ⟨?_, fun other mem => ?_⟩
    · show Ledger .uidDn top box.store.toTrees (cacheValues disk.cache)
      rw [cache]
      exact ledger.ledger
    · rcases mem_append.mp mem with old | last
      · exact ledger.trail other old
      · rw [mem_singleton.mp last, cache]
        exact ledger.ledger.uidLog
  | himodseqUp himodseqUp =>
    have noted : UidLedger top { box with store := { box.store with himodseqUp } } :=
      ⟨ledger.ledger, ledger.trail⟩
    exact noted.appendNote (append_spec host _ _ _) rfl
  | takeLocal uidUp =>
    unfold Box.takeLocal
    split
    · exact ledger
    · exact ⟨ledger.ledger, ledger.trail⟩
  | meet key internaldate flags fresh unseen apart locals =>
    have inserted : UidLedger top (box.insertMsg (.unfilled key internaldate flags)) :=
      ledger.memory rfl rfl (ledger.ledger.insertMsg rfl rfl rfl unseen)
    exact inserted.appendMsg (sound.insertMsg internaldate flags fresh unseen apart)
      (mem_insert.mpr (.inl rfl)) nofun (append_spec host _ _ _)
  | edit key change edits unseen =>
    refine ledger.memory rfl rfl (ledger.ledger.updateMsg rfl rfl
      (fun msg mem same => (edits msg mem same).key.trans same)
      (fun msg mem same state isExpunged => ?_)
      (.inl ⟨rfl, fun msg mem same => (edits msg mem same).uidDn⟩))
    exact state ((edits msg mem same).expunged.mpr isExpunged)
  | save msg mem unnumbered =>
    exact ledger.appendMsg sound mem (ne_expunged_of_unnumbered unnumbered) (append_spec host _ _ _)
  | finalize msg mem unnumbered =>
    have isCounter := counter rfl
    subst isCounter
    have finalized : UidLedger (box.store.hiUidDn + 1) (box.finalizeMsg msg.key) := by
      refine ledger.memory rfl rfl (ledger.ledger.updateMsg rfl rfl (fun _ _ same => same)
        (fun other otherMem same _ => ?_) (.inr ⟨rfl, fun _ _ _ => rfl⟩))
      rw [sound.keyed.msgsSorted.eq_of_key otherMem mem same]
      exact ne_expunged_of_unnumbered unnumbered
    have inMsgs : box.finalized msg ∈ (box.finalizeMsg msg.key).store.msgs :=
      mem_update.mpr (.inr ⟨msg, mem, rfl, rfl⟩)
    have saved := finalized.appendMsg (sound.finalizeMsg mem unnumbered) inMsgs nofun
      (append_spec host _ _ [⟨box.store.uidvldDn, box.store.hiUidDn + 1, msg.key⟩])
    exact ⟨saved.ledger, saved.trail⟩
  | bump msg flags mem numbered =>
    have bumped : UidLedger top (box.bumpFlags msg flags) :=
      ledger.memory rfl rfl (ledger.ledger.updateMsg rfl rfl (fun _ _ same => same)
        (fun _ _ _ state => state) (.inl ⟨rfl, fun _ _ _ => rfl⟩))
    have inMsgs : box.flagged msg flags ∈ (box.bumpFlags msg flags).store.msgs :=
      mem_update.mpr (.inr ⟨msg, mem, rfl, rfl⟩)
    suffices saved : UidLedger top ((box.bumpFlags msg flags).append host (box.flagsLine msg flags) [])
      from ⟨saved.ledger, saved.trail⟩
    unfold flagsLine
    split
    · exact bumped.appendNote (append_spec host _ _ _) rfl
    · rename_i state
      exact bumped.appendMsg (sound.bumpFlags mem numbered flags) inMsgs state (append_spec host _ _ _)
  | push record mem unpushed =>
    have marked : UidLedger top (box.markPushed record.key) :=
      ledger.memory rfl rfl (ledger.ledger.pushExpunge rfl rfl)
    have inExpunged : { record with state := .pushed } ∈ (box.markPushed record.key).store.expunged :=
      mem_update.mpr (.inr ⟨record, mem, rfl, rfl⟩)
    have markedSound : Sound (box.markPushed record.key) := sound.markPushed rfl rfl rfl rfl rfl rfl
    exact marked.appendExpunge markedSound.keyed.expungedSorted inExpunged (ledger.ledger.unpushed record mem unpushed)
      (append_spec host _ _ _)
  | discard msg mem unnumbered fresh =>
    have state := ne_expunged_of_unnumbered unnumbered
    have zero : msg.uidDn = 0 := by
      by_contra nonzero
      rw [(sound.keyed.msg msg mem).2.mp nonzero] at unnumbered
      cases unnumbered
    have entered : UidLedger top (box.enterExpunge ⟨msg.key, 0, .pushed, 0⟩) :=
      ledger.insertExpunge mem state fresh rfl zero.symm rfl rfl rfl rfl
    refine entered.appendExpunge (sound.keyed.expungedSorted.insert _ (find_eq_none.mp fresh))
      (mem_insert.mpr (.inl rfl)) (fun line inLines same => ?_) (append_spec host _ _ _)
    exact zero ▸ ledger.msg_above mem state fresh line inLines same
  | expire msg mem filled fresh =>
    have state : msg.state ≠ .expunged := by
      rw [filled]
      exact nofun
    obtain ⟨disk, trail, msgs, expunged⟩ := enterExpunge_fields box (box.newExpunge msg.key msg.uidDn .pushed)
    have entered : UidLedger top (box.enterExpunge (box.newExpunge msg.key msg.uidDn .pushed)) :=
      ledger.insertExpunge mem state fresh rfl rfl disk trail msgs expunged
    have expired : UidLedger top
        ((box.enterExpunge (box.newExpunge msg.key msg.uidDn .pushed)).expire msg.key) :=
      entered.memory rfl rfl (entered.ledger.updateMsg rfl rfl (fun _ _ same => same)
        (fun _ _ _ state => absurd rfl state) (.inl ⟨rfl, fun _ _ _ => rfl⟩))
    have sorted : Sorted Expunge.key
        ((box.enterExpunge (box.newExpunge msg.key msg.uidDn .pushed)).expire msg.key).store.expunged := by
      show Sorted Expunge.key (box.enterExpunge _).store.expunged
      rw [expunged]
      exact sound.keyed.expungedSorted.insert _ (find_eq_none.mp fresh)
    have inExpunged : box.newExpunge msg.key msg.uidDn .pushed ∈
        (box.enterExpunge (box.newExpunge msg.key msg.uidDn .pushed)).store.expunged := by
      rw [expunged]
      exact mem_insert.mpr (.inl rfl)
    have saved := expired.appendExpunge sorted inExpunged (fun line inLines same => by
      have inCache : line ∈ cacheValues (box.enterExpunge
        (box.newExpunge msg.key msg.uidDn .pushed)).disk.cache := inLines
      rw [disk] at inCache
      exact ledger.msg_above mem state fresh line inCache same) (append_spec host _ _ [])
    exact ⟨saved.ledger, saved.trail⟩
  | expireKnown msg record mem filled recordMem same =>
    have expired : UidLedger top (box.expire msg.key) :=
      ledger.memory rfl rfl (ledger.ledger.updateMsg rfl rfl (fun _ _ same => same)
        (fun _ _ _ state => absurd rfl state) (.inl ⟨rfl, fun _ _ _ => rfl⟩))
    exact ⟨expired.ledger, expired.trail⟩
  | drop msg old mem key modseq has free state =>
    have dropped : ∀ box : Box, (∃ record ∈ box.store.expunged, record.key = msg.key) → box.Sound →
        UidLedger top box → UidLedger top (box.dropMsg msg) := fun box has sound ledger =>
      ledger.memory rfl rfl (ledger.ledger.dropMsg sound.keyed.msgsSorted rfl rfl has)
    unfold removeAndDeleteMsg
    split
    · rename_i file _
      have removed : UidLedger top (box.removeFile file) := by
        refine ⟨ledger.ledger, fun other mem => ?_⟩
        rcases mem_append.mp mem with old | last
        · exact ledger.trail other old
        · rw [mem_singleton.mp last]
          exact ledger.ledger.uidLog
      exact dropped (box.removeFile file) has (sound.write rfl) removed
    · exact dropped box has sound ledger
  | missing msg mem filled fresh noDns =>
    have state : msg.state ≠ .expunged := by
      rw [filled]
      exact nofun
    obtain ⟨msgs, expunged, -⟩ := takeModseq_trees box msg.uidDn
    obtain ⟨disk, trail, -⟩ := takeModseq_quiet box msg.uidDn
    have entered : UidLedger top ((box.takeModseq msg.uidDn).insertExpunge
        (box.newExpunge msg.key msg.uidDn .unpushed)) := by
      have key : (box.newExpunge msg.key msg.uidDn .unpushed).key = msg.key := rfl
      refine ledger.insertExpunge mem state fresh key rfl disk trail msgs ?_
      show insert _ _ (box.takeModseq msg.uidDn).store.expunged = _
      rw [expunged]
    have inExpunged : box.newExpunge msg.key msg.uidDn .unpushed ∈ ((box.takeModseq msg.uidDn).insertExpunge
        (box.newExpunge msg.key msg.uidDn .unpushed)).store.expunged := mem_insert.mpr (.inl rfl)
    have dropped : UidLedger top (((box.takeModseq msg.uidDn).insertExpunge
        (box.newExpunge msg.key msg.uidDn .unpushed)).dropMsg msg) := by
      refine entered.memory rfl rfl (entered.ledger.dropMsg ?_ rfl rfl ⟨_, inExpunged, rfl⟩)
      show Sorted Msg.key (box.takeModseq msg.uidDn).store.msgs
      rw [msgs]
      exact sound.keyed.msgsSorted
    refine dropped.appendExpunge ?_ inExpunged (fun line inLines same => ?_) (append_spec host _ _ _)
    · show Sorted Expunge.key (insert _ _ (box.takeModseq msg.uidDn).store.expunged)
      rw [expunged]
      exact sound.keyed.expungedSorted.insert _ (find_eq_none.mp fresh)
    · have inCache : line ∈ cacheValues (box.takeModseq msg.uidDn).disk.cache := inLines
      rw [disk] at inCache
      exact ledger.msg_above mem state fresh line inCache same
  | openDn id examine full => exact ⟨ledger.ledger, ledger.trail⟩
  | forgetDn id => exact ⟨ledger.ledger, ledger.trail⟩
  | callDn id dn after call responses freed mem result => exact ⟨ledger.ledger, ledger.trail⟩
  | syncDn id resp => exact ⟨ledger.ledger, ledger.trail⟩

theorem Change.hiUidDn (change : Change host box kind next) :
    next.store.hiUidDn = kind.count box.store.hiUidDn := by
  unfold ChangeKind.count
  cases change.effect with
  | quiet quiet kept => rw [kept, quiet.hiUidDn, if_neg nofun]
  | line entry written kept hiUidDn noValidity => rw [kept, hiUidDn, if_neg nofun]
  | assignment msg uidDn written finalizes hiUidDn => rw [finalizes, hiUidDn, if_pos rfl]

theorem foldl_max_le {values : List Nat} {start bound : Nat} (values_le : ∀ value ∈ values, value ≤ bound)
    (start_le : start ≤ bound) : values.foldl max start ≤ bound := by
  induction values generalizing start with
  | nil => exact start_le
  | cons head rest ih =>
    exact ih (fun value mem => values_le value (.tail _ mem))
      (max_le start_le (values_le head mem_cons_self))

/-! ### The assignments -/

/-- A line is written: what is on disk then. -/
theorem Written.uids {entry : LogEntry} {given : List Assignment} (written : Written box entry given next)
    (trail : ∀ disk ∈ box.trail, disk.Uids) (valid : box.disk.invalid = false)
    (log : UidLog (box.disk.cache ++ [entry])) (assigned : Assigned (box.disk.assigned ++ given))
    (covered : ∀ each ∈ box.disk.assigned ++ given,
      each.uidvldDn = (lastUidvlds (box.disk.cache ++ [entry])).2 →
        ∀ top, CoversLog top (box.disk.cache ++ [entry]) → each.uidDn ≤ top) :
    next.disk.Uids ∧ (∀ disk ∈ next.trail, disk.Uids) ∧ next.disk.invalid = false ∧
      lastUidvlds next.disk.cache = lastUidvlds (box.disk.cache ++ [entry]) := by
  have whole : ∀ disk : Disk, disk.cache = box.disk.cache ++ [entry] →
      disk.assigned = box.disk.assigned ++ given → disk.invalid = box.disk.invalid → disk.Uids := by
    intro disk cache sameAssigned invalid
    refine ⟨cache ▸ log, sameAssigned ▸ assigned, ?_, fun isInvalid => ?_⟩
    · rw [cache, sameAssigned]
      exact covered
    · rw [invalid, valid] at isInvalid
      cases isInvalid
  have here : next.disk.Uids ∧ lastUidvlds next.disk.cache = lastUidvlds (box.disk.cache ++ [entry]) := by
    rcases written.cache with equal | perm
    · exact ⟨whole next.disk equal written.assigned written.invalid, by rw [equal]⟩
    · have same := lastUidvlds_compacted perm
      refine ⟨⟨log.compacted perm, written.assigned ▸ assigned, ?_, fun isInvalid => ?_⟩, same⟩
      · rw [written.assigned, same]
        exact fun other mem isCurrent top covers =>
          covered other mem isCurrent top (covers.of_compacted log perm)
      · rw [written.invalid, valid] at isInvalid
        cases isInvalid
  refine ⟨here.1, fun disk mem => ?_, written.invalid.trans valid, here.2⟩
  rcases written.trail disk mem with old | now | ⟨cache, sameAssigned, invalid⟩
  · exact trail disk old
  · rw [now]
    exact here.1
  · exact whole disk cache sameAssigned invalid

/-- What the disk and the memory are at any time, with a counter at `top`. -/
structure Tracked (top : Nat) (box : Box) : Prop where
  ledger : UidLedger top box
  valid : box.disk.invalid = false
  validity : (lastUidvlds box.disk.cache).2 = box.store.uidvldDn
  given : ∀ given ∈ box.disk.assigned, given.uidvldDn = box.store.uidvldDn → given.uidDn ≤ top
  disk : box.disk.Uids
  trail : ∀ disk ∈ box.trail, disk.Uids

theorem Change.tracked (change : Change host box kind next) (sound : Sound box)
    (counter : kind.finalizes = true → top = box.store.hiUidDn) (tracked : Tracked top box) :
    Tracked (kind.count top) next := by
  have ledger := change.uidLedger sound counter tracked.ledger
  have uidvldDn := change.validity.2.2
  cases change.effect with
  | quiet quiet kept =>
    have count : kind.count top = top := by
      unfold ChangeKind.count
      rw [kept]
      rfl
    have same : ∀ disk : Disk, disk.cache = box.disk.cache → disk.assigned = box.disk.assigned →
        disk.invalid = box.disk.invalid → disk.Uids := fun disk cache assigned invalid =>
      ⟨cache ▸ tracked.disk.log, assigned ▸ tracked.disk.assigned,
        cache ▸ assigned ▸ tracked.disk.covered, invalid ▸ assigned ▸ tracked.disk.invalid⟩
    refine ⟨ledger, quiet.invalid.trans tracked.valid, ?_, ?_,
      same _ quiet.cache quiet.assigned quiet.invalid, fun disk mem => ?_⟩
    · rw [quiet.cache, uidvldDn]
      exact tracked.validity
    · rw [quiet.assigned, uidvldDn, count]
      exact tracked.given
    · rcases quiet.trail disk mem with old | ⟨cache, assigned, invalid⟩
      · exact tracked.trail disk old
      · exact same disk cache assigned invalid
  | line entry written kept hiUidDn noValidity =>
    have count : kind.count top = top := by
      unfold ChangeKind.count
      rw [kept]
      rfl
    obtain ⟨first, firstMem, firstCache⟩ := written.written
    have log : UidLog (box.disk.cache ++ [entry]) := firstCache ▸ ledger.trail first firstMem
    have note : lastUidvlds (box.disk.cache ++ [entry]) = lastUidvlds box.disk.cache :=
      lastUidvlds_note noValidity
    obtain ⟨disk, trail, valid, last⟩ := written.uids tracked.trail tracked.valid log
      (by rw [append_nil]; exact tracked.disk.assigned) (by
        rw [append_nil, note]
        exact fun given mem isCurrent top covers =>
          tracked.disk.covered given mem isCurrent top covers.of_append)
    refine ⟨ledger, valid, ?_, ?_, disk, trail⟩
    · rw [last, note, uidvldDn]
      exact tracked.validity
    · rw [written.assigned, append_nil, uidvldDn, count]
      exact tracked.given
  | assignment msg uidDn written finalizes hiUidDn =>
    have isCounter := counter finalizes
    subst isCounter
    have count : kind.count box.store.hiUidDn = box.store.hiUidDn + 1 := by
      unfold ChangeKind.count
      rw [finalizes]
      rfl
    obtain ⟨first, firstMem, firstCache⟩ := written.written
    have log : UidLog (box.disk.cache ++ [.value (.message msg)]) :=
      firstCache ▸ ledger.trail first firstMem
    have note : lastUidvlds (box.disk.cache ++ [.value (.message msg)]) = lastUidvlds box.disk.cache :=
      lastUidvlds_note nofun
    have increasing : Assigned (box.disk.assigned ++
        [⟨box.store.uidvldDn, box.store.hiUidDn + 1, msg.key⟩]) := by
      refine pairwise_append.mpr ⟨tracked.disk.assigned, pairwise_singleton _ _, ?_⟩
      intro earlier earlierMem later laterMem same
      rw [mem_singleton.mp laterMem] at same ⊢
      exact Nat.lt_succ_of_le (tracked.given earlier earlierMem same)
    obtain ⟨disk, trail, valid, last⟩ := written.uids tracked.trail tracked.valid log increasing (by
        rw [note]
        intro given mem isCurrent top covers
        rcases mem_append.mp mem with old | new
        · exact tracked.disk.covered given old isCurrent top covers.of_append
        · rw [mem_singleton.mp new, ← uidDn]
          exact covers (.message msg)
            (mem_cacheValues.mpr (mem_append_right _ (mem_singleton_self _))))
    refine ⟨ledger, valid, ?_, ?_, disk, trail⟩
    · rw [last, note, uidvldDn]
      exact tracked.validity
    · rw [written.assigned, uidvldDn, count]
      intro given mem isCurrent
      rcases mem_append.mp mem with old | new
      · exact Nat.le_succ_of_le (tracked.given given old isCurrent)
      · rw [mem_singleton.mp new]

/-! ### Rebuilding the counter -/

/-- The number is in memory, or there is none. -/
def Attained (top : Nat) (trees : Trees) : Prop := top = 0 ∨ ∃ value ∈ trees.values, value.uidDn = top

end Box

/-- The log has no `uid_dn`. A cache that is being dropped has none. -/
def Disk.Unnumbered (disk : Disk) : Prop :=
  disk.invalid = true ∨ ∀ value ∈ cacheValues disk.cache, value.uidDn = 0

instance (disk : Disk) : Decidable disk.Unnumbered := inferInstanceAs (Decidable (_ ∨ _))

namespace Box

variable {host : Host} {box next : Box} {top : Nat}

/-- While a mailbox is opened the counter is not there yet: what it will be is in memory. Without
numbers in the log it is zero from the start. -/
structure Rebuilding (start : Disk) (top : Nat) (box : Box) : Prop where
  tracked : Tracked top box
  attained : Attained top box.store.toTrees
  below : box.store.hiUidDn ≤ top
  exact : start.Unnumbered → box.store.hiUidDn = top

/-- What is done while a mailbox is opened: messages are finalized only if the log had no
numbers. -/
def RebuildsWith (start : Disk) (kind : ChangeKind) : Prop :=
  kind = .plain ∨ kind = .missing ∨ (kind.finalizes = true ∧ start.Unnumbered)

/-- The numbers in memory stay, but for a higher one. -/
theorem Change.attained {start : Disk} {kind : ChangeKind} (change : Change host box kind next)
    (sound : Sound box) (allowed : RebuildsWith start kind)
    (counter : kind.finalizes = true → top = box.store.hiUidDn)
    (attained : Attained top box.store.toTrees) : Attained (kind.count top) next.store.toTrees := by
  -- a value with the number is found again after the change
  have found : ∀ other : Trees, (∀ value ∈ box.store.toTrees.values,
      ∃ after ∈ other.values, after.uidDn = value.uidDn) → Attained top other := by
    rintro other again
    rcases attained with none | ⟨value, mem, equal⟩
    · exact .inl none
    · obtain ⟨after, afterMem, same⟩ := again value mem
      exact .inr ⟨after, afterMem, same.trans equal⟩
  cases change with
  | disk disk cache assigned invalid => exact attained
  | edit key change edits unseen =>
    refine found _ fun value mem => ?_
    rcases mem_values.mp mem with ⟨msg, inMsgs, rfl⟩ | ⟨record, inExpunged, rfl⟩
    · by_cases same : msg.key = key
      · exact ⟨.message (change msg), mem_values.mpr (.inl ⟨change msg,
          mem_update.mpr (.inr ⟨msg, inMsgs, same, rfl⟩), rfl⟩), (edits msg inMsgs same).uidDn⟩
      · exact ⟨.message msg, mem_values.mpr (.inl ⟨msg,
          mem_update.mpr (.inl ⟨inMsgs, same⟩), rfl⟩), rfl⟩
    · exact ⟨.expunge record, mem_values.mpr (.inr ⟨record, inExpunged, rfl⟩), rfl⟩
  | finalize msg mem unnumbered =>
    have isCounter := counter rfl
    subst isCounter
    have trees := (append_spec host (box.finalizeMsg msg.key)
      (.value (.message (box.finalized msg).logged))
      [⟨box.store.uidvldDn, box.store.hiUidDn + 1, msg.key⟩]).trees
    refine .inr ⟨.message (box.finalized msg), mem_values.mpr (.inl ⟨box.finalized msg, ?_, rfl⟩), rfl⟩
    have inMsgs : box.finalized msg ∈ (box.finalizeMsg msg.key).store.toTrees.msgs :=
      mem_update.mpr (.inr ⟨msg, mem, rfl, rfl⟩)
    rw [← trees] at inMsgs
    exact inMsgs
  | missing msg mem filled fresh noDns =>
    obtain ⟨msgs, expunged, -⟩ := takeModseq_trees box msg.uidDn
    rw [(append_spec host _ _ _).trees]
    refine found _ fun value inValues => ?_
    rcases mem_values.mp inValues with ⟨other, inMsgs, rfl⟩ | ⟨record, inExpunged, rfl⟩
    · by_cases same : other.key = msg.key
      · -- the number of the message is now that of its expunge
        rw [sound.keyed.msgsSorted.eq_of_key inMsgs mem same]
        exact ⟨.expunge (box.newExpunge msg.key msg.uidDn .unpushed), mem_values.mpr (.inr
          ⟨_, mem_insert.mpr (.inl rfl), rfl⟩), rfl⟩
      · refine ⟨.message other, mem_values.mpr (.inl ⟨other, ?_, rfl⟩), rfl⟩
        show other ∈ erase _ _ (box.takeModseq msg.uidDn).store.msgs
        rw [msgs]
        exact sound.keyed.msgsSorted.mem_erase.mpr ⟨inMsgs, same⟩
    · refine ⟨.expunge record, mem_values.mpr (.inr ⟨record, ?_, rfl⟩), rfl⟩
      show record ∈ insert _ _ (box.takeModseq msg.uidDn).store.expunged
      rw [expunged]
      exact mem_insert.mpr (.inr inExpunged)
  | himodseqUp himodseqUp | takeLocal uidUp | meet key internaldate flags fresh unseen apart locals
  | save msg mem unnumbered | bump msg flags mem numbered | push record mem unpushed
  | discard msg mem unnumbered fresh | expire msg mem filled fresh
  | expireKnown msg record mem filled recordMem same | drop msg old mem key modseq has free state
  | openDn id examine full | forgetDn id | callDn id dn after call responses freed mem result
  | syncDn id resp =>
    rcases allowed with plain | missing | ⟨finalizes, -⟩
    · cases plain
    · cases missing
    · cases finalizes

theorem Change.rebuilding {start : Disk} {kind : ChangeKind} (change : Change host box kind next)
    (sound : Sound box) (allowed : RebuildsWith start kind) (rebuilding : Rebuilding start top box) :
    Rebuilding start (kind.count top) next := by
  have counter : kind.finalizes = true → top = box.store.hiUidDn := by
    intro finalizes
    rcases allowed with rfl | rfl | ⟨-, unnumbered⟩
    · cases finalizes
    · cases finalizes
    · exact (rebuilding.exact unnumbered).symm
  refine ⟨change.tracked sound counter rebuilding.tracked,
    change.attained sound allowed counter rebuilding.attained, ?_, fun unnumbered => ?_⟩
  · rw [change.hiUidDn]
    unfold ChangeKind.count
    split
    · exact Nat.succ_le_succ rebuilding.below
    · exact rebuilding.below
  · rw [change.hiUidDn]
    unfold ChangeKind.count
    rw [rebuilding.exact unnumbered]

theorem Rebuilding.detectHi {start : Disk} (rebuilding : Rebuilding start top box) :
    box.detectHi.store.hiUidDn = top := by
  have bound : ∀ value ∈ box.store.toTrees.values, value.uidDn ≤ top := fun value mem =>
    rebuilding.tracked.ledger.ledger.issued.bound _ ⟨value, mem_append_left _ mem, rfl⟩
  have values : box.store.msgs.map Msg.uidDn ++ box.store.expunged.map Expunge.uidDn =
      box.store.toTrees.values.map uidDn := by
    unfold Trees.values
    rw [map_append, map_map, map_map]
    rfl
  show (box.store.msgs.map Msg.uidDn ++ box.store.expunged.map Expunge.uidDn).foldl max
    box.store.hiUidDn = top
  rw [values]
  refine le_antisymm ?_ ?_
  · refine foldl_max_le (fun number mem => ?_) rebuilding.below
    obtain ⟨value, inValues, rfl⟩ := mem_map.mp mem
    exact bound value inValues
  · rcases rebuilding.attained with none | ⟨value, mem, equal⟩
    · rw [none]
      exact Nat.zero_le _
    · rw [← equal]
      exact le_foldl_max (.inl (mem_map_of_mem mem))

theorem foldl_max_mem (values : List Nat) (start : Nat) :
    values.foldl max start = start ∨ values.foldl max start ∈ values := by
  induction values generalizing start with
  | nil => exact .inl rfl
  | cons head rest ih =>
    rw [foldl_cons]
    rcases ih (max start head) with equal | mem
    · rcases le_total head start with below | above
      · exact .inl (equal.trans (max_eq_left below))
      · exact .inr (mem_cons.mpr (.inl (equal.trans (max_eq_right above))))
    · exact .inr (.tail _ mem)

/-- A log is removed: nothing was assigned under the `uidvld_dn` of an empty log. -/
theorem uids_of_nil {disk : Disk} (cache : disk.cache = []) (assigned : Assigned disk.assigned)
    (nonzero : ∀ given ∈ disk.assigned, given.uidvldDn ≠ 0) : disk.Uids := by
  refine ⟨cache ▸ UidLog.nil, assigned, ?_, fun _ => nonzero⟩
  rw [cache]
  exact fun given mem isZero => absurd isZero (nonzero given mem)

theorem Initial.uids {disk : Disk} {lite : Bool} (initial : Initial disk lite box) (uids : disk.Uids) :
    box.disk.Uids ∧ box.disk.invalid = false ∧ ∀ written ∈ box.trail, written.Uids := by
  have empty : ∀ written : Disk, written.cache = [] → written.assigned = disk.assigned →
      disk.invalid = true → written.Uids := fun written cache assigned invalid =>
    uids_of_nil cache (assigned ▸ uids.assigned) (assigned ▸ uids.invalid invalid)
  refine ⟨?_, ?_, fun written mem => ?_⟩
  · rw [initial.disk]
    split
    · rename_i invalid
      exact empty _ rfl rfl invalid
    · exact uids
  · rw [initial.disk]
    split
    · rfl
    · rename_i valid
      exact Bool.eq_false_iff.mpr valid
  · obtain ⟨cache, assigned, invalid⟩ := initial.trail written mem
    exact empty written cache assigned invalid

theorem coversLog_values {trees : Trees} {cache : List LogEntry} (holds : trees.Hold cache)
    (log : UidLog cache) : CoversLog ((trees.values.map uidDn).foldl max 0) cache := by
  intro line mem
  by_cases zero : line.uidDn = 0
  · rw [zero]
    exact Nat.zero_le _
  obtain ⟨last, isLast⟩ := lastValue_isSome (mem_cacheValues.mp mem)
  have below : line.uidDn ≤ last.uidDn := log.rising.le_last mem isLast
  refine le_trans below (le_foldl_max (.inl (mem_map_of_mem (mem_values.mpr ?_))))
  rw [← (lastValue_mem isLast).2] at isLast
  cases last with
  | message msg => exact .inl ⟨msg, (holds.mem_msgs msg).mpr isLast, rfl⟩
  | expunge record =>
    refine .inr ⟨record, (holds.mem_expunged record).mpr ⟨isLast, fun ignored => ?_⟩, rfl⟩
    have nothing : (expunge record).uidDn = 0 := ignored.1
    rw [nothing] at below
    exact zero (Nat.le_zero.mp below)

theorem rebuilding_loaded {disk : Disk} {lite : Bool} {read : LogState} (uids : disk.Uids)
    (describes : read.Describes (Box.initial disk lite).disk.cache) :
    ∃ top, Rebuilding disk top ((Box.initial disk lite).loaded read) := by
  have initial := initial_spec disk lite
  obtain ⟨here, valid, trail⟩ := initial.uids uids
  have trees : ((Box.initial disk lite).loaded read).store.toTrees = read.toTrees := read.finish_trees
  have covers := coversLog_values describes.trees here.log
  have subset := describes.trees.values_subset
  have uidvldDn : ((Box.initial disk lite).loaded read).store.uidvldDn =
      (lastUidvlds (Box.initial disk lite).disk.cache).2 :=
    read.finish_uidvldDn.trans describes.uidvldDn
  refine ⟨(read.toTrees.values.map uidDn).foldl max 0,
    ⟨⟨?_, fun written mem => (trail written mem).log⟩, valid, uidvldDn.symm, ?_, here, trail⟩,
    ?_, ?_, fun unnumbered => ?_⟩
  · rw [trees]
    refine describes.trees.ledger ⟨?_, ?_⟩ here.log.rising fun record ignored => ignored.1
    · rintro pair ⟨line, mem, rfl⟩
      exact covers line mem
    · rintro first ⟨firstLine, firstMem, rfl⟩ second ⟨secondLine, secondMem, rfl⟩
      exact here.log.owner firstLine firstMem secondLine secondMem
  · exact fun given mem isCurrent =>
      here.covered given mem (isCurrent.trans uidvldDn) _ covers
  · rw [trees]
    rcases foldl_max_mem (read.toTrees.values.map uidDn) 0 with none | mem
    · exact .inl none
    · obtain ⟨value, inValues, equal⟩ := mem_map.mp mem
      exact .inr ⟨value, inValues, equal⟩
  · show (Box.initial disk lite).store.hiUidDn ≤ _
    rw [initial.store]
    exact Nat.zero_le _
  · show (Box.initial disk lite).store.hiUidDn = _
    rw [initial.store]
    refine le_antisymm (Nat.zero_le _) (foldl_max_le (fun number mem => ?_) le_rfl)
    obtain ⟨value, inValues, rfl⟩ := mem_map.mp mem
    have inCache := subset inValues
    rw [initial.disk] at inCache
    split at inCache
    · exact absurd inCache not_mem_nil
    · rename_i notInvalid
      exact le_of_eq (unnumbered.resolve_left notInvalid value inCache)

/-! ### A new validity -/

/-- A new validity is noted, under which nothing was assigned. -/
theorem tracked_setUidvlds (ledger : UidLedger top box) (valid : box.disk.invalid = false)
    (assigned : Assigned box.disk.assigned) (trail : ∀ disk ∈ box.trail, disk.Uids) {uidvldUp uidvldDn : Nat}
    (renews : ∀ given ∈ box.disk.assigned, given.uidvldDn ≠ uidvldDn) :
    Tracked top (box.setUidvlds host uidvldUp uidvldDn) := by
  have appended := append_spec host { box with store := { box.store with uidvldUp, uidvldDn } }
    (.uidvlds uidvldUp uidvldDn) []
  have noted : UidLedger top { box with store := { box.store with uidvldUp, uidvldDn } } :=
    ⟨ledger.ledger, ledger.trail⟩
  have after : UidLedger top (box.setUidvlds host uidvldUp uidvldDn) := noted.appendNote appended rfl
  have written : Written box (.uidvlds uidvldUp uidvldDn) [] (box.setUidvlds host uidvldUp uidvldDn) :=
    appended.written_of rfl rfl
  have validity : lastUidvlds (box.disk.cache ++ [.uidvlds uidvldUp uidvldDn]) =
      (uidvldUp, uidvldDn) := by rw [lastUidvlds_snoc]
  obtain ⟨first, firstMem, firstCache⟩ := written.written
  obtain ⟨disk, trail, valid, last⟩ := written.uids trail valid (firstCache ▸ after.trail first firstMem)
    (by rwa [append_nil]) (by
      rw [append_nil, validity]
      exact fun given mem isNew => absurd isNew (renews given mem))
  have uidvldDnEq : (box.setUidvlds host uidvldUp uidvldDn).store.uidvldDn = uidvldDn := by
    obtain ⟨lines, updates, equal⟩ := appended.store
    exact congrArg Store.uidvldDn equal
  refine ⟨after, valid, ?_, ?_, disk, trail⟩
  · rw [last, validity, uidvldDnEq]
  · rw [written.assigned, append_nil, uidvldDnEq]
    exact fun given mem isNew => absurd isNew (renews given mem)

theorem settled_setUidvlds (host : Host) (box : Box) (uidvldUp uidvldDn : Nat) :
    (box.setUidvlds host uidvldUp uidvldDn).settled =
      (box.settled.setUidvlds host uidvldUp uidvldDn).settled := by
  unfold setUidvlds append maybeCompact
  dsimp only [write, settled]
  split <;> rfl

theorem setUidvlds_hiUidDn (host : Host) (box : Box) (uidvldUp uidvldDn : Nat) :
    (box.setUidvlds host uidvldUp uidvldDn).store.hiUidDn = box.store.hiUidDn :=
  (append_spec host { box with store := { box.store with uidvldUp, uidvldDn } } _ []).hiUidDn

theorem Tracked.settled (tracked : Tracked top box) : Tracked top box.settled :=
  ⟨⟨tracked.ledger.ledger, nofun⟩, tracked.valid,
    tracked.validity, tracked.given, tracked.disk, nofun⟩

theorem Dropped.ledger (dropped : Dropped box next) :
    Ledger .uidDn top next.store.toTrees (cacheValues next.disk.cache) := by
  rw [dropped.store, dropped.disk]
  exact ⟨Issued.empty.mono fun pair mem => by
      obtain ⟨value, inValues, -⟩ := mem
      exact absurd inValues not_mem_nil,
    List.Pairwise.nil, fun _ => nofun, fun _ => nofun, fun _ => nofun⟩

theorem Dropped.uids (dropped : Dropped box next) (tracked : Tracked top box)
    (wipes : ∀ given ∈ box.disk.assigned, given.uidvldDn ≠ 0) : ∀ disk ∈ next.trail, disk.Uids := by
  intro disk mem
  rcases dropped.trail disk mem with old | ⟨cache, -, assigned⟩ | ⟨cache, assigned⟩
  · exact tracked.trail disk old
  · exact ⟨cache ▸ tracked.disk.log, assigned ▸ tracked.disk.assigned,
      cache ▸ assigned ▸ tracked.disk.covered, fun _ => assigned ▸ wipes⟩
  · exact uids_of_nil cache (assigned ▸ tracked.disk.assigned) (assigned ▸ wipes)

end Box

/-! ### The life of a mailbox -/

/-- The bookkeeping of the `uid_dn` lasts. -/
def Lasting.uids (host : Host) : Lasting host where
  early disk box := ∃ top, Box.Rebuilding disk top box
  always box := Box.Tracked box.store.hiUidDn box
  onDisk disk := disk.Uids
  opening disk kind := Box.RebuildsWith disk kind
  running _ := True
  wipes assigned := ∀ given ∈ assigned, given.uidvldDn ≠ 0
  renews assigned uidvldDn := ∀ given ∈ assigned, given.uidvldDn ≠ uidvldDn
  openingPlain _ := .inl rfl
  runningPlain := trivial
  runningWorking := trivial
  runningFinalize := trivial
  opens allowed change sound early := by
    obtain ⟨top, rebuilding⟩ := early
    exact ⟨_, change.rebuilding sound allowed rebuilding⟩
  runs _ change sound tracked := by
    rw [change.hiUidDn]
    exact change.tracked sound (fun _ => rfl) tracked
  earlyDisks _ early disk mem := by
    obtain ⟨top, rebuilding⟩ := early
    rcases mem_cons.mp mem with rfl | written
    · exact rebuilding.tracked.disk
    · exact rebuilding.tracked.trail disk written
  alwaysDisks _ tracked disk mem := by
    rcases mem_cons.mp mem with rfl | written
    · exact tracked.disk
    · exact tracked.trail disk written
  loaded _ uids describes := Box.rebuilding_loaded uids describes
  opened _ early _ _ := by
    obtain ⟨top, rebuilding⟩ := early
    rw [rebuilding.detectHi]
    have tracked := rebuilding.tracked
    exact ⟨⟨tracked.ledger.ledger, tracked.ledger.trail⟩, tracked.valid, tracked.validity, tracked.given,
      tracked.disk, tracked.trail⟩
  settled _ tracked := tracked.settled
  noted uidvldUp uidvldDn _ tracked _ renews := by
    rw [Box.setUidvlds_hiUidDn]
    exact Box.tracked_setUidvlds tracked.ledger tracked.valid tracked.disk.assigned tracked.trail renews
  dropped {box next} uidvldUp uidvldDn _ tracked dropped _ _ _ renews := by
    have assigned : next.settled.disk.assigned = box.disk.assigned := by
      show next.disk.assigned = _
      rw [dropped.disk]
    have counter : (next.settled.setUidvlds host uidvldUp uidvldDn).settled.store.hiUidDn =
        next.settled.store.hiUidDn := Box.setUidvlds_hiUidDn host next.settled uidvldUp uidvldDn
    rw [Box.settled_setUidvlds, counter]
    refine Box.Tracked.settled ?_
    have ledger : Box.UidLedger next.settled.store.hiUidDn next.settled :=
      ⟨dropped.ledger, nofun⟩
    refine Box.tracked_setUidvlds ledger ?_
      (assigned ▸ tracked.disk.assigned) (nofun) (assigned ▸ renews)
    show next.disk.invalid = false
    rw [dropped.disk]
  droppedDisks {box next} uidvldUp uidvldDn _ tracked dropped renews wipes disk mem := by
    have trail := dropped.uids tracked wipes
    have assigned : next.disk.assigned = box.disk.assigned := by rw [dropped.disk]
    have noted : Box.Tracked box.store.hiUidDn (next.setUidvlds host uidvldUp uidvldDn) :=
      Box.tracked_setUidvlds ⟨dropped.ledger, fun disk mem => (trail disk mem).log⟩ (by rw [dropped.disk])
        (assigned ▸ tracked.disk.assigned) trail (assigned ▸ renews)
    exact noted.trail disk mem
  removed {box next} _ tracked removed wipes disk mem := by
    have emptied : ∀ left, ({ box.disk with cache := [], files := left } : Disk).Uids := fun left =>
      Box.uids_of_nil rfl tracked.disk.assigned wipes
    rcases mem_cons.mp mem with rfl | written
    · rw [removed.disk]
      exact emptied []
    · rcases removed.trail disk written with old | ⟨left, rfl⟩
      · exact tracked.trail disk old
      · exact emptied left

namespace Box

variable {box : Box}

end Box

namespace Maildir

variable {host : Host} {state : Maildir}

/-- The condition on an action: no file completes a message of a log that has numbers, a new
`uidvld_dn` was not used, and a mailbox is not removed after numbers were given out under none. -/
def NumbersAction : Maildir → Action → Prop
  | .closed disk, .init false => disk.Settled ∨ disk.Unnumbered
  | .opened box, .operation (.checkUidvldUp uidvldUp now) => box.store.uidvldUp = uidvldUp ∨
    ∀ given ∈ box.disk.assigned, given.uidvldDn ≠ (uidvldUp + now) % 2 ^ 32
  | .opened box, .close true => ∀ given ∈ box.disk.assigned, given.uidvldDn ≠ 0
  | state, action => state.OffersAction action

instance (state : Maildir) (action : Action) : Decidable (state.NumbersAction action) :=
  match state, action with
  | .closed _, .init false => inferInstanceAs (Decidable (_ ∨ _))
  | .opened _, .operation operation =>
    match operation with
    | .checkUidvldUp .. => inferInstanceAs (Decidable (_ ∨ _))
    | .addLocalFile .. => inferInstanceAs (Decidable (_ → _))
    | .fetchResp .. | .vanished _ | .setHimodseqUp _ | .storeOne .. | .expungeOne _ | .openDn ..
    | .closeDn _ | .callDn .. | .syncDn .. => isTrue trivial
  | .opened _, .close true => inferInstanceAs (Decidable (∀ _ ∈ _, _))
  | .closed _, .init true | .closed _, .operation _ | .closed _, .close _ | .opened _, .init _
  | .opened _, .close false => isTrue trivial

/-- The condition on an interruption: the cache is not dropped after numbers were given out under
no `uidvld_dn`. -/
def NumbersCrash : Maildir → Action → Prop
  | .opened box, .operation operation => box.drops operation = true →
    ∀ given ∈ box.disk.assigned, given.uidvldDn ≠ 0
  | _, _ => True

instance (state : Maildir) (action : Action) : Decidable (state.NumbersCrash action) :=
  match state, action with
  | .opened _, .operation _ => inferInstanceAs (Decidable (_ → _))
  | .closed _, _ | .opened _, .init _ | .opened _, .close _ => isTrue trivial

/-- The condition on an event: the one on its action or interruption, and no message is freed that
an update refers to. -/
def Numbers (state : Maildir) : MaildirEvent → Prop
  | .act action => state.NumbersAction action ∧ state.dangles action = false
  | .crash action _ => state.NumbersAction action ∧ state.NumbersCrash action

instance (state : Maildir) (event : MaildirEvent) : Decidable (state.Numbers event) :=
  match event with
  | .act _ | .crash _ _ => inferInstanceAs (Decidable (_ ∧ _))

theorem Numbers.spares {event : MaildirEvent} (numbers : state.Numbers event) : state.Spares event := by
  cases event with
  | act action => exact numbers.2
  | crash action writes => trivial

variable {action : Action}

theorem NumbersAction.offers (numbers : state.NumbersAction action) :
    state.OffersAction action := by
  unfold NumbersAction at numbers
  split at numbers
  · trivial
  · trivial
  · trivial
  · exact numbers

theorem NumbersAction.permits (numbers : state.NumbersAction action) :
    state.Permits (Lasting.uids host) action := by
  unfold Permits
  split
  · rename_i disk lite
    cases lite with
    | true => exact .inl rfl
    | false =>
      refine .inr ⟨?_, .inl (.inr (.inl rfl))⟩
      have settled : disk.Settled ∨ disk.Unnumbered := numbers
      rcases settled with settled | unnumbered
      · exact .inr settled
      · exact .inl fun filed => .inr (.inr ⟨rfl, unnumbered⟩)
  · rename_i box operation
    refine ⟨⟨fun _ _ => trivial, fun _ _ _ => trivial⟩, fun uidvldUp now isCheck differs => ?_⟩
    subst isCheck
    have fresh : box.store.uidvldUp = uidvldUp ∨
        ∀ given ∈ box.disk.assigned, given.uidvldDn ≠ (uidvldUp + now) % 2 ^ 32 := numbers
    exact fresh.resolve_left differs
  · rename_i box rmOnClose
    intro removes
    subst removes
    exact numbers
  · trivial

theorem NumbersCrash.interrupts (crash : state.NumbersCrash action) :
    state.Interrupts (Lasting.uids host) action := by
  cases state with
  | closed disk => trivial
  | opened box =>
    cases action with
    | operation operation => exact crash
    | init lite | close rmOnClose => trivial

end Maildir

/-- A response with the flags and the body of a message. -/
def bodyResp (uid : Nat) : Box.FetchResp :=
  ⟨uid, some {}, { year := 2000 }, some ⟨true, 10, false⟩, 2⟩

/-- A message vanishes while a connection has it, and the UIDVALIDITY changes before the connection
is told. -/
def renewing : List MaildirEvent :=
  [.act (.init false), .act (.operation (.checkUidvldUp 7 1000)), .act (.operation (.openDn 1 false)),
    .act (.operation (.fetchResp (bodyResp 5) 0)), .act (.operation (.vanished 5)),
    .act (.operation (.checkUidvldUp 8 2000))]

-- The message is freed with the rest of the cache, and the update still refers to it.
example : Run.run (step .plain) (.closed {}) renewing = .error .useAfterFree := by decide

end Splintermail
