/-
This file is about a message that vanished: it does not come back.

A message that the server reported as vanished is gone for good, in memory and in the
log, unless a message is entered for its uid again. The server never does this, but a
local file may be added for a uid that has vanished in the meantime: the code looks at
the messages only, not at the expunges.

The log tells of a downloaded message only if the message is there. So a mailbox that
is closed, or that crashes, is opened again without the message, as long as no
compaction lost the line of its expunge.
-/

import Splintermail.Imaildir.IndexUpkeep

namespace Splintermail

open List Splintermail.Tree

/-! ### The log -/

/-- The log does not tell that the message with the key was downloaded. -/
def Lapsed (cache : List LogEntry) (key : MsgKey) : Prop :=
  ∀ msg, lastValue cache key = some (.message msg) → msg.uidDn = 0

namespace Lapsed

variable {cache written : List LogEntry} {key : MsgKey}

theorem nil (key : MsgKey) : Lapsed [] key := fun _ => nofun

theorem append (lapsed : Lapsed cache key) {entry : LogEntry}
    (other : ∀ msg, entry = .value (.message msg) → msg.key = key → msg.uidDn = 0) :
    Lapsed (cache ++ [entry]) key := by
  intro msg last
  rw [lastValue_snoc] at last
  cases entry with
  | uidvlds up dn | himodseqUp himodseq | modseqDn modseq => exact lapsed msg last
  | value content =>
    rw [LogEntry.valueAt] at last
    by_cases same : content.key = key
    · rw [if_pos same, Option.some_or, Option.some.injEq] at last
      subst last
      exact other msg rfl same
    · rw [if_neg same, Option.none_or] at last
      exact lapsed msg last

theorem append_expunge (cache : List LogEntry) (record : Expunge) :
    Lapsed (cache ++ [.value (.expunge record)]) record.key := by
  have same : (LogValue.expunge record).key = record.key := rfl
  intro msg last
  rw [lastValue_snoc, LogEntry.valueAt, if_pos same, Option.some_or] at last
  cases last

/-- A stale line that is skipped belongs to a message that was never downloaded. -/
theorem kept (lapsed : Lapsed cache key) (sound : SoundLog cache) :
    Lapsed (keptEntries cache) key := by
  intro msg last
  have inLog := keptEntries_subset cache (lastValue_mem last).1
  have same : (LogValue.message msg).key = key := (lastValue_mem last).2
  subst same
  obtain ⟨final, isFinal⟩ := lastValue_isSome inLog
  have finalKey := (lastValue_mem isFinal).2
  by_cases stale : (LogEntry.value final).stale = true
  · have zero : final.modseq = 0 := by
      cases final with
      | message other => cases stale
      | expunge record =>
        simp only [LogEntry.stale, Bool.and_eq_true, decide_eq_true_eq] at stale
        exact stale.1.2
    have below := sound.rising.le_last (mem_cacheValues.mpr inLog) isFinal
    have none : msg.modseq = 0 := Nat.le_zero.mp (zero ▸ below)
    exact (sound.valid _ (mem_cacheValues.mpr inLog)).modseq_eq_zero.mp none
  · have again : lastValue (keptEntries cache) final.key = some final := by
      refine lastValue_kept_of_not_stale ?_ (Bool.eq_false_iff.mpr stale)
      rw [finalKey]
      exact isFinal
    rw [finalKey, last] at again
    cases again
    exact lapsed msg isFinal

theorem compacted (lapsed : Lapsed cache key) (sound : SoundLog cache)
    (perm : written.Perm (collapse (keptEntries cache))) : Lapsed written key := by
  intro msg last
  rw [lastValue_of_perm perm] at last
  exact lapsed.kept sound msg last

end Lapsed

/-- The message that an update announces as new. -/
def Update.newKey : Update → Option MsgKey
  | .new view => some view.key
  | _ => none

/-- How often the pending updates announce a message as new. -/
def Dn.news (key : MsgKey) (dn : Dn) : Nat :=
  dn.pending.countP fun update => update.newKey = some key

theorem Dn.pending_update (dn : Dn) (update : Update) :
    (dnImaildirUpdate dn update).pending = dn.pending ++ [update] := by
  cases update <;> rfl

theorem Dn.id_update (dn : Dn) (update : Update) : (dnImaildirUpdate dn update).id = dn.id := by
  cases update <;> rfl

theorem Dn.news_update {key : MsgKey} {update : Update} (dn : Dn) (other : update.newKey ≠ some key) :
    (dnImaildirUpdate dn update).news key = dn.news key := by
  unfold Dn.news
  rw [Dn.pending_update, countP_append, countP_singleton, if_neg (by simpa using other)]
  rfl

theorem Msg.Edits.filled {old new : Msg} (edits : old.Edits new) (filled : old.state = .filled) :
    new.state = .filled := by
  have numbered := edits.numbered
  have expunged := edits.expunged
  rw [filled] at numbered expunged
  cases state : new.state with
  | filled => rfl
  | unfilled | not4me =>
    rw [state] at numbered
    cases numbered
  | expunged => exact absurd (expunged.mp state) nofun

theorem filled_of_numbered {msg : Msg} (numbered : msg.state.numbered = true)
    (state : msg.state ≠ .expunged) : msg.state = .filled := by
  cases equal : msg.state with
  | filled => rfl
  | expunged => exact absurd equal state
  | unfilled | not4me =>
    rw [equal] at numbered
    cases numbered

namespace Box

variable {host : Host} {box next : Box} {allowed : ChangeKind → Prop}

/-- The message with a key is there, and was downloaded. -/
def Filled (box : Box) (key : MsgKey) : Prop :=
  ∃ msg ∈ box.store.msgs, msg.key = key ∧ msg.state = .filled

/-- What a change tells the log: a downloaded message is written only if it is there, and leaves
only with a line for its expunge. -/
inductive Told (box next : Box) : Prop
  | quiet (cache : next.disk.cache = box.disk.cache)
      (trail : ∀ disk ∈ next.trail, disk ∈ box.trail ∨ disk.cache = box.disk.cache)
      (stays : ∀ key, box.Filled key → next.Filled key)
  | line (entry : LogEntry) (given : List Assignment) (written : Written box entry given next)
      (entered : ∀ msg, entry = .value (.message msg) → msg.uidDn ≠ 0 → next.Filled msg.key)
      (stays : ∀ key, box.Filled key →
        next.Filled key ∨ ∃ record, entry = .value (.expunge record) ∧ record.key = key)

variable {key : MsgKey}

theorem Filled.mono (filled : box.Filled key) (msgs : next.store.msgs = box.store.msgs) :
    next.Filled key := by
  unfold Filled
  rw [msgs]
  exact filled

/-- A message is changed in place: a downloaded one stays so. -/
theorem Filled.changed {target : MsgKey} (filled : box.Filled target) {change : Msg → Msg}
    (msgs : next.store.msgs = update Msg.key key change box.store.msgs)
    (sameKey : ∀ msg ∈ box.store.msgs, msg.key = key → (change msg).key = key)
    (stays : ∀ msg ∈ box.store.msgs, msg.key = key → msg.state = .filled →
      (change msg).state = .filled) : next.Filled target := by
  obtain ⟨msg, mem, rfl, state⟩ := filled
  unfold Filled
  rw [msgs]
  by_cases same : msg.key = key
  · refine ⟨change msg, mem_update.mpr (.inr ⟨msg, mem, same, rfl⟩), ?_, stays msg mem same state⟩
    rw [sameKey msg mem same, same]
  · exact ⟨msg, mem_update.mpr (.inl ⟨mem, same⟩), rfl, state⟩

theorem Filled.erased (sound : Sound box) {target : MsgKey} (filled : box.Filled target)
    (msgs : next.store.msgs = erase Msg.key key box.store.msgs) (differs : target ≠ key) :
    next.Filled target := by
  obtain ⟨msg, mem, same, state⟩ := filled
  refine ⟨msg, ?_, same, state⟩
  rw [msgs]
  exact sound.keyed.msgsSorted.mem_erase.mpr ⟨mem, same ▸ differs⟩

theorem removeAndDeleteMsg_msgs (box : Box) (msg : Msg) :
    (box.removeAndDeleteMsg msg).store.msgs = erase Msg.key msg.key box.store.msgs := by
  unfold removeAndDeleteMsg
  split <;> rfl

theorem removeAndDeleteMsg_disk (box : Box) (msg : Msg) :
    (box.removeAndDeleteMsg msg).disk.cache = box.disk.cache ∧
      ∀ disk ∈ (box.removeAndDeleteMsg msg).trail, disk ∈ box.trail ∨ disk.cache = box.disk.cache := by
  unfold removeAndDeleteMsg
  split
  · refine ⟨rfl, fun disk mem => ?_⟩
    rcases mem_append.mp mem with old | last
    · exact .inl old
    · rw [mem_singleton.mp last]
      exact .inr rfl
  · exact ⟨rfl, fun disk mem => .inl mem⟩

variable {kind : ChangeKind}

theorem Change.told (change : Change host box kind next) (sound : Sound box)
    (once : kind ≠ .twice) : Told box next := by
  have line : ∀ (middle : Box) (entry : LogEntry) (given : List Assignment) (dns : List Dn),
      middle.disk = box.disk → middle.trail = box.trail →
      (∀ msg, entry = .value (.message msg) → msg.uidDn ≠ 0 → middle.Filled msg.key) →
      (∀ key, box.Filled key →
        middle.Filled key ∨ ∃ record, entry = .value (.expunge record) ∧ record.key = key) →
      Told box { middle.append host entry given with dns } := by
    intro middle entry given dns disk trail entered stays
    have appended := append_spec host middle entry given
    have written := appended.written_of disk trail
    have msgs : (middle.append host entry given).store.msgs = middle.store.msgs :=
      congrArg Trees.msgs appended.trees
    refine .line entry given
      ⟨written.assigned, written.invalid, written.cache, written.written, written.trail⟩
      (fun msg equal numbered => (entered msg equal numbered).mono msgs) fun key filled => ?_
    exact (stays key filled).imp_left fun stayed => stayed.mono msgs
  have still : ∀ (after : Box), after.disk = box.disk → after.trail = box.trail →
      after.store.msgs = box.store.msgs → Told box after := by
    intro after disk trail msgs
    refine .quiet (by rw [disk]) (fun other mem => .inl (trail ▸ mem)) ?_
    exact fun key filled => filled.mono msgs
  cases change with
  | disk disk cache assigned invalid =>
    refine .quiet cache (fun other mem => ?_) fun key filled => filled
    rcases mem_append.mp mem with old | last
    · exact .inl old
    · rw [mem_singleton.mp last]
      exact .inr cache
  | himodseqUp himodseqUp =>
    exact line { box with store := { box.store with himodseqUp } } _ _ _ rfl rfl (fun _ => nofun)
      fun key filled => .inl filled
  | takeLocal uidUp =>
    unfold Box.takeLocal
    split
    · exact still _ rfl rfl rfl
    · exact still _ rfl rfl rfl
  | meet key internaldate flags fresh unseen apart locals =>
    refine line (box.insertMsg _) _ _ _ rfl rfl (fun msg equal numbered => ?_) ?_
    · cases equal
      exact absurd rfl numbered
    · rintro target ⟨msg, mem, same, state⟩
      exact .inl ⟨msg, mem_insert.mpr (.inr mem), same, state⟩
  | edit key change edits unseen =>
    refine .quiet rfl (fun disk mem => .inl mem) fun target filled => ?_
    refine filled.changed rfl (fun msg mem same => ?_) fun msg mem same state =>
      (edits msg mem same).filled state
    rw [(edits msg mem same).key, same]
  | save msg mem unnumbered =>
    refine line box _ _ _ rfl rfl (fun other equal numbered => ?_) fun key filled => .inl filled
    cases equal
    rw [(sound.keyed.msg msg mem).2.mp numbered] at unnumbered
    cases unnumbered
  | finalize msg mem unnumbered =>
    refine line (box.finalizeMsg msg.key) _ _ _ rfl rfl (fun other equal _ => ?_) fun key filled =>
      .inl (filled.changed rfl (fun _ _ same => same) fun _ _ _ _ => rfl)
    cases equal
    exact ⟨box.finalized msg, mem_update.mpr (.inr ⟨msg, mem, rfl, rfl⟩), rfl, rfl⟩
  | bump msg flags mem numbered =>
    refine line (box.bumpFlags msg flags) _ _ _ rfl rfl (fun other equal _ => ?_) fun key filled =>
      .inl (filled.changed rfl (fun _ _ same => same) fun _ _ _ state => state)
    unfold flagsLine at equal
    split at equal
    · cases equal
    · rename_i state
      cases equal
      exact ⟨box.flagged msg flags, mem_update.mpr (.inr ⟨msg, mem, rfl, rfl⟩), rfl,
        filled_of_numbered numbered state⟩
  | push record mem unpushed =>
    exact line (box.markPushed record.key) _ _ _ rfl rfl (fun _ => nofun) fun key filled => .inl filled
  | discard msg mem unnumbered fresh =>
    exact line (box.enterExpunge _) _ _ _ rfl rfl (fun _ => nofun) fun key filled =>
      .inl (filled.mono (enterExpunge_msgs box _))
  | expire msg mem state fresh =>
    obtain ⟨disk, trail, -⟩ := takeModseq_quiet box msg.uidDn
    refine line ((box.enterExpunge (box.newExpunge msg.key msg.uidDn .pushed)).expire msg.key) _ _ _
      disk trail (fun _ => nofun) ?_
    rintro key ⟨other, otherMem, same, filled⟩
    by_cases isKey : key = msg.key
    · exact .inr ⟨_, rfl, isKey.symm⟩
    · refine .inl ⟨other, mem_update.mpr (.inl ⟨?_, same ▸ isKey⟩), same, filled⟩
      rw [enterExpunge_msgs]
      exact otherMem
  | expireKnown msg record mem filled recordMem same => exact absurd rfl once
  | drop msg old mem key modseq has free state =>
    obtain ⟨cache, trail⟩ := removeAndDeleteMsg_disk box msg
    refine .quiet cache trail fun target filled => ?_
    refine filled.erased sound (removeAndDeleteMsg_msgs box msg) fun same => ?_
    obtain ⟨other, otherMem, otherKey, otherState⟩ := filled
    have equal := sound.keyed.msgsSorted.eq_of_key otherMem mem (otherKey.trans (same.trans key))
    exact state (equal ▸ otherState)
  | missing msg mem state fresh noDns =>
    obtain ⟨disk, trail, -⟩ := takeModseq_quiet box msg.uidDn
    have msgs : (box.takeModseq msg.uidDn).store.msgs = box.store.msgs := by
      unfold takeModseq
      split <;> rfl
    refine line (((box.takeModseq msg.uidDn).insertExpunge (box.newExpunge msg.key msg.uidDn .unpushed)
      ).dropMsg msg) _ _ _ disk trail (fun _ => nofun) fun key filled => ?_
    by_cases isKey : key = msg.key
    · exact .inr ⟨_, rfl, isKey.symm⟩
    · refine .inl (filled.erased sound ?_ isKey)
      show erase Msg.key msg.key (box.takeModseq msg.uidDn).store.msgs = _
      rw [msgs]
  | openDn id examine full => exact still _ rfl rfl rfl
  | forgetDn id => exact still _ rfl rfl rfl
  | callDn id dn after call responses freed mem result => exact still _ rfl rfl rfl
  | syncDn id resp => exact still _ rfl rfl rfl

/-- The log of a mailbox tells of a downloaded message only if the message is there. -/
def Follows (box : Box) : Prop := ∀ key, box.Filled key ∨ Lapsed box.disk.cache key

theorem Written.lapsed {entry : LogEntry} {given : List Assignment}
    (written : Written box entry given next) (logs : ∀ disk ∈ next.trail, SoundLog disk.cache)
    (told : Lapsed (box.disk.cache ++ [entry]) key) : Lapsed next.disk.cache key := by
  obtain ⟨disk, inTrail, whole⟩ := written.written
  have sound : SoundLog (box.disk.cache ++ [entry]) := whole ▸ logs disk inTrail
  rcases written.cache with equal | perm
  · rw [equal]
    exact told
  · exact told.compacted sound perm

theorem Change.follows (change : Change host box kind next) (sound : Sound box)
    (once : kind ≠ .twice) (follows : box.Follows) : next.Follows := by
  intro key
  by_cases gone : next.Filled key
  · exact .inl gone
  refine .inr ?_
  cases change.told sound once with
  | quiet cache trail stays =>
    rw [cache]
    exact (follows key).resolve_left fun filled => gone (stays key filled)
  | line entry given written entered stays =>
    refine written.lapsed (sound.change change).trail ?_
    rcases follows key with filled | lapsed
    · obtain ⟨record, rfl, rfl⟩ := (stays key filled).resolve_left gone
      exact Lapsed.append_expunge _ record
    · refine lapsed.append fun msg equal same => ?_
      by_contra numbered
      exact gone (same ▸ entered msg equal numbered)

/-- A message is gone for good: it waits for its finalizer at most, and no disk tells of it. -/
structure Gone (key : MsgKey) (box : Box) : Prop where
  expunged : ∀ msg ∈ box.store.msgs, msg.key = key → msg.state = .expunged
  disks : ∀ disk ∈ box.disk :: box.trail, Lapsed disk.cache key

theorem not_filled (expunged : ∀ msg ∈ box.store.msgs, msg.key = key → msg.state = .expunged) :
    ¬box.Filled key := by
  rintro ⟨msg, mem, same, filled⟩
  rw [expunged msg mem same] at filled
  cases filled

/-- Where the messages of a changed box come from. -/
theorem Change.msg_origin (change : Change host box kind next) (sound : Sound box) {msg : Msg}
    (mem : msg ∈ next.store.msgs) :
    (∃ old ∈ box.store.msgs, old.key = msg.key ∧ (old.state = .expunged → msg.state = .expunged)) ∨
      ∃ again, kind = .meet msg.key again := by
  have appended : ∀ (middle : Box) (entry : LogEntry) (given : List Assignment),
      (middle.append host entry given).store.msgs = middle.store.msgs := fun middle entry given =>
    congrArg Trees.msgs (append_spec host middle entry given).trees
  have stayed : msg ∈ box.store.msgs → ∃ old ∈ box.store.msgs, old.key = msg.key ∧
      (old.state = .expunged → msg.state = .expunged) := fun inOld => ⟨msg, inOld, rfl, id⟩
  have updated : ∀ {key : MsgKey} {change : Msg → Msg},
      msg ∈ update Msg.key key change box.store.msgs →
      (∀ old ∈ box.store.msgs, old.key = key → (change old).key = key ∧
        (old.state = .expunged → (change old).state = .expunged)) →
      ∃ old ∈ box.store.msgs, old.key = msg.key ∧ (old.state = .expunged → msg.state = .expunged) := by
    intro key change inUpdate keeps
    rcases mem_update.mp inUpdate with ⟨old, -⟩ | ⟨old, oldMem, same, rfl⟩
    · exact stayed old
    · exact ⟨old, oldMem, same.trans (keeps old oldMem same).1.symm, (keeps old oldMem same).2⟩
  cases change with
  | disk disk cache assigned invalid => exact .inl (stayed mem)
  | himodseqUp himodseqUp =>
    refine .inl (stayed ?_)
    have inMiddle : msg ∈ (({ box with store := { box.store with himodseqUp } } : Box).append host
      (.himodseqUp himodseqUp) []).store.msgs := mem
    rwa [appended] at inMiddle
  | takeLocal uidUp =>
    unfold Box.takeLocal at mem
    split at mem
    · exact .inl (stayed mem)
    · exact .inl (stayed mem)
  | meet key internaldate flags fresh unseen apart locals =>
    rw [appended] at mem
    rcases mem_insert.mp mem with rfl | old
    · exact .inr ⟨_, rfl⟩
    · exact .inl (stayed old)
  | edit key change edits unseen =>
    refine .inl (updated mem fun old oldMem same => ⟨?_, ?_⟩)
    · rw [(edits old oldMem same).key, same]
    · exact (edits old oldMem same).expunged.mpr
  | save other otherMem unnumbered =>
    rw [appended] at mem
    exact .inl (stayed mem)
  | finalize other otherMem unnumbered =>
    have inMiddle : msg ∈ ((box.finalizeMsg other.key).append host _ _).store.msgs := mem
    rw [appended] at inMiddle
    refine .inl (updated inMiddle fun old oldMem same => ⟨same, fun state => ?_⟩)
    -- the finalized message has no numbers
    rw [sound.keyed.msgsSorted.eq_of_key oldMem otherMem same] at state
    exact absurd state (ne_expunged_of_unnumbered unnumbered)
  | bump other flags otherMem numbered =>
    have inMiddle : msg ∈ ((box.bumpFlags other flags).append host _ _).store.msgs := mem
    rw [appended] at inMiddle
    exact .inl (updated inMiddle fun old _ same => ⟨same, id⟩)
  | push record recordMem unpushed =>
    rw [appended] at mem
    exact .inl (stayed mem)
  | discard other otherMem unnumbered fresh =>
    rw [appended, enterExpunge_msgs] at mem
    exact .inl (stayed mem)
  | expire other otherMem filled fresh =>
    have inMiddle : msg ∈ (((box.enterExpunge _).expire other.key).append host _ _).store.msgs := mem
    rw [appended] at inMiddle
    have inUpdate : msg ∈ update Msg.key other.key (fun msg => { msg with state := .expunged })
        box.store.msgs := by
      rw [← enterExpunge_msgs box (box.newExpunge other.key other.uidDn .pushed)]
      exact inMiddle
    exact .inl (updated inUpdate fun old _ same => ⟨same, fun _ => rfl⟩)
  | expireKnown other record otherMem filled recordMem same =>
    exact .inl (updated mem fun old _ same => ⟨same, fun _ => rfl⟩)
  | drop other old oldMem key modseq has free state =>
    rw [removeAndDeleteMsg_msgs] at mem
    exact .inl (stayed (mem_of_mem_erase mem))
  | missing other otherMem filled fresh noDns =>
    rw [appended] at mem
    have msgs : (box.takeModseq other.uidDn).store.msgs = box.store.msgs := by
      unfold takeModseq
      split <;> rfl
    have inErased : msg ∈ erase Msg.key other.key (box.takeModseq other.uidDn).store.msgs := mem
    rw [msgs] at inErased
    exact .inl (stayed (mem_of_mem_erase inErased))
  | openDn id examine full => exact .inl (stayed mem)
  | forgetDn id => exact .inl (stayed mem)
  | callDn id dn after call responses freed inDns result => exact .inl (stayed mem)
  | syncDn id resp => exact .inl (stayed mem)

/-- A message that is gone stays gone, as long as no message with its key is entered. -/
theorem Change.gone (change : Change host box kind next) (sound : Sound box) (once : kind ≠ .twice)
    (follows : box.Follows) (apart : ∀ again, kind ≠ .meet key again) (gone : box.Gone key) :
    next.Gone key := by
  have expunged : ∀ msg ∈ next.store.msgs, msg.key = key → msg.state = .expunged := by
    intro msg mem same
    rcases change.msg_origin sound mem with ⟨old, oldMem, oldKey, state⟩ | ⟨again, isMeet⟩
    · exact state (gone.expunged old oldMem (oldKey.trans same))
    · exact absurd isMeet (same ▸ apart again)
  have here : Lapsed next.disk.cache key :=
    (change.follows sound once follows key).resolve_left (not_filled expunged)
  refine ⟨expunged, fun disk mem => ?_⟩
  rcases mem_cons.mp mem with now | inTrail
  · rw [now]
    exact here
  have before : Lapsed box.disk.cache key := gone.disks _ mem_cons_self
  cases change.told sound once with
  | quiet cache trail stays =>
    rcases trail disk inTrail with old | same
    · exact gone.disks disk (.tail _ old)
    · rw [same]
      exact before
  | line entry given written entered stays =>
    rcases written.trail disk inTrail with old | now | ⟨cache, -⟩
    · exact gone.disks disk (.tail _ old)
    · rw [now]
      exact here
    · rw [cache]
      refine before.append fun msg equal same => ?_
      by_contra numbered
      exact not_filled expunged (same ▸ entered msg equal numbered)

/-- The uidvlds are written: what is gone stays gone. -/
theorem Gone.setUidvlds (expunged : ∀ msg ∈ box.store.msgs, msg.key = key → msg.state = .expunged)
    (disks : ∀ disk ∈ box.disk :: box.trail, Lapsed disk.cache key) (uidvldUp uidvldDn : Nat)
    (log : SoundLog (box.disk.cache ++ [.uidvlds uidvldUp uidvldDn])) :
    Gone key (box.setUidvlds host uidvldUp uidvldDn) := by
  have appended := append_spec host { box with store := { box.store with uidvldUp, uidvldDn } }
    (.uidvlds uidvldUp uidvldDn) []
  have told : Lapsed (box.disk.cache ++ [.uidvlds uidvldUp uidvldDn]) key :=
    (disks _ mem_cons_self).append fun _ => nofun
  have here : Lapsed (box.setUidvlds host uidvldUp uidvldDn).disk.cache key := by
    rcases appended.cache with equal | perm
    · show Lapsed (Box.append host _ _ []).disk.cache key
      rw [equal]
      exact told
    · exact told.compacted log perm
  refine ⟨fun msg mem => ?_, fun disk mem => ?_⟩
  · have inOld : msg ∈ (Box.append host _ _ []).store.toTrees.msgs := mem
    rw [appended.trees] at inOld
    exact expunged msg inOld
  · rcases mem_cons.mp mem with now | inTrail
    · rw [now]
      exact here
    · rcases appended.trail disk inTrail with old | now | ⟨cache, -⟩
      · exact disks disk (.tail _ old)
      · rw [now]
        exact here
      · rw [cache]
        exact told

/-! ### A message that vanishes -/

variable {start : Box} {key : MsgKey}

/-- No connection was passed an `UPDATE_NEW` for the key since the start. -/
def NoNews (key : MsgKey) (start box : Box) : Prop :=
  ∀ dn ∈ box.dns, dn.news key = 0 ∨ ∃ old ∈ start.dns, old.id = dn.id ∧ dn.news key ≤ old.news key

theorem NoNews.refl (key : MsgKey) (box : Box) : NoNews key box box :=
  fun dn mem => .inr ⟨dn, mem, rfl, le_rfl⟩

section

variable (noNews : NoNews key start box)

include noNews

theorem NoNews.changed
    (fewer : ∀ dn ∈ next.dns, dn.news key = 0 ∨ ∃ old ∈ box.dns, old.id = dn.id ∧ dn.news key ≤ old.news key) :
    NoNews key start next := by
  intro dn mem
  rcases fewer dn mem with none | ⟨old, oldMem, same, le⟩
  · exact .inl none
  · rcases noNews old oldMem with none | ⟨first, firstMem, firstSame, firstLe⟩
    · exact .inl (Nat.le_zero.mp (none ▸ le))
    · exact .inr ⟨first, firstMem, firstSame.trans same, le.trans firstLe⟩

/-- An update other than an `UPDATE_NEW` for the key is passed on. -/
theorem NoNews.distribute {update : Update} (other : update.newKey ≠ some key) :
    NoNews key start (box.distribute update) := by
  refine noNews.changed fun dn mem => ?_
  obtain ⟨old, oldMem, rfl⟩ := mem_map.mp mem
  exact .inr ⟨old, oldMem, (old.id_update update).symm, le_of_eq (old.news_update other)⟩

theorem NoNews.sameDns (dns : next.dns = box.dns) : NoNews key start next := by
  unfold NoNews
  rw [dns]
  exact noNews

end

/-- No change announces a message that is gone. -/
theorem Change.noNews (change : Change host box kind next) (gone : box.Gone key)
    (noNews : NoNews key start box) : NoNews key start next := by
  have appended : ∀ (middle : Box) (entry : LogEntry) (given : List Assignment),
      middle.dns = box.dns → NoNews key start (middle.append host entry given) :=
    fun middle entry given dns => noNews.sameDns ((append_spec host middle entry given).dns.trans dns)
  have taken : ∀ uidDn, (box.takeModseq uidDn).dns = box.dns := by
    intro uidDn
    unfold takeModseq
    split <;> rfl
  cases change with
  | disk disk cache assigned invalid => exact noNews
  | himodseqUp himodseqUp =>
    exact appended { box with store := { box.store with himodseqUp } } _ _ rfl
  | takeLocal uidUp =>
    refine noNews.sameDns ?_
    unfold Box.takeLocal
    split <;> rfl
  | meet key internaldate flags fresh unseen apart locals => exact appended _ _ _ rfl
  | edit key change edits unseen => exact noNews
  | save msg mem unnumbered => exact appended _ _ _ rfl
  | finalize msg mem unnumbered =>
    refine (appended (box.finalizeMsg msg.key) _ _ rfl).distribute fun same => ?_
    -- a message that is gone is not finalized
    have state := gone.expunged msg mem (Option.some.inj same)
    exact ne_expunged_of_unnumbered unnumbered state
  | bump msg flags mem numbered =>
    exact (appended (box.bumpFlags msg flags) _ _ rfl).distribute nofun
  | push record mem unpushed => exact appended _ _ _ rfl
  | discard msg mem unnumbered fresh => exact appended _ _ _ rfl
  | expire msg mem filled fresh =>
    exact (appended ((box.enterExpunge (box.newExpunge msg.key msg.uidDn .pushed)).expire msg.key) _ _
      (taken msg.uidDn)).distribute nofun
  | expireKnown msg record mem filled recordMem same =>
    have expired : NoNews key start (box.expire msg.key) := noNews
    exact expired.distribute nofun
  | drop msg old mem sameKey modseq has free state =>
    refine noNews.sameDns ?_
    unfold removeAndDeleteMsg
    split <;> rfl
  | missing msg mem filled fresh noDns =>
    exact appended (((box.takeModseq msg.uidDn).insertExpunge _).dropMsg msg) _ _ (taken msg.uidDn)
  | openDn id examine full =>
    refine noNews.changed fun dn mem => ?_
    rcases mem_append.mp mem with old | new
    · exact .inr ⟨dn, old, rfl, le_rfl⟩
    · rw [mem_singleton.mp new]
      exact .inl rfl
  | forgetDn id =>
    exact noNews.changed fun dn mem => .inr ⟨dn, mem_of_mem_filter mem, rfl, le_rfl⟩
  | callDn id dn after call responses freed mem result =>
    refine noNews.changed fun other otherMem => ?_
    obtain ⟨old, oldMem, rfl⟩ := mem_map.mp otherMem
    obtain ⟨same, pending⟩ := (dn.call_drains call).of_ok result
    split
    · exact .inr ⟨dn, mem, same.symm, pending.countP_le⟩
    · exact .inr ⟨old, oldMem, rfl, le_rfl⟩
  | syncDn id resp =>
    refine noNews.changed fun other otherMem => ?_
    obtain ⟨old, oldMem, rfl⟩ := mem_map.mp otherMem
    split
    · exact .inr ⟨old, oldMem, (old.id_update _).symm, le_of_eq (old.news_update nofun)⟩
    · exact .inr ⟨old, oldMem, rfl, le_rfl⟩

/-- The changes that neither enter a message with the key nor expunge one that has an expunge. -/
def Gentle (key : MsgKey) (kind : ChangeKind) : Prop :=
  kind ≠ .twice ∧ ∀ again, kind ≠ .meet key again

/-- What lasts of a message that is gone while the box changes. -/
structure StaysGone (key : MsgKey) (start box : Box) : Prop where
  follows : box.Follows
  gone : box.Gone key
  noNews : NoNews key start box

theorem Evolves.staysGone (evolves : Evolves host (Gentle key) box next) (sound : Sound box)
    (staysGone : StaysGone key start box) : StaysGone key start next :=
  (evolves.keepsSound (fun gentle change sound holds =>
    ⟨change.follows sound gentle.1 holds.follows, change.gone sound gentle.1 holds.follows gentle.2 holds.gone,
      change.noNews holds.gone holds.noNews⟩) sound staysGone).2

theorem Gone.begins (gone : box.Gone key) (follows : box.Follows) : StaysGone key box box :=
  ⟨follows, gone, NoNews.refl key box⟩

theorem Gone.settled (gone : box.Gone key) : box.settled.Gone key where
  expunged := gone.expunged
  disks disk mem := by
    rw [mem_singleton.mp mem]
    exact gone.disks _ mem_cons_self

theorem Sound.log_uidvlds (sound : Sound box) (uidvldUp uidvldDn : Nat) :
    SoundLog (box.disk.cache ++ [.uidvlds uidvldUp uidvldDn]) := by
  have written : Sound (box.setUidvlds ⟨.inOrder, .inOrder, []⟩ uidvldUp uidvldDn) :=
    sound.setUidvlds uidvldUp uidvldDn
  have appended := append_spec ⟨.inOrder, .inOrder, []⟩
    { box with store := { box.store with uidvldUp, uidvldDn } } (.uidvlds uidvldUp uidvldDn) []
  obtain ⟨disk, mem, cache⟩ := appended.written
  have sameCache : disk.cache = box.disk.cache ++ [.uidvlds uidvldUp uidvldDn] := cache
  exact sameCache ▸ written.trail disk mem

theorem Leaves.gone {operation : Operation} (leaves : Leaves host (Gentle key) box operation next)
    (sound : Sound box) (follows : box.Follows) (gone : box.Gone key) :
    next.Gone key ∧ NoNews key box next := by
  cases leaves with
  | changed evolves =>
    have staysGone := evolves.staysGone sound (gone.begins follows)
    exact ⟨staysGone.gone, staysGone.noNews⟩
  | noted isCheck differs unknown =>
    refine ⟨.setUidvlds gone.expunged gone.disks _ _ (sound.log_uidvlds _ _), ?_⟩
    exact (NoNews.refl key box).sameDns (append_spec host _ _ _).dns
  | @dropped uidvldUp now middle isCheck full differs known dropped =>
    have cache : middle.disk.cache = [] := by rw [dropped.disk]
    have msgs : middle.store.msgs = [] := by
      rw [dropped.store]
      rfl
    refine ⟨.setUidvlds (fun msg mem => ?_) (fun disk mem => ?_) _ _ ?_, ?_⟩
    · rw [msgs] at mem
      exact absurd mem not_mem_nil
    · rcases mem_cons.mp mem with now | inTrail
      · rw [now, cache]
        exact Lapsed.nil key
      · rcases dropped.trail disk inTrail with old | ⟨same, -⟩ | ⟨none, -⟩
        · exact gone.disks disk (.tail _ old)
        · rw [same]
          exact gone.disks _ mem_cons_self
        · rw [none]
          exact Lapsed.nil key
    · rw [cache]
      exact soundLog_uidvlds _ _
    · exact (NoNews.refl key box).sameDns ((append_spec host _ _ _).dns.trans dropped.dns)

theorem Follows.setUidvlds (follows : box.Follows) (uidvldUp uidvldDn : Nat)
    (log : SoundLog (box.disk.cache ++ [.uidvlds uidvldUp uidvldDn])) :
    (box.setUidvlds host uidvldUp uidvldDn).Follows := by
  have appended := append_spec host { box with store := { box.store with uidvldUp, uidvldDn } }
    (.uidvlds uidvldUp uidvldDn) []
  have msgs : (box.setUidvlds host uidvldUp uidvldDn).store.msgs = box.store.msgs :=
    congrArg Trees.msgs appended.trees
  intro key
  refine (follows key).imp (fun filled => filled.mono msgs) fun lapsed => ?_
  have told : Lapsed (box.disk.cache ++ [.uidvlds uidvldUp uidvldDn]) key := lapsed.append fun _ => nofun
  show Lapsed (Box.append host _ _ []).disk.cache key
  rcases appended.cache with equal | perm
  · rw [equal]
    exact told
  · exact told.compacted log perm

end Box

end Splintermail
