/-
This file is about the opening of a mailbox, and with it about all that can happen to
one: what is on disk when the process dies is always a sound log, and from a sound log
a sound box is opened.

The log is read into the trees, and then the files are compared with the trees: a file
completes a message that was not known to be downloaded, and a message without a file
is replaced by an expunge.
-/

import Splintermail.Imaildir.Upkeep

namespace Splintermail

open List Splintermail.Tree
open Outcome (Sat)

/-! ### Loading the log -/

variable {cache : List LogEntry}

theorem Rising.le_last {number : Number} (rising : Rising number (cacheValues cache))
    {line last : LogValue} (mem : line ∈ cacheValues cache)
    (isLast : lastValue cache line.key = some last) : line.number number ≤ last.number number := by
  induction cache using reverseRecOn with
  | nil => cases mem
  | append_singleton front entry ih =>
    rw [cacheValues_append] at rising mem
    obtain ⟨frontRising, -, across⟩ := pairwise_append.mp rising
    rw [lastValue_snoc] at isLast
    cases entry with
    | uidvlds up dn | himodseqUp himodseq | modseqDn modseq =>
      rcases mem_append.mp mem with before | here
      · exact ih frontRising before isLast
      · exact absurd here not_mem_nil
    | value content =>
      rw [LogEntry.valueAt] at isLast
      by_cases same : content.key = line.key
      · rw [if_pos same, Option.some_or, Option.some.injEq] at isLast
        subst isLast
        rcases mem_append.mp mem with before | here
        · exact across line before content (mem_singleton_self _) same.symm
        · rw [mem_singleton.mp here]
      · rw [if_neg same, Option.none_or] at isLast
        rcases mem_append.mp mem with before | here
        · exact ih frontRising before isLast
        · exact absurd (congrArg LogValue.key (mem_singleton.mp here)).symm same

namespace Trees.Hold

variable {trees : Trees} {cache : List LogEntry}

section

variable (holds : trees.Hold cache)

include holds

theorem values_subset : trees.values ⊆ cacheValues cache := by
  intro value mem
  rcases mem_values.mp mem with ⟨msg, inMsgs, rfl⟩ | ⟨record, inExpunged, rfl⟩
  · exact mem_cacheValues.mpr (lastValue_mem ((holds.mem_msgs msg).mp inMsgs)).1
  · exact mem_cacheValues.mpr (lastValue_mem ((holds.mem_expunged record).mp inExpunged).1).1

/-- The bookkeeping of a number after loading: what has a number is not ignored. -/
theorem ledger {number : Number} {top : Nat}
    (issued : Issued top (numbered number (cacheValues cache)))
    (rising : Rising number (cacheValues cache))
    (ignored : ∀ record : Expunge, record.Ignored → (LogValue.expunge record).number number = 0) :
    Ledger number top trees (cacheValues cache) where
  issued := by
    refine issued.mono (numbered_subset ?_)
    exact append_subset.mpr ⟨holds.values_subset, List.Subset.refl _⟩
  rising := rising
  msg msg mem _ _ line inLines same :=
    rising.le_last inLines (same ▸ (holds.mem_msgs msg).mp mem)
  unpushed record mem _ line inLines same :=
    rising.le_last inLines (same ▸ ((holds.mem_expunged record).mp mem).1)
  present line inLines nonzero := by
    obtain ⟨last, isLast⟩ := lastValue_isSome (mem_cacheValues.mp inLines)
    have sameKey := (lastValue_mem isLast).2
    have below := rising.le_last inLines isLast
    rw [← sameKey] at isLast
    cases last with
    | message msg => exact .inl ⟨msg, (holds.mem_msgs msg).mpr isLast, sameKey⟩
    | expunge record =>
      refine .inr ⟨record, (holds.mem_expunged record).mpr ⟨isLast, fun isIgnored => ?_⟩, sameKey⟩
      rw [ignored record isIgnored] at below
      exact nonzero (Nat.le_zero.mp below)

theorem disjoint {msg : Msg} (mem : msg ∈ trees.msgs) {record : Expunge}
    (recordMem : record ∈ trees.expunged) : record.key ≠ msg.key := by
  intro same
  have isMsg := (holds.mem_msgs msg).mp mem
  have isExpunge := ((holds.mem_expunged record).mp recordMem).1
  rw [same, isMsg] at isExpunge
  cases isExpunge

theorem keyed (sound : SoundLog cache) : trees.Keyed where
  msgsSorted := holds.indexed.msgsSorted
  expungedSorted := holds.indexed.expungedSorted
  msg msg mem := by
    have inCache := holds.values_subset (mem_values.mpr (.inl ⟨msg, mem, rfl⟩))
    obtain ⟨modseq, uidDn⟩ := sound.valid _ inCache
    have filled : msg.state = .filled ↔ msg.state.numbered = true := by
      have notExpunged := (sound.plain msg inCache).1
      cases equal : msg.state with
      | expunged => exact absurd equal notExpunged
      | unfilled | filled | not4me => decide
    exact ⟨modseq.trans filled, uidDn.trans filled⟩
  expunge record mem :=
    sound.valid _ (holds.values_subset (mem_values.mpr (.inr ⟨record, mem, rfl⟩)))
  expunged msg mem state := by
    have inCache := holds.values_subset (mem_values.mpr (.inl ⟨msg, mem, rfl⟩))
    exact absurd state (sound.plain msg inCache).1
  apart msg mem _ record recordMem same := absurd same (holds.disjoint mem recordMem)

end

end Trees.Hold

theorem le_maxModseqDn {modseq : Nat} (mem : .modseqDn modseq ∈ cache) :
    modseq ≤ maxModseqDn cache := by
  induction cache using reverseRecOn with
  | nil => cases mem
  | append_singleton front entry ih =>
    rw [maxModseqDn_snoc]
    rcases mem_append.mp mem with before | here
    · have below := ih before
      cases entry with
      | uidvlds up dn | himodseqUp himodseq | value content => exact below
      | modseqDn other => exact le_trans below (le_max_left _ _)
    · rw [← mem_singleton.mp here]
      exact le_max_right _ _

/-- The counter after loading covers every modseq in the log, also those that were superseded. -/
theorem LogState.Describes.modseq_le {state : LogState} (describes : state.Describes cache)
    (sound : SoundLog cache) {line : LogValue} (mem : line ∈ cacheValues cache) :
    line.modseq ≤ state.finish.himodseqDn := by
  by_cases zero : line.modseq = 0
  · rw [zero]
    exact Nat.zero_le _
  obtain ⟨last, isLast⟩ := lastValue_isSome (mem_cacheValues.mp mem)
  have sameKey := (lastValue_mem isLast).2
  have below : line.modseq ≤ last.modseq := sound.rising.le_last mem isLast
  have covered := (LogState.finish_himodseqDn describes.trees.indexed).2
  refine le_trans below ?_
  have nonzero : last.modseq ≠ 0 := by omega
  rw [← sameKey] at isLast
  cases last with
  | message msg =>
    exact covered _ (describes.trees.indexed.msg_mod_mem
      ((describes.trees.mem_msgs msg).mpr isLast) nonzero)
  | expunge record =>
    refine covered _ (describes.trees.indexed.expunge_mod_mem
      ((describes.trees.mem_expunged record).mpr ⟨isLast, fun ignored => ?_⟩) nonzero)
    exact nonzero ignored.2

theorem SoundLog.issued (sound : SoundLog cache) {state : LogState}
    (describes : state.Describes cache) :
    Issued state.finish.himodseqDn (numbered .modseq (cacheValues cache)) where
  bound := by
    rintro pair ⟨line, mem, rfl⟩
    exact describes.modseq_le sound mem
  owner := by
    rintro first ⟨firstLine, firstMem, rfl⟩ second ⟨secondLine, secondMem, rfl⟩
    exact sound.owner firstLine firstMem secondLine secondMem

namespace Box

variable {host : Host} {box next : Box} {allowed : ChangeKind → Prop}

/-- A box whose trees were loaded from its log is sound. -/
theorem Sound.ofLog (log : SoundLog box.disk.cache) (trail : ∀ disk ∈ box.trail, SoundLog disk.cache)
    (free : ∀ dn ∈ box.dns, ∀ record, .expunge record ∉ dn.held) {state : LogState}
    (describes : state.Describes box.disk.cache) :
    Sound { box with store := Box.ofLog box.store state.finish } where
  keyed := by
    show state.finish.toTrees.Keyed
    rw [state.finish_trees]
    exact describes.trees.keyed log
  ledger := by
    show Ledger .modseq state.finish.himodseqDn state.finish.toTrees (cacheValues box.disk.cache)
    rw [state.finish_trees]
    exact describes.trees.ledger (log.issued describes) log.rising fun _ ignored => ignored.2
  log := log
  explicit modseq mem := by
    have covered := (LogState.finish_himodseqDn describes.trees.indexed).1
    rw [describes.himodseqDn] at covered
    exact le_trans (le_maxModseqDn mem) covered
  held dn mem record recordMem := absurd recordMem (free dn mem record)
  trail := trail

/-! ### Comparing the files -/

/-- A box that is being opened has no connections, and no key is both a message and an expunge. -/
structure Opening (box : Box) : Prop where
  dns : box.dns = []
  disjoint : ∀ msg ∈ box.store.msgs, ∀ record ∈ box.store.expunged, record.key ≠ msg.key

/-- What looking at a file can do: messages may be completed. -/
structure Scans (box next : Box) : Prop where
  dns : next.dns = box.dns
  expunged : next.store.expunged = box.store.expunged
  msgs : ∀ msg ∈ next.store.msgs, ∃ old ∈ box.store.msgs, old.key = msg.key ∧
    (old.state.numbered = true → msg.state.numbered = true)

namespace Scans

theorem refl : Scans box box := ⟨rfl, rfl, fun msg mem => ⟨msg, mem, rfl, id⟩⟩

theorem trans {last : Box} (first : Scans box next) (second : Scans next last) : Scans box last where
  dns := second.dns.trans first.dns
  expunged := second.expunged.trans first.expunged
  msgs msg mem := by
    obtain ⟨middle, middleMem, middleKey, middleState⟩ := second.msgs msg mem
    obtain ⟨old, oldMem, oldKey, oldState⟩ := first.msgs middle middleMem
    exact ⟨old, oldMem, oldKey.trans middleKey, fun numbered => middleState (oldState numbered)⟩

theorem opening (scans : Scans box next) (opening : Opening box) : Opening next where
  dns := scans.dns.trans opening.dns
  disjoint msg mem record recordMem := by
    obtain ⟨old, oldMem, oldKey, -⟩ := scans.msgs msg mem
    rw [scans.expunged] at recordMem
    rw [← oldKey]
    exact opening.disjoint old oldMem record recordMem

theorem changeMsg {key : MsgKey} {change : Msg → Msg}
    (msgs : next.store.msgs = update Msg.key key change box.store.msgs)
    (expunged : next.store.expunged = box.store.expunged) (dns : next.dns = box.dns)
    (sameKey : ∀ msg, (change msg).key = msg.key)
    (numbered : ∀ msg, msg.state.numbered = true → (change msg).state.numbered = true) :
    Scans box next where
  dns := dns
  expunged := expunged
  msgs msg mem := by
    rw [msgs] at mem
    rcases mem_update.mp mem with ⟨mem, -⟩ | ⟨old, oldMem, -, rfl⟩
    · exact ⟨msg, mem, rfl, id⟩
    · exact ⟨old, oldMem, (sameKey old).symm, numbered old⟩

theorem setFile {key : MsgKey} {file : MailFile} :
    Sat (box.setFile key file) (Scans box) (fun _ => True) := by
  unfold Box.setFile
  split
  · exact refl
  · split
    · trivial
    · exact changeMsg rfl rfl rfl (fun _ => rfl) fun _ numbered => numbered

theorem finalizeAndSave (key : MsgKey) : Scans box (box.finalizeAndSave host key) := by
  have finalized : Scans box (box.finalizeMsg key) :=
    changeMsg rfl rfl rfl (fun _ => rfl) fun _ _ => rfl
  unfold Box.finalizeAndSave
  dsimp only
  split
  · exact finalized
  · rename_i msg found
    have appended := append_spec host (box.finalizeMsg key) (.value (.message msg.logged))
      [⟨(box.finalizeMsg key).store.uidvldDn, msg.uidDn, key⟩]
    refine finalized.trans ⟨appended.dns, ?_, ?_⟩
    · rw [appended.trees]
    · rw [appended.trees]
      exact refl.msgs

end Scans

theorem announce_of_nil (noDns : box.dns = []) (key : MsgKey) : box.announce key = box := by
  unfold announce distributeUpdateNew Box.distribute
  split
  · rfl
  · obtain ⟨store, disk, trail, dns⟩ := box
    cases noDns
    rfl

theorem addMsgToMaildir_scans (file : MailFile) :
    Sat (box.addMsgToMaildir host file) (Scans box) (fun _ => True) := by
  unfold addMsgToMaildir
  split
  · split
    · trivial
    · exact ⟨rfl, rfl, Scans.refl.msgs⟩
  · split
    · exact Scans.setFile.mono fun next scans => (Scans.finalizeAndSave file.key).trans scans
    · exact Scans.setFile.mono fun next scans => (Scans.finalizeAndSave file.key).trans scans
    · exact Scans.setFile
    · exact Scans.refl

section Populate

variable (plain : allowed .plain)
include plain

theorem addMsgToMaildir_outcomes (sound : Sound box) (noDns : box.dns = []) {file : MailFile}
    (finalize : (∀ filed, allowed (.finalize filed)) ∨ ∀ msg ∈ box.store.msgs, msg.key = file.key →
      msg.state.numbered = true) :
    Outcomes host allowed box (box.addMsgToMaildir host file) := by
  unfold addMsgToMaildir
  cases found : box.findMsg file.key with
  | none =>
    dsimp only
    split
    · exact Evolves.refl
    · exact write_evolves plain rfl rfl rfl
  | some msg =>
    have complete : msg.state.numbered = false →
        Outcomes host allowed box ((box.finalizeAndSave host file.key).setFile file.key file) := by
      intro unnumbered
      have finalizes : allowed (.finalize msg.file.isSome) := by
        refine finalize.resolve_right (fun all => ?_) _
        rw [all msg (find_mem found) (find_key found)] at unnumbered
        cases unnumbered
      have noDnsAfter : (box.finalizeAndSave host file.key).dns = [] :=
        (Scans.finalizeAndSave file.key).dns.trans noDns
      have finalized : Evolves host allowed box
          ((box.finalizeAndSave host file.key).announce file.key) :=
        finalize_evolves found unnumbered finalizes
      rw [announce_of_nil noDnsAfter] at finalized
      cases foundAfter : (box.finalizeAndSave host file.key).findMsg file.key with
      | none =>
        unfold setFile
        rw [foundAfter]
        exact finalized
      | some after =>
        exact Outcomes.of_evolves finalized
          (setFile_outcomes plain (finalized.sound sound) foundAfter (.inl noDnsAfter) file)
    dsimp only
    split
    · rename_i state
      exact complete (by rw [state]; rfl)
    · rename_i state
      exact complete (by rw [state]; rfl)
    · exact setFile_outcomes plain sound found (.inl noDns) file
    · exact Evolves.refl

/-- All files are looked at. -/
theorem scanFiles_outcomes (host : Host) (files : List MailFile) (sound : Sound box) (noDns : box.dns = [])
    (finalize : (∀ filed, allowed (.finalize filed)) ∨ ∀ file ∈ files, ∀ msg ∈ box.store.msgs, msg.key = file.key →
      msg.state.numbered = true) :
    Sat (files.foldlM (addMsgToMaildir host) box)
      (fun next => Evolves host allowed box next ∧ Scans box next)
      (fun failure => Evolves host allowed box failure.2) := by
  induction files generalizing box with
  | nil => exact ⟨Evolves.refl, Scans.refl⟩
  | cons file rest ih =>
    have first : Outcomes host allowed box (box.addMsgToMaildir host file) :=
      addMsgToMaildir_outcomes plain sound noDns
        (finalize.imp_right fun all => all file mem_cons_self)
    have scans : Sat (box.addMsgToMaildir host file) (Scans box) (fun _ => True) :=
      addMsgToMaildir_scans file
    rw [foldlM_cons]
    cases outcome : box.addMsgToMaildir host file with
    | error failure => exact first.of_error outcome
    | ok next =>
      have evolves := first.of_ok outcome
      have scanned := scans.of_ok outcome
      have tail := ih (evolves.sound sound) (scanned.dns.trans noDns) (by
        refine finalize.imp_right fun all other otherMem msg mem same => ?_
        obtain ⟨old, oldMem, oldKey, state⟩ := scanned.msgs msg mem
        exact state (all other (.tail _ otherMem) old oldMem (oldKey.trans same)))
      show Sat (rest.foldlM (addMsgToMaildir host) next) _ _
      cases result : rest.foldlM (addMsgToMaildir host) next with
      | error failure => exact evolves.trans (tail.of_error result)
      | ok last =>
        obtain ⟨lastEvolves, lastScans⟩ := tail.of_ok result
        exact ⟨evolves.trans lastEvolves, scanned.trans lastScans⟩

end Populate

theorem takeModseq_trees (box : Box) (uidDn : Nat) :
    (box.takeModseq uidDn).store.msgs = box.store.msgs ∧
      (box.takeModseq uidDn).store.expunged = box.store.expunged ∧
        (box.takeModseq uidDn).dns = box.dns := by
  unfold takeModseq
  split
  · exact ⟨rfl, rfl, rfl⟩
  · exact ⟨rfl, rfl, rfl⟩

theorem handleMissingFile_eq {msg : Msg} (filled : msg.state = .filled) :
    box.handleMissingFile host msg = (((box.takeModseq msg.uidDn).insertExpunge
      (box.newExpunge msg.key msg.uidDn .unpushed)).dropMsg msg).append host
        (.value (.expunge (box.newExpunge msg.key msg.uidDn .unpushed))) [] := by
  unfold handleMissingFile updateExpunge
  dsimp only
  rw [if_pos filled, append_insertExpunge, append_dropMsg]

/-- A message whose file is missing is replaced, the others stay. -/
theorem handleMissingFile_effect (host : Host) (sound : Sound box) (opening : Opening box)
    (msg : Msg) :
    Opening (box.handleMissingFile host msg) ∧
      ∀ other ∈ box.store.msgs, other.key ≠ msg.key →
        other ∈ (box.handleMissingFile host msg).store.msgs := by
  by_cases filled : msg.state = .filled
  · rw [handleMissingFile_eq filled]
    obtain ⟨msgs, expunged, dns⟩ := takeModseq_trees box msg.uidDn
    have appended := append_spec host (((box.takeModseq msg.uidDn).insertExpunge
      (box.newExpunge msg.key msg.uidDn .unpushed)).dropMsg msg)
      (.value (.expunge (box.newExpunge msg.key msg.uidDn .unpushed))) []
    refine ⟨⟨(appended.dns.trans dns).trans opening.dns, ?_⟩, ?_⟩
    · rw [appended.trees]
      intro other otherMem record recordMem
      have inErased : other ∈ erase Msg.key msg.key (box.takeModseq msg.uidDn).store.msgs :=
        otherMem
      have inInserted : record ∈ insert Expunge.key (box.newExpunge msg.key msg.uidDn .unpushed)
        (box.takeModseq msg.uidDn).store.expunged := recordMem
      rw [msgs, sound.keyed.msgsSorted.mem_erase] at inErased
      rw [expunged] at inInserted
      rcases mem_insert.mp inInserted with rfl | old
      · exact Ne.symm inErased.2
      · exact opening.disjoint other inErased.1 record old
    · rw [appended.trees]
      intro other otherMem differs
      show other ∈ erase Msg.key msg.key (box.takeModseq msg.uidDn).store.msgs
      rw [msgs]
      exact sound.keyed.msgsSorted.mem_erase.mpr ⟨otherMem, differs⟩
  · unfold handleMissingFile
    rw [if_neg filled]
    exact ⟨opening, fun other otherMem _ => otherMem⟩

theorem handleMissingFile_msgs (host : Host) (sound : Sound box) (msg : Msg) :
    ∀ other ∈ (box.handleMissingFile host msg).store.msgs, other ∈ box.store.msgs ∧
      (msg.state = .filled → other.key ≠ msg.key) := by
  by_cases filled : msg.state = .filled
  · rw [handleMissingFile_eq filled, (append_spec host _ _ _).trees]
    intro other mem
    have inErased : other ∈ erase Msg.key msg.key (box.takeModseq msg.uidDn).store.msgs := mem
    rw [(takeModseq_trees box msg.uidDn).1, sound.keyed.msgsSorted.mem_erase] at inErased
    exact ⟨inErased.1, fun _ => inErased.2⟩
  · unfold handleMissingFile
    rw [if_neg filled]
    exact fun other mem => ⟨mem, fun isFilled => absurd isFilled filled⟩

theorem handleMissingFile_evolves (opening : Opening box) {msg : Msg}
    (mem : msg ∈ box.store.msgs) (missing : allowed .missing ∨ msg.state ≠ .filled) :
    Evolves host allowed box (box.handleMissingFile host msg) := by
  by_cases filled : msg.state = .filled
  · have lost : Change host box .missing (box.handleMissingFile host msg) := by
      rw [handleMissingFile_eq filled]
      refine .missing msg mem filled (find_eq_none.mpr ?_) opening.dns
      exact fun record recordMem => opening.disjoint msg mem record recordMem
    exact Evolves.single (missing.resolve_right (not_not_intro filled)) lost
  · unfold handleMissingFile
    rw [if_neg filled]
    exact Evolves.refl

/-- All messages without a file are looked at. -/
theorem missingFiles_evolves {lost : List Msg} (sound : Sound box) (opening : Opening box)
    (members : ∀ msg ∈ lost, msg ∈ box.store.msgs)
    (distinct : lost.Pairwise fun first second => first.key ≠ second.key)
    (missing : allowed .missing ∨ ∀ msg ∈ lost, msg.state ≠ .filled) :
    Evolves host allowed box (lost.foldl (handleMissingFile host) box) := by
  induction lost generalizing box with
  | nil => exact Evolves.refl
  | cons msg rest ih =>
    obtain ⟨differs, restDistinct⟩ := pairwise_cons.mp distinct
    have mem := members msg mem_cons_self
    have first : Evolves host allowed box (box.handleMissingFile host msg) :=
      handleMissingFile_evolves opening mem (missing.imp_right fun none => none msg mem_cons_self)
    obtain ⟨nextOpening, stays⟩ := handleMissingFile_effect host sound opening msg
    refine first.trans (ih (first.sound sound) nextOpening ?_ restDistinct ?_)
    · intro other otherMem
      exact stays other (members other (.tail _ otherMem)) (differs other otherMem).symm
    · exact missing.imp_right fun none other otherMem => none other (.tail _ otherMem)

/-- What is left after messages without a file are looked at: none of those that were filled. -/
theorem missingFiles_msgs {lost : List Msg} (sound : Sound box) (opening : Opening box)
    (members : ∀ msg ∈ lost, msg ∈ box.store.msgs)
    (distinct : lost.Pairwise fun first second => first.key ≠ second.key) :
    Opening (lost.foldl (handleMissingFile host) box) ∧
      ∀ other ∈ (lost.foldl (handleMissingFile host) box).store.msgs, other ∈ box.store.msgs ∧
        ∀ msg ∈ lost, msg.state = .filled → other.key ≠ msg.key := by
  induction lost generalizing box with
  | nil => exact ⟨opening, fun other mem => ⟨mem, fun msg inLost => absurd inLost not_mem_nil⟩⟩
  | cons msg rest ih =>
    obtain ⟨differs, restDistinct⟩ := pairwise_cons.mp distinct
    have first : Evolves host (fun _ => True) box (box.handleMissingFile host msg) :=
      handleMissingFile_evolves opening (members msg mem_cons_self) (.inl trivial)
    obtain ⟨nextOpening, stays⟩ := handleMissingFile_effect host sound opening msg
    obtain ⟨lastOpening, left⟩ := ih (first.sound sound) nextOpening (fun other otherMem =>
        stays other (members other (.tail _ otherMem)) (differs other otherMem).symm)
      restDistinct
    refine ⟨lastOpening, fun other mem => ?_⟩
    obtain ⟨inNext, notLost⟩ := left other mem
    obtain ⟨inBox, notFirst⟩ := handleMissingFile_msgs host sound msg other inNext
    refine ⟨inBox, fun lostMsg inLost => ?_⟩
    rcases mem_cons.mp inLost with rfl | inRest
    · exact notFirst
    · exact notLost lostMsg inRest

/-- The files and the trees are compared. -/
theorem populateMsgs_outcomes (plain : allowed .plain) (sound : Sound box) (opening : Opening box)
    (finalize : (∀ filed, allowed (.finalize filed)) ∨ ∀ file ∈ box.disk.files, ∀ msg ∈ box.store.msgs,
      msg.key = file.key → msg.state.numbered = true)
    (missing : allowed .missing ∨ ∀ next,
      (filesInOrder host box.disk).foldlM (addMsgToMaildir host) box = .ok next →
        ∀ msg ∈ next.store.msgs, msg.file = none → msg.state ≠ .filled) :
    Outcomes host allowed box (box.populateMsgs host) := by
  have inFiles : ∀ file ∈ filesInOrder host box.disk, file ∈ box.disk.files := by
    intro file mem
    have popped : file ∈ host.readdir.pop box.disk box.disk.files := by
      rcases mem_append.mp mem with inCur | inNew
      · exact mem_of_mem_filter inCur
      · exact mem_of_mem_filter inNew
    exact (host.readdir.perm _ _).mem_iff.mp popped
  have scanned := scanFiles_outcomes plain host (filesInOrder host box.disk) sound opening.dns
    (finalize.imp_right fun all file mem => all file (inFiles file mem))
  unfold populateMsgs
  cases outcome : (filesInOrder host box.disk).foldlM (addMsgToMaildir host) box with
  | error failure => exact scanned.of_error outcome
  | ok next =>
    obtain ⟨evolves, scans⟩ := scanned.of_ok outcome
    have nextSound := evolves.sound sound
    refine Outcomes.of_evolves evolves ?_
    refine missingFiles_evolves nextSound (scans.opening opening)
      (fun msg mem => mem_of_mem_filter mem) ?_ ?_
    · exact (nextSound.keyed.msgsSorted.imp ne_of_lt).sublist filter_sublist
    · refine missing.imp_right fun none msg mem => ?_
      obtain ⟨inMsgs, noFile⟩ := mem_filter.mp mem
      exact none next outcome msg inMsgs (Option.isNone_iff_eq_none.mp noFile)

theorem populateMsgs_filed (sound : Sound box) (opening : Opening box)
    (result : box.populateMsgs host = .ok next) :
    next.dns = [] ∧ ∀ msg ∈ next.store.msgs, msg.state = .filled → msg.file.isSome = true := by
  have scanned : Sat ((filesInOrder host box.disk).foldlM (addMsgToMaildir host) box)
      (fun next => Evolves host (fun _ => True) box next ∧ Scans box next)
      (fun failure => Evolves host (fun _ => True) box failure.2) :=
    scanFiles_outcomes trivial host (filesInOrder host box.disk) sound opening.dns
      (.inl fun _ => trivial)
  unfold populateMsgs at result
  cases outcome : (filesInOrder host box.disk).foldlM (addMsgToMaildir host) box with
  | error failure =>
    rw [outcome] at result
    cases result
  | ok middle =>
    rw [outcome] at result
    cases result
    obtain ⟨evolves, scans⟩ := scanned.of_ok outcome
    have middleSound := evolves.sound sound
    have distinct : (middle.store.msgs.filter (·.file.isNone)).Pairwise fun first second =>
        first.key ≠ second.key :=
      (middleSound.keyed.msgsSorted.imp ne_of_lt).sublist filter_sublist
    obtain ⟨lastOpening, left⟩ := missingFiles_msgs middleSound (scans.opening opening)
      (fun msg mem => mem_of_mem_filter mem) distinct
    refine ⟨lastOpening.dns, fun msg mem filled => ?_⟩
    obtain ⟨inMiddle, notLost⟩ := left msg mem
    cases noFile : msg.file with
    | some file => rfl
    | none =>
      refine absurd rfl (notLost msg (mem_filter.mpr ⟨inMiddle, ?_⟩) filled)
      rw [noFile]
      rfl

/-! ### Opening a mailbox -/

/-- The box after its log is read. -/
def loaded (box : Box) (state : LogState) : Box :=
  { box with store := Box.ofLog box.store state.finish }

theorem Opening.loaded (noDns : box.dns = []) {state : LogState}
    (describes : state.Describes box.disk.cache) : Opening (box.loaded state) where
  dns := noDns
  disjoint msg mem record recordMem := by
    have trees : (box.loaded state).store.toTrees = state.toTrees := state.finish_trees
    rw [trees] at mem recordMem
    exact describes.trees.disjoint mem recordMem

theorem readCacheAndFiles_eq (host : Host) (log : SoundLog box.disk.cache) (readFiles : Bool) :
    ∃ state : LogState, state.Describes box.disk.cache ∧
      box.readCacheAndFiles host readFiles =
        if readFiles then (box.loaded state).populateMsgs host >>= fun next => .ok next.detectHi
        else .ok (box.loaded state).detectHi := by
  obtain ⟨state, read, describes⟩ := readEntries_describes log.validLog
  refine ⟨state, describes, ?_⟩
  unfold readCacheAndFiles
  rw [read]
  rfl

theorem Sound.detectHi (sound : Sound box) : Sound box.detectHi :=
  sound.memory rfl rfl sound.keyed sound.ledger le_rfl sound.held

theorem le_foldl_max {values : List Nat} {start value : Nat} (mem : value ∈ values ∨ value ≤ start) :
    value ≤ values.foldl max start := by
  induction values generalizing start with
  | nil => exact mem.resolve_left not_mem_nil
  | cons head rest ih =>
    refine ih ?_
    rcases mem with mem | below
    · rcases mem_cons.mp mem with rfl | inRest
      · exact .inr (le_max_right _ _)
      · exact .inl inRest
    · exact .inr (le_trans below (le_max_left _ _))

theorem Locals.detectHi (box : Box) : Locals box.detectHi where
  msg _ mem := le_foldl_max (.inl (mem_append_left _
    (mem_map_of_mem (f := fun msg => msg.key.uidLocal) mem)))
  expunge _ mem := le_foldl_max (.inl (mem_append_right _
    (mem_map_of_mem (f := fun record => record.key.uidLocal) mem)))

/-! ### Removing everything -/

/-- What removing the files does. -/
theorem foldl_removeFile (files : List MailFile) (box : Box) :
    (files.foldl removeFile box).store = box.store ∧ (files.foldl removeFile box).dns = box.dns ∧
      (files.foldl removeFile box).disk = { box.disk with
        files := (files.foldl removeFile box).disk.files } ∧
      (∀ file, file ∈ (files.foldl removeFile box).disk.files ↔
        file ∈ box.disk.files ∧ file ∉ files) ∧
      ∀ disk ∈ (files.foldl removeFile box).trail, disk ∈ box.trail ∨
        ∃ left, disk = { box.disk with files := left } := by
  induction files generalizing box with
  | nil =>
    refine ⟨rfl, rfl, rfl, fun file => ?_, fun disk mem => .inl mem⟩
    exact ⟨fun mem => ⟨mem, not_mem_nil⟩, And.left⟩
  | cons head rest ih =>
    obtain ⟨store, dns, disk, files, trail⟩ := ih (box.removeFile head)
    refine ⟨store, dns, disk, fun file => ?_, fun written mem => ?_⟩
    · rw [foldl_cons, files]
      show file ∈ box.disk.files.filter (· ≠ head) ∧ _ ↔ _
      simp only [mem_filter, decide_eq_true_eq, mem_cons]
      tauto
    · rcases trail written mem with old | later
      · rcases mem_append.mp old with before | now
        · exact .inl before
        · exact .inr ⟨_, mem_singleton.mp now⟩
      · exact .inr later

/-- What is left when everything is removed. -/
structure Removed (box next : Box) : Prop where
  store : next.store = box.store
  dns : next.dns = box.dns
  disk : next.disk = { box.disk with cache := [], files := [] }
  trail : ∀ disk ∈ next.trail, disk ∈ box.trail ∨
    ∃ left, disk = { box.disk with cache := [], files := left }

theorem removeAll_spec (box : Box) : Removed box box.removeAll := by
  obtain ⟨store, dns, disk, files, trail⟩ :=
    foldl_removeFile box.disk.files (box.write { box.disk with cache := [] })
  refine ⟨store, dns, ?_, fun written mem => ?_⟩
  · have none : (box.disk.files.foldl removeFile
        (box.write { box.disk with cache := [] })).disk.files = [] := by
      refine eq_nil_iff_forall_not_mem.mpr fun file mem => ?_
      obtain ⟨inFiles, notInFiles⟩ := (files file).mp mem
      exact notInFiles inFiles
    rw [none] at disk
    exact disk
  · rcases trail written mem with old | ⟨left, later⟩
    · rcases mem_append.mp old with before | now
      · exact .inl before
      · exact .inr ⟨box.disk.files, mem_singleton.mp now⟩
    · exact .inr ⟨left, later⟩

/-- Nothing is read from an empty disk. -/
theorem readCacheAndFiles_nil (host : Host) (readFiles : Bool) (cache : box.disk.cache = [])
    (files : box.disk.files = []) :
    box.readCacheAndFiles host readFiles = .ok { box with store := Box.ofLog box.store {} } := by
  have noFiles : filesInOrder host box.disk = [] := by
    have popped : host.readdir.pop box.disk box.disk.files = [] := by
      rw [files]
      exact perm_nil.mp (host.readdir.perm _ _)
    unfold filesInOrder
    rw [popped]
    rfl
  unfold readCacheAndFiles
  rw [cache]
  cases readFiles with
  | false => rfl
  | true =>
    show ({ box with store := Box.ofLog box.store {} } : Box).populateMsgs host >>= _ = _
    unfold populateMsgs
    rw [show ({ box with store := Box.ofLog box.store {} } : Box).disk = box.disk from rfl, noFiles]
    rfl

/-- What is left when the cache is dropped. -/
structure Dropped (box next : Box) : Prop where
  store : next.store = Box.ofLog box.store {}
  dns : next.dns = box.dns
  disk : next.disk = { box.disk with cache := [], files := [], invalid := false }
  trail : ∀ disk ∈ next.trail, disk ∈ box.trail ∨
    (disk.cache = box.disk.cache ∧ disk.invalid = true ∧ disk.assigned = box.disk.assigned) ∨
      (disk.cache = [] ∧ disk.assigned = box.disk.assigned)

theorem dropCache_spec (host : Host) (box : Box) :
    ∃ next, box.dropCache host = .ok next ∧ Dropped box next := by
  have removed := removeAll_spec (box.setInvalid true)
  have cache : (box.setInvalid true).removeAll.disk.cache = [] := by rw [removed.disk]
  have files : (box.setInvalid true).removeAll.disk.files = [] := by rw [removed.disk]
  refine ⟨_, readCacheAndFiles_nil host true cache files, ?_, ?_, ?_, ?_⟩
  · show Box.ofLog { (box.setInvalid true).removeAll.store with toTrees := {} } {} = _
    rw [removed.store]
    rfl
  · exact removed.dns
  · show ({ (box.setInvalid true).removeAll.disk with invalid := false } : Disk) = _
    rw [removed.disk]
    rfl
  · intro disk mem
    rcases mem_append.mp mem with before | now
    · rcases removed.trail disk before with old | ⟨left, equal⟩
      · rcases mem_append.mp old with older | first
        · exact .inl older
        · rw [mem_singleton.mp first]
          exact .inr (.inl ⟨rfl, rfl, rfl⟩)
      · rw [equal]
        exact .inr (.inr ⟨rfl, rfl⟩)
    · rw [mem_singleton.mp now]
      refine .inr (.inr ⟨cache, ?_⟩)
      show (box.setInvalid true).removeAll.disk.assigned = _
      rw [removed.disk]
      rfl

/-- The box that a mailbox is opened with: a cache that was being dropped is dropped. -/
def initial (disk : Disk) (lite : Bool) : Box :=
  if disk.invalid then ({ store := { lite }, disk } : Box).removeAll.setInvalid false
  else { store := { lite }, disk }

theorem init_eq (host : Host) (disk : Disk) (lite : Bool) :
    init host disk lite = (initial disk lite).readCacheAndFiles host !lite := rfl

/-- What a mailbox is opened with. -/
structure Initial (closed : Disk) (lite : Bool) (box : Box) : Prop where
  store : box.store = { lite }
  dns : box.dns = []
  disk : box.disk = if closed.invalid then { closed with cache := [], files := [], invalid := false }
    else closed
  trail : ∀ written ∈ box.trail, written.cache = [] ∧ written.assigned = closed.assigned ∧
    closed.invalid = true

theorem initial_spec (disk : Disk) (lite : Bool) : Initial disk lite (initial disk lite) := by
  unfold initial
  split
  · rename_i invalid
    have removed := removeAll_spec { store := { lite }, disk }
    refine ⟨removed.store, removed.dns, ?_, fun written mem => ?_⟩
    · rw [if_pos invalid]
      show ({ ({ store := { lite }, disk } : Box).removeAll.disk with invalid := false } : Disk) = _
      rw [removed.disk]
    · rcases mem_append.mp mem with before | now
      · rcases removed.trail written before with old | ⟨left, equal⟩
        · exact absurd old not_mem_nil
        · rw [equal]
          exact ⟨rfl, rfl, invalid⟩
      · rw [mem_singleton.mp now]
        show ({ store := { lite }, disk } : Box).removeAll.disk.cache = [] ∧
          ({ store := { lite }, disk } : Box).removeAll.disk.assigned = _ ∧ _
        rw [removed.disk]
        exact ⟨rfl, rfl, invalid⟩
  · rename_i valid
    refine ⟨rfl, rfl, (if_neg valid).symm, fun written mem => absurd mem not_mem_nil⟩

/-- A box with no log and no messages, as long as nothing is held. -/
theorem Dropped.sound {old : Box} (dropped : Dropped old box) (sound : SoundLog old.disk.cache)
    (trail : ∀ disk ∈ old.trail, SoundLog disk.cache) (free : old.holdsOld = false) : Sound box := by
  have cache : box.disk.cache = [] := by rw [dropped.disk]
  have written : ∀ disk ∈ box.trail, SoundLog disk.cache := by
    intro disk mem
    rcases dropped.trail disk mem with before | ⟨same, -⟩ | ⟨none, -⟩
    · exact trail disk before
    · rw [same]
      exact sound
    · rw [none]
      exact SoundLog.nil
  have held : ∀ dn ∈ box.dns, ∀ record, .expunge record ∉ dn.held := by
    intro dn mem record recordMem
    rw [dropped.dns] at mem
    have holds : old.holdsOld = true :=
      any_eq_true.mpr ⟨dn, mem, any_eq_true.mpr ⟨.expunge record, recordMem, rfl⟩⟩
    rw [free] at holds
    cases holds
  have describes : LogState.Describes {} box.disk.cache := cache ▸ LogState.describes_nil
  have same : box = { box with store := Box.ofLog box.store (LogState.finish {}) } := by
    obtain ⟨store, disk, trail, dns⟩ := box
    have equal := dropped.store
    dsimp only at equal
    subst equal
    rfl
  rw [same]
  exact Sound.ofLog (cache ▸ SoundLog.nil) written held describes

theorem Sound.setUidvlds (sound : Sound box) (uidvldUp uidvldDn : Nat) :
    Sound (box.setUidvlds host uidvldUp uidvldDn) := by
  have noted : Sound { box with store := { box.store with uidvldUp, uidvldDn } } :=
    sound.memory rfl rfl sound.keyed sound.ledger le_rfl sound.held
  exact noted.appendNote (append_spec host _ _ _) rfl nofun

theorem Locals.setUidvlds (locals : Locals box) (uidvldUp uidvldDn : Nat) :
    Locals (box.setUidvlds host uidvldUp uidvldDn) := by
  have noted : Locals { box with store := { box.store with uidvldUp, uidvldDn } } :=
    ⟨locals.msg, locals.expunge⟩
  exact noted.append _ _

theorem Dropped.locals {old : Box} (dropped : Dropped old box) : Locals box := by
  have trees : box.store.toTrees = {} := by
    rw [dropped.store]
    rfl
  constructor
  · rw [trees]
    exact fun msg mem => absurd mem not_mem_nil
  · rw [trees]
    exact fun record mem => absurd mem not_mem_nil

theorem soundLog_uidvlds (uidvldUp uidvldDn : Nat) : SoundLog [.uidvlds uidvldUp uidvldDn] where
  valid _ mem := absurd mem not_mem_nil
  plain _ mem := absurd mem not_mem_nil
  owner _ mem := absurd mem not_mem_nil
  rising := List.Pairwise.nil
  explicit := pairwise_singleton _ _

end Box

/-! ### Opening a mailbox -/

/-- The state of a message in the log. -/
def LogValue.msgState : LogValue → Option MsgState
  | .message msg => some msg.state
  | .expunge _ => none

/-- Every message that the log has as filled has a file. A cache that is being dropped has no
messages. -/
def Disk.Complete (disk : Disk) : Prop :=
  disk.invalid = true ∨ ∀ value ∈ cacheValues disk.cache, lastValue disk.cache value.key = some value →
    value.msgState = some .filled → ∃ file ∈ disk.files, file.key = value.key

instance (disk : Disk) : Decidable disk.Complete := inferInstanceAs (Decidable (_ ∨ _))

/-- No file is found for a message that the log has as not downloaded or not for this user. -/
def Disk.Settled (disk : Disk) : Prop :=
  disk.invalid = true ∨ ∀ value ∈ cacheValues disk.cache, lastValue disk.cache value.key = some value →
    value.msgState = some .unfilled ∨ value.msgState = some .not4me →
      ∀ file ∈ disk.files, file.key ≠ value.key

instance (disk : Disk) : Decidable disk.Settled := inferInstanceAs (Decidable (_ ∨ _))

namespace Box

variable {host : Host} {box next : Box} {allowed : ChangeKind → Prop}

/-- Every filled message without a file has one among the files that are left to look at. -/
def Filed (files : List MailFile) (box : Box) : Prop :=
  ∀ msg ∈ box.store.msgs, msg.state = .filled → msg.file = none → ∃ file ∈ files, file.key = msg.key

variable {file : MailFile}

theorem setFile_msgs {key : MsgKey} (result : box.setFile key file = .ok next) :
    ∀ msg ∈ next.store.msgs, msg.file = none → msg ∈ box.store.msgs ∧ msg.key ≠ key := by
  unfold setFile at result
  split at result
  · rename_i absent
    cases result
    exact fun msg mem _ => ⟨mem, find_eq_none.mp absent msg mem⟩
  · split at result
    · cases result
    · cases result
      intro msg mem noFile
      rcases mem_update.mp mem with kept | ⟨old, -, -, rfl⟩
      · exact kept
      · cases noFile

theorem finalizeAndSave_msgs (host : Host) (box : Box) (key : MsgKey) :
    ∀ msg ∈ (box.finalizeAndSave host key).store.msgs, msg.key ≠ key → msg ∈ box.store.msgs := by
  have finalized : ∀ msg ∈ (box.finalizeMsg key).store.msgs, msg.key ≠ key → msg ∈ box.store.msgs := by
    intro msg mem differs
    rcases mem_update.mp mem with ⟨kept, -⟩ | ⟨old, -, same, rfl⟩
    · exact kept
    · exact absurd same differs
  unfold finalizeAndSave
  dsimp only
  split
  · exact finalized
  · rw [(append_spec host _ _ _).trees]
    exact finalized

theorem addMsgToMaildir_filed (sound : Sound box) {rest : List MailFile}
    (filed : box.Filed (file :: rest)) (result : box.addMsgToMaildir host file = .ok next) :
    next.Filed rest := by
  -- what is still without a file was there before and is not the message of this file
  suffices old : ∀ msg ∈ next.store.msgs, msg.state = .filled → msg.file = none →
      msg ∈ box.store.msgs ∧ msg.key ≠ file.key by
    intro msg mem filled noFile
    obtain ⟨oldMem, differs⟩ := old msg mem filled noFile
    obtain ⟨other, otherMem, same⟩ := filed msg oldMem filled noFile
    rcases mem_cons.mp otherMem with rfl | inRest
    · exact absurd same.symm differs
    · exact ⟨other, inRest, same⟩
  unfold addMsgToMaildir at result
  cases found : box.findMsg file.key with
  | none =>
    rw [found] at result
    have absent := find_eq_none.mp found
    dsimp only at result
    split at result
    · cases result
    · cases result
      exact fun msg mem _ _ => ⟨mem, absent msg mem⟩
  | some msg =>
    rw [found] at result
    dsimp only at result
    split at result
    · intro other mem _ noFile
      obtain ⟨inFinalized, differs⟩ := setFile_msgs result other mem noFile
      exact ⟨finalizeAndSave_msgs host box file.key other inFinalized differs, differs⟩
    · intro other mem _ noFile
      obtain ⟨inFinalized, differs⟩ := setFile_msgs result other mem noFile
      exact ⟨finalizeAndSave_msgs host box file.key other inFinalized differs, differs⟩
    · exact fun other mem _ noFile => setFile_msgs result other mem noFile
    · rename_i expunged
      cases result
      intro other mem filled _
      refine ⟨mem, fun same => ?_⟩
      rw [sound.find_unique found mem same, expunged] at filled
      cases filled

theorem scanFiles_filed {files : List MailFile} (sound : Sound box) (noDns : box.dns = [])
    (filed : box.Filed files)
    (result : files.foldlM (addMsgToMaildir host) box = .ok next) : next.Filed [] := by
  induction files generalizing box with
  | nil =>
    cases result
    exact filed
  | cons file rest ih =>
    rw [foldlM_cons] at result
    cases outcome : box.addMsgToMaildir host file with
    | error failure =>
      rw [outcome] at result
      cases result
    | ok middle =>
      rw [outcome] at result
      have outcomes : Outcomes host (fun _ => True) box (box.addMsgToMaildir host file) :=
        addMsgToMaildir_outcomes trivial sound noDns (.inl fun _ => trivial)
      have scans : Sat (box.addMsgToMaildir host file) (Scans box) (fun _ => True) :=
        addMsgToMaildir_scans file
      exact ih ((outcomes.of_ok outcome).sound sound)
        ((scans.of_ok outcome).dns.trans noDns) (addMsgToMaildir_filed sound filed outcome) result

theorem mem_filesInOrder {host : Host} {disk : Disk} (mem : file ∈ disk.files) :
    file ∈ filesInOrder host disk := by
  have popped : file ∈ host.readdir.pop disk disk.files :=
    (host.readdir.perm _ _).mem_iff.mpr mem
  unfold filesInOrder
  rw [mem_append, mem_filter, mem_filter]
  cases subdir : file.subdir with
  | cur => exact .inl ⟨popped, rfl⟩
  | new => exact .inr ⟨popped, rfl⟩

/-- What opening a mailbox does: the log is loaded, and the files may lead to changes. -/
theorem init_leaves (host : Host) (plain : allowed .plain) {disk : Disk} (log : SoundLog disk.cache)
    (lite : Bool) (finalize : lite = true ∨ (∀ filed, allowed (.finalize filed)) ∨ disk.Settled)
    (missing : lite = true ∨ allowed .missing ∨ disk.Complete) :
    ∃ read : LogState, read.Describes (initial disk lite).disk.cache ∧
      Sound ((initial disk lite).loaded read) ∧
      Sat (init host disk lite)
        (fun box => ∃ populated, Evolves host allowed ((initial disk lite).loaded read) populated ∧
          populated.dns = [] ∧
          (lite = false → ∀ msg ∈ populated.store.msgs, msg.state = .filled → msg.file.isSome = true) ∧
          box = populated.detectHi)
        (fun failure => Evolves host allowed ((initial disk lite).loaded read) failure.2) := by
  have initial := initial_spec disk lite
  have cache : SoundLog (Box.initial disk lite).disk.cache := by
    rw [initial.disk]
    split
    · exact SoundLog.nil
    · exact log
  have trail : ∀ written ∈ (Box.initial disk lite).trail, SoundLog written.cache := by
    intro written mem
    rw [(initial.trail written mem).1]
    exact SoundLog.nil
  obtain ⟨read, describes, result⟩ := readCacheAndFiles_eq host cache !lite
  have sound : Sound ((Box.initial disk lite).loaded read) := by
    refine Sound.ofLog cache trail (fun dn mem => ?_) describes
    rw [initial.dns] at mem
    exact absurd mem not_mem_nil
  refine ⟨read, describes, sound, ?_⟩
  have opening : Opening ((Box.initial disk lite).loaded read) := Opening.loaded initial.dns describes
  have trees : ((Box.initial disk lite).loaded read).store.toTrees = read.toTrees := read.finish_trees
  -- a message that is loaded is the last value of its key, and the cache was not being dropped
  have onDisk : ∀ msg ∈ ((Box.initial disk lite).loaded read).store.msgs,
      ((Box.initial disk lite).loaded read).disk = disk ∧ disk.invalid ≠ true ∧
        .message msg ∈ cacheValues disk.cache ∧ lastValue disk.cache msg.key = some (.message msg) := by
    intro msg mem
    rw [trees] at mem
    have isLast := (describes.trees.mem_msgs msg).mp mem
    have sameDisk := initial.disk
    by_cases invalid : disk.invalid = true
    · rw [if_pos invalid] at sameDisk
      rw [sameDisk] at isLast
      cases isLast
    · rw [if_neg invalid] at sameDisk
      rw [sameDisk] at isLast
      exact ⟨sameDisk, invalid, mem_cacheValues.mpr (lastValue_mem isLast).1, isLast⟩
  rw [init_eq, result]
  cases lite with
  | true => exact ⟨_, Evolves.refl, opening.dns, nofun, rfl⟩
  | false =>
    have populated : Outcomes host allowed ((Box.initial disk false).loaded read)
        (((Box.initial disk false).loaded read).populateMsgs host) := by
      refine populateMsgs_outcomes plain sound opening
        ((finalize.resolve_left nofun).imp_right fun settled => ?_)
        ((missing.resolve_left nofun).imp_right fun complete => ?_)
      · intro file inFiles msg mem same
        obtain ⟨sameDisk, valid, inCache, isLast⟩ := onDisk msg mem
        rw [sameDisk] at inFiles
        have unsettled := settled.resolve_left valid (.message msg) inCache isLast
        cases state : msg.state with
        | filled | expunged => rfl
        | unfilled => exact absurd same.symm (unsettled (.inl (congrArg some state)) file inFiles)
        | not4me => exact absurd same.symm (unsettled (.inr (congrArg some state)) file inFiles)
      · intro next scanned msg mem noFile filled
        have filed : ((Box.initial disk false).loaded read).Filed
            (filesInOrder host ((Box.initial disk false).loaded read).disk) := by
          intro msg mem filled _
          obtain ⟨sameDisk, valid, inCache, isLast⟩ := onDisk msg mem
          obtain ⟨file, inFiles, same⟩ :=
            complete.resolve_left valid (.message msg) inCache isLast (congrArg some filled)
          refine ⟨file, mem_filesInOrder ?_, same⟩
          rw [sameDisk]
          exact inFiles
        obtain ⟨file, inNone, -⟩ :=
          scanFiles_filed sound opening.dns filed scanned msg mem filled noFile
        exact absurd inNone not_mem_nil
    show Sat (((Box.initial disk false).loaded read).populateMsgs host >>= _) _ _
    cases outcome : ((Box.initial disk false).loaded read).populateMsgs host with
    | error failure => exact populated.of_error outcome
    | ok next =>
      obtain ⟨noDns, filed⟩ := populateMsgs_filed sound opening outcome
      exact ⟨next, populated.of_ok outcome, noDns, fun _ => filed, rfl⟩

end Box

end Splintermail
