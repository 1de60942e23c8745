/-
This file is about the index `mods` over the life of a mailbox, as the comments of
`imaildir.h` describe it: it holds the messages that are filled or expunged and the
expunges with a `uid_dn`, and nothing else.

All changes of a mailbox keep the index, except for the recovery of a message whose
file is missing: the expunge that replaces the message gets a modseq, but is not
entered in the index.
-/

import Splintermail.Imaildir.Replay

namespace Splintermail

open Maildir List

namespace Box

variable {host : Host} {box next : Box} {allowed : ChangeKind → Prop}

namespace Sound

theorem mod_le (sound : Sound box) (indexed : box.store.toTrees.Indexed) {mod : Mod}
    (mem : mod ∈ box.store.mods) : mod.modseq ≤ box.store.himodseqDn := by
  rcases (indexed.mem_mods mod).mp mem with ⟨msg, inMsgs, -, rfl⟩ | ⟨record, inExpunged, -, rfl⟩
  · exact sound.ledger.bound_msg inMsgs
  · exact sound.ledger.issued.bound _ ⟨.expunge record,
      mem_append_left _ (mem_values.mpr (.inr ⟨record, inExpunged, rfl⟩)), rfl⟩

theorem fresh_modseq (sound : Sound box) (indexed : box.store.toTrees.Indexed) {mod : Mod}
    (mem : mod ∈ box.store.mods) : mod.modseq ≠ box.store.himodseqDn + 1 := by
  have below := sound.mod_le indexed mem
  omega

end Sound

/-- Every change but the recovery of a missing file keeps the index. -/
theorem Change.indexed {kind : ChangeKind} (change : Change host box kind next) (sound : Sound box)
    (allowed : kind ≠ .missing) (indexed : box.store.toTrees.Indexed) :
    next.store.toTrees.Indexed := by
  have appended : ∀ (box : Box) {entry : LogEntry} {assigned : List Assignment},
      box.store.toTrees.Indexed → (box.append host entry assigned).store.toTrees.Indexed := by
    intro box entry assigned boxIndexed
    rw [(append_spec host box entry assigned).trees]
    exact boxIndexed
  cases change with
  | disk disk cache assigned invalid => exact indexed
  | himodseqUp himodseqUp =>
    exact appended { box with store := { box.store with himodseqUp } } indexed
  | takeLocal uidUp =>
    unfold Box.takeLocal
    split
    · exact indexed
    · exact indexed
  | meet key internaldate flags fresh unseen apart locals =>
    have absent : ∀ other ∈ box.store.msgs, other.key ≠ (Msg.unfilled key internaldate flags).key :=
      Tree.find_eq_none.mp fresh
    exact appended _ (indexed.insertMsg absent fun nonzero => absurd rfl nonzero)
  | edit key change edits unseen =>
    exact indexed.editMsg key change fun msg mem same =>
      ⟨(edits msg mem same).key, (edits msg mem same).modseq⟩
  | save msg mem unnumbered => exact appended box indexed
  | finalize msg mem unnumbered =>
    have zero : msg.modseq = 0 := by
      by_contra nonzero
      rw [(sound.keyed.msg msg mem).1.mp nonzero] at unnumbered
      cases unnumbered
    have replaced := indexed.replaceMsg box.finalized mem rfl
      fun mod inMods => sound.fresh_modseq indexed inMods
    rw [zero] at replaced
    exact appended (box.finalizeMsg msg.key) replaced
  | bump msg flags mem numbered =>
    have replaced := indexed.replaceMsg (box.flagged · flags) mem rfl
      fun mod inMods => sound.fresh_modseq indexed inMods
    rw [← Trees.erase_eq_eraseMod fun _ => indexed.modseq_ne_zero] at replaced
    exact appended (box.bumpFlags msg flags) replaced
  | push record mem unpushed =>
    exact appended (box.markPushed record.key)
      (indexed.changeExpunge (fun record => { record with state := .pushed }) mem rfl)
  | discard msg mem unnumbered fresh =>
    have absent : ∀ other ∈ box.store.expunged,
        other.key ≠ (⟨msg.key, 0, .pushed, 0⟩ : Expunge).key := Tree.find_eq_none.mp fresh
    exact appended (box.enterExpunge ⟨msg.key, 0, .pushed, 0⟩)
      (indexed.insertExpunge absent fun nonzero => absurd rfl nonzero)
  | expire msg mem filled fresh =>
    have nonzero : msg.uidDn ≠ 0 := by
      refine (sound.keyed.msg msg mem).2.mpr ?_
      rw [filled]
      rfl
    have absent : ∀ other ∈ box.store.expunged, other.key ≠
        (⟨msg.key, msg.uidDn, .pushed, box.store.himodseqDn + 1⟩ : Expunge).key :=
      Tree.find_eq_none.mp fresh
    have entered := indexed.insertExpunge absent fun _ mod inMods => sound.fresh_modseq indexed inMods
    refine appended ((box.enterExpunge (box.newExpunge msg.key msg.uidDn .pushed)).expire msg.key) ?_
    unfold enterExpunge
    rw [newExpunge_of_ne nonzero, takeModseq_of_ne nonzero]
    exact entered.editMsg msg.key (fun msg => { msg with state := .expunged }) fun _ _ _ => ⟨rfl, rfl⟩
  | expireKnown msg record mem filled recordMem same =>
    exact indexed.editMsg msg.key (fun msg => { msg with state := .expunged }) fun _ _ _ => ⟨rfl, rfl⟩
  | drop msg old mem key modseq has free state =>
    have erased := indexed.eraseMsg mem
    rw [← key, ← modseq] at erased
    unfold removeAndDeleteMsg
    split
    · exact erased
    · exact erased
  | missing msg mem filled fresh noDns => exact absurd rfl allowed
  | openDn id examine full => exact indexed
  | forgetDn id => exact indexed
  | callDn id dn after call responses freed mem result => exact indexed
  | syncDn id resp => exact indexed

theorem indexed_setUidvlds (indexed : box.store.toTrees.Indexed) (uidvldUp uidvldDn : Nat) :
    (box.setUidvlds host uidvldUp uidvldDn).store.toTrees.Indexed := by
  unfold setUidvlds
  rw [(append_spec host _ _ _).trees]
  exact indexed

end Box

/-! ### The life of a mailbox -/

theorem plain_ne_missing : Box.ChangeKind.plain ≠ .missing := by decide

theorem working_ne_missing : Box.ChangeKind.working ≠ .missing := by decide

theorem finalize_ne_missing : Box.ChangeKind.finalize true ≠ .missing := by decide

/-- The index lasts as long as no file is found to be missing. -/
def Lasting.index (host : Host) : Lasting host where
  early _ box := box.store.toTrees.Indexed
  always box := box.store.toTrees.Indexed
  onDisk _ := True
  opening _ kind := kind ≠ .missing
  running kind := kind ≠ .missing
  wipes _ := True
  renews _ _ := True
  openingPlain _ := plain_ne_missing
  runningPlain := plain_ne_missing
  runningWorking := working_ne_missing
  runningFinalize := finalize_ne_missing
  opens allowed change sound indexed := change.indexed sound allowed indexed
  runs allowed change sound indexed := change.indexed sound allowed indexed
  earlyDisks _ _ _ _ := trivial
  alwaysDisks _ _ _ _ := trivial
  loaded {disk lite read} _ _ describes := by
    have trees : ((Box.initial disk lite).loaded read).store.toTrees = read.toTrees := read.finish_trees
    rw [trees]
    exact describes.trees.indexed
  opened _ indexed _ _ := indexed
  settled _ indexed := indexed
  noted _ _ _ indexed _ _ := Box.indexed_setUidvlds indexed _ _
  dropped _ _ _ _ dropped _ _ _ _ := by
    refine Box.indexed_setUidvlds ?_ _ _
    rw [dropped.store]
    exact Trees.Indexed.empty
  droppedDisks _ _ _ _ _ _ _ _ _ := trivial
  removed _ _ _ _ _ _ := trivial

namespace Maildir

/-- The condition on an event: reading the files finds those of all filled messages, and no message
is freed that an update refers to. -/
def FindsFiles : Maildir → MaildirEvent → Prop
  | .closed disk, .act (.init false) => disk.Complete
  | state, event => state.Offers event ∧ state.Spares event

instance (state : Maildir) (event : MaildirEvent) : Decidable (state.FindsFiles event) :=
  match state, event with
  | .closed disk, .act (.init false) => inferInstanceAs (Decidable disk.Complete)
  | .closed _, .act (.init true) | .closed _, .act (.operation _) | .closed _, .act (.close _)
  | .closed _, .crash _ _ | .opened _, .act _ | .opened _, .crash _ _ =>
    inferInstanceAs (Decidable (_ ∧ _))

theorem FindsFiles.spares {state : Maildir} {event : MaildirEvent} (finds : state.FindsFiles event) :
    state.Spares event := by
  unfold FindsFiles at finds
  split at finds
  · exact rfl
  · exact finds.2

end Maildir

end Splintermail
