/-
This file models `fpr_watcher.c`, which decides when the user is told of a new device, with
its files, and the events of a `keydir_t` that it watches: keys from XKEYSYNC, the end
of a key sync, synced mailboxes, and the recipients of decrypted messages.

A fingerprint is alerted on at its first encounter at most, and then if and only if it
came from XKEYSYNC after a key sync or from a message of a mailbox that was synced
before. What is remembered survives a restart: both trees are written to a file with
each change, the fingerprints in hex and the mailbox names with escapes.

Two fingerprints of which one is the other with a NUL after it are the same to
`dstr_cmp2`, and an empty fingerprint is an empty line of its file, which is not read back.
-/

import Splintermail.Lib.ATree
import Splintermail.Lib.Run
import Splintermail.Dstr.Bytes

namespace Splintermail

open List

/-! ### The watcher -/

/-- The files of a `fpr_watcher_t`; one of them is only there or not. -/
structure FprFiles where
  fprsSeen : Option Bytes := none
  mailboxesSynced : Option Bytes := none
  xkeysyncCompleted : Bool := false
  deriving DecidableEq

/-- `fpr_watcher_t` -/
structure FprWatcher where
  fprs : ATree Bytes := .nil
  synced : ATree Bytes := .nil
  xkeysynced : Bool := false
  files : FprFiles := {}
  deriving DecidableEq

/-- What `save_synced` replaces, and by what: a backslash and a newline. -/
def escapes : List (Bytes × Bytes) := [([92], [92, 92]), ([10], [92, 110])]

/-- What `load_synced` replaces. -/
def unescapes : List (Bytes × Bytes) := [([92, 92], [92]), ([92, 110], [10])]

namespace FprWatcher

variable (watcher : FprWatcher)

/-- `save_fprs` -/
def saveFprs : FprWatcher :=
  { watcher with
    files := { watcher.files with
      fprsSeen := some ((watcher.fprs.toList.map bin2hex).flatMap fun line => line ++ [10]) } }

/-- `load_fprs` -/
def loadFprs : Option Bytes → Except Derr (ATree Bytes)
  | none => .ok .nil
  | some raw => do
    let fprs ← (nonemptyLines raw).mapM hex2bin
    return fprs.foldl (fun fprs fpr => fprs.insert dstrCmp2 fpr) .nil

/-- `save_synced` -/
def saveSynced : FprWatcher :=
  { watcher with
    files := { watcher.files with
      mailboxesSynced :=
        some ((watcher.synced.toList.map (dstrRecode escapes)).flatMap fun line => line ++ [10]) } }

/-- `load_synced` -/
def loadSynced : Option Bytes → ATree Bytes
  | none => .nil
  | some raw =>
    ((nonemptyLines raw).map (dstrRecode unescapes)).foldl
      (fun synced mailbox => synced.insert dstrCmp2 mailbox) .nil

/-- `fpr_watcher_should_alert_on_decrypt` -/
def shouldAlertOnDecrypt (fpr mailbox : Bytes) : Bool :=
  if (watcher.fprs.find dstrCmp2 fpr).isSome then false
  else (watcher.synced.find dstrCmp2 mailbox).isSome

/-- `fpr_watcher_should_alert_on_new_key` -/
def shouldAlertOnNewKey (fpr : Bytes) : Bool :=
  if (watcher.fprs.find dstrCmp2 fpr).isSome then false else watcher.xkeysynced

/-- `fpr_watcher_xkeysync_completed` -/
def xkeysyncCompleted : FprWatcher :=
  if watcher.xkeysynced then watcher
  else { watcher with xkeysynced := true, files := { watcher.files with xkeysyncCompleted := true } }

/-- `fpr_watcher_mailbox_synced` -/
def mailboxSynced (mailbox : Bytes) : FprWatcher :=
  if (watcher.synced.find dstrCmp2 mailbox).isSome then watcher
  else saveSynced { watcher with synced := watcher.synced.insert dstrCmp2 mailbox }

/-- `fpr_watcher_add_fpr` -/
def addFpr (fpr : Bytes) : FprWatcher :=
  if (watcher.fprs.find dstrCmp2 fpr).isSome then watcher
  else saveFprs { watcher with fprs := watcher.fprs.insert dstrCmp2 fpr }

/-- `fpr_watcher_init` -/
def init (files : FprFiles) : Except Derr FprWatcher := do
  let fprs ← loadFprs files.fprsSeen
  return { fprs, synced := loadSynced files.mailboxesSynced, xkeysynced := files.xkeysyncCompleted
           files }

end FprWatcher

/-! ### The key directory -/

/-- A `keydir_t`, as far as its watcher is concerned. The encounters are a record of the past: every
fingerprint that was met, and whether a message was injected for it. -/
structure Keydir where
  watcher : FprWatcher := {}
  encounters : List (Bytes × Bool) := []
  deriving DecidableEq

/-- What happens to a `keydir_t`. -/
inductive KeydirEvent where
  | addKey (fpr : Bytes)
  | deleteKey (fpr : Bytes)
  | keysyncCompleted
  | mailboxSynced (mailbox : Bytes)
  | decryptMsg (mailbox : Bytes) (recips : List Bytes)
  | restart
  deriving DecidableEq

namespace Keydir

variable (keydir : Keydir)

/-- A fingerprint is met: the message is injected before the fingerprint is remembered. -/
def meet (alert : Bool) (fpr : Bytes) : Keydir where
  watcher := keydir.watcher.addFpr fpr
  encounters := keydir.encounters ++ [(fpr, alert)]

/-- `kd_add_key` -/
def addKey (fpr : Bytes) : Keydir := keydir.meet (keydir.watcher.shouldAlertOnNewKey fpr) fpr

/-- One recipient of a message in `decrypt_msg`. -/
def recipient (mailbox : Bytes) (keydir : Keydir) (fpr : Bytes) : Keydir :=
  keydir.meet (keydir.watcher.shouldAlertOnDecrypt fpr mailbox) fpr

/-- The `keydir_t` after an event. `kd_delete_key` does not reach the watcher. -/
def step : KeydirEvent → Except Derr Keydir
  | .addKey fpr => .ok (keydir.addKey fpr)
  | .deleteKey _ => .ok keydir
  | .keysyncCompleted => .ok { keydir with watcher := keydir.watcher.xkeysyncCompleted }
  | .mailboxSynced mailbox => .ok { keydir with watcher := keydir.watcher.mailboxSynced mailbox }
  | .decryptMsg mailbox recips => .ok (recips.foldl (recipient mailbox) keydir)
  | .restart => do return { keydir with watcher := ← FprWatcher.init keydir.watcher.files }

end Keydir

/-! ### The alerts that are due -/

/-- What is known about the past: the mailboxes that were synced, whether a key sync was completed,
and the fingerprints that were met, each with whether an alert was due. -/
structure AlertRecord where
  synced : List Bytes := []
  keysynced : Bool := false
  encounters : List (Bytes × Bool) := []

namespace AlertRecord

variable (record : AlertRecord)

/-- The first encounter of a fingerprint is alerted on if it is suspicious, a later one never. -/
def meet (suspicious : Bool) (record : AlertRecord) (fpr : Bytes) : AlertRecord :=
  { record with
    encounters := record.encounters ++
      [(fpr, suspicious && decide (fpr ∉ record.encounters.map Prod.fst))] }

def step : KeydirEvent → AlertRecord
  | .addKey fpr => meet record.keysynced record fpr
  | .deleteKey _ => record
  | .keysyncCompleted => { record with keysynced := true }
  | .mailboxSynced mailbox => { record with synced := mailbox :: record.synced }
  | .decryptMsg mailbox recips => recips.foldl (meet (decide (mailbox ∈ record.synced))) record
  | .restart => record

end AlertRecord

/-! ### Strings that the comparison tells apart -/

/-- None of the strings is empty, and none is another one with a NUL after it. -/
def Apart (texts : List Bytes) : Prop :=
  ∀ text ∈ texts, text ≠ [] ∧ ∀ other ∈ texts, ¬(text ++ [0] <+: other)

instance Apart.decidable (texts : List Bytes) : Decidable (Apart texts) :=
  inferInstanceAs (Decidable (∀ text ∈ texts, text ≠ [] ∧ ∀ other ∈ texts, ¬(text ++ [0] <+: other)))

variable {texts : List Bytes}

theorem Apart.ranks (apart : Apart texts) : ATree.Ranks dstrCmp2 cmpRank {text | text ∈ texts} where
  equal := fun first firstMem second secondMem equal => by
    rw [dstrCmp2_of_ne_nil (apart first firstMem).1, cmpChars_eq_zero] at equal
    rcases equal with same | before | after
    · exact same
    · exact absurd before ((apart first firstMem).2 second secondMem)
    · exact absurd after ((apart second secondMem).2 first firstMem)
  same := fun text mem => by
    rw [dstrCmp2_of_ne_nil (apart text mem).1]
    exact cmpChars_self text
  below := fun first firstMem second _ differ => by
    rw [dstrCmp2_of_ne_nil (apart first firstMem).1] at differ ⊢
    exact cmpChars_lt_zero differ
  distinct := fun _ _ _ _ same => cmpRank_injective same

/-! ### The files -/

theorem recodeFrom_escape_cons (char : UInt8) (rest : Bytes) :
    recodeFrom escapes 0 (char :: rest) =
      (if char = 92 then [92, 92] else if char = 10 then [92, 110] else [char]) ++
        recodeFrom escapes 0 rest := by
  by_cases slash : char = 92
  · subst slash
    rfl
  · by_cases newline : char = 10
    · subst newline
      rfl
    · rw [if_neg slash, if_neg newline]
      simp [recodeFrom, escapes, find?, isPrefixOf, beq_eq_false_iff_ne.mpr (Ne.symm slash),
        beq_eq_false_iff_ne.mpr (Ne.symm newline)]

theorem recodeFrom_unescape_cons {char : UInt8} (plain : char ≠ 92) (rest : Bytes) :
    recodeFrom unescapes 0 (char :: rest) = char :: recodeFrom unescapes 0 rest := by
  simp [recodeFrom, unescapes, find?, isPrefixOf, beq_eq_false_iff_ne.mpr (Ne.symm plain)]

theorem dstrRecode_unescapes_escapes (mailbox : Bytes) :
    dstrRecode unescapes (dstrRecode escapes mailbox) = mailbox := by
  unfold dstrRecode
  induction mailbox with
  | nil => rfl
  | cons char rest ih =>
    rw [recodeFrom_escape_cons]
    by_cases slash : char = 92
    · subst slash
      rw [if_pos rfl]
      show (92 : UInt8) :: recodeFrom unescapes 0 (recodeFrom escapes 0 rest) = _
      rw [ih]
    · rw [if_neg slash]
      by_cases newline : char = 10
      · subst newline
        rw [if_pos rfl]
        show (10 : UInt8) :: recodeFrom unescapes 0 (recodeFrom escapes 0 rest) = _
        rw [ih]
      · rw [if_neg newline, singleton_append, recodeFrom_unescape_cons slash, ih]

theorem newline_notMem_escaped (mailbox : Bytes) : 10 ∉ dstrRecode escapes mailbox := by
  unfold dstrRecode
  induction mailbox with
  | nil => exact not_mem_nil
  | cons char rest ih =>
    rw [recodeFrom_escape_cons, mem_append, not_or]
    refine ⟨?_, ih⟩
    split
    · decide
    · split
      · decide
      · rename_i newline
        exact fun mem => newline (mem_singleton.mp mem).symm

theorem escaped_ne_nil {mailbox : Bytes} (nonempty : mailbox ≠ []) :
    dstrRecode escapes mailbox ≠ [] := by
  intro empty
  have recovered := dstrRecode_unescapes_escapes mailbox
  rw [empty] at recovered
  exact nonempty recovered.symm

/-- The file holds the strings of the tree, each on a line of its own, in an encoding. -/
def Stored (encode : Bytes → Bytes) (tree : ATree Bytes) : Option Bytes → Prop
  | none => tree.toList = []
  | some raw => raw = (tree.toList.map encode).flatMap fun line => line ++ [10]

theorem nonemptyLines_stored {encode : Bytes → Bytes} (nonempty : ∀ text ∈ texts, encode text ≠ [])
    (single : ∀ text, 10 ∉ encode text) :
    nonemptyLines ((texts.map encode).flatMap fun line => line ++ [10]) = texts.map encode := by
  refine nonemptyLines_flatMap (fun line mem => ?_) fun line mem => ?_
  · obtain ⟨text, textMem, rfl⟩ := mem_map.mp mem
    exact nonempty text textMem
  · obtain ⟨text, -, rfl⟩ := mem_map.mp mem
    exact single text

theorem mapM_hex2bin (fprs : List Bytes) : (fprs.map bin2hex).mapM hex2bin = .ok fprs := by
  induction fprs with
  | nil => rfl
  | cons fpr rest ih =>
    rw [map_cons, mapM_cons, hex2bin_bin2hex, ih]
    rfl

/-- A tree of strings that are told apart. -/
abbrev Holds (texts : List Bytes) (tree : ATree Bytes) : Prop :=
  ATree.Ordered cmpRank {text | text ∈ texts} tree

/-- A tree that is filled with the strings of another one has the same strings. -/
theorem Apart.refill (apart : Apart texts) {tree : ATree Bytes} (holds : Holds texts tree) :
    Holds texts (tree.toList.foldl (fun tree text => tree.insert dstrCmp2 text) .nil) ∧
      ∀ text, text ∈ (tree.toList.foldl (fun tree text => tree.insert dstrCmp2 text)
        ATree.nil).toList ↔ text ∈ tree.toList := by
  obtain ⟨final, same⟩ := ATree.Ordered.nil.insertAll apart.ranks holds.known holds.nodup
    fun _ _ => not_mem_nil
  refine ⟨final, fun text => ?_⟩
  rw [same]
  exact or_iff_left not_mem_nil

/-- An insertion of a string unless it is found: the tree then has it. -/
theorem Apart.add (apart : Apart texts) {tree : ATree Bytes} (holds : Holds texts tree)
    {text : Bytes} (known : text ∈ texts) (absent : ¬(tree.find dstrCmp2 text).isSome) :
    Holds texts (tree.insert dstrCmp2 text) ∧
      ∀ other, other ∈ (tree.insert dstrCmp2 text).toList ↔ other = text ∨ other ∈ tree.toList :=
  ⟨holds.insert apart.ranks known fun mem =>
      absent ((holds.find_isSome apart.ranks known).mpr mem),
    fun _ => ATree.mem_insert⟩

/-! ### Alerts -/

namespace Keydir

/-- The `keydir_t` knows what is recorded of the past, among some fingerprints and mailboxes, and so
do its files. -/
structure Knows (fprs mailboxes : List Bytes) (record : AlertRecord) (keydir : Keydir) : Prop where
  encounters : keydir.encounters = record.encounters
  xkeysynced : keydir.watcher.xkeysynced = record.keysynced
  completed : keydir.watcher.files.xkeysyncCompleted = record.keysynced
  fprsHeld : Holds fprs keydir.watcher.fprs
  fprsSeen : ∀ fpr, fpr ∈ keydir.watcher.fprs.toList ↔ fpr ∈ record.encounters.map Prod.fst
  fprsStored : Stored bin2hex keydir.watcher.fprs keydir.watcher.files.fprsSeen
  syncedHeld : Holds mailboxes keydir.watcher.synced
  syncedSeen : ∀ mailbox, mailbox ∈ keydir.watcher.synced.toList ↔ mailbox ∈ record.synced
  syncedStored :
    Stored (dstrRecode escapes) keydir.watcher.synced keydir.watcher.files.mailboxesSynced

variable {fprs mailboxes : List Bytes} {record : AlertRecord} {keydir : Keydir}

theorem knows_initial : Knows fprs mailboxes {} {} where
  encounters := rfl
  xkeysynced := rfl
  completed := rfl
  fprsHeld := ATree.Ordered.nil
  fprsSeen := fun _ => Iff.rfl
  fprsStored := rfl
  syncedHeld := ATree.Ordered.nil
  syncedSeen := fun _ => Iff.rfl
  syncedStored := rfl

section

variable (knows : Knows fprs mailboxes record keydir)

include knows

theorem Knows.seen (apart : Apart fprs) {fpr : Bytes} (known : fpr ∈ fprs) :
    (keydir.watcher.fprs.find dstrCmp2 fpr).isSome =
      decide (fpr ∈ record.encounters.map Prod.fst) := by
  rw [Bool.eq_iff_iff, knows.fprsHeld.find_isSome apart.ranks known, knows.fprsSeen fpr,
    decide_eq_true_iff]

variable {mailbox : Bytes}

theorem Knows.mailboxSeen (apart : Apart mailboxes) (known : mailbox ∈ mailboxes) :
    (keydir.watcher.synced.find dstrCmp2 mailbox).isSome = decide (mailbox ∈ record.synced) := by
  rw [Bool.eq_iff_iff, knows.syncedHeld.find_isSome apart.ranks known, knows.syncedSeen mailbox,
    decide_eq_true_iff]

/-- An encounter is recorded, whatever made it suspicious. -/
theorem Knows.meet (apart : Apart fprs) {fpr : Bytes} (known : fpr ∈ fprs) (suspicious : Bool) :
    Knows fprs mailboxes (AlertRecord.meet suspicious record fpr)
      (keydir.meet (if (keydir.watcher.fprs.find dstrCmp2 fpr).isSome then false else suspicious)
        fpr) := by
  have seen := knows.seen apart known
  have alert : (if (keydir.watcher.fprs.find dstrCmp2 fpr).isSome then false else suspicious) =
      (suspicious && decide (fpr ∉ record.encounters.map Prod.fst)) := by
    rw [seen]
    by_cases mem : fpr ∈ record.encounters.map Prod.fst
    · rw [decide_eq_true mem, decide_eq_false (not_not.mpr mem), if_pos rfl, Bool.and_false]
    · rw [decide_eq_false mem, decide_eq_true mem, if_neg Bool.false_ne_true, Bool.and_true]
  have both : (record.encounters ++
        [(fpr, suspicious && decide (fpr ∉ record.encounters.map Prod.fst))]).map Prod.fst =
      record.encounters.map Prod.fst ++ [fpr] := map_append
  rw [alert]
  by_cases found : (keydir.watcher.fprs.find dstrCmp2 fpr).isSome
  · have same : keydir.watcher.addFpr fpr = keydir.watcher := if_pos found
    have mem : fpr ∈ record.encounters.map Prod.fst := of_decide_eq_true (seen.symm.trans found)
    unfold Keydir.meet
    rw [same]
    refine { knows with
      encounters := congrArg (· ++ [_]) knows.encounters
      fprsSeen := fun other => ?_ }
    rw [knows.fprsSeen other]
    show _ ↔ other ∈ map Prod.fst (record.encounters ++ _)
    rw [both, mem_append, mem_singleton]
    exact ⟨Or.inl, fun either => either.elim id fun same => same ▸ mem⟩
  · have added : keydir.watcher.addFpr fpr = FprWatcher.saveFprs { keydir.watcher with
          fprs := keydir.watcher.fprs.insert dstrCmp2 fpr } := if_neg found
    obtain ⟨held, members⟩ := apart.add knows.fprsHeld known found
    unfold Keydir.meet
    rw [added]
    refine { knows with
      encounters := congrArg (· ++ [_]) knows.encounters
      fprsHeld := held
      fprsSeen := fun other => ?_
      fprsStored := rfl }
    show other ∈ (keydir.watcher.fprs.insert dstrCmp2 fpr).toList ↔
      other ∈ map Prod.fst (record.encounters ++ _)
    rw [members, both, mem_append, mem_singleton, knows.fprsSeen other]
    exact or_comm

/-- The recipients of a message. -/
theorem Knows.decryptMsg (apart : Apart fprs) (mailboxesApart : Apart mailboxes)
    (known : mailbox ∈ mailboxes) {recips : List Bytes} (recipsKnown : ∀ fpr ∈ recips, fpr ∈ fprs) :
    Knows fprs mailboxes (recips.foldl (AlertRecord.meet (decide (mailbox ∈ record.synced))) record)
      (recips.foldl (recipient mailbox) keydir) := by
  -- Meeting a fingerprint does not change which mailboxes were synced.
  have general : ∀ (synced : Bool) (record : AlertRecord) (keydir : Keydir),
      Knows fprs mailboxes record keydir → decide (mailbox ∈ record.synced) = synced →
      Knows fprs mailboxes (recips.foldl (AlertRecord.meet synced) record)
        (recips.foldl (recipient mailbox) keydir) := by
    intro synced
    induction recips with
    | nil => exact fun _ _ knows _ => knows
    | cons fpr rest ih =>
      intro record keydir knows same
      have met := knows.meet apart (recipsKnown fpr mem_cons_self) synced
      rw [← same, ← knows.mailboxSeen mailboxesApart known] at met
      refine ih (fun other mem => recipsKnown other (.tail _ mem)) _ _ ?_ same
      rw [← same, ← knows.mailboxSeen mailboxesApart known]
      exact met
  exact general _ record keydir knows rfl

theorem Knows.mailboxSynced (apart : Apart mailboxes) (known : mailbox ∈ mailboxes) :
    Knows fprs mailboxes { record with synced := mailbox :: record.synced }
      { keydir with watcher := keydir.watcher.mailboxSynced mailbox } := by
  have seen := knows.mailboxSeen apart known
  by_cases found : (keydir.watcher.synced.find dstrCmp2 mailbox).isSome
  · have same : keydir.watcher.mailboxSynced mailbox = keydir.watcher := if_pos found
    have mem : mailbox ∈ record.synced := of_decide_eq_true (seen.symm.trans found)
    rw [same]
    refine { knows with syncedSeen := fun other => ?_ }
    rw [knows.syncedSeen other, mem_cons]
    exact ⟨Or.inr, fun either => either.elim (fun same => same ▸ mem) id⟩
  · have added : keydir.watcher.mailboxSynced mailbox = FprWatcher.saveSynced { keydir.watcher with
          synced := keydir.watcher.synced.insert dstrCmp2 mailbox } := if_neg found
    obtain ⟨held, members⟩ := apart.add knows.syncedHeld known found
    rw [added]
    refine { knows with
      syncedHeld := held
      syncedSeen := fun other => ?_
      syncedStored := rfl }
    show other ∈ (keydir.watcher.synced.insert dstrCmp2 mailbox).toList ↔ _
    rw [members, mem_cons, knows.syncedSeen other]

theorem Knows.xkeysyncCompleted :
    Knows fprs mailboxes { record with keysynced := true }
      { keydir with watcher := keydir.watcher.xkeysyncCompleted } := by
  unfold FprWatcher.xkeysyncCompleted
  by_cases done : keydir.watcher.xkeysynced = true
  · rw [if_pos done]
    exact { knows with
      xkeysynced := done
      completed := (knows.completed.trans knows.xkeysynced.symm).trans done }
  · rw [if_neg done]
    exact { knows with xkeysynced := rfl, completed := rfl }

/-! ### Restarts -/

theorem Knows.loadFprs (apart : Apart fprs) :
    ∃ tree, FprWatcher.loadFprs keydir.watcher.files.fprsSeen = .ok tree ∧ Holds fprs tree ∧
      (∀ fpr, fpr ∈ tree.toList ↔ fpr ∈ keydir.watcher.fprs.toList) := by
  have stored := knows.fprsStored
  cases file : keydir.watcher.files.fprsSeen with
  | none =>
    rw [file] at stored
    refine ⟨.nil, rfl, ATree.Ordered.nil, fun fpr => ?_⟩
    rw [show keydir.watcher.fprs.toList = [] from stored]
    rfl
  | some raw =>
    rw [file] at stored
    obtain ⟨held, members⟩ := apart.refill knows.fprsHeld
    refine ⟨_, ?_, held, members⟩
    have lines : nonemptyLines raw = keydir.watcher.fprs.toList.map bin2hex := by
      rw [show raw = _ from stored]
      exact nonemptyLines_stored (fun fpr mem => bin2hex_ne_nil
        (apart fpr (knows.fprsHeld.known fpr mem)).1) newline_notMem_bin2hex
    show ((nonemptyLines raw).mapM hex2bin >>= fun fprs => pure _) = _
    rw [lines, mapM_hex2bin]
    rfl

theorem Knows.loadSynced (apart : Apart mailboxes) :
    Holds mailboxes (FprWatcher.loadSynced keydir.watcher.files.mailboxesSynced) ∧
      ∀ mailbox, mailbox ∈ (FprWatcher.loadSynced
        keydir.watcher.files.mailboxesSynced).toList ↔ mailbox ∈ keydir.watcher.synced.toList := by
  have stored := knows.syncedStored
  cases file : keydir.watcher.files.mailboxesSynced with
  | none =>
    rw [file] at stored
    refine ⟨ATree.Ordered.nil, fun mailbox => ?_⟩
    rw [show keydir.watcher.synced.toList = [] from stored]
    rfl
  | some raw =>
    rw [file] at stored
    have lines : nonemptyLines raw = keydir.watcher.synced.toList.map (dstrRecode escapes) := by
      rw [show raw = _ from stored]
      exact nonemptyLines_stored (fun mailbox mem => escaped_ne_nil
        (apart mailbox (knows.syncedHeld.known mailbox mem)).1) newline_notMem_escaped
    have names : (nonemptyLines raw).map (dstrRecode unescapes) = keydir.watcher.synced.toList := by
      rw [lines, map_map]
      conv_rhs => rw [← map_id keydir.watcher.synced.toList]
      exact map_congr_left fun mailbox _ => dstrRecode_unescapes_escapes mailbox
    unfold FprWatcher.loadSynced
    simp only
    rw [names]
    exact apart.refill knows.syncedHeld

theorem Knows.restart (apart : Apart fprs) (mailboxesApart : Apart mailboxes) :
    ∃ watcher, FprWatcher.init keydir.watcher.files = .ok watcher ∧
      Knows fprs mailboxes record { keydir with watcher } := by
  obtain ⟨tree, loaded, held, members⟩ := knows.loadFprs apart
  obtain ⟨syncedHeld, syncedMembers⟩ := knows.loadSynced mailboxesApart
  have fprsOrder := held.toList_eq knows.fprsHeld members
  have syncedOrder := syncedHeld.toList_eq knows.syncedHeld syncedMembers
  refine ⟨⟨tree, FprWatcher.loadSynced keydir.watcher.files.mailboxesSynced,
    keydir.watcher.files.xkeysyncCompleted, keydir.watcher.files⟩, ?_, ?_⟩
  · unfold FprWatcher.init
    rw [loaded]
    rfl
  · have fprsStored := knows.fprsStored
    have syncedStored := knows.syncedStored
    unfold Stored at fprsStored syncedStored
    exact
      { encounters := knows.encounters
        xkeysynced := knows.completed
        completed := knows.completed
        fprsHeld := held
        fprsSeen := fun fpr => (members fpr).trans (knows.fprsSeen fpr)
        fprsStored := by
          unfold Stored
          rw [fprsOrder]
          exact fprsStored
        syncedHeld := syncedHeld
        syncedSeen := fun mailbox => (syncedMembers mailbox).trans (knows.syncedSeen mailbox)
        syncedStored := by
          unfold Stored
          rw [syncedOrder]
          exact syncedStored }

end

/-! ### Runs -/

end Keydir

/-- The fingerprints that are met in an event. -/
def KeydirEvent.fprs : KeydirEvent → List Bytes
  | .addKey fpr => [fpr]
  | .decryptMsg _ recips => recips
  | _ => []

/-- The mailboxes of an event. -/
def KeydirEvent.mailboxes : KeydirEvent → List Bytes
  | .mailboxSynced mailbox => [mailbox]
  | .decryptMsg mailbox _ => [mailbox]
  | _ => []

/-- The comparison tells the fingerprints of a run apart, and the mailboxes. -/
def Distinct (events : List KeydirEvent) : Prop :=
  Apart (events.flatMap KeydirEvent.fprs) ∧ Apart (events.flatMap KeydirEvent.mailboxes)

instance Distinct.decidable (events : List KeydirEvent) : Decidable (Distinct events) :=
  inferInstanceAs (Decidable (_ ∧ _))

namespace Keydir

variable {fprs mailboxes : List Bytes} {record : AlertRecord} {keydir : Keydir}

theorem Knows.step (knows : Knows fprs mailboxes record keydir) (apart : Apart fprs)
    (mailboxesApart : Apart mailboxes) {event : KeydirEvent}
    (fprsKnown : ∀ fpr ∈ event.fprs, fpr ∈ fprs)
    (mailboxesKnown : ∀ mailbox ∈ event.mailboxes, mailbox ∈ mailboxes) :
    ∃ next, keydir.step event = .ok next ∧ Knows fprs mailboxes (record.step event) next := by
  cases event with
  | addKey fpr =>
    refine ⟨_, rfl, ?_⟩
    have met := knows.meet apart (fprsKnown fpr mem_cons_self) keydir.watcher.xkeysynced
    rw [knows.xkeysynced] at met
    unfold Keydir.addKey FprWatcher.shouldAlertOnNewKey
    rw [knows.xkeysynced]
    exact met
  | deleteKey fpr => exact ⟨_, rfl, knows⟩
  | keysyncCompleted => exact ⟨_, rfl, knows.xkeysyncCompleted⟩
  | mailboxSynced mailbox =>
    exact ⟨_, rfl, knows.mailboxSynced mailboxesApart (mailboxesKnown mailbox mem_cons_self)⟩
  | decryptMsg mailbox recips =>
    exact ⟨_, rfl, knows.decryptMsg apart mailboxesApart (mailboxesKnown mailbox mem_cons_self)
      fprsKnown⟩
  | restart =>
    obtain ⟨watcher, loaded, after⟩ := knows.restart apart mailboxesApart
    refine ⟨{ keydir with watcher }, ?_, after⟩
    show (FprWatcher.init keydir.watcher.files >>= fun watcher =>
      pure { keydir with watcher }) = _
    rw [loaded]
    rfl

theorem Knows.run (apart : Apart fprs) (mailboxesApart : Apart mailboxes)
    {events : List KeydirEvent} {record : AlertRecord} {keydir : Keydir}
    (knows : Knows fprs mailboxes record keydir)
    (fprsKnown : ∀ event ∈ events, ∀ fpr ∈ event.fprs, fpr ∈ fprs)
    (mailboxesKnown : ∀ event ∈ events, ∀ mailbox ∈ event.mailboxes, mailbox ∈ mailboxes) :
    ∃ final, Run.run Keydir.step keydir events = .ok final ∧
      Knows fprs mailboxes (events.foldl AlertRecord.step record) final := by
  induction events generalizing record keydir with
  | nil => exact ⟨keydir, rfl, knows⟩
  | cons event rest ih =>
    obtain ⟨next, stepped, after⟩ := knows.step apart mailboxesApart
      (fprsKnown event mem_cons_self) (mailboxesKnown event mem_cons_self)
    obtain ⟨final, ran, known⟩ := ih after (fun other mem => fprsKnown other (.tail _ mem))
      fun other mem => mailboxesKnown other (.tail _ mem)
    refine ⟨final, ?_, known⟩
    rw [Run.run_cons, stepped]
    exact ran

/-- The alerts of a run are those that are due: a suspicious first encounter is alerted on, and nothing
else is. -/
theorem alerts_exact (events : List KeydirEvent) (distinct : Distinct events) :
    ∃ final, Run.run Keydir.step {} events = .ok final ∧
      final.encounters = (events.foldl AlertRecord.step {}).encounters := by
  obtain ⟨final, ran, knows⟩ := Knows.run distinct.1 distinct.2 knows_initial
    (fun event mem _ fprMem => mem_flatMap.mpr ⟨event, mem, fprMem⟩)
    fun event mem _ mailboxMem => mem_flatMap.mpr ⟨event, mem, mailboxMem⟩
  exact ⟨final, ran, knows.encounters⟩

/-- A message in a mailbox with an odd name that was synced before a restart, whose recipients are met
twice. -/
def watched : List KeydirEvent :=
  [.mailboxSynced [92, 10], .restart, .decryptMsg [92, 10] [[1, 0], [2, 255]], .restart,
    .addKey [1, 0]]

theorem alerts_exact_watched :
    ∃ final, Run.run Keydir.step {} watched = .ok final ∧
      final.encounters = [([1, 0], true), ([2, 255], true), ([1, 0], false)] :=
  alerts_exact watched (by decide)

/-- A fingerprint that is another one with a NUL after it is not alerted on. -/
theorem nul_not_alerted :
    ¬∀ events : List KeydirEvent, (∀ mailbox ∈ events.flatMap KeydirEvent.mailboxes, mailbox ≠ []) →
      ∃ final, Run.run Keydir.step {} events = .ok final ∧
        final.encounters = (events.foldl AlertRecord.step {}).encounters := by
  intro claimed
  obtain ⟨final, ran, same⟩ := claimed
    [.mailboxSynced [73], .decryptMsg [73] [[65], [65, 0]]] (by decide)
  have result : Run.run Keydir.step {} [.mailboxSynced [73], .decryptMsg [73] [[65], [65, 0]]] =
      .ok final := ran
  have actual : final.encounters = [([65], true), ([65, 0], false)] := by
    have computed : Run.run Keydir.step {} [.mailboxSynced [73], .decryptMsg [73] [[65], [65, 0]]] =
        .ok ((((({} : Keydir).watcher.mailboxSynced [73]) |> fun watcher =>
          recipient [73] (recipient [73] { watcher } [65]) [65, 0]))) := rfl
    rw [← Except.ok.inj (computed.symm.trans result)]
    decide
  rw [actual] at same
  revert same
  decide

end Keydir

end Splintermail
