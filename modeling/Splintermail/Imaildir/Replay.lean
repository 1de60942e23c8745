/-
This file is about a process that dies in the middle of a write to the log: whatever
bytes of the log are there when the mailbox is opened again, the complete lines are
read, and the rest is cut off.

What the reader makes of the lines is the last value of every message key and the last
of the numbers. An expunge that has neither a `uid_dn` nor a modseq is not kept: no
connection ever knew its message.
-/

import Splintermail.Imaildir.Lifetime

namespace Splintermail

open List Maildir

/-! ### Logs of runs -/

/-- The numbers of an entry fit the C types. -/
def LogEntry.Sized : LogEntry → Prop
  | .uidvlds up dn => up ≤ uintMax ∧ dn ≤ uintMax
  | .himodseqUp himodseq => himodseq ≤ uintmaxMax
  | .modseqDn modseq => modseq ≤ uintmaxMax
  | .value content => content.Fits

theorem SoundLog.issuedLog {cache : List LogEntry} (sound : SoundLog cache)
    (sized : ∀ entry ∈ cache, entry.Sized) : IssuedLog cache where
  fits entry mem := by
    have size := sized entry mem
    cases entry with
    | uidvlds up dn | himodseqUp himodseq | modseqDn modseq => exact size
    | value content =>
      cases content with
      | message msg => exact ⟨size, sound.plain msg (mem_cacheValues.mpr mem)⟩
      | expunge record => exact size
  valid := sound.validLog
  explicit := sound.explicit

variable {entries : List LogEntry}

/-- A part of a sound log up to some line is sound. -/
theorem SoundLog.of_isPrefix {cache : List LogEntry} (sound : SoundLog cache)
    (part : entries <+: cache) : SoundLog entries := by
  have subset := cacheValues_subset part.subset
  exact {
    valid := fun value mem => sound.valid value (subset mem)
    plain := fun msg mem => sound.plain msg (subset mem)
    owner := fun first firstMem second secondMem =>
      sound.owner first (subset firstMem) second (subset secondMem)
    rising := List.Pairwise.sublist (part.sublist.filterMap _) sound.rising
    explicit := List.Pairwise.sublist part.sublist sound.explicit }

/-! ### Cutting a log -/

theorem logText_cons (entry : LogEntry) (rest : List LogEntry) :
    logText (entry :: rest) = entry.line ++ logText rest :=
  flatMap_cons

/-- The bytes up to any point of a log are complete lines and an incomplete one. -/
theorem logText_cut {cache : List LogEntry} (fits : ∀ entry ∈ cache, entry.Fits) {file : Text}
    (cut : file <+: logText cache) :
    ∃ entries tail, entries <+: cache ∧ file = logText entries ++ tail ∧ Incomplete tail := by
  induction cache generalizing file with
  | nil =>
    refine ⟨[], [], prefix_rfl, ?_, not_mem_nil, by decide⟩
    exact prefix_nil.mp cut
  | cons entry rest ih =>
    rw [logText_cons] at cut
    have entryFits := fits entry mem_cons_self
    by_cases short : file.length < entry.line.length
    · -- the cut is within the first line
      have inLine : file <+: entry.line :=
        prefix_of_prefix_length_le cut (prefix_append _ _) (le_of_lt short)
      have inBody : file <+: entry.body := by
        rw [LogEntry.line_eq] at inLine short
        rw [length_append, length_singleton] at short
        exact prefix_of_prefix_length_le inLine (prefix_append _ _) (by omega)
      refine ⟨[], file, nil_prefix, rfl, fun mem => ?_, ?_⟩
      · exact entry.notMem_body entryFits rfl (by decide) (inBody.subset mem)
      · have bodyShort := entry.length_body entryFits
        have fileShort := inBody.length_le
        omega
    · have lineFirst : entry.line <+: file :=
        prefix_of_prefix_length_le (prefix_append _ _) cut (not_lt.mp short)
      obtain ⟨after, rfl⟩ := lineFirst
      obtain ⟨entries, tail, part, equal, incomplete⟩ :=
        ih (fun other mem => fits other (.tail _ mem)) ((prefix_append_right_inj _).mp cut)
      refine ⟨entry :: entries, tail, cons_prefix_cons.mpr ⟨rfl, part⟩, ?_, incomplete⟩
      rw [logText_cons, append_assoc, ← equal]

/-! ### Replaying a log -/

/-- The state that some complete lines describe: the last value of every message key, except for
expunges without numbers, the last of the numbers, and a counter that covers every modseq. -/
structure LogState.Replays (state : LogState) (entries : List LogEntry) : Prop where
  trees : state.toTrees.Hold entries
  uidvldUp : state.uidvldUp = (lastUidvlds entries).1
  uidvldDn : state.uidvldDn = (lastUidvlds entries).2
  himodseqUp : state.himodseqUp = lastHimodseqUp entries
  modseq : ∀ value, .value value ∈ entries → value.modseq ≤ state.himodseqDn
  explicit : ∀ modseq, .modseqDn modseq ∈ entries → modseq ≤ state.himodseqDn

theorem LogState.finish_numbers (state : LogState) : state.finish.uidvldUp = state.uidvldUp ∧
    state.finish.uidvldDn = state.uidvldDn ∧ state.finish.himodseqUp = state.himodseqUp := by
  unfold LogState.finish
  split
  · exact ⟨rfl, rfl, rfl⟩
  · exact ⟨rfl, rfl, rfl⟩

theorem LogState.Describes.replays {state : LogState} (describes : state.Describes entries)
    (sound : SoundLog entries) : state.finish.Replays entries := by
  obtain ⟨uidvldUp, uidvldDn, himodseqUp⟩ := state.finish_numbers
  have covered := (LogState.finish_himodseqDn describes.trees.indexed).1
  rw [describes.himodseqDn] at covered
  exact {
    trees := state.finish_trees ▸ describes.trees
    uidvldUp := uidvldUp.trans describes.uidvldUp
    uidvldDn := uidvldDn.trans describes.uidvldDn
    himodseqUp := himodseqUp.trans describes.himodseqUp
    modseq := fun value mem => describes.modseq_le sound (mem_cacheValues.mpr mem)
    explicit := fun modseq mem => le_trans (le_maxModseqDn mem) covered }

/-- Opening complete lines that are followed by an incomplete one. -/
theorem imaildirLogOpen_replays (sound : SoundLog entries)
    (sized : ∀ entry ∈ entries, entry.Sized) :
    ∃ state : LogState, state.Replays entries ∧ ∀ tail, Incomplete tail →
      imaildirLogOpen (logText entries ++ tail) = .ok (state, logText entries) := by
  obtain ⟨state, read, describes⟩ := readEntries_describes sound.validLog
  refine ⟨state.finish, describes.replays sound, fun tail incomplete => ?_⟩
  rw [imaildirLogOpen_logText (sound.issuedLog sized).fits incomplete, read]
  rfl

/-- After any run, and wherever its log is cut, the complete lines are replayed, and opening the
truncated log again gives the same result. -/
theorem imaildirLogOpen_cut (host : Host) (events : List MaildirEvent)
    (guarded : Run.Guarded (step host) Offers (.closed {}) events) (state : Maildir)
    (ran : Run.run (step host) (.closed {}) events = .ok state)
    (sized : ∀ entry ∈ state.disk.cache, entry.Sized) (file : Text)
    (cut : file <+: logText state.disk.cache) :
    ∃ entries tail read, entries <+: state.disk.cache ∧ file = logText entries ++ tail ∧ '\n' ∉ tail ∧
      imaildirLogOpen file = .ok (read, logText entries) ∧ read.Replays entries ∧
        imaildirLogOpen (logText entries) = .ok (read, logText entries) := by
  have sound : SoundLog state.disk.cache := ((run_sound guarded).of_ok ran).log
  obtain ⟨entries, tail, part, equal, incomplete⟩ := logText_cut (sound.issuedLog sized).fits cut
  obtain ⟨read, replays, opens⟩ := imaildirLogOpen_replays (sound.of_isPrefix part)
    fun entry mem => sized entry (part.subset mem)
  refine ⟨entries, tail, read, part, equal, incomplete.newline, ?_, replays, ?_⟩
  · rw [equal]
    exact opens tail incomplete
  · have again := opens [] ⟨not_mem_nil, by decide⟩
    rwa [append_nil] at again

/-- A system whose maps and directories are in the order of their lists. -/
def Host.plain : Host := ⟨.inOrder, .inOrder, []⟩

/-- A response with the flags of a message, and nothing else. -/
def flagsResp (uid : Nat) (flags : MsgFlags) : Box.FetchResp := ⟨uid, some flags, {}, none, 2⟩

/-- A message is seen, and vanishes before it is downloaded. -/
def vanishing : List MaildirEvent :=
  [.act (.init false), .act (.operation (.fetchResp (flagsResp 5 {}) 0)),
    .act (.operation (.vanished 5))]

/-- The mailbox after the message vanished. -/
def vanished : Maildir :=
  .opened {
    store := {
      expunged := [vanishedExpunge]
      lines := 2
      updates := 2 }
    disk := { cache := [.value (.message seenMessage), .value (.expunge vanishedExpunge)] } }

theorem run_vanishing : Run.run (step .plain) (.closed {}) vanishing = .ok vanished := by
  decide

theorem vanished_sized : ∀ entry ∈ vanished.disk.cache, entry.Sized := by
  intro entry mem
  simp only [vanished, disk, mem_cons, not_mem_nil, or_false] at mem
  rcases mem with rfl | rfl
  · exact ⟨by decide, by decide, by decide⟩
  · exact ⟨by decide, by decide, by decide⟩

/-- The log of the vanished message, cut after thirty characters. -/
theorem imaildirLogOpen_cut_vanishing :
    ∃ entries tail read, entries <+: vanished.disk.cache ∧
      (logText vanished.disk.cache).take 30 = logText entries ++ tail ∧ '\n' ∉ tail ∧
        imaildirLogOpen ((logText vanished.disk.cache).take 30) = .ok (read, logText entries) ∧
          read.Replays entries ∧ imaildirLogOpen (logText entries) = .ok (read, logText entries) :=
  imaildirLogOpen_cut .plain vanishing (by decide) vanished run_vanishing vanished_sized _
    (List.take_prefix _ _)

/-- The last value of the vanished message is an expunge that the reader does not keep. -/
theorem imaildirLogOpen_forgets :
    Run.run (step .plain) (.closed {}) vanishing = .ok vanished ∧
      lastValue vanished.disk.cache (.up 5) = some (.expunge vanishedExpunge) ∧
        ∃ read, imaildirLogOpen (logText vanished.disk.cache) =
            .ok (read, logText vanished.disk.cache) ∧ vanishedExpunge ∉ read.expunged := by
  refine ⟨run_vanishing, rfl, ?_⟩
  have guarded : Run.Guarded (step .plain) Offers (.closed {}) vanishing := by decide
  have sound : SoundLog vanished.disk.cache := ((run_sound guarded).of_ok run_vanishing).log
  obtain ⟨read, replays, opens⟩ := imaildirLogOpen_replays sound vanished_sized
  refine ⟨read, ?_, fun mem => ?_⟩
  · have whole := opens [] ⟨not_mem_nil, by decide⟩
    rwa [append_nil] at whole
  · exact ((replays.trees.mem_expunged vanishedExpunge).mp mem).2 ⟨rfl, rfl⟩

end Splintermail
