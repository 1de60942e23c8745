/-
This file is about expunges over the life of a mailbox: once a VANISHED was processed
for a uid, its message is not downloaded again and not announced to any connection.

This relies on the callers. A message is not entered again, neither by the server nor
as a local file, and a log that is opened still has the expunge if the message was
seen before; a compaction may have lost it.
-/

import Splintermail.Imaildir.Finality
import Splintermail.Imaildir.UidUpkeep

namespace Splintermail

open List

/-! ### The life of a mailbox -/

/-- A message that was not downloaded. -/
def LogValue.isUnnumbered : LogValue → Bool
  | .message msg => msg.uidDn = 0
  | .expunge _ => false

theorem plain_ne_twice : Box.ChangeKind.plain ≠ .twice := by decide

theorem working_ne_twice : Box.ChangeKind.working ≠ .twice := by decide

theorem finalize_ne_twice : Box.ChangeKind.finalize true ≠ .twice := by decide

/-- The log tells of a downloaded message only if it is there, as long as no message is expunged that
has an expunge already. -/
def Lasting.following (host : Host) : Lasting host where
  early _ box := box.Follows
  always box := box.Follows
  onDisk _ := True
  opening _ kind := kind ≠ .twice
  running kind := kind ≠ .twice
  wipes _ := True
  renews _ _ := True
  openingPlain _ := plain_ne_twice
  runningPlain := plain_ne_twice
  runningWorking := working_ne_twice
  runningFinalize := finalize_ne_twice
  opens once change sound follows := change.follows sound once follows
  runs once change sound follows := change.follows sound once follows
  earlyDisks _ _ _ _ := trivial
  alwaysDisks _ _ _ _ := trivial
  loaded {disk lite read} log _ describes := by
    intro key
    by_cases filled : ((Box.initial disk lite).loaded read).Filled key
    · exact .inl filled
    refine .inr fun msg last => ?_
    by_contra numbered
    have same : (LogValue.message msg).key = key := (lastValue_mem last).2
    subst same
    have inLog : .message msg ∈ cacheValues disk.cache := by
      have inInitial := mem_cacheValues.mpr (lastValue_mem last).1
      have cache : ((Box.initial disk lite).loaded read).disk.cache ⊆ disk.cache := by
        show (Box.initial disk lite).disk.cache ⊆ _
        rw [(Box.initial_spec disk lite).disk]
        split
        · exact nil_subset _
        · exact List.Subset.refl _
      exact cacheValues_subset cache inInitial
    have valid : (LogValue.message msg).Valid := log.valid _ inLog
    refine filled ⟨msg, ?_, rfl, valid.2.mp numbered⟩
    have trees : ((Box.initial disk lite).loaded read).store.toTrees = read.toTrees := read.finish_trees
    rw [trees]
    exact (describes.trees.mem_msgs msg).mpr last
  opened _ follows _ _ := follows
  settled _ follows := follows
  noted _ _ sound follows _ _ := follows.setUidvlds _ _ (sound.log_uidvlds _ _)
  dropped {box next} uidvldUp uidvldDn _ _ dropped _ _ _ _ := by
    have cache : next.disk.cache = [] := by rw [dropped.disk]
    have follows : next.Follows := fun key => .inr (by
      rw [cache]
      exact Lapsed.nil key)
    refine follows.setUidvlds uidvldUp uidvldDn ?_
    rw [cache]
    exact Box.soundLog_uidvlds uidvldUp uidvldDn
  droppedDisks _ _ _ _ _ _ _ _ _ := trivial
  removed _ _ _ _ _ _ := trivial

namespace Maildir

variable {host : Host} {state : Maildir} {key : MsgKey}

/-- The message with a key is gone for good. -/
def Gone (key : MsgKey) : Maildir → Prop
  | .closed disk => Lapsed disk.cache key
  | .opened box => box.Gone key

/-- The message with a key is not entered by an action: an operation enters none, and the log that
is opened has none that was not downloaded. -/
def Absent (key : MsgKey) : Maildir → Action → Prop
  | .closed disk, .init lite =>
    (lastValue (Box.initial disk lite).disk.cache key).any LogValue.isUnnumbered = false
  | .opened box, .operation operation => box.meets operation ≠ some key
  | _, _ => True

instance (key : MsgKey) (state : Maildir) (action : Action) : Decidable (state.Absent key action) :=
  match state, action with
  | .closed _, .init _ => inferInstanceAs (Decidable (_ = false))
  | .opened _, .operation _ => inferInstanceAs (Decidable (_ ≠ _))
  | .closed _, .operation _ | .closed _, .close _ | .opened _, .init _ | .opened _, .close _ =>
    isTrue trivial

/-- The message that an action expunges has no expunge yet. -/
def Once : Maildir → Action → Prop
  | .opened box, .operation operation => operation.expires.any box.isTwice = false
  | _, _ => True

instance (state : Maildir) (action : Action) : Decidable (state.Once action) :=
  match state, action with
  | .opened _, .operation _ => inferInstanceAs (Decidable (_ = false))
  | .closed _, _ | .opened _, .init _ | .opened _, .close _ => isTrue trivial

/-- An `UPDATE_NEW` for the key was passed to a connection. -/
def delivers (key : MsgKey) : Maildir → Maildir → Bool
  | .opened box, .opened next => next.dns.any fun dn => dn.news key ≠ 0 &&
    box.dns.all fun old => old.id ≠ dn.id || old.news key < dn.news key
  | _, _ => false

theorem delivers_eq_false {box next : Box} (noNews : Box.NoNews key box next) :
    (Maildir.opened box).delivers key (.opened next) = false := by
  refine Bool.eq_false_iff.mpr fun delivered => ?_
  obtain ⟨dn, mem, new⟩ := any_eq_true.mp delivered
  obtain ⟨some, more⟩ := (Bool.and_eq_true _ _).mp new
  rcases noNews dn mem with none | ⟨old, oldMem, same, le⟩
  · exact of_decide_eq_true some none
  · have oldMore := all_eq_true.mp more old oldMem
    simp only [same, ne_eq, not_true_eq_false, decide_false, Bool.false_or, decide_eq_true_eq] at oldMore
    exact absurd oldMore (not_lt.mpr le)

/-- A mailbox is opened without the message. -/
theorem gone_loaded {disk : Disk} {lite : Bool} {read : LogState} (gone : Lapsed disk.cache key)
    (describes : read.Describes (Box.initial disk lite).disk.cache)
    (absent : (Maildir.closed disk).Absent key (.init lite)) :
    Box.Gone key ((Box.initial disk lite).loaded read) := by
  have initial := Box.initial_spec disk lite
  have here : Lapsed (Box.initial disk lite).disk.cache key := by
    rw [initial.disk]
    split
    · exact Lapsed.nil key
    · exact gone
  constructor
  · intro msg mem same
    have trees : ((Box.initial disk lite).loaded read).store.toTrees = read.toTrees := read.finish_trees
    rw [trees] at mem
    have last := (describes.trees.mem_msgs msg).mp mem
    rw [same] at last
    have numbered : (lastValue (Box.initial disk lite).disk.cache key).any LogValue.isUnnumbered = false :=
      absent
    rw [last, Option.any_some] at numbered
    exact absurd (here msg last) (of_decide_eq_false numbered)
  · intro written mem
    rcases mem_cons.mp mem with now | inTrail
    · rw [now]
      exact here
    · rw [(initial.trail written inTrail).1]
      exact Lapsed.nil key

/-- A message that is gone stays gone: no action brings it back or announces it, and no disk that an
action writes tells of it. -/
theorem act_gone (sound : state.Sound) (follows : state.Holds (Lasting.following host)) {action : Action}
    (offers : state.OffersAction action) (once : state.Once action) (absent : state.Absent key action)
    (gone : state.Gone key) :
    (∀ disk ∈ (state.act host action).2, Lapsed disk.cache key) ∧ (state.act host action).1.Gone key ∧
      state.delivers key (state.act host action).1 = false := by
  have nothing : ∀ disk ∈ ([] : List Disk), Lapsed disk.cache key :=
    fun disk mem => absurd mem not_mem_nil
  have plain : Box.Gentle key .plain := ⟨nofun, nofun⟩
  have working : Box.Gentle key .working := ⟨nofun, nofun⟩
  have finalize : ∀ filed, Box.Gentle key (.finalize filed) := fun _ => ⟨nofun, nofun⟩
  have missing : Box.Gentle key .missing := ⟨nofun, nofun⟩
  cases state with
  | closed disk =>
    cases action with
    | operation operation | close rmOnClose => exact ⟨nothing, gone, rfl⟩
    | init lite =>
      obtain ⟨read, describes, loadedSound, opened⟩ := Box.init_leaves host plain sound lite
        (.inr (.inl finalize)) (.inr (.inl missing))
      have loadedFollows := (Lasting.following host).loaded sound trivial describes
      have loaded := (gone_loaded gone describes absent).begins loadedFollows
      unfold Maildir.act
      dsimp only
      cases outcome : Box.init host disk lite with
      | ok box =>
        obtain ⟨populated, evolves, noDns, filed, rfl⟩ := opened.of_ok outcome
        have stays := evolves.staysGone loadedSound loaded
        have detected : populated.detectHi.Gone key := ⟨stays.gone.expunged, stays.gone.disks⟩
        exact ⟨fun written mem => detected.disks written (.tail _ mem), detected.settled, rfl⟩
      | error failure =>
        have stays := (opened.of_error outcome).staysGone loadedSound loaded
        exact ⟨fun written mem => stays.gone.disks written (.tail _ mem),
          stays.gone.disks _ mem_cons_self, rfl⟩
  | opened box =>
    cases action with
    | init lite => exact ⟨nothing, gone, delivers_eq_false (Box.NoNews.refl key box)⟩
    | close rmOnClose =>
      obtain ⟨last, next, evolves, removed, result⟩ := Maildir.act_close host working sound.1 rmOnClose
      have stays := evolves.staysGone sound.1 (gone.begins follows)
      rw [result]
      rcases removed with rfl | ⟨-, -, removed⟩
      · exact ⟨fun written mem => stays.gone.disks written (.tail _ mem),
          stays.gone.disks _ mem_cons_self, rfl⟩
      · refine ⟨fun written mem => ?_, ?_, rfl⟩
        · rcases removed.trail written mem with old | ⟨left, equal⟩
          · exact stays.gone.disks written (.tail _ old)
          · rw [equal]
            exact Lapsed.nil key
        · show Lapsed next.disk.cache key
          rw [removed.disk]
          exact Lapsed.nil key
    | operation operation =>
      have admits : box.Admits (Box.Gentle key) operation := by
        constructor
        · refine fun other meets => ⟨nofun, fun again same => ?_⟩
          cases same
          exact absent meets
        · intro other expires isTwice
          have isOnce : operation.expires.any box.isTwice = false := once
          rw [expires, Option.any_some, isTwice] at isOnce
          cases isOnce
      obtain ⟨next, leaves, result⟩ :=
        Maildir.act_operation host plain working (finalize true) sound offers admits
      obtain ⟨nextGone, noNews⟩ := leaves.gone sound.1 follows gone
      rcases result with stays | ⟨-, closes⟩
      · rw [stays]
        have settledNews : Box.NoNews key box next.settled := noNews
        exact ⟨fun written mem => nextGone.disks written (.tail _ mem),
          nextGone.settled, delivers_eq_false settledNews⟩
      · rw [closes]
        exact ⟨fun written mem => nextGone.disks written (.tail _ mem),
          nextGone.disks _ mem_cons_self, rfl⟩

end Maildir

/-! ### Expunges are final -/

/-- The `uid_up` validity in the log. -/
def Disk.uidvldUp (disk : Disk) : Nat := (lastUidvlds disk.cache).1

/-- The UIDVALIDITY that was known is still the same. -/
def Disk.sameValidity (before after : Disk) : Bool :=
  before.uidvldUp = 0 || after.uidvldUp = before.uidvldUp

/-- A mailbox with the uids that vanished under its UIDVALIDITY, and those of them that were
delivered to a connection as new afterwards. The two are a record of the past that no code reads. -/
structure Watched where
  maildir : Maildir
  vanished : List Nat := []
  delivered : List Nat := []
  deriving DecidableEq

namespace Watched

variable {host : Host} {watched : Watched}

/-- The uid of a VANISHED that is processed. -/
def vanishes : Maildir → MaildirEvent → Option Nat
  | .opened box, .act (.operation (.vanished uidUp)) => if box.store.lite then none else some uidUp
  | _, _ => none

/-- The uids that vanished under the UIDVALIDITY that the event leaves. -/
def remembered (watched : Watched) (next : Maildir) : List Nat :=
  if watched.maildir.disk.sameValidity next.disk then watched.vanished else []

def step (host : Host) (watched : Watched) (event : MaildirEvent) : Except MaildirFault Watched := do
  let next ← watched.maildir.step host event
  let remembered := watched.remembered next
  return {
    maildir := next
    vanished := remembered ++ (vanishes watched.maildir event).toList
    delivered := watched.delivered ++ remembered.filter fun uidUp =>
      watched.maildir.delivers (.up uidUp) next }

/-- The condition on an event: a message that vanished is not entered again, no message is expunged
that has an expunge already, and none is freed that an update refers to. -/
def Parted (watched : Watched) (event : MaildirEvent) : Prop :=
  watched.maildir.Offers event ∧ watched.maildir.Once event.action ∧
    (∀ uidUp ∈ watched.vanished, watched.maildir.Absent (.up uidUp) event.action) ∧
      watched.maildir.Spares event

instance (watched : Watched) (event : MaildirEvent) : Decidable (watched.Parted event) :=
  inferInstanceAs (Decidable (_ ∧ _ ∧ _ ∧ _))

/-- Expunges are final: a uid that vanished was not delivered to a connection as new, and has no
downloaded message, nor one that is in both trees other than as expunged. -/
structure Final (watched : Watched) : Prop where
  delivered : watched.delivered = []
  filled : ∀ box, watched.maildir = .opened box → ∀ uidUp ∈ watched.vanished,
    ∀ msg ∈ box.store.msgs, msg.key = .up uidUp → msg.state ≠ .filled
  both : ∀ box, watched.maildir = .opened box → ∀ uidUp ∈ watched.vanished,
    ∀ msg ∈ box.store.msgs, msg.key = .up uidUp →
      (∃ record ∈ box.store.expunged, record.key = .up uidUp) → msg.state = .expunged

/-- What is known of a mailbox at any time. -/
structure Upheld (host : Host) (watched : Watched) : Prop where
  sound : watched.maildir.Sound
  follows : watched.maildir.Holds (Lasting.following host)
  gone : ∀ uidUp ∈ watched.vanished, watched.maildir.Gone (.up uidUp)
  delivered : watched.delivered = []

/-- Every event leaves the messages gone that vanished before it, and announces none of them. -/
theorem Upheld.event (upheld : Upheld host watched) {event : MaildirEvent} (parted : watched.Parted event)
    {next : Maildir} (stepped : watched.maildir.step host event = .ok next) {uidUp : Nat}
    (mem : uidUp ∈ watched.vanished) :
    next.Gone (.up uidUp) ∧ watched.maildir.delivers (.up uidUp) next = false := by
  obtain ⟨offers, once, absent, -⟩ := parted
  have before := upheld.gone uidUp mem
  obtain ⟨disks, after, quiet⟩ :=
    Maildir.act_gone upheld.sound upheld.follows offers once (absent uidUp mem) before
  cases event with
  | act action =>
    unfold Maildir.step at stepped
    dsimp only at stepped
    split at stepped
    · cases stepped
    · cases stepped
      exact ⟨after, quiet⟩
  | crash action writes =>
    cases stepped
    have here : Lapsed watched.maildir.disk.cache (.up uidUp) := by
      generalize watched.maildir = state at before
      cases state with
      | closed disk => exact before
      | opened box => exact before.disks _ mem_cons_self
    refine ⟨?_, ?_⟩
    · show Lapsed ((watched.maildir.disk :: (watched.maildir.act host action).2).getD writes
        watched.maildir.disk).cache (.up uidUp)
      rw [getD_eq_getElem?_getD]
      cases found : (watched.maildir.disk :: (watched.maildir.act host action).2)[writes]? with
      | none => exact here
      | some disk =>
        rcases mem_cons.mp (mem_of_getElem? found) with same | written
        · show Lapsed disk.cache (.up uidUp)
          rw [same]
          exact here
        · exact disks disk written
    · generalize watched.maildir = state
      cases state <;> rfl

end Watched

end Splintermail
