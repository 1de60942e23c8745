/-
This file proves what the answers of a receiver are within one sync.

The answer for a key should be that of the newest update that was delivered for it. An
insertion is only ever removed by its deletion, which is newer, so the one thing that
can bring back an older insertion is the garbage collection of a newer deletion. The
invariant is therefore that an insertion that is the newest update held for its key is
the newest that was delivered for it. Every step keeps it that does not collect the
deletions above an insertion that is still there, and that does not deliver an insertion
when all that is newer has been collected. Nothing else is asked of the order, the
number or the time of the deliveries.
-/

import Mathlib.Data.Finset.Max
import Splintermail.Kvpsync.Sending
import Splintermail.Lib.Run

namespace Splintermail

open List KvpsyncRecv

/-! ### Deliveries and lookups -/

/-- The receiver, and the updates that it has handled. -/
structure Hearing where
  r : KvpsyncRecv
  heard : List KvpUpdate

inductive HearingEvent where
  | packet (now : Nat) (update : KvpUpdate)
  | lookup (now : Nat) (key : Bytes)
  deriving DecidableEq

/-- The packets of a list of events. -/
def HearingEvent.packets (events : List HearingEvent) : List (Nat × KvpUpdate) :=
  events.filterMap fun
    | packet now update => some (now, update)
    | lookup _ _ => none

namespace Hearing

/-- Until the first sync is acked, updates are turned down. -/
def step (state : Hearing) : HearingEvent → Except Empty Hearing
  | .packet now update =>
    let r := (state.r.handleUpdate now update).1
    .ok ⟨r, if r.initialSyncAcked then update.core :: state.heard else state.heard⟩
  | .lookup now key => .ok { state with r := (state.r.getValue now key).2 }

end Hearing

instance (deletion update : KvpUpdate) : Decidable (deletion.Names update) :=
  match about : update.body.key with
  | none => isFalse fun ⟨_, _, same, _⟩ => nomatch about.symm.trans same
  | some key =>
    decidable_of_iff (deletion.syncId = update.syncId ∧ deletion.body = .delete key update.updateId)
      ⟨fun both => ⟨both.1, key, about, both.2⟩, fun ⟨sync, _, same, body⟩ =>
        ⟨sync, Option.some.inj (about.symm.trans same) ▸ body⟩⟩

namespace Hearing

/-- An insertion that something newer is held for keeps something newer when the data that are due
are collected. -/
def CollectsSafely (state : Hearing) (now : Nat) : Prop :=
  ∀ update ∈ state.r.held, update.body.isInsert →
    (∃ other ∈ state.r.held, other.Alike update ∧ update.updateId < other.updateId) →
      ∃ other ∈ state.r.lasting now, other.Alike update ∧ update.updateId < other.updateId

/-- An insertion is the newest update that was delivered for its key, or something newer is still
held. -/
def ArrivesSafely (state : Hearing) (now : Nat) (update : KvpUpdate) : Prop :=
  update.body.isInsert →
    (∀ other ∈ state.heard, other.Alike update → other.updateId ≤ update.updateId) ∨
      ∃ other ∈ state.r.lasting now, other.Alike update ∧ update.updateId < other.updateId

/-- No deletion is collected too early for the event. -/
def Permits (state : Hearing) : HearingEvent → Prop
  | .packet now update => state.CollectsSafely now ∧ state.ArrivesSafely now update
  | .lookup now _ => state.CollectsSafely now

instance (state : Hearing) (now : Nat) : Decidable (state.CollectsSafely now) :=
  inferInstanceAs (Decidable (∀ _ ∈ _, _))

instance (state : Hearing) (now : Nat) (update : KvpUpdate) :
    Decidable (state.ArrivesSafely now update) :=
  inferInstanceAs (Decidable (_ → _))

instance (state : Hearing) (event : HearingEvent) : Decidable (state.Permits event) :=
  match event with
  | .packet _ _ => inferInstanceAs (Decidable (_ ∧ _))
  | .lookup now _ => inferInstanceAs (Decidable (state.CollectsSafely now))

/-! ### The invariant -/

/-- What is held and what was delivered, for one sync. -/
structure Sound (updates : KvpUpdate → Prop) (syncId : Nat) (state : Hearing) : Prop where
  recv : RecvSound updates state.r
  heardKnown : ∀ update ∈ state.heard, update.body.key ≠ none → updates update
  heldHeard : ∀ update ∈ state.r.held, update.syncId = syncId → update ∈ state.heard
  inserted : ∀ update ∈ state.heard, update.syncId = syncId → update.body.isInsert →
    update ∈ state.r.held ∨ ∃ deletion ∈ state.heard, deletion.Names update
  uncovered : ∀ key update, Newest state.r.held syncId key update → update.body.isInsert →
    Newest state.heard syncId key update

/-- The updates that a run may deliver: those of the sender, and no flush of another sync. -/
def Carries (updates : KvpUpdate → Prop) (syncId : Nat) (update : KvpUpdate) : Prop :=
  (update.body.key ≠ none → updates update.core) ∧ (update.body = .flush → update.syncId = syncId)

instance (updates : KvpUpdate → Prop) [DecidablePred updates] (syncId : Nat) (update : KvpUpdate) :
    Decidable (Carries updates syncId update) :=
  inferInstanceAs (Decidable (_ ∧ _))

end Hearing

/-! ### The newest update -/

theorem Coherent.names {updates : KvpUpdate → Prop} (coherent : Coherent updates)
    {deletion update : KvpUpdate} (known : updates deletion) (names : deletion.Names update) :
    deletion.Alike update ∧ update.updateId < deletion.updateId := by
  obtain ⟨sync, key, about, body⟩ := names
  refine ⟨⟨sync, ?_, ?_⟩, (coherent.named deletion known key _ body).2⟩
  · rw [body]
    exact Option.some_ne_none key
  · rw [body, about]
    rfl

namespace Newest

variable {list : List KvpUpdate} {syncId : Nat} {key : Bytes} {update : KvpUpdate}

theorem exists_newest (mem : update ∈ list) (sync : update.syncId = syncId)
    (about : update.body.key = some key) : ∃ newest, Newest list syncId key newest := by
  obtain ⟨newest, inside, highest⟩ := Finset.exists_max_image
    (list.filter fun other => other.syncId = syncId ∧ other.body.key = some key).toFinset
    KvpUpdate.updateId ⟨update, by
      rw [mem_toFinset, mem_filter, decide_eq_true_eq]
      exact ⟨mem, sync, about⟩⟩
  simp only [mem_toFinset, mem_filter, decide_eq_true_eq] at inside highest
  exact ⟨newest, inside.1, inside.2.1, inside.2.2, fun other mem sync about =>
    highest other ⟨mem, sync, about⟩⟩

section

variable (newest : Newest list syncId key update)

include newest

theorem below {other : KvpUpdate} (mem : other ∈ list) (alike : other.Alike update) :
    other.updateId ≤ update.updateId :=
  newest.highest other mem (alike.1.trans newest.sync) (alike.2.2.trans newest.about)

theorem alike {other : KvpUpdate} (sync : other.syncId = syncId)
    (about : other.body.key = some key) : other.Alike update :=
  ⟨sync.trans newest.sync.symm, by rw [about]; exact Option.some_ne_none key,
    about.trans newest.about.symm⟩

theorem cons {first : KvpUpdate} (older : first.Alike update → first.updateId ≤ update.updateId) :
    Newest (first :: list) syncId key update where
  member := .tail _ newest.member
  sync := newest.sync
  about := newest.about
  highest other mem sync about := by
    rcases mem_cons.mp mem with rfl | mem
    · exact older (newest.alike sync about)
    · exact newest.highest other mem sync about

end

end Newest

/-! ### Steps -/

namespace Hearing

variable {updates : KvpUpdate → Prop} {syncId : Nat} {state : Hearing} {now : Nat}

/-- Garbage collection keeps the invariant if it is safe. -/
theorem collect_sound (sound : Sound updates syncId state) (safe : state.CollectsSafely now) :
    Sound updates syncId { state with r := state.r.doGc now } where
  recv := doGc_sound sound.recv now
  heardKnown := sound.heardKnown
  heldHeard update mem sync :=
    sound.heldHeard update ((held_doGc_sublist state.r now).mem mem) sync
  inserted update mem sync insertion := by
    obtain ⟨key, val, body⟩ := KvpBody.insert_of_isInsert insertion
    exact (sound.inserted update mem sync insertion).imp_left (insert_held_doGc sound.recv now body)
  uncovered key update newest insertion := by
    have within := (held_doGc_sublist state.r now).mem newest.member
    refine sound.uncovered key update ⟨within, newest.sync, newest.about, ?_⟩ insertion
    intro other mem sync about
    by_contra newer
    obtain ⟨last, lasts, alike, above⟩ := safe update within insertion
      ⟨other, mem, newest.alike sync about, Nat.lt_of_not_le newer⟩
    exact absurd (newest.below ((mem_lasting sound.recv).mp lasts) alike) (Nat.not_le.mpr above)

variable {next : Hearing} {first : KvpUpdate}

/-- The data of the receiver matter for the invariant, its other fields do not. -/
theorem sound_of_held (sound : Sound updates syncId state) (recv : RecvSound updates next.r)
    (held : ∀ update, update.syncId = syncId → (update ∈ next.r.held ↔ update ∈ state.r.held))
    (heard : next.heard = first :: state.heard) (keyless : first.body.key = none) :
    Sound updates syncId next where
  recv := recv
  heardKnown update mem about := by
    rw [heard] at mem
    rcases mem_cons.mp mem with rfl | mem
    · exact absurd keyless about
    · exact sound.heardKnown update mem about
  heldHeard update mem sync := by
    rw [heard]
    exact .tail _ (sound.heldHeard update ((held update sync).mp mem) sync)
  inserted update mem sync insertion := by
    rw [heard] at mem ⊢
    rcases mem_cons.mp mem with rfl | mem
    · obtain ⟨key, val, body⟩ := KvpBody.insert_of_isInsert insertion
      rw [body] at keyless
      cases keyless
    · rcases sound.inserted update mem sync insertion with inside | ⟨deletion, known, names⟩
      · exact .inl ((held update sync).mpr inside)
      · exact .inr ⟨deletion, .tail _ known, names⟩
  uncovered key update newest insertion := by
    rw [heard]
    refine (sound.uncovered key update ⟨(held update newest.sync).mp newest.member, newest.sync,
      newest.about, ?_⟩ insertion).cons fun alike => absurd keyless alike.2.1
    exact fun other mem sync about =>
      newest.highest other ((held other sync).mpr mem) sync about

/-- An insertion that is delivered. -/
theorem insert_sound (coherent : Coherent updates) (sound : Sound updates syncId state)
    (known : updates first) (insertion : first.body.isInsert) (recv : RecvSound updates next.r)
    (held : ∀ other, other ∈ next.r.held ↔
      other ∈ state.r.held ∨ other = first ∧ ∀ deletion ∈ state.r.held, ¬deletion.Names first)
    (heard : next.heard = first :: state.heard)
    (safe : (∀ other ∈ state.heard, other.Alike first → other.updateId ≤ first.updateId) ∨
      ∃ other ∈ state.r.held, other.Alike first ∧ first.updateId < other.updateId) :
    Sound updates syncId next where
  recv := recv
  heardKnown update mem about := by
    rw [heard] at mem
    rcases mem_cons.mp mem with rfl | mem
    · exact known
    · exact sound.heardKnown update mem about
  heldHeard update mem sync := by
    rw [heard]
    rcases (held update).mp mem with inside | ⟨rfl, -⟩
    · exact .tail _ (sound.heldHeard update inside sync)
    · exact mem_cons_self
  inserted update mem sync kind := by
    rw [heard] at mem ⊢
    rcases mem_cons.mp mem with rfl | mem
    · by_cases named : ∃ deletion ∈ state.r.held, deletion.Names update
      · obtain ⟨deletion, inside, names⟩ := named
        exact .inr ⟨deletion, .tail _
          (sound.heldHeard deletion inside (names.1.trans sync)), names⟩
      · exact .inl ((held update).mpr (.inr ⟨rfl, fun deletion inside names =>
          named ⟨deletion, inside, names⟩⟩))
    · rcases sound.inserted update mem sync kind with inside | ⟨deletion, there, names⟩
      · exact .inl ((held update).mpr (.inl inside))
      · exact .inr ⟨deletion, .tail _ there, names⟩
  uncovered key update newest kind := by
    have before : update ∈ state.r.held → Newest state.r.held syncId key update := fun inside =>
      ⟨inside, newest.sync, newest.about, fun other mem sync about =>
        newest.highest other ((held other).mpr (.inl mem)) sync about⟩
    rw [heard]
    rcases (held update).mp newest.member with inside | ⟨rfl, -⟩
    · -- the delivered update is held, or a held deletion is newer
      refine (sound.uncovered key update (before inside) kind).cons fun alike => ?_
      by_cases named : ∃ deletion ∈ state.r.held, deletion.Names first
      · obtain ⟨deletion, there, names⟩ := named
        obtain ⟨same, above⟩ := coherent.names (sound.recv.known deletion there) names
        have below := newest.below ((held deletion).mpr (.inl there))
          ⟨same.1.trans alike.1, same.2.1, same.2.2.trans alike.2.2⟩
        omega
      · exact newest.below ((held first).mpr (.inr ⟨rfl, fun deletion inside names =>
          named ⟨deletion, inside, names⟩⟩)) alike
    · rcases safe with highest | ⟨other, there, alike, above⟩
      · exact ⟨mem_cons_self, newest.sync, newest.about, fun other mem sync about => by
          rcases mem_cons.mp mem with rfl | mem
          · exact le_rfl
          · exact highest other mem (newest.alike sync about)⟩
      · exact absurd (newest.below ((held other).mpr (.inl there)) alike) (Nat.not_le.mpr above)

/-- A deletion that is delivered. -/
theorem delete_sound (coherent : Coherent updates) (sound : Sound updates syncId state)
    (known : updates first) (deletes : first.body.isInsert = false)
    (recv : RecvSound updates next.r) (held : ∀ other, other ∈ next.r.held ↔
      other ∈ state.r.held ∧ ¬first.Names other ∨ other = first)
    (heard : next.heard = first :: state.heard) :
    Sound updates syncId next where
  recv := recv
  heardKnown update mem about := by
    rw [heard] at mem
    rcases mem_cons.mp mem with rfl | mem
    · exact known
    · exact sound.heardKnown update mem about
  heldHeard update mem sync := by
    rw [heard]
    rcases (held update).mp mem with ⟨inside, -⟩ | rfl
    · exact .tail _ (sound.heldHeard update inside sync)
    · exact mem_cons_self
  inserted update mem sync kind := by
    rw [heard] at mem ⊢
    rcases mem_cons.mp mem with rfl | mem
    · rw [deletes] at kind
      cases kind
    · rcases sound.inserted update mem sync kind with inside | ⟨deletion, there, names⟩
      · by_cases named : first.Names update
        · exact .inr ⟨first, mem_cons_self, named⟩
        · exact .inl ((held update).mpr (.inl ⟨inside, named⟩))
      · exact .inr ⟨deletion, .tail _ there, names⟩
  uncovered key update newest kind := by
    have there : first ∈ next.r.held := (held first).mpr (.inr rfl)
    rw [heard]
    rcases (held update).mp newest.member with ⟨inside, -⟩ | rfl
    · refine (sound.uncovered key update ⟨inside, newest.sync, newest.about, ?_⟩ kind).cons
        (newest.below there)
      intro other mem sync about
      by_cases named : first.Names other
      · -- what the deletion removes is older than the deletion
        obtain ⟨same, above⟩ := coherent.names known named
        have below := newest.below there ((newest.alike (same.1.trans sync) (same.2.2.trans about)))
        omega
      · exact newest.highest other ((held other).mpr (.inl ⟨mem, named⟩)) sync about
    · rw [deletes] at kind
      cases kind

/-- What becomes of a packet, and its ack. -/
inductive Handled (updates : KvpUpdate → Prop) (state : Hearing) (now : Nat) (update : KvpUpdate) :
    Hearing → KvpAck → Prop where
  | turnedDown (unacked : state.r.initialSyncAcked = false)
      (other : update.body ≠ .start state.r.recvId) :
      Handled updates state now update state ⟨state.r.recvId, 0⟩
  | booted (unacked : state.r.initialSyncAcked = false)
      (start : update.body = .start state.r.recvId) :
      Handled updates state now update
        ⟨{ state.r with initialSyncAcked := true }, update.core :: state.heard⟩
        ⟨update.syncId, update.updateId⟩
  | taken (r : KvpsyncRecv) (acked : state.r.initialSyncAcked = true) (sound : RecvSound updates r)
      (takes : Takes update (state.r.doGc now).held state.r r)
      (still : r.initialSyncAcked = true) (recvId : r.recvId = state.r.recvId) :
      Handled updates state now update ⟨r, update.core :: state.heard⟩
        ⟨update.syncId, update.updateId⟩

variable {update : KvpUpdate}

theorem step_packet (coherent : Coherent updates) (sound : RecvSound updates state.r) (now : Nat)
    (known : ∀ key, update.body.key = some key → updates update.core) :
    ∃ next ack, step state (.packet now update) = .ok next ∧
      state.r.handleUpdate now update = (next.r, ack) ∧
        Handled updates state now update next ack := by
  refine ⟨_, (state.r.handleUpdate now update).2, rfl, rfl, ?_⟩
  by_cases acked : state.r.initialSyncAcked = true
  · obtain ⟨recv, takes, still, recvId, ack⟩ :=
      handleUpdate_acked coherent sound acked now known
    rw [if_pos still, ack]
    exact .taken _ acked recv takes still recvId
  · have unacked : state.r.initialSyncAcked = false := Bool.eq_false_iff.mpr acked
    rw [handleUpdate_unacked unacked]
    by_cases other : update.body ≠ .start state.r.recvId
    · rw [if_pos other]
      dsimp only
      rw [if_neg acked]
      exact .turnedDown unacked other
    · rw [if_neg other]
      exact .booted unacked (not_not.mp other)

/-- Every event that is permitted keeps the invariant. -/
theorem step_sound (coherent : Coherent updates) (event : HearingEvent)
    (carries : ∀ now update, event = .packet now update → Carries updates syncId update)
    (sound : Sound updates syncId state) (permits : state.Permits event) :
    Outcome.Sat (step state event) (Sound updates syncId) fun _ => False := by
  cases event with
  | lookup now key =>
    show Sound updates syncId { state with r := (state.r.getValue now key).2 }
    rw [getValue_snd]
    exact collect_sound sound permits
  | packet now update =>
    obtain ⟨keyed, flushes⟩ := carries now update rfl
    have known : ∀ key, update.body.key = some key → updates update.core := fun key about =>
      keyed (by rw [about]; exact Option.some_ne_none key)
    obtain ⟨collects, arrives⟩ := permits
    obtain ⟨next, ack, outcome, -, handled⟩ := step_packet coherent sound.recv now known
    rw [outcome, Outcome.sat_ok]
    cases handled with
    | turnedDown => exact sound
    | booted unacked start =>
      refine sound_of_held sound ⟨sound.recv.known, sound.recv.nodup, sound.recv.exclusive,
        sound.recv.timers, sound.recv.timersNodup⟩ (fun _ _ => Iff.rfl) rfl ?_
      show update.body.key = none
      rw [start]
      rfl
    | taken r acked recv takes =>
      have collected := collect_sound sound collects
      unfold Takes at takes
      cases body : update.body with
      | empty =>
        rw [body] at takes
        exact sound_of_held collected recv (fun other _ => takes.2 other) rfl
          (by show update.body.key = none; rw [body]; rfl)
      | start resyncId =>
        rw [body] at takes
        exact sound_of_held collected recv (fun other _ => takes.2 other) rfl
          (by show update.body.key = none; rw [body]; rfl)
      | flush =>
        rw [body] at takes
        exact sound_of_held collected recv (fun other sync => (takes.2 other).trans
            (and_iff_left (sync.trans (flushes body).symm))) rfl
          (by show update.body.key = none; rw [body]; rfl)
      | insert key val =>
        rw [body] at takes
        have insertion : update.core.body.isInsert := by
          show update.body.isInsert
          rw [body]
          rfl
        refine insert_sound coherent collected (known key (by rw [body]; rfl)) insertion recv takes.2
          rfl ((arrives insertion).imp_right ?_)
        exact fun ⟨other, lasts, rest⟩ => ⟨other, (mem_lasting sound.recv).mp lasts, rest⟩
      | delete key deleteId =>
        rw [body] at takes
        refine delete_sound coherent collected (known key (by rw [body]; rfl)) ?_ recv takes.2 rfl
        show update.body.isInsert = false
        rw [body]
        rfl

/-! ### Answers -/

theorem negative_cases (r : KvpsyncRecv) (now : Nat) (val : Bytes) :
    r.negative now ≠ .value val := by
  unfold negative
  split <;> exact nofun

/-- An insertion that is the newest update delivered for its key is there for a lookup. -/
theorem insert_held (coherent : Coherent updates) (sound : Sound updates syncId state) {key : Bytes}
    (newest : Newest state.heard syncId key update) (insertion : update.body.isInsert) :
    update ∈ (state.r.doGc now).held := by
  obtain ⟨_, _, body⟩ := KvpBody.insert_of_isInsert insertion
  rcases sound.inserted update newest.member newest.sync insertion with
    inside | ⟨deletion, there, names⟩
  · exact insert_held_doGc sound.recv now body inside
  · have known := sound.heardKnown deletion there (by
      obtain ⟨-, _, -, body⟩ := names
      rw [body]
      exact Option.some_ne_none _)
    obtain ⟨alike, above⟩ := coherent.names known names
    exact absurd (newest.below there alike) (Nat.not_le.mpr above)

theorem answer_of_not_insert (kind : ¬update.body.isInsert) (negative : KvpAnswer) :
    update.answer negative = negative := by
  unfold KvpUpdate.answer
  split
  · next body =>
    rw [body] at kind
    exact absurd rfl kind
  · rfl

/-- The answer to a lookup is that of the newest update that was delivered for the key. -/
theorem getValue_newest_heard (coherent : Coherent updates) (sound : Sound updates syncId state)
    (synced : state.r.syncId = syncId) (positive : syncId ≠ 0) (safe : state.CollectsSafely now)
    {key : Bytes} (newest : Newest state.heard syncId key update) :
    (state.r.getValue now key).1 = update.answer (state.r.negative now) := by
  have collected := collect_sound sound safe
  subst synced
  by_cases found : ∃ other ∈ (state.r.doGc now).held,
    other.syncId = state.r.syncId ∧ other.body.key = some key
  · obtain ⟨other, mem, sync, about⟩ := found
    obtain ⟨top, isTop⟩ := Newest.exists_newest mem sync about
    have heard := collected.heldHeard top isTop.member isTop.sync
    rw [getValue_newest coherent sound.recv positive isTop]
    have below := newest.highest top heard isTop.sync isTop.about
    have known : ∀ other, Newest state.heard state.r.syncId key other → updates other :=
      fun other isNewest => sound.heardKnown other isNewest.member
        (by rw [isNewest.about]; exact Option.some_ne_none key)
    have same : top.updateId = update.updateId → top = update := fun number =>
      coherent.unique _ _ (collected.recv.known top isTop.member) (known update newest)
        (isTop.sync.trans newest.sync.symm) number
    by_cases insertion : top.body.isInsert
    · have above := (collected.uncovered key top isTop insertion).highest update newest.member
        newest.sync newest.about
      rw [same (Nat.le_antisymm below above)]
    · have kind : ¬update.body.isInsert := fun kind => by
        have above := isTop.highest update (insert_held coherent sound newest kind) newest.sync
          newest.about
        rw [same (Nat.le_antisymm below above)] at insertion
        exact insertion kind
      rw [answer_of_not_insert insertion, answer_of_not_insert kind]
  · have none : ∀ other ∈ (state.r.doGc now).held, other.syncId = state.r.syncId →
        other.body.key ≠ some key := fun other mem sync about =>
      found ⟨other, mem, sync, about⟩
    have kind : ¬update.body.isInsert := fun kind =>
      none update (insert_held coherent sound newest kind) newest.sync newest.about
    rw [getValue_none positive none, answer_of_not_insert kind]

/-- Where no update was delivered for the key, there is no value. -/
theorem getValue_none_heard (sound : Sound updates syncId state) (synced : state.r.syncId = syncId)
    (positive : syncId ≠ 0) {key : Bytes}
    (none : ∀ update ∈ state.heard, update.syncId = syncId → update.body.key ≠ some key) :
    (state.r.getValue now key).1 = state.r.negative now := by
  subst synced
  exact getValue_none positive fun update mem sync =>
    none update (sound.heldHeard update ((held_doGc_sublist state.r now).mem mem) sync) sync

end Hearing

/-! ### The garbage collection delay -/

def HearingEvent.time : HearingEvent → Nat
  | packet now _ => now
  | lookup now _ => now

/-- The clock of the receiver does not go back. -/
def InOrder (events : List HearingEvent) : Prop := (events.map HearingEvent.time).Pairwise (· ≤ ·)

/-- All copies of a packet arrive within some time. -/
def CopiesWithin (span : Nat) (events : List HearingEvent) : Prop :=
  ∀ copy ∈ HearingEvent.packets events, ∀ other ∈ HearingEvent.packets events,
    copy.2.core = other.2.core → other.1 ≤ copy.1 + span

instance (events : List HearingEvent) : Decidable (InOrder events) :=
  inferInstanceAs (Decidable (List.Pairwise _ _))

instance (span : Nat) (events : List HearingEvent) : Decidable (CopiesWithin span events) :=
  inferInstanceAs (Decidable (∀ _ ∈ _, _))

namespace Hearing

/-- An insertion and its deletion. -/
theorem coherent_pair (syncId updateId deleteId : Nat) (key val : Bytes) (positive : updateId ≠ 0)
    (newer : updateId < deleteId) :
    Coherent fun update => update ∈ [⟨0, syncId, updateId, .insert key val⟩,
      ⟨0, syncId, deleteId, .delete key updateId⟩] where
  bare := by
    rintro update mem
    rcases mem_pair.mp mem with rfl | rfl <;> rfl
  numbered := by
    rintro update mem
    rcases mem_pair.mp mem with rfl | rfl
    · exact positive
    · exact Nat.ne_of_gt (Nat.lt_of_le_of_lt (Nat.zero_le _) newer)
  unique update other first second _ number := by
    rcases mem_pair.mp first with rfl | rfl <;> rcases mem_pair.mp second with rfl | rfl
    · rfl
    · exact absurd number (Nat.ne_of_lt newer)
    · exact absurd number.symm (Nat.ne_of_lt newer)
    · rfl
  named deletion mem name target body := by
    rcases mem_pair.mp mem with rfl | rfl
    · cases body
    · cases body
      exact ⟨positive, newer⟩
  target deletion update first second names := by
    obtain ⟨-, name, -, body⟩ := names
    rcases mem_pair.mp second with rfl | rfl
    · exact ⟨key, val, rfl⟩
    · rcases mem_pair.mp first with rfl | rfl
      · cases body
      · exact absurd (KvpBody.delete.inj body).2 (Nat.ne_of_lt newer)

variable {updates : KvpUpdate → Prop} {syncId : Nat} {state : Hearing}

/-! ### Deletions are final -/

/-- What is asked of an answer: a value is that of an insertion that no delivered deletion names, and
the answer is that of an update that is at least as new as everything that was delivered earlier. -/
structure Final (earlier later : List KvpUpdate) (syncId : Nat) (key : Bytes)
    (negative answer : KvpAnswer) : Prop where
  undeleted : ∀ val, answer = .value val → ∃ insertion ∈ later, insertion.syncId = syncId ∧
    insertion.body = .insert key val ∧ ∀ deletion ∈ later, ¬deletion.Names insertion
  forward : ∀ old, Newest earlier syncId key old → ∃ update ∈ later, update.Alike old ∧
    old.updateId ≤ update.updateId ∧ answer = update.answer negative

/-- The answers to all lookups of a run are final once the receiver is in the sync. -/
def AnswersFinally (syncId : Nat) (state : Hearing) (events : List HearingEvent) : Prop :=
  ∀ before between now key after, events = before ++ between ++ .lookup now key :: after →
    ∀ earlier later, Run.run step state before = .ok earlier →
      Run.run step earlier between = .ok later → later.r.syncId = syncId →
        Final earlier.heard later.heard syncId key (later.r.negative now)
          (later.r.getValue now key).1

theorem final_of_sound (coherent : Coherent updates) (sound : Sound updates syncId state)
    (synced : state.r.syncId = syncId) (positive : syncId ≠ 0) {now : Nat}
    (safe : state.CollectsSafely now) {earlier : List KvpUpdate} (grown : earlier ⊆ state.heard)
    (key : Bytes) :
    Final earlier state.heard syncId key (state.r.negative now) (state.r.getValue now key).1 where
  undeleted val value := by
    by_cases found : ∃ other ∈ state.heard, other.syncId = syncId ∧ other.body.key = some key
    · obtain ⟨other, mem, sync, about⟩ := found
      obtain ⟨update, newest⟩ := Newest.exists_newest mem sync about
      rw [getValue_newest_heard coherent sound synced positive safe newest] at value
      by_cases insertion : update.body.isInsert
      · obtain ⟨name, val', body⟩ := KvpBody.insert_of_isInsert insertion
        have sameKey : name = key := by
          have about := newest.about
          rw [body] at about
          exact Option.some.inj about
        have sameVal : val' = val := by
          unfold KvpUpdate.answer at value
          rw [body] at value
          exact KvpAnswer.value.inj value
        refine ⟨update, newest.member, newest.sync, by rw [body, sameKey, sameVal], ?_⟩
        intro deletion there names
        have known := sound.heardKnown deletion there (by
          obtain ⟨-, _, -, body⟩ := names
          rw [body]
          exact Option.some_ne_none _)
        obtain ⟨alike, above⟩ := coherent.names known names
        exact absurd (newest.below there alike) (Nat.not_le.mpr above)
      · rw [answer_of_not_insert insertion] at value
        exact absurd value (negative_cases state.r now val)
    · have none : ∀ other ∈ state.heard, other.syncId = syncId → other.body.key ≠ some key :=
        fun other mem sync about => found ⟨other, mem, sync, about⟩
      rw [getValue_none_heard sound synced positive none] at value
      exact absurd value (negative_cases state.r now val)
  forward old oldest := by
    obtain ⟨update, newest⟩ := Newest.exists_newest (grown oldest.member) oldest.sync oldest.about
    exact ⟨update, newest.member, oldest.alike newest.sync newest.about,
      newest.highest old (grown oldest.member) oldest.sync oldest.about,
      getValue_newest_heard coherent sound synced positive safe newest⟩

theorem step_heard (state : Hearing) (event : HearingEvent) :
    Outcome.Sat (step state event) (fun next => state.heard ⊆ next.heard) fun _ => False := by
  cases event with
  | lookup now key => exact List.Subset.refl _
  | packet now update =>
    show state.heard ⊆ if _ then _ else _
    split
    · exact subset_cons_self _ _
    · exact List.Subset.refl _

theorem heard_subset {events : List HearingEvent} {earlier later : Hearing}
    (outcome : Run.run step earlier events = .ok later) : earlier.heard ⊆ later.heard := by
  have kept : ∀ state event, (fun state : Hearing => earlier.heard ⊆ state.heard) state →
      Outcome.Sat (step state event) (fun state => earlier.heard ⊆ state.heard) fun _ => False :=
    fun state event grown => (step_heard state event).mono fun _ => List.Subset.trans grown
  exact (Run.run_sat kept (List.Subset.refl _) events).of_ok outcome

/-- Answers are final in every run that collects no deletion too early. -/
theorem answersFinally_of_guarded (coherent : Coherent updates) (positive : syncId ≠ 0)
    {r : KvpsyncRecv} (sound : RecvSound updates r)
    (fresh : ∀ update ∈ r.held, update.syncId ≠ syncId) {events : List HearingEvent}
    (carries : ∀ packet ∈ HearingEvent.packets events, Carries updates syncId packet.2)
    (guarded : Run.Guarded step Permits ⟨r, []⟩ events) : AnswersFinally syncId ⟨r, []⟩ events := by
  intro before between now key after split earlier later first second synced
  subst split
  have start : Sound updates syncId ⟨r, []⟩ := {
    recv := sound
    heardKnown := nofun
    heldHeard := fun update mem sync => absurd sync (fresh update mem)
    inserted := nofun
    uncovered := fun _ update newest => absurd newest.sync (fresh update newest.member) }
  have whole : Run.run step ⟨r, []⟩ (before ++ between) = .ok later := by
    rw [Run.run_append, first]
    exact second
  obtain ⟨run, rest⟩ := guarded.append
  have kept : ∀ state event, Sound updates syncId state → (Permits state event ∧
      ∀ now update, event = .packet now update → Carries updates syncId update) →
        Outcome.Sat (step state event) (Sound updates syncId) fun _ => False :=
    fun state event sound met => step_sound coherent event met.2 sound met.1
  have sat := Run.Guarded.sat kept start (run.of_mem fun event mem now update same =>
    carries (now, update) (mem_filterMap.mpr ⟨event, mem_append_left _ mem, same ▸ rfl⟩))
  exact final_of_sound coherent (sat.of_ok whole) synced positive (rest later whole).1
    (heard_subset second) key

/-- A receiver that keeps the deletion until the last copy of its insertion is in. -/
theorem answersFinally_of_guarded_in_time :
    AnswersFinally 7 ⟨.init 5, []⟩ [.packet 0 ⟨0, 7, 1, .start 5⟩, .packet 0 ⟨0, 7, 2, .flush⟩,
      .packet 0 ⟨0, 7, 3, .insert [1] [2]⟩, .packet 1 ⟨0, 7, 4, .delete [1] 3⟩,
      .packet 255 ⟨0, 7, 3, .insert [1] [2]⟩, .lookup 255 [1]] :=
  answersFinally_of_guarded (coherent_pair 7 3 4 [1] [2] (by decide) (by decide)) (by decide)
    (init_sound _ 5) nofun (by decide) (by decide)

/-- The delay is meant to be longer than any packet is under way, but `GC_DELAY` counts nanoseconds:
the copy of an insertion a second later finds its deletion collected, and is served. -/
theorem answersFinally_fails : ¬∀ (updates : KvpUpdate → Prop) (_ : Coherent updates) (syncId : Nat)
    (_ : syncId ≠ 0) (r : KvpsyncRecv) (_ : RecvSound updates r)
    (_ : ∀ update ∈ r.held, update.syncId ≠ syncId) (events : List HearingEvent)
    (_ : ∀ packet ∈ HearingEvent.packets events, Carries updates syncId packet.2)
    (_ : InOrder events) (_ : CopiesWithin (255 * second) events),
    AnswersFinally syncId ⟨r, []⟩ events := by
  intro always
  have final := always _ (coherent_pair 7 3 4 [1] [2] (by decide) (by decide)) 7 (by decide)
    (.init 5) (init_sound _ 5) nofun
    [.packet 0 ⟨0, 7, 1, .start 5⟩, .packet 0 ⟨0, 7, 2, .flush⟩,
      .packet 0 ⟨0, 7, 3, .insert [1] [2]⟩, .packet 0 ⟨0, 7, 4, .delete [1] 3⟩,
      .packet second ⟨0, 7, 3, .insert [1] [2]⟩, .lookup second [1]]
    (by decide) (by decide) (by decide)
    [.packet 0 ⟨0, 7, 1, .start 5⟩, .packet 0 ⟨0, 7, 2, .flush⟩,
      .packet 0 ⟨0, 7, 3, .insert [1] [2]⟩, .packet 0 ⟨0, 7, 4, .delete [1] 3⟩,
      .packet second ⟨0, 7, 3, .insert [1] [2]⟩] [] second [1] [] rfl _ _ rfl rfl rfl
  exact absurd (final.undeleted [2] (by decide)) (by decide)

end Hearing

end Splintermail
