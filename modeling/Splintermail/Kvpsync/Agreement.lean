/-
This file proves that within a sync the order of the deliveries does not matter.

While nothing is collected, a deletion that was delivered is held, and an insertion that
was delivered is held or its deletion was delivered. So nothing newer than what is held
was ever delivered, and the answers of the receiver are those of the newest updates. When
all updates were delivered, these are the newest updates that the sender has made, and
these are its cache.
-/

import Splintermail.Kvpsync.Hearing
import Splintermail.Kvpsync.Phases

namespace Splintermail

open KvpsyncRecv List

namespace Hearing

variable {made : List KvpUpdate} {syncId : Nat} {state : Hearing}

/-- No deletion is due for the event. -/
def Uncollected (state : Hearing) : HearingEvent → Prop
  | .packet now _ => state.r.due now = []
  | .lookup now _ => state.r.due now = []

instance (state : Hearing) (event : HearingEvent) : Decidable (state.Uncollected event) :=
  match event with
  | .packet now _ => inferInstanceAs (Decidable (state.r.due now = []))
  | .lookup now _ => inferInstanceAs (Decidable (state.r.due now = []))

/-- What holds of a receiver that has collected nothing, where the updates are those of a sync. -/
structure Uninterrupted (made : List KvpUpdate) (syncId : Nat) (state : Hearing) : Prop where
  sound : Sound (· ∈ made) syncId state
  heard : ∀ update ∈ state.heard, update ∈ made ∧ update.syncId = syncId
  deletions : ∀ update ∈ state.heard, update.body.key ≠ none → update.body.isInsert = false →
    update ∈ state.r.held
  flushed : ∀ update ∈ state.heard, update.body = .flush → state.r.syncId = syncId

theorem held_of_due {r : KvpsyncRecv} {now : Nat} (due : r.due now = []) :
    (r.doGc now).held = r.held := by
  unfold held
  rw [doGc_h, due]
  rfl

theorem Sound.mem_lasting_of_due {updates : KvpUpdate → Prop} (sound : Sound updates syncId state)
    {now : Nat} (due : state.r.due now = []) {update : KvpUpdate} :
    update ∈ state.r.lasting now ↔ update ∈ state.r.held := by
  rw [mem_lasting sound.recv, held_of_due due]

theorem Sound.collectsSafely {updates : KvpUpdate → Prop} (sound : Sound updates syncId state)
    {now : Nat} (due : state.r.due now = []) : state.CollectsSafely now :=
  fun _ _ _ ⟨other, mem, newer⟩ => ⟨other, (sound.mem_lasting_of_due due).mpr mem, newer⟩

section

variable (coherent : Coherent (· ∈ made))

include coherent

theorem Uninterrupted.held_of_newest (good : Uninterrupted made syncId state) {key : Bytes}
    {update : KvpUpdate} (newest : Newest state.heard syncId key update) :
    update ∈ state.r.held := by
  by_cases insertion : update.body.isInsert
  · exact (held_doGc_sublist state.r 0).mem (insert_held coherent good.sound newest insertion)
  · exact good.deletions update newest.member (by rw [newest.about]; exact Option.some_ne_none key)
      (Bool.eq_false_iff.mpr insertion)

theorem Uninterrupted.permits (good : Uninterrupted made syncId state) {event : HearingEvent}
    (uncollected : state.Uncollected event)
    (packet : ∀ now update, event = .packet now update → update.syncId = syncId) :
    state.Permits event := by
  cases event with
  | lookup now key => exact good.sound.collectsSafely uncollected
  | packet now update =>
    refine ⟨good.sound.collectsSafely uncollected, fun insertion => ?_⟩
    by_cases newer : ∃ other ∈ state.heard, other.Alike update ∧ update.updateId < other.updateId
    · obtain ⟨other, mem, alike, above⟩ := newer
      have sync := alike.1.trans (packet now update rfl)
      have about := alike.2.2.trans (KvpBody.key_of_isInsert insertion)
      obtain ⟨top, newest⟩ := Newest.exists_newest mem sync about
      refine Or.inr ⟨top, (good.sound.mem_lasting_of_due uncollected).mpr
        (good.held_of_newest coherent newest), ?_, ?_⟩
      · exact ⟨newest.sync.trans (packet now update rfl).symm,
          by rw [newest.about]; exact Option.some_ne_none _,
          newest.about.trans (KvpBody.key_of_isInsert insertion).symm⟩
      · exact Nat.lt_of_lt_of_le above (newest.highest other mem sync about)
    · exact Or.inl fun other mem alike => Nat.le_of_not_lt fun above =>
        newer ⟨other, mem, alike, above⟩

/-- Every event keeps this that collects nothing and delivers an update of the sync. -/
theorem step_uninterrupted (good : Uninterrupted made syncId state) {event : HearingEvent}
    (uncollected : state.Uncollected event) (packet : ∀ now update, event = .packet now update →
      update.core ∈ made ∧ update.syncId = syncId) :
    Outcome.Sat (step state event) (Uninterrupted made syncId) fun _ => False := by
  have carries : ∀ now update, event = .packet now update → Carries (· ∈ made) syncId update :=
    fun now update same => ⟨fun _ => (packet now update same).1, fun _ => (packet now update same).2⟩
  have sound := step_sound coherent event carries good.sound
    (good.permits coherent uncollected fun now update same => (packet now update same).2)
  cases event with
  | lookup now key =>
    refine ⟨sound, good.heard, fun update mem keyed deletes => ?_, fun update mem same => ?_⟩
    · show update ∈ (state.r.getValue now key).2.held
      rw [getValue_snd, held_of_due uncollected]
      exact good.deletions update mem keyed deletes
    · show (state.r.getValue now key).2.syncId = syncId
      rw [getValue_snd, doGc_syncId]
      exact good.flushed update mem same
  | packet now update =>
    obtain ⟨known, sync⟩ := packet now update rfl
    obtain ⟨next, ack, outcome, -, handled⟩ := step_packet coherent good.sound.recv now fun _ _ => known
    rw [outcome, Outcome.sat_ok] at sound ⊢
    cases handled with
    | turnedDown => exact good
    | booted unacked start =>
      refine ⟨sound, fun other mem => ?_, fun other mem keyed deletes => ?_,
        fun other mem same => ?_⟩
      · rcases mem_cons.mp mem with rfl | mem
        · exact ⟨known, sync⟩
        · exact good.heard other mem
      · rcases mem_cons.mp mem with rfl | mem
        · have keyed' : update.body.key ≠ none := keyed
          rw [start] at keyed'
          exact absurd rfl keyed'
        · exact good.deletions other mem keyed deletes
      · rcases mem_cons.mp mem with rfl | mem
        · have same' : update.body = .flush := same
          rw [start] at same'
          cases same'
        · exact good.flushed other mem same
    | taken r acked recv takes still recvId =>
      rw [held_of_due uncollected] at takes
      unfold Takes at takes
      -- a deletion is only removed by what names it, and this is an insertion
      have stays : ∀ other ∈ state.r.held, other.body.isInsert = false → other.syncId = syncId →
          other ∈ r.held := by
        intro other mem deletes sync'
        cases body : update.body with
        | empty =>
          rw [body] at takes
          exact (takes.2 other).mpr mem
        | start resyncId =>
          rw [body] at takes
          exact (takes.2 other).mpr mem
        | flush =>
          rw [body] at takes
          exact (takes.2 other).mpr ⟨mem, sync'.trans sync.symm⟩
        | insert key val =>
          rw [body] at takes
          exact (takes.2 other).mpr (Or.inl mem)
        | delete key deleteId =>
          rw [body] at takes
          refine (takes.2 other).mpr (Or.inl ⟨mem, fun names => ?_⟩)
          obtain ⟨name, val, insertion⟩ := coherent.target _ _ known
            (good.sound.recv.known other mem) names
          rw [insertion] at deletes
          cases deletes
      refine ⟨sound, fun other mem => ?_, fun other mem keyed deletes => ?_,
        fun other mem same => ?_⟩
      · rcases mem_cons.mp mem with rfl | mem
        · exact ⟨known, sync⟩
        · exact good.heard other mem
      · rcases mem_cons.mp mem with rfl | mem
        · cases body : update.body with
          | delete key deleteId =>
            rw [body] at takes
            exact (takes.2 _).mpr (Or.inr rfl)
          | insert key val =>
            have deletes' : update.body.isInsert = false := deletes
            rw [body] at deletes'
            cases deletes'
          | _ =>
            have keyed' : update.body.key ≠ none := keyed
            rw [body] at keyed'
            exact absurd rfl keyed'
        · exact stays other (good.deletions other mem keyed deletes) deletes
            (good.heard other mem).2
      · by_cases flush : update.body = .flush
        · rw [flush] at takes
          exact takes.1.trans sync
        · have before : state.r.syncId = syncId := by
            rcases mem_cons.mp mem with rfl | mem
            · exact absurd same flush
            · exact good.flushed other mem same
          cases body : update.body with
          | flush => exact absurd body flush
          | _ =>
            rw [body] at takes
            exact takes.1.trans before

end

theorem uninterrupted_init (made : List KvpUpdate) (syncId recvId : Nat) :
    Uninterrupted made syncId ⟨.init recvId, []⟩ where
  sound := ⟨init_sound _ recvId, nofun, nofun, nofun,
    fun _ _ newest => absurd newest.member not_mem_nil⟩
  heard := nofun
  deletions := nofun
  flushed := nofun

end Hearing

/-! ### The cache of the sender -/

namespace KvpsyncSend

/-- The key and the value are in the cache. -/
def Caches (s : KvpsyncSend) (key val : Bytes) : Prop :=
  ∃ id ∈ s.cache, (s.data id).update.body = .insert key val

theorem caches_iff {s : KvpsyncSend} (sound : SendSound s) (sent : s.syncSent = true)
    (key val : Bytes) : s.Caches key val ↔
      ∃ update, Newest s.made s.syncId key update ∧ update.body = .insert key val := by
  have ready : ¬s.outline.syncSent = false := fun none => Bool.noConfusion (sent.symm.trans none)
  constructor
  · rintro ⟨id, mem, body⟩
    obtain ⟨name, newest⟩ := sound.sound.filled.contents id mem ready
    have same : name = key := by
      have about := newest.about
      rw [show (s.outline.core id).body = .insert key val from body] at about
      exact (Option.some.inj about).symm
    exact ⟨s.outline.core id, same ▸ newest, body⟩
  · rintro ⟨update, newest, body⟩
    obtain ⟨id, mem, -, stands⟩ := sound.sound.filled.absent key update newest (by rw [body]; rfl)
    refine ⟨id, mem, ?_⟩
    show (s.outline.core id).body = _
    rw [stands, body]

end KvpsyncSend

namespace Hearing

/-- The answer for a key, in the terms of the updates that were delivered, and when all were
delivered in the terms of the cache. -/
structure Reflects (s : KvpsyncSend) (syncId : Nat) (heard : List KvpUpdate) (key : Bytes)
    (negative answer : KvpAnswer) : Prop where
  newest : ∀ update, Newest heard syncId key update → answer = update.answer negative
  none : (∀ update ∈ heard, update.body.key ≠ some key) → answer = negative
  cache : syncId = s.syncId → (∀ update ∈ s.made, update.syncId = syncId → update ∈ heard) →
    ∀ val, answer = .value val ↔ s.Caches key val

/-- Within a sync, the order and the number of the deliveries do not matter once its flush is in. -/
theorem reflects_of_flush {now₀ syncId₀ : Nat} (random : syncId₀ ≠ 0 ∧ syncId₀ < 2 ^ 32)
    {stateCb : Bool} {calls : List SendEvent}
    (room : Run.Guarded KvpsyncSend.step KvpsyncSend.Room (.init now₀ syncId₀ stateCb) calls)
    {s : KvpsyncSend}
    (sender : Run.run KvpsyncSend.step (.init now₀ syncId₀ stateCb) calls = .ok s)
    {syncId recvId : Nat} {events : List HearingEvent}
    (packets : ∀ packet ∈ HearingEvent.packets events,
      packet.2.core ∈ s.made ∧ packet.2.syncId = syncId)
    (uncollected : Run.Guarded step Uncollected ⟨.init recvId, []⟩ events) {state : Hearing}
    (receiver : Run.run step ⟨.init recvId, []⟩ events = .ok state)
    (flushed : ∃ flush ∈ state.heard, flush.body = .flush) {now : Nat}
    (due : state.r.due now = []) (key : Bytes) :
    Reflects s syncId state.heard key (state.r.negative now) (state.r.getValue now key).1 := by
  have sending : SendSound s := (Run.Guarded.sat (fun _ _ sound room =>
    KvpsyncSend.step_sound sound room) (KvpsyncSend.init_sound now₀ random stateCb) room).of_ok sender
  have coherent := sending.sound.steady.coherent
  have kept : ∀ state event, Uninterrupted s.made syncId state → (Uncollected state event ∧
      ∀ now update, event = .packet now update → update.core ∈ s.made ∧ update.syncId = syncId) →
        Outcome.Sat (step state event) (Uninterrupted s.made syncId) fun _ => False :=
    fun state event good met => step_uninterrupted coherent good met.1 met.2
  have good := (Run.Guarded.sat kept (uninterrupted_init s.made syncId recvId)
    (uncollected.of_mem fun event mem now update same => packets (now, update)
      (mem_filterMap.mpr ⟨event, mem, same ▸ rfl⟩))).of_ok receiver
  obtain ⟨flush, mem, isFlush⟩ := flushed
  have synced := good.flushed flush mem isFlush
  obtain ⟨flushMade, flushSync⟩ := good.heard flush mem
  have positive : syncId ≠ 0 := flushSync ▸ sending.sound.steady.syncs flush flushMade
  have safe := good.sound.collectsSafely due
  have newest : ∀ update, Newest state.heard syncId key update →
      (state.r.getValue now key).1 = update.answer (state.r.negative now) := fun update newest =>
    getValue_newest_heard coherent good.sound synced positive safe newest
  have none : (∀ update ∈ state.heard, update.body.key ≠ some key) →
      (state.r.getValue now key).1 = state.r.negative now := fun none =>
    getValue_none_heard good.sound synced positive fun update mem _ => none update mem
  refine ⟨newest, none, fun current all val => ?_⟩
  subst current
  have done := (sending.phased.flushed flush flushMade isFlush).2.2 flushSync
  rw [KvpsyncSend.caches_iff sending (sending.phased.order.2.2.1 done)]
  have same : ∀ update, Newest state.heard s.syncId key update ↔ Newest s.made s.syncId key update := by
    intro update
    constructor
    · intro top
      exact ⟨(good.heard update top.member).1, top.sync, top.about, fun other mem sync about =>
        top.highest other (all other mem sync) sync about⟩
    · intro top
      exact ⟨all update top.member top.sync, top.sync, top.about, fun other mem sync about =>
        top.highest other (good.heard other mem).1 sync about⟩
  constructor
  · intro value
    by_cases found : ∃ other ∈ state.heard, other.body.key = some key
    · obtain ⟨other, mem, about⟩ := found
      obtain ⟨update, top⟩ := Newest.exists_newest mem (good.heard other mem).2 about
      rw [newest update top] at value
      by_cases insertion : update.body.isInsert
      · obtain ⟨name, val', body⟩ := KvpBody.insert_of_isInsert insertion
        have about := top.about
        unfold KvpUpdate.answer at value
        rw [body] at value about
        cases value
        cases about
        exact ⟨update, (same update).mp top, body⟩
      · rw [answer_of_not_insert insertion] at value
        exact absurd value (negative_cases state.r now val)
    · rw [none fun update mem about => found ⟨update, mem, about⟩] at value
      exact absurd value (negative_cases state.r now val)
  · rintro ⟨update, top, body⟩
    rw [newest update ((same update).mpr top)]
    unfold KvpUpdate.answer
    rw [body]

/-- A cache that is walked in the order of its objects. -/
def straight : HashWalk := ⟨id, List.Perm.refl⟩

/-- A receiver asks for a sync, and its sender has one key. -/
def oneKey : List SendEvent :=
  [.ack ⟨5, 0⟩ 0, .add 0 [1] [2] none, .run 0 straight, .ack ⟨8, 1⟩ 0, .run 0 straight,
    .ack ⟨8, 2⟩ 0, .run 0 straight]

/-- A flush that overtakes an insertion, which is duplicated. -/
theorem reflects_of_flush_first :
    ∃ s state, Run.run KvpsyncSend.step (.init 0 7 false) oneKey = .ok s ∧
      Run.run step ⟨.init 5, []⟩ [.packet 0 ⟨0, 8, 1, .start 5⟩, .packet 1 ⟨0, 8, 3, .flush⟩,
        .packet 2 ⟨0, 8, 2, .insert [1] [2]⟩, .packet 3 ⟨0, 8, 2, .insert [1] [2]⟩] = .ok state ∧
      Reflects s 8 state.heard [1] (state.r.negative 4) (state.r.getValue 4 [1]).1 :=
  ⟨_, _, rfl, rfl, @reflects_of_flush 0 7 (by decide) false oneKey (by decide) _ rfl 8 5
    [.packet 0 ⟨0, 8, 1, .start 5⟩, .packet 1 ⟨0, 8, 3, .flush⟩,
      .packet 2 ⟨0, 8, 2, .insert [1] [2]⟩, .packet 3 ⟨0, 8, 2, .insert [1] [2]⟩]
    (by decide) (by decide) _ rfl ⟨⟨0, 8, 3, .flush⟩, by decide, rfl⟩ 4 rfl [1]⟩

/-- Before the flush of its first sync a receiver serves nothing, whatever was delivered. -/
theorem reflects_fails : ¬∀ (now₀ syncId₀ : Nat) (_ : syncId₀ ≠ 0 ∧ syncId₀ < 2 ^ 32)
    (stateCb : Bool) (calls : List SendEvent)
    (_ : Run.Guarded KvpsyncSend.step KvpsyncSend.Room (.init now₀ syncId₀ stateCb) calls)
    (s : KvpsyncSend) (_ : Run.run KvpsyncSend.step (.init now₀ syncId₀ stateCb) calls = .ok s)
    (syncId recvId : Nat) (events : List HearingEvent)
    (_ : ∀ packet ∈ HearingEvent.packets events, packet.2.core ∈ s.made ∧ packet.2.syncId = syncId)
    (_ : Run.Guarded step Uncollected ⟨.init recvId, []⟩ events) (state : Hearing)
    (_ : Run.run step ⟨.init recvId, []⟩ events = .ok state) (now : Nat)
    (_ : state.r.due now = []) (key : Bytes),
    Reflects s syncId state.heard key (state.r.negative now) (state.r.getValue now key).1 := by
  intro always
  have reflects := always 0 7 (by decide) false oneKey (by decide) _ rfl 8 5
    [.packet 0 ⟨0, 8, 1, .start 5⟩, .packet 1 ⟨0, 8, 2, .insert [1] [2]⟩] (by decide) (by decide) _
    rfl 2 rfl [1]
  have newest := reflects.newest ⟨0, 8, 2, .insert [1] [2]⟩ ⟨by decide, rfl, rfl, by decide⟩
  exact absurd newest (by decide)

end Hearing

end Splintermail
