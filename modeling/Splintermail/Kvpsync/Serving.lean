/-
This file proves when a key whose insertion was acked is served.

The ack of an insertion says that the receiver has it, but the receiver answers by the
sync that it was flushed into last, which may be an older one. So what must hold when an
ack is processed is that this older sync has the key or is no longer confident. From then
on the flushes that the receiver may still follow are the only danger: a harmless one is of
the present sync, or the receiver has handled no insertion of a newer one, which the
insertion itself would be. A sync that ends has every key that it acked in its content or
after it, so nothing changes when the next one begins.
-/

import Splintermail.Kvpsync.Agreement
import Splintermail.Kvpsync.Keeping

namespace Splintermail

open KvpsyncRecv List

namespace Pair

variable {p next : Pair} {key : Bytes} {update : KvpUpdate} {r : KvpsyncRecv}

/-! ### Keys that are covered -/

theorem Has.hears {syncId : Nat} (has : p.Has syncId key) (r : KvpsyncRecv) (update : KvpUpdate) :
    (p.hears r update).Has syncId key := by
  obtain ⟨insertion, mem, rest⟩ := has
  exact ⟨insertion, .tail _ mem, rest⟩

theorem Passed.hears {syncId : Nat} (passed : p.Passed syncId) (r : KvpsyncRecv) (update : KvpUpdate) :
    (p.hears r update).Passed syncId := by
  obtain ⟨insertion, mem, rest⟩ := passed
  exact ⟨insertion, .tail _ mem, rest⟩

theorem Covered.stay (covered : p.Covered key) (sync : r.syncId = p.r.syncId)
    (expiry : p.Unsure → r.okExpiry ≤ p.now) : (p.hears r update).Covered key := by
  have floor : (p.hears r update).floor = p.floor := by
    unfold Pair.floor
    rw [show (p.hears r update).r.syncId = p.r.syncId from sync]
    rfl
  constructor
  · unfold Answers Unsure
    rw [show (p.hears r update).r.syncId = p.r.syncId from sync]
    refine covered.answers.imp_right (Or.imp_right (Or.imp (fun unsure => ?_) fun has => ?_))
    · exact ⟨expiry unsure, unsure.2⟩
    · exact has.hears r update
  · intro flush mem isFlush apart elsewhere newer
    rw [show (p.hears r update).r.syncId = p.r.syncId from sync] at elsewhere
    rw [floor] at newer
    exact (covered.ahead flush mem isFlush apart elsewhere newer).imp
      (fun passed => passed.hears r update) fun has => has.hears r update

theorem Covered.flush (covered : p.Covered key) (sound : p.Sound) (made : update.core ∈ p.made)
    (flush : update.body = .flush) (sync : r.syncId = update.syncId) (safe : p.FlushSafe update.syncId)
    (moves : update.syncId ≠ p.r.syncId) : (p.hears r update).Covered key := by
  have began := (sound.sent.began update.core made).1
  have floor : (p.hears r update).floor = p.age update.syncId := by
    unfold Pair.floor
    rw [show (p.hears r update).r.syncId = update.syncId from sync]
    exact if_neg (sound.sent.began update.core made).2
  constructor
  · unfold Answers
    rw [show (p.hears r update).r.syncId = update.syncId from sync]
    by_cases present : update.syncId = p.s.syncId
    · exact .inr (.inl present)
    · refine .inr (.inr (.inr (Has.hears ?_ r update)))
      exact (covered.ahead update.core made flush present moves safe.1).resolve_left safe.2
  · intro other mem isFlush apart elsewhere newer
    rw [floor] at newer
    have began' := (sound.sent.began other mem).1
    by_cases before : other.syncId = p.r.syncId
    · -- the sync that is left is older
      have synced : p.r.syncId ≠ 0 := before ▸ (sound.sent.began other mem).2
      have low := safe.1
      unfold Pair.floor at low
      rw [if_neg synced, ← before] at low
      refine absurd (age_inj began (Nat.le_antisymm newer low)) ?_
      rw [before]
      exact moves
    · exact (covered.ahead other mem isFlush apart before (Nat.le_trans safe.1 newer)).imp
        (fun passed => passed.hears r update) fun has => has.hears r update

theorem Covered.told (covered : p.Covered key) (sound : p.Sound) (mem : update ∈ p.net)
    (flushes : p.Flushes (.packet update)) (told : Told p update next) : next.Covered key := by
  cases told with
  | turnedDown => exact ⟨covered.answers, covered.ahead⟩
  | booted unacked start => exact covered.stay rfl And.left
  | taken r acked recv takes still recvId expiry =>
    have sync := sync_of_takes takes
    by_cases moves : update.body = .flush ∧ update.syncId ≠ p.r.syncId
    · rw [if_pos moves.1] at sync
      exact covered.flush sound (sound.sent.net update mem) moves.1 sync
        (sound.flushSafe flushes mem moves.1 acked) moves.2
    · refine covered.stay ?_ fun unsure => ?_
      · rw [sync]
        split
        · next flush => exact not_not.mp fun other => moves ⟨flush, other⟩
        · rfl
      · rw [expiry]
        split
        · next extends' =>
          have same : update.syncId = p.r.syncId :=
            extends'.elim id fun flush => not_not.mp fun other => moves ⟨flush, other⟩
          exact Nat.max_le.mpr ⟨unsure.2 update mem same, unsure.1⟩
        · exact unsure.1

theorem covered_restartRecv (sound : p.Sound) (recvId : Nat) (key : Bytes) :
    Covered { p with hearing := ⟨.init recvId, []⟩, born := p.syncs.length } key where
  answers := .inl rfl
  ahead flush mem _ _ _ newer :=
    absurd newer (Nat.not_le.mpr (idxOf_lt_length_of_mem (sound.sent.began flush mem).1))

/-- An insertion of the present sync that was acked. -/
theorem Sound.covered_of_ack (sound : p.Sound) (made : update ∈ p.made)
    (present : update.syncId = p.s.syncId) (ack : ⟨update.syncId, update.updateId⟩ ∈ p.acks)
    (insertion : update.body.isInsert) (answers : p.Answers update.body.name) :
    p.Covered update.body.name where
  answers := answers
  ahead flush mem isFlush apart elsewhere newer := by
    have older := sound.sent.age_lt (sound.sent.began flush mem).1 apart
    have born := sound.heard.born_le_floor
    refine .inl ⟨update, sound.answered.acks update made ack ?_, insertion, ?_⟩
    · rw [present]
      omega
    · rw [present]
      exact older

/-! ### Keys of the cache -/

/-- The callback of the object was run, or its update was acked in the present sync. -/
theorem Sound.has_present (sound : p.Sound) {id : Nat} (mem : id ∈ p.s.cache)
    (done : p.s.outline.added id ∨ p.s.outline.core id ∈ p.s.acked) {flush : KvpUpdate}
    (made : flush ∈ p.made) (isFlush : flush.body = .flush) (present : flush.syncId = p.s.syncId)
    (newer : p.born ≤ p.age p.s.syncId) : p.Has p.s.syncId (p.s.data id).key := by
  obtain ⟨sent, heard, answered⟩ := sound
  have mine : flush ∈ p.s.made := (mem_made.mp made).resolve_left fun before =>
    (sent.pastApart flush before).1 present
  obtain ⟨-, delivered, syncDone⟩ := sent.send.phased.flushed flush mine isFlush
  have sent' : p.s.outline.syncSent = true := sent.send.phased.order.2.2.1 (syncDone present)
  obtain ⟨name, newest⟩ := sent.send.sound.filled.contents id mem
    fun none => Bool.noConfusion (sent'.symm.trans none)
  have insertion := (sent.send.sound.steady.cached id mem).2
  have same : name = (p.s.data id).key := by
    have about := newest.about
    rw [KvpBody.key_of_isInsert insertion] at about
    exact (Option.some.inj about).symm
  have acked : p.s.outline.core id ∈ p.s.acked := by
    rcases done with added | acked
    · rcases sent.send.phased.served id mem added sent' with content | acked
      · exact delivered _ content (newest.sync.trans present.symm)
      · exact acked
    · exact acked
  have known : p.s.outline.core id ∈ p.made := mem_made.mpr (.inr newest.member)
  refine ⟨p.s.outline.core id, answered.acks _ known
    (answered.acked _ (mem_append_right _ acked)) ?_, ?_, insertion⟩
  · rw [newest.sync]
    exact newer
  · rw [← same]
    refine newest.of_subset (fun other inside => mem_made.mpr (.inr inside)) fun other inside sync => ?_
    exact (mem_made.mp inside).resolve_left fun before => (sent.pastApart other before).1 sync

/-! ### Steps -/

variable {event : PairEvent}

/-- A key stays covered, where a sync that ends has it if its flush was made. -/
theorem Covered.step (covered : p.Covered key) (sound : p.Sound) (fresh : p.Fresh event)
    (flushes : p.Flushes event) (stepped : p.step event = .ok next)
    (ends : p.s.syncId ≠ next.s.syncId → ∀ flush ∈ p.made, flush.body = .flush →
      flush.syncId = p.s.syncId → p.floor ≤ p.age p.s.syncId → p.Has p.s.syncId key) :
    next.Covered key := by
  have calls : Call p next → next.Covered key := fun call =>
    covered.moves sound.heard sound.sent (sound.call call).2 ends
  cases event with
  | wait time =>
    cases stepped
    refine ⟨covered.answers.imp_right (Or.imp_right (Or.imp_left fun unsure => ?_)), covered.ahead⟩
    exact ⟨Nat.le_add_right_of_le unsure.1, fun pkt mem sync =>
      Nat.le_add_right_of_le (unsure.2 pkt mem sync)⟩
  | add key' val cb =>
    cases stepped
    exact calls (call_add sound.sent fresh)
  | delete key' =>
    cases stepped
    exact calls (call_delete sound.sent fresh)
  | run walk =>
    cases stepped
    exact calls (call_run sound.sent fresh)
  | ack ack =>
    by_cases mem : ack ∈ p.acks
    · rw [show p.step (.ack ack) = .ok (p.afterAck ack) from if_pos mem] at stepped
      cases stepped
      exact covered.moves sound.heard sound.sent (moves_ack sound.sent mem fresh) ends
    · rw [show p.step (.ack ack) = .ok p from if_neg mem] at stepped
      cases stepped
      exact covered
  | packet update =>
    by_cases mem : update ∈ p.net
    · obtain ⟨after, outcome, told⟩ := step_packet sound mem
      rw [outcome] at stepped
      cases stepped
      exact covered.told sound mem flushes told
    · rw [show p.step (.packet update) = .ok p from if_neg mem] at stepped
      cases stepped
      exact covered
  | lookup key' =>
    cases stepped
    show Covered { p with hearing.r := (p.r.getValue p.now key').2 } key
    rw [getValue_snd]
    exact ⟨covered.answers, covered.ahead⟩
  | restartSend syncId stateCb =>
    cases stepped
    exact covered.moves sound.heard sound.sent (moves_restart stateCb fresh.2) ends
  | restartRecv recvId =>
    cases stepped
    exact covered_restartRecv sound recvId key

/-- Where a step leaves the sender alone, or the sender processes an ack, or makes updates. -/
inductive Touches (p : Pair) (event : PairEvent) (next : Pair) : Prop where
  | none (same : next.s = p.s)
  | call (call : Call p next)
  | ack (ack : KvpAck) (itself : event = .ack ack) (mem : ack ∈ p.acks) (acking : Acking p ack next)
  | restart (syncId : Nat) (stateCb : Bool) (same : next.s = .init p.now syncId stateCb)

theorem touches (sound : p.Sound) (fresh : p.Fresh event) (stepped : p.step event = .ok next) :
    Touches p event next := by
  cases event with
  | wait time =>
    cases stepped
    exact .none rfl
  | add key val cb =>
    cases stepped
    exact .call (call_add sound.sent fresh)
  | delete key =>
    cases stepped
    exact .call (call_delete sound.sent fresh)
  | run walk =>
    cases stepped
    exact .call (call_run sound.sent fresh)
  | ack ack =>
    by_cases mem : ack ∈ p.acks
    · rw [show p.step (.ack ack) = .ok (p.afterAck ack) from if_pos mem] at stepped
      cases stepped
      exact .ack ack rfl mem (acking sound.sent ack fresh)
    · rw [show p.step (.ack ack) = .ok p from if_neg mem] at stepped
      cases stepped
      exact .none rfl
  | packet update =>
    refine .none ?_
    unfold step at stepped
    dsimp only at stepped
    split at stepped
    · cases stepped
      rfl
    · cases stepped
      rfl
  | lookup key =>
    cases stepped
    exact .none rfl
  | restartSend syncId stateCb =>
    cases stepped
    exact .restart syncId stateCb rfl
  | restartRecv recvId =>
    cases stepped
    exact .none rfl

/-- The keys whose callbacks were run are covered. -/
def Announced (p : Pair) : Prop :=
  ∀ id ∈ p.s.cache, p.s.outline.added id → p.Covered (p.s.data id).key

/-- The keys that were acked in the present sync are covered. -/
def Acknowledged (p : Pair) : Prop :=
  ∀ update ∈ p.s.acked, update.syncId = p.s.syncId → update.body.isInsert →
    p.Covered update.body.name

/-- The object of the first ack for an update. -/
theorem Sound.covered_of_first (sound : p.Sound) {ack : KvpAck} (mem : ack ∈ p.acks)
    {id : Nat} (listed : id ∈ p.s.unacked) (same : ack.syncId = p.s.syncId)
    (number : (p.s.data id).update.updateId = ack.updateId)
    (insertion : (p.s.outline.core id).body.isInsert) (answers : p.Answers (p.s.data id).key) :
    p.Covered (p.s.data id).key := by
  obtain ⟨made, sync, -⟩ := sound.sent.send.sound.steady.queued id (.inr listed)
  refine @Sound.covered_of_ack p (p.s.outline.core id) sound (mem_made.mpr (.inr made)) sync ?_
    insertion answers
  rw [sync, show (p.s.outline.core id).updateId = ack.updateId from number,
    show p.s.outline.syncId = ack.syncId from same.symm]
  exact mem

theorem announced_step (sound : p.Sound) (announced : p.Announced) (fresh : p.Fresh event)
    (flushes : p.Flushes event) (announces : p.Announces event)
    (stepped : p.step event = .ok next) : next.Announced := by
  intro id mem added
  -- the key was covered before, and a sync that ends has it
  have before : id ∈ p.s.cache → p.s.outline.added id → (next.s.data id).key = (p.s.data id).key →
      next.Covered (next.s.data id).key := fun inside done same => by
    rw [same]
    exact (announced id inside done).step sound fresh flushes stepped fun _ flush made isFlush present newer =>
      sound.has_present inside (.inl done) made isFlush present
        (Nat.le_trans sound.heard.born_le_floor newer)
  have unchanged : next.s.outline = p.s.outline → next.Covered (next.s.data id).key := fun same => by
    have added' : p.s.outline.added id := same ▸ added
    have cache : next.s.cache = p.s.cache := congrArg Outline.cache same
    exact before (cache ▸ mem) added' (congrArg (fun o => (o.core id).body.name) same)
  cases touches sound fresh stepped with
  | none same => exact unchanged (same ▸ rfl)
  | call call =>
    cases call with
    | made s pkts send grows packets =>
      have added' : p.s.outline.added id := grows.added ▸ added
      have exist := sound.sent.send.phased.addedExist id added'
      exact before (grows.cache id mem exist) added' (congrArg KvpBody.name (grows.bodies id exist))
  | restart syncId stateCb same =>
    rw [same] at mem
    exact absurd mem not_mem_nil
  | ack ack itself acked acking =>
    cases acking with
    | quiet outline => exact unchanged outline
    | resync outline =>
      have added' : (p.s.outline.resync ack.syncId).added id := outline ▸ added
      have cache : next.s.cache = p.s.cache := congrArg Outline.cache outline
      exact before (cache ▸ mem) added' (congrArg (fun o => (o.core id).body.name) outline)
    | first other listed same number outline =>
      have added' : (p.s.outline.ackOf other).added id := outline ▸ added
      have cache : next.s.cache = p.s.cache := congrArg Outline.cache outline
      have key : (next.s.data id).key = (p.s.data id).key :=
        congrArg (fun o => (o.core id).body.name) outline
      have sync : next.s.syncId = p.s.syncId := congrArg Outline.syncId outline
      rw [cache] at mem
      rcases added' with done | ⟨rfl, callback⟩
      · exact before mem done key
      · subst itself
        have covered := sound.covered_of_first acked listed same number
          (sound.sent.send.sound.steady.cached id mem).2 (announces acked same id listed number callback)
        rw [key]
        exact covered.step sound fresh flushes stepped fun ends => absurd sync.symm ends

theorem acknowledged_step (sound : p.Sound) (acknowledged : p.Acknowledged) (fresh : p.Fresh event)
    (flushes : p.Flushes event) (acks : p.Acks event) (stepped : p.step event = .ok next) :
    next.Acknowledged := by
  intro update mem present insertion
  have before : next.s.syncId = p.s.syncId → p.Covered update.body.name →
      next.Covered update.body.name := fun sync covered =>
    covered.step sound fresh flushes stepped fun ends => absurd sync.symm ends
  have unchanged : next.s.acked = p.s.acked → next.s.syncId = p.s.syncId →
      next.Covered update.body.name := fun acked sync =>
    before sync (acknowledged update (acked ▸ mem) (present.trans sync) insertion)
  cases touches sound fresh stepped with
  | none same => exact unchanged (congrArg _ same) (congrArg _ same)
  | call call =>
    cases call with
    | made s pkts send grows packets => exact unchanged grows.acked grows.same.1
  | restart syncId stateCb same =>
    rw [same] at mem
    exact absurd mem not_mem_nil
  | ack ack itself acked acking =>
    subst itself
    cases acking with
    | quiet outline => exact unchanged (congrArg Outline.acked outline) (congrArg Outline.syncId outline)
    | resync outline =>
      have same : next.s.acked = p.s.acked := congrArg Outline.acked outline
      have sync : next.s.syncId = KvpsyncSend.nextSyncId p.s.syncId := congrArg Outline.syncId outline
      have made := sound.sent.ackedMade update (mem_append_right _ (same ▸ mem))
      refine absurd (sound.sent.began update made).1 ?_
      rw [present, sync]
      exact fresh
    | first id listed same number outline =>
      have list : next.s.acked = p.s.acked ++ [p.s.outline.core id] := congrArg Outline.acked outline
      have sync : next.s.syncId = p.s.syncId := congrArg Outline.syncId outline
      rw [list] at mem
      rcases mem_append.mp mem with inside | itself
      · exact before sync (acknowledged update inside (present.trans sync) insertion)
      · obtain rfl := mem_singleton.mp itself
        exact before sync (sound.covered_of_first acked listed same number insertion
          (acks acked same id listed number insertion))

/-! ### Lookups -/

theorem getValue_null {r : KvpsyncRecv} {now : Nat} (null : (r.getValue now key).1 = .null) :
    now < r.okExpiry ∧ r.syncId ≠ 0 := by
  constructor
  · by_contra late
    have negative : (r.doGc now).negative now = .unsure := if_neg late
    unfold getValue at null
    dsimp only at null
    rw [negative] at null
    split at null
    · cases null
    · split at null
      · cases null
      · split at null
        · cases null
        · cases null
  · intro none
    rw [getValue_zero none] at null
    cases null

theorem Sound.serves (sound : p.Sound) (synced : p.r.syncId ≠ 0) (has : p.Has p.r.syncId key) :
    ∃ val, (p.r.getValue p.now key).1 = .value val := by
  obtain ⟨sent, heard, -⟩ := sound
  obtain ⟨update, mem, newest, insertion⟩ := has
  obtain ⟨name, val, body⟩ := KvpBody.insert_of_isInsert insertion
  have inside : update ∈ p.r.held := by
    rcases heard.inserted update mem insertion (.inr (by rw [newest.sync])) with
      inside | ⟨deletion, there, names⟩
    · exact inside
    · have made := heard.heard deletion there
      obtain ⟨alike, above⟩ := sent.coherent.names made names
      exact absurd (newest.below made alike) (Nat.not_le.mpr above)
  have top : Newest (p.r.doGc p.now).held p.r.syncId key update := {
    member := insert_held_doGc heard.recv p.now body inside
    sync := newest.sync
    about := newest.about
    highest := fun other held sync about => newest.highest other
      (heard.recv.known other ((held_doGc_sublist p.r p.now).mem held)) sync about }
  refine ⟨val, ?_⟩
  rw [getValue_newest sent.coherent heard.recv synced top]
  unfold KvpUpdate.answer
  rw [body]

/-- A covered key of the cache is not denied, if its callback was run or it was acked in the present
sync. -/
theorem Sound.not_null (sound : p.Sound) {id : Nat} (mem : id ∈ p.s.cache)
    (done : p.s.outline.added id ∨ p.s.outline.core id ∈ p.s.acked)
    (covered : p.Covered (p.s.data id).key) : (p.r.getValue p.now (p.s.data id).key).1 ≠ .null := by
  intro null
  obtain ⟨confident, synced⟩ := getValue_null null
  have has : p.Has p.r.syncId (p.s.data id).key := by
    rcases covered.answers with none | present | unsure | has
    · exact absurd none synced
    · obtain ⟨newer, flush, inside, isFlush, same⟩ := sound.heard.synced synced
      rw [present] at newer same ⊢
      exact sound.has_present mem done (sound.heard.heard flush inside) isFlush same newer
    · exact absurd unsure.1 (Nat.not_le.mpr confident)
    · exact has
  obtain ⟨val, value⟩ := sound.serves synced has
  rw [value] at null
  cases null

/-! ### Runs -/

/-- A key that is cached, and whose callback was run, is not denied. -/
def ServesAdded (p : Pair) : Prop :=
  ∀ id ∈ p.s.cache, ∀ cb, .added id cb ∈ p.s.calls →
    (p.r.getValue p.now (p.s.data id).key).1 ≠ .null

theorem step_announced (good : p.Sound ∧ p.Announced)
    (met : p.Fresh event ∧ p.Flushes event ∧ p.Announces event) :
    Outcome.Sat (p.step event) (fun next => next.Sound ∧ next.Announced) fun _ => False := by
  obtain ⟨fresh, flushes, announces⟩ := met
  have sound := step_sound good.1 fresh flushes
  cases stepped : p.step event with
  | error fault => exact nomatch fault
  | ok next =>
    rw [stepped] at sound
    exact ⟨sound, announced_step good.1 good.2 fresh flushes announces stepped⟩

/-- What was added is served, as long as every flush of an earlier sync is harmless and no callback is
run for a key while the receiver denies it. -/
theorem servesAdded_of_guarded {now syncId recvId : Nat} (random : syncId ≠ 0 ∧ syncId < 2 ^ 32)
    {stateCb : Bool} {events : List PairEvent}
    (guarded : Run.Guarded step (fun p event => p.Fresh event ∧ p.Flushes event ∧ p.Announces event)
      (start now syncId stateCb recvId) events)
    (reached : Run.run step (start now syncId stateCb recvId) events = .ok p) : p.ServesAdded := by
  have begins : (start now syncId stateCb recvId).Sound ∧ (start now syncId stateCb recvId).Announced :=
    ⟨start_sound now random stateCb recvId, nofun⟩
  have good := (Run.Guarded.sat (fun _ _ => step_announced) begins guarded).of_ok reached
  intro id mem cb call
  exact good.1.not_null mem (.inl ⟨cb, call⟩) (good.2 id mem ⟨cb, call⟩)

/-- A receiver is started and flushed into its first sync, which has no keys. -/
def firstSync : List PairEvent :=
  [.run Hearing.straight, .packet ⟨0, 7, 1, .start 0⟩, .ack ⟨5, 0⟩, .run Hearing.straight,
    .packet ⟨0, 8, 1, .start 5⟩, .ack ⟨8, 1⟩, .run Hearing.straight,
    .packet ⟨15000000001, 8, 2, .flush⟩, .ack ⟨8, 2⟩]

/-- The sender is restarted and adds a key. -/
def secondSync : List PairEvent :=
  [.restartSend 20 false, .run Hearing.straight, .packet ⟨0, 20, 1, .start 0⟩, .ack ⟨20, 1⟩,
    .add [1] [2] (some 3), .run Hearing.straight, .packet ⟨0, 20, 2, .insert [1] [2]⟩]

/-- The sender is restarted when the receiver is no longer confident. -/
theorem servesAdded_of_guarded_later :
    ∃ p, Run.run step (start 1 7 false 5)
        (firstSync ++ .wait (2 * minResponse) :: secondSync ++ [.ack ⟨20, 2⟩]) = .ok p ∧
      p.s.calls = [.added 1 3] ∧ p.ServesAdded :=
  ⟨_, rfl, by decide, @servesAdded_of_guarded _ 1 7 5 (by decide) false
    (firstSync ++ .wait (2 * minResponse) :: secondSync ++ [.ack ⟨20, 2⟩]) (by decide) rfl⟩

/-- The receiver still answers by the sync of a sender that was restarted. -/
theorem servesAdded_fails : ¬∀ (now syncId recvId : Nat) (_ : syncId ≠ 0 ∧ syncId < 2 ^ 32)
    (stateCb : Bool) (events : List PairEvent)
    (_ : Run.Guarded step Fresh (start now syncId stateCb recvId) events) (p : Pair)
    (_ : Run.run step (start now syncId stateCb recvId) events = .ok p), p.ServesAdded := by
  intro always
  have serves := always 1 7 5 (by decide) false (firstSync ++ secondSync ++ [.ack ⟨20, 2⟩]) (by decide) _ rfl
  exact serves 1 (by decide) 3 (by decide) (by decide)

end Pair

end Splintermail
