/-
This file proves what packets of earlier syncs cannot undo.

An update of an earlier sync finds nothing of its own sync among the data of a newer one,
unless it is a flush. A flush is followed whatever the receiver knows of its sync, so
that the condition is again that it is harmless. Then its start and the content of its
sync, which were acked before it was made, were handled by this receiver, and nothing that
was handled since then has removed an insertion but its deletion.
-/

import Splintermail.Kvpsync.Serving

namespace Splintermail

open KvpsyncRecv

namespace Pair

variable {p next : Pair} {update : KvpUpdate}

/-- The receiver has seen the start of the sync, holds the insertions of its content that were not
deleted, and was in no newer sync. -/
structure Ready (p : Pair) (r : KvpsyncRecv) : Prop where
  started : ∃ start ∈ p.hearing.heard, start.syncId = r.syncId ∧ start.body.isStart
  content : ∀ update ∈ p.content, update.syncId = r.syncId →
    update ∈ r.held ∨ ∃ deletion ∈ p.hearing.heard, deletion.Names update
  newer : p.r.syncId ≠ 0 → p.age p.r.syncId < p.age r.syncId

/-- A key that is cached and was acked in the present sync is not denied. -/
def ServesAcked (p : Pair) : Prop :=
  ∀ id ∈ p.s.cache, p.s.outline.core id ∈ p.s.acked → (p.s.outline.core id).syncId = p.s.syncId →
    (p.r.getValue p.now (p.s.data id).key).1 ≠ .null

/-- The receiver moves only to a sync that it is ready for, an update of an earlier sync discards
nothing of the sync it is in, and what was acked is served. -/
structure Undisturbed (p : Pair) (event : PairEvent) (next : Pair) : Prop where
  moved : next.r.syncId ≠ p.r.syncId → (∃ recvId, event = .restartRecv recvId) ∨ p.Ready next.r
  kept : ∀ update, event = .packet update → p.r.syncId ≠ 0 →
    p.age update.syncId < p.age p.r.syncId →
      ∀ other ∈ p.r.lasting p.now, other.syncId = p.r.syncId → other ∈ next.r.held
  served : next.ServesAcked

theorem Sound.heard_of_acked (sound : p.Sound) (acked : update ∈ p.acked)
    (newer : p.born ≤ p.age update.syncId) : update ∈ p.hearing.heard :=
  sound.answered.acks update (sound.sent.ackedMade update acked) (sound.answered.acked update acked) newer

/-- The receiver is ready for a harmless flush. -/
theorem Sound.ready (sound : p.Sound) {r : KvpsyncRecv} (made : update.core ∈ p.made)
    (flush : update.body = .flush) (safe : p.FlushSafe update.syncId)
    (takes : Takes update (p.r.doGc p.now).held p.r r) (moved : r.syncId ≠ p.r.syncId) :
    p.Ready r := by
  have sync : r.syncId = update.syncId := (sync_of_takes takes).trans (if_pos flush)
  have born := Nat.le_trans sound.heard.born_le_floor safe.1
  obtain ⟨⟨start, acked, same, kind⟩, delivered⟩ := sound.sent.flushed update.core made flush
  have older : p.r.syncId = 0 ∨ p.age p.r.syncId ≤ p.age update.syncId := by
    have low := safe.1
    unfold Pair.floor at low
    split at low
    · next none => exact .inl none
    · exact .inr low
  have began := (sound.sent.began update.core made).1
  constructor
  · have same' : start.syncId = update.syncId := same
    refine ⟨start, sound.heard_of_acked acked ?_, same'.trans sync.symm, kind⟩
    rw [same']
    exact born
  · intro other content same'
    have insertion := (sound.sent.contentMade other content).2
    obtain ⟨key, val, body⟩ := KvpBody.insert_of_isInsert insertion
    rw [sync] at same'
    have heard : other ∈ p.hearing.heard := by
      refine sound.heard_of_acked (delivered other content same') ?_
      rw [same']
      exact born
    rcases sound.heard.inserted other heard insertion (same' ▸ older) with inside | named
    · have kept := insert_held_doGc sound.heard.recv p.now body inside
      refine (takes_keeps takes kept fun _ => same').imp_right fun names => ?_
      obtain ⟨-, _, -, deletion⟩ := names
      exact absurd (flush.symm.trans deletion) nofun
    · exact .inr named
  · intro synced
    rw [sync] at moved ⊢
    exact Nat.lt_of_le_of_ne (older.resolve_left synced) fun same' => moved (age_inj began same'.symm)

theorem undisturbed_packet (sound : p.Sound) (mem : update ∈ p.net)
    (flushes : p.Flushes (.packet update)) (told : Told p update next) :
    (next.r.syncId ≠ p.r.syncId → p.Ready next.r) ∧
      (p.r.syncId ≠ 0 → p.age update.syncId < p.age p.r.syncId →
        ∀ other ∈ p.r.lasting p.now, other.syncId = p.r.syncId → other ∈ next.r.held) := by
  have lasts : ∀ other ∈ p.r.lasting p.now, other ∈ (p.r.doGc p.now).held := fun other =>
    (mem_lasting sound.heard.recv).mp
  cases told with
  | turnedDown =>
    exact ⟨fun moved => absurd rfl moved, fun _ _ other inside _ =>
      (held_doGc_sublist p.r p.now).mem (lasts other inside)⟩
  | booted unacked start =>
    exact ⟨fun moved => absurd rfl moved, fun _ _ other inside _ =>
      (held_doGc_sublist p.r p.now).mem (lasts other inside)⟩
  | taken r acked recv takes still recvId expiry =>
    have sync := sync_of_takes takes
    constructor
    · intro moved
      have moved' : r.syncId ≠ p.r.syncId := moved
      by_cases flush : update.body = .flush
      · exact sound.ready (sound.sent.net update mem) flush
          (sound.flushSafe flushes mem flush acked) takes moved'
      · exact absurd (sync.trans (if_neg flush)) moved'
    · intro synced older other inside same
      have keeps := takes_keeps takes (lasts other inside) fun flush => by
        -- such a flush would be of an earlier sync
        have low := (sound.flushSafe flushes mem flush acked).1
        unfold Pair.floor at low
        rw [if_neg synced] at low
        exact absurd older (Nat.not_lt.mpr low)
      refine keeps.resolve_right fun names => ?_
      have same' : update.syncId = p.r.syncId := names.1.trans same
      rw [same'] at older
      exact Nat.lt_irrefl _ older

theorem step_acknowledged {event : PairEvent} (good : p.Sound ∧ p.Acknowledged)
    (met : p.Fresh event ∧ p.Flushes event ∧ p.Acks event) :
    Outcome.Sat (p.step event) (fun next => next.Sound ∧ next.Acknowledged) fun _ => False := by
  obtain ⟨fresh, flushes, acks⟩ := met
  have sound := step_sound good.1 fresh flushes
  cases stepped : p.step event with
  | error fault => exact nomatch fault
  | ok next =>
    rw [stepped] at sound
    exact ⟨sound, acknowledged_step good.1 good.2 fresh flushes acks stepped⟩

theorem undisturbed_step {event : PairEvent} (good : p.Sound ∧ p.Acknowledged)
    (met : p.Fresh event ∧ p.Flushes event ∧ p.Acks event) (stepped : p.step event = .ok next) :
    p.Undisturbed event next := by
  have good' := (step_acknowledged good met).of_ok stepped
  have served : next.ServesAcked := fun id mem acked present =>
    good'.1.not_null mem (.inr acked)
      (good'.2 (next.s.outline.core id) acked present (good'.1.sent.send.sound.steady.cached id mem).2)
  cases event with
  | packet update =>
    by_cases mem : update ∈ p.net
    · obtain ⟨after, outcome, told⟩ := step_packet good.1 mem
      rw [outcome] at stepped
      cases stepped
      obtain ⟨moved, kept⟩ := undisturbed_packet good.1 mem met.2.1 told
      refine ⟨fun other => .inr (moved other), fun packet same => ?_, served⟩
      cases same
      exact kept
    · rw [show p.step (.packet update) = .ok p from if_neg mem] at stepped
      cases stepped
      exact ⟨fun moved => absurd rfl moved, fun _ _ _ _ other inside _ =>
        (held_doGc_sublist p.r p.now).mem ((mem_lasting good.1.heard.recv).mp inside), served⟩
  | restartRecv recvId => exact ⟨fun _ => .inl ⟨recvId, rfl⟩, nofun, served⟩
  | ack ack =>
    refine ⟨fun moved => absurd ?_ moved, nofun, served⟩
    unfold step at stepped
    dsimp only at stepped
    split at stepped
    · cases stepped
      rfl
    · cases stepped
      rfl
  | lookup key =>
    cases stepped
    refine ⟨fun moved => absurd ?_ moved, nofun, served⟩
    show (p.r.getValue p.now key).2.syncId = p.r.syncId
    rw [getValue_snd, doGc_syncId]
  | wait time =>
    cases stepped
    exact ⟨fun moved => absurd rfl moved, nofun, served⟩
  | add key val cb =>
    cases stepped
    exact ⟨fun moved => absurd rfl moved, nofun, served⟩
  | delete key =>
    cases stepped
    exact ⟨fun moved => absurd rfl moved, nofun, served⟩
  | run walk =>
    cases stepped
    exact ⟨fun moved => absurd rfl moved, nofun, served⟩
  | restartSend syncId stateCb =>
    cases stepped
    exact ⟨fun moved => absurd rfl moved, nofun, served⟩

/-- Packets of earlier syncs undo nothing, as long as every flush of an earlier sync is harmless and no
ack of a key is processed while the receiver denies it. -/
theorem undisturbed_of_guarded {now syncId recvId : Nat} (random : syncId ≠ 0 ∧ syncId < 2 ^ 32)
    {stateCb : Bool} {events : List PairEvent}
    (guarded : Run.Guarded step (fun p event => p.Fresh event ∧ p.Flushes event ∧ p.Acks event)
      (start now syncId stateCb recvId) events) :
    Run.Throughout step Undisturbed (start now syncId stateCb recvId) events := by
  have begins : (start now syncId stateCb recvId).Sound ∧
      (start now syncId stateCb recvId).Acknowledged :=
    ⟨start_sound now random stateCb recvId, nofun⟩
  exact Run.Guarded.throughout (fun _ _ => step_acknowledged)
    (fun _ _ good met _ => undisturbed_step good met) begins guarded

/-- After a restart of the sender its sync is flushed, and an old insertion and the flush come twice. -/
theorem undisturbed_of_guarded_duplicate :
    Run.Throughout step Undisturbed (start 1 7 false 5)
      (firstSync ++ .wait (2 * minResponse) :: secondSync ++ [.ack ⟨20, 2⟩, .run Hearing.straight,
        .packet ⟨45000000001, 20, 3, .flush⟩, .packet ⟨0, 20, 2, .insert [1] [2]⟩,
        .packet ⟨0, 8, 1, .start 5⟩, .packet ⟨45000000001, 20, 3, .flush⟩]) :=
  @undisturbed_of_guarded 1 7 5 (by decide) false
    (firstSync ++ .wait (2 * minResponse) :: secondSync ++ [.ack ⟨20, 2⟩, .run Hearing.straight,
      .packet ⟨45000000001, 20, 3, .flush⟩, .packet ⟨0, 20, 2, .insert [1] [2]⟩,
      .packet ⟨0, 8, 1, .start 5⟩, .packet ⟨45000000001, 20, 3, .flush⟩]) (by decide)

/-- A second copy of the flush of an earlier sync takes the receiver back to it. -/
theorem undisturbed_fails : ¬∀ (now syncId recvId : Nat) (_ : syncId ≠ 0 ∧ syncId < 2 ^ 32)
    (stateCb : Bool) (events : List PairEvent)
    (_ : Run.Guarded step Fresh (start now syncId stateCb recvId) events),
    Run.Throughout step Undisturbed (start now syncId stateCb recvId) events := by
  intro always
  have relation := always 1 7 5 (by decide) false (firstSync ++ secondSync ++ [.ack ⟨20, 2⟩,
    .run Hearing.straight, .packet ⟨15000000001, 20, 3, .flush⟩,
    .packet ⟨15000000001, 8, 2, .flush⟩]) (by decide)
  have undisturbed := relation (firstSync ++ secondSync ++ [.ack ⟨20, 2⟩, .run Hearing.straight,
    .packet ⟨15000000001, 20, 3, .flush⟩]) (.packet ⟨15000000001, 8, 2, .flush⟩) [] rfl _ rfl _ rfl
  rcases undisturbed.moved (by decide) with ⟨_, restart⟩ | ready
  · cases restart
  · exact absurd (ready.newer (by decide)) (by decide)

end Pair

end Splintermail
