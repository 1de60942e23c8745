/-
This file proves what holds of a sender of kvpsync in every run of calls.

Every call but a deletion comes with a time, and time does not go back. Two conditions are
those of the code: a key that does not fit in a packet aborts the program, and the numbers
of a sync are used up after `2 ^ 32` updates.
-/

import Splintermail.Kvpsync.Bookkeeping

namespace Splintermail

open List KvpsyncSend

/-- A sender, and the time of the last call. -/
structure TimedSend where
  s : KvpsyncSend
  now : Nat

/-- The time of a call; a deletion needs none. -/
def SendEvent.time (now : Nat) : SendEvent → Nat
  | .add later _ _ _ => later
  | .delete _ => now
  | .ack _ later => later
  | .run later _ => later

/-- A key and its value fit in a packet, or the call aborts. -/
def SendEvent.Short : SendEvent → Prop
  | .add _ key val _ => key.length ≤ kvpsyncMaxLen ∧ val.length ≤ kvpsyncMaxLen
  | _ => True

instance (event : SendEvent) : Decidable event.Short :=
  match event with
  | .add _ key val _ =>
    inferInstanceAs (Decidable (key.length ≤ kvpsyncMaxLen ∧ val.length ≤ kvpsyncMaxLen))
  | .delete _ => isTrue trivial
  | .ack _ _ => isTrue trivial
  | .run _ _ => isTrue trivial

namespace KvpsyncSend

variable {s after : KvpsyncSend} {event : SendEvent} {now later : Nat} {limit : Option Nat}

/-- A run that returns no packet tells a time that is still to come. -/
def Awaits (s : KvpsyncSend) (event : SendEvent) : Prop :=
  ∀ now walk, event = .run now walk → (s.run now walk).2.pkt = none →
    now < (s.run now walk).2.deadline

theorem Kept.mono {held : Nat → Nat} (kept : s.Kept held limit now) (le : now ≤ later) :
    s.Kept held limit later := { kept with ordered := kept.ordered.mono le }

/-- Every call keeps the books. -/
theorem step_kept (kept : s.Kept unheld limit now) (waiting : s.Waiting)
    (time : now ≤ event.time now)
    (fine : ∀ later key val cb, event = .add later key val cb →
      (s.newInsert later key val cb).fatal = false)
    (stepped : s.step event = .ok after) (room : after.Within limit) :
    after.Kept unheld limit (event.time now) ∧ after.Waiting ∧ s.Awaits event := by
  cases event with
  | add later key val cb =>
    cases stepped
    obtain ⟨kept, waiting⟩ := addKey_books (kept.mono time) waiting (fine later key val cb rfl) room
    exact ⟨kept, waiting, nofun⟩
  | delete key =>
    cases stepped
    obtain ⟨kept, waiting⟩ := deleteKey_books kept waiting room
    exact ⟨kept, waiting, nofun⟩
  | ack ack later =>
    cases stepped
    obtain ⟨kept, waiting⟩ := @handleAckBody_books s later limit ack (kept.mono time) waiting later
    exact ⟨kept.maybeStateCb, waiting.of_outline (outline_maybeStateCb _), nofun⟩
  | run later walk =>
    cases stepped
    obtain ⟨kept, waiting, awaits⟩ := runBody_books (kept.mono time) waiting walk
      (room.before (still_maybeStateCb _ later).toGrows)
    refine ⟨kept.maybeStateCb, waiting.of_outline (outline_maybeStateCb _), ?_⟩
    rintro _ _ same
    cases same
    exact awaits

end KvpsyncSend

namespace TimedSend

def start (now syncId : Nat) (stateCb : Bool) : TimedSend := ⟨.init now syncId stateCb, now⟩

def step (t : TimedSend) (event : SendEvent) : Except Empty TimedSend :=
  t.s.step event >>= fun next => .ok ⟨next, event.time t.now⟩

/-- Time does not go back, keys fit in packets, and no sync has `2 ^ 32` updates. -/
structure Allowed (t : TimedSend) (event : SendEvent) : Prop where
  time : t.now ≤ event.time t.now
  short : event.Short
  numbers : Outcome.Sat (t.s.step event)
    (fun next => t.s.updateId + (next.made.length - t.s.made.length) < 2 ^ 32) fun _ => True

instance (t : TimedSend) (event : SendEvent) : Decidable (t.Allowed event) :=
  decidable_of_iff (t.now ≤ event.time t.now ∧ event.Short ∧ Outcome.Sat (t.s.step event)
      (fun next => t.s.updateId + (next.made.length - t.s.made.length) < 2 ^ 32) fun _ => True)
    ⟨fun all => ⟨all.1, all.2.1, all.2.2⟩, fun allowed => ⟨allowed.time, allowed.short, allowed.numbers⟩⟩

/-- What the sender keeps between two calls. -/
structure Sound (t : TimedSend) : Prop where
  kept : t.s.Kept unheld (some t.s.made.length) t.now
  waiting : t.s.Waiting

theorem start_sound (now syncId : Nat) (stateCb : Bool) : (start now syncId stateCb).Sound := by
  have unlisted : ∀ id, ¬(start now syncId stateCb).s.Listed id := fun id listed =>
    listed.elim not_mem_nil not_mem_nil
  refine ⟨⟨⟨nodup_nil, fun id => ?_, rfl, fun id exist => ?_, fun id inside => ?_, nodup_nil,
    le_rfl, rfl⟩, ⟨fun id => ?_, nodup_nil, fun id mem => ?_⟩,
    ⟨Pairwise.nil, fun id mem => ?_⟩, ?_⟩, fun _ id _ => unlisted id⟩
  · exact iff_of_false Bool.false_ne_true not_mem_nil
  · exact absurd exist (Nat.not_lt_zero id)
  · exact absurd (inside.resolve_left not_mem_nil) (unlisted id)
  · exact iff_of_false not_mem_nil (unlisted id)
  · exact absurd mem not_mem_nil
  · exact absurd mem not_mem_nil
  · exact ⟨nofun, (by decide : 0 + (0 - 0) < 2 ^ 32)⟩

variable {t next : TimedSend} {event : SendEvent}

/-- The limit of a call is what it makes. -/
theorem Sound.step (sound : t.Sound) (allowed : t.Allowed event) {after : KvpsyncSend}
    (stepped : t.s.step event = .ok after) :
    Sound ⟨after, event.time t.now⟩ ∧ t.s.Awaits event := by
  obtain ⟨kept, waiting⟩ := sound
  have numbers : t.s.updateId + (after.made.length - t.s.made.length) < 2 ^ 32 :=
    allowed.numbers.of_ok stepped
  have fine : ∀ later key val cb, event = .add later key val cb →
      (t.s.newInsert later key val cb).fatal = false := by
    rintro later key val cb rfl
    exact newInsert_fine kept.books.fatal later cb allowed.short.1 allowed.short.2
  have fitting : t.s.Kept unheld (some after.made.length) t.now :=
    { kept with fits := ⟨kept.fits.1, numbers⟩ }
  obtain ⟨done, still, awaits⟩ := step_kept fitting waiting allowed.time fine stepped (le_rfl)
  exact ⟨⟨done, still⟩, awaits⟩

/-- Every call keeps the books. -/
theorem step_sound (sound : t.Sound) (allowed : t.Allowed event) :
    Outcome.Sat (t.step event) Sound fun _ => False := by
  unfold TimedSend.step
  cases stepped : t.s.step event with
  | error fault => exact nomatch fault
  | ok after => exact (sound.step allowed stepped).1

/-- The run waits for what is still to come. -/
def Awaits (t : TimedSend) (event : SendEvent) (_ : TimedSend) : Prop := t.s.Awaits event

theorem step_awaits (sound : t.Sound) (allowed : t.Allowed event) : Awaits t event next := by
  cases called : t.s.step event with
  | error fault => exact nomatch fault
  | ok after => exact (sound.step allowed called).2

/-- The books, in the words of `send.h`. -/
structure Bookkept (s : KvpsyncSend) : Prop where
  either : ∀ id, id ∈ s.unacked ↔ id ∈ s.sent ∨ id ∈ s.unsent
  notBoth : ∀ id, id ∈ s.sent → id ∉ s.unsent
  once : s.sent.Nodup ∧ s.unsent.Nodup ∧ s.unacked.Nodup
  count : s.inflight = s.sent.length
  order : s.sent.Pairwise fun first second => (s.data first).sentTime ≤ (s.data second).sentTime
  cached : ∀ id ∈ s.cache, (s.data id).nrefs = 1 + if id ∈ s.unacked then 1 else 0
  fatal : s.fatal = false

theorem Sound.bookkept (sound : t.Sound) : Bookkept t.s := by
  have books := sound.kept.books
  have numbered := sound.kept.numbered
  obtain ⟨unsent, sent, apart⟩ := nodup_append.mp books.nodup
  refine ⟨fun id => ?_, fun id there here => apart id here id there rfl, ⟨sent, unsent, numbered.nodup⟩,
    books.count, sound.kept.ordered.order, fun id mem => ?_, books.fatal⟩
  · exact (numbered.same id).trans or_comm
  · rw [books.refs id (books.exist id (.inl mem))]
    unfold owners unheld
    rw [if_pos mem, Nat.zero_add]
    simp only [numbered.same]

/-- In every run, the sender keeps its books and a run without a packet waits for a time to come. -/
theorem bookkept_of_guarded {now syncId : Nat} {stateCb : Bool} {events : List SendEvent}
    (guarded : Run.Guarded step Allowed (start now syncId stateCb) events) :
    Outcome.Sat (Run.run step (start now syncId stateCb) events) (fun t => Bookkept t.s)
        (fun _ => False) ∧
      Run.Throughout step Awaits (start now syncId stateCb) events :=
  ⟨(guarded.sat (fun _ _ => step_sound) (start_sound now syncId stateCb)).mono
      fun _ => Sound.bookkept,
    guarded.throughout (fun _ _ => step_sound) (fun _ _ sound allowed _ _ => step_awaits sound allowed)
      (start_sound now syncId stateCb)⟩

/-- The order in which the elements are kept. -/
def inOrder : HashWalk := ⟨id, Perm.refl⟩

/-- A resync, a sync with a key that is replaced, a packet that is resent and a deletion. -/
def resynced : List SendEvent :=
  [.add 0 [1] [2] (some 3), .run 0 inOrder, .ack ⟨5, 0⟩ 1, .run 1 inOrder, .ack ⟨8, 1⟩ 2, .run 2 inOrder,
    .add 2 [1] [4] none, .run (2 + second) inOrder, .ack ⟨8, 2⟩ (3 + second), .delete [1],
    .run (4 + second) inOrder]

theorem bookkept_of_guarded_resynced :
    Outcome.Sat (Run.run step (start 0 7 true) resynced) (fun t => Bookkept t.s) (fun _ => False) ∧
      Run.Throughout step Awaits (start 0 7 true) resynced :=
  @bookkept_of_guarded 0 7 true resynced (by decide)

end TimedSend

end Splintermail
