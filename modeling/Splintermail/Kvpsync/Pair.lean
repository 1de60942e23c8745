/-
This file models a sender and a receiver of kvpsync with the network between them.

Everything that was ever sent may be delivered, at any time and any number of times. Both
parties may be restarted; a sender that is restarted begins a new sync, and a receiver
that is restarted turns everything down until a sync is started for it. The clock is the
same for both.

The ids that a restart chooses are random in the source. That they were not used before is
a condition on the event, as is that the 32-bit counters do not wrap around.
-/

import Splintermail.Kvpsync.Growth
import Splintermail.Kvpsync.Hearing

namespace Splintermail

/-- What senders have made before they were restarted. -/
structure KvpHistory where
  made : List KvpUpdate
  content : List KvpUpdate
  acked : List KvpUpdate

/-- The two parties, the packets and the acks that were sent, the clock, and the history: what earlier
senders made, the syncs in the order in which they began, and how many of them had begun when the
receiver was started. -/
structure Pair where
  s : KvpsyncSend
  hearing : Hearing
  net : List KvpUpdate
  acks : List KvpAck
  now : Nat
  past : KvpHistory
  syncs : List Nat
  born : Nat

inductive PairEvent where
  | wait (time : Nat)
  | add (key val : Bytes) (cb : Option Nat)
  | delete (key : Bytes)
  | run (walk : HashWalk)
  | ack (ack : KvpAck)
  | packet (update : KvpUpdate)
  | lookup (key : Bytes)
  | restartSend (syncId : Nat) (stateCb : Bool)
  | restartRecv (recvId : Nat)

namespace Pair

def start (now syncId : Nat) (stateCb : Bool) (recvId : Nat) : Pair :=
  ⟨.init now syncId stateCb, ⟨.init recvId, []⟩, [], [], now, ⟨[], [], []⟩, [syncId], 0⟩

/-- The receiver. -/
abbrev r (p : Pair) : KvpsyncRecv := p.hearing.r

/-- All updates that senders have made. -/
def made (p : Pair) : List KvpUpdate := p.past.made ++ p.s.made

/-- All updates that were the content of a sync when it began. -/
def content (p : Pair) : List KvpUpdate := p.past.content ++ p.s.content

/-- All updates whose ack was processed. -/
def acked (p : Pair) : List KvpUpdate := p.past.acked ++ p.s.acked

def step (p : Pair) : PairEvent → Except Empty Pair
  | .wait time => .ok { p with now := p.now + time }
  | .add key val cb => .ok { p with s := p.s.addKey p.now key val cb }
  | .delete key => .ok { p with s := p.s.deleteKey key }
  | .run walk =>
    let (s, run) := p.s.run p.now walk
    .ok { p with s := s, net := run.pkt.toList ++ p.net }
  | .ack ack =>
    if ack ∈ p.acks then
      let s := p.s.handleAck ack p.now
      .ok { p with
        s := s
        syncs := if s.syncId = p.s.syncId then p.syncs else p.syncs ++ [s.syncId] }
    else .ok p
  | .packet update =>
    if update ∈ p.net then
      let (r, ack) := p.r.handleUpdate p.now update
      .ok { p with
        hearing := ⟨r, if r.initialSyncAcked then update.core :: p.hearing.heard else p.hearing.heard⟩
        acks := ack :: p.acks }
    else .ok p
  | .lookup key => .ok { p with hearing.r := (p.r.getValue p.now key).2 }
  | .restartSend syncId stateCb =>
    .ok { p with
      s := .init p.now syncId stateCb
      past := ⟨p.made, p.content, p.acked⟩
      syncs := p.syncs ++ [syncId] }
  | .restartRecv recvId =>
    .ok { p with hearing := ⟨.init recvId, []⟩, born := p.syncs.length }

/-- How many syncs began before the sync. -/
def age (p : Pair) (syncId : Nat) : Nat := p.syncs.idxOf syncId

/-- No id is used twice. -/
def Fresh (p : Pair) : PairEvent → Prop
  | .add key val cb => p.s.Room (.add p.now key val cb)
  | .delete key => p.s.Room (.delete key)
  | .run walk => p.s.Room (.run p.now walk)
  | .ack _ => KvpsyncSend.nextSyncId p.s.syncId ∉ p.syncs
  | .restartSend syncId _ => (syncId ≠ 0 ∧ syncId < 2 ^ 32) ∧ syncId ∉ p.syncs
  | .restartRecv recvId => p.s.resyncId ≠ recvId ∧ ∀ update ∈ p.made, update.body ≠ .start recvId
  | _ => True

instance (p : Pair) (event : PairEvent) : Decidable (p.Fresh event) :=
  match event with
  | .add key val cb => inferInstanceAs (Decidable (p.s.Room (.add p.now key val cb)))
  | .delete key => inferInstanceAs (Decidable (p.s.Room (.delete key)))
  | .run walk => inferInstanceAs (Decidable (p.s.Room (.run p.now walk)))
  | .ack _ => inferInstanceAs (Decidable (_ ∉ _))
  | .restartSend _ _ => inferInstanceAs (Decidable (_ ∧ _))
  | .restartRecv _ => inferInstanceAs (Decidable (_ ∧ _))
  | .wait _ => isTrue trivial
  | .packet _ => isTrue trivial
  | .lookup _ => isTrue trivial

/-! ### What goes wrong -/

/-- The oldest sync that the receiver may be in from now on. -/
def floor (p : Pair) : Nat := if p.r.syncId = 0 then p.born else p.age p.r.syncId

/-- The receiver has handled an insertion of a newer sync. -/
def Passed (p : Pair) (syncId : Nat) : Prop :=
  ∃ update ∈ p.hearing.heard, update.body.isInsert ∧ p.age syncId < p.age update.syncId

/-- The flush of a sync is harmless: the sync did not begin before the receiver was started or before
the sync it is in, and the receiver has not handled an insertion of a newer sync. -/
def FlushSafe (p : Pair) (syncId : Nat) : Prop := p.floor ≤ p.age syncId ∧ ¬p.Passed syncId

/-- The receiver is not confident, and no packet of its sync that was sent makes it so. -/
def Unsure (p : Pair) : Prop :=
  p.r.okExpiry ≤ p.now ∧ ∀ pkt ∈ p.net, pkt.syncId = p.r.syncId → pkt.okExpiry ≤ p.now

/-- The newest update for the key in the sync is an insertion, and the receiver has handled it. -/
def Has (p : Pair) (syncId : Nat) (key : Bytes) : Prop :=
  ∃ update ∈ p.hearing.heard, Newest p.made syncId key update ∧ update.body.isInsert

/-- The sync that the receiver is in does not deny the key, unless it is the present one. -/
def Answers (p : Pair) (key : Bytes) : Prop :=
  p.r.syncId = 0 ∨ p.r.syncId = p.s.syncId ∨ p.Unsure ∨ p.Has p.r.syncId key

/-- Every flush of an earlier sync is harmless when it is delivered. -/
def Flushes (p : Pair) : PairEvent → Prop
  | .packet update => update ∈ p.net → update.body = .flush → p.r.initialSyncAcked = true →
      update.syncId ≠ p.s.syncId → p.FlushSafe update.syncId
  | _ => True

/-- When the callback of a key is run, the receiver does not deny the key. -/
def Announces (p : Pair) : PairEvent → Prop
  | .ack ack => ack ∈ p.acks → ack.syncId = p.s.syncId → ∀ id ∈ p.s.unacked,
      (p.s.data id).update.updateId = ack.updateId → (p.s.data id).cb ≠ none →
        p.Answers (p.s.data id).key
  | _ => True

/-- When the ack of a key is processed, the receiver does not deny the key. -/
def Acks (p : Pair) : PairEvent → Prop
  | .ack ack => ack ∈ p.acks → ack.syncId = p.s.syncId → ∀ id ∈ p.s.unacked,
      (p.s.data id).update.updateId = ack.updateId → (p.s.data id).update.body.isInsert →
        p.Answers (p.s.data id).key
  | _ => True

instance (p : Pair) (syncId : Nat) : Decidable (p.FlushSafe syncId) :=
  inferInstanceAs (Decidable (_ ∧ ¬∃ _ ∈ _, _))

instance (p : Pair) : Decidable p.Unsure := inferInstanceAs (Decidable (_ ∧ ∀ _ ∈ _, _))

instance (p : Pair) (syncId : Nat) (key : Bytes) : Decidable (p.Has syncId key) :=
  inferInstanceAs (Decidable (∃ _ ∈ _, _))

instance (p : Pair) (key : Bytes) : Decidable (p.Answers key) :=
  inferInstanceAs (Decidable (_ ∨ _ ∨ _ ∨ _))

instance (p : Pair) (event : PairEvent) : Decidable (p.Flushes event) :=
  match event with
  | .packet _ => inferInstanceAs (Decidable (_ → _))
  | .wait _ | .add _ _ _ | .delete _ | .run _ | .ack _ | .lookup _ | .restartSend _ _
  | .restartRecv _ => isTrue trivial

instance (p : Pair) (event : PairEvent) : Decidable (p.Announces event) :=
  match event with
  | .ack _ => inferInstanceAs (Decidable (_ → _ → ∀ _ ∈ _, _))
  | .wait _ | .add _ _ _ | .delete _ | .run _ | .packet _ | .lookup _ | .restartSend _ _
  | .restartRecv _ => isTrue trivial

instance (p : Pair) (event : PairEvent) : Decidable (p.Acks event) :=
  match event with
  | .ack _ => inferInstanceAs (Decidable (_ → _ → ∀ _ ∈ _, _))
  | .wait _ | .add _ _ _ | .delete _ | .run _ | .packet _ | .lookup _ | .restartSend _ _
  | .restartRecv _ => isTrue trivial

/-! ### The invariant -/

/-- The sender and what was sent. -/
structure Sent (p : Pair) : Prop where
  send : SendSound p.s
  order : (∃ earlier, p.syncs = earlier ++ [p.s.syncId]) ∧ p.syncs.Nodup
  began : ∀ update ∈ p.made, update.syncId ∈ p.syncs ∧ update.syncId ≠ 0
  pastCoherent : Coherent (· ∈ p.past.made)
  pastApart : ∀ update ∈ p.past.made, update.syncId ≠ p.s.syncId ∧
    ∀ other ∈ p.s.made, update.syncId ≠ other.syncId
  pastAcked : ∀ update ∈ p.past.acked, update ∈ p.past.made
  pastContent : ∀ update ∈ p.past.content, update ∈ p.past.made ∧ update.body.isInsert
  pastFlushed : ∀ flush ∈ p.past.made, flush.body = .flush →
    (∃ start ∈ p.past.acked, start.syncId = flush.syncId ∧ start.body.isStart) ∧
      ∀ update ∈ p.past.content, update.syncId = flush.syncId → update ∈ p.past.acked
  net : ∀ pkt ∈ p.net, pkt.core ∈ p.made

/-- The receiver and what it was told. -/
structure Heard (p : Pair) : Prop where
  born : p.born ≤ p.syncs.length
  recv : RecvSound (· ∈ p.made) p.r
  heard : ∀ update ∈ p.hearing.heard, update ∈ p.made
  heldHeard : ∀ update ∈ p.r.held, update ∈ p.hearing.heard
  inserted : ∀ update ∈ p.hearing.heard, update.body.isInsert →
    (p.r.syncId = 0 ∨ p.age p.r.syncId ≤ p.age update.syncId) →
      update ∈ p.r.held ∨ ∃ deletion ∈ p.hearing.heard, deletion.Names update
  unacked : p.r.initialSyncAcked = false → p.hearing.heard = [] ∧ p.r.syncId = 0
  booted : p.r.initialSyncAcked = true → ∃ start ∈ p.hearing.heard, start.body = .start p.r.recvId
  synced : p.r.syncId ≠ 0 → p.born ≤ p.age p.r.syncId ∧
    ∃ flush ∈ p.hearing.heard, flush.body = .flush ∧ flush.syncId = p.r.syncId

/-- The acks, and what a sender knows by them. -/
structure Answered (p : Pair) : Prop where
  ackMade : ∀ ack ∈ p.acks, ack.updateId = 0 ∨
    ∃ update ∈ p.made, update.syncId = ack.syncId ∧ update.updateId = ack.updateId
  acks : ∀ update ∈ p.made, ⟨update.syncId, update.updateId⟩ ∈ p.acks →
    p.born ≤ p.age update.syncId → update ∈ p.hearing.heard
  acked : ∀ update ∈ p.acked, ⟨update.syncId, update.updateId⟩ ∈ p.acks
  boots : ∀ update ∈ p.made, update.body = .start p.r.recvId → p.born ≤ p.age update.syncId
  resync : p.s.resyncId = p.r.recvId → p.born ≤ p.age p.s.syncId

structure Sound (p : Pair) : Prop where
  sent : p.Sent
  heard : p.Heard
  answered : p.Answered

/-- No sync that the receiver is in or may still move to denies the key, apart from the present one. -/
structure Covered (p : Pair) (key : Bytes) : Prop where
  answers : p.Answers key
  ahead : ∀ flush ∈ p.made, flush.body = .flush → flush.syncId ≠ p.s.syncId →
    flush.syncId ≠ p.r.syncId → p.floor ≤ p.age flush.syncId →
      p.Passed flush.syncId ∨ p.Has flush.syncId key

end Pair

end Splintermail
