/-
This file proves the invariant of a sender and a receiver.

A step of the sender, with its restarts, leaves the receiver alone: it makes updates of
its present sync, and it may begin a sync that is newer than all others. So nothing that
is told about older syncs changes. A packet that is handled is heard and acked at once.
The one step that is not harmless by itself is a flush, and this is where its condition
is used.
-/

import Splintermail.Kvpsync.Pair

namespace Splintermail

open List KvpsyncRecv KvpsyncSend

theorem Coherent.union {first second : KvpUpdate → Prop} (here : Coherent first)
    (there : Coherent second)
    (apart : ∀ update other, first update → second other → update.syncId ≠ other.syncId) :
    Coherent fun update => first update ∨ second update where
  bare update mem := mem.elim (here.bare update) (there.bare update)
  numbered update mem := mem.elim (here.numbered update) (there.numbered update)
  unique update other mem mem' sync number := by
    rcases mem with mem | mem <;> rcases mem' with mem' | mem'
    · exact here.unique update other mem mem' sync number
    · exact absurd sync (apart update other mem mem')
    · exact absurd sync.symm (apart other update mem' mem)
    · exact there.unique update other mem mem' sync number
  named update mem := mem.elim (here.named update) (there.named update)
  target deletion update mem mem' names := by
    rcases mem with mem | mem <;> rcases mem' with mem' | mem'
    · exact here.target deletion update mem mem' names
    · exact absurd names.1 (apart deletion update mem mem')
    · exact absurd names.1.symm (apart update deletion mem' mem)
    · exact there.target deletion update mem mem' names

theorem RecvSound.mono {updates more : KvpUpdate → Prop} {r : KvpsyncRecv}
    (sound : RecvSound updates r) (weaker : ∀ update, updates update → more update) :
    RecvSound more r :=
  { sound with known := fun update mem => weaker update (sound.known update mem) }

/-- Updates of another sync make no difference. -/
theorem Newest.of_subset {list longer : List KvpUpdate} {syncId : Nat} {key : Bytes}
    {update : KvpUpdate} (newest : Newest list syncId key update)
    (more : ∀ other ∈ list, other ∈ longer)
    (same : ∀ other ∈ longer, other.syncId = syncId → other ∈ list) :
    Newest longer syncId key update where
  member := more update newest.member
  sync := newest.sync
  about := newest.about
  highest other mem sync about := newest.highest other (same other mem sync) sync about

namespace Pair

variable {p next : Pair} {key : Bytes} {syncId : Nat}

/-! ### The order of the syncs -/

theorem Sent.present (sent : p.Sent) : p.s.syncId ∈ p.syncs := by
  obtain ⟨⟨earlier, syncs⟩, -⟩ := sent.order
  rw [syncs]
  exact mem_append_right _ (mem_singleton.mpr rfl)

theorem age_inj {other : Nat} (mem : syncId ∈ p.syncs) (same : p.age syncId = p.age other) :
    syncId = other := (idxOf_inj mem).mp same

theorem Sent.age_le (sent : p.Sent) (mem : syncId ∈ p.syncs) : p.age syncId ≤ p.age p.s.syncId := by
  obtain ⟨⟨earlier, syncs⟩, nodup⟩ := sent.order
  rw [syncs] at nodup
  have outside : p.s.syncId ∉ earlier := fun inside =>
    (nodup_append.mp nodup).2.2 _ inside _ (mem_singleton.mpr rfl) rfl
  have last : p.age p.s.syncId = earlier.length := by
    unfold age
    rw [syncs, idxOf_append_of_notMem outside, idxOf_cons_self]
    rfl
  have bound := idxOf_lt_length_of_mem mem
  have length := congrArg List.length syncs
  rw [length_append, length_singleton] at length
  unfold age at last ⊢
  omega

theorem Sent.age_lt (sent : p.Sent) (mem : syncId ∈ p.syncs) (other : syncId ≠ p.s.syncId) :
    p.age syncId < p.age p.s.syncId :=
  Nat.lt_of_le_of_ne (sent.age_le mem) fun same => other (age_inj mem same)

theorem Heard.sync_mem (heard : p.Heard) (sent : p.Sent) (synced : p.r.syncId ≠ 0) :
    p.r.syncId ∈ p.syncs := by
  obtain ⟨-, flush, mem, -, same⟩ := heard.synced synced
  exact same ▸ (sent.began flush (heard.heard flush mem)).1

/-! ### What all senders have made -/

variable {update : KvpUpdate}

theorem mem_made : update ∈ p.made ↔ update ∈ p.past.made ∨ update ∈ p.s.made :=
  mem_append

theorem Sent.coherent (sent : p.Sent) : Coherent (· ∈ p.made) := by
  have union := sent.pastCoherent.union sent.send.sound.steady.coherent fun update other mem mem' =>
    (sent.pastApart update mem).2 other mem'
  have same : (fun update => update ∈ p.past.made ∨ update ∈ p.s.made) = (· ∈ p.made) :=
    funext fun update => propext mem_made.symm
  exact same ▸ union

theorem Sent.ackedMade (sent : p.Sent) : ∀ update ∈ p.acked, update ∈ p.made := fun update mem =>
  mem_made.mpr ((mem_append.mp mem).imp (sent.pastAcked update) (sent.send.phased.ackedMade update))

theorem Sent.contentMade (sent : p.Sent) :
    ∀ update ∈ p.content, update ∈ p.made ∧ update.body.isInsert := by
  intro update mem
  rcases mem_append.mp mem with mem | mem
  · exact (sent.pastContent update mem).imp_left fun made => mem_made.mpr (.inl made)
  · exact (sent.send.phased.contentMade update mem).imp_left fun made => mem_made.mpr (.inr made)

theorem Sent.flushed (sent : p.Sent) : ∀ flush ∈ p.made, flush.body = .flush →
    (∃ start ∈ p.acked, start.syncId = flush.syncId ∧ start.body.isStart) ∧
      ∀ update ∈ p.content, update.syncId = flush.syncId → update ∈ p.acked := by
  intro flush mem isFlush
  rcases mem_made.mp mem with before | present
  · obtain ⟨⟨start, acked, sync, kind⟩, delivered⟩ := sent.pastFlushed flush before isFlush
    refine ⟨⟨start, mem_append_left _ acked, sync, kind⟩, fun update content same => ?_⟩
    rcases mem_append.mp content with content | content
    · exact mem_append_left _ (delivered update content same)
    · have made := (sent.send.phased.contentMade update content).1
      exact absurd same.symm ((sent.pastApart flush before).2 update made)
  · obtain ⟨⟨start, acked, sync, kind⟩, delivered, -⟩ := sent.send.phased.flushed flush present isFlush
    refine ⟨⟨start, mem_append_right _ acked, sync, kind⟩, fun update content same => ?_⟩
    rcases mem_append.mp content with content | content
    · exact absurd same ((sent.pastApart update (sent.pastContent update content).1).2 flush present)
    · exact mem_append_right _ (delivered update content same)

/-! ### Steps of the sender -/

/-- What a step of the sender does, where a restart is such a step. -/
structure Moves (p next : Pair) : Prop where
  hearing : next.hearing = p.hearing
  rest : next.now = p.now ∧ next.born = p.born ∧ next.acks = p.acks
  syncs : next.syncs = p.syncs ∧ next.s.syncId = p.s.syncId ∧ next.s.resyncId = p.s.resyncId ∨
    next.syncs = p.syncs ++ [next.s.syncId] ∧ next.s.syncId ∉ p.syncs
  made : ∀ update ∈ p.made, update ∈ next.made
  news : ∀ update ∈ next.made, update ∈ p.made ∨ update.syncId = next.s.syncId ∧
    ∀ resyncId, update.body = .start resyncId → resyncId = next.s.resyncId
  net : ∀ pkt ∈ p.net, pkt ∈ next.net
  packets : ∀ pkt ∈ next.net, pkt ∈ p.net ∨ pkt.syncId = next.s.syncId
  acked : ∀ update ∈ next.acked, update ∈ p.acked ∨ ⟨update.syncId, update.updateId⟩ ∈ p.acks

section

variable (moves : Moves p next)

include moves

theorem Moves.r : next.r = p.r := congrArg Hearing.r moves.hearing

theorem Moves.length_le : p.syncs.length ≤ next.syncs.length := by
  rcases moves.syncs with ⟨same, -⟩ | ⟨longer, -⟩
  · rw [same]
  · rw [longer, length_append]
    exact Nat.le_add_right ..

theorem Moves.age (mem : syncId ∈ p.syncs) : next.age syncId = p.age syncId := by
  unfold Pair.age
  rcases moves.syncs with ⟨same, -⟩ | ⟨longer, -⟩
  · rw [same]
  · rw [longer, idxOf_append_of_mem mem]

theorem Moves.mem_syncs (mem : syncId ∈ p.syncs) : syncId ∈ next.syncs := by
  rcases moves.syncs with ⟨same, -⟩ | ⟨longer, -⟩
  · exact same ▸ mem
  · rw [longer]
    exact mem_append_left _ mem

end

theorem Heard.moves (heard : p.Heard) (sent : p.Sent) (moves : Moves p next) : next.Heard := by
  have sync : ∀ update ∈ p.hearing.heard, update.syncId ∈ p.syncs := fun update mem =>
    (sent.began update (heard.heard update mem)).1
  have age : ∀ update ∈ p.hearing.heard, next.age update.syncId = p.age update.syncId :=
    fun update mem => moves.age (sync update mem)
  constructor
  · rw [moves.rest.2.1]
    exact Nat.le_trans heard.born moves.length_le
  · rw [moves.r]
    exact heard.recv.mono moves.made
  · rw [moves.hearing]
    exact fun update mem => moves.made update (heard.heard update mem)
  · rw [moves.r, moves.hearing]
    exact heard.heldHeard
  · rw [moves.r, moves.hearing]
    intro update mem insertion newer
    refine heard.inserted update mem insertion ?_
    by_cases none : p.r.syncId = 0
    · exact .inl none
    · rw [age update mem, moves.age (heard.sync_mem sent none)] at newer
      exact newer
  · rw [moves.r, moves.hearing]
    exact heard.unacked
  · rw [moves.r, moves.hearing]
    exact heard.booted
  · rw [moves.r, moves.hearing, moves.rest.2.1]
    intro synced
    rw [moves.age (heard.sync_mem sent synced)]
    exact heard.synced synced

theorem Answered.moves (answered : p.Answered) (heard : p.Heard) (sent : p.Sent) (sent' : next.Sent)
    (moves : Moves p next) : next.Answered := by
  have resync : next.s.resyncId = p.r.recvId → p.born ≤ next.age next.s.syncId := by
    intro request
    rcases moves.syncs with ⟨-, sync, same⟩ | ⟨longer, outside⟩
    · rw [sync, moves.age sent.present]
      exact answered.resync (same.symm.trans request)
    · unfold Pair.age
      rw [longer, idxOf_append_of_notMem outside, idxOf_cons_self]
      exact heard.born
  constructor
  · rw [moves.rest.2.2]
    intro ack mem
    exact (answered.ackMade ack mem).imp_right fun ⟨update, made, same⟩ =>
      ⟨update, moves.made update made, same⟩
  · rw [moves.rest.2.2, moves.rest.2.1, moves.hearing]
    intro update made ack newer
    -- an ack that was sent before is not that of a new update
    have old : update ∈ p.made := by
      rcases answered.ackMade _ ack with zero | ⟨other, before, sync, number⟩
      · exact absurd zero (sent'.coherent.numbered update made)
      · rw [← sent'.coherent.unique other update (moves.made other before) made sync number]
        exact before
    rw [moves.age (sent.began update old).1] at newer
    exact answered.acks update old ack newer
  · rw [moves.rest.2.2]
    exact fun update mem => (moves.acked update mem).elim (answered.acked update) id
  · rw [moves.r, moves.rest.2.1]
    intro update made start
    rcases moves.news update made with before | ⟨sync, resyncId⟩
    · rw [moves.age (sent.began update before).1]
      exact answered.boots update before start
    · rw [sync]
      exact resync (resyncId p.r.recvId start).symm
  · rw [moves.r, moves.rest.2.1]
    exact resync

theorem Moves.passed (moves : Moves p next) (heard : p.Heard) (sent : p.Sent)
    (mem : syncId ∈ p.syncs) : next.Passed syncId ↔ p.Passed syncId := by
  unfold Passed
  rw [moves.hearing, moves.age mem]
  refine exists_congr fun update => and_congr_right fun inside => ?_
  rw [moves.age (sent.began update (heard.heard update inside)).1]

theorem Moves.has (moves : Moves p next) (has : p.Has syncId key) (apart : syncId ≠ next.s.syncId) :
    next.Has syncId key := by
  obtain ⟨update, mem, newest, insertion⟩ := has
  refine ⟨update, moves.hearing ▸ mem, newest.of_subset moves.made fun other made sync => ?_, insertion⟩
  exact (moves.news other made).resolve_right fun ⟨present, _⟩ => apart (sync.symm.trans present)

theorem Moves.floor (moves : Moves p next) (heard : p.Heard) (sent : p.Sent) :
    next.floor = p.floor := by
  unfold Pair.floor
  rw [moves.r, moves.rest.2.1]
  split
  · rfl
  · next synced => exact moves.age (heard.sync_mem sent synced)

/-- A step of the sender, where the sync that it ends has the key if its flush was made. -/
theorem Covered.moves (covered : p.Covered key) (heard : p.Heard) (sent : p.Sent)
    (moves : Moves p next) (ends : p.s.syncId ≠ next.s.syncId → ∀ flush ∈ p.made, flush.body = .flush →
      flush.syncId = p.s.syncId → p.floor ≤ p.age p.s.syncId → p.Has p.s.syncId key) :
    next.Covered key := by
  constructor
  · unfold Answers Unsure
    rw [moves.r, moves.rest.1]
    by_cases synced : p.r.syncId = 0
    · exact .inl synced
    by_cases present : p.r.syncId = next.s.syncId
    · exact .inr (.inl present)
    refine .inr (.inr ?_)
    rcases covered.answers with none | last | ⟨expired, packets⟩ | has
    · exact absurd none synced
    · obtain ⟨-, flush, mem, isFlush, same⟩ := heard.synced synced
      refine .inr (moves.has ?_ present)
      rw [last]
      refine ends (last ▸ present) flush (heard.heard flush mem) isFlush (same.trans last) ?_
      unfold Pair.floor
      rw [if_neg synced, last]
    · refine .inl ⟨expired, fun pkt mem sync => ?_⟩
      refine packets pkt ((moves.packets pkt mem).resolve_right fun other => ?_) sync
      exact present (sync.symm.trans other)
    · exact .inr (moves.has has present)
  · intro flush mem isFlush apart elsewhere newer
    rw [moves.r] at elsewhere
    have before : flush ∈ p.made :=
      (moves.news flush mem).resolve_right fun ⟨present, _⟩ => apart present
    have began := (sent.began flush before).1
    rw [moves.floor heard sent, moves.age began] at newer
    rw [moves.passed heard sent began]
    by_cases last : flush.syncId = p.s.syncId
    · refine .inr (moves.has ?_ apart)
      rw [last]
      exact ends (last ▸ apart) flush before isFlush last (last ▸ newer)
    · exact (covered.ahead flush before isFlush last elsewhere newer).imp_right
        fun has => moves.has has apart

/-- A sender that goes on. -/
theorem Sent.moves (sent : p.Sent) (moves : Moves p next) (send : SendSound next.s)
    (past : next.past = p.past)
    (news : ∀ update ∈ next.s.made, update ∈ p.s.made ∨ update.syncId = next.s.syncId)
    (net : ∀ pkt ∈ next.net, pkt.core ∈ next.made) : next.Sent := by
  have order : (∃ earlier, next.syncs = earlier ++ [next.s.syncId]) ∧ next.syncs.Nodup := by
    rcases moves.syncs with ⟨same, sync, -⟩ | ⟨longer, outside⟩
    · rw [same, sync]
      exact sent.order
    · rw [longer]
      refine ⟨⟨p.syncs, rfl⟩, nodup_append.mpr ⟨sent.order.2, nodup_singleton _, ?_⟩⟩
      rintro syncId mem other last rfl
      exact outside (mem_singleton.mp last ▸ mem)
  have apart : ∀ update ∈ p.past.made, update.syncId ≠ next.s.syncId := by
    intro update mem
    rcases moves.syncs with ⟨-, sync, -⟩ | ⟨-, outside⟩
    · rw [sync]
      exact (sent.pastApart update mem).1
    · exact fun same => outside (same ▸ (sent.began update (mem_made.mpr (.inl mem))).1)
  exact {
    send := send
    order := order
    began := fun update mem => by
      rcases moves.news update mem with before | ⟨present, -⟩
      · exact (sent.began update before).imp_left moves.mem_syncs
      · obtain ⟨earlier, syncs⟩ := order.1
        rw [present, syncs]
        exact ⟨mem_append_right _ (mem_singleton.mpr rfl), send.sound.steady.sync.1⟩
    pastCoherent := past ▸ sent.pastCoherent
    pastApart := fun update mem => by
      rw [past] at mem
      refine ⟨apart update mem, fun other made => ?_⟩
      rcases news other made with before | present
      · exact (sent.pastApart update mem).2 other before
      · rw [present]
        exact apart update mem
    pastAcked := past ▸ sent.pastAcked
    pastContent := past ▸ sent.pastContent
    pastFlushed := past ▸ sent.pastFlushed
    net := net }

theorem Sent.restart (sent : p.Sent) (stateCb : Bool) (valid : syncId ≠ 0 ∧ syncId < 2 ^ 32)
    (fresh : syncId ∉ p.syncs) : Sent { p with
      s := .init p.now syncId stateCb
      past := ⟨p.made, p.content, p.acked⟩
      syncs := p.syncs ++ [syncId] } := by
  have made : ∀ update ∈ p.made ++ (init p.now syncId stateCb).made, update ∈ p.made :=
    fun update mem => (mem_append.mp mem).resolve_right not_mem_nil
  exact {
    send := init_sound p.now valid stateCb
    order := by
      refine ⟨⟨p.syncs, rfl⟩, nodup_append.mpr ⟨sent.order.2, nodup_singleton _, ?_⟩⟩
      rintro other mem last inside rfl
      exact fresh (mem_singleton.mp inside ▸ mem)
    began := fun update mem =>
      (sent.began update (made update mem)).imp_left (mem_append_left _)
    pastCoherent := sent.coherent
    pastApart := fun update mem =>
      ⟨fun same => fresh ((show update.syncId = syncId from same) ▸ (sent.began update mem).1), nofun⟩
    pastAcked := sent.ackedMade
    pastContent := sent.contentMade
    pastFlushed := sent.flushed
    net := fun pkt mem => mem_append_left _ (sent.net pkt mem) }

theorem moves_restart (stateCb : Bool) (fresh : syncId ∉ p.syncs) : Moves p { p with
    s := .init p.now syncId stateCb
    past := ⟨p.made, p.content, p.acked⟩
    syncs := p.syncs ++ [syncId] } where
  hearing := rfl
  rest := ⟨rfl, rfl, rfl⟩
  syncs := .inr ⟨rfl, fresh⟩
  made _ mem := mem_append_left _ mem
  news _ mem := .inl ((mem_append.mp mem).resolve_right not_mem_nil)
  net _ mem := mem
  packets _ mem := .inl mem
  acked _ mem := .inl ((mem_append.mp mem).resolve_right not_mem_nil)

theorem moves_of_extends {s : KvpsyncSend} {pkts : List KvpUpdate}
    (extends' : Outline.Extends p.s.outline s.outline) (sync : ∀ pkt ∈ pkts, pkt.syncId = s.syncId) :
    Moves p { p with s := s, net := pkts ++ p.net } := by
  obtain ⟨news, made, each⟩ := extends'.made
  have madeS : s.made = p.s.made ++ news := made
  have same : s.syncId = p.s.syncId ∧ s.resyncId = p.s.resyncId := extends'.same
  have acked : s.acked = p.s.acked := extends'.acked
  exact {
    hearing := rfl
    rest := ⟨rfl, rfl, rfl⟩
    syncs := .inl ⟨rfl, same⟩
    made := fun update mem => by
      refine mem_made.mpr ((mem_made.mp mem).imp_right fun present => ?_)
      show update ∈ s.made
      rw [madeS]
      exact mem_append_left _ present
    news := fun update mem => by
      rcases mem_made.mp mem with before | present
      · exact .inl (mem_made.mpr (.inl before))
      · have present' : update ∈ s.made := present
        rw [madeS] at present'
        refine (mem_append.mp present').imp (fun before => mem_made.mpr (.inr before)) fun new => ?_
        show update.syncId = s.syncId ∧ ∀ resyncId, update.body = .start resyncId → resyncId = s.resyncId
        rw [same.1, same.2]
        exact each update new
    net := fun pkt mem => mem_append_right _ mem
    packets := fun pkt mem => (mem_append.mp mem).symm.imp_right (sync pkt)
    acked := fun update mem => by
      have mem' : update ∈ p.past.acked ++ s.acked := mem
      rw [acked] at mem'
      exact .inl mem' }

/-! ### Packets -/

theorem Heard.born_le_floor (heard : p.Heard) : p.born ≤ p.floor := by
  unfold Pair.floor
  split
  · exact le_rfl
  · next synced => exact (heard.synced synced).1

/-- The flush of the present sync is always harmless. -/
theorem Sound.flushSafe_present (sound : p.Sound) (acked : p.r.initialSyncAcked = true) :
    p.FlushSafe p.s.syncId := by
  obtain ⟨sent, heard, answered⟩ := sound
  constructor
  · unfold Pair.floor
    split
    · obtain ⟨start, mem, body⟩ := heard.booted acked
      have made := heard.heard start mem
      exact Nat.le_trans (answered.boots start made body) (sent.age_le (sent.began start made).1)
    · next synced => exact sent.age_le (heard.sync_mem sent synced)
  · rintro ⟨update, mem, -, newer⟩
    exact Nat.not_lt.mpr (sent.age_le (sent.began update (heard.heard update mem)).1) newer

theorem Sound.flushSafe (sound : p.Sound) (flushes : p.Flushes (.packet update))
    (mem : update ∈ p.net) (flush : update.body = .flush) (acked : p.r.initialSyncAcked = true) :
    p.FlushSafe update.syncId := by
  by_cases present : update.syncId = p.s.syncId
  · rw [present]
    exact sound.flushSafe_present acked
  · exact flushes mem flush acked present

variable {before : List KvpUpdate}

section

variable {r r' : KvpsyncRecv} (takes : Takes update before r r')

include takes

theorem held_of_takes {other : KvpUpdate} (mem : other ∈ r'.held) :
    other ∈ before ∨ other = update.core := by
  unfold Takes at takes
  cases body : update.body with
  | empty =>
    rw [body] at takes
    exact .inl ((takes.2 other).mp mem)
  | start resyncId =>
    rw [body] at takes
    exact .inl ((takes.2 other).mp mem)
  | flush =>
    rw [body] at takes
    exact .inl ((takes.2 other).mp mem).1
  | insert key val =>
    rw [body] at takes
    exact ((takes.2 other).mp mem).imp_right And.left
  | delete key deleteId =>
    rw [body] at takes
    exact ((takes.2 other).mp mem).imp_left And.left

theorem sync_of_takes : r'.syncId = if update.body = .flush then update.syncId else r.syncId := by
  unfold Takes at takes
  cases body : update.body with
  | flush =>
    rw [body] at takes
    rw [if_pos rfl]
    exact takes.1
  | _ =>
    rw [body] at takes
    rw [if_neg nofun]
    exact takes.1

theorem takes_keeps {other : KvpUpdate} (mem : other ∈ before)
    (flush : update.body = .flush → other.syncId = update.syncId) :
    other ∈ r'.held ∨ update.core.Names other := by
  unfold Takes at takes
  cases body : update.body with
  | empty =>
    rw [body] at takes
    exact .inl ((takes.2 other).mpr mem)
  | start resyncId =>
    rw [body] at takes
    exact .inl ((takes.2 other).mpr mem)
  | flush =>
    rw [body] at takes
    exact .inl ((takes.2 other).mpr ⟨mem, flush body⟩)
  | insert key val =>
    rw [body] at takes
    exact .inl ((takes.2 other).mpr (.inl mem))
  | delete key deleteId =>
    rw [body] at takes
    by_cases names : update.core.Names other
    · exact .inr names
    · exact .inl ((takes.2 other).mpr (.inl ⟨mem, names⟩))

theorem takes_insertion (insertion : update.body.isInsert) :
    update.core ∈ r'.held ∨ ∃ deletion ∈ before, deletion.Names update.core := by
  obtain ⟨key, val, body⟩ := KvpBody.insert_of_isInsert insertion
  unfold Takes at takes
  rw [body] at takes
  by_cases named : ∃ deletion ∈ before, deletion.Names update.core
  · exact .inr named
  · exact .inl ((takes.2 _).mpr (.inr ⟨rfl, fun deletion inside names =>
      named ⟨deletion, inside, names⟩⟩))

end

variable {update : KvpUpdate} {r : KvpsyncRecv}

/-- The pair after a packet that is handled. -/
def hears (p : Pair) (r : KvpsyncRecv) (update : KvpUpdate) : Pair :=
  { p with
    hearing := ⟨r, update.core :: p.hearing.heard⟩
    acks := ⟨update.syncId, update.updateId⟩ :: p.acks }

theorem Sent.hears (sent : p.Sent) (r : KvpsyncRecv) (update : KvpUpdate) : (p.hears r update).Sent :=
  { sent with send := sent.send }

theorem Heard.boot (heard : p.Heard) (unacked : p.r.initialSyncAcked = false)
    (start : update.body = .start p.r.recvId) (made : update.core ∈ p.made) :
    (p.hears { p.r with initialSyncAcked := true } update).Heard := by
  obtain ⟨nothing, none⟩ := heard.unacked unacked
  exact {
    born := heard.born
    recv := ⟨heard.recv.known, heard.recv.nodup, heard.recv.exclusive, heard.recv.timers,
      heard.recv.timersNodup⟩
    heard := fun other mem => by
      rcases mem_cons.mp mem with rfl | mem
      · exact made
      · exact heard.heard other mem
    heldHeard := fun other mem => .tail _ (heard.heldHeard other mem)
    inserted := fun other mem insertion => by
      rcases mem_cons.mp mem with rfl | mem
      · have insertion' : update.body.isInsert := insertion
        rw [start] at insertion'
        cases insertion'
      · rw [nothing] at mem
        exact absurd mem not_mem_nil
    unacked := nofun
    booted := fun _ => ⟨update.core, mem_cons_self, start⟩
    synced := fun synced => absurd none synced }

/-- A packet that is handled after that. -/
theorem Heard.take (heard : p.Heard) (sent : p.Sent) (made : update.core ∈ p.made)
    (acked : p.r.initialSyncAcked = true) (recv : RecvSound (· ∈ p.made) r)
    (takes : Takes update (p.r.doGc p.now).held p.r r)
    (still : r.initialSyncAcked = true) (recvId : r.recvId = p.r.recvId)
    (safe : update.body = .flush → p.FlushSafe update.syncId) : (p.hears r update).Heard := by
  have sync := sync_of_takes takes
  have before : ∀ other ∈ (p.r.doGc p.now).held, other ∈ p.hearing.heard := fun other mem =>
    heard.heldHeard other ((held_doGc_sublist p.r p.now).mem mem)
  constructor
  · exact heard.born
  · exact recv
  · intro other mem
    rcases mem_cons.mp mem with rfl | mem
    · exact made
    · exact heard.heard other mem
  · intro other mem
    rcases held_of_takes takes mem with inside | rfl
    · exact .tail _ (before other inside)
    · exact mem_cons_self
  · intro other mem insertion newer
    have newer' : r.syncId = 0 ∨ p.age r.syncId ≤ p.age other.syncId := newer
    rcases mem_cons.mp mem with rfl | mem
    · rcases takes_insertion takes insertion with inside | ⟨deletion, inside, names⟩
      · exact .inl inside
      · exact .inr ⟨deletion, .tail _ (before deletion inside), names⟩
    · -- the receiver was not in a newer sync before, and a flush is of the sync of the insertion
      have older : (p.r.syncId = 0 ∨ p.age p.r.syncId ≤ p.age other.syncId) ∧
          (update.body = .flush → other.syncId = update.syncId) := by
        by_cases flush : update.body = .flush
        · rw [sync, if_pos flush] at newer'
          obtain ⟨low, passed⟩ := safe flush
          have above := newer'.resolve_left (sent.began update.core made).2
          refine ⟨?_, fun _ => ?_⟩
          · unfold Pair.floor at low
            split at low
            · next none => exact .inl none
            · exact .inr (Nat.le_trans low above)
          · refine (age_inj (sent.began update.core made).1 (Nat.le_antisymm above ?_)).symm
            exact Nat.le_of_not_lt fun higher => passed ⟨other, mem, insertion, higher⟩
        · rw [sync, if_neg flush] at newer'
          exact ⟨newer', fun same => absurd same flush⟩
      obtain ⟨key, val, body⟩ := KvpBody.insert_of_isInsert insertion
      rcases heard.inserted other mem insertion older.1 with inside | ⟨deletion, there, names⟩
      · exact (takes_keeps takes (insert_held_doGc heard.recv p.now body inside) older.2).imp_right
          fun names => ⟨update.core, mem_cons_self, names⟩
      · exact .inr ⟨deletion, .tail _ there, names⟩
  · intro unacked
    exact absurd (still.symm.trans unacked) nofun
  · intro _
    obtain ⟨start, mem, body⟩ := heard.booted acked
    exact ⟨start, .tail _ mem, body.trans (congrArg KvpBody.start recvId.symm)⟩
  · intro synced
    show p.born ≤ p.age r.syncId ∧ _
    have synced' : r.syncId ≠ 0 := synced
    by_cases flush : update.body = .flush
    · rw [sync, if_pos flush]
      exact ⟨Nat.le_trans heard.born_le_floor (safe flush).1, update.core, mem_cons_self, flush,
        (sync.trans (if_pos flush)).symm⟩
    · rw [if_neg flush] at sync
      rw [sync] at synced' ⊢
      obtain ⟨newer, flushed, mem, isFlush, same⟩ := heard.synced synced'
      exact ⟨newer, flushed, .tail _ mem, isFlush, same.trans sync.symm⟩

theorem Answered.hears (answered : p.Answered) (sent : p.Sent) (made : update.core ∈ p.made)
    (recvId : r.recvId = p.r.recvId) : (p.hears r update).Answered where
  ackMade ack mem := by
    rcases mem_cons.mp mem with rfl | mem
    · exact .inr ⟨update.core, made, rfl, rfl⟩
    · exact answered.ackMade ack mem
  acks other made' mem newer := by
    rcases mem_cons.mp mem with same | mem
    · rw [KvpAck.mk.injEq] at same
      rw [sent.coherent.unique other update.core made' made same.1 same.2]
      exact mem_cons_self
    · exact .tail _ (answered.acks other made' mem newer)
  acked other mem := .tail _ (answered.acked other mem)
  boots other made' start := answered.boots other made' (start.trans (congrArg KvpBody.start recvId))
  resync request := answered.resync (request.trans recvId)

theorem Answered.turnDown (answered : p.Answered) (sent : p.Sent) :
    Answered { p with acks := ⟨p.r.recvId, 0⟩ :: p.acks } where
  ackMade ack mem := by
    rcases mem_cons.mp mem with rfl | mem
    · exact .inl rfl
    · exact answered.ackMade ack mem
  acks other made mem newer := by
    rcases mem_cons.mp mem with same | mem
    · rw [KvpAck.mk.injEq] at same
      exact absurd same.2 (sent.coherent.numbered other made)
    · exact answered.acks other made mem newer
  acked other mem := .tail _ (answered.acked other mem)
  boots := answered.boots
  resync := answered.resync

/-! ### Acks -/

/-- The pair after the sender has processed an ack. -/
def afterAck (p : Pair) (ack : KvpAck) : Pair :=
  let s := p.s.handleAck ack p.now
  { p with
    s := s
    syncs := if s.syncId = p.s.syncId then p.syncs else p.syncs ++ [s.syncId] }

/-- An ack is no news, or it asks for a resync, or it is the first for an update. -/
inductive Acking (p : Pair) (ack : KvpAck) (next : Pair) : Prop where
  | quiet (outline : next.s.outline = p.s.outline) (syncs : next.syncs = p.syncs)
  | resync (outline : next.s.outline = p.s.outline.resync ack.syncId)
      (syncs : next.syncs = p.syncs ++ [nextSyncId p.s.syncId])
  | first (id : Nat) (mem : id ∈ p.s.unacked) (same : ack.syncId = p.s.syncId)
      (number : (p.s.data id).update.updateId = ack.updateId)
      (outline : next.s.outline = p.s.outline.ackOf id) (syncs : next.syncs = p.syncs)

theorem acking (sent : p.Sent) (ack : KvpAck) (fresh : nextSyncId p.s.syncId ∉ p.syncs) :
    Acking p ack (p.afterAck ack) := by
  have outline := outline_handleAck p.s ack p.now
  rcases Outline.handleAck_cases p.s.outline ack with quiet | ⟨-, resync⟩ | ⟨same, id, mem, number, first⟩
  · rw [quiet] at outline
    exact .quiet outline (if_pos (congrArg Outline.syncId outline))
  · rw [resync] at outline
    have sync : (p.s.handleAck ack p.now).syncId = nextSyncId p.s.syncId :=
      congrArg Outline.syncId outline
    refine .resync outline ?_
    show (if (p.s.handleAck ack p.now).syncId = p.s.syncId then p.syncs
      else p.syncs ++ [(p.s.handleAck ack p.now).syncId]) = _
    rw [sync]
    refine if_neg fun same => fresh ?_
    rw [same]
    exact sent.present
  · rw [first] at outline
    exact .first id mem same number outline (if_pos (congrArg Outline.syncId outline))

theorem moves_ack (sent : p.Sent) {ack : KvpAck} (mem : ack ∈ p.acks)
    (fresh : nextSyncId p.s.syncId ∉ p.syncs) : Moves p (p.afterAck ack) := by
  have acking := acking sent ack fresh
  obtain ⟨made, syncs, acked⟩ : (p.afterAck ack).s.made = p.s.made ∧
      ((p.afterAck ack).syncs = p.syncs ∧ (p.afterAck ack).s.syncId = p.s.syncId ∧
          (p.afterAck ack).s.resyncId = p.s.resyncId ∨
        (p.afterAck ack).syncs = p.syncs ++ [(p.afterAck ack).s.syncId] ∧
          (p.afterAck ack).s.syncId ∉ p.syncs) ∧
      ∀ update ∈ (p.afterAck ack).s.acked, update ∈ p.s.acked ∨
        ⟨update.syncId, update.updateId⟩ ∈ p.acks := by
    cases acking with
    | quiet outline syncs =>
      have acked : (p.afterAck ack).s.acked = p.s.acked := congrArg Outline.acked outline
      exact ⟨congrArg Outline.made outline, .inl ⟨syncs, congrArg Outline.syncId outline,
        congrArg Outline.resyncId outline⟩, fun update inside => .inl (acked ▸ inside)⟩
    | resync outline syncs =>
      have sync : (p.afterAck ack).s.syncId = nextSyncId p.s.syncId :=
        congrArg Outline.syncId outline
      have acked : (p.afterAck ack).s.acked = p.s.acked := congrArg Outline.acked outline
      exact ⟨congrArg Outline.made outline, .inr ⟨sync ▸ syncs, sync ▸ fresh⟩,
        fun update inside => .inl (acked ▸ inside)⟩
    | first id listed same number outline syncs =>
      refine ⟨congrArg Outline.made outline, .inl ⟨syncs, congrArg Outline.syncId outline,
        congrArg Outline.resyncId outline⟩, fun update inside => ?_⟩
      have acked : (p.afterAck ack).s.acked = p.s.acked ++ [p.s.outline.core id] :=
        congrArg Outline.acked outline
      rw [acked] at inside
      refine (mem_append.mp inside).imp_right fun itself => ?_
      have sync := (sent.send.sound.steady.queued id (.inr listed)).2.1
      rw [mem_singleton.mp itself, sync,
        show (p.s.outline.core id).updateId = ack.updateId from number]
      rw [show p.s.outline.syncId = ack.syncId from same.symm]
      exact mem
  have same : ∀ update, update ∈ (p.afterAck ack).made ↔ update ∈ p.made := fun update => by
    rw [mem_made, mem_made, made]
    rfl
  exact {
    hearing := rfl
    rest := ⟨rfl, rfl, rfl⟩
    syncs := syncs
    made := fun update => (same update).mpr
    news := fun update inside => .inl ((same update).mp inside)
    net := fun _ inside => inside
    packets := fun _ inside => .inl inside
    acked := fun update inside => by
      rcases mem_append.mp inside with before | present
      · exact .inl (mem_append_left _ before)
      · exact (acked update present).imp_left (mem_append_right _) }

theorem Sent.afterAck (sent : p.Sent) {ack : KvpAck} (mem : ack ∈ p.acks)
    (fresh : nextSyncId p.s.syncId ∉ p.syncs) : (p.afterAck ack).Sent := by
  have moves := moves_ack sent mem fresh
  have made : (p.afterAck ack).s.made = p.s.made := by
    cases acking sent ack fresh with
    | quiet outline => exact congrArg Outline.made outline
    | resync outline => exact congrArg Outline.made outline
    | first _ _ _ _ outline => exact congrArg Outline.made outline
  refine sent.moves moves ?_ rfl (fun update inside => .inl (made ▸ inside)) fun pkt inside =>
    moves.made _ (sent.net pkt inside)
  refine @KvpsyncSend.step_sound p.s sent.send (.ack ack p.now) fun update inside same => fresh ?_
  rw [← same]
  exact (sent.began update (mem_made.mpr (.inr inside))).1

/-! ### Steps -/

/-- A call that makes updates and sends packets. -/
theorem Sent.call (sent : p.Sent) {s : KvpsyncSend} {pkts : List KvpUpdate} (send : SendSound s)
    (extends' : Outline.Extends p.s.outline s.outline)
    (packets : ∀ pkt ∈ pkts, pkt.core ∈ s.made ∧ pkt.syncId = s.syncId) :
    Sent { p with s := s, net := pkts ++ p.net } := by
  have moves := moves_of_extends extends' fun pkt mem => (packets pkt mem).2
  refine sent.moves moves send rfl (fun update mem => ?_) fun pkt mem => ?_
  · obtain ⟨news, made, each⟩ := extends'.made
    have made' : s.made = p.s.made ++ news := made
    have mem' : update ∈ s.made := mem
    rw [made'] at mem'
    refine (mem_append.mp mem').imp_right fun new => ?_
    exact (each update new).1.trans extends'.same.1.symm
  · rcases mem_append.mp mem with new | before
    · exact mem_made.mpr (.inr (packets pkt new).1)
    · exact moves.made _ (sent.net pkt before)

/-- What the calls of the sender have in common. -/
inductive Call (p : Pair) : Pair → Prop where
  | made (s : KvpsyncSend) (pkts : List KvpUpdate) (send : SendSound s)
      (grows : Outline.Extends p.s.outline s.outline)
      (packets : ∀ pkt ∈ pkts, pkt.core ∈ s.made ∧ pkt.syncId = s.syncId) :
      Call p { p with s := s, net := pkts ++ p.net }

theorem call_add (sent : p.Sent) {val : Bytes} {cb : Option Nat}
    (fresh : p.Fresh (.add key val cb)) : Call p { p with s := p.s.addKey p.now key val cb } := by
  refine .made _ [] (@KvpsyncSend.step_sound p.s sent.send (.add p.now key val cb) fresh) ?_ nofun
  rw [outline_addKey]
  exact Outline.extends_addKey _ key val cb

theorem call_delete (sent : p.Sent) (fresh : p.Fresh (.delete key)) :
    Call p { p with s := p.s.deleteKey key } := by
  refine .made _ [] (@KvpsyncSend.step_sound p.s sent.send (.delete key) fresh) ?_ nofun
  rw [outline_deleteKey]
  exact Outline.extends_deleteKey _ key

theorem call_run (sent : p.Sent) {walk : HashWalk} (fresh : p.Fresh (.run walk)) : Call p { p with
      s := (p.s.run p.now walk).1, net := (p.s.run p.now walk).2.pkt.toList ++ p.net } := by
  refine .made _ _ (run_sound sent.send p.now walk fresh) ?_ fun pkt mem =>
    run_pkt sent.send fresh (Option.mem_toList.mp mem)
  have room : p.s.updateId + (p.s.cache.length + 3) < 2 ^ 32 := fresh
  have advanced : Outline.Extends p.s.outline (p.s.outline.advanceState walk) :=
    Outline.extends_advanceState sent.send.sound walk (show p.s.updateId + 1 < _ by omega)
  rcases (outline_run p.s p.now walk).1 with same | same
  · rw [same]
    exact advanced
  · rw [same]
    exact advanced.trans (Outline.extends_queueNew _ .empty nofun)

/-- What becomes of a packet. -/
inductive Told (p : Pair) (update : KvpUpdate) : Pair → Prop where
  | turnedDown : Told p update { p with acks := ⟨p.r.recvId, 0⟩ :: p.acks }
  | booted (unacked : p.r.initialSyncAcked = false) (start : update.body = .start p.r.recvId) :
      Told p update (p.hears { p.r with initialSyncAcked := true } update)
  | taken (r : KvpsyncRecv) (acked : p.r.initialSyncAcked = true) (recv : RecvSound (· ∈ p.made) r)
      (takes : Takes update (p.r.doGc p.now).held p.r r)
      (still : r.initialSyncAcked = true) (recvId : r.recvId = p.r.recvId)
      (expiry : r.okExpiry = if update.syncId = p.r.syncId ∨ update.body = .flush
        then max update.okExpiry p.r.okExpiry else p.r.okExpiry) :
      Told p update (p.hears r update)

theorem step_packet (sound : p.Sound) (mem : update ∈ p.net) :
    ∃ next, p.step (.packet update) = .ok next ∧ Told p update next := by
  obtain ⟨hearing, ack, outcome, result, handled⟩ := Hearing.step_packet sound.sent.coherent
    sound.heard.recv p.now fun _ _ => sound.sent.net update mem
  have hearing' : hearing = ⟨(p.r.handleUpdate p.now update).1,
      if (p.r.handleUpdate p.now update).1.initialSyncAcked then update.core :: p.hearing.heard
      else p.hearing.heard⟩ := (Except.ok.inj outcome).symm
  have stepped : p.step (.packet update) =
      .ok { p with hearing := hearing, acks := ack :: p.acks } := by
    rw [hearing', show ack = (p.r.handleUpdate p.now update).2 from (congrArg Prod.snd result).symm]
    exact if_pos mem
  refine ⟨_, stepped, ?_⟩
  cases handled with
  | turnedDown => exact .turnedDown
  | booted unacked start => exact .booted unacked start
  | taken r acked recv takes still recvId =>
    have expiry := handleUpdate_okExpiry acked p.now update
    rw [result] at expiry
    exact .taken r acked recv takes still recvId expiry

theorem Sound.call (sound : p.Sound) (call : Call p next) : next.Sound ∧ Moves p next := by
  cases call with
  | made s pkts send grows packets =>
    have moves := moves_of_extends grows fun pkt mem => (packets pkt mem).2
    have sent := sound.sent.call send grows packets
    exact ⟨⟨sent, sound.heard.moves sound.sent moves,
      sound.answered.moves sound.heard sound.sent sent moves⟩, moves⟩

theorem Sound.told (sound : p.Sound) (mem : update ∈ p.net) (flushes : p.Flushes (.packet update))
    (told : Told p update next) : next.Sound := by
  have made := sound.sent.net update mem
  cases told with
  | turnedDown =>
    exact ⟨{ sound.sent with send := sound.sent.send }, { sound.heard with born := sound.heard.born },
      sound.answered.turnDown sound.sent⟩
  | booted unacked start =>
    exact ⟨sound.sent.hears _ _, sound.heard.boot unacked start made,
      sound.answered.hears sound.sent made rfl⟩
  | taken r acked recv takes still recvId expiry =>
    exact ⟨sound.sent.hears _ _, sound.heard.take sound.sent made acked recv takes still recvId
      fun flush => sound.flushSafe flushes mem flush acked,
      sound.answered.hears sound.sent made recvId⟩

theorem Heard.lookup (heard : p.Heard) : Heard { p with hearing.r := p.r.doGc p.now } :=
  { heard with
    recv := doGc_sound heard.recv p.now
    heldHeard := fun update mem =>
      heard.heldHeard update ((held_doGc_sublist p.r p.now).mem mem)
    inserted := fun update mem insertion newer => by
      obtain ⟨key, val, body⟩ := KvpBody.insert_of_isInsert insertion
      exact (heard.inserted update mem insertion newer).imp_left
        (insert_held_doGc heard.recv p.now body) }

theorem Sound.restartRecv (sound : p.Sound) {recvId : Nat} (fresh : p.Fresh (.restartRecv recvId)) :
    Sound { p with hearing := ⟨.init recvId, []⟩, born := p.syncs.length } := by
  obtain ⟨sent, heard, answered⟩ := sound
  have older : ∀ update ∈ p.made, ¬p.syncs.length ≤ p.age update.syncId := fun update mem =>
    Nat.not_le.mpr (idxOf_lt_length_of_mem (sent.began update mem).1)
  exact {
    sent := { sent with send := sent.send }
    heard := {
      born := le_rfl
      recv := init_sound _ recvId
      heard := nofun
      heldHeard := nofun
      inserted := nofun
      unacked := fun _ => ⟨rfl, rfl⟩
      booted := nofun
      synced := fun synced => absurd rfl synced }
    answered := {
      ackMade := answered.ackMade
      acks := fun update made _ newer => absurd newer (older update made)
      acked := answered.acked
      boots := fun update made start => absurd start (fresh.2 update made)
      resync := fun request => absurd request fresh.1 } }

/-- Every step keeps the invariant that uses no id twice and delivers only harmless flushes. -/
theorem step_sound {event : PairEvent} (sound : p.Sound) (fresh : p.Fresh event)
    (flushes : p.Flushes event) : Outcome.Sat (p.step event) Sound fun _ => False := by
  cases event with
  | wait time =>
    exact ⟨{ sound.sent with send := sound.sent.send }, { sound.heard with born := sound.heard.born },
      { sound.answered with ackMade := sound.answered.ackMade }⟩
  | add key val cb => exact (sound.call (call_add sound.sent fresh)).1
  | delete key => exact (sound.call (call_delete sound.sent fresh)).1
  | run walk => exact (sound.call (call_run sound.sent fresh)).1
  | ack ack =>
    by_cases mem : ack ∈ p.acks
    · have stepped : p.step (.ack ack) = .ok (p.afterAck ack) := if_pos mem
      have sent := sound.sent.afterAck mem fresh
      have moves := moves_ack sound.sent mem fresh
      rw [stepped]
      exact ⟨sent, sound.heard.moves sound.sent moves,
        sound.answered.moves sound.heard sound.sent sent moves⟩
    · rw [show p.step (.ack ack) = .ok p from if_neg mem]
      exact sound
  | packet update =>
    by_cases mem : update ∈ p.net
    · obtain ⟨next, outcome, told⟩ := step_packet sound mem
      rw [outcome]
      exact sound.told mem flushes told
    · rw [show p.step (.packet update) = .ok p from if_neg mem]
      exact sound
  | lookup key =>
    show Sound { p with hearing.r := (p.r.getValue p.now key).2 }
    rw [getValue_snd]
    exact ⟨{ sound.sent with send := sound.sent.send }, sound.heard.lookup,
      { sound.answered with ackMade := sound.answered.ackMade }⟩
  | restartSend syncId stateCb =>
    have sent := sound.sent.restart stateCb fresh.1 fresh.2
    have moves : Moves p _ := moves_restart stateCb fresh.2
    exact ⟨sent, sound.heard.moves sound.sent moves,
      sound.answered.moves sound.heard sound.sent sent moves⟩
  | restartRecv recvId => exact sound.restartRecv fresh

theorem start_sound (now : Nat) (valid : syncId ≠ 0 ∧ syncId < 2 ^ 32) (stateCb : Bool) (recvId : Nat) :
    Sound (start now syncId stateCb recvId) where
  sent := {
    send := init_sound now valid stateCb
    order := ⟨⟨[], rfl⟩, nodup_singleton _⟩
    began := nofun
    pastCoherent := ⟨nofun, nofun, nofun, nofun, nofun⟩
    pastApart := nofun
    pastAcked := nofun
    pastContent := nofun
    pastFlushed := nofun
    net := nofun }
  heard := {
    born := Nat.zero_le _
    recv := init_sound _ recvId
    heard := nofun
    heldHeard := nofun
    inserted := nofun
    unacked := fun _ => ⟨rfl, rfl⟩
    booted := nofun
    synced := fun synced => absurd rfl synced }
  answered := {
    ackMade := nofun
    acks := nofun
    acked := nofun
    boots := nofun
    resync := fun _ => Nat.zero_le _ }

end Pair

end Splintermail
