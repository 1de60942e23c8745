/-
This file proves what a sender knows of its receiver when it sends a flush.

A sync goes through its phases by waiting until nothing is in the packet lists. As an
update stays in the lists until it is acked, a phase begins with the updates of the
phases before it acked: the content of a sync is queued when its start is acked, and its
flush is made when its content is. The proofs need no order of the acks and no timing.
-/

import Splintermail.Kvpsync.Sending

namespace Splintermail

open List

/-- The update starts a sync. -/
def KvpBody.isStart : KvpBody → Bool
  | .start _ => true
  | _ => false

namespace Outline

/-- An update of the sync that starts it, and that was acked. -/
def Started (o : Outline) (syncId : Nat) : Prop :=
  ∃ update ∈ o.acked, update.syncId = syncId ∧ update.body.isStart

/-- The content of the sync was acked. -/
def Delivered (o : Outline) (syncId : Nat) : Prop :=
  ∀ update ∈ o.content, update.syncId = syncId → update ∈ o.acked

/-- The phases of a sync. -/
structure Phased (o : Outline) : Prop where
  pending : ∀ update ∈ o.made, update.syncId = o.syncId →
    update ∈ o.acked ∨ ∃ id, o.listed id ∧ o.core id = update
  apart : o.syncSent = false → ∀ id, o.listed id → id ∉ o.cache
  ackedMade : ∀ update ∈ o.acked, update ∈ o.made
  contentMade : ∀ update ∈ o.content, update ∈ o.made ∧ update.body.isInsert
  contentSent : o.syncSent = false → ∀ update ∈ o.content, update.syncId ≠ o.syncId
  order : (o.startDone = true → o.startSent = true) ∧ (o.syncSent = true → o.startDone = true) ∧
    (o.syncDone = true → o.syncSent = true) ∧ (o.synced = true → o.syncDone = true)
  start : o.startSent = true → ∃ update ∈ o.made, update.syncId = o.syncId ∧ update.body.isStart
  started : o.startSent = true → o.blocked = false ∨ o.startDone = true → o.Started o.syncId
  delivered : o.syncSent = true → o.blocked = false ∨ o.syncDone = true → o.Delivered o.syncId
  flushed : ∀ update ∈ o.made, update.body = .flush →
    o.Started update.syncId ∧ o.Delivered update.syncId ∧
      (update.syncId = o.syncId → o.syncDone = true)
  addedExist : ∀ id, o.added id → id < o.fresh
  served : ∀ id ∈ o.cache, o.added id → o.syncSent = true →
    o.core id ∈ o.content ∨ o.core id ∈ o.acked

variable {o : Outline} {id : Nat}

/-- The objects that are in use. -/
structure Exist (o : Outline) : Prop where
  listed : ∀ id, o.listed id → id < o.fresh
  cached : ∀ id ∈ o.cache, id < o.fresh

theorem Steady.exist (steady : Steady o) : Exist o where
  listed id listed := (steady.queued id (.inl listed)).2.2
  cached id mem := (steady.cached id mem).1

section

variable (phased : Phased o)

include phased

theorem Phased.alloc (exist : Exist o) (body : KvpBody) (cb : Option Nat) :
    Phased (o.alloc body cb) :=
  { phased with
    pending := fun update mem sync =>
      (phased.pending update mem sync).imp_right fun ⟨id, listed, stands⟩ => ⟨id, listed, by
        rw [alloc_core_old o body cb (exist.listed id listed), stands]⟩
    addedExist := fun id added => Nat.lt_succ_of_lt (phased.addedExist id added)
    served := fun id mem added sent => by
      rw [alloc_core_old o body cb (exist.cached id mem)]
      exact phased.served id mem added sent }

/-- An object that is queued was not in the lists; it may be a flush when the sync is done. -/
theorem Phased.queue (unlisted : ¬o.listed id) (outside : o.syncSent = true ∨ id ∉ o.cache)
    (unserved : ¬o.added id) (flush : (o.core id).body = .flush → o.syncDone = true) :
    Phased (o.queue id) := by
  have more : ∀ update ∈ o.made, update ∈ (o.queue id).made := fun update mem =>
    mem_append_left _ mem
  have apart : ∀ other, o.listed other → other ≠ id := fun other listed itself =>
    unlisted (itself ▸ listed)
  exact { phased with
    pending := by
      intro update mem sync
      rcases mem_append.mp mem with mem | mem
      · refine (phased.pending update mem sync).imp_right fun ⟨other, listed, stands⟩ => ?_
        exact ⟨other, .inl listed, (queue_core_other o (apart other listed)).trans stands⟩
      · rw [mem_singleton.mp mem]
        exact .inr ⟨id, .inr rfl, queue_core_self o id⟩
    apart := fun none other listed => by
      rcases listed with listed | rfl
      · exact phased.apart none other listed
      · exact outside.resolve_left fun sent => Bool.noConfusion (sent.symm.trans none)
    ackedMade := fun update mem => more update (phased.ackedMade update mem)
    contentMade := fun update mem => (phased.contentMade update mem).imp_left (more update)
    start := fun sent => by
      obtain ⟨update, mem, rest⟩ := phased.start sent
      exact ⟨update, more update mem, rest⟩
    flushed := by
      intro update mem same
      rcases mem_append.mp mem with mem | mem
      · exact phased.flushed update mem same
      · rw [mem_singleton.mp mem] at same ⊢
        have done := flush same
        have sent := phased.order.2.2.1 done
        have begun := phased.order.2.1 sent
        exact ⟨phased.started (phased.order.1 begun) (.inr begun),
          phased.delivered sent (.inr done), fun _ => done⟩
    served := fun other mem added sent => by
      have apart : other ≠ id := fun itself => unserved (itself ▸ added)
      rw [queue_core_other o apart]
      exact phased.served other mem added sent }

theorem Phased.fresh_unserved : ¬o.added o.fresh := fun added =>
  Nat.lt_irrefl _ (phased.addedExist o.fresh added)

theorem Phased.queueNew (exist : Exist o) (body : KvpBody)
    (flush : body = .flush → o.syncDone = true) : Phased (o.queueNew body) := by
  refine (phased.alloc exist body none).queue (fun listed => Nat.lt_irrefl _ (exist.listed _ listed))
    (.inr fun mem => Nat.lt_irrefl _ (exist.cached _ mem)) phased.fresh_unserved
    fun same => flush ?_
  rw [← same, alloc_core_new]

/-! ### Acks -/

theorem Phased.ackOf (steady : Steady o) (mem : id ∈ o.unacked) : Phased (o.ackOf id) := by
  have more : ∀ update ∈ o.acked, update ∈ (o.ackOf id).acked := fun update mem =>
    mem_append_left _ mem
  have pending : ∀ update ∈ o.made, update.syncId = o.syncId →
      update ∈ (o.ackOf id).acked ∨ ∃ other, (o.ackOf id).listed other ∧ o.core other = update := by
    intro update mem sync
    rcases phased.pending update mem sync with done | ⟨other, listed, stands⟩
    · exact .inl (more update done)
    · by_cases itself : other = id
      · exact .inl (mem_append_right _ (mem_singleton.mpr (itself ▸ stands.symm)))
      · exact .inr ⟨other, ⟨listed, itself⟩, stands⟩
  -- a sender that is no longer blocked has nothing left in its lists
  have all : (o.ackOf id).blocked = false → o.blocked = false ∨
      ∀ update ∈ o.made, update.syncId = o.syncId → update ∈ (o.ackOf id).acked := by
    intro free
    by_cases last : ∀ other, o.listed other → other = id
    · refine .inr fun update mem sync => (pending update mem sync).resolve_right ?_
      rintro ⟨other, ⟨listed, apart⟩, -⟩
      exact apart (last other listed)
    · exact .inl ((if_neg last).symm.trans free)
  exact {
    pending := pending
    apart := fun none other listed => phased.apart none other listed.1
    ackedMade := by
      intro update inside
      rcases mem_append.mp inside with inside | inside
      · exact phased.ackedMade update inside
      · rw [mem_singleton.mp inside]
        exact (steady.queued id (.inr mem)).1
    contentMade := phased.contentMade
    contentSent := phased.contentSent
    order := phased.order
    start := phased.start
    started := by
      intro sent free
      have before : o.blocked = false ∨ o.startDone = true → (o.ackOf id).Started o.syncId :=
        fun free => by
          obtain ⟨update, inside, rest⟩ := phased.started sent free
          exact ⟨update, more update inside, rest⟩
      rcases free with free | done
      · rcases all free with free | all
        · exact before (.inl free)
        · obtain ⟨update, inside, sync, kind⟩ := phased.start sent
          exact ⟨update, all update inside sync, sync, kind⟩
      · exact before (.inr done)
    delivered := by
      intro sent free update inside sync
      have before : o.blocked = false ∨ o.syncDone = true → update ∈ (o.ackOf id).acked :=
        fun free => more update (phased.delivered sent free update inside sync)
      rcases free with free | done
      · rcases all free with free | all
        · exact before (.inl free)
        · exact all update (phased.contentMade update inside).1 sync
      · exact before (.inr done)
    flushed := by
      intro update inside same
      obtain ⟨⟨start, acked, rest⟩, delivered, done⟩ := phased.flushed update inside same
      exact ⟨⟨start, more start acked, rest⟩, fun other inside sync =>
        more other (delivered other inside sync), done⟩
    addedExist := by
      rintro other (added | ⟨rfl, -⟩)
      · exact phased.addedExist other added
      · exact (steady.queued other (.inr mem)).2.2
    served := by
      rintro other inside (added | ⟨rfl, -⟩) sent
      · exact (phased.served other inside added sent).imp_right (more _)
      · exact .inr (mem_append_right _ (mem_singleton.mpr rfl)) }

theorem Phased.resync (resyncId : Nat)
    (unused : ∀ update ∈ o.made, update.syncId ≠ KvpsyncSend.nextSyncId o.syncId) :
    Phased (o.resync resyncId) where
  pending update mem sync := absurd sync (unused update mem)
  apart _ _ listed := listed.elim
  ackedMade := phased.ackedMade
  contentMade := phased.contentMade
  contentSent _ update mem := unused update (phased.contentMade update mem).1
  order := ⟨nofun, nofun, nofun, nofun⟩
  start := nofun
  started := nofun
  delivered := nofun
  flushed update mem same := by
    obtain ⟨started, delivered, -⟩ := phased.flushed update mem same
    exact ⟨started, delivered, fun sync => absurd sync (unused update mem)⟩
  addedExist := phased.addedExist
  served _ _ _ := nofun

theorem Phased.handleAck (steady : Steady o) (ack : KvpAck)
    (unused : ∀ update ∈ o.made, update.syncId ≠ KvpsyncSend.nextSyncId o.syncId) :
    Phased (o.handleAck ack) := by
  unfold Outline.handleAck
  split
  · split
    · exact phased
    · exact phased.resync ack.syncId unused
  · split
    · exact phased
    · split
      · exact phased
      · next found => exact phased.ackOf steady (mem_of_find?_eq_some found)

/-! ### The phases of a sync -/

theorem Phased.advanceStart (steady : Steady o) : Phased o.advanceStart := by
  unfold Outline.advanceStart
  by_cases done : o.startDone = true
  · rw [if_pos done]
    exact phased
  · rw [if_neg done]
    dsimp only
    have begun : ∀ {prop : Prop}, o.startDone = true → prop := fun begun => absurd begun done
    obtain ⟨started, same, sent, notDone, isSent⟩ : ∃ started : Outline, started = (if o.startSent then o
        else { o.queueNew (.start o.resyncId) with blocked := true, startSent := true }) ∧
          Phased started ∧ started.startDone = o.startDone ∧ started.startSent = true := by
      refine ⟨_, rfl, ?_⟩
      split
      · next sent => exact ⟨phased, rfl, sent⟩
      · have queued := phased.queueNew steady.exist (.start o.resyncId) nofun
        refine ⟨{ queued with
          order := ⟨fun _ => rfl, queued.order.2⟩
          start := fun _ => ⟨_, mem_append_right _ (mem_singleton.mpr rfl), rfl, ?_⟩
          started := fun _ free => free.elim nofun begun
          delivered := fun sent _ => begun (phased.order.2.1 sent) }, rfl, rfl⟩
        show ((o.alloc (.start o.resyncId) none).core o.fresh).body.isStart = true
        rw [alloc_core_new]
        rfl
    rw [← same]
    split
    · exact sent
    · next free =>
      have free : started.blocked = false := Bool.eq_false_iff.mpr free
      exact { sent with
        order := ⟨fun _ => isSent, fun _ => rfl, sent.order.2.2⟩
        started := fun isSent _ => sent.started isSent (.inl free) }

end

theorem foldl_queue_rest (list : List Nat) (o : Outline) : list.foldl Outline.queue o = { o with
        updateId := (list.foldl Outline.queue o).updateId
        unacked := (list.foldl Outline.queue o).unacked
        listed := (list.foldl Outline.queue o).listed
        core := (list.foldl Outline.queue o).core
        made := (list.foldl Outline.queue o).made } := by
  induction list generalizing o with
  | nil => rfl
  | cons id rest ih =>
    rw [foldl_cons, ih]
    rfl

theorem foldl_queue_core (list : List Nat) (o : Outline) {other : Nat} (outside : other ∉ list) :
    (list.foldl Outline.queue o).core other = o.core other := by
  induction list generalizing o with
  | nil => rfl
  | cons id rest ih =>
    obtain ⟨apart, outside⟩ := not_or.mp (fun either => outside (mem_cons.mpr either))
    rw [foldl_cons, ih _ outside, queue_core_other o apart]

/-- The updates that are made for the content of a sync. -/
theorem foldl_queue_made (list : List Nat) (o : Outline) (nodup : list.Nodup)
    (insertions : ∀ id ∈ list, (o.core id).body.isInsert) :
    ∃ news, (list.foldl Outline.queue o).made = o.made ++ news ∧ news.length = list.length ∧
      (∀ update ∈ news, update.syncId = o.syncId ∧ update.body.isInsert ∧
        ∃ id, (list.foldl Outline.queue o).listed id ∧
          (list.foldl Outline.queue o).core id = update) ∧
      (∀ id ∈ list, (list.foldl Outline.queue o).core id ∈ news) ∧
        ∀ id, (list.foldl Outline.queue o).listed id ↔ o.listed id ∨ id ∈ list := by
  induction list generalizing o with
  | nil => exact ⟨[], (append_nil _).symm, rfl, nofun, nofun, fun id => by simp⟩
  | cons id rest ih =>
    obtain ⟨outside, nodup⟩ := nodup_cons.mp nodup
    obtain ⟨news, made, length, each, cores, listed⟩ := ih (o.queue id) nodup fun other mem => by
        rw [queue_body]
        exact insertions other (.tail _ mem)
    have first : (rest.foldl Outline.queue (o.queue id)).core id = o.next id := by
      rw [foldl_queue_core rest _ outside, queue_core_self]
    rw [foldl_cons]
    refine ⟨o.next id :: news, by rw [made]; exact append_assoc ..,
      congrArg Nat.succ length, ?_, ?_, fun other => ?_⟩
    · intro update mem
      rcases mem_cons.mp mem with rfl | mem
      · exact ⟨rfl, insertions id mem_cons_self, id, (listed id).mpr (.inl (.inr rfl)), first⟩
      · exact each update mem
    · intro other mem
      rcases mem_cons.mp mem with rfl | mem
      · rw [first]
        exact mem_cons_self
      · exact .tail _ (cores other mem)
    · rw [listed other, mem_cons]
      exact or_assoc

section

variable (phased : Phased o)

include phased

theorem Phased.advanceContent (steady : Steady o) (walk : HashWalk) (begun : o.startDone = true) :
    Phased (o.advanceContent walk) := by
  unfold Outline.advanceContent
  by_cases done : o.syncDone = true
  · rw [if_pos done]
    exact phased
  · rw [if_neg done]
    dsimp only
    have order := walk.perm o.cache
    obtain ⟨queued, same, sent, isSent⟩ : ∃ queued : Outline, queued = (if o.syncSent then o
        else { (walk.order o.cache).foldl Outline.queue o with
          blocked := !o.cache.isEmpty
          syncSent := true
          content := o.content ++
            ((walk.order o.cache).foldl Outline.queue o).made.drop o.made.length }) ∧
          Phased queued ∧ queued.syncSent = true := by
      refine ⟨_, rfl, ?_⟩
      split
      · next sent => exact ⟨phased, sent⟩
      · next unsent =>
        have unsent : o.syncSent = false := Bool.eq_false_iff.mpr unsent
        obtain ⟨news, made, length, each, cores, listed⟩ := foldl_queue_made (walk.order o.cache) o
          (order.nodup_iff.mpr steady.nodup)
          fun id mem => (steady.cached id (order.mem_iff.mp mem)).2
        have rest := foldl_queue_rest (walk.order o.cache) o
        have others : ∀ id, o.listed id →
            ((walk.order o.cache).foldl Outline.queue o).core id = o.core id := fun id inside =>
          foldl_queue_core _ o fun mem => phased.apart unsent id inside (order.mem_iff.mp mem)
        generalize (walk.order o.cache).foldl Outline.queue o = next at made each cores listed rest others ⊢
        rw [made, drop_left] at *
        rw [rest]
        refine ⟨?_, rfl⟩
        have more : ∀ update ∈ o.made, update ∈ o.made ++ news := fun update =>
          mem_append_left _
        exact {
          pending := by
            intro update mem sync
            rcases mem_append.mp (made ▸ mem) with mem | mem
            · refine (phased.pending update mem sync).imp_right fun ⟨id, inside, stands⟩ =>
                ⟨id, (listed id).mpr (.inl inside), (others id inside).trans stands⟩
            · exact .inr (each update mem).2.2
          apart := nofun
          ackedMade := fun update mem => by
            rw [made]
            exact more update (phased.ackedMade update mem)
          contentMade := fun update mem => by
            rw [made]
            rcases mem_append.mp mem with mem | mem
            · exact (phased.contentMade update mem).imp_left (more update)
            · exact ⟨mem_append_right _ mem, (each update mem).2.1⟩
          contentSent := nofun
          order := ⟨phased.order.1, fun _ => begun, fun _ => rfl, phased.order.2.2.2⟩
          start := fun sent => by
            obtain ⟨update, mem, rest⟩ := phased.start sent
            rw [made]
            exact ⟨update, more update mem, rest⟩
          started := fun sent _ => phased.started sent (.inr begun)
          delivered := by
            intro _ free update mem sync
            rcases free with free | past
            · rcases mem_append.mp mem with mem | mem
              · exact absurd sync (phased.contentSent unsent update mem)
              · -- a sender that is not blocked has nothing in its cache
                have empty : o.cache.isEmpty = true := by simpa using free
                rw [order.length_eq, isEmpty_iff.mp empty] at length
                rw [eq_nil_of_length_eq_zero length] at mem
                exact absurd mem not_mem_nil
            · exact absurd past done
          flushed := by
            intro update mem same
            rw [made] at mem
            rcases mem_append.mp mem with mem | mem
            · obtain ⟨started, delivered, past⟩ := phased.flushed update mem same
              refine ⟨started, fun other inside sync => ?_, past⟩
              rcases mem_append.mp inside with inside | inside
              · exact delivered other inside sync
              · exact absurd (past (sync.symm.trans (each other inside).1)) done
            · have kind := (each update mem).2.1
              rw [same] at kind
              cases kind
          addedExist := phased.addedExist
          served := fun id mem _ _ =>
            .inl (mem_append_right _ (cores id (order.mem_iff.mpr mem))) }
    rw [← same]
    split
    · exact sent
    · next free =>
      have free : queued.blocked = false := Bool.eq_false_iff.mpr free
      exact { sent with
        order := ⟨sent.order.1, sent.order.2.1, fun _ => isSent, fun _ => rfl⟩
        delivered := fun isSent _ => sent.delivered isSent (.inl free)
        flushed := fun update mem same =>
          (sent.flushed update mem same).imp_right fun both => ⟨both.1, fun _ => rfl⟩ }

theorem Phased.advanceState (sound : Sound o) (walk : HashWalk)
    (room : o.updateId + o.cache.length + 2 < 2 ^ 32) : Phased (o.advanceState walk) := by
  unfold Outline.advanceState
  split
  · exact phased
  · dsimp only
    have started := phased.advanceStart sound.steady
    obtain ⟨soundStart, cache, count⟩ := sound.advanceStart (by omega)
    generalize o.advanceStart = start at started soundStart cache count ⊢
    split
    · exact started
    · next begun =>
      have begun : start.startDone = true := by simpa using begun
      have content := started.advanceContent soundStart.steady walk begun
      obtain ⟨soundContent, -⟩ := soundStart.advanceContent walk (by rw [cache]; omega)
      generalize start.advanceContent walk = filled at content soundContent ⊢
      split
      · exact content
      · next done =>
        have done : filled.syncDone = true := by simpa using done
        have flushed := content.queueNew soundContent.steady.exist .flush fun _ => done
        exact { flushed with
          order := ⟨flushed.order.1, flushed.order.2.1, flushed.order.2.2.1, fun _ => done⟩ }

/-! ### Keys -/

theorem Phased.withCb (cb : Nat → Option Nat) : Phased { o with cb := cb } :=
  { phased with }

theorem Phased.recache (cache : List Nat)
    (inside : ∀ id ∈ cache, id ∈ o.cache ∨ ¬o.listed id ∧ ¬o.added id) :
    Phased { o with cache := cache } :=
  { phased with
    apart := fun none id listed mem => (inside id mem).elim (phased.apart none id listed)
      fun both => both.1 listed
    served := fun id mem added sent => (inside id mem).elim
      (fun before => phased.served id before added sent) fun both => absurd added both.2 }

theorem Phased.queueDelete (exist : Exist o) (old : Nat) : Phased (o.queueDelete old) := by
  unfold Outline.queueDelete
  split
  · exact phased.queueNew exist _ nofun
  · exact phased

theorem Phased.deleteKey (steady : Steady o) (key : Bytes) : Phased (o.deleteKey key) := by
  unfold Outline.deleteKey
  split
  · exact phased
  · next id _ =>
    have inside : ∀ other ∈ o.cache.filter (· ≠ id), other ∈ o.cache := fun other mem =>
      (mem_filter.mp mem).1
    have left := (phased.withCb (Function.update o.cb id none)).recache _ fun other mem =>
      .inl (inside other mem)
    exact left.queueDelete ⟨steady.exist.listed, fun other mem =>
      steady.exist.cached other (inside other mem)⟩ id

theorem Phased.queueInsert (unlisted : ¬o.listed id) (unserved : ¬o.added id)
    (insertion : (o.core id).body.isInsert) : Phased (o.queueInsert id) := by
  unfold Outline.queueInsert
  split
  · next sent =>
    refine phased.queue unlisted (.inl sent) unserved fun flush => ?_
    rw [flush] at insertion
    cases insertion
  · exact phased

theorem Phased.addKey (steady : Steady o) (key val : Bytes) (cb : Option Nat) :
    Phased (o.addKey key val cb) := by
  unfold Outline.addKey
  dsimp only
  have unlisted : ¬o.listed o.fresh := fun listed => Nat.lt_irrefl _ (steady.exist.listed _ listed)
  have start := phased.alloc steady.exist (.insert key val) cb
  have core := alloc_core_new o (.insert key val) cb
  have exist : ∀ cache : List Nat, (∀ id ∈ cache, id ∈ o.cache ∨ id = o.fresh) →
      Exist { o.alloc (.insert key val) cb with cache := cache } := fun cache inside => {
    listed := fun id listed => Nat.lt_succ_of_lt (steady.exist.listed id listed)
    cached := fun id mem => by
      rcases inside id mem with before | rfl
      · exact Nat.lt_succ_of_lt (steady.exist.cached id before)
      · exact Nat.lt_succ_self _ }
  have recached : ∀ cache : List Nat, (∀ id ∈ cache, id ∈ o.cache ∨ id = o.fresh) →
      Phased { o.alloc (.insert key val) cb with cache := cache } := fun cache inside =>
    start.recache cache fun id mem => (inside id mem).imp_right fun itself => by
      rw [itself]
      exact ⟨unlisted, phased.fresh_unserved⟩
  split
  · refine (recached _ fun id mem => ?_).queueInsert unlisted phased.fresh_unserved ?_
    · exact (mem_append.mp mem).imp_right mem_singleton.mp
    · show ((o.alloc (.insert key val) cb).core o.fresh).body.isInsert
      rw [core]
      rfl
  · next old _ =>
    have inside : ∀ id ∈ (o.alloc (.insert key val) cb).cache.map
        (fun other => if other = old then o.fresh else other), id ∈ o.cache ∨ id = o.fresh := by
      intro id mem
      obtain ⟨other, before, rfl⟩ := mem_map.mp mem
      split
      · exact .inr rfl
      · exact .inl before
    have replaced := recached _ inside
    have exist' := exist _ inside
    generalize (o.alloc (.insert key val) cb).cache.map
      (fun other => if other = old then o.fresh else other) = cache at replaced exist' ⊢
    refine (replaced.queueDelete exist' old).queueInsert ?_ ?_ ?_
    · unfold Outline.queueDelete
      split
      · rintro (listed | itself)
        · exact unlisted listed
        · exact absurd itself (Nat.ne_of_lt (Nat.lt_succ_self _))
      · exact unlisted
    · unfold Outline.queueDelete
      split
      · exact phased.fresh_unserved
      · exact phased.fresh_unserved
    · have kept : ∀ next : Outline, next = Outline.queueDelete
          { o.alloc (.insert key val) cb with cache := cache } old →
            next.core o.fresh = (o.alloc (.insert key val) cb).core o.fresh := by
        rintro next rfl
        unfold Outline.queueDelete
        split
        · exact (queue_core_other _ (Nat.ne_of_lt (Nat.lt_succ_self _))).trans
            (alloc_core_old _ _ none (Nat.lt_succ_self _))
        · rfl
      rw [kept _ rfl, core]
      rfl

end

end Outline

/-! ### Runs of a sender -/

/-- What always holds of a sender, as long as its counters do not wrap around. -/
structure SendSound (s : KvpsyncSend) : Prop where
  sound : s.outline.Sound
  phased : s.outline.Phased

namespace KvpsyncSend

theorem init_sound (now : Nat) {syncId : Nat} (random : syncId ≠ 0 ∧ syncId < 2 ^ 32) (stateCb : Bool) :
    SendSound (init now syncId stateCb) where
  sound := {
    steady := {
      sync := random
      syncs := nofun
      coherent := ⟨nofun, nofun, nofun, nofun, nofun⟩
      numbers := nofun
      queued := fun _ mem => by
        rcases mem with (listed | listed) | mem
        · exact absurd listed not_mem_nil
        · exact absurd listed not_mem_nil
        · exact absurd mem not_mem_nil
      cached := nofun
      keys := nofun
      nodup := nodup_nil }
    filled := ⟨nofun, fun _ _ newest => absurd newest.member not_mem_nil⟩ }
  phased := {
    pending := nofun
    apart := fun _ _ _ => not_mem_nil
    ackedMade := nofun
    contentMade := nofun
    contentSent := fun _ => nofun
    order := ⟨nofun, nofun, nofun, nofun⟩
    start := nofun
    started := nofun
    delivered := nofun
    flushed := nofun
    addedExist := fun _ ⟨_, mem⟩ => absurd mem not_mem_nil
    served := nofun }

section

variable {s : KvpsyncSend} (sound : SendSound s)

include sound

theorem run_sound (now : Nat) (walk : HashWalk)
    (room : s.updateId + (s.cache.length + 3) < 2 ^ 32) : SendSound (s.run now walk).1 := by
  obtain ⟨advanced, cache, count⟩ := sound.sound.advanceState walk
    (show s.updateId + s.cache.length + 2 < _ by omega)
  have phased := sound.phased.advanceState sound.sound walk
    (show s.updateId + s.cache.length + 2 < _ by omega)
  have bound : (s.outline.advanceState walk).updateId ≤ s.updateId + (s.cache.length + 2) := count
  rcases (outline_run s now walk).1 with same | same
  · exact ⟨same ▸ advanced, same ▸ phased⟩
  · obtain ⟨steady, filled⟩ := Outline.queueNew_keyless advanced.steady advanced.filled (by omega)
      (show KvpBody.empty.key = none from rfl)
    exact ⟨same ▸ ⟨steady, filled⟩, same ▸ phased.queueNew advanced.steady.exist .empty nofun⟩

theorem step_sound {event : SendEvent} (room : s.Room event) :
    Outcome.Sat (s.step event) SendSound fun _ => False := by
  cases event with
  | add now key val cb =>
    refine ⟨?_, ?_⟩
    · rw [outline_addKey]
      exact sound.sound.addKey key val cb room
    · rw [outline_addKey]
      exact sound.phased.addKey sound.sound.steady key val cb
  | delete key =>
    refine ⟨?_, ?_⟩
    · rw [outline_deleteKey]
      exact sound.sound.deleteKey key room
    · rw [outline_deleteKey]
      exact sound.phased.deleteKey sound.sound.steady key
  | ack ack now =>
    refine ⟨?_, ?_⟩
    · rw [outline_handleAck]
      exact sound.sound.handleAck ack room
    · rw [outline_handleAck]
      exact sound.phased.handleAck sound.sound.steady ack room
  | run now walk => exact run_sound sound now walk room

/-- A packet that goes out is an update that was made in the present sync. -/
theorem run_pkt {now : Nat} {walk : HashWalk} (room : s.Room (.run now walk)) {pkt : KvpUpdate}
    (sent : (s.run now walk).2.pkt = some pkt) :
    pkt.core ∈ (s.run now walk).1.made ∧ pkt.syncId = (s.run now walk).1.syncId := by
  obtain ⟨id, listed, stands⟩ := (outline_run s now walk).2 pkt sent
  obtain ⟨made, sync, -⟩ := (step_sound sound room).sound.steady.queued id (.inl listed)
  rw [stands] at made sync
  exact ⟨made, sync⟩

end

end KvpsyncSend

end Splintermail
