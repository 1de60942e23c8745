/-
This file proves how the history of a sender grows.

Apart from acks, nothing that a sender does takes back what it has made, and what it makes
is of its present sync. An object keeps its type, and what enters the cache is new.
-/

import Splintermail.Kvpsync.Phases

namespace Splintermail

open Outline List

namespace Outline

/-- What the sender does between two acks. -/
structure Extends (o next : Outline) : Prop where
  same : next.syncId = o.syncId ∧ next.resyncId = o.resyncId
  acked : next.acked = o.acked
  added : next.added = o.added
  fresh : o.fresh ≤ next.fresh
  made : ∃ news, next.made = o.made ++ news ∧ ∀ update ∈ news, update.syncId = o.syncId ∧
    ∀ resyncId, update.body = .start resyncId → resyncId = o.resyncId
  bodies : ∀ id, id < o.fresh → (next.core id).body = (o.core id).body
  cache : ∀ id ∈ next.cache, id < o.fresh → id ∈ o.cache

open Extends

variable {o middle next : Outline} {id : Nat}

theorem Extends.refl (o : Outline) : Extends o o where
  same := ⟨rfl, rfl⟩
  acked := rfl
  added := rfl
  fresh := le_rfl
  made := ⟨[], (append_nil _).symm, nofun⟩
  bodies _ _ := rfl
  cache _ mem _ := mem

theorem Extends.trans (first : Extends o middle) (second : Extends middle next) :
    Extends o next where
  same := ⟨second.same.1.trans first.same.1, second.same.2.trans first.same.2⟩
  acked := second.acked.trans first.acked
  added := second.added.trans first.added
  fresh := Nat.le_trans first.fresh second.fresh
  made := by
    obtain ⟨news, made, each⟩ := first.made
    obtain ⟨more, made', each'⟩ := second.made
    refine ⟨news ++ more, by rw [made', made, append_assoc], fun update mem => ?_⟩
    rcases mem_append.mp mem with mem | mem
    · exact each update mem
    · rw [← first.same.1, ← first.same.2]
      exact each' update mem
  bodies id exist := (second.bodies id (Nat.lt_of_lt_of_le exist first.fresh)).trans
    (first.bodies id exist)
  cache id mem exist :=
    first.cache id (second.cache id mem (Nat.lt_of_lt_of_le exist first.fresh)) exist

theorem extends_alloc (o : Outline) (body : KvpBody) (cb : Option Nat) : Extends o (o.alloc body cb) :=
  { refl o with
    fresh := Nat.le_succ _
    bodies := fun id exist => by rw [alloc_core_old o body cb exist] }

theorem extends_queue (o : Outline) (id : Nat)
    (start : ∀ resyncId, (o.core id).body = .start resyncId → resyncId = o.resyncId) :
    Extends o (o.queue id) :=
  { refl o with
    made := ⟨[o.next id], rfl, fun update mem => by
      rw [mem_singleton.mp mem]
      exact ⟨rfl, start⟩⟩
    bodies := fun other _ => queue_body o id other }

theorem extends_queueNew (o : Outline) (body : KvpBody)
    (start : ∀ resyncId, body = .start resyncId → resyncId = o.resyncId) :
    Extends o (o.queueNew body) := by
  refine (extends_alloc o body none).trans (extends_queue _ _ fun resyncId same => ?_)
  rw [alloc_core_new] at same
  exact start resyncId same

theorem extends_foldl (list : List Nat) (o : Outline)
    (insertions : ∀ id ∈ list, (o.core id).body.isInsert) : Extends o (list.foldl queue o) := by
  induction list generalizing o with
  | nil => exact refl o
  | cons id rest ih =>
    refine (extends_queue o id fun resyncId same => ?_).trans (ih (o.queue id) fun other mem => ?_)
    · have insertion := insertions id mem_cons_self
      rw [same] at insertion
      cases insertion
    · rw [queue_body]
      exact insertions other (.tail _ mem)

theorem extends_advanceStart (o : Outline) : Extends o o.advanceStart := by
  unfold advanceStart
  split
  · exact refl o
  · dsimp only
    obtain ⟨started, same, sent⟩ : ∃ started : Outline, started = (if o.startSent then o
        else { o.queueNew (.start o.resyncId) with blocked := true, startSent := true }) ∧
          Extends o started := by
      refine ⟨_, rfl, ?_⟩
      split
      · exact refl o
      · have queued := extends_queueNew o (.start o.resyncId) fun _ same =>
          (KvpBody.start.inj same).symm
        exact { queued with }
    rw [← same]
    split
    · exact sent
    · exact { sent with }

theorem extends_advanceContent (steady : Steady o) (walk : HashWalk) :
    Extends o (o.advanceContent walk) := by
  unfold advanceContent
  split
  · exact refl o
  · dsimp only
    obtain ⟨queued, same, sent⟩ : ∃ queued : Outline, queued = (if o.syncSent then o
        else { (walk.order o.cache).foldl queue o with
          blocked := !o.cache.isEmpty
          syncSent := true
          content := o.content ++ ((walk.order o.cache).foldl queue o).made.drop o.made.length }) ∧
          Extends o queued := by
      refine ⟨_, rfl, ?_⟩
      split
      · exact refl o
      · have folded := extends_foldl (walk.order o.cache) o fun id mem =>
          (steady.cached id ((walk.perm o.cache).mem_iff.mp mem)).2
        exact { folded with }
    rw [← same]
    split
    · exact sent
    · exact { sent with }

theorem extends_advanceState (sound : Sound o) (walk : HashWalk) (room : o.updateId + 1 < 2 ^ 32) :
    Extends o (o.advanceState walk) := by
  unfold advanceState
  split
  · exact refl o
  · dsimp only
    have started := extends_advanceStart o
    have steady := (sound.advanceStart room).1.steady
    generalize o.advanceStart = start at started steady ⊢
    split
    · exact started
    · have content := started.trans (extends_advanceContent steady walk)
      generalize start.advanceContent walk = filled at content ⊢
      split
      · exact content
      · have flushed := content.trans (extends_queueNew filled .flush nofun)
        exact { flushed with }

section

variable (o : Outline)

theorem extends_queueDelete (old : Nat) : Extends o (o.queueDelete old) := by
  unfold queueDelete
  split
  · exact extends_queueNew o _ nofun
  · exact refl o

theorem extends_deleteKey (key : Bytes) : Extends o (o.deleteKey key) := by
  unfold deleteKey
  split
  · exact refl o
  · next id _ =>
    have left : Extends o { o with
        cache := o.cache.filter (· ≠ id), cb := Function.update o.cb id none } :=
      { refl o with cache := fun other mem _ => (mem_filter.mp mem).1 }
    exact left.trans (extends_queueDelete _ id)

theorem extends_queueInsert (insertion : (o.core id).body.isInsert) :
    Extends o (o.queueInsert id) := by
  unfold queueInsert
  split
  · refine extends_queue o id fun resyncId same => ?_
    rw [same] at insertion
    cases insertion
  · exact refl o

theorem extends_addKey (key val : Bytes) (cb : Option Nat) : Extends o (o.addKey key val cb) := by
  unfold addKey
  dsimp only
  have entered : ∀ cache : List Nat, (∀ id ∈ cache, id ∈ o.cache ∨ id = o.fresh) →
      Extends o { o.alloc (.insert key val) cb with cache := cache } := fun cache inside =>
    { extends_alloc o (.insert key val) cb with
      cache := fun id mem exist => (inside id mem).resolve_right (Nat.ne_of_lt exist) }
  have insertion : ((o.alloc (.insert key val) cb).core o.fresh).body.isInsert := by
    rw [alloc_core_new]
    rfl
  split
  · refine (entered _ fun id mem => ?_).trans (extends_queueInsert _ insertion)
    exact (mem_append.mp mem).imp_right mem_singleton.mp
  · next old _ =>
    refine ((entered _ fun id mem => ?_).trans (extends_queueDelete _ old)).trans
      (extends_queueInsert _ ?_)
    · obtain ⟨other, before, rfl⟩ := mem_map.mp mem
      split
      · exact .inr rfl
      · exact .inl before
    · rw [(extends_queueDelete _ old).bodies o.fresh (Nat.lt_succ_self _)]
      exact insertion

/-- An ack is no news, or it asks for a resync, or it is the first for an update. -/
theorem handleAck_cases (ack : KvpAck) :
    o.handleAck ack = o ∨
      ack.updateId = 0 ∧ o.handleAck ack = o.resync ack.syncId ∨
      ack.syncId = o.syncId ∧ ∃ id ∈ o.unacked, (o.core id).updateId = ack.updateId ∧
        o.handleAck ack = o.ackOf id := by
  unfold handleAck
  by_cases request : ack.updateId = 0
  · rw [if_pos request]
    split
    · exact .inl rfl
    · exact .inr (.inl ⟨request, rfl⟩)
  · rw [if_neg request]
    split
    · exact .inl rfl
    · next same =>
      split
      · exact .inl rfl
      · next id found =>
        have number := find?_some found
        rw [decide_eq_true_eq] at number
        exact .inr (.inr ⟨not_not.mp same, id, mem_of_find?_eq_some found, number, rfl⟩)

end

end Outline

end Splintermail
