/-
This file proves what the updates of a sender say about its cache.

The updates that a sender makes in one sync are a history of the cache: the newest update
for a key is the insertion of what is cached for it, or there is nothing cached. Between
two updates this fails for the objects whose insertion is still to be made; before the
content of a sync is queued these are all. The invariant is therefore stated for a set of
waiting objects, and every operation of the outline says what it does to this set.
-/

import Splintermail.Kvpsync.Outline

namespace Splintermail

open List KvpBody Newest

/-- The update inserts. -/
def KvpBody.isInsert : KvpBody → Bool
  | .insert _ _ => true
  | _ => false

/-- Two updates are for the same key in the same sync. -/
def KvpUpdate.Alike (update other : KvpUpdate) : Prop :=
  update.syncId = other.syncId ∧ update.body.key ≠ none ∧ update.body.key = other.body.key

instance (update other : KvpUpdate) : Decidable (update.Alike other) :=
  inferInstanceAs (Decidable (_ ∧ _))

theorem KvpBody.insert_of_isInsert {body : KvpBody} (insertion : body.isInsert) :
    ∃ key val, body = .insert key val := by
  cases body with
  | insert key val => exact ⟨key, val, rfl⟩
  | _ => cases insertion

theorem KvpBody.key_of_isInsert {body : KvpBody} (insertion : body.isInsert) :
    body.key = some body.name := by
  obtain ⟨key, val, rfl⟩ := insert_of_isInsert insertion
  rfl

/-! ### Histories -/

section

variable {made : List KvpUpdate} {update : KvpUpdate}

/-- A history goes on with an update of a higher number. -/
theorem Coherent.snoc (coherent : Coherent (· ∈ made)) (bare : update.okExpiry = 0)
    (numbered : update.updateId ≠ 0)
    (highest : ∀ other ∈ made, other.syncId = update.syncId → other.updateId < update.updateId)
    (named : ∀ key deleteId, update.body = .delete key deleteId → ∃ insertion ∈ made,
      insertion.syncId = update.syncId ∧ insertion.updateId = deleteId ∧ insertion.body.isInsert) :
    Coherent (· ∈ made ++ [update]) where
  bare other mem := by
    rcases mem_append.mp mem with mem | mem
    · exact coherent.bare other mem
    · rw [mem_singleton.mp mem]
      exact bare
  numbered other mem := by
    rcases mem_append.mp mem with mem | mem
    · exact coherent.numbered other mem
    · rw [mem_singleton.mp mem]
      exact numbered
  unique first second here there sync number := by
    rcases mem_append.mp here with here | here <;> rcases mem_append.mp there with there | there
    · exact coherent.unique first second here there sync number
    · rw [mem_singleton.mp there] at sync number
      exact absurd number (Nat.ne_of_lt (highest first here sync))
    · rw [mem_singleton.mp here] at sync number
      exact absurd number.symm (Nat.ne_of_lt (highest second there sync.symm))
    · rw [mem_singleton.mp here, mem_singleton.mp there]
  named deletion mem key deleteId body := by
    rcases mem_append.mp mem with mem | mem
    · exact coherent.named deletion mem key deleteId body
    · rw [mem_singleton.mp mem] at body ⊢
      obtain ⟨insertion, inside, sync, number, -⟩ := named key deleteId body
      rw [← number]
      exact ⟨coherent.numbered insertion inside, highest insertion inside sync⟩
  target deletion other here there names := by
    obtain ⟨sync, key, about, body⟩ := names
    rcases mem_append.mp here with here | here <;> rcases mem_append.mp there with there | there
    · exact coherent.target deletion other here there ⟨sync, key, about, body⟩
    · rw [mem_singleton.mp there] at sync body
      have older := (coherent.named deletion here key _ body).2
      exact absurd (highest deletion here sync) (Nat.lt_asymm older)
    · rw [mem_singleton.mp here] at sync body
      obtain ⟨insertion, inside, sync', number, kind⟩ := named key _ body
      rw [← coherent.unique insertion other inside there (sync'.trans sync) number]
      exact insert_of_isInsert kind
    · rw [mem_singleton.mp here, mem_singleton.mp there] at body
      rw [mem_singleton.mp here] at sync
      obtain ⟨insertion, inside, sync', number, -⟩ := named key _ body
      exact absurd number (Nat.ne_of_lt (highest insertion inside sync'))

variable {syncId : Nat} {key : Bytes} {newest : KvpUpdate}

/-- The update with the highest number is the newest for its key. -/
theorem Newest.snoc_self (highest : ∀ other ∈ made, other.syncId = update.syncId →
      other.updateId < update.updateId) (about : update.body.key = some key) :
    Newest (made ++ [update]) update.syncId key update where
  member := mem_append_right _ (mem_singleton.mpr rfl)
  sync := rfl
  about := about
  highest other mem sync _ := by
    rcases mem_append.mp mem with mem | mem
    · exact Nat.le_of_lt (highest other mem sync)
    · rw [mem_singleton.mp mem]

theorem Newest.of_snoc (highest : ∀ other ∈ made, other.syncId = update.syncId →
      other.updateId < update.updateId) (about : update.body.key = some key)
    (top : Newest (made ++ [update]) update.syncId key newest) : newest = update := by
  rcases mem_append.mp top.member with mem | mem
  · have above := top.highest update (mem_append_right _ (mem_singleton.mpr rfl)) rfl about
    exact absurd (highest newest mem top.sync) (Nat.not_lt.mpr above)
  · exact mem_singleton.mp mem

theorem Newest.snoc_other (other : ¬(update.syncId = syncId ∧ update.body.key = some key)) :
    Newest (made ++ [update]) syncId key newest ↔ Newest made syncId key newest := by
  constructor
  · rintro ⟨mem, sync, about, highest⟩
    refine ⟨?_, sync, about, fun one inside => highest one (mem_append_left _ inside)⟩
    rcases mem_append.mp mem with mem | mem
    · exact mem
    · rw [mem_singleton.mp mem] at sync about
      exact absurd ⟨sync, about⟩ other
  · rintro ⟨mem, sync, about, highest⟩
    refine ⟨mem_append_left _ mem, sync, about, fun one inside sync' about' => ?_⟩
    rcases mem_append.mp inside with inside | inside
    · exact highest one inside sync' about'
    · rw [mem_singleton.mp inside] at sync' about'
      exact absurd ⟨sync', about'⟩ other

end

namespace Outline

/-! ### The invariants -/

/-- The update that is queued next, for the object. -/
def next (o : Outline) (id : Nat) : KvpUpdate :=
  ⟨0, o.syncId, (o.updateId + 1) % 2 ^ 32, (o.core id).body⟩

/-- The objects in the lists stand for updates that were made, and those in the cache insert, one for
each key. -/
structure Steady (o : Outline) : Prop where
  sync : o.syncId ≠ 0 ∧ o.syncId < 2 ^ 32
  syncs : ∀ update ∈ o.made, update.syncId ≠ 0
  coherent : Coherent (· ∈ o.made)
  numbers : ∀ update ∈ o.made, update.syncId = o.syncId → update.updateId ≤ o.updateId
  queued : ∀ id, o.listed id ∨ id ∈ o.unacked →
    o.core id ∈ o.made ∧ (o.core id).syncId = o.syncId ∧ id < o.fresh
  cached : ∀ id ∈ o.cache, id < o.fresh ∧ (o.core id).body.isInsert
  keys : ∀ id ∈ o.cache, ∀ other ∈ o.cache, (o.core id).body.key = (o.core other).body.key → id = other
  nodup : o.cache.Nodup

/-- What is cached and does not wait is the newest insertion of its key, and no other insertion is
newest. -/
structure Filled (o : Outline) (waiting : Nat → Prop) : Prop where
  contents : ∀ id ∈ o.cache, ¬waiting id → ∃ key, Newest o.made o.syncId key (o.core id)
  absent : ∀ key update, Newest o.made o.syncId key update → update.body.isInsert →
    ∃ id ∈ o.cache, ¬waiting id ∧ o.core id = update

/-- Everything waits until the content of the sync is queued. -/
structure Sound (o : Outline) : Prop where
  steady : Steady o
  filled : Filled o fun _ => o.syncSent = false

/-! ### Queueing -/

variable {o : Outline} {waiting : Nat → Prop} {id : Nat}

theorem next_updateId (room : o.updateId + 1 < 2 ^ 32) (id : Nat) :
    (o.next id).updateId = o.updateId + 1 := Nat.mod_eq_of_lt room

theorem Steady.highest (steady : Steady o) (room : o.updateId + 1 < 2 ^ 32) (id : Nat) :
    ∀ other ∈ o.made, other.syncId = (o.next id).syncId →
      other.updateId < (o.next id).updateId := by
  intro other mem sync
  rw [next_updateId room id]
  exact Nat.lt_succ_of_le (steady.numbers other mem sync)

@[simp] theorem queue_core_self (o : Outline) (id : Nat) : (o.queue id).core id = o.next id :=
  Function.update_self ..

theorem queue_core_other (o : Outline) {id other : Nat} (apart : other ≠ id) :
    (o.queue id).core other = o.core other := Function.update_of_ne apart ..

theorem queue_body (o : Outline) (id other : Nat) :
    ((o.queue id).core other).body = (o.core other).body := by
  by_cases same : other = id
  · rw [same, queue_core_self]
    rfl
  · rw [queue_core_other o same]

theorem Steady.queue (steady : Steady o) (room : o.updateId + 1 < 2 ^ 32) (exist : id < o.fresh)
    (named : ∀ key deleteId, (o.core id).body = .delete key deleteId → ∃ insertion ∈ o.made,
      insertion.syncId = o.syncId ∧ insertion.updateId = deleteId ∧ insertion.body.isInsert) :
    Steady (o.queue id) where
  sync := steady.sync
  syncs update mem := by
    rcases mem_append.mp mem with mem | mem
    · exact steady.syncs update mem
    · rw [mem_singleton.mp mem]
      exact steady.sync.1
  coherent := steady.coherent.snoc rfl (by rw [Nat.mod_eq_of_lt room]; exact Nat.succ_ne_zero _)
    (steady.highest room id) named
  numbers update mem sync := by
    show update.updateId ≤ (o.updateId + 1) % 2 ^ 32
    rw [Nat.mod_eq_of_lt room]
    rcases mem_append.mp mem with mem | mem
    · exact Nat.le_succ_of_le (steady.numbers update mem sync)
    · rw [mem_singleton.mp mem]
      exact Nat.le_of_eq (Nat.mod_eq_of_lt room)
  queued other mem := by
    by_cases same : other = id
    · rw [same, queue_core_self]
      exact ⟨mem_append_right _ (mem_singleton.mpr rfl), rfl, exist⟩
    · rw [queue_core_other o same]
      have before : o.listed other ∨ other ∈ o.unacked := by
        rcases mem with (listed | itself) | unacked
        · exact .inl listed
        · exact absurd itself same
        · rcases mem_append.mp unacked with unacked | itself
          · exact .inr (mem_filter.mp unacked).1
          · exact absurd (mem_singleton.mp itself) same
      obtain ⟨made, sync, exist⟩ := steady.queued other before
      exact ⟨mem_append_left _ made, sync, exist⟩
  cached other mem := by
    rw [queue_body]
    exact steady.cached other mem
  keys first here second there same := by
    rw [queue_body, queue_body] at same
    exact steady.keys first here second there same
  nodup := steady.nodup

theorem Filled.queue_keyless (filled : Filled o waiting) (keyless : (o.core id).body.key = none)
    (outside : id ∉ o.cache) : Filled (o.queue id) waiting := by
  have same : ∀ key newest, Newest (o.queue id).made o.syncId key newest ↔
      Newest o.made o.syncId key newest := fun key newest =>
    snoc_other fun both => Option.some_ne_none key
      ((show (o.core id).body.key = some key from both.2).symm.trans keyless)
  have kept : ∀ other ∈ o.cache, (o.queue id).core other = o.core other := fun other mem =>
    queue_core_other o fun itself => outside (itself ▸ mem)
  constructor
  · intro other mem ready
    obtain ⟨key, newest⟩ := filled.contents other mem ready
    rw [kept other mem]
    exact ⟨key, (same key _).mpr newest⟩
  · intro key update newest insertion
    obtain ⟨other, mem, ready, stands⟩ := filled.absent key update ((same key update).mp newest)
      insertion
    exact ⟨other, mem, ready, (kept other mem).trans stands⟩

theorem Filled.queue_insert (filled : Filled o waiting) (steady : Steady o)
    (room : o.updateId + 1 < 2 ^ 32) (mem : id ∈ o.cache) :
    Filled (o.queue id) fun other => waiting other ∧ other ≠ id := by
  have insertion := (steady.cached id mem).2
  have about : (o.next id).body.key = some (o.core id).body.name := key_of_isInsert insertion
  have itself : ¬(waiting id ∧ id ≠ id) := fun both => both.2 rfl
  constructor
  · intro other inside ready
    by_cases same : other = id
    · rw [same, queue_core_self]
      exact ⟨_, snoc_self (steady.highest room id) about⟩
    · obtain ⟨key, newest⟩ := filled.contents other inside fun waits => ready ⟨waits, same⟩
      rw [queue_core_other o same]
      refine ⟨key, (snoc_other fun both => same ?_).mpr newest⟩
      exact steady.keys other inside id mem (newest.about.trans both.2.symm)
  · intro key update newest kind
    by_cases mine : (o.core id).body.name = key
    · subst mine
      have same := of_snoc (steady.highest room id) about newest
      exact ⟨id, mem, itself, (queue_core_self o id).trans same.symm⟩
    · have other : ¬((o.next id).syncId = o.syncId ∧ (o.next id).body.key = some key) :=
        fun both => mine (Option.some.inj (about.symm.trans both.2))
      obtain ⟨held, inside, ready, stands⟩ := filled.absent key update
        ((snoc_other other).mp newest) kind
      have apart : held ≠ id := by
        rintro rfl
        have key' := ((snoc_other other).mp newest).about
        rw [← stands] at key'
        exact mine (Option.some.inj ((key_of_isInsert insertion).symm.trans key'))
      exact ⟨held, inside, fun both => ready both.1, (queue_core_other o apart).trans stands⟩

variable {old : Nat}

/-- What a deletion names waits until it leaves the cache. -/
theorem Filled.queue_delete (filled : Filled o waiting) (steady : Steady o)
    (room : o.updateId + 1 < 2 ^ 32) (mem : old ∈ o.cache) (outside : id ∉ o.cache)
    (body : (o.core id).body = .delete (o.core old).body.name (o.core old).updateId) :
    Filled (o.queue id) fun other => waiting other ∨ other = old := by
  have about : (o.next id).body.key = some (o.core old).body.name := by
    show (o.core id).body.key = _
    rw [body]
    rfl
  have kept : ∀ other ∈ o.cache, (o.queue id).core other = o.core other := fun other mem =>
    queue_core_other o fun itself => outside (itself ▸ mem)
  have name := key_of_isInsert (steady.cached old mem).2
  constructor
  · intro other inside ready
    obtain ⟨key, newest⟩ := filled.contents other inside fun waits => ready (.inl waits)
    rw [kept other inside]
    refine ⟨key, (snoc_other fun both => ready (.inr ?_)).mpr newest⟩
    refine steady.keys other inside old mem ?_
    rw [newest.about, name, ← about]
    exact both.2.symm
  · intro key update newest kind
    by_cases mine : (o.core old).body.name = key
    · subst mine
      have same := of_snoc (steady.highest room id) about newest
      rw [same] at kind
      have kind' : (o.core id).body.isInsert := kind
      rw [body] at kind'
      cases kind'
    · have other : ¬((o.next id).syncId = o.syncId ∧ (o.next id).body.key = some key) :=
        fun both => mine (Option.some.inj (about.symm.trans both.2))
      have before := (snoc_other other).mp newest
      obtain ⟨held, inside, ready, stands⟩ := filled.absent key update before kind
      refine ⟨held, inside, fun either => ?_, (kept held inside).trans stands⟩
      rcases either with waits | rfl
      · exact ready waits
      · have key' := before.about
        rw [← stands, name] at key'
        exact mine (Option.some.inj key')

/-! ### New objects -/

theorem alloc_core_new (o : Outline) (body : KvpBody) (cb : Option Nat) :
    (o.alloc body cb).core o.fresh = ⟨0, 0, 0, body⟩ := Function.update_self ..

theorem alloc_core_old (o : Outline) (body : KvpBody) (cb : Option Nat) {id : Nat}
    (exist : id < o.fresh) : (o.alloc body cb).core id = o.core id :=
  Function.update_of_ne (Nat.ne_of_lt exist) ..

theorem Steady.alloc (steady : Steady o) (body : KvpBody) (cb : Option Nat) :
    Steady (o.alloc body cb) :=
  { steady with
    queued := fun id mem => by
      obtain ⟨made, sync, exist⟩ := steady.queued id mem
      rw [alloc_core_old o body cb exist]
      exact ⟨made, sync, Nat.lt_succ_of_lt exist⟩
    cached := fun id mem => by
      obtain ⟨exist, insertion⟩ := steady.cached id mem
      rw [alloc_core_old o body cb exist]
      exact ⟨Nat.lt_succ_of_lt exist, insertion⟩
    keys := fun id here other there same => by
      rw [alloc_core_old o body cb (steady.cached id here).1,
        alloc_core_old o body cb (steady.cached other there).1] at same
      exact steady.keys id here other there same }

theorem Filled.alloc (filled : Filled o waiting) (steady : Steady o) (body : KvpBody)
    (cb : Option Nat) : Filled (o.alloc body cb) waiting := by
  have kept : ∀ id ∈ o.cache, (o.alloc body cb).core id = o.core id := fun id mem =>
    alloc_core_old o body cb (steady.cached id mem).1
  constructor
  · intro id mem ready
    rw [kept id mem]
    exact filled.contents id mem ready
  · intro key update newest insertion
    obtain ⟨id, mem, ready, stands⟩ := filled.absent key update newest insertion
    exact ⟨id, mem, ready, (kept id mem).trans stands⟩

theorem Steady.fresh_outside (steady : Steady o) : o.fresh ∉ o.cache := fun mem =>
  Nat.lt_irrefl _ (steady.cached o.fresh mem).1

theorem queueNew_keyless (steady : Steady o) (filled : Filled o waiting)
    (room : o.updateId + 1 < 2 ^ 32) {body : KvpBody} (keyless : body.key = none) :
    Steady (o.queueNew body) ∧ Filled (o.queueNew body) waiting := by
  have stays := steady.alloc body none
  have bodies : ((o.alloc body none).core o.fresh).body = body := by rw [alloc_core_new]
  refine ⟨stays.queue room (Nat.lt_succ_self _) fun key deleteId same => ?_,
    (filled.alloc steady body none).queue_keyless (by rw [bodies, keyless]) steady.fresh_outside⟩
  rw [bodies] at same
  rw [same] at keyless
  cases keyless

theorem queueNew_delete (steady : Steady o) (filled : Filled o waiting)
    (room : o.updateId + 1 < 2 ^ 32) (mem : old ∈ o.cache) (ready : ¬waiting old) :
    let deletion : KvpBody := .delete (o.core old).body.name (o.core old).updateId
    Steady (o.queueNew deletion) ∧
      Filled (o.queueNew deletion) fun other => waiting other ∨ other = old := by
  intro deletion
  have stays := steady.alloc deletion none
  have bodies : ((o.alloc deletion none).core o.fresh).body = deletion := by rw [alloc_core_new]
  have kept := alloc_core_old o deletion none (steady.cached old mem).1
  obtain ⟨key, newest⟩ := filled.contents old mem ready
  refine ⟨stays.queue room (Nat.lt_succ_self _) fun key' deleteId same => ?_,
    (filled.alloc steady deletion none).queue_delete stays room mem steady.fresh_outside
      (by rw [bodies, kept])⟩
  rw [bodies] at same
  exact ⟨o.core old, newest.member, newest.sync, (delete.inj same).2, (steady.cached old mem).2⟩

/-! ### The cache -/

/-- What waits may leave the cache and enter it. -/
theorem Filled.recache (filled : Filled o waiting) (cache : List Nat)
    (inside : ∀ id ∈ cache, id ∈ o.cache ∨ waiting id)
    (kept : ∀ id ∈ o.cache, ¬waiting id → id ∈ cache) :
    Filled { o with cache := cache } waiting where
  contents id mem ready :=
    filled.contents id ((inside id mem).resolve_right ready) ready
  absent key update newest insertion := by
    obtain ⟨id, mem, ready, stands⟩ := filled.absent key update newest insertion
    exact ⟨id, kept id mem ready, ready, stands⟩

theorem Filled.congr (filled : Filled o waiting) {others : Nat → Prop}
    (same : ∀ id ∈ o.cache, waiting id ↔ others id) : Filled o others where
  contents id mem ready := filled.contents id mem fun waits => ready ((same id mem).mp waits)
  absent key update newest insertion := by
    obtain ⟨id, mem, ready, stands⟩ := filled.absent key update newest insertion
    exact ⟨id, mem, fun waits => ready ((same id mem).mpr waits), stands⟩

/-! ### Events -/

theorem foldl_queue (list : List Nat) (steady : Steady o) (filled : Filled o waiting)
    (within : ∀ id ∈ list, id ∈ o.cache) (room : o.updateId + list.length < 2 ^ 32) :
    let last := list.foldl Outline.queue o
    Steady last ∧ (Filled last fun id => waiting id ∧ id ∉ list) ∧ last.cache = o.cache ∧
      last.updateId = o.updateId + list.length := by
  induction list generalizing o waiting with
  | nil => exact ⟨steady, filled.congr fun id _ => by simp, rfl, rfl⟩
  | cons id rest ih =>
    have inside := within id mem_cons_self
    obtain ⟨exist, insertion⟩ := steady.cached id inside
    rw [length_cons] at room
    have first : o.updateId + 1 < 2 ^ 32 := by omega
    have number : (o.queue id).updateId = o.updateId + 1 := next_updateId first id
    have queued := steady.queue first exist fun key deleteId body => by
      rw [body] at insertion
      cases insertion
    obtain ⟨last, waits, cache, count⟩ := ih queued (filled.queue_insert steady first inside)
      (fun other mem => within other (.tail _ mem)) (by rw [number]; omega)
    refine ⟨last, waits.congr fun other _ => ?_, cache, ?_⟩
    · rw [mem_cons, not_or, and_assoc]
    · rw [foldl_cons, count, number, length_cons]
      omega

/-- How far an event goes: at most so many updates, for the same cache. -/
def Within (o next : Outline) (count : Nat) : Prop :=
  next.cache = o.cache ∧ next.updateId ≤ o.updateId + count

section

variable (sound : Sound o)

include sound

theorem Sound.advanceStart (room : o.updateId + 1 < 2 ^ 32) :
    Sound o.advanceStart ∧ Within o o.advanceStart 1 := by
  unfold Outline.advanceStart
  by_cases done : o.startDone
  · rw [if_pos done]
    exact ⟨sound, rfl, Nat.le_succ _⟩
  · rw [if_neg done]
    dsimp only
    obtain ⟨started, same, sent⟩ : ∃ started : Outline, started = (if o.startSent then o
        else { o.queueNew (.start o.resyncId) with blocked := true, startSent := true }) ∧
          Sound started ∧ Within o started 1 := by
      refine ⟨_, rfl, ?_⟩
      split
      · exact ⟨sound, rfl, Nat.le_succ _⟩
      · obtain ⟨steady, filled⟩ := queueNew_keyless sound.steady sound.filled room
          (show (start o.resyncId).key = none from rfl)
        exact ⟨⟨{ steady with }, { filled with }⟩, rfl, Nat.le_of_eq (next_updateId room o.fresh)⟩
    rw [← same]
    split
    · exact sent
    · obtain ⟨⟨steady, filled⟩, within⟩ := sent
      exact ⟨⟨{ steady with }, { filled with }⟩, within⟩

theorem Sound.advanceContent (walk : HashWalk) (room : o.updateId + o.cache.length < 2 ^ 32) :
    Sound (o.advanceContent walk) ∧ Within o (o.advanceContent walk) o.cache.length := by
  unfold Outline.advanceContent
  by_cases done : o.syncDone
  · rw [if_pos done]
    exact ⟨sound, rfl, Nat.le_add_right _ _⟩
  · rw [if_neg done]
    dsimp only
    have order := walk.perm o.cache
    obtain ⟨queued, same, sent⟩ : ∃ queued : Outline, queued = (if o.syncSent then o
        else { (walk.order o.cache).foldl Outline.queue o with
          blocked := !o.cache.isEmpty
          syncSent := true
          content := o.content ++
            ((walk.order o.cache).foldl Outline.queue o).made.drop o.made.length }) ∧
          Sound queued ∧ Within o queued o.cache.length := by
      refine ⟨_, rfl, ?_⟩
      split
      · exact ⟨sound, rfl, Nat.le_add_right _ _⟩
      · obtain ⟨steady, filled, cache, count⟩ := foldl_queue (walk.order o.cache) sound.steady
          sound.filled (fun id mem => order.mem_iff.mp mem) (by rw [order.length_eq]; exact room)
        rw [order.length_eq] at count
        refine ⟨⟨{ steady with }, ?_⟩, cache, Nat.le_of_eq count⟩
        have all := filled.congr fun id mem => show _ ↔ true = false from
          ⟨fun both => absurd (order.mem_iff.mpr (cache ▸ mem)) both.2, nofun⟩
        exact { all with }
    rw [← same]
    split
    · exact sent
    · obtain ⟨⟨steady, filled⟩, within⟩ := sent
      exact ⟨⟨{ steady with }, { filled with }⟩, within⟩

theorem Sound.advanceState (walk : HashWalk) (room : o.updateId + o.cache.length + 2 < 2 ^ 32) :
    Sound (o.advanceState walk) ∧ Within o (o.advanceState walk) (o.cache.length + 2) := by
  unfold Outline.advanceState
  by_cases synced : o.synced
  · rw [if_pos synced]
    exact ⟨sound, rfl, Nat.le_add_right _ _⟩
  · rw [if_neg synced]
    dsimp only
    obtain ⟨started, cache, count⟩ := sound.advanceStart (by omega)
    generalize o.advanceStart = start at started cache count ⊢
    split
    · exact ⟨started, cache, by omega⟩
    · obtain ⟨filled, cache', count'⟩ := started.advanceContent walk (by rw [cache]; omega)
      rw [cache] at cache' count'
      generalize start.advanceContent walk = content at filled cache' count' ⊢
      split
      · exact ⟨filled, cache', by omega⟩
      · have room' : content.updateId + 1 < 2 ^ 32 := by omega
        obtain ⟨steady, filled⟩ := queueNew_keyless filled.steady filled.filled room'
          (show flush.key = none from rfl)
        have number : (content.queueNew .flush).updateId = content.updateId + 1 :=
          next_updateId room' content.fresh
        refine ⟨⟨{ steady with }, { filled with }⟩, cache', ?_⟩
        show (content.queueNew .flush).updateId ≤ _
        omega

theorem Sound.resync (resyncId : Nat)
    (unused : ∀ update ∈ o.made, update.syncId ≠ KvpsyncSend.nextSyncId o.syncId) :
    Sound (o.resync resyncId) where
  steady := { sound.steady with
    sync := KvpsyncSend.nextSyncId_valid o.syncId sound.steady.sync.2
    numbers := fun update mem sync => absurd sync (unused update mem)
    queued := fun _ mem => mem.elim False.elim fun inside => absurd inside not_mem_nil }
  filled := {
    contents := fun _ _ ready => absurd rfl ready
    absent := fun _ update newest => absurd newest.sync (unused update newest.member) }

theorem Sound.ackOf (id : Nat) : Sound (o.ackOf id) where
  steady := { sound.steady with
    queued := fun other mem => sound.steady.queued other
      (mem.imp And.left fun inside => (mem_filter.mp inside).1) }
  filled := { sound.filled with }

theorem Sound.handleAck (ack : KvpAck)
    (unused : ∀ update ∈ o.made, update.syncId ≠ KvpsyncSend.nextSyncId o.syncId) :
    Sound (o.handleAck ack) := by
  unfold Outline.handleAck
  split
  · split
    · exact sound
    · exact sound.resync ack.syncId unused
  · split
    · exact sound
    · split
      · exact sound
      · exact sound.ackOf _

end

theorem mem_cached {key : Bytes} (found : o.cached key = some old) :
    old ∈ o.cache ∧ (o.core old).body.name = key :=
  ⟨mem_of_find?_eq_some found, by simpa using find?_some found⟩

theorem not_cached {key : Bytes} (none : o.cached key = none) :
    ∀ id ∈ o.cache, (o.core id).body.name ≠ key := fun id mem same =>
  find?_eq_none.mp none id mem (decide_eq_true same)

theorem Steady.name_eq (steady : Steady o) {id other : Nat} (here : id ∈ o.cache)
    (there : other ∈ o.cache) (same : (o.core id).body.name = (o.core other).body.name) : id = other :=
  steady.keys id here other there (by
    rw [key_of_isInsert (steady.cached id here).2,
      key_of_isInsert (steady.cached other there).2, same])

theorem Sound.queueDelete (sound : Sound o) (mem : old ∈ o.cache) (cache : List Nat)
    (room : o.updateId + 1 < 2 ^ 32) :
    let next := Outline.queueDelete { o with cache := cache } old
    ∃ first : Outline, next = { first with cache := cache } ∧ Steady first ∧
      (Filled first fun id => o.syncSent = false ∨ id = old) ∧ first.cache = o.cache ∧
        first.syncSent = o.syncSent ∧ first.syncId = o.syncId ∧ o.fresh ≤ first.fresh ∧
          first.updateId ≤ o.updateId + 1 ∧ ∀ id, id < o.fresh → first.core id = o.core id := by
  intro next
  by_cases sent : o.syncSent = true
  · have ready : ¬o.syncSent = false := fun none => Bool.noConfusion (sent.symm.trans none)
    obtain ⟨key, newest⟩ := sound.filled.contents old mem ready
    obtain ⟨steady, filled⟩ := queueNew_delete sound.steady sound.filled room mem ready
    refine ⟨_, ?_, steady, filled, rfl, rfl, rfl, Nat.le_succ _,
      Nat.le_of_eq (next_updateId room o.fresh), fun id exist => ?_⟩
    · show (if o.syncSent && decide ((o.core old).syncId = o.syncId) then _ else _) = _
      rw [if_pos (by rw [sent, newest.sync]; simp)]
      rfl
    · exact (queue_core_other _ (Nat.ne_of_lt exist)).trans (alloc_core_old o _ none exist)
  · have waits : o.syncSent = false := Bool.eq_false_iff.mpr sent
    refine ⟨o, ?_, sound.steady, sound.filled.congr fun id _ => ?_, rfl, rfl, rfl, le_rfl,
      Nat.le_succ _, fun _ _ => rfl⟩
    · show (if o.syncSent && decide ((o.core old).syncId = o.syncId) then _ else _) = _
      rw [if_neg (by rw [waits]; simp)]
    · exact ⟨.inl, fun _ => waits⟩

theorem Sound.deleteKey (sound : Sound o) (key : Bytes) (room : o.updateId + 1 < 2 ^ 32) :
    Sound (o.deleteKey key) := by
  unfold Outline.deleteKey
  cases found : o.cached key with
  | none => exact sound
  | some old =>
    dsimp only
    obtain ⟨mem, -⟩ := mem_cached found
    have start : Sound { o with cb := Function.update o.cb old none } :=
      ⟨{ sound.steady with }, { sound.filled with }⟩
    obtain ⟨first, same, steady, filled, cache, sent, -⟩ := start.queueDelete mem
      (o.cache.filter (· ≠ old)) room
    rw [same]
    have inside : ∀ id ∈ o.cache.filter (· ≠ old), id ∈ first.cache ∧ id ≠ old := by
      intro id mem
      rw [cache]
      exact ⟨(mem_filter.mp mem).1, of_decide_eq_true (mem_filter.mp mem).2⟩
    refine ⟨{ steady with
      cached := fun id mem => steady.cached id (inside id mem).1
      keys := fun id here other there => steady.keys id (inside id here).1 other (inside other there).1
      nodup := sound.steady.nodup.filter _ }, ?_⟩
    · have left := filled.recache _ (fun id mem => .inl (inside id mem).1)
        fun id mem ready => mem_filter.mpr ⟨cache ▸ mem,
          decide_eq_true fun itself => ready (.inr itself)⟩
      have all := left.congr fun id mem => show _ ↔ first.syncSent = false by
        rw [sent]
        exact or_iff_left (inside id mem).2
      exact { all with }

/-- A new object takes its place in the cache, and is queued if the content of the sync is. -/
theorem enter (steady : Steady o) {gone : Nat → Prop}
    (filled : Filled o fun other => o.syncSent = false ∨ gone other) {id : Nat} (cache : List Nat)
    (nodup : cache.Nodup)
    (members : ∀ other, other ∈ cache ↔ other = id ∨ other ∈ o.cache ∧ ¬gone other)
    (exist : id < o.fresh) (insertion : (o.core id).body.isInsert) (outside : id ∉ o.cache)
    (apart : ∀ other ∈ o.cache, ¬gone other → (o.core other).body.key ≠ (o.core id).body.key)
    (room : o.updateId + 1 < 2 ^ 32) : Sound (Outline.queueInsert { o with cache := cache } id) := by
  have here : id ∈ cache := (members id).mpr (.inl rfl)
  have entered : Steady { o with cache := cache } := { steady with
    cached := fun other mem => by
      rcases (members other).mp mem with rfl | ⟨inside, -⟩
      · exact ⟨exist, insertion⟩
      · exact steady.cached other inside
    keys := fun first mem second mem' same => by
      rcases (members first).mp mem with itself | ⟨inside, stays⟩ <;>
        rcases (members second).mp mem' with itself' | ⟨inside', stays'⟩
      · rw [itself, itself']
      · rw [itself] at same
        exact absurd same.symm (apart second inside' stays')
      · rw [itself'] at same
        exact absurd same (apart first inside stays)
      · exact steady.keys first inside second inside' same
    nodup := nodup }
  have wider : Filled o fun other => (o.syncSent = false ∨ gone other) ∨ other = id :=
    filled.congr fun other mem => by
      have apart : other ≠ id := fun itself => outside (itself ▸ mem)
      exact (or_iff_left apart).symm
  have left := (wider.recache cache (fun other mem => ((members other).mp mem).symm.imp
    And.left .inr) fun other mem ready => (members other).mpr (.inr ⟨mem, fun leaves =>
      ready (.inl (.inr leaves))⟩)).congr fun other mem =>
        show _ ↔ o.syncSent = false ∨ other = id by
          constructor
          · rintro ((waits | leaves) | itself)
            · exact .inl waits
            · rcases (members other).mp mem with itself | ⟨-, stays⟩
              · exact .inr itself
              · exact absurd leaves stays
            · exact .inr itself
          · exact fun either => either.imp .inl fun itself => itself
  unfold Outline.queueInsert
  by_cases sent : o.syncSent = true
  · rw [if_pos (show ({ o with cache := cache } : Outline).syncSent = true from sent)]
    refine ⟨entered.queue room exist fun key deleteId body => ?_, ?_⟩
    · rw [show (o.core id).body = _ from body] at insertion
      cases insertion
    · exact (left.queue_insert entered room here).congr fun other _ =>
        ⟨fun both => both.1.resolve_right both.2,
          fun none => absurd (sent.symm.trans none) Bool.noConfusion⟩
  · have waits : o.syncSent = false := Bool.eq_false_iff.mpr sent
    rw [if_neg (show ¬({ o with cache := cache } : Outline).syncSent = true from sent)]
    exact ⟨entered, left.congr fun other _ => ⟨fun _ => waits, .inl⟩⟩

theorem Sound.addKey (sound : Sound o) (key val : Bytes) (cb : Option Nat)
    (room : o.updateId + 2 < 2 ^ 32) : Sound (o.addKey key val cb) := by
  unfold Outline.addKey
  dsimp only
  have outside := sound.steady.fresh_outside
  have start : Sound (o.alloc (.insert key val) cb) :=
    ⟨sound.steady.alloc _ cb, sound.filled.alloc sound.steady _ cb⟩
  have fresh : (o.alloc (.insert key val) cb).core o.fresh = ⟨0, 0, 0, .insert key val⟩ :=
    alloc_core_new o _ cb
  have kept : ∀ id ∈ o.cache, (o.alloc (.insert key val) cb).core id = o.core id := fun id mem =>
    alloc_core_old o _ cb (sound.steady.cached id mem).1
  have extended : (o.alloc (.insert key val) cb).fresh = o.fresh + 1 := rfl
  have cache : (o.alloc (.insert key val) cb).cache = o.cache := rfl
  have number : (o.alloc (.insert key val) cb).updateId = o.updateId := rfl
  generalize o.alloc (.insert key val) cb = next at start fresh kept extended cache number ⊢
  have apart : ∀ id ∈ o.cache, id ≠ o.fresh := fun id mem itself => outside (itself ▸ mem)
  cases found : o.cached key with
  | none =>
    dsimp only
    have filled := start.filled.congr fun id _ =>
      show next.syncSent = false ↔ next.syncSent = false ∨ False from (or_iff_left not_false).symm
    refine enter start.steady filled (next.cache ++ [o.fresh]) ?_ ?_ (by omega)
      (by rw [fresh]; rfl) (cache ▸ outside) ?_ (by omega)
    · rw [cache]
      exact nodup_append.mpr ⟨sound.steady.nodup, nodup_singleton _, fun id mem other itself => by
          rw [mem_singleton.mp itself]
          exact apart id mem⟩
    · intro other
      rw [mem_append, mem_singleton, or_comm, and_iff_left not_false]
    · intro other mem _ same
      rw [cache] at mem
      rw [kept other mem, fresh, key_of_isInsert (sound.steady.cached other mem).2]
        at same
      exact not_cached found other mem (Option.some.inj same)
  | some old =>
    dsimp only
    obtain ⟨mem, name⟩ := mem_cached found
    obtain ⟨first, same, steady, filled, cache', sent, sync, exist, count, cores⟩ :=
      start.queueDelete (cache.symm ▸ mem)
        (next.cache.map fun other => if other = old then o.fresh else other) (by omega)
    rw [same]
    rw [cache] at cache' ⊢
    have fresh' : first.core o.fresh = ⟨0, 0, 0, .insert key val⟩ := by
      rw [cores o.fresh (by omega), fresh]
    refine enter steady (by rw [sent]; exact filled) _ ?_ ?_ (by omega) (by rw [fresh']; rfl)
      (cache' ▸ outside) ?_ (by omega)
    · refine sound.steady.nodup.map_on fun id here other there same => ?_
      by_cases first : id = old <;> by_cases second : other = old
      · rw [first, second]
      · rw [if_pos first, if_neg second] at same
        exact absurd same.symm (apart other there)
      · rw [if_neg first, if_pos second] at same
        exact absurd same (apart id here)
      · rwa [if_neg first, if_neg second] at same
    · intro id
      rw [cache', mem_map]
      constructor
      · rintro ⟨other, inside, rfl⟩
        by_cases itself : other = old
        · exact .inl (if_pos itself)
        · rw [if_neg itself]
          exact .inr ⟨inside, itself⟩
      · rintro (rfl | ⟨inside, other⟩)
        · exact ⟨old, mem, if_pos rfl⟩
        · exact ⟨id, inside, if_neg other⟩
    · intro id inside other same
      rw [cache'] at inside
      have exist' := (start.steady.cached id (cache.symm ▸ inside)).1
      rw [cores id exist', kept id inside, fresh',
        key_of_isInsert (sound.steady.cached id inside).2] at same
      exact other (sound.steady.name_eq inside mem ((Option.some.inj same).trans name.symm))

end Outline

end Splintermail
