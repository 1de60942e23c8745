/-
This file proves which insertions limit the expiry time of a sender of kvpsync.

The list `oldest` has the insertions that were added and neither acked nor abandoned; an
insertion is abandoned when the sender has no reference to it any more. There is one
exception. An ack takes an insertion out of the list only together with its callback, or
when its last reference goes; an insertion that was added without a callback, and is still
in the cache, stays.
-/

import Splintermail.Kvpsync.Timed

namespace Splintermail

open List

namespace Outline

variable {o middle next : Outline}

/-- The sender refers to the object. -/
def Alive (o : Outline) (id : Nat) : Prop := id ∈ o.cache ∨ o.listed id

/-- No old object is forgotten, and none comes back. -/
structure Keeps (o next : Outline) : Prop where
  cache : next.cache = o.cache
  fresh : o.fresh ≤ next.fresh
  alive : ∀ id, id < o.fresh → (next.Alive id ↔ o.Alive id)

theorem Keeps.refl (o : Outline) : Keeps o o := ⟨rfl, le_rfl, fun _ _ => Iff.rfl⟩

theorem Keeps.trans (first : Keeps o middle) (second : Keeps middle next) : Keeps o next where
  cache := second.cache.trans first.cache
  fresh := Nat.le_trans first.fresh second.fresh
  alive id exist := (second.alive id (Nat.lt_of_lt_of_le exist first.fresh)).trans (first.alive id exist)

theorem keeps_queue {id : Nat} (cached : id ∈ o.cache) : Keeps o (o.queue id) := by
  refine ⟨rfl, le_rfl, fun other _ => ⟨?_, fun alive => alive.imp_right .inl⟩⟩
  rintro (inside | listed | rfl)
  · exact .inl inside
  · exact .inr listed
  · exact .inl cached

theorem keeps_queueNew (o : Outline) (body : KvpBody) : Keeps o (o.queueNew body) := by
  refine ⟨rfl, Nat.le_succ _, fun other exist => ⟨?_, fun alive => alive.imp_right .inl⟩⟩
  rintro (inside | listed | rfl)
  · exact .inl inside
  · exact .inr listed
  · exact absurd exist (Nat.lt_irrefl _)

theorem keeps_foldl (list : List Nat) (o : Outline) (cached : ∀ id ∈ list, id ∈ o.cache) :
    Keeps o (list.foldl queue o) := by
  induction list generalizing o with
  | nil => exact .refl o
  | cons id rest ih =>
    exact (keeps_queue (cached id mem_cons_self)).trans
      (ih (o.queue id) fun other mem => cached other (.tail _ mem))

theorem keeps_advanceStart (o : Outline) : Keeps o o.advanceStart := by
  unfold advanceStart
  split
  · exact .refl o
  · dsimp only
    split
    · split
      · exact .refl o
      · exact { Keeps.refl o with }
    · have queued := keeps_queueNew o (.start o.resyncId)
      exact { queued with }

theorem keeps_advanceContent (o : Outline) (walk : HashWalk) : Keeps o (o.advanceContent walk) := by
  have queued := keeps_foldl (walk.order o.cache) o fun id mem =>
    (walk.perm o.cache).mem_iff.mp mem
  unfold advanceContent
  split
  · exact .refl o
  · dsimp only
    split
    · split
      · exact .refl o
      · exact { Keeps.refl o with }
    · split
      · exact { queued with }
      · exact { queued with }

theorem keeps_advanceState (o : Outline) (walk : HashWalk) : Keeps o (o.advanceState walk) := by
  unfold advanceState
  split
  · exact .refl o
  · dsimp only
    have started := keeps_advanceStart o
    have content := started.trans (keeps_advanceContent o.advanceStart walk)
    split
    · exact started
    · split
      · exact content
      · have flushed := content.trans (keeps_queueNew _ .flush)
        exact { flushed with }

theorem keeps_queueDelete (o : Outline) (old : Nat) : Keeps o (o.queueDelete old) := by
  unfold queueDelete
  split
  · exact keeps_queueNew o _
  · exact .refl o

theorem keeps_queueInsert {id : Nat} (cached : id ∈ o.cache) : Keeps o (o.queueInsert id) := by
  unfold queueInsert
  split
  · exact keeps_queue cached
  · exact .refl o

theorem alive_deleteKey (o : Outline) (key : Bytes) {id : Nat} (exist : id < o.fresh) :
    (o.deleteKey key).Alive id ↔ o.Alive id ∧ (o.cached key = some id → o.listed id) := by
  unfold deleteKey
  cases o.cached key with
  | none => exact (and_iff_left (by rintro ⟨⟩)).symm
  | some old =>
    refine ((keeps_queueDelete { o with
      cache := o.cache.filter (· ≠ old), cb := Function.update o.cb old none } old).alive id exist).trans ?_
    show id ∈ o.cache.filter (· ≠ old) ∨ o.listed id ↔ (id ∈ o.cache ∨ o.listed id) ∧ _
    rw [KvpsyncSend.mem_without, Option.some_inj]
    by_cases itself : old = id
    · subst itself
      tauto
    · have apart : id ≠ old := fun same => itself same.symm
      tauto

theorem alive_addKey (o : Outline) (key val : Bytes) (cb : Option Nat) :
    (o.addKey key val cb).Alive o.fresh ∧ ∀ id, id < o.fresh →
      ((o.addKey key val cb).Alive id ↔ o.Alive id ∧ (o.cached key = some id → o.listed id)) := by
  unfold addKey
  dsimp only
  cases found : o.cached key with
  | none =>
    have cached : o.fresh ∈ o.cache ++ [o.fresh] :=
      mem_append_right _ (mem_singleton_self _)
    have keeps := @keeps_queueInsert { o.alloc (.insert key val) cb with
      cache := o.cache ++ [o.fresh] } o.fresh cached
    refine ⟨(keeps.alive o.fresh (Nat.lt_succ_self _)).mpr (.inl cached), fun id exist =>
      (keeps.alive id (Nat.lt_succ_of_lt exist)).trans ?_⟩
    show id ∈ o.cache ++ [o.fresh] ∨ o.listed id ↔ (id ∈ o.cache ∨ o.listed id) ∧ _
    rw [mem_append, mem_singleton, or_iff_left (Nat.ne_of_lt exist)]
    exact (and_iff_left (by rintro ⟨⟩)).symm
  | some old =>
    have mem : old ∈ o.cache := mem_of_find?_eq_some found
    have mem := fun id => @KvpsyncSend.mem_replace o.cache old o.fresh id mem
    have deleted := keeps_queueDelete { o.alloc (.insert key val) cb with
      cache := o.cache.map fun other => if other = old then o.fresh else other } old
    have cached : o.fresh ∈ (Outline.queueDelete { o.alloc (.insert key val) cb with
        cache := o.cache.map fun other => if other = old then o.fresh else other } old).cache := by
      rw [deleted.cache]
      exact (mem o.fresh).mpr (.inl rfl)
    have keeps := deleted.trans (keeps_queueInsert cached)
    refine ⟨(keeps.alive o.fresh (Nat.lt_succ_self _)).mpr (.inl ((mem o.fresh).mpr (.inl rfl))),
      fun id exist => (keeps.alive id (Nat.lt_succ_of_lt exist)).trans ?_⟩
    show id ∈ o.cache.map _ ∨ o.listed id ↔ (id ∈ o.cache ∨ o.listed id) ∧ _
    rw [mem, or_iff_right (Nat.ne_of_lt exist), Option.some_inj]
    by_cases itself : old = id
    · subst itself
      tauto
    · have apart : id ≠ old := fun same => itself same.symm
      tauto

end Outline

namespace KvpsyncSend

variable {s after : KvpsyncSend} {id now : Nat}

/-! ### Expiry times -/

/-- The expiry time of a packet is within `MIN_RESPONSE`, and not after the deadline of the oldest. -/
theorem calculateOkExpiry_le (bound : s.okExpiry ≤ now + minResponse) :
    (s.calculateOkExpiry now).1 ≤ now + minResponse ∧
      ∀ oldest, s.oldest.head? = some oldest →
        (s.calculateOkExpiry now).1 ≤ (s.data oldest).deadline := by
  unfold calculateOkExpiry
  dsimp only
  split
  · exact ⟨Nat.zero_le _, fun _ _ => Nat.zero_le _⟩
  · generalize base : (if s.lastRecv > s.lastExtendOk then now + minResponse else s.okExpiry) = grant
    have granted : grant ≤ now + minResponse := by
      rw [← base]
      split
      · exact le_rfl
      · exact bound
    have value : ∀ least : Nat, (if least > s.okExpiry then
        (least, { s with okExpiry := least, lastExtendOk := now }) else (least, s)).1 = least := by
      intro least
      split
      · rfl
      · rfl
    cases s.oldest.head? with
    | none =>
      dsimp only
      rw [value]
      exact ⟨granted, nofun⟩
    | some oldest =>
      dsimp only
      rw [value]
      refine ⟨Nat.le_trans (Nat.min_le_right _ _) granted, fun other same => ?_⟩
      rw [← Option.some.inj same]
      exact Nat.min_le_left _ _

/-- The packet keeps within the deadlines. -/
def Granted (s : KvpsyncSend) (now : Nat) (pkt : KvpUpdate) : Prop :=
  pkt.okExpiry ≤ now + minResponse ∧
    ∀ oldest, s.oldest.head? = some oldest → pkt.okExpiry ≤ (s.data oldest).deadline

theorem Still.granted (still : s.Still after now) (inside : ∀ id ∈ s.oldest, id < s.fresh)
    {pkt : KvpUpdate} (granted : after.Granted now pkt) : s.Granted now pkt := by
  refine ⟨granted.1, fun oldest first => ?_⟩
  rw [← still.deadlines oldest (inside oldest (mem_of_mem_head? first))]
  refine granted.2 oldest ?_
  rw [still.oldest]
  exact first

theorem dataSend_granted (bound : s.okExpiry ≤ now + minResponse)
    (inside : ∀ id ∈ s.oldest, id < s.fresh) (id : Nat) :
    s.Granted now ((s.dataSend id now).data id).update := by
  have still := still_linkSent s id now
  refine still.granted inside ?_
  rw [dataSend_eq, modify_self]
  exact calculateOkExpiry_le (still.expiry bound)

theorem Still.inside (still : s.Still after now) (inside : ∀ id ∈ s.oldest, id < s.fresh) :
    ∀ id ∈ after.oldest, id < after.fresh := by
  intro id mem
  rw [still.oldest] at mem
  exact Nat.lt_of_lt_of_le (inside id mem) still.fresh

theorem runBody_granted (bound : s.okExpiry ≤ now + minResponse)
    (inside : ∀ id ∈ s.oldest, id < s.fresh) (walk : HashWalk) :
    s.Still (s.runBody now walk).1 now ∧
      ∀ pkt, (s.runBody now walk).2.pkt = some pkt → s.Granted now pkt := by
  have prepared := (still_advanceState s now walk).trans (still_prepare s now walk)
  unfold runBody
  dsimp only
  generalize s.prepare now walk = ready at prepared ⊢
  cases (if ready.inflightIsFull then none else ready.unsent.head?) with
  | some id =>
    refine ⟨prepared.trans (still_dataSend ready id now), fun pkt sent => ?_⟩
    rw [← Option.some.inj sent]
    exact prepared.granted inside
      (dataSend_granted (prepared.expiry bound) (prepared.inside inside) id)
  | none =>
    dsimp only
    cases ready.sent.head? with
    | some other => exact ⟨prepared, nofun⟩
    | none =>
      dsimp only
      split
      · exact ⟨prepared, nofun⟩
      · have alive : ready.Still { ready with recvOk := true } now := { Still.refl ready now with }
        have queued := (prepared.trans alive).trans (still_queueNew _ .empty now)
        have same : KvpsyncSend.queueNew { ready with recvOk := true } .empty =
          KvpsyncSend.queueEmpty { ready with recvOk := true } := rfl
        rw [same] at queued
        generalize KvpsyncSend.queueEmpty { ready with recvOk := true } = next at queued ⊢
        cases next.unsent.head? with
        | none => exact ⟨queued, nofun⟩
        | some id =>
          refine ⟨queued.trans (still_dataSend next id now), fun pkt sent => ?_⟩
          rw [← Option.some.inj sent]
          exact queued.granted inside
            (dataSend_granted (queued.expiry bound) (queued.inside inside) id)

theorem keeps_run (s : KvpsyncSend) (now : Nat) (walk : HashWalk) :
    Outline.Keeps s.outline (s.run now walk).1.outline := by
  have advanced := Outline.keeps_advanceState s.outline walk
  rcases (outline_run s now walk).1 with same | same
  · rw [same]
    exact advanced
  · rw [same]
    exact advanced.trans (Outline.keeps_queueNew _ .empty)

/-! ### References that are given back -/

/-- The deadlines stay, and the expiry time stays within `MIN_RESPONSE`. -/
structure Lasts (s after : KvpsyncSend) (now : Nat) : Prop where
  fresh : s.fresh ≤ after.fresh
  deadlines : ∀ id, id < s.fresh → (after.data id).deadline = (s.data id).deadline
  expiry : s.okExpiry ≤ now + minResponse → after.okExpiry ≤ now + minResponse

theorem Still.lasts (still : s.Still after now) : s.Lasts after now :=
  ⟨still.fresh, still.deadlines, still.expiry⟩

theorem Lasts.refl (s : KvpsyncSend) (now : Nat) : s.Lasts s now := (Still.refl s now).lasts

theorem Lasts.trans {middle : KvpsyncSend} (first : s.Lasts middle now)
    (second : middle.Lasts after now) : s.Lasts after now where
  fresh := Nat.le_trans first.fresh second.fresh
  deadlines id exist := (second.deadlines id (Nat.lt_of_lt_of_le exist first.fresh)).trans
    (first.deadlines id exist)
  expiry bound := second.expiry (first.expiry bound)

theorem lasts_dataDownref (s : KvpsyncSend) (id now : Nat) : s.Lasts (s.dataDownref id) now := by
  have deadline : ∀ other, ((s.dataDownref id).data other).deadline = (s.data other).deadline := by
    intro other
    rw [data_dataDownref]
  refine ⟨?_, fun other _ => deadline other, ?_⟩
  · unfold KvpsyncSend.dataDownref
    dsimp only
    split
    · exact le_rfl
    · exact le_rfl
  · unfold KvpsyncSend.dataDownref
    dsimp only
    split
    · exact fun bound => bound
    · exact fun bound => bound

theorem lasts_dataRemove (s : KvpsyncSend) (id now : Nat) : s.Lasts (s.dataRemove id) now :=
  ⟨le_rfl, fun other _ => deadline_dataRemove s id other, fun bound => bound⟩

theorem oldest_dataDownref (s : KvpsyncSend) (id : Nat) :
    (s.dataDownref id).oldest =
      s.oldest.filter fun other => decide (other ≠ id ∨ 1 < (s.data id).nrefs) := by
  unfold KvpsyncSend.dataDownref
  dsimp only
  rw [modify_self]
  dsimp only
  split
  · next left =>
    refine (filter_eq_self.mpr fun other _ => decide_eq_true (.inr ?_)).symm
    omega
  · next gone =>
    refine filter_congr fun other _ => decide_eq_decide.mpr ?_
    refine (or_iff_left ?_).symm
    omega

theorem lasts_emptyList (s : KvpsyncSend) (list : List Nat) (now : Nat) :
    s.Lasts (s.emptyList list) now := by
  unfold KvpsyncSend.emptyList
  induction list generalizing s with
  | nil => exact .refl s now
  | cons id rest ih =>
    exact ((lasts_dataRemove s id now).trans (lasts_dataDownref _ id now)).trans (ih _)

/-- What is not cached goes with its packet. -/
theorem oldest_emptyList (list : List Nat) (books : s.Books unheld) (nodup : list.Nodup)
    (listed : ∀ id ∈ list, s.Listed id) :
    (s.emptyList list).oldest =
      s.oldest.filter fun other => decide (other ∈ s.cache ∨ other ∉ list) := by
  unfold KvpsyncSend.emptyList
  induction list generalizing s with
  | nil => exact (filter_eq_self.mpr fun other _ => decide_eq_true (.inr not_mem_nil)).symm
  | cons id rest ih =>
    obtain ⟨outside, nodup⟩ := nodup_cons.mp nodup
    have here := listed id mem_cons_self
    have removed := books.dataRemove here
    have lists : ∀ other, ((s.dataRemove id).dataDownref id).Listed other ↔
        s.Listed other ∧ other ≠ id := by
      intro other
      obtain ⟨unsent, sent⟩ := lists_dataDownref (s.dataRemove id) id
      unfold Listed
      rw [unsent, sent]
      exact listed_dataRemove s id other
    have cache : ((s.dataRemove id).dataDownref id).cache = s.cache :=
      congrArg Outline.cache (outline_dataDownref (s.dataRemove id) id)
    have count : 1 < ((s.dataRemove id).data id).nrefs ↔ id ∈ s.cache := by
      rw [data_dataRemove]
      show 1 < (s.data id).nrefs ↔ _
      rw [books.refs id (books.exist id (.inr here))]
      unfold unheld owners
      rw [if_pos here]
      split
      · next mem => exact iff_of_true (by decide) mem
      · next outside => exact iff_of_false (by decide) outside
    rw [foldl_cons, ih removed.dataDownref nodup fun other mem =>
      (lists other).mpr ⟨listed other (.tail _ mem), fun itself => outside (itself ▸ mem)⟩]
    rw [oldest_dataDownref, cache, filter_filter]
    refine filter_congr fun other _ => ?_
    rw [← Bool.decide_and]
    refine decide_eq_decide.mpr ?_
    rw [count, mem_cons]
    by_cases itself : other = id
    · subst itself
      simp only [outside, ne_eq, not_true_eq_false, not_false_eq_true, or_true, true_and, or_false,
        false_or]
    · simp only [itself, ne_eq, not_false_eq_true, true_or, and_true, false_or]

theorem oldest_dropData (books : s.Books unheld) :
    s.dropData.oldest = s.oldest.filter fun other => decide (other ∈ s.cache ∨ ¬s.Listed other) := by
  unfold KvpsyncSend.dropData
  dsimp only
  have nodup := nodup_append.mp books.nodup
  have start : Books { s with unacked := [] } unheld := { books with }
  have first : (KvpsyncSend.emptyList { s with unacked := [] } s.unsent).Books unheld :=
    start.emptyList s.unsent nodup.1 fun _ mem => .inl mem
  have oldest := oldest_emptyList s.unsent start nodup.1 fun _ mem => .inl mem
  obtain ⟨outline, unsent, sent⟩ := outline_emptyList { s with unacked := [] } s.unsent
  generalize KvpsyncSend.emptyList { s with unacked := [] } s.unsent = next
    at first oldest outline unsent sent ⊢
  have cache : next.cache = s.cache := congrArg Outline.cache outline
  rw [oldest_emptyList next.sent first (nodup_append.mp first.nodup).2.1 fun _ => .inr, oldest,
    filter_filter]
  refine filter_congr fun other _ => ?_
  rw [cache, ← Bool.decide_and]
  refine decide_eq_decide.mpr ?_
  have there : other ∈ next.sent ↔ other ∈ s.sent ∧ other ∉ s.unsent := sent other
  unfold Listed
  rw [there]
  show (other ∈ s.cache ∨ _) ∧ (other ∈ s.cache ∨ other ∉ s.unsent) ↔ _
  tauto

theorem lasts_dropData (s : KvpsyncSend) (now : Nat) : s.Lasts s.dropData now := by
  have unsent := lasts_emptyList { s with unacked := [] } s.unsent now
  have dropped := unsent.trans (lasts_emptyList _
    (KvpsyncSend.emptyList { s with unacked := [] } s.unsent).sent now)
  exact ⟨dropped.fresh, dropped.deadlines, dropped.expiry⟩

theorem lasts_resync (s : KvpsyncSend) (resyncId now : Nat) : s.Lasts (s.resync resyncId) now := by
  have dropped := lasts_dropData { s with
    resyncId := resyncId, syncId := nextSyncId s.syncId, updateId := 0, recvOk := false,
    lastExtendOk := 0 } now
  exact ⟨dropped.fresh, dropped.deadlines, fun _ => Nat.zero_le _⟩

theorem oldest_resync (books : s.Books unheld) (resyncId : Nat) :
    (s.resync resyncId).oldest =
      s.oldest.filter fun other => decide (other ∈ s.cache ∨ ¬s.Listed other) := by
  have start : Books { s with
      resyncId := resyncId, syncId := nextSyncId s.syncId, updateId := 0, recvOk := false,
      lastExtendOk := 0 } unheld := { books with }
  exact oldest_dropData start

/-! ### Acks -/

/-- The object whose ack is processed. -/
def ackedBy (s : KvpsyncSend) (ack : KvpAck) : Option Nat :=
  if ack.updateId = 0 ∨ ack.syncId ≠ s.syncId then none
  else s.unacked.find? fun id => (s.data id).update.updateId = ack.updateId

/-- An ack of a cached insertion takes it out of the list, if there is a callback with it. -/
def Called (s : KvpsyncSend) (id : Nat) : Prop :=
  id ∈ s.cache → id ∈ s.oldest → (s.data id).cb ≠ none

instance (s : KvpsyncSend) (id : Nat) : Decidable (s.Called id) :=
  inferInstanceAs (Decidable (id ∈ s.cache → id ∈ s.oldest → (s.data id).cb ≠ none))

/-- What is left of an object when its callback is due. -/
structure Due (s due : KvpsyncSend) (id now : Nat) : Prop where
  lasts : s.Lasts due now
  oldest : due.oldest = s.oldest
  nrefs : (due.data id).nrefs = (s.data id).nrefs
  cb : (due.data id).cb = (s.data id).cb

theorem handleAckOf_due (s : KvpsyncSend) (id now : Nat) :
    ∃ due, s.Due due id now ∧ s.handleAckOf id = (due.runCb id).dataDownref id := by
  have successful : ∀ next : KvpsyncSend, s.Due next id now → s.Due (next.successfulPacket id) id now := by
    intro next due
    unfold KvpsyncSend.successfulPacket
    split
    · exact due
    · split
      · exact due
      · exact ⟨⟨due.lasts.fresh, due.lasts.deadlines, due.lasts.expiry⟩, due.oldest, due.nrefs, due.cb⟩
  unfold handleAckOf
  dsimp only
  generalize start : KvpsyncSend.dataRemove _ id = removed
  have due : s.Due removed id now := by
    rw [← start]
    refine ⟨⟨le_rfl, fun other _ => ?_, fun bound => bound⟩, rfl, ?_, ?_⟩
    · exact deadline_dataRemove _ id other
    · rw [data_dataRemove]
    · rw [data_dataRemove]
  refine ⟨_, successful _ ?_, rfl⟩
  split
  · exact ⟨⟨due.lasts.fresh, due.lasts.deadlines, due.lasts.expiry⟩, due.oldest, due.nrefs, due.cb⟩
  · exact due

theorem lasts_runCb (s : KvpsyncSend) (id now : Nat) : s.Lasts (s.runCb id) now := by
  unfold KvpsyncSend.runCb
  split
  · exact .refl s now
  · refine ⟨le_rfl, fun other _ => ?_, fun bound => bound⟩
    refine deadline_modify _ id other ?_
    exact fun _ => rfl

theorem lasts_handleAckOf (s : KvpsyncSend) (id now : Nat) : s.Lasts (s.handleAckOf id) now := by
  obtain ⟨due, same, equal⟩ := handleAckOf_due s id now
  rw [equal]
  exact (same.lasts.trans (lasts_runCb due id now)).trans (lasts_dataDownref _ id now)

theorem oldest_handleAckOf (books : s.Books unheld) (listed : s.Listed id) (called : s.Called id) :
    (s.handleAckOf id).oldest = s.oldest.filter (· ≠ id) := by
  obtain ⟨due, same, equal⟩ := handleAckOf_due s id 0
  rw [equal, oldest_dataDownref]
  have refs := books.refs id (books.exist id (.inr listed))
  unfold unheld owners at refs
  rw [if_pos listed] at refs
  unfold KvpsyncSend.runCb
  cases callback : (due.data id).cb with
  | none =>
    dsimp only
    rw [same.oldest]
    refine filter_congr fun other mem => decide_eq_decide.mpr (or_iff_left_of_imp fun many => ?_)
    rw [same.nrefs, refs] at many
    rintro rfl
    have cached : other ∈ s.cache := by
      by_contra outside
      rw [if_neg outside] at many
      exact absurd many (by decide)
    rw [same.cb] at callback
    exact called cached mem callback
  | some cb =>
    show (due.oldest.filter (· ≠ id)).filter _ = _
    rw [filter_filter, same.oldest]
    refine filter_congr fun other _ => ?_
    rw [← Bool.decide_and]
    exact decide_eq_decide.mpr (and_iff_right_of_imp .inl)

theorem handleAckBody_cases (s : KvpsyncSend) (ack : KvpAck) (now : Nat) :
    s.ackedBy ack = none ∧ (s.handleAckBody ack now = { s with lastRecv := now } ∨
        s.handleAckBody ack now = { s with lastRecv := now }.resync ack.syncId) ∨
      ∃ id ∈ s.unacked, s.ackedBy ack = some id ∧
        s.handleAckBody ack now = { s with lastRecv := now }.handleAckOf id := by
  unfold handleAckBody ackedBy
  dsimp only
  by_cases request : ack.updateId = 0
  · rw [if_pos request, if_pos (.inl request)]
    refine .inl ⟨rfl, ?_⟩
    split
    · exact .inl rfl
    · exact .inr rfl
  · rw [if_neg request]
    by_cases stale : ack.syncId ≠ s.syncId
    · rw [if_pos stale, if_pos (.inr stale)]
      exact .inl ⟨rfl, .inl rfl⟩
    · rw [if_neg stale, if_neg fun either => either.elim request stale]
      cases found : s.unacked.find? fun id => (s.data id).update.updateId = ack.updateId with
      | none => exact .inl ⟨rfl, .inl rfl⟩
      | some id => exact .inr ⟨id, mem_of_find?_eq_some found, rfl, rfl⟩

/-! ### Keys -/

/-- The insertion is not the one that leaves the cache, or its packet still refers to it. -/
def Remains (s : KvpsyncSend) (old : Option Nat) (id : Nat) : Prop := old = some id → s.Listed id

instance (s : KvpsyncSend) (old : Option Nat) (id : Nat) : Decidable (s.Remains old id) :=
  inferInstanceAs (Decidable (old = some id → s.Listed id))

theorem data_queueNew_old (s : KvpsyncSend) (body : KvpBody) (exist : id < s.fresh) :
    (s.queueNew body).data id = s.data id := by
  unfold queueNew
  rw [data_dataQueue, if_neg (Nat.ne_of_lt exist)]
  exact Function.update_of_ne (Nat.ne_of_lt exist) ..

theorem oldest_queueDelete (s : KvpsyncSend) {old : Nat} (exist : old < s.fresh) :
    (s.queueDeleteAndDownref old).oldest =
      s.oldest.filter fun other => decide (other ≠ old ∨ 1 < (s.data old).nrefs) := by
  unfold queueDeleteAndDownref
  dsimp only
  rw [oldest_dataDownref]
  split
  · rw [data_queueNew_old s _ exist]
    rfl
  · rfl

theorem lasts_queueDelete (s : KvpsyncSend) (old now : Nat) :
    s.Lasts (s.queueDeleteAndDownref old) now := by
  unfold queueDeleteAndDownref
  dsimp only
  split
  · exact (still_queueNew s _ now).lasts.trans (lasts_dataDownref _ old now)
  · exact lasts_dataDownref s old now

section

variable (books : s.Books unheld)

include books

theorem Books.two_refs (cached : id ∈ s.cache) : 1 < (s.data id).nrefs ↔ s.Listed id := by
  rw [books.refs id (books.exist id (.inl cached))]
  unfold unheld owners
  rw [if_pos cached]
  split
  · next listed => exact iff_of_true (by decide) listed
  · next unlisted => exact iff_of_false (by decide) unlisted

theorem remains_iff {old : Nat} (cached : old ∈ s.cache) (other : Nat) :
    (other ≠ old ∨ 1 < (s.data old).nrefs) ↔ s.Remains (some old) other := by
  rw [books.two_refs cached]
  constructor
  · intro either same
    rw [← Option.some.inj same] at either ⊢
    exact either.resolve_left fun apart => apart rfl
  · intro remains
    by_cases itself : other = old
    · exact .inr (itself ▸ remains (congrArg some itself.symm))
    · exact .inl itself

theorem oldest_left {next : KvpsyncSend} {old : Nat} (cached : old ∈ s.cache)
    (exist : old < next.fresh) (nrefs : (next.data old).nrefs = (s.data old).nrefs) :
    (next.queueDeleteAndDownref old).oldest =
      next.oldest.filter fun id => decide (s.Remains (some old) id) := by
  rw [oldest_queueDelete next exist, nrefs]
  exact filter_congr fun other _ => decide_eq_decide.mpr (remains_iff books cached other)

theorem oldest_deleteKey (key : Bytes) :
    (s.deleteKey key).oldest = s.oldest.filter fun id => decide (s.Remains (s.cached key) id) := by
  unfold deleteKey
  cases found : s.cached key with
  | none => exact (filter_eq_self.mpr fun _ _ => decide_eq_true (by rintro ⟨⟩)).symm
  | some old =>
    dsimp only
    have cached := mem_cached found
    refine oldest_left books cached (books.exist old (.inl cached)) ?_
    rw [modify_self]

end

theorem lasts_deleteKey (s : KvpsyncSend) (key : Bytes) (now : Nat) : s.Lasts (s.deleteKey key) now := by
  unfold deleteKey
  cases s.cached key with
  | none => exact .refl s now
  | some old =>
    dsimp only
    have left : s.Lasts ({ s with cache := s.cache.filter (· ≠ old) }.modify old
        fun data => { data with cb := none }) now := by
      refine ⟨le_rfl, fun other _ => ?_, fun bound => bound⟩
      refine deadline_modify _ old other ?_
      exact fun _ => rfl
    exact left.trans (lasts_queueDelete _ old now)

theorem data_newInsert (s : KvpsyncSend) (now : Nat) (key val : Bytes) (cb : Option Nat) (id : Nat) :
    (s.newInsert now key val cb).data id = if id = s.fresh then
        { SendData.new (.insert key val) with cb := cb, deadline := now + minResponse }
      else s.data id := Function.update_apply ..

theorem oldest_addKey (books : s.Books unheld) (now : Nat) (key val : Bytes) (cb : Option Nat) :
    (s.addKey now key val cb).oldest =
      (s.oldest ++ [s.fresh]).filter fun id => decide (s.Remains (s.cached key) id) := by
  have queued : ∀ next : KvpsyncSend, (next.queueInsert s.fresh).oldest = next.oldest := by
    intro next
    unfold queueInsert
    split
    · rfl
    · rfl
  rw [addKey_eq, queued]
  cases found : s.cached key with
  | none => exact (filter_eq_self.mpr fun _ _ => decide_eq_true (by rintro ⟨⟩)).symm
  | some old =>
    dsimp only
    have cached := mem_cached found
    have exist := books.exist old (.inl cached)
    refine oldest_left books cached (Nat.lt_succ_of_lt exist) ?_
    show ((s.newInsert now key val cb).data old).nrefs = _
    rw [data_newInsert, if_neg (Nat.ne_of_lt exist)]

/-- The new insertion has its deadline, and the old ones keep theirs. -/
theorem lasts_addKey (s : KvpsyncSend) (now : Nat) (key val : Bytes) (cb : Option Nat) :
    s.Lasts (s.addKey now key val cb) now ∧ s.fresh < (s.addKey now key val cb).fresh ∧
      ((s.addKey now key val cb).data s.fresh).deadline = now + minResponse := by
  have new : ∀ cache : List Nat,
      s.Lasts { s.newInsert now key val cb with cache := cache } now ∧
        (({ s.newInsert now key val cb with cache := cache } : KvpsyncSend).data s.fresh).deadline =
          now + minResponse := by
    intro cache
    refine ⟨⟨Nat.le_succ _, fun other exist => ?_, fun bound => bound⟩, ?_⟩
    · show ((s.newInsert now key val cb).data other).deadline = _
      rw [data_newInsert, if_neg (Nat.ne_of_lt exist)]
    · show ((s.newInsert now key val cb).data s.fresh).deadline = _
      rw [data_newInsert, if_pos rfl]
  have queued : ∀ next : KvpsyncSend, next.Lasts (next.queueInsert s.fresh) now := by
    intro next
    unfold queueInsert
    split
    · have raised : next.Lasts (next.modify s.fresh fun data => { data with nrefs := data.nrefs + 1 }) now := by
        refine ⟨le_rfl, fun other _ => ?_, fun bound => bound⟩
        refine deadline_modify _ s.fresh other ?_
        exact fun _ => rfl
      exact raised.trans (still_dataQueue _ s.fresh now).lasts
    · exact .refl next now
  have rest : ∀ start next : KvpsyncSend, s.Lasts start now → s.fresh < start.fresh →
      (start.data s.fresh).deadline = now + minResponse → start.Lasts next now →
        s.Lasts next now ∧ s.fresh < next.fresh ∧ (next.data s.fresh).deadline = now + minResponse := by
    intro start next first more deadline second
    exact ⟨first.trans second, Nat.lt_of_lt_of_le more second.fresh,
      (second.deadlines s.fresh more).trans deadline⟩
  rw [addKey_eq]
  cases s.cached key with
  | none => exact rest _ _ (new _).1 (Nat.lt_succ_self _) (new _).2 (queued _)
  | some old =>
    exact rest _ _ (new _).1 (Nat.lt_succ_self _) (new _).2 ((lasts_queueDelete _ old now).trans (queued _))

end KvpsyncSend

/-! ### Runs of calls -/

/-- The insertion that a call makes, with its time. -/
def SendEvent.adds (event : SendEvent) (s : KvpsyncSend) : List (Nat × Nat) :=
  match event with
  | .add now _ _ _ => [(s.fresh, now)]
  | _ => []

/-- The object whose ack a call processes. -/
def SendEvent.acks (event : SendEvent) (s : KvpsyncSend) : List Nat :=
  match event with
  | .ack answer _ => (s.ackedBy answer).toList
  | _ => []

/-- A sender with its history: the insertions that were added, with their times, and the objects whose
ack was processed. -/
structure TrackedSend where
  s : KvpsyncSend
  now : Nat
  added : List (Nat × Nat)
  acked : List Nat

namespace TrackedSend

def start (now syncId : Nat) (stateCb : Bool) : TrackedSend := ⟨.init now syncId stateCb, now, [], []⟩

def step (t : TrackedSend) (event : SendEvent) : Except Empty TrackedSend :=
  t.s.step event >>= fun next =>
    .ok ⟨next, event.time t.now, t.added ++ event.adds t.s, t.acked ++ event.acks t.s⟩

/-- The insertion was not acked, and it is not abandoned: the sender has it in its cache or waits for
the ack of its packet. -/
def Pending (t : TrackedSend) (id : Nat) : Prop := id ∉ t.acked ∧ (id ∈ t.s.cache ∨ id ∈ t.s.unacked)

instance (t : TrackedSend) (id : Nat) : Decidable (t.Pending id) :=
  inferInstanceAs (Decidable (id ∉ t.acked ∧ (id ∈ t.s.cache ∨ id ∈ t.s.unacked)))

/-- The list has the pending insertions, and no acked one, in the order of their deadlines. -/
structure Honours (t : TrackedSend) : Prop where
  exact : t.s.oldest = (t.added.filter fun insertion => t.Pending insertion.1).map Prod.fst
  acked : ∀ id ∈ t.acked, id ∉ t.s.oldest
  order : t.s.oldest.Pairwise fun first second => (t.s.data first).deadline ≤ (t.s.data second).deadline
  deadlines : ∀ insertion ∈ t.added, (t.s.data insertion.1).deadline = insertion.2 + minResponse

/-- A packet of a run expires within `MIN_RESPONSE`, and within `MIN_RESPONSE` of every pending
insertion. -/
def Limits (t : TrackedSend) (event : SendEvent) (_ : TrackedSend) : Prop :=
  ∀ now walk, event = .run now walk → ∀ pkt, (t.s.run now walk).2.pkt = some pkt →
    pkt.okExpiry ≤ now + minResponse ∧
      ∀ insertion ∈ t.added, t.Pending insertion.1 → pkt.okExpiry ≤ insertion.2 + minResponse

/-- Time does not go back, and the call does not abort. -/
structure Goes (t : TrackedSend) (event : SendEvent) : Prop where
  time : t.now ≤ event.time t.now
  fine : Outcome.Sat (t.s.step event) (fun next => next.fatal = false) fun _ => True

instance (t : TrackedSend) (event : SendEvent) : Decidable (t.Goes event) :=
  decidable_of_iff (t.now ≤ event.time t.now ∧
      Outcome.Sat (t.s.step event) (fun next => next.fatal = false) fun _ => True)
    ⟨fun both => ⟨both.1, both.2⟩, fun goes => ⟨goes.time, goes.fine⟩⟩

/-- The ack is not that of a cached insertion in the list that has no callback. -/
def Calls (t : TrackedSend) (event : SendEvent) : Prop := ∀ id ∈ event.acks t.s, t.s.Called id

instance (t : TrackedSend) (event : SendEvent) : Decidable (t.Calls event) :=
  inferInstanceAs (Decidable (∀ id ∈ event.acks t.s, t.s.Called id))

/-- What is kept between two calls. -/
structure Sound (t : TrackedSend) : Prop where
  kept : t.s.Kept KvpsyncSend.unheld none t.now
  waiting : t.s.Waiting
  exact : t.s.oldest = (t.added.filter fun insertion => t.Pending insertion.1).map Prod.fst
  times : t.added.Pairwise fun first second => first.2 ≤ second.2
  past : ∀ insertion ∈ t.added, insertion.1 < t.s.fresh ∧ insertion.2 ≤ t.now ∧
    (t.s.data insertion.1).deadline = insertion.2 + minResponse
  ackedExist : ∀ id ∈ t.acked, id < t.s.fresh
  expiry : t.s.okExpiry ≤ t.now + minResponse

variable {t next : TrackedSend} {event : SendEvent}

theorem Sound.pending_iff (sound : t.Sound) (id : Nat) :
    t.Pending id ↔ id ∉ t.acked ∧ t.s.outline.Alive id :=
  and_congr_right fun _ => or_congr_right (sound.kept.numbered.same id)

/-- Some insertions go out of the list, and new ones come to its end. -/
theorem exact_of_keep {oldest : List Nat} {added new : List (Nat × Nat)} {before after keep : Nat → Prop}
    [DecidablePred before] [DecidablePred after] [DecidablePred keep]
    (exact_ : oldest = (added.filter fun insertion => before insertion.1).map Prod.fst)
    (old : ∀ insertion ∈ added, (after insertion.1 ↔ before insertion.1 ∧ keep insertion.1))
    (newly : ∀ insertion ∈ new, after insertion.1 ∧ keep insertion.1) :
    (oldest ++ new.map Prod.fst).filter (fun id => decide (keep id)) =
      ((added ++ new).filter fun insertion => after insertion.1).map Prod.fst := by
  have first : oldest.filter (fun id => decide (keep id)) =
      (added.filter fun insertion => after insertion.1).map Prod.fst := by
    rw [exact_, filter_map, filter_filter]
    refine congrArg _ (filter_congr fun insertion mem => ?_)
    show (decide (keep insertion.1) && decide (before insertion.1)) = decide (after insertion.1)
    rw [← Bool.decide_and]
    exact decide_eq_decide.mpr ((and_comm).trans (old insertion mem).symm)
  have second : (new.map Prod.fst).filter (fun id => decide (keep id)) =
      (new.filter fun insertion => after insertion.1).map Prod.fst := by
    rw [filter_map]
    refine congrArg _ (filter_congr fun insertion mem => ?_)
    exact decide_eq_decide.mpr (iff_of_true (newly insertion mem).2 (newly insertion mem).1)
  rw [filter_append, filter_append, map_append, first, second]

/-- What is told of a call: which insertions stay in the list, and which are new or acked. -/
structure Call (t next : TrackedSend) (new : List (Nat × Nat)) (gone : List Nat) (keep : Nat → Prop)
    [DecidablePred keep] : Prop where
  added : next.added = t.added ++ new
  acked : next.acked = t.acked ++ gone
  time : t.now ≤ next.now
  lasts : t.s.Lasts next.s next.now
  oldest : next.s.oldest = (t.s.oldest ++ new.map Prod.fst).filter fun id => decide (keep id)
  alive : ∀ id, id < t.s.fresh →
    (id ∉ gone ∧ next.s.outline.Alive id ↔ t.s.outline.Alive id ∧ keep id)
  newly : ∀ insertion ∈ new, next.s.outline.Alive insertion.1 ∧ keep insertion.1 ∧
    insertion.1 = t.s.fresh ∧ insertion.1 < next.s.fresh ∧ insertion.2 = next.now ∧
      (next.s.data insertion.1).deadline = insertion.2 + minResponse
  gone : ∀ id ∈ gone, id < t.s.fresh

theorem Sound.call (sound : t.Sound) {new : List (Nat × Nat)} {gone : List Nat} {keep : Nat → Prop}
    [DecidablePred keep] (call : t.Call next new gone keep)
    (kept : next.s.Kept KvpsyncSend.unheld none next.now) (waiting : next.s.Waiting) : next.Sound := by
  have pending : ∀ id, next.Pending id ↔ id ∉ next.acked ∧ next.s.outline.Alive id :=
    fun id => and_congr_right fun _ => or_congr_right (kept.numbered.same id)
  refine ⟨kept, waiting, ?_, ?_, fun insertion mem => ?_, fun id mem => ?_, ?_⟩
  · rw [call.oldest, call.added]
    refine exact_of_keep sound.exact (fun insertion mem => ?_) fun insertion mem => ?_
    · have exist := (sound.past insertion mem).1
      rw [pending, sound.pending_iff, call.acked, mem_append, not_or, and_assoc, and_assoc]
      exact and_congr_right fun _ => call.alive insertion.1 exist
    · obtain ⟨alive, keeps, fresh, -⟩ := call.newly insertion mem
      refine ⟨(pending _).mpr ⟨fun acked => ?_, alive⟩, keeps⟩
      rw [call.acked, fresh, mem_append] at acked
      exact Nat.lt_irrefl _ (acked.elim (sound.ackedExist _) (call.gone _))
  · rw [call.added, pairwise_append]
    refine ⟨sound.times, ?_, fun first here second there => ?_⟩
    · refine pairwise_of_forall_mem_list fun first here second there => Nat.le_of_eq ?_
      rw [(call.newly first here).2.2.2.2.1, (call.newly second there).2.2.2.2.1]
    · rw [(call.newly second there).2.2.2.2.1]
      exact Nat.le_trans (sound.past first here).2.1 call.time
  · rw [call.added] at mem
    rcases mem_append.mp mem with mem | mem
    · obtain ⟨exist, past, deadline⟩ := sound.past insertion mem
      exact ⟨Nat.lt_of_lt_of_le exist call.lasts.fresh, Nat.le_trans past call.time,
        (call.lasts.deadlines _ exist).trans deadline⟩
    · obtain ⟨-, -, -, exist, time, deadline⟩ := call.newly insertion mem
      exact ⟨exist, Nat.le_of_eq time, deadline⟩
  · rw [call.acked] at mem
    exact Nat.lt_of_lt_of_le ((mem_append.mp mem).elim (sound.ackedExist id) (call.gone id))
      call.lasts.fresh
  · exact call.lasts.expiry (Nat.le_trans sound.expiry (Nat.add_le_add_right call.time _))

theorem Sound.inside (sound : t.Sound) : ∀ id ∈ t.s.oldest, id < t.s.fresh := by
  intro id mem
  rw [sound.exact] at mem
  obtain ⟨insertion, inside, rfl⟩ := mem_map.mp mem
  exact (sound.past insertion (mem_filter.mp inside).1).1

theorem Sound.honours (sound : t.Sound) : t.Honours := by
  refine ⟨sound.exact, fun id acked mem => ?_, ?_, fun insertion mem =>
    (sound.past insertion mem).2.2⟩
  · rw [sound.exact] at mem
    obtain ⟨insertion, inside, rfl⟩ := mem_map.mp mem
    exact (of_decide_eq_true (mem_filter.mp inside).2).1 acked
  · rw [sound.exact, pairwise_map]
    refine (sound.times.sublist filter_sublist).imp_of_mem fun {first second} here there le => ?_
    rw [(sound.past first (mem_filter.mp here).1).2.2,
      (sound.past second (mem_filter.mp there).1).2.2]
    exact Nat.add_le_add_right le _

theorem keep_all (oldest : List Nat) :
    oldest = (oldest ++ ([] : List (Nat × Nat)).map Prod.fst).filter fun _ => decide True :=
  (append_nil oldest).symm.trans (filter_eq_self.mpr fun _ _ => rfl).symm

/-- What a call does after it has changed the insertions makes no difference to them. -/
theorem Call.still {new : List (Nat × Nat)} {gone : List Nat} {keep : Nat → Prop} [DecidablePred keep]
    (call : t.Call next new gone keep) {after : KvpsyncSend} (still : next.s.Still after next.now)
    (same : after.outline = next.s.outline) :
    t.Call ⟨after, next.now, next.added, next.acked⟩ new gone keep := by
  refine ⟨call.added, call.acked, call.time, call.lasts.trans still.lasts,
    still.oldest.trans call.oldest, fun id exist => ?_, fun insertion mem => ?_, call.gone⟩
  · show id ∉ gone ∧ after.outline.Alive id ↔ _
    rw [same]
    exact call.alive id exist
  · obtain ⟨alive, keeps, fresh, exist, time, deadline⟩ := call.newly insertion mem
    refine ⟨?_, keeps, fresh, Nat.lt_of_lt_of_le exist still.fresh, time,
      (still.deadlines _ exist).trans deadline⟩
    show after.outline.Alive insertion.1
    rw [same]
    exact alive

theorem call_add (sound : t.Sound) (now : Nat) (key val : Bytes) (cb : Option Nat) (time : t.now ≤ now) :
    Call t ⟨t.s.addKey now key val cb, now, t.added ++ [(t.s.fresh, now)], t.acked ++ []⟩
      [(t.s.fresh, now)] [] (t.s.Remains (t.s.cached key)) := by
  obtain ⟨lasts, more, deadline⟩ := KvpsyncSend.lasts_addKey t.s now key val cb
  have alive := Outline.alive_addKey t.s.outline key val cb
  rw [← KvpsyncSend.outline_addKey t.s now, ← KvpsyncSend.cached_eq] at alive
  refine ⟨rfl, rfl, time, lasts, KvpsyncSend.oldest_addKey sound.kept.books now key val cb,
    fun id exist => ?_, fun insertion mem => ?_, nofun⟩
  · exact (and_iff_right not_mem_nil).trans (alive.2 id exist)
  · rw [mem_singleton.mp mem]
    refine ⟨alive.1, fun same => ?_, rfl, more, rfl, deadline⟩
    exact absurd (sound.kept.books.exist _ (.inl (KvpsyncSend.mem_cached same))) (Nat.lt_irrefl _)

theorem call_delete (sound : t.Sound) (key : Bytes) :
    Call t ⟨t.s.deleteKey key, t.now, t.added ++ [], t.acked ++ []⟩ [] []
      (t.s.Remains (t.s.cached key)) := by
  have alive := fun id => @Outline.alive_deleteKey t.s.outline key id
  rw [← KvpsyncSend.outline_deleteKey, ← KvpsyncSend.cached_eq] at alive
  refine ⟨rfl, rfl, le_rfl, KvpsyncSend.lasts_deleteKey t.s key t.now, ?_, fun id exist => ?_,
    nofun, nofun⟩
  · exact (KvpsyncSend.oldest_deleteKey sound.kept.books key).trans
      (congrArg _ (append_nil t.s.oldest).symm)
  · exact (and_iff_right not_mem_nil).trans (alive id exist)

theorem call_run (t : TrackedSend) (now : Nat) (walk : HashWalk) (time : t.now ≤ now)
    (still : t.s.Still (t.s.run now walk).1 now) :
    Call t ⟨(t.s.run now walk).1, now, t.added ++ [], t.acked ++ []⟩ [] [] fun _ => True := by
  have keeps := KvpsyncSend.keeps_run t.s now walk
  refine ⟨rfl, rfl, time, still.lasts, still.oldest.trans (keep_all t.s.oldest), fun id exist => ?_,
    nofun, nofun⟩
  exact (and_iff_right not_mem_nil).trans ((keeps.alive id exist).trans (and_iff_left trivial).symm)

theorem call_ack (sound : t.Sound) (ack : KvpAck) (now : Nat) (time : t.now ≤ now)
    (called : ∀ id ∈ (t.s.ackedBy ack).toList, t.s.Called id) :
    ∃ keep : Nat → Prop, ∃ _ : DecidablePred keep,
      Call t ⟨t.s.handleAck ack now, now, t.added ++ [], t.acked ++ (t.s.ackedBy ack).toList⟩ []
        (t.s.ackedBy ack).toList keep := by
  have still := KvpsyncSend.still_maybeStateCb (t.s.handleAckBody ack now) now
  have outline := KvpsyncSend.outline_maybeStateCb (t.s.handleAckBody ack now)
  have books : KvpsyncSend.Books { t.s with lastRecv := now } KvpsyncSend.unheld :=
    { sound.kept.books with }
  have heard : t.s.Lasts { t.s with lastRecv := now } now :=
    { KvpsyncSend.Lasts.refl t.s now with }
  suffices body : ∃ keep : Nat → Prop, ∃ _ : DecidablePred keep,
      Call t ⟨t.s.handleAckBody ack now, now, t.added ++ [], t.acked ++ (t.s.ackedBy ack).toList⟩ []
        (t.s.ackedBy ack).toList keep by
    obtain ⟨keep, decide, call⟩ := body
    exact ⟨keep, decide, call.still still outline⟩
  rcases KvpsyncSend.handleAckBody_cases t.s ack now with ⟨none, same | same⟩ | ⟨id, mem, found, same⟩
  · rw [same, none]
    refine ⟨fun _ => True, inferInstance, rfl, rfl, time, heard, keep_all t.s.oldest, fun id _ => ?_,
      nofun, nofun⟩
    exact (and_iff_right not_mem_nil).trans (and_iff_left trivial).symm
  · rw [same, none]
    have alive : ∀ id, (KvpsyncSend.outline (KvpsyncSend.resync { t.s with lastRecv := now }
        ack.syncId)).Alive id ↔ id ∈ t.s.cache := by
      intro id
      rw [KvpsyncSend.outline_resync]
      exact or_iff_left fun inside => inside
    refine ⟨fun id => id ∈ t.s.cache ∨ ¬t.s.Listed id, inferInstance, rfl, rfl, time,
      heard.trans (KvpsyncSend.lasts_resync _ ack.syncId now), ?_, fun id _ => ?_, nofun, nofun⟩
    · exact (KvpsyncSend.oldest_resync books ack.syncId).trans
        (congrArg _ (append_nil t.s.oldest).symm)
    · refine (and_iff_right not_mem_nil).trans ((alive id).trans ?_)
      show _ ↔ (id ∈ t.s.cache ∨ t.s.Listed id) ∧ _
      tauto
  · rw [same, found]
    have listed := (sound.kept.numbered.same id).mp mem
    have alive : ∀ other, (KvpsyncSend.outline (KvpsyncSend.handleAckOf { t.s with lastRecv := now }
        id)).Alive other ↔ other ∈ t.s.cache ∨ t.s.Listed other ∧ other ≠ id := by
      intro other
      rw [KvpsyncSend.outline_handleAckOf]
      exact Iff.rfl
    refine ⟨fun other => other ≠ id, inferInstance, rfl, rfl, time,
      heard.trans (KvpsyncSend.lasts_handleAckOf _ id now), ?_, fun other _ => ?_, nofun, ?_⟩
    · refine (KvpsyncSend.oldest_handleAckOf books listed ?_).trans
        (congrArg _ (append_nil t.s.oldest).symm)
      exact called id (found ▸ mem_singleton_self id)
    · show other ∉ [id] ∧ _ ↔ (other ∈ t.s.cache ∨ t.s.Listed other) ∧ other ≠ id
      rw [alive, mem_singleton]
      tauto
    · intro other inside
      rw [mem_singleton.mp inside]
      exact sound.kept.books.exist id (.inr listed)

/-- Every call keeps the list, as long as no ack leaves an insertion in it. -/
theorem step_sound (sound : t.Sound) (met : t.Goes event ∧ t.Calls event) :
    Outcome.Sat (t.step event) Sound fun _ => False := by
  obtain ⟨⟨time, fine⟩, calls⟩ := met
  unfold TrackedSend.step
  cases stepped : t.s.step event with
  | error fault => exact nomatch fault
  | ok after =>
    have alive : after.fatal = false := fine.of_ok stepped
    have added : ∀ later key val cb, event = .add later key val cb →
        (t.s.newInsert later key val cb).fatal = false := by
      rintro later key val cb rfl
      cases stepped
      exact (KvpsyncSend.grows_addKey t.s later key val cb).fatal alive
    obtain ⟨kept, waiting, -⟩ :=
      KvpsyncSend.step_kept sound.kept sound.waiting time added stepped alive
    show Sound ⟨after, event.time t.now, t.added ++ event.adds t.s, t.acked ++ event.acks t.s⟩
    cases event with
    | add now key val cb =>
      cases stepped
      exact sound.call (call_add sound now key val cb time) kept waiting
    | delete key =>
      cases stepped
      exact sound.call (call_delete sound key) kept waiting
    | ack ack now =>
      cases stepped
      obtain ⟨keep, decide, call⟩ := call_ack sound ack now time calls
      exact sound.call call kept waiting
    | run now walk =>
      cases stepped
      have bound := Nat.le_trans sound.expiry (Nat.add_le_add_right time _)
      have still := (KvpsyncSend.runBody_granted bound sound.inside walk).1.trans
        (KvpsyncSend.still_maybeStateCb _ now)
      exact sound.call (call_run t now walk time still) kept waiting

theorem Honours.first (honours : t.Honours) {insertion : Nat × Nat} (added : insertion ∈ t.added)
    (pending : t.Pending insertion.1) : ∃ oldest, t.s.oldest.head? = some oldest ∧
      (t.s.data oldest).deadline ≤ insertion.2 + minResponse := by
  have mem : insertion.1 ∈ t.s.oldest := by
    rw [honours.exact]
    exact mem_map_of_mem (mem_filter.mpr ⟨added, decide_eq_true pending⟩)
  have order := honours.order
  cases list : t.s.oldest with
  | nil =>
    rw [list] at mem
    exact nomatch mem
  | cons oldest rest =>
    rw [list] at mem order
    refine ⟨oldest, rfl, ?_⟩
    rw [← honours.deadlines insertion added]
    rcases mem_cons.mp mem with same | later
    · rw [same]
    · exact (pairwise_cons.mp order).1 _ later

theorem step_limits (sound : t.Sound) (met : t.Goes event ∧ t.Calls event) :
    Limits t event next := by
  rintro now walk rfl pkt sent
  have bound := Nat.le_trans sound.expiry (Nat.add_le_add_right met.1.time _)
  have granted := (KvpsyncSend.runBody_granted bound sound.inside walk).2 pkt sent
  refine ⟨granted.1, fun insertion added pending => ?_⟩
  obtain ⟨oldest, first, deadline⟩ := sound.honours.first added pending
  exact Nat.le_trans (granted.2 oldest first) deadline

theorem start_sound (now syncId : Nat) (stateCb : Bool) : (start now syncId stateCb).Sound := by
  obtain ⟨kept, waiting⟩ := TimedSend.start_sound now syncId stateCb
  exact ⟨⟨kept.books, kept.numbered, kept.ordered, trivial⟩, waiting, rfl, List.Pairwise.nil, nofun,
    nofun, le_rfl⟩

/-- In every run in which an ack finds a callback with a cached insertion, the list is exact and packets
keep within the deadlines. -/
theorem honours_of_guarded {now syncId : Nat} {stateCb : Bool} {events : List SendEvent}
    (guarded : Run.Guarded step (fun t event => t.Goes event ∧ t.Calls event)
      (start now syncId stateCb) events) :
    Outcome.Sat (Run.run step (start now syncId stateCb) events) Honours (fun _ => False) ∧
      Run.Throughout step Limits (start now syncId stateCb) events :=
  ⟨(guarded.sat (fun _ _ => step_sound) (start_sound now syncId stateCb)).mono fun _ => Sound.honours,
    guarded.throughout (fun _ _ => step_sound) (fun _ _ sound met _ _ => step_limits sound met)
      (start_sound now syncId stateCb)⟩

theorem honours_of_guarded_resynced :
    Outcome.Sat (Run.run step (start 0 7 true) TimedSend.resynced) Honours (fun _ => False) ∧
      Run.Throughout step Limits (start 0 7 true) TimedSend.resynced :=
  @honours_of_guarded 0 7 true TimedSend.resynced (by decide)

/-- An insertion without a callback is acked, and it limits the expiry time for ever. -/
theorem honours_fails : ¬∀ (now syncId : Nat) (stateCb : Bool) (events : List SendEvent)
    (_ : Run.Guarded step Goes (start now syncId stateCb) events),
    Outcome.Sat (Run.run step (start now syncId stateCb) events) Honours (fun _ => False) ∧
      Run.Throughout step Limits (start now syncId stateCb) events := by
  intro always
  have honours := (always 0 7 true [.run 0 TimedSend.inOrder, .ack ⟨7, 1⟩ 0, .add 0 [1] [2] none,
    .run 0 TimedSend.inOrder, .ack ⟨7, 2⟩ 0, .run 0 TimedSend.inOrder, .ack ⟨7, 3⟩ 0] (by decide)).1
  exact honours.acked 1 (by decide) (by decide)

end TrackedSend

end Splintermail
