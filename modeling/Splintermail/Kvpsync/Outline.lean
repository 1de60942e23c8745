/-
This file is the sender of kvpsync without its timing.

What the receiver is told does not depend on when packets are sent, on how often and in
which order they are resent, or on how many may be under way. The outline of a sender
leaves all this out: it knows the objects that are in the packet lists, and not where.
Every function of the sender is told on the outline: those for retransmission,
congestion and the expiry time do not change it at all, and the others are operations of
the outline.
-/

import Mathlib.Data.List.Perm.Basic
import Splintermail.Kvpsync.Send

namespace Splintermail

open List KvpsyncSend

/-! ### The outline of a sender -/

/-- What the state of a sender means to the receiver. -/
structure Outline where
  syncId : Nat
  resyncId : Nat
  updateId : Nat
  cache : List Nat
  unacked : List Nat
  listed : Nat → Prop
  core : Nat → KvpUpdate
  cb : Nat → Option Nat
  fresh : Nat
  blocked : Bool
  synced : Bool
  startDone : Bool
  startSent : Bool
  syncDone : Bool
  syncSent : Bool
  made : List KvpUpdate
  content : List KvpUpdate
  acked : List KvpUpdate
  added : Nat → Prop

def KvpsyncSend.outline (s : KvpsyncSend) : Outline where
  syncId := s.syncId
  resyncId := s.resyncId
  updateId := s.updateId
  cache := s.cache
  unacked := s.unacked
  listed id := id ∈ s.unsent ∨ id ∈ s.sent
  core id := (s.data id).update.core
  cb id := (s.data id).cb
  fresh := s.fresh
  blocked := s.blocked
  synced := s.synced
  startDone := s.startDone
  startSent := s.startSent
  syncDone := s.syncDone
  syncSent := s.syncSent
  made := s.made
  content := s.content
  acked := s.acked
  added id := ∃ cb, .added id cb ∈ s.calls

namespace Outline

def alloc (o : Outline) (body : KvpBody) (cb : Option Nat) : Outline :=
  { o with
    core := Function.update o.core o.fresh ⟨0, 0, 0, body⟩
    cb := Function.update o.cb o.fresh cb
    fresh := o.fresh + 1 }

def queue (o : Outline) (id : Nat) : Outline :=
  let updateId := (o.updateId + 1) % 2 ^ 32
  let update : KvpUpdate := ⟨0, o.syncId, updateId, (o.core id).body⟩
  { o with
    updateId := updateId
    unacked := (o.unacked.filter fun other => (o.core other).updateId ≠ updateId) ++ [id]
    listed := fun other => o.listed other ∨ other = id
    core := Function.update o.core id update
    made := o.made ++ [update] }

def queueNew (o : Outline) (body : KvpBody) : Outline := (o.alloc body none).queue o.fresh

def resync (o : Outline) (resyncId : Nat) : Outline :=
  { o with
    resyncId := resyncId
    syncId := nextSyncId o.syncId
    updateId := 0
    unacked := []
    listed := fun _ => False
    blocked := false
    synced := false
    startDone := false
    startSent := false
    syncDone := false
    syncSent := false }

open Classical in
noncomputable def ackOf (o : Outline) (id : Nat) : Outline :=
  { o with
    unacked := o.unacked.filter (· ≠ id)
    listed := fun other => o.listed other ∧ other ≠ id
    acked := o.acked ++ [o.core id]
    blocked := if ∀ other, o.listed other → other = id then false else o.blocked
    cb := Function.update o.cb id none
    added := fun other => o.added other ∨ other = id ∧ o.cb id ≠ none }

def advanceStart (o : Outline) : Outline :=
  if o.startDone then o
  else
    let o :=
      if o.startSent then o
      else { o.queueNew (.start o.resyncId) with blocked := true, startSent := true }
    if o.blocked then o else { o with startDone := true }

def advanceContent (o : Outline) (walk : HashWalk) : Outline :=
  if o.syncDone then o
  else
    let o :=
      if o.syncSent then o
      else
        let queued := (walk.order o.cache).foldl queue o
        { queued with
          blocked := !o.cache.isEmpty
          syncSent := true
          content := o.content ++ queued.made.drop o.made.length }
    if o.blocked then o else { o with syncDone := true }

def advanceState (o : Outline) (walk : HashWalk) : Outline :=
  if o.synced then o
  else
    let o := o.advanceStart
    if !o.startDone then o
    else
      let o := o.advanceContent walk
      if !o.syncDone then o else { o.queueNew .flush with synced := true }

noncomputable def handleAck (o : Outline) (ack : KvpAck) : Outline :=
  if ack.updateId = 0 then if ack.syncId = o.resyncId then o else o.resync ack.syncId
  else if ack.syncId ≠ o.syncId then o
  else
    match o.unacked.find? fun id => (o.core id).updateId = ack.updateId with
    | none => o
    | some id => o.ackOf id

def queueDelete (o : Outline) (old : Nat) : Outline :=
  if o.syncSent && decide ((o.core old).syncId = o.syncId) then
    o.queueNew (.delete (o.core old).body.name (o.core old).updateId)
  else o

def cached (o : Outline) (key : Bytes) : Option Nat :=
  o.cache.find? fun id => (o.core id).body.name = key

/-- A new insertion is queued if the content of the sync is. -/
def queueInsert (o : Outline) (id : Nat) : Outline := if o.syncSent then o.queue id else o

def addKey (o : Outline) (key val : Bytes) (cb : Option Nat) : Outline :=
  let id := o.fresh
  let old := o.cached key
  let o := o.alloc (.insert key val) cb
  let o :=
    match old with
    | none => { o with cache := o.cache ++ [id] }
    | some old =>
      { o with cache := o.cache.map fun other => if other = old then id else other }.queueDelete old
  o.queueInsert id

def deleteKey (o : Outline) (key : Bytes) : Outline :=
  match o.cached key with
  | none => o
  | some id =>
    { o with
      cache := o.cache.filter (· ≠ id)
      cb := Function.update o.cb id none }.queueDelete id

end Outline

namespace KvpsyncSend

theorem nextSyncId_valid (syncId : Nat) (bound : syncId < 2 ^ 32) :
    nextSyncId syncId ≠ 0 ∧ nextSyncId syncId < 2 ^ 32 := by
  unfold nextSyncId
  split <;> omega

/-! ### Objects -/

section

variable (s : KvpsyncSend)

@[simp] theorem modify_self (id : Nat) (change : SendData → SendData) :
    (s.modify id change).data id = change (s.data id) :=
  Function.update_self ..

theorem modify_other {id other : Nat} (change : SendData → SendData) (apart : other ≠ id) :
    (s.modify id change).data other = s.data other :=
  Function.update_of_ne apart ..

/-- A change to an object that keeps its update and its callback is not in the outline. -/
theorem outline_modify (id : Nat) {change : SendData → SendData}
    (core : ∀ data, (change data).update.core = data.update.core)
    (cb : ∀ data, (change data).cb = data.cb) : (s.modify id change).outline = s.outline := by
  have cores : ∀ other, ((s.modify id change).data other).update.core = (s.data other).update.core := by
    intro other
    by_cases same : other = id
    · rw [same, modify_self, core]
    · rw [modify_other s change same]
  have cbs : ∀ other, ((s.modify id change).data other).cb = (s.data other).cb := by
    intro other
    by_cases same : other = id
    · rw [same, modify_self, cb]
    · rw [modify_other s change same]
  show { s.outline with
    core := fun other => ((s.modify id change).data other).update.core
    cb := fun other => ((s.modify id change).data other).cb } = s.outline
  rw [funext cores, funext cbs]
  rfl

theorem outline_dataDownref (id : Nat) : (s.dataDownref id).outline = s.outline := by
  have less : (s.modify id fun data => { data with nrefs := data.nrefs - 1 }).outline = s.outline :=
    outline_modify s id (fun _ => rfl) fun _ => rfl
  unfold dataDownref
  dsimp only
  split <;> exact less

theorem outline_alloc (body : KvpBody) (cb : Option Nat) (deadline : Nat) :
    (s.alloc { SendData.new body with cb := cb, deadline := deadline }).outline =
      s.outline.alloc body cb := by
  have cores : (fun other => ((s.alloc { SendData.new body with
      cb := cb, deadline := deadline }).data other).update.core) =
        Function.update s.outline.core s.fresh ⟨0, 0, 0, body⟩ := by
    funext other
    by_cases same : other = s.fresh
    · subst same
      show (Function.update s.data s.fresh _ s.fresh).update.core = _
      rw [Function.update_self, Function.update_self]
      rfl
    · show (Function.update s.data s.fresh _ other).update.core = _
      rw [Function.update_of_ne same, Function.update_of_ne same]
      rfl
  have cbs : (fun other => ((s.alloc { SendData.new body with
      cb := cb, deadline := deadline }).data other).cb) =
        Function.update s.outline.cb s.fresh cb := by
    funext other
    by_cases same : other = s.fresh
    · subst same
      show (Function.update s.data s.fresh _ s.fresh).cb = _
      rw [Function.update_self, Function.update_self]
    · show (Function.update s.data s.fresh _ other).cb = _
      rw [Function.update_of_ne same, Function.update_of_ne same]
      rfl
  unfold outline Outline.alloc
  rw [cores, cbs]
  rfl

theorem outline_dataRemove (id : Nat) :
    (s.dataRemove id).outline =
      { s.outline with listed := fun other => s.outline.listed other ∧ other ≠ id } := by
  unfold dataRemove
  dsimp only
  refine (outline_modify _ id ?_ ?_).trans ?_
  · exact fun _ => rfl
  · exact fun _ => rfl
  have listed : (fun other => other ∈ s.unsent.filter (· ≠ id) ∨ other ∈ s.sent.filter (· ≠ id)) =
      fun other => s.outline.listed other ∧ other ≠ id := by
    funext other
    show _ = ((other ∈ s.unsent ∨ other ∈ s.sent) ∧ other ≠ id)
    simp only [mem_filter, decide_eq_true_eq, or_and_right]
  exact congrArg (fun listed => { s.outline with listed := listed }) listed

theorem outline_dataQueue (id : Nat) : (s.dataQueue id).outline = s.outline.queue id := by
  have cores : (fun other => ((s.dataQueue id).data other).update.core) =
      Function.update s.outline.core id
        ⟨0, s.syncId, (s.updateId + 1) % 2 ^ 32, (s.data id).update.body⟩ := by
    funext other
    by_cases same : other = id
    · subst same
      rw [Function.update_self]
      unfold dataQueue
      rw [modify_self]
      rfl
    · rw [Function.update_of_ne same]
      unfold dataQueue
      rw [modify_other _ _ same]
      rfl
  have cbs : (fun other => ((s.dataQueue id).data other).cb) = s.outline.cb := by
    funext other
    by_cases same : other = id
    · subst same
      unfold dataQueue
      rw [modify_self]
      rfl
    · unfold dataQueue
      rw [modify_other _ _ same]
      rfl
  have listed : (fun other => other ∈ (s.dataQueue id).unsent ∨ other ∈ (s.dataQueue id).sent) =
      fun other => s.outline.listed other ∨ other = id := by
    funext other
    show (other ∈ s.unsent ++ [id] ∨ other ∈ s.sent) = ((other ∈ s.unsent ∨ other ∈ s.sent) ∨ other = id)
    rw [mem_append, mem_singleton]
    exact propext (by tauto)
  unfold outline Outline.queue
  rw [cores, cbs, listed]
  rfl

theorem outline_queueNew (body : KvpBody) :
    (s.queueNew body).outline = s.outline.queueNew body := by
  unfold queueNew Outline.queueNew
  rw [outline_dataQueue]
  exact congrArg (Outline.queue · s.fresh) (outline_alloc s body none 0)

theorem outline_emptyList (list : List Nat) :
    (s.emptyList list).outline =
      { s.outline with listed := fun other => s.outline.listed other ∧ other ∉ list } ∧
      (∀ other, other ∈ (s.emptyList list).unsent ↔ other ∈ s.unsent ∧ other ∉ list) ∧
        ∀ other, other ∈ (s.emptyList list).sent ↔ other ∈ s.sent ∧ other ∉ list := by
  induction list generalizing s with
  | nil =>
    refine ⟨?_, fun other => ?_, fun other => ?_⟩
    · have listed : (fun other => s.outline.listed other ∧ other ∉ ([] : List Nat)) =
          s.outline.listed := by
        funext other
        simp
      rw [listed]
      rfl
    · exact (and_iff_left not_mem_nil).symm
    · exact (and_iff_left not_mem_nil).symm
  | cons id rest ih =>
    obtain ⟨outline, unsent, sent⟩ := ih ((s.dataRemove id).dataDownref id)
    have lists : ((s.dataRemove id).dataDownref id).unsent = s.unsent.filter (· ≠ id) ∧
        ((s.dataRemove id).dataDownref id).sent = s.sent.filter (· ≠ id) := by
      unfold dataDownref
      dsimp only
      split <;> exact ⟨rfl, rfl⟩
    rw [lists.1] at unsent
    rw [lists.2] at sent
    refine ⟨?_, fun other => (unsent other).trans ?_, fun other => (sent other).trans ?_⟩
    · refine outline.trans ?_
      rw [outline_dataDownref, outline_dataRemove]
      have listed : (fun other => (s.outline.listed other ∧ other ≠ id) ∧ other ∉ rest) =
          fun other => s.outline.listed other ∧ other ∉ id :: rest := by
        funext other
        rw [mem_cons, not_or, and_assoc]
      exact congrArg (fun listed => { s.outline with listed := listed }) listed
    · rw [mem_filter, decide_eq_true_eq, mem_cons, not_or, and_assoc]
    · rw [mem_filter, decide_eq_true_eq, mem_cons, not_or, and_assoc]

theorem outline_dropData :
    s.dropData.outline = { s.outline with unacked := [], listed := fun _ => False } := by
  unfold dropData
  dsimp only
  obtain ⟨outline, unsent, sent⟩ := outline_emptyList { s with unacked := [] } s.unsent
  generalize emptyList { s with unacked := [] } s.unsent = next at outline unsent sent ⊢
  obtain ⟨last, -, -⟩ := outline_emptyList next next.sent
  rw [last]
  have listed : (fun other => next.outline.listed other ∧ other ∉ next.sent) = fun _ => False := by
    funext other
    refine propext ⟨fun both => ?_, False.elim⟩
    rcases both.1 with mem | mem
    · exact ((unsent other).mp mem).2 ((unsent other).mp mem).1
    · exact both.2 mem
  rw [listed, outline]
  rfl

theorem outline_resync (resyncId : Nat) :
    (s.resync resyncId).outline = s.outline.resync resyncId := by
  unfold resync
  dsimp only
  generalize dropped : dropData { s with
    resyncId := resyncId, syncId := nextSyncId s.syncId, updateId := 0, recvOk := false,
    lastExtendOk := 0 } = next
  have outline := outline_dropData { s with
    resyncId := resyncId, syncId := nextSyncId s.syncId, updateId := 0, recvOk := false,
    lastExtendOk := 0 }
  rw [dropped] at outline
  show { next.outline with
    blocked := false, synced := false, startDone := false, startSent := false, syncDone := false,
    syncSent := false } = _
  rw [outline]
  rfl

/-! ### Timing -/

theorem outline_maybeStateCb : s.maybeStateCb.outline = s.outline := by
  unfold maybeStateCb
  split
  · rfl
  · have added : (fun id => ∃ cb, KvpCall.added id cb ∈ s.calls ++ [KvpCall.state s.recvOk]) =
        fun id => ∃ cb, KvpCall.added id cb ∈ s.calls := by
      funext id
      simp
    exact congrArg (fun added => { s.outline with added := added }) added

theorem outline_calculateOkExpiry (now : Nat) :
    (s.calculateOkExpiry now).2.outline = s.outline := by
  unfold calculateOkExpiry
  dsimp only
  split
  · rfl
  · have extended : ∀ okExpiry, (if okExpiry > s.okExpiry then
        (okExpiry, { s with okExpiry := okExpiry, lastExtendOk := now }) else
          (okExpiry, s)).2.outline = s.outline := by
      intro okExpiry
      split <;> rfl
    exact extended _

theorem outline_dataSend {id : Nat} (now : Nat) (listed : s.outline.listed id) :
    (s.dataSend id now).outline = s.outline := by
  unfold dataSend
  dsimp only
  refine (outline_modify _ id ?_ ?_).trans ((outline_calculateOkExpiry _ now).trans
    ((outline_modify _ id ?_ ?_).trans ?_))
  · exact fun _ => rfl
  · exact fun _ => rfl
  · exact fun _ => rfl
  · exact fun _ => rfl
  have removed := outline_dataRemove s id
  generalize s.dataRemove id = next at removed ⊢
  have back : (fun other => other ∈ next.unsent ∨ other ∈ next.sent ++ [id]) = s.outline.listed := by
    funext other
    have same : next.outline.listed other = (s.outline.listed other ∧ other ≠ id) := by rw [removed]
    refine propext ⟨fun mem => ?_, fun mem => ?_⟩
    · rcases mem with mem | mem
      · exact (same.mp (.inl mem)).1
      · rcases mem_append.mp mem with mem | mem
        · exact (same.mp (.inr mem)).1
        · rw [mem_singleton.mp mem]
          exact listed
    · by_cases itself : other = id
      · exact .inr (mem_append_right _ (mem_singleton.mpr itself))
      · exact (same.mpr ⟨mem, itself⟩).imp_right (mem_append_left _)
  show { next.outline with listed := fun other => other ∈ next.unsent ∨ other ∈ next.sent ++ [id] } = _
  rw [back, removed]

/-- A packet that is taken from the lists and put back is where it was, as far as the outline knows. -/
theorem outline_relist {id : Nat} (listed : s.outline.listed id) (unsent : List Nat)
    (mem : ∀ other, other ∈ unsent ↔ other = id ∨ other ∈ (s.dataRemove id).unsent) :
    outline { s.dataRemove id with unsent := unsent } = s.outline := by
  have removed := outline_dataRemove s id
  generalize s.dataRemove id = next at removed mem ⊢
  have back : (fun other => other ∈ unsent ∨ other ∈ next.sent) = s.outline.listed := by
    funext other
    have same : next.outline.listed other = (s.outline.listed other ∧ other ≠ id) := by rw [removed]
    refine propext ⟨fun inside => ?_, fun inside => ?_⟩
    · rcases inside with inside | inside
      · rcases (mem other).mp inside with rfl | inside
        · exact listed
        · exact (same.mp (.inl inside)).1
      · exact (same.mp (.inr inside)).1
    · by_cases itself : other = id
      · exact .inl ((mem other).mpr (.inl itself))
      · rcases same.mpr ⟨inside, itself⟩ with inside | inside
        · exact .inl ((mem other).mpr (.inr inside))
        · exact .inr inside
  show { next.outline with listed := fun other => other ∈ unsent ∨ other ∈ next.sent } = _
  rw [back, removed]

end

theorem mem_linkBefore (element : Option Nat) (id other : Nat) (list : List Nat) :
    other ∈ linkBefore element id list ↔ other = id ∨ other ∈ list := by
  cases element with
  | none =>
    show other ∈ list ++ [id] ↔ _
    rw [mem_append, mem_singleton, or_comm]
  | some element =>
    show other ∈ list.takeWhile (· ≠ element) ++ id :: list.dropWhile (· ≠ element) ↔ _
    have split := @takeWhile_append_dropWhile Nat (· ≠ element) list
    rw [mem_append, mem_cons]
    constructor
    · rintro (inside | rfl | inside)
      · exact .inr (split ▸ mem_append_left _ inside)
      · exact .inl rfl
      · exact .inr (split ▸ mem_append_right _ inside)
    · rintro (rfl | inside)
      · exact .inr (.inl rfl)
      · rw [← split] at inside
        exact (mem_append.mp inside).imp_right .inr

theorem outline_resendAll (s : KvpsyncSend) : s.resendAll.outline = s.outline := by
  have loop : ∀ (first : Option Nat) (list : List Nat) (start : KvpsyncSend),
      (∀ id ∈ list, start.outline.listed id) → (list.foldl (fun s id => { s.dataRemove id with
          unsent := linkBefore first id (s.dataRemove id).unsent }) start).outline = start.outline := by
    intro first list
    induction list with
    | nil => exact fun _ _ => rfl
    | cons id rest ih =>
      intro start listed
      have same := outline_relist start (listed id mem_cons_self)
        (linkBefore first id (start.dataRemove id).unsent) fun other => mem_linkBefore first id other _
      rw [foldl_cons, ih _ fun other mem => ?_, same]
      rw [same]
      exact listed other (.tail _ mem)
  exact loop s.unsent.head? s.sent s fun id mem => .inr mem

theorem outline_faultDetected (s : KvpsyncSend) (id now : Nat) :
    (s.faultDetected id now).outline = s.outline := by
  unfold faultDetected
  split
  · rfl
  · split <;> rfl

theorem outline_faultLoop (now : Nat) (list : List Nat) (s : KvpsyncSend)
    (listed : ∀ id ∈ list, s.outline.listed id) : (faultLoop now list s).outline = s.outline := by
  induction list generalizing s with
  | nil => rfl
  | cons id rest ih =>
    rw [faultLoop]
    split
    · rfl
    · have same := outline_relist s (listed id mem_cons_self) ((s.dataRemove id).unsent ++ [id])
        fun other => by rw [mem_append, mem_singleton, or_comm]
      have detected := outline_faultDetected
        { s.dataRemove id with unsent := (s.dataRemove id).unsent ++ [id] } id now
      dsimp only
      rw [ih _ fun other mem => ?_, detected, same]
      rw [detected, same]
      exact listed other (.tail _ mem)

/-! ### Syncs -/

section

variable (s : KvpsyncSend)

theorem outline_queueAllInserts (elems : List Nat) :
    (s.queueAllInserts elems).outline = elems.foldl Outline.queue s.outline := by
  unfold queueAllInserts
  induction elems generalizing s with
  | nil => rfl
  | cons id rest ih =>
    rw [foldl_cons, foldl_cons, ih]
    refine congrArg (rest.foldl Outline.queue ·) ?_
    rw [outline_dataQueue]
    refine congrArg (Outline.queue · id) ?_
    exact outline_modify _ id (fun _ => rfl) fun _ => rfl

theorem outline_advanceStart : s.advanceStart.outline = s.outline.advanceStart := by
  unfold advanceStart Outline.advanceStart
  by_cases done : s.startDone
  · rw [if_pos done, if_pos (show s.outline.startDone = true from done)]
  · rw [if_neg done, if_neg (show ¬s.outline.startDone = true from done)]
    dsimp only
    have queued : outline (if s.startSent then s
        else { s.queueStart with blocked := true, startSent := true }) =
          if s.outline.startSent then s.outline
          else { s.outline.queueNew (.start s.outline.resyncId) with
            blocked := true, startSent := true } := by
      by_cases sent : s.startSent
      · rw [if_pos sent, if_pos (show s.outline.startSent = true from sent)]
      · rw [if_neg sent, if_neg (show ¬s.outline.startSent = true from sent)]
        exact congrArg (fun o : Outline => { o with blocked := true, startSent := true })
          (outline_queueNew s (.start s.resyncId))
    rw [← queued]
    generalize (if s.startSent then s
      else { s.queueStart with blocked := true, startSent := true }) = next
    by_cases blocked : next.blocked
    · rw [if_pos blocked, if_pos (show next.outline.blocked = true from blocked)]
    · rw [if_neg blocked, if_neg (show ¬next.outline.blocked = true from blocked)]
      rfl

theorem outline_advanceContent (walk : HashWalk) :
    (s.advanceContent walk).outline = s.outline.advanceContent walk := by
  unfold advanceContent Outline.advanceContent
  by_cases done : s.syncDone
  · rw [if_pos done, if_pos (show s.outline.syncDone = true from done)]
  · rw [if_neg done, if_neg (show ¬s.outline.syncDone = true from done)]
    dsimp only
    have queued : outline (if s.syncSent then s
        else { s.queueAllInserts (walk.order s.cache) with
          blocked := !s.cache.isEmpty
          syncSent := true
          content := s.content ++
            (s.queueAllInserts (walk.order s.cache)).made.drop s.made.length }) =
          if s.outline.syncSent then s.outline
          else { (walk.order s.outline.cache).foldl Outline.queue s.outline with
            blocked := !s.outline.cache.isEmpty
            syncSent := true
            content := s.outline.content ++
              ((walk.order s.outline.cache).foldl Outline.queue s.outline).made.drop
                s.outline.made.length } := by
      by_cases sent : s.syncSent
      · rw [if_pos sent, if_pos (show s.outline.syncSent = true from sent)]
      · rw [if_neg sent, if_neg (show ¬s.outline.syncSent = true from sent)]
        exact congrArg (fun o : Outline => { o with
          blocked := !s.cache.isEmpty
          syncSent := true
          content := s.content ++ o.made.drop s.made.length })
            (outline_queueAllInserts s (walk.order s.cache))
    rw [← queued]
    generalize (if s.syncSent then s
      else { s.queueAllInserts (walk.order s.cache) with
        blocked := !s.cache.isEmpty
        syncSent := true
        content := s.content ++
          (s.queueAllInserts (walk.order s.cache)).made.drop s.made.length }) = next
    by_cases blocked : next.blocked
    · rw [if_pos blocked, if_pos (show next.outline.blocked = true from blocked)]
    · rw [if_neg blocked, if_neg (show ¬next.outline.blocked = true from blocked)]
      rfl

theorem outline_advanceState (now : Nat) (walk : HashWalk) :
    (s.advanceState now walk).outline = s.outline.advanceState walk := by
  unfold advanceState Outline.advanceState
  by_cases synced : s.synced
  · rw [if_pos synced, if_pos (show s.outline.synced = true from synced)]
  · rw [if_neg synced, if_neg (show ¬s.outline.synced = true from synced)]
    dsimp only
    rw [← outline_advanceStart]
    generalize s.advanceStart = started
    by_cases start : !started.startDone
    · rw [if_pos start, if_pos (show (!started.outline.startDone) = true from start)]
    · rw [if_neg start, if_neg (show ¬(!started.outline.startDone) = true from start)]
      rw [← outline_advanceContent]
      generalize started.advanceContent walk = content
      by_cases done : !content.syncDone
      · rw [if_pos done, if_pos (show (!content.outline.syncDone) = true from done)]
      · rw [if_neg done, if_neg (show ¬(!content.outline.syncDone) = true from done)]
        have flushed := outline_queueNew
          (calculateOkExpiry { content with recvOk := true } now).2 .flush
        rw [outline_calculateOkExpiry] at flushed
        exact congrArg (fun o : Outline => { o with synced := true }) flushed

/-! ### Runs -/

theorem outline_prepare (now : Nat) (walk : HashWalk) :
    (s.prepare now walk).outline = s.outline.advanceState walk := by
  unfold prepare
  dsimp only
  rw [← outline_advanceState s now]
  generalize s.advanceState now walk = advanced
  have lapsed : outline (if advanced.recvOk && decide (advanced.okExpiry ≤ now) then
      { advanced with recvOk := false } else advanced) = advanced.outline := by
    split <;> rfl
  rw [← lapsed]
  generalize (if advanced.recvOk && decide (advanced.okExpiry ≤ now) then
      { advanced with recvOk := false } else advanced) = next
  have resent : outline (match next.sent.head? with
      | none => next
      | some id =>
        if next.faultTime id ≤ now ∧ next.lastRecv ≤ (next.data id).sentTime then next.resendAll
        else next) = next.outline := by
    split
    · rfl
    · split
      · exact outline_resendAll next
      · rfl
  rw [← resent]
  exact outline_faultLoop now _ _ fun id mem => .inr mem

theorem core_dataSend {id : Nat} (now : Nat) (listed : s.outline.listed id) :
    ∃ other, s.outline.listed other ∧
      s.outline.core other = ((s.dataSend id now).data id).update.core :=
  ⟨id, listed, congrArg (Outline.core · id) (outline_dataSend s now listed).symm⟩

/-- A run may advance the sync and may queue a keepalive, and its packet is from the lists. -/
theorem outline_run (now : Nat) (walk : HashWalk) :
    ((s.run now walk).1.outline = s.outline.advanceState walk ∨
      (s.run now walk).1.outline = (s.outline.advanceState walk).queueNew .empty) ∧
      ∀ pkt, (s.run now walk).2.pkt = some pkt →
        ∃ id, (s.run now walk).1.outline.listed id ∧
          (s.run now walk).1.outline.core id = pkt.core := by
  unfold run
  rw [outline_maybeStateCb, ← outline_prepare s now]
  unfold runBody
  dsimp only
  generalize s.prepare now walk = ready
  cases first : (if ready.inflightIsFull then none else ready.unsent.head?) with
  | some id =>
    have mem : id ∈ ready.unsent := by
      split at first
      · cases first
      · exact mem_of_mem_head? first
    have same := outline_dataSend ready now (.inl mem)
    refine ⟨.inl same, fun pkt sent => ?_⟩
    dsimp only at sent ⊢
    rw [same, ← Option.some.inj sent]
    exact core_dataSend ready now (.inl mem)
  | none =>
    dsimp only
    cases head : ready.sent.head? with
    | some other => exact ⟨.inl rfl, nofun⟩
    | none =>
      dsimp only
      split
      · exact ⟨.inl rfl, nofun⟩
      · have queued := outline_queueNew { ready with recvOk := true } .empty
        generalize keepalive : queueEmpty { ready with recvOk := true } = next
        rw [show queueNew { ready with recvOk := true } .empty = next from keepalive]
          at queued
        cases front : next.unsent.head? with
        | none => exact ⟨.inr queued, nofun⟩
        | some id =>
          have mem : id ∈ next.unsent := mem_of_mem_head? front
          have same := outline_dataSend next now (.inl mem)
          refine ⟨.inr (same.trans queued), fun pkt sent => ?_⟩
          dsimp only at sent ⊢
          rw [same, ← Option.some.inj sent]
          exact core_dataSend next now (.inl mem)

/-! ### Acks -/

theorem outline_successfulPacket (id : Nat) : (s.successfulPacket id).outline = s.outline := by
  unfold successfulPacket
  split
  · rfl
  · split <;> rfl

theorem isEmpty_lists :
    (s.sent.isEmpty && s.unsent.isEmpty) = true ↔ ∀ other, ¬s.outline.listed other := by
  rw [Bool.and_eq_true, List.isEmpty_iff, List.isEmpty_iff, eq_nil_iff_forall_not_mem,
    eq_nil_iff_forall_not_mem]
  exact ⟨fun both other => fun listed => listed.elim (both.2 other) (both.1 other),
    fun none => ⟨fun other mem => none other (.inr mem),
      fun other mem => none other (.inl mem)⟩⟩

theorem outline_runCb (id : Nat) : (s.runCb id).outline = { s.outline with
      cb := Function.update s.outline.cb id none
      added := fun other => s.outline.added other ∨ other = id ∧ s.outline.cb id ≠ none } := by
  unfold runCb
  cases callback : (s.data id).cb with
  | none =>
    have cbs : Function.update s.outline.cb id none = s.outline.cb := by
      rw [Function.update_eq_self_iff]
      exact callback.symm
    have added : (fun other => s.outline.added other ∨ other = id ∧ s.outline.cb id ≠ none) =
        s.outline.added := by
      funext other
      exact propext (or_iff_left fun both => both.2 callback)
    rw [cbs, added]
  | some cb =>
    dsimp only
    generalize called : (modify { s with
      oldest := s.oldest.filter (· ≠ id), calls := s.calls ++ [KvpCall.added id cb] } id
        fun data => { data with cb := none }) = next
    have cbs : (fun other => (next.data other).cb) = Function.update s.outline.cb id none := by
      funext other
      rw [← called]
      by_cases same : other = id
      · rw [same, modify_self, Function.update_self]
      · rw [modify_other _ _ same, Function.update_of_ne same]
        rfl
    have cores : (fun other => (next.data other).update.core) = s.outline.core := by
      funext other
      rw [← called]
      by_cases same : other = id
      · rw [same, modify_self]
        rfl
      · rw [modify_other _ _ same]
        rfl
    have some : s.outline.cb id ≠ none := by
      rw [show s.outline.cb id = (s.data id).cb from rfl, callback]
      exact Option.some_ne_none cb
    have added : (fun other => ∃ cb', KvpCall.added other cb' ∈ next.calls) =
        fun other => s.outline.added other ∨ other = id ∧ s.outline.cb id ≠ none := by
      funext other
      rw [← called]
      refine propext ⟨?_, ?_⟩
      · rintro ⟨cb', mem⟩
        rcases mem_append.mp mem with before | last
        · exact .inl ⟨cb', before⟩
        · cases mem_singleton.mp last
          exact .inr ⟨rfl, some⟩
      · rintro (⟨cb', before⟩ | ⟨rfl, -⟩)
        · exact ⟨cb', mem_append_left _ before⟩
        · exact ⟨cb, mem_append_right _ (mem_singleton.mpr rfl)⟩
    have rest : next.outline = { s.outline with
        core := fun other => (next.data other).update.core
        cb := fun other => (next.data other).cb
        added := fun other => ∃ cb', KvpCall.added other cb' ∈ next.calls } := by
      rw [← called]
      rfl
    rw [rest, cores, cbs, added]

theorem outline_handleAckOf (id : Nat) : (s.handleAckOf id).outline = s.outline.ackOf id := by
  unfold handleAckOf
  dsimp only
  rw [outline_dataDownref, outline_runCb, outline_successfulPacket]
  have removed := outline_dataRemove { s with
    unacked := s.unacked.filter (· ≠ id), acked := s.acked ++ [(s.data id).update.core] } id
  generalize dataRemove { s with
    unacked := s.unacked.filter (· ≠ id), acked := s.acked ++ [(s.data id).update.core] } id = next
    at removed ⊢
  have listed : ∀ other, next.outline.listed other ↔ s.outline.listed other ∧ other ≠ id := by
    intro other
    rw [removed]
    exact Iff.rfl
  have unblocked : outline (if next.sent.isEmpty && next.unsent.isEmpty then
      { next with blocked := false } else next) =
        { next.outline with blocked := (s.outline.ackOf id).blocked } := by
    have same : next.outline.blocked = s.blocked := by
      rw [removed]
      rfl
    by_cases empty : (next.sent.isEmpty && next.unsent.isEmpty) = true
    · have none : ∀ other, s.outline.listed other → other = id := fun other inside => by
        by_contra apart
        exact (isEmpty_lists next).mp empty other ((listed other).mpr ⟨inside, apart⟩)
      rw [if_pos empty]
      unfold Outline.ackOf
      rw [if_pos none]
      rfl
    · have some : ¬∀ other, s.outline.listed other → other = id := fun none =>
        empty ((isEmpty_lists next).mpr fun other inside =>
          ((listed other).mp inside).2 (none other ((listed other).mp inside).1))
      rw [if_neg empty]
      unfold Outline.ackOf
      rw [if_neg some, show s.outline.blocked = next.outline.blocked from same.symm]
  rw [unblocked, removed]
  rfl

theorem outline_handleAck (ack : KvpAck) (now : Nat) :
    (s.handleAck ack now).outline = s.outline.handleAck ack := by
  unfold handleAck handleAckBody Outline.handleAck
  rw [outline_maybeStateCb]
  dsimp only
  by_cases request : ack.updateId = 0
  · rw [if_pos request, if_pos request]
    by_cases duplicate : ack.syncId = s.resyncId
    · rw [if_pos duplicate, if_pos (show ack.syncId = s.outline.resyncId from duplicate)]
      rfl
    · rw [if_neg duplicate, if_neg (show ack.syncId ≠ s.outline.resyncId from duplicate),
        outline_resync]
      rfl
  · rw [if_neg request, if_neg request]
    by_cases stale : ack.syncId ≠ s.syncId
    · rw [if_pos stale, if_pos (show ack.syncId ≠ s.outline.syncId from stale)]
      rfl
    · rw [if_neg stale, if_neg (show ¬ack.syncId ≠ s.outline.syncId from stale)]
      have search : s.outline.unacked.find? (fun id => (s.outline.core id).updateId = ack.updateId) =
          s.unacked.find? fun id => (s.data id).update.updateId = ack.updateId := rfl
      rw [search]
      cases s.unacked.find? fun id => (s.data id).update.updateId = ack.updateId with
      | none => rfl
      | some id =>
        exact outline_handleAckOf { s with lastRecv := now } id

/-! ### Keys -/

theorem key_eq_name (id : Nat) : (s.data id).key = (s.outline.core id).body.name :=
  rfl

theorem cached_eq (key : Bytes) : s.cached key = s.outline.cached key := by
  unfold cached Outline.cached
  simp only [key_eq_name]
  rfl

theorem outline_queueDelete (old : Nat) :
    (s.queueDeleteAndDownref old).outline = s.outline.queueDelete old := by
  unfold queueDeleteAndDownref Outline.queueDelete
  dsimp only
  rw [outline_dataDownref]
  by_cases sent : (s.syncSent && decide ((s.data old).update.syncId = s.syncId)) = true
  · rw [if_pos sent, if_pos (show (s.outline.syncSent &&
      decide ((s.outline.core old).syncId = s.outline.syncId)) = true from sent), outline_queueNew,
      key_eq_name]
    rfl
  · rw [if_neg sent, if_neg (show ¬(s.outline.syncSent &&
      decide ((s.outline.core old).syncId = s.outline.syncId)) = true from sent)]

theorem outline_queueInsert (id : Nat) : outline (if s.syncSent then
        (s.modify id fun data => { data with nrefs := data.nrefs + 1 }).dataQueue id
      else s) = s.outline.queueInsert id := by
  unfold Outline.queueInsert
  by_cases sent : s.syncSent
  · rw [if_pos sent, if_pos (show s.outline.syncSent = true from sent), outline_dataQueue]
    exact congrArg (Outline.queue · id) (outline_modify s _ (fun _ => rfl) fun _ => rfl)
  · rw [if_neg sent, if_neg (show ¬s.outline.syncSent = true from sent)]

theorem outline_addKey (now : Nat) (key val : Bytes) (cb : Option Nat) :
    (s.addKey now key val cb).outline = s.outline.addKey key val cb := by
  unfold addKey Outline.addKey
  dsimp only
  rw [cached_eq]
  have allocated := outline_alloc s (.insert key val) cb (now + minResponse)
  generalize s.alloc { SendData.new (.insert key val) with
    cb := cb, deadline := now + minResponse } = next at allocated ⊢
  rw [← allocated]
  cases s.outline.cached key with
  | none => exact outline_queueInsert _ s.fresh
  | some old =>
    dsimp only
    rw [outline_queueInsert, outline_queueDelete]
    rfl

theorem outline_deleteKey (key : Bytes) : (s.deleteKey key).outline = s.outline.deleteKey key := by
  unfold deleteKey Outline.deleteKey
  rw [cached_eq]
  cases s.outline.cached key with
  | none => rfl
  | some id =>
    dsimp only
    rw [outline_queueDelete]
    have forgotten : (modify { s with cache := s.cache.filter (· ≠ id) } id
        fun data => { data with cb := none }).outline = { s.outline with
            cache := s.cache.filter (· ≠ id), cb := Function.update s.outline.cb id none } := by
      have cbs : (fun other => ((modify { s with cache := s.cache.filter (· ≠ id) } id
          fun data => { data with cb := none }).data other).cb) =
            Function.update s.outline.cb id none := by
        funext other
        by_cases same : other = id
        · rw [same, modify_self, Function.update_self]
        · rw [modify_other _ _ same, Function.update_of_ne same]
          rfl
      have cores : (fun other => ((modify { s with cache := s.cache.filter (· ≠ id) } id
          fun data => { data with cb := none }).data other).update.core) = s.outline.core := by
        funext other
        by_cases same : other = id
        · rw [same, modify_self]
          rfl
        · rw [modify_other _ _ same]
          rfl
      exact congrArg₂ (fun core cb => { s.outline with
        cache := s.cache.filter (· ≠ id), core := core, cb := cb }) cores cbs
    rw [forgotten]
    rfl

end

end KvpsyncSend

end Splintermail
