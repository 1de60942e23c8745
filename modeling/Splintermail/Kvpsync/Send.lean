/-
This file models the sender of kvpsync: `send.c`.

The objects of the sender are shared between its cache, its packet lists and the list of
the oldest unacked insertions, so they are kept in a memory under addresses that are
never used again. The lists hold addresses; as the links are part of the objects, an
object is in a list once at most. A hashmap is the list of what is in it, and the order in
which one is walked is left open: it comes with the call.

A call that aborts the program only sets `fatal`: what the functions do after that has
no meaning. Four fields are not in the source, they are the history of the sender: the
updates it has made, those that were the content of a sync when it began, those whose
ack it has processed, and the callbacks it has run.
-/

import Mathlib.Logic.Function.Basic
import Splintermail.Kvpsync.Recv
import Splintermail.Lib.Run

namespace Splintermail

/-- `SECOND` -/
def second : Nat := 1000000000

/-- `MIN_RESPONSE` -/
def minResponse : Nat := 15 * second

/-- `MIN_INFLIGHT` -/
def minInflight : Nat := 1

/-- `KVPSYNC_MAX_LEN` -/
def kvpsyncMaxLen : Nat := 255

/-- `send_data_t`. The callback is told by its `cb_data`. -/
structure SendData where
  update : KvpUpdate
  nrefs : Nat
  inflight : Bool
  inflightAtSend : Nat
  congestValidity : Nat
  sentTime : Nat
  cb : Option Nat
  deadline : Nat

/-- `send_data_xnew`, for an update of the given type. -/
def SendData.new (body : KvpBody) : SendData := ⟨⟨0, 0, 0, body⟩, 1, false, 0, 0, 0, none, 0⟩

/-- The key of an update, or nothing. -/
def KvpBody.name : KvpBody → Bytes
  | .insert key _ => key
  | .delete key _ => key
  | _ => []

def SendData.key (data : SendData) : Bytes := data.update.body.name

/-- The callbacks of the sender. That of an insertion comes with the address of its object. -/
inductive KvpCall where
  | state (ok : Bool)
  | added (id cb : Nat)
  deriving DecidableEq

/-- `kvpsync_send_t`, with the memory of its objects and its history. -/
structure KvpsyncSend where
  stateCb : Bool
  syncId : Nat
  resyncId : Nat
  updateId : Nat
  cache : List Nat
  unsent : List Nat
  unacked : List Nat
  sent : List Nat
  oldest : List Nat
  inflight : Nat
  inflightLimit : Nat
  decreaseBackoff : Nat
  congestValidity : Nat
  lastRecv : Nat
  recvOk : Bool
  oldRecvOk : Bool
  okExpiry : Nat
  lastExtendOk : Nat
  blocked : Bool
  synced : Bool
  startDone : Bool
  startSent : Bool
  syncDone : Bool
  syncSent : Bool
  data : Nat → SendData
  fresh : Nat
  fatal : Bool
  made : List KvpUpdate
  content : List KvpUpdate
  acked : List KvpUpdate
  calls : List KvpCall

/-- `kvpsync_run_t` -/
structure KvpsyncRun where
  pkt : Option KvpUpdate
  deadline : Nat

/-- The order in which a hashmap is walked. -/
structure HashWalk where
  order : List Nat → List Nat
  perm : ∀ elems, (order elems).Perm elems

namespace KvpsyncSend

/-! ### Objects -/

def modify (s : KvpsyncSend) (id : Nat) (change : SendData → SendData) : KvpsyncSend :=
  { s with data := Function.update s.data id (change (s.data id)) }

def alloc (s : KvpsyncSend) (data : SendData) : KvpsyncSend :=
  { s with data := Function.update s.data s.fresh data, fresh := s.fresh + 1 }

/-- `data_downref` -/
def dataDownref (s : KvpsyncSend) (id : Nat) : KvpsyncSend :=
  let s := s.modify id fun data => { data with nrefs := data.nrefs - 1 }
  if (s.data id).nrefs ≠ 0 then s else { s with oldest := s.oldest.filter (· ≠ id) }

/-- `data_remove` -/
def dataRemove (s : KvpsyncSend) (id : Nat) : KvpsyncSend :=
  let inflight := (s.data id).inflight.toNat
  let s :=
    { s with
      unsent := s.unsent.filter (· ≠ id)
      sent := s.sent.filter (· ≠ id)
      inflight := s.inflight - inflight
      fatal := s.fatal || decide (s.inflight < inflight) }
  s.modify id fun data => { data with inflight := false }

/-- `kvpsync_send_init`, with the random nonzero `sync_id`. -/
def init (now syncId : Nat) (stateCb : Bool) : KvpsyncSend where
  stateCb := stateCb
  syncId := syncId
  resyncId := 0
  updateId := 0
  cache := []
  unsent := []
  unacked := []
  sent := []
  oldest := []
  inflight := 0
  inflightLimit := minInflight
  decreaseBackoff := 0
  congestValidity := 0
  lastRecv := 0
  recvOk := false
  oldRecvOk := false
  -- the receiver is assumed to have just got an extension from an earlier sender
  okExpiry := now + minResponse
  lastExtendOk := 0
  blocked := false
  synced := false
  startDone := false
  startSent := false
  syncDone := false
  syncSent := false
  data := fun _ => .new .empty
  fresh := 0
  fatal := false
  made := []
  content := []
  acked := []
  calls := []

/-- `maybe_state_cb` -/
def maybeStateCb (s : KvpsyncSend) : KvpsyncSend :=
  if !s.stateCb || s.oldRecvOk == s.recvOk then s
  else { s with calls := s.calls ++ [KvpCall.state s.recvOk], oldRecvOk := s.recvOk }

/-- `empty_list` -/
def emptyList (s : KvpsyncSend) (list : List Nat) : KvpsyncSend :=
  list.foldl (fun s id => (s.dataRemove id).dataDownref id) s

/-- `drop_data` -/
def dropData (s : KvpsyncSend) : KvpsyncSend :=
  let s := { s with unacked := [] }
  let s := s.emptyList s.unsent
  s.emptyList s.sent

/-! ### Packets that are queued and sent -/

/-- `data_queue`. What is linked twice aborts in the list or the hashmap. -/
def dataQueue (s : KvpsyncSend) (id : Nat) : KvpsyncSend :=
  let updateId := (s.updateId + 1) % 2 ^ 32
  let duplicate := s.unacked.filter fun other => (s.data other).update.updateId = updateId
  let s :=
    { s with
      updateId := updateId
      unsent := s.unsent ++ [id]
      unacked := (s.unacked.filter fun other => (s.data other).update.updateId ≠ updateId) ++ [id]
      fatal := s.fatal || !duplicate.isEmpty || s.unsent.contains id || s.sent.contains id ||
        s.unacked.contains id
      made := s.made ++ [KvpUpdate.mk 0 s.syncId updateId (s.data id).update.body] }
  s.modify id fun data =>
    { data with update := { data.update with syncId := s.syncId, updateId := updateId } }

/-- `calculate_ok_expiry` -/
def calculateOkExpiry (s : KvpsyncSend) (now : Nat) : Nat × KvpsyncSend :=
  if !s.recvOk then (0, s)
  else
    let okExpiry := if s.lastRecv > s.lastExtendOk then now + minResponse else s.okExpiry
    let okExpiry :=
      match s.oldest.head? with
      | some oldest => min (s.data oldest).deadline okExpiry
      | none => okExpiry
    if okExpiry > s.okExpiry then
      (okExpiry, { s with okExpiry := okExpiry, lastExtendOk := now })
    else (okExpiry, s)

/-- `data_send`; the packet is the update of the object. -/
def dataSend (s : KvpsyncSend) (id now : Nat) : KvpsyncSend :=
  let s := s.dataRemove id
  let s := { s with sent := s.sent ++ [id], inflight := s.inflight + 1 }
  let s := s.modify id fun data =>
    { data with
      sentTime := now
      inflight := true
      inflightAtSend := s.inflight
      congestValidity := s.congestValidity }
  let (okExpiry, s) := s.calculateOkExpiry now
  s.modify id fun data => { data with update := { data.update with okExpiry := okExpiry } }

/-- What `queue_start`, `queue_flush` and `queue_empty` do with a new object. -/
def queueNew (s : KvpsyncSend) (body : KvpBody) : KvpsyncSend :=
  (s.alloc (.new body)).dataQueue s.fresh

/-- `queue_start` -/
def queueStart (s : KvpsyncSend) : KvpsyncSend := s.queueNew (.start s.resyncId)

/-- `queue_all_inserts`, in the order in which the cache is walked. -/
def queueAllInserts (s : KvpsyncSend) (elems : List Nat) : KvpsyncSend :=
  elems.foldl (fun s id =>
    let s := { s with fatal := s.fatal || (s.data id).nrefs ≠ 1 }
    let s := s.modify id fun data => { data with nrefs := data.nrefs + 1 }
    s.dataQueue id) s

/-- `queue_flush` -/
def queueFlush (s : KvpsyncSend) : KvpsyncSend := s.queueNew .flush

/-- `queue_empty` -/
def queueEmpty (s : KvpsyncSend) : KvpsyncSend := s.queueNew .empty

/-- The next `sync_id`, which avoids zero. -/
def nextSyncId (syncId : Nat) : Nat := (syncId + 1 + if syncId = 2 ^ 32 - 1 then 1 else 0) % 2 ^ 32

/-- `kvpsync_send_resync` -/
def resync (s : KvpsyncSend) (resyncId : Nat) : KvpsyncSend :=
  let s :=
    { s with
      resyncId := resyncId
      syncId := nextSyncId s.syncId
      updateId := 0
      recvOk := false
      lastExtendOk := 0 }
  { s.dropData with
    inflight := 0
    okExpiry := 0
    blocked := false
    synced := false
    startDone := false
    startSent := false
    syncDone := false
    syncSent := false }

/-- The start packet in `advance_state`. -/
def advanceStart (s : KvpsyncSend) : KvpsyncSend :=
  if s.startDone then s
  else
    let s := if s.startSent then s else { s.queueStart with blocked := true, startSent := true }
    if s.blocked then s else { s with startDone := true }

/-- The sync content in `advance_state`. -/
def advanceContent (s : KvpsyncSend) (walk : HashWalk) : KvpsyncSend :=
  if s.syncDone then s
  else
    let s :=
      if s.syncSent then s
      else
        let queued := s.queueAllInserts (walk.order s.cache)
        { queued with
          blocked := !s.cache.isEmpty
          syncSent := true
          content := s.content ++ queued.made.drop s.made.length }
    if s.blocked then s else { s with syncDone := true }

/-- `advance_state` -/
def advanceState (s : KvpsyncSend) (now : Nat) (walk : HashWalk) : KvpsyncSend :=
  if s.synced then s
  else
    let s := s.advanceStart
    if !s.startDone then s
    else
      let s := s.advanceContent walk
      if !s.syncDone then s
      else
        let s := { s with recvOk := true }
        let s := (s.calculateOkExpiry now).2
        { s.queueFlush with synced := true }

/-! ### Acks -/

/-- `successful_packet` -/
def successfulPacket (s : KvpsyncSend) (id : Nat) : KvpsyncSend :=
  if (s.data id).congestValidity ≠ s.congestValidity then s
  else if (s.data id).inflightAtSend < s.inflightLimit then s
  else
    { s with
      inflightLimit := s.inflightLimit + 1
      congestValidity := (s.congestValidity + 1) % 2 ^ 32 }

/-- The callback of an object that is acked; it is not run again. -/
def runCb (s : KvpsyncSend) (id : Nat) : KvpsyncSend :=
  match (s.data id).cb with
  | none => s
  | some cb =>
    let s := { s with oldest := s.oldest.filter (· ≠ id), calls := s.calls ++ [KvpCall.added id cb] }
    s.modify id fun data => { data with cb := none }

/-- The part of `_kvpsync_send_handle_ack` after the object of the ack is found. -/
def handleAckOf (s : KvpsyncSend) (id : Nat) : KvpsyncSend :=
  let s :=
    { s with
      unacked := s.unacked.filter (· ≠ id)
      acked := s.acked ++ [(s.data id).update.core] }
  let s := s.dataRemove id
  let s := if s.sent.isEmpty && s.unsent.isEmpty then { s with blocked := false } else s
  let s := s.successfulPacket id
  let s := s.runCb id
  s.dataDownref id

/-- `_kvpsync_send_handle_ack` -/
def handleAckBody (s : KvpsyncSend) (ack : KvpAck) (now : Nat) : KvpsyncSend :=
  let s := { s with lastRecv := now }
  if ack.updateId = 0 then
    -- a resync request; duplicates are ignored
    if ack.syncId = s.resyncId then s else s.resync ack.syncId
  else if ack.syncId ≠ s.syncId then s
  else
    match s.unacked.find? fun id => (s.data id).update.updateId = ack.updateId with
    | none => s
    | some id => s.handleAckOf id

/-- `kvpsync_send_handle_ack` -/
def handleAck (s : KvpsyncSend) (ack : KvpAck) (now : Nat) : KvpsyncSend :=
  (s.handleAckBody ack now).maybeStateCb

/-! ### Sending -/

/-- `fault_time` -/
def faultTime (s : KvpsyncSend) (id : Nat) : Nat := (s.data id).sentTime + second

/-- `inflight_is_full` -/
def inflightIsFull (s : KvpsyncSend) : Bool := s.inflightLimit ≤ s.inflight

/-- `fault_detected` -/
def faultDetected (s : KvpsyncSend) (id now : Nat) : KvpsyncSend :=
  if (s.data id).congestValidity ≠ s.congestValidity then s
  else if now < s.decreaseBackoff then s
  else
    { s with
      inflightLimit := max (s.inflightLimit * 4 / 5) minInflight
      decreaseBackoff := now + second
      congestValidity := (s.congestValidity + 1) % 2 ^ 32 }

/-- `link_list_append` on an element of the list, or on the list itself: the link goes before it. -/
def linkBefore (element : Option Nat) (id : Nat) (list : List Nat) : List Nat :=
  match element with
  | none => list ++ [id]
  | some element => list.takeWhile (· ≠ element) ++ id :: list.dropWhile (· ≠ element)

/-- The packets of an unresponsive peer go back before those that are unsent. -/
def resendAll (s : KvpsyncSend) : KvpsyncSend :=
  let first := s.unsent.head?
  let s := s.sent.foldl (fun s id =>
    let s := s.dataRemove id
    { s with unsent := linkBefore first id s.unsent }) s
  { s with fatal := s.fatal || s.inflight ≠ 0, inflightLimit := minInflight }

/-- The loop over the packets past their fault time. -/
def faultLoop (now : Nat) : List Nat → KvpsyncSend → KvpsyncSend
  | [], s => s
  | id :: rest, s =>
    if now < s.faultTime id then s
    else
      let s := s.dataRemove id
      let s := { s with unsent := s.unsent ++ [id] }
      faultLoop now rest (s.faultDetected id now)

/-- The deadline, where the `ok_expiry` dominates it. -/
def adjustDeadline (s : KvpsyncSend) (deadline : Nat) : Nat :=
  if s.recvOk && decide (deadline > s.okExpiry) then s.okExpiry else deadline

/-- `_kvpsync_send_run`, up to the choice of a packet. -/
def prepare (s : KvpsyncSend) (now : Nat) (walk : HashWalk) : KvpsyncSend :=
  let s := s.advanceState now walk
  let s := if s.recvOk && decide (s.okExpiry ≤ now) then { s with recvOk := false } else s
  let s :=
    match s.sent.head? with
    | none => s
    | some id =>
      if s.faultTime id ≤ now ∧ s.lastRecv ≤ (s.data id).sentTime then s.resendAll else s
  faultLoop now s.sent s

/-- `_kvpsync_send_run` -/
def runBody (s : KvpsyncSend) (now : Nat) (walk : HashWalk) : KvpsyncSend × KvpsyncRun :=
  let s := s.prepare now walk
  match (if s.inflightIsFull then none else s.unsent.head?) with
  | some id =>
    let s := s.dataSend id now
    let deadline :=
      if !s.inflightIsFull && !s.unsent.isEmpty then 0
      else
        match s.sent.head? with
        | some first => s.faultTime first
        | none => 0
    (s, ⟨some (s.data id).update, s.adjustDeadline deadline⟩)
  | none =>
    match s.sent.head? with
    | some first => (s, ⟨none, s.adjustDeadline (s.faultTime first)⟩)
    | none =>
      if now + 3 * second < s.okExpiry then
        (s, ⟨none, s.adjustDeadline (s.okExpiry - 3 * second)⟩)
      else
        -- a keepalive
        let s := { s with recvOk := true }.queueEmpty
        match s.unsent.head? with
        | some id =>
          let s := s.dataSend id now
          (s, ⟨some (s.data id).update, s.adjustDeadline (s.faultTime id)⟩)
        | none => (s, ⟨none, 0⟩)

/-- `kvpsync_send_run` -/
def run (s : KvpsyncSend) (now : Nat) (walk : HashWalk) : KvpsyncSend × KvpsyncRun :=
  ((s.runBody now walk).1.maybeStateCb, (s.runBody now walk).2)

/-! ### Keys -/

/-- `queue_delete_and_downref` -/
def queueDeleteAndDownref (s : KvpsyncSend) (old : Nat) : KvpsyncSend :=
  -- the deletion is only sent if the insertion was made in this sync
  let s :=
    if s.syncSent && decide ((s.data old).update.syncId = s.syncId) then
      s.queueNew (.delete (s.data old).key (s.data old).update.updateId)
    else s
  s.dataDownref old

/-- `hashmap_gets` on the cache. -/
def cached (s : KvpsyncSend) (key : Bytes) : Option Nat :=
  s.cache.find? fun id => (s.data id).key = key

/-- `kvpsync_send_add_key` -/
def addKey (s : KvpsyncSend) (now : Nat) (key val : Bytes) (cb : Option Nat) : KvpsyncSend :=
  let id := s.fresh
  let old := s.cached key
  let s := s.alloc { SendData.new (.insert key val) with cb := cb, deadline := now + minResponse }
  let s :=
    { s with
      oldest := s.oldest ++ [id]
      fatal := s.fatal || decide (kvpsyncMaxLen < key.length) || decide (kvpsyncMaxLen < val.length) }
  let s :=
    match old with
    | none => { s with cache := s.cache ++ [id] }
    | some old =>
      { s with cache := s.cache.map fun other => if other = old then id else other
        }.queueDeleteAndDownref old
  if s.syncSent then (s.modify id fun data => { data with nrefs := data.nrefs + 1 }).dataQueue id
  else s

/-- `kvpsync_send_delete_key` -/
def deleteKey (s : KvpsyncSend) (key : Bytes) : KvpsyncSend :=
  match s.cached key with
  | none => s
  | some id =>
    let s := { s with cache := s.cache.filter (· ≠ id) }
    let s := s.modify id fun data => { data with cb := none }
    s.queueDeleteAndDownref id

end KvpsyncSend

/-! ### Events -/

inductive SendEvent where
  | add (now : Nat) (key val : Bytes) (cb : Option Nat)
  | delete (key : Bytes)
  | ack (ack : KvpAck) (now : Nat)
  | run (now : Nat) (walk : HashWalk)

namespace KvpsyncSend

def step (s : KvpsyncSend) : SendEvent → Except Empty KvpsyncSend
  | .add now key val cb => .ok (s.addKey now key val cb)
  | .delete key => .ok (s.deleteKey key)
  | .ack ack now => .ok (s.handleAck ack now)
  | .run now walk => .ok (s.run now walk).1

/-- The 32-bit counters do not wrap around: there are numbers left for the updates of the event, and
the next sync has a `sync_id` that was not used before. -/
def Room (s : KvpsyncSend) : SendEvent → Prop
  | .add _ _ _ _ => s.updateId + 2 < 2 ^ 32
  | .delete _ => s.updateId + 1 < 2 ^ 32
  | .ack _ _ => ∀ update ∈ s.made, update.syncId ≠ nextSyncId s.syncId
  | .run _ _ => s.updateId + (s.cache.length + 3) < 2 ^ 32

instance (s : KvpsyncSend) (event : SendEvent) : Decidable (s.Room event) :=
  match event with
  | .add _ _ _ _ => inferInstanceAs (Decidable (s.updateId + 2 < 2 ^ 32))
  | .delete _ => inferInstanceAs (Decidable (s.updateId + 1 < 2 ^ 32))
  | .ack _ _ => inferInstanceAs (Decidable (∀ _ ∈ _, _))
  | .run _ _ => inferInstanceAs (Decidable (s.updateId + (s.cache.length + 3) < 2 ^ 32))

end KvpsyncSend

end Splintermail
