/-
This file models the part of `dn.c` that turns the updates of an `imaildir_t` into
untagged responses: the pending updates of a `dn_t`, the gathering of a batch of
them, the responses that a gathered batch is answered with, and the commands that
gather (STORE and FETCH have their own way to do it, all others share one).

The view tree is keyed by `uid_dn`, and the position of a view in it is the
sequence number of the message. A gather adds new views and replaces changed ones
at once, but removes expunged views only while it sends the responses.
-/

import Splintermail.Imaildir.Message

namespace Splintermail

open Splintermail.Tree

/-! ### The connection -/

/-- The untagged responses that a `dn_t` emits for messages. The numbers of EXPUNGE and FETCH are
sequence numbers; the content of a FETCH other than its flags and uid is left out. -/
inductive Response where
  | exists (count : Nat)
  | expunge (seqNum : Nat)
  | fetch (seqNum : Nat) (flags : Option MsgFlags) (uid : Option Nat)
  deriving DecidableEq

/-- `gather_t`: the gathered uids, and the expunge updates that are freed at the end. -/
structure Gather where
  news : List Nat := []
  metas : List Nat := []
  expunges : List Nat := []
  updatesToFree : List Update := []
  deriving DecidableEq

/-- `exp_flags_t`: the flags that a STORE expects a message to have. -/
structure ExpFlags where
  uidDn : Nat
  flags : MsgFlags
  deriving DecidableEq

/-- The state of a started STORE. -/
structure StoreCmd where
  uidMode : Bool
  silent : Bool
  tree : List ExpFlags
  synced : Bool := false
  deriving DecidableEq

/-- The state of a started EXPUNGE, COPY or disconnect. -/
structure WaitCmd where
  uidMode : Bool := false
  synced : Bool := false
  deriving DecidableEq

/-- The state of a started FETCH: the requested uids that are not answered yet, and the gather
that is kept until they are. -/
structure FetchCmd where
  uidMode : Bool
  flags : Bool
  uid : Bool
  uidsDn : List Nat
  synced : Bool := false
  syncProcessed : Bool := false
  ready : Option Gather := none
  deriving DecidableEq

/-- A command that was started and is not answered yet. -/
inductive Command where
  | store (cmd : StoreCmd)
  | expunge (cmd : WaitCmd)
  | copy (cmd : WaitCmd)
  | disconnect (cmd : WaitCmd)
  | fetch (cmd : FetchCmd)
  deriving DecidableEq

/-- `dn_t`. The `server_t` passes no command on while it waits for the answer to the last one, so
that the `started` flags of the commands are one field. -/
structure Dn where
  id : Nat
  examine : Bool
  views : List MsgView := []
  pending : List Update := []
  command : Option Command := none
  deriving DecidableEq

/-- The gather that a FETCH holds on to. -/
def Dn.gathered (dn : Dn) : Gather :=
  match dn.command with
  | some (.fetch cmd) => cmd.ready.getD {}
  | _ => {}

/-- The sync update that a started command waits for has arrived. -/
def Command.wake : Command → Command
  | .store cmd => .store { cmd with synced := true }
  | .expunge cmd => .expunge { cmd with synced := true }
  | .copy cmd => .copy { cmd with synced := true }
  | .disconnect cmd => .disconnect { cmd with synced := true }
  | .fetch cmd => .fetch { cmd with synced := true }

/-- `dn_imaildir_update`: the update is appended, and a sync update wakes the started command. -/
def dnImaildirUpdate (dn : Dn) (update : Update) : Dn :=
  let dn := { dn with pending := dn.pending ++ [update] }
  match update with
  | .sync _ => { dn with command := dn.command.map Command.wake }
  | _ => dn

/-! ### Gathering updates -/

/-- `gather_update_new` -/
def gatherUpdateNew (views : List MsgView) (gather : Gather) (view : MsgView) :
    List MsgView × Gather :=
  (insert MsgView.uidDn view views, { gather with news := insert id view.uidDn gather.news })

/-- `gather_update_meta`: an update of a message that is not in the view is discarded. -/
def gatherUpdateMeta (views : List MsgView) (gather : Gather) (view : MsgView) :
    List MsgView × Gather :=
  match find MsgView.uidDn view.uidDn views with
  | none => (views, gather)
  | some _ =>
    (insert MsgView.uidDn view (erase MsgView.uidDn view.uidDn views), { gather with
        metas :=
          if view.uidDn ∈ gather.metas then gather.metas
          else insert id view.uidDn gather.metas })

/-- `gather_update_expunge`: removing the view happens later. -/
def gatherUpdateExpunge (gather : Gather) (record : Expunge) : Gather :=
  { gather with
    expunges := insert id record.uidDn gather.expunges
    updatesToFree := gather.updatesToFree ++ [.expunge record] }

/-- The state of the loop of `gather_updates_dont_send`: the views, the gather, and the pending
updates that stay. -/
structure GatherState where
  views : List MsgView
  gather : Gather := {}
  kept : List Update := []
  deriving DecidableEq

/-- One round of the loop for an update that is not a sync. A withheld expunge stays pending. -/
def gatherUpdate (allowExpunge : Bool) (state : GatherState) : Update → GatherState
  | .new view =>
    let (views, gather) := gatherUpdateNew state.views state.gather view
    { state with views, gather }
  | .flags view =>
    let (views, gather) := gatherUpdateMeta state.views state.gather view
    { state with views, gather }
  | .expunge record =>
    if allowExpunge then { state with gather := gatherUpdateExpunge state.gather record }
    else { state with kept := state.kept ++ [.expunge record] }
  | .sync _ => state

/-- The pending updates up to the sync update, the sync update, and those after it. -/
def splitSync : List Update → List Update × Option (Option StResp × List Update)
  | [] => ([], none)
  | .sync resp :: rest => ([], some (resp, rest))
  | update :: rest =>
    let (batch, found) := splitSync rest
    (update :: batch, found)

/-- `gather_updates_dont_send`. With `wantSync` a sync update is expected and ends the batch,
otherwise it is an error. -/
def gatherUpdatesDontSend (dn : Dn) (allowExpunge wantSync : Bool) :
    Except Derr (Dn × Gather × Option StResp) :=
  let (batch, found) := splitSync dn.pending
  let final := batch.foldl (gatherUpdate allowExpunge) { views := dn.views }
  match found, wantSync with
  | some (resp, rest), true =>
    .ok ({ dn with views := final.views, pending := final.kept ++ rest }, final.gather, resp)
  | none, false => .ok ({ dn with views := final.views, pending := final.kept }, final.gather, none)
  | some _, false => .error ⟨.internal, "got unexpected UPDATE_SYNC"⟩
  | none, true => .error ⟨.internal, "did not find expected UPDATE_SYNC"⟩

/-! ### Sending responses -/

/-- `index_to_seq_num` -/
def indexToSeqNum (index : Nat) : Except Derr Nat :=
  if index ≥ uintMax then .error ⟨.internal, "index too high"⟩ else .ok (index + 1)

/-- The view with a uid and its sequence number. What a missing view is called depends on who
looks for it. -/
def lookupView (missing : String) (views : List MsgView) (uidDn : Nat) :
    Except Derr (MsgView × Nat) :=
  match views.findIdx? (fun view => view.uidDn = uidDn), find MsgView.uidDn uidDn views with
  | some index, some view => do return (view, ← indexToSeqNum index)
  | _, _ => .error ⟨.internal, missing⟩

/-- `send_flags_update` -/
def sendFlagsUpdate (uidMode : Bool) (view : MsgView) (seqNum : Nat) : Response :=
  .fetch seqNum (some view.flags) (if uidMode then some view.uidDn else none)

/-- The flag updates of a gather that is not for a STORE. -/
def sendMetas (views : List MsgView) (uidMode : Bool) : List Nat → Except Derr (List Response)
  | [] => .ok []
  | uidDn :: rest => do
    let (view, seqNum) ← lookupView "missing uid_dn" views uidDn
    return sendFlagsUpdate uidMode view seqNum :: (← sendMetas views uidMode rest)

/-- `send_store_resp_noupdate` -/
def sendStoreRespNoupdate (views : List MsgView) (store : StoreCmd) (expected : ExpFlags) :
    Except Derr (List Response) := do
  let (view, seqNum) ← lookupView "missing uid_dn" views expected.uidDn
  if expected.flags ≠ view.flags then return []
  else if !store.silent then return [sendFlagsUpdate store.uidMode view seqNum]
  else return []

/-- `send_store_resp_noexp` -/
def sendStoreRespNoexp (views : List MsgView) (store : StoreCmd) (uidDn : Nat) :
    Except Derr (List Response) := do
  let (view, seqNum) ← lookupView "missing uid_dn" views uidDn
  return [sendFlagsUpdate store.uidMode view seqNum]

/-- `send_store_resp_expupdate` -/
def sendStoreRespExpupdate (views : List MsgView) (store : StoreCmd) (expected : ExpFlags) :
    Except Derr (List Response) := do
  let (view, seqNum) ← lookupView "not implemented" views expected.uidDn
  if expected.flags ≠ view.flags then return [sendFlagsUpdate store.uidMode view seqNum]
  else if !store.silent then return [sendFlagsUpdate store.uidMode view seqNum]
  else return []

/-- `send_store_fetch_resps`: the expected flags and the gathered updates are walked together. -/
def sendStoreFetchResps (views : List MsgView) (store : StoreCmd) :
    List ExpFlags → List Nat → Except Derr (List Response)
  | [], [] => .ok []
  | [], uidDn :: metas => do
    return (← sendStoreRespNoexp views store uidDn) ++ (← sendStoreFetchResps views store [] metas)
  | expected :: tree, [] => do
    return (← sendStoreRespNoupdate views store expected) ++
      (← sendStoreFetchResps views store tree [])
  | expected :: tree, uidDn :: metas =>
    if expected.uidDn > uidDn then do
      return (← sendStoreRespNoexp views store uidDn) ++
        (← sendStoreFetchResps views store (expected :: tree) metas)
    else if uidDn > expected.uidDn then do
      return (← sendStoreRespNoupdate views store expected) ++
        (← sendStoreFetchResps views store tree (uidDn :: metas))
    else do
      return (← sendStoreRespExpupdate views store expected) ++
        (← sendStoreFetchResps views store tree metas)
  termination_by tree metas => tree.length + metas.length

/-- Step 4 of `gather_send_responses`, over the expunged uids in the order they are sent. -/
def sendExpunges (views : List MsgView) : List Nat → Except Derr (List MsgView × List Response)
  | [] => .ok (views, [])
  | uidDn :: rest => do
    let (_, seqNum) ← lookupView "missing uid_dn" views uidDn
    let (views, responses) ← sendExpunges (erase MsgView.uidDn uidDn views) rest
    return (views, .expunge seqNum :: responses)

/-- `send_exists_resp` -/
def sendExistsResp (views : List MsgView) : Except Derr Response :=
  if views.length > uintMax then .error ⟨.value, "too many messages for exists response"⟩
  else .ok (.exists views.length)

/-- `nznum_skip_fill`: a response with a zero in its place is not writable. -/
def nznumSkipFill (num : Nat) : Except Derr Unit :=
  if num = 0 then .error ⟨.param, "invalid zero in non-zero number"⟩ else .ok ()

/-- Steps 1 and 2 of `gather_send_responses`: expunged messages get no FETCH and do not count for
EXISTS, and new messages get no FETCH. -/
def Gather.cancel (gather : Gather) : Gather :=
  let news := gather.expunges.foldl (fun news uidDn => erase id uidDn news) gather.news
  let metas := gather.expunges.foldl (fun metas uidDn => erase id uidDn metas) gather.metas
  { gather with
    news
    metas := news.foldl (fun metas uidDn => erase id uidDn metas) metas }

/-- Step 3 of `gather_send_responses`: the flag updates, which are other ones for a STORE. -/
def sendFlagsUpdates (views : List MsgView) (uidMode : Bool) (metas : List Nat) :
    Option StoreCmd → Except Derr (List Response)
  | some store => sendStoreFetchResps views store store.tree metas
  | none => sendMetas views uidMode metas

/-- Step 5 of `gather_send_responses`: an EXISTS if there are new messages. -/
def sendNews (views : List MsgView) : List Nat → Except Derr (List Response)
  | [] => .ok []
  | _ :: _ => do return [← sendExistsResp views]

/-- `gather_send_responses`; `forStore` is the STORE that the responses are for. -/
def gatherSendResponses (dn : Dn) (gather : Gather) (uidMode : Bool) (forStore : Option StoreCmd) :
    Except Derr (Dn × List Response) := do
  let metas ← sendFlagsUpdates dn.views uidMode gather.cancel.metas forStore
  let (views, expunges) ← sendExpunges dn.views gather.expunges.reverse
  let news ← sendNews views gather.cancel.news
  return ({ dn with views }, metas ++ expunges ++ news)

/-- `dn_gather_updates`: the responses, and the updates that are freed at its end. -/
def dnGatherUpdates (dn : Dn) (allowExpunge uidMode wantSync : Bool) :
    Except Derr (Dn × List Response × List Update) := do
  let (dn, gather, _) ← gatherUpdatesDontSend dn allowExpunge wantSync
  let (dn, responses) ← gatherSendResponses dn gather uidMode none
  return (dn, responses, gather.updatesToFree)

/-! ### Commands -/

/-- The uids of a message set, as `seq_set_to_canonical_uids_dn` resolves it: the requested ones
that are in the view, in order. -/
def canonicalUidsDn (dn : Dn) (requested : List Nat) : List Nat :=
  (dn.views.map MsgView.uidDn).filter fun uidDn => uidDn ∈ requested

/-- The flags that a STORE makes of the old ones: sign 0 sets, 1 adds, -1 removes. -/
def storeFlags (sign : Int) (old command : MsgFlags) : Except Derr MsgFlags :=
  if sign = 0 then .ok command
  else if sign = 1 then .ok (old.or command)
  else if sign = -1 then .ok (old.andNot command)
  else .error ⟨.internal, "invalid store->sign"⟩

/-- The flags that a STORE expects the messages of a view to have. -/
def expectFlags (sign : Int) (command : MsgFlags) : List MsgView → Except Derr (List ExpFlags)
  | [] => .ok []
  | view :: rest => do
    let flags ← storeFlags sign view.flags command
    return ⟨view.uidDn, flags⟩ :: (← expectFlags sign command rest)

/-- `store_begin`, as far as the connection is concerned: what is expected is remembered. -/
def storeBegin (dn : Dn) (uidMode silent : Bool) (sign : Int) (flags : MsgFlags)
    (requested : List Nat) : Except Derr Dn := do
  let tree ← expectFlags sign flags (dn.views.filter fun view => view.uidDn ∈ requested)
  return { dn with command := some (.store { uidMode, silent, tree }) }

/-- `store_finish` -/
def storeFinish (dn : Dn) (store : StoreCmd) : Except Derr (Dn × List Response × List Update) := do
  let (dn, gather, _) ← gatherUpdatesDontSend dn store.uidMode true
  let (dn, responses) ← gatherSendResponses dn gather store.uidMode (some store)
  return ({ dn with command := none }, responses, gather.updatesToFree)

/-- `expunge_finish` and `copy_finish` -/
def waitFinish (dn : Dn) (cmd : WaitCmd) : Except Derr (Dn × List Response × List Update) := do
  let (dn, responses, freed) ← dnGatherUpdates dn true cmd.uidMode true
  return ({ dn with command := none }, responses, freed)

/-- `disconnect_finish`: only sync updates are looked at. -/
def disconnectFinish (dn : Dn) : Except Derr (Dn × List Response × List Update) :=
  match (dn.pending.filterMap Update.syncResp).getLast?.join with
  | some resp =>
    .error ⟨.response,
      "disconnecting is not allowed to fail: " ++ resp.status.toString ++ " " ++ resp.text⟩
  | none =>
    .ok ({ dn with
      pending := dn.pending.filter fun update => update.syncResp.isNone
      command := none }, [], [])

/-- `fetch_begin`. A FETCH that sets no `\Seen` flag gathers at once. -/
def fetchBegin (dn : Dn) (uidMode flags uid : Bool) (requested : List Nat) (peek : Bool) :
    Except Derr Dn :=
  let cmd : FetchCmd := { uidMode, flags, uid, uidsDn := canonicalUidsDn dn requested }
  if peek then do
    let (dn, gather, _) ← gatherUpdatesDontSend dn uidMode false
    return { dn with command := some (.fetch { cmd with ready := some gather }) }
  else .ok { dn with command := some (.fetch cmd) }

/-- `fetch_respond`: one requested message at a time, then the rest of the gathered updates. -/
def fetchRespond (dn : Dn) (cmd : FetchCmd) (gather : Gather) :
    Except Derr (Dn × List Response × List Update) :=
  match cmd.uidsDn with
  | uidDn :: rest => do
    let (view, seqNum) ← lookupView "uid_dn missing" dn.views uidDn
    let forceFlags : Bool := uidDn ∈ gather.metas
    let gather := { gather with metas := erase id uidDn gather.metas }
    let flags := if cmd.flags || forceFlags then some view.flags else none
    let uid := if cmd.uid || cmd.uidMode then some uidDn else none
    return ({ dn with command := some (.fetch { cmd with uidsDn := rest, ready := some gather }) },
      [.fetch seqNum flags uid], [])
  | [] => do
    let (dn, responses) ← gatherSendResponses dn gather cmd.uidMode none
    return ({ dn with command := none }, responses, gather.updatesToFree)

/-- `fetch_post_sync` and what follows it in `dn_fetch`. If the STORE of the `\Seen` flags failed,
the command ends here. -/
def fetchPostSync (dn : Dn) (cmd : FetchCmd) : Except Derr (Dn × List Response × List Update) := do
  let (dn, gather, resp) ← gatherUpdatesDontSend dn cmd.uidMode true
  match resp with
  | some _ =>
    let (dn, responses) ← gatherSendResponses dn gather cmd.uidMode none
    return ({ dn with command := none }, responses, gather.updatesToFree)
  | none => fetchRespond dn { cmd with syncProcessed := true, ready := some gather } gather

/-- The call of `dn_store`, `dn_expunge`, `dn_copy`, `dn_disconnect` or `dn_fetch` for a command
that was started before. -/
def Command.advance (dn : Dn) : Command → Except Derr (Dn × List Response × List Update)
  | .store cmd => if cmd.synced then storeFinish dn cmd else .ok (dn, [], [])
  | .expunge cmd => if cmd.synced then waitFinish dn cmd else .ok (dn, [], [])
  | .copy cmd => if cmd.synced then waitFinish dn cmd else .ok (dn, [], [])
  | .disconnect cmd => if cmd.synced then disconnectFinish dn else .ok (dn, [], [])
  | .fetch cmd =>
    if cmd.synced && !cmd.syncProcessed then fetchPostSync dn cmd
    else
      match cmd.ready with
      | some gather => fetchRespond dn cmd gather
      | none => .ok (dn, [], [])

/-- The calls of the `server_t` that the updates matter to: a command gathers and is done at once,
a command is started, or the started command is called again. -/
inductive DnCall where
  | gather (allowExpunge uidMode : Bool)
  | storeBegin (uidMode silent : Bool) (sign : Int) (flags : MsgFlags) (requested : List Nat)
  | expungeBegin
  | copyBegin (uidMode : Bool)
  | disconnectBegin
  | fetchBegin (uidMode flags uid : Bool) (requested : List Nat) (peek : Bool)
  | advance
  deriving DecidableEq

/-- A call of the `dn_t`: the connection after it, its responses, and the updates that are freed.
No command is passed on while another one is in progress. -/
def Dn.call (dn : Dn) (call : DnCall) : Except Derr (Dn × List Response × List Update) :=
  match call, dn.command with
  | .gather allowExpunge uidMode, none => dnGatherUpdates dn allowExpunge uidMode false
  | .storeBegin uidMode silent sign flags requested, none =>
    (storeBegin dn uidMode silent sign flags requested).map (·, [], [])
  | .expungeBegin, none => .ok ({ dn with command := some (.expunge {}) }, [], [])
  | .copyBegin uidMode, none => .ok ({ dn with command := some (.copy { uidMode }) }, [], [])
  | .disconnectBegin, none => .ok ({ dn with command := some (.disconnect {}) }, [], [])
  | .fetchBegin uidMode flags uid requested peek, none =>
    (fetchBegin dn uidMode flags uid requested peek).map (·, [], [])
  | .advance, some command => command.advance dn
  | _, _ => .ok (dn, [], [])

end Splintermail
