/-
This file models the commands of a `dn_t` as its owner calls them: SELECT, SEARCH,
STORE, EXPUNGE, COPY, FETCH, IDLE and its DONE, and the disconnect, with the tagged
response of each, the requests that they make of the `imaildir_t`, and the tag, which is
passed in by reference and taken from there.

A command that waits for the `imaildir_t` is called again and again. A call does not end
the command unless it says so. What the rest of the system answers during a call is an
argument of the call: the state of the selection, the updates that come with a request,
and what the files hold.
-/

import Splintermail.Imaildir.Dn

namespace Splintermail

/-! ### Responses and requests -/

/-- The status codes that a `dn_t` sends. -/
inductive DnStCode where
  | unseen (seqNum : Nat)
  | permflags
  | uidnext (uidDn : Nat)
  | uidvld (uidvldDn : Nat)
  | readOnly
  | readWrite
  deriving DecidableEq

/-- `ie_st_resp_t`, as a `dn_t` sends it. -/
structure DnStResp where
  tag : Option String
  status : Status
  code : Option DnStCode := none
  text : String
  deriving DecidableEq

/-- The responses of a `dn_t`. -/
inductive DnResponse where
  | message (response : Response)
  | flags
  | recent (count : Nat)
  | search (nums : List Nat)
  | plus (text : String)
  | statusType (resp : DnStResp)
  deriving DecidableEq

/-- The tag of a response that has one. -/
def DnResponse.tag : DnResponse → Option String
  | .statusType resp => resp.tag
  | _ => none

/-- `update_req_t` -/
inductive UpdateReq where
  | store (keys : List MsgKey) (sign : Int) (flags : MsgFlags)
  | expunge (keys : List MsgKey)
  | copy (keys : List MsgKey) (mailbox : String)
  deriving DecidableEq

/-! ### Arguments of commands -/

/-- `ie_seq_set_t`: one range; 0 stands for the last number. -/
structure SeqRange where
  n1 : Nat
  n2 : Nat
  deriving DecidableEq

/-- The range has a number, when 0 stands for the last one. -/
def SeqRange.covers (range : SeqRange) (last number : Nat) : Bool :=
  let n1 := if range.n1 = 0 then last else range.n1
  let n2 := if range.n2 = 0 then last else range.n2
  min n1 n2 ≤ number && number ≤ max n1 n2

/-- `ie_store_cmd_t` -/
structure StoreArgs where
  uidMode : Bool
  seqSet : List SeqRange
  sign : Int
  silent : Bool
  flags : MsgFlags
  deriving DecidableEq

/-- `ie_copy_cmd_t` -/
structure CopyArgs where
  uidMode : Bool
  seqSet : List SeqRange
  mailbox : String
  deriving DecidableEq

/-- `ie_fetch_cmd_t`, as far as its attributes matter to what it does to the mailbox and to the
responses: the `peek` of the extra attributes is kept. -/
structure FetchArgs where
  uidMode : Bool
  seqSet : List SeqRange
  flags : Bool := false
  uid : Bool := false
  rfc822 : Bool := false
  rfc822Text : Bool := false
  extras : List Bool := []
  deriving DecidableEq

/-- `ie_search_cmd_t`. The key is given by `search_key_eval`: whether a view with its sequence number
matches, given the highest sequence number and the highest uid. -/
structure SearchArgs where
  uidMode : Bool
  eval : MsgView → Nat → Nat → Nat → Except Derr Bool

/-! ### The state -/

/-- `dn_t` with the tags of its commands. -/
structure Conn where
  dn : Dn
  m : Bool := true
  tag : Option String := none
  idleTag : Option String := none
  anyMissing : Bool := false
  deriving DecidableEq

/-- What the rest of the system answers during a call. -/
structure Answers where
  /-- the status of the initial SELECT of the `imaildir_t`, once there is one -/
  selectStatus : Option Status := none
  /-- whether the `imaildir_t` is synced as the `dn_t` needs it -/
  synced : Bool := false
  views : List MsgView := []
  maxUidDn : Nat := 0
  uidvldDn : Nat := 0
  /-- the updates that come with a request, and its error -/
  updates : List Update := []
  failed : Option Derr := none
  /-- whether a part that a FETCH asks for is missing from the message, or the error of reading it -/
  partMissing : Except Derr Bool := .ok false

/-- What a call leaves behind: the connection, the tag that was passed in, the responses, whether
the command is done, the requests, the updates that are freed, and the error of a request. -/
structure Called where
  conn : Conn
  tagp : Option String
  out : List DnResponse := []
  ok : Bool := false
  requests : List UpdateReq := []
  freed : List Update := []
  error : Option Derr := none
  deriving DecidableEq

namespace Conn

variable (conn : Conn) (tagp : Option String) (answers : Answers)

/-- `healthcheck` -/
def healthcheck : Except Derr Unit :=
  if conn.m then .ok () else .error ⟨.imaildir, "imaildir failed on another thread"⟩

/-- `send_st_resp`: the tag is taken. -/
def stResp (tag : Option String) (status : Status) (text : String) : DnResponse :=
  .statusType { tag, status, text }

/-- The call is done with a tagged response. -/
def finish (status : Status) (text : String) (out : List DnResponse) (freed : List Update) : Called :=
  { conn, tagp := none, out := out ++ [stResp tagp status text], ok := true, freed }

/-- `dn_gather_updates` -/
def gatherUpdates (allowExpunge uidMode : Bool) :
    Except Derr (Conn × List DnResponse × List Update) := do
  conn.healthcheck
  let (dn, responses, freed) ← dnGatherUpdates conn.dn allowExpunge uidMode false
  return ({ conn with dn }, responses.map .message, freed)

/-! ### SELECT and SEARCH -/

/-- `send_unseen_resp`: the traversal begins with the first view and goes to the one before it. -/
def sendUnseenResp : List MsgView → List DnResponse
  | [] => []
  | view :: _ =>
    if view.flags.seen then []
    else [.statusType ⟨none, .ok, some (.unseen 1), "you ain't seen nuthin yet"⟩]

/-- `select_failure` -/
def selectFailure (status : Status) : DnResponse :=
  stResp tagp status (if status = .no then "no such mailbox" else "failed to select")

/-- `send_uidnext_resp` -/
def sendUidnextResp (maxUidDn : Nat) : Except Derr DnResponse := do
  let uidnext := (maxUidDn + 1) % (uintMax + 1)
  nznumSkipFill uidnext
  return .statusType ⟨none, .ok, some (.uidnext uidnext), "get ready, it's coming"⟩

/-- `send_uidvld_resp` -/
def sendUidvldResp (uidvldDn : Nat) : Except Derr DnResponse := do
  nznumSkipFill uidvldDn
  return .statusType ⟨none, .ok, some (.uidvld uidvldDn), "ride or die"⟩

/-- The responses to a SELECT or EXAMINE that succeeds. -/
def selectResponses : Except Derr (List DnResponse) := do
  let existsResp ← sendExistsResp answers.views
  let uidnextResp ← sendUidnextResp answers.maxUidDn
  let uidvldResp ← sendUidvldResp answers.uidvldDn
  return [.flags, .message existsResp, .recent 0] ++ sendUnseenResp answers.views ++
    [.statusType ⟨none, .ok, some .permflags, "here, have some permanentflags."⟩, uidnextResp, uidvldResp,
      .statusType ⟨tagp, .ok, some (if conn.dn.examine then .readOnly else .readWrite), "welcome in"⟩]

/-- `dn_select` -/
def select : Except Derr Called := do
  conn.healthcheck
  match answers.selectStatus with
  | none => return { conn, tagp }
  | some .ok =>
    if !answers.synced then return { conn, tagp }
    else do
      let out ← conn.selectResponses tagp answers
      return { conn := { conn with dn := { conn.dn with views := answers.views } }, tagp := none, out,
               ok := true }
  | some status => return { conn, tagp := none, out := [selectFailure tagp status], ok := true }

/-- `dn_search_loop`: the messages after a view are looked at before it. -/
def searchLoop (search : SearchArgs) (seqMax uidDnMax : Nat) :
    Nat → List MsgView → Except Derr (List Nat)
  | _, [] => .ok []
  | seq, view :: rest => do
    let nums ← searchLoop search seqMax uidDnMax (seq + 1) rest
    let found ← search.eval view seq seqMax uidDnMax
    return if found then (if search.uidMode then view.uidDn else seq) :: nums else nums

/-- `dn_search` -/
def search (args : SearchArgs) : Except Derr Called := do
  conn.healthcheck
  match conn.dn.views.getLast? with
  | none => return { conn, tagp, out := [.search []], ok := true }
  | some last => do
    let seqMax ← indexToSeqNum (conn.dn.views.length - 1)
    let nums ← searchLoop args seqMax last.uidDn 1 conn.dn.views
    let (conn, responses, freed) ← conn.gatherUpdates args.uidMode args.uidMode
    return conn.finish tagp .ok "too easy!" (.search nums :: responses) freed

/-! ### Message sets -/

/-- The uids of the views that a set of uids covers. -/
def coveredUids (seqSet : List SeqRange) (last : Nat) (views : List MsgView) : List Nat :=
  (views.map MsgView.uidDn).filter fun uidDn => seqSet.any (·.covers last uidDn)

/-- The uids of the views whose sequence numbers a set covers. -/
def coveredSeqs (seqSet : List SeqRange) (last : Nat) : Nat → List MsgView → List Nat
  | _, [] => []
  | seq, view :: rest =>
    if seqSet.any (·.covers last seq) then view.uidDn :: coveredSeqs seqSet last (seq + 1) rest
    else coveredSeqs seqSet last (seq + 1) rest

/-- `seq_set_to_canonical_uids_dn`: nothing if the set is invalid, which a set of uids never is. -/
def canonicalUids (uidMode : Bool) (seqSet : List SeqRange) : Except Derr (Option (List Nat)) :=
  let views := conn.dn.views
  match views.getLast? with
  | none => .ok (if uidMode then some [] else none)
  | some last =>
    if uidMode then .ok (some (coveredUids seqSet last.uidDn views))
    else do
      let lastSeq ← indexToSeqNum (views.length - 1)
      if seqSet.any fun range => max range.n1 range.n2 > views.length then return none
      else return some (coveredSeqs seqSet lastSeq 1 views)

/-- The keys of some views, in the order that a list is made of them from its end. -/
def keysOf (views : List MsgView) : List MsgKey := (views.map MsgView.key).reverse

/-- `uids_dn_to_msg_keys`, for uids that are in the view. -/
def uidsDnToMsgKeys (uidsDn : List Nat) : List MsgKey :=
  keysOf (conn.dn.views.filter fun view => view.uidDn ∈ uidsDn)

/-- `get_msg_keys_to_expunge` -/
def getMsgKeysToExpunge : List MsgKey :=
  keysOf (conn.dn.views.filter fun view => view.flags.deleted)

/-- `imaildir_dn_request_update`: the updates that come with it are passed to the `dn_t`, and an
error makes the `imaildir_t` fail, which takes the views and the updates from it. -/
def requestUpdate : Conn :=
  let dn := answers.updates.foldl dnImaildirUpdate conn.dn
  match answers.failed with
  | none => { conn with dn }
  | some _ => { conn with dn := { dn with views := [], pending := [] }, m := false }

/-! ### STORE -/

/-- The views that are left after some EXPUNGE responses, also when one of them fails. -/
def viewsAfterExpunges (views : List MsgView) : List Nat → List MsgView
  | [] => views
  | uidDn :: rest =>
    match lookupView "missing uid_dn" views uidDn with
    | .ok _ => viewsAfterExpunges (Tree.erase MsgView.uidDn uidDn views) rest
    | .error _ => Tree.erase MsgView.uidDn uidDn views

/-- The connection after a `dn_gather_updates` that failed: what was gathered stays so. -/
def gatherFailed (allowExpunge : Bool) : Conn :=
  let (batch, found) := splitSync conn.dn.pending
  let final := batch.foldl (gatherUpdate allowExpunge) { views := conn.dn.views }
  match found with
  | some (resp, rest) =>
    { conn with
      dn := { conn.dn with views := final.views, pending := final.kept ++ .sync resp :: rest } }
  | none =>
    let dn := { conn.dn with views := final.views, pending := final.kept }
    match sendFlagsUpdates dn.views false final.gather.cancel.metas none with
    | .error _ => { conn with dn }
    | .ok _ =>
      { conn with
        dn := { dn with views := viewsAfterExpunges dn.views final.gather.expunges.reverse } }

/-- The rest of `store_begin`, with uids to store to. -/
def storeRequest (store : StoreArgs) (uidsDn : List Nat) : Called :=
  let begun : Conn := { conn with tag := tagp }
  match storeBegin conn.dn store.uidMode store.silent store.sign store.flags uidsDn with
  | .error _ =>
    let cmd : StoreCmd := { uidMode := store.uidMode, silent := store.silent, tree := [] }
    { conn := { begun with dn := { conn.dn with command := some (.store cmd) } }, tagp := none }
  | .ok dn =>
    { conn := requestUpdate { begun with dn } answers
      tagp := none
      requests := [.store (conn.uidsDnToMsgKeys uidsDn) store.sign store.flags] }

/-- `store_begin` and the caller of it: `dn_store` does not look at the error that it gives. -/
def beginStore (store : StoreArgs) : Called :=
  if conn.dn.examine then conn.finish tagp .no "mailbox is read-only" [] []
  else
    match conn.canonicalUids store.uidMode store.seqSet with
    | .error _ => { conn, tagp }
    | .ok none => conn.finish tagp .bad "bad message set" [] []
    | .ok (some []) =>
      match conn.gatherUpdates store.uidMode store.uidMode with
      | .ok (conn, responses, freed) => conn.finish tagp .ok "noop STORE command" responses freed
      | .error _ => { conn := conn.gatherFailed store.uidMode, tagp }
    | .ok (some uidsDn) => conn.storeRequest tagp answers store uidsDn

/-- The status and text of the tagged response: those of the sync update if the request failed. -/
def verdict (resp : Option StResp) (text : String) : Status × String :=
  match resp with
  | some resp => (resp.status, resp.text)
  | none => (.ok, text)

/-- The end of a started command: its tagged response. -/
def conclude (dn : Dn) (responses : List Response) (resp : Option StResp) (text : String)
    (freed : List Update) : Called :=
  { conn := { conn with dn := { dn with command := none }, tag := none, anyMissing := false }
    tagp
    out := responses.map .message ++ [stResp conn.tag (verdict resp text).1 (verdict resp text).2]
    ok := true
    freed }

/-- `store_finish` and `dn_free_store` -/
def finishStore (cmd : StoreCmd) : Except Derr Called := do
  let (dn, gather, resp) ← gatherUpdatesDontSend conn.dn cmd.uidMode true
  let (dn, responses) ← gatherSendResponses dn gather cmd.uidMode (some cmd)
  return conn.conclude tagp dn responses resp "as you wish" gather.updatesToFree

/-- `dn_store` -/
def store (args : StoreArgs) : Except Derr Called := do
  conn.healthcheck
  match conn.dn.command with
  | some (.store cmd) => if cmd.synced then conn.finishStore tagp cmd else return { conn, tagp }
  | _ => return conn.beginStore tagp answers args

/-! ### EXPUNGE and COPY -/

/-- `expunge_finish` and `copy_finish`, with the command freed. -/
def finishWait (uidMode : Bool) (text : String) : Except Derr Called := do
  let (dn, gather, resp) ← gatherUpdatesDontSend conn.dn true true
  let (dn, responses) ← gatherSendResponses dn gather uidMode none
  return conn.conclude tagp dn responses resp text gather.updatesToFree

/-- The request of a command that waits for nothing but its sync update. -/
def waitRequest (command : Command) (request : UpdateReq) : Called where
  conn := requestUpdate
    { conn with dn := { conn.dn with command := some command }, tag := tagp } answers
  tagp := none
  requests := [request]
  error := answers.failed

/-- `expunge_begin` -/
def beginExpunge : Except Derr Called :=
  if conn.dn.examine then .ok (conn.finish tagp .no "mailbox is read-only" [] [])
  else if conn.getMsgKeysToExpunge = [] then do
    let (conn, responses, freed) ← conn.gatherUpdates true false
    return conn.finish tagp .ok "noop EXPUNGE command" responses freed
  else .ok (conn.waitRequest tagp answers (.expunge {}) (.expunge conn.getMsgKeysToExpunge))

/-- `dn_expunge` -/
def expunge : Except Derr Called := do
  conn.healthcheck
  match conn.dn.command with
  | some (.expunge cmd) =>
    if cmd.synced then conn.finishWait tagp false "may they be cursed forever"
    else return { conn, tagp }
  | _ => conn.beginExpunge tagp answers

/-- `copy_begin` -/
def beginCopy (copy : CopyArgs) : Except Derr Called := do
  match ← conn.canonicalUids copy.uidMode copy.seqSet with
  | none => return conn.finish tagp .bad "bad message set" [] []
  | some [] => do
    let (conn, responses, freed) ← conn.gatherUpdates true copy.uidMode
    return conn.finish tagp .ok "noop COPY command" responses freed
  | some uidsDn =>
    return conn.waitRequest tagp answers (.copy { uidMode := copy.uidMode })
      (.copy (conn.uidsDnToMsgKeys uidsDn) copy.mailbox)

/-- `dn_copy` -/
def copy (args : CopyArgs) : Except Derr Called := do
  conn.healthcheck
  match conn.dn.command with
  | some (.copy cmd) =>
    if cmd.synced then conn.finishWait tagp cmd.uidMode "No one will know the difference"
    else return { conn, tagp }
  | _ => conn.beginCopy tagp answers args

/-! ### FETCH -/

/-- `fetch_is_peek_only` -/
def fetchIsPeekOnly (fetch : FetchArgs) : Bool :=
  !(fetch.rfc822 || fetch.rfc822Text) && fetch.extras.all id

/-- `nonpeek_msgs`: the unseen messages among some uids that are in the view. -/
def nonpeekMsgs (uidsDn : List Nat) : List MsgKey :=
  keysOf (conn.dn.views.filter fun view => view.uidDn ∈ uidsDn && !view.flags.seen)

/-- The messages that a FETCH sets the `\Seen` flag of. -/
def fetchMarks (fetch : FetchArgs) (uidsDn : List Nat) : List MsgKey :=
  if fetchIsPeekOnly fetch then [] else conn.nonpeekMsgs uidsDn

/-- The rest of `fetch_begin`, with valid uids. -/
def fetchRequest (fetch : FetchArgs) (uidsDn : List Nat) : Except Derr Called :=
  let cmd : FetchCmd :=
    { uidMode := fetch.uidMode, flags := fetch.flags, uid := fetch.uid, uidsDn }
  let begun : Conn := { conn with anyMissing := false }
  if conn.fetchMarks fetch uidsDn = [] then do
    let (dn, gather, _) ← gatherUpdatesDontSend conn.dn fetch.uidMode false
    return { conn := { begun with
               dn := { dn with command := some (.fetch { cmd with ready := some gather }) }
               tag := tagp }
             tagp := none }
  else
    return begun.waitRequest tagp answers (.fetch cmd)
      (.store (conn.fetchMarks fetch uidsDn) 1 { seen := true })

/-- `fetch_begin`, with the command freed if it is done. -/
def beginFetch (fetch : FetchArgs) : Except Derr Called := do
  match ← conn.canonicalUids fetch.uidMode fetch.seqSet with
  | none => return conn.finish tagp .bad "bad message set" [] []
  | some uidsDn => conn.fetchRequest tagp answers fetch uidsDn

/-- `fetch_post_sync`: without an error of the STORE the gathered updates wait for the responses. -/
def fetchPostSync (cmd : FetchCmd) : Except Derr Called := do
  let (dn, gather, resp) ← gatherUpdatesDontSend conn.dn cmd.uidMode true
  match resp with
  | some resp => do
    let (dn, responses) ← gatherSendResponses dn gather cmd.uidMode none
    return conn.conclude tagp dn responses (some resp) "" gather.updatesToFree
  | none =>
    let cmd := { cmd with syncProcessed := true, ready := some gather }
    return { conn := { conn with dn := { dn with command := some (.fetch cmd) } }, tagp }

/-- `fetch_respond`: the response for one message, or the end of the command. -/
def fetchRespond (cmd : FetchCmd) (gather : Gather) : Except Derr Called := do
  match cmd.uidsDn with
  | uidDn :: rest => do
    let (view, seqNum) ← lookupView "uid_dn missing" conn.dn.views uidDn
    let missing ← answers.partMissing
    let forceFlags : Bool := uidDn ∈ gather.metas
    let gather := { gather with metas := Tree.erase id uidDn gather.metas }
    let flags := if cmd.flags || forceFlags then some view.flags else none
    let uid := if cmd.uid || cmd.uidMode then some uidDn else none
    return { conn := { conn with
               dn := { conn.dn with
                 command := some (.fetch { cmd with uidsDn := rest, ready := some gather }) }
               anyMissing := conn.anyMissing || missing }
             tagp
             out := [.message (.fetch seqNum flags uid)] }
  | [] => do
    let (dn, responses) ← gatherSendResponses conn.dn gather cmd.uidMode none
    let resp : Option StResp :=
      if conn.anyMissing then some ⟨.no, "some requested subparts were missing"⟩ else none
    return conn.conclude tagp dn responses resp "you didn't hear it from me" gather.updatesToFree

/-- The last part of `dn_fetch`. -/
def fetchReady : Except Derr Called :=
  match conn.dn.command with
  | some (.fetch cmd) =>
    match cmd.ready with
    | some gather => conn.fetchRespond tagp answers cmd gather
    | none => .ok { conn, tagp }
  | _ => .ok { conn, tagp }

/-- The middle part of `dn_fetch`. -/
def fetchSynced : Except Derr Called :=
  match conn.dn.command with
  | some (.fetch cmd) =>
    if cmd.synced && !cmd.syncProcessed then do
      let called ← conn.fetchPostSync tagp cmd
      if called.ok then return called else called.conn.fetchReady called.tagp answers
    else conn.fetchReady tagp answers
  | _ => .ok { conn, tagp }

/-- `dn_fetch` -/
def fetch (args : FetchArgs) : Except Derr Called := do
  conn.healthcheck
  match conn.dn.command with
  | some (.fetch _) => conn.fetchSynced tagp answers
  | _ => do
    let begun ← conn.beginFetch tagp answers args
    if begun.ok || begun.error.isSome then return begun
    else
      match begun.conn.fetchSynced begun.tagp answers with
      | .ok called => return { called with requests := begun.requests }
      | .error error => return { begun with error := some error }

/-! ### IDLE and the disconnect -/

/-- `dn_idle` -/
def idle : Except Derr Called := do
  conn.healthcheck
  let (conn, responses, freed) ← conn.gatherUpdates true false
  return { conn := { conn with idleTag := tagp }, tagp := none
           out := responses ++ [.plus "ok twiddling my thumbs now"], ok := true, freed }

/-- `dn_idle_done`, which takes no tag. -/
def idleDone (errmsg : Option String) : Except Derr Called := do
  conn.healthcheck
  if conn.idleTag = none then .error ⟨.internal, "dn_t DONE out-of-order"⟩
  else
    let done : Conn := { conn with idleTag := none }
    match errmsg with
    | some errmsg => return { done.finish conn.idleTag .bad errmsg [] [] with tagp }
    | none => do
      let (conn, responses, freed) ← conn.gatherUpdates true false
      let done : Conn := { conn with idleTag := none }
      return { done.finish conn.idleTag .ok "I'm ready to work again" responses freed with tagp }

/-- `disconnect_begin` -/
def beginDisconnect (expunge : Bool) : Except Derr Called :=
  if !expunge then .ok { conn, tagp, ok := true }
  else if conn.getMsgKeysToExpunge = [] then .ok { conn, tagp, ok := true }
  else
    .ok
      { conn := requestUpdate
          { conn with dn := { conn.dn with command := some (.disconnect {}) } } answers
        tagp
        requests := [.expunge conn.getMsgKeysToExpunge]
        error := answers.failed }

/-- `dn_disconnect` -/
def disconnect (expunge : Bool) : Except Derr Called := do
  conn.healthcheck
  match conn.dn.command with
  | some (.disconnect cmd) =>
    if cmd.synced then do
      let (dn, _, _) ← disconnectFinish conn.dn
      return { conn := { conn with dn }, tagp, ok := true }
    else return { conn, tagp }
  | _ => conn.beginDisconnect tagp answers expunge

end Conn

end Splintermail
