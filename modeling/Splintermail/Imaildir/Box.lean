/-
This file models the operations of `imaildir.c` on the content of a mailbox: the
trees and counters in memory, the log and the message files on disk, and the
updates that are passed to the connections.

An operation that fails keeps what it did before it failed, so that a failure
carries the box it leaves. What a crash can leave is a disk in the middle of an
operation: every write to the disk is noted in the trail of the operation.

The temporary files that messages are written to before they are renamed into
place, and errors of the operating system, are left out.
-/

import Splintermail.Imaildir.Compaction
import Splintermail.Imaildir.Dn

namespace Splintermail

/-! ### The disk and the memory -/

/-- A `uid_dn` that `finalize_msg` gave out and that was saved, with the `uidvld_dn` it is for. -/
structure Assignment where
  uidvldDn : Nat
  uidDn : Nat
  key : MsgKey
  deriving DecidableEq, Repr

/-- What is on disk: the lines of `.cache`, the message files, the `.invalid` file. The
assignments are a record of the past that no code reads. -/
structure Disk where
  cache : List LogEntry := []
  files : List MailFile := []
  invalid : Bool := false
  assigned : List Assignment := []
  deriving DecidableEq

/-- The content of an `imaildir_t` and its `log_t`. -/
structure Store extends Trees where
  lite : Bool := false
  hiUidDn : Nat := 0
  hiUidLocal : Nat := 0
  himodseqDn : Nat := 1
  uidvldUp : Nat := 0
  uidvldDn : Nat := 0
  himodseqUp : Nat := 0
  lines : Nat := 0
  updates : Nat := 0
  deriving DecidableEq

/-- An open `imaildir_t` on its disk, with its connections. -/
structure Box where
  store : Store
  disk : Disk
  trail : List Disk := []
  dns : List Dn := []
  deriving DecidableEq

/-- What the code takes from the system it runs on: the order of the elements of a hash map and
of the files of a directory, and the name of the host. -/
structure Host where
  order : PopOrder (List LogEntry) LogEntry
  readdir : PopOrder Disk MailFile
  name : Text

/-- A message whose content is not there yet: it has no `uid_dn` and no modseq. -/
def Msg.unfilled (key : MsgKey) (internaldate : ImapTime) (flags : MsgFlags) : Msg where
  key := key
  uidDn := 0
  internaldate := internaldate
  flags := flags
  modseq := 0
  state := .unfilled

/-- A failed operation: its error and what it leaves. -/
abbrev Failure := Derr × Box

namespace Box

/-- A write to the disk. -/
def write (box : Box) (disk : Disk) : Box := { box with disk, trail := box.trail ++ [disk] }

/-! ### The log -/

/-- `maybe_compact` -/
def maybeCompact (host : Host) (box : Box) : Box :=
  if Compacts box.store.lines box.store.updates then
    let written := host.order.pop box.disk.cache (collapse (keptEntries box.disk.cache))
    { box.write { box.disk with cache := written } with
      store := { box.store with lines := written.length, updates := 0 } }
  else box

/-- A line is written to the log. -/
def append (host : Host) (box : Box) (entry : LogEntry) (assigned : List Assignment) : Box :=
  let box := box.write { box.disk with
    cache := box.disk.cache ++ [entry]
    assigned := box.disk.assigned ++ assigned }
  let box := { box with
    store := { box.store with lines := box.store.lines + 1, updates := box.store.updates + 1 } }
  box.maybeCompact host

/-- `set_uidvlds` -/
def setUidvlds (host : Host) (box : Box) (uidvldUp uidvldDn : Nat) : Box :=
  append host { box with store := { box.store with uidvldUp, uidvldDn } }
    (.uidvlds uidvldUp uidvldDn) []

/-- `set_himodseq_up` -/
def setHimodseqUp (host : Host) (box : Box) (himodseqUp : Nat) : Box :=
  append host { box with store := { box.store with himodseqUp } } (.himodseqUp himodseqUp) []

/-- `update_msg` -/
def updateMsg (host : Host) (box : Box) (msg : Msg) : Except Failure Box :=
  if msg.state = .expunged then .error (⟨.internal, "can't log an EXPUNGED message"⟩, box)
  else .ok (box.append host (.value (.message msg.logged)) [])

/-- `update_expunge` -/
def updateExpunge (host : Host) (box : Box) (record : Expunge) : Box :=
  box.append host (.value (.expunge record)) []

/-! ### Messages -/

/-- The message with a key. -/
def findMsg (box : Box) (key : MsgKey) : Option Msg := Tree.find Msg.key key box.store.msgs

/-- The expunge with a key. -/
def findExpunge (box : Box) (key : MsgKey) : Option Expunge :=
  Tree.find Expunge.key key box.store.expunged

/-- A message is changed in place. -/
def changeMsg (box : Box) (key : MsgKey) (change : Msg → Msg) : Box :=
  { box with store := { box.store with msgs := Tree.update Msg.key key change box.store.msgs } }

/-- A message is inserted. -/
def insertMsg (box : Box) (msg : Msg) : Box :=
  { box with store := { box.store with msgs := Tree.insert Msg.key msg box.store.msgs } }

/-- `finalize_msg` -/
def finalizeMsg (box : Box) (key : MsgKey) : Box :=
  let uidDn := box.store.hiUidDn + 1
  let modseq := box.store.himodseqDn + 1
  { box with
    store := { box.store with
      hiUidDn := uidDn
      himodseqDn := modseq
      msgs := Tree.update Msg.key key (fun msg => { msg with uidDn, modseq, state := .filled })
        box.store.msgs
      mods := Trees.insertMod ⟨modseq, .message key⟩ box.store.mods } }

/-- `finalize_msg` and the `update_msg` that follows it at once. A finalized message is FILLED, so
that it can be logged. -/
def finalizeAndSave (host : Host) (box : Box) (key : MsgKey) : Box :=
  let box := box.finalizeMsg key
  match box.findMsg key with
  | none => box
  | some msg =>
    box.append host (.value (.message msg.logged)) [⟨box.store.uidvldDn, msg.uidDn, key⟩]

/-- `msg_set_file` -/
def setFile (box : Box) (key : MsgKey) (file : MailFile) : Except Failure Box :=
  match box.findMsg key with
  | none => .ok box
  | some msg =>
    if msg.file.isSome then .error (⟨.internal, "can't set two files for one message"⟩, box)
    else .ok (box.changeMsg key fun msg => { msg with length := file.length, file := some file })

/-- `handle_new_msg_file`: the file is renamed into place. -/
def handleNewMsgFile (host : Host) (box : Box) (key : MsgKey) (length epoch : Nat) :
    Except Failure Box :=
  let file : MailFile := ⟨.cur, epoch, key, length, host.name.take 32⟩
  let files := box.disk.files.filter (· ≠ file) ++ [file]
  (box.write { box.disk with files }).setFile key file

/-- A message file is deleted. -/
def removeFile (box : Box) (file : MailFile) : Box :=
  box.write { box.disk with files := box.disk.files.filter (· ≠ file) }

/-- A message leaves the index and the tree. -/
def dropMsg (box : Box) (msg : Msg) : Box :=
  { box with
    store := { box.store with
      mods := Trees.eraseMod msg.modseq box.store.mods
      msgs := Tree.erase Msg.key msg.key box.store.msgs } }

/-- `remove_and_delete_msg` -/
def removeAndDeleteMsg (box : Box) (msg : Msg) : Box :=
  match msg.file with
  | some file => (box.removeFile file).dropMsg msg
  | none => box.dropMsg msg

/-! ### Updates -/

/-- `send_unsent_updates`: every connection gets a copy. -/
def distribute (box : Box) (update : Update) : Box :=
  { box with dns := box.dns.map fun dn => dnImaildirUpdate dn update }

/-- `distribute_update_new` -/
def distributeUpdateNew (box : Box) (msg : Msg) : Box := box.distribute (.new msg.view)

/-- `distribute_update_new` for the message with a key. -/
def announce (box : Box) (key : MsgKey) : Box :=
  match box.findMsg key with
  | none => box
  | some msg => box.distributeUpdateNew msg

/-- `distribute_update_meta` -/
def distributeUpdateMeta (box : Box) (msg : Msg) : Box := box.distribute (.flags msg.view)

/-- `distribute_update_expunge`. The message stays until the last copy of the update is freed. -/
def distributeUpdateExpunge (box : Box) (record : Expunge) (msg : Msg) : Box :=
  if box.dns = [] then box.removeAndDeleteMsg msg else box.distribute (.expunge record)

/-- The connection has a copy of the expunge update of a message. -/
def holdsExpunge (key : MsgKey) (dn : Dn) : Bool :=
  (dn.pending ++ dn.gathered.updatesToFree).any fun update => update.expungedKey = some key

/-- An update is freed. With the last copy of an expunge update its message goes. -/
def freeUpdate (box : Box) (update : Update) : Box :=
  match update with
  | .expunge record =>
    match box.findMsg record.key with
    | some msg =>
      if box.dns.any (holdsExpunge record.key) then box else box.removeAndDeleteMsg msg
    | none => box
  | _ => box

def freeUpdates (box : Box) (updates : List Update) : Box := updates.foldl freeUpdate box

/-! ### Operations of an `up_t` -/

/-- `imaildir_up_lookup_msg`: the message, and whether it is expunged. -/
def upLookupMsg (box : Box) (uidUp : Nat) : Option Msg × Bool :=
  match box.findMsg (.up uidUp) with
  | none => (none, (box.findExpunge (.up uidUp)).isSome)
  | some msg => (some msg, msg.state = .expunged)

/-- `imaildir_up_new_msg` -/
def upNewMsg (host : Host) (box : Box) (uidUp : Nat) (flags : MsgFlags) : Except Failure Box := do
  let msg := Msg.unfilled (.up uidUp) {} flags
  let box ← box.updateMsg host msg
  return box.insertMsg msg

/-- The part of `update_msg_flags` that is done in memory: the message leaves the index and is
entered again with a new modseq. -/
def bumpFlags (box : Box) (msg : Msg) (flags : MsgFlags) : Box :=
  let modseq := box.store.himodseqDn + 1
  { box with
    store := { box.store with
      himodseqDn := modseq
      msgs := Tree.update Msg.key msg.key (fun msg => { msg with flags, modseq }) box.store.msgs
      mods := Trees.insertMod ⟨modseq, .message msg.key⟩
        (Tree.erase Mod.modseq msg.modseq box.store.mods) } }

/-- `update_msg_flags`. The flags of an EXPUNGED message are not saved, only that its modseq was
given out. -/
def updateMsgFlags (host : Host) (box : Box) (msg : Msg) (flags : MsgFlags) : Except Failure Box :=
  let changed := { msg with flags, modseq := box.store.himodseqDn + 1 }
  match msg.state with
  | .unfilled | .not4me => .error (⟨.internal, "invalid message state"⟩, box)
  | .filled =>
    if msg.flags = flags then .ok box
    else .ok (((box.bumpFlags msg flags).append host (.value (.message changed.logged)) []
      ).distributeUpdateMeta changed)
  | .expunged =>
    if msg.flags = flags then .ok box
    else .ok (((box.bumpFlags msg flags).append host (.modseqDn changed.modseq) []
      ).distributeUpdateMeta changed)

/-- `imaildir_up_update_flags` -/
def upUpdateFlags (host : Host) (box : Box) (msg : Msg) (flags : MsgFlags) : Except Failure Box :=
  if msg.state = .unfilled ∨ msg.state = .not4me then
    if msg.flags = flags then .ok box
    else (box.changeMsg msg.key fun msg => { msg with flags }).updateMsg host { msg with flags }
  else box.updateMsgFlags host msg flags

/-- `ie_fetch_resp_t`, as far as an `up_t` reads it: the flags if it has any, and the body if it
has one. A body may be malformed, or found to be for somebody else by the hook that processes it,
which also determines its length. -/
structure FetchBody where
  plain : Bool
  length : Nat
  not4me : Bool
  deriving DecidableEq

structure FetchResp where
  uid : Nat
  flags : Option MsgFlags
  internaldate : ImapTime
  body : Option FetchBody
  modseq : Nat
  deriving DecidableEq

/-- `imaildir_up_handle_static_fetch_attr`, called with a body. -/
def upHandleStaticFetchAttr (host : Host) (box : Box) (msg : Msg) (resp : FetchResp)
    (body : FetchBody) (epoch : Nat) : Except Failure Box :=
  if msg.state ≠ .unfilled then .ok box
  else if resp.internaldate.year = 0 then
    .error (⟨.response, "missing INTERNALDATE response"⟩, box)
  else if !body.plain then .error (⟨.response, "wrong BODY[*] response"⟩, box)
  else
    let box := box.changeMsg msg.key fun msg => { msg with internaldate := resp.internaldate }
    if body.not4me then
      let box := box.changeMsg msg.key fun msg => { msg with state := .not4me }
      box.updateMsg host { msg with internaldate := resp.internaldate, state := .not4me }
    else do
      let box ← box.handleNewMsgFile host msg.key body.length epoch
      return (box.finalizeAndSave host msg.key).announce msg.key

/-- The flags of a response for a message that is known already. -/
def upFetchFlags (host : Host) (box : Box) (msg : Msg) (resp : FetchResp) : Except Failure Box :=
  match resp.flags with
  | some flags => box.upUpdateFlags host msg flags
  | none => .ok box

/-- The body of a response. -/
def upFetchBody (host : Host) (box : Box) (resp : FetchResp) (epoch : Nat) : Except Failure Box :=
  match resp.body, box.findMsg (.up resp.uid) with
  | some body, some msg => box.upHandleStaticFetchAttr host msg resp body epoch
  | _, _ => .ok box

/-- The part of `up_fetch_resp` that concerns the `imaildir_t`. -/
def upFetchResp (host : Host) (box : Box) (resp : FetchResp) (epoch : Nat) : Except Failure Box :=
  if resp.uid = 0 then .ok box
  else
    match box.upLookupMsg resp.uid with
    | (_, true) => .ok box
    | (none, false) => do
      let box ← box.upNewMsg host resp.uid (resp.flags.getD {})
      box.upFetchBody host resp epoch
    | (some msg, false) =>
      if msg.state = .not4me then .ok box
      else do
        let box ← box.upFetchFlags host msg resp
        box.upFetchBody host resp epoch

/-- A new expunge: it gets a modseq if the message had a `uid_dn`. -/
def newExpunge (box : Box) (key : MsgKey) (uidDn : Nat) (state : ExpungeState) : Expunge :=
  ⟨key, uidDn, state, if uidDn = 0 then 0 else box.store.himodseqDn + 1⟩

/-- The modseq of a new expunge is given out. -/
def takeModseq (box : Box) (uidDn : Nat) : Box :=
  if uidDn = 0 then box
  else { box with store := { box.store with himodseqDn := box.store.himodseqDn + 1 } }

def insertExpunge (box : Box) (record : Expunge) : Box :=
  { box with
    store := { box.store with expunged := Tree.insert Expunge.key record box.store.expunged } }

/-- An expunge with a modseq is entered in the index. -/
def indexExpunge (box : Box) (record : Expunge) : Box :=
  { box with store := { box.store with mods := Trees.insertMod record.mod box.store.mods } }

/-- The part of `delete_msg` that leaves an expunge in the pushed state. -/
def pushExpunge (host : Host) (box : Box) (key : MsgKey) (uidDn : Nat) : Box × Expunge :=
  match box.findExpunge key with
  | none =>
    let record := box.newExpunge key uidDn .pushed
    let box := (box.takeModseq uidDn).insertExpunge record
    ((box.indexExpunge record).updateExpunge host record, record)
  | some record =>
    if record.state = .pushed then (box, record)
    else
      let pushed := { record with state := .pushed }
      let box := { box with
        store := { box.store with
          expunged := Tree.update Expunge.key key (fun record => { record with state := .pushed })
            box.store.expunged } }
      (box.updateExpunge host pushed, pushed)

/-- `delete_msg` -/
def deleteMsg (host : Host) (box : Box) (key : MsgKey) : Box :=
  match box.findMsg key, box.findExpunge key with
  | none, none => box
  | none, some record => (box.pushExpunge host key record.uidDn).1
  | some msg, _ =>
    let (box, record) := box.pushExpunge host key msg.uidDn
    match msg.state with
    | .filled =>
      (box.changeMsg key fun msg => { msg with state := .expunged }).distributeUpdateExpunge record
        { msg with state := .expunged }
    | .expunged => box
    | .unfilled | .not4me => box.removeAndDeleteMsg msg

/-! ### Operations of a `dn_t` -/

/-- `local_store_one` -/
def localStoreOne (host : Host) (box : Box) (msg : Msg) (sign : Int) (flags : MsgFlags) :
    Except Failure Box :=
  match storeFlags sign msg.flags flags with
  | .error error => .error (error, box)
  | .ok flags => box.updateMsgFlags host msg flags

/-- `relay_update_req_store_one`: a local or already expunged message is processed at once. -/
def storeOne (host : Host) (box : Box) (key : MsgKey) (sign : Int) (flags : MsgFlags) :
    Except Failure Box :=
  match box.findMsg key with
  | none => .ok box
  | some msg =>
    if key.uidUp = 0 ∨ msg.state = .expunged then box.localStoreOne host msg sign flags
    else .ok box

/-- `relay_update_req_expunge_one`: a local message is processed at once. -/
def expungeOne (host : Host) (box : Box) (key : MsgKey) : Box :=
  if key.uidUp = 0 then box.deleteMsg host key else box

/-- `imaildir_dn_build_views`: one view for every filled message. -/
def buildViews (box : Box) : List MsgView :=
  box.store.msgs.foldl (fun views msg =>
    if msg.state = .filled then Tree.insert MsgView.uidDn msg.view views else views) []

/-- A connection is registered, and its views are built. The ids tell connections apart. -/
def openDn (box : Box) (id : Nat) (examine : Bool) : Box :=
  if box.dns.any (·.id = id) then box
  else { box with dns := box.dns ++ [{ id, examine, views := box.buildViews }] }

/-- A connection is unregistered: its updates are freed. -/
def closeDn (box : Box) (id : Nat) : Box :=
  match box.dns.find? (·.id = id) with
  | none => box
  | some dn =>
    freeUpdates { box with dns := box.dns.filter (·.id ≠ id) }
      (dn.pending ++ dn.gathered.updatesToFree)

/-- A call of the `server_t` to a connection. A connection that fails is unregistered. -/
def callDn (box : Box) (id : Nat) (call : DnCall) : Box :=
  match box.dns.find? (·.id = id) with
  | none => box
  | some dn =>
    match dn.call call with
    | .error _ => box.closeDn id
    | .ok (dn, _, freed) =>
      freeUpdates { box with dns := box.dns.map fun other => if other.id = id then dn else other } freed

/-- A sync update for a connection. -/
def syncDn (box : Box) (id : Nat) (resp : Option StResp) : Box :=
  { box with
    dns := box.dns.map fun dn => if dn.id = id then dnImaildirUpdate dn (.sync resp) else dn }

/-! ### Local files -/

/-- The key of a local file: a zero `uid_up` asks for a new `uid_local`. -/
def localKey (box : Box) (uidUp : Nat) : MsgKey :=
  if 0 < uidUp then .up uidUp else .ofLocal (box.store.hiUidLocal + 1)

def takeLocal (box : Box) (uidUp : Nat) : Box :=
  if 0 < uidUp then box
  else { box with store := { box.store with hiUidLocal := box.store.hiUidLocal + 1 } }

/-- The message of a local file in memory: one that is there gets the date only. -/
def acceptLocal (box : Box) (key : MsgKey) (internaldate : ImapTime) (flags : MsgFlags) : Box :=
  match box.findMsg key with
  | some _ => box.changeMsg key fun msg => { msg with internaldate }
  | none => box.insertMsg (.unfilled key internaldate flags)

/-- The metadata of a local file is saved before the file is in place. -/
def saveMsg (host : Host) (box : Box) (key : MsgKey) : Except Failure Box :=
  match box.findMsg key with
  | some msg => box.updateMsg host msg
  | none => .ok box

/-- `imaildir_add_local_file`, except for what it tells the primary `up_t`. -/
def addLocalFile (host : Host) (box : Box) (uidUp length : Nat) (internaldate : ImapTime)
    (flags : MsgFlags) (epoch : Nat) : Except Failure Box := do
  let key := box.localKey uidUp
  let box ← ((box.takeLocal uidUp).acceptLocal key internaldate flags).saveMsg host key
  let box ← box.handleNewMsgFile host key length epoch
  return (box.finalizeAndSave host key).announce key

/-! ### Opening -/

/-- The trees and counters after `imaildir_log_open`. The counters of the `imaildir_t` itself are
kept when the log is reopened. -/
def ofLog (store : Store) (state : LogState) : Store :=
  { store with
    toTrees := state.toTrees
    himodseqDn := state.himodseqDn
    uidvldUp := state.uidvldUp
    uidvldDn := state.uidvldDn
    himodseqUp := state.himodseqUp
    lines := state.lines
    updates := state.updates }

/-- `add_msg_to_maildir` -/
def addMsgToMaildir (host : Host) (box : Box) (file : MailFile) : Except Failure Box :=
  match box.findMsg file.key with
  | none =>
    match box.findExpunge file.key with
    | none => .error (⟨.internal, "UID on file not in cache anywhere"⟩, box)
    | some _ => .ok (box.removeFile file)
  | some msg =>
    match msg.state with
    | .unfilled | .not4me => (box.finalizeAndSave host file.key).setFile file.key file
    | .filled => box.setFile file.key file
    | .expunged => .ok box

/-- `handle_missing_file`, and the dropping of the message that follows it. The expunge is not
entered in the index. -/
def handleMissingFile (host : Host) (box : Box) (msg : Msg) : Box :=
  if msg.state = .filled then
    let record := box.newExpunge msg.key msg.uidDn .unpushed
    (((box.takeModseq msg.uidDn).updateExpunge host record).insertExpunge record).dropMsg msg
  else box

/-- The files in the order that `populate_msgs` finds them: those of `cur` first. -/
def filesInOrder (host : Host) (disk : Disk) : List MailFile :=
  let files := host.readdir.pop disk disk.files
  files.filter (·.subdir = .cur) ++ files.filter (·.subdir = .new)

/-- `populate_msgs` -/
def populateMsgs (host : Host) (box : Box) : Except Failure Box := do
  let box ← (filesInOrder host box.disk).foldlM (addMsgToMaildir host) box
  return (box.store.msgs.filter (·.file.isNone)).foldl (handleMissingFile host) box

/-- The end of `imaildir_read_cache_and_files`: the highest uids are detected. -/
def detectHi (box : Box) : Box :=
  { box with
    store := { box.store with
      hiUidDn := ((box.store.msgs.map Msg.uidDn) ++ box.store.expunged.map Expunge.uidDn).foldl max
        box.store.hiUidDn
      hiUidLocal := ((box.store.msgs.map (·.key.uidLocal)) ++
        box.store.expunged.map (·.key.uidLocal)).foldl max box.store.hiUidLocal } }

/-- `imaildir_read_cache_and_files` -/
def readCacheAndFiles (host : Host) (box : Box) (readFiles : Bool) : Except Failure Box :=
  match readEntries {} box.disk.cache with
  | .error error => .error (error, box)
  | .ok state =>
    let box := { box with store := ofLog box.store state.finish }
    if readFiles then do
      let box ← box.populateMsgs host
      return box.detectHi
    else .ok box.detectHi

/-- `imaildir_log_rm` and `delete_all_msg_files` -/
def removeAll (box : Box) : Box :=
  let box := box.write { box.disk with cache := [] }
  box.disk.files.foldl removeFile box

def setInvalid (box : Box) (invalid : Bool) : Box := box.write { box.disk with invalid }

/-- `imaildir_init` and `imaildir_init_lite`. A cache that was being dropped is dropped first. -/
def init (host : Host) (disk : Disk) (lite : Bool) : Except Failure Box :=
  let box : Box := { store := { lite }, disk }
  let box := if disk.invalid then box.removeAll.setInvalid false else box
  box.readCacheAndFiles host !lite

/-- The cache is dropped and opened again. -/
def dropCache (host : Host) (box : Box) : Except Failure Box :=
  let box := (box.setInvalid true).removeAll
  let box := { box with store := { box.store with toTrees := {} } }
  (box.setInvalid false).readCacheAndFiles host true

/-- `imaildir_up_check_uidvld_up`. The first value is not a change. -/
def upCheckUidvldUp (host : Host) (box : Box) (uidvldUp now : Nat) : Except Failure Box :=
  let uidvldDn := (uidvldUp + now) % 2 ^ 32
  if box.store.uidvldUp = uidvldUp then .ok box
  else if box.store.uidvldUp = 0 then .ok (box.setUidvlds host uidvldUp uidvldDn)
  else do
    let box ← box.dropCache host
    return box.setUidvlds host uidvldUp uidvldDn

/-- `imaildir_free`: a mailbox that was found not to exist is removed. -/
def free (box : Box) (rmOnClose : Bool) : Box := if rmOnClose then box.removeAll else box

end Box

end Splintermail
