/-
This file models `up.c`: the state of an `up_t`, the commands it sends to the server,
and what it does with every response.

An `up_t` does not know more of its `imaildir_t` than the functions that it calls, and
an `imaildir_t` calls the `up_t` back, also in the middle of such a function. So the
`imaildir_t` is a parameter here: a record of those functions, each of which answers
with a new `imaildir_t`, the calls that it made to the `up_t` meanwhile, and an error.

The commands of a call are collected in the order they are sent. A call that fails keeps
what it did before it failed. That the extensions which the commands need are enabled,
and that there is memory, is taken for granted.
-/

import Splintermail.Imaildir.Box

namespace Splintermail

/-! ### Commands and callbacks -/

/-- The tags that `write_tag_up` and `write_tag` write. -/
inductive UpTag where
  | up (tag : Nat)
  | imaildir (tag : Nat)
  deriving DecidableEq, Repr

/-- The commands of a `dn_t` that are relayed: a UID STORE, UID EXPUNGE or UID COPY. -/
inductive RelayCmd where
  | store (uidsUp : List Nat) (sign : Int) (flags : MsgFlags)
  | expunge (uidsUp : List Nat)
  | copy (uidsUp : List Nat) (mailbox : String)
  deriving DecidableEq

/-- The commands that an `up_t` sends. The detection fetch is for the uids, flags and modseqs of all
messages, the other one for the content of some. -/
inductive UpCmd where
  | select (tag : Nat) (examine : Bool) (qresync : Option (Nat × Nat))
  | detectionFetch (tag : Nat) (chgsince : Nat)
  | fetch (tag : Nat) (uidsUp : List Nat)
  | deletions (tag : Nat) (uidsUp : List Nat)
  | expunge (tag : Nat) (uidsUp : List Nat)
  | noop (tag : Nat)
  | idle (tag : Nat)
  | idleDone
  | unselect (tag : Nat)
  | relay (tag : Nat) (cmd : RelayCmd)
  deriving DecidableEq

/-- The tag of a command; only the DONE has none. -/
def UpCmd.tag : UpCmd → Option UpTag
  | .select tag _ _ | .detectionFetch tag _ | .fetch tag _ | .deletions tag _ | .expunge tag _
  | .noop tag | .idle tag | .unselect tag => some (.up tag)
  | .relay tag _ => some (.imaildir tag)
  | .idleDone => none

/-- The functions that an `imap_cmd_cb_t` may call. -/
inductive UpCallback where
  | unselectDone
  | selectDone
  | reselectDone
  | expungeDone
  | deletionsDone
  | detectionDone
  | fetchDone
  | idleDone
  | noopDone
  | relayCmdDone
  deriving DecidableEq

/-- `imap_cmd_cb_t` -/
structure UpCb where
  tag : UpTag
  call : UpCallback
  deriving DecidableEq

/-! ### Responses -/

/-- `ie_status_t` -/
inductive StatusType where
  | ok
  | no
  | bad
  | preauth
  | bye
  deriving DecidableEq

/-- `ie_st_code_t`, as far as an `up_t` tells the codes apart. -/
inductive StCode where
  | readOnly
  | uidvld (uidvld : Nat)
  | himodseq (himodseq : Nat)
  | nomodseq
  | closed
  | other
  deriving DecidableEq

/-- `ie_st_resp_t` -/
structure UpStResp where
  tag : Option UpTag
  status : StatusType
  code : Option StCode
  deriving DecidableEq

/-! ### The `up_t` -/

structure UpUnselect where
  needed : Bool := false
  sent : Bool := false
  deriving DecidableEq

structure UpSelect where
  ready : Bool := false
  sent : Bool := false
  done : Bool := false
  examine : Bool := false
  uidvldUp : Nat := 0
  himodseqUp : Nat := 0
  deriving DecidableEq

structure UpBootstrap where
  needed : Bool := false
  sent : Bool := false
  deriving DecidableEq

structure UpDeletions where
  storeSent : Bool := false
  storeDone : Bool := false
  expungeSent : Bool := false
  expungeDone : Bool := false
  uidsUp : List Nat := []
  deriving DecidableEq

structure UpDetect where
  chgsince : Nat := 0
  inflight : Bool := false
  again : Bool := false
  deriving DecidableEq

structure UpFetch where
  uidsUp : List Nat := []
  inFlight : Int := 0
  deriving DecidableEq

structure UpReselect where
  needed : Bool := false
  enqueued : Bool := false
  examine : Bool := false
  uidvldUp : Nat := 0
  himodseqUp : Nat := 0
  deriving DecidableEq

structure UpResync where
  needed : Bool := false
  inflight : Bool := false
  deriving DecidableEq

/-- The commands to relay and their callbacks are synchronized lists; here they are one. -/
structure UpRelay where
  resync : UpResync := {}
  cmds : List (UpCmd × UpCb) := []
  deriving DecidableEq

structure UpIdleBlock where
  want : Bool := false
  active : Bool := false
  deriving DecidableEq

structure UpIdle where
  sent : Bool := false
  gotPlus : Bool := false
  doneSent : Bool := false
  deriving DecidableEq

/-- `up_t`; `m` tells whether there is still an `imaildir_t`. -/
structure Up where
  m : Bool := true
  synced : Bool := false
  himodseqUpSeen : Nat := 0
  himodseqUpCommitted : Nat := 0
  tag : Nat := 0
  cbs : List UpCb := []
  done : Bool := false
  unselect : UpUnselect := {}
  select : UpSelect := {}
  bootstrap : UpBootstrap := {}
  deletions : UpDeletions := {}
  detect : UpDetect := {}
  fetch : UpFetch := {}
  reselect : UpReselect := {}
  relay : UpRelay := {}
  idleBlock : UpIdleBlock := {}
  idle : UpIdle := {}
  deriving DecidableEq

/-! ### The interface to the `imaildir_t` -/

/-- What an `imaildir_t` calls an `up_t` for. -/
inductive UpCall where
  | select (uidvldUp himodseqUp : Nat) (examine : Bool)
  | relayCmd (tag : Nat) (cmd : RelayCmd)
  | haveLocalFile (uid : Nat) (resync : Bool)
  | holdEnd
  deriving DecidableEq

/-- The answer of a function of an `imaildir_t`. -/
structure UpReply (M : Type) where
  imaildir : M
  calls : List UpCall := []
  error : Option Derr := none

/-- The functions of an `imaildir_t` that an `up_t` calls. A looked up message is given by its
state, together with whether it is expunged. -/
structure UpImaildir (M : Type) where
  getUnfilledMsgs : M → List Nat
  getUnpushedExpunges : M → List Nat
  allowDownload : M → Bool
  lookupMsg : M → Nat → Option MsgState × Bool
  selected : M → StatusType → UpReply M
  synced : M → Bool → UpReply M
  newMsg : M → Nat → MsgFlags → UpReply M
  updateFlags : M → Nat → MsgFlags → UpReply M
  handleStaticFetchAttr : M → Box.FetchResp → UpReply M
  deleteMsg : M → Nat → UpReply M
  checkUidvldUp : M → Nat → UpReply M
  setHimodseqUp : M → Nat → UpReply M
  relayCmdDone : M → UpTag → UpStResp → UpReply M

/-- What stops an `up_t`: an error, or a `LOG_FATAL`. -/
inductive UpFault where
  | error (error : Derr)
  | fatal (text : String)
  deriving DecidableEq

/-- An `up_t` with its `imaildir_t`, and the commands of the current call. -/
structure UpWorld (M : Type) where
  imaildir : M
  up : Up
  out : List UpCmd := []

abbrev UpFailure (M : Type) := UpFault × UpWorld M

/-! ### Calls of the `imaildir_t` -/

/-- `up_imaildir_select` -/
def upImaildirSelect (up : Up) (uidvldUp himodseqUp : Nat) (examine : Bool) : Except String Up :=
  if !up.select.ready then
    .ok { up with
      himodseqUpSeen := himodseqUp
      himodseqUpCommitted := himodseqUp
      select := { up.select with ready := true, examine, uidvldUp, himodseqUp } }
  else if !up.synced then .error "reselect-before-synced in up_t!\n"
  else if up.reselect.needed then .error "simultaneous reselects in up_t!\n"
  else .ok { up with
    reselect := { up.reselect with needed := true, examine, uidvldUp, himodseqUp } }

/-- `up_imaildir_relay_cmd` -/
def upImaildirRelayCmd (up : Up) (tag : Nat) (cmd : RelayCmd) : Except String Up :=
  if up.reselect.needed then .error "relay-during-reselect in up_t!\n"
  else .ok { up with
    relay := { up.relay with
      cmds := up.relay.cmds ++ [(.relay tag cmd, ⟨.imaildir tag, .relayCmdDone⟩)] } }

/-- `up_imaildir_have_local_file` -/
def upImaildirHaveLocalFile (up : Up) (uid : Nat) (resync : Bool) : Up :=
  let up := { up with fetch := { up.fetch with uidsUp := up.fetch.uidsUp.filter (· ≠ uid) } }
  if resync then
    { up with relay := { up.relay with resync := { up.relay.resync with needed := true } } }
  else up

/-- `up_imaildir_failed`: the `up_t` lets go of everything that is related to the `imaildir_t`. -/
def upImaildirFailed (up : Up) : Up :=
  { up with m := false, cbs := [], relay := { up.relay with cmds := [] } }

namespace UpWorld

variable {M : Type} (host : UpImaildir M) (world : UpWorld M)

/-- A call of the `imaildir_t`. -/
def call : UpCall → Except (UpFailure M) (UpWorld M)
  | .select uidvldUp himodseqUp examine =>
    match upImaildirSelect world.up uidvldUp himodseqUp examine with
    | .ok up => .ok { world with up }
    | .error text => .error (.fatal text, world)
  | .relayCmd tag cmd =>
    match upImaildirRelayCmd world.up tag cmd with
    | .ok up => .ok { world with up }
    | .error text => .error (.fatal text, world)
  | .haveLocalFile uid resync => .ok { world with up := upImaildirHaveLocalFile world.up uid resync }
  | .holdEnd => .ok world

/-- The answer of a function of the `imaildir_t`. -/
def take (reply : UpReply M) : Except (UpFailure M) (UpWorld M) := do
  let world ← reply.calls.foldlM call { world with imaildir := reply.imaildir }
  match reply.error with
  | none => return world
  | some error => .error (.error error, world)

def fail (type : DerrType) (text : String) : Except (UpFailure M) (UpWorld M) :=
  .error (.error ⟨type, text⟩, world)

/-- `healthcheck` -/
def healthcheck : Except (UpFailure M) (UpWorld M) :=
  if world.up.m then .ok world else world.fail .imaildir "imaildir failed on another thread"

/-- `himodseq_observe` -/
def himodseqObserve (observation : Nat) : UpWorld M :=
  { world with up := { world.up with himodseqUpSeen := max world.up.himodseqUpSeen observation } }

/-! ### Sending commands -/

/-- `send_cmd` with a callback: the command gets the next tag. -/
def sendCmd (cmd : Nat → UpCmd) (callback : UpCallback) : UpWorld M :=
  let tag := world.up.tag + 1
  { world with
    up := { world.up with tag, cbs := world.up.cbs ++ [⟨.up tag, callback⟩] }
    out := world.out ++ [cmd tag] }

/-- `send_unselect` -/
def sendUnselect : UpWorld M := world.sendCmd .unselect .unselectDone

/-- The QRESYNC parameters of `build_select`: a valid UIDVALIDITY and HIGHESTMODSEQ. -/
def qresync (uidvldUp himodseqUp : Nat) : Option (Nat × Nat) :=
  if uidvldUp ≠ 0 ∧ himodseqUp ≠ 0 then some (uidvldUp, himodseqUp) else none

/-- `send_select` -/
def sendSelect (uidvldUp himodseqUp : Nat) (examine : Bool) : UpWorld M :=
  world.sendCmd (fun tag => .select tag examine (qresync uidvldUp himodseqUp)) .selectDone

/-- `enqueue_reselect`: the command is sent with the relays. -/
def enqueueReselect (uidvldUp himodseqUp : Nat) (examine : Bool) : UpWorld M :=
  let tag := world.up.tag + 1
  { world with
    up := { world.up with
      tag
      relay := { world.up.relay with
        cmds := world.up.relay.cmds ++
          [(.select tag examine (qresync uidvldUp himodseqUp), ⟨.up tag, .reselectDone⟩)] } } }

/-- `send_expunge` -/
def sendExpunge : UpWorld M :=
  world.sendCmd (fun tag => .expunge tag world.up.deletions.uidsUp) .expungeDone

/-- `send_deletions` -/
def sendDeletions : UpWorld M :=
  world.sendCmd (fun tag => .deletions tag world.up.deletions.uidsUp) .deletionsDone

/-- `send_detection_fetch`: CHANGEDSINCE is at least 1. -/
def sendDetectionFetch (chgsince : Nat) : UpWorld M :=
  world.sendCmd (fun tag => .detectionFetch tag (max 1 chgsince)) .detectionDone

/-- `FETCH_PARALLELISM` -/
def fetchParallelism : Int := 5

/-- `FETCH_CHUNK_SIZE` -/
def fetchChunkSize : Nat := 10

/-- `send_fetch`, called with some uids: the first one and a chunk of others are popped. -/
def sendFetch : UpWorld M :=
  let popped := world.up.fetch.uidsUp.take (1 + fetchChunkSize)
  let fetch := { world.up.fetch with uidsUp := world.up.fetch.uidsUp.drop (1 + fetchChunkSize) }
  let sent := sendCmd { world with up := { world.up with fetch } } (.fetch · popped) .fetchDone
  { sent with up := { sent.up with fetch := { fetch with inFlight := fetch.inFlight + 1 } } }

/-- `send_idle` -/
def sendIdle : UpWorld M := world.sendCmd .idle .idleDone

/-- `send_done`: there is no callback. -/
def sendDone : Except (UpFailure M) (UpWorld M) :=
  if !world.up.idle.sent then world.fail .internal "idle not sent"
  else if !world.up.idle.gotPlus then world.fail .internal "plus not received"
  else .ok { world with out := world.out ++ [.idleDone] }

/-- `send_noop` -/
def sendNoop : UpWorld M := world.sendCmd .noop .noopDone

/-! ### The state machine -/

/-- `need_done`: DONE is sent if needed; the answer is whether it is safe to continue. -/
def needDone : Except (UpFailure M) (UpWorld M × Bool) :=
  if !world.up.idle.sent then .ok (world, true)
  else if !world.up.idle.gotPlus then .ok (world, false)
  else if !world.up.idle.doneSent then do
    let idle := { world.up.idle with doneSent := true }
    return (← sendDone { world with up := { world.up with idle } }, true)
  else .ok (world, true)

/-- A step that needs a DONE first; without a `+` it is not done yet. -/
def whenDone (step : UpWorld M → Except (UpFailure M) (UpWorld M)) : Except (UpFailure M) (UpWorld M) := do
  let (world, ok) ← world.needDone
  if ok then step world else return world

/-- The resync of `advance_relays`. -/
def advanceResync : UpWorld M :=
  let resync := world.up.relay.resync
  if resync.needed && !resync.inflight then
    sendNoop { world with
      up := { world.up with
        relay := { world.up.relay with resync := { needed := false, inflight := true } } } }
  else world

/-- The loop of `advance_relays`: all commands are sent. -/
def sendRelays : UpWorld M :=
  { world with
    up := { world.up with
      cbs := world.up.cbs ++ world.up.relay.cmds.map Prod.snd
      relay := { world.up.relay with cmds := [] } }
    out := world.out ++ world.up.relay.cmds.map Prod.fst }

/-- `advance_relays`: no command is relayed before the resync has finished. -/
def advanceRelays : Except (UpFailure M) (UpWorld M) :=
  if world.up.relay.cmds = [] then .ok world
  else world.whenDone fun world =>
    let world := world.advanceResync
    if world.up.relay.resync.inflight then .ok world else .ok world.sendRelays

/-- `advance_detection` -/
def advanceDetection : Except (UpFailure M) (UpWorld M) :=
  if world.up.reselect.needed then .ok world
  else if world.up.detect.chgsince = 0 || world.up.detect.inflight then .ok world
  else world.whenDone fun world =>
    let world := world.sendDetectionFetch world.up.detect.chgsince
    .ok { world with up := { world.up with detect := { world.up.detect with inflight := true } } }

/-- The loop of `advance_fetches`. Every fetch takes a uid at least, so that there are no more rounds
than uids. -/
def sendFetches (world : UpWorld M) : Nat → UpWorld M
  | 0 => world
  | rounds + 1 =>
    if world.up.fetch.inFlight < fetchParallelism ∧ world.up.fetch.uidsUp ≠ [] then
      sendFetches world.sendFetch rounds
    else world

/-- `advance_fetches` -/
def advanceFetches : Except (UpFailure M) (UpWorld M) :=
  if world.up.fetch.uidsUp = [] then .ok world
  else if !host.allowDownload world.imaildir then .ok world
  else world.whenDone fun world => .ok (world.sendFetches world.up.fetch.uidsUp.length)

/-- The initial SELECT: the uids to download and to delete are those that the `imaildir_t` has now.
With uids to delete the mailbox is never examined. -/
def initialSelect : UpWorld M :=
  let uidsUp := (host.getUnfilledMsgs world.imaildir).foldl
    (fun uidsUp uid => Tree.insert id uid uidsUp) world.up.fetch.uidsUp
  let unpushed := host.getUnpushedExpunges world.imaildir
  let up := { world.up with
    select := { world.up.select with sent := true }
    fetch := { world.up.fetch with uidsUp }
    deletions := { world.up.deletions with uidsUp := unpushed } }
  sendSelect { world with up } up.select.uidvldUp up.select.himodseqUp
    (if unpushed = [] then up.select.examine else false)

/-- The bootstrap. -/
def advanceBootstrap : UpWorld M :=
  if !world.up.bootstrap.sent then
    sendDetectionFetch { world with
      up := { world.up with bootstrap := { world.up.bootstrap with sent := true } } } 1
  else world

/-- The store step of the initial deletions. -/
def advanceStore : Except (UpFailure M) (UpWorld M) :=
  if !world.up.deletions.storeSent then
    world.whenDone fun world =>
      .ok (sendDeletions { world with
        up := { world.up with deletions := { world.up.deletions with storeSent := true } } })
  else .ok world

/-- The expunge step of the initial deletions. -/
def advanceExpunge : Except (UpFailure M) (UpWorld M) :=
  if !world.up.deletions.expungeSent then
    world.whenDone fun world =>
      .ok (sendExpunge { world with
        up := { world.up with deletions := { world.up.deletions with expungeSent := true } } })
  else .ok world

/-- A reselect is enqueued with the relays. -/
def advanceReselect : UpWorld M :=
  let reselect := world.up.reselect
  if reselect.needed && !reselect.enqueued then
    let world := world.enqueueReselect reselect.uidvldUp reselect.himodseqUp reselect.examine
    { world with up := { world.up with reselect := { reselect with enqueued := true } } }
  else world

/-- The check for the end of the initial sync. -/
def checkSynced : Except (UpFailure M) (UpWorld M) :=
  if !world.up.synced && world.up.fetch.uidsUp = [] && world.up.fetch.inFlight = 0 then
    let world := { world with up := { world.up with synced := true } }
    world.take (host.synced world.imaildir world.up.select.examine)
  else .ok world

/-- IDLE is sent when nothing is in flight. -/
def advanceIdle : UpWorld M :=
  if !world.up.synced then world
  else if world.up.cbs ≠ [] then world
  else if !world.up.idle.sent && !world.up.idleBlock.want then
    sendIdle { world with up := { world.up with idle := { world.up.idle with sent := true } } }
  else world

/-- The parallelizable commands. -/
def advanceParallel : Except (UpFailure M) (UpWorld M) := do
  let world ← world.advanceReselect.advanceDetection
  let world ← world.advanceFetches host
  let world ← world.advanceRelays
  let world ← world.checkSynced host
  return world.advanceIdle

/-- The initial deletions, and what becomes possible after them. -/
def advanceDeletions : Except (UpFailure M) (UpWorld M) :=
  if world.up.deletions.uidsUp = [] then world.advanceParallel host
  else do
    let world ← world.advanceStore
    if !world.up.deletions.storeDone then return world
    else do
      let world ← world.advanceExpunge
      if !world.up.deletions.expungeDone then return world else world.advanceParallel host

/-- What follows the initial SELECT. -/
def advanceSelected : Except (UpFailure M) (UpWorld M) :=
  if !world.up.select.done then .ok world
  else if world.up.bootstrap.needed then .ok world.advanceBootstrap
  else world.advanceDeletions host

/-- What is done once the `imaildir_t` has asked for the initial SELECT. -/
def advanceSelect : Except (UpFailure M) (UpWorld M) :=
  if !world.up.select.ready then .ok world
  else if !world.up.select.sent then (world.initialSelect host).advanceSelected host
  else world.advanceSelected host

/-- The wish to block IDLE is granted when there is none. -/
def advanceIdleBlock : Except (UpFailure M) (UpWorld M) :=
  if world.up.idleBlock.want && !world.up.idleBlock.active then
    world.whenDone fun world =>
      .ok { world with up := { world.up with idleBlock := { world.up.idleBlock with active := true } } }
  else .ok world

/-- `up_advance_state` -/
def upAdvanceState : Except (UpFailure M) (UpWorld M) :=
  if world.up.done then .ok world
  else do
    let world ← world.healthcheck
    if world.up.unselect.needed && !world.up.unselect.sent then
      world.whenDone fun world =>
        let world := world.sendUnselect
        .ok { world with up := { world.up with unselect := { world.up.unselect with sent := true } } }
    else if world.up.unselect.sent then return world
    else do
      let world ← world.advanceIdleBlock
      world.advanceSelect host

/-! ### Callbacks -/

/-- `unselect_done` -/
def unselectDone (st : UpStResp) : Except (UpFailure M) (UpWorld M) :=
  if st.status ≠ .ok then world.fail .response "unselect failed\n"
  else .ok { world with up := { world.up with done := true } }

/-- Detections that were thought to be needed are ignored after a SELECT. -/
def ignoreDetections : UpWorld M :=
  let detect := world.up.detect
  { world with
    up := { world.up with
      detect := { detect with
        chgsince := if detect.inflight then detect.chgsince else 0
        again := false } } }

/-- `select_done` -/
def selectDone (st : UpStResp) : Except (UpFailure M) (UpWorld M) := do
  let world ← world.take (host.selected world.imaildir st.status)
  if st.status ≠ .ok then return { world with up := { world.up with done := true } }
  else
    return ignoreDetections { world with
      up := { world.up with select := { world.up.select with done := true } } }

/-- `reselect_done` -/
def reselectDone (st : UpStResp) : Except (UpFailure M) (UpWorld M) := do
  let world ← world.take (host.selected world.imaildir st.status)
  if st.status ≠ .ok then world.fail .response "re-SELECT failed"
  else do
    let world := world.ignoreDetections
    let world ← world.take (host.synced world.imaildir world.up.reselect.examine)
    return { world with up := { world.up with reselect := {} } }

/-- The `imaildir_t` deletes some messages. -/
def deleteMsgs (world : UpWorld M) : List Nat → Except (UpFailure M) (UpWorld M)
  | [] => .ok world
  | uid :: rest => do
    let world ← world.take (host.deleteMsg world.imaildir uid)
    deleteMsgs world rest

/-- `expunge_done` -/
def expungeDone (st : UpStResp) : Except (UpFailure M) (UpWorld M) :=
  if st.status ≠ .ok then world.fail .param "expunge failed\n"
  else do
    let world ← world.deleteMsgs host world.up.deletions.uidsUp
    return { world with
      up := { world.up with
        deletions := { world.up.deletions with uidsUp := [], expungeDone := true } } }

/-- `deletions_done` -/
def deletionsDone (st : UpStResp) : Except (UpFailure M) (UpWorld M) :=
  if st.status ≠ .ok then world.fail .param "store failed\n"
  else .ok { world with
    up := { world.up with deletions := { world.up.deletions with storeDone := true } } }

/-- `detection_done` -/
def detectionDone (st : UpStResp) : Except (UpFailure M) (UpWorld M) :=
  if st.status ≠ .ok then world.fail .response "detection fetch failed\n"
  else if world.up.bootstrap.needed then .ok { world with up := { world.up with bootstrap := {} } }
  else
    let detect := { world.up.detect with inflight := false }
    .ok { world with
      up := { world.up with
        detect := if detect.again then { detect with again := false } else { detect with chgsince := 0 } } }

/-- `fetch_done` -/
def fetchDone (st : UpStResp) : Except (UpFailure M) (UpWorld M) :=
  let fetch := { world.up.fetch with inFlight := world.up.fetch.inFlight - 1 }
  let world := { world with up := { world.up with fetch } }
  if st.status ≠ .ok then world.fail .response "fetch failed\n" else .ok world

/-- `idle_done` -/
def idleDone (st : UpStResp) : Except (UpFailure M) (UpWorld M) :=
  if st.status ≠ .ok then world.fail .response "idle failed\n"
  else .ok { world with up := { world.up with idle := {} } }

/-- `noop_done`: the need for a resync stays, in case there is one again. -/
def noopDone (st : UpStResp) : Except (UpFailure M) (UpWorld M) :=
  if st.status ≠ .ok then world.fail .response "noop failed\n"
  else .ok { world with
    up := { world.up with
      relay := { world.up.relay with resync := { world.up.relay.resync with inflight := false } } } }

/-- The call of an `imap_cmd_cb_t`. -/
def callback (cb : UpCb) (st : UpStResp) : Except (UpFailure M) (UpWorld M) :=
  match cb.call with
  | .unselectDone => world.unselectDone st
  | .selectDone => world.selectDone host st
  | .reselectDone => world.reselectDone host st
  | .expungeDone => world.expungeDone host st
  | .deletionsDone => world.deletionsDone st
  | .detectionDone => world.detectionDone st
  | .fetchDone => world.fetchDone st
  | .idleDone => world.idleDone st
  | .noopDone => world.noopDone st
  | .relayCmdDone => world.take (host.relayCmdDone world.imaildir cb.tag st)

/-! ### Responses -/

/-- `maybe_break_idle` -/
def maybeBreakIdle : Except (UpFailure M) (UpWorld M) :=
  if !world.up.idle.sent || world.up.idle.doneSent then .ok world
  else if !host.allowDownload world.imaildir then .ok world
  else world.upAdvanceState host

/-- A response with an unknown uid: the message is new, and its content is fetched if the response
has none. -/
def newFetchResp (fetch : Box.FetchResp) : Except (UpFailure M) (UpWorld M) := do
  let world ← world.take (host.newMsg world.imaildir fetch.uid (fetch.flags.getD {}))
  let world := if fetch.body.isSome then world
    else { world with
      up := { world.up with
        fetch := { world.up.fetch with uidsUp := Tree.insert id fetch.uid world.up.fetch.uidsUp } } }
  world.maybeBreakIdle host

/-- The flags of a response for a message that is known. -/
def knownFetchResp (fetch : Box.FetchResp) : Except (UpFailure M) (UpWorld M) :=
  match fetch.flags with
  | some flags => world.take (host.updateFlags world.imaildir fetch.uid flags)
  | none => .ok world

/-- The content of a response. -/
def fetchRespContent (fetch : Box.FetchResp) : Except (UpFailure M) (UpWorld M) :=
  if fetch.body.isSome then world.take (host.handleStaticFetchAttr world.imaildir fetch) else .ok world

/-- The content and the modseq of a response. -/
def fetchRespRest (fetch : Box.FetchResp) : Except (UpFailure M) (UpWorld M) := do
  let world ← world.fetchRespContent host fetch
  return if 0 < fetch.modseq then world.himodseqObserve fetch.modseq else world

/-- `up_fetch_resp` -/
def upFetchResp (fetch : Box.FetchResp) : Except (UpFailure M) (UpWorld M) := do
  let world ← world.healthcheck
  if fetch.uid = 0 then return world
  else
    match host.lookupMsg world.imaildir fetch.uid with
    | (_, true) | (some .not4me, false) => return world
    | (none, false) => do
      let world ← world.newFetchResp host fetch
      world.fetchRespRest host fetch
    | (some _, false) => do
      let world ← world.knownFetchResp host fetch
      world.fetchRespRest host fetch

/-- `up_vanished_resp`, called with the uids of the ranges in their order. -/
def upVanishedResp (uids : List Nat) : Except (UpFailure M) (UpWorld M) := do
  let world ← world.healthcheck
  world.deleteMsgs host uids

/-- `up_exists_resp` -/
def upExistsResp : Except (UpFailure M) (UpWorld M) := do
  let world ← world.healthcheck
  let detect := world.up.detect
  if detect.chgsince ≠ 0 then
    return { world with up := { world.up with detect := { detect with again := true } } }
  else
    let chgsince := max world.up.himodseqUpCommitted 1
    maybeBreakIdle host { world with up := { world.up with detect := { detect with chgsince } } }

/-- `up_plus_resp` -/
def upPlusResp : Except (UpFailure M) (UpWorld M) := do
  let world ← world.healthcheck
  if !world.up.idle.sent then world.fail .response "got + out of idle state"
  else
    upAdvanceState host { world with
      up := { world.up with idle := { world.up.idle with gotPlus := true } } }

/-- The HIGHESTMODSEQ of a status-type response. -/
def observeCode : Option StCode → UpWorld M
  | some (.himodseq himodseq) => world.himodseqObserve himodseq
  | _ => world

/-- `post_cmd_done` -/
def postCmdDone (code : Option StCode) : Except (UpFailure M) (UpWorld M) :=
  let world := world.observeCode code
  let up := world.up
  if up.himodseqUpSeen = up.himodseqUpCommitted then .ok world
  else if up.bootstrap.needed || up.detect.chgsince ≠ 0 then .ok world
  else if !up.m then .ok world
  else do
    let world ← world.take (host.setHimodseqUp world.imaildir up.himodseqUpSeen)
    return { world with up := { world.up with himodseqUpCommitted := world.up.himodseqUpSeen } }

/-- `untagged_ok` -/
def untaggedOk : Option StCode → Except (UpFailure M) (UpWorld M)
  | some .readOnly => world.fail .internal "unable to handle READ only boxes"
  | some (.uidvld uidvld) => do
    let world ← world.take (host.checkUidvldUp world.imaildir uidvld)
    if uidvld ≠ world.up.select.uidvldUp then
      return { world with
        up := { world.up with
          himodseqUpSeen := 0
          himodseqUpCommitted := 0
          bootstrap := { world.up.bootstrap with needed := true } } }
    else return world
  | some (.himodseq himodseq) => .ok (world.himodseqObserve himodseq)
  | some .nomodseq => world.fail .response "server mailbox does not support modseq numbers"
  | some .closed =>
    .ok { world with
      up := { world.up with
        himodseqUpSeen := world.up.reselect.himodseqUp
        himodseqUpCommitted := world.up.reselect.himodseqUp } }
  | some .other | none => .ok world

/-- `tagged_status_type` -/
def taggedStatusType (tag : UpTag) (st : UpStResp) : Except (UpFailure M) (UpWorld M) :=
  match world.up.cbs with
  | [] => world.fail .response "bad status type response"
  | cb :: rest =>
    if tag ≠ cb.tag then world.fail .response "bad status type response"
    else do
      let world ← callback host { world with up := { world.up with cbs := rest } } cb st
      let world ← world.postCmdDone host st.code
      world.upAdvanceState host

/-- `untagged_status_type` -/
def untaggedStatusType (st : UpStResp) : Except (UpFailure M) (UpWorld M) :=
  if st.status = .ok then world.untaggedOk host st.code
  else world.fail .internal "unhandled message"

/-- `up_st_resp` -/
def upStResp (st : UpStResp) : Except (UpFailure M) (UpWorld M) := do
  let world ← world.healthcheck
  match st.tag with
  | some tag => world.taggedStatusType host tag st
  | none => world.untaggedStatusType host st

/-! ### Calls of the owner -/

/-- `up_idle_block`; whether IDLE is blocked is told by `idleBlock.active`. -/
def upIdleBlock : Except (UpFailure M) (UpWorld M) :=
  upAdvanceState host { world with
    up := { world.up with idleBlock := { world.up.idleBlock with want := true } } }

/-- `up_idle_unblock` -/
def upIdleUnblock : Except (UpFailure M) (UpWorld M) :=
  upAdvanceState host { world with up := { world.up with idleBlock := {} } }

/-- `up_unselect`; whether nothing is selected any more is told by `done`. -/
def upUnselect : Except (UpFailure M) (UpWorld M) := do
  let world ← world.healthcheck
  if !world.up.select.sent || world.up.done then
    return { world with up := { world.up with done := true } }
  else
    upAdvanceState host { world with
      up := { world.up with unselect := { world.up.unselect with needed := true } } }

end UpWorld

/-! ### The calls into an `up_t` -/

/-- The calls into an `up_t`: those of its owner, and what the rest of the system does to the
`imaildir_t` in between, which may make calls to the `up_t` too or let it fail. -/
inductive UpInput (M : Type) where
  | stResp (st : UpStResp)
  | fetchResp (fetch : Box.FetchResp)
  | vanishedResp (uids : List Nat)
  | existsResp
  | plusResp
  | idleBlock
  | idleUnblock
  | unselect
  | advanceState
  | elsewhere (imaildir : M) (calls : List UpCall)
  | failed

/-- A call into an `up_t`. -/
def UpWorld.run {M : Type} (host : UpImaildir M) (world : UpWorld M) :
    UpInput M → Except (UpFailure M) (UpWorld M)
  | .stResp st => world.upStResp host st
  | .fetchResp fetch => world.upFetchResp host fetch
  | .vanishedResp uids => world.upVanishedResp host uids
  | .existsResp => world.upExistsResp host
  | .plusResp => world.upPlusResp host
  | .idleBlock => world.upIdleBlock host
  | .idleUnblock => world.upIdleUnblock host
  | .unselect => world.upUnselect host
  | .advanceState => world.upAdvanceState host
  | .elsewhere imaildir calls => world.take { imaildir, calls }
  | .failed => .ok { world with up := upImaildirFailed world.up }

end Splintermail
