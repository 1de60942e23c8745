/-
This file models the accessors of an `imaildir_t`: the `up_t`'s and `dn_t`'s that are
linked from it, the selection of the mailbox by the primary `up_t`, the relays that
wait for it, and the failure that all accessors are told of.

An accessor that failed is no longer linked, but it exists until its owner closes
it. What an `up_t` does between the calls of the `imaildir_t` is its own affair, so
that here it may become any other `up_t`.
-/

import Splintermail.Imaildir.Box
import Splintermail.Imaildir.Up
import Splintermail.Lib.Run

namespace Splintermail

/-! ### The accessors -/

/-- Which accessor is meant. -/
inductive AccessorName where
  | up (id : Nat)
  | dn (id : Nat)
  deriving DecidableEq

/-- An `up_t` with an id that tells it apart. -/
structure UpAccessor where
  id : Nat
  up : Up := {}
  deriving DecidableEq

/-- A `dn_t` that failed; `m` tells whether there is still an `imaildir_t`. -/
structure FailedDn where
  dn : Dn
  m : Bool
  deriving DecidableEq

/-- `relay_t`. The `requester` is gone if it is none. -/
structure Relay where
  tag : Nat
  cmd : RelayCmd
  requester : Option Nat
  deriving DecidableEq

/-- The `sync` of an `imaildir_t`. -/
structure ImaildirSync where
  selectSent : Bool := false
  examining : Bool := false
  done : Bool := false
  deriving DecidableEq

/-- `imaildir_t`. The connections with views are those of the box, and `initialSelect` is the status
of the initial select if it is done. A relay in `strays` is in neither list. The calls of
`schedule` are noted in order. -/
structure Imaildir where
  box : Box
  ups : List UpAccessor := []
  predns : List Dn := []
  naccessors : Nat := 0
  nwriters : Nat := 0
  sync : ImaildirSync := {}
  initialSelect : Option StatusType := none
  rmOnClose : Bool := false
  relaysSent : List Relay := []
  relaysUnsent : List Relay := []
  strays : List Relay := []
  tag : Nat := 0
  freed : Bool := false
  failedUps : List UpAccessor := []
  failedDns : List FailedDn := []
  scheduled : List AccessorName := []
  deriving DecidableEq

namespace Imaildir

/-- The accessors that are linked from the `imaildir_t`. -/
def linked (m : Imaildir) : List AccessorName :=
  m.ups.map (.up ·.id) ++ (m.box.dns.map (.dn ·.id) ++ m.predns.map (.dn ·.id))

/-- The accessors that exist. -/
def existing (m : Imaildir) : List AccessorName :=
  m.linked ++ (m.failedUps.map (.up ·.id) ++ m.failedDns.map (.dn ·.dn.id))

def schedule (m : Imaildir) (names : List AccessorName) : Imaildir :=
  { m with scheduled := m.scheduled ++ names }

/-! ### Failure -/

/-- `dn_free_views`, for a connection of the box: its updates are freed. -/
def dnFreeViews (box : Box) (id : Nat) : Box :=
  match box.dns.find? (·.id = id) with
  | none => box
  | some dn =>
    Box.freeUpdates { box with
        dns := box.dns.map fun other =>
          if other.id = id then { other with views := [], pending := [] } else other }
      dn.pending

/-- `do_fail`: `up_imaildir_failed` for every `up_t`, `dn_imaildir_failed` for every `dn_t` with
views. -/
def doFail (m : Imaildir) : Imaildir :=
  let box := (m.box.dns.map Dn.id).foldl dnFreeViews m.box
  { m with
    ups := []
    box := { box with dns := [] }
    failedUps := m.failedUps ++ m.ups.map fun accessor =>
      { accessor with up := upImaildirFailed accessor.up }
    failedDns := m.failedDns ++ box.dns.map fun dn => { dn, m := false }
    scheduled := m.scheduled ++ (m.ups.map (.up ·.id) ++ m.box.dns.map (.dn ·.id)) }

/-- `imaildir_free` -/
def free (m : Imaildir) : Imaildir :=
  { m with
    freed := true
    relaysSent := []
    relaysUnsent := []
    box := m.box.free m.rmOnClose }

/-- `imaildir_maybe_fail` with the `failed` callback of the dirmgr, which frees the `imaildir_t`. -/
def maybeFail (m : Imaildir) : Option Derr → Imaildir
  | none => m
  | some _ => m.doFail.free

/-- `imaildir_forceclose`, as `dirmgr_freeze_new` calls it. -/
def forceclose (m : Imaildir) : Imaildir := m.doFail.free

/-! ### The selection of the mailbox -/

/-- The primary `up_t` is called and scheduled. -/
def callPrimary (m : Imaildir) (call : Up → Except String Up) : Except String Imaildir :=
  match m.ups with
  | [] => .ok m
  | primary :: rest => do
    let up ← call primary.up
    return { m with ups := { primary with up } :: rest }.schedule [.up primary.id]

/-- `imaildir_free_sync` -/
def freeSync (m : Imaildir) : Imaildir := { m with sync := {} }

/-- `emit_select` -/
def emitSelect (m : Imaildir) (examine : Bool) : Except String Imaildir :=
  m.callPrimary fun up =>
    upImaildirSelect up m.box.store.uidvldUp m.box.store.himodseqUp examine

/-- The first parts of `advance_sync`: a reselect is detected, and a select is sent. -/
def advanceSelect (m : Imaildir) (examine : Bool) : Except String Imaildir :=
  let m := if m.sync.done && m.sync.examining != examine then m.freeSync else m
  if m.sync.selectSent then .ok m
  else do
    let m ← m.emitSelect examine
    return { m with sync := { m.sync with examining := examine, selectSent := true } }

/-- The last part of `advance_sync`: connections without views are woken up. -/
def wakePredns (m : Imaildir) : Imaildir :=
  if m.sync.done then m.schedule (m.predns.map (.dn ·.id)) else m

/-- `advance_sync` -/
def advanceSync (m : Imaildir) : Except String Imaildir :=
  if m.initialSelect.any (· ≠ .ok) then .ok m
  else if m.ups = [] then .ok m
  else do
    let m ← m.advanceSelect (m.nwriters = 0)
    return m.wakePredns

/-- `imaildir_dn_synced` -/
def dnSynced (m : Imaildir) (examine : Bool) : Bool :=
  m.sync.done && (examine || !m.sync.examining)

/-- `imaildir_up_selected`. A reselect that fails fails the `imaildir_t`. -/
def upSelected (m : Imaildir) (status : StatusType) : Except String Imaildir :=
  let selected : Imaildir := { m with initialSelect := m.initialSelect.or (some status) }
  if status = .ok then .ok selected
  else
    let selected : Imaildir := { selected with rmOnClose := selected.rmOnClose || status == .no }
    if m.initialSelect.isSome then .ok (selected.maybeFail (some ⟨.imaildir, "reselect failed"⟩))
    else if m.box.dns ≠ [] then .error "initial select failed, but imaildir has dn_t's already\n"
    else .ok (selected.schedule (m.predns.map fun dn => .dn dn.id))

/-! ### Relays -/

/-- `maybe_send_relay` -/
def maybeSendRelay (m : Imaildir) (relay : Relay) : Except String Imaildir :=
  if !m.sync.done then .ok { m with relaysUnsent := m.relaysUnsent ++ [relay] }
  else
    match m.ups with
    | [] => .error "imaildir is .synced=true but there is no up_t!\n"
    | primary :: _ =>
      if m.relaysUnsent ≠ [] then
        .error "imaildir is .synced=true but relays_unset is nonempty!\n"
      else if !primary.up.synced then
        .error "imaildir is .synced=true but its primary is .synced=false!\n"
      else do
        let m ← m.callPrimary (upImaildirRelayCmd · relay.tag relay.cmd)
        return { m with relaysSent := m.relaysSent ++ [relay] }

/-- The end of `relay_update_req_store`, `relay_update_req_expunge` and `relay_update_req_copy`: a
command is relayed upwards. -/
def relayUpwards (m : Imaildir) (requester : Nat) (cmd : RelayCmd) : Except String Imaildir :=
  { m with tag := m.tag + 1 }.maybeSendRelay { tag := m.tag, cmd, requester := some requester }

/-- The loop of `imaildir_up_synced`. A relay that was popped is a list of its own, and such a list
is empty: `link_list_append_list` appends nothing, and the relay is in no list. -/
def sendUnsent (m : Imaildir) : List Relay → Except String Imaildir
  | [] => .ok m
  | relay :: rest => do
    let m ← m.callPrimary (upImaildirRelayCmd · relay.tag relay.cmd)
    sendUnsent { m with strays := m.strays ++ [relay] } rest

/-- `imaildir_up_synced` -/
def upSynced (m : Imaildir) (examining : Bool) : Except String Imaildir := do
  let m ← { m with sync := { m.sync with done := true } }.advanceSync
  if !m.sync.done then return m
  else if decide (m.nwriters = 0) ≠ examining then
    .error "arrived at imaildir_up_synced in wrong examining state"
  else sendUnsent { m with relaysUnsent := [] } m.relaysUnsent

/-! ### Registering -/

/-- `imaildir_register_up` -/
def registerUp (m : Imaildir) (id : Nat) : Except String Imaildir :=
  let m : Imaildir := { m with ups := m.ups ++ [{ id }], naccessors := m.naccessors + 1 }
  m.advanceSync

/-- `imaildir_register_dn` -/
def registerDn (m : Imaildir) (id : Nat) (examine : Bool) : Except String Imaildir :=
  let m : Imaildir := { m with
    predns := m.predns ++ [{ id, examine }]
    naccessors := m.naccessors + 1
    nwriters := if examine then m.nwriters else m.nwriters + 1 }
  m.advanceSync

/-- `imaildir_dn_build_views`: a connection goes from `predns` to `dns`. -/
def dnBuildViews (m : Imaildir) (id : Nat) : Imaildir :=
  match m.predns.find? (·.id = id) with
  | none => m
  | some dn =>
    if m.dnSynced dn.examine then
      { m with
        predns := m.predns.filter (·.id ≠ id)
        box := { m.box with dns := m.box.dns ++ [{ dn with views := m.box.buildViews }] } }
    else m

/-- `eject_up`. With the primary the sent relays wait again, but those without a requester go. -/
def ejectUp (m : Imaildir) (id : Nat) : Imaildir :=
  let wasPrimary := m.ups.head?.any (·.id = id)
  let m := { m with ups := m.ups.filter (·.id ≠ id), naccessors := m.naccessors - 1 }
  if wasPrimary then
    { m.freeSync with
      relaysUnsent := m.relaysSent.filter (·.requester.isSome) ++ m.relaysUnsent
      relaysSent := [] }
  else m

/-- A relay lets go of a requester that is gone. -/
def forget (id : Nat) (relay : Relay) : Relay :=
  if relay.requester = some id then { relay with requester := none } else relay

/-- `eject_dn` -/
def ejectDn (m : Imaildir) (id : Nat) : Imaildir :=
  let writes := (m.box.dns ++ m.predns).any fun dn => dn.id = id && !dn.examine
  { m with
    relaysSent := m.relaysSent.map (forget id)
    relaysUnsent := m.relaysUnsent.filter (·.requester ≠ some id)
    nwriters := if writes then m.nwriters - 1 else m.nwriters
    predns := m.predns.filter (·.id ≠ id)
    box := m.box.closeDn id
    naccessors := m.naccessors - 1 }

/-- `handle_empty_imaildir`, after the last accessor is gone. -/
def handleEmpty (m : Imaildir) : Imaildir := if m.naccessors = 0 then m.free else m

/-- `dirmgr_close_up` -/
def closeUp (m : Imaildir) (id : Nat) : Except String Imaildir :=
  if m.ups.any (·.id = id) then do
    let m ← (m.ejectUp id).advanceSync
    return m.handleEmpty
  else .ok { m with failedUps := m.failedUps.filter (·.id ≠ id) }

/-- `dirmgr_close_dn` -/
def closeDn (m : Imaildir) (id : Nat) : Except String Imaildir :=
  if (m.box.dns ++ m.predns).any (·.id = id) then do
    let m ← (m.ejectDn id).advanceSync
    return m.handleEmpty
  else .ok { m with failedDns := m.failedDns.filter (·.dn.id ≠ id) }

end Imaildir

/-! ### Runs -/

/-- What is done to an `imaildir_t` by its accessors and its dirmgr. -/
inductive ImaildirEvent where
  | openUp (id : Nat)
  | openDn (id : Nat) (examine : Bool)
  | closeUp (id : Nat)
  | closeDn (id : Nat)
  | buildViews (id : Nat)
  | relay (requester : Nat) (cmd : RelayCmd)
  | advanceUp (id : Nat) (after : Up)
  | selected (status : StatusType)
  | synced (examining : Bool)
  | maybeFail (error : Option Derr)
  | forceclose
  deriving DecidableEq

namespace Imaildir

/-- The `imaildir_t` after an event, or the text of a `LOG_FATAL`. The ids tell the accessors that
exist apart, and an `imaildir_t` that was freed is not opened again. -/
def step (m : Imaildir) : ImaildirEvent → Except String Imaildir
  | .openUp id => if m.freed ∨ .up id ∈ m.existing then .ok m else m.registerUp id
  | .openDn id examine =>
    if m.freed ∨ .dn id ∈ m.existing then .ok m else m.registerDn id examine
  | .closeUp id => m.closeUp id
  | .closeDn id => m.closeDn id
  | .buildViews id => .ok (m.dnBuildViews id)
  | .relay requester cmd =>
    if m.box.dns.any (·.id = requester) then m.relayUpwards requester cmd else .ok m
  | .advanceUp id after =>
    .ok { m with
      ups := m.ups.map fun accessor =>
        if accessor.id = id then { accessor with up := after } else accessor }
  | .selected status => if m.ups = [] then .ok m else m.upSelected status
  | .synced examining => if m.ups = [] then .ok m else m.upSynced examining
  | .maybeFail error => .ok (m.maybeFail error)
  | .forceclose => .ok m.forceclose

/-- An `imaildir_t` that was just opened. -/
def opened (box : Box) : Imaildir := { box := { box with dns := [] } }

end Imaildir

end Splintermail
