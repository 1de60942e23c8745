/-
This file models the part of `sc.c` that has to do with the mailbox of a client: the
`sc_t` reads a command, calls its `dn_t` for it until the command is done, opens and
closes the `dn_t` and the `up_t`, and hands the updates that arrive during an IDLE on.

An error closes both of them at once and ends the session. Commands that are passed on to
the server matter only for the updates that are gathered at their end. The responses to
CAPABILITY and LOGOUT and those of the server are left out. Every request that a `dn_t`
makes is recorded together with whether its mailbox was opened with EXAMINE.
-/

import Splintermail.Imaildir.Conn

namespace Splintermail

/-! ### Commands and the state -/

/-- The commands, as far as `handle_cmd` tells them apart. -/
inductive ScCmd where
  | passthru
  | error (text : String)
  | plusReq (text : Option String)
  | capa
  | noop
  | select (examine params : Bool)
  | close
  | logout
  | store (args : StoreArgs)
  | expunge
  | copy (args : CopyArgs)
  | fetch (args : FetchArgs)
  | check
  | search (args : SearchArgs)
  | idle
  | idleDone (errmsg : Option String)
  | starttls (insec : Bool)
  | login
  | unhandled

def ScCmd.isIdleDone : ScCmd → Bool
  | .idleDone _ => true
  | _ => false

/-- `sc_t`. There is a connection as long as `dn_active` is set, and a selected mailbox as long as
`selected_mailbox` is. -/
structure Sc where
  conn : Option Conn := none
  upActive : Bool := false
  selected : Bool := false
  cmd : Option ScCmd := none
  tag : Option String := none
  idle : Bool := false
  logout : Bool := false
  failed : Bool := false
  selectDisconnected : Bool := false
  selectConnected : Bool := false
  selectDone : Bool := false
  selectSuccess : Bool := false
  resps : List DnResponse := []
  submitted : List (Bool × UpdateReq) := []

/-- What the rest of the system answers while the `sc_t` advances. -/
structure ScAnswers where
  dn : Answers := {}
  /-- the id of a `dn_t` that is opened, or the error of opening it -/
  openDn : Except Derr Nat := .ok 0
  /-- the error of opening an `up_t` -/
  openUp : Option Derr := none
  /-- whether `up_unselect` is done -/
  unselected : Bool := true
  /-- whether all responses are written -/
  written : Bool := true
  /-- the status of the tagged response to a command that was passed on, once it has come -/
  passthru : Option Status := none

/-- `dn_imaildir_failed` -/
def Conn.imaildirFailed (conn : Conn) : Conn :=
  { conn with dn := { conn.dn with views := [], pending := [] }, m := false }

namespace Sc

variable (sc : Sc) (answers : ScAnswers)

/-- The mailbox was opened with EXAMINE. -/
def examining : Bool := sc.conn.any fun conn => conn.dn.examine

/-- An error: the `dn_t` and the `up_t` are closed. -/
def fail : Sc := { sc with conn := none, upActive := false, failed := true }

def respond (resps : List DnResponse) : Sc := { sc with resps := sc.resps ++ resps }

/-- `RESP_OK`, `RESP_NO` and `RESP_BAD`: the tag of the command is taken. -/
def reply (status : Status) (text : String) : Sc :=
  { sc.respond [Conn.stResp sc.tag status text] with tag := none }

/-- A call of the `dn_t`: whether the command is done. -/
def useDn (called : Except Derr Called) : Sc × Bool :=
  match called with
  | .error _ => (sc.fail, false)
  | .ok called =>
    let sc := { sc with submitted := sc.submitted ++ called.requests.map (sc.examining, ·) }
    match called.error with
    | some _ => (sc.fail, false)
    | none =>
      ({ sc with conn := some called.conn, tag := called.tagp, resps := sc.resps ++ called.out },
        called.ok)

/-- `dn_gather_updates` for a command without a uid mode, if there is a `dn_t`. -/
def gatherUpdates : Sc :=
  match sc.conn with
  | none => sc
  | some conn =>
    match conn.gatherUpdates true false with
    | .error _ => sc.fail
    | .ok (conn, responses, _) => { sc.respond responses with conn := some conn }

/-- The rest of a command, unless there was an error. -/
def andThen (next : Sc → Sc × Bool) : Sc × Bool :=
  if sc.failed then (sc, false) else next sc

/-! ### Opening and closing -/

/-- The second part of `advance_disconnect`: the `up_t` and the mailbox. -/
def disconnectUp : Sc × Bool :=
  if sc.upActive && !answers.unselected then (sc, false)
  else ({ sc with upActive := false, selected := false }, true)

/-- `advance_disconnect` -/
def advanceDisconnect (expunge : Bool) : Sc × Bool :=
  match sc.conn with
  | none => sc.disconnectUp answers
  | some conn =>
    let (sc, ok) := sc.useDn (conn.disconnect sc.tag answers.dn expunge)
    if ok then disconnectUp { sc with conn := none } answers else (sc, false)

/-- The first part of `advance_select`. -/
def selectDisconnect : Sc × Bool :=
  if sc.selectDisconnected then (sc, true)
  else
    let (sc, ok) := sc.advanceDisconnect answers false
    ({ sc with selectDisconnected := ok }, ok)

/-- The second part of `advance_select`. -/
def selectConnect (examine : Bool) : Sc :=
  if sc.selectConnected then sc
  else
    match answers.openDn with
    | .error _ => { sc.fail with selectConnected := true }
    | .ok id =>
      match answers.openUp with
      | some _ => { sc.fail with selectConnected := true }
      | none =>
        { sc with
          conn := some { dn := { id, examine } }
          upActive := true
          selected := true
          selectConnected := true }

/-- The third part of `advance_select`: a response without success is a failure of the SELECT. -/
def selectWait : Sc × Bool :=
  if sc.selectDone then (sc, true)
  else
    match sc.conn with
    | none => (sc, true)
    | some conn =>
      let (sc, ok) := sc.useDn (conn.select sc.tag answers.dn)
      if ok then
        ({ sc with selectDone := true, selectSuccess := answers.dn.selectStatus = some .ok }, true)
      else (sc, false)

/-- The last part of `advance_select`: after a failure the `dn_t` is closed without a disconnect. -/
def selectFinish : Sc × Bool :=
  let done : Sc → Sc := fun sc =>
    { sc with selectDisconnected := false, selectConnected := false, selectDone := false,
              selectSuccess := false }
  if sc.selectSuccess then (done sc, true)
  else
    let (sc, ok) := advanceDisconnect { sc with conn := none } answers false
    if ok then (done sc, true) else (sc, false)

/-- `advance_select` -/
def advanceSelect (examine : Bool) : Sc × Bool :=
  let (sc, ok) := sc.selectDisconnect answers
  if !ok then (sc, false)
  else
    (sc.selectConnect answers examine).andThen fun sc =>
      let (sc, ok) := sc.selectWait answers
      if ok then sc.selectFinish answers else (sc, false)

/-! ### Commands -/

/-- The commands that need a selected mailbox: `require_selected` refuses them without one. -/
def whenSelected (next : Conn → Sc × Bool) : Sc × Bool :=
  if !sc.selected then (sc.reply .bad "command not allowed in AUTHENTICATED state", true)
  else
    match sc.conn with
    | none => (sc, true)
    | some conn => next conn

/-- A command that gathers updates and is answered. -/
def gatherReply (text : String) : Sc × Bool :=
  sc.gatherUpdates.andThen fun sc => (sc.reply .ok text, true)

/-- The end of a command that was passed on: updates are gathered if it succeeded. -/
def passthru : Sc × Bool :=
  match answers.passthru with
  | none => (sc, false)
  | some .ok => sc.gatherUpdates.andThen fun sc => ({ sc with tag := none }, true)
  | some _ => ({ sc with tag := none }, true)

/-- CLOSE -/
def close : Sc × Bool :=
  if !sc.selected then (sc.reply .bad "command not allowed in AUTHENTICATED state", true)
  else
    let (sc, ok) := sc.advanceDisconnect answers true
    if ok then (sc.reply .ok "get offa my lawn!", true) else (sc, false)

/-- `handle_cmd`: whether the command is done. -/
def handleCmd : ScCmd → Sc × Bool
  | .passthru => sc.passthru answers
  | .error text => (sc.reply .bad text, true)
  | .plusReq text => (sc.respond [.plus (text.getD "spit it out")], true)
  | .capa => sc.gatherReply "now you know, and knowing is half the battle"
  | .noop => sc.gatherReply "zzz..."
  | .select examine params =>
    if params then (sc.reply .bad "command not supported", true) else sc.advanceSelect answers examine
  | .close => sc.close answers
  | .logout => ({ sc with logout := true }, true)
  | .store args => sc.whenSelected fun conn => sc.useDn (conn.store sc.tag answers.dn args)
  | .expunge => sc.whenSelected fun conn => sc.useDn (conn.expunge sc.tag answers.dn)
  | .copy args => sc.whenSelected fun conn => sc.useDn (conn.copy sc.tag answers.dn args)
  | .fetch args => sc.whenSelected fun conn =>
    if answers.written then sc.useDn (conn.fetch sc.tag answers.dn args) else (sc, false)
  | .check => sc.whenSelected fun _ => sc.gatherReply "zzz..."
  | .search args => sc.whenSelected fun conn => sc.useDn (conn.search sc.tag args)
  | .idle => sc.whenSelected fun conn =>
    (sc.useDn (conn.idle sc.tag)).1.andThen fun sc => ({ sc with idle := true }, true)
  | .idleDone errmsg => sc.whenSelected fun conn =>
    (sc.useDn (conn.idleDone sc.tag errmsg)).1.andThen fun sc => ({ sc with idle := false }, true)
  | .starttls insec =>
    (sc.reply .bad
      (if insec then "this port was configured as insecure" else "tls is already active"), true)
  | .login => (sc.reply .bad "already logged in", true)
  | .unhandled => (sc.reply .bad "command not supported", true)

/-- `advance_server`: without a command an IDLE hands on its updates, and a command that is done is
freed. -/
def advanceServer : Sc :=
  match sc.cmd with
  | none => if sc.idle then sc.gatherUpdates else sc
  | some cmd =>
    if sc.idle ≠ cmd.isIdleDone then sc.fail
    else
      let (sc, ok) := sc.handleCmd answers cmd
      if ok && !sc.logout then { sc with cmd := none } else sc

/-- `advance_state`, as far as the mailbox is concerned. -/
def advanceState : Sc :=
  if sc.failed then sc
  else if sc.logout then (sc.advanceDisconnect answers false).1
  else
    let sc := sc.advanceServer answers
    if sc.logout && !sc.failed then (sc.advanceDisconnect answers false).1 else sc

/-- What happens to an `sc_t`: a command is read, the `imaildir_t` passes an update to the `dn_t` or
fails, or the `sc_t` advances. -/
inductive Event where
  | read (cmd : ScCmd) (tag : Option String)
  | update (update : Update)
  | imaildirFailed
  | advance (answers : ScAnswers)

def step : Event → Sc
  | .read cmd tag => if sc.cmd.isNone then { sc with cmd := some cmd, tag } else sc
  | .update update =>
    { sc with conn := sc.conn.map fun conn => { conn with dn := dnImaildirUpdate conn.dn update } }
  | .imaildirFailed => { sc with conn := sc.conn.map Conn.imaildirFailed }
  | .advance answers => sc.advanceState answers

end Sc

end Splintermail
