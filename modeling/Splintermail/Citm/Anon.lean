/-
This file models `anon.c`: the session of a mail client before its login. An `anon_t` owns
an `imap_server_t` for the client and an `imap_client_t` for the server, answers commands
until there is a LOGIN, passes it on, and hands both connections on once the server has
accepted it.

The two connections are seen from the `anon_t`: they call back when a read, a write or
the connection itself is done, in any order. Whether a command or a response can be
marshaled is up to libimap.
-/

import Splintermail.Dstr.Text
import Splintermail.Imaildir.Up
import Splintermail.Lib.Run

namespace Splintermail

/-! ### Commands and responses -/

/-- The commands of a mail client, as far as `process_login_cmd` tells them apart. -/
inductive AnonCmd where
  | error (text : String)
  | plusReq (text : Option String)
  | capa
  | noop
  | logout
  | login (user pass : String)
  | starttls
  | tooEarly
  | notSupported
  deriving DecidableEq

/-- `imap_cmd_t` -/
structure AnonTaggedCmd where
  tag : Option String
  cmd : AnonCmd
  deriving DecidableEq

/-- The responses to a mail client. -/
inductive AnonResp where
  | statusType (tag : Option String) (status : StatusType) (text : String)
  | capability (capas : List String)
  | plus (text : String)
  deriving DecidableEq

/-- A LOGIN command for the server, with the number in its tag. -/
structure AnonLogin where
  ntag : Nat
  user : String
  pass : String
  deriving DecidableEq

/-- A response of the server; the code matters if it is a CAPABILITY. -/
inductive LoginResp where
  | statusType (tag : Option Text) (status : StatusType) (capas : Option (List String))
  | other
  deriving DecidableEq

/-- `match_prefix`: the number in the tag of a response. -/
def matchPrefix (prefixText : Text) : LoginResp → Option Nat
  | .statusType (some tag) _ _ =>
    if prefixText.isPrefixOf tag then (dstrTou64 (tag.drop prefixText.length) 10).toOption else none
  | _ => none

/-- `match_tagged` -/
def matchTagged (resp : LoginResp) (prefixText : Text) (idx : Nat) : Bool :=
  matchPrefix prefixText resp = some idx

/-- `match_info` -/
def matchInfo : LoginResp → Bool
  | .statusType none _ _ => true
  | _ => false

/-- The capabilities that `check_capas` asks for. -/
def neededCapas : List String :=
  ["ENABLE", "UNSELECT", "IDLE", "UIDPLUS", "QRESYNC", "CONDSTORE", "XKEY"]

/-- `check_capas`, with the names compared without their case. -/
def checkCapas : LoginResp → Option Derr
  | .statusType _ _ (some capas) =>
    if neededCapas.all fun needed => capas.any fun capa => capa.toUpper = needed then none
    else some ⟨.response, "missing one or more capabilities"⟩
  | _ => some ⟨.response, "no CAPABILITY response with login"⟩

/-- The response is a tagged OK to a LOGIN, with all capabilities. -/
def LoginResp.accepts (resp : LoginResp) (login : AnonLogin) : Prop :=
  matchTagged resp "anon".toList login.ntag = true ∧
    (∃ tag capas, resp = .statusType tag .ok capas) ∧ checkCapas resp = none

/-- `build_capas_prelogin` -/
def capasPrelogin : List String := ["IMAP4rev1", "IDLE", "AUTH=PLAIN", "AUTH=LOGIN", "LOGIN"]

/-- What the code takes from libimap: the error of making some responses or a command writable. -/
structure AnonHost where
  respsError : List AnonResp → Option Derr
  loginError : AnonLogin → Option Derr
  insecure : Bool

/-! ### The state -/

/-- `imap_server_t`, as its owner sees it. -/
structure ImapServer where
  loggedOut : Bool := false
  brokenConn : Bool := false
  canceled : Bool := false
  awaited : Bool := false
  deriving DecidableEq

/-- `imap_client_t`, as its owner sees it. -/
structure ImapClient where
  canceled : Bool := false
  awaited : Bool := false
  deriving DecidableEq

/-- The checks of `imap_server_read` and `imap_server_write`. -/
def ImapServer.invalid (s : ImapServer) : Bool :=
  s.awaited || s.canceled || s.brokenConn || s.loggedOut

/-- The checks of `imap_client_read` and `imap_client_write`. -/
def ImapClient.invalid (c : ImapClient) : Bool := c.awaited || c.canceled

/-- The error that `anon_cb` is called with. -/
inductive AnonError where
  | error (error : Derr)
  | canceled
  deriving DecidableEq

/-- The arguments of `anon_cb`: whether the connections are handed on, and the credentials. -/
structure AnonResult where
  error : Option AnonError
  conns : Bool
  user : Option String
  pass : Option String
  deriving DecidableEq

/-- What went over the `imap_client_t`, in order. -/
inductive AnonTrace where
  | sent (login : AnonLogin)
  | received (resp : LoginResp)
  deriving DecidableEq

/-- `anon_t`. The calls of its callback are noted, and it is freed with the first one. -/
structure Anon where
  scheduled : Bool := true
  s : ImapServer := {}
  c : ImapClient := {}
  e : Option Derr := none
  cmd : Option AnonTaggedCmd := none
  resp : Option LoginResp := none
  cmds : List AnonLogin := []
  resps : List AnonResp := []
  ntags : Nat := 0
  tag : Option String := none
  user : Option String := none
  pass : Option String := none
  writingUp : Bool := false
  writingDn : Bool := false
  readingUp : Bool := false
  readingDn : Bool := false
  loginCmdRecvd : Bool := false
  writeUpSent : Bool := false
  loginRespRecvd : Bool := false
  writeDnSent : Bool := false
  loginSuccess : Bool := false
  done : Bool := false
  brokenConn : Bool := false
  canceled : Bool := false
  loggedOut : Bool := false
  called : List AnonResult := []
  freed : Bool := false
  trace : List AnonTrace := []
  deriving DecidableEq

namespace Anon

variable (host : AnonHost) (anon : Anon)

/-! ### Callbacks -/

/-- How an `imap_server_t` or an `imap_client_t` may end. -/
inductive Ending where
  | ok
  | canceled
  | error (error : Derr)
  deriving DecidableEq

/-- The error that `sawait_cb` is left with: only an `anon_t` that was canceled cancels the server. -/
def sawaitError : Ending → Option Derr
  | .ok => none
  | .canceled => if anon.canceled then none else some ⟨.internal, ""⟩
  | .error error => some error

/-- `sawait_cb` -/
def sawaitCb (ending : Ending) : Anon :=
  { anon with
    s := { anon.s with awaited := true }
    scheduled := true
    e := anon.e.or (anon.sawaitError ending) }

/-- The error that `cawait_cb` is left with: the client is canceled by a logout as well. -/
def cawaitError : Ending → Option Derr
  | .ok => none
  | .canceled => if anon.loggedOut || anon.canceled then none else some ⟨.internal, ""⟩
  | .error error => some error

/-- `cawait_cb` -/
def cawaitCb (ending : Ending) : Anon :=
  { anon with
    c := { anon.c with awaited := true }
    scheduled := true
    brokenConn := anon.brokenConn || (anon.cawaitError ending).isSome
    e := anon.e.or (anon.cawaitError ending) }

/-- `sread_cb` -/
def sreadCb (cmd : AnonTaggedCmd) : Anon :=
  { anon with readingDn := false, cmd := some cmd, scheduled := true }

/-- `cread_cb` -/
def creadCb (resp : LoginResp) : Anon :=
  { anon with
    readingUp := false
    resp := some resp
    scheduled := true
    trace := anon.trace ++ [.received resp] }

/-- `swrite_cb` -/
def swriteCb : Anon := { anon with writingDn := false, scheduled := true }

/-- `cwrite_cb` -/
def cwriteCb : Anon := { anon with writingUp := false, scheduled := true }

/-! ### Reads and writes -/

/-- `advance_writes_up`, and whether all writes are finished. -/
def advanceWritesUp : Except String (Anon × Bool) :=
  if anon.writingUp then .ok (anon, false)
  else
    match anon.cmds with
    | [] => .ok (anon, true)
    | login :: rest =>
      if anon.c.invalid then .error "imap_client_write failed\n"
      else
        .ok ({ anon with cmds := rest, writingUp := true, trace := anon.trace ++ [.sent login] },
          false)

/-- `advance_writes_dn`, and whether all writes are finished. -/
def advanceWritesDn : Except String (Anon × Bool) :=
  if anon.writingDn then .ok (anon, false)
  else
    match anon.resps with
    | [] => .ok (anon, true)
    | _ :: rest =>
      if anon.s.invalid then .error "imap_server_write failed\n"
      else .ok ({ anon with resps := rest, writingDn := true }, false)

/-- `advance_reads_dn`, when there is no command. -/
def startReadDn : Except String Anon :=
  if anon.readingDn then .ok anon
  else if anon.s.invalid then .error "imap_server_read failed\n"
  else .ok { anon with readingDn := true }

/-- `advance_reads_up`, when there is no response. -/
def startReadUp : Except String Anon :=
  if anon.readingUp then .ok anon
  else if anon.c.invalid then .error "imap_client_read failed\n"
  else .ok { anon with readingUp := true }

/-! ### Commands of the mail client -/

/-- The responses to a command other than LOGIN. -/
def respond (tag : Option String) : AnonCmd → List AnonResp
  | .error text => [.statusType tag .bad text]
  | .plusReq text => [.plus (text.getD "spit it out")]
  | .capa =>
    [.capability capasPrelogin, .statusType tag .ok "now you know, and knowing is half the battle"]
  | .noop => [.statusType tag .ok "zzz..."]
  | .logout =>
    [.statusType none .bye "goodbye, my love...",
      .statusType tag .ok "I'm gonna be strong, I can make it through this"]
  | .login _ _ => []
  | .starttls =>
    [.statusType tag .bad
      (if host.insecure then "this port was configured as insecure" else "tls is already active")]
  | .tooEarly => [.statusType tag .bad "it's too early for that"]
  | .notSupported => [.statusType tag .bad "command not supported"]

/-- `process_login_cmd`, and whether there is a LOGIN. -/
def processLoginCmd (cmd : AnonTaggedCmd) : Except String (Anon × Bool) :=
  match cmd.cmd with
  | .login user pass => do
    let (anon, _) ← { anon with
      cmd := none, tag := cmd.tag, user := some user, pass := some pass }.advanceWritesDn
    return (anon, true)
  | other =>
    match host.respsError (respond host cmd.tag other) with
    | some error => .ok ({ anon with cmd := none, e := some error }, false)
    | none => do
      let (anon, _) ← { anon with
        cmd := none
        resps := anon.resps ++ respond host cmd.tag other
        loggedOut := anon.loggedOut || other == AnonCmd.logout }.advanceWritesDn
      return (anon, false)

/-! ### Responses of the server -/

/-- `process_login_resp`, and whether it is the response to the LOGIN. -/
def processLoginResp (resp : LoginResp) : Anon × Bool :=
  let anon := { anon with resp := none }
  if matchTagged resp "anon".toList anon.ntags then
    match resp with
    | .statusType _ .ok _ =>
      match checkCapas resp with
      | some error => ({ anon with e := some error }, false)
      | none => ({ anon with loginSuccess := true }, true)
    | _ => ({ anon with loginSuccess := false, user := none, pass := none }, true)
  else if matchInfo resp then (anon, false)
  else ({ anon with e := some ⟨.response, "unexpected LOGIN response"⟩ }, false)

/-- `write_up` with `mktag` and `queue_write_up` -/
def writeUp : Except String Anon :=
  let ntags := (anon.ntags + 1) % 2 ^ 64
  let login : AnonLogin :=
    { ntag := ntags, user := anon.user.getD "", pass := anon.pass.getD "" }
  match host.loginError login with
  | some error => .ok { anon with ntags, e := some error }
  | none => do
    let (anon, _) ← { anon with ntags, cmds := anon.cmds ++ [login] }.advanceWritesUp
    return anon

/-- `write_dn` -/
def writeDn : Except String Anon :=
  let resp : AnonResp :=
    if anon.loginSuccess then .statusType anon.tag .ok "oh hey, I know you!"
    else .statusType anon.tag .no "nice try, imposter!"
  match host.respsError [resp] with
  | some error => .ok { anon with tag := none, e := some error }
  | none => do
    let (anon, _) ← { anon with tag := none, resps := anon.resps ++ [resp] }.advanceWritesDn
    return anon

/-! ### The loop -/

/-- What `advance_state` does after a part of its loop. -/
inductive Turn where
  | go
  | stop
  | again
  | finish
  | fail
  deriving DecidableEq

/-- The next part, if the last one did not leave the loop. -/
def andThen (outcome : Except String (Anon × Turn)) (next : Anon → Except String (Anon × Turn)) :
    Except String (Anon × Turn) := do
  let (anon, turn) ← outcome
  match turn with
  | .go => next anon
  | turn => return (anon, turn)

/-- A LOGIN is received from below. No more than one command was read. -/
def recvCmd : Except String (Anon × Turn) :=
  if anon.loginCmdRecvd then .ok (anon, .go)
  else
    match anon.cmd with
    | none => return (← anon.startReadDn, .stop)
    | some cmd => do
      let (anon, ok) ← anon.processLoginCmd host cmd
      if anon.e.isSome then return (anon, .fail)
      else if ok then return ({ anon with loginCmdRecvd := true }, .go)
      else return (← anon.startReadDn, .stop)

/-- The LOGIN is sent upwards. -/
def sendUp : Except String (Anon × Turn) :=
  if anon.writeUpSent then .ok (anon, .go)
  else do
    let anon ← { anon with writeUpSent := true }.writeUp host
    return (anon, if anon.e.isSome then .fail else .go)

/-- The response is read from above. No more than one response was read. -/
def recvResp : Except String (Anon × Turn) :=
  if anon.loginRespRecvd then .ok (anon, .go)
  else
    match anon.resp with
    | none => return (← anon.startReadUp, .stop)
    | some resp =>
      let (anon, ok) := anon.processLoginResp resp
      if anon.e.isSome then .ok (anon, .fail)
      else if ok then .ok ({ anon with loginRespRecvd := true }, .go)
      else return (← anon.startReadUp, .stop)

/-- The response is sent downwards. -/
def sendDn : Except String (Anon × Turn) :=
  if anon.writeDnSent then .ok (anon, .go)
  else do
    let anon ← { anon with writeDnSent := true }.writeDn host
    return (anon, if anon.e.isSome then .fail else .stop)

/-- The end of a round, with `reset`. -/
def endRound : Anon × Turn :=
  ({ anon with
      done := anon.loginSuccess
      loginCmdRecvd := false
      writeUpSent := false
      loginRespRecvd := false
      writeDnSent := false },
    if anon.loginSuccess then .finish else .again)

/-- One round of the loop. -/
def round : Except String (Anon × Turn) :=
  andThen (anon.recvCmd host) fun anon =>
    andThen (anon.sendUp host) fun anon =>
      andThen anon.recvResp fun anon =>
        andThen (anon.sendDn host) fun anon => .ok anon.endRound

/-- The loop. A second round does not come to its end, since it has a response to send. -/
def rounds : Except String (Anon × Turn) := do
  let (anon, turn) ← anon.round host
  match turn with
  | .again => anon.round host
  | turn => return (anon, turn)

/-- The end: the callback is called, and the `anon_t` is freed. -/
def finish (conns : Bool) : Anon :=
  { anon with
    freed := true
    called := anon.called ++ [{
      error :=
        match anon.e with
        | some error => some (.error error)
        | none => if anon.canceled then some .canceled else none
      conns
      user := anon.user
      pass := anon.pass }] }

/-- Both connections are awaited. -/
def bothAwaited : Bool := anon.s.awaited && anon.c.awaited

/-- The connections are canceled and waited for. -/
def failure : Anon :=
  let broken := anon.brokenConn && !anon.canceled
  let anon := { anon with
    s := { anon.s with
      brokenConn := anon.s.brokenConn || broken
      canceled := anon.s.canceled || !broken }
    c := { anon.c with canceled := true } }
  if anon.bothAwaited then anon.finish false else anon

/-- The server is logged out, the client is canceled, and both are waited for. -/
def logout : Anon :=
  let anon := { anon with
    s := { anon.s with loggedOut := true }
    c := { anon.c with canceled := true } }
  if anon.bothAwaited then anon.finish false else anon

/-- The session has an error or was canceled. -/
def failing : Bool := anon.canceled || anon.e.isSome

/-- The end of `advance_state` after the loop. -/
def conclude (turn : Turn) : Anon :=
  match turn with
  | .finish => anon.finish true
  | .fail => anon.failure
  | _ => anon

/-- `advance_state` -/
def advanceState : Except String Anon :=
  if anon.failing then .ok anon.failure
  else do
    let (anon, okUp) ← anon.advanceWritesUp
    let (anon, okDn) ← anon.advanceWritesDn
    if !okUp || !okDn then return anon
    else if anon.loggedOut then return anon.logout
    else do
      let (anon, turn) ← anon.rounds host
      return anon.conclude turn

end Anon

/-! ### Runs -/

/-- What happens to an `anon_t`: a callback, `anon_cancel`, or its turn of the scheduler. -/
inductive AnonEvent where
  | sread (cmd : AnonTaggedCmd)
  | cread (resp : LoginResp)
  | swrite
  | cwrite
  | sawait (ending : Anon.Ending)
  | cawait (ending : Anon.Ending)
  | cancel
  | run
  deriving DecidableEq

namespace Anon

/-- The `anon_t` after an event, or the text of a `LOG_FATAL`. A callback comes only if it was asked
for, and none comes from a connection that has ended or that was handed on. -/
def step (host : AnonHost) (anon : Anon) (event : AnonEvent) : Except String Anon :=
  if anon.freed then .ok anon
  else
    match event with
    | .sread cmd =>
      .ok (if anon.readingDn && !anon.s.awaited then anon.sreadCb cmd else anon)
    | .cread resp =>
      .ok (if anon.readingUp && !anon.c.awaited then anon.creadCb resp else anon)
    | .swrite => .ok (if anon.writingDn && !anon.s.awaited then anon.swriteCb else anon)
    | .cwrite => .ok (if anon.writingUp && !anon.c.awaited then anon.cwriteCb else anon)
    | .sawait ending => .ok (if anon.s.awaited then anon else anon.sawaitCb ending)
    | .cawait ending => .ok (if anon.c.awaited then anon else anon.cawaitCb ending)
    | .cancel => .ok { anon with canceled := true, scheduled := true }
    | .run =>
      if anon.scheduled then { anon with scheduled := false }.advanceState host else .ok anon

end Anon

end Splintermail
