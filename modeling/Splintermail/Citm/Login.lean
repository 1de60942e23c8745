/-
This file proves that the session of a mail client before its login comes to an end.

The invariant says what a connection that has ended leaves an `anon_t` in: it was
canceled, it has an error, or its client is logged out and there is nothing left to
write. It is kept as long as no connection ends without an error in any other state. An
`imap_server_t` does so when it is the one that answers a LOGOUT, before STARTTLS.
-/

import Splintermail.Citm.Anon

namespace Splintermail

open List

open Outcome (Sat)

namespace Anon

variable {host : AnonHost} {anon after : Anon}

/-! ### What holds between the events -/

/-- There is nothing left to write upwards. -/
def WrittenUp (anon : Anon) : Prop := anon.writingUp = false ∧ anon.cmds = []

/-- There is nothing left to write downwards. -/
def WrittenDn (anon : Anon) : Prop := anon.writingDn = false ∧ anon.resps = []

/-- The session is being torn down. -/
def TeardownPath (anon : Anon) : Prop :=
  anon.canceled = true ∨ anon.e.isSome = true ∨ anon.loggedOut = true ∨ anon.done = true

/-- The LOGIN is the last one that was sent. -/
def LastSent (trace : List AnonTrace) (login : AnonLogin) : Prop :=
  ∃ before middle, trace = before ++ .sent login :: middle ∧ ∀ other, .sent other ∉ middle

/-- The response is the last thing received, and the LOGIN the last one sent before it. -/
def Answer (trace : List AnonTrace) (login : AnonLogin) (resp : LoginResp) : Prop :=
  ∃ before middle, trace = before ++ .sent login :: (middle ++ [.received resp]) ∧
    ∀ other, .sent other ∉ middle

/-- A LOGIN is waited for. -/
structure Idle (anon : Anon) : Prop where
  cmdRecvd : anon.loginCmdRecvd = false
  upSent : anon.writeUpSent = false
  respRecvd : anon.loginRespRecvd = false
  dnSent : anon.writeDnSent = false
  user : anon.user = none
  pass : anon.pass = none
  reading : anon.readingUp = false
  resp : anon.resp = none
  cmds : anon.cmds = []

/-- The LOGIN was sent, and its response is waited for. -/
structure Waiting (login : AnonLogin) (anon : Anon) : Prop where
  cmdRecvd : anon.loginCmdRecvd = true
  upSent : anon.writeUpSent = true
  respRecvd : anon.loginRespRecvd = false
  dnSent : anon.writeDnSent = false
  loggedIn : anon.loggedOut = false
  user : anon.user = some login.user
  pass : anon.pass = some login.pass
  ntag : login.ntag = anon.ntags
  cmds : anon.cmds = []
  sent : LastSent anon.trace login
  received : ∀ resp, anon.resp = some resp → anon.readingUp = false ∧ Answer anon.trace login resp

/-- The credentials are those that the server has accepted. -/
def Accepted (anon : Anon) : Prop :=
  ∃ login resp, anon.user = some login.user ∧ anon.pass = some login.pass ∧
    Answer anon.trace login resp ∧ resp.accepts login

/-- The response to the LOGIN was received; `dnSent` tells whether it was sent on. -/
structure Answered (dnSent : Bool) (anon : Anon) : Prop where
  cmdRecvd : anon.loginCmdRecvd = true
  upSent : anon.writeUpSent = true
  respRecvd : anon.loginRespRecvd = true
  dnSent : anon.writeDnSent = dnSent
  loggedIn : anon.loggedOut = false
  reading : anon.readingUp = false
  resp : anon.resp = none
  cmds : anon.cmds = []
  success : anon.loginSuccess = true → anon.Accepted
  rejected : anon.loginSuccess = false → anon.user = none ∧ anon.pass = none

/-- The stages of a round, as they are between two calls of `advance_state`. -/
inductive Phase (anon : Anon) : Prop where
  | idle (idle : anon.Idle)
  | waiting (login : AnonLogin) (waiting : anon.Waiting login)
  | answered (answered : anon.Answered true)

/-- What the stage of a round depends on. -/
def core (anon : Anon) : Anon :=
  { resp := anon.resp, cmds := anon.cmds, ntags := anon.ntags, user := anon.user, pass := anon.pass
    readingUp := anon.readingUp, loginCmdRecvd := anon.loginCmdRecvd
    writeUpSent := anon.writeUpSent, loginRespRecvd := anon.loginRespRecvd
    writeDnSent := anon.writeDnSent, loginSuccess := anon.loginSuccess
    loggedOut := anon.loggedOut, trace := anon.trace }

theorem Phase.core (phase : anon.Phase) : anon.core.Phase := by
  cases phase with
  | idle idle => exact .idle ⟨idle.cmdRecvd, idle.upSent, idle.respRecvd, idle.dnSent, idle.user,
      idle.pass, idle.reading, idle.resp, idle.cmds⟩
  | waiting login waiting => exact .waiting login ⟨waiting.cmdRecvd, waiting.upSent,
      waiting.respRecvd, waiting.dnSent, waiting.loggedIn, waiting.user, waiting.pass,
      waiting.ntag, waiting.cmds, waiting.sent, waiting.received⟩
  | answered answered => exact .answered ⟨answered.cmdRecvd, answered.upSent,
      answered.respRecvd, answered.dnSent, answered.loggedIn, answered.reading, answered.resp,
      answered.cmds, answered.success, answered.rejected⟩

theorem Phase.of_core (phase : anon.core.Phase) : anon.Phase := by
  cases phase with
  | idle idle => exact .idle ⟨idle.cmdRecvd, idle.upSent, idle.respRecvd, idle.dnSent, idle.user,
      idle.pass, idle.reading, idle.resp, idle.cmds⟩
  | waiting login waiting => exact .waiting login ⟨waiting.cmdRecvd, waiting.upSent,
      waiting.respRecvd, waiting.dnSent, waiting.loggedIn, waiting.user, waiting.pass,
      waiting.ntag, waiting.cmds, waiting.sent, waiting.received⟩
  | answered answered => exact .answered ⟨answered.cmdRecvd, answered.upSent,
      answered.respRecvd, answered.dnSent, answered.loggedIn, answered.reading, answered.resp,
      answered.cmds, answered.success, answered.rejected⟩

theorem Phase.like (phase : anon.Phase) (same : after.core = anon.core) : after.Phase :=
  Phase.of_core (by rw [same]; exact phase.core)

/-- The invariant of a session that has not ended, except for its place in the scheduler. -/
structure Sound (anon : Anon) : Prop where
  server : anon.s.awaited = true → anon.failing = true ∨ anon.loggedOut = true ∧ anon.WrittenDn
  client : anon.c.awaited = true → anon.failing = true ∨ anon.loggedOut = true ∧ anon.WrittenUp
  serverStopped : anon.s.canceled = true ∨ anon.s.brokenConn = true → anon.failing = true
  serverLoggedOut : anon.s.loggedOut = true →
    anon.failing = true ∨ anon.loggedOut = true ∧ anon.WrittenUp ∧ anon.WrittenDn
  clientStopped : anon.c.canceled = true →
    anon.failing = true ∨ anon.loggedOut = true ∧ anon.WrittenUp ∧ anon.WrittenDn
  uncalled : anon.called = []
  phase : anon.e = none → anon.Phase

/-- The callback was given credentials only if the server has accepted them. -/
def Credentials (trace : List AnonTrace) (result : AnonResult) : Prop :=
  result.error = none → (result.user = none ∧ result.pass = none) ∨
    ∃ login resp, result.user = some login.user ∧ result.pass = some login.pass ∧
      Answer trace login resp ∧ resp.accepts login

/-- What holds of a session that has ended. -/
structure Ended (anon : Anon) : Prop where
  path : anon.TeardownPath
  called : ∃ result, anon.called = [result] ∧ Credentials anon.trace result

/-- The invariant of a session. -/
def Invariant (anon : Anon) : Prop :=
  (anon.freed = false ∧ anon.Sound ∧
      (anon.s.awaited = true → anon.c.awaited = true → anon.scheduled = true)) ∨
    (anon.freed = true ∧ anon.Ended)

/-- Both connections may be used. -/
structure Open (anon : Anon) : Prop where
  server : anon.s.invalid = false
  client : anon.c.invalid = false
  uncalled : anon.called = []
  unfreed : anon.freed = false

theorem Open.sound (isOpen : anon.Open) (phase : anon.e = none → anon.Phase) : anon.Sound := by
  have server := isOpen.server
  have client := isOpen.client
  unfold ImapServer.invalid at server
  unfold ImapClient.invalid at client
  simp only [Bool.or_eq_false_iff] at server client
  obtain ⟨⟨⟨sAwaited, sCanceled⟩, sBroken⟩, sLoggedOut⟩ := server
  obtain ⟨cAwaited, cCanceled⟩ := client
  refine ⟨fun flag => ?_, fun flag => ?_, fun flag => ?_, fun flag => ?_, fun flag => ?_,
    isOpen.uncalled, phase⟩
  · rw [sAwaited] at flag
    cases flag
  · rw [cAwaited] at flag
    cases flag
  · rw [sCanceled, sBroken] at flag
    rcases flag with flag | flag <;> cases flag
  · rw [sLoggedOut] at flag
    cases flag
  · rw [cCanceled] at flag
    cases flag

theorem Open.awaited (isOpen : anon.Open) : anon.bothAwaited = false := by
  have server := isOpen.server
  unfold ImapServer.invalid at server
  simp only [Bool.or_eq_false_iff] at server
  unfold bothAwaited
  rw [server.1.1.1, Bool.false_and]

theorem Sound.isOpen (sound : anon.Sound) (unfreed : anon.freed = false)
    (going : anon.failing = false) (loggedIn : anon.loggedOut = false) : anon.Open := by
  have clear {flag : Bool} {rest : Prop}
      (implies : flag = true → anon.failing = true ∨ anon.loggedOut = true ∧ rest) :
      flag = false := by
    cases flag with
    | false => rfl
    | true =>
      rcases implies rfl with failing | ⟨loggedOut, _⟩
      · rw [going] at failing
        cases failing
      · rw [loggedIn] at loggedOut
        cases loggedOut
  have stopped {flag : Bool} (implies : flag = true → anon.failing = true) : flag = false := by
    cases flag with
    | false => rfl
    | true => exact absurd (implies rfl) (by rw [going]; decide)
  refine ⟨?_, ?_, sound.uncalled, unfreed⟩
  · unfold ImapServer.invalid
    rw [clear sound.server, stopped fun flag => sound.serverStopped (.inl flag),
      stopped fun flag => sound.serverStopped (.inr flag), clear sound.serverLoggedOut]
    rfl
  · unfold ImapClient.invalid
    rw [clear sound.client, clear sound.clientStopped]
    rfl

/-! ### Reads and writes of open connections -/

theorem advanceWritesDn_open (anon : Anon) (valid : anon.s.invalid = false) :
    ∃ resps writingDn ok, anon.advanceWritesDn = .ok ({ anon with resps, writingDn }, ok) := by
  unfold advanceWritesDn
  split
  · exact ⟨anon.resps, anon.writingDn, false, rfl⟩
  · split
    · exact ⟨anon.resps, anon.writingDn, true, rfl⟩
    · rename_i rest _
      rw [if_neg (by rw [valid]; decide)]
      exact ⟨rest, true, false, rfl⟩

theorem startReadDn_open (valid : anon.s.invalid = false) :
    anon.startReadDn = .ok { anon with readingDn := true } := by
  unfold startReadDn
  split
  · rename_i reading
    rw [← reading]
  · rw [if_neg (by rw [valid]; decide)]

theorem startReadUp_open (valid : anon.c.invalid = false) :
    anon.startReadUp = .ok { anon with readingUp := true } := by
  unfold startReadUp
  split
  · rename_i reading
    rw [← reading]
  · rw [if_neg (by rw [valid]; decide)]

/-! ### A round -/

/-- What a round leaves alone. -/
structure Aside (anon after : Anon) : Prop where
  server : after.s = anon.s
  client : after.c = anon.c
  canceled : after.canceled = anon.canceled
  called : after.called = anon.called
  freed : after.freed = anon.freed

theorem Aside.trans {last : Anon} (first : Aside anon after) (second : Aside after last) :
    Aside anon last :=
  ⟨second.server.trans first.server, second.client.trans first.client,
    second.canceled.trans first.canceled, second.called.trans first.called,
    second.freed.trans first.freed⟩

/-- The way a part of the loop leaves it. -/
def Left (after : Anon) : Turn → Prop
  | .stop => after.e = none ∧ after.Phase
  | .fail => after.e.isSome = true
  | .finish => after.e = none ∧ after.done = true ∧ after.Accepted
  | _ => False

/-- A LOGIN was received and waits to be sent. -/
structure Ready (anon : Anon) : Prop where
  cmdRecvd : anon.loginCmdRecvd = true
  upSent : anon.writeUpSent = false
  respRecvd : anon.loginRespRecvd = false
  dnSent : anon.writeDnSent = false
  loggedOut : anon.loggedOut = false
  user : anon.user.isSome = true
  pass : anon.pass.isSome = true
  resp : anon.resp = none
  cmds : anon.cmds = []
  writing : anon.writingUp = false
  e : anon.e = none

/-- A part of the loop that was left is the whole round. -/
theorem andThen_sat {outcome : Except String (Anon × Turn)}
    {next : Anon → Except String (Anon × Turn)} {before : Anon} (goes : Anon → Prop)
    (first : Sat outcome (fun result => Aside before result.1 ∧
      (Left result.1 result.2 ∨ result.2 = .go ∧ goes result.1)) (fun _ => False))
    (second : ∀ value, Aside before value → goes value →
      Sat (next value) (fun result => Aside before result.1 ∧ Left result.1 result.2)
        (fun _ => False)) :
    Sat (andThen outcome next)
      (fun result => Aside before result.1 ∧ Left result.1 result.2) (fun _ => False) := by
  unfold andThen
  refine first.bind fun ⟨value, turn⟩ ⟨aside, left⟩ => ?_
  rcases left with left | ⟨rfl, goes⟩
  · cases turn with
    | go => exact left.elim
    | stop | again | finish | fail => exact ⟨aside, left⟩
  · exact second value aside goes

theorem recvCmd_idle (valid : anon.s.invalid = false) (going : anon.e = none)
    (loggedIn : anon.loggedOut = false) (writing : anon.writingUp = false) (idle : anon.Idle) :
    Sat (anon.recvCmd host) (fun result => Aside anon result.1 ∧
      (Left result.1 result.2 ∨ result.2 = .go ∧ Ready result.1)) (fun _ => False) := by
  obtain ⟨cmdRecvd, upSent, respRecvd, dnSent, user, pass, reading, resp, cmds⟩ := idle
  unfold recvCmd
  rw [if_neg (by rw [cmdRecvd]; decide)]
  cases command : anon.cmd with
  | none =>
    dsimp only
    rw [startReadDn_open valid]
    exact ⟨⟨rfl, rfl, rfl, rfl, rfl⟩, .inl ⟨going,
      .idle ⟨cmdRecvd, upSent, respRecvd, dnSent, user, pass, reading, resp, cmds⟩⟩⟩
  | some cmd =>
    dsimp only
    unfold processLoginCmd
    split
    · rename_i name password _
      obtain ⟨resps, writingDn, ok, written⟩ := advanceWritesDn_open { anon with
          cmd := none, tag := cmd.tag, user := some name, pass := some password } valid
      rw [written]
      show Sat (if anon.e.isSome then _ else _) _ _
      rw [going]
      exact ⟨⟨rfl, rfl, rfl, rfl, rfl⟩, .inr ⟨rfl,
        rfl, upSent, respRecvd, dnSent, loggedIn, rfl, rfl, resp, cmds, writing, rfl⟩⟩
    · rename_i other _
      cases error : host.respsError (respond host cmd.tag cmd.cmd) with
      | some error => exact ⟨⟨rfl, rfl, rfl, rfl, rfl⟩, .inl rfl⟩
      | none =>
        obtain ⟨resps, writingDn, ok, written⟩ := advanceWritesDn_open { anon with
            cmd := none
            resps := anon.resps ++ respond host cmd.tag cmd.cmd
            loggedOut := anon.loggedOut || cmd.cmd == AnonCmd.logout } valid
        dsimp only
        rw [written]
        show Sat (if anon.e.isSome then _ else _) _ _
        rw [going]
        show Sat (startReadDn _ >>= _) _ _
        rw [startReadDn_open (by exact valid)]
        exact ⟨⟨rfl, rfl, rfl, rfl, rfl⟩, .inl ⟨rfl,
          .idle ⟨cmdRecvd, upSent, respRecvd, dnSent, user, pass, reading, resp, cmds⟩⟩⟩

theorem sendUp_ready (valid : anon.c.invalid = false) (ready : anon.Ready) :
    Sat (anon.sendUp host) (fun result => Aside anon result.1 ∧
      (Left result.1 result.2 ∨
        result.2 = .go ∧ result.1.e = none ∧ ∃ login, result.1.Waiting login))
      (fun _ => False) := by
  obtain ⟨user, sameUser⟩ := Option.isSome_iff_exists.mp ready.user
  obtain ⟨pass, samePass⟩ := Option.isSome_iff_exists.mp ready.pass
  unfold sendUp
  rw [if_neg (by rw [ready.upSent]; decide)]
  unfold writeUp
  dsimp only
  split
  · exact ⟨⟨rfl, rfl, rfl, rfl, rfl⟩, .inl rfl⟩
  · unfold advanceWritesUp
    dsimp only
    rw [if_neg (by rw [ready.writing]; decide), ready.cmds]
    dsimp only [nil_append]
    rw [if_neg (by rw [valid]; decide)]
    show Sat (.ok _) _ _
    refine ⟨⟨rfl, rfl, rfl, rfl, rfl⟩, .inr ⟨?_, ready.e, ?_⟩⟩
    · dsimp only
      rw [ready.e]
      rfl
    · refine ⟨{ ntag := (anon.ntags + 1) % 2 ^ 64, user, pass }, ready.cmdRecvd, rfl,
        ready.respRecvd, ready.dnSent, ready.loggedOut, sameUser, samePass, rfl, rfl, ?_, ?_⟩
      · refine ⟨anon.trace, [], ?_, fun _ mem => nomatch mem⟩
        show anon.trace ++ [.sent ⟨_, anon.user.getD "", anon.pass.getD ""⟩] = _
        rw [sameUser, samePass]
        rfl
      · intro resp received
        exact nomatch received.symm.trans ready.resp

theorem sendDn_received (valid : anon.s.invalid = false) (going : anon.e = none)
    (received : anon.Answered false) :
    Sat (anon.sendDn host) (fun result => Aside anon result.1 ∧
      (Left result.1 result.2 ∨ result.2 = .go ∧ False)) (fun _ => False) := by
  unfold sendDn
  rw [if_neg (by rw [received.dnSent]; decide)]
  unfold writeDn
  dsimp only
  generalize (if anon.loginSuccess = true then
    AnonResp.statusType anon.tag .ok "oh hey, I know you!"
    else .statusType anon.tag .no "nice try, imposter!") = answer
  cases error : host.respsError [answer] with
  | some error => exact ⟨⟨rfl, rfl, rfl, rfl, rfl⟩, .inl rfl⟩
  | none =>
    obtain ⟨resps, writingDn, ok, written⟩ := advanceWritesDn_open { anon with
        writeDnSent := true, tag := none, resps := anon.resps ++ [answer] } valid
    dsimp only
    rw [written]
    show Sat (.ok (_, if anon.e.isSome then Turn.fail else .stop)) _ _
    rw [going]
    exact ⟨⟨rfl, rfl, rfl, rfl, rfl⟩, .inl ⟨rfl, .answered ⟨received.cmdRecvd, received.upSent,
      received.respRecvd, rfl, received.loggedIn, received.reading, received.resp, received.cmds,
      received.success, received.rejected⟩⟩⟩

variable {login : AnonLogin}

theorem LastSent.answer {trace : List AnonTrace} (sent : LastSent trace login) (resp : LoginResp) :
    Answer (trace ++ [.received resp]) login resp := by
  obtain ⟨before, middle, same, none⟩ := sent
  exact ⟨before, middle, by rw [same, append_assoc, cons_append], none⟩

theorem Answer.lastSent {trace : List AnonTrace} {resp : LoginResp}
    (answer : Answer trace login resp) : LastSent trace login := by
  obtain ⟨before, middle, same, none⟩ := answer
  refine ⟨before, middle ++ [.received resp], same, fun other mem => ?_⟩
  rcases mem_append.mp mem with inMiddle | last
  · exact none other inMiddle
  · exact nomatch mem_singleton.mp last

/-- What `process_login_resp` makes of a response. -/
theorem processLoginResp_waiting (waiting : anon.Waiting login) {resp : LoginResp}
    (received : anon.resp = some resp) (going : anon.e = none) :
    Aside anon (anon.processLoginResp resp).1 ∧
      ((anon.processLoginResp resp).1.e.isSome = true ∨
        (anon.processLoginResp resp).1.e = none ∧
          ((anon.processLoginResp resp).2 = true ∧
              { (anon.processLoginResp resp).1 with loginRespRecvd := true }.Answered false ∨
            (anon.processLoginResp resp).2 = false ∧ (anon.processLoginResp resp).1.Waiting login ∧
              (anon.processLoginResp resp).1.resp = none)) := by
  obtain ⟨reading, answer⟩ := waiting.received resp received
  unfold processLoginResp
  dsimp only
  by_cases matched : matchTagged resp "anon".toList anon.ntags = true
  · rw [if_pos matched]
    split
    · rename_i tag capas
      cases checked : checkCapas (.statusType tag .ok capas) with
      | some error => exact ⟨⟨rfl, rfl, rfl, rfl, rfl⟩, .inl rfl⟩
      | none =>
        refine ⟨⟨rfl, rfl, rfl, rfl, rfl⟩, .inr ⟨going, .inl ⟨rfl, waiting.cmdRecvd,
          waiting.upSent, rfl, waiting.dnSent, waiting.loggedIn, reading, rfl, waiting.cmds, ?_, ?_⟩⟩⟩
        · intro _
          exact ⟨login, _, waiting.user, waiting.pass, answer,
            by rw [waiting.ntag]; exact matched, ⟨tag, capas, rfl⟩, checked⟩
        · intro failed
          cases failed
    · exact ⟨⟨rfl, rfl, rfl, rfl, rfl⟩, .inr ⟨going, .inl ⟨rfl, waiting.cmdRecvd,
        waiting.upSent, rfl, waiting.dnSent, waiting.loggedIn, reading, rfl, waiting.cmds,
        (fun success => nomatch success), fun _ => ⟨rfl, rfl⟩⟩⟩⟩
  · rw [if_neg matched]
    split
    · exact ⟨⟨rfl, rfl, rfl, rfl, rfl⟩, .inr ⟨going, .inr ⟨rfl, ⟨waiting.cmdRecvd,
        waiting.upSent, waiting.respRecvd, waiting.dnSent, waiting.loggedIn, waiting.user,
        waiting.pass, waiting.ntag, waiting.cmds, answer.lastSent,
        fun _ none => nomatch none⟩, rfl⟩⟩⟩
    · exact ⟨⟨rfl, rfl, rfl, rfl, rfl⟩, .inl rfl⟩

theorem Waiting.listening (waiting : anon.Waiting login) (resp : anon.resp = none) :
    { anon with readingUp := true }.Waiting login :=
  { waiting with received := fun _ received => nomatch received.symm.trans resp }

/-- The response to the LOGIN is waited for, or read and sent on. -/
theorem recvResp_waiting (server : anon.s.invalid = false) (client : anon.c.invalid = false)
    (going : anon.e = none) (waiting : anon.Waiting login) : Sat (andThen anon.recvResp fun anon =>
        andThen (anon.sendDn host) fun anon => .ok anon.endRound)
      (fun result => Aside anon result.1 ∧ Left result.1 result.2) (fun _ => False) := by
  refine andThen_sat (fun next => next.e = none ∧ next.Answered false) ?_
    fun value aside ⟨still, received⟩ => ?_
  · unfold recvResp
    rw [if_neg (by rw [waiting.respRecvd]; decide)]
    cases received : anon.resp with
    | none =>
      dsimp only
      rw [startReadUp_open client]
      exact ⟨⟨rfl, rfl, rfl, rfl, rfl⟩, .inl ⟨going, .waiting login (waiting.listening received)⟩⟩
    | some resp =>
      dsimp only
      obtain ⟨aside, outcome⟩ := processLoginResp_waiting waiting received going
      generalize anon.processLoginResp resp = processed at aside outcome
      obtain ⟨next, ok⟩ := processed
      dsimp only at aside outcome ⊢
      rcases outcome with failed | ⟨still, ⟨rfl, answered⟩ | ⟨rfl, waiting, none⟩⟩
      · rw [if_pos failed]
        exact ⟨aside, .inl failed⟩
      · rw [if_neg (by rw [still]; decide), if_pos rfl]
        exact ⟨⟨aside.server, aside.client, aside.canceled, aside.called, aside.freed⟩,
          .inr ⟨rfl, still, answered⟩⟩
      · rw [if_neg (by rw [still]; decide), if_neg (by decide),
          startReadUp_open (by rw [aside.client]; exact client)]
        exact ⟨⟨aside.server, aside.client, aside.canceled, aside.called, aside.freed⟩,
          .inl ⟨still, .waiting login (waiting.listening none)⟩⟩
  · refine andThen_sat (fun _ => False) ?_ fun _ _ absurd => absurd.elim
    exact (sendDn_received (by rw [aside.server]; exact server) still received).mono
      fun result left => ⟨aside.trans left.1, left.2⟩

/-- A round that waits for a LOGIN. -/
theorem round_idle (isOpen : anon.Open) (going : anon.e = none) (loggedIn : anon.loggedOut = false)
    (writing : anon.writingUp = false) (idle : anon.Idle) :
    Sat (anon.round host) (fun result => Aside anon result.1 ∧ Left result.1 result.2)
      (fun _ => False) := by
  unfold round
  refine andThen_sat Ready
    (recvCmd_idle isOpen.server going loggedIn writing idle) fun value aside ready => ?_
  refine andThen_sat (fun next => next.e = none ∧ ∃ login, next.Waiting login)
    ((sendUp_ready (by rw [aside.client]; exact isOpen.client) ready).mono
      fun result left => ⟨aside.trans left.1, left.2⟩) fun next further ⟨still, login, waiting⟩ => ?_
  exact (recvResp_waiting (by rw [further.server]; exact isOpen.server)
    (by rw [further.client]; exact isOpen.client) still waiting).mono
      fun result left => ⟨further.trans left.1, left.2⟩

theorem andThen_go (next : Anon → Except String (Anon × Turn)) :
    andThen (.ok (anon, .go)) next = next anon := rfl

/-- The loop of `advance_state`, when everything is written. -/
theorem rounds_sat (isOpen : anon.Open) (going : anon.e = none) (loggedIn : anon.loggedOut = false)
    (writing : anon.writingUp = false) (phase : anon.Phase) :
    Sat (anon.rounds host) (fun result => Aside anon result.1 ∧ Left result.1 result.2)
      (fun _ => False) := by
  unfold rounds
  cases phase with
  | idle idle =>
    refine (round_idle isOpen going loggedIn writing idle).bind fun ⟨value, turn⟩ ⟨aside, left⟩ => ?_
    cases turn with
    | again => exact left.elim
    | go | stop | finish | fail => exact ⟨aside, left⟩
  | waiting login waiting =>
    have skips : anon.round host = andThen anon.recvResp fun anon =>
        andThen (anon.sendDn host) fun anon => .ok anon.endRound := by
      unfold round recvCmd
      rw [if_pos waiting.cmdRecvd, andThen_go]
      unfold sendUp
      rw [if_pos waiting.upSent, andThen_go]
    rw [skips]
    refine (recvResp_waiting isOpen.server isOpen.client going waiting).bind
      fun ⟨value, turn⟩ ⟨aside, left⟩ => ?_
    cases turn with
    | again => exact left.elim
    | go | stop | finish | fail => exact ⟨aside, left⟩
  | answered answered =>
    have skips : anon.round host = .ok anon.endRound := by
      unfold round recvCmd
      rw [if_pos answered.cmdRecvd, andThen_go]
      unfold sendUp
      rw [if_pos answered.upSent, andThen_go]
      unfold recvResp
      rw [if_pos answered.respRecvd, andThen_go]
      unfold sendDn
      rw [if_pos answered.dnSent, andThen_go]
    rw [skips]
    cases success : anon.loginSuccess with
    | true =>
      have last : anon.endRound = (anon.endRound.1, .finish) := by
        unfold endRound
        rw [success]
        rfl
      rw [last]
      exact ⟨⟨rfl, rfl, rfl, rfl, rfl⟩, going, success, answered.success success⟩
    | false =>
      have last : anon.endRound = (anon.endRound.1, .again) := by
        unfold endRound
        rw [success]
        rfl
      obtain ⟨user, pass⟩ := answered.rejected success
      have idle : anon.endRound.1.Idle :=
        ⟨rfl, rfl, rfl, rfl, user, pass, answered.reading, answered.resp, answered.cmds⟩
      have stays : Aside anon anon.endRound.1 := ⟨rfl, rfl, rfl, rfl, rfl⟩
      rw [last]
      have stillOpen : anon.endRound.1.Open :=
        ⟨isOpen.server, isOpen.client, isOpen.uncalled, isOpen.unfreed⟩
      exact (round_idle stillOpen going loggedIn writing idle).mono fun result left => ⟨stays.trans left.1, left.2⟩

/-! ### `advance_state` -/

theorem Sound.failure (sound : anon.Sound) (unfreed : anon.freed = false)
    (failing : anon.failing = true) : anon.failure.Invariant := by
  have path : anon.TeardownPath := by
    unfold Anon.failing at failing
    rcases Bool.or_eq_true_iff.mp failing with canceled | failed
    · exact .inl canceled
    · exact .inr (.inl failed)
  unfold Anon.failure
  dsimp only
  split
  · refine .inr ⟨rfl, path, _, by rw [Anon.finish, sound.uncalled]; rfl, fun none => ?_⟩
    unfold Anon.failing at failing
    dsimp only at none
    cases kept : anon.e with
    | some error =>
      rw [kept] at none
      cases none
    | none =>
      rw [kept] at none failing
      simp only [Option.isSome_none, Bool.or_false] at failing
      rw [if_pos failing] at none
      cases none
  · rename_i both
    refine .inl ⟨unfreed, ⟨fun _ => .inl failing, fun _ => .inl failing,
      fun _ => failing, fun _ => .inl failing, fun _ => .inl failing, sound.uncalled,
      fun kept => (sound.phase kept).like rfl⟩, fun server client => ?_⟩
    exact absurd (Bool.and_eq_true_iff.mpr ⟨server, client⟩) both

theorem Phase.idle_of_loggedOut (phase : anon.Phase) (loggedOut : anon.loggedOut = true) :
    anon.Idle := by
  cases phase with
  | idle idle => exact idle
  | waiting login waiting => exact absurd loggedOut (by rw [waiting.loggedIn]; decide)
  | answered answered => exact absurd loggedOut (by rw [answered.loggedIn]; decide)

section

variable (sound : anon.Sound)

include sound

theorem Sound.logout (unfreed : anon.freed = false) (kept : anon.e = none)
    (loggedOut : anon.loggedOut = true) (writtenUp : anon.WrittenUp) (writtenDn : anon.WrittenDn) :
    anon.logout.Invariant := by
  have idle := (sound.phase kept).idle_of_loggedOut loggedOut
  unfold Anon.logout
  dsimp only
  split
  · exact .inr ⟨rfl, .inr (.inr (.inl loggedOut)), _,
      by rw [Anon.finish, sound.uncalled]; rfl, fun _ => .inl ⟨idle.user, idle.pass⟩⟩
  · rename_i both
    refine .inl ⟨unfreed, ⟨fun _ => .inr ⟨loggedOut, writtenDn⟩,
      fun _ => .inr ⟨loggedOut, writtenUp⟩, sound.serverStopped,
      fun _ => .inr ⟨loggedOut, writtenUp, writtenDn⟩,
      fun _ => .inr ⟨loggedOut, writtenUp, writtenDn⟩, sound.uncalled,
      fun kept => (sound.phase kept).like rfl⟩, fun server client => ?_⟩
    exact absurd (Bool.and_eq_true_iff.mpr ⟨server, client⟩) both

/-- What an unfinished write leaves: the session as it was, with a write under way. -/
theorem advanceWritesUp_sat (unfreed : anon.freed = false) (going : anon.failing = false) :
    Sat anon.advanceWritesUp (fun result => result.1.Sound ∧ result.1.freed = false ∧
      result.1.failing = false ∧ result.1.s = anon.s ∧ result.1.c = anon.c ∧
      (result.2 = true → result.1.WrittenUp) ∧
      (anon.WrittenUp → result.1 = anon ∧ result.2 = true)) (fun _ => False) := by
  have kept : anon.e = none := by
    unfold failing at going
    simpa using (Bool.or_eq_false_iff.mp going).2
  unfold advanceWritesUp
  cases writing : anon.writingUp with
  | true =>
    refine ⟨sound, unfreed, going, rfl, rfl, (fun done => nomatch done), fun written => ?_⟩
    exact absurd written.1 (by rw [writing]; decide)
  | false =>
    have none : anon.cmds = [] := by
      cases sound.phase kept with
      | idle idle => exact idle.cmds
      | waiting login waiting => exact waiting.cmds
      | answered answered => exact answered.cmds
    rw [none]
    exact ⟨sound, unfreed, going, rfl, rfl, fun _ => ⟨writing, none⟩, fun _ => ⟨rfl, rfl⟩⟩

theorem Sound.writable (going : anon.failing = false) (unwritten : ¬ anon.WrittenDn) :
    anon.s.invalid = false := by
  have clear {flag : Bool} {rest : Prop}
      (implies : flag = true → anon.failing = true ∨ rest) (not : ¬ rest) : flag = false := by
    cases flag with
    | false => rfl
    | true => exact absurd (implies rfl) (by rw [going]; exact fun either => not (by simpa using either))
  unfold ImapServer.invalid
  rw [clear sound.server fun both => unwritten both.2,
    clear (fun flag => .inl (sound.serverStopped (.inl flag))) not_false,
    clear (fun flag => .inl (sound.serverStopped (.inr flag))) not_false,
    clear sound.serverLoggedOut fun both => unwritten both.2.2]
  rfl

theorem advanceWritesDn_sat (unfreed : anon.freed = false) (going : anon.failing = false) :
    Sat anon.advanceWritesDn (fun result => result.1.Sound ∧ result.1.freed = false ∧
      result.1.failing = false ∧ result.1.s = anon.s ∧ result.1.c = anon.c ∧
      (result.2 = true → result.1 = anon ∧ anon.WrittenDn) ∧
      (anon.WrittenDn → result.2 = true)) (fun _ => False) := by
  unfold advanceWritesDn
  cases writing : anon.writingDn with
  | true =>
    refine ⟨sound, unfreed, going, rfl, rfl, (fun done => nomatch done), fun written => ?_⟩
    exact absurd written.1 (by rw [writing]; decide)
  | false =>
    cases waiting : anon.resps with
    | nil => exact ⟨sound, unfreed, going, rfl, rfl, fun _ => ⟨rfl, writing, waiting⟩, fun _ => rfl⟩
    | cons resp rest =>
      have unwritten : ¬ anon.WrittenDn := fun written => nomatch waiting.symm.trans written.2
      have valid := sound.writable going unwritten
      dsimp only
      rw [if_neg (by decide), if_neg (by rw [valid]; decide)]
      have flags := valid
      unfold ImapServer.invalid at flags
      simp only [Bool.or_eq_false_iff] at flags
      refine ⟨⟨fun flag => ?_, sound.client, sound.serverStopped, fun flag => ?_, fun flag => ?_,
        sound.uncalled, fun kept => (sound.phase kept).like rfl⟩,
        unfreed, going, rfl, rfl, (fun done => nomatch done),
        fun written => absurd written unwritten⟩
      · exact absurd flag (by rw [flags.1.1.1]; decide)
      · exact absurd flag (by rw [flags.2]; decide)
      · rcases sound.clientStopped flag with failed | ⟨_, _, written⟩
        · exact .inl failed
        · exact absurd written unwritten

end

theorem Aside.isOpen (aside : Aside anon after) (isOpen : anon.Open) : after.Open :=
  ⟨by rw [aside.server]; exact isOpen.server, by rw [aside.client]; exact isOpen.client,
    aside.called.trans isOpen.uncalled, aside.freed.trans isOpen.unfreed⟩

theorem Open.invariant (isOpen : anon.Open) (phase : anon.e = none → anon.Phase) : anon.Invariant :=
  .inl ⟨isOpen.unfreed, isOpen.sound phase, fun server client => by
    have both := isOpen.awaited
    rw [bothAwaited, server, client] at both
    cases both⟩

/-- The end of `advance_state` after the loop. -/
theorem conclude_invariant (isOpen : anon.Open) {turn : Turn} (left : anon.Left turn) :
    (anon.conclude turn).Invariant := by
  cases turn with
  | go | again => exact left.elim
  | stop => exact isOpen.invariant fun _ => left.2
  | fail =>
    have failing : anon.failing = true := by
      unfold failing
      rw [show anon.e.isSome = true from left, Bool.or_true]
    refine (isOpen.sound fun kept => ?_).failure isOpen.unfreed failing
    exact absurd (show anon.e.isSome = true from left) (by rw [kept]; decide)
  | finish =>
    obtain ⟨kept, done, login, resp, user, pass, answer, accepts⟩ := left
    exact .inr ⟨rfl, .inr (.inr (.inr done)), _,
      by rw [conclude, finish, isOpen.uncalled]; rfl,
      fun _ => .inr ⟨login, resp, user, pass, answer, accepts⟩⟩

theorem advanceState_sat (sound : anon.Sound) (unfreed : anon.freed = false) :
    Sat (anon.advanceState host) Invariant (fun _ => False) := by
  unfold advanceState
  cases going : anon.failing with
  | true => exact sound.failure unfreed going
  | false =>
    -- both connections can have ended only if everything is written
    have ended (server : anon.s.awaited = true) (client : anon.c.awaited = true) :
        anon.WrittenUp ∧ anon.WrittenDn := by
      have first := (sound.server server).resolve_left (by rw [going]; decide)
      have second := (sound.client client).resolve_left (by rw [going]; decide)
      exact ⟨second.2, first.2⟩
    rw [if_neg (by decide)]
    refine (advanceWritesUp_sat sound unfreed going).bind
      fun ⟨up, okUp⟩ ⟨upSound, upUnfreed, upGoing, upServer, upClient, upDone, upSame⟩ => ?_
    refine (advanceWritesDn_sat upSound upUnfreed upGoing).bind
      fun ⟨dn, okDn⟩ ⟨dnSound, dnUnfreed, dnGoing, dnServer, dnClient, dnDone, dnSame⟩ => ?_
    dsimp only at upSound upUnfreed upGoing upServer upClient upDone upSame
    dsimp only at dnSound dnUnfreed dnGoing dnServer dnClient dnDone dnSame
    dsimp only
    by_cases both : okUp = true ∧ okDn = true
    · obtain ⟨rfl, rfl⟩ := both
      obtain ⟨rfl, writtenDn⟩ := dnDone rfl
      have writtenUp := upDone rfl
      have kept : dn.e = none := by
        simpa using (Bool.or_eq_false_iff.mp dnGoing).2
      rw [if_neg (by decide)]
      cases loggedOut : dn.loggedOut with
      | true => exact dnSound.logout dnUnfreed kept loggedOut writtenUp writtenDn
      | false =>
        have isOpen := dnSound.isOpen dnUnfreed dnGoing loggedOut
        rw [if_neg (by decide)]
        refine (rounds_sat isOpen kept loggedOut writtenUp.1 (dnSound.phase kept)).bind
          fun ⟨last, turn⟩ ⟨aside, left⟩ => ?_
        exact conclude_invariant (aside.isOpen isOpen) left
    · have unfinished : (!okUp || !okDn) = true := by
        cases okUp <;> cases okDn <;> first | rfl | exact absurd ⟨rfl, rfl⟩ both
      rw [if_pos unfinished]
      refine .inl ⟨dnUnfreed, dnSound, fun server client => ?_⟩
      rw [dnServer, upServer] at server
      rw [dnClient, upClient] at client
      obtain ⟨writtenUp, writtenDn⟩ := ended server client
      obtain ⟨rfl, ok⟩ := upSame writtenUp
      exact absurd ⟨ok, dnSame writtenDn⟩ both

theorem Sound.unscheduled (sound : anon.Sound) : Sound { anon with scheduled := false } :=
  ⟨sound.server, sound.client, sound.serverStopped, sound.serverLoggedOut, sound.clientStopped,
    sound.uncalled, fun kept => (sound.phase kept).like rfl⟩

/-! ### Runs -/

/-- A connection that ends without an error does so while the session is torn down, with nothing
left to write to it. -/
def EndsInTurn (anon : Anon) : AnonEvent → Prop
  | .sawait ending => (anon.sawaitError ending).isSome = true ∨ anon.failing = true ∨
      anon.loggedOut = true ∧ anon.writingDn = false ∧ anon.resps = []
  | .cawait ending => (anon.cawaitError ending).isSome = true ∨ anon.failing = true ∨
      anon.loggedOut = true ∧ anon.writingUp = false ∧ anon.cmds = []
  | _ => True

instance EndsInTurn.decidable (anon : Anon) (event : AnonEvent) :
    Decidable (anon.EndsInTurn event) := by
  cases event <;> unfold EndsInTurn <;> infer_instance

theorem failing_of_error {error other : Option Derr}
    (either : other.isSome = true ∨ (anon.canceled || error.isSome) = true) :
    (anon.canceled || (error.or other).isSome) = true := by
  cases error with
  | some error => rw [Option.some_or, Option.isSome_some, Bool.or_true]
  | none =>
    rw [Option.none_or]
    rcases either with some | canceled
    · rw [some, Bool.or_true]
    · rw [Option.isSome_none, Bool.or_false] at canceled
      rw [canceled, Bool.true_or]

/-- A callback that only wakes the session up. -/
theorem Sound.wake (sound : anon.Sound) (unfreed : after.freed = false)
    (server : after.s = anon.s) (client : after.c = anon.c)
    (fails : anon.failing = true → after.failing = true)
    (loggedOut : after.loggedOut = anon.loggedOut)
    (writtenUp : anon.WrittenUp → after.WrittenUp) (writtenDn : anon.WrittenDn → after.WrittenDn)
    (uncalled : after.called = anon.called) (scheduled : after.scheduled = true)
    (phase : after.e = none → after.Phase) : after.Invariant := by
  refine .inl ⟨unfreed, ⟨fun flag => ?_, fun flag => ?_, fun flag => ?_, fun flag => ?_,
    fun flag => ?_, uncalled.trans sound.uncalled, phase⟩, fun _ _ => scheduled⟩
  · rw [server] at flag
    rw [loggedOut]
    exact (sound.server flag).imp fails fun both => ⟨both.1, writtenDn both.2⟩
  · rw [client] at flag
    rw [loggedOut]
    exact (sound.client flag).imp fails fun both => ⟨both.1, writtenUp both.2⟩
  · rw [server] at flag
    exact fails (sound.serverStopped flag)
  · rw [server] at flag
    rw [loggedOut]
    exact (sound.serverLoggedOut flag).imp fails fun both =>
      ⟨both.1, writtenUp both.2.1, writtenDn both.2.2⟩
  · rw [client] at flag
    rw [loggedOut]
    exact (sound.clientStopped flag).imp fails fun both =>
      ⟨both.1, writtenUp both.2.1, writtenDn both.2.2⟩

theorem Phase.creadCb (phase : anon.Phase) (reading : anon.readingUp = true) (resp : LoginResp) :
    (anon.creadCb resp).Phase := by
  cases phase with
  | idle idle => exact absurd reading (by rw [idle.reading]; decide)
  | waiting login waiting =>
    refine .waiting login ⟨waiting.cmdRecvd, waiting.upSent, waiting.respRecvd, waiting.dnSent,
      waiting.loggedIn, waiting.user, waiting.pass, waiting.ntag, waiting.cmds,
      (waiting.sent.answer resp).lastSent, fun read same => ⟨rfl, ?_⟩⟩
    rw [← Option.some.inj same]
    exact waiting.sent.answer resp
  | answered answered => exact absurd reading (by rw [answered.reading]; decide)

theorem sawaitCb_invariant (sound : anon.Sound) (unfreed : anon.freed = false)
    {ending : Ending} (inTurn : anon.EndsInTurn (.sawait ending)) :
    (anon.sawaitCb ending).Invariant := by
  have fails : anon.failing = true → (anon.sawaitCb ending).failing = true :=
    fun failing => failing_of_error (.inr failing)
  have kept (clean : (anon.sawaitCb ending).e = none) : anon.e = none :=
    (Option.or_eq_none_iff.mp clean).1
  refine .inl ⟨unfreed, ⟨fun _ => ?_, fun flag => (sound.client flag).imp_left fails,
    fun flag => fails (sound.serverStopped flag),
    fun flag => (sound.serverLoggedOut flag).imp_left fails,
    fun flag => (sound.clientStopped flag).imp_left fails, sound.uncalled,
    fun clean => (sound.phase (kept clean)).like rfl⟩, fun _ _ => rfl⟩
  rcases inTurn with error | failing | ⟨loggedOut, writing, resps⟩
  · exact .inl (failing_of_error (.inl error))
  · exact .inl (fails failing)
  · exact .inr ⟨loggedOut, writing, resps⟩

theorem cawaitCb_invariant (sound : anon.Sound) (unfreed : anon.freed = false)
    {ending : Ending} (inTurn : anon.EndsInTurn (.cawait ending)) :
    (anon.cawaitCb ending).Invariant := by
  have fails : anon.failing = true → (anon.cawaitCb ending).failing = true :=
    fun failing => failing_of_error (.inr failing)
  have kept (clean : (anon.cawaitCb ending).e = none) : anon.e = none :=
    (Option.or_eq_none_iff.mp clean).1
  refine .inl ⟨unfreed, ⟨fun flag => (sound.server flag).imp_left fails, fun _ => ?_,
    fun flag => fails (sound.serverStopped flag),
    fun flag => (sound.serverLoggedOut flag).imp_left fails,
    fun flag => (sound.clientStopped flag).imp_left fails, sound.uncalled,
    fun clean => (sound.phase (kept clean)).like rfl⟩, fun _ _ => rfl⟩
  rcases inTurn with error | failing | ⟨loggedOut, writing, cmds⟩
  · exact .inl (failing_of_error (.inl error))
  · exact .inl (fails failing)
  · exact .inr ⟨loggedOut, writing, cmds⟩

theorem step_invariant (invariant : anon.Invariant) {event : AnonEvent}
    (inTurn : anon.EndsInTurn event) : Sat (anon.step host event) Invariant (fun _ => False) := by
  unfold step
  rcases invariant with ⟨unfreed, sound, waked⟩ | ⟨freed, ended⟩
  · rw [if_neg (by rw [unfreed]; decide)]
    have still : anon.Invariant := .inl ⟨unfreed, sound, waked⟩
    cases event with
    | sread cmd =>
      dsimp only
      split
      · exact sound.wake unfreed rfl rfl id rfl id id rfl rfl fun kept => (sound.phase kept).like rfl
      · exact still
    | cread resp =>
      dsimp only
      split
      · rename_i reading
        exact sound.wake unfreed rfl rfl id rfl id id rfl rfl fun kept =>
          (sound.phase kept).creadCb (Bool.and_eq_true_iff.mp reading).1 resp
      · exact still
    | swrite =>
      dsimp only
      split
      · exact sound.wake unfreed rfl rfl id rfl id (fun written => ⟨rfl, written.2⟩) rfl rfl
          fun kept => (sound.phase kept).like rfl
      · exact still
    | cwrite =>
      dsimp only
      split
      · exact sound.wake unfreed rfl rfl id rfl (fun written => ⟨rfl, written.2⟩) id rfl rfl
          fun kept => (sound.phase kept).like rfl
      · exact still
    | sawait ending =>
      dsimp only
      split
      · exact still
      · exact sawaitCb_invariant sound unfreed inTurn
    | cawait ending =>
      dsimp only
      split
      · exact still
      · exact cawaitCb_invariant sound unfreed inTurn
    | cancel =>
      exact sound.wake unfreed rfl rfl (fun _ => rfl) rfl id id rfl rfl
        fun kept => (sound.phase kept).like rfl
    | run =>
      dsimp only
      split
      · exact advanceState_sat sound.unscheduled unfreed
      · exact still
  · rw [if_pos freed]
    exact .inr ⟨freed, ended⟩

/-! ### The end of a session -/

/-- What is asked of every state of a session: it is on its way to the callback once one of its
connections has ended, the callback is called at most once, it is called in the next turn of the
session once both have ended, and it is given only credentials that the server has accepted. -/
structure Settles (host : AnonHost) (anon : Anon) : Prop where
  path : anon.s.awaited = true ∨ anon.c.awaited = true → anon.TeardownPath
  once : anon.called.length ≤ 1
  comes : anon.s.awaited = true → anon.c.awaited = true → anon.called = [] →
    anon.scheduled = true ∧ ∃ after, anon.step host .run = .ok after ∧ after.called.length = 1
  credentials : ∀ result ∈ anon.called, Credentials anon.trace result

/-- With both connections ended, `advance_state` comes to its end. -/
theorem Sound.advanceState_comes (sound : anon.Sound) (server : anon.s.awaited = true)
    (client : anon.c.awaited = true) :
    ∃ after, anon.advanceState host = .ok after ∧ after.called.length = 1 := by
  have both : anon.bothAwaited = true := Bool.and_eq_true_iff.mpr ⟨server, client⟩
  have called (last : Anon) (same : last.called = anon.called) :
      (last.finish false).called.length = 1 := by
    unfold finish
    rw [same, sound.uncalled]
    rfl
  unfold advanceState
  cases going : anon.failing with
  | true =>
    refine ⟨_, rfl, ?_⟩
    unfold Anon.failure
    dsimp only
    split
    · exact called _ rfl
    · rename_i single
      exact absurd both single
  | false =>
    obtain ⟨loggedOut, writingDn, resps⟩ :=
      (sound.server server).resolve_left (by rw [going]; decide)
    obtain ⟨_, writingUp, cmds⟩ := (sound.client client).resolve_left (by rw [going]; decide)
    have up : anon.advanceWritesUp = .ok (anon, true) := by
      unfold advanceWritesUp
      rw [writingUp, cmds]
      rfl
    have dn : anon.advanceWritesDn = .ok (anon, true) := by
      unfold advanceWritesDn
      rw [writingDn, resps]
      rfl
    refine ⟨anon.logout, ?_, ?_⟩
    · rw [if_neg (by decide), up]
      show (anon.advanceWritesDn >>= _) = _
      rw [dn]
      show (if anon.loggedOut = true then _ else _) = _
      rw [if_pos loggedOut]
      rfl
    · unfold Anon.logout
      dsimp only
      split
      · exact called _ rfl
      · rename_i single
        exact absurd both single

theorem Invariant.settles (invariant : anon.Invariant) : anon.Settles host := by
  rcases invariant with ⟨unfreed, sound, waked⟩ | ⟨freed, path, result, called, credentials⟩
  · refine ⟨fun either => ?_, by rw [sound.uncalled]; decide, fun server client _ => ?_,
      fun result mem => by rw [sound.uncalled] at mem; cases mem⟩
    · have failed (failing : anon.failing = true) : anon.TeardownPath := by
        rcases Bool.or_eq_true_iff.mp failing with canceled | error
        · exact .inl canceled
        · exact .inr (.inl error)
      rcases either with server | client
      · exact (sound.server server).elim failed fun both => .inr (.inr (.inl both.1))
      · exact (sound.client client).elim failed fun both => .inr (.inr (.inl both.1))
    · have scheduled := waked server client
      refine ⟨scheduled, ?_⟩
      have turn : anon.step host .run = { anon with scheduled := false }.advanceState host := by
        unfold step
        rw [if_neg (by rw [unfreed]; decide)]
        exact if_pos scheduled
      rw [turn]
      exact sound.unscheduled.advanceState_comes server client
  · refine ⟨fun _ => path, by rw [called]; exact le_rfl, fun _ _ uncalled => ?_, fun other mem => ?_⟩
    · rw [called] at uncalled
      cases uncalled
    · rw [called] at mem
      rw [mem_singleton.mp mem]
      exact credentials

theorem initial_invariant : Invariant {} :=
  .inl ⟨rfl, Open.sound ⟨rfl, rfl, rfl, rfl⟩
    fun _ => .idle ⟨rfl, rfl, rfl, rfl, rfl, rfl, rfl, rfl, rfl⟩, fun server => nomatch server⟩

/-- As long as the connections end in turn, every session comes to its end, and nothing is read from
or written to a connection that has ended. -/
theorem login_settles (host : AnonHost) (events : List AnonEvent)
    (inTurn : Run.Guarded (step host) EndsInTurn {} events) :
    Sat (Run.run (step host) {} events) (Settles host) (fun _ => False) :=
  (Run.Guarded.sat (fun _ _ invariant inTurn => step_invariant invariant inTurn)
    initial_invariant inTurn).mono fun _ invariant => invariant.settles

/-- A LOGOUT after a LOGIN that was rejected. -/
theorem login_settles_logout :
    Sat (Run.run (step ⟨fun _ => none, fun _ => none, true⟩) {}
      [.run, .sread ⟨some "a", .login "user" "wrong"⟩, .run, .cwrite,
        .cread (.statusType (some ['a', 'n', 'o', 'n', '1']) .no none), .run, .swrite, .run,
        .sread ⟨some "b", .logout⟩, .run, .swrite, .run, .swrite, .run, .sawait .ok, .run,
        .cawait .canceled, .run])
      (Settles ⟨fun _ => none, fun _ => none, true⟩) (fun _ => False) :=
  login_settles _ _ (by decide +kernel)

/-- The server answers a LOGOUT itself, before STARTTLS, and ends without an error. The session is
not torn down, and the callback is not called although both connections have ended; if the session
has not had its first turn yet, this turn reads from the connection that has ended. -/
theorem logout_before_starttls :
    (∃ anon, Run.run (step ⟨fun _ => none, fun _ => none, false⟩) {} [.run, .sawait .ok] = .ok anon ∧
        anon.s.awaited = true ∧ ¬ anon.TeardownPath) ∧
      (∃ anon, Run.run (step ⟨fun _ => none, fun _ => none, false⟩) {}
          [.run, .sawait .ok, .cawait .ok, .run] = .ok anon ∧
        anon.called = [] ∧ anon.scheduled = false) ∧
      Run.run (step ⟨fun _ => none, fun _ => none, false⟩) {} [.sawait .ok, .run] =
        .error "imap_server_read failed\n" := by
  refine ⟨⟨_, rfl, rfl, fun path => ?_⟩, ⟨_, rfl, rfl, rfl⟩, rfl⟩
  rcases path with flag | flag | flag | flag <;> cases flag

end Anon

end Splintermail
