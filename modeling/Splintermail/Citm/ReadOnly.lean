/-
This file is about mailboxes that were opened with EXAMINE: a `dn_t` of such a mailbox
must not make any request that changes flags or expunges messages.

STORE and EXPUNGE are refused by the `dn_t`, and every other command but two makes no such
request. A FETCH that is no peek asks for the `\Seen` flag of the unseen messages that it
names, and a CLOSE asks for the expunge of the messages with the `\Deleted` flag, also
when the mailbox is read-only.
-/

import Splintermail.Citm.Sc
import Splintermail.Imaildir.Reply

namespace Splintermail

open List

open Outcome (Sat)

/-! ### Requests that write -/

/-- The request changes flags or expunges messages. -/
def UpdateReq.writes : UpdateReq → Bool
  | .store _ _ _ => true
  | .expunge _ => true
  | .copy _ _ => false

/-- There is no such request. -/
def Called.Reads (called : Called) : Prop := ∀ req ∈ called.requests, req.writes = false

theorem Called.reads_of_nil {called : Called} (none : called.requests = []) : called.Reads := by
  intro req mem
  rw [none] at mem
  cases mem

namespace Conn

variable (conn : Conn) (tagp : Option String) (answers : Answers)

/-- The messages that a call for a FETCH would set the `\Seen` flag of. -/
def marks (args : FetchArgs) : List MsgKey :=
  match conn.dn.command with
  | some (.fetch _) => []
  | _ =>
    match conn.canonicalUids args.uidMode args.seqSet with
    | .ok (some uidsDn) => conn.fetchMarks args uidsDn
    | _ => []

/-- The messages that a call for a disconnect would expunge. -/
def doomed : List MsgKey :=
  match conn.dn.command with
  | some (.disconnect _) => []
  | _ => conn.getMsgKeysToExpunge

/-- A call without requests. -/
def Silent (outcome : Except Derr Called) : Prop :=
  Sat outcome (fun called => called.requests = []) (fun _ => True)

theorem Silent.reads {outcome : Except Derr Called} (silent : Silent outcome) :
    Sat outcome Called.Reads (fun _ => True) :=
  silent.mono fun _ none => Called.reads_of_nil none

theorem healthcheck_bind {good : Called → Prop} {next : Except Derr Called}
    (sat : Sat next good (fun _ => True)) :
    Sat (conn.healthcheck >>= fun _ => next) good (fun _ => True) :=
  conn.healthcheck_sat.bind fun _ _ => sat

/-- A command that gathers updates and is done at once. -/
theorem gatherFinish_silent (allowExpunge uidMode : Bool) (text : String)
    (before : List DnResponse) : Silent (do
      let (conn, responses, freed) ← conn.gatherUpdates allowExpunge uidMode
      return conn.finish tagp .ok text (before ++ responses) freed) :=
  (outcome_sat _).bind fun _ _ => rfl

theorem finishWait_silent (uidMode : Bool) (text : String) :
    Silent (conn.finishWait tagp uidMode text) :=
  (outcome_sat _).bind fun _ _ => (outcome_sat _).bind fun _ _ => rfl

/-! ### The commands of a read-only connection -/

theorem select_silent : Silent (conn.select tagp answers) := by
  refine conn.healthcheck_bind ?_
  cases answers.selectStatus with
  | none => exact rfl
  | some status =>
    cases status with
    | no => exact rfl
    | bad => exact rfl
    | ok =>
      cases answers.synced with
      | false => exact rfl
      | true => exact (outcome_sat (conn.selectResponses tagp answers)).bind fun _ _ => rfl

theorem search_silent (args : SearchArgs) : Silent (conn.search tagp args) := by
  refine conn.healthcheck_bind ?_
  cases conn.dn.views.getLast? with
  | none => exact rfl
  | some last =>
    refine (outcome_sat _).bind fun _ _ => ?_
    refine (outcome_sat _).bind fun nums _ => ?_
    exact conn.gatherFinish_silent tagp args.uidMode args.uidMode "too easy!" [.search nums]

theorem store_silent (readOnly : conn.dn.examine = true) (args : StoreArgs) :
    Silent (conn.store tagp answers args) := by
  have refused : Silent (.ok (conn.beginStore tagp answers args)) := by
    unfold beginStore
    rw [readOnly]
    exact rfl
  refine conn.healthcheck_bind ?_
  cases conn.dn.command with
  | none => exact refused
  | some command =>
    cases command with
    | store cmd =>
      dsimp only
      cases cmd.synced with
      | false => exact rfl
      | true => exact (outcome_sat _).bind fun _ _ => (outcome_sat _).bind fun _ _ => rfl
    | _ => exact refused

theorem expunge_silent (readOnly : conn.dn.examine = true) :
    Silent (conn.expunge tagp answers) := by
  have refused : Silent (conn.beginExpunge tagp answers) := by
    unfold beginExpunge
    rw [readOnly]
    exact rfl
  refine conn.healthcheck_bind ?_
  cases conn.dn.command with
  | none => exact refused
  | some command =>
    cases command with
    | expunge cmd =>
      dsimp only
      cases cmd.synced with
      | false => exact rfl
      | true => exact conn.finishWait_silent tagp _ _
    | _ => exact refused

theorem copy_reads (args : CopyArgs) :
    Sat (conn.copy tagp answers args) Called.Reads (fun _ => True) := by
  have begins : Sat (conn.beginCopy tagp answers args) Called.Reads (fun _ => True) := by
    refine (outcome_sat (conn.canonicalUids args.uidMode args.seqSet)).bind fun uids _ => ?_
    cases uids with
    | none => exact Called.reads_of_nil rfl
    | some uids =>
      cases uids with
      | nil => exact (conn.gatherFinish_silent tagp true args.uidMode "noop COPY command" []).reads
      | cons uidDn rest =>
        intro req mem
        have same : req = .copy (conn.uidsDnToMsgKeys (uidDn :: rest)) args.mailbox :=
          mem_singleton.mp mem
        rw [same]
        rfl
  refine conn.healthcheck_bind ?_
  cases conn.dn.command with
  | none => exact begins
  | some command =>
    cases command with
    | copy cmd =>
      dsimp only
      cases cmd.synced with
      | false => exact Called.reads_of_nil rfl
      | true => exact (conn.finishWait_silent tagp _ _).reads
    | _ => exact begins

theorem fetchReady_silent : Silent (conn.fetchReady tagp answers) := by
  unfold fetchReady
  cases conn.dn.command with
  | none => exact rfl
  | some command =>
    cases command with
    | fetch cmd =>
      dsimp only
      cases cmd.ready with
      | none => exact rfl
      | some gather =>
        show Silent (conn.fetchRespond tagp answers cmd gather)
        unfold fetchRespond
        cases cmd.uidsDn with
        | nil => exact (outcome_sat _).bind fun _ _ => rfl
        | cons uidDn rest =>
          exact (outcome_sat _).bind fun _ _ => (outcome_sat _).bind fun _ _ => rfl
    | _ => exact rfl

theorem fetchPostSync_silent (cmd : FetchCmd) : Silent (conn.fetchPostSync tagp cmd) := by
  refine (outcome_sat (gatherUpdatesDontSend conn.dn cmd.uidMode true)).bind ?_
  rintro ⟨dn, gather, resp⟩ _
  cases resp with
  | none => exact rfl
  | some resp => exact (outcome_sat _).bind fun _ _ => rfl

theorem fetchSynced_silent : Silent (conn.fetchSynced tagp answers) := by
  unfold fetchSynced
  cases conn.dn.command with
  | none => exact rfl
  | some command =>
    cases command with
    | fetch cmd =>
      dsimp only
      cases (cmd.synced && !cmd.syncProcessed) with
      | false => exact conn.fetchReady_silent tagp answers
      | true =>
        rw [if_pos rfl]
        refine (conn.fetchPostSync_silent tagp cmd).bind fun called silent => ?_
        cases called.ok with
        | true => exact silent
        | false => exact called.conn.fetchReady_silent called.tagp answers
    | _ => exact rfl

theorem beginFetch_silent (args : FetchArgs) (unmarked : conn.marks args = [])
    (fresh : ∀ cmd, conn.dn.command ≠ some (.fetch cmd)) :
    Silent (conn.beginFetch tagp answers args) := by
  have free : ∀ uidsDn, conn.canonicalUids args.uidMode args.seqSet = .ok (some uidsDn) →
      conn.fetchMarks args uidsDn = [] := by
    intro uidsDn found
    unfold marks at unmarked
    rw [found] at unmarked
    cases current : conn.dn.command with
    | none =>
      rw [current] at unmarked
      exact unmarked
    | some command =>
      rw [current] at unmarked
      cases command with
      | fetch cmd => exact absurd current (fresh cmd)
      | _ => exact unmarked
  unfold beginFetch
  cases found : conn.canonicalUids args.uidMode args.seqSet with
  | error error => exact trivial
  | ok uids =>
    cases uids with
    | none => exact rfl
    | some uidsDn =>
      show Silent (conn.fetchRequest tagp answers args uidsDn)
      unfold fetchRequest
      dsimp only
      rw [if_pos (free uidsDn found)]
      exact (outcome_sat _).bind fun _ _ => rfl

/-- What follows the start of a FETCH makes no request either. -/
theorem silent_synced {args : FetchArgs} (silent : Silent (conn.beginFetch tagp answers args)) :
    Silent (do
      let begun ← conn.beginFetch tagp answers args
      if begun.ok || begun.error.isSome then return begun
      else
        match begun.conn.fetchSynced begun.tagp answers with
        | .ok called => return { called with requests := begun.requests }
        | .error error => return { begun with error := some error }) := by
  refine silent.bind fun begun silent => ?_
  cases begun.ok || begun.error.isSome with
  | true => exact silent
  | false =>
    rw [if_neg (by decide)]
    cases begun.conn.fetchSynced begun.tagp answers <;> exact silent

theorem fetch_silent (args : FetchArgs) (unmarked : conn.marks args = []) :
    Silent (conn.fetch tagp answers args) := by
  refine conn.healthcheck_bind ?_
  cases current : conn.dn.command with
  | none =>
    exact conn.silent_synced tagp answers (conn.beginFetch_silent tagp answers args unmarked
      fun cmd same => by cases current.symm.trans same)
  | some command =>
    cases command with
    | fetch cmd => exact conn.fetchSynced_silent tagp answers
    | _ =>
      exact conn.silent_synced tagp answers (conn.beginFetch_silent tagp answers args unmarked
        fun cmd same => by cases current.symm.trans same)

theorem idle_silent : Silent (conn.idle tagp) :=
  conn.healthcheck_bind ((outcome_sat _).bind fun _ _ => rfl)

theorem idleDone_silent (errmsg : Option String) : Silent (conn.idleDone tagp errmsg) := by
  refine conn.healthcheck_bind ?_
  cases conn.idleTag with
  | none => exact trivial
  | some tag =>
    cases errmsg with
    | some errmsg => exact rfl
    | none => exact (outcome_sat (conn.gatherUpdates true false)).bind fun _ _ => rfl

/-- A disconnect makes no request if it is not to expunge anything. -/
theorem disconnect_silent (expunge : Bool) (nothing : expunge = true → conn.doomed = []) :
    Silent (conn.disconnect tagp answers expunge) := by
  have begins : (∀ cmd, conn.dn.command ≠ some (.disconnect cmd)) →
      Silent (conn.beginDisconnect tagp answers expunge) := by
    intro fresh
    unfold beginDisconnect
    cases expunge with
    | false => exact rfl
    | true =>
      have none : conn.getMsgKeysToExpunge = [] := by
        have free := nothing rfl
        unfold doomed at free
        cases current : conn.dn.command with
        | none =>
          rw [current] at free
          exact free
        | some command =>
          rw [current] at free
          cases command with
          | disconnect cmd => exact absurd current (fresh cmd)
          | _ => exact free
      rw [if_neg (by decide), if_pos none]
      exact rfl
  refine conn.healthcheck_bind ?_
  cases current : conn.dn.command with
  | none => exact begins fun cmd same => nomatch current.symm.trans same
  | some command =>
    cases command with
    | disconnect cmd =>
      dsimp only
      cases cmd.synced with
      | false => exact rfl
      | true => exact (outcome_sat (disconnectFinish conn.dn)).bind fun _ _ => rfl
    | _ => exact begins fun cmd same => by cases current.symm.trans same

end Conn

/-! ### Sessions -/

namespace Sc

variable {sc : Sc}

/-- No request that writes was made for a mailbox that was opened with EXAMINE. -/
def Clean (sc : Sc) : Prop :=
  ∀ entry ∈ sc.submitted, entry.1 = true → entry.2.writes = false

theorem useDn_clean (clean : sc.Clean) {called : Except Derr Called}
    (reads : sc.examining = true → Sat called Called.Reads (fun _ => True)) :
    (sc.useDn called).1.Clean := by
  cases called with
  | error error => exact clean
  | ok called =>
    have added : ∀ entry ∈ sc.submitted ++ called.requests.map (sc.examining, ·),
        entry.1 = true → entry.2.writes = false := by
      intro entry mem examining
      rcases mem_append.mp mem with old | new
      · exact clean entry old examining
      · obtain ⟨req, made, rfl⟩ := mem_map.mp new
        exact reads examining req made
    unfold useDn
    dsimp only
    cases called.error <;> exact added

theorem examine_of_examining {conn : Conn} (current : sc.conn = some conn)
    (examining : sc.examining = true) : conn.dn.examine = true := by
  unfold Sc.examining at examining
  rw [current] at examining
  exact examining

section

variable (clean : sc.Clean)

include clean

theorem gatherUpdates_clean : sc.gatherUpdates.Clean := by
  unfold gatherUpdates
  cases sc.conn with
  | none => exact clean
  | some conn =>
    dsimp only
    cases conn.gatherUpdates true false <;> exact clean

theorem andThen_clean {next : Sc → Sc × Bool} (kept : (next sc).1.Clean) :
    (sc.andThen next).1.Clean := by
  unfold andThen
  cases sc.failed with
  | true => exact clean
  | false => exact kept

theorem disconnectUp_clean (answers : ScAnswers) : (sc.disconnectUp answers).1.Clean := by
  unfold disconnectUp
  cases sc.upActive && !answers.unselected <;> exact clean

theorem advanceDisconnect_clean (answers : ScAnswers) (expunge : Bool)
    (nothing : expunge = true → sc.examining = true → ∀ conn ∈ sc.conn, conn.doomed = []) :
    (sc.advanceDisconnect answers expunge).1.Clean := by
  unfold advanceDisconnect
  cases current : sc.conn with
  | none => exact disconnectUp_clean clean answers
  | some conn =>
    have used : (sc.useDn (conn.disconnect sc.tag answers.dn expunge)).1.Clean := by
      refine useDn_clean clean fun examining => ?_
      exact (conn.disconnect_silent sc.tag answers.dn expunge fun wanted =>
        nothing wanted examining conn current).reads
    dsimp only
    cases (sc.useDn (conn.disconnect sc.tag answers.dn expunge)).2 with
    | false => exact used
    | true =>
      rw [if_pos rfl]
      have closed : Clean { (sc.useDn (conn.disconnect sc.tag answers.dn expunge)).1 with
        conn := none } := used
      exact disconnectUp_clean closed answers

theorem leave_clean (answers : ScAnswers) : (sc.advanceDisconnect answers false).1.Clean :=
  advanceDisconnect_clean clean answers false fun never => nomatch never

theorem selectConnect_clean (answers : ScAnswers) (examine : Bool) :
    (sc.selectConnect answers examine).Clean := by
  unfold selectConnect
  cases sc.selectConnected with
  | true => exact clean
  | false =>
    rw [if_neg (by decide)]
    cases answers.openDn with
    | error error => exact clean
    | ok id =>
      dsimp only
      cases answers.openUp <;> exact clean

theorem selectWait_clean (answers : ScAnswers) : (sc.selectWait answers).1.Clean := by
  unfold selectWait
  cases sc.selectDone with
  | true => exact clean
  | false =>
    rw [if_neg (by decide)]
    cases sc.conn with
    | none => exact clean
    | some conn =>
      have used : (sc.useDn (conn.select sc.tag answers.dn)).1.Clean :=
        useDn_clean clean fun _ => (conn.select_silent sc.tag answers.dn).reads
      dsimp only
      cases (sc.useDn (conn.select sc.tag answers.dn)).2 <;> exact used

theorem selectFinish_clean (answers : ScAnswers) : (sc.selectFinish answers).1.Clean := by
  unfold selectFinish
  dsimp only
  by_cases success : sc.selectSuccess = true
  · rw [if_pos success]
    exact clean
  · rw [if_neg success]
    have closed : Clean { sc with conn := none } := clean
    have left := leave_clean closed answers
    cases (advanceDisconnect { sc with conn := none } answers false).2 <;> exact left

theorem advanceSelect_clean (answers : ScAnswers) (examine : Bool) :
    (sc.advanceSelect answers examine).1.Clean := by
  have left : (sc.selectDisconnect answers).1.Clean := by
    unfold selectDisconnect
    cases sc.selectDisconnected with
    | true => exact clean
    | false => exact leave_clean clean answers
  unfold advanceSelect
  dsimp only
  cases (sc.selectDisconnect answers).2 with
  | false => exact left
  | true =>
    rw [if_neg (by decide)]
    have connected := selectConnect_clean left answers examine
    refine andThen_clean connected ?_
    have waited := selectWait_clean connected answers
    cases (((sc.selectDisconnect answers).1.selectConnect answers examine).selectWait answers).2 with
    | false => exact waited
    | true => exact selectFinish_clean waited answers

theorem whenSelected_clean {next : Conn → Sc × Bool}
    (kept : ∀ conn, sc.conn = some conn → (next conn).1.Clean) :
    (sc.whenSelected next).1.Clean := by
  unfold whenSelected
  cases sc.selected with
  | false => exact clean
  | true =>
    rw [if_neg (by decide)]
    cases current : sc.conn with
    | none => exact clean
    | some conn => exact kept conn current

theorem gatherReply_clean (text : String) : (sc.gatherReply text).1.Clean := by
  have gathered := gatherUpdates_clean clean
  exact andThen_clean gathered gathered

end

/-- What the command in progress would write at its next call. -/
def wishes (sc : Sc) : List MsgKey :=
  match sc.conn, sc.cmd with
  | some conn, some (.fetch args) => conn.marks args
  | some conn, some .close => conn.doomed
  | _, _ => []

/-- With a mailbox that was opened with EXAMINE no FETCH that is no peek names an unseen message,
and no CLOSE finds a message with the `\Deleted` flag. -/
def Harmless (sc : Sc) : Event → Prop
  | .advance _ => sc.examining = true → sc.wishes = []
  | _ => True

/-- Every command; only a FETCH and a CLOSE need to be harmless. -/
theorem handleCmd_clean (clean : sc.Clean) (answers : ScAnswers) (cmd : ScCmd)
    (current : sc.cmd = some cmd) (harmless : sc.examining = true → sc.wishes = []) :
    (sc.handleCmd answers cmd).1.Clean := by
  cases cmd with
  | passthru =>
    have gathered := gatherUpdates_clean clean
    show (sc.passthru answers).1.Clean
    unfold passthru
    cases answers.passthru with
    | none => exact clean
    | some status =>
      cases status with
      | ok => exact andThen_clean gathered gathered
      | no => exact clean
      | bad => exact clean
  | error text => exact clean
  | plusReq text => exact clean
  | capa => exact gatherReply_clean clean _
  | noop => exact gatherReply_clean clean _
  | select examine params =>
    cases params with
    | true => exact clean
    | false => exact advanceSelect_clean clean answers examine
  | close =>
    show (sc.close answers).1.Clean
    unfold close
    cases sc.selected with
    | false => exact clean
    | true =>
      rw [if_neg (by decide)]
      have disconnected : (sc.advanceDisconnect answers true).1.Clean := by
        refine advanceDisconnect_clean clean answers true fun _ examining conn active => ?_
        have none := harmless examining
        unfold wishes at none
        rw [current, Option.mem_def.mp active] at none
        exact none
      cases result : sc.advanceDisconnect answers true with
      | mk after ok =>
        rw [result] at disconnected
        cases ok <;> exact disconnected
  | logout => exact clean
  | store args =>
    refine whenSelected_clean clean fun conn active => useDn_clean clean fun examining => ?_
    exact (conn.store_silent _ _ (examine_of_examining active examining) args).reads
  | expunge =>
    refine whenSelected_clean clean fun conn active => useDn_clean clean fun examining => ?_
    exact (conn.expunge_silent _ _ (examine_of_examining active examining)).reads
  | copy args =>
    exact whenSelected_clean clean fun conn _ => useDn_clean clean fun _ => conn.copy_reads _ _ args
  | fetch args =>
    refine whenSelected_clean clean fun conn active => ?_
    cases answers.written with
    | false => exact clean
    | true =>
      rw [if_pos rfl]
      refine useDn_clean clean fun examining => ?_
      have none := harmless examining
      unfold wishes at none
      rw [current, active] at none
      exact (conn.fetch_silent _ _ args none).reads
  | check => exact whenSelected_clean clean fun _ _ => gatherReply_clean clean _
  | search args =>
    exact whenSelected_clean clean fun conn _ => useDn_clean clean fun _ =>
      (conn.search_silent _ args).reads
  | idle =>
    refine whenSelected_clean clean fun conn _ => ?_
    have used : (sc.useDn (conn.idle sc.tag)).1.Clean :=
      useDn_clean clean fun _ => (conn.idle_silent _).reads
    exact andThen_clean used used
  | idleDone errmsg =>
    refine whenSelected_clean clean fun conn _ => ?_
    have used : (sc.useDn (conn.idleDone sc.tag errmsg)).1.Clean :=
      useDn_clean clean fun _ => (conn.idleDone_silent _ errmsg).reads
    exact andThen_clean used used
  | starttls insec => exact clean
  | login => exact clean
  | unhandled => exact clean

theorem advanceServer_clean (clean : sc.Clean) (answers : ScAnswers)
    (harmless : sc.examining = true → sc.wishes = []) : (sc.advanceServer answers).Clean := by
  unfold advanceServer
  cases current : sc.cmd with
  | none =>
    dsimp only
    cases sc.idle with
    | false => exact clean
    | true => exact gatherUpdates_clean clean
  | some cmd =>
    have handled := handleCmd_clean clean answers cmd current harmless
    dsimp only
    by_cases outOfOrder : sc.idle ≠ cmd.isIdleDone
    · rw [if_pos outOfOrder]
      exact clean
    · rw [if_neg outOfOrder]
      cases (sc.handleCmd answers cmd).2 && !(sc.handleCmd answers cmd).1.logout <;> exact handled

theorem step_clean (clean : sc.Clean) (event : Event) (harmless : sc.Harmless event) :
    (sc.step event).Clean := by
  cases event with
  | read cmd tag =>
    show (if sc.cmd.isNone then _ else _ : Sc).Clean
    cases sc.cmd.isNone <;> exact clean
  | update update => exact clean
  | imaildirFailed => exact clean
  | advance answers =>
    show (sc.advanceState answers).Clean
    unfold advanceState
    cases sc.failed with
    | true => exact clean
    | false =>
      rw [if_neg (by decide)]
      cases sc.logout with
      | true => exact leave_clean clean answers
      | false =>
        rw [if_neg (by decide)]
        have served := advanceServer_clean clean answers harmless
        dsimp only
        cases (sc.advanceServer answers).logout && !(sc.advanceServer answers).failed with
        | false => exact served
        | true => exact leave_clean served answers

/-- Every step of a run meets the condition. -/
def AllHarmless : Sc → List Event → Prop
  | _, [] => True
  | sc, event :: rest => sc.Harmless event ∧ AllHarmless (sc.step event) rest

instance Harmless.decidable (sc : Sc) : (event : Event) → Decidable (sc.Harmless event)
  | .advance _ => inferInstanceAs (Decidable (_ → _))
  | .read _ _ => isTrue trivial
  | .update _ => isTrue trivial
  | .imaildirFailed => isTrue trivial

instance AllHarmless.decidable : (sc : Sc) → (events : List Event) → Decidable (sc.AllHarmless events)
  | _, [] => isTrue trivial
  | sc, event :: rest =>
    have := AllHarmless.decidable (sc.step event) rest
    inferInstanceAs (Decidable (_ ∧ _))

theorem run_keepsClean (clean : sc.Clean) (events : List Event) (harmless : AllHarmless sc events) :
    (events.foldl step sc).Clean := by
  induction events generalizing sc with
  | nil => exact clean
  | cons event rest ih =>
    exact ih (step_clean clean event harmless.1) harmless.2

/-- In every run of a session whose steps are harmless no request that writes is made for a mailbox
that was opened with EXAMINE. -/
theorem examine_never_writes (events : List Event) (harmless : AllHarmless {} events) :
    (events.foldl step {}).Clean :=
  run_keepsClean (fun _ mem => absurd mem not_mem_nil) events harmless

/-- A mailbox is opened with EXAMINE; it has one message, which is neither seen nor deleted. -/
def examined : List Event :=
  [.read (.select true false) (some "a"), .advance { dn := {
      selectStatus := some .ok, synced := true, views := Dialog.oneView, maxUidDn := 1, uidvldDn := 7 } }]

/-- A FETCH that is a peek, and a CLOSE. -/
def peeking : List Event :=
  examined ++ [.read (.fetch ⟨false, [⟨1, 1⟩], false, false, false, false, [true]⟩) (some "b"),
    .advance {}, .advance {}, .read .close (some "c"), .advance {}]

theorem examine_never_writes_peek : (peeking.foldl step {}).Clean :=
  examine_never_writes peeking (by decide)

/-- A FETCH of the content that is no peek makes the request for the `\Seen` flag. -/
def marking : List Event :=
  examined ++ [.read (.fetch ⟨false, [⟨1, 1⟩], false, false, true, false, []⟩) (some "b"),
    .advance {}]

theorem examine_writes_seen : ¬(marking.foldl step {}).Clean := by
  have submitted : (marking.foldl step {}).submitted =
      [(true, .store [.up 5] 1 { seen := true })] := rfl
  intro clean
  have reads := clean (true, .store [.up 5] 1 { seen := true })
    (submitted ▸ mem_singleton_self _) rfl
  cases reads

end Sc

end Splintermail
