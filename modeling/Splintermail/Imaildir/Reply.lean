/-
This file is about the tagged responses of a `dn_t`: a command is answered by one of
them, as the last of its responses, and its tag is used for nothing else.

A dialog is one command from its first call to the call that ends it, with whatever
updates arrive in between. While it lasts the tag is in one place: with the caller, with
the started command, or with the IDLE. The end of the dialog takes it from there.

A SEARCH in an empty mailbox ends without the tagged response.
-/

import Splintermail.Imaildir.Conn
import Splintermail.Imaildir.Custody

namespace Splintermail

open Conn Called List

open Outcome (Sat)

/-! ### Dialogs -/

/-- The commands with a tagged response that a `dn_t` handles. -/
inductive MailboxCmd where
  | select
  | search (args : SearchArgs)
  | store (args : StoreArgs)
  | expunge
  | copy (args : CopyArgs)
  | fetch (args : FetchArgs)
  | idle

namespace MailboxCmd

/-- The call that is made for a command. -/
def call (conn : Conn) (tagp : Option String) (answers : Answers) : MailboxCmd → Except Derr Called
  | .select => conn.select tagp answers
  | .search args => conn.search tagp args
  | .store args => conn.store tagp answers args
  | .expunge => conn.expunge tagp answers
  | .copy args => conn.copy tagp answers args
  | .fetch args => conn.fetch tagp answers args
  | .idle => conn.idle tagp

def isIdle : MailboxCmd → Bool
  | .idle => true
  | _ => false

def isSearch : MailboxCmd → Bool
  | .search _ => true
  | _ => false

/-- The started command is for this one. -/
def Owns : MailboxCmd → Command → Prop
  | .store _, .store _ => True
  | .expunge, .expunge _ => True
  | .copy _, .copy _ => True
  | .fetch _, .fetch _ => True
  | _, _ => False

end MailboxCmd

/-- A command in progress, with its responses so far. -/
structure Dialog where
  conn : Conn
  tagp : Option String
  out : List DnResponse := []
  done : Bool := false
  deriving DecidableEq

/-- What happens during a command: an update arrives, the command is called, the updates are
gathered during an IDLE, or the IDLE is ended. -/
inductive DialogEvent where
  | update (update : Update)
  | call (answers : Answers)
  | wake
  | idleDone (errmsg : Option String)

namespace Dialog

/-- The tag is passed in. -/
def start (conn : Conn) (tag : String) : Dialog := { conn, tagp := some tag }

/-- The IDLE has begun and lasts. -/
def idling (dialog : Dialog) (cmd : MailboxCmd) : Bool :=
  cmd.isIdle && dialog.conn.idleTag.isSome

/-- A call of the command. -/
def call (dialog : Dialog) (cmd : MailboxCmd) (answers : Answers) : Except Derr Dialog := do
  let called ← cmd.call dialog.conn dialog.tagp answers
  match called.error with
  | some error => .error error
  | none =>
    return { conn := called.conn, tagp := called.tagp, out := dialog.out ++ called.out,
             done := called.ok && !cmd.isIdle }

/-- The updates that arrive during an IDLE. -/
def wake (dialog : Dialog) : Except Derr Dialog := do
  let (conn, responses, _) ← dialog.conn.gatherUpdates true false
  return { dialog with conn, out := dialog.out ++ responses }

/-- The end of an IDLE. -/
def idleDone (dialog : Dialog) (errmsg : Option String) : Except Derr Dialog := do
  let called ← dialog.conn.idleDone dialog.tagp errmsg
  return { conn := called.conn, tagp := called.tagp, out := dialog.out ++ called.out, done := true }

def step (cmd : MailboxCmd) (dialog : Dialog) (event : DialogEvent) : Except Derr Dialog :=
  if dialog.done then .ok dialog
  else
    match event with
    | .update update =>
      .ok { dialog with conn := { dialog.conn with dn := dnImaildirUpdate dialog.conn.dn update } }
    | .call answers => if dialog.idling cmd then .ok dialog else dialog.call cmd answers
    | .wake => if dialog.idling cmd then dialog.wake else .ok dialog
    | .idleDone errmsg => if dialog.idling cmd then dialog.idleDone errmsg else .ok dialog

end Dialog

/-- No command is started, and no tag is kept. -/
structure Conn.Free (conn : Conn) : Prop where
  command : conn.dn.command = none
  kept : conn.tag = none
  idleTag : conn.idleTag = none

instance Conn.Free.decidable (conn : Conn) : Decidable conn.Free :=
  decidable_of_iff (conn.dn.command = none ∧ conn.tag = none ∧ conn.idleTag = none)
    ⟨fun both => ⟨both.1, both.2.1, both.2.2⟩, fun free => ⟨free.command, free.kept, free.idleTag⟩⟩

/-- There is no tagged response. -/
def Untagged (out : List DnResponse) : Prop := ∀ resp ∈ out, resp.tag = none

/-- There is one tagged response, the last one. -/
def Answered (tag : String) (out : List DnResponse) : Prop :=
  ∃ before last, out = before ++ [last] ∧ Untagged before ∧ last.tag = some tag

theorem Untagged.nil : Untagged [] := fun _ mem => nomatch mem

theorem Untagged.cons {resp : DnResponse} {rest : List DnResponse} (none : resp.tag = none)
    (untagged : Untagged rest) : Untagged (resp :: rest) := by
  intro other mem
  rcases mem_cons.mp mem with rfl | old
  · exact none
  · exact untagged other old

theorem Untagged.append {first second : List DnResponse} (left : Untagged first)
    (right : Untagged second) : Untagged (first ++ second) := by
  intro resp mem
  rcases mem_append.mp mem with old | new
  · exact left resp old
  · exact right resp new

theorem Untagged.messages (responses : List Response) : Untagged (responses.map .message) := by
  intro resp mem
  obtain ⟨_, _, rfl⟩ := mem_map.mp mem
  rfl

theorem Answered.prepend {tag : String} {first second : List DnResponse} (left : Untagged first)
    (right : Answered tag second) : Answered tag (first ++ second) := by
  obtain ⟨before, last, rfl, untagged, same⟩ := right
  exact ⟨first ++ before, last, (append_assoc _ _ _).symm, left.append untagged, same⟩

theorem Answered.single {tag : String} {before : List DnResponse} (untagged : Untagged before)
    (status : Status) (text : String) : Answered tag (before ++ [stResp (some tag) status text]) :=
  ⟨before, _, rfl, untagged, rfl⟩

theorem Answered.not_untagged {tag : String} {out : List DnResponse} (answered : Answered tag out) :
    ¬Untagged out := by
  obtain ⟨before, last, rfl, _, same⟩ := answered
  intro untagged
  have none := untagged last (mem_append_right _ mem_cons_self)
  rw [same] at none
  cases none

/-! ### Where the tag is -/

/-- The tag is with the caller, and the command is not started. -/
structure Passed (cmd : MailboxCmd) (tag : String) (conn : Conn) (tagp : Option String) : Prop where
  tagp : tagp = some tag
  kept : conn.tag = none
  idleTag : conn.idleTag = none
  command : ∀ command, conn.dn.command = some command → ¬cmd.Owns command

/-- The tag is with the started command. -/
structure Started (cmd : MailboxCmd) (tag : String) (conn : Conn) (tagp : Option String) : Prop where
  tagp : tagp = none
  kept : conn.tag = some tag
  idleTag : conn.idleTag = none
  command : ∃ command, conn.dn.command = some command ∧ cmd.Owns command

/-- The tag is with the IDLE. -/
structure Idling (cmd : MailboxCmd) (tag : String) (conn : Conn) (tagp : Option String) : Prop where
  tagp : tagp = none
  kept : conn.tag = none
  idleTag : conn.idleTag = some tag
  isIdle : cmd.isIdle = true

/-- The tag is nowhere any more. -/
structure Taken (conn : Conn) (tagp : Option String) : Prop where
  tagp : tagp = none
  kept : conn.tag = none
  idleTag : conn.idleTag = none

/-- The command is started or not. -/
def Held (cmd : MailboxCmd) (tag : String) (conn : Conn) (tagp : Option String) : Prop :=
  Passed cmd tag conn tagp ∨ Started cmd tag conn tagp

/-- What a call does to the tag: the command ends with the tagged response, or the tag is kept. -/
structure Called.Keeps (cmd : MailboxCmd) (tag : String) (called : Called) : Prop where
  ends : called.ok = true → Answered tag called.out ∧ Taken called.conn called.tagp
  lasts : called.ok = false → Untagged called.out ∧ Held cmd tag called.conn called.tagp

namespace Conn

variable {conn : Conn} {cmd : MailboxCmd} {tag : String} {tagp : Option String}

/-- Gathering updates leaves the tags and the command alone. -/
theorem gatherUpdates_frame (conn : Conn) (allowExpunge uidMode : Bool) :
    Sat (conn.gatherUpdates allowExpunge uidMode)
      (fun result => result.1.tag = conn.tag ∧ result.1.idleTag = conn.idleTag ∧
        result.1.dn.command = conn.dn.command ∧ Untagged result.2.1) (fun _ => True) := by
  unfold gatherUpdates healthcheck
  cases conn.m with
  | false => exact trivial
  | true =>
    refine (dnGatherUpdates_gathers conn.dn allowExpunge uidMode false).bind ?_
    rintro ⟨dn, responses, freed⟩ gathers
    exact ⟨rfl, rfl, gathers.command, Untagged.messages responses⟩

/-- A call that is done before the command is started. -/
theorem finish_keeps (tagless : conn.tag = none) (awake : conn.idleTag = none) (status : Status)
    (text : String) {out : List DnResponse} (untagged : Untagged out) (freed : List Update) :
    (conn.finish (some tag) status text out freed).Keeps cmd tag where
  ends := fun _ => ⟨Answered.single untagged status text, rfl, tagless, awake⟩
  lasts := fun never => nomatch never

/-- A started command ends. -/
theorem conclude_keeps (started : Started cmd tag conn tagp) (dn : Dn) (responses : List Response)
    (resp : Option StResp) (text : String) (freed : List Update) :
    (conn.conclude tagp dn responses resp text freed).Keeps cmd tag where
  ends := by
    intro _
    refine ⟨?_, started.tagp, rfl, started.idleTag⟩
    show Answered tag (responses.map .message ++ [stResp conn.tag _ _])
    rw [started.kept]
    exact Answered.single (Untagged.messages responses) _ _
  lasts := fun never => nomatch never

theorem same_keeps (held : Held cmd tag conn tagp) : ({ conn, tagp } : Called).Keeps cmd tag where
  ends := fun never => nomatch never
  lasts := fun _ => ⟨Untagged.nil, held⟩

variable {cmd : MailboxCmd}

theorem owns_update {dn : Dn} (update : Update)
    (owned : ∃ command, dn.command = some command ∧ cmd.Owns command) :
    ∃ command, (dnImaildirUpdate dn update).command = some command ∧ cmd.Owns command := by
  obtain ⟨command, current, owns⟩ := owned
  cases update with
  | sync resp =>
    refine ⟨command.wake, ?_, ?_⟩
    · show dn.command.map Command.wake = _
      rw [current]
      rfl
    · cases cmd <;> cases command <;> exact owns
  | new view => exact ⟨command, current, owns⟩
  | flags view => exact ⟨command, current, owns⟩
  | expunge record => exact ⟨command, current, owns⟩

theorem owns_updates {dn : Dn} (updates : List Update)
    (owned : ∃ command, dn.command = some command ∧ cmd.Owns command) :
    ∃ command, (updates.foldl dnImaildirUpdate dn).command = some command ∧ cmd.Owns command := by
  induction updates generalizing dn with
  | nil => exact owned
  | cons update rest ih => exact ih (owns_update update owned)

theorem not_owns_update {dn : Dn} (update : Update)
    (other : ∀ command, dn.command = some command → ¬cmd.Owns command) :
    ∀ command, (dnImaildirUpdate dn update).command = some command → ¬cmd.Owns command := by
  cases update with
  | sync resp =>
    intro command current
    have woken : dn.command.map Command.wake = some command := current
    obtain ⟨before, present, rfl⟩ := Option.map_eq_some_iff.mp woken
    have differs := other before present
    cases cmd <;> cases before <;> exact differs
  | new view => exact other
  | flags view => exact other
  | expunge record => exact other

/-- A request leaves the tags alone. -/
theorem requestUpdate_frame (conn : Conn) (answers : Answers) :
    (conn.requestUpdate answers).tag = conn.tag ∧
      (conn.requestUpdate answers).idleTag = conn.idleTag ∧
      (conn.requestUpdate answers).dn.command =
        (answers.updates.foldl dnImaildirUpdate conn.dn).command := by
  unfold requestUpdate
  cases answers.failed <;> exact ⟨rfl, rfl, rfl⟩

section

variable (passed : Passed cmd tag conn tagp)

include passed

theorem waitRequest_started (answers : Answers) (command : Command) (owns : cmd.Owns command)
    (request : UpdateReq) :
    Started cmd tag (conn.waitRequest tagp answers command request).conn none := by
  obtain ⟨sameTag, sameIdle, current⟩ := requestUpdate_frame
    { conn with dn := { conn.dn with command := some command }, tag := tagp } answers
  exact
    { tagp := rfl
      kept := sameTag.trans passed.tagp
      idleTag := sameIdle.trans passed.idleTag
      command := by
        show ∃ command, (requestUpdate _ answers).dn.command = some command ∧ _
        rw [current]
        exact owns_updates answers.updates ⟨command, rfl, owns⟩ }

theorem waitRequest_keeps (answers : Answers) (command : Command) (owns : cmd.Owns command)
    (request : UpdateReq) : (conn.waitRequest tagp answers command request).Keeps cmd tag where
  ends := fun never => nomatch never
  lasts := fun _ => ⟨Untagged.nil, .inr (waitRequest_started passed answers command owns request)⟩

/-- A command that gathers updates and is done at once. -/
theorem gatherFinish_keeps (allowExpunge uidMode : Bool) (text : String) {before : List DnResponse}
    (untagged : Untagged before) :
    Sat (do
        let (conn, responses, freed) ← conn.gatherUpdates allowExpunge uidMode
        return conn.finish tagp .ok text (before ++ responses) freed)
      (Keeps cmd tag) (fun _ => True) := by
  refine (gatherUpdates_frame conn allowExpunge uidMode).bind ?_
  rintro ⟨next, responses, freed⟩ ⟨sameTag, sameIdle, _, messages⟩
  rw [passed.tagp]
  exact finish_keeps (sameTag.trans passed.kept) (sameIdle.trans passed.idleTag) .ok text
    (untagged.append messages) freed

end

theorem outcome_sat {Value : Type} (outcome : Except Derr Value) :
    Sat outcome (fun _ => True) (fun _ => True) := by
  cases outcome <;> exact trivial

theorem healthcheck_sat (conn : Conn) : Sat conn.healthcheck (fun _ => True) (fun _ => True) := by
  unfold healthcheck
  cases conn.m <;> exact trivial

/-! ### The commands -/

theorem sendUnseenResp_untagged (views : List MsgView) : Untagged (sendUnseenResp views) := by
  cases views with
  | nil => exact Untagged.nil
  | cons view rest =>
    show Untagged (if view.flags.seen then [] else [_])
    cases view.flags.seen with
    | true => exact Untagged.nil
    | false => exact Untagged.cons rfl Untagged.nil

theorem sendUidnextResp_sat (maxUidDn : Nat) :
    Sat (sendUidnextResp maxUidDn) (fun resp => resp.tag = none) (fun _ => True) :=
  (outcome_sat _).bind fun _ _ => rfl

theorem sendUidvldResp_sat (uidvldDn : Nat) :
    Sat (sendUidvldResp uidvldDn) (fun resp => resp.tag = none) (fun _ => True) :=
  (outcome_sat _).bind fun _ _ => rfl

theorem selectResponses_answered (passed : Passed .select tag conn tagp) (answers : Answers) :
    Sat (conn.selectResponses tagp answers) (Answered tag) (fun _ => True) := by
  unfold selectResponses
  refine (outcome_sat _).bind fun existsResp _ => ?_
  refine (sendUidnextResp_sat answers.maxUidDn).bind fun uidnextResp uidnext => ?_
  refine (sendUidvldResp_sat answers.uidvldDn).bind fun uidvldResp uidvld => ?_
  refine Answered.prepend (Untagged.append ?_ (sendUnseenResp_untagged answers.views)) ?_
  · exact Untagged.cons rfl (Untagged.cons rfl (Untagged.cons rfl Untagged.nil))
  · rw [passed.tagp]
    exact ⟨[_, _, _], _, rfl,
      Untagged.cons rfl (Untagged.cons uidnext (Untagged.cons uidvld Untagged.nil)), rfl⟩

theorem select_keeps (passed : Passed .select tag conn tagp) (answers : Answers) :
    Sat (conn.select tagp answers) (Keeps .select tag) (fun _ => True) := by
  unfold select
  refine conn.healthcheck_sat.bind fun _ _ => ?_
  cases answers.selectStatus with
  | none => exact same_keeps (.inl passed)
  | some status =>
    have failed : ∀ text, ({ conn, tagp := none, out := [stResp tagp status text], ok := true } :
        Called).Keeps .select tag := by
      intro text
      rw [passed.tagp]
      refine ⟨fun _ => ⟨?_, rfl, passed.kept, passed.idleTag⟩, fun never => nomatch never⟩
      exact Answered.single Untagged.nil status text
    cases status with
    | no => exact failed _
    | bad => exact failed _
    | ok =>
      cases answers.synced with
      | false => exact same_keeps (.inl passed)
      | true =>
        rw [if_neg (by decide)]
        refine (selectResponses_answered passed answers).bind fun out answered => ?_
        exact ⟨fun _ => ⟨answered, rfl, passed.kept, passed.idleTag⟩, fun never => nomatch never⟩

/-- A SEARCH is answered unless the view is empty. -/
theorem search_keeps {args : SearchArgs} (passed : Passed (.search args) tag conn tagp)
    (present : conn.dn.views ≠ []) :
    Sat (conn.search tagp args)
      (fun called => called.Keeps (.search args) tag ∧ called.ok = true) (fun _ => True) := by
  unfold search
  refine conn.healthcheck_sat.bind fun _ _ => ?_
  rw [getLast?_eq_some_getLast present]
  refine (outcome_sat _).bind fun seqMax _ => ?_
  refine (outcome_sat _).bind fun nums _ => ?_
  refine (gatherUpdates_frame conn args.uidMode args.uidMode).bind ?_
  rintro ⟨next, responses, freed⟩ ⟨sameTag, sameIdle, _, messages⟩
  rw [passed.tagp]
  refine ⟨finish_keeps (sameTag.trans passed.kept) (sameIdle.trans passed.idleTag) .ok "too easy!"
    (Untagged.cons rfl messages) freed, rfl⟩

section

variable (held : Held cmd tag conn tagp)

include held

theorem held_started {command : Command} (current : conn.dn.command = some command)
    (owns : cmd.Owns command) : Started cmd tag conn tagp := by
  rcases held with passed | started
  · exact absurd owns (passed.command command current)
  · exact started

theorem held_passed (other : ∀ command, conn.dn.command = some command → ¬cmd.Owns command) :
    Passed cmd tag conn tagp := by
  rcases held with passed | started
  · exact passed
  · obtain ⟨command, current, owns⟩ := started.command
    exact absurd owns (other command current)

theorem passed_of_other {current : Option Command} (same : conn.dn.command = current)
    (other : ∀ command, current = some command → ¬cmd.Owns command) : Passed cmd tag conn tagp :=
  held_passed held (same ▸ other)

end

theorem gatherFailed_frame (conn : Conn) (allowExpunge : Bool) :
    (conn.gatherFailed allowExpunge).tag = conn.tag ∧
      (conn.gatherFailed allowExpunge).idleTag = conn.idleTag ∧
      (conn.gatherFailed allowExpunge).dn.command = conn.dn.command := by
  unfold gatherFailed
  dsimp only
  cases (splitSync conn.dn.pending).2 with
  | some found => exact ⟨rfl, rfl, rfl⟩
  | none =>
    dsimp only
    split <;> exact ⟨rfl, rfl, rfl⟩

variable {args : StoreArgs}

theorem storeRequest_keeps (passed : Passed (.store args) tag conn tagp) (answers : Answers)
    (uidsDn : List Nat) : (conn.storeRequest tagp answers args uidsDn).Keeps (.store args) tag := by
  unfold storeRequest
  dsimp only
  cases begun : storeBegin conn.dn args.uidMode args.silent args.sign args.flags uidsDn with
  | error error =>
    refine ⟨(fun never => nomatch never), fun _ => ⟨Untagged.nil, .inr ?_⟩⟩
    exact ⟨rfl, passed.tagp, passed.idleTag, _, rfl, trivial⟩
  | ok dn =>
    refine ⟨(fun never => nomatch never), fun _ => ⟨Untagged.nil, .inr ?_⟩⟩
    obtain ⟨sameTag, sameIdle, current⟩ :=
      requestUpdate_frame { conn with dn, tag := tagp } answers
    refine ⟨rfl, sameTag.trans passed.tagp, sameIdle.trans passed.idleTag, ?_⟩
    show ∃ command, (requestUpdate _ answers).dn.command = some command ∧ _
    rw [current]
    refine owns_updates answers.updates ?_
    unfold storeBegin at begun
    cases expected : expectFlags args.sign args.flags
      (conn.dn.views.filter fun view => view.uidDn ∈ uidsDn) with
    | error error =>
      rw [expected] at begun
      cases begun
    | ok tree =>
      rw [expected] at begun
      cases begun
      exact ⟨_, rfl, trivial⟩

theorem beginStore_keeps (passed : Passed (.store args) tag conn tagp) (answers : Answers) :
    (conn.beginStore tagp answers args).Keeps (.store args) tag := by
  have finished : ∀ status text, (conn.finish tagp status text [] []).Keeps (.store args) tag := by
    intro status text
    rw [passed.tagp]
    exact finish_keeps passed.kept passed.idleTag status text Untagged.nil []
  unfold beginStore
  cases conn.dn.examine with
  | true => exact finished _ _
  | false =>
    rw [if_neg (by decide)]
    cases conn.canonicalUids args.uidMode args.seqSet with
    | error error => exact same_keeps (.inl passed)
    | ok uids =>
      cases uids with
      | none => exact finished _ _
      | some uids =>
        cases uids with
        | cons uidDn rest => exact storeRequest_keeps passed answers _
        | nil =>
          have gathered := gatherFinish_keeps passed args.uidMode args.uidMode
            "noop STORE command" Untagged.nil
          dsimp only
          cases outcome : conn.gatherUpdates args.uidMode args.uidMode with
          | ok result =>
            rw [outcome] at gathered
            exact gathered
          | error error =>
            obtain ⟨sameTag, sameIdle, current⟩ := gatherFailed_frame conn args.uidMode
            refine same_keeps (.inl ⟨passed.tagp, ?_, ?_, ?_⟩)
            · exact sameTag.trans passed.kept
            · exact sameIdle.trans passed.idleTag
            · rw [current]
              exact passed.command

theorem store_keeps (held : Held (.store args) tag conn tagp) (answers : Answers) :
    Sat (conn.store tagp answers args) (Keeps (.store args) tag) (fun _ => True) := by
  unfold store
  refine conn.healthcheck_sat.bind fun _ _ => ?_
  cases current : conn.dn.command with
  | none => exact beginStore_keeps (passed_of_other held current fun _ same => nomatch same) answers
  | some command =>
    cases command with
    | store cmd =>
      have started := held_started held current trivial
      dsimp only
      cases cmd.synced with
      | false => exact same_keeps (.inr started)
      | true =>
        rw [if_pos rfl]
        unfold finishStore
        refine (outcome_sat _).bind fun gathered _ => ?_
        refine (outcome_sat _).bind fun sent _ => ?_
        exact conclude_keeps started _ _ _ _ _
    | _ => exact beginStore_keeps (passed_of_other held current (by rintro _ ⟨⟩; exact id)) answers

theorem finishWait_keeps (started : Started cmd tag conn tagp) (uidMode : Bool) (text : String) :
    Sat (conn.finishWait tagp uidMode text) (Keeps cmd tag) (fun _ => True) := by
  unfold finishWait
  refine (outcome_sat _).bind fun gathered _ => ?_
  refine (outcome_sat _).bind fun sent _ => ?_
  exact conclude_keeps started _ _ _ _ _

theorem beginExpunge_keeps (passed : Passed .expunge tag conn tagp) (answers : Answers) :
    Sat (conn.beginExpunge tagp answers) (Keeps .expunge tag) (fun _ => True) := by
  unfold beginExpunge
  cases conn.dn.examine with
  | true =>
    rw [if_pos rfl, passed.tagp]
    exact finish_keeps passed.kept passed.idleTag _ _ Untagged.nil []
  | false =>
    rw [if_neg (by decide)]
    split
    · exact gatherFinish_keeps passed true false "noop EXPUNGE command" Untagged.nil
    · exact waitRequest_keeps passed answers (.expunge _) trivial _

theorem expunge_keeps (held : Held .expunge tag conn tagp) (answers : Answers) :
    Sat (conn.expunge tagp answers) (Keeps .expunge tag) (fun _ => True) := by
  unfold expunge
  refine conn.healthcheck_sat.bind fun _ _ => ?_
  cases current : conn.dn.command with
  | none => exact beginExpunge_keeps (passed_of_other held current fun _ same => nomatch same) answers
  | some command =>
    cases command with
    | expunge cmd =>
      have started := held_started held current trivial
      dsimp only
      cases cmd.synced with
      | false => exact same_keeps (.inr started)
      | true => exact finishWait_keeps started _ _
    | _ => exact beginExpunge_keeps (passed_of_other held current (by rintro _ ⟨⟩; exact id)) answers

theorem beginCopy_keeps {args : CopyArgs} (passed : Passed (.copy args) tag conn tagp)
    (answers : Answers) :
    Sat (conn.beginCopy tagp answers args) (Keeps (.copy args) tag) (fun _ => True) := by
  unfold beginCopy
  refine (outcome_sat _).bind fun uids _ => ?_
  cases uids with
  | none =>
    rw [passed.tagp]
    exact finish_keeps passed.kept passed.idleTag _ _ Untagged.nil []
  | some uids =>
    cases uids with
    | nil => exact gatherFinish_keeps passed true args.uidMode "noop COPY command" Untagged.nil
    | cons uidDn rest => exact waitRequest_keeps passed answers (.copy _) trivial _

theorem copy_keeps {args : CopyArgs} (held : Held (.copy args) tag conn tagp) (answers : Answers) :
    Sat (conn.copy tagp answers args) (Keeps (.copy args) tag) (fun _ => True) := by
  unfold copy
  refine conn.healthcheck_sat.bind fun _ _ => ?_
  cases current : conn.dn.command with
  | none => exact beginCopy_keeps (passed_of_other held current fun _ same => nomatch same) answers
  | some command =>
    cases command with
    | copy cmd =>
      have started := held_started held current trivial
      dsimp only
      cases cmd.synced with
      | false => exact same_keeps (.inr started)
      | true => exact finishWait_keeps started _ _
    | _ => exact beginCopy_keeps (passed_of_other held current (by rintro _ ⟨⟩; exact id)) answers

/-! ### FETCH -/

variable {args : FetchArgs}

section

variable (started : Started (.fetch args) tag conn tagp)

include started

theorem fetchRespond_keeps (answers : Answers) (cmd : FetchCmd) (gather : Gather) :
    Sat (conn.fetchRespond tagp answers cmd gather) (Keeps (.fetch args) tag) (fun _ => True) := by
  unfold fetchRespond
  cases cmd.uidsDn with
  | nil =>
    refine (outcome_sat _).bind fun sent _ => ?_
    exact conclude_keeps started _ _ _ _ _
  | cons uidDn rest =>
    refine (outcome_sat _).bind fun found _ => ?_
    refine (outcome_sat _).bind fun missing _ => ?_
    refine ⟨(fun never => nomatch never), fun _ => ⟨Untagged.cons rfl Untagged.nil, .inr ?_⟩⟩
    exact ⟨started.tagp, started.kept, started.idleTag, _, rfl, trivial⟩

theorem fetchReady_keeps (answers : Answers) :
    Sat (conn.fetchReady tagp answers) (Keeps (.fetch args) tag) (fun _ => True) := by
  obtain ⟨command, current, owns⟩ := started.command
  unfold fetchReady
  rw [current]
  cases command with
  | fetch cmd =>
    dsimp only
    cases cmd.ready with
    | none => exact same_keeps (.inr started)
    | some gather => exact fetchRespond_keeps started answers cmd gather
  | _ => exact owns.elim

theorem fetchPostSync_keeps (cmd : FetchCmd) :
    Sat (conn.fetchPostSync tagp cmd)
      (fun called => called.Keeps (.fetch args) tag ∧
        (called.ok = false → Started (.fetch args) tag called.conn called.tagp ∧ called.out = []))
      (fun _ => True) := by
  unfold fetchPostSync
  refine (outcome_sat _).bind ?_
  rintro ⟨dn, gather, resp⟩ _
  cases resp with
  | some resp =>
    refine (outcome_sat _).bind fun sent _ => ?_
    exact ⟨conclude_keeps started _ _ _ _ _, fun never => nomatch never⟩
  | none =>
    have still : Started (.fetch args) tag { conn with dn := { dn with
          command := some (.fetch { cmd with syncProcessed := true, ready := some gather }) } }
        tagp := ⟨started.tagp, started.kept, started.idleTag, _, rfl, trivial⟩
    exact ⟨same_keeps (.inr still), fun _ => ⟨still, rfl⟩⟩

theorem fetchSynced_keeps (answers : Answers) :
    Sat (conn.fetchSynced tagp answers) (Keeps (.fetch args) tag) (fun _ => True) := by
  obtain ⟨command, current, owns⟩ := started.command
  unfold fetchSynced
  rw [current]
  cases command with
  | fetch cmd =>
    dsimp only
    cases (cmd.synced && !cmd.syncProcessed) with
    | false => exact fetchReady_keeps started answers
    | true =>
      rw [if_pos rfl]
      refine (fetchPostSync_keeps started cmd).bind fun called spec => ?_
      cases ended : called.ok with
      | true =>
        rw [if_pos rfl]
        exact spec.1
      | false =>
        rw [if_neg (by decide)]
        exact fetchReady_keeps (spec.2 ended).1 answers
  | _ => exact owns.elim

end

section

variable (passed : Passed (.fetch args) tag conn tagp)

include passed

theorem fetchRequest_keeps (answers : Answers) (uidsDn : List Nat) :
    Sat (conn.fetchRequest tagp answers args uidsDn)
      (fun called => called.ok = false ∧ called.out = [] ∧
        Started (.fetch args) tag called.conn called.tagp) (fun _ => True) := by
  unfold fetchRequest
  dsimp only
  split
  · refine (outcome_sat _).bind fun gathered _ => ?_
    exact ⟨rfl, rfl, rfl, passed.tagp, passed.idleTag, _, rfl, trivial⟩
  · have reset : Passed (.fetch args) tag { conn with anyMissing := false } tagp :=
      ⟨passed.tagp, passed.kept, passed.idleTag, passed.command⟩
    exact ⟨rfl, rfl, waitRequest_started reset answers (.fetch _) trivial _⟩

theorem beginFetch_keeps (answers : Answers) :
    Sat (conn.beginFetch tagp answers args)
      (fun called => called.Keeps (.fetch args) tag ∧
        (called.ok = false → Started (.fetch args) tag called.conn called.tagp))
      (fun _ => True) := by
  unfold beginFetch
  refine (outcome_sat _).bind fun uids _ => ?_
  cases uids with
  | none =>
    rw [passed.tagp]
    exact ⟨finish_keeps passed.kept passed.idleTag _ _ Untagged.nil [], fun never => nomatch never⟩
  | some uids =>
    refine (fetchRequest_keeps passed answers uids).mono fun called ⟨lasts, silent, started⟩ => ?_
    refine ⟨⟨fun ended => ?_, fun _ => ⟨silent ▸ Untagged.nil, .inr started⟩⟩, fun _ => started⟩
    rw [lasts] at ended
    cases ended

theorem beginFetch_ends (answers : Answers) : Sat (do
        let begun ← conn.beginFetch tagp answers args
        if begun.ok || begun.error.isSome then return begun
        else
          match begun.conn.fetchSynced begun.tagp answers with
          | .ok called => return { called with requests := begun.requests }
          | .error error => return { begun with error := some error })
      (Keeps (.fetch args) tag) (fun _ => True) := by
  refine (beginFetch_keeps passed answers).bind fun begun both => ?_
  obtain ⟨keeps, started⟩ := both
  cases ended : begun.ok || begun.error.isSome with
  | true => exact keeps
  | false =>
    rw [if_neg (by decide)]
    have lasts : begun.ok = false := (Bool.or_eq_false_iff.mp ended).1
    have synced := fetchSynced_keeps (started lasts) answers
    cases outcome : begun.conn.fetchSynced begun.tagp answers with
    | ok called =>
      have spec := synced.of_ok outcome
      exact ⟨spec.ends, spec.lasts⟩
    | error error => exact ⟨keeps.ends, keeps.lasts⟩

end

theorem fetch_keeps (held : Held (.fetch args) tag conn tagp) (answers : Answers) :
    Sat (conn.fetch tagp answers args) (Keeps (.fetch args) tag) (fun _ => True) := by
  unfold fetch
  refine conn.healthcheck_sat.bind fun _ _ => ?_
  cases current : conn.dn.command with
  | none => exact beginFetch_ends (passed_of_other held current (by rintro _ ⟨⟩)) answers
  | some command =>
    cases command with
    | fetch cmd => exact fetchSynced_keeps (held_started held current trivial) answers
    | _ => exact beginFetch_ends (passed_of_other held current (by rintro _ ⟨⟩; exact id)) answers

/-! ### IDLE -/

theorem idle_sat (passed : Passed .idle tag conn tagp) :
    Sat (conn.idle tagp)
      (fun called => called.error = none ∧ Untagged called.out ∧
        Idling .idle tag called.conn called.tagp) (fun _ => True) := by
  unfold idle
  refine conn.healthcheck_sat.bind fun _ _ => ?_
  refine (gatherUpdates_frame conn true false).bind ?_
  rintro ⟨next, responses, freed⟩ ⟨sameTag, _, _, messages⟩
  refine ⟨rfl, messages.append (Untagged.cons rfl Untagged.nil), ?_⟩
  exact ⟨rfl, sameTag.trans passed.kept, passed.tagp, rfl⟩

theorem idleDone_sat (resting : Idling cmd tag conn tagp) (errmsg : Option String) :
    Sat (conn.idleDone tagp errmsg)
      (fun called => Answered tag called.out ∧ Taken called.conn called.tagp) (fun _ => True) := by
  unfold idleDone
  refine conn.healthcheck_sat.bind fun _ _ => ?_
  rw [resting.idleTag, if_neg (by rintro ⟨⟩)]
  cases errmsg with
  | some errmsg =>
    exact ⟨Answered.single Untagged.nil _ _, resting.tagp, resting.kept, rfl⟩
  | none =>
    refine (gatherUpdates_frame conn true false).bind ?_
    rintro ⟨next, responses, freed⟩ ⟨sameTag, sameIdle, _, messages⟩
    dsimp only at sameIdle
    dsimp only
    rw [sameIdle, resting.idleTag]
    exact ⟨Answered.single messages _ _, resting.tagp, sameTag.trans resting.kept, rfl⟩

end Conn

/-! ### Whole dialogs -/

namespace Dialog

variable {cmd : MailboxCmd} {tag : String} {conn : Conn}

/-- A call of a command that is no IDLE; a SEARCH needs a message in the view. -/
theorem call_keeps {tagp : Option String} (held : Held cmd tag conn tagp)
    (noIdle : cmd.isIdle = false) (present : cmd.isSearch = true → conn.dn.views ≠ [])
    (answers : Answers) :
    Sat (cmd.call conn tagp answers)
      (fun called => called.Keeps cmd tag ∧ (cmd.isSearch = true → called.ok = true))
      (fun _ => True) := by
  have unowned : (∀ command, ¬cmd.Owns command) → Passed cmd tag conn tagp :=
    fun never => held_passed held fun command _ => never command
  have other : ∀ {outcome : Except Derr Called}, cmd.isSearch = false →
      Sat outcome (Keeps cmd tag) (fun _ => True) →
      Sat outcome (fun called => called.Keeps cmd tag ∧ (cmd.isSearch = true → called.ok = true))
        (fun _ => True) :=
    fun differs sat => sat.mono fun _ keeps =>
      ⟨keeps, fun isSearch => absurd (differs.symm.trans isSearch) (by decide)⟩
  cases cmd with
  | select =>
    have passed := unowned fun command owns => by cases command <;> exact owns
    exact other rfl (select_keeps passed answers)
  | search args =>
    have passed := unowned fun command owns => by cases command <;> exact owns
    exact (search_keeps passed (present rfl)).mono fun _ spec => ⟨spec.1, fun _ => spec.2⟩
  | store args => exact other rfl (store_keeps held answers)
  | expunge => exact other rfl (expunge_keeps held answers)
  | copy args => exact other rfl (copy_keeps held answers)
  | fetch args => exact other rfl (fetch_keeps held answers)
  | idle => exact nomatch noIdle

/-- Where the tag is in a dialog. -/
structure Sound (cmd : MailboxCmd) (tag : String) (dialog : Dialog) : Prop where
  ended : dialog.done = true → Answered tag dialog.out ∧ Taken dialog.conn dialog.tagp
  lasts : dialog.done = false → Untagged dialog.out ∧
    (Held cmd tag dialog.conn dialog.tagp ∨ Idling cmd tag dialog.conn dialog.tagp)
  present : cmd.isSearch = true → dialog.done = false → dialog.conn.dn.views ≠ []

theorem sound_start (free : conn.Free) (present : cmd.isSearch = true → conn.dn.views ≠ []) :
    Sound cmd tag (start conn tag) where
  ended := fun never => nomatch never
  lasts := fun _ => ⟨Untagged.nil, .inl (.inl ⟨rfl, free.kept, free.idleTag, fun _ same =>
    nomatch free.command.symm.trans same⟩)⟩
  present := fun isSearch _ => present isSearch

theorem update_held {tagp : Option String} (held : Held cmd tag conn tagp) (update : Update) :
    Held cmd tag { conn with dn := dnImaildirUpdate conn.dn update } tagp := by
  rcases held with passed | started
  · exact .inl ⟨passed.tagp, passed.kept, passed.idleTag, not_owns_update update passed.command⟩
  · exact .inr ⟨started.tagp, started.kept, started.idleTag, owns_update update started.command⟩

theorem dnImaildirUpdate_views (dn : Dn) (update : Update) :
    (dnImaildirUpdate dn update).views = dn.views := by
  cases update <;> rfl

theorem Sound.held {dialog : Dialog} (sound : Sound cmd tag dialog) (going : dialog.done = false)
    (awake : dialog.idling cmd = false) : Held cmd tag dialog.conn dialog.tagp := by
  obtain ⟨_, held | resting⟩ := sound.lasts going
  · exact held
  · unfold Dialog.idling at awake
    rw [resting.isIdle, resting.idleTag] at awake
    cases awake

theorem Sound.idling {dialog : Dialog} (sound : Sound cmd tag dialog) (going : dialog.done = false)
    (asleep : dialog.idling cmd = true) : Idling cmd tag dialog.conn dialog.tagp := by
  obtain ⟨_, held | resting⟩ := sound.lasts going
  · have none : dialog.conn.idleTag = none := by
      rcases held with passed | started
      · exact passed.idleTag
      · exact started.idleTag
    unfold Dialog.idling at asleep
    rw [none, Bool.and_eq_true] at asleep
    exact nomatch asleep.2
  · exact resting

theorem not_search_of_idle (isIdle : cmd.isIdle = true) : ¬cmd.isSearch = true := by
  cases cmd with
  | idle => exact fun never => nomatch never
  | _ => exact nomatch isIdle

theorem step_sound (dialog : Dialog) (event : DialogEvent) (sound : Sound cmd tag dialog) :
    Sat (step cmd dialog event) (Sound cmd tag) (fun _ => True) := by
  unfold step
  cases going : dialog.done with
  | true => exact sound
  | false =>
    rw [if_neg (by decide)]
    obtain ⟨untagged, _⟩ := sound.lasts going
    cases event with
    | update update =>
      refine ⟨(fun never => nomatch never), fun _ => ?_, ?_⟩
      · refine ⟨untagged, ?_⟩
        rcases (sound.lasts going).2 with held | resting
        · exact .inl (update_held held update)
        · exact .inr ⟨resting.tagp, resting.kept, resting.idleTag, resting.isIdle⟩
      · intro isSearch _
        show (dnImaildirUpdate dialog.conn.dn update).views ≠ []
        rw [dnImaildirUpdate_views]
        exact sound.present isSearch going
    | call answers =>
      cases asleep : dialog.idling cmd with
      | true => exact sound
      | false =>
        rw [if_neg (by decide)]
        have held := sound.held going asleep
        unfold call
        cases isIdle : cmd.isIdle with
        | true =>
          obtain rfl : cmd = .idle := by cases cmd <;> first | rfl | exact nomatch isIdle
          refine (idle_sat (held_passed held fun _ _ owns => owns)).bind ?_
          rintro called ⟨noError, quiet, resting⟩
          rw [noError]
          refine ⟨fun never => ?_, fun _ => ⟨untagged.append quiet, .inr resting⟩, fun never => nomatch never⟩
          rw [Bool.and_eq_true] at never
          exact nomatch never.2
        | false =>
          refine (call_keeps held isIdle (fun isSearch => sound.present isSearch going) answers).bind
            fun called ⟨spec, ends⟩ => ?_
          cases called.error with
          | some error => exact trivial
          | none =>
            refine ⟨fun ended => ?_, fun lasts => ?_, fun isSearch lasts => ?_⟩
            · have ok : called.ok = true := (Bool.and_eq_true_iff.mp ended).1
              exact ⟨Answered.prepend untagged (spec.ends ok).1, (spec.ends ok).2⟩
            · have going : called.ok = false := by
                rcases Bool.and_eq_false_iff.mp lasts with going | never
                · exact going
                · exact nomatch never
              exact ⟨untagged.append (spec.lasts going).1, .inl (spec.lasts going).2⟩
            · have never : (called.ok && !false) = false := lasts
              rw [ends isSearch] at never
              cases never
    | wake =>
      cases asleep : dialog.idling cmd with
      | false => exact sound
      | true =>
        have resting := sound.idling going asleep
        refine (dialog.conn.gatherUpdates_frame true false).bind ?_
        rintro ⟨conn, responses, freed⟩ ⟨sameTag, sameIdle, _, messages⟩
        refine ⟨fun ended => absurd (going.symm.trans ended) (by decide), fun _ => ?_, ?_⟩
        · refine ⟨untagged.append messages, .inr ⟨resting.tagp, ?_, ?_, resting.isIdle⟩⟩
          · exact sameTag.trans resting.kept
          · exact sameIdle.trans resting.idleTag
        · exact fun isSearch => absurd isSearch (not_search_of_idle resting.isIdle)
    | idleDone errmsg =>
      cases asleep : dialog.idling cmd with
      | false => exact sound
      | true =>
        have resting := sound.idling going asleep
        refine (idleDone_sat resting errmsg).bind fun called spec => ?_
        refine ⟨fun _ => ⟨Answered.prepend untagged spec.1, spec.2⟩, (fun never => nomatch never),
          fun _ never => nomatch never⟩

/-- A SEARCH in an empty view: it is done, without the tagged response. -/
structure Unanswered (args : SearchArgs) (dialog : Dialog) : Prop where
  views : dialog.done = false → dialog.conn.dn.views = []
  untagged : Untagged dialog.out

theorem step_unanswered {args : SearchArgs} (dialog : Dialog) (event : DialogEvent)
    (unanswered : Unanswered args dialog) :
    Sat (step (.search args) dialog event) (Unanswered args) (fun _ => True) := by
  unfold step
  cases going : dialog.done with
  | true => exact unanswered
  | false =>
    rw [if_neg (by decide)]
    have empty := unanswered.views going
    cases event with
    | update update =>
      refine ⟨fun _ => ?_, unanswered.untagged⟩
      exact (dnImaildirUpdate_views dialog.conn.dn update).trans empty
    | call answers =>
      show Sat (call dialog (.search args) answers) _ _
      unfold call MailboxCmd.call search
      dsimp only
      rw [empty]
      unfold healthcheck
      cases dialog.conn.m with
      | false => exact trivial
      | true =>
        refine ⟨(fun never => nomatch never), unanswered.untagged.append ?_⟩
        exact Untagged.cons (show (DnResponse.search []).tag = none from rfl) Untagged.nil
    | wake => exact unanswered
    | idleDone errmsg => exact unanswered

/-- A command that is driven to its end is answered by one tagged response, the last one, and the
tag is taken for it; unless the command is a SEARCH in an empty view. -/
theorem answered_once (cmd : MailboxCmd) (conn : Conn) (tag : String) (free : conn.Free)
    (events : List DialogEvent) (dialog : Dialog)
    (run : Run.run (step cmd) (start conn tag) events = .ok dialog) (done : dialog.done = true) :
    (Answered tag dialog.out ∧ Taken dialog.conn dialog.tagp) ↔
      ¬(cmd.isSearch = true ∧ conn.dn.views = []) := by
  constructor
  · rintro ⟨answered, _⟩ ⟨isSearch, empty⟩
    cases cmd with
    | search args =>
      have begun : Unanswered args (start conn tag) := ⟨fun _ => empty, Untagged.nil⟩
      have sat := Run.run_sat step_unanswered begun events
      exact answered.not_untagged (sat.of_ok run).untagged
    | _ => exact nomatch isSearch
  · intro met
    have begun : Sound cmd tag (start conn tag) :=
      sound_start free fun isSearch empty => met ⟨isSearch, empty⟩
    have sat := Run.run_sat step_sound begun events
    exact (sat.of_ok run).ended done

/-- A mailbox with one message, which is not seen. -/
def oneView : List MsgView := [⟨.up 5, 1, 10, {}, {}⟩]

/-- A COPY of the message, up to its tagged response. -/
theorem answered_once_copy :
    (Answered "a" [stResp (some "a") .ok "No one will know the difference"] ∧
      Taken { dn := { id := 0, examine := false, views := oneView } } none) ↔
        ¬((MailboxCmd.copy ⟨false, [⟨1, 1⟩], "b"⟩).isSearch = true ∧ oneView = []) :=
  answered_once (.copy ⟨false, [⟨1, 1⟩], "b"⟩)
    { dn := { id := 0, examine := false, views := oneView } } "a" (by decide)
    [.call {}, .update (.sync none), .call {}]
    { conn := { dn := { id := 0, examine := false, views := oneView } }, tagp := none
      out := [stResp (some "a") .ok "No one will know the difference"], done := true } rfl rfl

/-- A SEARCH in an empty mailbox is done with no tagged response, and the tag is still there. -/
theorem search_not_answered :
    Run.run (step (.search ⟨false, fun _ _ _ _ => .ok true⟩))
        (start { dn := { id := 0, examine := false } } "a") [.call {}] =
      .ok { conn := { dn := { id := 0, examine := false } }, tagp := some "a"
            out := [.search []], done := true } ∧
      ¬Answered "a" [.search []] :=
  ⟨rfl, fun answered => answered.not_untagged (Untagged.cons rfl Untagged.nil)⟩

end Dialog

end Splintermail
