/-
This file proves the agreement on sequence numbers between a `dn_t` and its client
over whole sessions.

The invariant of a session relates the client to the views, the gathered batch that
a FETCH holds on to, and the pending updates. Every step of a session keeps it if no
batch that is gathered with its expunges holds both the arrival and the expunge of a
message. A session that gathers such a batch sends the EXPUNGE of a message that the
client has never seen.
-/

import Splintermail.Imaildir.Gather

namespace Splintermail

open List Session Update
open Outcome (Sat)

/-! ### The invariant -/

/-- The uids that a command still has to answer for. -/
def Command.targets : Command → List Nat
  | .store cmd => cmd.tree.map ExpFlags.uidDn
  | .fetch cmd => cmd.uidsDn
  | _ => []

/-- The invariant of a session. -/
structure Session.Valid (session : Session) : Prop where
  gathered : Gathered session.client session.dn.views session.dn.gathered
  pending : PendingFor session.dn.views session.dn.gathered.expunges session.dn.pending
  syncs : (session.dn.pending.filterMap syncResp).length =
    if session.dn.command.map Command.synced = some true then 1 else 0
  targets : ∀ command, session.dn.command = some command →
    ∀ uidDn ∈ command.targets, uidDn ∈ session.client
  fresh : ∀ command, session.dn.command = some command →
    command.synced = true → session.dn.gathered = {}
  processed : ∀ cmd, session.dn.command = some (.fetch cmd) →
    cmd.syncProcessed = true → cmd.synced = true

/-- The result of a call is one that the client can apply, with a valid session after it. -/
def Session.Accepts (session : Session) (result : Dn × List Response × List Update) : Prop :=
  ∃ client, clientApplyAll (viewUids result.1.views) session.client result.2.1 = .ok client ∧
    Valid ⟨result.1, client⟩

/-- A session may end with an error of the `dn_t` that is no disagreement. -/
def SessionFault.IsLimit (fault : SessionFault) : Prop := ∃ error, fault = .failed error ∧ Limit error

variable {session : Session}

theorem Session.answer_sat {result : Except Derr (Dn × List Response × List Update)}
    (accepts : Sat result session.Accepts Limit) :
    Sat (session.answer result) Valid SessionFault.IsLimit := by
  cases result with
  | error error => exact ⟨error, rfl, accepts⟩
  | ok result =>
    obtain ⟨client, applied, valid⟩ := accepts
    unfold answer
    dsimp only
    rw [applied]
    exact valid

variable {views : List MsgView}

theorem Gathered.client_eq {client : List Nat} (gathered : Gathered client views {}) :
    client = viewUids views := by
  rw [gathered.uids, append_nil]

theorem Gathered.initial (sorted : Tree.WeakSorted MsgView.uidDn views) :
    Gathered (viewUids views) views {} where
  uids := (append_nil _).symm
  sorted := sorted
  above := fun _ _ _ mem => absurd mem not_mem_nil
  within := Multiset.zero_le _
  metas := nofun
  nodup := nodup_nil

theorem Session.Valid.idle {dn : Dn} (command : dn.command = none)
    (sorted : Tree.WeakSorted MsgView.uidDn dn.views) (isPending : PendingFor dn.views [] dn.pending)
    (noSync : dn.pending.filterMap syncResp = []) : Valid ⟨dn, viewUids dn.views⟩ := by
  have none : dn.gathered = {} := by
    unfold Dn.gathered
    rw [command]
  refine ⟨?_, ?_, ?_, ?_, ?_, ?_⟩
  · rw [none]
    exact Gathered.initial sorted
  · rw [none]
    exact isPending
  · dsimp only
    rw [noSync, command]
    rfl
  all_goals
    intro other equal
    rw [command] at equal
    cases equal

/-- The end of a command: the gathered batch is sent. -/
theorem Session.Accepts.sent {dn : Dn} {gather : Gather} (uidMode : Bool)
    (forStore : Option StoreCmd) (gathered : Gathered session.client dn.views gather)
    (isPending : PendingFor dn.views gather.expunges dn.pending)
    (noSync : dn.pending.filterMap syncResp = [])
    (expected : ∀ store, forStore = some store → ∀ flags ∈ store.tree, flags.uidDn ∈ session.client) :
    Sat (gatherSendResponses dn gather uidMode forStore)
      (fun result => result.1.command = dn.command ∧
        ∀ freed, session.Accepts ({ result.1 with command := none }, result.2, freed)) Limit := by
  refine (gatherSendResponses_sat uidMode gathered expected).mono fun result spec => ?_
  obtain ⟨after, responses⟩ := result
  obtain ⟨frame, sorted, remaining, applied⟩ := spec
  dsimp only at frame sorted remaining applied ⊢
  refine ⟨by rw [frame], fun freed => ⟨viewUids after.views, applied, ?_⟩⟩
  refine Valid.idle rfl sorted ?_ ?_
  · rw [frame]
    refine ⟨?_, ?_, isPending.increasing⟩
    · dsimp only
      rw [remaining, Multiset.coe_nil, tsub_zero]
      exact isPending.settles
    · intro new isNew uidDn mem
      refine isPending.above new isNew uidDn ?_
      have inViews : uidDn ∈ (viewUids after.views : Multiset Nat) := mem
      rw [remaining] at inViews
      exact Multiset.mem_coe.mp (Multiset.mem_of_le (Multiset.sub_le_self _ _) inViews)
  · rw [frame]
    exact noSync

namespace Session.Valid

variable {session : Session}

section

variable (valid : session.Valid)

include valid

/-- Gathering with the sync update of the current command, or with none between commands. -/
theorem gather {allowExpunge wantSync : Bool} (none : session.dn.gathered = {})
    (sync : (session.dn.command.map Command.synced = some true) = (wantSync = true))
    (separate : allowExpunge = true → session.dn.Separate) :
    Sat (gatherUpdatesDontSend session.dn allowExpunge wantSync) (fun result =>
        result.1 = { session.dn with views := result.1.views, pending := result.1.pending } ∧
        Gathered session.client result.1.views result.2.1 ∧
        PendingFor result.1.views result.2.1.expunges result.1.pending ∧
        result.1.pending.filterMap syncResp = []) Limit := by
  have gathered := valid.gathered
  have isPending := valid.pending
  have syncs := valid.syncs
  rw [none] at gathered isPending
  rw [gathered.client_eq]
  refine gatherUpdatesDontSend_sat gathered.sorted isPending ?_ separate
  rw [syncs]
  simp only [sync]

theorem gatherUpdates (idle : session.dn.command = none) {allowExpunge : Bool} (uidMode : Bool)
    (separate : allowExpunge = true → session.dn.Separate) :
    Sat (dnGatherUpdates session.dn allowExpunge uidMode false) session.Accepts Limit := by
  have none : session.dn.gathered = {} := by
    unfold Dn.gathered
    rw [idle]
  have sync : (session.dn.command.map Command.synced = some true) = (false = true) := by
    rw [idle]
    simp
  unfold dnGatherUpdates
  refine (valid.gather none sync separate).bind fun result spec => ?_
  obtain ⟨dn, gather, resp⟩ := result
  obtain ⟨frame, gathered, isPending, noSync⟩ := spec
  dsimp only at frame gathered isPending noSync ⊢
  refine (Accepts.sent uidMode .none gathered isPending noSync
    fun _ equal => nomatch equal).bind fun sent spec => ?_
  obtain ⟨after, responses⟩ := sent
  obtain ⟨same, accepts⟩ := spec
  have done : { after with command := .none } = after := by
    rw [frame, idle] at same
    cases after
    cases same
    rfl
  exact done ▸ accepts gather.updatesToFree

theorem storeFinish {cmd : StoreCmd} (current : session.dn.command = some (.store cmd))
    (synced : cmd.synced = true) (separate : cmd.uidMode = true → session.dn.Separate) :
    Sat (storeFinish session.dn cmd) session.Accepts Limit := by
  have none := valid.fresh _ current synced
  have sync : (session.dn.command.map Command.synced = some true) = (true = true) := by
    rw [current]
    simp [Command.synced, synced]
  have expected : ∀ store, some cmd = some store →
      ∀ flags ∈ store.tree, flags.uidDn ∈ session.client := by
    rintro store ⟨⟩ flags mem
    exact valid.targets _ current _ (mem_map_of_mem mem)
  unfold Splintermail.storeFinish
  refine (valid.gather none sync separate).bind fun result spec => ?_
  obtain ⟨dn, gather, resp⟩ := result
  obtain ⟨frame, gathered, isPending, noSync⟩ := spec
  refine (Accepts.sent cmd.uidMode (some cmd) gathered isPending noSync expected).bind
    fun sent spec => ?_
  exact spec.2 gather.updatesToFree

theorem waitFinish {cmd : WaitCmd} {command : Command} (current : session.dn.command = some command)
    (synced : command.synced = true) (separate : session.dn.Separate) :
    Sat (waitFinish session.dn cmd) session.Accepts Limit := by
  have none := valid.fresh _ current synced
  have sync : (session.dn.command.map Command.synced = some true) = (true = true) := by
    rw [current]
    simp [synced]
  unfold Splintermail.waitFinish dnGatherUpdates
  rw [bind_assoc]
  refine (valid.gather none sync fun _ => separate).bind fun result spec => ?_
  obtain ⟨dn, gather, resp⟩ := result
  obtain ⟨frame, gathered, isPending, noSync⟩ := spec
  dsimp only
  rw [bind_assoc]
  refine (Accepts.sent cmd.uidMode .none gathered isPending noSync
    fun _ equal => nomatch equal).bind fun sent spec => ?_
  exact spec.2 gather.updatesToFree

end

/-- One response of a FETCH, or its end. -/
theorem fetchRespond {dn : Dn} {cmd : FetchCmd} {gather : Gather}
    (gathered : Gathered session.client dn.views gather)
    (isPending : PendingFor dn.views gather.expunges dn.pending)
    (noSync : dn.pending.filterMap syncResp = [])
    (targets : ∀ uidDn ∈ cmd.uidsDn, uidDn ∈ session.client)
    (done : cmd.synced = true → cmd.syncProcessed = true)
    (processed : cmd.syncProcessed = true → cmd.synced = true) :
    Sat (fetchRespond dn cmd gather) session.Accepts Limit := by
  unfold Splintermail.fetchRespond
  cases uids : cmd.uidsDn with
  | nil =>
    refine (Accepts.sent cmd.uidMode .none gathered isPending noSync
    fun _ equal => nomatch equal).bind fun sent spec => ?_
    exact spec.2 gather.updatesToFree
  | cons uidDn rest =>
    rw [uids] at targets
    have mem := targets uidDn mem_cons_self
    have bounded := idxOf_lt_length_of_mem mem
    refine (lookupView_client gathered.uids mem).bind fun found facts => ?_
    have applied : ∀ flags uid, clientApplyAll (viewUids dn.views) session.client
        [.fetch found.2 flags uid] = .ok session.client := fun flags uid =>
      (Touches.single (by omega) (by omega)).applyAll
    refine ⟨session.client, applied _ _, ?_⟩
    refine ⟨?_, isPending, ?_, ?_, ?_, ?_⟩
    · -- the answered message is taken out of the changes
      refine { gathered with metas := fun other changed => ?_, nodup := ?_ }
      · exact gathered.metas other (mem_of_mem_eraseP changed)
      · exact gathered.nodup.sublist eraseP_sublist
    · show (dn.pending.filterMap syncResp).length = _
      rw [noSync, if_neg]
      · rfl
      · intro isSynced
        have both : (cmd.synced && !cmd.syncProcessed) = true := Option.some.inj isSynced
        rw [Bool.and_eq_true, Bool.not_eq_true'] at both
        rw [done both.1] at both
        exact nomatch both.2
    · rintro command ⟨⟩ other inRest
      exact targets other (.tail _ inRest)
    · rintro command ⟨⟩ isSynced
      have both : (cmd.synced && !cmd.syncProcessed) = true := isSynced
      rw [Bool.and_eq_true, Bool.not_eq_true'] at both
      rw [done both.1] at both
      exact nomatch both.2
    · rintro other ⟨⟩ isProcessed
      exact processed isProcessed

section

variable (valid : session.Valid)

include valid

/-- The end of the STORE of a FETCH, and the first response after it. -/
theorem fetchPostSync {cmd : FetchCmd} (current : session.dn.command = some (.fetch cmd))
    (synced : (cmd.synced && !cmd.syncProcessed) = true)
    (separate : cmd.uidMode = true → session.dn.Separate) :
    Sat (fetchPostSync session.dn cmd) session.Accepts Limit := by
  have none := valid.fresh _ current synced
  have sync : (session.dn.command.map Command.synced = some true) = (true = true) := by
    rw [current]
    simp only [Option.map_some, Command.synced, synced]
  unfold Splintermail.fetchPostSync
  refine (valid.gather none sync separate).bind fun result spec => ?_
  obtain ⟨dn, gather, resp⟩ := result
  obtain ⟨frame, gathered, isPending, noSync⟩ := spec
  cases resp with
  | some resp =>
    refine (Accepts.sent cmd.uidMode .none gathered isPending noSync
      fun _ equal => nomatch equal).bind fun sent spec => ?_
    exact spec.2 gather.updatesToFree
  | none =>
    refine fetchRespond gathered isPending noSync (valid.targets _ current) (fun _ => rfl) fun _ => ?_
    rw [Bool.and_eq_true] at synced
    exact synced.1

theorem disconnectFinish {cmd : WaitCmd} (current : session.dn.command = some (.disconnect cmd))
    (synced : cmd.synced = true) : Sat (disconnectFinish session.dn) session.Accepts Limit := by
  have none := valid.fresh _ current synced
  have gathered := valid.gathered
  have isPending := valid.pending
  rw [none] at gathered isPending
  unfold Splintermail.disconnectFinish
  split
  · exact .inr (.inr (.inr rfl))
  · refine ⟨session.client, rfl, ?_⟩
    rw [gathered.client_eq]
    have news : (session.dn.pending.filter fun update => update.syncResp.isNone).filterMap
        newUid = session.dn.pending.filterMap newUid := by
      rw [filterMap_filter]
      refine filterMap_congr fun update mem => ?_
      cases update <;> rfl
    refine Valid.idle rfl gathered.sorted ⟨?_, ?_, ?_⟩ ?_
    · exact isPending.settles.filter
    · dsimp only
      rw [news]
      exact isPending.above
    · dsimp only
      rw [news]
      exact isPending.increasing
    · refine filterMap_eq_nil_iff.mpr fun update mem => ?_
      exact Option.isNone_iff_eq_none.mp (mem_filter.mp mem).2

/-- The call for the command in progress. -/
theorem advance {command : Command} (current : session.dn.command = some command)
    (separate : command.takesExpunges = true → session.dn.Separate) :
    Sat (command.advance session.dn) session.Accepts Limit := by
  have unchanged : session.Accepts (session.dn, [], []) := ⟨session.client, rfl, valid⟩
  cases command with
  | store cmd =>
    rw [Command.advance]
    split
    · rename_i synced
      refine valid.storeFinish current synced fun uidMode => separate ?_
      rw [Command.takesExpunges, synced, uidMode]
      rfl
    · exact unchanged
  | expunge cmd =>
    rw [Command.advance]
    split
    · rename_i synced
      exact valid.waitFinish current synced (separate synced)
    · exact unchanged
  | copy cmd =>
    rw [Command.advance]
    split
    · rename_i synced
      exact valid.waitFinish current synced (separate synced)
    · exact unchanged
  | disconnect cmd =>
    rw [Command.advance]
    split
    · rename_i synced
      exact valid.disconnectFinish current synced
    · exact unchanged
  | fetch cmd =>
    rw [Command.advance]
    split
    · rename_i synced
      refine valid.fetchPostSync current synced fun uidMode => separate ?_
      rw [Command.takesExpunges, synced, uidMode]
      rfl
    · rename_i notSynced
      split
      · rename_i gather ready
        have held : session.dn.gathered = gather := by
          unfold Dn.gathered
          rw [current]
          dsimp only
          rw [ready]
          rfl
        have gathered := valid.gathered
        have isPending := valid.pending
        have syncs := valid.syncs
        rw [held] at gathered isPending
        rw [current, if_neg] at syncs
        · refine fetchRespond gathered isPending (length_eq_zero_iff.mp syncs)
            (valid.targets _ current) (fun synced => ?_) (valid.processed cmd current)
          cases processed : cmd.syncProcessed with
          | true => rfl
          | false => simp [synced, processed] at notSynced
        · simpa [Command.synced] using notSynced
      · exact unchanged

/-! ### Starting commands -/

theorem begin (idle : session.dn.command = none) {command : Command}
    (unsynced : command.synced = false)
    (noGather : ({ session.dn with command := some command } : Dn).gathered = {})
    (unprocessed : ∀ cmd, command = .fetch cmd → cmd.syncProcessed = false)
    (targets : ∀ uidDn ∈ command.targets, uidDn ∈ session.client) :
    session.Accepts ({ session.dn with command := some command }, [], []) := by
  have none : session.dn.gathered = {} := by
    unfold Dn.gathered
    rw [idle]
  have gathered := valid.gathered
  have isPending := valid.pending
  have syncs := valid.syncs
  rw [none] at gathered isPending
  rw [idle] at syncs
  refine ⟨session.client, rfl, ⟨?_, ?_, ?_, ?_, ?_, ?_⟩⟩
  · rw [noGather]
    exact gathered
  · rw [noGather]
    exact isPending
  · simp only [Option.map_some, unsynced]
    exact syncs
  · rintro other ⟨⟩ uidDn mem
    exact targets uidDn mem
  · rintro other ⟨⟩ synced
    exact absurd synced (by rw [unsynced]; exact Bool.false_ne_true)
  · rintro cmd ⟨⟩ processed
    rw [unprocessed cmd rfl] at processed
    exact nomatch processed

end

theorem expectFlags_uids (sign : Int) (command : MsgFlags) (views : List MsgView) :
    Sat (expectFlags sign command views)
      (fun tree => tree.map ExpFlags.uidDn = viewUids views) Limit := by
  induction views with
  | nil => rfl
  | cons view rest ih =>
    have flagsSat : Sat (storeFlags sign view.flags command) (fun _ => True) Limit := by
      unfold storeFlags
      split
      · trivial
      split
      · trivial
      split
      · trivial
      · exact .inr (.inr (.inl rfl))
    unfold expectFlags
    refine flagsSat.bind fun flags _ => ?_
    refine ih.bind fun tree uids => ?_
    show view.uidDn :: tree.map ExpFlags.uidDn = view.uidDn :: viewUids rest
    rw [uids]

section

variable (valid : session.Valid)

include valid

theorem storeBegin (idle : session.dn.command = none) (uidMode silent : Bool) (sign : Int)
    (flags : MsgFlags) (requested : List Nat) :
    Sat (storeBegin session.dn uidMode silent sign flags requested)
      (fun dn => session.Accepts (dn, [], [])) Limit := by
  have none : session.dn.gathered = {} := by
    unfold Dn.gathered
    rw [idle]
  have gathered := valid.gathered
  rw [none] at gathered
  unfold Splintermail.storeBegin
  refine (expectFlags_uids sign flags _).bind fun tree uids => ?_
  refine valid.begin idle rfl rfl (fun _ equal => nomatch equal) fun uidDn mem => ?_
  have inFiltered : uidDn ∈ viewUids (session.dn.views.filter fun view => view.uidDn ∈ requested) :=
    uids ▸ mem
  rw [gathered.client_eq]
  exact (filter_sublist.map MsgView.uidDn).subset inFiltered

theorem fetchBegin (idle : session.dn.command = none) (uidMode flags uid : Bool)
    (requested : List Nat) (peek : Bool)
    (separate : peek = true → uidMode = true → session.dn.Separate) :
    Sat (fetchBegin session.dn uidMode flags uid requested peek)
      (fun dn => session.Accepts (dn, [], [])) Limit := by
  have none : session.dn.gathered = {} := by
    unfold Dn.gathered
    rw [idle]
  have known : ∀ uidDn ∈ canonicalUidsDn session.dn requested, uidDn ∈ session.client := by
    intro uidDn mem
    have gathered := valid.gathered
    rw [none] at gathered
    rw [gathered.client_eq]
    exact (mem_filter.mp mem).1
  unfold Splintermail.fetchBegin
  cases peek with
  | false => exact valid.begin idle rfl rfl (fun cmd equal => by cases equal; rfl) known
  | true =>
    have sync : (session.dn.command.map Command.synced = some true) = (false = true) := by
      rw [idle]
      simp
    refine (valid.gather none sync (separate rfl)).bind fun result spec => ?_
    obtain ⟨dn, gather, resp⟩ := result
    obtain ⟨frame, gathered, isPending, noSync⟩ := spec
    refine ⟨session.client, rfl, ⟨gathered, isPending, ?_, ?_, ?_, ?_⟩⟩
    · show (dn.pending.filterMap syncResp).length = _
      rw [noSync]
      rfl
    · rintro command ⟨⟩ uidDn mem
      exact known uidDn mem
    · rintro command ⟨⟩ synced
      exact nomatch synced
    · rintro cmd ⟨⟩ processed
      exact nomatch processed

/-! ### Updates -/

/-- An update that is not a sync is appended. -/
theorem append {update : Update} (notSync : update.syncResp = none)
    (distributes : session.dn.Distributes update) :
    Valid { session with dn := { session.dn with pending := session.dn.pending ++ [update] } } := by
  have syncs : ((session.dn.pending ++ [update]).filterMap syncResp) =
      session.dn.pending.filterMap syncResp := by
    rw [filterMap_append, filterMap_cons_none notSync, filterMap_nil, append_nil]
  refine ⟨valid.gathered, ?_, ?_, valid.targets, valid.fresh, valid.processed⟩
  · refine ⟨valid.pending.settles.snoc ?_, ?_, ?_⟩
    · intro uidDn expunged
      cases update with
      | expunge record =>
        cases expunged
        exact distributes
      | new view | flags view | sync resp => cases expunged
    · intro new mem uidDn known
      rw [filterMap_append] at mem
      rcases mem_append.mp mem with old | last
      · exact valid.pending.above new old uidDn known
      · cases update with
        | new view =>
          rw [mem_singleton.mp last]
          exact distributes.1 uidDn known
        | expunge record | flags view | sync resp => cases last
    · dsimp only
      rw [filterMap_append]
      refine pairwise_append.mpr ⟨valid.pending.increasing, ?_, ?_⟩
      · cases update with
        | new view => exact pairwise_singleton _ _
        | expunge record | flags view | sync resp => exact List.Pairwise.nil
      · intro first firstMem second secondMem
        cases update with
        | new view =>
          rw [mem_singleton.mp secondMem]
          exact distributes.2 first firstMem
        | expunge record | flags view | sync resp => cases secondMem
  · dsimp only
    rw [syncs]
    exact valid.syncs

/-- A sync update wakes the command that waits for it. -/
theorem wake {resp : Option StResp} (waits : session.dn.command.map Command.waits = some true) :
    Valid { session with dn := dnImaildirUpdate session.dn (.sync resp) } := by
  obtain ⟨command, current, waiting⟩ := Option.map_eq_some_iff.mp waits
  have awake : (dnImaildirUpdate session.dn (.sync resp)).command = some command.wake := by
    show session.dn.command.map Command.wake = _
    rw [current]
    rfl
  have synced : command.synced = false ∧ command.wake.synced = true := by
    cases command with
    | store cmd | expunge cmd | copy cmd | disconnect cmd =>
      simpa [Command.waits, Command.synced, Command.wake] using waiting
    | fetch cmd =>
      have processed := valid.processed cmd current
      have facts : cmd.synced = false ∧ cmd.ready = none := by
        simpa [Command.waits] using waiting
      have unprocessed : cmd.syncProcessed = false := by
        cases isProcessed : cmd.syncProcessed with
        | false => rfl
        | true =>
          rw [facts.1] at processed
          exact absurd (processed isProcessed) Bool.false_ne_true
      simp [Command.synced, Command.wake, facts.1, unprocessed]
  have held : session.dn.gathered = {} ∧
      (dnImaildirUpdate session.dn (.sync resp)).gathered = {} := by
    unfold Dn.gathered
    rw [awake, current]
    cases command with
    | store cmd | expunge cmd | copy cmd | disconnect cmd => exact ⟨rfl, rfl⟩
    | fetch cmd =>
      have ready : cmd.ready = none := by
        have facts : cmd.synced = false ∧ cmd.ready = none := by
          simpa [Command.waits] using waiting
        exact facts.2
      simp [Command.wake, ready]
  have news : (session.dn.pending ++ [sync resp]).filterMap newUid =
      session.dn.pending.filterMap newUid := by
    rw [filterMap_append]
    exact append_nil _
  have gathered := valid.gathered
  have isPending := valid.pending
  rw [held.1] at gathered isPending
  refine ⟨?_, ?_, ?_, ?_, ?_, ?_⟩
  · dsimp only
    rw [held.2]
    exact gathered
  · dsimp only
    rw [held.2]
    refine ⟨isPending.settles.snoc (by rintro _ ⟨⟩), ?_, ?_⟩
    · show ∀ new ∈ (session.dn.pending ++ [sync resp]).filterMap newUid, _
      rw [news]
      exact isPending.above
    · show ((session.dn.pending ++ [sync resp]).filterMap newUid).Pairwise _
      rw [news]
      exact isPending.increasing
  · have before := valid.syncs
    rw [current, Option.map_some, synced.1, if_neg (by simp)] at before
    dsimp only
    rw [awake, Option.map_some, synced.2, if_pos rfl]
    show ((session.dn.pending ++ [sync resp]).filterMap syncResp).length = 1
    rw [filterMap_append, length_append, before]
    rfl
  · intro other equal uidDn mem
    rw [awake] at equal
    cases equal
    refine valid.targets command current uidDn ?_
    cases command <;> exact mem
  · intro other equal _
    exact held.2
  · intro cmd equal processed
    rw [awake] at equal
    cases command with
    | store cmd | expunge cmd | copy cmd | disconnect cmd => cases equal
    | fetch cmd =>
      cases equal
      rfl

theorem update {update : Update} (distributes : session.dn.Distributes update) :
    Valid { session with dn := dnImaildirUpdate session.dn update } := by
  cases update with
  | new view | flags view | expunge record => exact valid.append rfl distributes
  | sync resp => exact valid.wake distributes

end

end Session.Valid

/-! ### Agreement -/

theorem Session.begun_sat {result : Except Derr Dn}
    (accepts : Sat result (fun dn => session.Accepts (dn, [], [])) Limit) :
    Sat (result.map (·, [], [])) session.Accepts Limit := by
  cases result with
  | error error => exact accepts
  | ok dn => exact accepts

theorem Session.Valid.call (valid : session.Valid) {call : DnCall}
    (separate : session.dn.takesExpunges call = true → session.dn.Separate) :
    Sat (session.dn.call call) session.Accepts Limit := by
  have unchanged : session.Accepts (session.dn, [], []) := ⟨session.client, rfl, valid⟩
  unfold Dn.call
  split
  · rename_i allowExpunge uidMode idle
    refine valid.gatherUpdates idle uidMode fun allowed => separate ?_
    rw [Dn.takesExpunges, idle, allowed]
    rfl
  · rename_i uidMode silent sign flags requested idle
    exact begun_sat (valid.storeBegin idle uidMode silent sign flags requested)
  · rename_i idle
    exact valid.begin idle rfl rfl (fun _ equal => nomatch equal)
      nofun
  · rename_i uidMode idle
    exact valid.begin idle rfl rfl (fun _ equal => nomatch equal)
      nofun
  · rename_i idle
    exact valid.begin idle rfl rfl (fun _ equal => nomatch equal)
      nofun
  · rename_i uidMode flags uid requested peek idle
    refine begun_sat
      (valid.fetchBegin idle uidMode flags uid requested peek fun isPeek inUidMode => separate ?_)
    rw [Dn.takesExpunges, idle, isPeek, inUidMode]
    rfl
  · rename_i command current
    refine valid.advance current fun takes => separate ?_
    rw [Dn.takesExpunges, current]
    exact takes
  · exact unchanged

/-- Every step of a session keeps the invariant, under the condition on the step. -/
theorem Session.step_sat (session : Session) (event : SessionEvent) (valid : session.Valid)
    (meets : session.Meets event) : Sat (session.step event) Valid SessionFault.IsLimit := by
  cases event with
  | update update => exact valid.update meets
  | call call => exact answer_sat (valid.call meets)

/-- The client agrees with the views whenever no gathered batch is held back by a FETCH. -/
def Session.Agrees (session : Session) : Prop :=
  session.dn.gathered = {} → session.client = viewUids session.dn.views

theorem Session.Valid.agrees (valid : session.Valid) : session.Agrees := by
  intro none
  have gathered := valid.gathered
  rw [none] at gathered
  exact gathered.client_eq

theorem Session.Valid.select (sorted : Tree.WeakSorted MsgView.uidDn views) :
    (select views).Valid :=
  Valid.idle rfl sorted ⟨trivial, nofun, List.Pairwise.nil⟩ rfl

/-- In a session whose gathers with expunges hold no message that both arrived and was expunged,
every response names a message that the client has, and the client agrees with the views. -/
theorem session_agrees {views : List MsgView} (sorted : Tree.WeakSorted MsgView.uidDn views)
    (events : List SessionEvent)
    (guarded : Run.Guarded step Meets (select views) events) :
    Sat (Run.run step (select views) events) Agrees SessionFault.IsLimit := by
  have valid := Run.Guarded.sat step_sat (Valid.select sorted) guarded
  exact valid.mono fun session => Valid.agrees

/-- A message that arrives, is stored to and fetched, and is expunged in a later batch. -/
def pollingEvents : List SessionEvent :=
  let view : MsgView := ⟨.up 7, 2, 10, {}, {}⟩
  [.update (.new view), .call (.gather true false),
    .call (.storeBegin true false 1 { seen := true } [2]),
    .update (.flags { view with flags := { seen := true } }), .update (.sync none), .call .advance,
    .update (.expunge ⟨.up 7, 2, .pushed, 4⟩), .call (.fetchBegin false true false [1, 2] true),
    .update (.new ⟨.up 8, 3, 10, {}, {}⟩), .call .advance, .call .advance, .call .advance,
    .call (.gather true false)]

theorem session_agrees_polling :
    Run.Guarded step Meets (select [⟨.up 5, 1, 10, {}, {}⟩]) pollingEvents ∧
    Sat (Run.run step (select [⟨.up 5, 1, 10, {}, {}⟩]) pollingEvents)
      Agrees SessionFault.IsLimit := by
  have guarded : Run.Guarded step Meets
      (select [⟨.up 5, 1, 10, {}, {}⟩]) pollingEvents := by decide +kernel
  exact ⟨guarded, session_agrees (pairwise_singleton _ _) _ guarded⟩

/-- A message that arrives and is expunged between two polls: the client of an empty mailbox is
told to remove its first message. -/
theorem session_expunges_unseen :
    Run.Guarded step Offered (select [])
      [.update (.new ⟨.up 5, 1, 10, {}, {}⟩), .update (.expunge ⟨.up 5, 1, .pushed, 2⟩),
        .call (.gather true false)] ∧
    Run.run step (select [])
      [.update (.new ⟨.up 5, 1, 10, {}, {}⟩), .update (.expunge ⟨.up 5, 1, .pushed, 2⟩),
        .call (.gather true false)] = .error (.outOfRange (.expunge 1)) := by
  constructor <;> decide

end Splintermail
