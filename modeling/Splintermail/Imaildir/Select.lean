/-
This file models `dn_select`: how the views of a connection are built, and the responses to a
SELECT or EXAMINE. It says for which views the UNSEEN response is right.

The views are nodes of a search tree. The loop that looks for the first unseen message
starts at the first one and steps to the previous one, so that it looks at no other.
-/

import Splintermail.Lib.Fuel
import Splintermail.Lib.Traversal
import Splintermail.Imaildir.Box

namespace Splintermail

open List

/-! ### Building the views -/

/-- `jsw_cmp_uint` -/
def jswCmpUint (one other : Nat) : Int := if one < other then -1 else if other < one then 1 else 0

/-- The comparison of the views of a connection. -/
def cmpUidDn (one other : MsgView) : Int := jswCmpUint one.uidDn other.uidDn

/-- `imaildir_dn_build_views`, as a tree. -/
def viewTree (box : Box) : ATree MsgView :=
  box.store.msgs.foldl (fun views msg =>
    if msg.state = .filled then views.insert cmpUidDn msg.view else views) .nil

theorem cmpUidDn_neg (one other : MsgView) : cmpUidDn one other < 0 ↔ one.uidDn < other.uidDn := by
  unfold cmpUidDn jswCmpUint
  split_ifs <;> omega

theorem viewTree_toList (box : Box) : (viewTree box).toList = box.buildViews ∧
    Tree.WeakSorted MsgView.uidDn (viewTree box).toList := by
  unfold viewTree Box.buildViews
  have start : (ATree.nil : ATree MsgView).toList = [] ∧
      Tree.WeakSorted MsgView.uidDn (ATree.nil : ATree MsgView).toList := ⟨rfl, .nil⟩
  generalize (ATree.nil : ATree MsgView) = tree, ([] : List MsgView) = views at start ⊢
  induction box.store.msgs generalizing tree views with
  | nil => exact start
  | cons msg rest ih =>
    obtain ⟨rfl, sorted⟩ := start
    refine ih _ _ ?_
    dsimp only
    split_ifs
    · have inserted := ATree.toList_insert (fun node => cmpUidDn_neg node msg.view) sorted
      refine ⟨inserted, ?_⟩
      rw [inserted]
      exact ATree.weakSorted_insert sorted
    · exact ⟨rfl, sorted⟩

/-! ### The responses -/

/-- The flags of `ie_flags_t`. -/
inductive SystemFlag where
  | answered
  | flagged
  | deleted
  | seen
  | draft
  deriving DecidableEq, Repr

/-- `ie_st_code_t` -/
inductive SelectCode where
  | unseen (seq : Nat)
  | permflags (flags : List SystemFlag)
  | uidnext (uid : Nat)
  | uidvld (uidvld : Nat)
  | readOnly
  | readWrite
  deriving DecidableEq, Repr

/-- The responses to a SELECT. -/
inductive SelectResponse where
  | flags (flags : List SystemFlag)
  | exists (count : Nat)
  | recent (count : Nat)
  | status (tagged : Bool) (status : Status) (code : Option SelectCode) (text : String)
  deriving DecidableEq, Repr

/-- `send_flags_resp` -/
def sendFlagsResp : SelectResponse := .flags [.answered, .flagged, .deleted, .seen, .draft]

/-- `send_recent_resp`: we don't support `\\Recent`. -/
def sendRecentResp : SelectResponse := .recent 0

/-- The loop of `send_unseen_resp`, which steps to the previous node. -/
def sendUnseenLoop (seq : Nat) (node : Option (ATrav MsgView)) : List SelectResponse :=
  match node with
  | none => []
  | some trav =>
    (if trav.value.flags.seen then []
      else [.status false .ok (some (.unseen seq)) "you ain't seen nuthin yet"]) ++
      match _moves : trav.move false with
      | none => []
      | some next => sendUnseenLoop (seq + 1) (some next)
  termination_by (node.map fun trav => (trav.ahead false).length).getD 0
  decreasing_by exact ATrav.length_ahead_move _moves

/-- `send_unseen_resp` -/
def sendUnseenResp (views : ATree MsgView) : List SelectResponse :=
  sendUnseenLoop 1 (ATrav.start false views)

/-- `send_pflags_resp` -/
def sendPflagsResp : SelectResponse :=
  .status false .ok (some (.permflags [.answered, .flagged, .deleted, .seen]))
    "here, have some permanentflags."

/-- `send_uidnext_resp`, whose number wraps around. -/
def sendUidnextResp (maxUidDn : Nat) : Except Derr SelectResponse := do
  let uidnext := (maxUidDn + 1) % (uintMax + 1)
  nznumSkipFill uidnext
  return .status false .ok (some (.uidnext uidnext)) "get ready, it's coming"

/-- `send_uidvld_resp` -/
def sendUidvldResp (uidvldDn : Nat) : Except Derr SelectResponse := do
  nznumSkipFill uidvldDn
  return .status false .ok (some (.uidvld uidvldDn)) "ride or die"

/-- `select_failure` -/
def selectFailure (status : Status) : List SelectResponse :=
  [.status true status none (if status = .no then "no such mailbox" else "failed to select")]

/-- What a SELECT comes to: it waits for the mailbox, it fails, or there are views. -/
inductive SelectOutcome where
  | waits
  | fails (responses : List SelectResponse)
  | selects (views : ATree MsgView) (responses : List SelectResponse)
  deriving DecidableEq

/-- The responses of a SELECT that succeeds. One that is not writable makes the SELECT fail, and then
none of them is sent. -/
def selectResponses (box : Box) (examine : Bool) (views : ATree MsgView) :
    Except Derr (List SelectResponse) :=
  if views.toList.length > uintMax then
    .error ⟨.value, "too many messages for exists response"⟩
  else do
    let uidnextResp ← sendUidnextResp box.store.hiUidDn
    let uidvldResp ← sendUidvldResp box.store.uidvldDn
    return [sendFlagsResp, .exists views.toList.length, sendRecentResp] ++ sendUnseenResp views ++
      [sendPflagsResp, uidnextResp, uidvldResp,
        .status true .ok (some (if examine then .readOnly else .readWrite)) "welcome in"]

/-- `dn_select`, with the status of the initial SELECT, if it is done, and whether the mailbox is in
sync for the connection. -/
def dnSelect (box : Box) (initial : Option Status) (synced examine : Bool) : Except Derr SelectOutcome :=
  match initial with
  | none => .ok .waits
  | some status =>
    if status ≠ .ok then .ok (.fails (selectFailure status))
    else if !synced then .ok .waits
    else do
      let views := viewTree box
      return .selects views (← selectResponses box examine views)

/-! ### The first unseen message -/

/-- The number of an UNSEEN response. -/
def SelectResponse.unseen : SelectResponse → Option Nat
  | .status _ _ (some (.unseen seq)) _ => some seq
  | _ => none

/-- There is one UNSEEN response if there is an unseen message, with the sequence number of the first
one, and else there is none. -/
def UnseenRight (views : List MsgView) (responses : List SelectResponse) : Prop :=
  responses.filterMap SelectResponse.unseen =
    ((views.findIdx? fun view => !view.flags.seen).map (· + 1)).toList

/-- The first message of the view, if there is one, is unseen, or no message is. -/
def FirstUnseen (views : List MsgView) : Prop :=
  (∃ first rest, views = first :: rest ∧ first.flags.seen = false) ∨
    ∀ view ∈ views, view.flags.seen = true

theorem sendUidnextResp_ok {maxUidDn : Nat} {resp : SelectResponse}
    (sent : sendUidnextResp maxUidDn = .ok resp) :
    resp = .status false .ok (some (.uidnext ((maxUidDn + 1) % (uintMax + 1)))) "get ready, it's coming" := by
  obtain ⟨-, -, result⟩ := ok_bind sent
  exact (Except.ok.inj result).symm

theorem sendUidvldResp_ok {uidvldDn : Nat} {resp : SelectResponse}
    (sent : sendUidvldResp uidvldDn = .ok resp) :
    resp = .status false .ok (some (.uidvld uidvldDn)) "ride or die" := by
  obtain ⟨-, -, result⟩ := ok_bind sent
  exact (Except.ok.inj result).symm

/-- Of the responses of a SELECT only those of `send_unseen_resp` are UNSEEN responses. -/
theorem selectResponses_unseen {box : Box} {examine : Bool} {views : ATree MsgView}
    {responses : List SelectResponse} (answered : selectResponses box examine views = .ok responses) :
    responses.filterMap SelectResponse.unseen = (sendUnseenResp views).filterMap SelectResponse.unseen := by
  unfold selectResponses at answered
  by_cases large : views.toList.length > uintMax
  · rw [if_pos large] at answered
    cases answered
  · rw [if_neg large] at answered
    obtain ⟨uidnextResp, uidnext, rest⟩ := ok_bind answered
    obtain ⟨uidvldResp, uidvld, result⟩ := ok_bind rest
    cases result
    rw [sendUidnextResp_ok uidnext, sendUidvldResp_ok uidvld, filterMap_append, filterMap_append]
    cases examine <;> exact append_nil _

/-- The loop looks at the first message only. -/
theorem sendUnseenResp_eq (views : ATree MsgView) :
    (sendUnseenResp views).filterMap SelectResponse.unseen = match views.toList with
      | [] => []
      | first :: _ => if first.flags.seen then [] else [1] := by
  have begins := ATrav.start_ahead false views
  unfold sendUnseenResp
  cases found : ATrav.start false views with
  | none =>
    rw [found] at begins
    obtain rfl : views = .nil := begins
    rw [sendUnseenLoop]
    rfl
  | some trav =>
    rw [found] at begins
    obtain ⟨whole, nothing⟩ : trav.value :: trav.ahead true = views.toList ∧ trav.ahead false = [] :=
      begins
    have stops : trav.move false = none := by
      have step := ATrav.move_ahead false trav
      cases moves : trav.move false with
      | none => rfl
      | some next =>
        rw [moves, nothing] at step
        cases step
    rw [sendUnseenLoop, ← whole]
    dsimp only
    rw [stops]
    cases trav.value.flags.seen <;> rfl

/-- A SELECT builds the views in the order of their uids, and its UNSEEN response is right if and only
if the first message is unseen or all are seen. -/
theorem dnSelect_unseen {box : Box} {initial : Option Status} {synced examine : Bool}
    {views : ATree MsgView} {responses : List SelectResponse}
    (selected : dnSelect box initial synced examine = .ok (.selects views responses)) :
    Tree.WeakSorted MsgView.uidDn views.toList ∧
      (UnseenRight views.toList responses ↔ FirstUnseen views.toList) := by
  obtain ⟨rfl, answered⟩ : views = viewTree box ∧
      selectResponses box examine (viewTree box) = .ok responses := by
    unfold dnSelect at selected
    cases initial with
    | none => cases selected
    | some status =>
      dsimp only at selected
      by_cases refused : status ≠ .ok
      · rw [if_pos refused] at selected
        cases selected
      · by_cases waits : (!synced) = true
        · rw [if_neg refused, if_pos waits] at selected
          cases selected
        · rw [if_neg refused, if_neg waits] at selected
          obtain ⟨replies, same, result⟩ := ok_bind selected
          cases result
          exact ⟨rfl, same⟩
  refine ⟨(viewTree_toList box).2, ?_⟩
  unfold UnseenRight
  rw [selectResponses_unseen answered, sendUnseenResp_eq]
  unfold FirstUnseen
  cases (viewTree box).toList with
  | nil => exact iff_of_true rfl (.inr nofun)
  | cons first rest =>
    rw [findIdx?_cons]
    dsimp only
    cases seen : first.flags.seen with
    | false => exact iff_of_true rfl (.inl ⟨first, rest, rfl, seen⟩)
    | true =>
      have none : [] = (((rest.findIdx? fun view => !view.flags.seen).map (· + 1)).map (· + 1)).toList ↔
          ∀ view ∈ rest, view.flags.seen = true := by
        rw [eq_comm, Option.toList_eq_nil_iff, Option.map_eq_none_iff, Option.map_eq_none_iff,
          findIdx?_eq_none_iff]
        simp only [Bool.not_eq_false']
      refine none.trans ⟨fun all => .inr fun view mem => ?_, ?_⟩
      · obtain rfl | inRest := mem_cons.mp mem
        · exact seen
        · exact all view inRest
      · rintro (⟨other, others, same, unseen⟩ | all)
        · obtain rfl := (cons.inj same).1
          exact absurd (seen.symm.trans unseen) nofun
        · exact fun view mem => all view (.tail first mem)

/-- A filled message with a uid, seen or not. -/
def plainMsg (uid : Nat) (seen : Bool) : Msg where
  key := .up uid
  uidDn := uid
  internaldate := {}
  flags := { seen }
  modseq := uid
  state := .filled

/-- A mailbox with some messages. -/
def plainBox (msgs : List Msg) : Box where
  store := { msgs, uidvldDn := 7, hiUidDn := msgs.length }
  disk := {}

/-- The first of two messages is unseen. -/
theorem dnSelect_unseen_first : ∃ responses,
    Tree.WeakSorted MsgView.uidDn (viewTree (plainBox [plainMsg 1 false, plainMsg 2 true])).toList ∧
      (UnseenRight (viewTree (plainBox [plainMsg 1 false, plainMsg 2 true])).toList responses ↔
        FirstUnseen (viewTree (plainBox [plainMsg 1 false, plainMsg 2 true])).toList) :=
  ⟨_, dnSelect_unseen (show dnSelect (plainBox [plainMsg 1 false, plainMsg 2 true]) (some .ok) true false =
    .ok (.selects _ _) from rfl)⟩

/-- The second of two messages is unseen, and nothing is reported. -/
theorem dnSelect_unseen_second : ∃ responses,
    dnSelect (plainBox [plainMsg 1 true, plainMsg 2 false]) (some .ok) true false =
      .ok (.selects (viewTree (plainBox [plainMsg 1 true, plainMsg 2 false])) responses) ∧
    ¬ UnseenRight (viewTree (plainBox [plainMsg 1 true, plainMsg 2 false])).toList responses := by
  have nodes : (viewTree (plainBox [plainMsg 1 true, plainMsg 2 false])).toList =
      [(plainMsg 1 true).view, (plainMsg 2 false).view] := by decide +kernel
  refine ⟨_, rfl, fun right => ?_⟩
  unfold UnseenRight at right
  rw [filterMap_append, filterMap_append, sendUnseenResp_eq, nodes] at right
  exact absurd right (by decide)

end Splintermail
