/-
This file models how a STORE is begun, with its message set, and says what its responses
report.

The flags that the STORE predicts are kept in a tree, and the updates that arrive until it
is done are gathered in another one. The two are walked together. How often a uid comes up
in either decides how often it is reported: a uid that the tree has twice is reported twice
if the STORE is not silent and its flags are as predicted.
-/

import Mathlib.Data.List.Forall2
import Splintermail.Imaildir.Canonical
import Splintermail.Imaildir.Gather

namespace Splintermail

open List Splintermail.Tree IeSeqSet

/-! ### Beginning a STORE -/

/-- What a STORE comes to when it is begun. -/
inductive StoreBegun where
  | no (text : String)
  | bad (text : String)
  | noop (dn : Dn) (responses : List Response) (freed : List Update) (text : String)
  | relays (dn : Dn) (keys : List MsgKey)
  deriving DecidableEq

/-- `uids_dn_to_msg_keys`. A new key comes first. -/
def uidsDnToMsgKeys (views : List MsgView) (uidsDn : IeSeqSet) : Except Derr (List MsgKey) :=
  (ieSeqSetValues uidsDn 0 0).foldlM (fun keys uidDn =>
    match find MsgView.uidDn uidDn views with
    | none => .error ⟨.internal, "canonical list has missing uid"⟩
    | some view => .ok (view.key :: keys)) []

/-- The loop of `store_begin`, which predicts the flags of each message. -/
def predictFlags (views : List MsgView) (sign : Int) (flags : MsgFlags) (uidsDn : IeSeqSet) :
    Except Derr (List ExpFlags) :=
  (ieSeqSetValues uidsDn 0 0).foldlM (fun tree uidDn =>
    match find MsgView.uidDn uidDn views with
    | none => .error ⟨.internal, "uid_dn not found"⟩
    | some view => do
      let newFlags ← storeFlags sign view.flags flags
      return insert ExpFlags.uidDn ⟨uidDn, newFlags⟩ tree) []

/-- `msg_flags_from_flags` -/
def msgFlagsFromFlags : Option IeFlags → MsgFlags
  | none => {}
  | some flags =>
    { answered := flags.answered
      flagged := flags.flagged
      seen := flags.seen
      draft := flags.draft
      deleted := flags.deleted }

/-- `store_begin` -/
def dnStoreBegin (dn : Dn) (store : IeStoreCmd) : Except Derr StoreBegun :=
  if dn.examine then .ok (.no "mailbox is read-only")
  else do
    let (uidsDn, ok) ← seqSetToCanonicalUidsDn dn.views store.uidMode store.seqSet
    if !ok then return .bad "bad message set"
    -- detect noop STOREs
    else if uidsDn = [] then
      let (dn, responses, freed) ← dnGatherUpdates dn store.uidMode store.uidMode false
      return .noop dn responses freed "noop STORE command"
    else
      let keys ← uidsDnToMsgKeys dn.views uidsDn
      let tree ← predictFlags dn.views store.sign (msgFlagsFromFlags store.flags) uidsDn
      return .relays { dn with
        command := some (.store { uidMode := store.uidMode, silent := store.silent, tree }) } keys

/-! ### One response -/

/-- The current flags of a message. -/
def currentFlags (views : List MsgView) (uidDn : Nat) : MsgFlags :=
  ((find MsgView.uidDn uidDn views).map MsgView.flags).getD {}

/-- A FETCH with the current flags and the current sequence number of a message. -/
def IsCurrentFetch (views : List MsgView) (uidMode : Bool) (uidDn : Nat) (response : Response) : Prop :=
  ∃ index view, views[index]? = some view ∧ view.uidDn = uidDn ∧
    response = .fetch (index + 1) (some view.flags) (if uidMode then some uidDn else none)

section Walk

variable {views : List MsgView} (numbered : Numbered views)

include numbered

/-- A uid in the view is found, with its sequence number. -/
theorem lookupView_eq {uidDn : Nat} (mem : uidDn ∈ viewUids views) :
    ∃ index view, views[index]? = some view ∧ view.uidDn = uidDn ∧
      view.flags = currentFlags views uidDn ∧
      ∀ missing, lookupView missing views uidDn = .ok (view, index + 1) := by
  obtain ⟨view, inViews, same⟩ := mem_map.mp mem
  obtain ⟨index, at_⟩ := mem_iff_getElem?.mp inViews
  obtain ⟨inside, isView⟩ := List.getElem?_eq_some_iff.mp at_
  have found : find MsgView.uidDn uidDn views = some view :=
    numbered.sorted.find_eq_some.mpr ⟨inViews, same⟩
  have position : views.findIdx? (fun view => view.uidDn = uidDn) = some index := by
    rw [findIdx?_eq_some_iff_getElem]
    refine ⟨inside, by rw [isView]; exact decide_eq_true same, fun other before equal => ?_⟩
    have otherAt := getElem?_eq_getElem (before.trans inside)
    exact absurd (numbered.index_inj otherAt at_ ((of_decide_eq_true equal).trans same.symm))
      (Nat.ne_of_lt before)
  refine ⟨index, view, at_, same, ?_, fun missing => ?_⟩
  · unfold currentFlags
    rw [found]
    rfl
  · have small : ¬ index ≥ uintMax := Nat.not_le_of_lt (inside.trans_le numbered.length_le)
    unfold lookupView
    rw [position, found]
    dsimp only
    rw [indexToSeqNum, if_neg small]
    rfl

/-- What the three functions that may respond for a message send: the FETCH of its current state, or
nothing. -/
theorem sendStoreResp_eq (store : StoreCmd) {uidDn : Nat} (mem : uidDn ∈ viewUids views) :
    ∃ response, IsCurrentFetch views store.uidMode uidDn response ∧
      sendStoreRespNoexp views store uidDn = .ok [response] ∧
      ∀ expected : ExpFlags, expected.uidDn = uidDn →
        sendStoreRespNoupdate views store expected =
            .ok (if expected.flags = currentFlags views uidDn ∧ store.silent = false
              then [response] else []) ∧
          sendStoreRespExpupdate views store expected =
            .ok (if expected.flags = currentFlags views uidDn ∧ store.silent = true
              then [] else [response]) := by
  obtain ⟨index, view, at_, same, current, looks⟩ := lookupView_eq numbered mem
  refine ⟨sendFlagsUpdate store.uidMode view (index + 1), ⟨index, view, at_, same, ?_⟩, ?_,
    fun expected isExpected => ⟨?_, ?_⟩⟩
  · rw [← same]
    rfl
  · unfold sendStoreRespNoexp
    rw [looks]
    rfl
  · unfold sendStoreRespNoupdate
    rw [isExpected, looks, ← current]
    by_cases equal : expected.flags = view.flags <;> cases silent : store.silent <;>
      simp [equal, pure, Except.pure, bind, Except.bind]
  · unfold sendStoreRespExpupdate
    rw [isExpected, looks, ← current]
    by_cases equal : expected.flags = view.flags <;> cases silent : store.silent <;>
      simp [equal, pure, Except.pure, bind, Except.bind]

end Walk

/-! ### The walk -/

/-- How often a message is reported. A message that is in the tree with its current flags is reported
as often as it is in the tree, or never if the STORE is silent. Any other message is reported if it was
gathered. -/
def reportCount (views : List MsgView) (silent : Bool) (predicted : Nat → MsgFlags)
    (tree : List ExpFlags) (metas : List Nat) (uidDn : Nat) : Nat :=
  if uidDn ∈ tree.map ExpFlags.uidDn ∧ predicted uidDn = currentFlags views uidDn then
    if silent then 0 else (tree.map ExpFlags.uidDn).count uidDn
  else metas.count uidDn

/-- The responses report some uids in ascending order, each of them some number of times. -/
def ReportsTimes (views : List MsgView) (uidMode : Bool) (outcome : Except Derr (List Response))
    (times : Nat → Nat) : Prop :=
  ∃ uids responses, outcome = .ok responses ∧
    List.Forall₂ (IsCurrentFetch views uidMode) uids responses ∧
    uids.Pairwise (· ≤ ·) ∧ ∀ uidDn, uids.count uidDn = times uidDn

variable {views : List MsgView} {uidMode : Bool}

/-- The head of a walk is reported before the rest. -/
theorem ReportsTimes.cons {first second : Except Derr (List Response)} {times : Nat → Nat}
    {head count : Nat} {response : Response} (rest : ReportsTimes views uidMode second times)
    (isFetch : IsCurrentFetch views uidMode head response)
    (sends : first = .ok (replicate count response))
    (least : ∀ uidDn, times uidDn ≠ 0 → head ≤ uidDn) :
    ReportsTimes views uidMode (do return (← first) ++ (← second))
      fun uidDn => (if head = uidDn then count else 0) + times uidDn := by
  obtain ⟨uids, responses, rfl, fetches, sorted, counts⟩ := rest
  rw [sends]
  refine ⟨replicate count head ++ uids, replicate count response ++ responses, rfl, ?_, ?_,
    fun uidDn => ?_⟩
  · refine rel_append ?_ fetches
    clear sends
    induction count with
    | zero => exact .nil
    | succ count ih => exact .cons isFetch ih
  · refine pairwise_append.mpr ⟨pairwise_replicate.mpr (.inr (Nat.le_refl head)), sorted, ?_⟩
    intro one inHead other inRest
    rw [eq_of_mem_replicate inHead]
    refine least other ?_
    rw [← counts]
    exact Nat.ne_of_gt (count_pos_iff.mpr inRest)
  · rw [count_append, counts, count_replicate]
    simp only [beq_iff_eq]

section Counts

variable {views : List MsgView} {silent : Bool} {predicted : Nat → MsgFlags} {tree : List ExpFlags}
  {metas : List Nat}

theorem mem_of_reportCount {uidDn : Nat}
    (reported : reportCount views silent predicted tree metas uidDn ≠ 0) :
    uidDn ∈ tree.map ExpFlags.uidDn ∨ uidDn ∈ metas := by
  unfold reportCount at reported
  by_cases inTree : uidDn ∈ tree.map ExpFlags.uidDn
  · exact .inl inTree
  · rw [if_neg fun both => inTree both.1] at reported
    exact .inr (count_pos_iff.mp (Nat.pos_of_ne_zero reported))

theorem reportCount_noexp {head : Nat} (notInTree : head ∉ tree.map ExpFlags.uidDn) :
    reportCount views silent predicted tree (head :: metas) = fun uidDn =>
      (if head = uidDn then 1 else 0) + reportCount views silent predicted tree metas uidDn := by
  funext uidDn
  unfold reportCount
  by_cases same : head = uidDn
  · obtain rfl := same
    simp only [notInTree, false_and, if_false, if_true, count_cons_self, Nat.add_comm]
  · rw [count_cons_of_ne same, if_neg same, Nat.zero_add]

/-- A message that was predicted only. -/
theorem reportCount_noupdate {expected : ExpFlags} (notGathered : expected.uidDn ∉ metas)
    (isPredicted : expected.flags = predicted expected.uidDn) :
    reportCount views silent predicted (expected :: tree) metas = fun uidDn =>
      (if expected.uidDn = uidDn then
        if expected.flags = currentFlags views expected.uidDn ∧ silent = false then 1 else 0
      else 0) + reportCount views silent predicted tree metas uidDn := by
  funext uidDn
  unfold reportCount
  by_cases same : expected.uidDn = uidDn
  · have none : metas.count uidDn = 0 := count_eq_zero.mpr (same ▸ notGathered)
    rw [if_pos same, isPredicted, same, none, map_cons, same, count_cons_self]
    by_cases equal : predicted uidDn = currentFlags views uidDn <;> cases silent <;>
      by_cases again : uidDn ∈ tree.map ExpFlags.uidDn <;>
      simp [equal, again, count_eq_zero.mpr, Nat.add_comm]
  · have differ : ¬ uidDn = expected.uidDn := fun equal => same equal.symm
    simp only [if_neg same, Nat.zero_add, map_cons, count_cons_of_ne same, mem_cons,
      differ, false_or]

/-- A message that was predicted and gathered. -/
theorem reportCount_expupdate {expected : ExpFlags} (once : expected.uidDn ∉ metas)
    (isPredicted : expected.flags = predicted expected.uidDn) :
    reportCount views silent predicted (expected :: tree) (expected.uidDn :: metas) = fun uidDn =>
      (if expected.uidDn = uidDn then
        if expected.flags = currentFlags views expected.uidDn ∧ silent = true then 0 else 1
      else 0) + reportCount views silent predicted tree metas uidDn := by
  funext uidDn
  unfold reportCount
  by_cases same : expected.uidDn = uidDn
  · have none : metas.count uidDn = 0 := count_eq_zero.mpr (same ▸ once)
    rw [if_pos same, isPredicted, same, none, map_cons, same, count_cons_self,
      count_cons_self, none]
    by_cases equal : predicted uidDn = currentFlags views uidDn <;> cases silent <;>
      by_cases again : uidDn ∈ tree.map ExpFlags.uidDn <;>
      simp [equal, again, count_eq_zero.mpr, Nat.add_comm]
  · have differ : ¬ uidDn = expected.uidDn := fun equal => same equal.symm
    simp only [if_neg same, Nat.zero_add, map_cons, count_cons_of_ne same, mem_cons,
      differ, false_or]

end Counts

/-- The walk reports each message as often as it should. -/
theorem sendStoreFetchResps_reports (numbered : Numbered views) (store : StoreCmd)
    {predicted : Nat → MsgFlags} {tree : List ExpFlags} {metas : List Nat}
    (treeSorted : WeakSorted ExpFlags.uidDn tree) (metasSorted : metas.Pairwise (· < ·))
    (treeIn : ∀ expected ∈ tree, expected.uidDn ∈ viewUids views)
    (metasIn : ∀ uidDn ∈ metas, uidDn ∈ viewUids views)
    (predicts : ∀ expected ∈ tree, expected.flags = predicted expected.uidDn) :
    ReportsTimes views store.uidMode (sendStoreFetchResps views store tree metas)
      (reportCount views store.silent predicted tree metas) := by
  induction tree, metas using sendStoreFetchResps.induct with
  | case1 =>
    rw [sendStoreFetchResps]
    exact ⟨[], [], rfl, .nil, .nil, fun uidDn => rfl⟩
  | case2 uidDn metas ih =>
    obtain ⟨below, restSorted⟩ := pairwise_cons.mp metasSorted
    obtain ⟨response, isFetch, sends, -⟩ :=
      sendStoreResp_eq numbered store (metasIn uidDn mem_cons_self)
    rw [sendStoreFetchResps, reportCount_noexp not_mem_nil]
    refine (ih treeSorted restSorted treeIn
      (fun other mem => metasIn other (.tail _ mem)) predicts).cons isFetch
      (show sendStoreRespNoexp views store uidDn = .ok (replicate 1 response) from sends) ?_
    intro other reported
    exact Nat.le_of_lt (below other ((mem_of_reportCount reported).resolve_left not_mem_nil))
  | case3 expected tree ih =>
    obtain ⟨below, restSorted⟩ := pairwise_cons.mp treeSorted
    obtain ⟨response, isFetch, -, others⟩ :=
      sendStoreResp_eq numbered store (treeIn expected mem_cons_self)
    rw [sendStoreFetchResps, reportCount_noupdate not_mem_nil (predicts expected mem_cons_self)]
    refine (ih restSorted metasSorted (fun other mem => treeIn other (.tail _ mem))
      metasIn fun other mem => predicts other (.tail _ mem)).cons isFetch ?_ ?_
    · rw [(others expected rfl).1]
      split <;> rfl
    · intro other reported
      obtain inTree | gathered := mem_of_reportCount reported
      · obtain ⟨later, mem, rfl⟩ := mem_map.mp inTree
        exact below later mem
      · exact absurd gathered not_mem_nil
  | case4 expected tree uidDn metas behind ih =>
    obtain ⟨below, restSorted⟩ := pairwise_cons.mp metasSorted
    obtain ⟨treeBelow, -⟩ := pairwise_cons.mp treeSorted
    obtain ⟨response, isFetch, sends, -⟩ :=
      sendStoreResp_eq numbered store (metasIn uidDn mem_cons_self)
    have above : ∀ other ∈ (expected :: tree).map ExpFlags.uidDn, uidDn < other := by
      intro other mem
      obtain ⟨later, inTree, rfl⟩ := mem_map.mp mem
      obtain rfl | inRest := mem_cons.mp inTree
      · exact behind
      · exact behind.trans_le (treeBelow later inRest)
    rw [sendStoreFetchResps, if_pos behind,
      reportCount_noexp fun mem => Nat.lt_irrefl _ (above uidDn mem)]
    refine (ih treeSorted restSorted treeIn
      (fun other mem => metasIn other (.tail _ mem)) predicts).cons isFetch
      (show sendStoreRespNoexp views store uidDn = .ok (replicate 1 response) from sends) ?_
    intro other reported
    obtain inTree | gathered := mem_of_reportCount reported
    · exact Nat.le_of_lt (above other inTree)
    · exact Nat.le_of_lt (below other gathered)
  | case5 expected tree uidDn metas notBehind ahead ih =>
    obtain ⟨below, restSorted⟩ := pairwise_cons.mp treeSorted
    obtain ⟨metasBelow, -⟩ := pairwise_cons.mp metasSorted
    obtain ⟨response, isFetch, -, others⟩ :=
      sendStoreResp_eq numbered store (treeIn expected mem_cons_self)
    have above : ∀ other ∈ uidDn :: metas, expected.uidDn < other := by
      intro other mem
      obtain rfl | inRest := mem_cons.mp mem
      · exact ahead
      · exact ahead.trans (metasBelow other inRest)
    rw [sendStoreFetchResps, if_neg notBehind, if_pos ahead,
      reportCount_noupdate (fun mem => Nat.lt_irrefl _ (above _ mem))
        (predicts expected mem_cons_self)]
    refine (ih restSorted metasSorted (fun other mem => treeIn other (.tail _ mem))
      metasIn fun other mem => predicts other (.tail _ mem)).cons isFetch ?_ ?_
    · rw [(others expected rfl).1]
      split <;> rfl
    · intro other reported
      obtain inTree | gathered := mem_of_reportCount reported
      · obtain ⟨later, mem, rfl⟩ := mem_map.mp inTree
        exact below later mem
      · exact Nat.le_of_lt (above other gathered)
  | case6 expected tree uidDn metas notBehind notAhead ih =>
    obtain rfl : expected.uidDn = uidDn := Nat.le_antisymm (Nat.le_of_not_lt notBehind)
      (Nat.le_of_not_lt notAhead)
    obtain ⟨below, restSorted⟩ := pairwise_cons.mp treeSorted
    obtain ⟨metasBelow, metasRestSorted⟩ := pairwise_cons.mp metasSorted
    obtain ⟨response, isFetch, -, others⟩ :=
      sendStoreResp_eq numbered store (treeIn expected mem_cons_self)
    rw [sendStoreFetchResps, if_neg notBehind, if_neg notAhead,
      reportCount_expupdate (fun mem => Nat.lt_irrefl _ (metasBelow _ mem))
        (predicts expected mem_cons_self)]
    refine (ih restSorted metasRestSorted (fun other mem => treeIn other (.tail _ mem))
      (fun other mem => metasIn other (.tail _ mem))
      fun other mem => predicts other (.tail _ mem)).cons isFetch ?_ ?_
    · rw [(others expected rfl).2]
      split <;> rfl
    · intro other reported
      obtain inTree | gathered := mem_of_reportCount reported
      · obtain ⟨later, mem, rfl⟩ := mem_map.mp inTree
        exact below later mem
      · exact Nat.le_of_lt (metasBelow other gathered)

/-! ### The predictions -/

/-- A STORE sets, adds or removes flags. -/
def Signed (sign : Int) : Prop := sign = 0 ∨ sign = 1 ∨ sign = -1

theorem Signed.storeFlags_ok {sign : Int} (signed : Signed sign) (old flags : MsgFlags) :
    ∃ made, storeFlags sign old flags = .ok made := by
  obtain rfl | rfl | rfl := signed
  · exact ⟨flags, rfl⟩
  · exact ⟨old.or flags, rfl⟩
  · exact ⟨old.andNot flags, rfl⟩

/-- The flags that a STORE predicts for a message. -/
def predictedFlags (views : List MsgView) (sign : Int) (flags : MsgFlags) (uidDn : Nat) : MsgFlags :=
  match storeFlags sign (currentFlags views uidDn) flags with
  | .ok made => made
  | .error _ => {}

/-- The tree of predictions has the uids of the set, each with the flags that are predicted for it. -/
theorem predictFlags_spec (numbered : Numbered views) {sign : Int} (signed : Signed sign)
    (flags : MsgFlags) {uidsDn : IeSeqSet} (canonical : Canonical uidsDn)
    (inViews : ∀ uidDn ∈ expand uidsDn, uidDn ∈ viewUids views) :
    ∃ tree, predictFlags views sign flags uidsDn = .ok tree ∧ WeakSorted ExpFlags.uidDn tree ∧
      (tree.map ExpFlags.uidDn).Perm (expand uidsDn) ∧
      ∀ expected ∈ tree, expected.flags = predictedFlags views sign flags expected.uidDn := by
  unfold predictFlags
  rw [canonical.values_eq]
  have start : WeakSorted ExpFlags.uidDn [] ∧
      ∀ expected ∈ ([] : List ExpFlags), expected.flags = predictedFlags views sign flags expected.uidDn :=
    ⟨.nil, nofun⟩
  suffices general : ∀ tree, (WeakSorted ExpFlags.uidDn tree ∧
      ∀ expected ∈ tree, expected.flags = predictedFlags views sign flags expected.uidDn) →
      ∃ final, (expand uidsDn).foldlM (fun tree uidDn =>
          match find MsgView.uidDn uidDn views with
          | none => .error ⟨.internal, "uid_dn not found"⟩
          | some view => do
            let newFlags ← storeFlags sign view.flags flags
            return insert ExpFlags.uidDn ⟨uidDn, newFlags⟩ tree) tree =
          (.ok final : Except Derr (List ExpFlags)) ∧
        WeakSorted ExpFlags.uidDn final ∧
        (final.map ExpFlags.uidDn).Perm (expand uidsDn ++ tree.map ExpFlags.uidDn) ∧
        ∀ expected ∈ final, expected.flags = predictedFlags views sign flags expected.uidDn by
    obtain ⟨final, result, sorted, uids, predicts⟩ := general [] start
    rw [map_nil, append_nil] at uids
    exact ⟨final, result, sorted, uids, predicts⟩
  generalize expand uidsDn = uids at inViews
  induction uids with
  | nil => exact fun tree facts => ⟨tree, rfl, facts.1, .refl _, facts.2⟩
  | cons uidDn rest ih =>
    rintro tree ⟨sorted, predicts⟩
    obtain ⟨index, view, at_, same, current, -⟩ :=
      lookupView_eq numbered (inViews uidDn mem_cons_self)
    have found : find MsgView.uidDn uidDn views = some view :=
      numbered.sorted.find_eq_some.mpr ⟨mem_of_getElem? at_, same⟩
    obtain ⟨made, makes⟩ := signed.storeFlags_ok view.flags flags
    have isPredicted : made = predictedFlags views sign flags uidDn := by
      unfold predictedFlags
      rw [← current, makes]
    have insertion : ((insert ExpFlags.uidDn ⟨uidDn, made⟩ tree).map ExpFlags.uidDn).Perm
        (uidDn :: tree.map ExpFlags.uidDn) :=
      (perm_orderedInsert _ (⟨uidDn, made⟩ : ExpFlags) tree).map ExpFlags.uidDn
    obtain ⟨final, result, finalSorted, uids, finalPredicts⟩ := ih
      (fun other mem => inViews other (.tail _ mem)) (insert ExpFlags.uidDn ⟨uidDn, made⟩ tree)
      ⟨ATree.weakSorted_insert sorted, fun expected mem => by
        obtain rfl | old := mem_insert.mp mem
        · exact isPredicted
        · exact predicts expected old⟩
    refine ⟨final, ?_, finalSorted, (uids.trans (insertion.append_left rest)).trans perm_middle,
      finalPredicts⟩
    rw [foldlM_cons, found]
    dsimp only
    rw [makes]
    exact result

/-! ### The updates until the STORE is done -/

/-- New messages that arrive have uids of their own. -/
structure Arrives (views : List MsgView) (updates : List Update) : Prop where
  apart : (viewUids views ++ updates.filterMap Update.newUid).Nodup
  range : ∀ uidDn ∈ updates.filterMap Update.newUid, uidDn ≠ 0 ∧ uidDn ≤ uintMax

/-- What is gathered so far. -/
structure GatheredSoFar (views : List MsgView) (done : List Update) (state : GatherState) : Prop where
  uids : (viewUids state.views).Perm (viewUids views ++ done.filterMap Update.newUid)
  sorted : WeakSorted MsgView.uidDn state.views
  metasSorted : state.gather.metas.Pairwise (· < ·)
  metasIn : ∀ uidDn ∈ state.gather.metas, uidDn ∈ viewUids state.views

variable {state : GatherState}

theorem gatherUpdate_flags_none {view : MsgView}
    (missing : find MsgView.uidDn view.uidDn state.views = none) (allowExpunge : Bool) :
    gatherUpdate allowExpunge state (.flags view) = state := by
  simp only [gatherUpdate, gatherUpdateMeta, missing]

/-- An update of a message in the view. -/
theorem gatherUpdate_flags_some {view old : MsgView}
    (found : find MsgView.uidDn view.uidDn state.views = some old) (allowExpunge : Bool) :
    gatherUpdate allowExpunge state (.flags view) = { state with
        views := insert MsgView.uidDn view (erase MsgView.uidDn view.uidDn state.views)
        gather := { state.gather with
          metas := if view.uidDn ∈ state.gather.metas then state.gather.metas
            else insert id view.uidDn state.gather.metas } } := by
  simp only [gatherUpdate, gatherUpdateMeta, found]

/-- One update. -/
theorem GatheredSoFar.step {done : List Update} (soFar : GatheredSoFar views done state)
    (allowExpunge : Bool) (update : Update) :
    GatheredSoFar views (done ++ [update]) (gatherUpdate allowExpunge state update) := by
  have sameNews : update.newUid = none →
      (done ++ [update]).filterMap Update.newUid = done.filterMap Update.newUid := fun none => by
    rw [filterMap_append, filterMap_cons_none none, filterMap_nil, append_nil]
  cases update with
  | new view =>
    have insertion : (viewUids (insert MsgView.uidDn view state.views)).Perm
        (view.uidDn :: viewUids state.views) :=
      (perm_orderedInsert _ view state.views).map MsgView.uidDn
    refine ⟨?_, ATree.weakSorted_insert soFar.sorted, soFar.metasSorted,
      fun uidDn mem => insertion.mem_iff.mpr (.tail _ (soFar.metasIn uidDn mem))⟩
    rw [filterMap_append, ← append_assoc]
    exact insertion.trans ((soFar.uids.cons view.uidDn).trans (perm_append_singleton _ _).symm)
  | flags view =>
    have news := sameNews rfl
    cases found : find MsgView.uidDn view.uidDn state.views with
    | none =>
      rw [gatherUpdate_flags_none found]
      exact ⟨by rw [news]; exact soFar.uids, soFar.sorted, soFar.metasSorted, soFar.metasIn⟩
    | some old =>
      rw [gatherUpdate_flags_some found]
      have sameUids : viewUids (insert MsgView.uidDn view
          (erase MsgView.uidDn view.uidDn state.views)) = viewUids state.views :=
        map_key_insert_erase soFar.sorted ⟨old, find_mem found, find_key found⟩
      have inViews : view.uidDn ∈ viewUids state.views :=
        mem_map.mpr ⟨old, find_mem found, find_key found⟩
      refine ⟨?_, ATree.weakSorted_insert (WeakSorted.erase soFar.sorted view.uidDn), ?_, ?_⟩
      · rw [news]
        exact sameUids ▸ soFar.uids
      · dsimp only
        by_cases known : view.uidDn ∈ state.gather.metas
        · rw [if_pos known]
          exact soFar.metasSorted
        · rw [if_neg known]
          exact Sorted.insert soFar.metasSorted view.uidDn fun uidDn mem same =>
            known (same ▸ mem)
      · intro uidDn mem
        change uidDn ∈ viewUids (insert MsgView.uidDn view _)
        rw [sameUids]
        dsimp only at mem
        by_cases known : view.uidDn ∈ state.gather.metas
        · rw [if_pos known] at mem
          exact soFar.metasIn uidDn mem
        · rw [if_neg known] at mem
          obtain rfl | old := mem_insert.mp mem
          · exact inViews
          · exact soFar.metasIn uidDn old
  | expunge record =>
    have news := sameNews rfl
    unfold gatherUpdate
    dsimp only
    split
    · exact ⟨by rw [news]; exact soFar.uids, soFar.sorted, soFar.metasSorted, soFar.metasIn⟩
    · exact ⟨by rw [news]; exact soFar.uids, soFar.sorted, soFar.metasSorted, soFar.metasIn⟩
  | sync resp =>
    exact ⟨by rw [sameNews rfl]; exact soFar.uids, soFar.sorted, soFar.metasSorted, soFar.metasIn⟩

theorem GatheredSoFar.batch (allowExpunge : Bool) (updates : List Update) :
    ∀ {done : List Update} {state : GatherState}, GatheredSoFar views done state →
      GatheredSoFar views (done ++ updates) (updates.foldl (gatherUpdate allowExpunge) state) := by
  induction updates with
  | nil => exact fun soFar => (append_nil _).symm ▸ soFar
  | cons update rest ih =>
    intro done state soFar
    have whole := ih (soFar.step allowExpunge update)
    rw [append_assoc] at whole
    exact whole

/-- The updates that a connection is told of while it waits for a STORE. -/
theorem foldl_dnImaildirUpdate (updates : List Update) {dn : Dn} {store : StoreCmd}
    (started : dn.command = some (.store store)) :
    ∃ synced, updates.foldl dnImaildirUpdate dn = { dn with
        pending := dn.pending ++ updates
        command := some (.store { store with synced }) } := by
  induction updates generalizing dn store with
  | nil =>
    refine ⟨store.synced, ?_⟩
    rw [append_nil, foldl_nil, ← started]
  | cons update rest ih =>
    obtain ⟨synced, step⟩ : ∃ synced, dnImaildirUpdate dn update = { dn with
          pending := dn.pending ++ [update]
          command := some (.store { store with synced }) } := by
      unfold dnImaildirUpdate
      rw [started]
      cases update with
      | sync resp => exact ⟨true, rfl⟩
      | new view | flags view | expunge record => exact ⟨store.synced, by rw [← started]⟩
    have woken : (dnImaildirUpdate dn update).command = some (.store { store with synced }) := by
      rw [step]
    obtain ⟨final, result⟩ := ih woken
    refine ⟨final, ?_⟩
    rw [foldl_cons, result, step, append_assoc]
    rfl

variable {gather : Gather} {resp : Option StResp}

/-- What is gathered is the work of the loop on a first part of the pending updates. -/
theorem gatherUpdatesDontSend_ok {dn next : Dn} {allowExpunge wantSync : Bool}
    (gathers : gatherUpdatesDontSend dn allowExpunge wantSync = .ok (next, gather, resp)) :
    ∃ batch rest, dn.pending = batch ++ rest ∧
      next.views = (batch.foldl (gatherUpdate allowExpunge) { views := dn.views }).views ∧
      gather = (batch.foldl (gatherUpdate allowExpunge) { views := dn.views }).gather := by
  unfold gatherUpdatesDontSend at gathers
  obtain ⟨batch, found, split⟩ : ∃ batch found, splitSync dn.pending = (batch, found) := ⟨_, _, rfl⟩
  rw [split] at gathers
  cases found with
  | none =>
    cases wantSync with
    | true => cases gathers
    | false =>
      cases gathers
      exact ⟨batch, [], by rw [(splitSync_none split).1, append_nil], rfl, rfl⟩
  | some found =>
    obtain ⟨other, rest⟩ := found
    cases wantSync with
    | false => cases gathers
    | true =>
      cases gathers
      exact ⟨batch, _, (splitSync_some split).1, rfl, rfl⟩

theorem foldl_erase_sublist (erased uids : List Nat) :
    (erased.foldl (fun uids uidDn => erase id uidDn uids) uids).Sublist uids := by
  induction erased generalizing uids with
  | nil => exact .refl uids
  | cons uidDn rest ih =>
    exact (ih _).trans eraseP_sublist

theorem Gather.cancel_sublist (gather : Gather) : gather.cancel.metas.Sublist gather.metas :=
  (foldl_erase_sublist _ _).trans (foldl_erase_sublist _ _)

/-- The views and the changed messages when the responses to a STORE are sent. -/
theorem gathered_numbered {dn next : Dn} {allowExpunge wantSync : Bool}
    (gathers : gatherUpdatesDontSend dn allowExpunge wantSync = .ok (next, gather, resp))
    (numbered : Numbered dn.views) (arrives : Arrives dn.views dn.pending) :
    Numbered next.views ∧ (∀ uidDn ∈ viewUids dn.views, uidDn ∈ viewUids next.views) ∧
      gather.cancel.metas.Pairwise (· < ·) ∧
      ∀ uidDn ∈ gather.cancel.metas, uidDn ∈ viewUids next.views := by
  obtain ⟨batch, rest, whole, views, rfl⟩ := gatherUpdatesDontSend_ok gathers
  have start : GatheredSoFar dn.views [] { views := dn.views } :=
    ⟨by rw [filterMap_nil, append_nil], numbered.sorted.imp Nat.le_of_lt, .nil, nofun⟩
  have final := start.batch allowExpunge batch
  rw [nil_append] at final
  have fewer : (batch.filterMap Update.newUid).Sublist (dn.pending.filterMap Update.newUid) := by
    rw [whole, filterMap_append]
    exact sublist_append_left _ _
  have uids : (viewUids next.views).Perm (viewUids dn.views ++ batch.filterMap Update.newUid) := by
    rw [views]
    exact final.uids
  have nodup : (viewUids next.views).Nodup :=
    uids.nodup_iff.mpr (arrives.apart.sublist (fewer.append_left _))
  have range : ∀ view ∈ next.views, view.uidDn ≠ 0 ∧ view.uidDn ≤ uintMax := by
    intro view mem
    obtain old | new := mem_append.mp (uids.mem_iff.mp (mem_map_of_mem mem))
    · obtain ⟨other, inViews, same⟩ := mem_map.mp old
      exact same ▸ ⟨numbered.positive other inViews, numbered.small other inViews⟩
    · exact arrives.range _ (fewer.subset new)
  refine ⟨⟨?_, fun view mem => (range view mem).1, fun view mem => (range view mem).2⟩,
    fun uidDn mem => uids.mem_iff.mpr (mem_append_left _ mem),
    final.metasSorted.sublist (Gather.cancel_sublist _), fun uidDn mem => ?_⟩
  · have weak : WeakSorted MsgView.uidDn next.views := by
      rw [views]
      exact final.sorted
    exact (weak.and (pairwise_map.mp nodup)).imp fun both => lt_of_le_of_ne both.1 both.2
  · rw [views]
    exact final.metasIn uidDn ((Gather.cancel_sublist _).subset mem)

/-! ### What a STORE reports -/

namespace IeStoreCmd

/-- A STORE predicts the flags of a message that it denotes. -/
def Predicts (store : IeStoreCmd) (views : List MsgView) (uidDn : Nat) (flags : MsgFlags) : Prop :=
  SetDenotes views store.uidMode store.seqSet uidDn ∧
    storeFlags store.sign (currentFlags views uidDn) (msgFlagsFromFlags store.flags) = .ok flags

/-- A message has to be reported: it was changed to other flags than were predicted, or without being
in the STORE, or the STORE is not silent and the message has the flags that were predicted. -/
def MustReport (store : IeStoreCmd) (before after : List MsgView) (metas : List Nat) (uidDn : Nat) : Prop :=
  (uidDn ∈ metas ∧ ∃ flags, store.Predicts before uidDn flags ∧ currentFlags after uidDn ≠ flags) ∨
    (uidDn ∈ metas ∧ ¬ SetDenotes before store.uidMode store.seqSet uidDn) ∨
      (store.silent = false ∧ store.Predicts before uidDn (currentFlags after uidDn))

/-- The responses are one FETCH for each message that has to be reported, in ascending order, with its
current flags and sequence number. -/
def ReportsRight (store : IeStoreCmd) (before after : List MsgView) (metas : List Nat)
    (outcome : Except Derr (List Response)) : Prop :=
  ∃ uids responses, outcome = .ok responses ∧
    List.Forall₂ (IsCurrentFetch after store.uidMode) uids responses ∧
    uids.Pairwise (· < ·) ∧ ∀ uidDn, uidDn ∈ uids ↔ store.MustReport before after metas uidDn

end IeStoreCmd

theorem pairwise_lt_iff {uids : List Nat} (weak : uids.Pairwise (· ≤ ·)) :
    uids.Pairwise (· < ·) ↔ ∀ uidDn, uids.count uidDn ≤ 1 := by
  rw [← nodup_iff_count_le_one]
  exact ⟨fun strict => strict.imp Nat.ne_of_lt,
    fun nodup => (weak.and nodup).imp fun both => lt_of_le_of_ne both.1 both.2⟩

theorem IsCurrentFetch.unique {first second : Nat} {response : Response}
    (one : IsCurrentFetch views uidMode first response)
    (other : IsCurrentFetch views uidMode second response) : first = second := by
  obtain ⟨index, view, at_, rfl, rfl⟩ := one
  obtain ⟨otherIndex, otherView, otherAt, rfl, same⟩ := other
  obtain rfl : index = otherIndex := Nat.succ.inj (Response.fetch.inj same).1
  rw [Option.some.inj (at_.symm.trans otherAt)]

theorem forall₂_currentFetch_unique {first second : List Nat} {responses : List Response}
    (one : List.Forall₂ (IsCurrentFetch views uidMode) first responses)
    (other : List.Forall₂ (IsCurrentFetch views uidMode) second responses) : first = second := by
  induction one generalizing second with
  | nil =>
    cases other
    rfl
  | cons here rest ih =>
    obtain _ | ⟨otherHere, otherRest⟩ := other
    rw [here.unique otherHere, ih otherRest]

variable {store : IeStoreCmd}

/-- A STORE that is relayed has resolved its message set, and has its predictions. -/
theorem dnStoreBegin_relays {dn begun : Dn} {keys : List MsgKey}
    (begins : dnStoreBegin dn store = .ok (.relays begun keys)) :
    ∃ uidsDn tree, seqSetToCanonicalUidsDn dn.views store.uidMode store.seqSet = .ok (uidsDn, true) ∧
      predictFlags dn.views store.sign (msgFlagsFromFlags store.flags) uidsDn = .ok tree ∧
      begun = { dn with
        command := some (.store { uidMode := store.uidMode, silent := store.silent, tree }) } := by
  unfold dnStoreBegin at begins
  by_cases examine : dn.examine = true
  · rw [if_pos examine] at begins
    cases begins
  rw [if_neg examine] at begins
  obtain ⟨⟨uidsDn, ok⟩, resolved, begins⟩ := ok_bind begins
  cases ok with
  | false => cases begins
  | true =>
    by_cases noop : uidsDn = []
    · dsimp only at begins
      rw [if_neg (by decide), if_pos noop] at begins
      obtain ⟨⟨after, responses, freed⟩, -, begins⟩ := ok_bind begins
      cases begins
    · dsimp only at begins
      rw [if_neg (by decide), if_neg noop] at begins
      obtain ⟨found, -, begins⟩ := ok_bind begins
      obtain ⟨tree, predicted, begins⟩ := ok_bind begins
      cases begins
      exact ⟨uidsDn, tree, resolved, predicted, rfl⟩

section Relayed

variable {before after : List MsgView} {store : IeStoreCmd} {tree : List ExpFlags}
  {metas uids : List Nat}

/-- The flags that a STORE predicts are those in its tree. -/
theorem predicts_iff (signed : Signed store.sign)
    (inTree : ∀ uidDn, uidDn ∈ tree.map ExpFlags.uidDn ↔
      SetDenotes before store.uidMode store.seqSet uidDn) (uidDn : Nat) (flags : MsgFlags) :
    store.Predicts before uidDn flags ↔ uidDn ∈ tree.map ExpFlags.uidDn ∧
      predictedFlags before store.sign (msgFlagsFromFlags store.flags) uidDn = flags := by
  obtain ⟨result, makes⟩ := signed.storeFlags_ok (currentFlags before uidDn)
    (msgFlagsFromFlags store.flags)
  unfold IeStoreCmd.Predicts predictedFlags
  rw [inTree, makes, Except.ok.injEq]

/-- What is reported at all is what has to be. -/
theorem mem_iff_mustReport (signed : Signed store.sign)
    (inTree : ∀ uidDn, uidDn ∈ tree.map ExpFlags.uidDn ↔
      SetDenotes before store.uidMode store.seqSet uidDn)
    (counts : ∀ uidDn, uids.count uidDn = reportCount after store.silent
      (predictedFlags before store.sign (msgFlagsFromFlags store.flags)) tree metas uidDn)
    (uidDn : Nat) : uidDn ∈ uids ↔ store.MustReport before after metas uidDn := by
  rw [← count_pos_iff, counts]
  unfold reportCount IeStoreCmd.MustReport
  simp only [predicts_iff signed inTree, ← inTree]
  by_cases denoted : uidDn ∈ tree.map ExpFlags.uidDn
  · have some : 0 < (tree.map ExpFlags.uidDn).count uidDn := count_pos_iff.mpr denoted
    by_cases equal : predictedFlags before store.sign (msgFlagsFromFlags store.flags) uidDn =
        currentFlags after uidDn
    · cases silent : store.silent <;> simp [denoted, equal, some]
    · have differ : ¬ currentFlags after uidDn =
          predictedFlags before store.sign (msgFlagsFromFlags store.flags) uidDn :=
        fun same => equal same.symm
      simp [denoted, equal, differ, count_pos_iff]
  · simp [denoted, count_pos_iff]

/-- Only the largest uid there is can be in the tree twice. -/
theorem doubled_iff {uidsDn : IeSeqSet} (canonical : Canonical uidsDn)
    (treeUids : (tree.map ExpFlags.uidDn).Perm (expand uidsDn))
    (ascending : (expand uidsDn).Pairwise (· < ·) ↔
      ¬ DoubledMaximum before store.uidMode store.seqSet) (uidDn : Nat) :
    1 < (tree.map ExpFlags.uidDn).count uidDn ↔
      uidDn = uintMax ∧ DoubledMaximum before store.uidMode store.seqSet := by
  rw [treeUids.count_eq]
  have strict := (pairwise_lt_iff canonical.weak.1).symm.trans ascending
  constructor
  · intro twice
    refine ⟨by_contra fun inner => ?_, by_contra fun single => ?_⟩
    · exact absurd twice (Nat.not_lt_of_le (canonical.weak.2 uidDn inner))
    · exact absurd twice (Nat.not_lt_of_le (strict.mpr single uidDn))
  · rintro ⟨rfl, twice⟩
    refine Nat.lt_of_not_le fun single => strict.mp (fun other => ?_) twice
    by_cases inner : other = uintMax
    · exact inner ▸ single
    · exact canonical.weak.2 other inner

/-- No message is reported twice, unless the one with the largest uid is doubled in the tree and
reported as predicted. -/
theorem reported_once_iff {predicted : Nat → MsgFlags} {silent : Bool} {doubled : Prop}
    (weak : uids.Pairwise (· ≤ ·)) (metasSorted : metas.Pairwise (· < ·))
    (twice : ∀ uidDn, 1 < (tree.map ExpFlags.uidDn).count uidDn ↔ uidDn = uintMax ∧ doubled)
    (counts : ∀ uidDn, uids.count uidDn = reportCount after silent predicted tree metas uidDn) :
    uids.Pairwise (· < ·) ↔ ¬ (doubled ∧ silent = false ∧ uintMax ∈ tree.map ExpFlags.uidDn ∧
      predicted uintMax = currentFlags after uintMax) := by
  rw [pairwise_lt_iff weak]
  constructor
  · rintro counted ⟨isDoubled, loud, denoted, equal⟩
    have one := counted uintMax
    rw [counts, reportCount, if_pos ⟨denoted, equal⟩, loud, if_neg Bool.false_ne_true] at one
    exact absurd ((twice uintMax).mpr ⟨rfl, isDoubled⟩) (Nat.not_lt_of_le one)
  · intro condition uidDn
    rw [counts]
    unfold reportCount
    by_cases both : uidDn ∈ tree.map ExpFlags.uidDn ∧ predicted uidDn = currentFlags after uidDn
    · rw [if_pos both]
      cases silent with
      | true => exact Nat.zero_le 1
      | false =>
        refine Nat.le_of_not_lt fun more => ?_
        obtain ⟨rfl, isDoubled⟩ := (twice uidDn).mp more
        exact condition ⟨isDoubled, rfl, both⟩
    · rw [if_neg both]
      exact (pairwise_lt_iff (metasSorted.imp Nat.le_of_lt)).mp metasSorted uidDn

end Relayed

/-- The responses report what they must, and no message twice, unless the largest uid there is is
doubled and its message is reported as predicted. -/
theorem storeReport {dn begun next : Dn} {keys : List MsgKey} {updates : List Update}
    {cmd : StoreCmd} (numbered : Numbered dn.views) (signed : Signed store.sign)
    (fits : ∀ range ∈ store.seqSet, range.Fits)
    (begins : dnStoreBegin dn store = .ok (.relays begun keys))
    (arrives : Arrives dn.views (dn.pending ++ updates))
    (started : (updates.foldl dnImaildirUpdate begun).command = some (.store cmd))
    (gathers : gatherUpdatesDontSend (updates.foldl dnImaildirUpdate begun) cmd.uidMode true =
      .ok (next, gather, resp)) :
    ∃ uids responses,
      sendStoreFetchResps next.views cmd cmd.tree gather.cancel.metas = .ok responses ∧
      List.Forall₂ (IsCurrentFetch next.views store.uidMode) uids responses ∧
      (∀ uidDn, uidDn ∈ uids ↔ store.MustReport dn.views next.views gather.cancel.metas uidDn) ∧
      (uids.Pairwise (· < ·) ↔
        ¬ (DoubledMaximum dn.views store.uidMode store.seqSet ∧ store.silent = false ∧
          store.Predicts dn.views uintMax (currentFlags next.views uintMax))) := by
  obtain ⟨uidsDn, tree, resolved, predicts, rfl⟩ := dnStoreBegin_relays begins
  obtain ⟨out, ok, same, canonical, -, denotes⟩ :=
    seqSetToCanonicalUidsDn_denotes numbered store.uidMode store.seqSet fits
  cases resolved.symm.trans same
  obtain ⟨members, ascending⟩ := denotes rfl
  have inViews : ∀ uidDn ∈ expand uidsDn, uidDn ∈ viewUids dn.views := by
    intro uidDn mem
    obtain ⟨index, view, at_, rfl, -⟩ := (members uidDn).mp mem
    exact mem_map_of_mem (mem_of_getElem? at_)
  obtain ⟨final, made, treeSorted, treeUids, predicted⟩ :=
    predictFlags_spec numbered signed (msgFlagsFromFlags store.flags) canonical inViews
  cases predicts.symm.trans made
  have command : ({ dn with
      command := some (.store { uidMode := store.uidMode, silent := store.silent, tree }) } : Dn).command =
    some (.store { uidMode := store.uidMode, silent := store.silent, tree }) := rfl
  obtain ⟨synced, later⟩ := foldl_dnImaildirUpdate updates command
  rw [later] at started gathers
  obtain rfl := Command.store.inj (Option.some.inj started)
  obtain ⟨nextNumbered, kept, metasSorted, metasIn⟩ := gathered_numbered gathers numbered arrives
  obtain ⟨uids, responses, outcome, fetches, weak, counts⟩ := sendStoreFetchResps_reports nextNumbered
    { uidMode := store.uidMode, silent := store.silent, tree, synced } treeSorted metasSorted
    (fun expected mem => kept _ (inViews _ (treeUids.mem_iff.mp (mem_map_of_mem mem)))) metasIn
    predicted
  have inTree : ∀ uidDn, uidDn ∈ tree.map ExpFlags.uidDn ↔
      SetDenotes dn.views store.uidMode store.seqSet uidDn := fun uidDn =>
    treeUids.mem_iff.trans (members uidDn)
  refine ⟨uids, responses, outcome, fetches, mem_iff_mustReport signed inTree counts, ?_⟩
  rw [predicts_iff signed inTree]
  exact reported_once_iff weak metasSorted (doubled_iff canonical treeUids ascending) counts

/-- The responses are right if and only if no message is reported twice. -/
theorem reportsRight_iff {before after : List MsgView} {metas uids : List Nat}
    {outcome : Except Derr (List Response)} {responses : List Response}
    (isOutcome : outcome = .ok responses)
    (fetches : List.Forall₂ (IsCurrentFetch after store.uidMode) uids responses)
    (reported : ∀ uidDn, uidDn ∈ uids ↔ store.MustReport before after metas uidDn) :
    store.ReportsRight before after metas outcome ↔ uids.Pairwise (· < ·) := by
  constructor
  · rintro ⟨others, otherResponses, sameOutcome, otherFetches, strict, -⟩
    cases isOutcome.symm.trans sameOutcome
    rwa [forall₂_currentFetch_unique otherFetches fetches] at strict
  · exact fun strict => ⟨uids, responses, isOutcome, fetches, strict, reported⟩

/-- A STORE reports what it must, unless its view has the largest uid there is, its set denotes it more
than once, it is not silent, and the message has the flags that were predicted for it. -/
theorem sendStoreFetchResps_right {dn begun next : Dn} {store : IeStoreCmd} {keys : List MsgKey}
    {updates : List Update} {cmd : StoreCmd} {gather : Gather} {resp : Option StResp}
    (numbered : Numbered dn.views) (signed : Signed store.sign)
    (fits : ∀ range ∈ store.seqSet, range.Fits)
    (begins : dnStoreBegin dn store = .ok (.relays begun keys))
    (arrives : Arrives dn.views (dn.pending ++ updates))
    (started : (updates.foldl dnImaildirUpdate begun).command = some (.store cmd))
    (gathers : gatherUpdatesDontSend (updates.foldl dnImaildirUpdate begun) cmd.uidMode true =
      .ok (next, gather, resp)) :
    store.ReportsRight dn.views next.views gather.cancel.metas
        (sendStoreFetchResps next.views cmd cmd.tree gather.cancel.metas) ↔
      ¬ (DoubledMaximum dn.views store.uidMode store.seqSet ∧ store.silent = false ∧
        store.Predicts dn.views uintMax (currentFlags next.views uintMax)) := by
  obtain ⟨uids, responses, outcome, fetches, reported, once⟩ :=
    storeReport numbered signed fits begins arrives started gathers
  exact (reportsRight_iff outcome fetches reported).trans once

theorem uidsDnToMsgKeys_exists (numbered : Numbered views) {uidsDn : IeSeqSet}
    (canonical : Canonical uidsDn) (inViews : ∀ uidDn ∈ expand uidsDn, uidDn ∈ viewUids views) :
    ∃ keys, uidsDnToMsgKeys views uidsDn = .ok keys := by
  unfold uidsDnToMsgKeys
  rw [canonical.values_eq]
  generalize expand uidsDn = uids, ([] : List MsgKey) = keys at inViews
  induction uids generalizing keys with
  | nil => exact ⟨keys, rfl⟩
  | cons uidDn rest ih =>
    obtain ⟨view, mem, same⟩ := mem_map.mp (inViews uidDn mem_cons_self)
    have found : find MsgView.uidDn uidDn views = some view :=
      numbered.sorted.find_eq_some.mpr ⟨mem, same⟩
    rw [foldlM_cons, found]
    exact ih (view.key :: keys) fun other inRest => inViews other (.tail _ inRest)

/-- A STORE of a set that is valid and denotes some message is relayed. -/
theorem dnStoreBegin_exists (dn : Dn) (store : IeStoreCmd) (numbered : Numbered dn.views)
    (signed : Signed store.sign) (fits : ∀ range ∈ store.seqSet, range.Fits)
    (writable : dn.examine = false) (valid : ¬ SetInvalid dn.views store.uidMode store.seqSet)
    {uidDn : Nat} (denotes : SetDenotes dn.views store.uidMode store.seqSet uidDn) :
    ∃ begun keys, dnStoreBegin dn store = .ok (.relays begun keys) := by
  obtain ⟨uidsDn, ok, resolved, canonical, refused, members⟩ :=
    seqSetToCanonicalUidsDn_denotes numbered store.uidMode store.seqSet fits
  cases ok with
  | false => exact absurd (refused.mp rfl) valid
  | true =>
    have inViews : ∀ uidDn ∈ expand uidsDn, uidDn ∈ viewUids dn.views := by
      intro uidDn mem
      obtain ⟨index, view, at_, rfl, -⟩ := ((members rfl).1 uidDn).mp mem
      exact mem_map_of_mem (mem_of_getElem? at_)
    have inhabited : uidsDn ≠ [] := by
      rintro rfl
      exact absurd (((members rfl).1 uidDn).mpr denotes) not_mem_nil
    obtain ⟨keys, found⟩ := uidsDnToMsgKeys_exists numbered canonical inViews
    obtain ⟨tree, made, -⟩ :=
      predictFlags_spec numbered signed (msgFlagsFromFlags store.flags) canonical inViews
    refine ⟨{ dn with
      command := some (.store { uidMode := store.uidMode, silent := store.silent, tree }) }, keys, ?_⟩
    unfold dnStoreBegin
    rw [if_neg (by rw [writable]; exact Bool.false_ne_true), resolved]
    refine (if_neg inhabited).trans ?_
    rw [found, made]
    rfl

/-- `STORE 1:* +FLAGS (\\Seen)` -/
def seenStore (seqSet : IeSeqSet) : IeStoreCmd where
  uidMode := true
  seqSet := seqSet
  mods := []
  sign := 1
  silent := false
  flags := some ⟨false, false, false, true, false, [], []⟩

/-- The view of a message that was seen. -/
def seenView (uidDn : Nat) : MsgView := { plainView uidDn with flags := { seen := true } }

/-- A connection with some views. -/
def plainDn (views : List MsgView) : Dn where
  id := 0
  examine := false
  views := views

/-- A STORE to two messages, of which one is changed, and the other has the flag already. -/
theorem sendStoreFetchResps_right_two : ∃ begun keys cmd next gather resp,
    dnStoreBegin (plainDn [plainView 1, seenView 2]) (seenStore [⟨1, 0⟩]) = .ok (.relays begun keys) ∧
      gatherUpdatesDontSend ([.flags (seenView 1), .sync none].foldl dnImaildirUpdate begun) true true =
        .ok (next, gather, resp) ∧
      ((seenStore [⟨1, 0⟩]).ReportsRight [plainView 1, seenView 2] next.views gather.cancel.metas
          (sendStoreFetchResps next.views cmd cmd.tree gather.cancel.metas) ↔
        ¬ (DoubledMaximum [plainView 1, seenView 2] true [⟨1, 0⟩] ∧ false = false ∧
          (seenStore [⟨1, 0⟩]).Predicts [plainView 1, seenView 2] uintMax
            (currentFlags next.views uintMax))) := by
  have numbered : Numbered (plainDn [plainView 1, seenView 2]).views :=
    ⟨by unfold Sorted; decide, by decide, by decide⟩
  have signed : Signed (seenStore [⟨1, 0⟩]).sign := .inr (.inl rfl)
  have fits : ∀ range ∈ (seenStore [⟨1, 0⟩]).seqSet, range.Fits := by decide
  have denotes : SetDenotes [plainView 1, seenView 2] true [⟨1, 0⟩] 1 :=
    ⟨0, plainView 1, rfl, rfl, ⟨1, 0⟩, mem_cons_self, by decide⟩
  have arrives : Arrives (plainDn [plainView 1, seenView 2]).views
      ((plainDn [plainView 1, seenView 2]).pending ++ [.flags (seenView 1), .sync none]) :=
    ⟨by decide, by decide⟩
  obtain ⟨begun, keys, begins⟩ := dnStoreBegin_exists _ _ numbered signed fits rfl
    (fun invalid => Bool.false_ne_true.symm invalid.1) denotes
  obtain ⟨uidsDn, tree, -, -, rfl⟩ := dnStoreBegin_relays begins
  exact ⟨_, keys, _, _, _, _, begins, rfl,
    sendStoreFetchResps_right numbered signed fits begins arrives rfl rfl⟩

/-- A STORE that names the message with the largest uid twice, and changes nothing. -/
theorem sendStoreFetchResps_doubled : ∃ begun keys cmd next gather resp,
    dnStoreBegin (plainDn [seenView uintMax]) (seenStore [⟨0, 0⟩, ⟨0, 0⟩]) = .ok (.relays begun keys) ∧
      ([Update.sync none].foldl dnImaildirUpdate begun).command = some (.store cmd) ∧
      gatherUpdatesDontSend ([.sync none].foldl dnImaildirUpdate begun) true true =
        .ok (next, gather, resp) ∧
      ¬ (seenStore [⟨0, 0⟩, ⟨0, 0⟩]).ReportsRight [seenView uintMax] next.views gather.cancel.metas
        (sendStoreFetchResps next.views cmd cmd.tree gather.cancel.metas) := by
  have numbered : Numbered (plainDn [seenView uintMax]).views :=
    ⟨pairwise_singleton _ _, by decide, by decide⟩
  have signed : Signed (seenStore [⟨0, 0⟩, ⟨0, 0⟩]).sign := .inr (.inl rfl)
  have fits : ∀ range ∈ (seenStore [⟨0, 0⟩, ⟨0, 0⟩]).seqSet, range.Fits := by decide
  have denotes : SetDenotes [seenView uintMax] true [⟨0, 0⟩, ⟨0, 0⟩] uintMax :=
    ⟨0, seenView uintMax, rfl, rfl, ⟨0, 0⟩, mem_cons_self, by decide⟩
  have arrives : Arrives (plainDn [seenView uintMax]).views
      ((plainDn [seenView uintMax]).pending ++ [.sync none]) := ⟨by decide, by decide⟩
  obtain ⟨begun, keys, begins⟩ := dnStoreBegin_exists _ _ numbered signed fits rfl
    (fun invalid => Bool.false_ne_true.symm invalid.1) denotes
  obtain ⟨uidsDn, tree, -, -, rfl⟩ := dnStoreBegin_relays begins
  refine ⟨_, keys, _, _, _, _, begins, rfl, rfl, fun right => ?_⟩
  obtain ⟨uids, responses, outcome, fetches, reported, once⟩ :=
    storeReport numbered signed fits begins arrives rfl rfl
  exact once.mp ((reportsRight_iff outcome fetches reported).mp right) ⟨by decide, rfl, denotes, rfl⟩

end Splintermail
