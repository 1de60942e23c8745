/-
This file proves what the gather functions of `dn.c` do to a client.

Between the gathering of a batch and its responses the views are ahead of the
client by the new messages of the batch, which are at the end. The responses of the
batch then bring the client to the views, provided that no message of the batch
both arrived and was expunged: the EXISTS of such a message is dropped, but its
EXPUNGE is sent.
-/

import Mathlib.Algebra.Order.Sub.Unbundled.Basic
import Splintermail.Imaildir.Client
import Splintermail.Lib.Run

namespace Splintermail

open List Splintermail.Tree Update
open Outcome (Sat)

/-! ### Applying responses -/

/-- The faults that are no disagreement: the numbers of messages reach the limit of an
`unsigned int`, a STORE is malformed, or the server refuses the EXPUNGE of a disconnect. -/
def Limit (error : Derr) : Prop :=
  error = ⟨.internal, "index too high"⟩ ∨
    error = ⟨.value, "too many messages for exists response"⟩ ∨
      error = ⟨.internal, "invalid store->sign"⟩ ∨ error.type = .response

theorem clientApplyAll_append (mailbox client : List Nat) (first second : List Response) :
    clientApplyAll mailbox client (first ++ second) =
      clientApplyAll mailbox client first >>= fun client => clientApplyAll mailbox client second := by
  induction first generalizing client with
  | nil => rfl
  | cons response rest ih =>
    rw [cons_append, clientApplyAll, clientApplyAll]
    cases outcome : clientApply mailbox client response with
    | error fault => rfl
    | ok next => exact ih next

/-- The responses are FETCHes of messages that the client has. -/
def Touches (count : Nat) (responses : List Response) : Prop :=
  ∀ response ∈ responses, ∃ seqNum flags uid,
    response = .fetch seqNum flags uid ∧ 1 ≤ seqNum ∧ seqNum ≤ count

theorem Touches.append {count : Nat} {first second : List Response} (left : Touches count first)
    (right : Touches count second) : Touches count (first ++ second) := by
  intro response mem
  rcases mem_append.mp mem with mem | mem
  · exact left response mem
  · exact right response mem

theorem Touches.single {count seqNum : Nat} {flags : Option MsgFlags} {uid : Option Nat}
    (positive : 1 ≤ seqNum) (bounded : seqNum ≤ count) :
    Touches count [.fetch seqNum flags uid] := by
  intro response mem
  exact ⟨seqNum, flags, uid, mem_singleton.mp mem, positive, bounded⟩

theorem Touches.nil {count : Nat} : Touches count [] := by
  intro response mem
  exact absurd mem not_mem_nil

variable {client : List Nat}

theorem Touches.applyAll {mailbox : List Nat} {responses : List Response}
    (touches : Touches client.length responses) :
    clientApplyAll mailbox client responses = .ok client := by
  induction responses with
  | nil => rfl
  | cons response rest ih =>
    obtain ⟨seqNum, flags, uid, rfl, positive, bounded⟩ := touches response mem_cons_self
    rw [clientApplyAll, clientApply, if_pos ⟨positive, bounded⟩]
    exact ih fun other mem => touches other (.tail _ mem)

/-! ### Looking up views -/

theorem indexToSeqNum_sat (index : Nat) :
    Sat (indexToSeqNum index) (fun seqNum => seqNum = index + 1) Limit := by
  unfold indexToSeqNum
  split
  · exact .inl rfl
  · rfl

theorem findIdx_view (views : List MsgView) (uidDn : Nat) (mem : uidDn ∈ viewUids views) :
    views.findIdx? (fun view => view.uidDn = uidDn) = some ((viewUids views).idxOf uidDn) := by
  induction views with
  | nil => cases mem
  | cons view rest ih =>
    rw [List.findIdx?_cons, viewUids, map_cons, idxOf_cons]
    by_cases same : view.uidDn = uidDn
    · simp [same]
    · have inRest : uidDn ∈ viewUids rest := by
        rcases mem_cons.mp mem with equal | inRest
        · exact absurd equal.symm same
        · exact inRest
      rw [ih inRest, beq_false_of_ne same]
      simp [same, viewUids]

variable {views : List MsgView} {uidDn : Nat}

theorem lookupView_sat {missing : String} (mem : uidDn ∈ viewUids views) :
    Sat (lookupView missing views uidDn)
      (fun found => found.1.uidDn = uidDn ∧ found.2 = (viewUids views).idxOf uidDn + 1) Limit := by
  unfold lookupView
  rw [findIdx_view views uidDn mem]
  cases found : find MsgView.uidDn uidDn views with
  | none =>
    obtain ⟨view, inViews, same⟩ := mem_map.mp mem
    exact absurd same (find_eq_none.mp found view inViews)
  | some view =>
    refine (indexToSeqNum_sat _).bind fun seqNum equal => ?_
    exact ⟨find_key found, equal⟩

/-- A uid that the client has is found among its messages. -/
theorem lookupView_client {missing : String} {rest : List Nat}
    (uids : viewUids views = client ++ rest) (mem : uidDn ∈ client) :
    Sat (lookupView missing views uidDn)
      (fun found => found.1.uidDn = uidDn ∧ found.2 = client.idxOf uidDn + 1) Limit := by
  have inViews : uidDn ∈ viewUids views := uids ▸ mem_append_left rest mem
  refine (lookupView_sat inViews).mono fun found facts => ?_
  rw [uids, idxOf_append_of_mem mem] at facts
  exact facts

section Sending

variable {views : List MsgView} {client rest : List Nat} (uids : viewUids views = client ++ rest)

include uids

theorem sendMetas_sat (uidMode : Bool) {metas : List Nat} (known : ∀ uidDn ∈ metas, uidDn ∈ client) :
    Sat (sendMetas views uidMode metas) (Touches client.length) Limit := by
  induction metas with
  | nil => exact Touches.nil
  | cons uidDn tail ih =>
    have mem := known uidDn mem_cons_self
    have bounded := idxOf_lt_length_of_mem mem
    unfold sendMetas
    refine (lookupView_client uids mem).bind fun found facts => ?_
    refine (ih fun other inTail =>
      known other (.tail _ inTail)).bind fun responses touches => ?_
    exact Touches.append (Touches.single (by omega) (by omega)) touches

/-- Any response about one message that the client has. -/
theorem sendOne_sat {missing : String} {uidDn : Nat} (mem : uidDn ∈ client)
    {answer : MsgView × Nat → Except Derr (List Response)}
    (answers : ∀ view seqNum, 1 ≤ seqNum → seqNum ≤ client.length →
      Sat (answer (view, seqNum)) (Touches client.length) Limit) :
    Sat (lookupView missing views uidDn >>= answer) (Touches client.length) Limit := by
  have bounded := idxOf_lt_length_of_mem mem
  refine (lookupView_client uids mem).bind fun found facts => ?_
  exact answers found.1 found.2 (by omega) (by omega)

section

variable (store : StoreCmd)

theorem sendStoreRespNoupdate_sat {expected : ExpFlags} (mem : expected.uidDn ∈ client) :
    Sat (sendStoreRespNoupdate views store expected) (Touches client.length) Limit := by
  refine sendOne_sat uids mem fun view seqNum positive bounded => ?_
  dsimp only
  split
  · exact Touches.nil
  · split
    · exact Touches.single positive bounded
    · exact Touches.nil

theorem sendStoreRespNoexp_sat {uidDn : Nat} (mem : uidDn ∈ client) :
    Sat (sendStoreRespNoexp views store uidDn) (Touches client.length) Limit :=
  sendOne_sat uids mem fun _ _ positive bounded => Touches.single positive bounded

theorem sendStoreRespExpupdate_sat {expected : ExpFlags} (mem : expected.uidDn ∈ client) :
    Sat (sendStoreRespExpupdate views store expected) (Touches client.length) Limit := by
  refine sendOne_sat uids mem fun view seqNum positive bounded => ?_
  dsimp only
  split
  · exact Touches.single positive bounded
  · split
    · exact Touches.single positive bounded
    · exact Touches.nil

theorem sendStoreFetchResps_sat (tree : List ExpFlags) (metas : List Nat)
    (expectedKnown : ∀ expected ∈ tree, expected.uidDn ∈ client)
    (metasKnown : ∀ uidDn ∈ metas, uidDn ∈ client) :
    Sat (sendStoreFetchResps views store tree metas) (Touches client.length) Limit := by
  -- each round answers for the head of one list or of both
  have both : ∀ {first second : Except Derr (List Response)},
      Sat first (Touches client.length) Limit → Sat second (Touches client.length) Limit →
      Sat (do return (← first) ++ (← second)) (Touches client.length) Limit := by
    intro first second firstSat secondSat
    refine firstSat.bind fun left leftTouches => ?_
    exact secondSat.bind fun right rightTouches => leftTouches.append rightTouches
  induction tree, metas using sendStoreFetchResps.induct with
  | case1 =>
    rw [sendStoreFetchResps]
    exact Touches.nil
  | case2 uidDn metas ih =>
    rw [sendStoreFetchResps]
    exact both (sendStoreRespNoexp_sat uids store (metasKnown uidDn mem_cons_self))
      (ih expectedKnown fun other mem =>
        metasKnown other (.tail _ mem))
  | case3 expected tree ih =>
    rw [sendStoreFetchResps]
    exact both (sendStoreRespNoupdate_sat uids store (expectedKnown expected mem_cons_self))
      (ih (fun other mem =>
        expectedKnown other (.tail _ mem)) metasKnown)
  | case4 expected tree uidDn metas behind ih =>
    rw [sendStoreFetchResps, if_pos behind]
    exact both (sendStoreRespNoexp_sat uids store (metasKnown uidDn mem_cons_self))
      (ih expectedKnown fun other mem =>
        metasKnown other (.tail _ mem))
  | case5 expected tree uidDn metas notBehind ahead ih =>
    rw [sendStoreFetchResps, if_neg notBehind, if_pos ahead]
    exact both (sendStoreRespNoupdate_sat uids store (expectedKnown expected mem_cons_self))
      (ih (fun other mem =>
        expectedKnown other (.tail _ mem)) metasKnown)
  | case6 expected tree uidDn metas notBehind notAhead ih =>
    rw [sendStoreFetchResps, if_neg notBehind, if_neg notAhead]
    exact both (sendStoreRespExpupdate_sat uids store (expectedKnown expected mem_cons_self))
      (ih (fun other mem =>
        expectedKnown other (.tail _ mem)) fun other mem =>
        metasKnown other (.tail _ mem))

end

end Sending

/-! ### Sending a gathered batch -/

/-- The client and a gathered batch: the views are ahead by the new messages, which are above all
others, and the gathered expunges and changes are of messages in the views. -/
structure Gathered (client : List Nat) (views : List MsgView) (gather : Gather) : Prop where
  uids : viewUids views = client ++ gather.news
  sorted : WeakSorted MsgView.uidDn views
  above : ∀ uidDn ∈ client, ∀ new ∈ gather.news, uidDn < new
  within : (gather.expunges : Multiset Nat) ≤ (client : Multiset Nat)
  metas : ∀ uidDn ∈ gather.metas, uidDn ∈ viewUids views
  nodup : gather.metas.Nodup

theorem WeakSorted.erase (sorted : WeakSorted MsgView.uidDn views) (uidDn : Nat) :
    WeakSorted MsgView.uidDn (erase MsgView.uidDn uidDn views) :=
  List.Pairwise.sublist eraseP_sublist sorted

theorem viewUids_erase (uidDn : Nat) (views : List MsgView) :
    viewUids (erase MsgView.uidDn uidDn views) = (viewUids views).erase uidDn :=
  map_key_erase uidDn views

/-- The expunges of messages that the client has: the client removes the same messages. -/
theorem sendExpunges_sat {expunges : List Nat} {news : List Nat}
    (uids : viewUids views = client ++ news) (sorted : WeakSorted MsgView.uidDn views)
    (within : (expunges : Multiset Nat) ≤ (client : Multiset Nat)) :
    Sat (sendExpunges views expunges)
      (fun result => WeakSorted MsgView.uidDn result.1 ∧
        ∃ left : List Nat, viewUids result.1 = left ++ news ∧
          (left : Multiset Nat) = (client : Multiset Nat) - (expunges : Multiset Nat) ∧
          ∀ mailbox, clientApplyAll mailbox client result.2 = .ok left) Limit := by
  induction expunges generalizing views client with
  | nil => exact ⟨sorted, client, uids, (tsub_zero _).symm, fun mailbox => rfl⟩
  | cons uidDn rest ih =>
    have mem : uidDn ∈ client :=
      Multiset.mem_coe.mp (Multiset.mem_of_le within (Multiset.mem_cons_self uidDn rest))
    have bounded := idxOf_lt_length_of_mem mem
    have restWithin : (rest : Multiset Nat) ≤ (client.erase uidDn : Multiset Nat) := by
      have erased := Multiset.erase_le_erase uidDn within
      rwa [← Multiset.cons_coe, Multiset.erase_cons_head, Multiset.coe_erase] at erased
    have restUids : viewUids (erase MsgView.uidDn uidDn views) = client.erase uidDn ++ news := by
      rw [viewUids_erase, uids, erase_append_left _ mem]
    unfold sendExpunges
    refine (lookupView_client uids mem).bind fun found facts => ?_
    refine (ih restUids (WeakSorted.erase sorted uidDn) restWithin).bind fun result spec => ?_
    obtain ⟨restSorted, left, leftUids, leftEq, applied⟩ := spec
    refine ⟨restSorted, left, leftUids, ?_, fun mailbox => ?_⟩
    · rw [leftEq, ← Multiset.coe_erase, ← Multiset.cons_coe, Multiset.sub_cons]
    · rw [facts.2, clientApplyAll, clientApply, if_pos ⟨by omega, by omega⟩, Nat.add_sub_cancel,
        eraseIdx_idxOf_eq_erase]
      exact applied mailbox

theorem foldl_erase_of_disjoint {erased uids : List Nat} (disjoint : ∀ uidDn ∈ erased, uidDn ∉ uids) :
    erased.foldl (fun uids uidDn => erase id uidDn uids) uids = uids := by
  induction erased with
  | nil => rfl
  | cons uidDn rest ih =>
    have absent : erase id uidDn uids = uids := by
      refine eraseP_of_forall_not fun other mem => ?_
      have different : other ≠ uidDn := fun same =>
        disjoint uidDn mem_cons_self (same ▸ mem)
      simpa using different
    rw [foldl_cons, absent]
    exact ih fun other mem => disjoint other (.tail _ mem)

theorem mem_foldl_erase {erased uids : List Nat} (nodup : uids.Nodup)
    (mem : uidDn ∈ erased.foldl (fun uids uidDn => erase id uidDn uids) uids) :
    uidDn ∈ uids ∧ uidDn ∉ erased := by
  induction erased generalizing uids with
  | nil => exact ⟨mem, not_mem_nil⟩
  | cons head rest ih =>
    have step : erase id head uids = uids.erase head := by
      have keys : (erase id head uids).map id = (uids.map id).erase head :=
        map_key_erase head uids
      rwa [map_id, map_id] at keys
    rw [foldl_cons, step] at mem
    obtain ⟨inErased, notInRest⟩ := ih (nodup.erase head) mem
    obtain ⟨different, inUids⟩ := nodup.mem_erase_iff.mp inErased
    refine ⟨inUids, fun inList => ?_⟩
    rcases mem_cons.mp inList with same | inRest
    · exact different same
    · exact notInRest inRest

theorem nodup_foldl_erase {erased uids : List Nat} (nodup : uids.Nodup) :
    (erased.foldl (fun uids uidDn => erase id uidDn uids) uids).Nodup := by
  induction erased generalizing uids with
  | nil => exact nodup
  | cons head rest ih =>
    exact ih (nodup.sublist eraseP_sublist)

namespace Gathered

variable {client : List Nat} {views : List MsgView} {gather : Gather}

section

variable (gathered : Gathered client views gather)

include gathered

theorem expunge_not_new {uidDn : Nat} (mem : uidDn ∈ gather.expunges) : uidDn ∉ gather.news := by
  intro isNew
  have known : uidDn ∈ client := Multiset.mem_coe.mp (Multiset.mem_of_le gathered.within mem)
  exact lt_irrefl uidDn (gathered.above uidDn known uidDn isNew)

theorem cancel_news : gather.cancel.news = gather.news :=
  foldl_erase_of_disjoint fun _ mem => gathered.expunge_not_new mem

theorem cancel_metas {uidDn : Nat} (mem : uidDn ∈ gather.cancel.metas) : uidDn ∈ client := by
  obtain ⟨inMetas, notNew⟩ := mem_foldl_erase (nodup_foldl_erase gathered.nodup) mem
  obtain ⟨inGather, -⟩ := mem_foldl_erase gathered.nodup inMetas
  have inViews := gathered.metas uidDn inGather
  rw [gathered.uids] at inViews
  rcases mem_append.mp inViews with known | isNew
  · exact known
  · have kept := gathered.cancel_news
    exact absurd (kept.symm ▸ isNew : uidDn ∈ gather.cancel.news) notNew

end

end Gathered

theorem sendNews_sat (views : List MsgView) (news : List Nat) :
    Sat (sendNews views news)
      (fun responses => responses = if news = [] then [] else [.exists views.length]) Limit := by
  cases news with
  | nil => rfl
  | cons head tail =>
    show Sat (sendExistsResp views >>= fun response => pure [response]) _ _
    unfold sendExistsResp
    split
    · exact .inr (.inl rfl)
    · rfl

/-- Sending a gathered batch brings the client to the views. -/
theorem gatherSendResponses_sat {dn : Dn} {gather : Gather} (uidMode : Bool)
    {forStore : Option StoreCmd} (gathered : Gathered client dn.views gather)
    (expected : ∀ store, forStore = some store → ∀ flags ∈ store.tree, flags.uidDn ∈ client) :
    Sat (gatherSendResponses dn gather uidMode forStore)
      (fun result => result.1 = { dn with views := result.1.views } ∧
        WeakSorted MsgView.uidDn result.1.views ∧
        (viewUids result.1.views : Multiset Nat) =
          (viewUids dn.views : Multiset Nat) - (gather.expunges : Multiset Nat) ∧
        clientApplyAll (viewUids result.1.views) client result.2 =
          .ok (viewUids result.1.views)) Limit := by
  have metasSat : Sat (sendFlagsUpdates dn.views uidMode gather.cancel.metas forStore)
      (Touches client.length) Limit := by
    cases forStore with
    | none => exact sendMetas_sat gathered.uids uidMode fun _ mem => gathered.cancel_metas mem
    | some store =>
      exact sendStoreFetchResps_sat gathered.uids store _ _ (expected store rfl)
        fun _ mem => gathered.cancel_metas mem
  have reversed : (gather.expunges.reverse : Multiset Nat) = (gather.expunges : Multiset Nat) :=
    Multiset.coe_eq_coe.mpr (reverse_perm _)
  unfold gatherSendResponses
  refine metasSat.bind fun metas touches => ?_
  refine (sendExpunges_sat gathered.uids gathered.sorted
    (reversed ▸ gathered.within)).bind fun result spec => ?_
  obtain ⟨views, expunges⟩ := result
  obtain ⟨sorted, left, uids, leftEq, applied⟩ := spec
  have remaining : (viewUids views : Multiset Nat) =
      (viewUids dn.views : Multiset Nat) - (gather.expunges : Multiset Nat) := by
    rw [uids, gathered.uids, ← Multiset.coe_add, ← Multiset.coe_add, leftEq, reversed,
      tsub_add_eq_add_tsub gathered.within]
  refine (sendNews_sat views gather.cancel.news).bind fun responses news => ?_
  refine ⟨rfl, sorted, remaining, ?_⟩
  rw [clientApplyAll_append, clientApplyAll_append, touches.applyAll]
  show (clientApplyAll (viewUids views) client expunges >>= _) = _
  rw [applied, news, gathered.cancel_news]
  show clientApplyAll (viewUids views) left _ = _
  by_cases none : gather.news = []
  · rw [if_pos none, uids, none, append_nil]
    rfl
  · have count : views.length = (viewUids views).length := (length_map _).symm
    rw [if_neg none, clientApplyAll, clientApply, count, take_length, uids, drop_left]
    rfl

/-! ### Gathering a batch -/

/-- Every expunge names a message that is there when its turn comes. -/
def Settles : Multiset Nat → List Update → Prop
  | _, [] => True
  | live, update :: rest =>
    (∀ uidDn, update.expungedUid = some uidDn → uidDn ∈ live) ∧ Settles (settle live update) rest

variable {updates : List Update} {live : Multiset Nat}

theorem Settles.snoc {update : Update} (settles : Settles live updates)
    (last : ∀ uidDn, update.expungedUid = some uidDn → uidDn ∈ updates.foldl settle live) :
    Settles live (updates ++ [update]) := by
  induction updates generalizing live with
  | nil => exact ⟨last, trivial⟩
  | cons head rest ih =>
    obtain ⟨headLive, restSettles⟩ := settles
    exact ⟨headLive, ih restSettles last⟩

variable {kept rest : List Update}

/-- Arrivals may be processed ahead of the expunges before them. -/
theorem Settles.new_first {view : MsgView}
    (expunges : ∀ update ∈ kept, ∃ record, update = .expunge record)
    (settles : Settles live (kept ++ .new view :: rest)) :
    Settles (view.uidDn ::ₘ live) (kept ++ rest) := by
  induction kept generalizing live with
  | nil => exact settles.2
  | cons head tail ih =>
    obtain ⟨record, rfl⟩ := expunges head mem_cons_self
    obtain ⟨headLive, tailSettles⟩ := settles
    have mem := headLive record.uidDn rfl
    refine ⟨fun uidDn equal => Multiset.mem_cons_of_mem (headLive uidDn equal), ?_⟩
    show Settles ((view.uidDn ::ₘ live).erase record.uidDn) (tail ++ rest)
    rw [Multiset.erase_cons_tail_of_mem mem]
    exact ih (fun update inTail => expunges update (.tail _ inTail)) tailSettles

theorem Settles.skip {update : Update} (neutral : ∀ live, settle live update = live)
    (settles : Settles live (kept ++ update :: rest)) : Settles live (kept ++ rest) := by
  induction kept generalizing live with
  | nil =>
    obtain ⟨-, restSettles⟩ := settles
    rwa [neutral] at restSettles
  | cons head tail ih =>
    exact ⟨settles.1, ih settles.2⟩

theorem Settles.filter (settles : Settles live updates) :
    Settles live (updates.filter fun update => update.syncResp.isNone) := by
  induction updates generalizing live with
  | nil => trivial
  | cons head rest ih =>
    obtain ⟨headLive, restSettles⟩ := settles
    cases head with
    | sync resp => exact ih restSettles
    | new view | flags view | expunge record =>
      exact ⟨headLive, ih restSettles⟩

/-- The pending updates of a connection with the given views and gathered expunges. -/
structure PendingFor (views : List MsgView) (expunges : List Nat) (pending : List Update) :
    Prop where
  settles : Settles ((viewUids views : Multiset Nat) - (expunges : Multiset Nat)) pending
  above : ∀ new ∈ pending.filterMap newUid, ∀ uidDn ∈ viewUids views, uidDn < new
  increasing : (pending.filterMap newUid).Pairwise fun first second => first < second

/-- The state of the loop of `gather_updates_dont_send`, with the updates that it has to look at. -/
structure Gathering (allowExpunge : Bool) (client : List Nat) (state : GatherState)
    (remaining : List Update) : Prop where
  uids : viewUids state.views = client ++ state.gather.news
  sorted : WeakSorted MsgView.uidDn state.views
  newsSorted : state.gather.news.Pairwise fun first second => first < second
  above : ∀ uidDn ∈ client, ∀ new ∈ state.gather.news, uidDn < new
  within : (state.gather.expunges : Multiset Nat) ≤ (viewUids state.views : Multiset Nat)
  metas : ∀ uidDn ∈ state.gather.metas, uidDn ∈ viewUids state.views
  nodup : state.gather.metas.Nodup
  pending : PendingFor state.views state.gather.expunges (state.kept ++ remaining)
  kept : ∀ update ∈ state.kept, ∃ record, update = .expunge record
  keptNil : allowExpunge = true → state.kept = []

theorem filterMap_newUid_of_kept (expunges : ∀ update ∈ kept, ∃ record, update = .expunge record) :
    kept.filterMap newUid = [] := by
  refine filterMap_eq_nil_iff.mpr fun update mem => ?_
  obtain ⟨record, rfl⟩ := expunges update mem
  rfl

theorem viewUids_insert_above {view : MsgView}
    (above : ∀ uidDn ∈ viewUids views, uidDn < view.uidDn) :
    insert MsgView.uidDn view views = views ++ [view] :=
  insert_eq_append fun other mem => above other.uidDn (mem_map_of_mem mem)

theorem insert_news {news : List Nat} {new : Nat} (above : ∀ uidDn ∈ news, uidDn < new) :
    insert id new news = news ++ [new] :=
  insert_eq_append above

theorem mem_insert_uid {uids : List Nat} {other : Nat} :
    other ∈ insert id uidDn uids ↔ other = uidDn ∨ other ∈ uids := mem_insert

namespace Gathering

variable {allowExpunge : Bool} {client : List Nat} {state : GatherState} {rest : List Update}

theorem new {view : MsgView} (gathering : Gathering allowExpunge client state (.new view :: rest)) :
    Gathering allowExpunge client (gatherUpdate allowExpunge state (.new view)) rest := by
  have keptNews := filterMap_newUid_of_kept gathering.kept
  have viewAbove : ∀ uidDn ∈ viewUids state.views, uidDn < view.uidDn := by
    refine gathering.pending.above view.uidDn ?_
    rw [filterMap_append, keptNews]
    exact mem_cons_self
  have newsAbove : ∀ uidDn ∈ state.gather.news, uidDn < view.uidDn := fun uidDn mem =>
    viewAbove uidDn (gathering.uids ▸ mem_append_right client mem)
  have increasing := gathering.pending.increasing
  rw [filterMap_append, keptNews] at increasing
  obtain ⟨restAbove, restIncreasing⟩ := pairwise_cons.mp increasing
  have stepEq : gatherUpdate allowExpunge state (.new view) = { state with
        views := state.views ++ [view]
        gather := { state.gather with news := state.gather.news ++ [view.uidDn] } } := by
    rw [← viewUids_insert_above viewAbove, ← insert_news newsAbove]
    rfl
  have uids : viewUids (state.views ++ [view]) = viewUids state.views ++ [view.uidDn] :=
    map_append
  rw [stepEq]
  refine ⟨?_, ?_, ?_, ?_, ?_, ?_, gathering.nodup, ⟨?_, ?_, ?_⟩, gathering.kept, gathering.keptNil⟩
  · dsimp only
    rw [uids, gathering.uids, append_assoc]
  · refine pairwise_append.mpr ⟨gathering.sorted, pairwise_singleton _ _, ?_⟩
    intro first firstMem second secondMem
    rw [mem_singleton.mp secondMem]
    exact le_of_lt (viewAbove _ (mem_map_of_mem firstMem))
  · refine pairwise_append.mpr ⟨gathering.newsSorted, pairwise_singleton _ _, ?_⟩
    intro first firstMem second secondMem
    rw [mem_singleton.mp secondMem]
    exact newsAbove first firstMem
  · intro uidDn known new mem
    rcases mem_append.mp mem with old | last
    · exact gathering.above uidDn known new old
    · rw [mem_singleton.mp last]
      exact viewAbove uidDn (gathering.uids ▸ mem_append_left _ known)
  · dsimp only
    rw [uids, ← Multiset.coe_add]
    exact le_trans gathering.within (Multiset.le_add_right _ _)
  · intro uidDn mem
    dsimp only
    rw [uids]
    exact mem_append_left _ (gathering.metas uidDn mem)
  · dsimp only
    rw [uids, ← Multiset.coe_add, ← tsub_add_eq_add_tsub gathering.within, Multiset.add_comm]
    exact Settles.new_first gathering.kept gathering.pending.settles
  · intro new mem uidDn known
    dsimp only at mem known
    rw [filterMap_append, keptNews, nil_append] at mem
    rw [uids] at known
    rcases mem_append.mp known with old | last
    · refine gathering.pending.above new ?_ uidDn old
      rw [filterMap_append, keptNews]
      exact .tail _ mem
    · rw [mem_singleton.mp last]
      exact restAbove new mem
  · dsimp only
    rw [filterMap_append, keptNews]
    exact restIncreasing

theorem flags {view : MsgView}
    (gathering : Gathering allowExpunge client state (.flags view :: rest)) :
    Gathering allowExpunge client (gatherUpdate allowExpunge state (.flags view)) rest := by
  have news : ∀ kept : List Update, (kept ++ .flags view :: rest).filterMap newUid =
      (kept ++ rest).filterMap newUid := by
    intro kept
    rw [filterMap_append, filterMap_append]
    rfl
  have settles := Settles.skip (fun live => rfl) gathering.pending.settles
  have above := gathering.pending.above
  have increasing := gathering.pending.increasing
  rw [news] at above increasing
  cases found : find MsgView.uidDn view.uidDn state.views with
  | none =>
    have stepEq : gatherUpdate allowExpunge state (.flags view) = state := by
      simp only [gatherUpdate, gatherUpdateMeta, found]
    rw [stepEq]
    exact { gathering with pending := ⟨settles, above, increasing⟩ }
  | some old =>
    have mem := find_mem found
    have same := find_key found
    have stepEq : gatherUpdate allowExpunge state (.flags view) = { state with
          views := insert MsgView.uidDn view (erase MsgView.uidDn view.uidDn state.views)
          gather := { state.gather with
            metas :=
              if view.uidDn ∈ state.gather.metas then state.gather.metas
              else insert id view.uidDn state.gather.metas } } := by
      simp only [gatherUpdate, gatherUpdateMeta, found]
    have uids : viewUids (insert MsgView.uidDn view
        (erase MsgView.uidDn view.uidDn state.views)) = viewUids state.views :=
      map_key_insert_erase gathering.sorted ⟨old, mem, same⟩
    have inViews : view.uidDn ∈ viewUids state.views := same ▸ mem_map_of_mem mem
    rw [stepEq]
    refine ⟨?_, ?_, gathering.newsSorted, gathering.above, ?_, ?_, ?_, ⟨?_, ?_, increasing⟩,
      gathering.kept, gathering.keptNil⟩
    · exact uids.trans gathering.uids
    · have sorted := WeakSorted.map.mp gathering.sorted
      exact WeakSorted.map.mpr ((congrArg _ uids).mpr sorted)
    · dsimp only
      rw [uids]
      exact gathering.within
    · intro uidDn changed
      dsimp only at changed ⊢
      rw [uids]
      split at changed
      · exact gathering.metas uidDn changed
      · rcases mem_insert_uid.mp changed with rfl | changed
        · exact inViews
        · exact gathering.metas uidDn changed
    · dsimp only
      split
      · exact gathering.nodup
      · rename_i absent
        have permuted : (insert id view.uidDn state.gather.metas).Perm
            (view.uidDn :: state.gather.metas) := perm_orderedInsert _ _ _
        exact permuted.nodup_iff.mpr (nodup_cons.mpr ⟨absent, gathering.nodup⟩)
    · dsimp only
      rw [uids]
      exact settles
    · dsimp only
      rw [uids]
      exact above

theorem expunge {record : Expunge}
    (gathering : Gathering allowExpunge client state (.expunge record :: rest)) :
    Gathering allowExpunge client (gatherUpdate allowExpunge state (.expunge record)) rest := by
  cases allowExpunge with
  | false =>
    refine { gathering with pending := ?_, kept := ?_, keptNil := nofun }
    · have same : state.kept ++ .expunge record :: rest =
          (state.kept ++ [.expunge record]) ++ rest := by
        rw [append_assoc, singleton_append]
      exact same ▸ gathering.pending
    · intro update mem
      rcases mem_append.mp mem with old | last
      · exact gathering.kept update old
      · exact ⟨record, mem_singleton.mp last⟩
  | true =>
    have none := gathering.keptNil rfl
    have pending := gathering.pending
    rw [none, nil_append] at pending
    obtain ⟨⟨live, settles⟩, above, increasing⟩ := pending
    have inserted : (insert id record.uidDn state.gather.expunges : Multiset Nat) =
        record.uidDn ::ₘ (state.gather.expunges : Multiset Nat) :=
      Multiset.coe_eq_coe.mpr (perm_orderedInsert _ _ _)
    have more : (insert id record.uidDn state.gather.expunges : Multiset Nat) ≤
        (viewUids state.views : Multiset Nat) := by
      rw [inserted]
      refine Multiset.le_iff_count.mpr fun uidDn => ?_
      have old := Multiset.le_iff_count.mp gathering.within uidDn
      have left := live record.uidDn rfl
      rw [Multiset.mem_sub] at left
      rw [Multiset.count_cons]
      split
      · rename_i same
        subst same
        omega
      · omega
    refine { gathering with within := more, pending := ?_ }
    show PendingFor state.views (insert id record.uidDn state.gather.expunges) (state.kept ++ rest)
    rw [none, nil_append]
    refine ⟨?_, above, increasing⟩
    rw [inserted, ← Multiset.singleton_add, Multiset.add_comm, tsub_add_eq_tsub_tsub,
      Multiset.sub_singleton]
    exact settles

theorem update {update : Update} (notSync : update.syncResp = none)
    (gathering : Gathering allowExpunge client state (update :: rest)) :
    Gathering allowExpunge client (gatherUpdate allowExpunge state update) rest := by
  cases update with
  | new view => exact gathering.new
  | flags view => exact gathering.flags
  | expunge record => exact gathering.expunge
  | sync resp => exact nomatch notSync

theorem batch {batch : List Update} (noSync : ∀ update ∈ batch, update.syncResp = none)
    (gathering : Gathering allowExpunge client state (batch ++ rest)) :
    Gathering allowExpunge client (batch.foldl (gatherUpdate allowExpunge) state) rest := by
  induction batch generalizing state with
  | nil => exact gathering
  | cons head tail ih =>
    exact ih (fun update mem => noSync update (.tail _ mem))
      (gathering.update (noSync head mem_cons_self))

end Gathering

variable {allowExpunge : Bool} {state : GatherState}

theorem mem_gatherUpdate_news {update : Update}
    (mem : uidDn ∈ (gatherUpdate allowExpunge state update).gather.news) :
    uidDn ∈ state.gather.news ∨ update.newUid = some uidDn := by
  cases update with
  | new view =>
    rcases mem_insert_uid.mp mem with rfl | old
    · exact .inr rfl
    · exact .inl old
  | flags view =>
    left
    cases found : find MsgView.uidDn view.uidDn state.views <;>
      simpa only [gatherUpdate, gatherUpdateMeta, found] using mem
  | expunge record =>
    left
    cases allowExpunge <;> exact mem
  | sync resp => exact .inl mem

theorem mem_gatherUpdate_expunges {update : Update}
    (mem : uidDn ∈ (gatherUpdate allowExpunge state update).gather.expunges) :
    uidDn ∈ state.gather.expunges ∨ (allowExpunge = true ∧ update.expungedUid = some uidDn) := by
  cases update with
  | new view => exact .inl mem
  | flags view =>
    left
    cases found : find MsgView.uidDn view.uidDn state.views <;>
      simpa only [gatherUpdate, gatherUpdateMeta, found] using mem
  | expunge record =>
    cases allowExpunge with
    | false => exact .inl mem
    | true =>
      rcases mem_insert_uid.mp mem with rfl | old
      · exact .inr ⟨rfl, rfl⟩
      · exact .inl old
  | sync resp => exact .inl mem

variable {batch : List Update}

/-- What is gathered comes from the batch. -/
theorem mem_gathered :
    (∀ uidDn ∈ (batch.foldl (gatherUpdate allowExpunge) state).gather.news,
      uidDn ∈ state.gather.news ∨ uidDn ∈ batch.filterMap newUid) ∧
    ∀ uidDn ∈ (batch.foldl (gatherUpdate allowExpunge) state).gather.expunges,
      uidDn ∈ state.gather.expunges ∨
        (allowExpunge = true ∧ uidDn ∈ batch.filterMap expungedUid) := by
  induction batch generalizing state with
  | nil => exact ⟨fun _ mem => .inl mem, fun _ mem => .inl mem⟩
  | cons head tail ih =>
    obtain ⟨news, expunges⟩ := @ih (gatherUpdate allowExpunge state head)
    constructor
    · intro uidDn mem
      rcases news uidDn mem with first | later
      · rcases mem_gatherUpdate_news first with old | here
        · exact .inl old
        · exact .inr (mem_filterMap.mpr ⟨head, mem_cons_self, here⟩)
      · obtain ⟨update, inTail, here⟩ := mem_filterMap.mp later
        exact .inr (mem_filterMap.mpr ⟨update, .tail _ inTail, here⟩)
    · intro uidDn mem
      rcases expunges uidDn mem with first | ⟨allowed, later⟩
      · rcases mem_gatherUpdate_expunges first with old | ⟨allowed, here⟩
        · exact .inl old
        · exact .inr ⟨allowed, mem_filterMap.mpr ⟨head, mem_cons_self, here⟩⟩
      · obtain ⟨update, inTail, here⟩ := mem_filterMap.mp later
        exact .inr ⟨allowed, mem_filterMap.mpr ⟨update, .tail _ inTail, here⟩⟩

/-! ### The batch up to a sync update -/

theorem splitSync_none (split : splitSync updates = (batch, none)) :
    updates = batch ∧ updates.filterMap syncResp = [] := by
  induction updates generalizing batch with
  | nil =>
    cases split
    exact ⟨rfl, rfl⟩
  | cons head rest ih =>
    cases head with
    | sync resp => cases split
    | new view | flags view | expunge record =>
      rcases restSplit : splitSync rest with ⟨tail, found⟩
      simp only [splitSync, restSplit, Prod.mk.injEq] at split
      obtain ⟨rfl, rfl⟩ := split
      obtain ⟨rfl, noSync⟩ := ih restSplit
      exact ⟨rfl, noSync⟩

theorem splitSync_some {resp : Option StResp}
    (split : splitSync updates = (batch, some (resp, rest))) :
    updates = batch ++ .sync resp :: rest ∧ batch.filterMap syncResp = [] := by
  induction updates generalizing batch with
  | nil => cases split
  | cons head others ih =>
    cases head with
    | sync headResp =>
      cases split
      exact ⟨rfl, rfl⟩
    | new view | flags view | expunge record =>
      rcases othersSplit : splitSync others with ⟨tail, found⟩
      simp only [splitSync, othersSplit, Prod.mk.injEq] at split
      obtain ⟨rfl, rfl⟩ := split
      obtain ⟨rfl, noSync⟩ := ih othersSplit
      exact ⟨rfl, noSync⟩

theorem noSync_of_filterMap (empty : batch.filterMap syncResp = []) :
    ∀ update ∈ batch, update.syncResp = none :=
  filterMap_eq_nil_iff.mp empty

theorem filterMap_syncResp_of_kept
    (expunges : ∀ update ∈ kept, ∃ record, update = .expunge record) :
    kept.filterMap syncResp = [] := by
  refine filterMap_eq_nil_iff.mpr fun update mem => ?_
  obtain ⟨record, rfl⟩ := expunges update mem
  rfl

/-- The loop starts with the pending updates and an empty gather. -/
theorem Gathering.initial {pending : List Update} (sorted : WeakSorted MsgView.uidDn views)
    (isPending : PendingFor views [] pending) :
    Gathering allowExpunge (viewUids views) { views } pending where
  uids := (append_nil _).symm
  sorted := sorted
  newsSorted := List.Pairwise.nil
  above := fun _ _ _ mem => absurd mem not_mem_nil
  within := Multiset.zero_le _
  metas := nofun
  nodup := nodup_nil
  pending := isPending
  kept := nofun
  keptNil := fun _ => rfl

/-- At the end of the loop the gather is as it should be, if no message both arrived and was
expunged. -/
theorem Gathering.finish {remaining : List Update}
    (gathering : Gathering allowExpunge client state remaining)
    (separate : ∀ uidDn ∈ state.gather.expunges, uidDn ∉ state.gather.news) :
    Gathered client state.views state.gather where
  uids := gathering.uids
  sorted := gathering.sorted
  above := gathering.above
  within := by
    refine Multiset.le_iff_count.mpr fun uidDn => ?_
    have inViews := Multiset.le_iff_count.mp gathering.within uidDn
    rw [gathering.uids, ← Multiset.coe_add, Multiset.count_add] at inViews
    by_cases expunged : uidDn ∈ state.gather.expunges
    · rw [Multiset.count_eq_zero_of_notMem (s := (state.gather.news : Multiset Nat))
        (separate uidDn expunged), Nat.add_zero] at inViews
      exact inViews
    · rw [Multiset.count_eq_zero_of_notMem expunged]
      exact Nat.zero_le _
  metas := gathering.metas
  nodup := gathering.nodup

theorem PendingFor.skip_sync {expunges : List Nat} {resp : Option StResp}
    (isPending : PendingFor views expunges (kept ++ .sync resp :: rest)) :
    PendingFor views expunges (kept ++ rest) := by
  have news : (kept ++ .sync resp :: rest).filterMap newUid = (kept ++ rest).filterMap newUid := by
    rw [filterMap_append, filterMap_append]
    rfl
  obtain ⟨settles, above, increasing⟩ := isPending
  rw [news] at above increasing
  exact ⟨settles.skip fun live => rfl, above, increasing⟩

/-- Gathering a batch: the client is behind by the new messages. -/
theorem gatherUpdatesDontSend_sat {dn : Dn} {wantSync : Bool}
    (sorted : WeakSorted MsgView.uidDn dn.views)
    (isPending : PendingFor dn.views [] dn.pending)
    (syncs : (dn.pending.filterMap syncResp).length = if wantSync then 1 else 0)
    (separate : allowExpunge = true → dn.Separate) :
    Sat (gatherUpdatesDontSend dn allowExpunge wantSync) (fun result =>
        result.1 = { dn with views := result.1.views, pending := result.1.pending } ∧
        Gathered (viewUids dn.views) result.1.views result.2.1 ∧
        PendingFor result.1.views result.2.1.expunges result.1.pending ∧
        result.1.pending.filterMap syncResp = []) Limit := by
  -- whatever the batch is, the condition separates its arrivals from its expunges
  have apart : ∀ batch, (splitSync dn.pending).1 = batch → ∀ uidDn ∈
      (batch.foldl (gatherUpdate allowExpunge) { views := dn.views }).gather.expunges,
      uidDn ∉ (batch.foldl (gatherUpdate allowExpunge) { views := dn.views }).gather.news := by
    intro batch equal uidDn expunged isNew
    rcases mem_gathered.2 uidDn expunged with initial | ⟨allowed, inBatch⟩
    · exact absurd initial not_mem_nil
    rcases mem_gathered.1 uidDn isNew with initial | newInBatch
    · exact absurd initial not_mem_nil
    have condition := separate allowed
    unfold Dn.Separate at condition
    rw [equal] at condition
    exact condition uidDn newInBatch inBatch
  have initial : Gathering allowExpunge (viewUids dn.views) { views := dn.views } dn.pending :=
    Gathering.initial sorted isPending
  rcases split : splitSync dn.pending with ⟨batch, found⟩
  have disjoint := apart batch (congrArg Prod.fst split)
  cases found with
  | none =>
    obtain ⟨pendingEq, noSync⟩ := splitSync_none split
    rw [noSync] at syncs
    cases wantSync with
    | true => simp at syncs
    | false =>
      simp only [gatherUpdatesDontSend, split]
      rw [pendingEq] at initial noSync
      rw [← append_nil batch] at initial
      have final := initial.batch (noSync_of_filterMap noSync)
      have finalPending := final.pending
      rw [append_nil] at finalPending
      exact ⟨rfl, final.finish disjoint, finalPending, filterMap_syncResp_of_kept final.kept⟩
  | some found =>
    obtain ⟨resp, rest⟩ := found
    obtain ⟨pendingEq, noSync⟩ := splitSync_some split
    rw [pendingEq, filterMap_append, noSync, nil_append] at syncs
    cases wantSync with
    | false => simp [syncResp] at syncs
    | true =>
      have restNone : rest.filterMap syncResp = [] := by
        simpa [syncResp] using syncs
      simp only [gatherUpdatesDontSend, split]
      rw [pendingEq] at initial
      have final := initial.batch (noSync_of_filterMap noSync)
      refine ⟨rfl, final.finish disjoint, final.pending.skip_sync, ?_⟩
      rw [filterMap_append, filterMap_syncResp_of_kept final.kept, restNone]
      rfl

end Splintermail
