/-
This file follows the expunge updates that a `dn_t` holds.

An expunge update keeps a message in memory until its last copy is freed. A call of a
`dn_t` moves the copies that it has from the pending updates to a gather, and from
there to the updates that are freed: it makes none, and frees only what it had.
-/

import Splintermail.Imaildir.Dn
import Splintermail.Lib.Run

namespace Splintermail

open List
open Outcome (Sat)

/-- The updates that a connection has not freed. -/
def Dn.held (dn : Dn) : List Update := dn.pending ++ dn.gathered.updatesToFree

/-- The expunges among the first updates are among the second. -/
def Within (updates others : List Update) : Prop :=
  ∀ record, .expunge record ∈ updates → .expunge record ∈ others

namespace Within

variable {updates others more : List Update}

theorem of_subset (subset : updates ⊆ others) : Within updates others := fun _ mem => subset mem

theorem trans (first : Within updates others) (second : Within others more) : Within updates more :=
  fun record mem => second record (first record mem)

theorem append (first : Within updates more) (second : Within others more) :
    Within (updates ++ others) more := by
  intro record mem
  rcases mem_append.mp mem with left | right
  · exact first record left
  · exact second record right

end Within

open Within

/-- What a round of the gathering loop takes an update into. -/
theorem gatherUpdate_within (allowExpunge : Bool) (state : GatherState) (update : Update) :
    Within ((gatherUpdate allowExpunge state update).kept ++
        (gatherUpdate allowExpunge state update).gather.updatesToFree)
      (state.kept ++ state.gather.updatesToFree ++ [update]) := by
  have old : Within (state.kept ++ state.gather.updatesToFree)
      (state.kept ++ state.gather.updatesToFree ++ [update]) :=
    of_subset (subset_append_left _ _)
  cases update with
  | new view => exact old
  | sync resp => exact old
  | flags view =>
    cases found : Tree.find MsgView.uidDn view.uidDn state.views with
    | none => simpa only [gatherUpdate, gatherUpdateMeta, found] using old
    | some other => simpa only [gatherUpdate, gatherUpdateMeta, found] using old
  | expunge record =>
    cases allowExpunge with
    | true =>
      refine of_subset ?_
      show state.kept ++ (state.gather.updatesToFree ++ [Update.expunge record]) ⊆ _
      rw [append_assoc]
      exact Subset.refl _
    | false =>
      refine of_subset ?_
      show (state.kept ++ [Update.expunge record]) ++ state.gather.updatesToFree ⊆ _
      intro update mem
      simp only [mem_append, mem_singleton] at mem ⊢
      tauto

theorem foldl_gatherUpdate_within (allowExpunge : Bool) (batch : List Update) (state : GatherState) :
    Within ((batch.foldl (gatherUpdate allowExpunge) state).kept ++
        (batch.foldl (gatherUpdate allowExpunge) state).gather.updatesToFree)
      (state.kept ++ state.gather.updatesToFree ++ batch) := by
  induction batch generalizing state with
  | nil => exact of_subset (subset_append_left _ _)
  | cons update rest ih =>
    refine (ih (gatherUpdate allowExpunge state update)).trans ?_
    refine append ((gatherUpdate_within allowExpunge state update).trans ?_) ?_
    · refine of_subset (append_subset.mpr ⟨subset_append_left _ _, ?_⟩)
      exact fun other mem => mem_append_right _ (mem_singleton.mp mem ▸ mem_cons_self)
    · exact of_subset fun other mem =>
        mem_append_right _ (.tail _ mem)

theorem splitSync_subset (updates : List Update) :
    (splitSync updates).1 ⊆ updates ∧
      ∀ resp rest, (splitSync updates).2 = some (resp, rest) → rest ⊆ updates := by
  induction updates with
  | nil => exact ⟨Subset.refl _, nofun⟩
  | cons update rest ih =>
    obtain ⟨batch, after⟩ := ih
    cases update with
    | sync resp =>
      refine ⟨nil_subset _, fun other tail equal => ?_⟩
      cases equal
      exact subset_cons_self _ _
    | new view | flags view | expunge record =>
      exact ⟨cons_subset_cons _ batch, fun resp tail equal =>
        Subset.trans (after resp tail equal) (subset_cons_self _ _)⟩

theorem foldl_gatherUpdate_kept (allowExpunge : Bool) (batch : List Update) (state : GatherState) :
    ∃ kept, (batch.foldl (gatherUpdate allowExpunge) state).kept = state.kept ++ kept ∧
      kept.Sublist batch := by
  induction batch generalizing state with
  | nil => exact ⟨[], (append_nil _).symm, Sublist.refl _⟩
  | cons update rest ih =>
    obtain ⟨kept, equal, sublist⟩ := ih (gatherUpdate allowExpunge state update)
    rw [foldl_cons, equal]
    have round : (gatherUpdate allowExpunge state update).kept = state.kept ∨
        (gatherUpdate allowExpunge state update).kept = state.kept ++ [update] := by
      cases update with
      | new view | sync resp => exact .inl rfl
      | flags view =>
        unfold gatherUpdate gatherUpdateMeta
        cases Tree.find MsgView.uidDn view.uidDn state.views with
        | none => exact .inl rfl
        | some other => exact .inl rfl
      | expunge record =>
        cases allowExpunge with
        | true => exact .inl rfl
        | false => exact .inr rfl
    rcases round with same | withheld
    · exact ⟨kept, by rw [same], sublist.cons update⟩
    · exact ⟨update :: kept, by rw [withheld, append_assoc, singleton_append],
        sublist.cons_cons update⟩

theorem splitSync_append (updates : List Update) :
    ((splitSync updates).2 = none ∧ (splitSync updates).1 = updates) ∨
      ∃ resp rest, (splitSync updates).2 = some (resp, rest) ∧
        updates = (splitSync updates).1 ++ .sync resp :: rest := by
  induction updates with
  | nil => exact .inl ⟨rfl, rfl⟩
  | cons update rest ih =>
    cases update with
    | sync resp => exact .inr ⟨resp, rest, rfl, rfl⟩
    | new view | flags view | expunge record =>
      rcases ih with ⟨none, same⟩ | ⟨resp, tail, found, equal⟩
      · exact .inl ⟨none, congrArg _ same⟩
      · exact .inr ⟨resp, tail, found, congrArg _ equal⟩

/-- What gathering takes from the pending updates of a connection. -/
structure Dn.Gathers (dn next : Dn) (freed : List Update) : Prop where
  id : next.id = dn.id
  command : next.command = dn.command
  sublist : next.pending.Sublist dn.pending
  within : Within (next.pending ++ freed) dn.pending

theorem gatherUpdatesDontSend_gathers (dn : Dn) (allowExpunge wantSync : Bool) :
    Sat (gatherUpdatesDontSend dn allowExpunge wantSync)
      (fun result => dn.Gathers result.1 result.2.1.updatesToFree) (fun _ => True) := by
  obtain ⟨batchSubset, restSubset⟩ := splitSync_subset dn.pending
  have parts := splitSync_append dn.pending
  have taken :=
    foldl_gatherUpdate_kept allowExpunge (splitSync dn.pending).1 { views := dn.views }
  unfold gatherUpdatesDontSend
  generalize splitSync dn.pending = split at batchSubset restSubset parts taken ⊢
  obtain ⟨batch, found⟩ := split
  obtain ⟨kept, equal, sublist⟩ := taken
  have loop : Within _ dn.pending :=
    (foldl_gatherUpdate_within allowExpunge batch { views := dn.views }).trans
      (of_subset batchSubset)
  have withheld := trans (of_subset (subset_append_left _ _)) loop
  have freed := trans (of_subset (subset_append_right _ _)) loop
  dsimp only at equal sublist ⊢
  rcases parts with ⟨rfl, whole⟩ | ⟨resp, rest, rfl, whole⟩
  · cases wantSync with
    | true => trivial
    | false => exact ⟨rfl, rfl, by rw [equal, ← whole]; exact sublist, withheld.append freed⟩
  · cases wantSync with
    | true =>
      refine ⟨rfl, rfl, ?_, (withheld.append (of_subset (restSubset resp rest rfl))).append freed⟩
      show Sublist (GatherState.kept (foldl _ _ batch) ++ rest) dn.pending
      rw [equal, whole]
      exact sublist.append (sublist_cons_self _ _)
    | false => trivial

theorem gatherSendResponses_same (dn : Dn) (gather : Gather) (uidMode : Bool)
    (forStore : Option StoreCmd) :
    Sat (gatherSendResponses dn gather uidMode forStore)
      (fun result => result.1.id = dn.id ∧ result.1.pending = dn.pending ∧
        result.1.command = dn.command) (fun _ => True) := by
  have any : ∀ {Value : Type} (outcome : Except Derr Value),
      Sat outcome (fun _ => True) (fun _ => True) := by
    intro Value outcome
    cases outcome <;> trivial
  unfold gatherSendResponses
  refine (any _).bind fun metas _ => (any _).bind fun views _ => (any _).bind fun news _ => ?_
  exact ⟨rfl, rfl, rfl⟩

/-- What a call leaves and frees is what the connection had. -/
def Dn.Keeps (dn : Dn) (result : Dn × List Response × List Update) : Prop :=
  Within (result.1.held ++ result.2.2) dn.held

theorem Dn.pending_within_held (dn : Dn) : Within dn.pending dn.held :=
  of_subset (subset_append_left _ _)

theorem Dn.held_of_idle {dn : Dn} (idle : dn.command = none) : dn.held = dn.pending := by
  unfold Dn.held Dn.gathered
  rw [idle]
  exact append_nil _

/-- The connection is the same one, and has no pending updates that it did not have. -/
def Dn.Drains (dn : Dn) (result : Dn × List Response × List Update) : Prop :=
  result.1.id = dn.id ∧ result.1.pending.Sublist dn.pending

/-- A call leaves and frees what the connection had, and leaves no new pending updates. -/
def Dn.Custody (dn : Dn) (result : Dn × List Response × List Update) : Prop :=
  dn.Keeps result ∧ dn.Drains result

theorem Dn.custody_same (dn : Dn) : dn.Custody (dn, [], []) := by
  refine ⟨?_, rfl, Sublist.refl _⟩
  show Within (dn.held ++ []) dn.held
  rw [append_nil]
  exact of_subset (Subset.refl _)

theorem Dn.custody_idle {dn next : Dn} {responses : List Response} {freed : List Update}
    (idle : next.command = none) (same : next.id = dn.id) (sublist : next.pending.Sublist dn.pending)
    (within : Within (next.pending ++ freed) dn.held) : dn.Custody (next, responses, freed) := by
  refine ⟨?_, same, sublist⟩
  show Within (next.held ++ freed) dn.held
  rw [Dn.held_of_idle idle]
  exact within

theorem dnGatherUpdates_gathers (dn : Dn) (allowExpunge uidMode wantSync : Bool) :
    Sat (dnGatherUpdates dn allowExpunge uidMode wantSync)
      (fun result => dn.Gathers result.1 result.2.2) (fun _ => True) := by
  unfold dnGatherUpdates
  refine (gatherUpdatesDontSend_gathers dn allowExpunge wantSync).bind ?_
  rintro ⟨gathered, gather, resp⟩ gathers
  refine (gatherSendResponses_same gathered gather uidMode none).bind ?_
  rintro ⟨final, responses⟩ ⟨id, pending, command⟩
  refine ⟨id.trans gathers.id, command.trans gathers.command, ?_, ?_⟩
  · show final.pending.Sublist dn.pending
    rw [pending]
    exact gathers.sublist
  · show Within (final.pending ++ gather.updatesToFree) dn.pending
    rw [pending]
    exact gathers.within

/-- The end of a command: the batch is answered and the command is done. -/
theorem finish_custody (dn gathered : Dn) (gather : Gather) (uidMode : Bool) (forStore : Option StoreCmd)
    (same : gathered.id = dn.id) (sublist : gathered.pending.Sublist dn.pending)
    (within : Within (gathered.pending ++ gather.updatesToFree) dn.held) :
    Sat (gatherSendResponses gathered gather uidMode forStore >>= fun result =>
      pure ({ result.1 with command := none }, result.2, gather.updatesToFree))
      dn.Custody (fun _ => True) := by
  refine (gatherSendResponses_same gathered gather uidMode forStore).bind ?_
  rintro ⟨final, responses⟩ ⟨id, pending, -⟩
  refine Dn.custody_idle rfl (id.trans same) ?_ ?_
  · show final.pending.Sublist dn.pending
    rw [pending]
    exact sublist
  · show Within (final.pending ++ gather.updatesToFree) dn.held
    rw [pending]
    exact within

theorem fetchRespond_custody (dn next : Dn) (cmd : FetchCmd) (gather : Gather)
    (same : next.id = dn.id) (sublist : next.pending.Sublist dn.pending)
    (within : Within (next.pending ++ gather.updatesToFree) dn.held) :
    Sat (fetchRespond next cmd gather) dn.Custody (fun _ => True) := by
  unfold fetchRespond
  split
  · have any : ∀ missing views uidDn,
        Sat (lookupView missing views uidDn) (fun _ => True) (fun _ => True) := by
      intro missing views uidDn
      cases lookupView missing views uidDn <;> trivial
    refine (any _ _ _).bind fun found _ => ⟨?_, same, sublist⟩
    exact append within (of_subset (nil_subset _))
  · exact finish_custody dn next gather cmd.uidMode none same sublist within

theorem Command.advance_custody {dn : Dn} {command : Command} (current : dn.command = some command) :
    Sat (command.advance dn) dn.Custody (fun _ => True) := by
  have same := dn.custody_same
  have wait : ∀ cmd, Sat (waitFinish dn cmd) dn.Custody (fun _ => True) := by
    intro cmd
    unfold waitFinish
    refine (dnGatherUpdates_gathers dn true cmd.uidMode true).bind ?_
    rintro ⟨final, responses, freed⟩ gathers
    exact Dn.custody_idle rfl gathers.id gathers.sublist
      (gathers.within.trans dn.pending_within_held)
  cases command with
  | store cmd =>
    show Sat (if cmd.synced then storeFinish dn cmd else .ok (dn, [], [])) _ _
    split
    · unfold storeFinish
      refine (gatherUpdatesDontSend_gathers dn cmd.uidMode true).bind ?_
      rintro ⟨gathered, gather, resp⟩ gathers
      exact finish_custody dn gathered gather cmd.uidMode (some cmd) gathers.id gathers.sublist
        (gathers.within.trans dn.pending_within_held)
    · exact same
  | expunge cmd | copy cmd =>
    show Sat (if cmd.synced then waitFinish dn cmd else .ok (dn, [], [])) _ _
    split
    · exact wait cmd
    · exact same
  | disconnect cmd =>
    show Sat (if cmd.synced then disconnectFinish dn else .ok (dn, [], [])) _ _
    split
    · unfold disconnectFinish
      split
      · trivial
      · refine Dn.custody_idle rfl rfl filter_sublist ?_
        rw [append_nil]
        exact trans (of_subset (filter_subset_self _)) dn.pending_within_held
    · exact same
  | fetch cmd =>
    simp only [Command.advance]
    split
    · unfold fetchPostSync
      refine (gatherUpdatesDontSend_gathers dn cmd.uidMode true).bind ?_
      rintro ⟨gathered, gather, resp⟩ gathers
      have within := gathers.within.trans dn.pending_within_held
      cases resp with
      | some failed =>
        exact finish_custody dn gathered gather cmd.uidMode none gathers.id gathers.sublist within
      | none => exact fetchRespond_custody dn gathered _ gather gathers.id gathers.sublist within
    · split
      · rename_i gather ready
        refine fetchRespond_custody dn dn cmd gather rfl (Sublist.refl _) (of_subset ?_)
        unfold Dn.held Dn.gathered
        rw [current]
        show dn.pending ++ gather.updatesToFree ⊆ dn.pending ++ (cmd.ready.getD {}).updatesToFree
        rw [ready]
        exact Subset.refl _
      · exact same

theorem Dn.call_custody (dn : Dn) (call : DnCall) :
    Sat (dn.call call) dn.Custody (fun _ => True) := by
  have same := dn.custody_same
  -- starting a command other than a FETCH that gathers holds on to nothing new
  have started : ∀ command : Command, (∀ cmd, command = .fetch cmd → cmd.ready = none) →
      dn.Custody ({ dn with command := some command }, [], []) := by
    intro command notReady
    refine ⟨?_, rfl, Sublist.refl _⟩
    have none : (Dn.gathered { dn with command := some command }).updatesToFree = [] := by
      unfold Dn.gathered
      cases command with
      | fetch cmd =>
        show (cmd.ready.getD {}).updatesToFree = []
        rw [notReady cmd rfl]
        rfl
      | store cmd | expunge cmd | copy cmd | disconnect cmd => rfl
    show Within ((dn.pending ++ (Dn.gathered { dn with command := some command }).updatesToFree) ++ [])
      dn.held
    rw [none, append_nil, append_nil]
    exact dn.pending_within_held
  unfold Dn.call
  cases current : dn.command with
  | none =>
    cases call with
    | gather allowExpunge uidMode =>
      refine (dnGatherUpdates_gathers dn allowExpunge uidMode false).mono ?_
      rintro ⟨final, responses, freed⟩ gathers
      exact Dn.custody_idle (gathers.command.trans current) gathers.id gathers.sublist
        (gathers.within.trans dn.pending_within_held)
    | storeBegin uidMode silent sign flags requested =>
      dsimp only
      unfold storeBegin
      cases expectFlags sign flags (dn.views.filter fun view => view.uidDn ∈ requested) with
      | error error => trivial
      | ok tree => exact started _ nofun
    | expungeBegin | copyBegin uidMode | disconnectBegin => exact started _ nofun
    | fetchBegin uidMode flags uid requested peek =>
      dsimp only
      unfold fetchBegin
      cases peek with
      | false =>
        refine started _ fun cmd equal => ?_
        cases equal
        rfl
      | true =>
        have gathered := gatherUpdatesDontSend_gathers dn uidMode false
        dsimp only
        rw [if_pos rfl]
        cases outcome : gatherUpdatesDontSend dn uidMode false with
        | error error => trivial
        | ok result =>
          have gathers := gathered.of_ok outcome
          refine ⟨append ?_ (of_subset (nil_subset _)), gathers.id, gathers.sublist⟩
          exact gathers.within.trans dn.pending_within_held
    | advance => exact same
  | some command =>
    cases call with
    | advance => exact Command.advance_custody current
    | gather allowExpunge uidMode | storeBegin uidMode silent sign flags requested | expungeBegin
    | copyBegin uidMode | disconnectBegin | fetchBegin uidMode flags uid requested peek => exact same

theorem Dn.call_keeps (dn : Dn) (call : DnCall) : Sat (dn.call call) dn.Keeps (fun _ => True) :=
  (dn.call_custody call).mono fun _ custody => custody.1

theorem Dn.call_drains (dn : Dn) (call : DnCall) : Sat (dn.call call) dn.Drains (fun _ => True) :=
  (dn.call_custody call).mono fun _ custody => custody.2

end Splintermail
