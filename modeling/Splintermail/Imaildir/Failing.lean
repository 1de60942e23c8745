/-
This file proves which accessors the failure of an `imaildir_t` reaches. `do_fail` walks
over `ups` and `dns`, so that exactly the accessors that wait in `predns` for their
views are missed: they stay linked, keep their `m`, and are not woken up.
-/

import Splintermail.Imaildir.Accessors
import Splintermail.Imaildir.Recovery

namespace Splintermail

open List
open Outcome (Sat)

namespace Imaildir

/-! ### The accessors that exist -/

/-- Every accessor that exists is in one list, once. -/
def Apart (m : Imaildir) : Prop := m.existing.Nodup

section

variable (m : Imaildir)

theorem callPrimary_existing (call : Up → Except String Up) :
    Sat (m.callPrimary call) (·.existing = m.existing) (fun _ => True) := by
  unfold callPrimary
  cases links : m.ups with
  | nil => exact rfl
  | cons primary rest =>
    dsimp only
    cases outcome : call primary.up with
    | error text => trivial
    | ok up =>
      change ({ m with ups := { primary with up } :: rest }.schedule [.up primary.id]).existing = _
      simp only [schedule, existing, linked, links, map_cons]

theorem advanceSelect_existing (examine : Bool) :
    Sat (m.advanceSelect examine) (·.existing = m.existing) (fun _ => True) := by
  unfold advanceSelect
  have same : (if m.sync.done && m.sync.examining != examine then m.freeSync else m).existing =
      m.existing := by
    split <;> rfl
  generalize (if m.sync.done && m.sync.examining != examine then m.freeSync else m) = next at same
  dsimp only
  refine Sat.ite (fun _ => ?_) fun _ => ?_
  · exact same
  · exact (callPrimary_existing next _).bind fun value kept => kept.trans same

theorem wakePredns_existing : m.wakePredns.existing = m.existing := by
  unfold wakePredns
  split <;> rfl

theorem advanceSync_existing : Sat m.advanceSync (·.existing = m.existing) (fun _ => True) := by
  unfold advanceSync
  split
  · exact rfl
  · split
    · exact rfl
    · exact (advanceSelect_existing m _).bind fun value kept =>
        (wakePredns_existing value).trans kept

theorem sendUnsent_existing (relays : List Relay) :
    Sat (m.sendUnsent relays) (·.existing = m.existing) (fun _ => True) := by
  induction relays generalizing m with
  | nil => exact rfl
  | cons relay rest ih =>
    rw [sendUnsent]
    refine (callPrimary_existing m _).bind fun value kept => ?_
    exact (ih { value with strays := value.strays ++ [relay] }).mono
      fun after same => same.trans kept

theorem upSynced_existing (examining : Bool) :
    Sat (m.upSynced examining) (·.existing = m.existing) (fun _ => True) := by
  unfold upSynced
  refine (advanceSync_existing _).bind fun value kept => ?_
  by_cases going : value.sync.done = true
  · rw [if_neg (by rw [going]; decide)]
    split
    · trivial
    · exact (sendUnsent_existing _ _).mono fun after same => same.trans kept
  · rw [if_pos (by simpa using going)]
    exact kept

theorem maybeSendRelay_existing (relay : Relay) :
    Sat (m.maybeSendRelay relay) (·.existing = m.existing) (fun _ => True) := by
  unfold maybeSendRelay
  split
  · exact rfl
  · split
    · trivial
    · split
      · trivial
      · split
        · trivial
        · exact (callPrimary_existing m _).bind fun value kept => kept

end

/-! ### Freeing the views of a connection -/

theorem freeUpdate_dns (box : Box) (update : Update) : (box.freeUpdate update).dns = box.dns := by
  unfold Box.freeUpdate
  split
  · split
    · split
      · rfl
      · unfold Box.removeAndDeleteMsg
        split <;> rfl
    · rfl
  · rfl

theorem freeUpdates_dns (box : Box) (updates : List Update) :
    (box.freeUpdates updates).dns = box.dns := by
  unfold Box.freeUpdates
  induction updates generalizing box with
  | nil => rfl
  | cons update rest ih =>
    rw [foldl_cons, ih, freeUpdate_dns]

theorem dnFreeViews_ids (box : Box) (id : Nat) :
    (dnFreeViews box id).dns.map Dn.id = box.dns.map Dn.id := by
  unfold dnFreeViews
  split
  · rfl
  · rw [freeUpdates_dns, map_map]
    refine map_congr_left fun other _ => ?_
    rw [Function.comp_apply]
    split <;> rfl

theorem foldl_dnFreeViews_ids (box : Box) (ids : List Nat) :
    (ids.foldl dnFreeViews box).dns.map Dn.id = box.dns.map Dn.id := by
  induction ids generalizing box with
  | nil => rfl
  | cons id rest ih =>
    rw [foldl_cons, ih, dnFreeViews_ids]

/-! ### Every accessor exists once -/

theorem map_dn_ids (dns : List Dn) :
    dns.map (fun dn => AccessorName.dn dn.id) = (dns.map Dn.id).map .dn := by
  rw [map_map]
  rfl

theorem doFail_existing (m : Imaildir) : m.doFail.existing.Perm m.existing := by
  have ids := foldl_dnFreeViews_ids m.box (m.box.dns.map Dn.id)
  have names : ((m.box.dns.map Dn.id).foldl dnFreeViews m.box).dns.map
      (fun dn => AccessorName.dn dn.id) = m.box.dns.map fun dn => .dn dn.id := by
    rw [map_dn_ids, ids, ← map_dn_ids]
  unfold existing linked doFail
  simp only [map_nil, nil_append, map_append, map_map]
  have ups : map ((fun accessor : UpAccessor => AccessorName.up accessor.id) ∘
      fun accessor => { accessor with up := upImaildirFailed accessor.up }) m.ups =
      m.ups.map fun accessor => .up accessor.id := rfl
  have dns : map ((fun failed : FailedDn => AccessorName.dn failed.dn.id) ∘
      fun dn => { dn, m := false }) ((m.box.dns.map Dn.id).foldl dnFreeViews m.box).dns =
      m.box.dns.map fun dn => .dn dn.id := names
  rw [ups, dns, perm_iff_count]
  intro name
  simp only [count_append]
  omega

theorem free_existing (m : Imaildir) : m.free.existing = m.existing := by
  have dns : (m.box.free m.rmOnClose).dns = m.box.dns := by
    unfold Box.free
    split
    · exact (Box.removeAll_spec m.box).dns
    · rfl
  unfold existing linked free
  dsimp only
  rw [dns]

theorem maybeFail_existing (m : Imaildir) (error : Option Derr) :
    (m.maybeFail error).existing.Perm m.existing := by
  cases error with
  | none => exact Perm.refl _
  | some error =>
    rw [maybeFail, free_existing]
    exact doFail_existing m

variable {m : Imaildir}

theorem upSelected_apart (apart : m.Apart) (status : StatusType) :
    Sat (m.upSelected status) Apart (fun _ => True) := by
  unfold upSelected
  dsimp only
  split
  · exact apart
  · split
    · exact (maybeFail_existing _ _).nodup_iff.mpr apart
    · split
      · trivial
      · exact apart

theorem registerUp_apart (apart : m.Apart) {id : Nat} (fresh : .up id ∉ m.existing) :
    Sat (m.registerUp id) Apart (fun _ => True) := by
  unfold registerUp
  refine (advanceSync_existing _).mono fun after same => ?_
  unfold Apart
  rw [same]
  have order : (({ m with ups := m.ups ++ [{ id }], naccessors := m.naccessors + 1 } :
      Imaildir)).existing.Perm (.up id :: m.existing) := by
    simp only [existing, linked, map_append, map_cons, map_nil]
    rw [perm_iff_count]
    intro name
    simp only [count_append, count_cons, count_nil]
    omega
  exact order.nodup_iff.mpr (nodup_cons.mpr ⟨fresh, apart⟩)

theorem registerDn_apart (apart : m.Apart) {id : Nat} (examine : Bool)
    (fresh : .dn id ∉ m.existing) : Sat (m.registerDn id examine) Apart (fun _ => True) := by
  unfold registerDn
  refine (advanceSync_existing _).mono fun after same => ?_
  unfold Apart
  rw [same]
  refine (Perm.nodup_iff ?_).mpr (nodup_cons.mpr ⟨fresh, apart⟩)
  simp only [existing, linked, map_append, map_cons, map_nil]
  rw [perm_iff_count]
  intro name
  simp only [count_append, count_cons, count_nil]
  omega

/-- Without the items of one name, the others are counted as before. -/
theorem count_map_filter {Item Name : Type} [DecidableEq Name] (name : Item → Name) (left : Name)
    (keep : Item → Bool) (kept : ∀ item, keep item = true ↔ name item ≠ left) (items : List Item)
    (other : Name) :
    ((items.filter keep).map name).count other =
      if other = left then 0 else (items.map name).count other := by
  induction items with
  | nil => simp
  | cons item rest ih =>
    by_cases stays : keep item = true
    · rw [filter_cons_of_pos stays, map_cons, map_cons, count_cons, count_cons, ih]
      by_cases same : other = left
      · have differs : ¬ (name item == other) = true := by
          rw [beq_iff_eq, same]
          exact (kept item).mp stays
        rw [if_pos same, if_pos same, if_neg differs]
      · rw [if_neg same, if_neg same]
    · have gone : name item = left := by
        by_contra differs
        exact stays ((kept item).mpr differs)
      rw [filter_cons_of_neg stays, ih, map_cons, count_cons, gone]
      by_cases same : other = left
      · rw [if_pos same, if_pos same]
      · rw [if_neg same, if_neg same, if_neg (by simpa using fun equal => same equal.symm),
          Nat.add_zero]

theorem dnBuildViews_apart (apart : m.Apart) (id : Nat) : (m.dnBuildViews id).Apart := by
  unfold dnBuildViews
  split
  · exact apart
  · rename_i dn found
    split
    · have mem := mem_of_find?_eq_some found
      have same : dn.id = id := by simpa using find?_some found
      unfold Apart existing linked at apart ⊢
      rw [nodup_iff_count_le_one] at apart ⊢
      intro name
      have once := apart name
      have rest := count_map_filter (fun dn : Dn => AccessorName.dn dn.id) (.dn id)
        (fun dn => decide (dn.id ≠ id)) (fun other => by simp) m.predns name
      simp only [count_append, map_append, map_cons, map_nil] at once ⊢
      rw [rest, same]
      by_cases equal : name = .dn id
      · have counted : 0 < (m.predns.map fun dn => AccessorName.dn dn.id).count name :=
          count_pos_iff.mpr (mem_map.mpr ⟨dn, mem, by rw [same, equal]⟩)
        rw [if_pos equal, equal, count_singleton_self]
        rw [equal] at once counted
        omega
      · rw [if_neg equal, count_singleton, if_neg (by simpa using fun same => equal same.symm)]
        omega
    · exact apart

theorem closeDn_dns_sublist (box : Box) (id : Nat) : (box.closeDn id).dns.Sublist box.dns := by
  unfold Box.closeDn
  split
  · exact Sublist.refl _
  · rw [freeUpdates_dns]
    exact filter_sublist

theorem ejectUp_apart (apart : m.Apart) (id : Nat) : (m.ejectUp id).Apart := by
  have fewer : (m.ejectUp id).existing.Sublist m.existing := by
    have same : (m.ejectUp id).existing =
        ({ m with ups := m.ups.filter (·.id ≠ id) } : Imaildir).existing := by
      unfold ejectUp
      dsimp only
      split <;> rfl
    rw [same]
    exact ((filter_sublist.map _).append_right _).append_right _
  exact Nodup.sublist fewer apart

theorem ejectDn_apart (apart : m.Apart) (id : Nat) : (m.ejectDn id).Apart := by
  refine Nodup.sublist ?_ apart
  unfold existing linked ejectDn
  exact (((closeDn_dns_sublist m.box id).map _).append (filter_sublist.map _)).append_left _
    |>.append_right _

theorem handleEmpty_existing (m : Imaildir) : m.handleEmpty.existing = m.existing := by
  unfold handleEmpty
  split
  · exact free_existing m
  · rfl

theorem closeUp_apart (apart : m.Apart) (id : Nat) : Sat (m.closeUp id) Apart (fun _ => True) := by
  unfold closeUp
  split
  · refine (advanceSync_existing _).bind fun value same => ?_
    show value.handleEmpty.Apart
    unfold Apart
    rw [handleEmpty_existing, same]
    exact ejectUp_apart apart id
  · refine Nodup.sublist ?_ apart
    exact ((filter_sublist.map _).append_right _).append_left _

theorem closeDn_apart (apart : m.Apart) (id : Nat) : Sat (m.closeDn id) Apart (fun _ => True) := by
  unfold closeDn
  split
  · refine (advanceSync_existing _).bind fun value same => ?_
    show value.handleEmpty.Apart
    unfold Apart
    rw [handleEmpty_existing, same]
    exact ejectDn_apart apart id
  · refine Nodup.sublist ?_ apart
    exact ((filter_sublist.map _).append_left _).append_left _

theorem advanceUp_existing (m : Imaildir) (id : Nat) (after : Up) : ({ m with
      ups := m.ups.map fun accessor =>
        if accessor.id = id then { accessor with up := after } else accessor } :
      Imaildir).existing = m.existing := by
  unfold existing linked
  dsimp only
  rw [map_map]
  have names : (m.ups.map ((fun accessor : UpAccessor => AccessorName.up accessor.id) ∘
      fun accessor => if accessor.id = id then { accessor with up := after } else accessor)) =
      m.ups.map fun accessor => .up accessor.id := by
    refine map_congr_left fun accessor _ => ?_
    rw [Function.comp_apply]
    split <;> rfl
  rw [names]

/-- Every step keeps the accessors apart. -/
theorem step_apart (apart : m.Apart) (event : ImaildirEvent) :
    Sat (m.step event) Apart (fun _ => True) := by
  have keep {outcome : Except String Imaildir}
      (sat : Sat outcome (·.existing = m.existing) (fun _ => True)) :
      Sat outcome Apart (fun _ => True) :=
    sat.mono fun after same => by
      unfold Apart
      rw [same]
      exact apart
  cases event with
  | openUp id =>
    rw [step]
    split
    · exact apart
    · rename_i free
      exact registerUp_apart apart fun used => free (Or.inr used)
  | openDn id examine =>
    rw [step]
    split
    · exact apart
    · rename_i free
      exact registerDn_apart apart examine fun used => free (Or.inr used)
  | closeUp id => exact closeUp_apart apart id
  | closeDn id => exact closeDn_apart apart id
  | buildViews id => exact dnBuildViews_apart apart id
  | relay requester cmd =>
    rw [step]
    split
    · exact keep (maybeSendRelay_existing { m with tag := m.tag + 1 } _)
    · exact apart
  | advanceUp id after => exact keep (advanceUp_existing m id after)
  | selected status =>
    rw [step]
    split
    · exact apart
    · exact upSelected_apart apart status
  | synced examining =>
    rw [step]
    split
    · exact apart
    · exact keep (upSynced_existing m examining)
  | maybeFail error => exact (maybeFail_existing m error).nodup_iff.mpr apart
  | forceclose => exact (maybeFail_existing m (some ⟨.imaildir, ""⟩)).nodup_iff.mpr apart

theorem run_apart (box : Box) (events : List ImaildirEvent) :
    Sat (Run.run step (opened box) events) Apart (fun _ => True) :=
  have start : (opened box).Apart := by
    unfold Apart existing linked opened
    exact nodup_nil
  Run.run_sat (fun _ event apart => step_apart apart event) start events

/-! ### Whom a failure reaches -/

/-- The failure reached every accessor: none is linked any more, every one that was has lost its
`m`, and was scheduled once. -/
structure FailureReaches (before after : Imaildir) : Prop where
  unlinked : after.linked = []
  ups : ∀ accessor ∈ before.ups, ∃ failed ∈ after.failedUps,
    failed.id = accessor.id ∧ failed.up.m = false
  dns : ∀ dn ∈ before.box.dns ++ before.predns, ∃ failed ∈ after.failedDns,
    failed.dn.id = dn.id ∧ failed.m = false
  scheduled : ∀ name ∈ before.linked, after.scheduled.count name = before.scheduled.count name + 1

theorem free_linked (m : Imaildir) : m.doFail.free.linked = m.predns.map (.dn ·.id) := by
  have dns : (m.doFail.box.free m.doFail.rmOnClose).dns = [] := by
    unfold Box.free
    split
    · exact (Box.removeAll_spec m.doFail.box).dns
    · rfl
  unfold free linked
  dsimp only
  rw [dns]
  rfl

theorem failed_of_dn {dn : Dn} (mem : dn ∈ m.box.dns) :
    ∃ failed ∈ m.doFail.failedDns, failed.dn.id = dn.id ∧ failed.m = false := by
  have ids := foldl_dnFreeViews_ids m.box (m.box.dns.map Dn.id)
  have known : dn.id ∈ ((m.box.dns.map Dn.id).foldl dnFreeViews m.box).dns.map Dn.id := by
    rw [ids]
    exact mem_map_of_mem mem
  obtain ⟨left, inLeft, same⟩ := mem_map.mp known
  exact ⟨{ dn := left, m := false }, mem_append_right _ (mem_map_of_mem inLeft), same, rfl⟩

theorem doFail_reaches_iff (apart : m.Apart) : FailureReaches m m.doFail.free ↔ m.predns = [] := by
  constructor
  · intro reaches
    have unlinked := reaches.unlinked
    rw [free_linked] at unlinked
    exact map_eq_nil_iff.mp unlinked
  · intro none
    refine ⟨?_, fun accessor mem => ?_, fun dn mem => ?_, fun name mem => ?_⟩
    · rw [free_linked, none]
      rfl
    · exact ⟨{ accessor with up := upImaildirFailed accessor.up },
        mem_append_right _ (mem_map_of_mem mem), rfl, rfl⟩
    · rw [none, append_nil] at mem
      exact failed_of_dn mem
    · have linked : m.linked =
          m.ups.map (fun accessor => .up accessor.id) ++ m.box.dns.map (fun dn => .dn dn.id) := by
        rw [Imaildir.linked, none, map_nil, append_nil]
      have once : m.linked.count name = 1 :=
        count_eq_one_of_mem (Nodup.of_append_left apart) mem
      have scheduled : m.doFail.free.scheduled = m.scheduled ++ m.linked := by
        rw [linked]
        rfl
      rw [scheduled, count_append, once]

/-- In every state of every run, a failure reaches all registered accessors if and only if none of
them still waits for its views. -/
theorem failure_reaches_iff (box : Box) (events : List ImaildirEvent) (m : Imaildir)
    (reached : Run.run step (opened box) events = .ok m) (error : Derr) :
    (FailureReaches m (m.maybeFail (some error)) ↔ m.predns = []) ∧
      (FailureReaches m m.forceclose ↔ m.predns = []) := by
  have apart := (run_apart box events).of_ok reached
  exact ⟨doFail_reaches_iff apart, doFail_reaches_iff apart⟩

/-- An `up_t` and a connection with views. -/
theorem failure_reaches_iff_views :
    ∃ m, Run.run step (opened { store := {}, disk := {} })
        [.openUp 0, .openDn 1 true, .synced true, .buildViews 1] = .ok m ∧
      m.predns = [] ∧ FailureReaches m m.forceclose :=
  have reached : Run.run step (opened { store := {}, disk := {} })
      [.openUp 0, .openDn 1 true, .synced true, .buildViews 1] = .ok _ := rfl
  ⟨_, reached, rfl, ((failure_reaches_iff _ _ _ reached ⟨.imaildir, "frozen"⟩).2).mpr rfl⟩

/-- A connection that waits for its views is still linked after its mailbox was closed. -/
theorem failure_misses_predn :
    ∃ m, Run.run step (opened { store := {}, disk := {} }) [.openUp 0, .openDn 1 true] = .ok m ∧
      ¬ FailureReaches m m.forceclose ∧ ¬ FailureReaches m (m.maybeFail (some ⟨.imaildir, ""⟩)) := by
  refine ⟨_, rfl, fun reaches => ?_, fun reaches => ?_⟩
  · exact absurd reaches.unlinked (by decide)
  · exact absurd reaches.unlinked (by decide)

end Imaildir

end Splintermail
