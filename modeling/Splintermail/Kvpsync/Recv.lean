/-
This file models the receiver of kvpsync: `recv.c`, with the packets of `pkts.h`.

Updates arrive in any order, so a deletion is stored as an object that cancels its
insertion in either order of arrival. A deletion that has met its insertion is put on a
timer, and is collected by the first packet or lookup after that. Everything the
receiver does to the updates it holds is told by the set of these updates: an update is
added, or removed by the deletion that names it, or is too late for its deletion.
-/

import Mathlib.Data.List.Basic
import Mathlib.Data.List.Nodup
import Splintermail.Dstr.Bytes

namespace Splintermail

open List

/-! ### Packets -/

/-- `kvp_update_type_e`, with the fields that are only present for the type. -/
inductive KvpBody where
  | empty
  | flush
  | start (resyncId : Nat)
  | insert (key val : Bytes)
  | delete (key : Bytes) (deleteId : Nat)
  deriving DecidableEq

/-- `kvp_update_t` -/
structure KvpUpdate where
  okExpiry : Nat
  syncId : Nat
  updateId : Nat
  body : KvpBody
  deriving DecidableEq

/-- `kvp_ack_t` -/
structure KvpAck where
  syncId : Nat
  updateId : Nat
  deriving DecidableEq

/-! ### The receiver -/

/-- `GC_DELAY` -/
def gcDelay : Nat := 255

/-- `recv_datum_t`, with the key of its `recv_data_t`. A `gcTime` of zero means that it is on no
timer. -/
structure RecvDatum where
  key : Bytes
  syncId : Nat
  updateId : Nat
  deleteId : Nat
  val : Bytes
  gcTime : Nat
  deriving DecidableEq

/-- `kvpsync_recv_t`. The data of all keys are in `h` in the order in which they arrived, and those on
a timer in `gc` as well. -/
structure KvpsyncRecv where
  h : List RecvDatum
  recvId : Nat
  syncId : Nat
  initialSyncAcked : Bool
  okExpiry : Nat
  gc : List RecvDatum

/-- The answer to a lookup. -/
inductive KvpAnswer where
  | null
  | unsure
  | value (val : Bytes)
  deriving DecidableEq

namespace KvpsyncRecv

/-- `kvpsync_recv_init`, with the random `recv_id`. -/
def init (recvId : Nat) : KvpsyncRecv := ⟨[], recvId, 0, false, 0, []⟩

/-- The loop of `do_gc`. -/
def gcLoop (now : Nat) : List RecvDatum → List RecvDatum → List RecvDatum × List RecvDatum
  | h, [] => (h, [])
  | h, datum :: gc =>
    if now < datum.gcTime then (h, datum :: gc) else gcLoop now (h.erase datum) gc

/-- `do_gc` -/
def doGc (r : KvpsyncRecv) (now : Nat) : KvpsyncRecv :=
  { r with h := (gcLoop now r.h r.gc).1, gc := (gcLoop now r.h r.gc).2 }

/-- `flush_stale_data` -/
def flushStaleData (r : KvpsyncRecv) : KvpsyncRecv :=
  { r with
    h := r.h.filter fun datum => datum.syncId = r.syncId
    gc := r.gc.filter fun datum => datum.syncId = r.syncId }

/-- The loop of `handle_recv_or_delete` through the data of a key. It returns no timer where the
function returns. -/
def matchLoop (now syncId updateId deleteId : Nat) :
    KvpsyncRecv → Nat → List RecvDatum → KvpsyncRecv × Option Nat
  | r, gcTime, [] => (r, some gcTime)
  | r, gcTime, other :: rest =>
    if other.syncId ≠ syncId then matchLoop now syncId updateId deleteId r gcTime rest
    else if other.updateId = updateId then (r, none)
    else if deleteId ≠ 0 ∧ other.updateId = deleteId then
      matchLoop now syncId updateId deleteId { r with h := r.h.erase other } (now + gcDelay) rest
    else if deleteId = 0 ∧ other.deleteId = updateId then
      if other.gcTime ≠ 0 then (r, none)
      else
        let timed := { other with gcTime := now + gcDelay }
        ({ r with h := r.h.map fun datum => if datum = other then timed else datum
                  gc := r.gc ++ [timed] }, none)
    else matchLoop now syncId updateId deleteId r gcTime rest

/-- `handle_recv_or_delete` -/
def handleRecvOrDelete (r : KvpsyncRecv) (now syncId updateId : Nat) (key : Bytes) (deleteId : Nat)
    (val : Bytes) : KvpsyncRecv :=
  match matchLoop now syncId updateId deleteId r 0 (r.h.filter fun datum => datum.key = key) with
  | (r, none) => r
  | (r, some gcTime) =>
    let datum : RecvDatum := ⟨key, syncId, updateId, deleteId, val, gcTime⟩
    { r with h := r.h ++ [datum], gc := if gcTime ≠ 0 then r.gc ++ [datum] else r.gc }

/-- `kvpsync_recv_handle_update` -/
def handleUpdate (r : KvpsyncRecv) (now : Nat) (update : KvpUpdate) : KvpsyncRecv × KvpAck :=
  let ack : KvpAck := ⟨update.syncId, update.updateId⟩
  if !r.initialSyncAcked then
    if update.body ≠ .start r.recvId then (r, ⟨r.recvId, 0⟩)
    else ({ r with initialSyncAcked := true }, ack)
  else
    let r := r.doGc now
    let r :=
      if update.syncId = r.syncId then { r with okExpiry := max update.okExpiry r.okExpiry } else r
    match update.body with
    | .empty => (r, ack)
    | .start _ => (r, ack)
    | .flush =>
      ({ r with syncId := update.syncId
                okExpiry := max r.okExpiry update.okExpiry }.flushStaleData, ack)
    | .insert key val => (r.handleRecvOrDelete now update.syncId update.updateId key 0 val, ack)
    | .delete key deleteId =>
      (r.handleRecvOrDelete now update.syncId update.updateId key deleteId [], ack)

/-- The choice of the datum with the highest `update_id`: its value, unless it is a deletion, and its
`update_id`. -/
def answerLoop (syncId : Nat) : Option Bytes × Nat → List RecvDatum → Option Bytes × Nat
  | answer, [] => answer
  | answer, datum :: rest =>
    if datum.syncId ≠ syncId then answerLoop syncId answer rest
    else if datum.updateId < answer.2 then answerLoop syncId answer rest
    else
      answerLoop syncId (if datum.deleteId ≠ 0 then none else some datum.val, datum.updateId) rest

/-- The answer without a value. -/
def negative (r : KvpsyncRecv) (now : Nat) : KvpAnswer := if now < r.okExpiry then .null else .unsure

/-- `kvpsync_recv_get_value`: the answer, and the receiver after the garbage collection. -/
def getValue (r : KvpsyncRecv) (now : Nat) (key : Bytes) : KvpAnswer × KvpsyncRecv :=
  let r := r.doGc now
  if r.syncId = 0 then (.unsure, r)
  else
    match answerLoop r.syncId (none, 0) (r.h.filter fun datum => datum.key = key) with
    | (none, _) => (r.negative now, r)
    | (some val, updateId) => (if updateId = 0 then r.negative now else .value val, r)

end KvpsyncRecv

/-! ### Updates that are held -/

/-- The key that an update is about. -/
def KvpBody.key : KvpBody → Option Bytes
  | .insert key _ => some key
  | .delete key _ => some key
  | _ => none

/-- An update without its `ok_expiry`, which may differ from one copy to the next. -/
def KvpUpdate.core (update : KvpUpdate) : KvpUpdate := { update with okExpiry := 0 }

/-- A deletion names the insertion it cancels. -/
def KvpUpdate.Names (deletion update : KvpUpdate) : Prop :=
  deletion.syncId = update.syncId ∧
    ∃ key, update.body.key = some key ∧ deletion.body = .delete key update.updateId

/-- The update that a datum is made from. -/
def RecvDatum.update (datum : RecvDatum) : KvpUpdate :=
  ⟨0, datum.syncId, datum.updateId,
    if datum.deleteId ≠ 0 then .delete datum.key datum.deleteId else .insert datum.key datum.val⟩

/-- The updates that the receiver holds. -/
def KvpsyncRecv.held (r : KvpsyncRecv) : List KvpUpdate := r.h.map RecvDatum.update

/-- Updates as a sender makes them: the numbers of a sync tell them apart, and a deletion names an
insertion that is older than itself. -/
structure Coherent (updates : KvpUpdate → Prop) : Prop where
  bare : ∀ update, updates update → update.okExpiry = 0
  numbered : ∀ update, updates update → update.updateId ≠ 0
  unique : ∀ update other, updates update → updates other → update.syncId = other.syncId →
    update.updateId = other.updateId → update = other
  named : ∀ deletion, updates deletion → ∀ key deleteId, deletion.body = .delete key deleteId →
    deleteId ≠ 0 ∧ deleteId < deletion.updateId
  target : ∀ deletion update, updates deletion → updates update → deletion.Names update →
    ∃ key val, update.body = .insert key val

/-- What always holds of the data of the receiver. -/
structure RecvSound (updates : KvpUpdate → Prop) (r : KvpsyncRecv) : Prop where
  known : ∀ update ∈ r.held, updates update
  nodup : r.held.Nodup
  exclusive : ∀ deletion ∈ r.held, ∀ update ∈ r.held, ¬deletion.Names update
  timers : ∀ datum ∈ r.gc, datum ∈ r.h ∧ datum.deleteId ≠ 0 ∧ datum.gcTime ≠ 0
  timersNodup : r.gc.Nodup

@[simp] theorem RecvDatum.update_key (datum : RecvDatum) : datum.update.body.key = some datum.key := by
  unfold RecvDatum.update
  dsimp only
  split <;> rfl

variable {datum : RecvDatum}

theorem RecvDatum.update_delete (deletion : datum.deleteId ≠ 0) :
    datum.update.body = .delete datum.key datum.deleteId := if_pos deletion

theorem RecvDatum.update_insert (insertion : datum.deleteId = 0) :
    datum.update.body = .insert datum.key datum.val := if_neg (not_not_intro insertion)

theorem KvpsyncRecv.mem_held {r : KvpsyncRecv} (mem : datum ∈ r.h) :
    datum.update ∈ r.held := mem_map_of_mem mem

/-! ### Garbage collection -/

theorem RecvSound.eq_of_update {updates : KvpUpdate → Prop} {r : KvpsyncRecv}
    (sound : RecvSound updates r) {other : RecvDatum} (here : datum ∈ r.h) (there : other ∈ r.h)
    (same : datum.update = other.update) : datum = other :=
  inj_on_of_nodup_map sound.nodup here there same

namespace KvpsyncRecv

variable {updates : KvpUpdate → Prop} {r : KvpsyncRecv}

theorem init_sound (updates : KvpUpdate → Prop) (recvId : Nat) : RecvSound updates (init recvId) where
  known := nofun
  nodup := nodup_nil
  exclusive := nofun
  timers := nofun
  timersNodup := nodup_nil

@[simp] theorem doGc_syncId (r : KvpsyncRecv) (now : Nat) : (r.doGc now).syncId = r.syncId := rfl

/-- The deletions whose time is up, as the loop finds them. -/
def due (r : KvpsyncRecv) (now : Nat) : List RecvDatum :=
  r.gc.takeWhile fun datum => datum.gcTime ≤ now

theorem gcLoop_eq (now : Nat) (h gc : List RecvDatum) :
    gcLoop now h gc = ((gc.takeWhile fun datum => datum.gcTime ≤ now).foldl List.erase h,
      gc.dropWhile fun datum => datum.gcTime ≤ now) := by
  induction gc generalizing h with
  | nil => rfl
  | cons datum rest ih =>
    rw [gcLoop]
    by_cases early : now < datum.gcTime
    · have kept : decide (datum.gcTime ≤ now) = false := decide_eq_false (Nat.not_le.mpr early)
      rw [if_pos early, takeWhile_cons, dropWhile_cons, kept]
      rfl
    · have past : decide (datum.gcTime ≤ now) = true := decide_eq_true (Nat.le_of_not_lt early)
      rw [if_neg early, takeWhile_cons, dropWhile_cons, past, ih]
      rfl

theorem doGc_h (r : KvpsyncRecv) (now : Nat) : (r.doGc now).h = (r.due now).foldl List.erase r.h :=
  congrArg Prod.fst (gcLoop_eq now r.h r.gc)

theorem gc_eq (r : KvpsyncRecv) (now : Nat) : r.gc = r.due now ++ (r.doGc now).gc := by
  have rest : (r.doGc now).gc = r.gc.dropWhile fun datum => datum.gcTime ≤ now :=
    congrArg Prod.snd (gcLoop_eq now r.h r.gc)
  rw [rest]
  exact (takeWhile_append_dropWhile).symm

theorem mem_foldl_erase {datum : RecvDatum} {due h : List RecvDatum} (nodup : h.Nodup) :
    datum ∈ due.foldl List.erase h ↔ datum ∈ h ∧ datum ∉ due := by
  induction due generalizing h with
  | nil => simp
  | cons first rest ih =>
    rw [foldl_cons, ih (nodup.erase first), nodup.mem_erase_iff, mem_cons, not_or]
    tauto

theorem mem_h_doGc (sound : RecvSound updates r) (now : Nat) (datum : RecvDatum) :
    datum ∈ (r.doGc now).h ↔ datum ∈ r.h ∧ datum ∉ r.due now := by
  rw [doGc_h, mem_foldl_erase (List.Nodup.of_map _ sound.nodup)]

theorem held_doGc_sublist (r : KvpsyncRecv) (now : Nat) : (r.doGc now).held.Sublist r.held := by
  refine List.Sublist.map _ ?_
  rw [doGc_h]
  generalize r.due now = due
  generalize r.h = h
  induction due generalizing h with
  | nil => exact List.Sublist.refl _
  | cons first rest ih =>
    exact (ih (h.erase first)).trans erase_sublist

variable {update : KvpUpdate} {key : Bytes}

/-- Only deletions are collected. -/
theorem insert_held_doGc (sound : RecvSound updates r) (now : Nat) {val : Bytes}
    (insertion : update.body = .insert key val) (mem : update ∈ r.held) :
    update ∈ (r.doGc now).held := by
  obtain ⟨datum, inside, rfl⟩ := mem_map.mp mem
  refine mem_held ((mem_h_doGc sound now datum).mpr ⟨inside, fun collected => ?_⟩)
  have timer := sound.timers datum (gc_eq r now ▸ mem_append_left _ collected)
  rw [RecvDatum.update_delete timer.2.1] at insertion
  cases insertion

theorem doGc_sound (sound : RecvSound updates r) (now : Nat) : RecvSound updates (r.doGc now) := by
  have sublist := held_doGc_sublist r now
  have nodup := sound.timersNodup
  rw [gc_eq r now] at nodup
  exact {
    known := fun update mem => sound.known update (sublist.mem mem)
    nodup := sound.nodup.sublist sublist
    exclusive := fun deletion mem update inside =>
      sound.exclusive deletion (sublist.mem mem) update (sublist.mem inside)
    timers := fun datum mem => by
      have timer := sound.timers datum (gc_eq r now ▸ mem_append_right _ mem)
      exact ⟨(mem_h_doGc sound now datum).mpr ⟨timer.1, fun collected =>
        disjoint_of_nodup_append nodup collected mem⟩, timer.2⟩
    timersNodup := (nodup_append.mp nodup).2.1 }

/-- The updates that are held by data that are not due. -/
def lasting (r : KvpsyncRecv) (now : Nat) : List KvpUpdate :=
  (r.h.filter fun datum => datum ∉ r.due now).map RecvDatum.update

theorem mem_lasting (sound : RecvSound updates r) {now : Nat} :
    update ∈ r.lasting now ↔ update ∈ (r.doGc now).held := by
  unfold lasting held
  simp only [mem_map, mem_filter, decide_eq_true_eq, mem_h_doGc sound]

/-! ### Flushing -/

theorem mem_held_flushStaleData :
    update ∈ r.flushStaleData.held ↔ update ∈ r.held ∧ update.syncId = r.syncId := by
  unfold held flushStaleData
  simp only [mem_map, mem_filter, decide_eq_true_eq]
  constructor
  · rintro ⟨datum, ⟨mem, same⟩, rfl⟩
    exact ⟨⟨datum, mem, rfl⟩, same⟩
  · rintro ⟨⟨datum, mem, rfl⟩, same⟩
    exact ⟨datum, ⟨mem, same⟩, rfl⟩

theorem flushStaleData_sound (sound : RecvSound updates r) :
    RecvSound updates r.flushStaleData where
  known update mem := sound.known update (mem_held_flushStaleData.mp mem).1
  nodup := sound.nodup.sublist (List.Sublist.map _ filter_sublist)
  exclusive deletion mem update inside :=
    sound.exclusive deletion (mem_held_flushStaleData.mp mem).1 update
      (mem_held_flushStaleData.mp inside).1
  timers datum mem := by
    obtain ⟨timer, same⟩ := mem_filter.mp mem
    obtain ⟨inside, rest⟩ := sound.timers datum timer
    exact ⟨mem_filter.mpr ⟨inside, same⟩, rest⟩
  timersNodup := sound.timersNodup.sublist filter_sublist

/-! ### Insertions and deletions -/

/-- The loop for an insertion: the data of the key do not concern it, or one of them ends the loop. -/
theorem matchLoop_insert (now syncId updateId gcTime : Nat) (r : KvpsyncRecv)
    (others : List RecvDatum) :
    (matchLoop now syncId updateId 0 r gcTime others = (r, some gcTime) ∧
      ∀ other ∈ others, other.syncId = syncId →
        other.updateId ≠ updateId ∧ other.deleteId ≠ updateId) ∨
    ∃ other ∈ others, other.syncId = syncId ∧
      ((other.updateId = updateId ∧
          matchLoop now syncId updateId 0 r gcTime others = (r, none)) ∨
        (other.deleteId = updateId ∧ other.gcTime ≠ 0 ∧
          matchLoop now syncId updateId 0 r gcTime others = (r, none)) ∨
        (other.deleteId = updateId ∧ other.gcTime = 0 ∧
          matchLoop now syncId updateId 0 r gcTime others = ({ r with
                h := r.h.map fun datum =>
                  if datum = other then { other with gcTime := now + gcDelay } else datum
                gc := r.gc ++ [{ other with gcTime := now + gcDelay }] }, none))) := by
  induction others with
  | nil => exact .inl ⟨rfl, nofun⟩
  | cons first rest ih =>
    rw [matchLoop]
    by_cases elsewhere : first.syncId ≠ syncId
    · rw [if_pos elsewhere]
      rcases ih with ⟨through, apart⟩ | ⟨other, mem, found⟩
      · refine .inl ⟨through, fun other mem same => ?_⟩
        rcases mem_cons.mp mem with rfl | mem
        · exact absurd same elsewhere
        · exact apart other mem same
      · exact .inr ⟨other, .tail _ mem, found⟩
    · have here : first.syncId = syncId := not_not.mp elsewhere
      rw [if_neg elsewhere]
      by_cases duplicate : first.updateId = updateId
      · rw [if_pos duplicate]
        exact .inr ⟨first, mem_cons_self, here, .inl ⟨duplicate, rfl⟩⟩
      · rw [if_neg duplicate, if_neg (fun both => both.1 rfl)]
        by_cases canceled : first.deleteId = updateId
        · rw [if_pos ⟨rfl, canceled⟩]
          refine .inr ⟨first, mem_cons_self, here, .inr ?_⟩
          by_cases timer : first.gcTime ≠ 0
          · rw [if_pos timer]
            exact .inl ⟨canceled, timer, rfl⟩
          · rw [if_neg timer]
            exact .inr ⟨canceled, not_not.mp timer, rfl⟩
        · rw [if_neg (fun both => canceled both.2)]
          rcases ih with ⟨through, apart⟩ | ⟨other, mem, found⟩
          · refine .inl ⟨through, fun other mem same => ?_⟩
            rcases mem_cons.mp mem with rfl | mem
            · exact ⟨duplicate, canceled⟩
            · exact apart other mem same
          · exact .inr ⟨other, .tail _ mem, found⟩

variable {deleteId : Nat}

/-- The loop for a deletion whose insertion is not there. -/
theorem matchLoop_delete (now syncId updateId gcTime : Nat) (deletion : deleteId ≠ 0)
    (r : KvpsyncRecv) {others : List RecvDatum}
    (apart : ∀ other ∈ others, other.syncId = syncId → other.updateId ≠ deleteId) :
    (matchLoop now syncId updateId deleteId r gcTime others = (r, some gcTime) ∧
      ∀ other ∈ others, other.syncId = syncId → other.updateId ≠ updateId) ∨
    (matchLoop now syncId updateId deleteId r gcTime others = (r, none) ∧
      ∃ other ∈ others, other.syncId = syncId ∧ other.updateId = updateId) := by
  induction others with
  | nil => exact .inl ⟨rfl, nofun⟩
  | cons first rest ih =>
    have later := ih fun other mem => apart other (.tail _ mem)
    rw [matchLoop]
    by_cases elsewhere : first.syncId ≠ syncId
    · rw [if_pos elsewhere]
      rcases later with ⟨through, others⟩ | ⟨stopped, other, mem, found⟩
      · refine .inl ⟨through, fun other mem same => ?_⟩
        rcases mem_cons.mp mem with rfl | mem
        · exact absurd same elsewhere
        · exact others other mem same
      · exact .inr ⟨stopped, other, .tail _ mem, found⟩
    · have here : first.syncId = syncId := not_not.mp elsewhere
      rw [if_neg elsewhere]
      by_cases duplicate : first.updateId = updateId
      · rw [if_pos duplicate]
        exact .inr ⟨rfl, first, mem_cons_self, here, duplicate⟩
      · rw [if_neg duplicate, if_neg (fun both => apart first mem_cons_self here both.2),
          if_neg (fun both => deletion both.1)]
        rcases later with ⟨through, others⟩ | ⟨stopped, other, mem, found⟩
        · refine .inl ⟨through, fun other mem same => ?_⟩
          rcases mem_cons.mp mem with rfl | mem
          · exact duplicate
          · exact others other mem same
        · exact .inr ⟨stopped, other, .tail _ mem, found⟩

/-- The loop for a deletion whose insertion is there. -/
theorem matchLoop_cancel (now syncId updateId gcTime : Nat) (deletion : deleteId ≠ 0)
    (r : KvpsyncRecv) {front back : List RecvDatum} {insertion : RecvDatum}
    (here : insertion.syncId = syncId) (named : insertion.updateId = deleteId)
    (apart : ∀ other ∈ front ++ back, other.syncId = syncId → other.updateId ≠ deleteId)
    (first : ∀ other ∈ front ++ insertion :: back, other.syncId = syncId →
      other.updateId ≠ updateId) :
    matchLoop now syncId updateId deleteId r gcTime (front ++ insertion :: back) =
      ({ r with h := r.h.erase insertion }, some (now + gcDelay)) := by
  induction front with
  | nil =>
    rw [nil_append, matchLoop, if_neg (not_not_intro here),
      if_neg (first insertion mem_cons_self here), if_pos ⟨deletion, named⟩]
    rcases matchLoop_delete now syncId updateId (now + gcDelay) deletion
      { r with h := r.h.erase insertion } apart with ⟨through, -⟩ | ⟨-, other, mem, same, again⟩
    · exact through
    · exact absurd again (first other (.tail _ mem) same)
  | cons other rest ih =>
    have later := ih (fun other mem => apart other (.tail _ mem))
      fun other mem => first other (.tail _ mem)
    rw [cons_append, matchLoop]
    by_cases elsewhere : other.syncId ≠ syncId
    · rw [if_pos elsewhere, later]
    · have same : other.syncId = syncId := not_not.mp elsewhere
      rw [if_neg elsewhere, if_neg (first other mem_cons_self same),
        if_neg (fun both => apart other mem_cons_self same both.2),
        if_neg (fun both => deletion both.1), later]

theorem mem_of_key {datum : RecvDatum} :
    datum ∈ r.h.filter (fun datum => datum.key = key) ↔ datum ∈ r.h ∧ datum.key = key := by
  rw [mem_filter, decide_eq_true_eq]

/-- The receiver with a new datum, on its timer. -/
def append (r : KvpsyncRecv) (datum : RecvDatum) : KvpsyncRecv :=
  { r with h := r.h ++ [datum], gc := if datum.gcTime ≠ 0 then r.gc ++ [datum] else r.gc }

theorem held_append (r : KvpsyncRecv) (datum : RecvDatum) :
    (r.append datum).held = r.held ++ [datum.update] := by
  unfold held append
  rw [map_append]
  rfl

section

variable (sound : RecvSound updates r)

include sound

/-- A new datum is added. -/
theorem append_sound {datum : RecvDatum} (made : datum.update = update) (known : updates update)
    (new : update ∉ r.held) (apart : ∀ other ∈ r.held, ¬other.Names update ∧ ¬update.Names other)
    (itself : ¬update.Names update) (timer : datum.gcTime ≠ 0 → datum.deleteId ≠ 0) :
    RecvSound updates (r.append datum) := by
  subst made
  have absent : datum ∉ r.h := fun mem => new (mem_held mem)
  refine ⟨?_, ?_, ?_, ?_, ?_⟩
  · intro update mem
    rw [held_append, mem_append, mem_singleton] at mem
    rcases mem with mem | rfl
    · exact sound.known update mem
    · exact known
  · rw [held_append]
    exact nodup_append.mpr ⟨sound.nodup, nodup_singleton _, fun update mem other inside =>
      fun same => new (mem_singleton.mp inside ▸ same ▸ mem)⟩
  · intro deletion mem update inside
    rw [held_append, mem_append, mem_singleton] at mem inside
    rcases mem with mem | rfl <;> rcases inside with inside | rfl
    · exact sound.exclusive deletion mem update inside
    · exact (apart deletion mem).1
    · exact (apart update inside).2
    · exact itself
  · intro other mem
    unfold append at mem ⊢
    dsimp only at mem ⊢
    split at mem
    · rename_i timed
      rcases mem_append.mp mem with mem | mem
      · obtain ⟨inside, rest⟩ := sound.timers other mem
        exact ⟨mem_append_left _ inside, rest⟩
      · rw [mem_singleton.mp mem]
        exact ⟨mem_append_right _ mem_cons_self, timer timed, timed⟩
    · obtain ⟨inside, rest⟩ := sound.timers other mem
      exact ⟨mem_append_left _ inside, rest⟩
  · unfold append
    dsimp only
    split
    · exact nodup_append.mpr ⟨sound.timersNodup, nodup_singleton _,
        fun other mem last inside same => absent
          (mem_singleton.mp inside ▸ same ▸ (sound.timers other mem).1)⟩
    · exact sound.timersNodup

/-- An insertion is removed. It is on no timer. -/
theorem erase_sound {insertion : RecvDatum} (inside : insertion ∈ r.h)
    (kind : insertion.deleteId = 0) :
    RecvSound updates { r with h := r.h.erase insertion } ∧
      ∀ other, other ∈ ({ r with h := r.h.erase insertion } : KvpsyncRecv).held ↔
        other ∈ r.held ∧ other ≠ insertion.update := by
  have nodup := List.Nodup.of_map _ sound.nodup
  have sublist : (({ r with h := r.h.erase insertion } : KvpsyncRecv).held).Sublist r.held :=
    List.Sublist.map _ erase_sublist
  refine ⟨⟨fun update mem => sound.known update (sublist.mem mem),
    sound.nodup.sublist sublist, fun update mem other there =>
      sound.exclusive update (sublist.mem mem) other (sublist.mem there), ?_,
    sound.timersNodup⟩, fun other => ⟨fun mem => ?_, ?_⟩⟩
  · intro datum mem
    obtain ⟨there, deletion, timer⟩ := sound.timers datum mem
    refine ⟨nodup.mem_erase_iff.mpr ⟨?_, there⟩, deletion, timer⟩
    rintro rfl
    exact deletion kind
  · obtain ⟨datum, there, rfl⟩ := mem_map.mp mem
    obtain ⟨differ, there⟩ := nodup.mem_erase_iff.mp there
    exact ⟨mem_held there, fun same => differ (sound.eq_of_update there inside same)⟩
  · rintro ⟨mem, differ⟩
    obtain ⟨datum, there, rfl⟩ := mem_map.mp mem
    refine mem_map_of_mem (nodup.mem_erase_iff.mpr ⟨?_, there⟩)
    rintro rfl
    exact differ rfl

/-- A deletion that is met by its insertion is put on a timer. -/
theorem timed_sound {other : RecvDatum} (mem : other ∈ r.h) (deletion : other.deleteId ≠ 0)
    (untimed : other.gcTime = 0) (time : Nat) (later : time ≠ 0) : let timed : KvpsyncRecv :=
      { r with
        h := r.h.map fun datum => if datum = other then { other with gcTime := time } else datum
        gc := r.gc ++ [{ other with gcTime := time }] }
    timed.held = r.held ∧ RecvSound updates timed := by
  intro timed
  have held : timed.held = r.held := by
    show (r.h.map _).map _ = r.h.map _
    rw [map_map]
    refine map_congr_left fun datum _ => ?_
    show RecvDatum.update (if datum = other then _ else datum) = datum.update
    split
    · rename_i same
      rw [same]
      rfl
    · rfl
  have absent : ({ other with gcTime := time } : RecvDatum) ∉ r.gc := fun inside => by
    have same := sound.eq_of_update (sound.timers _ inside).1 mem rfl
    exact later ((congrArg RecvDatum.gcTime same).trans untimed)
  refine ⟨held, ?_, ?_, ?_, ?_, ?_⟩
  · rw [held]
    exact sound.known
  · rw [held]
    exact sound.nodup
  · rw [held]
    exact sound.exclusive
  · intro datum inside
    rcases mem_append.mp inside with inside | inside
    · obtain ⟨there, rest⟩ := sound.timers datum inside
      refine ⟨mem_map.mpr ⟨datum, there, if_neg ?_⟩, rest⟩
      rintro rfl
      exact rest.2 untimed
    · rw [mem_singleton.mp inside]
      exact ⟨mem_map.mpr ⟨other, mem, if_pos rfl⟩, deletion, later⟩
  · exact nodup_append.mpr ⟨sound.timersNodup, nodup_singleton _,
      fun datum inside last here same => absent (mem_singleton.mp here ▸ same ▸ inside)⟩

end

/-- What does not change when an update is handled. -/
structure SameSync (r next : KvpsyncRecv) : Prop where
  recvId : next.recvId = r.recvId
  syncId : next.syncId = r.syncId
  initialSyncAcked : next.initialSyncAcked = r.initialSyncAcked
  okExpiry : next.okExpiry = r.okExpiry

/-- An insertion is held afterwards, unless its deletion is there. -/
theorem handleInsert_spec (coherent : Coherent updates) (sound : RecvSound updates r) (now : Nat)
    {val : Bytes} (insertion : update.body = .insert key val) (known : updates update) :
    let next := r.handleRecvOrDelete now update.syncId update.updateId key 0 val
    SameSync r next ∧ RecvSound updates next ∧ ∀ other, other ∈ next.held ↔
      other ∈ r.held ∨ other = update ∧ ∀ deletion ∈ r.held, ¬deletion.Names update := by
  intro next
  obtain ⟨okExpiry, syncId, updateId, body⟩ := update
  obtain rfl : okExpiry = 0 := coherent.bare _ known
  cases insertion
  have positive : updateId ≠ 0 := coherent.numbered _ known
  rcases matchLoop_insert now syncId updateId 0 r (r.h.filter fun datum => datum.key = key) with
    ⟨through, apart⟩ | ⟨other, mem, same, found⟩
  · -- the update is new
    have unnamed : ∀ deletion ∈ r.held, ¬deletion.Names ⟨0, syncId, updateId, .insert key val⟩ := by
      rintro deletion mem ⟨same, name, about, body⟩
      cases about
      obtain ⟨datum, inside, rfl⟩ := mem_map.mp mem
      by_cases kind : datum.deleteId ≠ 0
      · rw [RecvDatum.update_delete kind] at body
        cases body
        exact (apart datum (mem_of_key.mpr ⟨inside, rfl⟩) same).2 rfl
      · rw [RecvDatum.update_insert (not_not.mp kind)] at body
        cases body
    have new : (⟨0, syncId, updateId, .insert key val⟩ : KvpUpdate) ∉ r.held := fun mem => by
      obtain ⟨datum, inside, same⟩ := mem_map.mp mem
      have about : datum.key = key := by
        have key := datum.update_key
        rw [same] at key
        cases key
        rfl
      exact (apart datum (mem_of_key.mpr ⟨inside, about⟩) (congrArg KvpUpdate.syncId same)).1
        (congrArg KvpUpdate.updateId same)
    have result : next = r.append ⟨key, syncId, updateId, 0, val, 0⟩ := by
      show handleRecvOrDelete _ _ _ _ _ _ _ = _
      unfold handleRecvOrDelete
      rw [through]
      rfl
    have names : ∀ other, ¬(⟨0, syncId, updateId, .insert key val⟩ : KvpUpdate).Names other := by
      rintro other ⟨-, name, -, body⟩
      cases body
    rw [result]
    refine ⟨⟨rfl, rfl, rfl, rfl⟩, ?_, fun other => ?_⟩
    · exact append_sound sound rfl known new (fun update mem => ⟨unnamed update mem, names update⟩)
        (names _) (fun timed => absurd rfl timed)
    · rw [held_append, mem_append, mem_singleton]
      exact or_congr Iff.rfl ⟨fun equal => ⟨equal, unnamed⟩, fun both => both.1⟩
  · obtain ⟨inside, about⟩ := mem_of_key.mp mem
    subst about same
    rcases found with ⟨duplicate, stopped⟩ | ⟨cancels, timer, stopped⟩ | ⟨cancels, untimed, stopped⟩
    · -- a copy of the update is there
      have copy : other.update = ⟨0, other.syncId, updateId, .insert other.key val⟩ :=
        coherent.unique _ _ (sound.known _ (mem_held inside)) known rfl duplicate
      have result : next = r := by
        show handleRecvOrDelete _ _ _ _ _ _ _ = _
        unfold handleRecvOrDelete
        rw [stopped]
      rw [result]
      refine ⟨⟨rfl, rfl, rfl, rfl⟩, sound, fun update => ⟨.inl, ?_⟩⟩
      rintro (mem | ⟨rfl, -⟩)
      · exact mem
      · exact copy ▸ mem_held inside
    · have names : other.update.Names ⟨0, other.syncId, updateId, .insert other.key val⟩ :=
        ⟨rfl, other.key, rfl, by
          rw [RecvDatum.update_delete (cancels ▸ positive), cancels]⟩
      have result : next = r := by
        show handleRecvOrDelete _ _ _ _ _ _ _ = _
        unfold handleRecvOrDelete
        rw [stopped]
      rw [result]
      refine ⟨⟨rfl, rfl, rfl, rfl⟩, sound, fun update => ⟨.inl, ?_⟩⟩
      rintro (mem | ⟨-, unnamed⟩)
      · exact mem
      · exact absurd names (unnamed _ (mem_held inside))
    · have names : other.update.Names ⟨0, other.syncId, updateId, .insert other.key val⟩ :=
        ⟨rfl, other.key, rfl, by
          rw [RecvDatum.update_delete (cancels ▸ positive), cancels]⟩
      have result : next = { r with
          h := r.h.map fun datum =>
            if datum = other then { other with gcTime := now + gcDelay } else datum
          gc := r.gc ++ [{ other with gcTime := now + gcDelay }] } := by
        show handleRecvOrDelete _ _ _ _ _ _ _ = _
        unfold handleRecvOrDelete
        rw [stopped]
      obtain ⟨held, timed⟩ := timed_sound sound inside (cancels ▸ positive) untimed
        (now + gcDelay) (Nat.succ_ne_zero (now + 254))
      rw [result]
      refine ⟨⟨rfl, rfl, rfl, rfl⟩, timed, fun update => ?_⟩
      rw [held]
      refine ⟨.inl, ?_⟩
      rintro (mem | ⟨-, unnamed⟩)
      · exact mem
      · exact absurd names (unnamed _ (mem_held inside))

theorem names_datum {syncId updateId : Nat} (datum : RecvDatum) :
    (⟨0, syncId, updateId, .delete key deleteId⟩ : KvpUpdate).Names datum.update ↔
      datum.key = key ∧ datum.syncId = syncId ∧ datum.updateId = deleteId := by
  constructor
  · rintro ⟨same, name, about, body⟩
    rw [RecvDatum.update_key] at about
    cases about
    cases body
    exact ⟨rfl, same.symm, rfl⟩
  · rintro ⟨rfl, rfl, rfl⟩
    exact ⟨rfl, datum.key, datum.update_key, rfl⟩

/-- A deletion is held afterwards, and its insertion is not. -/
theorem handleDelete_spec (coherent : Coherent updates) (sound : RecvSound updates r) (now : Nat)
    (deletion : update.body = .delete key deleteId) (known : updates update) :
    let next := r.handleRecvOrDelete now update.syncId update.updateId key deleteId []
    SameSync r next ∧ RecvSound updates next ∧ ∀ other, other ∈ next.held ↔
      other ∈ r.held ∧ ¬update.Names other ∨ other = update := by
  intro next
  obtain ⟨positive, older⟩ := coherent.named update known key deleteId deletion
  have numbered : update.updateId ≠ 0 := coherent.numbered _ known
  have bare := coherent.bare _ known
  obtain ⟨okExpiry, syncId, updateId, body⟩ := update
  dsimp only at bare deletion older numbered
  subst bare deletion
  have made : ∀ gcTime, RecvDatum.update ⟨key, syncId, updateId, deleteId, [], gcTime⟩ =
      ⟨0, syncId, updateId, .delete key deleteId⟩ := fun gcTime => congrArg _ (if_pos positive)
  have itself : ¬(⟨0, syncId, updateId, .delete key deleteId⟩ : KvpUpdate).Names
      ⟨0, syncId, updateId, .delete key deleteId⟩ := by
    rintro ⟨-, name, -, body⟩
    injection body with _ number
    exact absurd number (Nat.ne_of_lt older)
  -- another deletion does not name this one
  have unnamed : ∀ other ∈ r.held,
      ¬other.Names ⟨0, syncId, updateId, .delete key deleteId⟩ := fun other mem names => by
    obtain ⟨name, val, body⟩ := coherent.target other _ (sound.known other mem) known names
    cases body
  have nodup := List.Nodup.of_map _ sound.nodup
  by_cases named : ∃ datum ∈ r.h, datum.key = key ∧ datum.syncId = syncId ∧ datum.updateId = deleteId
  · obtain ⟨insertion, inside, found⟩ := named
    have target : (⟨0, syncId, updateId, .delete key deleteId⟩ : KvpUpdate).Names insertion.update :=
      (names_datum insertion).mpr found
    obtain ⟨rfl, rfl, rfl⟩ := found
    have only : ∀ datum ∈ r.h, datum.syncId = insertion.syncId →
        datum.updateId = insertion.updateId → datum = insertion := fun datum mem same number =>
      sound.eq_of_update mem inside (coherent.unique _ _ (sound.known _ (mem_held mem))
        (sound.known _ (mem_held inside)) same number)
    -- no copy of the deletion can be there
    have new : (⟨0, insertion.syncId, updateId, .delete insertion.key insertion.updateId⟩ :
        KvpUpdate) ∉ r.held := fun mem =>
      sound.exclusive _ mem _ (mem_held inside) target
    have kind : insertion.deleteId = 0 := by
      obtain ⟨name, val, body⟩ := coherent.target _ _ known (sound.known _ (mem_held inside)) target
      by_contra deletion
      rw [RecvDatum.update_delete deletion] at body
      cases body
    obtain ⟨front, back, split⟩ := append_of_mem (mem_of_key.mpr ⟨inside, rfl⟩)
    have within : ∀ datum ∈ front ++ insertion :: back, datum ∈ r.h :=
      fun datum mem => (mem_of_key.mp (split ▸ mem)).1
    have once : insertion ∉ front ++ back := by
      have all : (front ++ insertion :: back).Nodup := split ▸ nodup.filter _
      exact (nodup_cons.mp (nodup_middle.mp all)).1
    have apart : ∀ other ∈ front ++ back, other.syncId = insertion.syncId →
        other.updateId ≠ insertion.updateId := fun other mem same number => by
      have again : other ∈ front ++ insertion :: back :=
        ((List.Sublist.refl front).append (sublist_cons_self insertion back)).mem mem
      exact once (only other (within other again) same number ▸ mem)
    have first : ∀ other ∈ front ++ insertion :: back, other.syncId = insertion.syncId →
        other.updateId ≠ updateId := fun other mem same number =>
      new (coherent.unique _ _ (sound.known _ (mem_held (within other mem))) known same number ▸
        mem_held (within other mem))
    have loop := matchLoop_cancel now insertion.syncId updateId 0 positive r rfl rfl apart first
    have result : next = ({ r with h := r.h.erase insertion } : KvpsyncRecv).append
        ⟨insertion.key, insertion.syncId, updateId, insertion.updateId, [], now + gcDelay⟩ := by
      show handleRecvOrDelete _ _ _ _ _ _ _ = _
      unfold handleRecvOrDelete
      rw [split, loop]
      rfl
    obtain ⟨erased, left⟩ := erase_sound sound inside kind
    have removed : ∀ other ∈ r.held, (other ≠ insertion.update ↔ ¬(⟨0, insertion.syncId, updateId,
        .delete insertion.key insertion.updateId⟩ : KvpUpdate).Names other) := by
      intro other mem
      obtain ⟨datum, there, rfl⟩ := mem_map.mp mem
      refine not_congr ⟨fun same => same ▸ target, fun names => ?_⟩
      obtain ⟨-, same, number⟩ := (names_datum datum).mp names
      rw [only datum there same number]
    rw [result]
    refine ⟨⟨rfl, rfl, rfl, rfl⟩, ?_, fun other => ?_⟩
    · exact append_sound erased (made _) known (fun mem => new ((left _).mp mem).1)
        (fun other mem => ⟨unnamed other ((left _).mp mem).1,
          (removed other ((left _).mp mem).1).mp ((left _).mp mem).2⟩) itself
        (fun _ => positive)
    · rw [held_append, mem_append, mem_singleton, made, left]
      exact or_congr (and_congr_right fun mem => removed other mem) Iff.rfl
  · have absent : ∀ other ∈ r.held,
        ¬(⟨0, syncId, updateId, .delete key deleteId⟩ : KvpUpdate).Names other := by
      intro other mem names
      obtain ⟨datum, there, rfl⟩ := mem_map.mp mem
      exact named ⟨datum, there, (names_datum datum).mp names⟩
    have elsewhere : ∀ other ∈ r.h.filter (fun datum => datum.key = key), other.syncId = syncId →
        other.updateId ≠ deleteId := fun other mem same number =>
      named ⟨other, (mem_of_key.mp mem).1, (mem_of_key.mp mem).2, same, number⟩
    rcases matchLoop_delete now syncId updateId 0 positive r elsewhere with
      ⟨through, apart⟩ | ⟨stopped, other, mem, same, number⟩
    · have new : (⟨0, syncId, updateId, .delete key deleteId⟩ : KvpUpdate) ∉ r.held := fun mem => by
        obtain ⟨datum, there, copy⟩ := mem_map.mp mem
        have about : datum.key = key := by
          have key := datum.update_key
          rw [copy] at key
          cases key
          rfl
        exact apart datum (mem_of_key.mpr ⟨there, about⟩) (congrArg KvpUpdate.syncId copy)
          (congrArg KvpUpdate.updateId copy)
      have result : next = r.append ⟨key, syncId, updateId, deleteId, [], 0⟩ := by
        show handleRecvOrDelete _ _ _ _ _ _ _ = _
        unfold handleRecvOrDelete
        rw [through]
        rfl
      rw [result]
      refine ⟨⟨rfl, rfl, rfl, rfl⟩, ?_, fun other => ?_⟩
      · exact append_sound sound (made _) known new
          (fun other mem => ⟨unnamed other mem, absent other mem⟩) itself (fun _ => positive)
      · rw [held_append, mem_append, mem_singleton, made]
        exact or_congr ⟨fun mem => ⟨mem, absent other mem⟩, fun both => both.1⟩ Iff.rfl
    · -- a copy of the deletion is there
      have inside := mem_held (mem_of_key.mp mem).1
      have copy : other.update = ⟨0, syncId, updateId, .delete key deleteId⟩ :=
        coherent.unique _ _ (sound.known _ inside) known same number
      have result : next = r := by
        show handleRecvOrDelete _ _ _ _ _ _ _ = _
        unfold handleRecvOrDelete
        rw [stopped]
      rw [result]
      refine ⟨⟨rfl, rfl, rfl, rfl⟩, sound, fun update => ⟨fun mem =>
        .inl ⟨mem, absent update mem⟩, ?_⟩⟩
      rintro (⟨mem, -⟩ | rfl)
      · exact mem
      · exact copy ▸ inside

/-! ### Packets that are handled -/

/-- What an update does to the updates that are held, once the deletions that are due are collected. -/
def Takes (update : KvpUpdate) (before : List KvpUpdate) (r next : KvpsyncRecv) : Prop :=
  match update.body with
  | .flush => next.syncId = update.syncId ∧
      ∀ other, other ∈ next.held ↔ other ∈ before ∧ other.syncId = update.syncId
  | .insert _ _ => next.syncId = r.syncId ∧ ∀ other, other ∈ next.held ↔
      other ∈ before ∨ other = update.core ∧ ∀ deletion ∈ before, ¬deletion.Names update.core
  | .delete _ _ => next.syncId = r.syncId ∧ ∀ other, other ∈ next.held ↔
      other ∈ before ∧ ¬update.core.Names other ∨ other = update.core
  | _ => next.syncId = r.syncId ∧ ∀ other, other ∈ next.held ↔ other ∈ before

theorem handleUpdate_unacked (unacked : r.initialSyncAcked = false) (now : Nat) (update : KvpUpdate) :
    r.handleUpdate now update = if update.body ≠ .start r.recvId then (r, ⟨r.recvId, 0⟩)
      else ({ r with initialSyncAcked := true }, ⟨update.syncId, update.updateId⟩) := by
  unfold handleUpdate
  rw [unacked]
  rfl

/-- A receiver that has seen its first packet handles every update and acks it. -/
theorem handleUpdate_acked (coherent : Coherent updates) (sound : RecvSound updates r)
    (acked : r.initialSyncAcked = true) (now : Nat)
    (known : ∀ key, update.body.key = some key → updates update.core) :
    let next := (r.handleUpdate now update).1
    RecvSound updates next ∧ Takes update (r.doGc now).held r next ∧
      next.initialSyncAcked = true ∧ next.recvId = r.recvId ∧
      (r.handleUpdate now update).2 = ⟨update.syncId, update.updateId⟩ := by
  intro next
  obtain ⟨extended, same, held, gc, syncId, recvId, initial⟩ : ∃ extended : KvpsyncRecv,
      extended = (if update.syncId = (r.doGc now).syncId then
        { r.doGc now with okExpiry := max update.okExpiry (r.doGc now).okExpiry } else r.doGc now) ∧
      extended.h = (r.doGc now).h ∧ extended.gc = (r.doGc now).gc ∧ extended.syncId = r.syncId ∧
        extended.recvId = r.recvId ∧ extended.initialSyncAcked = true := by
    refine ⟨_, rfl, ?_⟩
    split <;> exact ⟨rfl, rfl, rfl, rfl, acked⟩
  have collected := doGc_sound sound now
  have list : extended.held = (r.doGc now).held := congrArg (map RecvDatum.update) held
  have ready : RecvSound updates extended := {
    known := list ▸ collected.known
    nodup := list ▸ collected.nodup
    exclusive := list ▸ collected.exclusive
    timers := by
      rw [held, gc]
      exact collected.timers
    timersNodup := gc ▸ collected.timersNodup }
  have unfolded : r.handleUpdate now update = match update.body with
      | .empty => (extended, ⟨update.syncId, update.updateId⟩)
      | .start _ => (extended, ⟨update.syncId, update.updateId⟩)
      | .flush =>
        ({ extended with syncId := update.syncId
                         okExpiry := max extended.okExpiry update.okExpiry }.flushStaleData,
          ⟨update.syncId, update.updateId⟩)
      | .insert key val =>
        (extended.handleRecvOrDelete now update.syncId update.updateId key 0 val,
          ⟨update.syncId, update.updateId⟩)
      | .delete key deleteId =>
        (extended.handleRecvOrDelete now update.syncId update.updateId key deleteId [],
          ⟨update.syncId, update.updateId⟩) := by
    unfold handleUpdate
    rw [acked, same]
    rfl
  have result : next = (r.handleUpdate now update).1 := rfl
  rw [unfolded] at result ⊢
  unfold Takes
  rw [← list]
  cases body : update.body with
  | empty =>
    rw [body] at result
    rw [result]
    exact ⟨ready, ⟨syncId, fun _ => Iff.rfl⟩, initial, recvId, rfl⟩
  | start resyncId =>
    rw [body] at result
    rw [result]
    exact ⟨ready, ⟨syncId, fun _ => Iff.rfl⟩, initial, recvId, rfl⟩
  | flush =>
    rw [body] at result
    rw [result]
    have moved : RecvSound updates { extended with
          syncId := update.syncId, okExpiry := max extended.okExpiry update.okExpiry } :=
      ⟨ready.known, ready.nodup, ready.exclusive, ready.timers, ready.timersNodup⟩
    exact ⟨flushStaleData_sound moved, ⟨rfl, fun other => mem_held_flushStaleData⟩, initial, recvId,
      rfl⟩
  | insert key val =>
    rw [body] at result
    rw [result]
    have core : update.core.body = .insert key val := body
    obtain ⟨kept, after, spec⟩ := handleInsert_spec coherent ready now core
      (known key (by rw [body]; rfl))
    exact ⟨after, ⟨kept.syncId.trans syncId, spec⟩, kept.initialSyncAcked.trans initial,
      kept.recvId.trans recvId, rfl⟩
  | delete key deleteId =>
    rw [body] at result
    rw [result]
    have core : update.core.body = .delete key deleteId := body
    obtain ⟨kept, after, spec⟩ := handleDelete_spec coherent ready now core
      (known key (by rw [body]; rfl))
    exact ⟨after, ⟨kept.syncId.trans syncId, spec⟩, kept.initialSyncAcked.trans initial,
      kept.recvId.trans recvId, rfl⟩

theorem matchLoop_okExpiry (now syncId updateId deleteId gcTime : Nat) (r : KvpsyncRecv)
    (others : List RecvDatum) :
    (matchLoop now syncId updateId deleteId r gcTime others).1.okExpiry = r.okExpiry := by
  induction others generalizing r gcTime with
  | nil => rfl
  | cons first rest ih =>
    rw [matchLoop]
    split
    · exact ih ..
    · split
      · rfl
      · split
        · exact ih ..
        · split
          · split <;> rfl
          · exact ih ..

theorem handleRecvOrDelete_okExpiry (r : KvpsyncRecv) (now syncId updateId : Nat) (key : Bytes)
    (deleteId : Nat) (val : Bytes) :
    (r.handleRecvOrDelete now syncId updateId key deleteId val).okExpiry = r.okExpiry := by
  have loop := matchLoop_okExpiry now syncId updateId deleteId 0 r
    (r.h.filter fun datum => datum.key = key)
  unfold handleRecvOrDelete
  split
  · next same =>
    rw [same] at loop
    exact loop
  · next same =>
    rw [same] at loop
    exact loop

/-- Only the packets of its sync and flushes make a receiver confident for longer. -/
theorem handleUpdate_okExpiry (acked : r.initialSyncAcked = true) (now : Nat) (update : KvpUpdate) :
    (r.handleUpdate now update).1.okExpiry =
      if update.syncId = r.syncId ∨ update.body = .flush then max update.okExpiry r.okExpiry
      else r.okExpiry := by
  unfold handleUpdate
  rw [acked]
  dsimp only [Bool.not_true, Bool.false_eq_true, if_false]
  rw [doGc_syncId]
  by_cases same : update.syncId = r.syncId
  · rw [if_pos same, if_pos (Or.inl same)]
    cases update.body with
    | empty => rfl
    | start resyncId => rfl
    | flush =>
      show max (max update.okExpiry r.okExpiry) update.okExpiry = _
      omega
    | insert key val => exact handleRecvOrDelete_okExpiry ..
    | delete key deleteId => exact handleRecvOrDelete_okExpiry ..
  · rw [if_neg same]
    cases update.body with
    | empty => exact (if_neg (not_or_intro same nofun)).symm
    | start resyncId => exact (if_neg (not_or_intro same nofun)).symm
    | flush =>
      rw [if_pos (Or.inr rfl)]
      exact Nat.max_comm ..
    | insert key val =>
      exact (handleRecvOrDelete_okExpiry ..).trans (if_neg (not_or_intro same nofun)).symm
    | delete key deleteId =>
      exact (handleRecvOrDelete_okExpiry ..).trans (if_neg (not_or_intro same nofun)).symm

/-! ### Lookups -/

/-- The choice is a datum with the highest `update_id`, if there is any datum of the sync. -/
theorem answerLoop_spec (syncId : Nat) (answer : Option Bytes × Nat) (data : List RecvDatum) :
    let chosen := answerLoop syncId answer data
    (answer.2 ≤ chosen.2 ∧ ∀ datum ∈ data, datum.syncId = syncId → datum.updateId ≤ chosen.2) ∧
      (chosen = answer ∨ ∃ datum ∈ data, datum.syncId = syncId ∧
        chosen = (if datum.deleteId ≠ 0 then none else some datum.val, datum.updateId)) := by
  induction data generalizing answer with
  | nil => exact ⟨⟨le_rfl, nofun⟩, .inl rfl⟩
  | cons first rest ih =>
    dsimp only
    rw [answerLoop]
    by_cases elsewhere : first.syncId ≠ syncId
    · rw [if_pos elsewhere]
      obtain ⟨⟨above, all⟩, chosen⟩ := ih answer
      refine ⟨⟨above, fun datum mem same => ?_⟩, ?_⟩
      · rcases mem_cons.mp mem with rfl | mem
        · exact absurd same elsewhere
        · exact all datum mem same
      · exact chosen.imp_right fun ⟨datum, mem, rest⟩ =>
          ⟨datum, .tail _ mem, rest⟩
    · rw [if_neg elsewhere]
      by_cases older : first.updateId < answer.2
      · rw [if_pos older]
        obtain ⟨⟨above, all⟩, chosen⟩ := ih answer
        refine ⟨⟨above, fun datum mem same => ?_⟩, ?_⟩
        · rcases mem_cons.mp mem with rfl | mem
          · exact Nat.le_of_lt (Nat.lt_of_lt_of_le older above)
          · exact all datum mem same
        · exact chosen.imp_right fun ⟨datum, mem, rest⟩ =>
            ⟨datum, .tail _ mem, rest⟩
      · rw [if_neg older]
        obtain ⟨⟨above, all⟩, chosen⟩ := ih
          (if first.deleteId ≠ 0 then none else some first.val, first.updateId)
        refine ⟨⟨Nat.le_trans (Nat.le_of_not_lt older) above, fun datum mem same => ?_⟩, ?_⟩
        · rcases mem_cons.mp mem with rfl | mem
          · exact above
          · exact all datum mem same
        · rcases chosen with same | ⟨datum, mem, same, found⟩
          · exact .inr ⟨first, mem_cons_self, not_not.mp elsewhere, same⟩
          · exact .inr ⟨datum, .tail _ mem, same, found⟩

end KvpsyncRecv

/-- The answer that an update stands for. -/
def KvpUpdate.answer (update : KvpUpdate) (negative : KvpAnswer) : KvpAnswer :=
  match update.body with
  | .insert _ val => .value val
  | _ => negative

/-- The update of a key with the highest number, among those of a sync. -/
structure Newest (updates : List KvpUpdate) (syncId : Nat) (key : Bytes) (update : KvpUpdate) :
    Prop where
  member : update ∈ updates
  sync : update.syncId = syncId
  about : update.body.key = some key
  highest : ∀ other ∈ updates, other.syncId = syncId → other.body.key = some key →
    other.updateId ≤ update.updateId

instance (updates : List KvpUpdate) (syncId : Nat) (key : Bytes) (update : KvpUpdate) :
    Decidable (Newest updates syncId key update) :=
  decidable_of_iff (update ∈ updates ∧ update.syncId = syncId ∧ update.body.key = some key ∧
      ∀ other ∈ updates, other.syncId = syncId → other.body.key = some key →
        other.updateId ≤ update.updateId)
    ⟨fun ⟨mem, sync, about, highest⟩ => ⟨mem, sync, about, highest⟩,
      fun ⟨mem, sync, about, highest⟩ => ⟨mem, sync, about, highest⟩⟩

namespace KvpsyncRecv

variable {updates : KvpUpdate → Prop} {r : KvpsyncRecv}

@[simp] theorem doGc_negative (r : KvpsyncRecv) (now : Nat) :
    (r.doGc now).negative now = r.negative now := rfl

theorem getValue_snd (r : KvpsyncRecv) (now : Nat) (key : Bytes) :
    (r.getValue now key).2 = r.doGc now := by
  unfold getValue
  dsimp only
  split
  · rfl
  · split <;> rfl

theorem getValue_zero (none : r.syncId = 0) (now : Nat) (key : Bytes) :
    (r.getValue now key).1 = .unsure := by
  unfold getValue
  dsimp only
  rw [doGc_syncId, if_pos none]

/-- A lookup is answered with the newest update that is held. -/
theorem getValue_newest (coherent : Coherent updates) (sound : RecvSound updates r)
    (synced : r.syncId ≠ 0) {now : Nat} {key : Bytes} {update : KvpUpdate}
    (newest : Newest (r.doGc now).held r.syncId key update) :
    (r.getValue now key).1 = update.answer (r.negative now) := by
  have collected := doGc_sound sound now
  obtain ⟨⟨-, all⟩, chosen⟩ := answerLoop_spec r.syncId (none, 0)
    ((r.doGc now).h.filter fun datum => datum.key = key)
  obtain ⟨datum, inside, rfl⟩ := mem_map.mp newest.member
  have about : datum.key = key := by
    have about := newest.about
    rw [RecvDatum.update_key] at about
    exact Option.some.inj about
  have positive : datum.updateId ≠ 0 := coherent.numbered _ (collected.known _ (mem_held inside))
  have bound := all datum (mem_of_key.mpr ⟨inside, about⟩) newest.sync
  have choice : answerLoop r.syncId (none, 0)
      ((r.doGc now).h.filter fun datum => datum.key = key) =
        (if datum.deleteId ≠ 0 then none else some datum.val, datum.updateId) := by
    rcases chosen with nothing | ⟨other, mem, same, found⟩
    · rw [nothing] at bound
      exact absurd (Nat.le_zero.mp bound) positive
    · obtain ⟨there, about'⟩ := mem_of_key.mp mem
      rw [found] at bound
      have below := newest.highest other.update (mem_held there) same
        (by rw [RecvDatum.update_key, about'])
      have equal := collected.eq_of_update there inside (coherent.unique _ _
        (collected.known _ (mem_held there)) (collected.known _ (mem_held inside))
        (same.trans newest.sync.symm) (Nat.le_antisymm below bound))
      rw [found, equal]
  unfold getValue KvpUpdate.answer
  dsimp only
  rw [doGc_syncId, if_neg synced, choice, doGc_negative]
  by_cases deletion : datum.deleteId ≠ 0
  · rw [if_pos deletion, RecvDatum.update_delete deletion]
  · rw [if_neg deletion, RecvDatum.update_insert (not_not.mp deletion)]
    exact if_neg positive

theorem getValue_none (synced : r.syncId ≠ 0) {now : Nat} {key : Bytes}
    (none : ∀ update ∈ (r.doGc now).held, update.syncId = r.syncId → update.body.key ≠ some key) :
    (r.getValue now key).1 = r.negative now := by
  obtain ⟨-, chosen⟩ := answerLoop_spec r.syncId (.none, 0)
    ((r.doGc now).h.filter fun datum => datum.key = key)
  have choice : answerLoop r.syncId (.none, 0)
      ((r.doGc now).h.filter fun datum => datum.key = key) = (.none, 0) := by
    rcases chosen with nothing | ⟨other, mem, same, -⟩
    · exact nothing
    · obtain ⟨there, about⟩ := mem_of_key.mp mem
      exact absurd (other.update_key.trans (congrArg some about)) (none _ (mem_held there) same)
  unfold getValue
  dsimp only
  rw [doGc_syncId, if_neg synced, choice, doGc_negative]

end KvpsyncRecv

end Splintermail
