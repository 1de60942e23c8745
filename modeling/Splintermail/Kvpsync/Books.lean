/-
This file proves that the sender of kvpsync keeps its books: which object is in which list,
how many references it has, and how many packets are inflight.

A function of the sender takes an object out of one list before it puts it into another, and
it holds a reference in between. The invariant is therefore stated with the references that
are held by the function that runs; none are between two calls.
-/

import Mathlib.Data.List.Nodup
import Splintermail.Kvpsync.Outline

namespace Splintermail

open List

namespace KvpsyncSend

variable {s : KvpsyncSend} {held : Nat → Nat} {id : Nat}

/-- The object is in a packet list. -/
def Listed (s : KvpsyncSend) (id : Nat) : Prop := id ∈ s.unsent ∨ id ∈ s.sent

instance (s : KvpsyncSend) (id : Nat) : Decidable (s.Listed id) :=
  inferInstanceAs (Decidable (_ ∨ _))

/-- The references to an object that the cache and the packet lists have. -/
def owners (s : KvpsyncSend) (id : Nat) : Nat :=
  (if id ∈ s.cache then 1 else 0) + if s.Listed id then 1 else 0

/-- One more reference to the object is held. -/
def hold (held : Nat → Nat) (id : Nat) : Nat → Nat :=
  fun other => held other + if other = id then 1 else 0

/-- The books, with the references that are held. -/
structure Books (s : KvpsyncSend) (held : Nat → Nat) : Prop where
  nodup : (s.unsent ++ s.sent).Nodup
  flag : ∀ id, (s.data id).inflight = true ↔ id ∈ s.sent
  count : s.inflight = s.sent.length
  refs : ∀ id, id < s.fresh → (s.data id).nrefs = held id + s.owners id
  exist : ∀ id, id ∈ s.cache ∨ s.Listed id → id < s.fresh
  cached : s.cache.Nodup
  limit : 1 ≤ s.inflightLimit
  fatal : s.fatal = false

/-- Nothing is held. -/
def unheld : Nat → Nat := fun _ => 0

/-! ### Objects -/

theorem Books.modify (books : s.Books held) (id : Nat) {change : SendData → SendData}
    (inflight : ∀ data, (change data).inflight = data.inflight)
    (nrefs : ∀ data, (change data).nrefs = data.nrefs) : (s.modify id change).Books held := by
  have same : ∀ other, ((s.modify id change).data other).inflight = (s.data other).inflight ∧
      ((s.modify id change).data other).nrefs = (s.data other).nrefs := by
    intro other
    by_cases itself : other = id
    · rw [itself, modify_self]
      exact ⟨inflight _, nrefs _⟩
    · rw [modify_other s change itself]
      exact ⟨rfl, rfl⟩
  refine { books with flag := fun other => ?_, refs := fun other exist => ?_ }
  · rw [(same other).1]
    exact books.flag other
  · rw [(same other).2]
    exact books.refs other exist

theorem Books.alloc (books : s.Books held) {data : SendData} (nrefs : data.nrefs = 1)
    (inflight : data.inflight = false) (free : held s.fresh = 0) :
    (s.alloc data).Books (hold held s.fresh) := by
  have outside : ¬(s.fresh ∈ s.cache ∨ s.Listed s.fresh) :=
    fun inside => Nat.lt_irrefl _ (books.exist s.fresh inside)
  refine { books with
    flag := fun other => ?_, refs := fun other exist => ?_,
    exist := fun other inside => Nat.lt_succ_of_lt (books.exist other inside) }
  · show (Function.update s.data s.fresh data other).inflight = true ↔ other ∈ s.sent
    by_cases itself : other = s.fresh
    · rw [itself, Function.update_self, inflight]
      exact ⟨fun on => (nomatch on), fun mem => absurd (.inr (.inr mem)) outside⟩
    · rw [Function.update_of_ne itself]
      exact books.flag other
  · show (Function.update s.data s.fresh data other).nrefs = hold held s.fresh other + s.owners other
    unfold hold
    by_cases itself : other = s.fresh
    · rw [itself, Function.update_self, nrefs, free, if_pos rfl]
      unfold owners
      rw [if_neg fun mem => outside (.inl mem), if_neg fun mem => outside (.inr mem)]
    · rw [Function.update_of_ne itself, if_neg itself]
      exact books.refs other (Nat.lt_of_le_of_ne (Nat.le_of_lt_succ exist) itself)

/-! ### Lists -/

variable {list : List Nat}

theorem length_filter_ne (nodup : list.Nodup) (mem : id ∈ list) :
    (list.filter (· ≠ id)).length + 1 = list.length := by
  have same : list.filter (· ≠ id) = list.erase id := by
    rw [nodup.erase_eq_filter]
    exact filter_congr fun other _ => by by_cases itself : other = id <;> simp [itself]
  rw [same, length_erase_of_mem mem]
  exact Nat.sub_add_cancel (length_pos_of_mem mem)

theorem mem_without {other : Nat} : other ∈ list.filter (· ≠ id) ↔ other ∈ list ∧ other ≠ id := by
  rw [mem_filter, decide_eq_true_eq]

theorem filter_outside (outside : id ∉ list) : list.filter (· ≠ id) = list :=
  filter_eq_self.mpr fun _ mem =>
    decide_eq_true fun itself => outside (itself ▸ mem)

theorem listed_dataRemove (s : KvpsyncSend) (id other : Nat) :
    (s.dataRemove id).Listed other ↔ s.Listed other ∧ other ≠ id := by
  show other ∈ s.unsent.filter (· ≠ id) ∨ other ∈ s.sent.filter (· ≠ id) ↔ _
  rw [mem_without, mem_without, ← or_and_right]
  rfl

theorem data_dataRemove (s : KvpsyncSend) (id other : Nat) :
    (s.dataRemove id).data other =
      { s.data other with inflight := (s.data other).inflight && decide (other ≠ id) } := by
  unfold dataRemove
  by_cases itself : other = id
  · rw [itself, modify_self]
    simp
  · rw [modify_other _ _ itself]
    simp [itself]

/-- An object that leaves its list is held. -/
theorem Books.dataRemove (books : s.Books held) (listed : s.Listed id) :
    (s.dataRemove id).Books (hold held id) := by
  have appended : (s.dataRemove id).unsent ++ (s.dataRemove id).sent =
      (s.unsent ++ s.sent).filter (· ≠ id) := (filter_append ..).symm
  have flagged : (s.data id).inflight.toNat + (s.sent.filter (· ≠ id)).length = s.sent.length := by
    by_cases sent : id ∈ s.sent
    · rw [(books.flag id).mpr sent]
      have length := length_filter_ne (nodup_append.mp books.nodup).2.1 sent
      simp only [Bool.toNat_true]
      omega
    · have off : (s.data id).inflight = false :=
        Bool.eq_false_iff.mpr fun on => sent ((books.flag id).mp on)
      rw [off, filter_outside sent]
      exact Nat.zero_add _
  refine ⟨?_, fun other => ?_, ?_, fun other exist => ?_, fun other inside => ?_, books.cached,
    books.limit, ?_⟩
  · rw [appended]
    exact books.nodup.filter _
  · rw [data_dataRemove]
    show ((s.data other).inflight && decide (other ≠ id)) = true ↔ other ∈ s.sent.filter (· ≠ id)
    rw [Bool.and_eq_true, decide_eq_true_eq, books.flag, mem_without]
  · show s.inflight - (s.data id).inflight.toNat = (s.sent.filter (· ≠ id)).length
    rw [books.count]
    omega
  · rw [data_dataRemove]
    show (s.data other).nrefs = _
    rw [books.refs other exist]
    unfold hold owners
    show held other + ((if other ∈ s.cache then 1 else 0) + if s.Listed other then 1 else 0) =
      held other + (if other = id then 1 else 0) +
        ((if other ∈ s.cache then 1 else 0) + if (s.dataRemove id).Listed other then 1 else 0)
    by_cases itself : other = id
    · rw [itself, if_pos listed, if_pos rfl, if_neg fun inside =>
        ((listed_dataRemove s id id).mp inside).2 rfl]
      omega
    · rw [if_neg itself]
      have same : (s.dataRemove id).Listed other ↔ s.Listed other :=
        (listed_dataRemove s id other).trans (and_iff_left itself)
      simp only [same]
      omega
  · refine books.exist other (inside.imp_right fun inside => ?_)
    exact ((listed_dataRemove s id other).mp inside).1
  · show (s.fatal || decide (s.inflight < (s.data id).inflight.toNat)) = false
    rw [books.fatal, books.count]
    simp only [Bool.false_or, decide_eq_false_iff_not]
    omega

variable {after : KvpsyncSend}

theorem owners_insert (listed : ∀ other, after.Listed other ↔ s.Listed other ∨ other = id)
    (unlisted : ¬s.Listed id) (cache : after.cache = s.cache) (other : Nat) :
    held other + after.owners other = hold held id other + s.owners other := by
  unfold owners hold
  rw [cache]
  by_cases itself : other = id
  · rw [itself, if_pos ((listed id).mpr (.inr rfl)), if_neg unlisted, if_pos rfl]
    omega
  · have same : after.Listed other ↔ s.Listed other := (listed other).trans (or_iff_left itself)
    simp only [same, itself, if_false]
    omega

theorem Books.toUnsent (books : s.Books (hold held id)) (exist : id < s.fresh)
    (unlisted : ¬s.Listed id) {unsent : List Nat} (perm : unsent.Perm (id :: s.unsent)) :
    { s with unsent := unsent }.Books held := by
  have listed : ∀ other, { s with unsent := unsent }.Listed other ↔ s.Listed other ∨ other = id := by
    intro other
    show other ∈ unsent ∨ other ∈ s.sent ↔ (other ∈ s.unsent ∨ other ∈ s.sent) ∨ other = id
    rw [perm.mem_iff, mem_cons]
    tauto
  refine { books with nodup := ?_, refs := fun other existOther => ?_, exist := fun other inside => ?_ }
  · refine (perm.append_right s.sent).nodup_iff.mpr ?_
    exact nodup_cons.mpr ⟨fun inside => unlisted (mem_append.mp inside), books.nodup⟩
  · exact (books.refs other existOther).trans (owners_insert listed unlisted rfl other).symm
  · rcases inside with cached | inside
    · exact books.exist other (.inl cached)
    · rcases (listed other).mp inside with before | rfl
      · exact books.exist other (.inr before)
      · exact exist

/-- An object that is held comes to the sent packets, and its packet is inflight. -/
theorem Books.toSent (books : s.Books (hold held id)) (exist : id < s.fresh)
    (unlisted : ¬s.Listed id) {change : SendData → SendData}
    (inflight : ∀ data, (change data).inflight = true)
    (nrefs : ∀ data, (change data).nrefs = data.nrefs) :
    ({ s with sent := s.sent ++ [id], inflight := s.inflight + 1 }.modify id change).Books held := by
  have listed : ∀ other, ({ s with sent := s.sent ++ [id], inflight := s.inflight + 1 }.modify id
      change).Listed other ↔ s.Listed other ∨ other = id := by
    intro other
    show other ∈ s.unsent ∨ other ∈ s.sent ++ [id] ↔ (other ∈ s.unsent ∨ other ∈ s.sent) ∨ other = id
    rw [mem_append, mem_singleton]
    tauto
  refine ⟨?_, fun other => ?_, ?_, fun other existOther => ?_, fun other inside => ?_, books.cached,
    books.limit, books.fatal⟩
  · show (s.unsent ++ (s.sent ++ [id])).Nodup
    rw [← append_assoc]
    refine nodup_append.mpr ⟨books.nodup, nodup_singleton id, ?_⟩
    rintro other inside same mem rfl
    rw [mem_singleton.mp mem] at inside
    exact unlisted (mem_append.mp inside)
  · by_cases itself : other = id
    · rw [itself, modify_self, inflight]
      exact ⟨fun _ => mem_append_right _ (mem_singleton_self id), fun _ => rfl⟩
    · rw [modify_other _ _ itself]
      show (s.data other).inflight = true ↔ other ∈ s.sent ++ [id]
      rw [mem_append, mem_singleton, or_iff_left itself]
      exact books.flag other
  · show s.inflight + 1 = (s.sent ++ [id]).length
    rw [books.count, length_append, length_singleton]
  · refine Eq.trans ?_ ((books.refs other existOther).trans
      (owners_insert listed unlisted rfl other).symm)
    by_cases itself : other = id
    · rw [itself, modify_self, nrefs]
    · rw [modify_other _ _ itself]
  · rcases inside with cached | inside
    · exact books.exist other (.inl cached)
    · rcases (listed other).mp inside with before | rfl
      · exact books.exist other (.inr before)
      · exact exist

theorem data_dataDownref (s : KvpsyncSend) (id other : Nat) :
    (s.dataDownref id).data other =
      { s.data other with nrefs := (s.data other).nrefs - if other = id then 1 else 0 } := by
  have lower : (s.modify id fun data => { data with nrefs := data.nrefs - 1 }).data other =
      { s.data other with nrefs := (s.data other).nrefs - if other = id then 1 else 0 } := by
    by_cases itself : other = id
    · rw [itself, modify_self, if_pos rfl]
    · rw [modify_other _ _ itself, if_neg itself]
      rfl
  unfold dataDownref
  dsimp only
  split
  · exact lower
  · exact lower

/-- A reference that was held is given back. -/
theorem Books.dataDownref (books : s.Books (hold held id)) : (s.dataDownref id).Books held := by
  have same : (s.dataDownref id).unsent = s.unsent ∧ (s.dataDownref id).sent = s.sent ∧
      (s.dataDownref id).cache = s.cache ∧ (s.dataDownref id).inflight = s.inflight ∧
      (s.dataDownref id).fresh = s.fresh ∧ (s.dataDownref id).inflightLimit = s.inflightLimit ∧
      (s.dataDownref id).fatal = s.fatal := by
    unfold KvpsyncSend.dataDownref
    dsimp only
    split
    · exact ⟨rfl, rfl, rfl, rfl, rfl, rfl, rfl⟩
    · exact ⟨rfl, rfl, rfl, rfl, rfl, rfl, rfl⟩
  obtain ⟨unsent, sent, cache, inflight, fresh, limit, fatal⟩ := same
  have owners : ∀ other, (s.dataDownref id).owners other = s.owners other := by
    intro other
    have listed : (s.dataDownref id).Listed other ↔ s.Listed other := by
      unfold Listed
      rw [unsent, sent]
    unfold KvpsyncSend.owners
    simp only [cache, listed]
  refine ⟨?_, fun other => ?_, ?_, fun other exist => ?_, fun other inside => ?_, ?_, ?_, ?_⟩
  · rw [unsent, sent]
    exact books.nodup
  · rw [data_dataDownref, sent]
    exact books.flag other
  · rw [inflight, sent]
    exact books.count
  · rw [fresh] at exist
    rw [data_dataDownref, owners]
    show (s.data other).nrefs - (if other = id then 1 else 0) = _
    rw [books.refs other exist]
    unfold hold
    omega
  · rw [fresh]
    unfold Listed at inside
    rw [cache, unsent, sent] at inside
    exact books.exist other inside
  · rw [cache]
    exact books.cached
  · rw [limit]
    exact books.limit
  · rw [fatal]
    exact books.fatal

/-! ### Numbers -/

/-- What is unacked is what is in the packet lists, and updates are told apart by their numbers. -/
structure Numbered (s : KvpsyncSend) : Prop where
  same : ∀ id, id ∈ s.unacked ↔ s.Listed id
  nodup : s.unacked.Nodup
  distinct : ∀ id ∈ s.unacked, ∀ other ∈ s.unacked,
    (s.data id).update.updateId = (s.data other).update.updateId → id = other

/-- No unacked update has the number. -/
def Free (s : KvpsyncSend) (updateId : Nat) : Prop :=
  ∀ id ∈ s.unacked, (s.data id).update.updateId ≠ updateId

theorem Free.no_duplicate {updateId : Nat} (free : s.Free updateId) :
    (s.unacked.filter fun other => (s.data other).update.updateId = updateId) = [] :=
  filter_eq_nil_iff.mpr fun other mem same => free other mem (of_decide_eq_true same)

theorem Free.all_kept {updateId : Nat} (free : s.Free updateId) :
    (s.unacked.filter fun other => (s.data other).update.updateId ≠ updateId) = s.unacked :=
  filter_eq_self.mpr fun other mem => decide_eq_true (free other mem)

theorem data_dataQueue (s : KvpsyncSend) (id other : Nat) :
    (s.dataQueue id).data other = if other = id then
        { s.data id with update :=
          { (s.data id).update with syncId := s.syncId, updateId := (s.updateId + 1) % 2 ^ 32 } }
      else s.data other := by
  unfold dataQueue
  by_cases itself : other = id
  · rw [itself, modify_self, if_pos rfl]
  · rw [modify_other _ _ itself, if_neg itself]

theorem unacked_dataQueue (s : KvpsyncSend) (id : Nat) (free : s.Free ((s.updateId + 1) % 2 ^ 32)) :
    (s.dataQueue id).unacked = s.unacked ++ [id] := congrArg (· ++ [id]) free.all_kept

theorem Numbered.outside (numbered : s.Numbered) (unlisted : ¬s.Listed id) : id ∉ s.unacked :=
  fun inside => unlisted ((numbered.same id).mp inside)

theorem Books.dataQueue (books : s.Books (hold held id)) (numbered : s.Numbered)
    (exist : id < s.fresh) (unlisted : ¬s.Listed id) (free : s.Free ((s.updateId + 1) % 2 ^ 32)) :
    (s.dataQueue id).Books held := by
  have queued := books.toUnsent exist unlisted (@perm_append_comm _ s.unsent [id])
  have kept := @Books.modify _ held queued id (fun data => { data with update :=
    { data.update with syncId := s.syncId, updateId := (s.updateId + 1) % 2 ^ 32 } })
    (fun _ => rfl) (fun _ => rfl)
  refine { kept with fatal := ?_ }
  show (s.fatal || !(s.unacked.filter _).isEmpty || s.unsent.contains id || s.sent.contains id ||
    s.unacked.contains id) = false
  rw [free.no_duplicate, books.fatal]
  have unsent : s.unsent.contains id = false := by simpa using fun inside => unlisted (.inl inside)
  have sent : s.sent.contains id = false := by simpa using fun inside => unlisted (.inr inside)
  have notUnacked : s.unacked.contains id = false := by simpa using numbered.outside unlisted
  rw [unsent, sent, notUnacked]
  rfl

theorem Numbered.dataQueue (numbered : s.Numbered) (unlisted : ¬s.Listed id)
    (free : s.Free ((s.updateId + 1) % 2 ^ 32)) : (s.dataQueue id).Numbered := by
  have outside := numbered.outside unlisted
  have unacked := unacked_dataQueue s id free
  have listed : ∀ other, (s.dataQueue id).Listed other ↔ s.Listed other ∨ other = id := by
    intro other
    show other ∈ s.unsent ++ [id] ∨ other ∈ s.sent ↔ (other ∈ s.unsent ∨ other ∈ s.sent) ∨ other = id
    rw [mem_append, mem_singleton]
    tauto
  refine ⟨fun other => ?_, ?_, fun first here second there same => ?_⟩
  · rw [unacked, listed, mem_append, mem_singleton, numbered.same]
  · rw [unacked]
    refine nodup_append.mpr ⟨numbered.nodup, nodup_singleton id, ?_⟩
    rintro other inside same mem rfl
    rw [mem_singleton.mp mem] at inside
    exact outside inside
  · rw [unacked, mem_append, mem_singleton] at here there
    rw [data_dataQueue, data_dataQueue] at same
    by_cases one : first = id <;> by_cases two : second = id
    · rw [one, two]
    · rw [if_pos one, if_neg two] at same
      exact absurd same.symm (free second (there.resolve_right two))
    · rw [if_neg one, if_pos two] at same
      exact absurd same (free first (here.resolve_right one))
    · rw [if_neg one, if_neg two] at same
      exact numbered.distinct first (here.resolve_right one) second (there.resolve_right two) same

theorem Numbered.of_outline (numbered : s.Numbered) (same : after.outline = s.outline) :
    after.Numbered := by
  have unacked : after.unacked = s.unacked := congrArg Outline.unacked same
  have ids : ∀ id, (after.data id).update.updateId = (s.data id).update.updateId :=
    fun id => congrArg (fun o : Outline => (o.core id).updateId) same
  refine ⟨fun id => ?_, ?_, fun id here other there number => ?_⟩
  · rw [unacked]
    exact (numbered.same id).trans (iff_of_eq (congrFun (congrArg Outline.listed same) id).symm)
  · rw [unacked]
    exact numbered.nodup
  · rw [unacked] at here there
    rw [ids, ids] at number
    exact numbered.distinct id here other there number

theorem Numbered.alloc (numbered : s.Numbered) (books : s.Books held) (data : SendData) :
    (s.alloc data).Numbered := by
  have old : ∀ id ∈ s.unacked, (s.alloc data).data id = s.data id := by
    intro id mem
    have exist := books.exist id (.inr ((numbered.same id).mp mem))
    exact Function.update_of_ne (Nat.ne_of_lt exist) ..
  refine ⟨numbered.same, numbered.nodup, fun id here other there number => ?_⟩
  rw [old id here, old other there] at number
  exact numbered.distinct id here other there number

/-! ### The cache -/

/-- The cache changes, and what it had or will have is held. -/
theorem Books.recache {other : Nat → Nat} (books : s.Books held) {cache : List Nat}
    (nodup : cache.Nodup) (exist : ∀ id ∈ cache, id < s.fresh)
    (balanced : ∀ id, id < s.fresh → other id + (if id ∈ cache then 1 else 0) =
      held id + if id ∈ s.cache then 1 else 0) :
    { s with cache := cache }.Books other := by
  refine { books with
    cached := nodup, refs := fun id existId => ?_
    exist := fun id inside => inside.elim (exist id) fun listed => books.exist id (.inr listed) }
  have before := books.refs id existId
  have same := balanced id existId
  unfold owners at before ⊢
  show (s.data id).nrefs = other id + ((if id ∈ cache then 1 else 0) + if s.Listed id then 1 else 0)
  omega

theorem Books.upref (books : s.Books held) (id : Nat) :
    (s.modify id fun data => { data with nrefs := data.nrefs + 1 }).Books (hold held id) := by
  refine { books with flag := fun other => ?_, refs := fun other exist => ?_ }
  · by_cases itself : other = id
    · rw [itself, modify_self]
      exact books.flag id
    · rw [modify_other _ _ itself]
      exact books.flag other
  · have before := books.refs other exist
    unfold hold
    show _ = held other + (if other = id then 1 else 0) + s.owners other
    by_cases itself : other = id
    · subst itself
      rw [modify_self, if_pos rfl]
      show (s.data other).nrefs + 1 = _
      omega
    · rw [modify_other _ _ itself, if_neg itself]
      exact before

/-! ### The order of the sent packets -/

/-- The sent packets are in the order in which they were sent, and none was sent after now. -/
structure Ordered (s : KvpsyncSend) (now : Nat) : Prop where
  order : s.sent.Pairwise fun first second => (s.data first).sentTime ≤ (s.data second).sentTime
  past : ∀ id ∈ s.sent, (s.data id).sentTime ≤ now

theorem Ordered.sublist {now : Nat} (ordered : s.Ordered now) (sub : after.sent.Sublist s.sent)
    (times : ∀ id ∈ s.sent, (after.data id).sentTime = (s.data id).sentTime) :
    after.Ordered now := by
  refine ⟨?_, fun id mem => ?_⟩
  · refine (ordered.order.sublist sub).imp_of_mem fun {first second} here there le => ?_
    rwa [times first (sub.subset here), times second (sub.subset there)]
  · rw [times id (sub.subset mem)]
    exact ordered.past id (sub.subset mem)

theorem Ordered.mono {now later : Nat} (ordered : s.Ordered now) (le : now ≤ later) :
    s.Ordered later :=
  ⟨ordered.order, fun id mem => Nat.le_trans (ordered.past id mem) le⟩

end KvpsyncSend

end Splintermail
