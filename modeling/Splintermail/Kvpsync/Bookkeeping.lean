/-
This file proves that every call of the sender of kvpsync keeps its books.

A new update needs a number that no unacked update has, or the call aborts. There are two
ways to know that it has one. Either the call is given not to abort, or the number of
updates that the sender has made is given a limit: as long as it is not exceeded, the
numbers of a sync only go up. Both are carried through the functions as an optional limit.
-/

import Splintermail.Kvpsync.Books

namespace Splintermail

open List

namespace KvpsyncSend

variable {s after : KvpsyncSend} {held : Nat → Nat} {id now later : Nat} {limit : Option Nat}

/-- The numbers of the unacked updates are used up to the present one, and there are enough left. -/
def Fits (s : KvpsyncSend) : Option Nat → Prop
  | none => True
  | some limit =>
    (∀ id ∈ s.unacked, (s.data id).update.updateId ≤ s.updateId) ∧
      s.updateId + (limit - s.made.length) < 2 ^ 32

/-- A call has not exceeded its limit; without a limit, it has not aborted. -/
def Within (s : KvpsyncSend) : Option Nat → Prop
  | none => s.fatal = false
  | some limit => s.made.length ≤ limit

/-- An update that was made stays made, and a call that aborted stays aborted. -/
structure Grows (s after : KvpsyncSend) : Prop where
  made : s.made.length ≤ after.made.length
  fatal : after.fatal = false → s.fatal = false

theorem Grows.refl (s : KvpsyncSend) : s.Grows s := ⟨le_rfl, id⟩

theorem Grows.trans {middle : KvpsyncSend} (first : s.Grows middle) (second : middle.Grows after) :
    s.Grows after :=
  ⟨Nat.le_trans first.made second.made, fun fine => first.fatal (second.fatal fine)⟩

/-- The list of the oldest insertions and their deadlines are left alone, and the expiry time stays within
`MIN_RESPONSE`. -/
structure Still (s after : KvpsyncSend) (now : Nat) : Prop extends Grows s after where
  oldest : after.oldest = s.oldest
  fresh : s.fresh ≤ after.fresh
  deadlines : ∀ id, id < s.fresh → (after.data id).deadline = (s.data id).deadline
  expiry : s.okExpiry ≤ now + minResponse → after.okExpiry ≤ now + minResponse

theorem Still.refl (s : KvpsyncSend) (now : Nat) : s.Still s now :=
  ⟨.refl s, rfl, le_rfl, fun _ _ => rfl, fun bound => bound⟩

theorem Still.trans {middle : KvpsyncSend} (first : s.Still middle now)
    (second : middle.Still after now) : s.Still after now where
  toGrows := first.toGrows.trans second.toGrows
  oldest := second.oldest.trans first.oldest
  fresh := Nat.le_trans first.fresh second.fresh
  deadlines id exist := (second.deadlines id (Nat.lt_of_lt_of_le exist first.fresh)).trans
    (first.deadlines id exist)
  expiry bound := second.expiry (first.expiry bound)

theorem deadline_modify (s : KvpsyncSend) (id other : Nat) {change : SendData → SendData}
    (same : ∀ data, (change data).deadline = data.deadline) :
    ((s.modify id change).data other).deadline = (s.data other).deadline := by
  by_cases itself : other = id
  · rw [itself, modify_self, same]
  · rw [modify_other _ _ itself]

theorem deadline_dataRemove (s : KvpsyncSend) (id other : Nat) :
    ((s.dataRemove id).data other).deadline = (s.data other).deadline := by
  rw [data_dataRemove]

theorem deadline_dataQueue (s : KvpsyncSend) (id other : Nat) :
    ((s.dataQueue id).data other).deadline = (s.data other).deadline := by
  rw [data_dataQueue]
  by_cases itself : other = id
  · rw [if_pos itself, itself]
  · rw [if_neg itself]

theorem Within.before (within : after.Within limit) (grows : s.Grows after) : s.Within limit := by
  cases limit with
  | none => exact grows.fatal within
  | some limit => exact Nat.le_trans grows.made within

/-- The books, the numbers and the order are kept, and there are numbers left. -/
structure Kept (s : KvpsyncSend) (held : Nat → Nat) (limit : Option Nat) (now : Nat) : Prop where
  books : s.Books held
  numbered : s.Numbered
  ordered : s.Ordered now
  fits : s.Fits limit

theorem Fits.of_outline (fits : s.Fits limit) (same : after.outline = s.outline) :
    after.Fits limit := by
  cases limit with
  | none => trivial
  | some limit =>
    refine ⟨fun id mem => ?_, ?_⟩
    · rw [show after.unacked = s.unacked from congrArg Outline.unacked same] at mem
      rw [show (after.data id).update.updateId = (s.data id).update.updateId from
          congrArg (fun o : Outline => (o.core id).updateId) same,
        show after.updateId = s.updateId from congrArg Outline.updateId same]
      exact fits.1 id mem
    · rw [show after.updateId = s.updateId from congrArg Outline.updateId same,
        show after.made = s.made from congrArg Outline.made same]
      exact fits.2

theorem Kept.of_outline {others : Nat → Nat} (kept : s.Kept held limit now) (books : after.Books others)
    (same : after.outline = s.outline) (ordered : after.Ordered later) :
    after.Kept others limit later :=
  ⟨books, kept.numbered.of_outline same, ordered, kept.fits.of_outline same⟩

theorem Kept.not_listed_fresh (kept : s.Kept held limit now) : ¬s.Listed s.fresh :=
  fun listed => Nat.lt_irrefl _ (kept.books.exist s.fresh (.inr listed))

/-! ### New packets -/

theorem made_dataQueue (s : KvpsyncSend) (id : Nat) :
    (s.dataQueue id).made.length = s.made.length + 1 := length_append

theorem still_dataQueue (s : KvpsyncSend) (id now : Nat) : s.Still (s.dataQueue id) now := by
  refine ⟨⟨?_, fun fine => ?_⟩, rfl, le_rfl, fun other _ => deadline_dataQueue s id other,
    fun bound => bound⟩
  · rw [made_dataQueue]
    exact Nat.le_succ _
  · have parts : (s.fatal || _ || _ || _ || _) = false := fine
    simp only [Bool.or_eq_false_iff] at parts
    exact parts.1.1.1.1

theorem Fits.free (fits : s.Fits limit) (room : (s.dataQueue id).Within limit) :
    s.Free ((s.updateId + 1) % 2 ^ 32) := by
  cases limit with
  | none =>
    have parts : (s.fatal || !(s.unacked.filter fun other =>
        (s.data other).update.updateId = (s.updateId + 1) % 2 ^ 32).isEmpty || _ || _ || _) = false :=
      room
    simp only [Bool.or_eq_false_iff, Bool.not_eq_false', List.isEmpty_iff] at parts
    intro other mem same
    exact filter_eq_nil_iff.mp parts.1.1.1.2 other mem (decide_eq_true same)
  | some limit =>
    have made : (s.dataQueue id).made.length ≤ limit := room
    rw [made_dataQueue] at made
    have left := fits.2
    intro other mem same
    have number := fits.1 other mem
    rw [same, Nat.mod_eq_of_lt (by omega)] at number
    exact Nat.not_succ_le_self _ number

theorem Fits.queue (fits : s.Fits limit) (room : (s.dataQueue id).Within limit) :
    (s.dataQueue id).Fits limit := by
  have free := fits.free room
  cases limit with
  | none => trivial
  | some limit =>
    have made : (s.dataQueue id).made.length ≤ limit := room
    have left := fits.2
    rw [made_dataQueue] at made
    have next : (s.updateId + 1) % 2 ^ 32 = s.updateId + 1 := Nat.mod_eq_of_lt (by omega)
    constructor
    · intro other mem
      rw [unacked_dataQueue s id free, mem_append, mem_singleton] at mem
      rw [data_dataQueue]
      show _ ≤ (s.updateId + 1) % 2 ^ 32
      by_cases itself : other = id
      · rw [if_pos itself]
      · rw [if_neg itself, next]
        exact Nat.le_succ_of_le (fits.1 other (mem.resolve_right itself))
    · show (s.updateId + 1) % 2 ^ 32 + (limit - (s.dataQueue id).made.length) < 2 ^ 32
      rw [next, made_dataQueue]
      omega

theorem Kept.queue (kept : s.Kept (hold held id) limit now) (exist : id < s.fresh)
    (unlisted : ¬s.Listed id) (room : (s.dataQueue id).Within limit) :
    (s.dataQueue id).Kept held limit now := by
  have free := kept.fits.free room
  refine ⟨kept.books.dataQueue kept.numbered exist unlisted free, kept.numbered.dataQueue unlisted free,
    kept.ordered.sublist (List.Sublist.refl _) fun other _ => ?_, kept.fits.queue room⟩
  rw [data_dataQueue]
  by_cases itself : other = id
  · rw [if_pos itself, itself]
  · rw [if_neg itself]

theorem Fits.alloc (fits : s.Fits limit) (books : s.Books held) (numbered : s.Numbered)
    (data : SendData) : (s.alloc data).Fits limit := by
  cases limit with
  | none => trivial
  | some limit =>
    refine ⟨fun id mem => ?_, fits.2⟩
    have exist := books.exist id (.inr ((numbered.same id).mp mem))
    rw [show (s.alloc data).data id = s.data id from
      Function.update_of_ne (Nat.ne_of_lt exist) ..]
    exact fits.1 id mem

theorem Kept.alloc (kept : s.Kept held limit now) {data : SendData} (nrefs : data.nrefs = 1)
    (inflight : data.inflight = false) (free : held s.fresh = 0) :
    (s.alloc data).Kept (hold held s.fresh) limit now := by
  refine ⟨kept.books.alloc nrefs inflight free, kept.numbered.alloc kept.books data,
    kept.ordered.sublist (List.Sublist.refl _) fun other mem => ?_,
    kept.fits.alloc kept.books kept.numbered data⟩
  have exist := kept.books.exist other (.inr (.inr mem))
  exact congrArg SendData.sentTime (Function.update_of_ne (Nat.ne_of_lt exist) ..)

theorem Kept.queueNew (kept : s.Kept held limit now) (body : KvpBody) (free : held s.fresh = 0)
    (room : (s.queueNew body).Within limit) : (s.queueNew body).Kept held limit now :=
  (kept.alloc rfl rfl free).queue (Nat.lt_succ_self _) kept.not_listed_fresh room

/-! ### Retransmission -/

theorem sent_dataRemove_sublist (s : KvpsyncSend) (id : Nat) :
    (s.dataRemove id).sent.Sublist s.sent := filter_sublist

theorem sentTime_dataRemove (s : KvpsyncSend) (id other : Nat) :
    ((s.dataRemove id).data other).sentTime = (s.data other).sentTime := by
  rw [data_dataRemove]

theorem Kept.relist (kept : s.Kept held limit now) (listed : s.Listed id) {unsent : List Nat}
    (perm : unsent.Perm (id :: (s.dataRemove id).unsent)) :
    { s.dataRemove id with unsent := unsent }.Kept held limit now := by
  have unlisted : ¬(s.dataRemove id).Listed id :=
    fun inside => ((listed_dataRemove s id id).mp inside).2 rfl
  have books := (kept.books.dataRemove listed).toUnsent (kept.books.exist id (.inr listed)) unlisted
    perm
  refine kept.of_outline books (outline_relist s listed unsent fun other => ?_)
    (kept.ordered.sublist (sent_dataRemove_sublist s id) fun other _ => sentTime_dataRemove s id other)
  rw [perm.mem_iff, mem_cons]

theorem perm_linkBefore (element : Option Nat) (id : Nat) (list : List Nat) :
    (linkBefore element id list).Perm (id :: list) := by
  cases element with
  | none => exact perm_append_comm
  | some element =>
    refine perm_middle.trans ?_
    rw [takeWhile_append_dropWhile]

theorem resend_loop (first : Option Nat) (list : List Nat) (kept : s.Kept held limit now)
    (nodup : list.Nodup) (inside : ∀ id ∈ list, id ∈ s.sent) :
    (list.foldl (fun s id => { s.dataRemove id with
        unsent := linkBefore first id (s.dataRemove id).unsent }) s).Kept held limit now ∧
      ∀ id, id ∈ (list.foldl (fun s id => { s.dataRemove id with
        unsent := linkBefore first id (s.dataRemove id).unsent }) s).sent ↔
          id ∈ s.sent ∧ id ∉ list := by
  induction list generalizing s with
  | nil => exact ⟨kept, fun id => (and_iff_left not_mem_nil).symm⟩
  | cons id rest ih =>
    obtain ⟨outside, nodup⟩ := nodup_cons.mp nodup
    have mem := inside id mem_cons_self
    obtain ⟨done, sent⟩ := ih (kept.relist (.inr mem) (perm_linkBefore first id _))
      nodup fun other here => mem_without.mpr ⟨inside other (.tail _ here),
        fun itself => outside (itself ▸ here)⟩
    refine ⟨done, fun other => (sent other).trans ?_⟩
    show other ∈ s.sent.filter (· ≠ id) ∧ other ∉ rest ↔ _
    rw [mem_without, mem_cons, not_or, and_assoc]

theorem Kept.resendAll (kept : s.Kept held limit now) : s.resendAll.Kept held limit now := by
  obtain ⟨done, sent⟩ := resend_loop s.unsent.head? s.sent kept
    (nodup_append.mp kept.books.nodup).2.1 fun _ mem => mem
  have same := outline_resendAll s
  unfold KvpsyncSend.resendAll at same ⊢
  dsimp only at same ⊢
  generalize s.sent.foldl _ s = next at done sent same ⊢
  have none : next.sent = [] :=
    eq_nil_iff_forall_not_mem.mpr fun id mem => ((sent id).mp mem).2 ((sent id).mp mem).1
  have idle : next.inflight = 0 := by rw [done.books.count, none]; rfl
  refine kept.of_outline { done.books with limit := Nat.le_refl 1, fatal := ?_ } same
    ⟨done.ordered.order, done.ordered.past⟩
  show (next.fatal || decide (next.inflight ≠ 0)) = false
  rw [done.books.fatal, idle]
  rfl

theorem Books.faultDetected (books : s.Books held) (id now : Nat) :
    (s.faultDetected id now).Books held := by
  unfold KvpsyncSend.faultDetected
  split
  · exact books
  · split
    · exact books
    · exact { books with limit := Nat.le_max_right _ _ }

theorem sent_faultDetected (s : KvpsyncSend) (id now : Nat) :
    (s.faultDetected id now).sent = s.sent ∧ (s.faultDetected id now).data = s.data := by
  unfold faultDetected
  split
  · exact ⟨rfl, rfl⟩
  · split
    · exact ⟨rfl, rfl⟩
    · exact ⟨rfl, rfl⟩

variable {list : List Nat}

/-- When the loop is done, the first sent packet is not past its fault time. -/
theorem Kept.faultLoop (kept : s.Kept held limit now) (same : s.sent = list) :
    (faultLoop now list s).Kept held limit now ∧ ∀ id, (KvpsyncSend.faultLoop now list s).sent.head? =
      some id → now < (KvpsyncSend.faultLoop now list s).faultTime id := by
  induction list generalizing s with
  | nil =>
    refine ⟨kept, fun id first => ?_⟩
    unfold KvpsyncSend.faultLoop at first
    rw [same] at first
    cases first
  | cons id rest ih =>
    rw [KvpsyncSend.faultLoop]
    by_cases early : now < s.faultTime id
    · rw [if_pos early]
      refine ⟨kept, fun other first => ?_⟩
      rw [same] at first
      cases first
      exact early
    · rw [if_neg early]
      have mem : id ∈ s.sent := by rw [same]; exact mem_cons_self
      have nodup := (nodup_append.mp kept.books.nodup).2.1
      rw [same] at nodup
      have left : (s.dataRemove id).sent = rest := by
        show s.sent.filter (· ≠ id) = rest
        rw [same, filter_cons, if_neg (by simp)]
        exact filter_outside (nodup_cons.mp nodup).1
      have relisted := kept.relist (.inr mem) (@perm_append_comm _ (s.dataRemove id).unsent [id])
      dsimp only
      generalize again : ({ s.dataRemove id with unsent := (s.dataRemove id).unsent ++ [id] } :
        KvpsyncSend) = next at relisted ⊢
      have sent : next.sent = rest := by rw [← again]; exact left
      obtain ⟨sentSame, dataSame⟩ := sent_faultDetected next id now
      refine ih (relisted.of_outline (relisted.books.faultDetected id now)
        (outline_faultDetected next id now) ?_) (sentSame.trans sent)
      refine relisted.ordered.sublist (by rw [sentSame]) fun other _ => ?_
      rw [dataSame]

/-! ### Packets that go out -/

/-- Only the expiry time changes, and it stays within `MIN_RESPONSE`. -/
theorem calculateOkExpiry_same (s : KvpsyncSend) (now : Nat) : ∃ okExpiry lastExtendOk,
    (s.calculateOkExpiry now).2 = { s with okExpiry := okExpiry, lastExtendOk := lastExtendOk } ∧
      (s.okExpiry ≤ now + minResponse → okExpiry ≤ now + minResponse) := by
  unfold calculateOkExpiry
  dsimp only
  split
  · exact ⟨s.okExpiry, s.lastExtendOk, rfl, fun bound => bound⟩
  · generalize base : (if s.lastRecv > s.lastExtendOk then now + minResponse else s.okExpiry) = grant
    have granted : s.okExpiry ≤ now + minResponse → grant ≤ now + minResponse := by
      intro bound
      rw [← base]
      split
      · exact le_rfl
      · exact bound
    have extended : ∀ least, least ≤ grant → ∃ expiry extend, (if least > s.okExpiry then
        (least, { s with okExpiry := least, lastExtendOk := now }) else (least, s)).2 =
          { s with okExpiry := expiry, lastExtendOk := extend } ∧
            (s.okExpiry ≤ now + minResponse → expiry ≤ now + minResponse) := by
      intro least le
      split
      · exact ⟨least, now, rfl, fun bound => Nat.le_trans le (granted bound)⟩
      · exact ⟨s.okExpiry, s.lastExtendOk, rfl, fun bound => bound⟩
    cases s.oldest.head? with
    | none => exact extended grant (le_rfl)
    | some oldest => exact extended _ (Nat.min_le_right _ _)

/-- `data_send` up to the expiry time of the packet. -/
def linkSent (s : KvpsyncSend) (id now : Nat) : KvpsyncSend :=
  { s.dataRemove id with
    sent := (s.dataRemove id).sent ++ [id], inflight := (s.dataRemove id).inflight + 1 }.modify id
      fun data => { data with
        sentTime := now
        inflight := true
        inflightAtSend := (s.dataRemove id).inflight + 1
        congestValidity := s.congestValidity }

theorem dataSend_eq (s : KvpsyncSend) (id now : Nat) :
    s.dataSend id now = ((s.linkSent id now).calculateOkExpiry now).2.modify id fun data =>
      { data with update :=
        { data.update with okExpiry := ((s.linkSent id now).calculateOkExpiry now).1 } } := rfl

theorem sentTime_dataSend (s : KvpsyncSend) (id now other : Nat) :
    ((s.dataSend id now).data other).sentTime =
      if other = id then now else (s.data other).sentTime := by
  obtain ⟨okExpiry, lastExtendOk, same, -⟩ := calculateOkExpiry_same (s.linkSent id now) now
  have before : ((s.linkSent id now).data other).sentTime =
      if other = id then now else (s.data other).sentTime := by
    unfold linkSent
    by_cases itself : other = id
    · rw [itself, modify_self, if_pos rfl]
    · rw [modify_other _ _ itself, if_neg itself]
      exact sentTime_dataRemove s id other
  rw [dataSend_eq, same, ← before]
  by_cases itself : other = id
  · rw [itself, modify_self]
  · rw [modify_other _ _ itself]

theorem lists_dataSend (s : KvpsyncSend) (id now : Nat) :
    (s.dataSend id now).sent = s.sent.filter (· ≠ id) ++ [id] ∧
      (s.dataSend id now).unsent = s.unsent.filter (· ≠ id) := by
  obtain ⟨okExpiry, lastExtendOk, same, -⟩ := calculateOkExpiry_same (s.linkSent id now) now
  rw [dataSend_eq, same]
  exact ⟨rfl, rfl⟩

theorem Books.dataSend (books : s.Books held) (listed : s.Listed id) (now : Nat) :
    (s.dataSend id now).Books held := by
  have unlisted : ¬(s.dataRemove id).Listed id :=
    fun inside => ((listed_dataRemove s id id).mp inside).2 rfl
  have sent : (s.linkSent id now).Books held :=
    (books.dataRemove listed).toSent (books.exist id (.inr listed)) unlisted (fun _ => rfl) fun _ => rfl
  obtain ⟨okExpiry, lastExtendOk, same, -⟩ := calculateOkExpiry_same (s.linkSent id now) now
  rw [dataSend_eq, same]
  refine Books.modify ?_ id ?_ ?_
  · exact { sent with }
  · exact fun _ => rfl
  · exact fun _ => rfl

theorem Kept.dataSend (kept : s.Kept held limit now) (listed : s.Listed id) :
    (s.dataSend id now).Kept held limit now := by
  obtain ⟨sent, -⟩ := lists_dataSend s id now
  refine kept.of_outline (kept.books.dataSend listed now) (outline_dataSend s now listed) ?_
  have before := @Ordered.sublist s (s.dataRemove id) now kept.ordered (sent_dataRemove_sublist s id)
    fun other _ => sentTime_dataRemove s id other
  have others : ∀ other ∈ s.sent.filter (· ≠ id),
      ((s.dataSend id now).data other).sentTime = ((s.dataRemove id).data other).sentTime :=
    fun other mem => by
      rw [sentTime_dataSend, if_neg (mem_without.mp mem).2, sentTime_dataRemove]
  constructor
  · rw [sent, pairwise_append]
    refine ⟨before.order.imp_of_mem fun here there le => ?_, pairwise_singleton _ _, ?_⟩
    · rw [others _ here, others _ there]
      exact le
    · intro other here last there
      rw [mem_singleton.mp there, others other here, sentTime_dataSend, if_pos rfl]
      exact before.past other here
  · intro other mem
    rw [sent, mem_append, mem_singleton] at mem
    rcases mem with mem | rfl
    · rw [others other mem]
      exact before.past other mem
    · rw [sentTime_dataSend, if_pos rfl]

/-! ### Syncs -/

/-- Until the content of the sync is queued, no cached insertion is in a packet list. -/
def Waiting (s : KvpsyncSend) : Prop := s.syncSent = false → ∀ id ∈ s.cache, ¬s.Listed id

theorem listed_queueNew (s : KvpsyncSend) (body : KvpBody) (other : Nat) :
    (s.queueNew body).Listed other ↔ s.Listed other ∨ other = s.fresh := by
  show other ∈ s.unsent ++ [s.fresh] ∨ other ∈ s.sent ↔ (other ∈ s.unsent ∨ other ∈ s.sent) ∨ _
  rw [mem_append, mem_singleton]
  tauto

theorem Waiting.queueNew (waiting : s.Waiting) (books : s.Books held) (body : KvpBody) :
    (s.queueNew body).Waiting := by
  intro early id mem listed
  rcases (listed_queueNew s body id).mp listed with before | rfl
  · exact waiting early id mem before
  · exact Nat.lt_irrefl _ (books.exist _ (.inl mem))

theorem Waiting.shrink (waiting : s.Waiting) (sent : after.syncSent = s.syncSent)
    (cache : ∀ id ∈ after.cache, id ∈ s.cache) (listed : ∀ id, after.Listed id → s.Listed id) :
    after.Waiting := by
  intro early id mem inside
  rw [sent] at early
  exact waiting early id (cache id mem) (listed id inside)

theorem Waiting.of_outline (waiting : s.Waiting) (same : after.outline = s.outline) :
    after.Waiting := by
  have cache : after.cache = s.cache := congrArg Outline.cache same
  refine waiting.shrink (congrArg Outline.syncSent same) (fun id mem => ?_) fun id inside => ?_
  · rwa [cache] at mem
  · exact (iff_of_eq (congrFun (congrArg Outline.listed same) id)).mp inside

theorem still_queueNew (s : KvpsyncSend) (body : KvpBody) (now : Nat) :
    s.Still (s.queueNew body) now := by
  have alloc : s.Still (s.alloc (.new body)) now := by
    refine ⟨⟨le_rfl, id⟩, rfl, Nat.le_succ _, fun other exist => ?_, fun bound => bound⟩
    exact congrArg SendData.deadline (Function.update_of_ne (Nat.ne_of_lt exist) ..)
  exact alloc.trans (still_dataQueue _ _ now)

theorem waiting_of_sent (sent : s.syncSent = true) : s.Waiting :=
  fun early => absurd (early.symm.trans sent) nofun

theorem still_advanceStart (s : KvpsyncSend) (now : Nat) : s.Still s.advanceStart now := by
  unfold advanceStart
  split
  · exact .refl s now
  · dsimp only
    split
    · split
      · exact .refl s now
      · exact { Still.refl s now with }
    · exact { still_queueNew s (.start s.resyncId) now with }

theorem advanceStart_books (kept : s.Kept unheld limit now) (waiting : s.Waiting)
    (room : s.advanceStart.Within limit) :
    s.advanceStart.Kept unheld limit now ∧ s.advanceStart.Waiting := by
  unfold advanceStart at room ⊢
  by_cases done : s.startDone
  · rw [if_pos done]
    exact ⟨kept, waiting⟩
  · rw [if_neg done] at room ⊢
    dsimp only at room ⊢
    by_cases sent : s.startSent
    · rw [if_pos sent]
      split
      · exact ⟨kept, waiting⟩
      · exact ⟨⟨{ kept.books with }, { kept.numbered with }, { kept.ordered with }, kept.fits⟩, waiting⟩
    · rw [if_neg sent] at room ⊢
      rw [if_pos rfl] at room ⊢
      have queued := kept.queueNew (.start s.resyncId) rfl (room.before ⟨le_rfl, id⟩)
      exact ⟨⟨{ queued.books with }, { queued.numbered with }, { queued.ordered with }, queued.fits⟩,
        waiting.queueNew kept.books (.start s.resyncId)⟩

theorem Kept.upref (kept : s.Kept held limit now) (id : Nat) :
    (s.modify id fun data => { data with nrefs := data.nrefs + 1 }).Kept (hold held id) limit now := by
  refine ⟨kept.books.upref id,
    kept.numbered.of_outline (outline_modify s id (fun _ => rfl) fun _ => rfl), ?_,
    kept.fits.of_outline (outline_modify s id (fun _ => rfl) fun _ => rfl)⟩
  refine kept.ordered.sublist (List.Sublist.refl _) fun other _ => ?_
  by_cases itself : other = id
  · rw [itself, modify_self]
  · rw [modify_other _ _ itself]

theorem queueInsert_step (kept : s.Kept unheld limit now) (mem : id ∈ s.cache)
    (unlisted : ¬s.Listed id)
    (room : (KvpsyncSend.dataQueue ({ s with fatal := s.fatal || (s.data id).nrefs ≠ 1 }.modify id
      fun data => { data with nrefs := data.nrefs + 1 }) id).Within limit) :
    (KvpsyncSend.dataQueue ({ s with fatal := s.fatal || (s.data id).nrefs ≠ 1 }.modify id
      fun data => { data with nrefs := data.nrefs + 1 }) id).Kept unheld limit now := by
  have one : (s.data id).nrefs = 1 := by
    rw [kept.books.refs id (kept.books.exist id (.inl mem))]
    unfold unheld owners
    rw [if_pos mem, if_neg unlisted]
  have single : (s.fatal || decide ((s.data id).nrefs ≠ 1)) = s.fatal := by
    rw [one]
    exact Bool.or_false _
  rw [single] at room ⊢
  exact (kept.upref id).queue (kept.books.exist id (.inl mem)) unlisted room

theorem still_queueAllInserts (s : KvpsyncSend) (elems : List Nat) (now : Nat) :
    s.Still (s.queueAllInserts elems) now := by
  unfold queueAllInserts
  induction elems generalizing s with
  | nil => exact .refl s now
  | cons id rest ih =>
    refine Still.trans ?_ (ih _)
    have checked : s.Still ({ s with fatal := s.fatal || (s.data id).nrefs ≠ 1 }.modify id
        fun data => { data with nrefs := data.nrefs + 1 }) now := by
      refine ⟨⟨le_rfl, fun fine => (Bool.or_eq_false_iff.mp fine).1⟩, rfl, le_rfl,
        fun other _ => ?_, fun bound => bound⟩
      refine deadline_modify _ id other ?_
      exact fun _ => rfl
    exact checked.trans (still_dataQueue _ id now)

theorem queueAllInserts_books (elems : List Nat) (kept : s.Kept unheld limit now)
    (inside : ∀ id ∈ elems, id ∈ s.cache) (apart : ∀ id ∈ elems, ¬s.Listed id) (nodup : elems.Nodup)
    (room : (s.queueAllInserts elems).Within limit) :
    (s.queueAllInserts elems).Kept unheld limit now := by
  induction elems generalizing s with
  | nil => exact kept
  | cons id rest ih =>
    obtain ⟨outside, nodup⟩ := nodup_cons.mp nodup
    have first := queueInsert_step kept (inside id mem_cons_self) (apart id mem_cons_self)
      (room.before (still_queueAllInserts _ rest now).toGrows)
    refine ih first ?_ ?_ nodup room
    · exact fun other mem => inside other (.tail _ mem)
    · intro other mem listed
      have before : s.Listed other ∨ other = id := by
        rcases listed with listed | listed
        · rcases mem_append.mp listed with listed | listed
          · exact .inl (.inl listed)
          · exact .inr (mem_singleton.mp listed)
        · exact .inl (.inr listed)
      rcases before with before | rfl
      · exact apart other (.tail _ mem) before
      · exact outside mem

theorem still_advanceContent (s : KvpsyncSend) (walk : HashWalk) (now : Nat) :
    s.Still (s.advanceContent walk) now := by
  have queued := still_queueAllInserts s (walk.order s.cache) now
  unfold advanceContent
  split
  · exact .refl s now
  · dsimp only
    split
    · split
      · exact .refl s now
      · exact { Still.refl s now with }
    · split
      · exact { queued with }
      · exact { queued with }

theorem advanceContent_books (kept : s.Kept unheld limit now) (waiting : s.Waiting) (walk : HashWalk)
    (room : (s.advanceContent walk).Within limit) :
    (s.advanceContent walk).Kept unheld limit now ∧ (s.advanceContent walk).Waiting := by
  unfold advanceContent at room ⊢
  by_cases done : s.syncDone
  · rw [if_pos done]
    exact ⟨kept, waiting⟩
  · rw [if_neg done] at room ⊢
    dsimp only at room ⊢
    by_cases sent : s.syncSent
    · rw [if_pos sent]
      split
      · exact ⟨kept, waiting⟩
      · exact ⟨⟨{ kept.books with }, { kept.numbered with }, { kept.ordered with }, kept.fits⟩, waiting⟩
    · rw [if_neg sent] at room ⊢
      have perm := walk.perm s.cache
      have within : (s.queueAllInserts (walk.order s.cache)).Within limit := by
        split at room
        · exact room.before ⟨le_rfl, id⟩
        · exact room.before ⟨le_rfl, id⟩
      have queued := queueAllInserts_books (walk.order s.cache) kept
        (fun id mem => perm.mem_iff.mp mem)
        (fun id mem => waiting (Bool.eq_false_iff.mpr sent) id (perm.mem_iff.mp mem))
        (perm.nodup_iff.mpr kept.books.cached) within
      split
      · exact ⟨⟨{ queued.books with }, { queued.numbered with }, { queued.ordered with }, queued.fits⟩,
          waiting_of_sent rfl⟩
      · exact ⟨⟨{ queued.books with }, { queued.numbered with }, { queued.ordered with }, queued.fits⟩,
          waiting_of_sent rfl⟩

theorem still_calculateOkExpiry (s : KvpsyncSend) (now : Nat) :
    s.Still (s.calculateOkExpiry now).2 now := by
  obtain ⟨okExpiry, lastExtendOk, same, bounded⟩ := calculateOkExpiry_same s now
  rw [same]
  exact ⟨⟨le_rfl, id⟩, rfl, le_rfl, fun _ _ => rfl, bounded⟩

theorem still_advanceState (s : KvpsyncSend) (now : Nat) (walk : HashWalk) :
    s.Still (s.advanceState now walk) now := by
  unfold advanceState
  split
  · exact .refl s now
  · dsimp only
    have started := still_advanceStart s now
    have content := started.trans (still_advanceContent s.advanceStart walk now)
    split
    · exact started
    · split
      · exact content
      · have healthy : s.Still { s.advanceStart.advanceContent walk with recvOk := true } now :=
          { content with }
        have flushed := (healthy.trans (still_calculateOkExpiry _ now)).trans (still_queueNew _ .flush now)
        exact { flushed with }

theorem advanceState_books (kept : s.Kept unheld limit now) (waiting : s.Waiting) (walk : HashWalk)
    (room : (s.advanceState now walk).Within limit) :
    (s.advanceState now walk).Kept unheld limit now ∧ (s.advanceState now walk).Waiting := by
  unfold advanceState at room ⊢
  by_cases synced : s.synced
  · rw [if_pos synced]
    exact ⟨kept, waiting⟩
  · rw [if_neg synced] at room ⊢
    dsimp only at room ⊢
    have start := @advanceStart_books s now limit kept waiting
    generalize s.advanceStart = started at room start ⊢
    by_cases begun : (!started.startDone) = true
    · rw [if_pos begun] at room ⊢
      exact start room
    · rw [if_neg begun] at room ⊢
      have content := fun (inside : started.Within limit) =>
        @advanceContent_books started now limit (start inside).1 (start inside).2 walk
      have grown := (still_advanceContent started walk now).toGrows
      generalize started.advanceContent walk = filled at room content grown ⊢
      by_cases done : (!filled.syncDone) = true
      · rw [if_pos done] at room ⊢
        exact content (room.before grown) room
      · rw [if_neg done] at room ⊢
        obtain ⟨okExpiry, lastExtendOk, same, -⟩ := calculateOkExpiry_same { filled with recvOk := true } now
        rw [same] at room ⊢
        have flushed : (KvpsyncSend.queueNew { filled with
            recvOk := true, okExpiry := okExpiry, lastExtendOk := lastExtendOk } .flush).Within limit :=
          room.before ⟨le_rfl, id⟩
        have within : filled.Within limit :=
          (flushed.before (still_queueNew _ .flush now).toGrows).before ⟨le_rfl, id⟩
        obtain ⟨kept, waiting⟩ := content (within.before grown) within
        have ready : KvpsyncSend.Kept { filled with
            recvOk := true, okExpiry := okExpiry, lastExtendOk := lastExtendOk } unheld limit now :=
          ⟨{ kept.books with }, { kept.numbered with }, { kept.ordered with }, kept.fits⟩
        have queued := ready.queueNew .flush rfl flushed
        have still := Waiting.queueNew (@Waiting.of_outline filled { filled with
          recvOk := true, okExpiry := okExpiry, lastExtendOk := lastExtendOk } waiting rfl)
          ready.books .flush
        exact ⟨⟨{ queued.books with }, { queued.numbered with }, { queued.ordered with }, queued.fits⟩,
          still⟩

/-! ### Runs -/

/-- Whether the receiver is known to be fine, and until when. -/
def health (s : KvpsyncSend) : Bool × Nat := (s.recvOk, s.okExpiry)

theorem health_resendAll (s : KvpsyncSend) : s.resendAll.health = s.health := by
  have loop : ∀ (first : Option Nat) (list : List Nat) (start : KvpsyncSend),
      (list.foldl (fun s id => { s.dataRemove id with
        unsent := linkBefore first id (s.dataRemove id).unsent }) start).health = start.health := by
    intro first list
    induction list with
    | nil => exact fun _ => rfl
    | cons id rest ih => exact fun start => ih _
  exact loop s.unsent.head? s.sent s

theorem health_faultDetected (s : KvpsyncSend) (id now : Nat) :
    (s.faultDetected id now).health = s.health := by
  unfold faultDetected
  split
  · rfl
  · split
    · rfl
    · rfl

theorem health_faultLoop (now : Nat) (list : List Nat) (s : KvpsyncSend) :
    (KvpsyncSend.faultLoop now list s).health = s.health := by
  induction list generalizing s with
  | nil => rfl
  | cons id rest ih =>
    rw [KvpsyncSend.faultLoop]
    split
    · rfl
    · exact (ih _).trans (health_faultDetected _ id now)

theorem still_relist (s : KvpsyncSend) (id : Nat) (unsent : List Nat) (now : Nat) :
    s.Still { s.dataRemove id with unsent := unsent } now :=
  ⟨⟨le_rfl, fun fine => (Bool.or_eq_false_iff.mp fine).1⟩, rfl, le_rfl,
    fun other _ => deadline_dataRemove s id other, fun bound => bound⟩

theorem still_resendAll (s : KvpsyncSend) (now : Nat) : s.Still s.resendAll now := by
  have loop : ∀ (first : Option Nat) (list : List Nat) (start : KvpsyncSend),
      start.Still (list.foldl (fun s id => { s.dataRemove id with
        unsent := linkBefore first id (s.dataRemove id).unsent }) start) now := by
    intro first list
    induction list with
    | nil => exact fun start => .refl start now
    | cons id rest ih =>
      exact fun start => (still_relist start id _ now).trans (ih _)
  have looped := loop s.unsent.head? s.sent s
  exact { looped with fatal := fun fine => looped.fatal (Bool.or_eq_false_iff.mp fine).1 }

theorem still_faultDetected (s : KvpsyncSend) (id now : Nat) : s.Still (s.faultDetected id now) now := by
  unfold faultDetected
  split
  · exact .refl s now
  · split
    · exact .refl s now
    · exact { Still.refl s now with }

theorem still_faultLoop (now : Nat) (list : List Nat) (s : KvpsyncSend) :
    s.Still (KvpsyncSend.faultLoop now list s) now := by
  induction list generalizing s with
  | nil => exact .refl s now
  | cons id rest ih =>
    rw [KvpsyncSend.faultLoop]
    split
    · exact .refl s now
    · exact ((still_relist s id _ now).trans (still_faultDetected _ id now)).trans (ih _)

theorem still_prepare (s : KvpsyncSend) (now : Nat) (walk : HashWalk) :
    (s.advanceState now walk).Still (s.prepare now walk) now := by
  unfold prepare
  dsimp only
  generalize s.advanceState now walk = advanced
  obtain ⟨lapsed, same, still⟩ : ∃ lapsed : KvpsyncSend,
      lapsed = (if advanced.recvOk && decide (advanced.okExpiry ≤ now) then
        { advanced with recvOk := false } else advanced) ∧ advanced.Still lapsed now := by
    refine ⟨_, rfl, ?_⟩
    split
    · exact { Still.refl advanced now with }
    · exact .refl advanced now
  rw [← same]
  cases lapsed.sent.head? with
  | none => exact still.trans (still_faultLoop now _ lapsed)
  | some id =>
    dsimp only
    split
    · exact (still.trans (still_resendAll lapsed now)).trans (still_faultLoop now _ _)
    · exact still.trans (still_faultLoop now _ lapsed)

theorem still_linkSent (s : KvpsyncSend) (id now : Nat) : s.Still (s.linkSent id now) now := by
  refine ⟨⟨le_rfl, fun fine => (Bool.or_eq_false_iff.mp fine).1⟩, rfl, le_rfl,
    fun other _ => ?_, fun bound => bound⟩
  refine (deadline_modify _ id other ?_).trans (deadline_dataRemove s id other)
  exact fun _ => rfl

theorem still_dataSend (s : KvpsyncSend) (id now : Nat) : s.Still (s.dataSend id now) now := by
  refine ((still_linkSent s id now).trans (still_calculateOkExpiry _ now)).trans ?_
  rw [dataSend_eq]
  refine ⟨⟨le_rfl, fun fine => fine⟩, rfl, le_rfl, fun other _ => ?_, fun bound => bound⟩
  refine deadline_modify _ id other ?_
  exact fun _ => rfl

/-- What the choice of a packet starts from. -/
structure Prepared (s : KvpsyncSend) (limit : Option Nat) (now : Nat) : Prop where
  kept : s.Kept unheld limit now
  waiting : s.Waiting
  healthy : s.recvOk = true → now < s.okExpiry
  faultless : ∀ first, s.sent.head? = some first → now < s.faultTime first

theorem prepare_books (kept : s.Kept unheld limit now) (waiting : s.Waiting) (walk : HashWalk)
    (room : (s.prepare now walk).Within limit) : (s.prepare now walk).Prepared limit now := by
  have advanced := advanceState_books kept waiting walk (room.before (still_prepare s now walk).toGrows)
  clear room
  unfold prepare
  dsimp only
  generalize s.advanceState now walk = next at advanced ⊢
  obtain ⟨kept, waiting⟩ := advanced
  -- the receiver that was not heard for too long
  obtain ⟨lapsed, same, keptLapsed, waitingLapsed, healthy⟩ : ∃ lapsed : KvpsyncSend,
      lapsed = (if next.recvOk && decide (next.okExpiry ≤ now) then { next with recvOk := false }
        else next) ∧
      lapsed.Kept unheld limit now ∧ lapsed.Waiting ∧ (lapsed.recvOk = true → now < lapsed.okExpiry) := by
    refine ⟨_, rfl, ?_⟩
    split
    · exact ⟨⟨{ kept.books with }, { kept.numbered with }, { kept.ordered with }, kept.fits⟩,
        waiting.of_outline rfl, nofun⟩
    · next fine =>
      refine ⟨kept, waiting, fun ok => ?_⟩
      rw [ok, Bool.true_and, decide_eq_true_eq] at fine
      exact Nat.lt_of_not_le fine
  rw [← same]
  have rest : ∀ resent : KvpsyncSend, resent.Kept unheld limit now → resent.outline = lapsed.outline →
      resent.health = lapsed.health → (KvpsyncSend.faultLoop now resent.sent resent).Prepared limit now := by
    intro resent keptResent outline health
    obtain ⟨done, faultless⟩ := keptResent.faultLoop rfl
    have still := (health_faultLoop now resent.sent resent).trans health
    refine ⟨done, waitingLapsed.of_outline ?_, fun ok => ?_, faultless⟩
    · exact (outline_faultLoop now resent.sent resent fun id mem => .inr mem).trans outline
    · have expiry : (KvpsyncSend.faultLoop now resent.sent resent).okExpiry = lapsed.okExpiry :=
        congrArg Prod.snd still
      rw [expiry]
      exact healthy ((congrArg Prod.fst still).symm.trans ok)
  cases lapsed.sent.head? with
  | none => exact rest lapsed keptLapsed rfl rfl
  | some id =>
    dsimp only
    split
    · exact rest lapsed.resendAll keptLapsed.resendAll (outline_resendAll lapsed) (health_resendAll lapsed)
    · exact rest lapsed keptLapsed rfl rfl

theorem lt_adjustDeadline {deadline : Nat} (healthy : s.recvOk = true → now < s.okExpiry)
    (early : now < deadline) : now < s.adjustDeadline deadline := by
  unfold adjustDeadline
  split
  · next late =>
    rw [Bool.and_eq_true] at late
    exact healthy late.1
  · exact early

theorem runBody_books (kept : s.Kept unheld limit now) (waiting : s.Waiting) (walk : HashWalk)
    (room : (s.runBody now walk).1.Within limit) :
    (s.runBody now walk).1.Kept unheld limit now ∧ (s.runBody now walk).1.Waiting ∧
      ((s.runBody now walk).2.pkt = none → now < (s.runBody now walk).2.deadline) := by
  have prepared := @prepare_books s now limit kept waiting walk
  unfold runBody at room ⊢
  dsimp only at room ⊢
  generalize s.prepare now walk = ready at prepared room ⊢
  cases first : (if ready.inflightIsFull then none else ready.unsent.head?) with
  | some id =>
    rw [first] at room
    dsimp only at room ⊢
    have mem : id ∈ ready.unsent := by
      split at first
      · cases first
      · exact mem_of_mem_head? first
    have same := outline_dataSend ready now (.inl mem)
    have before := prepared (room.before (still_dataSend ready id now).toGrows)
    exact ⟨before.kept.dataSend (.inl mem), before.waiting.of_outline same, by rintro ⟨⟩⟩
  | none =>
    rw [first] at room
    dsimp only at room ⊢
    cases head : ready.sent.head? with
    | some other =>
      rw [head] at room
      have before := prepared room
      exact ⟨before.kept, before.waiting,
        fun _ => lt_adjustDeadline before.healthy (before.faultless other head)⟩
    | none =>
      rw [head] at room
      dsimp only at room ⊢
      by_cases calm : now + 3 * second < ready.okExpiry
      · rw [if_pos calm] at room ⊢
        have before := prepared room
        exact ⟨before.kept, before.waiting,
          fun _ => lt_adjustDeadline before.healthy (Nat.lt_sub_of_add_lt calm)⟩
      · rw [if_neg calm] at room ⊢
        have sent : ∃ id, (KvpsyncSend.queueEmpty { ready with recvOk := true }).unsent.head? =
            some id := by
          show ∃ id, (ready.unsent ++ [ready.fresh]).head? = some id
          cases ready.unsent with
          | nil => exact ⟨_, rfl⟩
          | cons id rest => exact ⟨id, rfl⟩
        obtain ⟨id, front⟩ := sent
        rw [front] at room ⊢
        dsimp only at room ⊢
        have mem := mem_of_mem_head? front
        have same := outline_dataSend _ now (.inl mem)
        have queuedWithin : (KvpsyncSend.queueNew { ready with recvOk := true } .empty).Within limit :=
          room.before (still_dataSend _ id now).toGrows
        have before := prepared
          ((queuedWithin.before (still_queueNew _ .empty now).toGrows).before ⟨le_rfl, fun fine => fine⟩)
        have alive : KvpsyncSend.Kept { ready with recvOk := true } unheld limit now :=
          before.kept.of_outline { before.kept.books with } rfl { before.kept.ordered with }
        have queued := alive.queueNew .empty rfl queuedWithin
        have waits := Waiting.queueNew (@Waiting.of_outline ready { ready with recvOk := true }
          before.waiting rfl) alive.books .empty
        exact ⟨queued.dataSend (.inl mem), waits.of_outline same, by rintro ⟨⟩⟩

/-! ### Acks -/

theorem lists_dataDownref (s : KvpsyncSend) (id : Nat) :
    (s.dataDownref id).unsent = s.unsent ∧ (s.dataDownref id).sent = s.sent := by
  unfold KvpsyncSend.dataDownref
  dsimp only
  split
  · exact ⟨rfl, rfl⟩
  · exact ⟨rfl, rfl⟩

theorem Books.emptyList (list : List Nat) (books : s.Books held) (nodup : list.Nodup)
    (listed : ∀ id ∈ list, s.Listed id) : (s.emptyList list).Books held := by
  unfold KvpsyncSend.emptyList
  induction list generalizing s with
  | nil => exact books
  | cons id rest ih =>
    obtain ⟨outside, nodup⟩ := nodup_cons.mp nodup
    refine ih (books.dataRemove (listed id mem_cons_self)).dataDownref nodup fun other mem => ?_
    obtain ⟨unsent, sent⟩ := lists_dataDownref (s.dataRemove id) id
    unfold Listed
    rw [unsent, sent]
    exact (listed_dataRemove s id other).mpr ⟨listed other (.tail _ mem),
      fun itself => outside (itself ▸ mem)⟩

theorem Books.dropData (books : s.Books held) :
    s.dropData.Books held ∧ s.dropData.unsent = [] ∧ s.dropData.sent = [] := by
  unfold KvpsyncSend.dropData
  dsimp only
  have nodup := nodup_append.mp books.nodup
  have first : (KvpsyncSend.emptyList { s with unacked := [] } s.unsent).Books held :=
    Books.emptyList s.unsent { books with } nodup.1 fun _ mem => .inl mem
  obtain ⟨-, unsent, sent⟩ := outline_emptyList { s with unacked := [] } s.unsent
  generalize KvpsyncSend.emptyList { s with unacked := [] } s.unsent = next at first unsent sent ⊢
  obtain ⟨-, unsent', sent'⟩ := outline_emptyList next next.sent
  refine ⟨first.emptyList next.sent (nodup_append.mp first.nodup).2.1 fun _ => .inr, ?_, ?_⟩
  · refine eq_nil_iff_forall_not_mem.mpr fun id mem => ?_
    have before := (unsent id).mp ((unsent' id).mp mem).1
    exact before.2 before.1
  · refine eq_nil_iff_forall_not_mem.mpr fun id mem => ?_
    exact ((sent' id).mp mem).2 ((sent' id).mp mem).1

theorem resync_books (books : s.Books unheld) (fits : s.Fits limit) (resyncId now : Nat) :
    (s.resync resyncId).Kept unheld limit now ∧ (s.resync resyncId).Waiting := by
  have start : Books { s with
      resyncId := resyncId, syncId := nextSyncId s.syncId, updateId := 0, recvOk := false,
      lastExtendOk := 0 } unheld := { books with }
  obtain ⟨dropped, unsent, sent⟩ := start.dropData
  have outline := outline_resync s resyncId
  have listed : ∀ id, ¬(s.resync resyncId).Listed id := fun id inside =>
    (iff_of_eq (congrFun (congrArg Outline.listed outline) id)).mp inside
  have unacked : (s.resync resyncId).unacked = [] := congrArg Outline.unacked outline
  have none : (s.resync resyncId).sent = [] := sent
  refine ⟨⟨?_, ⟨fun id => ?_, ?_, fun id mem => ?_⟩, ⟨?_, fun id mem => ?_⟩, ?_⟩,
    fun _ id _ => listed id⟩
  · refine { dropped with count := ?_ }
    rw [none]
    rfl
  · rw [unacked]
    exact iff_of_false not_mem_nil (listed id)
  · rw [unacked]
    exact nodup_nil
  · rw [unacked] at mem
    exact nomatch mem
  · rw [none]
    exact List.Pairwise.nil
  · rw [none] at mem
    exact nomatch mem
  · cases limit with
    | none => trivial
    | some limit =>
      refine ⟨fun id mem => ?_, ?_⟩
      · rw [unacked] at mem
        exact nomatch mem
      · rw [show (s.resync resyncId).made = s.made from congrArg Outline.made outline,
          show (s.resync resyncId).updateId = 0 from congrArg Outline.updateId outline]
        have left := fits.2
        omega

theorem Books.successfulPacket (books : s.Books held) (id : Nat) :
    (s.successfulPacket id).Books held := by
  unfold KvpsyncSend.successfulPacket
  split
  · exact books
  · split
    · exact books
    · exact { books with limit := Nat.succ_le_of_lt (Nat.succ_pos _) }

theorem Books.runCb (books : s.Books held) (id : Nat) : (s.runCb id).Books held := by
  unfold KvpsyncSend.runCb
  split
  · exact books
  · refine Books.modify ?_ id (fun _ => rfl) fun _ => rfl
    exact { books with }

/-- An ack leaves the times at which the other packets were sent. -/
theorem sent_handleAckOf (s : KvpsyncSend) (id : Nat) :
    (s.handleAckOf id).sent = s.sent.filter (· ≠ id) ∧
      ∀ other, ((s.handleAckOf id).data other).sentTime = (s.data other).sentTime := by
  have successful : ∀ next : KvpsyncSend, (next.successfulPacket id).sent = next.sent ∧
      (next.successfulPacket id).data = next.data := by
    intro next
    unfold KvpsyncSend.successfulPacket
    split
    · exact ⟨rfl, rfl⟩
    · split
      · exact ⟨rfl, rfl⟩
      · exact ⟨rfl, rfl⟩
  have called : ∀ next : KvpsyncSend, (next.runCb id).sent = next.sent ∧
      ∀ other, ((next.runCb id).data other).sentTime = (next.data other).sentTime := by
    intro next
    unfold KvpsyncSend.runCb
    split
    · exact ⟨rfl, fun _ => rfl⟩
    · refine ⟨rfl, fun other => ?_⟩
      by_cases itself : other = id
      · rw [itself, modify_self]
      · rw [modify_other _ _ itself]
  unfold handleAckOf
  dsimp only
  generalize start : KvpsyncSend.dataRemove _ id = removed
  have before : removed.sent = s.sent.filter (· ≠ id) ∧
      ∀ other, (removed.data other).sentTime = (s.data other).sentTime := by
    rw [← start]
    exact ⟨rfl, fun other => sentTime_dataRemove _ id other⟩
  have unblocked : ∀ next : KvpsyncSend, next.sent = removed.sent → next.data = removed.data →
      (((next.successfulPacket id).runCb id).dataDownref id).sent = s.sent.filter (· ≠ id) ∧
        ∀ other, ((((next.successfulPacket id).runCb id).dataDownref id).data other).sentTime =
          (s.data other).sentTime := by
    intro next sent data
    constructor
    · rw [(lists_dataDownref _ id).2, (called _).1, (successful next).1, sent]
      exact before.1
    · intro other
      rw [data_dataDownref]
      show (((next.successfulPacket id).runCb id).data other).sentTime = _
      rw [(called _).2, (successful next).2, data]
      exact before.2 other
  split
  · exact unblocked _ rfl rfl
  · exact unblocked _ rfl rfl

theorem Books.handleAckOf (books : s.Books unheld) (listed : s.Listed id) :
    (s.handleAckOf id).Books unheld := by
  unfold KvpsyncSend.handleAckOf
  dsimp only
  have start : Books { s with
      unacked := s.unacked.filter (· ≠ id), acked := s.acked ++ [(s.data id).update.core] } unheld :=
    { books with }
  have removed := @Books.dataRemove _ _ id start listed
  generalize KvpsyncSend.dataRemove _ id = next at removed ⊢
  refine (Books.runCb (Books.successfulPacket ?_ id) id).dataDownref
  split
  · exact { removed with }
  · exact removed

theorem handleAckOf_books (kept : s.Kept unheld limit now) (waiting : s.Waiting)
    (mem : id ∈ s.unacked) :
    (s.handleAckOf id).Kept unheld limit now ∧ (s.handleAckOf id).Waiting := by
  have listed := (kept.numbered.same id).mp mem
  have outline := outline_handleAckOf s id
  obtain ⟨sent, times⟩ := sent_handleAckOf s id
  have unacked : (s.handleAckOf id).unacked = s.unacked.filter (· ≠ id) :=
    congrArg Outline.unacked outline
  have left : ∀ other, (s.handleAckOf id).Listed other ↔ s.Listed other ∧ other ≠ id :=
    fun other => iff_of_eq (congrFun (congrArg Outline.listed outline) other)
  have ids : ∀ other, ((s.handleAckOf id).data other).update.updateId =
      (s.data other).update.updateId :=
    fun other => congrArg (fun o : Outline => (o.core other).updateId) outline
  refine ⟨⟨kept.books.handleAckOf listed, ⟨fun other => ?_, ?_,
    fun first here second there same => ?_⟩, ?_, ?_⟩, ?_⟩
  · rw [unacked, mem_without, left, kept.numbered.same]
  · rw [unacked]
    exact kept.numbered.nodup.filter _
  · rw [unacked] at here there
    rw [ids, ids] at same
    exact kept.numbered.distinct first (mem_without.mp here).1 second (mem_without.mp there).1 same
  · refine kept.ordered.sublist ?_ fun other _ => times other
    rw [sent]
    exact filter_sublist
  · have fits := kept.fits
    cases limit with
    | none => trivial
    | some limit =>
      refine ⟨fun other inside => ?_, ?_⟩
      · rw [unacked] at inside
        rw [ids, show (s.handleAckOf id).updateId = s.updateId from congrArg Outline.updateId outline]
        exact fits.1 other (mem_without.mp inside).1
      · rw [show (s.handleAckOf id).updateId = s.updateId from congrArg Outline.updateId outline,
          show (s.handleAckOf id).made = s.made from congrArg Outline.made outline]
        exact fits.2
  · refine waiting.shrink (congrArg Outline.syncSent outline) (fun other inside => ?_) fun other inside =>
      ((left other).mp inside).1
    rwa [show (s.handleAckOf id).cache = s.cache from congrArg Outline.cache outline] at inside

theorem handleAckBody_books {ack : KvpAck} (kept : s.Kept unheld limit now) (waiting : s.Waiting)
    (later : Nat) :
    (s.handleAckBody ack later).Kept unheld limit now ∧ (s.handleAckBody ack later).Waiting := by
  have heard : KvpsyncSend.Kept { s with lastRecv := later } unheld limit now :=
    kept.of_outline { kept.books with } rfl { kept.ordered with }
  have still : KvpsyncSend.Waiting { s with lastRecv := later } := waiting.of_outline rfl
  unfold handleAckBody
  dsimp only
  split
  · split
    · exact ⟨heard, still⟩
    · exact resync_books heard.books heard.fits ack.syncId now
  · split
    · exact ⟨heard, still⟩
    · split
      · exact ⟨heard, still⟩
      · next id found => exact handleAckOf_books heard still (mem_of_find?_eq_some found)

/-! ### Callbacks -/

theorem Kept.maybeStateCb (kept : s.Kept held limit now) : s.maybeStateCb.Kept held limit now := by
  refine kept.of_outline ?_ (outline_maybeStateCb s) ?_
  · unfold KvpsyncSend.maybeStateCb
    split
    · exact kept.books
    · exact { kept.books with }
  · unfold KvpsyncSend.maybeStateCb
    split
    · exact kept.ordered
    · exact { kept.ordered with }

theorem still_maybeStateCb (s : KvpsyncSend) (now : Nat) : s.Still s.maybeStateCb now := by
  unfold KvpsyncSend.maybeStateCb
  split
  · exact .refl s now
  · exact { Still.refl s now with }

/-! ### Keys -/

theorem Kept.dataDownref (kept : s.Kept (hold held id) limit now) :
    (s.dataDownref id).Kept held limit now := by
  have outline := outline_dataDownref s id
  refine kept.of_outline kept.books.dataDownref outline ?_
  refine kept.ordered.sublist ?_ fun other _ => ?_
  · rw [(lists_dataDownref s id).2]
  · rw [data_dataDownref]

theorem grows_dataDownref (s : KvpsyncSend) (id : Nat) : s.Grows (s.dataDownref id) := by
  unfold KvpsyncSend.dataDownref
  dsimp only
  split
  · exact ⟨le_rfl, fun fine => fine⟩
  · exact ⟨le_rfl, fun fine => fine⟩

theorem grows_queueDelete (s : KvpsyncSend) (id : Nat) : s.Grows (s.queueDeleteAndDownref id) := by
  unfold queueDeleteAndDownref
  dsimp only
  split
  · exact (still_queueNew s _ 0).toGrows.trans (grows_dataDownref _ id)
  · exact grows_dataDownref s id

theorem queueDelete_books (kept : s.Kept (hold unheld id) limit now) (waiting : s.Waiting)
    (exist : id < s.fresh) (room : (s.queueDeleteAndDownref id).Within limit) :
    (s.queueDeleteAndDownref id).Kept unheld limit now ∧ (s.queueDeleteAndDownref id).Waiting := by
  have free : hold unheld id s.fresh = 0 := by
    unfold hold unheld
    rw [if_neg (Nat.ne_of_gt exist)]
  unfold queueDeleteAndDownref at room ⊢
  dsimp only at room ⊢
  by_cases sent : (s.syncSent && decide ((s.data id).update.syncId = s.syncId)) = true
  · rw [if_pos sent] at room ⊢
    generalize KvpBody.delete _ _ = body at room ⊢
    refine ⟨(kept.queueNew body free (room.before (grows_dataDownref _ id))).dataDownref, Waiting.of_outline ?_ (outline_dataDownref _ id)⟩
    rw [Bool.and_eq_true] at sent
    exact waiting_of_sent sent.1
  · rw [if_neg sent] at room ⊢
    exact ⟨kept.dataDownref, waiting.of_outline (outline_dataDownref s id)⟩

theorem nodup_replace (nodup : list.Nodup) {old fresh : Nat} (outside : fresh ∉ list) :
    (list.map fun other => if other = old then fresh else other).Nodup := by
  refine nodup.map_on fun first here second there same => ?_
  by_cases one : first = old <;> by_cases two : second = old
  · rw [one, two]
  · rw [if_pos one, if_neg two] at same
    exact absurd (same ▸ there) outside
  · rw [if_neg one, if_pos two] at same
    exact absurd (same ▸ here) outside
  · rw [if_neg one, if_neg two] at same
    exact same

theorem mem_replace {old fresh other : Nat} (mem : old ∈ list) :
    other ∈ list.map (fun other => if other = old then fresh else other) ↔
      other = fresh ∨ other ∈ list ∧ other ≠ old := by
  rw [mem_map]
  constructor
  · rintro ⟨before, inside, rfl⟩
    by_cases itself : before = old
    · rw [if_pos itself]
      exact .inl rfl
    · rw [if_neg itself]
      exact .inr ⟨inside, itself⟩
  · rintro (rfl | ⟨inside, apart⟩)
    · exact ⟨old, mem, if_pos rfl⟩
    · exact ⟨other, inside, if_neg apart⟩

theorem Kept.recache {other : Nat → Nat} (kept : s.Kept held limit now) {cache : List Nat}
    (nodup : cache.Nodup) (exist : ∀ id ∈ cache, id < s.fresh)
    (balanced : ∀ id, id < s.fresh → other id + (if id ∈ cache then 1 else 0) =
      held id + if id ∈ s.cache then 1 else 0) :
    KvpsyncSend.Kept { s with cache := cache } other limit now :=
  ⟨kept.books.recache nodup exist balanced, { kept.numbered with }, { kept.ordered with }, kept.fits⟩

/-- The last part of `kvpsync_send_add_key`: the insertion is queued if the content of the sync is. -/
def queueInsert (s : KvpsyncSend) (id : Nat) : KvpsyncSend :=
  if s.syncSent then (s.modify id fun data => { data with nrefs := data.nrefs + 1 }).dataQueue id
  else s

/-- The first part of `kvpsync_send_add_key`: there is a new insertion, and it is the newest one. -/
def newInsert (s : KvpsyncSend) (now : Nat) (key val : Bytes) (cb : Option Nat) : KvpsyncSend :=
  { s.alloc { SendData.new (.insert key val) with cb := cb, deadline := now + minResponse } with
    oldest := s.oldest ++ [s.fresh]
    fatal := s.fatal || decide (kvpsyncMaxLen < key.length) || decide (kvpsyncMaxLen < val.length) }

theorem addKey_eq (s : KvpsyncSend) (now : Nat) (key val : Bytes) (cb : Option Nat) :
    s.addKey now key val cb = queueInsert (match s.cached key with
        | none => { s.newInsert now key val cb with cache := s.cache ++ [s.fresh] }
        | some old =>
          { s.newInsert now key val cb with
            cache := s.cache.map fun other => if other = old then s.fresh else other
            }.queueDeleteAndDownref old) s.fresh := rfl

theorem queueInsert_books (kept : s.Kept unheld limit now) (waiting : s.Waiting) (exist : id < s.fresh)
    (unlisted : ¬s.Listed id) (room : (s.queueInsert id).Within limit) :
    (s.queueInsert id).Kept unheld limit now ∧ (s.queueInsert id).Waiting := by
  unfold queueInsert at room ⊢
  by_cases sent : s.syncSent
  · rw [if_pos sent] at room ⊢
    exact ⟨(kept.upref id).queue exist unlisted room, waiting_of_sent sent⟩
  · rw [if_neg sent]
    exact ⟨kept, waiting⟩

theorem grows_queueInsert (s : KvpsyncSend) (id : Nat) : s.Grows (s.queueInsert id) := by
  unfold queueInsert
  split
  · have raised : s.Grows (s.modify id fun data => { data with nrefs := data.nrefs + 1 }) :=
      ⟨le_rfl, fun fine => fine⟩
    exact raised.trans (still_dataQueue _ id 0).toGrows
  · exact .refl s

theorem mem_cached {key : Bytes} {old : Nat} (found : s.cached key = some old) : old ∈ s.cache :=
  mem_of_find?_eq_some found

theorem queueDelete_listed {old other : Nat} :
    ((s.queueDeleteAndDownref old).Listed other → s.Listed other ∨ other = s.fresh) ∧
      s.fresh ≤ (s.queueDeleteAndDownref old).fresh := by
  have outline := outline_queueDelete s old
  have listed : (s.queueDeleteAndDownref old).Listed other ↔ (s.outline.queueDelete old).listed other :=
    iff_of_eq (congrFun (congrArg Outline.listed outline) other)
  have fresh : (s.queueDeleteAndDownref old).fresh = (s.outline.queueDelete old).fresh :=
    congrArg Outline.fresh outline
  rw [listed, fresh]
  unfold Outline.queueDelete
  split
  · exact ⟨fun inside => inside, Nat.le_succ _⟩
  · exact ⟨.inl, le_rfl⟩

theorem newInsert_kept {key val : Bytes} {cb : Option Nat} (kept : s.Kept unheld limit now)
    (fine : (s.newInsert later key val cb).fatal = false) :
    (s.newInsert later key val cb).Kept (hold unheld s.fresh) limit now := by
  have allocated := @Kept.alloc s unheld now limit kept { SendData.new (.insert key val) with
    cb := cb, deadline := later + minResponse } rfl rfl rfl
  exact ⟨{ allocated.books with fatal := fine }, { allocated.numbered with },
    { allocated.ordered with }, allocated.fits⟩

theorem newInsert_fine {key val : Bytes} (fine : s.fatal = false) (later : Nat) (cb : Option Nat)
    (short : key.length ≤ kvpsyncMaxLen) (shortVal : val.length ≤ kvpsyncMaxLen) :
    (s.newInsert later key val cb).fatal = false := by
  show (s.fatal || decide (kvpsyncMaxLen < key.length) || decide (kvpsyncMaxLen < val.length)) = false
  rw [fine, decide_eq_false (Nat.not_lt_of_le short), decide_eq_false (Nat.not_lt_of_le shortVal)]
  rfl

theorem grows_addKey (s : KvpsyncSend) (later : Nat) (key val : Bytes) (cb : Option Nat) :
    (s.newInsert later key val cb).Grows (s.addKey later key val cb) := by
  have cached : ∀ cache : List Nat,
      (s.newInsert later key val cb).Grows { s.newInsert later key val cb with cache := cache } :=
    fun _ => ⟨le_rfl, fun fine => fine⟩
  rw [addKey_eq]
  cases s.cached key with
  | none => exact (cached _).trans (grows_queueInsert _ s.fresh)
  | some old => exact ((cached _).trans (grows_queueDelete _ old)).trans (grows_queueInsert _ s.fresh)

theorem addKey_books {key val : Bytes} {cb : Option Nat} (kept : s.Kept unheld limit now)
    (waiting : s.Waiting) (fine : (s.newInsert later key val cb).fatal = false)
    (room : (s.addKey later key val cb).Within limit) :
    (s.addKey later key val cb).Kept unheld limit now ∧ (s.addKey later key val cb).Waiting := by
  have unlisted := kept.not_listed_fresh
  have exist : ∀ id ∈ s.cache, id < s.fresh := fun id mem => kept.books.exist id (.inl mem)
  have uncached : s.fresh ∉ s.cache := fun mem => Nat.lt_irrefl _ (exist s.fresh mem)
  have new := newInsert_kept kept fine
  have newWaiting : ∀ cache : List Nat, (∀ id ∈ cache, id ∈ s.cache ∨ id = s.fresh) →
      KvpsyncSend.Waiting { s.newInsert later key val cb with cache := cache } := by
    intro cache inside early id mem
    rcases inside id mem with before | rfl
    · exact waiting early id before
    · exact unlisted
  rw [addKey_eq] at room ⊢
  cases found : s.cached key with
  | none =>
    rw [found] at room
    dsimp only at room ⊢
    have cached : KvpsyncSend.Kept { s.newInsert later key val cb with cache := s.cache ++ [s.fresh] }
        unheld limit now := by
      refine new.recache ?_ ?_ ?_
      · refine nodup_append.mpr ⟨kept.books.cached, nodup_singleton _, ?_⟩
        rintro id mem _ last rfl
        exact uncached (mem_singleton.mp last ▸ mem)
      · intro id mem
        rcases mem_append.mp mem with mem | last
        · exact Nat.lt_succ_of_lt (exist id mem)
        · exact Nat.lt_succ_of_le (Nat.le_of_eq (mem_singleton.mp last))
      · intro id _
        show unheld id + (if id ∈ s.cache ++ [s.fresh] then 1 else 0) =
          hold unheld s.fresh id + if id ∈ s.cache then 1 else 0
        unfold hold unheld
        by_cases itself : id = s.fresh
        · simp [itself, uncached]
        · simp [itself]
    refine queueInsert_books cached (newWaiting _ fun id mem => ?_) (Nat.lt_succ_self _) unlisted room
    exact (mem_append.mp mem).imp_right mem_singleton.mp
  | some old =>
    rw [found] at room
    dsimp only at room ⊢
    have mem := mem_cached found
    have apart : old ≠ s.fresh := fun itself => uncached (itself ▸ mem)
    have cached : KvpsyncSend.Kept { s.newInsert later key val cb with
        cache := s.cache.map fun other => if other = old then s.fresh else other }
        (hold unheld old) limit now := by
      refine new.recache (nodup_replace kept.books.cached uncached) ?_ ?_
      · intro id inside
        rcases (mem_replace mem).mp inside with rfl | inside
        · exact Nat.lt_succ_self _
        · exact Nat.lt_succ_of_lt (exist id inside.1)
      · intro id _
        show hold unheld old id + (if id ∈ s.cache.map _ then 1 else 0) =
          hold unheld s.fresh id + if id ∈ s.cache then 1 else 0
        unfold hold unheld
        simp only [mem_replace mem]
        by_cases itself : id = s.fresh
        · simp [itself, uncached, apart.symm]
        · by_cases same : id = old
          · simp [same, apart, mem]
          · simp [itself, same]
    have replaced := queueDelete_books cached
      (newWaiting _ fun id inside => ((mem_replace mem).mp inside).symm.imp_left And.left)
      (Nat.lt_succ_of_lt (exist old mem)) (room.before (grows_queueInsert _ s.fresh))
    obtain ⟨listed, more⟩ := @queueDelete_listed { s.newInsert later key val cb with
      cache := s.cache.map fun other => if other = old then s.fresh else other } old s.fresh
    refine queueInsert_books replaced.1 replaced.2 (Nat.lt_of_lt_of_le (Nat.lt_succ_self _) more) ?_ room
    intro inside
    rcases listed inside with before | itself
    · exact unlisted before
    · exact absurd itself (Nat.ne_of_lt (Nat.lt_succ_self s.fresh))

theorem Kept.forget (kept : s.Kept held limit now) (id : Nat) :
    (s.modify id fun data => { data with cb := none }).Kept held limit now := by
  have same : ∀ other, ((s.modify id fun data => { data with cb := none }).data other).update =
      (s.data other).update ∧
        ((s.modify id fun data => { data with cb := none }).data other).sentTime =
          (s.data other).sentTime := by
    intro other
    by_cases itself : other = id
    · rw [itself, modify_self]
      exact ⟨rfl, rfl⟩
    · rw [modify_other _ _ itself]
      exact ⟨rfl, rfl⟩
  refine ⟨kept.books.modify id (fun _ => rfl) fun _ => rfl,
    { kept.numbered with distinct := fun first here second there number => ?_ },
    kept.ordered.sublist (List.Sublist.refl _) fun other _ => (same other).2, ?_⟩
  · rw [(same first).1, (same second).1] at number
    exact kept.numbered.distinct first here second there number
  · have fits := kept.fits
    cases limit with
    | none => trivial
    | some limit =>
      refine ⟨fun other mem => ?_, fits.2⟩
      rw [(same other).1]
      exact fits.1 other mem

theorem deleteKey_books {key : Bytes} (kept : s.Kept unheld limit now) (waiting : s.Waiting)
    (room : (s.deleteKey key).Within limit) :
    (s.deleteKey key).Kept unheld limit now ∧ (s.deleteKey key).Waiting := by
  unfold deleteKey at room ⊢
  cases found : s.cached key with
  | none => exact ⟨kept, waiting⟩
  | some id =>
    rw [found] at room
    dsimp only at room ⊢
    have mem := mem_cached found
    have exist : id < s.fresh := kept.books.exist id (.inl mem)
    have left : KvpsyncSend.Kept { s with cache := s.cache.filter (· ≠ id) } (hold unheld id) limit
        now := by
      refine kept.recache (kept.books.cached.filter _)
        (fun other inside => kept.books.exist other (.inl (mem_without.mp inside).1)) fun other _ => ?_
      simp only [mem_without]
      unfold hold unheld
      by_cases itself : other = id
      · simp [itself, mem]
      · simp [itself]
    have leftWaiting : KvpsyncSend.Waiting { s with cache := s.cache.filter (· ≠ id) } :=
      waiting.shrink rfl (fun other inside => (mem_without.mp inside).1) fun _ inside => inside
    exact queueDelete_books (left.forget id)
      (leftWaiting.shrink rfl (fun _ inside => inside) fun _ inside => inside) exist room

end KvpsyncSend

end Splintermail
