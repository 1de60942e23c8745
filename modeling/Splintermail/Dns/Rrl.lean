/-
This file models the rate limit of the DNS server, `rrl.c`, and proves which calls it
refuses.

A bucket is a byte: a window of five bits, which is the time in seconds up to its upper
bits, and a count of three bits. So a bucket can not tell a window from the one that was 32
seconds before it. What the limit does is told of the calls so far, the last one first: the
streak of a bucket is its calls back to the last one with another stamp.
-/

import Mathlib.Logic.Function.Basic
import Splintermail.Kvpsync.Send

namespace Splintermail

open List

/-- The address of a peer. Of an IPv6 address only the first two words are read. -/
inductive Sockaddr where
  | inet (addr : UInt32)
  | inet6 (first second : UInt32)
  deriving DecidableEq

/-- `hash_uint` -/
def hashUint (ukey : UInt32) : UInt32 :=
  -- Robert Jenkins' 32 bit mix function
  let ukey := ukey + (ukey <<< 12)
  let ukey := ukey ^^^ (ukey >>> 22)
  let ukey := ukey + (ukey <<< 4)
  let ukey := ukey ^^^ (ukey >>> 9)
  let ukey := ukey + (ukey <<< 10)
  let ukey := ukey ^^^ (ukey >>> 2)
  let ukey := ukey + (ukey <<< 7)
  let ukey := ukey ^^^ (ukey >>> 12)
  -- Knuth's multiplicative method
  (ukey >>> 3) * 2654435761

/-- `hash_addr` -/
def Sockaddr.hashAddr : Sockaddr → UInt32
  | .inet addr => hashUint addr
  | .inet6 first second => hashUint first ^^^ hashUint second

/-- `rrl_t` -/
structure Rrl where
  buckets : Nat → UInt8
  nbuckets : Nat

namespace Rrl

/-- `rrl_init` -/
def init (nbuckets : Nat) : Rrl := ⟨fun _ => 0, nbuckets⟩

/-- The bucket of an address. -/
def hash (rrl : Rrl) (sa : Sockaddr) : Nat := sa.hashAddr.toNat % rrl.nbuckets

def set (rrl : Rrl) (hash : Nat) (bucket : UInt8) : Rrl :=
  { rrl with buckets := Function.update rrl.buckets hash bucket }

/-- `rrl_check` -/
def check (rrl : Rrl) (sa : Sockaddr) (now : Nat) : Bool × Rrl :=
  if rrl.nbuckets = 0 then (true, rrl)
  else
    let hash := rrl.hash sa
    let window := UInt8.ofNat ((now / second) &&& 0x1f)
    let bucket := rrl.buckets hash
    let stamp := (bucket >>> 3) &&& 0x1f
    if stamp ≠ window then (true, rrl.set hash (window <<< 3))
    else
      let count := bucket &&& 0x7
      if count = 7 then (false, rrl)
      else (true, rrl.set hash ((window <<< 3) ||| (count + 1)))

end Rrl

/-! ### Calls -/

/-- A call of `rrl_check`, with its time in seconds. -/
structure RrlCall where
  bucket : Nat
  second : Nat
  accepted : Bool
  deriving DecidableEq

/-- The limit, with the calls so far, the last one first. -/
structure RrlHistory where
  rrl : Rrl
  calls : List RrlCall

namespace RrlHistory

def init (nbuckets : Nat) : RrlHistory := ⟨.init nbuckets, []⟩

def step (h : RrlHistory) (call : Sockaddr × Nat) : RrlHistory :=
  ⟨(h.rrl.check call.1 call.2).2,
    ⟨h.rrl.hash call.1, call.2 / second, (h.rrl.check call.1 call.2).1⟩ :: h.calls⟩

/-- The history of a list of calls. -/
def ran (nbuckets : Nat) (events : List (Sockaddr × Nat)) : RrlHistory :=
  events.foldl step (init nbuckets)

/-- The calls of a bucket. -/
def own (h : RrlHistory) (bucket : Nat) : List RrlCall := h.calls.filter (·.bucket = bucket)

/-- The last calls of a bucket, as far as they have the stamp. -/
def streak (h : RrlHistory) (bucket stamp : Nat) : List RrlCall :=
  (h.own bucket).takeWhile (·.second % 32 = stamp)

/-- The calls that were accepted. -/
def accepted (calls : List RrlCall) : Nat := calls.countP (·.accepted)

/-- The stamp is not that of a bucket that was never used. -/
def Marked (h : RrlHistory) (bucket stamp : Nat) : Prop :=
  stamp ≠ 0 ∨ h.streak bucket stamp ≠ h.own bucket

instance (h : RrlHistory) (bucket stamp : Nat) : Decidable (h.Marked bucket stamp) :=
  inferInstanceAs (Decidable (_ ∨ _))

/-- The stamp of the last call. -/
def lastStamp : List RrlCall → Nat
  | [] => 0
  | last :: _ => last.second % 32

/-- The byte of a bucket. -/
def pack (stamp count : Nat) : UInt8 := UInt8.ofNat (8 * stamp + count)

/-- A bucket has the stamp of its last call, and counts the accepted calls of its streak, apart from
the first one. -/
def Counts (h : RrlHistory) (bucket : Nat) : Prop :=
  ∃ count ≤ 7, h.rrl.buckets bucket = pack (lastStamp (h.own bucket)) count ∧
    (h.Marked bucket (lastStamp (h.own bucket)) →
      accepted (h.streak bucket (lastStamp (h.own bucket))) = count + 1) ∧
    (¬h.Marked bucket (lastStamp (h.own bucket)) →
      accepted (h.streak bucket (lastStamp (h.own bucket))) = count)

variable {h : RrlHistory}

/-! ### Bytes -/

section

variable {stamp : Nat} (stampLt : stamp < 32)

include stampLt

theorem pack_stamp {count : Nat} (countLe : count ≤ 7) :
    (pack stamp count >>> 3) &&& 0x1f = UInt8.ofNat stamp := by
  have all : ∀ stamp : Fin 32, ∀ count : Fin 8,
      (pack stamp count >>> 3) &&& 0x1f = UInt8.ofNat stamp := by decide +kernel
  exact all ⟨stamp, stampLt⟩ ⟨count, Nat.lt_succ_of_le countLe⟩

theorem pack_count {count : Nat} (countLe : count ≤ 7) :
    pack stamp count &&& 0x7 = UInt8.ofNat count := by
  have all : ∀ stamp : Fin 32, ∀ count : Fin 8,
      pack stamp count &&& 0x7 = UInt8.ofNat count := by decide +kernel
  exact all ⟨stamp, stampLt⟩ ⟨count, Nat.lt_succ_of_le countLe⟩

theorem pack_next {count : Nat} (countLt : count < 7) :
    (UInt8.ofNat stamp <<< 3) ||| (UInt8.ofNat count + 1) = pack stamp (count + 1) := by
  have all : ∀ stamp : Fin 32, ∀ count : Fin 7,
      (UInt8.ofNat stamp <<< 3) ||| (UInt8.ofNat count + 1) = pack stamp (count + 1) := by
    decide +kernel
  exact all ⟨stamp, stampLt⟩ ⟨count, countLt⟩

theorem pack_first : UInt8.ofNat stamp <<< 3 = pack stamp 0 := by
  have all : ∀ stamp : Fin 32, UInt8.ofNat stamp <<< 3 = pack stamp 0 := by decide +kernel
  exact all ⟨stamp, stampLt⟩

end

theorem ofNat_inj {first second : Nat} (firstLt : first < 256) (secondLt : second < 256)
    (same : UInt8.ofNat first = UInt8.ofNat second) : first = second := by
  have nats := congrArg UInt8.toNat same
  rwa [UInt8.toNat_ofNat', UInt8.toNat_ofNat', Nat.mod_eq_of_lt firstLt, Nat.mod_eq_of_lt secondLt]
    at nats

theorem window_eq (now : Nat) : UInt8.ofNat ((now / second) &&& 0x1f) =
    UInt8.ofNat (now / second % 32) := by
  have mask := Nat.and_two_pow_sub_one_eq_mod (now / second) 5
  rw [show (0x1f : Nat) = 2 ^ 5 - 1 from rfl, mask]

/-! ### Checks -/

theorem lastStamp_lt (calls : List RrlCall) : lastStamp calls < 32 := by
  cases calls with
  | nil => exact Nat.zero_lt_succ 31
  | cons last _ => exact Nat.mod_lt _ (Nat.zero_lt_succ 31)

/-- A check in terms of the stamp and the count of its bucket. -/
theorem check_eq {rrl : Rrl} (some : rrl.nbuckets ≠ 0) {sa : Sockaddr} (now : Nat) {stamp count : Nat}
    (stampLt : stamp < 32) (countLe : count ≤ 7)
    (packed : rrl.buckets (rrl.hash sa) = pack stamp count) :
    rrl.check sa now = if stamp ≠ now / second % 32 then
        (true, rrl.set (rrl.hash sa) (pack (now / second % 32) 0))
      else if count = 7 then (false, rrl)
      else (true, rrl.set (rrl.hash sa) (pack stamp (count + 1))) := by
  have windowLt : now / second % 32 < 32 := Nat.mod_lt _ (Nat.zero_lt_succ 31)
  unfold Rrl.check
  rw [if_neg some]
  dsimp only
  rw [window_eq, packed, pack_stamp stampLt countLe, pack_count stampLt countLe]
  by_cases same : stamp = now / second % 32
  · rw [if_neg (not_not_intro (congrArg UInt8.ofNat same)), if_neg (not_not_intro same)]
    by_cases full : count = 7
    · rw [if_pos full, if_pos (by rw [full]; rfl)]
    · have unfull : UInt8.ofNat count ≠ 7 := fun equal =>
        full (ofNat_inj (by omega) (by omega) equal)
      rw [if_neg full, if_neg unfull, ← same, pack_next stampLt (by omega)]
  · have other : UInt8.ofNat stamp ≠ UInt8.ofNat (now / second % 32) := fun equal =>
      same (ofNat_inj (by omega) (by omega) equal)
    rw [if_pos other, if_pos same, pack_first windowLt]

theorem streak_of_lastStamp_ne {bucket stamp : Nat} (other : lastStamp (h.own bucket) ≠ stamp) :
    h.streak bucket stamp = [] := by
  unfold streak
  cases own : h.own bucket with
  | nil => rfl
  | cons last rest =>
    rw [own] at other
    exact takeWhile_cons_of_neg (by simpa [lastStamp] using other)

/-! ### Histories -/

theorem own_step (call : Sockaddr × Nat) (bucket : Nat) :
    (h.step call).own bucket = if h.rrl.hash call.1 = bucket then
        ⟨h.rrl.hash call.1, call.2 / second, (h.rrl.check call.1 call.2).1⟩ :: h.own bucket
      else h.own bucket := by
  unfold own step
  rw [filter_cons]
  simp only [decide_eq_true_eq]

/-- A call on another bucket. -/
theorem Counts.other {call : Sockaddr × Nat} {bucket : Nat} (counts : h.Counts bucket)
    (apart : h.rrl.hash call.1 ≠ bucket)
    (kept : (h.rrl.check call.1 call.2).2.buckets bucket = h.rrl.buckets bucket) :
    (h.step call).Counts bucket := by
  have own : (h.step call).own bucket = h.own bucket := by rw [own_step, if_neg apart]
  unfold Counts Marked streak at counts ⊢
  rw [own]
  show ∃ count ≤ 7, (h.rrl.check call.1 call.2).2.buckets bucket = _ ∧ _
  rw [kept]
  exact counts

theorem step_counts (some : h.rrl.nbuckets ≠ 0) (counts : ∀ bucket, h.Counts bucket)
    (call : Sockaddr × Nat) (bucket : Nat) : (h.step call).Counts bucket := by
  obtain ⟨sa, now⟩ := call
  obtain ⟨count, countLe, packed, more, fresh⟩ := counts (h.rrl.hash sa)
  have stampLt := lastStamp_lt (h.own (h.rrl.hash sa))
  have result := check_eq some now stampLt countLe packed
  by_cases apart : h.rrl.hash sa ≠ bucket
  · refine (counts bucket).other apart ?_
    show (h.rrl.check sa now).2.buckets bucket = _
    rw [result]
    split
    · exact Function.update_of_ne apart.symm _ _
    · split
      · rfl
      · exact Function.update_of_ne apart.symm _ _
  obtain rfl := not_not.mp apart
  have own := own_step (h := h) (sa, now) (h.rrl.hash sa)
  rw [if_pos rfl] at own
  dsimp only at own
  generalize stamped : lastStamp (h.own (h.rrl.hash sa)) = stamp at *
  unfold Counts
  have last : lastStamp ((h.step (sa, now)).own (h.rrl.hash sa)) = now / second % 32 := by
    rw [own]
    rfl
  have streak : (h.step (sa, now)).streak (h.rrl.hash sa) (now / second % 32) =
      ⟨h.rrl.hash sa, now / second, (h.rrl.check sa now).1⟩ ::
        h.streak (h.rrl.hash sa) (now / second % 32) := by
    unfold RrlHistory.streak
    rw [own]
    exact takeWhile_cons_of_pos (by simp)
  have marked : (h.step (sa, now)).Marked (h.rrl.hash sa) (now / second % 32) ↔
      h.Marked (h.rrl.hash sa) (now / second % 32) := by
    unfold Marked
    rw [streak, own]
    simp
  rw [last, streak]
  show ∃ count ≤ 7, (h.rrl.check sa now).2.buckets (h.rrl.hash sa) = _ ∧ _
  by_cases same : stamp = now / second % 32
  · rw [if_neg (not_not_intro same)] at result
    rw [← same] at marked ⊢
    by_cases full : count = 7
    · rw [if_pos full] at result
      rw [result, marked]
      exact ⟨count, countLe, packed, more, fresh⟩
    · rw [if_neg full] at result
      rw [result, marked]
      unfold accepted at more fresh ⊢
      rw [countP_cons_of_pos rfl]
      exact ⟨count + 1, by omega, Function.update_self _ _ _, fun old => congrArg (· + 1) (more old),
        fun new => congrArg (· + 1) (fresh new)⟩
  · rw [if_pos same] at result
    rw [result, marked]
    have empty : h.streak (h.rrl.hash sa) (now / second % 32) = [] :=
      streak_of_lastStamp_ne (by rw [stamped]; exact same)
    rw [empty]
    refine ⟨0, Nat.zero_le 7, Function.update_self _ _ _, fun _ => rfl, fun new => ?_⟩
    -- a bucket without calls has the stamp of the first window
    unfold Marked at new
    rw [empty, not_or, not_not, not_not] at new
    refine absurd ?_ same
    rw [new.1, ← stamped, ← new.2]
    rfl

theorem init_counts (nbuckets bucket : Nat) : (init nbuckets).Counts bucket := by
  refine ⟨0, Nat.zero_le 7, rfl, fun marked => ?_, fun _ => rfl⟩
  rcases marked with stamped | longer
  · exact absurd rfl stamped
  · exact absurd rfl longer

theorem ran_concat (nbuckets : Nat) (events : List (Sockaddr × Nat)) (call : Sockaddr × Nat) :
    ran nbuckets (events ++ [call]) = (ran nbuckets events).step call := by
  unfold ran
  rw [foldl_append]
  rfl

theorem check_nbuckets (rrl : Rrl) (sa : Sockaddr) (now : Nat) :
    (rrl.check sa now).2.nbuckets = rrl.nbuckets := by
  unfold Rrl.check
  split
  · rfl
  · dsimp only
    split
    · rfl
    · split <;> rfl

theorem ran_nbuckets (nbuckets : Nat) (events : List (Sockaddr × Nat)) :
    (ran nbuckets events).rrl.nbuckets = nbuckets := by
  induction events using reverseRecOn with
  | nil => rfl
  | append_singleton events call ih =>
    rw [ran_concat]
    exact (check_nbuckets _ _ _).trans ih

theorem ran_counts {nbuckets : Nat} (some : nbuckets ≠ 0) (events : List (Sockaddr × Nat))
    (bucket : Nat) : (ran nbuckets events).Counts bucket := by
  induction events using reverseRecOn generalizing bucket with
  | nil => exact init_counts nbuckets bucket
  | append_singleton events call ih =>
    rw [ran_concat]
    refine step_counts ?_ ih call bucket
    rw [ran_nbuckets]
    exact some

/-- The calls are in the order of their times. -/
theorem ran_forward {nbuckets : Nat} {events : List (Sockaddr × Nat)}
    (forward : events.Pairwise (·.2 ≤ ·.2)) :
    (∀ call ∈ (ran nbuckets events).calls, ∃ event ∈ events, call.second = event.2 / second) ∧
      (ran nbuckets events).calls.Pairwise (·.second ≥ ·.second) := by
  induction events using reverseRecOn with
  | nil => exact ⟨nofun, List.Pairwise.nil⟩
  | append_singleton events last ih =>
    obtain ⟨before, _, after⟩ := pairwise_append.mp forward
    obtain ⟨times, sorted⟩ := ih before
    rw [ran_concat]
    refine ⟨fun call mem => ?_, pairwise_cons.mpr ⟨fun call mem => ?_, sorted⟩⟩
    · rcases mem_cons.mp mem with rfl | mem
      · exact ⟨last, mem_append_right _ mem_cons_self, rfl⟩
      · obtain ⟨event, earlier, same⟩ := times call mem
        exact ⟨event, mem_append_left _ earlier, same⟩
    · obtain ⟨event, earlier, same⟩ := times call mem
      show call.second ≤ last.2 / second
      rw [same]
      exact Nat.div_le_div_right (after event earlier last mem_cons_self)

/-- In a list of calls with falling times, those of the last second are the first ones. -/
theorem filter_eq_takeWhile {calls : List RrlCall} {now : Nat}
    (sorted : calls.Pairwise (·.second ≥ ·.second)) (past : ∀ call ∈ calls, call.second ≤ now) :
    calls.filter (·.second = now) = calls.takeWhile (·.second = now) := by
  induction calls with
  | nil => rfl
  | cons last rest ih =>
    obtain ⟨after, restSorted⟩ := pairwise_cons.mp sorted
    have restPast : ∀ call ∈ rest, call.second ≤ now := fun call mem =>
      past call (.tail _ mem)
    by_cases current : last.second = now
    · rw [filter_cons_of_pos (by simpa using current),
        takeWhile_cons_of_pos (by simpa using current), ih restSorted restPast]
    · rw [filter_cons_of_neg (by simpa using current),
        takeWhile_cons_of_neg (by simpa using current)]
      refine filter_eq_nil_iff.mpr fun call mem => ?_
      have before := after call mem
      have lastPast := past last mem_cons_self
      rw [decide_eq_true_eq]
      omega

/-- A prefix by the stamp whose calls are all of one second is the prefix by that second. -/
theorem takeWhile_second {calls : List RrlCall} {now : Nat}
    (current : ∀ call ∈ calls.takeWhile (·.second % 32 = now % 32), call.second = now) :
    calls.takeWhile (·.second % 32 = now % 32) = calls.takeWhile (·.second = now) := by
  induction calls with
  | nil => rfl
  | cons last rest ih =>
    by_cases stamped : last.second % 32 = now % 32
    · rw [takeWhile_cons_of_pos (by simpa using stamped)] at current ⊢
      have same : last.second = now := current last mem_cons_self
      rw [takeWhile_cons_of_pos (by simpa using same),
        ih fun call mem => current call (.tail _ mem)]
    · rw [takeWhile_cons_of_neg (by simpa using stamped), takeWhile_cons_of_neg]
      rw [decide_eq_true_eq]
      exact fun same => stamped (congrArg (· % 32) same)

/-- A call is refused if and only if eight calls of the streak of its stamp were accepted. -/
theorem refused_iff (some : h.rrl.nbuckets ≠ 0) {sa : Sockaddr} {now : Nat}
    (counts : h.Counts (h.rrl.hash sa))
    (marked : h.Marked (h.rrl.hash sa) (now / second % 32)) :
    (h.rrl.check sa now).1 = false ↔
      8 ≤ accepted (h.streak (h.rrl.hash sa) (now / second % 32)) := by
  obtain ⟨count, countLe, packed, more, _⟩ := counts
  rw [check_eq some now (lastStamp_lt _) countLe packed]
  by_cases same : lastStamp (h.own (h.rrl.hash sa)) = now / second % 32
  · have eight := more (same ▸ marked)
    rw [same] at eight
    rw [if_neg (not_not_intro same), eight]
    by_cases full : count = 7
    · rw [if_pos full, full]
      exact ⟨fun _ => le_refl 8, fun _ => rfl⟩
    · rw [if_neg full]
      exact ⟨fun refused => (Bool.false_ne_true refused.symm).elim, fun enough => by omega⟩
  · rw [if_pos same, streak_of_lastStamp_ne same]
    exact ⟨fun refused => (Bool.false_ne_true refused.symm).elim,
      fun enough => absurd enough (Nat.not_succ_le_zero 7)⟩

/-- Calls in the order of time, of which the next one is on a bucket whose stamp is not that of a
bucket that was never used. The next call is refused if and only if eight calls were accepted among
the last calls of its bucket that have its stamp. Where these are all of its second, it is refused
if and only if eight calls on its bucket were accepted in its second. -/
theorem limit_of_marked (nbuckets : Nat) (events : List (Sockaddr × Nat)) (sa : Sockaddr) (now : Nat)
    (forward : (events ++ [(sa, now)]).Pairwise (·.2 ≤ ·.2))
    (marked : (ran nbuckets events).Marked ((ran nbuckets events).rrl.hash sa)
      (now / second % 32)) :
    (((ran nbuckets events).rrl.check sa now).1 = false ↔ nbuckets ≠ 0 ∧
      8 ≤ accepted ((ran nbuckets events).streak ((ran nbuckets events).rrl.hash sa)
        (now / second % 32))) ∧
    ((∀ call ∈ (ran nbuckets events).streak ((ran nbuckets events).rrl.hash sa)
        (now / second % 32), call.second = now / second) →
      (((ran nbuckets events).rrl.check sa now).1 = false ↔ nbuckets ≠ 0 ∧
        8 ≤ accepted (((ran nbuckets events).own ((ran nbuckets events).rrl.hash sa)).filter
          (·.second = now / second)))) := by
  have refused : ((ran nbuckets events).rrl.check sa now).1 = false ↔ nbuckets ≠ 0 ∧
      8 ≤ accepted ((ran nbuckets events).streak ((ran nbuckets events).rrl.hash sa)
        (now / second % 32)) := by
    by_cases none : nbuckets = 0
    · have off : ((ran nbuckets events).rrl.check sa now).1 = true := by
        unfold Rrl.check
        rw [if_pos (by rw [ran_nbuckets]; exact none)]
      rw [off]
      exact ⟨fun refused => (Bool.false_ne_true refused.symm).elim, fun both => absurd none both.1⟩
    · rw [and_iff_right none]
      refine refused_iff ?_ (ran_counts none events _) marked
      rw [ran_nbuckets]
      exact none
  refine ⟨refused, fun current => ?_⟩
  obtain ⟨before, _, after⟩ := pairwise_append.mp forward
  obtain ⟨times, sorted⟩ := @ran_forward nbuckets _ before
  have past : ∀ call ∈ (ran nbuckets events).own ((ran nbuckets events).rrl.hash sa),
      call.second ≤ now / second := by
    intro call mem
    obtain ⟨event, earlier, same⟩ := times call (mem_of_mem_filter mem)
    rw [same]
    exact Nat.div_le_div_right (after event earlier _ mem_cons_self)
  have ownSorted : ((ran nbuckets events).own ((ran nbuckets events).rrl.hash sa)).Pairwise
      (·.second ≥ ·.second) := sorted.filter _
  rw [refused, filter_eq_takeWhile ownSorted past]
  unfold streak at current ⊢
  rw [takeWhile_second current]

/-- One bucket, nine calls in second 33. -/
theorem limit_of_marked_nine :
    ((ran 1 (replicate 8 (.inet 7, 33 * second))).rrl.check (.inet 7) (33 * second)).1 = false :=
  ((limit_of_marked 1 (replicate 8 (.inet 7, 33 * second)) (.inet 7) (33 * second)
    (by decide +kernel) (by decide +kernel)).1).mpr (by decide +kernel)

/-- Eight calls in second 1 make the limit refuse the first call of second 33. -/
theorem refused_after_idle :
    ∃ events : List (Sockaddr × Nat), ∃ sa : Sockaddr, ∃ now : Nat,
      (events ++ [(sa, now)]).Pairwise (·.2 ≤ ·.2) ∧
      ¬(((ran 1 events).rrl.check sa now).1 = false ↔
        8 ≤ accepted (((ran 1 events).own ((ran 1 events).rrl.hash sa)).filter
          (·.second = now / second))) :=
  ⟨replicate 8 (.inet 7, second), .inet 7, 33 * second, by decide +kernel, by decide +kernel⟩

end RrlHistory

end Splintermail
