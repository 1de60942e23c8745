/-
This file states the invariant that ties the three trees of an `imaildir_t`
together, and what keeps it.

The comments of `imaildir.h` describe the index `mods` by the states of messages
and expunges. The invariant here is by modification sequence: the index holds the
entry of every message and of every expunge with a nonzero modification sequence,
nothing else, and no two entries have the same one. Which states have a nonzero
modification sequence is a property of the single structures.
-/

import Splintermail.Imaildir.Message

namespace Splintermail

open Splintermail.Tree List

namespace Trees

/-- The trees are sorted, and the index holds exactly the entries of the messages and expunges
with a modification sequence. -/
structure Indexed (trees : Trees) : Prop where
  msgsSorted : Sorted Msg.key trees.msgs
  expungedSorted : Sorted Expunge.key trees.expunged
  modsSorted : Sorted Mod.modseq trees.mods
  mem_mods : ∀ mod, mod ∈ trees.mods ↔
    (∃ msg ∈ trees.msgs, msg.modseq ≠ 0 ∧ mod = msg.mod) ∨
      ∃ expunge ∈ trees.expunged, expunge.modseq ≠ 0 ∧ mod = expunge.mod

theorem Indexed.empty : Indexed {} where
  msgsSorted := Sorted.nil
  expungedSorted := Sorted.nil
  modsSorted := Sorted.nil
  mem_mods mod := by
    constructor
    · exact fun mem => absurd mem not_mem_nil
    · rintro (⟨msg, mem, -⟩ | ⟨expunge, mem, -⟩)
      · exact absurd mem not_mem_nil
      · exact absurd mem not_mem_nil

variable {trees : Trees} {msg : Msg}

theorem Indexed.msg_mod_mem (indexed : Indexed trees) (mem : msg ∈ trees.msgs)
    (modseq : msg.modseq ≠ 0) : msg.mod ∈ trees.mods :=
  (indexed.mem_mods _).mpr (.inl ⟨msg, mem, modseq, rfl⟩)

variable {expunge : Expunge}

section

variable (indexed : Indexed trees)

include indexed

theorem Indexed.expunge_mod_mem (mem : expunge ∈ trees.expunged) (modseq : expunge.modseq ≠ 0) :
    expunge.mod ∈ trees.mods :=
  (indexed.mem_mods _).mpr (.inr ⟨expunge, mem, modseq, rfl⟩)

theorem Indexed.modseq_ne_zero {mod : Mod} (mem : mod ∈ trees.mods) : mod.modseq ≠ 0 := by
  rcases (indexed.mem_mods mod).mp mem with ⟨msg, -, modseq, rfl⟩ | ⟨expunge, -, modseq, rfl⟩
  · exact modseq
  · exact modseq

theorem Indexed.msg_eq_of_modseq {first second : Msg} (firstMem : first ∈ trees.msgs)
    (secondMem : second ∈ trees.msgs) (modseq : first.modseq ≠ 0)
    (same : first.modseq = second.modseq) : first = second := by
  have entries := indexed.modsSorted.eq_of_key (indexed.msg_mod_mem firstMem modseq)
    (indexed.msg_mod_mem secondMem (same ▸ modseq)) same
  have keys : first.key = second.key := ModOwner.message.inj (congrArg Mod.owner entries)
  exact indexed.msgsSorted.eq_of_key firstMem secondMem keys

theorem Indexed.expunge_eq_of_modseq {first second : Expunge} (firstMem : first ∈ trees.expunged)
    (secondMem : second ∈ trees.expunged) (modseq : first.modseq ≠ 0)
    (same : first.modseq = second.modseq) : first = second := by
  have entries := indexed.modsSorted.eq_of_key (indexed.expunge_mod_mem firstMem modseq)
    (indexed.expunge_mod_mem secondMem (same ▸ modseq)) same
  have keys : first.key = second.key := ModOwner.expunge.inj (congrArg Mod.owner entries)
  exact indexed.expungedSorted.eq_of_key firstMem secondMem keys

theorem Indexed.msg_expunge_modseq_ne (msgMem : msg ∈ trees.msgs)
    (expungeMem : expunge ∈ trees.expunged) (modseq : msg.modseq ≠ 0) :
    expunge.modseq ≠ msg.modseq := by
  intro same
  have entries := indexed.modsSorted.eq_of_key (indexed.msg_mod_mem msgMem modseq)
    (indexed.expunge_mod_mem expungeMem (same ▸ modseq)) same.symm
  cases congrArg Mod.owner entries

end

/-! ### Insertions -/

/-- The index with an entry inserted, if it has a modification sequence. -/
def insertMod (mod : Mod) (mods : List Mod) : List Mod :=
  if mod.modseq ≠ 0 then insert Mod.modseq mod mods else mods

/-- The index with an entry erased, if it has a modification sequence. -/
def eraseMod (modseq : Nat) (mods : List Mod) : List Mod :=
  if modseq ≠ 0 then erase Mod.modseq modseq mods else mods

variable {mods : List Mod}

theorem mem_insertMod {mod other : Mod} :
    other ∈ insertMod mod mods ↔ (mod.modseq ≠ 0 ∧ other = mod) ∨ other ∈ mods := by
  unfold insertMod
  by_cases zero : mod.modseq = 0
  · simp [zero]
  · simp [zero]

theorem sorted_insertMod {mod : Mod} (sorted : Sorted Mod.modseq mods)
    (fresh : mod.modseq ≠ 0 → ∀ other ∈ mods, other.modseq ≠ mod.modseq) :
    Sorted Mod.modseq (insertMod mod mods) := by
  unfold insertMod
  split
  · rename_i nonzero
    exact sorted.insert mod (fresh nonzero)
  · exact sorted

theorem Indexed.insertMsg (indexed : Indexed trees)
    (freshKey : ∀ other ∈ trees.msgs, other.key ≠ msg.key)
    (freshModseq : msg.modseq ≠ 0 → ∀ other ∈ trees.mods, other.modseq ≠ msg.modseq) :
    Indexed { trees with
      msgs := insert Msg.key msg trees.msgs
      mods := insertMod msg.mod trees.mods } where
  msgsSorted := indexed.msgsSorted.insert msg freshKey
  expungedSorted := indexed.expungedSorted
  modsSorted := sorted_insertMod indexed.modsSorted freshModseq
  mem_mods mod := by
    rw [mem_insertMod, indexed.mem_mods]
    constructor
    · rintro (⟨nonzero, rfl⟩ | ⟨other, mem, nonzero, rfl⟩ | inExpunged)
      · exact .inl ⟨msg, mem_insert.mpr (.inl rfl), nonzero, rfl⟩
      · exact .inl ⟨other, mem_insert.mpr (.inr mem), nonzero, rfl⟩
      · exact .inr inExpunged
    · rintro (⟨other, mem, nonzero, rfl⟩ | inExpunged)
      · rcases mem_insert.mp mem with rfl | mem
        · exact .inl ⟨nonzero, rfl⟩
        · exact .inr (.inl ⟨other, mem, nonzero, rfl⟩)
      · exact .inr (.inr inExpunged)

theorem Indexed.insertExpunge (indexed : Indexed trees)
    (freshKey : ∀ other ∈ trees.expunged, other.key ≠ expunge.key)
    (freshModseq : expunge.modseq ≠ 0 → ∀ other ∈ trees.mods, other.modseq ≠ expunge.modseq) :
    Indexed { trees with
      expunged := insert Expunge.key expunge trees.expunged
      mods := insertMod expunge.mod trees.mods } where
  msgsSorted := indexed.msgsSorted
  expungedSorted := indexed.expungedSorted.insert expunge freshKey
  modsSorted := sorted_insertMod indexed.modsSorted freshModseq
  mem_mods mod := by
    rw [mem_insertMod, indexed.mem_mods]
    constructor
    · rintro (⟨nonzero, rfl⟩ | inMsgs | ⟨other, mem, nonzero, rfl⟩)
      · exact .inr ⟨expunge, mem_insert.mpr (.inl rfl), nonzero, rfl⟩
      · exact .inl inMsgs
      · exact .inr ⟨other, mem_insert.mpr (.inr mem), nonzero, rfl⟩
    · rintro (inMsgs | ⟨other, mem, nonzero, rfl⟩)
      · exact .inr (.inl inMsgs)
      · rcases mem_insert.mp mem with rfl | mem
        · exact .inl ⟨nonzero, rfl⟩
        · exact .inr (.inr ⟨other, mem, nonzero, rfl⟩)

/-! ### Removals -/

theorem mem_eraseMod {modseq : Nat} {mod : Mod} (sorted : Sorted Mod.modseq mods)
    (nonzero : ∀ other ∈ mods, other.modseq ≠ 0) :
    mod ∈ eraseMod modseq mods ↔ mod ∈ mods ∧ mod.modseq ≠ modseq := by
  unfold eraseMod
  by_cases zero : modseq = 0
  · rw [if_neg (not_not_intro zero), zero]
    exact ⟨fun mem => ⟨mem, nonzero mod mem⟩, And.left⟩
  · rw [if_pos zero, sorted.mem_erase]

theorem sorted_eraseMod {modseq : Nat} (sorted : Sorted Mod.modseq mods) :
    Sorted Mod.modseq (eraseMod modseq mods) := by
  unfold eraseMod
  split
  · exact sorted.erase _
  · exact sorted

theorem erase_eq_eraseMod {modseq : Nat} (nonzero : ∀ other ∈ mods, other.modseq ≠ 0) :
    erase Mod.modseq modseq mods = eraseMod modseq mods := by
  unfold eraseMod
  split
  · rfl
  · rename_i zero
    refine eraseP_of_forall_not fun other mem => ?_
    rw [not_not.mp zero]
    simpa using nonzero other mem

section

variable (indexed : Indexed trees)

include indexed

theorem Indexed.eraseMsg (mem : msg ∈ trees.msgs) : Indexed { trees with
      msgs := erase Msg.key msg.key trees.msgs
      mods := eraseMod msg.modseq trees.mods } where
  msgsSorted := indexed.msgsSorted.erase _
  expungedSorted := indexed.expungedSorted
  modsSorted := sorted_eraseMod indexed.modsSorted
  mem_mods mod := by
    rw [mem_eraseMod indexed.modsSorted fun _ => indexed.modseq_ne_zero, indexed.mem_mods]
    constructor
    · rintro ⟨⟨other, otherMem, nonzero, rfl⟩ | inExpunged, differs⟩
      · refine .inl ⟨other, indexed.msgsSorted.mem_erase.mpr ⟨otherMem, fun same => ?_⟩,
          nonzero, rfl⟩
        rw [indexed.msgsSorted.eq_of_key otherMem mem same] at differs
        exact differs rfl
      · exact .inr inExpunged
    · rintro (⟨other, otherMem, nonzero, rfl⟩ | ⟨expunge, expungeMem, nonzero, rfl⟩)
      · obtain ⟨otherMem, otherKey⟩ := indexed.msgsSorted.mem_erase.mp otherMem
        refine ⟨.inl ⟨other, otherMem, nonzero, rfl⟩, fun same => otherKey ?_⟩
        rw [indexed.msg_eq_of_modseq otherMem mem nonzero same]
      · refine ⟨.inr ⟨expunge, expungeMem, nonzero, rfl⟩, fun same => ?_⟩
        have msgNonzero : msg.modseq ≠ 0 := fun zero => nonzero (same.trans zero)
        exact indexed.msg_expunge_modseq_ne mem expungeMem msgNonzero same

theorem Indexed.eraseExpunge (mem : expunge ∈ trees.expunged) : Indexed { trees with
      expunged := erase Expunge.key expunge.key trees.expunged
      mods := eraseMod expunge.modseq trees.mods } where
  msgsSorted := indexed.msgsSorted
  expungedSorted := indexed.expungedSorted.erase _
  modsSorted := sorted_eraseMod indexed.modsSorted
  mem_mods mod := by
    rw [mem_eraseMod indexed.modsSorted fun _ => indexed.modseq_ne_zero, indexed.mem_mods]
    constructor
    · rintro ⟨inMsgs | ⟨other, otherMem, nonzero, rfl⟩, differs⟩
      · exact .inl inMsgs
      · refine .inr ⟨other, indexed.expungedSorted.mem_erase.mpr ⟨otherMem, fun same => ?_⟩,
          nonzero, rfl⟩
        rw [indexed.expungedSorted.eq_of_key otherMem mem same] at differs
        exact differs rfl
    · rintro (⟨msg, msgMem, nonzero, rfl⟩ | ⟨other, otherMem, nonzero, rfl⟩)
      · refine ⟨.inl ⟨msg, msgMem, nonzero, rfl⟩, fun same => ?_⟩
        exact indexed.msg_expunge_modseq_ne msgMem mem nonzero same.symm
      · obtain ⟨otherMem, otherKey⟩ := indexed.expungedSorted.mem_erase.mp otherMem
        refine ⟨.inr ⟨other, otherMem, nonzero, rfl⟩, fun same => otherKey ?_⟩
        rw [indexed.expunge_eq_of_modseq otherMem mem nonzero same]

/-! ### Changes in place -/

/-- A message that is changed in place, its entry taken out of the index before and put back
after. -/
theorem Indexed.replaceMsg {old : Msg} (change : Msg → Msg) (mem : old ∈ trees.msgs)
    (sameKey : (change old).key = old.key)
    (freshModseq : ∀ other ∈ trees.mods, other.modseq ≠ (change old).modseq) : Indexed { trees with
      msgs := update Msg.key old.key change trees.msgs
      mods := insertMod (change old).mod (eraseMod old.modseq trees.mods) } := by
  rw [indexed.msgsSorted.update_eq_insert_erase mem sameKey]
  refine (indexed.eraseMsg mem).insertMsg ?_ fun _ other otherMem => ?_
  · intro other otherMem
    rw [sameKey]
    exact (indexed.msgsSorted.mem_erase.mp otherMem).2
  · exact freshModseq other
      ((mem_eraseMod indexed.modsSorted fun _ => indexed.modseq_ne_zero).mp otherMem).1

/-- A message that is changed in place, its modification sequence not among the changes. -/
theorem Indexed.changeMsg {old : Msg} (change : Msg → Msg) (mem : old ∈ trees.msgs)
    (sameKey : (change old).key = old.key) (sameModseq : (change old).modseq = old.modseq) :
    Indexed { trees with msgs := update Msg.key old.key change trees.msgs } where
  msgsSorted := by
    rw [indexed.msgsSorted.update_eq_insert_erase mem sameKey]
    refine (indexed.msgsSorted.erase _).insert _ fun other otherMem => ?_
    rw [sameKey]
    exact (indexed.msgsSorted.mem_erase.mp otherMem).2
  expungedSorted := indexed.expungedSorted
  modsSorted := indexed.modsSorted
  mem_mods mod := by
    have sameMod : (change old).mod = old.mod := by
      unfold Msg.mod
      rw [sameKey, sameModseq]
    rw [indexed.mem_mods]
    refine or_congr_left ⟨?_, ?_⟩
    · rintro ⟨msg, msgMem, nonzero, rfl⟩
      by_cases same : msg.key = old.key
      · refine ⟨change old, mem_update.mpr (.inr ⟨old, mem, rfl, rfl⟩), ?_, ?_⟩
        · rw [sameModseq, ← indexed.msgsSorted.eq_of_key msgMem mem same]
          exact nonzero
        · rw [sameMod, indexed.msgsSorted.eq_of_key msgMem mem same]
      · exact ⟨msg, mem_update.mpr (.inl ⟨msgMem, same⟩), nonzero, rfl⟩
    · rintro ⟨msg, msgMem, nonzero, rfl⟩
      rcases mem_update.mp msgMem with ⟨msgMem, -⟩ | ⟨other, otherMem, same, rfl⟩
      · exact ⟨msg, msgMem, nonzero, rfl⟩
      · rw [indexed.msgsSorted.eq_of_key otherMem mem same] at nonzero ⊢
        exact ⟨old, mem, sameModseq ▸ nonzero, sameMod⟩

/-- An expunge that is changed in place, its modification sequence not among the changes. -/
theorem Indexed.changeExpunge {old : Expunge} (change : Expunge → Expunge)
    (mem : old ∈ trees.expunged) (sameMod : (change old).mod = old.mod) : Indexed { trees with
      expunged := update Expunge.key old.key change trees.expunged } where
  msgsSorted := indexed.msgsSorted
  expungedSorted := by
    have sameKey : (change old).key = old.key := ModOwner.expunge.inj (congrArg Mod.owner sameMod)
    rw [indexed.expungedSorted.update_eq_insert_erase mem sameKey]
    refine (indexed.expungedSorted.erase _).insert _ fun other otherMem => ?_
    rw [sameKey]
    exact (indexed.expungedSorted.mem_erase.mp otherMem).2
  modsSorted := indexed.modsSorted
  mem_mods mod := by
    have sameModseq : (change old).modseq = old.modseq := congrArg Mod.modseq sameMod
    rw [indexed.mem_mods]
    refine or_congr_right ⟨?_, ?_⟩
    · rintro ⟨expunge, expungeMem, nonzero, rfl⟩
      by_cases same : expunge.key = old.key
      · rw [indexed.expungedSorted.eq_of_key expungeMem mem same] at nonzero ⊢
        exact ⟨change old, mem_update.mpr (.inr ⟨old, mem, rfl, rfl⟩),
          sameModseq.symm ▸ nonzero, sameMod.symm⟩
      · exact ⟨expunge, mem_update.mpr (.inl ⟨expungeMem, same⟩), nonzero, rfl⟩
    · rintro ⟨expunge, expungeMem, nonzero, rfl⟩
      rcases mem_update.mp expungeMem with ⟨expungeMem, -⟩ | ⟨other, otherMem, same, rfl⟩
      · exact ⟨expunge, expungeMem, nonzero, rfl⟩
      · rw [indexed.expungedSorted.eq_of_key otherMem mem same] at nonzero ⊢
        exact ⟨old, mem, sameModseq ▸ nonzero, sameMod⟩

/-- The messages with a key are changed in place, if there are any. -/
theorem Indexed.editMsg (key : MsgKey) (change : Msg → Msg)
    (same : ∀ msg ∈ trees.msgs, msg.key = key → (change msg).key = msg.key ∧
      (change msg).modseq = msg.modseq) :
    Indexed { trees with msgs := update Msg.key key change trees.msgs } := by
  by_cases found : ∃ msg ∈ trees.msgs, msg.key = key
  · obtain ⟨msg, mem, rfl⟩ := found
    exact indexed.changeMsg change mem (same msg mem rfl).1 (same msg mem rfl).2
  · rw [update_of_not_mem fun msg mem equal => found ⟨msg, mem, equal⟩]
    exact indexed

end

end Trees

end Splintermail
