/-
This file models `full_scan` of `kvpsend`, which brings the entries that it has in step with
the challenges of the database, and says for which keys it does.

The scan walks through the tree of entries, in the order of `dstr_cmp2`, and the rows of the
database together. The lesser key is taken for an extra entry or for a missing one. So the
rows have to come in the order of the tree: rows in another order make the scan delete an
entry that has a row and add it again.
-/

import Splintermail.Dstr.Compare
import Splintermail.Xkey.Agreement

namespace Splintermail

open List Xkeysync

/-- `entry_t`, as far as a scan looks at it, and a row of `challenge_iter_t`. -/
structure Challenge where
  subdomain : Bytes
  challenge : Bytes
  deriving DecidableEq

/-- What all the senders are told. -/
inductive SendCall where
  | addKey (challenge : Challenge)
  | deleteKey (subdomain : Bytes)
  deriving DecidableEq

namespace SendCall

def added : SendCall → Option Challenge
  | .addKey challenge => some challenge
  | .deleteKey _ => none

def deleted : SendCall → Option Bytes
  | .addKey _ => none
  | .deleteKey subdomain => some subdomain

end SendCall

/-! ### The scan -/

/-- What the loops of `full_scan` leave: the entries of the tree, in its order, the new entries that are
held aside, what the senders were told, and whether the rows were read to their end. -/
structure Scan where
  kept : List Challenge := []
  new : List Challenge := []
  calls : List SendCall := []
  done : Bool := true
  deriving DecidableEq

namespace Scan

/-- `delete_entry` -/
def deleteEntry (entry : Challenge) (scan : Scan) : Scan :=
  { scan with calls := .deleteKey entry.subdomain :: scan.calls }

/-- `entry_new_from_challenges` -/
def entryNew (row : Challenge) (scan : Scan) : Scan := { scan with new := row :: scan.new }

def keepEntry (entry : Challenge) (scan : Scan) : Scan := { scan with kept := entry :: scan.kept }

/-- `change_entry` -/
def changeEntry (entry : Challenge) (challenge : Bytes) (scan : Scan) : Scan :=
  { scan with
    kept := { entry with challenge } :: scan.kept
    calls := .deleteKey entry.subdomain :: .addKey { entry with challenge } :: scan.calls }

end Scan

/-- The loops of `full_scan`. Reading a row may fail after those that are given. -/
def fullScanLoop (fails : Bool) : List Challenge → List Challenge → Scan
  | [], [] => { done := !fails }
  | entry :: entries, [] =>
    if fails then { kept := entry :: entries, done := false }
    else (fullScanLoop fails entries []).deleteEntry entry
  | [], row :: rows => (fullScanLoop fails [] rows).entryNew row
  | entry :: entries, row :: rows =>
    let cmp := doDstrCmp2 true entry.subdomain row.subdomain
    -- extra entry (entry comes before challenge)
    if cmp < 0 then (fullScanLoop fails entries (row :: rows)).deleteEntry entry
    -- missing entry (challenge comes before entry)
    else if cmp > 0 then (fullScanLoop fails (entry :: entries) rows).entryNew row
    -- subdomains match
    else if entry.challenge = row.challenge then (fullScanLoop fails entries rows).keepEntry entry
    else (fullScanLoop fails entries rows).changeEntry entry row.challenge
termination_by entries rows => entries.length + rows.length

/-- `jsw_ainsert` into the tree of the entries. -/
def insertEntry (sorted : List Challenge) (fresh : Challenge) : List Challenge :=
  match sorted with
  | [] => [fresh]
  | entry :: rest =>
    if doDstrCmp2 true entry.subdomain fresh.subdomain < 0 then entry :: insertEntry rest fresh
    else fresh :: entry :: rest

/-- `full_scan`: the tree after it, and what the senders were told. -/
def fullScan (sorted rows : List Challenge) (fails : Bool) : List Challenge × List SendCall :=
  let scan := fullScanLoop fails sorted rows
  -- add new entries to data structures
  if scan.done then (scan.new.foldl insertEntry scan.kept, scan.calls ++ scan.new.map .addKey)
  else (scan.kept, scan.calls)

/-! ### What a scan should do -/

/-- The order of the tree. -/
def RowsInOrder (challenges : List Challenge) : Prop :=
  challenges.Pairwise fun first second => doDstrCmp2 true first.subdomain second.subdomain < 0

/-- The tree becomes that of the rows. The entries that are no rows are deleted and the rows that are no
entries are added, each once. -/
structure ScanExact (sorted rows : List Challenge) (result : List Challenge × List SendCall) : Prop where
  tree : result.1 = rows
  deleted : result.2.filterMap SendCall.deleted = (sorted.filter (· ∉ rows)).map Challenge.subdomain
  added : (result.2.filterMap SendCall.added).Perm (rows.filter (· ∉ sorted))

/-- The entries and rows with such keys, in the order of the tree, are scanned right. -/
def ScansExactly (texts : Set Bytes) : Prop :=
  ∀ sorted rows : List Challenge, (∀ entry ∈ sorted, entry.subdomain ∈ texts) →
    (∀ row ∈ rows, row.subdomain ∈ texts) → RowsInOrder sorted → RowsInOrder rows →
      ScanExact sorted rows (fullScan sorted rows false)

namespace FullScan

variable {texts : Set Bytes} {entry row : Challenge} {entries rows : List Challenge}

/-! ### The order of the tree -/

/-- The rank of a key. -/
def rank (challenge : Challenge) : List Int := cmpRank challenge.subdomain

section

variable (apart : NulApart true texts)

include apart

theorem eq_zero_iff (entryMem : entry.subdomain ∈ texts) (rowMem : row.subdomain ∈ texts) :
    doDstrCmp2 true entry.subdomain row.subdomain = 0 ↔ entry.subdomain = row.subdomain := by
  have equal := apart.eq_zero_iff entryMem rowMem
  rwa [folded_true, folded_true] at equal

theorem lt_zero_iff (entryMem : entry.subdomain ∈ texts) (rowMem : row.subdomain ∈ texts) :
    doDstrCmp2 true entry.subdomain row.subdomain < 0 ↔ rank entry < rank row := by
  by_cases zero : doDstrCmp2 true entry.subdomain row.subdomain = 0
  · rw [zero, rank, rank, (eq_zero_iff apart entryMem rowMem).mp zero]
    exact iff_of_false (lt_irrefl _) (lt_irrefl _)
  · exact apart.ranks.below _ entryMem _ rowMem zero

theorem sorted_of_inOrder (known : ∀ row ∈ rows, row.subdomain ∈ texts)
    (inOrder : RowsInOrder rows) : Tree.Sorted rank rows := by
  refine Pairwise.imp_of_mem (fun {first second} firstMem secondMem below => ?_) inOrder
  exact (lt_zero_iff apart (known first firstMem) (known second secondMem)).mp below

end

/-! ### The loops -/

theorem not_mem_of_lt (sorted : Tree.Sorted rank (row :: rows)) (below : rank entry < rank row) :
    entry ∉ row :: rows := by
  intro mem
  rcases mem_cons.mp mem with rfl | later
  · exact lt_irrefl _ below
  · exact lt_asymm below ((pairwise_cons.mp sorted).1 entry later)

theorem not_mem_of_eq (sorted : Tree.Sorted rank (row :: rows))
    (same : entry.subdomain = row.subdomain) : entry ∉ rows := fun mem =>
  ((pairwise_cons.mp sorted).1 entry mem).ne (congrArg cmpRank same).symm

theorem filter_not_mem_cons (absent : entry ∉ rows) (entries : List Challenge) :
    rows.filter (· ∉ entry :: entries) = rows.filter (· ∉ entries) := by
  refine filter_congr fun row mem => decide_eq_decide.mpr (not_congr ?_)
  exact mem_cons.trans (or_iff_right fun same => absent (same ▸ mem))

/-- What the loops do to lists in order that they read to the end. -/
structure LoopExact (entries rows : List Challenge) (scan : Scan) : Prop where
  kept : scan.kept.Sublist rows
  whole : (scan.kept ++ scan.new).Perm rows
  deleted : scan.calls.filterMap SendCall.deleted =
    (entries.filter (· ∉ rows)).map Challenge.subdomain
  added : (scan.calls.filterMap SendCall.added ++ scan.new).Perm (rows.filter (· ∉ entries))
  done : scan.done = true

namespace LoopExact

variable {scan : Scan}

section

variable (exact : LoopExact entries rows scan)

include exact

theorem deleteEntry (absent : entry ∉ rows) :
    LoopExact (entry :: entries) rows (scan.deleteEntry entry) := by
  refine ⟨exact.kept, exact.whole, ?_, ?_, exact.done⟩
  · rw [filter_cons_of_pos (by simpa using absent), map_cons, ← exact.deleted]
    rfl
  · rw [filter_not_mem_cons absent]
    exact exact.added

theorem entryNew (absent : row ∉ entries) :
    LoopExact entries (row :: rows) (scan.entryNew row) := by
  refine ⟨exact.kept.cons _, perm_middle.trans (exact.whole.cons row), ?_, ?_, exact.done⟩
  · rw [filter_not_mem_cons absent]
    exact exact.deleted
  · rw [filter_cons_of_pos (by simpa using absent)]
    exact perm_middle.trans (exact.added.cons row)

theorem keepEntry (last : row ∉ entries) (once : row ∉ rows) :
    LoopExact (row :: entries) (row :: rows) (scan.keepEntry row) := by
  refine ⟨exact.kept.cons_cons _, exact.whole.cons row, ?_, ?_, exact.done⟩
  · rw [filter_cons_of_neg (by simp), filter_not_mem_cons last]
    exact exact.deleted
  · rw [filter_cons_of_neg (by simp), filter_not_mem_cons once]
    exact exact.added

theorem changeEntry (same : entry.subdomain = row.subdomain)
    (differs : entry.challenge ≠ row.challenge) (last : row ∉ entries) (once : entry ∉ rows) :
    LoopExact (entry :: entries) (row :: rows) (scan.changeEntry entry row.challenge) := by
  have apart : entry ≠ row := fun equal => differs (congrArg Challenge.challenge equal)
  have changed : ({ entry with challenge := row.challenge } : Challenge) = row := by
    rw [same]
  unfold Scan.changeEntry
  rw [changed]
  refine ⟨exact.kept.cons_cons _, exact.whole.cons row, ?_, ?_, exact.done⟩
  · rw [filter_cons_of_pos (by simp [apart, once]), filter_not_mem_cons last, map_cons]
    exact congrArg (entry.subdomain :: ·) exact.deleted
  · rw [filter_cons_of_pos (by simp [apart.symm, last]), filter_not_mem_cons once]
    exact exact.added.cons row

end

end LoopExact

section

variable (apart : NulApart true texts)

include apart

/-- The loops through two lists in order, one case for each thing that they do with the first entry and
the first row. -/
theorem fullScanLoop_exact (entriesKnown : ∀ entry ∈ entries, entry.subdomain ∈ texts)
    (rowsKnown : ∀ row ∈ rows, row.subdomain ∈ texts) (entriesSorted : Tree.Sorted rank entries)
    (rowsSorted : Tree.Sorted rank rows) :
    LoopExact entries rows (fullScanLoop false entries rows) := by
  fun_induction fullScanLoop false entries rows with
  | case1 => exact ⟨.slnil, .refl _, rfl, .refl _, rfl⟩
  | case2 entry entries fails => cases fails
  | case3 entry entries _ ih =>
    have exact := ih (fun other mem => entriesKnown other (.tail _ mem)) rowsKnown
      entriesSorted.of_cons rowsSorted
    exact exact.deleteEntry not_mem_nil
  | case4 row rows ih =>
    have exact := ih entriesKnown (fun other mem => rowsKnown other (.tail _ mem)) entriesSorted
      rowsSorted.of_cons
    exact exact.entryNew not_mem_nil
  | case5 entry entries row rows cmp below ih =>
    have less := (lt_zero_iff apart (entriesKnown entry mem_cons_self)
      (rowsKnown row mem_cons_self)).mp below
    have exact := ih (fun other mem => entriesKnown other (.tail _ mem)) rowsKnown
      entriesSorted.of_cons rowsSorted
    exact exact.deleteEntry (not_mem_of_lt rowsSorted less)
  | case6 entry entries row rows cmp notBelow above ih =>
    have entryIn := entriesKnown entry mem_cons_self
    have rowIn := rowsKnown row mem_cons_self
    have less : rank row < rank entry := by
      refine lt_of_le_of_ne (not_lt.mp (mt (lt_zero_iff apart entryIn rowIn).mpr notBelow)) fun same => ?_
      exact above.ne' ((eq_zero_iff apart entryIn rowIn).mpr (cmpRank_injective same).symm)
    have exact := ih entriesKnown (fun other mem => rowsKnown other (.tail _ mem)) entriesSorted
      rowsSorted.of_cons
    exact exact.entryNew (not_mem_of_lt entriesSorted less)
  | case7 entry entries row rows cmp notBelow notAbove sameChallenge ih =>
    have zero : cmp = 0 := le_antisymm (not_lt.mp notAbove) (not_lt.mp notBelow)
    have same := (eq_zero_iff apart (entriesKnown entry mem_cons_self)
      (rowsKnown row mem_cons_self)).mp zero
    obtain rfl : entry = row := by
      cases entry
      cases row
      cases same
      cases sameChallenge
      rfl
    have exact := ih (fun other mem => entriesKnown other (.tail _ mem))
      (fun other mem => rowsKnown other (.tail _ mem)) entriesSorted.of_cons rowsSorted.of_cons
    exact exact.keepEntry (not_mem_of_eq entriesSorted rfl) (not_mem_of_eq rowsSorted rfl)
  | case8 entry entries row rows cmp notBelow notAbove differs ih =>
    have zero : cmp = 0 := le_antisymm (not_lt.mp notAbove) (not_lt.mp notBelow)
    have same := (eq_zero_iff apart (entriesKnown entry mem_cons_self)
      (rowsKnown row mem_cons_self)).mp zero
    have exact := ih (fun other mem => entriesKnown other (.tail _ mem))
      (fun other mem => rowsKnown other (.tail _ mem)) entriesSorted.of_cons rowsSorted.of_cons
    exact exact.changeEntry same differs (not_mem_of_eq entriesSorted same.symm)
      (not_mem_of_eq rowsSorted same)

/-! ### The new entries -/

theorem insertEntry_eq (known : ∀ entry ∈ entries, entry.subdomain ∈ texts)
    (rowKnown : row.subdomain ∈ texts) :
    insertEntry entries row = Tree.insert rank row entries := by
  induction entries with
  | nil => rfl
  | cons entry rest ih =>
    unfold insertEntry Tree.insert
    rw [orderedInsert_cons]
    by_cases below : doDstrCmp2 true entry.subdomain row.subdomain < 0
    · have less := (lt_zero_iff apart (known entry mem_cons_self) rowKnown).mp below
      rw [if_pos below, if_neg (not_le.mpr less), ih fun other mem => known other (.tail _ mem)]
      rfl
    · have notLess := mt (lt_zero_iff apart (known entry mem_cons_self) rowKnown).mpr below
      rw [if_neg below, if_pos (not_lt.mp notLess)]

/-- Entries with new keys are inserted one after another. -/
theorem foldl_insertEntry (known : ∀ row ∈ entries ++ rows, row.subdomain ∈ texts)
    (sorted : Tree.Sorted rank entries) (distinct : ((entries ++ rows).map rank).Nodup) :
    Tree.Sorted rank (rows.foldl insertEntry entries) ∧
      (rows.foldl insertEntry entries).Perm (entries ++ rows) := by
  induction rows generalizing entries with
  | nil => exact ⟨sorted, .of_eq (append_nil _).symm⟩
  | cons row rest ih =>
    have inserted := insertEntry_eq apart (fun entry mem => known entry (mem_append_left _ mem))
      (known row (mem_append_right _ mem_cons_self))
    have perm : (insertEntry entries row ++ rest).Perm (entries ++ row :: rest) := by
      rw [inserted]
      exact ((perm_orderedInsert _ row entries).append_right rest).trans perm_middle.symm
    have fresh : ∀ other ∈ entries, rank other ≠ rank row := fun other mem => by
      rw [map_append] at distinct
      exact (nodup_append.mp distinct).2.2 _ (mem_map_of_mem mem) _ (mem_map_of_mem mem_cons_self)
    obtain ⟨sorted, same⟩ := ih (fun other mem => known other (perm.subset mem))
      (inserted ▸ sorted.insert row fresh) ((perm.map rank).nodup_iff.mpr distinct)
    exact ⟨sorted, same.trans perm⟩

/-! ### The whole scan -/

theorem scansExactly : ScansExactly texts := by
  intro entries rows entriesKnown rowsKnown entriesInOrder rowsInOrder
  have rowsSorted := sorted_of_inOrder apart rowsKnown rowsInOrder
  have exact := fullScanLoop_exact apart entriesKnown rowsKnown
    (sorted_of_inOrder apart entriesKnown entriesInOrder) rowsSorted
  unfold fullScan
  rw [if_pos exact.done]
  refine ⟨?_, ?_, ?_⟩
  · have distinct : (rows.map rank).Nodup := pairwise_map.mpr (rowsSorted.imp fun below => below.ne)
    obtain ⟨sorted, same⟩ := foldl_insertEntry apart
      (fun row mem => rowsKnown row (exact.whole.subset mem)) (rowsSorted.sublist exact.kept)
      ((exact.whole.map rank).nodup_iff.mpr distinct)
    exact sorted.ext rowsSorted fun row => (same.trans exact.whole).mem_iff
  · have none : ((fullScanLoop false entries rows).new.map SendCall.addKey).filterMap
        SendCall.deleted = [] := by
      rw [filterMap_map]
      exact filterMap_eq_nil_iff.mpr fun _ _ => rfl
    rw [filterMap_append, none, append_nil]
    exact exact.deleted
  · rw [filterMap_append, filterMap_map]
    exact (Perm.of_eq (congrArg _ filterMap_some)).trans exact.added

end

/-- A key that goes on with a NUL where another one ends is taken for the other one. -/
theorem nulApart_of_scansExactly (exact : ScansExactly texts) : NulApart true texts := by
  intro first firstMem second secondMem before
  rw [folded_true, folded_true] at before
  have alike : doDstrCmp2 true first second = 0 := by
    have zero : cmpChars first second = 0 := cmpChars_eq_zero.mpr (.inr (.inl before))
    rwa [← folded_true first, ← folded_true second] at zero
  have scanned : fullScan [⟨first, []⟩] [⟨second, []⟩] false = ([⟨first, []⟩], []) := by
    rw [fullScan]
    simp [fullScanLoop, alike, Scan.keepEntry]
  have kept := (exact [⟨first, []⟩] [⟨second, []⟩] (by simpa using firstMem) (by simpa using secondMem)
    (pairwise_singleton _ _) (pairwise_singleton _ _)).tree
  rw [scanned] at kept
  have same : first = second := congrArg Challenge.subdomain (List.head_eq_of_cons_eq kept)
  have shorter := before.length_le
  rw [same, length_append] at shorter
  exact absurd shorter (Nat.not_succ_le_self _)

end FullScan

/-! ### What rests on the comparison -/

/-- Fingerprints in the order of `dstr_cmp2`, none of them twice. -/
def FprsInOrder (fprs : List SmsqlFpr) : Prop :=
  fprs.Pairwise fun first second => doDstrCmp2 true first.text second.text < 0

theorem FprsInOrder.sorted {fprs : List SmsqlFpr} (inOrder : FprsInOrder fprs) :
    fprs.Pairwise (· < ·) := by
  refine inOrder.imp fun {first second} below => ?_
  have less : dstrCmp2 first.text second.text < 0 := by
    rw [dstrCmp2_of_ne_nil first.ne_nil, ← folded_true first.text, ← folded_true second.text]
    exact below
  have differ : first ≠ second := fun same => less.ne (SmsqlFpr.dstrCmp2_eq_zero.mpr same)
  exact (SmsqlFpr.dstrCmp2_lt_zero differ).mp less

/-- A report of two lists of fingerprints in order is exact. -/
theorem reportChanges_exact {ssl : PemReader} {rows : DeviceRows ssl} {known fprs : List SmsqlFpr}
    (knownInOrder : FprsInOrder known) (fprsInOrder : FprsInOrder fprs)
    (found : Found rows known fprs) :
    Exact ssl known fprs (reportChanges rows.getDevice known fprs).1 := by
  have strict := knownInOrder.sorted
  have once : known.Nodup := strict.imp fun less => less.ne
  refine (exact_iff (strict.imp fun less => less.le) fprsInOrder.sorted found).mpr ?_
  exact fun fpr _ => nodup_iff_count_le_one.mp once fpr

/-- Strings are ordered if and only if none goes on with a NUL where another one ends, up to the
case of letters if it is ignored. A search tree keyed with such strings finds what is in it. The merge
of `kvpsend` is exact for all lists of keys in order if and only if the keys are such strings, and that
of `xkeysync` is for all lists of fingerprints in order. -/
theorem dstrCmp2_orders_iff (texts : Set Bytes) :
    (Orders true texts ↔ ∀ first ∈ texts, ∀ second ∈ texts, ¬first ++ [0] <+: second) ∧
      (Orders false texts ↔ ∀ first ∈ texts, ∀ second ∈ texts,
        ¬first.map ichar ++ [0] <+: second.map ichar) ∧
      (Orders true texts → ∀ inserted : List Bytes, (∀ text ∈ inserted, text ∈ texts) →
        inserted.Nodup → ∀ target ∈ texts,
          (((inserted.foldl (fun tree text => tree.insert (doDstrCmp2 true) text) ATree.nil).find
            (doDstrCmp2 true) target).isSome ↔ target ∈ inserted)) ∧
      (ScansExactly texts ↔ ∀ first ∈ texts, ∀ second ∈ texts, ¬first ++ [0] <+: second) ∧
      ∀ (ssl : PemReader) (rows : DeviceRows ssl) (known fprs : List SmsqlFpr), FprsInOrder known →
        FprsInOrder fprs → Found rows known fprs →
          Exact ssl known fprs (reportChanges rows.getDevice known fprs).1 := by
  have plain : NulApart true texts ↔ ∀ first ∈ texts, ∀ second ∈ texts, ¬first ++ [0] <+: second := by
    rw [NulApart]
    simp only [folded_true]
  refine ⟨(orders_iff true texts).trans plain, orders_iff false texts, ?_, ?_, ?_⟩
  · intro orders inserted known distinct target mem
    exact ((orders_iff true texts).mp orders).find_inserted known distinct mem
  · exact Iff.trans ⟨FullScan.nulApart_of_scansExactly, FullScan.scansExactly⟩ plain
  · exact fun ssl rows known fprs knownInOrder fprsInOrder found =>
      reportChanges_exact knownInOrder fprsInOrder found

/-- A string and what goes on with a NUL behind it: the comparison takes the first one for the
same as either of the others, which differ. -/
theorem dstrCmp2_nul :
    doDstrCmp2 true [120] [120, 0] = 0 ∧ doDstrCmp2 true [120, 0, 121] [120] ≤ 0 ∧
      ¬doDstrCmp2 true [120, 0, 121] [120, 0] ≤ 0 ∧
      ¬Orders true {[120], [120, 0], [120, 0, 121]} := by
  refine ⟨by decide, by decide, by decide, fun orders => ?_⟩
  have same := (orders.equal [120] (by simp) [120, 0] (by simp)).mp (by decide)
  exact absurd same (by decide)

/-- Two entries in the order of the tree, and their rows in the order of unsigned bytes: the scan deletes
the entry of the high byte and adds it again. -/
theorem fullScan_unsigned :
    RowsInOrder [⟨[233], []⟩, ⟨[97], []⟩] ∧
      fullScan [⟨[233], []⟩, ⟨[97], []⟩] [⟨[97], []⟩, ⟨[233], []⟩] false =
        ([⟨[233], []⟩, ⟨[97], []⟩], [.deleteKey [233], .addKey ⟨[233], []⟩]) := by
  have below : doDstrCmp2 true [233] [97] < 0 := by decide
  have above : ¬doDstrCmp2 true [97] [233] < 0 := by decide
  have same : doDstrCmp2 true [97] [97] = 0 := by decide
  refine ⟨pairwise_pair.mpr below, ?_⟩
  simp [fullScan, fullScanLoop, insertEntry, below, above, same, Scan.deleteEntry, Scan.entryNew,
    Scan.keepEntry]

end Splintermail
