/-
This file models `seq_set_to_canonical_uids_dn`, which resolves the message set of a command to
the uids of messages in the view, and says what the result denotes.

A number of the set is a uid or a sequence number, which is looked up in the view. What is
found is collected in a builder, whose ranges are joined where they touch. The uids come out
in ascending order and without duplicates, unless the view has the largest uid there is and
the set denotes it more than once.
-/

import Mathlib.Order.MinMax
import Splintermail.Imap.SeqSet
import Splintermail.Imaildir.Dn
import Splintermail.Lib.ATree
import Splintermail.Lib.Fuel

namespace Splintermail

open List Splintermail.Tree MsgView IeSeqRange IeSeqSet

/-! ### The resolution -/

/-- One round of the loop of `seq_set_to_canonical_uids_dn`. -/
def canonicalStep (views : List MsgView) (uidMode : Bool) (ssb : List IeSeqRange) (i : Nat) :
    Except Derr (List IeSeqRange) :=
  if uidMode then
    match find uidDn i views with
    | none => .ok ssb
    | some view => seqSetBuilderAddVal ssb view.uidDn
  else
    match views[i - 1]? with
    | none => .error ⟨.internal, "missing seq number??"⟩
    | some view => seqSetBuilderAddVal ssb view.uidDn

/-- `seq_set_to_canonical_uids_dn`: the canonical set, and whether the given one is valid. -/
def seqSetToCanonicalUidsDn (views : List MsgView) (uidMode : Bool) (old : IeSeqSet) :
    Except Derr (IeSeqSet × Bool) :=
  match views.head?, views.getLast? with
  | some firstView, some lastView => do
    let (first, last) ←
      if uidMode then pure (firstView.uidDn, lastView.uidDn)
      else do pure (1, ← indexToSeqNum (views.length - 1))
    if !uidMode && old.any fun range => max range.n1 range.n2 > views.length then return ([], false)
    else
      let ssb ← (ieSeqSetValues old first last).foldlM (canonicalStep views uidMode) []
      return (seqSetBuilderExtract ssb, true)
  | _, _ => .ok ([], uidMode)

/-! ### What a message set denotes -/

/-- The views are in the order of their uids, which are positive `unsigned int`s. -/
structure Numbered (views : List MsgView) : Prop where
  sorted : Sorted uidDn views
  positive : ∀ view ∈ views, view.uidDn ≠ 0
  small : ∀ view ∈ views, view.uidDn ≤ uintMax

/-- The number that a message set has for a view. -/
def viewNumber (uidMode : Bool) (index : Nat) (view : MsgView) : Nat :=
  if uidMode then view.uidDn else index + 1

/-- What `*` stands for: the largest uid or sequence number. -/
def largestNumber (views : List MsgView) (uidMode : Bool) : Nat :=
  if uidMode then (views.getLast?.map uidDn).getD 0 else views.length

/-- A uid is denoted: a message in the view has it, and its number is in a range. -/
def SetDenotes (views : List MsgView) (uidMode : Bool) (set : IeSeqSet) (uidDn : Nat) : Prop :=
  ∃ index view, views[index]? = some view ∧ view.uidDn = uidDn ∧
    ∃ range ∈ set, range.Denotes (largestNumber views uidMode) (viewNumber uidMode index view)

/-- The set is not valid: it names a number above the size of the view, or there is no message. -/
def SetInvalid (views : List MsgView) (uidMode : Bool) (set : IeSeqSet) : Prop :=
  uidMode = false ∧ (views = [] ∨ ∃ range ∈ set, views.length < range.n1 ∨ views.length < range.n2)

/-- The last message has the largest uid there is, and more than one range denotes it. -/
def DoubledMaximum (views : List MsgView) (uidMode : Bool) (set : IeSeqSet) : Prop :=
  views.getLast?.map uidDn = some uintMax ∧ 1 < set.countP fun range =>
      range.Denotes (largestNumber views uidMode) (largestNumber views uidMode)

instance (views : List MsgView) (uidMode : Bool) (set : IeSeqSet) :
    Decidable (DoubledMaximum views uidMode set) := inferInstanceAs (Decidable (_ ∧ _))

/-! ### Numbers of views -/

section Numbers

variable {views : List MsgView} (numbered : Numbered views)

include numbered

variable {index : Nat} {view : MsgView}

theorem Numbered.index_lt (at_ : views[index]? = some view) : index < view.uidDn := by
  induction index generalizing view with
  | zero => exact Nat.pos_of_ne_zero (numbered.positive view (mem_of_getElem? at_))
  | succ index ih =>
    obtain ⟨inside, rfl⟩ := List.getElem?_eq_some_iff.mp at_
    have before : index < views.length := Nat.lt_of_succ_lt inside
    have lower := ih (getElem?_eq_getElem before)
    have next := pairwise_iff_getElem.mp numbered.sorted index (index + 1) before inside
      (Nat.lt_succ_self index)
    omega

theorem Numbered.length_le : views.length ≤ uintMax := by
  cases size : views.length with
  | zero => exact Nat.zero_le _
  | succ count =>
    have inside : count < views.length := by omega
    have last := getElem?_eq_getElem inside
    exact (numbered.index_lt last).trans_le (numbered.small _ (mem_of_getElem? last))

theorem Numbered.uidDn_le {other : Nat} {later : MsgView} (at_ : views[index]? = some view)
    (atOther : views[other]? = some later) (order : index ≤ other) : view.uidDn ≤ later.uidDn := by
  obtain ⟨inside, rfl⟩ := List.getElem?_eq_some_iff.mp at_
  obtain ⟨otherInside, rfl⟩ := List.getElem?_eq_some_iff.mp atOther
  obtain rfl | before := Nat.eq_or_lt_of_le order
  · exact le_rfl
  · exact Nat.le_of_lt (pairwise_iff_getElem.mp numbered.sorted index other inside otherInside before)

theorem Numbered.index_inj {other : Nat} {later : MsgView} (at_ : views[index]? = some view)
    (atOther : views[other]? = some later) (same : view.uidDn = later.uidDn) : index = other := by
  obtain ⟨inside, rfl⟩ := List.getElem?_eq_some_iff.mp at_
  obtain ⟨otherInside, rfl⟩ := List.getElem?_eq_some_iff.mp atOther
  have compare := pairwise_iff_getElem.mp numbered.sorted
  obtain before | equal | after := Nat.lt_trichotomy index other
  · exact absurd (compare index other inside otherInside before) (Nat.not_lt_of_le same.ge)
  · exact equal
  · exact absurd (compare other index otherInside inside after) (Nat.not_lt_of_le same.le)

omit numbered in
theorem exists_getLast (at_ : views[index]? = some view) :
    ∃ last, views.getLast? = some last ∧ views[views.length - 1]? = some last := by
  have inhabited : views ≠ [] := ne_nil_of_mem (mem_of_getElem? at_)
  obtain ⟨last, isLast⟩ := Option.isSome_iff_exists.mp (getLast?_isSome.mpr inhabited)
  exact ⟨last, isLast, getLast?_eq_getElem?.symm.trans isLast⟩

theorem Numbered.viewNumber_eq_largest {uidMode : Bool} (at_ : views[index]? = some view) :
    viewNumber uidMode index view = largestNumber views uidMode ↔ index + 1 = views.length := by
  obtain ⟨inside, -⟩ := List.getElem?_eq_some_iff.mp at_
  cases uidMode with
  | false => exact Iff.rfl
  | true =>
    obtain ⟨last, isLast, lastAt⟩ := exists_getLast at_
    unfold viewNumber largestNumber
    rw [isLast, if_pos rfl, if_pos rfl]
    constructor
    · intro same
      have equal := numbered.index_inj at_ lastAt same
      omega
    · intro equal
      rw [show index = views.length - 1 by omega, lastAt] at at_
      rw [Option.some.inj at_]
      rfl

theorem Numbered.viewNumber_le {uidMode : Bool} (at_ : views[index]? = some view) :
    viewNumber uidMode index view ≤ largestNumber views uidMode := by
  obtain ⟨inside, -⟩ := List.getElem?_eq_some_iff.mp at_
  cases uidMode with
  | false => exact inside
  | true =>
    obtain ⟨last, isLast, lastAt⟩ := exists_getLast at_
    unfold viewNumber largestNumber
    rw [isLast, if_pos rfl, if_pos rfl]
    exact numbered.uidDn_le at_ lastAt (by omega)

end Numbers

/-! ### The loop -/

/-- The uid that a number stands for. -/
def lookupNumber (views : List MsgView) (uidMode : Bool) (n : Nat) : Option Nat :=
  if uidMode then (find uidDn n views).map uidDn
  else views[n - 1]?.map uidDn

section Loop

variable {views : List MsgView} (numbered : Numbered views)

include numbered

/-- A positive number stands for the uid of the view that has it. -/
theorem lookupNumber_eq_some {uidMode : Bool} {n uidDn : Nat} (positive : n ≠ 0) :
    lookupNumber views uidMode n = some uidDn ↔
      ∃ index view, views[index]? = some view ∧ view.uidDn = uidDn ∧
        viewNumber uidMode index view = n := by
  unfold lookupNumber viewNumber
  cases uidMode with
  | true =>
    simp only [if_true, Option.map_eq_some_iff]
    constructor
    · rintro ⟨view, found, rfl⟩
      obtain ⟨index, at_⟩ := mem_iff_getElem?.mp (find_mem found)
      exact ⟨index, view, at_, rfl, find_key found⟩
    · rintro ⟨index, view, at_, rfl, rfl⟩
      exact ⟨view, (numbered.sorted.find_eq_some).mpr ⟨mem_of_getElem? at_, rfl⟩, rfl⟩
  | false =>
    simp only [Bool.false_eq_true, if_false, Option.map_eq_some_iff]
    constructor
    · rintro ⟨view, at_, rfl⟩
      exact ⟨n - 1, view, at_, rfl, Nat.succ_pred_eq_of_pos (Nat.pos_of_ne_zero positive)⟩
    · rintro ⟨index, view, at_, rfl, rfl⟩
      exact ⟨view, at_, rfl⟩

/-- The loop collects the uids that the numbers stand for. -/
theorem foldlM_canonicalStep {uidMode : Bool} {numbers : List Nat} (uids : List Nat)
    (inside : uidMode = false → ∀ n ∈ numbers, n ≠ 0 ∧ n ≤ views.length) :
    numbers.foldlM (canonicalStep views uidMode) (uids.map single) =
      .ok (((numbers.filterMap (lookupNumber views uidMode)).foldl
        (fun uids uidDn => insert id uidDn uids) uids).map single) := by
  induction numbers generalizing uids with
  | nil => rfl
  | cons n rest ih =>
    have restInside : uidMode = false → ∀ n ∈ rest, n ≠ 0 ∧ n ≤ views.length :=
      fun mode other mem => inside mode other (.tail _ mem)
    have step : canonicalStep views uidMode (uids.map single) n =
        .ok (((lookupNumber views uidMode n).elim uids fun uidDn => insert id uidDn uids).map
          single) := by
      unfold canonicalStep lookupNumber
      cases uidMode with
      | true =>
        rw [if_pos rfl, if_pos rfl]
        cases found : find uidDn n views with
        | none => rfl
        | some view => exact seqSetBuilderAddVal_eq (numbered.positive view (find_mem found))
      | false =>
        obtain ⟨positive, bounded⟩ := inside rfl n mem_cons_self
        have at_ := List.getElem?_eq_getElem (l := views) (i := n - 1) (by omega)
        rw [if_neg Bool.false_ne_true, if_neg Bool.false_ne_true, at_]
        exact seqSetBuilderAddVal_eq (numbered.positive _ (mem_of_getElem? at_))
    rw [foldlM_cons, step]
    refine (ih _ restInside).trans ?_
    rw [filterMap_cons]
    cases lookupNumber views uidMode n <;> rfl

end Loop

theorem foldl_insert_perm (numbers uids : List Nat) :
    (numbers.foldl (fun uids uidDn => insert id uidDn uids) uids).Perm (numbers ++ uids) := by
  induction numbers generalizing uids with
  | nil => exact .refl _
  | cons n rest ih =>
    have inserted : (insert id n uids).Perm (n :: uids) := perm_orderedInsert _ n uids
    exact ((ih _).trans (inserted.append_left rest)).trans perm_middle

theorem foldl_insert_sorted (numbers : List Nat) {uids : List Nat} (sorted : WeakSorted id uids) :
    WeakSorted id (numbers.foldl (fun uids uidDn => insert id uidDn uids) uids) := by
  induction numbers generalizing uids with
  | nil => exact sorted
  | cons n rest ih => exact ih (ATree.weakSorted_insert sorted)

/-- The largest number comes up once for each range that denotes it. -/
theorem count_largest {least largest : Nat} (bounded : largest ≠ 0) (ordered : least ≤ largest)
    (set : IeSeqSet) :
    (set.flatMap fun range => range.clip least largest).count largest =
      set.countP fun range => range.Denotes largest largest := by
  induction set with
  | nil => rfl
  | cons range rest ih =>
    have mem : largest ∈ range.clip least largest ↔ range.Denotes largest largest := by
      rw [mem_clip bounded]
      exact and_iff_left ⟨ordered, Nat.le_refl largest⟩
    rw [flatMap_cons, count_append, ih, countP_cons, Nat.add_comm,
      (nodup_clip least largest range).count]
    simp only [mem, decide_eq_true_eq]

section Resolution

variable {views : List MsgView} (numbered : Numbered views)

include numbered

/-- The numbers of the loop that stand for the largest uid there is. -/
theorem lookupNumber_eq_uintMax {uidMode : Bool} {n : Nat} (positive : n ≠ 0) :
    lookupNumber views uidMode n = some uintMax ↔
      views.getLast?.map uidDn = some uintMax ∧ n = largestNumber views uidMode := by
  rw [lookupNumber_eq_some numbered positive]
  constructor
  · rintro ⟨index, view, at_, largest, rfl⟩
    obtain ⟨last, isLast, lastAt⟩ := exists_getLast at_
    obtain ⟨inside, -⟩ := List.getElem?_eq_some_iff.mp at_
    have above := numbered.uidDn_le at_ lastAt (by omega)
    have same : view.uidDn = last.uidDn :=
      Nat.le_antisymm above (largest ▸ numbered.small last (mem_of_getElem? lastAt))
    have final := numbered.index_inj at_ lastAt same
    rw [isLast, numbered.viewNumber_eq_largest at_]
    exact ⟨congrArg some (same ▸ largest), by omega⟩
  · rintro ⟨isLargest, rfl⟩
    obtain ⟨last, isLast, largest⟩ := Option.map_eq_some_iff.mp isLargest
    have lastAt : views[views.length - 1]? = some last := List.getLast?_eq_getElem?.symm.trans isLast
    obtain ⟨inside, -⟩ := List.getElem?_eq_some_iff.mp lastAt
    exact ⟨_, last, lastAt, largest, (numbered.viewNumber_eq_largest lastAt).mpr (by omega)⟩

/-- What the numbers between two bounds that hold all numbers of the view come to. -/
theorem resolve_numbers {uidMode : Bool} {least : Nat} (set : IeSeqSet) (positive : least ≠ 0)
    (ordered : least ≤ largestNumber views uidMode)
    (covers : ∀ {index view}, views[index]? = some view → least ≤ viewNumber uidMode index view) :
    let uids := (set.flatMap fun range => range.clip least (largestNumber views uidMode)).filterMap
      (lookupNumber views uidMode)
    (∀ uidDn, uidDn ∈ uids ↔ SetDenotes views uidMode set uidDn) ∧
      (uids.count uintMax ≤ 1 ↔ ¬ DoubledMaximum views uidMode set) := by
  have bounded : largestNumber views uidMode ≠ 0 := fun zero =>
    positive (Nat.le_zero.mp (zero ▸ ordered))
  have nonzero : ∀ n ∈ set.flatMap fun range => range.clip least (largestNumber views uidMode),
      n ≠ 0 := by
    intro n mem
    obtain ⟨range, -, inClip⟩ := mem_flatMap.mp mem
    have lower := ((mem_clip bounded).mp inClip).2.1
    omega
  refine ⟨fun uidDn => ?_, ?_⟩
  · rw [mem_filterMap]
    constructor
    · rintro ⟨n, mem, found⟩
      obtain ⟨index, view, at_, same, rfl⟩ := (lookupNumber_eq_some numbered (nonzero n mem)).mp found
      obtain ⟨range, inSet, inClip⟩ := mem_flatMap.mp mem
      exact ⟨index, view, at_, same, range, inSet, ((mem_clip bounded).mp inClip).1⟩
    · rintro ⟨index, view, at_, same, range, inSet, denotes⟩
      have mem := mem_flatMap.mpr ⟨range, inSet, (mem_clip bounded).mpr
        ⟨denotes, covers at_, numbered.viewNumber_le at_⟩⟩
      exact ⟨_, mem, (lookupNumber_eq_some numbered (nonzero _ mem)).mpr
        ⟨index, view, at_, same, rfl⟩⟩
  · rw [count_filterMap]
    by_cases isLargest : views.getLast?.map uidDn = some uintMax
    · rw [countP_congr (q := fun n => n == largestNumber views uidMode) fun n mem => by
          rw [beq_iff_eq, beq_iff_eq, lookupNumber_eq_uintMax numbered (nonzero n mem)]
          exact and_iff_right isLargest]
      change List.count _ _ ≤ 1 ↔ _
      rw [count_largest bounded ordered]
      unfold DoubledMaximum
      rw [and_iff_right isLargest, not_lt]
    · rw [countP_eq_zero.mpr fun n mem found => isLargest
        ((lookupNumber_eq_uintMax numbered (nonzero n mem)).mp (beq_iff_eq.mp found)).1]
      exact iff_of_true (Nat.zero_le 1) fun doubled => isLargest doubled.1

/-- The loop of a valid set, and what is extracted. -/
theorem extract_numbers (uidMode : Bool) (least : Nat) {set : IeSeqSet}
    (fits : ∀ range ∈ set, range.Fits) (positive : least ≠ 0)
    (ordered : least ≤ largestNumber views uidMode) (small : largestNumber views uidMode ≤ uintMax)
    (covers : ∀ {index view}, views[index]? = some view → least ≤ viewNumber uidMode index view) :
    ∃ ssb, (ieSeqSetValues set least (largestNumber views uidMode)).foldlM
        (canonicalStep views uidMode) [] = .ok ssb ∧
      Canonical (seqSetBuilderExtract ssb) ∧
      (∀ uidDn, uidDn ∈ expand (seqSetBuilderExtract ssb) ↔ SetDenotes views uidMode set uidDn) ∧
      ((expand (seqSetBuilderExtract ssb)).Pairwise (· < ·) ↔
        ¬ DoubledMaximum views uidMode set) := by
  have bounded : largestNumber views uidMode ≠ 0 := fun zero =>
    positive (Nat.le_zero.mp (zero ▸ ordered))
  have inClip : ∀ range ∈ set, ∀ n ∈ range.clip least (largestNumber views uidMode),
      least ≤ n ∧ n ≤ largestNumber views uidMode := fun range _ n mem =>
    ((mem_clip bounded).mp mem).2
  have numbers := ieSeqSetValues_eq ⟨ordered.trans small, small⟩ (.inr ordered) fits
    fun range mem n inRange => by
      have lower := (inClip range mem n inRange).1
      omega
  obtain ⟨members, doubled⟩ := resolve_numbers numbered set positive ordered covers
  generalize found : (set.flatMap fun range => range.clip least
    (largestNumber views uidMode)).filterMap (lookupNumber views uidMode) = uids at members doubled
  have order := foldl_insert_perm uids []
  rw [append_nil] at order
  have inViews : ∀ uidDn ∈ uids.foldl (fun uids uidDn => insert id uidDn uids) [],
      uidDn ≠ 0 ∧ uidDn ≤ uintMax := by
    intro uidDn mem
    obtain ⟨index, view, at_, rfl, -⟩ := (members uidDn).mp (order.mem_iff.mp mem)
    exact ⟨numbered.positive view (mem_of_getElem? at_), numbered.small view (mem_of_getElem? at_)⟩
  have sorted := foldl_insert_sorted uids .nil
  obtain ⟨expanded, ascending⟩ := expand_seqSetBuilderExtract sorted
    fun uidDn mem => (inViews uidDn mem).2
  refine ⟨_, ?_, ⟨_, sorted, inViews, rfl⟩, fun uidDn => (expanded uidDn).trans (order.mem_iff.trans (members uidDn)),
    ascending.trans ?_⟩
  · rw [numbers, ← found]
    refine foldlM_canonicalStep numbered [] fun mode n mem => ?_
    obtain ⟨range, inSet, inRange⟩ := mem_flatMap.mp mem
    have bounds := inClip range inSet n inRange
    rw [mode] at bounds
    exact ⟨by omega, bounds.2⟩
  · rw [order.count_eq]
    exact doubled

end Resolution

/-- A message set is refused if and only if it is no UID command and names a number above the size of
the view, or the view is empty. Else the result denotes the uids in the view that the set denotes, and
it has them in ascending order and once each if and only if the largest uid there is is not doubled. -/
theorem seqSetToCanonicalUidsDn_denotes {views : List MsgView} (numbered : Numbered views)
    (uidMode : Bool) (set : IeSeqSet) (fits : ∀ range ∈ set, range.Fits) :
    ∃ out ok, seqSetToCanonicalUidsDn views uidMode set = .ok (out, ok) ∧
      Canonical out ∧ (ok = false ↔ SetInvalid views uidMode set) ∧
      (ok = true →
        (∀ uidDn, uidDn ∈ expand out ↔ SetDenotes views uidMode set uidDn) ∧
          ((expand out).Pairwise (· < ·) ↔ ¬ DoubledMaximum views uidMode set)) := by
  cases empty : views with
  | nil =>
    refine ⟨[], uidMode, rfl, .nil, ⟨fun mode => ⟨mode, .inl rfl⟩, And.left⟩, fun _ => ⟨fun uidDn => ?_, ?_⟩⟩
    · exact iff_of_false not_mem_nil fun ⟨_, _, at_, _⟩ => nomatch at_
    · exact iff_of_true .nil fun doubled => nomatch doubled.1
  | cons firstView rest =>
    rw [empty] at numbered
    obtain ⟨last, isLast, lastAt⟩ := @exists_getLast (firstView :: rest) 0 firstView rfl
    have headAt : (firstView :: rest)[0]? = some firstView := rfl
    have inViews := mem_of_getElem? lastAt
    have fewer := numbered.length_le
    cases uidMode with
    | true =>
      have largest : largestNumber (firstView :: rest) true = last.uidDn := by
        unfold largestNumber
        rw [isLast]
        rfl
      obtain ⟨ssb, loops, canonical, members, ascending⟩ := extract_numbers numbered true
        firstView.uidDn fits (numbered.positive firstView mem_cons_self)
        (largest ▸ numbered.uidDn_le headAt lastAt (Nat.zero_le _))
        (largest ▸ numbered.small last inViews)
        fun at_ => numbered.uidDn_le headAt at_ (Nat.zero_le _)
      refine ⟨seqSetBuilderExtract ssb, true, ?_, canonical,
        iff_of_false Bool.false_ne_true.symm fun invalid => Bool.false_ne_true.symm invalid.1,
        fun _ => ⟨members, ascending⟩⟩
      unfold seqSetToCanonicalUidsDn
      rw [isLast]
      dsimp only [List.head?_cons]
      rw [if_pos rfl]
      rw [largest] at loops
      exact congrArg (· >>= fun ssb => .ok (seqSetBuilderExtract ssb, true)) loops
    | false =>
      have numbersFit : indexToSeqNum ((firstView :: rest).length - 1) =
          .ok (firstView :: rest).length := if_neg (Nat.not_le_of_lt fewer)
      have refuses : (set.any fun range => max range.n1 range.n2 > (firstView :: rest).length) = true ↔
          SetInvalid (firstView :: rest) false set := by
        rw [any_eq_true]
        simp only [decide_eq_true_eq, gt_iff_lt, lt_max_iff]
        exact ⟨fun above => ⟨rfl, .inr above⟩, fun invalid => invalid.2.resolve_left nofun⟩
      unfold seqSetToCanonicalUidsDn
      rw [isLast]
      dsimp only [List.head?_cons]
      rw [if_neg Bool.false_ne_true, numbersFit]
      by_cases invalid : (set.any fun range =>
          max range.n1 range.n2 > (firstView :: rest).length) = true
      · refine ⟨[], false, ?_, .nil, iff_of_true rfl (refuses.mp invalid), nofun⟩
        exact if_pos invalid
      · obtain ⟨ssb, loops, canonical, members, ascending⟩ := extract_numbers numbered false
          1 fits Nat.one_ne_zero (Nat.succ_pos _) fewer fun _ => Nat.succ_pos _
        refine ⟨seqSetBuilderExtract ssb, true, ?_, canonical,
          iff_of_false Bool.false_ne_true.symm fun refused => invalid (refuses.mpr refused),
          fun _ => ⟨members, ascending⟩⟩
        refine (if_neg invalid).trans ?_
        exact congrArg (· >>= fun ssb => .ok (seqSetBuilderExtract ssb, true)) loops

/-- What the resolution of a message set should come to. -/
def ResolvesRight (views : List MsgView) (uidMode : Bool) (set : IeSeqSet) : Prop :=
  ∃ out ok, seqSetToCanonicalUidsDn views uidMode set = .ok (out, ok) ∧
    (ok = false ↔ SetInvalid views uidMode set) ∧
    (ok = true →
      (∀ uidDn, uidDn ∈ expand out ↔ SetDenotes views uidMode set uidDn) ∧
        (expand out).Pairwise (· < ·))

/-- A message set is resolved as it should be if and only if it is invalid or the largest uid there is
is not doubled. -/
theorem seqSetToCanonicalUidsDn_right {views : List MsgView} (numbered : Numbered views)
    (uidMode : Bool) {set : IeSeqSet} (fits : ∀ range ∈ set, range.Fits) :
    ResolvesRight views uidMode set ↔
      (SetInvalid views uidMode set ∨ ¬ DoubledMaximum views uidMode set) := by
  obtain ⟨out, ok, resolved, -, refused, denotes⟩ := seqSetToCanonicalUidsDn_denotes numbered uidMode set fits
  constructor
  · rintro ⟨other, otherOk, same, otherRefused, right⟩
    cases resolved.symm.trans same
    cases ok with
    | false => exact .inl (refused.mp rfl)
    | true => exact .inr ((denotes rfl).2.mp (right rfl).2)
  · intro condition
    refine ⟨out, ok, resolved, refused, fun valid => ⟨(denotes valid).1, (denotes valid).2.mpr ?_⟩⟩
    refine condition.resolve_left fun invalid => ?_
    exact Bool.false_ne_true ((refused.mpr invalid).symm.trans valid)

/-- A message with a uid. -/
def plainView (uidDn : Nat) : MsgView where
  key := .up uidDn
  uidDn := uidDn
  length := 0
  internaldate := {}
  flags := {}

/-- The set `5:*,2,2:3` and a view of three messages. -/
theorem seqSetToCanonicalUidsDn_right_three :
    ResolvesRight [plainView 2, plainView 3, plainView 4] true [⟨5, 0⟩, ⟨2, 2⟩, ⟨2, 3⟩] ↔
      (SetInvalid [plainView 2, plainView 3, plainView 4] true [⟨5, 0⟩, ⟨2, 2⟩, ⟨2, 3⟩] ∨
        ¬ DoubledMaximum [plainView 2, plainView 3, plainView 4] true [⟨5, 0⟩, ⟨2, 2⟩, ⟨2, 3⟩]) :=
  seqSetToCanonicalUidsDn_right ⟨by unfold Sorted; decide, by decide, by decide⟩ true (by decide)

/-- The set `*,*` and a view of one message with the largest uid. -/
theorem seqSetToCanonicalUidsDn_doubled :
    ¬ ResolvesRight [plainView uintMax] true [⟨0, 0⟩, ⟨0, 0⟩] := by
  have numbered : Numbered [plainView uintMax] :=
    ⟨pairwise_singleton _ _, by decide, by decide⟩
  rintro ⟨other, otherOk, same, -, right⟩
  obtain ⟨out, ok, resolved, -, refused, denotes⟩ :=
    seqSetToCanonicalUidsDn_denotes numbered true [⟨0, 0⟩, ⟨0, 0⟩] (by decide)
  obtain ⟨rfl, rfl⟩ := Prod.mk.inj (Except.ok.inj (resolved.symm.trans same))
  cases ok with
  | false => exact Bool.false_ne_true.symm (refused.mp rfl).1
  | true => exact absurd (by decide) ((denotes rfl).2.mp (right rfl).2)

end Splintermail
