/-
This file is the theory of a search tree seen as the sorted list of its nodes.

A search tree whose nodes carry their own key is observed through its in-order
traversal only: a lookup by key, an insertion that keeps the order, a removal by
key, and the position of a node in the traversal. A node is inserted in front of
the nodes with an equal key, so the traversal of a tree is a sorted list even
when keys repeat. Lookup and removal take the first node with the key; with
pairwise distinct keys, which is what `Sorted` says, there is only one.

A node that is changed in place through a pointer is the `update` of the tree at
its key.
-/

import Mathlib.Data.List.Sort
import Mathlib.Order.Lattice

namespace Splintermail

open List

namespace Tree

variable {Node Key : Type} [LinearOrder Key] (key : Node → Key)

/-! ### The operations -/

/-- The node with a key, if there is one. -/
def find (target : Key) (tree : List Node) : Option Node :=
  tree.find? fun node => key node = target

/-- Insert a node in front of the first node that is not smaller. -/
def insert (node : Node) (tree : List Node) : List Node :=
  tree.orderedInsert (fun first second => key first ≤ key second) node

/-- Remove the node with a key, if there is one. -/
def erase (target : Key) (tree : List Node) : List Node :=
  tree.eraseP fun node => key node = target

/-- Change the nodes with a key in place. -/
def update (target : Key) (change : Node → Node) (tree : List Node) : List Node :=
  tree.map fun node => if key node = target then change node else node

/-- The traversal is strictly increasing: the tree holds at most one node for a key. -/
def Sorted (tree : List Node) : Prop :=
  tree.Pairwise fun first second => key first < key second

variable {key}

/-! ### Membership -/

variable {node : Node} {tree : List Node}

@[simp] theorem mem_insert {other : Node} :
    other ∈ insert key node tree ↔ other = node ∨ other ∈ tree :=
  mem_orderedInsert _

variable {target : Key}

theorem mem_of_mem_erase (mem : node ∈ erase key target tree) : node ∈ tree :=
  mem_of_mem_eraseP mem

variable {change : Node → Node}

theorem mem_update :
    node ∈ update key target change tree ↔
      (node ∈ tree ∧ key node ≠ target) ∨ ∃ old ∈ tree, key old = target ∧ node = change old := by
  unfold update
  rw [mem_map]
  constructor
  · rintro ⟨old, mem, rfl⟩
    by_cases same : key old = target
    · exact .inr ⟨old, mem, same, if_pos same⟩
    · rw [if_neg same]
      exact .inl ⟨mem, same⟩
  · rintro (⟨mem, other⟩ | ⟨old, mem, same, rfl⟩)
    · exact ⟨node, mem, if_neg other⟩
    · exact ⟨old, mem, if_pos same⟩

theorem find_mem (found : find key target tree = some node) : node ∈ tree :=
  mem_of_find?_eq_some found

theorem find_key (found : find key target tree = some node) : key node = target := by
  simpa using find?_some found

theorem find_eq_none : find key target tree = none ↔ ∀ node ∈ tree, key node ≠ target := by
  unfold find
  rw [find?_eq_none]
  simp only [decide_eq_true_eq, ne_eq]

theorem update_of_not_mem (absent : ∀ node ∈ tree, key node ≠ target) :
    update key target change tree = tree := by
  unfold update
  conv_rhs => rw [← map_id tree]
  exact map_congr_left fun node mem => if_neg (absent node mem)

theorem find_update (keeps : ∀ node ∈ tree, key node = target → key (change node) = target) :
    find key target (update key target change tree) = (find key target tree).map change := by
  induction tree with
  | nil => rfl
  | cons head rest ih =>
    have restKeeps := ih fun node mem => keeps node (.tail _ mem)
    unfold find update at restKeeps ⊢
    rw [map_cons, find?_cons, find?_cons]
    by_cases same : key head = target
    · rw [if_pos same, decide_eq_true (keeps head mem_cons_self same), decide_eq_true same]
      rfl
    · rw [if_neg same, decide_eq_false same]
      exact restKeeps

/-! ### Trees with repeated keys -/

/-- The traversal is increasing, and keys may repeat. -/
def WeakSorted (key : Node → Key) (tree : List Node) : Prop :=
  tree.Pairwise fun first second => key first ≤ key second

theorem insert_eq_append (above : ∀ other ∈ tree, key other < key node) :
    insert key node tree = tree ++ [node] := by
  induction tree with
  | nil => rfl
  | cons head rest ih =>
    have headBelow := above head mem_cons_self
    unfold insert at ih ⊢
    rw [orderedInsert_cons, if_neg (not_le.mpr headBelow),
      ih fun other mem => above other (.tail _ mem)]
    rfl

theorem map_key_insert_erase (sorted : WeakSorted key tree)
    (found : ∃ old ∈ tree, key old = key node) :
    (insert key node (erase key (key node) tree)).map key = tree.map key := by
  induction tree with
  | nil =>
    obtain ⟨old, mem, -⟩ := found
    exact absurd mem not_mem_nil
  | cons head rest ih =>
    obtain ⟨headBelow, restSorted⟩ := pairwise_cons.mp sorted
    unfold insert erase at ih ⊢
    rw [eraseP_cons]
    by_cases same : key head = key node
    · rw [decide_eq_true same, cond_true]
      cases rest with
      | nil => simp [same]
      | cons next tail =>
        have below := headBelow next mem_cons_self
        rw [orderedInsert_cons, if_pos (same ▸ below), map_cons, map_cons, map_cons, map_cons, same]
    · have inRest : ∃ old ∈ rest, key old = key node := by
        obtain ⟨old, mem, equal⟩ := found
        rcases mem_cons.mp mem with rfl | mem
        · exact absurd equal same
        · exact ⟨old, mem, equal⟩
      have below : key head < key node := by
        obtain ⟨old, mem, equal⟩ := inRest
        exact lt_of_le_of_ne (equal ▸ headBelow old mem) same
      rw [decide_eq_false same, cond_false, orderedInsert_cons, if_neg (not_le.mpr below),
        map_cons, ih restSorted inRest, map_cons]

/-- The keys after an erasure are the keys with one occurrence erased. -/
theorem map_key_erase (target : Key) (tree : List Node) :
    (erase key target tree).map key = (tree.map key).erase target := by
  induction tree with
  | nil => rfl
  | cons head rest ih =>
    unfold erase at ih ⊢
    rw [eraseP_cons, map_cons, erase_cons]
    by_cases same : key head = target
    · rw [decide_eq_true same, cond_true, if_pos (beq_iff_eq.mpr same)]
    · rw [decide_eq_false same, cond_false, map_cons, ih,
        if_neg fun equal => same (beq_iff_eq.mp equal)]

theorem WeakSorted.map :
    WeakSorted key tree ↔ (tree.map key).Pairwise fun first second => first ≤ second :=
  pairwise_map.symm

/-! ### Sorted trees -/

theorem Sorted.nil : Sorted key ([] : List Node) := List.Pairwise.nil

section

variable (sorted : Sorted key tree)

include sorted

theorem Sorted.erase (target : Key) : Sorted key (erase key target tree) :=
  List.Pairwise.sublist eraseP_sublist sorted

theorem Sorted.insert (node : Node) (fresh : ∀ other ∈ tree, key other ≠ key node) :
    Sorted key (insert key node tree) := by
  induction tree with
  | nil => exact pairwise_singleton _ _
  | cons head rest ih =>
    obtain ⟨headBelow, restSorted⟩ := pairwise_cons.mp sorted
    have headFresh : key head ≠ key node := fresh head mem_cons_self
    unfold Tree.insert
    rw [orderedInsert_cons]
    split
    · rename_i below
      refine pairwise_cons.mpr ⟨?_, sorted⟩
      intro other mem
      rcases mem_cons.mp mem with rfl | mem
      · exact lt_of_le_of_ne below (Ne.symm headFresh)
      · exact lt_of_le_of_lt below (headBelow other mem)
    · rename_i above
      refine pairwise_cons.mpr ⟨?_, ih restSorted fun other mem =>
        fresh other (.tail _ mem)⟩
      intro other mem
      rcases mem_insert.mp mem with rfl | mem
      · exact not_le.mp above
      · exact headBelow other mem

theorem Sorted.update (target : Key) (change : Node → Node)
    (keeps : ∀ node ∈ tree, key node = target → key (change node) = target) :
    Sorted key (update key target change tree) := by
  have sameKey : ∀ node ∈ tree,
      key (if key node = target then change node else node) = key node := by
    intro node mem
    by_cases same : key node = target
    · rw [if_pos same, keeps node mem same, same]
    · rw [if_neg same]
  refine pairwise_map.mpr (sorted.imp_of_mem fun {first second} firstMem secondMem below => ?_)
  rw [sameKey first firstMem, sameKey second secondMem]
  exact below

theorem Sorted.eq_of_key {first second : Node} (firstMem : first ∈ tree) (secondMem : second ∈ tree)
    (same : key first = key second) : first = second := by
  induction tree with
  | nil => cases firstMem
  | cons head rest ih =>
    obtain ⟨headBelow, restSorted⟩ := pairwise_cons.mp sorted
    rcases mem_cons.mp firstMem with rfl | firstRest <;>
      rcases mem_cons.mp secondMem with rfl | secondRest
    · rfl
    · exact absurd same (ne_of_lt (headBelow second secondRest))
    · exact absurd same (ne_of_gt (headBelow first firstRest))
    · exact ih restSorted firstRest secondRest

theorem Sorted.find_eq_some :
    find key target tree = some node ↔ node ∈ tree ∧ key node = target := by
  constructor
  · exact fun found => ⟨find_mem found, find_key found⟩
  · rintro ⟨mem, same⟩
    cases found : find key target tree with
    | none => exact absurd same (find_eq_none.mp found node mem)
    | some other =>
      rw [sorted.eq_of_key (find_mem found) mem ((find_key found).trans same.symm)]

theorem Sorted.mem_erase : node ∈ Tree.erase key target tree ↔ node ∈ tree ∧ key node ≠ target := by
  constructor
  · intro mem
    refine ⟨mem_of_mem_erase mem, fun same => ?_⟩
    induction tree with
    | nil => cases mem
    | cons head rest ih =>
      obtain ⟨headBelow, restSorted⟩ := pairwise_cons.mp sorted
      unfold Tree.erase at mem
      rw [eraseP_cons] at mem
      by_cases headSame : key head = target
      · rw [decide_eq_true headSame, cond_true] at mem
        have below := headBelow node mem
        rw [headSame, same] at below
        exact lt_irrefl _ below
      · rw [decide_eq_false headSame, cond_false] at mem
        rcases mem_cons.mp mem with rfl | inRest
        · exact headSame same
        · exact ih restSorted inRest
  · rintro ⟨mem, other⟩
    unfold Tree.erase
    rw [mem_eraseP_of_neg (by simpa using other)]
    exact mem

theorem Sorted.nodup : tree.Nodup :=
  List.Pairwise.imp (fun below equal => ne_of_lt below (congrArg key equal)) sorted

end

theorem Sorted.ext {first second : List Node} (firstSorted : Sorted key first)
    (secondSorted : Sorted key second) (same : ∀ node, node ∈ first ↔ node ∈ second) :
    first = second := by
  have perm : first.Perm second :=
    (perm_ext_iff_of_nodup firstSorted.nodup secondSorted.nodup).mpr same
  exact perm.eq_of_pairwise (fun _ _ _ _ below above => absurd above (lt_asymm below))
    firstSorted secondSorted

/-- Changing the one node with a key is replacing it. -/
theorem Sorted.update_eq_insert_erase (sorted : Sorted key tree) {old : Node} (mem : old ∈ tree)
    (same : key (change old) = key old) :
    Tree.update key (key old) change tree =
      Tree.insert key (change old) (Tree.erase key (key old) tree) := by
  have onlyOld : ∀ node ∈ tree, key node = key old → node = old := fun node nodeMem equal =>
    sorted.eq_of_key nodeMem mem equal
  refine (sorted.update _ _ fun node nodeMem equal => ?_).ext
    ((sorted.erase _).insert _ fun other otherMem => ?_) fun node => ?_
  · rw [onlyOld node nodeMem equal, same]
  · rw [same]
    exact (sorted.mem_erase.mp otherMem).2
  · rw [mem_update, mem_insert, sorted.mem_erase]
    constructor
    · rintro (kept | ⟨node, nodeMem, equal, rfl⟩)
      · exact .inr kept
      · rw [onlyOld node nodeMem equal]
        exact .inl rfl
    · rintro (rfl | kept)
      · exact .inr ⟨old, mem, rfl, rfl⟩
      · exact .inl kept

/-! ### Lookup after a change -/

theorem Sorted.find_insert (sorted : Sorted key tree) (fresh : ∀ other ∈ tree, key other ≠ key node)
    (target : Key) :
    find key target (Tree.insert key node tree) =
      if key node = target then some node else find key target tree := by
  split
  · rename_i same
    exact (sorted.insert node fresh).find_eq_some.mpr ⟨mem_insert.mpr (.inl rfl), same⟩
  · rename_i other
    cases found : find key target tree with
    | none =>
      refine find_eq_none.mpr fun candidate mem => ?_
      rcases mem_insert.mp mem with rfl | mem
      · exact other
      · exact find_eq_none.mp found candidate mem
    | some candidate =>
      exact (sorted.insert node fresh).find_eq_some.mpr
        ⟨mem_insert.mpr (.inr (find_mem found)), find_key found⟩

end Tree

end Splintermail
