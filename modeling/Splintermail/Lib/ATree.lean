/-
This file is the theory of Andersson trees whose nodes are ordered by a comparison
function that may be given by anybody.

A lookup follows the comparisons from the root down, an insertion hangs a new leaf
where the comparisons lead and rebalances on the way back up. Both find what is in the
tree as long as the comparison ranks the nodes that there are: it calls two of them
equal only if they are, and otherwise agrees with some linear order. Nothing is asked of
the comparison elsewhere.
-/

import Mathlib.Data.List.Sort
import Mathlib.Data.Set.Basic
import Splintermail.Lib.Tree

namespace Splintermail

open List

/-- A tree with the level of each node; the sentinel has level zero. -/
inductive ATree (Node : Type) where
  | nil
  | node (level : Nat) (left : ATree Node) (value : Node) (right : ATree Node)
  deriving DecidableEq

namespace ATree

variable {Node Rank : Type} [LinearOrder Rank]

/-! ### The operations -/

def level : ATree Node → Nat
  | nil => 0
  | node level _ _ _ => level

/-- The nodes in order. -/
def toList : ATree Node → List Node
  | nil => []
  | node _ left value right => left.toList ++ value :: right.toList

/-- A left horizontal link is removed. -/
def skew : ATree Node → ATree Node
  | node level (node leftLevel inner leftValue middle) value right =>
    if leftLevel = level then node leftLevel inner leftValue (node level middle value right)
    else node level (node leftLevel inner leftValue middle) value right
  | tree => tree

/-- Consecutive right horizontal links are removed. -/
def split : ATree Node → ATree Node
  | node level left value (node rightLevel middle rightValue (node lastLevel inner last outer)) =>
    if lastLevel = level then
      node (rightLevel + 1) (node level left value middle) rightValue
        (node lastLevel inner last outer)
    else node level left value (node rightLevel middle rightValue (node lastLevel inner last outer))
  | tree => tree

variable (compare : Node → Node → Int)

/-- A lookup: the node that compares equal, if the comparisons lead to one. -/
def find (target : Node) : ATree Node → Option Node
  | nil => none
  | node _ left value right =>
    if compare value target = 0 then some value
    else if compare value target < 0 then find target right
    else find target left

/-- An insertion; a node goes to the left of its equals. -/
def insert (fresh : Node) : ATree Node → ATree Node
  | nil => node 1 nil fresh nil
  | node level left value right =>
    if compare value fresh < 0 then split (skew (node level left value (insert fresh right)))
    else split (skew (node level (insert fresh left) value right))

variable {compare}

/-! ### The nodes in order -/

theorem toList_skew (tree : ATree Node) : tree.skew.toList = tree.toList := by
  unfold skew
  split
  · split
    · simp [toList]
    · rfl
  · rfl

theorem toList_split (tree : ATree Node) : tree.split.toList = tree.toList := by
  unfold ATree.split
  split
  · split
    · simp [toList]
    · rfl
  · rfl

theorem toList_insert_node (level : Nat) (left right : ATree Node) (value fresh : Node) :
    (insert compare fresh (node level left value right)).toList =
      if compare value fresh < 0 then left.toList ++ value :: (insert compare fresh right).toList
      else (insert compare fresh left).toList ++ value :: right.toList := by
  rw [insert]
  split
  · rw [toList_split, toList_skew, toList]
  · rw [toList_split, toList_skew, toList]

variable {key : Node → Rank} {fresh : Node}

theorem insert_append_right {front : List Node} (below : ∀ node ∈ front, key node < key fresh)
    (back : List Node) :
    Tree.insert key fresh (front ++ back) = front ++ Tree.insert key fresh back := by
  induction front with
  | nil => rfl
  | cons first rest ih =>
    have less := below first mem_cons_self
    refine Eq.trans (if_neg (not_le_of_gt less)) ?_
    exact congrArg (first :: ·) (ih fun node mem =>
      below node (.tail first mem))

theorem insert_append_left {value : Node} (least : key fresh ≤ key value) (front back : List Node) :
    Tree.insert key fresh (front ++ value :: back) = Tree.insert key fresh front ++ value :: back := by
  induction front with
  | nil => exact if_pos least
  | cons first rest ih =>
    unfold Tree.insert at ih ⊢
    rw [cons_append, orderedInsert_cons, orderedInsert_cons]
    split_ifs
    · rfl
    · exact congrArg (first :: ·) ih

variable {tree : ATree Node}

theorem toList_insert (ranks : ∀ node, compare node fresh < 0 ↔ key node < key fresh)
    (sorted : Tree.WeakSorted key tree.toList) :
    (insert compare fresh tree).toList = Tree.insert key fresh tree.toList := by
  induction tree with
  | nil => rfl
  | node level left value right leftHypothesis rightHypothesis =>
    obtain ⟨leftSorted, rest, across⟩ := pairwise_append.mp sorted
    obtain ⟨-, rightSorted⟩ := pairwise_cons.mp rest
    rw [toList_insert_node, toList]
    split_ifs with less
    · have below := (ranks value).mp less
      have through : ∀ node ∈ left.toList ++ [value], key node < key fresh := by
        intro node mem
        obtain inLeft | same := mem_append.mp mem
        · exact lt_of_le_of_lt (across node inLeft value mem_cons_self) below
        · rw [mem_singleton.mp same]
          exact below
      have passed := insert_append_right through right.toList
      rw [append_assoc, append_assoc] at passed
      rw [rightHypothesis rightSorted]
      exact passed.symm
    · have least := not_lt.mp (mt (ranks value).mpr less)
      rw [leftHypothesis leftSorted, insert_append_left least]

theorem weakSorted_insert {nodes : List Node} (sorted : Tree.WeakSorted key nodes) :
    Tree.WeakSorted key (Tree.insert key fresh nodes) := by
  have : Std.Total fun first second => key first ≤ key second := ⟨fun _ _ => le_total _ _⟩
  have : IsTrans Node fun first second => key first ≤ key second := ⟨fun _ _ _ => le_trans⟩
  exact List.Pairwise.orderedInsert fresh nodes sorted

theorem mem_insert {other : Node} :
    other ∈ (insert compare fresh tree).toList ↔ other = fresh ∨ other ∈ tree.toList := by
  induction tree with
  | nil => simp [insert, toList]
  | node level left value right leftHypothesis rightHypothesis =>
    rw [toList_insert_node, toList]
    split
    · simp only [mem_append, mem_cons, rightHypothesis]
      tauto
    · simp only [mem_append, mem_cons, leftHypothesis]
      tauto

/-! ### Ranked nodes -/

/-- On some nodes the comparison is that of a rank which tells them apart. -/
structure Ranks (compare : Node → Node → Int) (rank : Node → Rank) (nodes : Set Node) : Prop where
  equal : ∀ first ∈ nodes, ∀ second ∈ nodes, compare first second = 0 → first = second
  same : ∀ node ∈ nodes, compare node node = 0
  below : ∀ first ∈ nodes, ∀ second ∈ nodes, compare first second ≠ 0 →
    (compare first second < 0 ↔ rank first < rank second)
  distinct : ∀ first ∈ nodes, ∀ second ∈ nodes, rank first = rank second → first = second

/-- The nodes of the tree are ranked nodes in increasing order. -/
structure Ordered (rank : Node → Rank) (nodes : Set Node) (tree : ATree Node) : Prop where
  known : ∀ node ∈ tree.toList, node ∈ nodes
  increasing : tree.toList.Pairwise fun first second => rank first < rank second

variable {rank : Node → Rank} {nodes : Set Node}

theorem Ordered.nil : Ordered rank nodes (nil : ATree Node) where
  known := nofun
  increasing := List.Pairwise.nil

theorem Ordered.parts {level : Nat} {left right : ATree Node} {value : Node}
    (ordered : Ordered rank nodes (node level left value right)) :
    Ordered rank nodes left ∧ Ordered rank nodes right ∧ value ∈ nodes ∧
      (∀ other ∈ left.toList, rank other < rank value) ∧
      ∀ other ∈ right.toList, rank value < rank other := by
  have known := ordered.known
  have increasing := ordered.increasing
  rw [toList] at known increasing
  obtain ⟨leftIncreasing, rest, across⟩ := pairwise_append.mp increasing
  obtain ⟨above, rightIncreasing⟩ := pairwise_cons.mp rest
  refine ⟨⟨fun other mem => known other (mem_append_left _ mem), leftIncreasing⟩,
    ⟨fun other mem => known other (mem_append_right _ (.tail _ mem)),
      rightIncreasing⟩, known value (mem_append_right _ mem_cons_self),
    fun other mem => across other mem value mem_cons_self, above⟩

section

variable (ordered : Ordered rank nodes tree)

include ordered

theorem Ordered.find_isSome (ranks : Ranks compare rank nodes) {target : Node}
    (known : target ∈ nodes) : (tree.find compare target).isSome ↔ target ∈ tree.toList := by
  induction tree with
  | nil => simp [find, toList]
  | node level left value right leftHypothesis rightHypothesis =>
    obtain ⟨leftOrdered, rightOrdered, valueKnown, lower, upper⟩ := ordered.parts
    rw [find, toList, mem_append, mem_cons]
    by_cases equal : compare value target = 0
    · rw [if_pos equal]
      have same := ranks.equal value valueKnown target known equal
      exact iff_of_true rfl (Or.inr (Or.inl same.symm))
    · rw [if_neg equal]
      have apart : target ≠ value := by
        rintro rfl
        exact equal (ranks.same target known)
      have order := ranks.below value valueKnown target known equal
      by_cases below : compare value target < 0
      · rw [if_pos below, rightHypothesis rightOrdered]
        have notLeft : target ∉ left.toList := fun mem =>
          absurd (lower target mem) (not_lt.mpr (le_of_lt (order.mp below)))
        tauto
      · rw [if_neg below, leftHypothesis leftOrdered]
        have notRight : target ∉ right.toList := fun mem =>
          below (order.mpr (upper target mem))
        tauto

/-- A ranked node that is not there yet is inserted in its place. -/
theorem Ordered.insert (ranks : Ranks compare rank nodes) (known : fresh ∈ nodes)
    (absent : fresh ∉ tree.toList) : Ordered rank nodes (tree.insert compare fresh) := by
  refine ⟨fun other mem => ?_, ?_⟩
  · rcases mem_insert.mp mem with rfl | mem
    · exact known
    · exact ordered.known other mem
  induction tree with
  | nil => exact pairwise_singleton _ _
  | node level left value right leftHypothesis rightHypothesis =>
    obtain ⟨leftOrdered, rightOrdered, valueKnown, lower, upper⟩ := ordered.parts
    rw [toList, mem_append, mem_cons, not_or, not_or] at absent
    have apart : compare value fresh ≠ 0 := fun equal =>
      absent.2.1 (ranks.equal value valueKnown fresh known equal).symm
    have order := ranks.below value valueKnown fresh known apart
    rw [toList_insert_node]
    by_cases below : compare value fresh < 0
    · rw [if_pos below]
      have above : ∀ other ∈ (right.insert compare fresh).toList, rank value < rank other := by
        intro other mem
        rcases mem_insert.mp mem with rfl | mem
        · exact order.mp below
        · exact upper other mem
      refine pairwise_append.mpr ⟨leftOrdered.increasing,
        pairwise_cons.mpr ⟨above, rightHypothesis rightOrdered absent.2.2⟩, ?_⟩
      intro first firstMem second secondMem
      rcases mem_cons.mp secondMem with rfl | secondMem
      · exact lower first firstMem
      · exact lt_trans (lower first firstMem) (above second secondMem)
    · rw [if_neg below]
      have freshBelow : rank fresh < rank value := by
        refine lt_of_le_of_ne (not_lt.mp fun above => below (order.mpr above)) fun same => ?_
        exact absent.2.1 (ranks.distinct fresh known value valueKnown same)
      have beneath : ∀ other ∈ (left.insert compare fresh).toList, rank other < rank value := by
        intro other mem
        rcases mem_insert.mp mem with rfl | mem
        · exact freshBelow
        · exact lower other mem
      refine pairwise_append.mpr ⟨leftHypothesis leftOrdered absent.1,
        pairwise_cons.mpr ⟨upper, rightOrdered.increasing⟩, ?_⟩
      intro first firstMem second secondMem
      rcases mem_cons.mp secondMem with rfl | secondMem
      · exact beneath first firstMem
      · exact lt_trans (beneath first firstMem) (upper second secondMem)

/-- Different ranked nodes are inserted one after another. -/
theorem Ordered.insertAll (ranks : Ranks compare rank nodes) {more : List Node}
    (known : ∀ node ∈ more, node ∈ nodes) (distinct : more.Nodup)
    (absent : ∀ node ∈ more, node ∉ tree.toList) :
    Ordered rank nodes (more.foldl (fun tree node => tree.insert compare node) tree) ∧
      ∀ node, node ∈ (more.foldl (fun tree node => tree.insert compare node) tree).toList ↔
        node ∈ more ∨ node ∈ tree.toList := by
  induction more generalizing tree with
  | nil => exact ⟨ordered, fun node => by simp⟩
  | cons fresh rest ih =>
    obtain ⟨freshRest, restDistinct⟩ := nodup_cons.mp distinct
    have inserted := ordered.insert ranks (known fresh mem_cons_self) (absent fresh mem_cons_self)
    have restAbsent : ∀ node ∈ rest, node ∉ (tree.insert compare fresh).toList := by
      intro node mem inTree
      rcases mem_insert.mp inTree with rfl | inTree
      · exact freshRest mem
      · exact absent node (.tail _ mem) inTree
    obtain ⟨final, same⟩ := ih inserted
      (fun node mem => known node (.tail _ mem)) restDistinct restAbsent
    refine ⟨final, fun node => ?_⟩
    rw [foldl_cons, same, mem_insert, mem_cons]
    tauto

theorem Ordered.nodup : tree.toList.Nodup :=
  ordered.increasing.imp fun below equal => ne_of_lt below (congrArg rank equal)

end

theorem Ordered.toList_eq {first second : ATree Node} (firstOrdered : Ordered rank nodes first)
    (secondOrdered : Ordered rank nodes second)
    (same : ∀ node, node ∈ first.toList ↔ node ∈ second.toList) : first.toList = second.toList := by
  have perm : first.toList.Perm second.toList :=
    (perm_ext_iff_of_nodup firstOrdered.nodup secondOrdered.nodup).mpr same
  exact perm.eq_of_pairwise (fun _ _ _ _ below above => absurd above (lt_asymm below))
    firstOrdered.increasing secondOrdered.increasing

end ATree

end Splintermail
