/-
This file is the theory of traversals of a search tree with a saved path.

A traversal stands at a node and remembers the nodes above it, from the inside out, with
the side on which it left each of them. A step towards one side goes down if there is
something below on that side, and otherwise climbs until it leaves a node from the other
side. What is ahead of a traversal is a list, and a step takes its first node: so a loop
over the steps visits what is ahead, and nothing twice.
-/

import Splintermail.Lib.ATree

namespace Splintermail

open List

namespace ATree

variable {Node : Type}

/-! ### Sides -/

/-- The nodes in order, towards the right or towards the left. -/
def toward (right : Bool) (tree : ATree Node) : List Node :=
  if right then tree.toList else tree.toList.reverse

theorem toward_nil (right : Bool) : (nil : ATree Node).toward right = [] := by
  cases right <;> rfl

/-- The trees below a node, by the side. -/
def pick (right : Bool) (left other : ATree Node) : ATree Node := if right then other else left

theorem toward_node (right : Bool) (level : Nat) (left : ATree Node) (value : Node)
    (other : ATree Node) :
    (node level left value other).toward right =
      (pick (!right) left other).toward right ++ value :: (pick right left other).toward right := by
  cases right
  · show (left.toList ++ value :: other.toList).reverse = other.toList.reverse ++ value :: left.toList.reverse
    rw [reverse_append, reverse_cons, append_assoc, singleton_append]
  · rfl

end ATree

/-! ### The traversal -/

/-- A node above the current one: whether it was left to the right, and what is on its other side. -/
structure Crumb (Node : Type) where
  wentRight : Bool
  level : Nat
  value : Node
  other : ATree Node

/-- A traversal at a node: what is below the node, and the path from the inside out. -/
structure ATrav (Node : Type) where
  level : Nat
  left : ATree Node
  value : Node
  right : ATree Node
  path : List (Crumb Node)

namespace ATrav

variable {Node : Type}

/-- The tree at the current node. -/
def tree (trav : ATrav Node) : ATree Node := .node trav.level trav.left trav.value trav.right

/-- The link of the current node on a side. -/
def link (trav : ATrav Node) (right : Bool) : ATree Node := ATree.pick right trav.left trav.right

/-- Go down on one side as far as possible. -/
def descend (right : Bool) : ATree Node → List (Crumb Node) → Option (ATrav Node)
  | .nil, _ => none
  | .node level left value other, path =>
    let below :=
      if right then descend right other (⟨true, level, value, left⟩ :: path)
      else descend right left (⟨false, level, value, other⟩ :: path)
    some (below.getD ⟨level, left, value, other, path⟩)

/-- The traversal at a node above a tree. -/
def above (crumb : Crumb Node) (tree : ATree Node) (path : List (Crumb Node)) : ATrav Node :=
  if crumb.wentRight then ⟨crumb.level, crumb.other, crumb.value, tree, path⟩
  else ⟨crumb.level, tree, crumb.value, crumb.other, path⟩

/-- Go up as long as the nodes were left to one side. -/
def climb (right : Bool) : ATree Node → List (Crumb Node) → Option (ATrav Node)
  | _, [] => none
  | tree, crumb :: path =>
    if crumb.wentRight = right then climb right (above crumb tree path).tree path
    else some (above crumb tree path)

/-- The first step, to the last node on one side. -/
def start (right : Bool) (tree : ATree Node) : Option (ATrav Node) := descend right tree []

/-- A step to one side. -/
def move (right : Bool) (trav : ATrav Node) : Option (ATrav Node) :=
  match trav.link right with
  | .nil => climb right trav.tree trav.path
  | below =>
    descend (!right) below (⟨right, trav.level, trav.value, trav.link (!right)⟩ :: trav.path)

/-! ### What is ahead -/

/-- What is ahead on the path. -/
def pathAhead (right : Bool) : List (Crumb Node) → List Node
  | [] => []
  | crumb :: path =>
    if crumb.wentRight = right then pathAhead right path
    else crumb.value :: (crumb.other.toward right ++ pathAhead right path)

/-- The nodes ahead of a traversal on one side, from the nearest. -/
def ahead (right : Bool) (trav : ATrav Node) : List Node :=
  (trav.link right).toward right ++ pathAhead right trav.path

theorem descend_ahead (right : Bool) (tree : ATree Node) (path : List (Crumb Node)) :
    match descend right tree path with
    | none => tree = .nil
    | some trav =>
      trav.value :: trav.ahead (!right) = tree.toward (!right) ++ pathAhead (!right) path ∧
        trav.ahead right = pathAhead right path := by
  induction tree generalizing path with
  | nil => rfl
  | node level left value other leftHypothesis otherHypothesis =>
    rw [ATree.toward_node, Bool.not_not]
    cases right
    · have below := leftHypothesis (⟨false, level, value, other⟩ :: path)
      rw [descend]
      cases found : descend false left (⟨false, level, value, other⟩ :: path) with
      | none =>
        rw [found] at below
        subst below
        exact ⟨rfl, rfl⟩
      | some trav =>
        rw [found] at below
        refine ⟨below.1.trans ?_, below.2⟩
        show _ = (left.toward true ++ value :: other.toward true) ++ _
        rw [append_assoc]
        rfl
    · have below := otherHypothesis (⟨true, level, value, left⟩ :: path)
      rw [descend]
      cases found : descend true other (⟨true, level, value, left⟩ :: path) with
      | none =>
        rw [found] at below
        subst below
        exact ⟨rfl, rfl⟩
      | some trav =>
        rw [found] at below
        refine ⟨below.1.trans ?_, below.2⟩
        show _ = (other.toward false ++ value :: left.toward false) ++ _
        rw [append_assoc]
        rfl

theorem climb_ahead (right : Bool) (tree : ATree Node) (path : List (Crumb Node)) :
    match climb right tree path with
    | none => pathAhead right path = []
    | some trav => trav.value :: trav.ahead right = pathAhead right path := by
  induction path generalizing tree with
  | nil => rfl
  | cons crumb path ih =>
    rw [climb, pathAhead]
    by_cases same : crumb.wentRight = right
    · rw [if_pos same, if_pos same]
      exact ih _
    · rw [if_neg same, if_neg same]
      obtain ⟨wentRight, level, value, other⟩ := crumb
      cases wentRight <;> cases right
      · exact absurd rfl same
      · rfl
      · rfl
      · exact absurd rfl same

theorem move_ahead (right : Bool) (trav : ATrav Node) : match trav.move right with
    | none => trav.ahead right = []
    | some next => next.value :: next.ahead right = trav.ahead right := by
  unfold move ahead
  cases below : trav.link right with
  | nil =>
    rw [ATree.toward_nil]
    exact climb_ahead right trav.tree trav.path
  | node level left value other =>
    have down := descend_ahead (!right) (.node level left value other)
      (⟨right, trav.level, trav.value, trav.link (!right)⟩ :: trav.path)
    rw [Bool.not_not] at down
    dsimp only
    cases found : descend (!right) (.node level left value other)
        (⟨right, trav.level, trav.value, trav.link (!right)⟩ :: trav.path) with
    | none =>
      rw [found] at down
      exact absurd (show ATree.node level left value other = .nil from down) nofun
    | some next =>
      rw [found] at down
      refine down.1.trans ?_
      rw [pathAhead, if_pos rfl]

theorem length_ahead_move {right : Bool} {trav next : ATrav Node} (moves : trav.move right = some next) :
    (next.ahead right).length < (trav.ahead right).length := by
  have step := move_ahead right trav
  rw [moves] at step
  rw [← step]
  exact Nat.lt_succ_self _

/-- From the last node on one side everything is ahead on the other side, and nothing on that side. -/
theorem start_ahead (right : Bool) (tree : ATree Node) : match start right tree with
    | none => tree = .nil
    | some trav =>
      trav.value :: trav.ahead (!right) = tree.toward (!right) ∧ trav.ahead right = [] := by
  have down := descend_ahead right tree []
  unfold start
  cases found : descend right tree [] with
  | none =>
    rw [found] at down
    exact down
  | some trav =>
    rw [found] at down
    exact ⟨down.1.trans (append_nil _), down.2⟩

end ATrav

end Splintermail
