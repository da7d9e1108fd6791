/-
# What one walk leaves behind

A compressing walk points the node at which it is at its grandparent and goes on from there. So it
visits every second node of the path to the root, and every exchange is made in a forest that the
exchanges before have already changed, but only at larger nodes: what the walk still has to read is
as it was at first.

`Halved` says what has become of the forest: only cells on the path have changed, each to the former
grandparent of its node, no node has moved away from its root, and the node at which the walk began
is half as far below its root as before. `find_halves` proves this of the sequential walk.
-/

import GraphAnalytics.Proofs.Sets.Alone
import Mathlib.Algebra.Group.Nat.Defs
import Mathlib.Logic.Function.Iterate

namespace GraphAnalytics.Forest

/-- The nodes above a node, its parent first and its root last. As for `leader`, a cell that does
not name a smaller node is taken for a root. -/
def ancestors (forest : Forest) (node : Nat) : List Nat :=
  match parentOf (forest.value node) with
  | some parent => if parent < node then parent :: ancestors forest parent else []
  | none => []
termination_by node

/-- The way from a node to its root, both included. -/
def path (forest : Forest) (node : Nat) : List Nat := node :: forest.ancestors node

/-- How far a node is below its root. -/
def depth (forest : Forest) (node : Nat) : Nat := (forest.ancestors node).length

/-- The parent of the parent, for a node that has both. -/
def grandparent? (forest : Forest) (node : Nat) : Option Nat :=
  (parentOf (forest.value node)).bind fun parent => parentOf (forest.value parent)

/-- The forest after a sequential walk from a node. -/
def shorten (node : Nat) (forest : Forest) : Forest := ((find node).perform forest).2

/-- What a compressing walk from `node` leaves behind. The forest is ordered still; only cells on
the path are changed, each to the node's former grandparent; every node keeps its root, and none is
farther below it than before; and the distance of the node itself is halved, rounding up. -/
structure Halved (before : Forest) (node : Nat) (after : Forest) : Prop where
  capacity : after.capacity = before.capacity
  ordered : after.Ordered
  changed : ∀ other, after.value other ≠ before.value other →
    other ∈ before.path node ∧
      ∃ top, before.grandparent? other = some top ∧ after.value other = (top : Int)
  leader : ∀ other < before.capacity, after.leader other = before.leader other
  depth : ∀ other < before.capacity, after.depth other ≤ before.depth other
  halved : after.depth node = (before.depth node + 1) / 2

/-- What is to be known of a sequential walk from a node with that root. The path leads there, the
walk finds it and halves the path, and the walk that writes nothing has the same answer and leaves
the forest as it is. Every id, node or not, has the root that it had, and walking again and again
leads to a node that is its root or the root's child. -/
structure Shortened (before : Forest) (node root : Nat) : Prop where
  leads : (before.path node).getLast? = some root
  found : (find node).perform before = (.ok root, shorten node before)
  sought : Forest.root node before = .ok root
  unwritten : (runAlone seekRoot (walkBudget before.capacity) node).perform before =
    (.ok root, before)
  halved : Halved before node (shorten node before)
  kept : ∀ other, Forest.root other (shorten node before) = Forest.root other before
  settled : ∀ times, before.depth node ≤ 2 ^ times →
    ((shorten node)^[times] before).value node = if node = root then rootMark else (root : Int)

variable {forest : Forest}

/-! ### Paths -/

theorem ancestors_of_root {node : Nat} (root : forest.value node = rootMark) :
    forest.ancestors node = [] := by
  rw [ancestors, root, parentOf_rootMark]

theorem ancestors_of_child {node parent : Nat} (child : forest.value node = (parent : Int))
    (smaller : parent < node) : forest.ancestors node = parent :: forest.ancestors parent := by
  rw [ancestors, child, parentOf_natCast]
  exact if_pos smaller

theorem depth_of_root {node : Nat} (root : forest.value node = rootMark) :
    forest.depth node = 0 := by
  rw [depth, ancestors_of_root root, List.length_nil]

theorem depth_of_child {node parent : Nat} (child : forest.value node = (parent : Int))
    (smaller : parent < node) : forest.depth node = forest.depth parent + 1 := by
  rw [depth, ancestors_of_child child smaller, List.length_cons, depth]

theorem path_of_child {node parent : Nat} (child : forest.value node = (parent : Int))
    (smaller : parent < node) : forest.path node = node :: forest.path parent := by
  rw [path, ancestors_of_child child smaller, path]

theorem grandparent?_of_child {node parent top : Nat} (child : forest.value node = (parent : Int))
    (childOfTop : forest.value parent = (top : Int)) : forest.grandparent? node = some top := by
  rw [grandparent?, child, parentOf_natCast, Option.bind_some, childOfTop, parentOf_natCast]

theorem Ordered.le_of_mem_path (ordered : forest.Ordered) {node other : Nat}
    (inside : node < forest.capacity) (on : other ∈ forest.path node) : other ≤ node := by
  induction node using Nat.strongRecOn with
  | ind node ih =>
      rcases ordered node inside with root | ⟨parent, smaller, child⟩
      · rw [path, ancestors_of_root root, List.mem_singleton] at on
        exact Nat.le_of_eq on
      · rw [path_of_child child smaller, List.mem_cons] at on
        rcases on with rfl | above
        · exact Nat.le_refl _
        · have := ih parent smaller (by omega) above
          omega

theorem Ordered.getLast?_path (ordered : forest.Ordered) {node : Nat}
    (inside : node < forest.capacity) :
    (forest.path node).getLast? = some (forest.leader node) := by
  induction node using Nat.strongRecOn with
  | ind node ih =>
      rcases ordered node inside with root | ⟨parent, smaller, child⟩
      · rw [path, ancestors_of_root root, leader_eq_self root, List.getLast?_singleton]
      · have rest := ih parent smaller (by omega)
        rw [path] at rest
        rw [path_of_child child smaller, leader_eq_leader child smaller, path,
          List.getLast?_cons_cons, rest]

/-- A node that is at most one step below its root is the root or points at it. -/
theorem Ordered.value_of_depth_le_one (ordered : forest.Ordered) {node : Nat}
    (inside : node < forest.capacity) (near : forest.depth node ≤ 1) :
    forest.value node =
      if node = forest.leader node then rootMark else (forest.leader node : Int) := by
  rcases ordered node inside with root | ⟨parent, smaller, child⟩
  · rw [leader_eq_self root, if_pos rfl, root]
  · rcases ordered parent (by omega) with root | ⟨top, below, childOfTop⟩
    · rw [leader_eq_leader child smaller, leader_eq_self root, if_neg (by omega), child]
    · rw [depth_of_child child smaller, depth_of_child childOfTop below] at near
      omega

/-! ### Writing one cell

Below the node whose cell is written nothing is changed. -/

section Below

variable {node other : Nat} (cell : Int)

theorem ancestors_set_of_lt (smaller : other < node) :
    ancestors (forest.set node cell) other = forest.ancestors other := by
  induction other using Nat.strongRecOn with
  | ind other ih =>
      rw [ancestors, forest.value_set_of_ne cell (by omega), ancestors]
      cases parentOf (forest.value other) with
      | none => rfl
      | some parent =>
          dsimp only
          split
          · next below => rw [ih parent below (by omega)]
          · rfl

theorem depth_set_of_lt (smaller : other < node) :
    depth (forest.set node cell) other = forest.depth other := by
  rw [depth, ancestors_set_of_lt cell smaller, depth]

theorem path_set_of_lt (smaller : other < node) :
    path (forest.set node cell) other = forest.path other := by
  rw [path, ancestors_set_of_lt cell smaller, path]

theorem Ordered.grandparent?_set_of_lt (ordered : forest.Ordered)
    (inside : other < forest.capacity) (smaller : other < node) :
    grandparent? (forest.set node cell) other = forest.grandparent? other := by
  rw [grandparent?, grandparent?, forest.value_set_of_ne cell (by omega)]
  rcases ordered other inside with root | ⟨parent, below, child⟩
  · rw [root, parentOf_rootMark, Option.bind_none, Option.bind_none]
  · rw [child, parentOf_natCast, Option.bind_some, Option.bind_some,
      forest.value_set_of_ne cell (by omega)]

end Below

/-- Pointing a node at its grandparent takes no node farther away from its root. -/
theorem Ordered.depth_shortcut (ordered : forest.Ordered) {node parent top : Nat}
    (child : forest.value node = (parent : Int)) (smaller : parent < node)
    (childOfTop : forest.value parent = (top : Int)) (below : top < parent) {other : Nat}
    (inside : other < forest.capacity) :
    depth (forest.set node (top : Int)) other ≤ forest.depth other := by
  induction other using Nat.strongRecOn with
  | ind other ih =>
      by_cases same : node = other
      · subst same
        rw [depth_of_child (forest.value_set_self _ inside) (by omega),
          depth_set_of_lt _ (by omega), depth_of_child child smaller,
          depth_of_child childOfTop below]
        omega
      · have kept := forest.value_set_of_ne (top : Int) same
        rcases ordered other inside with root | ⟨above, less, ofAbove⟩
        · rw [depth_of_root (kept.trans root)]
          exact Nat.zero_le _
        · rw [depth_of_child (kept.trans ofAbove) less, depth_of_child ofAbove less]
          exact Nat.succ_le_succ (ih above less (by omega))

/-! ### The walk -/

/-- The end of a walk: at a root or a child of one nothing is left to halve. -/
theorem Halved.refl (ordered : forest.Ordered) {node : Nat} (near : forest.depth node ≤ 1) :
    Halved forest node forest where
  capacity := rfl
  ordered := ordered
  changed _ different := absurd rfl different
  leader _ _ := rfl
  depth _ _ := Nat.le_refl _
  halved := by omega

/-- One round of a walk: the node is pointed at its grandparent, and the rest of the walk begins
there. -/
theorem Halved.round (ordered : forest.Ordered) {node parent top : Nat} {after : Forest}
    (inside : node < forest.capacity) (child : forest.value node = (parent : Int))
    (smaller : parent < node) (childOfTop : forest.value parent = (top : Int))
    (below : top < parent) (rest : Halved (forest.set node (top : Int)) top after) :
    Halved forest node after := by
  have below' : top < node := Nat.lt_trans below smaller
  have sameSet : forest.leader top = forest.leader node := by
    rw [leader_eq_leader child smaller, leader_eq_leader childOfTop below]
  have capacity : (forest.set node (top : Int)).capacity = forest.capacity :=
    PagedArray.capacity_set _ _ _
  -- The rest of the walk sees the path above `top` as it was, and writes no cell outside of it.
  have pathTop : path (forest.set node (top : Int)) top = forest.path top :=
    path_set_of_lt _ below'
  have least {other : Nat} (on : other ∈ forest.path top) : other ≤ top :=
    ordered.le_of_mem_path (by omega) on
  have restChanged {other : Nat}
      (different : after.value other ≠ Cells.value (forest.set node (top : Int)) other) :=
    pathTop ▸ rest.changed other different
  have atNode : after.value node = (top : Int) := by
    by_contra other
    have on := (restChanged (by rwa [forest.value_set_self _ inside])).1
    have := least on
    omega
  constructor
  case capacity => rw [rest.capacity, capacity]
  case ordered => exact rest.ordered
  case changed =>
    intro other different
    by_cases later : after.value other = Cells.value (forest.set node (top : Int)) other
    · obtain rfl : node = other := by
        by_contra apart
        exact different (later.trans (forest.value_set_of_ne _ apart))
      exact ⟨List.mem_cons_self, top, grandparent?_of_child child childOfTop, atNode⟩
    · obtain ⟨on, above, ofAbove, now⟩ := restChanged later
      have small := least on
      refine ⟨?_, above, ?_, now⟩
      · rw [path_of_child child smaller, path_of_child childOfTop below]
        exact List.mem_cons_of_mem _ (List.mem_cons_of_mem _ on)
      · rwa [ordered.grandparent?_set_of_lt _ (by omega) (by omega)] at ofAbove
  case leader =>
    intro other insideOther
    rw [rest.leader other (capacity ▸ insideOther),
      ordered.leader_shortcut below' sameSet insideOther]
  case depth =>
    intro other insideOther
    exact Nat.le_trans (rest.depth other (capacity ▸ insideOther))
      (ordered.depth_shortcut child smaller childOfTop below insideOther)
  case halved =>
    rw [depth_of_child atNode below', rest.halved, depth_set_of_lt _ below',
      depth_of_child child smaller, depth_of_child childOfTop below]
    omega

/-- A compressing walk left alone ends at the leader and halves the path. -/
theorem alone_compress_halves (ordered : forest.Ordered) {node fuel : Nat}
    (inside : node < forest.capacity) (enough : 2 * node + 1 < fuel) :
    ∃ after, compress.alone () fuel forest (.atNode node) =
      (after, some (.ok (forest.leader node))) ∧ Halved forest node after := by
  induction node using Nat.strongRecOn generalizing forest fuel with
  | ind node ih =>
      obtain ⟨fuel, rfl⟩ : ∃ less, fuel = less + 2 := ⟨fuel - 2, by omega⟩
      rw [Machine.alone_succ]
      rcases ordered node inside with root | ⟨parent, smaller, child⟩
      · rw [compress_atNode_of_root ⟨inside, root⟩, leader_eq_self root]
        exact ⟨forest, rfl, .refl ordered (by rw [depth_of_root root]; omega)⟩
      rw [compress_atNode_of_child inside child, leader_eq_leader child smaller]
      have insideParent : parent < forest.capacity := by omega
      dsimp only
      rw [Machine.alone_succ]
      rcases ordered parent insideParent with root | ⟨top, below, childOfTop⟩
      · rw [compress_atParent_of_root node ⟨insideParent, root⟩, leader_eq_self root]
        have near : forest.depth node = 1 := by
          rw [depth_of_child child smaller, depth_of_root root]
        exact ⟨forest, rfl, .refl ordered (Nat.le_of_eq near)⟩
      obtain ⟨fuel, rfl⟩ : ∃ less, fuel = less + 1 := ⟨fuel - 1, by omega⟩
      rw [compress_atParent_of_child node insideParent childOfTop,
        leader_eq_leader childOfTop below]
      dsimp only
      rw [Machine.alone_succ, compress_shortcut, if_pos child]
      have insideTop : top < (forest.set node (top : Int)).capacity := by
        rw [PagedArray.capacity_set]
        omega
      have sameSet : forest.leader top = forest.leader node := by
        rw [leader_eq_leader child smaller, leader_eq_leader childOfTop below]
      obtain ⟨after, ends, rest⟩ := ih top (by omega)
        (ordered.set (Nat.lt_trans below smaller)) insideTop (show 2 * top + 1 < fuel by omega)
      rw [ordered.leader_shortcut (Nat.lt_trans below smaller) sameSet (by omega)] at ends
      exact ⟨after, ends, .round ordered inside child smaller childOfTop below rest⟩

theorem shorten_halves (ordered : forest.Ordered) {node : Nat} (inside : node < forest.capacity) :
    (find node).perform forest = (.ok (forest.leader node), shorten node forest) ∧
      Halved forest node (shorten node forest) := by
  have enough : 2 * node + 1 < 3 * walkBudget forest.capacity := by
    unfold walkBudget
    omega
  obtain ⟨after, ends, halved⟩ := alone_compress_halves ordered inside enough
  have walk : (find node).perform forest = (.ok (forest.leader node), after) := by
    show (runAlone compress _ (.atNode node)).perform forest = _
    rw [runAlone, Guarded.perform_ofFunction, ends]
  obtain rfl : shorten node forest = after := by rw [shorten, walk]
  exact ⟨walk, halved⟩

/-- After enough walks from one node its cell is the mark of a root or names the root. Each walk
halves a distance that a power of two bounds. -/
theorem value_iterate_shorten (ordered : forest.Ordered) {node times : Nat}
    (inside : node < forest.capacity) (enough : forest.depth node ≤ 2 ^ times) :
    ((shorten node)^[times] forest).value node =
      if node = forest.leader node then rootMark else (forest.leader node : Int) := by
  induction times generalizing forest with
  | zero => exact ordered.value_of_depth_le_one inside enough
  | succ times ih =>
      have halved := (shorten_halves ordered inside).2
      have less : (shorten node forest).depth node ≤ 2 ^ times := by
        rw [pow_succ] at enough
        rw [halved.halved]
        omega
      rw [Function.iterate_succ_apply,
        ih halved.ordered (by rwa [halved.capacity]) less, halved.leader node inside]

/-- For an ordered forest and a node of it, a walk that halves the path ends at the root that a walk
without writes finds. It changes only cells on the path, each to the former grandparent of its node;
no node loses its root or gets farther away from it; and the node itself is then half as far below
its root, rounding up, so that walking again and again leads to the root itself. -/
theorem find_halves (ordered : forest.Ordered) {node : Nat} (inside : node < forest.capacity) :
    ∃ root, Shortened forest node root := by
  obtain ⟨walk, halved⟩ := shorten_halves ordered inside
  have enough : node < walkBudget forest.capacity := by
    unfold walkBudget
    omega
  refine ⟨forest.leader node, ?_⟩
  constructor
  case leads => exact ordered.getLast?_path inside
  case found => exact walk
  case sought => exact root_eq_leader ordered inside
  case unwritten =>
    rw [runAlone, Guarded.perform_ofFunction, alone_seekRoot ordered inside enough]
  case halved => exact halved
  case kept =>
    intro other
    by_cases insideOther : other < forest.capacity
    · rw [root_eq_leader ordered insideOther,
        root_eq_leader halved.ordered (by rwa [halved.capacity]),
        halved.leader other insideOther]
    · rw [root_of_le (Nat.le_of_not_lt insideOther), root_of_le, halved.capacity]
      rw [halved.capacity]
      exact Nat.le_of_not_lt insideOther
  case settled =>
    intro times deep
    exact value_iterate_shorten ordered inside deep

/-- The path of five steps from `5` to `0`, with `6` beside it as a second child of `4`. -/
def sidePath : Forest :=
  List.foldl (fun forest (node, parent) => forest.set node parent) (.replicate 7 rootMark)
    [(1, 0), (2, 1), (3, 2), (4, 3), (5, 4), (6, 4)]

/-- The walk from `5` finds `0`. It points `5` at `3` and `3` at `1`, and no other cell is changed;
after two walks more `5` is a child of `0`. -/
theorem find_halves_sidePath :
    (∃ root, Shortened sidePath 5 root) ∧
      (List.range 7).map (shorten 5 sidePath).value = [-1, 0, 1, 1, 3, 3, 4] ∧
      ((shorten 5)^[3] sidePath).value 5 = 0 :=
  have ordered : sidePath.Ordered := by unfold Ordered; decide
  ⟨find_halves ordered (by decide), by decide, by decide⟩

end GraphAnalytics.Forest
