/-
# Answers about sets

What the sequential operations answer about sets whose forest is ordered: the public id of a node's
set is the name of its leader, and there are as many sets as nodes that lead themselves, which are
as many as the classes that the leaders tell apart.
-/

import GraphAnalytics.Proofs.Refusals
import GraphAnalytics.Proofs.Sets.Seeding
import Mathlib.Data.Nat.Count
import Mathlib.SetTheory.Cardinal.Finite

namespace GraphAnalytics

namespace DisjointSets

variable {sets : DisjointSets}

theorem setId_eq (ordered : sets.parents.Ordered) {node : Nat} (h : node < sets.capacity) :
    sets.setId node = .ok (sets.nameOf (sets.parents.leader node)) := by
  rw [setId, root, Forest.root_eq_leader ordered h]
  rfl

/-- There are as many sets as nodes that lead themselves. -/
theorem count_eq (ordered : sets.parents.Ordered) :
    sets.count = .ok (Nat.count (fun node => sets.parents.leader node = node) sets.capacity) := by
  have roots : (List.range sets.capacity).mapM (fun node => sets.root node) =
      .ok ((List.range sets.capacity).map sets.parents.leader) :=
    mapM_eq_ok fun node member => Forest.root_eq_leader ordered (List.mem_range.mp member)
  rw [count, roots]
  refine congrArg Except.ok ?_
  rw [← List.map_prod_left_eq_zip, List.countP_map, Nat.count]
  congr 1

/-- If nodes in one step have one leader, and every node comes to its leader by steps, there are as
many sets as classes of steps. -/
theorem count_eq_card {capacity : Nat} (room : sets.capacity = capacity)
    (ordered : sets.parents.Ordered) {step : Fin capacity → Fin capacity → Prop}
    (keeps : ∀ p q, step p q → sets.parents.leader p = sets.parents.leader q)
    (reaches : ∀ (node : Fin capacity) (inside : sets.parents.leader node < capacity),
      Quot.mk step ⟨sets.parents.leader node, inside⟩ = Quot.mk step node) :
    sets.count = .ok (Nat.card (Quot step)) := by
  obtain rfl := room
  rw [count_eq ordered, Nat.count_eq_card_fintype, Fintype.card_eq_nat_card]
  refine congrArg Except.ok (Nat.card_congr ?_)
  exact {
    toFun := fun leader => Quot.mk _ ⟨leader.1, leader.2.1⟩
    invFun := Quot.lift
      (fun node => ⟨sets.parents.leader node, ordered.leader_lt node.isLt,
        ordered.leader_leader node.isLt⟩)
      (fun p q taken => Subtype.ext (keeps p q taken))
    left_inv := fun leader => Subtype.ext leader.2.2
    right_inv := by
      rintro ⟨node⟩
      exact reaches node (ordered.leader_lt node.isLt) }

end DisjointSets

end GraphAnalytics
