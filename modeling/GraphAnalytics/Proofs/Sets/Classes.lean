/-
# Sets as classes

What disjoint sets are about is an equivalence between nodes: the one that common labels and pairs
of nodes generate (`Related`). Sets represent it if their leaders tell its classes apart and every
smallest node of a class has its public id (`Represents`). All answers follow from that: the leader
is the smallest member, the public id is its label or the node itself, and there are as many sets as
classes.

Seeding represents the labels without any pairs, and an evolution of the forest by further pairs
represents these too, provided that it joins all of them.
-/

import GraphAnalytics.Proofs.Sets.Answers
import GraphAnalytics.Proofs.Sets.Calls
import Mathlib.Order.Bounds.Basic

namespace GraphAnalytics.DisjointSets

open Forest

/-- Pairs of nodes, and pairs of nodes below the capacity with a common label, lead from one node to
the other. -/
def Related (capacity : Nat) (labels : Labelling) (pairs : Nat → Nat → Prop) : Nat → Nat → Prop :=
  Relation.EqvGen fun p q => pairs p q ∨ p < capacity ∧ q < capacity ∧ labels.Shared p q

def Inside (capacity : Nat) (pairs : Nat → Nat → Prop) : Prop :=
  ∀ p q, pairs p q → p < capacity ∧ q < capacity

variable {capacity : Nat} {labels : Labelling} {pairs more : Nat → Nat → Prop}

theorem related_unlabelled {p q : Nat} :
    Related capacity (fun _ => none) pairs p q ↔ Relation.EqvGen pairs p q := by
  constructor
  · refine Relation.EqvGen.mono (fun p q step => ?_) p q
    rcases step with pair | ⟨-, -, label, carries, -⟩
    · exact pair
    · cases carries
  · exact Relation.EqvGen.mono (fun _ _ pair => .inl pair) p q

theorem Related.inside (inside : Inside capacity pairs) {p q : Nat}
    (related : Related capacity labels pairs p q) : p = q ∨ p < capacity ∧ q < capacity := by
  induction related with
  | rel p q step =>
      rcases step with pair | ⟨hp, hq, -⟩
      · exact .inr (inside p q pair)
      · exact .inr ⟨hp, hq⟩
  | refl p => exact .inl rfl
  | symm p q _ ih => exact ih.imp Eq.symm And.symm
  | trans p q r _ _ first second =>
      rcases first with rfl | ⟨hp, hq⟩
      · exact second
      · rcases second with rfl | ⟨-, hr⟩
        · exact .inr ⟨hp, hq⟩
        · exact .inr ⟨hp, hr⟩

/-- Seeded sets together with further pairs generate what labels and pairs relate. -/
theorem generated_seed_iff_related {parents : Forest} {p q : Nat} :
    (seed parents labels).parents.Generated pairs p q ↔
      Related parents.capacity labels pairs p q := by
  constructor
  · refine eqvGen_of_steps fun p q step => ?_
    rcases step with joined | pair
    · obtain ⟨hp, hq, rfl | shared⟩ := joined_seed.mp joined
      · exact .refl p
      · exact .rel _ _ (.inr ⟨hp, hq, shared⟩)
    · exact .rel _ _ (.inl pair)
  · refine Relation.EqvGen.mono (fun p q step => ?_) p q
    rcases step with pair | ⟨hp, hq, shared⟩
    · exact .inr pair
    · exact .inl (joined_seed.mpr ⟨hp, hq, .inr shared⟩)

/-- The leaders tell apart the classes that labels and pairs relate, and whoever may be the smallest
member of a class is called by its label, or by its own id if it has none. -/
structure Represents (capacity : Nat) (labels : Labelling) (pairs : Nat → Nat → Prop)
    (sets : DisjointSets) : Prop where
  capacity_eq : sets.capacity = capacity
  ordered : sets.parents.Ordered
  leader_eq_iff : ∀ p < capacity, ∀ q < capacity,
    sets.parents.leader p = sets.parents.leader q ↔ Related capacity labels pairs p q
  nameOf_eq : ∀ node < capacity, (∀ earlier < node, ¬ labels.Shared earlier node) →
    sets.nameOf node = (labels node).getD node

namespace Represents

variable {sets : DisjointSets} (represents : Represents capacity labels pairs sets)

include represents

theorem joined_iff {p q : Nat} (hp : p < capacity) (hq : q < capacity) :
    sets.parents.Joined p q ↔ Related capacity labels pairs p q := by
  have room : sets.parents.capacity = capacity := represents.capacity_eq
  rw [Forest.joined_iff represents.ordered, room, represents.leader_eq_iff p hp q hq]
  exact ⟨fun all => all.2.2, fun related => ⟨hp, hq, related⟩⟩

theorem leader_lt {node : Nat} (h : node < capacity) : sets.parents.leader node < capacity := by
  have room : sets.parents.capacity = capacity := represents.capacity_eq
  exact room ▸ represents.ordered.leader_lt (room ▸ h)

theorem leader_leader {node : Nat} (h : node < capacity) :
    sets.parents.leader (sets.parents.leader node) = sets.parents.leader node := by
  have room : sets.parents.capacity = capacity := represents.capacity_eq
  exact represents.ordered.leader_leader (room ▸ h)

theorem related_leader {node : Nat} (h : node < capacity) :
    Related capacity labels pairs (sets.parents.leader node) node :=
  (represents.leader_eq_iff _ (represents.leader_lt h) _ h).mp (represents.leader_leader h)

theorem isLeast_leader (inside : Inside capacity pairs) {node : Nat} (h : node < capacity) :
    IsLeast {other | Related capacity labels pairs other node} (sets.parents.leader node) := by
  have room : sets.parents.capacity = capacity := represents.capacity_eq
  refine ⟨represents.related_leader h, fun other related => ?_⟩
  have other_lt : other < capacity := by
    rcases related.inside inside with rfl | ⟨less, -⟩
    · exact h
    · exact less
  rw [← (represents.leader_eq_iff other other_lt node h).mpr related]
  exact represents.ordered.leader_le (room ▸ other_lt)

/-- A class goes by the label of its smallest member, or by that member's id if it has no label. -/
theorem nameOf_leader (inside : Inside capacity pairs) {node : Nat} (h : node < capacity) :
    sets.nameOf (sets.parents.leader node) =
      (labels (sets.parents.leader node)).getD (sets.parents.leader node) := by
  have leader_lt := represents.leader_lt h
  refine represents.nameOf_eq _ leader_lt fun earlier less shared => ?_
  -- A smaller node with the same label would be related to the smallest member.
  have related : Related capacity labels pairs earlier node :=
    .trans _ _ _ (.rel _ _ (.inr ⟨Nat.lt_trans less leader_lt, leader_lt, shared⟩))
      (represents.related_leader h)
  exact absurd ((represents.isLeast_leader inside h).2 related) (Nat.not_le_of_lt less)

theorem setId_eq (inside : Inside capacity pairs) {node : Nat} (h : node < capacity) :
    ∃ smallest, IsLeast {other | Related capacity labels pairs other node} smallest ∧
      sets.setId node = .ok ((labels smallest).getD smallest) := by
  refine ⟨_, represents.isLeast_leader inside h, ?_⟩
  rw [DisjointSets.setId_eq represents.ordered (represents.capacity_eq ▸ h),
    represents.nameOf_leader inside h]

theorem count_eq : sets.count =
    .ok (Nat.card (Quot fun p q : Fin capacity => Related capacity labels pairs p q)) := by
  refine count_eq_card represents.capacity_eq represents.ordered (fun p q related => ?_)
    fun node _ => ?_
  · exact (represents.leader_eq_iff p p.isLt q q.isLt).mpr related
  · exact Quot.sound (represents.related_leader node.isLt)

end Represents

theorem represents_seed (parents : Forest) (labels : Labelling) :
    Represents parents.capacity labels (fun _ _ => False) (seed parents labels) where
  capacity_eq := capacity_seed parents labels
  ordered := ordered_seed parents labels
  leader_eq_iff p hp q hq := by
    rw [← generated_seed_iff_related]
    constructor
    · intro same
      exact generated_of_joined
        ((Forest.joined_iff (ordered_seed parents labels)).mpr
          ⟨hp.trans_eq (capacity_seed parents labels).symm,
            hq.trans_eq (capacity_seed parents labels).symm, same⟩)
    · refine value_eq_of_eqvGen fun p q step => ?_
      rcases step with joined | never
      · exact ((Forest.joined_iff (ordered_seed parents labels)).mp joined).2.2
      · exact never.elim
  nameOf_eq _ h first := nameOf_seed h first

/-- Sets whose forest has evolved by further pairs represent these too if it has joined them. -/
theorem Represents.evolve {sets : DisjointSets} (represents : Represents capacity labels pairs sets)
    {parents : Forest} (evolves : Evolves more sets.parents parents)
    (together : ∀ p q, more p q → parents.leader p = parents.leader q)
    (inside : Inside capacity pairs) :
    Represents capacity labels (fun p q => pairs p q ∨ more p q)
      ⟨parents, sets.names, sets.labels⟩ := by
  obtain rfl := represents.capacity_eq
  constructor
  case capacity_eq => exact evolves.capacity
  case ordered => exact evolves.ordered
  case nameOf_eq => exact represents.nameOf_eq
  case leader_eq_iff =>
    intro p hp q hq
    constructor
    · intro same
      have joined : parents.Joined p q := (Forest.joined_iff evolves.ordered).mpr
        ⟨evolves.capacity ▸ hp, evolves.capacity ▸ hq, same⟩
      refine eqvGen_of_steps (fun p q step => ?_) (evolves.generated p q joined)
      rcases step with joined | pair
      · obtain ⟨hp, hq, same⟩ := (Forest.joined_iff represents.ordered).mp joined
        exact Relation.EqvGen.mono (fun _ _ => Or.imp_left .inl) p q
          ((represents.leader_eq_iff p hp q hq).mp same)
      · exact .rel _ _ (.inl (.inr pair))
    · refine value_eq_of_eqvGen fun p q step => ?_
      rcases step with (pair | pair) | shared
      · obtain ⟨hp, hq⟩ := inside p q pair
        exact evolves.grows p hp q hq
          ((represents.leader_eq_iff p hp q hq).mpr (.rel _ _ (.inl pair)))
      · exact together p q pair
      · exact evolves.grows p shared.1 q shared.2.1
          ((represents.leader_eq_iff p shared.1 q shared.2.1).mpr (.rel _ _ (.inr shared)))

end GraphAnalytics.DisjointSets
