/-
# The sets that a labelling starts

Seeding goes through the nodes in order and remembers, for every label met so far, the first node
that carries it. What it remembers after `k` nodes is fixed by the labelling alone
(`Seeding.Knows`), so each cell is that of a root, or names the first node with the same label, and
the sets are exactly the nodes with a common label and singletons for the others. The table of names
has an entry for each first node and for no other.
-/

import GraphAnalytics.Proofs.Paged.Bulk
import GraphAnalytics.Proofs.Sets.Leader
import GraphAnalytics.Sets.Disjoint

namespace GraphAnalytics

def Labelling.FirstWith (labels : Labelling) (node label : Nat) : Prop :=
  labels node = some label ∧ ∀ earlier < node, labels earlier ≠ some label

def Labelling.Shared (labels : Labelling) (p q : Nat) : Prop :=
  ∃ label, labels p = some label ∧ labels q = some label

theorem Labelling.FirstWith.unique {labels : Labelling} {p q label : Nat}
    (hp : labels.FirstWith p label) (hq : labels.FirstWith q label) : p = q := by
  rcases Nat.lt_trichotomy p q with less | equal | less
  · exact absurd hp.1 (hq.2 p less)
  · exact equal
  · exact absurd hq.1 (hp.2 q less)

/-- Whoever carries a label, some node up to it is the first with the label. -/
theorem Labelling.exists_firstWith {labels : Labelling} {node label : Nat}
    (carries : labels node = some label) : ∃ first ≤ node, labels.FirstWith first label := by
  induction node using Nat.strongRecOn with
  | ind node ih =>
      by_cases found : ∃ earlier < node, labels earlier = some label
      · obtain ⟨earlier, less, also⟩ := found
        obtain ⟨first, before, isFirst⟩ := ih earlier less also
        exact ⟨first, by omega, isFirst⟩
      · exact ⟨node, Nat.le_refl node, carries, fun earlier less also =>
          found ⟨earlier, less, also⟩⟩

namespace DisjointSets

/-- What seeding remembers after the nodes below `count`. -/
structure Seeding.Knows (labels : Labelling) (count : Nat) (seen : Seeding) : Prop where
  firsts : ∀ label first : Nat,
    seen.firsts[label]? = some first ↔ first < count ∧ labels.FirstWith first label
  names : ∀ node label : Nat,
    seen.names[node]? = some label ↔ node < count ∧ labels.FirstWith node label

variable {labels : Labelling}

namespace Seeding

theorem knows_empty : Knows labels 0 {} := by
  constructor <;> simp

theorem Knows.skip {count : Nat} {seen : Seeding} (knows : Knows labels count seen)
    (notFirst : ∀ label, ¬ labels.FirstWith count label) : Knows labels (count + 1) seen := by
  constructor
  · intro label first
    rw [knows.firsts]
    constructor
    · rintro ⟨less, isFirst⟩
      exact ⟨by omega, isFirst⟩
    · rintro ⟨less, isFirst⟩
      have different : first ≠ count := fun same => notFirst label (same ▸ isFirst)
      exact ⟨by omega, isFirst⟩
  · intro node label
    rw [knows.names]
    constructor
    · rintro ⟨less, isFirst⟩
      exact ⟨by omega, isFirst⟩
    · rintro ⟨less, isFirst⟩
      have different : node ≠ count := fun same => notFirst label (same ▸ isFirst)
      exact ⟨by omega, isFirst⟩

theorem Knows.enter {count label : Nat} {seen : Seeding} (knows : Knows labels count seen)
    (isFirst : labels.FirstWith count label) :
    Knows labels (count + 1)
      ⟨seen.firsts.insert label count, seen.names.insert count label⟩ := by
  constructor
  · intro other first
    rw [Std.HashMap.getElem?_insert]
    by_cases same : label = other
    · subst same
      rw [if_pos (beq_self_eq_true label), Option.some.injEq]
      constructor
      · rintro rfl
        exact ⟨Nat.lt_succ_self _, isFirst⟩
      · rintro ⟨-, also⟩
        exact isFirst.unique also
    · rw [if_neg (by simpa using same), knows.firsts]
      constructor
      · rintro ⟨less, also⟩
        exact ⟨by omega, also⟩
      · rintro ⟨less, also⟩
        refine ⟨Nat.lt_of_le_of_ne (by omega) ?_, also⟩
        rintro rfl
        exact same (Option.some.inj (isFirst.1.symm.trans also.1))
  · intro node other
    rw [Std.HashMap.getElem?_insert]
    by_cases same : count = node
    · subst same
      rw [if_pos (beq_self_eq_true count), Option.some.injEq]
      constructor
      · rintro rfl
        exact ⟨Nat.lt_succ_self _, isFirst⟩
      · rintro ⟨-, also⟩
        exact Option.some.inj (isFirst.1.symm.trans also.1)
    · rw [if_neg (by simpa using same), knows.names]
      constructor
      · rintro ⟨less, also⟩
        exact ⟨by omega, also⟩
      · rintro ⟨less, also⟩
        exact ⟨by omega, also⟩

/-- A visited node is made a root if it has no label or is the first with its label, and a child of
that first node otherwise. -/
theorem Knows.visit {count : Nat} {seen : Seeding} (knows : Knows labels count seen) :
    Knows labels (count + 1) (visit labels seen count).2 ∧
      ((visit labels seen count).1 = rootMark ∧
          (labels count = none ∨ ∃ label, labels.FirstWith count label) ∨
        ∃ label first, first < count ∧ labels count = some label ∧ labels.FirstWith first label ∧
          (visit labels seen count).1 = (first : Int)) := by
  unfold Seeding.visit
  split
  · next unlabelled =>
      refine ⟨knows.skip fun label isFirst => ?_, .inl ⟨rfl, .inl unlabelled⟩⟩
      cases unlabelled.symm.trans isFirst.1
  · next label carries =>
      split
      · next first known =>
          obtain ⟨less, isFirst⟩ := (knows.firsts label first).mp known
          refine ⟨knows.skip fun other also => ?_, .inr ⟨label, first, less, carries, isFirst, rfl⟩⟩
          have same : label = other := Option.some.inj (carries.symm.trans also.1)
          exact also.2 first less (same ▸ isFirst.1)
      · next unknown =>
          have isFirst : labels.FirstWith count label := by
            refine ⟨carries, fun earlier less also => ?_⟩
            -- The first node with the label would be known by now.
            obtain ⟨first, before, known⟩ := Labelling.exists_firstWith also
            have entry := (knows.firsts label first).mpr ⟨by omega, known⟩
            cases unknown.symm.trans entry
          exact ⟨knows.enter isFirst, .inl ⟨rfl, .inr ⟨label, isFirst⟩⟩⟩

/-- Seeding knows the labels of the nodes that it has gone through. -/
theorem knows_answers (labels : Labelling) (count : Nat) :
    Knows labels count (PagedArray.answers (Seeding.visit labels) count {}).2 := by
  induction count with
  | zero => exact knows_empty
  | succ count ih =>
      rw [PagedArray.answers_succ]
      exact ih.visit.1

end Seeding

variable {parents : Forest}

theorem parents_seed (parents : Forest) (labels : Labelling) :
    (seed parents labels).parents = (parents.setAll (Seeding.visit labels) {}).1 := rfl

@[simp] theorem capacity_seed (parents : Forest) (labels : Labelling) :
    (seed parents labels).parents.capacity = parents.capacity := by
  rw [parents_seed, PagedArray.capacity_setAll]

theorem seed_eq_ofLabels (parents : Forest) (labels : Labelling) :
    seed parents labels = ofLabels parents.capacity labels := by
  simp only [ofLabels, seed, PagedArray.setAll_eq, PagedArray.capacity_replicate]

/-- A seeded cell is that of a root, or names the first node with the same label. -/
theorem value_seed {node : Nat} (inside : node < parents.capacity) :
    (seed parents labels).parents.value node = rootMark ∧
        (labels node = none ∨ ∃ label, labels.FirstWith node label) ∨
      ∃ label first, first < node ∧ labels node = some label ∧ labels.FirstWith first label ∧
        (seed parents labels).parents.value node = (first : Int) := by
  have cell : (seed parents labels).parents.value node =
      (Seeding.visit labels (PagedArray.answers (Seeding.visit labels) node {}).2 node).1 := by
    rw [parents_seed, Cells.value, PagedArray.get?_setAll _ _ _ inside, Option.getD_some]
  rw [cell]
  exact (Seeding.knows_answers labels node).visit.2

theorem ordered_seed (parents : Forest) (labels : Labelling) :
    (seed parents labels).parents.Ordered := by
  intro node inside
  rw [capacity_seed] at inside
  rcases value_seed inside with ⟨root, -⟩ | ⟨label, first, less, -, -, child⟩
  · exact .inl root
  · exact .inr ⟨first, less, child⟩

theorem leader_seed_of_unlabelled {node : Nat} (inside : node < parents.capacity)
    (unlabelled : labels node = none) : (seed parents labels).parents.leader node = node := by
  rcases value_seed inside with ⟨root, -⟩ | ⟨label, -, -, carries, -⟩
  · exact Forest.leader_eq_self root
  · cases unlabelled.symm.trans carries

theorem firstWith_leader_seed {node label : Nat} (inside : node < parents.capacity)
    (carries : labels node = some label) :
    labels.FirstWith ((seed parents labels).parents.leader node) label := by
  have isRoot {first : Nat} (less : first < parents.capacity)
      (isFirst : labels.FirstWith first label) :
      (seed parents labels).parents.value first = rootMark := by
    rcases value_seed less with ⟨root, -⟩ | ⟨other, earlier, before, also, known, -⟩
    · exact root
    · have same : label = other := Option.some.inj (isFirst.1.symm.trans also)
      exact absurd (same ▸ known.1) (isFirst.2 earlier before)
  rcases value_seed inside with ⟨root, none | ⟨other, isFirst⟩⟩ |
    ⟨other, first, less, also, isFirst, child⟩
  · cases none.symm.trans carries
  · have same : other = label := Option.some.inj (isFirst.1.symm.trans carries)
    rw [Forest.leader_eq_self root]
    exact same ▸ isFirst
  · have same : other = label := Option.some.inj (also.symm.trans carries)
    subst same
    rw [Forest.leader_eq_leader child less,
      Forest.leader_eq_self (isRoot (Nat.lt_trans less inside) isFirst)]
    exact isFirst

theorem joined_seed {p q : Nat} :
    (seed parents labels).parents.Joined p q ↔
      p < parents.capacity ∧ q < parents.capacity ∧ (p = q ∨ labels.Shared p q) := by
  rw [Forest.joined_iff (ordered_seed parents labels), capacity_seed]
  refine and_congr_right fun insideP => and_congr_right fun insideQ => ⟨fun same => ?_, ?_⟩
  · cases labelP : labels p with
    | none =>
        cases labelQ : labels q with
        | none =>
            rw [leader_seed_of_unlabelled insideP labelP, leader_seed_of_unlabelled insideQ labelQ]
              at same
            exact .inl same
        | some label =>
            have first := (firstWith_leader_seed insideQ labelQ).1
            rw [← same, leader_seed_of_unlabelled insideP labelP, labelP] at first
            cases first
    | some label =>
        have first := (firstWith_leader_seed insideP labelP).1
        cases labelQ : labels q with
        | none =>
            rw [same, leader_seed_of_unlabelled insideQ labelQ, labelQ] at first
            cases first
        | some other =>
            have also := (firstWith_leader_seed insideQ labelQ).1
            rw [← same, first] at also
            exact .inr ⟨label, labelP, labelQ.trans also.symm⟩
  · rintro (rfl | ⟨label, labelP, labelQ⟩)
    · rfl
    · exact (firstWith_leader_seed insideP labelP).unique (firstWith_leader_seed insideQ labelQ)

/-- Seeding names exactly the first nodes with a label, each by its label. -/
theorem names_seed {node label : Nat} :
    (seed parents labels).names[node]? = some label ↔
      node < parents.capacity ∧ labels.FirstWith node label := by
  rw [seed, PagedArray.setAll_eq]
  exact (Seeding.knows_answers labels parents.capacity).names node label

/-- A node that is the smallest of its set goes by its label, if it has one that no smaller node
carries, and by its own id otherwise. -/
theorem nameOf_seed {node : Nat} (inside : node < parents.capacity)
    (first : ∀ earlier < node, ¬ labels.Shared earlier node) :
    (seed parents labels).nameOf node = (labels node).getD node := by
  rw [nameOf]
  congr 1
  cases carries : labels node with
  | none =>
      rw [Option.eq_none_iff_forall_ne_some]
      intro label named
      cases carries.symm.trans (names_seed.mp named).2.1
  | some label =>
      exact names_seed.mpr ⟨inside, carries, fun earlier less also =>
        first earlier less ⟨label, also, carries⟩⟩

end DisjointSets

end GraphAnalytics
