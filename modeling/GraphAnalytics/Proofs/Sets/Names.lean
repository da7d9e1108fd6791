/-
# Public ids and sets

Members of one set have one public id. The converse holds as far as labels let it. Labels and node
ids are numbers of one kind, and a set whose smallest member carries no label goes by the id of that
member. Two sets therefore share a public id if the smallest member of one is labelled with the id
of the smallest member of the other, which has no label of its own (`Homonymous`), and in no other
way: members with a common label start in one set, so two smallest members never carry one label.

If no label is the id of an unlabelled node, public ids identify sets.
-/

import GraphAnalytics.Proofs.Sets.Histories
import Mathlib.Tactic.IntervalCases

namespace GraphAnalytics.DisjointSets

/-- The smallest member of the class of `p` carries a label, and that is the id of the smallest
member of the class of `q`, which carries none. -/
def Homonymous (labels : Labelling) (related : Nat → Nat → Prop) (p q : Nat) : Prop :=
  ∃ labelled plain, IsLeast {other | related other p} labelled ∧
    IsLeast {other | related other q} plain ∧ labels labelled = some plain ∧ labels plain = none

variable {capacity : Nat} {labels : Labelling} {pairs : Nat → Nat → Prop} {sets : DisjointSets}

namespace Represents

/-- Two leaders go by one name if they are the same, or if one of them is labelled with the other,
which has no label. -/
theorem nameOf_leader_eq_iff (represents : Represents capacity labels pairs sets)
    (inside : Inside capacity pairs) {p q : Nat} (hp : p < capacity) (hq : q < capacity) :
    sets.nameOf (sets.parents.leader p) = sets.nameOf (sets.parents.leader q) ↔
      sets.parents.leader p = sets.parents.leader q ∨
        labels (sets.parents.leader p) = some (sets.parents.leader q) ∧
          labels (sets.parents.leader q) = none ∨
        labels (sets.parents.leader q) = some (sets.parents.leader p) ∧
          labels (sets.parents.leader p) = none := by
  rw [represents.nameOf_leader inside hp, represents.nameOf_leader inside hq]
  -- Two leaders with one label would be related, and then they are the same.
  have shared (common : labels.Shared (sets.parents.leader p) (sets.parents.leader q)) :
      sets.parents.leader p = sets.parents.leader q := by
    have insideP := represents.leader_lt hp
    have insideQ := represents.leader_lt hq
    have same := (represents.leader_eq_iff _ insideP _ insideQ).mpr
      (.rel _ _ (.inr ⟨insideP, insideQ, common⟩))
    rwa [represents.leader_leader hp, represents.leader_leader hq] at same
  have different (apart : labels (sets.parents.leader p) ≠ labels (sets.parents.leader q)) :
      sets.parents.leader p ≠ sets.parents.leader q := fun same => apart (congrArg labels same)
  cases first : labels (sets.parents.leader p) with
  | none =>
      cases second : labels (sets.parents.leader q) with
      | none => simp
      | some label => simp [different (by simp [first, second]), eq_comm]
  | some label =>
      cases second : labels (sets.parents.leader q) with
      | none => simp [different (by simp [first, second])]
      | some other =>
          simp only [Option.getD_some, reduceCtorEq, and_false, or_false]
          constructor
          · rintro rfl
            exact shared ⟨label, first, second⟩
          · intro same
            rw [same, second] at first
            exact (Option.some.inj first).symm

theorem nameOf_leader_eq_iff_homonymous (represents : Represents capacity labels pairs sets)
    (inside : Inside capacity pairs) {p q : Nat} (hp : p < capacity) (hq : q < capacity) :
    sets.nameOf (sets.parents.leader p) = sets.nameOf (sets.parents.leader q) ↔
      sets.parents.Joined p q ∨ Homonymous labels (Related capacity labels pairs) p q ∨
        Homonymous labels (Related capacity labels pairs) q p := by
  have leastP := represents.isLeast_leader inside hp
  have leastQ := represents.isLeast_leader inside hq
  have homonymous {p q : Nat} (leastP : IsLeast {other | Related capacity labels pairs other p}
        (sets.parents.leader p))
      (leastQ : IsLeast {other | Related capacity labels pairs other q} (sets.parents.leader q)) :
      Homonymous labels (Related capacity labels pairs) p q ↔
        labels (sets.parents.leader p) = some (sets.parents.leader q) ∧
          labels (sets.parents.leader q) = none := by
    constructor
    · rintro ⟨labelled, plain, leastLabelled, leastPlain, carries, bare⟩
      rw [leastP.unique leastLabelled, leastQ.unique leastPlain]
      exact ⟨carries, bare⟩
    · rintro ⟨carries, bare⟩
      exact ⟨_, _, leastP, leastQ, carries, bare⟩
  rw [represents.nameOf_leader_eq_iff inside hp hq, homonymous leastP leastQ,
    homonymous leastQ leastP, represents.joined_iff hp hq, represents.leader_eq_iff p hp q hq]

end Represents

/-- Among homonymous nodes one is led by a labelled node and the other by one without a label, so
they are not related. -/
theorem Homonymous.not_related {p q : Nat}
    (homonymous : Homonymous labels (Related capacity labels pairs) p q) :
    ¬ Related capacity labels pairs p q := by
  intro related
  obtain ⟨labelled, plain, leastP, leastQ, carries, bare⟩ := homonymous
  have sameClass : {other | Related capacity labels pairs other p} =
      {other | Related capacity labels pairs other q} := by
    ext other
    exact ⟨fun toP => .trans _ _ _ toP related, fun toQ => .trans _ _ _ toQ (.symm _ _ related)⟩
  rw [sameClass] at leastP
  rw [leastP.unique leastQ, bare] at carries
  cases carries

/-- After any history, unions included, members of one set have one public id, and members of
different sets have different ones unless the smallest member of one set is labelled with the
unlabelled smallest member of the other. -/
theorem setIds_identify (capacity : Nat) (labels : Labelling) (history : List Operation) {p q : Nat}
    (hp : p < capacity) (hq : q < capacity) :
    ∃ first second, ((ofLabels capacity labels).after history).setId p = .ok first ∧
      ((ofLabels capacity labels).after history).setId q = .ok second ∧
      (((ofLabels capacity labels).after history).parents.Joined p q → first = second) ∧
      (first = second → ((ofLabels capacity labels).after history).parents.Joined p q ∨
        Homonymous labels (Classes capacity labels history) p q ∨
        Homonymous labels (Classes capacity labels history) q p) ∧
      (Homonymous labels (Classes capacity labels history) p q ∨
        Homonymous labels (Classes capacity labels history) q p →
          first = second ∧ ¬ ((ofLabels capacity labels).after history).parents.Joined p q) := by
  have tracks := (tracks_ofLabels capacity labels).after history
  have represents := tracks.represents
  have room := represents.capacity_eq
  have iff := represents.nameOf_leader_eq_iff_homonymous tracks.inside hp hq
  refine ⟨_, _, setId_eq represents.ordered (hp.trans_eq room.symm),
    setId_eq represents.ordered (hq.trans_eq room.symm),
    fun joined => iff.mpr (.inl joined), iff.mp,
    fun homonymous => ⟨iff.mpr (.inr homonymous), fun joined => ?_⟩⟩
  have related := (represents.joined_iff hp hq).mp joined
  rcases homonymous with homonymous | homonymous
  · exact homonymous.not_related related
  · exact homonymous.not_related (.symm _ _ related)

def homonymousLabels : Labelling := fun node => if node = 0 then some 1 else none

theorem ofLabels_homonymous : ofLabels 3 homonymousLabels =
    ⟨.replicate 3 rootMark, .insert ∅ 0 1, homonymousLabels⟩ := by
  have answers : PagedArray.answers (Seeding.visit homonymousLabels) 3 {} =
      (#[rootMark, rootMark, rootMark], ⟨.insert ∅ 1 0, .insert ∅ 0 1⟩) := by
    simp [PagedArray.answers, Nat.fold, Seeding.visit, homonymousLabels]
  simp only [ofLabels, seed, PagedArray.setAll_eq, PagedArray.capacity_replicate, answers]
  congr 2
  funext node h
  interval_cases node <;>
    simp [PagedArray.answers, Nat.fold, Seeding.visit, homonymousLabels]

def homonymousSets : DisjointSets := (ofLabels 3 homonymousLabels).after [.union 0 2]

theorem roots_homonymousSets :
    homonymousSets.root 2 = .ok 0 ∧ homonymousSets.root 1 = .ok 1 := by
  rw [homonymousSets, ofLabels_homonymous]
  exact ⟨by decide +kernel, by decide +kernel⟩

theorem not_joined_homonymousSets : ¬ homonymousSets.parents.Joined 2 1 := by
  rintro ⟨r, ofTwo, ofOne⟩
  cases ofTwo.symm.trans roots_homonymousSets.1
  cases ofOne.symm.trans roots_homonymousSets.2

theorem setIds_homonymousSets :
    homonymousSets.setId 2 = .ok 1 ∧ homonymousSets.setId 1 = .ok 1 := by
  have names : homonymousSets.names = .insert ∅ 0 1 := by
    rw [homonymousSets, ofLabels_homonymous]
    rfl
  simp [setId, roots_homonymousSets, Except.map, nameOf, names]

/-- The set of `0` and `2` and the set of `1` are different sets with one public id. -/
theorem setIds_shared :
    ((ofLabels 3 homonymousLabels).after [.union 0 2]).setId 2 = .ok 1 ∧
      ((ofLabels 3 homonymousLabels).after [.union 0 2]).setId 1 = .ok 1 ∧
      ¬ ((ofLabels 3 homonymousLabels).after [.union 0 2]).parents.Joined 2 1 :=
  ⟨setIds_homonymousSets.1, setIds_homonymousSets.2, not_joined_homonymousSets⟩

/-- The two sets share an id because `0` is labelled with `1`. -/
theorem setIds_identify_homonymous :
    2 < 3 ∧ 1 < 3 ∧ homonymousSets.setId 2 = .ok 1 ∧ homonymousSets.setId 1 = .ok 1 ∧
      (Homonymous homonymousLabels (Classes 3 homonymousLabels [.union 0 2]) 2 1 ∨
        Homonymous homonymousLabels (Classes 3 homonymousLabels [.union 0 2]) 1 2) := by
  obtain ⟨two, one⟩ := setIds_homonymousSets
  obtain ⟨first, second, ofTwo, ofOne, -, explained, -⟩ :=
    setIds_identify 3 homonymousLabels [.union 0 2] (p := 2) (q := 1) (by decide) (by decide)
  have same : first = second :=
    (Except.ok.inj (ofTwo.symm.trans two)).trans (Except.ok.inj (ofOne.symm.trans one)).symm
  exact ⟨by decide, by decide, two, one,
    (explained same).resolve_left not_joined_homonymousSets⟩

end GraphAnalytics.DisjointSets
