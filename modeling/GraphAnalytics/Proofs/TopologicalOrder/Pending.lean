/-
# What is pending

The task of a node takes the node's relationships away one by one. A counter holds the relationships
that still arrive at its node: those of nodes that still wait, and those that a task has not taken
away yet. `Degrees` says so of all counters, and that tasks are tasks of released nodes.

The task that takes the last relationship away from a target finds a counter of one, and it is the
only one to find that: the counter is zero afterwards, and nothing is pending that could lower it
again.
-/

import GraphAnalytics.Proofs.TopologicalOrder.Counting
import Mathlib.Algebra.BigOperators.Group.Finset.Basic

namespace GraphAnalytics.TopologicalOrder

variable {g : Graph}

namespace TraversalPoint

/-- The targets from which a task has still to take a relationship away. -/
def owed (g : Graph) : TraversalPoint → List Nat
  | .claim current => g.row current
  | .place current _ => g.row current
  | .mark current => g.row current
  | .scan current => g.row current
  | .row _ position stop => g.ahead position stop
  | .relax _ position stop => g.ahead position stop
  | .raise _ position stop _ _ => g.ahead position stop
  | .release _ position stop => g.ahead position stop
  | .released _ position stop => g.ahead (position + 1) stop
  | .leave => []

/-- How often a task has still to take a relationship away from a node. -/
def owes (g : Graph) (node : Nat) (body : TraversalPoint) : Nat := (body.owed g).count node

/-- One for a task that is about to claim a slot for the node. -/
def claims (node : Nat) : TraversalPoint → Nat
  | .claim current => if current = node then 1 else 0
  | _ => 0

/-- One for a task that has claimed a slot for the node and not put the node into the set yet. -/
def unmarked (node : Nat) : TraversalPoint → Nat
  | .place current _ => if current = node then 1 else 0
  | .mark current => if current = node then 1 else 0
  | _ => 0

def settled : TraversalPoint → Bool
  | .claim _ => false
  | .place _ _ => false
  | .mark _ => false
  | _ => true

def Freed (g : Graph) (inDegrees : Cells) (node : Nat) : Prop :=
  node < g.nodeCount ∧ inDegrees.value node = 0

/-- The task of a settled point is that of a released node, and a row that it is in is the row of
that node. -/
def Valid (g : Graph) (inDegrees : Cells) : TraversalPoint → Prop
  | .scan current => Freed g inDegrees current
  | .row current position stop =>
      Freed g inDegrees current ∧ g.rowStart current ≤ position ∧ stop = g.rowStop current
  | .relax current position stop => Freed g inDegrees current ∧ g.rowStart current ≤ position ∧
      stop = g.rowStop current ∧ position < stop
  | .raise current position stop _ _ => Freed g inDegrees current ∧ g.rowStart current ≤ position ∧
      stop = g.rowStop current ∧ position < stop
  | .release current position stop => Freed g inDegrees current ∧ g.rowStart current ≤ position ∧
      stop = g.rowStop current ∧ position < stop
  | .released current position stop => Freed g inDegrees current ∧ g.rowStart current ≤ position ∧
      stop = g.rowStop current ∧ position < stop
  | _ => True

theorem claims_of_settled {body : TraversalPoint} (h : body.settled = true) (node : Nat) :
    body.claims node = 0 := by
  cases body with
  | claim => cases h
  | _ => rfl

theorem unmarked_of_settled {body : TraversalPoint} (h : body.settled = true) (node : Nat) :
    body.unmarked node = 0 := by
  cases body with
  | place | mark => cases h
  | _ => rfl

theorem eq_claim_of_claims {body : TraversalPoint} {node : Nat} (h : body.claims node ≠ 0) :
    body = .claim node := by
  cases body with
  | claim current =>
      by_cases same : current = node
      · rw [same]
      · exact absurd (if_neg same) h
  | _ => exact absurd rfl h

end TraversalPoint

open TraversalPoint

/-- The nodes that have not been released. -/
def waiting (g : Graph) (inDegrees : Cells) : Finset Nat :=
  (Finset.range g.nodeCount).filter (inDegrees.value · ≠ 0)

/-- The relationships that still arrive at a node: those of waiting nodes and those that tasks have
not taken away yet. -/
def pending (g : Graph) (inDegrees : Cells) (bodies : Multiset TraversalPoint) (node : Nat) : Nat :=
  ∑ source ∈ waiting g inDegrees, (g.row source).count node + load (owes g node) bodies

/-- How the counters and the tasks belong together. -/
structure Degrees (g : Graph) (inDegrees : Cells) (bodies : Multiset TraversalPoint) : Prop where
  capacity : inDegrees.capacity = g.nodeCount
  valid : ∀ body ∈ bodies, body.Valid g inDegrees
  counters : ∀ node < g.nodeCount,
    inDegrees.value node = Word.wrapSigned (pending g inDegrees bodies node : Nat)
  bounded : ∀ node, pending g inDegrees bodies node ≤ g.arrivals node

/-! ### What is pending -/

section Pending

variable {inDegrees : Cells} {bodies : Multiset TraversalPoint} {node : Nat}

/-- No task owes a relationship to a node at which nothing is pending. -/
theorem notMem_owed_of_pending_eq_zero (none : pending g inDegrees bodies node = 0)
    {body : TraversalPoint} (member : body ∈ bodies) : node ∉ body.owed g := by
  have owes : owes g node body = 0 := by
    have share : owes g node body ≤ load (owes g node) bodies := le_load member
    have := (Nat.add_eq_zero_iff.mp none).2
    omega
  exact List.count_eq_zero.mp owes

/-- The predecessors of a node at which nothing is pending have been released. -/
theorem freed_of_pending_eq_zero (wellFormed : g.WellFormed)
    (none : pending g inDegrees bodies node = 0) {source : Nat} (edge : g.Edge source node) :
    Freed g inDegrees source := by
  refine ⟨wellFormed.source_lt edge, Classical.byContradiction fun waits => ?_⟩
  have member : source ∈ waiting g inDegrees :=
    Finset.mem_filter.mpr ⟨Finset.mem_range.mpr (wellFormed.source_lt edge), waits⟩
  have count := Finset.sum_eq_zero_iff.mp (Nat.add_eq_zero_iff.mp none).1 source member
  exact List.count_eq_zero.mp count edge

end Pending

namespace Degrees

variable {inDegrees : Cells} {bodies rest : Multiset TraversalPoint}

/-- Counters tell exactly how much is pending. -/
theorem value_eq_iff (degrees : Degrees g inDegrees bodies) (wellFormed : g.WellFormed)
    (fits : g.relationshipCount ≤ Word.top) {node amount : Nat} (h : node < g.nodeCount)
    (small : amount ≤ Word.top) :
    inDegrees.value node = Word.wrapSigned amount ↔ pending g inDegrees bodies node = amount := by
  have bounded := degrees.bounded node
  have arrivals := wellFormed.arrivals_le node
  rw [degrees.counters node h, Word.wrapSigned_natCast_inj (by omega) small]

theorem pending_eq_zero_iff (degrees : Degrees g inDegrees bodies) (wellFormed : g.WellFormed)
    (fits : g.relationshipCount ≤ Word.top) {node : Nat} (h : node < g.nodeCount) :
    pending g inDegrees bodies node = 0 ↔ inDegrees.value node = 0 :=
  (degrees.value_eq_iff wellFormed fits h (Nat.zero_le _)).symm

theorem waits_of_owed (degrees : Degrees g inDegrees bodies) (wellFormed : g.WellFormed)
    (fits : g.relationshipCount ≤ Word.top) {node : Nat} (h : node < g.nodeCount)
    {body : TraversalPoint} (member : body ∈ bodies) (owed : node ∈ body.owed g) :
    inDegrees.value node ≠ 0 := fun released =>
  notMem_owed_of_pending_eq_zero ((degrees.pending_eq_zero_iff wellFormed fits h).mpr released)
    member owed

/-- A task that passes on what it owes changes nothing about what is pending. -/
theorem pass {body : TraversalPoint} (degrees : Degrees g inDegrees (body ::ₘ rest))
    (valid : ∀ next ∈ bodies, next.Valid g inDegrees)
    (owed : ∀ node, load (owes g node) bodies = owes g node body) :
    Degrees g inDegrees (bodies + rest) := by
  have same (node : Nat) :
      pending g inDegrees (bodies + rest) node = pending g inDegrees (body ::ₘ rest) node := by
    rw [pending, pending, load_add, load_cons, owed]
  refine ⟨degrees.capacity, fun next member => ?_, fun node h => ?_, fun node => ?_⟩
  · rcases Multiset.mem_add.mp member with new | old
    · exact valid next new
    · exact degrees.valid next (Multiset.mem_cons_of_mem old)
  · rw [same]
    exact degrees.counters node h
  · rw [same]
    exact degrees.bounded node

theorem single {body next : TraversalPoint} (degrees : Degrees g inDegrees (body ::ₘ rest))
    (valid : next.Valid g inDegrees) (owed : next.owed g = body.owed g) :
    Degrees g inDegrees ({next} + rest) := by
  refine degrees.pass (fun other member => ?_) fun node => ?_
  · obtain rfl := Multiset.mem_singleton.mp member
    exact valid
  · rw [load_singleton, owes, owed, owes]

/-! ### Taking a relationship away -/

theorem owes_release {current position stop : Nat} (lt : position < stop) (node : Nat) :
    owes g node (.release current position stop) =
      (if g.target position = node then 1 else 0) +
        owes g node (.released current position stop) := by
  simp only [owes, owed]
  rw [g.ahead_of_lt lt, List.count_cons, Nat.add_comm]
  simp only [beq_iff_eq]

/-- The counters after a relationship to the target at a position was taken away. -/
def lowered (g : Graph) (inDegrees : Cells) (position : Nat) : Cells :=
  inDegrees.set (g.target position)
    (Word.wrapSigned (inDegrees.value (g.target position) + -1))

theorem value_lowered_of_ne {position node : Nat} (h : g.target position ≠ node) :
    (lowered g inDegrees position).value node = inDegrees.value node :=
  Cells.value_set_of_ne inDegrees _ h

section Release

variable {current position stop : Nat}
  (degrees : Degrees g inDegrees (.release current position stop ::ₘ rest))

include degrees

theorem target_lt (wellFormed : g.WellFormed) : g.target position < g.nodeCount := by
  obtain ⟨freed, -, atStop, lt⟩ := degrees.valid _ (Multiset.mem_cons_self _ rest)
  have := wellFormed.rowStop_le freed.1
  exact wellFormed.target_lt position (by omega)

theorem pending_target_pos : 0 < pending g inDegrees (.release current position stop ::ₘ rest)
    (g.target position) := by
  obtain ⟨-, -, -, lt⟩ := degrees.valid _ (Multiset.mem_cons_self _ rest)
  rw [pending, load_cons, owes_release lt, if_pos rfl]
  omega

/-- A relationship is taken away only from a node that waits. -/
theorem target_waits (wellFormed : g.WellFormed) (fits : g.relationshipCount ≤ Word.top) :
    inDegrees.value (g.target position) ≠ 0 := by
  obtain ⟨-, -, -, lt⟩ := degrees.valid _ (Multiset.mem_cons_self _ rest)
  refine degrees.waits_of_owed wellFormed fits (degrees.target_lt wellFormed)
    (Multiset.mem_cons_self _ rest) ?_
  rw [owed, g.ahead_of_lt lt]
  exact List.mem_cons_self

theorem value_lowered (wellFormed : g.WellFormed) :
    (lowered g inDegrees position).value (g.target position) =
      Word.wrapSigned ((pending g inDegrees (.release current position stop ::ₘ rest)
        (g.target position) - 1 : Nat)) := by
  have positive := degrees.pending_target_pos
  have inside := degrees.target_lt wellFormed
  rw [lowered, Cells.value_set_self _ _ (degrees.capacity ▸ inside), degrees.counters _ inside,
    Word.wrapSigned_wrapSigned_add]
  congr 1
  omega

/-- The target is released by the task that takes its last relationship away. -/
theorem value_lowered_eq_zero_iff (wellFormed : g.WellFormed)
    (fits : g.relationshipCount ≤ Word.top) :
    (lowered g inDegrees position).value (g.target position) = 0 ↔
      inDegrees.value (g.target position) = 1 := by
  have positive := degrees.pending_target_pos
  have inside := degrees.target_lt wellFormed
  have bounded := degrees.bounded (g.target position)
  have arrivals := wellFormed.arrivals_le (g.target position)
  have last := degrees.value_eq_iff wellFormed fits inside (by decide : 1 ≤ Word.top)
  have zero := Word.wrapSigned_natCast_inj (m := pending g inDegrees
    (.release current position stop ::ₘ rest) (g.target position) - 1) (by omega) (Nat.zero_le _)
  rw [degrees.value_lowered wellFormed]
  refine zero.trans (Iff.trans ?_ last.symm)
  omega

theorem waiting_lowered (wellFormed : g.WellFormed) (fits : g.relationshipCount ≤ Word.top) :
    waiting g (lowered g inDegrees position) =
      if inDegrees.value (g.target position) = 1 then
        (waiting g inDegrees).erase (g.target position)
      else waiting g inDegrees := by
  have iff := degrees.value_lowered_eq_zero_iff wellFormed fits
  have waits := degrees.target_waits wellFormed fits
  ext node
  split
  · next last =>
      rw [Finset.mem_erase, waiting, waiting, Finset.mem_filter, Finset.mem_filter]
      by_cases same : g.target position = node
      · subst same
        simp [iff.mpr last]
      · rw [value_lowered_of_ne same]
        exact ⟨fun member => ⟨Ne.symm same, member⟩, fun both => both.2⟩
  · next more =>
      rw [waiting, waiting, Finset.mem_filter, Finset.mem_filter]
      by_cases same : g.target position = node
      · subst same
        simp [mt iff.mp more, waits]
      · rw [value_lowered_of_ne same]

/-- The task after it has taken the relationship away, and that of the target if it is released. -/
def followers (g : Graph) (inDegrees : Cells) (current position stop : Nat) :
    Multiset TraversalPoint :=
  if inDegrees.value (g.target position) = 1 then
    {.released current position stop, .claim (g.target position)}
  else {.released current position stop}

theorem pending_lowered (wellFormed : g.WellFormed) (fits : g.relationshipCount ≤ Word.top)
    (node : Nat) :
    pending g (lowered g inDegrees position)
        (followers g inDegrees current position stop + rest) node +
      (if g.target position = node then 1 else 0) =
        pending g inDegrees (.release current position stop ::ₘ rest) node := by
  obtain ⟨-, -, -, lt⟩ := degrees.valid _ (Multiset.mem_cons_self _ rest)
  have waits : g.target position ∈ waiting g inDegrees := Finset.mem_filter.mpr
    ⟨Finset.mem_range.mpr (degrees.target_lt wellFormed), degrees.target_waits wellFormed fits⟩
  rw [pending, pending, load_cons, owes_release lt, load_add,
    degrees.waiting_lowered wellFormed fits, followers]
  split
  · rw [← Finset.add_sum_erase _ (fun source => (g.row source).count node) waits]
    have row : owes g node (.claim (g.target position)) = (g.row (g.target position)).count node :=
      rfl
    simp only [Multiset.insert_eq_cons, load_cons, load_singleton, row]
    omega
  · rw [load_singleton]
    omega

/-- A relationship is taken away, and the target is released if it was the last. -/
theorem release (wellFormed : g.WellFormed) (fits : g.relationshipCount ≤ Word.top) :
    Degrees g (lowered g inDegrees position)
      (followers g inDegrees current position stop + rest) := by
  have waits := degrees.target_waits wellFormed fits
  -- Whoever is released stays released, for the target was not.
  have freed {node : Nat} (h : Freed g inDegrees node) :
      Freed g (lowered g inDegrees position) node := by
    refine ⟨h.1, ?_⟩
    rw [value_lowered_of_ne (fun same => waits (same ▸ h.2))]
    exact h.2
  have still : ∀ body : TraversalPoint, body.Valid g inDegrees →
      body.Valid g (lowered g inDegrees position) := by
    intro body valid
    cases body with
    | scan => exact freed valid
    | row | relax | raise | release | released => exact ⟨freed valid.1, valid.2⟩
    | claim | place | mark | leave => trivial
  have pending := degrees.pending_lowered wellFormed fits
  refine ⟨degrees.capacity, fun body member => ?_, fun node h => ?_, fun node => ?_⟩
  · rcases Multiset.mem_add.mp member with new | old
    · have home := degrees.valid _ (Multiset.mem_cons_self _ rest)
      unfold followers at new
      split at new
      · rcases Multiset.mem_cons.mp new with rfl | claim
        · exact ⟨freed home.1, home.2⟩
        · obtain rfl := Multiset.mem_singleton.mp claim
          trivial
      · obtain rfl := Multiset.mem_singleton.mp new
        exact ⟨freed home.1, home.2⟩
    · exact still body (degrees.valid body (Multiset.mem_cons_of_mem old))
  · by_cases same : g.target position = node
    · subst same
      rw [degrees.value_lowered wellFormed, ← pending, if_pos rfl, Nat.add_sub_cancel]
    · rw [value_lowered_of_ne same, degrees.counters node h, ← pending, if_neg same, Nat.add_zero]
  · have bounded := degrees.bounded node
    rw [← pending] at bounded
    exact Nat.le_of_add_right_le bounded

end Release

/-- The followers are the bodies that come after the task in undisturbed work. -/
theorem followers_of_successors {store : Traversal} {current position stop : Nat}
    (goesOn : ((traversal g).step store (.release current position stop)).2.successors
      (traversal g).start true = some bodies) :
    bodies = followers g store.inDegrees current position stop := by
  simp only [traversal] at goesOn
  unfold followers
  split at goesOn
  · next last => exact (Option.some.inj goesOn).symm.trans (if_pos last).symm
  · next more => exact (Option.some.inj goesOn).symm.trans (if_neg more).symm

end Degrees

end GraphAnalytics.TopologicalOrder
