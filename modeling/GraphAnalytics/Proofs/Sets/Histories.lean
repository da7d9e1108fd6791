/-
# Histories of disjoint sets

Whatever is asked of disjoint sets, one operation after the other, every answer is that of the
classes which labels and the pairs united so far generate (`Operation.Right`). An answer therefore
depends on the pairs alone, and on them only as a set: neither on their order, orientation or
repetition, nor on walks that have moved cells, nor on refused operations. Starting over forgets the
pairs, and leaves the very structure that the labels give.

The sets that start as singletons are those of a labelling without labels.
-/

import GraphAnalytics.Proofs.Sets.Alone
import GraphAnalytics.Proofs.Sets.Classes

namespace GraphAnalytics.DisjointSets

/-- Something that is asked of disjoint sets, whose trying operations fail on an id that is not a
node. -/
inductive Operation where
  | find (node : Nat)
  | root (node : Nat)
  | union (p q : Nat)
  | tryUnion (p q : Nat)
  | sameSet (p q : Nat)
  | setId (node : Nat)
  | trySetId (node : Nat)
  | count
  | reset
  deriving DecidableEq

inductive Reply where
  | node (node : Nat)
  | same (same : Bool)
  | number (number : Nat)
  | done
  deriving DecidableEq

/-- What comes of an operation: a broken precondition, a fault, or a reply. -/
abbrev Response := Except Violation (Except Fault Reply)

def Operation.perform (sets : DisjointSets) : Operation → Response × DisjointSets
  | .find node =>
      let (answer, sets) := (DisjointSets.find node).perform sets
      (answer.map (.ok ∘ .node), sets)
  | .root node => ((sets.root node).map (.ok ∘ .node), sets)
  | .union p q =>
      let (answer, sets) := (DisjointSets.union p q).perform sets
      (answer.map fun _ => .ok .done, sets)
  | .tryUnion p q =>
      let (answer, sets) := (DisjointSets.tryUnion p q).perform sets
      (answer.map (·.map fun _ => .done), sets)
  | .sameSet p q =>
      let (answer, sets) := (DisjointSets.sameSet p q).perform sets
      (answer.map (.ok ∘ .same), sets)
  | .setId node => ((sets.setId node).map (.ok ∘ .node), sets)
  | .trySetId node =>
      let (answer, sets) := (DisjointSets.trySetId node).perform sets
      (answer.map (·.map .node), sets)
  | .count => (sets.count.map (.ok ∘ .number), sets)
  | .reset => (.ok (.ok .done), sets.reset)

/-- The sets after a history of operations. -/
def after (sets : DisjointSets) (history : List Operation) : DisjointSets :=
  history.foldl (fun sets operation => (operation.perform sets).2) sets

def response (sets : DisjointSets) (history : List Operation) (operation : Operation) : Response :=
  (operation.perform (sets.after history)).1

namespace Operation

/-- The ids that an operation names, in the order in which they are looked at. -/
def nodes : Operation → List Nat
  | find node | root node | setId node | trySetId node => [node]
  | union p q | tryUnion p q | sameSet p q => [p, q]
  | count | reset => []

def stray? (capacity : Nat) (operation : Operation) : Option Nat :=
  operation.nodes.find? (capacity ≤ ·)

/-- How an operation says that an id is not a node: the trying ones fail, the others break a
precondition. -/
def refusal (capacity id : Nat) : Operation → Response
  | tryUnion .. | trySetId .. => .ok (.error (.indexOutOfBounds id capacity))
  | _ => .error (.indexOutOfBounds id capacity)

/-- The operation changes classes: it starts over, or it unites two nodes. -/
def Changes (capacity : Nat) : Operation → Prop
  | union p q | tryUnion p q => p < capacity ∧ q < capacity
  | reset => True
  | _ => False

/-- The reply that an operation on nodes owes if these are the classes and the labels. -/
def Expects (capacity : Nat) (labels : Labelling) (related : Nat → Nat → Prop) :
    Operation → Reply → Prop
  | find node, reply | root node, reply =>
      ∃ smallest, IsLeast {other | related other node} smallest ∧ reply = .node smallest
  | setId node, reply | trySetId node, reply =>
      ∃ smallest, IsLeast {other | related other node} smallest ∧
        reply = .node ((labels smallest).getD smallest)
  | sameSet p q, reply => ∃ same, reply = .same same ∧ (same = true ↔ related p q)
  | count, reply =>
      reply = .number (Nat.card (Quot fun p q : Fin capacity => related p q))
  | union .., reply | tryUnion .., reply | reset, reply => reply = .done

/-- The response is right if these are the classes and the labels: an id that is not a node is
refused by name, and otherwise the reply is the one owed. -/
def Right (capacity : Nat) (labels : Labelling) (related : Nat → Nat → Prop)
    (operation : Operation) (response : Response) : Prop :=
  match operation.stray? capacity with
  | some id => response = operation.refusal capacity id
  | none => ∃ reply, response = .ok (.ok reply) ∧ operation.Expects capacity labels related reply

def note (capacity : Nat) (pairs : List (Nat × Nat)) : Operation → List (Nat × Nat)
  | union p q | tryUnion p q => if p < capacity ∧ q < capacity then pairs ++ [(p, q)] else pairs
  | reset => []
  | _ => pairs

end Operation

/-- The pairs of nodes that a history has united since it last started over, first to last. -/
def united (capacity : Nat) (history : List Operation) : List (Nat × Nat) :=
  history.foldl (Operation.note capacity) []

/-- The classes that labels and the pairs united by a history generate. -/
def Classes (capacity : Nat) (labels : Labelling) (history : List Operation) : Nat → Nat → Prop :=
  Related capacity labels fun p q => (p, q) ∈ united capacity history

/-- Up to order, orientation and repetition the pairs are the same. -/
def SamePairs (pairs others : List (Nat × Nat)) : Prop :=
  ∀ p q, (p, q) ∈ pairs ∨ (q, p) ∈ pairs ↔ (p, q) ∈ others ∨ (q, p) ∈ others

/-! ### Right responses -/

namespace Operation

variable {capacity : Nat} {labels : Labelling} {related : Nat → Nat → Prop}

theorem Right.unique {operation : Operation} {first second : Response}
    (hfirst : operation.Right capacity labels related first)
    (hsecond : operation.Right capacity labels related second) : first = second := by
  unfold Right at hfirst hsecond
  cases stray : operation.stray? capacity with
  | some id =>
      rw [stray] at hfirst hsecond
      exact hfirst.trans hsecond.symm
  | none =>
    rw [stray] at hfirst hsecond
    obtain ⟨reply, rfl, owed⟩ := hfirst
    obtain ⟨reply', rfl, owed'⟩ := hsecond
    suffices same : reply = reply' by rw [same]
    cases operation with
    | find | root | setId | trySetId =>
        obtain ⟨smallest, least, rfl⟩ := owed
        obtain ⟨smallest', least', rfl⟩ := owed'
        rw [least.unique least']
    | sameSet p q =>
        obtain ⟨same, rfl, iff⟩ := owed
        obtain ⟨same', rfl, iff'⟩ := owed'
        rw [Bool.eq_iff_iff.mpr (iff.trans iff'.symm)]
    | union | tryUnion | count | reset => exact owed.trans owed'.symm

theorem right_of_stray {operation : Operation} {id : Nat} {response : Response}
    (stray : operation.stray? capacity = some id)
    (refused : response = operation.refusal capacity id) :
    operation.Right capacity labels related response := by
  unfold Right
  rw [stray]
  exact refused

theorem right_of_reply {operation : Operation} {reply : Reply} {response : Response}
    (nodes : operation.stray? capacity = none) (replies : response = .ok (.ok reply))
    (owed : operation.Expects capacity labels related reply) :
    operation.Right capacity labels related response := by
  unfold Right
  rw [nodes]
  exact ⟨reply, replies, owed⟩

theorem stray_one {node id : Nat} :
    [node].find? (capacity ≤ ·) = some id ↔ capacity ≤ node ∧ node = id := by
  grind

theorem stray_two {p q id : Nat} :
    [p, q].find? (capacity ≤ ·) = some id ↔
      capacity ≤ p ∧ p = id ∨ p < capacity ∧ capacity ≤ q ∧ q = id := by
  grind

theorem nodes_one {node : Nat} : [node].find? (capacity ≤ ·) = none ↔ node < capacity := by
  grind

theorem nodes_two {p q : Nat} :
    [p, q].find? (capacity ≤ ·) = none ↔ p < capacity ∧ q < capacity := by
  grind

theorem not_both_of_stray {p q id : Nat} (stray : [p, q].find? (capacity ≤ ·) = some id) :
    ¬ (p < capacity ∧ q < capacity) := by
  grind

end Operation

/-! ### One operation -/

theorem perform_onForest {α : Type} (action : Guarded Violation Forest α) (sets : DisjointSets) :
    (onForest action).perform sets =
      ((action.perform sets.parents).1,
        ⟨(action.perform sets.parents).2, sets.names, sets.labels⟩) := rfl

theorem perform_check {sets : DisjointSets} {node : Nat} (inside : node < sets.capacity) :
    (check node).perform sets = (.ok (.ok ()), sets) := by
  rw [check, Fallible.perform_ofGuarded, Guarded.perform_inspect, if_pos inside]

theorem perform_check_of_le {sets : DisjointSets} {node : Nat} (outside : sets.capacity ≤ node) :
    (check node).perform sets = (.ok (.error (.indexOutOfBounds node sets.capacity)), sets) := by
  rw [check, Fallible.perform_ofGuarded, Guarded.perform_inspect, if_neg (Nat.not_lt.mpr outside)]

/-- Sets represent the labels and the pairs united so far, and know which labels they started from.
-/
structure Tracks (capacity : Nat) (labels : Labelling) (pairs : List (Nat × Nat))
    (sets : DisjointSets) : Prop where
  represents : Represents capacity labels (fun p q => (p, q) ∈ pairs) sets
  inside : Inside capacity fun p q => (p, q) ∈ pairs
  labels_eq : sets.labels = labels

namespace Tracks

variable {capacity : Nat} {labels : Labelling} {pairs : List (Nat × Nat)} {sets : DisjointSets}

/-- Moving cells without merging sets changes nothing that is tracked. -/
theorem keep (tracks : Tracks capacity labels pairs sets) {parents : Forest}
    (keeps : Forest.Keeps sets.parents parents) :
    Tracks capacity labels pairs ⟨parents, sets.names, sets.labels⟩ where
  represents := by
    have evolved := tracks.represents.evolve keeps (fun _ _ never => never.elim) tracks.inside
    simpa only [Forest.noPairs, or_false] using evolved
  inside := tracks.inside
  labels_eq := tracks.labels_eq

theorem unite (tracks : Tracks capacity labels pairs sets) {p q : Nat} (hp : p < capacity)
    (hq : q < capacity) {parents : Forest}
    (evolves : Forest.Evolves (Forest.onlyPair p q) sets.parents parents)
    (together : parents.leader p = parents.leader q) :
    Tracks capacity labels (pairs ++ [(p, q)]) ⟨parents, sets.names, sets.labels⟩ where
  represents := by
    have evolved := tracks.represents.evolve evolves
      (by rintro _ _ ⟨rfl, rfl⟩; exact together) tracks.inside
    simpa only [Forest.onlyPair, List.mem_append, List.mem_singleton, Prod.mk.injEq] using evolved
  inside a b member := by
    rcases List.mem_append.mp member with old | new
    · exact tracks.inside a b old
    · obtain ⟨rfl, rfl⟩ := Prod.mk.inj (List.mem_singleton.mp new)
      exact ⟨hp, hq⟩
  labels_eq := tracks.labels_eq

theorem reset_eq (tracks : Tracks capacity labels pairs sets) :
    sets.reset = ofLabels capacity labels := by
  have room : sets.parents.capacity = capacity := tracks.represents.capacity_eq
  rw [DisjointSets.reset, seed_eq_ofLabels, room, tracks.labels_eq]

end Tracks

theorem tracks_ofLabels (capacity : Nat) (labels : Labelling) :
    Tracks capacity labels [] (ofLabels capacity labels) where
  represents := by
    have represents : Represents capacity labels (fun _ _ => False) (ofLabels capacity labels) :=
      represents_seed (.replicate capacity rootMark) labels
    simpa only [List.not_mem_nil] using represents
  inside _ _ member := absurd member List.not_mem_nil
  labels_eq := rfl

namespace Tracks

variable {capacity : Nat} {labels : Labelling} {pairs : List (Nat × Nat)} {sets : DisjointSets}

/-- An operation that names an id that is no node is refused and merges nothing. -/
theorem perform_of_stray (tracks : Tracks capacity labels pairs sets) {operation : Operation}
    {id : Nat} (stray : operation.stray? capacity = some id) :
    ∃ parents, Forest.Keeps sets.parents parents ∧
      operation.perform sets =
        (operation.refusal capacity id, ⟨parents, sets.names, sets.labels⟩) ∧
      operation.note capacity pairs = pairs := by
  obtain rfl : sets.parents.capacity = capacity := tracks.represents.capacity_eq
  have ordered := tracks.represents.ordered
  have settled : Forest.Keeps sets.parents sets.parents := .refl ordered
  cases operation with
  | find node =>
      obtain ⟨outside, rfl⟩ := Operation.stray_one.mp stray
      refine ⟨_, settled, ?_, rfl⟩
      simp only [Operation.perform, DisjointSets.find, perform_onForest,
        Forest.perform_find_of_le outside]
      rfl
  | root node =>
      obtain ⟨outside, rfl⟩ := Operation.stray_one.mp stray
      refine ⟨_, settled, ?_, rfl⟩
      simp only [Operation.perform, DisjointSets.root, Forest.root_of_le outside]
      rfl
  | setId node =>
      obtain ⟨outside, rfl⟩ := Operation.stray_one.mp stray
      refine ⟨_, settled, ?_, rfl⟩
      simp only [Operation.perform, DisjointSets.setId, DisjointSets.root,
        Forest.root_of_le outside]
      rfl
  | trySetId node =>
      obtain ⟨outside, rfl⟩ := Operation.stray_one.mp stray
      refine ⟨_, settled, ?_, rfl⟩
      simp only [Operation.perform, DisjointSets.trySetId,
        Fallible.perform_bind_of_fault (perform_check_of_le outside)]
      rfl
  | union p q =>
      refine ⟨_, settled, ?_, if_neg (Operation.not_both_of_stray stray)⟩
      obtain ⟨outside, rfl⟩ | ⟨hp, outside, rfl⟩ := Operation.stray_two.mp stray
      · simp only [Operation.perform, DisjointSets.union, perform_onForest,
          Forest.perform_union_of_le (.inl outside), if_neg (Nat.not_lt.mpr outside)]
        rfl
      · simp only [Operation.perform, DisjointSets.union, perform_onForest,
          Forest.perform_union_of_le (.inr outside), if_pos hp]
        rfl
  | tryUnion p q =>
      refine ⟨_, settled, ?_, if_neg (Operation.not_both_of_stray stray)⟩
      obtain ⟨outside, rfl⟩ | ⟨hp, outside, rfl⟩ := Operation.stray_two.mp stray
      · simp only [Operation.perform, DisjointSets.tryUnion,
          Fallible.perform_bind_of_fault (perform_check_of_le outside)]
        rfl
      · simp only [Operation.perform, DisjointSets.tryUnion,
          Fallible.perform_bind_of_ok (perform_check hp),
          Fallible.perform_bind_of_fault (perform_check_of_le outside)]
        rfl
  | sameSet p q =>
      obtain ⟨parents, compared, keeps⟩ := Forest.perform_sameSet ordered p q
      refine ⟨parents, keeps, ?_, rfl⟩
      simp only [Operation.perform, DisjointSets.sameSet, perform_onForest, compared]
      obtain ⟨outside, rfl⟩ | ⟨hp, outside, rfl⟩ := Operation.stray_two.mp stray
      · rw [if_neg (Nat.not_lt.mpr outside)]
        rfl
      · rw [if_pos hp, Forest.comparison, if_neg (Nat.not_lt.mpr outside)]
        rfl
  | count => cases stray
  | reset => cases stray

theorem perform_union (tracks : Tracks capacity labels pairs sets) {p q : Nat} (hp : p < capacity)
    (hq : q < capacity) :
    ∃ after, (DisjointSets.union p q).perform sets = (.ok (), after) ∧
      Tracks capacity labels (pairs ++ [(p, q)]) after := by
  have room : sets.parents.capacity = capacity := tracks.represents.capacity_eq
  obtain ⟨parents, united, evolves, together⟩ :=
    Forest.perform_union tracks.represents.ordered (room.symm ▸ hp) (room.symm ▸ hq)
  refine ⟨_, ?_, tracks.unite hp hq evolves together⟩
  rw [DisjointSets.union, perform_onForest, united]

/-- An operation on nodes gives the reply that the classes and labels owe, and unites its pair if it
unites one. -/
theorem perform_of_nodes (tracks : Tracks capacity labels pairs sets) {operation : Operation}
    (nodes : operation.stray? capacity = none) :
    (∃ reply, (operation.perform sets).1 = .ok (.ok reply) ∧
      operation.Expects capacity labels (Related capacity labels fun p q => (p, q) ∈ pairs) reply) ∧
    Tracks capacity labels (operation.note capacity pairs) (operation.perform sets).2 := by
  have room : sets.parents.capacity = capacity := tracks.represents.capacity_eq
  have ordered := tracks.represents.ordered
  cases operation with
  | find node =>
      have inside : node < sets.parents.capacity := room ▸ Operation.nodes_one.mp nodes
      obtain ⟨parents, found, keeps⟩ := Forest.perform_find ordered inside
      simp only [Operation.perform, DisjointSets.find, perform_onForest, found]
      exact ⟨⟨_, rfl, _, tracks.represents.isLeast_leader tracks.inside (room ▸ inside), rfl⟩,
        tracks.keep keeps⟩
  | root node =>
      have inside : node < sets.parents.capacity := room ▸ Operation.nodes_one.mp nodes
      simp only [Operation.perform, DisjointSets.root, Forest.root_eq_leader ordered inside]
      exact ⟨⟨_, rfl, _, tracks.represents.isLeast_leader tracks.inside (room ▸ inside), rfl⟩,
        tracks⟩
  | setId node =>
      obtain ⟨smallest, least, named⟩ :=
        tracks.represents.setId_eq tracks.inside (Operation.nodes_one.mp nodes)
      simp only [Operation.perform, named]
      exact ⟨⟨_, rfl, _, least, rfl⟩, tracks⟩
  | trySetId node =>
      have inside : node < sets.parents.capacity := room ▸ Operation.nodes_one.mp nodes
      obtain ⟨smallest, least, named⟩ :=
        tracks.represents.setId_eq tracks.inside (Operation.nodes_one.mp nodes)
      simp only [Operation.perform, DisjointSets.trySetId,
        Fallible.perform_bind_of_ok (perform_check inside), Fallible.perform_lift,
        Guarded.perform_inspect, named]
      exact ⟨⟨_, rfl, _, least, rfl⟩, tracks⟩
  | union p q =>
      have both := Operation.nodes_two.mp nodes
      obtain ⟨after, united, tracks⟩ := tracks.perform_union both.1 both.2
      simp only [Operation.perform, united, Operation.note, if_pos both]
      exact ⟨⟨_, rfl, rfl⟩, tracks⟩
  | tryUnion p q =>
      have both := Operation.nodes_two.mp nodes
      have hp : p < sets.capacity := tracks.represents.capacity_eq.symm ▸ both.1
      have hq : q < sets.capacity := tracks.represents.capacity_eq.symm ▸ both.2
      obtain ⟨after, united, tracks⟩ := tracks.perform_union both.1 both.2
      simp only [Operation.perform, DisjointSets.tryUnion,
        Fallible.perform_bind_of_ok (perform_check hp),
        Fallible.perform_bind_of_ok (perform_check hq), Fallible.perform_lift, united,
        Operation.note, if_pos both]
      exact ⟨⟨_, rfl, rfl⟩, tracks⟩
  | sameSet p q =>
      obtain ⟨hp, hq⟩ := Operation.nodes_two.mp nodes
      obtain ⟨parents, compared, keeps⟩ := Forest.perform_sameSet ordered p q
      simp only [Operation.perform, DisjointSets.sameSet, perform_onForest, compared]
      rw [if_pos (room.symm ▸ hp), Forest.comparison, if_pos (room.symm ▸ hq)]
      refine ⟨⟨_, rfl, _, rfl, ?_⟩, tracks.keep keeps⟩
      rw [beq_iff_eq, tracks.represents.leader_eq_iff p hp q hq]
  | count =>
      simp only [Operation.perform, tracks.represents.count_eq]
      exact ⟨⟨_, rfl, rfl⟩, tracks⟩
  | reset =>
      refine ⟨⟨_, rfl, rfl⟩, ?_⟩
      show Tracks capacity labels [] sets.reset
      rw [tracks.reset_eq]
      exact tracks_ofLabels capacity labels

/-- Whatever is asked, the response is right, and the sets track what has been united since. -/
theorem perform (tracks : Tracks capacity labels pairs sets) (operation : Operation) :
    operation.Right capacity labels (Related capacity labels fun p q => (p, q) ∈ pairs)
        (operation.perform sets).1 ∧
      Tracks capacity labels (operation.note capacity pairs) (operation.perform sets).2 := by
  cases stray : operation.stray? capacity with
  | some id =>
      obtain ⟨parents, keeps, performed, noted⟩ := tracks.perform_of_stray stray
      rw [performed, noted]
      exact ⟨Operation.right_of_stray stray rfl, tracks.keep keeps⟩
  | none =>
      obtain ⟨⟨reply, replies, owed⟩, tracks⟩ := tracks.perform_of_nodes stray
      exact ⟨Operation.right_of_reply stray replies owed, tracks⟩

theorem after (tracks : Tracks capacity labels pairs sets) (history : List Operation) :
    Tracks capacity labels (history.foldl (Operation.note capacity) pairs)
      (sets.after history) := by
  induction history generalizing sets pairs with
  | nil => exact tracks
  | cons operation history ih => exact ih (tracks.perform operation).2

end Tracks

theorem right_response (capacity : Nat) (labels : Labelling) (history : List Operation)
    (operation : Operation) :
    operation.Right capacity labels (Classes capacity labels history)
      ((ofLabels capacity labels).response history operation) :=
  (((tracks_ofLabels capacity labels).after history).perform operation).1

/-! ### Only the pairs count -/

variable {capacity : Nat} {labels : Labelling}

theorem united_append (capacity : Nat) (history later : List Operation) :
    united capacity (history ++ later) =
      later.foldl (Operation.note capacity) (united capacity history) :=
  List.foldl_append

/-- An operation that changes no class leaves the pairs as they are. -/
theorem Operation.note_of_not_changes {operation : Operation} (idle : ¬ operation.Changes capacity)
    (pairs : List (Nat × Nat)) : operation.note capacity pairs = pairs := by
  cases operation with
  | union p q | tryUnion p q => exact if_neg idle
  | reset => exact absurd trivial idle
  | find | root | sameSet | setId | trySetId | count => rfl

namespace SamePairs

variable {pairs others : List (Nat × Nat)}

theorem symm (same : SamePairs pairs others) : SamePairs others pairs :=
  fun p q => (same p q).symm

theorem note (same : SamePairs pairs others) (operation : Operation) :
    SamePairs (operation.note capacity pairs) (operation.note capacity others) := by
  cases operation with
  | union p q | tryUnion p q =>
      simp only [Operation.note]
      split
      · intro a b
        simp only [List.mem_append]
        rw [or_or_or_comm, same a b, or_or_or_comm]
      · exact same
  | reset => exact fun _ _ => Iff.rfl
  | find | root | sameSet | setId | trySetId | count => exact same

theorem foldl_note (same : SamePairs pairs others) (later : List Operation) :
    SamePairs (later.foldl (Operation.note capacity) pairs)
      (later.foldl (Operation.note capacity) others) := by
  induction later generalizing pairs others with
  | nil => exact same
  | cons operation later ih => exact ih (same.note operation)

theorem related {p q : Nat} (same : SamePairs pairs others)
    (related : Related capacity labels (fun p q => (p, q) ∈ pairs) p q) :
    Related capacity labels (fun p q => (p, q) ∈ others) p q := by
  refine eqvGen_of_steps (fun p q step => ?_) related
  rcases step with pair | shared
  · rcases (same p q).mp (.inl pair) with pair | reversed
    · exact .rel _ _ (.inl pair)
    · exact .symm _ _ (.rel _ _ (.inl reversed))
  · exact .rel _ _ (.inr shared)

theorem classes_eq {history other : List Operation}
    (same : SamePairs (united capacity history) (united capacity other)) :
    Classes capacity labels history = Classes capacity labels other := by
  funext p q
  exact propext ⟨same.related, same.symm.related⟩

/-- After histories that have united the same pairs all responses are the same. -/
theorem response_eq {history other : List Operation}
    (same : SamePairs (united capacity history) (united capacity other)) (operation : Operation) :
    (ofLabels capacity labels).response history operation =
      (ofLabels capacity labels).response other operation := by
  have right := right_response capacity labels history operation
  rw [same.classes_eq] at right
  exact right.unique (right_response capacity labels other operation)

end SamePairs

/-- Sets that start as singletons answer about the partition that the united pairs generate. What
changes no class changes no later answer, and of the united pairs neither order nor orientation nor
repetition matters. -/
theorem singletons_answer (capacity : Nat) (history : List Operation) :
    (∀ operation : Operation,
      operation.Right capacity (fun _ => none)
        (Relation.EqvGen fun p q => (p, q) ∈ united capacity history)
        ((singletons capacity).response history operation)) ∧
    (∀ operation : Operation, ¬ operation.Changes capacity → ∀ later next,
      (singletons capacity).response (history ++ operation :: later) next =
        (singletons capacity).response (history ++ later) next) ∧
    ∀ other, SamePairs (united capacity history) (united capacity other) → ∀ later next,
      (singletons capacity).response (history ++ later) next =
        (singletons capacity).response (other ++ later) next := by
  refine ⟨fun operation => ?_, fun operation idle later next => ?_, fun other same later next => ?_⟩
  · have right := right_response capacity (fun _ => none) history operation
    have classes : Classes capacity (fun _ => none) history =
        Relation.EqvGen fun p q => (p, q) ∈ united capacity history := by
      funext p q
      exact propext related_unlabelled
    rwa [classes] at right
  · refine SamePairs.response_eq ?_ next
    rw [united_append, united_append, List.foldl_cons, Operation.note_of_not_changes idle]
    exact fun _ _ => Iff.rfl
  · refine SamePairs.response_eq ?_ next
    rw [united_append, united_append]
    exact same.foldl_note later

/-- Five nodes of which `1`, `3` and `4` are united: walking from `4` between or after the two
unions changes nothing, nor does uniting the pairs the other way about, twice, and among refused
ones. -/
theorem singletons_answer_chain :
    (∃ smallest,
      IsLeast {other | Relation.EqvGen (fun p q => (p, q) ∈ [(1, 3), (3, 4)]) other 4} smallest ∧
      (singletons 5).response [.union 1 3, .union 3 4] (.find 4) = .ok (.ok (.node smallest)) ∧
      smallest = 1) ∧
    (singletons 5).response [.union 1 3, .find 4, .union 3 4] .count =
      (singletons 5).response [.union 1 3, .union 3 4] .count ∧
    (singletons 5).response [.union 1 3, .union 3 4, .union 0 2] (.sameSet 1 4) =
      (singletons 5).response
        [.union 4 3, .tryUnion 1 9, .union 3 1, .union 4 3, .union 0 2] (.sameSet 1 4) := by
  obtain ⟨right, -, same⟩ := singletons_answer 5 [.union 1 3, .union 3 4]
  refine ⟨?_, ?_, ?_⟩
  · obtain ⟨reply, replies, smallest, least, rfl⟩ := right (.find 4)
    refine ⟨smallest, least, replies, ?_⟩
    have walked : (singletons 5).response [.union 1 3, .union 3 4] (.find 4) =
        .ok (.ok (.node 1)) := by
      decide +kernel
    exact Reply.node.inj (Except.ok.inj (Except.ok.inj (replies.symm.trans walked)))
  · exact (singletons_answer 5 [.union 1 3]).2.1 (.find 4) id [.union 3 4] .count
  · refine same [.union 4 3, .tryUnion 1 9, .union 3 1, .union 4 3] ?_ [.union 0 2] (.sameSet 1 4)
    intro p q
    show (p, q) ∈ [(1, 3), (3, 4)] ∨ (q, p) ∈ [(1, 3), (3, 4)] ↔
      (p, q) ∈ [(4, 3), (3, 1), (4, 3)] ∨ (q, p) ∈ [(4, 3), (3, 1), (4, 3)]
    simp only [List.mem_cons, Prod.mk.injEq, List.not_mem_nil, or_false]
    omega

/-- Sets that start from labels answer about the classes that labels and united pairs generate, and
a public id is the label of the smallest member if it has one. Starting over leaves the very
structure that the labels give. -/
theorem labelled_answer (capacity : Nat) (labels : Labelling) (history : List Operation) :
    (∀ p q, ((ofLabels capacity labels).after history).parents.Joined p q ↔
      p < capacity ∧ q < capacity ∧ Classes capacity labels history p q) ∧
    (∀ operation : Operation,
      operation.Right capacity labels (Classes capacity labels history)
        ((ofLabels capacity labels).response history operation)) ∧
    (ofLabels capacity labels).after (history ++ [.reset]) = ofLabels capacity labels := by
  have tracks := (tracks_ofLabels capacity labels).after history
  refine ⟨fun p q => ?_, right_response capacity labels history, ?_⟩
  · constructor
    · intro joined
      have room : ((ofLabels capacity labels).after history).parents.capacity = capacity :=
        tracks.represents.capacity_eq
      obtain ⟨hp, hq, -⟩ := (Forest.joined_iff tracks.represents.ordered).mp joined
      rw [room] at hp hq
      exact ⟨hp, hq, (tracks.represents.joined_iff hp hq).mp joined⟩
    · rintro ⟨hp, hq, related⟩
      exact (tracks.represents.joined_iff hp hq).mpr related
  · rw [DisjointSets.after, List.foldl_append]
    exact tracks.reset_eq

end GraphAnalytics.DisjointSets
