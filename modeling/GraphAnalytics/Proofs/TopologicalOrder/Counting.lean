/-
# Counting and gathering

Counting adds one to the counter of a target for every relationship that a task comes across. A
counter and what the tasks have still to count at it always add up to the relationships that arrive
there. Gathering changes no counter; the nodes that were found and the nodes still to be looked at
add up to all nodes with a counter of zero.

Counters are signed words that wrap. A graph has no more relationships than there are words, so
counters that agree count the same number of relationships.
-/

import GraphAnalytics.Proofs.Graph.Rows
import GraphAnalytics.Proofs.Paged.Access
import GraphAnalytics.Proofs.Partition.Cover
import GraphAnalytics.Proofs.Schedule.Undisturbed
import GraphAnalytics.TopologicalOrder

namespace GraphAnalytics

namespace Word

theorem wrapSigned_wrapSigned_add (x y : Int) :
    wrapSigned (wrapSigned x + y) = wrapSigned (x + y) :=
  Int.bmod_add_bmod

theorem wrapSigned_natCast_inj {m n : Nat} (hm : m ≤ top) (hn : n ≤ top) :
    wrapSigned m = wrapSigned n ↔ m = n := by
  refine ⟨fun same => ?_, fun same => same ▸ rfl⟩
  have residues : (m : Int) % modulus = (n : Int) % modulus := by
    rw [← Int.bmod_emod (x := m), ← Int.bmod_emod (x := n)]
    exact congrArg (· % (modulus : Int)) same
  unfold modulus at residues
  unfold top at hm hn
  omega

end Word

theorem Partition.stop_sub_start (partition : Partition) :
    partition.stop - partition.start = partition.count :=
  Nat.add_sub_cancel_left partition.start partition.count

namespace Graph

def arrivals (g : Graph) (node : Nat) : Nat := ((List.range g.nodeCount).flatMap g.row).count node

/-- The targets of the nodes from `node` on that a partition still has to go through. -/
def targetsFrom (g : Graph) (partition : Partition) (node : Nat) : List Nat :=
  (List.range' node (partition.stop - node)).flatMap g.row

variable {g : Graph}

theorem targetsFrom_of_lt {partition : Partition} {node : Nat} (h : node < partition.stop) :
    g.targetsFrom partition node = g.row node ++ g.targetsFrom partition (node + 1) := by
  have more : partition.stop - node = partition.stop - (node + 1) + 1 := by omega
  rw [targetsFrom, more, List.range'_succ, List.flatMap_cons, targetsFrom]

theorem targetsFrom_of_le {partition : Partition} {node : Nat} (h : partition.stop ≤ node) :
    g.targetsFrom partition node = [] := by
  rw [targetsFrom, Nat.sub_eq_zero_of_le h]
  rfl

theorem WellFormed.arrivals_le (wellFormed : g.WellFormed) (node : Nat) :
    g.arrivals node ≤ g.relationshipCount :=
  Nat.le_trans List.count_le_length wellFormed.length_flatMap_row_le

end Graph

namespace TopologicalOrder

variable {g : Graph}

/-! ### Counting -/

/-- The targets that a counting task has still to count. -/
def CountingPoint.owed (g : Graph) : CountingPoint → List Nat
  | .node partition current => g.targetsFrom partition current
  | .scan partition current => g.targetsFrom partition current
  | .row partition current position stop =>
      g.ahead position stop ++ g.targetsFrom partition (current + 1)
  | .stopped => []

def CountingPoint.owes (g : Graph) (node : Nat) (body : CountingPoint) : Nat :=
  (body.owed g).count node

/-- The nodes a counting task will come to are nodes of the graph, and so are the targets. -/
def CountingPoint.Valid (g : Graph) : CountingPoint → Prop
  | .node partition current =>
      ∀ later, current ≤ later → later < partition.stop → later < g.nodeCount
  | .scan partition current => current < partition.stop ∧
      ∀ later, current ≤ later → later < partition.stop → later < g.nodeCount
  | .row partition current _ stop => stop ≤ g.relationshipCount ∧
      ∀ later, current < later → later < partition.stop → later < g.nodeCount
  | .stopped => True

/-- Each counter holds what has been counted, and what the tasks owe makes up the rest. -/
structure Counts (g : Graph) (store : Counting) (bodies : Multiset CountingPoint) : Prop where
  capacity : store.inDegrees.capacity = g.nodeCount
  valid : ∀ body ∈ bodies, body.Valid g
  counters : ∀ node < g.nodeCount, ∃ counted : Nat,
    store.inDegrees.value node = Word.wrapSigned counted ∧
      counted + load (CountingPoint.owes g node) bodies = g.arrivals node

theorem Counts.pass {store : Counting} {body next : CountingPoint} {rest : Multiset CountingPoint}
    (counts : Counts g store (body ::ₘ rest)) (cancelAt : Option CancelPoint)
    (valid : next.Valid g) (owed : next.owed g = body.owed g) :
    Counts g ⟨store.inDegrees, cancelAt⟩ ({next} + rest) where
  capacity := counts.capacity
  valid other member := by
    rcases Multiset.mem_add.mp member with new | old
    · obtain rfl := Multiset.mem_singleton.mp new
      exact valid
    · exact counts.valid other (Multiset.mem_cons_of_mem old)
  counters node h := by
    obtain ⟨counted, value, total⟩ := counts.counters node h
    refine ⟨counted, value, ?_⟩
    rw [load_cons, CountingPoint.owes, ← owed] at total
    rwa [load_add, load_singleton]

theorem Counts.step (wellFormed : g.WellFormed) {store : Counting} {body : CountingPoint}
    {rest bodies : Multiset CountingPoint} (counts : Counts g store (body ::ₘ rest))
    (goesOn : ((counting g).step store body).2.successors (counting g).start false = some bodies) :
    Counts g ((counting g).step store body).1 (bodies + rest) := by
  have valid := counts.valid body (Multiset.mem_cons_self body rest)
  obtain ⟨inDegrees, cancelAt⟩ := store
  cases body with
  | node partition node =>
      simp only [counting] at goesOn ⊢
      by_cases more : node < partition.stop
      · rw [if_pos more] at goesOn
        obtain rfl := Option.some.inj goesOn
        exact counts.pass cancelAt ⟨more, valid⟩ rfl
      · rw [if_neg more] at goesOn
        obtain rfl := Option.some.inj goesOn
        refine ⟨counts.capacity,
          fun other member => counts.valid other (Multiset.mem_cons_of_mem (by simpa using member)),
          fun node' h => ?_⟩
        obtain ⟨counted, value, total⟩ := counts.counters node' h
        rw [load_cons, CountingPoint.owes, CountingPoint.owed,
          Graph.targetsFrom_of_le (Nat.le_of_not_lt more),
          List.count_nil, Nat.zero_add] at total
        exact ⟨counted, value, by rwa [zero_add]⟩
  | stopped => cases goesOn
  | scan partition node =>
      simp only [counting] at goesOn ⊢
      obtain rfl := Action.bodies_of_arrival goesOn
      obtain ⟨more, inside⟩ := valid
      refine counts.pass _ ⟨wellFormed.rowStop_le (inside node (Nat.le_refl node) more),
        fun later less => inside later (Nat.le_of_lt less)⟩ ?_
      rw [CountingPoint.owed, CountingPoint.owed, Graph.targetsFrom_of_lt more]
      rfl
  | row partition node position stop =>
      simp only [counting] at goesOn ⊢
      obtain ⟨within, later⟩ := valid
      by_cases more : position < stop
      · rw [if_pos more] at goesOn ⊢
        obtain rfl := Option.some.inj goesOn
        have capacity : inDegrees.capacity = g.nodeCount := counts.capacity
        have target_lt := wellFormed.target_lt position (Nat.lt_of_lt_of_le more within)
        refine ⟨capacity, ?_, fun node' h => ?_⟩
        · intro other member
          rcases Multiset.mem_add.mp member with new | old
          · obtain rfl := Multiset.mem_singleton.mp new
            exact ⟨within, later⟩
          · exact counts.valid other (Multiset.mem_cons_of_mem old)
        · obtain ⟨counted, value, total⟩ := counts.counters node' h
          rw [load_cons, CountingPoint.owes, CountingPoint.owed, g.ahead_of_lt more,
            List.cons_append, List.count_cons] at total
          rw [load_add, load_singleton, CountingPoint.owes, CountingPoint.owed]
          by_cases here : g.target position = node'
          · subst here
            refine ⟨counted + 1, ?_, ?_⟩
            · show Cells.value (inDegrees.set _ _) _ = _
              rw [Cells.value_set_self _ _ (capacity ▸ h)]
              have value : inDegrees.value (g.target position) = Word.wrapSigned counted := value
              rw [value, Word.wrapSigned_wrapSigned_add]
              rfl
            · simp only [beq_self_eq_true, if_true] at total
              omega
          · refine ⟨counted, ?_, ?_⟩
            · show Cells.value (inDegrees.set _ _) _ = _
              rw [Cells.value_set_of_ne _ _ here]
              exact value
            · simp only [beq_iff_eq, here, if_false] at total
              omega
      · rw [if_neg more] at goesOn ⊢
        obtain rfl := Option.some.inj goesOn
        refine counts.pass cancelAt later ?_
        rw [CountingPoint.owed, CountingPoint.owed, g.ahead_of_le (Nat.le_of_not_lt more),
          List.nil_append]

theorem counts_start {partitions : List Partition}
    (cover : partitions.flatMap Partition.nodes = List.range g.nodeCount)
    (cancelAt : Option CancelPoint) :
    Counts g ⟨.replicate g.nodeCount 0, cancelAt⟩
      ((counting g).beginnings partitions) := by
  constructor
  case capacity => rfl
  case valid =>
    intro body member
    obtain ⟨partition, here, rfl⟩ := Work.mem_beginnings.mp member
    exact fun later le lt => Partition.lt_of_cover cover here le lt
  case counters =>
    intro node h
    refine ⟨0, Cells.value_replicate _ _ h, ?_⟩
    rw [Nat.zero_add, Graph.arrivals, ← cover, List.flatMap_assoc]
    refine load_beginnings _ (fun partition => partition.nodes.flatMap g.row) node ?_ partitions
    intro partition
    show (g.targetsFrom partition partition.start).count node = _
    rw [Graph.targetsFrom, partition.stop_sub_start]
    rfl

/-- After undisturbed counting every counter holds the relationships that arrive at its node. -/
theorem arrivals_of_runs (wellFormed : g.WellFormed) {partitions : List Partition}
    (cover : partitions.flatMap Partition.nodes = List.range g.nodeCount)
    {cancelAt : Option CancelPoint} {store : Counting}
    (runs : (counting g).Runs false (⟨.replicate g.nodeCount 0, cancelAt⟩,
      (counting g).beginnings partitions) (store, 0)) :
    store.inDegrees.capacity = g.nodeCount ∧ ∀ node < g.nodeCount,
      store.inDegrees.value node = Word.wrapSigned (g.arrivals node : Nat) := by
  have counts : Counts g store 0 := runs.invariant (Counts g)
    (fun _ _ _ _ counts goesOn => counts.step wellFormed goesOn) (counts_start cover cancelAt)
  refine ⟨counts.capacity, fun node h => ?_⟩
  obtain ⟨counted, value, total⟩ := counts.counters node h
  rw [load_zero, Nat.add_zero] at total
  rw [value, total]

/-! ### Gathering -/

/-- How often a node is among those that a gathering task has found or is going to find. -/
def GatheringPoint.finds (inDegrees : Cells) (node : Nat) : GatheringPoint → Nat
  | .node partition current found => found.count node +
      ((List.range' current (partition.stop - current)).filter
        (inDegrees.value · = 0)).count node

/-- What has been found and what will be found makes up the sources. -/
structure Gathers (inDegrees : Cells) (nodeCount : Nat) (store : Gathering)
    (bodies : Multiset GatheringPoint) : Prop where
  inDegrees_eq : store.inDegrees = inDegrees
  sources : ∀ node, store.sources.count node + load (GatheringPoint.finds inDegrees node) bodies =
    ((List.range nodeCount).filter (inDegrees.value · = 0)).count node

theorem Gathers.step {inDegrees : Cells} {nodeCount : Nat} {store : Gathering}
    {body : GatheringPoint} {rest bodies : Multiset GatheringPoint}
    (gathers : Gathers inDegrees nodeCount store (body ::ₘ rest))
    (goesOn : (gathering.step store body).2.successors gathering.start false = some bodies) :
    Gathers inDegrees nodeCount (gathering.step store body).1 (bodies + rest) := by
  obtain ⟨inDegrees', sources⟩ := store
  obtain ⟨same, total⟩ := gathers
  obtain rfl : inDegrees' = inDegrees := same
  obtain ⟨partition, node, found⟩ := body
  simp only [gathering] at goesOn ⊢
  by_cases more : node < partition.stop
  · rw [if_pos more] at goesOn ⊢
    obtain rfl := Option.some.inj goesOn
    refine ⟨rfl, fun other => ?_⟩
    have ahead : partition.stop - node = partition.stop - (node + 1) + 1 := by omega
    have total := total other
    rw [load_cons, GatheringPoint.finds, ahead, List.range'_succ] at total
    rw [load_add, load_singleton, GatheringPoint.finds]
    by_cases isSource : inDegrees'.value node = 0
    · rw [List.filter_cons_of_pos (by simpa using isSource), List.count_cons] at total
      rw [if_pos isSource, List.count_cons]
      simp only at total ⊢
      omega
    · rw [List.filter_cons_of_neg (by simpa using isSource)] at total
      rwa [if_neg isSource]
  · rw [if_neg more] at goesOn ⊢
    obtain rfl := Option.some.inj goesOn
    refine ⟨rfl, fun other => ?_⟩
    have total := total other
    rw [load_cons, GatheringPoint.finds, Nat.sub_eq_zero_of_le (Nat.le_of_not_lt more)] at total
    simp only [List.range'_zero, List.filter_nil, List.count_nil, Nat.add_zero] at total
    rw [List.count_append, List.count_reverse, zero_add]
    omega

/-- After undisturbed gathering the sources are the nodes with a counter of zero, in some order. -/
theorem sources_of_runs {nodeCount : Nat} {partitions : List Partition}
    (cover : partitions.flatMap Partition.nodes = List.range nodeCount) {inDegrees : Cells}
    {store : Gathering}
    (runs : gathering.Runs false ({ inDegrees }, gathering.beginnings partitions) (store, 0)) :
    store.inDegrees = inDegrees ∧
      store.sources.Perm ((List.range nodeCount).filter (inDegrees.value · = 0)) := by
  have initially : Gathers inDegrees nodeCount { inDegrees } (gathering.beginnings partitions) := by
    refine ⟨rfl, fun node => ?_⟩
    rw [← cover, List.filter_flatMap]
    refine (Nat.zero_add _).trans (load_beginnings _
      (fun partition => partition.nodes.filter (inDegrees.value · = 0)) node ?_ partitions)
    intro partition
    show [].count node + ((List.range' partition.start (partition.stop - partition.start)).filter
      _).count node = _
    rw [partition.stop_sub_start, List.count_nil, Nat.zero_add]
    rfl
  have gathers : Gathers inDegrees nodeCount store 0 :=
    runs.invariant (Gathers inDegrees nodeCount)
      (fun _ _ _ _ gathers goesOn => gathers.step goesOn) initially
  refine ⟨gathers.inDegrees_eq, List.perm_iff_count.mpr fun node => ?_⟩
  simpa using gathers.sources node

end TopologicalOrder

end GraphAnalytics
