/-
# Longest distances

The distance of a released node is final. A task raises the distance of a target before it takes its
relationship away, and as long as it has not, the relationship is pending and the target waits. So
nobody raises a released node any more, what a task read from its own node stays true, and once no
task is left every distance lies above those of all predecessors. A distance never exceeds the
length of some path to the node either, so it is the length of the longest.
-/

import GraphAnalytics.Proofs.TopologicalOrder.Sorted

namespace GraphAnalytics.TopologicalOrder

open Progress TraversalPoint

variable {g : Graph}

/-- The node whose task is at the point. A task that is through is that of no particular node. -/
def TraversalPoint.home : TraversalPoint → Nat
  | .claim current => current
  | .place current _ => current
  | .mark current => current
  | .scan current => current
  | .row current _ _ => current
  | .relax current _ _ => current
  | .raise current _ _ _ _ => current
  | .release current _ _ => current
  | .released current _ _ => current
  | .leave => 0

/-- The task has still to take a relationship from one node to the other away. -/
def TraversalPoint.Holds (g : Graph) (source target : Nat) (body : TraversalPoint) : Prop :=
  body.home = source ∧ target ∈ body.owed g

/-- What a task knows about distances: a candidate lies one above the distance of the task's node,
and before a relationship is taken away its target lies above. -/
def TraversalPoint.Timely (g : Graph) (distances : Cells) : TraversalPoint → Prop
  | .raise current _ _ candidate point => candidate = distances.value current + 1 ∧
      ∀ observed, point = .exchange observed → observed < candidate
  | .release current position _ =>
      distances.value current + 1 ≤ distances.value (g.target position)
  | _ => True

/-- Every distance is the length of some path to the node, and the distance of a released node lies
below those of its targets, except where a task has still to take the relationship away. -/
structure Measured (g : Graph) (distances inDegrees : Cells) (bodies : Multiset TraversalPoint) :
    Prop where
  capacity : distances.capacity = g.nodeCount
  reached : ∀ node < g.nodeCount, ∃ length ∈ g.pathLengths node,
    distances.value node = (length : Nat)
  relaxed : ∀ source target, Freed g inDegrees source → g.Edge source target →
    distances.value source + 1 ≤ distances.value target ∨
      ∃ body ∈ bodies, body.Holds g source target
  timely : ∀ body ∈ bodies, body.Timely g distances

namespace Measured

variable {distances inDegrees : Cells} {bodies rest : Multiset TraversalPoint}

theorem pass {body : TraversalPoint} (measured : Measured g distances inDegrees (body ::ₘ rest))
    (timely : ∀ next ∈ bodies, next.Timely g distances)
    (holds : ∀ source target, body.Holds g source target →
      ∃ next ∈ bodies, next.Holds g source target) :
    Measured g distances inDegrees (bodies + rest) where
  capacity := measured.capacity
  reached := measured.reached
  relaxed source target freed edge := by
    refine (measured.relaxed source target freed edge).imp_right ?_
    rintro ⟨other, member, held⟩
    rcases Multiset.mem_cons.mp member with rfl | old
    · obtain ⟨next, new, held⟩ := holds source target held
      exact ⟨next, Multiset.mem_add.mpr (.inl new), held⟩
    · exact ⟨other, Multiset.mem_add.mpr (.inr old), held⟩
  timely next member := by
    rcases Multiset.mem_add.mp member with new | old
    · exact timely next new
    · exact measured.timely next (Multiset.mem_cons_of_mem old)

theorem passOn {body next : TraversalPoint}
    (measured : Measured g distances inDegrees (body ::ₘ rest)) (timely : next.Timely g distances)
    (home : next.home = body.home) (owed : next.owed g = body.owed g) :
    Measured g distances inDegrees ({next} + rest) := by
  refine measured.pass (fun other member => ?_) fun source target held => ?_
  · obtain rfl := Multiset.mem_singleton.mp member
    exact timely
  · exact ⟨next, Multiset.mem_singleton_self next, home.trans held.1, owed ▸ held.2⟩

theorem drop {body : TraversalPoint} (measured : Measured g distances inDegrees (body ::ₘ rest))
    (timely : ∀ next ∈ bodies, next.Timely g distances) (owed : body.owed g = []) :
    Measured g distances inDegrees (bodies + rest) :=
  measured.pass timely fun source target held => by
    rw [Holds, owed] at held
    exact absurd held.2 List.not_mem_nil

/-- A waiting node is raised above the node of a task. Whoever is released keeps its distance. -/
theorem raise {current position stop : Nat} {candidate : Int} {point : Raising}
    (measured : Measured g distances inDegrees
      (.raise current position stop candidate point ::ₘ rest))
    (valid : ∀ body ∈ (TraversalPoint.raise current position stop candidate point ::ₘ rest),
      body.Valid g inDegrees)
    (target_lt : g.target position < g.nodeCount) (waits : inDegrees.value (g.target position) ≠ 0)
    (edge : g.Edge current (g.target position))
    (less : distances.value (g.target position) < candidate) :
    Measured g (distances.set (g.target position) candidate) inDegrees
      ({.release current position stop} + rest) := by
  have value_target : Cells.value (distances.set (g.target position) candidate)
      (g.target position) = candidate :=
    Cells.value_set_self _ _ (measured.capacity ▸ target_lt)
  have value_of_ne {node : Nat} (h : g.target position ≠ node) :
      Cells.value (distances.set (g.target position) candidate) node = distances.value node :=
    Cells.value_set_of_ne _ _ h
  have value_of_freed {node : Nat} (freed : Freed g inDegrees node) :
      Cells.value (distances.set (g.target position) candidate) node = distances.value node :=
    value_of_ne fun same => waits (same ▸ freed.2)
  have grows (node : Nat) : distances.value node ≤
      Cells.value (distances.set (g.target position) candidate) node := by
    by_cases same : g.target position = node
    · subst same
      rw [value_target]
      exact Int.le_of_lt less
    · rw [value_of_ne same]
  have freed : Freed g inDegrees current := (valid _ (Multiset.mem_cons_self _ rest)).1
  have above : candidate = distances.value current + 1 :=
    (measured.timely _ (Multiset.mem_cons_self _ rest)).1
  constructor
  case capacity => exact measured.capacity
  case reached =>
    intro node h
    by_cases same : g.target position = node
    · subst same
      obtain ⟨length, path, value⟩ := measured.reached current freed.1
      refine ⟨length + 1, Graph.succ_mem_pathLengths edge path, ?_⟩
      rw [value_target, above, value]
      rfl
    · rw [value_of_ne same]
      exact measured.reached node h
  case relaxed =>
    intro source target freed' edge'
    rw [value_of_freed freed']
    rcases measured.relaxed source target freed' edge' with below | ⟨body, member, held⟩
    · exact .inl (Int.le_trans below (grows target))
    · rcases Multiset.mem_cons.mp member with rfl | old
      · exact .inr ⟨_, Multiset.mem_add.mpr (.inl (Multiset.mem_singleton_self _)), held⟩
      · exact .inr ⟨body, Multiset.mem_add.mpr (.inr old), held⟩
  case timely =>
    intro body member
    rcases Multiset.mem_add.mp member with new | old
    · obtain rfl := Multiset.mem_singleton.mp new
      show Cells.value (distances.set (g.target position) candidate) current + 1 ≤ _
      rw [value_of_freed freed, value_target, above]
    · have timely := measured.timely body (Multiset.mem_cons_of_mem old)
      have home := valid body (Multiset.mem_cons_of_mem old)
      cases body with
      | raise current' position' stop' candidate' point' =>
          show _ = Cells.value (distances.set (g.target position) candidate) current' + 1 ∧ _
          rw [value_of_freed home.1]
          exact timely
      | release current' position' stop' =>
          show Cells.value (distances.set (g.target position) candidate) current' + 1 ≤ _
          rw [value_of_freed home.1]
          exact Int.le_trans timely (grows _)
      | _ => trivial

/-- Taking a relationship away may release its target, and then a task holds all relationships of
the target. -/
theorem release {current position stop : Nat}
    (measured : Measured g distances inDegrees (.release current position stop ::ₘ rest))
    (degrees : Degrees g inDegrees (.release current position stop ::ₘ rest))
    (wellFormed : g.WellFormed) (fits : g.relationshipCount ≤ Word.top) :
    Measured g distances (Degrees.lowered g inDegrees position)
      (Degrees.followers g inDegrees current position stop + rest) := by
  obtain ⟨-, -, -, lt⟩ := degrees.valid _ (Multiset.mem_cons_self _ rest)
  have goesOn : TraversalPoint.released current position stop ∈
      Degrees.followers g inDegrees current position stop := by
    unfold Degrees.followers
    split <;> simp
  refine ⟨measured.capacity, measured.reached, ?_, ?_⟩
  · intro source target freed edge
    by_cases same : g.target position = source ∧ inDegrees.value source ≠ 0
    · obtain ⟨rfl, -⟩ := same
      have last := (degrees.value_lowered_eq_zero_iff wellFormed fits).mp freed.2
      refine .inr ⟨.claim (g.target position), Multiset.mem_add.mpr (.inl ?_), rfl, edge⟩
      rw [Degrees.followers, if_pos last]
      simp
    · have was : Freed g inDegrees source := by
        refine ⟨freed.1, ?_⟩
        by_cases target : g.target position = source
        · exact Classical.not_not.mp fun waits => same ⟨target, waits⟩
        · rw [← Degrees.value_lowered_of_ne target]
          exact freed.2
      rcases measured.relaxed source target was edge with below | ⟨body, member, held⟩
      · exact .inl below
      · rcases Multiset.mem_cons.mp member with rfl | old
        · obtain ⟨rfl, ahead⟩ := held
          rw [owed, g.ahead_of_lt lt] at ahead
          rcases List.mem_cons.mp ahead with rfl | later
          · exact .inl (measured.timely _ (Multiset.mem_cons_self _ rest))
          · exact .inr ⟨_, Multiset.mem_add.mpr (.inl goesOn), rfl, later⟩
        · exact .inr ⟨body, Multiset.mem_add.mpr (.inr old), held⟩
  · intro body member
    rcases Multiset.mem_add.mp member with new | old
    · unfold Degrees.followers at new
      split at new
      · rcases Multiset.mem_cons.mp new with rfl | claim
        · trivial
        · obtain rfl := Multiset.mem_singleton.mp claim
          trivial
      · obtain rfl := Multiset.mem_singleton.mp new
        trivial
    · exact measured.timely body (Multiset.mem_cons_of_mem old)

/-! ### Single steps -/

section Raising

variable {current position stop : Nat} {candidate : Int} {point : Raising}

/-- Where a task goes after an access to the distance of a target. -/
def onward (current position stop : Nat) (candidate : Int) : Turn Raising Bool → TraversalPoint
  | .more point => .raise current position stop candidate point
  | .done _ => .release current position stop

/-- A task that has seen the distance of a target tries to raise it if it is too small, and else
goes on. -/
theorem decided
    (measured : Measured g distances inDegrees
      (.raise current position stop candidate point ::ₘ rest)) :
    Measured g distances inDegrees
      ({onward current position stop candidate
        (Cells.decideRaise candidate (distances.value (g.target position)))} + rest) := by
  have above : candidate = distances.value current + 1 :=
    (measured.timely _ (Multiset.mem_cons_self _ rest)).1
  unfold Cells.decideRaise
  split
  · next less =>
      refine measured.passOn ⟨above, fun observed same => ?_⟩ rfl rfl
      obtain rfl := Raising.exchange.inj same
      exact less
  · next enough =>
      refine measured.passOn ?_ rfl rfl
      show distances.value current + 1 ≤ distances.value (g.target position)
      rw [← above]
      exact Int.not_lt.mp enough

theorem access
    (degrees : Degrees g inDegrees (.raise current position stop candidate point ::ₘ rest))
    (wellFormed : g.WellFormed) (fits : g.relationshipCount ≤ Word.top)
    (measured : Measured g distances inDegrees
      (.raise current position stop candidate point ::ₘ rest)) :
    Measured g ((Cells.raising (g.target position) candidate).step () distances point).1 inDegrees
      ({onward current position stop candidate
        ((Cells.raising (g.target position) candidate).step () distances point).2} + rest) := by
  obtain ⟨freed, le, rfl, lt⟩ := degrees.valid _ (Multiset.mem_cons_self _ rest)
  have edge : g.Edge current (g.target position) := Graph.edge_of_position le lt
  have target_lt := wellFormed.edge_target_lt edge
  have waits : inDegrees.value (g.target position) ≠ 0 := by
    refine degrees.waits_of_owed wellFormed fits target_lt (Multiset.mem_cons_self _ rest) ?_
    rw [owed, g.ahead_of_lt lt]
    exact List.mem_cons_self
  cases point with
  | observe => exact measured.decided
  | exchange observed =>
      have less : observed < candidate :=
        (measured.timely _ (Multiset.mem_cons_self _ rest)).2 observed rfl
      simp only [Cells.raising, Cells.compareExchange]
      split
      · next unchanged =>
          exact measured.raise degrees.valid target_lt waits edge (unchanged ▸ less)
      · exact measured.decided

end Raising

/-- What a task does next keeps the distances measured, whoever's turn it is. -/
theorem step {store : Traversal} {body : TraversalPoint} (wellFormed : g.WellFormed)
    (fits : g.relationshipCount ≤ Word.top) (degrees : Degrees g store.inDegrees (body ::ₘ rest))
    (wanted : store.result.distances = some distances)
    (measured : Measured g distances store.inDegrees (body ::ₘ rest))
    (goesOn : ((traversal g).step store body).2.successors (traversal g).start true = some bodies) :
    ∃ after, ((traversal g).step store body).1.result.distances = some after ∧
      Measured g after ((traversal g).step store body).1.inDegrees (bodies + rest) := by
  obtain ⟨inDegrees, ⟨order, size, sorted, _⟩, cancelAt⟩ := store
  obtain rfl : _ = some distances := wanted
  cases body with
  | claim | place | mark =>
      obtain rfl := Option.some.inj goesOn
      exact ⟨distances, rfl, measured.passOn trivial rfl rfl⟩
  | scan node =>
      obtain rfl := Action.bodies_of_arrival goesOn
      exact ⟨distances, rfl, measured.passOn trivial rfl rfl⟩
  | row node position stop =>
      by_cases more : position < stop
      · simp only [traversal, if_pos more, Option.isSome_some] at goesOn
        obtain rfl := Option.some.inj goesOn
        exact ⟨distances, rfl, measured.passOn trivial rfl rfl⟩
      · simp only [traversal, if_neg more] at goesOn
        obtain rfl := Option.some.inj goesOn
        refine ⟨distances, rfl, measured.drop (fun next member => ?_) ?_⟩
        · obtain rfl := Multiset.mem_singleton.mp member
          trivial
        · exact g.ahead_of_le (Nat.le_of_not_lt more)
  | relax node position stop =>
      obtain rfl := Option.some.inj goesOn
      refine ⟨distances, rfl, measured.passOn ⟨rfl, fun observed same => ?_⟩ rfl rfl⟩
      cases same
  | raise node position stop candidate point =>
      have accessed := measured.access degrees wellFormed fits
      simp only [traversal] at goesOn ⊢
      rcases raised : (Cells.raising (g.target position) candidate).step () distances point with
        ⟨after, next | answer⟩
      · rw [raised] at goesOn accessed
        obtain rfl := Option.some.inj goesOn
        exact ⟨after, rfl, accessed⟩
      · rw [raised] at goesOn accessed
        obtain rfl := Option.some.inj goesOn
        exact ⟨after, rfl, accessed⟩
  | release node position stop =>
      obtain rfl := Degrees.followers_of_successors goesOn
      exact ⟨distances, rfl, measured.release degrees wellFormed fits⟩
  | released node position stop =>
      obtain rfl := Option.some.inj goesOn
      exact ⟨distances, rfl, measured.passOn trivial rfl rfl⟩
  | leave =>
      obtain rfl := Option.some.inj goesOn
      exact ⟨distances, rfl, measured.drop
        (fun next member => absurd member (Multiset.notMem_zero next)) rfl⟩

/-! ### The beginning and the end of the traversal -/

/-- Before the traversal all distances are zero, and the tasks of the released nodes hold all of
their relationships. -/
theorem start {store : Traversal} {seeds : List Nat}
    (kahn : Kahn g [] store ((traversal g).beginnings seeds)) :
    Measured g (.replicate g.nodeCount 0) store.inDegrees ((traversal g).beginnings seeds) where
  capacity := rfl
  reached node h := ⟨0, Graph.zero_mem_pathLengths node, Cells.value_replicate g.nodeCount 0 h⟩
  relaxed source target freed edge := by
    have accounted := kahn.accounted source
    rw [if_pos ⟨freed.1, freed.2⟩, List.count_nil, Nat.zero_add] at accounted
    obtain ⟨body, member, claimed⟩ := exists_of_load_ne_zero (by rw [accounted]; decide)
    obtain rfl := eq_claim_of_claims claimed
    exact .inr ⟨_, member, rfl, edge⟩
  timely body member := by
    obtain ⟨node, -, rfl⟩ := Work.mem_beginnings.mp member
    trivial

/-- When no task is left the distance of a listed node is the length of the longest path to it. -/
theorem isGreatest {lineup : List Nat} {store : Traversal}
    (measured : Measured g distances store.inDegrees 0) (kahn : Kahn g lineup store 0)
    (sorts : g.Sorts lineup) {node : Nat} (member : node ∈ lineup) :
    ∃ length : Nat, distances.value node = length ∧ IsGreatest (g.pathLengths node) length := by
  have reached : ∀ node ∈ lineup, (distances.value node).toNat ∈ g.pathLengths node := by
    intro node member
    obtain ⟨length, path, value⟩ := measured.reached node (kahn.freed_of_mem_lineup member).1
    rwa [value, Int.toNat_natCast]
  have rises : ∀ source ∈ lineup, ∀ target, g.Edge source target →
      (distances.value source).toNat + 1 ≤ (distances.value target).toNat := by
    intro source member target edge
    have freed := kahn.freed_of_mem_lineup member
    obtain ⟨length, -, value⟩ := measured.reached source freed.1
    rcases measured.relaxed source target freed edge with below | ⟨body, left, -⟩
    · omega
    · exact absurd left (Multiset.notMem_zero body)
  obtain ⟨length, -, value⟩ := measured.reached node (kahn.freed_of_mem_lineup member).1
  refine ⟨length, value, ?_⟩
  have greatest := sorts.isGreatest_rank (fun node => (distances.value node).toNat)
    reached rises member
  rwa [value, Int.toNat_natCast] at greatest

end Measured

/-- When no task is left the distance of a node is told exactly if the node is listed. -/
theorem Kahn.longestDistance_eq {lineup : List Nat} {store : Traversal} {distances : Cells}
    (kahn : Kahn g lineup store 0) (present : store.result.distances = some distances)
    (capacity : distances.capacity = g.nodeCount) {node : Nat} (h : node < g.nodeCount) :
    store.result.longestDistance node =
      .ok (if node ∈ lineup then some (distances.value node) else none) := by
  rw [longestDistance, present, kahn.contains_eq h]
  by_cases member : node ∈ lineup
  · rw [if_pos member, decide_eq_true member]
    show distances.read Violation.indexOutOfBounds node >>= (fun length => .ok (some length)) = _
    rw [distances.read_of_lt _ (capacity ▸ h)]
    rfl
  · rw [if_neg member, decide_eq_false member]
    rfl

/-! ### The sort -/

variable {π : Type} [Sink π] {executor : Executor} {settings : SortSettings}
  {cancelAt : Option CancelPoint} {context context' : Context π} {result : TopologicalOrder}

/-- At the end of a sort that succeeds the distances are measured if they are wanted. -/
theorem measured_of_compute (lawful : executor.Lawful) (wellFormed : g.WellFormed)
    (fits : g.relationshipCount ≤ Word.top) (wanted : settings.longestPaths = true)
    (ok : (compute executor g settings cancelAt).perform context = (.ok result, context')) :
    ∃ lineup store distances, Kahn g lineup store 0 ∧ store.result = result ∧
      store.result.distances = some distances ∧ Measured g distances store.inDegrees 0 := by
  obtain ⟨start, store, seeds, kahn, empty, runs, same⟩ :=
    traversal_of_compute lawful wellFormed ok
  have initially : start.result.distances = some (.replicate g.nodeCount 0) := by
    rw [empty, wanted]
    rfl
  have lastly : ∃ lineup distances, Kahn g lineup store 0 ∧
      store.result.distances = some distances ∧ Measured g distances store.inDegrees 0 := by
    refine runs.invariant (fun store bodies => ∃ lineup distances, Kahn g lineup store bodies ∧
      store.result.distances = some distances ∧ Measured g distances store.inDegrees bodies)
      ?_ ⟨[], _, kahn, initially, .start kahn⟩
    rintro store body rest bodies ⟨_, _, kahn, present, measured⟩ goesOn
    obtain ⟨lineup, kahn'⟩ := kahn.step wellFormed fits goesOn
    obtain ⟨after, still, measured'⟩ := measured.step wellFormed fits kahn.degrees present goesOn
    exact ⟨lineup, after, kahn', still, measured'⟩
  obtain ⟨lineup, distances, kahn, present, measured⟩ := lastly
  exact ⟨lineup, store, distances, kahn, same, present, measured⟩

theorem distances_step {store : Traversal} (body : TraversalPoint)
    (unwanted : store.result.distances = none) :
    ((traversal g).step store body).1.result.distances = none := by
  obtain ⟨inDegrees, ⟨order, size, sorted, _⟩, cancelAt⟩ := store
  obtain rfl : _ = none := unwanted
  cases body <;> rfl

/-- At the end of a sort that succeeds there are no distances unless they are wanted. -/
theorem distances_of_compute (lawful : executor.Lawful) (wellFormed : g.WellFormed)
    (unwanted : settings.longestPaths = false)
    (ok : (compute executor g settings cancelAt).perform context = (.ok result, context')) :
    result.distances = none := by
  obtain ⟨start, store, seeds, -, empty, runs, rfl⟩ := traversal_of_compute lawful wellFormed ok
  refine runs.invariant (fun store _ => store.result.distances = none)
    (fun _ body _ _ none _ => distances_step body none) ?_
  rw [empty, unwanted]
  rfl

/-- A sort that succeeds tells for each sorted node the length of the longest path to it if
distances are wanted, and no distance of any other node. A path to a sorted node repeats no node, so
it does not matter whether paths may. -/
theorem compute_distances (lawful : executor.Lawful) (built : g.Built)
    (fits : g.relationshipCount ≤ Word.top)
    (ok : (compute executor g settings cancelAt).perform context = (.ok result, context')) :
    (settings.longestPaths = true →
      (∀ node ∈ result.nodes, (∀ path, g.PathTo node path → path.Nodup) ∧
        ∃ length : Nat, result.longestDistance node = .ok (some (length : Int)) ∧
          IsGreatest (g.pathLengths node) length) ∧
      ∀ node < g.nodeCount, g.BehindCycle node → result.longestDistance node = .ok none) ∧
    (settings.longestPaths = false → ∀ node, result.longestDistance node = .ok none) := by
  have wellFormed := built.wellFormed
  constructor
  · intro wanted
    obtain ⟨lineup, store, distances, kahn, rfl, present, measured⟩ :=
      measured_of_compute lawful wellFormed fits wanted ok
    have sorts := kahn.sorts wellFormed fits
    rw [kahn.nodes_eq]
    constructor
    · intro node member
      obtain ⟨length, value, greatest⟩ := measured.isGreatest kahn sorts member
      have inside := (kahn.freed_of_mem_lineup member).1
      refine ⟨fun path => sorts.nodup_of_pathTo member, length, ?_, greatest⟩
      rw [kahn.longestDistance_eq present measured.capacity inside, if_pos member, value]
    · intro node inside cycle
      have missing : node ∉ lineup := fun member =>
        ((sorts.mem_iff wellFormed node).mp member).2 cycle
      rw [kahn.longestDistance_eq present measured.capacity inside, if_neg missing]
  · intro unwanted node
    rw [longestDistance, distances_of_compute lawful wellFormed unwanted ok]

/-- In the sample the longest path to node `2` leads through node `1`. Without the setting there is
no distance. -/
theorem compute_distances_sample :
    Graph.sample.relationshipCount ≤ Word.top ∧
    (∃ (result : TopologicalOrder) (context : Context Silent),
      (compute (.singleWorker 400) Graph.sample
        { concurrency := 2, minBatch := 2, longestPaths := true } none).perform
          { sink := Silent.silent } = (.ok result, context) ∧
      result.longestDistance 2 = .ok (some 2) ∧ IsGreatest (Graph.sample.pathLengths 2) 2) ∧
    ∃ (result : TopologicalOrder) (context : Context Silent),
      (compute (.singleWorker 400) Graph.sample { concurrency := 2, minBatch := 2 } none).perform
        { sink := Silent.silent } = (.ok result, context) ∧
      ∀ node, result.longestDistance node = .ok none := by
  have fits : Graph.sample.relationshipCount ≤ Word.top := by decide
  have lawful := Executor.singleWorker_lawful 400
  refine ⟨fits, ?_, ?_⟩
  · have measured : ((compute (.singleWorker 400) Graph.sample
        { concurrency := 2, minBatch := 2, longestPaths := true } none).perform
        ({ sink := .silent } : Context Silent)).1.map
          (fun result => (result.nodes, result.longestDistance 2)) =
            .ok ([0, 1, 2], .ok (some 2)) := by
      decide +kernel
    obtain ⟨result, context, ok, both⟩ := Run.exists_of_map_perform measured
    obtain ⟨listed, distance⟩ := Prod.mk.inj both
    have member : 2 ∈ result.nodes := by rw [listed]; decide
    obtain ⟨-, length, answer, greatest⟩ :=
      ((compute_distances lawful Graph.built_sample fits ok).1 rfl).1 2 member
    rw [answer] at distance
    obtain rfl : length = 2 := Int.ofNat.inj (Option.some.inj (Except.ok.inj distance))
    exact ⟨result, context, ok, answer, greatest⟩
  · obtain ⟨result, context, ok, -⟩ := exists_compute_sample
    exact ⟨result, context, ok, (compute_distances lawful Graph.built_sample fits ok).2 rfl⟩

end GraphAnalytics.TopologicalOrder
