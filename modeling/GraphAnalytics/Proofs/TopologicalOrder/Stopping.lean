/-
# How a sort stops

A sort either stops with a reason or sorts all that can be sorted. Only counting tasks ask whether
to go on and fail if they are told not to; gathering tasks do not ask, and traversing tasks leave
the rest of their row to a phase that fails for all of them together.
-/

import GraphAnalytics.Proofs.Schedule.Stopping
import GraphAnalytics.Proofs.TopologicalOrder.Distances
import GraphAnalytics.Proofs.TopologicalOrder.Ending

namespace GraphAnalytics.TopologicalOrder

open Progress

variable {g : Graph}

/-! ### Tasks that are told to stop -/

theorem counting_obedient : (counting g).Obedient (· = .stopped) where
  begins _ := by simp [counting]
  persists := by
    rintro ⟨inDegrees, cancelAt⟩ body goesOn
    cases body with
    | stopped => exact absurd rfl goesOn
    | node partition node =>
        simp only [counting]
        split
        · simp [Action.Persists]
        · exact ⟨_, rfl⟩
    | scan partition node =>
        simp only [counting]
        split <;> simp [Action.Persists]
    | row partition node position stop =>
        simp only [counting]
        split <;> simp [Action.Persists]
  fails := by
    rintro ⟨inDegrees, cancelAt⟩ body rfl
    rfl

theorem gathering_obedient : gathering.Obedient fun _ => False where
  begins _ := id
  persists := by
    rintro ⟨inDegrees, sources⟩ ⟨partition, node, found⟩ -
    simp only [gathering]
    split
    · exact id
    · exact ⟨0, rfl⟩
  fails _ _ never := never.elim

theorem traversal_sound (store : Traversal) (body : TraversalPoint) (fault : Fault) :
    ((traversal g).step store body).2 ≠ .finish (.error fault) := by
  intro fails
  have unsteady (steady : ((traversal g).step store body).2.successors (traversal g).start true =
      some (((traversal g).step store body).2.leavings (traversal g).start true true)) : False := by
    rw [fails] at steady
    cases steady
  cases body with
  | scan node =>
      obtain ⟨inDegrees, ⟨order, size, sorted, distances⟩, cancelAt⟩ := store
      simp only [traversal] at fails
      split at fails <;> cases fails
  | released => cases fails
  | _ => exact unsteady (traversal_steady store true (by simp) (by simp))

/-! ### The three phases -/

variable {π : Type} [Sink π]

/-- A sort stops only if it was cancelled or is cut into too many partitions. -/
theorem stop_of_compute {executor : Executor} (lawful : executor.Lawful)
    (diligent : executor.Diligent) (wellFormed : g.WellFormed)
    (fits : g.relationshipCount ≤ Word.top) {settings : SortSettings}
    (valid : settings.validate = .ok ()) {parts : List Partition}
    (cut : settings.partitions g = .ok parts) {cancelAt : Option CancelPoint}
    {context context' : Context π} {stop : Stop}
    (stopped : (compute executor g settings cancelAt).perform context = (.error stop, context')) :
    stop.Justified parts context'.raised := by
  have cover := Settings.flatMap_nodes_of_partitions cut
  unfold compute at stopped
  rw [valid, cut] at stopped
  rw [Run.perform_bind_of_ok (by rfl), Run.perform_bind_of_ok (by rfl),
    Run.perform_bind_of_ok (by rfl), Run.perform_bind_of_ok (by rfl),
    Run.perform_bind_of_ok (by rfl)] at stopped
  obtain stopped | ⟨counted, _, counting, stopped⟩ := Run.perform_bind_error.mp stopped
  · exact Phase.stop_of_run lawful diligent counting_obedient counting_descends trivial stopped
  rw [Run.perform_bind_of_ok (by rfl), Run.perform_bind_of_ok (by rfl)] at stopped
  obtain stopped | ⟨gathered, _, gathering, stopped⟩ := Run.perform_bind_error.mp stopped
  · exact Phase.stop_of_run lawful diligent gathering_obedient gathering_descends trivial stopped
  obtain stopped | ⟨_, _, -, stopped⟩ := Run.perform_bind_error.mp stopped
  · have kahn := kahn_of_phases lawful wellFormed cover counting gathering settings.longestPaths
    have upheld : Upheld g _ _ := ⟨[], 0, by rwa [add_zero]⟩
    obtain ⟨rfl, raised⟩ := ForkJoin.stop_of_run lawful diligent traversal_sound traversal_heedless
      (traversal_descends wellFormed fits) upheld stopped
    exact .terminated raised
  cases stopped

theorem compute_of_many (executor : Executor) {settings : SortSettings}
    (valid : settings.validate = .ok ()) {parts : List Partition}
    (cut : settings.partitions g = .ok parts) (many : maxNodeCount < parts.length)
    (cancelAt : Option CancelPoint) (context : Context π) :
    ((compute executor g settings cancelAt).perform context).1 =
      .error (.fault (.tooManyPartitions parts.length maxNodeCount)) := by
  unfold compute
  rw [valid, cut]
  rw [Run.perform_bind_of_ok (by rfl), Run.perform_bind_of_ok (by rfl),
    Run.perform_bind_of_ok (by rfl), Run.perform_bind_of_ok (by rfl),
    Run.perform_bind_of_ok (by rfl),
    Run.perform_bind_of_error (Phase.run_of_many executor _ many _ _)]

theorem compute_of_violation (executor : Executor) {settings : SortSettings}
    (valid : settings.validate = .ok ()) {broken : Violation}
    (uncut : settings.partitions g = .error broken) (cancelAt : Option CancelPoint)
    (context : Context π) :
    ((compute executor g settings cancelAt).perform context).1 = .error (.violation broken) := by
  unfold compute
  rw [valid, uncut]
  rfl

/-! ### Complete results -/

/-- Every node that is not behind a cycle is sorted, none of them twice and each behind its
predecessors, and the distances of the sorted nodes, if wanted, are those of the longest paths. -/
structure Complete (g : Graph) (longestPaths : Bool) (result : TopologicalOrder) : Prop where
  nodup : result.nodes.Nodup
  mem_iff : ∀ node, node ∈ result.nodes ↔ node < g.nodeCount ∧ ¬ g.BehindCycle node
  behind : ∀ place node source : Nat, result.nodes[place]? = some node → g.Edge source node →
    ∃ earlier < place, result.nodes[earlier]? = some source
  size_eq : result.size = result.nodes.length
  contains_eq : ∀ node < g.nodeCount, result.contains node = .ok (decide (node ∈ result.nodes))
  distance_eq : longestPaths = true → ∀ node ∈ result.nodes, ∃ length : Nat,
    result.longestDistance node = .ok (some (length : Int)) ∧ IsGreatest (g.pathLengths node) length
  distance_eq_none : ∀ node < g.nodeCount, longestPaths = false ∨ node ∉ result.nodes →
    result.longestDistance node = .ok none

structure Agrees (g : Graph) (result other : TopologicalOrder) : Prop where
  perm : result.nodes.Perm other.nodes
  size_eq : result.size = other.size
  contains_eq : ∀ node < g.nodeCount, result.contains node = other.contains node
  distance_eq : ∀ node < g.nodeCount, result.longestDistance node = other.longestDistance node

theorem Complete.agrees {longestPaths : Bool} {result other : TopologicalOrder}
    (complete : Complete g longestPaths result) (others : Complete g longestPaths other) :
    Agrees g result other := by
  have same (node : Nat) : node ∈ result.nodes ↔ node ∈ other.nodes :=
    (complete.mem_iff node).trans (others.mem_iff node).symm
  have perm := (List.perm_ext_iff_of_nodup complete.nodup others.nodup).mpr same
  refine ⟨perm, ?_, fun node h => ?_, fun node h => ?_⟩
  · rw [complete.size_eq, others.size_eq, perm.length_eq]
  · rw [complete.contains_eq node h, others.contains_eq node h]
    simp only [same]
  · by_cases told : longestPaths = true ∧ node ∈ result.nodes
    · obtain ⟨length, answer, greatest⟩ := complete.distance_eq told.1 node told.2
      obtain ⟨length', answer', greatest'⟩ := others.distance_eq told.1 node ((same node).mp told.2)
      rw [answer, answer', greatest.unique greatest']
    · have silent : longestPaths = false ∨ node ∉ result.nodes := by
        cases longestPaths with
        | false => exact .inl rfl
        | true => exact .inr fun member => told ⟨rfl, member⟩
      rw [complete.distance_eq_none node h silent,
        others.distance_eq_none node h (silent.imp_right (mt (same node).mpr))]

theorem complete_of_compute {executor : Executor} (lawful : executor.Lawful)
    (wellFormed : g.WellFormed) (fits : g.relationshipCount ≤ Word.top) {settings : SortSettings}
    {cancelAt : Option CancelPoint} {context context' : Context π} {result : TopologicalOrder}
    (ok : (compute executor g settings cancelAt).perform context = (.ok result, context')) :
    Complete g settings.longestPaths result := by
  have listed {lineup : List Nat} {store : Traversal} (kahn : Kahn g lineup store 0)
      (distance_eq : settings.longestPaths = true → ∀ node ∈ lineup, ∃ length : Nat,
        store.result.longestDistance node = .ok (some (length : Int)) ∧
          IsGreatest (g.pathLengths node) length)
      (distance_eq_none : ∀ node < g.nodeCount, settings.longestPaths = false ∨ node ∉ lineup →
        store.result.longestDistance node = .ok none) :
      Complete g settings.longestPaths store.result := by
    have sorts := kahn.sorts wellFormed fits
    constructor <;> rw [kahn.nodes_eq]
    case nodup => exact sorts.nodup
    case mem_iff => exact sorts.mem_iff wellFormed
    case behind => exact sorts.behind
    case size_eq => exact kahn.size
    case contains_eq => exact fun node h => kahn.contains_eq h
    case distance_eq => exact distance_eq
    case distance_eq_none => exact distance_eq_none
  cases wanted : settings.longestPaths with
  | false =>
      obtain ⟨lineup, store, kahn, rfl⟩ := kahn_of_compute lawful wellFormed fits ok
      have silent := distances_of_compute lawful wellFormed wanted ok
      rw [← wanted]
      refine listed kahn (fun told => ?_) fun node _ _ => ?_
      · rw [wanted] at told
        cases told
      · rw [longestDistance, silent]
  | true =>
      obtain ⟨lineup, store, distances, kahn, rfl, present, measured⟩ :=
        measured_of_compute lawful wellFormed fits wanted ok
      rw [← wanted]
      refine listed kahn (fun _ node member => ?_) fun node h silent => ?_
      · obtain ⟨length, value, greatest⟩ :=
          measured.isGreatest kahn (kahn.sorts wellFormed fits) member
        have inside := (kahn.freed_of_mem_lineup member).1
        refine ⟨length, ?_, greatest⟩
        rw [kahn.longestDistance_eq present measured.capacity inside, if_pos member, value]
      · have missing : node ∉ lineup := silent.resolve_left (by simp [wanted])
        rw [kahn.longestDistance_eq present measured.capacity h, if_neg missing]

end GraphAnalytics.TopologicalOrder
