/-
# The traversal

The nodes that tasks have claimed form a lineup, in the order in which the slots were given out. The
lineup is no part of the program: it is what the order will be once every task has written its node.
`Kahn` says how the store, the tasks and the lineup belong together at every moment.

A node enters the lineup behind all of its predecessors, and only when all of them are in it: a
predecessor that still waits, or is about to claim its slot, would have the relationship pending,
and nothing is pending at a node that has been released.
-/

import GraphAnalytics.Proofs.BitSet
import GraphAnalytics.Proofs.Graph.Cycles
import GraphAnalytics.Proofs.TopologicalOrder.Pending

namespace GraphAnalytics.TopologicalOrder

open TraversalPoint Degrees

variable {g : Graph}

/-- How the store, the tasks and the lineup of claimed nodes belong together. -/
structure Kahn (g : Graph) (lineup : List Nat) (store : Traversal)
    (bodies : Multiset TraversalPoint) : Prop where
  degrees : Degrees g store.inDegrees bodies
  slots : store.result.order.capacity = g.nodeCount
  bits : store.result.sorted.bits = g.nodeCount
  size : store.result.size = lineup.length
  accounted : ∀ node, lineup.count node + load (claims node) bodies =
    if node < g.nodeCount ∧ store.inDegrees.value node = 0 then 1 else 0
  marked : ∀ node, (if store.result.sorted.test node then 1 else 0) + load (unmarked node) bodies =
    lineup.count node
  behind : ∀ place node source : Nat, lineup[place]? = some node → g.Edge source node →
    ∃ earlier < place, lineup[earlier]? = some source
  written : ∀ slot node : Nat, lineup[slot]? = some node →
    store.result.order.value slot = node ∨ TraversalPoint.place node slot ∈ bodies
  placing : ∀ node slot : Nat, TraversalPoint.place node slot ∈ bodies → lineup[slot]? = some node

namespace Kahn

variable {lineup : List Nat} {store : Traversal} {bodies : Multiset TraversalPoint}

theorem freed_of_mem_lineup (kahn : Kahn g lineup store bodies) {node : Nat}
    (member : node ∈ lineup) :
    Freed g store.inDegrees node := by
  have count := List.count_pos_iff.mpr member
  have accounted := kahn.accounted node
  split at accounted
  · next freed => exact freed
  · omega

theorem freed_of_claims (kahn : Kahn g lineup store bodies) {node : Nat}
    (member : TraversalPoint.claim node ∈ bodies) : Freed g store.inDegrees node := by
  have share : claims node (.claim node) ≤ load (claims node) bodies := le_load member
  have accounted := kahn.accounted node
  rw [claims, if_pos rfl] at share
  split at accounted
  · next freed => exact freed
  · omega

theorem nodup (kahn : Kahn g lineup store bodies) : lineup.Nodup := by
  refine List.nodup_iff_count_le_one.mpr fun node => ?_
  have accounted := kahn.accounted node
  split at accounted <;> omega

theorem length_le (kahn : Kahn g lineup store bodies) : lineup.length ≤ g.nodeCount := by
  have within : lineup ⊆ List.range g.nodeCount := fun node member =>
    List.mem_range.mpr (kahn.freed_of_mem_lineup member).1
  have shorter := (kahn.nodup.subperm within).length_le
  rwa [List.length_range] at shorter

theorem mem_lineup_of_edge (kahn : Kahn g lineup store bodies) (wellFormed : g.WellFormed)
    (fits : g.relationshipCount ≤ Word.top) {node source : Nat}
    (freed : Freed g store.inDegrees node) (edge : g.Edge source node) : source ∈ lineup := by
  have none := (kahn.degrees.pending_eq_zero_iff wellFormed fits freed.1).mpr freed.2
  have freedSource := freed_of_pending_eq_zero wellFormed none edge
  have accounted := kahn.accounted source
  rw [if_pos ⟨freedSource.1, freedSource.2⟩] at accounted
  -- A task that was about to claim the predecessor would still owe the relationship.
  have unclaimed : load (claims source) bodies = 0 := by
    refine load_eq_zero fun body member => Classical.byContradiction fun claimed => ?_
    obtain rfl := eq_claim_of_claims claimed
    exact notMem_owed_of_pending_eq_zero none member edge
  exact List.count_pos_iff.mp (by omega)

/-! ### Single steps -/

variable {inDegrees order : Cells} {size : Nat} {sorted : BitSet} {distances : Option Cells}
  {cancelAt : Option CancelPoint} {rest : Multiset TraversalPoint}

theorem pass {body : TraversalPoint}
    (kahn : Kahn g lineup ⟨inDegrees, ⟨order, size, sorted, distances⟩, cancelAt⟩ (body ::ₘ rest))
    (distances' : Option Cells) (cancelAt' : Option CancelPoint) (before : body.settled = true)
    (after : ∀ next ∈ bodies, next.settled = true ∧ next.Valid g inDegrees)
    (owed : ∀ node, load (owes g node) bodies = owes g node body) :
    Kahn g lineup ⟨inDegrees, ⟨order, size, sorted, distances'⟩, cancelAt'⟩ (bodies + rest) := by
  have claimed (node : Nat) : load (claims node) (bodies + rest) =
      load (claims node) (body ::ₘ rest) := by
    rw [load_add, load_cons, claims_of_settled before,
      load_eq_zero fun next member => claims_of_settled (after next member).1 node]
  have unmarked_eq (node : Nat) : load (unmarked node) (bodies + rest) =
      load (unmarked node) (body ::ₘ rest) := by
    rw [load_add, load_cons, unmarked_of_settled before,
      load_eq_zero fun next member => unmarked_of_settled (after next member).1 node]
  have placed {node slot : Nat} : TraversalPoint.place node slot ∈ bodies + rest ↔
      TraversalPoint.place node slot ∈ body ::ₘ rest := by
    rw [Multiset.mem_add, Multiset.mem_cons]
    refine or_congr_left ⟨fun member => ?_, fun same => ?_⟩
    · cases (after _ member).1
    · subst same
      cases before
  refine { kahn with
    degrees := kahn.degrees.pass (fun next member => (after next member).2) owed
    accounted := ?accounted, marked := ?marked, written := ?written, placing := ?placing }
  case accounted =>
    intro node
    rw [claimed]
    exact kahn.accounted node
  case marked =>
    intro node
    rw [unmarked_eq]
    exact kahn.marked node
  case written =>
    intro slot node here
    rw [placed]
    exact kahn.written slot node here
  case placing =>
    intro node slot member
    exact kahn.placing node slot (placed.mp member)

/-- A released node enters the lineup behind its predecessors. -/
theorem claim {node : Nat} (wellFormed : g.WellFormed) (fits : g.relationshipCount ≤ Word.top)
    (kahn : Kahn g lineup ⟨inDegrees, ⟨order, size, sorted, distances⟩, cancelAt⟩
      (.claim node ::ₘ rest)) :
    Kahn g (lineup ++ [node]) ⟨inDegrees, ⟨order, size + 1, sorted, distances⟩, cancelAt⟩
      ({.place node size} + rest) := by
  have sized : size = lineup.length := kahn.size
  have freed : Freed g inDegrees node := kahn.freed_of_claims (Multiset.mem_cons_self _ rest)
  refine { kahn with
    degrees := kahn.degrees.single trivial rfl
    size := ?size, accounted := ?accounted, marked := ?marked, behind := ?behind
    written := ?written, placing := ?placing }
  case size => rw [List.length_append, ← sized, List.length_singleton]
  case accounted =>
    intro other
    have accounted := kahn.accounted other
    rw [load_cons] at accounted
    rw [load_add, load_singleton, List.count_append, List.count_singleton]
    simp only [claims, beq_iff_eq] at accounted ⊢
    omega
  case marked =>
    intro other
    have marked := kahn.marked other
    rw [load_cons] at marked
    rw [load_add, load_singleton, List.count_append, List.count_singleton]
    simp only [unmarked, beq_iff_eq] at marked ⊢
    omega
  case behind =>
    intro place other source here edge
    have inside : place < lineup.length + 1 := by
      have := (List.getElem?_eq_some_iff.mp here).1
      rwa [List.length_append] at this
    by_cases last : place = lineup.length
    · subst last
      obtain rfl : node = other := by simpa using here
      obtain ⟨earlier, there⟩ := List.mem_iff_getElem?.mp
        (kahn.mem_lineup_of_edge wellFormed fits freed edge)
      have less := (List.getElem?_eq_some_iff.mp there).1
      exact ⟨earlier, less, by rwa [List.getElem?_append_left less]⟩
    · have old : place < lineup.length := by omega
      rw [List.getElem?_append_left old] at here
      obtain ⟨earlier, less, there⟩ := kahn.behind place other source here edge
      exact ⟨earlier, less, by rwa [List.getElem?_append_left (Nat.lt_trans less old)]⟩
  case written =>
    intro slot other here
    have inside : slot < lineup.length + 1 := by
      have := (List.getElem?_eq_some_iff.mp here).1
      rwa [List.length_append] at this
    by_cases last : slot = lineup.length
    · subst last
      obtain rfl : node = other := by simpa using here
      refine .inr (Multiset.mem_add.mpr (.inl ?_))
      rw [sized]
      exact Multiset.mem_singleton_self _
    · rw [List.getElem?_append_left (by omega)] at here
      refine (kahn.written slot other here).imp_right fun member => Multiset.mem_add.mpr (.inr ?_)
      rcases Multiset.mem_cons.mp member with same | old
      · cases same
      · exact old
  case placing =>
    intro other slot member
    rcases Multiset.mem_add.mp member with new | old
    · obtain ⟨rfl, rfl⟩ := TraversalPoint.place.inj (Multiset.mem_singleton.mp new)
      rw [sized, List.getElem?_append_right (Nat.le_refl _), Nat.sub_self]
      rfl
    · have here := kahn.placing other slot (Multiset.mem_cons_of_mem old)
      rwa [List.getElem?_append_left (List.getElem?_eq_some_iff.mp here).1]

theorem place {node slot : Nat}
    (kahn : Kahn g lineup ⟨inDegrees, ⟨order, size, sorted, distances⟩, cancelAt⟩
      (.place node slot ::ₘ rest)) :
    Kahn g lineup ⟨inDegrees, ⟨order.set slot (node : Int), size, sorted, distances⟩, cancelAt⟩
      ({.mark node} + rest) := by
  have here : lineup[slot]? = some node := kahn.placing node slot (Multiset.mem_cons_self _ rest)
  refine { kahn with
    degrees := kahn.degrees.single trivial rfl
    accounted := ?accounted, marked := ?marked, written := ?written, placing := ?placing }
  case accounted =>
    intro other
    have accounted := kahn.accounted other
    rw [load_cons] at accounted
    rwa [load_add, load_singleton]
  case marked =>
    intro other
    have marked := kahn.marked other
    rw [load_cons] at marked
    rwa [load_add, load_singleton]
  case written =>
    intro slot' other there
    show Cells.value (order.set slot (node : Int)) slot' = other ∨ _
    by_cases same : slot = slot'
    · subst same
      obtain rfl : node = other := Option.some.inj (here.symm.trans there)
      have room : slot < order.capacity := by
        rw [kahn.slots]
        exact Nat.lt_of_lt_of_le (List.getElem?_eq_some_iff.mp here).1 kahn.length_le
      exact .inl (Cells.value_set_self order _ room)
    · rw [Cells.value_set_of_ne order _ same]
      refine (kahn.written slot' other there).imp_right fun member => ?_
      rcases Multiset.mem_cons.mp member with this | old
      · exact absurd (TraversalPoint.place.inj this).2.symm same
      · exact Multiset.mem_add.mpr (.inr old)
  case placing =>
    intro other slot' member
    rcases Multiset.mem_add.mp member with new | old
    · cases Multiset.mem_singleton.mp new
    · exact kahn.placing other slot' (Multiset.mem_cons_of_mem old)

theorem mark {node : Nat}
    (kahn : Kahn g lineup ⟨inDegrees, ⟨order, size, sorted, distances⟩, cancelAt⟩
      (.mark node ::ₘ rest)) :
    Kahn g lineup ⟨inDegrees, ⟨order, size, sorted.insert node, distances⟩, cancelAt⟩
      ({.scan node} + rest) := by
  have marked := kahn.marked node
  rw [load_cons, unmarked, if_pos rfl] at marked
  have once := List.nodup_iff_count_le_one.mp kahn.nodup node
  have freed : Freed g inDegrees node := kahn.freed_of_mem_lineup (List.count_pos_iff.mp (by omega))
  have room : node < sorted.bits := by
    rw [kahn.bits]
    exact freed.1
  refine { kahn with
    degrees := kahn.degrees.single freed rfl
    accounted := ?accounted, marked := ?marked, written := ?written, placing := ?placing }
  case accounted =>
    intro other
    have accounted := kahn.accounted other
    rw [load_cons] at accounted
    rwa [load_add, load_singleton]
  case marked =>
    intro other
    have before := kahn.marked other
    rw [load_cons] at before
    rw [load_add, load_singleton, sorted.test_insert room]
    by_cases same : node = other
    · subst same
      simp only [unmarked, if_pos, decide_true, Bool.true_or] at before ⊢
      omega
    · simpa only [unmarked, same, if_false, decide_false, Bool.false_or] using before
  case written =>
    intro slot other here
    refine (kahn.written slot other here).imp_right fun member => ?_
    rcases Multiset.mem_cons.mp member with this | old
    · cases this
    · exact Multiset.mem_add.mpr (.inr old)
  case placing =>
    intro other slot member
    rcases Multiset.mem_add.mp member with new | old
    · cases Multiset.mem_singleton.mp new
    · exact kahn.placing other slot (Multiset.mem_cons_of_mem old)

/-- A relationship is taken away, and the task of a target that it released will claim the target.
-/
theorem release {current position stop : Nat} (wellFormed : g.WellFormed)
    (fits : g.relationshipCount ≤ Word.top)
    (kahn : Kahn g lineup ⟨inDegrees, ⟨order, size, sorted, distances⟩, cancelAt⟩
      (.release current position stop ::ₘ rest)) :
    Kahn g lineup ⟨lowered g inDegrees position, ⟨order, size, sorted, distances⟩, cancelAt⟩
      (followers g inDegrees current position stop + rest) := by
  have degrees := kahn.degrees
  have waits := degrees.target_waits wellFormed fits
  have iff := degrees.value_lowered_eq_zero_iff wellFormed fits
  have placed {node slot : Nat} : TraversalPoint.place node slot ∉
      followers g inDegrees current position stop := by
    unfold followers
    split <;> simp
  refine { kahn with
    degrees := degrees.release wellFormed fits
    accounted := ?accounted, marked := ?marked, written := ?written, placing := ?placing }
  case accounted =>
    intro node
    have accounted := kahn.accounted node
    rw [load_cons] at accounted
    have claimed : load (claims node) (followers g inDegrees current position stop) =
        if inDegrees.value (g.target position) = 1 ∧ g.target position = node then 1 else 0 := by
      unfold followers
      split
      · next last => simp [claims, last]
      · next more => simp [claims, more]
    rw [load_add, claimed]
    by_cases same : g.target position = node
    · subst same
      have inside := degrees.target_lt wellFormed
      simp only [claims, waits, and_false, if_false, inside, true_and, and_true, iff] at accounted ⊢
      split <;> omega
    · rw [Degrees.value_lowered_of_ne same, if_neg fun both => same both.2]
      exact accounted
  case marked =>
    intro node
    have marked := kahn.marked node
    rw [load_cons] at marked
    have none : load (unmarked node) (followers g inDegrees current position stop) = 0 := by
      unfold followers
      split <;> simp [unmarked]
    rw [load_add, none]
    exact marked
  case written =>
    intro slot node here
    refine (kahn.written slot node here).imp_right fun member => ?_
    rcases Multiset.mem_cons.mp member with this | old
    · cases this
    · exact Multiset.mem_add.mpr (.inr old)
  case placing =>
    intro node slot member
    rcases Multiset.mem_add.mp member with new | old
    · exact absurd new placed
    · exact kahn.placing node slot (Multiset.mem_cons_of_mem old)

/-- A settled task that goes on at a settled point with the same relationships ahead. -/
theorem passOn {body next : TraversalPoint}
    (kahn : Kahn g lineup ⟨inDegrees, ⟨order, size, sorted, distances⟩, cancelAt⟩ (body ::ₘ rest))
    (distances' : Option Cells) (cancelAt' : Option CancelPoint) (before : body.settled = true)
    (after : next.settled = true) (valid : next.Valid g inDegrees)
    (owed : next.owed g = body.owed g) :
    Kahn g lineup ⟨inDegrees, ⟨order, size, sorted, distances'⟩, cancelAt'⟩ ({next} + rest) := by
  refine kahn.pass distances' cancelAt' before (fun other member => ?_) fun node => ?_
  · obtain rfl := Multiset.mem_singleton.mp member
    exact ⟨after, valid⟩
  · rw [load_singleton, owes, owed, owes]

/-- What a task does next keeps store, tasks and lineup together, whoever's turn it is. -/
theorem step {body : TraversalPoint} (wellFormed : g.WellFormed)
    (fits : g.relationshipCount ≤ Word.top) (kahn : Kahn g lineup store (body ::ₘ rest))
    (goesOn : ((traversal g).step store body).2.successors (traversal g).start true = some bodies) :
    ∃ lineup', Kahn g lineup' ((traversal g).step store body).1 (bodies + rest) := by
  obtain ⟨inDegrees, ⟨order, size, sorted, distances⟩, cancelAt⟩ := store
  have valid := kahn.degrees.valid body (Multiset.mem_cons_self body rest)
  cases body with
  | claim node =>
      obtain rfl := Option.some.inj goesOn
      exact ⟨_, kahn.claim wellFormed fits⟩
  | place node slot =>
      obtain rfl := Option.some.inj goesOn
      exact ⟨_, kahn.place⟩
  | mark node =>
      obtain rfl := Option.some.inj goesOn
      exact ⟨_, kahn.mark⟩
  | scan node =>
      obtain rfl := Action.bodies_of_arrival goesOn
      exact ⟨lineup, kahn.passOn _ _ rfl rfl ⟨valid, Nat.le_refl _, rfl⟩ rfl⟩
  | row node position stop =>
      obtain ⟨freed, le, atStop⟩ := valid
      by_cases more : position < stop
      · cases distances with
        | none =>
            simp only [traversal, if_pos more, Option.isSome_none] at goesOn
            obtain rfl := Option.some.inj goesOn
            exact ⟨lineup, kahn.passOn _ _ rfl rfl ⟨freed, le, atStop, more⟩ rfl⟩
        | some distances =>
            simp only [traversal, if_pos more, Option.isSome_some] at goesOn
            obtain rfl := Option.some.inj goesOn
            exact ⟨lineup, kahn.passOn _ _ rfl rfl ⟨freed, le, atStop, more⟩ rfl⟩
      · simp only [traversal, if_neg more] at goesOn
        obtain rfl := Option.some.inj goesOn
        exact ⟨lineup, kahn.passOn _ _ rfl rfl trivial (g.ahead_of_le (Nat.le_of_not_lt more)).symm⟩
  | relax node position stop =>
      obtain rfl := Option.some.inj goesOn
      cases distances with
      | none => exact ⟨lineup, kahn.passOn _ _ rfl rfl valid rfl⟩
      | some distances => exact ⟨lineup, kahn.passOn _ _ rfl rfl valid rfl⟩
  | raise node position stop candidate point =>
      cases distances with
      | none =>
          obtain rfl := Option.some.inj goesOn
          exact ⟨lineup, kahn.passOn _ _ rfl rfl valid rfl⟩
      | some distances =>
          simp only [traversal] at goesOn ⊢
          rcases raised : (Cells.raising (g.target position) candidate).step () distances point with
            ⟨distances', next | answer⟩
          · rw [raised] at goesOn
            obtain rfl := Option.some.inj goesOn
            exact ⟨lineup, kahn.passOn _ _ rfl rfl valid rfl⟩
          · rw [raised] at goesOn
            obtain rfl := Option.some.inj goesOn
            exact ⟨lineup, kahn.passOn _ _ rfl rfl valid rfl⟩
  | release node position stop =>
      obtain rfl := followers_of_successors goesOn
      exact ⟨lineup, kahn.release wellFormed fits⟩
  | released node position stop =>
      obtain rfl := Option.some.inj goesOn
      obtain ⟨freed, le, atStop, lt⟩ := valid
      exact ⟨lineup, kahn.passOn _ _ rfl rfl ⟨freed, Nat.le_succ_of_le le, atStop⟩ rfl⟩
  | leave =>
      obtain rfl := Option.some.inj goesOn
      exact ⟨lineup, kahn.pass _ _ rfl
        (fun next member => absurd member (Multiset.notMem_zero next)) fun node => rfl⟩

end Kahn

end GraphAnalytics.TopologicalOrder
