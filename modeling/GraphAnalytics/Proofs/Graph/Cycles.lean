/-
# Cycles and paths

A list that puts every node behind its predecessors and takes up a node as soon as all of its
predecessors have been taken up holds exactly the nodes that are not behind a cycle
(`Sorts.mem_iff`). One direction is that predecessors of listed nodes are listed earlier, all the
way back, and no node is listed before itself. The other is that going from predecessor to
predecessor among finitely many nodes ends unless it runs into a cycle.

Along such a list the longest path to a node can be found by looking at relationships only: a rank
that is the length of some path to each node and rises along every relationship is that of the
longest path (`Sorts.isGreatest_rank`).
-/

import GraphAnalytics.Proofs.Graph.Rows
import Mathlib.Data.Fintype.EquivFin
import Mathlib.Data.List.Nodup
import Mathlib.Data.List.Perm.Basic
import Mathlib.Data.Finite.Prod
import Mathlib.Logic.Relation
import Mathlib.Order.Bounds.Basic
import Mathlib.Order.WellFounded

namespace GraphAnalytics.Graph

/-- The node is reachable from a node that lies on a cycle, be it by no relationship at all. -/
def BehindCycle (g : Graph) (node : Nat) : Prop :=
  ∃ start, Relation.TransGen g.Edge start start ∧ Relation.ReflTransGen g.Edge start node

/-- No node lies on a cycle. -/
def Acyclic (g : Graph) : Prop := ∀ node, ¬ Relation.TransGen g.Edge node node

/-- A directed path that ends at a node, first node to last. -/
def PathTo (g : Graph) (node : Nat) (path : List Nat) : Prop :=
  path.IsChain g.Edge ∧ path.getLast? = some node

/-- The numbers of relationships on the directed paths that end at a node. -/
def pathLengths (g : Graph) (node : Nat) : Set Nat :=
  {length | ∃ path, g.PathTo node path ∧ path.length = length + 1}

variable {g : Graph}

theorem zero_mem_pathLengths (node : Nat) : 0 ∈ g.pathLengths node :=
  ⟨[node], ⟨List.isChain_singleton node, rfl⟩, rfl⟩

theorem succ_mem_pathLengths {source target length : Nat} (edge : g.Edge source target)
    (h : length ∈ g.pathLengths source) : length + 1 ∈ g.pathLengths target := by
  obtain ⟨path, ⟨chain, last⟩, total⟩ := h
  refine ⟨path ++ [target], ⟨List.isChain_append.mpr ⟨chain, List.isChain_singleton _, ?_⟩,
    List.getLast?_concat⟩, by rw [List.length_append, total, List.length_singleton]⟩
  intro before isLast after isFirst
  obtain rfl : source = before := Option.some.inj (last.symm.trans isLast)
  obtain rfl : target = after := Option.some.inj isFirst
  exact edge

theorem PathTo.leads {node start : Nat} {path : List Nat} (pathTo : g.PathTo node path)
    (member : start ∈ path) : Relation.ReflTransGen g.Edge start node := by
  induction path generalizing start with
  | nil => cases member
  | cons first path ih =>
      obtain ⟨chain, ends⟩ := pathTo
      cases path with
      | nil =>
          obtain rfl := List.mem_singleton.mp member
          obtain rfl := Option.some.inj ends
          exact .refl
      | cons second path =>
          obtain ⟨edge, chain'⟩ := List.isChain_cons_cons.mp chain
          have pathTo' : g.PathTo node (second :: path) := ⟨chain', by simpa using ends⟩
          rcases List.mem_cons.mp member with rfl | later
          · exact .head edge (ih pathTo' List.mem_cons_self)
          · exact ih pathTo' later

/-- The list takes up every node behind all of its predecessors, and every node of which it has
taken up all predecessors. -/
structure Sorts (g : Graph) (nodes : List Nat) : Prop where
  nodup : nodes.Nodup
  mem_iff_predecessors : ∀ node, node ∈ nodes ↔
    node < g.nodeCount ∧ ∀ source, g.Edge source node → source ∈ nodes
  behind : ∀ place node source : Nat, nodes[place]? = some node → g.Edge source node →
    ∃ earlier < place, nodes[earlier]? = some source

namespace Sorts

variable {nodes : List Nat}

/-- Whatever leads to a listed node is listed earlier. -/
theorem earlier_of_transGen (sorts : g.Sorts nodes) {start node place : Nat}
    (leads : Relation.TransGen g.Edge start node) (here : nodes[place]? = some node) :
    ∃ earlier < place, nodes[earlier]? = some start := by
  induction leads generalizing place with
  | single edge => exact sorts.behind place _ _ here edge
  | tail _ edge ih =>
      obtain ⟨between, less, there⟩ := sorts.behind place _ _ here edge
      obtain ⟨earlier, less', first⟩ := ih there
      exact ⟨earlier, Nat.lt_trans less' less, first⟩

theorem not_transGen_self (sorts : g.Sorts nodes) {node : Nat} (member : node ∈ nodes) :
    ¬ Relation.TransGen g.Edge node node := by
  intro cycle
  obtain ⟨place, here⟩ := List.mem_iff_getElem?.mp member
  obtain ⟨earlier, less, there⟩ := sorts.earlier_of_transGen cycle here
  have inside : place < nodes.length := (List.getElem?_eq_some_iff.mp here).1
  have same := (List.getElem?_inj inside sorts.nodup).mp (here.trans there.symm)
  omega

theorem mem_iff (sorts : g.Sorts nodes) (wellFormed : g.WellFormed) (node : Nat) :
    node ∈ nodes ↔ node < g.nodeCount ∧ ¬ g.BehindCycle node := by
  constructor
  · intro member
    refine ⟨((sorts.mem_iff_predecessors node).mp member).1, ?_⟩
    rintro ⟨start, cycle, leads⟩
    obtain ⟨place, here⟩ := List.mem_iff_getElem?.mp member
    have listed : start ∈ nodes := by
      rcases Relation.reflTransGen_iff_eq_or_transGen.mp leads with rfl | leads
      · exact member
      · obtain ⟨earlier, -, there⟩ := sorts.earlier_of_transGen leads here
        exact List.mem_iff_getElem?.mpr ⟨earlier, there⟩
    exact sorts.not_transGen_self listed cycle
  · rintro ⟨inside, notBehind⟩
    -- Among the finitely many nodes that lead to this one, leading to one another is well-founded.
    let Leading := {source : Fin g.nodeCount // Relation.ReflTransGen g.Edge source node}
    let leads (first second : Leading) : Prop := Relation.TransGen g.Edge first.1 second.1
    have : IsTrans Leading leads := ⟨fun _ _ _ => Relation.TransGen.trans⟩
    have : Std.Irrefl leads := ⟨fun source cycle => notBehind ⟨source.1, cycle, source.2⟩⟩
    have wellFounded : WellFounded leads := Finite.wellFounded_of_trans_of_irrefl leads
    have listed : ∀ source : Leading, (source.1 : Nat) ∈ nodes := by
      intro source
      induction source using wellFounded.induction with
      | _ source ih =>
          refine (sorts.mem_iff_predecessors _).mpr ⟨source.1.isLt, fun before edge => ?_⟩
          exact ih ⟨⟨before, wellFormed.source_lt edge⟩, .head edge source.2⟩ (.single edge)
    exact listed ⟨⟨node, inside⟩, .refl⟩

theorem nodup_of_pathTo (sorts : g.Sorts nodes) {node : Nat} (member : node ∈ nodes)
    {path : List Nat} (pathTo : g.PathTo node path) : path.Nodup := by
  induction path using List.reverseRecOn generalizing node with
  | nil => exact List.nodup_nil
  | append_singleton path last ih =>
      obtain ⟨chain, ends⟩ := pathTo
      obtain rfl : last = node := by simpa using ends
      obtain ⟨chain', -, joint⟩ := List.isChain_append.mp chain
      cases before : path.getLast? with
      | none =>
          rw [List.getLast?_eq_none_iff.mp before]
          exact List.nodup_singleton last
      | some source =>
          have edge : g.Edge source last := joint source before last rfl
          have listed := ((sorts.mem_iff_predecessors last).mp member).2 source edge
          have once : path.Nodup := ih listed ⟨chain', before⟩
          rw [← List.concat_eq_append]
          refine once.concat fun again => sorts.not_transGen_self member ?_
          exact .tail' (PathTo.leads ⟨chain', before⟩ again) edge

theorem length_eq_iff (sorts : g.Sorts nodes) (wellFormed : g.WellFormed) :
    nodes.length = g.nodeCount ↔ g.Acyclic := by
  have within : nodes ⊆ List.range g.nodeCount := fun node member =>
    List.mem_range.mpr ((sorts.mem_iff wellFormed node).mp member).1
  constructor
  · intro full node cycle
    obtain ⟨next, edge, -⟩ := Relation.TransGen.head'_iff.mp cycle
    have perm : nodes.Perm (List.range g.nodeCount) :=
      (sorts.nodup.subperm within).perm_of_length_le (by rw [List.length_range, full])
    exact sorts.not_transGen_self
      (perm.mem_iff.mpr (List.mem_range.mpr (wellFormed.source_lt edge))) cycle
  · intro acyclic
    have perm : nodes.Perm (List.range g.nodeCount) := by
      refine (List.perm_ext_iff_of_nodup sorts.nodup List.nodup_range).mpr fun node => ?_
      rw [sorts.mem_iff wellFormed, List.mem_range, and_iff_left_iff_imp]
      rintro - ⟨start, cycle, -⟩
      exact acyclic start cycle
    rw [perm.length_eq, List.length_range]

/-- A rank that is the length of some path to each listed node and rises along relationships between
listed nodes is the length of the longest path. -/
theorem isGreatest_rank (sorts : g.Sorts nodes) (rank : Nat → Nat)
    (reached : ∀ node ∈ nodes, rank node ∈ g.pathLengths node)
    (rises : ∀ source ∈ nodes, ∀ target, g.Edge source target → rank source + 1 ≤ rank target)
    {node : Nat} (member : node ∈ nodes) : IsGreatest (g.pathLengths node) (rank node) := by
  refine ⟨reached node member, ?_⟩
  have bound : ∀ path node, node ∈ nodes → g.PathTo node path → path.length ≤ rank node + 1 := by
    intro path
    induction path using List.reverseRecOn with
    | nil => exact fun _ _ _ => Nat.zero_le _
    | append_singleton path last ih =>
        intro node member ⟨chain, ends⟩
        obtain rfl : last = node := by simpa using ends
        obtain ⟨chain', -, joint⟩ := List.isChain_append.mp chain
        cases before : path.getLast? with
        | none =>
            rw [List.getLast?_eq_none_iff.mp before]
            exact Nat.le_add_left 1 _
        | some source =>
            have edge : g.Edge source last := joint source before last rfl
            have listed := ((sorts.mem_iff_predecessors last).mp member).2 source edge
            have shorter := ih source listed ⟨chain', before⟩
            have less := rises source listed last edge
            rw [List.length_append, List.length_singleton]
            omega
  rintro length ⟨path, pathTo, total⟩
  have := bound path node member pathTo
  omega

end Sorts

end GraphAnalytics.Graph
