/-
# The root above a node

In an ordered forest every cell is the mark of a root or names a smaller node, so following parents
always ends. `leader` is where it ends, by recursion on the node; it is what a walk that writes
nothing answers when it is left alone (`root_eq_leader`).

There are only two ways in which calls change a forest. Pointing a node at another member of its own
set leaves every leader as it was (`leader_shortcut`); pointing a root at a smaller node sends the
root's whole set to that node's leader (`leader_merge`). Both keep the forest ordered.
-/

import GraphAnalytics.Proofs.Paged.Access
import GraphAnalytics.Sets.Forest

namespace GraphAnalytics.Forest

/-- Every cell is the mark of a root or names a smaller node. -/
def Ordered (forest : Forest) : Prop :=
  ∀ node < forest.capacity,
    forest.value node = rootMark ∨ ∃ parent < node, forest.value node = (parent : Int)

def IsRoot (forest : Forest) (node : Nat) : Prop :=
  node < forest.capacity ∧ forest.value node = rootMark

/-- Two nodes are in the same set: the walks from them end at the same root. -/
def Joined (forest : Forest) (p q : Nat) : Prop :=
  ∃ r, root p forest = .ok r ∧ root q forest = .ok r

/-- Where following parents ends. A cell that does not name a smaller node is taken for a root. -/
def leader (forest : Forest) (node : Nat) : Nat :=
  match parentOf (forest.value node) with
  | some parent => if parent < node then leader forest parent else node
  | none => node
termination_by node

variable {forest : Forest}

theorem natCast_ne_rootMark (node : Nat) : (node : Int) ≠ rootMark := by
  unfold rootMark
  omega

theorem ofSigned_natCast (node : Nat) : Word.ofSigned (node : Int) = node := by
  rw [Word.ofSigned_of_nonneg (Int.natCast_nonneg node), Int.toNat_natCast]

@[simp] theorem parentOf_rootMark : parentOf rootMark = none := if_pos rfl

@[simp] theorem parentOf_natCast (parent : Nat) : parentOf (parent : Int) = some parent := by
  rw [parentOf, if_neg (natCast_ne_rootMark parent), ofSigned_natCast]

theorem leader_eq_self {node : Nat} (root : forest.value node = rootMark) :
    forest.leader node = node := by
  rw [leader, root, parentOf_rootMark]

theorem leader_eq_leader {node parent : Nat} (child : forest.value node = (parent : Int))
    (smaller : parent < node) : forest.leader node = forest.leader parent := by
  rw [leader, child, parentOf_natCast]
  exact if_pos smaller

namespace Ordered

/-- Leaders never exceed the node: parents are smaller. -/
theorem leader_le (ordered : forest.Ordered) {node : Nat} (h : node < forest.capacity) :
    forest.leader node ≤ node := by
  induction node using Nat.strongRecOn with
  | ind node ih =>
      rcases ordered node h with root | ⟨parent, smaller, child⟩
      · exact Nat.le_of_eq (leader_eq_self root)
      · rw [leader_eq_leader child smaller]
        have := ih parent smaller (by omega)
        omega

theorem leader_lt (ordered : forest.Ordered) {node : Nat} (h : node < forest.capacity) :
    forest.leader node < forest.capacity :=
  Nat.lt_of_le_of_lt (ordered.leader_le h) h

theorem isRoot_leader (ordered : forest.Ordered) {node : Nat} (h : node < forest.capacity) :
    forest.IsRoot (forest.leader node) := by
  induction node using Nat.strongRecOn with
  | ind node ih =>
      rcases ordered node h with root | ⟨parent, smaller, child⟩
      · rw [leader_eq_self root]
        exact ⟨h, root⟩
      · rw [leader_eq_leader child smaller]
        exact ih parent smaller (by omega)

theorem leader_leader (ordered : forest.Ordered) {node : Nat} (h : node < forest.capacity) :
    forest.leader (forest.leader node) = forest.leader node :=
  leader_eq_self (ordered.isRoot_leader h).2

theorem set (ordered : forest.Ordered) {node above : Nat} (smaller : above < node) :
    Ordered (forest.set node (above : Int)) := by
  intro other h
  rw [PagedArray.capacity_set] at h
  by_cases same : node = other
  · subst same
    exact .inr ⟨above, smaller, forest.value_set_self _ h⟩
  · rw [forest.value_set_of_ne _ same]
    exact ordered other h

/-- Pointing a node at a smaller member of its set leaves every leader as it was. -/
theorem leader_shortcut (ordered : forest.Ordered) {node above : Nat} (smaller : above < node)
    (sameSet : forest.leader above = forest.leader node) {other : Nat}
    (h : other < forest.capacity) :
    leader (forest.set node (above : Int)) other = forest.leader other := by
  induction other using Nat.strongRecOn with
  | ind other ih =>
      by_cases same : node = other
      · subst same
        rw [leader_eq_leader (forest.value_set_self _ h) smaller, ih above smaller (by omega),
          sameSet]
      · have kept := forest.value_set_of_ne (above : Int) same
        rcases ordered other h with root | ⟨parent, below, child⟩
        · rw [leader_eq_self (kept.trans root), leader_eq_self root]
        · rw [leader_eq_leader (kept.trans child) below, leader_eq_leader child below,
            ih parent below (by omega)]

/-- Pointing a root at a smaller node sends the members of its set to that node's leader. -/
theorem leader_merge (ordered : forest.Ordered) {low high : Nat} (smaller : low < high)
    (root : forest.value high = rootMark) {other : Nat} (h : other < forest.capacity) :
    leader (forest.set high (low : Int)) other =
      if forest.leader other = high then forest.leader low else forest.leader other := by
  have below {node : Nat} (small : node < high) (inside : node < forest.capacity) :
      forest.leader node ≠ high := by
    have := ordered.leader_le inside
    omega
  induction other using Nat.strongRecOn with
  | ind other ih =>
      by_cases same : high = other
      · subst same
        rw [leader_eq_leader (forest.value_set_self _ h) smaller, ih low smaller (by omega),
          if_neg (below smaller (by omega)), if_pos (leader_eq_self root)]
      · have kept := forest.value_set_of_ne (low : Int) same
        rcases ordered other h with isRoot | ⟨parent, less, child⟩
        · rw [leader_eq_self (kept.trans isRoot), leader_eq_self isRoot, if_neg (Ne.symm same)]
        · rw [leader_eq_leader (kept.trans child) less, leader_eq_leader child less,
            ih parent less (by omega)]

end Ordered

/-! ### Walking alone -/

theorem readCell_of_lt {ℓ α : Type} {node : Nat} (h : node < forest.capacity)
    (next : Int → Turn ℓ (Except Violation α)) :
    forest.readCell node next = next (forest.value node) := by
  rw [readCell, forest.read_of_lt _ h]

theorem readCell_of_le {ℓ α : Type} {node : Nat} (h : forest.capacity ≤ node)
    (next : Int → Turn ℓ (Except Violation α)) :
    forest.readCell node next = .done (.error (.indexOutOfBounds node forest.capacity)) := by
  rw [readCell, PagedArray.read, dif_neg (Nat.not_lt.mpr h)]

theorem seekRoot_step_of_root {node : Nat} (root : forest.IsRoot node) :
    seekRoot.step () forest node = (forest, .done (.ok node)) := by
  simp only [seekRoot, readCell_of_lt root.1, root.2, parentOf_rootMark]

theorem seekRoot_step_of_child {node parent : Nat} (h : node < forest.capacity)
    (child : forest.value node = (parent : Int)) :
    seekRoot.step () forest node = (forest, .more parent) := by
  simp only [seekRoot, readCell_of_lt h, child, parentOf_natCast]

/-- A walk alone ends at the leader after no more accesses than the node's id allows. -/
theorem alone_seekRoot (ordered : forest.Ordered) {fuel node : Nat} (h : node < forest.capacity)
    (enough : node < fuel) :
    seekRoot.alone () fuel forest node = (forest, some (.ok (forest.leader node))) := by
  induction fuel generalizing node with
  | zero => omega
  | succ fuel ih =>
      rw [Machine.alone_succ]
      rcases ordered node h with root | ⟨parent, smaller, child⟩
      · rw [seekRoot_step_of_root ⟨h, root⟩, leader_eq_self root]
      · rw [seekRoot_step_of_child h child, leader_eq_leader child smaller]
        exact ih (by omega) (by omega)

theorem root_eq_leader (ordered : forest.Ordered) {node : Nat} (h : node < forest.capacity) :
    root node forest = .ok (forest.leader node) := by
  have enough : node < walkBudget forest.capacity := by
    unfold walkBudget
    omega
  have walk := alone_seekRoot ordered h enough
  simp only [root, runAlone, Guarded.perform_ofFunction, walk]

theorem root_of_le {node : Nat} (h : forest.capacity ≤ node) :
    root node forest = .error (.indexOutOfBounds node forest.capacity) := by
  simp only [root, runAlone, Guarded.perform_ofFunction, walkBudget, Machine.alone_succ, seekRoot,
    readCell_of_le h]

theorem root_eq_ok_iff (ordered : forest.Ordered) {node r : Nat} :
    root node forest = .ok r ↔ node < forest.capacity ∧ forest.leader node = r := by
  by_cases h : node < forest.capacity
  · rw [root_eq_leader ordered h, Except.ok.injEq]
    exact (and_iff_right h).symm
  · rw [root_of_le (Nat.le_of_not_lt h)]
    simp [h]

theorem joined_iff (ordered : forest.Ordered) {p q : Nat} :
    forest.Joined p q ↔
      p < forest.capacity ∧ q < forest.capacity ∧ forest.leader p = forest.leader q := by
  constructor
  · rintro ⟨r, ofP, ofQ⟩
    obtain ⟨insideP, leaderP⟩ := (root_eq_ok_iff ordered).mp ofP
    obtain ⟨insideQ, leaderQ⟩ := (root_eq_ok_iff ordered).mp ofQ
    exact ⟨insideP, insideQ, leaderP.trans leaderQ.symm⟩
  · rintro ⟨insideP, insideQ, same⟩
    exact ⟨forest.leader q, (root_eq_ok_iff ordered).mpr ⟨insideP, same⟩,
      (root_eq_ok_iff ordered).mpr ⟨insideQ, rfl⟩⟩

/-- The leader is the smallest member of a set and its only root. -/
theorem Ordered.leader_smallest (ordered : forest.Ordered) {node : Nat}
    (inside : node < forest.capacity) :
    forest.IsRoot (forest.leader node) ∧ forest.Joined node (forest.leader node) ∧
      (∀ other, forest.Joined node other → forest.leader node ≤ other) ∧
      ∀ other, forest.IsRoot other → forest.Joined node other → other = forest.leader node := by
  refine ⟨ordered.isRoot_leader inside, ?_, ?_, ?_⟩
  · exact (joined_iff ordered).mpr
      ⟨inside, ordered.leader_lt inside, (ordered.leader_leader inside).symm⟩
  · intro other joined
    obtain ⟨-, insideOther, same⟩ := (joined_iff ordered).mp joined
    rw [same]
    exact ordered.leader_le insideOther
  · intro other root joined
    obtain ⟨-, -, same⟩ := (joined_iff ordered).mp joined
    rw [same, leader_eq_self root.2]

theorem ordered_replicate (capacity : Nat) : Ordered (.replicate capacity rootMark) :=
  fun _ inside => .inl (Cells.value_replicate capacity rootMark inside)

end GraphAnalytics.Forest
