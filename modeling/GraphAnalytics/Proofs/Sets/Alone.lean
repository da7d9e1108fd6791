/-
# Calls that nobody disturbs

The sequential operations on a forest are its calls left alone. What one access does is known from
`compress_step`, `link_step` and `agree_step`; here the accesses of one call are put one after the
other. A walk ends at the leader of its node within the accesses that its id allows. A merge that is
alone never loses its exchange: the roots it has found are roots still when it uses them. So the
budgets of the sequential operations suffice, and `endlessWalk` is not met on an ordered forest.

Walks and comparisons may move cells, but no leader: they are an evolution by no pairs.
-/

import GraphAnalytics.Proofs.Sets.Calls

namespace GraphAnalytics

/-- A call left alone comes to its end if no access takes it back: `Good` says where it may be and
how many accesses it has left at most, and `Result` what is true at its end. -/
theorem Machine.alone_ends {χ σ ℓ α : Type} (m : Machine χ σ ℓ α) (luck : χ)
    (Good : σ → ℓ → Nat → Prop) (Result : σ → α → Prop) {fuel left : Nat} {store : σ} {point : ℓ}
    (good : Good store point left) (enough : left < fuel)
    (step : ∀ store point left, Good store point left →
      (∃ answer, (m.step luck store point).2 = .done answer ∧
        Result (m.step luck store point).1 answer) ∨
      ∃ next less, (m.step luck store point).2 = .more next ∧ less < left ∧
        Good (m.step luck store point).1 next less) :
    ∃ after answer, m.alone luck fuel store point = (after, some answer) ∧ Result after answer := by
  induction fuel generalizing store point left with
  | zero => omega
  | succ fuel ih =>
      rw [alone_succ]
      have taken := step store point left good
      generalize m.step luck store point = outcome at taken
      obtain ⟨after, turn⟩ := outcome
      rcases taken with ⟨answer, rfl, result⟩ | ⟨next, less, rfl, fewer, goodNext⟩
      · exact ⟨after, answer, rfl, result⟩
      · exact ih goodNext (by omega)

/-- Where a merge that nobody disturbs may be, and the accesses that it has left at most. The roots
that it remembers are roots. -/
def Linking.Undisturbed (forest : Forest) (q : Nat) : Linking → Nat → Prop
  | .first _ _ node, left => left = node + q + 2
  | .second _ _ root node, left => forest.IsRoot root ∧ left = node + 1
  | .join _ _ _ high, left => forest.IsRoot high ∧ left = 0

namespace Forest

def noPairs : Nat → Nat → Prop := fun _ _ => False

abbrev Keeps (before after : Forest) : Prop := Evolves noPairs before after

variable {forest before after : Forest}

/-- Without a merge every leader stays as it is: it is the smallest node of a set, and the sets are
the same. -/
theorem Evolves.leader_eq (keeps : Keeps before after) (ordered : before.Ordered) {node : Nat}
    (inside : node < before.capacity) : after.leader node = before.leader node := by
  have capacity := keeps.capacity
  have leader_lt := ordered.leader_lt inside
  have afterLeader_lt := keeps.ordered.leader_lt (capacity ▸ inside)
  have up : after.leader (before.leader node) = after.leader node :=
    keeps.grows _ leader_lt _ inside (ordered.leader_leader inside)
  have joined : after.Joined node (after.leader node) := (joined_iff keeps.ordered).mpr
    ⟨capacity ▸ inside, afterLeader_lt, (keeps.ordered.leader_leader (capacity ▸ inside)).symm⟩
  have down : before.leader node = before.leader (after.leader node) := by
    refine value_eq_of_eqvGen (fun p q step => ?_) (keeps.generated _ _ joined)
    rcases step with together | never
    · exact ((joined_iff ordered).mp together).2.2
    · exact never.elim
  refine Nat.le_antisymm ?_ ?_
  · rw [← up]
    exact keeps.ordered.leader_le (capacity ▸ leader_lt)
  · rw [down]
    exact ordered.leader_le (capacity ▸ afterLeader_lt)

/-! ### Walks -/

/-- A compressing walk left alone ends at the leader and keeps all sets. -/
theorem alone_compress (ordered : forest.Ordered) {origin fuel : Nat} {walk : Compressing}
    (inside : origin < forest.capacity) (above : walk.Above forest origin)
    (enough : walk.remaining < fuel) :
    ∃ after, compress.alone () fuel forest walk = (after, some (.ok (forest.leader origin))) ∧
      Keeps forest after := by
  have ends := compress.alone_ends ()
    (fun now walk left => Keeps forest now ∧ walk.Above now origin ∧ walk.remaining = left)
    (fun now answer => answer = .ok (forest.leader origin) ∧ Keeps forest now)
    ⟨.refl ordered, above, rfl⟩ enough
  obtain ⟨after, answer, ends, rfl, keeps⟩ := ends fun now walk left good => by
    obtain ⟨keeps, above, rfl⟩ := good
    obtain ⟨evolves, ⟨-, last⟩ | ⟨next, more, aboveNext, less⟩⟩ :=
      compress_step keeps.ordered noPairs (keeps.capacity ▸ inside) above
    · rw [keeps.leader_eq ordered inside] at last
      exact .inl ⟨_, last, rfl, keeps.trans evolves⟩
    · exact .inr ⟨next, _, more, less, keeps.trans evolves, aboveNext, rfl⟩
  exact ⟨after, ends, keeps⟩

theorem perform_find (ordered : forest.Ordered) {node : Nat} (inside : node < forest.capacity) :
    ∃ after, (find node).perform forest = (.ok (forest.leader node), after) ∧
      Keeps forest after := by
  have enough : (Compressing.atNode node).remaining < 3 * walkBudget forest.capacity := by
    simp only [Compressing.remaining, walkBudget]
    omega
  have above : (Compressing.atNode node).Above forest node := ⟨inside, rfl⟩
  obtain ⟨after, ends, keeps⟩ := alone_compress ordered inside above enough
  refine ⟨after, ?_, keeps⟩
  show (runAlone compress _ (.atNode node)).perform forest = _
  rw [runAlone, Guarded.perform_ofFunction, ends]

theorem compress_atNode_of_le {node : Nat} (outside : forest.capacity ≤ node) :
    compress.step () forest (.atNode node) =
      (forest, .done (.error (.indexOutOfBounds node forest.capacity))) := by
  simp only [compress, readCell_of_le outside]

theorem perform_find_of_le {node : Nat} (outside : forest.capacity ≤ node) :
    (find node).perform forest = (.error (.indexOutOfBounds node forest.capacity), forest) := by
  show (runAlone compress (3 * walkBudget forest.capacity) (.atNode node)).perform forest = _
  have budget : 3 * walkBudget forest.capacity = 3 * forest.capacity + 2 + 1 := by
    unfold walkBudget
    omega
  rw [runAlone, Guarded.perform_ofFunction, budget, Machine.alone_succ,
    compress_atNode_of_le outside]

/-! ### Merges -/

/-- An access of a merge that nobody disturbs finds it where it may be, and takes one of the
accesses that are left. -/
theorem undisturbed_step (ordered : forest.Ordered) {p q left : Nat} {point : Linking}
    (between : point.Between forest p q) (undisturbed : point.Undisturbed forest q left) :
    (link.step () forest point).2 = .done (.ok ()) ∨
      ∃ next less, (link.step () forest point).2 = .more next ∧ less < left ∧
        next.Undisturbed (link.step () forest point).1 q less := by
  cases point with
  | first p' q' node =>
      obtain ⟨rfl, rfl, hnode, -⟩ := between
      obtain rfl : left = node + q' + 2 := undisturbed
      right
      rcases ordered node hnode with root | ⟨parent, smaller, child⟩
      · rw [link_first_of_root _ _ ⟨hnode, root⟩]
        exact ⟨_, q' + 1, rfl, by omega, ⟨hnode, root⟩, rfl⟩
      · rw [link_first_of_child _ _ hnode child]
        exact ⟨_, parent + q' + 2, rfl, by omega, rfl⟩
  | second p' q' other node =>
      obtain ⟨isRoot, rfl⟩ := undisturbed
      have hnode := between.2.2.2.1
      rcases ordered node hnode with root | ⟨parent, smaller, child⟩
      · by_cases equal : other = node
        · subst equal
          rw [link_second_of_same _ _ ⟨hnode, root⟩]
          exact .inl rfl
        · rw [link_second_of_root _ _ ⟨hnode, root⟩ equal]
          refine .inr ⟨_, 0, rfl, by omega, ?_, rfl⟩
          rcases Nat.le_total other node with less | less
          · rw [Nat.max_eq_right less]
            exact ⟨hnode, root⟩
          · rw [Nat.max_eq_left less]
            exact isRoot
      · rw [link_second_of_child _ _ _ hnode child]
        exact .inr ⟨_, parent + 1, rfl, by omega, isRoot, rfl⟩
  | join p' q' low high =>
      rw [link_join_of_root _ _ _ undisturbed.1.2]
      exact .inl rfl

def onlyPair (p q : Nat) : Nat → Nat → Prop := fun a b => a = p ∧ b = q

theorem perform_require {node : Nat} (inside : node < forest.capacity) :
    (require node).perform forest = (.ok (), forest) := by
  rw [require, Guarded.perform_inspect, if_pos inside]

theorem perform_require_of_le {node : Nat} (outside : forest.capacity ≤ node) :
    (require node).perform forest = (.error (.indexOutOfBounds node forest.capacity), forest) := by
  rw [require, Guarded.perform_inspect, if_neg (Nat.not_lt.mpr outside)]

/-- A merge of two nodes left alone succeeds: the forest evolves by this pair, and afterwards the
nodes are in one set. -/
theorem alone_link (ordered : forest.Ordered) {p q fuel : Nat} (hp : p < forest.capacity)
    (hq : q < forest.capacity) (enough : p + q + 2 < fuel) :
    ∃ after, link.alone () fuel forest (.first p q p) = (after, some (.ok ())) ∧
      Evolves (onlyPair p q) forest after ∧ after.leader p = after.leader q := by
  have pair : onlyPair p q p q := ⟨rfl, rfl⟩
  have ends := link.alone_ends ()
    (fun now point left => Evolves (onlyPair p q) forest now ∧ point.Between now p q ∧
      point.Undisturbed now q left)
    (fun now answer => answer = .ok () ∧ Evolves (onlyPair p q) forest now ∧
      now.leader p = now.leader q)
    (show _ ∧ Linking.Between forest p q (.first p q p) ∧ Linking.Undisturbed forest q _ _ from
      ⟨.refl ordered, ⟨rfl, rfl, hp, rfl⟩, rfl⟩) enough
  obtain ⟨after, answer, ends, rfl, evolves, together⟩ := ends fun now point left good => by
    obtain ⟨evolved, between, undisturbed⟩ := good
    have capacity := evolved.capacity
    obtain ⟨evolves, result⟩ :=
      link_step evolved.ordered pair (capacity ▸ hp) (capacity ▸ hq) between
    rcases result with ⟨last, joined⟩ | ⟨next, more, betweenNext⟩
    · exact .inl ⟨_, last, rfl, evolved.trans evolves, joined⟩
    · rcases undisturbed_step evolved.ordered between undisturbed with
        last | ⟨next', less, more', fewer, undisturbedNext⟩
      · cases last.symm.trans more
      · obtain rfl : next' = next := Turn.more.inj (more'.symm.trans more)
        exact .inr ⟨next', less, more', fewer, evolved.trans evolves, betweenNext,
          undisturbedNext⟩
  exact ⟨after, ends, evolves, together⟩

/-- Merging two nodes succeeds and joins them and nothing else. -/
theorem perform_union (ordered : forest.Ordered) {p q : Nat} (hp : p < forest.capacity)
    (hq : q < forest.capacity) :
    ∃ after, (union p q).perform forest = (.ok (), after) ∧
      Evolves (onlyPair p q) forest after ∧ after.leader p = after.leader q := by
  obtain ⟨after, ends, joins⟩ := alone_link ordered hp hq
    (show p + q + 2 < 2 * walkBudget forest.capacity + 1 by unfold walkBudget; omega)
  refine ⟨after, ?_, joins⟩
  rw [union, Guarded.perform_bind_of_ok (perform_require hp),
    Guarded.perform_bind_of_ok (perform_require hq)]
  show (runAlone link _ (.first p q p)).perform forest = _
  rw [runAlone, Guarded.perform_ofFunction, ends]

/-- A merge of an id that is not a node is refused, the first such id being named. -/
theorem perform_union_of_le {p q : Nat} (outside : forest.capacity ≤ p ∨ forest.capacity ≤ q) :
    (union p q).perform forest =
      (.error (.indexOutOfBounds (if p < forest.capacity then q else p) forest.capacity),
        forest) := by
  by_cases hp : p < forest.capacity
  · have hq : forest.capacity ≤ q := outside.resolve_left (Nat.not_le.mpr hp)
    rw [union, Guarded.perform_bind_of_ok (perform_require hp),
      Guarded.perform_bind_of_error (perform_require_of_le hq), if_pos hp]
  · rw [union, Guarded.perform_bind_of_error (perform_require_of_le (Nat.not_lt.mp hp)), if_neg hp]

/-! ### Comparisons -/

/-- Where a comparison of `p` and `q` that nobody disturbs may be, and the accesses that it has left
at most. If `q` is no node, that shows when the walk from it begins. -/
def Comparing (forest now : Forest) (p q : Nat) : Agreeing → Nat → Prop
  | .first q' walk, left =>
      q' = q ∧ walk.Above now p ∧ left = walk.remaining + 2 * forest.capacity
  | .second root walk, left => root = forest.leader p ∧
      (q < forest.capacity ∧ walk.Above now q ∧ left = walk.remaining ∨
        forest.capacity ≤ q ∧ walk = .atNode q ∧ left = 0)

/-- What a comparison of `p` and `q` answers if nobody disturbs it. -/
def comparison (forest : Forest) (p q : Nat) : Except Violation Bool :=
  if q < forest.capacity then .ok (forest.leader p == forest.leader q)
  else .error (.indexOutOfBounds q forest.capacity)

/-- A comparison left alone answers whether two nodes have one leader, and keeps all sets. It is
refused if the second is no node. -/
theorem alone_agree (ordered : forest.Ordered) {p : Nat} (q : Nat) {fuel : Nat}
    (hp : p < forest.capacity) (enough : 2 * p + 1 + 2 * forest.capacity < fuel) :
    ∃ after, agree.alone () fuel forest (.first q (.atNode p)) =
      (after, some (forest.comparison p q)) ∧ Keeps forest after := by
  have ends := agree.alone_ends ()
    (fun now point left => Keeps forest now ∧ Comparing forest now p q point left)
    (fun now answer => answer = forest.comparison p q ∧ Keeps forest now)
    (show _ ∧ Comparing forest forest p q (.first q (.atNode p)) _ from
      ⟨.refl ordered, rfl, ⟨hp, rfl⟩, rfl⟩) enough
  obtain ⟨after, answer, ends, rfl, keeps⟩ := ends fun now point left good => by
    obtain ⟨keeps, comparing⟩ := good
    have capacity := keeps.capacity
    cases point with
    | first q' walk =>
        obtain ⟨rfl, above, rfl⟩ := comparing
        obtain ⟨evolves, ⟨-, last⟩ | ⟨next, more, aboveNext, less⟩⟩ :=
          compress_step keeps.ordered noPairs (capacity ▸ hp) above
        · rw [agree_first_of_done q' last]
          have after := keeps.trans evolves
          have found := keeps.leader_eq ordered hp
          rcases Nat.lt_or_ge q' forest.capacity with inside | outside
          · exact .inr ⟨_, 2 * q' + 1, rfl, by omega, after, found,
              .inl ⟨inside, ⟨after.capacity ▸ inside, rfl⟩, rfl⟩⟩
          · exact .inr ⟨_, 0, rfl, by omega, after, found, .inr ⟨outside, rfl, rfl⟩⟩
        · rw [agree_first_of_more q' more]
          exact .inr ⟨_, next.remaining + 2 * forest.capacity, rfl, by omega, keeps.trans evolves,
            rfl, aboveNext, rfl⟩
    | second root walk =>
        obtain ⟨rfl, ⟨hq, above, rfl⟩ | ⟨outside, rfl, rfl⟩⟩ := comparing
        · obtain ⟨evolves, ⟨-, last⟩ | ⟨next, more, aboveNext, less⟩⟩ :=
            compress_step keeps.ordered noPairs (capacity ▸ hq) above
          · rw [agree_second_of_done _ last, keeps.leader_eq ordered hq]
            exact .inl ⟨_, rfl, (if_pos hq).symm, keeps.trans evolves⟩
          · rw [agree_second_of_more _ more]
            exact .inr ⟨_, next.remaining, rfl, less, keeps.trans evolves, rfl,
              .inl ⟨hq, aboveNext, rfl⟩⟩
        · have refused : compress.step () now (.atNode q) =
              (now, .done (.error (.indexOutOfBounds q forest.capacity))) := by
            rw [compress_atNode_of_le (capacity ▸ outside), capacity]
          simp only [agree, refused]
          exact .inl ⟨_, rfl, (if_neg (Nat.not_lt.mpr outside)).symm, keeps⟩
  exact ⟨after, ends, keeps⟩

/-- Comparing two nodes answers whether they have one leader, and keeps all sets; if one of them is
no node it is refused, the first such id being named. -/
theorem perform_sameSet (ordered : forest.Ordered) (p q : Nat) :
    ∃ after, (sameSet p q).perform forest =
        (if p < forest.capacity then forest.comparison p q
        else .error (.indexOutOfBounds p forest.capacity), after) ∧
      Keeps forest after := by
  have budget : 6 * walkBudget forest.capacity = 6 * forest.capacity + 5 + 1 := by
    unfold walkBudget
    omega
  by_cases hp : p < forest.capacity
  · obtain ⟨after, ends, keeps⟩ := alone_agree ordered q hp
      (show 2 * p + 1 + 2 * forest.capacity < 6 * walkBudget forest.capacity by omega)
    refine ⟨after, ?_, keeps⟩
    show (runAlone agree _ (.first q (.atNode p))).perform forest = _
    rw [runAlone, Guarded.perform_ofFunction, ends, if_pos hp]
  · refine ⟨forest, ?_, .refl ordered⟩
    have refused := compress_atNode_of_le (Nat.le_of_not_lt hp)
    show (runAlone agree (6 * walkBudget forest.capacity) (.first q (.atNode p))).perform forest = _
    rw [runAlone, Guarded.perform_ofFunction, budget, Machine.alone_succ, if_neg hp]
    simp only [agree, refused]

end Forest

end GraphAnalytics
