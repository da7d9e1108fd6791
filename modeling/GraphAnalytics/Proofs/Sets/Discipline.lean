/-
# What calls on a forest promise each other

Any number of workers walk and merge one forest at once, and every step is one read of a cell or one
exchange of a cell. The promises that the calls give each other are collected in one discipline
(`discipline`): the forest stays ordered, it only evolves as the requested merges allow, and every
call keeps to the sets of its arguments (`Serves`).

A merge that loses an exchange starts over. Between two losses of one call another root has become
somebody's child, and such nodes never become roots again, so they bound the losses.
-/

import GraphAnalytics.Proofs.Interleaving
import GraphAnalytics.Proofs.Sets.Calls
import Mathlib.Algebra.Group.Nat.Defs
import Mathlib.Algebra.Group.Prod
import Mathlib.Data.Finset.Card

namespace GraphAnalytics

namespace Forest

/-- What a worker asks of a forest: the root above a node, with or without shortening the path to
it, to merge the sets of two nodes, or whether two nodes have the same root. -/
inductive Request where
  | root (node : Nat)
  | find (node : Nat)
  | union (p q : Nat)
  | sameSet (p q : Nat)
  deriving DecidableEq

def Request.entry : Request → Call
  | .root node => .seekRoot node
  | .find node => .compress (.atNode node)
  | .union p q => .link (.first p q p)
  | .sameSet p q => .agree (.first q (.atNode p))

def Request.InRange (capacity : Nat) : Request → Prop
  | .root node | .find node => node < capacity
  | .union p q | .sameSet p q => p < capacity ∧ q < capacity

/-- An exchange of the cell of `node` that expects a root is lost. -/
def stale (forest : Forest) (node : Nat) : Nat := if forest.value node = rootMark then 0 else 1

/-- The cost of an access: it is one access, and it may lose an exchange that makes a merge start
over. -/
def cost (forest : Forest) : Call → Nat × Nat
  | .link (.join _ _ _ high) => (1, forest.stale high)
  | _ => (1, 0)

/-- The number of nodes that are not roots. -/
def merged (forest : Forest) : Nat :=
  ((Finset.range forest.capacity).filter fun node => forest.value node ≠ rootMark).card

/-! ### Losses -/

variable {pairs : Nat → Nat → Prop} {before after forest : Forest}

theorem merged_le_capacity (forest : Forest) : forest.merged ≤ forest.capacity :=
  (Finset.card_filter_le _ _).trans_eq (Finset.card_range _)

/-- If one more node is known not to be a root, that is paid for by the nodes that have ceased to be
roots. -/
theorem Evolves.merged_add_stale (evolves : Evolves pairs before after) {node lost : Nat}
    (inside : node < before.capacity) (paid : lost + before.stale node ≤ before.merged) :
    lost + after.stale node ≤ after.merged := by
  have subset : ((Finset.range before.capacity).filter fun n => before.value n ≠ rootMark) ⊆
      ((Finset.range after.capacity).filter fun n => after.value n ≠ rootMark) := by
    intro n h
    rw [Finset.mem_filter, Finset.mem_range] at h ⊢
    exact ⟨evolves.capacity ▸ h.1, fun root => h.2 (evolves.roots n h.1 root)⟩
  have grown := Finset.card_le_card subset
  unfold merged stale at *
  by_cases root : after.value node = rootMark
  · rw [if_pos root]
    omega
  · by_cases wasRoot : before.value node = rootMark
    · -- The node has just ceased to be a root.
      have strict := Finset.card_lt_card (Finset.ssubset_iff_subset_ne.mpr ⟨subset, fun equal => by
        have new :
            node ∈ (Finset.range after.capacity).filter fun n => after.value n ≠ rootMark := by
          rw [Finset.mem_filter, Finset.mem_range]
          exact ⟨evolves.capacity ▸ inside, root⟩
        rw [← equal, Finset.mem_filter] at new
        exact new.2 wasRoot⟩)
      rw [if_neg root]
      omega
    · rw [if_neg wasRoot] at paid
      rw [if_neg root]
      omega

theorem Evolves.merged_le (evolves : Evolves pairs before after) {lost : Nat}
    (paid : lost ≤ before.merged) : lost ≤ after.merged := by
  refine paid.trans (Finset.card_le_card ?_)
  intro n h
  rw [Finset.mem_filter, Finset.mem_range] at h ⊢
  exact ⟨evolves.capacity ▸ h.1, fun root => h.2 (evolves.roots n h.1 root)⟩

end Forest

/-- A merge has paid for the exchanges that it has lost, and for the one that it is bound to lose
because the root it remembers is none any more. -/
def Linking.Paid (forest : Forest) (lost : Nat) : Linking → Prop
  | .first .. => lost ≤ forest.merged
  | .second _ _ root _ => lost + forest.stale root ≤ forest.merged
  | .join _ _ _ high => lost + forest.stale high ≤ forest.merged

namespace Forest

variable {pairs : Nat → Nat → Prop} {before after forest : Forest}

/-- What a call that has spent so much has established for its request: its walk is in the set of
the argument and has not taken more accesses than the argument's id allows, and an answer is the
right one. -/
def Serves (forest : Forest) : Request → Nat × Nat → Turn Call (Except Violation Answer) → Prop
  | .root origin, used, .more (.seekRoot node) =>
      node < forest.capacity ∧ forest.leader node = forest.leader origin ∧
        used.1 + (node + 1) ≤ origin + 1
  | .root origin, used, .done answer =>
      (∃ r, answer = .ok (.root r)) ∧ used.1 ≤ origin + 1
  | .find origin, used, .more (.compress walk) =>
      walk.Above forest origin ∧ used.1 + walk.remaining ≤ 2 * origin + 1
  | .find origin, used, .done answer =>
      (∃ r, answer = .ok (.root r)) ∧ used.1 ≤ 2 * origin + 1
  | .union p q, used, .more (.link point) => point.Between forest p q ∧ point.Paid forest used.2
  | .union p q, used, .done answer =>
      answer = .ok .linked ∧ forest.leader p = forest.leader q ∧ used.2 ≤ forest.merged
  | .sameSet p q, _, .more (.agree point) => point.Between forest p q
  | .sameSet p q, _, .done answer =>
      ∃ same, answer = .ok (.agreed same) ∧ (same = true → forest.leader p = forest.leader q)
  | _, _, _ => False

namespace Serves

variable {used : Nat × Nat} {turn : Turn Call (Except Violation Answer)}

theorem accesses_of_root {origin : Nat} (serves : Serves forest (.root origin) used turn) :
    used.1 ≤ origin + 1 := by
  cases turn with
  | done answer => exact serves.2
  | more call =>
      cases call with
      | seekRoot node =>
          have := serves.2.2
          omega
      | compress | link | agree => exact serves.elim

theorem accesses_of_find {origin : Nat} (serves : Serves forest (.find origin) used turn) :
    used.1 ≤ 2 * origin + 1 := by
  cases turn with
  | done answer => exact serves.2
  | more call =>
      cases call with
      | compress walk => exact Nat.le_trans (Nat.le_add_right _ _) serves.2
      | seekRoot | link | agree => exact serves.elim

theorem retries_of_union {p q : Nat} (serves : Serves forest (.union p q) used turn) :
    used.2 ≤ forest.merged := by
  cases turn with
  | done answer => exact serves.2.2
  | more call =>
      cases call with
      | link point =>
          have paid := serves.2
          cases point with
          | first => exact paid
          | second => exact Nat.le_trans (Nat.le_add_right _ _) paid
          | join => exact Nat.le_trans (Nat.le_add_right _ _) paid
      | seekRoot | compress | agree => exact serves.elim

end Serves

/-! ### What calls have established lasts -/

namespace Evolves

theorem above (evolves : Evolves pairs before after) {origin : Nat} {walk : Compressing}
    (inside : origin < before.capacity) (above : walk.Above before origin) :
    walk.Above after origin := by
  have capacity := evolves.capacity
  cases walk with
  | atNode node =>
      obtain ⟨hnode, same⟩ := above
      exact ⟨capacity ▸ hnode, evolves.grows _ hnode _ inside same⟩
  | atParent node cell =>
      obtain ⟨parent, hcell, smaller, hnode, same, sameParent⟩ := above
      exact ⟨parent, hcell, smaller, capacity ▸ hnode, evolves.grows _ hnode _ inside same,
        evolves.grows _ (by omega) _ inside sameParent⟩
  | shortcut node cell above =>
      obtain ⟨parent, top, hcell, habove, below, smaller, hnode, same, sameTop⟩ := above
      exact ⟨parent, top, hcell, habove, below, smaller, capacity ▸ hnode,
        evolves.grows _ hnode _ inside same, evolves.grows _ (by omega) _ inside sameTop⟩

theorem between (evolves : Evolves pairs before after) {p q : Nat} {point : Linking}
    (hp : p < before.capacity) (hq : q < before.capacity) (between : point.Between before p q) :
    point.Between after p q := by
  have capacity := evolves.capacity
  cases point with
  | first p' q' node =>
      obtain ⟨sameP, sameQ, hnode, same⟩ := between
      exact ⟨sameP, sameQ, capacity ▸ hnode, evolves.grows _ hnode _ hp same⟩
  | second p' q' root node =>
      obtain ⟨sameP, sameQ, hroot, hnode, rootP, nodeQ⟩ := between
      exact ⟨sameP, sameQ, capacity ▸ hroot, capacity ▸ hnode, evolves.grows _ hroot _ hp rootP,
        evolves.grows _ hnode _ hq nodeQ⟩
  | join p' q' low high =>
      obtain ⟨sameP, sameQ, smaller, hhigh, ends⟩ := between
      have hlow : low < before.capacity := by omega
      refine ⟨sameP, sameQ, smaller, capacity ▸ hhigh, ends.imp ?_ ?_⟩
      · rintro ⟨lowP, highQ⟩
        exact ⟨evolves.grows _ hlow _ hp lowP, evolves.grows _ hhigh _ hq highQ⟩
      · rintro ⟨lowQ, highP⟩
        exact ⟨evolves.grows _ hlow _ hq lowQ, evolves.grows _ hhigh _ hp highP⟩

theorem paid (evolves : Evolves pairs before after) {p q lost : Nat} {point : Linking}
    (between : point.Between before p q) (paid : point.Paid before lost) :
    point.Paid after lost := by
  cases point with
  | first p' q' node => exact evolves.merged_le paid
  | second p' q' root node => exact evolves.merged_add_stale between.2.2.1 paid
  | join p' q' low high => exact evolves.merged_add_stale between.2.2.2.1 paid

theorem agreeing (evolves : Evolves pairs before after) {p q : Nat} {point : Agreeing}
    (hp : p < before.capacity) (hq : q < before.capacity) (between : point.Between before p q) :
    point.Between after p q := by
  cases point with
  | first q' walk => exact ⟨between.1, evolves.above hp between.2⟩
  | second root walk =>
      obtain ⟨hroot, same, above⟩ := between
      exact ⟨evolves.capacity ▸ hroot, evolves.grows _ hroot _ hp same, evolves.above hq above⟩

theorem serves (evolves : Evolves pairs before after) {request : Request} {used : Nat × Nat}
    {turn : Turn Call (Except Violation Answer)} (inRange : request.InRange before.capacity)
    (serves : Serves before request used turn) : Serves after request used turn := by
  cases request with
  | root origin =>
      cases turn with
      | done answer => exact serves
      | more call =>
          cases call with
          | seekRoot node =>
              obtain ⟨hnode, same, spent⟩ := serves
              exact ⟨evolves.capacity ▸ hnode, evolves.grows _ hnode _ inRange same, spent⟩
          | compress | link | agree => exact serves
  | find origin =>
      cases turn with
      | done answer => exact serves
      | more call =>
          cases call with
          | compress walk => exact ⟨evolves.above inRange serves.1, serves.2⟩
          | seekRoot | link | agree => exact serves
  | union p q =>
      cases turn with
      | done answer =>
          obtain ⟨ok, same, spent⟩ := serves
          exact ⟨ok, evolves.grows _ inRange.1 _ inRange.2 same, evolves.merged_le spent⟩
      | more call =>
          cases call with
          | link point =>
              exact ⟨evolves.between inRange.1 inRange.2 serves.1, evolves.paid serves.1 serves.2⟩
          | seekRoot | compress | agree => exact serves
  | sameSet p q =>
      cases turn with
      | done answer =>
          obtain ⟨same, ok, joined⟩ := serves
          exact ⟨same, ok, fun h => evolves.grows _ inRange.1 _ inRange.2 (joined h)⟩
      | more call =>
          cases call with
          | agree point => exact evolves.agreeing inRange.1 inRange.2 serves
          | seekRoot | compress | link => exact serves

end Evolves

/-! ### One access keeps what the call has established -/

theorem stale_of_root {node : Nat} (root : forest.value node = rootMark) : forest.stale node = 0 :=
  if_pos root

/-- A merge pays for the exchange that it loses. -/
theorem link_step_paid (ordered : forest.Ordered) {p q lost : Nat} {point : Linking}
    (between : point.Between forest p q) (paid : point.Paid forest lost)
    (evolves : Evolves pairs forest (link.step () forest point).1) :
    lost + (forest.cost (.link point)).2 ≤ (link.step () forest point).1.merged ∧
      ∀ next, (link.step () forest point).2 = .more next →
        next.Paid (link.step () forest point).1 (lost + (forest.cost (.link point)).2) := by
  cases point with
  | first p' q' node =>
      have hnode := between.2.2.1
      refine ⟨evolves.merged_le paid, fun next more => ?_⟩
      rcases ordered node hnode with root | ⟨parent, smaller, child⟩
      · rw [link_first_of_root _ _ ⟨hnode, root⟩] at more ⊢
        cases more
        simpa only [Linking.Paid, cost, stale_of_root root, Nat.add_zero] using paid
      · rw [link_first_of_child _ _ hnode child] at more ⊢
        cases more
        exact paid
  | second p' q' other node =>
      have hnode := between.2.2.2.1
      have spent : lost ≤ forest.merged := Nat.le_trans (Nat.le_add_right _ _) paid
      refine ⟨evolves.merged_le spent, fun next more => ?_⟩
      rcases ordered node hnode with root | ⟨parent, smaller, child⟩
      · by_cases equal : other = node
        · subst equal
          rw [link_second_of_same _ _ ⟨hnode, root⟩] at more
          cases more
        · rw [link_second_of_root _ _ ⟨hnode, root⟩ equal] at more ⊢
          cases more
          -- The larger of the two is either the remembered root or the one just read.
          rcases Nat.le_total other node with less | less
          · simpa only [Linking.Paid, cost, Nat.max_eq_right less, stale_of_root root,
              Nat.add_zero] using spent
          · simpa only [Linking.Paid, cost, Nat.max_eq_left less, Nat.add_zero] using paid
      · rw [link_second_of_child _ _ _ hnode child] at more ⊢
        cases more
        exact paid
  | join p' q' low high =>
      have hhigh := between.2.2.2.1
      by_cases root : forest.value high = rootMark
      · have merged := evolves.merged_le (show lost + forest.stale high ≤ forest.merged from paid)
        refine ⟨merged, fun next more => ?_⟩
        rw [link_join_of_root _ _ _ root] at more
        cases more
      · rw [link_join_of_child _ _ _ root]
        refine ⟨paid, fun next more => ?_⟩
        cases more
        exact paid

theorem lift_done {ℓ β : Type} (point : ℓ → Call) (answer : β → Answer)
    {result : Except Violation β}
    {step : Forest × Turn ℓ (Except Violation β)} (last : step.2 = .done result) :
    lift point answer step = (step.1, .done (result.map answer)) := by
  obtain ⟨forest, turn⟩ := step
  cases last
  rfl

theorem lift_more {ℓ β : Type} (point : ℓ → Call) (answer : β → Answer) {next : ℓ}
    {step : Forest × Turn ℓ (Except Violation β)} (more : step.2 = .more next) :
    lift point answer step = (step.1, .more (point next)) := by
  obtain ⟨forest, turn⟩ := step
  cases more
  rfl

/-- An access of any call keeps the forest sound and what the call has established. -/
theorem calls_step (ordered : forest.Ordered) {request : Request} {used : Nat × Nat} {call : Call}
    (pair : ∀ p q, request = .union p q → pairs p q) (inRange : request.InRange forest.capacity)
    (serves : Serves forest request used (.more call)) :
    Evolves pairs forest (calls.step () forest call).1 ∧
      Serves (calls.step () forest call).1 request (used + forest.cost call)
        (calls.step () forest call).2 := by
  cases request with
  | root origin =>
      cases call with
      | seekRoot node =>
          obtain ⟨hnode, same, spent⟩ := serves
          rcases seekRoot_step ordered hnode same with ⟨-, step⟩ | ⟨parent, smaller, up, step⟩
          · simp only [calls, step, lift, Except.map]
            refine ⟨.refl ordered, ⟨_, rfl⟩, ?_⟩
            simp only [cost, Prod.fst_add]
            omega
          · simp only [calls, step, lift]
            refine ⟨.refl ordered, Nat.lt_trans smaller hnode, up, ?_⟩
            simp only [cost, Prod.fst_add]
            omega
      | compress | link | agree => exact serves.elim
  | find origin =>
      cases call with
      | compress walk =>
          obtain ⟨above, spent⟩ := serves
          have positive := above.remaining_pos
          obtain ⟨evolves, ⟨-, last⟩ | ⟨next, more, aboveNext, less⟩⟩ :=
            compress_step ordered pairs inRange above
          · simp only [calls, lift_done _ _ last]
            refine ⟨evolves, ⟨_, rfl⟩, ?_⟩
            simp only [cost, Prod.fst_add]
            omega
          · simp only [calls, lift_more _ _ more]
            refine ⟨evolves, aboveNext, ?_⟩
            simp only [cost, Prod.fst_add]
            omega
      | seekRoot | link | agree => exact serves.elim
  | union p q =>
      cases call with
      | link point =>
          obtain ⟨between, paid⟩ := serves
          obtain ⟨evolves, result⟩ := link_step ordered (pair p q rfl) inRange.1 inRange.2 between
          obtain ⟨spent, paidNext⟩ := link_step_paid ordered between paid evolves
          rcases result with ⟨last, joined⟩ | ⟨next, more, betweenNext⟩
          · simp only [calls, lift_done _ _ last]
            exact ⟨evolves, rfl, joined, spent⟩
          · simp only [calls, lift_more _ _ more]
            exact ⟨evolves, betweenNext, paidNext next more⟩
      | seekRoot | compress | agree => exact serves.elim
  | sameSet p q =>
      cases call with
      | agree point =>
          obtain ⟨evolves, ⟨same, last, joined⟩ | ⟨next, more, betweenNext⟩⟩ :=
            agree_step ordered pairs inRange.1 inRange.2 serves
          · simp only [calls, lift_done _ _ last]
            exact ⟨evolves, same, rfl, joined⟩
          · simp only [calls, lift_more _ _ more]
            exact ⟨evolves, betweenNext⟩
      | seekRoot | compress | link => exact serves.elim

/-- Whatever walk was asked for, its last access finds the leader, which is a root at that moment.
-/
theorem answer_of_walk (ordered : forest.Ordered) {origin : Nat} {request : Request}
    (walks : request = .root origin ∨ request = .find origin) {used : Nat × Nat} {call : Call}
    (inRange : request.InRange forest.capacity) (serves : Serves forest request used (.more call))
    {answer : Except Violation Answer} (last : (calls.step () forest call).2 = .done answer) :
    answer = .ok (.root (forest.leader origin)) ∧ forest.IsRoot (forest.leader origin) := by
  rcases walks with rfl | rfl
  · cases call with
    | seekRoot node =>
        rcases seekRoot_step ordered serves.1 serves.2.1 with ⟨root, step⟩ | ⟨_, _, _, step⟩
        · simp only [calls, step, lift, Turn.done.injEq] at last
          exact ⟨last.symm, root⟩
        · simp [calls, step, lift] at last
    | compress | link | agree => exact serves.elim
  · cases call with
    | compress walk =>
        obtain ⟨-, ⟨root, done⟩ | ⟨next, more, -⟩⟩ :=
          compress_step ordered (fun _ _ => False) inRange serves.1
        · simp only [calls, lift_done _ _ done, Turn.done.injEq] at last
          exact ⟨last.symm, root⟩
        · simp [calls, lift_more _ _ more] at last
    | seekRoot | link | agree => exact serves.elim

/-! ### The discipline -/

/-- The promises of calls on a forest of the given capacity, when the given pairs are those that may
be merged. -/
def discipline (capacity : Nat) (pairs : Nat → Nat → Prop) :
    Pool.Discipline calls Request.entry cost where
  Allowed request := request.InRange capacity ∧ ∀ p q, request = .union p q → pairs p q
  Sound forest := forest.Ordered ∧ forest.capacity = capacity
  Evolves := Evolves pairs
  Serves request used forest turn := Serves forest request used turn
  evolves_refl sound := .refl sound.1
  evolves_trans := .trans
  enter {request forest} allowed sound := by
    obtain ⟨ordered, rfl⟩ := sound
    cases request with
    | root node => exact ⟨allowed.1, rfl, Nat.le_of_eq (Nat.zero_add _)⟩
    | find node => exact ⟨⟨allowed.1, rfl⟩, Nat.le_of_eq (Nat.zero_add _)⟩
    | union p q => exact ⟨⟨rfl, rfl, allowed.1.1, rfl⟩, Nat.zero_le _⟩
    | sameSet p q => exact ⟨rfl, allowed.1.1, rfl⟩
  step {request used forest call} _ allowed sound serves := by
    obtain ⟨ordered, rfl⟩ := sound
    obtain ⟨evolves, serves⟩ := calls_step ordered allowed.2 allowed.1 serves
    exact ⟨⟨evolves.ordered, evolves.capacity⟩, evolves, serves⟩
  stable {request used before after turn} allowed sound _ evolves serves := by
    obtain ⟨-, rfl⟩ := sound
    exact evolves.serves allowed.1 serves

end Forest

end GraphAnalytics
