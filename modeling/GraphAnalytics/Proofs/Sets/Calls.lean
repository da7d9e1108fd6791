/-
# Single accesses to a forest

What one access of each kind of call does to an ordered forest and to the call. Walks and shortcuts
leave all leaders as they are (`compress_step`); only the exchange with which a merge succeeds joins
two sets, and those are the sets of the two nodes it was asked to merge (`link_step`).

A call remembers ids that it read some time ago, and the cells behind them may have changed since.
What stays true of such an id is that it is in the set of the call's argument: sets only grow. The
predicates `Compressing.Above` and `Linking.Between` say this for every point of a call.
-/

import GraphAnalytics.Proofs.Sets.Leader
import Mathlib.Logic.Relation

namespace GraphAnalytics

theorem value_eq_of_eqvGen {α β : Type} {step : α → α → Prop} {value : α → β}
    (keeps : ∀ p q, step p q → value p = value q) {p q : α} (related : Relation.EqvGen step p q) :
    value p = value q := by
  have equivalence : Equivalence fun p q => value p = value q := ⟨fun _ => rfl, Eq.symm, Eq.trans⟩
  exact equivalence.eqvGen_iff.mp (Relation.EqvGen.mono keeps p q related)

theorem eqvGen_of_steps {α : Type} {small large : α → α → Prop}
    (within : ∀ p q, small p q → Relation.EqvGen large p q) {p q : α}
    (related : Relation.EqvGen small p q) : Relation.EqvGen large p q :=
  (Relation.EqvGen.is_equivalence large).eqvGen_iff.mp (Relation.EqvGen.mono within p q related)

/-- A compressing walk that set out from `origin` is still in its set. -/
def Compressing.Above (forest : Forest) (origin : Nat) : Compressing → Prop
  | .atNode node => node < forest.capacity ∧ forest.leader node = forest.leader origin
  | .atParent node cell => ∃ parent : Nat, cell = parent ∧ parent < node ∧ node < forest.capacity ∧
      forest.leader node = forest.leader origin ∧ forest.leader parent = forest.leader origin
  | .shortcut node cell above => ∃ parent top : Nat, cell = parent ∧ above = top ∧
      top < parent ∧ parent < node ∧ node < forest.capacity ∧
      forest.leader node = forest.leader origin ∧ forest.leader top = forest.leader origin

def Compressing.remaining : Compressing → Nat
  | .atNode node => 2 * node + 1
  | .atParent node _ => 2 * node
  | .shortcut node _ _ => 2 * node - 1

def Linking.Between (forest : Forest) (p q : Nat) : Linking → Prop
  | .first p' q' node =>
      p' = p ∧ q' = q ∧ node < forest.capacity ∧ forest.leader node = forest.leader p
  | .second p' q' root node =>
      p' = p ∧ q' = q ∧ root < forest.capacity ∧ node < forest.capacity ∧
        forest.leader root = forest.leader p ∧ forest.leader node = forest.leader q
  | .join p' q' low high =>
      p' = p ∧ q' = q ∧ low < high ∧ high < forest.capacity ∧
        (forest.leader low = forest.leader p ∧ forest.leader high = forest.leader q ∨
          forest.leader low = forest.leader q ∧ forest.leader high = forest.leader p)

/-- A comparison of the roots of `p` and `q` is still in their sets. -/
def Agreeing.Between (forest : Forest) (p q : Nat) : Agreeing → Prop
  | .first q' walk => q' = q ∧ walk.Above forest p
  | .second root walk =>
      root < forest.capacity ∧ forest.leader root = forest.leader p ∧ walk.Above forest q

theorem Compressing.Above.remaining_pos {forest : Forest} {origin : Nat} {walk : Compressing}
    (above : walk.Above forest origin) : 0 < walk.remaining := by
  cases walk with
  | atNode node => exact Nat.succ_pos _
  | atParent node cell =>
      obtain ⟨parent, -, smaller, -⟩ := above
      simp only [remaining]
      omega
  | shortcut node cell above =>
      obtain ⟨parent, top, -, -, -, smaller, -⟩ := above
      simp only [remaining]
      omega

namespace Forest

/-- The equivalence generated by the sets of a forest and further pairs of nodes. -/
def Generated (forest : Forest) (pairs : Nat → Nat → Prop) : Nat → Nat → Prop :=
  Relation.EqvGen fun p q => forest.Joined p q ∨ pairs p q

/-- One forest evolves into another by calls that were asked to merge the given pairs: it stays
ordered, sets only grow, roots do not come back, and nothing is joined but what the pairs account
for. -/
structure Evolves (pairs : Nat → Nat → Prop) (before after : Forest) : Prop where
  capacity : after.capacity = before.capacity
  ordered : after.Ordered
  grows : ∀ p < before.capacity, ∀ q < before.capacity,
    before.leader p = before.leader q → after.leader p = after.leader q
  roots : ∀ node < before.capacity, after.value node = rootMark → before.value node = rootMark
  generated : ∀ p q, after.Joined p q → before.Generated pairs p q

theorem generated_of_joined {forest : Forest} {pairs : Nat → Nat → Prop} {p q : Nat}
    (h : forest.Joined p q) : forest.Generated pairs p q := .rel _ _ (.inl h)

namespace Evolves

variable {pairs : Nat → Nat → Prop} {before between after : Forest}

theorem refl (ordered : before.Ordered) : Evolves pairs before before where
  capacity := rfl
  ordered := ordered
  grows _ _ _ _ same := same
  roots _ _ root := root
  generated _ _ := generated_of_joined

theorem trans (first : Evolves pairs before between) (second : Evolves pairs between after) :
    Evolves pairs before after where
  capacity := second.capacity.trans first.capacity
  ordered := second.ordered
  grows p hp q hq same := second.grows p (first.capacity ▸ hp) q (first.capacity ▸ hq)
    (first.grows p hp q hq same)
  roots node h root := first.roots node h (second.roots node (first.capacity ▸ h) root)
  generated p q joined := by
    refine eqvGen_of_steps (fun a b step => ?_) (second.generated p q joined)
    rcases step with joined | pair
    · exact first.generated a b joined
    · exact .rel _ _ (.inr pair)

theorem joined (evolves : Evolves pairs before after) (ordered : before.Ordered) {p q : Nat}
    (h : before.Joined p q) : after.Joined p q := by
  obtain ⟨hp, hq, same⟩ := (joined_iff ordered).mp h
  exact (joined_iff evolves.ordered).mpr
    ⟨evolves.capacity ▸ hp, evolves.capacity ▸ hq, evolves.grows p hp q hq same⟩

theorem shortcut (ordered : before.Ordered) {node above : Nat} (smaller : above < node)
    (sameSet : before.leader above = before.leader node) :
    Evolves pairs before (before.set node (above : Int)) where
  capacity := rfl
  ordered := ordered.set smaller
  grows p hp q hq same := by
    rw [ordered.leader_shortcut smaller sameSet hp, ordered.leader_shortcut smaller sameSet hq,
      same]
  roots other h root := by
    rw [Cells.value_set] at root
    split at root
    · exact absurd root (natCast_ne_rootMark above)
    · exact root
  generated p q joined := by
    obtain ⟨hp, hq, same⟩ := (joined_iff (ordered.set smaller)).mp joined
    rw [ordered.leader_shortcut smaller sameSet hp,
      ordered.leader_shortcut smaller sameSet hq] at same
    exact generated_of_joined ((joined_iff ordered).mpr ⟨hp, hq, same⟩)

/-- Pointing a root at a smaller node joins the two sets, which the pair behind the merge accounts
for. -/
theorem merge (ordered : before.Ordered) {p q low high : Nat} (pair : pairs p q)
    (hp : p < before.capacity) (hq : q < before.capacity) (smaller : low < high)
    (root : before.IsRoot high)
    (ends : before.leader low = before.leader p ∧ before.leader high = before.leader q ∨
      before.leader low = before.leader q ∧ before.leader high = before.leader p) :
    Evolves pairs before (before.set high (low : Int)) where
  capacity := rfl
  ordered := ordered.set smaller
  grows a ha b hb same := by
    rw [ordered.leader_merge smaller root.2 ha, ordered.leader_merge smaller root.2 hb, same]
  roots other h isRoot := by
    rw [Cells.value_set] at isRoot
    split at isRoot
    · exact absurd isRoot (natCast_ne_rootMark low)
    · exact isRoot
  generated a b joined := by
    have hlow : low < before.capacity := Nat.lt_trans smaller root.1
    have same {x y : Nat} (hx : x < before.capacity) (hy : y < before.capacity)
        (h : before.leader x = before.leader y) : before.Generated pairs x y :=
      generated_of_joined ((joined_iff ordered).mpr ⟨hx, hy, h⟩)
    have bridge : before.Generated pairs high low := by
      have across : before.Generated pairs p q := .rel _ _ (.inr pair)
      rcases ends with ⟨lowP, highQ⟩ | ⟨lowQ, highP⟩
      · exact (same root.1 hq highQ).trans _ _ _
          ((across.symm _ _).trans _ _ _ (same hp hlow lowP.symm))
      · exact (same root.1 hp highP).trans _ _ _ (across.trans _ _ _ (same hq hlow lowQ.symm))
    -- Every node is related to the leader that it has afterwards.
    have toLeader {x : Nat} (hx : x < before.capacity) :
        before.Generated pairs x (leader (before.set high (low : Int)) x) := by
      rw [ordered.leader_merge smaller root.2 hx]
      split
      · next under =>
          have up := same hx root.1 (under.trans (leader_eq_self root.2).symm)
          have down := same hlow (ordered.leader_lt hlow) (ordered.leader_leader hlow).symm
          exact up.trans _ _ _ (bridge.trans _ _ _ down)
      · exact same hx (ordered.leader_lt hx) (ordered.leader_leader hx).symm
    obtain ⟨ha, hb, equal⟩ := (joined_iff (ordered.set smaller)).mp joined
    exact (toLeader ha).trans _ _ _ (equal ▸ (toLeader hb).symm _ _)

end Evolves

/-! ### Walks -/

variable {forest : Forest}

/-- An access of a walk that writes nothing: it ends at the leader or goes on at a smaller member of
the set. -/
theorem seekRoot_step (ordered : forest.Ordered) {origin node : Nat}
    (inside : node < forest.capacity) (same : forest.leader node = forest.leader origin) :
    (forest.IsRoot (forest.leader origin) ∧
        seekRoot.step () forest node = (forest, .done (.ok (forest.leader origin)))) ∨
      ∃ parent < node, forest.leader parent = forest.leader origin ∧
        seekRoot.step () forest node = (forest, .more parent) := by
  rcases ordered node inside with root | ⟨parent, smaller, child⟩
  · left
    rw [← same, leader_eq_self root]
    exact ⟨⟨inside, root⟩, seekRoot_step_of_root ⟨inside, root⟩⟩
  · right
    exact ⟨parent, smaller, (leader_eq_leader child smaller).symm.trans same,
      seekRoot_step_of_child inside child⟩

theorem compress_atNode_of_root {node : Nat} (root : forest.IsRoot node) :
    compress.step () forest (.atNode node) = (forest, .done (.ok node)) := by
  simp only [compress, readCell_of_lt root.1, root.2, if_pos]

theorem compress_atNode_of_child {node parent : Nat} (inside : node < forest.capacity)
    (child : forest.value node = (parent : Int)) :
    compress.step () forest (.atNode node) = (forest, .more (.atParent node parent)) := by
  simp only [compress, readCell_of_lt inside, child, natCast_ne_rootMark, if_false]

theorem compress_atParent_of_root (node : Nat) {parent : Nat} (root : forest.IsRoot parent) :
    compress.step () forest (.atParent node parent) = (forest, .done (.ok parent)) := by
  simp only [compress, ofSigned_natCast, readCell_of_lt root.1, root.2, if_pos]

theorem compress_atParent_of_child (node : Nat) {parent top : Nat}
    (inside : parent < forest.capacity) (child : forest.value parent = (top : Int)) :
    compress.step () forest (.atParent node parent) =
      (forest, .more (.shortcut node parent top)) := by
  simp only [compress, ofSigned_natCast, readCell_of_lt inside, child, natCast_ne_rootMark,
    if_false]

theorem compress_shortcut (forest : Forest) (node parent top : Nat) :
    compress.step () forest (.shortcut node parent top) =
      (if forest.value node = parent then forest.set node (top : Int) else forest,
        .more (.atNode top)) := by
  simp only [compress, ofSigned_natCast, Cells.compareExchange_snd]

/-- An access of a compressing walk: it leaves all leaders as they are, and it ends the walk at the
leader or brings its end nearer. -/
theorem compress_step (ordered : forest.Ordered) (pairs : Nat → Nat → Prop) {origin : Nat}
    {walk : Compressing} (inside : origin < forest.capacity) (above : walk.Above forest origin) :
    Evolves pairs forest (compress.step () forest walk).1 ∧
      (forest.IsRoot (forest.leader origin) ∧
          (compress.step () forest walk).2 = .done (.ok (forest.leader origin)) ∨
        ∃ next, (compress.step () forest walk).2 = .more next ∧
          next.Above (compress.step () forest walk).1 origin ∧
          next.remaining < walk.remaining) := by
  cases walk with
  | atNode node =>
      obtain ⟨hnode, same⟩ := above
      rcases ordered node hnode with root | ⟨parent, smaller, child⟩
      · rw [compress_atNode_of_root ⟨hnode, root⟩, ← same, leader_eq_self root]
        exact ⟨.refl ordered, .inl ⟨⟨hnode, root⟩, rfl⟩⟩
      · rw [compress_atNode_of_child hnode child]
        refine ⟨.refl ordered, .inr ⟨_, rfl, ?_, ?_⟩⟩
        · exact ⟨parent, rfl, smaller, hnode, same,
            (leader_eq_leader child smaller).symm.trans same⟩
        · simp only [Compressing.remaining]
          omega
  | atParent node cell =>
      obtain ⟨parent, rfl, smaller, hnode, same, sameParent⟩ := above
      have hparent : parent < forest.capacity := by omega
      rcases ordered parent hparent with root | ⟨top, below, child⟩
      · rw [compress_atParent_of_root node ⟨hparent, root⟩, ← sameParent, leader_eq_self root]
        exact ⟨.refl ordered, .inl ⟨⟨hparent, root⟩, rfl⟩⟩
      · rw [compress_atParent_of_child node hparent child]
        refine ⟨.refl ordered, .inr ⟨_, rfl, ?_, ?_⟩⟩
        · exact ⟨parent, top, rfl, rfl, below, smaller, hnode, same,
            (leader_eq_leader child below).symm.trans sameParent⟩
        · simp only [Compressing.remaining]
          omega
  | shortcut node cell above =>
      obtain ⟨parent, top, rfl, rfl, below, smaller, hnode, same, sameTop⟩ := above
      have htop : top < forest.capacity := by omega
      rw [compress_shortcut]
      refine ⟨?_, .inr ⟨_, rfl, ?_, ?_⟩⟩
      · split
        · exact .shortcut ordered (by omega) (sameTop.trans same.symm)
        · exact .refl ordered
      · -- The exchange may have failed, and the node read above may be no ancestor any more; but it
        -- is in the set, and that is all the walk needs.
        dsimp only
        split
        · have kept {other : Nat} (h : other < forest.capacity) :=
            ordered.leader_shortcut (show top < node by omega) (sameTop.trans same.symm) h
          exact ⟨htop, by rw [kept htop, kept inside, sameTop]⟩
        · exact ⟨htop, sameTop⟩
      · simp only [Compressing.remaining]
        omega

/-! ### Merges -/

theorem link_first_of_root (p q : Nat) {node : Nat} (root : forest.IsRoot node) :
    link.step () forest (.first p q node) = (forest, .more (.second p q node q)) := by
  simp only [link, readCell_of_lt root.1, root.2, parentOf_rootMark]

theorem link_first_of_child (p q : Nat) {node parent : Nat} (inside : node < forest.capacity)
    (child : forest.value node = (parent : Int)) :
    link.step () forest (.first p q node) = (forest, .more (.first p q parent)) := by
  simp only [link, readCell_of_lt inside, child, parentOf_natCast]

theorem link_second_of_same (p q : Nat) {node : Nat} (root : forest.IsRoot node) :
    link.step () forest (.second p q node node) = (forest, .done (.ok ())) := by
  simp only [link, readCell_of_lt root.1, root.2, parentOf_rootMark, if_pos]

theorem link_second_of_root (p q : Nat) {other node : Nat} (root : forest.IsRoot node)
    (different : other ≠ node) :
    link.step () forest (.second p q other node) =
      (forest, .more (.join p q (min other node) (max other node))) := by
  simp only [link, readCell_of_lt root.1, root.2, parentOf_rootMark, different, if_false]

theorem link_second_of_child (p q other : Nat) {node parent : Nat} (inside : node < forest.capacity)
    (child : forest.value node = (parent : Int)) :
    link.step () forest (.second p q other node) = (forest, .more (.second p q other parent)) := by
  simp only [link, readCell_of_lt inside, child, parentOf_natCast]

theorem link_join_of_root (p q low : Nat) {high : Nat} (root : forest.value high = rootMark) :
    link.step () forest (.join p q low high) = (forest.set high (low : Int), .done (.ok ())) := by
  simp only [link, Cells.compareExchange, root, if_pos]

theorem link_join_of_child (p q low : Nat) {high : Nat} (child : forest.value high ≠ rootMark) :
    link.step () forest (.join p q low high) = (forest, .more (.first p q p)) := by
  simp only [link, Cells.compareExchange, child, if_false]

/-- An access of a merge: it ends the merge with the two nodes in one set, or the merge goes on in
their sets. -/
theorem link_step (ordered : forest.Ordered) {pairs : Nat → Nat → Prop} {p q : Nat}
    (pair : pairs p q) (hp : p < forest.capacity) (hq : q < forest.capacity) {point : Linking}
    (between : point.Between forest p q) :
    Evolves pairs forest (link.step () forest point).1 ∧
      ((link.step () forest point).2 = .done (.ok ()) ∧
          leader (link.step () forest point).1 p = leader (link.step () forest point).1 q ∨
        ∃ next, (link.step () forest point).2 = .more next ∧
          next.Between (link.step () forest point).1 p q) := by
  cases point with
  | first p' q' node =>
      obtain ⟨rfl, rfl, hnode, same⟩ := between
      rcases ordered node hnode with root | ⟨parent, smaller, child⟩
      · rw [link_first_of_root _ _ ⟨hnode, root⟩]
        exact ⟨.refl ordered, .inr ⟨_, rfl, rfl, rfl, hnode, hq, same, rfl⟩⟩
      · rw [link_first_of_child _ _ hnode child]
        exact ⟨.refl ordered, .inr ⟨_, rfl, rfl, rfl, Nat.lt_trans smaller hnode,
          (leader_eq_leader child smaller).symm.trans same⟩⟩
  | second p' q' other node =>
      obtain ⟨rfl, rfl, hother, hnode, sameP, sameQ⟩ := between
      rcases ordered node hnode with root | ⟨parent, smaller, child⟩
      · by_cases equal : other = node
        · subst equal
          rw [link_second_of_same _ _ ⟨hnode, root⟩]
          exact ⟨.refl ordered, .inl ⟨rfl, sameP.symm.trans sameQ⟩⟩
        · rw [link_second_of_root _ _ ⟨hnode, root⟩ equal]
          refine ⟨.refl ordered,
            .inr ⟨_, rfl, rfl, rfl, by omega, Nat.max_lt.mpr ⟨hother, hnode⟩, ?_⟩⟩
          rcases Nat.lt_or_gt_of_ne equal with less | less
          · rw [Nat.min_eq_left (Nat.le_of_lt less), Nat.max_eq_right (Nat.le_of_lt less)]
            exact .inl ⟨sameP, sameQ⟩
          · rw [Nat.min_eq_right (Nat.le_of_lt less), Nat.max_eq_left (Nat.le_of_lt less)]
            exact .inr ⟨sameQ, sameP⟩
      · rw [link_second_of_child _ _ _ hnode child]
        exact ⟨.refl ordered, .inr ⟨_, rfl, rfl, rfl, hother, Nat.lt_trans smaller hnode, sameP,
          (leader_eq_leader child smaller).symm.trans sameQ⟩⟩
  | join p' q' low high =>
      obtain ⟨rfl, rfl, smaller, hhigh, ends⟩ := between
      by_cases root : forest.value high = rootMark
      · rw [link_join_of_root _ _ _ root]
        refine ⟨.merge ordered pair hp hq smaller ⟨hhigh, root⟩ ends, .inl ⟨rfl, ?_⟩⟩
        have under := leader_eq_self root
        have apart : forest.leader low ≠ high := by
          have := ordered.leader_le (show low < forest.capacity by omega)
          omega
        rw [ordered.leader_merge smaller root hp, ordered.leader_merge smaller root hq]
        rcases ends with ⟨lowP, highQ⟩ | ⟨lowQ, highP⟩
        · rw [← lowP, ← highQ, under, if_neg apart, if_pos rfl]
        · rw [← lowQ, ← highP, under, if_neg apart, if_pos rfl]
      · rw [link_join_of_child _ _ _ root]
        exact ⟨.refl ordered, .inr ⟨_, rfl, rfl, rfl, hp, rfl⟩⟩

/-! ### Comparisons -/

theorem agree_first_of_done (q : Nat) {walk : Compressing} {root : Nat}
    (last : (compress.step () forest walk).2 = .done (.ok root)) :
    agree.step () forest (.first q walk) =
      ((compress.step () forest walk).1, .more (.second root (.atNode q))) := by
  simp only [agree]
  split <;> simp_all

theorem agree_first_of_more (q : Nat) {walk next : Compressing}
    (more : (compress.step () forest walk).2 = .more next) :
    agree.step () forest (.first q walk) =
      ((compress.step () forest walk).1, .more (.first q next)) := by
  simp only [agree]
  split <;> simp_all

theorem agree_second_of_done (root : Nat) {walk : Compressing} {other : Nat}
    (last : (compress.step () forest walk).2 = .done (.ok other)) :
    agree.step () forest (.second root walk) =
      ((compress.step () forest walk).1, .done (.ok (root == other))) := by
  simp only [agree]
  split <;> simp_all

theorem agree_second_of_more (root : Nat) {walk next : Compressing}
    (more : (compress.step () forest walk).2 = .more next) :
    agree.step () forest (.second root walk) =
      ((compress.step () forest walk).1, .more (.second root next)) := by
  simp only [agree]
  split <;> simp_all

/-- An access of a comparison: it ends with an answer that is not wrongly positive, or it goes on in
the sets of the two nodes. -/
theorem agree_step (ordered : forest.Ordered) (pairs : Nat → Nat → Prop) {p q : Nat}
    (hp : p < forest.capacity) (hq : q < forest.capacity) {point : Agreeing}
    (between : point.Between forest p q) :
    Evolves pairs forest (agree.step () forest point).1 ∧
      ((∃ same, (agree.step () forest point).2 = .done (.ok same) ∧
          (same = true → leader (agree.step () forest point).1 p =
            leader (agree.step () forest point).1 q)) ∨
        ∃ next, (agree.step () forest point).2 = .more next ∧
          next.Between (agree.step () forest point).1 p q) := by
  cases point with
  | first q' walk =>
      obtain ⟨rfl, above⟩ := between
      obtain ⟨evolves, ⟨root, last⟩ | ⟨next, more, aboveNext, -⟩⟩ :=
        compress_step ordered pairs hp above
      · rw [agree_first_of_done q' last]
        refine ⟨evolves, .inr ⟨_, rfl, ?_, ?_, ?_, rfl⟩⟩
        · exact evolves.capacity ▸ root.1
        · exact evolves.grows _ root.1 _ hp (ordered.leader_leader hp)
        · exact evolves.capacity ▸ hq
      · rw [agree_first_of_more q' more]
        exact ⟨evolves, .inr ⟨_, rfl, rfl, aboveNext⟩⟩
  | second other walk =>
      obtain ⟨hother, same, above⟩ := between
      obtain ⟨evolves, ⟨root, last⟩ | ⟨next, more, aboveNext, -⟩⟩ :=
        compress_step ordered pairs hq above
      · rw [agree_second_of_done other last]
        refine ⟨evolves, .inl ⟨_, rfl, fun equal => ?_⟩⟩
        have found : other = forest.leader q := by simpa using equal
        refine evolves.grows _ hp _ hq ?_
        rw [← same, found, ordered.leader_leader hq]
      · rw [agree_second_of_more other more]
        exact ⟨evolves, .inr ⟨_, rfl, evolves.capacity ▸ hother, evolves.grows _ hother _ hp same,
          aboveNext⟩⟩

end Forest

end GraphAnalytics
