/-
# Comparisons among merges

A comparison seeks the root of its first node and then the root of its second, and others may merge
sets in between. What it answers is whether the root that it found first is the root of the second
node when its last access is made (`Compared.settled`). A positive answer is therefore always true:
the two nodes have a root in common at that moment, and sets only grow. A negative answer says less.
If the set of both nodes was merged into the set of a smaller node between the two walks, they end
at different roots although the nodes were in one set all along, and that is the only way in which a
comparison of two members of one set goes wrong.

The walks never wait for anybody, so a comparison returns after as many turns as the ids of its
nodes allow.
-/

import GraphAnalytics.Proofs.Sets.Alone
import GraphAnalytics.Proofs.Sets.Interleaved

namespace GraphAnalytics

/-- The accesses that a comparison may still need. -/
def Agreeing.remaining : Agreeing → Nat
  | .first q walk => walk.remaining + (2 * q + 1)
  | .second _ walk => walk.remaining

namespace Forest

/-- The accesses that a call may still need. Merges that lose exchanges have no such bound. -/
def Call.remaining : Call → Nat
  | .seekRoot node => node + 1
  | .compress walk => walk.remaining
  | .agree point => point.remaining
  | .link _ => 0

def RootOf (forest : Forest) (r node : Nat) : Prop := forest.IsRoot r ∧ forest.Joined node r

variable {forest : Forest}

theorem rootOf_iff (ordered : forest.Ordered) {r node : Nat} :
    forest.RootOf r node ↔ node < forest.capacity ∧ forest.leader node = r := by
  constructor
  · rintro ⟨root, joined⟩
    obtain ⟨inside, -, same⟩ := (joined_iff ordered).mp joined
    exact ⟨inside, same.trans (leader_eq_self root.2)⟩
  · rintro ⟨inside, rfl⟩
    obtain ⟨root, joined, -⟩ := ordered.leader_smallest inside
    exact ⟨root, joined⟩

end Forest

/-- What one access makes of a comparison of `p` and `q`: the walk to the first root goes on or
finds it, and then the walk to the second root goes on, or finds it and compares the two. -/
inductive Agreeing.Steps (forest : Forest) (p q : Nat) :
    Agreeing → Turn Agreeing (Except Violation Bool) → Prop
  | seek {walk next : Compressing} (nearer : next.remaining < walk.remaining) :
      Steps forest p q (.first q walk) (.more (.first q next))
  | turn {walk : Compressing} {r : Nat} (last : 0 < walk.remaining) (root : forest.RootOf r p) :
      Steps forest p q (.first q walk) (.more (.second r (.atNode q)))
  | seekOther {r : Nat} {walk next : Compressing} (nearer : next.remaining < walk.remaining) :
      Steps forest p q (.second r walk) (.more (.second r next))
  | answer {r : Nat} {walk : Compressing} :
      Steps forest p q (.second r walk) (.done (.ok (r == forest.leader q)))

namespace Agreeing

variable {forest : Forest} {p q : Nat} {point : Agreeing}

/-- Every access brings a comparison nearer to its end. -/
theorem Steps.nearer {next : Agreeing} (steps : point.Steps forest p q (.more next)) :
    next.remaining < point.remaining := by
  cases steps with
  | seek nearer => exact Nat.add_lt_add_right nearer _
  | turn last _ => exact Nat.lt_add_of_pos_left last
  | seekOther nearer => exact nearer

theorem Between.remaining_pos (between : point.Between forest p q) : 0 < point.remaining := by
  cases point with
  | first q' walk => exact Nat.add_pos_right _ (Nat.succ_pos _)
  | second root walk => exact between.2.2.remaining_pos

end Agreeing

namespace Forest

/-! ### One access of a comparison -/

variable {p q : Nat} {point : Agreeing}

theorem agree_steps (ordered : forest.Ordered) (hp : p < forest.capacity)
    (hq : q < forest.capacity) (between : point.Between forest p q) :
    point.Steps forest p q (agree.step () forest point).2 := by
  cases point with
  | first q' walk =>
      obtain ⟨rfl, above⟩ := between
      obtain ⟨-, ⟨-, last⟩ | ⟨next, more, -, nearer⟩⟩ := compress_step ordered noPairs hp above
      · rw [agree_first_of_done q' last]
        exact .turn above.remaining_pos ((rootOf_iff ordered).mpr ⟨hp, rfl⟩)
      · rw [agree_first_of_more q' more]
        exact .seek nearer
  | second root walk =>
      obtain ⟨-, -, above⟩ := between
      obtain ⟨-, ⟨-, last⟩ | ⟨next, more, -, nearer⟩⟩ := compress_step ordered noPairs hq above
      · rw [agree_second_of_done root last]
        exact .answer
      · rw [agree_second_of_more root more]
        exact .seekOther nearer

theorem lift_eq_more {ℓ β : Type} {point : ℓ → Call} {answer : β → Answer} {next : Call}
    {step : Forest × Turn ℓ (Except Violation β)} (more : (lift point answer step).2 = .more next) :
    ∃ inner, step.2 = .more inner ∧ next = point inner := by
  obtain ⟨forest, inner | result⟩ := step
  · exact ⟨inner, rfl, (Turn.more.inj more).symm⟩
  · cases more

theorem lift_eq_done {ℓ β : Type} {point : ℓ → Call} {answer : β → Answer}
    {result : Except Violation Answer} {step : Forest × Turn ℓ (Except Violation β)}
    (last : (lift point answer step).2 = .done result) :
    ∃ inner, step.2 = .done inner ∧ result = inner.map answer := by
  obtain ⟨forest, next | inner⟩ := step
  · cases last
  · exact ⟨inner, rfl, (Turn.done.inj last).symm⟩

theorem Request.entry_ne_second (request : Request) (r : Nat) (walk : Compressing) :
    request.entry ≠ .agree (.second r walk) := by
  cases request <;> nofun

theorem Serves.comparing {used : Nat × Nat} {call : Call}
    (serves : Serves forest (.sameSet p q) used (.more call)) :
    ∃ point, call = .agree point ∧ point.Between forest p q := by
  cases call with
  | agree point => exact ⟨point, rfl, serves⟩
  | seekRoot | compress | link => exact serves.elim

/-! ### What comparisons answer -/

/-- What is true of the comparison of `p` and `q` that is asked for after the history `before`, when
`later` has happened since. It returns after so many turns of its own, whatever the others do, and
its positive answer is true. It answers whether what was the root of `p` at a first moment is the
root of `q` at a second one, both while it was under way. So if the nodes were in one set when it
was asked for, and the root of that set is a root still, it can only answer that they are. -/
structure Compared (start : Forest) (before later : History) (p q : Nat) : Prop where
  returns : 2 * p + 2 * q + 2 ≤ Pool.turns (Pool.asked before).length later →
    ∃ same, Returned start (before ++ .ask (.sameSet p q) :: later) (Pool.asked before).length
      (.ok (.agreed same))
  truthful : Returned start (before ++ .ask (.sameSet p q) :: later) (Pool.asked before).length
      (.ok (.agreed true)) →
    (state start (before ++ .ask (.sameSet p q) :: later)).shared.Joined p q
  settled : ∀ answer,
    Returned start (before ++ .ask (.sameSet p q) :: later) (Pool.asked before).length answer →
    ∃ same r first second, answer = .ok (.agreed same) ∧
      first <+: second ∧ second <+: before ++ .ask (.sameSet p q) :: later ∧
      UnderWay start first (Pool.asked before).length ∧
      UnderWay start second (Pool.asked before).length ∧
      (state start first).shared.RootOf r p ∧
      (same = true ↔ (state start second).shared.RootOf r q) ∧
      ((state start before).shared.Joined p q →
        (same = true ↔ (state start second).shared.IsRoot r))
  steady : ∀ r, (state start before).shared.RootOf r p → (state start before).shared.RootOf r q →
    (state start (before ++ .ask (.sameSet p q) :: later)).shared.IsRoot r → ∀ answer,
    Returned start (before ++ .ask (.sameSet p q) :: later) (Pool.asked before).length answer →
      answer = .ok (.agreed true)

section

variable {start : Forest} {history : History} (ordered : start.Ordered)
  (inRange : ∀ i request, Asked history i request → request.InRange start.capacity)

theorem Asked.of_initial {earlier later : History} (le : earlier <+: later) {i : Nat}
    {request : Request} (asked : Asked earlier i request) : Asked later i request := by
  obtain ⟨rest, rfl⟩ := le
  have opened := (List.getElem?_eq_some_iff.mp asked).1
  unfold Asked
  rw [Pool.asked_append, List.getElem?_append_left opened]
  exact asked

/-- If a call that was asked for after `before` has begun, then what has happened includes `before`.
-/
theorem prefix_of_begun {before moment : History} (le : before <+: history)
    (le' : moment <+: history) {turn : Turn Call (Except Violation Answer)}
    (begun : (state start moment).calls[(Pool.asked before).length]? = some turn) :
    before <+: moment := by
  rcases List.prefix_or_prefix_of_prefix le le' with earlier | ⟨rest, rfl⟩
  · exact earlier
  · have opened := (List.getElem?_eq_some_iff.mp begun).1
    rw [state, Pool.length_calls, Pool.asked_append, List.length_append] at opened
    omega

include ordered inRange

theorem evolves_of_initial {earlier later : History} (le : earlier <+: later)
    (le' : later <+: history) :
    Evolves (Merges later) (state start earlier).shared (state start later).shared := by
  obtain ⟨rest, rfl⟩ := le
  exact evolves_between ordered fun i request asked => inRange i request (asked.of_initial le')

theorem kept_of_initial {moment : History} (le : moment <+: history) :
    (discipline start.capacity (Merges moment)).Kept start moment := by
  have kept : (discipline start.capacity (Merges (moment ++ []))).Kept start moment :=
    kept_discipline ordered fun i request asked =>
      inRange i request (Asked.of_initial le (by rwa [List.append_nil] at asked))
  rwa [List.append_nil] at kept


variable {before later : History} {i p q : Nat}

/-- A comparison that has been given as many turns as its walks have accesses has returned. -/
theorem compared_returns (split : history = before ++ .ask (.sameSet p q) :: later)
    (enough : 2 * p + 2 * q + 2 ≤ Pool.turns (Pool.asked before).length later) :
    ∃ same, Returned start history (Pool.asked before).length (.ok (.agreed same)) := by
  subst split
  have asks : Asked _ _ _ := Pool.getElem?_asked_ask before later (Request.sameSet p q)
  obtain ⟨hp, hq⟩ := inRange _ _ asks
  have kept := kept_of_initial ordered inRange (List.prefix_refl _)
  obtain ⟨turn, here, serves⟩ := exists_turn ordered inRange asks
  cases turn with
  | done answer =>
      obtain ⟨same, rfl, -⟩ := serves
      exact ⟨same, here⟩
  | more call =>
      obtain ⟨point, rfl, between⟩ := serves.comparing
      -- It cannot be under way: nothing would remain of it.
      have left := Pool.Discipline.remaining_add_turns_le
        (d := discipline start.capacity (Merges _)) ⟨ordered, rfl⟩ (allowed_of_asked inRange)
        Call.remaining ?_ here
      · replace left : point.remaining + Pool.turns (Pool.asked before).length later ≤
            2 * p + 1 + (2 * q + 1) := left
        have := between.remaining_pos
        omega
      · intro used forest call next luck sound serves more
        obtain ⟨ordered, capacity⟩ := sound
        obtain ⟨point, rfl, between⟩ := Serves.comparing serves
        obtain ⟨inner, step, rfl⟩ := lift_eq_more more
        have steps := agree_steps ordered (capacity ▸ hp) (capacity ▸ hq) between
        rw [step] at steps
        exact steps.nearer

/-- Whenever the comparison is under way, its next access is one of a comparison of these nodes. -/
theorem steps_of_running (asks : Asked history i (.sameSet p q)) {moment : History}
    (le : moment <+: history) {call : Call}
    (running : (state start moment).calls[i]? = some (.more call)) :
    ∃ point, call = .agree point ∧ ∀ turn,
      (agree.step () (state start moment).shared point).2 = turn →
        point.Steps (state start moment).shared p q turn := by
  have kept := kept_of_initial ordered inRange le
  obtain ⟨hp, hq⟩ := inRange _ _ asks
  have asked : Asked moment i (.sameSet p q) := by
    obtain ⟨rest, rfl⟩ := le
    exact asks.earlier running
  obtain ⟨ordered, capacity⟩ := kept.sound
  obtain ⟨point, rfl, between⟩ := (kept.served _ _ _ asked running).comparing
  refine ⟨point, rfl, ?_⟩
  rintro _ rfl
  exact agree_steps ordered (capacity ▸ hp) (capacity ▸ hq) between

/-- The answer of a comparison depends on two moments at which it was under way: what was the root
of its first node at the one is compared with the root of its second node at the other. -/
theorem exists_moments (asks : Asked history i (.sameSet p q)) {answer : Except Violation Answer}
    (returned : Returned start history i answer) :
    ∃ r first second, first <+: second ∧ second <+: history ∧ UnderWay start first i ∧
      UnderWay start second i ∧ (state start first).shared.RootOf r p ∧
      answer = .ok (.agreed (r == (state start second).shared.leader q)) := by
  obtain ⟨second, luck, rest, call, whole, running, last⟩ :=
    Pool.exists_return calls Request.entry start returned
  have leSecond : second <+: history := whole ▸ List.prefix_append _ _
  obtain ⟨point, rfl, steps⟩ := steps_of_running ordered inRange asks leSecond running
  obtain ⟨result, step, rfl⟩ := lift_eq_done last
  cases steps _ step with
  | @answer r walk =>
      -- The root that the comparison remembers is the one with which it began its second walk.
      obtain ⟨first, luck, rest, call, part, running', notYet, arrives⟩ :=
        Pool.exists_arrival calls Request.entry start
          (fun turn => ∃ walk, turn = .more (.agree (.second r walk)))
          (fun request _ ⟨walk, enters⟩ =>
            request.entry_ne_second r walk (Turn.more.inj enters)) running ⟨walk, rfl⟩
      have leFirst : first <+: second := part ▸ List.prefix_append _ _
      obtain ⟨point, rfl, steps⟩ :=
        steps_of_running ordered inRange asks (leFirst.trans leSecond) running'
      obtain ⟨onward, arrives⟩ := arrives
      obtain ⟨next, step, same⟩ := lift_eq_more arrives
      obtain rfl := Call.agree.inj same
      refine ⟨r, first, second, leFirst, leSecond, ⟨_, running'⟩, ⟨_, running⟩, ?_, rfl⟩
      cases steps _ step with
      | turn _ root => exact root
      | seekOther _ => exact absurd ⟨_, rfl⟩ notYet

/-- What was a root at one moment and is one later was one at every moment in between. -/
theorem isRoot_of_initial {earlier moment : History} (le : earlier <+: moment)
    (le' : moment <+: history) {r : Nat} (inside : r < start.capacity)
    (root : (state start moment).shared.IsRoot r) : (state start earlier).shared.IsRoot r := by
  have capacity : (state start earlier).shared.capacity = start.capacity :=
    (kept_of_initial ordered inRange (le.trans le')).sound.2
  have evolves := evolves_of_initial ordered inRange le le'
  exact ⟨capacity ▸ inside, evolves.roots r (capacity ▸ inside) root.2⟩

/-- The root of a node's set at one moment is its root later if it is a root then. -/
theorem rootOf_of_initial {earlier moment : History} (le : earlier <+: moment)
    (le' : moment <+: history) {r node : Nat} (was : (state start earlier).shared.RootOf r node)
    (root : (state start moment).shared.IsRoot r) : (state start moment).shared.RootOf r node :=
  have sound := (kept_of_initial ordered inRange (le.trans le')).sound
  ⟨root, (evolves_of_initial ordered inRange le le').joined sound.1 was.2⟩

end

/-- Whatever calls run beside it on an ordered forest, a comparison returns, its positive answers
are true, and members of one set are told apart only if their root is merged between its two walks.
-/
theorem comparison_settled {start : Forest} (ordered : start.Ordered) (before later : History)
    (p q : Nat)
    (inRange : ∀ i request, Asked (before ++ .ask (.sameSet p q) :: later) i request →
      request.InRange start.capacity) :
    Compared start before later p q := by
  have asks : Asked (before ++ .ask (.sameSet p q) :: later) (Pool.asked before).length
    (.sameSet p q) := Pool.getElem?_asked_ask before later _
  obtain ⟨hp, hq⟩ := inRange _ _ asks
  have le : before <+: before ++ .ask (.sameSet p q) :: later := List.prefix_append _ _
  have sound {moment : History} (le : moment <+: before ++ .ask (.sameSet p q) :: later) :
      (state start moment).shared.Ordered ∧
        (state start moment).shared.capacity = start.capacity :=
    (kept_of_initial ordered inRange le).sound
  have since {moment : History} (le' : moment <+: before ++ .ask (.sameSet p q) :: later)
      (underWay : UnderWay start moment (Pool.asked before).length) : before <+: moment := by
    obtain ⟨call, running⟩ := underWay
    exact prefix_of_begun le le' running
  constructor
  case returns => exact compared_returns ordered inRange rfl
  case truthful =>
    intro returned
    obtain ⟨same, agreed, joined⟩ := serves_of_returned ordered inRange asks returned
    cases agreed
    obtain ⟨now, capacity⟩ := sound (List.prefix_refl _)
    exact (joined_iff now).mpr ⟨capacity ▸ hp, capacity ▸ hq, joined rfl⟩
  case settled =>
    intro answer returned
    obtain ⟨r, first, second, le₁, le₂, runs₁, runs₂, root, rfl⟩ :=
      exists_moments ordered inRange asks returned
    obtain ⟨now, capacity⟩ := sound le₂
    have same : (r == (state start second).shared.leader q) = true ↔
        (state start second).shared.RootOf r q := by
      rw [rootOf_iff now, beq_iff_eq, eq_comm, and_iff_right (capacity ▸ hq)]
    refine ⟨_, r, first, second, rfl, le₁, le₂, runs₁, runs₂, root, same, fun joined => ?_⟩
    refine same.trans ⟨And.left, fun still => ?_⟩
    have ofP := rootOf_of_initial ordered inRange le₁ le₂ root still
    have together := (evolves_of_initial ordered inRange (since le₂ runs₂) le₂).joined
      (sound le).1 joined
    rw [rootOf_iff now] at ofP ⊢
    exact ⟨capacity ▸ hq, ((joined_iff now).mp together).2.2.symm.trans ofP.2⟩
  case steady =>
    intro r ofP ofQ still answer returned
    obtain ⟨found, first, second, le₁, le₂, runs₁, runs₂, root, rfl⟩ :=
      exists_moments ordered inRange asks returned
    have rootAt {moment : History} (le' : moment <+: before ++ .ask (.sameSet p q) :: later) :
        (state start moment).shared.IsRoot r := by
      refine isRoot_of_initial ordered inRange le' (List.prefix_refl _) ?_ still
      exact (sound (List.prefix_refl _)).2 ▸ still.1
    have leFirst := le₁.trans le₂
    have first_eq := ((rootOf_iff (sound leFirst).1).mp root).2
    have ofFirst := rootOf_of_initial ordered inRange (since leFirst runs₁) leFirst ofP
      (rootAt leFirst)
    have ofSecond := rootOf_of_initial ordered inRange (since le₂ runs₂) le₂ ofQ (rootAt le₂)
    rw [rootOf_iff (sound leFirst).1] at ofFirst
    rw [rootOf_iff (sound le₂).1] at ofSecond
    rw [← first_eq, ofFirst.2, ofSecond.2, beq_self_eq_true]

def paired : Forest := PagedArray.set (.replicate 3 rootMark) 2 (1 : Nat)

/-- While `1` and `2` are compared, their set is merged into that of `0`, after the first root has
been found and before the second is sought. -/
def overtaking : History :=
  [.access 0 (), .ask (.union 0 1), .access 1 (), .access 1 (), .access 1 (), .access 0 (),
    .access 0 (), .access 0 (), .access 0 ()]

theorem ordered_paired : paired.Ordered := (ordered_replicate 3).set (by decide)

theorem inRange_overtaking (i : Nat) (request : Request)
    (asked : Asked (.ask (.sameSet 1 2) :: overtaking) i request) :
    request.InRange paired.capacity := by
  have mem : request ∈ [Request.sameSet 1 2, .union 0 1] := List.mem_of_getElem? asked
  simp only [List.mem_cons, List.not_mem_nil, or_false] at mem
  rcases mem with rfl | rfl <;> exact ⟨by decide, by decide⟩

theorem returned_overtaking :
    Returned paired (.ask (.sameSet 1 2) :: overtaking) 0 (.ok (.agreed false)) := rfl

/-- Nodes that are in one set when a comparison begins, and all the time until it returns, can be
told apart. -/
theorem overtaken_comparison :
    paired.Ordered ∧
      (∀ i request, Asked (.ask (.sameSet 1 2) :: overtaking) i request →
        request.InRange paired.capacity) ∧
      (state paired []).shared.Joined 1 2 ∧
      Returned paired (.ask (.sameSet 1 2) :: overtaking) 0 (.ok (.agreed false)) ∧
      (state paired (.ask (.sameSet 1 2) :: overtaking)).shared.Joined 1 2 :=
  ⟨ordered_paired, inRange_overtaking, ⟨1, by decide +kernel, by decide +kernel⟩,
    returned_overtaking, ⟨0, by decide +kernel, by decide +kernel⟩⟩

/-- The comparison that was overtaken remembers a root that is none any more when it returns. -/
theorem comparison_settled_overtaken :
    paired.Ordered ∧
      (∀ i request, Asked (.ask (.sameSet 1 2) :: overtaking) i request →
        request.InRange paired.capacity) ∧
      Compared paired [] overtaking 1 2 ∧
      ∃ r first second, first <+: second ∧ second <+: .ask (.sameSet 1 2) :: overtaking ∧
        (state paired first).shared.RootOf r 1 ∧ ¬ (state paired second).shared.IsRoot r := by
  have compared : Compared paired [] overtaking 1 2 :=
    comparison_settled ordered_paired [] overtaking 1 2 inRange_overtaking
  have together : (state paired []).shared.Joined 1 2 :=
    ⟨1, by decide +kernel, by decide +kernel⟩
  obtain ⟨same, r, first, second, agreed, le, le', -, -, root, -, merged⟩ :=
    compared.settled _ returned_overtaking
  cases agreed
  exact ⟨ordered_paired, inRange_overtaking, compared, r, first, second, le, le', root,
    fun still => Bool.false_ne_true ((merged together).mpr still)⟩

end Forest

end GraphAnalytics
