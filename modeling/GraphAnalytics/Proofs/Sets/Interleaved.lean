/-
# Interleaved calls on a forest

What the promises of the calls mean for the sets, in every state of every interleaving: sets only
grow, and exactly as far as the merges asked for connect their members; the smallest member of a set
is its root; walks answer roots and return; merges start over no more often than there are nodes.
The forest may start from any ordered parent array, which covers fresh and seeded ones.
-/

import GraphAnalytics.Proofs.Sets.Discipline

namespace GraphAnalytics.Forest

/-- A list of what workers do on a forest, in the order in which it happens. -/
abbrev History := List (Pool.Activity Request Unit)

def state (forest : Forest) (history : History) : Pool Forest Call (Except Violation Answer) :=
  Pool.after calls Request.entry forest history

def accesses (forest : Forest) (call : Nat) (history : History) : Nat :=
  (Pool.spent calls Request.entry forest cost call history).1

/-- How often a merge has started over. -/
def retries (forest : Forest) (call : Nat) (history : History) : Nat :=
  (Pool.spent calls Request.entry forest cost call history).2

def Asked (history : History) (i : Nat) (request : Request) : Prop :=
  (Pool.asked history)[i]? = some request

/-- The pairs that the merges of a history were asked for. -/
def Merges (history : History) (a b : Nat) : Prop := ∃ i, Asked history i (.union a b)

def Returned (start : Forest) (history : History) (i : Nat) (answer : Except Violation Answer) :
    Prop :=
  (state start history).calls[i]? = some (.done answer)

/-- The call with number `i` has begun and not returned. -/
def UnderWay (start : Forest) (history : History) (i : Nat) : Prop :=
  ∃ call, (state start history).calls[i]? = some (.more call)

/-- What is true of the sets after a history that began with the forest `start` and no calls. The
forest is ordered; nodes that were in one set at any earlier moment are in one set now; the nodes of
a merge that has returned are in one set, and nothing is but what the initial sets and the merges
asked for so far connect; and the smallest member of every set is its only root. A walk that has
returned answered a node that was the root of its argument's set at some moment at which the walk
was under way. A walk returns after a bounded number of accesses, and a merge starts over at most as
often as there are nodes, whatever the others do. -/
structure Coherent (start : Forest) (history : History) : Prop where
  ordered : (state start history).shared.Ordered
  together : ∀ before later, history = before ++ later → ∀ p q,
    (state start before).shared.Joined p q → (state start history).shared.Joined p q
  united : ∀ i p q answer, Asked history i (.union p q) → Returned start history i answer →
    answer = .ok .linked ∧ (state start history).shared.Joined p q
  generated : ∀ p q, (state start history).shared.Joined p q →
    start.Generated (Merges history) p q
  smallest : ∀ node < start.capacity, ∃ r, (state start history).shared.IsRoot r ∧
    (state start history).shared.Joined node r ∧
    (∀ other, (state start history).shared.Joined node other → r ≤ other) ∧
    ∀ other, (state start history).shared.IsRoot other →
      (state start history).shared.Joined node other → other = r
  found : ∀ i origin answer,
    Asked history i (.root origin) ∨ Asked history i (.find origin) →
    Returned start history i answer →
      ∃ r before later, answer = .ok (.root r) ∧ history = before ++ later ∧
        UnderWay start before i ∧
        (state start before).shared.IsRoot r ∧ (state start before).shared.Joined origin r
  bounded : ∀ i origin, Asked history i (.root origin) ∨ Asked history i (.find origin) →
    start.accesses i history ≤ 2 * origin + 1
  retried : ∀ i p q, Asked history i (.union p q) → start.retries i history ≤ start.capacity

section

variable {start : Forest} {before later : History}

theorem Asked.earlier {i : Nat} {request : Request} (asked : Asked (before ++ later) i request)
    {turn : Turn Call (Except Violation Answer)}
    (begun : (state start before).calls[i]? = some turn) : Asked before i request := by
  have opened : i < (Pool.asked before).length := by
    rw [← Pool.length_calls calls Request.entry start before]
    exact (List.getElem?_eq_some_iff.mp begun).1
  unfold Asked at asked ⊢
  rwa [Pool.asked_append, List.getElem?_append_left opened] at asked

/-- Every request of a history on existing nodes is allowed to merge what it asks for. -/
theorem allowed_of_asked {history : History}
    (inRange : ∀ i request, Asked history i request → request.InRange start.capacity) :
    ∀ request ∈ Pool.asked history,
      (discipline start.capacity (Merges history)).Allowed request := by
  intro request asks
  obtain ⟨i, asked⟩ := List.mem_iff_getElem?.mp asks
  exact ⟨inRange i request asked, fun p q same => ⟨i, same ▸ asked⟩⟩

variable (ordered : start.Ordered)
  (inRange : ∀ i request, Asked (before ++ later) i request → request.InRange start.capacity)

include ordered inRange

/-- In every state of an interleaving the calls keep their promises. -/
theorem kept_discipline :
    (discipline start.capacity (Merges (before ++ later))).Kept start before := by
  have sound : (discipline start.capacity (Merges (before ++ later))).Sound start := ⟨ordered, rfl⟩
  refine Pool.Discipline.kept sound fun request asks => allowed_of_asked inRange request ?_
  rw [Pool.asked_append]
  exact List.mem_append_left _ asks

/-- From any state of an interleaving to any later one the forest evolves as the merges allow. -/
theorem evolves_between :
    Evolves (Merges (before ++ later)) (state start before).shared
      (state start (before ++ later)).shared := by
  have sound : (discipline start.capacity (Merges (before ++ later))).Sound start := ⟨ordered, rfl⟩
  exact Pool.Discipline.evolves sound (allowed_of_asked inRange)

end

section

variable {start : Forest} {history : History} (ordered : start.Ordered)
  (inRange : ∀ i request, Asked history i request → request.InRange start.capacity)

include ordered inRange

theorem exists_turn {i : Nat} {request : Request} (asked : Asked history i request) :
    ∃ turn, (state start history).calls[i]? = some turn ∧
      Serves (state start history).shared request
        (start.accesses i history, start.retries i history) turn := by
  have opened : i < (state start history).calls.length := by
    rw [state, Pool.length_calls]
    exact (List.getElem?_eq_some_iff.mp asked).1
  have kept : (discipline start.capacity (Merges (history ++ []))).Kept start history :=
    kept_discipline ordered (by rwa [List.append_nil])
  exact ⟨_, List.getElem?_eq_getElem opened,
    kept.served i request _ asked (List.getElem?_eq_getElem opened)⟩

theorem serves_of_returned {i : Nat} {request : Request} {answer : Except Violation Answer}
    (asked : Asked history i request) (returned : Returned start history i answer) :
    Serves (state start history).shared request
      (start.accesses i history, start.retries i history) (.done answer) := by
  obtain ⟨turn, here, serves⟩ := exists_turn ordered inRange asked
  rw [Returned, here, Option.some.injEq] at returned
  exact returned ▸ serves

/-- The answer of a walk was the root of its argument's set when the walk made its last access. -/
theorem root_of_returned {i origin : Nat} {answer : Except Violation Answer}
    (asked : Asked history i (.root origin) ∨ Asked history i (.find origin))
    (returned : Returned start history i answer) :
    ∃ r before later, answer = .ok (.root r) ∧ history = before ++ later ∧
      UnderWay start before i ∧
      (state start before).shared.IsRoot r ∧ (state start before).shared.Joined origin r := by
  obtain ⟨before, luck, later, call, split, running, last⟩ :=
    Pool.exists_return calls Request.entry start returned
  subst split
  have kept := kept_discipline ordered inRange
  obtain ⟨request, walks, asks⟩ : ∃ request : Request,
      (request = .root origin ∨ request = .find origin) ∧
        Asked (before ++ .access i luck :: later) i request := by
    rcases asked with asks | asks
    · exact ⟨_, .inl rfl, asks⟩
    · exact ⟨_, .inr rfl, asks⟩
  have sound : (state start before).shared.Ordered ∧
      (state start before).shared.capacity = start.capacity := kept.sound
  have within : request.InRange (state start before).shared.capacity :=
    sound.2 ▸ inRange i request asks
  obtain ⟨rfl, root⟩ := answer_of_walk sound.1 walks within
    (kept.served i request _ (asks.earlier running) running) last
  have originInside : origin < (state start before).shared.capacity := by
    rcases walks with rfl | rfl <;> exact within
  exact ⟨_, before, _, rfl, rfl, ⟨call, running⟩, root,
    (sound.1.leader_smallest originInside).2.1⟩

theorem accesses_le {i origin : Nat}
    (asked : Asked history i (.root origin) ∨ Asked history i (.find origin)) :
    start.accesses i history ≤ 2 * origin + 1 := by
  rcases asked with asks | asks
  · obtain ⟨turn, -, serves⟩ := exists_turn ordered inRange asks
    have := serves.accesses_of_root
    omega
  · obtain ⟨turn, -, serves⟩ := exists_turn ordered inRange asks
    exact serves.accesses_of_find

theorem retries_le {i p q : Nat} (asked : Asked history i (.union p q)) :
    start.retries i history ≤ (state start history).shared.merged := by
  obtain ⟨turn, -, serves⟩ := exists_turn ordered inRange asked
  exact serves.retries_of_union

end

/-- Whatever workers ask of an ordered forest and however their accesses interleave, the sets are
coherent in every state. -/
theorem interleaved_calls_coherent {start : Forest} (ordered : start.Ordered) (history : History)
    (inRange : ∀ i request, Asked history i request → request.InRange start.capacity) :
    Coherent start history := by
  have evolves : Evolves (Merges ([] ++ history)) start (state start ([] ++ history)).shared :=
    evolves_between ordered inRange
  rw [List.nil_append] at evolves
  constructor
  case ordered => exact evolves.ordered
  case together =>
    rintro before later rfl p q joined
    exact (evolves_between ordered inRange).joined (kept_discipline ordered inRange).sound.1 joined
  case united =>
    intro i p q answer asked returned
    obtain ⟨ok, same, -⟩ := serves_of_returned ordered inRange asked returned
    obtain ⟨hp, hq⟩ := inRange i _ asked
    exact ⟨ok, (joined_iff evolves.ordered).mpr
      ⟨evolves.capacity ▸ hp, evolves.capacity ▸ hq, same⟩⟩
  case generated => exact evolves.generated
  case smallest =>
    intro node inside
    exact ⟨_, evolves.ordered.leader_smallest (evolves.capacity ▸ inside)⟩
  case found =>
    intro i origin answer asked returned
    exact root_of_returned ordered inRange asked returned
  case bounded =>
    intro i origin asked
    exact accesses_le ordered inRange asked
  case retried =>
    intro i p q asked
    exact (retries_le ordered inRange asked).trans
      ((merged_le_capacity _).trans_eq evolves.capacity)

/-- Two merges race for the cell of node `2`, and the one that loses starts over while a walk from
node `3` is under way. -/
def race : History :=
  [.ask (.union 3 2), .ask (.union 2 0), .access 0 (), .access 0 (), .access 0 (), .access 1 (),
    .access 1 (), .access 1 (), .ask (.find 3), .access 0 (), .access 2 (), .access 0 (),
    .access 0 (), .access 0 (), .access 0 (), .access 0 (), .access 2 (), .access 2 (),
    .access 2 ()]

/-- The race on four nodes of which `1` and `3` start in one set, as a common label seeds them. -/
theorem race_coherent :
    Ordered (PagedArray.set (.replicate 4 rootMark) 3 (1 : Nat)) ∧
      (∀ i request, Asked race i request → request.InRange 4) ∧
      retries (PagedArray.set (.replicate 4 rootMark) 3 (1 : Nat)) 0 race = 1 ∧
      Coherent (PagedArray.set (.replicate 4 rootMark) 3 (1 : Nat)) race := by
  have ordered : Ordered (PagedArray.set (.replicate 4 rootMark) 3 (1 : Nat)) :=
    (ordered_replicate 4).set (by decide)
  have inRange : ∀ i request, Asked race i request → request.InRange 4 := by
    intro i request asked
    have mem : request ∈ [Request.union 3 2, .union 2 0, .find 3] := List.mem_of_getElem? asked
    simp only [List.mem_cons, List.not_mem_nil, or_false] at mem
    rcases mem with rfl | rfl | rfl <;> simp [Request.InRange]
  exact ⟨ordered, inRange, by decide +kernel, interleaved_calls_coherent ordered race inRange⟩

end GraphAnalytics.Forest
