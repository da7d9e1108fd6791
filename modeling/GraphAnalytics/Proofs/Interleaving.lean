/-
# Interleaved calls under a discipline

The calls of a pool come from requests, and whatever happens in a pool is a list of activities:
somebody makes a request, or one call makes its next access. A `Discipline` is what each call
promises the others and what it relies on: the store stays sound, it only evolves in a certain way,
and what a call has established for its request is not undone when the store evolves. A discipline
is checked for single accesses (`step`, `stable`) and then holds in every state of every
interleaving (`Discipline.kept`).

A discipline may also count. Every access has a cost, and what a call has spent so far is part of
what it establishes, so a bound on retries or on accesses is one more invariant.
-/

import GraphAnalytics.Interleaving
import Mathlib.Algebra.Group.Defs
import Mathlib.Data.List.Induction

namespace GraphAnalytics.Pool

variable {ρ χ σ ℓ α κ : Type}

/-- Something that happens in a pool: somebody makes a request, which opens the next call, or a call
makes its next access. -/
inductive Activity (ρ χ : Type) where
  | ask (request : ρ)
  | access (call : Nat) (luck : χ)

/-- The move behind an activity, if a call on a request enters at the given point. -/
def Activity.move (entry : ρ → ℓ) : Activity ρ χ → Move χ ℓ
  | .ask request => .start (entry request)
  | .access call luck => .access call luck

theorem apply_access (m : Machine χ σ ℓ α) {pool : Pool σ ℓ α} {call : Nat} {point : ℓ} (luck : χ)
    (running : pool.calls[call]? = some (.more point)) :
    pool.apply m (.access call luck) =
      ⟨(m.step luck pool.shared point).1,
        pool.calls.set call (m.step luck pool.shared point).2⟩ := by
  rw [apply, running]

theorem apply_resting (m : Machine χ σ ℓ α) {pool : Pool σ ℓ α} {call : Nat} (luck : χ)
    (resting : ∀ point, pool.calls[call]? ≠ some (.more point)) :
    pool.apply m (.access call luck) = pool := by
  rw [apply]
  split
  · next point running => exact absurd running (resting point)
  · rfl

/-- The requests of a history. The call with number `i` serves request `i`. -/
def asked (history : List (Activity ρ χ)) : List ρ :=
  history.filterMap fun
    | .ask request => some request
    | .access _ _ => none

@[simp] theorem asked_nil : asked ([] : List (Activity ρ χ)) = [] := rfl

@[simp] theorem asked_append (before later : List (Activity ρ χ)) :
    asked (before ++ later) = asked before ++ asked later := List.filterMap_append

@[simp] theorem asked_ask (request : ρ) : asked [(.ask request : Activity ρ χ)] = [request] := rfl

@[simp] theorem asked_access (call : Nat) (luck : χ) :
    asked [(.access call luck : Activity ρ χ)] = [] := rfl

/-- A request opens the call whose number is that of the requests before it. -/
theorem getElem?_asked_ask (before later : List (Activity ρ χ)) (request : ρ) :
    (asked (before ++ .ask request :: later))[(asked before).length]? = some request := by
  rw [asked_append, List.getElem?_append_right (Nat.le_refl _), Nat.sub_self]
  rfl

def turns (call : Nat) (history : List (Activity ρ χ)) : Nat :=
  history.countP fun
    | .access mover _ => mover == call
    | .ask _ => false

theorem turns_concat (call : Nat) (history : List (Activity ρ χ)) (activity : Activity ρ χ) :
    turns call (history ++ [activity]) = turns call history + turns call [activity] :=
  List.countP_append

@[simp] theorem turns_access (call : Nat) (luck : χ) :
    turns call [(.access call luck : Activity ρ χ)] = 1 := by
  simp [turns]

section History

variable (m : Machine χ σ ℓ α) (entry : ρ → ℓ) (store : σ)

def after (history : List (Activity ρ χ)) : Pool σ ℓ α :=
  replay m ⟨store, []⟩ (history.map (Activity.move entry))

@[simp] theorem after_nil : after m entry store ([] : List (Activity ρ χ)) = ⟨store, []⟩ := rfl

theorem after_concat (history : List (Activity ρ χ)) (activity : Activity ρ χ) :
    after m entry store (history ++ [activity]) =
      (after m entry store history).apply m (activity.move entry) := by
  simp [after, replay]

def charge [Zero κ] (cost : σ → ℓ → κ) (call : Nat) (pool : Pool σ ℓ α) : Activity ρ χ → κ
  | .ask _ => 0
  | .access mover _ =>
      if mover = call then
        match pool.calls[call]? with
        | some (.more point) => cost pool.shared point
        | _ => 0
      else 0

/-- What a call has spent in a history that begins in the given pool. -/
def spentFrom [AddMonoid κ] (cost : σ → ℓ → κ) (call : Nat) :
    Pool σ ℓ α → List (Activity ρ χ) → κ
  | _, [] => 0
  | pool, activity :: history =>
      charge cost call pool activity +
        spentFrom cost call (pool.apply m (activity.move entry)) history

/-- What a call has spent in a history that begins without calls. -/
def spent [AddMonoid κ] (cost : σ → ℓ → κ) (call : Nat) (history : List (Activity ρ χ)) : κ :=
  spentFrom m entry cost call ⟨store, []⟩ history

theorem spentFrom_concat [AddMonoid κ] (cost : σ → ℓ → κ) (call : Nat) (pool : Pool σ ℓ α)
    (history : List (Activity ρ χ)) (activity : Activity ρ χ) :
    spentFrom m entry cost call pool (history ++ [activity]) =
      spentFrom m entry cost call pool history +
        charge cost call (pool.replay m (history.map (Activity.move entry))) activity := by
  induction history generalizing pool with
  | nil => simp [spentFrom]
  | cons first history ih =>
      simp only [List.cons_append, spentFrom, ih, List.map_cons, replay_cons, add_assoc]

theorem spent_concat [AddMonoid κ] (cost : σ → ℓ → κ) (call : Nat)
    (history : List (Activity ρ χ)) (activity : Activity ρ χ) :
    spent m entry store cost call (history ++ [activity]) =
      spent m entry store cost call history +
        charge cost call (after m entry store history) activity :=
  spentFrom_concat m entry cost call ⟨store, []⟩ history activity

theorem length_calls (history : List (Activity ρ χ)) :
    (after m entry store history).calls.length = (asked history).length := by
  induction history using List.reverseRecOn with
  | nil => rfl
  | append_singleton history activity ih =>
      rw [after_concat, asked_append]
      cases activity with
      | ask request => simp [apply, Activity.move, ih]
      | access call luck =>
          simp only [apply, Activity.move, asked_access, List.append_nil]
          split
          · rw [List.length_set, ih]
          · exact ih

theorem spent_eq_zero [AddMonoid κ] (cost : σ → ℓ → κ) {call : Nat}
    {history : List (Activity ρ χ)} (unopened : (asked history).length ≤ call) :
    spent m entry store cost call history = 0 := by
  induction history using List.reverseRecOn with
  | nil => rfl
  | append_singleton history activity ih =>
      rw [asked_append, List.length_append] at unopened
      rw [spent_concat, ih (by omega), zero_add]
      cases activity with
      | ask request => rfl
      | access mover luck =>
          have absent : (after m entry store history).calls[call]? = none := by
            rw [List.getElem?_eq_none_iff, length_calls]
            omega
          simp only [charge, absent, ite_self]

/-- What one activity makes of a call that has begun: the call stays where it is, and then the
activity was no access that it could make, or it has made its next access. -/
theorem calls_concat {history : List (Activity ρ χ)} {activity : Activity ρ χ} {call : Nat}
    (begun : call < (asked history).length) {turn : Turn ℓ α}
    (here : (after m entry store (history ++ [activity])).calls[call]? = some turn) :
    (after m entry store history).calls[call]? = some turn ∧
        (∀ luck point, activity = .access call luck → turn ≠ .more point) ∨
      ∃ luck point, activity = .access call luck ∧
        (after m entry store history).calls[call]? = some (.more point) ∧
        (m.step luck (after m entry store history).shared point).2 = turn := by
  rw [← length_calls m entry store history] at begun
  rw [after_concat] at here
  cases activity with
  | ask request =>
      simp only [apply, Activity.move, List.getElem?_append_left begun] at here
      exact .inl ⟨here, fun luck point access => by cases access⟩
  | access mover luck =>
      by_cases same : mover = call
      · subst same
        simp only [apply, Activity.move] at here
        split at here
        · next point running =>
            rw [List.getElem?_set_self begun, Option.some.injEq] at here
            exact .inr ⟨luck, point, rfl, running, here⟩
        · next resting =>
            refine .inl ⟨here, fun _ point _ more => ?_⟩
            exact resting point (more ▸ here)
      · refine .inl ⟨?_, fun _ _ access => ?_⟩
        · simp only [apply, Activity.move] at here
          split at here
          · rwa [List.getElem?_set_ne same] at here
          · exact here
        · exact absurd (Activity.access.inj access).1 same

/-- A call that has just begun is at the point at which its request enters. -/
theorem calls_concat_of_unopened {history : List (Activity ρ χ)} {activity : Activity ρ χ}
    {call : Nat} (unopened : (asked history).length ≤ call) {turn : Turn ℓ α}
    (here : (after m entry store (history ++ [activity])).calls[call]? = some turn) :
    ∃ request, (asked (history ++ [activity]))[call]? = some request ∧
      turn = .more (entry request) := by
  have opened := (List.getElem?_eq_some_iff.mp here).1
  rw [length_calls, asked_append, List.length_append] at opened
  cases activity with
  | ask request =>
      obtain rfl : call = (asked history).length := by
        rw [asked_ask, List.length_singleton] at opened
        omega
      rw [after_concat, ← length_calls m entry store history] at here
      simp only [apply, Activity.move, List.getElem?_concat_length, Option.some.injEq] at here
      refine ⟨request, ?_, here.symm⟩
      rw [asked_append, asked_ask, List.getElem?_concat_length]
  | access mover luck =>
      rw [asked_access, List.length_nil] at opened
      omega

/-- A call that has come to a place at which no call enters came there by one of its accesses. -/
theorem exists_arrival (There : Turn ℓ α → Prop) {history : List (Activity ρ χ)} {call : Nat}
    (outside : ∀ request, (asked history)[call]? = some request → ¬ There (.more (entry request)))
    {turn : Turn ℓ α} (here : (after m entry store history).calls[call]? = some turn)
    (there : There turn) :
    ∃ before luck later point, history = before ++ .access call luck :: later ∧
      (after m entry store before).calls[call]? = some (.more point) ∧ ¬ There (.more point) ∧
      There (m.step luck (after m entry store before).shared point).2 := by
  induction history using List.reverseRecOn generalizing turn with
  | nil => simp at here
  | append_singleton history activity ih =>
      by_cases begun : call < (asked history).length
      · have outsideBefore : ∀ request, (asked history)[call]? = some request →
            ¬ There (.more (entry request)) := by
          intro request asks
          refine outside request ?_
          rw [asked_append, List.getElem?_append_left begun, asks]
        -- If the call was there already, it arrived earlier.
        have earlier {turn : Turn ℓ α}
            (here : (after m entry store history).calls[call]? = some turn) (there : There turn) :
            ∃ before luck later point,
              history ++ [activity] = before ++ .access call luck :: later ∧
              (after m entry store before).calls[call]? = some (.more point) ∧
              ¬ There (.more point) ∧
              There (m.step luck (after m entry store before).shared point).2 := by
          obtain ⟨before, luck, later, point, split, rest⟩ := ih outsideBefore here there
          exact ⟨before, luck, later ++ [activity], point, by simp [split], rest⟩
        rcases calls_concat m entry store begun here with
          ⟨stays, -⟩ | ⟨luck, point, rfl, running, rfl⟩
        · exact earlier stays there
        · by_cases already : There (.more point)
          · exact earlier running already
          · exact ⟨history, luck, [], point, rfl, running, already, there⟩
      · obtain ⟨request, asks, rfl⟩ :=
          calls_concat_of_unopened m entry store (Nat.le_of_not_lt begun) here
        exact absurd there (outside request asks)

/-- A call that has returned made its last access at some moment of the history. -/
theorem exists_return {history : List (Activity ρ χ)} {call : Nat} {answer : α}
    (returned : (after m entry store history).calls[call]? = some (.done answer)) :
    ∃ before luck later point, history = before ++ .access call luck :: later ∧
      (after m entry store before).calls[call]? = some (.more point) ∧
      (m.step luck (after m entry store before).shared point).2 = .done answer := by
  obtain ⟨before, luck, later, point, split, running, -, last⟩ :=
    exists_arrival m entry store (· = .done answer) (fun _ _ => nofun) returned rfl
  exact ⟨before, luck, later, point, split, running, last⟩

end History

/-- What the calls of a pool promise each other. Only some requests are allowed. Every access keeps
the store sound and lets it evolve as it may. A call that has spent so many accesses has established
something for its request, and the accesses of others leave that standing. -/
structure Discipline [AddMonoid κ] (m : Machine χ σ ℓ α) (entry : ρ → ℓ)
    (cost : σ → ℓ → κ) where
  Allowed : ρ → Prop
  Sound : σ → Prop
  Evolves : σ → σ → Prop
  Serves : ρ → κ → σ → Turn ℓ α → Prop
  evolves_refl : ∀ {s : σ}, Sound s → Evolves s s
  evolves_trans : ∀ {r s t : σ}, Evolves r s → Evolves s t → Evolves r t
  enter : ∀ {request : ρ} {s : σ}, Allowed request → Sound s →
    Serves request 0 s (.more (entry request))
  step : ∀ {request : ρ} {used : κ} {s : σ} {point : ℓ} (luck : χ), Allowed request → Sound s →
    Serves request used s (.more point) →
      Sound (m.step luck s point).1 ∧ Evolves s (m.step luck s point).1 ∧
        Serves request (used + cost s point) (m.step luck s point).1 (m.step luck s point).2
  stable : ∀ {request : ρ} {used : κ} {s t : σ} {turn : Turn ℓ α}, Allowed request → Sound s →
    Sound t → Evolves s t → Serves request used s turn → Serves request used t turn

namespace Discipline

variable [AddMonoid κ] {m : Machine χ σ ℓ α} {entry : ρ → ℓ} {cost : σ → ℓ → κ}
  (d : Discipline m entry cost) {store : σ}

/-- The discipline holds in the state after a history: the store is sound, and every call serves its
request. -/
structure Kept (store : σ) (history : List (Activity ρ χ)) : Prop where
  sound : d.Sound (after m entry store history).shared
  served : ∀ (i : Nat) (request : ρ) (turn : Turn ℓ α), (asked history)[i]? = some request →
    (after m entry store history).calls[i]? = some turn →
      d.Serves request (spent m entry store cost i history) (after m entry store history).shared
        turn

variable {d}

/-- A request keeps the discipline: its call has just entered, and nothing else has changed. -/
theorem Kept.ask {history : List (Activity ρ χ)} (kept : d.Kept store history) {request : ρ}
    (allowed : d.Allowed request) : d.Kept store (history ++ [.ask request]) := by
  have lengths := length_calls m entry store history
  have state : after m entry store (history ++ [.ask request]) =
      ⟨(after m entry store history).shared,
        (after m entry store history).calls ++ [.more (entry request)]⟩ :=
    after_concat m entry store history _
  refine ⟨?_, ?_⟩
  · rw [state]
    exact kept.sound
  · intro i r turn asks calls
    rw [state] at calls ⊢
    rw [asked_append, asked_ask] at asks
    rw [spent_concat, charge, add_zero]
    by_cases old : i < (asked history).length
    · rw [List.getElem?_append_left old] at asks
      rw [List.getElem?_append_left (by omega)] at calls
      exact kept.served i r turn asks calls
    · have newest : i = (asked history).length := by
        have := (List.getElem?_eq_some_iff.mp asks).1
        simp only [List.length_append, List.length_singleton] at this
        omega
      subst newest
      simp only [List.getElem?_concat_length, Option.some.injEq] at asks
      rw [← lengths, List.getElem?_concat_length, Option.some.injEq] at calls
      subst asks calls
      rw [spent_eq_zero m entry store cost (Nat.le_refl _)]
      exact d.enter allowed kept.sound

/-- An access keeps the discipline: the call that makes it keeps its promises, and what the others
have established survives. -/
theorem Kept.access {history : List (Activity ρ χ)} (kept : d.Kept store history) {call : Nat}
    {point : ℓ} (luck : χ) (allowed : ∀ request ∈ asked history, d.Allowed request)
    (running : (after m entry store history).calls[call]? = some (.more point)) :
    d.Kept store (history ++ [.access call luck]) ∧
      d.Evolves (after m entry store history).shared
        (after m entry store (history ++ [.access call luck])).shared := by
  have lengths := length_calls m entry store history
  have state : after m entry store (history ++ [.access call luck]) =
      ⟨(m.step luck (after m entry store history).shared point).1,
        (after m entry store history).calls.set call
          (m.step luck (after m entry store history).shared point).2⟩ := by
    rw [after_concat, Activity.move, apply_access m luck running]
  have begun : call < (after m entry store history).calls.length :=
    (List.getElem?_eq_some_iff.mp running).1
  have opened : call < (asked history).length := lengths ▸ begun
  have callAsks := List.getElem?_eq_getElem opened
  obtain ⟨sound, evolves, serves⟩ := d.step luck (allowed _ (List.getElem_mem opened)) kept.sound
    (kept.served call _ _ callAsks running)
  rw [state]
  refine ⟨⟨?_, ?_⟩, evolves⟩
  · rw [state]
    exact sound
  · intro i r turn asks calls
    rw [asked_append, asked_access, List.append_nil] at asks
    rw [state] at calls ⊢
    rw [spent_concat, charge]
    by_cases same : call = i
    · subst same
      rw [if_pos rfl, running]
      rw [callAsks, Option.some.injEq] at asks
      rw [List.getElem?_set_self begun, Option.some.injEq] at calls
      subst asks calls
      exact serves
    · rw [if_neg same, add_zero]
      rw [List.getElem?_set_ne same] at calls
      exact d.stable (allowed r (List.mem_of_getElem? asks)) kept.sound sound evolves
        (kept.served i r turn asks calls)

/-- Moving a call that does not exist or has returned keeps the discipline. -/
theorem Kept.idle {history : List (Activity ρ χ)} (kept : d.Kept store history) {call : Nat}
    (luck : χ)
    (resting : ∀ point, (after m entry store history).calls[call]? ≠ some (.more point)) :
    d.Kept store (history ++ [.access call luck]) ∧
      after m entry store (history ++ [.access call luck]) = after m entry store history := by
  have state : after m entry store (history ++ [.access call luck]) =
      after m entry store history := by
    rw [after_concat, Activity.move, apply_resting m luck resting]
  have free (i : Nat) : charge cost i (after m entry store history)
      (.access call luck : Activity ρ χ) = 0 := by
    simp only [charge]
    split
    · next same =>
        subst same
        split
        · next point found => exact absurd found (resting point)
        · rfl
    · rfl
  refine ⟨⟨?_, ?_⟩, state⟩
  · rw [state]
    exact kept.sound
  · intro i r turn asks calls
    rw [asked_append, asked_access, List.append_nil] at asks
    rw [state] at calls ⊢
    rw [spent_concat, free, add_zero]
    exact kept.served i r turn asks calls

theorem Kept.concat {history : List (Activity ρ χ)} (kept : d.Kept store history)
    (activity : Activity ρ χ)
    (allowed : ∀ request ∈ asked (history ++ [activity]), d.Allowed request) :
    d.Kept store (history ++ [activity]) ∧
      d.Evolves (after m entry store history).shared
        (after m entry store (history ++ [activity])).shared := by
  cases activity with
  | ask request =>
      refine ⟨kept.ask (allowed request (by simp)), ?_⟩
      rw [after_concat]
      exact d.evolves_refl kept.sound
  | access call luck =>
      rw [asked_append, asked_access, List.append_nil] at allowed
      by_cases running : ∃ point, (after m entry store history).calls[call]? = some (.more point)
      · obtain ⟨point, running⟩ := running
        exact kept.access luck allowed running
      · obtain ⟨idle, state⟩ := kept.idle luck fun point found => running ⟨point, found⟩
        rw [state]
        exact ⟨idle, d.evolves_refl kept.sound⟩

/-- A discipline that holds at first holds after every history. -/
theorem kept (sound : d.Sound store) {history : List (Activity ρ χ)}
    (allowed : ∀ request ∈ asked history, d.Allowed request) : d.Kept store history := by
  induction history using List.reverseRecOn with
  | nil => exact ⟨sound, fun i request turn asks => by simp at asks⟩
  | append_singleton history activity ih =>
      have earlier := ih fun request h => allowed request (by
        rw [asked_append]
        exact List.mem_append_left _ h)
      exact (earlier.concat activity allowed).1

/-- From any state of a history to any later one the store only evolves. -/
theorem evolves (sound : d.Sound store) {before later : List (Activity ρ χ)}
    (allowed : ∀ request ∈ asked (before ++ later), d.Allowed request) :
    d.Evolves (after m entry store before).shared
      (after m entry store (before ++ later)).shared := by
  induction later using List.reverseRecOn with
  | nil =>
      rw [List.append_nil] at allowed ⊢
      exact d.evolves_refl (kept sound allowed).sound
  | append_singleton later activity ih =>
      rw [← List.append_assoc] at allowed ⊢
      have allowedEarlier : ∀ request ∈ asked (before ++ later), d.Allowed request :=
        fun request h => allowed request (by
          rw [asked_append]
          exact List.mem_append_left _ h)
      exact d.evolves_trans (ih allowedEarlier)
        ((kept sound allowedEarlier).concat activity allowed).2

/-- A call that every access brings nearer to its end is so much nearer after so many turns: it
does not matter what the others do in between. -/
theorem remaining_add_turns_le (sound : d.Sound store) {before later : List (Activity ρ χ)}
    {request : ρ} (allowed : ∀ r ∈ asked (before ++ .ask request :: later), d.Allowed r)
    (remaining : ℓ → Nat)
    (nearer : ∀ {used : κ} {s : σ} {point next : ℓ} (luck : χ), d.Sound s →
      d.Serves request used s (.more point) → (m.step luck s point).2 = .more next →
        remaining next < remaining point)
    {point : ℓ} (running : (after m entry store (before ++ .ask request :: later)).calls[
      (asked before).length]? = some (.more point)) :
    remaining point + turns (asked before).length later ≤ remaining (entry request) := by
  induction later using List.reverseRecOn generalizing point with
  | nil =>
      obtain ⟨asker, asks, enters⟩ :=
        calls_concat_of_unopened m entry store (Nat.le_refl _) running
      rw [asked_append, asked_ask, List.getElem?_concat_length, Option.some.injEq] at asks
      obtain rfl := asks
      obtain rfl := Turn.more.inj enters
      exact Nat.le_refl _
  | append_singleton later activity ih =>
      rw [← List.cons_append, ← List.append_assoc] at running allowed
      have allowedEarlier : ∀ r ∈ asked (before ++ .ask request :: later), d.Allowed r :=
        fun r h => allowed r (by
          rw [asked_append]
          exact List.mem_append_left _ h)
      have asks := getElem?_asked_ask before later request
      have begun := (List.getElem?_eq_some_iff.mp asks).1
      rw [turns_concat]
      rcases calls_concat m entry store begun running with
        ⟨stays, idle⟩ | ⟨luck, earlier, rfl, ran, moves⟩
      · have resting : turns (asked before).length [activity] = 0 := by
          cases activity with
          | ask other => rfl
          | access mover luck =>
              refine List.countP_eq_zero.mpr fun one member => ?_
              obtain rfl := List.mem_singleton.mp member
              simp only [beq_iff_eq]
              rintro rfl
              exact idle luck point rfl rfl
        rw [resting]
        exact ih allowedEarlier stays
      · have served := (kept sound allowedEarlier).served _ _ _ asks ran
        have less := nearer luck (kept sound allowedEarlier).sound served moves
        have := ih allowedEarlier ran
        rw [turns_access]
        omega

end Discipline

end GraphAnalytics.Pool
