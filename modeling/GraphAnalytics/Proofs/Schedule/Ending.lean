/-
# Phases that come to an end

A phase whose caller waits has a move left, so an executor that goes on for as long as it can brings
every phase to its end that cannot go on for ever. Whether a phase can is up to its work.
`Work.Descends` says that every step of a task lowers a rank of what the tasks share and of their
bodies, whatever the tasks are told. A task may have to try again because another was faster, so the
rank belongs to the bodies taken together and not to each of them.

What goes on around the bodies is finite anyway: a task passes through its stages, the caller
through its own, and cancellation is requested once.
-/

import GraphAnalytics.Proofs.Schedule.Forking
import Mathlib.Algebra.GroupWithZero.Nat
import Mathlib.Data.Prod.Lex

namespace GraphAnalytics

open Progress

variable {σ ι β π ρ : Type}

/-! ### Moves that come to an end -/

section Moves

variable {α μ : Type} {apply : α → μ → α}

/-- The moves come to an end: every sequence of moves that change the state is finite. -/
def Terminates (apply : α → μ → α) : α → Prop :=
  Acc fun later earlier => later ≠ earlier ∧ ∃ move, later = apply earlier move

/-- If the moves come to an end there is a way to where none of them changes anything. -/
theorem Terminates.exists_rest {state : α} (terminates : Terminates apply state) :
    ∃ moves : List μ, ∀ move, apply (moves.foldl apply state) move = moves.foldl apply state := by
  induction terminates with
  | intro state _ ih =>
      by_cases rests : ∀ move, apply state move = state
      · exact ⟨[], rests⟩
      · obtain ⟨move, changes⟩ := not_forall.mp rests
        obtain ⟨moves, rests⟩ := ih _ ⟨changes, move, rfl⟩
        exact ⟨move :: moves, rests⟩

/-- Nothing has changed, or what holds was kept and the measure is lower than before. -/
def StaysOrFalls [LT ρ] (Inv : α → Prop) (measure : α → ρ) (before after : α) : Prop :=
  after = before ∨ Inv after ∧ measure after < measure before

/-- Every move that changes the state keeps what holds and lowers the measure. -/
def Falls [LT ρ] (apply : α → μ → α) (Inv : α → Prop) (measure : α → ρ) : Prop :=
  ∀ ⦃state⦄, Inv state → ∀ move, StaysOrFalls Inv measure state (apply state move)

section Falling

variable [Preorder ρ] {Inv : α → Prop} {measure : α → ρ} (falls : Falls apply Inv measure)

include falls

theorem Falls.terminates [WellFoundedLT ρ] {state : α} (inv : Inv state) :
    Terminates apply state := by
  induction measured : measure state using WellFoundedLT.induction generalizing state with
  | ind amount ih =>
      refine .intro state fun later ⟨changes, move, applied⟩ => ?_
      obtain same | ⟨kept, lower⟩ := falls inv move
      · exact absurd (applied.trans same) changes
      · subst applied
        exact ih _ (measured ▸ lower) kept rfl

theorem Falls.inv_foldl {state : α} (inv : Inv state) (moves : List μ) :
    Inv (moves.foldl apply state) := by
  induction moves generalizing state with
  | nil => exact inv
  | cons move moves ih =>
      obtain same | ⟨kept, -⟩ := falls inv move
      · exact ih (same.symm ▸ inv)
      · exact ih kept

end Falling

end Moves

/-! ### Work that descends -/

/-- The bodies that come after an action. Forks are accepted if `accepts`, and polls are answered
`told`. -/
def Action.leavings (start : ι → β) (accepts told : Bool) : Action ι β → Multiset β
  | .proceed next | .terminate next => {next}
  | .poll next => {next told}
  | .fork item next => if accepts then {next true, start item} else {next false}
  | .finish _ => 0

/-- The rank of what tasks share and of their bodies falls with every step of a body and does not
rise when a body is dropped, as long as something holds that steps and drops keep. -/
structure Work.Descends [Preorder ρ] (work : Work σ ι β) (accepts : Bool)
    (Inv : σ → Multiset β → Prop) (rank : σ → Multiset β → ρ) : Prop where
  step : ∀ {store body rest} (told : Bool), Inv store (body ::ₘ rest) →
    Inv (work.step store body).1
        ((work.step store body).2.leavings work.start accepts told + rest) ∧
      rank (work.step store body).1
        ((work.step store body).2.leavings work.start accepts told + rest) <
          rank store (body ::ₘ rest)
  drop : ∀ {store body rest}, Inv store (body ::ₘ rest) →
    Inv store rest ∧ rank store rest ≤ rank store (body ::ₘ rest)

/-- Work descends if every step of a body brings that body nearer to its end, whatever the store. -/
theorem Work.descends_of_left {work : Work σ ι β} {accepts : Bool} {left : β → Nat}
    (nearer : ∀ store body told,
      load left ((work.step store body).2.leavings work.start accepts told) < left body) :
    work.Descends accepts (fun _ _ => True) fun _ bodies => load left bodies where
  step := by
    intro store body rest told _
    rw [load_add, load_cons]
    exact ⟨trivial, Nat.add_lt_add_right (nearer store body told) _⟩
  drop := by
    intro store body rest _
    rw [load_cons]
    exact ⟨trivial, Nat.le_add_left _ _⟩

def Context.calm (context : Context π) : Nat := if context.raised then 0 else 1

def Caller.left {α : Type} : Caller α → Nat
  | .opening => 2
  | .waiting => 1
  | .closed _ => 0

theorem Context.raise_eq_self {context : Context π} (raised : context.raised = true) :
    context.raise = context := by
  obtain ⟨_, sink, events⟩ := context
  obtain rfl : _ = true := raised
  rfl

theorem Context.calm_raise_lt {context : Context π} (calm : context.raised = false) :
    context.raise.calm < context.calm := by
  simp [Context.calm, Context.raise, calm]

@[simp] theorem Context.calm_record (context : Context π) (event : Event) :
    (context.record event).calm = context.calm := rfl

/-! ### Flat phases -/

namespace Phase

/-- The stages that a task has still to pass through, apart from the steps of its body. -/
def Stage.left : Stage ι β → Nat
  | .queued _ => 3
  | .active _ => 2
  | .reporting _ => 1
  | .finished => 0

/-- What a phase has still to do, apart from the steps of the bodies. -/
def left (phase : Phase σ ι β π) : Nat :=
  (phase.stages.toList.map Stage.left).sum + (phase.caller.left + phase.context.calm)

/-- What a phase has still to do: the steps of the bodies first. -/
def measure (work : Work σ ι β) (rank : σ → Multiset β → ρ) (phase : Phase σ ι β π) : ρ ×ₗ Nat :=
  toLex (rank phase.shared (phase.bodies work), phase.left)

def Descending (work : Work σ ι β) (Inv : σ → Multiset β → Prop) (phase : Phase σ ι β π) : Prop :=
  Inv phase.shared (phase.bodies work)

/-- The phase does not change any more, except that cancellation may be requested. -/
def Rests [Sink π] (work : Work σ ι β) (phase : Phase σ ι β π) : Prop :=
  ∀ move, move ≠ .cancel → phase.apply work move = phase

section Descent

variable [PartialOrder ρ] {work : Work σ ι β} {Inv : σ → Multiset β → Prop}
  {rank : σ → Multiset β → ρ} {phase : Phase σ ι β π}

section Caller

variable (descending : phase.Descending work Inv)

include descending

/-- What happens beside the tasks lowers the measure if less is left of it. -/
theorem staysOrFalls_of_left_lt {after : Phase σ ι β π} (shared : after.shared = phase.shared)
    (stages : after.stages = phase.stages)
    (lt : after.caller.left + after.context.calm < phase.caller.left + phase.context.calm) :
    StaysOrFalls (Descending work Inv) (measure work rank) phase after := by
  have bodies : after.bodies work = phase.bodies work := by rw [Phase.bodies, stages, Phase.bodies]
  refine .inr ⟨?_, Prod.Lex.toLex_lt_toLex.mpr (.inr ⟨?_, ?_⟩)⟩
  · rw [Descending, shared, bodies]
    exact descending
  · rw [shared, bodies]
  · rw [left, left, stages]
    exact Nat.add_lt_add_left lt _

theorem staysOrFalls_begin :
    StaysOrFalls (Descending work Inv) (measure work rank) phase phase.begin := by
  obtain ⟨shared, context, stages, failures, caller⟩ := phase
  cases caller with
  | waiting | closed => exact .inl rfl
  | opening =>
      simp only [begin]
      split <;> exact staysOrFalls_of_left_lt descending rfl rfl (by simp [Caller.left])

theorem staysOrFalls_close (failure : Nat) :
    StaysOrFalls (Descending work Inv) (measure work rank) phase (phase.close failure) := by
  obtain ⟨shared, context, stages, failures, caller⟩ := phase
  cases caller with
  | opening | closed => exact .inl rfl
  | waiting =>
      simp only [close]
      split
      · split
        · exact staysOrFalls_of_left_lt descending rfl rfl (by simp [Caller.left])
        · exact .inl rfl
      · exact .inl rfl

theorem staysOrFalls_cancel :
    StaysOrFalls (Descending work Inv) (measure work rank) phase
      { phase with context := phase.context.raise } := by
  cases raised : phase.context.raised with
  | true => exact .inl (by rw [Context.raise_eq_self raised])
  | false =>
      exact staysOrFalls_of_left_lt descending rfl rfl
        (Nat.add_lt_add_left (Context.calm_raise_lt raised) _)

end Caller

variable [Sink π] (descends : work.Descends false Inv rank)

include descends

/-- A step of a task that is not over lowers the rank, or keeps it and takes the task to a later
stage. -/
theorem Stage.descends_next {stage : Stage ι β} {shared : σ} (context : Context π)
    (failures : List Fault) {rest : Multiset β} (inv : Inv shared (stage.bodies work + rest))
    (unfinished : stage.isFinished = false) :
    Inv (stage.next work shared context failures).1
        ((stage.next work shared context failures).2.2.2.bodies work + rest) ∧
      toLex (rank (stage.next work shared context failures).1
          ((stage.next work shared context failures).2.2.2.bodies work + rest),
        (stage.next work shared context failures).2.2.2.left +
          (stage.next work shared context failures).2.1.calm) <
      toLex (rank shared (stage.bodies work + rest), stage.left + context.calm) := by
  have moveOn {next : Stage ι β} {context' : Context π} (same : context'.calm = context.calm)
      (le : rank shared (next.bodies work + rest) ≤ rank shared (stage.bodies work + rest))
      (lt : next.left < stage.left) :
      toLex (rank shared (next.bodies work + rest), next.left + context'.calm) <
        toLex (rank shared (stage.bodies work + rest), stage.left + context.calm) :=
    Prod.Lex.toLex_lt_toLex'.mpr ⟨le, fun _ => by simp only; omega⟩
  cases stage with
  | queued item =>
      simp only [Stage.next]
      have dropped := descends.drop (Multiset.singleton_add _ rest ▸ inv)
      split
      · rw [← Multiset.singleton_add] at dropped
        refine ⟨by simpa [Stage.bodies] using dropped.1, moveOn rfl ?_ (Nat.zero_lt_succ 2)⟩
        simpa [Stage.bodies] using dropped.2
      · exact ⟨inv, moveOn rfl (le_refl _) (Nat.lt_succ_self 2)⟩
  | active body =>
      have falls (told : Bool) := descends.step told (Multiset.singleton_add _ rest ▸ inv)
      rw [← Multiset.singleton_add] at falls
      simp only [Stage.next]
      rcases taken : work.step shared body with ⟨store, action⟩
      simp only [taken] at falls
      rcases action with next | next | ⟨child, next⟩ | next | ⟨fault | processed⟩
      case poll => exact ⟨(falls _).1, Prod.Lex.toLex_lt_toLex.mpr (.inl (falls _).2)⟩
      all_goals exact ⟨(falls true).1, Prod.Lex.toLex_lt_toLex.mpr (.inl (falls true).2)⟩
  | reporting processed => exact ⟨inv, moveOn rfl (le_refl _) (Nat.lt_succ_self 0)⟩
  | finished => cases unfinished

theorem advance_lt (descending : phase.Descending work Inv) (waiting : phase.caller = .waiting)
    {task : Nat} {stage : Stage ι β} (here : phase.stages[task]? = some stage)
    (unfinished : stage.isFinished = false) :
    (phase.advance work task).Descending work Inv ∧
      (phase.advance work task).measure work rank < phase.measure work rank := by
  obtain ⟨shared, context, stages, failures, caller⟩ := phase
  obtain rfl : caller = .waiting := waiting
  have here : stages[task]? = some stage := here
  have there : stages.toList[task]? = some stage := by simpa using here
  obtain ⟨rest, before, after⟩ := sum_map_set (Stage.bodies work) there
  obtain ⟨others, stillBefore, stillAfter⟩ := sum_map_set Stage.left there
  have inv : Inv shared (stage.bodies work + rest) := before ▸ descending
  obtain ⟨kept, falls⟩ := Stage.descends_next descends context failures inv unfinished
  rcases taken : stage.next work shared context failures with ⟨shared', context', failures', stage'⟩
  simp only [taken] at kept falls
  simp only [Phase.advance, here, taken, measure, Descending, bodies, left,
    Array.toList_setIfInBounds, before, after, stillBefore, stillAfter]
  obtain ⟨le, lt⟩ := Prod.Lex.toLex_lt_toLex'.mp falls
  refine ⟨kept, Prod.Lex.toLex_lt_toLex'.mpr ⟨le, fun same => ?_⟩⟩
  have := lt same
  simp only at this ⊢
  omega

theorem staysOrFalls_advance (descending : phase.Descending work Inv) (task : Nat) :
    StaysOrFalls (Descending work Inv) (measure work rank) phase (phase.advance work task) := by
  obtain ⟨shared, context, stages, failures, caller⟩ := phase
  cases caller with
  | opening | closed => exact .inl rfl
  | waiting =>
      cases here : stages[task]? with
      | none => exact .inl (by simp only [advance, here])
      | some stage =>
          cases stage with
          | finished =>
              left
              simp only [advance, here, Stage.next]
              rw [setIfInBounds_eq_self here]
          | queued | active | reporting =>
              exact .inr (advance_lt descends descending rfl here rfl)

omit [Sink π] in
theorem staysOrFalls_skip (descending : phase.Descending work Inv) (task : Nat) :
    StaysOrFalls (Descending work Inv) (measure work rank) phase (phase.skip task) := by
  obtain ⟨shared, context, stages, failures, caller⟩ := phase
  cases failures with
  | nil => exact .inl rfl
  | cons failure failures =>
      cases caller with
      | opening | closed => exact .inl rfl
      | waiting =>
          simp only [skip]
          split
          · next item here =>
              right
              have there : stages.toList[task]? = some (.queued item) := by simpa using here
              obtain ⟨rest, before, after⟩ := sum_map_set (Stage.bodies work) there
              obtain ⟨others, stillBefore, stillAfter⟩ := sum_map_set Stage.left there
              simp only [Descending, measure, bodies, left, before, after, stillBefore, stillAfter,
                Array.toList_setIfInBounds] at descending ⊢
              have dropped := descends.drop (Multiset.singleton_add _ rest ▸ descending)
              rw [← Multiset.singleton_add] at dropped
              refine ⟨by simpa [Stage.bodies] using dropped.1,
                Prod.Lex.toLex_lt_toLex'.mpr ⟨?_, fun _ => ?_⟩⟩
              · simpa [Stage.bodies] using dropped.2
              · simp [Stage.left]
          · exact .inl rfl

theorem falls : Falls (apply work) (Descending (π := π) work Inv) (measure work rank) := by
  intro phase descending move
  cases move with
  | begin => exact staysOrFalls_begin descending
  | advance task => exact staysOrFalls_advance descends descending task
  | skip task => exact staysOrFalls_skip descends descending task
  | close failure => exact staysOrFalls_close descending failure
  | cancel => exact staysOrFalls_cancel descending

/-- A phase of work that descends rests only when its caller has returned. -/
theorem closed_of_rests (descending : phase.Descending work Inv) (rests : phase.Rests work) :
    ∃ outcome, phase.caller = .closed outcome := by
  obtain ⟨shared, context, stages, failures, caller⟩ := phase
  cases caller with
  | closed outcome => exact ⟨outcome, rfl⟩
  | opening =>
      have begun := rests .begin (by simp)
      simp only [apply, begin] at begun
      split at begun <;> cases congrArg Phase.caller begun
  | waiting =>
      by_cases through : stages.all Stage.isFinished = true
      · have closed := rests (.close 0) (by simp)
        cases failures <;> simp [apply, close, outcome?, through] at closed
      · obtain ⟨task, inside, unfinished⟩ : ∃ (task : Nat) (inside : task < stages.size),
            stages[task].isFinished = false := by
          simpa [Array.all_eq_true] using through
        have lower := (advance_lt descends descending rfl
          (Array.getElem?_eq_getElem inside) unfinished).2
        have same := congrArg (measure work rank) (rests (.advance task) (by simp))
        exact absurd same lower.ne

end Descent

end Phase

/-! ### Fork/join phases -/

/-- Bodies go on in the same way whether their forks are accepted or refused. -/
def Work.Heedless (work : Work σ ι β) : Prop :=
  ∀ store body child next, (work.step store body).2 = .fork child next → next false = next true

namespace ForkJoin

/-- The stages that a task has still to pass through, apart from the steps of its body. Queueing a
child adds those of the child. -/
def Stage.left : Stage ι β → Nat
  | .finished => 0
  | .draining => 1
  | .completing => 2
  | .recording _ => 3
  | .aborting _ => 4
  | .reporting _ => 3
  | .refused => 5
  | .active _ => 6
  | .admitted _ => 7
  | .unaborted _ => 8
  | .queued _ => 9
  | .queueing .. => 16
  | .latching .. => 17
  | .unabortedFork .. => 18
  | .forking .. => 19

/-- If the task is forking, its body goes on in the same way whether or not that is refused. -/
def Stage.Heedless : Stage ι β → Prop
  | .forking _ next | .unabortedFork _ next => next false = next true
  | _ => True

def left (phase : ForkJoin σ ι β π) : Nat :=
  total Stage.left phase.tasks + (phase.caller.left + phase.hub.context.calm)

/-- What a phase has still to do: the steps of the bodies first. -/
def measure (work : Work σ ι β) (rank : σ → Multiset β → ρ) (phase : ForkJoin σ ι β π) :
    ρ ×ₗ Nat :=
  toLex (rank phase.hub.shared (total (Stage.bodies work) phase.tasks), phase.left)

/-- A step of a task, which may queue a child, keeps what holds and lowers the measure, whatever the
bodies of the other tasks are. -/
def Lowers [PartialOrder ρ] (work : Work σ ι β) (Inv : σ → Multiset β → Prop)
    (rank : σ → Multiset β → ρ) (rest : Multiset β) :
    Hub σ π × Stage ι β → Hub σ π × Stage ι β × Option ι → Prop
  | (hub, stage), (hub', next, child) =>
      Inv hub'.shared (next.bodies work + child.elim 0 (Stage.bodies work ∘ .queued) + rest) ∧
        toLex (rank hub'.shared
            (next.bodies work + child.elim 0 (Stage.bodies work ∘ .queued) + rest),
          next.left + child.elim 0 (Stage.left ∘ (Stage.queued (β := β))) + hub'.context.calm) <
        toLex (rank hub.shared (stage.bodies work + rest), stage.left + hub.context.calm)

structure Descending (work : Work σ ι β) (Inv : σ → Multiset β → Prop)
    (phase : ForkJoin σ ι β π) : Prop where
  inv : Inv phase.hub.shared (total (Stage.bodies work) phase.tasks)
  heedless : ∀ task ∈ phase.tasks, task.stage.Heedless

def Rests [Sink π] (work : Work σ ι β) (phase : ForkJoin σ ι β π) : Prop :=
  ∀ move, move ≠ .cancel → phase.apply work move = phase

section Descent

variable [PartialOrder ρ] {work : Work σ ι β} {Inv : σ → Multiset β → Prop}
  {rank : σ → Multiset β → ρ} {phase : ForkJoin σ ι β π}

section Caller

variable (descending : phase.Descending work Inv)

include descending

/-- What happens beside the tasks lowers the measure if less is left of it. -/
theorem staysOrFalls_of_left_lt {after : ForkJoin σ ι β π}
    (shared : after.hub.shared = phase.hub.shared) (tasks : after.tasks = phase.tasks)
    (lt : after.caller.left + after.hub.context.calm <
      phase.caller.left + phase.hub.context.calm) :
    StaysOrFalls (Descending work Inv) (measure work rank) phase after := by
  refine .inr ⟨⟨?_, tasks ▸ descending.heedless⟩, Prod.Lex.toLex_lt_toLex.mpr (.inr ⟨?_, ?_⟩)⟩
  · rw [shared, tasks]
    exact descending.inv
  · rw [shared, tasks]
  · rw [left, left, tasks]
    exact Nat.add_lt_add_left lt _

theorem staysOrFalls_begin :
    StaysOrFalls (Descending work Inv) (measure work rank) phase phase.begin := by
  obtain ⟨hub, tasks, caller⟩ := phase
  cases caller with
  | waiting | closed => exact .inl rfl
  | opening =>
      simp only [begin]
      split <;> exact staysOrFalls_of_left_lt descending rfl rfl (by simp [Caller.left])

theorem staysOrFalls_close :
    StaysOrFalls (Descending work Inv) (measure work rank) phase phase.close := by
  obtain ⟨hub, tasks, caller⟩ := phase
  cases caller with
  | opening | closed => exact .inl rfl
  | waiting =>
      simp only [close]
      split
      · exact staysOrFalls_of_left_lt descending rfl rfl (by simp [Caller.left])
      · exact .inl rfl

theorem staysOrFalls_cancel :
    StaysOrFalls (Descending work Inv) (measure work rank) phase
      { phase with hub := { phase.hub with context := phase.hub.context.raise } } := by
  cases raised : phase.hub.context.raised with
  | true => exact .inl (by rw [Context.raise_eq_self raised])
  | false =>
      exact staysOrFalls_of_left_lt descending rfl rfl
        (Nat.add_lt_add_left (Context.calm_raise_lt raised) _)

end Caller

variable [Sink π] (heeds : work.Heedless) (descends : work.Descends true Inv rank)

include heeds in
/-- A task comes to fork only with a body that does not heed the answer. -/
theorem Stage.heedless_next {stage : Stage ι β} (heedless : stage.Heedless) (root : Nat)
    (hub : Hub σ π) : (stage.next work root hub).2.1.Heedless := by
  cases stage with
  | active body =>
      rcases taken : work.step hub.shared body with ⟨store, action⟩
      rw [Stage.next_active work root taken]
      rcases action with next | next | ⟨child, next⟩ | next | ⟨fault | processed⟩
      case fork => exact heeds hub.shared body child next (by rw [taken])
      all_goals trivial
  | forking child next =>
      simp only [Stage.next]
      split
      · trivial
      · exact heedless
  | queued | unaborted | refused | unabortedFork | completing =>
      simp only [Stage.next]
      split <;> trivial
  | admitted | latching | queueing | reporting | aborting | recording | draining | finished =>
      trivial

omit [Sink π] in
theorem Lowers.of_bodies_eq {hub hub' : Hub σ π} {stage next : Stage ι β} {child : Option ι}
    {rest : Multiset β} (inv : Inv hub.shared (stage.bodies work + rest))
    (shared : hub'.shared = hub.shared) (calm : hub'.context.calm = hub.context.calm)
    (bodies : next.bodies work + child.elim 0 (Stage.bodies work ∘ .queued) = stage.bodies work)
    (lt : next.left + child.elim 0 (Stage.left ∘ (Stage.queued (β := β))) < stage.left) :
    Lowers work Inv rank rest (hub, stage) (hub', next, child) := by
  simp only [Lowers, bodies, shared, calm]
  exact ⟨inv, Prod.Lex.toLex_lt_toLex'.mpr ⟨le_refl _, fun _ => Nat.add_lt_add_right lt _⟩⟩

omit [Sink π] in
include descends in
/-- A task that is not admitted, and a fork that is refused, loses a body. -/
theorem Lowers.of_bodies_eq_cons {hub : Hub σ π} {stage next : Stage ι β} (lost : β)
    {rest : Multiset β} (inv : Inv hub.shared (stage.bodies work + rest))
    (bodies : stage.bodies work = lost ::ₘ next.bodies work) (lt : next.left < stage.left) :
    Lowers work Inv rank rest (hub, stage) (hub, next, none) := by
  rw [bodies, Multiset.cons_add] at inv
  obtain ⟨kept, le⟩ := descends.drop inv
  simp only [Lowers, bodies, Multiset.cons_add, Option.elim_none, add_zero]
  exact ⟨kept, Prod.Lex.toLex_lt_toLex'.mpr ⟨le, fun _ => Nat.add_lt_add_right lt _⟩⟩

include descends in
theorem Stage.lowers_next {stage : Stage ι β} (heedless : stage.Heedless) (root : Nat)
    {hub : Hub σ π} {rest : Multiset β} (inv : Inv hub.shared (stage.bodies work + rest))
    (unfinished : (⟨root, stage⟩ : Task ι β).isFinished = false) :
    Lowers work Inv rank rest (hub, stage) (stage.next work root hub) := by
  cases stage with
  | finished => cases unfinished
  | queued item | unaborted item =>
      simp only [Stage.next]
      split
      · exact .of_bodies_eq_cons descends _ inv rfl (by simp [left])
      · exact .of_bodies_eq inv rfl rfl (add_zero _) (by simp [left])
  | admitted item => exact .of_bodies_eq inv rfl rfl (add_zero _) (by simp [left])
  | refused =>
      simp only [Stage.next]
      split <;> exact .of_bodies_eq inv rfl rfl (add_zero _) (by simp [left])
  | active body =>
      rcases taken : work.step hub.shared body with ⟨store, action⟩
      have falls (told : Bool) := descends.step told (Multiset.singleton_add _ rest ▸ inv)
      rw [← Multiset.singleton_add] at falls
      simp only [taken] at falls
      rw [Stage.next_active work root taken]
      simp only [Lowers, Option.elim_none, add_zero]
      rcases action with next | next | ⟨child, next⟩ | next | ⟨fault | processed⟩
      case poll => exact ⟨(falls _).1, Prod.Lex.toLex_lt_toLex.mpr (.inl (falls _).2)⟩
      all_goals exact ⟨(falls true).1, Prod.Lex.toLex_lt_toLex.mpr (.inl (falls true).2)⟩
  | forking child next | unabortedFork child next =>
      simp only [Stage.next]
      split
      · refine .of_bodies_eq_cons descends (work.start child) inv ?_ (by simp [left])
        rw [bodies, bodies, show next false = next true from heedless]
        exact Multiset.pair_comm _ _
      · exact .of_bodies_eq inv rfl rfl (add_zero _) (by simp [left])
  | latching child next => exact .of_bodies_eq inv rfl rfl (add_zero _) (by simp [left])
  | queueing child next => exact .of_bodies_eq inv rfl rfl rfl (by simp [left])
  | completing =>
      simp only [Stage.next]
      split <;> exact .of_bodies_eq inv rfl rfl (add_zero _) (by simp [left])
  | reporting | aborting | recording | draining =>
      exact .of_bodies_eq inv rfl rfl (add_zero _) (by simp [left])

include descends heeds

theorem advance_lt (descending : phase.Descending work Inv)
    (waiting : phase.caller = .waiting) {number : Nat} {task : Task ι β}
    (here : phase.tasks[number]? = some task) (unfinished : task.isFinished = false) :
    (phase.advance work number).Descending work Inv ∧
      (phase.advance work number).measure work rank < phase.measure work rank := by
  obtain ⟨hub, tasks, caller⟩ := phase
  obtain rfl : caller = .waiting := waiting
  obtain ⟨root, stage⟩ := task
  have here : tasks[number]? = some ⟨root, stage⟩ := here
  obtain ⟨rest, before, after⟩ := total_replaced (Stage.bodies work) here
  obtain ⟨others, stillBefore, stillAfter⟩ := total_replaced Stage.left here
  have heedless := descending.heedless _ (Array.mem_of_getElem? here)
  have inv : Inv hub.shared (stage.bodies work + rest) := before ▸ descending.inv
  have lowers := Stage.lowers_next descends heedless root inv unfinished
  have heedlessNext := Stage.heedless_next heeds heedless root hub
  rcases taken : stage.next work root hub with ⟨hub', next, child⟩
  rw [taken] at lowers heedlessNext
  suffices lower : Descending work Inv ⟨hub', replaced tasks number root next child, .waiting⟩ ∧
      measure work rank ⟨hub', replaced tasks number root next child, .waiting⟩ <
        measure work rank ⟨hub, tasks, .waiting⟩ by
    simp only [ForkJoin.advance, here, taken]
    cases child <;> exact lower
  simp only [Lowers] at lowers
  obtain ⟨kept, falls⟩ := lowers
  obtain ⟨le, lt⟩ := Prod.Lex.toLex_lt_toLex'.mp falls
  refine ⟨⟨?_, fun task member => ?_⟩, ?_⟩
  · simp only [after]
    exact kept
  · cases child with
    | none =>
        rcases Array.mem_or_eq_of_mem_setIfInBounds member with old | rfl
        · exact descending.heedless task old
        · exact heedlessNext
    | some item =>
        rcases Array.mem_push.mp member with old | rfl
        · rcases Array.mem_or_eq_of_mem_setIfInBounds old with old | rfl
          · exact descending.heedless task old
          · exact heedlessNext
        · trivial
  · simp only [measure, left, before, after, stillBefore, stillAfter]
    refine Prod.Lex.toLex_lt_toLex'.mpr ⟨le, fun same => ?_⟩
    have := lt same
    simp only at this ⊢
    omega

theorem staysOrFalls_advance (descending : phase.Descending work Inv) (number : Nat) :
    StaysOrFalls (Descending work Inv) (measure work rank) phase (phase.advance work number) := by
  obtain ⟨hub, tasks, caller⟩ := phase
  cases caller with
  | opening | closed => exact .inl rfl
  | waiting =>
      cases here : tasks[number]? with
      | none => exact .inl (by simp only [advance, here])
      | some task =>
          obtain ⟨root, stage⟩ := task
          cases stage with
          | finished =>
              left
              simp only [advance, here, Stage.next]
              rw [setIfInBounds_eq_self here]
          | _ => exact .inr (advance_lt heeds descends descending rfl here rfl)

theorem falls : Falls (apply work) (Descending (π := π) work Inv) (measure work rank) := by
  intro phase descending move
  cases move with
  | begin => exact staysOrFalls_begin descending
  | advance number => exact staysOrFalls_advance heeds descends descending number
  | close => exact staysOrFalls_close descending
  | cancel => exact staysOrFalls_cancel descending

/-- A phase of work that descends rests only when its caller has returned. -/
theorem closed_of_rests (descending : phase.Descending work Inv) (rests : phase.Rests work) :
    ∃ outcome, phase.caller = .closed outcome := by
  obtain ⟨hub, tasks, caller⟩ := phase
  cases caller with
  | closed outcome => exact ⟨outcome, rfl⟩
  | opening =>
      have begun := rests .begin (by simp)
      simp only [apply, begin] at begun
      split at begun <;> cases congrArg ForkJoin.caller begun
  | waiting =>
      by_cases through : tasks.all Task.isFinished = true
      · have closed := rests .close (by simp)
        simp [apply, close, through] at closed
      · obtain ⟨number, inside, unfinished⟩ : ∃ (number : Nat) (inside : number < tasks.size),
            tasks[number].isFinished = false := by
          simpa [Array.all_eq_true] using through
        have lower := (advance_lt heeds descends descending rfl
          (Array.getElem?_eq_getElem inside) unfinished).2
        have same := congrArg (measure work rank) (rests (.advance number) (by simp))
        exact absurd same lower.ne

end Descent

/-- A phase that has not begun descends if that holds which steps keep. -/
theorem descending_opening {work : Work σ ι β} {Inv : σ → Multiset β → Prop} {seeds : List ι}
    {shared : σ} (inv : Inv shared (work.beginnings seeds)) (context : Context π) :
    (opening seeds shared context).Descending work Inv where
  inv := by
    rw [total_opening]
    exact inv
  heedless task member := by
    obtain ⟨⟨seed, root⟩, -, rfl⟩ := List.mem_map.mp (List.mem_toArray.mp member)
    trivial

end ForkJoin

/-! ### Executors that do not give up -/

/-- The executor goes on for as long as there is something to do, unless that is for ever. -/
structure Executor.Diligent (executor : Executor) : Prop where
  phase_rests : ∀ {σ ι β π : Type} [Sink π] (work : Work σ ι β) (phase : Phase σ ι β π),
    Terminates (Phase.apply work) phase → (executor.phase work phase).Rests work
  forkJoin_rests : ∀ {σ ι β π : Type} [Sink π] (work : Work σ ι β) (phase : ForkJoin σ ι β π),
    Terminates (ForkJoin.apply work) phase → (executor.forkJoin work phase).Rests work

open Classical in
/-- An executor that brings to rest whatever can be. -/
noncomputable def Executor.untiring : Executor where
  phase work phase :=
    if possible : ∃ moves, (phase.replay work moves).Rests work then
      phase.replay work possible.choose
    else phase
  forkJoin work phase :=
    if possible : ∃ moves, (phase.replay work moves).Rests work then
      phase.replay work possible.choose
    else phase

namespace Executor

theorem untiring_lawful : untiring.Lawful where
  phase_moves work phase := by
    simp only [untiring]
    split
    · exact ⟨_, rfl⟩
    · exact ⟨[], rfl⟩
  forkJoin_moves work phase := by
    simp only [untiring]
    split
    · exact ⟨_, rfl⟩
    · exact ⟨[], rfl⟩

theorem untiring_diligent : untiring.Diligent where
  phase_rests work phase terminates := by
    have possible : ∃ moves, (phase.replay work moves).Rests work :=
      terminates.exists_rest.imp fun _ rests move _ => rests move
    simp only [untiring, dif_pos possible]
    exact possible.choose_spec
  forkJoin_rests work phase terminates := by
    have possible : ∃ moves, (phase.replay work moves).Rests work :=
      terminates.exists_rest.imp fun _ rests move _ => rests move
    simp only [untiring, dif_pos possible]
    exact possible.choose_spec

end Executor

section Diligence

variable [Sink π] [PartialOrder ρ] [WellFoundedLT ρ] {executor : Executor}
  (lawful : executor.Lawful) (diligent : executor.Diligent) {work : Work σ ι β}
  {Inv : σ → Multiset β → Prop} {rank : σ → Multiset β → ρ} {items : List ι} {shared : σ}

include lawful diligent

/-- A diligent executor brings a flat phase of work that descends to its end. -/
theorem Phase.closed_of_descends (descends : work.Descends false Inv rank)
    (inv : Inv shared (work.beginnings items)) (context : Context π) :
    ∃ outcome, (executor.phase work (opening items shared context)).caller = .closed outcome := by
  have initially : (opening items shared context).Descending work Inv := by
    rw [Phase.Descending, bodies_opening]
    exact inv
  have falls := Phase.falls (π := π) descends
  have rests := diligent.phase_rests work _ (falls.terminates initially)
  obtain ⟨moves, replayed⟩ := lawful.phase_moves work (opening items shared context)
  rw [replayed] at rests ⊢
  exact closed_of_rests descends (falls.inv_foldl initially moves) rests

/-- A diligent executor brings a fork/join phase of work that descends to its end. -/
theorem ForkJoin.closed_of_descends (heeds : work.Heedless)
    (descends : work.Descends true Inv rank) (inv : Inv shared (work.beginnings items))
    (context : Context π) :
    ∃ outcome, (executor.forkJoin work (opening items shared context)).caller =
      .closed outcome := by
  have initially := descending_opening inv context
  have falls := ForkJoin.falls (π := π) heeds descends
  have rests := diligent.forkJoin_rests work _ (falls.terminates initially)
  obtain ⟨moves, replayed⟩ := lawful.forkJoin_moves work (opening items shared context)
  rw [replayed] at rests ⊢
  exact closed_of_rests heeds descends (falls.inv_foldl initially moves) rests

end Diligence

end GraphAnalytics
