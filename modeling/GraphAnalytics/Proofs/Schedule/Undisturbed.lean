/-
# Undisturbed work

Most of what happens in a phase is about its tasks being taken up, refused and counted. For a phase
that succeeds none of that matters: nobody has requested cancellation, nothing has failed, and what
is left is a store and the bodies in progress, of which one at a time makes a step. `Work.Step` is
that step and `Work.Runs` any number of them. The bodies form a multiset, since it matters neither
which task a body belongs to nor in which order the tasks were queued.

`Phase.runs_of_replay` says that every interleaving of a flat phase that succeeds is such a run from
the first bodies of its items to no bodies at all. What every step keeps (`Work.Runs.invariant`)
therefore holds at the end of every phase that succeeds, whatever the executor.
-/

import GraphAnalytics.Schedule.Executor
import Mathlib.Algebra.BigOperators.Group.Multiset.Basic
import Mathlib.Logic.Relation

namespace GraphAnalytics

variable {σ ι β π : Type}

/-- The bodies that come after an action in undisturbed work. `accepts` tells whether forks are
accepted. Requesting cancellation and failing are no part of undisturbed work. -/
def Action.successors (start : ι → β) (accepts : Bool) : Action ι β → Option (Multiset β)
  | .proceed next => some {next}
  | .poll next => some {next true}
  | .fork item next => some (if accepts then {next true, start item} else {next false})
  | .terminate _ => none
  | .finish (.ok _) => some 0
  | .finish (.error _) => none

/-- Who may request cancellation and otherwise goes on, goes on if the work is undisturbed. -/
theorem Action.bodies_of_arrival {start : ι → β} {accepts now : Bool} {next : β}
    {bodies : Multiset β}
    (goesOn : Action.successors start accepts (if now then .terminate next else .proceed next) =
      some bodies) : bodies = {next} := by
  cases now with
  | false => exact (Option.some.inj goesOn).symm
  | true => cases goesOn

namespace Work

def beginnings (work : Work σ ι β) (items : List ι) : Multiset β := (items.map work.start : List β)

theorem beginnings_cons (work : Work σ ι β) (item : ι) (items : List ι) :
    work.beginnings (item :: items) = work.start item ::ₘ work.beginnings items := rfl

theorem mem_beginnings {work : Work σ ι β} {items : List ι} {body : β} :
    body ∈ work.beginnings items ↔ ∃ item ∈ items, work.start item = body :=
  Multiset.mem_coe.trans List.mem_map

inductive Step (work : Work σ ι β) (accepts : Bool) : σ × Multiset β → σ × Multiset β → Prop
  | advance (store : σ) (body : β) (rest : Multiset β) {bodies : Multiset β}
      (goesOn : (work.step store body).2.successors work.start accepts = some bodies) :
      Step work accepts (store, body ::ₘ rest) ((work.step store body).1, bodies + rest)

/-- The bodies in progress make any number of steps, in any order. -/
def Runs (work : Work σ ι β) (accepts : Bool) : σ × Multiset β → σ × Multiset β → Prop :=
  Relation.ReflTransGen (Step work accepts)

variable {work : Work σ ι β} {accepts : Bool}

theorem Runs.invariant (Inv : σ → Multiset β → Prop)
    (keeps : ∀ (store : σ) (body : β) (rest bodies : Multiset β), Inv store (body ::ₘ rest) →
      (work.step store body).2.successors work.start accepts = some bodies →
        Inv (work.step store body).1 (bodies + rest))
    {first last : σ × Multiset β} (runs : work.Runs accepts first last)
    (initially : Inv first.1 first.2) : Inv last.1 last.2 := by
  induction runs with
  | refl => exact initially
  | tail _ step ih =>
      cases step with
      | advance store body rest goesOn => exact keeps store body rest _ ih goesOn

theorem Runs.trans {first second third : σ × Multiset β} (before : work.Runs accepts first second)
    (after : work.Runs accepts second third) : work.Runs accepts first third :=
  Relation.ReflTransGen.trans before after

theorem Runs.single {store store' : σ} {body : β} {action : Action ι β} (rest : Multiset β)
    {bodies : Multiset β} (taken : work.step store body = (store', action))
    (goesOn : action.successors work.start accepts = some bodies) :
    work.Runs accepts (store, {body} + rest) (store', bodies + rest) := by
  have step : work.Step accepts (store, body ::ₘ rest) ((work.step store body).1, bodies + rest) :=
    .advance store body rest (by rwa [taken])
  rw [taken] at step
  rw [Multiset.singleton_add]
  exact Relation.ReflTransGen.single step

end Work

/-! ### Shares of the bodies -/

def load (share : β → Nat) (bodies : Multiset β) : Nat := (bodies.map share).sum

variable (share : β → Nat)

@[simp] theorem load_zero : load share 0 = 0 := rfl

@[simp] theorem load_cons (body : β) (rest : Multiset β) :
    load share (body ::ₘ rest) = share body + load share rest := by
  rw [load, Multiset.map_cons, Multiset.sum_cons, load]

@[simp] theorem load_singleton (body : β) : load share {body} = share body := by
  rw [load, Multiset.map_singleton, Multiset.sum_singleton]

@[simp] theorem load_add (bodies rest : Multiset β) :
    load share (bodies + rest) = load share bodies + load share rest := by
  rw [load, Multiset.map_add, Multiset.sum_add, load, load]

variable {share}

theorem le_load {bodies : Multiset β} {body : β} (member : body ∈ bodies) :
    share body ≤ load share bodies := by
  obtain ⟨rest, rfl⟩ := Multiset.exists_cons_of_mem member
  rw [load_cons]
  exact Nat.le_add_right _ _

theorem load_eq_zero {bodies : Multiset β} (none : ∀ body ∈ bodies, share body = 0) :
    load share bodies = 0 := by
  rw [load, Multiset.sum_eq_zero]
  intro amount member
  obtain ⟨body, here, rfl⟩ := Multiset.mem_map.mp member
  exact none body here

/-- If the first body of a task on an item counts an element in the item's list, the first bodies
count it in all of the lists together. -/
theorem load_beginnings {α : Type} [BEq α] (work : Work σ ι β) (lists : ι → List α) (element : α)
    (counts : ∀ item, share (work.start item) = (lists item).count element) (items : List ι) :
    load share (work.beginnings items) = (items.flatMap lists).count element := by
  induction items with
  | nil => rfl
  | cons item items ih =>
      rw [Work.beginnings_cons, load_cons, ih, counts, List.flatMap_cons, List.count_append]

theorem exists_of_load_ne_zero {bodies : Multiset β} (some : load share bodies ≠ 0) :
    ∃ body ∈ bodies, share body ≠ 0 := by
  refine Classical.byContradiction fun none => some (load_eq_zero fun body member => ?_)
  exact Classical.byContradiction fun share => none ⟨body, member, share⟩

theorem Caller.outcome_eq_ok {α : Type} {caller : Caller α} {answer : α} :
    caller.outcome = .ok answer ↔ caller = .closed (.ok answer) := by
  rcases caller with _ | _ | outcome
  · simp [Caller.outcome]
  · simp [Caller.outcome]
  · cases outcome <;> simp [Caller.outcome]

/-! ### Contexts -/

namespace Context

variable (context : Context π)

@[simp] theorem raised_record (event : Event) :
    (context.record event).raised = context.raised := rfl

def heed : Action ι β → Context π
  | .terminate _ => context.raise
  | _ => context

@[simp] theorem raised_raise : context.raise.raised = true := rfl

@[simp] theorem raised_report [Progress.Sink π] (amount : Nat) :
    (context.report amount).raised = context.raised := rfl

end Context

theorem setIfInBounds_eq_self {α : Type} {xs : Array α} {i : Nat} {x : α}
    (here : xs[i]? = some x) : xs.setIfInBounds i x = xs := by
  grind

/-- Changing one element of a list changes its own share of a sum and no other. -/
theorem sum_map_set {α M : Type} [AddCommMonoid M] (f : α → M) {xs : List α} {i : Nat} {old : α}
    (here : xs[i]? = some old) :
    ∃ rest, (xs.map f).sum = f old + rest ∧ ∀ new, ((xs.set i new).map f).sum = f new + rest := by
  induction xs generalizing i with
  | nil => simp at here
  | cons x xs ih =>
      cases i with
      | zero =>
          obtain rfl : x = old := by simpa using here
          exact ⟨(xs.map f).sum, by simp, fun new => by simp⟩
      | succ i =>
          obtain ⟨rest, before, after⟩ := ih (by simpa using here)
          refine ⟨f x + rest, ?_, fun new => ?_⟩
          · rw [List.map_cons, List.sum_cons, before, add_left_comm]
          · rw [List.set_cons_succ, List.map_cons, List.sum_cons, after, add_left_comm]

/-! ### Flat phases -/

namespace Phase

/-- The bodies of a task that are in progress or still to begin. -/
def Stage.bodies (work : Work σ ι β) : Stage ι β → Multiset β
  | .queued item => {work.start item}
  | .active body => {body}
  | .reporting _ | .finished => 0

/-- The bodies of a phase that are in progress or still to begin. -/
def bodies (work : Work σ ι β) (phase : Phase σ ι β π) : Multiset β :=
  (phase.stages.toList.map (Stage.bodies work)).sum

/-- Nobody has requested cancellation and nothing has failed. -/
def Quiet (phase : Phase σ ι β π) : Prop := phase.context.raised = false ∧ phase.failures = []

variable {work : Work σ ι β}

theorem bodies_of_finished {phase : Phase σ ι β π}
    (through : phase.stages.all Stage.isFinished = true) :
    phase.bodies work = 0 := by
  refine List.sum_eq_zero fun share member => ?_
  obtain ⟨stage, here, rfl⟩ := List.mem_map.mp member
  have finished := Array.all_eq_true'.mp through stage (Array.mem_toList_iff.mp here)
  cases stage with
  | finished => rfl
  | queued | active | reporting => cases finished

theorem bodies_opening (items : List ι) (shared : σ) (context : Context π) :
    (opening items shared context).bodies work = work.beginnings items := by
  simp only [bodies, opening, List.map_map]
  induction items with
  | nil => rfl
  | cons item items ih =>
      simp only [List.map_cons, List.sum_cons, ih, Function.comp, Stage.bodies]
      rfl

/-- A phase that has succeeded was undisturbed work, and so was a phase that is still quiet. -/
def Faithful (work : Work σ ι β) (first : σ × Multiset β) (phase : Phase σ ι β π) : Prop :=
  match phase.caller with
  | .closed (.ok ()) => work.Runs false first (phase.shared, 0)
  | .closed (.error _) => True
  | _ => phase.Quiet → work.Runs false first (phase.shared, phase.bodies work)

namespace Faithful

variable {first : σ × Multiset β} {phase : Phase σ ι β π}

theorem begin (faithful : phase.Faithful work first) : phase.begin.Faithful work first := by
  obtain ⟨shared, context, stages, failures, caller⟩ := phase
  cases caller with
  | waiting | closed => exact faithful
  | opening =>
      simp only [Phase.begin]
      split
      · trivial
      · exact faithful

/-- A task is skipped only after a failure, so a phase that skips is not quiet. -/
theorem skip (faithful : phase.Faithful work first) (task : Nat) :
    (phase.skip task).Faithful work first := by
  obtain ⟨shared, context, stages, failures, caller⟩ := phase
  cases failures with
  | nil => exact faithful
  | cons failure failures =>
      cases caller with
      | opening | closed => exact faithful
      | waiting =>
          simp only [Phase.skip]
          split <;> exact fun quiet => absurd quiet.2 (List.cons_ne_nil _ _)

theorem close (faithful : phase.Faithful work first) (failure : Nat) :
    (phase.close failure).Faithful work first := by
  obtain ⟨shared, context, stages, failures, caller⟩ := phase
  cases caller with
  | opening | closed => exact faithful
  | waiting =>
      simp only [Phase.close]
      split
      · next outcome decided =>
          split
          · next through =>
              cases outcome with
              | error fault => trivial
              | ok done =>
                  -- Only a quiet phase is decided to have succeeded.
                  cases failures with
                  | cons failure failures => simp [outcome?] at decided
                  | nil =>
                      have calm : context.raised = false := by
                        cases raised : context.raised with
                        | false => rfl
                        | true => simp [outcome?, raised] at decided
                      have runs := faithful ⟨calm, rfl⟩
                      rwa [bodies_of_finished through] at runs
          · exact faithful
      · exact faithful

theorem cancel (faithful : phase.Faithful work first) :
    Phase.Faithful work first { phase with context := phase.context.raise } := by
  obtain ⟨shared, context, stages, failures, caller⟩ := phase
  cases caller with
  | closed outcome => cases outcome <;> exact faithful
  | opening | waiting =>
      intro quiet
      cases quiet.1

end Faithful

variable [Progress.Sink π]

/-- A step of a task after which it is quiet is undisturbed work, and it was quiet before. -/
theorem Stage.runs_next (stage : Stage ι β) (shared : σ) (context : Context π)
    (failures : List Fault) (rest : Multiset β)
    (raised : (stage.next work shared context failures).2.1.raised = false)
    (none : (stage.next work shared context failures).2.2.1 = []) :
    (context.raised = false ∧ failures = []) ∧
      work.Runs false (shared, stage.bodies work + rest)
        ((stage.next work shared context failures).1,
          (stage.next work shared context failures).2.2.2.bodies work + rest) := by
  cases stage with
  | queued item =>
      simp only [Stage.next] at raised none ⊢
      split at none
      · simp at none
      · next notRaised =>
          rw [if_neg notRaised] at raised ⊢
          exact ⟨⟨raised, none⟩, .refl⟩
  | active body =>
      simp only [Stage.next] at raised none ⊢
      rcases step : work.step shared body with ⟨store, action⟩
      rw [step] at raised none
      have single {bodies : Multiset β}
          (goesOn : action.successors work.start false = some bodies) :=
        Work.Runs.single rest step goesOn
      rcases action with next | next | ⟨item, next⟩ | next | ⟨fault | processed⟩
      · exact ⟨⟨raised, none⟩, single rfl⟩
      · have calm : context.raised = false := raised
        refine ⟨⟨calm, none⟩, ?_⟩
        simpa [Stage.bodies, calm] using single rfl
      · exact ⟨⟨raised, none⟩, single rfl⟩
      · simp at raised
      · simp at none
      · exact ⟨⟨raised, none⟩, single rfl⟩
  | reporting processed => exact ⟨⟨raised, none⟩, .refl⟩
  | finished => exact ⟨⟨raised, none⟩, .refl⟩

theorem Faithful.advance {first : σ × Multiset β} {phase : Phase σ ι β π}
    (faithful : phase.Faithful work first) (task : Nat) :
    (phase.advance work task).Faithful work first := by
  obtain ⟨shared, context, stages, failures, caller⟩ := phase
  cases caller with
  | opening | closed => exact faithful
  | waiting =>
      simp only [Phase.advance]
      split
      · next stage here =>
          intro quiet
          obtain ⟨rest, before, after⟩ := sum_map_set (Stage.bodies work)
            (show stages.toList[task]? = some stage by simpa using here)
          obtain ⟨calm, runs⟩ := stage.runs_next shared context failures rest quiet.1 quiet.2
          refine Work.Runs.trans (faithful calm) ?_
          simpa only [bodies, Array.toList_setIfInBounds, before, after] using runs
      · exact faithful

theorem Faithful.replay {first : σ × Multiset β} {phase : Phase σ ι β π}
    (faithful : phase.Faithful work first) (moves : List Move) :
    (phase.replay work moves).Faithful work first := by
  induction moves generalizing phase with
  | nil => exact faithful
  | cons move moves ih =>
      refine ih ?_
      cases move with
      | begin => exact faithful.begin
      | advance task => exact faithful.advance task
      | skip task => exact faithful.skip task
      | close failure => exact faithful.close failure
      | cancel => exact faithful.cancel

/-- However the tasks of a phase interleave, if the phase succeeds it was undisturbed work from the
first bodies of its items to no bodies at all. -/
theorem runs_of_replay {items : List ι} {shared : σ} {context : Context π} {moves : List Move}
    (succeeded : ((opening items shared context).replay work moves).caller = .closed (.ok ())) :
    work.Runs false (shared, work.beginnings items)
      (((opening items shared context).replay work moves).shared, 0) := by
  have initially : (opening items shared context).Faithful work
      (shared, work.beginnings items) := by
    intro _
    rw [bodies_opening]
    exact .refl
  have lastly := initially.replay moves
  rwa [Faithful, succeeded] at lastly

/-- A flat phase that is part of a computation and succeeds was undisturbed work. -/
theorem runs_of_run {executor : Executor} (lawful : executor.Lawful) {work : Work σ Partition β}
    {partitions : List Partition} {shared store : σ} {context context' : Context π}
    (ok : (Phase.run executor work partitions shared).perform context = (.ok store, context')) :
    work.Runs false (shared, work.beginnings partitions) (store, 0) := by
  obtain ⟨moves, replayed⟩ := lawful.phase_moves work (opening partitions shared context)
  simp only [Run.perform, Phase.run, Phase.perform, ExceptT.run, StateT.run] at ok
  split at ok
  · next answer stored _ performed =>
      obtain ⟨rfl, -⟩ : stored = store ∧ _ := by simpa using ok
      split at performed
      · cases performed
      · simp only [Prod.mk.injEq, Caller.outcome_eq_ok] at performed
        obtain ⟨⟨succeeded, rfl⟩, -⟩ := performed
        have succeeded : (executor.phase work (opening partitions shared context)).caller = _ :=
          succeeded
        show work.Runs false _ ((executor.phase work (opening partitions shared context)).shared, 0)
        rw [replayed] at succeeded ⊢
        exact runs_of_replay succeeded
  · cases ok

end Phase

end GraphAnalytics
