/-
# Computations that succeed and computations that stop

A computation that succeeds has succeeded in each of its parts, one after the other, and one that
stops has stopped in one of them. The lemmas here take a computation apart, part by part, from the
fact that it answers or does not.

What is stated of computations is stated for every executor whose answers come about by moves. The
single worker is one of them, whatever its step budget.
-/

import GraphAnalytics.Schedule.Executor

namespace GraphAnalytics

open Progress

namespace Run

variable {π α β : Type} {context context' : Context π} {computation : Run π α}

/-- Of two computations in a row the second starts where the first has succeeded. -/
theorem perform_bind (first : Run π α) (second : α → Run π β) :
    (first >>= second).perform context =
      match first.perform context with
      | (.ok between, middle) => (second between).perform middle
      | (.error stop, middle) => (.error stop, middle) := by
  simp only [perform, ExceptT.run_bind, StateT.run_bind]
  rcases first.run.run context with ⟨stop | between, middle⟩ <;> rfl

theorem perform_bind_ok {first : Run π α} {second : α → Run π β} {answer : β} :
    (first >>= second).perform context = (.ok answer, context') ↔
      ∃ between middle, first.perform context = (.ok between, middle) ∧
        (second between).perform middle = (.ok answer, context') := by
  rw [perform_bind]
  rcases first.perform context with ⟨stop | between, middle⟩
  · simp
  · constructor
    · exact fun answered => ⟨between, middle, rfl, answered⟩
    · rintro ⟨_, _, ⟨⟩, answered⟩
      exact answered

theorem perform_bind_error {first : Run π α} {second : α → Run π β} {stop : Stop} :
    (first >>= second).perform context = (.error stop, context') ↔
      first.perform context = (.error stop, context') ∨
        ∃ between middle, first.perform context = (.ok between, middle) ∧
          (second between).perform middle = (.error stop, context') := by
  rw [perform_bind]
  rcases first.perform context with ⟨reason | between, middle⟩
  · simp
  · constructor
    · exact fun stopped => .inr ⟨between, middle, rfl, stopped⟩
    · rintro (⟨⟨⟩⟩ | ⟨_, _, ⟨⟩, stopped⟩)
      exact stopped

theorem perform_bind_of_ok {first : Run π α} {between : α} {middle : Context π}
    (ok : first.perform context = (.ok between, middle)) (second : α → Run π β) :
    (first >>= second).perform context = (second between).perform middle := by
  rw [perform_bind, ok]

theorem perform_bind_of_error {first : Run π α} {stop : Stop} {middle : Context π}
    (stopped : first.perform context = (.error stop, middle)) (second : α → Run π β) :
    (first >>= second).perform context = (.error stop, middle) := by
  rw [perform_bind, stopped]

theorem perform_pure_ok {given answer : α} :
    (pure given : Run π α).perform context = (.ok answer, context') ↔
      given = answer ∧ context = context' := by
  show ((.ok given, context) : Except Stop α × Context π) = _ ↔ _
  simp

theorem perform_ofViolation_ok {result : Except Violation α} {answer : α} :
    (ofViolation result : Run π α).perform context = (.ok answer, context') ↔
      result = .ok answer ∧ context = context' := by
  cases result with
  | ok given => exact (perform_pure_ok (π := π)).trans (by simp)
  | error violation =>
      show ((.error (.violation violation), context) : Except Stop α × Context π) = _ ↔ _
      simp

/-- A computation whose answer has some value under a function has succeeded. -/
theorem exists_of_map_perform {f : α → β} {value : β}
    (h : (computation.perform context).1.map f = .ok value) :
    ∃ answer context', computation.perform context = (.ok answer, context') ∧ f answer = value := by
  rcases performed : computation.perform context with ⟨stop | answer, context'⟩ <;>
    rw [performed] at h
  · cases h
  · exact ⟨answer, context', rfl, Except.ok.inj h⟩

end Run

/-! ### The single worker -/

variable {σ ι β π : Type} [Sink π]

theorem Phase.runInOrder_moves (work : Work σ ι β) (fuel task : Nat) (phase : Phase σ ι β π) :
    ∃ moves, phase.runInOrder work fuel task = phase.replay work moves := by
  induction fuel generalizing task phase with
  | zero => exact ⟨[], rfl⟩
  | succ fuel ih =>
      have after (move : Move) (next : Nat) : ∃ moves,
          (phase.apply work move).runInOrder work fuel next = phase.replay work moves := by
        obtain ⟨moves, same⟩ := ih next (phase.apply work move)
        exact ⟨move :: moves, same⟩
      unfold runInOrder
      split
      · exact after .begin task
      · exact ⟨[], rfl⟩
      · split
        · exact after (.close 0) task
        · exact ih (task + 1) phase
        · exact after _ task
        · exact after (.advance task) task

theorem ForkJoin.runNewestFirst_moves (work : Work σ ι β) (fuel : Nat) (stack : List Nat)
    (phase : ForkJoin σ ι β π) :
    ∃ moves, phase.runNewestFirst work fuel stack = phase.replay work moves := by
  induction fuel generalizing stack phase with
  | zero => exact ⟨[], rfl⟩
  | succ fuel ih =>
      have after (move : Move) (next : List Nat) : ∃ moves,
          (phase.apply work move).runNewestFirst work fuel next = phase.replay work moves := by
        obtain ⟨moves, same⟩ := ih next (phase.apply work move)
        exact ⟨move :: moves, same⟩
      unfold runNewestFirst
      split
      · exact ⟨[], rfl⟩
      · exact after .begin _
      · exact after .close []
      · next task others _ =>
          split
          · exact after (.advance task) _
          · exact ih others phase

/-- Whatever its step budget, what a single worker answers comes about by moves. -/
theorem Executor.singleWorker_lawful (fuel : Nat) : (singleWorker fuel).Lawful where
  phase_moves work phase := phase.runInOrder_moves work fuel 0
  forkJoin_moves work phase := phase.runNewestFirst_moves work fuel []

end GraphAnalytics
