/-
# What happens in a flat phase

Seen from outside, a flat phase is a list of happenings: bodies begin and return, the sink is told of
amounts, and cancellation is requested. `record` is that list for a list of moves, up to the moment
at which the caller returns, and `trace` is what of it has happened to one task.

A step of a task makes happen to it what its next stage tells (`Stage.told_next`) and nothing to the
others. A task that is dropped tells of no body, and is dropped only after a failure.
-/

import GraphAnalytics.Proofs.Schedule.Drained

namespace GraphAnalytics.Phase

open Progress
open ForkJoin (received)

variable {σ ι β π : Type}

/-- Something that happens in a flat phase. Cancellation is requested, by a body or from outside;
the body of a task begins on its item, or returns; or the sink is told on behalf of a task that so
many elements were processed. -/
inductive Happening (ι : Type) where
  | requested
  | started (task : Nat) (item : ι)
  | returned (task : Nat) (outcome : Except Fault Nat)
  | reported (task : Nat) (amount : Nat)

namespace Happening

def beginningOf? (task : Nat) : Happening ι → Option ι
  | started number item => if number = task then some item else none
  | _ => none

def endOf? (task : Nat) : Happening ι → Option (Except Fault Nat)
  | returned number outcome => if number = task then some outcome else none
  | _ => none

def amountOf? (task : Nat) : Happening ι → Option Nat
  | reported number amount => if number = task then some amount else none
  | _ => none

def amount? : Happening ι → Option Nat
  | reported _ amount => some amount
  | _ => none

end Happening

def beginnings (task : Nat) (past : List (Happening ι)) : List ι :=
  past.filterMap (Happening.beginningOf? task)

def endings (task : Nat) (past : List (Happening ι)) : List (Except Fault Nat) :=
  past.filterMap (Happening.endOf? task)

/-- The amounts that the sink was told on behalf of a task, first to last. -/
def reports (task : Nat) (past : List (Happening ι)) : List Nat :=
  past.filterMap (Happening.amountOf? task)

def amounts (past : List (Happening ι)) : List Nat := past.filterMap Happening.amount?

/-- What happens when a task makes a step. -/
def Stage.happenings (work : Work σ ι β) (task : Nat) (shared : σ) (context : Context π) :
    Stage ι β → List (Happening ι)
  | .queued item => if context.raised then [] else [.started task item]
  | .active body =>
      match (work.step shared body).2 with
      | .terminate _ => [.requested]
      | .finish outcome => [.returned task outcome]
      | _ => []
  | .reporting processed => [.reported task processed]
  | .finished => []

/-- What happens at a move. Once the caller has returned, nothing does. -/
def happenings (work : Work σ ι β) : Phase σ ι β π → Move → List (Happening ι)
  | ⟨_, _, _, _, .closed _⟩, _ => []
  | _, .cancel => [.requested]
  | ⟨shared, context, stages, _, .waiting⟩, .advance task =>
      match stages[task]? with
      | some stage => stage.happenings work task shared context
      | none => []
  | _, _ => []

section

variable (work : Work σ ι β) (phase : Phase σ ι β π)

theorem happenings_begin : phase.happenings work .begin = [] := by
  obtain ⟨_, _, _, _, _ | _ | _⟩ := phase <;> rfl

theorem happenings_skip (task : Nat) : phase.happenings work (.skip task) = [] := by
  obtain ⟨_, _, _, _, _ | _ | _⟩ := phase <;> rfl

theorem happenings_close (failure : Nat) : phase.happenings work (.close failure) = [] := by
  obtain ⟨_, _, _, _, _ | _ | _⟩ := phase <;> rfl

end

/-- What has happened to one task: on which items its body began, what it returned, and what the
sink was told. -/
structure Trace (ι : Type) where
  began : List ι
  ended : List (Except Fault Nat)
  told : List Nat

def trace (task : Nat) (past : List (Happening ι)) : Trace ι :=
  ⟨beginnings task past, endings task past, reports task past⟩

namespace Trace

def blank : Trace ι := ⟨[], [], []⟩

/-- The body has run on the item and has succeeded, and its count was told. -/
def served (item : ι) (count : Nat) : Trace ι := ⟨[item], [.ok count], [count]⟩

def append (first second : Trace ι) : Trace ι :=
  ⟨first.began ++ second.began, first.ended ++ second.ended, first.told ++ second.told⟩

end Trace

/-- What has happened to a task on an item agrees with how far the task has come. `failed` tells
whether something has failed, in which case tasks may be dropped. -/
def Stage.Told (failed : Prop) (item : ι) (trace : Trace ι) : Stage ι β → Prop
  | .queued own => own = item ∧ trace = .blank
  | .active _ => trace = ⟨[item], [], []⟩
  | .reporting processed => trace = ⟨[item], [.ok processed], []⟩
  | .finished =>
      (∃ count, trace = .served item count) ∨
        failed ∧ (trace = .blank ∨ ∃ fault, trace = ⟨[item], [.error fault], []⟩)

/-! ### Happenings in a row -/

@[simp] theorem trace_nil (task : Nat) : trace task ([] : List (Happening ι)) = .blank := rfl

theorem trace_append (task : Nat) (past more : List (Happening ι)) :
    trace task (past ++ more) = (trace task past).append (trace task more) := by
  simp only [trace, beginnings, endings, reports, List.filterMap_append, Trace.append]

@[simp] theorem Trace.append_blank (trace : Trace ι) : trace.append .blank = trace := by
  simp [Trace.append, Trace.blank]

@[simp] theorem trace_requested (task : Nat) :
    trace task [(.requested : Happening ι)] = .blank := rfl

theorem trace_started (task number : Nat) (item : ι) :
    trace task [.started number item] = if number = task then ⟨[item], [], []⟩ else .blank := by
  by_cases same : number = task <;> simp [trace, beginnings, endings, reports, same, Trace.blank,
    Happening.beginningOf?, Happening.endOf?, Happening.amountOf?]

theorem trace_returned (task number : Nat) (outcome : Except Fault Nat) :
    trace task [(.returned number outcome : Happening ι)] =
      if number = task then ⟨[], [outcome], []⟩ else .blank := by
  by_cases same : number = task <;> simp [trace, beginnings, endings, reports, same, Trace.blank,
    Happening.beginningOf?, Happening.endOf?, Happening.amountOf?]

theorem trace_reported (task number amount : Nat) :
    trace task [(.reported number amount : Happening ι)] =
      if number = task then ⟨[], [], [amount]⟩ else .blank := by
  by_cases same : number = task <;> simp [trace, beginnings, endings, reports, same, Trace.blank,
    Happening.beginningOf?, Happening.endOf?, Happening.amountOf?]

theorem amounts_append (past more : List (Happening ι)) :
    amounts (past ++ more) = amounts past ++ amounts more := List.filterMap_append

theorem filterMap_range_eq {α : Type} {number size : Nat} (inside : number < size) (x : α) :
    (List.range size).filterMap (fun task => if number = task then some x else none) = [x] := by
  induction size with
  | zero => cases inside
  | succ size ih =>
      rw [List.range_succ, List.filterMap_append]
      by_cases last : number = size
      · subst last
        have before : (List.range number).filterMap
            (fun task => if number = task then some x else none) = [] := by
          refine List.filterMap_eq_nil_iff.mpr fun task member => ?_
          rw [if_neg (Nat.ne_of_gt (List.mem_range.mp member))]
        simp [before]
      · rw [ih (by omega)]
        simp [last]

/-- If the sink was told on behalf of the first tasks only, it was told what it was told on behalf of
each of them. -/
theorem amounts_perm {size : Nat} {past : List (Happening ι)}
    (inside : ∀ task amount, .reported task amount ∈ past → task < size) :
    (amounts past).Perm ((List.range size).flatMap (reports · past)) := by
  induction past with
  | nil => simp [amounts, reports]
  | cons happening past ih =>
      have first : (List.range size).flatMap (fun task => (happening.amountOf? task).toList) =
          happening.amount?.toList := by
        rw [← List.filterMap_eq_flatMap_toList]
        cases happening with
        | reported number amount =>
            exact filterMap_range_eq (inside number amount List.mem_cons_self) amount
        | _ => exact List.filterMap_eq_nil_iff.mpr fun _ _ => rfl
      have split (task : Nat) : reports task (happening :: past) =
          (happening.amountOf? task).toList ++ reports task past := by
        rw [reports, List.filterMap_cons]
        cases happening.amountOf? task <;> rfl
      have all : amounts (happening :: past) = happening.amount?.toList ++ amounts past := by
        rw [amounts, List.filterMap_cons]
        cases happening.amount? <;> rfl
      simp only [split]
      rw [all, ← first]
      exact ((ih fun task amount member => inside task amount
        (List.mem_cons_of_mem _ member)).append_left _).trans (List.flatMap_append_perm _ _ _)

/-! ### Steps of a task -/

namespace Stage

variable {work : Work σ ι β} {stage : Stage ι β} {task : Nat} {shared : σ} {context : Context π}
  {failures : List Fault}

theorem Told.mono {before after : Prop} (grows : before → after) {item : ι} {trace : Trace ι}
    (told : stage.Told before item trace) : stage.Told after item trace := by
  cases stage with
  | finished => exact told.imp_right (And.imp_left grows)
  | _ => exact told

/-- A body began once at most, on the item of its task, and the sink was told if it succeeded. -/
theorem Told.honest {failed : Prop} {item : ι} {trace : Trace ι}
    (told : stage.Told failed item trace) :
    (trace.began = [] ∨ trace.began = [item]) ∧
      (trace.told = [] ∨ ∃ count, trace = .served item count) := by
  cases stage with
  | queued own =>
      obtain ⟨-, rfl⟩ := told
      exact ⟨.inl rfl, .inl rfl⟩
  | active body =>
      obtain rfl := told
      exact ⟨.inr rfl, .inl rfl⟩
  | reporting processed =>
      obtain rfl := told
      exact ⟨.inr rfl, .inl rfl⟩
  | finished =>
      obtain ⟨count, rfl⟩ | ⟨-, rfl | ⟨fault, rfl⟩⟩ := told
      · exact ⟨.inr rfl, .inr ⟨count, rfl⟩⟩
      · exact ⟨.inl rfl, .inl rfl⟩
      · exact ⟨.inr rfl, .inl rfl⟩

theorem trace_happenings_of_ne {other : Nat} (different : task ≠ other) :
    trace other (stage.happenings work task shared context) = .blank := by
  cases stage with
  | queued item =>
      simp only [happenings]
      split
      · rfl
      · rw [trace_started, if_neg different]
  | active body =>
      simp only [happenings]
      split
      · rfl
      · rw [trace_returned, if_neg different]
      · rfl
  | reporting processed =>
      rw [happenings, trace_reported, if_neg different]
  | finished => rfl

theorem eq_of_reported {number amount : Nat}
    (member : .reported number amount ∈ stage.happenings work task shared context) :
    number = task := by
  cases stage with
  | queued item =>
      simp only [happenings] at member
      split at member <;> simp at member
  | active body =>
      simp only [happenings] at member
      split at member <;> simp at member
  | reporting processed =>
      simp only [happenings, List.mem_singleton, Happening.reported.injEq] at member
      exact member.1
  | finished => cases member

variable [Sink π]

/-- A step of a task makes happen to it what its next stage tells. -/
theorem told_next {item : ι} {past : Trace ι} (told : stage.Told (failures ≠ []) item past) :
    (stage.next work shared context failures).2.2.2.Told
      ((stage.next work shared context failures).2.2.1 ≠ []) item
      (past.append (trace task (stage.happenings work task shared context))) := by
  cases stage with
  | queued own =>
      obtain ⟨rfl, rfl⟩ := told
      simp only [Stage.next, happenings]
      split
      · exact .inr ⟨List.append_ne_nil_of_right_ne_nil _ (List.cons_ne_nil _ _), .inl rfl⟩
      · rw [trace_started, if_pos rfl]
        rfl
  | active body =>
      obtain rfl := told
      simp only [Stage.next, happenings]
      rcases work.step shared body with ⟨store, action⟩
      rcases action with next | next | ⟨child, next⟩ | next | ⟨fault | processed⟩
      · rfl
      · rfl
      · rfl
      · rfl
      · rw [trace_returned, if_pos rfl]
        exact .inr ⟨List.append_ne_nil_of_right_ne_nil _ (List.cons_ne_nil _ _), .inr ⟨fault, rfl⟩⟩
      · rw [trace_returned, if_pos rfl]
        rfl
  | reporting processed =>
      obtain rfl := told
      rw [happenings, trace_reported, if_pos rfl]
      exact .inl ⟨processed, rfl⟩
  | finished =>
      rw [happenings, trace_nil, Trace.append_blank]
      exact told

/-- Failures are not forgotten, and a new one is what the body has returned, or the task was dropped
because of cancellation. -/
theorem failures_next : ∃ more, (stage.next work shared context failures).2.2.1 = failures ++ more ∧
    ∀ fault ∈ more, .returned task (.error fault) ∈ stage.happenings work task shared context ∨
      fault = .terminated ∧ context.raised = true := by
  have none : failures = failures ++ [] := (List.append_nil _).symm
  cases stage with
  | queued own =>
      simp only [Stage.next, happenings]
      split
      · next raised =>
          refine ⟨[.terminated], rfl, fun fault member => .inr ⟨?_, raised⟩⟩
          exact List.mem_singleton.mp member
      · exact ⟨[], none, fun _ member => absurd member List.not_mem_nil⟩
  | active body =>
      simp only [Stage.next, happenings]
      rcases work.step shared body with ⟨store, action⟩
      rcases action with next | next | ⟨child, next⟩ | next | ⟨fault | processed⟩
      case finish.error =>
        refine ⟨[fault], rfl, fun other member => .inl ?_⟩
        rw [List.mem_singleton.mp member]
        exact List.mem_singleton_self _
      all_goals exact ⟨[], none, fun _ member => absurd member List.not_mem_nil⟩
  | reporting processed => exact ⟨[], none, fun _ member => absurd member List.not_mem_nil⟩
  | finished => exact ⟨[], none, fun _ member => absurd member List.not_mem_nil⟩

/-- The flag is up after a step if it was up before or the body has requested cancellation. -/
theorem raised_next : (stage.next work shared context failures).2.1.raised = true ↔
    context.raised = true ∨ .requested ∈ stage.happenings work task shared context := by
  cases stage with
  | queued own =>
      simp only [Stage.next, happenings]
      split <;> simp
  | active body =>
      simp only [Stage.next, happenings]
      rcases work.step shared body with ⟨store, action⟩
      rcases action with next | next | ⟨child, next⟩ | next | ⟨fault | processed⟩ <;> simp
  | reporting processed => simp [Stage.next, happenings]
  | finished => simp [Stage.next, happenings]

theorem sink_next : (stage.next work shared context failures).2.1.sink =
    received context.sink (amounts (stage.happenings work task shared context)) := by
  cases stage with
  | queued own =>
      simp only [Stage.next, happenings]
      split <;> rfl
  | active body =>
      simp only [Stage.next, happenings]
      rcases work.step shared body with ⟨store, action⟩
      rcases action with next | next | ⟨child, next⟩ | next | ⟨fault | processed⟩ <;> rfl
  | reporting processed => rfl
  | finished => rfl

end Stage

variable [Sink π]

/-- What happens in a list of moves. -/
def record (work : Work σ ι β) : Phase σ ι β π → List Move → List (Happening ι)
  | _, [] => []
  | phase, move :: moves =>
      phase.happenings work move ++ record work (phase.apply work move) moves

end GraphAnalytics.Phase
