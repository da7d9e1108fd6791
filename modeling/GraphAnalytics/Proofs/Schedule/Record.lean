/-
# What happens in a fork/join phase

Seen from outside, a fork/join phase is a list of happenings: bodies begin and return, their calls
for a fork are answered, cancellation is requested, and the sink is told of amounts. `record` is
that list for a list of moves, up to the moment at which the caller returns.

What is to be known about it is stated as an invariant that links what has happened to the hub and
the tasks, and as a verdict on phases that are over. `Obligations` collects what has to be checked
for that, one field per kind of move, and `Obligations.replay` is the induction over the moves.
-/

import GraphAnalytics.Proofs.Schedule.Forking

namespace GraphAnalytics.ForkJoin

variable {σ ι β π : Type}

/-- Something that happens in a fork/join phase, whose tasks are numbered in the order in which they
were queued. Cancellation is requested, by a body or from outside; the body of a task begins on its
item, is told whether the child that it forks will be scheduled, or returns; or the sink is told
that so many elements were processed. -/
inductive Happening (ι : Type) where
  | requested
  | started (task : Nat) (item : ι)
  | forked (task : Nat) (child : ι) (accepted : Bool)
  | returned (task : Nat) (outcome : Except Fault Nat)
  | reported (amount : Nat)

namespace Happening

def child? : Happening ι → Option ι
  | forked _ child true => some child
  | _ => none

def beginningOf? (task : Nat) : Happening ι → Option ι
  | started number item => if number = task then some item else none
  | _ => none

def endOf? (task : Nat) : Happening ι → Option (Except Fault Nat)
  | returned number outcome => if number = task then some outcome else none
  | _ => none

def count? : Happening ι → Option Nat
  | returned _ (.ok processed) => some processed
  | _ => none

def amount? : Happening ι → Option Nat
  | reported amount => some amount
  | _ => none

def isFork : Happening ι → Bool
  | forked .. => true
  | _ => false

end Happening

/-- The items of all tasks that were ever queued: the seeds, and the children of accepted forks. -/
def queue (seeds : List ι) (past : List (Happening ι)) : List ι :=
  seeds ++ past.filterMap Happening.child?

def beginnings (task : Nat) (past : List (Happening ι)) : List ι :=
  past.filterMap (Happening.beginningOf? task)

def endings (task : Nat) (past : List (Happening ι)) : List (Except Fault Nat) :=
  past.filterMap (Happening.endOf? task)

def counts (past : List (Happening ι)) : List Nat := past.filterMap Happening.count?

def amounts (past : List (Happening ι)) : List Nat := past.filterMap Happening.amount?

def forks (past : List (Happening ι)) : Nat := past.countP Happening.isFork

/-- What happens when a task makes a step. -/
def Stage.happenings (work : Work σ ι β) (number : Nat) (hub : Hub σ π) :
    Stage ι β → List (Happening ι)
  | .admitted item => [.started number item]
  | .active body =>
      match (work.step hub.shared body).2 with
      | .terminate _ => [.requested]
      | .finish outcome => [.returned number outcome]
      | _ => []
  | .forking child _ => if hub.aborted then [.forked number child false] else []
  | .unabortedFork child _ => if hub.context.raised then [.forked number child false] else []
  | .queueing child _ => [.forked number child true]
  | .reporting processed => [.reported processed]
  | _ => []

/-- What happens at a move. Once the caller has returned, nothing does. -/
def happenings (work : Work σ ι β) : ForkJoin σ ι β π → Move → List (Happening ι)
  | ⟨_, _, .closed _⟩, _ => []
  | _, .cancel => [.requested]
  | ⟨hub, tasks, .waiting⟩, .advance number =>
      match tasks[number]? with
      | some ⟨_, stage⟩ => stage.happenings work number hub
      | none => []
  | _, _ => []

/-- A phase as far as its caller can tell: what is shared and the tasks while it waits, and what it
was given once it has returned. -/
def Holds (Inv : List (Happening ι) → Hub σ π → Array (Task ι β) → Prop)
    (Verdict : List (Happening ι) → π → Except Fault Stats → Prop) (past : List (Happening ι))
    (phase : ForkJoin σ ι β π) : Prop :=
  match phase.caller with
  | .closed outcome => Verdict past phase.hub.context.sink outcome
  | _ => Inv past phase.hub phase.tasks

variable [Progress.Sink π]

/-- What happens in a list of moves. -/
def record (work : Work σ ι β) : ForkJoin σ ι β π → List Move → List (Happening ι)
  | _, [] => []
  | phase, move :: moves =>
      phase.happenings work move ++ record work (phase.apply work move) moves

theorem advance_of_getElem? (work : Work σ ι β) {hub : Hub σ π} {tasks : Array (Task ι β)}
    {number root : Nat} {stage : Stage ι β} (here : tasks[number]? = some ⟨root, stage⟩) :
    advance work number ⟨hub, tasks, .waiting⟩ =
      ⟨(stage.next work root hub).1,
        replaced tasks number root (stage.next work root hub).2.1 (stage.next work root hub).2.2,
        .waiting⟩ := by
  simp only [advance, here]
  rcases stage.next work root hub with ⟨hub, stage, child⟩
  cases child <;> rfl

/-- What has to be checked of an invariant and a verdict, one field per kind of move. The caller's
own moves leave nothing but an event in the log until it returns. -/
structure Obligations (work : Work σ ι β)
    (Inv : List (Happening ι) → Hub σ π → Array (Task ι β) → Prop)
    (Verdict : List (Happening ι) → π → Except Fault Stats → Prop) : Prop where
  advance : ∀ {past hub tasks number root stage}, Inv past hub tasks →
    tasks[number]? = some ⟨root, stage⟩ →
      Inv (past ++ stage.happenings work number hub) (stage.next work root hub).1
        (replaced tasks number root (stage.next work root hub).2.1 (stage.next work root hub).2.2)
  cancel : ∀ {past hub tasks}, Inv past hub tasks →
    Inv (past ++ [.requested]) { hub with context := hub.context.raise } tasks
  note : ∀ {past hub tasks} event, Inv past hub tasks →
    Inv past { hub with context := hub.context.record event } tasks
  refuse : ∀ {past hub tasks}, Inv past hub tasks → hub.context.raised = true →
    Verdict past hub.context.sink (.error .terminated)
  close : ∀ {past hub tasks}, Inv past hub tasks → tasks.all Task.isFinished = true →
    Verdict past hub.context.sink hub.outcome

namespace Obligations

variable {work : Work σ ι β} {Inv : List (Happening ι) → Hub σ π → Array (Task ι β) → Prop}
  {Verdict : List (Happening ι) → π → Except Fault Stats → Prop}
  {past : List (Happening ι)} {phase : ForkJoin σ ι β π}

theorem apply (obligations : Obligations work Inv Verdict) (holds : Holds Inv Verdict past phase)
    (move : Move) :
    Holds Inv Verdict (past ++ phase.happenings work move) (phase.apply work move) := by
  obtain ⟨hub, tasks, caller⟩ := phase
  cases caller with
  | closed outcome =>
      simp only [happenings, List.append_nil]
      cases move <;> exact holds
  | opening =>
      cases move with
      | begin =>
          simp only [happenings, List.append_nil]
          simp only [ForkJoin.apply, ForkJoin.begin]
          split
          · next raised => exact obligations.refuse holds raised
          · exact obligations.note _ holds
      | cancel => exact obligations.cancel holds
      | advance | close =>
          simp only [happenings, List.append_nil]
          exact holds
  | waiting =>
      cases move with
      | cancel => exact obligations.cancel holds
      | begin =>
          simp only [happenings, List.append_nil]
          exact holds
      | close =>
          simp only [happenings, List.append_nil]
          simp only [ForkJoin.apply, ForkJoin.close]
          split
          · next through =>
              have verdict := obligations.close holds through
              exact verdict
          · exact holds
      | advance number =>
          simp only [happenings, ForkJoin.apply]
          cases here : tasks[number]? with
          | none =>
              simp only [ForkJoin.advance, here, List.append_nil]
              exact holds
          | some task =>
              obtain ⟨root, stage⟩ := task
              rw [advance_of_getElem? work here]
              exact obligations.advance holds here

theorem replay (obligations : Obligations work Inv Verdict) (holds : Holds Inv Verdict past phase)
    (moves : List Move) :
    Holds Inv Verdict (past ++ phase.record work moves) (phase.replay work moves) := by
  induction moves generalizing past phase with
  | nil => rwa [record, List.append_nil]
  | cons move moves ih =>
      rw [record, ← List.append_assoc]
      exact ih (obligations.apply holds move)

/-- Whatever the caller of a phase is given, the verdict says about all that has happened. -/
theorem verdict (obligations : Obligations work Inv Verdict) {seeds : List ι} {shared : σ}
    {context : Context π} {moves : List Move} {outcome : Except Fault Stats}
    (initially : Inv [] (opening seeds shared context : ForkJoin σ ι β π).hub
      (opening seeds shared context : ForkJoin σ ι β π).tasks)
    (closed : ((opening seeds shared context).replay work moves).caller = .closed outcome) :
    Verdict ((opening seeds shared context).record work moves)
      ((opening seeds shared context).replay work moves).hub.context.sink outcome := by
  have first : Holds Inv Verdict [] (opening seeds shared context) := initially
  have lastly := obligations.replay first moves
  rwa [List.nil_append, Holds, closed] at lastly

end Obligations

end GraphAnalytics.ForkJoin
