/-
# Faults, violations and guarded operations

An operation can go wrong in two ways. A *fault* is an answer the caller is expected to handle: a
refused reservation, a cancelled computation, an index that a checking accessor turned down. A
*violation* is a broken precondition: the caller promised something that does not hold. Both are
kept as causes, and their wording lives in one function each, so that statements about them never
mention text.

Operations on a mutable store are written as `Guarded` actions. Such an action returns the store
also when it refuses, which is what makes "refused without side effects" a statement one can write
down: the store that comes back is the store that went in.
-/

namespace GraphAnalytics

/-- The largest number of nodes one partition may hold, and the largest number of partitions one
phase accepts: `(2 ^ 31 - 1 - 32) / 2`. -/
def maxNodeCount : Nat := (0x7FFFFFFF - 32) / 2

/-- A failure that is part of an operation's contract. -/
inductive Fault where
  | indexOutOfBounds (index capacity : Nat)
  /-- The span is empty, too long, or runs past the last 64-bit id. -/
  | invalidPartition (start count : Nat)
  | tooManyPartitions (count limit : Nat)
  | reservationExceeded (requested available : Nat)
  | terminated
  | missingInput (what : String) (node : Nat)
  | invalidConfig (reason : String)
  deriving DecidableEq, Repr

def Fault.message : Fault → String
  | .indexOutOfBounds index capacity =>
      s!"index {index} is out of bounds for capacity {capacity}"
  | .invalidPartition start count =>
      s!"invalid partition starting at {start} with {count} nodes"
  | .tooManyPartitions count limit =>
      s!"{count} partitions exceed the maximum of {limit}"
  | .reservationExceeded requested available =>
      s!"memory reservation of {requested} bytes exceeds the available {available} bytes"
  | .terminated => "the computation was terminated"
  | .missingInput what node => s!"missing {what} for node {node}"
  | .invalidConfig reason => s!"invalid configuration: {reason}"

/-- A precondition that the caller broke. -/
inductive Violation where
  | indexOutOfBounds (index capacity : Nat)
  | invertedRange (low high : Nat)
  | noConcurrency
  | emptyBatch
  | oversizedBatch (size : Nat)
  | danglingRelationship (source target nodeCount : Nat)
  | danglingTarget (target nodeCount : Nat)
  | missingOffsets
  | decreasingOffsets
  | offsetsTargetsMismatch
  | externalIdsMismatch
  /-- A list was requested whose entries could not be addressed. -/
  | capacityOverflow
  /-- The parent cells lead round in a circle, so the walk has no end. -/
  | endlessWalk
  deriving DecidableEq, Repr

def Violation.message : Violation → String
  | .indexOutOfBounds index capacity =>
      s!"index {index} is out of bounds for capacity {capacity}"
  | .invertedRange low high => s!"min {low} must not exceed max {high}"
  | .noConcurrency => "concurrency must be > 0"
  | .emptyBatch => "batch size must be > 0"
  | .oversizedBatch size => s!"batch size {size} exceeds {maxNodeCount}"
  | .danglingRelationship source target nodeCount =>
      s!"relationship {source}->{target} is out of bounds for n={nodeCount}"
  | .danglingTarget target nodeCount =>
      s!"relationship to {target} out of bounds for n={nodeCount}"
  | .missingOffsets => "offsets must have length n+1"
  | .decreasingOffsets => "offsets must be monotone"
  | .offsetsTargetsMismatch => "offsets last must equal targets length"
  | .externalIdsMismatch => "one original id per node"
  | .capacityOverflow => "capacity overflow"
  | .endlessWalk => "parent cells form a cycle"

/-- An action on a store of type `σ` that answers an `α` or refuses with an `ε`. The store is
handed back in both cases. -/
abbrev Guarded (ε σ α : Type) := ExceptT ε (StateM σ) α

namespace Guarded

variable {ε σ α : Type}

def perform (action : Guarded ε σ α) (store : σ) : Except ε α × σ :=
  action.run.run store

/-- An action given by what it does to the store. -/
def ofFunction (f : σ → Except ε α × σ) : Guarded ε σ α :=
  f

def inspect (f : σ → Except ε α) : Guarded ε σ α :=
  ofFunction fun store => (f store, store)

@[simp] theorem perform_ofFunction (f : σ → Except ε α × σ) (store : σ) :
    (ofFunction f).perform store = f store := rfl

@[simp] theorem perform_inspect (f : σ → Except ε α) (store : σ) :
    (inspect f).perform store = (f store, store) := rfl

/-- An action that has answered hands its answer and the store on. -/
theorem perform_bind_of_ok {β : Type} {action : Guarded ε σ α} {store after : σ} {answer : α}
    (ok : action.perform store = (.ok answer, after)) (next : α → Guarded ε σ β) :
    (action >>= next).perform store = (next answer).perform after := by
  unfold perform at ok ⊢
  rw [ExceptT.run_bind, StateT.run_bind, ok]
  rfl

theorem perform_bind_of_error {β : Type} {action : Guarded ε σ α} {store after : σ} {refusal : ε}
    (error : action.perform store = (.error refusal, after)) (next : α → Guarded ε σ β) :
    (action >>= next).perform store = (.error refusal, after) := by
  unfold perform at error ⊢
  rw [ExceptT.run_bind, StateT.run_bind, error]
  rfl

end Guarded

/-- An action on a store of type `σ` that may fail with a fault, or refuse because a precondition is
broken. The store is handed back in every case. -/
abbrev Fallible (σ α : Type) := ExceptT Fault (Guarded Violation σ) α

namespace Fallible

variable {σ α : Type}

def perform (action : Fallible σ α) (store : σ) : Except Violation (Except Fault α) × σ :=
  Guarded.perform action.run store

/-- An action that can fail but breaks no precondition. -/
def ofGuarded (action : Guarded Fault σ α) : Fallible σ α :=
  Guarded.ofFunction fun store =>
    let (answer, store) := action.perform store
    (.ok answer, store)

@[simp] theorem perform_ofGuarded (action : Guarded Fault σ α) (store : σ) :
    (ofGuarded action).perform store =
      (.ok (action.perform store).1, (action.perform store).2) := rfl

/-- An action that breaks preconditions at most answers what it answers by itself. -/
theorem perform_lift (action : Guarded Violation σ α) (store : σ) :
    perform (ExceptT.lift action) store =
      ((action.perform store).1.map .ok, (action.perform store).2) := by
  unfold perform Guarded.perform
  rw [ExceptT.run_lift, ExceptT.run_map, StateT.run_map]
  rfl

theorem perform_bind_of_ok {β : Type} {action : Fallible σ α} {store after : σ} {answer : α}
    (ok : action.perform store = (.ok (.ok answer), after)) (next : α → Fallible σ β) :
    (action >>= next).perform store = (next answer).perform after := by
  unfold perform at ok ⊢
  rw [ExceptT.run_bind, Guarded.perform_bind_of_ok ok]

theorem perform_bind_of_fault {β : Type} {action : Fallible σ α} {store after : σ} {fault : Fault}
    (failed : action.perform store = (.ok (.error fault), after)) (next : α → Fallible σ β) :
    (action >>= next).perform store = (.ok (.error fault), after) := by
  unfold perform at failed ⊢
  rw [ExceptT.run_bind, Guarded.perform_bind_of_ok failed]
  rfl

end Fallible

end GraphAnalytics
