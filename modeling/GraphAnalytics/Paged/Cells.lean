/-
# Atomic cells

A paged array of signed words on which every access to a single cell is atomic. Adding and
exchanging are one access each. Raising a cell to a maximum takes a read and then as many exchanges
as it loses: `Cells.raising` describes the accesses one by one for any number of callers, and
`Cells.raiseTo` is the same call when it is alone (`raising_alone`).
-/

import GraphAnalytics.Paged.Array

namespace GraphAnalytics

/-- Signed words of eight bytes, in pages. -/
abbrev Cells := PagedArray 8 Int

/-- How far a call that raises a cell has come: it is about to read the cell, or to exchange the
smaller value that it has seen there. -/
inductive Raising where
  | observe
  | exchange (observed : Int)
  deriving DecidableEq

namespace Cells

def value (cells : Cells) (index : Nat) : Int := (cells.get? index).getD 0

/-- Add to a cell, wrapping, and answer what it held before. -/
def fetchAdd (cells : Cells) (index : Nat) (delta : Int) : Int × Cells :=
  let old := cells.value index
  (old, cells.set index (Word.wrapSigned (old + delta)))

/-- Replace a cell by `next` if it holds `expected`, and answer what it held before. The exchange
took place exactly if the answer is `expected`. -/
def compareExchange (cells : Cells) (index : Nat) (expected next : Int) : Int × Cells :=
  let old := cells.value index
  if old = expected then (old, cells.set index next) else (old, cells)

def guarded {α : Type} (index : Nat) (access : Cells → α × Cells) : Guarded Violation Cells α :=
  .ofFunction fun cells =>
    if index < cells.capacity then
      let (answer, cells) := access cells
      (.ok answer, cells)
    else (.error (.indexOutOfBounds index cells.capacity), cells)

def add (index : Nat) (delta : Int) : Guarded Violation Cells Int :=
  guarded index (·.fetchAdd index delta)

/-- Exchange a cell that holds `expected`, and answer what it held before. -/
def exchange (index : Nat) (expected next : Int) : Guarded Violation Cells Int :=
  guarded index (·.compareExchange index expected next)

def decideRaise (candidate observed : Int) : Turn Raising Bool :=
  if observed < candidate then .more (.exchange observed) else .done false

/-- Raising a cell to at least `candidate`, one access at a time. The answer tells whether this
call wrote the candidate. -/
def raising (index : Nat) (candidate : Int) : Machine Unit Cells Raising Bool where
  step _ cells
    | .observe => (cells, decideRaise candidate (cells.value index))
    | .exchange observed =>
        let (seen, cells) := cells.compareExchange index observed candidate
        if seen = observed then (cells, .done true) else (cells, decideRaise candidate seen)

def raise (cells : Cells) (index : Nat) (candidate : Int) : Bool × Cells :=
  if cells.value index < candidate then (true, cells.set index candidate) else (false, cells)

def raiseTo (index : Nat) (candidate : Int) : Guarded Violation Cells Bool :=
  guarded index (·.raise index candidate)

/-- A call that nobody disturbs raises the cell after at most two accesses. -/
theorem raising_alone (index : Nat) (candidate : Int) (cells : Cells) :
    (raising index candidate).alone () 2 cells .observe =
      ((cells.raise index candidate).2, some (cells.raise index candidate).1) := by
  by_cases smaller : cells.value index < candidate
  · simp [Machine.alone, raising, decideRaise, smaller, compareExchange, raise]
  · simp [Machine.alone, raising, decideRaise, smaller, raise]

/-- A plain copy of the cells: a new array, refilled by reading them. -/
def snapshot (cells : Cells) : PagedArray 8 Int :=
  (PagedArray.replicate cells.capacity 0).setEach cells.value

def describe (cells : Cells) : String :=
  s!"AtomicPagedArray \x7b capacity: {cells.capacity}, pages: {cells.pageTotal} \x7d"

end Cells

end GraphAnalytics
