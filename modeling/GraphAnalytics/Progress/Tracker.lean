/-
# The logging tracker

A tracker knows the path of the tasks that are open and, for the innermost one, how much it is to
process, how much it has processed, and the last percentage that was logged. Entering a task sets
the counters of the enclosing one aside and starts from zero; leaving it brings them back. Leaving
any other task than the innermost is reported and changes nothing.

Percentages are logged in steps: only multiples of the step are, and each at most once.
-/

import GraphAnalytics.Progress.Sink
import GraphAnalytics.Word

namespace GraphAnalytics.Progress

/-- What is counted for one task: its volume, or zero if that is not known; how much of it has been
processed; and the last percentage that was logged. -/
structure Counters where
  volume : Nat := 0
  processed : Nat := 0
  percent : Nat := 0
  deriving DecidableEq, Repr

/-- An open task, with the counters of the task around it, which are set aside until it is left. -/
structure OpenTask where
  name : String
  outer : Counters
  deriving DecidableEq, Repr

/-- A sink that logs the tasks it hears of and the percentages they reach, in multiples of `step`.
The open tasks are listed from the innermost outwards, and the counters are those of the
innermost. -/
structure Tracker where
  name : String
  step : Nat
  tasks : List OpenTask := []
  counters : Counters := {}
  deriving DecidableEq, Repr

namespace Tracker

/-- A tracker without open tasks that logs every `step` percent, at least every and at most every
hundred. -/
def withStep (name : String) (step : Nat) : Tracker where
  name
  step := min (max step 1) 100

def named (name : String) : Tracker := withStep name 10

/-- The names of the open tasks behind the tracker's own, outermost first. -/
def path (tracker : Tracker) : String :=
  tracker.tasks.foldr (fun task path => path ++ " :: " ++ task.name) tracker.name

def enterSized (name : String) (volume : Nat) (tracker : Tracker) : Tracker × List Event :=
  let tracker := { tracker with
    tasks := ⟨name, tracker.counters⟩ :: tracker.tasks
    counters := { volume } }
  (tracker, [.taskStarted tracker.path volume])

/-- Close the innermost task if it has the given name. -/
def leave (name : String) (tracker : Tracker) : Tracker × List Event :=
  let finished := Event.taskFinished tracker.path tracker.counters.processed
  match tracker.tasks with
  | task :: tasks =>
      if task.name = name then
        ({ tracker with tasks, counters := task.outer }, [finished])
      else (tracker, [.unbalancedEnd tracker.path name, finished])
  | [] => (tracker, [.unbalancedEnd tracker.path name, finished])

/-- The percentage to log for so much of a volume: a multiple of the step. -/
def percentAt (step processed volume : Nat) : Nat :=
  let percent := min (Word.satMul processed 100 / volume) 100
  percent - percent % step

/-- Count more processed elements, and log the percentage if it has risen. -/
def log (amount : Nat) (tracker : Tracker) : Tracker × List Event :=
  let ⟨volume, processed, percent⟩ := tracker.counters
  let processed := Word.wrap (processed + amount)
  if volume = 0 then ({ tracker with counters := ⟨volume, processed, percent⟩ }, [])
  else
    let reached := percentAt tracker.step processed volume
    if percent < reached then
      let tracker := { tracker with counters := ⟨volume, processed, reached⟩ }
      (tracker, [.taskReached tracker.path reached])
    else ({ tracker with counters := ⟨volume, processed, percent⟩ }, [])

end Tracker

instance : Sink Tracker where
  enter name := Tracker.enterSized name 0
  enterSized := Tracker.enterSized
  leave := Tracker.leave
  log := Tracker.log

end GraphAnalytics.Progress
