/-
# Measurements

A benchmark leaves its estimates in a file `estimates.json` in a directory of its own, whose name
tells the level at which it ran and whose path tells the workload. A measurement is accepted if its
mean time is a positive number; with the number of elements per run, if the benchmark declared one,
the time gives a rate. The directories that only keep comparisons are passed over.
-/

import GraphAnalytics.Json.Reader
import GraphAnalytics.Report.Tree

namespace GraphAnalytics.Report

open Json

/-- The rate of a workload at a level, in elements per second. The level is given by the name of its
directory. -/
structure Measurement where
  workload : String
  level : String
  rate : Float

/-- The number found in a document under two keys, one inside the other. -/
def numberAt (outer inner : String) (text : String) : Option Float :=
  match Reader.whole (Reader.value nestingLimit) text with
  | .ok document => (document.get? outer).bind fun value => (value.get? inner).bind Value.toFloat?
  | .error _ => none

/-- The rate that the files of a directory give: how many elements a run has, one unless stated
otherwise, by the mean time of a run in nanoseconds. -/
def rate? (directory : Tree) : Option Float := do
  let time ← numberAt "mean" "point_estimate" (← directory.text? ["estimates.json"])
  guard (time > 0)
  let elements := (directory.text? ["benchmark.json"]).bind (numberAt "throughput" "Elements")
  return elements.getD 1 * 1e9 / time

/-- Directories that keep comparisons and no measurements of their own. -/
def isBaseline (name : String) : Bool := name == "report" || name == "new" || name == "base"

/-- The measurement in the directory at the end of a path, whose names are given last first. The
topmost directory counts as a level named after it, of a workload without a name. -/
def measurementIn (top : String) (trail : List String) (directory : Tree) : Option Measurement := do
  let (level, workload) := match trail with
    | [] => (top, [])
    | level :: workload => (level, workload)
  guard !(isBaseline level)
  return ⟨"/".intercalate workload.reverse, level, ← rate? directory⟩

mutual

/-- The measurements in a directory and in all directories below it. -/
def measurements (top : String) (trail : List String) : Tree → List Measurement
  | .file _ => []
  | .directory entries =>
      (measurementIn top trail (.directory entries)).toList ++ measurementsBelow top trail entries

def measurementsBelow (top : String) (trail : List String) :
    List (String × Tree) → List Measurement
  | [] => []
  | (name, tree) :: entries =>
      measurements top (name :: trail) tree ++ measurementsBelow top trail entries

end

end GraphAnalytics.Report
