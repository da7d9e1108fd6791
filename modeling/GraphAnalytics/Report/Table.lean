/-
# The scaling table

One row per workload, in ascending order, and two columns per level: the rate, and how it compares
with the rate at the first level. A workload has a row if anything was measured for it, even if at
none of the levels asked for.
-/

import GraphAnalytics.Decimal.Fixed
import GraphAnalytics.Report.Measurement

namespace GraphAnalytics.Report

/-- A rate for a reader: millions and thousands with two places, smaller ones as whole numbers. -/
def rateText (rate : Float) : String :=
  if rate > 1000000 then Decimal.fixed 2 (rate / 1000000) ++ "M"
  else if rate > 1000 then Decimal.fixed 2 (rate / 1000) ++ "K"
  else Decimal.fixed 0 rate

def levelName (level : Nat) : String := s!"c{level}"

def rateAt (found : List Measurement) (workload : String) (level : Nat) : Option Float :=
  (found.reverse.find? fun m => m.workload = workload ∧ m.level = levelName level).map (·.rate)

/-- The workloads for which anything was measured, in ascending order. -/
def workloads (found : List Measurement) : List String :=
  ((found.map (·.workload)).mergeSort fun a b => decide (a ≤ b)).eraseReps

/-- The two cells of a level, given the rate at the first level. -/
def cells (first : Float) : Option Float → String
  | some rate =>
      let ratio := if first > 0 then rate / first else 0
      s!" {rateText rate} | **{Decimal.fixed 2 ratio}x** |"
  | none => " N/A | - |"

def row (found : List Measurement) (levels : List Nat) (workload : String) : String :=
  let first := (levels.head?.bind (rateAt found workload)).getD 0
  s!"| {workload} |" ++ String.join (levels.map fun level =>
    cells first (rateAt found workload level)) ++ "\n"

def header (levels : List Nat) : String :=
  "| Workload |" ++ String.join (levels.map fun level =>
    s!" c={level} (ops/s) | vs c={levels.headD 0} |") ++ "\n"

def rule (levels : List Nat) : String :=
  "|---|" ++ String.join (levels.map fun _ => "---|---|") ++ "\n"

def text (found : List Measurement) (levels : List Nat) : String :=
  "# Substrate Scaling Report\n\n" ++ header levels ++ rule levels ++
    String.join ((workloads found).map (row found levels))

end GraphAnalytics.Report
