/-
# Log events

What the library reports while it works. An event is its cause; its level, its message and its
fields are read off the cause, so that the wording is fixed in one place.
-/

import GraphAnalytics.Text.Quoted

namespace GraphAnalytics

inductive Level where
  | debug
  | info
  | warn
  deriving DecidableEq, Repr

def Level.text : Level → String
  | .debug => "DEBUG"
  | .info => "INFO"
  | .warn => "WARN"

inductive FieldValue where
  | number (n : Nat)
  | truth (b : Bool)
  | text (s : String)
  deriving DecidableEq, Repr

/-- Something worth a line in the log. -/
inductive Event where
  /-- Cancellation was requested for the first time. -/
  | terminationRequested
  | phaseStarted (partitions : Nat)
  | phaseFinished (partitions : Nat) (ok : Bool)
  | forkJoinStarted (roots : Nat)
  | forkJoinFinished (roots tasks drained : Nat)
  | taskStarted (path : String) (volume : Nat)
  | taskReached (path : String) (percent : Nat)
  /-- A task was ended that is not the innermost one. -/
  | unbalancedEnd (path ended : String)
  | taskFinished (path : String) (processed : Nat)
  | sortStarted (nodeCount : Nat) (longestPaths : Bool)
  | sortFinished (sorted nodeCount roots : Nat)
  | componentsStarted (nodeCount partitions : Nat)
  | componentsFinished (relationships : Nat)
  deriving DecidableEq, Repr

namespace Event

def level : Event → Level
  | terminationRequested | phaseStarted .. | phaseFinished .. | forkJoinStarted ..
  | forkJoinFinished .. => .debug
  | unbalancedEnd .. => .warn
  | _ => .info

def message : Event → String
  | terminationRequested => "termination requested"
  | phaseStarted .. => "partition phase started"
  | phaseFinished .. => "partition phase finished"
  | forkJoinStarted .. => "fork/join phase started"
  | forkJoinFinished .. => "fork/join phase finished"
  | taskStarted .. => "start"
  | taskReached _ percent => s!"{percent}%"
  | unbalancedEnd .. => "unbalanced end of sub task"
  | taskFinished .. => "finished"
  | sortStarted .. => "topological sort started"
  | sortFinished .. => "topological sort finished"
  | componentsStarted .. => "wcc started"
  | componentsFinished .. => "wcc finished"

def fields : Event → List (String × FieldValue)
  | terminationRequested => []
  | phaseStarted partitions => [("partitions", .number partitions)]
  | phaseFinished partitions ok => [("partitions", .number partitions), ("ok", .truth ok)]
  | forkJoinStarted roots => [("roots", .number roots)]
  | forkJoinFinished roots tasks drained =>
      [("roots", .number roots), ("tasks", .number tasks), ("roots_completed", .number drained)]
  | taskStarted path volume => [("task", .text path), ("volume", .number volume)]
  | taskReached path _ => [("task", .text path)]
  | unbalancedEnd path ended => [("task", .text path), ("ended", .text (Text.quoted ended))]
  | taskFinished path processed => [("task", .text path), ("processed", .number processed)]
  | sortStarted nodeCount longestPaths =>
      [("node_count", .number nodeCount), ("longest_path", .truth longestPaths)]
  | sortFinished sorted nodeCount roots =>
      [("sorted", .number sorted), ("node_count", .number nodeCount), ("roots", .number roots)]
  | componentsStarted nodeCount partitions =>
      [("node_count", .number nodeCount), ("partitions", .number partitions)]
  | componentsFinished relationships => [("relationships", .number relationships)]

end Event

end GraphAnalytics
