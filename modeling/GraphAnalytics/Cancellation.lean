/-
# Cancellation flags

A flag is raised once and stays raised. Handles share flags: a duplicate of a handle stands for the
same flag, so raising through one handle is seen through all of them. A `Board` keeps the flags and
the handles, both numbered from zero in the order in which they were made.
-/

import GraphAnalytics.Event
import GraphAnalytics.Fault

namespace GraphAnalytics.Cancellation

/-- Flags and the handles to them: whether each flag is raised, and the flag that each handle stands
for. -/
structure Board where
  raised : Array Bool := #[false]
  handles : Array Nat := #[0]

namespace Board

/-- The flag behind a handle. A handle that was never made stands for no flag. -/
def flagOf (board : Board) (handle : Nat) : Nat :=
  (board.handles[handle]?).getD board.raised.size

def isRunning (board : Board) (handle : Nat) : Bool :=
  !(board.raised[board.flagOf handle]?).getD false

def fresh (board : Board) : Board where
  raised := board.raised.push false
  handles := board.handles.push board.raised.size

def duplicate (board : Board) (handle : Nat) : Board :=
  { board with handles := board.handles.push (board.flagOf handle) }

/-- Raise the flag. Only the first request is reported. -/
def terminate (board : Board) (handle : Nat) : Board × List Event :=
  ({ board with raised := board.raised.modify (board.flagOf handle) fun _ => true },
    if board.isRunning handle then [.terminationRequested] else [])

def assertRunning (board : Board) (handle : Nat) : Except Fault Unit :=
  if board.isRunning handle then .ok () else .error .terminated

def running (board : Board) : List Bool :=
  (List.range board.handles.size).map board.isRunning

end Board

end GraphAnalytics.Cancellation
