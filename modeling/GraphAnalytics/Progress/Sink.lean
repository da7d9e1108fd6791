/-
# Progress sinks

Computations announce the tasks they enter and leave and the amounts they have processed, and do not
care who listens. A sink is whatever keeps track of that. Every announcement may leave something in
the log.
-/

import GraphAnalytics.Event

namespace GraphAnalytics.Progress

/-- A type whose values keep track of announced progress: that a task of known or unknown volume is
entered, that the task entered last is left, and that more elements were processed. -/
class Sink (π : Type) where
  enter : String → π → π × List Event
  enterSized (name : String) (volume : Nat) : π → π × List Event := enter name
  leave : String → π → π × List Event
  log : Nat → π → π × List Event

inductive Silent where
  | silent

instance : Sink Silent where
  enter _ sink := (sink, [])
  leave _ sink := (sink, [])
  log _ sink := (sink, [])

end GraphAnalytics.Progress
