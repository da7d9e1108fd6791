/-
# Cancellation from within

A computation can be told to request its own cancellation when it is about to read the relationships
of a certain node for the so-many-th time. That fixes a moment of cancellation relative to the work
done, which a request from outside cannot.
-/

namespace GraphAnalytics

/-- A moment in a traversal: a node whose readings are counted, and how many of them are left until
the moment has come, or zero once it has passed. -/
structure CancelPoint where
  node : Nat
  remaining : Nat
  deriving DecidableEq, Repr

namespace CancelPoint

/-- Count that the relationships of `node` are about to be read, and answer whether this is the
moment. -/
def arrive (node : Nat) : Option CancelPoint → Option CancelPoint × Bool
  | none => (none, false)
  | some point =>
      if point.node = node then
        (some { point with remaining := point.remaining - 1 }, point.remaining == 1)
      else (some point, false)

end CancelPoint

end GraphAnalytics
