/-
# A shared byte budget

A gauge holds the bytes that are still available. Reserving looks at the headroom, refuses if it is
too small, and otherwise tries to exchange the headroom it saw for what would be left; if somebody
else got there first, or the exchange fails for no reason at all, it decides again on the headroom
it met. Releasing adds in one access.

`Gauge.reservation` describes these accesses for any number of clients at once, and
`Gauge.reserve` is what a single client observes; `reservation_alone` says that the two agree.
-/

import GraphAnalytics.Fault
import GraphAnalytics.Interleaving
import GraphAnalytics.Word

namespace GraphAnalytics

structure Gauge where
  available : Nat
  deriving DecidableEq, Repr

/-- How far a reservation has come: it is about to read the headroom, or to exchange a headroom that
was large enough when it was last seen. -/
inductive Reservation where
  | observe
  | exchange (observed : Nat)
  deriving DecidableEq

namespace Gauge

/-- Decide on the headroom just seen: refuse, or try to take the bytes from it. -/
def decide (bytes observed : Nat) : Turn Reservation (Except Fault Nat) :=
  if observed < bytes then .done (.error (.reservationExceeded bytes observed))
  else .more (.exchange observed)

/-- Reserving `bytes`, one access at a time. With bad luck an exchange fails although the headroom
is the one that was seen. -/
def reservation (bytes : Nat) : Machine Bool Gauge Reservation (Except Fault Nat) where
  step lucky gauge
    | .observe => (gauge, decide bytes gauge.available)
    | .exchange observed =>
        if lucky ∧ gauge.available = observed then
          (⟨observed - bytes⟩, .done (.ok (observed - bytes)))
        else (gauge, decide bytes gauge.available)

/-- Take `bytes` from the budget and answer what is left, or refuse and change nothing. -/
def reserve (bytes : Nat) : Guarded Fault Gauge Nat :=
  .ofFunction fun gauge =>
    if gauge.available < bytes then
      (.error (.reservationExceeded bytes gauge.available), gauge)
    else (.ok (gauge.available - bytes), ⟨gauge.available - bytes⟩)

def release (bytes : Nat) (gauge : Gauge) : Gauge :=
  ⟨Word.wrap (gauge.available + bytes)⟩

/-- A reservation that nobody disturbs has the effect of `reserve` after at most two accesses. -/
theorem reservation_alone (bytes : Nat) (gauge : Gauge) :
    (reservation bytes).alone true 2 gauge .observe =
      (((reserve bytes).perform gauge).2, some ((reserve bytes).perform gauge).1) := by
  by_cases short : gauge.available < bytes
  · simp [Machine.alone, reservation, decide, reserve, short]
  · simp [Machine.alone, reservation, decide, reserve, short]

end Gauge

end GraphAnalytics
