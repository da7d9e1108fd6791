/-
# Schedulers

A scheduler is the promise that there is somebody to run phases.
-/

import GraphAnalytics.Settings

namespace GraphAnalytics

/-- Workers, at least one. -/
structure Scheduler where
  concurrency : Nat
  concurrency_pos : 0 < concurrency

namespace Scheduler

def ofConcurrency (concurrency : Nat) : Except Fault Scheduler :=
  if h : 0 < concurrency then .ok ⟨concurrency, h⟩
  else .error (.invalidConfig "concurrency must be > 0")

def ofSettings (settings : Settings) : Except Fault Scheduler := do
  settings.validate
  ofConcurrency settings.concurrency

end Scheduler

end GraphAnalytics
