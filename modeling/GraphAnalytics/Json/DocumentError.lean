/-
# Why a document is refused

Either the document cannot be read, or it can and what it says is not acceptable.
-/

import GraphAnalytics.Fault
import GraphAnalytics.Json.Basic

namespace GraphAnalytics.Json

/-- Why a document gives no value: it cannot be read, or what it says is refused. -/
inductive DocumentError where
  | flaw (flaw : Flaw)
  | fault (fault : Fault)
  deriving DecidableEq, Repr

end GraphAnalytics.Json
