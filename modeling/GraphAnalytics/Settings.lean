/-
# Settings of a computation

How many workers there are, how small a batch may get, and how the nodes are split. The sort has one
setting more. Settings are plain data; `validate` says whether a computation may be started with
them, and looks at the concurrency first.
-/

import GraphAnalytics.Graph
import GraphAnalytics.Partition.Split

namespace GraphAnalytics

/-- How the node ids are split for the tasks of a phase: into batches of equal length, or into
partitions of roughly equal total degree. -/
inductive PartitionPolicy where
  | range
  | degree
  deriving DecidableEq, Repr

def PartitionPolicy.name : PartitionPolicy → String
  | .range => "range"
  | .degree => "degree"

/-- Settings that every computation has: the number of workers, the least number of nodes in a
batch, and how the nodes are split. -/
structure Settings where
  concurrency : Nat
  minBatch : Nat := 10000
  policy : PartitionPolicy := .range
  deriving DecidableEq, Repr

namespace Settings

/-- Fail unless there are workers and batches may hold nodes. -/
def validate (settings : Settings) : Except Fault Unit :=
  if settings.concurrency = 0 then .error (.invalidConfig "concurrency must be > 0")
  else if settings.minBatch = 0 then .error (.invalidConfig "minBatchSize must be > 0")
  else .ok ()

/-- The partitions of so many nodes with the given degrees under these settings. -/
def split (settings : Settings) (nodeCount : Nat) (degree : Nat → Nat) :
    Except Violation (List Partition) :=
  match settings.policy with
  | .range => Partition.evenly nodeCount settings.concurrency settings.minBatch
  | .degree => Partition.byDegree nodeCount settings.concurrency degree

def partitions (settings : Settings) (g : Graph) : Except Violation (List Partition) :=
  settings.split g.nodeCount fun node => g.rowStop node - g.rowStart node

/-- The settings of a search for components unless a document says otherwise: the nodes are split by
degree. -/
def componentsDefault (concurrency : Nat) : Settings := { concurrency, policy := .degree }

def entries (settings : Settings) : String :=
  "\"concurrency\":" ++ toString settings.concurrency ++
    ",\"minBatchSize\":" ++ toString settings.minBatch ++
    ",\"partitioning\":\"" ++ settings.policy.name ++ "\""

def document (settings : Settings) : String := "\x7b" ++ settings.entries ++ "\x7d"

end Settings

/-- Settings of a topological sort, which can also find the longest distance of every sorted
node. -/
structure SortSettings extends Settings where
  longestPaths : Bool := false
  deriving DecidableEq, Repr

namespace SortSettings

def document (settings : SortSettings) : String :=
  "\x7b" ++ settings.entries ++
    ",\"computeLongestPathDistances\":" ++ toString settings.longestPaths ++ "\x7d"

end SortSettings

end GraphAnalytics
