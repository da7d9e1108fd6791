/-
# Byte ranges

An estimate is a range of bytes: the footprint is at least its lower and at most its upper end.
The ends are ordered by construction, so sums and multiples need no check.
-/

import GraphAnalytics.Fault
import GraphAnalytics.Memory.Geometry

namespace GraphAnalytics

open Word

/-- The least and the greatest number of bytes that something may occupy. -/
structure MemoryRange where
  low : Nat
  high : Nat
  low_le_high : low ≤ high := by omega
  deriving DecidableEq

namespace MemoryRange

def empty : MemoryRange := { low := 0, high := 0 }

def exactly (bytes : Nat) : MemoryRange := { low := bytes, high := bytes }

def between (low high : Nat) : Except Violation MemoryRange :=
  if h : low ≤ high then .ok ⟨low, high, h⟩ else .error (.invertedRange low high)

def add (r s : MemoryRange) : MemoryRange :=
  ⟨satAdd r.low s.low, satAdd r.high s.high, satAdd_mono r.low_le_high s.low_le_high⟩

def times (r : MemoryRange) (factor : Nat) : MemoryRange :=
  ⟨satMul r.low factor, satMul r.high factor, satMul_mono r.low_le_high (Nat.le_refl _)⟩

/-- A single number if the ends agree, and both ends otherwise. -/
def text (r : MemoryRange) : String :=
  if r.low = r.high then s!"{r.low} bytes" else s!"[{r.low} bytes ... {r.high} bytes]"

def document (r : MemoryRange) : String :=
  "\x7b\"min\":" ++ toString r.low ++ ",\"max\":" ++ toString r.high ++ "\x7d"

end MemoryRange

namespace Memory

/-- The footprint of disjoint sets over `capacity` nodes: one cell per node. -/
def setsRange (capacity : Nat) : MemoryRange := .exactly (arrayBytes capacity 8)

/-- The footprint of labelled disjoint sets: between no labels at all and one label per node, a
table entry being a node and its label. -/
def labelledSetsRange (capacity : Nat) : MemoryRange :=
  ⟨arrayBytes capacity 8, satAdd (arrayBytes capacity 8) (tableBytes capacity 16),
    le_satAdd (arrayBytes_le_top capacity 8)⟩

/-- The footprint of a topological sort: remaining in-degrees, the order, membership bits, and the
distances if they are wanted. The parts are added as words, so the sum of parts that are themselves
near the largest word wraps. -/
def topologicalOrderRange (nodeCount : Nat) (longestPaths : Bool) : MemoryRange :=
  let array := arrayBytes nodeCount 8
  .exactly (wrap (2 * array + bitSetBytes nodeCount + if longestPaths then array else 0))

def componentsRange (nodeCount : Nat) (seeded : Bool) : MemoryRange :=
  if seeded then labelledSetsRange nodeCount else setsRange nodeCount

end Memory

end GraphAnalytics
