/-
# Partitions in documents

A partition is written as an object with the keys `startNode` and `nodeCount`, and may also be read
from an array of the two numbers. Whatever is read has to be a valid span, and that is decided as
soon as the object or array has been read, before the rest of the text is looked at.
-/

import GraphAnalytics.Json.DocumentError
import GraphAnalytics.Json.Reader
import GraphAnalytics.Partition

namespace GraphAnalytics.Partition

open Json

structure Draft where
  start : Option Nat := none
  count : Option Nat := none

namespace Draft

def readEntry (draft : Draft) (name : String) : Reader Draft := do
  match name with
  | "startNode" =>
      if draft.start.isSome then throw .mistyped
      return { draft with start := some (← Reader.field Reader.natural) }
  | "nodeCount" =>
      if draft.count.isSome then throw .mistyped
      return { draft with count := some (← Reader.field Reader.natural) }
  | _ => do Reader.field Reader.skip; return draft

/-- Both numbers; one that is missing makes the document one of another type. -/
def complete : Draft → Except Flaw (Nat × Nat)
  | ⟨some start, some count⟩ => .ok (start, count)
  | _ => .error .mistyped

def read : Reader (Nat × Nat) := do
  match ← Reader.peek with
  | '[' => do
      Reader.moving (literal ['['])
      let start ← Reader.nextElement true Reader.natural
      let count ← match start with
        | none => pure none
        | some _ => Reader.nextElement false Reader.natural
      let span ← complete ⟨start, count⟩
      Reader.endArray
      return span
  | '\x7b' => do
      let draft ← Reader.openObject readEntry {}
      let span ← complete draft
      Reader.closeObject
      return span
  | _ => Reader.otherType

end Draft

def ofDocument (text : String) : Except DocumentError Partition := do
  let ((start, count), rest) ← (Draft.read.run text.toList).mapError .flaw
  let p ← (ofSpan start count).mapError .fault
  let _ ← (Reader.atEnd.run rest).mapError .flaw
  return p

end GraphAnalytics.Partition
