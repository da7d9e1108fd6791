/-
# Settings in documents

A document gives some of the settings, and the others keep their defaults. What was given is a
`Draft`; `Draft.resolve` fills in the rest, where the default concurrency is up to the machine.

The three kinds of documents are read differently. Settings of a search for components and bare
settings are objects or arrays whose entries are interpreted as they are met; for components every
entry may also be `null`, and an array has to be complete. Settings of a sort are objects of which
everything but the sort's own setting is first read as a whole and interpreted afterwards, so a flaw
further on is found before a wrong type. Unknown keys are ignored in all of them, and a setting may
be given only once.
-/

import GraphAnalytics.Json.DocumentError
import GraphAnalytics.Json.Reader
import GraphAnalytics.Settings

namespace GraphAnalytics

open Json

def PartitionPolicy.named? : String → Option PartitionPolicy
  | "range" => some .range
  | "degree" => some .degree
  | _ => none

namespace Settings

inductive Key where
  | concurrency
  | minBatch
  | policy
  deriving DecidableEq, Repr

def Key.named? : String → Option Key
  | "concurrency" => some .concurrency
  | "minBatchSize" => some .minBatch
  | "partitioning" => some .policy
  | _ => none

structure Draft where
  concurrency : Option Nat := none
  minBatch : Option Nat := none
  policy : Option PartitionPolicy := none
  deriving DecidableEq, Repr

namespace Draft

/-- The settings, with defaults for what was not given. -/
def resolve (defaults : Settings) (draft : Draft) : Settings where
  concurrency := draft.concurrency.getD defaults.concurrency
  minBatch := draft.minBatch.getD defaults.minBatch
  policy := draft.policy.getD defaults.policy

/-- Settings gathered so far, and the keys that were met. -/
structure Progress where
  draft : Draft := {}
  met : List Key := []

/-- Read the value of a setting, where `wrap` says which values may be left out. -/
def readValue (wrap : {α : Type} → Reader α → Reader (Option α)) (draft : Draft) :
    Key → Reader Draft
  | .concurrency => do return { draft with concurrency := ← wrap Reader.natural }
  | .minBatch => do return { draft with minBatch := ← wrap Reader.natural }
  | .policy => do return { draft with policy := ← wrap (Reader.choice PartitionPolicy.named?) }

def readEntry (wrap : {α : Type} → Reader α → Reader (Option α)) (progress : Progress)
    (name : String) : Reader Progress :=
  match Key.named? name with
  | none => do Reader.field Reader.skip; return progress
  | some key =>
      if key ∈ progress.met then throw .mistyped
      else do
        let draft ← Reader.field (readValue wrap progress.draft key)
        return ⟨draft, key :: progress.met⟩

/-- Read the elements of an array that gives settings in order. An array that ends before `needed`
of them is of the wrong type. -/
def readElements (wrap : {α : Type} → Reader α → Reader (Option α)) (needed : Nat) :
    List Key → (read : Nat) → Draft → Reader Draft
  | [], _, draft => return draft
  | key :: keys, read, draft => do
      match ← Reader.nextElement (read == 0) (readValue wrap draft key) with
      | some draft => readElements wrap needed keys (read + 1) draft
      | none => if read < needed then throw .mistyped else return draft

def read (wrap : {α : Type} → Reader α → Reader (Option α)) (needed : Nat) : Reader Draft := do
  match ← Reader.peek with
  | '[' => do
      Reader.moving (literal ['['])
      let draft ← readElements wrap needed [.concurrency, .minBatch, .policy] 0 {}
      Reader.endArray
      return draft
  | '\x7b' => do
      let progress ← Reader.openObject (readEntry wrap) {}
      Reader.closeObject
      return progress.draft
  | _ => Reader.otherType

/-- Settings of a search for components: every value may be `null`, and an array has three. -/
def ofComponentsDocument (text : String) : Except Flaw Draft :=
  Reader.whole (read Reader.optional 3) text

/-- Bare settings: no value may be `null`, and an array may end early. -/
def ofDocument (text : String) : Except Flaw Draft :=
  Reader.whole (read (fun reader => some <$> reader) 0) text

/-- The policy that a value names: a string, or an object whose only key is the name and whose value
says nothing. -/
def policyOf : Value → Except Flaw PartitionPolicy
  | .text name | .object [(name, .null)] | .object [(name, .object [])] =>
      match PartitionPolicy.named? name with
      | some policy => .ok policy
      | none => .error .mistyped
  | _ => .error .mistyped

def naturalOf : Value → Except Flaw Nat
  | .number (.natural n) => .ok n
  | _ => .error .mistyped

def interpret (progress : Progress) (entry : String × Value) : Except Flaw Progress :=
  match Key.named? entry.1 with
  | none => .ok progress
  | some key =>
      if key ∈ progress.met then .error .mistyped
      else do
        let draft := progress.draft
        let draft ← match key with
          | .concurrency => do pure { draft with concurrency := some (← naturalOf entry.2) }
          | .minBatch => do pure { draft with minBatch := some (← naturalOf entry.2) }
          | .policy => do pure { draft with policy := some (← policyOf entry.2) }
        return ⟨draft, key :: progress.met⟩

def ofEntries (entries : List (String × Value)) : Except Flaw Draft := do
  let progress ← entries.foldlM interpret {}
  return progress.draft

end Draft

/-- The settings of a search for components that a document gives. -/
def ofComponentsDocument (cores : Nat) (text : String) : Except DocumentError Settings := do
  let draft ← (Draft.ofComponentsDocument text).mapError .flaw
  let settings := draft.resolve (componentsDefault cores)
  settings.validate.mapError .fault
  return settings

end Settings

namespace SortSettings

structure Draft where
  common : Settings.Draft := {}
  longestPaths : Option Bool := none
  deriving DecidableEq, Repr

/-- What was gathered from a document so far: whether distances are wanted, if that was given, and
all other entries, in order. -/
structure Gathered where
  longestPaths : Option Bool := none
  others : Array (String × Value) := #[]

namespace Draft

def readEntry (gathered : Gathered) (name : String) : Reader Gathered := do
  if name = "computeLongestPathDistances" then
    if gathered.longestPaths.isSome then throw .mistyped
    let wanted ← Reader.field Reader.truth
    return { gathered with longestPaths := some wanted }
  else
    let entry ← Reader.field (Reader.value (nestingLimit - 1))
    return { gathered with others := gathered.others.push (name, entry) }

def read : Reader Draft := do
  match ← Reader.peek with
  | '\x7b' => do
      let gathered ← Reader.openObject readEntry {}
      let common ← (Settings.Draft.ofEntries gathered.others.toList : Except Flaw _)
      Reader.closeObject
      return ⟨common, gathered.longestPaths⟩
  | _ => Reader.otherType

/-- What a document gives for a sort. -/
def ofDocument (text : String) : Except Flaw Draft := Reader.whole read text

def resolve (cores : Nat) (draft : Draft) : SortSettings where
  toSettings := draft.common.resolve { concurrency := cores }
  longestPaths := draft.longestPaths.getD false

end Draft

def ofDocument (cores : Nat) (text : String) : Except DocumentError SortSettings := do
  let draft ← (Draft.ofDocument text).mapError .flaw
  let settings := draft.resolve cores
  settings.validate.mapError .fault
  return settings

end SortSettings

end GraphAnalytics
