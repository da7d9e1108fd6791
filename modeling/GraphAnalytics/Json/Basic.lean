/-
# JSON values

A parsed document, and the three ways in which a document can be unusable. Integers keep their
exact value as long as they fit sixty-four bits; all other numerals are floating-point.
-/

namespace GraphAnalytics.Json

/-- What is wrong with a document: it is not JSON, it ended too early, or it is JSON up to here, but
of the wrong type, with a wrong key, or out of range. -/
inductive Flaw where
  | malformed
  | truncated
  | mistyped
  deriving DecidableEq, Repr

/-- The value of a numeral: an integer in `[0, 2 ^ 64)`, the negative of an integer in `(0, 2 ^
63]`, or any other number. -/
inductive Number where
  | natural (n : Nat)
  | negative (n : Nat)
  | decimal (x : Float)

def Number.toFloat : Number → Float
  | natural n => (UInt64.ofNat n).toFloat
  | negative n => -(UInt64.ofNat n).toFloat
  | decimal x => x

/-- A document. -/
inductive Value where
  | null
  | truth (b : Bool)
  | number (n : Number)
  | text (s : String)
  | array (elements : List Value)
  | object (entries : List (String × Value))

namespace Value

/-- The value of a key. Of several entries with one key the last counts. -/
def get? (key : String) : Value → Option Value
  | object entries => (entries.reverse.find? fun entry => entry.1 = key).map Prod.snd
  | _ => none

def toFloat? : Value → Option Float
  | number n => some n.toFloat
  | _ => none

end Value

end GraphAnalytics.Json
