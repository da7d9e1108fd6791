/-
# Strings in a document

How the characters between two quotes are read. Control characters have to be escaped. An escape by
number takes four hexadecimal digits, and characters beyond `U+FFFF` take two such escapes, a high
and a low surrogate.

With `Care.skim` the value of the string is not needed. Then the form of every escape is still
checked, but surrogates need not come in pairs.
-/

import GraphAnalytics.Json.Basic

namespace GraphAnalytics.Json

/-- How closely a part of a document is read: for its value, or only to skip it. -/
inductive Care where
  | exact
  | skim
  deriving DecidableEq

def hexValue? (c : Char) : Option Nat :=
  if '0' ≤ c ∧ c ≤ '9' then some (c.toNat - '0'.toNat)
  else if 'a' ≤ c ∧ c ≤ 'f' then some (c.toNat - 'a'.toNat + 10)
  else if 'A' ≤ c ∧ c ≤ 'F' then some (c.toNat - 'A'.toNat + 10)
  else none

/-- Read four hexadecimal digits. A text with fewer than four bytes left is cut off. -/
def hexUnit (cs : List Char) : Except Flaw (Nat × List Char) :=
  if (String.ofList (cs.take 4)).utf8ByteSize < 4 then .error .truncated
  else
    match (cs.take 4).mapM hexValue? with
    | some digits =>
        if digits.length = 4 then .ok (digits.foldl (fun n d => n * 16 + d) 0, cs.drop 4)
        else .error .malformed
    | none => .error .malformed

def isHigh (unit : Nat) : Bool := 0xD800 ≤ unit && unit ≤ 0xDBFF

def isLow (unit : Nat) : Bool := 0xDC00 ≤ unit && unit ≤ 0xDFFF

def lowUnit (cs : List Char) : Except Flaw (Nat × List Char) :=
  match cs with
  | [] => .error .truncated
  | '\\' :: [] => .error .truncated
  | '\\' :: 'u' :: cs => do
      let (unit, cs) ← hexUnit cs
      if isLow unit then return (unit, cs) else throw .malformed
  | _ => .error .malformed

def numberedEscape (care : Care) (cs : List Char) : Except Flaw (Char × List Char) := do
  let (unit, cs) ← hexUnit cs
  match care with
  | .skim => return (Char.ofNat unit, cs)
  | .exact =>
      if isLow unit then throw .malformed
      else if isHigh unit then
        let (low, cs) ← lowUnit cs
        return (Char.ofNat ((unit - 0xD800) * 0x400 + (low - 0xDC00) + 0x10000), cs)
      else return (Char.ofNat unit, cs)

def escapeSequence (care : Care) (cs : List Char) : Except Flaw (Char × List Char) :=
  match cs with
  | [] => .error .truncated
  | '"' :: cs => .ok ('"', cs)
  | '\\' :: cs => .ok ('\\', cs)
  | '/' :: cs => .ok ('/', cs)
  | 'b' :: cs => .ok ('\x08', cs)
  | 'f' :: cs => .ok ('\x0c', cs)
  | 'n' :: cs => .ok ('\n', cs)
  | 'r' :: cs => .ok ('\r', cs)
  | 't' :: cs => .ok ('\t', cs)
  | 'u' :: cs => numberedEscape care cs
  | _ => .error .malformed

/-- Read a string from behind its opening quote on. Every step takes a character off the text, so a
list as long as the text is fuel enough. -/
def charactersWithin (care : Care) : (fuel : List Char) → (taken : List Char) → List Char →
    Except Flaw (List Char × List Char)
  | [], _, _ => .error .truncated
  | _ :: fuel, taken, cs =>
      match cs with
      | [] => .error .truncated
      | '"' :: rest => .ok (taken.reverse, rest)
      | '\\' :: rest => do
          let (c, rest) ← escapeSequence care rest
          charactersWithin care fuel (c :: taken) rest
      | c :: rest =>
          if c.toNat < 0x20 then .error .malformed
          else charactersWithin care fuel (c :: taken) rest

def string (care : Care) (cs : List Char) : Except Flaw (String × List Char) := do
  let (taken, rest) ← charactersWithin care cs [] cs
  return (String.ofList taken, rest)

end GraphAnalytics.Json
