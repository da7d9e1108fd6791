/-
# Reading documents

A `Reader` takes a value off the head of a text. Readers for a known type look at a value only until
they see that it is of another type, so which flaw is reported depends on how far one has to read to
tell: a cut-off string in place of a number is truncated, a list in its place is mistyped at once.

`value` reads any document. Where the value is needed, containers may be nested up to a fixed depth;
where it is skipped they may be nested to any depth.

Objects and arrays with known contents are read by `object` and `nextElement`, which interpret
entries as they are met. A reader sees a duplicate key when it meets it, before the value.
-/

import GraphAnalytics.Json.Numeral
import GraphAnalytics.Json.Text

namespace GraphAnalytics.Json

/-- Takes a value off the head of a text. -/
abbrev Reader (α : Type) := StateT (List Char) (Except Flaw) α

/-- Containers may be nested this deep where their values are needed. -/
def nestingLimit : Nat := 127

def isBlank (c : Char) : Bool := c == ' ' || c == '\n' || c == '\t' || c == '\r'

/-- The text from its first character on that is not blank. -/
def dropBlank (cs : List Char) : List Char := cs.dropWhile isBlank

def literal : List Char → List Char → Except Flaw (List Char)
  | [], cs => .ok cs
  | _, [] => .error .truncated
  | expected :: more, c :: cs => if c = expected then literal more cs else .error .malformed

/-- Read a number with the given care. A skipped number has no value of interest. -/
def numeral (care : Care) (cs : List Char) : Except Flaw (Value × List Char) :=
  match care with
  | .exact => do
      let (n, rest) ← number cs
      return (.number n, rest)
  | .skim => do return (.null, ← skipNumber cs)

def beginsNumeral (c : Char) : Bool := c == '-' || c.isDigit

/-- Read a value that is no container, if the text begins with one. -/
def scalar? (care : Care) (cs : List Char) : Option (Except Flaw (Value × List Char)) :=
  match cs with
  | 'n' :: rest => some do return (.null, ← literal ['u', 'l', 'l'] rest)
  | 't' :: rest => some do return (.truth true, ← literal ['r', 'u', 'e'] rest)
  | 'f' :: rest => some do return (.truth false, ← literal ['a', 'l', 's', 'e'] rest)
  | '"' :: rest => some do
      let (s, rest) ← string care rest
      return (.text s, rest)
  | c :: _ => if beginsNumeral c then some (numeral care cs) else none
  | [] => none

/-- Read what separates the entries of a container from each other: nothing before the first, a
comma before any other. -/
def separator (first : Bool) (cs : List Char) : Except Flaw (List Char) :=
  if first then .ok cs
  else
    match cs with
    | ',' :: rest => .ok (dropBlank rest)
    | _ => .error .malformed

/-- Read a key with the colon behind it left to read. -/
def key (care : Care) (cs : List Char) : Except Flaw (String × List Char) :=
  match cs with
  | '"' :: rest => string care rest
  | [] => .error .truncated
  | _ => .error .malformed

def colon (cs : List Char) : Except Flaw (List Char) :=
  match dropBlank cs with
  | ':' :: rest => .ok rest
  | [] => .error .truncated
  | _ => .error .malformed

inductive Bracket where
  | array
  | object
  deriving DecidableEq

def Bracket.closing : Bracket → Char
  | array => ']'
  | object => '\x7d'

/-- The container with the given entries. Entries of an array have no names. -/
def Bracket.value (entries : List (String × Value)) : Bracket → Value
  | array => .array (entries.map Prod.snd)
  | object => .object entries

/-- What a value begins with: the value itself if it is no container, and otherwise its bracket,
which has been read. -/
inductive Head where
  | scalar (value : Value)
  | opening (bracket : Bracket)

/-- Read a value up to its end or, if it is a container, up to its bracket. -/
def head (care : Care) (cs : List Char) : Except Flaw (Head × List Char) :=
  match dropBlank cs with
  | [] => .error .truncated
  | '[' :: rest => .ok (.opening .array, rest)
  | '\x7b' :: rest => .ok (.opening .object, rest)
  | cs =>
      match scalar? care cs with
      | some (.ok (value, rest)) => .ok (.scalar value, rest)
      | some (.error flaw) => .error flaw
      | none => .error .malformed

/-- Read the name of an entry and come to its value. Entries of an array have no names. -/
def entryName (care : Care) (bracket : Bracket) (cs : List Char) :
    Except Flaw (String × List Char) :=
  match bracket with
  | .array => .ok ("", cs)
  | .object => do
      let (name, rest) ← key care cs
      return (name, ← colon rest)

def nextEntry (care : Care) (bracket : Bracket) (first : Bool) (cs : List Char) :
    Except Flaw (String × Head × List Char) := do
  let rest ← separator first cs
  let (name, rest) ← entryName care bracket rest
  let (value, rest) ← head care rest
  return (name, value, rest)

def deeper : (depth : Nat) → Except Flaw Nat
  | 0 => .error .malformed
  | depth + 1 => .ok depth

/-- Read the entries of a container up to its end, with at most `depth` containers in each other
below it. Every step takes a character off the text, so a list as long as the text is fuel enough. -/
def entriesWithin : (fuel : List Char) → (depth : Nat) → Bracket → (first : Bool) →
    (read : List (String × Value)) → List Char → Except Flaw (List (String × Value) × List Char)
  | [], _, _, _, _, _ => .error .truncated
  | _ :: fuel, depth, bracket, first, read, cs =>
      match dropBlank cs with
      | [] => .error .truncated
      | c :: rest =>
          if c = bracket.closing then .ok (read.reverse, rest)
          else do
            match ← nextEntry .exact bracket first (c :: rest) with
            | (name, .scalar value, rest) =>
                entriesWithin fuel depth bracket false ((name, value) :: read) rest
            | (name, .opening inner, rest) => do
                let (entries, rest) ← entriesWithin fuel (← deeper depth) inner true [] rest
                entriesWithin fuel depth bracket false ((name, inner.value entries) :: read) rest

/-- Skip what is left of some containers in each other, innermost first. Every step takes a
character off the text, so a list as long as the text is fuel enough. -/
def skipWithin : (fuel : List Char) → (entered : List Bracket) → (first : Bool) → List Char →
    Except Flaw (List Char)
  | _, [], _, cs => .ok cs
  | [], _, _, _ => .error .truncated
  | _ :: fuel, bracket :: entered, first, cs =>
      match dropBlank cs with
      | [] => .error .truncated
      | c :: rest =>
          if c = bracket.closing then skipWithin fuel entered false rest
          else
            match nextEntry .skim bracket first (c :: rest) with
            | .ok (_, .scalar _, rest) => skipWithin fuel (bracket :: entered) false rest
            | .ok (_, .opening inner, rest) =>
                skipWithin fuel (inner :: bracket :: entered) true rest
            | .error flaw => .error flaw

namespace Reader

variable {α σ : Type}

def ofFunction (f : List Char → Except Flaw (α × List Char)) : Reader α := f

def moving (f : List Char → Except Flaw (List Char)) : Reader Unit := fun cs => do
  return ((), ← f cs)

/-- Read any value with at most `depth` containers in each other. -/
def value (depth : Nat) : Reader Value :=
  ofFunction fun cs => do
    match ← head .exact cs with
    | (.scalar value, rest) => return (value, rest)
    | (.opening bracket, rest) => do
        let (entries, rest) ← entriesWithin rest (← deeper depth) bracket true [] rest
        return (bracket.value entries, rest)

def skip : Reader Unit :=
  moving fun cs => do
    match ← head .skim cs with
    | (.scalar _, rest) => return rest
    | (.opening bracket, rest) => skipWithin rest [bracket] true rest

/-- Come to the next character that is not blank, and look at it. -/
def peek : Reader Char :=
  ofFunction fun cs =>
    match dropBlank cs with
    | [] => .error .truncated
    | c :: cs => .ok (c, c :: cs)

/-- Report that the value that follows is of another type. Scalars are read to their end first;
containers are told by their bracket. -/
def otherType : Reader α :=
  ofFunction fun cs =>
    match scalar? .exact cs with
    | some (.ok _) => .error .mistyped
    | some (.error flaw) => .error flaw
    | none =>
        match cs with
        | '[' :: _ | '\x7b' :: _ => .error .mistyped
        | _ => .error .malformed

def natural : Reader Nat := do
  if beginsNumeral (← peek) then
    match ← ofFunction number with
    | .natural n => return n
    | _ => throw .mistyped
  else otherType

def truth : Reader Bool := do
  match ← peek with
  | 't' => do moving (literal ['t', 'r', 'u', 'e']); return true
  | 'f' => do moving (literal ['f', 'a', 'l', 's', 'e']); return false
  | _ => otherType

def null : Reader Unit := do
  match ← peek with
  | 'n' => moving (literal ['n', 'u', 'l', 'l'])
  | _ => otherType

def optional (reader : Reader α) : Reader (Option α) := do
  match ← peek with
  | 'n' => do moving (literal ['n', 'u', 'l', 'l']); return none
  | _ => some <$> reader

/-- Read one of a few names, each standing for a value: a string, or an object whose only key is the
name and whose only value is `null`. -/
def choice (named? : String → Option α) : Reader α := do
  match ← peek with
  | '"' => named (← ofFunction (key .exact))
  | '\x7b' => do
      moving (literal ['\x7b'])
      let _ ← peek
      let chosen ← named (← ofFunction (key .exact))
      moving colon
      null
      match ← peek with
      | '\x7d' => do moving (literal ['\x7d']); return chosen
      | _ => throw .malformed
  | _ => throw .malformed
where
  named (name : String) : Reader α :=
    match named? name with
    | some chosen => return chosen
    | none => throw .mistyped

/-- Read the next element of an array, or nothing at its end. The closing bracket is left. -/
def nextElement (first : Bool) (reader : Reader α) : Reader (Option α) := do
  match ← peek with
  | ']' => return none
  | _ => do
      moving (separator first)
      if (← peek) = ']' then throw .malformed
      some <$> reader

def endArray : Reader Unit := do
  match ← peek with
  | ']' => moving (literal [']'])
  | _ => throw .malformed

/-- Read the entries of an object whose brace has been read, up to its end. A key is handed to
`field` with what has been gathered so far, and `field` reads the colon and the value. A list as long
as the text is fuel enough. -/
def entries (field : σ → String → Reader σ) : (fuel : List Char) → (first : Bool) → σ → Reader σ
  | [], _, _ => throw .truncated
  | _ :: fuel, first, gathered => do
      match ← peek with
      | '\x7d' => return gathered
      | _ => do
          moving (separator first)
          let name ← ofFunction (key .exact)
          let gathered ← field gathered name
          entries field fuel false gathered

/-- Read an object entry by entry. The closing brace is left, for a caller that has to decide first
whether the entries are acceptable. -/
def openObject (field : σ → String → Reader σ) (start : σ) : Reader σ := do
  moving (literal ['\x7b'])
  entries field (← get) true start

def closeObject : Reader Unit := moving (literal ['\x7d'])

def field (reader : Reader α) : Reader α := do
  moving colon
  reader

def atEnd : Reader Unit :=
  moving fun cs => match dropBlank cs with
    | [] => .ok []
    | _ => .error .malformed

def whole (reader : Reader α) (text : String) : Except Flaw α :=
  (do let answer ← reader; atEnd; return answer : Reader α).run' text.toList

end Reader

end GraphAnalytics.Json
