/-
# Numerals

How numerals are read. A numeral without fraction and exponent is an integer if it fits sixty-four
bits. Any other is floating-point: its digits are taken into a word as long as they fit, digits
beyond count for the exponent only, and the word is then scaled by a power of ten in one
floating-point operation. The result is therefore not always the nearest floating-point number.

A numeral too large for floating-point is malformed; one too small is zero.

Readers that skip a numeral without needing its value only look at its form.
-/

import GraphAnalytics.Json.Basic
import GraphAnalytics.Word

namespace GraphAnalytics.Json

def spanDigits (cs : List Char) : List Char × List Char := cs.span Char.isDigit

def digitValue (c : Char) : Nat := c.toNat - '0'.toNat

/-- Append digits to a number while the result does not exceed `limit`. The second component holds
the digits that were not taken. -/
def absorb (limit n : Nat) : List Char → Nat × List Char
  | [] => (n, [])
  | c :: cs =>
      if n * 10 + digitValue c ≤ limit then absorb limit (n * 10 + digitValue c) cs
      else (n, c :: cs)

/-- The largest exponent that is told apart from larger ones. -/
def exponentLimit : Nat := 0x7FFFFFFF

/-- The exponent nearest to `e` that fits thirty-two bits. -/
def clipExponent (e : Int) : Int :=
  if e < -0x80000000 then -0x80000000 else if 0x7FFFFFFF < e then 0x7FFFFFFF else e

/-- The floating-point number `10 ^ e` for an exponent up to 308. -/
def powerOfTen (e : Nat) : Float := Float.ofScientific 1 false e

/-- Scale a number by `10 ^ (-e)`, in steps of at most `10 ^ 308`. -/
def scaleDown (x : Float) (e : Nat) : Float :=
  if e ≤ 308 then x / powerOfTen e
  else if x == 0 then x
  else scaleDown (x / powerOfTen 308) (e - 308)
termination_by e

/-- The floating-point number `n * 10 ^ e`. A result beyond all floating-point numbers is
malformed. -/
def scaled (n : Nat) (e : Int) : Except Flaw Float :=
  let x := (UInt64.ofNat n).toFloat
  if e < 0 then .ok (scaleDown x e.natAbs)
  else if e ≤ 308 then
    let y := x * powerOfTen e.toNat
    if y.isInf then .error .malformed else .ok y
  else if x == 0 then .ok x
  else .error .malformed

/-- The parts of a numeral behind its sign: the digits before the point, those behind it if there is
one, and the sign and the digits of the exponent if there is one. -/
structure Numeral where
  whole : List Char
  fraction : Option (List Char)
  exponent : Option (Bool × List Char)

/-- Digits of which there has to be one at least. A text that ends instead is flawed as `atEnd`
says. -/
def someDigits (atEnd : Flaw) (cs : List Char) : Except Flaw (List Char × List Char) :=
  match spanDigits cs with
  | ([], []) => .error atEnd
  | ([], _) => .error .malformed
  | (digits, rest) => .ok (digits, rest)

def takeFraction (atEnd : Flaw) : List Char → Except Flaw (Option (List Char) × List Char)
  | '.' :: cs => do
      let (digits, rest) ← someDigits atEnd cs
      return (some digits, rest)
  | cs => return (none, cs)

def exponentSign : List Char → Bool × List Char
  | '+' :: cs => (true, cs)
  | '-' :: cs => (false, cs)
  | cs => (true, cs)

def takeExponent (atEnd : Flaw) : List Char → Except Flaw (Option (Bool × List Char) × List Char)
  | 'e' :: cs | 'E' :: cs => do
      let (positive, cs) := exponentSign cs
      let (digits, rest) ← someDigits atEnd cs
      return (some (positive, digits), rest)
  | cs => return (none, cs)

/-- Read the parts of a numeral. Its whole part is a single zero or does not begin with one. -/
def Numeral.split (atEnd : Flaw) (cs : List Char) : Except Flaw (Numeral × List Char) := do
  let (whole, rest) ← someDigits atEnd cs
  if whole.head? = some '0' ∧ whole.length ≠ 1 then throw .malformed
  let (fraction, rest) ← takeFraction atEnd rest
  let (exponent, rest) ← takeExponent atEnd rest
  return (⟨whole, fraction, exponent⟩, rest)

/-- The value of a numeral without its sign, as a floating-point number. -/
def Numeral.magnitude (numeral : Numeral) : Except Flaw Float :=
  let (n, beyond) := absorb Word.top 0 numeral.whole
  let fraction := numeral.fraction.getD []
  let (n, ignored) := absorb Word.top n fraction
  let point : Int := beyond.length - (fraction.length - ignored.length : Nat)
  match numeral.exponent with
  | none => scaled n point
  | some (positive, digits) =>
      match absorb exponentLimit 0 digits with
      | (e, []) => scaled n (clipExponent (if positive then point + e else point - e))
      | _ => if n ≠ 0 ∧ positive then .error .malformed else .ok 0

/-- The numeral is an integer below `2 ^ 64`, sign aside. -/
def Numeral.integer? (numeral : Numeral) : Option Nat :=
  match numeral, absorb Word.top 0 numeral.whole with
  | ⟨_, none, none⟩, (n, []) => some n
  | _, _ => none

def Numeral.value (negative : Bool) (numeral : Numeral) : Except Flaw Number :=
  match negative, numeral.integer? with
  | false, some n => .ok (.natural n)
  | true, some n =>
      if 0 < n ∧ n ≤ 0x8000000000000000 then .ok (.negative n)
      else .ok (.decimal (-(UInt64.ofNat n).toFloat))
  | false, none => do return .decimal (← numeral.magnitude)
  | true, none => do return .decimal (-(← numeral.magnitude))

def takeSign : List Char → Bool × List Char
  | '-' :: cs => (true, cs)
  | cs => (false, cs)

def number (cs : List Char) : Except Flaw (Number × List Char) := do
  let (negative, cs) := takeSign cs
  let (numeral, rest) ← Numeral.split .truncated cs
  return (← numeral.value negative, rest)

/-- Skip a numeral. One that is cut off is malformed like any other. -/
def skipNumber (cs : List Char) : Except Flaw (List Char) := do
  let (_, rest) ← Numeral.split .malformed (takeSign cs).2
  return rest

end GraphAnalytics.Json
