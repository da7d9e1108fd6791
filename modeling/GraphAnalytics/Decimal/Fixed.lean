/-
# Numbers with a fixed number of places

A floating-point number is a sign, a natural number and a power of two. It is written with a given
number of decimal places by rounding that exact value to the nearest multiple of the last place; a
tie goes to the even neighbour. The sign is kept even if nothing else is left of a negative number.
-/

namespace GraphAnalytics.Decimal

/-- The quotient rounded to the nearest number, ties to the even one. -/
def roundDiv (num den : Nat) : Nat :=
  let quotient := num / den
  let rest := num % den
  if den < 2 * rest ∨ (2 * rest = den ∧ quotient % 2 = 1) then quotient + 1 else quotient

/-- The exact value of a finite floating-point number, its sign aside:
`coefficient * 2 ^ exponent`. -/
structure Magnitude where
  coefficient : Nat
  exponent : Int

/-- The exact value behind the bits of a finite floating-point number. -/
def Magnitude.ofBits (bits : Nat) : Magnitude :=
  let mantissa : Nat := bits &&& 0xFFFFFFFFFFFFF
  let exponent : Nat := bits >>> 52 &&& 0x7FF
  if exponent = 0 then ⟨mantissa, -1074⟩ else ⟨0x10000000000000 + mantissa, exponent - 1075⟩

/-- The value in units of the last of `places` decimal places, rounded. -/
def Magnitude.inUnits (places : Nat) (value : Magnitude) : Nat :=
  let scaled := value.coefficient * Nat.pow 10 places
  if value.exponent < 0 then roundDiv scaled (1 <<< value.exponent.natAbs)
  else scaled <<< value.exponent.toNat

/-- A natural number of units of the last of `places` decimal places. -/
def unitsText (places units : Nat) : String :=
  let digits := Nat.toDigits 10 units
  let digits := List.replicate (places + 1 - digits.length) '0' ++ digits
  let whole := digits.take (digits.length - places)
  if places = 0 then String.ofList whole
  else String.ofList (whole ++ '.' :: digits.drop (digits.length - places))

def fixed (places : Nat) (x : Float) : String :=
  if x.isNaN then "NaN"
  else
    let bits := x.toBits.toNat
    let sign := if bits < 0x8000000000000000 then "" else "-"
    if x.isInf then sign ++ "inf"
    else sign ++ unitsText places ((Magnitude.ofBits bits).inUnits places)

end GraphAnalytics.Decimal
