/-
# Decimal fractions and the binary numbers next to them

A number that is written with a point or an exponent is a decimal fraction `m · 10 ^ e`.  It stands
for the binary number of 53 bits that is nearest to it, so it counts as whole when that number is
whole (`Decimal.nearest`), whatever its own digits say.
-/
namespace HypnoScript
namespace Json

/-- The number `mantissa · 10 ^ exponent`. -/
structure Decimal where
  mantissa : Int
  exponent : Int
  deriving DecidableEq, Repr

/-- What a decimal fraction comes to as a binary number. -/
inductive Nearest where
  /-- Too large for a binary number. -/
  | infinite
  /-- A whole number. -/
  | whole (n : Int)
  /-- A number between two whole ones. -/
  | fractional
  deriving DecidableEq, Repr

namespace Decimal

/-- The quotient, rounded to the nearest whole number and, of two, to the even one. -/
def roundDiv (num den : Nat) : Nat :=
  let q := num / den
  let r := num % den
  if 2 * r < den ∨ (2 * r = den ∧ q % 2 = 0) then q else q + 1

/-- The quotient by `2 ^ k`, as a numerator and a denominator. -/
def overPower (num den : Nat) (k : Int) : Nat × Nat :=
  if 0 ≤ k then (num, den * Nat.pow 2 k.toNat) else (num * Nat.pow 2 (-k).toNat, den)

/-- The exponent of the greatest power of two that is not above the quotient. -/
def floorLog (num den : Nat) : Int :=
  let e := (num.log2 : Int) - den.log2
  let scaled := overPower num den e
  if scaled.2 ≤ scaled.1 then e else e - 1

/-- The binary number nearest to a quotient that is not zero: at most 53 bits, and no bit below
`2 ^ (-1074)`. -/
def nearestQuotient (negative : Bool) (num den : Nat) : Nearest :=
  let k := max (floorLog num den - 52) (-1074)
  let scaled := overPower num den k
  let q := roundDiv scaled.1 scaled.2
  let signed (n : Nat) : Nearest := .whole (if negative then -(n : Int) else n)
  if 0 ≤ k then
    let n := q * Nat.pow 2 k.toNat
    if n < Nat.pow 2 1024 then signed n else .infinite
  else
    let unit := Nat.pow 2 (-k).toNat
    if q % unit = 0 then signed (q / unit) else .fractional

/-- The binary number nearest to a decimal fraction.  Exponents far outside the range of binary
numbers are settled at once. -/
def nearest (d : Decimal) : Nearest :=
  let m := d.mantissa.natAbs
  let negative := d.mantissa < 0
  let size := d.exponent + (m.log2 / 3 : Nat)
  if m = 0 then .whole 0
  else if size < -2000 then .whole 0
  else if d.exponent > 2000 then .infinite
  else if 0 ≤ d.exponent then nearestQuotient negative (m * Nat.pow 10 d.exponent.toNat) 1
  else nearestQuotient negative m (Nat.pow 10 (-d.exponent).toNat)

end Decimal
end Json
end HypnoScript
