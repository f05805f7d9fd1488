/-!
# Binary floating-point numbers

Numbers with 53 significant bits, as exact values: a sign, a significand and a power of two. All
operations round to the nearest representable number, a tie going to the even significand, and are
computed on natural numbers only.
-/

namespace ApplianceRest.Decimal

/-- The size `significand * 2 ^ exponent` of a number. In a canonical magnitude the significand is
below `2 ^ 53`, the exponent is at least `-1074`, and one of the two is as small as this allows. -/
structure Magnitude where
  significand : Nat
  exponent : Int
deriving DecidableEq, Repr

/-- A binary floating-point number; zero has a sign as well. -/
structure Binary64 where
  negative : Bool
  magnitude : Magnitude
deriving DecidableEq, Repr

/-- The quotient rounded to the nearest natural number, a tie going to the even one. -/
def roundedQuotient (num den : Nat) : Nat :=
  let q := num / den
  let twice := 2 * (num % den)
  if den < twice || (twice == den && q % 2 == 1) then q + 1 else q

namespace Magnitude

/-- The size of zero. -/
def zero : Magnitude := ⟨0, -1074⟩

/-- The least significand with all its 53 bits in use. -/
def leastNormal : Nat := 1 <<< 52

/-- The fraction `num / den * 2 ^ shift`, as a pair of natural numbers. -/
def shifted (num den : Nat) (shift : Int) : Nat × Nat :=
  if 0 ≤ shift then (num <<< shift.toNat, den) else (num, den <<< (-shift).toNat)

/-- The exponent of the highest power of two that is at most `num / den`, both positive. -/
def floorLog2 (num den : Nat) : Int :=
  let guess : Int := Int.ofNat num.log2 - Int.ofNat den.log2
  let (a, b) := shifted num den (-guess)
  if b ≤ a then guess else guess - 1

/-- The representable number nearest to `num / den`, or nothing where that is beyond the largest
finite one. -/
def nearest (num den : Nat) : Option Magnitude :=
  if num = 0 then some zero
  else
    let exponent := max (floorLog2 num den - 52) (-1074)
    let (a, b) := shifted num den (-exponent)
    let q := roundedQuotient a b
    let result : Magnitude :=
      if q = 2 * leastNormal then ⟨leastNormal, exponent + 1⟩ else ⟨q, exponent⟩
    if result.exponent ≤ 971 then some result else none

/-- The product, rounded. -/
def mul (a b : Magnitude) : Option Magnitude :=
  let (num, den) := shifted (a.significand * b.significand) 1 (a.exponent + b.exponent)
  nearest num den

/-- The quotient by a positive number, rounded. -/
def div (a b : Magnitude) : Option Magnitude :=
  let (num, den) := shifted a.significand b.significand (a.exponent - b.exponent)
  nearest num den

/-- The rounded power of ten, if it is finite. -/
def powerOfTen (n : Nat) : Option Magnitude := nearest (Nat.pow 10 n) 1

/-- Divides by the power of ten `steps` times, rounding each time; zero stays zero. -/
def divSteps (power : Nat) : Nat → Magnitude → Option Magnitude
  | 0, x => some x
  | steps + 1, x =>
    if x.significand = 0 then some x
    else (powerOfTen power).bind x.div |>.bind (divSteps power steps)

/-- Moves the decimal point: the rounded number times or divided by the rounded power of ten. As
`10 ^ 308` is the greatest finite power, a greater one is beyond the finite numbers, and a division
by a greater one is done in steps of 308 and a last step by what remains. -/
def scaled (x : Magnitude) (power : Int) : Option Magnitude :=
  let size := power.natAbs
  if x.significand = 0 then some x
  else if 0 ≤ power then
    if 308 < size then none else (powerOfTen size).bind x.mul
  else
    let steps := (size - 1) / 308
    (divSteps 308 steps x).bind fun y =>
      if y.significand = 0 then some y else (powerOfTen (size - 308 * steps)).bind y.div

end Magnitude

end ApplianceRest.Decimal
