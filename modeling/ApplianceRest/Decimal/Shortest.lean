import ApplianceRest.Decimal.Binary64

/-!
# Shortest decimal text of a binary number

The digits are the fewest that read back as the same number; among those of that count, the ones
nearest to it. The text is positional for sizes from `0.00001` to below `10 ^ 16` and has an
exponent beyond.
-/

namespace ApplianceRest.Decimal

namespace Magnitude

/-- The decimal exponent of the first digit of `num / den`, both positive. -/
def floorLog10 (num den : Nat) : Int :=
  if den ≤ num then Int.ofNat (Nat.toDigits 10 (num / den)).length - 1
  else -Int.ofNat (Nat.toDigits 10 ((den + num - 1) / num - 1)).length

/-- On the grid of the multiples of `10 ^ power`: the neighbour of the number, if one of the two
lies among the reals that round to the number. The nearer one wins, of two equally near the even
one. -/
def onGrid (x : Magnitude) (power : Int) : Option Nat :=
  -- in quarters of the last bit: the number, and the ends of the interval around it
  let middle := 4 * x.significand
  let low := if x.significand = leastNormal ∧ -1074 < x.exponent then middle - 1 else middle - 2
  let high := middle + 2
  let (a, b) := shifted 1 1 (x.exponent - 2)
  let (a, b) :=
    if 0 ≤ power then (a, b * Nat.pow 10 power.toNat) else (a * Nat.pow 10 (-power).toNat, b)
  let inside (c : Nat) : Bool :=
    if x.significand % 2 == 0 then low * a ≤ c * b && c * b ≤ high * a
    else low * a < c * b && c * b < high * a
  let below := middle * a / b
  let above := below + 1
  match inside below, inside above with
  | true, true =>
    let down := middle * a - below * b
    let up := above * b - middle * a
    if down < up || (down == up && below % 2 == 0) then some below else some above
  | true, false => some below
  | false, true => some above
  | false, false => none

/-- The shortest digits of a positive number, and the decimal exponent of the first of them. -/
def shortestDigits (x : Magnitude) : List Char × Int :=
  let (num, den) := shifted x.significand 1 x.exponent
  let first := floorLog10 num den
  let grids := List.range 17
  match grids.findSome? fun n => onGrid x (first - Int.ofNat n) |>.map fun c => (n, c) with
  | some (n, c) =>
    let ds := Nat.toDigits 10 c
    -- the upper neighbour of 99 on its grid is 100, whose zeros say nothing
    ((ds.reverse.dropWhile (· == '0')).reverse, first - Int.ofNat n + Int.ofNat ds.length - 1)
  | none => (['0'], 0)

end Magnitude

/-- How decimal texts of binary numbers are laid out. -/
structure Layout where
  /-- the least exponent of the first digit that is written positionally -/
  leastPositional : Int
  /-- the greatest such exponent -/
  greatestPositional : Int

/-- The layout of numbers in documents and messages. -/
def documentLayout : Layout := ⟨-5, 15⟩

/-- Digits and the exponent of the first one, laid out; a positional text always has a point with a
digit on either side. -/
def Layout.render (layout : Layout) (ds : List Char) (first : Int) : List Char :=
  if layout.leastPositional ≤ first ∧ first ≤ layout.greatestPositional then
    if first < 0 then ['0', '.'] ++ List.replicate ((-first).toNat - 1) '0' ++ ds
    else
      let whole := first.toNat + 1
      if ds.length ≤ whole then ds ++ List.replicate (whole - ds.length) '0' ++ ['.', '0']
      else ds.take whole ++ ['.'] ++ ds.drop whole
  else
    ds.take 1 ++ (if ds.length ≤ 1 then [] else '.' :: ds.drop 1) ++
      ['e', if first < 0 then '-' else '+'] ++ Nat.toDigits 10 first.natAbs

/-- The text of a binary number. -/
def Binary64.text (x : Binary64) : List Char :=
  let size :=
    if x.magnitude.significand = 0 then ['0', '.', '0']
    else
      let (ds, first) := x.magnitude.shortestDigits
      documentLayout.render ds first
  if x.negative then '-' :: size else size

end ApplianceRest.Decimal
