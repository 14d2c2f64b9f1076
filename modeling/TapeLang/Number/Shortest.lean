import TapeLang.Number.Binary64
import TapeLang.Text.Decimal

/-!
# The shortest decimal text of a floating-point number

A finite number is written with as few decimal digits as it takes to read the same number back. For
each count of digits, the decimal numbers with so many digits form a grid, and if any point of it
reads back as the number, then so does one of the number's two neighbours. `Binary64.decimal?` looks
at these two; of two that read back it takes the nearer one, and halfway between them the even one.

Seventeen digits are enough for every finite number.
-/

namespace TapeLang.Binary64

/-- The coefficient of the power of ten that gives the number back, if one of the two grid points
next to the absolute value does. -/
def decimal? (x : Binary64) (power : Int) : Option Nat :=
  let scaled := x.magnitude.scale 10 (-power)
  let below := scaled.floor
  if ofDecimal x.negative below power = x then
    some (if ofDecimal x.negative (below + 1) power = x then scaled.nearest else below)
  else if ofDecimal x.negative (below + 1) power = x then some (below + 1)
  else none

/-- The greatest number of digits that any number needs. -/
def maxDigits : Nat := 17

/-- The shortest decimal number that reads back as a positive finite number: a coefficient and a
power of ten. -/
def shortest (x : Binary64) : Nat × Int :=
  let place := x.magnitude.decimalPlace
  let found? := (List.range maxDigits).findSome? fun (count : Nat) =>
    let power := place - (count + 1)
    (x.decimal? power).map (·, power)
  found?.getD (0, 0)

/-- The decimal text of a floating-point number. Zero has a sign too. -/
def text (x : Binary64) : String :=
  if infinityRank < x.rank then "nan"
  else
    let unsigned :=
      if x.rank = infinityRank then "inf"
      else if x.rank = 0 then Decimal.fraction 0 0
      else Decimal.fraction x.shortest.1 x.shortest.2
    if x.negative then "-" ++ unsigned else unsigned

/-- A coefficient found by `decimal?` reads back as the number. -/
theorem ofDecimal_of_decimal? {x : Binary64} {power : Int} {coefficient : Nat}
    (hfound : x.decimal? power = some coefficient) :
    ofDecimal x.negative coefficient power = x := by
  simp only [decimal?] at hfound
  split at hfound
  · rename_i hbelow
    split at hfound
    · rename_i habove
      cases hfound
      rcases Fraction.nearest_eq_floor_or (x.magnitude.scale 10 (-power)) with hnearest | hnearest
      · rwa [hnearest]
      · rwa [hnearest]
    · cases hfound
      exact hbelow
  · split at hfound
    · cases hfound
      assumption
    · cases hfound

end TapeLang.Binary64
