import TapeLang.Number.Fraction

/-!
# Binary floating-point numbers

A `Binary64` is a floating-point number of 64 bits: a sign and an absolute value. The absolute value
is known by its rank, its place in the rising order of all absolute values that the format has.

* Rank zero is zero, and below rank `2 ^ 52` the values are the first multiples of `2 ^ (-1074)`.
* From there on each block of `2 ^ 52` ranks covers the numbers from one power of two to the next,
  at equal distances.
* `Binary64.infinityRank` is infinity, and what has a greater rank is not a number.

`Binary64.ofFraction` and `Binary64.ofDecimal` round to the nearest value. Since ranks follow the
values in order, rounding up from the end of a block gives the first rank of the next, and rounding
up from the last finite value gives infinity.
-/

namespace TapeLang

/-- A sign and the rank of an absolute value. -/
structure Binary64 where
  negative : Bool
  rank : Nat
  deriving DecidableEq, Repr

namespace Binary64

/-- The number of ranks between two powers of two. -/
def blockSize : Nat := Nat.pow 2 52

/-- The rank of infinity. -/
def infinityRank : Nat := 2047 * blockSize

/-- An infinity. -/
def infinity (negative : Bool) : Binary64 :=
  ⟨negative, infinityRank⟩

/-- The value that is not a number. -/
def notANumber : Binary64 :=
  ⟨false, infinityRank + 1⟩

/-- The absolute value of a finite number in units of `2 ^ x.exponent`. -/
def significand (x : Binary64) : Nat :=
  if x.rank < blockSize then x.rank else blockSize + x.rank % blockSize

/-- The exponent of the distance between a finite number and the next one of greater rank. -/
def exponent (x : Binary64) : Int :=
  if x.rank < blockSize then -1074 else (x.rank / blockSize : Nat) - 1075

/-- The absolute value of a finite number. -/
def magnitude (x : Binary64) : Fraction :=
  Fraction.scale ⟨x.significand, 1⟩ 2 x.exponent

/-- A finite number as an exact dyadic one. -/
def toDyadic (x : Binary64) : Dyadic :=
  .ofIntWithPrec (if x.negative then -x.significand else x.significand) (-x.exponent)

/-- The number with a given sign that is nearest to a positive fraction, the one of even rank
halfway between two. -/
def ofFraction (negative : Bool) (f : Fraction) : Binary64 :=
  let exponent := max (-1074) (f.binaryPlace - 52)
  let rank := (exponent + 1074).toNat * blockSize + (f.scale 2 (-exponent)).nearest
  ⟨negative, min rank infinityRank⟩

/-- The number with a given sign that is nearest to `coefficient * 10 ^ power`. What is 10 ^ 310 or
more is infinite and what is less than 10 ^ (-330) is zero, so no greater power is ever computed. -/
def ofDecimal (negative : Bool) (coefficient : Nat) (power : Int) : Binary64 :=
  let place := coefficient.repr.length + power
  if coefficient = 0 ∨ place < -330 then ⟨negative, 0⟩
  else if 310 < place then infinity negative
  else ofFraction negative (Fraction.scale ⟨coefficient, 1⟩ 10 power)

@[simp] theorem ofDecimal_zero (negative : Bool) (power : Int) :
    ofDecimal negative 0 power = ⟨negative, 0⟩ := by
  simp [ofDecimal]

end Binary64

end TapeLang
