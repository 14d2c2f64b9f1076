/-!
# Fractions

A fraction is a pair of natural numbers and need not be in lowest terms. Rounding in binary and in
decimal both start from one: scale it so that the last place to keep is the ones' place, and take
the whole part or the nearest whole number.

`Fraction.binaryPlace` and `Fraction.decimalPlace` say how large a fraction is in the two bases.
-/

namespace TapeLang

/-- A numerator over a denominator. -/
structure Fraction where
  num : Nat
  den : Nat

namespace Fraction

/-- The fraction times a power of a base. -/
def scale (f : Fraction) (base : Nat) (power : Int) : Fraction :=
  if 0 ≤ power then ⟨f.num * Nat.pow base power.toNat, f.den⟩
  else ⟨f.num, f.den * Nat.pow base (-power).toNat⟩

/-- The whole part. -/
def floor (f : Fraction) : Nat :=
  f.num / f.den

/-- The nearest whole number. Halfway between two, it is the even one. -/
def nearest (f : Fraction) : Nat :=
  let rest := f.num % f.den
  if 2 * rest < f.den ∨ (2 * rest = f.den ∧ f.floor % 2 = 0) then f.floor else f.floor + 1

/-- The exponent of the greatest power of two that is not above a positive fraction. -/
def binaryPlace (f : Fraction) : Int :=
  let estimate : Int := (f.num.log2 : Int) - f.den.log2
  if 0 < (f.scale 2 (-estimate)).floor then estimate else estimate - 1

/-- The exponent of the least power of ten that is above a positive fraction. For a fraction of one
or more it is the number of digits in front of the point. -/
def decimalPlace (f : Fraction) : Int :=
  if f.den ≤ f.num then f.floor.repr.length
  else 1 - (((f.den - 1) / f.num).repr.length : Int)

/-- The nearest whole number is one of the two neighbours. -/
theorem nearest_eq_floor_or (f : Fraction) : f.nearest = f.floor ∨ f.nearest = f.floor + 1 := by
  simp only [nearest]
  split
  · exact .inl rfl
  · exact .inr rfl

end Fraction

end TapeLang
