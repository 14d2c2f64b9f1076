import TapeLang.Text.Digit

/-!
# Decimal texts

The decimal text of an integer, plain or filled with zeros to a least width, and the text of a
decimal fraction.

* `Decimal.text` is the shortest numeral, with a minus sign in front of a negative number.
* `Decimal.padded` fills with zeros between the sign and the digits; the sign counts towards the
  width, and a longer numeral is never cut.
* `Decimal.Writable` says of an integer that its numeral has no more digits than a numeral may have.
  `Decimal.text` is the numeral itself, however long it is; whoever writes it has to ask first.
* `Decimal.fraction` writes `coefficient * 10 ^ power`: positional notation while the point stands
  near the digits, and otherwise one digit before the point and a power of ten.

The lemmas give each text as a list of characters, which is what readers of such a text recurse on.
-/

namespace TapeLang.Decimal

/-- The minus sign of a negative number, and nothing in front of another one. -/
def sign (z : Int) : String :=
  if z < 0 then "-" else ""

/-- The shortest decimal text of an integer. -/
def text (z : Int) : String :=
  sign z ++ z.natAbs.repr

/-- The decimal text of an integer with zeros after the sign, so that it has at least `width`
characters. -/
def padded (width : Nat) (z : Int) : String :=
  sign z ++ String.ofList (z.natAbs.repr.toList.leftpad (width - (sign z).length) '0')

/-! ## Numerals that are too long -/

/-- The least number whose numeral has too many digits. Nothing but its size matters, and it is too
great to be computed with in a proof. -/
@[irreducible] def limit : Nat := Nat.pow 10 Text.maxDigits

/-- The numeral of an integer has no more digits than a numeral may have. A sign is no digit. -/
def Writable (z : Int) : Prop :=
  z.natAbs < limit

instance (z : Int) : Decidable (Writable z) :=
  inferInstanceAs (Decidable (_ < _))

theorem lt_pow_ten_iff {n digits : Nat} (hdigits : 0 < digits) :
    n < Nat.pow 10 digits ↔ (Nat.toDigits 10 n).length ≤ digits :=
  (Nat.length_toDigits_le_iff (by decide) hdigits).symm

/-- The digits of an integer can be counted as well. -/
theorem writable_iff_length {z : Int} :
    Writable z ↔ (Nat.toDigits 10 z.natAbs).length ≤ Text.maxDigits := by
  unfold Writable limit
  exact lt_pow_ten_iff (by decide)

theorem writable_natCast {n : Nat} : Writable (n : Int) ↔ n < limit := by
  rw [Writable, Int.natAbs_natCast]

theorem not_writable_limit : ¬ Writable limit :=
  fun hwritable => Nat.lt_irrefl limit (writable_natCast.mp hwritable)

theorem lt_length_limit : Text.maxDigits < (Nat.toDigits 10 limit).length :=
  Nat.lt_of_not_le fun hle => not_writable_limit (writable_iff_length.mpr hle)

/-- One digit is never too many. -/
theorem ten_le_limit : 10 ≤ limit := by
  have hnine : Writable (9 : Nat) := writable_iff_length.mpr (by decide)
  exact writable_natCast.mp hnine

theorem writable_of_lt_ten {z : Int} (hz : z.natAbs < 10) : Writable z :=
  Nat.lt_of_lt_of_le hz ten_le_limit

/-! ## The characters of a numeral -/

@[simp] theorem sign_natCast (n : Nat) : sign (n : Int) = "" := by
  simp [sign]

theorem toList_text_natCast (n : Nat) : (text (n : Int)).toList = Nat.toDigits 10 n := by
  simp [text]

theorem toList_text_of_neg {z : Int} (hneg : z < 0) :
    (text z).toList = '-' :: Nat.toDigits 10 z.natAbs := by
  simp [text, sign, hneg]

theorem toList_padded_natCast (width n : Nat) :
    (padded width (n : Int)).toList = (Nat.toDigits 10 n).leftpad width '0' := by
  simp [padded]

/-! ## Fractions -/

/-- A numeral that shows a fraction, in positional notation, reads as one even if it is whole. -/
def withPoint (whole part : List Char) : List Char :=
  whole ++ '.' :: (if part.isEmpty then ['0'] else part)

/-- The digits with the point before the digit at index `point`; zeros fill the gap on either
side. -/
def positional (digits : List Char) (point : Int) : List Char :=
  if point ≤ 0 then withPoint ['0'] (List.replicate (-point).toNat '0' ++ digits)
  else withPoint ((digits.take point.toNat).rightpad point.toNat '0') (digits.drop point.toNat)

/-- One digit, the others after a point if there are others, and the power of ten with its sign and
at least two digits. -/
def scientific (digits : List Char) (point : Int) : List Char :=
  let mantissa := match digits with
    | first :: second :: rest => first :: '.' :: second :: rest
    | short => short
  let power := point - 1
  let mark := if power < 0 then '-' else '+'
  mantissa ++ 'e' :: mark :: (padded 2 power.natAbs).toList

/-- The text of `coefficient * 10 ^ power`. Zeros at the end of the coefficient carry no information
and are dropped. The point stands at an index of -3 to 16 in positional notation. -/
def fraction (coefficient : Nat) (power : Int) : String :=
  let numeral := (coefficient.repr.toList.reverse.dropWhile (· == '0')).reverse
  let digits := if numeral.isEmpty then ['0'] else numeral
  let point := if coefficient = 0 then 1 else coefficient.repr.length + power
  .ofList (if -3 ≤ point ∧ point ≤ 16 then positional digits point else scientific digits point)

end TapeLang.Decimal
