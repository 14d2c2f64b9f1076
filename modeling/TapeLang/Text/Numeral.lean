import TapeLang.Text.Blank
import TapeLang.Text.Digit

/-!
# Reading integer numerals

An integer numeral has at most one sign and at least one decimal digit, of any script. A single
underscore may stand between two digits, and white space around the whole. A numeral with more than
`maxDigits` digits is not read; zeros at the front count.

The reader works from the outside in: `readInteger?` drops the white space and takes the sign,
`digitValues?` reads the digits, and `valueOfDigits` adds them up.
-/

namespace TapeLang.Text

/-- The values of the digits of an unsigned numeral. -/
def digitValues? : List Char → Option (List Nat)
  | [] => none
  | [c] => (digitValue? c).map ([·])
  | c :: '_' :: rest => return (← digitValue? c) :: (← digitValues? rest)
  | c :: rest => return (← digitValue? c) :: (← digitValues? rest)

/-- The number with the given decimal digits. -/
def valueOfDigits (digits : List Nat) : Nat :=
  digits.foldl (fun value digit => 10 * value + digit) 0

/-- The number that an unsigned numeral writes. -/
def readNatural? (numeral : List Char) : Option Nat := do
  let digits ← digitValues? numeral
  guard (digits.length ≤ maxDigits)
  return valueOfDigits digits

/-- The integer that a numeral writes, with its sign and with white space around it. -/
def readInteger? (text : List Char) : Option Int :=
  match trim isBlank text with
  | '-' :: numeral => (readNatural? numeral).map fun value => -value
  | '+' :: numeral => (readNatural? numeral).map fun value => value
  | numeral => (readNatural? numeral).map fun value => value

end TapeLang.Text
