import TapeLang.Text.Printable

/-!
# Quoted texts

A text between quotation marks, so that every character of it can be seen.

* The mark is the apostrophe; a text that holds an apostrophe and no double quote is put between
  double quotes instead.
* The mark itself and the backslash get a backslash in front; line feed, return and tab are written
  `\n`, `\r` and `\t`.
* Any other character that is not printable is written by its code point in lower-case hexadecimal
  digits: `\x` and two of them, `\u` and four, or `\U` and eight, whichever is the first to fit.
-/

namespace TapeLang.Text

/-- The code point in hexadecimal digits, filled with zeros to a width. -/
def hexDigits (width : Nat) (c : Char) : List Char :=
  (Nat.toDigits 16 c.toNat).leftpad width '0'

/-- A character as it is written between two marks. -/
def escape (mark c : Char) : List Char :=
  if c == mark || c == '\\' then ['\\', c]
  else if c == '\n' then ['\\', 'n']
  else if c == '\r' then ['\\', 'r']
  else if c == '\t' then ['\\', 't']
  else if isPrintable c then [c]
  else if c.toNat < 0x100 then '\\' :: 'x' :: hexDigits 2 c
  else if c.toNat < 0x10000 then '\\' :: 'u' :: hexDigits 4 c
  else '\\' :: 'U' :: hexDigits 8 c

/-- The quotation mark that a text is put between. -/
def quotationMark (text : List Char) : Char :=
  if text.contains '\'' && !text.contains '"' then '"' else '\''

/-- A text between quotation marks. -/
def quoted (text : String) : String :=
  let mark := quotationMark text.toList
  String.ofList (mark :: text.toList.flatMap (escape mark) ++ [mark])

end TapeLang.Text
