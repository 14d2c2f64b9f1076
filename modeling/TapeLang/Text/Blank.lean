/-!
# Blank characters

Two sets of characters count as blank space at the ends of a text.

* `isBlank` is Unicode's property White_Space: 25 characters.
* `isGap` adds the four information separators U+001C to U+001F, which keep apart the fields of a
  record without being white space.

`trim` removes the characters of such a set from both ends, and `trimEnd` from the end alone; those
inside stay.
-/

namespace TapeLang.Text

/-- White space: the five controls from tabulation to return, the space, the next-line control and
the spaces and separators beyond the Latin letters. -/
def isBlank (c : Char) : Bool :=
  let n := c.toNat
  (0x09 ≤ n && n ≤ 0x0D) || n == 0x20 || n == 0x85 || n == 0xA0 || n == 0x1680
    || (0x2000 ≤ n && n ≤ 0x200A) || n == 0x2028 || n == 0x2029 || n == 0x202F || n == 0x205F
    || n == 0x3000

/-- White space, or one of the four information separators. -/
def isGap (c : Char) : Bool :=
  isBlank c || (0x1C ≤ c.toNat && c.toNat ≤ 0x1F)

/-- The text without the characters of a set at its end. -/
def trimEnd (blank : Char → Bool) (text : List Char) : List Char :=
  (text.reverse.dropWhile blank).reverse

/-- The text without the characters of a set at its two ends. -/
def trim (blank : Char → Bool) (text : List Char) : List Char :=
  trimEnd blank (text.dropWhile blank)

@[simp] theorem trim_nil (blank : Char → Bool) : trim blank [] = [] := rfl

end TapeLang.Text
