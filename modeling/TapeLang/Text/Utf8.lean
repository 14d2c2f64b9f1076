/-!
# UTF-8

`encodeUtf8` writes a text as bytes.

`decodeUtf8` reads bytes as UTF-8 text. What is not well formed is replaced: each longest run of
bytes that begins a character without completing it gives one U+FFFD, and so does each byte that
cannot begin a character.

The decoder is a machine with two kinds of state: between characters, or inside a character with
some continuation bytes owed. The next continuation byte is bounded by a range. The range is
narrower than 0x80 to 0xBF only right after the first byte, where it keeps out the overlong forms,
the surrogates and the values above U+10FFFF. A byte that is out of range ends the unfinished
character and is then read again as the first byte of another one.
-/

namespace TapeLang.Text

/-- The bytes of a text. -/
def encodeUtf8 (text : String) : List UInt8 :=
  text.toList.flatMap String.utf8EncodeChar

/-! ## Decoding -/

/-- The replacement character, U+FFFD. -/
def replacement : Char := '\uFFFD'

/-- What the bytes of an unfinished character still allow. -/
structure Unfinished where
  /-- The number of continuation bytes that come after the next one. -/
  more : Nat
  /-- The least value of the next byte. -/
  least : UInt8
  /-- The greatest value of the next byte. -/
  greatest : UInt8
  /-- The bits of the code point read so far. -/
  bits : Nat
  deriving Repr

/-- Where the decoder stands: between characters, or inside an unfinished one. -/
abbrev DecoderState := Option Unfinished

/-- Reads the first byte of a character: the characters it completes, and the state after it. -/
def firstByte (b : UInt8) : List Char × DecoderState :=
  let n := b.toNat
  if n < 0x80 then ([Char.ofNat n], none)
  else if n < 0xC2 then ([replacement], none)
  else if n < 0xE0 then ([], some ⟨0, 0x80, 0xBF, n - 0xC0⟩)
  else if n = 0xE0 then ([], some ⟨1, 0xA0, 0xBF, 0⟩)
  else if n = 0xED then ([], some ⟨1, 0x80, 0x9F, 0xD⟩)
  else if n < 0xF0 then ([], some ⟨1, 0x80, 0xBF, n - 0xE0⟩)
  else if n = 0xF0 then ([], some ⟨2, 0x90, 0xBF, 0⟩)
  else if n < 0xF4 then ([], some ⟨2, 0x80, 0xBF, n - 0xF0⟩)
  else if n = 0xF4 then ([], some ⟨2, 0x80, 0x8F, 4⟩)
  else ([replacement], none)

/-- Reads one byte in any state. -/
def decodeByte (state : DecoderState) (b : UInt8) : List Char × DecoderState :=
  match state with
  | none => firstByte b
  | some ⟨more, least, greatest, bits⟩ =>
    if least ≤ b && b ≤ greatest then
      let bits := bits * 64 + (b.toNat - 0x80)
      match more with
      | 0 => ([Char.ofNat bits], none)
      | more + 1 => ([], some ⟨more, 0x80, 0xBF, bits⟩)
    else
      let (chars, next) := firstByte b
      (replacement :: chars, next)

/-- Reads bytes from a state on. An unfinished character at the end is replaced. -/
def decodeFrom (state : DecoderState) : List UInt8 → List Char
  | [] => if state.isSome then [replacement] else []
  | b :: rest =>
    let (chars, next) := decodeByte state b
    chars ++ decodeFrom next rest

/-- Reads bytes as UTF-8 text, with U+FFFD in the place of what is not well formed. -/
def decodeUtf8 (bytes : List UInt8) : List Char :=
  decodeFrom none bytes

@[simp] theorem encodeUtf8_append (first second : String) :
    encodeUtf8 (first ++ second) = encodeUtf8 first ++ encodeUtf8 second := by
  simp [encodeUtf8]

@[simp] theorem decodeUtf8_nil : decodeUtf8 [] = [] := rfl

/-- A byte below 0x80 between two characters is a character by itself. -/
theorem decodeUtf8_cons_of_lt {b : UInt8} (hascii : b.toNat < 0x80) (rest : List UInt8) :
    decodeUtf8 (b :: rest) = Char.ofNat b.toNat :: decodeUtf8 rest := by
  simp [decodeUtf8, decodeFrom, decodeByte, firstByte, hascii]

end TapeLang.Text
