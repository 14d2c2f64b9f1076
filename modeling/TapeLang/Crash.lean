import TapeLang.Memory
import TapeLang.Tape

/-!
# Crashes

A `Crash` is an error that nothing in the language is meant to cause: whoever asks for something
runs into it, and nobody handles it. Faults of the machine and errors of compilation are not among
them.
-/

namespace TapeLang

/-- An error that nobody handles. -/
inductive Crash where
  /-- An offset names no instruction of a program. -/
  | outside (offset : Int)
  /-- There is no room for a sequence of bytes. -/
  | shortage (shortage : Shortage)
  /-- A value is not the length of a tape. -/
  | tapeLength (e : TapeLengthError)
  /-- An opcode that is nothing cannot stand in a table. -/
  | unlistable
  /-- An integer has too many digits to be written. -/
  | unwritable
  /-- The name of a file has the character NUL in it. -/
  | nulInName
  deriving DecidableEq, Repr

/-- The message about an integer with too many digits. -/
def unwritableMessage : String :=
  "Exceeds the limit (4300 digits) for integer string conversion; use " ++
    "sys.set_int_max_str_digits() to increase the limit"

/-- What is wrong, in words. A full memory is left without any, and a value that cannot be written
is not shown. -/
def Crash.message : Crash → String
  | outside offset => if IsWord offset then "list index out of range" else noWordMessage
  | shortage .size => noWordMessage
  | shortage .memory => ""
  | tapeLength e => e.message?.getD unwritableMessage
  | unlistable => "unsupported format string passed to NoneType.__format__"
  | unwritable => unwritableMessage
  | nulInName => "embedded null byte"

end TapeLang
