import TapeLang.Source.Cursor
import TapeLang.Text.Decimal

/-!
# Errors of compilation

The only thing that can be wrong with a source text is a bracket without a partner. A
`CompileError` says which kind of bracket it is and where it stands.

A `CompileNotice` is the form in which an error is reported. Its kind is a word, its numbers are
any integers, and the line and the column may be missing; the message is written from what is there.
-/

namespace TapeLang

/-- The side of a loop that a bracket stands on. -/
inductive Bracket where
  | opening
  | closing
  deriving DecidableEq, Repr

/-- A bracket without a partner. -/
structure CompileError where
  bracket : Bracket
  place : Place
  deriving DecidableEq, Repr

/-- The report of an error in a source text. -/
structure CompileNotice where
  kind : String
  position : Int
  line : Option Int := none
  column : Option Int := none
  deriving DecidableEq, Repr

/-- The word for an error at such a bracket. -/
def Bracket.kind : Bracket → String
  | opening => "UnmatchedOpen"
  | closing => "UnmatchedClose"

namespace CompileNotice

/-- The bracket that a message shows: the opening one if the kind is the word for it, and the
closing one otherwise. -/
def symbol (n : CompileNotice) : String :=
  if n.kind = Bracket.opening.kind then "[" else "]"

/-- The line and column, if the line is known. -/
def lineAndColumn (n : CompileNotice) : String :=
  match n.line with
  | none => ""
  | some line =>
    " (line " ++ Decimal.text line ++ ", column " ++ (n.column.map Decimal.text).getD "None" ++ ")"

/-- The message of a report. -/
def message (n : CompileNotice) : String :=
  "Compile error: unmatched '" ++ n.symbol ++ "' at position " ++ Decimal.text n.position
    ++ n.lineAndColumn

/-- The numbers in the message can be written. The column is only shown behind a line. -/
def Writable (n : CompileNotice) : Prop :=
  Decimal.Writable n.position ∧
    ∀ line ∈ n.line, Decimal.Writable line ∧ ∀ column ∈ n.column, Decimal.Writable column

instance (n : CompileNotice) : Decidable n.Writable :=
  inferInstanceAs (Decidable (Decimal.Writable n.position ∧
    ∀ line ∈ n.line, Decimal.Writable line ∧ ∀ column ∈ n.column, Decimal.Writable column))

/-- The message of a report, if it can be written. -/
def message? (n : CompileNotice) : Option String :=
  if n.Writable then some n.message else none

end CompileNotice

namespace CompileError

/-- The report of an error: everything about its place is known. -/
def notice (e : CompileError) : CompileNotice where
  kind := e.bracket.kind
  position := e.place.position
  line := some e.place.line
  column := some e.place.column

/-- The message of an error. -/
def message (e : CompileError) : String :=
  e.notice.message

end CompileError

end TapeLang
