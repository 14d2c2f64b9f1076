import TapeLang.Number.Shortest
import TapeLang.Text.Quoted

/-!
# Atoms

A program or a cell count that comes from outside may hold a plain value where a name or a number
belongs. An `Atom` is such a value: nothing, a truth value, an integer, a floating-point number or a
text. A `Literal` is an atom, a list or a record.

Each has a *literal form*, which tells the kinds apart (a text is quoted), and an atom also has a
*plain form*, which does not (a text stands for itself). An atom that is not `Atom.Writable` cannot
be written in any form: it is an integer with too many digits.

Two atoms are the same if their keys are. A key is the exact value of a number, whatever kind of
atom it comes from, and a truth value counts as one or zero; so there is no rounding in a
comparison.
-/

namespace TapeLang

/-- A plain value. -/
inductive Atom where
  | null
  | flag (value : Bool)
  | int (value : Int)
  | float (value : Binary64)
  | text (value : String)
  deriving DecidableEq, Repr

namespace Atom

/-! ## Written forms -/

/-- The literal form of an atom that is no text, and the given form of one that is. -/
def spell (ofText : String → String) : Atom → String
  | null => "None"
  | flag true => "True"
  | flag false => "False"
  | int value => Decimal.text value
  | float value => value.text
  | text value => ofText value

/-- The literal form: a text is quoted. -/
def literal (a : Atom) : String :=
  a.spell Text.quoted

/-- The plain form: a text stands for itself. -/
def plain (a : Atom) : String :=
  a.spell id

/-- The form in a column of a table: a truth value counts as one or zero there, and every other atom
has its plain form. Nothing has no such form. -/
def tabular? : Atom → Option String
  | null => none
  | flag value => some (Decimal.text (if value then 1 else 0))
  | other => some other.plain

/-- The atom is no integer with too many digits. -/
def Writable : Atom → Prop
  | int value => Decimal.Writable value
  | _ => True

instance (a : Atom) : Decidable a.Writable :=
  match a with
  | int value => inferInstanceAs (Decidable (Decimal.Writable value))
  | null | flag _ | float _ | text _ => .isTrue trivial

/-- The literal form, if the atom can be written. -/
def literal? (a : Atom) : Option String :=
  if a.Writable then some a.literal else none

@[simp] theorem writable_text (value : String) : (text value).Writable := trivial

@[simp] theorem literal_text (value : String) : (text value).literal = Text.quoted value := rfl

@[simp] theorem plain_text (value : String) : (text value).plain = value := rfl

@[simp] theorem tabular?_text (value : String) : (text value).tabular? = some value := rfl

theorem tabular?_eq_none_iff {a : Atom} : a.tabular? = none ↔ a = null := by
  cases a <;> simp [tabular?]

/-! ## Comparison -/

/-- What a comparison sees of an atom. -/
inductive Key where
  | null
  | number (value : Dyadic)
  | infinity (negative : Bool)
  | notANumber
  | text (value : String)
  deriving DecidableEq

/-- The key of an atom. -/
def key : Atom → Key
  | null => .null
  | flag value => .number (.ofInt (if value then 1 else 0))
  | int value => .number (.ofInt value)
  | float value =>
    if value.rank < Binary64.infinityRank then .number value.toDyadic
    else if value.rank = Binary64.infinityRank then .infinity value.negative
    else .notANumber
  | text value => .text value

/-- Two atoms have the same value. -/
def same (a b : Atom) : Bool :=
  a.key = b.key

@[simp] theorem same_self (a : Atom) : a.same a = true := by
  simp [same]

@[simp] theorem same_text {a : Atom} {value : String} :
    a.same (text value) = true ↔ a = text value := by
  unfold same
  cases a with
  | float x =>
    simp only [key]
    split
    · simp
    · split <;> simp
  | _ => simp [key]

end Atom

/-! ## Literals -/

/-- A plain value, a list, or a record with its keys and their values in order. -/
inductive Literal where
  | atom (value : Atom)
  | list (values : List Literal)
  | record (keys : List String) (values : List Literal)

namespace Literal

mutual

/-- The literal form, if every atom can be written: a list stands in brackets and a record in
braces, with commas between the members. -/
def literal? : Literal → Option String
  | atom value => value.literal?
  | list values => do return "[" ++ String.intercalate ", " (← literals? values) ++ "]"
  | record keys values => do
    let entries :=
      keys.zipWith (fun key value => Text.quoted key ++ ": " ++ value) (← literals? values)
    return "\x7b" ++ String.intercalate ", " entries ++ "\x7d"

/-- The literal forms of the members of a list. -/
def literals? : List Literal → Option (List String)
  | [] => some []
  | value :: rest => do return (← literal? value) :: (← literals? rest)

end

end Literal

end TapeLang
