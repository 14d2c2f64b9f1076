import TapeLang.Operation

/-!
# Instructions

An instruction is an opcode with an integer argument. What the argument says depends on the
operation: how often a primitive is repeated, where a jump goes, how far a scan or a carry reaches.

An instruction has two written forms. `Instruction.render` looks like source text and serves as the
key under which a loop is counted; `Instruction.literal` is the pair of opcode and argument. There
is such a form only if the numbers in it can be written, as `render?` and `literal?` say.
-/

namespace TapeLang

/-- An opcode and its argument. -/
structure Instruction where
  opcode : Opcode
  arg : Int
  deriving DecidableEq

namespace Instruction

/-- An instruction for one of the machine's operations. -/
abbrev of (op : Operation) (arg : Int) : Instruction :=
  ⟨.known op, arg⟩

/-- An instruction that repeats a primitive. -/
abbrev repeated (p : Primitive) (count : Int) : Instruction :=
  of (.primitive p) count

/-- A character with a count in braces. -/
def counted (symbol : Char) (count : Int) : String :=
  symbol.toString ++ "\x7b" ++ Decimal.text count ++ "\x7d"

/-- The instruction in a form that looks like source text. -/
def render (i : Instruction) : String :=
  match i.opcode with
  | .known (.primitive p) => counted p.symbol i.arg
  | .known .jumpIfZero => "["
  | .known .jumpIfNonzero => "]"
  | .known .zero => "[-]"
  | .known (.scan d) => "[" ++ counted (Primitive.move d).symbol i.arg ++ "]"
  | .known (.carry d) =>
    "[-" ++ counted (Primitive.move d).symbol i.arg ++ "+"
      ++ counted (Primitive.move d.flip).symbol i.arg ++ "]"
  | .foreign label _ => "?" ++ label.plain

/-- The pair of opcode and argument. -/
def literal (i : Instruction) : String :=
  "(" ++ i.opcode.toAtom.literal ++ ", " ++ Decimal.text i.arg ++ ")"

/-- What the rendered form shows can be written. A jump and a cleared cell do not show an
argument. -/
def Renderable (i : Instruction) : Prop :=
  match i.opcode with
  | .known .jumpIfZero | .known .jumpIfNonzero | .known .zero => True
  | .known _ => Decimal.Writable i.arg
  | .foreign label _ => label.Writable

instance (i : Instruction) : Decidable i.Renderable :=
  match i with
  | ⟨.known .jumpIfZero, _⟩ | ⟨.known .jumpIfNonzero, _⟩ | ⟨.known .zero, _⟩ => .isTrue trivial
  | ⟨.known (.primitive _), arg⟩ | ⟨.known (.scan _), arg⟩ | ⟨.known (.carry _), arg⟩ =>
    inferInstanceAs (Decidable (Decimal.Writable arg))
  | ⟨.foreign label _, _⟩ => inferInstanceAs (Decidable label.Writable)

/-- The rendered form, if it can be written. -/
def render? (i : Instruction) : Option String :=
  if i.Renderable then some i.render else none

/-- The opcode and the argument can be written. -/
def Writable (i : Instruction) : Prop :=
  i.opcode.toAtom.Writable ∧ Decimal.Writable i.arg

instance (i : Instruction) : Decidable i.Writable :=
  inferInstanceAs (Decidable (_ ∧ _))

/-- The pair of opcode and argument, if it can be written. -/
def literal? (i : Instruction) : Option String :=
  if i.Writable then some i.literal else none

/-- The opcode and the argument as atoms. -/
def row (i : Instruction) : List Atom :=
  [i.opcode.toAtom, .int i.arg]

theorem Writable.renderable {i : Instruction} (hwritable : i.Writable) : i.Renderable := by
  obtain ⟨opcode, arg⟩ := i
  cases opcode with
  | known op => cases op <;> first | trivial | exact hwritable.2
  | foreign label unnamed => exact hwritable.1

end Instruction

end TapeLang
