import TapeLang.Atom

/-!
# Operations

What an instruction can ask of the machine.

* A `Primitive` is one of the six commands that act on the tape or on the streams. It has a
  character of its own, and an instruction repeats it some number of times.
* An `Operation` is one of the thirteen things that the machine can do: the six primitives, the two
  conditional jumps, and five shortcuts for loops: clearing a cell, scanning for a zero cell and
  carrying a cell's value to another cell, the last two in either direction.
* An `Opcode` is what stands in an instruction: an operation, or a label that names none.

Every operation has a name. `Opcode.ofAtom` and `Opcode.toAtom` are inverse to each other, so an
opcode is nothing but an atom that has been looked up.
-/

namespace TapeLang

/-! ## Directions -/

/-- A direction along the tape. -/
inductive Direction where
  | left
  | right
  deriving DecidableEq, Repr

namespace Direction

/-- The other direction. -/
def flip : Direction → Direction
  | left => right
  | right => left

/-- The change of position that a number of cells in this direction makes. -/
def offset (d : Direction) (cells : Int) : Int :=
  match d with
  | left => -cells
  | right => cells

@[simp] theorem flip_flip (d : Direction) : d.flip.flip = d := by
  cases d <;> rfl

@[simp] theorem offset_flip (d : Direction) (cells : Int) :
    d.flip.offset cells = -d.offset cells := by
  cases d <;> simp [flip, offset]

theorem offset_ne_zero {cells : Int} (hcells : cells ≠ 0) (d : Direction) :
    d.offset cells ≠ 0 := by
  cases d <;> simp only [offset] <;> omega

end Direction

/-! ## Primitives -/

/-- A command that an instruction can repeat. -/
inductive Primitive where
  | move (d : Direction)
  | add
  | sub
  | write
  | read
  deriving DecidableEq, Repr

namespace Primitive

/-- The character of a primitive in a source text. -/
def symbol : Primitive → Char
  | move .right => '>'
  | move .left => '<'
  | add => '+'
  | sub => '-'
  | write => '.'
  | read => ','

/-- The primitive of a character, if it is the character of one. -/
def ofSymbol? : Char → Option Primitive
  | '>' => some (move .right)
  | '<' => some (move .left)
  | '+' => some add
  | '-' => some sub
  | '.' => some write
  | ',' => some read
  | _ => none

@[simp] theorem ofSymbol?_symbol (p : Primitive) : ofSymbol? p.symbol = some p := by
  cases p with
  | move d => cases d <;> rfl
  | _ => rfl

theorem ofSymbol?_eq_some_iff {c : Char} {p : Primitive} :
    ofSymbol? c = some p ↔ c = p.symbol := by
  constructor
  · intro hsymbol
    unfold ofSymbol? at hsymbol
    split at hsymbol <;> cases hsymbol <;> rfl
  · rintro rfl
    exact ofSymbol?_symbol p

end Primitive

/-! ## Operations -/

/-- One of the thirteen operations of the machine. -/
inductive Operation where
  | primitive (p : Primitive)
  /-- Goes to the end of a loop on a zero cell. -/
  | jumpIfZero
  /-- Goes back to the start of a loop on a nonzero cell. -/
  | jumpIfNonzero
  /-- Sets the cell to zero. -/
  | zero
  /-- Moves by a stride until the cell is zero. -/
  | scan (d : Direction)
  /-- Adds the cell to another one and sets it to zero. -/
  | carry (d : Direction)
  deriving DecidableEq, Repr

namespace Operation

/-- The name of an operation. -/
def name : Operation → String
  | primitive (.move .right) => "MOVE_RIGHT"
  | primitive (.move .left) => "MOVE_LEFT"
  | primitive .add => "ADD"
  | primitive .sub => "SUB"
  | primitive .write => "WRITE"
  | primitive .read => "READ"
  | jumpIfZero => "JUMP_IF_ZERO"
  | jumpIfNonzero => "JUMP_IF_NONZERO"
  | zero => "ZERO"
  | scan .right => "SCAN_RIGHT"
  | scan .left => "SCAN_LEFT"
  | carry .left => "MOVE_VALUE_LEFT"
  | carry .right => "MOVE_VALUE_RIGHT"

/-- All operations. -/
def all : List Operation :=
  [primitive (.move .right), primitive (.move .left), primitive .add, primitive .sub,
    primitive .write, primitive .read, jumpIfZero, jumpIfNonzero, zero, scan .right, scan .left,
    carry .left, carry .right]

/-- The operation that an atom names, if it is a text that names one. -/
def ofAtom? (label : Atom) : Option Operation :=
  all.find? fun op => decide (Atom.text op.name = label)

theorem mem_all (op : Operation) : op ∈ all := by
  cases op with
  | primitive p => cases p with
    | move d => cases d <;> decide
    | _ => decide
  | scan d => cases d <;> decide
  | carry d => cases d <;> decide
  | _ => decide

@[simp] theorem ofAtom?_name (op : Operation) : ofAtom? (.text op.name) = some op := by
  cases op with
  | primitive p => cases p with
    | move d => cases d <;> decide
    | _ => decide
  | scan d => cases d <;> decide
  | carry d => cases d <;> decide
  | _ => decide

/-- Only the name of an operation is looked up as that operation. -/
theorem ofAtom?_eq_some_iff {label : Atom} {op : Operation} :
    ofAtom? label = some op ↔ label = .text op.name := by
  constructor
  · intro hfound
    have hnamed := List.find?_some hfound
    exact (of_decide_eq_true hnamed).symm
  · rintro rfl
    exact ofAtom?_name op

end Operation

/-! ## Opcodes -/

/-- What stands in an instruction: an operation, or a label that is the name of none. -/
inductive Opcode where
  | known (op : Operation)
  | foreign (label : Atom) (unnamed : Operation.ofAtom? label = none)
  deriving DecidableEq

namespace Opcode

/-- The opcode of an atom. -/
def ofAtom (label : Atom) : Opcode :=
  match hlabel : Operation.ofAtom? label with
  | some op => known op
  | none => foreign label hlabel

/-- The atom of an opcode: the name of an operation, or the label itself. -/
def toAtom : Opcode → Atom
  | known op => .text op.name
  | foreign label _ => label

@[simp] theorem ofAtom_toAtom (opcode : Opcode) : ofAtom opcode.toAtom = opcode := by
  cases opcode with
  | known op =>
    simp only [ofAtom, toAtom]
    split
    · rename_i hlabel
      rw [Operation.ofAtom?_name] at hlabel
      cases hlabel
      rfl
    · rename_i hlabel
      rw [Operation.ofAtom?_name] at hlabel
      cases hlabel
  | foreign label unnamed =>
    simp only [ofAtom, toAtom]
    split
    · rename_i hlabel
      rw [unnamed] at hlabel
      cases hlabel
    · rfl

@[simp] theorem toAtom_ofAtom (label : Atom) : (ofAtom label).toAtom = label := by
  unfold ofAtom
  split
  · exact (Operation.ofAtom?_eq_some_iff.mp ‹_›).symm
  · rfl

end Opcode

end TapeLang
