import TapeLang.Crash
import TapeLang.Instruction
import TapeLang.Offset

/-!
# Programs

A program is a growable sequence of instructions. It is built by `emit`, which appends, `patch?`,
which gives an instruction another argument, and `truncate`, which drops the end. Offsets into it
may count from the end, as `TapeLang.Offset` says.

`Program.listing?` has one line per instruction, unless an instruction has no opcode.
`Program.loopSource` writes a span of instructions in one piece, which is how loops are told apart
when they are counted. `Program.agrees` compares a program with rows of atoms.

Numbers may be too long to be written. `Program.listed` is the listing with that taken into account:
it gives the first error that is met on the way through the lines.
-/

namespace TapeLang

/-- A sequence of instructions. -/
structure Program where
  instructions : Array Instruction := #[]
  deriving DecidableEq

namespace Program

/-- The program with the instructions of a list. -/
def ofList (instructions : List Instruction) : Program :=
  ⟨instructions.toArray⟩

/-- The instructions in order. -/
def toList (p : Program) : List Instruction :=
  p.instructions.toList

/-- The number of instructions. -/
def size (p : Program) : Nat :=
  p.instructions.size

/-! ## Building -/

/-- Appends an instruction; its place is the size before. -/
def emit (p : Program) (i : Instruction) : Program :=
  ⟨p.instructions.push i⟩

/-- Gives the instruction at a place another argument; a place outside changes nothing. -/
def setArg (p : Program) (place : Nat) (arg : Int) : Program :=
  ⟨p.instructions.modify place ({ · with arg })⟩

/-- Gives the instruction at an offset another argument, if there is one. -/
def patch? (p : Program) (offset arg : Int) : Option Program :=
  (Offset.element? p.size offset).map (p.setArg · arg)

/-- Drops the instructions from an offset on. -/
def truncate (p : Program) (offset : Int) : Program :=
  ⟨p.instructions.shrink (Offset.bound p.size offset)⟩

/-! ## Reading -/

/-- The instruction at an offset, if there is one. -/
def get? (p : Program) (offset : Int) : Option Instruction :=
  (Offset.element? p.size offset).bind (p.instructions[·]?)

/-- The instructions between two offsets, the one at `last` included. -/
def span (p : Program) (first last : Int) : List Instruction :=
  (p.instructions.extract (Offset.bound p.size first) (Offset.bound p.size (last + 1))).toList

/-- The instructions from a place on. -/
def suffix (p : Program) (place : Nat) : List Instruction :=
  (p.instructions.extract place p.size).toList

/-- The instructions between two offsets, written like source text in one piece. -/
def loopSource (p : Program) (first last : Int) : String :=
  String.join ((p.span first last).map Instruction.render)

/-- What the text of a span shows can be written. -/
def Renderable (p : Program) (first last : Int) : Prop :=
  ∀ i ∈ p.span first last, i.Renderable

instance (p : Program) (first last : Int) : Decidable (p.Renderable first last) :=
  inferInstanceAs (Decidable (∀ i ∈ p.span first last, i.Renderable))

/-- The text of the instructions between two offsets, if it can be written. -/
def loopSource? (p : Program) (first last : Int) : Option String :=
  if p.Renderable first last then some (p.loopSource first last) else none

/-- All instructions of the program can be written, and so can their places. -/
def Writable (p : Program) : Prop :=
  p.size ≤ Decimal.limit ∧ ∀ i ∈ p.toList, i.Writable

/-! ## Tables -/

/-- A text with spaces after it, so that it has at least `width` characters. -/
def column (width : Nat) (text : String) : String :=
  String.ofList (text.toList.rightpad width ' ')

/-- The line of a row in a listing: its place, its opcode and its argument. -/
def listingLine (place : Nat) (opcode : String) (arg : Int) : String :=
  "  " ++ Decimal.padded 4 place ++ "  " ++ column 16 opcode ++ " " ++ Decimal.text arg

/-- The lines of instructions from a place on, if every opcode can stand in a table. -/
def listingFrom? (place : Nat) : List Instruction → Option (List String)
  | [] => some []
  | i :: rest => do
    let opcode ← i.opcode.toAtom.tabular?
    return listingLine place opcode i.arg :: (← listingFrom? (place + 1) rest)

/-- One line per instruction, if every opcode can stand in a table. -/
def listing? (p : Program) : Option (List String) :=
  listingFrom? 0 p.toList

/-- The line of an instruction in a listing. Its place, its opcode and its argument are written in
this order, and the first of them that cannot be written is the error. -/
def listedLine (place : Nat) (i : Instruction) : Except Crash String :=
  if ¬ Decimal.Writable place then .error .unwritable
  else
    match i.opcode.toAtom.tabular? with
    | none => .error .unlistable
    | some opcode => if i.Writable then .ok (listingLine place opcode i.arg) else .error .unwritable

/-- The lines of instructions from a place on, or the first error in them. -/
def listedFrom (place : Nat) : List Instruction → Except Crash (List String)
  | [] => .ok []
  | i :: rest => return (← listedLine place i) :: (← listedFrom (place + 1) rest)

/-- One line per instruction, or the first error in them. -/
def listed (p : Program) : Except Crash (List String) :=
  listedFrom 0 p.toList

/-- The program as one text: the pairs of opcode and argument in brackets, if they can be
written. -/
def literal? (p : Program) : Option String := do
  let pairs ← p.toList.mapM Instruction.literal?
  return "BytecodeProgram([" ++ String.intercalate ", " pairs ++ "])"

/-! ## Comparison -/

/-- The program has the instructions that some rows give: as many as there are rows, each with the
same opcode and the same argument. -/
def agrees (p : Program) (rows : List (List Atom)) : Bool :=
  (p.toList.map Instruction.row).isEqv rows fun own given => own.isEqv given Atom.same

/-! ## The instructions after each operation -/

@[ext] theorem ext {p q : Program} (htoList : p.toList = q.toList) : p = q := by
  cases p; cases q; simpa [toList] using htoList

@[simp] theorem toList_ofList (instructions : List Instruction) :
    (ofList instructions).toList = instructions := rfl

@[simp] theorem length_toList (p : Program) : p.toList.length = p.size := rfl

@[simp] theorem toList_emit (p : Program) (i : Instruction) :
    (p.emit i).toList = p.toList ++ [i] := by
  simp [toList, emit]

@[simp] theorem size_emit (p : Program) (i : Instruction) : (p.emit i).size = p.size + 1 := by
  simp [size, emit]

@[simp] theorem toList_setArg (p : Program) (place : Nat) (arg : Int) :
    (p.setArg place arg).toList = p.toList.modify place ({ · with arg }) := by
  simp [toList, setArg]

@[simp] theorem size_setArg (p : Program) (place : Nat) (arg : Int) :
    (p.setArg place arg).size = p.size := by
  simp [size, setArg]

@[simp] theorem toList_truncate (p : Program) (offset : Int) :
    (p.truncate offset).toList = p.toList.take (Offset.bound p.size offset) := by
  simp [toList, truncate]

@[simp] theorem suffix_eq (p : Program) (place : Nat) : p.suffix place = p.toList.drop place := by
  simp only [suffix, toList, size, Array.toList_extract, List.extract_eq_take_drop]
  exact List.take_of_length_le (by simp)

/-- An offset from the front that lies inside gives the instruction of that place. -/
theorem get?_natCast {p : Program} {place : Nat} (hlt : place < p.size) :
    p.get? (place : Int) = p.toList[place]? := by
  simp [get?, hlt, toList]

theorem get?_eq_none_iff {p : Program} {offset : Int} :
    p.get? offset = none ↔ offset < -p.size ∨ (p.size : Int) ≤ offset := by
  unfold get?
  rw [← Offset.element?_eq_none_iff]
  cases helement : Offset.element? p.size offset with
  | none => simp
  | some place =>
    have hlt := (Offset.element?_eq_some_iff.mp helement).1
    simpa [size] using hlt

/-- There is no listing exactly if some instruction has no opcode. -/
theorem listingFrom?_eq_none_iff {place : Nat} {instructions : List Instruction} :
    listingFrom? place instructions = none ↔ ∃ i ∈ instructions, i.opcode.toAtom = .null := by
  induction instructions generalizing place with
  | nil => simp [listingFrom?]
  | cons i rest ih =>
    simp only [List.mem_cons, exists_eq_or_imp]
    rw [← @ih (place + 1), ← Atom.tabular?_eq_none_iff, listingFrom?]
    cases i.opcode.toAtom.tabular? <;> cases listingFrom? (place + 1) rest <;> simp

theorem length_listingFrom? {place : Nat} {instructions : List Instruction} {lines : List String}
    (hlines : listingFrom? place instructions = some lines) :
    lines.length = instructions.length := by
  induction instructions generalizing place lines with
  | nil => cases hlines; rfl
  | cons i rest ih =>
    simp only [listingFrom?, Option.bind_eq_bind, Option.bind_eq_some_iff, Option.pure_def,
      Option.some.injEq] at hlines
    obtain ⟨opcode, -, later, hlater, rfl⟩ := hlines
    simp [ih hlater]

/-- A listing has as many lines as the program has instructions. -/
theorem length_listing? {p : Program} {lines : List String} (hlines : p.listing? = some lines) :
    lines.length = p.size :=
  length_listingFrom? hlines

end Program

end TapeLang
