import TapeLang.Atom

/-!
# Tapes

A tape is a row of byte cells with a head on one of them. The head never leaves the row: that is
part of the type, and `moveTo?` refuses a target outside. Cells count modulo 256.

The lemmas say what each operation does to the row, to the head and to the cell under it.
-/

namespace TapeLang

/-- A row of byte cells and the position of the head. -/
structure Tape where
  cells : Array UInt8
  pos : Nat
  pos_lt : pos < cells.size

/-- The number of cells of a tape: at least one. -/
abbrev TapeLength := { length : Nat // 0 < length }

/-- A value that is not the length of a tape, in its literal form if it has one. -/
structure TapeLengthError where
  given? : Option String
  deriving DecidableEq, Repr

namespace TapeLength

/-- The length that a tape has if no other is asked for. -/
def standard : TapeLength := ⟨30000, by decide⟩

/-- The length of a tape that an integer gives, if it is positive. -/
def ofInt? (length : Int) : Option TapeLength :=
  if hpositive : 0 < length then some ⟨length.toNat, by omega⟩ else none

/-- The length of a tape that a value asks for: a positive integer, and nothing else. -/
def ofLiteral (given : Literal) : Except TapeLengthError TapeLength :=
  match given with
  | .atom (.int length) =>
    match ofInt? length with
    | some length => .ok length
    | none => .error ⟨given.literal?⟩
  | _ => .error ⟨given.literal?⟩

theorem ofInt?_eq_some_iff {length : Int} {n : TapeLength} :
    ofInt? length = some n ↔ length = n.val := by
  obtain ⟨n, hpositive⟩ := n
  unfold ofInt?
  constructor
  · intro hfound
    split at hfound
    · simp only [Option.some.injEq, Subtype.mk.injEq] at hfound
      simp only
      omega
    · cases hfound
  · rintro rfl
    simpa using hpositive

end TapeLength

/-- The message for a value that is not the length of a tape, if the value can be written. -/
def TapeLengthError.message? (e : TapeLengthError) : Option String :=
  e.given?.map ("tape length must be a positive integer, got " ++ ·)

namespace Tape

/-- A tape of zero cells with the head on the first one. -/
def blank (length : TapeLength) : Tape where
  cells := Array.replicate length.val 0
  pos := 0
  pos_lt := by simpa using length.property

/-- The number of cells. -/
def size (t : Tape) : Nat :=
  t.cells.size

/-- The cell under the head. -/
def cell (t : Tape) : UInt8 :=
  have hpos := t.pos_lt
  t.cells[t.pos]

/-- Writes the cell under the head. -/
def write (t : Tape) (value : UInt8) : Tape where
  cells := t.cells.set t.pos value t.pos_lt
  pos := t.pos
  pos_lt := by simpa using t.pos_lt

/-- Adds an integer to the cell under the head, modulo 256. -/
def add (t : Tape) (amount : Int) : Tape :=
  t.write (t.cell + .ofInt amount)

/-- A position that lies on the tape. -/
def Holds (t : Tape) (target : Int) : Prop :=
  0 ≤ target ∧ target < t.size

instance (t : Tape) (target : Int) : Decidable (t.Holds target) :=
  inferInstanceAs (Decidable (_ ∧ _))

/-- Moves the head to a position, if that lies on the tape. -/
def moveTo? (t : Tape) (target : Int) : Option Tape :=
  if htarget : t.Holds target then
    some { t with pos := target.toNat, pos_lt := by unfold Holds size at htarget; omega }
  else none

/-- Adds the cell under the head to the cell at a position and sets it to zero, if the position lies
on the tape. The head stays. -/
def carryTo? (t : Tape) (target : Int) : Option Tape :=
  if t.Holds target then
    let value := t.cell
    let given : Tape :=
      { t with
        cells := t.cells.modify target.toNat (· + value)
        pos_lt := by simpa using t.pos_lt }
    some (given.write 0)
  else none

/-! ## What an operation leaves behind -/

@[ext] theorem ext {first second : Tape} (hcells : first.cells = second.cells)
    (hpos : first.pos = second.pos) : first = second := by
  cases first; cases second; simp_all

@[simp] theorem size_blank (length : TapeLength) : (blank length).size = length.val := by
  simp [blank, size]

@[simp] theorem cell_blank (length : TapeLength) : (blank length).cell = 0 := by
  simp [blank, cell]

@[simp] theorem size_write (t : Tape) (value : UInt8) : (t.write value).size = t.size := by
  simp [write, size]

@[simp] theorem pos_write (t : Tape) (value : UInt8) : (t.write value).pos = t.pos := rfl

@[simp] theorem cell_write (t : Tape) (value : UInt8) : (t.write value).cell = value := by
  simp [write, cell]

@[simp] theorem size_add (t : Tape) (amount : Int) : (t.add amount).size = t.size :=
  size_write _ _

@[simp] theorem pos_add (t : Tape) (amount : Int) : (t.add amount).pos = t.pos := rfl

/-- Moving the head succeeds exactly on the tape, and moves nothing but the head. -/
theorem moveTo?_eq_some_iff {t moved : Tape} {target : Int} :
    t.moveTo? target = some moved ↔
      t.Holds target ∧ moved.cells = t.cells ∧ (moved.pos : Int) = target := by
  unfold moveTo?
  constructor
  · intro hmoved
    split at hmoved
    · cases hmoved
      exact ⟨‹_›, rfl, Int.toNat_of_nonneg ‹t.Holds target›.1⟩
    · cases hmoved
  · rintro ⟨htarget, hcells, hpos⟩
    rw [dif_pos htarget]
    congr 1
    exact Tape.ext hcells.symm (by simp only; omega)

theorem moveTo?_eq_none_iff {t : Tape} {target : Int} :
    t.moveTo? target = none ↔ ¬ t.Holds target := by
  unfold moveTo?
  split <;> simp [*]

end Tape

end TapeLang
