import TapeLang.Compilation.Error
import TapeLang.Compilation.Fusion
import TapeLang.Program

/-!
# Compilation

A source text becomes a program in one pass from left to right. The state of that pass is a
`Compilation`: the cursor into the text, the program so far, and the loops that are open, innermost
first.

* A run of one of the six primitives becomes one instruction that repeats it. Without optimization
  every character becomes an instruction of its own.
* An opening bracket becomes a jump whose target is not known yet, and opens a loop.
* A closing bracket closes the innermost loop (`closeAt`). With optimization, a body that `fuse?`
  knows is dropped and one instruction takes the place of the whole loop. Otherwise a jump back to
  the start is emitted, and the start gets its target.
* Every other character is a comment.

The pass ends at the end of the text or at a closing bracket without a partner (`stray?`). An error
leaves the state as it is, so that a pass may be taken up again from there by hand. If loops are
open at the end, the outermost one is reported.

The loop over the text (`pass`) takes one unit of fuel per step. Every step leaves less text, so the
length of the text is enough (`pass_eq_of_le`).
-/

namespace TapeLang

/-- A loop that has been opened and not closed. -/
structure OpenLoop where
  /-- The place of its jump in the program. -/
  start : Nat
  /-- The place of its bracket in the source text. -/
  place : Place
  deriving DecidableEq, Repr

/-- The state of compiling a source text. -/
structure Compilation where
  optimize : Bool := true
  cursor : Cursor := { rest := [] }
  program : Program := {}
  /-- The open loops, innermost first. -/
  openLoops : List OpenLoop := []

namespace Compilation

/-! ## The parts of a step -/

/-- Starts anew on a text. -/
def reset (c : Compilation) (text : String) : Compilation :=
  { optimize := c.optimize, cursor := .ofText text }

/-- Moves the cursor by one place. -/
def advance (c : Compilation) : Compilation :=
  { c with cursor := c.cursor.advance }

/-- The number of characters that one instruction stands for at the cursor. -/
def runLength (c : Compilation) : Nat :=
  if c.optimize then c.cursor.runLength else 1

/-- Moves the cursor over a run and counts it. With optimization there is no run at the end of the
text, not even an empty one. -/
def readRun? (c : Compilation) : Option (Nat × Compilation) :=
  if c.optimize ∧ c.cursor.peek? = none then none
  else some (c.runLength, { c with cursor := c.cursor.advanceBy c.runLength })

/-- Emits the instruction for the run of a primitive at the cursor, and moves over it. -/
def emitRun (c : Compilation) (p : Primitive) : Compilation :=
  { c with
    cursor := c.cursor.advanceBy c.runLength
    program := c.program.emit (.repeated p c.runLength) }

/-- Opens a loop with the bracket at the cursor. The target of its jump is set when it is closed. -/
def openLoop (c : Compilation) : Compilation :=
  let opened : OpenLoop := ⟨c.program.size, c.cursor.place⟩
  { c with
    program := c.program.emit (.of .jumpIfZero 0)
    openLoops := opened :: c.openLoops }

/-- The instruction that takes the place of a loop which starts at a place of the program and ends
where the program does. -/
def fusedLoop? (optimize : Bool) (p : Program) (start : Nat) : Option Instruction :=
  if optimize then fuse? (p.suffix (start + 1)) else none

/-- The program after its last loop, which starts at a place of it, is closed. -/
def closedProgram (optimize : Bool) (p : Program) (start : Nat) : Program :=
  match fusedLoop? optimize p start with
  | some fused => (p.truncate start).emit fused
  | none =>
    let last := p.size
    (p.emit (.of .jumpIfNonzero start)).setArg start last

/-- Closes a loop that starts at a place of the program, and leaves the outer ones open. -/
def closeAt (c : Compilation) (start : Nat) (outer : List OpenLoop) : Compilation :=
  { c with program := closedProgram c.optimize c.program start, openLoops := outer }

/-- Closes the innermost loop. -/
def closeLoop (c : Compilation) : Except CompileError Compilation :=
  match c.openLoops with
  | [] => .error ⟨.closing, c.cursor.place⟩
  | innermost :: outer => .ok (c.closeAt innermost.start outer)

/-! ## The pass over the text -/

/-- The error that a character at the cursor makes: it is a closing bracket, and no loop is open. -/
def stray? (c : Compilation) (symbol : Char) : Option CompileError :=
  if symbol = ']' ∧ c.openLoops = [] then some ⟨.closing, c.cursor.place⟩ else none

/-- Compiles what begins with the given character at the cursor. A closing bracket without a partner
is passed over. -/
def step (c : Compilation) (symbol : Char) : Compilation :=
  match Primitive.ofSymbol? symbol with
  | some p => c.emitRun p
  | none =>
    if symbol = '[' then c.openLoop.advance
    else if symbol = ']' then
      match c.openLoops with
      | [] => c.advance
      | innermost :: outer => (c.closeAt innermost.start outer).advance
    else c.advance

/-- Compiles the text from the cursor on, in at most `fuel` steps. The error, if there is one, comes
with the state in which it arose. -/
def pass : Nat → Compilation → Compilation × Option CompileError
  | 0, c => (c, none)
  | fuel + 1, c =>
    match c.cursor.peek? with
    | none => (c, none)
    | some symbol =>
      match c.stray? symbol with
      | some error => (c, some error)
      | none => pass fuel (c.step symbol)

/-- The error that open loops make at the end of the text: the outermost is reported. -/
def unclosed? (c : Compilation) : Option CompileError :=
  c.openLoops.getLast?.map fun outermost => ⟨.opening, outermost.place⟩

/-- Compiles a text from its start, whatever the state was before. -/
def compile (c : Compilation) (text : String) : Compilation × Option CompileError :=
  let (last, error?) := pass text.length (c.reset text)
  (last, error? <|> last.unclosed?)

end Compilation

/-- The program of a source text. -/
def Program.ofSource (text : String) (optimize : Bool) : Except CompileError Program :=
  match ({ optimize } : Compilation).compile text with
  | (last, none) => .ok last.program
  | (_, some error) => .error error

namespace Compilation

/-! ## Every step leaves less text -/

@[simp] theorem cursor_openLoop (c : Compilation) : c.openLoop.cursor = c.cursor := rfl

@[simp] theorem cursor_closeAt (c : Compilation) (start : Nat) (outer : List OpenLoop) :
    (c.closeAt start outer).cursor = c.cursor := rfl

/-- At a closing bracket that is not stray, a step closes the innermost loop and moves on. -/
theorem step_eq_of_closeLoop {c closed : Compilation} (hclose : c.closeLoop = .ok closed) :
    c.step ']' = closed.advance := by
  unfold closeLoop at hclose
  simp only [step, Primitive.ofSymbol?]
  cases hopen : c.openLoops with
  | nil => simp [hopen] at hclose
  | cons innermost outer =>
    simp only [hopen, Except.ok.injEq] at hclose
    simp [hclose]

theorem runLength_pos {c : Compilation} (hrest : c.cursor.rest ≠ []) : 0 < c.runLength := by
  unfold runLength
  split
  · exact Cursor.runLength_pos hrest
  · exact Nat.one_pos

theorem runLength_le {c : Compilation} (hrest : c.cursor.rest ≠ []) :
    c.runLength ≤ c.cursor.rest.length := by
  unfold runLength
  split
  · exact c.cursor.runLength_le
  · exact List.length_pos_iff.mpr hrest

/-- All that a step does to the cursor is to move it over what the step compiles, which is at least
one character. -/
theorem exists_cursor_step {c : Compilation} {symbol : Char}
    (hpeek : c.cursor.peek? = some symbol) :
    ∃ count, 0 < count ∧ count ≤ c.cursor.rest.length ∧
      (c.step symbol).cursor = c.cursor.advanceBy count := by
  have hrest : c.cursor.rest ≠ [] := by
    intro hnil
    simp [Cursor.peek?, hnil] at hpeek
  have hone : 1 ≤ c.cursor.rest.length := List.length_pos_iff.mpr hrest
  unfold step
  split
  · exact ⟨c.runLength, runLength_pos hrest, runLength_le hrest, rfl⟩
  · refine ⟨1, Nat.one_pos, hone, ?_⟩
    split
    · rfl
    · split
      · split
        · rfl
        · rfl
      · rfl

/-- A step moves the cursor forward. -/
theorem length_rest_step {c : Compilation} {symbol : Char} (hpeek : c.cursor.peek? = some symbol) :
    (c.step symbol).cursor.rest.length < c.cursor.rest.length := by
  obtain ⟨count, count_pos, hcount, hcursor⟩ := exists_cursor_step hpeek
  rw [hcursor, Cursor.rest_advanceBy, List.length_drop]
  omega

/-- Fuel beyond the length of the text is inert. -/
theorem pass_eq_of_le {fuel : Nat} {c : Compilation} (hfuel : c.cursor.rest.length ≤ fuel) :
    pass fuel c = pass c.cursor.rest.length c := by
  induction fuel using Nat.strongRecOn generalizing c with
  | ind fuel ih =>
    obtain ⟨optimize, ⟨place, rest⟩, program, openLoops⟩ := c
    cases rest with
    | nil => cases fuel <;> rfl
    | cons symbol tail =>
      cases fuel with
      | zero => cases hfuel
      | succ fuel =>
        simp only [List.length_cons, pass]
        simp only [Cursor.peek?, List.head?_cons]
        split
        · rfl
        · have hless :=
            @length_rest_step ⟨optimize, ⟨place, symbol :: tail⟩, program, openLoops⟩ symbol rfl
          simp only [List.length_cons] at hless hfuel
          rw [ih fuel (Nat.lt_succ_self fuel) (by omega),
            ih tail.length (by omega) (by omega)]

end Compilation

end TapeLang
