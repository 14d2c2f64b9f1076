import TapeLang.Compilation
import TapeLang.Proofs.Compilation.Fusion

/-!
# Mirrored texts

Mirroring a text swaps `<` and `>`, and mirroring a program swaps the directions of its instructions
and keeps their arguments.  The program of the mirrored text is the mirrored program, and if a text
is refused, the mirrored text is refused in the same place (`ofSource_mirrorText`).

A step of the compilation goes by the kind of the character at the cursor, by the length of a run of
it, and by the body of the loop that it closes.  None of this tells left from right: mirroring is
injective, so runs stay runs, and the two directions are treated alike when a loop is fused
(`fuse?_mirror`).
-/

namespace TapeLang

/-! ## Mirroring -/

/-- Swaps the two moves. -/
def mirrorSymbol (c : Char) : Char :=
  if c = '<' then '>' else if c = '>' then '<' else c

/-- The text with the two moves swapped. -/
def mirrorText (text : String) : String :=
  .ofList (text.toList.map mirrorSymbol)

/-- The primitive in the other direction.  Only a move has a direction. -/
def Primitive.mirror : Primitive → Primitive
  | move d => move d.flip
  | p => p

/-- The operation in the other direction. -/
def Operation.mirror : Operation → Operation
  | primitive p => primitive p.mirror
  | jumpIfZero => jumpIfZero
  | jumpIfNonzero => jumpIfNonzero
  | zero => zero
  | scan d => scan d.flip
  | carry d => carry d.flip

/-- The opcode in the other direction.  One that names no operation has none. -/
def Opcode.mirror : Opcode → Opcode
  | known op => known op.mirror
  | foreign label unnamed => foreign label unnamed

/-- The instruction in the other direction. -/
def Instruction.mirror (i : Instruction) : Instruction :=
  ⟨i.opcode.mirror, i.arg⟩

/-- The program with all of its instructions in the other direction. -/
def Program.mirror (p : Program) : Program :=
  ⟨p.instructions.map Instruction.mirror⟩

@[simp] theorem mirrorSymbol_mirrorSymbol (c : Char) : mirrorSymbol (mirrorSymbol c) = c := by
  by_cases hleft : c = '<'
  · rw [hleft]
    rfl
  · by_cases hright : c = '>'
    · rw [hright]
      rfl
    · simp [mirrorSymbol, hleft, hright]

theorem mirrorSymbol_injective {first second : Char}
    (hsame : mirrorSymbol first = mirrorSymbol second) : first = second := by
  rw [← mirrorSymbol_mirrorSymbol first, hsame, mirrorSymbol_mirrorSymbol]

/-- A character that is no move is the mirror image of itself only. -/
theorem mirrorSymbol_eq_iff {c fixed : Char} (hfixed : mirrorSymbol fixed = fixed) :
    mirrorSymbol c = fixed ↔ c = fixed := by
  constructor
  · intro hmirror
    apply mirrorSymbol_injective
    rw [hmirror, hfixed]
  · rintro rfl
    exact hfixed

theorem Primitive.symbol_mirror (p : Primitive) : p.mirror.symbol = mirrorSymbol p.symbol := by
  cases p with
  | move d => cases d <;> rfl
  | _ => rfl

theorem ofSymbol?_mirrorSymbol (c : Char) :
    Primitive.ofSymbol? (mirrorSymbol c) = (Primitive.ofSymbol? c).map Primitive.mirror := by
  cases hsymbol : Primitive.ofSymbol? c with
  | some p =>
      rw [Primitive.ofSymbol?_eq_some_iff.mp hsymbol, ← Primitive.symbol_mirror,
        Primitive.ofSymbol?_symbol]
      rfl
  | none =>
      have hleft : c ≠ '<' := by
        rintro rfl
        cases hsymbol
      have hright : c ≠ '>' := by
        rintro rfl
        cases hsymbol
      rw [mirrorSymbol, if_neg hleft, if_neg hright, hsymbol]
      rfl

namespace Instruction

@[simp] theorem mirror_mirror (i : Instruction) : i.mirror.mirror = i := by
  obtain ⟨opcode, arg⟩ := i
  cases opcode with
  | known op =>
      cases op with
      | primitive p => cases p <;> simp [mirror, Opcode.mirror, Operation.mirror, Primitive.mirror]
      | _ => simp [mirror, Opcode.mirror, Operation.mirror]
  | foreign label unnamed => rfl

/-- The rendered form shows the argument, which is kept. -/
theorem renderable_mirror_iff {i : Instruction} : i.mirror.Renderable ↔ i.Renderable := by
  obtain ⟨opcode, arg⟩ := i
  cases opcode with
  | known op => cases op <;> rfl
  | foreign label unnamed => rfl

end Instruction

/-! ## Mirrored loops -/

theorem Fused.mirror {body : List Instruction} {fused : Instruction} (hfused : Fused body fused) :
    Fused (body.map Instruction.mirror) fused.mirror := by
  cases hfused with
  | zero => exact .zero
  | scan d stride => exact .scan d.flip stride
  | carry d distance => exact .carry d.flip distance

theorem fuse?_mirror (body : List Instruction) :
    fuse? (body.map Instruction.mirror) = (fuse? body).map Instruction.mirror := by
  cases hfuse : fuse? body with
  | some fused => exact (fused_of_fuse? hfuse).mirror.fuse?_eq
  | none =>
      cases hmirror : fuse? (body.map Instruction.mirror) with
      | none => rfl
      | some fused =>
          -- A mirrored body is the body again when it is mirrored once more.
          have hback := (fused_of_fuse? hmirror).mirror.fuse?_eq
          rw [List.map_map, List.map_congr_left fun i _ => i.mirror_mirror, List.map_id', hfuse]
            at hback
          cases hback

namespace Program

variable (p : Program)

@[simp] theorem toList_mirror : p.mirror.toList = p.toList.map Instruction.mirror :=
  Array.toList_map

theorem eq_mirror {p q : Program} (hinstructions : q.toList = p.toList.map Instruction.mirror) :
    q = p.mirror := by
  apply Program.ext
  rw [hinstructions, toList_mirror]

@[simp] theorem size_mirror : p.mirror.size = p.size :=
  Array.size_map

theorem mirror_mirror : p.mirror.mirror = p := by
  apply Program.ext
  rw [toList_mirror, toList_mirror, List.map_map,
    List.map_congr_left fun i _ => i.mirror_mirror, List.map_id']

theorem mirror_empty : ({} : Program).mirror = {} := by
  apply Program.ext
  rw [toList_mirror]
  rfl

theorem mirror_emit (i : Instruction) : (p.emit i).mirror = p.mirror.emit i.mirror := by
  apply Program.ext
  simp

theorem mirror_truncate (offset : Int) : (p.truncate offset).mirror = p.mirror.truncate offset := by
  apply Program.ext
  simp

theorem mirror_setArg (place : Nat) (arg : Int) :
    (p.setArg place arg).mirror = p.mirror.setArg place arg := by
  apply Program.ext
  apply List.ext_getElem?
  intro i
  simp only [toList_mirror, toList_setArg, List.getElem?_map, List.getElem?_modify]
  cases p.toList[i]? with
  | none => rfl
  | some instruction => by_cases hplace : place = i <;> simp [hplace, Instruction.mirror]

theorem suffix_mirror (place : Nat) :
    p.mirror.suffix place = (p.suffix place).map Instruction.mirror := by
  rw [suffix_eq, suffix_eq, toList_mirror, List.map_drop]

theorem get?_mirror (offset : Int) :
    p.mirror.get? offset = (p.get? offset).map Instruction.mirror := by
  have hat (place : Nat) : p.mirror.instructions[place]? =
      (p.instructions[place]?).map Instruction.mirror := Array.getElem?_map
  rw [get?, get?, size_mirror, Option.map_bind]
  congr 1
  funext place
  exact hat place

theorem span_mirror (first last : Int) :
    p.mirror.span first last = (p.span first last).map Instruction.mirror := by
  have hsize : p.mirror.size = p.size := p.size_mirror
  have hlist : p.mirror.instructions.toList = p.instructions.toList.map Instruction.mirror :=
    p.toList_mirror
  simp only [span, Array.toList_extract, hsize, hlist, List.extract_eq_take_drop, List.map_take,
    List.map_drop]

theorem renderable_mirror_iff {first last : Int} :
    p.mirror.Renderable first last ↔ p.Renderable first last := by
  simp only [Renderable, span_mirror, List.forall_mem_map, Instruction.renderable_mirror_iff]

end Program

/-! ## Mirrored cursors -/

namespace Cursor

/-- The cursor at the same place of the mirrored text. -/
def mirror (c : Cursor) : Cursor :=
  { c with rest := c.rest.map mirrorSymbol }

variable (c : Cursor)

theorem peek?_mirror : c.mirror.peek? = c.peek?.map mirrorSymbol :=
  List.head?_map

/-- Neither of the two moves ends a line. -/
theorem after_mirrorSymbol (place : Place) (symbol : Char) :
    place.after (mirrorSymbol symbol) = place.after symbol := by
  have hfeed : mirrorSymbol symbol = '\n' ↔ symbol = '\n' := mirrorSymbol_eq_iff rfl
  simp only [Place.after, hfeed]

theorem advance_mirror : c.mirror.advance = c.advance.mirror := by
  obtain ⟨place, rest⟩ := c
  cases rest with
  | nil => rfl
  | cons head tail =>
      simp only [advance, mirror, List.map_cons, after_mirrorSymbol]

theorem advanceBy_mirror (count : Nat) : c.mirror.advanceBy count = (c.advanceBy count).mirror := by
  induction count generalizing c with
  | zero => rfl
  | succ count ih => rw [advanceBy, advanceBy, advance_mirror, ih]

theorem runLength_mirror : c.mirror.runLength = c.runLength := by
  obtain ⟨place, rest⟩ := c
  cases rest with
  | nil => rfl
  | cons head tail =>
      have hrun : (fun symbol => mirrorSymbol symbol == mirrorSymbol head) = (· == head) := by
        funext symbol
        rw [Bool.eq_iff_iff, beq_iff_eq, beq_iff_eq]
        exact ⟨mirrorSymbol_injective, congrArg mirrorSymbol⟩
      simp only [runLength, mirror, List.map_cons]
      rw [← List.map_cons, List.takeWhile_map, List.length_map]
      exact congrArg (fun run => ((head :: tail).takeWhile run).length) hrun

end Cursor

/-! ## Mirrored compilations -/

namespace Compilation

/-- The state of compiling the mirrored text. -/
def mirror (c : Compilation) : Compilation :=
  { c with cursor := c.cursor.mirror, program := c.program.mirror }

variable (c : Compilation)

theorem runLength_mirror : c.mirror.runLength = c.runLength := by
  have hcursor : c.mirror.cursor.runLength = c.cursor.runLength := c.cursor.runLength_mirror
  simp only [runLength, hcursor]
  rfl

theorem advance_mirror : c.mirror.advance = c.advance.mirror := by
  rw [advance, advance]
  exact congrArg (fun cursor => { c.mirror with cursor }) c.cursor.advance_mirror

theorem emitRun_mirror (p : Primitive) : c.mirror.emitRun p.mirror = (c.emitRun p).mirror := by
  have hcursor := c.cursor.advanceBy_mirror c.runLength
  have hprogram := c.program.mirror_emit (.repeated p c.runLength)
  simp only [emitRun, runLength_mirror]
  simp only [mirror, hcursor, hprogram]
  rfl

theorem openLoop_mirror : c.mirror.openLoop = c.openLoop.mirror := by
  have hprogram := c.program.mirror_emit (.of .jumpIfZero 0)
  have hsize := c.program.size_mirror
  simp only [openLoop, mirror, hsize, hprogram]
  rfl

theorem closedProgram_mirror (optimize : Bool) (p : Program) (start : Nat) :
    closedProgram optimize p.mirror start = (closedProgram optimize p start).mirror := by
  have hfused : fusedLoop? optimize p.mirror start =
      (fusedLoop? optimize p start).map Instruction.mirror := by
    unfold fusedLoop?
    split
    · rw [Program.suffix_mirror, fuse?_mirror]
    · rfl
  rw [closedProgram, closedProgram, hfused]
  cases fusedLoop? optimize p start with
  | some fused =>
      rw [Program.mirror_emit, Program.mirror_truncate]
      rfl
  | none =>
      simp only [Option.map_none, Program.mirror_setArg, Program.mirror_emit, Program.size_mirror]
      rfl

theorem closeAt_mirror (start : Nat) (outer : List OpenLoop) :
    c.mirror.closeAt start outer = (c.closeAt start outer).mirror := by
  simp only [closeAt, mirror, closedProgram_mirror]

theorem stray?_mirror (symbol : Char) :
    c.mirror.stray? (mirrorSymbol symbol) = c.stray? symbol := by
  have hclosing : mirrorSymbol symbol = ']' ↔ symbol = ']' := mirrorSymbol_eq_iff rfl
  simp only [stray?, hclosing]
  rfl

theorem step_mirror (symbol : Char) :
    c.mirror.step (mirrorSymbol symbol) = (c.step symbol).mirror := by
  have hopening : mirrorSymbol symbol = '[' ↔ symbol = '[' := mirrorSymbol_eq_iff rfl
  have hclosing : mirrorSymbol symbol = ']' ↔ symbol = ']' := mirrorSymbol_eq_iff rfl
  rw [step, step, ofSymbol?_mirrorSymbol]
  cases Primitive.ofSymbol? symbol with
  | some p => exact c.emitRun_mirror p
  | none =>
      have hopen : c.mirror.openLoops = c.openLoops := rfl
      simp only [Option.map_none, hopening, hclosing, hopen, openLoop_mirror, advance_mirror,
        closeAt_mirror]
      split
      · rfl
      · split
        · cases c.openLoops <;> rfl
        · rfl

theorem pass_mirror (fuel : Nat) :
    pass fuel c.mirror = ((pass fuel c).1.mirror, (pass fuel c).2) := by
  induction fuel generalizing c with
  | zero => rfl
  | succ fuel ih =>
      have hpeek : c.mirror.cursor.peek? = c.cursor.peek?.map mirrorSymbol := c.cursor.peek?_mirror
      rw [pass, pass, hpeek]
      cases c.cursor.peek? with
      | none => rfl
      | some symbol =>
          dsimp only [Option.map_some]
          rw [stray?_mirror]
          cases c.stray? symbol with
          | some error => rfl
          | none =>
              rw [step_mirror]
              exact ih _

theorem mirror_reset (text : String) :
    (c.reset text).mirror = c.mirror.reset (mirrorText text) := by
  have htext : (mirrorText text).toList = text.toList.map mirrorSymbol := String.toList_ofList
  rw [reset, reset, mirror, Program.mirror_empty, Cursor.ofText, Cursor.ofText, htext]
  rfl

theorem compile_mirror (text : String) :
    c.mirror.compile (mirrorText text) = ((c.compile text).1.mirror, (c.compile text).2) := by
  have hlength : (mirrorText text).length = text.length := by
    rw [mirrorText, String.length_ofList, List.length_map, String.length_toList]
  rw [compile, compile, hlength, ← mirror_reset, pass_mirror]
  rfl

end Compilation

/-- The mirrored text has the mirrored program, or it is refused in the same place. -/
theorem ofSource_mirrorText (text : String) (optimize : Bool) :
    Program.ofSource (mirrorText text) optimize =
      (Program.ofSource text optimize).map Program.mirror := by
  have hcompile := ({ optimize } : Compilation).compile_mirror text
  have hblank : ({ optimize } : Compilation).mirror = { optimize } := by
    rw [Compilation.mirror, Program.mirror_empty]
    rfl
  rw [hblank] at hcompile
  rw [Program.ofSource, Program.ofSource, hcompile]
  rcases ({ optimize } : Compilation).compile text with ⟨last, _ | error⟩ <;> rfl

end TapeLang
