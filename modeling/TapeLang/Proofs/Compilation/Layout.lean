import TapeLang.Compilation
import TapeLang.Proofs.Program.Jumps
import TapeLang.Proofs.Source.Block

/-!
# The instructions for a text

`Block.code` lays the instructions of a block out from a place of the program on.  A run becomes one
instruction, or one for each of its characters; a loop becomes a pair of jumps around its body, or
the instruction that takes its place.  The targets of jumps are places in the program, so the code
depends on where it stands.

In the middle of a text some loops are still open.  An `Outline` is what has been read by then: a
block, then an opening bracket, a block, and so on.  Its code has a jump without a target for each
open bracket.  What comes next is appended to the innermost block (`Outline.extend`).

The last section shows that closing a loop does to the code what it does to the outline
(`toList_closedProgram`): the innermost block becomes the body of a loop at the end of the block
around it.
-/

namespace TapeLang

namespace Block

/-- The instructions for a run: one with the count, or as many as there are characters. -/
def runCode (optimize : Bool) (p : Primitive) (count : Nat) : List Instruction :=
  if optimize then [.repeated p count] else List.replicate count (.repeated p 1)

theorem plain_of_mem_runCode {optimize : Bool} {p : Primitive} {count : Nat}
    {instruction : Instruction} (hmem : instruction ∈ runCode optimize p count) :
    instruction.Plain := by
  unfold runCode at hmem
  cases optimize with
  | true =>
      obtain rfl := List.mem_singleton.mp hmem
      exact ⟨by simp, by simp⟩
  | false =>
      obtain rfl := List.eq_of_mem_replicate hmem
      exact ⟨by simp, by simp⟩

/-- The instructions for a loop that starts at a place and has a body with the given
instructions. -/
def loopCode (optimize : Bool) (start : Nat) (inner : List Instruction) : List Instruction :=
  match (if optimize then fuse? inner else none) with
  | some fused => [fused]
  | none =>
    .of .jumpIfZero (start + 1 + inner.length : Nat) :: (inner ++ [.of .jumpIfNonzero start])

theorem loopCode_cases (optimize : Bool) (start : Nat) (inner : List Instruction) :
    (∃ fused, optimize = true ∧ fuse? inner = some fused ∧
      loopCode optimize start inner = [fused]) ∨
    ((optimize = true → fuse? inner = none) ∧ loopCode optimize start inner =
      .of .jumpIfZero (start + 1 + inner.length : Nat) ::
        (inner ++ [.of .jumpIfNonzero start])) := by
  unfold loopCode
  cases optimize with
  | true => cases hfuse : fuse? inner <;> simp
  | false => simp

theorem loopCode_false (start : Nat) (inner : List Instruction) :
    loopCode false start inner =
      .of .jumpIfZero (start + 1 + inner.length : Nat) ::
        (inner ++ [.of .jumpIfNonzero start]) := by
  rfl

theorem length_loopCode_false (start : Nat) (inner : List Instruction) :
    (loopCode false start inner).length = inner.length + 2 := by
  rw [loopCode_false, List.length_cons, List.length_append]
  rfl

/-- The instructions for a block from a place of the program on. -/
def code (optimize : Bool) : Block → Nat → List Instruction
  | empty, _ => []
  | run p count _ rest, place =>
    runCode optimize p count ++ code optimize rest (place + (runCode optimize p count).length)
  | comment _ _ rest, place => code optimize rest place
  | loop body rest, place =>
    let whole := loopCode optimize place (code optimize body (place + 1))
    whole ++ code optimize rest (place + whole.length)

theorem code_append (b tail : Block) (optimize : Bool) (place : Nat) :
    (b.append tail).code optimize place =
      b.code optimize place ++ tail.code optimize (place + (b.code optimize place).length) := by
  induction b generalizing place with
  | empty => rfl
  | run p count count_pos rest ih =>
      simp only [append, code, ih, List.append_assoc, List.length_append, Nat.add_assoc]
  | comment c silent rest ih => exact ih place
  | loop body rest _ ih =>
      simp only [append, code, ih, List.append_assoc, List.length_append, Nat.add_assoc]

@[simp] theorem code_run (optimize : Bool) (p : Primitive) {count : Nat} (count_pos : 0 < count)
    (place : Nat) : (run p count count_pos .empty).code optimize place = runCode optimize p count :=
  List.append_nil _

@[simp] theorem code_loop (optimize : Bool) (body : Block) (place : Nat) :
    (loop body .empty).code optimize place =
      loopCode optimize place (body.code optimize (place + 1)) :=
  List.append_nil _

end Block

/-! ## Outlines -/

/-- What has been read of a text: the block in front of the first open bracket, or all that is in
front of the innermost open bracket and the block behind it. -/
inductive Outline where
  | base (block : Block)
  | nested (outer : Outline) (block : Block)

namespace Outline

/-- The text that has been read. -/
def text : Outline → List Char
  | base block => block.text
  | nested outer block => outer.text ++ '[' :: block.text

/-- The instructions for what has been read.  The jump of an open bracket has no target yet. -/
def code (optimize : Bool) : Outline → List Instruction
  | base block => block.code optimize 0
  | nested outer block =>
    outer.code optimize ++
      .of .jumpIfZero 0 :: block.code optimize ((outer.code optimize).length + 1)

/-- The loops that are open, innermost first: where each begins in the program and in the text. -/
def openLoops (optimize : Bool) : Outline → List OpenLoop
  | base _ => []
  | nested outer _ =>
    ⟨(outer.code optimize).length, ({} : Place).afterText outer.text⟩ :: outer.openLoops optimize

/-- Appends to the innermost block. -/
def extend : Outline → Block → Outline
  | base block, tail => base (block.append tail)
  | nested outer block, tail => nested outer (block.append tail)

@[simp] theorem text_extend (o : Outline) (tail : Block) :
    (o.extend tail).text = o.text ++ tail.text := by
  cases o with
  | base block => exact block.text_append tail
  | nested outer block => simp [extend, text, Block.text_append]

@[simp] theorem openLoops_extend (o : Outline) (tail : Block) (optimize : Bool) :
    (o.extend tail).openLoops optimize = o.openLoops optimize := by
  cases o <;> rfl

theorem code_extend (o : Outline) (tail : Block) (optimize : Bool) :
    (o.extend tail).code optimize =
      o.code optimize ++ tail.code optimize (o.code optimize).length := by
  cases o with
  | base block => simp [extend, code, Block.code_append]
  | nested outer block =>
      have hplace : ∀ count, (outer.code optimize).length + 1 + count =
          (outer.code optimize).length + (count + 1) := by
        intro count
        omega
      simp only [extend, code, Block.code_append, List.append_assoc, List.cons_append,
        List.length_append, List.length_cons, hplace]

end Outline

/-! ## Closing the innermost loop -/

namespace Compilation

theorem toList_closedProgram {p : Program} {front inner : List Instruction} (optimize : Bool)
    (hlist : p.toList = front ++ .of .jumpIfZero 0 :: inner) :
    (closedProgram optimize p front.length).toList =
      front ++ Block.loopCode optimize front.length inner := by
  have hsize : p.size = front.length + 1 + inner.length := by
    rw [← Program.length_toList, hlist, List.length_append, List.length_cons]
    omega
  have hsuffix : p.suffix (front.length + 1) = inner := by
    rw [Program.suffix_eq, hlist]
    simp
  unfold closedProgram fusedLoop? Block.loopCode
  rw [hsuffix]
  cases (if optimize then fuse? inner else none) with
  | some fused =>
      have hbound : Offset.bound p.size (front.length : Int) = front.length := by
        rw [Offset.bound_natCast]
        omega
      rw [Program.toList_emit, Program.toList_truncate, hbound, hlist, List.take_left]
  | none =>
      rw [Program.toList_setArg, Program.toList_emit, hlist, hsize, List.append_assoc,
        List.cons_append, List.modify_eq_take_cons_drop (by simp)]
      simp

end Compilation

end TapeLang
