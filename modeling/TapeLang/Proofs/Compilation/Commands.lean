import TapeLang.Proofs.Compilation.Fusion
import TapeLang.Proofs.Compilation.Layout

/-!
# The commands of a program

Every instruction stands for some characters of the source text: `Instruction.commands` spells them.
No command is lost and none is added: the instructions of a block spell its text without the
comments (`Block.commands_code`), with and without optimization.

`Program.offset` counts the commands in front of a place of a program.  Without optimization that is
the place itself.  With optimization it is the place that the same command has without.
-/

namespace TapeLang

/-- The commands that an instruction stands for, as the source text has them.  An opcode without an
operation stands for none. -/
def Instruction.commands (i : Instruction) : List Char :=
  match i.opcode with
  | .known (.primitive p) => List.replicate i.arg.toNat p.symbol
  | .known .jumpIfZero => ['[']
  | .known .jumpIfNonzero => [']']
  | .known .zero => ['[', '-', ']']
  | .known (.scan d) =>
    '[' :: (List.replicate i.arg.toNat (Primitive.move d).symbol ++ [']'])
  | .known (.carry d) =>
    '[' :: '-' :: (List.replicate i.arg.toNat (Primitive.move d).symbol ++
      '+' :: (List.replicate i.arg.toNat (Primitive.move d.flip).symbol ++ [']']))
  | .foreign _ _ => []

/-- The instruction for a loop spells the loop. -/
theorem Fused.commands {body : List Instruction} {fused : Instruction} (hfused : Fused body fused) :
    fused.commands = '[' :: (body.flatMap Instruction.commands ++ [']']) := by
  cases hfused with
  | zero => rfl
  | scan d stride => simp [Instruction.commands]
  | carry d distance => simp [Instruction.commands, Primitive.symbol]

namespace Block

theorem commands_runCode (optimize : Bool) (p : Primitive) (count : Nat) :
    (runCode optimize p count).flatMap Instruction.commands = List.replicate count p.symbol := by
  unfold runCode
  cases optimize with
  | true => simp [Instruction.commands]
  | false =>
      induction count with
      | zero => rfl
      | succ count ih =>
          simp only [List.replicate_succ, List.flatMap_cons, Bool.false_eq_true, if_false] at ih ⊢
          rw [ih]
          rfl

theorem commands_loopCode (optimize : Bool) (start : Nat) (inner : List Instruction) :
    (loopCode optimize start inner).flatMap Instruction.commands =
      '[' :: (inner.flatMap Instruction.commands ++ [']']) := by
  rcases loopCode_cases optimize start inner with ⟨fused, -, hfuse, hsingle⟩ | ⟨-, hpair⟩
  · rw [hsingle, List.flatMap_singleton, (fused_of_fuse? hfuse).commands]
  · rw [hpair, List.flatMap_cons, List.flatMap_append, List.flatMap_singleton]
    rfl

theorem commands_code (b : Block) (optimize : Bool) (place : Nat) :
    (b.code optimize place).flatMap Instruction.commands = b.text.filter isCommand := by
  induction b generalizing place with
  | empty => rfl
  | run p count count_pos rest ih =>
      rw [code, text, List.flatMap_append, commands_runCode, ih, List.filter_append,
        List.filter_replicate, if_pos (isCommand_symbol p)]
  | comment c silent rest ih =>
      rw [code, text, ih, List.filter_cons_of_neg (by simp [silent])]
  | loop body rest ihBody ihRest =>
      rw [code, text, List.flatMap_append, commands_loopCode, ihBody, ihRest,
        List.filter_cons_of_pos (by decide), List.filter_append,
        List.filter_cons_of_pos (by decide), List.cons_append, List.append_assoc]
      rfl

/-- Without optimization there is one instruction for each command. -/
theorem length_code_false (b : Block) (place : Nat) :
    (b.code false place).length = (b.text.filter isCommand).length := by
  induction b generalizing place with
  | empty => rfl
  | run p count count_pos rest ih =>
      rw [code, text, List.length_append, ih, List.filter_append, List.length_append,
        List.filter_replicate, if_pos (isCommand_symbol p), List.length_replicate, runCode,
        if_neg Bool.false_ne_true, List.length_replicate]
  | comment c silent rest ih =>
      rw [code, text, ih, List.filter_cons_of_neg (by simp [silent])]
  | loop body rest ihBody ihRest =>
      rw [code, text, List.length_append, ihRest, loopCode_false, List.length_cons,
        List.length_append, List.length_singleton, ihBody, List.filter_cons_of_pos (by decide),
        List.filter_append, List.filter_cons_of_pos (by decide), List.length_cons,
        List.length_append, List.length_cons]
      omega

end Block

/-! ## Counting commands -/

namespace Program

/-- The number of commands in front of a place. -/
def offset (p : Program) (place : Nat) : Nat :=
  ((p.toList.take place).flatMap Instruction.commands).length

variable {p : Program}

theorem offset_succ {place : Nat} {i : Instruction} (hget : p.toList[place]? = some i) :
    p.offset (place + 1) = p.offset place + i.commands.length := by
  rw [offset, offset, List.take_add_one, hget, Option.toList_some, List.flatMap_append,
    List.length_append, List.flatMap_singleton]

theorem offset_of_toList_eq {front back : List Instruction} (hlist : p.toList = front ++ back) :
    p.offset front.length = (front.flatMap Instruction.commands).length := by
  rw [offset, hlist, List.take_left]

theorem offset_append {front piece back : List Instruction}
    (hlist : p.toList = front ++ (piece ++ back)) :
    p.offset (front.length + piece.length) =
      p.offset front.length + (piece.flatMap Instruction.commands).length := by
  have hpiece := offset_of_toList_eq (hlist.trans (List.append_assoc front piece back).symm)
  rw [List.length_append] at hpiece
  rw [hpiece, offset_of_toList_eq hlist, List.flatMap_append, List.length_append]

theorem offset_size (p : Program) :
    p.offset p.size = (p.toList.flatMap Instruction.commands).length := by
  rw [offset, ← length_toList, List.take_length]

end Program

end TapeLang
