import TapeLang.Proofs.Compilation.Acceptance
import TapeLang.Proofs.Compilation.Calls
import TapeLang.Proofs.Compilation.Commands
import TapeLang.Proofs.Compilation.Operands

/-!
# What a compiled program is like

A compiled program is the code of a block (`exists_block_of_ofSource`), and what is known about such
code is put together here.

* `Program.Compiled` is what the machine can rely on: every instruction is an operation with a
  sensible argument, and the jumps are paired.
* The instructions spell the commands of the text, all of them and in order
  (`program_spells_text`).  No instruction spells nothing, so a program is never longer than that.
-/

namespace TapeLang

/-- What the machine can rely on in a program that has been compiled. -/
structure Program.Compiled (p : Program) : Prop where
  normal : ∀ i, i ∈ p.toList → i.Normal
  jumps : p.JumpsBetween 0 p.size []

/-- An instruction that a command can make spells at least one character. -/
theorem Instruction.Normal.commands_length_pos {i : Instruction} (hnormal : i.Normal) :
    0 < i.commands.length := by
  obtain ⟨opcode, arg⟩ := i
  cases opcode with
  | known op =>
      cases op with
      | primitive p =>
          have hcount : 0 < arg := hnormal
          simp only [Instruction.commands, List.length_replicate]
          omega
      | _ => simp [Instruction.commands]
  | foreign label unnamed => exact hnormal.elim

/-- Every instruction has an opcode, so all of them can be listed. -/
theorem Program.Compiled.listing?_ne_none {p : Program} (hcompiled : p.Compiled) :
    p.listing? ≠ none := by
  intro hnone
  obtain ⟨⟨opcode, arg⟩, hmem, hnull⟩ := Program.listingFrom?_eq_none_iff.mp hnone
  have hnormal := hcompiled.normal _ hmem
  cases opcode with
  | known op => cases hnull
  | foreign label unnamed => exact hnormal.elim

theorem length_le_length_commands {row : List Instruction} (hrow : ∀ i, i ∈ row → i.Normal) :
    row.length ≤ (row.flatMap Instruction.commands).length := by
  induction row with
  | nil => exact Nat.le_refl 0
  | cons i rest ih =>
      have hhead := (hrow i List.mem_cons_self).commands_length_pos
      have htail := ih fun j hj => hrow j (List.mem_cons_of_mem i hj)
      rw [List.flatMap_cons, List.length_append, List.length_cons]
      omega

namespace Compilation

variable {text : String} {optimize : Bool} {program : Program}

theorem exists_block_of_ofSource (hprogram : Program.ofSource text optimize = .ok program) :
    ∃ block : Block, block.text = text.toList ∧ program.toList = block.code optimize 0 := by
  obtain ⟨block, htext, hcode⟩ := exists_block_of_balanced (balanced_of_ofSource hprogram)
  obtain ⟨other, hother, hlist⟩ := hcode optimize
  obtain rfl : other = program := Except.ok.inj (hother.symm.trans hprogram)
  exact ⟨block, htext, hlist⟩

theorem compiled_of_ofSource (hprogram : Program.ofSource text optimize = .ok program) :
    program.Compiled := by
  obtain ⟨block, -, hlist⟩ := exists_block_of_ofSource hprogram
  refine ⟨fun i hmem => block.normal_of_mem_code i (hlist ▸ hmem), ?_⟩
  have hjumps := block.jumpsBetween_code (Program.hasAt_zero hlist)
  rwa [Nat.zero_add, ← hlist, Program.length_toList] at hjumps

theorem commands_of_ofSource (hprogram : Program.ofSource text optimize = .ok program) :
    program.toList.flatMap Instruction.commands = text.toList.filter isCommand := by
  obtain ⟨block, htext, hlist⟩ := exists_block_of_ofSource hprogram
  rw [hlist, block.commands_code, htext]

/-- The instructions of a program spell the commands of its text, all of them and in order.  So
there are at most as many instructions as commands, and just as many without optimization. -/
theorem program_spells_text (hprogram : Program.ofSource text optimize = .ok program) :
    program.toList.flatMap Instruction.commands = text.toList.filter isCommand ∧
      program.size ≤ (text.toList.filter isCommand).length ∧
      (optimize = false → program.size = (text.toList.filter isCommand).length) := by
  obtain ⟨block, htext, hlist⟩ := exists_block_of_ofSource hprogram
  have hspelled := commands_of_ofSource hprogram
  refine ⟨hspelled, ?_, ?_⟩
  · calc program.size
        = program.toList.length := program.length_toList.symm
      _ ≤ (program.toList.flatMap Instruction.commands).length :=
        length_le_length_commands (compiled_of_ofSource hprogram).normal
      _ = (text.toList.filter isCommand).length := by rw [hspelled]
  · rintro rfl
    rw [← Program.length_toList, hlist, block.length_code_false, htext]

theorem program_spells_text_of_nested_loop :
    Program.ofSource "[[-]] +" true = .ok (.ofList
      [.of .jumpIfZero 2, .of .zero 0, .of .jumpIfNonzero 0, .repeated .add 1]) ∧
    [.of .jumpIfZero 2, .of .zero 0, .of .jumpIfNonzero 0, .repeated .add 1].flatMap
      Instruction.commands = "[[-]] +".toList.filter isCommand :=
  have hprogram : Program.ofSource "[[-]] +" true = .ok (.ofList
      [.of .jumpIfZero 2, .of .zero 0, .of .jumpIfNonzero 0, .repeated .add 1]) := rfl
  ⟨hprogram, (program_spells_text hprogram).1⟩

end Compilation

end TapeLang
