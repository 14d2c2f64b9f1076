import TapeLang.Proofs.Compilation.Compiled
import TapeLang.Proofs.Compilation.Concatenation

/-!
# Texts that differ in their comments

Two texts have the same commands if nothing but comments tells them apart (`SameCommands`).  They
are balanced or not together, because comments open and close nothing.  Without optimization a
comment leaves no trace at all, and both texts have the same program
(`ofSource_iff_of_sameCommands`).

With optimization this is different: a comment in the middle of a run cuts it in two, and a loop
with a cut run in it may not be fused.

The proof takes the comments out of the block of a text (`Block.stripped`).  What is left need not
be read as this block, because two runs may have become one, but without optimization every block is
compiled to its own code (`ofSource_text`).
-/

namespace TapeLang

/-- The texts differ in nothing but comments. -/
def SameCommands (first second : String) : Prop :=
  first.toList.filter isCommand = second.toList.filter isCommand

theorem SameCommands.symm {first second : String} (hsame : SameCommands first second) :
    SameCommands second first :=
  Eq.symm hsame

/-! ## Comments and brackets -/

theorem depth?_filter (opened : Nat) (text : List Char) :
    depth? opened (text.filter isCommand) = depth? opened text := by
  induction text generalizing opened with
  | nil => rfl
  | cons c rest ih =>
      rcases command_cases c with hsilent | ⟨p, rfl⟩ | rfl | rfl
      · obtain ⟨-, hopening, hclosing⟩ := isCommand_eq_false_iff.mp hsilent
        rw [List.filter_cons_of_neg (by simp [hsilent]), depth?_other hopening hclosing, ih]
      · obtain ⟨hopening, hclosing⟩ := symbol_ne_brackets p
        rw [List.filter_cons_of_pos (isCommand_symbol p), depth?_other hopening hclosing,
          depth?_other hopening hclosing, ih]
      · rw [List.filter_cons_of_pos (by decide), depth?_opening, depth?_opening, ih]
      · rw [List.filter_cons_of_pos (by decide)]
        cases opened with
        | zero => rw [depth?_closing_zero, depth?_closing_zero]
        | succ outer => rw [depth?_closing_succ, depth?_closing_succ, ih]

theorem balanced_filter_iff {text : List Char} :
    Balanced (text.filter isCommand) ↔ Balanced text := by
  rw [Balanced, Balanced, depth?_filter]

theorem SameCommands.balanced {first second : String} (hsame : SameCommands first second)
    (hbalanced : Balanced first.toList) : Balanced second.toList := by
  rw [← balanced_filter_iff, hsame, balanced_filter_iff] at hbalanced
  exact hbalanced

/-! ## Blocks without comments -/

namespace Block

/-- The block without its comments. -/
def stripped : Block → Block
  | empty => empty
  | run p count count_pos rest => run p count count_pos rest.stripped
  | comment _ _ rest => rest.stripped
  | loop body rest => loop body.stripped rest.stripped

theorem text_stripped (b : Block) : b.stripped.text = b.text.filter isCommand := by
  induction b with
  | empty => rfl
  | run p count count_pos rest ih =>
      rw [stripped, text, text, ih, List.filter_append, List.filter_replicate,
        if_pos (isCommand_symbol p)]
  | comment c silent rest ih => rw [stripped, text, ih, List.filter_cons_of_neg (by simp [silent])]
  | loop body rest ihBody ihRest =>
      rw [stripped, text, text, ihBody, ihRest, List.filter_cons_of_pos (by decide),
        List.filter_append, List.filter_cons_of_pos (by decide)]

theorem code_stripped (b : Block) (optimize : Bool) (place : Nat) :
    b.stripped.code optimize place = b.code optimize place := by
  induction b generalizing place with
  | empty => rfl
  | run p count count_pos rest ih => rw [stripped, code, code, ih]
  | comment c silent rest ih => exact ih place
  | loop body rest ihBody ihRest =>
      simp only [stripped, code]
      rw [ihBody, ihRest]

end Block

namespace Compilation

/-- Without optimization it does not matter how a text is cut into runs. -/
theorem ofSource_text (b : Block) :
    Program.ofSource (.ofList b.text) false = .ok (.ofList (b.code false 0)) := by
  have hnothing : Outline.Reads (.base .empty) "".toList (.base .empty) [] := .finish _
  have htext : b.text = (String.ofList b.text).toList := String.toList_ofList.symm
  obtain ⟨d, hcompile, hoptimize, hread⟩ :=
    compile_append { optimize := false } htext nofun hnothing
  rw [Outline.behind, Block.append_empty] at hread
  rw [String.append_empty] at hcompile
  exact ofSource_of_hasRead hcompile hoptimize hread

theorem ofSource_filter {text : String} {program : Program}
    (hprogram : Program.ofSource text false = .ok program) :
    Program.ofSource (.ofList (text.toList.filter isCommand)) false = .ok program := by
  obtain ⟨b, htext, hlist⟩ := exists_block_of_ofSource hprogram
  rw [← htext, ← b.text_stripped, ofSource_text, b.code_stripped, ← hlist]
  rfl

theorem ofSource_iff_of_sameCommands {first second : String} (hsame : SameCommands first second)
    (program : Program) :
    Program.ofSource first false = .ok program ↔ Program.ofSource second false = .ok program := by
  suffices hforth : ∀ {first second : String}, SameCommands first second →
      Program.ofSource first false = .ok program → Program.ofSource second false = .ok program from
    ⟨hforth hsame, hforth hsame.symm⟩
  intro first second hsame hfirst
  obtain ⟨b, -, hcode⟩ := exists_block_of_balanced (hsame.balanced (balanced_of_ofSource hfirst))
  obtain ⟨other, hother, -⟩ := hcode false
  have hboth := ofSource_filter hfirst
  rw [hsame, ofSource_filter hother] at hboth
  rw [hother, hboth]

theorem exists_ofSource_of_sameCommands {first second : String} (hsame : SameCommands first second)
    {optimize : Bool} {program : Program}
    (hprogram : Program.ofSource first optimize = .ok program) :
    ∃ other, Program.ofSource second optimize = .ok other := by
  obtain ⟨b, -, hcode⟩ := exists_block_of_balanced (hsame.balanced (balanced_of_ofSource hprogram))
  obtain ⟨other, hother, -⟩ := hcode optimize
  exact ⟨other, hother⟩

end Compilation

end TapeLang
