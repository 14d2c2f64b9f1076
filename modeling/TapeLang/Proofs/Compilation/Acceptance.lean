import TapeLang.Proofs.Compilation.Reading

/-!
# Which texts have a program

A text has a program exactly if it is balanced (`Compilation.compile_eq_none_iff`).  It is then the
text of a block, and its two programs are the code of that block (`exists_block_of_balanced`).
Whatever is to be said about compiled programs can therefore be said about the code of blocks.
-/

namespace TapeLang

namespace Outline

/-- The number of open brackets. -/
def depth : Outline → Nat
  | base _ => 0
  | nested outer _ => outer.depth + 1

theorem depth?_text (o : Outline) : depth? 0 o.text = some o.depth := by
  induction o with
  | base block => exact block.depth?_text 0
  | nested outer block ih =>
      rw [text, depth?_append, ih, Option.bind_some, depth?_opening, block.depth?_text]
      rfl

/-- A text is balanced if all of it is read and nothing is open at its end. -/
theorem Reads.balanced_iff {text left : List Char} {o : Outline}
    (hreads : Reads (base .empty) text o left) :
    Balanced text ↔ left = [] ∧ ∃ block, o = base block := by
  have htext : text = o.text ++ left := hreads.text_eq.symm
  constructor
  · intro hbalanced
    rw [Balanced, htext, depth?_append, depth?_text, Option.bind_some] at hbalanced
    rcases hreads.left_eq with rfl | ⟨block, rest, rfl, rfl⟩
    · cases o with
      | base block => exact ⟨rfl, block, rfl⟩
      | nested outer block => cases hbalanced
    · rw [depth, depth?_closing_zero] at hbalanced
      cases hbalanced
  · rintro ⟨rfl, block, rfl⟩
    rw [htext, List.append_nil]
    exact block.balanced_text

end Outline

namespace Compilation

theorem Built.unclosed?_base {c : Compilation} {block : Block} (hbuilt : c.Built (.base block)) :
    c.unclosed? = none := by
  rw [unclosed?, hbuilt.openLoops]
  rfl

theorem Built.unclosed?_nested {c : Compilation} {outer : Outline} {block : Block}
    (hbuilt : c.Built (.nested outer block)) : c.unclosed? ≠ none := by
  rw [unclosed?, hbuilt.openLoops]
  simp [Outline.openLoops]

theorem compile_eq_none_iff (c : Compilation) (text : String) :
    (c.compile text).2 = none ↔ Balanced text.toList := by
  obtain ⟨o, left, hreads⟩ := Outline.exists_reads (.base .empty) text.toList
  obtain ⟨d, hcompile, -, hread⟩ := c.compile_of_reads hreads
  rw [hcompile, hreads.balanced_iff]
  rcases hreads.left_eq with rfl | ⟨block, rest, rfl, rfl⟩
  · rw [strayError?, if_pos rfl]
    cases o with
    | base block => simp [hread.toBuilt.unclosed?_base]
    | nested outer block => simp [hread.toBuilt.unclosed?_nested]
  · simp [strayError?]

/-- If all of a text is read as a block, then its program is the code of this block. -/
theorem ofSource_of_hasRead {text : String} {optimize : Bool} {d : Compilation} {block : Block}
    (hcompile : ({ optimize } : Compilation).compile text =
      (d, strayError? [] d.cursor.place <|> d.unclosed?))
    (hoptimize : d.optimize = optimize) (hread : d.HasRead (.base block)) :
    Program.ofSource text optimize = .ok (.ofList (block.code optimize 0)) := by
  rw [strayError?, if_pos rfl, hread.toBuilt.unclosed?_base] at hcompile
  have hprogram : d.program = .ofList (block.code optimize 0) := by
    apply Program.ext
    rw [hread.program, hoptimize, Program.toList_ofList]
    rfl
  rw [Program.ofSource, hcompile, ← hprogram]
  rfl

theorem ofSource_of_reads {text : String} {block : Block}
    (hreads : Outline.Reads (.base .empty) text.toList (.base block) []) (optimize : Bool) :
    Program.ofSource text optimize = .ok (.ofList (block.code optimize 0)) := by
  obtain ⟨d, hcompile, hoptimize, hread⟩ := ({ optimize } : Compilation).compile_of_reads hreads
  exact ofSource_of_hasRead hcompile hoptimize hread

theorem ofSource_eq_error_iff {text : String} {optimize : Bool} {error : CompileError} :
    Program.ofSource text optimize = .error error ↔
      (({ optimize } : Compilation).compile text).2 = some error := by
  unfold Program.ofSource
  split
  · rename_i hcompile
    simp [hcompile]
  · rename_i hcompile
    simp [hcompile]

/-- Both programs of a balanced text are the code of one block. -/
theorem exists_block_of_balanced {text : String} (hbalanced : Balanced text.toList) :
    ∃ block : Block, block.text = text.toList ∧ ∀ optimize, ∃ program,
      Program.ofSource text optimize = .ok program ∧ program.toList = block.code optimize 0 := by
  obtain ⟨o, left, hreads⟩ := Outline.exists_reads (.base .empty) text.toList
  obtain ⟨rfl, block, rfl⟩ := hreads.balanced_iff.mp hbalanced
  have htext : block.text ++ [] = text.toList := hreads.text_eq
  rw [List.append_nil] at htext
  exact ⟨block, htext, fun optimize => ⟨_, ofSource_of_reads hreads optimize, rfl⟩⟩

theorem balanced_of_ofSource {text : String} {optimize : Bool} {program : Program}
    (hprogram : Program.ofSource text optimize = .ok program) : Balanced text.toList := by
  rw [← ({ optimize } : Compilation).compile_eq_none_iff text]
  unfold Program.ofSource at hprogram
  split at hprogram
  · rename_i hcompile
    rw [hcompile]
  · cases hprogram

end Compilation

end TapeLang
