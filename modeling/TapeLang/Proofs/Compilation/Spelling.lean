import TapeLang.Proofs.Compilation.Acceptance
import TapeLang.Proofs.Compilation.Operands
import TapeLang.Proofs.Compilation.Relocation
import TapeLang.Proofs.Source.Expansion

/-!
# Instructions written as source text

The written form of an instruction, expanded, is its spelling (`Instruction.spelling`).  It differs
from what the instruction stands for by the space that follows every counted character.

A compiled program can be read back from its spelling (`ofSource_spelling`), and this is shown in
two steps.

* Runs are read as a whole, so a block is read back from its text only if no run of it can be made
  longer by what follows.  Then it is (`Block.Maximal`, `Outline.reads_of_maximal`).
* The code of every block is spelled by a block whose code is the same (`Block.exists_spells`).
  There all runs end in a space, but for the single characters in a loop that was fused.  A loop
  that was not fused is spelled as a loop that is not fused, because its body has the same code.
-/

namespace TapeLang

/-- The source text that the written form of an instruction expands to. -/
def Instruction.spelling (i : Instruction) : List Char :=
  match i.opcode with
  | .known (.primitive p) => List.replicate i.arg.toNat p.symbol ++ [' ']
  | .known .jumpIfZero => ['[']
  | .known .jumpIfNonzero => [']']
  | .known .zero => ['[', '-', ']']
  | .known (.scan d) =>
    '[' :: (List.replicate i.arg.toNat (Primitive.move d).symbol ++ [' ', ']'])
  | .known (.carry d) =>
    '[' :: '-' :: (List.replicate i.arg.toNat (Primitive.move d).symbol ++
      ' ' :: '+' :: (List.replicate i.arg.toNat (Primitive.move d.flip).symbol ++ [' ', ']']))
  | .foreign _ _ => []

/-! ## Written forms -/

theorem Primitive.symbol_ne_space (p : Primitive) : ' ' ≠ p.symbol := by
  cases p with
  | move d => cases d <;> decide
  | _ => decide

namespace Instruction

variable {i : Instruction} {rest : List Char}

/-- A written form never begins with a brace, so it does not look like the count of what is in front
of it. -/
theorem head?_render (i : Instruction) : (i.render.toList ++ rest).head? ≠ some '\x7b' := by
  obtain ⟨opcode, arg⟩ := i
  cases opcode with
  | known op =>
      cases op with
      | primitive p =>
          cases p with
          | move d => cases d <;> simp [render, counted, Primitive.symbol]
          | _ => simp [render, counted, Primitive.symbol]
      | _ => simp [render]
  | foreign label unnamed => simp [render]

theorem expand_move (front : Char) (d : Direction) (count : Nat) (rest : List Char) :
    expand (front :: ((counted (Primitive.move d).symbol count).toList ++ rest)) =
      front :: (List.replicate count (Primitive.move d).symbol ++ ' ' :: expand rest) := by
  have hhead : ((counted (Primitive.move d).symbol count).toList ++ rest).head? ≠ some '\x7b' :=
    (repeated (.move d) count).head?_render
  rw [expand_cons hhead, expand_counted]

theorem expand_render (hnormal : i.Normal) (hrest : rest.head? ≠ some '\x7b') :
    expand (i.render.toList ++ rest) = i.spelling ++ expand rest := by
  obtain ⟨opcode, arg⟩ := i
  cases opcode with
  | known op =>
      cases op with
      | primitive p =>
          obtain ⟨count, rfl⟩ := Int.eq_ofNat_of_zero_le (Int.le_of_lt (show 0 < arg from hnormal))
          simp only [render, expand_counted, spelling, Int.toNat_natCast, List.append_assoc]
          rfl
      | jumpIfZero => simp [render, spelling, expand_cons hrest]
      | jumpIfNonzero => simp [render, spelling, expand_cons hrest]
      | zero =>
          have htext : (of .zero arg).render.toList ++ rest = '[' :: '-' :: ']' :: rest := by
            simp [render]
          rw [htext, expand_cons (by simp), expand_cons (by simp), expand_cons hrest]
          rfl
      | scan d =>
          obtain ⟨count, rfl⟩ := Int.eq_ofNat_of_zero_le (Int.le_of_lt (show 0 < arg from hnormal))
          have htext : (of (.scan d) count).render.toList ++ rest =
              '[' :: ((counted (Primitive.move d).symbol count).toList ++ ']' :: rest) := by
            simp [render]
          rw [htext, expand_move, expand_cons hrest]
          simp [spelling]
      | carry d =>
          obtain ⟨count, rfl⟩ := Int.eq_ofNat_of_zero_le (Int.le_of_lt (show 0 < arg from hnormal))
          have htext : (of (.carry d) count).render.toList ++ rest =
              '[' :: '-' :: ((counted (Primitive.move d).symbol count).toList ++
                '+' :: ((counted (Primitive.move d.flip).symbol count).toList ++ ']' :: rest)) := by
            simp [render]
          rw [htext, expand_cons (by simp), expand_move, expand_move, expand_cons hrest]
          simp [spelling]
  | foreign label unnamed => exact hnormal.elim

end Instruction

/-- The written forms of some instructions, one behind the other. -/
def rendered (row : List Instruction) : List Char :=
  (row.map Instruction.render).flatMap String.toList

theorem expand_rendered {row : List Instruction} (hnormal : ∀ i, i ∈ row → i.Normal) :
    expand (rendered row) = row.flatMap Instruction.spelling := by
  induction row with
  | nil => exact expand_nil
  | cons i rest ih =>
      have hhead : (rendered rest).head? ≠ some '\x7b' := by
        cases rest with
        | nil => simp [rendered]
        | cons j others => exact j.head?_render
      have hrest := ih fun j hmem => hnormal j (List.mem_cons_of_mem i hmem)
      have hfirst := Instruction.expand_render (hnormal i List.mem_cons_self) hhead
      rw [List.flatMap_cons, ← hrest, ← hfirst]
      rfl

theorem toList_loopSource (p : Program) (first last : Int) :
    (p.loopSource first last).toList = rendered (p.span first last) := by
  unfold Program.loopSource rendered
  simp

/-! ## Runs that cannot be longer -/

/-- No run of the block is continued by what follows it. -/
def Block.Maximal : Block → List Char → Prop
  | empty, _ => True
  | run p _ _ rest, behind => (rest.text ++ behind).head? ≠ some p.symbol ∧ rest.Maximal behind
  | comment _ _ rest, behind => rest.Maximal behind
  | loop body rest, behind => body.Maximal (']' :: (rest.text ++ behind)) ∧ rest.Maximal behind

namespace Block

theorem append_empty (b : Block) : b.append empty = b := by
  induction b with
  | empty => rfl
  | run p count count_pos rest ih => rw [append, ih]
  | comment c silent rest ih => rw [append, ih]
  | loop body rest _ ih => rw [append, ih]

theorem append_assoc (first second third : Block) :
    (first.append second).append third = first.append (second.append third) := by
  induction first with
  | empty => rfl
  | run p count count_pos rest ih => simp only [append, ih]
  | comment c silent rest ih => simp only [append, ih]
  | loop body rest _ ih => simp only [append, ih]

theorem maximal_append {first second : Block} {behind : List Char}
    (hfirst : first.Maximal (second.text ++ behind)) (hsecond : second.Maximal behind) :
    (first.append second).Maximal behind := by
  induction first with
  | empty => exact hsecond
  | run p count count_pos rest ih =>
      refine ⟨?_, ih hfirst.2⟩
      rw [text_append, List.append_assoc]
      exact hfirst.1
  | comment c silent rest ih => exact ih hfirst
  | loop body rest _ ih =>
      refine ⟨?_, ih hfirst.2⟩
      rw [text_append, List.append_assoc]
      exact hfirst.1

end Block

namespace Outline

theorem extend_empty (o : Outline) : o.extend .empty = o := by
  cases o <;> simp only [extend, Block.append_empty]

theorem extend_extend (o : Outline) (first second : Block) :
    (o.extend first).extend second = o.extend (first.append second) := by
  cases o <;> simp only [extend, Block.append_assoc]

theorem reads_of_maximal {b : Block} {o last : Outline} {behind left : List Char}
    (hmaximal : b.Maximal behind) (hreads : Reads (o.extend b) behind last left) :
    Reads o (b.text ++ behind) last left := by
  induction b generalizing o behind with
  | empty =>
      rw [extend_empty] at hreads
      exact hreads
  | run p count count_pos rest ih =>
      rw [Block.text, List.append_assoc]
      apply Reads.run count_pos hmaximal.1
      apply ih hmaximal.2
      rw [extend_extend]
      exact hreads
  | comment c silent rest ih =>
      rw [Block.text, List.cons_append]
      apply Reads.comment silent
      apply ih hmaximal
      rw [extend_extend]
      exact hreads
  | loop body rest ihBody ihRest =>
      rw [Block.text, List.cons_append, List.append_assoc, List.cons_append]
      apply Reads.opening
      apply ihBody hmaximal.1
      apply Reads.closing
      apply ihRest hmaximal.2
      rw [extend_extend]
      exact hreads

end Outline

/-! ## A block for the spelling of a code -/

namespace Block

/-- The text of the block is the spelling of some instructions, wherever they stand, and these are
what it is compiled to, whatever follows it. -/
structure Spells (b : Block) (optimize : Bool) (row : Nat → List Instruction) : Prop where
  maximal : ∀ behind, b.Maximal behind
  code : ∀ place, b.code optimize place = row place
  text : ∀ place, b.text = (row place).flatMap Instruction.spelling

variable {optimize : Bool}

theorem spells_empty (optimize : Bool) : empty.Spells optimize fun _ => [] where
  maximal _ := trivial
  code _ := rfl
  text _ := rfl

theorem Spells.append {first second : Block} {front back : Nat → List Instruction}
    (hfirst : first.Spells optimize front) (hsecond : second.Spells optimize back) :
    (first.append second).Spells optimize
      fun place => front place ++ back (place + (front place).length) where
  maximal behind := maximal_append (hfirst.maximal _) (hsecond.maximal behind)
  code place := by rw [code_append, hfirst.code, hsecond.code]
  text place := by rw [text_append, List.flatMap_append, ← hfirst.text, ← hsecond.text]

/-- A run with a space behind it. -/
def spacedRun (p : Primitive) (count : Nat) (count_pos : 0 < count) (rest : Block) : Block :=
  run p count count_pos (comment ' ' rfl rest)

theorem maximal_spacedRun {p : Primitive} {count : Nat} (count_pos : 0 < count) {rest : Block}
    {behind : List Char} (hrest : rest.Maximal behind) :
    (spacedRun p count count_pos rest).Maximal behind := by
  refine ⟨?_, hrest⟩
  simp only [text, List.cons_append, List.head?_cons, ne_eq, Option.some.injEq]
  exact p.symbol_ne_space

theorem maximal_run_spacedRun {p q : Primitive} (hother : q.symbol ≠ p.symbol) {count further : Nat}
    (count_pos : 0 < count) (further_pos : 0 < further) {rest : Block} {behind : List Char}
    (hrest : rest.Maximal behind) :
    (run p count count_pos (spacedRun q further further_pos rest)).Maximal behind := by
  refine ⟨?_, maximal_spacedRun further_pos hrest⟩
  obtain ⟨more, rfl⟩ := Nat.exists_eq_succ_of_ne_zero (Nat.ne_of_gt further_pos)
  simpa [spacedRun, text, List.replicate_succ] using hother

theorem spells_spacedRun {p : Primitive} {count : Nat} (count_pos : 0 < count)
    (hcode : runCode optimize p count = [.repeated p count]) :
    (spacedRun p count count_pos empty).Spells optimize fun _ => [.repeated p count] where
  maximal _ := maximal_spacedRun count_pos trivial
  code place := by
    rw [spacedRun, code, hcode]
    rfl
  text place := by simp [spacedRun, text, Instruction.spelling]

theorem exists_spells_run (optimize : Bool) (p : Primitive) (count : Nat) (count_pos : 0 < count) :
    ∃ b : Block, b.Spells optimize fun _ => runCode optimize p count := by
  cases optimize with
  | true => exact ⟨_, spells_spacedRun count_pos rfl⟩
  | false =>
      -- Each character is counted on its own.
      clear count_pos
      induction count with
      | zero => exact ⟨empty, spells_empty false⟩
      | succ count ih =>
          obtain ⟨rest, hrest⟩ := ih
          have hone : (spacedRun p 1 Nat.one_pos empty).Spells false fun _ => [.repeated p 1] :=
            spells_spacedRun Nat.one_pos rfl
          exact ⟨_, hone.append hrest⟩

theorem exists_spells_fused {body : List Instruction} {fused : Instruction}
    (hfused : Fused body fused) (hnormal : fused.Normal) :
    ∃ b : Block, b.Spells true fun _ => [fused] := by
  cases hfused with
  | zero =>
      refine ⟨loop (run .sub 1 Nat.one_pos empty) empty, ?_, ?_, ?_⟩
      · intro behind
        simp [Maximal, text, Primitive.symbol]
      · intro place
        rfl
      · intro place
        rfl
  | scan d stride =>
      obtain ⟨count, rfl⟩ := Int.eq_ofNat_of_zero_le (Int.le_of_lt (show 0 < stride from hnormal))
      have count_pos : 0 < count := Int.natCast_pos.mp hnormal
      refine ⟨loop (spacedRun (.move d) count count_pos empty) empty, ?_, ?_, ?_⟩
      · intro behind
        exact ⟨maximal_spacedRun count_pos trivial, trivial⟩
      · intro place
        rfl
      · intro place
        simp [spacedRun, text, Instruction.spelling]
  | carry d distance =>
      obtain ⟨count, rfl⟩ := Int.eq_ofNat_of_zero_le (Int.le_of_lt (show 0 < distance from hnormal))
      have count_pos : 0 < count := Int.natCast_pos.mp hnormal
      refine ⟨loop (run .sub 1 Nat.one_pos (spacedRun (.move d) count count_pos
        (run .add 1 Nat.one_pos (spacedRun (.move d.flip) count count_pos empty)))) empty,
        ?_, ?_, ?_⟩
      · intro behind
        have hsub : (Primitive.move d).symbol ≠ Primitive.sub.symbol := by cases d <;> decide
        have hadd : (Primitive.move d.flip).symbol ≠ Primitive.add.symbol := by cases d <;> decide
        refine ⟨maximal_run_spacedRun hsub Nat.one_pos count_pos ?_, trivial⟩
        exact maximal_run_spacedRun hadd Nat.one_pos count_pos trivial
      · intro place
        have hfuse := (Fused.carry d count).fuse?_eq
        rw [code_loop]
        simp [spacedRun, code, runCode, loopCode, hfuse]
      · intro place
        simp [spacedRun, text, Instruction.spelling, Primitive.symbol]

theorem Spells.loop {body : Block} {row : Nat → List Instruction} (hbody : body.Spells optimize row)
    (hunfused : ∀ start, loopCode optimize start (row (start + 1)) =
      .of .jumpIfZero (start + 1 + (row (start + 1)).length : Nat) ::
        (row (start + 1) ++ [.of .jumpIfNonzero start])) :
    (loop body empty).Spells optimize fun start => loopCode optimize start (row (start + 1)) where
  maximal _ := ⟨hbody.maximal _, trivial⟩
  code place := by rw [code_loop, hbody.code]
  text place := by
    rw [hunfused, List.flatMap_cons, List.flatMap_append, ← hbody.text]
    simp [Block.text, Instruction.spelling]

theorem exists_spells_loop {body spelled : Block}
    (hbody : spelled.Spells optimize (body.code optimize)) :
    ∃ b : Block, b.Spells optimize fun start =>
      loopCode optimize start (body.code optimize (start + 1)) := by
  -- Whether the loop is fused does not depend on where it stands.
  have hfuse : ∀ place, fuse? (body.code optimize place) = fuse? (body.code optimize 0) := by
    intro place
    rw [← Nat.zero_add place, code_add, fuse?_relocated]
  rcases loopCode_cases optimize 0 (body.code optimize 0) with ⟨fused, rfl, hfused, -⟩ | ⟨hnone, -⟩
  · have hnormal := (fused_of_fuse? hfused).normal fun i hmem => body.normal_of_mem_code i hmem
    obtain ⟨b, hb⟩ := exists_spells_fused (fused_of_fuse? hfused) hnormal
    refine ⟨b, ?_⟩
    have hsingle : ∀ start, loopCode true start (body.code true (start + 1)) = [fused] := by
      intro start
      simp only [loopCode, if_true, hfuse, hfused]
    simpa only [hsingle] using hb
  · refine ⟨_, hbody.loop fun start => ?_⟩
    rcases loopCode_cases optimize start (body.code optimize (start + 1)) with
      ⟨fused, hoptimize, hfused, -⟩ | ⟨-, hpair⟩
    · rw [hfuse, hnone hoptimize] at hfused
      cases hfused
    · exact hpair

/-- The code of a block is spelled by a block with the same code. -/
theorem exists_spells (b : Block) (optimize : Bool) :
    ∃ spelled : Block, spelled.Spells optimize (b.code optimize) := by
  induction b with
  | empty => exact ⟨empty, spells_empty optimize⟩
  | run p count count_pos rest ih =>
      obtain ⟨front, hfront⟩ := exists_spells_run optimize p count count_pos
      obtain ⟨back, hback⟩ := ih
      exact ⟨_, hfront.append hback⟩
  | comment c silent rest ih => exact ih
  | loop body rest ihBody ihRest =>
      obtain ⟨inner, hinner⟩ := ihBody
      obtain ⟨front, hfront⟩ := exists_spells_loop hinner
      obtain ⟨back, hback⟩ := ihRest
      exact ⟨_, hfront.append hback⟩

end Block

namespace Compilation

/-- The spelling of a block's code is compiled to that code again, from the first place on. -/
theorem ofSource_spelling (b : Block) (optimize : Bool) (place : Nat) :
    Program.ofSource (.ofList ((b.code optimize place).flatMap Instruction.spelling)) optimize =
      .ok (.ofList (b.code optimize 0)) := by
  obtain ⟨spelled, hspelled⟩ := b.exists_spells optimize
  have hreads : Outline.Reads (.base .empty) (spelled.text ++ []) (.base spelled) [] :=
    Outline.reads_of_maximal (hspelled.maximal []) (.finish _)
  rw [List.append_nil, hspelled.text place,
    ← String.toList_ofList (l := List.flatMap _ _)] at hreads
  rw [ofSource_of_reads hreads optimize, hspelled.code]

end Compilation

end TapeLang
