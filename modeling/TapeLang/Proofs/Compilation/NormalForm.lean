import Mathlib.Data.List.Chain
import TapeLang.Proofs.Compilation.Concatenation
import TapeLang.Proofs.Compilation.Recompilation

/-!
# The normal form of compiled programs

Optimization leaves nothing behind that it could still improve.  The arguments are sensible
(`Instruction.Normal`), and two more things are shown here.

* No loop that is left could be fused (`fuse?_body_of_pair`).  When a loop is closed, its body is
  looked at and not changed any more, so it is the body of the loop in the finished program as well.
* Without comments, neighbours never repeat one primitive (`Block.isChain_code`).  The block of such
  a text has maximal runs: what comes after a run is the end, a bracket or another command, and no
  code of a loop begins or ends with a counted primitive.

Without optimization there are only single commands and jumps (`Instruction.Single`).
-/

namespace TapeLang

/-- Both instructions repeat the same primitive, so one would do. -/
def Instruction.Mergeable (i j : Instruction) : Prop :=
  ∃ (p : Primitive) (first second : Int), i = .repeated p first ∧ j = .repeated p second

/-! ## Neighbours -/

/-- An instruction that repeats nothing can be merged with no other. -/
theorem Instruction.not_mergeable {i : Instruction} (hother : ∀ p arg, i ≠ .repeated p arg)
    (j : Instruction) : ¬ i.Mergeable j ∧ ¬ j.Mergeable i := by
  constructor
  · rintro ⟨p, first, -, hfirst, -⟩
    exact hother p first hfirst
  · rintro ⟨p, -, second, -, hsecond⟩
    exact hother p second hsecond

namespace Block

/-- Where no comment is in between, a counted primitive comes first only if its command does. -/
theorem head?_text_of_head?_code {b : Block} (hcommands : ∀ c ∈ b.text, isCommand c) {place : Nat}
    {p : Primitive} {arg : Int} (hhead : (b.code true place).head? = some (.repeated p arg)) :
    b.text.head? = some p.symbol := by
  cases b with
  | empty => cases hhead
  | run q count count_pos rest =>
      obtain ⟨count, rfl⟩ : ∃ fewer, count = fewer + 1 := ⟨count - 1, by omega⟩
      cases hhead
      rfl
  | comment c silent rest =>
      have hcommand := hcommands c List.mem_cons_self
      rw [silent] at hcommand
      cases hcommand
  | loop body rest =>
      rw [code] at hhead
      rcases loopCode_cases true place (body.code true (place + 1)) with
        ⟨fused, -, hfuse, hsingle⟩ | ⟨-, hpair⟩
      · rw [hsingle] at hhead
        exact absurd (Option.some.inj hhead) ((fused_of_fuse? hfuse).ne_repeated p arg)
      · rw [hpair] at hhead
        cases hhead

/-- A loop in the code keeps to itself: its first and its last instruction are no counted
primitives. -/
theorem isChain_loopCode {start : Nat} {inner behind : List Instruction}
    (hinner : inner.IsChain fun i j => ¬ i.Mergeable j)
    (hbehind : behind.IsChain fun i j => ¬ i.Mergeable j) :
    (loopCode true start inner ++ behind).IsChain fun i j => ¬ i.Mergeable j := by
  have halone {i : Instruction} (hother : ∀ p arg, i ≠ .repeated p arg)
      {rest : List Instruction} (hrest : rest.IsChain fun i j => ¬ i.Mergeable j) :
      (i :: rest).IsChain fun i j => ¬ i.Mergeable j :=
    List.isChain_cons.mpr ⟨fun j _ => (Instruction.not_mergeable hother j).1, hrest⟩
  rcases loopCode_cases true start inner with ⟨fused, -, hfuse, hsingle⟩ | ⟨-, hpair⟩
  · rw [hsingle]
    exact halone (fused_of_fuse? hfuse).ne_repeated hbehind
  · rw [hpair, List.cons_append, List.append_assoc]
    refine halone (by simp) (List.isChain_append.mpr ⟨hinner, halone (by simp) hbehind, ?_⟩)
    rintro i - j hj
    cases hj
    exact (Instruction.not_mergeable (by simp) i).2

theorem isChain_code {b : Block} {behind : List Char} (hmaximal : b.Maximal behind)
    (hcommands : ∀ c ∈ b.text, isCommand c) (place : Nat) :
    (b.code true place).IsChain fun i j => ¬ i.Mergeable j := by
  induction b generalizing place behind with
  | empty => exact .nil
  | run p count count_pos rest ih =>
      have hrest : ∀ c ∈ rest.text, isCommand c := fun c hmem =>
        hcommands c (List.mem_append_right _ hmem)
      have hchain := ih hmaximal.2 hrest (place + (runCode true p count).length)
      rw [code, runCode, if_pos rfl, List.singleton_append, List.isChain_cons]
      refine ⟨?_, hchain⟩
      rintro j hj ⟨q, first, second, hfirst, rfl⟩
      -- The run would go on in the text.
      cases hfirst
      have hhead := head?_text_of_head?_code hrest hj
      exact hmaximal.1 (by rw [List.head?_append, hhead, Option.some_or])
  | comment c silent rest ih =>
      exact ih hmaximal (fun d hmem => hcommands d (List.mem_cons_of_mem c hmem)) place
  | loop body rest ihBody ihRest =>
      rw [text] at hcommands
      have hinner := ihBody hmaximal.1 (fun c hmem => hcommands c (by simp [hmem])) (place + 1)
      rw [code]
      exact isChain_loopCode hinner
        (ihRest hmaximal.2 (fun c hmem => hcommands c (by simp [hmem])) _)

end Block

/-! ## Loops -/

namespace Compilation

variable {text : String} {optimize : Bool} {p : Program} {i j : Nat}

/-- The body of a loop that is left is none that can be fused. -/
theorem fuse?_body_of_pair (hprogram : Program.ofSource text true = .ok p) (hpair : p.Pair i j) :
    fuse? (p.span (i + 1) (j - 1)) = none := by
  obtain ⟨body, hloop, hlength⟩ := exists_loopAt_of_ofSource hprogram hpair
  rw [Block.code_loop] at hloop hlength
  have hlt := hpair.lt
  rcases Block.loopCode_cases true i (body.code true (i + 1)) with
    ⟨fused, -, -, hsingle⟩ | ⟨hnone, hcode⟩
  · rw [hsingle] at hlength
    simp only [List.length_singleton] at hlength
    omega
  · rw [hcode, Program.hasAt_cons, Program.hasAt_append] at hloop
    rw [hcode] at hlength
    simp only [List.length_cons, List.length_append, List.length_nil] at hlength
    have hlast : (j : Int) - 1 = (j - 1 : Nat) := by omega
    have hspan : p.span ((i + 1 : Nat) : Int) ((j - 1 : Nat) : Int) = body.code true (i + 1) :=
      hloop.2.1.span_eq (by omega)
    rw [hlast]
    exact hspan ▸ hnone rfl

/-- The normal form of a program.  With optimization every instruction is one of the operations with
a sensible argument, no loop that is left could be fused, and, if the text has no comments, no
neighbours repeat one primitive.  Without optimization there are only jumps and single
primitives. -/
theorem ofSource_normal_form (hprogram : Program.ofSource text optimize = .ok p) :
    (optimize = true →
      (∀ i ∈ p.toList, i.Normal) ∧
      (∀ i j : Nat, p.Pair i j → fuse? (p.span (i + 1) (j - 1)) = none) ∧
      ((∀ c ∈ text.toList, isCommand c) → p.toList.IsChain fun i j => ¬ i.Mergeable j)) ∧
    (optimize = false → ∀ i ∈ p.toList, i.Single) := by
  constructor
  · rintro rfl
    refine ⟨(compiled_of_ofSource hprogram).normal, fun i j => fuse?_body_of_pair hprogram, ?_⟩
    intro hcommands
    obtain ⟨b, htext, hmaximal, hlist⟩ := exists_maximal_block_of_ofSource hprogram
    rw [hlist]
    exact Block.isChain_code hmaximal (htext ▸ hcommands) 0
  · rintro rfl
    obtain ⟨b, -, hlist⟩ := exists_block_of_ofSource hprogram
    rw [hlist]
    exact b.single_of_mem_code

/-- The inner loop is fused, and the outer one is then left as it is. -/
theorem ofSource_normal_form_of_nested_loop :
    let program : Program := .ofList [.repeated .add 1, .of .jumpIfZero 3, .of .zero 0,
      .of .jumpIfNonzero 1, .repeated .add 1]
    Program.ofSource "+[[-]]+" true = .ok program ∧ (∀ i ∈ program.toList, i.Normal) ∧
      program.Pair 1 3 ∧ fuse? (program.span 2 2) = none ∧
      program.toList.IsChain fun i j => ¬ i.Mergeable j := by
  intro program
  have hprogram : Program.ofSource "+[[-]]+" true = .ok program := rfl
  have hpair : program.Pair 1 3 := ⟨by decide, rfl, rfl⟩
  have hcommands : ∀ c ∈ "+[[-]]+".toList, isCommand c := List.all_eq_true.mp rfl
  obtain ⟨hnormal, hloops, hchain⟩ := (ofSource_normal_form hprogram).1 rfl
  exact ⟨hprogram, hnormal, hpair, hloops 1 3 hpair, hchain hcommands⟩

end Compilation

end TapeLang
