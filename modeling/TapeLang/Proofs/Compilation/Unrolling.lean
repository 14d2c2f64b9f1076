import TapeLang.Proofs.Compilation.Fusion
import TapeLang.Proofs.Compilation.Layout
import TapeLang.Proofs.Compilation.Operands
import TapeLang.Proofs.World.Loop

/-!
# Loops that were fused, without optimization

The body of a loop that is fused has nothing in it but runs and comments.  Without optimization the
same body is a row of single primitives, and this row is one for which the shortcut is right
(`Block.exists_fuses`).
-/

namespace TapeLang

/-- The single primitives that a counted one stands for. -/
def Instruction.unrolled (i : Instruction) : List Instruction :=
  List.replicate i.arg.toNat { i with arg := 1 }

namespace Block

/-- A loop is never counted primitives alone. -/
private theorem not_repeated_loopCode (optimize : Bool) (start : Nat) (inner : List Instruction) :
    ¬ ∀ i, i ∈ loopCode optimize start inner →
      ∃ (p : Primitive) (arg : Int), i = .repeated p arg := by
  intro hflat
  rcases loopCode_cases optimize start inner with ⟨fused, -, hfuse, hsingle⟩ | ⟨-, hpair⟩
  · rw [hsingle] at hflat
    obtain ⟨p, arg, hrepeated⟩ := hflat fused List.mem_cons_self
    exact (fused_of_fuse? hfuse).ne_repeated p arg hrepeated
  · rw [hpair] at hflat
    obtain ⟨p, arg, hrepeated⟩ := hflat _ List.mem_cons_self
    cases hrepeated

/-- If all of a block became counted primitives, then without optimization it is these, unrolled. -/
theorem code_false_of_repeated (b : Block) {place : Nat}
    (hflat : ∀ i, i ∈ b.code true place → ∃ (p : Primitive) (arg : Int), i = .repeated p arg)
    (place' : Nat) : b.code false place' = (b.code true place).flatMap Instruction.unrolled := by
  induction b generalizing place place' with
  | empty => rfl
  | run p count count_pos rest ih =>
      rw [code] at hflat
      have hrest := ih (fun i hmem => hflat i (List.mem_append_right _ hmem))
        (place' + (runCode false p count).length)
      rw [code, code, List.flatMap_append, hrest]
      simp [runCode, Instruction.unrolled]
  | comment c silent rest ih => exact ih hflat place'
  | loop body rest _ _ =>
      rw [code] at hflat
      exact absurd (fun i hmem => hflat i (List.mem_append_left _ hmem))
        (not_repeated_loopCode true place _)

theorem exists_fuses (b : Block) {place : Nat} {fused : Instruction}
    (hfuse : fuse? (b.code true place) = some fused) :
    ∃ (row : List Primitive) (op : Operation) (arg : Nat), World.Fuses row op arg ∧
      fused = .of op arg ∧ ∀ place', b.code false place' = row.map (.repeated · 1) := by
  have hfused := fused_of_fuse? hfuse
  have hslow := fun place' => b.code_false_of_repeated hfused.exists_repeated place'
  have hpositive : ∀ (p : Primitive) (arg : Int), .repeated p arg ∈ b.code true place → 0 < arg :=
    fun _ _ hmem => b.normal_of_mem_code _ hmem
  -- What is left to know about the block is its code, and this has one of three forms.
  generalize b.code true place = inner at hfused hslow hpositive
  cases hfused with
  | zero => exact ⟨[.sub], .zero, 0, .zero, rfl, hslow⟩
  | scan d stride =>
      have hstride : 0 < stride := hpositive (.move d) stride List.mem_cons_self
      obtain ⟨count, rfl⟩ := Int.eq_ofNat_of_zero_le (Int.le_of_lt hstride)
      refine ⟨List.replicate count (.move d), .scan d, count, .scan d (by omega), rfl,
        fun place' => ?_⟩
      rw [hslow place']
      simp [Instruction.unrolled]
  | carry d distance =>
      have hdistance : 0 < distance :=
        hpositive (.move d) distance (List.mem_cons_of_mem _ List.mem_cons_self)
      obtain ⟨count, rfl⟩ := Int.eq_ofNat_of_zero_le (Int.le_of_lt hdistance)
      refine ⟨World.carryBody d count, .carry d, count, .carry d (by omega), rfl, fun place' => ?_⟩
      rw [hslow place']
      simp [Instruction.unrolled, World.carryBody]

end Block

end TapeLang
