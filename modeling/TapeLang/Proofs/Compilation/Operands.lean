import TapeLang.Proofs.Compilation.Fusion
import TapeLang.Proofs.Compilation.Layout

/-!
# The operands of compiled instructions

A compiled instruction is one of the operations, and its argument is at least one if it is a count,
a stride or a distance (`Instruction.Normal`).  A fused instruction takes its argument from the loop
that it replaces, so this goes from the body of the loop to the instruction (`Fused.normal`).
Without optimization there are only jumps and single primitives (`Instruction.Single`).

What every instruction of a block has to satisfy is shown for a run and, from its body, for a loop
(`Block.forall_mem_code`).
-/

namespace TapeLang

/-- The instruction is an operation with an argument that a command can give it.  Of a jump nothing
is said here. -/
def Instruction.Normal (i : Instruction) : Prop :=
  match i.opcode with
  | .known (.primitive _) => 0 < i.arg
  | .known .jumpIfZero => True
  | .known .jumpIfNonzero => True
  | .known .zero => i.arg = 0
  | .known (.scan _) => 0 < i.arg
  | .known (.carry _) => 0 < i.arg
  | .foreign _ _ => False

/-- The instruction is a jump, or it carries out a primitive once. -/
def Instruction.Single (i : Instruction) : Prop :=
  match i.opcode with
  | .known (.primitive _) => i.arg = 1
  | .known .jumpIfZero => True
  | .known .jumpIfNonzero => True
  | _ => False

theorem Fused.normal {body : List Instruction} {fused : Instruction} (hfused : Fused body fused)
    (hbody : ∀ i, i ∈ body → i.Normal) : fused.Normal := by
  cases hfused with
  | zero => exact rfl
  | scan d stride => exact hbody (.repeated (.move d) stride) List.mem_cons_self
  | carry d distance =>
      exact hbody (.repeated (.move d) distance) (List.mem_cons_of_mem _ List.mem_cons_self)

namespace Block

theorem forall_mem_code {holds : Instruction → Prop} {optimize : Bool}
    (hrun : ∀ (p : Primitive) (count : Nat), 0 < count →
      ∀ i, i ∈ runCode optimize p count → holds i)
    (hloop : ∀ (start : Nat) (inner : List Instruction), (∀ i, i ∈ inner → holds i) →
      ∀ i, i ∈ loopCode optimize start inner → holds i) (b : Block) {place : Nat} :
    ∀ i, i ∈ b.code optimize place → holds i := by
  induction b generalizing place with
  | empty =>
      intro i hmem
      cases hmem
  | run p count count_pos rest ih =>
      intro i hmem
      rw [code] at hmem
      rcases List.mem_append.mp hmem with hhead | hrest
      · exact hrun p count count_pos i hhead
      · exact ih i hrest
  | comment c silent rest ih => exact ih
  | loop body rest ihBody ihRest =>
      intro i hmem
      rw [code] at hmem
      rcases List.mem_append.mp hmem with hwhole | hrest
      · exact hloop place _ ihBody i hwhole
      · exact ihRest i hrest

theorem normal_of_mem_runCode {optimize : Bool} {p : Primitive} {count : Nat}
    (count_pos : 0 < count) {i : Instruction} (hmem : i ∈ runCode optimize p count) : i.Normal := by
  unfold runCode at hmem
  cases optimize with
  | true =>
      obtain rfl := List.mem_singleton.mp hmem
      exact Int.natCast_pos.mpr count_pos
  | false =>
      obtain rfl := List.eq_of_mem_replicate hmem
      exact Int.one_pos

theorem normal_of_mem_loopCode {optimize : Bool} {start : Nat} {inner : List Instruction}
    (hinner : ∀ i, i ∈ inner → i.Normal) {i : Instruction}
    (hmem : i ∈ loopCode optimize start inner) : i.Normal := by
  rcases loopCode_cases optimize start inner with ⟨fused, -, hfuse, hsingle⟩ | ⟨-, hpair⟩
  · rw [hsingle, List.mem_singleton] at hmem
    rw [hmem]
    exact (fused_of_fuse? hfuse).normal hinner
  · rw [hpair] at hmem
    rcases List.mem_cons.mp hmem with rfl | hrest
    · trivial
    · rcases List.mem_append.mp hrest with hbody | hlast
      · exact hinner i hbody
      · obtain rfl := List.mem_singleton.mp hlast
        trivial

theorem normal_of_mem_code (b : Block) {optimize : Bool} {place : Nat} :
    ∀ i, i ∈ b.code optimize place → i.Normal :=
  b.forall_mem_code (fun _ _ count_pos _ => normal_of_mem_runCode count_pos)
    fun _ _ hinner _ => normal_of_mem_loopCode hinner

theorem single_of_mem_code (b : Block) {place : Nat} :
    ∀ i, i ∈ b.code false place → i.Single := by
  refine b.forall_mem_code ?_ ?_
  · intro p count count_pos i hmem
    obtain rfl := List.eq_of_mem_replicate hmem
    exact rfl
  · intro start inner hinner i hmem
    rw [loopCode_false] at hmem
    rcases List.mem_cons.mp hmem with rfl | hrest
    · trivial
    · rcases List.mem_append.mp hrest with hbody | hlast
      · exact hinner i hbody
      · obtain rfl := List.mem_singleton.mp hlast
        trivial

end Block

end TapeLang
