import TapeLang.Proofs.Compilation.Commands
import TapeLang.Proofs.Compilation.Unrolling
import TapeLang.Proofs.Machine.Row
import TapeLang.Proofs.Position

/-!
# An optimized program, instruction by instruction

Let `fast` and `slow` be the programs of one text, with and without optimization.  `Unfolds fast
slow i instruction` says what stands in `slow` for the instruction at the place `i` of `fast`: for a
counted primitive, a row of single ones; for a jump, the jump between the same two commands; for a
shortcut, the loop itself.  All of it stands where the commands in front of `i` end.

This holds for every instruction of `fast` (`Block.unfoldsIn`).  The proof goes along the block that
both programs are the code of.
-/

namespace TapeLang

/-- What stands in the slow program for an instruction at a place of the fast one. -/
inductive Unfolds (fast slow : Program) (i : Nat) : Instruction → Prop where
  | run {p : Primitive} {count : Nat} (count_pos : 0 < count)
      (hslow : slow.HasAt (fast.offset i) (List.replicate count (.repeated p 1))) :
      Unfolds fast slow i (.repeated p count)
  | jumpIfZero {j : Nat} (hpartner : fast.toList[j]? = some (.of .jumpIfNonzero i))
      (hslow : slow.toList[fast.offset i]? = some (.of .jumpIfZero (fast.offset j))) :
      Unfolds fast slow i (.of .jumpIfZero j)
  | jumpIfNonzero {j : Nat} (hpartner : fast.toList[j]? = some (.of .jumpIfZero i))
      (hslow : slow.toList[fast.offset i]? = some (.of .jumpIfNonzero (fast.offset j))) :
      Unfolds fast slow i (.of .jumpIfNonzero j)
  | loop {body : List Primitive} {op : Operation} {arg : Nat} (hfuses : World.Fuses body op arg)
      (hslow : slow.HasAt (fast.offset i) (Machine.loopRow (fast.offset i) body)) :
      Unfolds fast slow i (.of op arg)

/-- A shortcut spells the loop that it stands for. -/
theorem World.Fuses.length_commands {body : List Primitive} {op : Operation} {arg : Nat}
    (hfuses : World.Fuses body op arg) :
    (Instruction.of op arg).commands.length = body.length + 2 := by
  cases hfuses with
  | zero => rfl
  | scan d stride_pos => simp [Instruction.commands]
  | carry d distance_pos =>
      simp only [Instruction.commands, World.carryBody, Int.toNat_natCast, List.length_cons,
        List.length_append, List.length_replicate, List.length_nil]
      omega

variable {fast slow : Program}

namespace Block

theorem loopCode_false_map (start : Nat) (body : List Primitive) :
    loopCode false start (body.map (.repeated · 1)) = Machine.loopRow start body := by
  rw [loopCode_false, Machine.loopRow, List.length_map, Nat.add_right_comm]

/-- Wherever the code of a block stands in both programs, it unfolds. -/
def UnfoldsIn (b : Block) (fast slow : Program) : Prop :=
  ∀ front back : List Instruction, fast.toList = front ++ (b.code true front.length ++ back) →
    slow.HasAt (fast.offset front.length) (b.code false (fast.offset front.length)) →
    Between fast.toList (Unfolds fast slow) front.length
      (front.length + (b.code true front.length).length)

/-- A piece that unfolds, and the block behind it. -/
private theorem unfolded_append {rest : Block} (hrest : rest.UnfoldsIn fast slow) {length : Nat}
    {front piece back : List Instruction}
    (hfast : fast.toList =
      front ++ (piece ++ rest.code true (front.length + piece.length) ++ back))
    (hlength : length = (piece.flatMap Instruction.commands).length)
    (hslow : slow.HasAt (fast.offset front.length + length)
      (rest.code false (fast.offset front.length + length)))
    (hpiece : Between fast.toList (Unfolds fast slow) front.length (front.length + piece.length)) :
    Between fast.toList (Unfolds fast slow) front.length
      (front.length + (piece ++ rest.code true (front.length + piece.length)).length) := by
  rw [List.append_assoc] at hfast
  have hoffset := Program.offset_append hfast
  have hunfolded := hrest (front ++ piece) back
  rw [List.length_append, hoffset, ← hlength] at hunfolded
  rw [List.length_append, ← Nat.add_assoc]
  exact hpiece.trans (hunfolded (by rw [hfast, List.append_assoc]) hslow)

/-- Two jumps around a body that unfolds. -/
private theorem unfolded_pair {front inner back innerSlow : List Instruction}
    (hfast : fast.toList = front ++ (.of .jumpIfZero (front.length + 1 + inner.length : Nat) ::
      (inner ++ .of .jumpIfNonzero front.length :: back)))
    (hlength : innerSlow.length = (inner.flatMap Instruction.commands).length)
    (hslow : slow.HasAt (fast.offset front.length)
      (.of .jumpIfZero (fast.offset front.length + 1 + innerSlow.length : Nat) ::
        (innerSlow ++ [.of .jumpIfNonzero (fast.offset front.length)])))
    (hbody : slow.HasAt (fast.offset (front.length + 1)) innerSlow →
      Between fast.toList (Unfolds fast slow) (front.length + 1)
        (front.length + 1 + inner.length)) :
    Between fast.toList (Unfolds fast slow) front.length
      (front.length + 1 + inner.length + 1) := by
  have hopening := getElem?_of_eq_append hfast
  have hinside : fast.toList = (front ++ [.of .jumpIfZero (front.length + 1 + inner.length : Nat)])
      ++ (inner ++ .of .jumpIfNonzero front.length :: back) := by
    rw [hfast]
    simp
  have hclosing := getElem?_of_eq_append (hinside.trans (List.append_assoc _ _ _).symm)
  rw [List.length_append, List.length_append, List.length_singleton] at hclosing
  -- Where the two jumps and the body stand in the other program.
  have hopened : fast.offset (front.length + 1) = fast.offset front.length + 1 :=
    Program.offset_succ hopening
  have hclosed := Program.offset_append hinside
  rw [List.length_append, List.length_singleton, hopened, ← hlength] at hclosed
  rw [Program.hasAt_cons, Program.hasAt_append, Program.hasAt_cons, ← hclosed, ← hopened] at hslow
  obtain ⟨hopeningSlow, hbodySlow, hclosingSlow, -⟩ := hslow
  have hfirst := between_of_single hopening (Unfolds.jumpIfZero hclosing hopeningSlow)
  have hlast := between_of_single hclosing (Unfolds.jumpIfNonzero hopening hclosingSlow)
  exact (hfirst.trans (hbody hbodySlow)).trans hlast

private theorem unfolded_loop {body : Block} (hbody : body.UnfoldsIn fast slow)
    {front back : List Instruction}
    (hfast : fast.toList =
      front ++ (loopCode true front.length (body.code true (front.length + 1)) ++ back))
    (hslow : slow.HasAt (fast.offset front.length) (loopCode false (fast.offset front.length)
      (body.code false (fast.offset front.length + 1)))) :
    Between fast.toList (Unfolds fast slow) front.length
      (front.length + (loopCode true front.length (body.code true (front.length + 1))).length) := by
  rcases loopCode_cases true front.length (body.code true (front.length + 1)) with
    ⟨fused, -, hfuse, hsingle⟩ | ⟨-, hpair⟩
  · obtain ⟨row, op, arg, hfuses, rfl, hrow⟩ := body.exists_fuses hfuse
    rw [hsingle] at hfast ⊢
    rw [hrow, loopCode_false_map] at hslow
    exact between_of_single (getElem?_of_eq_append hfast) (.loop hfuses hslow)
  · rw [hpair, List.cons_append, List.append_assoc, List.singleton_append] at hfast
    rw [hpair, List.length_cons, List.length_append, List.length_singleton]
    have hlength : (body.code false (fast.offset front.length + 1)).length =
        ((body.code true (front.length + 1)).flatMap Instruction.commands).length := by
      rw [length_code_false, commands_code]
    have hinside := hbody
      (front ++
        [.of .jumpIfZero (front.length + 1 + (body.code true (front.length + 1)).length : Nat)])
      (.of .jumpIfNonzero front.length :: back)
    rw [List.length_append, List.length_singleton] at hinside
    have hopened : fast.offset (front.length + 1) = fast.offset front.length + 1 :=
      Program.offset_succ (getElem?_of_eq_append hfast)
    have hwhole := unfolded_pair hfast hlength hslow fun hcode =>
      hinside (by rw [hfast]; simp) (by rwa [← hopened] at hcode)
    rwa [show front.length + ((body.code true (front.length + 1)).length + 1 + 1) =
      front.length + 1 + (body.code true (front.length + 1)).length + 1 by omega]

theorem unfoldsIn (b : Block) (fast slow : Program) : b.UnfoldsIn fast slow := by
  induction b with
  | empty =>
      intro front back hfast hslow i instruction hlow hhigh
      rw [code, List.length_nil] at hhigh
      omega
  | run p count count_pos rest ih =>
      intro front back hfast hslow
      rw [code] at hfast hslow ⊢
      rw [Program.hasAt_append] at hslow
      have hlength : (runCode false p count).length =
          ((runCode true p count).flatMap Instruction.commands).length := by
        rw [commands_runCode, List.length_replicate]
        exact List.length_replicate
      refine unfolded_append ih hfast hlength hslow.2 ?_
      have hget : fast.toList[front.length]? = some (.repeated p count) :=
        getElem?_of_eq_append hfast
      exact between_of_single hget (.run count_pos hslow.1)
  | comment c silent rest ih => exact ih
  | loop body rest ihBody ihRest =>
      intro front back hfast hslow
      rw [code] at hfast hslow ⊢
      rw [Program.hasAt_append] at hslow
      have hlength : (loopCode false (fast.offset front.length)
          (body.code false (fast.offset front.length + 1))).length =
          ((loopCode true front.length (body.code true (front.length + 1))).flatMap
            Instruction.commands).length := by
        simp [commands_loopCode, commands_code, loopCode_false, length_code_false]
      refine unfolded_append ihRest hfast hlength hslow.2 ?_
      exact unfolded_loop ihBody (hfast.trans (by rw [List.append_assoc])) hslow.1

end Block

end TapeLang
