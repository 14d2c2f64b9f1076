import TapeLang.Proofs.Compilation.Commands
import TapeLang.Proofs.Compilation.Spelling
import TapeLang.Proofs.Machine.Row
import TapeLang.Proofs.World.Loop

/-!
# The commands of a loop's key

A profile counts loops under what is written for them, and that is not the same with optimization
and without: runs are counted in one form and written out in the other.  Their commands (`bare`) are
the same.  They are a stretch of the commands of the text, and the same stretch in both programs
(`bare_loopSource_eq`).

Loops that are replaced by one operation are counted without optimization only.  Their commands have
one of a few forms (`Idiom`).
-/

namespace TapeLang

/-! ## Written forms without spaces -/

theorem space_not_mem_counted (p : Primitive) (count : Nat) :
    ' ' ∉ (Instruction.counted p.symbol count).toList := by
  have hdigits : ' ' ∉ Nat.toDigits 10 count := by
    intro hmem
    cases Nat.isDigit_of_mem_toDigits (by decide) (by decide) hmem
  simp [Instruction.counted, Decimal.toList_text_natCast, hdigits, p.symbol_ne_space]

namespace Instruction

theorem Normal.space_not_mem_render {i : Instruction} (hnormal : i.Normal) :
    ' ' ∉ i.render.toList := by
  obtain ⟨opcode, arg⟩ := i
  cases opcode with
  | known op =>
      cases op with
      | primitive p =>
          obtain ⟨count, rfl⟩ := Int.eq_ofNat_of_zero_le (Int.le_of_lt (show 0 < arg from hnormal))
          exact space_not_mem_counted p count
      | scan d =>
          obtain ⟨count, rfl⟩ := Int.eq_ofNat_of_zero_le (Int.le_of_lt (show 0 < arg from hnormal))
          simp [render, space_not_mem_counted]
      | carry d =>
          obtain ⟨count, rfl⟩ := Int.eq_ofNat_of_zero_le (Int.le_of_lt (show 0 < arg from hnormal))
          simp [render, space_not_mem_counted]
      | _ => simp [render]
  | foreign label unnamed => exact hnormal.elim

theorem filter_spelling (i : Instruction) : i.spelling.filter (· ≠ ' ') = i.commands := by
  have hsymbol (p : Primitive) : p.symbol ≠ ' ' := p.symbol_ne_space.symm
  obtain ⟨opcode, arg⟩ := i
  cases opcode with
  | known op =>
      cases op with
      | primitive p => simp [spelling, commands, hsymbol]
      | scan d => simp [spelling, commands, hsymbol]
      | carry d => simp [spelling, commands, hsymbol]
      | _ => rfl
  | foreign label unnamed => rfl

end Instruction

theorem bare_rendered {row : List Instruction} (hnormal : ∀ i, i ∈ row → i.Normal) :
    bare (rendered row) = row.flatMap Instruction.commands := by
  have hspace : ' ' ∉ rendered row := by
    simp only [rendered, List.mem_flatMap, List.mem_map, not_exists, not_and]
    rintro written ⟨i, hmem, rfl⟩
    exact (hnormal i hmem).space_not_mem_render
  rw [bare_eq_filter_expand hspace, expand_rendered hnormal, List.filter_flatMap]
  simp only [Instruction.filter_spelling]

/-! ## Stretches of commands -/

namespace Program

variable {p : Program} {i j : Nat}

theorem commands_take (p : Program) (place : Nat) :
    (p.toList.take place).flatMap Instruction.commands =
      (p.toList.flatMap Instruction.commands).take (p.offset place) := by
  have hsplit := congrArg (List.flatMap Instruction.commands) (p.toList.take_append_drop place)
  rw [List.flatMap_append] at hsplit
  rw [← hsplit, offset, List.take_left]

theorem offset_mono (p : Program) (hle : i ≤ j) : p.offset i ≤ p.offset j := by
  obtain ⟨k, rfl⟩ := Nat.exists_eq_add_of_le hle
  rw [offset, offset, List.take_add, List.flatMap_append, List.length_append]
  exact Nat.le_add_right _ _

/-- The commands of a span are those between the commands in front of it and those behind it. -/
theorem commands_span (p : Program) (hle : i ≤ j + 1) :
    (p.span i j).flatMap Instruction.commands =
      ((p.toList.flatMap Instruction.commands).take (p.offset (j + 1))).drop (p.offset i) := by
  have hsplit := congrArg (List.flatMap Instruction.commands)
    ((p.toList.take (j + 1)).take_append_drop i)
  rw [List.flatMap_append, List.take_take, Nat.min_eq_left hle] at hsplit
  rw [span_natCast, ← commands_take, ← hsplit, offset, List.drop_left]

/-- Where every instruction stands for one command, a place has as many commands in front of it. -/
theorem offset_eq_of_single (hsingle : ∀ i, i ∈ p.toList → i.commands.length = 1) {place : Nat}
    (hle : place ≤ p.size) : p.offset place = place := by
  induction place with
  | zero => rfl
  | succ place ih =>
      obtain ⟨i, hget⟩ : ∃ i, p.toList[place]? = some i := ⟨_, List.getElem?_eq_getElem hle⟩
      rw [offset_succ hget, ih (Nat.le_of_succ_le hle), hsingle i (List.mem_of_getElem? hget)]

end Program

theorem Instruction.Single.length_commands {i : Instruction} (hsingle : i.Single) :
    i.commands.length = 1 := by
  obtain ⟨opcode, arg⟩ := i
  cases opcode with
  | known op =>
      cases op with
      | primitive p =>
          have hone : arg = 1 := hsingle
          rw [hone]
          rfl
      | jumpIfZero => rfl
      | jumpIfNonzero => rfl
      | _ => exact hsingle.elim
  | foreign label unnamed => exact hsingle.elim

/-! ## Keys -/

theorem bare_loopSource {p : Program} (hnormal : ∀ i, i ∈ p.toList → i.Normal) (i j : Nat) :
    bare (p.loopSource i j).toList = (p.span i j).flatMap Instruction.commands := by
  rw [toList_loopSource]
  apply bare_rendered
  intro instruction hmem
  rw [Program.span_natCast] at hmem
  exact hnormal instruction (List.mem_of_mem_take (List.mem_of_mem_drop hmem))

/-- Between the same commands of the text, the keys of both programs stand for the same commands. -/
theorem bare_loopSource_eq {fast slow : Program} {block : Block} {i j : Nat} {last : Instruction}
    (hfast : fast.toList = block.code true 0) (hslow : slow.toList = block.code false 0)
    (hle : i ≤ j) (hget : fast.toList[j]? = some last) (hsingle : last.commands.length = 1) :
    bare (slow.loopSource (fast.offset i) (fast.offset j)).toList =
      bare (fast.loopSource i j).toList := by
  have hcommands : slow.toList.flatMap Instruction.commands =
      fast.toList.flatMap Instruction.commands := by
    rw [hslow, hfast, block.commands_code, block.commands_code]
  have hsize : slow.size = (fast.toList.flatMap Instruction.commands).length := by
    rw [← slow.length_toList, hslow, block.length_code_false, hfast, block.commands_code]
  have hsucc : fast.offset (j + 1) = fast.offset j + 1 := by
    rw [Program.offset_succ hget, hsingle]
  have hsame {place : Nat} (hplace : place ≤ slow.size) : slow.offset place = place :=
    Program.offset_eq_of_single
      (fun i hmem => (block.single_of_mem_code i (hslow ▸ hmem)).length_commands) hplace
  have hend : fast.offset (j + 1) ≤ slow.size := by
    rw [hsize, ← fast.offset_size]
    exact fast.offset_mono (Program.lt_size_of_getElem? hget)
  have hstart := fast.offset_mono hle
  calc bare (slow.loopSource (fast.offset i) (fast.offset j)).toList
      = (slow.span (fast.offset i) (fast.offset j)).flatMap Instruction.commands :=
        bare_loopSource (fun _ hmem => block.normal_of_mem_code _ (hslow ▸ hmem)) _ _
    _ = ((slow.toList.flatMap Instruction.commands).take (slow.offset (fast.offset j + 1))).drop
          (slow.offset (fast.offset i)) := slow.commands_span (by omega)
    _ = ((fast.toList.flatMap Instruction.commands).take (fast.offset (j + 1))).drop
          (fast.offset i) := by
        rw [hcommands, ← hsucc, hsame hend, hsame (by omega)]
    _ = (fast.span i j).flatMap Instruction.commands := (fast.commands_span (by omega)).symm
    _ = bare (fast.loopSource i j).toList :=
        (bare_loopSource (fun _ hmem => block.normal_of_mem_code _ (hfast ▸ hmem)) _ _).symm

/-! ## Idioms -/

/-- The commands of the loops that one operation takes the place of. -/
inductive Idiom : List Char → Prop where
  | clear : Idiom ['[', '-', ']']
  | scan (d : Direction) {stride : Nat} (stride_pos : 0 < stride) :
      Idiom ('[' :: (List.replicate stride (Primitive.move d).symbol ++ [']']))
  | carry (d : Direction) {distance : Nat} (distance_pos : 0 < distance) :
      Idiom ('[' :: '-' :: (List.replicate distance (Primitive.move d).symbol ++
        '+' :: (List.replicate distance (Primitive.move d.flip).symbol ++ [']'])))

/-- There is no loop in the body of such a loop. -/
theorem Idiom.not_nested {commands : List Char} (hidiom : Idiom commands) :
    commands[1]? ≠ some '[' := by
  cases hidiom with
  | clear => decide
  | @scan d stride stride_pos =>
      obtain ⟨rest, rfl⟩ := Nat.exists_eq_add_one_of_ne_zero (Nat.ne_of_gt stride_pos)
      cases d <;> simp [List.replicate_succ, Primitive.symbol]
  | carry d distance_pos => simp

theorem commands_loopRow (start : Nat) (body : List Primitive) :
    (Machine.loopRow start body).flatMap Instruction.commands =
      '[' :: (body.map Primitive.symbol ++ [']']) := by
  have hbody : (body.map (Instruction.repeated · 1)).flatMap Instruction.commands =
      body.map Primitive.symbol := by
    rw [List.flatMap_map, List.map_eq_flatMap]
    rfl
  rw [Machine.loopRow, List.flatMap_cons, List.flatMap_append, hbody, List.flatMap_singleton]
  rfl

theorem World.Fuses.idiom {body : List Primitive} {op : Operation} {arg : Nat}
    (hfuses : World.Fuses body op arg) : Idiom ('[' :: (body.map Primitive.symbol ++ [']'])) := by
  cases hfuses with
  | zero => exact .clear
  | scan d stride_pos =>
      rw [List.map_replicate]
      exact .scan d stride_pos
  | carry d distance_pos =>
      simp only [World.carryBody, List.cons_append, List.map_cons, List.map_append,
        List.map_replicate, List.append_assoc]
      exact .carry d distance_pos

end TapeLang
