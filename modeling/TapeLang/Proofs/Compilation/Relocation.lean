import TapeLang.Proofs.Compilation.Fusion
import TapeLang.Proofs.Compilation.Layout

/-!
# Code at another place

The code of a block depends on its place only through the targets of its jumps.  `relocated
distance` moves these targets along, and it turns the code at one place into the code at another
(`Block.code_add`).  That is so because a loop is fused or not wherever it stands
(`fuse?_relocated`): the bodies that are fused have no jumps in them.

So the instructions of a loop in a compiled program, with their targets moved back, are what the
loop alone would become.  The last section finds that loop: a pair of jumps encloses the body of a
loop of the block, and the instructions between them are the code of this loop
(`Block.exists_loop_of_pair`).
-/

namespace TapeLang

/-- The instruction for another place: the target of a jump is moved along. -/
def Instruction.relocated (distance : Int) (i : Instruction) : Instruction :=
  match i.opcode with
  | .known .jumpIfZero => { i with arg := i.arg + distance }
  | .known .jumpIfNonzero => { i with arg := i.arg + distance }
  | _ => i

/-- The instructions for another place. -/
def relocated (distance : Int) (row : List Instruction) : List Instruction :=
  row.map (Instruction.relocated distance)

variable {i : Instruction} {row : List Instruction} {distance : Int}

/-! ## Moving along -/

theorem Instruction.Plain.relocated_eq (hplain : i.Plain) : i.relocated distance = i := by
  unfold Instruction.relocated
  split
  · exact absurd ‹_› hplain.1
  · exact absurd ‹_› hplain.2
  · rfl

@[simp] theorem Instruction.relocated_zero (i : Instruction) : i.relocated 0 = i := by
  unfold relocated
  split <;> simp

theorem Instruction.relocated_relocated (i : Instruction) (first second : Int) :
    (i.relocated first).relocated second = i.relocated (first + second) := by
  obtain ⟨opcode, arg⟩ := i
  cases opcode with
  | known op => cases op <;> simp [relocated, Int.add_assoc]
  | foreign label unnamed => rfl

/-- The written form of a jump does not show its target. -/
@[simp] theorem Instruction.render_relocated (i : Instruction) (distance : Int) :
    (i.relocated distance).render = i.render := by
  obtain ⟨opcode, arg⟩ := i
  cases opcode with
  | known op => cases op <;> rfl
  | foreign label unnamed => rfl

@[simp] theorem length_relocated (distance : Int) (row : List Instruction) :
    (relocated distance row).length = row.length :=
  List.length_map _

@[simp] theorem relocated_append (distance : Int) (first second : List Instruction) :
    relocated distance (first ++ second) = relocated distance first ++ relocated distance second :=
  List.map_append

theorem relocated_of_plain (hplain : ∀ i, i ∈ row → i.Plain) : relocated distance row = row := by
  unfold relocated
  rw [List.map_congr_left fun i hmem => (hplain i hmem).relocated_eq, List.map_id']

/-- Moving the targets along and back changes nothing. -/
theorem relocated_neg_relocated (distance : Int) (row : List Instruction) :
    relocated (-distance) (relocated distance row) = row := by
  unfold relocated
  rw [List.map_map]
  have hback : ∀ i, (Instruction.relocated (-distance) ∘ Instruction.relocated distance) i = i := by
    intro i
    rw [Function.comp_apply, Instruction.relocated_relocated, Int.add_right_neg,
      Instruction.relocated_zero]
  rw [List.map_congr_left fun i _ => hback i, List.map_id']

/-! ## The code of a block -/

theorem fuse?_relocated (distance : Int) (row : List Instruction) :
    fuse? (relocated distance row) = fuse? row := by
  cases hfuse : fuse? row with
  | some fused =>
      rw [relocated_of_plain fun i hmem => (fused_of_fuse? hfuse).plain_of_mem hmem, hfuse]
  | none =>
      cases hmoved : fuse? (relocated distance row) with
      | none => rfl
      | some fused =>
          have hsame := relocated_neg_relocated distance row
          rw [relocated_of_plain fun i hmem => (fused_of_fuse? hmoved).plain_of_mem hmem] at hsame
          rw [hsame, hfuse] at hmoved
          cases hmoved

namespace Block

theorem loopCode_relocated (optimize : Bool) (start k : Nat) (inner : List Instruction) :
    loopCode optimize (start + k) (relocated k inner) =
      relocated k (loopCode optimize start inner) := by
  have htarget : start + k + 1 + inner.length = start + 1 + inner.length + k := by omega
  unfold loopCode
  rw [fuse?_relocated]
  cases hfuse : if optimize then fuse? inner else none with
  | some fused =>
      have hfused : Fused inner fused := by
        cases optimize with
        | true => exact fused_of_fuse? hfuse
        | false => cases hfuse
      simp only [relocated, List.map_cons, List.map_nil, hfused.plain.relocated_eq]
  | none =>
      rw [length_relocated, htarget]
      simp [relocated, Instruction.relocated]

theorem code_add (b : Block) (optimize : Bool) (place k : Nat) :
    b.code optimize (place + k) = relocated k (b.code optimize place) := by
  induction b generalizing place with
  | empty => rfl
  | run p count count_pos rest ih =>
      rw [code, code, relocated_append, relocated_of_plain fun _ hmem => plain_of_mem_runCode hmem,
        Nat.add_right_comm, ih]
  | comment c silent rest ih => exact ih place
  | loop body rest ihBody ihRest =>
      have hbody := ihBody (place + 1)
      rw [Nat.add_right_comm] at hbody
      simp only [code]
      rw [hbody, loopCode_relocated, relocated_append, length_relocated, Nat.add_right_comm, ihRest]

/-! ## The loop between two jumps -/

variable {p : Program} {optimize : Bool} {place start j : Nat}

/-- Where there are no jumps, no pair begins. -/
theorem not_pair_of_plain (hrow : p.HasAt place row) (hplain : ∀ i, i ∈ row → i.Plain)
    (hlow : place ≤ start) (hhigh : start < place + row.length) : ¬ p.Pair start j := by
  intro hpair
  obtain ⟨k, rfl⟩ := Nat.exists_eq_add_of_le hlow
  have hk : k < row.length := by omega
  have hget := hrow.getElem? (List.getElem?_eq_getElem hk)
  rw [hpair.forth, Option.some.injEq] at hget
  have hjump := hplain row[k] (List.getElem_mem hk)
  rw [← hget] at hjump
  exact hjump.1 rfl

/-- A pair in the code of a loop is that of the loop itself, or it lies in the body. -/
theorem pair_cases_of_loopCode {inner : List Instruction}
    (hloop : p.HasAt place (loopCode optimize place inner)) (hpair : p.Pair start j)
    (hlow : place ≤ start) (hhigh : start < place + (loopCode optimize place inner).length) :
    (start = place ∧ place + (loopCode optimize place inner).length = j + 1) ∨
      (p.HasAt (place + 1) inner ∧ place + 1 ≤ start ∧ start < place + 1 + inner.length) := by
  rcases loopCode_cases optimize place inner with ⟨fused, -, hfuse, hsingle⟩ | ⟨-, hjumps⟩
  · rw [hsingle] at hloop hhigh
    refine absurd hpair (not_pair_of_plain hloop (fun i hmem => ?_) hlow hhigh)
    rw [List.mem_singleton.mp hmem]
    exact (fused_of_fuse? hfuse).plain
  · have hlength : (loopCode optimize place inner).length = inner.length + 2 := by
      rw [hjumps, List.length_cons, List.length_append, List.length_singleton]
    rw [hjumps, Program.hasAt_cons, Program.hasAt_append, Program.hasAt_cons] at hloop
    obtain ⟨hforth, hinner, hback, -⟩ := hloop
    by_cases hfirst : start = place
    · subst hfirst
      have htarget := Program.arg_unique hpair.forth hforth
      exact .inl ⟨rfl, by omega⟩
    · have hlast : start ≠ place + 1 + inner.length := by
        rintro rfl
        cases hpair.forth.symm.trans hback
      exact .inr ⟨hinner, by omega, by omega⟩

/-- A pair of jumps in the code of a block is that of a loop, and the loop was not fused. -/
theorem exists_loop_of_pair (b : Block) (hcode : p.HasAt place (b.code optimize place))
    (hpair : p.Pair start j) (hlow : place ≤ start)
    (hhigh : start < place + (b.code optimize place).length) :
    ∃ body : Block, p.HasAt start ((loop body .empty).code optimize start) ∧
      start + ((loop body .empty).code optimize start).length = j + 1 := by
  induction b generalizing place with
  | empty => exact absurd hhigh (Nat.not_lt.mpr hlow)
  | run q count count_pos rest ih =>
      rw [code, Program.hasAt_append] at hcode
      rw [code, List.length_append] at hhigh
      by_cases hrun : start < place + (runCode optimize q count).length
      · refine absurd hpair (not_pair_of_plain hcode.1 (fun i hmem => ?_) hlow hrun)
        exact plain_of_mem_runCode hmem
      · exact ih hcode.2 (by omega) (by omega)
  | comment c silent rest ih => exact ih hcode hlow hhigh
  | loop body rest ihBody ihRest =>
      simp only [code] at hcode hhigh
      rw [Program.hasAt_append] at hcode
      rw [List.length_append] at hhigh
      by_cases hwhole :
          start < place + (loopCode optimize place (body.code optimize (place + 1))).length
      · rcases pair_cases_of_loopCode hcode.1 hpair hlow hwhole with
          ⟨rfl, hlength⟩ | ⟨hinner, hlowInner, hhighInner⟩
        · exact ⟨body, by rw [code_loop]; exact hcode.1, by rw [code_loop]; exact hlength⟩
        · exact ihBody hinner hlowInner hhighInner
      · exact ihRest hcode.2 (by omega) (by omega)

end Block

namespace Program

variable {p : Program}

theorem span_natCast (p : Program) (i j : Nat) : p.span i j = (p.toList.take (j + 1)).drop i := by
  have hlast : (j : Int) + 1 = (j + 1 : Nat) := rfl
  rw [span, hlast, Offset.bound_natCast, Offset.bound_natCast, Array.toList_extract,
    List.extract_eq_take_drop, List.drop_take]
  apply List.ext_getElem?
  intro k
  rw [List.getElem?_take, List.getElem?_take, List.getElem?_drop, List.getElem?_drop]
  by_cases hinside : i + k < p.size
  · have hfirst : min i p.size = i := by omega
    have hsame : k < min (j + 1) p.size - i ↔ k < j + 1 - i := by omega
    rw [hfirst]
    simp only [hsame, toList]
  · have hend : p.toList.length ≤ i + k := Nat.le_of_not_lt hinside
    rw [if_neg (by omega), List.getElem?_eq_none hend, ite_self]

/-- The instructions of a row are those between its ends. -/
theorem HasAt.span_eq {place j : Nat} (hrow : p.HasAt place row)
    (hlength : place + row.length = j + 1) : p.span place j = row := by
  have hcount : j + 1 - place = row.length := by omega
  rw [span_natCast, List.drop_take, hcount]
  exact (List.prefix_iff_eq_take.mp hrow).symm

end Program

end TapeLang
