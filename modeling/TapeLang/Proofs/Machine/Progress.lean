import TapeLang.Proofs.Machine.Step
import TapeLang.Proofs.Program.Piece
import TapeLang.Proofs.Tape.Scan

/-!
# How a step goes through

`Machine.Performs` is the inversion of `Machine.perform` for the operations that go through, as
`Machine.Stops` is for those that stop.  What a step keeps is read off its cases: the tape keeps its
size, the counter only moves on, unless the instruction is a jump, and the profile only changes
where a loop is passed by.
-/

namespace TapeLang

namespace Machine

variable {m : Machine} {s after : State} {op : Operation} {arg : Int}

@[simp] theorem tape_flush : (m.flush s).tape = s.tape := by
  unfold flush
  split <;> rfl

@[simp] theorem tape_countLoop (last : Int) : (m.countLoop last s).tape = s.tape := by
  unfold countLoop
  split <;> rfl

/-! ## Operations -/

/-- The ways in which an operation goes through, each with the state that it leads to. -/
inductive Performs (m : Machine) (arg : Int) (s : State) : Operation → State → Prop where
  | move (d : Direction) {tape : Tape}
      (htape : s.tape.moveTo? (s.tape.pos + d.offset arg) = some tape) :
      Performs m arg s (.primitive (.move d)) { s with tape }
  | add : Performs m arg s (.primitive .add) { s with tape := s.tape.add arg }
  | sub : Performs m arg s (.primitive .sub) { s with tape := s.tape.add (-arg) }
  | write (hroom : m.memory.shortage? arg = none) :
      Performs m arg s (.primitive .write) (s.writeOut arg)
  | read : Performs m arg s (.primitive .read) ((m.flush s).readInto arg.toNat)
  | pass (hcell : s.tape.cell = 0) :
      Performs m arg s .jumpIfZero { m.countLoop arg s with pc := arg }
  | enter (hcell : s.tape.cell ≠ 0) : Performs m arg s .jumpIfZero s
  | leave (hcell : s.tape.cell = 0) : Performs m arg s .jumpIfNonzero s
  | again (hcell : s.tape.cell ≠ 0) : Performs m arg s .jumpIfNonzero { s with pc := arg }
  | zero : Performs m arg s .zero { s with tape := s.tape.write 0 }
  | scan {d : Direction} {k : Nat} {tape : Tape} (hpasses : s.tape.Passes (d.offset arg) k)
      (htape : s.tape.moveTo? (s.tape.pos + k * d.offset arg) = some tape)
      (hcell : tape.cell = 0) : Performs m arg s (.scan d) { s with tape }
  | idle (d : Direction) (hcell : s.tape.cell = 0) : Performs m arg s (.carry d) s
  | carry (d : Direction) {tape : Tape} (hcell : s.tape.cell ≠ 0)
      (htape : s.tape.carryTo? (s.tape.pos + d.offset arg) = some tape) :
      Performs m arg s (.carry d) { s with tape }

theorem performs_of_perform (hperform : m.perform op arg s = .next after) :
    m.Performs arg s op after := by
  cases op with
  | primitive p =>
      cases p with
      | move d =>
          simp only [perform, performPrimitive, State.moveTo, State.dp] at hperform
          split at hperform
          · rename_i htape
            cases hperform
            exact .move d htape
          · cases hperform
      | add =>
          cases hperform
          exact .add
      | sub =>
          cases hperform
          exact .sub
      | write =>
          simp only [perform, performPrimitive, writeOut] at hperform
          split at hperform
          · rename_i hroom
            cases hperform
            exact .write hroom
          · cases hperform
      | read =>
          cases hperform
          exact .read
  | jumpIfZero =>
      simp only [perform] at hperform
      split at hperform
      · rename_i hcell
        cases hperform
        exact .pass hcell
      · rename_i hcell
        cases hperform
        exact .enter hcell
  | jumpIfNonzero =>
      simp only [perform] at hperform
      split at hperform
      · rename_i hcell
        cases hperform
        exact .leave hcell
      · rename_i hcell
        cases hperform
        exact .again hcell
  | zero =>
      cases hperform
      exact .zero
  | scan d =>
      have hends := s.tape.scanEnds_scan (d.offset arg)
      simp only [perform, State.scan] at hperform
      cases hscan : s.tape.scan (d.offset arg) with
      | found tape =>
          rw [hscan] at hperform hends
          cases hperform
          cases hends with
          | found hpasses htape hcell => exact .scan hpasses htape hcell
      | blocked tape target =>
          rw [hscan] at hperform
          cases hperform
      | endless =>
          rw [hscan] at hperform
          cases hperform
  | carry d =>
      simp only [perform, State.carryTo, State.dp] at hperform
      split at hperform
      · rename_i hcell
        cases hperform
        exact .idle d hcell
      · rename_i hcell
        split at hperform
        · rename_i htape
          cases hperform
          exact .carry d hcell htape
        · cases hperform

theorem Performs.size_tape (hperforms : m.Performs arg s op after) :
    after.tape.size = s.tape.size := by
  cases hperforms with
  | move d htape => exact Tape.size_of_moveTo? htape
  | add => exact Tape.size_add _ _
  | sub => exact Tape.size_add _ _
  | write => rfl
  | read =>
      obtain ⟨tape, input, log, hread, hsize⟩ := (m.flush s).exists_readInto arg.toNat
      rw [hread, hsize, tape_flush]
  | pass => exact congrArg Tape.size (tape_countLoop arg)
  | enter => rfl
  | leave => rfl
  | again => rfl
  | zero => exact Tape.size_write _ _
  | scan hpasses htape hcell => exact Tape.size_of_moveTo? htape
  | idle => rfl
  | carry d hcell htape => exact Tape.size_of_carryTo? htape

/-- Only a jump moves the counter, and it moves it to its target. -/
theorem Performs.pc (hperforms : m.Performs arg s op after) :
    after.pc = s.pc ∨ (op = .jumpIfZero ∨ op = .jumpIfNonzero) ∧ after.pc = arg := by
  cases hperforms with
  | read => exact .inl ((pc_readInto _).trans pc_flush)
  | pass => exact .inr ⟨.inl rfl, rfl⟩
  | again => exact .inr ⟨.inr rfl, rfl⟩
  | _ => exact .inl rfl

/-! ## Steps -/

theorem performs_of_step (hstep : m.step s = .next after) :
    ∃ op arg middle, m.program.Names s.pc (.of op arg) ∧
      m.Performs arg (m.note op arg s) op middle ∧ after = { middle with pc := middle.pc + 1 } := by
  unfold step at hstep
  split at hstep
  · cases hstep
  · cases hstep
  · rename_i op arg hget
    obtain ⟨middle, hperform, rfl⟩ := Step.map_eq_next_iff.mp hstep
    exact ⟨op, arg, middle, Program.get?_eq_some_iff.mp hget, performs_of_perform hperform, rfl⟩

theorem size_tape_of_step (hstep : m.step s = .next after) : after.tape.size = s.tape.size := by
  obtain ⟨op, arg, middle, -, hperforms, rfl⟩ := performs_of_step hstep
  rw [hperforms.size_tape, tape_note]

theorem pc_of_step (hstep : m.step s = .next after) :
    after.pc = s.pc + 1 ∨ ∃ op arg, (op = .jumpIfZero ∨ op = .jumpIfNonzero) ∧
      m.program.Names s.pc (.of op arg) ∧ after.pc = arg + 1 := by
  obtain ⟨op, arg, middle, hnames, hperforms, rfl⟩ := performs_of_step hstep
  rcases hperforms.pc with hpc | ⟨hjump, hpc⟩
  · exact .inl (by rw [hpc, pc_note])
  · exact .inr ⟨op, arg, hjump, hnames, by rw [hpc]⟩

/-! ## The profile -/

theorem profile_note (op : Operation) (arg : Int) : (m.note op arg s).profile = s.profile := by
  unfold note
  split <;> rfl

theorem profile_flush : (m.flush s).profile = s.profile := by
  unfold flush
  split <;> rfl

theorem profile_countLoop (m : Machine) (last : Int) :
    (m.countLoop last s).profile =
      if m.profiled then s.profile.record (m.program.loopSource s.pc last) else s.profile := by
  unfold countLoop
  split <;> rfl

theorem Performs.profile_eq (hperforms : m.Performs arg s op after)
    (hstay : ¬ (op = .jumpIfZero ∧ s.tape.cell = 0)) : after.profile = s.profile := by
  cases hperforms with
  | read =>
      obtain ⟨tape, input, log, hread, -⟩ := (m.flush s).exists_readInto arg.toNat
      rw [hread, profile_flush]
  | pass hcell => exact absurd ⟨rfl, hcell⟩ hstay
  | _ => rfl

/-- A step that passes no loop by leaves the profile as it is. -/
theorem profile_of_stay (hget : m.program.get? s.pc = some (.of op arg))
    (hstay : ¬ (op = .jumpIfZero ∧ s.tape.cell = 0)) (hstep : m.step s = .next after) :
    after.profile = s.profile := by
  rw [step_of_get? hget] at hstep
  obtain ⟨middle, hperform, rfl⟩ := Step.map_eq_next_iff.mp hstep
  have hprofile := (performs_of_perform hperform).profile_eq (by rwa [tape_note])
  rwa [profile_note] at hprofile

/-- A step that passes a loop by counts it. -/
theorem profile_of_pass (hget : m.program.get? s.pc = some (.of .jumpIfZero arg))
    (hcell : s.tape.cell = 0) (hstep : m.step s = .next after) :
    after.profile = (m.countLoop arg s).profile := by
  rw [step_of_get? hget] at hstep
  obtain ⟨middle, hperform, rfl⟩ := Step.map_eq_next_iff.mp hstep
  cases performs_of_perform hperform with
  | pass =>
      have hcounted : (m.countLoop arg (m.note .jumpIfZero arg s)).profile =
          (m.countLoop arg s).profile := by
        rw [profile_countLoop, profile_countLoop, profile_note, pc_note]
      exact hcounted
  | enter hnonzero =>
      rw [tape_note] at hnonzero
      exact absurd hcell hnonzero

end Machine

end TapeLang
