import TapeLang.Proofs.Machine.Step

/-!
# Machines in lockstep

Two machines run the same program from states that need not be the same.  If the states agree in
what decides about a step, then both machines take the same step; if the states that it leads to
agree again, both machines stay in lockstep until they halt, within the same budget
(`run_lockstep`).

What decides about a step is the counter and the tape.  `Machine.Parallel` says that related states
agree in these, and that whatever else is in a state is carried along: the records that are made,
and the uses of the streams.  Then a step leads from related states to related states
(`step_related`).
-/

namespace TapeLang

/-- Two steps with the same result, but for the states that they lead to. -/
inductive Step.Related (related : State → State → Prop) : Step → Step → Prop where
  | next {s t : State} (hrelated : related s t) : Related related (.next s) (.next t)
  | stop (reason : Stop) {s t : State} (hrelated : related s t) :
      Related related (.stop reason s) (.stop reason t)
  | endless : Related related .endless .endless

namespace Machine

/-- Two machines do the same in states that are related before a step, and what they do leads to
states that are related after it. -/
structure Parallel (m n : Machine) (before after : State → State → Prop) : Prop where
  program : n.program = m.program
  memory : n.memory = m.memory
  pc : ∀ {s t}, before s t → t.pc = s.pc
  tape : ∀ {s t}, before s t → t.tape = s.tape
  note : ∀ op arg {s t}, before s t → before (m.note op arg s) (n.note op arg t)
  countLoop : ∀ last {s t}, before s t → before (m.countLoop last s) (n.countLoop last t)
  stay : ∀ {s t}, before s t → after s t
  jump : ∀ pc {s t}, before s t → after { s with pc } { t with pc }
  change : ∀ tape {s t}, before s t → after { s with tape } { t with tape }
  write : ∀ count {s t}, before s t → after (s.writeOut count) (t.writeOut count)
  read : ∀ count {s t}, before s t → after ((m.flush s).readInto count) ((n.flush t).readInto count)
  advance : ∀ {s t}, after s t → after { s with pc := s.pc + 1 } { t with pc := t.pc + 1 }

variable {m n : Machine} {before after related : State → State → Prop} {s t : State}

/-! ## Steps -/

namespace Parallel

theorem stopWith_related (hparallel : m.Parallel n before after) (hrelated : before s t)
    (tape : Tape) (cause : FaultCause) :
    Step.Related after (({ s with tape } : State).stopWith cause)
      (({ t with tape } : State).stopWith cause) := by
  have hreason :
      ({ t with tape } : State).faultOf cause = ({ s with tape } : State).faultOf cause := by
    simp only [State.faultOf, State.dp, hparallel.pc hrelated]
  rw [State.stopWith, State.stopWith, hreason]
  exact .stop _ (hparallel.change tape hrelated)

/-- The tape of the second state may be named after the first one. -/
private theorem eq_with_tape (hparallel : m.Parallel n before after) (hrelated : before s t) :
    ({ t with tape := s.tape } : State) = t := by
  rw [← hparallel.tape hrelated]

theorem moveTo_related (hparallel : m.Parallel n before after) (hrelated : before s t)
    (target : Int) : Step.Related after (s.moveTo target) (t.moveTo target) := by
  rw [State.moveTo, State.moveTo, hparallel.tape hrelated]
  cases s.tape.moveTo? target with
  | some tape => exact .next (hparallel.change tape hrelated)
  | none =>
      have hstop := hparallel.stopWith_related hrelated s.tape (.outOfBounds target)
      rwa [hparallel.eq_with_tape hrelated] at hstop

theorem scan_related (hparallel : m.Parallel n before after) (hrelated : before s t)
    (stride : Int) : Step.Related after (s.scan stride) (t.scan stride) := by
  rw [State.scan, State.scan, hparallel.tape hrelated]
  cases s.tape.scan stride with
  | found tape => exact .next (hparallel.change tape hrelated)
  | blocked tape target => exact hparallel.stopWith_related hrelated tape (.outOfBounds target)
  | endless => exact .endless

theorem carryTo_related (hparallel : m.Parallel n before after) (hrelated : before s t)
    (target : Int) : Step.Related after (s.carryTo target) (t.carryTo target) := by
  rw [State.carryTo, State.carryTo, hparallel.tape hrelated]
  split
  · exact .next (hparallel.stay hrelated)
  · cases s.tape.carryTo? target with
    | some tape => exact .next (hparallel.change tape hrelated)
    | none =>
        have hstop := hparallel.stopWith_related hrelated s.tape (.outOfBounds target)
        rwa [hparallel.eq_with_tape hrelated] at hstop

theorem writeOut_related (hparallel : m.Parallel n before after) (hrelated : before s t)
    (count : Int) : Step.Related after (m.writeOut count s) (n.writeOut count t) := by
  rw [Machine.writeOut, Machine.writeOut, hparallel.memory]
  cases m.memory.shortage? count with
  | none => exact .next (hparallel.write count hrelated)
  | some shortage => exact .stop _ (hparallel.stay hrelated)

theorem performPrimitive_related (hparallel : m.Parallel n before after) (hrelated : before s t)
    (p : Primitive) (count : Int) :
    Step.Related after (m.performPrimitive p count s) (n.performPrimitive p count t) := by
  cases p with
  | move d =>
      rw [performPrimitive, performPrimitive, State.dp, State.dp, hparallel.tape hrelated]
      exact hparallel.moveTo_related hrelated _
  | add =>
      rw [performPrimitive, performPrimitive, hparallel.tape hrelated]
      exact .next (hparallel.change _ hrelated)
  | sub =>
      rw [performPrimitive, performPrimitive, hparallel.tape hrelated]
      exact .next (hparallel.change _ hrelated)
  | write => exact hparallel.writeOut_related hrelated count
  | read => exact .next (hparallel.read count.toNat hrelated)

theorem perform_related (hparallel : m.Parallel n before after) (hrelated : before s t)
    (op : Operation) (arg : Int) :
    Step.Related after (m.perform op arg s) (n.perform op arg t) := by
  have htape := hparallel.tape hrelated
  have hcell : t.tape.cell = s.tape.cell := congrArg Tape.cell htape
  cases op with
  | primitive p => exact hparallel.performPrimitive_related hrelated p arg
  | jumpIfZero =>
      rw [perform, perform, hcell]
      split
      · exact .next (hparallel.jump arg (hparallel.countLoop arg hrelated))
      · exact .next (hparallel.stay hrelated)
  | jumpIfNonzero =>
      rw [perform, perform, hcell]
      split
      · exact .next (hparallel.stay hrelated)
      · exact .next (hparallel.jump arg hrelated)
  | zero =>
      rw [perform, perform, htape]
      exact .next (hparallel.change _ hrelated)
  | scan d => exact hparallel.scan_related hrelated _
  | carry d =>
      rw [perform, perform, State.dp, State.dp, htape]
      exact hparallel.carryTo_related hrelated _

theorem step_related (hparallel : m.Parallel n before after) (hrelated : before s t) :
    Step.Related after (m.step s) (n.step t) := by
  have hpc := hparallel.pc hrelated
  rw [step, step, hparallel.program, hpc]
  split
  · exact .stop _ (hparallel.stay hrelated)
  · rename_i label _ _ _
    have hstop := hparallel.stopWith_related hrelated s.tape (.unrecognized label)
    rwa [hparallel.eq_with_tape hrelated] at hstop
  · rename_i op arg _
    have hperform := hparallel.perform_related (hparallel.note op arg hrelated) op arg
    generalize m.perform op arg _ = first, n.perform op arg _ = second at hperform ⊢
    cases hperform with
    | next hafter => exact .next (hparallel.advance hafter)
    | stop reason hafter => exact .stop reason hafter
    | endless => exact .endless

end Parallel

/-! ## Runs -/

/-- Machines whose steps are related halt in related states, for the same reason.  It is enough that
the steps are related on the way to where the first machine halts. -/
theorem run_lockstep {halt : Halt} (hprogram : n.program = m.program)
    (hpc : ∀ {s t}, related s t → t.pc = s.pc)
    (hstep : ∀ {s t}, related s t → s.pc < m.program.size → m.Halts s halt →
      Step.Related related (m.step s) (n.step t))
    (hflush : ∀ {s t}, related s t → related (m.flush s) (n.flush t)) {budget : Nat}
    (hrelated : related s t) (hrun : m.run budget s = some halt) :
    ∃ other, n.run budget t = some other ∧ other.stop? = halt.stop? ∧
      related halt.state other.state := by
  induction budget generalizing s t with
  | zero => cases hrun
  | succ budget ih =>
      have hhalts : m.Halts s halt := ⟨budget + 1, hrun⟩
      rw [run] at hrun ⊢
      rw [hprogram, hpc hrelated]
      split at hrun
      · rename_i hinside
        rw [if_pos hinside]
        have hsteps := hstep hrelated hinside hhalts
        generalize m.step s = first, n.step t = second at hrun hsteps
        cases hsteps with
        | next hafter => exact ih hafter hrun
        | stop reason hafter =>
            cases hrun
            exact ⟨_, rfl, rfl, hflush hafter⟩
        | endless => cases hrun
      · rename_i houtside
        rw [if_neg houtside]
        cases hrun
        exact ⟨_, rfl, rfl, hflush hrelated⟩

end Machine

end TapeLang
