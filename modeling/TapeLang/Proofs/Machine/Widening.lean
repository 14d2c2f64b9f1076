import TapeLang.Proofs.Machine.Progress
import TapeLang.Proofs.Machine.Stop
import TapeLang.Proofs.Simulation
import TapeLang.Proofs.Tape.Widening

/-!
# Runs on a larger tape

A run on a larger tape is the same run with zero cells behind the tape (`State.widened`), as long as
no instruction asks for one of these cells.  The step that does is an access violation on the
smaller tape, and it goes through on the larger one (`Step.Widens`).  So this is the only place
where the two runs can part (`larger_tape_keeps_run`).
-/

namespace TapeLang

/-- The state with zero cells behind its tape. -/
def State.widened (extra : Nat) (s : State) : State :=
  { s with tape := s.tape.widened extra }

/-- The run was stopped because of a position that does not lie on the tape. -/
def Halt.Violates (halt : Halt) (target : Int) : Prop :=
  ∃ fault, halt.stop? = some (.fault fault) ∧ fault.cause = .outOfBounds target

/-- What becomes of a step on a wider tape: nothing else, or it goes through because the position
that it asks for is new. -/
inductive Step.Widens (extra : Nat) : Step → Step → Prop where
  | next (s : State) : Widens extra (.next s) (.next (s.widened extra))
  | stop (reason : Stop) (s : State) :
      Widens extra (.stop reason s) (.stop reason (s.widened extra))
  | endless : Widens extra .endless .endless
  | freed {s after : State} {target : Int} (hnew : s.tape.IsNew extra target) :
      Widens extra (s.stopWith (.outOfBounds target)) (.next after)

/-! ## Operations -/

namespace State

@[simp] theorem tape_widened (extra : Nat) (s : State) :
    (s.widened extra).tape = s.tape.widened extra := rfl

theorem moveTo_widens (extra : Nat) (s : State) (target : Int) :
    Step.Widens extra (s.moveTo target) ((s.widened extra).moveTo target) := by
  rw [moveTo, moveTo, tape_widened]
  cases hmoved : s.tape.moveTo? target with
  | some tape =>
      rw [Tape.moveTo?_widened_of_some extra hmoved]
      exact .next { s with tape }
  | none =>
      by_cases hnew : s.tape.IsNew extra target
      · obtain ⟨tape, hwide⟩ := Tape.exists_moveTo? (Tape.holds_widened_iff.mpr (.inr hnew))
        rw [hwide]
        exact .freed hnew
      · rw [Tape.moveTo?_widened_of_none hmoved hnew]
        exact .stop _ s

theorem scan_widens (extra : Nat) (s : State) (stride : Int) :
    Step.Widens extra (s.scan stride) ((s.widened extra).scan stride) := by
  rw [scan, scan, tape_widened]
  rcases s.tape.scan_widened extra stride with hsame | ⟨last, target, found, hnew, hblocked, hwide⟩
  · rw [hsame]
    cases s.tape.scan stride with
    | found tape => exact .next { s with tape }
    | blocked tape target => exact .stop _ { s with tape }
    | endless => exact .endless
  · rw [hblocked, hwide]
    exact .freed (s := { s with tape := last }) hnew

theorem carryTo_widens (extra : Nat) (s : State) (target : Int) :
    Step.Widens extra (s.carryTo target) ((s.widened extra).carryTo target) := by
  rw [carryTo, carryTo, tape_widened, Tape.cell_widened]
  split
  · exact .next s
  · cases hcarried : s.tape.carryTo? target with
    | some tape =>
        rw [Tape.carryTo?_widened_of_some hcarried]
        exact .next { s with tape }
    | none =>
        by_cases hnew : s.tape.IsNew extra target
        · obtain ⟨tape, hwide⟩ := Option.ne_none_iff_exists'.mp fun hrefused =>
            Tape.carryTo?_eq_none_iff.mp hrefused (Tape.holds_widened_iff.mpr (.inr hnew))
          rw [hwide]
          exact .freed hnew
        · rw [Tape.carryTo?_widened_of_none hcarried hnew]
          exact .stop _ s

theorem readByte_widened (extra : Nat) (s : State) :
    (s.widened extra).readByte = (s.readByte.1, s.readByte.2.widened extra) := by
  have hinput : (s.widened extra).input = s.input := rfl
  rw [readByte, readByte, hinput]
  cases s.input <;> rfl

theorem readInto_widened (extra : Nat) (s : State) (count : Nat) :
    (s.widened extra).readInto count = (s.readInto count).widened extra := by
  induction count generalizing s with
  | zero => rfl
  | succ count ih =>
      simp only [readInto, readByte_widened]
      rw [← ih]
      simp only [widened, Tape.write_widened]

end State

namespace Machine

variable {m : Machine} {s t : State} {extra : Nat}

theorem flush_widened (extra : Nat) (s : State) :
    m.flush (s.widened extra) = (m.flush s).widened extra := by
  unfold flush
  split <;> rfl

theorem note_widened (op : Operation) (arg : Int) (s : State) :
    m.note op arg (s.widened extra) = (m.note op arg s).widened extra := by
  unfold note
  split
  · simp [State.widened, State.dp]
  · rfl

theorem countLoop_widened (last : Int) (s : State) :
    m.countLoop last (s.widened extra) = (m.countLoop last s).widened extra := by
  unfold countLoop
  split <;> rfl

theorem writeOut_widens (count : Int) (s : State) :
    Step.Widens extra (m.writeOut count s) (m.writeOut count (s.widened extra)) := by
  unfold writeOut
  split
  · have hwide : (s.widened extra).writeOut count = (s.writeOut count).widened extra := by
      simp only [State.writeOut, State.widened, Tape.cell_widened]
      rfl
    rw [hwide]
    exact .next _
  · exact .stop _ s

theorem performPrimitive_widens (p : Primitive) (count : Int) (s : State) :
    Step.Widens extra (m.performPrimitive p count s)
      (m.performPrimitive p count (s.widened extra)) := by
  cases p with
  | move d => exact s.moveTo_widens extra _
  | add =>
      rw [performPrimitive, performPrimitive, State.tape_widened, Tape.add_widened]
      exact .next { s with tape := s.tape.add count }
  | sub =>
      rw [performPrimitive, performPrimitive, State.tape_widened, Tape.add_widened]
      exact .next { s with tape := s.tape.add (-count) }
  | write => exact writeOut_widens count s
  | read =>
      rw [performPrimitive, performPrimitive, flush_widened, State.readInto_widened]
      exact .next _

theorem perform_widens (extra : Nat) (op : Operation) (arg : Int) (s : State) :
    Step.Widens extra (m.perform op arg s) (m.perform op arg (s.widened extra)) := by
  cases op with
  | primitive p => exact performPrimitive_widens p arg s
  | jumpIfZero =>
      rw [perform, perform, countLoop_widened, State.tape_widened, Tape.cell_widened]
      split
      · exact .next { m.countLoop arg s with pc := arg }
      · exact .next s
  | jumpIfNonzero =>
      rw [perform, perform, State.tape_widened, Tape.cell_widened]
      split
      · exact .next s
      · exact .next { s with pc := arg }
  | zero =>
      rw [perform, perform, State.tape_widened, Tape.write_widened]
      exact .next { s with tape := s.tape.write 0 }
  | scan d => exact s.scan_widens extra _
  | carry d => exact s.carryTo_widens extra _

/-- On a wider tape a step does the same, or it is no longer refused. -/
theorem step_widens (m : Machine) (extra : Nat) (s : State) :
    Step.Widens extra (m.step s) (m.step (s.widened extra)) := by
  have hpc : (s.widened extra).pc = s.pc := rfl
  rw [step, step, hpc]
  split
  · exact .stop _ s
  · exact .stop _ s
  · rename_i op arg _
    rw [note_widened]
    have hperform := perform_widens (m := m) extra op arg (m.note op arg s)
    generalize m.perform op arg ((m.note op arg s).widened extra) = wide,
      m.perform op arg (m.note op arg s) = narrow at hperform ⊢
    cases hperform with
    | next after => exact .next { after with pc := after.pc + 1 }
    | stop reason last => exact .stop reason last
    | endless => exact .endless
    | freed hnew => exact .freed hnew

/-- A position that a step is refused does not lie on the tape. -/
theorem not_holds_of_step {last : State} {fault : Fault} {target : Int}
    (hstep : m.step s = .stop (.fault fault) last) (hcause : fault.cause = .outOfBounds target) :
    ¬ s.tape.Holds target := by
  have hstops : m.StopsFor s (.outOfBounds target) := hcause ▸ stopsFor_of_step hstep
  obtain ⟨-, -, -, -, houtside⟩ := stopsFor_outOfBounds_iff.mp hstops
  exact houtside

/-- A step that stops does so on a wider tape, unless it is a violation at a new cell. -/
theorem step_widened_of_stop {reason : Stop} {last : State} (hstep : m.step s = .stop reason last)
    (hold : ∀ fault target, reason = .fault fault → fault.cause = .outOfBounds target →
      ¬ s.tape.IsNew extra target) :
    m.step (s.widened extra) = .stop reason (last.widened extra) := by
  have hsize : last.tape.size = s.tape.size :=
    congrArg Array.size (sameButHead_of_step hstep).cells
  have hwidens := m.step_widens extra s
  rw [hstep] at hwidens
  generalize m.step (s.widened extra) = wide at hwidens ⊢
  cases hwidens with
  | stop => rfl
  | @freed _ after target hnew =>
      refine absurd ?_ (hold _ target rfl rfl)
      rwa [Tape.IsNew, hsize] at hnew

/-- A violation at a new cell is gone on the wider tape. -/
theorem freed_of_step {last : State} {fault : Fault} {target : Int}
    (hstep : m.step s = .stop (.fault fault) last) (hcause : fault.cause = .outOfBounds target)
    (hnew : s.tape.IsNew extra target) : ∃ after, m.step (s.widened extra) = .next after := by
  have hwidens := m.step_widens extra s
  rw [hstep] at hwidens
  cases hwide : m.step (s.widened extra) with
  | next after => exact ⟨after, rfl⟩
  | stop reason wide =>
      rw [hwide] at hwidens
      cases hwidens
      exact absurd (Tape.holds_widened_iff.mpr (.inr hnew)) (not_holds_of_step hwide hcause)
  | endless =>
      rw [hwide] at hwidens
      cases hwidens

/-! ## Runs -/

theorem goes_widened {n : Nat} (hgoes : m.system.Goes n s t) :
    m.system.Goes n (s.widened extra) (t.widened extra) := by
  induction hgoes with
  | refl s => exact .refl _
  | @step n s middle t hturn _ ih =>
      obtain ⟨hinside, hstep⟩ := step_of_turn hturn
      have hwidens := m.step_widens extra s
      rw [hstep] at hwidens
      generalize hwide : m.step (s.widened extra) = wide at hwidens
      cases hwidens
      exact .step (turn_of_next hinside hwide) ih

theorem size_tape_of_goes {n : Nat} (hgoes : m.system.Goes n s t) :
    t.tape.size = s.tape.size := by
  apply hgoes.preserves
  · intro middle after hsize hturn
    rw [size_tape_of_step (step_of_turn hturn).2, hsize]
  · rfl

theorem halts_widened {halt : Halt} (hhalts : m.Halts s halt)
    (hold : ∀ target, halt.Violates target → ¬ s.tape.IsNew extra target) :
    m.Halts (s.widened extra) ⟨halt.state.widened extra, halt.stop?⟩ := by
  obtain ⟨n, t, hgoes, hended⟩ := System.exists_goes_of_halts (system_halts_iff.mpr hhalts)
  apply system_halts_iff.mp
  apply (goes_widened hgoes).halts
  apply System.halts_of_ended
  rcases ended_of_turn hended with ⟨hend, rfl⟩ | ⟨hinside, reason, last, hstep, rfl⟩
  · rw [← flush_widened]
    exact turn_of_end hend
  · rw [← flush_widened]
    refine turn_of_stop hinside (step_widened_of_stop hstep ?_)
    rintro fault target rfl hcause hnew
    rw [Tape.IsNew, size_tape_of_goes hgoes] at hnew
    exact hold target ⟨fault, rfl, hcause⟩ hnew

/-- A run that is stopped by a violation at a new cell is not stopped there on the wider tape. -/
theorem goes_freed {halt : Halt} {target : Int} (hhalts : m.Halts s halt)
    (hviolates : halt.Violates target) (hnew : s.tape.IsNew extra target) :
    ∃ n t after, m.system.Goes n s t ∧ m.system.Goes n (s.widened extra) (t.widened extra) ∧
      t.pc = halt.state.pc ∧ m.step (t.widened extra) = .next after := by
  obtain ⟨fault, hstop, hcause⟩ := hviolates
  obtain ⟨n, t, hgoes, hended⟩ := System.exists_goes_of_halts (system_halts_iff.mpr hhalts)
  rcases ended_of_turn hended with ⟨-, rfl⟩ | ⟨hinside, reason, last, hstep, rfl⟩
  · cases hstop
  · cases hstop
    have hpc := (sameButHead_of_step hstep).pc
    rw [Tape.IsNew, ← size_tape_of_goes hgoes] at hnew
    obtain ⟨after, hafter⟩ := freed_of_step hstep hcause hnew
    exact ⟨n, t, after, hgoes, goes_widened hgoes, by rw [pc_flush, hpc], hafter⟩

theorem initial_widened {small large : TapeLength} (input : List UInt8)
    (hle : small.val ≤ large.val) :
    (State.initial small input).widened (large.val - small.val) = .initial large input := by
  have hlarge : large.val = small.val + (large.val - small.val) := by omega
  have hblank := Tape.blank_widened hlarge
  rw [State.widened, State.initial, hblank]
  rfl

/-- A larger tape changes nothing but the number of cells, unless the run is stopped because it asks
for a cell that only the larger tape has.  Up to there the runs are the same, and the one on the
larger tape goes on. -/
theorem larger_tape_keeps_run {m : Machine} {small large : TapeLength} {input : List UInt8}
    {halt : Halt} (hle : small.val ≤ large.val) (hhalts : m.Halts (.initial small input) halt) :
    ((∀ target, halt.Violates target → target < small.val ∨ large.val ≤ target) →
      ∃ wide, m.Halts (.initial large input) wide ∧ wide.stop? = halt.stop? ∧
        wide.state = halt.state.widened (large.val - small.val)) ∧
    ∀ target, halt.Violates target → small.val ≤ target → target < large.val →
      ∃ n s after, m.system.Goes n (.initial small input) s ∧
        m.system.Goes n (.initial large input) (s.widened (large.val - small.val)) ∧
        s.pc = halt.state.pc ∧ m.step (s.widened (large.val - small.val)) = .next after := by
  have hnew (target : Int) :
      (State.initial small input).tape.IsNew (large.val - small.val) target ↔
        small.val ≤ target ∧ target < large.val := by
    rw [Tape.IsNew, State.initial, Tape.size_blank]
    omega
  rw [← initial_widened input hle]
  constructor
  · intro hold
    refine ⟨_, halts_widened hhalts ?_, rfl, rfl⟩
    intro target hviolates
    rw [hnew]
    have houtside := hold target hviolates
    omega
  · intro target hviolates hlow hhigh
    exact goes_freed hhalts hviolates ((hnew target).mpr ⟨hlow, hhigh⟩)

theorem larger_tape_keeps_run_of_moves :
    let m : Machine := { program := .ofList [.repeated (.move .right) 2, .repeated .add 7] }
    ∃ halt wide, m.Halts (.initial ⟨3, by decide⟩ []) halt ∧
      m.Halts (.initial ⟨5, by decide⟩ []) wide ∧ wide.stop? = none ∧
      wide.state.tape.cells = #[0, 0, 7, 0, 0] := by
  intro m
  have hhalts : m.Halts (.initial ⟨3, by decide⟩ []) _ := ⟨3, rfl⟩
  have hle : (⟨3, by decide⟩ : TapeLength).val ≤ (⟨5, by decide⟩ : TapeLength).val := by decide
  obtain ⟨hkeeps, -⟩ := larger_tape_keeps_run hle hhalts
  obtain ⟨wide, hwide, hstop, hstate⟩ := hkeeps (by rintro target ⟨fault, hnone, -⟩; cases hnone)
  exact ⟨_, wide, hhalts, hwide, hstop, by rw [hstate]; rfl⟩

end Machine

end TapeLang
