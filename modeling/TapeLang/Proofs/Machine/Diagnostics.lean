import TapeLang.Proofs.Machine.Lockstep
import TapeLang.Proofs.Machine.Passing
import TapeLang.Proofs.Machine.Streams

/-!
# Traces and profiles do not interfere

A machine may keep a trace and a profile, and a run may begin with a profile of earlier runs.  All
this is written and never read: states that differ in nothing but these records
(`State.SameButRecords`) lead to such states again, whatever each machine keeps a record of.

So the loops that a run passes by do not depend on what is recorded either.  They are recorded one
after another behind what has been recorded before (`profile_of_run`).
-/

namespace TapeLang

/-- The states differ in their traces and in their profiles.  The output and the number of bytes
consumed are views of the log. -/
structure State.SameButRecords (s t : State) : Prop where
  pc : t.pc = s.pc
  tape : t.tape = s.tape
  input : t.input = s.input
  log : t.log = s.log

/-- The state before a run, with the loops that were recorded earlier. -/
def State.recording (earlier : List String) (length : TapeLength) (input : List UInt8) : State :=
  { State.initial length input with profile := ({} : Profile).recordAll earlier }

/-- The machines differ in what they keep a record of. -/
structure Machine.SameButRecords (m n : Machine) : Prop where
  program : n.program = m.program
  memory : n.memory = m.memory
  flushes : n.flushes = m.flushes

namespace State.SameButRecords

variable {s t : State} {m n : Machine}

theorem symm (hsame : s.SameButRecords t) : t.SameButRecords s :=
  ⟨hsame.pc.symm, hsame.tape.symm, hsame.input.symm, hsame.log.symm⟩

theorem logged (hsame : s.SameButRecords t) (event : StreamEvent) :
    (s.logged event).SameButRecords (t.logged event) where
  pc := hsame.pc
  tape := hsame.tape
  input := hsame.input
  log := congrArg (·.push event) hsame.log

theorem readByte (hsame : s.SameButRecords t) :
    s.readByte.2.SameButRecords t.readByte.2 := by
  rw [readByte_eq, readByte_eq, hsame.input]
  have hleft : ({ s with input := s.input.tail } : State).SameButRecords
      { t with input := s.input.tail } := { hsame with input := rfl }
  exact hleft.logged _

theorem readInto (hsame : s.SameButRecords t) (count : Nat) :
    (s.readInto count).SameButRecords (t.readInto count) := by
  induction count generalizing s t with
  | zero => exact hsame
  | succ count ih =>
      have hafter := hsame.readByte
      have hbyte : t.readByte.1 = s.readByte.1 := by
        rw [readByte_eq, readByte_eq, inputAt, inputAt, hsame.input]
      rw [readInto_succ, readInto_succ]
      exact ih { hafter with tape := by rw [hbyte, hafter.tape] }

end State.SameButRecords

namespace Machine

variable {m n : Machine} {s t : State}

theorem SameButRecords.symm (hmachines : m.SameButRecords n) : n.SameButRecords m :=
  ⟨hmachines.program.symm, hmachines.memory.symm, hmachines.flushes.symm⟩

theorem SameButRecords.flush (hmachines : m.SameButRecords n) (hsame : s.SameButRecords t) :
    (m.flush s).SameButRecords (n.flush t) := by
  rw [Machine.flush, Machine.flush, hmachines.flushes]
  split
  · exact hsame.logged .flush
  · exact hsame

theorem parallel_records (hmachines : m.SameButRecords n) :
    m.Parallel n State.SameButRecords State.SameButRecords where
  program := hmachines.program
  memory := hmachines.memory
  pc hsame := hsame.pc
  tape hsame := hsame.tape
  note op arg s t hsame := by
    unfold note
    split <;> split <;> exact { hsame with }
  countLoop last s t hsame := by
    unfold countLoop
    split <;> split <;> exact { hsame with }
  stay hsame := hsame
  jump pc s t hsame := { hsame with pc := rfl }
  change tape s t hsame := { hsame with tape := rfl }
  write count s t hsame := by
    rw [State.writeOut, State.writeOut, hsame.tape]
    exact hsame.logged _
  read count s t hsame := (hmachines.flush hsame).readInto count
  advance hsame := { hsame with pc := congrArg (· + 1) hsame.pc }

/-- Within the same budget, both runs are over, and they end in the same way. -/
theorem run_sameButRecords (hmachines : m.SameButRecords n) (hsame : s.SameButRecords t)
    {budget : Nat} {halt : Halt} (hrun : m.run budget s = some halt) :
    ∃ other, n.run budget t = some other ∧ other.stop? = halt.stop? ∧
      halt.state.SameButRecords other.state :=
  run_lockstep hmachines.program (fun hsame => hsame.pc)
    (fun hsame _ _ => (parallel_records hmachines).step_related hsame)
    (fun hsame => hmachines.flush hsame) hsame hrun

theorem exists_turn_sameButRecords (hmachines : m.SameButRecords n) (hsame : s.SameButRecords t)
    {after : State} (hturn : m.system.turn s = .next after) :
    ∃ later, n.system.turn t = .next later ∧ after.SameButRecords later := by
  obtain ⟨hinside, hstep⟩ := step_of_turn hturn
  have hsteps := (parallel_records hmachines).step_related hsame
  rw [hstep] at hsteps
  rw [← hsame.pc, ← hmachines.program] at hinside
  cases hlater : n.step t with
  | next later =>
      rw [hlater] at hsteps
      cases hsteps with
      | next hafter => exact ⟨later, turn_of_next hinside hlater, hafter⟩
  | stop reason last =>
      rw [hlater] at hsteps
      cases hsteps
  | endless =>
      rw [hlater] at hsteps
      cases hsteps

/-! ## The loops that a run passes by -/

/-- The sources of the loops that a run passes by within a budget, in order. -/
def passedWithin (m : Machine) (budget : Nat) (s : State) : List String :=
  m.passedSources (m.system.starts budget s)

theorem passedWithin_of_next {after : State} (hturn : m.system.turn s = .next after)
    (budget : Nat) :
    m.passedWithin (budget + 1) s = m.passedSources [s] ++ m.passedWithin budget after := by
  rw [passedWithin, System.starts_succ hturn, ← List.singleton_append, passedSources_append,
    ← passedWithin]

theorem passedWithin_of_not_next (hturn : ∀ after, m.system.turn s ≠ .next after) (budget : Nat) :
    m.passedWithin budget s = [] := by
  cases budget with
  | zero => rfl
  | succ budget =>
      rw [passedWithin, System.starts]
      split
      · rename_i after hnext
        exact absurd hnext (hturn after)
      · rfl

theorem passedSources_sameButRecords (hmachines : m.SameButRecords n) (hsame : s.SameButRecords t) :
    n.passedSources [t] = m.passedSources [s] := by
  have hpassed : n.passed? t = m.passed? s := by
    rw [passed?, passed?, hmachines.program, hsame.pc, hsame.tape]
  simp only [passedSources, List.filterMap_cons, hpassed, hmachines.program, List.filterMap_nil]

/-- Which loops a run passes by does not depend on what is recorded. -/
theorem passedWithin_sameButRecords (hmachines : m.SameButRecords n) (hsame : s.SameButRecords t)
    (budget : Nat) : n.passedWithin budget t = m.passedWithin budget s := by
  induction budget generalizing s t with
  | zero => rfl
  | succ budget ih =>
      by_cases hnext : ∃ after, m.system.turn s = .next after
      · obtain ⟨after, hturn⟩ := hnext
        obtain ⟨later, hlater, hafter⟩ := exists_turn_sameButRecords hmachines hsame hturn
        rw [passedWithin_of_next hturn, passedWithin_of_next hlater, ih hafter,
          passedSources_sameButRecords hmachines hsame]
      · rw [passedWithin_of_not_next fun after hturn => hnext ⟨after, hturn⟩,
          passedWithin_of_not_next]
        intro later hlater
        obtain ⟨after, hturn, -⟩ := exists_turn_sameButRecords hmachines.symm hsame.symm hlater
        exact hnext ⟨after, hturn⟩

/-- A run ends with all loops recorded that it passes by, behind the records that it begins with. -/
theorem profile_of_run (hprofiled : m.profiled = true) {budget : Nat} {halt : Halt}
    (hrun : m.run budget s = some halt) :
    halt.state.profile = s.profile.recordAll (m.passedWithin budget s) := by
  induction budget generalizing s with
  | zero => cases hrun
  | succ budget ih =>
      rw [← run_system, System.run] at hrun
      cases hturn : m.system.turn s with
      | next after =>
          rw [hturn] at hrun
          have hrest : m.run budget after = some halt := by rwa [← run_system]
          rw [passedWithin_of_next hturn, Profile.recordAll_append,
            ← profile_of_step hprofiled (step_of_turn hturn).2]
          exact ih hrest
      | ended outcome =>
          rw [hturn] at hrun
          cases hrun
          rw [passedWithin_of_not_next (by simp [hturn]), Profile.recordAll_nil]
          rcases ended_of_turn hturn with ⟨-, rfl⟩ | ⟨-, reason, last, hstep, rfl⟩
          · exact profile_flush
          · rw [profile_flush, (sameButHead_of_step hstep).profile]
      | hang =>
          rw [hturn] at hrun
          cases hrun

/-- Whatever is recorded and has been recorded, a run ends in the same way, and the loops that it
passes by are recorded behind the earlier ones. -/
theorem run_recording (hmachines : m.SameButRecords n) {earlier : List String} {length : TapeLength}
    {input : List UInt8} {budget : Nat} {halt : Halt}
    (hrun : m.run budget (.recording earlier length input) = some halt) (others : List String) :
    ∃ other, n.run budget (.recording others length input) = some other ∧
      other.stop? = halt.stop? ∧ halt.state.SameButRecords other.state ∧
      (n.profiled = true → other.state.profile =
        ({} : Profile).recordAll (others ++ n.passedWithin budget (.initial length input))) := by
  have hstart : (State.recording earlier length input).SameButRecords
      (.recording others length input) := ⟨rfl, rfl, rfl, rfl⟩
  have hfresh : (State.initial length input).SameButRecords (.recording others length input) :=
    ⟨rfl, rfl, rfl, rfl⟩
  obtain ⟨other, hother, hstop, hsame⟩ := run_sameButRecords hmachines hstart hrun
  refine ⟨other, hother, hstop, hsame, fun hprofiled => ?_⟩
  rw [profile_of_run hprofiled hother, Profile.recordAll_append]
  exact congrArg _ (passedWithin_sameButRecords ⟨rfl, rfl, rfl⟩ hfresh budget)

end Machine

end TapeLang
