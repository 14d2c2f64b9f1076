import TapeLang.Crash
import TapeLang.Proofs.Machine.Stop
import TapeLang.Proofs.Simulation

/-!
# Running on after a stop

A run that was stopped can be taken up again from the state that it left.  The counter is still on
the instruction that stopped it, so this instruction is carried out once more, and it stops once
more for the same reason.

For a scan this takes an argument, because the state that it left is not the one that it started
from.  Its head stands on the last cell in front of an end of the tape.  This cell is not zero, and
the next position is the same position outside: a scan from there is blocked at once
(`Tape.scan_of_passes`).  All other operations have left everything as it was.

So nothing changes from one attempt to the next, but for the output that is flushed and the trace
(`State.StandsStill`), and any number of attempts ends like one.
-/

namespace TapeLang

/-! ## A blocked scan -/

namespace Tape

variable {t last : Tape} {stride : Int}

theorem scan_of_not_holds (hcell : t.cell ≠ 0) (houtside : ¬ t.Holds (t.pos + stride)) :
    t.scan stride = .blocked t (t.pos + stride) := by
  have hsize : t.size = (t.size - 1) + 1 := by
    have := t.pos_lt
    unfold size
    omega
  rw [scan, hsize, scanFor_of_blocked hcell (moveTo?_eq_none_iff.mpr houtside)]

/-- From the last position that a scan passes, it is blocked at once and asks for the same position
outside. -/
theorem scan_of_passes {k : Nat} (hpasses : t.Passes stride (k + 1))
    (hlast : t.moveTo? (t.pos + k * stride) = some last)
    (houtside : ¬ t.Holds (t.pos + (k + 1 : Nat) * stride)) :
    last.scan stride = .blocked last (t.pos + (k + 1 : Nat) * stride) := by
  have hcell := (nonzeroAt_target_iff hlast).mp (hpasses k (Nat.lt_succ_self k))
  have hnext : (last.pos : Int) + stride = t.pos + (k + 1 : Nat) * stride := by
    rw [pos_of_moveTo? hlast, Int.natCast_succ, Int.add_mul, Int.one_mul, Int.add_assoc]
  rw [← hnext] at houtside ⊢
  refine scan_of_not_holds hcell fun hholds => houtside ?_
  simpa only [Holds, size_of_moveTo? hlast] using hholds

end Tape

/-! ## Standing still -/

/-- Nothing has happened but that the output was flushed and that the trace has grown. -/
structure State.StandsStill (s t : State) : Prop where
  pc : t.pc = s.pc
  tape : t.tape = s.tape
  input : t.input = s.input
  log : ∃ flushes, t.log.toList = s.log.toList ++ List.replicate flushes .flush
  profile : t.profile = s.profile

namespace State.StandsStill

variable {s t u : State}

theorem refl (s : State) : s.StandsStill s :=
  ⟨rfl, rfl, rfl, ⟨0, (List.append_nil _).symm⟩, rfl⟩

theorem trans (hfirst : s.StandsStill t) (hsecond : t.StandsStill u) : s.StandsStill u := by
  obtain ⟨first, hlogFirst⟩ := hfirst.log
  obtain ⟨second, hlogSecond⟩ := hsecond.log
  refine ⟨hsecond.pc.trans hfirst.pc, hsecond.tape.trans hfirst.tape,
    hsecond.input.trans hfirst.input, ⟨first + second, ?_⟩, hsecond.profile.trans hfirst.profile⟩
  rw [hlogSecond, hlogFirst, List.append_assoc, List.replicate_append_replicate]

theorem flush (m : Machine) (s : State) : s.StandsStill (m.flush s) := by
  unfold Machine.flush
  split
  · exact ⟨rfl, rfl, rfl, ⟨1, Array.toList_push⟩, rfl⟩
  · exact .refl s

theorem output_eq (hstill : s.StandsStill t) : t.output = s.output := by
  obtain ⟨flushes, hlog⟩ := hstill.log
  simp [State.output, hlog, StreamEvent.written]

theorem consumed_eq (hstill : s.StandsStill t) : t.consumed = s.consumed := by
  obtain ⟨flushes, hlog⟩ := hstill.log
  simp [State.consumed, State.taken, hlog, StreamEvent.taken]

end State.StandsStill

/-- What is wrong where the counter stands, in words. -/
def Stop.message (pc : Int) : Stop → String
  | fault f => f.message
  | outside => (Crash.outside pc).message
  | shortage missing => (Crash.shortage missing).message

/-- What is wrong if a run was stopped, in words. -/
def Halt.message? (halt : Halt) : Option String :=
  halt.stop?.map (Stop.message halt.state.pc)

/-- A fault names only the counter and the head. -/
theorem State.stopWith_eq {t last : State} (hpc : t.pc = last.pc) (htape : t.tape = last.tape)
    (cause : FaultCause) : t.stopWith cause = .stop (.fault (last.faultOf cause)) t := by
  simp only [stopWith, faultOf, dp, hpc, htape]

namespace Machine

variable {m : Machine} {s t last : State} {op : Operation} {arg : Int} {reason : Stop}

/-! ## One more step -/

/-- An operation that has stopped stops again, for the same reason. -/
theorem Stops.again (hstops : m.Stops arg s op reason last) (hpc : t.pc = last.pc)
    (htape : t.tape = last.tape) : m.perform op arg t = .stop reason t := by
  cases hstops with
  | move d houtside =>
      simp only [perform, performPrimitive, State.moveTo, State.dp, htape,
        Tape.moveTo?_eq_none_iff.mpr houtside, State.stopWith_eq hpc htape]
  | write hshortage => simp only [perform, performPrimitive, writeOut, hshortage]
  | @scan _ _ tape hpasses hmoved houtside =>
      obtain rfl : t.tape = tape := htape
      simp only [perform, State.scan, Tape.scan_of_passes hpasses hmoved houtside]
      exact State.stopWith_eq hpc rfl _
  | carry d hcell houtside =>
      simp only [perform, State.carryTo, State.dp, htape, if_neg hcell,
        Tape.carryTo?_eq_none_iff.mpr houtside, State.stopWith_eq hpc htape]

/-- A step that has stopped stops again from where it left the machine, for the same reason, and
changes nothing but the trace. -/
theorem step_again (hstep : m.step s = .stop reason last) (hpc : t.pc = last.pc)
    (htape : t.tape = last.tape) : ∃ trace, m.step t = .stop reason { t with trace } := by
  have hsame : t.pc = s.pc := hpc.trans (sameButHead_of_step hstep).pc
  cases stepStops_of_step hstep with
  | outside hget =>
      rw [← hsame] at hget
      exact ⟨t.trace, by simp only [step, hget]⟩
  | @unrecognized label unnamed arg hnames =>
      rw [← hsame] at hnames
      exact ⟨t.trace, by
        simp only [step, Program.get?_eq_some_iff.mpr hnames, State.stopWith_eq hpc htape]⟩
  | @operation op arg _ _ hnames hstops =>
      rw [← hsame] at hnames
      obtain ⟨trace, hnote⟩ := m.exists_trace_of_note op arg t
      refine ⟨trace, step_of_stop (Program.get?_eq_some_iff.mpr hnames) ?_⟩
      rw [hnote]
      exact hstops.again hpc htape

/-! ## Any number of attempts -/

/-- `m.Retries n halt last` says that a run that ended with `halt` and is taken up `n` times in a
row ends with `last`. -/
inductive Retries (m : Machine) : Nat → Halt → Halt → Prop where
  | none (halt : Halt) : Retries m 0 halt halt
  | again {n : Nat} {halt middle last : Halt} (hretry : m.Halts halt.state middle)
      (hrest : m.Retries n middle last) : Retries m (n + 1) halt last

theorem Retries.unique {n : Nat} {halt first second : Halt} (hfirst : m.Retries n halt first)
    (hsecond : m.Retries n halt second) : first = second := by
  induction hfirst with
  | none halt =>
      cases hsecond
      rfl
  | again hretry _ ih =>
      cases hsecond with
      | again hother hrest =>
          rw [← hretry.unique hother] at hrest
          exact ih hrest

/-- One more attempt stops for the same reason, and stands still. -/
theorem retry_of_halts {halt : Halt} (hhalts : m.Halts s halt)
    (hstop : halt.stop? = some reason) :
    ∃ retried, m.Halts halt.state retried ∧ retried.stop? = some reason ∧
      halt.state.StandsStill retried.state := by
  obtain ⟨before, last, hinside, hstep, hstate⟩ := exists_step_of_halts hhalts hstop
  have hstill := State.StandsStill.flush m last
  rw [← hstate] at hstill
  have hpc := hstill.pc.trans (sameButHead_of_step hstep).pc
  obtain ⟨trace, hagain⟩ := step_again hstep hstill.pc hstill.tape
  have hturn := turn_of_stop (hpc ▸ hinside) hagain
  refine ⟨_, system_halts_iff.mp (System.halts_of_ended hturn), rfl, ?_⟩
  have htraced : halt.state.StandsStill { halt.state with trace } :=
    { State.StandsStill.refl halt.state with }
  exact htraced.trans (.flush m _)

theorem exists_retries {halt : Halt} (hhalts : m.Halts s halt) (hstop : halt.stop? = some reason)
    (n : Nat) :
    ∃ last, m.Retries n halt last ∧ last.stop? = some reason ∧
      halt.state.StandsStill last.state := by
  induction n generalizing s halt with
  | zero => exact ⟨halt, .none halt, hstop, .refl halt.state⟩
  | succ n ih =>
      obtain ⟨retried, hretry, hretried, hfirst⟩ := retry_of_halts hhalts hstop
      obtain ⟨last, hrest, hlast, hlater⟩ := ih hretry hretried
      exact ⟨last, .again hretry hrest, hlast, hfirst.trans hlater⟩

/-- A run that was stopped and is taken up any number of times ends like the run itself: for the
same reason and in the same words.  Nothing has moved, nothing was written or read, and no loop was
counted. -/
theorem retries_stop_alike {halt : Halt} (hhalts : m.Halts s halt)
    (hstop : halt.stop? = some reason) (n : Nat) :
    ∃ last, m.Retries n halt last ∧ (∀ other, m.Retries n halt other → other = last) ∧
      last.stop? = some reason ∧ last.message? = halt.message? ∧
      halt.state.StandsStill last.state ∧ last.state.output = halt.state.output ∧
      last.state.consumed = halt.state.consumed := by
  obtain ⟨last, hretries, hlast, hstill⟩ := exists_retries hhalts hstop n
  have hmessage : last.message? = halt.message? := by
    rw [Halt.message?, Halt.message?, hlast, hstop, hstill.pc]
  exact ⟨last, hretries, fun other hother => hother.unique hretries, hlast, hmessage, hstill,
    hstill.output_eq, hstill.consumed_eq⟩

/-- A scan that got past one cell before it left the tape is taken up three times.  It started on
the first cell, and it is on the second one from then on. -/
theorem retries_stop_alike_of_scan :
    let m : Machine := { program := .ofList [.repeated .add 1, .repeated (.move .right) 1,
      .repeated .add 1, .repeated (.move .left) 1, .of (.scan .right) 1] }
    let s : State := .initial ⟨2, by decide⟩ []
    ∃ halt last : Halt, m.Halts s halt ∧
      halt.stop? = some (.fault ⟨.outOfBounds 2, 4, 1⟩) ∧ m.Retries 3 halt last ∧
      last.stop? = halt.stop? ∧
      last.message? =
        some "Runtime error: Access violation, dp out of bounds (2)\n  pc=0004 dp=1" ∧
      halt.state.StandsStill last.state := by
  intro m s
  have hrun : (m.run 5 s).bind Halt.stop? = some (.fault ⟨.outOfBounds 2, 4, 1⟩) := by
    decide +kernel
  obtain ⟨halt, hhalt, hstop⟩ := Option.bind_eq_some_iff.mp hrun
  have hhalts : m.Halts s halt := ⟨5, hhalt⟩
  obtain ⟨last, hretries, -, hlast, hmessage, hstill, -, -⟩ := retries_stop_alike hhalts hstop 3
  refine ⟨halt, last, hhalts, hstop, hretries, hlast.trans hstop.symm, ?_, hstill⟩
  have hwords : (Fault.mk (.outOfBounds 2) 4 1).message =
      "Runtime error: Access violation, dp out of bounds (2)\n  pc=0004 dp=1" := by decide +kernel
  rw [hmessage, Halt.message?, hstop, ← hwords]
  rfl

end Machine

end TapeLang
