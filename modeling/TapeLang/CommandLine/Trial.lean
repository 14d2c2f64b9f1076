import TapeLang.CommandLine.Options
import TapeLang.CommandLine.Transcript
import TapeLang.Compilation
import TapeLang.Machine.Run

/-!
# Trying a source text

A trial compiles one source text and runs it on a blank tape. It shows the trace, if one is asked
for, and then the profile, if one is asked for, also when the run ended in a fault. Nothing is shown
if the source text does not compile, or if there is no room for the tape.

`Resources` are what a trial may use up: a budget of steps, and the memory.
-/

namespace TapeLang.CommandLine

/-- What there is to run programs with. -/
structure Resources where
  /-- The number of steps that a run may take. -/
  budget : Nat
  memory : Memory := .unbounded
  deriving DecidableEq, Repr

/-- Steps for every run that halts in practice, and the memory of a computer. -/
def Resources.standard : Resources := ⟨Machine.ampleBudget, .standard⟩

/-- How a trial ends. -/
inductive TrialEnd where
  | completed
  | failed (failure : Failure)
  | crashed (cause : Crash)
  deriving DecidableEq, Repr

/-- What a trial leaves behind. -/
structure Trial where
  ending : TrialEnd
  stdout : List UInt8 := []
  notices : List Notice := []
  /-- The input that was not read. -/
  input : List UInt8
  deriving DecidableEq, Repr

/-- The end of a trial that a halt of the machine makes. -/
def TrialEnd.ofHalt (halt : Halt) : TrialEnd :=
  match halt.stop? with
  | none => completed
  | some (.fault f) => failed (.fault f)
  | some .outside => crashed (.outside halt.state.pc)
  | some (.shortage shortage) => crashed (.shortage shortage)

/-- The machine for a program under some options. -/
def Options.machine (o : Options) (memory : Memory) (program : Program) : Machine where
  program := program
  memory := memory
  traced := o.trace
  profiled := o.profile

/-- The notices that a run makes: its trace and its profile. -/
def Options.diagnostics (o : Options) (s : State) : List Notice :=
  s.trace.toList.map (fun entry => .plain entry.line) ++
    if o.profile then (s.profile.report (some Profile.reportLimit)).map .plain else []

/-- What a run leaves behind. -/
def Trial.ofHalt (o : Options) (halt : Halt) : Trial where
  ending := .ofHalt halt
  stdout := halt.state.output
  notices := o.diagnostics halt.state
  input := halt.state.input

/-- Compiles a source text and runs it on the input. There is no result if the run does not halt
within the budget. -/
def Trial.run (r : Resources) (o : Options) (text : String) (input : List UInt8) : Option Trial :=
  match Program.ofSource text o.optimize with
  | .error e => some { ending := .failed (.compile e), input }
  | .ok program =>
    match r.memory.shortage? o.length.val with
    | some shortage => some { ending := .crashed (.shortage shortage), input }
    | none =>
      ((o.machine r.memory program).run r.budget (.initial o.length input)).map (Trial.ofHalt o)

/-- Compiles a source text that no tape is there for: a text that compiles cannot be run. -/
def Trial.withoutTape (e : TapeLengthError) (o : Options) (text : String) (input : List UInt8) :
    Trial :=
  match Program.ofSource text o.optimize with
  | .error e => { ending := .failed (.compile e), input }
  | .ok _ => { ending := .crashed (.tapeLength e), input }

end TapeLang.CommandLine
