import TapeLang.Crash
import TapeLang.Machine.Run

/-!
# What comes out of the machine

A `Stop` is the reason why the machine stops. What comes out is an error, and an error is made
together with its text. A fault whose text would show a number with too many digits is not made: the
crash of the text comes out in its place (`Stop.raised`).

The same can happen on the way. The machine writes the line of a trace before it carries out an
operation, and the body of a loop before it counts it. If one of the two cannot be written, the step
is over and the operation is not carried out (`Machine.unwritten?`).

`Machine.attempt` is a step and `Machine.attempts` a run with all of this. They differ from
`Machine.step` and `Machine.run` only where a number is too long.
-/

namespace TapeLang

/-- An error that comes out of the machine. -/
inductive Raised where
  | fault (fault : Fault)
  | crash (cause : Crash)
  deriving DecidableEq, Repr

/-- The error that comes out if the machine stops in a state. -/
def Stop.raised (s : State) : Stop → Raised
  | fault f => if f.cause.Writable then .fault f else .crash .unwritable
  | outside => .crash (.outside s.pc)
  | shortage missing => .crash (.shortage missing)

/-- The result of a step, with the error that comes out of it. -/
inductive Attempt where
  | next (state : State)
  | raised (error : Raised) (state : State)
  | endless

/-- What a step comes to if nothing has to be written on its way. -/
def Step.attempt : Step → Attempt
  | next s => .next s
  | stop reason s => .raised (reason.raised s) s
  | endless => .endless

/-- How a run ends, with the error that comes out of it if there is one. -/
structure Ending where
  state : State
  raised? : Option Raised

/-- How a run ends if nothing has to be written on its way. -/
def Halt.ending (halt : Halt) : Ending where
  state := halt.state
  raised? := halt.stop?.map (Stop.raised halt.state)

/-- The entry of a trace for an operation at the program counter. -/
def State.entry (s : State) (op : Operation) (arg : Int) : TraceEntry where
  pc := s.pc
  op := op
  arg := arg
  dp := s.dp
  cell := s.tape.cell

namespace Machine

/-- The state that is left if a text cannot be written on the way of a step: the line of the trace,
or the body of the loop that is passed by. -/
def unwritten? (m : Machine) (s : State) : Option State :=
  match m.program.get? s.pc with
  | some ⟨.known op, arg⟩ =>
    if m.traced ∧ ¬ (s.entry op arg).Writable then some s
    else if m.profiled ∧ op = .jumpIfZero ∧ s.tape.cell = 0 ∧ ¬ m.program.Renderable s.pc arg then
      some (m.note op arg s)
    else none
  | _ => none

/-- Takes a step, as far as the texts on its way can be written. -/
def attempt (m : Machine) (s : State) : Attempt :=
  match m.unwritten? s with
  | some last => .raised (.crash .unwritable) last
  | none => (m.step s).attempt

/-- Runs for at most `budget` steps, as far as the texts on the way can be written. -/
def attempts (m : Machine) : Nat → State → Option Ending
  | 0, _ => none
  | budget + 1, s =>
    if s.pc < m.program.size then
      match m.attempt s with
      | .next after => m.attempts budget after
      | .raised error last => some ⟨m.flush last, some error⟩
      | .endless => none
    else some ⟨m.flush s, none⟩

/-- The profile that a run hands back: none if loops were not counted, or if an error came out. -/
def handed? (m : Machine) (e : Ending) : Option Profile :=
  if m.profiled && e.raised?.isNone then some e.state.profile else none

/-- A run from a state ends in a given way, with what comes out of it. -/
def Ends (m : Machine) (s : State) (e : Ending) : Prop :=
  ∃ budget, m.attempts budget s = some e

end Machine

end TapeLang
