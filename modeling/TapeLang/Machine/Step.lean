import TapeLang.Machine.Fault
import TapeLang.Machine.State
import TapeLang.Memory
import TapeLang.Program
import TapeLang.Tape.Scan

/-!
# Steps of the machine

A `Machine` is what a run does not change: the program, the memory, and what is kept a record of.
One step takes the instruction at the program counter, carries it out, and moves the counter past
it.

A step can also stop, and then the counter stays on the instruction:

* the counter names no instruction of the program (`Stop.outside`);
* the opcode names no operation, or the head would leave the tape (`Stop.fault`);
* there is no room for the bytes to write (`Stop.shortage`). An unbounded memory has room for all.

A step that stops changes the tape and the streams in no way. It may have added to the trace, and a
scan leaves the head on the last cell that it reached.

A step may also never end, for the one reason that `Tape.scan` gives.
-/

namespace TapeLang

/-- The fixed part of a run. -/
structure Machine where
  program : Program
  /-- The room for the bytes of one write. -/
  memory : Memory := .unbounded
  /-- An output that cannot be flushed is never asked to. -/
  flushes : Bool := true
  /-- Whether a trace is kept. -/
  traced : Bool := false
  /-- Whether loops that are passed by are counted. -/
  profiled : Bool := false

/-- Why the machine stops in the middle of a program. -/
inductive Stop where
  | fault (fault : Fault)
  | outside
  | shortage (shortage : Shortage)
  deriving DecidableEq, Repr

/-- The result of a step. -/
inductive Step where
  | next (state : State)
  | stop (reason : Stop) (state : State)
  | endless

/-- The state changed in some way, if there is a next one. -/
def Step.map (change : State → State) : Step → Step
  | next state => next (change state)
  | stop reason state => stop reason state
  | endless => endless

namespace State

/-- The fault with a cause, at the program counter and the head. -/
def faultOf (s : State) (cause : FaultCause) : Fault :=
  ⟨cause, s.pc, s.dp⟩

/-- Stops with a fault. -/
def stopWith (s : State) (cause : FaultCause) : Step :=
  .stop (.fault (s.faultOf cause)) s

/-- Moves the head to a position. -/
def moveTo (s : State) (target : Int) : Step :=
  match s.tape.moveTo? target with
  | some tape => .next { s with tape }
  | none => s.stopWith (.outOfBounds target)

/-- Scans by a stride. -/
def scan (s : State) (stride : Int) : Step :=
  match s.tape.scan stride with
  | .found tape => .next { s with tape }
  | .blocked tape target => { s with tape }.stopWith (.outOfBounds target)
  | .endless => .endless

/-- Carries the cell under the head to a position. A zero cell is carried nowhere, and then the
position does not matter. -/
def carryTo (s : State) (target : Int) : Step :=
  if s.tape.cell = 0 then .next s
  else
    match s.tape.carryTo? target with
    | some tape => .next { s with tape }
    | none => s.stopWith (.outOfBounds target)

end State

namespace Machine

/-- Flushes the output, if it can be. -/
def flush (m : Machine) (s : State) : State :=
  if m.flushes then s.logged .flush else s

/-- Adds an entry to the trace, if one is kept. -/
def note (m : Machine) (op : Operation) (arg : Int) (s : State) : State :=
  if m.traced then
    { s with trace := s.trace.push ⟨s.pc, op, arg, s.dp, s.tape.cell⟩ }
  else s

/-- Counts the loop between the program counter and an offset, if loops are counted. -/
def countLoop (m : Machine) (last : Int) (s : State) : State :=
  if m.profiled then { s with profile := s.profile.record (m.program.loopSource s.pc last) } else s

/-- Writes the cell under the head a number of times, if there is room for so many bytes. -/
def writeOut (m : Machine) (count : Int) (s : State) : Step :=
  match m.memory.shortage? count with
  | none => .next (s.writeOut count)
  | some shortage => .stop (.shortage shortage) s

/-- Carries out a primitive. -/
def performPrimitive (m : Machine) (p : Primitive) (count : Int) (s : State) : Step :=
  match p with
  | .move d => s.moveTo (s.dp + d.offset count)
  | .add => .next { s with tape := s.tape.add count }
  | .sub => .next { s with tape := s.tape.add (-count) }
  | .write => m.writeOut count s
  | .read => .next ((m.flush s).readInto count.toNat)

/-- Carries out an operation. A jump that is taken puts the program counter on its target, from
where it moves on as after every instruction. -/
def perform (m : Machine) (op : Operation) (arg : Int) (s : State) : Step :=
  match op with
  | .primitive p => m.performPrimitive p arg s
  | .jumpIfZero =>
    if s.tape.cell = 0 then .next { m.countLoop arg s with pc := arg } else .next s
  | .jumpIfNonzero => if s.tape.cell = 0 then .next s else .next { s with pc := arg }
  | .zero => .next { s with tape := s.tape.write 0 }
  | .scan d => s.scan (d.offset arg)
  | .carry d => s.carryTo (s.dp + d.offset arg)

/-- Carries out the instruction at the program counter and moves past it. -/
def step (m : Machine) (s : State) : Step :=
  match m.program.get? s.pc with
  | none => .stop .outside s
  | some ⟨.foreign label _, _⟩ => s.stopWith (.unrecognized label)
  | some ⟨.known op, arg⟩ =>
    (m.perform op arg (m.note op arg s)).map fun after => { after with pc := after.pc + 1 }

/-- With an unbounded memory a write always goes through. -/
theorem writeOut_of_unbounded {m : Machine} (hmemory : m.memory = .unbounded) (count : Int)
    (s : State) : m.writeOut count s = .next (s.writeOut count) := by
  simp [writeOut, hmemory]

end Machine

end TapeLang
