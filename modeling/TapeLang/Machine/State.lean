import TapeLang.Instruction
import TapeLang.Profile
import TapeLang.Tape

/-!
# States of the machine

A `State` is what a run changes: the program counter, the tape, the input that is left, and three
records of what happened.

* `log` holds every use of the two streams in order. The output and the number of bytes consumed are
  views of it.
* `trace` holds an entry for each instruction, made just before it is carried out.
* `profile` counts the loops that were passed by.
-/

namespace TapeLang

/-- One use of a stream. -/
inductive StreamEvent where
  /-- The output is flushed. -/
  | flush
  /-- One byte is asked for, and got unless the input has ended. -/
  | read (byte? : Option UInt8)
  /-- A byte is written a number of times at once. -/
  | write (byte : UInt8) (count : Nat)
  deriving DecidableEq, Repr

namespace StreamEvent

/-- The bytes that an event writes. -/
def written : StreamEvent → List UInt8
  | write byte count => List.replicate count byte
  | _ => []

/-- The bytes that an event takes from the input: one or none. -/
def taken : StreamEvent → List UInt8
  | read (some byte) => [byte]
  | _ => []

end StreamEvent

/-- An instruction of one of the operations, and what was there when its turn came. -/
structure TraceEntry where
  pc : Int
  op : Operation
  arg : Int
  dp : Nat
  cell : UInt8
  deriving DecidableEq, Repr

/-- The line of an instruction in a trace. -/
def TraceEntry.line (e : TraceEntry) : String :=
  "TRACE pc=" ++ Decimal.padded 4 e.pc ++ " " ++ (Instruction.of e.op e.arg).literal ++ " dp="
    ++ Decimal.text e.dp ++ " cell=" ++ Decimal.text e.cell.toNat

/-- The numbers in the line can be written. A cell always can. -/
def TraceEntry.Writable (e : TraceEntry) : Prop :=
  Decimal.Writable e.pc ∧ Decimal.Writable e.arg ∧ Decimal.Writable e.dp

instance (e : TraceEntry) : Decidable e.Writable :=
  inferInstanceAs (Decidable (_ ∧ _ ∧ _))

/-- What a run changes. -/
structure State where
  /-- The program counter: the offset of the next instruction. -/
  pc : Int := 0
  tape : Tape
  /-- The input that is left. -/
  input : List UInt8
  log : Array StreamEvent := #[]
  trace : Array TraceEntry := #[]
  profile : Profile := {}

namespace State

/-- The state before a run: the head on the first cell of a blank tape. -/
def initial (length : TapeLength) (input : List UInt8) : State where
  tape := .blank length
  input := input

/-- The position of the head. -/
def dp (s : State) : Nat :=
  s.tape.pos

/-- All bytes written, in order. -/
def output (s : State) : List UInt8 :=
  s.log.toList.flatMap StreamEvent.written

/-- The bytes taken from the input, in order. -/
def taken (s : State) : List UInt8 :=
  s.log.toList.flatMap StreamEvent.taken

/-- The number of bytes taken from the input. -/
def consumed (s : State) : Nat :=
  s.taken.length

/-- Adds an event to the log. -/
def logged (s : State) (event : StreamEvent) : State :=
  { s with log := s.log.push event }

/-- Takes a byte from the input. At the end of the input it is zero. -/
def readByte (s : State) : UInt8 × State :=
  match s.input with
  | [] => (0, s.logged (.read none))
  | byte :: rest => (byte, { s with input := rest }.logged (.read (some byte)))

/-- Takes a number of bytes from the input and puts each into the cell under the head. -/
def readInto (s : State) : Nat → State
  | 0 => s
  | count + 1 =>
    let (byte, after) := s.readByte
    { after with tape := after.tape.write byte }.readInto count

/-- Writes the cell under the head a number of times, at once; a negative number counts as none. -/
def writeOut (s : State) (count : Int) : State :=
  s.logged (.write s.tape.cell count.toNat)

/-! ## Views after an event -/

@[simp] theorem output_logged (s : State) (event : StreamEvent) :
    (s.logged event).output = s.output ++ event.written := by
  simp [output, logged]

@[simp] theorem taken_logged (s : State) (event : StreamEvent) :
    (s.logged event).taken = s.taken ++ event.taken := by
  simp [taken, logged]

/-- What is taken from the input and what is left make up the input. -/
theorem taken_append_input_readByte (s : State) :
    s.readByte.2.taken ++ s.readByte.2.input = s.taken ++ s.input := by
  unfold readByte
  split <;> simp_all [StreamEvent.taken, logged, taken]

end State

end TapeLang
