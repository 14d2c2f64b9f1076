import TapeLang.Atom

/-!
# Faults

Two things can be wrong with an instruction that the machine is about to carry out: it sends the
head to a position outside the tape, or its opcode is the name of no operation. A `Fault` gives the
cause, the place of the instruction and the position of the head.

A fault is made together with the text that says what is wrong, and there is no such text if it
would show a number that is too long (`FaultCause.text?`). So not every cause comes out as a fault.

A `FaultReport` is the form in which a fault is reported. Its kind and its numbers may be missing;
the message is written from what is there.
-/

namespace TapeLang

/-- What is wrong with an instruction. -/
inductive FaultCause where
  | outOfBounds (target : Int)
  | unrecognized (label : Atom)
  deriving DecidableEq, Repr

/-- An instruction that cannot be carried out. -/
structure Fault where
  cause : FaultCause
  /-- The place of the instruction. -/
  pc : Int
  /-- The position of the head. -/
  dp : Nat
  deriving DecidableEq, Repr

/-- The kinds of faults: bad access to the tape, and bad programs. -/
inductive FaultKind where
  | accessViolation
  | internalInconsistency
  deriving DecidableEq, Repr

/-- The word for a kind of fault. -/
def FaultKind.name : FaultKind → String
  | accessViolation => "AccessViolation"
  | internalInconsistency => "InternalInconsistency"

namespace FaultCause

/-- The kind of fault that a cause makes. -/
def kind : FaultCause → FaultKind
  | outOfBounds _ => .accessViolation
  | unrecognized _ => .internalInconsistency

/-- What is wrong, in words. -/
def text : FaultCause → String
  | outOfBounds target => "Access violation, dp out of bounds (" ++ Decimal.text target ++ ")"
  | unrecognized label => "Unrecognized op " ++ label.literal

/-- What the text shows can be written: the target, or the label. -/
def Writable : FaultCause → Prop
  | outOfBounds target => Decimal.Writable target
  | unrecognized label => label.Writable

instance (cause : FaultCause) : Decidable cause.Writable :=
  match cause with
  | outOfBounds target => inferInstanceAs (Decidable (Decimal.Writable target))
  | unrecognized label => inferInstanceAs (Decidable label.Writable)

/-- What is wrong, in words, if these can be written. -/
def text? (cause : FaultCause) : Option String :=
  if cause.Writable then some cause.text else none

end FaultCause

/-- The report of a fault. -/
structure FaultReport where
  kind : Option FaultKind := none
  text : String
  pc : Option Int := none
  dp : Option Int := none
  deriving DecidableEq, Repr

namespace FaultReport

/-- The message of a report, every line of it behind an indent. A second line shows the place of the
instruction and the position of the head, if the place is known. -/
def format (r : FaultReport) (indent : String) : String :=
  indent ++ "Runtime error: " ++ r.text ++
    match r.pc with
    | none => ""
    | some pc =>
      "\n" ++ indent ++ "  pc=" ++ Decimal.padded 4 pc ++ " dp="
        ++ (r.dp.map Decimal.text).getD "None"

/-- The message of a report. -/
def message (r : FaultReport) : String :=
  r.format ""

/-- The numbers in the message can be written. The position of the head is only shown behind a
place. -/
def Writable (r : FaultReport) : Prop :=
  ∀ pc ∈ r.pc, Decimal.Writable pc ∧ ∀ dp ∈ r.dp, Decimal.Writable dp

instance (r : FaultReport) : Decidable r.Writable :=
  inferInstanceAs (Decidable (∀ pc ∈ r.pc, Decimal.Writable pc ∧ ∀ dp ∈ r.dp, Decimal.Writable dp))

/-- The message of a report behind an indent, if it can be written. -/
def format? (r : FaultReport) (indent : String) : Option String :=
  if r.Writable then some (r.format indent) else none

end FaultReport

namespace Fault

/-- The report of a fault: everything about it is known. -/
def report (f : Fault) : FaultReport where
  kind := some f.cause.kind
  text := f.cause.text
  pc := some f.pc
  dp := some f.dp

/-- The message of a fault. -/
def message (f : Fault) : String :=
  f.report.message

end Fault

end TapeLang
