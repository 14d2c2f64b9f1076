import TapeLang.Proofs.Simulation
import TapeLang.Proofs.Source.Partner
import TapeLang.Proofs.World

/-!
# The meaning of a text

What a text means is said without any instructions.  A `Walk` stands at a position of the text and
changes the world as it goes:

* a primitive acts on the world, and the walk goes on behind it, unless the head would leave the
  tape;
* an opening bracket on a zero cell leads past its partner, and on any other cell it does nothing;
* a closing bracket on a zero cell does nothing, and on any other cell it leads to just behind its
  partner;
* everything else is passed over.

The walk is over at the end of the text, or where a primitive goes wrong.  At a bracket without a
partner that would have to be found it gets stuck.
-/

namespace TapeLang

/-- A position of a text and the world there. -/
structure Walk where
  position : Nat
  world : World

/-- Where a walk is over, and whether something went wrong there. -/
structure WalkEnd where
  walk : Walk
  faulted : Bool

namespace Walk

/-- Goes on behind a bracket, if there is one. -/
def leap (w : Walk) : Option Nat → Turn Walk WalkEnd
  | some bracket => .next ⟨bracket + 1, w.world⟩
  | none => .hang

/-- What a walk does at its position. -/
def turn (text : List Char) (w : Walk) : Turn Walk WalkEnd :=
  match text[w.position]? with
  | none => .ended ⟨w, false⟩
  | some c =>
    match Primitive.ofSymbol? c with
    | some p =>
      match w.world.act p with
      | some world => .next ⟨w.position + 1, world⟩
      | none => .ended ⟨w, true⟩
    | none =>
      if c = '[' ∧ w.world.tape.cell = 0 then w.leap (closing? text w.position)
      else if c = ']' ∧ w.world.tape.cell ≠ 0 then w.leap (opening? text w.position)
      else .next ⟨w.position + 1, w.world⟩

/-- The walks through a text. -/
def system (text : List Char) : System Walk WalkEnd :=
  ⟨turn text⟩

/-- The walk at the start of a text, in the world before a run. -/
def initial (length : TapeLength) (input : List UInt8) : Walk :=
  ⟨0, .initial length input⟩

variable {text : List Char} {w : Walk}

theorem turn_end (hend : text[w.position]? = none) : turn text w = .ended ⟨w, false⟩ := by
  rw [turn, hend]

theorem turn_primitive {p : Primitive} (hget : text[w.position]? = some p.symbol) :
    turn text w = match w.world.act p with
      | some world => .next ⟨w.position + 1, world⟩
      | none => .ended ⟨w, true⟩ := by
  simp only [turn, hget, Primitive.ofSymbol?_symbol]

theorem turn_opening {j : Nat} (hpartners : Partners text w.position j) :
    turn text w =
      .next ⟨(if w.world.tape.cell = 0 then j else w.position) + 1, w.world⟩ := by
  have hsymbol : Primitive.ofSymbol? '[' = none := rfl
  by_cases hzero : w.world.tape.cell = 0
  · simp [turn, hpartners.opening, hsymbol, hzero, hpartners.closing?_eq, leap]
  · simp [turn, hpartners.opening, hsymbol, hzero]

theorem turn_closing {j : Nat} (hpartners : Partners text j w.position) :
    turn text w =
      .next ⟨(if w.world.tape.cell = 0 then w.position else j) + 1, w.world⟩ := by
  have hsymbol : Primitive.ofSymbol? ']' = none := rfl
  by_cases hzero : w.world.tape.cell = 0
  · simp [turn, hpartners.closing, hsymbol, hzero]
  · simp [turn, hpartners.closing, hsymbol, hzero, hpartners.opening?_eq, leap]

theorem turn_comment {c : Char} (hget : text[w.position]? = some c)
    (silent : isCommand c = false) : turn text w = .next ⟨w.position + 1, w.world⟩ := by
  obtain ⟨hsymbol, hopening, hclosing⟩ := isCommand_eq_false_iff.mp silent
  simp [turn, hget, hsymbol, hopening, hclosing]

end Walk

end TapeLang
