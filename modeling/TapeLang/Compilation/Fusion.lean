import TapeLang.Instruction

/-!
# Fusing loops

Some loops do in many rounds what a single operation does at once. `fuse?` recognises them by their
body, the instructions between the two brackets:

* `-` clears the cell;
* `>` or `<`, any number of times, scans in that direction with that stride;
* `-`, a move, `+` and the same distance back carries the value of the cell over that distance.

A body that differs from these in any way is left alone.
-/

namespace TapeLang

/-- The instruction that does what the loop with a given body does, for the bodies that have one. -/
def fuse? : List Instruction → Option Instruction
  | [⟨.known (.primitive .sub), count⟩] => if count = 1 then some (.of .zero 0) else none
  | [⟨.known (.primitive (.move d)), stride⟩] => some (.of (.scan d) stride)
  | [⟨.known (.primitive .sub), taken⟩, ⟨.known (.primitive (.move away)), distance⟩,
      ⟨.known (.primitive .add), given⟩, ⟨.known (.primitive (.move back)), retreat⟩] =>
    if taken = 1 ∧ given = 1 ∧ back = away.flip ∧ retreat = distance then
      some (.of (.carry away) distance)
    else none
  | _ => none

end TapeLang
