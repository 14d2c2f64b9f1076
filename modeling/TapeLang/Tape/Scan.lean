import TapeLang.Tape

/-!
# Scanning a tape

A scan moves the head by a stride, again and again, until it stands on a zero cell.

It may leave the tape first; the head then stays on the last cell that lies on the tape. It may also
never end, if the stride is zero and the cell is not. A scan with another stride visits no cell
twice, so it visits at most as many cells as the tape has; `scanFor` therefore gets the size of the
tape as its budget, and whatever is not over after so many cells is endless.
-/

namespace TapeLang.Tape

/-- How a scan ends. -/
inductive Scan where
  /-- On a zero cell. -/
  | found (tape : Tape)
  /-- At an end of the tape: the next position would have been the target. -/
  | blocked (tape : Tape) (target : Int)
  /-- Not at all. -/
  | endless

/-- Scans over at most `budget` cells. -/
def scanFor (stride : Int) : Nat → Tape → Scan
  | 0, _ => .endless
  | budget + 1, t =>
    if t.cell = 0 then .found t
    else
      let target := t.pos + stride
      match t.moveTo? target with
      | some moved => scanFor stride budget moved
      | none => .blocked t target

/-- Moves the head by a stride until it stands on a zero cell. -/
def scan (t : Tape) (stride : Int) : Scan :=
  scanFor stride t.size t

/-- On a zero cell, a scan is over before it starts. -/
theorem scan_of_cell_eq_zero {t : Tape} (hzero : t.cell = 0) (stride : Int) :
    t.scan stride = .found t := by
  have hsize : t.size = (t.size - 1) + 1 := by
    have := t.pos_lt
    unfold size
    omega
  rw [scan, hsize, scanFor, if_pos hzero]

end TapeLang.Tape
