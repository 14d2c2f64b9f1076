import TapeLang.Instruction
import TapeLang.Proofs.Tape

/-!
# Rounds of a loop

The loops that a single operation replaces use nothing but the tape.  Their bodies are rows of
counted additions, subtractions and moves, and only a move can go wrong in them.  `RowEnds` says
what such a row makes of a tape, and `LoopEnds` what a loop around it does.  Where the head would
leave the tape, both tell how far they have come (`Blocked`).

The counts may be any integers, also negative ones.  Each of the three kinds of loops is followed
through all of its rounds and ends as the operation that replaces it:

* `loopEnds_clear`, by induction on the cell;
* `loopEnds_scan`, by induction on the budget of the scan;
* `loopEnds_carry` and `loopEnds_carry_blocked`, the first one by induction on the cell.  In the
  second one, one has already been taken off the cell when the head is asked to leave the tape.
-/

namespace TapeLang.Tape

/-- A tape at the moment when its head is to go to a position outside. -/
structure Blocked where
  tape : Tape
  target : Int

/-- What a row of counted additions, subtractions and moves makes of a tape. -/
inductive RowEnds : List Instruction → Tape → Except Blocked Tape → Prop where
  | done (t : Tape) : RowEnds [] t (.ok t)
  | add {count : Int} {rest : List Instruction} {t : Tape} {result : Except Blocked Tape}
      (hrest : RowEnds rest (t.add count) result) :
      RowEnds (.repeated .add count :: rest) t result
  | sub {count : Int} {rest : List Instruction} {t : Tape} {result : Except Blocked Tape}
      (hrest : RowEnds rest (t.add (-count)) result) :
      RowEnds (.repeated .sub count :: rest) t result
  | move {d : Direction} {count : Int} {rest : List Instruction} {t moved : Tape}
      {result : Except Blocked Tape} (hmoved : t.moveTo? (t.pos + d.offset count) = some moved)
      (hrest : RowEnds rest moved result) : RowEnds (.repeated (.move d) count :: rest) t result
  | blocked {d : Direction} {count : Int} {rest : List Instruction} {t : Tape}
      (hblocked : t.moveTo? (t.pos + d.offset count) = none) :
      RowEnds (.repeated (.move d) count :: rest) t (.error ⟨t, t.pos + d.offset count⟩)

/-- What a loop around such a row makes of a tape, if it ends. -/
inductive LoopEnds (body : List Instruction) : Tape → Except Blocked Tape → Prop where
  | exit {t : Tape} (hzero : t.cell = 0) : LoopEnds body t (.ok t)
  | again {t next : Tape} {result : Except Blocked Tape} (hcell : t.cell ≠ 0)
      (hround : RowEnds body t (.ok next)) (hrest : LoopEnds body next result) :
      LoopEnds body t result
  | blocked {t : Tape} {b : Blocked} (hcell : t.cell ≠ 0) (hround : RowEnds body t (.error b)) :
      LoopEnds body t (.error b)

variable {d : Direction} {t : Tape}

/-! ## Clearing the cell -/

theorem loopEnds_clear (t : Tape) : LoopEnds [.repeated .sub 1] t (.ok (t.write 0)) := by
  induction hvalue : t.cell.toNat using Nat.strongRecOn generalizing t with
  | ind value ih =>
      by_cases hcell : t.cell = 0
      · have hwritten : t.write 0 = t := by rw [← hcell, write_cell]
        rw [hwritten]
        exact .exit hcell
      · have hless : (t.add (-1)).cell.toNat < value := by
          rw [cell_add_neg_one, ← hvalue]
          exact toNat_sub_one_lt hcell
        have hrest := ih _ hless (t.add (-1)) rfl
        rw [write_add] at hrest
        exact .again hcell (.sub (.done _)) hrest

/-! ## Scanning -/

/-- What a scan makes of a tape, unless it never ends. -/
def Scan.result? : Scan → Option (Except Blocked Tape)
  | .found last => some (.ok last)
  | .blocked last target => some (.error ⟨last, target⟩)
  | .endless => none

private theorem loopEnds_scanFor {stride : Int} {budget : Nat} {result : Except Blocked Tape}
    (hresult : (t.scanFor (d.offset stride) budget).result? = some result) :
    LoopEnds [.repeated (.move d) stride] t result := by
  -- A round of the loop is a cell of the scan.
  induction budget generalizing t with
  | zero => cases hresult
  | succ budget ih =>
      by_cases hcell : t.cell = 0
      · rw [scanFor, if_pos hcell] at hresult
        cases hresult
        exact .exit hcell
      · cases hmoved : t.moveTo? (t.pos + d.offset stride) with
        | none =>
            rw [scanFor_of_blocked hcell hmoved] at hresult
            cases hresult
            exact .blocked hcell (.blocked hmoved)
        | some moved =>
            rw [scanFor_of_moveTo? hcell hmoved] at hresult
            exact .again hcell (.move hmoved (.done moved)) (ih hresult)

theorem loopEnds_scan {stride : Int} {result : Except Blocked Tape}
    (hresult : (t.scan (d.offset stride)).result? = some result) :
    LoopEnds [.repeated (.move d) stride] t result :=
  loopEnds_scanFor hresult

/-! ## Carrying the cell's value -/

/-- Takes one off the cell under the head and puts it on the cell at a distance. -/
def carryRow (d : Direction) (distance : Int) : List Instruction :=
  [.repeated .sub 1, .repeated (.move d) distance, .repeated .add 1,
    .repeated (.move d.flip) distance]

theorem rowEnds_carryRow {distance : Int} {away back : Tape}
    (haway : (t.add (-1)).moveTo? (t.pos + d.offset distance) = some away)
    (hback : (away.add 1).moveTo? t.pos = some back) :
    RowEnds (carryRow d distance) t (.ok back) := by
  have hreturn : ((away.add 1).pos : Int) + d.flip.offset distance = t.pos := by
    rw [pos_add, pos_of_moveTo? haway, Direction.offset_flip, Int.add_neg_cancel_right]
  rw [← hreturn] at hback
  exact .sub (.move haway (.add (.move hback (.done back))))

private theorem loopEnds_carryTo? {distance : Int} {target : Nat} (hdistance : distance ≠ 0)
    {carried : Tape} (htarget : t.pos + d.offset distance = target) (hholds : target < t.size)
    (hcarry : t.carryTo? target = some carried) :
    LoopEnds (carryRow d distance) t (.ok carried) := by
  have haside := d.offset_ne_zero hdistance
  induction hvalue : t.cell.toNat using Nat.strongRecOn generalizing t with
  | ind value ih =>
      by_cases hcell : t.cell = 0
      · rw [carryTo?_of_cell_eq_zero hholds hcell] at hcarry
        cases hcarry
        exact .exit hcell
      · -- One round: the cell loses one, and the carry of what is left has the same outcome.
        have hother : t.pos ≠ target := by omega
        obtain ⟨away, haway⟩ : ∃ away, (t.add (-1)).moveTo? target = some away := by
          apply exists_moveTo?
          simp only [Holds, size_add]
          omega
        obtain ⟨back, hback⟩ : ∃ back, (away.add 1).moveTo? t.pos = some back := by
          apply exists_moveTo?
          have hpos := t.holds_pos
          simpa only [Holds, size_add, size_of_moveTo? haway] using hpos
        have hpos := pos_of_round hback
        have hsize := size_of_round haway hback
        refine .again hcell (rowEnds_carryRow (by rw [htarget]; exact haway) hback) ?_
        refine ih back.cell.toNat ?_ (t := back) ?_ ?_ ?_ rfl
        · rw [← hvalue, cell_of_round hother haway hback]
          exact toNat_sub_one_lt hcell
        · rw [hpos, htarget]
        · rw [hsize]
          exact hholds
        · rw [carryTo?_of_round hother haway hback]
          exact hcarry

theorem loopEnds_carry {distance : Int} (hdistance : distance ≠ 0) {carried : Tape}
    (hcarry : t.carryTo? (t.pos + d.offset distance) = some carried) :
    LoopEnds (carryRow d distance) t (.ok carried) := by
  have hholds := holds_of_carryTo? hcarry
  have htarget := (Int.toNat_of_nonneg hholds.1).symm
  rw [htarget] at hcarry
  exact loopEnds_carryTo? hdistance htarget (by have hsize := hholds.2; omega) hcarry

theorem loopEnds_carry_blocked {distance : Int} (hcell : t.cell ≠ 0)
    (houtside : ¬ t.Holds (t.pos + d.offset distance)) :
    LoopEnds (carryRow d distance) t (.error ⟨t.add (-1), t.pos + d.offset distance⟩) := by
  have hblocked : (t.add (-1)).moveTo? ((t.add (-1)).pos + d.offset distance) = none := by
    rw [moveTo?_eq_none_iff]
    simpa only [Holds, size_add, pos_add] using houtside
  exact .blocked hcell (.sub (.blocked hblocked))

end TapeLang.Tape
