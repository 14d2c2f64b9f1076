import TapeLang.Operation
import TapeLang.Proofs.World

/-!
# Loops that a single operation replaces

`Loop body w result` says that a loop, entered in the world `w`, ends with `result`: it repeats its
body as long as the cell under the head is not zero.  A loop that never ends has no result.

Three kinds of bodies are followed through all of their rounds:

* taking one off the cell ends with a zero cell (`loop_clear`), by induction on the cell;
* a body that does nothing but move ends where a scan ends (`loop_scan`), by induction on the budget
  of the scan;
* taking one off the cell and putting it on another one ends where a carry ends (`loop_carry`), by
  induction on the cell.  The target may lie outside the tape; the first round then goes wrong,
  after the one has been taken off.

`Fuses` lists these bodies with the operations that do the same at once.
-/

namespace TapeLang

namespace World

/-- The result of a loop that is entered in a world: the world in which its cell is zero, or the one
in which its body went wrong. -/
inductive Loop (body : World → Except World World) : World → Except World World → Prop where
  | exit {w : World} (hzero : w.tape.cell = 0) : Loop body w (.ok w)
  | again {w v : World} {result : Except World World} (hcell : w.tape.cell ≠ 0)
      (hbody : body w = .ok v) (hloop : Loop body v result) : Loop body w result
  | fault {w v : World} (hcell : w.tape.cell ≠ 0) (hbody : body w = .error v) :
      Loop body w (.error v)

/-! ## Clearing a cell -/

theorem loop_clear (w : World) :
    Loop (actAll [.sub]) w (.ok { w with tape := w.tape.write 0 }) := by
  induction hcount : w.tape.cell.toNat using Nat.strongRecOn generalizing w with
  | ind count ih =>
      by_cases hcell : w.tape.cell = 0
      · have hwritten : w.tape.write 0 = w.tape := by rw [← hcell, Tape.write_cell]
        rw [hwritten]
        exact .exit hcell
      · have hless : (w.tape.add (-1)).cell.toNat < count := by
          rw [Tape.cell_add_neg_one, ← hcount]
          exact Tape.toNat_sub_one_lt hcell
        refine .again hcell (v := { w with tape := w.tape.add (-1) }) rfl ?_
        have hrest := ih _ hless { w with tape := w.tape.add (-1) } rfl
        simpa only [Tape.write_add] using hrest

/-! ## Scanning -/

/-- A body that moves the head by a stride and does nothing else. -/
structure MovesBy (body : World → Except World World) (stride : Int) : Prop where
  moves : ∀ {w : World} {moved : Tape}, w.tape.moveTo? (w.tape.pos + stride) = some moved →
    body w = .ok { w with tape := moved }
  blocked : ∀ {w : World}, w.tape.moveTo? (w.tape.pos + stride) = none →
    ∃ v, body w = .error v ∧ v.SameStreams w

theorem movesBy_replicate (d : Direction) (count : Nat) :
    MovesBy (actAll (List.replicate count (.move d))) (d.offset count) :=
  ⟨actAll_moves, actAll_moves_blocked⟩

/-- What a scan that ends makes of a world. -/
def Scanned (w : World) (result : Except World World) : Tape.Scan → Prop
  | .found tape => result = .ok { w with tape }
  | .blocked _ _ => ∃ v, result = .error v ∧ v.SameStreams w
  | .endless => False

private theorem loop_scanFor {body : World → Except World World} {stride : Int}
    (hbody : MovesBy body stride) {budget : Nat} {w : World}
    (hends : w.tape.scanFor stride budget ≠ .endless) :
    ∃ result, Loop body w result ∧ Scanned w result (w.tape.scanFor stride budget) := by
  -- A round of the loop is a cell of the scan.
  induction budget generalizing w with
  | zero => exact absurd rfl hends
  | succ budget ih =>
      by_cases hcell : w.tape.cell = 0
      · exact ⟨.ok w, .exit hcell, by simp [Tape.scanFor, hcell, Scanned]⟩
      · cases hmoved : w.tape.moveTo? (w.tape.pos + stride) with
        | none =>
            obtain ⟨v, hv, hstreams⟩ := hbody.blocked hmoved
            rw [Tape.scanFor_of_blocked hcell hmoved]
            exact ⟨.error v, .fault hcell hv, v, rfl, hstreams⟩
        | some moved =>
            rw [Tape.scanFor_of_moveTo? hcell hmoved] at hends ⊢
            obtain ⟨result, hloop, hresult⟩ := ih (w := { w with tape := moved }) hends
            refine ⟨result, .again hcell (hbody.moves hmoved) hloop, ?_⟩
            cases hscan : moved.scanFor stride budget with
            | found tape => simpa only [hscan, Scanned] using hresult
            | blocked tape target =>
                simp only [hscan, Scanned] at hresult ⊢
                obtain ⟨v, hv, hstreams⟩ := hresult
                exact ⟨v, hv, hstreams.input, hstreams.output⟩
            | endless => exact absurd hscan hends

theorem loop_scan {body : World → Except World World} {stride : Int}
    (hbody : MovesBy body stride) (hstride : stride ≠ 0) (w : World) :
    ∃ result, Loop body w result ∧ Scanned w result (w.tape.scan stride) :=
  loop_scanFor hbody (w.tape.scan_ne_endless hstride)

/-! ## Carrying a cell's value -/

/-- Takes one off the cell under the head and puts it on the cell at a distance. -/
def carryBody (d : Direction) (count : Nat) : List Primitive :=
  .sub :: List.replicate count (.move d) ++ .add :: List.replicate count (.move d.flip)

theorem actAll_carryBody {d : Direction} {count : Nat} {w : World} {away back : Tape}
    (haway : (w.tape.add (-1)).moveTo? (w.tape.pos + d.offset count) = some away)
    (hback : (away.add 1).moveTo? w.tape.pos = some back) :
    actAll (carryBody d count) w = .ok { w with tape := back } := by
  have hfirst : actAll (.sub :: List.replicate count (.move d)) w =
      .ok { w with tape := away } := by
    rw [actAll_cons_of_some rfl]
    exact actAll_moves (w := { w with tape := w.tape.add (-1) }) haway
  rw [carryBody, actAll_append_of_ok hfirst, actAll_cons_of_some rfl]
  refine actAll_moves (w := { w with tape := away.add 1 }) ?_
  have hpos : (away.pos : Int) + d.flip.offset count = w.tape.pos := by
    rw [Tape.pos_of_moveTo? haway, Direction.offset_flip, Int.add_neg_cancel_right]
  rw [Tape.pos_add, hpos]
  exact hback

theorem actAll_carryBody_blocked {d : Direction} {count : Nat} {w : World}
    (hblocked : ¬ w.tape.Holds (w.tape.pos + d.offset count)) :
    ∃ v, actAll (carryBody d count) w = .error v ∧ v.SameStreams w := by
  have hmove : (w.tape.add (-1)).moveTo? (w.tape.pos + d.offset count) = none := by
    rw [Tape.moveTo?_eq_none_iff]
    simpa only [Tape.Holds, Tape.size_add] using hblocked
  obtain ⟨v, hv, hstreams⟩ :=
    actAll_moves_blocked (w := { w with tape := w.tape.add (-1) }) hmove
  have hfirst : actAll (.sub :: List.replicate count (.move d)) w = .error v := by
    rw [actAll_cons_of_some rfl]
    exact hv
  exact ⟨v, by rw [carryBody, actAll_append_of_error hfirst], hstreams.input, hstreams.output⟩

private theorem loop_carryTo? {d : Direction} {count target : Nat} (hcount : 0 < count)
    {carried : Tape} {w : World} (htarget : w.tape.pos + d.offset count = target)
    (hholds : target < w.tape.size) (hcarry : w.tape.carryTo? target = some carried) :
    Loop (actAll (carryBody d count)) w (.ok { w with tape := carried }) := by
  induction hvalue : w.tape.cell.toNat using Nat.strongRecOn generalizing w with
  | ind value ih =>
      by_cases hcell : w.tape.cell = 0
      · rw [Tape.carryTo?_of_cell_eq_zero hholds hcell] at hcarry
        cases hcarry
        exact .exit hcell
      · -- One round: the cell loses one, and the carry of what is left has the same outcome.
        have hother : w.tape.pos ≠ target := by
          cases d <;> simp only [Direction.offset] at htarget <;> omega
        obtain ⟨away, haway⟩ : ∃ away, (w.tape.add (-1)).moveTo? target = some away := by
          apply Tape.exists_moveTo?
          simp only [Tape.Holds, Tape.size_add]
          omega
        obtain ⟨back, hback⟩ : ∃ back, (away.add 1).moveTo? w.tape.pos = some back := by
          apply Tape.exists_moveTo?
          have hpos := w.tape.holds_pos
          simpa only [Tape.Holds, Tape.size_add, Tape.size_of_moveTo? haway] using hpos
        have hpos := Tape.pos_of_round hback
        have hsize := Tape.size_of_round haway hback
        refine .again hcell (actAll_carryBody (by rw [htarget]; exact haway) hback) ?_
        refine ih back.cell.toNat ?_ (w := { w with tape := back }) ?_ ?_ ?_ rfl
        · rw [← hvalue, Tape.cell_of_round hother haway hback]
          exact Tape.toNat_sub_one_lt hcell
        · rw [← htarget, hpos]
        · rw [hsize]
          exact hholds
        · rw [Tape.carryTo?_of_round hother haway hback]
          exact hcarry

theorem loop_carry {d : Direction} {count : Nat} (hcount : 0 < count) {w : World} {carried : Tape}
    (hcarry : w.tape.carryTo? (w.tape.pos + d.offset count) = some carried) :
    Loop (actAll (carryBody d count)) w (.ok { w with tape := carried }) := by
  have hholds := Tape.holds_of_carryTo? hcarry
  have htarget := (Int.toNat_of_nonneg hholds.1).symm
  rw [htarget] at hcarry
  exact loop_carryTo? hcount htarget (by have hsize := hholds.2; omega) hcarry

theorem loop_carry_blocked {d : Direction} {count : Nat} {w : World} (hcell : w.tape.cell ≠ 0)
    (hcarry : w.tape.carryTo? (w.tape.pos + d.offset count) = none) :
    ∃ v, Loop (actAll (carryBody d count)) w (.error v) ∧ v.SameStreams w := by
  obtain ⟨v, hv, hstreams⟩ := actAll_carryBody_blocked (Tape.carryTo?_eq_none_iff.mp hcarry)
  exact ⟨v, .fault hcell hv, hstreams⟩

/-! ## The bodies that are replaced -/

/-- The operation, with its argument, does at once what a loop with that body does. -/
inductive Fuses : List Primitive → Operation → Nat → Prop where
  | zero : Fuses [.sub] .zero 0
  | scan (d : Direction) {stride : Nat} (stride_pos : 0 < stride) :
      Fuses (List.replicate stride (.move d)) (.scan d) stride
  | carry (d : Direction) {distance : Nat} (distance_pos : 0 < distance) :
      Fuses (carryBody d distance) (.carry d) distance

end World

end TapeLang
