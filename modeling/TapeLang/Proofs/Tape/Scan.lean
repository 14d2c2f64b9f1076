import TapeLang.Proofs.Tape

/-!
# Where a scan stops

A scan looks at positions that are one stride apart, beginning with that of the head.  It passes a
position where there is a cell that is not zero (`Tape.NonzeroAt`), and it stops at the first one
that it cannot pass: on a zero cell, or in front of the end of the tape.

`Tape.ScanEnds` tells from the cells alone how a scan can end, and `scanEnds_scan` says that this is
how it does.  There is only one first position that cannot be passed (`Passes.unique`), so the
conditions also tell which of the three ends it is.
-/

namespace TapeLang.Tape

variable {t : Tape} {stride : Int}

/-- There is a cell at a position, and it is not zero. -/
def NonzeroAt (t : Tape) (position : Int) : Prop :=
  ∃ (i : Nat) (value : UInt8), position = i ∧ t.cells[i]? = some value ∧ value ≠ 0

/-- The positions of some first stops of a scan, that of the head included, are all nonzero. -/
def Passes (t : Tape) (stride : Int) (count : Nat) : Prop :=
  ∀ j : Nat, j < count → t.NonzeroAt (t.pos + j * stride)

/-! ## Nonzero cells -/

theorem nonzeroAt_pos_iff : t.NonzeroAt t.pos ↔ t.cell ≠ 0 := by
  constructor
  · rintro ⟨i, value, hi, hget, hvalue⟩
    obtain rfl : t.pos = i := by omega
    rw [getElem?_pos, Option.some.injEq] at hget
    rwa [hget]
  · intro hcell
    exact ⟨t.pos, t.cell, rfl, t.getElem?_pos, hcell⟩

theorem NonzeroAt.holds {position : Int} (hnonzero : t.NonzeroAt position) : t.Holds position := by
  obtain ⟨i, value, rfl, hget, -⟩ := hnonzero
  have hlt : i < t.cells.size := (Array.getElem?_eq_some_iff.mp hget).1
  exact ⟨Int.natCast_nonneg i, Int.ofNat_lt.mpr hlt⟩

/-- Moving the head does not change what is nonzero. -/
theorem nonzeroAt_of_moveTo? {moved : Tape} {target position : Int}
    (hmoved : t.moveTo? target = some moved) :
    moved.NonzeroAt position ↔ t.NonzeroAt position := by
  unfold NonzeroAt
  rw [(moveTo?_eq_some_iff.mp hmoved).2.1]

theorem nonzeroAt_target_iff {moved : Tape} {target : Int}
    (hmoved : t.moveTo? target = some moved) : t.NonzeroAt target ↔ moved.cell ≠ 0 := by
  rw [← nonzeroAt_pos_iff, pos_of_moveTo? hmoved, nonzeroAt_of_moveTo? hmoved]

/-! ## Passing positions -/

theorem passes_zero (t : Tape) (stride : Int) : t.Passes stride 0 := by
  intro j hj
  omega

theorem passes_one (hcell : t.cell ≠ 0) : t.Passes stride 1 := by
  intro j hj
  obtain rfl : j = 0 := by omega
  rw [Int.natCast_zero, Int.zero_mul, Int.add_zero]
  exact nonzeroAt_pos_iff.mpr hcell

/-- The head passes its own position and, from the next one on, those that are left. -/
theorem Passes.of_moveTo? {moved : Tape} {count : Nat} (hcell : t.cell ≠ 0)
    (hmoved : t.moveTo? (t.pos + stride) = some moved) (hpasses : moved.Passes stride count) :
    t.Passes stride (count + 1) := by
  intro j hj
  cases j with
  | zero => exact passes_one hcell 0 Nat.one_pos
  | succ j =>
      have hnext := (nonzeroAt_of_moveTo? hmoved).mp (hpasses j (by omega))
      rw [pos_of_moveTo? hmoved] at hnext
      rwa [Int.natCast_succ, Int.add_mul, Int.one_mul, Int.add_comm (j * stride), ← Int.add_assoc]

/-- There is one first position that is not passed. -/
theorem Passes.unique {first second : Nat} (hfirst : t.Passes stride first)
    (hfirstNot : ¬ t.NonzeroAt (t.pos + first * stride)) (hsecond : t.Passes stride second)
    (hsecondNot : ¬ t.NonzeroAt (t.pos + second * stride)) : first = second := by
  rcases Nat.lt_trichotomy first second with hlt | heq | hgt
  · exact absurd (hsecond first hlt) hfirstNot
  · exact heq
  · exact absurd (hfirst second hgt) hsecondNot

/-! ## The end of a scan -/

/-- How a scan ends, told by the cells that it comes to. -/
inductive ScanEnds (t : Tape) (stride : Int) : Scan → Prop where
  | found {k : Nat} {last : Tape} (hpasses : t.Passes stride k)
      (hlast : t.moveTo? (t.pos + k * stride) = some last) (hzero : last.cell = 0) :
      ScanEnds t stride (.found last)
  | blocked {k : Nat} {last : Tape} (hpasses : t.Passes stride (k + 1))
      (hlast : t.moveTo? (t.pos + k * stride) = some last)
      (houtside : ¬ t.Holds (t.pos + (k + 1 : Nat) * stride)) :
      ScanEnds t stride (.blocked last (t.pos + (k + 1 : Nat) * stride))
  | endless (hcell : t.cell ≠ 0) (hstride : stride = 0) : ScanEnds t stride .endless

private theorem position_succ {moved : Tape} (hmoved : t.moveTo? (t.pos + stride) = some moved)
    (k : Nat) : (moved.pos : Int) + k * stride = t.pos + (k + 1 : Nat) * stride := by
  rw [pos_of_moveTo? hmoved, Int.natCast_succ, Int.add_mul, Int.one_mul]
  omega

/-- Scanning on from the next position ends as the whole scan does, unless the budget is used up. -/
private theorem ScanEnds.of_moveTo? {moved : Tape} {scan : Scan} (hcell : t.cell ≠ 0)
    (hmoved : t.moveTo? (t.pos + stride) = some moved) (hends : moved.ScanEnds stride scan)
    (hover : scan ≠ .endless) : t.ScanEnds stride scan := by
  cases hends with
  | found hpasses hlast hzero =>
      rw [position_succ hmoved, moveTo?_of_moveTo? hmoved] at hlast
      exact .found (hpasses.of_moveTo? hcell hmoved) hlast hzero
  | blocked hpasses hlast houtside =>
      rw [position_succ hmoved, moveTo?_of_moveTo? hmoved] at hlast
      rw [position_succ hmoved] at houtside ⊢
      refine .blocked (hpasses.of_moveTo? hcell hmoved) hlast fun hholds => houtside ?_
      simpa only [Holds, size_of_moveTo? hmoved] using hholds
  | endless => exact absurd rfl hover

private theorem scanEnds_scanFor {budget : Nat} (hover : t.scanFor stride budget ≠ .endless) :
    t.ScanEnds stride (t.scanFor stride budget) := by
  induction budget generalizing t with
  | zero => exact absurd rfl hover
  | succ budget ih =>
      have hhere : t.moveTo? (t.pos + (0 : Nat) * stride) = some t := by
        rw [Int.natCast_zero, Int.zero_mul, Int.add_zero, moveTo?_pos]
      by_cases hcell : t.cell = 0
      · rw [scanFor, if_pos hcell]
        exact .found (t.passes_zero stride) hhere hcell
      · cases hmoved : t.moveTo? (t.pos + stride) with
        | none =>
            rw [scanFor_of_blocked hcell hmoved]
            have hnext : t.pos + stride = t.pos + (0 + 1 : Nat) * stride := by simp
            have hfirst : t.Passes stride 1 := by
              intro j hj
              obtain rfl : j = 0 := by omega
              simpa using nonzeroAt_pos_iff.mpr hcell
            rw [moveTo?_eq_none_iff] at hmoved
            rw [hnext] at hmoved ⊢
            exact .blocked hfirst hhere hmoved
        | some moved =>
            rw [scanFor_of_moveTo? hcell hmoved] at hover ⊢
            exact (ih hover).of_moveTo? hcell hmoved hover

theorem scanEnds_scan (t : Tape) (stride : Int) : t.ScanEnds stride (t.scan stride) := by
  by_cases hover : t.scan stride = .endless
  · rw [hover]
    refine .endless (fun hzero => ?_) (Decidable.byContradiction fun hstride => ?_)
    · rw [scan_of_cell_eq_zero hzero] at hover
      cases hover
    · exact t.scan_ne_endless hstride hover
  · exact scanEnds_scanFor hover

/-- A scan that has passed all positions up to the end of the tape is blocked there. -/
theorem scan_eq_blocked {k : Nat} (hpasses : t.Passes stride (k + 1))
    (houtside : ¬ t.Holds (t.pos + (k + 1 : Nat) * stride)) :
    ∃ last, t.scan stride = .blocked last (t.pos + (k + 1 : Nat) * stride) := by
  have hnot : ¬ t.NonzeroAt (t.pos + (k + 1 : Nat) * stride) := fun h => houtside h.holds
  have hends := t.scanEnds_scan stride
  cases hscan : t.scan stride with
  | found last =>
      rw [hscan] at hends
      cases hends with
      | found hother hlast hzero =>
          have hzeroAt := mt (nonzeroAt_target_iff hlast).mp (not_not_intro hzero)
          rw [hother.unique hzeroAt hpasses hnot] at hlast
          exact absurd (moveTo?_eq_some_iff.mp hlast).1 houtside
  | blocked last target =>
      rw [hscan] at hends
      cases hends with
      | blocked hother hlast hotherOutside =>
          have hotherNot := fun h : t.NonzeroAt _ => hotherOutside h.holds
          exact ⟨last, by rw [hother.unique hotherNot hpasses hnot]⟩
  | endless =>
      rw [hscan] at hends
      cases hends with
      | endless hcell hstride =>
          rw [hstride, Int.mul_zero, Int.add_zero] at houtside
          exact absurd t.holds_pos houtside

theorem scan_eq_endless_iff : t.scan stride = .endless ↔ stride = 0 ∧ t.cell ≠ 0 := by
  have hends := t.scanEnds_scan stride
  constructor
  · intro hscan
    rw [hscan] at hends
    cases hends with
    | endless hcell hstride => exact ⟨hstride, hcell⟩
  · rintro ⟨rfl, hcell⟩
    -- With no stride every stop is where the head stands, and that cell is not zero.
    have hstay : ∀ k : Nat, (t.pos : Int) + k * 0 = t.pos := by simp
    cases hscan : t.scan 0 with
    | found last =>
        rw [hscan] at hends
        cases hends with
        | found _ hlast hzero =>
            rw [hstay, moveTo?_pos, Option.some.injEq] at hlast
            exact absurd (hlast ▸ hzero) hcell
    | blocked last target =>
        rw [hscan] at hends
        cases hends with
        | blocked _ _ houtside =>
            rw [hstay] at houtside
            exact absurd t.holds_pos houtside
    | endless => rfl

end TapeLang.Tape
