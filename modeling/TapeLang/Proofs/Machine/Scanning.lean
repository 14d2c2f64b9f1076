import TapeLang.Proofs.Machine.Stop

/-!
# What a scan does in one step

A scan by a stride looks at the positions `dp`, `dp + stride`, `dp + 2 * stride` and so on.  It
comes to rest at the first one that is outside the tape or holds a zero (`Tape.StopsAt`), and no
cell is visited twice, so this happens after at most as many strides as the tape has cells
(`Tape.Passes.le_size`).

The number of strides tells the whole step (`scan_ends_at_first_stop`).  Nothing but the head, the
counter and the trace can change, and the counter only if the position lies on the tape.  Otherwise
the step is a fault at that position, and the head has stayed one stride in front of it.  The fault
comes out if its position can be written.
-/

namespace TapeLang

namespace Tape

variable {t : Tape} {stride : Int}

/-- The position is outside the tape, or its cell is zero. -/
def StopsAt (t : Tape) (position : Int) : Prop :=
  ¬ t.Holds position ∨ t.cells[position.toNat]? = some 0

instance (t : Tape) (position : Int) : Decidable (t.StopsAt position) :=
  inferInstanceAs (Decidable (_ ∨ _))

theorem stopsAt_iff {position : Int} : t.StopsAt position ↔ ¬ t.NonzeroAt position := by
  constructor
  · rintro (houtside | hzero) hnonzero
    · exact houtside hnonzero.holds
    · obtain ⟨i, value, rfl, hget, hvalue⟩ := hnonzero
      rw [Int.toNat_natCast, hget, Option.some.injEq] at hzero
      exact hvalue hzero
  · intro hnot
    by_cases hholds : t.Holds position
    · obtain ⟨hlow, hhigh⟩ := hholds
      obtain ⟨i, rfl⟩ := Int.eq_ofNat_of_zero_le hlow
      have hlt : i < t.cells.size := Int.ofNat_lt.mp hhigh
      have hget : t.cells[i]? = some t.cells[i] := Array.getElem?_eq_getElem hlt
      -- The cell is there, so it can only be its value that is wrong.
      have hvalue : t.cells[i] = 0 :=
        Decidable.byContradiction fun hvalue => hnot ⟨i, _, rfl, hget, hvalue⟩
      exact .inr (hget.trans (congrArg some hvalue))
    · exact .inl hholds

/-- A scan passes each cell at most once. -/
theorem Passes.le_size {count : Nat} (hpasses : t.Passes stride count) (hstride : stride ≠ 0) :
    count ≤ t.size := by
  cases count with
  | zero => exact Nat.zero_le _
  | succ last =>
      have hpos : t.pos < t.size := t.pos_lt
      obtain ⟨hlow, hhigh⟩ := (hpasses last (Nat.lt_succ_self last)).holds
      have hnonneg : (0 : Int) ≤ last := Int.natCast_nonneg last
      rcases Int.lt_or_gt_of_ne hstride with hleft | hright
      · have hfar : (last : Int) * stride ≤ last * (-1) :=
          Int.mul_le_mul_of_nonneg_left (by omega) hnonneg
        omega
      · have hfar : (last : Int) * 1 ≤ last * stride :=
          Int.mul_le_mul_of_nonneg_left (by omega) hnonneg
        omega

end Tape

namespace Machine

variable {m : Machine} {s : State} {d : Direction} {arg : Int}

theorem step_of_found (hget : m.program.get? s.pc = some (.of (.scan d) arg)) {last : Tape}
    (hscan : s.tape.scan (d.offset arg) = .found last) :
    ∃ trace, m.step s = .next { s with trace, tape := last, pc := s.pc + 1 } := by
  obtain ⟨trace, hnote⟩ := m.exists_trace_of_note (.scan d) arg s
  refine ⟨trace, ?_⟩
  rw [step_of_get? hget, hnote]
  simp only [perform, State.scan, hscan, Step.map]

theorem step_of_blocked (hget : m.program.get? s.pc = some (.of (.scan d) arg)) {last : Tape}
    {target : Int} (hscan : s.tape.scan (d.offset arg) = .blocked last target) :
    ∃ trace, m.step s =
      .stop (.fault ⟨.outOfBounds target, s.pc, last.pos⟩) { s with trace, tape := last } := by
  obtain ⟨trace, hnote⟩ := m.exists_trace_of_note (.scan d) arg s
  refine ⟨trace, ?_⟩
  rw [step_of_get? hget, hnote]
  simp only [perform, State.scan, hscan, State.stopWith, State.faultOf, State.dp, Step.map]

/-- What comes out of a scan for which the line of the trace can be written. -/
theorem attempt_of_found (hget : m.program.get? s.pc = some (.of (.scan d) arg))
    (hshort : ¬ m.Overlong s) {last : Tape} (hscan : s.tape.scan (d.offset arg) = .found last) :
    ∃ trace, m.attempt s = .next { s with trace, tape := last, pc := s.pc + 1 } := by
  obtain ⟨trace, hstep⟩ := step_of_found hget hscan
  exact ⟨trace, by rw [attempt_of_not_overlong hshort, hstep, Step.attempt]⟩

theorem attempt_of_blocked (hget : m.program.get? s.pc = some (.of (.scan d) arg))
    (hshort : ¬ m.Overlong s) {last : Tape} {target : Int}
    (hscan : s.tape.scan (d.offset arg) = .blocked last target) :
    ∃ trace, m.attempt s =
      .raised (if Decimal.Writable target then .fault ⟨.outOfBounds target, s.pc, last.pos⟩
        else .crash .unwritable) { s with trace, tape := last } := by
  obtain ⟨trace, hstep⟩ := step_of_blocked hget hscan
  exact ⟨trace, by rw [attempt_of_not_overlong hshort, hstep]; rfl⟩

/-- A scan with a stride ends, on any tape and from any cell.  It takes the least number of strides
that lead out of the tape or to a zero, which is no more than the tape has cells.  If the position
is outside and too long for the message, with more than 4300 digits, the crash of the text comes
out.  If the line of the trace is too long already, nothing else happens. -/
theorem scan_ends_at_first_stop (hnames : m.program.Names s.pc (.of (.scan d) arg))
    (hstride : arg ≠ 0) :
    (∀ z, Decimal.Writable z ↔ (Nat.toDigits 10 z.natAbs).length ≤ 4300) ∧
    (∃ k : Nat, k ≤ s.tape.size ∧ s.tape.StopsAt (s.dp + k * d.offset arg) ∧
      (∀ j : Nat, j < k → ¬ s.tape.StopsAt (s.dp + j * d.offset arg)) ∧
      (¬ m.Overlong s → ∃ trace last, last.cells = s.tape.cells ∧
        (s.tape.Holds (s.dp + k * d.offset arg) →
          (last.pos : Int) = s.dp + k * d.offset arg ∧
          m.attempt s = .next { s with trace, tape := last, pc := s.pc + 1 }) ∧
        (¬ s.tape.Holds (s.dp + k * d.offset arg) →
          (last.pos : Int) = s.dp + ((k : Int) - 1) * d.offset arg ∧
          m.attempt s = .raised
            (if Decimal.Writable (s.dp + k * d.offset arg) then
              .fault ⟨.outOfBounds (s.dp + k * d.offset arg), s.pc, last.pos⟩
            else .crash .unwritable) { s with trace, tape := last }))) ∧
    (m.Overlong s → ∃ trace, m.attempt s = .raised (.crash .unwritable) { s with trace }) := by
  have hget := Program.get?_eq_some_iff.mpr hnames
  have hmoves := d.offset_ne_zero hstride
  have hearlier {k : Nat} (hpasses : s.tape.Passes (d.offset arg) k) :
      ∀ j : Nat, j < k → ¬ s.tape.StopsAt (s.dp + j * d.offset arg) :=
    fun j hj hstops => Tape.stopsAt_iff.mp hstops (hpasses j hj)
  have hends := s.tape.scanEnds_scan (d.offset arg)
  refine ⟨fun _ => Decimal.writable_iff_length, ?_, attempt_of_overlong⟩
  cases hscan : s.tape.scan (d.offset arg) with
  | found last =>
      rw [hscan] at hends
      cases hends with
      | @found k _ hpasses hlast hzero =>
          obtain ⟨hholds, hcells, hpos⟩ := Tape.moveTo?_eq_some_iff.mp hlast
          have hstops : ¬ s.tape.NonzeroAt (s.dp + k * d.offset arg) := fun hnonzero =>
            (Tape.nonzeroAt_target_iff hlast).mp hnonzero hzero
          refine ⟨k, hpasses.le_size hmoves, Tape.stopsAt_iff.mpr hstops, hearlier hpasses,
            fun hshort => ?_⟩
          obtain ⟨trace, hattempt⟩ := attempt_of_found hget hshort hscan
          exact ⟨trace, last, hcells, fun _ => ⟨hpos, hattempt⟩,
            fun houtside => absurd hholds houtside⟩
  | blocked last target =>
      rw [hscan] at hends
      cases hends with
      | @blocked k _ hpasses hlast houtside =>
          obtain ⟨-, hcells, hpos⟩ := Tape.moveTo?_eq_some_iff.mp hlast
          have hbefore : ((k + 1 : Nat) : Int) - 1 = k := by omega
          refine ⟨k + 1, hpasses.le_size hmoves, .inl houtside, hearlier hpasses, fun hshort => ?_⟩
          obtain ⟨trace, hattempt⟩ := attempt_of_blocked hget hshort hscan
          refine ⟨trace, last, hcells, fun hholds => absurd hholds houtside,
            fun _ => ⟨?_, hattempt⟩⟩
          rw [hbefore]
          exact hpos
  | endless => exact absurd hscan (s.tape.scan_ne_endless hmoves)

/-- From the last of three cells, a scan by two cells to the left comes to rest outside the tape. -/
theorem scan_ends_at_first_stop_by_two :
    let m : Machine := { program := .ofList [.of (.scan .left) 2] }
    let s : State := { tape := ⟨#[1, 0, 1], 2, by decide⟩, input := [] }
    m.program.Names s.pc (.of (.scan .left) 2) ∧ (2 : Int) ≠ 0 ∧ ¬ m.Overlong s ∧
      ∃ trace last, last.pos = 0 ∧ last.cells = s.tape.cells ∧
        m.attempt s =
          .raised (.fault ⟨.outOfBounds (-2), 0, 0⟩) { s with trace, tape := last } := by
  intro m s
  have hnames : m.program.Names s.pc (.of (.scan .left) 2) := ⟨0, rfl, .inl rfl⟩
  have hshort : ¬ m.Overlong s := not_overlong_of_no_records rfl rfl
  obtain ⟨-, ⟨k, -, hstops, hleast, hends⟩, -⟩ := scan_ends_at_first_stop hnames (by decide)
  obtain ⟨trace, last, hcells, -, hblocked⟩ := hends hshort
  have hhere : k ≠ 0 := by
    rintro rfl
    exact absurd hstops (by decide)
  have hnext : k ≠ 1 := by
    rintro rfl
    exact absurd hstops (by decide)
  have hlater : ¬ 2 < k := fun hlt => hleast 2 hlt (by decide)
  obtain rfl : k = 2 := by omega
  obtain ⟨hpos, hattempt⟩ := hblocked (by decide)
  have hzero : last.pos = 0 := Int.ofNat_eq_zero.mp hpos
  have htarget : Decimal.Writable (s.dp + (2 : Nat) * Direction.left.offset 2) :=
    Decimal.writable_of_lt_ten (by decide)
  rw [hzero, if_pos htarget] at hattempt
  exact ⟨hnames, by decide, hshort, trace, last, hzero, hcells, hattempt⟩

/-- A scan by one stride to a position that is too long for the message. -/
theorem scan_too_far_for_message :
    let m : Machine := { program := .ofList [.of (.scan .right) (Decimal.limit - 1)] }
    let s : State := { tape := ⟨#[0, 1], 1, by decide⟩, input := [] }
    let target : Int := s.dp + Direction.right.offset (Decimal.limit - 1)
    m.program.Names s.pc (.of (.scan .right) (Decimal.limit - 1)) ∧
      ¬ s.tape.StopsAt s.dp ∧ ¬ s.tape.Holds target ∧
      4300 < (Nat.toDigits 10 target.natAbs).length ∧
      (¬ ∃ fault last, m.attempt s = .raised (.fault fault) last) ∧
      ∃ last, m.attempt s = .raised (.crash .unwritable) last := by
  intro m s target
  have htarget : target = Decimal.limit := by
    show (1 : Nat) + ((Decimal.limit : Int) - 1) = Decimal.limit
    omega
  have hnames : m.program.Names s.pc (.of (.scan .right) (Decimal.limit - 1)) :=
    ⟨0, rfl, .inl rfl⟩
  have houtside : ¬ s.tape.Holds target := by
    rw [htarget]
    exact Tape.not_holds_limit (by decide)
  have hlong : ¬ Decimal.Writable target := by
    rw [htarget]
    exact Decimal.not_writable_limit
  obtain ⟨last, hlast⟩ :=
    attempt_of_long_target (asks_of_scan hnames (by decide) rfl houtside) hlong
  refine ⟨hnames, by decide, houtside, ?_, ?_, last, hlast⟩
  · rw [htarget, Int.natAbs_natCast]
    exact Decimal.lt_length_limit
  rintro ⟨fault, other, hraised⟩
  rw [hlast] at hraised
  cases hraised

end Machine

end TapeLang
