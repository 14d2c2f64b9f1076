import TapeLang.Proofs.Tape.Scan

/-!
# The tape from the other side

`Tape.mirror t` is the tape `t` with its cells in reverse order and the head on the same cell.  The
position `i` of `t` is the position `t.opposite i` of the mirrored tape, also if it does not lie on
the tape.  What an operation makes of the mirrored tape at an opposite position is what it makes of
`t` at the position itself, mirrored.  A scan goes by the opposite stride.
-/

namespace TapeLang.Tape

theorem pos_lt_size_reverse (t : Tape) : t.size - 1 - t.pos < t.cells.reverse.size := by
  have hpos := t.pos_lt
  rw [Array.size_reverse, size]
  omega

/-- The tape with its cells in reverse order. -/
def mirror (t : Tape) : Tape where
  cells := t.cells.reverse
  pos := t.size - 1 - t.pos
  pos_lt := t.pos_lt_size_reverse

/-- The same position, counted from the other end. -/
def opposite (t : Tape) (target : Int) : Int :=
  t.size - 1 - target

variable {t moved : Tape} {target stride : Int}

@[simp] theorem size_mirror : t.mirror.size = t.size :=
  Array.size_reverse

theorem toList_cells_mirror : t.mirror.cells.toList = t.cells.toList.reverse :=
  Array.toList_reverse

theorem eq_mirror {u : Tape} (hcells : u.cells.toList = t.cells.toList.reverse)
    (hpos : u.pos = t.size - 1 - t.pos) : u = t.mirror := by
  apply Tape.ext
  · apply Array.ext'
    rw [hcells, toList_cells_mirror]
  · exact hpos

theorem pos_mirror : (t.mirror.pos : Int) = t.opposite t.pos := by
  have hpos : t.pos < t.size := t.pos_lt
  show ((t.size - 1 - t.pos : Nat) : Int) = t.opposite t.pos
  unfold opposite
  omega

@[simp] theorem mirror_mirror : t.mirror.mirror = t := by
  have hpos : t.pos < t.size := t.pos_lt
  apply Tape.ext
  · exact Array.reverse_reverse t.cells
  · show t.mirror.size - 1 - (t.size - 1 - t.pos) = t.pos
    rw [size_mirror]
    omega

theorem getElem?_mirror (i : Nat) :
    t.mirror.cells[i]? = if i < t.size then t.cells[t.size - 1 - i]? else none := by
  split
  · exact Array.getElem?_reverse ‹i < t.size›
  · rename_i hend
    rw [← size_mirror] at hend
    exact Array.getElem?_eq_none (Nat.le_of_not_lt hend)

theorem pos_mirror_eq_iff {i : Nat} (hi : i < t.size) :
    t.mirror.pos = i ↔ t.pos = t.size - 1 - i := by
  have hpos : t.pos < t.size := t.pos_lt
  have hmirror := t.pos_mirror
  unfold opposite at hmirror
  omega

theorem pos_mirror_lt (t : Tape) : t.mirror.pos < t.size := by
  have hpos : t.mirror.pos < t.mirror.size := t.mirror.pos_lt
  rwa [size_mirror] at hpos

@[simp] theorem cell_mirror : t.mirror.cell = t.cell := by
  have hcell := t.mirror.getElem?_pos
  rw [getElem?_mirror, if_pos t.pos_mirror_lt, ← (pos_mirror_eq_iff t.pos_mirror_lt).mp rfl,
    getElem?_pos, Option.some.injEq] at hcell
  exact hcell.symm

/-! ## Writing, moving and carrying -/

@[simp] theorem write_mirror (value : UInt8) : t.mirror.write value = (t.write value).mirror := by
  apply Tape.ext
  · apply Array.ext_getElem?
    intro i
    rw [getElem?_write, getElem?_mirror, getElem?_mirror, size_write]
    by_cases hi : i < t.size
    · simp only [if_pos hi, getElem?_write, pos_mirror_eq_iff hi]
    · have hhead := t.pos_mirror_lt
      have hother : t.mirror.pos ≠ i := by omega
      simp only [if_neg hi, if_neg hother]
  · show t.mirror.pos = (t.write value).size - 1 - t.pos
    rw [size_write]
    rfl

@[simp] theorem add_mirror (amount : Int) : t.mirror.add amount = (t.add amount).mirror := by
  rw [add, cell_mirror, write_mirror]
  rfl

theorem holds_mirror_iff : t.mirror.Holds (t.opposite target) ↔ t.Holds target := by
  unfold Holds opposite
  rw [size_mirror]
  omega

theorem moveTo?_mirror : t.mirror.moveTo? (t.opposite target) = (t.moveTo? target).map mirror := by
  cases hmoved : t.moveTo? target with
  | none =>
      rw [moveTo?_eq_none_iff] at hmoved
      exact moveTo?_eq_none_iff.mpr (mt holds_mirror_iff.mp hmoved)
  | some moved =>
      obtain ⟨hholds, hcells, hpos⟩ := moveTo?_eq_some_iff.mp hmoved
      have hsize := size_of_moveTo? hmoved
      refine moveTo?_eq_some_iff.mpr ⟨holds_mirror_iff.mpr hholds, ?_, ?_⟩
      · simp only [mirror, hcells]
      · rw [pos_mirror, hpos, opposite, opposite, hsize]

theorem carryTo?_mirror :
    t.mirror.carryTo? (t.opposite target) = (t.carryTo? target).map mirror := by
  cases hcarried : t.carryTo? target with
  | none =>
      rw [carryTo?_eq_none_iff] at hcarried
      exact carryTo?_eq_none_iff.mpr (mt holds_mirror_iff.mp hcarried)
  | some carried =>
      obtain ⟨place, rfl⟩ := Int.eq_ofNat_of_zero_le (holds_of_carryTo? hcarried).1
      have hsize := size_of_carryTo? hcarried
      obtain ⟨hplace, hpos, hcells⟩ := carryTo?_eq_some_iff.mp hcarried
      have hopposite : t.opposite place = (t.size - 1 - place : Nat) := by
        unfold opposite
        omega
      rw [hopposite]
      refine carryTo?_eq_some_iff.mpr ⟨by rw [size_mirror]; omega, ?_, fun i => ?_⟩
      · show carried.size - 1 - carried.pos = t.size - 1 - t.pos
        rw [hsize, hpos]
      · rw [getElem?_mirror, getElem?_mirror, hsize, cell_mirror]
        by_cases hi : i < t.size
        · have htarget : t.size - 1 - place = i ↔ place = t.size - 1 - i := by omega
          simp only [if_pos hi, hcells, pos_mirror_eq_iff hi, htarget]
        · have hhead := t.pos_mirror_lt
          have hother : t.mirror.pos ≠ i := by omega
          have haside : t.size - 1 - place ≠ i := by omega
          simp only [if_neg hi, if_neg hother, if_neg haside]

/-! ## Scanning -/

/-- A scan of the mirrored tape. -/
def Scan.mirror : Scan → Scan
  | found tape => found tape.mirror
  | blocked tape target => blocked tape.mirror (tape.opposite target)
  | endless => endless

theorem scanFor_mirror (budget : Nat) :
    t.mirror.scanFor (-stride) budget = (t.scanFor stride budget).mirror := by
  induction budget generalizing t with
  | zero => rfl
  | succ budget ih =>
      have htarget : (t.mirror.pos : Int) + -stride = t.opposite (t.pos + stride) := by
        rw [pos_mirror]
        unfold opposite
        omega
      rw [scanFor, scanFor, cell_mirror]
      split
      · rfl
      · simp only [htarget, moveTo?_mirror]
        cases hmoved : t.moveTo? (t.pos + stride) with
        | none => rfl
        | some moved => exact ih

theorem scan_mirror (t : Tape) (stride : Int) :
    t.mirror.scan (-stride) = (t.scan stride).mirror := by
  rw [scan, scan, size_mirror, scanFor_mirror]

end TapeLang.Tape
