import TapeLang.Proofs.Tape.Scan

/-!
# More cells behind a tape

`Tape.widened extra t` is the tape `t` with some zero cells behind its last one.  What an operation
makes of the wider tape is what it makes of `t`, with the same cells behind it.  There is one
exception: a target on the new cells (`Tape.IsNew`).  On `t` such a target is refused, and on the
wider tape it is not.

A scan that is refused there finds a zero cell on the wider tape, because all new cells are zero
(`scan_widened`).
-/

namespace TapeLang.Tape

/-- The tape with zero cells behind its last one. -/
def widened (extra : Nat) (t : Tape) : Tape where
  cells := t.cells ++ Array.replicate extra 0
  pos := t.pos
  pos_lt := by
    have hpos := t.pos_lt
    rw [Array.size_append]
    omega

/-- A position that lies on the wider tape only. -/
def IsNew (t : Tape) (extra : Nat) (target : Int) : Prop :=
  (t.size : Int) ≤ target ∧ target < t.size + extra

variable {t moved : Tape} {extra : Nat} {target stride : Int}

@[simp] theorem pos_widened : (t.widened extra).pos = t.pos := rfl

@[simp] theorem size_widened : (t.widened extra).size = t.size + extra := by
  simp [widened, size]

theorem blank_widened {small large : TapeLength} (hlarge : large.val = small.val + extra) :
    (blank small).widened extra = blank large := by
  apply Tape.ext
  · simp [widened, blank, hlarge, Array.replicate_append_replicate]
  · rfl

/-- The old cells stay, and the new ones are zero. -/
theorem getElem?_widened (i : Nat) :
    (t.widened extra).cells[i]? =
      if i < t.size then t.cells[i]? else if i < t.size + extra then some 0 else none := by
  by_cases hold : i < t.size
  · rw [if_pos hold]
    exact Array.getElem?_append_left hold
  · rw [if_neg hold, widened, Array.getElem?_append_right (Nat.le_of_not_lt hold),
      Array.getElem?_replicate]
    have hnew : i - t.cells.size < extra ↔ i < t.size + extra := by
      unfold size at hold ⊢
      omega
    simp only [hnew]

@[simp] theorem cell_widened : (t.widened extra).cell = t.cell := by
  have hcell := (t.widened extra).getElem?_pos
  have hpos : t.pos < t.size := t.pos_lt
  rw [getElem?_widened, pos_widened, if_pos hpos, getElem?_pos, Option.some.injEq] at hcell
  exact hcell.symm

/-! ## Writing, moving and carrying -/

@[simp] theorem write_widened (value : UInt8) :
    (t.widened extra).write value = (t.write value).widened extra := by
  apply Tape.ext
  · have hpos := t.pos_lt
    simp [widened, write, hpos]
  · rfl

@[simp] theorem add_widened (amount : Int) :
    (t.widened extra).add amount = (t.add amount).widened extra := by
  rw [add, cell_widened, write_widened]
  rfl

theorem holds_widened_iff :
    (t.widened extra).Holds target ↔ t.Holds target ∨ t.IsNew extra target := by
  unfold Holds IsNew
  rw [size_widened]
  omega

theorem moveTo?_widened_of_some (extra : Nat) (hmoved : t.moveTo? target = some moved) :
    (t.widened extra).moveTo? target = some (moved.widened extra) := by
  obtain ⟨hholds, hcells, hpos⟩ := moveTo?_eq_some_iff.mp hmoved
  refine moveTo?_eq_some_iff.mpr ⟨holds_widened_iff.mpr (.inl hholds), ?_, hpos⟩
  simp only [widened, hcells]

theorem moveTo?_widened_of_none (hblocked : t.moveTo? target = none)
    (hold : ¬ t.IsNew extra target) : (t.widened extra).moveTo? target = none := by
  rw [moveTo?_eq_none_iff] at hblocked ⊢
  rw [holds_widened_iff]
  exact fun h => h.elim hblocked hold

theorem carryTo?_widened_of_some (hcarried : t.carryTo? target = some moved) :
    (t.widened extra).carryTo? target = some (moved.widened extra) := by
  have hsize := size_of_carryTo? hcarried
  obtain ⟨place, rfl⟩ := Int.eq_ofNat_of_zero_le (holds_of_carryTo? hcarried).1
  obtain ⟨hplace, hpos, hcells⟩ := carryTo?_eq_some_iff.mp hcarried
  refine carryTo?_eq_some_iff.mpr ⟨by rw [size_widened]; omega, hpos, fun i => ?_⟩
  have hhead : t.pos < t.size := t.pos_lt
  rw [getElem?_widened, getElem?_widened, hcells, hsize, pos_widened, cell_widened]
  by_cases hi : i < t.size
  · simp only [if_pos hi]
  · have hother : t.pos ≠ i := by omega
    have haside : place ≠ i := by omega
    simp only [if_neg hi, if_neg hother, if_neg haside]

theorem carryTo?_widened_of_none (hblocked : t.carryTo? target = none)
    (hold : ¬ t.IsNew extra target) : (t.widened extra).carryTo? target = none := by
  rw [carryTo?_eq_none_iff] at hblocked ⊢
  rw [holds_widened_iff]
  exact fun h => h.elim hblocked hold

/-! ## Scanning -/

/-- A scan with its tape made wider. -/
def Scan.widened (extra : Nat) : Scan → Scan
  | found tape => found (tape.widened extra)
  | blocked tape target => blocked (tape.widened extra) target
  | endless => endless

/-- A new cell is zero. -/
theorem cell_of_isNew (hnew : t.IsNew extra target)
    (hmoved : (t.widened extra).moveTo? target = some moved) : moved.cell = 0 := by
  obtain ⟨place, rfl⟩ : ∃ place : Nat, target = place :=
    Int.eq_ofNat_of_zero_le (Int.le_trans (Int.natCast_nonneg _) hnew.1)
  obtain ⟨hlow, hhigh⟩ := hnew
  obtain ⟨-, hcells, hpos⟩ := moveTo?_eq_some_iff.mp hmoved
  have hcell := moved.getElem?_pos
  rw [hcells, getElem?_widened, if_neg (by omega), if_pos (by omega), Option.some.injEq] at hcell
  exact hcell.symm

private theorem scanFor_widened (extra : Nat) {budget : Nat}
    (hover : t.scanFor stride budget ≠ .endless) :
    (t.widened extra).scanFor stride (budget + extra) = (t.scanFor stride budget).widened extra ∨
      ∃ last target found, IsNew last extra target ∧
        t.scanFor stride budget = .blocked last target ∧
        (t.widened extra).scanFor stride (budget + extra) = .found found := by
  induction budget generalizing t with
  | zero => exact absurd rfl hover
  | succ budget ih =>
      rw [Nat.add_right_comm]
      by_cases hcell : t.cell = 0
      · refine .inl ?_
        rw [scanFor, scanFor, if_pos hcell, cell_widened, if_pos hcell]
        rfl
      · have hwide : (t.widened extra).cell ≠ 0 := by rwa [cell_widened]
        cases hmoved : t.moveTo? (t.pos + stride) with
        | some moved =>
            have hwidened := moveTo?_widened_of_some extra hmoved
            rw [scanFor_of_moveTo? hcell hmoved] at hover ⊢
            rw [scanFor_of_moveTo? hwide hwidened]
            exact ih hover
        | none =>
            rw [scanFor_of_blocked hcell hmoved]
            by_cases hnew : t.IsNew extra (t.pos + stride)
            · obtain ⟨moved, hwidened⟩ := exists_moveTo? (holds_widened_iff.mpr (.inr hnew))
              obtain ⟨more, hmore⟩ : ∃ more, budget + extra = more + 1 := by
                obtain ⟨hlow, hhigh⟩ := hnew
                exact ⟨budget + extra - 1, by omega⟩
              refine .inr ⟨t, t.pos + stride, moved, hnew, rfl, ?_⟩
              rw [scanFor_of_moveTo? hwide hwidened, hmore, scanFor,
                if_pos (cell_of_isNew hnew hwidened)]
            · exact .inl (scanFor_of_blocked hwide (moveTo?_widened_of_none hmoved hnew) _)

/-- A scan ends on the wider tape as it does on the tape itself, unless it leaves the tape for a new
cell.  It stops there then. -/
theorem scan_widened (t : Tape) (extra : Nat) (stride : Int) :
    (t.widened extra).scan stride = (t.scan stride).widened extra ∨
      ∃ last target found, IsNew last extra target ∧ t.scan stride = .blocked last target ∧
        (t.widened extra).scan stride = .found found := by
  by_cases hover : t.scan stride = .endless
  · obtain ⟨hstride, hcell⟩ := scan_eq_endless_iff.mp hover
    have hwide : (t.widened extra).cell ≠ 0 := by rwa [cell_widened]
    rw [hover]
    exact .inl (scan_eq_endless_iff.mpr ⟨hstride, hwide⟩)
  · have hscan := scanFor_widened extra hover
    rw [← size_widened] at hscan
    exact hscan

end TapeLang.Tape
