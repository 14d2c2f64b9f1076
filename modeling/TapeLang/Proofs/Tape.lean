import TapeLang.Tape.Scan

/-!
# Operations on a tape, one after the other

Writes to one cell, additions to one cell and moves of the head each combine into a single operation
of the same kind.  These laws are what lets a run of equal commands be carried out at once.

Two loops are prepared here as well.

* A scan with a stride ends on every tape (`scan_ne_endless`): the head gets nearer to the end of
  the tape with each move, so the budget of a scan is never used up.
* Carrying a cell's value one unit at a time does the same as carrying it at once
  (`carryTo?_of_round`): a round that takes one unit off the cell and puts it on the target changes
  nothing about what the carry is going to make of the tape.
-/

namespace TapeLang.Tape

/-! ## Writing and adding -/

@[simp] theorem write_write (t : Tape) (first second : UInt8) :
    (t.write first).write second = t.write second := by
  apply Tape.ext
  · simp [write]
  · rfl

@[simp] theorem write_cell (t : Tape) : t.write t.cell = t := by
  apply Tape.ext
  · simp [write, cell]
  · rfl

@[simp] theorem cell_add (t : Tape) (amount : Int) :
    (t.add amount).cell = t.cell + .ofInt amount := by
  rw [add, cell_write]

@[simp] theorem add_zero (t : Tape) : t.add 0 = t := by
  have hzero : UInt8.ofInt 0 = 0 := rfl
  rw [add, hzero, UInt8.add_zero, write_cell]

theorem add_add (t : Tape) (first second : Int) :
    (t.add first).add second = t.add (first + second) := by
  unfold add
  rw [write_write, cell_write, UInt8.ofInt_add, UInt8.add_assoc]

@[simp] theorem write_add (t : Tape) (amount : Int) (value : UInt8) :
    (t.add amount).write value = t.write value :=
  write_write t _ value

/-! ## Counting down -/

/-- Taking one off a byte that is not zero counts it down. -/
theorem toNat_sub_one_lt {value : UInt8} (hvalue : value ≠ 0) :
    (value - 1).toNat < value.toNat := by
  have hpositive : value.toNat ≠ 0 := fun hzero => hvalue (UInt8.toNat_inj.mp hzero)
  have hle : (1 : UInt8) ≤ value := by
    rw [UInt8.le_iff_toNat_le, UInt8.toNat_one]
    omega
  rw [UInt8.toNat_sub_of_le _ _ hle, UInt8.toNat_one]
  omega

theorem cell_add_neg_one (t : Tape) : (t.add (-1)).cell = t.cell - 1 := by
  rw [cell_add, UInt8.sub_eq_add_neg]
  rfl

/-! ## Moving the head -/

theorem holds_pos (t : Tape) : t.Holds t.pos := by
  have hpos := t.pos_lt
  unfold Holds size
  omega

theorem exists_moveTo? {t : Tape} {target : Int} (htarget : t.Holds target) :
    ∃ moved, t.moveTo? target = some moved := by
  cases hmoved : t.moveTo? target with
  | none => exact absurd htarget (moveTo?_eq_none_iff.mp hmoved)
  | some moved => exact ⟨moved, rfl⟩

@[simp] theorem moveTo?_pos (t : Tape) : t.moveTo? t.pos = some t :=
  moveTo?_eq_some_iff.mpr ⟨t.holds_pos, rfl, rfl⟩

theorem size_of_moveTo? {t moved : Tape} {target : Int} (hmoved : t.moveTo? target = some moved) :
    moved.size = t.size := by
  unfold size
  rw [(moveTo?_eq_some_iff.mp hmoved).2.1]

theorem pos_of_moveTo? {t moved : Tape} {target : Int} (hmoved : t.moveTo? target = some moved) :
    (moved.pos : Int) = target :=
  (moveTo?_eq_some_iff.mp hmoved).2.2

/-- Where the head was before does not matter for where it is moved to. -/
theorem moveTo?_of_moveTo? {t moved : Tape} {first : Int} (hmoved : t.moveTo? first = some moved)
    (second : Int) : moved.moveTo? second = t.moveTo? second := by
  have hsize := size_of_moveTo? hmoved
  have hcells := (moveTo?_eq_some_iff.mp hmoved).2.1
  by_cases hsecond : t.Holds second
  · obtain ⟨last, hlast⟩ := exists_moveTo? hsecond
    rw [hlast, moveTo?_eq_some_iff]
    obtain ⟨_, hlastCells, hlastPos⟩ := moveTo?_eq_some_iff.mp hlast
    exact ⟨by simpa only [Holds, hsize] using hsecond, hlastCells.trans hcells.symm, hlastPos⟩
  · rw [moveTo?_eq_none_iff.mpr hsecond, moveTo?_eq_none_iff]
    simpa only [Holds, hsize] using hsecond

/-! ## Scanning -/

theorem scanFor_of_moveTo? {t moved : Tape} {stride : Int} (hcell : t.cell ≠ 0)
    (hmoved : t.moveTo? (t.pos + stride) = some moved) (budget : Nat) :
    t.scanFor stride (budget + 1) = moved.scanFor stride budget := by
  simp only [scanFor, if_neg hcell, hmoved]

theorem scanFor_of_blocked {t : Tape} {stride : Int} (hcell : t.cell ≠ 0)
    (hblocked : t.moveTo? (t.pos + stride) = none) (budget : Nat) :
    t.scanFor stride (budget + 1) = .blocked t (t.pos + stride) := by
  simp only [scanFor, if_neg hcell, hblocked]

/-- A scan goes on as long as some measure of what lies ahead of the head fits into the budget, and
falls with each move. -/
private theorem scanFor_ne_endless {stride : Int} (ahead : Tape → Nat)
    (hpositive : ∀ t, 0 < ahead t)
    (hfalls : ∀ t moved : Tape, t.moveTo? (t.pos + stride) = some moved → ahead moved < ahead t)
    {budget : Nat} {t : Tape} (hbudget : ahead t ≤ budget) :
    t.scanFor stride budget ≠ .endless := by
  induction budget generalizing t with
  | zero =>
      have hahead := hpositive t
      omega
  | succ budget ih =>
      by_cases hcell : t.cell = 0
      · simp [scanFor, hcell]
      · cases hmoved : t.moveTo? (t.pos + stride) with
        | none => simp [scanFor_of_blocked hcell hmoved]
        | some moved =>
            have hless := hfalls t moved hmoved
            rw [scanFor_of_moveTo? hcell hmoved]
            exact ih (by omega)

/-- A scan with a stride ends. -/
theorem scan_ne_endless (t : Tape) {stride : Int} (hstride : stride ≠ 0) :
    t.scan stride ≠ .endless := by
  rcases Int.lt_or_gt_of_ne hstride with hleft | hright
  · refine scanFor_ne_endless (fun tape => tape.pos + 1) (fun _ => Nat.succ_pos _) ?_ t.pos_lt
    intro before moved hmoved
    have hpos := pos_of_moveTo? hmoved
    omega
  · have hinside : ∀ tape : Tape, tape.pos < tape.size := fun tape => tape.pos_lt
    refine scanFor_ne_endless (fun tape => tape.size - tape.pos) ?_ ?_ (Nat.sub_le _ _)
    · intro tape
      have hpos := hinside tape
      omega
    · intro before moved hmoved
      have hpos := pos_of_moveTo? hmoved
      have hsize := size_of_moveTo? hmoved
      have hmovedPos := hinside moved
      omega

/-! ## Carrying -/

theorem getElem?_write (t : Tape) (value : UInt8) (i : Nat) :
    (t.write value).cells[i]? = if t.pos = i then some value else t.cells[i]? := by
  have hpos := t.pos_lt
  simp only [write, Array.getElem?_set]

theorem getElem?_pos (t : Tape) : t.cells[t.pos]? = some t.cell := by
  have hpos := t.pos_lt
  simp [cell, hpos]

theorem carryTo?_eq_none_iff {t : Tape} {target : Int} :
    t.carryTo? target = none ↔ ¬ t.Holds target := by
  unfold carryTo?
  split <;> simp [*]

theorem holds_of_carryTo? {t carried : Tape} {target : Int}
    (hcarry : t.carryTo? target = some carried) : t.Holds target := by
  unfold carryTo? at hcarry
  split at hcarry
  · assumption
  · cases hcarry

theorem size_of_carryTo? {t carried : Tape} {target : Int}
    (hcarry : t.carryTo? target = some carried) : carried.size = t.size := by
  unfold carryTo? at hcarry
  split at hcarry
  · cases hcarry
    simp [size, write]
  · cases hcarry

/-- What a carry leaves in each cell. -/
theorem carryTo?_eq_some_iff {t carried : Tape} {target : Nat} :
    t.carryTo? target = some carried ↔
      target < t.size ∧ carried.pos = t.pos ∧
        ∀ i : Nat, carried.cells[i]? =
          if t.pos = i then some 0
          else if target = i then t.cells[i]?.map (· + t.cell) else t.cells[i]? := by
  have hholds : t.Holds target ↔ target < t.size := by
    unfold Holds
    omega
  have hcells : ∀ (h : t.pos < (t.cells.modify target (· + t.cell)).size) (i : Nat),
      (({ t with cells := t.cells.modify target (· + t.cell), pos_lt := h } : Tape).write
        0).cells[i]? =
          if t.pos = i then some 0
          else if target = i then t.cells[i]?.map (· + t.cell) else t.cells[i]? := by
    intro h i
    rw [getElem?_write, Array.getElem?_modify]
  unfold carryTo?
  constructor
  · intro hcarried
    split at hcarried
    · cases hcarried
      exact ⟨hholds.mp ‹_›, rfl, fun i => hcells _ i⟩
    · cases hcarried
  · rintro ⟨htarget, hpos, hcarried⟩
    rw [if_pos (hholds.mpr htarget)]
    refine congrArg some (Tape.ext (Array.ext_getElem? fun i => ?_) hpos.symm)
    rw [hcarried]
    exact hcells _ i

/-- There is nothing to carry from a zero cell. -/
theorem carryTo?_of_cell_eq_zero {t : Tape} {target : Nat} (htarget : target < t.size)
    (hzero : t.cell = 0) : t.carryTo? target = some t := by
  refine carryTo?_eq_some_iff.mpr ⟨htarget, rfl, ?_⟩
  intro i
  split
  · subst i
    rw [getElem?_pos, hzero]
  · split
    · simp [hzero]
    · rfl

/-- What each cell holds after one unit of the cell under the head is put on another cell. -/
private theorem getElem?_round {t away back : Tape} {target : Nat} (hother : t.pos ≠ target)
    (haway : (t.add (-1)).moveTo? target = some away)
    (hback : (away.add 1).moveTo? t.pos = some back) (i : Nat) :
    back.cells[i]? =
      if t.pos = i then some (t.cell - 1)
      else if target = i then t.cells[i]?.map (· + 1) else t.cells[i]? := by
  obtain ⟨-, hawayCells, hawayPos⟩ := moveTo?_eq_some_iff.mp haway
  obtain ⟨-, hbackCells, -⟩ := moveTo?_eq_some_iff.mp hback
  have hawayPos : away.pos = target := by omega
  have hone : UInt8.ofInt (-1) = -1 := rfl
  have hawayCell : t.cells[target]? = some away.cell := by
    have hcell := away.getElem?_pos
    rwa [hawayPos, hawayCells, add, getElem?_write, if_neg hother] at hcell
  rw [hbackCells, add, getElem?_write, hawayPos, hawayCells, add, getElem?_write]
  by_cases hpos : t.pos = i
  · have htarget : target ≠ i := fun h => hother (hpos.trans h.symm)
    rw [if_pos hpos, if_pos hpos, if_neg htarget, hone, UInt8.sub_eq_add_neg]
  · by_cases htarget : target = i
    · subst i
      rw [if_pos rfl, if_neg hpos, if_pos rfl, hawayCell]
      rfl
    · rw [if_neg htarget, if_neg hpos, if_neg hpos, if_neg htarget]

theorem pos_of_round {t away back : Tape} (hback : (away.add 1).moveTo? t.pos = some back) :
    back.pos = t.pos := by
  have hpos := pos_of_moveTo? hback
  omega

theorem size_of_round {t away back : Tape} {target : Nat}
    (haway : (t.add (-1)).moveTo? target = some away)
    (hback : (away.add 1).moveTo? t.pos = some back) : back.size = t.size := by
  rw [size_of_moveTo? hback, size_add, size_of_moveTo? haway, size_add]

theorem cell_of_round {t away back : Tape} {target : Nat} (hother : t.pos ≠ target)
    (haway : (t.add (-1)).moveTo? target = some away)
    (hback : (away.add 1).moveTo? t.pos = some back) : back.cell = t.cell - 1 := by
  have hcell := back.getElem?_pos
  rw [pos_of_round hback, getElem?_round hother haway hback, if_pos rfl] at hcell
  exact (Option.some.inj hcell).symm

/-- One unit of the cell can be carried in front of all the others. -/
theorem carryTo?_of_round {t away back : Tape} {target : Nat} (hother : t.pos ≠ target)
    (haway : (t.add (-1)).moveTo? target = some away)
    (hback : (away.add 1).moveTo? t.pos = some back) :
    back.carryTo? target = t.carryTo? target := by
  have hpos := pos_of_round hback
  have hsize := size_of_round haway hback
  cases hcarry : t.carryTo? target with
  | none =>
      rw [carryTo?_eq_none_iff] at hcarry ⊢
      simpa only [Holds, hsize] using hcarry
  | some carried =>
      obtain ⟨htarget, hcarriedPos, hcarried⟩ := carryTo?_eq_some_iff.mp hcarry
      refine carryTo?_eq_some_iff.mpr ⟨by omega, by omega, ?_⟩
      intro i
      rw [hcarried, getElem?_round hother haway hback, hpos, cell_of_round hother haway hback]
      have hunit : ∀ value : UInt8, value + t.cell = value + 1 + (t.cell - 1) := by
        intro value
        rw [UInt8.add_assoc, UInt8.add_comm 1, UInt8.sub_add_cancel]
      by_cases hi : t.pos = i
      · simp only [if_pos hi]
      · by_cases hti : target = i
        · simp only [if_neg hi, if_pos hti, Option.map_map, Function.comp_def, hunit]
        · simp only [if_neg hi, if_neg hti]

end TapeLang.Tape
