import TapeLang.Program

/-!
# Pieces of a program

`Program.HasAt p place row` says that a row of instructions stands at a place of a program.  A row
is taken apart with `hasAt_cons` and `hasAt_append`, down to single instructions.

`Program.Names p offset i` says which instruction an offset names: it counts from the front, or from
the end.
-/

namespace TapeLang

/-- The instructions of a row stand in the program, from a place on. -/
def Program.HasAt (p : Program) (place : Nat) (row : List Instruction) : Prop :=
  row <+: p.toList.drop place

/-- An offset from the front or from the end names the instruction. -/
def Program.Names (p : Program) (offset : Int) (i : Instruction) : Prop :=
  ∃ place : Nat, p.toList[place]? = some i ∧ (offset = place ∨ offset = (place : Int) - p.size)

namespace Program

variable {p : Program} {place : Nat}

theorem hasAt_cons {i : Instruction} {row : List Instruction} :
    p.HasAt place (i :: row) ↔ p.toList[place]? = some i ∧ p.HasAt (place + 1) row := by
  unfold HasAt
  cases hdrop : p.toList.drop place with
  | nil =>
      have hend : p.toList.length ≤ place := List.drop_eq_nil_iff.mp hdrop
      simp [List.getElem?_eq_none hend]
  | cons head tail =>
      have hhead : p.toList[place]? = some head := by
        rw [← List.head?_drop, hdrop, List.head?_cons]
      have htail : p.toList.drop (place + 1) = tail := by
        rw [← List.tail_drop, hdrop, List.tail_cons]
      rw [List.cons_prefix_cons, hhead, htail, Option.some.injEq, eq_comm]

theorem hasAt_append {first second : List Instruction} :
    p.HasAt place (first ++ second) ↔
      p.HasAt place first ∧ p.HasAt (place + first.length) second := by
  induction first generalizing place with
  | nil => simp [HasAt]
  | cons i rest ih =>
      rw [List.cons_append, hasAt_cons, hasAt_cons, ih, and_assoc, List.length_cons,
        Nat.add_right_comm, Nat.add_assoc]

/-- A program is a piece of itself. -/
theorem hasAt_zero {row : List Instruction} (hlist : p.toList = row) : p.HasAt 0 row :=
  ⟨[], by rw [List.append_nil, List.drop_zero, hlist]⟩

theorem HasAt.getElem? {place k : Nat} {row : List Instruction} {i : Instruction}
    (hrow : p.HasAt place row) (hget : row[k]? = some i) : p.toList[place + k]? = some i := by
  obtain ⟨rest, hrest⟩ := hrow
  rw [← List.getElem?_drop, ← hrest]
  exact List.getElem?_append_left (List.getElem?_eq_some_iff.mp hget).1 ▸ hget

theorem lt_size_of_getElem? {i : Instruction} (hget : p.toList[place]? = some i) :
    place < p.size :=
  (List.getElem?_eq_some_iff.mp hget).1

theorem get?_eq_some_iff {offset : Int} {i : Instruction} :
    p.get? offset = some i ↔ p.Names offset i := by
  unfold get? Names
  rw [Option.bind_eq_some_iff]
  constructor
  · rintro ⟨place, helement, hget⟩
    obtain ⟨-, hoffset⟩ := Offset.element?_eq_some_iff.mp helement
    exact ⟨place, by simpa [toList] using hget, hoffset⟩
  · rintro ⟨place, hget, hoffset⟩
    have helement := Offset.element?_eq_some_iff.mpr ⟨lt_size_of_getElem? hget, hoffset⟩
    exact ⟨place, helement, by simpa [toList] using hget⟩

theorem get?_of_getElem? {i : Instruction} (hget : p.toList[place]? = some i) :
    p.get? place = some i := by
  rw [get?_natCast (lt_size_of_getElem? hget), hget]

/-- An offset from the front is the place of the instruction that it names. -/
theorem Names.getElem? {offset : Int} {i : Instruction} (hnames : p.Names offset i)
    (hnonneg : 0 ≤ offset) : ∃ place : Nat, offset = place ∧ p.toList[place]? = some i := by
  obtain ⟨place, hget, hfront | hback⟩ := hnames
  · exact ⟨place, hfront, hget⟩
  · have hlt := lt_size_of_getElem? hget
    omega

end Program

end TapeLang
