import TapeLang.Proofs.CommandLine.Arguments
import TapeLang.Proofs.Text.Numeral

/-!
# Which texts are cell counts

A text is a cell count if it spells a positive integer, with white space as the blank characters
(`cellCount?_eq_some_iff_spells`).  The text is taken as it is given, so an error shows it with
everything around it, and both ways to give it have the same answer (`ofArguments_of_cells`).
-/

namespace TapeLang.CommandLine

variable {value : String}

theorem cellCount?_eq_some_iff_spells {length : TapeLength} :
    cellCount? value = some length ↔ Text.Spells Text.isBlank value.toList length.val :=
  cellCount?_eq_some_iff.trans Text.readInteger?_eq_some_iff

theorem cellCount?_eq_none_iff_spells :
    cellCount? value = none ↔
      ∀ length : TapeLength, ¬ Text.Spells Text.isBlank value.toList length.val := by
  rw [Option.eq_none_iff_forall_ne_some]
  exact forall_congr' fun length => not_congr cellCount?_eq_some_iff_spells

/-- A command line with nothing but a cell count. -/
theorem ofArguments_of_cells {words : List String} (hspelled : (Group.cells value).Spelled words) :
    Request.ofArguments words =
      match cellCount? value with
      | some length => .ok ⟨none, { length }⟩
      | none => .error (.invalidCellCount value) := by
  have hgroups : groups words = [.cells value] := by
    simpa [groups] using hspelled.groups_append []
  rw [Request.ofArguments, hgroups, List.foldlM_cons, Collected.add]
  cases cellCount? value <;> rfl

theorem spelled_of_mem {words : List String}
    (hwords : words ∈ [["--cells", value], ["--cells=" ++ value]]) :
    (Group.cells value).Spelled words := by
  rw [List.mem_cons, List.mem_singleton] at hwords
  rcases hwords with rfl | rfl
  · exact .cells value
  · exact .cellsEquals value

/-- A cell count is accepted, in either form, exactly if it spells a positive integer, and this is
the number of cells.  Any other text is refused and quoted.  The decimal text of a number is one of
its spellings, unless it is too long. -/
theorem cell_counts_read_exactly (value : String) :
    ∀ words ∈ [["--cells", value], ["--cells=" ++ value]],
      (∀ request, Request.ofArguments words = .ok request ↔
        ∃ length : TapeLength, Text.Spells Text.isBlank value.toList length.val ∧
          request = ⟨none, { length }⟩) ∧
      ((∃ e, Request.ofArguments words = .error e ∧
          e.message? = some ("Invalid cell count: " ++ value)) ↔
        ∀ length : TapeLength, ¬ Text.Spells Text.isBlank value.toList length.val) ∧
      ∀ length : TapeLength, value = toString length.val → value.length ≤ 4300 →
        Request.ofArguments words = .ok ⟨none, { length }⟩ := by
  intro words hwords
  have hanswer := ofArguments_of_cells (spelled_of_mem hwords)
  refine ⟨fun request => ?_, ?_, ?_⟩
  · simp only [← cellCount?_eq_some_iff_spells, hanswer]
    cases cellCount? value <;> simp [eq_comm]
  · rw [← cellCount?_eq_none_iff_spells, hanswer]
    cases cellCount? value <;> simp [UsageError.message?]
  · rintro length rfl hshort
    have hdigits : (toString length.val).toList = Nat.toDigits 10 length.val := Nat.toList_repr
    rw [← String.length_toList, hdigits] at hshort
    have hspells := Text.spells_toDigits Text.isBlank hshort
    rw [← hdigits, ← cellCount?_eq_some_iff_spells] at hspells
    rw [hanswer, hspells]

/-- Three scripts write one number between wide spaces.  Two underscores in a row write none. -/
theorem cell_counts_read_exactly_of_mixed_scripts :
    let value := "\u00A0+\u0660_1\u096B\u3000"
    ["--cells", value] ∈ [["--cells", value], ["--cells=" ++ value]] ∧
      Text.Spells Text.isBlank value.toList 15 ∧
      Request.ofArguments ["--cells", value] = .ok ⟨none, { length := ⟨15, by decide⟩ }⟩ ∧
      (∀ length : TapeLength, ¬ Text.Spells Text.isBlank "1__5".toList length.val) ∧
      (∃ e, Request.ofArguments ["--cells=1__5"] = .error e ∧
        e.message? = some "Invalid cell count: 1__5") ∧
      Request.ofArguments ["--cells=40000"] = .ok ⟨none, { length := ⟨40000, by decide⟩ }⟩ := by
  intro value
  have hmem : ["--cells", value] ∈ [["--cells", value], ["--cells=" ++ value]] := .head _
  have hread : Text.readInteger? "\u00A0+\u0660_1\u096B\u3000".toList = some 15 := rfl
  have hspells : Text.Spells Text.isBlank value.toList 15 := Text.readInteger?_eq_some_iff.mp hread
  have hnone : ∀ length : TapeLength, ¬ Text.Spells Text.isBlank "1__5".toList length.val :=
    cellCount?_eq_none_iff_spells.mp rfl
  exact ⟨hmem, hspells, ((cell_counts_read_exactly value _ hmem).1 _).mpr ⟨_, hspells, rfl⟩, hnone,
    (cell_counts_read_exactly "1__5" ["--cells=1__5"] (.tail _ (.head _))).2.1.mpr hnone,
    (cell_counts_read_exactly "40000" ["--cells=40000"] (.tail _ (.head _))).2.2 ⟨40000, by decide⟩
      rfl (by decide)⟩

/-- The information separators are not dropped, so they are no blank characters of a cell count. -/
theorem separator_spells_no_cell_count :
    Text.Spells Text.isGap "\x1c5".toList 5 ∧
      Request.ofArguments ["--cells", "\x1c5"] = .error (.invalidCellCount "\x1c5") ∧
      Request.ofArguments ["--cells=\x1c5"] = .error (.invalidCellCount "\x1c5") := by
  have hspells : Text.Spells Text.isGap (['\x1c'] ++ ([] ++ ['5'] ++ [])) _ :=
    .intro (List.forall_mem_singleton.mpr rfl) .none
      (.digit (Text.digitValue?_eq_some_iff.mp rfl)) (by decide) nofun
  exact ⟨hspells, rfl, rfl⟩

end TapeLang.CommandLine
