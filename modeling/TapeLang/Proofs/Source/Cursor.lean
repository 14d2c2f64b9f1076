import TapeLang.Source.Cursor

/-!
# Cursors in a text

A cursor knows what is ahead of it, and changes its line and its column only by the character that
it leaves.  `Cursor.StandsIn` says what all of this has to be in terms of the whole text and the
position alone: the line is one more than the number of line feeds in front of the position, and the
column counts from the start of that line, which is behind the last of these line feeds.

This also holds beyond the end of the text, where the cursor leaves no character.  There are no line
feeds in that place either, so moving on from the end is like moving on from any other character on
the line (`Place.CountedIn.next`).

What stands at the cursor stands there some number of times in a row.  `RunAt` says that this is as
often as it can be.
-/

namespace TapeLang

/-- The line of a position starts behind the last line feed in front of it, or at the start of the
text. -/
inductive LineStart (text : List Char) (i : Nat) : Nat → Prop where
  | top (hnone : ∀ k, k < i → text[k]? ≠ some '\n') : LineStart text i 0
  | behind {k : Nat} (hlt : k < i) (hfeed : text[k]? = some '\n')
      (hlast : ∀ m, k < m → m < i → text[m]? ≠ some '\n') : LineStart text i (k + 1)

variable {text : List Char}

/-- Where no line feed is passed, the line starts where it did. -/
theorem LineStart.next {i start : Nat} (hstart : LineStart text i start)
    (hget : text[i]? ≠ some '\n') : LineStart text (i + 1) start := by
  cases hstart with
  | top hnone =>
      apply LineStart.top
      intro k hlt
      rcases Nat.lt_succ_iff_lt_or_eq.mp hlt with hbefore | rfl
      · exact hnone k hbefore
      · exact hget
  | behind hlt hfeed hlast =>
      apply LineStart.behind (Nat.lt_succ_of_lt hlt) hfeed
      intro m hafter hle
      rcases Nat.lt_succ_iff_lt_or_eq.mp hle with hbefore | rfl
      · exact hlast m hafter hbefore
      · exact hget

theorem LineStart.of_lineFeed {i : Nat} (hfeed : text[i]? = some '\n') :
    LineStart text (i + 1) (i + 1) := by
  apply LineStart.behind (Nat.lt_succ_self i) hfeed
  intro m hafter hle
  omega

theorem LineStart.le {i start : Nat} (hstart : LineStart text i start) : start ≤ i := by
  cases hstart with
  | top hnone => exact Nat.zero_le i
  | behind hlt hfeed hlast => exact hlt

/-! ## Places -/

/-- The line and the column of a place are counted by the line feeds in front of its position. -/
structure Place.CountedIn (p : Place) (text : List Char) : Prop where
  line : p.line = 1 + (text.take p.position).count '\n'
  column : ∃ start, LineStart text p.position start ∧ p.column = 1 + p.position - start

namespace Place.CountedIn

variable {p : Place}

theorem start (text : List Char) : ({} : Place).CountedIn text where
  line := rfl
  column := ⟨0, .top (by intro k hlt; cases hlt), rfl⟩

theorem next (hcounted : p.CountedIn text) (hget : text[p.position]? ≠ some '\n') :
    p.next.CountedIn text where
  line := by
    have hpassed : (text[p.position]?.toList).count '\n' = 0 := by
      apply List.count_eq_zero.mpr
      intro hmem
      exact hget (Option.mem_toList.mp hmem)
    calc p.line = 1 + (text.take p.position).count '\n' := hcounted.line
      _ = 1 + (text.take (p.position + 1)).count '\n' := by
        rw [List.take_add_one, List.count_append, hpassed, Nat.add_zero]
  column := by
    obtain ⟨start, hstart, hcolumn⟩ := hcounted.column
    have hle := hstart.le
    refine ⟨start, hstart.next hget, ?_⟩
    show p.column + 1 = 1 + (p.position + 1) - start
    omega

theorem after (hcounted : p.CountedIn text) {c : Char} (hget : text[p.position]? = some c) :
    (p.after c).CountedIn text := by
  unfold Place.after
  split
  · rename_i hfeed
    subst hfeed
    refine ⟨?_, p.position + 1, .of_lineFeed hget, (Nat.add_sub_cancel ..).symm⟩
    calc p.line + 1 = 1 + (text.take p.position).count '\n' + 1 := by rw [hcounted.line]
      _ = 1 + (text.take (p.position + 1)).count '\n' := by
        rw [List.take_add_one, hget, List.count_append]
        rfl
  · rename_i hother
    apply hcounted.next
    intro hfeed
    rw [hget] at hfeed
    exact hother (Option.some.inj hfeed)

end Place.CountedIn

/-! ## Cursors -/

/-- A cursor stands at its position of a text. -/
structure Cursor.StandsIn (c : Cursor) (text : List Char) : Prop where
  rest : c.rest = text.drop c.place.position
  place : c.place.CountedIn text

namespace Cursor

@[simp] theorem position_advance (c : Cursor) :
    c.advance.place.position = c.place.position + 1 := by
  unfold advance
  split
  · rfl
  · exact Place.position_after ..

@[simp] theorem position_advanceBy (c : Cursor) (count : Nat) :
    (c.advanceBy count).place.position = c.place.position + count := by
  induction count generalizing c with
  | zero => rfl
  | succ count ih =>
      rw [advanceBy, ih, position_advance]
      omega

theorem standsIn_ofText (text : String) : (ofText text).StandsIn text.toList :=
  ⟨rfl, .start text.toList⟩

namespace StandsIn

variable {c : Cursor}

/-- What stands at the cursor stands at its position. -/
theorem peek? (hstands : c.StandsIn text) : c.peek? = text[c.place.position]? := by
  rw [Cursor.peek?, hstands.rest, List.head?_drop]

theorem advance (hstands : c.StandsIn text) : c.advance.StandsIn text where
  rest := by rw [rest_advance, hstands.rest, List.tail_drop, position_advance]
  place := by
    have hget := hstands.peek?
    unfold Cursor.advance
    split
    · rename_i hrest
      rw [Cursor.peek?, hrest, List.head?_nil] at hget
      exact hstands.place.next (by rw [← hget]; exact nofun)
    · rename_i head tail hrest
      rw [Cursor.peek?, hrest, List.head?_cons] at hget
      exact hstands.place.after hget.symm

theorem advanceBy (hstands : c.StandsIn text) (count : Nat) :
    (c.advanceBy count).StandsIn text := by
  induction count generalizing c with
  | zero => exact hstands
  | succ count ih => exact ih hstands.advance

end StandsIn

/-- A cursor stands in a text, or at the end of it. -/
structure Within (c : Cursor) (text : List Char) : Prop extends c.StandsIn text where
  position_le : c.place.position ≤ text.length

theorem within_ofText (text : String) : (ofText text).Within text.toList :=
  ⟨standsIn_ofText text, Nat.zero_le _⟩

variable {c : Cursor}

/-- Moving over what is ahead does not lead out of the text. -/
theorem StandsIn.within_advanceBy (hstands : c.StandsIn text) {count : Nat} (count_pos : 0 < count)
    (hcount : count ≤ c.rest.length) : (c.advanceBy count).Within text where
  toStandsIn := hstands.advanceBy count
  position_le := by
    rw [hstands.rest, List.length_drop] at hcount
    rw [position_advanceBy]
    omega

/-- If nothing is ahead, the text has ended. -/
theorem Within.position_eq (hwithin : c.Within text) (hpeek : c.peek? = none) :
    c.place.position = text.length := by
  rw [hwithin.peek?] at hpeek
  exact Nat.le_antisymm hwithin.position_le (List.getElem?_eq_none_iff.mp hpeek)

-- The third move is from the end of the text, on its second line.
example : ((ofText "a\n").advanceBy 3).place = ⟨3, 2, 2⟩ := by rfl

end Cursor

/-! ## Runs -/

/-- From a position on, a text has a character that many times in a row, and not once more. -/
structure RunAt (text : List Char) (i : Nat) (c : Char) (count : Nat) : Prop where
  same : ∀ k, k < count → text[i + k]? = some c
  ends : text[i + count]? ≠ some c

theorem runAt_takeWhile (c : Char) (rest : List Char) :
    RunAt rest 0 c (rest.takeWhile (· == c)).length := by
  induction rest with
  | nil => exact ⟨nofun, nofun⟩
  | cons head tail ih =>
      by_cases hsame : head = c
      · subst hsame
        rw [List.takeWhile_cons_of_pos (by simp), List.length_cons]
        constructor
        · intro k hlt
          cases k with
          | zero => rfl
          | succ k => simpa using ih.same k (Nat.lt_of_succ_lt_succ hlt)
        · simpa using ih.ends
      · rw [List.takeWhile_cons_of_neg (by simpa using hsame), List.length_nil]
        exact ⟨nofun, by simpa using hsame⟩

theorem RunAt.of_drop {i : Nat} {c : Char} {count : Nat} (hrun : RunAt (text.drop i) 0 c count) :
    RunAt text i c count where
  same k hlt := by
    have hget := hrun.same k hlt
    rwa [Nat.zero_add, List.getElem?_drop] at hget
  ends := by
    have hend := hrun.ends
    rwa [Nat.zero_add, List.getElem?_drop] at hend

/-- The characters that are counted at a cursor are a run of the text. -/
theorem Cursor.StandsIn.runAt {c : Cursor} {symbol : Char} (hstands : c.StandsIn text)
    (hpeek : c.peek? = some symbol) : RunAt text c.place.position symbol c.runLength := by
  obtain ⟨tail, hrest⟩ : ∃ tail, c.rest = symbol :: tail := List.head?_eq_some_iff.mp hpeek
  have hlength : c.runLength = (c.rest.takeWhile (· == symbol)).length := by
    simp only [Cursor.runLength, hrest]
  rw [hlength, hstands.rest]
  exact (runAt_takeWhile symbol _).of_drop

end TapeLang
