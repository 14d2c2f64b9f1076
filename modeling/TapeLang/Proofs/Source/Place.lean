import TapeLang.Source.Cursor

/-!
# Places from positions

A cursor counts lines and columns while it moves.  `placeAt` says what it should have counted: the
line of a position is one more than the number of line feeds in front of it, and its column is one
more than the number of characters since the last of them.
-/

namespace TapeLang

/-- The characters after the last line feed of a text, last one first. -/
def lastLine (text : List Char) : List Char :=
  text.reverse.takeWhile (· ≠ '\n')

/-- The place of a position: the position itself, its line and its column. -/
def placeAt (text : List Char) (i : Nat) : Place :=
  ⟨i, 1 + (text.take i).count '\n', 1 + (lastLine (text.take i)).length⟩

theorem lastLine_append (text : List Char) (c : Char) :
    lastLine (text ++ [c]) = if c = '\n' then [] else c :: lastLine text := by
  rw [lastLine, List.reverse_append, List.reverse_singleton, List.singleton_append,
    List.takeWhile_cons]
  by_cases hfeed : c = '\n'
  · simp [hfeed]
  · simp [hfeed, lastLine]

/-- Moving over a text ends at its length, in the line and the column that its line feeds give. -/
theorem afterText_reverse (reversed : List Char) :
    ({} : Place).afterText reversed.reverse =
      placeAt reversed.reverse reversed.reverse.length := by
  induction reversed with
  | nil => rfl
  | cons c reversed ih =>
      have hlast : ({} : Place).afterText (c :: reversed).reverse =
          (placeAt reversed.reverse reversed.reverse.length).after c := by
        rw [List.reverse_cons, Place.afterText_append, ih]
        rfl
      rw [hlast, List.reverse_cons, placeAt, placeAt, List.take_length, List.take_length,
        lastLine_append, List.count_append, List.length_append, List.count_singleton, Place.after]
      by_cases hfeed : c = '\n'
      · simp [hfeed, Nat.add_assoc]
      · simp [hfeed, Place.next, Nat.add_assoc]

theorem afterText_eq_placeAt (front back : List Char) :
    ({} : Place).afterText front = placeAt (front ++ back) front.length := by
  have hfront := afterText_reverse front.reverse
  rw [List.reverse_reverse] at hfront
  rw [hfront, placeAt, placeAt, List.take_length, List.take_left]

end TapeLang
