/-!
# Cursors into a source text

A `Cursor` is a place in a source text together with the text from there on. A place is known in
two ways: by its position, which counts characters from zero, and by its line and column, which
count from one. Only a line feed starts a new line.

A cursor may be moved past the end. The position and the column then keep counting, and the rest
stays empty.
-/

namespace TapeLang

/-- A place in a source text. -/
structure Place where
  position : Nat := 0
  line : Nat := 1
  column : Nat := 1
  deriving DecidableEq, Repr

namespace Place

/-- The next place on the same line. -/
def next (p : Place) : Place :=
  { p with position := p.position + 1, column := p.column + 1 }

/-- The place after a character. -/
def after (p : Place) (c : Char) : Place :=
  if c = '\n' then { position := p.position + 1, line := p.line + 1, column := 1 } else p.next

/-- The place after a text. -/
def afterText (p : Place) (text : List Char) : Place :=
  text.foldl after p

@[simp] theorem position_next (p : Place) : p.next.position = p.position + 1 := rfl

@[simp] theorem position_after (p : Place) (c : Char) :
    (p.after c).position = p.position + 1 := by
  unfold after
  split <;> rfl

@[simp] theorem afterText_nil (p : Place) : p.afterText [] = p := rfl

@[simp] theorem afterText_cons (p : Place) (c : Char) (text : List Char) :
    p.afterText (c :: text) = (p.after c).afterText text := rfl

@[simp] theorem afterText_append (p : Place) (first second : List Char) :
    p.afterText (first ++ second) = (p.afterText first).afterText second := by
  simp [afterText]

theorem position_afterText (p : Place) (text : List Char) :
    (p.afterText text).position = p.position + text.length := by
  induction text generalizing p with
  | nil => rfl
  | cons c rest ih =>
    rw [afterText_cons, ih, position_after, List.length_cons]
    omega

end Place

/-- A place in a source text and the text from there on. -/
structure Cursor where
  place : Place := {}
  rest : List Char
  deriving DecidableEq, Repr

namespace Cursor

/-- The start of a text. -/
def ofText (text : String) : Cursor :=
  { rest := text.toList }

/-- The character at the cursor, or nothing at the end. -/
def peek? (c : Cursor) : Option Char :=
  c.rest.head?

/-- Moves past one character, or one place further at the end. -/
def advance (c : Cursor) : Cursor :=
  match c.rest with
  | [] => { c with place := c.place.next }
  | head :: tail => ⟨c.place.after head, tail⟩

/-- Moves a number of places. -/
def advanceBy (c : Cursor) : Nat → Cursor
  | 0 => c
  | count + 1 => c.advance.advanceBy count

/-- The number of times that the character at the cursor stands there in a row. -/
def runLength (c : Cursor) : Nat :=
  match c.rest with
  | [] => 0
  | head :: _ => (c.rest.takeWhile (· == head)).length

/-! ## What advancing does to the rest -/

@[simp] theorem rest_advance (c : Cursor) : c.advance.rest = c.rest.tail := by
  unfold advance
  split <;> simp [*]

@[simp] theorem rest_advanceBy (c : Cursor) (count : Nat) :
    (c.advanceBy count).rest = c.rest.drop count := by
  induction count generalizing c with
  | zero => rfl
  | succ count ih => rw [advanceBy, ih, rest_advance, List.drop_tail]

/-- Moving over a text that lies ahead ends at the place after that text. -/
theorem advanceBy_length (c : Cursor) (ahead behind : List Char)
    (hrest : c.rest = ahead ++ behind) :
    c.advanceBy ahead.length = ⟨c.place.afterText ahead, behind⟩ := by
  induction ahead generalizing c with
  | nil =>
    obtain ⟨place, rest⟩ := c
    simpa [advanceBy] using hrest
  | cons head ahead ih =>
    obtain ⟨place, rest⟩ := c
    subst hrest
    exact ih ⟨place.after head, ahead ++ behind⟩ rfl

/-- A run has at least one character, except at the end. -/
theorem runLength_pos {c : Cursor} (hrest : c.rest ≠ []) : 0 < c.runLength := by
  obtain ⟨place, rest⟩ := c
  cases rest with
  | nil => exact absurd rfl hrest
  | cons head tail => simp [runLength]

theorem runLength_le (c : Cursor) : c.runLength ≤ c.rest.length := by
  unfold runLength
  split
  · exact Nat.zero_le _
  · exact (List.takeWhile_prefix _).length_le

end Cursor

end TapeLang
