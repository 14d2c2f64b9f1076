import TapeLang.Text.Blank

/-!
# The fields of a line

The fields of a line are its longest pieces without a blank character (`Text.fields`).  A line that
is written as words with blank characters around them has these words as its fields, and how many
blank characters there are does not matter (`fields_append`, `fields_append_of_blank`).  But there
has to be one: two words without any between them are a single field.
-/

namespace TapeLang.Text

/-- The pieces of a text between blank characters. -/
def fields (blank : Char → Bool) (text : List Char) : List (List Char) :=
  (text.splitOnP blank).filter fun field => field ≠ []

/-- A text that can be a field: it is not empty, and no blank character breaks it. -/
structure Unbroken (blank : Char → Bool) (word : List Char) : Prop where
  ne_nil : word ≠ []
  solid : ∀ c ∈ word, blank c = false

variable {blank : Char → Bool} {word : List Char}

theorem Unbroken.not_mem (hword : Unbroken blank word) {c : Char} (hblank : blank c) :
    c ∉ word := by
  intro hmem
  rw [hword.solid c hmem] at hblank
  cases hblank

/-- Blank characters in front belong to no field. -/
theorem fields_append_of_blank {front : List Char} (hfront : ∀ c ∈ front, blank c)
    (rest : List Char) : fields blank (front ++ rest) = fields blank rest := by
  induction front with
  | nil => rfl
  | cons c later ih =>
      rw [List.forall_mem_cons] at hfront
      rw [List.cons_append, fields, List.splitOnP_cons_eq_if_modifyHead, if_pos hfront.1,
        List.filter_cons_of_neg (by simp)]
      exact ih hfront.2

/-- A word is a field if a blank character ends it. -/
theorem Unbroken.fields_append (hword : Unbroken blank word) {gap : List Char} (hgap : gap ≠ [])
    (hblanks : ∀ c ∈ gap, blank c) (rest : List Char) :
    fields blank (word ++ (gap ++ rest)) = word :: fields blank rest := by
  obtain ⟨c, later, rfl⟩ := List.exists_cons_of_ne_nil hgap
  rw [List.forall_mem_cons] at hblanks
  rw [List.cons_append, fields,
    List.splitOnP_append_cons_of_forall_mem hword.solid c hblanks.1,
    List.filter_cons_of_pos (by simpa using hword.ne_nil)]
  exact congrArg (word :: ·) (fields_append_of_blank hblanks.2 rest)

theorem Unbroken.fields_eq (hword : Unbroken blank word) : fields blank word = [word] := by
  rw [fields, List.splitOnP_eq_singleton hword.solid,
    List.filter_cons_of_pos (by simpa using hword.ne_nil), List.filter_nil]

end TapeLang.Text
