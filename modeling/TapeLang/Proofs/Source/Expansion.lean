import TapeLang.Instruction

/-!
# Expanding counted characters

In the written form of an instruction a character can have a count in braces behind it.  `expand`
turns such a form back into source text: in the place of the character and its count it puts that
many copies and a space.  The space is a comment.  It keeps two runs of one character apart that
were counted separately.

All other characters stay.  So a character is copied as it is unless a brace is next
(`expand_cons`), and the count that is written behind it is the count that is read there
(`expand_counted`).
-/

namespace TapeLang

/-- The number in braces that a text begins with, and the rest of the text. -/
def braced? : List Char → Option (Nat × List Char)
  | '\x7b' :: text =>
    match text.takeWhile Char.isDigit, text.dropWhile Char.isDigit with
    | first :: digits, '\x7d' :: rest => some (Nat.ofDigitChars 10 (first :: digits) 0, rest)
    | _, _ => none
  | _ => none

theorem suffix_of_braced? {text rest : List Char} {count : Nat}
    (hbraced : braced? text = some (count, rest)) : '\x7d' :: rest <:+ text := by
  unfold braced? at hbraced
  split at hbraced
  · rename_i inside
    split at hbraced
    · rename_i hdigits hdrop
      cases hbraced
      rw [← hdrop]
      exact (List.dropWhile_suffix _).trans (List.suffix_cons _ _)
    · cases hbraced
  · cases hbraced

theorem length_lt_of_braced? {text rest : List Char} {count : Nat}
    (hbraced : braced? text = some (count, rest)) : rest.length < text.length :=
  (suffix_of_braced? hbraced).length_le

/-- Writes out all counted characters, each with a space behind it. -/
def expand : List Char → List Char
  | [] => []
  | c :: text =>
    match _ : braced? text with
    | some (count, rest) => List.replicate count c ++ ' ' :: expand rest
    | none => c :: expand text
termination_by text => text.length
decreasing_by
  · rename_i hbraced
    have hless := length_lt_of_braced? hbraced
    rw [List.length_cons]
    omega
  · exact Nat.lt_succ_self _

/-- A text with all counted characters written out. -/
def expanded (text : String) : String :=
  .ofList (expand text.toList)

theorem braced?_of_head? {text : List Char} (hhead : text.head? ≠ some '\x7b') :
    braced? text = none := by
  unfold braced?
  split
  · exact absurd rfl hhead
  · rfl

theorem braced?_toDigits (count : Nat) (rest : List Char) :
    braced? ('\x7b' :: (Nat.toDigits 10 count ++ '\x7d' :: rest)) = some (count, rest) := by
  have hdigits : ∀ c, c ∈ Nat.toDigits 10 count → c.isDigit = true := fun _ hmem =>
    Nat.isDigit_of_mem_toDigits (by decide) (by decide) hmem
  have htake : (Nat.toDigits 10 count ++ '\x7d' :: rest).takeWhile Char.isDigit =
      Nat.toDigits 10 count := by
    rw [List.takeWhile_append_of_pos hdigits, List.takeWhile_cons_of_neg (by decide),
      List.append_nil]
  have hdrop : (Nat.toDigits 10 count ++ '\x7d' :: rest).dropWhile Char.isDigit =
      '\x7d' :: rest := by
    rw [List.dropWhile_append_of_pos hdigits, List.dropWhile_cons_of_neg (by decide)]
  simp only [braced?, htake, hdrop]
  cases hfirst : Nat.toDigits 10 count with
  | nil => exact absurd hfirst Nat.toDigits_ne_nil
  | cons first digits =>
      simp only
      rw [← hfirst, Nat.ofDigitChars_toDigits (by decide) (by decide)]

@[simp] theorem expand_nil : expand [] = [] := by
  rw [expand]

theorem expand_of_braced? {c : Char} {text rest : List Char} {count : Nat}
    (hbraced : braced? text = some (count, rest)) :
    expand (c :: text) = List.replicate count c ++ ' ' :: expand rest := by
  rw [expand]
  split
  · rename_i hother
    cases hother.symm.trans hbraced
    rfl
  · rename_i hnone
    cases hnone.symm.trans hbraced

theorem expand_of_braced?_none {c : Char} {text : List Char} (hplain : braced? text = none) :
    expand (c :: text) = c :: expand text := by
  rw [expand]
  split
  · rename_i hbraced
    cases hbraced.symm.trans hplain
  · rfl

theorem expand_cons {c : Char} {rest : List Char} (hhead : rest.head? ≠ some '\x7b') :
    expand (c :: rest) = c :: expand rest :=
  expand_of_braced?_none (braced?_of_head? hhead)

theorem expand_counted (c : Char) (count : Nat) (rest : List Char) :
    expand ((Instruction.counted c count).toList ++ rest) =
      List.replicate count c ++ ' ' :: expand rest := by
  have htext : (Instruction.counted c count).toList ++ rest =
      c :: '\x7b' :: (Nat.toDigits 10 count ++ '\x7d' :: rest) := by
    simp [Instruction.counted, Decimal.toList_text_natCast]
  rw [htext]
  exact expand_of_braced? (braced?_toDigits count rest)

example : expanded "[>\x7b12\x7d+]" = "[>>>>>>>>>>>> +]" := by decide +kernel

/-! ## Without spaces -/

/-- The commands of a written form: counted characters are written out, with nothing in between. -/
def bare : List Char → List Char
  | [] => []
  | c :: text =>
    match _ : braced? text with
    | some (count, rest) => List.replicate count c ++ bare rest
    | none => c :: bare text
termination_by text => text.length
decreasing_by
  · rename_i hbraced
    have hless := length_lt_of_braced? hbraced
    rw [List.length_cons]
    omega
  · exact Nat.lt_succ_self _

/-- It is the expansion without the spaces, unless there are spaces in the written form. -/
theorem bare_eq_filter_expand {text : List Char} (hspace : ' ' ∉ text) :
    bare text = (expand text).filter (· ≠ ' ') := by
  fun_induction bare text with
  | case1 => simp
  | case2 c text count rest hbraced ih =>
      have hrest : ' ' ∉ rest := fun hmem => hspace <|
        List.mem_cons_of_mem c ((suffix_of_braced? hbraced).subset (List.mem_cons_of_mem _ hmem))
      have hc : c ≠ ' ' := fun hsame => hspace (hsame ▸ List.mem_cons_self)
      rw [expand_of_braced? hbraced, ih hrest, List.filter_append, List.filter_replicate,
        if_pos (by simpa using hc), List.filter_cons_of_neg (by simp)]
  | case3 c text hplain ih =>
      have hc : c ≠ ' ' := fun hsame => hspace (hsame ▸ List.mem_cons_self)
      rw [expand_of_braced?_none hplain, ih fun hmem => hspace (List.mem_cons_of_mem c hmem),
        List.filter_cons_of_pos (by simpa using hc)]

end TapeLang
