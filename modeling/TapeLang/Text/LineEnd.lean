/-!
# Line ends

A text file may end its lines with a line feed, a return, or a return and a line feed.
`normalizeLineEnds` writes every one of them as a single line feed. Main statement: no return
remains.
-/

namespace TapeLang.Text

/-- The text with one line feed for each of its line ends: a return and line feed, a return alone,
or a line feed. -/
def normalizeLineEnds : List Char → List Char
  | [] => []
  | '\r' :: '\n' :: rest => '\n' :: normalizeLineEnds rest
  | c :: rest => (if c = '\r' then '\n' else c) :: normalizeLineEnds rest

/-- No return remains in a text with normalized line ends. -/
theorem return_not_mem_normalizeLineEnds (text : List Char) : '\r' ∉ normalizeLineEnds text := by
  fun_induction normalizeLineEnds text with
  | case1 => simp
  | case2 rest ih => simp [ih]
  | case3 c rest _ ih =>
    by_cases hreturn : c = '\r'
    · simp [hreturn, ih]
    · simp [hreturn, ih, Ne.symm hreturn]

end TapeLang.Text
