import TapeLang.Proofs.Compilation.Verdict
import TapeLang.Proofs.Source.LineEnd
import TapeLang.Proofs.Text.Utf8
import TapeLang.Source.Reading

/-!
# Errors in a source file

An error tells the line and the column of a bracket in the text that was read from a file.  They are
those of the bracket in the file, however the lines end there (`source_file_keeps_lines`).

A text that is refused falls into what is balanced in front of the bracket, and what stands behind
it (`Broken`).  Reading the line ends keeps both parts apart and changes no bracket, so it is
refused for the same bracket as before.  All that is left is to count lines and columns in the first
part.
-/

namespace TapeLang

/-- The bracket that a text is refused for: the first stray one or, if none is stray, the first
unclosed one. -/
inductive RefusedAt (text : List Char) : Bracket → Nat → Prop where
  | stray {j : Nat} (hfirst : First (Stray text) j) : RefusedAt text .closing j
  | unclosed {i : Nat} (hstray : ∀ j, ¬ Stray text j) (hfirst : First (Unclosed text) i) :
      RefusedAt text .opening i

/-- The balanced text in front of the bracket that a text is refused for. -/
inductive Broken (text : List Char) : Bracket → List Char → Prop where
  | stray {front back : List Char} (htext : text = front ++ ']' :: back)
      (hfront : Balanced front) : Broken text .closing front
  | unclosed {front back : List Char} {opened : Nat} (htext : text = front ++ '[' :: back)
      (hfront : Balanced front) (hback : depth? 0 back = some opened) : Broken text .opening front

variable {text front : List Char} {bracket : Bracket} {i : Nat}

theorem RefusedAt.verdict (hrefused : RefusedAt text bracket i) :
    Verdict text (some ⟨bracket, placeAt text i⟩) := by
  cases hrefused with
  | stray hfirst => exact .stray hfirst
  | unclosed hstray hfirst => exact .unclosed hstray hfirst

theorem RefusedAt.unique {other : Bracket} {j : Nat} (hfirst : RefusedAt text bracket i)
    (hsecond : RefusedAt text other j) : bracket = other ∧ i = j := by
  have hsame := Option.some.inj (hfirst.verdict.unique hsecond.verdict)
  exact ⟨congrArg CompileError.bracket hsame,
    congrArg (fun error => error.place.position) hsame⟩

/-! ## The text in front of the bracket -/

theorem Balanced.exists_block (hfront : Balanced front) : ∃ block : Block, block.text = front := by
  have hbalanced : Balanced (String.ofList front).toList := by rwa [String.toList_ofList]
  obtain ⟨block, hblock, -⟩ := Compilation.exists_block_of_balanced hbalanced
  exact ⟨block, by rw [hblock, String.toList_ofList]⟩

theorem not_stray_of_depth? {opened : Nat} (hdepth : depth? 0 text = some opened) (j : Nat) :
    ¬ Stray text j := by
  obtain ⟨o, left, hreads⟩ := Outline.exists_reads (.base .empty) text
  have htext : text = o.text ++ left := hreads.text_eq.symm
  rcases hreads.left_eq with rfl | ⟨block, rest, rfl, rfl⟩
  · intro hstray
    rw [List.append_nil] at htext
    obtain ⟨i, hpartners⟩ := o.exists_partners_of_closing
      (htext.trans (List.append_nil _).symm) (htext ▸ hstray.lt_length) hstray.1
    exact hstray.2 i hpartners
  · rw [htext, Outline.text, block.balanced_text.depth?_append, depth?_closing_zero] at hdepth
    cases hdepth

theorem Broken.refusedAt (hbroken : Broken text bracket front) :
    RefusedAt text bracket front.length := by
  cases hbroken with
  | stray htext hfront =>
      obtain ⟨block, rfl⟩ := hfront.exists_block
      rw [htext]
      exact .stray (block.first_stray _)
  | @unclosed _ back opened htext hfront hback =>
      obtain ⟨block, rfl⟩ := hfront.exists_block
      have hdepth : depth? 0 text = some (opened + 1) := by
        rw [htext, hfront.depth?_append, depth?_opening]
        exact depth?_add hback 1
      rw [htext] at hdepth ⊢
      exact .unclosed (not_stray_of_depth? hdepth) (block.first_unclosed hback)

theorem balanced_or_broken (text : List Char) :
    Balanced text ∨ ∃ bracket front, Broken text bracket front := by
  obtain ⟨o, left, hreads⟩ := Outline.exists_reads (.base .empty) text
  have htext : text = o.text ++ left := hreads.text_eq.symm
  rcases hreads.left_eq with rfl | ⟨block, rest, rfl, rfl⟩
  · rw [List.append_nil] at htext
    cases o with
    | base block => exact .inl (htext ▸ block.balanced_text)
    | nested outer block =>
        obtain ⟨front, back, opened, houtermost, hback, -⟩ := outer.exists_outermost block
        exact .inr ⟨_, _, .unclosed (htext.trans houtermost) front.balanced_text hback⟩
  · exact .inr ⟨_, _, .stray htext block.balanced_text⟩

theorem Balanced.verdict (hbalanced : Balanced text) : Verdict text none := by
  have hverdict := ({} : Compilation).verdict_compile (.ofList text)
  have hnone : (({} : Compilation).compile (.ofList text)).2 = none :=
    (Compilation.compile_eq_none_iff _ _).mpr (by rwa [String.toList_ofList])
  rwa [hnone, String.toList_ofList] at hverdict

theorem RefusedAt.exists_broken (hrefused : RefusedAt text bracket i) :
    ∃ front, Broken text bracket front ∧ front.length = i := by
  rcases balanced_or_broken text with hbalanced | ⟨other, front, hbroken⟩
  · cases hbalanced.verdict.unique hrefused.verdict
  · obtain ⟨rfl, hlength⟩ := hbroken.refusedAt.unique hrefused
    exact ⟨front, hbroken, hlength⟩

/-! ## Reading the line ends -/

theorem Balanced.normalizeLineEnds (hbalanced : Balanced text) :
    Balanced (Text.normalizeLineEnds text) :=
  (Text.depth?_normalizeLineEnds 0 text).trans hbalanced

/-- The bracket that a text is refused for is the same one after the line ends are read. -/
theorem Broken.normalizeLineEnds (hbroken : Broken text bracket front) :
    Broken (Text.normalizeLineEnds text) bracket (Text.normalizeLineEnds front) := by
  cases hbroken with
  | stray htext hfront =>
      rw [htext, Text.normalizeLineEnds_append_cons (by decide) (by decide)]
      exact .stray rfl hfront.normalizeLineEnds
  | unclosed htext hfront hback =>
      rw [htext, Text.normalizeLineEnds_append_cons (by decide) (by decide)]
      exact .unclosed rfl hfront.normalizeLineEnds
        ((Text.depth?_normalizeLineEnds 0 _).trans hback)

/-- A text goes on with the bracket that it is refused for. -/
theorem Broken.exists_append (hbroken : Broken text bracket front) :
    ∃ back, text = front ++ back ∧ back.head? ≠ some '\n' := by
  cases hbroken with
  | stray htext _ => exact ⟨_, htext, by simp⟩
  | unclosed htext _ _ => exact ⟨_, htext, by simp⟩

/-- The place of the bracket in the text that is read has the line and the column that the bracket
has in the file. -/
theorem Broken.placeAt_normalizeLineEnds (hbroken : Broken text bracket front) :
    placeAt (Text.normalizeLineEnds text) (Text.normalizeLineEnds front).length =
      ⟨(Text.normalizeLineEnds front).length, 1 + (lineEndsBefore text front.length).length,
        1 + sinceLineEnd text front.length⟩ := by
  obtain ⟨later, hlater, -⟩ := hbroken.normalizeLineEnds.exists_append
  obtain ⟨back, htext, hback⟩ := hbroken.exists_append
  rw [placeAt, hlater, List.take_left, count_normalizeLineEnds front hback,
    length_lastLine_normalizeLineEnds front hback, htext]

namespace Compilation

theorem ofSource_of_broken (hbroken : Broken text bracket front) (optimize : Bool) :
    Program.ofSource (.ofList text) optimize = .error ⟨bracket, placeAt text front.length⟩ := by
  have hverdict := ({ optimize } : Compilation).verdict_compile (.ofList text)
  rw [String.toList_ofList] at hverdict
  exact ofSource_eq_error_iff.mpr (hverdict.unique hbroken.refusedAt.verdict)

/-- A text is read back from its bytes, except that every return and line feed and every other
return become a line feed; no return is read from any file.  A text in a file is refused exactly for
the bracket that it is to be refused for, in the line that the line ends in front of the bracket
give, and in the column that the characters since the last of them give. -/
theorem source_file_keeps_lines (text : String) :
    sourceText (Text.encodeUtf8 text) =
      .ofList (replaceEach ['\r'] ['\n'] (replaceEach ['\r', '\n'] ['\n'] text.toList)) ∧
    sourceText (Text.encodeUtf8 ("\uFEFF" ++ text)) =
      "\uFEFF" ++ sourceText (Text.encodeUtf8 text) ∧
    (∀ bytes, '\r' ∉ (sourceText bytes).toList) ∧
    ∀ optimize bracket line column,
      (∃ position, Program.ofSource (sourceText (Text.encodeUtf8 text)) optimize =
        .error ⟨bracket, { position, line, column }⟩) ↔
      ∃ i, RefusedAt text.toList bracket i ∧
        line = 1 + (lineEndsBefore text.toList i).length ∧
        column = 1 + sinceLineEnd text.toList i := by
  have hsource : sourceText (Text.encodeUtf8 text) =
      .ofList (Text.normalizeLineEnds text.toList) := by
    rw [← Text.decodeUtf8_encodeUtf8 text]
    rfl
  refine ⟨by rw [hsource, Text.normalizeLineEnds_eq_replaceEach], ?_, return_not_mem_sourceText,
    fun optimize bracket line column => ⟨?_, ?_⟩⟩
  · rw [hsource, sourceText, Text.decodeUtf8_encodeUtf8, ← String.toList_inj]
    simp only [String.toList_append, String.toList_ofList]
    have hmark : '\uFEFF' = '\r' → text.toList.head? ≠ some '\n' := by simp
    exact Text.normalizeLineEnds_cons hmark
  · rintro ⟨position, herror⟩
    rw [hsource] at herror
    rcases balanced_or_broken text.toList with hbalanced | ⟨other, front, hbroken⟩
    · have hverdict := ({ optimize } : Compilation).verdict_compile
        (.ofList (Text.normalizeLineEnds text.toList))
      rw [ofSource_eq_error_iff.mp herror, String.toList_ofList] at hverdict
      cases hbalanced.normalizeLineEnds.verdict.unique hverdict
    · rw [ofSource_of_broken hbroken.normalizeLineEnds, hbroken.placeAt_normalizeLineEnds] at herror
      cases herror
      exact ⟨front.length, hbroken.refusedAt, rfl, rfl⟩
  · rintro ⟨i, hrefused, rfl, rfl⟩
    obtain ⟨front, hbroken, rfl⟩ := hrefused.exists_broken
    rw [hsource, ofSource_of_broken hbroken.normalizeLineEnds, hbroken.placeAt_normalizeLineEnds]
    exact ⟨_, rfl⟩

-- The return and line feed end one line, and the two returns behind them end one line each.
example : Program.ofSource (sourceText (Text.encodeUtf8 "\uFEFF+\r\n\r\r[]é]")) true =
    .error ⟨.closing, ⟨8, 4, 4⟩⟩ := by rfl

end Compilation

end TapeLang
