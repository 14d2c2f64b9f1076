import TapeLang.Proofs.Compilation.Acceptance
import TapeLang.Proofs.Source.Place

/-!
# Which texts are refused, and where

A text is refused for its first stray bracket.  If no bracket is stray, it is refused for its first
unclosed one.  `Verdict` says so in terms of the text alone, and `verdict_compile` says that this is
what a compilation reports, whatever was compiled before, and with or without optimization.

The outline that has been read when the pass ends tells both cases apart.  All of its closing
brackets have partners, so a bracket that stops the pass is the first stray one
(`exists_partners_of_closing`).  If the pass gets to the end, the open bracket in front of all other
open ones is the first unclosed one: in front of it is a block, and behind it nothing closes too
early (`exists_outermost`).
-/

namespace TapeLang

/-- The least position with a property. -/
def First (holds : Nat → Prop) (i : Nat) : Prop :=
  holds i ∧ ∀ k, k < i → ¬ holds k

theorem First.unique {holds : Nat → Prop} {i j : Nat} (hfirst : First holds i)
    (hsecond : First holds j) : i = j := by
  rcases Nat.lt_trichotomy i j with hless | hsame | hless
  · exact absurd hfirst.1 (hsecond.2 i hless)
  · exact hsame
  · exact absurd hsecond.1 (hfirst.2 j hless)

/-- What is to be said of a text: the first stray bracket, else the first unclosed one, else
nothing. -/
inductive Verdict (text : List Char) : Option CompileError → Prop where
  | stray {j : Nat} (hfirst : First (Stray text) j) :
      Verdict text (some ⟨.closing, placeAt text j⟩)
  | unclosed {i : Nat} (hstray : ∀ j, ¬ Stray text j) (hfirst : First (Unclosed text) i) :
      Verdict text (some ⟨.opening, placeAt text i⟩)
  | accepted (hstray : ∀ j, ¬ Stray text j) (hunclosed : ∀ i, ¬ Unclosed text i) :
      Verdict text none

/-- There is one verdict on a text. -/
theorem Verdict.unique {text : List Char} {first second : Option CompileError}
    (hfirst : Verdict text first) (hsecond : Verdict text second) : first = second := by
  cases hfirst with
  | stray hj =>
      cases hsecond with
      | stray hk => rw [hj.unique hk]
      | unclosed hstray _ => exact absurd hj.1 (hstray _)
      | accepted hstray _ => exact absurd hj.1 (hstray _)
  | unclosed hstray hi =>
      cases hsecond with
      | stray hk => exact absurd hk.1 (hstray _)
      | unclosed _ hk => rw [hi.unique hk]
      | accepted _ hunclosed => exact absurd hi.1 (hunclosed _)
  | accepted hstray hunclosed =>
      cases hsecond with
      | stray hk => exact absurd hk.1 (hstray _)
      | unclosed _ hk => exact absurd hk.1 (hunclosed _)
      | accepted _ _ => rfl

theorem Verdict.of_stray {text : List Char} {error? : Option CompileError}
    (hverdict : Verdict text error?) (hstray : ∃ j, Stray text j) :
    ∃ j, First (Stray text) j ∧ error? = some ⟨.closing, placeAt text j⟩ := by
  obtain ⟨k, hstray⟩ := hstray
  cases hverdict with
  | stray hfirst => exact ⟨_, hfirst, rfl⟩
  | unclosed hnone _ => exact absurd hstray (hnone k)
  | accepted hnone _ => exact absurd hstray (hnone k)

theorem Verdict.of_unclosed {text : List Char} {error? : Option CompileError}
    (hverdict : Verdict text error?) (hstray : ∀ j, ¬ Stray text j)
    (hunclosed : ∃ i, Unclosed text i) :
    ∃ i, First (Unclosed text) i ∧ error? = some ⟨.opening, placeAt text i⟩ := by
  obtain ⟨k, hunclosed⟩ := hunclosed
  cases hverdict with
  | stray hfirst => exact absurd hfirst.1 (hstray _)
  | unclosed _ hfirst => exact ⟨_, hfirst, rfl⟩
  | accepted _ hnone => exact absurd hunclosed (hnone k)

/-! ## Blocks and brackets without partners -/

theorem Stray.lt_length {text : List Char} {j : Nat} (hstray : Stray text j) : j < text.length :=
  (List.getElem?_eq_some_iff.mp hstray.1).1

theorem Unclosed.lt_length {text : List Char} {i : Nat} (hunclosed : Unclosed text i) :
    i < text.length :=
  (List.getElem?_eq_some_iff.mp hunclosed.1).1

/-- Nothing is stray or unclosed in a block that a text begins with. -/
theorem Block.not_stray_unclosed (b : Block) {text back : List Char} (htext : text = b.text ++ back)
    {i : Nat} (hlt : i < b.text.length) : ¬ Stray text i ∧ ¬ Unclosed text i := by
  have hmatched := @Block.matched_text b text [] back htext
  rw [List.length_nil, Nat.zero_add] at hmatched
  constructor
  · rintro ⟨hget, hnone⟩
    obtain ⟨j, hpartners⟩ := (hmatched i ']' (Nat.zero_le i) hlt hget).2 rfl
    exact hnone j hpartners
  · rintro ⟨hget, hnone⟩
    obtain ⟨j, hpartners⟩ := (hmatched i '[' (Nat.zero_le i) hlt hget).1 rfl
    exact hnone j hpartners

theorem Block.first_stray (b : Block) (rest : List Char) :
    First (Stray (b.text ++ ']' :: rest)) b.text.length :=
  ⟨stray_of_balanced b.balanced_text rest, fun _ hlt => (b.not_stray_unclosed rfl hlt).1⟩

theorem Block.first_unclosed (b : Block) {rest : List Char} {opened : Nat}
    (hrest : depth? 0 rest = some opened) :
    First (Unclosed (b.text ++ '[' :: rest)) b.text.length :=
  ⟨unclosed_of_depth? hrest, fun _ hlt => (b.not_stray_unclosed rfl hlt).2⟩

/-! ## What an outline tells -/

namespace Outline

/-- Every closing bracket in an outline that a text begins with has a partner. -/
theorem exists_partners_of_closing (o : Outline) {text back : List Char}
    (htext : text = o.text ++ back) {j : Nat} (hlt : j < o.text.length)
    (hclosing : text[j]? = some ']') : ∃ i, Partners text i j := by
  induction o generalizing back with
  | base block =>
      have hmatched := @Block.matched_text block text [] back htext
      rw [List.length_nil, Nat.zero_add] at hmatched
      exact (hmatched j ']' (Nat.zero_le j) hlt hclosing).2 rfl
  | nested outer block ih =>
      rw [Outline.text, List.append_assoc] at htext
      by_cases houter : j < outer.text.length
      · exact ih htext houter
      · by_cases hbracket : j = outer.text.length
        · rw [hbracket, getElem?_of_eq_append htext] at hclosing
          cases hclosing
        · have hmatched :=
            @Block.matched_text block text (outer.text ++ ['[']) back (by simp [htext])
          rw [List.length_append, List.length_singleton] at hmatched
          rw [Outline.text, List.length_append, List.length_cons] at hlt
          exact (hmatched j ']' (by omega) (by omega) hclosing).2 rfl

/-- In front of the outermost open bracket is a block, and nothing behind it closes too early. -/
theorem exists_outermost (outer : Outline) (block : Block) :
    ∃ (front : Block) (back : List Char) (opened : Nat),
      (nested outer block).text = front.text ++ '[' :: back ∧ depth? 0 back = some opened ∧
        ∀ optimize, ((nested outer block).openLoops optimize).getLast?.map OpenLoop.place =
          some (({} : Place).afterText front.text) := by
  induction outer generalizing block with
  | base front => exact ⟨front, block.text, 0, rfl, block.depth?_text 0, fun _ => rfl⟩
  | nested further inner ih =>
      obtain ⟨front, back, opened, htext, hback, hlast⟩ := ih inner
      refine ⟨front, back ++ '[' :: block.text, opened + 1, ?_, ?_, fun optimize => ?_⟩
      · rw [Outline.text, htext, List.append_assoc, List.cons_append]
      · rw [depth?_append, hback, Option.bind_some, depth?_opening, block.depth?_text]
      · rw [← hlast optimize, openLoops, openLoops, List.getLast?_cons_cons]

end Outline

/-! ## The verdict of a compilation -/

namespace Compilation

theorem Built.exists_unclosed? {c : Compilation} {outer : Outline} {block : Block}
    (hbuilt : c.Built (.nested outer block)) :
    ∃ i, First (Unclosed (Outline.nested outer block).text) i ∧
      c.unclosed? = some ⟨.opening, placeAt (Outline.nested outer block).text i⟩ := by
  obtain ⟨front, back, opened, htext, hback, hlast⟩ := outer.exists_outermost block
  have houtermost := hlast c.optimize
  rw [← hbuilt.openLoops, Option.map_eq_some_iff] at houtermost
  obtain ⟨outermost, hget, hplace⟩ := houtermost
  rw [htext]
  refine ⟨front.text.length, front.first_unclosed hback, ?_⟩
  rw [unclosed?, hget, Option.map_some, hplace, afterText_eq_placeAt front.text ('[' :: back)]

theorem verdict_compile (c : Compilation) (text : String) :
    Verdict text.toList (c.compile text).2 := by
  obtain ⟨o, left, hreads⟩ := Outline.exists_reads (.base .empty) text.toList
  obtain ⟨d, hcompile, -, hread⟩ := c.compile_of_reads hreads
  have htext : text.toList = o.text ++ left := hreads.text_eq.symm
  rw [hcompile, htext]
  rcases hreads.left_eq with rfl | ⟨block, rest, rfl, rfl⟩
  -- The pass got to the end, so every closing bracket has been read as the end of a loop.
  · rw [List.append_nil] at htext ⊢
    have hstray : ∀ j, ¬ Stray o.text j := by
      intro j hj
      obtain ⟨i, hpartners⟩ :=
        o.exists_partners_of_closing (List.append_nil _).symm hj.lt_length hj.1
      exact hj.2 i hpartners
    cases o with
    | base block =>
        rw [strayError?, if_pos rfl, hread.toBuilt.unclosed?_base]
        refine .accepted hstray fun i hi => ?_
        exact (block.not_stray_unclosed (List.append_nil _).symm hi.lt_length).2 hi
    | nested outer block =>
        obtain ⟨i, hfirst, hunclosed⟩ := hread.toBuilt.exists_unclosed?
        rw [strayError?, if_pos rfl, hunclosed]
        exact .unclosed hstray hfirst
  -- The pass stopped in front of a closing bracket, behind a block.
  · have hplace : d.cursor.place = placeAt (block.text ++ ']' :: rest) block.text.length := by
      rw [hread.place, ← afterText_eq_placeAt]
      rfl
    rw [strayError?, if_neg (List.cons_ne_nil _ _), hplace]
    exact .stray (block.first_stray rest)

/-- Exactly the balanced texts are accepted.  Any other text is refused at its first stray bracket
or, if there is none, at its first unclosed one, and the error says where that is.  All of this is
independent of what the compilation did before, and of optimization. -/
theorem compile_reports (c d : Compilation) (text : String) :
    ((∃ j, Stray text.toList j) → ∃ j, First (Stray text.toList) j ∧
      (c.compile text).2 = some ⟨.closing, placeAt text.toList j⟩) ∧
    ((∀ j, ¬ Stray text.toList j) → (∃ i, Unclosed text.toList i) →
      ∃ i, First (Unclosed text.toList) i ∧
        (c.compile text).2 = some ⟨.opening, placeAt text.toList i⟩) ∧
    ((∀ j, ¬ Stray text.toList j) → (∀ i, ¬ Unclosed text.toList i) →
      (c.compile text).2 = none) ∧
    ((c.compile text).2 = none ↔ Balanced text.toList) ∧
    (d.compile text).2 = (c.compile text).2 := by
  have hverdict := c.verdict_compile text
  have hsame := (d.verdict_compile text).unique hverdict
  refine ⟨?_, ?_, ?_, c.compile_eq_none_iff text, hsame⟩
  · intro hstray
    exact hverdict.of_stray hstray
  · intro hstray hunclosed
    exact hverdict.of_unclosed hstray hunclosed
  · intro hstray hunclosed
    exact hverdict.unique (.accepted hstray hunclosed)

-- The first bracket that is not closed is neither the first bracket nor the innermost open one.
example : (({} : Compilation).compile "[]\n [[+").2 = some ⟨.opening, ⟨4, 2, 2⟩⟩ := by rfl

end Compilation

end TapeLang
