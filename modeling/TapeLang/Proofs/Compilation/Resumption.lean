import TapeLang.Proofs.Compilation.Acceptance
import TapeLang.Proofs.Compilation.Calls

/-!
# Refused texts

A text is refused because a bracket has no partner, and what has been compiled by then stays as it
is.  It is a well-defined beginning of a program in both cases.

* If brackets are still open at the end, then closing the loops by hand, one after another, leaves
  the program of the text with as many closing brackets behind it.
* If a bracket closes nothing, then no loop is open, and what there is is the program of the text in
  front of this bracket.

Both follow from the reading of the text.  What is left of a text can be cut off
(`Outline.Reads.exists_front`), and closing brackets can be put behind it (`Outline.Reads.append`):
no run gets longer or shorter by that.  A compilation and a reading close the same loops
(`exists_reads_closings`), so they end with the same block.

Loading a text anew keeps nothing but the choice of optimization, which no call changes.
-/

namespace TapeLang

namespace Outline

variable {o last : Outline} {text left : List Char}

/-- The part of a text that is read can be read alone. -/
theorem Reads.exists_front (hreads : Reads o text last left) :
    ∃ front, text = front ++ left ∧ Reads o front last [] := by
  induction hreads with
  | finish o => exact ⟨[], rfl, .finish o⟩
  | stray block rest => exact ⟨[], rfl, .finish _⟩
  | @run _ _ p count _ _ count_pos hmaximal _ ih =>
      obtain ⟨front, rfl, hfront⟩ := ih
      refine ⟨List.replicate count p.symbol ++ front, (List.append_assoc ..).symm, ?_⟩
      refine .run count_pos ?_ hfront
      cases front with
      | nil => exact nofun
      | cons c tail => exact hmaximal
  | @comment _ _ c _ _ silent _ ih =>
      obtain ⟨front, rfl, hfront⟩ := ih
      exact ⟨c :: front, rfl, .comment silent hfront⟩
  | opening _ ih =>
      obtain ⟨front, rfl, hfront⟩ := ih
      exact ⟨'[' :: front, rfl, .opening hfront⟩
  | closing _ ih =>
      obtain ⟨front, rfl, hfront⟩ := ih
      exact ⟨']' :: front, rfl, .closing hfront⟩

/-- Reading goes on with what stands behind a text, unless a run does. -/
theorem Reads.append {final : Outline} {more rest : List Char} (hreads : Reads o text last left)
    (hleft : left = []) (hmore : Reads last more final rest)
    (hhead : ∀ p : Primitive, more.head? ≠ some p.symbol) : Reads o (text ++ more) final rest := by
  induction hreads with
  | finish o => exact hmore
  | stray block rest => cases hleft
  | @run _ _ p _ tail _ count_pos hmaximal _ ih =>
      rw [List.append_assoc]
      refine .run count_pos ?_ (ih hleft hmore)
      cases tail with
      | nil => exact hhead p
      | cons c tail => exact hmaximal
  | comment silent _ ih => exact .comment silent (ih hleft hmore)
  | opening _ ih => exact .opening (ih hleft hmore)
  | closing _ ih => exact .closing (ih hleft hmore)

@[simp] theorem depth_extend (o : Outline) (tail : Block) : (o.extend tail).depth = o.depth := by
  cases o <;> rfl

theorem length_openLoops (o : Outline) (optimize : Bool) :
    (o.openLoops optimize).length = o.depth := by
  induction o with
  | base block => rfl
  | nested outer block ih => rw [openLoops, List.length_cons, ih, depth]

end Outline

namespace Compilation

/-- Closes a number of loops, one after another. -/
def closeLoops (c : Compilation) : Nat → Except CompileError Compilation
  | 0 => .ok c
  | count + 1 =>
    match c.closeLoop with
    | .ok closed => closed.closeLoops count
    | .error error => .error error

/-- A text of closing brackets. -/
def closings (count : Nat) : String :=
  .ofList (List.replicate count ']')

theorem toList_closings (count : Nat) : (closings count).toList = List.replicate count ']' :=
  String.toList_ofList

theorem head?_closings_ne_symbol (count : Nat) (p : Primitive) :
    (closings count).toList.head? ≠ some p.symbol := by
  rw [toList_closings]
  cases count with
  | zero => exact nofun
  | succ count =>
      intro hhead
      exact (symbol_ne_brackets p).2 (Option.some.inj hhead).symm

/-- Closing the open loops of an outline by hand leads to the block that is read if as many closing
brackets follow. -/
theorem exists_reads_closings (o : Outline) :
    ∃ block, Outline.Reads o (closings o.depth).toList (.base block) [] ∧
      ∀ c : Compilation, c.Built o → ∃ closed, c.closeLoops o.depth = .ok closed ∧
        closed.Built (.base block) ∧ closed.optimize = c.optimize ∧ closed.cursor = c.cursor := by
  induction hdepth : o.depth generalizing o with
  | zero =>
      cases o with
      | nested outer block => cases hdepth
      | base block => exact ⟨block, .finish _, fun c hbuilt => ⟨c, rfl, hbuilt, rfl, rfl⟩⟩
  | succ count ih =>
      cases o with
      | base block => cases hdepth
      | nested outer block =>
          -- Closing the innermost loop makes it a part of the block around it.
          have houter : (outer.extend (.loop block .empty)).depth = count := by
            rw [Outline.depth_extend]
            exact Nat.succ.inj hdepth
          obtain ⟨whole, hreads, hclose⟩ := ih _ houter
          rw [toList_closings] at hreads ⊢
          refine ⟨whole, .closing hreads, fun c hbuilt => ?_⟩
          obtain ⟨closed, hclosed, hwhole, hoptimize, hcursor⟩ := hclose _ hbuilt.closeAt
          refine ⟨closed, ?_, hwhole, hoptimize, hcursor⟩
          rw [closeLoops, closeLoop, hbuilt.openLoops, Outline.openLoops]
          exact hclosed

/-! ## The two ways to be refused -/

variable {c last : Compilation} {text : String} {place : Place}

theorem exists_reads_of_compile {error? : Option CompileError}
    (hcompile : c.compile text = (last, error?)) :
    ∃ o left, Outline.Reads (.base .empty) text.toList o left ∧ last.optimize = c.optimize ∧
      last.HasRead o ∧ error? = (strayError? left last.cursor.place <|> last.unclosed?) := by
  obtain ⟨o, left, hreads⟩ := Outline.exists_reads (.base .empty) text.toList
  obtain ⟨d, hd, hoptimize, hread⟩ := c.compile_of_reads hreads
  rw [hcompile] at hd
  cases hd
  exact ⟨o, left, hreads, hoptimize, hread, rfl⟩

theorem ofSource_of_built {block : Block}
    (hreads : Outline.Reads (.base .empty) text.toList (.base block) [])
    (hbuilt : last.Built (.base block)) :
    Program.ofSource text last.optimize = .ok last.program := by
  have hprogram : last.program = .ofList (block.code last.optimize 0) := Program.ext hbuilt.program
  rw [hprogram]
  exact ofSource_of_reads hreads last.optimize

/-- If brackets are open at the end, the loops can be closed by hand. -/
theorem resumes_of_unclosed (hcompile : c.compile text = (last, some ⟨.opening, place⟩)) :
    0 < last.openLoops.length ∧
      ∃ closed, last.closeLoops last.openLoops.length = .ok closed ∧
        Program.ofSource (text ++ closings last.openLoops.length) c.optimize = .ok closed.program ∧
        closed.closeLoop = .error ⟨.closing, last.cursor.place⟩ ∧
        closed.perform .closeLoop = some closed := by
  obtain ⟨o, left, hreads, hoptimize, hread, herror⟩ := exists_reads_of_compile hcompile
  obtain rfl : left = [] := by
    cases left with
    | nil => rfl
    | cons symbol rest => cases herror
  cases o with
  | base block =>
      rw [strayError?, if_pos rfl, hread.toBuilt.unclosed?_base] at herror
      cases herror
  | nested outer block =>
      have hlength : last.openLoops.length = (Outline.nested outer block).depth := by
        rw [hread.openLoops, Outline.length_openLoops]
      obtain ⟨whole, hclosings, hclose⟩ := exists_reads_closings (.nested outer block)
      obtain ⟨closed, hclosed, hbuilt, hsame, hcursor⟩ := hclose last hread.toBuilt
      have hwhole := hreads.append rfl hclosings (head?_closings_ne_symbol _)
      rw [← String.toList_append] at hwhole
      have hover : closed.closeLoop = .error ⟨.closing, last.cursor.place⟩ := by
        rw [closeLoop, hbuilt.openLoops, ← hcursor]
        rfl
      rw [hlength]
      refine ⟨Nat.succ_pos _, closed, hclosed, ?_, hover, by rw [perform, hover]⟩
      rw [← hoptimize, ← hsame]
      exact ofSource_of_built hwhole hbuilt

/-- If a bracket closes nothing, what has been read is what stands in front of it. -/
theorem stands_of_stray (hcompile : c.compile text = (last, some ⟨.closing, place⟩)) :
    last.openLoops = [] ∧ last.cursor.place = place ∧
      Program.ofSource (.ofList (text.toList.take place.position)) c.optimize =
        .ok last.program := by
  obtain ⟨o, left, hreads, hoptimize, hread, herror⟩ := exists_reads_of_compile hcompile
  rcases hreads.left_eq with rfl | ⟨block, rest, rfl, rfl⟩
  · obtain ⟨outermost, -, heq⟩ := Option.map_eq_some_iff.mp herror.symm
    cases heq
  · obtain ⟨front, htext, hfront⟩ := hreads.exists_front
    have hplace : place = last.cursor.place := by
      cases herror
      rfl
    have hposition : place.position = front.length := by
      have hfrontText : block.text = front := by
        simpa [Outline.text, Block.text] using hfront.text_eq
      rw [hplace, hread.place, Place.position_afterText, Outline.text, hfrontText]
      exact Nat.zero_add _
    refine ⟨hread.openLoops, hplace.symm, ?_⟩
    rw [← hoptimize, hposition, htext, List.take_left]
    rw [← String.toList_ofList (l := front)] at hfront
    exact ofSource_of_built hfront hread.toBuilt

/-! ## Loading another text -/

theorem optimize_of_perform {d : Compilation} {call : Call} (hcall : c.perform call = some d) :
    d.optimize = c.optimize := by
  cases call with
  | compile text =>
      cases hcall
      obtain ⟨-, -, -, hoptimize, -⟩ := exists_reads_of_compile (rfl : c.compile text = (_, _))
      exact hoptimize
  | reset text =>
      cases hcall
      rfl
  | advance =>
      cases hcall
      rfl
  | readRun =>
      rw [perform, readRun?] at hcall
      split at hcall <;> cases hcall
      rfl
  | closeLoop =>
      cases hopen : c.openLoops with
      | nil =>
          simp only [perform, closeLoop, hopen] at hcall
          cases hcall
          rfl
      | cons innermost outer =>
          simp only [perform, closeLoop, hopen] at hcall
          cases hcall
          rfl

/-- Whatever is called in between, another text is compiled as by a new compilation. -/
theorem compile_of_calls {calls : List Call} {d : Compilation}
    (hcalls : calls.foldlM perform c = some d) (later : String) :
    d.compile later = ({ optimize := c.optimize } : Compilation).compile later := by
  induction calls generalizing c with
  | nil =>
      cases hcalls
      rfl
  | cons call rest ih =>
      obtain ⟨middle, hcall, hrest⟩ := Option.bind_eq_some_iff.mp hcalls
      rw [ih hrest, optimize_of_perform hcall]

/-- A text that is refused leaves the beginning of a program.  If brackets are open at its end,
their loops can be closed by hand, which gives the program of the text with as many closing brackets
behind it; one more is an error and changes nothing.  If a bracket closes nothing, there is the
program of the text in front of it.  And whatever is called next, another text is compiled as if it
were the first. -/
theorem refused_compilation_resumes {error : CompileError}
    (hcompile : c.compile text = (last, some error)) :
    (error.bracket = .opening → 0 < last.openLoops.length ∧
      ∃ closed, last.closeLoops last.openLoops.length = .ok closed ∧
        Program.ofSource (text ++ closings last.openLoops.length) c.optimize = .ok closed.program ∧
        closed.closeLoop = .error ⟨.closing, last.cursor.place⟩ ∧
        closed.perform .closeLoop = some closed) ∧
    (error.bracket = .closing → last.openLoops = [] ∧ last.cursor.place = error.place ∧
      Program.ofSource (.ofList (text.toList.take error.place.position)) c.optimize =
        .ok last.program) ∧
    ∀ (calls : List Call) (d : Compilation) (later : String),
      calls.foldlM perform last = some d →
      d.compile later = ({ optimize := c.optimize } : Compilation).compile later := by
  obtain ⟨bracket, place⟩ := error
  refine ⟨?_, ?_, fun calls d later hcalls => ?_⟩
  · rintro rfl
    exact resumes_of_unclosed hcompile
  · rintro rfl
    exact stands_of_stray hcompile
  · obtain ⟨-, -, -, hoptimize, -⟩ := exists_reads_of_compile hcompile
    rw [compile_of_calls hcalls, hoptimize]

/-- Closing the inner loop fuses it, and closing the outer one does not.  The bracket that closes
nothing stands behind a loop that was fused. -/
theorem refused_compilation_resumes_of_nested_loops :
    let c : Compilation := {}
    (∃ last closed, c.compile "+[[->>+<<" = (last, some ⟨.opening, ⟨1, 1, 2⟩⟩) ∧
      last.openLoops.length = 2 ∧ last.closeLoops 2 = .ok closed ∧
      Program.ofSource ("+[[->>+<<" ++ closings 2) true = .ok closed.program ∧
      closed.program.toList =
        [.repeated .add 1, .of .jumpIfZero 3, .of (.carry .right) 2, .of .jumpIfNonzero 1]) ∧
    ∃ last, c.compile "[-].]+" = (last, some ⟨.closing, ⟨4, 1, 5⟩⟩) ∧
      Program.ofSource (.ofList ("[-].]+".toList.take 4)) true = .ok last.program := by
  intro c
  have hunclosed : (c.compile "+[[->>+<<").2 = some ⟨.opening, ⟨1, 1, 2⟩⟩ := by decide +kernel
  have hstray : (c.compile "[-].]+").2 = some ⟨.closing, ⟨4, 1, 5⟩⟩ := by decide +kernel
  have htwo : (c.compile "+[[->>+<<").1.openLoops.length = 2 := by decide +kernel
  have hwhole : (Program.ofSource ("+[[->>+<<" ++ closings 2) true).toOption.map Program.toList =
      some [.repeated .add 1, .of .jumpIfZero 3, .of (.carry .right) 2, .of .jumpIfNonzero 1] := by
    decide +kernel
  rcases hopening : c.compile "+[[->>+<<" with ⟨last, error?⟩
  rcases hclosing : c.compile "[-].]+" with ⟨front, stray?⟩
  rw [hopening] at hunclosed htwo
  rw [hclosing] at hstray
  obtain rfl : error? = some _ := hunclosed
  obtain rfl : stray? = some _ := hstray
  obtain ⟨-, closed, hclosed, hprogram, -, -⟩ := (refused_compilation_resumes hopening).1 rfl
  obtain ⟨-, -, hfront⟩ := (refused_compilation_resumes hclosing).2.1 rfl
  rw [htwo] at hclosed hprogram
  rw [hprogram] at hwhole
  exact ⟨⟨last, closed, rfl, htwo, hclosed, hprogram, Option.some.inj hwhole⟩, front, rfl, hfront⟩

end Compilation

end TapeLang
