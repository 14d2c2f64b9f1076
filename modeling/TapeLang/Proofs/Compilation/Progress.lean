import TapeLang.Proofs.Compilation.Calls
import TapeLang.Proofs.Simulation
import TapeLang.Proofs.Source.Cursor

/-!
# How a compilation moves through its text

Whatever is called on a compilation, its cursor stands in the text that was loaded last
(`standsIn_of_reachable`): no call leaves the line, the column or the character at the cursor
behind.  This includes the compilations that were refused, and the calls that move the cursor past
the end.

Compiling is a loop over the text, and a system like the machine (`Compilation.loop`).  In a turn, a
step moves the cursor over what it compiles (`exists_cursor_step`), which is at least one character
and never more than there are ahead.  So the loop moves on with every turn and stays within the text
(`within_of_turn`).  Where it ends, nothing is ahead, or a bracket closes nothing (`ended_of_turn`).
-/

namespace TapeLang

namespace Compilation

variable {c d after last : Compilation} {text : String} {error? : Option CompileError}

/-! ## The loop over the text -/

/-- The loop of compiling: a turn is a step, unless nothing is ahead or a bracket closes nothing. -/
def loop : System Compilation (Compilation × Option CompileError) where
  turn c :=
    match c.cursor.peek? with
    | none => .ended (c, none)
    | some symbol =>
      match c.stray? symbol with
      | some error => .ended (c, some error)
      | none => .next (c.step symbol)

theorem step_of_turn (hturn : loop.turn c = .next after) :
    ∃ symbol, c.cursor.peek? = some symbol ∧ after = c.step symbol := by
  simp only [loop] at hturn
  split at hturn
  · cases hturn
  · rename_i symbol hpeek
    split at hturn
    · cases hturn
    · cases hturn
      exact ⟨symbol, hpeek, rfl⟩

theorem ended_of_turn (hturn : loop.turn c = .ended (last, error?)) :
    last = c ∧ (c.cursor.peek? = none ∨ error? = some ⟨.closing, c.cursor.place⟩) := by
  simp only [loop] at hturn
  split at hturn
  · rename_i hpeek
    cases hturn
    exact ⟨rfl, .inl hpeek⟩
  · split at hturn
    · rename_i error hstray
      cases hturn
      unfold stray? at hstray
      split at hstray
      · exact ⟨rfl, .inr hstray.symm⟩
      · cases hstray
    · cases hturn

/-- With fuel for all that is ahead, the pass is the loop. -/
theorem halts_pass {fuel : Nat} (hfuel : c.cursor.rest.length ≤ fuel) :
    loop.Halts c (pass fuel c) := by
  induction fuel generalizing c with
  | zero =>
      -- The pass stops for want of fuel and the loop at the end of the text; here this is the same.
      have hnil : c.cursor.rest = [] := List.length_eq_zero_iff.mp (Nat.le_zero.mp hfuel)
      exact System.halts_of_ended (by simp [loop, pass, Cursor.peek?, hnil])
  | succ fuel ih =>
      cases hpeek : c.cursor.peek? with
      | none => exact System.halts_of_ended (by simp [loop, pass, hpeek])
      | some symbol =>
          cases hstray : c.stray? symbol with
          | some error => exact System.halts_of_ended (by simp [loop, pass, hpeek, hstray])
          | none =>
              have hturn : loop.turn c = .next (c.step symbol) := by simp [loop, hpeek, hstray]
              have hless := length_rest_step hpeek
              have hpass : pass (fuel + 1) c = pass fuel (c.step symbol) := by
                simp only [pass, hpeek, hstray]
              rw [hpass]
              exact (System.goes_one hturn).halts (ih (by omega))

theorem halts_of_compile (hcompile : c.compile text = (last, error?)) :
    ∃ stray?, loop.Halts (c.reset text) (last, stray?) ∧
      error? = (stray? <|> last.unclosed?) := by
  have hhalts := halts_pass (c := c.reset text) (Nat.le_of_eq String.length_toList)
  unfold compile at hcompile
  cases hcompile
  exact ⟨_, hhalts, rfl⟩

/-! ## Where the loop goes -/

/-- A turn moves the cursor on, and not out of the text. -/
theorem within_of_turn {whole : List Char} (hstands : c.cursor.StandsIn whole)
    (hturn : loop.turn c = .next after) :
    after.cursor.Within whole ∧ c.cursor.place.position < after.cursor.place.position := by
  obtain ⟨symbol, hpeek, rfl⟩ := step_of_turn hturn
  obtain ⟨count, count_pos, hcount, hcursor⟩ := exists_cursor_step hpeek
  rw [hcursor]
  refine ⟨hstands.within_advanceBy count_pos hcount, ?_⟩
  rw [Cursor.position_advanceBy]
  exact Nat.lt_add_of_pos_right count_pos

theorem within_of_goes {n : Nat} (hgoes : loop.Goes n (c.reset text) d) :
    d.cursor.Within text.toList :=
  hgoes.preserves (fun _ _ hwithin hturn => (within_of_turn hwithin.toStandsIn hturn).1)
    (Cursor.within_ofText text)

/-- Where the loop ends without an error of its own, the text has ended. -/
theorem position_of_halts {stray? : Option CompileError}
    (hhalts : loop.Halts (c.reset text) (last, stray?)) :
    last.cursor.StandsIn text.toList ∧
      (last.cursor.place.position = text.toList.length ∨
        stray? = some ⟨.closing, last.cursor.place⟩) := by
  obtain ⟨n, before, hgoes, hended⟩ := System.exists_goes_of_halts hhalts
  obtain ⟨rfl, hend⟩ := ended_of_turn hended
  have hwithin := within_of_goes hgoes
  exact ⟨hwithin.toStandsIn, hend.imp_left hwithin.position_eq⟩

/-! ## What is called on a compilation -/

theorem standsIn_of_perform {text? : Option String} {call : Call}
    (hstands : c.cursor.StandsIn (text?.getD "").toList) (hcall : c.perform call = some d) :
    d.cursor.StandsIn ((call.text? <|> text?).getD "").toList := by
  cases call with
  | compile text =>
      cases hcall
      obtain ⟨stray?, hhalts, -⟩ := halts_of_compile (rfl : c.compile text = (_, _))
      exact (position_of_halts hhalts).1
  | reset text =>
      cases hcall
      exact Cursor.standsIn_ofText text
  | advance =>
      cases hcall
      exact hstands.advance
  | readRun =>
      rw [perform, readRun?] at hcall
      split at hcall <;> cases hcall
      exact hstands.advanceBy _
  | closeLoop =>
      cases hopen : c.openLoops with
      | nil =>
          simp only [perform, closeLoop, hopen] at hcall
          cases hcall
          exact hstands
      | cons innermost outer =>
          simp only [perform, closeLoop, hopen] at hcall
          cases hcall
          exact hstands

theorem standsIn_of_reachable {optimize : Bool} {text? : Option String}
    (hreachable : Reachable optimize text? c) : c.cursor.StandsIn (text?.getD "").toList := by
  induction hreachable with
  | new => exact Cursor.standsIn_ofText ""
  | call call _ hcall ih => exact standsIn_of_perform ih hcall

/-- A run is read as a whole with optimization, and as one character without. -/
theorem exists_readRun {whole : List Char} (hstands : c.cursor.StandsIn whole) {symbol : Char}
    (hpeek : c.cursor.peek? = some symbol) :
    ∃ count d, c.readRun? = some (count, d) ∧
      d.cursor.place.position = c.cursor.place.position + count ∧
      (c.optimize = true → RunAt whole c.cursor.place.position symbol count) ∧
      (c.optimize = false → count = 1) := by
  have hread : c.readRun? =
      some (c.runLength, { c with cursor := c.cursor.advanceBy c.runLength }) := by
    simp [readRun?, hpeek]
  refine ⟨_, _, hread, Cursor.position_advanceBy .., ?_, ?_⟩
  · intro hoptimize
    rw [runLength, if_pos hoptimize]
    exact hstands.runAt hpeek
  · intro hoptimize
    simp [runLength, hoptimize]

/-- Whatever is called on a compilation, its line and its column are those of its position in the
text, and the character at the cursor is the one that stands there.  A run that is read at a
character is as long as it can be, and the cursor moves over all of it.

The loop of compiling moves on in every turn, never leaves the text, and is at the end of it when
the text is accepted or brackets are open. -/
theorem cursor_keeps_place :
    (∀ (optimize : Bool) (text? : Option String) (c : Compilation), Reachable optimize text? c →
      c.cursor.place.CountedIn (text?.getD "").toList ∧
      c.cursor.peek? = (text?.getD "").toList[c.cursor.place.position]? ∧
      ∀ symbol, c.cursor.peek? = some symbol →
        ∃ count d, c.readRun? = some (count, d) ∧
          d.cursor.place.position = c.cursor.place.position + count ∧
          (c.optimize = true →
            RunAt (text?.getD "").toList c.cursor.place.position symbol count) ∧
          (c.optimize = false → count = 1)) ∧
    ∀ (c last : Compilation) (text : String) (error? : Option CompileError),
      c.compile text = (last, error?) →
      (∀ n d, loop.Goes n (c.reset text) d →
        d.cursor.place.CountedIn text.toList ∧
        d.cursor.place.position ≤ text.toList.length ∧
        ∀ after, loop.turn d = .next after →
          d.cursor.place.position < after.cursor.place.position) ∧
      (∃ n stray?, loop.Goes n (c.reset text) last ∧ loop.turn last = .ended (last, stray?) ∧
        error? = (stray? <|> last.unclosed?)) ∧
      (error? = none ∨ (∃ place, error? = some ⟨.opening, place⟩) →
        last.cursor.place.position = text.toList.length) := by
  constructor
  · intro optimize text? c hreachable
    have hstands := standsIn_of_reachable hreachable
    exact ⟨hstands.place, hstands.peek?, fun symbol => exists_readRun hstands⟩
  intro c last text error? hcompile
  refine ⟨?_, ?_, ?_⟩
  · intro n d hgoes
    have hwithin := within_of_goes hgoes
    exact ⟨hwithin.place, hwithin.position_le, fun after hturn =>
      (within_of_turn hwithin.toStandsIn hturn).2⟩
  · obtain ⟨stray?, hhalts, herror⟩ := halts_of_compile hcompile
    obtain ⟨n, before, hgoes, hended⟩ := System.exists_goes_of_halts hhalts
    obtain ⟨rfl, -⟩ := ended_of_turn hended
    exact ⟨n, stray?, hgoes, hended, herror⟩
  · intro hfree
    obtain ⟨stray?, hhalts, herror⟩ := halts_of_compile hcompile
    rcases (position_of_halts hhalts).2 with hend | rfl
    · exact hend
    · rcases hfree with rfl | ⟨place, rfl⟩ <;> cases herror

/-- Three line feeds are read as a run.  The other text is refused for the bracket in front of a
line feed, and that line feed has been passed by then. -/
theorem cursor_keeps_place_of_line_feeds :
    (∃ c d, Reachable true (some "a\n\n\nb") c ∧ c.readRun? = some (3, d) ∧
      d.cursor.place = ⟨4, 4, 1⟩ ∧ RunAt "a\n\n\nb".toList 1 '\n' 3) ∧
    ∃ last, ({} : Compilation).compile "+[\n" = (last, some ⟨.opening, ⟨1, 1, 2⟩⟩) ∧
      last.cursor.place.position = 3 := by
  constructor
  · have hreachable : Reachable true (some "a\n\n\nb")
        (({} : Compilation).reset "a\n\n\nb").advance :=
      .call .advance (.call (.reset "a\n\n\nb") .new rfl) rfl
    obtain ⟨-, -, hread⟩ := cursor_keeps_place.1 _ _ _ hreachable
    obtain ⟨count, d, hrun, -, hwhole, -⟩ := hread '\n' rfl
    cases hrun
    exact ⟨_, _, hreachable, rfl, rfl, hwhole rfl⟩
  · have hcompile : (({} : Compilation).compile "+[\n").2 = some ⟨.opening, ⟨1, 1, 2⟩⟩ := by
      decide +kernel
    rcases hlast : ({} : Compilation).compile "+[\n" with ⟨last, error?⟩
    rw [hlast] at hcompile
    obtain rfl : error? = some _ := hcompile
    obtain ⟨-, -, hend⟩ := cursor_keeps_place.2 _ _ _ _ hlast
    exact ⟨last, rfl, hend (.inr ⟨_, rfl⟩)⟩

end Compilation

end TapeLang
