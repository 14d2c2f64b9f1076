import TapeLang.Proofs.Compilation.Layout

/-!
# What a pass reads

`Outline.Reads o text last left` says how the outline of a text grows, without a word about
instructions: reading `text` on from the outline `o` leads to the outline `last`, and `left` is what
is left of the text, which is nothing, or a closing bracket that nothing is open for.  Runs are read
as a whole, and they are as long as they can be.  Every text can be read in this way
(`exists_reads`).

Both ways of compiling follow the reading (`pass_of_reads`).  `Compilation.HasRead` is what carries
the proof: the program is the code of the outline, the open loops are its open loops, and the cursor
stands behind its text.  With optimization a run takes one step.  Without, it takes one step for
each character, and the outlines in between are those of shorter runs.
-/

namespace TapeLang

namespace Outline

/-- Reading a text on from one outline leads to another one, with the rest of the text left over. -/
inductive Reads : Outline → List Char → Outline → List Char → Prop where
  | finish (o : Outline) : Reads o [] o []
  | stray (block : Block) (rest : List Char) :
      Reads (base block) (']' :: rest) (base block) (']' :: rest)
  | run {o last : Outline} {p : Primitive} {count : Nat} {rest left : List Char}
      (count_pos : 0 < count) (hmaximal : rest.head? ≠ some p.symbol)
      (hreads : Reads (o.extend (.run p count count_pos .empty)) rest last left) :
      Reads o (List.replicate count p.symbol ++ rest) last left
  | comment {o last : Outline} {c : Char} {rest left : List Char} (silent : isCommand c = false)
      (hreads : Reads (o.extend (.comment c silent .empty)) rest last left) :
      Reads o (c :: rest) last left
  | opening {o last : Outline} {rest left : List Char}
      (hreads : Reads (nested o .empty) rest last left) : Reads o ('[' :: rest) last left
  | closing {outer last : Outline} {block : Block} {rest left : List Char}
      (hreads : Reads (outer.extend (.loop block .empty)) rest last left) :
      Reads (nested outer block) (']' :: rest) last left

theorem Reads.text_eq {o last : Outline} {text left : List Char} (hreads : Reads o text last left) :
    last.text ++ left = o.text ++ text := by
  induction hreads with
  | finish o => rfl
  | stray block rest => rfl
  | run count_pos hmaximal _ ih => simp [ih, Block.text]
  | comment silent _ ih => simp [ih, Block.text]
  | opening _ ih => simp [ih, Outline.text, Block.text]
  | closing _ ih => simp [ih, Outline.text, Block.text]

theorem Reads.left_eq {o last : Outline} {text left : List Char} (hreads : Reads o text last left) :
    left = [] ∨ ∃ block rest, last = base block ∧ left = ']' :: rest := by
  induction hreads with
  | finish o => exact .inl rfl
  | stray block rest => exact .inr ⟨block, rest, rfl, rfl⟩
  | run _ _ _ ih => exact ih
  | comment _ _ ih => exact ih
  | opening _ ih => exact ih
  | closing _ ih => exact ih

/-- The run of a character that a text begins with. -/
private theorem exists_run (c : Char) (tail : List Char) :
    ∃ count rest, 0 < count ∧ c :: tail = List.replicate count c ++ rest ∧ rest.head? ≠ some c := by
  refine ⟨((c :: tail).takeWhile (· == c)).length, (c :: tail).dropWhile (· == c), by simp, ?_, ?_⟩
  · have hrun : (c :: tail).takeWhile (· == c) =
        List.replicate ((c :: tail).takeWhile (· == c)).length c := by
      refine List.eq_replicate_of_mem fun x hx => ?_
      have hall := List.all_eq_true.mp (List.all_takeWhile (p := (· == c))) x hx
      exact eq_of_beq hall
    rw [← hrun, List.takeWhile_append_dropWhile]
  · intro hhead
    have hnot := List.head?_dropWhile_not (· == c) (c :: tail)
    rw [hhead] at hnot
    simp at hnot

theorem exists_reads (o : Outline) (text : List Char) : ∃ last left, Reads o text last left := by
  -- A run is read as a whole, so what is left is shorter by more than one character.
  induction hlength : text.length using Nat.strongRecOn generalizing o text with
  | ind length ih =>
      subst hlength
      cases text with
      | nil => exact ⟨o, [], .finish o⟩
      | cons c tail =>
          have hless : tail.length < (c :: tail).length := by simp
          rcases command_cases c with hsilent | ⟨p, rfl⟩ | rfl | rfl
          · obtain ⟨last, left, hreads⟩ := ih _ hless _ tail rfl
            exact ⟨last, left, .comment hsilent hreads⟩
          · obtain ⟨count, rest, count_pos, htext, hmaximal⟩ := exists_run p.symbol tail
            have hrest : rest.length < (p.symbol :: tail).length := by
              rw [htext, List.length_append, List.length_replicate]
              omega
            obtain ⟨last, left, hreads⟩ := ih _ hrest _ rest rfl
            rw [htext]
            exact ⟨last, left, .run count_pos hmaximal hreads⟩
          · obtain ⟨last, left, hreads⟩ := ih _ hless _ tail rfl
            exact ⟨last, left, .opening hreads⟩
          · cases o with
            | base block => exact ⟨_, _, .stray block tail⟩
            | nested outer block =>
                obtain ⟨last, left, hreads⟩ := ih _ hless _ tail rfl
                exact ⟨last, left, .closing hreads⟩

end Outline

/-! ## Both ways of compiling follow the reading -/

namespace Compilation

/-- The program and the open loops are those of an outline. -/
structure Built (c : Compilation) (o : Outline) : Prop where
  program : c.program.toList = o.code c.optimize
  openLoops : c.openLoops = o.openLoops c.optimize

/-- What is built is what the cursor has passed. -/
structure HasRead (c : Compilation) (o : Outline) : Prop extends Built c o where
  place : c.cursor.place = ({} : Place).afterText o.text

theorem hasRead_reset (c : Compilation) (text : String) :
    (c.reset text).HasRead (.base .empty) where
  program := rfl
  openLoops := rfl
  place := rfl

theorem Built.size {c : Compilation} {o : Outline} (hbuilt : c.Built o) :
    c.program.size = (o.code c.optimize).length := by
  rw [← Program.length_toList, hbuilt.program]

theorem Built.closeAt {c : Compilation} {outer : Outline} {block : Block}
    (hbuilt : c.Built (.nested outer block)) :
    (c.closeAt (outer.code c.optimize).length (outer.openLoops c.optimize)).Built
      (outer.extend (.loop block .empty)) where
  program := by
    rw [Outline.code_extend, Block.code_loop]
    exact toList_closedProgram c.optimize hbuilt.program
  openLoops := (outer.openLoops_extend _ _).symm

theorem cursor_advance {c : Compilation} {symbol : Char} {rest : List Char}
    (hrest : c.cursor.rest = symbol :: rest) :
    c.advance.cursor = ⟨c.cursor.place.after symbol, rest⟩ := by
  simp only [advance, Cursor.advance, hrest]

theorem HasRead.openLoop {c : Compilation} {o : Outline} (hread : c.HasRead o) :
    c.openLoop.Built (.nested o .empty) where
  program := by
    rw [Compilation.openLoop, Program.toList_emit, hread.program]
    rfl
  openLoops := by
    rw [Compilation.openLoop, hread.toBuilt.size, hread.place, hread.openLoops]
    rfl

/-- One instruction stands for the characters that the run length counts. -/
theorem runCode_runLength (c : Compilation) (p : Primitive) :
    Block.runCode c.optimize p c.runLength = [.repeated p c.runLength] := by
  unfold Block.runCode runLength
  cases c.optimize <;> rfl

theorem HasRead.emitRun {c : Compilation} {o : Outline} (hread : c.HasRead o) {p : Primitive}
    {rest : List Char} (count_pos : 0 < c.runLength)
    (hrest : c.cursor.rest = List.replicate c.runLength p.symbol ++ rest) :
    (c.emitRun p).HasRead (o.extend (.run p c.runLength count_pos .empty)) ∧
      (c.emitRun p).cursor.rest = rest := by
  have hcursor := c.cursor.advanceBy_length (List.replicate c.runLength p.symbol) rest hrest
  rw [List.length_replicate] at hcursor
  refine ⟨⟨⟨?_, ?_⟩, ?_⟩, ?_⟩
  · rw [Outline.code_extend, Block.code_run]
    show (c.program.emit _).toList = o.code c.optimize ++ Block.runCode c.optimize p c.runLength
    rw [Program.toList_emit, hread.program, runCode_runLength]
  · exact hread.openLoops.trans (o.openLoops_extend _ _).symm
  · rw [Outline.text_extend]
    show (c.cursor.advanceBy c.runLength).place = _
    rw [hcursor, hread.place, ← Place.afterText_append]
    simp [Block.text]
  · show (c.cursor.advanceBy c.runLength).rest = rest
    rw [hcursor]

/-! ### One step -/

theorem step_symbol (c : Compilation) (p : Primitive) : c.step p.symbol = c.emitRun p := by
  rw [step, Primitive.ofSymbol?_symbol]

theorem step_opening (c : Compilation) : c.step '[' = c.openLoop.advance := rfl

theorem step_closing {c : Compilation} {innermost : OpenLoop} {outer : List OpenLoop}
    (hopen : c.openLoops = innermost :: outer) :
    c.step ']' = (c.closeAt innermost.start outer).advance :=
  step_eq_of_closeLoop (by rw [closeLoop, hopen])

theorem step_comment {c : Compilation} {symbol : Char} (hsilent : isCommand symbol = false) :
    c.step symbol = c.advance := by
  obtain ⟨hsymbol, hopening, hclosing⟩ := isCommand_eq_false_iff.mp hsilent
  simp only [step, hsymbol, if_neg hopening, if_neg hclosing]

theorem pass_succ {c : Compilation} {symbol : Char} {rest : List Char}
    (hrest : c.cursor.rest = symbol :: rest) (hstray : c.stray? symbol = none) (fuel : Nat) :
    pass (fuel + 1) c = pass fuel (c.step symbol) := by
  have hpeek : c.cursor.peek? = some symbol := by rw [Cursor.peek?, hrest, List.head?_cons]
  simp only [pass, hpeek, hstray]

theorem stray?_eq_none_of_ne {c : Compilation} {symbol : Char} (hsymbol : symbol ≠ ']') :
    c.stray? symbol = none := by
  simp [stray?, hsymbol]

/-! ### Steps of the pass -/

/-- Goes some steps of the pass, at most as many as there are characters in a piece of the text. -/
structure PassesTo (c : Compilation) (o : Outline) (length : Nat) (rest : List Char)
    (d : Compilation) : Prop where
  steps : ∃ steps, steps ≤ length ∧ ∀ fuel, pass (fuel + steps) c = pass fuel d
  optimize : d.optimize = c.optimize
  hasRead : d.HasRead o
  rest : d.cursor.rest = rest

theorem PassesTo.trans {c d e : Compilation} {middle last : Outline} {length more : Nat}
    {between rest : List Char} (hfirst : PassesTo c middle length between d)
    (hsecond : PassesTo d last more rest e) : PassesTo c last (more + length) rest e := by
  obtain ⟨first, hfirstLe, hfirstPass⟩ := hfirst.steps
  obtain ⟨second, hsecondLe, hsecondPass⟩ := hsecond.steps
  refine ⟨⟨second + first, by omega, fun fuel => ?_⟩, hsecond.optimize.trans hfirst.optimize,
    hsecond.hasRead, hsecond.rest⟩
  rw [← Nat.add_assoc, hfirstPass, hsecondPass]

/-- Passing a bracket that has been dealt with, or a comment. -/
theorem passesTo_advance {c dealt : Compilation} {before after : Outline} {symbol : Char}
    {rest : List Char} (hrest : c.cursor.rest = symbol :: rest) (hstray : c.stray? symbol = none)
    (hstep : c.step symbol = dealt.advance) (hcursor : dealt.cursor = c.cursor)
    (hoptimize : dealt.optimize = c.optimize) (hread : c.HasRead before)
    (hbuilt : dealt.Built after)
    (htext : after.text = before.text ++ [symbol]) : PassesTo c after 1 rest dealt.advance := by
  rw [← hcursor] at hrest
  refine ⟨⟨1, Nat.le_refl 1, fun fuel => ?_⟩, hoptimize,
    ⟨⟨hbuilt.program, hbuilt.openLoops⟩, ?_⟩, ?_⟩
  · rw [pass_succ (hcursor ▸ hrest) hstray, hstep]
  · rw [cursor_advance hrest, hcursor, htext, Place.afterText_append, ← hread.place]
    rfl
  · rw [cursor_advance hrest]

theorem passesTo_comment {c : Compilation} {o : Outline} {symbol : Char} {rest : List Char}
    (hread : c.HasRead o) (hrest : c.cursor.rest = symbol :: rest)
    (silent : isCommand symbol = false) :
    PassesTo c (o.extend (.comment symbol silent .empty)) 1 rest c.advance := by
  obtain ⟨-, -, hclosing⟩ := isCommand_eq_false_iff.mp silent
  refine passesTo_advance hrest (stray?_eq_none_of_ne hclosing) (step_comment silent) rfl rfl hread
    ⟨?_, ?_⟩ (by simp [Block.text])
  · simp [hread.program, Outline.code_extend, Block.code]
  · simp [hread.openLoops]

theorem passesTo_opening {c : Compilation} {o : Outline} {rest : List Char} (hread : c.HasRead o)
    (hrest : c.cursor.rest = '[' :: rest) :
    PassesTo c (.nested o .empty) 1 rest c.openLoop.advance :=
  passesTo_advance hrest (stray?_eq_none_of_ne (by decide)) c.step_opening rfl rfl hread
    hread.openLoop rfl

theorem passesTo_closing {c : Compilation} {outer : Outline} {block : Block} {rest : List Char}
    (hread : c.HasRead (.nested outer block)) (hrest : c.cursor.rest = ']' :: rest) :
    ∃ d, PassesTo c (outer.extend (.loop block .empty)) 1 rest d := by
  have hopen := hread.openLoops
  have hstray : c.stray? ']' = none := by simp [stray?, hopen, Outline.openLoops]
  exact ⟨_, passesTo_advance hrest hstray (step_closing hopen) rfl rfl hread hread.toBuilt.closeAt
    (by simp [Outline.text, Block.text])⟩

/-! ### Runs -/

theorem passesTo_emitRun {c : Compilation} {o : Outline} (hread : c.HasRead o) {p : Primitive}
    {rest : List Char} (count_pos : 0 < c.runLength)
    (hrest : c.cursor.rest = List.replicate c.runLength p.symbol ++ rest) :
    PassesTo c (o.extend (.run p c.runLength count_pos .empty)) c.runLength rest (c.emitRun p) := by
  obtain ⟨hemitted, hemittedRest⟩ := hread.emitRun count_pos hrest
  refine ⟨⟨1, count_pos, fun fuel => ?_⟩, rfl, hemitted, hemittedRest⟩
  have hhead : c.cursor.rest =
      p.symbol :: (List.replicate (c.runLength - 1) p.symbol ++ rest) := by
    rw [hrest, ← List.cons_append, ← List.replicate_succ, Nat.sub_add_cancel count_pos]
  rw [pass_succ hhead (stray?_eq_none_of_ne (symbol_ne_brackets p).2), step_symbol]

theorem runLength_of_maximal {c : Compilation} (hoptimize : c.optimize = true) {s : Char}
    {count : Nat} (count_pos : 0 < count) {rest : List Char} (hmaximal : rest.head? ≠ some s)
    (hrest : c.cursor.rest = List.replicate count s ++ rest) : c.runLength = count := by
  have hstop : rest.takeWhile (· == s) = [] := by
    cases rest with
    | nil => rfl
    | cons head tail =>
        have hne : head ≠ s := fun h => hmaximal (by rw [h, List.head?_cons])
        simp [hne]
  obtain ⟨more, rfl⟩ : ∃ more, count = more + 1 := ⟨count - 1, by omega⟩
  have hcons : c.cursor.rest = s :: (List.replicate more s ++ rest) := by
    rw [hrest, List.replicate_succ, List.cons_append]
  have hwhole : (List.replicate (more + 1) s ++ rest).takeWhile (· == s) =
      List.replicate (more + 1) s := by
    rw [List.takeWhile_append_of_pos (by simp), hstop, List.append_nil]
  rw [runLength, if_pos hoptimize, Cursor.runLength, hcons]
  show ((s :: (List.replicate more s ++ rest)).takeWhile (· == s)).length = more + 1
  rw [← List.cons_append, ← List.replicate_succ, hwhole, List.length_replicate]

/-- Without optimization a run and one more character make a longer run. -/
private theorem hasRead_run_succ {c : Compilation} (hoptimize : c.optimize = false) {o : Outline}
    {p : Primitive} {count : Nat} (count_pos : 0 < count)
    (hread : c.HasRead ((o.extend (.run p 1 Nat.one_pos .empty)).extend
      (.run p count count_pos .empty))) :
    c.HasRead (o.extend (.run p (count + 1) (Nat.succ_pos count) .empty)) where
  program := by
    rw [hread.program, hoptimize]
    simp only [Outline.code_extend, Block.code_run, Block.runCode, List.append_assoc,
      List.replicate_succ]
    rfl
  openLoops := by rw [hread.openLoops]; simp
  place := by
    rw [hread.place]
    simp [Block.text, List.replicate_succ]

private theorem exists_passesTo_chars {c : Compilation} (hoptimize : c.optimize = false)
    {o : Outline} {p : Primitive} {count : Nat} (count_pos : 0 < count) {rest : List Char}
    (hread : c.HasRead o) (hrest : c.cursor.rest = List.replicate count p.symbol ++ rest) :
    ∃ d, PassesTo c (o.extend (.run p count count_pos .empty)) count rest d := by
  -- The outline grows by a run of one character and by a run of all the others.
  induction count generalizing c o with
  | zero => cases count_pos
  | succ count ih =>
      have hone : c.runLength = 1 := by simp [runLength, hoptimize]
      have hfirst : PassesTo c (o.extend (.run p 1 Nat.one_pos .empty)) 1
          (List.replicate count p.symbol ++ rest) (c.emitRun p) := by
        have hpositive : 0 < c.runLength := by omega
        have hhead : c.cursor.rest = List.replicate c.runLength p.symbol ++
            (List.replicate count p.symbol ++ rest) := by
          rw [hone, hrest]
          rfl
        have hpasses := passesTo_emitRun hread hpositive hhead
        simpa only [hone] using hpasses
      by_cases hcount : 0 < count
      · have hslow : (c.emitRun p).optimize = false := hoptimize
        obtain ⟨d, hd⟩ := ih hslow hcount hfirst.hasRead hfirst.rest
        have hpasses := hfirst.trans hd
        have hread := hasRead_run_succ (hd.optimize.trans hslow) hcount hd.hasRead
        exact ⟨d, hpasses.steps, hpasses.optimize, hread, hpasses.rest⟩
      · obtain rfl : count = 0 := by omega
        exact ⟨_, hfirst⟩

/-- Only with optimization does it matter that the run is as long as it can be. -/
theorem exists_passesTo_run {c : Compilation} {o : Outline} {p : Primitive} {count : Nat}
    (count_pos : 0 < count) {rest : List Char}
    (hmaximal : c.optimize = true → rest.head? ≠ some p.symbol)
    (hread : c.HasRead o) (hrest : c.cursor.rest = List.replicate count p.symbol ++ rest) :
    ∃ d, PassesTo c (o.extend (.run p count count_pos .empty)) count rest d := by
  cases hoptimize : c.optimize with
  | true =>
      obtain rfl := runLength_of_maximal hoptimize count_pos (hmaximal hoptimize) hrest
      exact ⟨_, passesTo_emitRun hread count_pos hrest⟩
  | false => exact exists_passesTo_chars hoptimize count_pos hread hrest

/-! ### The whole text -/

/-- The error with which a pass ends that leaves some text. -/
def strayError? (left : List Char) (place : Place) : Option CompileError :=
  if left = [] then none else some ⟨.closing, place⟩

/-- The pass ends behind an outline and leaves some text. -/
def PassEnds (fuel : Nat) (c : Compilation) (last : Outline) (left : List Char) : Prop :=
  ∃ d, pass fuel c = (d, strayError? left d.cursor.place) ∧ d.optimize = c.optimize ∧ d.HasRead last

/-- Fuel for the whole text leaves fuel for the rest. -/
theorem PassesTo.passEnds {c d : Compilation} {o last : Outline} {length : Nat}
    {rest left : List Char} (hpasses : PassesTo c o length rest d) {fuel : Nat}
    (hfuel : length + rest.length ≤ fuel)
    (hends : ∀ spare, rest.length ≤ spare → PassEnds spare d last left) :
    PassEnds fuel c last left := by
  obtain ⟨steps, hsteps, hpass⟩ := hpasses.steps
  obtain ⟨e, hspare, hoptimize, hread⟩ := hends (fuel - steps) (by omega)
  refine ⟨e, ?_, hoptimize.trans hpasses.optimize, hread⟩
  rw [← hspare, ← hpass, Nat.sub_add_cancel (by omega)]

theorem pass_of_reads {o last : Outline} {text left : List Char}
    (hreads : Outline.Reads o text last left) {c : Compilation} (hread : c.HasRead o)
    (hrest : c.cursor.rest = text) {fuel : Nat} (hfuel : text.length ≤ fuel) :
    PassEnds fuel c last left := by
  induction hreads generalizing c fuel with
  | finish o =>
      refine ⟨c, ?_, rfl, hread⟩
      cases fuel with
      | zero => rfl
      | succ fuel => simp only [pass, Cursor.peek?, hrest, List.head?_nil, strayError?, if_true]
  | stray block rest =>
      cases fuel with
      | zero => cases hfuel
      | succ fuel =>
          have hstray : c.stray? ']' = some ⟨.closing, c.cursor.place⟩ := by
            simp only [stray?, hread.openLoops, Outline.openLoops, and_self, if_true]
          refine ⟨c, ?_, rfl, hread⟩
          simp only [pass, Cursor.peek?, hrest, List.head?_cons, hstray, strayError?,
            List.cons_ne_nil, if_false]
  | run count_pos hmaximal _ ih =>
      obtain ⟨d, hpasses⟩ := exists_passesTo_run count_pos (fun _ => hmaximal) hread hrest
      rw [List.length_append, List.length_replicate] at hfuel
      exact hpasses.passEnds hfuel fun _ hspare => ih hpasses.hasRead hpasses.rest hspare
  | comment silent _ ih =>
      have hpasses := passesTo_comment hread hrest silent
      rw [List.length_cons, Nat.add_comm] at hfuel
      exact hpasses.passEnds hfuel fun _ hspare => ih hpasses.hasRead hpasses.rest hspare
  | opening _ ih =>
      have hpasses := passesTo_opening hread hrest
      rw [List.length_cons, Nat.add_comm] at hfuel
      exact hpasses.passEnds hfuel fun _ hspare => ih hpasses.hasRead hpasses.rest hspare
  | closing _ ih =>
      obtain ⟨d, hpasses⟩ := passesTo_closing hread hrest
      rw [List.length_cons, Nat.add_comm] at hfuel
      exact hpasses.passEnds hfuel fun _ hspare => ih hpasses.hasRead hpasses.rest hspare

theorem compile_of_reads (c : Compilation) {text : String} {o : Outline} {left : List Char}
    (hreads : Outline.Reads (.base .empty) text.toList o left) :
    ∃ d, c.compile text = (d, strayError? left d.cursor.place <|> d.unclosed?) ∧
      d.optimize = c.optimize ∧ d.HasRead o := by
  have hlength : text.toList.length ≤ text.length := Nat.le_of_eq String.length_toList
  obtain ⟨d, hpass, hoptimize, hread⟩ :=
    pass_of_reads hreads (hasRead_reset c text) rfl hlength
  exact ⟨d, by rw [compile, hpass], hoptimize, hread⟩

end Compilation

end TapeLang
