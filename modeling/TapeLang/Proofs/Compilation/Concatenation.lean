import TapeLang.Proofs.Compilation.Spelling

/-!
# One text behind another

A text that has a program may be put in front of any other text.  The instructions of the second
text then follow those of the first one, with their jumps moved along, and what is wrong with the
second text is still wrong, further back (`ofSource_append`).

With optimization there is one exception: a run at the end of the first text may go on in the second
one (`RunsOn`).  If it does not, the first text is read as the same block as before, because none of
its runs gets longer (`Block.maximal_of_not_runsOn`).  Without optimization the lengths of runs do
not matter.

So the pass over both texts gets to the second one with a block behind it and no open loop
(`exists_passesTo_block`).  From there it reads what it would have read from the start, with this
block in front (`Outline.behind`).
-/

namespace TapeLang

/-- A run at the end of a text goes on in the next one. -/
def RunsOn (text behind : List Char) : Prop :=
  ∃ p : Primitive, text.getLast? = some p.symbol ∧ behind.head? = some p.symbol

theorem RunsOn.append {text behind : List Char} (hruns : RunsOn text behind) (front : List Char) :
    RunsOn (front ++ text) behind := by
  obtain ⟨p, hlast, hhead⟩ := hruns
  refine ⟨p, ?_, hhead⟩
  rw [List.getLast?_append, hlast, Option.some_or]

/-! ## Blocks whose runs cannot be longer -/

namespace Block

variable {b : Block} {behind : List Char}

/-- Of what follows a block, only the first character matters for its runs. -/
theorem maximal_of_head? {other : List Char} (hhead : other.head? = behind.head?)
    (hmaximal : b.Maximal behind) : b.Maximal other := by
  induction b generalizing behind other with
  | empty => trivial
  | run p count count_pos rest ih =>
      refine ⟨?_, ih hhead hmaximal.2⟩
      rw [List.head?_append, hhead, ← List.head?_append]
      exact hmaximal.1
  | comment c silent rest ih => exact ih hhead hmaximal
  | loop body rest ihBody ihRest =>
      refine ⟨ihBody ?_ hmaximal.1, ihRest hhead hmaximal.2⟩
      rw [List.head?_cons, List.head?_cons]

theorem maximal_of_not_runsOn (hmaximal : b.Maximal []) (hseam : ¬ RunsOn b.text behind) :
    b.Maximal behind := by
  induction b with
  | empty => trivial
  | run p count count_pos rest ih =>
      refine ⟨?_, ih hmaximal.2 fun hruns => hseam (hruns.append _)⟩
      cases hrest : rest.text with
      | nil =>
          -- The run is the end of the text.
          intro hhead
          refine hseam ⟨p, ?_, hhead⟩
          rw [text, hrest, List.append_nil, List.getLast?_replicate,
            if_neg (Nat.ne_of_gt count_pos)]
      | cons c tail =>
          have hhead := hmaximal.1
          rwa [hrest] at hhead
  | comment c silent rest ih =>
      apply ih hmaximal
      intro hruns
      exact hseam (hruns.append [c])
  | loop body rest _ ih =>
      refine ⟨maximal_of_head? ?_ hmaximal.1, ih hmaximal.2 fun hruns => hseam ?_⟩
      · rw [List.head?_cons, List.head?_cons]
      · rw [text_loop]
        exact hruns.append _

end Block

namespace Outline

/-- No run of the outline is continued by what follows it. -/
def Maximal : Outline → List Char → Prop
  | base block, behind => block.Maximal behind
  | nested outer block, behind =>
    outer.Maximal ('[' :: (block.text ++ behind)) ∧ block.Maximal behind

theorem maximal_extend {o : Outline} {tail : Block} {behind : List Char}
    (ho : o.Maximal (tail.text ++ behind)) (htail : tail.Maximal behind) :
    (o.extend tail).Maximal behind := by
  cases o with
  | base block => exact Block.maximal_append ho htail
  | nested outer block =>
      refine ⟨?_, Block.maximal_append ho.2 htail⟩
      rw [Block.text_append, List.append_assoc]
      exact ho.1

/-- Runs are read as long as they are. -/
theorem Reads.maximal {o last : Outline} {text left : List Char} (hreads : Reads o text last left)
    (ho : o.Maximal text) : last.Maximal left := by
  induction hreads with
  | finish o => exact ho
  | stray block rest => exact ho
  | run count_pos hmaximal _ ih =>
      apply ih
      apply maximal_extend
      · rw [Block.text, Block.text, List.append_nil]
        exact ho
      · exact ⟨hmaximal, trivial⟩
  | comment silent _ ih => exact ih (maximal_extend ho trivial)
  | opening _ ih => exact ih ⟨ho, trivial⟩
  | closing _ ih =>
      apply ih
      apply maximal_extend
      · rw [Block.text_loop, Block.text, List.append_nil, List.cons_append, List.append_assoc]
        exact ho.1
      · exact ⟨ho.2, trivial⟩

/-! ## Outlines with a block in front -/

/-- The outline behind a block. -/
def behind (front : Block) : Outline → Outline
  | base block => base (front.append block)
  | nested outer block => nested (outer.behind front) block

theorem behind_extend (front : Block) (o : Outline) (tail : Block) :
    (o.extend tail).behind front = (o.behind front).extend tail := by
  cases o with
  | base block => rw [extend, behind, behind, extend, Block.append_assoc]
  | nested outer block => rfl

theorem text_behind (front : Block) (o : Outline) :
    (o.behind front).text = front.text ++ o.text := by
  induction o with
  | base block => exact front.text_append block
  | nested outer block ih => rw [behind, text, ih, text, List.append_assoc]

/-- What is read does not depend on a block in front. -/
theorem Reads.behind {o last : Outline} {text left : List Char} (front : Block)
    (hreads : Reads o text last left) :
    Reads (o.behind front) text (last.behind front) left := by
  induction hreads with
  | finish o => exact .finish _
  | stray block rest => exact .stray _ rest
  | run count_pos hmaximal _ ih =>
      rw [behind_extend] at ih
      exact .run count_pos hmaximal ih
  | comment silent _ ih =>
      rw [behind_extend] at ih
      exact .comment silent ih
  | opening _ ih => exact .opening ih
  | closing _ ih =>
      rw [behind_extend] at ih
      exact .closing ih

/-- The brackets that are open stand further back by the length of the block. -/
theorem positions_behind (front : Block) (o : Outline) (optimize : Bool) :
    ((o.behind front).openLoops optimize).map (·.place.position) =
      (o.openLoops optimize).map (front.text.length + ·.place.position) := by
  induction o with
  | base block => rfl
  | nested outer block ih =>
      rw [behind, openLoops, openLoops, List.map_cons, List.map_cons, ih]
      congr 1
      rw [Place.position_afterText, Place.position_afterText, text_behind, List.length_append]
      exact Nat.add_left_comm _ _ _

end Outline

/-! ## The pass over both texts -/

namespace Compilation

theorem exists_maximal_block {text : List Char} (hbalanced : Balanced text) :
    ∃ b : Block, b.text = text ∧ b.Maximal [] := by
  obtain ⟨o, left, hreads⟩ := Outline.exists_reads (.base .empty) text
  obtain ⟨rfl, b, rfl⟩ := hreads.balanced_iff.mp hbalanced
  have htext : b.text ++ [] = text := hreads.text_eq
  rw [List.append_nil] at htext
  exact ⟨b, htext, hreads.maximal trivial⟩

theorem exists_passesTo_block {b : Block} {c : Compilation} {o : Outline} {behind : List Char}
    (hmaximal : c.optimize = true → b.Maximal behind) (hread : c.HasRead o)
    (hrest : c.cursor.rest = b.text ++ behind) :
    ∃ d, PassesTo c (o.extend b) b.text.length behind d := by
  induction b generalizing c o behind with
  | empty =>
      rw [Outline.extend_empty]
      exact ⟨c, ⟨0, Nat.le_refl 0, fun _ => rfl⟩, rfl, hread, hrest⟩
  | run p count count_pos rest ih =>
      rw [Block.text, List.append_assoc] at hrest
      obtain ⟨d, hrun⟩ :=
        exists_passesTo_run count_pos (fun hoptimize => (hmaximal hoptimize).1) hread hrest
      have hmaximalRest : d.optimize = true → rest.Maximal behind := by
        intro hoptimize
        exact (hmaximal (hrun.optimize ▸ hoptimize)).2
      obtain ⟨e, he⟩ := ih hmaximalRest hrun.hasRead hrun.rest
      rw [Outline.extend_extend] at he
      refine ⟨e, ?_⟩
      rw [Block.text, List.length_append, List.length_replicate, Nat.add_comm]
      exact hrun.trans he
  | comment symbol silent rest ih =>
      have hcomment := passesTo_comment hread hrest silent
      obtain ⟨e, he⟩ := ih (c := c.advance) hmaximal hcomment.hasRead hcomment.rest
      rw [Outline.extend_extend] at he
      exact ⟨e, hcomment.trans he⟩
  | loop body rest ihBody ihRest =>
      rw [Block.text, List.cons_append, List.append_assoc, List.cons_append] at hrest
      have hopening := passesTo_opening hread hrest
      obtain ⟨d, hbody⟩ :=
        ihBody (c := c.openLoop.advance) (fun hoptimize => (hmaximal hoptimize).1)
        hopening.hasRead hopening.rest
      obtain ⟨e, hclosing⟩ := passesTo_closing hbody.hasRead hbody.rest
      have hwhole := (hopening.trans hbody).trans hclosing
      have hmaximalRest : e.optimize = true → rest.Maximal behind := by
        intro hoptimize
        exact (hmaximal (hwhole.optimize ▸ hoptimize)).2
      obtain ⟨f, hf⟩ := ihRest hmaximalRest hwhole.hasRead hwhole.rest
      have hpasses := hwhole.trans hf
      have hlength : rest.text.length + (1 + (body.text.length + 1)) =
          (Block.loop body rest).text.length := by
        simp only [Block.text, List.length_cons, List.length_append]
        omega
      rw [Outline.extend_extend, hlength] at hpasses
      exact ⟨f, hpasses⟩

/-- A text behind a block is read as it is without the block. -/
theorem compile_append (c : Compilation) {first second : String} {front : Block}
    (htext : front.text = first.toList) (hmaximal : c.optimize = true → front.Maximal second.toList)
    {o : Outline} {left : List Char}
    (hreads : Outline.Reads (.base .empty) second.toList o left) :
    ∃ d, c.compile (first ++ second) = (d, strayError? left d.cursor.place <|> d.unclosed?) ∧
      d.optimize = c.optimize ∧ d.HasRead (o.behind front) := by
  have hrest : (c.reset (first ++ second)).cursor.rest = front.text ++ second.toList := by
    rw [htext, ← String.toList_append]
    rfl
  obtain ⟨e, hpasses⟩ := exists_passesTo_block (c := c.reset (first ++ second)) hmaximal
    (hasRead_reset c (first ++ second)) hrest
  have hbehind := hreads.behind front
  rw [Outline.behind, Block.append_empty] at hbehind
  have hlength : front.text.length + second.toList.length = (first ++ second).length := by
    rw [htext, String.length_append, String.length_toList, String.length_toList]
  obtain ⟨d, hpass, hoptimize, hread⟩ := hpasses.passEnds (Nat.le_of_eq hlength) fun _ hspare =>
    pass_of_reads hbehind hpasses.hasRead hpasses.rest hspare
  exact ⟨d, by rw [compile, hpass], hoptimize, hread⟩

/-- What is wrong behind a block is what is wrong without it, as much further back. -/
theorem error_behind {c d : Compilation} {front : Block} {o : Outline} (left : List Char)
    (hoptimize : d.optimize = c.optimize) (hread : c.HasRead o)
    (hbehind : d.HasRead (o.behind front)) :
    (strayError? left d.cursor.place <|> d.unclosed?).map (fun e => (e.bracket, e.place.position)) =
      (strayError? left c.cursor.place <|> c.unclosed?).map
        fun e => (e.bracket, front.text.length + e.place.position) := by
  by_cases hleft : left = []
  · have hpositions := congrArg List.getLast? (o.positions_behind front c.optimize)
    rw [List.getLast?_map, List.getLast?_map] at hpositions
    have hpaired := congrArg (Option.map (Bracket.opening, ·)) hpositions
    rw [strayError?, strayError?, if_pos hleft, if_pos hleft, unclosed?, unclosed?,
      hbehind.openLoops, hread.openLoops, hoptimize]
    simp only [Option.orElse_eq_orElse, Option.orElse_eq_or, Option.none_or]
    rw [Option.map_map, Option.map_map] at hpaired ⊢
    exact hpaired
  · rw [strayError?, strayError?, if_neg hleft, if_neg hleft, hbehind.place, hread.place,
      Outline.text_behind]
    simp [Place.position_afterText]

theorem exists_maximal_block_of_ofSource {text : String} {optimize : Bool} {p : Program}
    (hprogram : Program.ofSource text optimize = .ok p) :
    ∃ b : Block, b.text = text.toList ∧ b.Maximal [] ∧ p.toList = b.code optimize 0 := by
  obtain ⟨b, htext, hmaximal⟩ := exists_maximal_block (balanced_of_ofSource hprogram)
  have hreads : Outline.Reads (.base .empty) (b.text ++ []) (.base b) [] :=
    Outline.reads_of_maximal hmaximal (.finish _)
  rw [List.append_nil, htext] at hreads
  have hcode := hprogram.symm.trans (ofSource_of_reads hreads optimize)
  injection hcode with hcode
  exact ⟨b, htext, hmaximal, by rw [hcode, Program.toList_ofList]⟩

/-- A text behind one that has the program `p` adds its own instructions to `p`, with the targets of
its jumps moved along.  What is wrong with it is still wrong, as much further back as the first text
is long. -/
theorem ofSource_append {first second : String} {optimize : Bool} {p : Program}
    (hfirst : Program.ofSource first optimize = .ok p)
    (hseam : optimize = true → ¬ RunsOn first.toList second.toList) :
    (∀ q, Program.ofSource second optimize = .ok q →
      Program.ofSource (first ++ second) optimize =
        .ok (.ofList (p.toList ++ relocated p.size q.toList))) ∧
    ∀ error, Program.ofSource second optimize = .error error →
      ∃ moved, Program.ofSource (first ++ second) optimize = .error moved ∧
        moved.bracket = error.bracket ∧
        moved.place.position = first.length + error.place.position := by
  obtain ⟨front, htext, hfront, hcode⟩ := exists_maximal_block_of_ofSource hfirst
  have hmaximal : optimize = true → front.Maximal second.toList := by
    intro hoptimize
    apply Block.maximal_of_not_runsOn hfront
    rw [htext]
    exact hseam hoptimize
  obtain ⟨o, left, hreads⟩ := Outline.exists_reads (.base .empty) second.toList
  obtain ⟨c, halone, hcoptimize, hc⟩ := ({ optimize } : Compilation).compile_of_reads hreads
  obtain ⟨d, hboth, hdoptimize, hd⟩ := compile_append { optimize } htext hmaximal hreads
  refine ⟨fun q hq => ?_, fun error hrefused => ?_⟩
  · obtain ⟨rfl, block, rfl⟩ := hreads.balanced_iff.mp (balanced_of_ofSource hq)
    have hsecond := hq.symm.trans (ofSource_of_reads hreads optimize)
    injection hsecond with hsecond
    rw [ofSource_of_hasRead hboth hdoptimize hd, Block.code_append, Block.code_add, hsecond,
      Program.toList_ofList, ← Program.length_toList, hcode]
  · rw [ofSource_eq_error_iff, halone] at hrefused
    have herror := error_behind left (hdoptimize.trans hcoptimize.symm) hc hd
    simp only at hrefused
    rw [hrefused, Option.map_some, Option.map_eq_some_iff] at herror
    obtain ⟨moved, hmoved, hpair⟩ := herror
    injection hpair with hbracket hposition
    refine ⟨moved, ?_, hbracket, ?_⟩
    · rw [ofSource_eq_error_iff, hboth]
      exact hmoved
    · rw [hposition, htext, String.length_toList]

/-- The sum in the first text ends where the second text begins, and so does the target of the loop
behind it. -/
theorem ofSource_append_of_echo :
    Program.ofSource "[.]++" true =
        .ok (.ofList [⟨.known .jumpIfZero, 2⟩, .repeated .write 1, ⟨.known .jumpIfNonzero, 0⟩,
          .repeated .add 2]) ∧
      ¬ RunsOn "[.]++".toList ",[-.]".toList ∧ ¬ RunsOn "[.]++".toList ",\n]".toList ∧
      Program.ofSource ",[-.]" true =
        .ok (.ofList [.repeated .read 1, ⟨.known .jumpIfZero, 4⟩, .repeated .sub 1,
          .repeated .write 1, ⟨.known .jumpIfNonzero, 1⟩]) ∧
      Program.ofSource ("[.]++" ++ ",[-.]") true =
        .ok (.ofList [⟨.known .jumpIfZero, 2⟩, .repeated .write 1, ⟨.known .jumpIfNonzero, 0⟩,
          .repeated .add 2, .repeated .read 1, ⟨.known .jumpIfZero, 8⟩, .repeated .sub 1,
          .repeated .write 1, ⟨.known .jumpIfNonzero, 5⟩]) ∧
      ∃ moved, Program.ofSource ("[.]++" ++ ",\n]") true = .error moved ∧
        moved.bracket = .closing ∧ moved.place.position = 7 := by
  have hseam {behind : List Char} (hhead : behind.head? = some ',') :
      ¬ RunsOn "[.]++".toList behind := by
    rintro ⟨p, hlast, hfollows⟩
    exact absurd (hlast.trans (hfollows.symm.trans hhead)) (by decide)
  have hfirst : Program.ofSource "[.]++" true =
      .ok (.ofList [⟨.known .jumpIfZero, 2⟩, .repeated .write 1, ⟨.known .jumpIfNonzero, 0⟩,
        .repeated .add 2]) := by rfl
  have hsecond : Program.ofSource ",[-.]" true =
      .ok (.ofList [.repeated .read 1, ⟨.known .jumpIfZero, 4⟩, .repeated .sub 1,
        .repeated .write 1, ⟨.known .jumpIfNonzero, 1⟩]) := by rfl
  exact ⟨hfirst, hseam rfl, hseam rfl, hsecond,
    (ofSource_append hfirst fun _ => hseam rfl).1 _ hsecond,
    (ofSource_append hfirst fun _ => hseam rfl).2 ⟨.closing, ⟨2, 2, 1⟩⟩ rfl⟩

end Compilation

end TapeLang
