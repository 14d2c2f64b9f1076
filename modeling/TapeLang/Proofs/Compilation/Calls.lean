import TapeLang.Proofs.Compilation.Fusion
import TapeLang.Proofs.Compilation.Reading
import TapeLang.Proofs.Program.Jumps
import TapeLang.Proofs.Source.Place

/-!
# Calls on a compilation

The parts of a pass can also be called one by one: a text can be compiled or only loaded, the cursor
can be moved, and the innermost loop can be closed wherever the cursor stands.  So a compilation
that was refused can be taken up by hand, in any order.  `Reachable` is what that leads to.

Whatever is called, the program is the code of some outline, and the open loops are those of the
outline (`Compilation.Kept`).  Only closing a loop changes the outline without reading a text, and
that is the step `Built.closeAt`.  What is known about the jumps of an outline is therefore known
about every program that can be reached (`jumpsBetween_of_reachable`).
-/

namespace TapeLang

/-! ## The jumps of an outline -/

theorem Block.jumpsBetween_code (b : Block) {p : Program} {optimize : Bool} {place : Nat}
    (hcode : p.HasAt place (b.code optimize place)) :
    p.JumpsBetween place (place + (b.code optimize place).length) [] := by
  induction b generalizing place with
  | empty => exact .empty p place
  | run primitive count count_pos rest ih =>
      rw [Block.code, Program.hasAt_append] at hcode
      have hrun := Program.JumpsBetween.of_row hcode.1 fun _ hmem => Block.plain_of_mem_runCode hmem
      rw [Block.code, List.length_append, ← Nat.add_assoc]
      exact hrun.append (ih hcode.2)
  | comment c silent rest ih => exact ih hcode
  | loop body rest ihBody ihRest =>
      rw [Block.code, Program.hasAt_append] at hcode
      obtain ⟨hloop, hrest⟩ := hcode
      have hwhole : p.JumpsBetween place
          (place + (loopCode optimize place (body.code optimize (place + 1))).length) [] := by
        rcases loopCode_cases optimize place (body.code optimize (place + 1)) with
          ⟨fused, -, hfuse, hsingle⟩ | ⟨-, hpair⟩
        · rw [hsingle] at hloop ⊢
          exact .of_row hloop fun other hother =>
            List.mem_singleton.mp hother ▸ (fused_of_fuse? hfuse).plain
        · rw [hpair] at hloop ⊢
          rw [Program.hasAt_cons, Program.hasAt_append, Program.hasAt_cons] at hloop
          obtain ⟨hforth, hinner, hback, -⟩ := hloop
          have hjumps := (ihBody hinner).enclose ⟨by omega, hforth, hback⟩
          simpa [Nat.add_assoc, Nat.add_comm, Nat.add_left_comm] using hjumps
      rw [Block.code, List.length_append, ← Nat.add_assoc]
      exact hwhole.append (ihRest hrest)

theorem Outline.jumpsBetween_code (o : Outline) {p : Program} {optimize : Bool}
    (hcode : p.HasAt 0 (o.code optimize)) :
    p.JumpsBetween 0 (o.code optimize).length ((o.openLoops optimize).map OpenLoop.start) := by
  induction o with
  | base block =>
      have hjumps := block.jumpsBetween_code hcode
      rwa [Nat.zero_add] at hjumps
  | nested outer block ih =>
      rw [Outline.code, Program.hasAt_append, Program.hasAt_cons, Nat.zero_add] at hcode
      obtain ⟨houter, hstart, hblock⟩ := hcode
      have hopened := (ih houter).append (.of_start hstart)
      have hjumps := hopened.append (block.jumpsBetween_code hblock)
      rw [Outline.code, List.length_append, List.length_cons, Nat.add_comm (List.length _) 1,
        ← Nat.add_assoc]
      exact hjumps

/-- The bracket of an open loop stands where it is said to stand. -/
structure OpenLoop.MarkedIn (l : OpenLoop) (text : List Char) : Prop where
  opening : text[l.place.position]? = some '['
  place : l.place = placeAt text l.place.position

theorem Outline.markedIn_openLoops (o : Outline) {text left : List Char}
    (htext : text = o.text ++ left) {optimize : Bool} {l : OpenLoop}
    (hopen : l ∈ o.openLoops optimize) : l.MarkedIn text := by
  induction o generalizing left with
  | base block => cases hopen
  | nested outer block ih =>
      rw [Outline.text, List.append_assoc] at htext
      rw [Outline.openLoops] at hopen
      rcases List.mem_cons.mp hopen with rfl | houter
      · rw [afterText_eq_placeAt outer.text ('[' :: block.text ++ left), ← htext]
        exact ⟨getElem?_of_eq_append htext, rfl⟩
      · exact ih htext houter

/-! ## What can be reached -/

/-- The calls that a compilation can get. -/
inductive Call where
  | compile (text : String)
  | reset (text : String)
  | advance
  | readRun
  | closeLoop

/-- The text that a call loads. -/
def Call.text? : Call → Option String
  | compile text => some text
  | reset text => some text
  | _ => none

namespace Compilation

/-- The state after a call, whether or not it is an error; none if the call does not return. -/
def perform (c : Compilation) : Call → Option Compilation
  | .compile text => some (c.compile text).1
  | .reset text => some (c.reset text)
  | .advance => some c.advance
  | .readRun => c.readRun?.map Prod.snd
  | .closeLoop =>
    match c.closeLoop with
    | .ok closed => some closed
    | .error _ => some c

/-- The states after some calls on a new compilation, each with the text that was loaded last. -/
inductive Reachable (optimize : Bool) : Option String → Compilation → Prop where
  | new : Reachable optimize none { optimize }
  | call {text? : Option String} {c d : Compilation} (call : Call)
      (hreachable : Reachable optimize text? c) (hcall : c.perform call = some d) :
      Reachable optimize (call.text? <|> text?) d

/-- What every call keeps: the program is that of an outline, and the open loops begin with brackets
of the text that was loaded last. -/
structure Kept (text? : Option String) (c : Compilation) : Prop where
  built : ∃ o, c.Built o
  marked : ∀ l, l ∈ c.openLoops → ∃ text, text? = some text ∧ l.MarkedIn text.toList

theorem exists_hasRead_compile (c : Compilation) (text : String) :
    ∃ (o : Outline) (left : List Char), (c.compile text).1.HasRead o ∧
      text.toList = o.text ++ left := by
  obtain ⟨o, left, hreads⟩ := Outline.exists_reads (.base .empty) text.toList
  obtain ⟨d, hcompile, -, hread⟩ := c.compile_of_reads hreads
  exact ⟨o, left, by rw [hcompile]; exact hread, hreads.text_eq.symm⟩

theorem kept_compile (c : Compilation) (text : String) : Kept (some text) (c.compile text).1 := by
  obtain ⟨o, left, hread, htext⟩ := c.exists_hasRead_compile text
  refine ⟨⟨o, hread.toBuilt⟩, fun l hopen => ⟨text, rfl, ?_⟩⟩
  rw [hread.openLoops] at hopen
  exact o.markedIn_openLoops htext hopen

/-- Only the cursor has moved. -/
theorem Kept.of_moved {text? : Option String} {c d : Compilation} (hkept : Kept text? c)
    (hoptimize : d.optimize = c.optimize) (hprogram : d.program = c.program)
    (hopen : d.openLoops = c.openLoops) : Kept text? d := by
  obtain ⟨⟨o, hbuilt⟩, hmarked⟩ := hkept
  refine ⟨⟨o, ?_, ?_⟩, ?_⟩
  · rw [hoptimize, hprogram, hbuilt.program]
  · rw [hoptimize, hopen, hbuilt.openLoops]
  · rw [hopen]
    exact hmarked

theorem Kept.closeLoop {text? : Option String} {c closed : Compilation} (hkept : Kept text? c)
    (hclose : c.closeLoop = .ok closed) : Kept text? closed := by
  obtain ⟨⟨o, hbuilt⟩, hmarked⟩ := hkept
  have hopen := hbuilt.openLoops
  cases o with
  -- No loop is open, so the call is an error.
  | base block =>
      rw [Compilation.closeLoop, hopen, Outline.openLoops] at hclose
      cases hclose
  | nested outer block =>
      rw [Outline.openLoops] at hopen
      rw [Compilation.closeLoop, hopen, Except.ok.injEq] at hclose
      subst hclose
      refine ⟨⟨_, hbuilt.closeAt⟩, fun l houter => hmarked l ?_⟩
      rw [hopen]
      exact List.mem_cons_of_mem _ houter

/-- A call keeps what is known about the program and the open loops. -/
theorem Kept.perform {text? : Option String} {c d : Compilation} (hkept : Kept text? c)
    {call : Call} (hcall : c.perform call = some d) : Kept (call.text? <|> text?) d := by
  cases call with
  | compile text =>
      cases hcall
      exact c.kept_compile text
  | reset text =>
      cases hcall
      exact ⟨⟨_, (hasRead_reset c text).toBuilt⟩, fun l hopen => by cases hopen⟩
  | advance =>
      cases hcall
      exact hkept.of_moved rfl rfl rfl
  | readRun =>
      rw [Compilation.perform, readRun?] at hcall
      split at hcall
      · cases hcall
      · cases hcall
        exact hkept.of_moved rfl rfl rfl
  | closeLoop =>
      rw [Compilation.perform] at hcall
      cases hclose : c.closeLoop with
      | ok closed =>
          rw [hclose] at hcall
          cases hcall
          exact hkept.closeLoop hclose
      | error error =>
          rw [hclose] at hcall
          cases hcall
          exact hkept

theorem kept_of_reachable {optimize : Bool} {text? : Option String} {c : Compilation}
    (hreachable : Reachable optimize text? c) : Kept text? c := by
  induction hreachable with
  | new => exact ⟨⟨.base .empty, rfl, rfl⟩, fun l hopen => by cases hopen⟩
  | call call _ hcall ih => exact ih.perform hcall

theorem Built.jumpsBetween {c : Compilation} {o : Outline} (hbuilt : c.Built o) :
    c.program.JumpsBetween 0 c.program.size (c.openLoops.map OpenLoop.start) := by
  rw [hbuilt.size, hbuilt.openLoops]
  exact o.jumpsBetween_code (Program.hasAt_zero hbuilt.program)

theorem openLoops_of_compile {c last : Compilation} {text : String}
    (hcompile : c.compile text = (last, none)) : last.openLoops = [] := by
  have hunclosed : last.unclosed? = none := by
    unfold compile at hcompile
    simp only [Prod.mk.injEq, Option.orElse_eq_orElse, Option.orElse_eq_or,
      Option.or_eq_none_iff] at hcompile
    obtain ⟨rfl, -, hnone⟩ := hcompile
    exact hnone
  simpa [unclosed?] using hunclosed

/-- In whatever order a compilation is called, and whether or not the calls are errors, the jumps of
closed loops are paired and nested, the open loops are known, and their brackets stand in the text
where they are said to stand.  In a program that is handed back no loop is open. -/
theorem jumpsBetween_of_reachable :
    (∀ (optimize : Bool) (text : String) (c : Compilation), Reachable optimize (some text) c →
      c.program.JumpsBetween 0 c.program.size (c.openLoops.map OpenLoop.start) ∧
        ∀ l, l ∈ c.openLoops → l.MarkedIn text.toList) ∧
    ∀ (c last : Compilation) (text : String), c.compile text = (last, none) →
      last.program.JumpsBetween 0 last.program.size [] := by
  constructor
  · intro optimize text c hreachable
    obtain ⟨⟨o, hbuilt⟩, hmarked⟩ := kept_of_reachable hreachable
    refine ⟨hbuilt.jumpsBetween, fun l hopen => ?_⟩
    obtain ⟨loaded, hloaded, hl⟩ := hmarked l hopen
    cases hloaded
    exact hl
  · intro c last text hcompile
    obtain ⟨o, left, hread, -⟩ := c.exists_hasRead_compile text
    rw [hcompile] at hread
    have hjumps := hread.toBuilt.jumpsBetween
    rwa [openLoops_of_compile hcompile, List.map_nil] at hjumps

-- A loop that was left open is closed by hand, around one that was fused.
example : ((({} : Compilation).compile "[[-]").1.perform .closeLoop).map (·.program.toList) =
    some [.of .jumpIfZero 2, .of .zero 0, .of .jumpIfNonzero 0] := by rfl

end Compilation

end TapeLang
