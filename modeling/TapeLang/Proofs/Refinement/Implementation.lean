import TapeLang.Proofs.Compilation.Acceptance
import TapeLang.Proofs.Machine.Streams
import TapeLang.Proofs.Refinement.Standing
import TapeLang.Proofs.Source.Walk

/-!
# The machine does what the text means

A text that is compiled without optimization runs as it reads.  A walk through the text and the
machine on the program go side by side: the program counter is the number of commands in front of
the walk's position, and both have the same world (`Machine.Follows`).  At a comment the machine
waits; the walk is then nearer to the end of the text, so this cannot go on forever.
-/

namespace TapeLang

/-- A run of the machine ends as a walk through the text does. -/
structure Halt.Renders (halt : Halt) (text : List Char) (e : WalkEnd) : Prop where
  world : halt.state.world = e.walk.world
  completed : halt.stop? = none ↔ e.faulted = false
  faulted : e.faulted = true → ∃ fault target, halt.stop? = some (.fault fault) ∧
    fault.cause = .outOfBounds target ∧ fault.pc = commandsBefore text e.walk.position ∧
    halt.state.pc = commandsBefore text e.walk.position

namespace Machine

/-- Every character of the text stands in the machine's program. -/
structure Carries (m : Machine) (text : List Char) : Prop where
  stands : Between text (Stands text m.program) 0 text.length
  size : commandsBefore text text.length = m.program.size
  memory : m.memory = .unbounded

/-- The machine is where a walk through the text is. -/
structure Follows (m : Machine) (text : List Char) (w : Walk) (s : State) : Prop where
  le : w.position ≤ text.length
  pc : s.pc = commandsBefore text w.position
  world : s.world = w.world

variable {m : Machine} {text : List Char} {w : Walk} {s : State}

/-- What the next turn of the walk is to the machine.  The rank is the length of the text ahead. -/
abbrev MatchedTurn (m : Machine) (text : List Char) (w : Walk) (s : State) : Prop :=
  Matched (Walk.system text) m.system (m.Follows text) (fun e halt => halt.Renders text e)
    (fun w => text.length - w.position) w s

/-- One command of the text is one step of the machine. -/
theorem matchedTurn_of_step {target : Nat} {world : World} {later : State} {c : Char}
    (htarget : text[target]? = some c) (hcommand : isCommand c = true)
    (hturn : w.turn text = .next ⟨target + 1, world⟩) (hinside : s.pc < m.program.size)
    (hstep : m.step s = .next later) (hpc : later.pc = (commandsBefore text target : Int) + 1)
    (hworld : later.world = world) : m.MatchedTurn text w s := by
  have hfollows : m.Follows text ⟨target + 1, world⟩ later := by
    refine ⟨(List.getElem?_eq_some_iff.mp htarget).1, ?_, hworld⟩
    rw [hpc, commandsBefore_succ htarget, hcommand]
    rfl
  exact .next hturn (System.goes_one (turn_of_next hinside hstep)) hfollows
    fun hnone => by cases hnone

theorem Follows.get? (hfollows : m.Follows text w s) {i : Instruction}
    (hget : m.program.toList[commandsBefore text w.position]? = some i) :
    m.program.get? s.pc = some i ∧ s.pc < m.program.size := by
  rw [hfollows.pc]
  have hlt := Program.lt_size_of_getElem? hget
  exact ⟨Program.get?_of_getElem? hget, by omega⟩

theorem matchedTurn_primitive (hcarries : m.Carries text) (hfollows : m.Follows text w s)
    {p : Primitive} (hchar : text[w.position]? = some p.symbol)
    (hget : m.program.toList[commandsBefore text w.position]? = some (.repeated p 1)) :
    m.MatchedTurn text w s := by
  obtain ⟨hhere, hinside⟩ := hfollows.get? hget
  have hone : m.program.get? s.pc = some (.repeated p (1 : Nat)) := hhere
  have hturn := Walk.turn_primitive hchar
  cases hact : w.world.act p with
  | some world =>
      rw [hact] at hturn
      have hrow : World.actAll (List.replicate 1 p) s.world = .ok world := by
        rw [hfollows.world]
        exact World.actAll_cons_of_some hact
      have hstep := step_repeated hcarries.memory hone
      rw [hrow] at hstep
      obtain ⟨later, hnext, hpc, hworld⟩ := hstep
      refine matchedTurn_of_step hchar (isCommand_symbol p) hturn hinside hnext ?_ hworld
      rw [hpc, hfollows.pc]
  | none =>
      rw [hact] at hturn
      have hrow : World.actAll (List.replicate 1 p) s.world = .error w.world := by
        rw [hfollows.world]
        exact World.actAll_cons_of_none hact
      obtain ⟨target, last, hstop, hpc, hworld, -⟩ := step_repeated_of_error hone hrow
      refine .ended hturn (System.halts_of_ended (turn_of_stop hinside hstop)) ?_
      refine ⟨?_, by simp, fun _ => ⟨_, target, rfl, rfl, ?_, ?_⟩⟩
      · rw [world_flush, hworld, hfollows.world]
      · exact hpc.trans hfollows.pc
      · rw [pc_flush, hpc, hfollows.pc]

theorem Follows.cell (hfollows : m.Follows text w s) : s.tape.cell = w.world.tape.cell :=
  congrArg (fun world => world.tape.cell) hfollows.world

theorem matchedTurn_opening (hfollows : m.Follows text w s) {j : Nat}
    (hpartners : Partners text w.position j)
    (hget : m.program.toList[commandsBefore text w.position]? =
      some (.of .jumpIfZero (commandsBefore text j))) : m.MatchedTurn text w s := by
  obtain ⟨hhere, hinside⟩ := hfollows.get? hget
  obtain ⟨later, hstep, hworld, hpc⟩ := step_jumpIfZero hhere
  have hturn := Walk.turn_opening hpartners
  rw [hfollows.pc, hfollows.cell] at hpc
  rw [hfollows.world] at hworld
  by_cases hzero : w.world.tape.cell = 0
  · rw [if_pos hzero] at hturn hpc
    exact matchedTurn_of_step hpartners.closing (by decide) hturn hinside hstep hpc hworld
  · rw [if_neg hzero] at hturn hpc
    exact matchedTurn_of_step hpartners.opening (by decide) hturn hinside hstep hpc hworld

theorem matchedTurn_closing (hfollows : m.Follows text w s) {j : Nat}
    (hpartners : Partners text j w.position)
    (hget : m.program.toList[commandsBefore text w.position]? =
      some (.of .jumpIfNonzero (commandsBefore text j))) : m.MatchedTurn text w s := by
  obtain ⟨hhere, hinside⟩ := hfollows.get? hget
  obtain ⟨later, hstep, hworld, hpc⟩ := step_jumpIfNonzero hhere
  have hturn := Walk.turn_closing hpartners
  rw [hfollows.pc, hfollows.cell] at hpc
  rw [hfollows.world] at hworld
  by_cases hzero : w.world.tape.cell = 0
  · rw [if_pos hzero] at hturn hpc
    exact matchedTurn_of_step hpartners.closing (by decide) hturn hinside hstep hpc hworld
  · rw [if_neg hzero] at hturn hpc
    exact matchedTurn_of_step hpartners.opening (by decide) hturn hinside hstep hpc hworld

theorem matchedTurn_comment (hfollows : m.Follows text w s) {c : Char}
    (hchar : text[w.position]? = some c) (silent : isCommand c = false) :
    m.MatchedTurn text w s := by
  have hlt : w.position < text.length := (List.getElem?_eq_some_iff.mp hchar).1
  -- The machine waits, and the walk comes nearer to the end.
  have hfalls : text.length - (w.position + 1) < text.length - w.position := by omega
  refine .next (Walk.turn_comment hchar silent) (.refl s) ⟨hlt, ?_, hfollows.world⟩ fun _ => hfalls
  rw [hfollows.pc, commandsBefore_succ hchar, silent]
  rfl

theorem matchedTurn_end (hcarries : m.Carries text) (hfollows : m.Follows text w s)
    (hend : text.length ≤ w.position) : m.MatchedTurn text w s := by
  have hpc := hfollows.pc
  rw [Nat.le_antisymm hfollows.le hend, hcarries.size] at hpc
  refine .ended (Walk.turn_end (List.getElem?_eq_none hend))
    (System.halts_of_ended (turn_of_end (Int.le_of_eq hpc.symm))) ⟨?_, by simp, by simp⟩
  rw [world_flush, hfollows.world]

/-! ## Whole runs -/

theorem simulation_of_carries (hcarries : m.Carries text) :
    Simulation (Walk.system text) m.system (m.Follows text)
      (fun e halt => halt.Renders text e) fun w => text.length - w.position := by
  intro w s hfollows
  by_cases hlt : w.position < text.length
  · obtain ⟨c, hchar⟩ : ∃ c, text[w.position]? = some c := ⟨_, List.getElem?_eq_getElem hlt⟩
    cases hcarries.stands w.position c (Nat.zero_le _) hlt hchar with
    | primitive hget => exact matchedTurn_primitive hcarries hfollows hchar hget
    | opening hpartners hget => exact matchedTurn_opening hfollows hpartners hget
    | closing hpartners hget => exact matchedTurn_closing hfollows hpartners hget
    | comment silent => exact matchedTurn_comment hfollows hchar silent
  · exact matchedTurn_end hcarries hfollows (Nat.le_of_not_lt hlt)

theorem carries_of_block {block : Block} (htext : block.text = text)
    (hmemory : m.memory = .unbounded) (hcode : m.program.toList = block.code false 0) :
    m.Carries text where
  stands := by
    have hstands := block.standsIn text m.program [] []
    rw [List.length_nil, Nat.zero_add, List.nil_append, List.append_nil, htext] at hstands
    exact hstands rfl (Program.hasAt_zero hcode)
  size := by
    rw [commandsBefore, List.take_length, ← htext, ← block.length_code_false 0, ← hcode,
      Program.length_toList]
  memory := hmemory

theorem follows_initial (m : Machine) (text : List Char) (length : TapeLength)
    (input : List UInt8) : m.Follows text (.initial length input) (.initial length input) :=
  ⟨Nat.zero_le _, rfl, rfl⟩

/-- A balanced text has a program, and without optimization a run of it halts exactly if the walk
through the text does.  Then both end with the same world, after the same number of bytes of the
input; both are complete or both are faulted, and the machine has then stopped at the command at
which the walk went wrong. -/
theorem program_implements_text {text : String} (hbalanced : Balanced text.toList) :
    ∃ program, Program.ofSource text false = .ok program ∧
      ∀ (m : Machine) (length : TapeLength) (input : List UInt8), m.program = program →
        m.memory = .unbounded →
        ((∃ e, (Walk.system text.toList).Halts (.initial length input) e) ↔
          ∃ halt, m.Halts (.initial length input) halt) ∧
        ∀ e halt, (Walk.system text.toList).Halts (.initial length input) e →
          m.Halts (.initial length input) halt →
          halt.Renders text.toList e ∧
            halt.state.consumed = input.length - e.walk.world.input.length := by
  obtain ⟨block, htext, hcode⟩ := Compilation.exists_block_of_balanced hbalanced
  obtain ⟨program, hprogram, hprogramCode⟩ := hcode false
  refine ⟨program, hprogram, fun m length input hm hmemory => ?_⟩
  subst hm
  have hsimulation := simulation_of_carries (carries_of_block htext hmemory hprogramCode)
  have hstart := follows_initial m text.toList length input
  constructor
  · simp only [← system_halts_iff]
    exact hsimulation.halts_iff hstart
  · intro e halt hwalk hhalts
    have hrenders := hsimulation.alike_of_halts hstart hwalk (system_halts_iff.mpr hhalts)
    have hinput : halt.state.input = e.walk.world.input := congrArg World.input hrenders.world
    exact ⟨hrenders, by rw [consumed_of_halts hhalts, hinput]⟩

theorem program_implements_clear_then_left :
    Balanced "+[-] <".toList ∧ ∃ program, Program.ofSource "+[-] <" false = .ok program ∧
      ∃ e halt, (Walk.system "+[-] <".toList).Halts (.initial ⟨1, Nat.one_pos⟩ []) e ∧
        ({ program } : Machine).Halts (.initial ⟨1, Nat.one_pos⟩ []) halt ∧
        e.faulted = true ∧ halt.Renders "+[-] <".toList e := by
  have hbalanced : Balanced "+[-] <".toList := by decide
  obtain ⟨program, hprogram, hruns⟩ := program_implements_text hbalanced
  obtain ⟨hiff, hrenders⟩ := hruns { program } ⟨1, Nat.one_pos⟩ [] rfl rfl
  have hwalk : (Walk.system "+[-] <".toList).Halts (.initial ⟨1, Nat.one_pos⟩ []) _ := ⟨7, rfl⟩
  obtain ⟨halt, hhalts⟩ := hiff.mp ⟨_, hwalk⟩
  exact ⟨hbalanced, program, hprogram, _, halt, hwalk, hhalts, rfl, (hrenders _ _ hwalk hhalts).1⟩

end Machine

end TapeLang
