import TapeLang.Proofs.Compilation.Acceptance
import TapeLang.Proofs.Machine.Streams
import TapeLang.Proofs.Refinement.Unfolding

/-!
# Optimization changes no run

The optimized program of a text and the other one have different instructions at different places.
They are run side by side: whenever the first machine is at some place, the second one is behind the
same commands, and both see the same world (`Machine.Tracks`).  A step of the first machine is then
matched by a row, a loop or a jump of the second one.

A counted primitive or a shortcut can be an access violation at once, where the single commands
would go wrong in the middle.  The tapes differ then, and the streams do not.

The simulation also carries a relation of the two profiles along (`simulation_of_counts`), as long
as what is counted on either side keeps it (`Machine.Counts`).
-/

namespace TapeLang

/-- Both runs have completed, with the same tape, or both have met with an access violation. -/
def Halt.EndsLike (first second : Halt) : Prop :=
  (first.stop? = none ∧ second.stop? = none ∧ first.state.tape = second.state.tape) ∨
    (first.AccessViolation ∧ second.AccessViolation)

/-- The runs have also used the streams in the same way. -/
structure Halt.SameEnd (first second : Halt) : Prop where
  output : first.state.output = second.state.output
  consumed : first.state.consumed = second.state.consumed
  ending : first.EndsLike second

/-- What the worlds in which two runs have ended show of this. -/
structure Halt.Agrees (first second : Halt) : Prop where
  streams : first.state.world.SameStreams second.state.world
  ending : first.EndsLike second

namespace Machine

/-- Every instruction of the first machine's program unfolds to a piece of the second one's. -/
structure Unrolls (m n : Machine) : Prop where
  unfolds : Between m.program.toList (Unfolds m.program n.program) 0 m.program.size
  size : m.program.offset m.program.size = n.program.size
  memory : m.memory = .unbounded
  otherMemory : n.memory = .unbounded

/-- Both machines are behind the same commands, and see the same world. -/
structure Tracks (m n : Machine) (place : Nat) (s t : State) : Prop where
  le : place ≤ m.program.size
  pc : s.pc = place
  otherPc : t.pc = m.program.offset place
  world : t.world = s.world

/-- What is counted keeps the profiles of two machines alike: a loop that both pass by, and a loop
that only the second one has. -/
structure Counts (m n : Machine) (alike : Profile → Profile → Prop) : Prop where
  both : ∀ {i j : Nat} {s t : State}, m.program.toList[i]? = some (.of .jumpIfZero j) → s.pc = i →
    t.pc = m.program.offset i → alike s.profile t.profile →
    alike (m.countLoop j s).profile (n.countLoop (m.program.offset j) t).profile
  second : ∀ {place arg : Nat} {body : List Primitive} {op : Operation} {p : Profile} {t : State},
    World.Fuses body op arg →
    n.program.HasAt (m.program.offset place) (loopRow (m.program.offset place) body) →
    t.pc = m.program.offset place → alike p t.profile →
    alike p (n.countLoop (m.program.offset place + body.length + 1 : Nat) t).profile

/-- What the next step of the first machine is to the second one.  The rank is the number of
instructions that are still ahead. -/
abbrev MatchedStep (m n : Machine) (alike : Profile → Profile → Prop) (s t : State) : Prop :=
  Matched m.system n.system (fun s t => ∃ place, m.Tracks n place s t ∧ alike s.profile t.profile)
    (fun first second => first.Agrees second ∧ alike first.state.profile second.state.profile)
    (fun s => (m.program.size - s.pc).toNat) s t

variable {m n : Machine} {s t : State} {place : Nat} {alike : Profile → Profile → Prop}

theorem Tracks.get? (htracks : m.Tracks n place s t) {i : Instruction}
    (hget : m.program.toList[place]? = some i) : m.program.get? s.pc = some i := by
  rw [htracks.pc]
  exact Program.get?_of_getElem? hget

theorem Tracks.otherGet? (htracks : m.Tracks n place s t) {i : Instruction}
    (hget : n.program.toList[m.program.offset place]? = some i) :
    n.program.get? t.pc = some i := by
  rw [htracks.otherPc]
  exact Program.get?_of_getElem? hget

theorem Tracks.cell (htracks : m.Tracks n place s t) : t.tape.cell = s.tape.cell :=
  congrArg (fun w => w.tape.cell) htracks.world

/-- A piece that one machine gets past in one step, and the other one in some. -/
theorem matched_of_piece {result : Except World World} {op : Operation} {arg : Int}
    (htracks : m.Tracks n place s t) (hget : m.program.toList[place]? = some (.of op arg))
    (hother : op ≠ .jumpIfZero) (hstep : m.StepsTo s result)
    (hreaches : n.Reaches (alike s.profile) t (m.program.offset (place + 1)) result) :
    MatchedStep m n alike s t := by
  have hlt := Program.lt_size_of_getElem? hget
  have hpc := htracks.pc
  have hinside : s.pc < m.program.size := by omega
  cases result with
  | ok w =>
      obtain ⟨after, hnext, hafter, hworld⟩ := hstep
      obtain ⟨turns, later, hgoes, hlater, hlaterWorld, hprofiles⟩ := hreaches
      have hplace : after.pc = (place + 1 : Nat) := by
        rw [hafter, hpc]
        rfl
      have hprofile := profile_of_stay (htracks.get? hget) (fun hpass => hother hpass.1) hnext
      refine .next (turn_of_next hinside hnext) hgoes ⟨place + 1, ⟨hlt, hplace, hlater, ?_⟩, ?_⟩
        fun _ => by omega
      · rw [hlaterWorld, hworld]
      · rwa [hprofile]
  | error w =>
      obtain ⟨target, last, hstop, -, hstreams⟩ := hstep
      obtain ⟨result, hhalts, hviolation, hotherStreams, hprofiles⟩ := hreaches
      refine .ended (turn_of_stop hinside hstop) hhalts
        ⟨⟨?_, .inr ⟨⟨_, target, rfl, rfl⟩, hviolation⟩⟩, ?_⟩
      · have hflushed : (m.flush last).world.SameStreams w := by
          rw [world_flush]
          exact hstreams
        exact hflushed.trans hotherStreams.symm
      · rwa [profile_flush, (sameButHead_of_step hstop).profile]

/-- Both machines go on from the same jump. -/
theorem matched_of_jump {after later : State} {target : Nat} {own other jump : Instruction}
    (htracks : m.Tracks n place s t) (hown : m.program.toList[place]? = some own)
    (hother : n.program.toList[m.program.offset place]? = some other)
    (htarget : m.program.toList[target]? = some jump) (hsingle : jump.commands.length = 1)
    (hstep : m.step s = .next after) (hotherStep : n.step t = .next later)
    (hworld : after.world = s.world) (hotherWorld : later.world = t.world)
    (hpc : after.pc = (target : Int) + 1)
    (hotherPc : later.pc = (m.program.offset target : Int) + 1)
    (hprofiles : alike after.profile later.profile) : MatchedStep m n alike s t := by
  have hinside : s.pc < m.program.size := by
    have hlt := Program.lt_size_of_getElem? hown
    rw [htracks.pc]
    omega
  have hotherInside : t.pc < n.program.size := by
    have hlt := Program.lt_size_of_getElem? hother
    rw [htracks.otherPc]
    omega
  have hlater : m.Tracks n (target + 1) after later := by
    refine ⟨Program.lt_size_of_getElem? htarget, hpc, ?_, ?_⟩
    · rw [hotherPc, Program.offset_succ htarget, hsingle]
      rfl
    · rw [hotherWorld, hworld, htracks.world]
  have hturn := turn_of_next hotherInside hotherStep
  exact .next (turn_of_next hinside hstep) (System.goes_one hturn) ⟨_, hlater, hprofiles⟩
    fun hnone => by cases hnone

/-! ## One step of the first machine -/

theorem matched_run (hunrolls : m.Unrolls n) (htracks : m.Tracks n place s t)
    (hprofiles : alike s.profile t.profile) {p : Primitive} {count : Nat}
    (hget : m.program.toList[place]? = some (.repeated p count))
    (hslow : n.program.HasAt (m.program.offset place) (List.replicate count (.repeated p 1))) :
    MatchedStep m n alike s t := by
  have hstep : m.StepsTo s (World.actAll (List.replicate count p) s.world) :=
    step_repeated hunrolls.memory (htracks.get? hget)
  have hrow : n.program.HasAt (m.program.offset place)
      ((List.replicate count p).map (.repeated · 1)) := by
    rw [List.map_replicate]
    exact hslow
  have hreaches := reaches_row hunrolls.otherMemory hrow htracks.otherPc hprofiles
  have hend : m.program.offset (place + 1) =
      m.program.offset place + (List.replicate count p).length := by
    rw [Program.offset_succ hget]
    simp [Instruction.commands]
  rw [htracks.world, ← hend] at hreaches
  exact matched_of_piece htracks hget (by simp) hstep hreaches

theorem matched_loop (hunrolls : m.Unrolls n) (hcounts : m.Counts n alike)
    (htracks : m.Tracks n place s t) (hprofiles : alike s.profile t.profile)
    {body : List Primitive} {op : Operation} {arg : Nat} (hfuses : World.Fuses body op arg)
    (hget : m.program.toList[place]? = some (.of op arg))
    (hslow : n.program.HasAt (m.program.offset place) (loopRow (m.program.offset place) body)) :
    MatchedStep m n alike s t := by
  obtain ⟨result, hloop, hstep⟩ := step_of_fuses hfuses (htracks.get? hget)
  have hreaches := reaches_loop hunrolls.otherMemory hslow (.inl htracks.otherPc) htracks.world
    hprofiles (fun u hpc hkept => hcounts.second hfuses hslow hpc hkept) hloop
  have hend : m.program.offset (place + 1) = m.program.offset place + body.length + 2 := by
    rw [Program.offset_succ hget, hfuses.length_commands, Nat.add_assoc]
  rw [← hend] at hreaches
  have hother : op ≠ .jumpIfZero := by cases hfuses <;> simp
  exact matched_of_piece htracks hget hother hstep hreaches

theorem matched_jumpIfZero (hcounts : m.Counts n alike) (htracks : m.Tracks n place s t)
    (hprofiles : alike s.profile t.profile) {j : Nat}
    (hget : m.program.toList[place]? = some (.of .jumpIfZero j))
    (hpartner : m.program.toList[j]? = some (.of .jumpIfNonzero place))
    (hslow : n.program.toList[m.program.offset place]? =
      some (.of .jumpIfZero (m.program.offset j))) : MatchedStep m n alike s t := by
  obtain ⟨after, hstep, hworld, hafter⟩ := step_jumpIfZero (htracks.get? hget)
  obtain ⟨later, hotherStep, hotherWorld, hlater⟩ := step_jumpIfZero (htracks.otherGet? hslow)
  rw [htracks.pc] at hafter
  rw [htracks.otherPc, htracks.cell] at hlater
  by_cases hzero : s.tape.cell = 0
  · rw [if_pos hzero] at hafter hlater
    have hotherZero : t.tape.cell = 0 := htracks.cell.trans hzero
    have hcounted := hcounts.both hget htracks.pc htracks.otherPc hprofiles
    rw [← profile_of_pass (htracks.get? hget) hzero hstep,
      ← profile_of_pass (htracks.otherGet? hslow) hotherZero hotherStep] at hcounted
    exact matched_of_jump htracks hget hslow hpartner rfl hstep hotherStep hworld hotherWorld
      hafter hlater hcounted
  · rw [if_neg hzero] at hafter hlater
    have hotherCell : t.tape.cell ≠ 0 := by rwa [htracks.cell]
    have hstay := profile_of_stay (htracks.get? hget) (fun hpass => hzero hpass.2) hstep
    have hotherStay :=
      profile_of_stay (htracks.otherGet? hslow) (fun hpass => hotherCell hpass.2) hotherStep
    rw [← hstay, ← hotherStay] at hprofiles
    exact matched_of_jump htracks hget hslow hget rfl hstep hotherStep hworld hotherWorld
      hafter hlater hprofiles

theorem matched_jumpIfNonzero (htracks : m.Tracks n place s t)
    (hprofiles : alike s.profile t.profile) {j : Nat}
    (hget : m.program.toList[place]? = some (.of .jumpIfNonzero j))
    (hpartner : m.program.toList[j]? = some (.of .jumpIfZero place))
    (hslow : n.program.toList[m.program.offset place]? =
      some (.of .jumpIfNonzero (m.program.offset j))) : MatchedStep m n alike s t := by
  obtain ⟨after, hstep, hworld, hafter⟩ := step_jumpIfNonzero (htracks.get? hget)
  obtain ⟨later, hotherStep, hotherWorld, hlater⟩ := step_jumpIfNonzero (htracks.otherGet? hslow)
  have hstay := profile_of_stay (htracks.get? hget) (by simp) hstep
  have hotherStay := profile_of_stay (htracks.otherGet? hslow) (by simp) hotherStep
  rw [← hstay, ← hotherStay] at hprofiles
  rw [htracks.pc] at hafter
  rw [htracks.otherPc, htracks.cell] at hlater
  by_cases hzero : s.tape.cell = 0
  · rw [if_pos hzero] at hafter hlater
    exact matched_of_jump htracks hget hslow hget rfl hstep hotherStep hworld hotherWorld
      hafter hlater hprofiles
  · rw [if_neg hzero] at hafter hlater
    exact matched_of_jump htracks hget hslow hpartner rfl hstep hotherStep hworld hotherWorld
      hafter hlater hprofiles

theorem matched_end (hunrolls : m.Unrolls n) (htracks : m.Tracks n place s t)
    (hprofiles : alike s.profile t.profile) (hend : m.program.size ≤ place) :
    MatchedStep m n alike s t := by
  have hpc := htracks.pc
  have hotherPc := htracks.otherPc
  rw [Nat.le_antisymm htracks.le hend] at hpc hotherPc
  rw [hunrolls.size] at hotherPc
  have hworld : (m.flush s).world = (n.flush t).world := by
    rw [world_flush, world_flush, htracks.world]
  refine .ended (turn_of_end (Int.le_of_eq hpc.symm))
    (System.halts_of_ended (turn_of_end (Int.le_of_eq hotherPc.symm)))
    ⟨⟨?_, .inl ⟨rfl, rfl, ?_⟩⟩, ?_⟩
  · rw [hworld]
    exact .refl _
  · exact congrArg World.tape hworld
  · rwa [profile_flush, profile_flush]

/-! ## Whole runs -/

/-- The machines stay together, and their profiles stay alike. -/
theorem simulation_of_counts (hunrolls : m.Unrolls n) (hcounts : m.Counts n alike) :
    Simulation m.system n.system
      (fun s t => ∃ place, m.Tracks n place s t ∧ alike s.profile t.profile)
      (fun first second => first.Agrees second ∧ alike first.state.profile second.state.profile)
      fun s => (m.program.size - s.pc).toNat := by
  rintro s t ⟨place, htracks, hprofiles⟩
  by_cases hlt : place < m.program.size
  · obtain ⟨instruction, hget⟩ : ∃ instruction, m.program.toList[place]? = some instruction :=
      ⟨_, List.getElem?_eq_getElem hlt⟩
    cases hunrolls.unfolds place instruction (Nat.zero_le _) hlt hget with
    | run count_pos hslow => exact matched_run hunrolls htracks hprofiles hget hslow
    | jumpIfZero hpartner hslow =>
        exact matched_jumpIfZero hcounts htracks hprofiles hget hpartner hslow
    | jumpIfNonzero hpartner hslow =>
        exact matched_jumpIfNonzero htracks hprofiles hget hpartner hslow
    | loop hfuses hslow => exact matched_loop hunrolls hcounts htracks hprofiles hfuses hget hslow
  · exact matched_end hunrolls htracks hprofiles (Nat.le_of_not_lt hlt)

theorem simulation_of_unrolls (hunrolls : m.Unrolls n) :
    Simulation m.system n.system (fun s t => ∃ place, m.Tracks n place s t) Halt.Agrees
      fun s => (m.program.size - s.pc).toNat := by
  have hcounts : m.Counts n fun _ _ => True := ⟨fun _ _ _ _ => trivial, fun _ _ _ _ => trivial⟩
  apply (simulation_of_counts hunrolls hcounts).imp
  · rintro s t ⟨place, htracks⟩
    exact ⟨place, htracks, trivial⟩
  · rintro s t ⟨place, htracks, -⟩
    exact ⟨place, htracks⟩
  · exact fun first second halike => halike.1

theorem unrolls_of_block {block : Block} (hmemory : m.memory = .unbounded)
    (hotherMemory : n.memory = .unbounded) (hfast : m.program.toList = block.code true 0)
    (hslow : n.program.toList = block.code false 0) : m.Unrolls n where
  unfolds := by
    have hunfolds := block.unfoldsIn m.program n.program [] []
    rw [List.length_nil, Nat.zero_add, List.nil_append, List.append_nil, ← hfast,
      Program.length_toList] at hunfolds
    exact hunfolds rfl (Program.hasAt_zero hslow)
  size := by
    rw [Program.offset_size, hfast, Block.commands_code, ← Program.length_toList, hslow,
      Block.length_code_false]
  memory := hmemory
  otherMemory := hotherMemory

theorem tracks_initial (m n : Machine) (length : TapeLength) (input : List UInt8) :
    m.Tracks n 0 (.initial length input) (.initial length input) :=
  ⟨Nat.zero_le _, rfl, rfl, rfl⟩

theorem sameEnd_of_agrees {length : TapeLength} {input : List UInt8} {first second : Halt}
    (hfirst : m.Halts (.initial length input) first)
    (hsecond : n.Halts (.initial length input) second) (hagrees : first.Agrees second) :
    first.SameEnd second where
  output := hagrees.streams.output
  consumed := by
    have hleft : first.state.input = second.state.input := hagrees.streams.input
    rw [consumed_of_halts hfirst, consumed_of_halts hsecond, hleft]
  ending := hagrees.ending

/-- Whether a text is compiled with optimization or without makes no difference to a run, on any
tape and any input: one halts if the other does, and then both end in the same way. -/
theorem optimization_preserves_runs {text : String} {fast : Program}
    (hfast : Program.ofSource text true = .ok fast) :
    ∃ slow, Program.ofSource text false = .ok slow ∧
      ∀ (m n : Machine) (length : TapeLength) (input : List UInt8), m.program = fast →
        n.program = slow → m.memory = .unbounded → n.memory = .unbounded →
        ((∃ halt, m.Halts (.initial length input) halt) ↔
          ∃ halt, n.Halts (.initial length input) halt) ∧
        ∀ first second, m.Halts (.initial length input) first →
          n.Halts (.initial length input) second → first.SameEnd second := by
  obtain ⟨block, -, hcode⟩ :=
    Compilation.exists_block_of_balanced (Compilation.balanced_of_ofSource hfast)
  obtain ⟨slow, hslow, hslowCode⟩ := hcode false
  obtain ⟨program, hprogram, hfastCode⟩ := hcode true
  obtain rfl : program = fast := Except.ok.inj (hprogram.symm.trans hfast)
  refine ⟨slow, hslow, fun m n length input hm hn hmemory hotherMemory => ?_⟩
  subst hm hn
  have hsimulation :=
    simulation_of_unrolls (unrolls_of_block hmemory hotherMemory hfastCode hslowCode)
  have hstart := tracks_initial m n length input
  constructor
  · simp only [← system_halts_iff]
    exact hsimulation.halts_iff ⟨0, hstart⟩
  · intro first second hfirst hsecond
    refine sameEnd_of_agrees hfirst hsecond ?_
    exact hsimulation.alike_of_halts ⟨0, hstart⟩ (system_halts_iff.mpr hfirst)
      (system_halts_iff.mpr hsecond)

theorem optimization_preserves_run_of_clear :
    ∃ slow, Program.ofSource "+[-]" false = .ok slow ∧ ∃ first second,
      ({ program := .ofList [.repeated .add 1, .of .zero 0] } : Machine).Halts
        (.initial ⟨1, Nat.one_pos⟩ []) first ∧
      ({ program := slow } : Machine).Halts (.initial ⟨1, Nat.one_pos⟩ []) second ∧
      first.SameEnd second := by
  obtain ⟨slow, hslow, hruns⟩ := optimization_preserves_runs
    (show Program.ofSource "+[-]" true = .ok (.ofList [.repeated .add 1, .of .zero 0]) from rfl)
  obtain ⟨hiff, hsame⟩ :=
    hruns { program := _ } { program := slow } ⟨1, Nat.one_pos⟩ [] rfl rfl rfl rfl
  have hfirst : ({ program := .ofList [.repeated .add 1, .of .zero 0] } : Machine).Halts
      (.initial ⟨1, Nat.one_pos⟩ []) _ := ⟨3, rfl⟩
  obtain ⟨second, hsecond⟩ := hiff.mp ⟨_, hfirst⟩
  exact ⟨slow, hslow, _, second, hfirst, hsecond, hsame _ _ hfirst hsecond⟩

end Machine

end TapeLang
