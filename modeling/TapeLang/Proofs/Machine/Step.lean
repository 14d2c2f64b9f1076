import TapeLang.Machine.Run
import TapeLang.Proofs.World.Loop

/-!
# What a step does to the world

A step of the machine also keeps a log, a trace and a profile.  This file says what it does to the
world, whatever is kept beside it, for the operations that a compiled program has:

* a primitive with a count does what a row of that primitive does (`step_repeated`);
* a shortcut for a loop does what the loop does (`step_of_fuses`);
* a jump leaves the world as it is (`step_jumpIfZero`, `step_jumpIfNonzero`).

`Machine.StepsTo` puts the first two into one form: the step goes through and the counter moves on,
or it is an access violation and the counter stays.  An access violation of a row may leave the head
at another place than the row does, so only the streams are compared then.
-/

namespace TapeLang

/-! ## The next state of a step -/

namespace Step

variable {change : State → State} {step : Step} {reason : Stop} {last : State}

theorem map_eq_next_iff : step.map change = .next last ↔ ∃ s, step = .next s ∧ change s = last := by
  cases step <;> simp [map]

theorem map_eq_stop_iff : step.map change = .stop reason last ↔ step = .stop reason last := by
  cases step <;> simp [map]

theorem map_eq_endless_iff : step.map change = .endless ↔ step = .endless := by
  cases step <;> simp [map]

end Step

/-- Reading changes the cells, the input and the log, and nothing else. -/
theorem State.exists_readInto (s : State) (count : Nat) :
    ∃ (tape : Tape) (input : List UInt8) (log : Array StreamEvent),
      s.readInto count = { s with tape, input, log } ∧ tape.size = s.tape.size := by
  induction count generalizing s with
  | zero => exact ⟨s.tape, s.input, s.log, rfl, rfl⟩
  | succ count ih =>
      obtain ⟨byte, input, log, hbyte⟩ : ∃ (byte : UInt8) (input : List UInt8)
          (log : Array StreamEvent), s.readByte = (byte, { s with input, log }) := by
        unfold readByte
        split
        · exact ⟨0, s.input, _, rfl⟩
        · exact ⟨_, _, _, rfl⟩
      obtain ⟨tape, input', log', hread, hsize⟩ :=
        ih { s with input, log, tape := s.tape.write byte }
      refine ⟨tape, input', log', ?_, ?_⟩
      · simp only [readInto, hbyte, hread]
      · rw [hsize, Tape.size_write]

namespace Machine

variable {m : Machine} {s : State}

/-! ## Records leave the world alone -/

@[simp] theorem world_note (op : Operation) (arg : Int) : (m.note op arg s).world = s.world := by
  unfold note
  split <;> rfl

@[simp] theorem pc_note (op : Operation) (arg : Int) : (m.note op arg s).pc = s.pc := by
  unfold note
  split <;> rfl

@[simp] theorem tape_note (op : Operation) (arg : Int) : (m.note op arg s).tape = s.tape := by
  unfold note
  split <;> rfl

@[simp] theorem world_note_tape (op : Operation) (arg : Int) (tape : Tape) :
    ({ m.note op arg s with tape } : State).world = { s.world with tape } := by
  unfold note
  split <;> rfl

@[simp] theorem world_countLoop (last : Int) : (m.countLoop last s).world = s.world := by
  unfold countLoop
  split <;> rfl

@[simp] theorem world_flush : (m.flush s).world = s.world := by
  unfold flush
  split
  · exact congrArg (World.mk _ _) ((State.output_logged s .flush).trans (List.append_nil _))
  · rfl

@[simp] theorem pc_flush : (m.flush s).pc = s.pc := by
  unfold flush
  split <;> rfl

theorem step_of_get? {op : Operation} {arg : Int}
    (hget : m.program.get? s.pc = some (.of op arg)) :
    m.step s =
      (m.perform op arg (m.note op arg s)).map fun after => { after with pc := after.pc + 1 } := by
  simp only [step, hget]

theorem step_of_next {op : Operation} {arg : Int} {after : State}
    (hget : m.program.get? s.pc = some (.of op arg))
    (hperform : m.perform op arg (m.note op arg s) = .next after) :
    ∃ last, m.step s = .next last ∧ last.pc = after.pc + 1 ∧ last.world = after.world :=
  ⟨{ after with pc := after.pc + 1 }, by rw [step_of_get? hget, hperform]; rfl, rfl, rfl⟩

theorem step_of_stop {op : Operation} {arg : Int} {reason : Stop} {last : State}
    (hget : m.program.get? s.pc = some (.of op arg))
    (hperform : m.perform op arg (m.note op arg s) = .stop reason last) :
    m.step s = .stop reason last := by
  rw [step_of_get? hget, hperform]
  rfl

/-! ## Jumps -/

theorem step_jumpIfZero {target : Int}
    (hget : m.program.get? s.pc = some (.of .jumpIfZero target)) :
    ∃ after, m.step s = .next after ∧ after.world = s.world ∧
      after.pc = (if s.tape.cell = 0 then target else s.pc) + 1 := by
  by_cases hcell : s.tape.cell = 0
  · have hperform : m.perform .jumpIfZero target (m.note .jumpIfZero target s) =
        .next { m.countLoop target (m.note .jumpIfZero target s) with pc := target } := by
      simp only [perform, tape_note, if_pos hcell]
    obtain ⟨after, hstep, hpc, hworld⟩ := step_of_next hget hperform
    refine ⟨after, hstep, hworld.trans ?_, by rw [hpc, if_pos hcell]⟩
    exact (world_countLoop (m := m) target).trans (world_note _ _)
  · have hperform : m.perform .jumpIfZero target (m.note .jumpIfZero target s) =
        .next (m.note .jumpIfZero target s) := by
      simp only [perform, tape_note, if_neg hcell]
    obtain ⟨after, hstep, hpc, hworld⟩ := step_of_next hget hperform
    exact ⟨after, hstep, hworld.trans (world_note _ _), by rw [hpc, if_neg hcell, pc_note]⟩

theorem step_jumpIfNonzero {target : Int}
    (hget : m.program.get? s.pc = some (.of .jumpIfNonzero target)) :
    ∃ after, m.step s = .next after ∧ after.world = s.world ∧
      after.pc = (if s.tape.cell = 0 then s.pc else target) + 1 := by
  by_cases hcell : s.tape.cell = 0
  · have hperform : m.perform .jumpIfNonzero target (m.note .jumpIfNonzero target s) =
        .next (m.note .jumpIfNonzero target s) := by
      simp only [perform, tape_note, if_pos hcell]
    obtain ⟨after, hstep, hpc, hworld⟩ := step_of_next hget hperform
    exact ⟨after, hstep, hworld.trans (world_note _ _), by rw [hpc, if_pos hcell, pc_note]⟩
  · have hperform : m.perform .jumpIfNonzero target (m.note .jumpIfNonzero target s) =
        .next { m.note .jumpIfNonzero target s with pc := target } := by
      simp only [perform, tape_note, if_neg hcell]
    obtain ⟨after, hstep, hpc, hworld⟩ := step_of_next hget hperform
    refine ⟨after, hstep, hworld.trans ?_, by rw [hpc, if_neg hcell]⟩
    exact world_note (m := m) _ _

/-! ## Rows of primitives and shortcuts for loops -/

/-- A step makes of the world what is given: it goes through, or it is an access violation. -/
def StepsTo (m : Machine) (s : State) : Except World World → Prop
  | .ok w => ∃ after, m.step s = .next after ∧ after.pc = s.pc + 1 ∧ after.world = w
  | .error w => ∃ target last, m.step s = .stop (.fault (last.faultOf (.outOfBounds target))) last ∧
      last.pc = s.pc ∧ last.world.SameStreams w

theorem pc_readInto (count : Nat) : (s.readInto count).pc = s.pc := by
  obtain ⟨tape, input, log, hread, -⟩ := s.exists_readInto count
  rw [hread]

/-- A row of a primitive that goes through. -/
theorem performPrimitive_of_ok (hmemory : m.memory = .unbounded) {p : Primitive} {count : Nat}
    {w : World} (hrow : World.actAll (List.replicate count p) s.world = .ok w) :
    ∃ after, m.performPrimitive p count s = .next after ∧ after.pc = s.pc ∧ after.world = w := by
  cases p with
  | move d =>
      cases hmoved : s.tape.moveTo? (s.tape.pos + d.offset count) with
      | none =>
          obtain ⟨v, hv, -⟩ := World.actAll_moves_blocked (w := s.world) hmoved
          rw [hv] at hrow
          cases hrow
      | some moved =>
          rw [World.actAll_moves (w := s.world) hmoved] at hrow
          cases hrow
          exact ⟨{ s with tape := moved }, by
            simp only [performPrimitive, State.moveTo, State.dp, hmoved], rfl, rfl⟩
  | add =>
      rw [World.actAll_adds] at hrow
      cases hrow
      exact ⟨_, rfl, rfl, rfl⟩
  | sub =>
      rw [World.actAll_subs] at hrow
      cases hrow
      exact ⟨_, rfl, rfl, rfl⟩
  | write =>
      rw [World.actAll_writes] at hrow
      cases hrow
      refine ⟨_, writeOut_of_unbounded hmemory count s, rfl, ?_⟩
      exact congrArg (World.mk _ _) (State.output_logged s _)
  | read =>
      rw [← world_flush (m := m), World.actAll_reads] at hrow
      cases hrow
      exact ⟨(m.flush s).readInto count, rfl, (pc_readInto count).trans pc_flush, rfl⟩

/-- A row of a primitive that goes wrong: only moves do. -/
theorem performPrimitive_of_error {p : Primitive} {count : Nat} {w : World}
    (hrow : World.actAll (List.replicate count p) s.world = .error w) :
    (∃ target, m.performPrimitive p count s = s.stopWith (.outOfBounds target)) ∧
      s.world.SameStreams w := by
  cases p with
  | move d =>
      cases hmoved : s.tape.moveTo? (s.tape.pos + d.offset count) with
      | none =>
          obtain ⟨v, hv, hstreams⟩ := World.actAll_moves_blocked (w := s.world) hmoved
          rw [hv] at hrow
          cases hrow
          refine ⟨⟨s.tape.pos + d.offset count, ?_⟩, hstreams.symm⟩
          simp only [performPrimitive, State.moveTo, State.dp, hmoved]
      | some moved =>
          rw [World.actAll_moves (w := s.world) hmoved] at hrow
          cases hrow
  | add =>
      rw [World.actAll_adds] at hrow
      cases hrow
  | sub =>
      rw [World.actAll_subs] at hrow
      cases hrow
  | write =>
      rw [World.actAll_writes] at hrow
      cases hrow
  | read =>
      rw [World.actAll_reads] at hrow
      cases hrow

/-- Where a row of a primitive goes wrong, the machine has not begun it. -/
theorem step_repeated_of_error {p : Primitive} {count : Nat} {w : World}
    (hget : m.program.get? s.pc = some (.repeated p count))
    (hrow : World.actAll (List.replicate count p) s.world = .error w) :
    ∃ target last, m.step s = .stop (.fault (last.faultOf (.outOfBounds target))) last ∧
      last.pc = s.pc ∧ last.world = s.world ∧ s.world.SameStreams w := by
  rw [← world_note (m := m) (.primitive p) count] at hrow
  obtain ⟨⟨target, hperform⟩, hstreams⟩ := performPrimitive_of_error (m := m) hrow
  refine ⟨target, m.note (.primitive p) count s, ?_, pc_note _ _, world_note _ _, ?_⟩
  · exact step_of_stop hget hperform
  · simpa only [world_note] using hstreams

theorem stepsTo_of_next {op : Operation} {arg : Int} {after : State} {w : World}
    (hget : m.program.get? s.pc = some (.of op arg))
    (hperform : m.perform op arg (m.note op arg s) = .next after) (hpc : after.pc = s.pc)
    (hworld : after.world = w) : m.StepsTo s (.ok w) := by
  obtain ⟨last, hstep, hlastPc, hlastWorld⟩ := step_of_next hget hperform
  exact ⟨last, hstep, by rw [hlastPc, hpc], hlastWorld.trans hworld⟩

theorem stepsTo_of_stop {op : Operation} {arg target : Int} {last : State} {w : World}
    (hget : m.program.get? s.pc = some (.of op arg))
    (hperform : m.perform op arg (m.note op arg s) = last.stopWith (.outOfBounds target))
    (hpc : last.pc = s.pc) (hstreams : last.world.SameStreams w) : m.StepsTo s (.error w) :=
  ⟨target, last, step_of_stop hget hperform, hpc, hstreams⟩

theorem step_repeated (hmemory : m.memory = .unbounded) {p : Primitive} {count : Nat}
    (hget : m.program.get? s.pc = some (.repeated p count)) :
    m.StepsTo s (World.actAll (List.replicate count p) s.world) := by
  cases hrow : World.actAll (List.replicate count p) s.world with
  | ok w =>
      rw [← world_note (m := m) (.primitive p) count] at hrow
      obtain ⟨after, hperform, hpc, hworld⟩ := performPrimitive_of_ok hmemory hrow
      exact stepsTo_of_next hget hperform (hpc.trans (pc_note _ _)) hworld
  | error w =>
      obtain ⟨target, last, hstep, hpc, hworld, hstreams⟩ := step_repeated_of_error hget hrow
      exact ⟨target, last, hstep, hpc, hworld ▸ hstreams⟩

theorem step_zero {arg : Int} (hget : m.program.get? s.pc = some (.of .zero arg)) :
    m.StepsTo s (.ok { s.world with tape := s.tape.write 0 }) := by
  refine stepsTo_of_next hget rfl (pc_note (m := m) _ _) ?_
  rw [tape_note, world_note_tape]

theorem step_scan {d : Direction} {stride : Nat}
    (hget : m.program.get? s.pc = some (.of (.scan d) stride)) {result : Except World World}
    (hresult : World.Scanned s.world result (s.tape.scan (d.offset stride))) :
    m.StepsTo s result := by
  have hperform : m.perform (.scan d) stride (m.note (.scan d) stride s) =
      (m.note (.scan d) stride s).scan (d.offset stride) := rfl
  unfold State.scan at hperform
  rw [tape_note] at hperform
  cases hscan : s.tape.scan (d.offset stride) with
  | found tape =>
      rw [hscan] at hresult hperform
      cases hresult
      exact stepsTo_of_next hget hperform (pc_note (m := m) _ _) (world_note_tape _ _ _)
  | blocked tape target =>
      rw [hscan] at hresult hperform
      obtain ⟨v, rfl, hstreams⟩ := hresult
      refine stepsTo_of_stop hget hperform (pc_note (m := m) _ _) ?_
      rw [world_note_tape]
      exact ⟨hstreams.input.symm, hstreams.output.symm⟩
  | endless =>
      rw [hscan] at hresult
      exact hresult.elim

/-- A carry makes of the world what the loop makes of it that carries one unit after the other. -/
theorem step_carry {d : Direction} {distance : Nat} (hdistance : 0 < distance)
    (hget : m.program.get? s.pc = some (.of (.carry d) distance)) :
    ∃ result, World.Loop (World.actAll (World.carryBody d distance)) s.world result ∧
      m.StepsTo s result := by
  have hperform : m.perform (.carry d) distance (m.note (.carry d) distance s) =
      (m.note (.carry d) distance s).carryTo (s.tape.pos + d.offset distance) := by
    rw [perform, State.dp, tape_note]
  unfold State.carryTo at hperform
  rw [tape_note] at hperform
  by_cases hcell : s.tape.cell = 0
  · rw [if_pos hcell] at hperform
    exact ⟨.ok s.world, .exit hcell,
      stepsTo_of_next hget hperform (pc_note _ _) (world_note _ _)⟩
  · rw [if_neg hcell] at hperform
    cases hcarry : s.tape.carryTo? (s.tape.pos + d.offset distance) with
    | some carried =>
        rw [hcarry] at hperform
        exact ⟨_, World.loop_carry hdistance hcarry,
          stepsTo_of_next hget hperform (pc_note (m := m) _ _) (world_note_tape _ _ _)⟩
    | none =>
        rw [hcarry] at hperform
        obtain ⟨v, hloop, hstreams⟩ := World.loop_carry_blocked (w := s.world) hcell hcarry
        refine ⟨.error v, hloop, stepsTo_of_stop hget hperform (pc_note _ _) ?_⟩
        rw [world_note]
        exact hstreams.symm

/-- A shortcut for a loop makes of the world what the loop makes of it. -/
theorem step_of_fuses {body : List Primitive} {op : Operation} {arg : Nat}
    (hfuses : World.Fuses body op arg) (hget : m.program.get? s.pc = some (.of op arg)) :
    ∃ result, World.Loop (World.actAll body) s.world result ∧ m.StepsTo s result := by
  cases hfuses with
  | zero => exact ⟨_, World.loop_clear s.world, step_zero hget⟩
  | scan d stride_pos =>
      have hstride : d.offset arg ≠ 0 := d.offset_ne_zero (by omega)
      obtain ⟨result, hloop, hresult⟩ :=
        World.loop_scan (World.movesBy_replicate d arg) hstride s.world
      exact ⟨result, hloop, step_scan hget hresult⟩
  | carry d distance_pos => exact step_carry distance_pos hget

end Machine

end TapeLang
