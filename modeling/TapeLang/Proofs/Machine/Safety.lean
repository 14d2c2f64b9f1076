import TapeLang.Proofs.Compilation.Compiled
import TapeLang.Proofs.Machine.Progress
import TapeLang.Proofs.Machine.Stop
import TapeLang.Proofs.Simulation

/-!
# A compiled program cannot go wrong

A state is sound (`State.Sound`) if the counter is on an instruction or just past the last one and
the tape has the length that it began with.  A step of a compiled program leads from a sound state
to a sound state (`sound_of_next`), because jumps lead to jumps of the same program.  So every state
of a run is sound, and the program is over exactly at its end.

What can still stop a program is what its text asks for (`Machine.CanStop`): to leave the tape, or
to write more than there is room for.  A step is never endless, because a compiled scan has a
stride.
-/

namespace TapeLang

/-- The counter is in a program of a given size or just behind it, the tape has a given length, the
head is on it, and its cells are bytes.  The types take care of the last two (`State.sound_of`). -/
structure State.Sound (s : State) (length : TapeLength) (size : Nat) : Prop where
  pc_nonneg : 0 ≤ s.pc
  pc_le : s.pc ≤ size
  size_tape : s.tape.size = length.val
  dp_lt : s.dp < length.val
  cell_le : ∀ (i : Nat) (value : UInt8), s.tape.cells[i]? = some value → value.toNat ≤ 255

/-- What can stop a program that does only what it was written for. -/
inductive Machine.CanStop (m : Machine) : Stop → Prop where
  | violation (target : Int) (pc : Int) (dp : Nat) :
      CanStop m (.fault ⟨.outOfBounds target, pc, dp⟩)
  | shortage (shortage : Shortage) (hmemory : m.memory ≠ .unbounded) :
      CanStop m (.shortage shortage)

theorem State.sound_of {s : State} {length : TapeLength} {size : Nat} (hnonneg : 0 ≤ s.pc)
    (hle : s.pc ≤ size) (hsize : s.tape.size = length.val) : s.Sound length size where
  pc_nonneg := hnonneg
  pc_le := hle
  size_tape := hsize
  dp_lt := hsize ▸ s.tape.pos_lt
  cell_le _ value _ := Nat.le_of_lt_succ value.toNat_lt

theorem State.sound_initial (length : TapeLength) (input : List UInt8) (size : Nat) :
    (State.initial length input).Sound length size :=
  sound_of (Int.le_refl 0) (Int.natCast_nonneg size) (Tape.size_blank length)

/-! ## Compiled programs -/

namespace Program

variable {p : Program}

/-- A jump leads to an instruction of the program. -/
theorem Compiled.target_bounds (hcompiled : p.Compiled) {place : Nat} {op : Operation} {arg : Int}
    (hjump : op = .jumpIfZero ∨ op = .jumpIfNonzero) (hget : p.toList[place]? = some (.of op arg)) :
    0 ≤ arg ∧ arg < p.size := by
  have hlt := lt_size_of_getElem? hget
  rcases hjump with rfl | rfl
  · obtain ⟨j, rfl, hj, -⟩ :=
      hcompiled.jumps.forth place arg (Nat.zero_le _) hlt hget List.not_mem_nil
    omega
  · obtain ⟨i, rfl, -, hpair⟩ := hcompiled.jumps.back place arg (Nat.zero_le _) hlt hget
    have hi := hpair.lt
    omega

theorem Compiled.normal_of_names (hcompiled : p.Compiled) {offset : Int} {i : Instruction}
    (hnames : p.Names offset i) : i.Normal := by
  obtain ⟨place, hget, -⟩ := hnames
  exact hcompiled.normal i (List.mem_of_getElem? hget)

/-- The scans of a compiled program end, on every tape. -/
theorem Compiled.scan_ne_endless (hcompiled : p.Compiled) {offset : Int} {d : Direction} {arg : Int}
    (hnames : p.Names offset (.of (.scan d) arg)) (t : Tape) :
    t.scan (d.offset arg) ≠ .endless := by
  have hstride : 0 < arg := hcompiled.normal_of_names hnames
  refine t.scan_ne_endless ?_
  cases d <;> simp only [Direction.offset] <;> omega

end Program

/-! ## Steps and runs -/

namespace Machine

variable {m : Machine} {s after last : State} {length : TapeLength} {reason : Stop}

theorem sound_of_next (hcompiled : m.program.Compiled) (hsound : s.Sound length m.program.size)
    (hinside : s.pc < m.program.size) (hstep : m.step s = .next after) :
    after.Sound length m.program.size := by
  have hsize := (size_tape_of_step hstep).trans hsound.size_tape
  have hnonneg := hsound.pc_nonneg
  rcases pc_of_step hstep with hpc | ⟨op, arg, hjump, hnames, hpc⟩
  · exact State.sound_of (by omega) (by omega) hsize
  · obtain ⟨place, -, hget⟩ := hnames.getElem? hnonneg
    have htarget := hcompiled.target_bounds hjump hget
    exact State.sound_of (by omega) (by omega) hsize

theorem step_ne_endless (hcompiled : m.program.Compiled) : m.step s ≠ .endless := by
  intro hstep
  obtain ⟨d, hnames, -⟩ := step_eq_endless_iff.mp hstep
  exact absurd (hcompiled.normal_of_names hnames) (Int.lt_irrefl 0)

theorem canStop_of_stop (hcompiled : m.program.Compiled) (hsound : s.Sound length m.program.size)
    (hinside : s.pc < m.program.size) (hstep : m.step s = .stop reason last) :
    m.CanStop reason := by
  cases reason with
  | fault fault =>
      cases stepStops_of_step hstep with
      | unrecognized hnames => exact (hcompiled.normal_of_names hnames).elim
      | operation _ hstops =>
          obtain ⟨target, rfl, -⟩ := hstops.asks
          exact .violation target _ _
  | outside =>
      have hnonneg := hsound.pc_nonneg
      have houtside := step_outside_iff.mp ⟨last, hstep⟩
      omega
  | shortage shortage => exact .shortage shortage (shortage_of_step hstep)

theorem sound_of_stop (hsound : s.Sound length m.program.size)
    (hstep : m.step s = .stop reason last) : last.Sound length m.program.size := by
  have hsame := sameButHead_of_step hstep
  refine State.sound_of (hsame.pc ▸ hsound.pc_nonneg) (hsame.pc ▸ hsound.pc_le) ?_
  rw [Tape.size, hsame.cells, ← Tape.size, hsound.size_tape]

theorem sound_flush (hsound : s.Sound length m.program.size) :
    (m.flush s).Sound length m.program.size := by
  refine State.sound_of ?_ ?_ ?_
  · rw [pc_flush]
    exact hsound.pc_nonneg
  · rw [pc_flush]
    exact hsound.pc_le
  · rw [tape_flush]
    exact hsound.size_tape

theorem sound_of_goes (hcompiled : m.program.Compiled) {input : List UInt8} {n : Nat}
    (hgoes : m.system.Goes n (.initial length input) s) : s.Sound length m.program.size := by
  apply hgoes.preserves
  · intro s after hsound hturn
    obtain ⟨hinside, hstep⟩ := step_of_turn hturn
    exact sound_of_next hcompiled hsound hinside hstep
  · exact State.sound_initial length input m.program.size

theorem sound_of_halts (hcompiled : m.program.Compiled) {input : List UInt8} {halt : Halt}
    (hhalts : m.Halts (.initial length input) halt) :
    halt.state.Sound length m.program.size ∧
      (halt.stop? = none → halt.state.pc = m.program.size) ∧
      ∀ reason, halt.stop? = some reason → m.CanStop reason := by
  obtain ⟨n, s, hgoes, hended⟩ := System.exists_goes_of_halts (system_halts_iff.mpr hhalts)
  have hsound := sound_of_goes hcompiled hgoes
  rcases ended_of_turn hended with ⟨hend, rfl⟩ | ⟨hinside, reason, last, hstep, rfl⟩
  · refine ⟨sound_flush hsound, fun _ => ?_, nofun⟩
    have hle := hsound.pc_le
    rw [pc_flush]
    omega
  · refine ⟨sound_flush (sound_of_stop hsound hstep), nofun, ?_⟩
    rintro _ ⟨⟩
    exact canStop_of_stop hcompiled hsound hinside hstep

/-- Whatever a compiled program is run on, and whatever is recorded: all states are sound, no step
is endless, nothing but leaving the tape or a lack of room stops it, and otherwise it is over at its
end. -/
theorem compiled_run_is_safe {text : String} {optimize : Bool}
    (hprogram : Program.ofSource text optimize = .ok m.program) (length : TapeLength)
    (input : List UInt8) :
    (∀ n s, m.system.Goes n (.initial length input) s →
      s.Sound length m.program.size ∧ m.step s ≠ .endless ∧
      ∀ reason last, s.pc < m.program.size → m.step s = .stop reason last →
        last.Sound length m.program.size ∧ m.CanStop reason) ∧
    (∀ offset d arg, m.program.Names offset (.of (.scan d) arg) →
      ∀ t : Tape, t.scan (d.offset arg) ≠ .endless) ∧
    ∀ halt, m.Halts (.initial length input) halt →
      halt.state.Sound length m.program.size ∧
      (halt.stop? = none → halt.state.pc = m.program.size) ∧
      ∀ reason, halt.stop? = some reason → m.CanStop reason := by
  have hcompiled := Compilation.compiled_of_ofSource hprogram
  refine ⟨fun n s hgoes => ?_, fun _ _ _ hnames => hcompiled.scan_ne_endless hnames,
    fun halt => sound_of_halts hcompiled⟩
  have hsound := sound_of_goes hcompiled hgoes
  exact ⟨hsound, step_ne_endless hcompiled, fun reason last hinside hstep =>
    ⟨sound_of_stop hsound hstep, canStop_of_stop hcompiled hsound hinside hstep⟩⟩

theorem compiled_run_is_safe_of_scan :
    let program : Program := .ofList [.repeated .add 1, .of (.scan .right) 1]
    let m : Machine := { program, traced := true, profiled := true }
    Program.ofSource "+[>]" true = .ok m.program ∧
      ∃ halt, m.Halts (.initial ⟨2, Nat.two_pos⟩ []) halt ∧ halt.stop? = none ∧
        halt.state.Sound ⟨2, Nat.two_pos⟩ 2 ∧ halt.state.pc = 2 := by
  intro program m
  have hprogram : Program.ofSource "+[>]" true = .ok m.program := rfl
  obtain ⟨-, -, hsafe⟩ := compiled_run_is_safe hprogram ⟨2, Nat.two_pos⟩ []
  have hhalts : m.Halts (.initial ⟨2, Nat.two_pos⟩ []) _ := ⟨3, rfl⟩
  obtain ⟨hsound, hend, -⟩ := hsafe _ hhalts
  exact ⟨hprogram, _, hhalts, rfl, hsound, hend rfl⟩

end Machine

end TapeLang
