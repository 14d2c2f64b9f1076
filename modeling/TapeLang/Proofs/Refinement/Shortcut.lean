import TapeLang.Proofs.Compilation.Fusion
import TapeLang.Proofs.Machine.Events
import TapeLang.Proofs.Machine.Row
import TapeLang.Proofs.Machine.Scanning
import TapeLang.Proofs.Tape.Round

/-!
# Each shortcut does what its loop does

`fuse?` gives a shortcut for some bodies of loops.  Here a machine on nothing but such a loop is
compared with a machine on nothing but the shortcut, from one state, on any tape and with the head
anywhere on it.  The strides may be any integers but zero.  With no stride at all this is wrong: a
loop that carries a value over no cells never ends, while its shortcut clears the cell.

A row of counted primitives is followed instruction by instruction (`arrives_row`), and a loop
around it round by round (`arrives_loop`).  So the machine makes of a tape what `Tape.LoopEnds`
says, and `exists_shortcut` compares this with one step of the shortcut.

The streams are not followed.  A program that neither writes nor reads leaves them alone
(`silent_of_quiet`).
-/

namespace TapeLang

/-- The instructions of a loop with a body, and nothing else. -/
def loopAround (body : List Instruction) : List Instruction :=
  .of .jumpIfZero (body.length + 1 : Nat) :: (body ++ [.of .jumpIfNonzero 0])

/-- The run was stopped where the head was to go to a position outside the tape. -/
def Halt.BlockedAt (halt : Halt) (target : Int) : Prop :=
  halt.stop? = some (.fault (halt.state.faultOf (.outOfBounds target)))

/-- The run has completed with a tape, or it was stopped with one. -/
def Halt.EndsAs (halt : Halt) : Except Tape.Blocked Tape → Prop
  | .ok t => halt.stop? = none ∧ halt.state.tape = t
  | .error b => halt.BlockedAt b.target ∧ halt.state.tape = b.tape

/-- The head was to go to a position outside the tape, and that came out: as a fault, or as a crash
if the position is too long for the message. -/
def Ending.BlockedAt (e : Ending) (target : Int) : Prop :=
  e.raised? =
    if Decimal.Writable target then some (.fault (e.state.faultOf (.outOfBounds target)))
    else some (.crash .unwritable)

theorem Halt.BlockedAt.ending {halt : Halt} {target : Int} (hblocked : halt.BlockedAt target) :
    halt.ending.BlockedAt target := by
  unfold Ending.BlockedAt
  split
  · exact Halt.raised?_of_fault hblocked ‹Decimal.Writable target›
  · exact Halt.raised?_of_long hblocked ‹¬ Decimal.Writable target›

/-- An instruction that neither writes nor reads. -/
def Instruction.Quiet (i : Instruction) : Prop :=
  i.opcode ≠ .known (.primitive .write) ∧ i.opcode ≠ .known (.primitive .read)

namespace Machine

variable {m n : Machine} {s : State} {halt : Halt} {t : Tape} {b : Tape.Blocked}
  {result : Except Tape.Blocked Tape} {op : Operation} {arg : Int} {place : Nat}

/-! ## Programs that use no stream -/

/-- A run from one state to another has neither written nor read.  The output may have been flushed
in the end. -/
structure Silent (m : Machine) (s last : State) : Prop where
  input : last.input = s.input
  log : last.log.toList = s.log.toList ++ m.flushEvents

theorem uses_of_quiet (hquiet : ∀ i ∈ m.program.toList, i.Quiet) (s : State) : m.uses s = [] := by
  unfold uses
  split
  · rename_i op arg hget
    obtain ⟨place, hplace, -⟩ := Program.get?_eq_some_iff.mp hget
    obtain ⟨hwrite, hread⟩ := hquiet _ (List.mem_of_getElem? hplace)
    unfold eventsOf
    split
    · exact absurd rfl hwrite
    · exact absurd rfl hread
    · rfl
  · rfl

theorem silent_of_quiet (hquiet : ∀ i ∈ m.program.toList, i.Quiet) (hhalts : m.Halts s halt) :
    m.Silent s halt.state := by
  have hlog : halt.state.log.toList = s.log.toList ++ m.flushEvents := by
    obtain ⟨budget, hrun⟩ := hhalts
    have hnothing : (m.system.starts budget s).flatMap m.uses = [] :=
      List.flatMap_eq_nil_iff.mpr fun state _ => uses_of_quiet hquiet state
    rw [log_of_run hrun, hnothing, List.nil_append]
  refine ⟨?_, hlog⟩
  -- What was taken from the input was taken before, so all the rest is still there.
  have htaken : halt.state.taken = s.taken := by
    have hflush : m.flushEvents.flatMap StreamEvent.taken = [] := by
      unfold flushEvents
      split <;> rfl
    rw [State.taken, hlog, List.flatMap_append, hflush, List.append_nil, State.taken]
  have hgiven := given_of_halts hhalts
  rw [State.given, State.given, htaken] at hgiven
  exact List.append_cancel_left hgiven

/-! ## Steps that change the tape -/

/-- What one step makes of the tape. -/
def StepMakes (m : Machine) (s : State) : Except Tape.Blocked Tape → Prop
  | .ok t => ∃ after, m.step s = .next after ∧ after.pc = s.pc + 1 ∧ after.tape = t
  | .error b => ∃ last, m.step s = .stop (.fault (last.faultOf (.outOfBounds b.target))) last ∧
      last.tape = b.tape

theorem stepMakes_of_next (hget : m.program.get? s.pc = some (.of op arg))
    (hperform : m.perform op arg (m.note op arg s) = .next { m.note op arg s with tape := t }) :
    m.StepMakes s (.ok t) := by
  refine ⟨_, by rw [step_of_get? hget, hperform]; rfl, ?_, rfl⟩
  exact congrArg (· + 1) (pc_note op arg)

theorem stepMakes_of_stop {last : State} (hget : m.program.get? s.pc = some (.of op arg))
    (hperform : m.perform op arg (m.note op arg s) = last.stopWith (.outOfBounds b.target))
    (htape : last.tape = b.tape) : m.StepMakes s (.error b) :=
  ⟨last, step_of_stop hget hperform, htape⟩

theorem stepMakes_move {d : Direction} {moved : Tape}
    (hmoved : s.tape.moveTo? (s.tape.pos + d.offset arg) = some moved)
    (hget : m.program.get? s.pc = some (.repeated (.move d) arg)) : m.StepMakes s (.ok moved) := by
  apply stepMakes_of_next hget
  simp only [perform, performPrimitive, State.moveTo, State.dp, tape_note, hmoved]

theorem stepMakes_move_blocked {d : Direction}
    (hblocked : s.tape.moveTo? (s.tape.pos + d.offset arg) = none)
    (hget : m.program.get? s.pc = some (.repeated (.move d) arg)) :
    m.StepMakes s (.error ⟨s.tape, s.tape.pos + d.offset arg⟩) := by
  refine stepMakes_of_stop hget ?_ (tape_note (m := m) (.primitive (.move d)) arg)
  simp only [perform, performPrimitive, State.moveTo, State.dp, tape_note, hblocked]

theorem stepMakes_add (hget : m.program.get? s.pc = some (.repeated .add arg)) :
    m.StepMakes s (.ok (s.tape.add arg)) := by
  apply stepMakes_of_next hget
  simp only [perform, performPrimitive, tape_note]

theorem stepMakes_sub (hget : m.program.get? s.pc = some (.repeated .sub arg)) :
    m.StepMakes s (.ok (s.tape.add (-arg))) := by
  apply stepMakes_of_next hget
  simp only [perform, performPrimitive, tape_note]

/-! ## Rows and loops -/

/-- The machine gets to a place with a tape, or it is stopped with one on the way. -/
def Arrives (m : Machine) (s : State) (place : Nat) : Except Tape.Blocked Tape → Prop
  | .ok t => ∃ turns after, m.system.Goes turns s after ∧ after.pc = place ∧ after.tape = t
  | .error b => ∃ halt, m.system.Halts s halt ∧ halt.EndsAs (.error b)

theorem endsAs_of_stop {last : State} {target : Int} (htape : last.tape = t) :
    Halt.EndsAs ⟨m.flush last, some (.fault (last.faultOf (.outOfBounds target)))⟩
      (.error ⟨t, target⟩) := by
  subst htape
  have hfault (cause : FaultCause) : (m.flush last).faultOf cause = last.faultOf cause := by
    rw [State.faultOf, State.faultOf, State.dp, State.dp, pc_flush, tape_flush]
  exact ⟨by rw [Halt.BlockedAt, hfault], tape_flush⟩

theorem arrives_of_goes {turns : Nat} {after : State} (hgoes : m.system.Goes turns s after)
    (harrives : m.Arrives after place result) : m.Arrives s place result := by
  cases result with
  | ok t =>
      obtain ⟨more, last, hrest, hlast⟩ := harrives
      exact ⟨turns + more, last, hgoes.trans hrest, hlast⟩
  | error b =>
      obtain ⟨halt, hhalts, hends⟩ := harrives
      exact ⟨halt, hgoes.halts hhalts, hends⟩

theorem arrives_of_stepMakes (hpc : s.pc = place) (hlt : place < m.program.size)
    (hmakes : m.StepMakes s result) : m.Arrives s (place + 1) result := by
  have hinside : s.pc < m.program.size := by omega
  cases result with
  | ok t =>
      obtain ⟨after, hstep, hafter, htape⟩ := hmakes
      exact ⟨1, after, System.goes_one (turn_of_next hinside hstep), by omega, htape⟩
  | error b =>
      obtain ⟨last, hstep, htape⟩ := hmakes
      exact ⟨_, System.halts_of_ended (turn_of_stop hinside hstep), endsAs_of_stop htape⟩

/-- The first instruction of a row goes through, and the machine then gets behind the others. -/
theorem arrives_cons {i : Instruction} {rest : List Instruction}
    (hrow : m.program.HasAt place (i :: rest)) (hpc : s.pc = place)
    (hmakes : m.program.get? s.pc = some i → m.StepMakes s (.ok t))
    (hrest : ∀ after : State, m.program.HasAt (place + 1) rest → after.pc = (place + 1 : Nat) →
      after.tape = t → m.Arrives after (place + 1 + rest.length) result) :
    m.Arrives s (place + (i :: rest).length) result := by
  rw [Program.hasAt_cons] at hrow
  have hget := Program.get?_of_getElem? hrow.1
  rw [← hpc] at hget
  obtain ⟨turns, after, hgoes, hafter, htape⟩ :=
    arrives_of_stepMakes hpc (Program.lt_size_of_getElem? hrow.1) (hmakes hget)
  rw [List.length_cons, Nat.add_comm rest.length, ← Nat.add_assoc]
  exact arrives_of_goes hgoes (hrest after hrow.2 hafter htape)

theorem arrives_row {row : List Instruction} (hrow : m.program.HasAt place row)
    (hpc : s.pc = place) (hends : Tape.RowEnds row s.tape result) :
    m.Arrives s (place + row.length) result := by
  generalize htape : s.tape = t at hends
  induction hends generalizing s place with
  | done t => exact ⟨0, s, .refl s, hpc, htape⟩
  | add _ ih =>
      subst htape
      exact arrives_cons hrow hpc stepMakes_add fun after hrest => ih hrest
  | sub _ ih =>
      subst htape
      exact arrives_cons hrow hpc stepMakes_sub fun after hrest => ih hrest
  | move hmoved _ ih =>
      subst htape
      exact arrives_cons hrow hpc (stepMakes_move hmoved) fun after hrest => ih hrest
  | blocked hblocked =>
      subst htape
      have hhead := (Program.hasAt_cons.mp hrow).1
      have hget := Program.get?_of_getElem? hhead
      rw [← hpc] at hget
      -- Where the machine is stopped, it does not matter how long the row is.
      exact (arrives_of_stepMakes hpc (Program.lt_size_of_getElem? hhead)
        (stepMakes_move_blocked hblocked hget) :)

theorem pair_of_loopAround {body : List Instruction} (hloop : m.program.toList = loopAround body) :
    m.program.Pair 0 (body.length + 1) where
  lt := Nat.succ_pos _
  forth := by rw [hloop]; rfl
  back := by
    rw [hloop, loopAround, List.getElem?_cons_succ, List.getElem?_concat_length]
    rfl

/-- Both jumps of the loop leave the tape alone and go on behind the loop on a zero cell, and to the
first instruction of its body on any other. -/
theorem goes_loopAround {body : List Instruction} (hloop : m.program.toList = loopAround body)
    (hpc : s.pc = (0 : Nat) ∨ s.pc = (body.length + 1 : Nat)) :
    ∃ after, m.system.Goes 1 s after ∧ after.tape = s.tape ∧
      after.pc = (if s.tape.cell = 0 then body.length + 2 else 1 : Nat) := by
  obtain ⟨after, hgoes, hworld, hafter, -⟩ := @goes_test m s (fun _ => True) 0 (body.length + 1)
    (pair_of_loopAround hloop) hpc trivial fun _ _ _ => trivial
  refine ⟨after, hgoes, congrArg World.tape hworld, ?_⟩
  rw [hafter, State.world]
  split <;> rfl

theorem arrives_loop {body : List Instruction} (hloop : m.program.toList = loopAround body)
    (hpc : s.pc = (0 : Nat) ∨ s.pc = (body.length + 1 : Nat))
    (hends : Tape.LoopEnds body s.tape result) : m.Arrives s (body.length + 2) result := by
  have hbody : m.program.HasAt 1 body := by
    have hwhole := Program.hasAt_zero hloop
    rw [loopAround, Program.hasAt_cons, Program.hasAt_append] at hwhole
    exact hwhole.2.1
  generalize htape : s.tape = t at hends
  -- After each round the machine is back at one of the two jumps, so the start may be either.
  induction hends generalizing s with
  | exit hzero =>
      obtain ⟨after, hgoes, hafterTape, hafter⟩ := goes_loopAround hloop hpc
      rw [htape, if_pos hzero] at hafter
      exact ⟨1, after, hgoes, hafter, hafterTape.trans htape⟩
  | again hcell hround _ ih =>
      obtain ⟨after, hgoes, hafterTape, hafter⟩ := goes_loopAround hloop hpc
      rw [htape, if_neg hcell] at hafter
      rw [← htape, ← hafterTape] at hround
      obtain ⟨turns, last, hrowGoes, hlast, hlastTape⟩ := arrives_row hbody hafter hround
      refine arrives_of_goes (hgoes.trans hrowGoes) (ih (.inr ?_) hlastTape)
      rw [hlast, Nat.add_comm]
  | blocked hcell hround =>
      obtain ⟨after, hgoes, hafterTape, hafter⟩ := goes_loopAround hloop hpc
      rw [htape, if_neg hcell] at hafter
      rw [← htape, ← hafterTape] at hround
      exact (arrives_of_goes hgoes (arrives_row hbody hafter hround) :)

/-- A machine that gets to the end of its program halts there. -/
theorem halts_of_arrives (harrives : m.Arrives s m.program.size result) :
    ∃ halt, m.Halts s halt ∧ halt.EndsAs result := by
  cases result with
  | ok t =>
      obtain ⟨turns, last, hgoes, hlast, htape⟩ := harrives
      have hended := turn_of_end (Int.le_of_eq hlast.symm)
      refine ⟨_, system_halts_iff.mp (hgoes.halts (System.halts_of_ended hended)), rfl, ?_⟩
      exact tape_flush.trans htape
  | error b =>
      obtain ⟨halt, hhalts, hends⟩ := harrives
      exact ⟨halt, system_halts_iff.mp hhalts, hends⟩

theorem halts_of_loopEnds {body : List Instruction} (hloop : m.program.toList = loopAround body)
    (hpc : s.pc = 0) (hends : Tape.LoopEnds body s.tape result) :
    ∃ halt, m.Halts s halt ∧ halt.EndsAs result := by
  have hsize : m.program.size = body.length + 2 := by
    rw [← Program.length_toList, hloop, loopAround, List.length_cons, List.length_append]
    rfl
  have harrives := arrives_loop hloop (.inl hpc) hends
  rw [← hsize] at harrives
  exact halts_of_arrives harrives

theorem halts_of_stepMakes {i : Instruction} (hsingle : m.program.toList = [i]) (hpc : s.pc = 0)
    (hmakes : m.StepMakes s result) : ∃ halt, m.Halts s halt ∧ halt.EndsAs result := by
  have hsize : m.program.size = 0 + 1 := by
    rw [← Program.length_toList, hsingle]
    rfl
  have harrives : m.Arrives s (0 + 1) result := arrives_of_stepMakes hpc (by omega) hmakes
  rw [← hsize] at harrives
  exact halts_of_arrives harrives

/-! ## Shortcuts -/

theorem stepMakes_zero (hget : m.program.get? s.pc = some (.of .zero arg)) :
    m.StepMakes s (.ok (s.tape.write 0)) := by
  apply stepMakes_of_next hget
  simp only [perform, tape_note]

theorem stepMakes_scan {d : Direction} (hget : m.program.get? s.pc = some (.of (.scan d) arg))
    (hresult : (s.tape.scan (d.offset arg)).result? = some result) : m.StepMakes s result := by
  cases hscan : s.tape.scan (d.offset arg) with
  | found last =>
      rw [hscan] at hresult
      cases hresult
      obtain ⟨trace, hstep⟩ := step_of_found hget hscan
      exact ⟨_, hstep, rfl, rfl⟩
  | blocked last target =>
      rw [hscan] at hresult
      cases hresult
      obtain ⟨trace, hstep⟩ := step_of_blocked hget hscan
      exact ⟨{ s with trace, tape := last }, hstep, rfl⟩
  | endless =>
      rw [hscan] at hresult
      cases hresult

theorem stepMakes_carry_idle {d : Direction}
    (hget : m.program.get? s.pc = some (.of (.carry d) arg)) (hcell : s.tape.cell = 0) :
    m.StepMakes s (.ok s.tape) := by
  apply stepMakes_of_next hget
  have hsame := tape_note (m := m) (s := s) (.carry d) arg
  rw [perform, State.carryTo, hsame, if_pos hcell, ← hsame]

theorem stepMakes_carry {d : Direction} (hget : m.program.get? s.pc = some (.of (.carry d) arg))
    (hcell : s.tape.cell ≠ 0) {carried : Tape}
    (hcarry : s.tape.carryTo? (s.tape.pos + d.offset arg) = some carried) :
    m.StepMakes s (.ok carried) := by
  apply stepMakes_of_next hget
  simp only [perform, State.carryTo, State.dp, tape_note, if_neg hcell, hcarry]

theorem stepMakes_carry_blocked {d : Direction}
    (hget : m.program.get? s.pc = some (.of (.carry d) arg)) (hcell : s.tape.cell ≠ 0)
    (hcarry : s.tape.carryTo? (s.tape.pos + d.offset arg) = none) :
    m.StepMakes s (.error ⟨s.tape, s.tape.pos + d.offset arg⟩) := by
  refine stepMakes_of_stop hget ?_ (tape_note (m := m) (.carry d) arg)
  simp only [perform, State.carryTo, State.dp, tape_note, if_neg hcell, hcarry]

/-- What a loop and its shortcut make of a tape.  If they go wrong, the loop around a carry has
already taken one off the cell. -/
inductive EndsAlike (fused : Instruction) (t : Tape) :
    Except Tape.Blocked Tape → Except Tape.Blocked Tape → Prop where
  | completed (last : Tape) : EndsAlike fused t (.ok last) (.ok last)
  | blocked {last : Tape} {target : Int} (hcarry : ∀ d, fused.opcode ≠ .known (.carry d))
      (houtside : ¬ t.Holds target) :
      EndsAlike fused t (.error ⟨last, target⟩) (.error ⟨last, target⟩)
  | carry {d : Direction} {target : Int} (hcarry : fused.opcode = .known (.carry d))
      (houtside : ¬ t.Holds target) :
      EndsAlike fused t (.error ⟨t.add (-1), target⟩) (.error ⟨t, target⟩)

theorem exists_scan_result? {d : Direction} {stride : Int} (hstride : stride ≠ 0) (t : Tape) :
    ∃ result, (t.scan (d.offset stride)).result? = some result ∧
      EndsAlike (.of (.scan d) stride) t result result := by
  have hends := t.scanEnds_scan (d.offset stride)
  cases hscan : t.scan (d.offset stride) with
  | found last => exact ⟨_, rfl, .completed last⟩
  | blocked last target =>
      rw [hscan] at hends
      cases hends with
      | blocked hpasses hlast houtside => exact ⟨_, rfl, .blocked nofun houtside⟩
  | endless => exact absurd hscan (t.scan_ne_endless (d.offset_ne_zero hstride))

/-- A shortcut makes of the tape in one step what its loop makes of it in all rounds. -/
theorem exists_shortcut {body : List Instruction} {fused : Instruction} (hfused : Fused body fused)
    (hstride : fused.opcode = .known .zero ∨ fused.arg ≠ 0)
    (hget : m.program.get? s.pc = some fused) :
    ∃ slow fast, Tape.LoopEnds body s.tape slow ∧ m.StepMakes s fast ∧
      EndsAlike fused s.tape slow fast := by
  cases hfused with
  | zero => exact ⟨_, _, Tape.loopEnds_clear s.tape, stepMakes_zero hget, .completed _⟩
  | scan d stride =>
      have hmoves : stride ≠ 0 := hstride.resolve_left nofun
      obtain ⟨result, hresult, halike⟩ := exists_scan_result? (d := d) hmoves s.tape
      exact ⟨result, result, Tape.loopEnds_scan hresult, stepMakes_scan hget hresult, halike⟩
  | carry d distance =>
      have hmoves : distance ≠ 0 := hstride.resolve_left nofun
      by_cases hcell : s.tape.cell = 0
      · exact ⟨_, _, .exit hcell, stepMakes_carry_idle hget hcell, .completed _⟩
      · cases hcarry : s.tape.carryTo? (s.tape.pos + d.offset distance) with
        | some carried =>
            exact ⟨_, _, Tape.loopEnds_carry hmoves hcarry, stepMakes_carry hget hcell hcarry,
              .completed carried⟩
        | none =>
            have houtside := Tape.carryTo?_eq_none_iff.mp hcarry
            exact ⟨_, _, Tape.loopEnds_carry_blocked hcell houtside,
              stepMakes_carry_blocked hget hcell hcarry, .carry rfl houtside⟩

/-! ## Whole runs -/

theorem quiet_of_fused {body : List Instruction} {fused : Instruction} (hfused : Fused body fused) :
    (∀ i ∈ loopAround body, i.Quiet) ∧ fused.Quiet := by
  cases hfused <;> simp [loopAround, Instruction.Quiet]

/-- A loop that is fused and its shortcut both halt, from any state in front of them and for any
stride but zero.  One completes if the other does, and then with the same tape and head.  Otherwise
the head was to leave the tape for the same position and from the same cell, and the same error
comes out, a crash if the position has more than 4300 digits; the tapes are the same, but for the
one that a carrying loop has already taken off the cell.  No stream is used. -/
theorem shortcut_does_what_loop_does {body : List Instruction} {fused : Instruction}
    (hfuse : fuse? body = some fused) (hstride : fused.opcode = .known .zero ∨ fused.arg ≠ 0)
    (hloop : m.program = .ofList (loopAround body)) (hsingle : n.program = .ofList [fused])
    (hpc : s.pc = 0) (hloopLegible : m.Legible s) (hsingleLegible : n.Legible s) :
    (∀ z, Decimal.Writable z ↔ (Nat.toDigits 10 z.natAbs).length ≤ 4300) ∧
    ∃ first second, m.Ends s first ∧ n.Ends s second ∧
      m.Silent s first.state ∧ n.Silent s second.state ∧
      (first.raised? = none ∧ second.raised? = none ∧ first.state.tape = second.state.tape ∨
        ∃ target, ¬ s.tape.Holds target ∧ first.BlockedAt target ∧ second.BlockedAt target ∧
          first.state.dp = second.state.dp ∧
          ((∀ d, fused.opcode ≠ .known (.carry d)) → first.state.tape = second.state.tape) ∧
          ∀ d, fused.opcode = .known (.carry d) →
            first.state.tape = s.tape.add (-1) ∧ second.state.tape = s.tape) := by
  have hfused := fused_of_fuse? hfuse
  have hloopList : m.program.toList = loopAround body := by rw [hloop, Program.toList_ofList]
  have hsingleList : n.program.toList = [fused] := by rw [hsingle, Program.toList_ofList]
  have hhead : n.program.toList[0]? = some fused := by
    rw [hsingleList]
    rfl
  have hget : n.program.get? s.pc = some fused := by
    rw [hpc]
    exact Program.get?_of_getElem? hhead
  obtain ⟨slow, fast, hends, hmakes, halike⟩ := exists_shortcut hfused hstride hget
  obtain ⟨first, hfirst, hfirstEnds⟩ := halts_of_loopEnds hloopList hpc hends
  obtain ⟨second, hsecond, hsecondEnds⟩ := halts_of_stepMakes hsingleList hpc hmakes
  obtain ⟨hloopQuiet, hfusedQuiet⟩ := quiet_of_fused hfused
  refine ⟨fun _ => Decimal.writable_iff_length, first.ending, second.ending,
    (ends_iff_halts hloopLegible).mpr ⟨first, hfirst, rfl⟩,
    (ends_iff_halts hsingleLegible).mpr ⟨second, hsecond, rfl⟩,
    silent_of_quiet (hloopList ▸ hloopQuiet) hfirst,
    silent_of_quiet (by rw [hsingleList]; simpa using hfusedQuiet) hsecond, ?_⟩
  cases halike with
  | completed last =>
      have hcompletes {halt : Halt} (hstop : halt.stop? = none) : halt.ending.raised? = none := by
        rw [Halt.ending, hstop, Option.map_none]
      exact .inl ⟨hcompletes hfirstEnds.1, hcompletes hsecondEnds.1,
        hfirstEnds.2.trans hsecondEnds.2.symm⟩
  | blocked hcarry houtside =>
      have htape := hfirstEnds.2.trans hsecondEnds.2.symm
      exact .inr ⟨_, houtside, hfirstEnds.1.ending, hsecondEnds.1.ending, congrArg Tape.pos htape,
        fun _ => htape, fun d hd => absurd hd (hcarry d)⟩
  | carry hcarry houtside =>
      have hdp : first.state.dp = second.state.dp := by
        rw [State.dp, State.dp, hfirstEnds.2, hsecondEnds.2, Tape.pos_add]
      exact .inr ⟨_, houtside, hfirstEnds.1.ending, hsecondEnds.1.ending, hdp,
        fun hother => absurd hcarry (hother _), fun _ _ => ⟨hfirstEnds.2, hsecondEnds.2⟩⟩

/-- A loop that carries a value one cell to the left, written as a move to the right by a negative
number of cells. -/
theorem shortcut_does_what_loop_does_of_carry :
    let body := Tape.carryRow .right (-1)
    let m : Machine := { program := .ofList (loopAround body) }
    let n : Machine := { program := .ofList [.of (.carry .right) (-1)] }
    let s : State := { tape := ⟨#[0, 3], 1, by decide⟩, input := [] }
    fuse? body = some (.of (.carry .right) (-1)) ∧ m.Legible s ∧ n.Legible s ∧
      ∃ first second, m.Ends s first ∧ n.Ends s second ∧ m.Silent s first.state ∧
        first.raised? = none ∧ second.raised? = none ∧ first.state.tape = second.state.tape ∧
        second.state.tape.cells = #[3, 0] := by
  intro body m n s
  have hfuse : fuse? body = some (.of (.carry .right) (-1)) := rfl
  have hloopLegible : m.Legible s := legible_of_no_records rfl rfl
  have hsingleLegible : n.Legible s := legible_of_no_records rfl rfl
  obtain ⟨-, first, second, hfirst, hsecond, hsilent, -, hends⟩ :=
    @shortcut_does_what_loop_does m n s _ _ hfuse (.inr (by decide)) rfl rfl rfl hloopLegible
      hsingleLegible
  have hhalts : n.Halts s _ := ⟨2, rfl⟩
  cases hsecond.unique ((ends_iff_halts hsingleLegible).mpr ⟨_, hhalts, rfl⟩)
  rcases hends with ⟨hcompletes, hother, htape⟩ | ⟨target, -, -, hblocked, -⟩
  · exact ⟨hfuse, hloopLegible, hsingleLegible, first, _, hfirst, hsecond, hsilent, hcompletes,
      hother, htape, rfl⟩
  · unfold Ending.BlockedAt at hblocked
    split at hblocked <;> cases hblocked

/-- Both the loop and its shortcut are to leave the tape for a position that is too long for the
message. -/
theorem loop_too_far_for_message :
    let body : List Instruction := [.repeated (.move .right) (Decimal.limit - 1)]
    let m : Machine := { program := .ofList (loopAround body) }
    let n : Machine := { program := .ofList [.of (.scan .right) (Decimal.limit - 1)] }
    let s : State := { tape := ⟨#[0, 1], 1, by decide⟩, input := [] }
    fuse? body = some (.of (.scan .right) (Decimal.limit - 1)) ∧
      (Decimal.limit : Int) - 1 ≠ 0 ∧ 4300 < (Nat.toDigits 10 Decimal.limit).length ∧
      (∃ first, m.Ends s first ∧ first.raised? = some (.crash .unwritable)) ∧
      (¬ ∃ first f, m.Ends s first ∧ first.raised? = some (.fault f)) ∧
      (∃ second, n.Ends s second ∧ second.raised? = some (.crash .unwritable)) ∧
      ¬ ∃ second f, n.Ends s second ∧ second.raised? = some (.fault f) := by
  intro body m n s
  let target : Int := s.tape.pos + Direction.right.offset (Decimal.limit - 1)
  have htarget : target = Decimal.limit := by
    show (1 : Nat) + ((Decimal.limit : Int) - 1) = Decimal.limit
    omega
  have houtside : ¬ s.tape.Holds target := by
    rw [htarget]
    exact Tape.not_holds_limit (by decide)
  have hlong : ¬ Decimal.Writable target := by
    rw [htarget]
    exact Decimal.not_writable_limit
  have hcell : s.tape.cell ≠ 0 := by decide
  have hblocked := Tape.moveTo?_eq_none_iff.mpr houtside
  obtain ⟨halt, hhalts, hended⟩ :=
    halts_of_loopEnds (m := m) (s := s) rfl rfl (.blocked hcell (.blocked hblocked))
  have hfirst : m.Ends s halt.ending :=
    (ends_iff_halts (legible_of_no_records rfl rfl)).mpr ⟨halt, hhalts, rfl⟩
  have hcrash : halt.ending.raised? = some (.crash .unwritable) :=
    hended.1.ending.trans (if_neg hlong)
  have hasks := asks_of_scan (m := n) (s := s) ⟨0, rfl, .inl rfl⟩ hcell rfl houtside
  obtain ⟨last, hraised⟩ := attempt_of_long_target hasks hlong
  have hsecond := ends_of_raised (by decide) hraised
  refine ⟨rfl, ?_, Decimal.lt_length_limit, ⟨_, hfirst, hcrash⟩,
    not_exists_fault_of_ends hfirst hcrash, ⟨_, hsecond, rfl⟩,
    not_exists_fault_of_ends hsecond rfl⟩
  have hfar := Decimal.ten_le_limit
  omega

end Machine

end TapeLang
