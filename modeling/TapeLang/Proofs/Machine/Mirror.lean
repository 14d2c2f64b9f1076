import TapeLang.Proofs.Compilation.Mirror
import TapeLang.Proofs.Machine.Stop
import TapeLang.Proofs.Machine.Streams
import TapeLang.Proofs.Tape.Mirror

/-!
# Left and right

The machine does not tell left from right.  On the mirrored program, from a state with the mirrored
tape, it takes the mirrored steps: it moves, scans and carries the other way, at opposite positions,
and it uses its streams in the same way.  Where the one run would leave the tape at one end, the
other one would leave it at the other end, and the positions in their faults are opposite.

What the records hold has no part in this, but whether they can be written has.  It is the same on
both sides, as mirroring keeps the arguments (`overlong_iff_of_mirrors`).  Only the text of a fault
makes a difference: one of two opposite positions may have a digit more than the other.
-/

namespace TapeLang

/-! ## Mirrored states and faults -/

/-- The cause on the mirrored tape of a given size. -/
def FaultCause.mirror (size : Nat) : FaultCause → FaultCause
  | outOfBounds target => outOfBounds (size - 1 - target)
  | unrecognized label => unrecognized label

/-- The fault on the mirrored tape of a given size. -/
def Fault.mirror (size : Nat) (f : Fault) : Fault :=
  ⟨f.cause.mirror size, f.pc, size - 1 - f.dp⟩

/-- The reason to stop on the mirrored tape of a given size. -/
def Stop.mirror (size : Nat) : Stop → Stop
  | fault f => fault (f.mirror size)
  | outside => outside
  | shortage s => shortage s

/-- The tape of the second state is the mirrored tape of the first one, and the states agree in
everything else but their records. -/
structure State.Mirrors (s t : State) : Prop where
  pc : t.pc = s.pc
  tape : t.tape = s.tape.mirror
  input : t.input = s.input
  log : t.log = s.log

/-- The program of the second machine is the mirrored program of the first one, and the machines
agree in everything else. -/
structure Machine.Mirrors (m n : Machine) : Prop where
  program : n.program = m.program.mirror
  memory : n.memory = m.memory
  flushes : n.flushes = m.flushes
  traced : n.traced = m.traced
  profiled : n.profiled = m.profiled

/-- Two steps that mirror each other on tapes of a given size. -/
inductive Step.Mirrors (size : Nat) : Step → Step → Prop where
  | next {s t : State} (hmirrors : s.Mirrors t) : Mirrors size (.next s) (.next t)
  | stop (reason : Stop) {s t : State} (hmirrors : s.Mirrors t) :
      Mirrors size (.stop reason s) (.stop (reason.mirror size) t)
  | endless : Mirrors size .endless .endless

namespace State.Mirrors

variable {s t : State}

theorem symm (hmirrors : s.Mirrors t) : t.Mirrors s where
  pc := hmirrors.pc.symm
  tape := by rw [hmirrors.tape, Tape.mirror_mirror]
  input := hmirrors.input.symm
  log := hmirrors.log.symm

theorem logged (hmirrors : s.Mirrors t) (event : StreamEvent) :
    (s.logged event).Mirrors (t.logged event) :=
  { hmirrors with log := congrArg (·.push event) hmirrors.log }

theorem readInto (hmirrors : s.Mirrors t) (count : Nat) :
    (s.readInto count).Mirrors (t.readInto count) := by
  induction count generalizing s t with
  | zero => exact hmirrors
  | succ count ih =>
      have hleft : ({ s with input := s.input.tail } : State).Mirrors
          { t with input := s.input.tail } := { hmirrors with input := rfl }
      have hafter := hleft.logged (.read s.input.head?)
      rw [readInto_succ, readInto_succ, readByte_eq, readByte_eq, inputAt, inputAt, hmirrors.input]
      refine ih { hafter with tape := ?_ }
      show t.tape.write _ = (s.tape.write _).mirror
      rw [hmirrors.tape, Tape.write_mirror]

theorem flush {m n : Machine} (hflushes : n.flushes = m.flushes) (hmirrors : s.Mirrors t) :
    (m.flush s).Mirrors (n.flush t) := by
  rw [Machine.flush, Machine.flush, hflushes]
  split
  · exact hmirrors.logged .flush
  · exact hmirrors

theorem note (hmirrors : s.Mirrors t) (m n : Machine) (op : Operation) (arg : Int) :
    (m.note op arg s).Mirrors (n.note op.mirror arg t) := by
  unfold Machine.note
  split <;> split <;> exact { hmirrors with }

theorem countLoop (hmirrors : s.Mirrors t) (m n : Machine) (last : Int) :
    (m.countLoop last s).Mirrors (n.countLoop last t) := by
  unfold Machine.countLoop
  split <;> split <;> exact { hmirrors with }

/-! ### Moving, scanning and carrying -/

/-- The position at a distance in the other direction is opposite. -/
theorem dp_add_offset (hmirrors : s.Mirrors t) (d : Direction) (cells : Int) :
    (t.dp : Int) + d.flip.offset cells = s.tape.opposite (s.dp + d.offset cells) := by
  rw [dp, dp, hmirrors.tape, Tape.pos_mirror, Direction.offset_flip]
  unfold Tape.opposite
  omega

theorem stopWith (hmirrors : s.Mirrors t) (cause : FaultCause) :
    Step.Mirrors s.tape.size (s.stopWith cause) (t.stopWith (cause.mirror s.tape.size)) := by
  have hfault : t.faultOf (cause.mirror s.tape.size) = (s.faultOf cause).mirror s.tape.size := by
    rw [faultOf, faultOf, dp, hmirrors.pc, hmirrors.tape]
    rfl
  rw [State.stopWith, State.stopWith, hfault]
  exact .stop (.fault _) hmirrors

theorem moveTo (hmirrors : s.Mirrors t) (target : Int) :
    Step.Mirrors s.tape.size (s.moveTo target) (t.moveTo (s.tape.opposite target)) := by
  rw [State.moveTo, State.moveTo, hmirrors.tape, Tape.moveTo?_mirror]
  cases s.tape.moveTo? target with
  | some tape => exact .next { hmirrors with tape := rfl }
  | none => exact hmirrors.stopWith (.outOfBounds target)

theorem scan (hmirrors : s.Mirrors t) (stride : Int) :
    Step.Mirrors s.tape.size (s.scan stride) (t.scan (-stride)) := by
  have hends := s.tape.scanEnds_scan stride
  rw [State.scan, State.scan, hmirrors.tape, Tape.scan_mirror]
  cases hscan : s.tape.scan stride with
  | found tape => exact .next { hmirrors with tape := rfl }
  | blocked tape target =>
      have hsize : tape.size = s.tape.size := by
        rw [hscan] at hends
        cases hends with
        | blocked _ htape _ => exact Tape.size_of_moveTo? htape
      have hlast : ({ s with tape } : State).Mirrors { t with tape := tape.mirror } :=
        { hmirrors with tape := rfl }
      rw [← hsize]
      exact hlast.stopWith (.outOfBounds target)
  | endless => exact .endless

theorem carryTo (hmirrors : s.Mirrors t) (target : Int) :
    Step.Mirrors s.tape.size (s.carryTo target) (t.carryTo (s.tape.opposite target)) := by
  rw [State.carryTo, State.carryTo, hmirrors.tape, Tape.cell_mirror, Tape.carryTo?_mirror]
  split
  · exact .next hmirrors
  · cases s.tape.carryTo? target with
    | some tape => exact .next { hmirrors with tape := rfl }
    | none => exact hmirrors.stopWith (.outOfBounds target)

end State.Mirrors

namespace Machine

variable {m n : Machine} {s t : State}

theorem Mirrors.symm (hmachines : m.Mirrors n) : n.Mirrors m where
  program := by rw [hmachines.program, Program.mirror_mirror]
  memory := hmachines.memory.symm
  flushes := hmachines.flushes.symm
  traced := hmachines.traced.symm
  profiled := hmachines.profiled.symm

/-! ## Steps -/

theorem Mirrors.writeOut (hmachines : m.Mirrors n) (hmirrors : s.Mirrors t) (count : Int) :
    Step.Mirrors s.tape.size (m.writeOut count s) (n.writeOut count t) := by
  rw [Machine.writeOut, Machine.writeOut, hmachines.memory]
  cases m.memory.shortage? count with
  | none =>
      rw [State.writeOut, State.writeOut, hmirrors.tape, Tape.cell_mirror]
      exact .next (hmirrors.logged _)
  | some shortage => exact .stop (.shortage shortage) hmirrors

theorem Mirrors.performPrimitive (hmachines : m.Mirrors n) (hmirrors : s.Mirrors t)
    (p : Primitive) (count : Int) :
    Step.Mirrors s.tape.size (m.performPrimitive p count s)
      (n.performPrimitive p.mirror count t) := by
  cases p with
  | move d =>
      have hmove := hmirrors.moveTo (s.dp + d.offset count)
      rw [← hmirrors.dp_add_offset] at hmove
      exact hmove
  | add =>
      refine .next { hmirrors with tape := ?_ }
      rw [hmirrors.tape, Tape.add_mirror]
  | sub =>
      refine .next { hmirrors with tape := ?_ }
      rw [hmirrors.tape, Tape.add_mirror]
  | write => exact hmachines.writeOut hmirrors count
  | read => exact .next ((hmirrors.flush hmachines.flushes).readInto count.toNat)

theorem Mirrors.perform (hmachines : m.Mirrors n) (hmirrors : s.Mirrors t) (op : Operation)
    (arg : Int) :
    Step.Mirrors s.tape.size (m.perform op arg s) (n.perform op.mirror arg t) := by
  have hcell : t.tape.cell = s.tape.cell := by
    rw [hmirrors.tape, Tape.cell_mirror]
  cases op with
  | primitive p => exact hmachines.performPrimitive hmirrors p arg
  | jumpIfZero =>
      rw [Operation.mirror, Machine.perform, Machine.perform, hcell]
      split
      · exact .next { hmirrors.countLoop m n arg with pc := rfl }
      · exact .next hmirrors
  | jumpIfNonzero =>
      rw [Operation.mirror, Machine.perform, Machine.perform, hcell]
      split
      · exact .next hmirrors
      · exact .next { hmirrors with pc := rfl }
  | zero =>
      refine .next { hmirrors with tape := ?_ }
      rw [hmirrors.tape, Tape.write_mirror]
  | scan d =>
      have hscan := hmirrors.scan (d.offset arg)
      rw [← Direction.offset_flip] at hscan
      exact hscan
  | carry d =>
      have hcarry := hmirrors.carryTo (s.dp + d.offset arg)
      rw [← hmirrors.dp_add_offset] at hcarry
      exact hcarry

theorem Mirrors.step (hmachines : m.Mirrors n) (hmirrors : s.Mirrors t) :
    Step.Mirrors s.tape.size (m.step s) (n.step t) := by
  rw [Machine.step, Machine.step, hmachines.program, hmirrors.pc, Program.get?_mirror]
  cases m.program.get? s.pc with
  | none => exact .stop .outside hmirrors
  | some i =>
      obtain ⟨opcode, arg⟩ := i
      cases opcode with
      | foreign label unnamed => exact hmirrors.stopWith (.unrecognized label)
      | known op =>
          have hperform := hmachines.perform (hmirrors.note m n op arg) op arg
          rw [tape_note] at hperform
          show Step.Mirrors s.tape.size
            ((m.perform op arg (m.note op arg s)).map
              fun after => { after with pc := after.pc + 1 })
            ((n.perform op.mirror arg (n.note op.mirror arg t)).map
              fun after => { after with pc := after.pc + 1 })
          generalize m.perform op arg _ = first, n.perform op.mirror arg _ = second at hperform ⊢
          cases hperform with
          | next hafter => exact .next { hafter with pc := congrArg (· + 1) hafter.pc }
          | stop reason hlast => exact .stop reason hlast
          | endless => exact .endless

/-! ## What is written on the way -/

/-- Whether a text on the way can be written does not depend on the side.  The position of the head
does, but on a tape that is not too long every position can be written. -/
theorem Mirrors.overlong (hmachines : m.Mirrors n) (hmirrors : s.Mirrors t)
    (hsize : m.traced = true → s.tape.size ≤ Decimal.limit) (hlong : m.Overlong s) :
    n.Overlong t := by
  obtain ⟨op, arg, hnames, hrecord⟩ := hlong
  have hother : n.program.Names t.pc (.of op.mirror arg) := by
    rw [← Program.get?_eq_some_iff] at hnames ⊢
    rw [hmachines.program, hmirrors.pc, Program.get?_mirror, hnames]
    rfl
  refine ⟨op.mirror, arg, hother, ?_⟩
  rcases hrecord with ⟨htraced, hentry⟩ | ⟨hprofiled, rfl, hcell, hbody⟩
  · refine .inl ⟨hmachines.traced.trans htraced, fun hwritable => hentry ?_⟩
    have hpc : Decimal.Writable s.pc := hmirrors.pc ▸ hwritable.1
    have hdp : s.dp < Decimal.limit := Nat.lt_of_lt_of_le s.tape.pos_lt (hsize htraced)
    exact ⟨hpc, hwritable.2.1, Decimal.writable_natCast.mpr hdp⟩
  · refine .inr ⟨hmachines.profiled.trans hprofiled, rfl, ?_, ?_⟩
    · rw [hmirrors.tape, Tape.cell_mirror, hcell]
    · rwa [hmachines.program, hmirrors.pc, Program.renderable_mirror_iff]

theorem Mirrors.overlong_iff (hmachines : m.Mirrors n) (hmirrors : s.Mirrors t)
    (hsize : m.traced = true → s.tape.size ≤ Decimal.limit) : m.Overlong s ↔ n.Overlong t := by
  refine ⟨hmachines.overlong hmirrors hsize, hmachines.symm.overlong hmirrors.symm ?_⟩
  rwa [hmachines.traced, hmirrors.tape, Tape.size_mirror]

end Machine

/-! ## What comes out -/

/-- Two errors that come out of runs that mirror each other on tapes of a given size. -/
inductive Raised.Mirrors (size : Nat) : Raised → Raised → Prop where
  | stop (reason : Stop) {s t : State} (hpc : t.pc = s.pc) :
      Mirrors size (reason.raised s) ((reason.mirror size).raised t)
  | unwritable : Mirrors size (.crash .unwritable) (.crash .unwritable)

/-- Two steps that mirror each other on tapes of a given size, with the errors that come out. -/
inductive Attempt.Mirrors (size : Nat) : Attempt → Attempt → Prop where
  | next {s t : State} (hmirrors : s.Mirrors t) : Mirrors size (.next s) (.next t)
  | raised {error other : Raised} {s t : State} (herrors : Raised.Mirrors size error other)
      (hmirrors : s.Mirrors t) : Mirrors size (.raised error s) (.raised other t)
  | endless : Mirrors size .endless .endless

/-- The ends of two runs that mirror each other on tapes of a given size. -/
structure Ending.Mirrors (size : Nat) (e other : Ending) : Prop where
  state : e.state.Mirrors other.state
  raised? : Option.Rel (Raised.Mirrors size) e.raised? other.raised?

namespace Raised.Mirrors

variable {size : Nat} {error other : Raised}

/-- The error on the mirrored tape if there is a fault on the tape. -/
theorem of_fault {f : Fault} (herrors : Raised.Mirrors size (.fault f) other) :
    other =
      if (f.cause.mirror size).Writable then .fault (f.mirror size) else .crash .unwritable := by
  generalize hfault : Raised.fault f = error at herrors
  cases herrors with
  | stop reason hpc =>
      obtain ⟨rfl, -⟩ := Stop.raised_eq_fault_iff.mp hfault.symm
      rfl
  | unwritable => cases hfault

/-- A crash that is not about a text is the same on both tapes. -/
theorem of_crash {c : Crash} (herrors : Raised.Mirrors size (.crash c) other)
    (htext : c ≠ .unwritable) : other = .crash c := by
  generalize hcrash : Raised.crash c = error at herrors
  cases herrors with
  | stop reason hpc =>
      cases reason with
      | fault f =>
          rw [Stop.raised] at hcrash
          split at hcrash
          · cases hcrash
          · exact absurd (Raised.crash.inj hcrash) htext
      | outside => rw [Stop.mirror, Stop.raised, Stop.raised, hpc]
      | shortage missing => rw [Stop.mirror, Stop.raised, Stop.raised]
  | unwritable => exact absurd (Raised.crash.inj hcrash) htext

end Raised.Mirrors

namespace Ending.Mirrors

variable {size : Nat} {e other : Ending}

theorem raised?_eq_none_iff (hendings : e.Mirrors size other) :
    other.raised? = none ↔ e.raised? = none := by
  have hraised := hendings.raised?
  generalize e.raised? = first?, other.raised? = second? at hraised
  cases hraised <;> simp

theorem raised?_of_fault (hendings : e.Mirrors size other) {f : Fault}
    (hfault : e.raised? = some (.fault f)) :
    other.raised? =
      if (f.cause.mirror size).Writable then some (.fault (f.mirror size))
      else some (.crash .unwritable) := by
  have hraised := hendings.raised?
  rw [hfault] at hraised
  generalize other.raised? = second? at hraised
  cases hraised with
  | some herrors =>
      rw [herrors.of_fault]
      split <;> rfl

theorem raised?_of_crash (hendings : e.Mirrors size other) {c : Crash}
    (hcrash : e.raised? = some (.crash c)) (htext : c ≠ .unwritable) :
    other.raised? = some (.crash c) := by
  have hraised := hendings.raised?
  rw [hcrash] at hraised
  generalize other.raised? = second? at hraised
  cases hraised with
  | some herrors => rw [herrors.of_crash htext]

end Ending.Mirrors

namespace Machine

variable {m n : Machine} {s t : State}

theorem Mirrors.attempt (hmachines : m.Mirrors n) (hmirrors : s.Mirrors t)
    (hsize : m.traced = true → s.tape.size ≤ Decimal.limit) :
    Attempt.Mirrors s.tape.size (m.attempt s) (n.attempt t) := by
  have hiff := hmachines.overlong_iff hmirrors hsize
  by_cases hlong : m.Overlong s
  · obtain ⟨trace, hleft⟩ := attempt_of_overlong hlong
    obtain ⟨other, hright⟩ := attempt_of_overlong (hiff.mp hlong)
    rw [hleft, hright]
    exact .raised .unwritable { hmirrors with }
  · rw [attempt_of_not_overlong hlong,
      attempt_of_not_overlong fun hother => hlong (hiff.mpr hother)]
    have hsteps := hmachines.step hmirrors
    generalize m.step s = first, n.step t = second at hsteps
    cases hsteps with
    | next hafter => exact .next hafter
    | stop reason hlast => exact .raised (.stop reason hlast.pc) hlast
    | endless => exact .endless

theorem size_tape_of_attempt {after : State} (hattempt : m.attempt s = .next after) :
    after.tape.size = s.tape.size := by
  by_cases hlong : m.Overlong s
  · obtain ⟨trace, hraised⟩ := attempt_of_overlong hlong
    rw [hraised] at hattempt
    cases hattempt
  · rw [attempt_of_not_overlong hlong] at hattempt
    cases hstep : m.step s with
    | next next =>
        rw [hstep] at hattempt
        cases hattempt
        exact size_tape_of_step hstep
    | _ =>
        rw [hstep] at hattempt
        cases hattempt

/-! ## Runs -/

theorem attempts_mirrors (hmachines : m.Mirrors n) (hmirrors : s.Mirrors t)
    (hsize : m.traced = true → s.tape.size ≤ Decimal.limit) {budget : Nat} {e : Ending}
    (hrun : m.attempts budget s = some e) :
    ∃ other, n.attempts budget t = some other ∧ e.Mirrors s.tape.size other := by
  induction budget generalizing s t with
  | zero => cases hrun
  | succ budget ih =>
      rw [attempts] at hrun ⊢
      rw [hmachines.program, Program.size_mirror, hmirrors.pc]
      split at hrun
      · rename_i hinside
        rw [if_pos hinside]
        have hattempts := hmachines.attempt hmirrors hsize
        have hsame (after : State) (hattempt : m.attempt s = .next after) :
            after.tape.size = s.tape.size := size_tape_of_attempt hattempt
        generalize m.attempt s = first, n.attempt t = second at hrun hattempts hsame
        cases hattempts with
        | next hafter =>
            have hafterSize := hsame _ rfl
            exact hafterSize ▸ ih hafter (hafterSize ▸ hsize) hrun
        | raised herrors hlast =>
            cases hrun
            exact ⟨_, rfl, hlast.flush hmachines.flushes, .some herrors⟩
        | endless => cases hrun
      · rename_i houtside
        rw [if_neg houtside]
        cases hrun
        exact ⟨_, rfl, hmirrors.flush hmachines.flushes, .none⟩

theorem ends_mirrors (hmachines : m.Mirrors n) (hmirrors : s.Mirrors t)
    (hsize : m.traced = true → s.tape.size ≤ Decimal.limit) {e : Ending} (hends : m.Ends s e) :
    ∃ other, n.Ends t other ∧ e.Mirrors s.tape.size other := by
  obtain ⟨budget, hrun⟩ := hends
  obtain ⟨other, hother, hsame⟩ := attempts_mirrors hmachines hmirrors hsize hrun
  exact ⟨other, ⟨budget, hother⟩, hsame⟩

/-- Left and right are alike.  The mirrored text has the mirrored program, or it is refused in the
same place.  And from a state with the mirrored tape, the mirrored program ends exactly if the
program does, in the mirrored way: with the same output and as many bytes consumed, at the same
instruction, on the mirrored tape, and with the same faults at opposite positions.  Where a position
is too long for a message, with more than 4300 digits, the crash of the text comes out on that
side. -/
theorem left_and_right_are_alike :
    (∀ z, Decimal.Writable z ↔ (Nat.toDigits 10 z.natAbs).length ≤ 4300) ∧
    (∀ text optimize, Program.ofSource (mirrorText text) optimize =
      (Program.ofSource text optimize).map Program.mirror) ∧
    ∀ (m n : Machine) (s t : State), m.Mirrors n → s.Mirrors t →
      (m.traced = true → s.tape.size ≤ Decimal.limit) →
      ((∃ e, m.Ends s e) ↔ ∃ other, n.Ends t other) ∧
      ∀ e other, m.Ends s e → n.Ends t other →
        e.state.Mirrors other.state ∧ other.state.output = e.state.output ∧
        other.state.consumed = e.state.consumed ∧ (other.raised? = none ↔ e.raised? = none) ∧
        (∀ f, e.raised? = some (.fault f) → other.raised? =
          if (f.cause.mirror s.tape.size).Writable then some (.fault (f.mirror s.tape.size))
          else some (.crash .unwritable)) ∧
        (∀ f, other.raised? = some (.fault f) → e.raised? =
          if (f.cause.mirror s.tape.size).Writable then some (.fault (f.mirror s.tape.size))
          else some (.crash .unwritable)) ∧
        ∀ c, c ≠ .unwritable →
          (other.raised? = some (.crash c) ↔ e.raised? = some (.crash c)) := by
  refine ⟨fun _ => Decimal.writable_iff_length, ofSource_mirrorText,
    fun m n s t hmachines hmirrors hsize => ?_⟩
  have hsame : t.tape.size = s.tape.size := by rw [hmirrors.tape, Tape.size_mirror]
  have hother : n.traced = true → t.tape.size ≤ Decimal.limit := by
    rwa [hmachines.traced, hsame]
  refine ⟨⟨?_, ?_⟩, fun e other hends hotherEnds => ?_⟩
  · rintro ⟨e, hends⟩
    obtain ⟨other, hotherEnds, -⟩ := ends_mirrors hmachines hmirrors hsize hends
    exact ⟨other, hotherEnds⟩
  · rintro ⟨other, hotherEnds⟩
    obtain ⟨e, hends, -⟩ := ends_mirrors hmachines.symm hmirrors.symm hother hotherEnds
    exact ⟨e, hends⟩
  · -- The relation is read in both directions, as either side may be the one with the fault.
    obtain ⟨_, hright, hforth⟩ := ends_mirrors hmachines hmirrors hsize hends
    obtain rfl := hotherEnds.unique hright
    obtain ⟨_, hleft, hback⟩ := ends_mirrors hmachines.symm hmirrors.symm hother hotherEnds
    obtain rfl := hends.unique hleft
    rw [hsame] at hback
    refine ⟨hforth.state, ?_, ?_, hforth.raised?_eq_none_iff, fun f hfault => ?_,
      fun f hfault => ?_, fun c htext => ⟨?_, ?_⟩⟩
    · rw [State.output, State.output, hforth.state.log]
    · rw [State.consumed, State.consumed, State.taken, State.taken, hforth.state.log]
    · exact hforth.raised?_of_fault hfault
    · exact hback.raised?_of_fault hfault
    · exact fun hcrash => hback.raised?_of_crash hcrash htext
    · exact fun hcrash => hforth.raised?_of_crash hcrash htext

/-- The program leaves the tape behind its last cell, and the mirrored program leaves the mirrored
tape in front of its first one. -/
theorem left_and_right_are_alike_of_violation :
    let m : Machine := { program := .ofList [.repeated .add 7, .repeated (.move .right) 5] }
    let n : Machine := { program := .ofList [.repeated .add 7, .repeated (.move .left) 5] }
    let s : State := .initial ⟨3, by decide⟩ []
    let t : State := { tape := ⟨#[0, 0, 0], 2, by decide⟩, input := [] }
    m.Mirrors n ∧ s.Mirrors t ∧ (m.traced = true → s.tape.size ≤ Decimal.limit) ∧
      ∃ e other, m.Ends s e ∧ e.raised? = some (.fault ⟨.outOfBounds 5, 1, 0⟩) ∧
        n.Ends t other ∧ other.raised? = some (.fault ⟨.outOfBounds (-3), 1, 2⟩) ∧
        other.state.tape.cells = #[0, 0, 7] := by
  intro m n s t
  have hmachines : m.Mirrors n := ⟨Program.eq_mirror rfl, rfl, rfl, rfl, rfl⟩
  have hmirrors : s.Mirrors t := ⟨rfl, Tape.eq_mirror rfl rfl, rfl, rfl⟩
  have hsize : m.traced = true → s.tape.size ≤ Decimal.limit := nofun
  obtain ⟨halt, hhalts, hstop, hcells⟩ : ∃ halt, m.Halts s halt ∧
      halt.stop? = some (.fault ⟨.outOfBounds 5, 1, 0⟩) ∧
      halt.state.tape.cells.toList = [7, 0, 0] := ⟨_, ⟨2, rfl⟩, rfl, rfl⟩
  have hends := (ends_iff_halts (legible_of_no_records rfl rfl)).mpr ⟨halt, hhalts, rfl⟩
  have hraised := Halt.raised?_of_fault hstop (Decimal.writable_of_lt_ten (by decide))
  obtain ⟨hiff, hboth⟩ := left_and_right_are_alike.2.2 m n s t hmachines hmirrors hsize
  obtain ⟨other, hother⟩ := hiff.mp ⟨_, hends⟩
  obtain ⟨hstates, -, -, -, hfault, -⟩ := hboth _ other hends hother
  refine ⟨hmachines, hmirrors, hsize, _, other, hends, hraised, hother, ?_, ?_⟩
  · have hopposite : (FaultCause.outOfBounds (-3)).Writable :=
      Decimal.writable_of_lt_ten (by decide)
    exact (hfault _ hraised).trans (if_pos hopposite)
  · rw [hstates.tape]
    apply Array.ext'
    rw [Tape.toList_cells_mirror, Halt.ending, hcells]
    rfl

/-- The mirrored position has one digit more, which is one too many for the message. -/
theorem violation_on_one_side :
    let m : Machine := { program := .ofList [.repeated (.move .left) (Decimal.limit - 1)] }
    let n : Machine := { program := .ofList [.repeated (.move .right) (Decimal.limit - 1)] }
    let s : State := .initial ⟨2, by decide⟩ []
    let t : State := { tape := ⟨#[0, 0], 1, by decide⟩, input := [] }
    m.Mirrors n ∧ s.Mirrors t ∧ 4300 < (Nat.toDigits 10 Decimal.limit).length ∧
      (∃ e f, m.Ends s e ∧ e.raised? = some (.fault f) ∧
        f.cause = .outOfBounds (1 - Decimal.limit)) ∧
      (∃ other, n.Ends t other ∧ other.raised? = some (.crash .unwritable)) ∧
      ¬ ∃ other f, n.Ends t other ∧ other.raised? = some (.fault f) := by
  intro m n s t
  have hfar := Decimal.ten_le_limit
  refine ⟨⟨Program.eq_mirror rfl, rfl, rfl, rfl, rfl⟩, ⟨rfl, Tape.eq_mirror rfl rfl, rfl, rfl⟩,
    Decimal.lt_length_limit, ?_, ?_⟩
  · have hshort : Decimal.Writable (1 - Decimal.limit) := by
      unfold Decimal.Writable
      omega
    have htarget : (0 : Nat) + -((Decimal.limit : Int) - 1) = 1 - Decimal.limit := by omega
    have houtside : ¬ s.tape.Holds (1 - Decimal.limit) := fun hholds =>
      absurd hholds.1 (by omega)
    have hasks := asks_of_move (m := m) (s := s) (d := .left) ⟨0, rfl, .inl rfl⟩ htarget houtside
    obtain ⟨last, hraised, -⟩ := raises_outOfBounds_iff.mpr
      ⟨not_overlong_of_no_records rfl rfl, hshort, hasks⟩
    exact ⟨_, _, ends_of_raised (by decide) hraised, rfl, rfl⟩
  · have htarget : (1 : Nat) + ((Decimal.limit : Int) - 1) = Decimal.limit := by omega
    have hasks := asks_of_move (m := n) (s := t) (d := .right) ⟨0, rfl, .inl rfl⟩ htarget
      (Tape.not_holds_limit (by decide))
    obtain ⟨last, hraised⟩ := attempt_of_long_target hasks Decimal.not_writable_limit
    have hends := ends_of_raised (by decide) hraised
    exact ⟨⟨_, hends, rfl⟩, not_exists_fault_of_ends hends rfl⟩

end Machine

end TapeLang
