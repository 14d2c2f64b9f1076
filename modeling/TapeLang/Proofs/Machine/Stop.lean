import TapeLang.Proofs.Machine.Raise

/-!
# Why a step stops

This file is about steps of any machine in any state: the counter may be negative, the opcodes may
name nothing, and the arguments may be any integers.

`Operation.Asks` lists the positions that an operation sends the head to or puts a value on, and a
step is an access violation exactly if one of them lies outside the tape.  A scan asks for one
position after another; all but the last one that it asks for lie on the tape, so the violation
always names the first position outside.

The violation only comes out if its message can be written, and if nothing before the operation was
too long to be (`raises_outOfBounds_iff`).  Otherwise the crash of the text comes out, and the head
is where the violation would have left it (`attempt_unwritable_iff`, `step_stops_exactly`).

`Machine.Stops` is the inversion of `Machine.perform`: it lists the ways in which an operation can
stop, with what each leaves behind.  All of them leave the cells, the streams, the counter and the
profile as they were (`State.SameButHead`), and all but the scan leave the head there too.
-/

namespace TapeLang

/-- The positions that an operation sends the head to, or puts the value under the head on. -/
inductive Operation.Asks (t : Tape) (arg : Int) : Operation → Int → Prop where
  | move (d : Direction) : Asks t arg (.primitive (.move d)) (t.pos + d.offset arg)
  | scan {d : Direction} {k : Nat} (hpasses : t.Passes (d.offset arg) (k + 1)) :
      Asks t arg (.scan d) (t.pos + (k + 1 : Nat) * d.offset arg)
  | carry (d : Direction) (hcell : t.cell ≠ 0) : Asks t arg (.carry d) (t.pos + d.offset arg)

/-- Only the position of the head and the trace may differ.  The output and the number of bytes
consumed are views of the log. -/
structure State.SameButHead (s last : State) : Prop where
  cells : last.tape.cells = s.tape.cells
  pc : last.pc = s.pc
  input : last.input = s.input
  log : last.log = s.log
  profile : last.profile = s.profile

namespace Machine

variable {m : Machine} {s last : State} {op : Operation} {arg target : Int} {reason : Stop}

/-- The ways in which an operation stops, each with the state that it leaves. -/
inductive Stops (m : Machine) (arg : Int) (s : State) : Operation → Stop → State → Prop where
  | move (d : Direction) (houtside : ¬ s.tape.Holds (s.tape.pos + d.offset arg)) :
      Stops m arg s (.primitive (.move d))
        (.fault (s.faultOf (.outOfBounds (s.tape.pos + d.offset arg)))) s
  | write {shortage : Shortage} (hshortage : m.memory.shortage? arg = some shortage) :
      Stops m arg s (.primitive .write) (.shortage shortage) s
  | scan {d : Direction} {k : Nat} {tape : Tape} (hpasses : s.tape.Passes (d.offset arg) (k + 1))
      (htape : s.tape.moveTo? (s.tape.pos + k * d.offset arg) = some tape)
      (houtside : ¬ s.tape.Holds (s.tape.pos + (k + 1 : Nat) * d.offset arg)) :
      Stops m arg s (.scan d)
        (.fault (({ s with tape } : State).faultOf
          (.outOfBounds (s.tape.pos + (k + 1 : Nat) * d.offset arg)))) { s with tape }
  | carry (d : Direction) (hcell : s.tape.cell ≠ 0)
      (houtside : ¬ s.tape.Holds (s.tape.pos + d.offset arg)) :
      Stops m arg s (.carry d) (.fault (s.faultOf (.outOfBounds (s.tape.pos + d.offset arg)))) s

/-! ## Operations -/

theorem stops_of_perform (hperform : m.perform op arg s = .stop reason last) :
    m.Stops arg s op reason last := by
  cases op with
  | primitive p =>
      cases p with
      | move d =>
          simp only [perform, performPrimitive, State.moveTo, State.dp] at hperform
          split at hperform
          · cases hperform
          · rename_i hblocked
            cases hperform
            exact .move d (Tape.moveTo?_eq_none_iff.mp hblocked)
      | add => cases hperform
      | sub => cases hperform
      | write =>
          simp only [perform, performPrimitive, writeOut] at hperform
          split at hperform
          · cases hperform
          · rename_i hshortage
            cases hperform
            exact .write hshortage
      | read => cases hperform
  | jumpIfZero =>
      simp only [perform] at hperform
      split at hperform <;> cases hperform
  | jumpIfNonzero =>
      simp only [perform] at hperform
      split at hperform <;> cases hperform
  | zero => cases hperform
  | scan d =>
      have hends := s.tape.scanEnds_scan (d.offset arg)
      simp only [perform, State.scan] at hperform
      cases hscan : s.tape.scan (d.offset arg) with
      | found tape =>
          rw [hscan] at hperform
          cases hperform
      | blocked tape target =>
          rw [hscan] at hperform hends
          cases hperform
          cases hends with
          | blocked hpasses htape houtside => exact .scan hpasses htape houtside
      | endless =>
          rw [hscan] at hperform
          cases hperform
  | carry d =>
      simp only [perform, State.carryTo, State.dp] at hperform
      split at hperform
      · cases hperform
      · rename_i hcell
        split at hperform
        · cases hperform
        · rename_i hblocked
          cases hperform
          exact .carry d hcell (Tape.carryTo?_eq_none_iff.mp hblocked)

/-- An operation that asks for a position outside the tape is an access violation. -/
theorem perform_of_asks (hasks : op.Asks s.tape arg target) (houtside : ¬ s.tape.Holds target) :
    ∃ last, last.pc = s.pc ∧
      m.perform op arg s = .stop (.fault (last.faultOf (.outOfBounds target))) last := by
  cases hasks with
  | move d =>
      refine ⟨s, rfl, ?_⟩
      simp only [perform, performPrimitive, State.moveTo, State.dp,
        Tape.moveTo?_eq_none_iff.mpr houtside]
      rfl
  | scan hpasses =>
      obtain ⟨tape, hscan⟩ := Tape.scan_eq_blocked hpasses houtside
      refine ⟨{ s with tape }, rfl, ?_⟩
      simp only [perform, State.scan, hscan]
      rfl
  | carry d hcell =>
      refine ⟨s, rfl, ?_⟩
      simp only [perform, State.carryTo, State.dp, if_neg hcell,
        Tape.carryTo?_eq_none_iff.mpr houtside]
      rfl

theorem perform_eq_endless_iff :
    m.perform op arg s = .endless ↔ arg = 0 ∧ s.tape.cell ≠ 0 ∧ ∃ d, op = .scan d := by
  cases op with
  | primitive p =>
      cases p with
      | move d =>
          simp only [perform, performPrimitive, State.moveTo, State.stopWith]
          split <;> simp
      | write =>
          simp only [perform, performPrimitive, writeOut]
          split <;> simp
      | _ => simp [perform, performPrimitive]
  | scan d =>
      have hzero : d.offset arg = 0 ↔ arg = 0 := by cases d <;> simp [Direction.offset]
      have hendless := @Tape.scan_eq_endless_iff s.tape (d.offset arg)
      rw [hzero] at hendless
      simp only [perform, State.scan, State.stopWith, Operation.scan.injEq, exists_eq', and_true]
      rw [← hendless]
      split <;> simp_all
  | carry d =>
      simp only [perform, State.carryTo, State.stopWith]
      split
      · simp
      · split <;> simp
  | jumpIfZero =>
      simp only [perform]
      split <;> simp
  | jumpIfNonzero =>
      simp only [perform]
      split <;> simp
  | zero => simp [perform]

/-- A fault names a position that the operation asks for and that lies outside the tape. -/
theorem Stops.asks {fault : Fault} (hstops : m.Stops arg s op (.fault fault) last) :
    ∃ target, fault = last.faultOf (.outOfBounds target) ∧ op.Asks s.tape arg target ∧
      ¬ s.tape.Holds target := by
  cases hstops with
  | move d houtside => exact ⟨_, rfl, .move d, houtside⟩
  | scan hpasses htape houtside => exact ⟨_, rfl, .scan hpasses, houtside⟩
  | carry d hcell houtside => exact ⟨_, rfl, .carry d hcell, houtside⟩

theorem Stops.sameButHead (hstops : m.Stops arg s op reason last) : s.SameButHead last := by
  cases hstops with
  | scan hpasses htape houtside =>
      exact ⟨(Tape.moveTo?_eq_some_iff.mp htape).2.1, rfl, rfl, rfl, rfl⟩
  | _ => exact ⟨rfl, rfl, rfl, rfl, rfl⟩

theorem Stops.tape_eq (hstops : m.Stops arg s op reason last) (hscan : ∀ d, op ≠ .scan d) :
    last.tape = s.tape := by
  cases hstops with
  | scan => exact absurd rfl (hscan _)
  | _ => rfl

/-! ## Steps -/

/-- The ways in which a step stops: no instruction, no operation, or an operation that stops. -/
inductive StepStops (m : Machine) (s : State) : Stop → State → Prop where
  | outside (hget : m.program.get? s.pc = none) : StepStops m s .outside s
  | unrecognized {label : Atom} {unnamed : Operation.ofAtom? label = none} {arg : Int}
      (hnames : m.program.Names s.pc ⟨.foreign label unnamed, arg⟩) :
      StepStops m s (.fault (s.faultOf (.unrecognized label))) s
  | operation {op : Operation} {arg : Int} {reason : Stop} {last : State}
      (hnames : m.program.Names s.pc (.of op arg))
      (hstops : m.Stops arg (m.note op arg s) op reason last) : StepStops m s reason last

theorem stepStops_of_step (hstep : m.step s = .stop reason last) : m.StepStops s reason last := by
  unfold step at hstep
  split at hstep
  · rename_i hget
    cases hstep
    exact .outside hget
  · rename_i hget
    cases hstep
    exact .unrecognized (Program.get?_eq_some_iff.mp hget)
  · rename_i op arg hget
    have hperform := Step.map_eq_stop_iff.mp hstep
    exact .operation (Program.get?_eq_some_iff.mp hget) (stops_of_perform hperform)

theorem sameButHead_of_step (hstep : m.step s = .stop reason last) : s.SameButHead last := by
  cases stepStops_of_step hstep with
  | outside => exact ⟨rfl, rfl, rfl, rfl, rfl⟩
  | unrecognized => exact ⟨rfl, rfl, rfl, rfl, rfl⟩
  | @operation op arg _ _ _ hstops =>
      obtain ⟨trace, hnote⟩ := m.exists_trace_of_note op arg s
      rw [hnote] at hstops
      obtain ⟨hcells, hpc, hinput, hlog, hprofile⟩ := hstops.sameButHead
      exact ⟨hcells, hpc, hinput, hlog, hprofile⟩

/-- A fault gives the counter, which has not moved, and the position where the head is left. -/
theorem fault_of_step {fault : Fault} (hstep : m.step s = .stop (.fault fault) last) :
    fault.pc = s.pc ∧ fault.dp = last.dp := by
  have hpc := (sameButHead_of_step hstep).pc
  cases stepStops_of_step hstep with
  | unrecognized => exact ⟨rfl, rfl⟩
  | operation _ hstops =>
      obtain ⟨target, rfl, -⟩ := hstops.asks
      exact ⟨hpc, rfl⟩

/-- Room for everything is never missing. -/
theorem shortage_of_step {shortage : Shortage}
    (hstep : m.step s = .stop (.shortage shortage) last) :
    m.memory ≠ .unbounded := by
  cases stepStops_of_step hstep with
  | operation _ hstops =>
      cases hstops with
      | write hshortage =>
          intro hmemory
          rw [hmemory, Memory.shortage?_unbounded] at hshortage
          cases hshortage

/-- Whatever is not a scan leaves the whole tape as it was. -/
theorem tape_of_step (hscan : ∀ d arg, ¬ m.program.Names s.pc (.of (.scan d) arg))
    (hstep : m.step s = .stop reason last) : last.tape = s.tape := by
  cases stepStops_of_step hstep with
  | outside => rfl
  | unrecognized => rfl
  | @operation op arg _ _ hnames hstops =>
      rw [hstops.tape_eq fun d hop => hscan d arg (hop ▸ hnames), tape_note]

/-- A scan that stops leaves the head on the last position that it passed. -/
theorem head_of_step_scan {d : Direction} (hnames : m.program.Names s.pc (.of (.scan d) arg))
    (hstep : m.step s = .stop reason last) :
    last.tape.cell ≠ 0 ∧ ∃ k : Nat, s.tape.Passes (d.offset arg) (k + 1) ∧
      (last.dp : Int) = s.dp + k * d.offset arg ∧
      ¬ s.tape.Holds (s.dp + (k + 1 : Nat) * d.offset arg) := by
  rw [← Program.get?_eq_some_iff] at hnames
  cases stepStops_of_step hstep with
  | outside hget =>
      rw [hnames] at hget
      cases hget
  | unrecognized hother =>
      rw [← Program.get?_eq_some_iff, hnames] at hother
      cases hother
  | operation hother hstops =>
      rw [← Program.get?_eq_some_iff, hnames] at hother
      cases hother
      cases hstops with
      | scan hpasses htape houtside =>
          rw [tape_note] at hpasses htape houtside
          have hlast := hpasses _ (Nat.lt_succ_self _)
          exact ⟨(Tape.nonzeroAt_target_iff htape).mp hlast, _, hpasses, Tape.pos_of_moveTo? htape,
            houtside⟩

/-! ## When a step stops -/

theorem step_outside_iff :
    (∃ last, m.step s = .stop .outside last) ↔
      s.pc < -m.program.size ∨ (m.program.size : Int) ≤ s.pc := by
  rw [← Program.get?_eq_none_iff]
  constructor
  · rintro ⟨last, hstep⟩
    cases stepStops_of_step hstep with
    | outside hget => exact hget
    | operation _ hstops => cases hstops
  · intro hget
    exact ⟨s, by simp only [step, hget]⟩

/-- The step stops for a cause, at the counter and the head. -/
def StopsFor (m : Machine) (s : State) (cause : FaultCause) : Prop :=
  ∃ last, m.step s = .stop (.fault ⟨cause, s.pc, last.dp⟩) last

theorem stopsFor_unrecognized_iff {label : Atom} :
    m.StopsFor s (.unrecognized label) ↔
      ∃ i, m.program.Names s.pc i ∧ i.opcode.toAtom = label ∧
        ∀ op : Operation, label ≠ .text op.name := by
  constructor
  · rintro ⟨last, hstep⟩
    generalize hfault : Fault.mk (.unrecognized label) s.pc last.dp = fault at hstep
    cases stepStops_of_step hstep with
    | @unrecognized other unnamed arg hnames =>
        cases hfault
        refine ⟨_, hnames, rfl, ?_⟩
        rintro op rfl
        rw [Operation.ofAtom?_name] at unnamed
        cases unnamed
    | operation _ hstops =>
        obtain ⟨target, rfl, -⟩ := hstops.asks
        cases hfault
  · rintro ⟨⟨opcode, arg⟩, hnames, rfl, hnone⟩
    cases opcode with
    | known op => exact absurd rfl (hnone op)
    | foreign label unnamed =>
        refine ⟨s, ?_⟩
        simp only [step, Program.get?_eq_some_iff.mpr hnames]
        rfl

theorem stopsFor_outOfBounds_iff :
    m.StopsFor s (.outOfBounds target) ↔
      ∃ op arg, m.program.Names s.pc (.of op arg) ∧ op.Asks s.tape arg target ∧
        ¬ s.tape.Holds target := by
  constructor
  · rintro ⟨last, hstep⟩
    generalize hfault : Fault.mk (.outOfBounds target) s.pc last.dp = fault at hstep
    cases stepStops_of_step hstep with
    | unrecognized => cases hfault
    | @operation op arg _ _ hnames hstops =>
        obtain ⟨asked, rfl, hasks, houtside⟩ := hstops.asks
        cases congrArg Fault.cause hfault
        rw [tape_note] at hasks houtside
        exact ⟨op, arg, hnames, hasks, houtside⟩
  · rintro ⟨op, arg, hnames, hasks, houtside⟩
    rw [← tape_note (m := m) op arg] at hasks houtside
    obtain ⟨last, hpc, hperform⟩ := perform_of_asks (m := m) hasks houtside
    refine ⟨last, ?_⟩
    rw [step_of_stop (Program.get?_eq_some_iff.mpr hnames) hperform, State.faultOf, hpc, pc_note]

/-- A step that stops with a fault stops for its cause. -/
theorem stopsFor_of_step {fault : Fault} (hstep : m.step s = .stop (.fault fault) last) :
    m.StopsFor s fault.cause := by
  obtain ⟨hpc, hdp⟩ := fault_of_step hstep
  refine ⟨last, ?_⟩
  rw [← hpc, ← hdp]
  exact hstep

theorem step_eq_endless_iff :
    m.step s = .endless ↔ ∃ d, m.program.Names s.pc (.of (.scan d) 0) ∧ s.tape.cell ≠ 0 := by
  constructor
  · intro hstep
    unfold step at hstep
    split at hstep
    · cases hstep
    · cases hstep
    · rename_i op arg hget
      obtain ⟨rfl, hcell, d, rfl⟩ := perform_eq_endless_iff.mp (Step.map_eq_endless_iff.mp hstep)
      rw [tape_note] at hcell
      exact ⟨d, Program.get?_eq_some_iff.mp hget, hcell⟩
  · rintro ⟨d, hnames, hcell⟩
    rw [step_of_get? (Program.get?_eq_some_iff.mpr hnames),
      perform_eq_endless_iff.mpr ⟨rfl, by rwa [tape_note], d, rfl⟩]
    rfl

/-! ## What comes out of a step -/

/-- A fault with a cause and a message comes out of the step, at the counter and the head. -/
def Raises (m : Machine) (s : State) (cause : FaultCause) (message : String) : Prop :=
  ∃ last, m.attempt s = .raised (.fault ⟨cause, s.pc, last.dp⟩) last ∧ cause.text? = some message

/-- What stops a step comes out of it, if its text and all that comes before it can be written. -/
theorem raises_iff {cause : FaultCause} {message : String} :
    m.Raises s cause message ↔
      ¬ m.Overlong s ∧ m.StopsFor s cause ∧ cause.text? = some message := by
  by_cases hlong : m.Overlong s
  · obtain ⟨trace, hattempt⟩ := attempt_of_overlong hlong
    simp [Raises, hattempt, hlong]
  · simp only [Raises, attempt_eq_raised_iff hlong, Stop.raised_eq_fault_iff]
    constructor
    · rintro ⟨last, ⟨_, hstep, rfl, -⟩, htext⟩
      exact ⟨hlong, ⟨last, hstep⟩, htext⟩
    · rintro ⟨-, ⟨last, hstep⟩, htext⟩
      have hwritable : cause.Writable := by
        simp only [FaultCause.text?, Option.ite_none_right_eq_some] at htext
        exact htext.1
      exact ⟨last, ⟨_, hstep, rfl, hwritable⟩, htext⟩

theorem not_overlong_of_get?_eq_none (hget : m.program.get? s.pc = none) : ¬ m.Overlong s := by
  rintro ⟨op, arg, hnames, -⟩
  rw [Program.get?_eq_some_iff.mpr hnames] at hget
  cases hget

theorem not_overlong_of_names_foreign {label : Atom} {unnamed : Operation.ofAtom? label = none}
    (hnames : m.program.Names s.pc ⟨.foreign label unnamed, arg⟩) : ¬ m.Overlong s := by
  rintro ⟨op, other, hother, -⟩
  rw [← Program.get?_eq_some_iff] at hnames hother
  rw [hnames] at hother
  cases hother

theorem attempt_outside_iff :
    (∃ last, m.attempt s = .raised (.crash (.outside s.pc)) last) ↔
      s.pc < -m.program.size ∨ (m.program.size : Int) ≤ s.pc := by
  rw [← step_outside_iff]
  by_cases hlong : m.Overlong s
  · obtain ⟨trace, hattempt⟩ := attempt_of_overlong hlong
    constructor
    · rintro ⟨last, hraised⟩
      rw [hattempt] at hraised
      cases hraised
    · intro houtside
      have hget := Program.get?_eq_none_iff.mpr (step_outside_iff.mp houtside)
      exact absurd hlong (not_overlong_of_get?_eq_none hget)
  · simp only [attempt_eq_raised_iff hlong]
    constructor
    · rintro ⟨last, reason, hstep, hraised⟩
      have hpc := (sameButHead_of_step hstep).pc
      rw [← hpc, Stop.raised_eq_outside_iff] at hraised
      exact ⟨last, hraised ▸ hstep⟩
    · rintro ⟨last, hstep⟩
      have hpc := (sameButHead_of_step hstep).pc
      exact ⟨last, _, hstep, by rw [← hpc, Stop.raised_eq_outside_iff]⟩

theorem raises_unrecognized_iff {label : Atom} :
    m.Raises s (.unrecognized label) ("Unrecognized op " ++ label.literal) ↔
      label.Writable ∧ ∃ i, m.program.Names s.pc i ∧ i.opcode.toAtom = label ∧
        ∀ op : Operation, label ≠ .text op.name := by
  rw [raises_iff, stopsFor_unrecognized_iff]
  constructor
  · rintro ⟨-, hnames, htext⟩
    simp only [FaultCause.text?, Option.ite_none_right_eq_some] at htext
    exact ⟨htext.1, hnames⟩
  · rintro ⟨hwritable, ⟨opcode, arg⟩, hnames, rfl, hnone⟩
    refine ⟨?_, ⟨_, hnames, rfl, hnone⟩, if_pos hwritable⟩
    cases opcode with
    | known op => exact absurd rfl (hnone op)
    | foreign label unnamed => exact not_overlong_of_names_foreign hnames

theorem raises_outOfBounds_iff :
    m.Raises s (.outOfBounds target)
        ("Access violation, dp out of bounds (" ++ Decimal.text target ++ ")") ↔
      ¬ m.Overlong s ∧ Decimal.Writable target ∧
        ∃ op arg, m.program.Names s.pc (.of op arg) ∧ op.Asks s.tape arg target ∧
          ¬ s.tape.Holds target := by
  rw [raises_iff, stopsFor_outOfBounds_iff]
  constructor
  · rintro ⟨hshort, hasks, htext⟩
    simp only [FaultCause.text?, Option.ite_none_right_eq_some] at htext
    exact ⟨hshort, htext.1, hasks⟩
  · rintro ⟨hshort, hwritable, hasks⟩
    exact ⟨hshort, hasks, if_pos hwritable⟩

/-- The texts that cannot be written in a step: one that comes before the operation, the label in
the fault of an instruction, or the target in it. -/
theorem attempt_unwritable_iff :
    (∃ last, m.attempt s = .raised (.crash .unwritable) last) ↔
      m.Overlong s ∨ (∃ i, m.program.Names s.pc i ∧ ¬ i.opcode.toAtom.Writable) ∨
        ∃ op arg target, m.program.Names s.pc (.of op arg) ∧ op.Asks s.tape arg target ∧
          ¬ s.tape.Holds target ∧ ¬ Decimal.Writable target := by
  by_cases hlong : m.Overlong s
  · obtain ⟨trace, hattempt⟩ := attempt_of_overlong hlong
    exact ⟨fun _ => .inl hlong, fun _ => ⟨_, hattempt⟩⟩
  · simp only [attempt_eq_raised_iff hlong, Stop.raised_eq_unwritable_iff, or_iff_right hlong]
    constructor
    · rintro ⟨last, _, hstep, fault, rfl, hcause⟩
      have hstops := stopsFor_of_step hstep
      cases hfault : fault.cause with
      | unrecognized label =>
          rw [hfault, stopsFor_unrecognized_iff] at hstops
          obtain ⟨i, hnames, rfl, -⟩ := hstops
          rw [hfault] at hcause
          exact .inl ⟨i, hnames, hcause⟩
      | outOfBounds target =>
          rw [hfault, stopsFor_outOfBounds_iff] at hstops
          obtain ⟨op, arg, hnames, hasks, houtside⟩ := hstops
          rw [hfault] at hcause
          exact .inr ⟨op, arg, target, hnames, hasks, houtside, hcause⟩
    · rintro (⟨i, hnames, hlabel⟩ | ⟨op, arg, target, hnames, hasks, houtside, htarget⟩)
      · have hnone (op : Operation) : i.opcode.toAtom ≠ .text op.name := by
          intro hop
          rw [hop] at hlabel
          exact hlabel trivial
        obtain ⟨last, hstep⟩ := stopsFor_unrecognized_iff.mpr ⟨i, hnames, rfl, hnone⟩
        exact ⟨last, _, hstep, _, rfl, hlabel⟩
      · obtain ⟨last, hstep⟩ := stopsFor_outOfBounds_iff.mpr ⟨op, arg, hnames, hasks, houtside⟩
        exact ⟨last, _, hstep, _, rfl, htarget⟩

/-- A move asks for the position that it leads to. -/
theorem asks_of_move {d : Direction} (hnames : m.program.Names s.pc (.repeated (.move d) arg))
    (htarget : s.tape.pos + d.offset arg = target) (houtside : ¬ s.tape.Holds target) :
    ∃ op arg, m.program.Names s.pc (.of op arg) ∧ op.Asks s.tape arg target ∧
      ¬ s.tape.Holds target :=
  ⟨_, _, hnames, htarget ▸ .move d, houtside⟩

/-- A scan that has a nonzero cell to begin with asks for the position one stride away. -/
theorem asks_of_scan {d : Direction} (hnames : m.program.Names s.pc (.of (.scan d) arg))
    (hcell : s.tape.cell ≠ 0) (htarget : s.tape.pos + d.offset arg = target)
    (houtside : ¬ s.tape.Holds target) :
    ∃ op arg, m.program.Names s.pc (.of op arg) ∧ op.Asks s.tape arg target ∧
      ¬ s.tape.Holds target := by
  have hasks : (Operation.scan d).Asks s.tape arg _ := .scan (Tape.passes_one hcell)
  rw [Nat.zero_add, Int.natCast_one, Int.one_mul, htarget] at hasks
  exact ⟨_, _, hnames, hasks, houtside⟩

/-- A position that is too long for the message of a violation. -/
theorem attempt_of_long_target (hasks : ∃ op arg, m.program.Names s.pc (.of op arg) ∧
      op.Asks s.tape arg target ∧ ¬ s.tape.Holds target) (hlong : ¬ Decimal.Writable target) :
    ∃ last, m.attempt s = .raised (.crash .unwritable) last := by
  obtain ⟨op, arg, hnames, hposition, houtside⟩ := hasks
  exact attempt_unwritable_iff.mpr
    (.inr (.inr ⟨op, arg, target, hnames, hposition, houtside, hlong⟩))

theorem attempt_eq_endless_iff :
    m.attempt s = .endless ↔
      ¬ m.Overlong s ∧ ∃ d, m.program.Names s.pc (.of (.scan d) 0) ∧ s.tape.cell ≠ 0 := by
  by_cases hlong : m.Overlong s
  · obtain ⟨trace, hattempt⟩ := attempt_of_overlong hlong
    simp [hattempt, hlong]
  · rw [attempt_of_not_overlong hlong, Step.attempt_eq_endless_iff, step_eq_endless_iff]
    simp [hlong]

/-- What comes out of a step, for every program and in every state.  The counter is outside, or the
opcode names nothing, or a position outside the tape is asked for, and the message shows the label
or the position; or else a number is too long that would have to be written: it has more than 4300
digits.  Whatever comes out, the step has done nothing but move the head of a scan. -/
theorem step_stops_exactly (m : Machine) (s : State) :
    (∀ z, Decimal.Writable z ↔ (Nat.toDigits 10 z.natAbs).length ≤ 4300) ∧
    ((∃ last, m.attempt s = .raised (.crash (.outside s.pc)) last) ↔
      s.pc < -m.program.size ∨ (m.program.size : Int) ≤ s.pc) ∧
    (∀ label, m.Raises s (.unrecognized label) ("Unrecognized op " ++ label.literal) ↔
      label.Writable ∧ ∃ i, m.program.Names s.pc i ∧ i.opcode.toAtom = label ∧
        ∀ op : Operation, label ≠ .text op.name) ∧
    (∀ target, m.Raises s (.outOfBounds target)
        ("Access violation, dp out of bounds (" ++ Decimal.text target ++ ")") ↔
      ¬ m.Overlong s ∧ Decimal.Writable target ∧
        ∃ op arg, m.program.Names s.pc (.of op arg) ∧ op.Asks s.tape arg target ∧
          ¬ s.tape.Holds target) ∧
    ((∃ last, m.attempt s = .raised (.crash .unwritable) last) ↔
      m.Overlong s ∨ (∃ i, m.program.Names s.pc i ∧ ¬ i.opcode.toAtom.Writable) ∨
        ∃ op arg target, m.program.Names s.pc (.of op arg) ∧ op.Asks s.tape arg target ∧
          ¬ s.tape.Holds target ∧ ¬ Decimal.Writable target) ∧
    (m.attempt s = .endless ↔
      ¬ m.Overlong s ∧ ∃ d, m.program.Names s.pc (.of (.scan d) 0) ∧ s.tape.cell ≠ 0) ∧
    ∀ error last, m.attempt s = .raised error last →
      s.SameButHead last ∧ last.output = s.output ∧ last.consumed = s.consumed ∧
      ((∀ d arg, ¬ m.program.Names s.pc (.of (.scan d) arg)) ∨ m.Overlong s → last.dp = s.dp) ∧
      (∀ d arg, m.program.Names s.pc (.of (.scan d) arg) → ¬ m.Overlong s →
        last.tape.cell ≠ 0 ∧ ∃ k : Nat, s.tape.Passes (d.offset arg) (k + 1) ∧
          (last.dp : Int) = s.dp + k * d.offset arg ∧
          ¬ s.tape.Holds (s.dp + (k + 1 : Nat) * d.offset arg)) ∧
      (∀ fault, error = .fault fault → fault.pc = s.pc ∧ fault.dp = last.dp) ∧
      ∀ missing, error = .crash (.shortage missing) → m.memory ≠ .unbounded := by
  refine ⟨fun _ => Decimal.writable_iff_length, attempt_outside_iff,
    fun _ => raises_unrecognized_iff, fun _ => raises_outOfBounds_iff, attempt_unwritable_iff,
    attempt_eq_endless_iff, fun error last hattempt => ?_⟩
  by_cases hlong : m.Overlong s
  · obtain ⟨trace, hraised⟩ := attempt_of_overlong hlong
    rw [hraised] at hattempt
    cases hattempt
    exact ⟨⟨rfl, rfl, rfl, rfl, rfl⟩, rfl, rfl, fun _ => rfl,
      fun _ _ _ hshort => absurd hlong hshort, nofun, nofun⟩
  · obtain ⟨reason, hstep, hreason⟩ := (attempt_eq_raised_iff hlong).mp hattempt
    have hsame := sameButHead_of_step hstep
    refine ⟨hsame, ?_, ?_, ?_, fun d arg hnames _ => head_of_step_scan hnames hstep, ?_, ?_⟩
    · rw [State.output, hsame.log, ← State.output]
    · rw [State.consumed, State.taken, hsame.log, ← State.taken, ← State.consumed]
    · intro hscan
      rw [State.dp, tape_of_step (hscan.resolve_right hlong) hstep, ← State.dp]
    · rintro fault rfl
      obtain ⟨rfl, -⟩ := Stop.raised_eq_fault_iff.mp hreason
      exact fault_of_step hstep
    · rintro missing rfl
      obtain rfl := Stop.raised_eq_shortage_iff.mp hreason
      exact shortage_of_step hstep

/-- A position that is too far away for a message.  The head is to leave the tape for it, and no
fault comes out. -/
theorem target_too_long_for_message :
    let m : Machine := { program := .ofList [.repeated (.move .right) (Decimal.limit - 1)] }
    let s : State := { tape := ⟨#[0, 0], 1, by decide⟩, input := [] }
    let target : Int := Decimal.limit
    4300 < (Nat.toDigits 10 Decimal.limit).length ∧
    (∃ op arg, m.program.Names s.pc (.of op arg) ∧ op.Asks s.tape arg target ∧
      ¬ s.tape.Holds target) ∧
    (¬ ∃ fault last, m.attempt s = .raised (.fault fault) last) ∧
    ∃ last, m.attempt s = .raised (.crash .unwritable) last := by
  intro m s target
  have htarget : (1 : Nat) + ((Decimal.limit : Int) - 1) = target := by omega
  have hasks := asks_of_move (m := m) (s := s) (d := .right) ⟨0, rfl, .inl rfl⟩ htarget
    (Tape.not_holds_limit (by decide))
  obtain ⟨last, hlast⟩ := attempt_of_long_target hasks Decimal.not_writable_limit
  refine ⟨Decimal.lt_length_limit, hasks, ?_, last, hlast⟩
  rintro ⟨fault, other, hraised⟩
  rw [hlast] at hraised
  cases hraised

end Machine

end TapeLang
