import TapeLang.Machine.Raise
import TapeLang.Proofs.Machine.Progress
import TapeLang.Proofs.Simulation

/-!
# Numbers that are too long to be written

A step with what it has to write (`Machine.attempt`) is the plain step, unless a number is too long
that has to be written before the operation is carried out (`Machine.Overlong`).  Such a step leaves
all but the trace as it was.

Only records are written on the way.  So a machine that keeps none, or one with short numbers all
over, writes everything it has to (`Machine.Legible`), and a run of it is the plain run with the
error that its stop makes (`ends_iff_halts`).
-/

namespace TapeLang

/-- A short tape ends in front of the least number that is too long. -/
theorem Tape.not_holds_limit {t : Tape} (hsize : t.size ≤ 10) : ¬ t.Holds Decimal.limit := by
  intro hholds
  have hinside : (Decimal.limit : Int) < t.size := hholds.2
  have hfar := Decimal.ten_le_limit
  omega

/-! ## What a stop makes -/

namespace Stop

variable {reason : Stop} {s : State}

theorem raised_eq_fault_iff {f : Fault} :
    reason.raised s = .fault f ↔ reason = .fault f ∧ f.cause.Writable := by
  cases reason with
  | fault other =>
      rw [raised, fault.injEq]
      split
      · rename_i hwritable
        rw [Raised.fault.injEq]
        exact ⟨fun hsame => ⟨hsame, hsame ▸ hwritable⟩, And.left⟩
      · rename_i hlong
        exact ⟨nofun, fun ⟨hsame, hwritable⟩ => absurd (hsame ▸ hwritable) hlong⟩
  | _ => simp [raised]

theorem raised_eq_unwritable_iff :
    reason.raised s = .crash .unwritable ↔ ∃ f, reason = .fault f ∧ ¬ f.cause.Writable := by
  cases reason with
  | fault f =>
      rw [raised]
      split <;> simp_all
  | _ => simp [raised]

theorem raised_eq_outside_iff :
    reason.raised s = .crash (.outside s.pc) ↔ reason = .outside := by
  cases reason with
  | fault f =>
      rw [raised]
      split <;> simp
  | _ => simp [raised]

theorem raised_eq_shortage_iff {missing : Shortage} :
    reason.raised s = .crash (.shortage missing) ↔ reason = .shortage missing := by
  cases reason with
  | fault f =>
      rw [raised]
      split <;> simp
  | _ => simp [raised]

/-- The flush at the end of a run makes no difference to what comes out. -/
theorem raised_flush (reason : Stop) (m : Machine) (s : State) :
    reason.raised (m.flush s) = reason.raised s := by
  cases reason with
  | outside => rw [raised, raised, Machine.pc_flush]
  | _ => rfl

end Stop

namespace Halt

variable {halt : Halt} {f : Fault}

/-- A fault whose text can be written comes out as it is. -/
theorem raised?_of_fault (hstop : halt.stop? = some (.fault f)) (hwritable : f.cause.Writable) :
    halt.ending.raised? = some (.fault f) := by
  rw [ending, hstop, Option.map_some, Stop.raised_eq_fault_iff.mpr ⟨rfl, hwritable⟩]

theorem raised?_of_long (hstop : halt.stop? = some (.fault f)) (hlong : ¬ f.cause.Writable) :
    halt.ending.raised? = some (.crash .unwritable) := by
  rw [ending, hstop, Option.map_some, Stop.raised_eq_unwritable_iff.mpr ⟨f, rfl, hlong⟩]

end Halt

theorem Step.attempt_eq_raised_iff {step : Step} {error : Raised} {last : State} :
    step.attempt = .raised error last ↔
      ∃ reason, step = .stop reason last ∧ reason.raised last = error := by
  cases step with
  | stop reason other =>
      simp only [attempt, Attempt.raised.injEq, stop.injEq]
      constructor
      · rintro ⟨rfl, rfl⟩
        exact ⟨reason, ⟨rfl, rfl⟩, rfl⟩
      · rintro ⟨_, ⟨rfl, rfl⟩, rfl⟩
        exact ⟨rfl, rfl⟩
  | _ => simp [attempt]

theorem Step.attempt_eq_endless_iff {step : Step} : step.attempt = .endless ↔ step = .endless := by
  cases step <;> simp [attempt]

namespace Program

variable {p : Program} {offset : Int} {i : Instruction}

theorem mem_of_names (hnames : p.Names offset i) : i ∈ p.toList := by
  obtain ⟨place, hget, -⟩ := hnames
  exact List.mem_of_getElem? hget

/-- What an offset names is no further from either end than the program is long. -/
theorem natAbs_le_of_names (hnames : p.Names offset i) : offset.natAbs ≤ p.size := by
  obtain ⟨place, hget, hoffset⟩ := hnames
  have hlt := lt_size_of_getElem? hget
  omega

theorem renderable_of_forall_writable (hwritable : ∀ i ∈ p.toList, i.Writable) (first last : Int) :
    p.Renderable first last := by
  intro i hi
  rw [span, Array.toList_extract, List.extract_eq_take_drop] at hi
  exact (hwritable i (List.mem_of_mem_drop (List.mem_of_mem_take hi))).renderable

end Program

namespace Machine

variable {m : Machine} {s after : State} {e : Ending}

/-! ## Steps -/

/-- Before the operation is carried out a number has to be written that is too long: in the line of
the trace, or in the body of a loop that is passed by. -/
def Overlong (m : Machine) (s : State) : Prop :=
  ∃ op arg, m.program.Names s.pc (.of op arg) ∧
    (m.traced = true ∧ ¬ (s.entry op arg).Writable ∨
      m.profiled = true ∧ op = .jumpIfZero ∧ s.tape.cell = 0 ∧ ¬ m.program.Renderable s.pc arg)

/-- The step that has nothing too long to write is the plain one. -/
theorem attempt_of_not_overlong (hshort : ¬ m.Overlong s) : m.attempt s = (m.step s).attempt := by
  have hnone : m.unwritten? s = none := by
    unfold unwritten?
    split
    · rename_i op arg hget
      have hnames := Program.get?_eq_some_iff.mp hget
      rw [if_neg, if_neg]
      · rintro ⟨hprofiled, hop, hcell, hbody⟩
        exact hshort ⟨op, arg, hnames, .inr ⟨hprofiled, hop, hcell, hbody⟩⟩
      · rintro ⟨htraced, hentry⟩
        exact hshort ⟨op, arg, hnames, .inl ⟨htraced, hentry⟩⟩
    · rfl
  rw [attempt, hnone]

theorem exists_trace_of_note (m : Machine) (op : Operation) (arg : Int) (s : State) :
    ∃ trace, m.note op arg s = { s with trace } := by
  unfold note
  split
  · exact ⟨_, rfl⟩
  · exact ⟨s.trace, rfl⟩

theorem attempt_eq_raised_iff (hshort : ¬ m.Overlong s) {error : Raised} {last : State} :
    m.attempt s = .raised error last ↔
      ∃ reason, m.step s = .stop reason last ∧ reason.raised last = error := by
  rw [attempt_of_not_overlong hshort, Step.attempt_eq_raised_iff]

theorem attempt_of_overlong (hlong : m.Overlong s) :
    ∃ trace, m.attempt s = .raised (.crash .unwritable) { s with trace } := by
  obtain ⟨op, arg, hnames, hrecord⟩ := hlong
  have hunwritten : ∃ trace, m.unwritten? s = some { s with trace } := by
    rw [unwritten?, Program.get?_eq_some_iff.mpr hnames]
    show ∃ trace, ite _ _ _ = _
    split
    · exact ⟨s.trace, rfl⟩
    · rename_i htrace
      obtain ⟨trace, hnote⟩ := m.exists_trace_of_note op arg s
      rw [if_pos (hrecord.resolve_left htrace)]
      exact ⟨trace, congrArg some hnote⟩
  obtain ⟨trace, hlast⟩ := hunwritten
  exact ⟨trace, by rw [attempt, hlast]⟩

/-- A machine that keeps no record has nothing to write. -/
theorem not_overlong_of_no_records (htraced : m.traced = false) (hprofiled : m.profiled = false) :
    ¬ m.Overlong s := by
  rintro ⟨op, arg, -, ⟨htrue, -⟩ | ⟨htrue, -⟩⟩
  · exact Bool.false_ne_true (htraced.symm.trans htrue)
  · exact Bool.false_ne_true (hprofiled.symm.trans htrue)

/-! ## Runs -/

/-- The attempts of a machine as a system. -/
def raising (m : Machine) : System State Ending where
  turn s :=
    if s.pc < m.program.size then
      match m.attempt s with
      | .next after => .next after
      | .raised error last => .ended ⟨m.flush last, some error⟩
      | .endless => .hang
    else .ended ⟨m.flush s, none⟩

theorem run_raising (m : Machine) (budget : Nat) (s : State) :
    m.raising.run budget s = m.attempts budget s := by
  induction budget generalizing s with
  | zero => rfl
  | succ budget ih =>
      simp only [System.run, attempts, raising]
      by_cases hinside : s.pc < m.program.size
      · simp only [if_pos hinside]
        cases m.attempt s with
        | next after => exact ih after
        | raised error last => rfl
        | endless => rfl
      · simp only [if_neg hinside]

/-- A run comes to one end, whatever budget reaches it. -/
theorem Ends.unique {first second : Ending} (hfirst : m.Ends s first) (hsecond : m.Ends s second) :
    first = second := by
  simp only [Ends, ← run_raising] at hfirst hsecond
  exact System.halts_unique hfirst hsecond

theorem ends_of_raised (hinside : s.pc < m.program.size) {error : Raised} {last : State}
    (hattempt : m.attempt s = .raised error last) : m.Ends s ⟨m.flush last, some error⟩ :=
  ⟨1, by rw [attempts, if_pos hinside, hattempt]⟩

/-- A run that ends with a crash does not end with a fault as well. -/
theorem not_exists_fault_of_ends {cause : Crash} (hends : m.Ends s e)
    (hcrash : e.raised? = some (.crash cause)) :
    ¬ ∃ other f, m.Ends s other ∧ other.raised? = some (.fault f) := by
  rintro ⟨other, f, hother, hfault⟩
  rw [hends.unique hother, hfault] at hcrash
  cases hcrash

/-! ## Short numbers -/

/-- The machine keeps no record, or else all numbers that can come into one are short enough: those
in the program and the places in it, and the positions on the tape. -/
def Legible (m : Machine) (s : State) : Prop :=
  m.traced = true ∨ m.profiled = true →
    (∀ i ∈ m.program.toList, i.Writable) ∧ m.program.size < Decimal.limit ∧
      s.tape.size ≤ Decimal.limit

theorem legible_of_no_records (htraced : m.traced = false) (hprofiled : m.profiled = false) :
    m.Legible s := by
  intro hrecord
  rw [htraced, hprofiled] at hrecord
  simp at hrecord

/-- A step leaves the size of the tape as it is, and with it all that matters here. -/
theorem Legible.of_step (hlegible : m.Legible s) (hstep : m.step s = .next after) :
    m.Legible after := by
  intro hrecord
  obtain ⟨hinstructions, hsize, htape⟩ := hlegible hrecord
  exact ⟨hinstructions, hsize, (size_tape_of_step hstep).symm ▸ htape⟩

theorem Legible.not_overlong (hlegible : m.Legible s) : ¬ m.Overlong s := by
  rintro ⟨op, arg, hnames, ⟨htraced, hentry⟩ | ⟨hprofiled, -, -, hbody⟩⟩
  · obtain ⟨hinstructions, hsize, htape⟩ := hlegible (.inl htraced)
    have hpc : Decimal.Writable s.pc :=
      Nat.lt_of_le_of_lt (Program.natAbs_le_of_names hnames) hsize
    have hdp : s.dp < Decimal.limit := Nat.lt_of_lt_of_le s.tape.pos_lt htape
    have harg := (hinstructions _ (Program.mem_of_names hnames)).2
    exact hentry ⟨hpc, harg, Decimal.writable_natCast.mpr hdp⟩
  · obtain ⟨hinstructions, -⟩ := hlegible (.inr hprofiled)
    exact hbody (Program.renderable_of_forall_writable hinstructions _ _)

theorem attempts_eq_run (hlegible : m.Legible s) (budget : Nat) :
    m.attempts budget s = (m.run budget s).map Halt.ending := by
  induction budget generalizing s with
  | zero => rfl
  | succ budget ih =>
      rw [attempts, run, attempt_of_not_overlong hlegible.not_overlong]
      split
      · cases hstep : m.step s with
        | next after => exact ih (hlegible.of_step hstep)
        | stop reason last =>
            show some (Ending.mk _ _) = some (Halt.ending ⟨_, _⟩)
            rw [Halt.ending, Option.map_some, Stop.raised_flush]
        | endless => rfl
      · rfl

/-- Where everything can be written, a run ends as the plain run does, with the error that its stop
makes. -/
theorem ends_iff_halts (hlegible : m.Legible s) :
    m.Ends s e ↔ ∃ halt, m.Halts s halt ∧ halt.ending = e := by
  simp only [Ends, Halts, attempts_eq_run hlegible, Option.map_eq_some_iff]
  constructor
  · rintro ⟨budget, halt, hrun, hending⟩
    exact ⟨halt, ⟨budget, hrun⟩, hending⟩
  · rintro ⟨halt, ⟨budget, hrun⟩, hending⟩
    exact ⟨budget, halt, hrun, hending⟩

end Machine

end TapeLang
