import TapeLang.CommandLine.Launch
import TapeLang.Proofs.CommandLine.Arguments
import TapeLang.Proofs.CommandLine.Sessions
import TapeLang.Proofs.Machine.Safety
import TapeLang.Proofs.Source.Bytes

/-!
# How a command ends

A command fails for four reasons (`Fails`): the command line cannot be obeyed, the file cannot be
read, its text does not compile, or its program leaves the tape.  Otherwise it succeeds.  There is
no third way to end: nobody is left with an error that is not handled.

What has to be excluded are the crashes.  A cell count is positive, so there is always a tape.  A
compiled program names no instruction outside itself, and all of its instructions are operations
that can be listed.  A write repeats a byte at most as often as the text has commands
(`arg_le_of_write`), so there is room for what it writes where there is room for the source text.

This room, and room for the tape, is what a command takes for granted (`Request.Feasible`).
-/

namespace TapeLang

/-! ## Room for what is written -/

/-- The number of commands in a text. -/
def commandCount (text : String) : Nat :=
  (text.toList.filter isCommand).length

theorem commandCount_sourceText_le (bytes : List UInt8) :
    commandCount (sourceText bytes) ≤ bytes.length := by
  rw [commandCount, commands_sourceText, toList_commandText]
  exact Nat.le_trans (List.length_filter_le _ _) (Nat.le_of_eq (List.length_map _))

theorem CommandLine.Session.commandCount_lineText_le (line : List UInt8) :
    commandCount (.ofList (lineText line)) ≤ line.length := by
  have hfront : lineText line <+: Text.decodeUtf8 line := by
    rw [← List.reverse_suffix, lineText, Text.trimEnd, List.reverse_reverse]
    exact List.dropWhile_suffix _
  calc commandCount (.ofList (lineText line))
      = ((lineText line).filter isCommand).length := by rw [commandCount, String.toList_ofList]
    _ ≤ ((Text.decodeUtf8 line).filter isCommand).length :=
      (hfront.sublist.filter isCommand).length_le
    _ = ((line.map byteChar).filter isCommand).length := by
      rw [Text.decodeUtf8, Text.filter_decodeFrom Text.wide_none]
    _ ≤ (line.map byteChar).length := List.length_filter_le _ _
    _ = line.length := List.length_map _

namespace Machine

variable {m : Machine} {s last : State} {text : String} {optimize : Bool}

/-- A write of a compiled program repeats a byte at most as often as there are commands. -/
theorem arg_le_of_write (hprogram : Program.ofSource text optimize = .ok m.program)
    {offset arg : Int} (hnames : m.program.Names offset (.of (.primitive .write) arg)) :
    0 < arg ∧ arg ≤ commandCount text := by
  have hpos : 0 < arg := (Compilation.compiled_of_ofSource hprogram).normal_of_names hnames
  obtain ⟨block, htext, hcode⟩ := Compilation.exists_block_of_ofSource hprogram
  have hspelled : m.program.toList.flatMap Instruction.commands = text.toList.filter isCommand := by
    rw [hcode, block.commands_code, htext]
  obtain ⟨place, hget, -⟩ := hnames
  obtain ⟨front, back, hlist⟩ := List.append_of_mem (List.mem_of_getElem? hget)
  rw [hlist] at hspelled
  have hlength := congrArg List.length hspelled
  simp only [List.flatMap_append, List.flatMap_cons, List.length_append, Instruction.commands,
    Instruction.of, List.length_replicate] at hlength
  refine ⟨hpos, ?_⟩
  rw [commandCount]
  omega

/-- Where there is room for the text, there is room for what its program writes. -/
theorem step_ne_shortage (hprogram : Program.ofSource text optimize = .ok m.program)
    (hroom : m.memory.shortage? (commandCount text) = none) (shortage : Shortage) :
    m.step s ≠ .stop (.shortage shortage) last := by
  intro hstep
  cases stepStops_of_step hstep with
  | @operation _ arg _ _ hnames hstops =>
      cases hstops with
      | write hshortage =>
          obtain ⟨hpos, hle⟩ := arg_le_of_write hprogram hnames
          obtain ⟨count, rfl⟩ := Int.eq_ofNat_of_zero_le (Int.le_of_lt hpos)
          rw [Memory.shortage?_of_le hroom (Int.ofNat_le.mp hle)] at hshortage
          cases hshortage

/-- A compiled program is stopped by leaving the tape, and by nothing else if there is room. -/
theorem accessViolation_of_halts (hprogram : Program.ofSource text optimize = .ok m.program)
    (hroom : m.memory.shortage? (commandCount text) = none) {length : TapeLength}
    {input : List UInt8} {halt : Halt} {reason : Stop}
    (hhalts : m.Halts (.initial length input) halt) (hstop : halt.stop? = some reason) :
    ∃ f : Fault, reason = .fault f ∧ f.cause.kind = .accessViolation := by
  have hcompiled := Compilation.compiled_of_ofSource hprogram
  cases (sound_of_halts hcompiled hhalts).2.2 reason hstop with
  | violation target pc dp => exact ⟨_, rfl, rfl⟩
  | shortage shortage =>
      obtain ⟨before, last, -, hstep, -⟩ := exists_step_of_halts hhalts hstop
      exact absurd hstep (step_ne_shortage hprogram hroom shortage)

end Machine

namespace CommandLine

/-! ## Trials -/

variable {r : Resources} {o : Options} {text : String} {input : List UInt8}

/-- How a trial ends if no room is missing. -/
inductive Trial.Ends (r : Resources) (o : Options) (text : String) (input : List UInt8) :
    Trial → Prop where
  | refused {e : CompileError} (hsource : Program.ofSource text o.optimize = .error e) :
      Ends r o text input { ending := .failed (.compile e), input }
  | completed {program : Program} {halt : Halt}
      (hsource : Program.ofSource text o.optimize = .ok program)
      (hhalts : (o.machine r.memory program).Halts (.initial o.length input) halt)
      (hstop : halt.stop? = none) : Ends r o text input (.ofHalt o halt)
  | fault {program : Program} {halt : Halt} {f : Fault}
      (hsource : Program.ofSource text o.optimize = .ok program)
      (hhalts : (o.machine r.memory program).Halts (.initial o.length input) halt)
      (hstop : halt.stop? = some (.fault f)) (hkind : f.cause.kind = .accessViolation) :
      Ends r o text input (.ofHalt o halt)

theorem Trial.ends_of_run {trial : Trial} (htape : r.memory.shortage? o.length.val = none)
    (htext : r.memory.shortage? (commandCount text) = none)
    (hrun : Trial.run r o text input = some trial) : Trial.Ends r o text input trial := by
  unfold Trial.run at hrun
  split at hrun
  · rename_i e hsource
    cases hrun
    exact .refused hsource
  · rename_i program hsource
    rw [htape] at hrun
    obtain ⟨halt, hhalt, rfl⟩ := Option.map_eq_some_iff.mp hrun
    have hhalts : (o.machine r.memory program).Halts _ halt := ⟨r.budget, hhalt⟩
    cases hstop : halt.stop? with
    | none => exact .completed hsource hhalts hstop
    | some reason =>
        obtain ⟨f, rfl, hkind⟩ := Machine.accessViolation_of_halts hsource htext hhalts hstop
        exact .fault hsource hhalts hstop hkind

theorem Trial.Ends.ending_ne_crashed {trial : Trial} (hends : Trial.Ends r o text input trial)
    (cause : Crash) : trial.ending ≠ .crashed cause := by
  intro hcrashed
  cases hends with
  | refused => cases hcrashed
  | completed _ _ hstop =>
      rw [Trial.ofHalt, TrialEnd.ofHalt, hstop] at hcrashed
      cases hcrashed
  | fault _ _ hstop _ =>
      rw [Trial.ofHalt, TrialEnd.ofHalt, hstop] at hcrashed
      cases hcrashed

/-! ## Sessions -/

/-- A session never fails, whatever its lines are. -/
theorem Session.exit_of_turns {count : Nat} {t : Transcript}
    (htape : r.memory.shortage? o.length.val = none)
    (hinput : r.memory.shortage? input.length = none)
    (hturns : Session.turns (Trial.run r o) o count input = some t) : t.exit = .success := by
  induction count generalizing input t with
  | zero => cases hturns
  | succ count ih =>
      rw [Session.turns] at hturns
      split at hturns
      · cases hturns
        rfl
      · dsimp only at hturns
        split at hturns
        · cases hturns
          rfl
        · obtain ⟨trial, htrial, hafter⟩ := Option.bind_eq_some_iff.mp hturns
          -- A line is a part of the input, so what its program writes has room.
          have hline : (Session.splitLine input).1.length ≤ input.length := List.length_take_le' _ _
          have htext := Memory.shortage?_of_le hinput
            (Nat.le_trans (Session.commandCount_lineText_le _) hline)
          have hends := Trial.ends_of_run htape htext htrial
          have hleft := (Trial.input_suffix_of_run htrial).trans (Session.splitLine_suffix input)
          split at hafter
          · rename_i cause hcrashed
            exact absurd hcrashed (hends.ending_ne_crashed cause)
          · obtain ⟨later, hlater, hsame⟩ := Option.bind_eq_some_iff.mp hafter
            cases hsame
            show later.exit = .success
            exact ih (Memory.shortage?_of_le hinput hleft.length_le) hlater

/-! ## Requests -/

variable {arguments : List String} {readFile : FileReader} {t : Transcript} {request : Request}
  {file : String} {shown : List UInt8}

/-- What a request takes for granted: its file has a name that can be asked for, and there is room
for the tape and for the texts that are run, which are in the file or, without one, in the input. -/
structure Request.Feasible (r : Resources) (request : Request) (readFile : FileReader)
    (input : List UInt8) : Prop where
  name : ∀ file, request.file? = some file → IsFileName file
  tape : r.memory.shortage? request.options.length.val = none
  file : ∀ file bytes, request.file? = some file → readFile file = .ok bytes →
    r.memory.shortage? bytes.length = none
  input : request.file? = none → r.memory.shortage? input.length = none

/-- Why a request fails, and what it has shown by then. -/
inductive Request.Fails (r : Resources) (request : Request) (readFile : FileReader)
    (input : List UInt8) : List UInt8 → Prop where
  | unreadable {file : String} {e : FileError} (hfile : request.file? = some file)
      (hread : readFile file = .error e) : Fails r request readFile input []
  | refused {file : String} {bytes : List UInt8} {e : CompileError}
      (hfile : request.file? = some file) (hread : readFile file = .ok bytes)
      (hsource : Program.ofSource (sourceText bytes) request.options.optimize = .error e) :
      Fails r request readFile input []
  | fault {file : String} {bytes : List UInt8} {program : Program} {halt : Halt} {f : Fault}
      (hfile : request.file? = some file) (hdump : request.options.dump = false)
      (hread : readFile file = .ok bytes)
      (hsource : Program.ofSource (sourceText bytes) request.options.optimize = .ok program)
      (hhalts : (request.options.machine r.memory program).Halts
        (.initial request.options.length input) halt)
      (hstop : halt.stop? = some (.fault f)) (hkind : f.cause.kind = .accessViolation) :
      Fails r request readFile input halt.state.output

/-- What a failure leaves behind: a report, and what was shown before. -/
structure Transcript.Failed (t : Transcript) (shown : List UInt8) : Prop where
  exit : t.exit = .failure
  stdout : t.stdout = shown
  notices : t.notices ≠ []

theorem Failure.notices_ne_nil (failure : Failure) (debug : Bool) (heading : String) :
    failure.notices debug heading ≠ [] := by
  cases debug <;> exact List.cons_ne_nil _ _

theorem Failure.failed_transcript (failure : Failure) (heading : String) :
    (failure.transcript o heading input).Failed [] :=
  ⟨rfl, rfl, failure.notices_ne_nil _ _⟩

theorem Trial.failed_transcript {trial : Trial} {failure : Failure}
    (hending : trial.ending = .failed failure) : (trial.transcript o).Failed trial.stdout := by
  rw [Trial.transcript, hending]
  exact ⟨rfl, rfl, List.append_ne_nil_of_right_ne_nil _ (failure.notices_ne_nil _ _)⟩

theorem Request.obey_of_file (hfile : request.file? = some file) (hname : IsFileName file) :
    request.obey r readFile input =
      if request.options.dump then some (dump request.options readFile file input)
      else runFile r request.options readFile file input := by
  simp only [Request.obey, hfile, not_not_intro hname, if_false]

/-- Whatever makes a request fail can be seen in what is left behind. -/
theorem Request.Fails.failed (hfails : request.Fails r readFile input shown)
    (hfeasible : request.Feasible r readFile input)
    (hobey : request.obey r readFile input = some t) : t.Failed shown := by
  cases hfails with
  | unreadable hfile hread =>
      rw [obey_of_file hfile (hfeasible.name _ hfile), dump, runFile, hread] at hobey
      split at hobey <;> cases hobey <;> exact Failure.failed_transcript _ _
  | refused hfile hread hsource =>
      rw [obey_of_file hfile (hfeasible.name _ hfile), dump, runFile, hread] at hobey
      split at hobey
      · simp only [hsource] at hobey
        cases hobey
        exact Failure.failed_transcript _ _
      · simp only [Trial.run, hsource] at hobey
        cases hobey
        exact Trial.failed_transcript rfl
  | @fault file bytes program halt f hfile hdump hread hsource hhalts hstop _ =>
      rw [obey_of_file hfile (hfeasible.name _ hfile), hdump, runFile, hread] at hobey
      obtain ⟨trial, htrial, rfl⟩ := Option.map_eq_some_iff.mp hobey
      simp only [Trial.run, hsource, hfeasible.tape] at htrial
      obtain ⟨other, hother, rfl⟩ := Option.map_eq_some_iff.mp htrial
      obtain rfl : other = halt := Machine.Halts.unique ⟨r.budget, hother⟩ hhalts
      have hending : (Trial.ofHalt request.options other).ending = .failed (.fault f) := by
        rw [Trial.ofHalt, TrialEnd.ofHalt, hstop]
      exact Trial.failed_transcript hending

theorem exit_dump {bytes : List UInt8} {program : Program} (hread : readFile file = .ok bytes)
    (hsource : Program.ofSource (sourceText bytes) o.optimize = .ok program) :
    (dump o readFile file input).exit = .success := by
  have hcompiled := Compilation.compiled_of_ofSource hsource
  obtain ⟨lines, hlines⟩ := Option.ne_none_iff_exists'.mp hcompiled.listing?_ne_none
  simp only [dump, hread, hsource, hlines]

/-- A request that does not fail succeeds. -/
theorem Request.success_or_fails (hfeasible : request.Feasible r readFile input)
    (hobey : request.obey r readFile input = some t) :
    t.exit = .success ∨ ∃ shown, request.Fails r readFile input shown := by
  cases hfile : request.file? with
  | none =>
      rw [obey, hfile] at hobey
      exact .inl (Session.exit_of_turns hfeasible.tape (hfeasible.input hfile) hobey)
  | some file =>
      rw [obey_of_file hfile (hfeasible.name _ hfile)] at hobey
      cases hread : readFile file with
      | error e => exact .inr ⟨_, .unreadable hfile hread⟩
      | ok bytes =>
          cases hsource : Program.ofSource (sourceText bytes) request.options.optimize with
          | error e => exact .inr ⟨_, .refused hfile hread hsource⟩
          | ok program =>
              split at hobey
              · cases hobey
                exact .inl (exit_dump hread hsource)
              · rename_i hdump
                rw [runFile, hread] at hobey
                obtain ⟨trial, htrial, rfl⟩ := Option.map_eq_some_iff.mp hobey
                have htext := Memory.shortage?_of_le (hfeasible.file file bytes hfile hread)
                  (commandCount_sourceText_le bytes)
                cases Trial.ends_of_run hfeasible.tape htext htrial with
                | refused hrefused => exact .inr ⟨_, .refused hfile hread hrefused⟩
                | completed _ _ hstop =>
                    left
                    rw [Trial.transcript, Trial.ofHalt, TrialEnd.ofHalt, hstop]
                | fault hprogram hhalts hstop hkind =>
                    exact .inr ⟨_, .fault hfile (Bool.eq_false_iff.mpr hdump) hread hprogram hhalts
                      hstop hkind⟩

/-! ## Command lines -/

/-- Why a command fails, and what it has shown by then. -/
inductive Fails (r : Resources) (arguments : List String) (readFile : FileReader)
    (input : List UInt8) : List UInt8 → Prop where
  | usage {e : UsageError} {message : String} (hrequest : Request.ofArguments arguments = .error e)
      (hmessage : e.message? = some message) : Fails r arguments readFile input []
  | request {request : Request} {shown : List UInt8}
      (hrequest : Request.ofArguments arguments = .ok request)
      (hfails : request.Fails r readFile input shown) : Fails r arguments readFile input shown

theorem Fails.failed (hfails : Fails r arguments readFile input shown)
    (hfeasible : ∀ request, Request.ofArguments arguments = .ok request →
      request.Feasible r readFile input)
    (hlaunch : launch r arguments readFile input = some t) : t.Failed shown := by
  cases hfails with
  | usage hrequest hmessage =>
      simp only [launch, hrequest, UsageError.transcript, hmessage] at hlaunch
      cases hlaunch
      exact ⟨rfl, rfl, List.cons_ne_nil _ _⟩
  | request hrequest hfails =>
      rw [launch, hrequest] at hlaunch
      exact hfails.failed (hfeasible _ hrequest) hlaunch

theorem success_or_fails
    (hfeasible : ∀ request, Request.ofArguments arguments = .ok request →
      request.Feasible r readFile input)
    (hlaunch : launch r arguments readFile input = some t) :
    t.exit = .success ∨ ∃ shown, Fails r arguments readFile input shown := by
  unfold launch at hlaunch
  split at hlaunch
  · rename_i e hrequest
    cases hmessage : e.message? with
    | none =>
        rw [UsageError.transcript, hmessage] at hlaunch
        cases hlaunch
        exact .inl rfl
    | some message => exact .inr ⟨_, .usage hrequest hmessage⟩
  · rename_i request hrequest
    rcases request.success_or_fails (hfeasible _ hrequest) hlaunch with hsuccess | ⟨shown, hfails⟩
    · exact .inl hsuccess
    · exact .inr ⟨shown, .request hrequest hfails⟩

theorem not_fails_of_help (hrequest : Request.ofArguments arguments = .error .help) :
    ¬ Fails r arguments readFile input shown := by
  intro hfails
  cases hfails with
  | usage hother hmessage =>
      cases hother.symm.trans hrequest
      cases hmessage
  | request hother _ => cases hother.symm.trans hrequest

theorem not_fails_of_session (hrequest : Request.ofArguments arguments = .ok request)
    (hnone : request.file? = none) : ¬ Fails r arguments readFile input shown := by
  intro hfails
  cases hfails with
  | usage hother _ => cases hother.symm.trans hrequest
  | request hother hfails =>
      cases hother.symm.trans hrequest
      cases hfails with
      | unreadable hfile _ => cases hfile.symm.trans hnone
      | refused hfile _ _ => cases hfile.symm.trans hnone
      | fault hfile _ _ _ _ _ _ => cases hfile.symm.trans hnone

theorem Notice.render_ne_empty (notice : Notice) (terminal : Bool) :
    notice.render terminal ≠ "" := by
  intro hempty
  have hlist := congrArg String.toList hempty
  cases notice with
  | plain text => simp [render] at hlist
  | error message => cases terminal <;> simp [render] at hlist

/-- Every notice is seen. -/
theorem Transcript.stderr_ne_empty (hnotices : t.notices ≠ []) (terminal : Bool) :
    t.stderr terminal ≠ "" := by
  obtain ⟨notice, rest, hlist⟩ := List.exists_cons_of_ne_nil hnotices
  rw [stderr, hlist, List.map_cons, String.join_cons]
  intro hempty
  exact notice.render_ne_empty terminal (String.append_eq_empty_iff.mp hempty).1

/-- A dump needs a file. -/
theorem file?_of_dump (hrequest : Request.ofArguments arguments = .ok request)
    (hdump : request.options.dump = true) : ∃ file, request.file? = some file := by
  cases ofGroups_eq_iff.mp hrequest with
  | accepted _ _ hneeded hreflects =>
      exact Option.ne_none_iff_exists'.mp (hneeded ((hreflects.flags .dump).mp hdump))

/-- A dump does not look at the input. -/
theorem dump_eq (readFile : FileReader) (file : String) (input other : List UInt8) :
    dump o readFile file other = { dump o readFile file input with input := other } := by
  unfold dump
  cases readFile file with
  | error e => rfl
  | ok bytes =>
      dsimp only
      cases Program.ofSource (sourceText bytes) o.optimize with
      | error e => rfl
      | ok program =>
          dsimp only
          cases program.listing? <;> rfl

/-- A command line that asks for a dump gets it without any input and without any step. -/
theorem launch_of_dump (hrequest : Request.ofArguments arguments = .ok request)
    (hdump : request.options.dump = true) (hlaunch : launch r arguments readFile input = some t)
    (other : Resources) (otherInput : List UInt8) :
    launch other arguments readFile otherInput = some { t with input := otherInput } := by
  obtain ⟨file, hfile⟩ := file?_of_dump hrequest hdump
  simp only [launch, hrequest, Request.obey, hfile, hdump, if_true] at hlaunch ⊢
  split at hlaunch
  · rename_i hname
    cases hlaunch
    rw [if_pos hname]
  · rename_i hname
    cases hlaunch
    rw [if_neg hname]
    exact congrArg some (dump_eq readFile file input otherInput)

/-- A command that halts succeeds or fails, and it fails for the listed reasons only.  All that it
has shown by then is what the program wrote before it left the tape, and the failure is reported.
To ask for help or to have a session is no failure.  A dump runs nothing and reads nothing: it is
the same without any step and on any other input. -/
theorem launch_ends_exactly (hlaunch : launch r arguments readFile input = some t)
    (hfeasible : ∀ request, Request.ofArguments arguments = .ok request →
      request.Feasible r readFile input) :
    (t.exit = .success ∨ t.exit = .failure) ∧
    (t.exit.status = 1 ↔ ∃ shown, Fails r arguments readFile input shown) ∧
    (t.exit.status = 0 ↔ ¬ ∃ shown, Fails r arguments readFile input shown) ∧
    (∀ shown, Fails r arguments readFile input shown →
      t.stdout = shown ∧ ∀ terminal, t.stderr terminal ≠ "") ∧
    (Request.ofArguments arguments = .error .help → t.exit.status = 0) ∧
    (∀ request, Request.ofArguments arguments = .ok request → request.file? = none →
      t.exit.status = 0) ∧
    ∀ request, Request.ofArguments arguments = .ok request → request.options.dump = true →
      t.input = input ∧ ∀ other otherInput,
        launch other arguments readFile otherInput = some { t with input := otherInput } := by
  have hfailed {shown} (hfails : Fails r arguments readFile input shown) : t.Failed shown :=
    hfails.failed hfeasible hlaunch
  have hfailure : t.exit = .failure ↔ ∃ shown, Fails r arguments readFile input shown := by
    refine ⟨fun hexit => ?_, fun ⟨shown, hfails⟩ => (hfailed hfails).exit⟩
    refine (success_or_fails hfeasible hlaunch).resolve_left fun hsuccess => ?_
    rw [hexit] at hsuccess
    cases hsuccess
  have hends : t.exit = .success ∨ t.exit = .failure :=
    (success_or_fails hfeasible hlaunch).imp_right hfailure.mpr
  have hzero : t.exit.status = 0 ↔ ¬ ∃ shown, Fails r arguments readFile input shown := by
    rw [← hfailure]
    rcases hends with hexit | hexit <;> simp [hexit, Exit.status]
  refine ⟨hends, ?_, hzero, fun shown hfails => ?_, fun hhelp => hzero.mpr ?_,
    fun request hrequest hnone => hzero.mpr ?_, fun request hrequest hdump => ?_⟩
  · rw [← hfailure]
    rcases hends with hexit | hexit <;> simp [hexit, Exit.status]
  · exact ⟨(hfailed hfails).stdout, Transcript.stderr_ne_empty (hfailed hfails).notices⟩
  · rintro ⟨shown, hfails⟩
    exact not_fails_of_help hhelp hfails
  · rintro ⟨shown, hfails⟩
    exact not_fails_of_session hrequest hnone hfails
  · have hsame := launch_of_dump hrequest hdump hlaunch
    exact ⟨congrArg Transcript.input (Option.some.inj (hlaunch.symm.trans (hsame r input))), hsame⟩

/-- A program that writes a byte and then leaves the tape is run, and then dumped without a step. -/
theorem launch_ends_exactly_of_fault :
    let r : Resources := ⟨3, .standard⟩
    let readFile : FileReader := fun _ => .ok [43, 46, 60]
    (∃ t, launch r ["--cells=2", "a.bf"] readFile [65] = some t ∧ t.exit.status = 1 ∧
      Fails r ["--cells=2", "a.bf"] readFile [65] [1] ∧ t.stdout = [1] ∧ t.stderr false ≠ "") ∧
    ∃ t, launch r ["--dump", "a.bf"] readFile [65] = some t ∧ t.exit.status = 0 ∧ t.input = [65] ∧
      launch ⟨0, .standard⟩ ["--dump", "a.bf"] readFile [] = some { t with input := [] } := by
  intro r readFile
  have hfeasible (o : Options) (hroom : r.memory.shortage? o.length.val = none) :
      (⟨some "a.bf", o⟩ : Request).Feasible r readFile [65] := by
    refine ⟨?_, hroom, ?_, nofun⟩
    · rintro _ ⟨⟩
      decide
    · rintro _ _ ⟨⟩ ⟨⟩
      decide
  have hrun : launch r ["--cells=2", "a.bf"] readFile [65] = some
      { exit := .failure, stdout := [1], input := [65],
        notices := [.error
          "Runtime error: Access violation, dp out of bounds (-1)\n  pc=0002 dp=0"] } := by
    decide +kernel
  have hdump : (launch r ["--dump", "a.bf"] readFile [65]).map Transcript.exit = some .success := by
    decide +kernel
  obtain ⟨t, ht, hexit⟩ := Option.map_eq_some_iff.mp hdump
  obtain ⟨-, hfails, -, hshown, -, -, -⟩ := launch_ends_exactly hrun (by
    rintro _ ⟨⟩
    exact hfeasible _ (by decide))
  obtain ⟨-, -, -, -, -, -, hdumped⟩ := launch_ends_exactly ht (by
    rintro _ ⟨⟩
    exact hfeasible _ (by decide))
  obtain ⟨shown, hreason⟩ := hfails.mp rfl
  obtain ⟨rfl, hstderr⟩ := hshown shown hreason
  obtain ⟨hinput, hsame⟩ := hdumped _ rfl rfl
  exact ⟨⟨_, hrun, rfl, hreason, rfl, hstderr false⟩,
    t, ht, by rw [hexit]; rfl, hinput, hsame _ _⟩

end CommandLine

end TapeLang
