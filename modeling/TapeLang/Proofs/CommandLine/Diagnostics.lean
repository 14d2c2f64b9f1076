import TapeLang.CommandLine.Launch
import TapeLang.Proofs.CommandLine.Arguments
import TapeLang.Proofs.Machine.Diagnostics

/-!
# Diagnostics on the command line

Three options ask for diagnostics: a trace, a profile, and tracebacks.  Everything that they lead to
is a notice, and notices go to standard error.  So each part of a command is compared up to its
notices: what it does under some options is what it does under the same options without diagnostics.

The arguments for diagnostics can be left out wherever they stand for themselves
(`withoutDiagnostics`).  The value of `--cells` stays, even if it looks like one of them.
-/

namespace TapeLang.CommandLine

open Machine (run_sameButRecords)

/-! ## Arguments -/

/-- The flag asks for diagnostics. -/
def Flag.isDiagnostic : Flag → Bool
  | debug => true
  | profile => true
  | trace => true
  | dump => false
  | noOptimize => false

/-- The group is a flag that asks for diagnostics. -/
def Group.isDiagnostic : Group → Bool
  | flag f => f.isDiagnostic
  | _ => false

/-- The arguments without those that ask for diagnostics. -/
def withoutDiagnostics : List String → List String
  | [] => []
  | ["--cells"] => ["--cells"]
  | "--cells" :: value :: rest => "--cells" :: value :: withoutDiagnostics rest
  | argument :: rest =>
    if argument = "--trace" ∨ argument = "--profile" ∨ argument = "--debug" then
      withoutDiagnostics rest
    else argument :: withoutDiagnostics rest

theorem isDiagnostic_ofArgument (argument : String) :
    (Group.ofArgument argument).isDiagnostic = true ↔
      argument = "--trace" ∨ argument = "--profile" ∨ argument = "--debug" := by
  constructor
  · intro hdiagnostic
    unfold Group.ofArgument at hdiagnostic
    split at hdiagnostic
    · cases hdiagnostic
    · split at hdiagnostic
      · rename_i f hflag
        unfold Flag.ofArgument? at hflag
        split at hflag <;> cases hflag
        · exact .inr (.inr rfl)
        · cases hdiagnostic
        · cases hdiagnostic
        · exact .inr (.inl rfl)
        · exact .inl rfl
      · split at hdiagnostic
        · cases hdiagnostic
        · split at hdiagnostic <;> cases hdiagnostic
  · rintro (rfl | rfl | rfl) <;> rfl

/-- Leaving out the arguments leaves out their groups, and no other group changes. -/
theorem groups_withoutDiagnostics (arguments : List String) :
    groups (withoutDiagnostics arguments) =
      (groups arguments).filter fun group => !group.isDiagnostic := by
  fun_induction withoutDiagnostics arguments with
  | case1 => rfl
  | case2 => rfl
  | case3 value rest ih => rw [groups, groups, ih, List.filter_cons_of_pos rfl]
  | case4 argument rest hdangling hvalued hdiagnostic ih =>
      have hplain : argument ≠ "--cells" := by
        rcases hdiagnostic with rfl | rfl | rfl <;> decide
      rw [groups_cons hplain, ih, List.filter_cons_of_neg]
      simpa using (isDiagnostic_ofArgument argument).mpr hdiagnostic
  | case5 argument rest hdangling hvalued hother ih =>
      have hplain : argument ≠ "--cells" := by
        rintro rfl
        cases rest with
        | nil => exact hdangling rfl rfl
        | cons value later => exact hvalued value later rfl rfl
      rw [groups_cons hplain, groups_cons hplain, ih, List.filter_cons_of_pos]
      simpa [← isDiagnostic_ofArgument] using hother

/-! ## Requests -/

/-- The options without diagnostics. -/
def Options.silent (o : Options) : Options :=
  { o with debug := false, profile := false, trace := false }

/-- What is asked for besides diagnostics. -/
def Collected.silent (c : Collected) : Collected :=
  { c with options := c.options.silent }

/-- The request without diagnostics. -/
def Request.silent (request : Request) : Request :=
  { request with options := request.options.silent }

theorem silent_add_of_isDiagnostic {group : Group} (hdiagnostic : group.isDiagnostic = true)
    (c : Collected) : ∃ more, c.add group = .ok more ∧ more.silent = c.silent := by
  cases group with
  | flag f =>
      cases f with
      | debug => exact ⟨_, rfl, rfl⟩
      | profile => exact ⟨_, rfl, rfl⟩
      | trace => exact ⟨_, rfl, rfl⟩
      | _ => cases hdiagnostic
  | _ => cases hdiagnostic

theorem silent_add_of_not_isDiagnostic {group : Group} (hother : group.isDiagnostic = false)
    (c : Collected) : c.silent.add group = (c.add group).map Collected.silent := by
  cases group with
  | flag f =>
      cases f with
      | dump => rfl
      | noOptimize => rfl
      | _ => cases hother
  | cells value =>
      simp only [Collected.add]
      cases cellCount? value <;> rfl
  | _ => rfl

theorem silent_foldlM_add (given : List Group) (c : Collected) :
    (given.filter fun group => !group.isDiagnostic).foldlM Collected.add c.silent =
      (given.foldlM Collected.add c).map Collected.silent := by
  induction given generalizing c with
  | nil => rfl
  | cons group rest ih =>
      cases hdiagnostic : group.isDiagnostic with
      | true =>
          obtain ⟨more, hadd, hsilent⟩ := silent_add_of_isDiagnostic hdiagnostic c
          rw [List.filter_cons_of_neg (by simp [hdiagnostic]), List.foldlM_cons, hadd, ← hsilent]
          exact ih more
      | false =>
          rw [List.filter_cons_of_pos (by simp [hdiagnostic]), List.foldlM_cons, List.foldlM_cons,
            silent_add_of_not_isDiagnostic hdiagnostic]
          cases c.add group with
          | error e => rfl
          | ok more => exact ih more

theorem silent_request (c : Collected) : c.silent.request = c.request.map Request.silent := by
  obtain ⟨options, files⟩ := c
  rcases files with _ | ⟨file, _ | ⟨other, rest⟩⟩
  · have hdump : options.silent.dump = options.dump := rfl
    simp only [Collected.request, Collected.silent, hdump]
    cases options.dump <;> rfl
  · rfl
  · rfl

/-- The arguments for diagnostics decide about nothing but diagnostics. -/
theorem ofArguments_withoutDiagnostics (arguments : List String) :
    Request.ofArguments (withoutDiagnostics arguments) =
      (Request.ofArguments arguments).map Request.silent := by
  have hfold := silent_foldlM_add (groups arguments) {}
  rw [Request.ofArguments, Request.ofArguments, groups_withoutDiagnostics]
  rw [show ({} : Collected).silent = {} from rfl] at hfold
  rw [hfold]
  cases (groups arguments).foldlM Collected.add {} with
  | error e => rfl
  | ok c => exact silent_request c

/-! ## Trials -/

/-- What a trial leaves behind besides notices. -/
def Trial.silent (t : Trial) : Trial :=
  { t with notices := [] }

/-- What a command leaves behind besides notices. -/
def Transcript.silent (t : Transcript) : Transcript :=
  { t with notices := [] }

theorem silent_ofHalt {first second : Halt} (hstop : second.stop? = first.stop?)
    (hstates : first.state.SameButRecords second.state) (o other : Options) :
    (Trial.ofHalt other second).silent = (Trial.ofHalt o first).silent := by
  have hending : TrialEnd.ofHalt second = TrialEnd.ofHalt first := by
    rw [TrialEnd.ofHalt, TrialEnd.ofHalt, hstop, hstates.pc]
  simp only [Trial.ofHalt, Trial.silent, hending, State.output, hstates.log, hstates.input]

theorem silent_run_machine {m n : Machine} (hmachines : m.SameButRecords n) (budget : Nat)
    (s : State) (o other : Options) :
    (n.run budget s).map (fun halt => (Trial.ofHalt other halt).silent) =
      (m.run budget s).map fun halt => (Trial.ofHalt o halt).silent := by
  have hsame : s.SameButRecords s := ⟨rfl, rfl, rfl, rfl⟩
  cases hrun : m.run budget s with
  | some halt =>
      obtain ⟨second, hsecond, hstop, hstates⟩ := run_sameButRecords hmachines hsame hrun
      rw [hsecond]
      exact congrArg some (silent_ofHalt hstop hstates o other)
  | none =>
      cases hother : n.run budget s with
      | none => rfl
      | some second =>
          obtain ⟨first, hfirst, -⟩ := run_sameButRecords hmachines.symm hsame hother
          rw [hrun] at hfirst
          cases hfirst

theorem silent_run (r : Resources) (o : Options) (text : String) (input : List UInt8) :
    (Trial.run r o.silent text input).map Trial.silent =
      (Trial.run r o text input).map Trial.silent := by
  have hoptimize : o.silent.optimize = o.optimize := rfl
  have hlength : o.silent.length = o.length := rfl
  rw [Trial.run, Trial.run, hoptimize, hlength]
  cases Program.ofSource text o.optimize with
  | error e => rfl
  | ok program =>
      cases r.memory.shortage? o.length.val with
      | some shortage => rfl
      | none =>
          have hmachines : (o.machine r.memory program).SameButRecords
              (o.silent.machine r.memory program) := ⟨rfl, rfl, rfl⟩
          simp only [Option.map_map]
          exact silent_run_machine hmachines _ _ o o.silent

/-! ## Sessions -/

/-- What follows on results that are alike is alike, if it goes by what makes them alike. -/
private theorem map_bind_eq {α β γ δ : Type} {alike : α → γ} {view : β → δ}
    {first second : Option α} {follow followOther : α → Option β}
    (halike : first.map alike = second.map alike)
    (hfollow : ∀ x y, alike x = alike y → (follow x).map view = (followOther y).map view) :
    (first.bind follow).map view = (second.bind followOther).map view := by
  cases first with
  | none =>
      rw [eq_comm, Option.map_none, Option.map_eq_none_iff] at halike
      rw [halike]
      rfl
  | some x =>
      rw [eq_comm, Option.map_some, Option.map_eq_some_iff] at halike
      obtain ⟨y, rfl, hxy⟩ := halike
      exact hfollow x y hxy.symm

namespace Session

theorem silent_after {trial otherTrial : Trial} {later otherLater : Transcript}
    (htrials : otherTrial.silent = trial.silent) (hlater : otherLater.silent = later.silent)
    (o other : Options) :
    (after other otherTrial otherLater).silent = (after o trial later).silent := by
  simp only [Trial.silent, Trial.mk.injEq] at htrials
  simp only [Transcript.silent, Transcript.mk.injEq] at hlater
  simp only [after, Transcript.silent, htrials, hlater]

/-- A session that tries its lines in the same way, up to notices, is the same session. -/
theorem silent_turns {attempt otherAttempt : String → List UInt8 → Option Trial}
    (hattempts : ∀ text rest,
      (otherAttempt text rest).map Trial.silent = (attempt text rest).map Trial.silent)
    (o other : Options) (count : Nat) (input : List UInt8) :
    (turns otherAttempt other count input).map Transcript.silent =
      (turns attempt o count input).map Transcript.silent := by
  induction count generalizing input with
  | zero => rfl
  | succ count ih =>
      rw [turns, turns]
      split
      · rfl
      · dsimp only
        split
        · rfl
        · refine map_bind_eq (hattempts _ _) fun otherTrial trial hsilent => ?_
          obtain ⟨hending, -, -, hinput⟩ := Trial.mk.inj hsilent
          rw [hending, hinput]
          cases trial.ending with
          | crashed cause => exact congrArg some (silent_after hsilent rfl o other)
          | _ =>
              refine map_bind_eq (ih trial.input) fun otherLater later hlater => ?_
              exact congrArg some (silent_after hsilent hlater o other)

end Session

/-! ## Commands -/

theorem silent_transcript {trial otherTrial : Trial} (htrials : otherTrial.silent = trial.silent)
    (o other : Options) :
    (otherTrial.transcript other).silent = (trial.transcript o).silent := by
  obtain ⟨hending, hstdout, -, hinput⟩ := Trial.mk.inj htrials
  rw [Trial.transcript, Trial.transcript, hending, hstdout, hinput]
  cases trial.ending <;> rfl

theorem silent_runFile (r : Resources) (o : Options) (readFile : FileReader) (file : String)
    (input : List UInt8) :
    (runFile r o.silent readFile file input).map Transcript.silent =
      (runFile r o readFile file input).map Transcript.silent := by
  rw [runFile, runFile]
  cases readFile file with
  | error e => rfl
  | ok bytes =>
      have hmap (o : Options) (trial? : Option Trial) : trial?.map (Trial.transcript o) =
          trial?.bind fun trial => some (trial.transcript o) := Option.map_eq_bind
      simp only [hmap]
      refine map_bind_eq (silent_run r o (sourceText bytes) input)
        fun otherTrial trial hsilent => ?_
      exact congrArg some (silent_transcript hsilent o o.silent)

theorem silent_dump (o : Options) (readFile : FileReader) (file : String) (input : List UInt8) :
    (dump o.silent readFile file input).silent = (dump o readFile file input).silent := by
  have hoptimize : o.silent.optimize = o.optimize := rfl
  rw [dump, dump, hoptimize]
  cases readFile file with
  | error e => rfl
  | ok bytes =>
      dsimp only
      cases Program.ofSource (sourceText bytes) o.optimize with
      | error e => rfl
      | ok program => rfl

theorem silent_obey (r : Resources) (request : Request) (readFile : FileReader)
    (input : List UInt8) :
    (request.silent.obey r readFile input).map Transcript.silent =
      (request.obey r readFile input).map Transcript.silent := by
  obtain ⟨file?, o⟩ := request
  cases file? with
  | none => exact Session.silent_turns (silent_run r o) o o.silent _ input
  | some file =>
      have hdump : o.silent.dump = o.dump := rfl
      simp only [Request.obey, Request.silent, hdump]
      split
      · rfl
      · split
        · exact congrArg some (silent_dump o readFile file input)
        · exact silent_runFile r o readFile file input

/-- Without the arguments for diagnostics, a command does the same up to its notices. -/
theorem silent_launch (r : Resources) (arguments : List String) (readFile : FileReader)
    (input : List UInt8) :
    (launch r (withoutDiagnostics arguments) readFile input).map Transcript.silent =
      (launch r arguments readFile input).map Transcript.silent := by
  rw [launch, launch, ofArguments_withoutDiagnostics]
  cases Request.ofArguments arguments with
  | error e => rfl
  | ok request => exact silent_obey r request readFile input

/-- What is seen of a command: the exit status and the two outputs. -/
structure Seen where
  status : UInt8
  stdout : List UInt8
  stderr : String

/-- What is seen of a transcript. -/
def Transcript.seen (terminal : Bool) (t : Transcript) : Seen where
  status := t.exit.status
  stdout := t.stdout
  stderr := t.stderr terminal

/-- Diagnostics do not interfere.  Within the same budget of steps, a run ends in the same way with
and without a trace and a profile, whatever has been recorded before; a profile gets the same
records behind the earlier ones, also if the run is stopped.  And two command lines that differ in
nothing but arguments for diagnostics lead to the same exit status and the same standard output, on
a terminal or not. -/
theorem diagnostics_do_not_interfere :
    (∀ (m n : Machine) (earlier others : List String) (length : TapeLength) (input : List UInt8)
      (budget : Nat) (halt : Halt), m.SameButRecords n →
      m.run budget (.recording earlier length input) = some halt →
      ∃ other, n.run budget (.recording others length input) = some other ∧
        other.stop? = halt.stop? ∧ halt.state.SameButRecords other.state ∧
        (n.profiled = true → other.state.profile =
          ({} : Profile).recordAll (others ++ n.passedWithin budget (.initial length input)))) ∧
    ∀ (r : Resources) (arguments others : List String) (readFile : FileReader) (input : List UInt8)
      (t : Transcript), withoutDiagnostics others = withoutDiagnostics arguments →
      launch r arguments readFile input = some t →
      ∃ other, launch r others readFile input = some other ∧
        ∀ terminal otherTerminal, (other.seen otherTerminal).status = (t.seen terminal).status ∧
          (other.seen otherTerminal).stdout = (t.seen terminal).stdout := by
  constructor
  · intro m n earlier others length input budget halt hmachines hrun
    exact Machine.run_recording hmachines hrun others
  · intro r arguments others readFile input t hsame hlaunch
    have hsilent := silent_launch r others readFile input
    rw [hsame, silent_launch, hlaunch, Option.map_some, eq_comm, Option.map_eq_some_iff] at hsilent
    obtain ⟨other, hother, hparts⟩ := hsilent
    obtain ⟨hexit, hstdout, -, -⟩ := Transcript.mk.inj hparts
    refine ⟨other, hother, fun terminal otherTerminal => ⟨?_, hstdout⟩⟩
    exact congrArg Exit.status hexit

/-- A loop is passed by, a byte is written, and the tape is left.  The records of the machine with
diagnostics start with two that were there before, and a command leads to the same on a terminal. -/
theorem diagnostics_do_not_interfere_of_violation :
    let program : Program := .ofList [.of .jumpIfZero 2, .repeated .add 1, .of .jumpIfNonzero 0,
      .repeated .add 1, .repeated .write 1, .repeated (.move .left) 1]
    let plain : Machine := { program }
    let recorder : Machine := { program, traced := true, profiled := true }
    let readFile : FileReader := fun _ => .ok [91, 43, 93, 43, 46, 60]
    (∃ halt other, plain.run 5 (.recording [] .standard []) = some halt ∧
      recorder.run 5 (.recording ["[.]", "[,]"] .standard []) = some other ∧
      halt.stop? = some (.fault ⟨.outOfBounds (-1), 5, 0⟩) ∧
      other.stop? = some (.fault ⟨.outOfBounds (-1), 5, 0⟩) ∧
      halt.state.output = [1] ∧ other.state.output = [1] ∧
      other.state.profile = ⟨[("[.]", 1), ("[,]", 1), (program.loopSource 0 2, 1)]⟩) ∧
    ∃ t other, launch ⟨6, .unbounded⟩ ["a"] readFile [] = some t ∧
      launch ⟨6, .unbounded⟩ ["--trace", "a", "--debug"] readFile [] = some other ∧
      (t.seen false).status = 1 ∧ (other.seen true).status = 1 ∧
      (t.seen false).stdout = [1] ∧ (other.seen true).stdout = [1] := by
  intro program plain recorder readFile
  obtain ⟨hruns, hlaunches⟩ := diagnostics_do_not_interfere
  constructor
  · obtain ⟨halt, hrun, hstop, houtput⟩ :
        ∃ halt, plain.run 5 (.recording [] .standard []) = some halt ∧
          halt.stop? = some (.fault ⟨.outOfBounds (-1), 5, 0⟩) ∧ halt.state.output = [1] :=
      ⟨_, rfl, rfl, rfl⟩
    obtain ⟨other, hother, hsameStop, hsame, hprofile⟩ :=
      hruns plain recorder [] ["[.]", "[,]"] .standard [] 5 halt ⟨rfl, rfl, rfl⟩ hrun
    refine ⟨halt, other, hrun, hother, hstop, hsameStop.trans hstop, houtput, ?_, ?_⟩
    · rw [State.output, hsame.log]
      exact houtput
    · exact hprofile rfl
  · have harguments :
        withoutDiagnostics ["--trace", "a", "--debug"] = withoutDiagnostics ["a"] := by
      decide
    obtain ⟨t, hplain, hstatus, hstdout⟩ :
        ∃ t, launch ⟨6, .unbounded⟩ ["a"] readFile [] = some t ∧ (t.seen false).status = 1 ∧
          (t.seen false).stdout = [1] :=
      ⟨_, rfl, rfl, rfl⟩
    obtain ⟨other, hother, hseen⟩ := hlaunches _ _ _ readFile [] _ harguments hplain
    obtain ⟨hotherStatus, hotherStdout⟩ := hseen false true
    exact ⟨t, other, hplain, hother, hstatus, hotherStatus.trans hstatus, hstdout,
      hotherStdout.trans hstdout⟩

end TapeLang.CommandLine
