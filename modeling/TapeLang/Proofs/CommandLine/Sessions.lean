import TapeLang.CommandLine.Session
import TapeLang.Proofs.Machine.Reads

/-!
# Sessions one after another

A session keeps nothing from one line to the next but the input that is left.  So a session on some
lines and then on more input is the session on these lines, and after it the session on the rest
(`session_composes`), if the first lines are used up line by line: none of them is a quit word,
every program halts without a crash, and none asks for bytes behind the last line (`RunsOut`).

Programs take their bytes from the same input, and they may take a part of a line and leave the rest
of it as the next one.  What they leave is always the end of what there was, so it ends where a line
ends.  And a program that does not ask for more than there is cannot tell whether more input follows
(`Trial.run_append`).
-/

namespace TapeLang.CommandLine

/-- The number of bytes that a command read. -/
def Transcript.consumed (t : Transcript) (input : List UInt8) : Nat :=
  input.length - t.input.length

/-! ## Trials -/

namespace Trial

variable {r : Resources} {o : Options} {text : String} {input : List UInt8} {trial : Trial}

/-- The program of a text asks for a byte behind the end of the input. -/
def readsPastEnd (r : Resources) (o : Options) (text : String) (input : List UInt8) : Bool :=
  match Program.ofSource text o.optimize with
  | .error _ => false
  | .ok program =>
    ((o.machine r.memory program).run r.budget (.initial o.length input)).any
      fun halt => halt.state.log.toList.contains (.read none)

theorem input_suffix_of_run (hrun : run r o text input = some trial) : trial.input <:+ input := by
  unfold run at hrun
  split at hrun
  · cases hrun
    exact List.suffix_refl _
  · split at hrun
    · cases hrun
      exact List.suffix_refl _
    · obtain ⟨halt, hhalt, rfl⟩ := Option.map_eq_some_iff.mp hrun
      exact ⟨_, Machine.given_of_halts ⟨r.budget, hhalt⟩⟩

/-- A trial is the same with more input behind its own, which is left over. -/
theorem run_append (hrun : run r o text input = some trial)
    (hreads : readsPastEnd r o text input = false) (more : List UInt8) :
    run r o text (input ++ more) = some { trial with input := trial.input ++ more } := by
  unfold run at hrun ⊢
  unfold readsPastEnd at hreads
  cases hprogram : Program.ofSource text o.optimize with
  | error e =>
      rw [hprogram] at hrun
      cases hrun
      rfl
  | ok program =>
      rw [hprogram] at hrun hreads
      dsimp only at hrun hreads ⊢
      split at hrun
      · cases hrun
        rfl
      · obtain ⟨halt, hhalt, rfl⟩ := Option.map_eq_some_iff.mp hrun
        rw [hhalt, Option.any_some, List.contains_eq_mem, decide_eq_false_iff_not] at hreads
        obtain ⟨other, hother, hstop, hsame, hinput⟩ := Machine.run_append_input hhalt hreads more
        have hending : TrialEnd.ofHalt other = TrialEnd.ofHalt halt := by
          rw [TrialEnd.ofHalt, TrialEnd.ofHalt, hstop, hsame.pc]
        rw [hother]
        simp only [Option.map_some, ofHalt, hending, hsame.output, hinput, Options.diagnostics,
          hsame.trace, hsame.profile]

end Trial

/-! ## Lines -/

namespace Session

variable {r : Resources} {o : Options} {input : List UInt8} {trial : Trial}

/-- Every line has its line feed, the last one included. -/
def Lines (input : List UInt8) : Prop :=
  input = [] ∨ input.getLast? = some 0x0A

theorem Lines.of_suffix {rest : List UInt8} (hlines : Lines input) (hsuffix : rest <:+ input) :
    Lines rest := by
  obtain ⟨front, rfl⟩ := hsuffix
  cases hrest : rest with
  | nil => exact .inl rfl
  | cons byte tail =>
      right
      rcases hlines with hnil | hlast
      · rw [hrest, List.append_eq_nil_iff] at hnil
        cases hnil.2
      · rw [List.getLast?_append, hrest, List.getLast?_cons, Option.some_or] at hlast
        rw [List.getLast?_cons, hlast]

theorem splitLine_suffix (input : List UInt8) : (splitLine input).2 <:+ input :=
  List.drop_suffix _ _

theorem length_splitLine_lt (hinput : input ≠ []) : (splitLine input).2.length < input.length := by
  have hpos := List.length_pos_iff.mpr hinput
  rw [splitLine, List.length_drop]
  omega

theorem splitLine_of_line {line : List UInt8} (hline : 0x0A ∉ line) (rest : List UInt8) :
    splitLine (line ++ 0x0A :: rest) = (line ++ [0x0A], rest) := by
  have hbody : (line ++ 0x0A :: rest).takeWhile (· ≠ 0x0A) = line := by
    rw [List.takeWhile_append_of_pos, List.takeWhile_cons_of_neg (by simp), List.append_nil]
    intro byte hmem
    exact decide_eq_true (ne_of_mem_of_not_mem hmem hline)
  have hsplit : line ++ 0x0A :: rest = (line ++ [0x0A]) ++ rest := (List.append_cons ..)
  have hlength : line.length + 1 = (line ++ [0x0A]).length := by
    rw [List.length_append, List.length_singleton]
  simp only [splitLine, hbody]
  rw [hsplit, hlength, List.take_left, List.drop_left]

/-- The first line ends at its line feed, whatever follows. -/
theorem splitLine_append (hinput : input ≠ []) (hlines : Lines input) (more : List UInt8) :
    splitLine (input ++ more) = ((splitLine input).1, (splitLine input).2 ++ more) := by
  have hfeed : 0x0A ∈ input := List.mem_of_getLast? (hlines.resolve_left hinput)
  obtain ⟨line, rest, rfl, hline⟩ := List.eq_append_cons_of_mem hfeed
  rw [List.append_assoc, List.cons_append, splitLine_of_line hline, splitLine_of_line hline]

/-! ## Turns -/

theorem input_suffix_of_turns {count : Nat} {t : Transcript}
    (hturns : turns (Trial.run r o) o count input = some t) : t.input <:+ input := by
  induction count generalizing input t with
  | zero => cases hturns
  | succ count ih =>
      rw [turns] at hturns
      split at hturns
      · cases hturns
        exact List.suffix_refl _
      · dsimp only at hturns
        split at hturns
        · cases hturns
          exact splitLine_suffix input
        · obtain ⟨trial, htrial, hafter⟩ := Option.bind_eq_some_iff.mp hturns
          have hrest := (Trial.input_suffix_of_run htrial).trans (splitLine_suffix input)
          split at hafter
          · cases hafter
            exact hrest
          · obtain ⟨later, hlater, hsame⟩ := Option.bind_eq_some_iff.mp hafter
            cases hsame
            exact (ih hlater).trans hrest

/-- A session takes no more turns than its input has bytes, and one more. -/
theorem turns_eq_of_lt {count other : Nat} (hcount : input.length < count)
    (hother : input.length < other) :
    turns (Trial.run r o) o count input = turns (Trial.run r o) o other input := by
  induction count generalizing input other with
  | zero => cases hcount
  | succ count ih =>
      obtain ⟨other, rfl⟩ : ∃ fewer, other = fewer + 1 := ⟨other - 1, by omega⟩
      rw [turns, turns]
      split
      · rfl
      · rename_i hempty
        dsimp only
        split
        · rfl
        · cases htrial :
            Trial.run r o (.ofList (lineText (splitLine input).1)) (splitLine input).2 with
          | none => rfl
          | some trial =>
              have hrest := (Trial.input_suffix_of_run htrial).length_le
              have hless := length_splitLine_lt (mt List.isEmpty_iff.mpr hempty)
              have hlater : turns (Trial.run r o) o count trial.input =
                  turns (Trial.run r o) o other trial.input := ih (by omega) (by omega)
              simp only [Option.bind_eq_bind, Option.bind_some, hlater]

/-- The first turn of a session, if the session goes on after it. -/
theorem run_of_turn (hinput : input ≠ []) (hquit : isQuit (lineText (splitLine input).1) = false)
    (htrial : Trial.run r o (.ofList (lineText (splitLine input).1)) (splitLine input).2 =
      some trial)
    (hending : ∀ cause, trial.ending ≠ .crashed cause) :
    run r o input = (run r o trial.input).map (after o trial) := by
  have hrest := (Trial.input_suffix_of_run htrial).length_le
  have hless := length_splitLine_lt hinput
  have hlater : turns (Trial.run r o) o input.length trial.input = run r o trial.input :=
    turns_eq_of_lt (by omega) (Nat.lt_succ_self _)
  rw [run, turns, if_neg (mt List.isEmpty_iff.mp hinput)]
  dsimp only
  rw [hquit, if_neg Bool.false_ne_true, htrial, ← hlater, Option.map_eq_bind]
  cases hend : trial.ending with
  | crashed cause => exact absurd hend (hending cause)
  | _ =>
      simp only [Option.bind_eq_bind, Option.bind_some, hend]
      rfl

/-! ## Sessions that use up their lines -/

/-- The session uses up its input line by line: no line is a quit word, every program halts without
a crash, and none asks for bytes behind the input. -/
inductive RunsOut (r : Resources) (o : Options) : List UInt8 → Prop where
  | done : RunsOut r o []
  | turn {input : List UInt8} {trial : Trial} (hinput : input ≠ [])
      (hquit : isQuit (lineText (splitLine input).1) = false)
      (htrial : Trial.run r o (.ofList (lineText (splitLine input).1)) (splitLine input).2 =
        some trial)
      (hending : ∀ cause, trial.ending ≠ .crashed cause)
      (hreads : Trial.readsPastEnd r o (.ofList (lineText (splitLine input).1))
        (splitLine input).2 = false)
      (hrest : RunsOut r o trial.input) : RunsOut r o input

/-- What a session leaves behind that has already shown something and given notices. -/
def behind (shown : List UInt8) (notices : List Notice) (later : Transcript) : Transcript :=
  { later with stdout := shown ++ later.stdout, notices := notices ++ later.notices }

theorem run_append_of_runsOut {first : List UInt8} (hlines : Lines first)
    (hruns : RunsOut r o first) :
    ∃ shown notices,
      run r o first = some { stdout := shown ++ prompt ++ [0x0A], notices, input := [] } ∧
      ∀ second, run r o (first ++ second) = (run r o second).map (behind shown notices) := by
  induction hruns with
  | done =>
      refine ⟨[], [], rfl, fun second => ?_⟩
      have hsame : behind [] [] = id := rfl
      rw [hsame, Option.map_id]
      rfl
  | @turn input trial hinput hquit htrial hending hreads _ ih =>
      have hleft := (Trial.input_suffix_of_run htrial).trans (splitLine_suffix input)
      obtain ⟨shown, notices, hfirst, hsecond⟩ := ih (hlines.of_suffix hleft)
      refine ⟨prompt ++ trial.stdout ++ shown,
        trial.notices ++ endNotices o trial.ending ++ notices, ?_, fun second => ?_⟩
      · rw [run_of_turn hinput hquit htrial hending, hfirst, Option.map_some, after]
        simp only [List.append_assoc]
      · have hsplit := splitLine_append hinput hlines second
        have hquitBoth : isQuit (lineText (splitLine (input ++ second)).1) = false := by
          rw [hsplit]
          exact hquit
        have htrialBoth : Trial.run r o (.ofList (lineText (splitLine (input ++ second)).1))
            (splitLine (input ++ second)).2 =
              some { trial with input := trial.input ++ second } := by
          rw [hsplit]
          exact Trial.run_append htrial hreads second
        rw [run_of_turn (List.append_ne_nil_of_left_ne_nil hinput second) hquitBoth htrialBoth
          hending, hsecond, Option.map_map]
        exact Option.map_congr fun later _ => by
          simp only [Function.comp_apply, after, behind, List.append_assoc]

end Session

theorem Transcript.stderr_append {first second whole : Transcript}
    (hnotices : whole.notices = first.notices ++ second.notices) (terminal : Bool) :
    whole.stderr terminal = first.stderr terminal ++ second.stderr terminal := by
  rw [stderr, hnotices, List.map_append, String.join_append]
  rfl

/-- A session that uses up its lines, and goes on with more input behind them, shows and reports
what it does without the rest, and then what a new session on the rest does.  It reads all of the
first lines and as much of the rest as the new session. -/
theorem session_composes {r : Resources} {o : Options} {first : List UInt8}
    (hlines : Session.Lines first) (hruns : Session.RunsOut r o first) :
    ∃ shown t, Session.run r o first = some t ∧ t.exit = .success ∧
      t.stdout = shown ++ Text.encodeUtf8 "ccbf> " ++ [0x0A] ∧ t.consumed first = first.length ∧
      ∀ second, (Session.run r o second = none → Session.run r o (first ++ second) = none) ∧
        ∀ later, Session.run r o second = some later →
          ∃ whole, Session.run r o (first ++ second) = some whole ∧ whole.exit = later.exit ∧
            whole.stdout = shown ++ later.stdout ∧
            (∀ terminal, whole.stderr terminal = t.stderr terminal ++ later.stderr terminal) ∧
            whole.consumed (first ++ second) = first.length + later.consumed second := by
  obtain ⟨shown, notices, hfirst, hsecond⟩ := Session.run_append_of_runsOut hlines hruns
  refine ⟨shown, _, hfirst, rfl, rfl, rfl, fun second => ⟨fun hnone => ?_, fun later hlater => ?_⟩⟩
  · rw [hsecond, hnone, Option.map_none]
  · have hwhole := hsecond second
    rw [hlater, Option.map_some] at hwhole
    refine ⟨_, hwhole, rfl, rfl, Transcript.stderr_append rfl, ?_⟩
    have hleft := (Session.input_suffix_of_turns hlater).length_le
    show (first ++ second).length - later.input.length =
      first.length + (second.length - later.input.length)
    rw [List.length_append]
    omega

/-- The lines are a text that is refused, one that leaves the tape, one that takes its byte from the
line behind it, and what is left of this line.  Behind them the session is ended. -/
theorem session_composes_of_failures :
    let r : Resources := ⟨4, .unbounded⟩
    let o : Options := { length := ⟨2, Nat.two_pos⟩ }
    let first : List UInt8 := [91, 10, 60, 10, 44, 46, 10, 65, 43, 46, 10]
    let second : List UInt8 := [58, 113, 10]
    Session.Lines first ∧ Session.RunsOut r o first ∧
      ∃ shown t later whole, Session.run r o first = some t ∧
        t.stdout = shown ++ Text.encodeUtf8 "ccbf> " ++ [0x0A] ∧
        Session.run r o second = some later ∧ Session.run r o (first ++ second) = some whole ∧
        whole.stdout = shown ++ later.stdout ∧ whole.consumed (first ++ second) = 14 := by
  intro r o first second
  have hlines : Session.Lines first := .inr rfl
  have hrest : Session.RunsOut r o [43, 46, 10] :=
    @Session.RunsOut.turn r o _ { ending := .completed, stdout := [1], input := [] } (by decide) rfl
      rfl (fun _ => TrialEnd.noConfusion) rfl .done
  have hreading : Session.RunsOut r o [44, 46, 10, 65, 43, 46, 10] :=
    @Session.RunsOut.turn r o _ { ending := .completed, stdout := [65], input := [43, 46, 10] }
      (by decide) rfl rfl (fun _ => TrialEnd.noConfusion) rfl hrest
  have hfault : Session.RunsOut r o [60, 10, 44, 46, 10, 65, 43, 46, 10] :=
    @Session.RunsOut.turn r o _
      { ending := .failed (.fault ⟨.outOfBounds (-1), 0, 0⟩),
        input := [44, 46, 10, 65, 43, 46, 10] }
      (by decide) rfl rfl (fun _ => TrialEnd.noConfusion) rfl hreading
  have hruns : Session.RunsOut r o [91, 10, 60, 10, 44, 46, 10, 65, 43, 46, 10] :=
    @Session.RunsOut.turn r o _
      { ending := .failed (.compile ⟨.opening, ⟨0, 1, 1⟩⟩),
        input := [60, 10, 44, 46, 10, 65, 43, 46, 10] }
      (by decide) rfl rfl (fun _ => TrialEnd.noConfusion) rfl hfault
  obtain ⟨shown, t, hfirst, -, hprompt, -, hmore⟩ := session_composes hlines hruns
  have hlater :
      Session.run r o [58, 113, 10] = some { stdout := Session.prompt, input := [] } := rfl
  obtain ⟨whole, hwhole, -, hstdout, -, hconsumed⟩ := (hmore second).2 _ hlater
  exact ⟨hlines, hruns, shown, t, _, whole, hfirst, hprompt, hlater, hwhole, hstdout, hconsumed⟩

end TapeLang.CommandLine
