import TapeLang.Proofs.Compilation.Comments
import TapeLang.Proofs.Refinement.Optimization
import TapeLang.Proofs.Source.Bytes

/-!
# Comments change no run

Comments keep runs apart and loops from being fused, so the optimized programs of two texts with the
same commands can be different.  Without optimization the texts have one program, and both optimized
programs run as it does (`runs_agree_of_sameCommands`).  This is also true of runs that never end:
what one of them has written so far, the other one comes to write.

A source file has comments of a further kind: bytes that are no text.  Its text has the commands of
its bytes (`commands_sourceText`), so all that a file says is in its command bytes
(`file_means_its_commands`).
-/

namespace TapeLang

/-! ## Runs that end like a third one -/

theorem Halt.EndsLike.of_common {first second third : Halt} (hfirst : first.EndsLike third)
    (hsecond : second.EndsLike third) : first.EndsLike second := by
  rcases hfirst with ⟨hstop, hthird, htape⟩ | ⟨hstop, fault, target, hthird, -⟩
  · rcases hsecond with ⟨hother, -, hotherTape⟩ | ⟨-, fault, target, hfault, -⟩
    · exact .inl ⟨hstop, hother, htape.trans hotherTape.symm⟩
    · rw [hthird] at hfault
      cases hfault
  · rcases hsecond with ⟨-, hfault, -⟩ | ⟨hother, -⟩
    · rw [hthird] at hfault
      cases hfault
    · exact .inr ⟨hstop, hother⟩

theorem Halt.SameEnd.of_common {first second third : Halt} (hfirst : first.SameEnd third)
    (hsecond : second.SameEnd third) : first.SameEnd second where
  output := hfirst.output.trans hsecond.output.symm
  consumed := hfirst.consumed.trans hsecond.consumed.symm
  ending := hfirst.ending.of_common hsecond.ending

namespace Machine

variable {m n : Machine} {length : TapeLength} {input : List UInt8}

/-- Whatever the first machine has written and read at some moment of its run, the second one comes
to write and read as well. -/
def StreamsWithin (m n : Machine) (length : TapeLength) (input : List UInt8) : Prop :=
  ∀ turns s, m.system.Goes turns (.initial length input) s →
    ∃ more t, n.system.Goes more (.initial length input) t ∧ s.StreamsWithin t

theorem StreamsWithin.trans {k : Machine} (hfirst : m.StreamsWithin n length input)
    (hsecond : n.StreamsWithin k length input) : m.StreamsWithin k length input := by
  intro turns s hgoes
  obtain ⟨more, t, hother, hwithin⟩ := hfirst turns s hgoes
  obtain ⟨most, u, hlast, hlastWithin⟩ := hsecond more t hother
  exact ⟨most, u, hlast, hwithin.trans hlastWithin⟩

/-- Both machines halt or not, and if they do, their runs end in the same way.  A run that never
ends can be watched: neither machine writes or reads what the other one does not. -/
structure RunsLike (m n : Machine) (length : TapeLength) (input : List UInt8) : Prop where
  halts_iff : (∃ halt, m.Halts (.initial length input) halt) ↔
    ∃ halt, n.Halts (.initial length input) halt
  sameEnd : ∀ first second, m.Halts (.initial length input) first →
    n.Halts (.initial length input) second → first.SameEnd second
  forth : m.StreamsWithin n length input
  back : n.StreamsWithin m length input

theorem RunsLike.of_common {k : Machine} (hfirst : m.RunsLike k length input)
    (hsecond : n.RunsLike k length input) : m.RunsLike n length input where
  halts_iff := hfirst.halts_iff.trans hsecond.halts_iff.symm
  sameEnd first second hm hn := by
    obtain ⟨third, hk⟩ := hfirst.halts_iff.mp ⟨first, hm⟩
    exact (hfirst.sameEnd first third hm hk).of_common (hsecond.sameEnd second third hn hk)
  forth := hfirst.forth.trans hsecond.back
  back := hsecond.forth.trans hfirst.back

/-! ## Runs with and without optimization -/

theorem streamsWithin_of_unrolls (hunrolls : m.Unrolls n) (length : TapeLength)
    (input : List UInt8) : m.StreamsWithin n length input := by
  intro turns s hgoes
  obtain ⟨more, t, hother, place, htracks⟩ :=
    (simulation_of_unrolls hunrolls).goes ⟨0, tracks_initial m n length input⟩ hgoes
  have hgiven : s.given = t.given := (given_of_goes hgoes).trans (given_of_goes hother).symm
  refine ⟨more, t, hother, State.streamsWithin_of_sameStreams hgiven ?_⟩
  rw [htracks.world]
  exact .refl _

/-- The second machine may be in the middle of what the first one does in a single step.  When that
step is over, the first one has written and read all of it. -/
theorem streamsWithin_of_unrolls_back (hunrolls : m.Unrolls n) (length : TapeLength)
    (input : List UInt8) : n.StreamsWithin m length input := by
  intro turns t hgoes
  obtain ⟨more, s, hother, hahead⟩ :=
    (simulation_of_unrolls hunrolls).exists_ahead ⟨0, tracks_initial m n length input⟩ hgoes
  refine ⟨more, s, hother, ?_⟩
  cases hahead with
  | @next last _ hrest htracked =>
      obtain ⟨place, htracks⟩ := htracked
      have hgiven : last.given = s.given :=
        (given_of_goes (hgoes.trans hrest)).trans (given_of_goes hother).symm
      apply (streamsWithin_of_goes hrest).trans
      apply State.streamsWithin_of_sameStreams hgiven
      rw [htracks.world]
      exact .refl _
  | @ended _ result hturn hhalts hagrees =>
      have hlast := system_halts_iff.mp (hgoes.halts hhalts)
      have hgiven : result.state.given = s.given :=
        (given_of_halts hlast).trans (given_of_goes hother).symm
      apply (streamsWithin_of_halts (system_halts_iff.mp hhalts)).trans
      apply State.streamsWithin_of_sameStreams hgiven
      exact hagrees.streams.symm.trans (sameStreams_of_ended hturn)

theorem runsLike_of_unrolls (hunrolls : m.Unrolls n) (length : TapeLength) (input : List UInt8) :
    m.RunsLike n length input where
  halts_iff := by
    simp only [← system_halts_iff]
    exact (simulation_of_unrolls hunrolls).halts_iff ⟨0, tracks_initial m n length input⟩
  sameEnd first second hm hn := by
    refine sameEnd_of_agrees hm hn ?_
    exact (simulation_of_unrolls hunrolls).alike_of_halts ⟨0, tracks_initial m n length input⟩
      (system_halts_iff.mpr hm) (system_halts_iff.mpr hn)
  forth := streamsWithin_of_unrolls hunrolls length input
  back := streamsWithin_of_unrolls_back hunrolls length input

/-! ## Optimized programs -/

/-- An optimized program runs like the program of its text without optimization. -/
theorem exists_unrolls (hmemory : m.memory = .unbounded) {text : String}
    (hprogram : Program.ofSource text true = .ok m.program) :
    ∃ slow, Program.ofSource text false = .ok slow ∧ m.Unrolls { program := slow } := by
  obtain ⟨b, -, hcode⟩ :=
    Compilation.exists_block_of_balanced (Compilation.balanced_of_ofSource hprogram)
  obtain ⟨slow, hslow, hslowCode⟩ := hcode false
  obtain ⟨fast, hfast, hfastCode⟩ := hcode true
  obtain rfl : fast = m.program := Except.ok.inj (hfast.symm.trans hprogram)
  exact ⟨slow, hslow, unrolls_of_block hmemory rfl hfastCode hslowCode⟩

theorem runs_agree_of_sameCommands {first second : String} (hsame : SameCommands first second)
    (hfirst : Program.ofSource first true = .ok m.program)
    (hsecond : Program.ofSource second true = .ok n.program) (hmemory : m.memory = .unbounded)
    (hotherMemory : n.memory = .unbounded) (length : TapeLength) (input : List UInt8) :
    m.RunsLike n length input := by
  obtain ⟨slow, hslow, hunrolls⟩ := exists_unrolls hmemory hfirst
  obtain ⟨other, hother, hotherUnrolls⟩ := exists_unrolls hotherMemory hsecond
  -- Without optimization both texts have one program.
  have hslowSecond := (Compilation.ofSource_iff_of_sameCommands hsame slow).mp hslow
  obtain rfl : other = slow := Except.ok.inj (hother.symm.trans hslowSecond)
  exact (runsLike_of_unrolls hunrolls length input).of_common
    (runsLike_of_unrolls hotherUnrolls length input)

theorem sameCommands_commandText (bytes : List UInt8) :
    SameCommands (sourceText bytes) (commandText bytes) := by
  rw [SameCommands, ← commands_sourceText, List.filter_filter]
  simp only [Bool.and_self]

/-- The commands in a source file are its command bytes, in order, whatever the other bytes are.
Without optimization its program is that of the command bytes alone.  With optimization the two
programs can differ, but not in what they do, on any tape and any input. -/
theorem file_means_its_commands (bytes : List UInt8) :
    (sourceText bytes).toList.filter isCommand = (bytes.filter isCommandByte).map byteChar ∧
    sourceText (bytes.filter isCommandByte) = commandText bytes ∧
    (∀ program, Program.ofSource (sourceText bytes) false = .ok program ↔
      Program.ofSource (commandText bytes) false = .ok program) ∧
    ((∃ program, Program.ofSource (sourceText bytes) true = .ok program) ↔
      ∃ program, Program.ofSource (commandText bytes) true = .ok program) ∧
    ∀ m n : Machine, Program.ofSource (sourceText bytes) true = .ok m.program →
      Program.ofSource (commandText bytes) true = .ok n.program → m.memory = .unbounded →
      n.memory = .unbounded → ∀ length input, m.RunsLike n length input := by
  have hsame := sameCommands_commandText bytes
  refine ⟨?_, sourceText_filter bytes, Compilation.ofSource_iff_of_sameCommands hsame, ?_,
    fun m n hm hn hmemory hotherMemory length input =>
      runs_agree_of_sameCommands hsame hm hn hmemory hotherMemory length input⟩
  · rw [commands_sourceText, commandText, String.toList_ofList]
  · constructor
    · rintro ⟨program, hprogram⟩
      exact Compilation.exists_ofSource_of_sameCommands hsame hprogram
    · rintro ⟨program, hprogram⟩
      exact Compilation.exists_ofSource_of_sameCommands hsame.symm hprogram

/-- A byte that is no text keeps two commands from being counted as one, and both programs halt. -/
theorem file_means_its_commands_of_undecodable_byte :
    let bytes : List UInt8 := [0x2B, 0xFF, 0x2B]
    let m : Machine := { program := .ofList [.repeated .add 1, .repeated .add 1] }
    let n : Machine := { program := .ofList [.repeated .add 2] }
    Program.ofSource (sourceText bytes) true = .ok m.program ∧
    Program.ofSource (commandText bytes) true = .ok n.program ∧
    ∃ first second, m.Halts (.initial ⟨1, Nat.one_pos⟩ []) first ∧
      n.Halts (.initial ⟨1, Nat.one_pos⟩ []) second ∧ first.SameEnd second := by
  intro bytes m n
  have htext : sourceText bytes = "+\uFFFD+" := by decide
  have hcommandText : commandText bytes = "++" := by decide
  have hfile : Program.ofSource (sourceText bytes) true = .ok m.program := by
    rw [htext]
    rfl
  have hcommands : Program.ofSource (commandText bytes) true = .ok n.program := by
    rw [hcommandText]
    rfl
  obtain ⟨-, -, -, -, hruns⟩ := file_means_its_commands bytes
  have halike := hruns m n hfile hcommands rfl rfl ⟨1, Nat.one_pos⟩ []
  have hfirst : m.Halts (.initial ⟨1, Nat.one_pos⟩ []) _ := ⟨3, rfl⟩
  obtain ⟨second, hsecond⟩ := halike.halts_iff.mp ⟨_, hfirst⟩
  exact ⟨hfile, hcommands, _, second, hfirst, hsecond, halike.sameEnd _ _ hfirst hsecond⟩

end Machine

end TapeLang
