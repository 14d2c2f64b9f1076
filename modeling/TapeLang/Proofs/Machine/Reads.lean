import Mathlib.Data.List.GetD
import TapeLang.Proofs.Machine.Lockstep
import TapeLang.Proofs.Machine.Streams

/-!
# What a run reads

A run asks for one byte of its input after another (`State.reads`).  It cannot tell the end of the
input from zero bytes, and it knows nothing of the bytes that it does not ask for.  So two inputs
lead to the same run if they agree, with zero bytes behind them, in as many bytes as are asked for
(`run_depends_on_reads`).  The runs differ in the number of bytes that they take only if the shorter
input ends first.
-/

namespace TapeLang

namespace State

/-- The number of bytes that were asked for. -/
def reads (s : State) : Nat :=
  s.log.toList.countP StreamEvent.isRead

variable {s t : State}

theorem reads_logged {event : StreamEvent} (hsilent : event.isRead = false) :
    (s.logged event).reads = s.reads := by
  simp [reads, logged, hsilent]

theorem consumed_logged (s : State) (event : StreamEvent) :
    (s.logged event).consumed = s.consumed + event.taken.length := by
  rw [consumed, taken_logged, List.length_append, ← consumed]

theorem reads_readByte (s : State) : s.readByte.2.reads = s.reads + 1 := by
  simp [readByte_eq, reads, logged, StreamEvent.isRead]

theorem inputAt_readByte (s : State) (i : Nat) : s.readByte.2.inputAt i = s.inputAt (i + 1) := by
  simp [readByte_eq, inputAt, logged]

end State

/-! ## Counting reads -/

/-- Reading never takes back that a byte was asked for. -/
theorem streamInvariant_reads_ge (count : Nat) : StreamInvariant (count ≤ ·.reads) where
  same _ hlog hle := by
    rwa [State.reads, hlog]
  silent hsilent hle := by
    rwa [State.reads_logged hsilent]
  read hle := by
    rw [State.reads_readByte]
    exact Nat.le_succ_of_le hle

/-- As many bytes are taken as are asked for, until the input has ended. -/
theorem streamInvariant_consumed :
    StreamInvariant fun s => s.consumed = min s.reads (s.consumed + s.input.length) where
  same {s t} hinput hlog hconsumed := by
    have htaken : t.consumed = s.consumed := by
      rw [State.consumed, State.taken, hlog, ← State.taken, ← State.consumed]
    rwa [State.reads, hlog, hinput, htaken]
  silent {s event} hsilent hconsumed := by
    have htaken := StreamEvent.taken_of_silent hsilent
    rwa [State.reads_logged hsilent, State.consumed_logged, htaken]
  read {s} hconsumed := by
    have htaken : (StreamEvent.read s.input.head?).taken.length = min 1 s.input.length := by
      cases s.input <;> simp [StreamEvent.taken]
    have hstart : ({ s with input := s.input.tail } : State).consumed = s.consumed := rfl
    have hleft : s.readByte.2.input.length = s.input.length - 1 := by
      simp [State.readByte_eq, State.logged]
    rw [State.reads_readByte, hleft, State.readByte_eq, State.consumed_logged, hstart, htaken]
    omega

theorem reads_le_of_halts {m : Machine} {s : State} {halt : Halt} (hhalts : m.Halts s halt) :
    s.reads ≤ halt.state.reads :=
  (streamInvariant_reads_ge s.reads).halts (Nat.le_refl _) hhalts

theorem consumed_eq_min {m : Machine} {length : TapeLength} {input : List UInt8} {halt : Halt}
    (hhalts : m.Halts (.initial length input) halt) :
    halt.state.consumed = min halt.state.reads input.length := by
  have hgiven : halt.state.taken ++ halt.state.input = input := Machine.given_of_halts hhalts
  have hlength := congrArg List.length hgiven
  rw [List.length_append, ← State.consumed] at hlength
  rw [← hlength]
  have hstart : (State.initial length input).consumed = min (State.initial length input).reads
      ((State.initial length input).consumed + input.length) := (Nat.zero_min _).symm
  exact streamInvariant_consumed.halts hstart hhalts

/-- If every byte that was asked for was got, then as many bytes were taken. -/
theorem State.reads_eq_consumed {s : State} (hgot : .read none ∉ s.log.toList) :
    s.reads = s.consumed := by
  rw [reads, consumed, taken]
  generalize s.log.toList = events at hgot
  induction events with
  | nil => rfl
  | cons event events ih =>
      rw [List.mem_cons, not_or] at hgot
      rw [List.countP_cons, List.flatMap_cons, List.length_append, ih hgot.2, Nat.add_comm]
      congr 1
      cases event with
      | read byte? =>
          cases byte? with
          | some byte => rfl
          | none => exact absurd rfl hgot.1
      | _ => rfl

/-! ## Runs on different inputs -/

/-- The states differ in what is left of the input, and in the bytes that were taken from it. -/
structure State.SameButInput (s t : State) : Prop where
  pc : t.pc = s.pc
  tape : t.tape = s.tape
  output : t.output = s.output
  reads : t.reads = s.reads
  trace : t.trace = s.trace
  profile : t.profile = s.profile

/-- The states differ in their inputs, but not in those bytes that are read until the number of
reads is `total`. -/
structure State.Meets (total : Nat) (s t : State) : Prop extends s.SameButInput t where
  ahead : ∀ i, s.reads + i < total → t.inputAt i = s.inputAt i

namespace State.Meets

variable {total : Nat} {s t : State}

theorem logged (hmeets : s.Meets total t) {event : StreamEvent} (hsilent : event.isRead = false) :
    (s.logged event).Meets total (t.logged event) where
  pc := hmeets.pc
  tape := hmeets.tape
  output := by rw [output_logged, output_logged, hmeets.output]
  reads := by rw [reads_logged hsilent, reads_logged hsilent, hmeets.reads]
  trace := hmeets.trace
  profile := hmeets.profile
  ahead i := by
    rw [reads_logged hsilent]
    exact hmeets.ahead i

theorem flush {m : Machine} (hmeets : s.Meets total t) : (m.flush s).Meets total (m.flush t) := by
  unfold Machine.flush
  split
  · exact hmeets.logged rfl
  · exact hmeets

theorem readByte (hmeets : s.Meets total t) : s.readByte.2.Meets total t.readByte.2 where
  pc := by rw [readByte_eq, readByte_eq]; exact hmeets.pc
  tape := by rw [readByte_eq, readByte_eq]; exact hmeets.tape
  output := by
    rw [readByte_eq, readByte_eq, output_logged, output_logged]
    exact congrArg (· ++ []) hmeets.output
  reads := by rw [reads_readByte, reads_readByte, hmeets.reads]
  trace := by rw [readByte_eq, readByte_eq]; exact hmeets.trace
  profile := by rw [readByte_eq, readByte_eq]; exact hmeets.profile
  ahead i hless := by
    rw [reads_readByte] at hless
    rw [inputAt_readByte, inputAt_readByte]
    exact hmeets.ahead (i + 1) (by omega)

theorem readInto (hmeets : s.Meets total t) (count : Nat)
    (hreads : (s.readInto count).reads ≤ total) :
    (s.readInto count).Meets total (t.readInto count) := by
  induction count generalizing s t with
  | zero => exact hmeets
  | succ count ih =>
      have hafter := hmeets.readByte
      rw [readInto_succ] at hreads ⊢
      rw [readInto_succ]
      generalize hfirst :
        ({ s.readByte.2 with tape := s.readByte.2.tape.write s.readByte.1 } : State) = first
        at hreads ⊢
      have hbyte : t.readByte.1 = s.readByte.1 := by
        have hstart : s.reads + 1 ≤ first.reads := by
          rw [← hfirst, ← reads_readByte]
          exact Nat.le_refl _
        have hlater := (streamInvariant_reads_ge (s.reads + 1)).readInto hstart count
        rw [readByte_eq, readByte_eq]
        exact hmeets.ahead 0 (Nat.le_trans hlater hreads)
      refine ih ?_ hreads
      rw [← hfirst]
      exact { hafter with tape := by rw [hbyte, hafter.tape] }

end State.Meets

theorem Step.Related.of_leaves {holds : State → Prop} {related : State → State → Prop}
    {first second : Step} (hrelated : Related (fun s t => holds s → related s t) first second)
    (hleaves : first.Leaves holds) : Related related first second := by
  cases hrelated with
  | next hafter => exact .next (hafter hleaves)
  | stop reason hlast => exact .stop reason (hlast hleaves)
  | endless => exact .endless

namespace Machine

variable {m : Machine} {s t : State} {total : Nat}

theorem parallel_meets (m : Machine) (total : Nat) :
    m.Parallel m (State.Meets total) fun s t => s.reads ≤ total → s.Meets total t where
  program := rfl
  memory := rfl
  pc hmeets := hmeets.pc
  tape hmeets := hmeets.tape
  note op arg s t hmeets := by
    unfold note
    split
    · refine { hmeets with trace := ?_ }
      simp only [State.dp, hmeets.pc, hmeets.tape, hmeets.trace]
    · exact hmeets
  countLoop last s t hmeets := by
    unfold countLoop
    split
    · refine { hmeets with profile := ?_ }
      simp only [hmeets.pc, hmeets.profile]
    · exact hmeets
  stay hmeets _ := hmeets
  jump pc s t hmeets _ := { hmeets with pc := rfl }
  change tape s t hmeets _ := { hmeets with tape := rfl }
  write count s t hmeets _ := by
    rw [State.writeOut, State.writeOut, hmeets.tape]
    exact hmeets.logged rfl
  read count s t hmeets hreads := hmeets.flush.readInto count hreads
  advance {s t} hafter hreads := by
    have hmeets := hafter hreads
    exact { hmeets with pc := congrArg (· + 1) hmeets.pc }

/-- What a step leads to has read no more than the whole run does. -/
theorem leaves_reads_step {halt : Halt} (hinside : s.pc < m.program.size)
    (hhalts : m.Halts s halt) : (m.step s).Leaves (·.reads ≤ halt.state.reads) := by
  rw [← system_halts_iff] at hhalts
  cases hstep : m.step s with
  | next after =>
      have hafter := System.halts_of_turn (turn_of_next hinside hstep) hhalts
      exact reads_le_of_halts (system_halts_iff.mp hafter)
  | stop reason last =>
      have hlast := System.halts_of_ended (turn_of_stop hinside hstep)
      rw [System.halts_unique hhalts hlast]
      exact (streamInvariant_reads_ge last.reads).flush (Nat.le_refl _)
  | endless => trivial

/-- Two runs of a machine that differ in nothing but their inputs stay together, if the inputs agree
in the bytes that the first run reads. -/
theorem run_of_meets {budget : Nat} {halt : Halt} (hrun : m.run budget s = some halt)
    (hmeets : s.Meets halt.state.reads t) :
    ∃ other, m.run budget t = some other ∧ other.stop? = halt.stop? ∧
      halt.state.SameButInput other.state := by
  have hstep {s t : State} (hmeets : s.Meets halt.state.reads t) (hinside : s.pc < m.program.size)
      (hhalts : m.Halts s halt) :
      Step.Related (State.Meets halt.state.reads) (m.step s) (m.step t) := by
    have hsteps := (m.parallel_meets halt.state.reads).step_related hmeets
    exact hsteps.of_leaves (leaves_reads_step hinside hhalts)
  obtain ⟨other, hother, hstop, hsame⟩ :=
    run_lockstep rfl (fun hmeets => hmeets.pc) hstep State.Meets.flush hmeets hrun
  exact ⟨other, hother, hstop, hsame.toSameButInput⟩

theorem halts_of_meets {halt : Halt} (hhalts : m.Halts s halt)
    (hmeets : s.Meets halt.state.reads t) :
    ∃ other, m.Halts t other ∧ other.stop? = halt.stop? ∧ halt.state.SameButInput other.state := by
  obtain ⟨budget, hrun⟩ := hhalts
  obtain ⟨other, hother, hsame⟩ := run_of_meets hrun hmeets
  exact ⟨other, ⟨budget, hother⟩, hsame⟩

/-- What stands behind an input that a run does not read to its end is left over. -/
theorem run_append_input {budget : Nat} {length : TapeLength} {input : List UInt8} {halt : Halt}
    (hrun : m.run budget (.initial length input) = some halt)
    (hgot : .read none ∉ halt.state.log.toList) (more : List UInt8) :
    ∃ other, m.run budget (.initial length (input ++ more)) = some other ∧
      other.stop? = halt.stop? ∧ halt.state.SameButInput other.state ∧
      other.state.input = halt.state.input ++ more := by
  have hreads : halt.state.reads ≤ input.length := by
    have hconsumed := consumed_eq_min ⟨budget, hrun⟩
    rw [← State.reads_eq_consumed hgot] at hconsumed
    omega
  obtain ⟨other, hother, hstop, hsame⟩ := run_of_meets (t := .initial length (input ++ more)) hrun
    { pc := rfl, tape := rfl, output := rfl, reads := rfl, trace := rfl, profile := rfl
      ahead := fun i hless => List.getD_append _ _ _ _ (Nat.lt_of_le_of_lt (Nat.le_add_left _ _)
        (Nat.lt_of_lt_of_le hless hreads)) }
  refine ⟨other, hother, hstop, hsame, ?_⟩
  have htaken : other.state.taken.length = halt.state.taken.length := by
    have hfirst := consumed_eq_min ⟨budget, hrun⟩
    have hsecond := consumed_eq_min ⟨budget, hother⟩
    rw [List.length_append, hsame.reads] at hsecond
    rw [State.consumed] at hfirst hsecond
    omega
  have hfirst : halt.state.taken ++ halt.state.input = input := given_of_halts ⟨budget, hrun⟩
  have hsecond : other.state.taken ++ other.state.input = input ++ more :=
    given_of_halts ⟨budget, hother⟩
  rw [← hfirst, List.append_assoc] at hsecond
  exact (List.append_inj hsecond htaken).2

private theorem getD_append_zeros (input : List UInt8) (count i : Nat) :
    (input ++ List.replicate count 0).getD i 0 = input.getD i 0 := by
  by_cases hi : i < input.length
  · exact List.getD_append _ _ _ _ hi
  · have hend : input.length ≤ i := Nat.le_of_not_lt hi
    rw [List.getD_append_right _ _ _ _ hend, List.getD_eq_default _ _ hend,
      List.getD_eq_getElem?_getD, List.getElem?_replicate]
    split <;> rfl

/-- A run depends on no more than the bytes that it reads, where the end of the input reads as zero
bytes.  Zero bytes behind the input change nothing else than the number of bytes taken, and bytes
that are not taken change nothing at all. -/
theorem run_depends_on_reads {m : Machine} {length : TapeLength} {first : List UInt8} {halt : Halt}
    (hhalts : m.Halts (.initial length first) halt) :
    halt.state.consumed = min halt.state.reads first.length ∧
    (∀ second : List UInt8, (∀ i < halt.state.reads, second.getD i 0 = first.getD i 0) →
      ∃ other, m.Halts (.initial length second) other ∧ other.stop? = halt.stop? ∧
        halt.state.SameButInput other.state ∧
        other.state.consumed = min halt.state.reads second.length) ∧
    (∀ count, ∃ other, m.Halts (.initial length (first ++ List.replicate count 0)) other ∧
      other.stop? = halt.stop? ∧ halt.state.SameButInput other.state) ∧
    ∀ second : List UInt8, second.length = first.length →
      second.take halt.state.consumed = first.take halt.state.consumed →
      ∃ other, m.Halts (.initial length second) other ∧ other.stop? = halt.stop? ∧
        halt.state.SameButInput other.state ∧ other.state.consumed = halt.state.consumed := by
  have hconsumed := consumed_eq_min hhalts
  have hruns (second : List UInt8)
      (hagree : ∀ i < halt.state.reads, second.getD i 0 = first.getD i 0) :
      ∃ other, m.Halts (.initial length second) other ∧ other.stop? = halt.stop? ∧
        halt.state.SameButInput other.state ∧
        other.state.consumed = min halt.state.reads second.length := by
    obtain ⟨other, hother, hstop, hsame⟩ := halts_of_meets (t := .initial length second) hhalts
      { pc := rfl, tape := rfl, output := rfl, reads := rfl, trace := rfl, profile := rfl
        ahead := fun i hless => hagree i (Nat.lt_of_le_of_lt (Nat.le_add_left _ _) hless) }
    refine ⟨other, hother, hstop, hsame, ?_⟩
    rw [consumed_eq_min hother, hsame.reads]
  refine ⟨hconsumed, hruns, ?_, ?_⟩
  · intro count
    obtain ⟨other, hother, hstop, hsame, -⟩ := hruns (first ++ List.replicate count 0) fun i _ =>
      getD_append_zeros first count i
    exact ⟨other, hother, hstop, hsame⟩
  · intro second hlength htake
    have hagree (i : Nat) (hless : i < halt.state.reads) : second.getD i 0 = first.getD i 0 := by
      by_cases hi : i < first.length
      · have htaken : i < halt.state.consumed := by omega
        rw [List.getD_eq_getElem?_getD, ← List.getElem?_take_of_lt htaken, htake,
          List.getElem?_take_of_lt htaken, ← List.getD_eq_getElem?_getD]
      · rw [List.getD_eq_default _ _ (by omega), List.getD_eq_default _ _ (by omega)]
    obtain ⟨other, hother, hstop, hsame, htaken⟩ := hruns second hagree
    exact ⟨other, hother, hstop, hsame, by rw [htaken, hlength, hconsumed]⟩

theorem run_depends_on_reads_of_echo :
    let m : Machine :=
      { program := .ofList [.repeated .read 1, .repeated .write 1, .repeated .read 1,
          .repeated .write 1] }
    ∃ halt other, m.Halts (.initial ⟨1, Nat.one_pos⟩ [65]) halt ∧
      m.Halts (.initial ⟨1, Nat.one_pos⟩ [65, 0, 66]) other ∧ halt.state.output = [65, 0] ∧
      other.state.output = [65, 0] ∧ halt.state.consumed = 1 ∧ other.state.consumed = 2 := by
  intro m
  have hhalts : m.Halts (.initial ⟨1, Nat.one_pos⟩ [65]) _ := ⟨5, rfl⟩
  obtain ⟨hconsumed, hruns, -⟩ := run_depends_on_reads hhalts
  have hreads : ∀ i < 2, ([65, 0, 66] : List UInt8).getD i 0 = ([65] : List UInt8).getD i 0 := by
    decide
  obtain ⟨other, hother, -, hsame, htaken⟩ := hruns [65, 0, 66] hreads
  exact ⟨_, other, hhalts, hother, rfl, hsame.output, hconsumed, htaken⟩

end Machine

end TapeLang
