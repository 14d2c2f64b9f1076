import TapeLang.Proofs.Machine.Progress
import TapeLang.Proofs.Machine.Stop
import TapeLang.Proofs.Simulation

/-!
# The input of a run

A run uses its streams in two ways: it logs an event that takes nothing from the input, or it reads
a byte.  What neither of them ends holds all along the run (`StreamInvariant.halts`).

No byte of the input is lost or read twice.  What a run has taken from the input and what is left of
it make up the input that it was given (`State.given`), in this order, at every moment.  So the
number of bytes taken follows from the input that is left (`consumed_of_halts`).

Nothing that was written or read is taken back (`State.StreamsWithin`).
-/

namespace TapeLang

/-- A byte is asked for. -/
def StreamEvent.isRead : StreamEvent → Bool
  | read _ => true
  | _ => false

theorem StreamEvent.taken_of_silent {event : StreamEvent} (hsilent : event.isRead = false) :
    event.taken = [] := by
  cases event with
  | read => cases hsilent
  | _ => rfl

namespace State

/-- A byte of the input that is left. Past its end there are zero bytes. -/
def inputAt (s : State) (i : Nat) : UInt8 :=
  s.input.getD i 0

theorem readByte_eq (s : State) :
    s.readByte = (s.inputAt 0, { s with input := s.input.tail }.logged (.read s.input.head?)) := by
  unfold readByte inputAt
  split <;> simp [logged, *]

theorem readInto_succ (s : State) (count : Nat) :
    s.readInto (count + 1) =
      ({ s.readByte.2 with tape := s.readByte.2.tape.write s.readByte.1 } : State).readInto count :=
  rfl

end State

/-- All of the input, taken or not. -/
def State.given (s : State) : List UInt8 :=
  s.taken ++ s.input

/-- Whatever state a step leads to has a property. -/
def Step.Leaves (holds : State → Prop) : Step → Prop
  | .next s => holds s
  | .stop _ s => holds s
  | .endless => True

/-! ## What holds of the streams of a run -/

/-- A property of the two streams that every use of them keeps. -/
structure StreamInvariant (holds : State → Prop) : Prop where
  same : ∀ {s t : State}, t.input = s.input → t.log = s.log → holds s → holds t
  silent : ∀ {s : State} {event : StreamEvent}, event.isRead = false → holds s →
    holds (s.logged event)
  read : ∀ {s : State}, holds s → holds s.readByte.2

namespace StreamInvariant

variable {holds : State → Prop} {m : Machine} {s t after last : State} {op : Operation} {arg : Int}

theorem flush (hinvariant : StreamInvariant holds) (hholds : holds s) : holds (m.flush s) := by
  unfold Machine.flush
  split
  · exact hinvariant.silent rfl hholds
  · exact hholds

theorem readInto (hinvariant : StreamInvariant holds) (hholds : holds s) (count : Nat) :
    holds (s.readInto count) := by
  induction count generalizing s with
  | zero => exact hholds
  | succ count ih =>
      have hread := hinvariant.read hholds
      exact ih (hinvariant.same (s := s.readByte.2) rfl rfl hread)

theorem performs (hinvariant : StreamInvariant holds) (hholds : holds s)
    (hperforms : m.Performs arg s op after) : holds after := by
  cases hperforms with
  | write => exact hinvariant.silent rfl hholds
  | read => exact hinvariant.readInto (hinvariant.flush hholds) _
  | pass =>
      have hcounted : holds (m.countLoop arg s) := by
        unfold Machine.countLoop
        split
        · exact hinvariant.same (s := s) rfl rfl hholds
        · exact hholds
      exact hinvariant.same (s := m.countLoop arg s) rfl rfl hcounted
  | enter => exact hholds
  | leave => exact hholds
  | idle => exact hholds
  | _ => exact hinvariant.same (s := s) rfl rfl hholds

theorem step (hinvariant : StreamInvariant holds) (hholds : holds s)
    (hstep : m.step s = .next after) : holds after := by
  obtain ⟨op, arg, middle, -, hperforms, rfl⟩ := Machine.performs_of_step hstep
  obtain ⟨trace, hnote⟩ := m.exists_trace_of_note op arg s
  rw [hnote] at hperforms
  have hnoted := hinvariant.same (s := s) (t := { s with trace }) rfl rfl hholds
  exact hinvariant.same (s := middle) rfl rfl (hinvariant.performs hnoted hperforms)

theorem stop (hinvariant : StreamInvariant holds) (hholds : holds s) {reason : Stop}
    (hstep : m.step s = .stop reason last) : holds last := by
  have hsame := Machine.sameButHead_of_step hstep
  exact hinvariant.same hsame.input hsame.log hholds

theorem goes (hinvariant : StreamInvariant holds) (hholds : holds s) {n : Nat}
    (hgoes : m.system.Goes n s t) : holds t := by
  apply hgoes.preserves
  · intro middle after hmiddle hturn
    exact hinvariant.step hmiddle (Machine.step_of_turn hturn).2
  · exact hholds

theorem halts (hinvariant : StreamInvariant holds) (hholds : holds s) {halt : Halt}
    (hhalts : m.Halts s halt) : holds halt.state := by
  obtain ⟨n, t, hgoes, hended⟩ := System.exists_goes_of_halts (Machine.system_halts_iff.mpr hhalts)
  have hlast := hinvariant.goes hholds hgoes
  rcases Machine.ended_of_turn hended with ⟨-, rfl⟩ | ⟨-, reason, last, hstep, rfl⟩
  · exact hinvariant.flush hlast
  · exact hinvariant.flush (hinvariant.stop hlast hstep)

end StreamInvariant

/-! ## The input is kept -/

theorem streamInvariant_given (input : List UInt8) : StreamInvariant (·.given = input) where
  same {s t} hinput hlog hgiven := by
    rw [State.given, State.taken, hlog, hinput]
    exact hgiven
  silent {s event} hsilent hgiven := by
    rw [State.given, State.taken_logged, StreamEvent.taken_of_silent hsilent, List.append_nil]
    exact hgiven
  read {s} hgiven := s.taken_append_input_readByte.trans hgiven

namespace Machine

variable {m : Machine} {s : State}

theorem given_of_goes {t : State} {n : Nat} (hgoes : m.system.Goes n s t) : t.given = s.given :=
  (streamInvariant_given s.given).goes rfl hgoes

theorem given_of_halts {halt : Halt} (hhalts : m.Halts s halt) : halt.state.given = s.given :=
  (streamInvariant_given s.given).halts rfl hhalts

/-- The bytes taken are those that are no longer there. -/
theorem consumed_of_halts {length : TapeLength} {input : List UInt8} {halt : Halt}
    (hhalts : m.Halts (.initial length input) halt) :
    halt.state.consumed = input.length - halt.state.input.length := by
  have hgiven : halt.state.taken ++ halt.state.input = input := given_of_halts hhalts
  have hlength := congrArg List.length hgiven
  rw [List.length_append] at hlength
  rw [State.consumed]
  omega

end Machine

/-! ## Nothing is taken back -/

/-- All that has been written and read in the first state has been in the second one, too. -/
structure State.StreamsWithin (s t : State) : Prop where
  output : s.output <+: t.output
  taken : s.taken <+: t.taken

theorem State.StreamsWithin.refl (s : State) : s.StreamsWithin s :=
  ⟨List.prefix_refl _, List.prefix_refl _⟩

theorem State.StreamsWithin.trans {s t u : State} (hfirst : s.StreamsWithin t)
    (hsecond : t.StreamsWithin u) : s.StreamsWithin u :=
  ⟨hfirst.output.trans hsecond.output, hfirst.taken.trans hsecond.taken⟩

/-- The output and the bytes taken are views of the log. -/
theorem State.streamsWithin_of_log {s t : State} (hlog : s.log.toList <+: t.log.toList) :
    s.StreamsWithin t := by
  obtain ⟨events, hevents⟩ := hlog
  constructor
  · rw [output, output, ← hevents, List.flatMap_append]
    exact List.prefix_append _ _
  · rw [taken, taken, ← hevents, List.flatMap_append]
    exact List.prefix_append _ _

theorem State.streamsWithin_logged (s : State) (event : StreamEvent) :
    s.StreamsWithin (s.logged event) :=
  streamsWithin_of_log ⟨[event], Array.toList_push.symm⟩

theorem streamInvariant_streamsWithin (s : State) : StreamInvariant s.StreamsWithin where
  same _ hlog hwithin := by
    apply hwithin.trans
    exact State.streamsWithin_of_log (hlog ▸ List.prefix_refl _)
  silent _ hwithin := hwithin.trans (State.streamsWithin_logged _ _)
  read {t} hwithin := by
    rw [State.readByte_eq]
    -- The input is shorter than before, but this is no part of what has been read.
    have hshorter : t.StreamsWithin { t with input := t.input.tail } :=
      State.streamsWithin_of_log (List.prefix_refl _)
    exact (hwithin.trans hshorter).trans (State.streamsWithin_logged _ _)

/-- What has been read is told by what is left. -/
theorem State.streamsWithin_of_sameStreams {s t : State} (hgiven : s.given = t.given)
    (hstreams : s.world.SameStreams t.world) : s.StreamsWithin t where
  output := by
    have houtput : s.output = t.output := hstreams.output
    exact houtput ▸ List.prefix_refl _
  taken := by
    have hleft : s.input = t.input := hstreams.input
    rw [given, given, hleft] at hgiven
    exact List.append_cancel_right hgiven ▸ List.prefix_refl _

namespace Machine

variable {m : Machine} {s : State}

theorem streamsWithin_of_goes {t : State} {n : Nat} (hgoes : m.system.Goes n s t) :
    s.StreamsWithin t :=
  (streamInvariant_streamsWithin s).goes (.refl s) hgoes

theorem streamsWithin_of_halts {halt : Halt} (hhalts : m.Halts s halt) :
    s.StreamsWithin halt.state :=
  (streamInvariant_streamsWithin s).halts (.refl s) hhalts

/-- The end of a run neither writes nor reads. -/
theorem sameStreams_of_ended {halt : Halt} (hturn : m.system.turn s = .ended halt) :
    halt.state.world.SameStreams s.world := by
  rcases ended_of_turn hturn with ⟨-, rfl⟩ | ⟨-, reason, last, hstep, rfl⟩
  · rw [world_flush]
    exact .refl _
  · have hsame := sameButHead_of_step hstep
    rw [world_flush]
    exact ⟨hsame.input, by rw [State.world, State.world, State.output, State.output, hsame.log]⟩

end Machine

end TapeLang
