import TapeLang.Proofs.Machine.Lockstep
import TapeLang.Proofs.Machine.Streams

/-!
# The events of a run

A run uses its streams in a fixed order.  What an instruction does to them is told by the
instruction, the cell under the head and the input that is left (`Machine.uses`), so the events of a
run are those of its instructions, one after another, and a flush behind them (`events_of_run`).

Two things follow for the flushes.  Whenever a byte is asked for, all that was written before has
been flushed (`FlushedBeforeReads`): the flush and the reads come from one instruction, so this is
seen on each instruction alone.  And the number of flushes is the number of reading instructions,
plus one.

What is read is the beginning of the input, byte by byte, and then its end over and over
(`reads_of_halts`).

An output that cannot be flushed gets the same events without the flushes.  Here two runs are
compared (`State.SameButFlushes`), since nothing but the log tells whether the output was flushed.
-/

namespace TapeLang

namespace StreamEvent

/-- Bytes are written, possibly none. -/
def isWrite : StreamEvent → Bool
  | write _ _ => true
  | _ => false

end StreamEvent

/-- Every byte is asked for behind a flush, with no write in between. -/
def FlushedBeforeReads (events : List StreamEvent) : Prop :=
  ∀ front byte? back, events = front ++ .read byte? :: back →
    ∃ earlier between, front = earlier ++ .flush :: between ∧ ∀ event ∈ between, ¬ event.isWrite

/-- Once a byte has been asked for and not got, no byte is got any more. -/
def EndsForGood (events : List StreamEvent) : Prop :=
  ∀ front back, events = front ++ .read none :: back → ∀ byte, .read (some byte) ∉ back

/-- What happened to the streams since an earlier state. -/
def State.eventsSince (earlier s : State) : List StreamEvent :=
  s.log.toList.drop earlier.log.size

theorem State.eventsSince_eq {earlier s : State} {events : List StreamEvent}
    (hlog : s.log.toList = earlier.log.toList ++ events) : earlier.eventsSince s = events := by
  rw [eventsSince, hlog, ← Array.length_toList, List.drop_left]

/-! ## Bytes that are read one after another -/

/-- A number of bytes is asked for. -/
def readEvents (input : List UInt8) (count : Nat) : List StreamEvent :=
  (List.range count).map fun i => .read input[i]?

theorem readEvents_succ (input : List UInt8) (count : Nat) :
    readEvents input (count + 1) = readEvents input count ++ [.read input[count]?] := by
  rw [readEvents, List.range_succ, List.map_append]
  rfl

theorem isRead_of_mem_readEvents {input : List UInt8} {count : Nat} {event : StreamEvent}
    (hmem : event ∈ readEvents input count) : event.isRead := by
  obtain ⟨i, -, rfl⟩ := List.mem_map.mp hmem
  rfl

theorem count_flush_readEvents (input : List UInt8) (count : Nat) :
    (readEvents input count).count .flush = 0 := by
  apply List.count_eq_zero_of_not_mem
  intro hmem
  cases isRead_of_mem_readEvents hmem

/-- The end of the input is behind all of its bytes. -/
theorem pairwise_readEvents (input : List UInt8) (count : Nat) :
    (readEvents input count).Pairwise fun earlier later =>
      earlier = .read none → ∀ byte, later ≠ .read (some byte) := by
  refine List.pairwise_map.mpr (List.pairwise_lt_range.imp ?_)
  intro i j hless hnone byte hsome
  injection hnone with hnone
  injection hsome with hsome
  rw [List.getElem?_eq_none_iff] at hnone
  rw [List.getElem?_eq_none_iff.mpr (by omega)] at hsome
  cases hsome

theorem endsForGood_of_filter {events : List StreamEvent} {input : List UInt8} {count : Nat}
    (hreads : events.filter StreamEvent.isRead = readEvents input count) : EndsForGood events := by
  rintro front back rfl byte hmem
  have hpairwise := pairwise_readEvents input count
  rw [← hreads, List.pairwise_filter, List.pairwise_append, List.pairwise_cons] at hpairwise
  exact hpairwise.2.1.1 _ hmem rfl rfl rfl byte rfl

/-! ## Flushes in front of reads -/

namespace FlushedBeforeReads

variable {first second : List StreamEvent}

theorem append (hfirst : FlushedBeforeReads first) (hsecond : FlushedBeforeReads second) :
    FlushedBeforeReads (first ++ second) := by
  intro front byte? back hsplit
  rcases List.append_eq_append_iff.mp hsplit with
    ⟨more, rfl, hsecondSplit⟩ | ⟨more, hfirstSplit, hmore⟩
  · obtain ⟨earlier, between, rfl, hbetween⟩ := hsecond more byte? back hsecondSplit
    exact ⟨first ++ earlier, between, by rw [List.append_assoc], hbetween⟩
  · cases more with
    | nil =>
        rw [List.append_nil] at hfirstSplit
        subst hfirstSplit
        obtain ⟨earlier, between, hnil, hbetween⟩ := hsecond [] byte? back hmore.symm
        cases earlier <;> cases hnil
    | cons event more =>
        cases hmore
        exact hfirst front byte? more hfirstSplit

theorem flatMap {α : Type} {chunks : List α} {events : α → List StreamEvent}
    (hchunks : ∀ chunk ∈ chunks, FlushedBeforeReads (events chunk)) :
    FlushedBeforeReads (chunks.flatMap events) := by
  induction chunks with
  | nil =>
      intro front byte? back hsplit
      cases front <;> cases hsplit
  | cons chunk rest ih =>
      rw [List.flatMap_cons]
      apply (hchunks chunk List.mem_cons_self).append
      exact ih fun later hlater => hchunks later (List.mem_cons_of_mem _ hlater)

/-- Events that read nothing. -/
theorem of_silent (hsilent : ∀ event ∈ first, event.isRead = false) : FlushedBeforeReads first := by
  rintro front byte? back rfl
  have hread := hsilent (.read byte?) (List.mem_append_right _ List.mem_cons_self)
  cases hread

/-- Reads right behind a flush. -/
theorem of_reads (hreads : ∀ event ∈ first, event.isRead) :
    FlushedBeforeReads (.flush :: first) := by
  intro front byte? back hsplit
  cases front with
  | nil => cases hsplit
  | cons event between =>
      cases hsplit
      refine ⟨[], between, rfl, fun event hmem => ?_⟩
      have hread := hreads event (List.mem_append_left _ hmem)
      cases event <;> simp_all [StreamEvent.isRead, StreamEvent.isWrite]

end FlushedBeforeReads

namespace Machine

variable {m : Machine} {s after last : State} {halt : Halt}

/-! ## The events of an instruction -/

/-- A flush, if the output can be flushed. -/
def flushEvents (m : Machine) : List StreamEvent :=
  if m.flushes then [.flush] else []

/-- What an operation does to the streams. -/
def eventsOf (m : Machine) (arg : Int) (s : State) : Operation → List StreamEvent
  | .primitive .write => [.write s.tape.cell arg.toNat]
  | .primitive .read => m.flushEvents ++ readEvents s.input arg.toNat
  | _ => []

/-- What the instruction at the counter does to the streams. -/
def uses (m : Machine) (s : State) : List StreamEvent :=
  match m.program.get? s.pc with
  | some ⟨.known op, arg⟩ => m.eventsOf arg s op
  | _ => []

/-- The instruction at the counter asks for bytes. -/
def isReading (m : Machine) (s : State) : Bool :=
  match m.program.get? s.pc with
  | some ⟨.known op, _⟩ => op == .primitive .read
  | _ => false

theorem log_flush (m : Machine) (s : State) :
    (m.flush s).log.toList = s.log.toList ++ m.flushEvents := by
  unfold flush flushEvents
  split <;> simp [State.logged]

theorem input_flush (m : Machine) (s : State) : (m.flush s).input = s.input := by
  unfold flush
  split <;> rfl

theorem log_readInto (s : State) (count : Nat) :
    (s.readInto count).log.toList = s.log.toList ++ readEvents s.input count := by
  induction count generalizing s with
  | zero => exact (List.append_nil _).symm
  | succ count ih =>
      rw [State.readInto_succ, ih, readEvents, readEvents, List.range_succ_eq_map, List.map_cons,
        List.map_map]
      simp [State.readByte_eq, State.logged, Function.comp_def, List.head?_eq_getElem?]

theorem log_of_performs {op : Operation} {arg : Int} (hperforms : m.Performs arg s op after) :
    after.log.toList = s.log.toList ++ m.eventsOf arg s op := by
  cases hperforms with
  | write => exact Array.toList_push
  | read => rw [log_readInto, log_flush, input_flush, List.append_assoc, eventsOf]
  | pass =>
      have hlog : (m.countLoop arg s).log = s.log := by
        unfold countLoop
        split <;> rfl
      exact (congrArg Array.toList hlog).trans (List.append_nil _).symm
  | _ => exact (List.append_nil _).symm

theorem log_of_step (hstep : m.step s = .next after) :
    after.log.toList = s.log.toList ++ m.uses s := by
  obtain ⟨op, arg, middle, hnames, hperforms, rfl⟩ := performs_of_step hstep
  obtain ⟨trace, hnote⟩ := m.exists_trace_of_note op arg s
  rw [hnote] at hperforms
  have hlog := log_of_performs hperforms
  rw [uses, Program.get?_eq_some_iff.mpr hnames]
  cases op with
  | primitive p => cases p <;> exact hlog
  | _ => exact hlog

theorem flushedBeforeReads_uses (hflushes : m.flushes = true) (s : State) :
    FlushedBeforeReads (m.uses s) := by
  unfold uses
  split
  · rename_i op arg _
    unfold eventsOf
    split
    · exact .of_silent (by simp [StreamEvent.isRead])
    · rw [flushEvents, if_pos hflushes]
      exact .of_reads fun event hmem => isRead_of_mem_readEvents hmem
    · exact .of_silent nofun
  · exact .of_silent nofun

/-- An instruction flushes the output once if it asks for bytes, for however many it may be. -/
theorem count_flush_uses (m : Machine) (s : State) :
    (m.uses s).count .flush = if m.isReading s then m.flushEvents.count .flush else 0 := by
  unfold uses isReading
  split
  · rename_i op arg _
    cases op with
    | primitive p =>
        cases p with
        | read => simp [eventsOf, count_flush_readEvents]
        | _ => rfl
    | _ => rfl
  · rfl

/-! ## The events of a run -/

/-- The events of a run are those of the instructions that were carried out, and a flush in the
end, even if the last instruction was not carried out. -/
theorem log_of_run {budget : Nat} (hrun : m.run budget s = some halt) :
    halt.state.log.toList =
      s.log.toList ++ ((m.system.starts budget s).flatMap m.uses ++ m.flushEvents) := by
  rw [← run_system] at hrun
  induction budget generalizing s with
  | zero => cases hrun
  | succ budget ih =>
      rw [System.run] at hrun
      cases hturn : m.system.turn s with
      | next after =>
          rw [hturn] at hrun
          rw [ih hrun, log_of_step (step_of_turn hturn).2, System.starts_succ hturn,
            List.flatMap_cons, List.append_assoc, List.append_assoc]
      | ended outcome =>
          rw [hturn] at hrun
          cases hrun
          have hstarts : m.system.starts (budget + 1) s = [] := by
            rw [System.starts, hturn]
          rw [hstarts, List.flatMap_nil, List.nil_append]
          rcases ended_of_turn hturn with ⟨-, rfl⟩ | ⟨-, reason, last, hstep, rfl⟩
          · exact m.log_flush s
          · rw [log_flush, (sameButHead_of_step hstep).log]
      | hang =>
          rw [hturn] at hrun
          cases hrun

theorem log_eq_append_eventsSince {budget : Nat} (hrun : m.run budget s = some halt) :
    halt.state.log.toList = s.log.toList ++ s.eventsSince halt.state := by
  rw [State.eventsSince_eq (log_of_run hrun), log_of_run hrun]

theorem count_flush_flatMap_uses (hflushes : m.flushes = true) (starts : List State) :
    (starts.flatMap m.uses).count .flush = starts.countP m.isReading := by
  induction starts with
  | nil => rfl
  | cons s starts ih =>
      rw [List.flatMap_cons, List.count_append, ih, count_flush_uses, flushEvents, if_pos hflushes,
        List.countP_cons, Nat.add_comm]
      rfl

end Machine

/-! ## What is read -/

/-- Nothing but bytes of the input is read, one after another. -/
theorem streamInvariant_readEvents (s : State) :
    StreamInvariant fun t => ∃ events count, t.log.toList = s.log.toList ++ events ∧
      events.filter StreamEvent.isRead = readEvents s.input count ∧
      t.input = s.input.drop count where
  same hinput hlog hreads := by
    rw [hinput, hlog]
    exact hreads
  silent {t event} hsilent hreads := by
    obtain ⟨events, count, hlog, hfilter, hinput⟩ := hreads
    refine ⟨events ++ [event], count, ?_, ?_, hinput⟩
    · rw [State.logged, Array.toList_push, hlog, List.append_assoc]
    · rw [List.filter_append, hfilter, List.filter_cons_of_neg (by simp [hsilent]), List.filter_nil,
        List.append_nil]
  read {t} hreads := by
    obtain ⟨events, count, hlog, hfilter, hinput⟩ := hreads
    have hhead : t.input.head? = s.input[count]? := by
      rw [hinput, List.head?_drop]
    rw [State.readByte_eq, hhead]
    refine ⟨events ++ [.read s.input[count]?], count + 1, ?_, ?_, ?_⟩
    · rw [State.logged, Array.toList_push, hlog, List.append_assoc]
    · rw [List.filter_append, hfilter, readEvents_succ]
      rfl
    · show t.input.tail = _
      rw [hinput, List.tail_drop]

/-! ## Outputs that cannot be flushed -/

/-- The events but for the flushes. -/
def withoutFlushes (events : List StreamEvent) : List StreamEvent :=
  events.filter (· ≠ .flush)

theorem withoutFlushes_append (first second : List StreamEvent) :
    withoutFlushes (first ++ second) = withoutFlushes first ++ withoutFlushes second :=
  List.filter_append ..

/-- The states differ in the flushes of the output. -/
structure State.SameButFlushes (s t : State) : Prop where
  pc : t.pc = s.pc
  tape : t.tape = s.tape
  input : t.input = s.input
  log : withoutFlushes t.log.toList = withoutFlushes s.log.toList

/-- The machines differ in whether the output can be flushed, and in what they keep a record of. -/
structure Machine.SameButFlushes (m n : Machine) : Prop where
  program : n.program = m.program
  memory : n.memory = m.memory

namespace State.SameButFlushes

variable {s t : State}

theorem logged (hsame : s.SameButFlushes t) (event : StreamEvent) :
    (s.logged event).SameButFlushes (t.logged event) where
  pc := hsame.pc
  tape := hsame.tape
  input := hsame.input
  log := by
    rw [State.logged, State.logged, Array.toList_push, Array.toList_push, withoutFlushes_append,
      withoutFlushes_append, hsame.log]

theorem readInto (hsame : s.SameButFlushes t) (count : Nat) :
    (s.readInto count).SameButFlushes (t.readInto count) := by
  induction count generalizing s t with
  | zero => exact hsame
  | succ count ih =>
      have hleft : ({ s with input := s.input.tail } : State).SameButFlushes
          { t with input := t.input.tail } := { hsame with input := congrArg List.tail hsame.input }
      have hafter := hleft.logged (.read s.input.head?)
      rw [readInto_succ, readInto_succ, readByte_eq, readByte_eq, inputAt, inputAt, hsame.input]
      apply ih
      rw [hsame.input] at hafter
      exact { hafter with tape := congrArg (Tape.write · _) hsame.tape }

theorem flush (hsame : s.SameButFlushes t) (m n : Machine) :
    (m.flush s).SameButFlushes (n.flush t) where
  pc := by rw [Machine.pc_flush, Machine.pc_flush, hsame.pc]
  tape := by rw [Machine.tape_flush, Machine.tape_flush, hsame.tape]
  input := by rw [Machine.input_flush, Machine.input_flush, hsame.input]
  log := by
    have hflushes (k : Machine) : withoutFlushes k.flushEvents = [] := by
      unfold Machine.flushEvents
      split <;> rfl
    rw [Machine.log_flush, Machine.log_flush, withoutFlushes_append, withoutFlushes_append,
      hflushes, hflushes, List.append_nil, List.append_nil, hsame.log]

end State.SameButFlushes

namespace Machine

variable {m n : Machine} {s t : State} {halt : Halt}

theorem parallel_flushes (hmachines : m.SameButFlushes n) :
    m.Parallel n State.SameButFlushes State.SameButFlushes where
  program := hmachines.program
  memory := hmachines.memory
  pc hsame := hsame.pc
  tape hsame := hsame.tape
  note op arg s t hsame := by
    unfold note
    split <;> split <;> exact { hsame with }
  countLoop last s t hsame := by
    unfold countLoop
    split <;> split <;> exact { hsame with }
  stay hsame := hsame
  jump pc s t hsame := { hsame with pc := rfl }
  change tape s t hsame := { hsame with tape := rfl }
  write count s t hsame := by
    rw [State.writeOut, State.writeOut, hsame.tape]
    exact hsame.logged _
  read count s t hsame := (hsame.flush m n).readInto count
  advance hsame := { hsame with pc := congrArg (· + 1) hsame.pc }

/-- Within the same budget, both runs are over, and they end in the same way. -/
theorem run_sameButFlushes (hmachines : m.SameButFlushes n) (hsame : s.SameButFlushes t)
    {budget : Nat} (hrun : m.run budget s = some halt) :
    ∃ other, n.run budget t = some other ∧ other.stop? = halt.stop? ∧
      halt.state.SameButFlushes other.state :=
  run_lockstep hmachines.program (fun hsame => hsame.pc)
    (fun hsame _ _ => (parallel_flushes hmachines).step_related hsame)
    (fun hsame => hsame.flush m n) hsame hrun

/-- The machine on an output that cannot be flushed. -/
def unflushed (m : Machine) : Machine :=
  { m with flushes := false }

theorem sameButFlushes_unflushed (m : Machine) : m.SameButFlushes m.unflushed :=
  ⟨rfl, rfl⟩

theorem withoutFlushes_eventsSince (hflushes : m.flushes = false) {budget : Nat}
    (hrun : m.run budget s = some halt) :
    withoutFlushes (s.eventsSince halt.state) = s.eventsSince halt.state := by
  have hsilent : m.flushEvents = [] := by
    rw [flushEvents, hflushes]
    rfl
  rw [State.eventsSince_eq (log_of_run hrun), hsilent, List.append_nil]
  refine List.filter_eq_self.mpr fun event hmem => decide_eq_true ?_
  rintro rfl
  obtain ⟨start, -, huses⟩ := List.mem_flatMap.mp hmem
  have hcount := m.count_flush_uses start
  rw [hsilent, List.count_nil, ite_self, List.count_eq_zero] at hcount
  exact hcount huses

/-- On an output that cannot be flushed a run does the same, but for the flushes. -/
theorem run_unflushed (m : Machine) (s : State) (budget : Nat) :
    (m.unflushed.run budget s).map (fun other => (other.stop?, s.eventsSince other.state)) =
      (m.run budget s).map
        fun halt => (halt.stop?, withoutFlushes (s.eventsSince halt.state)) := by
  have hrefl : s.SameButFlushes s := ⟨rfl, rfl, rfl, rfl⟩
  cases hrun : m.run budget s with
  | some halt =>
      obtain ⟨other, hother, hstop, hsame⟩ :=
        run_sameButFlushes m.sameButFlushes_unflushed hrefl hrun
      have hlog := hsame.log
      rw [log_eq_append_eventsSince hrun, log_eq_append_eventsSince hother, withoutFlushes_append,
        withoutFlushes_append, List.append_cancel_left_eq, withoutFlushes_eventsSince rfl hother]
        at hlog
      rw [hother, Option.map_some, Option.map_some, hstop, hlog]
  | none =>
      cases hother : m.unflushed.run budget s with
      | none => rfl
      | some other =>
          have hback : m.unflushed.SameButFlushes m := ⟨rfl, rfl⟩
          obtain ⟨halt, hhalt, -⟩ := run_sameButFlushes hback hrefl hother
          rw [hrun] at hhalt
          cases hhalt

/-- However a run ends, its output is flushed before every byte that is asked for, once for each
instruction that asks for bytes, and in the end.  Its events are those of the instructions that were
carried out: what they write is the output, what they read is the beginning of the input and then
nothing any more.  An output that cannot be flushed gets the same events without the flushes. -/
theorem run_flushes_before_reads {m : Machine} (hflushes : m.flushes = true) (s : State)
    (budget : Nat) :
    (∀ halt, m.run budget s = some halt →
      ∃ events, halt.state.log.toList = s.log.toList ++ events ∧
        events = (m.system.starts budget s).flatMap m.uses ++ [.flush] ∧
        FlushedBeforeReads events ∧ events.getLast? = some .flush ∧
        events.count .flush = (m.system.starts budget s).countP m.isReading + 1 ∧
        halt.state.output = s.output ++ events.flatMap StreamEvent.written ∧
        events.flatMap StreamEvent.taken ++ halt.state.input = s.input ∧
        EndsForGood events) ∧
    (m.unflushed.run budget s).map (fun other => (other.stop?, s.eventsSince other.state)) =
      (m.run budget s).map
        fun halt => (halt.stop?, withoutFlushes (s.eventsSince halt.state)) := by
  refine ⟨fun halt hrun => ?_, m.run_unflushed s budget⟩
  have hlog := log_of_run hrun
  have hlast : m.flushEvents = [.flush] := by
    rw [flushEvents, if_pos hflushes]
  rw [hlast] at hlog
  refine ⟨_, hlog, rfl, ?_, List.getLast?_concat .., ?_, ?_, ?_, ?_⟩
  · apply FlushedBeforeReads.append
    · exact .flatMap fun start _ => flushedBeforeReads_uses hflushes start
    · exact .of_silent (by simp [StreamEvent.isRead])
  · rw [List.count_append, count_flush_flatMap_uses hflushes]
    rfl
  · rw [State.output, hlog, List.flatMap_append, ← State.output]
  · have hgiven := given_of_halts ⟨budget, hrun⟩
    rw [State.given, State.given, State.taken, hlog, List.flatMap_append, ← State.taken,
      List.append_assoc, List.append_cancel_left_eq] at hgiven
    exact hgiven
  · have hstart : ∃ events count, s.log.toList = s.log.toList ++ events ∧
        events.filter StreamEvent.isRead = readEvents s.input count ∧
        s.input = s.input.drop count := ⟨[], 0, (List.append_nil _).symm, rfl, rfl⟩
    obtain ⟨events, count, hevents, hreads, -⟩ :=
      (streamInvariant_readEvents s).halts hstart ⟨budget, hrun⟩
    rw [hlog, List.append_cancel_left_eq] at hevents
    rw [hevents]
    exact endsForGood_of_filter hreads

/-- Nothing is asked for by the second read, and the last instruction is not carried out. -/
theorem run_flushes_before_reads_of_fault :
    let m : Machine :=
      { program := .ofList [.repeated .write 1, .repeated .read 2, .repeated .read 0,
          .repeated (.move .left) 1] }
    let s : State := .initial ⟨1, Nat.one_pos⟩ [65]
    let events : List StreamEvent :=
      [.write 0 1, .flush, .read (some 65), .read none, .flush, .flush]
    m.flushes = true ∧ FlushedBeforeReads events ∧ EndsForGood events ∧
      (∃ halt, m.run 4 s = some halt ∧ halt.stop? = some (.fault ⟨.outOfBounds (-1), 3, 0⟩) ∧
        halt.state.log.toList = events ∧ halt.state.output = [0] ∧
        [65] ++ halt.state.input = s.input) ∧
      ∃ other, m.unflushed.run 4 s = some other ∧
        s.eventsSince other.state = [.write 0 1, .read (some 65), .read none] := by
  intro m s events
  have hflushes : m.flushes = true := rfl
  have hrun : m.run 4 s = some _ := rfl
  obtain ⟨hevents, hunflushed⟩ := run_flushes_before_reads hflushes s 4
  have huses : (m.system.starts 4 s).flatMap m.uses ++ [.flush] = events := rfl
  obtain ⟨_, hlog, rfl, hflushed, -, -, houtput, hinput, hends⟩ := hevents _ hrun
  rw [huses] at hlog hflushed houtput hinput hends
  rw [hrun] at hunflushed
  obtain ⟨other, hother, hpair⟩ := Option.map_eq_some_iff.mp hunflushed
  refine ⟨hflushes, hflushed, hends, ?_, other, hother, congrArg Prod.snd hpair⟩
  exact ⟨_, hrun, rfl, hlog, houtput, hinput⟩

end Machine

end TapeLang
