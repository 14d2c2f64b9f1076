import TapeLang.Proofs.Machine.Safety

/-!
# Compiled programs are legible

No number in a compiled program is greater than the number of its commands, and a position that its
instructions ask for is no further away from the tape than that.  So nothing is ever too long to be
written, unless the text and the tape together are as long as the least number that is, and what
comes out of a run is what stopped it (`compiled_run_writes_everything`).
-/

namespace TapeLang

/-- A position that is asked for is at most one argument away from the tape. -/
theorem Operation.Asks.natAbs_le {t : Tape} {op : Operation} {arg target : Int}
    (hasks : op.Asks t arg target) : target.natAbs ≤ t.size + arg.natAbs := by
  have hoffset (d : Direction) : (d.offset arg).natAbs = arg.natAbs := by
    cases d <;> simp [Direction.offset]
  have hpos : t.pos < t.size := t.pos_lt
  cases hasks with
  | move d =>
      have hd := hoffset d
      omega
  | @scan d k hpasses =>
      have hd := hoffset d
      obtain ⟨hlow, hhigh⟩ := (hpasses k (Nat.lt_succ_self k)).holds
      have hlast : (t.pos : Int) + (k + 1 : Nat) * d.offset arg
          = t.pos + k * d.offset arg + d.offset arg := by
        rw [Int.natCast_succ, Int.add_mul, Int.one_mul, Int.add_assoc]
      omega
  | carry d hcell =>
      have hd := hoffset d
      omega

/-- An argument that is no target counts commands of its instruction. -/
theorem Instruction.Normal.natAbs_arg_le {i : Instruction} (hnormal : i.Normal)
    (hplain : i.Plain) : i.arg.natAbs ≤ i.commands.length := by
  obtain ⟨opcode, arg⟩ := i
  cases opcode with
  | foreign label unnamed => exact hnormal.elim
  | known op =>
      cases op with
      | jumpIfZero => exact absurd rfl hplain.1
      | jumpIfNonzero => exact absurd rfl hplain.2
      | zero =>
          have hzero : arg = 0 := hnormal
          simp [hzero]
      | primitive p =>
          have hcount : 0 < arg := hnormal
          simp only [commands, List.length_replicate]
          omega
      | scan d =>
          have hstride : 0 < arg := hnormal
          simp only [commands, List.length_cons, List.length_append, List.length_replicate]
          omega
      | carry d =>
          have hdistance : 0 < arg := hnormal
          simp only [commands, List.length_cons, List.length_append, List.length_replicate]
          omega

namespace Program.Compiled

variable {p : Program}

/-- The commands of an instruction are some of the commands of the program. -/
theorem commands_length_le {i : Instruction} (hmem : i ∈ p.toList) :
    i.commands.length ≤ p.offset p.size := by
  obtain ⟨front, back, hlist⟩ := List.append_of_mem hmem
  rw [offset_size, hlist, List.flatMap_append, List.flatMap_cons, List.length_append,
    List.length_append]
  omega

theorem size_le_offset (hcompiled : p.Compiled) : p.size ≤ p.offset p.size := by
  rw [offset_size]
  exact length_le_length_commands hcompiled.normal

/-- An argument counts commands of its instruction, or it is the place of another instruction. -/
theorem natAbs_arg_le (hcompiled : p.Compiled) {i : Instruction} (hmem : i ∈ p.toList) :
    i.arg.natAbs ≤ p.offset p.size := by
  by_cases hjump : i.opcode = .known .jumpIfZero ∨ i.opcode = .known .jumpIfNonzero
  · obtain ⟨op, hop, hinstruction⟩ :
        ∃ op, (op = .jumpIfZero ∨ op = .jumpIfNonzero) ∧ .of op i.arg = i := by
      obtain ⟨opcode, arg⟩ := i
      rcases hjump with rfl | rfl
      · exact ⟨_, .inl rfl, rfl⟩
      · exact ⟨_, .inr rfl, rfl⟩
    obtain ⟨place, hget⟩ := List.mem_iff_getElem?.mp hmem
    have hbounds := hcompiled.target_bounds hop (hinstruction ▸ hget)
    have hsize := hcompiled.size_le_offset
    omega
  · have hplain : i.Plain := ⟨fun h => hjump (.inl h), fun h => hjump (.inr h)⟩
    have harg := (hcompiled.normal i hmem).natAbs_arg_le hplain
    exact Nat.le_trans harg (commands_length_le hmem)

end Program.Compiled

namespace Machine

variable {m : Machine} {length : TapeLength} {input : List UInt8}

theorem legible_of_compiled (hcompiled : m.program.Compiled)
    (hshort : m.program.offset m.program.size + length.val < Decimal.limit) :
    m.Legible (.initial length input) := by
  intro _
  refine ⟨fun i hmem => ⟨?_, ?_⟩, ?_, ?_⟩
  · have hnormal := hcompiled.normal i hmem
    obtain ⟨opcode, arg⟩ := i
    cases opcode with
    | known op => trivial
    | foreign label unnamed => exact hnormal.elim
  · have harg := hcompiled.natAbs_arg_le hmem
    unfold Decimal.Writable
    omega
  · have hsize := hcompiled.size_le_offset
    omega
  · have htape : (State.initial length input).tape.size = length.val := Tape.size_blank length
    omega

/-- The cause of a fault in a run of a compiled program can be written. -/
theorem writable_of_halts (hcompiled : m.program.Compiled)
    (hshort : m.program.offset m.program.size + length.val < Decimal.limit) {halt : Halt}
    (hhalts : m.Halts (.initial length input) halt) {f : Fault}
    (hstop : halt.stop? = some (.fault f)) : f.cause.Writable := by
  obtain ⟨n, s, hgoes, hended⟩ := System.exists_goes_of_halts (system_halts_iff.mpr hhalts)
  have hsize := (sound_of_goes hcompiled hgoes).size_tape
  rcases ended_of_turn hended with ⟨-, rfl⟩ | ⟨-, reason, last, hstep, rfl⟩
  · cases hstop
  · cases Option.some.inj hstop
    obtain ⟨cause, pc, dp⟩ := f
    have hstops := stopsFor_of_step hstep
    cases cause with
    | unrecognized label =>
        obtain ⟨⟨opcode, arg⟩, hnames, rfl, hnone⟩ := stopsFor_unrecognized_iff.mp hstops
        cases opcode with
        | known op => exact absurd rfl (hnone op)
        | foreign label unnamed => exact (hcompiled.normal_of_names hnames).elim
    | outOfBounds target =>
        obtain ⟨op, arg, hnames, hasks, -⟩ := stopsFor_outOfBounds_iff.mp hstops
        have htarget := hasks.natAbs_le
        have harg : arg.natAbs ≤ _ := hcompiled.natAbs_arg_le (Program.mem_of_names hnames)
        show target.natAbs < Decimal.limit
        omega

/-- A run of a compiled program comes out as it is, whatever is recorded: it ends as the plain run
does, and a fault is a fault.  The text and the tape only have to be shorter together than the least
number that is too long. -/
theorem compiled_run_writes_everything {text : String} {optimize : Bool}
    (hprogram : Program.ofSource text optimize = .ok m.program)
    (hshort : text.length + length.val < Decimal.limit) {e : Ending} :
    m.Ends (.initial length input) e ↔
      ∃ halt, m.Halts (.initial length input) halt ∧ halt.ending = e ∧
        ∀ f, halt.stop? = some (.fault f) → e.raised? = some (.fault f) := by
  have hcompiled := Compilation.compiled_of_ofSource hprogram
  have hcommands : m.program.offset m.program.size ≤ text.length := by
    rw [Program.offset_size, Compilation.commands_of_ofSource hprogram]
    exact List.length_filter_le _ _
  have hall : m.program.offset m.program.size + length.val < Decimal.limit := by omega
  rw [ends_iff_halts (legible_of_compiled hcompiled hall)]
  constructor
  · rintro ⟨halt, hhalts, rfl⟩
    exact ⟨halt, hhalts, rfl, fun f hstop =>
      Halt.raised?_of_fault hstop (writable_of_halts hcompiled hall hhalts hstop)⟩
  · rintro ⟨halt, hhalts, hending, -⟩
    exact ⟨halt, hhalts, hending⟩

end Machine

end TapeLang
