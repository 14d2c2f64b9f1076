import TapeLang.Machine.State
import TapeLang.Proofs.Tape

/-!
# What commands do to the world

A `World` is what the six primitives can see and change: the tape, the input that is left and the
output so far.  `World.act` says what one primitive does to it, without any program or program
counter; the only thing that can go wrong is that the head would leave the tape.

`World.actAll` carries out several primitives in order and stops in front of the first one that goes
wrong.  A run of equal primitives has the effect that the machine gives it in one go:

* `actAll_moves` and `actAll_moves_blocked`: moves add up, and a row of moves goes wrong exactly if
  its last position lies outside the tape;
* `actAll_adds`, `actAll_subs`: additions and subtractions add up;
* `actAll_writes`, `actAll_reads`: so do uses of the streams.

Only moves go wrong, and they leave the streams alone.
-/

namespace TapeLang

/-- The tape, the input that is left and the output so far. -/
structure World where
  tape : Tape
  input : List UInt8
  output : List UInt8

/-- The world of a state of the machine. -/
def State.world (s : State) : World :=
  ⟨s.tape, s.input, s.output⟩

namespace World

/-- The world before a run: a blank tape and no output. -/
def initial (length : TapeLength) (input : List UInt8) : World :=
  ⟨.blank length, input, []⟩

/-- Nothing but the tape differs. -/
structure SameStreams (v w : World) : Prop where
  input : v.input = w.input
  output : v.output = w.output

theorem SameStreams.refl (w : World) : w.SameStreams w :=
  ⟨rfl, rfl⟩

theorem SameStreams.symm {v w : World} (hstreams : v.SameStreams w) : w.SameStreams v :=
  ⟨hstreams.input.symm, hstreams.output.symm⟩

theorem SameStreams.trans {u v w : World} (hfirst : u.SameStreams v) (hsecond : v.SameStreams w) :
    u.SameStreams w :=
  ⟨hfirst.input.trans hsecond.input, hfirst.output.trans hsecond.output⟩

/-- What a primitive does; nothing if the head would leave the tape. -/
def act (p : Primitive) (w : World) : Option World :=
  match p with
  | .move d =>
    (w.tape.moveTo? (w.tape.pos + d.offset 1)).map fun tape => { w with tape }
  | .add => some { w with tape := w.tape.add 1 }
  | .sub => some { w with tape := w.tape.add (-1) }
  | .write => some { w with output := w.output ++ [w.tape.cell] }
  | .read =>
    match w.input with
    | [] => some { w with tape := w.tape.write 0 }
    | byte :: rest => some { w with tape := w.tape.write byte, input := rest }

/-- What some primitives do in order.  An error comes with the world in which it arose. -/
def actAll : List Primitive → World → Except World World
  | [], w => .ok w
  | p :: rest, w =>
    match w.act p with
    | some v => actAll rest v
    | none => .error w

theorem actAll_cons_of_some {p : Primitive} {rest : List Primitive} {w v : World}
    (hact : w.act p = some v) : actAll (p :: rest) w = actAll rest v := by
  rw [actAll, hact]

theorem actAll_cons_of_none {p : Primitive} {rest : List Primitive} {w : World}
    (hact : w.act p = none) : actAll (p :: rest) w = .error w := by
  rw [actAll, hact]

theorem actAll_append_of_ok {first : List Primitive} {w v : World}
    (hfirst : actAll first w = .ok v) (second : List Primitive) :
    actAll (first ++ second) w = actAll second v := by
  induction first generalizing w with
  | nil =>
      cases hfirst
      rfl
  | cons p rest ih =>
      cases hact : w.act p with
      | none =>
          rw [actAll_cons_of_none hact] at hfirst
          cases hfirst
      | some u =>
          rw [actAll_cons_of_some hact] at hfirst
          rw [List.cons_append, actAll_cons_of_some hact]
          exact ih hfirst

theorem actAll_append_of_error {first : List Primitive} {w v : World}
    (hfirst : actAll first w = .error v) (second : List Primitive) :
    actAll (first ++ second) w = .error v := by
  induction first generalizing w with
  | nil => cases hfirst
  | cons p rest ih =>
      cases hact : w.act p with
      | none =>
          rw [actAll_cons_of_none hact] at hfirst
          rw [List.cons_append, actAll_cons_of_none hact, hfirst]
      | some u =>
          rw [actAll_cons_of_some hact] at hfirst
          rw [List.cons_append, actAll_cons_of_some hact]
          exact ih hfirst

/-! ## Rows of equal primitives -/

/-- The first of several moves can be taken apart from the others. -/
private theorem offset_succ (d : Direction) (pos : Int) (count : Nat) :
    pos + d.offset 1 + d.offset count = pos + d.offset (count + 1 : Nat) := by
  cases d <;> simp only [Direction.offset] <;> omega

theorem actAll_moves {d : Direction} {count : Nat} {w : World} {moved : Tape}
    (hmoved : w.tape.moveTo? (w.tape.pos + d.offset count) = some moved) :
    actAll (List.replicate count (.move d)) w = .ok { w with tape := moved } := by
  induction count generalizing w with
  | zero =>
      have hzero : d.offset (0 : Nat) = 0 := by cases d <;> rfl
      rw [hzero, Int.add_zero, Tape.moveTo?_pos] at hmoved
      cases hmoved
      rfl
  | succ count ih =>
      -- The tape has no gaps: if the last position lies on it, then so does the first one.
      have hfirst : w.tape.Holds (w.tape.pos + d.offset 1) := by
        have hlast := (Tape.moveTo?_eq_some_iff.mp hmoved).1
        have hhere := w.tape.holds_pos
        unfold Tape.Holds at hlast hhere ⊢
        cases d <;> simp only [Direction.offset] at hlast ⊢ <;> omega
      obtain ⟨next, hnext⟩ := Tape.exists_moveTo? hfirst
      have hact : w.act (.move d) = some { w with tape := next } := by
        simp only [act, hnext, Option.map_some]
      rw [List.replicate_succ, actAll_cons_of_some hact]
      apply ih
      rw [Tape.pos_of_moveTo? hnext, Tape.moveTo?_of_moveTo? hnext, offset_succ]
      exact hmoved

theorem actAll_moves_blocked {d : Direction} {count : Nat} {w : World}
    (hblocked : w.tape.moveTo? (w.tape.pos + d.offset count) = none) :
    ∃ v, actAll (List.replicate count (.move d)) w = .error v ∧ v.SameStreams w := by
  induction count generalizing w with
  | zero =>
      have hzero : d.offset (0 : Nat) = 0 := by cases d <;> rfl
      rw [hzero, Int.add_zero, Tape.moveTo?_pos] at hblocked
      cases hblocked
  | succ count ih =>
      rw [List.replicate_succ]
      cases hnext : w.tape.moveTo? (w.tape.pos + d.offset 1) with
      | none =>
          have hact : w.act (.move d) = none := by simp only [act, hnext, Option.map_none]
          exact ⟨w, actAll_cons_of_none hact, .refl w⟩
      | some next =>
          have hact : w.act (.move d) = some { w with tape := next } := by
            simp only [act, hnext, Option.map_some]
          obtain ⟨v, hv, hstreams⟩ := ih (w := { w with tape := next }) (by
            rw [Tape.pos_of_moveTo? hnext, Tape.moveTo?_of_moveTo? hnext, offset_succ]
            exact hblocked)
          exact ⟨v, by rw [actAll_cons_of_some hact, hv], hstreams.input, hstreams.output⟩

theorem actAll_adds (count : Nat) (w : World) :
    actAll (List.replicate count .add) w = .ok { w with tape := w.tape.add count } := by
  induction count generalizing w with
  | zero => simp [actAll]
  | succ count ih =>
      rw [List.replicate_succ, actAll_cons_of_some rfl, ih, Tape.add_add,
        show (1 : Int) + count = (count + 1 : Nat) by omega]

theorem actAll_subs (count : Nat) (w : World) :
    actAll (List.replicate count .sub) w = .ok { w with tape := w.tape.add (-count) } := by
  induction count generalizing w with
  | zero => simp [actAll]
  | succ count ih =>
      rw [List.replicate_succ, actAll_cons_of_some rfl, ih, Tape.add_add,
        show (-1 : Int) + -count = -(count + 1 : Nat) by omega]

theorem actAll_writes (count : Nat) (w : World) :
    actAll (List.replicate count .write) w =
      .ok { w with output := w.output ++ List.replicate count w.tape.cell } := by
  induction count generalizing w with
  | zero => simp [actAll]
  | succ count ih =>
      rw [List.replicate_succ, actAll_cons_of_some rfl, ih, List.append_assoc,
        List.replicate_succ]
      rfl

/-- A read of the machine does what the primitive does. -/
private theorem act_read (s : State) :
    s.world.act .read =
      some ({ s.readByte.2 with tape := s.readByte.2.tape.write s.readByte.1 } : State).world := by
  have hsilent : ∀ (before : State) (byte? : Option UInt8),
      (before.logged (.read byte?)).output = before.output := by
    intro before byte?
    rw [State.output_logged]
    exact List.append_nil _
  cases hinput : s.input with
  | nil =>
      simp only [act, State.world, State.readByte, hinput, Option.some.injEq, World.mk.injEq]
      exact ⟨rfl, hinput.symm, (hsilent s none).symm⟩
  | cons byte rest =>
      simp only [act, State.world, State.readByte, hinput, Option.some.injEq, World.mk.injEq]
      exact ⟨rfl, rfl, (hsilent { s with input := rest } (some byte)).symm⟩

theorem actAll_reads (count : Nat) (s : State) :
    actAll (List.replicate count .read) s.world = .ok (s.readInto count).world := by
  induction count generalizing s with
  | zero => rfl
  | succ count ih =>
      rw [List.replicate_succ, actAll_cons_of_some (act_read s), ih]
      rfl

end World

end TapeLang
