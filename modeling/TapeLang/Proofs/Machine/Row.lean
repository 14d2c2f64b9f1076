import TapeLang.Proofs.Machine.Progress
import TapeLang.Proofs.Machine.Stop
import TapeLang.Proofs.Program.Jumps
import TapeLang.Proofs.Simulation

/-!
# Rows of single commands

A program that is compiled without optimization has one instruction for each command.  This file
follows the machine through two pieces of such a program: a row of primitives (`reaches_row`) and a
loop around such a row (`reaches_loop`).  `Machine.Reaches` says where that leads to: past the
piece, or to an access violation within it.

Of the profile only this is said: a property that it has stays, if counting the loop of the piece
keeps it.  Nothing else is counted on the way.
-/

namespace TapeLang

/-! ## Getting past a piece -/

/-- The run was stopped because the head would have left the tape. -/
def Halt.AccessViolation (halt : Halt) : Prop :=
  ∃ fault target, halt.stop? = some (.fault fault) ∧ fault.cause = .outOfBounds target

namespace Machine

variable {m : Machine} {s : State} {holds : Profile → Prop}

/-- The machine gets to a place with a world, or to an access violation that leaves the streams as
in a world.  Either way its profile has a property. -/
def Reaches (m : Machine) (holds : Profile → Prop) (s : State) (place : Nat) :
    Except World World → Prop
  | .ok w => ∃ n after, m.system.Goes n s after ∧ after.pc = place ∧ after.world = w ∧
      holds after.profile
  | .error w => ∃ halt, m.system.Halts s halt ∧ halt.AccessViolation ∧
      halt.state.world.SameStreams w ∧ holds halt.state.profile

theorem reaches_of_goes {n place : Nat} {t : State} {result : Except World World}
    (hgoes : m.system.Goes n s t) (hreaches : m.Reaches holds t place result) :
    m.Reaches holds s place result := by
  cases result with
  | ok w =>
      obtain ⟨k, after, hrest, hafter⟩ := hreaches
      exact ⟨n + k, after, hgoes.trans hrest, hafter⟩
  | error w =>
      obtain ⟨halt, hhalts, hhalt⟩ := hreaches
      exact ⟨halt, hgoes.halts hhalts, hhalt⟩

theorem reaches_of_stepsTo {place : Nat} {result : Except World World} {op : Operation} {arg : Int}
    (hpc : s.pc = place) (hget : m.program.toList[place]? = some (.of op arg))
    (hother : op ≠ .jumpIfZero) (hholds : holds s.profile) (hstep : m.StepsTo s result) :
    m.Reaches holds s (place + 1) result := by
  have hlt : s.pc < m.program.size := by
    have hinside := Program.lt_size_of_getElem? hget
    omega
  cases result with
  | ok w =>
      obtain ⟨after, hnext, hafter, hworld⟩ := hstep
      have hhere : m.program.get? s.pc = some (.of op arg) := by
        rw [hpc]
        exact Program.get?_of_getElem? hget
      have hprofile := profile_of_stay hhere (fun hpass => hother hpass.1) hnext
      exact ⟨1, after, System.goes_one (turn_of_next hlt hnext), by omega, hworld,
        hprofile ▸ hholds⟩
  | error w =>
      obtain ⟨target, last, hstop, -, hstreams⟩ := hstep
      refine ⟨⟨m.flush last, _⟩, System.halts_of_ended (turn_of_stop hlt hstop), ?_, ?_, ?_⟩
      · exact ⟨_, target, rfl, rfl⟩
      · rw [world_flush]
        exact hstreams
      · rwa [profile_flush, (sameButHead_of_step hstop).profile]

theorem reaches_row (hmemory : m.memory = .unbounded) {body : List Primitive} {place : Nat}
    (hrow : m.program.HasAt place (body.map (.repeated · 1))) (hpc : s.pc = place)
    (hholds : holds s.profile) :
    m.Reaches holds s (place + body.length) (World.actAll body s.world) := by
  induction body generalizing s place with
  | nil => exact ⟨0, s, .refl s, hpc, rfl, hholds⟩
  | cons p rest ih =>
      rw [List.map_cons, Program.hasAt_cons] at hrow
      obtain ⟨hget, hrest⟩ := hrow
      have hone : m.program.get? s.pc = some (.repeated p (1 : Nat)) := by
        rw [hpc]
        exact Program.get?_of_getElem? hget
      have hstep : m.StepsTo s (World.actAll [p] s.world) := step_repeated hmemory hone
      have hfirst := reaches_of_stepsTo hpc hget (by simp) hholds hstep
      cases hact : s.world.act p with
      | none =>
          rw [World.actAll_cons_of_none hact] at hfirst ⊢
          exact hfirst
      | some w =>
          rw [World.actAll_cons_of_some hact] at hfirst ⊢
          obtain ⟨n, after, hgoes, hafter, rfl, hkept⟩ := hfirst
          rw [List.length_cons, Nat.add_comm rest.length, ← Nat.add_assoc]
          exact reaches_of_goes hgoes (ih hrest hafter hkept)

/-! ## Getting past a loop -/

/-- The instructions of a loop around a row of primitives, if it starts at a place. -/
def loopRow (start : Nat) (body : List Primitive) : List Instruction :=
  .of .jumpIfZero (start + body.length + 1 : Nat) ::
    (body.map (.repeated · 1) ++ [.of .jumpIfNonzero start])

theorem pair_of_loopRow {body : List Primitive} {start : Nat}
    (hloop : m.program.HasAt start (loopRow start body)) :
    m.program.Pair start (start + body.length + 1) := by
  rw [loopRow, Program.hasAt_cons, Program.hasAt_append, Program.hasAt_cons] at hloop
  obtain ⟨hopening, -, hclosing, -⟩ := hloop
  rw [List.length_map, Nat.add_right_comm] at hclosing
  exact ⟨by omega, hopening, hclosing⟩

/-- Both jumps of a loop leave it on a zero cell and go to the first command of its body on any
other. -/
theorem goes_test {i j : Nat} (hpair : m.program.Pair i j) (hpc : s.pc = i ∨ s.pc = j)
    (hholds : holds s.profile)
    (hcount : ∀ u : State, u.pc = i → holds u.profile → holds (m.countLoop j u).profile) :
    ∃ after, m.system.Goes 1 s after ∧ after.world = s.world ∧
      after.pc = (if s.world.tape.cell = 0 then j else i : Nat) + 1 ∧ holds after.profile := by
  rcases hpc with hpc | hpc
  · have hinside : s.pc < m.program.size := by
      have hlt := Program.lt_size_of_getElem? hpair.forth
      omega
    have hget : m.program.get? s.pc = some (.of .jumpIfZero j) := by
      rw [hpc]
      exact Program.get?_of_getElem? hpair.forth
    obtain ⟨after, hstep, hworld, hafter⟩ := step_jumpIfZero hget
    refine ⟨after, System.goes_one (turn_of_next hinside hstep), hworld, ?_, ?_⟩
    · rw [hafter, hpc, State.world]
      split <;> rfl
    · by_cases hcell : s.tape.cell = 0
      · rw [profile_of_pass hget hcell hstep]
        exact hcount s hpc hholds
      · rwa [profile_of_stay hget (fun hpass => hcell hpass.2) hstep]
  · have hinside : s.pc < m.program.size := by
      have hlt := Program.lt_size_of_getElem? hpair.back
      omega
    have hget : m.program.get? s.pc = some (.of .jumpIfNonzero i) := by
      rw [hpc]
      exact Program.get?_of_getElem? hpair.back
    obtain ⟨after, hstep, hworld, hafter⟩ := step_jumpIfNonzero hget
    refine ⟨after, System.goes_one (turn_of_next hinside hstep), hworld, ?_, ?_⟩
    · rw [hafter, hpc, State.world]
      split <;> rfl
    · rwa [profile_of_stay hget (by simp) hstep]

theorem reaches_loop (hmemory : m.memory = .unbounded) {body : List Primitive} {start : Nat}
    (hcode : m.program.HasAt start (loopRow start body))
    (hpc : s.pc = start ∨ s.pc = (start + body.length + 1 : Nat)) {w : World}
    (hworld : s.world = w) (hholds : holds s.profile)
    (hcount : ∀ u : State, u.pc = start → holds u.profile →
      holds (m.countLoop (start + body.length + 1 : Nat) u).profile)
    {result : Except World World} (hloop : World.Loop (World.actAll body) w result) :
    m.Reaches holds s (start + body.length + 2) result := by
  have hbody : m.program.HasAt (start + 1) (body.map (.repeated · 1)) := by
    rw [loopRow, Program.hasAt_cons, Program.hasAt_append] at hcode
    exact hcode.2.1
  have hpair := pair_of_loopRow hcode
  -- After each round the machine is back at one of the two jumps, so the start may be either.
  induction hloop generalizing s with
  | exit hzero =>
      subst hworld
      obtain ⟨after, hgoes, hworld, hafter, hkept⟩ := goes_test hpair hpc hholds hcount
      rw [if_pos hzero] at hafter
      exact ⟨1, after, hgoes, hafter, hworld, hkept⟩
  | again hcell hround _ ih =>
      subst hworld
      obtain ⟨after, hgoes, hworld, hafter, hkept⟩ := goes_test hpair hpc hholds hcount
      rw [if_neg hcell] at hafter
      have hrow := reaches_row hmemory hbody hafter hkept
      rw [hworld, hround] at hrow
      obtain ⟨n, last, hrowGoes, hlast, hlastWorld, hlastKept⟩ := hrow
      refine reaches_of_goes (hgoes.trans hrowGoes) (ih (.inr ?_) hlastWorld hlastKept)
      rw [hlast, Nat.add_right_comm]
  | fault hcell hround =>
      subst hworld
      obtain ⟨after, hgoes, hworld, hafter, hkept⟩ := goes_test hpair hpc hholds hcount
      rw [if_neg hcell] at hafter
      have hrow := reaches_row hmemory hbody hafter hkept
      rw [hworld, hround] at hrow
      exact reaches_of_goes hgoes hrow

end Machine

end TapeLang
