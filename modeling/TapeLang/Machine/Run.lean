import TapeLang.Machine.Step

/-!
# Runs of the machine

A run takes steps until the program counter is past the end of the program, or a step stops. Either
way the output is flushed in the end. A run that does not halt has no result.

`Machine.run` has a budget of steps and gives nothing if the run is not over within it. Spare budget
is inert (`run_mono`), so a run has one result, whatever budget reaches it: `Machine.Halts` says
what it is, and `Halts.unique` that there is no other.
-/

namespace TapeLang

/-- How a run ends: the last state, and the reason if it was stopped. -/
structure Halt where
  state : State
  stop? : Option Stop

namespace Machine

/-- Runs for at most `budget` steps. -/
def run (m : Machine) : Nat → State → Option Halt
  | 0, _ => none
  | budget + 1, s =>
    if s.pc < m.program.size then
      match m.step s with
      | .next after => m.run budget after
      | .stop reason last => some ⟨m.flush last, some reason⟩
      | .endless => none
    else some ⟨m.flush s, none⟩

/-- A budget that no run can use up in practice. -/
def ampleBudget : Nat := Nat.pow 2 62

/-- A run from a state ends in a given way. -/
def Halts (m : Machine) (s : State) (halt : Halt) : Prop :=
  ∃ budget, m.run budget s = some halt

/-! ## Spare budget is inert -/

/-- A larger budget gives the same result. -/
theorem run_mono {m : Machine} {budget larger : Nat} {s : State} {halt : Halt}
    (hrun : m.run budget s = some halt) (hle : budget ≤ larger) : m.run larger s = some halt := by
  induction budget generalizing larger s with
  | zero => cases hrun
  | succ budget ih =>
    obtain ⟨larger, rfl⟩ : ∃ smaller, larger = smaller + 1 := ⟨larger - 1, by omega⟩
    simp only [run] at hrun ⊢
    split at hrun
    · rename_i hinside
      rw [if_pos hinside]
      cases hstep : m.step s with
      | next after =>
        simp only [hstep] at hrun
        exact ih hrun (by omega)
      | stop reason last => simpa only [hstep] using hrun
      | endless => simp only [hstep] at hrun; cases hrun
    · rename_i houtside
      rwa [if_neg houtside]

/-- A run ends in at most one way. -/
theorem Halts.unique {m : Machine} {s : State} {first second : Halt} (hfirst : m.Halts s first)
    (hsecond : m.Halts s second) : first = second := by
  obtain ⟨budget₁, hrun₁⟩ := hfirst
  obtain ⟨budget₂, hrun₂⟩ := hsecond
  have hcommon₁ := run_mono hrun₁ (Nat.le_max_left budget₁ budget₂)
  have hcommon₂ := run_mono hrun₂ (Nat.le_max_right budget₁ budget₂)
  exact Option.some.inj (hcommon₁.symm.trans hcommon₂)

end Machine

end TapeLang
