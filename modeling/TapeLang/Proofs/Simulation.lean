import TapeLang.Machine.Run

/-!
# Runs and simulations

A `System` is deterministic: in each state it goes on to the next state, or it is over with an
outcome, or it hangs.  The machine is one (`Machine.system`), and so is whatever else the machine is
compared with.

A simulation relates the states of two systems in such a way that every turn of the first one is
matched by some turns of the second one.  The second system may take many turns for one, and it may
also take none at all; a rank that falls with every such turn makes sure that this does not go on
forever.  From these conditions on single turns follows what is wanted of whole runs:

* `Simulation.goes` and `Simulation.exists_ahead`: from related states, each system keeps up with
  the other one, whether they halt or not;
* `Simulation.halts_iff`: one halts exactly if the other one does;
* `Simulation.alike_of_halts`: if they do, their outcomes are alike.

To keep up with the second system is the half that needs determinism.  It is shown by induction on
the turns that the second system has taken and, below that, on the rank.
-/

namespace TapeLang

/-- What a system does in a state. -/
inductive Turn (σ ω : Type) where
  | next (state : σ)
  | ended (outcome : ω)
  | hang

/-- A deterministic system with states in `σ` and outcomes in `ω`. -/
structure System (σ ω : Type) where
  turn : σ → Turn σ ω

variable {σ τ ω υ : Type}

namespace System

/-- Runs for at most `budget` turns. -/
def run (A : System σ ω) : Nat → σ → Option ω
  | 0, _ => none
  | budget + 1, s =>
    match A.turn s with
    | .next after => A.run budget after
    | .ended outcome => some outcome
    | .hang => none

/-- A run from a state ends with an outcome. -/
def Halts (A : System σ ω) (s : σ) (outcome : ω) : Prop :=
  ∃ budget, A.run budget s = some outcome

/-- `A.Goes n s t` says that `n` turns lead from `s` to `t`. -/
inductive Goes (A : System σ ω) : Nat → σ → σ → Prop where
  | refl (s : σ) : A.Goes 0 s s
  | step {n : Nat} {s middle t : σ} (hturn : A.turn s = .next middle)
      (hgoes : A.Goes n middle t) : A.Goes (n + 1) s t

variable {A : System σ ω}

/-! ## Going some turns -/

theorem goes_one {s t : σ} (hturn : A.turn s = .next t) : A.Goes 1 s t :=
  .step hturn (.refl t)

theorem Goes.trans {n k : Nat} {s t u : σ} (hfirst : A.Goes n s t) (hsecond : A.Goes k t u) :
    A.Goes (n + k) s u := by
  induction hfirst with
  | refl s => simpa using hsecond
  | step hturn _ ih =>
      rw [Nat.add_right_comm]
      exact .step hturn (ih hsecond)

/-- The turns that a run begins with can be taken off its budget. -/
theorem Goes.run_eq {n : Nat} {s t : σ} (hgoes : A.Goes n s t) (budget : Nat) :
    A.run (n + budget) s = A.run budget t := by
  induction hgoes with
  | refl s => rw [Nat.zero_add]
  | step hturn _ ih =>
      rw [Nat.add_right_comm, run, hturn]
      exact ih

theorem Goes.halts {n : Nat} {s t : σ} {outcome : ω} (hgoes : A.Goes n s t)
    (hhalts : A.Halts t outcome) : A.Halts s outcome := by
  obtain ⟨budget, hrun⟩ := hhalts
  exact ⟨n + budget, by rw [hgoes.run_eq, hrun]⟩

theorem halts_of_ended {s : σ} {outcome : ω} (hturn : A.turn s = .ended outcome) :
    A.Halts s outcome :=
  ⟨1, by rw [run, hturn]⟩

/-- A run that halts goes to a state where it is over. -/
theorem exists_goes_of_halts {s : σ} {outcome : ω} (hhalts : A.Halts s outcome) :
    ∃ n last, A.Goes n s last ∧ A.turn last = .ended outcome := by
  obtain ⟨budget, hrun⟩ := hhalts
  induction budget generalizing s with
  | zero => cases hrun
  | succ budget ih =>
      cases hturn : A.turn s with
      | next after =>
          rw [run, hturn] at hrun
          obtain ⟨n, last, hgoes, hended⟩ := ih hrun
          exact ⟨n + 1, last, .step hturn hgoes, hended⟩
      | ended result =>
          rw [run, hturn] at hrun
          cases hrun
          exact ⟨0, s, .refl s, hturn⟩
      | hang =>
          rw [run, hturn] at hrun
          cases hrun

/-- The states in which the first turns are taken. -/
def starts (A : System σ ω) : Nat → σ → List σ
  | 0, _ => []
  | n + 1, s =>
    match A.turn s with
    | .next after => s :: A.starts n after
    | _ => []

theorem starts_succ {s after : σ} (hturn : A.turn s = .next after) (n : Nat) :
    A.starts (n + 1) s = s :: A.starts n after := by
  simp only [starts, hturn]

theorem exists_goes_of_mem_starts {n : Nat} {s t : σ} (hmem : t ∈ A.starts n s) :
    ∃ k, A.Goes k s t := by
  induction n generalizing s with
  | zero => cases hmem
  | succ n ih =>
      rw [starts] at hmem
      split at hmem
      · rename_i after hturn
        rcases List.mem_cons.mp hmem with rfl | hlater
        · exact ⟨0, .refl t⟩
        · obtain ⟨k, hgoes⟩ := ih hlater
          exact ⟨k + 1, .step hturn hgoes⟩
      · cases hmem

/-- What holds in the beginning and is kept by every turn holds all along. -/
theorem Goes.preserves {holds : σ → Prop} {n : Nat} {s t : σ} (hgoes : A.Goes n s t)
    (hkept : ∀ s after, holds s → A.turn s = .next after → holds after) (hstart : holds s) :
    holds t := by
  induction hgoes with
  | refl s => exact hstart
  | step hturn _ ih => exact ih (hkept _ _ hstart hturn)

/-! ## A run has one outcome -/

/-- A larger budget gives the same outcome. -/
theorem run_le {budget larger : Nat} {s : σ} {outcome : ω} (hrun : A.run budget s = some outcome)
    (hle : budget ≤ larger) : A.run larger s = some outcome := by
  induction budget generalizing larger s with
  | zero => cases hrun
  | succ budget ih =>
      obtain ⟨larger, rfl⟩ : ∃ smaller, larger = smaller + 1 := ⟨larger - 1, by omega⟩
      cases hturn : A.turn s with
      | next after =>
          simp only [run, hturn] at hrun ⊢
          exact ih hrun (by omega)
      | ended result => simpa only [run, hturn] using hrun
      | hang => simp only [run, hturn] at hrun; cases hrun

theorem halts_unique {s : σ} {first second : ω} (hfirst : A.Halts s first)
    (hsecond : A.Halts s second) : first = second := by
  obtain ⟨budget₁, hrun₁⟩ := hfirst
  obtain ⟨budget₂, hrun₂⟩ := hsecond
  have hcommon₁ := run_le hrun₁ (Nat.le_max_left budget₁ budget₂)
  have hcommon₂ := run_le hrun₂ (Nat.le_max_right budget₁ budget₂)
  exact Option.some.inj (hcommon₁.symm.trans hcommon₂)

/-- A run that is over within a budget takes up the turns that it begins with. -/
theorem Goes.run_rest {n budget : Nat} {s t : σ} {outcome : ω} (hgoes : A.Goes n s t)
    (hrun : A.run budget s = some outcome) :
    ∃ rest, budget = n + rest ∧ A.run rest t = some outcome := by
  induction hgoes generalizing budget with
  | refl s => exact ⟨budget, by omega, hrun⟩
  | step hturn _ ih =>
      cases budget with
      | zero => cases hrun
      | succ budget =>
          rw [run, hturn] at hrun
          obtain ⟨rest, hbudget, hrest⟩ := ih hrun
          exact ⟨rest, by omega, hrest⟩

/-- A run that halts still does so after some turns. -/
theorem Goes.halts_rest {n : Nat} {s t : σ} {outcome : ω} (hgoes : A.Goes n s t)
    (hhalts : A.Halts s outcome) : A.Halts t outcome := by
  obtain ⟨budget, hrun⟩ := hhalts
  obtain ⟨rest, -, hrest⟩ := hgoes.run_rest hrun
  exact ⟨rest, hrest⟩

theorem halts_of_turn {s after : σ} {outcome : ω} (hturn : A.turn s = .next after)
    (hhalts : A.Halts s outcome) : A.Halts after outcome :=
  (goes_one hturn).halts_rest hhalts

/-- More turns from one state lead through the state that fewer turns lead to. -/
theorem Goes.rest {n k : Nat} {s t u : σ} (hfirst : A.Goes n s t) (hsecond : A.Goes (n + k) s u) :
    A.Goes k t u := by
  induction hfirst with
  | refl s => rwa [Nat.zero_add] at hsecond
  | step hturn _ ih =>
      rw [Nat.add_right_comm] at hsecond
      cases hsecond with
      | step hother hgoes =>
          rw [hturn] at hother
          cases hother
          exact ih hgoes

end System

/-! ## Simulations -/

/-- What the next turn of `A` is to `B`. -/
inductive Matched (A : System σ ω) (B : System τ υ) (related : σ → τ → Prop)
    (alike : ω → υ → Prop) (rank : σ → Nat) (s : σ) (t : τ) : Prop where
  /-- A turn is matched by some turns, and by none only if the rank falls. -/
  | next {after : σ} {later : τ} {n : Nat} (hturn : A.turn s = .next after)
      (hgoes : B.Goes n t later) (hrelated : related after later)
      (hfalls : n = 0 → rank after < rank s)
  /-- Where the first system has ended, the second one is going to end. -/
  | ended {outcome : ω} {result : υ} (hturn : A.turn s = .ended outcome)
      (hhalts : B.Halts t result) (halike : alike outcome result)

/-- What is ahead of `B` when `A` waits for it in a state. -/
inductive Ahead (A : System σ ω) (B : System τ υ) (related : σ → τ → Prop)
    (alike : ω → υ → Prop) (s : σ) (t : τ) : Prop where
  /-- Some more turns lead to a state that is related to the first system's. -/
  | next {last : τ} {n : Nat} (hgoes : B.Goes (n + 1) t last) (hrelated : related s last)
  /-- The first system has ended, and the second one is going to end. -/
  | ended {outcome : ω} {result : υ} (hturn : A.turn s = .ended outcome)
      (hhalts : B.Halts t result) (halike : alike outcome result)

/-- From related states, the turns of `A` are matched by turns of `B`. -/
def Simulation (A : System σ ω) (B : System τ υ) (related : σ → τ → Prop)
    (alike : ω → υ → Prop) (rank : σ → Nat) : Prop :=
  ∀ (s : σ) (t : τ), related s t → Matched A B related alike rank s t

namespace Simulation

variable {A : System σ ω} {B : System τ υ} {related : σ → τ → Prop} {alike : ω → υ → Prop}
  {rank : σ → Nat}

/-- The relations of a simulation may be put in other words. -/
theorem imp {related' : σ → τ → Prop} {alike' : ω → υ → Prop}
    (simulation : Simulation A B related alike rank) (hback : ∀ s t, related' s t → related s t)
    (hforth : ∀ s t, related s t → related' s t) (halike : ∀ u v, alike u v → alike' u v) :
    Simulation A B related' alike' rank := by
  intro s t hrelated
  cases simulation s t (hback s t hrelated) with
  | next hturn hgoes hlater hfalls => exact .next hturn hgoes (hforth _ _ hlater) hfalls
  | ended hturn hhalts hends => exact .ended hturn hhalts (halike _ _ hends)

/-- Wherever the first system goes, the second one goes to a related state. -/
theorem goes (simulation : Simulation A B related alike rank) {s after : σ} {t : τ} {n : Nat}
    (hrelated : related s t) (hgoes : A.Goes n s after) :
    ∃ k later, B.Goes k t later ∧ related after later := by
  induction hgoes generalizing t with
  | refl s => exact ⟨0, t, .refl t, hrelated⟩
  | step hturn _ ih =>
      cases simulation _ t hrelated with
      | next hother hfirst hlater _ =>
          rw [hturn] at hother
          cases hother
          obtain ⟨k, later, hrest, hlast⟩ := ih hlater
          exact ⟨_, later, hfirst.trans hrest, hlast⟩
      | ended hother _ _ =>
          rw [hturn] at hother
          cases hother

/-- If the first system halts, so does the second one. -/
theorem halts (simulation : Simulation A B related alike rank) {s : σ} {t : τ} {outcome : ω}
    (hrelated : related s t) (hhalts : A.Halts s outcome) :
    ∃ result, B.Halts t result ∧ alike outcome result := by
  obtain ⟨n, last, hgoes, hended⟩ := System.exists_goes_of_halts hhalts
  obtain ⟨k, later, hother, hlater⟩ := simulation.goes hrelated hgoes
  cases simulation last later hlater with
  | next hturn _ _ _ =>
      rw [hended] at hturn
      cases hturn
  | ended hturn hresult halike =>
      rw [hended] at hturn
      cases hturn
      exact ⟨_, hother.halts hresult, halike⟩

/-- However far the second system goes, the first goes to a state in which it can wait for it. -/
theorem exists_ahead (simulation : Simulation A B related alike rank) {s : σ} {t later : τ}
    {n : Nat} (hrelated : related s t) (hgoes : B.Goes n t later) :
    ∃ k after, A.Goes k s after ∧ Ahead A B related alike after later := by
  -- A matched turn goes past the state, or leaves fewer turns to it, or as many and a lower rank.
  induction n using Nat.strongRecOn generalizing s t with
  | ind n ihTurns =>
      induction hrank : rank s using Nat.strongRecOn generalizing s t with
      | ind r ihRank =>
          cases simulation s t hrelated with
          | @next middle matched taken hturn hmatched hmiddle hfalls =>
              rcases Nat.lt_or_ge n taken with hless | hge
              · obtain ⟨rest, rfl⟩ : ∃ rest, taken = n + (rest + 1) := ⟨taken - n - 1, by omega⟩
                exact ⟨1, middle, System.goes_one hturn, .next (hgoes.rest hmatched) hmiddle⟩
              · obtain ⟨rest, rfl⟩ : ∃ rest, n = taken + rest := ⟨n - taken, by omega⟩
                have hrest := hmatched.rest hgoes
                obtain ⟨k, after, hafter, hahead⟩ :
                    ∃ k after, A.Goes k middle after ∧ Ahead A B related alike after later := by
                  cases taken with
                  | zero =>
                      rw [Nat.zero_add] at ihRank
                      exact ihRank (rank middle) (hrank ▸ hfalls rfl) hmiddle hrest rfl
                  | succ taken => exact ihTurns rest (by omega) hmiddle hrest
                exact ⟨_, after, (System.goes_one hturn).trans hafter, hahead⟩
          | ended hturn hhalts halike =>
              exact ⟨0, s, .refl s, .ended hturn (hgoes.halts_rest hhalts) halike⟩

/-- If the second system halts, so does the first one. -/
theorem halts_of_halts (simulation : Simulation A B related alike rank) {s : σ} {t : τ}
    {result : υ} (hrelated : related s t) (hhalts : B.Halts t result) :
    ∃ outcome, A.Halts s outcome := by
  obtain ⟨n, last, hgoes, hended⟩ := System.exists_goes_of_halts hhalts
  obtain ⟨k, after, hafter, hahead⟩ := simulation.exists_ahead hrelated hgoes
  cases hahead with
  | next hmore _ =>
      -- Nothing is ahead of a system that has ended.
      cases hmore with
      | step hturn _ =>
          rw [hended] at hturn
          cases hturn
  | ended hturn _ _ => exact ⟨_, hafter.halts (System.halts_of_ended hturn)⟩

/-- From related states, one system halts exactly if the other one does. -/
theorem halts_iff (simulation : Simulation A B related alike rank) {s : σ} {t : τ}
    (hrelated : related s t) :
    (∃ outcome, A.Halts s outcome) ↔ ∃ result, B.Halts t result := by
  constructor
  · rintro ⟨outcome, hhalts⟩
    obtain ⟨result, hresult, -⟩ := simulation.halts hrelated hhalts
    exact ⟨result, hresult⟩
  · rintro ⟨result, hhalts⟩
    exact simulation.halts_of_halts hrelated hhalts

/-- From related states, the outcomes are alike. -/
theorem alike_of_halts (simulation : Simulation A B related alike rank) {s : σ} {t : τ}
    {outcome : ω} {result : υ} (hrelated : related s t) (hfirst : A.Halts s outcome)
    (hsecond : B.Halts t result) : alike outcome result := by
  obtain ⟨result', hresult', halike⟩ := simulation.halts hrelated hfirst
  rwa [System.halts_unique hsecond hresult']

end Simulation

/-! ## The machine as a system -/

namespace Machine

/-- The machine on its program: a turn is a step, and the run is over past the end of the program or
where a step stops. -/
def system (m : Machine) : System State Halt where
  turn s :=
    if s.pc < m.program.size then
      match m.step s with
      | .next after => .next after
      | .stop reason last => .ended ⟨m.flush last, some reason⟩
      | .endless => .hang
    else .ended ⟨m.flush s, none⟩

theorem run_system (m : Machine) (budget : Nat) (s : State) :
    m.system.run budget s = m.run budget s := by
  induction budget generalizing s with
  | zero => rfl
  | succ budget ih =>
      simp only [System.run, Machine.run, system]
      by_cases hinside : s.pc < m.program.size
      · simp only [if_pos hinside]
        cases m.step s with
        | next after => exact ih after
        | stop reason last => rfl
        | endless => rfl
      · simp only [if_neg hinside]

theorem system_halts_iff {m : Machine} {s : State} {halt : Halt} :
    m.system.Halts s halt ↔ m.Halts s halt := by
  simp only [System.Halts, Machine.Halts, run_system]

theorem turn_of_next {m : Machine} {s after : State} (hinside : s.pc < m.program.size)
    (hstep : m.step s = .next after) : m.system.turn s = .next after := by
  simp [system, hinside, hstep]

theorem turn_of_stop {m : Machine} {s last : State} {reason : Stop}
    (hinside : s.pc < m.program.size) (hstep : m.step s = .stop reason last) :
    m.system.turn s = .ended ⟨m.flush last, some reason⟩ := by
  simp [system, hinside, hstep]

theorem step_of_turn {m : Machine} {s after : State} (hturn : m.system.turn s = .next after) :
    s.pc < m.program.size ∧ m.step s = .next after := by
  simp only [system] at hturn
  split at hturn
  · rename_i hinside
    split at hturn
    · rename_i hstep
      cases hturn
      exact ⟨hinside, hstep⟩
    · cases hturn
    · cases hturn
  · cases hturn

/-- A run is over past the end of the program, or where a step stops. -/
theorem ended_of_turn {m : Machine} {s : State} {halt : Halt}
    (hturn : m.system.turn s = .ended halt) :
    ((m.program.size : Int) ≤ s.pc ∧ halt = ⟨m.flush s, none⟩) ∨
      s.pc < m.program.size ∧ ∃ reason last, m.step s = .stop reason last ∧
        halt = ⟨m.flush last, some reason⟩ := by
  simp only [system] at hturn
  split at hturn
  · rename_i hinside
    split at hturn
    · cases hturn
    · rename_i reason last hstep
      cases hturn
      exact .inr ⟨hinside, reason, last, hstep, rfl⟩
    · cases hturn
  · rename_i houtside
    cases hturn
    exact .inl ⟨Int.not_lt.mp houtside, rfl⟩

theorem turn_of_end {m : Machine} {s : State} (hend : (m.program.size : Int) ≤ s.pc) :
    m.system.turn s = .ended ⟨m.flush s, none⟩ := by
  simp [system, Int.not_lt.mpr hend]

/-- A run that was stopped ends by the step that stopped it. -/
theorem exists_step_of_halts {m : Machine} {s : State} {halt : Halt} {reason : Stop}
    (hhalts : m.Halts s halt) (hstop : halt.stop? = some reason) :
    ∃ before last : State, before.pc < m.program.size ∧ m.step before = .stop reason last ∧
      halt.state = m.flush last := by
  obtain ⟨n, before, -, hended⟩ := System.exists_goes_of_halts (system_halts_iff.mpr hhalts)
  rcases ended_of_turn hended with ⟨-, rfl⟩ | ⟨hinside, reason', last, hstep, rfl⟩
  · cases hstop
  · cases hstop
    exact ⟨before, last, hinside, hstep, rfl⟩

end Machine

end TapeLang
