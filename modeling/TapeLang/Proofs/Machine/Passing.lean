import TapeLang.Proofs.Compilation.Recompilation
import TapeLang.Proofs.Machine.Safety
import TapeLang.Proofs.Profile

/-!
# Counting the loops that a run passes by

A loop is passed by where a step comes to its first jump on a zero cell (`Machine.passed?`).  With a
profile, each such step records the source of the loop, and no other step changes the profile.  So
the profile of a run is the record of all loops that it has passed by (`profile_of_goes`).

Loops with the same source share a count.  In a compiled program that does no harm, because they are
the same loop at different places (`Compilation.loopSource_eq_iff`).  The count of a loop is
therefore how often a loop with its instructions has been passed by (`count_of_goes`).
-/

namespace TapeLang

namespace Machine

variable {m : Machine} {s t after : State}

/-- The jumps of the loop that a step passes by, if it passes one by. -/
def passed? (m : Machine) (s : State) : Option (Int × Int) :=
  match m.program.get? s.pc with
  | some ⟨.known .jumpIfZero, last⟩ => if s.tape.cell = 0 then some (s.pc, last) else none
  | _ => none

/-- The sources of the loops that are passed by in some states. -/
def passedSources (m : Machine) (states : List State) : List String :=
  (states.filterMap m.passed?).map fun (first, last) => m.program.loopSource first last

/-- With a profile, a step records the loop that it passes by, and nothing else. -/
theorem profile_of_step (hprofiled : m.profiled = true) (hstep : m.step s = .next after) :
    after.profile = s.profile.recordAll (m.passedSources [s]) := by
  obtain ⟨op, arg, -, hnames, -⟩ := performs_of_step hstep
  have hget := Program.get?_eq_some_iff.mpr hnames
  by_cases hpass : op = .jumpIfZero ∧ s.tape.cell = 0
  · obtain ⟨rfl, hcell⟩ := hpass
    have hpassed : m.passed? s = some (s.pc, arg) := by
      simp only [passed?, hget, if_pos hcell]
    rw [profile_of_pass hget hcell hstep, profile_countLoop, if_pos hprofiled]
    simp [passedSources, hpassed, Profile.recordAll]
  · have hpassed : m.passed? s = none := by
      unfold passed?
      rw [hget]
      split
      · rename_i hjump
        cases hjump
        exact if_neg fun hcell => hpass ⟨rfl, hcell⟩
      · rfl
    rw [profile_of_stay hget hpass hstep]
    simp [passedSources, hpassed]

theorem passedSources_append (first second : List State) :
    m.passedSources (first ++ second) = m.passedSources first ++ m.passedSources second := by
  simp [passedSources]

theorem profile_of_goes (hprofiled : m.profiled = true) {n : Nat} (hgoes : m.system.Goes n s t) :
    t.profile = s.profile.recordAll (m.passedSources (m.system.starts n s)) := by
  induction hgoes with
  | refl s => rfl
  | @step n s middle t hturn _ ih =>
      rw [System.starts_succ hturn, ← List.singleton_append, passedSources_append,
        Profile.recordAll_append, ← profile_of_step hprofiled (step_of_turn hturn).2]
      exact ih

/-! ## Compiled programs -/

/-- In a compiled program the loop that is passed by is one between two jumps. -/
theorem pair_of_passed? (hcompiled : m.program.Compiled) {length : TapeLength} {size : Nat}
    (hsound : s.Sound length size) {loop : Int × Int} (hpassed : m.passed? s = some loop) :
    ∃ i j : Nat, loop = (↑i, ↑j) ∧ m.program.Pair i j := by
  unfold passed? at hpassed
  split at hpassed
  · rename_i last hget
    rw [Option.ite_none_right_eq_some, Option.some.injEq] at hpassed
    obtain ⟨place, hplace, hjump⟩ :=
      (Program.get?_eq_some_iff.mp hget).getElem? hsound.pc_nonneg
    have hlt := Program.lt_size_of_getElem? hjump
    obtain ⟨j, hlast, -, hpair⟩ :=
      hcompiled.jumps.forth place last (Nat.zero_le _) hlt hjump List.not_mem_nil
    exact ⟨place, j, by rw [← hpassed.2, hplace, hlast], hpair⟩
  · cases hpassed

/-- The number of times that some loop with the same instructions as the one between two places was
passed by, wherever it stands. -/
def timesPassed (m : Machine) (first last : Int) (states : List State) : Nat :=
  (states.filterMap m.passed?).countP fun (first', last') =>
    decide (relocated (-first') (m.program.span first' last') =
      relocated (-first) (m.program.span first last))

theorem count_of_goes {text : String} {optimize : Bool}
    (hprogram : Program.ofSource text optimize = .ok m.program) (hprofiled : m.profiled = true)
    {length : TapeLength} {input : List UInt8} {n : Nat}
    (hgoes : m.system.Goes n (.initial length input) s) {i j : Nat} (hpair : m.program.Pair i j) :
    s.profile.count (m.program.loopSource i j) =
      m.timesPassed i j (m.system.starts n (.initial length input)) := by
  have hcompiled := Compilation.compiled_of_ofSource hprogram
  have hempty : (State.initial length input).profile.count (m.program.loopSource i j) = 0 := rfl
  calc s.profile.count (m.program.loopSource i j)
      = (m.passedSources (m.system.starts n (.initial length input))).count
          (m.program.loopSource i j) := by
        rw [profile_of_goes hprofiled hgoes, Profile.count_recordAll, hempty, Nat.zero_add]
    _ = m.timesPassed i j (m.system.starts n (.initial length input)) := by
        rw [passedSources, timesPassed, List.count_eq_countP, List.countP_map]
        refine List.countP_congr fun loop hmem => ?_
        obtain ⟨start, hstart, hpassed⟩ := List.mem_filterMap.mp hmem
        obtain ⟨k, hreached⟩ := System.exists_goes_of_mem_starts hstart
        have hsound := sound_of_goes hcompiled hreached
        obtain ⟨k, l, rfl, hother⟩ := pair_of_passed? hcompiled hsound hpassed
        simp only [Function.comp_apply, beq_iff_eq, decide_eq_true_eq]
        exact Compilation.loopSource_eq_iff hprogram hother hpair

/-- The source of the whole program, or of a loop in it, is compiled to the same instructions again.
So loops with one source are one loop at different places, and their common count in a profile is
right for each of them. -/
theorem loopSource_tells_loops_apart {text : String} {optimize : Bool} {p : Program}
    (hprogram : Program.ofSource text optimize = .ok p) :
    Program.ofSource (expanded (p.loopSource 0 ((p.size : Int) - 1))) optimize = .ok p ∧
    (∀ i j : Nat, p.Pair i j → Program.ofSource (expanded (p.loopSource i j)) optimize =
      .ok (.ofList (relocated (-i) (p.span i j)))) ∧
    (∀ i j k l : Nat, p.Pair i j → p.Pair k l →
      (p.loopSource i j = p.loopSource k l ↔
        relocated (-i) (p.span i j) = relocated (-k) (p.span k l))) ∧
    ∀ m : Machine, m.program = p → m.profiled = true →
      ∀ length input n s, m.system.Goes n (.initial length input) s →
        ∀ i j : Nat, p.Pair i j → s.profile.count (p.loopSource i j) =
          m.timesPassed i j (m.system.starts n (.initial length input)) := by
  refine ⟨Compilation.ofSource_expanded_whole hprogram, ?_, ?_, ?_⟩
  · intro i j hpair
    exact Compilation.ofSource_expanded_loop hprogram hpair
  · intro i j k l hfirst hsecond
    exact Compilation.loopSource_eq_iff hprogram hfirst hsecond
  · rintro m rfl hprofiled length input n s hgoes i j hpair
    exact count_of_goes hprogram hprofiled hgoes hpair

theorem loopSource_tells_loops_apart_of_inner :
    let p : Program := .ofList
      [.repeated .add 1, .of .jumpIfZero 3, .of .zero 0, .of .jumpIfNonzero 1]
    Program.ofSource "+[[-]]" true = .ok p ∧ p.Pair 1 3 ∧
      Program.ofSource (expanded (p.loopSource 1 3)) true =
        .ok (.ofList [.of .jumpIfZero 2, .of .zero 0, .of .jumpIfNonzero 0]) := by
  intro p
  have hprogram : Program.ofSource "+[[-]]" true = .ok p := rfl
  have hpair : p.Pair 1 3 := ⟨by decide, rfl, rfl⟩
  exact ⟨hprogram, hpair, (loopSource_tells_loops_apart hprogram).2.1 1 3 hpair⟩

end Machine

end TapeLang
