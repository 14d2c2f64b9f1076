import TapeLang.Proofs.Compilation.Compiled
import TapeLang.Proofs.Compilation.Keys
import TapeLang.Proofs.Profile
import TapeLang.Proofs.Refinement.Optimization

/-!
# Optimization and profiles

The profiles of an optimized run and of the other one have different keys.  They are compared by the
commands that the keys stand for: all keys with the same commands count together
(`Profile.bareCount`).

A loop that both programs have is passed by in both runs at the same time, and its keys stand for
the same commands.  A loop that is replaced by an operation is only counted without optimization,
and its commands are an idiom.  So the counts of all other commands are the same
(`optimization_preserves_profiles`).
-/

namespace TapeLang

namespace Profile

/-- The sum of the counts of all keys that stand for some commands. -/
def bareCount (p : Profile) (commands : List Char) : Nat :=
  p.total fun key => bare key.toList = commands

/-- The profiles differ in the counts of idioms only. -/
def SameButIdioms (p q : Profile) : Prop :=
  ∀ commands, ¬ Idiom commands → p.bareCount commands = q.bareCount commands

variable {p q : Profile} {key other : String}

theorem bareCount_record (p : Profile) (key : String) (commands : List Char) :
    (p.record key).bareCount commands =
      p.bareCount commands + if bare key.toList = commands then 1 else 0 := by
  rw [bareCount, total_record, ← bareCount]
  simp only [decide_eq_true_eq]

theorem SameButIdioms.record_both (hsame : p.SameButIdioms q)
    (hbare : bare other.toList = bare key.toList) :
    (p.record key).SameButIdioms (q.record other) := by
  intro commands hordinary
  rw [bareCount_record, bareCount_record, hbare, hsame commands hordinary]

theorem SameButIdioms.record_second (hsame : p.SameButIdioms q)
    (hidiom : Idiom (bare key.toList)) : p.SameButIdioms (q.record key) := by
  intro commands hordinary
  have hother : bare key.toList ≠ commands := fun hbare => hordinary (hbare ▸ hidiom)
  rw [bareCount_record, if_neg hother, Nat.add_zero, hsame commands hordinary]

end Profile

namespace Machine

variable {m n : Machine}

theorem counts_of_block {block : Block} (hfast : m.program.toList = block.code true 0)
    (hslow : n.program.toList = block.code false 0) (hcompiled : m.program.Compiled)
    (hprofiled : m.profiled = true) (hotherProfiled : n.profiled = true) :
    m.Counts n Profile.SameButIdioms where
  both := by
    intro i j s t hget hpc hotherPc hsame
    obtain ⟨k, htarget, -, hpair⟩ := hcompiled.jumps.forth i j (Nat.zero_le i)
      (Program.lt_size_of_getElem? hget) hget List.not_mem_nil
    obtain rfl : j = k := Int.ofNat_inj.mp htarget
    rw [profile_countLoop, profile_countLoop, if_pos hprofiled, if_pos hotherProfiled, hpc,
      hotherPc]
    exact hsame.record_both (bare_loopSource_eq hfast hslow (Nat.le_of_lt hpair.lt) hpair.back rfl)
  second := by
    intro place arg body op p t hfuses hloop hpc hsame
    rw [profile_countLoop, if_pos hotherProfiled, hpc]
    apply hsame.record_second
    rw [bare_loopSource fun _ hmem => block.normal_of_mem_code _ (hslow ▸ hmem)]
    have hlength : m.program.offset place + (loopRow (m.program.offset place) body).length =
        m.program.offset place + body.length + 1 + 1 := by
      simp [loopRow]
      omega
    rw [hloop.span_eq hlength, commands_loopRow]
    exact hfuses.idiom

/-- Whether a text is compiled with optimization or without makes no difference to how often a loop
is passed by, unless it is an idiom.  Loops are told by their commands, so the counts of all keys
that stand for the same commands go together.  The runs may complete or end in a fault. -/
theorem optimization_preserves_profiles {text : String} {fast : Program}
    (hfast : Program.ofSource text true = .ok fast) :
    ∃ slow, Program.ofSource text false = .ok slow ∧
      ∀ (m n : Machine) (length : TapeLength) (input : List UInt8), m.program = fast →
        n.program = slow → m.memory = .unbounded → n.memory = .unbounded →
        m.profiled = true → n.profiled = true →
        ((∃ halt, m.Halts (.initial length input) halt) ↔
          ∃ halt, n.Halts (.initial length input) halt) ∧
        ∀ first second, m.Halts (.initial length input) first →
          n.Halts (.initial length input) second → ∀ commands, ¬ Idiom commands →
          first.state.profile.bareCount commands = second.state.profile.bareCount commands := by
  have hcompiled := Compilation.compiled_of_ofSource hfast
  obtain ⟨block, -, hcode⟩ :=
    Compilation.exists_block_of_balanced (Compilation.balanced_of_ofSource hfast)
  obtain ⟨slow, hslow, hslowCode⟩ := hcode false
  obtain ⟨program, hprogram, hfastCode⟩ := hcode true
  obtain rfl : program = fast := Except.ok.inj (hprogram.symm.trans hfast)
  refine ⟨slow, hslow, fun m n length input hm hn hmemory hotherMemory hprofiled hother => ?_⟩
  subst hm hn
  have hsimulation := simulation_of_counts
    (unrolls_of_block hmemory hotherMemory hfastCode hslowCode)
    (counts_of_block hfastCode hslowCode hcompiled hprofiled hother)
  have hstart : ∃ place, m.Tracks n place (.initial length input) (.initial length input) ∧
      Profile.SameButIdioms {} {} := ⟨0, tracks_initial m n length input, fun _ _ => rfl⟩
  constructor
  · simp only [← system_halts_iff]
    exact hsimulation.halts_iff hstart
  · intro first second hfirst hsecond
    exact (hsimulation.alike_of_halts hstart (system_halts_iff.mpr hfirst)
      (system_halts_iff.mpr hsecond)).2

theorem optimization_preserves_profile_of_nested_loop :
    ∃ slow, Program.ofSource "[[-]]" false = .ok slow ∧ ∃ first second,
      ({ program := .ofList [.of .jumpIfZero 2, .of .zero 0, .of .jumpIfNonzero 0]
         profiled := true } : Machine).Halts (.initial ⟨1, Nat.one_pos⟩ []) first ∧
      ({ program := slow, profiled := true } : Machine).Halts (.initial ⟨1, Nat.one_pos⟩ [])
        second ∧
      first.state.profile.bareCount "[[-]]".toList = 1 ∧
      second.state.profile.bareCount "[[-]]".toList = 1 := by
  obtain ⟨slow, hslow, hruns⟩ := optimization_preserves_profiles
    (show Program.ofSource "[[-]]" true =
      .ok (.ofList [.of .jumpIfZero 2, .of .zero 0, .of .jumpIfNonzero 0]) from rfl)
  obtain ⟨hiff, hsame⟩ := hruns { program := _, profiled := true }
    { program := slow, profiled := true } ⟨1, Nat.one_pos⟩ [] rfl rfl rfl rfl rfl rfl
  have hfirst : ({ program := .ofList [.of .jumpIfZero 2, .of .zero 0, .of .jumpIfNonzero 0]
                   profiled := true } : Machine).Halts (.initial ⟨1, Nat.one_pos⟩ []) _ := ⟨2, rfl⟩
  obtain ⟨second, hsecond⟩ := hiff.mp ⟨_, hfirst⟩
  have hordinary : ¬ Idiom "[[-]]".toList := fun hidiom => hidiom.not_nested rfl
  have hcount : ({ counts := [("[[-]]", 1)] } : Profile).bareCount "[[-]]".toList = 1 := by
    decide +kernel
  have hboth := hsame _ second hfirst hsecond _ hordinary
  exact ⟨slow, hslow, _, second, hfirst, hsecond, hcount, hboth.symm.trans hcount⟩

end Machine

end TapeLang
