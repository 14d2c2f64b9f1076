import TapeLang.Proofs.Program.Piece

/-!
# Jumps in pairs

In a compiled program jumps come in pairs that lead to each other, one pair for each loop
(`Program.Pair`).  A jump whose loop is still open leads nowhere yet.

`Program.JumpsBetween p low high opened` says that this is so between two places of a program, apart
from the jumps of open loops, whose places are `opened`, innermost first.  It also says that the
pairs are nested, and that no open loop begins within a pair.  The lemmas are the ways in which such
a stretch of a program is put together: two stretches follow each other (`JumpsBetween.append`), a
pair encloses one without open loops (`JumpsBetween.enclose`), and a single instruction is one.
-/

namespace TapeLang

/-- An instruction that is not a jump. -/
def Instruction.Plain (i : Instruction) : Prop :=
  i.opcode ≠ .known .jumpIfZero ∧ i.opcode ≠ .known .jumpIfNonzero

namespace Program

/-- Two jumps that lead to each other. -/
structure Pair (p : Program) (i j : Nat) : Prop where
  lt : i < j
  forth : p.toList[i]? = some (.of .jumpIfZero j)
  back : p.toList[j]? = some (.of .jumpIfNonzero i)

/-- The jumps between two places are pairs that lead to each other and are nested, but for those of
the open loops. -/
structure JumpsBetween (p : Program) (low high : Nat) (opened : List Nat) : Prop where
  le : low ≤ high
  decreasing : opened.Pairwise (· > ·)
  start : ∀ start, start ∈ opened →
    low ≤ start ∧ start < high ∧ p.toList[start]? = some (.of .jumpIfZero 0)
  forth : ∀ i arg, low ≤ i → i < high → p.toList[i]? = some (.of .jumpIfZero arg) → i ∉ opened →
    ∃ j : Nat, arg = j ∧ j < high ∧ p.Pair i j
  back : ∀ j arg, low ≤ j → j < high → p.toList[j]? = some (.of .jumpIfNonzero arg) →
    ∃ i : Nat, arg = i ∧ low ≤ i ∧ p.Pair i j
  nested : ∀ i j k l, low ≤ i → j < high → p.Pair i j → p.Pair k l → i < k → k < j → l < j
  apart : ∀ i j start, low ≤ i → j < high → p.Pair i j → start ∈ opened → ¬ (i < start ∧ start < j)

variable {p : Program} {low middle high i j : Nat}

theorem arg_unique {op : Operation} {first second : Int}
    (hfirst : p.toList[i]? = some (.of op first)) (hsecond : p.toList[i]? = some (.of op second)) :
    first = second := by
  have hsame := hfirst.symm.trans hsecond
  simpa only [Option.some.injEq, Instruction.mk.injEq, true_and] using hsame

theorem Pair.right_unique {k : Nat} (hfirst : p.Pair i j) (hsecond : p.Pair i k) : j = k := by
  have hsame := arg_unique hfirst.forth hsecond.forth
  omega

namespace JumpsBetween

/-- A pair that begins in a stretch ends in it. -/
theorem lt_of_pair {opened : List Nat} (h : p.JumpsBetween low high opened) (hpair : p.Pair i j)
    (hlow : low ≤ i) (hhigh : i < high) : j < high := by
  have hclosed : i ∉ opened := by
    intro hopen
    have hzero := arg_unique (h.start i hopen).2.2 hpair.forth
    have hlt := hpair.lt
    omega
  obtain ⟨k, harg, hk, -⟩ := h.forth i j hlow hhigh hpair.forth hclosed
  omega

theorem empty (p : Program) (place : Nat) : p.JumpsBetween place place [] where
  le := Nat.le_refl place
  decreasing := .nil
  start := by simp
  forth := by intro i arg hlow hhigh; omega
  back := by intro j arg hlow hhigh; omega
  nested := by intro i j k l hlow hhigh hpair; have hlt := hpair.lt; omega
  apart := by simp

theorem append {outer inner : List Nat} (hfirst : p.JumpsBetween low middle outer)
    (hsecond : p.JumpsBetween middle high inner) : p.JumpsBetween low high (inner ++ outer) := by
  have hfirstLe := hfirst.le
  have hsecondLe := hsecond.le
  refine ⟨by omega, ?_, ?_, ?_, ?_, ?_, ?_⟩
  · rw [List.pairwise_append]
    refine ⟨hsecond.decreasing, hfirst.decreasing, fun late hlate early hearly => ?_⟩
    have hlateLow := (hsecond.start late hlate).1
    have hearlyHigh := (hfirst.start early hearly).2.1
    omega
  · intro start hopen
    rcases List.mem_append.mp hopen with hopen | hopen
    · obtain ⟨hlow, hhigh, hget⟩ := hsecond.start start hopen
      exact ⟨by omega, hhigh, hget⟩
    · obtain ⟨hlow, hhigh, hget⟩ := hfirst.start start hopen
      exact ⟨hlow, by omega, hget⟩
  · intro i arg hlow hhigh hget hclosed
    rw [List.mem_append, not_or] at hclosed
    by_cases hi : i < middle
    · obtain ⟨j, harg, hj, hpair⟩ := hfirst.forth i arg hlow hi hget hclosed.2
      exact ⟨j, harg, by omega, hpair⟩
    · exact hsecond.forth i arg (by omega) hhigh hget hclosed.1
  · intro j arg hlow hhigh hget
    by_cases hj : j < middle
    · exact hfirst.back j arg hlow hj hget
    · obtain ⟨i, harg, hi, hpair⟩ := hsecond.back j arg (by omega) hhigh hget
      exact ⟨i, harg, by omega, hpair⟩
  -- No pair reaches across the middle, so each pair is one of the first stretch or of the second.
  · intro i j k l hlow hhigh houter hinner hk hkj
    by_cases hi : i < middle
    · exact hfirst.nested i j k l hlow (hfirst.lt_of_pair houter hlow hi) houter hinner hk hkj
    · exact hsecond.nested i j k l (by omega) hhigh houter hinner hk hkj
  · intro i j start hlow hhigh hpair hopen hwithin
    by_cases hi : i < middle
    · have hj := hfirst.lt_of_pair hpair hlow hi
      rcases List.mem_append.mp hopen with hopen | hopen
      · have hlate := (hsecond.start start hopen).1
        omega
      · exact hfirst.apart i j start hlow hj hpair hopen hwithin
    · rcases List.mem_append.mp hopen with hopen | hopen
      · exact hsecond.apart i j start (by omega) hhigh hpair hopen hwithin
      · have hearly := (hfirst.start start hopen).2.1
        omega

theorem enclose (h : p.JumpsBetween (i + 1) j []) (hpair : p.Pair i j) :
    p.JumpsBetween i (j + 1) [] := by
  have hlt := hpair.lt
  refine ⟨by omega, .nil, by simp, ?_, ?_, ?_, by simp⟩
  · intro k arg hlow hhigh hget hclosed
    by_cases hfirst : k = i
    · subst hfirst
      exact ⟨j, arg_unique hget hpair.forth, by omega, hpair⟩
    · by_cases hlast : k = j
      · subst hlast
        cases hget.symm.trans hpair.back
      · obtain ⟨l, harg, hl, hinner⟩ := h.forth k arg (by omega) (by omega) hget hclosed
        exact ⟨l, harg, by omega, hinner⟩
  · intro k arg hlow hhigh hget
    by_cases hlast : k = j
    · subst hlast
      exact ⟨i, arg_unique hget hpair.back, by omega, hpair⟩
    · by_cases hfirst : k = i
      · subst hfirst
        cases hget.symm.trans hpair.forth
      · obtain ⟨l, harg, hl, hinner⟩ := h.back k arg (by omega) (by omega) hget
        exact ⟨l, harg, by omega, hinner⟩
  -- The outer pair is the new one, or it lies within the body, and then so does the inner one.
  · intro k l k' l' hlow hhigh houter hinner hk hk'
    by_cases hfirst : k = i
    · subst hfirst
      obtain rfl := hpair.right_unique houter
      exact h.lt_of_pair hinner (by omega) hk'
    · have hlast : l ≠ j := by
        rintro rfl
        have hsame := arg_unique houter.back hpair.back
        omega
      exact h.nested k l k' l' (by omega) (by omega) houter hinner hk hk'

theorem of_plain {instruction : Instruction} (hget : p.toList[i]? = some instruction)
    (hplain : instruction.Plain) : p.JumpsBetween i (i + 1) [] := by
  refine ⟨Nat.le_succ i, .nil, by simp, ?_, ?_, ?_, by simp⟩
  · intro k arg hlow hhigh hjump
    obtain rfl : k = i := by omega
    rw [hget, Option.some.injEq] at hjump
    exact absurd (congrArg Instruction.opcode hjump) hplain.1
  · intro k arg hlow hhigh hjump
    obtain rfl : k = i := by omega
    rw [hget, Option.some.injEq] at hjump
    exact absurd (congrArg Instruction.opcode hjump) hplain.2
  · intro k l k' l' hlow hhigh houter
    have hlt := houter.lt
    omega

/-- The jump of an open loop. -/
theorem of_start (hget : p.toList[i]? = some (.of .jumpIfZero 0)) :
    p.JumpsBetween i (i + 1) [i] := by
  refine ⟨Nat.le_succ i, List.pairwise_singleton _ _, ?_, ?_, ?_, ?_, ?_⟩
  · intro start hopen
    obtain rfl := List.mem_singleton.mp hopen
    exact ⟨Nat.le_refl _, Nat.lt_succ_self _, hget⟩
  · intro k arg hlow hhigh hjump hclosed
    obtain rfl : k = i := by omega
    exact absurd (List.mem_singleton.mpr rfl) hclosed
  · intro k arg hlow hhigh hjump
    obtain rfl : k = i := by omega
    rw [hget] at hjump
    cases hjump
  · intro k l k' l' hlow hhigh houter
    have hlt := houter.lt
    omega
  · intro k l start hlow hhigh hpair
    have hlt := hpair.lt
    omega

theorem of_row {place : Nat} {row : List Instruction} (hrow : p.HasAt place row)
    (hplain : ∀ instruction, instruction ∈ row → instruction.Plain) :
    p.JumpsBetween place (place + row.length) [] := by
  induction row generalizing place with
  | nil => exact empty p place
  | cons instruction rest ih =>
      rw [hasAt_cons] at hrow
      have hhead := of_plain hrow.1 (hplain instruction List.mem_cons_self)
      have htail := ih hrow.2 fun other hother => hplain other (List.mem_cons_of_mem _ hother)
      rw [List.length_cons, Nat.add_comm rest.length, ← Nat.add_assoc]
      exact hhead.append htail

end JumpsBetween

end Program

end TapeLang
