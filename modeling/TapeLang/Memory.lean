import TapeLang.Word

/-!
# Memory

A sequence of bytes takes room. `Memory.shortage?` says why there is no room for one of a given
size, if there is none: its size is no word, or the memory is too small.

A memory may be without a bound. Then there is room for everything, and what is said about the
machine with such a memory is said under the assumption that no room is ever missing.
-/

namespace TapeLang

/-- The room for sequences of bytes. -/
structure Memory where
  /-- The number of bytes that every sequence stays below, if there is a bound. -/
  bound? : Option Nat := none
  deriving DecidableEq, Repr

/-- Why there is no room for a sequence of bytes. -/
inductive Shortage where
  /-- Its size is no word. -/
  | size
  /-- The memory is too small. -/
  | memory
  deriving DecidableEq, Repr

namespace Memory

/-- Room for everything. -/
def unbounded : Memory := {}

/-- The room that a computer has: four gibibytes. -/
def standard : Memory := ⟨some (4 * Nat.pow 2 30)⟩

/-- Why there is no room for a number of bytes; a negative number asks for no room. -/
def shortage? (m : Memory) (count : Int) : Option Shortage :=
  m.bound?.bind fun bound =>
    if ¬ IsWord count then some .size
    else if (bound : Int) ≤ count then some .memory
    else none

@[simp] theorem shortage?_unbounded (count : Int) : unbounded.shortage? count = none := rfl

/-- There is room for a number of bytes below the bound. -/
theorem shortage?_eq_none {m : Memory} {count : Int} (hword : IsWord count)
    (hbound : ∀ bound ∈ m.bound?, count < (bound : Int)) : m.shortage? count = none := by
  unfold shortage?
  cases hlimit : m.bound? with
  | none => rfl
  | some bound =>
    have hless := hbound bound hlimit
    simp [hword, Int.not_le.mpr hless]

/-- Where there is room for some bytes, there is room for fewer. -/
theorem shortage?_of_le {m : Memory} {fewer count : Nat} (hroom : m.shortage? count = none)
    (hle : fewer ≤ count) : m.shortage? fewer = none := by
  cases hlimit : m.bound? with
  | none => simp [shortage?, hlimit]
  | some bound =>
      simp only [shortage?, hlimit, Option.bind_some] at hroom
      by_cases hword : IsWord count
      · rw [if_neg (not_not_intro hword), ite_eq_right_iff] at hroom
        have hless : ¬ (bound : Int) ≤ count := fun hle => nomatch hroom hle
        unfold IsWord at hword
        refine shortage?_eq_none ⟨by omega, by omega⟩ fun other hother => ?_
        obtain rfl : bound = other := Option.some.inj (hlimit.symm.trans hother)
        omega
      · rw [if_pos hword] at hroom
        cases hroom

end Memory

end TapeLang
