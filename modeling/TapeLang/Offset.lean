/-!
# Offsets that may count from the end

An offset into a sequence is an integer. From zero on it counts from the front; a negative offset
counts from the end, so -1 is the last place.

* `Offset.element?` names an element. It refuses an offset outside `-size ≤ offset < size`.
* `Offset.bound` names a bound between two elements, for cutting a piece out. It never refuses: what
  lies outside is moved to the nearer end.
-/

namespace TapeLang.Offset

/-- The place of the element at an offset, if the sequence reaches that far. -/
def element? (size : Nat) (offset : Int) : Option Nat :=
  let fromFront := if offset < 0 then offset + size else offset
  if 0 ≤ fromFront ∧ fromFront < size then some fromFront.toNat else none

/-- The number of elements in front of the bound at an offset. -/
def bound (size : Nat) (offset : Int) : Nat :=
  let fromFront := if offset < 0 then offset + size else offset
  min fromFront.toNat size

theorem element?_eq_some_iff {size : Nat} {offset : Int} {place : Nat} :
    element? size offset = some place ↔
      place < size ∧ (offset = place ∨ offset = (place : Int) - size) := by
  unfold element?
  simp only [Option.ite_none_right_eq_some, Option.some.injEq]
  split <;> omega

theorem element?_eq_none_iff {size : Nat} {offset : Int} :
    element? size offset = none ↔ offset < -size ∨ (size : Int) ≤ offset := by
  unfold element?
  simp only [ite_eq_right_iff, reduceCtorEq, imp_false]
  split <;> omega

/-- An offset from the front that lies inside names its own place. -/
@[simp] theorem element?_natCast {size place : Nat} (hlt : place < size) :
    element? size (place : Int) = some place :=
  element?_eq_some_iff.mpr ⟨hlt, .inl rfl⟩

@[simp] theorem bound_natCast (size place : Nat) : bound size (place : Int) = min place size := by
  simp [bound, show ¬ (place : Int) < 0 by omega]

end TapeLang.Offset
