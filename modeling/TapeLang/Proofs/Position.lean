/-!
# Positions in a list

`Between row holds low high` says that everything between two positions of a list has a property,
which may depend on the position.  Stretches that follow each other are put together with
`Between.trans`.
-/

namespace TapeLang

variable {α : Type}

/-- All elements of a list at positions from `low` up to `high` have a property. -/
def Between (row : List α) (holds : Nat → α → Prop) (low high : Nat) : Prop :=
  ∀ i x, low ≤ i → i < high → row[i]? = some x → holds i x

variable {row : List α} {holds : Nat → α → Prop} {low middle high : Nat}

theorem Between.trans (hfirst : Between row holds low middle)
    (hsecond : Between row holds middle high) : Between row holds low high := by
  intro i x hlow hhigh hget
  by_cases hmiddle : i < middle
  · exact hfirst i x hlow hmiddle hget
  · exact hsecond i x (by omega) hhigh hget

theorem between_of_single {i : Nat} {x : α} (hget : row[i]? = some x) (hholds : holds i x) :
    Between row holds i (i + 1) := by
  intro k y hlow hhigh hother
  obtain rfl : k = i := by omega
  rw [hget, Option.some.injEq] at hother
  rw [← hother]
  exact hholds

theorem between_empty (row : List α) (holds : Nat → α → Prop) (i : Nat) :
    Between row holds i i := by
  intro k x hlow hhigh
  omega

theorem getElem?_of_eq_append {front back : List α} {x : α} (hrow : row = front ++ x :: back) :
    row[front.length]? = some x := by
  rw [hrow, List.getElem?_append_right (Nat.le_refl _), Nat.sub_self, List.getElem?_cons_zero]

end TapeLang
