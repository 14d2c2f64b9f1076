import TapeLang.Offset
import TapeLang.Text.Decimal

/-!
# Loop profiles

A profile counts how often each loop was passed by. A loop is known by its written body, so equal
loops at different places share one count.

The counts are kept in the order in which the bodies were first recorded. A ranking puts the highest
count first; bodies with equal counts stay in that order, because the sort is stable.
-/

namespace TapeLang

/-- The bodies recorded so far, in the order of their first record, each with its count. -/
structure Profile where
  counts : List (String × Nat) := []
  deriving DecidableEq, Repr

namespace Profile

/-- Counts one more record of a body; a body that is not in the list yet goes to its end. -/
def bump (body : String) : List (String × Nat) → List (String × Nat)
  | [] => [(body, 1)]
  | entry :: rest =>
    if entry.1 = body then (body, entry.2 + 1) :: rest else entry :: bump body rest

/-- Records a body. -/
def record (p : Profile) (body : String) : Profile :=
  ⟨bump body p.counts⟩

/-- Records the bodies of a list in order. -/
def recordAll (p : Profile) (bodies : List String) : Profile :=
  bodies.foldl record p

/-- All bodies with their counts, the highest count first. -/
def ranking (p : Profile) : List (String × Nat) :=
  p.counts.mergeSort fun first second => second.2 ≤ first.2

/-- The front of the ranking, up to an offset; without one, the whole ranking. -/
def mostCommon (p : Profile) (limit : Option Int) : List (String × Nat) :=
  match limit with
  | none => p.ranking
  | some offset => p.ranking.take (Offset.bound p.ranking.length offset)

/-- A report shows this many bodies, unless another limit is asked for. -/
def reportLimit : Int := 12

/-- The line of a body in a report. -/
def reportLine (entry : String × Nat) : String :=
  entry.1 ++ ", " ++ Decimal.text entry.2

/-- One line for each body at the front of the ranking. -/
def report (p : Profile) (limit : Option Int) : List String :=
  (p.mostCommon limit).map reportLine

@[simp] theorem recordAll_nil (p : Profile) : p.recordAll [] = p := rfl

@[simp] theorem recordAll_append (p : Profile) (first second : List String) :
    p.recordAll (first ++ second) = (p.recordAll first).recordAll second := by
  simp [recordAll]

/-- A ranking has the same entries as the counts. -/
theorem ranking_perm (p : Profile) : p.ranking.Perm p.counts :=
  List.mergeSort_perm _ _

end Profile

end TapeLang
