import Mathlib.Algebra.GroupWithZero.Nat
import TapeLang.Profile

/-!
# What a profile counts

The count of a body is the number of its records (`Profile.count_recordAll`): the record of another
body does not change it.  Bodies may also be counted together, and then the record of any of them
counts (`Profile.total_record`).
-/

namespace TapeLang.Profile

/-- The count that stands with a body, and zero if the body is not in the list. -/
def countIn (body : String) : List (String × Nat) → Nat
  | [] => 0
  | entry :: rest => if entry.1 = body then entry.2 else countIn body rest

/-- The number of records of a body. -/
def count (p : Profile) (body : String) : Nat :=
  countIn body p.counts

theorem countIn_bump (body other : String) (entries : List (String × Nat)) :
    countIn other (bump body entries) =
      countIn other entries + if body = other then 1 else 0 := by
  induction entries with
  | nil => simp [bump, countIn]
  | cons entry rest ih =>
      rw [bump]
      split
      · rename_i hbody
        by_cases hsame : body = other
        · simp [countIn, hbody, hsame]
        · simp [countIn, hbody, hsame]
      · rename_i hbody
        rw [countIn, countIn]
        split
        · rename_i hother
          have hsame : body ≠ other := fun h => hbody (hother.trans h.symm)
          rw [if_neg hsame, Nat.add_zero]
        · exact ih

theorem count_record (p : Profile) (body other : String) :
    (p.record body).count other = p.count other + if body = other then 1 else 0 :=
  countIn_bump body other p.counts

theorem count_recordAll (p : Profile) (bodies : List String) (other : String) :
    (p.recordAll bodies).count other = p.count other + bodies.count other := by
  induction bodies generalizing p with
  | nil => rfl
  | cons body rest ih =>
      have hrest : (p.recordAll (body :: rest)).count other =
          (p.record body).count other + rest.count other := ih (p.record body)
      rw [hrest, count_record, List.count_cons, Nat.add_right_comm, Nat.add_assoc]
      simp

/-! ## Several bodies at once -/

/-- The sum of the counts of some bodies. -/
def totalIn (select : String → Bool) (entries : List (String × Nat)) : Nat :=
  ((entries.filter fun entry => select entry.1).map Prod.snd).sum

/-- The number of records of some bodies together. -/
def total (p : Profile) (select : String → Bool) : Nat :=
  totalIn select p.counts

theorem totalIn_cons (select : String → Bool) (entry : String × Nat) (rest : List (String × Nat)) :
    totalIn select (entry :: rest) =
      (if select entry.1 then entry.2 else 0) + totalIn select rest := by
  cases hselect : select entry.1 <;> simp [totalIn, hselect]

theorem totalIn_bump (select : String → Bool) (body : String) (entries : List (String × Nat)) :
    totalIn select (bump body entries) =
      totalIn select entries + if select body then 1 else 0 := by
  induction entries with
  | nil => rw [bump, totalIn_cons, Nat.add_comm]
  | cons entry rest ih =>
      rw [bump]
      split
      · rename_i hbody
        rw [totalIn_cons, totalIn_cons, hbody]
        cases select body with
        | true => simp [Nat.add_right_comm]
        | false => simp
      · rw [totalIn_cons, totalIn_cons, ih, Nat.add_assoc]

theorem total_record (p : Profile) (body : String) (select : String → Bool) :
    (p.record body).total select = p.total select + if select body then 1 else 0 :=
  totalIn_bump select body p.counts

end TapeLang.Profile
