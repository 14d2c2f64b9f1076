import TapeLang.Proofs.Source.Bracket

/-!
# Finding the partner of a bracket

A bracket has at most one partner (`Partners.right_unique`, `Partners.left_unique`).  `closing?` and
`opening?` find it by trying all positions of the text.
-/

namespace TapeLang

variable {text : List Char} {i j k : Nat}

theorem partners_iff :
    Partners text i j ↔ i < j ∧ text[i]? = some '[' ∧ text[j]? = some ']' ∧
      Balanced ((text.take j).drop (i + 1)) := by
  constructor
  · intro hpartners
    refine ⟨?_, hpartners.opening, hpartners.closing, ?_⟩
    · obtain ⟨front, inner, back, -, -, rfl, rfl⟩ := hpartners
      omega
    · obtain ⟨front, inner, back, rfl, hinner, rfl, rfl⟩ := hpartners
      have hcut : front ++ '[' :: (inner ++ ']' :: back) =
          (front ++ ['['] ++ inner) ++ ']' :: back := by simp
      have hlength : front.length + 1 + inner.length = (front ++ ['['] ++ inner).length := by
        rw [List.length_append, List.length_append, List.length_singleton]
      have hopened : front.length + 1 = (front ++ ['[']).length := by simp
      rw [hcut, hlength, List.take_left, hopened, List.drop_left]
      exact hinner
  · rintro ⟨hlt, hopening, hclosing, hbalanced⟩
    obtain ⟨hj, hclosing⟩ := List.getElem?_eq_some_iff.mp hclosing
    obtain ⟨hi, hopening⟩ := List.getElem?_eq_some_iff.mp hopening
    have hfront : text.take j =
        text.take i ++ '[' :: (text.take j).drop (i + 1) := by
      have hsplit := (List.take_append_drop i (text.take j)).symm
      rw [List.take_take, Nat.min_eq_left (by omega),
        List.drop_eq_getElem_cons (by rw [List.length_take]; omega), List.getElem_take,
        hopening] at hsplit
      exact hsplit
    have htext : text = text.take j ++ ']' :: text.drop (j + 1) := by
      rw [← hclosing, ← List.drop_eq_getElem_cons hj, List.take_append_drop]
    refine ⟨text.take i, (text.take j).drop (i + 1), text.drop (j + 1), ?_, hbalanced, ?_, ?_⟩
    · rw [← List.cons_append, ← List.append_assoc, ← hfront, ← htext]
    · rw [List.length_take]
      omega
    · rw [List.length_take, List.length_drop, List.length_take]
      omega

instance (text : List Char) (i j : Nat) : Decidable (Partners text i j) :=
  decidable_of_iff _ partners_iff.symm

/-- A text that closes too early does not do so in a balanced part of it. -/
private theorem length_le_of_balanced {first second back rest : List Char}
    (hfirst : Balanced first) (hsecond : Balanced second)
    (htext : first ++ ']' :: back = second ++ ']' :: rest) : second.length ≤ first.length := by
  by_cases hless : first.length < second.length
  -- The bracket behind the first text would close too early in the second one.
  · obtain ⟨more, hmore⟩ : ∃ more, second = first ++ ']' :: more := by
      rcases List.append_eq_append_iff.mp htext with ⟨more, hsecondEq, hback⟩ | ⟨more, hfirstEq, -⟩
      · cases more with
        | nil =>
            rw [List.append_nil] at hsecondEq
            rw [hsecondEq] at hless
            omega
        | cons head tail =>
            rw [List.cons_append, List.cons.injEq] at hback
            exact ⟨tail, by rw [hsecondEq, ← hback.1]⟩
      · rw [hfirstEq, List.length_append] at hless
        omega
    rw [hmore, Balanced, hfirst.depth?_append, depth?_closing_zero] at hsecond
    cases hsecond
  · omega

theorem Partners.right_unique (hfirst : Partners text i j) (hsecond : Partners text i k) :
    j = k := by
  obtain ⟨front, inner, back, rfl, hinner, rfl, rfl⟩ := hfirst
  obtain ⟨front', inner', back', htext, hinner', hlength, rfl⟩ := hsecond
  obtain ⟨rfl, hrest⟩ := List.append_inj htext hlength.symm
  rw [List.cons.injEq] at hrest
  have hle := length_le_of_balanced hinner hinner' hrest.2
  have hge := length_le_of_balanced hinner' hinner hrest.2.symm
  omega

/-- Between an opening bracket and the partner of an earlier one, it closes again. -/
private theorem not_lt_of_partners (hfirst : Partners text i j) (hsecond : Partners text k j) :
    ¬ i < k := by
  intro hlt
  obtain ⟨front, inner, back, rfl, hinner, rfl, rfl⟩ := hfirst
  obtain ⟨front', inner', back', htext, hinner', hlength, hend⟩ := hsecond
  have hcut : front ++ '[' :: inner = front' ++ '[' :: inner' := by
    have htext' : (front ++ '[' :: inner) ++ ']' :: back =
        (front' ++ '[' :: inner') ++ ']' :: back' := by simpa using htext
    refine (List.append_inj htext' ?_).1
    simp only [List.length_append, List.length_cons]
    omega
  obtain ⟨more, hmore⟩ : ∃ more, inner = more ++ '[' :: inner' := by
    rcases List.append_eq_append_iff.mp hcut with ⟨more, hfront, hinside⟩ | ⟨more, hfront, -⟩
    · cases more with
      | nil =>
          rw [List.append_nil] at hfront
          rw [hfront] at hlength
          omega
      | cons head tail =>
          rw [List.cons_append, List.cons.injEq] at hinside
          exact ⟨tail, hinside.2⟩
    · rw [hfront, List.length_append] at hlt
      omega
  -- The later bracket stays open up to the end of the earlier pair.
  rw [hmore, Balanced, depth?_append] at hinner
  cases hdepth : depth? 0 more with
  | none => simp [hdepth] at hinner
  | some opened =>
      rw [hdepth, Option.bind_some, depth?_opening, hinner'.depth?_eq] at hinner
      cases hinner

theorem Partners.left_unique (hfirst : Partners text i j) (hsecond : Partners text k j) :
    i = k := by
  have hle := not_lt_of_partners hfirst hsecond
  have hge := not_lt_of_partners hsecond hfirst
  omega

/-- The position of the closing bracket that belongs to the opening bracket at a position. -/
def closing? (text : List Char) (i : Nat) : Option Nat :=
  (List.range text.length).find? fun j => decide (Partners text i j)

/-- The position of the opening bracket that belongs to the closing bracket at a position. -/
def opening? (text : List Char) (j : Nat) : Option Nat :=
  (List.range text.length).find? fun i => decide (Partners text i j)

theorem find?_range_of_unique {holds : Nat → Prop} [DecidablePred holds] {length : Nat}
    (hlt : i < length) (hholds : holds i) (hunique : ∀ k, holds k → k = i) :
    (List.range length).find? (fun k => decide (holds k)) = some i := by
  cases hfound : (List.range length).find? (fun k => decide (holds k)) with
  | none =>
      have hnot := List.find?_eq_none.mp hfound i (List.mem_range.mpr hlt)
      exact absurd (decide_eq_true hholds) hnot
  | some k =>
      have hk := List.find?_some hfound
      rw [hunique k (of_decide_eq_true hk)]

theorem Partners.closing?_eq (hpartners : Partners text i j) : closing? text i = some j := by
  have hlt : j < text.length := (List.getElem?_eq_some_iff.mp hpartners.closing).1
  exact find?_range_of_unique hlt hpartners fun _ hother => hother.right_unique hpartners

theorem Partners.opening?_eq (hpartners : Partners text i j) : opening? text j = some i := by
  have hlt : i < text.length := (List.getElem?_eq_some_iff.mp hpartners.opening).1
  exact find?_range_of_unique hlt hpartners fun _ hother => hother.left_unique hpartners

end TapeLang
