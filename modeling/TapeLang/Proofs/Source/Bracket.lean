import TapeLang.Operation
import TapeLang.Proofs.Position

/-!
# Brackets in a text

`depth?` counts the brackets that are open: an opening bracket adds one, a closing bracket takes one
away, and there is no answer where a bracket closes that nothing has opened.  A text is `Balanced`
if every bracket in it closes and none closes too early.

`Partners text i j` says that the brackets at `i` and `j` belong together: the text between them is
balanced.  A closing bracket without a partner is `Stray`, an opening bracket without one is
`Unclosed`.

The two lemmas at the end tell from the depth alone that a bracket has no partner.  A closing
bracket is stray if nothing is open in front of it (`stray_of_balanced`), and an opening bracket is
unclosed if nothing behind it ever closes too early (`unclosed_of_depth?`).
-/

namespace TapeLang

/-- The eight characters that a compiler does not take for comments. -/
def isCommand (c : Char) : Bool :=
  (Primitive.ofSymbol? c).isSome || c == '[' || c == ']'

/-- The number of brackets that are open after a text, if some are open before it. -/
def depth? : Nat → List Char → Option Nat
  | opened, [] => some opened
  | opened, c :: rest =>
    if c = '[' then depth? (opened + 1) rest
    else if c = ']' then
      match opened with
      | 0 => none
      | outer + 1 => depth? outer rest
    else depth? opened rest

/-- No bracket closes that is not open, and none stays open. -/
def Balanced (text : List Char) : Prop :=
  depth? 0 text = some 0

instance (text : List Char) : Decidable (Balanced text) :=
  inferInstanceAs (Decidable (_ = _))

/-- The brackets at two positions belong together. -/
def Partners (text : List Char) (i j : Nat) : Prop :=
  ∃ front inner back, text = front ++ '[' :: (inner ++ ']' :: back) ∧ Balanced inner ∧
    front.length = i ∧ front.length + 1 + inner.length = j

/-- There is a closing bracket without a partner at a position. -/
def Stray (text : List Char) (j : Nat) : Prop :=
  text[j]? = some ']' ∧ ∀ i, ¬ Partners text i j

/-- There is an opening bracket without a partner at a position. -/
def Unclosed (text : List Char) (i : Nat) : Prop :=
  text[i]? = some '[' ∧ ∀ j, ¬ Partners text i j

/-! ## Commands -/

theorem symbol_ne_brackets (p : Primitive) : p.symbol ≠ '[' ∧ p.symbol ≠ ']' := by
  cases p with
  | move d => cases d <;> decide
  | _ => decide

@[simp] theorem isCommand_symbol (p : Primitive) : isCommand p.symbol = true := by
  simp [isCommand]

theorem isCommand_eq_false_iff {c : Char} :
    isCommand c = false ↔ Primitive.ofSymbol? c = none ∧ c ≠ '[' ∧ c ≠ ']' := by
  simp [isCommand, and_assoc]

theorem command_cases (c : Char) :
    isCommand c = false ∨ (∃ p : Primitive, c = p.symbol) ∨ c = '[' ∨ c = ']' := by
  rw [isCommand_eq_false_iff]
  cases hsymbol : Primitive.ofSymbol? c with
  | some p => exact .inr (.inl ⟨p, Primitive.ofSymbol?_eq_some_iff.mp hsymbol⟩)
  | none =>
      by_cases hopening : c = '['
      · exact .inr (.inr (.inl hopening))
      · by_cases hclosing : c = ']'
        · exact .inr (.inr (.inr hclosing))
        · exact .inl ⟨rfl, hopening, hclosing⟩

/-! ## Depth -/

@[simp] theorem depth?_opening (opened : Nat) (rest : List Char) :
    depth? opened ('[' :: rest) = depth? (opened + 1) rest := by
  simp [depth?]

@[simp] theorem depth?_closing_succ (opened : Nat) (rest : List Char) :
    depth? (opened + 1) (']' :: rest) = depth? opened rest := by
  simp [depth?]

@[simp] theorem depth?_closing_zero (rest : List Char) : depth? 0 (']' :: rest) = none := by
  simp [depth?]

theorem depth?_other {c : Char} (hopening : c ≠ '[') (hclosing : c ≠ ']') (opened : Nat)
    (rest : List Char) : depth? opened (c :: rest) = depth? opened rest := by
  simp [depth?, hopening, hclosing]

theorem depth?_append (opened : Nat) (first second : List Char) :
    depth? opened (first ++ second) = (depth? opened first).bind (depth? · second) := by
  induction first generalizing opened with
  | nil => rfl
  | cons c rest ih =>
      rw [List.cons_append]
      by_cases hopening : c = '['
      · rw [hopening, depth?_opening, depth?_opening, ih]
      · by_cases hclosing : c = ']'
        · cases opened with
          | zero => rw [hclosing, depth?_closing_zero, depth?_closing_zero, Option.bind_none]
          | succ outer => rw [hclosing, depth?_closing_succ, depth?_closing_succ, ih]
        · rw [depth?_other hopening hclosing, depth?_other hopening hclosing, ih]

/-- More open brackets in front of a text are still open after it. -/
theorem depth?_add {opened closed : Nat} {text : List Char}
    (hdepth : depth? opened text = some closed) (outer : Nat) :
    depth? (opened + outer) text = some (closed + outer) := by
  induction text generalizing opened with
  | nil =>
      cases hdepth
      rfl
  | cons c rest ih =>
      by_cases hopening : c = '['
      · rw [hopening, depth?_opening] at hdepth ⊢
        rw [Nat.add_right_comm]
        exact ih hdepth
      · by_cases hclosing : c = ']'
        · cases opened with
          | zero =>
              rw [hclosing, depth?_closing_zero] at hdepth
              cases hdepth
          | succ inner =>
              rw [hclosing, Nat.add_right_comm, depth?_closing_succ] at *
              exact ih hdepth
        · rw [depth?_other hopening hclosing] at hdepth ⊢
          exact ih hdepth

theorem Balanced.depth?_eq {text : List Char} (hbalanced : Balanced text) (opened : Nat) :
    depth? opened text = some opened := by
  have hdepth := depth?_add hbalanced opened
  rwa [Nat.zero_add] at hdepth

theorem Balanced.depth?_append {text : List Char} (hbalanced : Balanced text) (opened : Nat)
    (rest : List Char) : depth? opened (text ++ rest) = depth? opened rest := by
  rw [TapeLang.depth?_append, hbalanced.depth?_eq, Option.bind_some]

/-! ## Brackets without partners -/

theorem Partners.opening {text : List Char} {i j : Nat} (hpartners : Partners text i j) :
    text[i]? = some '[' := by
  obtain ⟨front, inner, back, htext, -, rfl, -⟩ := hpartners
  exact getElem?_of_eq_append htext

theorem Partners.closing {text : List Char} {i j : Nat} (hpartners : Partners text i j) :
    text[j]? = some ']' := by
  obtain ⟨front, inner, back, rfl, -, -, rfl⟩ := hpartners
  have hget := getElem?_of_eq_append
    (show front ++ '[' :: (inner ++ ']' :: back) = (front ++ ['['] ++ inner) ++ ']' :: back by simp)
  rwa [List.length_append, List.length_append, List.length_singleton] at hget

theorem stray_of_balanced {front : List Char} (hbalanced : Balanced front) (back : List Char) :
    Stray (front ++ ']' :: back) front.length := by
  refine ⟨getElem?_of_eq_append rfl, ?_⟩
  rintro i ⟨outer, inner, rest, htext, hinner, -, hlength⟩
  -- With a partner in front of it, the bracket would be open there.
  have hfront : front = outer ++ '[' :: inner := by
    rw [← List.cons_append, ← List.append_assoc] at htext
    refine (List.append_inj htext ?_).1
    rw [List.length_append, List.length_cons, ← hlength]
    omega
  rw [Balanced, hfront, depth?_append] at hbalanced
  cases houter : depth? 0 outer with
  | none => simp [houter] at hbalanced
  | some opened =>
      rw [houter, Option.bind_some, depth?_opening, hinner.depth?_eq] at hbalanced
      cases hbalanced

theorem unclosed_of_depth? {front back : List Char} {opened : Nat}
    (hback : depth? 0 back = some opened) : Unclosed (front ++ '[' :: back) front.length := by
  refine ⟨getElem?_of_eq_append rfl, ?_⟩
  rintro j ⟨outer, inner, rest, htext, hinner, hlength, -⟩
  -- The partner would close too early behind the bracket.
  have hinside := (List.append_inj htext hlength.symm).2
  rw [List.cons.injEq] at hinside
  rw [hinside.2, hinner.depth?_append, depth?_closing_zero] at hback
  cases hback

end TapeLang
