import Mathlib.Data.List.Induction
import Mathlib.Data.Nat.Digits.Defs
import TapeLang.Text.Decimal
import TapeLang.Text.Numeral

/-!
# The grammar of integers

`Numeral` says how an unsigned number is written, and which digits it has: digits of any scripts,
and at most one underscore between two of them.  `Spells` adds a sign and the blank characters at
both ends; which characters are blank is left open there.

The reader of integers reads exactly what is spelled with white space as the blank characters
(`readInteger?_eq_some_iff`).  A numeral neither begins nor ends with a blank character or a sign,
so the ends of a text tell where it begins and ends (`trim_append`).

The decimal text of a number is one of its spellings, unless it is too long (`spells_toDigits`).
`readDecimal?` reads such texts of any length, and only with a minus sign or none.
-/

namespace TapeLang.Text

/-! ## Digits -/

/-- A character is the digit of a value in some script. -/
def IsDigit (c : Char) (value : Nat) : Prop :=
  ∃ first ∈ scriptZeros, value < 10 ∧ c.toNat = first + value

/-- The digits of two scripts have no code points in common. -/
theorem scriptZeros_apart : ∀ first ∈ scriptZeros, ∀ second ∈ scriptZeros,
    first = second ∨ first + 10 ≤ second ∨ second + 10 ≤ first := by
  decide +kernel

theorem digitValue?_eq_some_iff {c : Char} {value : Nat} :
    digitValue? c = some value ↔ IsDigit c value := by
  constructor
  · intro hdigit
    have hless := digitValue?_lt hdigit
    unfold digitValue? at hdigit
    obtain ⟨first, hfind, rfl⟩ := Option.map_eq_some_iff.mp hdigit
    have hrange := List.find?_some hfind
    simp only [Bool.and_eq_true, decide_eq_true_eq] at hrange
    exact ⟨first, List.mem_of_find?_eq_some hfind, hless, by omega⟩
  · rintro ⟨first, hmem, hless, hvalue⟩
    have hrange : (decide (first ≤ c.toNat) && decide (c.toNat ≤ first + 9)) = true := by
      rw [Bool.and_eq_true, decide_eq_true_eq, decide_eq_true_eq]
      omega
    obtain ⟨other, hfind⟩ := Option.isSome_iff_exists.mp
      ((List.find?_isSome (p := fun first => first ≤ c.toNat && c.toNat ≤ first + 9)).mpr
        ⟨first, hmem, hrange⟩)
    have hother := List.find?_some hfind
    simp only [Bool.and_eq_true, decide_eq_true_eq] at hother
    have hapart := scriptZeros_apart first hmem other (List.mem_of_find?_eq_some hfind)
    obtain rfl : first = other := by omega
    rw [digitValue?, hfind, Option.map_some, hvalue, Nat.add_sub_cancel_left]

/-- No digit is blank or separates fields, and none is a sign or an underscore. -/
theorem digits_apart : ∀ first ∈ scriptZeros, ∀ value < 10,
    isGap (.ofNat (first + value)) = false ∧
      Char.ofNat (first + value) ∉ ['+', '-', '_'] := by
  decide +kernel

theorem IsDigit.apart {c : Char} {value : Nat} (hdigit : IsDigit c value) :
    isGap c = false ∧ c ∉ ['+', '-', '_'] := by
  obtain ⟨first, hmem, hless, hvalue⟩ := hdigit
  have hc : c = .ofNat (first + value) := by rw [← hvalue, Char.ofNat_toNat]
  rw [hc]
  exact digits_apart first hmem value hless

theorem IsDigit.isBlank_eq_false {c : Char} {value : Nat} (hdigit : IsDigit c value) :
    isBlank c = false :=
  (Bool.or_eq_false_iff.mp hdigit.apart.1).1

/-! ## Numerals -/

/-- A text writes a number with the given digits.  An underscore stands between two digits. -/
inductive Numeral : List Char → List Nat → Prop where
  | digit {c : Char} {value : Nat} (hdigit : IsDigit c value) : Numeral [c] [value]
  | next {c : Char} {value : Nat} {rest : List Char} {digits : List Nat}
      (hdigit : IsDigit c value) (hrest : Numeral rest digits) :
      Numeral (c :: rest) (value :: digits)
  | underscore {c : Char} {value : Nat} {rest : List Char} {digits : List Nat}
      (hdigit : IsDigit c value) (hrest : Numeral rest digits) :
      Numeral (c :: '_' :: rest) (value :: digits)

variable {numeral : List Char} {digits : List Nat}

theorem Numeral.exists_cons (hnumeral : Numeral numeral digits) :
    ∃ c value rest, numeral = c :: rest ∧ IsDigit c value := by
  cases hnumeral with
  | digit hdigit => exact ⟨_, _, _, rfl, hdigit⟩
  | next hdigit _ => exact ⟨_, _, _, rfl, hdigit⟩
  | underscore hdigit _ => exact ⟨_, _, _, rfl, hdigit⟩

theorem Numeral.exists_append (hnumeral : Numeral numeral digits) :
    ∃ front c value, numeral = front ++ [c] ∧ IsDigit c value := by
  induction hnumeral with
  | digit hdigit => exact ⟨[], _, _, rfl, hdigit⟩
  | @next d _ _ _ _ _ ih =>
      obtain ⟨front, c, value, rfl, hdigit⟩ := ih
      exact ⟨d :: front, c, value, rfl, hdigit⟩
  | @underscore d _ _ _ _ _ ih =>
      obtain ⟨front, c, value, rfl, hdigit⟩ := ih
      exact ⟨d :: '_' :: front, c, value, rfl, hdigit⟩

theorem digitValues?_eq_some_iff :
    digitValues? numeral = some digits ↔ Numeral numeral digits := by
  constructor
  · intro hread
    fun_induction digitValues? numeral generalizing digits with
    | case1 => cases hread
    | case2 c =>
        obtain ⟨value, hvalue, rfl⟩ := Option.map_eq_some_iff.mp hread
        exact .digit (digitValue?_eq_some_iff.mp hvalue)
    | case3 c rest ih =>
        simp only [Option.bind_eq_bind, Option.bind_eq_some_iff, Option.pure_def,
          Option.some.injEq] at hread
        obtain ⟨value, hvalue, later, hlater, rfl⟩ := hread
        exact .underscore (digitValue?_eq_some_iff.mp hvalue) (ih hlater)
    | case4 c rest _ _ ih =>
        simp only [Option.bind_eq_bind, Option.bind_eq_some_iff, Option.pure_def,
          Option.some.injEq] at hread
        obtain ⟨value, hvalue, later, hlater, rfl⟩ := hread
        exact .next (digitValue?_eq_some_iff.mp hvalue) (ih hlater)
  · intro hnumeral
    induction hnumeral with
    | digit hdigit => simp [digitValues?, digitValue?_eq_some_iff.mpr hdigit]
    | next hdigit hrest ih =>
        obtain ⟨d, value, later, rfl, hsecond⟩ := hrest.exists_cons
        have hother : d ≠ '_' := by
          rintro rfl
          exact hsecond.apart.2 (by simp)
        rw [digitValues?, digitValue?_eq_some_iff.mpr hdigit, ih]
        · rfl
        · exact List.cons_ne_nil _ _
        · rintro rest hlater
          exact hother (List.cons.inj hlater).1
    | underscore hdigit _ ih =>
        rw [digitValues?, digitValue?_eq_some_iff.mpr hdigit, ih]
        rfl

/-- The digits add up to their number in base ten, the last one being the least significant. -/
theorem valueOfDigits_eq (digits : List Nat) :
    valueOfDigits digits = Nat.ofDigits 10 digits.reverse := by
  induction digits using List.reverseRecOn with
  | nil => rfl
  | append_singleton front digit ih =>
      rw [valueOfDigits, List.foldl_append, List.foldl_cons, List.foldl_nil, ← valueOfDigits, ih,
        List.reverse_append, List.reverse_singleton, List.singleton_append, Nat.ofDigits_cons,
        Nat.add_comm]

theorem readNatural?_eq_some_iff {value : Nat} :
    readNatural? numeral = some value ↔ ∃ digits, Numeral numeral digits ∧ digits.length ≤ 4300 ∧
      value = Nat.ofDigits 10 digits.reverse := by
  simp only [readNatural?, Option.bind_eq_bind, Option.bind_eq_some_iff, digitValues?_eq_some_iff,
    valueOfDigits_eq, maxDigits]
  refine exists_congr fun digits => and_congr_right fun _ => ?_
  by_cases hcount : digits.length ≤ 4300
  · simp [guard, hcount, eq_comm]
  · simp [guard, hcount]

/-! ## Signs and blanks -/

/-- What may stand in front of a numeral, and the factor that it stands for. -/
inductive Sign : List Char → Int → Prop where
  | none : Sign [] 1
  | plus : Sign ['+'] 1
  | minus : Sign ['-'] (-1)

/-- A text writes an integer: a numeral of at most 4300 digits, a sign in front of it or none, and
any number of blank characters at both ends. -/
inductive Spells (blank : Char → Bool) : List Char → Int → Prop where
  | intro {before sign numeral after : List Char} {factor : Int} {digits : List Nat}
      (hbefore : ∀ c ∈ before, blank c) (hsign : Sign sign factor)
      (hnumeral : Numeral numeral digits) (hcount : digits.length ≤ 4300)
      (hafter : ∀ c ∈ after, blank c) :
      Spells blank (before ++ (sign ++ numeral ++ after))
        (factor * (Nat.ofDigits 10 digits.reverse : Nat))

theorem exists_trim (blank : Char → Bool) (text : List Char) :
    ∃ before after, text = before ++ (trim blank text ++ after) ∧
      (∀ c ∈ before, blank c) ∧ ∀ c ∈ after, blank c := by
  refine ⟨text.takeWhile blank, ((text.dropWhile blank).reverse.takeWhile blank).reverse, ?_,
    fun c hc => List.all_eq_true.mp List.all_takeWhile c hc,
    fun c hc => List.all_eq_true.mp List.all_takeWhile c (List.mem_reverse.mp hc)⟩
  rw [trim, trimEnd, ← List.reverse_append, List.takeWhile_append_dropWhile, List.reverse_reverse,
    List.takeWhile_append_dropWhile]

/-- Only the blank characters are dropped from both ends of what neither begins nor ends with
one. -/
theorem trim_append {blank : Char → Bool} {before core after : List Char}
    (hbefore : ∀ c ∈ before, blank c) (hafter : ∀ c ∈ after, blank c)
    (hhead : ∃ c rest, core = c :: rest ∧ blank c = false)
    (hlast : ∃ front c, core = front ++ [c] ∧ blank c = false) :
    trim blank (before ++ (core ++ after)) = core := by
  obtain ⟨c, rest, hcore, hc⟩ := hhead
  have hdrop : (before ++ (core ++ after)).dropWhile blank = core ++ after := by
    rw [List.dropWhile_append_of_pos hbefore, hcore, List.cons_append,
      List.dropWhile_cons_of_neg (by simp [hc])]
  obtain ⟨front, d, hcore, hd⟩ := hlast
  have hblanks : ∀ c ∈ after.reverse, blank c := fun c hmem => hafter c (List.mem_reverse.mp hmem)
  rw [trim, hdrop, trimEnd, List.reverse_append, List.dropWhile_append_of_pos hblanks, hcore,
    List.reverse_append, List.reverse_singleton, List.singleton_append,
    List.dropWhile_cons_of_neg (by simp [hd]), List.reverse_cons, List.reverse_reverse]

variable {sign : List Char} {factor : Int}

theorem Sign.trim_append (hsign : Sign sign factor) (hnumeral : Numeral numeral digits)
    {before after : List Char} (hbefore : ∀ c ∈ before, isBlank c)
    (hafter : ∀ c ∈ after, isBlank c) :
    trim isBlank (before ++ (sign ++ numeral ++ after)) = sign ++ numeral := by
  obtain ⟨front, last, value, hlast, hdigit⟩ := hnumeral.exists_append
  refine Text.trim_append hbefore hafter ?_
    ⟨sign ++ front, last, by rw [hlast, List.append_assoc], hdigit.isBlank_eq_false⟩
  cases hsign with
  | none =>
      obtain ⟨c, value, rest, hfirst, hdigit⟩ := hnumeral.exists_cons
      exact ⟨c, rest, hfirst, hdigit.isBlank_eq_false⟩
  | plus => exact ⟨'+', numeral, rfl, by decide⟩
  | minus => exact ⟨'-', numeral, rfl, by decide⟩

/-- The sign is told from the numeral, which does not begin with one. -/
theorem Sign.readInteger?_of_trim (hsign : Sign sign factor) (hnumeral : Numeral numeral digits)
    {text : List Char} (htrim : trim isBlank text = sign ++ numeral) :
    readInteger? text = (readNatural? numeral).map fun (value : Nat) => factor * value := by
  rw [readInteger?, htrim]
  cases hsign with
  | none =>
      obtain ⟨c, value, rest, rfl, hdigit⟩ := hnumeral.exists_cons
      have hc := hdigit.apart.2
      simp only [List.mem_cons, not_or] at hc
      rw [List.nil_append]
      split
      · rename_i hminus
        exact absurd (List.cons.inj hminus).1 hc.2.1
      · rename_i hplus
        exact absurd (List.cons.inj hplus).1 hc.1
      · cases readNatural? (c :: rest) <;> simp
  | plus => cases hread : readNatural? numeral <;> simp [hread]
  | minus => cases hread : readNatural? numeral <;> simp [hread]

theorem exists_sign_of_readInteger? {text : List Char} {z : Int}
    (hread : readInteger? text = some z) :
    ∃ sign factor numeral value, Sign sign factor ∧ trim isBlank text = sign ++ numeral ∧
      readNatural? numeral = some value ∧ z = factor * (value : Int) := by
  unfold readInteger? at hread
  split at hread
  all_goals
    simp only [Option.map_eq_some_iff, Option.bind_eq_bind, Option.bind_eq_some_iff,
      Option.pure_def, Option.some.injEq] at hread
    obtain ⟨_, ⟨value, hvalue, rfl⟩, rfl⟩ := hread
  · rename_i htrim
    exact ⟨['-'], -1, _, value, .minus, htrim, hvalue, by simp⟩
  · rename_i htrim
    exact ⟨['+'], 1, _, value, .plus, htrim, hvalue, by simp⟩
  · exact ⟨[], 1, _, value, .none, rfl, hvalue, by simp⟩

/-- The reader reads what is spelled, and nothing else. -/
theorem readInteger?_eq_some_iff {text : List Char} {z : Int} :
    readInteger? text = some z ↔ Spells isBlank text z := by
  constructor
  · intro hread
    obtain ⟨before, after, htext, hbefore, hafter⟩ := exists_trim isBlank text
    obtain ⟨sign, factor, numeral, value, hsign, htrim, hvalue, rfl⟩ :=
      exists_sign_of_readInteger? hread
    obtain ⟨digits, hnumeral, hcount, rfl⟩ := readNatural?_eq_some_iff.mp hvalue
    rw [htext, htrim]
    exact .intro hbefore hsign hnumeral hcount hafter
  · intro hspells
    cases hspells with
    | intro hbefore hsign hnumeral hcount hafter =>
        rw [hsign.readInteger?_of_trim hnumeral (hsign.trim_append hnumeral hbefore hafter),
          readNatural?_eq_some_iff.mpr ⟨_, hnumeral, hcount, rfl⟩, Option.map_some]

/-! ## Plain numerals -/

theorem IsDigit.of_isDigit {c : Char} (hdigit : c.isDigit) : IsDigit c (c.toNat - '0'.toNat) := by
  have hrange : '0'.toNat ≤ c.toNat ∧ c.toNat ≤ '9'.toNat := Char.isDigit_iff_toNat.mp hdigit
  have hzero : '0'.toNat = 0x30 := rfl
  have hnine : '9'.toNat = 0x39 := rfl
  exact ⟨0x30, by decide, by omega, by omega⟩

/-- Digits of the first script in a row write a number. -/
theorem Numeral.of_isDigit (hne : numeral ≠ []) (hdigits : ∀ c ∈ numeral, c.isDigit) :
    Numeral numeral (numeral.map fun c => c.toNat - '0'.toNat) := by
  induction numeral with
  | nil => exact absurd rfl hne
  | cons c rest ih =>
      rw [List.forall_mem_cons] at hdigits
      have hc := IsDigit.of_isDigit hdigits.1
      cases rest with
      | nil => exact .digit hc
      | cons d later => exact .next hc (ih (List.cons_ne_nil _ _) hdigits.2)

theorem Numeral.toDigits (n : Nat) :
    Numeral (Nat.toDigits 10 n) ((Nat.toDigits 10 n).map fun c => c.toNat - '0'.toNat) :=
  .of_isDigit Nat.toDigits_ne_nil fun _ hc => Nat.isDigit_of_mem_toDigits (by decide) (by decide) hc

theorem valueOfDigits_toDigits (n : Nat) :
    valueOfDigits ((Nat.toDigits 10 n).map fun c => c.toNat - '0'.toNat) = n := by
  rw [valueOfDigits, List.foldl_map]
  exact Nat.ofDigitChars_toDigits (by decide) (by decide)

/-- The decimal text of a number spells it, if it is short enough to be read at all. -/
theorem spells_toDigits (blank : Char → Bool) {n : Nat}
    (hcount : (Nat.toDigits 10 n).length ≤ 4300) : Spells blank (Nat.toDigits 10 n) n := by
  have hspells : Spells blank ([] ++ ([] ++ Nat.toDigits 10 n ++ [])) _ :=
    .intro nofun .none (.toDigits n) (by rwa [List.length_map]) nofun
  rwa [← valueOfDigits_eq, valueOfDigits_toDigits, List.nil_append, List.nil_append,
    List.append_nil, Int.one_mul] at hspells

/-- The integer of a decimal text, which may have any number of digits. -/
def readDecimal? : List Char → Option Int
  | '-' :: numeral => (digitValues? numeral).map fun digits => -(valueOfDigits digits : Int)
  | numeral => (digitValues? numeral).map fun digits => (valueOfDigits digits : Int)

theorem readDecimal?_text (z : Int) : readDecimal? (Decimal.text z).toList = some z := by
  have hdigits (n : Nat) := digitValues?_eq_some_iff.mpr (Numeral.toDigits n)
  by_cases hneg : z < 0
  · have hvalue : -(z.natAbs : Int) = z := by omega
    rw [Decimal.toList_text_of_neg hneg, readDecimal?, hdigits, Option.map_some,
      valueOfDigits_toDigits, hvalue]
  · obtain ⟨n, rfl⟩ := Int.eq_ofNat_of_zero_le (Int.not_lt.mp hneg)
    rw [Decimal.toList_text_natCast, readDecimal?, hdigits, Option.map_some,
      valueOfDigits_toDigits]
    -- The text of a natural number does not begin with a sign.
    intro numeral hminus
    have hdigit := Nat.isDigit_of_mem_toDigits (b := 10) (n := n) (c := '-') (by decide) (by decide)
      (by rw [hminus]; exact List.mem_cons_self)
    cases hdigit

end TapeLang.Text
