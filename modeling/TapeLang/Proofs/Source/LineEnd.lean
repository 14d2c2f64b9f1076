import TapeLang.Proofs.Source.Bracket
import TapeLang.Proofs.Source.Place
import TapeLang.Text.LineEnd

/-!
# Lines of a file

In a file a line may end with a return, with a line feed, or with both.  `EndsLine` says at which
positions of a text its lines end, without changing the text, and `lineEndsBefore` lists those in
front of a position.

Reading a file leaves one line feed for each line end.  This is what replacing every return and line
feed, and then every return, by a line feed does (`normalizeLineEnds_eq_replaceEach`).  So the line
feeds in front of a character that is no line feed are as many as the line ends in front of it in
the file (`count_normalizeLineEnds`), and as many characters stand between it and the last of them
(`length_lastLine_normalizeLineEnds`).

Both are by induction along the text.  What ends a line may depend on the next character, so the
text that is read is the front of a longer one, which goes on with something else than a line feed.
-/

namespace TapeLang

/-- A line ends at a position: with a line feed, or with a return that no line feed follows. -/
def EndsLine (text : List Char) (i : Nat) : Prop :=
  text[i]? = some '\n' ∨ text[i]? = some '\r' ∧ text[i + 1]? ≠ some '\n'

instance (text : List Char) (i : Nat) : Decidable (EndsLine text i) :=
  inferInstanceAs (Decidable (_ ∨ _))

/-- The positions in front of a position at which lines end. -/
def lineEndsBefore (text : List Char) (i : Nat) : List Nat :=
  (List.range i).filter fun k => EndsLine text k

/-- The number of characters in front of a position since the last line end, or since the start of
the text if there is none. -/
def sinceLineEnd (text : List Char) (i : Nat) : Nat :=
  match (lineEndsBefore text i).getLast? with
  | none => i
  | some last => i - (last + 1)

/-- The text with every occurrence of a piece replaced, from left to right. -/
def replaceEach (piece other : List Char) : List Char → List Char
  | [] => []
  | c :: rest =>
    if piece <+: c :: rest then other ++ replaceEach piece other (rest.drop (piece.length - 1))
    else c :: replaceEach piece other rest
termination_by text => text.length
decreasing_by
  · rw [List.length_drop, List.length_cons]
    omega
  · exact Nat.lt_succ_self _

namespace Text

/-! ## Replacing line ends -/

theorem normalizeLineEnds_pair (rest : List Char) :
    normalizeLineEnds ('\r' :: '\n' :: rest) = '\n' :: normalizeLineEnds rest := by
  rw [normalizeLineEnds]

theorem normalizeLineEnds_cons {c : Char} {rest : List Char}
    (hpair : c = '\r' → rest.head? ≠ some '\n') :
    normalizeLineEnds (c :: rest) = (if c = '\r' then '\n' else c) :: normalizeLineEnds rest := by
  rw [normalizeLineEnds]
  rintro later rfl rfl
  exact hpair rfl rfl

/-- A text is empty, begins with a return and a line feed, or begins with another character that is
read by itself. -/
theorem lineEnd_induction {motive : List Char → Prop} (nil : motive [])
    (pair : ∀ rest, motive rest → motive ('\r' :: '\n' :: rest))
    (cons : ∀ c rest, (c = '\r' → rest.head? ≠ some '\n') → motive rest → motive (c :: rest))
    (text : List Char) : motive text := by
  fun_induction normalizeLineEnds text with
  | case1 => exact nil
  | case2 rest ih => exact pair rest ih
  | case3 c rest hpair ih =>
      refine cons c rest ?_ ih
      rintro rfl hhead
      obtain ⟨later, rfl⟩ := List.head?_eq_some_iff.mp hhead
      exact hpair later rfl rfl

theorem replaceEach_cons_self (c : Char) (other rest : List Char) :
    replaceEach [c] other (c :: rest) = other ++ replaceEach [c] other rest := by
  have hfront : [c] <+: c :: rest := List.prefix_append [c] rest
  rw [replaceEach, if_pos hfront]
  rfl

theorem replaceEach_pair (c d : Char) (other rest : List Char) :
    replaceEach [c, d] other (c :: d :: rest) = other ++ replaceEach [c, d] other rest := by
  have hfront : [c, d] <+: c :: d :: rest := List.prefix_append [c, d] rest
  rw [replaceEach, if_pos hfront]
  rfl

theorem replaceEach_cons_of_not_begins {piece : List Char} {c : Char} {rest : List Char}
    (hpiece : ¬ piece <+: c :: rest) (other : List Char) :
    replaceEach piece other (c :: rest) = c :: replaceEach piece other rest := by
  rw [replaceEach, if_neg hpiece]

/-- Each return and line feed, and then each return that is left, is written as a line feed. -/
theorem normalizeLineEnds_eq_replaceEach (text : List Char) :
    normalizeLineEnds text =
      replaceEach ['\r'] ['\n'] (replaceEach ['\r', '\n'] ['\n'] text) := by
  induction text using lineEnd_induction with
  | nil => simp [normalizeLineEnds, replaceEach]
  | pair rest ih =>
      rw [normalizeLineEnds_pair, replaceEach_pair, List.singleton_append,
        replaceEach_cons_of_not_begins (by simp), ← ih]
  | cons c rest hpair ih =>
      have hnone : ¬ ['\r', '\n'] <+: c :: rest := by
        rintro ⟨later, hlater⟩
        rw [List.cons_append, List.singleton_append, List.cons.injEq] at hlater
        exact hpair hlater.1.symm (hlater.2 ▸ rfl)
      rw [normalizeLineEnds_cons hpair, replaceEach_cons_of_not_begins hnone]
      split
      · rename_i hreturn
        rw [hreturn, replaceEach_cons_self, ← ih, List.singleton_append]
      · rename_i hother
        rw [replaceEach_cons_of_not_begins (by simpa using Ne.symm hother), ← ih]

/-! ## What stays -/

/-- A character that ends no line keeps the texts on both of its sides apart. -/
theorem normalizeLineEnds_append_cons {c : Char} (hreturn : c ≠ '\r') (hfeed : c ≠ '\n')
    (front back : List Char) :
    normalizeLineEnds (front ++ c :: back) =
      normalizeLineEnds front ++ c :: normalizeLineEnds back := by
  induction front using lineEnd_induction with
  | nil =>
      rw [List.nil_append, normalizeLineEnds_cons (absurd · hreturn), if_neg hreturn]
      rfl
  | pair rest ih =>
      rw [normalizeLineEnds_pair, List.cons_append, List.cons_append, normalizeLineEnds_pair, ih,
        List.cons_append]
  | cons d rest hpair ih =>
      have hlonger : d = '\r' → (rest ++ c :: back).head? ≠ some '\n' := by
        intro hd
        cases rest with
        | nil => simpa using hfeed
        | cons e later => exact hpair hd
      rw [List.cons_append, normalizeLineEnds_cons hlonger, normalizeLineEnds_cons hpair, ih,
        List.cons_append]

/-- Reading the line ends changes no bracket. -/
theorem depth?_normalizeLineEnds (opened : Nat) (text : List Char) :
    depth? opened (normalizeLineEnds text) = depth? opened text := by
  have hreturn (opened : Nat) (rest : List Char) :
      depth? opened ('\r' :: rest) = depth? opened rest :=
    depth?_other (by decide) (by decide) opened rest
  have hfeed (opened : Nat) (rest : List Char) :
      depth? opened ('\n' :: rest) = depth? opened rest :=
    depth?_other (by decide) (by decide) opened rest
  induction text using lineEnd_induction generalizing opened with
  | nil => rfl
  | pair rest ih => rw [normalizeLineEnds_pair, hfeed, ih, hreturn, hfeed]
  | cons c rest hpair ih =>
      rw [normalizeLineEnds_cons hpair]
      split
      · rename_i hc
        rw [hc, hfeed, hreturn, ih]
      · by_cases hopening : c = '['
        · rw [hopening, depth?_opening, depth?_opening, ih]
        · by_cases hclosing : c = ']'
          · cases opened with
            | zero => rw [hclosing, depth?_closing_zero, depth?_closing_zero]
            | succ outer => rw [hclosing, depth?_closing_succ, depth?_closing_succ, ih]
          · rw [depth?_other hopening hclosing, depth?_other hopening hclosing, ih]

theorem normalizeLineEnds_of_feed_not_mem {text : List Char}
    (hfeed : '\n' ∉ normalizeLineEnds text) : normalizeLineEnds text = text := by
  induction text using lineEnd_induction with
  | nil => rfl
  | pair rest _ =>
      rw [normalizeLineEnds_pair] at hfeed
      exact absurd List.mem_cons_self hfeed
  | cons c rest hpair ih =>
      rw [normalizeLineEnds_cons hpair, List.mem_cons, not_or] at hfeed
      rw [normalizeLineEnds_cons hpair, ih hfeed.2]
      split
      · rename_i hreturn
        exact absurd (if_pos hreturn).symm hfeed.1
      · rfl

end Text

/-! ## Counting line ends -/

theorem endsLine_cons_succ (c : Char) (text : List Char) (i : Nat) :
    EndsLine (c :: text) (i + 1) ↔ EndsLine text i := by
  simp [EndsLine]

theorem endsLine_cons_zero (c : Char) (text : List Char) :
    EndsLine (c :: text) 0 ↔ c = '\n' ∨ c = '\r' ∧ text.head? ≠ some '\n' := by
  simp [EndsLine, List.head?_eq_getElem?]

theorem lineEndsBefore_cons (c : Char) (text : List Char) (i : Nat) :
    lineEndsBefore (c :: text) (i + 1) =
      (if EndsLine (c :: text) 0 then [0] else []) ++ (lineEndsBefore text i).map Nat.succ := by
  rw [lineEndsBefore, List.range_succ_eq_map, List.filter_cons, List.filter_map, lineEndsBefore]
  have hsucc : ((fun k => decide (EndsLine (c :: text) k)) ∘ Nat.succ) =
      fun k => decide (EndsLine text k) :=
    funext fun k => decide_eq_decide.mpr (endsLine_cons_succ c text k)
  rw [hsucc]
  by_cases hzero : EndsLine (c :: text) 0
  · simp [hzero]
  · simp [hzero]

theorem sinceLineEnd_cons (c : Char) (text : List Char) (i : Nat) :
    sinceLineEnd (c :: text) (i + 1) =
      if lineEndsBefore text i = [] then if EndsLine (c :: text) 0 then i else i + 1
      else sinceLineEnd text i := by
  rw [sinceLineEnd, lineEndsBefore_cons, List.getLast?_append, List.getLast?_map, sinceLineEnd]
  cases hlast : (lineEndsBefore text i).getLast? with
  | none =>
      rw [if_pos (List.getLast?_eq_none_iff.mp hlast)]
      by_cases hzero : EndsLine (c :: text) 0
      · simp [hzero]
      · simp [hzero]
  | some last =>
      have hsome : lineEndsBefore text i ≠ [] := by
        intro hnil
        rw [hnil] at hlast
        cases hlast
      rw [if_neg hsome]
      simp only [Option.map_some, Option.some_or, Nat.succ_eq_add_one, Nat.add_sub_add_right]

theorem length_lastLine_cons (c : Char) (text : List Char) :
    (lastLine (c :: text)).length =
      if '\n' ∉ text then if c = '\n' then text.length else text.length + 1
      else (lastLine text).length := by
  rw [lastLine, lastLine, List.reverse_cons]
  split
  · rename_i hnone
    have hall : ∀ d ∈ text.reverse, decide (d ≠ '\n') = true := by
      intro d hd
      rw [decide_eq_true_eq]
      rintro rfl
      exact hnone (List.mem_reverse.mp hd)
    rw [List.takeWhile_append_of_pos hall]
    by_cases hfeed : c = '\n'
    · simp [hfeed]
    · simp [hfeed]
  · rename_i hsome
    rw [Classical.not_not] at hsome
    have hless : (text.reverse.takeWhile (· ≠ '\n')).length ≠ text.reverse.length := by
      intro hlength
      have hsame := (List.takeWhile_prefix (· ≠ '\n')).eq_of_length hlength
      rw [← List.mem_reverse, ← hsame] at hsome
      simpa using List.all_eq_true.mp List.all_takeWhile _ hsome
    rw [List.takeWhile_append, if_neg hless]

/-! ## Line ends and line feeds -/

/-- What does not begin a pair ends a line if it is a return or a line feed. -/
theorem endsLine_zero_iff {c : Char} {rest back : List Char}
    (hpair : c = '\r' → rest.head? ≠ some '\n') (hback : back.head? ≠ some '\n') :
    EndsLine (c :: (rest ++ back)) 0 ↔ c = '\r' ∨ c = '\n' := by
  rw [endsLine_cons_zero, or_comm]
  refine or_congr_left (and_iff_left_of_imp fun hreturn => ?_)
  cases rest with
  | nil => exact hback
  | cons d later => exact hpair hreturn

/-- The line feeds that are read are as many as the line ends in the file, as long as the text does
not go on with the second half of a line end. -/
theorem count_normalizeLineEnds (front : List Char) {back : List Char}
    (hback : back.head? ≠ some '\n') :
    (Text.normalizeLineEnds front).count '\n' =
      (lineEndsBefore (front ++ back) front.length).length := by
  induction front using Text.lineEnd_induction with
  | nil => rfl
  | pair rest ih =>
      rw [Text.normalizeLineEnds_pair, List.count_cons_self, ih, List.cons_append, List.cons_append,
        List.length_cons, List.length_cons, lineEndsBefore_cons, lineEndsBefore_cons]
      simp [endsLine_cons_zero]
  | cons c rest hpair ih =>
      rw [Text.normalizeLineEnds_cons hpair, List.count_cons, ih, List.cons_append,
        List.length_cons, lineEndsBefore_cons]
      simp only [endsLine_zero_iff hpair hback]
      by_cases hreturn : c = '\r'
      · simp [hreturn, Nat.add_comm]
      · by_cases hfeed : c = '\n'
        · simp [hfeed, Nat.add_comm]
        · simp [hreturn, hfeed]

theorem lineEndsBefore_eq_nil_iff (front : List Char) {back : List Char}
    (hback : back.head? ≠ some '\n') :
    lineEndsBefore (front ++ back) front.length = [] ↔ '\n' ∉ Text.normalizeLineEnds front := by
  rw [← List.length_eq_zero_iff, ← count_normalizeLineEnds front hback, List.count_eq_zero]

/-- As many characters stand behind the last line feed that is read as behind the last line end in
the file. -/
theorem length_lastLine_normalizeLineEnds (front : List Char) {back : List Char}
    (hback : back.head? ≠ some '\n') :
    (lastLine (Text.normalizeLineEnds front)).length =
      sinceLineEnd (front ++ back) front.length := by
  induction front using Text.lineEnd_induction with
  | nil => rfl
  | pair rest ih =>
      have hsome : lineEndsBefore ('\n' :: (rest ++ back)) (rest.length + 1) ≠ [] := by
        rw [lineEndsBefore_cons, if_pos ((endsLine_cons_zero _ _).mpr (.inl rfl))]
        exact List.cons_ne_nil _ _
      rw [Text.normalizeLineEnds_pair, length_lastLine_cons, List.cons_append, List.cons_append,
        List.length_cons, List.length_cons, sinceLineEnd_cons, if_neg hsome, sinceLineEnd_cons,
        ← ih]
      simp only [lineEndsBefore_eq_nil_iff rest hback, endsLine_cons_zero, true_or, if_true]
      split
      · rename_i hnone
        rw [Text.normalizeLineEnds_of_feed_not_mem hnone]
      · rfl
  | cons c rest hpair ih =>
      rw [Text.normalizeLineEnds_cons hpair, length_lastLine_cons, List.cons_append,
        List.length_cons, sinceLineEnd_cons, ← ih]
      simp only [lineEndsBefore_eq_nil_iff rest hback, endsLine_zero_iff hpair hback]
      split
      · rename_i hnone
        rw [Text.normalizeLineEnds_of_feed_not_mem hnone]
        by_cases hreturn : c = '\r'
        · simp [hreturn]
        · by_cases hfeed : c = '\n'
          · simp [hfeed]
          · simp [hreturn, hfeed]
      · rfl

end TapeLang
