import TapeLang.Proofs.Compilation.Commands
import TapeLang.Proofs.Position
import TapeLang.Proofs.Program.Piece

/-!
# A program without optimization, character by character

Without optimization a command becomes one instruction, and its place is the number of commands in
front of it (`commandsBefore`).  `Stands text p i c` says what that instruction is for the character
`c` at the position `i`: a primitive is itself, and a bracket is a jump to the instruction of its
partner.  A comment has none.

This holds for every character of the text of a block (`Block.standsIn`).
-/

namespace TapeLang

/-- The number of commands in front of a position. -/
def commandsBefore (text : List Char) (i : Nat) : Nat :=
  ((text.take i).filter isCommand).length

/-- What stands in a program without optimization for a character at a position of its text. -/
inductive Stands (text : List Char) (p : Program) (i : Nat) : Char → Prop where
  | primitive {q : Primitive} (hget : p.toList[commandsBefore text i]? = some (.repeated q 1)) :
      Stands text p i q.symbol
  | opening {j : Nat} (hpartners : Partners text i j)
      (hget : p.toList[commandsBefore text i]? =
        some (.of .jumpIfZero (commandsBefore text j))) : Stands text p i '['
  | closing {j : Nat} (hpartners : Partners text j i)
      (hget : p.toList[commandsBefore text i]? =
        some (.of .jumpIfNonzero (commandsBefore text j))) : Stands text p i ']'
  | comment {c : Char} (silent : isCommand c = false) : Stands text p i c

variable {text : List Char} {p : Program}

theorem commandsBefore_succ {i : Nat} {c : Char} (hget : text[i]? = some c) :
    commandsBefore text (i + 1) = commandsBefore text i + if isCommand c then 1 else 0 := by
  rw [commandsBefore, commandsBefore, List.take_add_one, hget, Option.toList_some,
    List.filter_append, List.length_append]
  cases hcommand : isCommand c <;> simp [hcommand]

theorem commandsBefore_append {front piece back : List Char}
    (htext : text = front ++ (piece ++ back)) :
    commandsBefore text (front.length + piece.length) =
      commandsBefore text front.length + (piece.filter isCommand).length := by
  have hwhole : text = (front ++ piece) ++ back := by rw [htext, List.append_assoc]
  have hpiece : text.take (front.length + piece.length) = front ++ piece := by
    rw [hwhole, ← List.length_append, List.take_left]
  have hfront : text.take front.length = front := by rw [htext, List.take_left]
  rw [commandsBefore, commandsBefore, hpiece, hfront, List.filter_append, List.length_append]

namespace Block

/-- Wherever a block stands in the text and its code in the program, they fit. -/
def StandsIn (b : Block) (text : List Char) (p : Program) : Prop :=
  ∀ front back : List Char, text = front ++ (b.text ++ back) →
    p.HasAt (commandsBefore text front.length)
      (b.code false (commandsBefore text front.length)) →
    Between text (Stands text p) front.length (front.length + b.text.length)

private theorem between_run {q : Primitive} {count : Nat} {front back : List Char}
    (htext : text = front ++ (List.replicate count q.symbol ++ back))
    (hcode : p.HasAt (commandsBefore text front.length)
      (List.replicate count (.repeated q 1))) :
    Between text (Stands text p) front.length (front.length + count) := by
  intro i c hlow hhigh hget
  obtain ⟨k, rfl⟩ : ∃ k, i = front.length + k := ⟨i - front.length, by omega⟩
  have hk : k < count := by omega
  have hsymbol : c = q.symbol := by
    rw [htext, List.getElem?_append_right (Nat.le_add_right _ _), Nat.add_sub_cancel_left,
      List.getElem?_append_left (by rwa [List.length_replicate]), List.getElem?_replicate,
      if_pos hk, Option.some.injEq] at hget
    exact hget.symm
  -- All characters of the run in front of this one are commands.
  have hbefore : commandsBefore text (front.length + k) = commandsBefore text front.length + k := by
    have hsplit : text = front ++ (List.replicate k q.symbol ++
        (List.replicate (count - k) q.symbol ++ back)) := by
      rw [htext, ← List.append_assoc (List.replicate k _), List.replicate_append_replicate]
      rw [Nat.add_sub_cancel' (Nat.le_of_lt hk)]
    have hpiece := commandsBefore_append hsplit
    rwa [List.filter_replicate, if_pos (isCommand_symbol q), List.length_replicate] at hpiece
  rw [hsymbol]
  refine .primitive ?_
  rw [hbefore]
  exact hcode.getElem? (by rw [List.getElem?_replicate, if_pos hk])

private theorem between_loop {body : Block} (hbody : body.StandsIn text p) {front back : List Char}
    (htext : text = front ++ '[' :: (body.text ++ ']' :: back))
    (hcode : p.HasAt (commandsBefore text front.length)
      (loopCode false (commandsBefore text front.length)
        (body.code false (commandsBefore text front.length + 1)))) :
    Between text (Stands text p) front.length (front.length + (body.text.length + 1 + 1)) := by
  have hpartners : Partners text front.length (front.length + 1 + body.text.length) :=
    ⟨front, body.text, back, htext, body.balanced_text, rfl, rfl⟩
  have hinside : text = (front ++ ['[']) ++ (body.text ++ ']' :: back) := by
    rw [htext]
    simp
  have hopened : commandsBefore text (front.length + 1) = commandsBefore text front.length + 1 :=
    commandsBefore_succ hpartners.opening
  have hclosed := commandsBefore_append hinside
  rw [List.length_append, List.length_singleton, hopened,
    ← length_code_false body (commandsBefore text front.length + 1)] at hclosed
  rw [loopCode_false, Program.hasAt_cons, Program.hasAt_append, Program.hasAt_cons,
    ← hclosed] at hcode
  obtain ⟨hopening, hbodyCode, hclosing, -⟩ := hcode
  have hfirst := between_of_single hpartners.opening (Stands.opening hpartners hopening)
  have hsecond := hbody (front ++ ['[']) (']' :: back) hinside
  rw [List.length_append, List.length_singleton, hopened] at hsecond
  have hlast := between_of_single hpartners.closing (Stands.closing hpartners hclosing)
  have hwhole := (hfirst.trans (hsecond hbodyCode)).trans hlast
  rwa [show front.length + (body.text.length + 1 + 1) =
    front.length + 1 + body.text.length + 1 by omega]

private theorem length_filter_loop (body : Block) :
    (('[' :: (body.text ++ [']'])).filter isCommand).length =
      (body.text.filter isCommand).length + 2 := by
  rw [List.filter_cons_of_pos (by decide), List.filter_append, List.length_cons,
    List.length_append, List.filter_cons_of_pos (by decide)]
  rfl

/-- A piece of the text, and the block behind it. -/
private theorem between_append {rest : Block} (hrest : rest.StandsIn text p)
    {front piece back : List Char} {row : List Instruction}
    (htext : text = front ++ (piece ++ (rest.text ++ back)))
    (hlength : (piece.filter isCommand).length = row.length)
    (hcode : p.HasAt (commandsBefore text front.length)
      (row ++ rest.code false (commandsBefore text front.length + row.length)))
    (hpiece : p.HasAt (commandsBefore text front.length) row →
      Between text (Stands text p) front.length (front.length + piece.length)) :
    Between text (Stands text p) front.length (front.length + (piece ++ rest.text).length) := by
  rw [Program.hasAt_append] at hcode
  have hbefore := commandsBefore_append htext
  have hbehind := hrest (front ++ piece) back (by rw [htext, List.append_assoc])
  rw [List.length_append, hbefore, hlength] at hbehind
  rw [List.length_append, ← Nat.add_assoc]
  exact (hpiece hcode.1).trans (hbehind hcode.2)

theorem standsIn (b : Block) (text : List Char) (p : Program) : b.StandsIn text p := by
  induction b with
  | empty =>
      intro front back htext hcode
      exact between_empty text _ _
  | run q count count_pos rest ih =>
      intro front back htext hcode
      rw [Block.text, List.append_assoc] at htext
      refine between_append ih htext ?_ hcode fun hrun => ?_
      · rw [List.filter_replicate, if_pos (isCommand_symbol q), runCode,
          if_neg Bool.false_ne_true, List.length_replicate, List.length_replicate]
      · rw [List.length_replicate]
        exact between_run htext hrun
  | comment c silent rest ih =>
      intro front back htext hcode
      have hpiece : text = front ++ ([c] ++ (rest.text ++ back)) := htext
      have hsilent : ([c].filter isCommand).length = ([] : List Instruction).length := by
        simp [silent]
      exact between_append ih hpiece hsilent hcode fun _ =>
        between_of_single (getElem?_of_eq_append hpiece) (.comment silent)
  | loop body rest ihBody ihRest =>
      intro front back htext hcode
      rw [text_loop] at htext ⊢
      rw [List.append_assoc] at htext
      refine between_append ihRest htext ?_ hcode fun hloop => ?_
      · rw [length_filter_loop, length_loopCode_false, length_code_false]
      · rw [List.cons_append, List.append_assoc, List.singleton_append] at htext
        rw [List.length_cons, List.length_append, List.length_singleton]
        exact between_loop ihBody htext hloop

end Block

end TapeLang
