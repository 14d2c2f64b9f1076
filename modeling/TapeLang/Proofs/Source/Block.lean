import TapeLang.Proofs.Position
import TapeLang.Proofs.Source.Bracket

/-!
# Blocks

A text whose brackets match is a tree.  A `Block` is that tree: runs of one primitive, characters of
comments, and loops, one after the other.

`Block.text` gives the text back, which is balanced (`balanced_text`).  Every bracket in it has a
partner in it, and that is so wherever the text of a block stands within another text
(`matched_text`).
-/

namespace TapeLang

/-- A text whose brackets match, as a tree: the first piece of the text and what follows it. -/
inductive Block where
  | empty
  | run (p : Primitive) (count : Nat) (count_pos : 0 < count) (rest : Block)
  | comment (c : Char) (silent : isCommand c = false) (rest : Block)
  | loop (body rest : Block)

namespace Block

/-- The text of a block. -/
def text : Block → List Char
  | empty => []
  | run p count _ rest => List.replicate count p.symbol ++ rest.text
  | comment c _ rest => c :: rest.text
  | loop body rest => '[' :: (body.text ++ ']' :: rest.text)

/-- Puts one block behind another. -/
def append : Block → Block → Block
  | empty, tail => tail
  | run p count count_pos rest, tail => run p count count_pos (rest.append tail)
  | comment c silent rest, tail => comment c silent (rest.append tail)
  | loop body rest, tail => loop body (rest.append tail)

theorem text_append (b tail : Block) : (b.append tail).text = b.text ++ tail.text := by
  induction b with
  | empty => rfl
  | run p count count_pos rest ih => simp [append, text, ih]
  | comment c silent rest ih => simp [append, text, ih]
  | loop body rest _ ih => simp [append, text, ih]

theorem text_loop (body rest : Block) :
    (loop body rest).text = '[' :: (body.text ++ [']']) ++ rest.text := by
  simp [text]

theorem depth?_replicate (p : Primitive) (count opened : Nat) (rest : List Char) :
    depth? opened (List.replicate count p.symbol ++ rest) = depth? opened rest := by
  obtain ⟨hopening, hclosing⟩ := symbol_ne_brackets p
  induction count with
  | zero => rfl
  | succ count ih =>
      rw [List.replicate_succ, List.cons_append, depth?_other hopening hclosing, ih]

theorem depth?_text (b : Block) (opened : Nat) : depth? opened b.text = some opened := by
  induction b generalizing opened with
  | empty => rfl
  | run p count count_pos rest ih => rw [text, depth?_replicate, ih]
  | comment c silent rest ih =>
      obtain ⟨-, hopening, hclosing⟩ := isCommand_eq_false_iff.mp silent
      rw [text, depth?_other hopening hclosing, ih]
  | loop body rest ihBody ihRest =>
      rw [text, depth?_opening, TapeLang.depth?_append, ihBody, Option.bind_some,
        depth?_closing_succ, ihRest]

theorem balanced_text (b : Block) : Balanced b.text :=
  b.depth?_text 0

/-! ## Every bracket has a partner -/

/-- What stands at a position has a partner, if it is a bracket. -/
def HasPartner (text : List Char) (i : Nat) (c : Char) : Prop :=
  (c = '[' → ∃ j, Partners text i j) ∧ (c = ']' → ∃ j, Partners text j i)

theorem hasPartner_opening {text : List Char} {i j : Nat} (hpartners : Partners text i j) :
    HasPartner text i '[' :=
  ⟨fun _ => ⟨j, hpartners⟩, fun hclosing => absurd hclosing (by decide)⟩

theorem hasPartner_closing {text : List Char} {i j : Nat} (hpartners : Partners text i j) :
    HasPartner text j ']' :=
  ⟨fun hopening => absurd hopening (by decide), fun _ => ⟨i, hpartners⟩⟩

/-- Where there are no brackets, nothing needs a partner. -/
theorem between_of_silent {text front piece back : List Char}
    (htext : text = front ++ (piece ++ back)) (hopening : '[' ∉ piece) (hclosing : ']' ∉ piece) :
    Between text (HasPartner text) front.length (front.length + piece.length) := by
  intro i c hlow hhigh hget
  rw [htext, List.getElem?_append_right hlow, List.getElem?_append_left (by omega)] at hget
  have hmem := List.mem_of_getElem? hget
  constructor
  · rintro rfl
    exact absurd hmem hopening
  · rintro rfl
    exact absurd hmem hclosing

theorem matched_text (b : Block) {text front back : List Char}
    (htext : text = front ++ (b.text ++ back)) :
    Between text (HasPartner text) front.length (front.length + b.text.length) := by
  induction b generalizing front back with
  | empty => exact between_empty text _ _
  | run p count count_pos rest ih =>
      obtain ⟨hopening, hclosing⟩ := symbol_ne_brackets p
      rw [Block.text, List.append_assoc] at htext
      have hrun := between_of_silent htext
        (fun h => hopening (List.eq_of_mem_replicate h).symm)
        (fun h => hclosing (List.eq_of_mem_replicate h).symm)
      have hrest := ih (htext.trans (List.append_assoc front _ _).symm)
      rw [Block.text, List.length_append, ← Nat.add_assoc]
      rw [List.length_append] at hrest
      exact hrun.trans hrest
  | comment c silent rest ih =>
      obtain ⟨-, hopening, hclosing⟩ := isCommand_eq_false_iff.mp silent
      rw [Block.text, ← List.singleton_append, List.append_assoc] at htext
      have hcomment := between_of_silent htext
        (fun h => hopening (List.mem_singleton.mp h).symm)
        (fun h => hclosing (List.mem_singleton.mp h).symm)
      have hrest := ih (htext.trans (List.append_assoc front _ _).symm)
      rw [Block.text, List.length_cons, Nat.add_comm rest.text.length, ← Nat.add_assoc]
      rw [List.length_append] at hrest
      exact hcomment.trans hrest
  | loop body rest ihBody ihRest =>
      rw [Block.text, List.cons_append, List.append_assoc, List.cons_append] at htext
      have hpartners : Partners text front.length (front.length + 1 + body.text.length) :=
        ⟨front, body.text, _, htext, body.balanced_text, rfl, rfl⟩
      have hbody := @ihBody (front ++ ['[']) (']' :: (rest.text ++ back)) (by simp [htext])
      rw [List.length_append, List.length_singleton] at hbody
      have hrest := @ihRest (front ++ '[' :: (body.text ++ [']'])) back (by simp [htext])
      rw [show (front ++ '[' :: (body.text ++ [']'])).length =
        front.length + 1 + body.text.length + 1 by simp; omega] at hrest
      rw [show front.length + (loop body rest).text.length =
        front.length + 1 + body.text.length + 1 + rest.text.length by simp [Block.text]; omega]
      have hfirst := between_of_single hpartners.opening (hasPartner_opening hpartners)
      have hlast := between_of_single hpartners.closing (hasPartner_closing hpartners)
      exact ((hfirst.trans hbody).trans hlast).trans hrest

end Block

end TapeLang
