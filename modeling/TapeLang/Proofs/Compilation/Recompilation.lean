import TapeLang.Proofs.Compilation.Compiled
import TapeLang.Proofs.Compilation.Spelling

/-!
# The source of a loop

`Program.loopSource` writes the instructions of a loop down, and a profile counts loops under what
is written.  If this is expanded and compiled, the loop comes back: the whole program from all of
its instructions (`ofSource_expanded_whole`), and the instructions of a loop, with the targets of
jumps moved to the front, from those between its jumps (`ofSource_expanded_loop`).

So what is written tells loops apart.  Two loops of a compiled program have the same source exactly
if they have the same instructions, up to the place where they stand (`loopSource_eq_iff`).
-/

namespace TapeLang

namespace Program

variable {p : Program}

theorem span_whole (p : Program) : p.span 0 ((p.size : Int) - 1) = p.toList := by
  unfold span toList size
  rw [Int.sub_add_cancel, Offset.bound_natCast, Nat.min_self]
  simp [Offset.bound]

/-- The targets of the jumps are not written. -/
theorem loopSource_eq_of_relocated {first last first' last' distance distance' : Int}
    (hsame : relocated distance (p.span first last) = relocated distance' (p.span first' last')) :
    p.loopSource first last = p.loopSource first' last' := by
  have hwritten : ∀ (distance : Int) (row : List Instruction),
      row.map Instruction.render = (relocated distance row).map Instruction.render := by
    intro distance row
    rw [relocated, List.map_map]
    exact List.map_congr_left fun i _ => (i.render_relocated distance).symm
  unfold loopSource
  rw [hwritten distance, hwritten distance' (p.span first' last'), hsame]

end Program

namespace Compilation

variable {text : String} {optimize : Bool} {p : Program} {i j : Nat}

theorem ofSource_expanded {first last : Int} {b : Block} {place : Nat}
    (hspan : p.span first last = b.code optimize place) :
    Program.ofSource (expanded (p.loopSource first last)) optimize =
      .ok (.ofList (b.code optimize 0)) := by
  rw [expanded, toList_loopSource, hspan, expand_rendered b.normal_of_mem_code, ofSource_spelling]

theorem ofSource_expanded_whole (hprogram : Program.ofSource text optimize = .ok p) :
    Program.ofSource (expanded (p.loopSource 0 ((p.size : Int) - 1))) optimize = .ok p := by
  obtain ⟨b, -, hlist⟩ := exists_block_of_ofSource hprogram
  have hspan := p.span_whole.trans hlist
  rw [ofSource_expanded hspan, ← hlist]
  rfl

/-- From one jump to the one that it leads to stands the code of a loop. -/
theorem exists_loopAt_of_ofSource (hprogram : Program.ofSource text optimize = .ok p)
    (hpair : p.Pair i j) :
    ∃ body : Block, p.HasAt i ((Block.loop body .empty).code optimize i) ∧
      i + ((Block.loop body .empty).code optimize i).length = j + 1 := by
  obtain ⟨b, -, hlist⟩ := exists_block_of_ofSource hprogram
  have hinside : i < 0 + (b.code optimize 0).length := by
    rw [Nat.zero_add, ← hlist, Program.length_toList]
    exact Program.lt_size_of_getElem? hpair.forth
  exact b.exists_loop_of_pair (Program.hasAt_zero hlist) hpair (Nat.zero_le i) hinside

theorem exists_loop_of_ofSource (hprogram : Program.ofSource text optimize = .ok p)
    (hpair : p.Pair i j) :
    ∃ body : Block, p.span i j = (Block.loop body .empty).code optimize i := by
  obtain ⟨body, hloop, hlength⟩ := exists_loopAt_of_ofSource hprogram hpair
  exact ⟨body, hloop.span_eq hlength⟩

theorem ofSource_expanded_loop (hprogram : Program.ofSource text optimize = .ok p)
    (hpair : p.Pair i j) :
    Program.ofSource (expanded (p.loopSource i j)) optimize =
      .ok (.ofList (relocated (-i) (p.span i j))) := by
  obtain ⟨body, hspan⟩ := exists_loop_of_ofSource hprogram hpair
  have hmoved := (Block.loop body .empty).code_add optimize 0 i
  rw [Nat.zero_add] at hmoved
  rw [ofSource_expanded hspan, hspan, hmoved, relocated_neg_relocated]

theorem loopSource_eq_iff (hprogram : Program.ofSource text optimize = .ok p) {k l : Nat}
    (hfirst : p.Pair i j) (hsecond : p.Pair k l) :
    p.loopSource i j = p.loopSource k l ↔
      relocated (-i) (p.span i j) = relocated (-k) (p.span k l) := by
  constructor
  · intro hsource
    have hsame := ofSource_expanded_loop hprogram hfirst
    rw [hsource, ofSource_expanded_loop hprogram hsecond] at hsame
    exact (congrArg Program.toList (Except.ok.inj hsame)).symm
  · intro hsame
    exact Program.loopSource_eq_of_relocated hsame

end Compilation

end TapeLang
