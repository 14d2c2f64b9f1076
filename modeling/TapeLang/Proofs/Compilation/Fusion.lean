import TapeLang.Compilation.Fusion
import TapeLang.Proofs.Program.Jumps

/-!
# The loops that are fused

`Fused body fused` lists the bodies that `fuse?` knows with the instructions for them.  Neither in
such a body nor in its place is there a jump.
-/

namespace TapeLang

/-- A body of a loop that is known, and the instruction for the loop. -/
inductive Fused : List Instruction → Instruction → Prop where
  | zero : Fused [.repeated .sub 1] (.of .zero 0)
  | scan (d : Direction) (stride : Int) : Fused [.repeated (.move d) stride] (.of (.scan d) stride)
  | carry (d : Direction) (distance : Int) :
      Fused [.repeated .sub 1, .repeated (.move d) distance, .repeated .add 1,
        .repeated (.move d.flip) distance] (.of (.carry d) distance)

theorem fused_of_fuse? {body : List Instruction} {fused : Instruction}
    (hfuse : fuse? body = some fused) : Fused body fused := by
  unfold fuse? at hfuse
  split at hfuse
  · split at hfuse
    · rename_i hcount
      cases hfuse
      rw [hcount]
      exact .zero
    · cases hfuse
  · cases hfuse
    exact .scan _ _
  · split at hfuse
    · rename_i hparts
      cases hfuse
      obtain ⟨htaken, hgiven, hback, hretreat⟩ := hparts
      rw [htaken, hgiven, hback, hretreat]
      exact .carry _ _
    · cases hfuse
  · cases hfuse

theorem Fused.fuse?_eq {body : List Instruction} {fused : Instruction}
    (hfused : Fused body fused) : fuse? body = some fused := by
  cases hfused with
  | zero => rfl
  | scan d stride => rfl
  | carry d distance => simp [fuse?]

theorem Fused.plain {body : List Instruction} {fused : Instruction} (hfused : Fused body fused) :
    fused.Plain := by
  cases hfused <;> exact ⟨by simp, by simp⟩

/-- A shortcut is not a counted primitive. -/
theorem Fused.ne_repeated {body : List Instruction} {fused : Instruction}
    (hfused : Fused body fused) (p : Primitive) (arg : Int) : fused ≠ .repeated p arg := by
  cases hfused <;> simp

theorem Fused.exists_repeated {body : List Instruction} {fused : Instruction}
    (hfused : Fused body fused) :
    ∀ i, i ∈ body → ∃ (p : Primitive) (arg : Int), i = .repeated p arg := by
  intro i hmem
  cases hfused with
  | zero =>
      obtain rfl := List.mem_singleton.mp hmem
      exact ⟨.sub, 1, rfl⟩
  | scan d stride =>
      obtain rfl := List.mem_singleton.mp hmem
      exact ⟨.move d, stride, rfl⟩
  | carry d distance =>
      simp only [List.mem_cons, List.not_mem_nil, or_false] at hmem
      rcases hmem with rfl | rfl | rfl | rfl
      · exact ⟨.sub, 1, rfl⟩
      · exact ⟨.move d, distance, rfl⟩
      · exact ⟨.add, 1, rfl⟩
      · exact ⟨.move d.flip, distance, rfl⟩

theorem Fused.plain_of_mem {body : List Instruction} {fused i : Instruction}
    (hfused : Fused body fused) (hmem : i ∈ body) : i.Plain := by
  obtain ⟨p, arg, rfl⟩ := hfused.exists_repeated i hmem
  exact ⟨by simp, by simp⟩

end TapeLang
