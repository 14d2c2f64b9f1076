/-!
# Words

Places in a sequence and sizes of sequences are counted in signed words of 64 bits. A greater
integer names no place at all and is the size of nothing.
-/

namespace TapeLang

/-- The integer is a signed word of 64 bits. -/
def IsWord (z : Int) : Prop :=
  -9223372036854775808 ≤ z ∧ z ≤ 9223372036854775807

instance (z : Int) : Decidable (IsWord z) :=
  inferInstanceAs (Decidable (_ ∧ _))

/-- The message about an integer that should be a word and is none. -/
def noWordMessage : String :=
  "cannot fit 'int' into an index-sized integer"

end TapeLang
