import TapeLang.Proofs.Source.Bracket
import TapeLang.Source.Reading

/-!
# Commands in the bytes of a source

A command is a character below 0x80, and so it is a single byte.  `commandText` picks the bytes of
commands out of a file, whatever the others are, and the source text in that file has the same
commands in the same order (`commands_sourceText`).

The decoder is followed byte by byte.  A byte below 0x80 never belongs to an unfinished character,
so it is read as itself.  No other byte makes a command: the replacement character is none, and what
an unfinished character can still become lies at 0x80 or above (`Text.Unfinished.Wide`).
-/

namespace TapeLang

/-- The character with the value of a byte. -/
def byteChar (b : UInt8) : Char :=
  .ofNat b.toNat

/-- A byte that is the character of a command. -/
def isCommandByte (b : UInt8) : Bool :=
  isCommand (byteChar b)

/-- The command bytes of a file alone, read as a text. -/
def commandText (bytes : List UInt8) : String :=
  .ofList ((bytes.filter isCommandByte).map byteChar)

/-! ## Commands are below 0x80 -/

theorem toNat_lt_of_isCommand {c : Char} (hcommand : isCommand c = true) : c.toNat < 0x80 := by
  rcases command_cases c with hsilent | ⟨p, rfl⟩ | rfl | rfl
  · rw [hcommand] at hsilent
    cases hsilent
  · cases p with
    | move d => cases d <;> decide
    | _ => decide
  · decide
  · decide

theorem isCommand_ofNat_of_le {n : Nat} (hle : 0x80 ≤ n) : isCommand (.ofNat n) = false := by
  rw [← Bool.not_eq_true]
  intro hcommand
  by_cases hvalid : n.isValidChar
  · have hvalue : (Char.ofNat n).toNat = n := by
      rw [Char.ofNat, dif_pos hvalid]
      rfl
    have hless := toNat_lt_of_isCommand hcommand
    omega
  · rw [Char.ofNat, dif_neg hvalid] at hcommand
    exact absurd hcommand (by decide)

theorem filter_byteChar_of_le {b : UInt8} (hle : 0x80 ≤ b.toNat) :
    [byteChar b].filter isCommand = [] := by
  rw [byteChar, List.filter_cons_of_neg (by simp [isCommand_ofNat_of_le hle]), List.filter_nil]

/-! ## The decoder -/

namespace Text

theorem isCommand_replacement : isCommand replacement = false := by
  decide

/-- The least character that an unfinished one can still become is not below 0x80. -/
structure Unfinished.Wide (u : Unfinished) : Prop where
  least : 0x80 ≤ u.least.toNat
  value : 0x80 ≤ (u.bits * 64 + (u.least.toNat - 0x80)) * Nat.pow 64 u.more

/-- What is unfinished is wide. -/
def DecoderState.Wide (state : DecoderState) : Prop :=
  ∀ u, state = some u → u.Wide

theorem wide_none : DecoderState.Wide none := by
  rintro u ⟨⟩

theorem wide_firstByte (b : UInt8) : DecoderState.Wide (firstByte b).2 := by
  rintro u hbegun
  unfold firstByte at hbegun
  simp only at hbegun
  -- Each kind of first byte comes with a range for the next one.
  repeat' split at hbegun
  all_goals cases hbegun
  all_goals constructor <;> simp <;> omega

/-- A first byte below 0x80 is a character, and any other makes no command. -/
theorem filter_firstByte (b : UInt8) :
    (firstByte b).1.filter isCommand = [byteChar b].filter isCommand := by
  by_cases hascii : b.toNat < 0x80
  · simp only [firstByte, if_pos hascii, byteChar]
  · rw [filter_byteChar_of_le (Nat.le_of_not_lt hascii)]
    simp only [firstByte, if_neg hascii]
    repeat' split
    all_goals simp [isCommand_replacement]

/-- The next byte of a character leaves it wide, with one byte less to come. -/
theorem Unfinished.Wide.next {more bits : Nat} {least greatest b : UInt8}
    (hwide : (⟨more + 1, least, greatest, bits⟩ : Unfinished).Wide) (hle : least ≤ b) :
    (⟨more, 0x80, 0xBF, bits * 64 + (b.toNat - 0x80)⟩ : Unfinished).Wide where
  least := by simp
  value := by
    have hnone : (0x80 : UInt8).toNat - 0x80 = 0 := by decide
    have hgrows : bits * 64 + (least.toNat - 0x80) ≤ bits * 64 + (b.toNat - 0x80) :=
      Nat.add_le_add_left (Nat.sub_le_sub_right (UInt8.le_iff_toNat_le.mp hle) _) _
    calc 0x80 ≤ (bits * 64 + (least.toNat - 0x80)) * Nat.pow 64 (more + 1) := hwide.value
      _ ≤ (bits * 64 + (b.toNat - 0x80)) * Nat.pow 64 (more + 1) := Nat.mul_le_mul_right _ hgrows
      _ = (bits * 64 + (b.toNat - 0x80)) * 64 * Nat.pow 64 more := by
        rw [Nat.mul_assoc, Nat.mul_comm 64]
        rfl
      _ = ((bits * 64 + (b.toNat - 0x80)) * 64 + ((0x80 : UInt8).toNat - 0x80)) *
          Nat.pow 64 more := by rw [hnone, Nat.add_zero]

/-- The last byte of a wide character completes one that is no command. -/
theorem Unfinished.Wide.isCommand_last {bits : Nat} {least greatest b : UInt8}
    (hwide : (⟨0, least, greatest, bits⟩ : Unfinished).Wide) (hle : least ≤ b) :
    isCommand (.ofNat (bits * 64 + (b.toNat - 0x80))) = false := by
  have hvalue := hwide.value
  have hbyte := UInt8.le_iff_toNat_le.mp hle
  apply isCommand_ofNat_of_le
  simp only [Nat.pow, Nat.mul_one] at hvalue
  omega

theorem filter_decodeByte {state : DecoderState} (hwide : state.Wide) (b : UInt8) :
    (decodeByte state b).1.filter isCommand = [byteChar b].filter isCommand ∧
      DecoderState.Wide (decodeByte state b).2 := by
  cases state with
  | none => exact ⟨filter_firstByte b, wide_firstByte b⟩
  | some u =>
      obtain ⟨more, least, greatest, bits⟩ := u
      have hu := hwide _ rfl
      by_cases hrange : least ≤ b && b ≤ greatest
      · have hle : least ≤ b := by simp_all
        have hhigh : 0x80 ≤ b.toNat := Nat.le_trans hu.least (UInt8.le_iff_toNat_le.mp hle)
        rw [filter_byteChar_of_le hhigh]
        simp only [decodeByte, if_pos hrange]
        cases more with
        | zero => exact ⟨by simp [hu.isCommand_last hle], wide_none⟩
        | succ more =>
            refine ⟨rfl, ?_⟩
            rintro _ ⟨⟩
            exact hu.next hle
      · -- The byte is read again, as the first one of another character.
        simp only [decodeByte, if_neg hrange]
        rw [List.filter_cons_of_neg (by simp [isCommand_replacement])]
        exact ⟨filter_firstByte b, wide_firstByte b⟩

theorem filter_decodeFrom {state : DecoderState} (hwide : state.Wide) (bytes : List UInt8) :
    (decodeFrom state bytes).filter isCommand = (bytes.map byteChar).filter isCommand := by
  induction bytes generalizing state with
  | nil =>
      rw [decodeFrom]
      split <;> simp [isCommand_replacement]
  | cons b rest ih =>
      obtain ⟨hhere, hnext⟩ := filter_decodeByte hwide b
      rw [decodeFrom, List.filter_append, hhere, ih hnext, List.map_cons, ← List.filter_append,
        List.singleton_append]

theorem decodeUtf8_of_ascii {bytes : List UInt8} (hascii : ∀ b, b ∈ bytes → b.toNat < 0x80) :
    decodeUtf8 bytes = bytes.map byteChar := by
  induction bytes with
  | nil => rfl
  | cons b rest ih =>
      rw [decodeUtf8_cons_of_lt (hascii b List.mem_cons_self), List.map_cons,
        ih fun other hmem => hascii other (List.mem_cons_of_mem b hmem)]
      rfl

theorem normalizeLineEnds_of_not_mem {text : List Char} (hreturn : '\r' ∉ text) :
    normalizeLineEnds text = text := by
  fun_induction normalizeLineEnds text with
  | case1 => rfl
  | case2 rest ih => exact absurd List.mem_cons_self hreturn
  | case3 c rest _ ih =>
      rw [List.mem_cons, not_or] at hreturn
      rw [if_neg (Ne.symm hreturn.1), ih hreturn.2]

theorem filter_normalizeLineEnds (text : List Char) :
    (normalizeLineEnds text).filter isCommand = text.filter isCommand := by
  have hreturn : isCommand '\r' = false := by decide
  have hfeed : isCommand '\n' = false := by decide
  fun_induction normalizeLineEnds text with
  | case1 => rfl
  | case2 rest ih => simp [hreturn, hfeed, ih]
  | case3 c rest _ ih =>
      by_cases hc : c = '\r'
      · simp [hc, hreturn, hfeed, ih]
      · simp [hc, List.filter_cons, ih]

end Text

/-! ## Source files -/

theorem toNat_lt_of_isCommandByte {b : UInt8} (hcommand : isCommandByte b = true) :
    b.toNat < 0x80 := by
  apply Nat.lt_of_not_le
  intro hle
  rw [isCommandByte, byteChar, isCommand_ofNat_of_le hle] at hcommand
  cases hcommand

/-- The command bytes in a file of their own are read as the commands that they are. -/
theorem sourceText_filter (bytes : List UInt8) :
    sourceText (bytes.filter isCommandByte) = commandText bytes := by
  have hreturn : '\r' ∉ (bytes.filter isCommandByte).map byteChar := by
    intro hmem
    obtain ⟨b, hb, hchar⟩ := List.mem_map.mp hmem
    have hcommand : isCommand (byteChar b) = true := (List.mem_filter.mp hb).2
    rw [hchar] at hcommand
    exact absurd hcommand (by decide)
  rw [sourceText, commandText, Text.decodeUtf8_of_ascii, Text.normalizeLineEnds_of_not_mem hreturn]
  intro b hb
  exact toNat_lt_of_isCommandByte (List.mem_filter.mp hb).2

theorem toList_commandText (bytes : List UInt8) :
    (commandText bytes).toList = (bytes.map byteChar).filter isCommand := by
  rw [commandText, String.toList_ofList, List.filter_map]
  rfl

/-- The commands of the text in a file are its command bytes, all of them and in order. -/
theorem commands_sourceText (bytes : List UInt8) :
    (sourceText bytes).toList.filter isCommand = (commandText bytes).toList := by
  rw [sourceText, String.toList_ofList, Text.filter_normalizeLineEnds, Text.decodeUtf8,
    Text.filter_decodeFrom Text.wide_none, toList_commandText]

end TapeLang
