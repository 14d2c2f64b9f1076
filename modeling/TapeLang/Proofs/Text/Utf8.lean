import TapeLang.Text.Utf8

/-!
# Decoding what was encoded

A text is read back from its bytes (`Text.decodeUtf8_encodeUtf8`).

Each character is followed through its one to four bytes, with arbitrary bytes behind it.  The first
byte sets the range of the second one, and a character of the text never leaves that range: it is
not overlong, because the encoder takes the shortest form, and it is no surrogate.
-/

namespace TapeLang.Text

/-! ## Single bytes -/

theorem firstByte_ofNat {n : Nat} (hlt : n < 256) :
    firstByte (.ofNat n) =
      if n < 0x80 then ([Char.ofNat n], none)
      else if n < 0xC2 then ([replacement], none)
      else if n < 0xE0 then ([], some ⟨0, 0x80, 0xBF, n - 0xC0⟩)
      else if n = 0xE0 then ([], some ⟨1, 0xA0, 0xBF, 0⟩)
      else if n = 0xED then ([], some ⟨1, 0x80, 0x9F, 0xD⟩)
      else if n < 0xF0 then ([], some ⟨1, 0x80, 0xBF, n - 0xE0⟩)
      else if n = 0xF0 then ([], some ⟨2, 0x90, 0xBF, 0⟩)
      else if n < 0xF4 then ([], some ⟨2, 0x80, 0xBF, n - 0xF0⟩)
      else if n = 0xF4 then ([], some ⟨2, 0x80, 0x8F, 4⟩)
      else ([replacement], none) := by
  simp only [firstByte, UInt8.toNat_ofNat_of_lt' hlt]

variable {least greatest : UInt8} {bits n : Nat}

theorem inRange_ofNat (hle : least.toNat ≤ n) (hge : n ≤ greatest.toNat) :
    (UInt8.ofNat n).toNat = n ∧ (least ≤ UInt8.ofNat n && UInt8.ofNat n ≤ greatest) = true := by
  have hbyte : (UInt8.ofNat n).toNat = n :=
    UInt8.toNat_ofNat_of_lt' (Nat.lt_of_le_of_lt hge greatest.toNat_lt)
  refine ⟨hbyte, ?_⟩
  rw [Bool.and_eq_true, decide_eq_true_eq, decide_eq_true_eq, UInt8.le_iff_toNat_le,
    UInt8.le_iff_toNat_le, hbyte]
  exact ⟨hle, hge⟩

/-- The last byte of a character completes it. -/
theorem decodeFrom_last (hle : least.toNat ≤ n) (hge : n ≤ greatest.toNat) (rest : List UInt8) :
    decodeFrom (some ⟨0, least, greatest, bits⟩) (.ofNat n :: rest) =
      Char.ofNat (bits * 64 + (n - 0x80)) :: decodeFrom none rest := by
  obtain ⟨hbyte, hrange⟩ := inRange_ofNat hle hge
  simp only [decodeFrom, decodeByte, if_pos hrange, hbyte]
  rfl

/-- Any other byte behind the first one leaves one byte less to come. -/
theorem decodeFrom_next (hle : least.toNat ≤ n) (hge : n ≤ greatest.toNat) (more : Nat)
    (rest : List UInt8) :
    decodeFrom (some ⟨more + 1, least, greatest, bits⟩) (.ofNat n :: rest) =
      decodeFrom (some ⟨more, 0x80, 0xBF, bits * 64 + (n - 0x80)⟩) rest := by
  obtain ⟨hbyte, hrange⟩ := inRange_ofNat hle hge
  simp only [decodeFrom, decodeByte, if_pos hrange, hbyte]
  rfl

/-- A byte that begins a longer character sets the state for the bytes behind it. -/
theorem decodeFrom_begin {b : UInt8} {u : Unfinished} (hfirst : firstByte b = ([], some u))
    (rest : List UInt8) : decodeFrom none (b :: rest) = decodeFrom (some u) rest := by
  simp only [decodeFrom, decodeByte, hfirst]
  rfl

/-! ## The characters of two, three and four bytes -/

variable {v : Nat}

theorem decodeFrom_two (hlow : 0x80 ≤ v) (hhigh : v ≤ 0x7FF) (rest : List UInt8) :
    decodeFrom none (.ofNat (v / 64 % 0x20 + 0xC0) :: .ofNat (v % 0x40 + 0x80) :: rest) =
      Char.ofNat v :: decodeFrom none rest := by
  have hfirst : firstByte (.ofNat (v / 64 % 0x20 + 0xC0)) =
      ([], some ⟨0, 0x80, 0xBF, v / 64⟩) := by
    have hbits : v / 64 % 0x20 + 0xC0 - 0xC0 = v / 64 := by omega
    rw [firstByte_ofNat (by omega), if_neg (by omega), if_neg (by omega), if_pos (by omega), hbits]
  have hvalue : v / 64 * 64 + (v % 0x40 + 0x80 - 0x80) = v := by omega
  rw [decodeFrom_begin hfirst, decodeFrom_last (by simp) (by simp; omega), hvalue]

theorem decodeFrom_three (hlow : 0x800 ≤ v) (hhigh : v ≤ 0xFFFF)
    (hvalid : v < 0xD800 ∨ 0xDFFF < v) (rest : List UInt8) :
    decodeFrom none (.ofNat (v / 4096 % 0x10 + 0xE0) :: .ofNat (v / 64 % 0x40 + 0x80) ::
      .ofNat (v % 0x40 + 0x80) :: rest) = Char.ofNat v :: decodeFrom none rest := by
  -- The ranges keep out the overlong forms behind 0xE0 and the surrogates behind 0xED.
  have hfirst : ∃ least greatest : UInt8, firstByte (.ofNat (v / 4096 % 0x10 + 0xE0)) =
      ([], some ⟨1, least, greatest, v / 4096⟩) ∧ least.toNat ≤ v / 64 % 0x40 + 0x80 ∧
        v / 64 % 0x40 + 0x80 ≤ greatest.toNat := by
    rw [firstByte_ofNat (by omega), if_neg (by omega), if_neg (by omega), if_neg (by omega)]
    by_cases hoverlong : v / 4096 = 0
    · refine ⟨0xA0, 0xBF, ?_, by simp; omega, by simp; omega⟩
      rw [if_pos (by omega), hoverlong]
    · rw [if_neg (by omega)]
      by_cases hsurrogate : v / 4096 = 0xD
      · refine ⟨0x80, 0x9F, ?_, by simp, by simp; omega⟩
        rw [if_pos (by omega), hsurrogate]
      · refine ⟨0x80, 0xBF, ?_, by simp, by simp; omega⟩
        have hbits : v / 4096 % 0x10 + 0xE0 - 0xE0 = v / 4096 := by omega
        rw [if_neg (by omega), if_pos (by omega), hbits]
  obtain ⟨least, greatest, hfirst, hle, hge⟩ := hfirst
  have hvalue : (v / 4096 * 64 + (v / 64 % 0x40 + 0x80 - 0x80)) * 64 + (v % 0x40 + 0x80 - 0x80) =
      v := by omega
  rw [decodeFrom_begin hfirst, decodeFrom_next hle hge,
    decodeFrom_last (by simp) (by simp; omega), hvalue]

theorem decodeFrom_four (hlow : 0x10000 ≤ v) (hhigh : v ≤ 0x10FFFF) (rest : List UInt8) :
    decodeFrom none (.ofNat (v / 262144 % 0x08 + 0xF0) :: .ofNat (v / 4096 % 0x40 + 0x80) ::
      .ofNat (v / 64 % 0x40 + 0x80) :: .ofNat (v % 0x40 + 0x80) :: rest) =
      Char.ofNat v :: decodeFrom none rest := by
  -- The ranges keep out the overlong forms behind 0xF0 and what is too great behind 0xF4.
  have hfirst : ∃ least greatest : UInt8, firstByte (.ofNat (v / 262144 % 0x08 + 0xF0)) =
      ([], some ⟨2, least, greatest, v / 262144⟩) ∧ least.toNat ≤ v / 4096 % 0x40 + 0x80 ∧
        v / 4096 % 0x40 + 0x80 ≤ greatest.toNat := by
    rw [firstByte_ofNat (by omega), if_neg (by omega), if_neg (by omega), if_neg (by omega),
      if_neg (by omega), if_neg (by omega), if_neg (by omega)]
    by_cases hoverlong : v / 262144 = 0
    · refine ⟨0x90, 0xBF, ?_, by simp; omega, by simp; omega⟩
      rw [if_pos (by omega), hoverlong]
    · rw [if_neg (by omega)]
      by_cases hlast : v / 262144 = 4
      · refine ⟨0x80, 0x8F, ?_, by simp, by simp; omega⟩
        rw [if_neg (by omega), if_pos (by omega), hlast]
      · refine ⟨0x80, 0xBF, ?_, by simp, by simp; omega⟩
        have hbits : v / 262144 % 0x08 + 0xF0 - 0xF0 = v / 262144 := by omega
        rw [if_pos (by omega), hbits]
  obtain ⟨least, greatest, hfirst, hle, hge⟩ := hfirst
  have hvalue : ((v / 262144 * 64 + (v / 4096 % 0x40 + 0x80 - 0x80)) * 64 +
      (v / 64 % 0x40 + 0x80 - 0x80)) * 64 + (v % 0x40 + 0x80 - 0x80) = v := by omega
  rw [decodeFrom_begin hfirst, decodeFrom_next hle hge,
    decodeFrom_next (by simp) (by simp; omega), decodeFrom_last (by simp) (by simp; omega), hvalue]

/-! ## Texts -/

/-- A character is read from its bytes, whatever stands behind them. -/
theorem decodeFrom_utf8EncodeChar (c : Char) (rest : List UInt8) :
    decodeFrom none (String.utf8EncodeChar c ++ rest) = c :: decodeFrom none rest := by
  have hchar : Char.ofNat c.val.toNat = c := Char.ofNat_toNat c
  have hvalid : c.val.toNat < 0xD800 ∨ 0xDFFF < c.val.toNat ∧ c.val.toNat < 0x110000 := c.valid
  fun_cases String.utf8EncodeChar c with
  | case1 v hone =>
      have hbyte : (UInt8.ofNat v).toNat = v :=
        UInt8.toNat_ofNat_of_lt' (Nat.lt_of_le_of_lt hone (by decide))
      have hascii := decodeUtf8_cons_of_lt (b := .ofNat v) (by omega) rest
      rw [hbyte, hchar] at hascii
      exact hascii
  | case2 v _ htwo => exact (decodeFrom_two (by omega) htwo rest).trans (by rw [hchar])
  | case3 v _ _ hthree =>
      exact (decodeFrom_three (by omega) hthree (by omega) rest).trans (by rw [hchar])
  | case4 v => exact (decodeFrom_four (by omega) (by omega) rest).trans (by rw [hchar])

/-- Decoding undoes encoding, with any bytes behind the text. -/
theorem decodeUtf8_encodeUtf8_append (text : String) (rest : List UInt8) :
    decodeUtf8 (encodeUtf8 text ++ rest) = text.toList ++ decodeUtf8 rest := by
  rw [encodeUtf8, decodeUtf8, decodeUtf8]
  induction text.toList with
  | nil => rfl
  | cons c later ih =>
      rw [List.flatMap_cons, List.append_assoc, decodeFrom_utf8EncodeChar, ih, List.cons_append]

theorem decodeUtf8_encodeUtf8 (text : String) : decodeUtf8 (encodeUtf8 text) = text.toList := by
  have happend := decodeUtf8_encodeUtf8_append text []
  rwa [List.append_nil, decodeUtf8_nil, List.append_nil] at happend

end TapeLang.Text
