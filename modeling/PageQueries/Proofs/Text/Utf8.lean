import PageQueries.Text.Utf8

/-!
# UTF-8 is read back

`encodeChar` writes a character in one to four bytes, by the size of its code
point; `decodeChar` finds the width again from the first byte and reads the
continuation bytes within bounds that keep out needlessly long forms and
surrogates. A character has neither, so every text is read back
(`decode_encode`), and different texts have different bytes
(`encode_injective`).
-/
namespace PageQueries.Utf8

theorem toNat_byte {n : Nat} (h : n < 256) : (byte n).toNat = n := by
  rw [byte, UInt8.toNat_ofNat']; omega

/-- A continuation byte within its bounds adds six bits. -/
theorem continuation_byte {low high n : Nat} (hhigh : high < 0x100)
    (hn : low ≤ n ∧ n ≤ high) (count value width : Nat) (rest : Bytes) :
    continuation (count + 1) low high value width (byte n :: rest)
      = continuation count 0x80 0xbf (value * 0x40 + (n - 0x80)) (width + 1) rest := by
  rw [continuation, toNat_byte (by omega), if_pos hn]

theorem continuation_zero (low high value width : Nat) (rest : Bytes) :
    continuation 0 low high value width rest = .ok (value, rest) := rfl

/-- The bytes of a character are read back, whatever follows them. -/
theorem decodeChar_encodeChar (c : Char) :
    ∃ b bs, encodeChar c = b :: bs ∧ ∀ rest, decodeChar b (bs ++ rest) = .ok (c.toNat, rest) := by
  have hc : c.toNat < 0xd800 ∨ 0xdfff < c.toNat ∧ c.toNat < 0x110000 := c.valid
  generalize hn : c.toNat = n at hc
  simp only [encodeChar, hn]
  by_cases h1 : n < 0x80
  · rw [if_pos h1]
    refine ⟨_, _, rfl, fun rest => ?_⟩
    simp only [decodeChar, toNat_byte (show n < 256 by omega), if_pos h1, List.nil_append]
  by_cases h2 : n < 0x800
  · rw [if_neg h1, if_pos h2]
    refine ⟨_, _, rfl, fun rest => ?_⟩
    simp only [decodeChar, toNat_byte (show 0xc0 + n / 0x40 < 256 by omega), List.cons_append,
      List.nil_append]
    rw [if_neg (by omega), if_neg (by omega), if_pos (by omega),
      continuation_byte (by omega) (by omega), continuation_zero]
    exact congrArg (fun v => Except.ok (v, rest)) (by omega)
  by_cases h3 : n < 0x10000
  · rw [if_neg h1, if_neg h2, if_pos h3]
    refine ⟨_, _, rfl, fun rest => ?_⟩
    simp only [decodeChar, toNat_byte (show 0xe0 + n / 0x1000 < 256 by omega), List.cons_append,
      List.nil_append]
    rw [if_neg (by omega), if_neg (by omega), if_neg (by omega), if_pos (by omega),
      continuation_byte (by split <;> omega)
        (by constructor <;> split <;> omega),
      continuation_byte (by omega) (by omega), continuation_zero]
    exact congrArg (fun v => Except.ok (v, rest)) (by omega)
  · rw [if_neg h1, if_neg h2, if_neg h3]
    refine ⟨_, _, rfl, fun rest => ?_⟩
    simp only [decodeChar, toNat_byte (show 0xf0 + n / 0x40000 < 256 by omega), List.cons_append,
      List.nil_append]
    rw [if_neg (by omega), if_neg (by omega), if_neg (by omega), if_neg (by omega),
      if_pos (by omega), continuation_byte (by split <;> omega)
        (by constructor <;> split <;> omega),
      continuation_byte (by omega) (by omega),
      continuation_byte (by omega) (by omega), continuation_zero]
    exact congrArg (fun v => Except.ok (v, rest)) (by omega)

theorem decodeOf_encode (total : Nat) (t : Text) : decodeOf total (encode t) = .ok t := by
  induction t with
  | nil => rw [encode, List.flatMap_nil, decodeOf]
  | cons c t ih =>
    obtain ⟨b, bs, hb, hd⟩ := decodeChar_encodeChar c
    have he : encode (c :: t) = b :: (bs ++ encode t) := by
      rw [encode, List.flatMap_cons, hb, List.cons_append]; rfl
    rw [he, decodeOf]
    split
    · rename_i h; rw [hd] at h; cases h
    · rename_i n rest h
      rw [hd] at h
      cases h
      rw [ih]
      simp only [Char.ofNat_toNat]

/-- Every text is read back from its bytes. -/
theorem decode_encode (t : Text) : decode (encode t) = .ok t := decodeOf_encode _ t

theorem encode_injective {s t : Text} (h : encode s = encode t) : s = t := by
  have hs := decode_encode s
  rw [h, decode_encode t] at hs
  exact (Except.ok.inj hs).symm

end PageQueries.Utf8
