import RpnY86.Text.Glyph

/-! # Decoding loses nothing

`encode_decode` says that the glyphs of a byte sequence have the bytes of the sequence, whether it
is UTF-8 or not. The step to it is `encodeChar_leadingChar?`: a character is decoded only from its
own bytes. -/

namespace RpnY86.Text

/-- A byte that continues a character is made from its payload. -/
theorem eq_of_continuation? {b : UInt8} {x : Nat} (h : continuation? b = some x) :
    x < 64 ∧ b.toNat = 0x80 + x := by
  simp only [continuation?, Bool.and_eq_true, decide_eq_true_eq, UInt8.le_iff_toNat_le,
    UInt8.lt_iff_toNat_lt, Option.ite_none_right_eq_some, Option.some.injEq] at h
  have h1 : (0x80 : UInt8).toNat = 0x80 := rfl
  have h2 : (0xc0 : UInt8).toNat = 0xc0 := rfl
  omega

theorem toNat_scalar? {least n : Nat} {c : Char} (h : scalar? least n = some c) :
    least ≤ n ∧ c.val.toNat = n := by
  simp only [scalar?, Bool.and_eq_true, Bool.not_eq_true', decide_eq_true_eq,
    Option.ite_none_right_eq_some, Option.some.injEq, Bool.and_eq_false_iff,
    decide_eq_false_iff_not] at h
  obtain ⟨⟨⟨h1, h2⟩, h3⟩, rfl⟩ := h
  refine ⟨h1, ?_⟩
  have hv : n.isValidChar := by unfold Nat.isValidChar; omega
  rw [Char.ofNat, dif_pos hv]
  rfl

theorem ofNat_eq_of_toNat {b : UInt8} {n : Nat} (h : b.toNat = n) : UInt8.ofNat n = b := by
  rw [← h, UInt8.ofNat_toNat]

/-- The bytes of a decoded character are those that it was read from. -/
theorem encodeChar_leadingChar? {b : UInt8} {bs : List UInt8} {c : Char}
    (h : leadingChar? b bs = some c) :
    String.utf8EncodeChar c ++ bs.drop (c.utf8Size - 1) = b :: bs := by
  simp only [leadingChar?, UInt8.lt_iff_toNat_lt] at h
  have h80 : (0x80 : UInt8).toNat = 0x80 := rfl
  have hc2 : (0xc2 : UInt8).toNat = 0xc2 := rfl
  have he0 : (0xe0 : UInt8).toNat = 0xe0 := rfl
  have hf0 : (0xf0 : UInt8).toNat = 0xf0 := rfl
  have hf5 : (0xf5 : UInt8).toNat = 0xf5 := rfl
  rw [h80, hc2, he0, hf0, hf5] at h
  rw [← String.length_utf8EncodeChar]
  split at h
  · obtain rfl := Option.some.inj h
    have hn : (Char.ofNat b.toNat).val.toNat = b.toNat := by
      have hv : b.toNat.isValidChar := by unfold Nat.isValidChar; omega
      rw [Char.ofNat, dif_pos hv]
      rfl
    simp only [String.utf8EncodeChar, hn]
    rw [if_pos (by omega), UInt8.ofNat_toNat]
    rfl
  split at h
  · cases h
  split at h
  · split at h
    · rename_i b₁ rest
      simp only [Option.bind_eq_bind, Option.bind_eq_some_iff] at h
      obtain ⟨x, hx, h⟩ := h
      obtain ⟨hx, hb₁⟩ := eq_of_continuation? hx
      obtain ⟨hl, hn⟩ := toNat_scalar? h
      simp only [String.utf8EncodeChar, hn]
      rw [if_neg (by omega), if_pos (by omega), ofNat_eq_of_toNat (b := b) (by omega),
        ofNat_eq_of_toNat (b := b₁) (by omega)]
      rfl
    · cases h
  split at h
  · split at h
    · rename_i b₁ b₂ rest
      simp only [Option.bind_eq_bind, Option.bind_eq_some_iff] at h
      obtain ⟨x, hx, y, hy, h⟩ := h
      obtain ⟨hx, hb₁⟩ := eq_of_continuation? hx
      obtain ⟨hy, hb₂⟩ := eq_of_continuation? hy
      obtain ⟨hl, hn⟩ := toNat_scalar? h
      simp only [String.utf8EncodeChar, hn]
      rw [if_neg (by omega), if_neg (by omega), if_pos (by omega),
        ofNat_eq_of_toNat (b := b) (by omega), ofNat_eq_of_toNat (b := b₁) (by omega),
        ofNat_eq_of_toNat (b := b₂) (by omega)]
      rfl
    · cases h
  split at h
  · split at h
    · rename_i b₁ b₂ b₃ rest
      simp only [Option.bind_eq_bind, Option.bind_eq_some_iff] at h
      obtain ⟨x, hx, y, hy, z, hz, h⟩ := h
      obtain ⟨hx, hb₁⟩ := eq_of_continuation? hx
      obtain ⟨hy, hb₂⟩ := eq_of_continuation? hy
      obtain ⟨hz, hb₃⟩ := eq_of_continuation? hz
      obtain ⟨hl, hn⟩ := toNat_scalar? h
      simp only [String.utf8EncodeChar, hn]
      rw [if_neg (by omega), if_neg (by omega), if_neg (by omega),
        ofNat_eq_of_toNat (b := b) (by omega), ofNat_eq_of_toNat (b := b₁) (by omega),
        ofNat_eq_of_toNat (b := b₂) (by omega),
        ofNat_eq_of_toNat (b := b₃) (by omega)]
      rfl
    · cases h
  · cases h

theorem encode_decodeAfter (done : Array Glyph) (skip : Nat) (bs : List UInt8) :
    encode (decodeAfter done skip bs).toList = encode done.toList ++ bs.drop skip := by
  fun_induction decodeAfter done skip bs with
  | case1 => simp
  | case2 done skip b bs ih => simpa using ih
  | case3 done b bs c hc ih =>
    rw [ih, ← encodeChar_leadingChar? hc]
    simp [encode, Glyph.bytes]
  | case4 done b bs hc ih =>
    rw [ih]
    simp [encode, Glyph.bytes]

/-- The bytes of decoded text are those that were decoded. -/
theorem encode_decode (bs : List UInt8) : encode (decode bs) = bs := by
  simpa [decode, encode] using encode_decodeAfter #[] 0 bs

end RpnY86.Text
