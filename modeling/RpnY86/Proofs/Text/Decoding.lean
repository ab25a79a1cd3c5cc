import Mathlib
import RpnY86.Text.Glyph.Lemmas

/-! # Decoding is exact

`Decodes bs t` says what it means to read the bytes `bs` as UTF-8: a character is read from its own
bytes, and a byte that starts no character is read alone. The decoder does just that
(`decodes_decode`). It never reads a character from other bytes (`encodeChar_leadingChar?`), and it
misses none (`leadingChar?_of_encode`), so that the bytes of characters are read as these characters
(`decode_encode_ofString`). -/

namespace RpnY86.Text

/-- Bytes read as UTF-8, where each byte that starts no character stands alone. -/
inductive Decodes : List UInt8 → Text → Prop
  | nil : Decodes [] []
  | char (c : Char) {bs : List UInt8} {t : Text} (h : Decodes bs t) :
    Decodes (String.utf8EncodeChar c ++ bs) (.char c :: t)
  | stray {b : UInt8} {bs : List UInt8} {t : Text}
    (hb : ∀ c rest, String.utf8EncodeChar c ++ rest ≠ b :: bs) (h : Decodes bs t) :
    Decodes (b :: bs) (.stray b :: t)

/-! ### Reading a character back -/

theorem continuation?_ofNat (n : Nat) :
    continuation? (UInt8.ofNat (n % 0x40 + 0x80)) = some (n % 0x40) := by
  have h : (UInt8.ofNat (n % 0x40 + 0x80)).toNat = n % 0x40 + 0x80 := by
    rw [UInt8.toNat_ofNat']
    omega
  have h80 : (0x80 : UInt8).toNat = 0x80 := rfl
  have hc0 : (0xc0 : UInt8).toNat = 0xc0 := rfl
  unfold continuation?
  rw [if_pos, h, Nat.add_sub_cancel]
  simp only [Bool.and_eq_true, decide_eq_true_eq, UInt8.le_iff_toNat_le, UInt8.lt_iff_toNat_lt]
  omega

theorem scalar?_val {least : Nat} {c : Char} (h : least ≤ c.val.toNat) :
    scalar? least c.val.toNat = some c := by
  have hv : c.val.toNat.isValidChar := c.valid
  have hc : Char.ofNat c.val.toNat = c := by
    rw [Char.ofNat, dif_pos hv]
    rfl
  unfold Nat.isValidChar at hv
  unfold scalar?
  rw [hc, if_pos]
  simp only [Bool.and_eq_true, Bool.not_eq_true', Bool.and_eq_false_iff, decide_eq_true_eq,
    decide_eq_false_iff_not]
  omega

/-- **No character is missed**: bytes that start with those of a character are read as it. -/
theorem leadingChar?_of_encode {c : Char} {b : UInt8} {bs rest : List UInt8}
    (h : String.utf8EncodeChar c ++ rest = b :: bs) : leadingChar? b bs = some c := by
  have h80 : (0x80 : UInt8).toNat = 0x80 := rfl
  have hc2 : (0xc2 : UInt8).toNat = 0xc2 := rfl
  have he0 : (0xe0 : UInt8).toNat = 0xe0 := rfl
  have hf0 : (0xf0 : UInt8).toNat = 0xf0 := rfl
  have hf5 : (0xf5 : UInt8).toNat = 0xf5 := rfl
  have hv : c.val.toNat.isValidChar := c.valid
  unfold Nat.isValidChar at hv
  -- the first byte says how many bytes there are
  have hfirst (n : Nat) (hn : n < 256) : (UInt8.ofNat n).toNat = n := by
    rw [UInt8.toNat_ofNat']
    omega
  simp only [leadingChar?, UInt8.lt_iff_toNat_lt, h80, hc2, he0, hf0, hf5]
  unfold String.utf8EncodeChar at h
  dsimp only at h
  split at h
  · simp only [List.cons_append, List.nil_append, List.cons.injEq] at h
    obtain ⟨rfl, rfl⟩ := h
    rw [hfirst _ (by omega), if_pos (by omega), Char.ofNat, dif_pos c.valid]
    rfl
  split at h
  · simp only [List.cons_append, List.nil_append, List.cons.injEq] at h
    obtain ⟨rfl, rfl⟩ := h
    rw [hfirst _ (by omega), if_neg (by omega), if_neg (by omega), if_pos (by omega)]
    simp only [continuation?_ofNat, Option.bind_eq_bind, Option.bind_some]
    rw [show (c.val.toNat / 64 % 0x20 + 0xc0 - 0xc0) * 64 + c.val.toNat % 0x40 = c.val.toNat by
      omega]
    exact scalar?_val (by omega)
  split at h
  · simp only [List.cons_append, List.nil_append, List.cons.injEq] at h
    obtain ⟨rfl, rfl⟩ := h
    rw [hfirst _ (by omega), if_neg (by omega), if_neg (by omega), if_neg (by omega),
      if_pos (by omega)]
    simp only [continuation?_ofNat, Option.bind_eq_bind, Option.bind_some]
    rw [show ((c.val.toNat / 4096 % 0x10 + 0xe0 - 0xe0) * 64 + c.val.toNat / 64 % 0x40) * 64 +
      c.val.toNat % 0x40 = c.val.toNat by omega]
    exact scalar?_val (by omega)
  · simp only [List.cons_append, List.nil_append, List.cons.injEq] at h
    obtain ⟨rfl, rfl⟩ := h
    rw [hfirst _ (by omega), if_neg (by omega), if_neg (by omega), if_neg (by omega),
      if_neg (by omega), if_pos (by omega)]
    simp only [continuation?_ofNat, Option.bind_eq_bind, Option.bind_some]
    rw [show (((c.val.toNat / 262144 % 0x08 + 0xf0 - 0xf0) * 64 + c.val.toNat / 4096 % 0x40) * 64 +
      c.val.toNat / 64 % 0x40) * 64 + c.val.toNat % 0x40 = c.val.toNat by omega]
    exact scalar?_val (by omega)

/-! ### The decoder -/

/-- Behind the glyphs that are done, the decoder adds those of the bytes that are left. -/
theorem exists_decodeAfter (done : Array Glyph) (skip : Nat) (bs : List UInt8) :
    ∃ t, (decodeAfter done skip bs).toList = done.toList ++ t ∧ Decodes (bs.drop skip) t := by
  fun_induction decodeAfter done skip bs with
  | case1 done skip => exact ⟨[], by simp, by simpa using .nil⟩
  | case2 done skip b bs ih => exact ih
  | case3 done b bs c hc ih =>
    obtain ⟨t, ht, hd⟩ := ih
    refine ⟨.char c :: t, by simp [ht], ?_⟩
    rw [List.drop_zero, ← encodeChar_leadingChar? hc]
    exact .char c hd
  | case4 done b bs hb ih =>
    obtain ⟨t, ht, hd⟩ := ih
    refine ⟨.stray b :: t, by simp [ht], .stray (fun c rest h => ?_) hd⟩
    rw [leadingChar?_of_encode h] at hb
    cases hb

/-- **Decoding is exact.** -/
theorem decodes_decode (bs : List UInt8) : Decodes bs (decode bs) := by
  obtain ⟨t, ht, hd⟩ := exists_decodeAfter #[] 0 bs
  have h : decode bs = t := ht
  rw [h]
  exact hd

/-! ### Characters -/

theorem utf8EncodeChar_append_ne_nil (c : Char) (bs : List UInt8) :
    String.utf8EncodeChar c ++ bs ≠ [] := by
  intro h
  have hlength := String.length_utf8EncodeChar c
  have hpos := c.utf8Size_pos
  rw [(List.append_eq_nil_iff.1 h).1, List.length_nil] at hlength
  omega

theorem utf8EncodeChar_append_inj {c d : Char} {bs bs' : List UInt8}
    (h : String.utf8EncodeChar c ++ bs = String.utf8EncodeChar d ++ bs') : c = d ∧ bs = bs' := by
  obtain ⟨b, rest, hd⟩ := List.exists_cons_of_ne_nil (utf8EncodeChar_append_ne_nil d bs')
  have hc := leadingChar?_of_encode (h.trans hd)
  obtain rfl := Option.some.inj (hc.symm.trans (leadingChar?_of_encode hd))
  exact ⟨rfl, List.append_cancel_left h⟩

theorem Decodes.eq_map_char {cs : List Char} {bs : List UInt8} {t : Text} (h : Decodes bs t)
    (hbs : bs = encode (cs.map .char)) : t = cs.map .char := by
  induction cs generalizing bs t with
  | nil =>
    cases h with
    | nil => rfl
    | char c h => exact absurd hbs (utf8EncodeChar_append_ne_nil c _)
    | stray hb h => cases hbs
  | cons c cs ih =>
    have hcons : encode ((c :: cs).map .char) =
        String.utf8EncodeChar c ++ encode (cs.map .char) := rfl
    rw [hcons] at hbs
    cases h with
    | nil => exact absurd hbs.symm (utf8EncodeChar_append_ne_nil c _)
    | char d h =>
      obtain ⟨rfl, hrest⟩ := utf8EncodeChar_append_inj hbs
      rw [ih h hrest, List.map_cons]
    | stray hb h => exact absurd hbs.symm (hb c _)

/-- **Characters are read back.** -/
theorem decode_encode_ofString (s : String) : decode (encode (.ofString s)) = .ofString s :=
  (decodes_decode _).eq_map_char rfl

end RpnY86.Text
