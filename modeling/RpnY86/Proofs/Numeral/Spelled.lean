import RpnY86.Proofs.Numeral.RoundTrip

/-! # How marked numerals are spelled

`Spelled cs n` says which texts are marked numerals, and for which number each of them stands,
without reading them: by the marks of radices, the characters of digits, and the places where an
underscore may stand. Reading accepts just these texts, as far as their numbers fit
(`readSigned_eq_ok`). -/

namespace RpnY86.Numeral

/-! ### The spelling -/

/-- The character of a digit with value `d`. -/
def IsDigitChar (c : Char) (d : Nat) : Prop :=
  "0123456789abcdef".toList[d]? = some c ∨ "0123456789ABCDEF".toList[d]? = some c

/-- Digits below a radix, at least one. An underscore may stand between two of them. -/
inductive Grouped (radix : Nat) : List Char → List Nat → Prop
  | last {c : Char} {d : Nat} (hc : IsDigitChar c d) (hd : d < radix) : Grouped radix [c] [d]
  | next {c : Char} {d : Nat} {cs : List Char} {ds : List Nat} (hc : IsDigitChar c d)
    (hd : d < radix) (h : Grouped radix cs ds) : Grouped radix (c :: cs) (d :: ds)
  | gap {c : Char} {d : Nat} {cs : List Char} {ds : List Nat} (hc : IsDigitChar c d)
    (hd : d < radix) (h : Grouped radix cs ds) : Grouped radix (c :: '_' :: cs) (d :: ds)

/-- The marks of radices. -/
def marks : List (String × Nat) :=
  [("0x", 16), ("0X", 16), ("0o", 8), ("0O", 8), ("0b", 2), ("0B", 2), ("0", 8)]

/-- A numeral without a sign. Without a mark it is decimal; behind a mark, an underscore may stand,
too. -/
inductive Magnitude : List Char → Nat → Prop
  | zero : Magnitude ['0'] 0
  | decimal {cs : List Char} {ds : List Nat} (hc : cs.head? ≠ some '0') (h : Grouped 10 cs ds) :
    Magnitude cs (Nat.ofDigits 10 ds.reverse)
  | marked {mark : String} {radix : Nat} {cs : List Char} {ds : List Nat}
    (hm : (mark, radix) ∈ marks) (h : Grouped radix cs ds) :
    Magnitude (mark.toList ++ cs) (Nat.ofDigits radix ds.reverse)
  | spaced {mark : String} {radix : Nat} {cs : List Char} {ds : List Nat}
    (hm : (mark, radix) ∈ marks) (h : Grouped radix cs ds) :
    Magnitude (mark.toList ++ '_' :: cs) (Nat.ofDigits radix ds.reverse)

/-- A numeral, perhaps behind a sign. -/
inductive Spelled : List Char → Int → Prop
  | bare {cs : List Char} {n : Nat} (h : Magnitude cs n) : Spelled cs n
  | plus {cs : List Char} {n : Nat} (h : Magnitude cs n) : Spelled ('+' :: cs) n
  | minus {cs : List Char} {n : Nat} (h : Magnitude cs n) : Spelled ('-' :: cs) (-n)

/-! ### Digits -/

variable {radix bound v n : Nat} {cs : List Char} {ds : List Nat}

theorem isDigitChar_iff {c : Char} {d : Nat} (hd : d < 16) :
    IsDigitChar c d ↔ digitValue? c = some d := by
  constructor
  · intro h
    interval_cases d <;> rcases h with h | h <;> cases h <;> rfl
  · intro h
    have hcode : c.toNat = 48 + d ∧ d < 10 ∨ c.toNat = 87 + d ∧ 10 ≤ d ∨
        c.toNat = 55 + d ∧ 10 ≤ d := by
      unfold digitValue? at h
      grind
    have hchar := Char.ofNat_toNat c
    rcases hcode with ⟨hc, hlt⟩ | ⟨hc, hle⟩ | ⟨hc, hle⟩
    · rw [← hchar, hc]
      interval_cases d <;> exact .inl rfl
    · rw [← hchar, hc]
      interval_cases d <;> exact .inl rfl
    · rw [← hchar, hc]
      interval_cases d <;> exact .inr rfl

theorem digitsFrom_eq (radix v : Nat) (ds : List Nat) :
    digitsFrom radix v ds = v * radix ^ ds.length + Nat.ofDigits radix ds.reverse := by
  induction ds generalizing v with
  | nil => simp [digitsFrom]
  | cons d ds ih =>
    change digitsFrom radix (v * radix + d) ds = _
    rw [ih, List.reverse_cons, Nat.ofDigits_append, Nat.ofDigits_singleton, List.length_reverse,
      List.length_cons, pow_succ]
    ring

theorem ofDigits_eq_digitsFrom (radix : Nat) (ds : List Nat) :
    Nat.ofDigits radix ds.reverse = digitsFrom radix 0 ds := by
  rw [digitsFrom_eq, Nat.zero_mul, Nat.zero_add]

/-! ### Reading digits -/

theorem IsDigitChar.ne_underscore {c : Char} {d : Nat} (h : IsDigitChar c d) (hd : d < 16) :
    c ≠ '_' := by
  rintro rfl
  have hvalue := (isDigitChar_iff hd).1 h
  cases hvalue

theorem readDigits_cons {c : Char} {d : Nat} (hc : IsDigitChar c d) (hd : d < radix)
    (hr : radix ≤ 16) (hle : v * radix + d ≤ bound) :
    readDigits radix bound true v (c :: cs) = readDigits radix bound true (v * radix + d) cs := by
  have hlt : d < 16 := Nat.lt_of_lt_of_le hd hr
  have hne : c ≠ '_' := hc.ne_underscore hlt
  rw [readDigits, if_neg (by simp [hne]), (isDigitChar_iff hlt).1 hc]
  dsimp only
  rw [if_neg (Nat.not_le.2 hd), if_neg (Nat.not_lt.2 hle)]

theorem Grouped.readDigits_eq (h : Grouped radix cs ds) (hr : radix ≤ 16)
    (hle : digitsFrom radix v ds ≤ bound) :
    readDigits radix bound true v cs = .ok (digitsFrom radix v ds) := by
  induction h generalizing v with
  | last hc hd =>
    rw [readDigits_cons hc hd hr hle]
    rfl
  | next hc hd _ ih =>
    have hpos : 0 < radix := Nat.zero_lt_of_lt hd
    rw [readDigits_cons hc hd hr (Nat.le_trans (le_digitsFrom hpos _ _) hle)]
    exact ih hle
  | gap hc hd _ ih =>
    have hpos : 0 < radix := Nat.zero_lt_of_lt hd
    rw [readDigits_cons hc hd hr (Nat.le_trans (le_digitsFrom hpos _ _) hle)]
    exact ih hle

theorem Grouped.ne_nil (h : Grouped radix cs ds) : cs ≠ [] := by
  cases h <;> exact List.cons_ne_nil _ _

theorem Grouped.gapsPlaced_eq (h : Grouped radix cs ds) (hr : radix ≤ 16) (b : Bool) :
    gapsPlaced b cs = true := by
  induction h generalizing b with
  | last hc hd =>
    rw [gapsPlaced, if_neg (by simp [hc.ne_underscore (by omega)])]
    rfl
  | next hc hd _ ih =>
    rw [gapsPlaced, if_neg (by simp [hc.ne_underscore (by omega)])]
    exact ih true
  | gap hc hd hrest ih =>
    rw [gapsPlaced, if_neg (by simp [hc.ne_underscore (by omega)])]
    simp [gapsPlaced, hrest.ne_nil, ih false]

/-- Behind an underscore in its place there is more, and no second one. -/
theorem rest_of_gap {b : Bool} (h : gapsPlaced b ('_' :: cs) = true) :
    cs ≠ [] ∧ cs.head? ≠ some '_' ∧ gapsPlaced false cs = true := by
  simp only [gapsPlaced, BEq.rfl, if_true, Bool.and_eq_true] at h
  obtain ⟨⟨-, hne⟩, hgaps⟩ := h
  refine ⟨by simpa using hne, fun hhead => ?_, hgaps⟩
  obtain ⟨rest, rfl⟩ := List.head?_eq_some_iff.1 hhead
  cases hgaps

/-- What is read, with underscores in their places, is spelled. -/
theorem exists_grouped (hr : radix ≤ 16) {b : Bool}
    (hread : readDigits radix bound true v cs = .ok n) (hgaps : gapsPlaced b cs = true)
    (hne : cs ≠ []) (hhead : cs.head? ≠ some '_') :
    ∃ ds, Grouped radix cs ds ∧ n = digitsFrom radix v ds := by
  induction hlength : cs.length using Nat.strong_induction_on generalizing cs v b with
  | _ length ih =>
    obtain ⟨c, rest, rfl⟩ := List.exists_cons_of_ne_nil hne
    have hc : c ≠ '_' := fun hc => hhead (by rw [hc]; rfl)
    rw [gapsPlaced, if_neg (by simp [hc])] at hgaps
    rw [readDigits, if_neg (by simp [hc])] at hread
    cases hd : digitValue? c with
    | none =>
      rw [hd] at hread
      cases hread
    | some d =>
      rw [hd] at hread
      dsimp only at hread
      split_ifs at hread with hradix hbound
      have hlt : d < radix := Nat.not_le.1 hradix
      have hchar : IsDigitChar c d := (isDigitChar_iff (by omega)).2 hd
      rcases rest with _ | ⟨c', rest⟩
      · cases hread
        exact ⟨[d], .last hchar hlt, rfl⟩
      · by_cases hc' : c' = '_'
        · subst hc'
          obtain ⟨hnil, hhead', hgaps'⟩ := rest_of_gap hgaps
          have hread' : readDigits radix bound true (v * radix + d) rest = .ok n := hread
          obtain ⟨ds, hds, hn⟩ := ih rest.length (by simp at hlength; omega) hread' hgaps' hnil
            hhead' rfl
          exact ⟨d :: ds, .gap hchar hlt hds, hn⟩
        · obtain ⟨ds, hds, hn⟩ := ih (c' :: rest).length (by simp at hlength ⊢; omega) hread
            hgaps (List.cons_ne_nil _ _) (by simpa using hc') rfl
          exact ⟨d :: ds, .next hchar hlt hds, hn⟩

theorem le_of_readDigits {gaps : Bool} (h : readDigits radix bound gaps v cs = .ok n)
    (hv : v ≤ bound) : n ≤ bound := by
  induction cs generalizing v with
  | nil =>
    cases h
    exact hv
  | cons c cs ih =>
    rw [readDigits] at h
    split_ifs at h with hgap
    · exact ih h hv
    · cases hd : digitValue? c with
      | none =>
        rw [hd] at h
        cases h
      | some d =>
        rw [hd] at h
        dsimp only at h
        split_ifs at h with hradix hbound
        exact ih h (Nat.not_lt.1 hbound)

/-! ### Numerals without a sign -/

theorem radix_le_of_mem_marks {mark : String} (h : (mark, radix) ∈ marks) : radix ≤ 16 := by
  simp only [marks, List.mem_cons, Prod.mk.injEq, List.not_mem_nil, or_false] at h
  omega

theorem radixOfMark?_of_grouped {c : Char} (h : Grouped 8 cs ds) (hc : cs.head? = some c) :
    radixOfMark? c = none := by
  have hdigit : ∃ d, IsDigitChar c d ∧ d < 8 := by
    cases h <;> cases hc <;> exact ⟨_, ‹_›, ‹_›⟩
  obtain ⟨d, hd, hlt⟩ := hdigit
  interval_cases d <;> rcases hd with hd | hd <;> cases hd <;> rfl

/-- Behind a mark stands the body. The mark `0` ends where no letter of another mark follows. -/
theorem splitMark_append {mark : String} (h : (mark, radix) ∈ marks) {body : List Char}
    (hne : body ≠ []) (hzero : mark = "0" → ∀ c, body.head? = some c → radixOfMark? c = none) :
    splitMark (mark.toList ++ body) = (radix, body) ∧
      wellSpaced (mark.toList ++ body) = gapsPlaced true body := by
  obtain ⟨c, rest, rfl⟩ := List.exists_cons_of_ne_nil hne
  simp only [marks, List.mem_cons, Prod.mk.injEq, List.not_mem_nil, or_false] at h
  rcases h with ⟨rfl, rfl⟩ | ⟨rfl, rfl⟩ | ⟨rfl, rfl⟩ | ⟨rfl, rfl⟩ | ⟨rfl, rfl⟩ | ⟨rfl, rfl⟩ |
    ⟨rfl, rfl⟩
  iterate 6 exact ⟨rfl, rfl⟩
  have hc : radixOfMark? c = none := hzero rfl c rfl
  change splitMark ('0' :: c :: rest) = _ ∧ wellSpaced ('0' :: c :: rest) = _
  rw [wellSpaced, hc]
  rcases rest with _ | ⟨c', rest⟩
  · exact ⟨rfl, rfl⟩
  · rw [splitMark, hc]
    exact ⟨rfl, rfl⟩

theorem exists_mark {m : Char} (h : radixOfMark? m = some radix) :
    ∃ mark : String, (mark, radix) ∈ marks ∧ mark.toList = ['0', m] := by
  refine ⟨String.ofList ['0', m], ?_, String.toList_ofList⟩
  unfold radixOfMark? at h
  simp only [Bool.or_eq_true, beq_iff_eq] at h
  split_ifs at h with hm hm hm
  all_goals
    cases h
    rcases hm with rfl | rfl <;> decide

theorem Magnitude.of_readDigits {mark : String} (hm : (mark, radix) ∈ marks) {body : List Char}
    (hne : body ≠ []) (hread : readDigits radix bound true 0 body = .ok n)
    (hgaps : gapsPlaced true body = true) : Magnitude (mark.toList ++ body) n := by
  have hr : radix ≤ 16 := radix_le_of_mem_marks hm
  by_cases hhead : body.head? = some '_'
  · obtain ⟨rest, rfl⟩ : ∃ rest, body = '_' :: rest := by
      rcases body with _ | ⟨c, rest⟩
      · cases hhead
      · cases hhead
        exact ⟨rest, rfl⟩
    obtain ⟨hnil, hhead', hgaps'⟩ := rest_of_gap hgaps
    have hread' : readDigits radix bound true 0 rest = .ok n := hread
    obtain ⟨ds, hds, rfl⟩ := exists_grouped hr hread' hgaps' hnil hhead'
    rw [← ofDigits_eq_digitsFrom]
    exact .spaced hm hds
  · obtain ⟨ds, hds, rfl⟩ := exists_grouped hr hread hgaps hne hhead
    rw [← ofDigits_eq_digitsFrom]
    exact .marked hm hds

theorem readUnsigned_marked {bits : Nat} (hne : cs ≠ []) :
    readUnsigned .marked bits cs = .ok n ↔
      readDigits (splitMark cs).1 (2 ^ bits - 1) true 0 (splitMark cs).2 = .ok n ∧
        wellSpaced cs = true := by
  have hempty : cs.isEmpty = false := by simpa using hne
  unfold readUnsigned
  rw [hempty, Nat.one_shiftLeft]
  change (readDigits (splitMark cs).1 (2 ^ bits - 1) true 0 (splitMark cs).2 >>= fun value =>
    if wellSpaced cs = true then .ok value else .error .malformed) = .ok n ↔ _
  constructor
  · intro h
    obtain ⟨value, hvalue, h⟩ := bind_eq_ok.1 h
    split_ifs at h with hspaced
    cases h
    exact ⟨hvalue, hspaced⟩
  · rintro ⟨hvalue, hspaced⟩
    rw [hvalue, hspaced]
    rfl

theorem readUnsigned_append {bits : Nat} {mark : String} (hm : (mark, radix) ∈ marks)
    {body : List Char} (hne : body ≠ [])
    (hzero : mark = "0" → ∀ c, body.head? = some c → radixOfMark? c = none) :
    readUnsigned .marked bits (mark.toList ++ body) = .ok n ↔
      readDigits radix (2 ^ bits - 1) true 0 body = .ok n ∧ gapsPlaced true body = true := by
  obtain ⟨hsplit, hspaced⟩ := splitMark_append hm hne hzero
  rw [readUnsigned_marked (List.append_ne_nil_of_right_ne_nil _ hne), hsplit, hspaced]

/-- What is read behind a leading zero: the body of a mark with a letter, or octal digits. -/
theorem Magnitude.of_leading_zero {m : Char} {rest : List Char}
    (hread : readDigits (splitMark ('0' :: m :: rest)).1 bound true 0
      (splitMark ('0' :: m :: rest)).2 = .ok n)
    (hspaced : wellSpaced ('0' :: m :: rest) = true) : Magnitude ('0' :: m :: rest) n := by
  cases hm : radixOfMark? m with
  | none =>
    have hsplit : splitMark ('0' :: m :: rest) = (8, m :: rest) := by
      rcases rest with _ | ⟨c, rest⟩
      · rfl
      · rw [splitMark, hm]
    rw [hsplit] at hread
    rw [wellSpaced, hm] at hspaced
    have hzero : ("0", 8) ∈ marks := by decide
    exact .of_readDigits hzero (List.cons_ne_nil _ _) hread hspaced
  | some radix =>
    rcases rest with _ | ⟨c, rest⟩
    · -- a letter of a mark that nothing follows is read as an octal digit, and is none
      have hne : m ≠ '_' := by
        rintro rfl
        cases hm
      have hgaps : gapsPlaced true [m] = true := by simp [gapsPlaced, hne]
      have hread' : readDigits 8 bound true 0 [m] = .ok n := hread
      obtain ⟨ds, hds, -⟩ := exists_grouped (by omega) hread' hgaps (List.cons_ne_nil _ _)
        (by simpa using hne)
      have hnone := radixOfMark?_of_grouped hds rfl
      rw [hm] at hnone
      cases hnone
    · obtain ⟨mark, hmark, htext⟩ := exists_mark hm
      rw [wellSpaced, hm] at hspaced
      rw [splitMark, hm] at hread
      have hbody := Magnitude.of_readDigits hmark (List.cons_ne_nil _ _) hread hspaced
      rwa [htext] at hbody

theorem magnitude_of_readUnsigned {bits : Nat} (h : readUnsigned .marked bits cs = .ok n) :
    Magnitude cs n ∧ n < 2 ^ bits := by
  have hne : cs ≠ [] := by
    rintro rfl
    cases h
  obtain ⟨hread, hspaced⟩ := (readUnsigned_marked hne).1 h
  have hlt : n < 2 ^ bits := by
    have hpos : 0 < 2 ^ bits := Nat.two_pow_pos bits
    have hle := le_of_readDigits hread (Nat.zero_le _)
    omega
  refine ⟨?_, hlt⟩
  obtain ⟨c, rest, rfl⟩ := List.exists_cons_of_ne_nil hne
  by_cases hc : c = '0'
  · subst hc
    rcases rest with _ | ⟨m, rest⟩
    · cases hread
      exact .zero
    · exact .of_leading_zero hread hspaced
  · rw [splitMark_of_head hc] at hread
    rw [wellSpaced_of_head hc] at hspaced
    have hhead : c ≠ '_' := by
      rintro rfl
      cases hspaced
    obtain ⟨ds, hds, rfl⟩ := exists_grouped (by omega) hread hspaced hne (by simpa using hhead)
    rw [← ofDigits_eq_digitsFrom]
    exact .decimal (by simpa using hc) hds

/-- **Reading a numeral without a sign accepts just what is spelled and fits.** -/
theorem readUnsigned_eq_ok {bits : Nat} :
    readUnsigned .marked bits cs = .ok n ↔ Magnitude cs n ∧ n < 2 ^ bits := by
  refine ⟨magnitude_of_readUnsigned, fun ⟨h, hlt⟩ => ?_⟩
  cases h with
  | zero => rfl
  | @decimal _ ds hc hds =>
    obtain ⟨c, rest, rfl⟩ := List.exists_cons_of_ne_nil hds.ne_nil
    have hc' : c ≠ '0' := by simpa using hc
    rw [ofDigits_eq_digitsFrom] at hlt ⊢
    rw [readUnsigned_marked hds.ne_nil, splitMark_of_head hc', wellSpaced_of_head hc']
    exact ⟨hds.readDigits_eq (by omega) (by omega), hds.gapsPlaced_eq (by omega) false⟩
  | @marked mark radix body ds hm hds =>
    have hr : radix ≤ 16 := radix_le_of_mem_marks hm
    have hzero : mark = "0" → ∀ c, body.head? = some c → radixOfMark? c = none := by
      rintro rfl c hc
      obtain rfl : radix = 8 := by simpa [marks] using hm
      exact radixOfMark?_of_grouped hds hc
    rw [ofDigits_eq_digitsFrom] at hlt ⊢
    exact (readUnsigned_append hm hds.ne_nil hzero).2
      ⟨hds.readDigits_eq hr (by omega), hds.gapsPlaced_eq hr true⟩
  | @spaced mark radix body ds hm hds =>
    have hr : radix ≤ 16 := radix_le_of_mem_marks hm
    have hzero : mark = "0" → ∀ c, ('_' :: body).head? = some c → radixOfMark? c = none := by
      rintro - c ⟨⟩
      rfl
    have hgaps : gapsPlaced true ('_' :: body) = true := by
      simp [gapsPlaced, hds.ne_nil, hds.gapsPlaced_eq hr false]
    rw [ofDigits_eq_digitsFrom] at hlt ⊢
    exact (readUnsigned_append hm (List.cons_ne_nil _ _) hzero).2
      ⟨hds.readDigits_eq hr (by omega), hgaps⟩

/-! ### Numerals with a sign -/

theorem readUnsigned_bind_withSign {bits : Nat} (hbits : 0 < bits) {negative : Bool} {k : Int} :
    readUnsigned .marked bits cs >>= withSign bits negative = .ok k ↔
      (∃ m, Magnitude cs m ∧ k = signed negative m) ∧ -2 ^ (bits - 1) ≤ k ∧
        k < 2 ^ (bits - 1) := by
  rw [bind_eq_ok]
  constructor
  · rintro ⟨m, hm, hk⟩
    obtain ⟨hk, hbounds⟩ := withSign_eq_ok.1 hk
    exact ⟨⟨m, (readUnsigned_eq_ok.1 hm).1, hk⟩, hbounds⟩
  · rintro ⟨⟨m, hm, hk⟩, hbounds⟩
    refine ⟨m, readUnsigned_eq_ok.2 ⟨hm, ?_⟩, withSign_eq_ok.2 ⟨hk, hbounds⟩⟩
    have hcast : ((2 ^ (bits - 1) : Nat) : Int) = 2 ^ (bits - 1) := by norm_cast
    have hdouble : 2 ^ bits = 2 * 2 ^ (bits - 1) := by
      rw [← pow_succ', Nat.sub_add_cancel hbits]
    unfold signed at hk
    split_ifs at hk <;> omega

theorem Magnitude.isDigit_head {c : Char} (h : Magnitude (c :: cs) n) : c.isDigit = true :=
  isDigit_of_readUnsigned (readUnsigned_eq_ok.2 ⟨h, Nat.lt_two_pow_self⟩)

theorem spelled_minus {k : Int} :
    Spelled ('-' :: cs) k ↔ ∃ m, Magnitude cs m ∧ k = signed true m := by
  constructor
  · intro h
    cases h with
    | bare h => cases h.isDigit_head
    | minus h => exact ⟨_, h, rfl⟩
  · rintro ⟨m, h, rfl⟩
    exact .minus h

theorem spelled_plus {k : Int} :
    Spelled ('+' :: cs) k ↔ ∃ m, Magnitude cs m ∧ k = signed false m := by
  constructor
  · intro h
    cases h with
    | bare h => cases h.isDigit_head
    | plus h => exact ⟨_, h, rfl⟩
  · rintro ⟨m, h, rfl⟩
    exact .plus h

theorem spelled_bare {k : Int} (hminus : cs.head? ≠ some '-') (hplus : cs.head? ≠ some '+') :
    Spelled cs k ↔ ∃ m, Magnitude cs m ∧ k = signed false m := by
  constructor
  · intro h
    cases h with
    | bare h => exact ⟨_, h, rfl⟩
    | plus h => exact absurd rfl hplus
    | minus h => exact absurd rfl hminus
  · rintro ⟨m, h, rfl⟩
    exact .bare h

/-- **Reading a numeral accepts just what is spelled and fits.** -/
theorem readSigned_eq_ok {bits : Nat} (hbits : 0 < bits) {k : Int} :
    readSigned .marked bits cs = .ok k ↔
      Spelled cs k ∧ -2 ^ (bits - 1) ≤ k ∧ k < 2 ^ (bits - 1) := by
  unfold readSigned
  split
  · rw [readUnsigned_bind_withSign hbits, spelled_minus]
  · rw [readUnsigned_bind_withSign hbits, spelled_plus]
  · rename_i hminus hplus
    rw [readUnsigned_bind_withSign hbits, spelled_bare]
    · intro h
      obtain ⟨rest, rfl⟩ := List.head?_eq_some_iff.1 h
      exact hminus rest rfl
    · intro h
      obtain ⟨rest, rfl⟩ := List.head?_eq_some_iff.1 h
      exact hplus rest rfl

theorem exists_readSigned_eq_error {bits : Nat} (hbits : 0 < bits) :
    (∃ e, readSigned .marked bits cs = .error e) ↔
      ∀ k, Spelled cs k → k < -2 ^ (bits - 1) ∨ 2 ^ (bits - 1) ≤ k := by
  constructor
  · rintro ⟨e, he⟩ k hk
    by_contra hfits
    rw [not_or, Int.not_lt, Int.not_le] at hfits
    rw [(readSigned_eq_ok hbits).2 ⟨hk, hfits⟩] at he
    cases he
  · intro h
    cases hread : readSigned .marked bits cs with
    | error e => exact ⟨e, rfl⟩
    | ok k =>
      obtain ⟨hk, hmin, hmax⟩ := (readSigned_eq_ok hbits).1 hread
      have := h k hk
      omega

end RpnY86.Numeral
