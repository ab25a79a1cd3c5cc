import RpnY86.Assembly.Image
import RpnY86.Proofs.Numeral.Spelled
import RpnY86.Proofs.Y86.Signed

/-! # How mnemonics and operands are written

The names of instructions and registers are two tables, and `Writes labels t o` says that a text
stands for an operand: a register by its name in any case, a word by a numeral or by a label, a
place in memory by a base in parentheses behind an optional displacement. The assembler reads just
these texts, as these operands (`register_eq_ok`, `word_eq_ok`, `place_eq_ok`), so a text stands for
at most one operand of a kind (`Writes.unique`). -/

namespace RpnY86.Assembly

open Y86 (Reg)

/-! ### Operands -/

/-- An operand of a statement. -/
inductive Operand where
  | register (r : Reg)
  | word (v : UInt32)
  /-- The memory at a displacement from a base. -/
  | place (d : UInt32) (base : Reg)
deriving DecidableEq, Repr

/-- A kind of operands. -/
inductive Operand.Kind where
  | register
  | word
  | place
deriving DecidableEq, Repr

/-- The kind of an operand. -/
def Operand.kind : Operand → Operand.Kind
  | .register _ => .register
  | .word _ => .word
  | .place .. => .place

/-! ### Names -/

/-- The names of instructions. -/
def mnemonicNames : List (String × Mnemonic) :=
  [("halt", .halt), ("nop", .nop), ("ret", .ret), ("pushl", .push), ("popl", .pop),
   ("call", .call), ("irmovl", .constant), ("rmmovl", .store), ("mrmovl", .load),
   ("addl", .alu .add), ("subl", .alu .sub), ("andl", .alu .and), ("xorl", .alu .xor),
   ("rrmovl", .move .always), ("cmovle", .move .le), ("cmovl", .move .l), ("cmove", .move .e),
   ("cmovne", .move .ne), ("cmovge", .move .ge), ("cmovg", .move .g), ("jmp", .jump .always),
   ("jle", .jump .le), ("jl", .jump .l), ("je", .jump .e), ("jne", .jump .ne), ("jge", .jump .ge),
   ("jg", .jump .g)]

/-- The names of registers. -/
def registerNames : List (String × Reg) :=
  [("%eax", .eax), ("%ecx", .ecx), ("%edx", .edx), ("%ebx", .ebx), ("%esp", .esp), ("%ebp", .ebp),
   ("%esi", .esi), ("%edi", .edi)]

/-- The names of directives. -/
def directiveNames : List String := [".pos", ".align", ".long"]

/-- `c` can be written for `d`. Beside the capital letters there are two characters beyond ASCII
that have a small letter of ASCII as their lower case: a capital `i` with a dot and the sign of the
unit kelvin. -/
def Folds (c d : Char) : Prop :=
  c = d ∨ c = d.toUpper ∨ (c.toNat = 0x130 ∧ d = 'i') ∨ (c.toNat = 0x212a ∧ d = 'k')

instance (c d : Char) : Decidable (Folds c d) :=
  inferInstanceAs (Decidable
    (c = d ∨ c = d.toUpper ∨ (c.toNat = 0x130 ∧ d = 'i') ∨ (c.toNat = 0x212a ∧ d = 'k')))

/-! ### Texts of operands -/

/-- An operand without the dollar sign that it may begin with. -/
def bare : Text → Text
  | .char '$' :: rest => rest
  | operand => operand

/-- A text stands for a register. -/
def WritesRegister (t : Text) (r : Reg) : Prop :=
  ∃ name, (name, r) ∈ registerNames ∧ List.Forall₂ Folds (Text.chars t) name.toList

/-- Characters stand for a word: a numeral for its number modulo `2 ^ 32`, any other text for the
address of a label. Numbers from `-2 ^ 31` up to `2 ^ 32` have a word. -/
inductive NamesWord (labels : LabelTable) (cs : List Char) (v : UInt32) : Prop
  | number {n : Int} (h : Numeral.Spelled cs n) (hmin : -2 ^ 31 ≤ n) (hmax : n < 2 ^ 32)
    (hv : (v.toNat : Int) = n % 2 ^ 32)
  | label (hno : ∀ n, Numeral.Spelled cs n → n < -2 ^ 63 ∨ 2 ^ 63 ≤ n)
    (h : labels.address? (String.ofList cs) = some v)

/-- A text stands for an operand. -/
inductive Writes (labels : LabelTable) : Text → Operand → Prop
  | register {t : Text} {r : Reg} (h : WritesRegister t r) : Writes labels t (.register r)
  | word {t : Text} {v : UInt32} (h : NamesWord labels (Text.chars (bare t)) v) :
    Writes labels t (.word v)
  | base {t : Text} {r : Reg} (h : WritesRegister t r) :
    Writes labels (.char '(' :: t ++ [.char ')']) (.place 0 r)
  | displaced {u t : Text} {d : UInt32} {r : Reg} (hne : u ≠ []) (hopen : .char '(' ∉ u)
    (hd : NamesWord labels (Text.chars (bare u)) d) (h : WritesRegister t r) :
    Writes labels (u ++ .char '(' :: t ++ [.char ')']) (.place d r)

/-! ### Reading names -/

/-- A table of names says what looking up a name finds. -/
theorem mem_table_iff {α : Type} {all : List α} {name : α → String} {table : List (String × α)}
    (hfound : ∀ p ∈ table, all.find? (name · == p.1) = some p.2)
    (hlisted : ∀ a ∈ all, (name a, a) ∈ table) {s : String} {a : α} :
    (s, a) ∈ table ↔ all.find? (name · == s) = some a := by
  constructor
  · intro h
    exact hfound _ h
  · intro h
    have hname : name a = s := by simpa using List.find?_some h
    rw [← hname]
    exact hlisted a (List.mem_of_find?_eq_some h)

theorem mem_mnemonicNames {name : String} {m : Mnemonic} :
    (name, m) ∈ mnemonicNames ↔ Mnemonic.ofName? name = some m :=
  mem_table_iff (by decide) (by decide)

theorem mem_registerNames {name : String} {r : Reg} :
    (name, r) ∈ registerNames ↔ Reg.ofName? name = some r :=
  mem_table_iff (by decide) (by decide)

theorem ofName?_of_not_mem_directiveNames {name : String} (h : name ∉ directiveNames) :
    Keyword.ofName? name = (Mnemonic.ofName? name).map .instruction := by
  simp only [directiveNames, List.mem_cons, List.not_mem_nil, or_false, not_or] at h
  obtain ⟨hpos, halign, hlong⟩ := h
  exact (if_neg hpos).trans ((if_neg halign).trans (if_neg hlong))

theorem lowerCode_cases (n : Nat) (runs : List Text.CaseRun) :
    Text.lowerCode n runs = n ∨
      ∃ r ∈ runs, r.first ≤ n ∧ n ≤ r.last ∧ Text.lowerCode n runs = (n + r.shift).toNat := by
  induction runs with
  | nil => exact .inl rfl
  | cons r runs ih =>
    have hlater : Text.lowerCode n runs = n ∨
        ∃ s ∈ r :: runs, s.first ≤ n ∧ n ≤ s.last ∧ Text.lowerCode n runs = (n + s.shift).toNat :=
      ih.imp_right fun ⟨s, hs, hrun⟩ => ⟨s, List.mem_cons_of_mem r hs, hrun⟩
    rw [Text.lowerCode]
    split_ifs with hlt hle hmod
    · exact .inl rfl
    · exact .inr ⟨r, List.mem_cons_self .., Nat.not_lt.1 hlt, hle, rfl⟩
    · exact hlater
    · exact hlater

theorem forall_ascii {P : Char → Prop} (h : ∀ n < 128, P (Char.ofNat n)) {c : Char}
    (hc : c.toNat < 128) : P c := by
  rw [← Char.ofNat_toNat c]
  exact h c.toNat hc

/-- A character of a name: one of ASCII, and no capital letter. -/
def IsNameChar (d : Char) : Prop := 0 < d.toNat ∧ d.toNat < 128 ∧ d.isUpper = false

instance (d : Char) : Decidable (IsNameChar d) :=
  inferInstanceAs (Decidable (0 < d.toNat ∧ d.toNat < 128 ∧ d.isUpper = false))

theorem folds_of_toLower {c d : Char} (hd : IsNameChar d) (h : Text.toLower c = d) : Folds c d := by
  obtain ⟨hpos, hlt, -⟩ := hd
  subst h
  unfold Text.toLower at hpos hlt ⊢
  split_ifs at hpos hlt ⊢ with hc
  · exact forall_ascii (P := fun c => Folds c c.toLower) (by decide) hc
  · -- beyond ASCII, just two runs of the table lead back into it
    have hruns : ∀ r ∈ Text.caseRuns, 128 ≤ r.first + r.shift ∨
        (r.first = 0x130 ∧ r.last = 0x130 ∧ r.shift = -199) ∨
        (r.first = 0x212a ∧ r.last = 0x212a ∧ r.shift = -8383) := by decide +kernel
    rw [Char.toNat_ofNat] at hpos hlt
    split_ifs at hpos hlt
    case neg => omega
    rcases lowerCode_cases c.toNat Text.caseRuns with heq | ⟨r, hr, hfirst, hlast, heq⟩
    · omega
    · rw [heq] at hlt ⊢
      rcases hruns r hr with hle | ⟨hfrom, hto, hshift⟩ | ⟨hfrom, hto, hshift⟩
      · omega
      · have hcode : c.toNat = 0x130 := by omega
        rw [hcode, hshift]
        exact .inr (.inr (.inl ⟨hcode, rfl⟩))
      · have hcode : c.toNat = 0x212a := by omega
        rw [hcode, hshift]
        exact .inr (.inr (.inr ⟨hcode, rfl⟩))

theorem toLower_of_folds {c d : Char} (hd : IsNameChar d) (h : Folds c d) :
    Text.toLower c = d := by
  obtain ⟨-, hlt, hupper⟩ := hd
  rcases h with rfl | rfl | ⟨hc, rfl⟩ | ⟨hc, rfl⟩
  · rw [Text.toLower, if_pos hlt]
    exact forall_ascii (P := fun c => c.isUpper = false → c.toLower = c) (by decide) hlt hupper
  · have hsmall := forall_ascii (P := fun c => c.toUpper.toNat < 128) (by decide) hlt
    rw [Text.toLower, if_pos hsmall]
    exact forall_ascii (P := fun c => c.isUpper = false → c.toUpper.toLower = c) (by decide) hlt
      hupper
  · rw [Text.toLower, hc, if_neg (by decide)]
    decide +kernel
  · rw [Text.toLower, hc, if_neg (by decide)]
    decide +kernel

/-- Lower case gives a name just if each character can be written for the one of the name. -/
theorem lowered_eq_iff {t : Text} {name : String} (hname : ∀ d ∈ name.toList, IsNameChar d) :
    lowered t = name ↔ List.Forall₂ Folds (Text.chars t) name.toList := by
  rw [lowered, ← String.toList_inj, String.toList_ofList]
  generalize name.toList = ds at hname
  generalize Text.chars t = cs
  induction ds generalizing cs with
  | nil => simp
  | cons d ds ih =>
    obtain ⟨hd, hds⟩ := List.forall_mem_cons.1 hname
    cases cs with
    | nil => simp
    | cons c cs =>
      rw [List.map_cons, List.cons.injEq, List.forall₂_cons, ih hds]
      exact and_congr_left' ⟨folds_of_toLower hd, toLower_of_folds hd⟩

theorem isNameChar_of_mem_registerNames {name : String} {r : Reg}
    (h : (name, r) ∈ registerNames) : ∀ d ∈ name.toList, IsNameChar d := by
  have hall : ∀ p ∈ registerNames, ∀ d ∈ p.1.toList, IsNameChar d := by
    simp [registerNames, IsNameChar]
  exact hall _ h

/-! ### Reading operands -/

variable {l : Line} {labels : LabelTable} {t : Text} {r : Reg} {v d : UInt32}

theorem register_eq_ok : l.register t = .ok r ↔ WritesRegister t r := by
  have hname : l.register t = .ok r ↔ Reg.ofName? (lowered t) = some r := by
    unfold Line.register
    cases Reg.ofName? (lowered t) with
    | none => exact ⟨nofun, nofun⟩
    | some r' => simp
  rw [hname, ← mem_registerNames]
  constructor
  · intro h
    exact ⟨_, h, (lowered_eq_iff (isNameChar_of_mem_registerNames h)).1 rfl⟩
  · rintro ⟨name, h, hfolds⟩
    rwa [(lowered_eq_iff (isNameChar_of_mem_registerNames h)).2 hfolds]

theorem bare_of_head (h : t.head? ≠ some (.char '$')) : bare t = t := by
  unfold bare
  split
  · exact absurd rfl h
  · rfl

theorem word_eq (l : Line) (operand : Text) :
    l.word labels operand =
      match Numeral.readSigned .marked 64 (Text.chars (bare operand)) with
      | .ok n =>
        if -2 ^ 31 ≤ n ∧ n < 2 ^ 32 then .ok (UInt32.ofInt n) else l.fail (.immediateRange operand)
      | .error _ =>
        match labels.address? (Text.toString (bare operand)) with
        | some address => .ok address
        | none =>
          if isIdentifier (Text.chars (bare operand)) then l.fail (.undefinedLabel (bare operand))
          else l.fail (.invalidImmediate operand) := by
  unfold Line.word
  split
  · rfl
  · rename_i hx
    have hb : bare operand = operand := bare_of_head fun h0 => by
      obtain ⟨rest, hrest⟩ := List.head?_eq_some_iff.1 h0
      exact hx rest hrest
    exact hb.symm ▸ rfl

theorem eq_ofInt_iff {n : Int} : v = UInt32.ofInt n ↔ (v.toNat : Int) = n % 2 ^ 32 := by
  have hmod : 0 ≤ n % 2 ^ 32 := Int.emod_nonneg n (by decide)
  rw [← UInt32.toNat_inj, Y86.toNat_ofInt]
  omega

theorem word_eq_ok : l.word labels t = .ok v ↔ NamesWord labels (Text.chars (bare t)) v := by
  rw [word_eq]
  constructor
  · intro h
    cases hread : Numeral.readSigned .marked 64 (Text.chars (bare t)) with
    | ok n =>
      rw [hread] at h
      dsimp only at h
      split_ifs at h with hrange
      · cases h
        exact .number ((Numeral.readSigned_eq_ok (by omega)).1 hread).1 hrange.1 hrange.2
          (eq_ofInt_iff.1 rfl)
      · cases h
    | error e =>
      rw [hread] at h
      refine .label ((Numeral.exists_readSigned_eq_error (by omega)).1 ⟨e, hread⟩) ?_
      dsimp only at h
      split at h
      · cases h
        assumption
      · split_ifs at h <;> cases h
  · intro h
    cases h with
    | @number n hn hmin hmax hv =>
      rw [(Numeral.readSigned_eq_ok (by omega)).2 ⟨hn, by omega, by omega⟩]
      dsimp only
      rw [if_pos ⟨hmin, hmax⟩, eq_ofInt_iff.2 hv]
    | label hno haddress =>
      obtain ⟨e, hread⟩ : ∃ e, Numeral.readSigned .marked 64 (Text.chars (bare t)) = .error e :=
        (Numeral.exists_readSigned_eq_error (by omega)).2 hno
      rw [hread]
      dsimp only
      rw [Text.toString, haddress]

theorem split_place {u : Text} (hu : .char '(' ∉ u) (base : Text) :
    (u ++ .char '(' :: base).takeWhile (!·.is '(') = u ∧
      (u ++ .char '(' :: base).dropWhile (!·.is '(') = .char '(' :: base := by
  have hall : ∀ g ∈ u, (!g.is '(') = true := by
    intro g hg
    have hne : g ≠ .char '(' := ne_of_mem_of_not_mem hg hu
    simpa [Glyph.is] using hne
  constructor
  · rw [List.takeWhile_append_of_pos hall]
    simp [Glyph.is]
  · rw [List.dropWhile_append_of_pos hall]
    simp [Glyph.is]

theorem place_of_split {u base : Text} (hu : .char '(' ∉ u) :
    l.place labels (u ++ .char '(' :: base ++ [.char ')']) = l.register base >>= fun r =>
      (if u.isEmpty then .ok 0 else l.word labels u) >>= fun d => .ok (d, r) := by
  have happend : u ++ .char '(' :: base ++ [.char ')'] =
      u ++ .char '(' :: (base ++ [.char ')']) := by simp
  obtain ⟨htake, hdrop⟩ := split_place hu (base ++ [.char ')'])
  unfold Line.place
  rw [happend, htake, hdrop]
  dsimp only
  rw [if_pos (by simp), List.dropLast_concat]
  cases u <;> rfl

theorem exists_of_place (h : l.place labels t = .ok (d, r)) :
    ∃ u base, .char '(' ∉ u ∧ t = u ++ .char '(' :: base ++ [.char ')'] := by
  unfold Line.place at h
  have hsplit : t.takeWhile (!·.is '(') ++ t.dropWhile (!·.is '(') = t :=
    List.takeWhile_append_dropWhile
  have hopen : .char '(' ∉ t.takeWhile (!·.is '(') := by
    intro hmem
    have := List.mem_takeWhile_imp hmem
    simp [Glyph.is] at this
  cases hrest : t.dropWhile (!·.is '(') with
  | nil =>
    rw [hrest] at h
    cases h
  | cons g rest =>
    rw [hrest] at h hsplit
    have hg : g = .char '(' := by
      have hhead := List.head?_dropWhile_not (!·.is '(') t
      rw [hrest] at hhead
      simpa [Glyph.is] using hhead
    by_cases hlast : rest.getLast? = some (.char ')')
    · obtain ⟨base, rfl⟩ := List.getLast?_eq_some_iff.1 hlast
      refine ⟨_, base, hopen, ?_⟩
      rw [hg] at hsplit
      simpa using hsplit.symm
    · dsimp only at h
      rw [if_neg hlast] at h
      cases h

theorem place_eq_ok : l.place labels t = .ok (d, r) ↔ Writes labels t (.place d r) := by
  constructor
  · intro h
    obtain ⟨u, base, hu, rfl⟩ := exists_of_place h
    rw [place_of_split hu] at h
    obtain ⟨r', hr, h⟩ := bind_eq_ok.1 h
    obtain ⟨d', hd, h⟩ := bind_eq_ok.1 h
    cases h
    cases u with
    | nil =>
      cases hd
      exact .base (register_eq_ok.1 hr)
    | cons g u =>
      exact .displaced (List.cons_ne_nil g u) hu (word_eq_ok.1 hd) (register_eq_ok.1 hr)
  · intro h
    cases h with
    | @base base _ hr =>
      change l.place labels ([] ++ .char '(' :: base ++ [.char ')']) = _
      rw [place_of_split List.not_mem_nil, register_eq_ok.2 hr]
      rfl
    | @displaced u base _ _ hne hu hd hr =>
      have hempty : u.isEmpty = false := by simpa using hne
      rw [place_of_split hu, register_eq_ok.2 hr, hempty, word_eq_ok.2 hd]
      rfl

/-- Reads an operand of a kind. -/
def Line.operand (l : Line) (labels : LabelTable) (t : Text) : Operand.Kind → Except Error Operand
  | .register => .register <$> l.register t
  | .word => .word <$> l.word labels t
  | .place => (fun (d, r) => .place d r) <$> l.place labels t

/-- **An operand is read just if the text stands for it.** -/
theorem operand_eq_ok {kind : Operand.Kind} {o : Operand} :
    l.operand labels t kind = .ok o ↔ Writes labels t o ∧ o.kind = kind := by
  cases kind with
  | register =>
    rw [Line.operand, map_eq_ok]
    constructor
    · rintro ⟨r, hr, rfl⟩
      exact ⟨.register (register_eq_ok.1 hr), rfl⟩
    · rintro ⟨h, hkind⟩
      cases h with
      | register h => exact ⟨_, register_eq_ok.2 h, rfl⟩
      | word | base | displaced => cases hkind
  | word =>
    rw [Line.operand, map_eq_ok]
    constructor
    · rintro ⟨v, hv, rfl⟩
      exact ⟨.word (word_eq_ok.1 hv), rfl⟩
    · rintro ⟨h, hkind⟩
      cases h with
      | word h => exact ⟨_, word_eq_ok.2 h, rfl⟩
      | register | base | displaced => cases hkind
  | place =>
    rw [Line.operand, map_eq_ok]
    constructor
    · rintro ⟨⟨d, r⟩, hplace, rfl⟩
      exact ⟨place_eq_ok.1 hplace, rfl⟩
    · rintro ⟨h, hkind⟩
      cases o with
      | place d r => exact ⟨(d, r), place_eq_ok.2 h, rfl⟩
      | register | word => cases hkind

theorem Writes.unique {o o' : Operand} (h : Writes labels t o) (h' : Writes labels t o')
    (hkind : o.kind = o'.kind) : o = o' := by
  have hread := (operand_eq_ok (l := ⟨0, [], none, []⟩)).2 ⟨h, hkind⟩
  rw [operand_eq_ok.2 ⟨h', rfl⟩] at hread
  exact (Except.ok.inj hread).symm

theorem forall₂_writes_unique {ts : List Text} {os os' : List Operand}
    (h : List.Forall₂ (Writes labels) ts os) (h' : List.Forall₂ (Writes labels) ts os')
    (hkinds : os.map Operand.kind = os'.map Operand.kind) : os = os' := by
  induction h generalizing os' with
  | nil =>
    cases h'
    rfl
  | cons ho _ ih =>
    cases h' with
    | cons ho' hos' =>
      obtain ⟨hkind, hkinds⟩ := List.cons.inj hkinds
      rw [ho.unique ho' hkind, ih hos' hkinds]

end RpnY86.Assembly
