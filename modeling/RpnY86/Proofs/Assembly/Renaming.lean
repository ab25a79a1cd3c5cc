import RpnY86.Proofs.Assembly.Chunks
import RpnY86.Proofs.Assembly.Identifiers

/-! # Renaming labels

A renaming takes identifiers to identifiers, different ones to different ones. In a line it changes
the labels, and in the operands every reference to a label: an identifier, perhaps behind a dollar
sign, perhaps in front of a base register in parentheses.

An operand that does not refer to a label stays as it is, and one that does is a `Mention`, of which
nothing but the label changes (`Renaming.operand_cases`). A mention is never read as a number or as
a register, whatever its label is. So each reader gives the same for an operand and for the renamed
one, up to the texts that its errors show, and so do both passes (`Renames.locate`, `agree_emit`).
-/

namespace RpnY86.Assembly

/-! ### Errors without their texts -/

/-- A problem without the texts that it shows. -/
def Problem.kind : Problem → Problem
  | .invalidLabel _ => .invalidLabel []
  | .duplicateLabel _ => .duplicateLabel ""
  | .directiveValue d _ => .directiveValue d []
  | .invalidRegister _ => .invalidRegister []
  | .invalidMemory _ => .invalidMemory []
  | .immediateRange _ => .immediateRange []
  | .undefinedLabel _ => .undefinedLabel []
  | .invalidImmediate _ => .invalidImmediate []
  | p => p

/-- The line of an error, and the kind of its problem. -/
def Error.kind (e : Error) : Error := { e with problem := e.problem.kind }

/-- Two results that differ at most in what is left out of their errors. -/
def Agree {ε δ α : Type} (kind : ε → δ) (x y : Except ε α) : Prop :=
  x.mapError kind = y.mapError kind

namespace Agree

variable {ε δ α β : Type} {kind : ε → δ} {x y : Except ε α}

theorem refl (x : Except ε α) : Agree kind x x := rfl

theorem bind {f g : α → Except ε β} (h : Agree kind x y) (hf : ∀ a, Agree kind (f a) (g a)) :
    Agree kind (x >>= f) (y >>= g) := by
  cases x with
  | error e =>
    cases y with
    | error e' => exact congrArg Except.error (Except.error.inj h)
    | ok b => cases h
  | ok a =>
    cases y with
    | error e' => cases h
    | ok b =>
      obtain rfl := Except.ok.inj h
      exact hf a

theorem map (f : α → β) (h : Agree kind x y) : Agree kind (f <$> x) (f <$> y) := by
  cases x with
  | error e =>
    cases y with
    | error e' => exact congrArg Except.error (Except.error.inj h)
    | ok b => cases h
  | ok a =>
    cases y with
    | error e' => cases h
    | ok b =>
      obtain rfl := Except.ok.inj h
      rfl

theorem mapError {x y : Except Error α} (h : Agree Error.kind x y) :
    Agree (Interruption.map Error.kind) (x.mapError .error) (y.mapError .error) := by
  cases x with
  | error e =>
    cases y with
    | error e' => exact congrArg (Except.error ∘ Interruption.error) (Except.error.inj h)
    | ok b => cases h
  | ok a =>
    cases y with
    | error e' => cases h
    | ok b =>
      obtain rfl := Except.ok.inj h
      rfl

end Agree

/-! ### Renamings -/

/-- A renaming of identifiers. -/
abbrev Renaming : Type := Identifier ↪ Identifier

/-- The dollar sign that an operand may begin with. -/
def sign : Text → Text
  | .char '$' :: _ => [.char '$']
  | _ => []

namespace Renaming

variable (ρ : Renaming)

/-- The new name of a label. -/
def name (s : String) : String :=
  if h : isIdentifier s.toList = true then (ρ ⟨s, h⟩).name else s

/-- An identifier is replaced by its new name. Any other text stays as it is. -/
def identifier (t : Text) : Text :=
  if isIdentifier (Text.chars t) then .ofString (ρ.name (Text.toString t)) else t

/-- The identifier behind a dollar sign is replaced, and so is one without it. -/
def reference (t : Text) : Text := sign t ++ ρ.identifier (bare t)

/-- What stands in front of a parenthesis is replaced. -/
def operand (t : Text) : Text :=
  ρ.reference (t.takeWhile (!·.is '(')) ++ t.dropWhile (!·.is '(')

/-- A line with its labels and its references replaced. -/
def line (l : Line) : Line :=
  { l with labels := l.labels.map ρ.name, operands := l.operands.map ρ.operand }

theorem name_name (i : Identifier) : ρ.name i.name = (ρ i).name := dif_pos i.property

theorem identifier_text (i : Identifier) : ρ.identifier i.text = (ρ i).text := by
  have hname : Text.toString i.text = i.name := by
    rw [Text.toString, i.chars_text, String.ofList_toList]
  rw [identifier, i.chars_text, if_pos (by exact i.property), hname, name_name]
  rfl

end Renaming

/-! ### Mentions -/

/-- A text that refers to a label. -/
structure Mention where
  dollar : Bool
  label : Identifier
  rest : Text
  rest_head : ∀ g ∈ rest.head?, g = .char '('

namespace Mention

/-- The text of a mention. -/
def text (m : Mention) : Text :=
  (if m.dollar then [.char '$'] else []) ++ (m.label.text ++ m.rest)

/-- The mention of the renamed label. -/
def rename (ρ : Renaming) (m : Mention) : Mention := { m with label := ρ m.label }

variable (m : Mention)

theorem bare_text : bare m.text = m.label.text ++ m.rest := by
  cases hdollar : m.dollar with
  | true =>
    rw [text, hdollar]
    rfl
  | false =>
    have htext : m.text = m.label.text ++ m.rest := by
      rw [text, hdollar]
      rfl
    rw [htext]
    refine bare_of_head fun h => ?_
    rw [List.head?_append_of_ne_nil _ m.label.text_ne_nil] at h
    have hno := m.label.is_of_mem_text (d := '$') rfl _ (List.mem_of_mem_head? h)
    rw [Glyph.is, beq_self_eq_true] at hno
    cases hno

/-- A mention begins with a dollar sign or like an identifier. -/
theorem exists_chars :
    ∃ c cs, Text.chars m.text = c :: cs ∧ (c = '$' ∨ isIdentifierStart c = true) := by
  cases hdollar : m.dollar with
  | true =>
    rw [text, hdollar]
    exact ⟨'$', _, rfl, .inl rfl⟩
  | false =>
    obtain ⟨c, cs, hname, hc⟩ := m.label.exists_cons
    refine ⟨c, cs ++ Text.chars m.rest, ?_, .inr hc⟩
    have htext : m.text = m.label.text ++ m.rest := by
      rw [text, hdollar]
      rfl
    have hchars : Text.chars m.label.text = c :: cs := m.label.chars_text.trans hname
    rw [htext, Text.chars, List.map_append, ← Text.chars, hchars]
    rfl

theorem text_ne_nil : m.text ≠ [] := by
  obtain ⟨c, cs, h, -⟩ := m.exists_chars
  intro hnil
  rw [hnil] at h
  cases h

/-- No mention is a register. -/
theorem register (l : Line) : l.register m.text = l.fail (.invalidRegister m.text) := by
  obtain ⟨c, cs, h, hc⟩ := m.exists_chars
  have hne : c ≠ '%' := by
    rcases hc with rfl | hc
    · decide
    · exact ne_of_isIdentifierStart hc rfl
  have hhead : (Text.chars m.text).head? ≠ some '%' := by
    rw [h]
    exact fun h0 => hne (Option.some.inj h0)
  rw [Line.register, ofName?_lowered_eq_none hhead]

theorem exists_readUnsigned_error (bits : Nat) :
    ∃ e, Numeral.readUnsigned .marked bits (Text.chars m.text) = .error e := by
  obtain ⟨c, cs, h, hc⟩ := m.exists_chars
  have hdigit : c.isDigit = false := by
    rcases hc with rfl | hc
    · rfl
    · exact isDigit_of_isIdentifierStart hc
  rw [h]
  exact Numeral.exists_readUnsigned_error hdigit bits cs

theorem chars_bare : Text.chars (bare m.text) = m.label.name.toList ++ Text.chars m.rest := by
  rw [m.bare_text, Text.chars, List.map_append, ← Text.chars, m.label.chars_text]
  rfl

theorem bare_of_rest_eq (h : m.rest = []) :
    Text.toString (bare m.text) = m.label.name ∧
      isIdentifier (Text.chars (bare m.text)) = true := by
  have hchars : Text.chars (bare m.text) = m.label.name.toList := by
    rw [m.chars_bare, h]
    exact List.append_nil _
  rw [Text.toString, hchars, String.ofList_toList]
  exact ⟨rfl, m.label.property⟩

theorem isIdentifier_of_rest_ne (h : m.rest ≠ []) :
    isIdentifier (Text.chars (bare m.text)) = false := by
  obtain ⟨g, rest, hrest⟩ := List.exists_cons_of_ne_nil h
  have hg : g = .char '(' := m.rest_head g (by rw [hrest]; rfl)
  rw [m.bare_text]
  refine isIdentifier_of_mem_chars (d := '(') rfl (List.mem_append_right _ ?_)
  rw [hrest, hg]
  exact List.mem_cons_self ..

/-- A mention is looked up among the labels. -/
theorem word_eq_lookup (l : Line) (labels : LabelTable) :
    l.word labels m.text = (labels.address? (Text.toString (bare m.text))).elim
      (if isIdentifier (Text.chars (bare m.text)) then l.fail (.undefinedLabel (bare m.text))
        else l.fail (.invalidImmediate m.text)) .ok := by
  obtain ⟨e, he⟩ := m.label.exists_readSigned_error 64 (Text.chars m.rest)
  rw [word_eq, m.chars_bare, he]
  cases labels.address? (Text.toString (bare m.text)) <;> rfl

end Mention

/-! ### Operands -/

section operands

variable (ρ : Renaming) (t : Text)

theorem sign_cases :
    (∃ rest, t = .char '$' :: rest) ∨ (sign t = [] ∧ t.head? ≠ some (.char '$')) := by
  by_cases h : t.head? = some (.char '$')
  · exact .inl (List.head?_eq_some_iff.1 h)
  · refine .inr ⟨?_, h⟩
    unfold sign
    split
    · exact absurd rfl h
    · rfl

theorem sign_append_bare : sign t ++ bare t = t := by
  rcases sign_cases t with ⟨rest, rfl⟩ | ⟨hsign, hhead⟩
  · rfl
  · rw [hsign, bare_of_head hhead, List.nil_append]

theorem identifier_eq_self {t : Text} (h : isIdentifier (Text.chars t) = false) :
    ρ.identifier t = t := by
  rw [Renaming.identifier, h, if_neg Bool.false_ne_true]

theorem head_dropWhile : ∀ g ∈ (t.dropWhile (!·.is '(')).head?, g = .char '(' := by
  intro g hg
  have hno := List.head?_dropWhile_not (!·.is '(') t
  rw [Option.mem_def.1 hg] at hno
  simpa [Glyph.is] using hno

/-- **What renaming does to an operand.** If it mentions a label, it mentions the renamed one
instead. If not, it stays as it is and is no identifier. -/
theorem Renaming.operand_cases :
    (∃ m : Mention, t = m.text ∧ ρ.operand t = (m.rename ρ).text) ∨
      (ρ.operand t = t ∧ isIdentifier (Text.chars (bare t)) = false) := by
  let d := t.takeWhile (!·.is '(')
  let r := t.dropWhile (!·.is '(')
  have ht : t = sign d ++ (bare d ++ r) := by
    rw [← List.append_assoc, sign_append_bare]
    exact List.takeWhile_append_dropWhile.symm
  have hoperand : ρ.operand t = sign d ++ (ρ.identifier (bare d) ++ r) := List.append_assoc ..
  have hhead : ∀ g ∈ r.head?, g = .char '(' := head_dropWhile t
  cases hid : isIdentifier (Text.chars (bare d)) with
  | true =>
    obtain ⟨i, hi⟩ := exists_text_of_isIdentifier hid
    rw [hi] at ht hoperand
    rw [ρ.identifier_text] at hoperand
    left
    rcases sign_cases d with ⟨rest, hd⟩ | ⟨hsign, -⟩
    · rw [hd] at ht hoperand
      exact ⟨⟨true, i, r, hhead⟩, ht, hoperand⟩
    · rw [hsign] at ht hoperand
      exact ⟨⟨false, i, r, hhead⟩, ht, hoperand⟩
  | false =>
    rw [identifier_eq_self ρ hid] at hoperand
    right
    refine ⟨hoperand.trans ht.symm, ?_⟩
    have hbare : bare t = bare d ++ r := by
      rcases sign_cases d with ⟨rest, hd⟩ | ⟨hsign, hne⟩
      · rw [ht, hd]
        rfl
      · rw [ht, hsign, bare_of_head hne, List.nil_append]
        refine bare_of_head fun h => ?_
        rw [List.head?_append, Option.or_eq_some_iff] at h
        rcases h with h | ⟨-, h⟩
        · exact hne h
        · cases hhead _ h
    rw [hbare]
    by_cases hr : r = []
    · rw [hr, List.append_nil, hid]
    · obtain ⟨g, rest, hr⟩ := List.exists_cons_of_ne_nil hr
      have hg : g = .char '(' := hhead g (by rw [hr]; rfl)
      refine isIdentifier_of_mem_chars (d := '(') rfl (List.mem_append_right _ ?_)
      rw [hr, hg]
      exact List.mem_cons_self ..

theorem is_of_mem_reference {d : Text} (hd : ∀ g ∈ d, g.is '(' = false) :
    ∀ g ∈ ρ.reference d, g.is '(' = false := by
  rw [← sign_append_bare d, List.forall_mem_append] at hd
  refine List.forall_mem_append.2 ⟨hd.1, ?_⟩
  cases hid : isIdentifier (Text.chars (bare d)) with
  | true =>
    obtain ⟨i, hi⟩ := exists_text_of_isIdentifier hid
    rw [hi, ρ.identifier_text]
    exact (ρ i).is_of_mem_text rfl
  | false =>
    rw [identifier_eq_self ρ hid]
    exact hd.2

/-- A renamed operand is cut at the same place. -/
theorem cut_operand :
    (ρ.operand t).takeWhile (!·.is '(') = ρ.operand (t.takeWhile (!·.is '(')) ∧
      (ρ.operand t).dropWhile (!·.is '(') = t.dropWhile (!·.is '(') := by
  let d := t.takeWhile (!·.is '(')
  let r := t.dropWhile (!·.is '(')
  have hd : ∀ g ∈ d, (!g.is '(') = true := fun g hg =>
    List.mem_takeWhile_imp (p := fun g : Glyph => !g.is '(') hg
  have hfree : ∀ g ∈ ρ.reference d, (!g.is '(') = true := by
    intro g hg
    rw [is_of_mem_reference ρ (fun g hg => by simpa using hd g hg) g hg]
    rfl
  have hself : ρ.operand d = ρ.reference d := by
    rw [Renaming.operand, List.takeWhile_eq_self_iff.2 hd, List.dropWhile_eq_nil_iff.2 hd,
      List.append_nil]
  have hr : r.takeWhile (!·.is '(') = [] ∧ r.dropWhile (!·.is '(') = r := by
    have hhead : ∀ g ∈ r.head?, g = .char '(' := head_dropWhile t
    cases hr : r with
    | nil => exact ⟨rfl, rfl⟩
    | cons g rest =>
      obtain rfl := hhead g (by rw [hr]; rfl)
      exact ⟨rfl, rfl⟩
  change (ρ.reference d ++ r).takeWhile _ = ρ.operand d ∧ (ρ.reference d ++ r).dropWhile _ = r
  rw [hself, List.takeWhile_append_of_pos hfree, List.dropWhile_append_of_pos hfree, hr.1, hr.2]
  exact ⟨List.append_nil _, rfl⟩

theorem isEmpty_operand : (ρ.operand t).isEmpty = t.isEmpty := by
  rcases ρ.operand_cases t with ⟨m, ht, hoperand⟩ | ⟨hoperand, -⟩
  · rw [hoperand, ht, List.isEmpty_eq_false_iff.2 m.text_ne_nil,
      List.isEmpty_eq_false_iff.2 (m.rename ρ).text_ne_nil]
  · rw [hoperand]

end operands

/-! ### Labels -/

/-- A table that has the renamed labels of another one. All labels are identifiers. -/
structure Renames (ρ : Renaming) (t u : LabelTable) : Prop where
  known : ∀ i : Identifier, u.address? (ρ i).name = t.address? i.name
  old : ∀ name, isIdentifier name.toList = false → t.address? name = none
  new : ∀ name, isIdentifier name.toList = false → u.address? name = none

theorem address?_cons (name other : String) (a : UInt32) (t : LabelTable) :
    LabelTable.address? ((name, a) :: t) other =
      if other = name then some a else t.address? other := by
  rw [LabelTable.address?, List.lookup_cons]
  by_cases h : other = name
  · rw [if_pos h, h, beq_self_eq_true]
  · rw [if_neg h, beq_false_of_ne h]
    rfl

theorem Identifier.ne_name (i : Identifier) {s : String} (hs : isIdentifier s.toList = false) :
    s ≠ i.name := by
  rintro rfl
  have hi : isIdentifier i.name.toList = true := i.property
  rw [hi] at hs
  cases hs

namespace Renames

variable {ρ : Renaming} {t u : LabelTable}

theorem nil (ρ : Renaming) : Renames ρ [] [] := ⟨fun _ => rfl, fun _ _ => rfl, fun _ _ => rfl⟩

theorem cons (h : Renames ρ t u) (i : Identifier) (a : UInt32) :
    Renames ρ ((i.name, a) :: t) (((ρ i).name, a) :: u) := by
  refine ⟨fun j => ?_, fun s hs => ?_, fun s hs => ?_⟩
  · have hiff : (ρ j).name = (ρ i).name ↔ j.name = i.name :=
      ⟨fun hj => congrArg Identifier.name (ρ.injective (Subtype.ext hj)),
        fun hj => congrArg (Identifier.name ∘ ρ) (Subtype.ext hj)⟩
    rw [address?_cons, address?_cons, h.known j]
    simp only [hiff]
  · rw [address?_cons, if_neg (i.ne_name hs), h.old s hs]
  · rw [address?_cons, if_neg ((ρ i).ne_name hs), h.new s hs]

/-- **The labels of a line** are defined alike, or one of them was defined before. -/
theorem define (h : Renames ρ t u) (a : UInt32) {names : List String}
    (hnames : ∀ s ∈ names, isIdentifier s.toList = true) :
    Renames ρ (t.define a names).1 (u.define a (names.map ρ.name)).1 ∧
      (u.define a (names.map ρ.name)).2 = (t.define a names).2.map ρ.name := by
  induction names generalizing t u with
  | nil => exact ⟨h, rfl⟩
  | cons s names ih =>
    let i : Identifier := ⟨s, hnames s (List.mem_cons_self ..)⟩
    have hi : ρ.name s = (ρ i).name := ρ.name_name i
    have hknown : u.address? (ρ.name s) = t.address? s := by
      rw [hi]
      exact h.known i
    simp only [List.map_cons, LabelTable.define, hknown]
    split_ifs with hsome
    · exact ⟨h, rfl⟩
    · rw [hi]
      exact ih (h.cons i a) fun s' hs' => hnames s' (List.mem_cons_of_mem s hs')

end Renames

/-! ### Readers -/

section readers

variable {ρ : Renaming} {labels labels' : LabelTable}

theorem agree_fail {α : Type} {l : Line} {p q : Problem} (h : p.kind = q.kind) :
    Agree Error.kind ((ρ.line l).fail p : Except Error α) (l.fail q) :=
  congrArg (fun k => Except.error (Error.mk l.number k)) h

theorem agree_register (l : Line) (t : Text) :
    Agree Error.kind ((ρ.line l).register (ρ.operand t)) (l.register t) := by
  rcases ρ.operand_cases t with ⟨m, rfl, hoperand⟩ | ⟨hoperand, -⟩
  · rw [hoperand, m.register, (m.rename ρ).register]
    exact agree_fail rfl
  · rw [hoperand]
    exact .refl _

theorem agree_directiveNumber (l : Line) (d : Directive) :
    Agree Error.kind ((ρ.line l).directiveNumber d) (l.directiveNumber d) := by
  have hops : (ρ.line l).operands = l.operands.map ρ.operand := rfl
  unfold Line.directiveNumber
  rw [hops]
  rcases l.operands with _ | ⟨t, _ | ⟨t', ts⟩⟩
  · exact agree_fail rfl
  · rcases ρ.operand_cases t with ⟨m, rfl, hoperand⟩ | ⟨hoperand, -⟩
    · obtain ⟨e, he⟩ := m.exists_readUnsigned_error 32
      obtain ⟨e', he'⟩ := (m.rename ρ).exists_readUnsigned_error 32
      simp only [List.map_cons, List.map_nil, hoperand, he, he']
      exact agree_fail rfl
    · simp only [List.map_cons, List.map_nil, hoperand]
      exact .refl _
  · exact agree_fail rfl

/-- **A word is the same**, if the labels are. -/
theorem agree_word (h : Renames ρ labels labels') (l : Line) (t : Text) :
    Agree Error.kind ((ρ.line l).word labels' (ρ.operand t)) (l.word labels t) := by
  have hnone {s : Text} (hs : isIdentifier (Text.chars s) = false) :
      labels.address? (Text.toString s) = none ∧ labels'.address? (Text.toString s) = none := by
    have hs' : isIdentifier (Text.toString s).toList = false := by
      rw [Text.toString, String.toList_ofList, hs]
    exact ⟨h.old _ hs', h.new _ hs'⟩
  rcases ρ.operand_cases t with ⟨m, rfl, hoperand⟩ | ⟨hoperand, hbare⟩
  · rw [hoperand, m.word_eq_lookup, (m.rename ρ).word_eq_lookup]
    by_cases hrest : m.rest = []
    · obtain ⟨hname, hid⟩ := m.bare_of_rest_eq hrest
      obtain ⟨hname', hid'⟩ := (m.rename ρ).bare_of_rest_eq hrest
      have hknown : labels'.address? (m.rename ρ).label.name = labels.address? m.label.name :=
        h.known m.label
      rw [hname, hname', hid, hid', hknown]
      cases labels.address? m.label.name with
      | none => exact agree_fail rfl
      | some a => exact .refl _
    · have hid := m.isIdentifier_of_rest_ne hrest
      have hid' := (m.rename ρ).isIdentifier_of_rest_ne hrest
      rw [(hnone hid).1, (hnone hid').2, hid, hid']
      exact agree_fail rfl
  · rw [hoperand, word_eq, word_eq, (hnone hbare).1, (hnone hbare).2]
    exact .refl _

theorem agree_place (h : Renames ρ labels labels') (l : Line) (t : Text) :
    Agree Error.kind ((ρ.line l).place labels' (ρ.operand t)) (l.place labels t) := by
  obtain ⟨htake, hdrop⟩ := cut_operand ρ t
  unfold Line.place
  rw [htake, hdrop]
  cases t.dropWhile (!·.is '(') with
  | nil => exact agree_fail rfl
  | cons g base =>
    by_cases hlast : base.getLast? = some (.char ')')
    · simp only [if_pos hlast, isEmpty_operand]
      refine Agree.bind (.refl _) fun r => ?_
      split_ifs
      · exact .refl _
      · exact (agree_word h l _).bind fun d => .refl _
    · simp only [if_neg hlast]
      exact agree_fail rfl

/-- **An instruction is the same**, if the labels are. -/
theorem agree_instruction (h : Renames ρ labels labels') (l : Line) (m : Mnemonic) :
    Agree Error.kind ((ρ.line l).instruction labels' m) (l.instruction labels m) := by
  have hops : (ρ.line l).operands = l.operands.map ρ.operand := rfl
  unfold Line.instruction
  rw [hops]
  rcases l.operands with _ | ⟨a, _ | ⟨b, _ | ⟨c, ts⟩⟩⟩
  · cases m with
    | halt | nop | ret => exact .refl _
    | _ => exact agree_fail rfl
  · cases m with
    | push | pop => exact (agree_register l a).bind fun _ => .refl _
    | jump | call => exact (agree_word h l a).bind fun _ => .refl _
    | _ => exact agree_fail rfl
  · cases m with
    | move | alu =>
      exact (agree_register l a).bind fun _ => (agree_register l b).bind fun _ => .refl _
    | constant => exact (agree_word h l a).bind fun _ => (agree_register l b).bind fun _ => .refl _
    | store => exact (agree_register l a).bind fun _ => (agree_place h l b).bind fun _ => .refl _
    | load => exact (agree_register l b).bind fun _ => (agree_place h l a).bind fun _ => .refl _
    | _ => exact agree_fail rfl
  · cases m <;> exact agree_fail rfl

end readers

/-! ### Passes -/

section passes

variable {ρ : Renaming}

theorem agree_addressAfter (l : Line) (a : UInt32) :
    Agree Error.kind ((ρ.line l).addressAfter a) (l.addressAfter a) := by
  have hmnemonic : (ρ.line l).mnemonic = l.mnemonic := rfl
  have hops : (ρ.line l).operands = l.operands.map ρ.operand := rfl
  unfold Line.addressAfter
  rw [hmnemonic, hops]
  cases l.mnemonic with
  | none => exact .refl _
  | some s =>
    dsimp only
    cases Keyword.ofName? s with
    | none => exact agree_fail rfl
    | some k =>
      cases k with
      | instruction m => exact .refl _
      | directive d =>
        cases d with
        | pos => exact (agree_directiveNumber l .pos).bind fun _ => .refl _
        | align => exact (agree_directiveNumber l .align).bind fun _ => .refl _
        | long =>
          rcases l.operands with _ | ⟨t, _ | ⟨t', ts⟩⟩
          · exact agree_fail rfl
          · exact .refl _
          · exact agree_fail rfl

theorem agree_addLine {labels labels' : LabelTable} (h : Renames ρ labels labels') (e : Emission)
    (l : Line) :
    Agree (Interruption.map Error.kind) (e.addLine labels' (ρ.line l)) (e.addLine labels l) := by
  have hmnemonic : (ρ.line l).mnemonic = l.mnemonic := rfl
  have hops : (ρ.line l).operands = l.operands.map ρ.operand := rfl
  have hmove := (agree_addressAfter (ρ := ρ) l e.length.toUInt32).mapError
  unfold Emission.addLine
  rw [hmnemonic, hops]
  cases l.mnemonic with
  | none => exact .refl _
  | some s =>
    dsimp only
    cases Keyword.ofName? s with
    | none => exact .refl _
    | some k =>
      cases k with
      | instruction m => exact (agree_instruction h l m).mapError.bind fun _ => .refl _
      | directive d =>
        cases d with
        | pos => exact hmove.bind fun _ => .refl _
        | align => exact hmove.bind fun _ => .refl _
        | long =>
          rcases l.operands with _ | ⟨t, _ | ⟨t', ts⟩⟩
          · exact .refl _
          · exact (agree_word h l t).mapError.bind fun _ => .refl _
          · exact .refl _

/-- **The second pass** gives the same image. -/
theorem agree_emit {labels labels' : LabelTable} (h : Renames ρ labels labels') (ls : List Line) :
    Agree (Interruption.map Error.kind) (emit labels' (ls.map ρ.line)) (emit labels ls) := by
  refine Agree.map _ ?_
  generalize (⟨0, #[]⟩ : Emission) = e
  induction ls generalizing e with
  | nil => exact .refl _
  | cons l ls ih =>
    rw [List.map_cons, List.foldlM_cons, List.foldlM_cons]
    exact (agree_addLine h e l).bind ih

/-- **The first pass** gives renamed labels their addresses. -/
theorem Renames.locate {t u : LabelTable} (h : Renames ρ t u) {ls : List Line}
    (hls : ∀ l ∈ ls, ∀ s ∈ l.labels, isIdentifier s.toList = true) (a : UInt32) :
    Renames ρ (Assembly.locate a t ls).1 (Assembly.locate a u (ls.map ρ.line)).1 ∧
      (Assembly.locate a u (ls.map ρ.line)).2.map Error.kind =
        (Assembly.locate a t ls).2.map Error.kind := by
  induction ls generalizing a t u with
  | nil => exact ⟨h, rfl⟩
  | cons l ls ih =>
    have hlabels : (ρ.line l).labels = l.labels.map ρ.name := rfl
    obtain ⟨hdefine, hduplicate⟩ := h.define a (hls l (List.mem_cons_self ..))
    have hafter := agree_addressAfter (ρ := ρ) l a
    rcases ht : t.define a l.labels with ⟨t₁, r⟩
    rcases hu : u.define a (l.labels.map ρ.name) with ⟨u₁, r'⟩
    rw [ht, hu] at hdefine hduplicate
    obtain rfl : r' = r.map ρ.name := hduplicate
    simp only [List.map_cons, Assembly.locate, hlabels, ht, hu]
    cases r with
    | some s => exact ⟨hdefine, rfl⟩
    | none =>
      dsimp only [Option.map_none]
      cases hl : l.addressAfter a with
      | error e =>
        cases hl' : (ρ.line l).addressAfter a with
        | error e' =>
          rw [hl, hl'] at hafter
          exact ⟨hdefine, congrArg some (Except.error.inj hafter)⟩
        | ok b =>
          rw [hl, hl'] at hafter
          cases hafter
      | ok b =>
        cases hl' : (ρ.line l).addressAfter a with
        | error e' =>
          rw [hl, hl'] at hafter
          cases hafter
        | ok b' =>
          rw [hl, hl'] at hafter
          obtain rfl := Except.ok.inj hafter
          exact ih hdefine (fun m hm => hls m (List.mem_cons_of_mem l hm)) b'

end passes

/-! ### Programs -/

/-- **Renaming labels changes nothing** in what a program is assembled to: the image is the same
with its source map, and a renamed label has the address of the old one. Where assembling fails, it
fails on the same line and for a reason of the same kind. -/
theorem Renaming.assembles_alike (ρ : Renaming) {ls : List Line}
    (hls : ∀ l ∈ ls, ∃ number source, Line.read number source = .ok l) :
    (assembleLines (ls.map ρ.line)).image.mapError (Interruption.map Error.kind) =
        (assembleLines ls).image.mapError (Interruption.map Error.kind) ∧
      ∀ i : Identifier, (assembleLines (ls.map ρ.line)).labels.address? (ρ i).name =
        (assembleLines ls).labels.address? i.name := by
  have hnames : ∀ l ∈ ls, ∀ s ∈ l.labels, isIdentifier s.toList = true := by
    intro l hl
    obtain ⟨number, source, hread⟩ := hls l hl
    exact Line.isIdentifier_of_read hread
  obtain ⟨hlabels, herror⟩ := (Renames.nil ρ).locate hnames 0
  rcases hold : locate 0 [] ls with ⟨t, r⟩
  rcases hnew : locate 0 [] (ls.map ρ.line) with ⟨u, r'⟩
  rw [hold, hnew] at hlabels herror
  unfold assembleLines
  rw [hold, hnew]
  cases r with
  | none =>
    obtain rfl : r' = none := Option.map_eq_none_iff.1 herror
    exact ⟨agree_emit hlabels ls, hlabels.known⟩
  | some e =>
    obtain ⟨e', rfl, he⟩ := Option.map_eq_some_iff.1 herror
    exact ⟨congrArg (Except.error ∘ Interruption.error) he, hlabels.known⟩

theorem exists_read_of_readLines {source : Text} {ls : List Line} (h : readLines source = .ok ls) :
    ∀ l ∈ ls, ∃ number source, Line.read number source = .ok l := by
  have hall {ps : List (Text × Nat)} {ls : List Line}
      (h : (ps.mapM fun p => Line.read p.2 p.1) = .ok ls) :
      ∀ l ∈ ls, ∃ number source, Line.read number source = .ok l := by
    induction ps generalizing ls with
    | nil =>
      cases h
      exact List.forall_mem_nil _
    | cons p ps ih =>
      rw [List.mapM_cons] at h
      obtain ⟨l, hl, h⟩ := bind_eq_ok.1 h
      obtain ⟨ls', hls, h⟩ := bind_eq_ok.1 h
      cases h
      exact List.forall_mem_cons.2 ⟨⟨p.2, p.1, hl⟩, ih hls⟩
  exact hall h

/-- Two labels change their names in all the forms that a reference has. One of them is the name of
an instruction, the other is that of a register without its mark. -/
theorem Renaming.assembles_alike_swapped :
    let ρ : Renaming := (Equiv.swap ⟨"jmp", by decide⟩ ⟨"eax", by decide⟩ : Equiv.Perm Identifier)
    let source (a b : String) : Text := .ofString (a ++ ": jmp " ++ b ++ "\n irmovl $" ++ a ++
      ", %eax\n" ++ b ++ ": rmmovl %eax, " ++ b ++ "(%ebx)\n .long " ++ b)
    ∃ ls, readLines (source "jmp" "eax") = .ok ls ∧
      readLines (source "eax" "jmp") = .ok (ls.map ρ.line) ∧
      ∃ image, (assembleLines ls).image = .ok image ∧ image.bytes.length = 21 ∧
        (assembleLines (ls.map ρ.line)).image = .ok image ∧
        (assembleLines (ls.map ρ.line)).labels.address? "jmp" = some 11 := by
  intro ρ source
  let ls : List Line :=
    [⟨1, ["jmp"], some "jmp", [.ofString "eax"]⟩,
     ⟨2, [], some "irmovl", [.ofString "$jmp", .ofString "%eax"]⟩,
     ⟨3, ["eax"], some "rmmovl", [.ofString "%eax", .ofString "eax(%ebx)"]⟩,
     ⟨4, [], some ".long", [.ofString "eax"]⟩]
  let image : Image :=
    ⟨[0x70, 11, 0, 0, 0, 0x30, 0xf0, 0, 0, 0, 0, 0x40, 0x03, 11, 0, 0, 0, 11, 0, 0, 0],
     [(0, 1), (5, 2), (11, 3), (17, 4)]⟩
  have hread : readLines (source "jmp" "eax") = .ok ls := by decide +kernel
  have hrenamed : readLines (source "eax" "jmp") = .ok (ls.map ρ.line) := by decide +kernel
  have himage : (assembleLines ls).image = .ok image := by decide +kernel
  obtain ⟨halike, hlabels⟩ := ρ.assembles_alike (exists_read_of_readLines hread)
  rw [himage] at halike
  refine ⟨ls, hread, hrenamed, image, himage, rfl, mapError_eq_ok.1 halike, ?_⟩
  exact (hlabels ⟨"eax", by decide⟩).trans (by decide +kernel)

end RpnY86.Assembly
