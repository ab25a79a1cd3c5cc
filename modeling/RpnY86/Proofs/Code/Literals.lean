import RpnY86.Proofs.Code.Passes
import RpnY86.Proofs.Code.Spelling
import RpnY86.Proofs.Numeral.Integer
import RpnY86.Proofs.Token.Runs
import RpnY86.Proofs.Y86.Exact

/-! # Numbers from source text to machine word

A number goes through three notations: the digits of the expression, of which there may be any
number, the decimal numeral in the generated line, and the four bytes of the assembled instruction.
Its value is the same in all of them.

Code has a place for each operation, and what stands there does not depend on the other operations
apart from the numbers of labels (`fragmentsFrom_append`). A push uses no label, so it can be put in
anywhere or left out (`body_push_eq_ok`). -/

namespace RpnY86.Code

open Numeral (IsNarrow integerValue isInteger)
open Y86 (wordBytes)

/-- The operation that pushes the number that `w` spells. -/
def pushOf (w : List Char) (pos : Int) : Operation := ⟨.push, String.ofList w, pos⟩

/-- The error about a number that does not fit in a word. -/
def tooWide (w : List Char) (pos : Int) : CompileError where
  kind := .codeGeneration
  pos := pos
  token := String.ofList w
  detail := .literalWidth
  cause := some (.literal (String.ofList w) .outOfRange)

/-- The line that puts a number where it is pushed from. -/
def loadText (v : Int) : String := "\tirmovl $" ++ Numeral.decimal v ++ ", %ecx"

/-- The four digits of a number to base 256, what does not fit left out, the lowest first. -/
def residueBytes (v : Int) : List UInt8 :=
  (List.range 4).map fun i => UInt8.ofNat ((v % 2 ^ 32).toNat / 256 ^ i)

variable {w : List Char}

/-! ### Spellings -/

theorem isInteger_of_spells (h : Spells w .number) : isInteger w = true := by
  rcases ofWord?_eq_some (ofWord?_eq_some_iff.2 h) with ⟨hi, -⟩ | ⟨-, hmem⟩
  · exact hi
  · have hnumber : ∀ p ∈ vocabulary, p.2 ≠ .number := by decide
    exact absurd rfl (hnumber _ hmem)

theorem not_isSeparator_of_spells (h : Spells w .number) :
    w ≠ [] ∧ ∀ d ∈ w, Lexer.isSeparator d = false := by
  have hdigits {ds : List Char} (hd : ∀ d ∈ ds, '0' ≤ d ∧ d ≤ '9') :
      ∀ d ∈ ds, Lexer.isSeparator d = false := by
    intro d hmem
    exact Lexer.not_isSeparator (p := fun d => decide ('0' ≤ d ∧ d ≤ '9')) (by decide)
      (decide_eq_true (hd d hmem))
  cases h with
  | number hne hd => exact ⟨hne, hdigits hd⟩
  | negative hne hd =>
    exact ⟨List.cons_ne_nil _ _, List.forall_mem_cons.2 ⟨by decide, hdigits hd⟩⟩

/-- **The numbers of the lexer** are the words that spell one. -/
theorem spells_number_iff : Spells w .number ↔
    ∃ cs ts pos, lex cs = .ok ts ∧ ⟨.number, String.ofList w, pos⟩ ∈ ts := by
  constructor
  · intro h
    obtain ⟨hne, hw⟩ := not_isSeparator_of_spells h
    obtain ⟨c, cs, rfl⟩ := List.exists_cons_of_ne_nil hne
    have hwords : words (c :: cs) = [⟨0, c :: cs⟩] := by
      rw [words, List.splitOnP_eq_singleton hw]
      rfl
    have htoken : Word.token? ⟨0, c :: cs⟩ = some ⟨.number, String.ofList (c :: cs), 0⟩ := by
      rw [Word.token?, ofWord?_eq_some_iff.2 h]
      rfl
    have hlex := lex_eq (c :: cs)
    rw [hwords, mapM_eq_some_iff.2 (.cons htoken .nil)] at hlex
    exact ⟨c :: cs, _, 0, hlex, List.mem_cons_self ..⟩
  · rintro ⟨cs, ts, pos, hts, ht⟩
    have hlex := lex_eq cs
    cases htokens : (words cs).mapM Word.token? with
    | none =>
      rw [htokens] at hlex
      obtain ⟨e, he, -⟩ := hlex
      cases he.symm.trans hts
    | some us =>
      rw [htokens] at hlex
      obtain rfl := Except.ok.inj (hlex.symm.trans hts)
      rcases List.mem_append.1 ht with ht | ht
      · have hall := mapM_eq_some_iff.1 htokens
        obtain ⟨i, hi, hget⟩ := List.getElem_of_mem ht
        have htoken := isTokenOf_of_token? (hall.get (by rwa [hall.length_eq]) hi)
        rw [List.get_eq_getElem, List.get_eq_getElem, hget] at htoken
        rw [String.ofList_injective htoken.literal]
        exact htoken.kind
      · cases List.mem_singleton.1 ht

/-! ### Places in code -/

theorem body_append_eq_ok {before after : List Operation} {s : String} :
    body (before ++ after) = .ok s ↔ ∃ fs gs, fragments before = .ok fs ∧
      fragmentsFrom (suffixesOf before) after = .ok gs ∧
      s = render fs.flatten ++ render gs.flatten := by
  simp only [body_eq_ok, fragments, fragmentsFrom_append, Nat.zero_add, bind_eq_ok, map_eq_ok]
  constructor
  · rintro ⟨_, ⟨fs, hfs, gs, hgs, rfl⟩, rfl⟩
    exact ⟨fs, gs, hfs, hgs, by rw [List.flatten_append, render_append]⟩
  · rintro ⟨fs, gs, hfs, hgs, rfl⟩
    exact ⟨fs ++ gs, ⟨fs, hfs, gs, hgs, rfl⟩, by rw [List.flatten_append, render_append]⟩

theorem fragment_pushOf (h : isInteger w = true) (n : Nat) (pos : Int) :
    fragment n (pushOf w pos) =
      if IsNarrow (integerValue w) then .ok (framed .push ⟨0, 1⟩ (pushNumber (integerValue w)))
      else .error (tooWide w pos) := by
  simp only [fragment, pushOf, Opcode.effect?, core, literalValue, String.toList_ofList,
    Numeral.readSigned_integer h]
  by_cases hv : IsNarrow (integerValue w)
  · rw [if_pos hv, if_pos hv]
    rfl
  · rw [if_neg hv, if_neg hv]
    rfl

/-- The text of a push. -/
def pushText (v : Int) : String :=
  render (opening .push ++ requireRoom 1) ++
    ("\t# push the number " ++ Numeral.decimal v ++ " onto the stack\n" ++
      loadText v ++ "\n" ++ "\tpushl %ecx\n") ++
    render (adjustDepth 1)

theorem text_setTo (v : Int) : (Line.op (setTo v .ecx)).text = loadText v := by
  have hname : "\tirmovl $" = "\t" ++ ("irmovl" ++ (" " ++ "$")) := by decide
  have hregister : ", %ecx" = ", " ++ "%ecx" := by decide
  change "" ++ ("\t" ++ ("irmovl" ++ " " ++ ", ".intercalate ["$" ++ Numeral.decimal v, "%ecx"])) ++
    "" = _
  rw [loadText, hname, hregister, String.intercalate_cons_cons, String.intercalate_singleton]
  simp only [String.append_assoc, String.empty_append, String.append_empty]

theorem render_framed_pushNumber (v : Int) :
    render (framed .push ⟨0, 1⟩ (pushNumber v)) = pushText v := by
  have hcore : render (pushNumber v) =
      "\t# push the number " ++ Numeral.decimal v ++ " onto the stack\n" ++
        loadText v ++ "\n" ++ "\tpushl %ecx\n" := by
    have hnote :
        (Line.comment ("push the number " ++ Numeral.decimal v ++ " onto the stack")).render =
          "\t# push the number " ++ Numeral.decimal v ++ " onto the stack\n" := by
      have hopen : "\t# push the number " = "\t" ++ ("# " ++ "push the number ") := by decide
      have hclose : " onto the stack\n" = " onto the stack" ++ "\n" := by decide
      simp only [Line.render, Line.comment, hopen, hclose, String.append_assoc,
        String.empty_append]
    have hpush : (Line.op (.push .ecx)).render = "\tpushl %ecx\n" := by decide
    rw [pushNumber, render, List.map_cons, List.map_cons, List.map_singleton, hnote, hpush,
      Line.render_eq_text, text_setTo]
    simp only [String.join_cons, String.join_nil, String.append_empty, String.append_assoc]
  have hframe : framed .push ⟨0, 1⟩ (pushNumber v) =
      opening .push ++ requireRoom 1 ++ pushNumber v ++ adjustDepth 1 := by
    rw [framed]
    rfl
  rw [hframe, render_append, render_append, hcore, pushText]

theorem body_push_eq_ok (h : isInteger w = true) {pos : Int} {before after : List Operation}
    {s : String} : body (before ++ pushOf w pos :: after) = .ok s ↔
      IsNarrow (integerValue w) ∧ ∃ fs gs, fragments before = .ok fs ∧
        fragmentsFrom (suffixesOf before) after = .ok gs ∧
        s = render fs.flatten ++ pushText (integerValue w) ++ render gs.flatten := by
  -- the push uses no label, so that those behind it keep their numbers
  have hsuffixes : suffixesOf before + suffixes (pushOf w pos).opcode = suffixesOf before := rfl
  rw [body_append_eq_ok]
  simp only [fragmentsFrom, hsuffixes, fragment_pushOf h]
  by_cases hv : IsNarrow (integerValue w)
  · rw [if_pos hv, and_iff_right hv]
    constructor
    · rintro ⟨fs, _, hfs, hrest, rfl⟩
      obtain ⟨_, hf, hrest⟩ := bind_eq_ok.1 hrest
      obtain rfl := Except.ok.inj hf
      obtain ⟨gs, hgs, h⟩ := bind_eq_ok.1 hrest
      obtain rfl := Except.ok.inj h
      refine ⟨fs, gs, hfs, hgs, ?_⟩
      rw [List.flatten_cons, render_append, render_framed_pushNumber, ← String.append_assoc]
    · rintro ⟨fs, gs, hfs, hgs, rfl⟩
      refine ⟨fs, _, hfs, bind_eq_ok.2 ⟨_, rfl, bind_eq_ok.2 ⟨gs, hgs, rfl⟩⟩, ?_⟩
      rw [List.flatten_cons, render_append, render_framed_pushNumber, ← String.append_assoc]
  · rw [if_neg hv]
    constructor
    · rintro ⟨_, _, -, hgs, -⟩
      cases hgs
    · rintro ⟨hv', -⟩
      exact absurd hv' hv

theorem body_push_eq_error (h : isInteger w = true) (hv : ¬ IsNarrow (integerValue w)) {pos : Int}
    {before : List Operation} (after : List Operation) {s : String} (hs : body before = .ok s) :
    body (before ++ pushOf w pos :: after) = .error (tooWide w pos) := by
  obtain ⟨fs, hfs, -⟩ := body_eq_ok.1 hs
  refine body_eq_error ?_
  rw [fragments] at hfs ⊢
  rw [fragmentsFrom_append, hfs, fragmentsFrom, fragment_pushOf h, if_neg hv]
  rfl

/-! ### Bytes -/

theorem wordBytes_ofInt (v : Int) : wordBytes (UInt32.ofInt v) = residueBytes v := by
  have hbytes (u : UInt32) : wordBytes u =
      (List.range 4).map fun i => UInt8.ofNat (u.toNat / 256 ^ i) := by
    have h₀ : u.toUInt8 = UInt8.ofNat (u.toNat / 256 ^ 0) := UInt8.toNat_inj.1 (by simp)
    have h₁ : (u >>> 8).toUInt8 = UInt8.ofNat (u.toNat / 256 ^ 1) :=
      UInt8.toNat_inj.1 (by simp [Nat.shiftRight_eq_div_pow])
    have h₂ : (u >>> 16).toUInt8 = UInt8.ofNat (u.toNat / 256 ^ 2) :=
      UInt8.toNat_inj.1 (by simp [Nat.shiftRight_eq_div_pow])
    have h₃ : (u >>> 24).toUInt8 = UInt8.ofNat (u.toNat / 256 ^ 3) :=
      UInt8.toNat_inj.1 (by simp [Nat.shiftRight_eq_div_pow])
    rw [wordBytes, h₀, h₁, h₂, h₃]
    rfl
  rw [hbytes, Y86.toNat_ofInt, residueBytes]

/-- **The line is read back.** -/
theorem addLine_loadText {v : Int} (h : IsNarrow v) (number : Int) (labels : Assembly.LabelTable)
    (e : Assembly.Emission) :
    ∃ l, Assembly.Line.read number (.ofString (loadText v)) = .ok l ∧
      e.addLine labels l = .ok (e.add (some number) ([0x30, 0xf1] ++ residueBytes v)) := by
  have hlegible : (Line.op (setTo v .ecx)).Legible := legible_op.2 h
  have hresolve : resolve? labels (setTo v .ecx) = some (.constant (UInt32.ofInt v) .ecx) := rfl
  refine ⟨_, text_setTo v ▸ hlegible.read_text number, ?_⟩
  rw [addLine_instruction hlegible rfl hresolve, Y86.Instruction.encode, wordBytes_ofInt]
  rfl

/-! ### Literals -/

/-- **Numbers keep their value.** Wherever a number that the lexer can produce is pushed, there is
code just if the number fits in 32 bits; otherwise the error names the number and its place, and the
reason is its size. The code is that of the value, however it is spelled, and the line that loads it
is assembled to an instruction with the value's lowest 32 bits. -/
theorem literal_keeps_value (hw : Spells w .number) (pos : Int) (before after : List Operation) :
    (∀ u, Spells u .number ↔
        ∃ cs ts p, lex cs = .ok ts ∧ ⟨.number, String.ofList u, p⟩ ∈ ts) ∧
      ((∃ s, body (before ++ pushOf w pos :: after) = .ok s) ↔
        IsNarrow (integerValue w) ∧ ∃ s, body (before ++ after) = .ok s) ∧
      (¬ IsNarrow (integerValue w) → ∀ s, body before = .ok s →
        body (before ++ pushOf w pos :: after) = .error (tooWide w pos)) ∧
      (∀ s, body (before ++ pushOf w pos :: after) = .ok s →
        (∃ s₀ s₁, body before = .ok s₀ ∧ s = s₀ ++ pushText (integerValue w) ++ s₁) ∧
        ∀ w' pos', Spells w' .number → integerValue w' = integerValue w →
          body (before ++ pushOf w' pos' :: after) = .ok s) ∧
      (IsNarrow (integerValue w) →
        Numeral.readSigned .marked 64 (Numeral.decimal (integerValue w)).toList =
          .ok (integerValue w) ∧
        ∀ number labels (e : Assembly.Emission),
          ∃ l, Assembly.Line.read number (.ofString (loadText (integerValue w))) = .ok l ∧
            e.addLine labels l =
              .ok (e.add (some number) ([0x30, 0xf1] ++ residueBytes (integerValue w)))) := by
  have hi := isInteger_of_spells hw
  refine ⟨fun u => spells_number_iff, ?_, ?_, ?_, ?_⟩
  · simp only [body_push_eq_ok hi, body_append_eq_ok]
    constructor
    · rintro ⟨_, hv, fs, gs, hfs, hgs, -⟩
      exact ⟨hv, _, fs, gs, hfs, hgs, rfl⟩
    · rintro ⟨hv, _, fs, gs, hfs, hgs, -⟩
      exact ⟨_, hv, fs, gs, hfs, hgs, rfl⟩
  · intro hv s hs
    exact body_push_eq_error hi hv after hs
  · intro s hs
    have hok := (body_push_eq_ok hi).1 hs
    constructor
    · obtain ⟨-, fs, gs, hfs, -, rfl⟩ := hok
      exact ⟨_, _, body_eq_ok.2 ⟨fs, hfs, rfl⟩, rfl⟩
    · intro w' pos' hw' hvalue
      rw [body_push_eq_ok (isInteger_of_spells hw'), hvalue]
      exact hok
  · intro hv
    refine ⟨?_, addLine_loadText hv⟩
    rw [← chars_ofString]
    exact readSigned_decimal (by omega) (by omega)

/-- The least number of 32 bits behind zeros, and the first that is too large. -/
theorem literal_keeps_value_bounds :
    let least := "-002147483648".toList
    let wide := "2147483648".toList
    let empty : Assembly.Emission := ⟨0, #[]⟩
    Spells least .number ∧ Spells wide .number ∧ (∃ s, body [pushOf least 0] = .ok s) ∧
      (∃ l, Assembly.Line.read 1 (.ofString "\tirmovl $-2147483648, %ecx") = .ok l ∧
        empty.addLine [] l = .ok (empty.add (some 1) [0x30, 0xf1, 0, 0, 0, 0x80])) ∧
      body [pushOf wide 7] = .error (tooWide wide 7) := by
  intro least wide empty
  have hleast : Spells least .number := spells_number_of_isInteger (by decide)
  have hwide : Spells wide .number := spells_number_of_isInteger (by decide)
  have hnarrow : IsNarrow (integerValue least) := by decide
  have htext : loadText (integerValue least) = "\tirmovl $-2147483648, %ecx" := by decide +kernel
  have hbytes : residueBytes (integerValue least) = [0, 0, 0, 0x80] := by decide
  obtain ⟨-, hok, -, -, hline⟩ := literal_keeps_value hleast 0 [] []
  obtain ⟨-, -, herror, -⟩ := literal_keeps_value hwide 7 [] []
  obtain ⟨-, hread⟩ := hline hnarrow
  refine ⟨hleast, hwide, hok.2 ⟨hnarrow, "", rfl⟩, ?_, herror (by decide) "" rfl⟩
  rw [← htext]
  exact hbytes ▸ hread 1 [] empty

end RpnY86.Code
