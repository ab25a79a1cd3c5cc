import RpnY86.Proofs.Code.Loaded
import RpnY86.Proofs.Compile.Stages

/-! # Which expressions are compiled

The verdict on an expression can be read off its words and the stack region (`verdict`), and a
compilation comes to it (`compile_spec`). What a compiled program consists of is kept in
`Compiled`. -/

namespace RpnY86

open Assembly (assemble)
open Code (StackRegion Steps codeEnd fragments render)
open Numeral (isInteger)

/-! ### The verdict -/

/-- The verdict on an expression. -/
inductive Verdict where
  | accepted
  /-- Refused, perhaps because of a certain word. -/
  | refused (kind : ErrorKind) (word : Option Word)
deriving DecidableEq, Repr

/-- Whether a word is an operator without an operation. -/
def Word.isReserved (w : Word) : Bool := [['%'], ['^'], ['!']].contains w.text

/-- The verdict on words that are in their places, where `room` says whether code and stack have
room. -/
def verdictOnCode (ws : List Word) (room : Prop) [Decidable room] : Verdict :=
  match ws.find? Word.isReserved with
  | some w => .refused .unknownToken w
  | none =>
    match ws.find? Word.isWide with
    | some w => .refused .codeGeneration w
    | none => if room then .accepted else .refused .codeGeneration none

/-- The verdict on words. -/
def verdict (ws : List Word) (room : Prop) [Decidable room] : Verdict :=
  if ws.any fun w => (TokenKind.ofWord? w.text).isNone then .refused .lexical none
  else
    match ws.head?, ws.getLast? with
    | some first, some last =>
      if !isInteger first.text then .refused .invalidStart first
      else if isInteger last.text then .refused .invalidEnd last
      else verdictOnCode ws room
    | _, _ => .refused .emptyExpression none

/-! ### Compiled programs -/

/-- What a compiled program consists of. -/
structure Compiled (r : StackRegion) (cs : List Char) (program : String) where
  tokens : List Token
  operations : List Operation
  fragments : List (List Code.Line)
  lex_eq : lex cs = .ok tokens
  ofTokens_eq : Operation.ofTokens tokens = .ok operations
  words_eq : List.Forall₂ (fun w o => w.operation? = some o) (words cs) operations
  fragments_eq : Code.fragments operations = .ok fragments
  roomy : r.Roomy (codeEnd fragments)
  program_eq : program = Code.program (render fragments.flatten) r

/-- A compilation comes to a verdict. Without the assumption `small`, a refusal may also be a
defect. -/
def Verdict.Answers (r : StackRegion) (cs : List Char) (small : Prop)
    (x : Except (Interruption CompileError) String) : Verdict → Prop
  | .accepted => ∃ program, x = .ok program ∧ Nonempty (Compiled r cs program)
  | .refused kind word => ∃ i, x = .error i ∧
      (small → ∃ e, i = .error e ∧ e.kind = kind ∧ ∀ w ∈ word, e.IsAt kind w)

variable {r : StackRegion} {cs : List Char} {small : Prop}

theorem Verdict.answers_of_error {x : Except (Interruption CompileError) String} {e : CompileError}
    (h : x = .error (.error e)) {kind : ErrorKind} (hk : e.kind = kind) :
    (Verdict.refused kind none).Answers r cs small x :=
  ⟨_, h, fun _ => ⟨e, rfl, hk, fun _ hw => nomatch hw⟩⟩

theorem Verdict.answers_of_isAt {x : Except (Interruption CompileError) String} {e : CompileError}
    (h : x = .error (.error e)) {kind : ErrorKind} {w : Word} (hw : e.IsAt kind w) :
    (Verdict.refused kind (some w)).Answers r cs small x :=
  ⟨_, h, fun _ => ⟨e, rfl, hw.kind, fun _ hv => Option.some.inj hv ▸ hw⟩⟩

/-! ### The builder -/

theorem withoutEnd_append (ts : List Token) (cs : List Char) :
    Operation.withoutEnd (ts ++ [Token.atEnd cs]) = ts := by
  rw [Operation.withoutEnd, List.getLast?_concat, List.dropLast_concat]
  exact if_pos rfl

/-- **Building.** What is built is decided by the first word, the last word, and the first word that
has no operation. -/
theorem ofTokens_spec {first last : Word} {ws : List Word} {ts : List Token}
    (h : List.Forall₂ (fun w t => w.token? = some t) ws ts) (hfirst : ws.head? = some first)
    (hlast : ws.getLast? = some last) (cs : List Char) :
    (isInteger first.text = false ∧ ∃ e, Operation.ofTokens (ts ++ [Token.atEnd cs]) = .error e ∧
      e.IsAt .invalidStart first) ∨
    (isInteger first.text = true ∧ isInteger last.text = true ∧
      ∃ e, Operation.ofTokens (ts ++ [Token.atEnd cs]) = .error e ∧ e.IsAt .invalidEnd last) ∨
    (isInteger first.text = true ∧ isInteger last.text = false ∧
      Operation.ofTokens (ts ++ [Token.atEnd cs]) = ts.mapM Operation.ofToken) := by
  obtain ⟨u, hu, hlastToken⟩ := forall₂_getLast? h hlast
  have ⟨t, ht, hfirstToken⟩ : ∃ t, ts.head? = some t ∧ first.token? = some t := by
    cases h with
    | nil => exact nomatch hfirst
    | cons hw _ =>
      obtain rfl := Option.some.inj hfirst
      exact ⟨_, rfl, hw⟩
  have hnumber := Word.kind_eq_number_iff hfirstToken
  have hnumber' := Word.kind_eq_number_iff hlastToken
  unfold Operation.ofTokens
  simp only [withoutEnd_append, ht, hu]
  cases hi : isInteger first.text with
  | false =>
    left
    rw [hi] at hnumber
    have hkind : t.kind ≠ .number := fun hk => nomatch hnumber.1 hk
    rw [if_pos hkind]
    exact ⟨rfl, _, rfl, CompileError.isAt_atToken hfirstToken _ _⟩
  | true =>
    right
    rw [if_neg (not_not.2 (hnumber.2 hi))]
    cases hi' : isInteger last.text with
    | true =>
      rw [if_pos (hnumber'.2 hi')]
      exact .inl ⟨rfl, rfl, _, rfl, CompileError.isAt_atToken hlastToken _ _⟩
    | false =>
      rw [hi'] at hnumber'
      have hkind : u.kind ≠ .number := fun hk => nomatch hnumber'.1 hk
      rw [if_neg hkind]
      exact .inr ⟨rfl, rfl, rfl⟩

/-! ### The layout -/

section

variable {ts : List Token} {os : List Operation} {fs : List (List Code.Line)}

theorem compile_of_lex_error {e : CompileError} (h : lex cs = .error e) :
    compile r cs = .error (.error e) := by
  simp only [compile, Compilation.run, h, Compilation.result]

theorem compile_of_ofTokens_error {e : CompileError} (hl : lex cs = .ok ts)
    (h : Operation.ofTokens ts = .error e) : compile r cs = .error (.error e) := by
  simp only [compile, Compilation.run, hl, h, Compilation.result]

theorem compile_of_fragments_error {e : CompileError} (hl : lex cs = .ok ts)
    (ho : Operation.ofTokens ts = .ok os) (h : fragments os = .error e) :
    compile r cs = .error (.error e) := by
  have hbody : Code.body os = .error e := by
    rw [Code.body, h]
    rfl
  simp only [compile, Compilation.run, hl, ho, hbody, Compilation.result]

theorem compile_of_fragments (hl : lex cs = .ok ts) (ho : Operation.ofTokens ts = .ok os)
    (hf : fragments os = .ok fs) :
    compile r cs =
      if r.fits then
        (checkLayout (Code.program (render fs.flatten) r)).map
          fun _ => Code.program (render fs.flatten) r
      else .error (.error (noStackSpace r)) := by
  have hbody : Code.body os = .ok (render fs.flatten) := by
    rw [Code.body, hf]
    rfl
  simp only [compile, Compilation.run, hl, ho, hbody]
  split
  · cases checkLayout (Code.program (render fs.flatten) r) with
    | ok u => rfl
    | error i => rfl
  · rfl

/-- **A roomy region** is accepted. -/
theorem compile_of_roomy (hl : lex cs = .ok ts) (ho : Operation.ofTokens ts = .ok os)
    (hf : fragments os = .ok fs) (hr : r.Roomy (codeEnd fs)) :
    compile r cs = .ok (Code.program (render fs.flatten) r) := by
  rw [compile_of_fragments hl ho hf, if_pos hr.fits_eq_true, checkLayout,
    Code.assemble_program hf hr]
  rfl

/-- **No other region** is accepted. -/
theorem compile_of_not_roomy (hl : lex cs = .ok ts) (ho : Operation.ofTokens ts = .ok os)
    (hf : fragments os = .ok fs) (hr : ¬ r.Roomy (codeEnd fs)) :
    ∃ i, compile r cs = .error i ∧
      (codeEnd fs < 2 ^ 32 → ∃ e, i = .error e ∧ e.kind = .codeGeneration) := by
  rw [compile_of_fragments hl ho hf]
  split
  · rename_i hfits
    obtain ⟨i, hi, hsmall⟩ := Code.assemble_program_error hf hfits hr
    rw [checkLayout, hi]
    refine ⟨_, rfl, fun hlt => ?_⟩
    obtain ⟨e, rfl⟩ := hsmall hlt
    exact ⟨_, rfl, rfl⟩
  · exact ⟨_, rfl, fun _ => ⟨_, rfl, rfl⟩⟩

end

/-! ### The whole compilation -/

instance (r : StackRegion) (n : Nat) : Decidable (r.Roomy n) :=
  decidable_of_iff (0 ≤ r.size.toInt ∧ r.top.toInt < 2 ^ 32 ∧ n + 4 * r.size.toInt ≤ r.top.toInt)
    ⟨fun h => ⟨h.1, h.2.1, h.2.2⟩, fun h => ⟨h.size_nonneg, h.top_lt, h.fits⟩⟩

theorem Word.isNone_operation? {w : Word} {t : Token} (h : w.token? = some t) :
    w.operation?.isNone = w.isReserved := by
  obtain ⟨kind, hk, rfl⟩ := Option.map_eq_some_iff.1 h
  rw [Word.operation?, Opcode.ofWord?, hk, Option.isNone_map, Option.bind_some, Word.isReserved]
  rcases ofWord?_eq_some hk with ⟨hi, rfl⟩ | ⟨-, hmem⟩
  · have hreserved : ∀ v ∈ [['%'], ['^'], ['!']], isInteger v = false := by decide
    symm
    rw [Opcode.ofToken?, Option.isNone_some, Bool.eq_false_iff]
    intro hv
    rw [hreserved w.text (List.contains_iff_mem.1 hv)] at hi
    cases hi
  · have hall : ∀ p ∈ RpnY86.vocabulary,
        (Opcode.ofToken? p.2).isNone = [['%'], ['^'], ['!']].contains p.1.toList := by decide
    simpa using hall _ hmem

theorem find?_isReserved {ws : List Word} {ts : List Token}
    (h : List.Forall₂ (fun w t => w.token? = some t) ws ts) :
    ws.find? Word.isReserved = ws.find? (·.operation?.isNone) := by
  induction h with
  | nil => rfl
  | cons ht _ ih => rw [List.find?_cons, List.find?_cons, Word.isNone_operation? ht, ih]

theorem verdictOnCode_answers {ts : List Token} (hlex : lex cs = .ok (ts ++ [Token.atEnd cs]))
    (htokens : List.Forall₂ (fun w t => w.token? = some t) (words cs) ts)
    (hbuild : Operation.ofTokens (ts ++ [Token.atEnd cs]) = ts.mapM Operation.ofToken) :
    (verdictOnCode (words cs) (r.Roomy (encodedLength (words cs)))).Answers r cs
      (encodedLength (words cs) < 2 ^ 32) (compile r cs) := by
  have hops := mapM_ofToken htokens
  unfold verdictOnCode
  rw [find?_isReserved htokens]
  cases hres : (words cs).find? (·.operation?.isNone) with
  | some w =>
    rw [hres] at hops
    obtain ⟨t, ht, he⟩ := hops
    exact Verdict.answers_of_isAt (compile_of_ofTokens_error hlex (hbuild.trans he))
      (CompileError.isAt_atToken ht _ _)
  | none =>
    rw [hres] at hops
    obtain ⟨os, hos, hwords⟩ := hops
    have hbuilt := hbuild.trans hos
    have hfrags := fragmentsFrom_spec hwords 0
    dsimp only
    cases hwide : (words cs).find? Word.isWide with
    | some w =>
      rw [hwide] at hfrags
      obtain ⟨e, he, hat⟩ := hfrags
      exact Verdict.answers_of_isAt (compile_of_fragments_error hlex hbuilt he) hat
    | none =>
      rw [hwide] at hfrags
      obtain ⟨fs, hfs⟩ := hfrags
      have hend := codeEnd_eq_encodedLength hwords hfs
      rw [← hend]
      dsimp only
      split
      · rename_i hroomy
        exact ⟨_, compile_of_roomy hlex hbuilt hfs hroomy,
          ⟨⟨_, os, fs, hlex, hbuilt, hwords, hfs, hroomy, rfl⟩⟩⟩
      · rename_i hroomy
        obtain ⟨i, hi, hsmall⟩ := compile_of_not_roomy hlex hbuilt hfs hroomy
        refine ⟨i, hi, fun hlt => ?_⟩
        obtain ⟨e, he, hk⟩ := hsmall hlt
        exact ⟨e, he, hk, fun _ hw => nomatch hw⟩

/-- **A compilation comes to the verdict** that words and stack region call for. -/
theorem compile_spec (r : StackRegion) (cs : List Char) :
    (verdict (words cs) (r.Roomy (encodedLength (words cs)))).Answers r cs
      (encodedLength (words cs) < 2 ^ 32) (compile r cs) := by
  have hlex := lex_eq cs
  have hany : ((words cs).any fun w => (TokenKind.ofWord? w.text).isNone) =
      ((words cs).mapM Word.token?).isNone := by
    rw [← any_isNone_of_mapM]
    simp only [Word.token?, Option.isNone_map]
  unfold verdict
  rw [hany]
  cases hts : (words cs).mapM Word.token? with
  | none =>
    rw [hts] at hlex
    obtain ⟨e, he, hk⟩ := hlex
    exact Verdict.answers_of_error (compile_of_lex_error he) hk
  | some ts =>
    rw [hts] at hlex
    have htokens := mapM_eq_some_iff.1 hts
    rw [Option.isNone_some, if_neg (by decide)]
    cases hfirst : (words cs).head? with
    | none =>
      have hnil : words cs = [] := List.head?_eq_none_iff.1 hfirst
      rw [hnil] at htokens
      cases htokens
      exact Verdict.answers_of_error (compile_of_ofTokens_error hlex rfl) rfl
    | some first =>
      cases hlast : (words cs).getLast? with
      | none =>
        rw [List.getLast?_eq_none_iff.1 hlast] at hfirst
        cases hfirst
      | some last =>
        dsimp only
        rcases ofTokens_spec htokens hfirst hlast cs with ⟨hi, e, he, hat⟩ |
          ⟨hi, hi', e, he, hat⟩ | ⟨hi, hi', hbuild⟩
        · rw [hi, Bool.not_false, if_pos rfl]
          exact Verdict.answers_of_isAt (compile_of_ofTokens_error hlex he) hat
        · rw [hi, hi', Bool.not_true, if_neg (by decide), if_pos rfl]
          exact Verdict.answers_of_isAt (compile_of_ofTokens_error hlex he) hat
        · rw [hi, hi', Bool.not_true, if_neg (by decide), if_neg (by decide)]
          exact verdictOnCode_answers hlex htokens hbuild

theorem verdict_of_compile {program : String} (h : compile r cs = .ok program) :
    verdict (words cs) (r.Roomy (encodedLength (words cs))) = .accepted := by
  have hspec := compile_spec r cs
  cases hv : verdict (words cs) (r.Roomy (encodedLength (words cs))) with
  | accepted => rfl
  | refused kind word =>
    rw [hv] at hspec
    obtain ⟨i, hi, -⟩ := hspec
    exact nomatch hi.symm.trans h

theorem nonempty_compiled {program : String} (h : compile r cs = .ok program) :
    Nonempty (Compiled r cs program) := by
  have hspec := compile_spec r cs
  rw [verdict_of_compile h] at hspec
  obtain ⟨program', hp, hc⟩ := hspec
  obtain rfl := Except.ok.inj (hp.symm.trans h)
  exact hc

namespace Compiled

variable {program : String} (C : Compiled r cs program)

theorem codeEnd_eq : codeEnd C.fragments = encodedLength (words cs) :=
  codeEnd_eq_encodedLength C.words_eq C.fragments_eq

/-- The layout of the program in a memory. -/
def layout {n : Nat} (hn : r.top.toInt.toNat ≤ n) : Code.Layout where
  operations := C.operations
  fragments := C.fragments
  region := r
  memorySize := n
  fragments_eq := C.fragments_eq
  roomy := C.roomy
  top_le := hn

/-- The layout of the program in a memory that ends with the stack region. -/
abbrev tight : Code.Layout := C.layout (Nat.le_refl _)

/-- The image of the program. -/
def image : Assembly.Image := Code.programImage C.fragments r

theorem assemble_eq :
    assemble (.ofString program) =
      { labels := Code.labelsOf C.fragments r, image := .ok C.image } := by
  have h := Code.assemble_program C.fragments_eq C.roomy
  rwa [← C.program_eq] at h

theorem length_image : C.image.bytes.length = r.top.toInt.toNat := C.tight.length_image

/-- The lines of the program. -/
def lines : List Assembly.Line := C.tight.lines

theorem readLines_eq : Assembly.readLines (.ofString program) = .ok C.lines := by
  have h := Code.readLines_render (Code.legible_programLines C.fragments_eq r)
  rwa [← Code.program_eq, ← C.program_eq] at h

end Compiled

/-! ### Exact acceptance -/

/-- Over the integers: the stack holds a value, it lies between address 0 and the end of the address
space, and code of length `n` ends below it. -/
def Code.StackRegion.HasRoom (r : StackRegion) (n : Nat) : Prop :=
  1 ≤ r.size.toInt ∧ 4 * r.size.toInt ≤ r.top.toInt ∧ r.top.toInt < 2 ^ 32 ∧
    n ≤ r.top.toInt - 4 * r.size.toInt

instance (r : StackRegion) (n : Nat) : Decidable (r.HasRoom n) :=
  inferInstanceAs (Decidable (_ ∧ _))

/-- The last line of a program that has bytes is a `halt`, and it is the last of `n` bytes. -/
def HasLength (program : String) (n : Nat) : Prop :=
  ∃ lines image, Assembly.readLines (.ofString program) = .ok lines ∧
    (assemble (.ofString program)).image = .ok image ∧
    ∃ l ∈ lines, l.mnemonic.bind Assembly.Keyword.ofName? = some (.instruction .halt) ∧
      image.sourceMap.getLast? = some ((n - 1).toUInt32, l.number)

theorem Compiled.hasLength {program : String} (C : Compiled r cs program) :
    HasLength program (encodedLength (words cs)) := by
  rw [← C.codeEnd_eq]
  exact ⟨C.lines, C.image, C.readLines_eq, by rw [C.assemble_eq], C.tight.last_sourceMap⟩

theorem verdict_congr {room room' : Prop} [Decidable room] [Decidable room'] (h : room ↔ room')
    (ws : List Word) : verdict ws room = verdict ws room' := by
  unfold verdict verdictOnCode
  simp only [h]

theorem size_ofBounds_ne_zero (top size : Int64) :
    (StackRegion.ofBounds top size).size.toInt ≠ 0 := by
  unfold StackRegion.ofBounds
  dsimp only
  split
  · decide
  · rename_i h
    exact fun h0 => h (Int64.toInt_inj.1 h0)

theorem hasRoom_iff_roomy (top size : Int64) (n : Nat) :
    (StackRegion.ofBounds top size).HasRoom n ↔ (StackRegion.ofBounds top size).Roomy n := by
  have hne := size_ofBounds_ne_zero top size
  constructor
  · rintro ⟨h1, h2, h3, h4⟩
    exact ⟨by omega, h3, by omega⟩
  · rintro ⟨h1, h2, h3⟩
    exact ⟨by omega, by omega, h2, by omega⟩

end RpnY86
