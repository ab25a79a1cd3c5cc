import RpnY86.Command.Standard
import RpnY86.Proofs.Compile.Acceptance
import RpnY86.Proofs.Token.Complaints

/-! # Reports point into the expression

An error of a compilation that has a position lies inside a word, whichever stage it comes from: the
lexer finds a place in a word of no kind, and the builder and the generator keep the position of the
word that they stop at (`compile_error_cases`). A token that an error carries is that whole word.

So the report of such an error always shows the expression and a caret. `PointsAt` says what these
two lines are; the bytes of the expression are given, and positions count its characters, a byte
that starts no character being one of them. -/

namespace RpnY86

open Code (StackRegion fragments)
open Lexer (complaints scan)

variable {r : StackRegion} {cs : List Char} {e : CompileError}

/-! ### Where errors are -/

/-- An error of the lexer lies inside a word, and carries no token. -/
theorem exists_covers_of_lex_error (h : lex cs = .error e) :
    e.token = "" ∧ ∃ w ∈ words cs, ∃ n : Nat, e.pos = n ∧ w.Covers n := by
  obtain ⟨ess, hess, hreports⟩ := Lexer.exists_complaints_among 0 cs
  change complaints (scan cs) = ess.flatten at hess
  unfold lex at h
  dsimp only at h
  cases hfound : complaints (scan cs) with
  | nil =>
    rw [hfound] at h
    cases h
  | cons first rest =>
    rw [hfound] at h hess
    cases h
    have hfirst : first ∈ ess.flatten := by
      rw [← hess]
      exact List.mem_cons_self ..
    obtain ⟨w, hw, hcovers, -⟩ := Lexer.exists_word_of_mem_flatten hreports hfirst
    exact ⟨rfl, w, hw, first.pos, rfl, hcovers⟩

theorem pos_of_layout_error {ts : List Token} {os : List Operation} {fs : List (List Code.Line)}
    (hl : lex cs = .ok ts) (ho : Operation.ofTokens ts = .ok os) (hf : fragments os = .ok fs)
    (h : compile r cs = .error (.error e)) : e.pos = -1 := by
  rw [compile_of_fragments hl ho hf] at h
  split at h
  · unfold checkLayout at h
    split at h
    · cases h
    · rename_i i _
      cases i with
      | error e' =>
        cases h
        rfl
      | defect d => cases h
  · cases h
    rfl

/-- **Where a compilation stops**: in the lexer, at a word, or at no place. -/
theorem compile_error_cases (h : compile r cs = .error (.error e)) :
    lex cs = .error e ∨ (∃ kind, ∃ w ∈ words cs, e.IsAt kind w) ∨ e.pos = -1 := by
  have hlex := lex_eq cs
  -- what a stage refuses is what the compilation refuses
  have hsame {e' : CompileError} (h' : compile r cs = .error (.error e')) : e' = e :=
    Interruption.error.inj (Except.error.inj (h'.symm.trans h))
  cases hts : (words cs).mapM Word.token? with
  | none =>
    rw [hts] at hlex
    obtain ⟨e', he', -⟩ := hlex
    exact .inl (hsame (compile_of_lex_error he') ▸ he')
  | some ts =>
    rw [hts] at hlex
    have htokens := mapM_eq_some_iff.1 hts
    refine .inr ?_
    cases hfirst : (words cs).head? with
    | none =>
      rw [List.head?_eq_none_iff.1 hfirst] at htokens
      cases htokens
      rw [← hsame (compile_of_ofTokens_error hlex rfl)]
      exact .inr rfl
    | some first =>
      obtain ⟨last, hlast⟩ := Option.isSome_iff_exists.1
        (List.getLast?_isSome.2 (List.ne_nil_of_mem (List.mem_of_mem_head? hfirst)))
      rcases ofTokens_spec htokens hfirst hlast cs with ⟨-, e', he', hat⟩ |
        ⟨-, -, e', he', hat⟩ | ⟨-, -, hbuild⟩
      · rw [← hsame (compile_of_ofTokens_error hlex he')]
        exact .inl ⟨_, first, List.mem_of_mem_head? hfirst, hat⟩
      · rw [← hsame (compile_of_ofTokens_error hlex he')]
        exact .inl ⟨_, last, List.mem_of_getLast? hlast, hat⟩
      · have hops := mapM_ofToken htokens
        cases hres : (words cs).find? (·.operation?.isNone) with
        | some w =>
          rw [hres] at hops
          obtain ⟨t, ht, he'⟩ := hops
          rw [← hsame (compile_of_ofTokens_error hlex (hbuild.trans he'))]
          exact .inl ⟨_, w, List.mem_of_find?_eq_some hres, CompileError.isAt_atToken ht _ _⟩
        | none =>
          rw [hres] at hops
          obtain ⟨os, hos, hwords⟩ := hops
          have hbuilt := hbuild.trans hos
          have hfrags := fragmentsFrom_spec hwords 0
          cases hwide : (words cs).find? Word.isWide with
          | some w =>
            rw [hwide] at hfrags
            obtain ⟨e', he', hat⟩ := hfrags
            rw [← hsame (compile_of_fragments_error hlex hbuilt he')]
            exact .inl ⟨_, w, List.mem_of_find?_eq_some hwide, hat⟩
          | none =>
            rw [hwide] at hfrags
            obtain ⟨fs, hfs⟩ := hfrags
            exact .inr (pos_of_layout_error hlex hbuilt hfs h)

theorem IsRun.add_length_le {w : Word} (h : IsRun cs w) : w.pos + w.text.length ≤ cs.length := by
  obtain ⟨before, after, rfl, hpos, -, -⟩ := h.bounded
  simp only [List.length_append]
  omega

/-- **Positions point into the expression**, and a token is the word at its position. -/
theorem place_of_compile_error (h : compile r cs = .error (.error e)) (hpos : 0 ≤ e.pos) :
    ∃ n : Nat, e.pos = n ∧ n < cs.length ∧
      (e.token ≠ "" → ∃ w, IsRun cs w ∧ w.pos = n ∧ e.token = String.ofList w.text) := by
  rcases compile_error_cases h with hlex | ⟨kind, w, hw, hat⟩ | hnone
  · obtain ⟨htoken, w, hw, n, hn, hcovers⟩ := exists_covers_of_lex_error hlex
    have hle := (mem_words_iff.1 hw).add_length_le
    have hlt := hcovers.2
    exact ⟨n, hn, by omega, fun hne => absurd htoken hne⟩
  · have hrun := mem_words_iff.1 hw
    have hle := hrun.add_length_le
    have hlt := List.length_pos_of_ne_nil hrun.ne_nil
    exact ⟨w.pos, hat.pos, by omega, fun _ => ⟨w, hrun, rfl, hat.token⟩⟩
  · omega

namespace Command

/-! ### What a report shows -/

/-- How a glyph of an expression is shown on one line: a stray byte as the replacement character, a
tab or the end of a line as a space. -/
def shown : Glyph → Char
  | .stray _ => Glyph.replacement
  | .char c => if c = '\t' ∨ c = '\r' ∨ c = '\n' then ' ' else c

/-- A report points at position `n` of an expression `t`: below its message stands the expression on
one line, behind two spaces, and below that a caret in the column of the glyph at `n`. -/
structure PointsAt (palette : Palette) (message : String) (t : Text) (n : Nat) (echo : List Char)
    (report : Text) : Prop where
  report_eq : report =
    palette.red (Text.ofString message) ++ Text.ofString "\n" ++
      (Text.ofString "  " ++ echo.map .char ++ Text.ofString "\n") ++
      (List.replicate (n + 2) (.char ' ') ++ palette.bold (Text.ofString "^") ++
        Text.ofString "\n")
  echo_eq : echo = t.map shown
  length_echo : echo.length = t.length
  unbroken : '\n' ∉ echo
  above : ∃ g, t[n]? = some g ∧
    (Text.ofString "  " ++ echo.map .char)[n + 2]? = some (.char (shown g))

theorem oneLine_chars (t : Text) : oneLine (Text.chars t) = t.map shown := by
  rw [oneLine, Text.chars, List.map_map]
  refine List.map_congr_left fun g _ => ?_
  cases g with
  | stray b => rfl
  | char c =>
    have hsame : (c = '\n' ∨ c = '\t' ∨ c = '\r') ↔ (c = '\t' ∨ c = '\r' ∨ c = '\n') := by
      tauto
    simp only [Function.comp_apply, Glyph.toChar, shown, hsame]

theorem shown_ne_newline (g : Glyph) : shown g ≠ '\n' := by
  cases g with
  | stray b => exact (by decide : Glyph.replacement ≠ '\n')
  | char c =>
    rw [shown]
    split_ifs with h
    · decide
    · exact fun hc => h (.inr (.inr hc))

theorem pointAt_eq (palette : Palette) {expression : List Char} {n : Nat}
    (h : n < expression.length) :
    pointAt palette expression n =
      (Text.ofString "  " ++ (oneLine expression).map .char ++ Text.ofString "\n") ++
        (List.replicate (n + 2) (.char ' ') ++ palette.bold (Text.ofString "^") ++
          Text.ofString "\n") := by
  have hinside : ¬ ((n : Int) < 0 ∨ expression.isEmpty = true ∨ (expression.length : Int) < n) := by
    rw [List.isEmpty_iff_length_eq_zero]
    omega
  have hspaces : Text.ofString (Text.spaces n) = List.replicate n (.char ' ') := by
    rw [Text.ofString, Text.spaces, String.toList_ofList, List.map_replicate]
  have hindent : Text.ofString "\n  " ++ List.replicate n (.char ' ') =
      Text.ofString "\n" ++ List.replicate (n + 2) (.char ' ') := rfl
  have hecho : Text.ofString (String.ofList (oneLine expression)) =
      (oneLine expression).map .char := by
    rw [Text.ofString, String.toList_ofList]
  rw [pointAt, if_neg hinside, Int.toNat_natCast, Code.ofString_append, Code.ofString_append,
    Code.ofString_append, hspaces, hecho, List.append_assoc _ _ (List.replicate ..), hindent]
  simp only [List.append_assoc]

theorem pointsAt_compileReport (palette : Palette) {t : Text} {n : Nat} (hn : n < t.length)
    {e : CompileError} (he : e.pos = n) :
    PointsAt palette e.message t n (t.map shown) (compileReport palette (Text.chars t) e) where
  report_eq := by
    have hlength : n < (Text.chars t).length := by rwa [Text.chars, List.length_map]
    rw [compileReport, he, pointAt_eq palette hlength, oneLine_chars]
    simp only [List.append_assoc]
  echo_eq := rfl
  length_echo := List.length_map ..
  unbroken h := by
    obtain ⟨g, -, hg⟩ := List.mem_map.1 h
    exact shown_ne_newline g hg
  above := by
    refine ⟨t[n], List.getElem?_eq_getElem hn, ?_⟩
    change ((t.map shown).map Glyph.char)[n]? = _
    rw [List.getElem?_map, List.getElem?_map, List.getElem?_eq_getElem hn]
    rfl

/-- **Reports point into the expression.** Let the expression with bytes `bs`, read as UTF-8, fail
to compile for some stack region with an error that has a position. The position is that of a glyph.
If the error carries a token, that is the word which starts there. The report always shows the
expression, glyph by glyph, and a caret below the glyph at the position. -/
theorem report_points {r : StackRegion} {bs : List UInt8} {e : CompileError}
    (h : compile r (Text.chars (Text.decode bs)) = .error (.error e)) (hpos : 0 ≤ e.pos) :
    Text.Decodes bs (Text.decode bs) ∧
      ∃ n : Nat, e.pos = n ∧ n < (Text.decode bs).length ∧
        (e.token ≠ "" → ∃ w, IsRun (Text.chars (Text.decode bs)) w ∧ w.pos = n ∧
          e.token = String.ofList w.text) ∧
        ∀ palette, ∃ echo, PointsAt palette e.message (Text.decode bs) n echo
          ((Failure.compile (Text.chars (Text.decode bs)) e).report palette) := by
  obtain ⟨n, hn, hlt, htoken⟩ := place_of_compile_error h hpos
  have hlt : n < (Text.decode bs).length := by rwa [Text.chars, List.length_map] at hlt
  exact ⟨Text.decodes_decode bs, n, hn, hlt, htoken,
    fun palette => ⟨_, pointsAt_compileReport palette hlt hn⟩⟩

/-- A tab, a letter of two bytes and a stray byte count as one character each; a number that does
not fit is shown as it was written. -/
theorem report_points_columns :
    let region := StackRegion.ofBounds 0 0
    let bs : List UInt8 := [0x31, 0x09, 0xc3, 0xa9, 0xff, 0x20, 0x2b]
    let cs := Text.chars (Text.decode bs)
    let errors : List LexError := [⟨.unknownWord "é", 2⟩, ⟨.unexpectedChar Glyph.replacement, 3⟩]
    let e : CompileError := { kind := .lexical, pos := 2, cause := some (.lexical errors) }
    let wide : List UInt8 := [0x37, 0x0d, 0x0a, 0x32, 0x31, 0x34, 0x37, 0x34, 0x38, 0x33, 0x36, 0x34,
      0x38, 0x20, 0x2a]
    let e' : CompileError :=
      { kind := .codeGeneration, pos := 3, token := "2147483648", detail := .literalWidth
        cause := some (.literal "2147483648" .outOfRange) }
    (compile region cs = .error (.error e) ∧
      (Failure.compile cs e).report .plain =
        Text.ofString e.message ++ Text.ofString "\n  1 é\ufffd +\n    ^\n") ∧
      compile region (Text.chars (Text.decode wide)) = .error (.error e') ∧
      IsRun (Text.chars (Text.decode wide)) ⟨3, "2147483648".toList⟩ := by
  intro region bs cs errors e wide e'
  have h : compile region cs = .error (.error e) := by decide +kernel
  have h' : compile region (Text.chars (Text.decode wide)) = .error (.error e') := by rfl
  refine ⟨⟨h, ?_⟩, h', ?_⟩
  · obtain ⟨-, n, hn, -, -, hreport⟩ := report_points h (by decide)
    obtain rfl : 2 = n := Int.ofNat.inj hn
    obtain ⟨echo, hp⟩ := hreport .plain
    have hecho : echo = ['1', ' ', 'é', Glyph.replacement, ' ', '+'] :=
      hp.echo_eq.trans (by decide +kernel)
    rw [hp.report_eq, hecho, List.append_assoc, List.append_assoc]
    rfl
  · obtain ⟨-, n, hn, -, htoken, -⟩ := report_points h' (by decide)
    obtain rfl : 3 = n := Int.ofNat.inj hn
    obtain ⟨⟨pos, text⟩, hrun, hpos, htext⟩ := htoken (by decide)
    obtain rfl : pos = 3 := hpos
    have htext : "2147483648" = String.ofList text := htext
    rwa [htext, String.toList_ofList]

end Command

end RpnY86
