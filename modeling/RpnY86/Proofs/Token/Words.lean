import RpnY86.Compile.Error
import RpnY86.Proofs.Numeral.Integer
import RpnY86.Proofs.Results

/-! # The words of an expression

The words of a text are its pieces between separators. `lex_eq` says what the lexer makes of them:
if each word is an integer or one of the vocabulary, the tokens are those of the words, in order and
at their places; otherwise the text is refused. -/

namespace RpnY86

open Lexer (isSeparator scanAt scanFrom Scanned)
open Numeral (isDigits isInteger)

/-! ### Words -/

/-- A word of a text and the position of its first character. -/
structure Word where
  pos : Nat
  text : List Char
deriving DecidableEq, Repr

/-- The words among pieces of a text that have one separator between them. The first piece starts at
position `pos`. -/
def Word.among (pos : Nat) : List (List Char) → List Word
  | [] => []
  | [] :: ps => among (pos + 1) ps
  | (c :: p) :: ps => ⟨pos, c :: p⟩ :: among (pos + (c :: p).length + 1) ps

/-- The words of a text: its longest pieces without a separator. -/
def words (cs : List Char) : List Word := Word.among 0 (cs.splitOnP isSeparator)

/-- The words that are no numbers. -/
def vocabulary : List (String × TokenKind) :=
  [("+", .plus), ("-", .minus), ("*", .asterisk), ("/", .slash), ("%", .mod), ("^", .power),
   ("!", .factorial), ("and", .and), ("xor", .xor), ("dup", .dup), ("swap", .swap)]

/-- The kind of a word. -/
def TokenKind.ofWord? (w : List Char) : Option TokenKind :=
  if isInteger w then some .number else vocabulary.lookup (String.ofList w)

/-- The token of a word. -/
def Word.token? (w : Word) : Option Token :=
  (TokenKind.ofWord? w.text).map fun kind => { kind, literal := String.ofList w.text, pos := w.pos }

variable {c : Char} {cs : List Char}

/-! ### Runs of characters -/

namespace Lexer

/-- The run of characters that `c` starts, up to the next separator in `cs`. -/
def run (c : Char) (cs : List Char) : List Char := c :: cs.takeWhile (!isSeparator ·)

/-- What follows a run. -/
def behindRun (cs : List Char) : List Char := cs.dropWhile (!isSeparator ·)

theorem run_append (c : Char) (cs : List Char) : run c cs ++ behindRun cs = c :: cs := by
  rw [run, behindRun, List.cons_append, List.takeWhile_append_dropWhile]

/-- A text is read separator by separator and run by run. `pos` is the position reached. -/
@[elab_as_elim]
theorem run_induction {P : Nat → List Char → Prop} (nil : ∀ pos, P pos [])
    (separator : ∀ pos c cs, isSeparator c = true → P (pos + 1) cs → P pos (c :: cs))
    (word : ∀ pos c cs, isSeparator c = false →
      P (pos + (run c cs).length) (behindRun cs) → P pos (c :: cs))
    (pos : Nat) (cs : List Char) : P pos cs := by
  induction hn : cs.length using Nat.strongRecOn generalizing pos cs with
  | ind n ih =>
    cases cs with
    | nil => exact nil pos
    | cons c cs =>
      rw [List.length_cons] at hn
      cases hc : isSeparator c with
      | true => exact separator pos c cs hc (ih cs.length (by omega) _ cs rfl)
      | false =>
        have hle : (behindRun cs).length ≤ cs.length := (List.dropWhile_suffix _).length_le
        exact word pos c cs hc (ih _ (by omega) _ (behindRun cs) rfl)

theorem not_isSeparator_of_mem_run (h : isSeparator c = false) (cs : List Char) :
    ∀ d ∈ run c cs, isSeparator d = false := by
  intro d hd
  rcases List.mem_cons.1 hd with rfl | hd
  · exact h
  · simpa using List.all_eq_true.1 List.all_takeWhile d hd

theorem head_dropWhile {p : Char → Bool} {d : Char} {ds : List Char}
    (h : cs.dropWhile p = d :: ds) : p d = false := by
  have hhead := List.head?_dropWhile_not p cs
  rwa [h] at hhead

theorem head_takeWhile {q : Char → Bool} {d : Char} {ds : List Char}
    (h : cs.takeWhile q = d :: ds) : cs.head? = some d := by
  cases cs with
  | nil => exact nomatch h
  | cons e es =>
    rw [List.takeWhile_cons] at h
    split at h
    · rw [List.head?_cons, (List.cons.inj h).1]
    · exact nomatch h

theorem head_glued {p q : Char → Bool} {d : Char} {ds : List Char}
    (h : (cs.dropWhile p).takeWhile q = d :: ds) : p d = false := by
  have hhead := head_takeWhile h
  cases hrest : cs.dropWhile p with
  | nil =>
    rw [hrest] at hhead
    exact nomatch hhead
  | cons e es =>
    rw [hrest] at hhead
    obtain rfl := Option.some.inj hhead
    exact head_dropWhile hrest

end Lexer

open Lexer (run behindRun)

theorem among_separator (h : isSeparator c = true) (pos : Nat) (cs : List Char) :
    Word.among pos ((c :: cs).splitOnP isSeparator) =
      Word.among (pos + 1) (cs.splitOnP isSeparator) := by
  rw [List.splitOnP_cons_eq_if_modifyHead, if_pos h, Word.among]

/-- **The first word** of a text that starts with one. -/
theorem among_run (h : isSeparator c = false) (pos : Nat) (cs : List Char) :
    Word.among pos ((c :: cs).splitOnP isSeparator) =
      ⟨pos, run c cs⟩ ::
        Word.among (pos + (run c cs).length) ((behindRun cs).splitOnP isSeparator) := by
  have hrun := Lexer.not_isSeparator_of_mem_run h cs
  rw [← Lexer.run_append]
  cases hrest : behindRun cs with
  | nil =>
    rw [List.append_nil, List.splitOnP_eq_singleton hrun]
    rfl
  | cons s rest =>
    have hs : isSeparator s = true := by simpa using Lexer.head_dropWhile hrest
    rw [List.splitOnP_append_cons_of_forall_mem hrun s hs, List.splitOnP_cons_eq_if_modifyHead,
      if_pos hs]
    rfl

/-! ### Classes of words -/

theorem isInteger_cons {w : List Char} : isInteger (c :: w) = true ↔
    (c = '-' ∧ isDigits w = true) ∨ (c.isDigit = true ∧ w.all Char.isDigit = true) := by
  unfold isInteger
  split
  · rename_i h
    obtain ⟨rfl, rfl⟩ := List.cons.inj h
    simp
  · rename_i h
    have hc : c ≠ '-' := fun hc => h w (by rw [hc])
    simp [hc, isDigits]

/-- The vocabulary has operators of one character and words made of letters. -/
theorem vocabulary_spec : ∀ p ∈ vocabulary,
    (p.1.toList.length = 1 ∧ p.1.toList.head?.bind TokenKind.ofOperator? = some p.2) ∨
      (p.1.toList.all Text.isLetter = true ∧ TokenKind.ofKeyword? p.1 = some p.2) := by
  decide

theorem mem_vocabulary {s : String} {kind : TokenKind} (h : vocabulary.lookup s = some kind) :
    (s, kind) ∈ vocabulary := by
  obtain ⟨l₁, l₂, hl, -⟩ := List.lookup_eq_some_iff.1 h
  rw [hl]
  exact List.mem_append_right _ (List.mem_cons_self ..)

theorem ofWord?_eq_some {w : List Char} {kind : TokenKind} (h : TokenKind.ofWord? w = some kind) :
    (isInteger w = true ∧ kind = .number) ∨
      (isInteger w = false ∧ (String.ofList w, kind) ∈ vocabulary) := by
  unfold TokenKind.ofWord? at h
  split at h
  · rename_i hi
    exact .inl ⟨hi, (Option.some.inj h).symm⟩
  · rename_i hi
    exact .inr ⟨Bool.eq_false_iff.2 hi, mem_vocabulary h⟩

/-- A run of characters that is no integer, no operator and no word made of letters is no word. -/
theorem ofWord?_eq_none {w : List Char} (hi : isInteger w = false)
    (hop : ∀ c, w = [c] → TokenKind.ofOperator? c = none)
    (hkey : w.all Text.isLetter = true → TokenKind.ofKeyword? (String.ofList w) = none) :
    TokenKind.ofWord? w = none := by
  rw [TokenKind.ofWord?, hi, if_neg (by decide)]
  cases h : vocabulary.lookup (String.ofList w) with
  | none => rfl
  | some kind =>
    have hspec := vocabulary_spec _ (mem_vocabulary h)
    simp only [String.toList_ofList] at hspec
    rcases hspec with ⟨hlen, hsome⟩ | ⟨hall, hsome⟩
    · obtain ⟨c, rfl⟩ := List.length_eq_one_iff.1 hlen
      exact absurd hsome (by simp [hop c rfl])
    · exact absurd hsome (by simp [hkey hall])

theorem ofWord?_operator {kind : TokenKind} (h : TokenKind.ofOperator? c = some kind) :
    TokenKind.ofWord? [c] = some kind := by
  unfold TokenKind.ofOperator? at h
  split at h
  case h_8 => exact nomatch h
  all_goals
    obtain rfl := Option.some.inj h
    decide

theorem ofWord?_keyword {w : List Char} {kind : TokenKind}
    (h : TokenKind.ofKeyword? (String.ofList w) = some kind) :
    TokenKind.ofWord? w = some kind := by
  have hkeywords : ∀ p ∈ vocabulary.drop 7, TokenKind.ofWord? p.1.toList = some p.2 := by decide
  have hmem : (String.ofList w, kind) ∈ vocabulary.drop 7 := by
    unfold TokenKind.ofKeyword? at h
    simp only [vocabulary, List.drop]
    grind
  simpa using hkeywords _ hmem

/-! ### What the lexer finds -/

namespace Lexer

/-- What is found at a run of characters: its token if it is a word, and an error otherwise. -/
def Scanned.Fits (found : Scanned) (pos : Nat) (w : List Char) : Prop :=
  match Word.token? ⟨pos, w⟩ with
  | some t => found = { result := .ok t, width := w.length }
  | none => ∃ e, found.result = .error e

theorem Scanned.fits_of_error {found : Scanned} {pos : Nat} {w : List Char} {e : LexError}
    (h : found.result = .error e) (hw : TokenKind.ofWord? w = none) : found.Fits pos w := by
  rw [Fits, Word.token?, hw]
  exact ⟨e, h⟩

theorem Scanned.fits_word {pos : Nat} {kind : TokenKind} {text rest : List Char}
    (htext : TokenKind.ofWord? text = some kind)
    (hglued : ∀ d ds, rest.takeWhile (!isSeparator ·) = d :: ds →
      TokenKind.ofWord? (text ++ d :: ds) = none) :
    (Scanned.word pos kind text rest).Fits pos (text ++ rest.takeWhile (!isSeparator ·)) := by
  unfold Scanned.word
  cases hg : rest.takeWhile (!isSeparator ·) with
  | nil =>
    rw [List.append_nil, Fits, Word.token?, htext]
    rfl
  | cons d ds => exact fits_of_error rfl (hglued d ds hg)

theorem run_eq {p : Char → Bool} (hp : ∀ d, p d = true → isSeparator d = false) :
    run c cs = (c :: cs.takeWhile p) ++ (cs.dropWhile p).takeWhile (!isSeparator ·) := by
  have hall : ∀ d ∈ cs.takeWhile p, (!isSeparator d) = true := by
    intro d hd
    rw [hp d (List.all_eq_true.1 List.all_takeWhile d hd)]
    rfl
  have hcut : cs.takeWhile (!isSeparator ·) =
      cs.takeWhile p ++ (cs.dropWhile p).takeWhile (!isSeparator ·) := by
    rw [← List.takeWhile_append_of_pos hall, List.takeWhile_append_dropWhile]
  rw [run, hcut, List.cons_append]

theorem mem_of_isSeparator (h : isSeparator c = true) : c ∈ [' ', '\t', '\n', '\r'] := by
  simpa [isSeparator, or_assoc] using h

theorem not_isSeparator {p : Char → Bool} (hp : [' ', '\t', '\n', '\r'].any p = false)
    (h : p c = true) : isSeparator c = false := by
  cases hs : isSeparator c with
  | false => rfl
  | true =>
    exact absurd h (List.any_eq_false.1 hp c (mem_of_isSeparator hs))

theorem isInteger_of_isLetter (h : Text.isLetter c = true) (w : List Char) :
    isInteger (c :: w) = false := by
  cases hi : isInteger (c :: w) with
  | false => rfl
  | true =>
    rcases isInteger_cons.1 hi with ⟨rfl, -⟩ | ⟨hd, -⟩
    · exact nomatch h
    · rw [Numeral.isLetter_of_isDigit hd] at h
      exact nomatch h

/-- A run that starts like a number is one, or has something glued to it. -/
theorem fits_number (hc : c.isDigit = true ∨ (c = '-' ∧ cs.head?.any Char.isDigit = true))
    (pos : Nat) :
    (Scanned.word pos .number (c :: cs.takeWhile Char.isDigit) (cs.dropWhile Char.isDigit)).Fits pos
      (run c cs) := by
  have hletter : Text.isLetter c = false := by
    rcases hc with hd | ⟨rfl, -⟩
    · exact Numeral.isLetter_of_isDigit hd
    · rfl
  rw [run_eq (p := Char.isDigit) fun d => not_isSeparator (by decide)]
  refine Scanned.fits_word ?_ fun d ds hd => ?_
  · have hi : isInteger (c :: cs.takeWhile Char.isDigit) = true := by
      rw [isInteger_cons]
      rcases hc with hd | ⟨hminus, hd⟩
      · exact .inr ⟨hd, List.all_takeWhile⟩
      · refine .inl ⟨hminus, ?_⟩
        cases cs with
        | nil => exact nomatch hd
        | cons e es =>
          have he : e.isDigit = true := hd
          rw [isDigits, List.all_takeWhile, List.takeWhile_cons, if_pos he]
          rfl
    rw [TokenKind.ofWord?, if_pos hi]
  · have hd := head_glued hd
    refine ofWord?_eq_none ?_ ?_ ?_
    · rw [List.cons_append, Bool.eq_false_iff, ne_eq, isInteger_cons]
      simp [isDigits, hd]
    · simp
    · simp [hletter]

theorem isLetter_of_ofOperator? {kind : TokenKind} (h : TokenKind.ofOperator? c = some kind) :
    Text.isLetter c = false := by
  unfold TokenKind.ofOperator? at h
  split at h
  case h_8 => exact nomatch h
  all_goals rfl

/-- A run that starts with a letter is a word of the vocabulary, or none. -/
theorem fits_letters (hc : Text.isLetter c = true) (pos : Nat) :
    (match TokenKind.ofKeyword? (String.ofList (c :: cs.takeWhile Text.isLetter)) with
      | some kind =>
        Scanned.word pos kind (c :: cs.takeWhile Text.isLetter) (cs.dropWhile Text.isLetter)
      | none =>
        { result := .error
            { complaint := .unknownWord (String.ofList (c :: cs.takeWhile Text.isLetter)), pos }
          width := (c :: cs.takeWhile Text.isLetter).length }).Fits pos (run c cs) := by
  have hglued (d : Char) (ds : List Char)
      (hd : (cs.dropWhile Text.isLetter).takeWhile (!isSeparator ·) = d :: ds) :
      TokenKind.ofWord? (c :: cs.takeWhile Text.isLetter ++ d :: ds) = none := by
    have hd := head_glued hd
    exact ofWord?_eq_none (isInteger_of_isLetter hc _) (by simp) (by simp [hd])
  rw [run_eq (p := Text.isLetter) fun d => not_isSeparator (by decide)]
  cases hk : TokenKind.ofKeyword? (String.ofList (c :: cs.takeWhile Text.isLetter)) with
  | some kind => exact Scanned.fits_word (ofWord?_keyword hk) hglued
  | none =>
    refine Scanned.fits_of_error rfl ?_
    cases hg : (cs.dropWhile Text.isLetter).takeWhile (!isSeparator ·) with
    | cons d ds => exact hglued d ds hg
    | nil =>
      rw [List.append_nil]
      refine ofWord?_eq_none (isInteger_of_isLetter hc _) (fun c' hc' => ?_) fun _ => hk
      obtain ⟨rfl, -⟩ := List.cons.inj hc'
      cases hop : TokenKind.ofOperator? c with
      | none => rfl
      | some kind =>
        rw [isLetter_of_ofOperator? hop] at hc
        exact nomatch hc

/-- A run that starts with neither is an operator, or no word. -/
theorem fits_operator (hdigit : c.isDigit = false)
    (hminus : ¬ (c = '-' ∧ cs.head?.any Char.isDigit = true)) (hletter : Text.isLetter c = false)
    (pos : Nat) :
    (match TokenKind.ofOperator? c with
      | some kind => Scanned.word pos kind [c] cs
      | none => { result := .error { complaint := .unexpectedChar c, pos }, width := 1 }).Fits pos
        (run c cs) := by
  have hrun : run c cs = [c] ++ cs.takeWhile (!isSeparator ·) := rfl
  rw [hrun]
  cases hop : TokenKind.ofOperator? c with
  | some kind =>
    refine Scanned.fits_word (ofWord?_operator hop) fun d ds hd => ?_
    have hhead := head_takeWhile hd
    refine ofWord?_eq_none ?_ (by simp) (by simp [hletter])
    rw [List.singleton_append, Bool.eq_false_iff, ne_eq, isInteger_cons]
    rintro (⟨hc, hds⟩ | ⟨hc, -⟩)
    · refine hminus ⟨hc, ?_⟩
      rw [hhead]
      simp only [isDigits, List.all_cons, Bool.and_eq_true] at hds
      exact hds.2.1
    · rw [hdigit] at hc
      cases hc
  | none =>
    refine Scanned.fits_of_error rfl (ofWord?_eq_none ?_ (fun c' hc' => ?_) (by simp [hletter]))
    · rw [List.singleton_append, Bool.eq_false_iff, ne_eq, isInteger_cons]
      rintro (⟨rfl, -⟩ | ⟨hc, -⟩)
      · cases hop
      · rw [hdigit] at hc
        cases hc
    · obtain ⟨rfl, -⟩ := List.cons.inj hc'
      exact hop

/-- **A run of characters** is found as a word just if it is one. -/
theorem fits_scanAt (pos : Nat) (c : Char) (cs : List Char) :
    (scanAt pos c cs).Fits pos (run c cs) := by
  unfold scanAt
  split
  · rename_i hnumber
    refine fits_number ?_ pos
    simpa using hnumber
  split
  · rename_i hletter
    exact fits_letters hletter pos
  · rename_i hnumber hletter
    simp only [Bool.or_eq_true, Bool.and_eq_true, beq_iff_eq, not_or] at hnumber
    exact fits_operator (Bool.eq_false_iff.2 hnumber.1) hnumber.2 (Bool.eq_false_iff.2 hletter) pos

/-- Characters that are already read are passed over. -/
theorem scanFrom_skip {k : Nat} (h : k ≤ cs.length) (pos : Nat) :
    scanFrom k pos cs = scanFrom 0 (pos + k) (cs.drop k) := by
  induction k generalizing pos cs with
  | zero => rfl
  | succ k ih =>
    cases cs with
    | nil => exact absurd h (Nat.not_succ_le_zero k)
    | cons c cs =>
      rw [scanFrom, ih (Nat.le_of_succ_le_succ h), List.drop_succ_cons, Nat.add_right_comm]
      rfl

theorem scanFrom_separator (h : isSeparator c = true) (pos : Nat) (cs : List Char) :
    scanFrom 0 pos (c :: cs) = scanFrom 0 (pos + 1) cs := by
  rw [scanFrom, if_pos h]

theorem drop_length_takeWhile (p : Char → Bool) (cs : List Char) :
    cs.drop (cs.takeWhile p).length = cs.dropWhile p := by
  have hcut : (cs.takeWhile p ++ cs.dropWhile p).drop (cs.takeWhile p).length = cs.dropWhile p :=
    List.drop_left
  rwa [List.takeWhile_append_dropWhile] at hcut

theorem scanFrom_run (h : isSeparator c = false) {pos : Nat} {t : Token}
    (ht : Word.token? ⟨pos, run c cs⟩ = some t) :
    scanFrom 0 pos (c :: cs) = .ok t :: scanFrom 0 (pos + (run c cs).length) (behindRun cs) := by
  have hfits := fits_scanAt pos c cs
  rw [Scanned.Fits, ht] at hfits
  have hle : (cs.takeWhile (!isSeparator ·)).length ≤ cs.length :=
    (List.takeWhile_prefix _).length_le
  have hdrop : cs.drop (cs.takeWhile (!isSeparator ·)).length = behindRun cs :=
    drop_length_takeWhile _ cs
  have hlen : (run c cs).length - 1 = (cs.takeWhile (!isSeparator ·)).length := rfl
  rw [scanFrom, if_neg (by rw [h]; decide), hfits]
  simp only [hlen]
  rw [scanFrom_skip hle, hdrop, run, List.length_cons, Nat.add_right_comm, Nat.add_assoc]

/-- **The whole text**: the tokens of its words, or something to complain about. -/
theorem scanFrom_spec (pos : Nat) (cs : List Char) :
    match (Word.among pos (cs.splitOnP isSeparator)).mapM Word.token? with
    | some ts => scanFrom 0 pos cs = ts.map .ok
    | none => complaints (scanFrom 0 pos cs) ≠ [] := by
  induction pos, cs using run_induction with
  | nil pos => rfl
  | separator pos c cs hc ih =>
    rw [among_separator hc, scanFrom_separator hc]
    exact ih
  | word pos c cs hc hrest =>
    rw [among_run hc, List.mapM_cons]
    cases ht : Word.token? ⟨pos, run c cs⟩ with
    | none =>
      have hfits := fits_scanAt pos c cs
      rw [Scanned.Fits, ht] at hfits
      obtain ⟨e, he⟩ := hfits
      have hfound : scanFrom 0 pos (c :: cs) =
          .error e :: scanFrom ((scanAt pos c cs).width - 1) (pos + 1) cs := by
        rw [scanFrom, if_neg (by rw [hc]; decide)]
        simp only [he]
      rw [hfound]
      exact List.cons_ne_nil e _
    | some t =>
      rw [scanFrom_run hc ht]
      cases hts : (Word.among (pos + (run c cs).length)
          ((behindRun cs).splitOnP isSeparator)).mapM Word.token? with
      | none =>
        rw [hts] at hrest
        exact hrest
      | some ts =>
        rw [hts] at hrest
        exact congrArg (.ok t :: ·) hrest

theorem complaints_map_ok (ts : List Token) : complaints (ts.map .ok) = [] := by
  induction ts with
  | nil => rfl
  | cons t ts ih => exact ih

theorem tokens_map_ok (ts : List Token) : tokens (ts.map .ok) = ts := by
  induction ts with
  | nil => rfl
  | cons t ts ih => exact congrArg (t :: ·) ih

end Lexer

/-- **Lexing.** The tokens of a text are those of its words, with the end behind them; a text that
has a run of characters which is no word is refused. -/
theorem lex_eq (cs : List Char) :
    match (words cs).mapM Word.token? with
    | some ts => lex cs = .ok (ts ++ [Token.atEnd cs])
    | none => ∃ e, lex cs = .error e ∧ e.kind = .lexical := by
  have hscan := Lexer.scanFrom_spec 0 cs
  unfold lex Lexer.scan words
  cases hts : (Word.among 0 (cs.splitOnP isSeparator)).mapM Word.token? with
  | some ts =>
    rw [hts] at hscan
    simp only [hscan, Lexer.complaints_map_ok, Lexer.tokens_map_ok]
  | none =>
    rw [hts] at hscan
    cases hc : Lexer.complaints (scanFrom 0 0 cs) with
    | nil => exact absurd hc hscan
    | cons e es =>
      simp only [hc]
      exact ⟨_, rfl, rfl⟩

end RpnY86
