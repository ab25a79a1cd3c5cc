import RpnY86.Proofs.Text.Decoding
import RpnY86.Proofs.Token.Words

/-! # Exact lexing

A run of a text is a longest stretch of it without separators (`IsRun`). The words of a text are its
runs, in order (`mem_words_iff`, `pairwise_words`).

`Spells w kind` is the grammar of words, one rule for each kind. `lex_decode` puts both together:
the bytes of an expression have tokens just if each run of their characters is spelled by the
grammar, and then the tokens are those of the runs. -/

namespace RpnY86

open Lexer (behindRun isSeparator run scan scanAt scanFrom)
open Numeral (isDigits isInteger)

variable {c : Char} {cs : List Char}

/-! ### The grammar of words -/

/-- A word is of a kind. -/
inductive Spells : List Char → TokenKind → Prop
  | number {ds : List Char} (hne : ds ≠ []) (hd : ∀ d ∈ ds, '0' ≤ d ∧ d ≤ '9') : Spells ds .number
  | negative {ds : List Char} (hne : ds ≠ []) (hd : ∀ d ∈ ds, '0' ≤ d ∧ d ≤ '9') :
    Spells ('-' :: ds) .number
  | plus : Spells ['+'] .plus
  | minus : Spells ['-'] .minus
  | asterisk : Spells ['*'] .asterisk
  | slash : Spells ['/'] .slash
  | mod : Spells ['%'] .mod
  | power : Spells ['^'] .power
  | factorial : Spells ['!'] .factorial
  | and : Spells ['a', 'n', 'd'] .and
  | xor : Spells ['x', 'o', 'r'] .xor
  | dup : Spells ['d', 'u', 'p'] .dup
  | swap : Spells ['s', 'w', 'a', 'p'] .swap

theorem isDigits_iff {w : List Char} :
    isDigits w = true ↔ w ≠ [] ∧ ∀ d ∈ w, '0' ≤ d ∧ d ≤ '9' := by
  have hdigit (d : Char) : d.isDigit = true ↔ '0' ≤ d ∧ d ≤ '9' := by
    rw [Char.isDigit, Bool.and_eq_true, decide_eq_true_eq, decide_eq_true_eq]
    rfl
  rw [isDigits, Bool.and_eq_true, Bool.not_eq_true', List.isEmpty_eq_false_iff, List.all_eq_true]
  simp only [hdigit]

theorem spells_number_of_isInteger {w : List Char} (h : isInteger w = true) :
    Spells w .number := by
  unfold isInteger at h
  split at h
  · obtain ⟨hne, hd⟩ := isDigits_iff.1 h
    exact .negative hne hd
  · obtain ⟨hne, hd⟩ := isDigits_iff.1 h
    exact .number hne hd

theorem isInteger_of_isDigits {w : List Char} (h : isDigits w = true) : isInteger w = true := by
  unfold isInteger
  split
  · exact nomatch h
  · exact h

theorem spells_of_mem_vocabulary {w : List Char} {kind : TokenKind}
    (h : (String.ofList w, kind) ∈ vocabulary) : Spells w kind := by
  have hspelled : ∀ p ∈ vocabulary, Spells p.1.toList p.2 := by
    simp only [vocabulary, List.forall_mem_cons, List.not_mem_nil, false_implies, implies_true,
      and_true]
    exact ⟨.plus, .minus, .asterisk, .slash, .mod, .power, .factorial, .and, .xor, .dup, .swap⟩
  simpa using hspelled _ h

/-- **Kinds follow the grammar.** -/
theorem ofWord?_eq_some_iff {w : List Char} {kind : TokenKind} :
    TokenKind.ofWord? w = some kind ↔ Spells w kind := by
  constructor
  · intro h
    rcases ofWord?_eq_some h with ⟨hi, rfl⟩ | ⟨-, hmem⟩
    · exact spells_number_of_isInteger hi
    · exact spells_of_mem_vocabulary hmem
  · intro h
    cases h with
    | number hne hd =>
      rw [TokenKind.ofWord?, if_pos (isInteger_of_isDigits (isDigits_iff.2 ⟨hne, hd⟩))]
    | @negative ds hne hd =>
      have hi : isInteger ('-' :: ds) = true := isDigits_iff.2 ⟨hne, hd⟩
      rw [TokenKind.ofWord?, if_pos hi]
    | _ => decide

/-! ### Runs -/

/-- A longest stretch of a text without separators. -/
structure IsRun (cs : List Char) (w : Word) : Prop where
  ne_nil : w.text ≠ []
  unbroken : ∀ d ∈ w.text, isSeparator d = false
  bounded : ∃ before after, cs = before ++ (w.text ++ after) ∧ before.length = w.pos ∧
    (∀ d ∈ before.getLast?, isSeparator d = true) ∧ ∀ d ∈ after.head?, isSeparator d = true

theorem isRun_cons_separator (hc : isSeparator c = true) {n : Nat} {t : List Char} :
    IsRun (c :: cs) ⟨n, t⟩ ↔ ∃ k, n = k + 1 ∧ IsRun cs ⟨k, t⟩ := by
  constructor
  · rintro ⟨hne, hall, before, after, hcs, hn, hbefore, hafter⟩
    cases before with
    | nil =>
      -- the run would start with the separator
      obtain ⟨d, ds, rfl⟩ := List.exists_cons_of_ne_nil hne
      obtain ⟨rfl, -⟩ := List.cons.inj hcs
      rw [hall c (List.mem_cons_self ..)] at hc
      exact nomatch hc
    | cons b before =>
      obtain ⟨rfl, rfl⟩ := List.cons.inj hcs
      refine ⟨before.length, hn.symm, hne, hall, before, after, rfl, rfl, ?_, hafter⟩
      intro d hd
      cases before with
      | nil => exact nomatch hd
      | cons b' before => exact hbefore d (by rwa [List.getLast?_cons_cons])
  · rintro ⟨k, rfl, hne, hall, before, after, rfl, rfl, hbefore, hafter⟩
    refine ⟨hne, hall, c :: before, after, rfl, rfl, ?_, hafter⟩
    intro d hd
    cases before with
    | nil =>
      obtain rfl := Option.some.inj hd
      exact hc
    | cons b before => exact hbefore d (by rwa [List.getLast?_cons_cons] at hd)

theorem takeWhile_stretch {u rest : List Char} (hu : ∀ d ∈ u, isSeparator d = false)
    (hrest : ∀ d ∈ rest.head?, isSeparator d = true) :
    (u ++ rest).takeWhile (!isSeparator ·) = u := by
  rw [List.takeWhile_append_of_pos fun d hd => by rw [hu d hd]; rfl]
  cases rest with
  | nil => rw [List.takeWhile_nil, List.append_nil]
  | cons d rest =>
    rw [List.takeWhile_cons_of_neg (by rw [hrest d rfl]; decide), List.append_nil]

/-- Such a stretch is all that a text has of it. -/
theorem eq_of_append_eq {r t rest after : List Char} (hr : ∀ d ∈ r, isSeparator d = false)
    (ht : ∀ d ∈ t, isSeparator d = false) (hrest : ∀ d ∈ rest.head?, isSeparator d = true)
    (hafter : ∀ d ∈ after.head?, isSeparator d = true) (h : r ++ rest = t ++ after) : r = t := by
  rw [← takeWhile_stretch hr hrest, h, takeWhile_stretch ht hafter]

theorem isRun_append {r rest : List Char} (hne : r ≠ []) (hr : ∀ d ∈ r, isSeparator d = false)
    (hrest : ∀ d ∈ rest.head?, isSeparator d = true) {n : Nat} {t : List Char} :
    IsRun (r ++ rest) ⟨n, t⟩ ↔ (n = 0 ∧ t = r) ∨ ∃ k, n = r.length + k ∧ IsRun rest ⟨k, t⟩ := by
  constructor
  · rintro ⟨htne, hall, before, after, hcs, hn, hbefore, hafter⟩
    rcases List.eq_nil_or_concat before with rfl | ⟨before', b, rfl⟩
    · exact .inl ⟨hn.symm, (eq_of_append_eq hr hall hrest hafter hcs).symm⟩
    · right
      have hb : isSeparator b = true := hbefore b (by simp)
      rcases List.append_eq_append_iff.1 hcs with ⟨x, hx, rfl⟩ | ⟨y, rfl, -⟩
      · have hlen := congrArg List.length hx
        rw [hn, List.length_append] at hlen
        refine ⟨x.length, hlen, htne, hall, x, after, rfl, rfl, ?_, hafter⟩
        intro d hd
        refine hbefore d ?_
        rw [hx, List.getLast?_append, hd]
        rfl
      · -- the separator in front would be part of the first stretch
        rw [hr b (by simp)] at hb
        exact nomatch hb
  · rintro (⟨rfl, rfl⟩ | ⟨k, rfl, htne, hall, before, after, rfl, rfl, hbefore, hafter⟩)
    · exact ⟨hne, hr, [], rest, rfl, rfl, fun d hd => (nomatch hd), hrest⟩
    · refine ⟨htne, hall, r ++ before, after, by rw [List.append_assoc], by simp, ?_, hafter⟩
      intro d hd
      cases before with
      | cons b before =>
        have hlast := List.getLast?_eq_some_getLast (List.cons_ne_nil b before)
        rw [List.getLast?_append, hlast, Option.some_or, ← hlast] at hd
        exact hbefore d hd
      | nil =>
        -- nothing but the separator in front of the rest can follow the first stretch
        obtain ⟨e, es, rfl⟩ := List.exists_cons_of_ne_nil htne
        have he := hrest e rfl
        rw [hall e (List.mem_cons_self ..)] at he
        exact nomatch he

theorem isSeparator_head_behindRun {d : Char} (hd : d ∈ (behindRun cs).head?) :
    isSeparator d = true := by
  cases hrest : behindRun cs with
  | nil =>
    rw [hrest] at hd
    exact nomatch hd
  | cons e es =>
    rw [hrest] at hd
    obtain rfl := Option.some.inj hd
    simpa using Lexer.head_dropWhile hrest

theorem mem_among_iff (pos : Nat) (cs : List Char) (w : Word) :
    w ∈ Word.among pos (cs.splitOnP isSeparator) ↔
      ∃ k, w.pos = pos + k ∧ IsRun cs ⟨k, w.text⟩ := by
  induction pos, cs using Lexer.run_induction with
  | nil pos =>
    constructor
    · intro h
      exact nomatch h
    · rintro ⟨k, -, hne, -, before, after, hcs, -⟩
      have hnil := (List.append_eq_nil_iff.1 hcs.symm).2
      exact absurd (List.append_eq_nil_iff.1 hnil).1 hne
  | separator pos c cs hc ih =>
    rw [among_separator hc, ih]
    constructor
    · rintro ⟨k, hk, hrun⟩
      exact ⟨k + 1, by omega, (isRun_cons_separator hc).2 ⟨k, rfl, hrun⟩⟩
    · rintro ⟨k, hk, hrun⟩
      obtain ⟨j, rfl, hrun'⟩ := (isRun_cons_separator hc).1 hrun
      exact ⟨j, by omega, hrun'⟩
  | word pos c cs hc ih =>
    have happend {k : Nat} {t : List Char} : IsRun (run c cs ++ behindRun cs) ⟨k, t⟩ ↔
        (k = 0 ∧ t = run c cs) ∨
          ∃ j, k = (run c cs).length + j ∧ IsRun (behindRun cs) ⟨j, t⟩ :=
      isRun_append (List.cons_ne_nil c _) (Lexer.not_isSeparator_of_mem_run hc cs)
        fun d => isSeparator_head_behindRun
    rw [among_run hc, List.mem_cons, ih]
    change _ ↔ ∃ k, w.pos = pos + k ∧ IsRun (c :: cs) ⟨k, w.text⟩
    simp only [← Lexer.run_append c cs]
    constructor
    · rintro (rfl | ⟨k, hk, hrun⟩)
      · exact ⟨0, rfl, happend.2 (.inl ⟨rfl, rfl⟩)⟩
      · exact ⟨(run c cs).length + k, by omega, happend.2 (.inr ⟨k, rfl, hrun⟩)⟩
    · rintro ⟨k, hk, hrun⟩
      rcases happend.1 hrun with ⟨rfl, ht⟩ | ⟨j, hj, hrun'⟩
      · obtain ⟨wpos, wtext⟩ := w
        dsimp only at hk ht
        rw [hk, ht]
        exact .inl rfl
      · exact .inr ⟨j, by omega, hrun'⟩

/-- **Words are runs.** -/
theorem mem_words_iff {w : Word} : w ∈ words cs ↔ IsRun cs w := by
  rw [words, mem_among_iff]
  constructor
  · rintro ⟨k, hk, hrun⟩
    rw [Nat.zero_add] at hk
    subst hk
    exact hrun
  · intro hrun
    exact ⟨w.pos, by omega, hrun⟩

theorem le_pos_of_mem_among {pos : Nat} {ps : List (List Char)} {w : Word}
    (h : w ∈ Word.among pos ps) : pos ≤ w.pos := by
  induction ps generalizing pos with
  | nil => exact nomatch h
  | cons p ps ih =>
    cases p with
    | nil =>
      have := ih h
      omega
    | cons c p =>
      rcases List.mem_cons.1 h with rfl | h
      · exact Nat.le_refl _
      · have := ih h
        omega

/-- Words stand in order, with a separator between any two. -/
theorem pairwise_among (pos : Nat) (ps : List (List Char)) :
    (Word.among pos ps).Pairwise fun v w => v.pos + v.text.length < w.pos := by
  induction ps generalizing pos with
  | nil => exact .nil
  | cons p ps ih =>
    cases p with
    | nil => exact ih (pos + 1)
    | cons c p =>
      refine .cons (fun w hw => ?_) (ih _)
      have := le_pos_of_mem_among hw
      dsimp only
      omega

theorem pairwise_words (cs : List Char) :
    (words cs).Pairwise fun v w => v.pos + v.text.length < w.pos :=
  pairwise_among 0 _

/-! ### Progress -/

namespace Lexer

theorem width_word (pos : Nat) (kind : TokenKind) (text rest : List Char) :
    text.length ≤ (Scanned.word pos kind text rest).width ∧
      (Scanned.word pos kind text rest).width ≤ text.length + rest.length := by
  have hle : (rest.takeWhile (!isSeparator ·)).length ≤ rest.length :=
    (List.takeWhile_prefix _).length_le
  unfold Scanned.word
  dsimp only
  split
  · exact ⟨Nat.le_refl _, Nat.le_add_right ..⟩
  · exact ⟨Nat.le_add_right .., Nat.add_le_add_left hle _⟩

/-- **Progress.** Whatever is found takes at least one character, and none beyond the end. -/
theorem width_scanAt (pos : Nat) (c : Char) (cs : List Char) :
    0 < (scanAt pos c cs).width ∧ (scanAt pos c cs).width ≤ cs.length + 1 := by
  have hcut (p : Char → Bool) : (cs.takeWhile p).length + (cs.dropWhile p).length = cs.length := by
    rw [← List.length_append, List.takeWhile_append_dropWhile]
  unfold scanAt
  dsimp only
  split
  · have hwidth := width_word pos .number (c :: cs.takeWhile Char.isDigit)
      (cs.dropWhile Char.isDigit)
    have := hcut Char.isDigit
    rw [List.length_cons] at hwidth
    omega
  split
  · have := hcut Text.isLetter
    split
    · rename_i kind _
      have hwidth := width_word pos kind (c :: cs.takeWhile Text.isLetter)
        (cs.dropWhile Text.isLetter)
      rw [List.length_cons] at hwidth
      omega
    · simp only [List.length_cons]
      omega
  · split
    · rename_i kind _
      have hwidth := width_word pos kind [c] cs
      rw [List.length_singleton] at hwidth
      omega
    · exact ⟨Nat.one_pos, Nat.le_add_left ..⟩

/-- So there are at most as many findings as characters. -/
theorem length_scanFrom_le (skip pos : Nat) (cs : List Char) :
    (scanFrom skip pos cs).length ≤ cs.length := by
  fun_induction scanFrom skip pos cs with
  | case1 => exact Nat.le_refl 0
  | case2 _ _ _ _ ih => exact Nat.le_succ_of_le ih
  | case3 _ _ _ _ ih => exact Nat.le_succ_of_le ih
  | case4 _ _ _ _ _ ih => exact Nat.succ_le_succ ih

end Lexer

/-! ### Tokens -/

/-- A token is that of a word. -/
structure IsTokenOf (w : Word) (t : Token) : Prop where
  kind : Spells w.text t.kind
  literal : t.literal = String.ofList w.text
  pos : t.pos = w.pos

theorem isTokenOf_of_token? {w : Word} {t : Token} (h : w.token? = some t) : IsTokenOf w t := by
  obtain ⟨kind, hkind, rfl⟩ := Option.map_eq_some_iff.1 h
  exact ⟨ofWord?_eq_some_iff.1 hkind, rfl, rfl⟩

theorem isNone_token?_iff {w : Word} : w.token?.isNone ↔ ∀ kind, ¬ Spells w.text kind := by
  simp only [Word.token?, Option.isNone_map, Option.isNone_iff_eq_none,
    Option.eq_none_iff_forall_ne_some, ne_eq, ofWord?_eq_some_iff]

theorem isNone_mapM_token?_iff {ws : List Word} :
    (ws.mapM Word.token?).isNone ↔ ∃ w ∈ ws, ∀ kind, ¬ Spells w.text kind := by
  simp only [← any_isNone_of_mapM, List.any_eq_true, isNone_token?_iff]

/-- **Exact lexing.** Bytes are read as UTF-8, a byte that starts no character as one replacement
character. The text has tokens just if each of its runs is spelled by the grammar; then they are the
tokens of the runs, in order, with the end behind them. Otherwise the text is refused. Scanning
makes progress wherever it starts to read, so it comes to an end. -/
theorem lex_decode (bs : List UInt8) :
    Text.Decodes bs (Text.decode bs) ∧
      ∃ (cs : List Char) (ws : List Word), cs = Text.chars (Text.decode bs) ∧
        (∀ w, w ∈ ws ↔ IsRun cs w) ∧
        ws.Pairwise (fun v w => v.pos + v.text.length < w.pos) ∧
        ((∃ ts, lex cs = .ok ts) ↔ ∀ w ∈ ws, ∃ kind, Spells w.text kind) ∧
        (∀ ts, lex cs = .ok ts → ∃ us, List.Forall₂ IsTokenOf ws us ∧
          ts = us ++ [{ kind := .eof, literal := "", pos := cs.length }]) ∧
        (∀ e, lex cs = .error e → e.kind = .lexical) ∧
        (∀ pos c rest, 0 < (scanAt pos c rest).width ∧
          (scanAt pos c rest).width ≤ rest.length + 1) ∧
        (scan cs).length ≤ cs.length := by
  obtain ⟨cs, hcs⟩ : ∃ cs, cs = Text.chars (Text.decode bs) := ⟨_, rfl⟩
  refine ⟨Text.decodes_decode bs, cs, words cs, hcs, fun w => mem_words_iff, pairwise_words cs, ?_⟩
  rw [← and_assoc, ← and_assoc]
  refine ⟨?_, Lexer.width_scanAt, Lexer.length_scanFrom_le 0 0 cs⟩
  have hlex := lex_eq cs
  have hbad : (∀ w ∈ words cs, ∃ kind, Spells w.text kind) ↔
      ((words cs).mapM Word.token?).isNone = false := by
    rw [← Bool.not_eq_true, isNone_mapM_token?_iff]
    push Not
    rfl
  rw [hbad]
  cases hts : (words cs).mapM Word.token? with
  | none =>
    rw [hts] at hlex
    obtain ⟨e, he, hkind⟩ := hlex
    rw [he]
    refine ⟨⟨⟨fun ⟨_, h⟩ => (nomatch h), fun h => (nomatch h)⟩, fun _ h => (nomatch h)⟩, ?_⟩
    rintro _ ⟨⟩
    exact hkind
  | some ts =>
    rw [hts] at hlex
    rw [hlex]
    refine ⟨⟨⟨fun _ => rfl, fun _ => ⟨_, rfl⟩⟩, ?_⟩, fun _ h => (nomatch h)⟩
    rintro _ ⟨⟩
    exact ⟨ts, (mapM_eq_some_iff.1 hts).imp fun _ _ => isTokenOf_of_token?, rfl⟩

end RpnY86
