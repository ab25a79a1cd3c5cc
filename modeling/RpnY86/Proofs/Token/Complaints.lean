import RpnY86.Proofs.Token.Runs

/-! # What the lexer reports

A word that the grammar does not spell can be found fault with in several places: reading goes on
inside it behind unknown letters and stray characters, and only what is glued to a good word is
passed over. It never goes on beyond the word (`stays_scanAt`). So the complaints about a text are
those about its words, one word after the other (`exists_complaints_among`), and a word has some
just if it is of no kind. `lex_error_places` reads off where the reported positions are. -/

namespace RpnY86

open Lexer (behindRun complaints isSeparator run scan scanAt scanFrom Scanned)

variable {c : Char} {cs : List Char}

/-- A position lies inside a word. -/
def Word.Covers (w : Word) (n : Nat) : Prop := w.pos ≤ n ∧ n < w.pos + w.text.length

namespace Lexer

/-! ### One place -/

/-- What is found at a run takes some characters of it and none beyond, and a complaint is about one
of those it takes. -/
structure Scanned.Stays (found : Scanned) (pos : Nat) (w : List Char) : Prop where
  width_pos : 0 < found.width
  width_le : found.width ≤ w.length
  place : ∀ e, found.result = .error e → pos ≤ e.pos ∧ e.pos < pos + found.width

theorem stays_error {pos : Nat} {x : Complaint} {text glued : List Char} (h : text ≠ []) :
    Scanned.Stays { result := .error { complaint := x, pos }, width := text.length } pos
      (text ++ glued) := by
  have hpos := List.length_pos_of_ne_nil h
  refine ⟨hpos, ?_, ?_⟩
  · rw [List.length_append]
    exact Nat.le_add_right ..
  · rintro e ⟨⟩
    exact ⟨Nat.le_refl pos, Nat.lt_add_of_pos_right hpos⟩

theorem stays_word {pos : Nat} {kind : TokenKind} {text rest : List Char} (h : text ≠ []) :
    (Scanned.word pos kind text rest).Stays pos (text ++ rest.takeWhile (!isSeparator ·)) := by
  have hpos := List.length_pos_of_ne_nil h
  unfold Scanned.word
  cases hg : rest.takeWhile (!isSeparator ·) with
  | nil =>
    refine ⟨hpos, ?_, ?_⟩
    · rw [List.append_nil]
      exact Nat.le_refl _
    · rintro e ⟨⟩
  | cons d ds =>
    show Scanned.Stays { result := .error _, width := text.length + (ds.length + 1) } pos _
    refine ⟨Nat.add_pos_left hpos _, ?_, ?_⟩
    · rw [List.length_append]
      exact Nat.le_refl _
    · rintro e ⟨⟩
      dsimp only
      omega

/-- **Reading stays in the run** where it starts. -/
theorem stays_scanAt (pos : Nat) (c : Char) (cs : List Char) :
    (scanAt pos c cs).Stays pos (run c cs) := by
  unfold scanAt
  dsimp only
  split
  · rw [run_eq (p := Char.isDigit) fun d => not_isSeparator (by decide)]
    exact stays_word (List.cons_ne_nil _ _)
  split
  · rw [run_eq (p := Text.isLetter) fun d => not_isSeparator (by decide)]
    split
    · exact stays_word (List.cons_ne_nil _ _)
    · exact stays_error (List.cons_ne_nil _ _)
  · show Scanned.Stays _ pos ([c] ++ cs.takeWhile (!isSeparator ·))
    have hc : [c] ≠ [] := List.cons_ne_nil c []
    split
    · exact stays_word hc
    · exact stays_error hc

/-- The complaint at one place, if there is one. -/
def Scanned.complaint (found : Scanned) : List LexError := complaints [found.result]

theorem Scanned.complaint_of_error {found : Scanned} {e : LexError}
    (h : found.result = .error e) : found.complaint = [e] := by
  rw [complaint, h]
  rfl

theorem Scanned.result_of_mem_complaint {found : Scanned} {e : LexError}
    (h : e ∈ found.complaint) : found.result = .error e := by
  cases hr : found.result with
  | ok t =>
    rw [complaint, hr] at h
    cases h
  | error e' =>
    rw [complaint_of_error hr] at h
    rw [List.mem_singleton.1 h]

theorem complaints_scanFrom (hc : isSeparator c = false) (pos : Nat) (cs : List Char) :
    complaints (scanFrom 0 pos (c :: cs)) = (scanAt pos c cs).complaint ++
      complaints (scanFrom 0 (pos + (scanAt pos c cs).width)
        ((c :: cs).drop (scanAt pos c cs).width)) := by
  obtain ⟨hpos, hle⟩ := width_scanAt pos c cs
  obtain ⟨k, hk⟩ := Nat.exists_eq_add_of_le' hpos
  rw [hk] at hle
  have hcons (x : Except LexError Token) (xs : List (Except LexError Token)) :
      complaints (x :: xs) = complaints [x] ++ complaints xs := List.filterMap_append (l := [x])
  rw [scanFrom, if_neg (by rw [hc]; decide)]
  dsimp only
  rw [hcons, hk, Nat.add_sub_cancel, scanFrom_skip (Nat.le_of_succ_le_succ hle),
    List.drop_succ_cons, Nat.add_assoc, Nat.add_comm 1 k]
  rfl

/-! ### One word -/

/-- Complaints about a stretch of `n` characters that starts at position `pos`. -/
structure Within (pos n : Nat) (es : List LexError) : Prop where
  sorted : es.Pairwise (·.pos < ·.pos)
  inside : ∀ e ∈ es, pos ≤ e.pos ∧ e.pos < pos + n

theorem Within.append {pos m n : Nat} {es fs : List LexError} (hes : Within pos m es)
    (hfs : Within (pos + m) n fs) : Within pos (m + n) (es ++ fs) := by
  constructor
  · rw [List.pairwise_append]
    refine ⟨hes.sorted, hfs.sorted, fun e he f hf => ?_⟩
    have := hes.inside e he
    have := hfs.inside f hf
    omega
  · intro e he
    rcases List.mem_append.1 he with he | he
    · have := hes.inside e he
      omega
    · have := hfs.inside e he
      omega

theorem Scanned.Stays.within {found : Scanned} {pos : Nat} {w : List Char}
    (h : found.Stays pos w) : Within pos found.width found.complaint := by
  constructor
  · cases hr : found.result with
    | ok t =>
      rw [Scanned.complaint, hr]
      exact .nil
    | error e =>
      rw [Scanned.complaint_of_error hr]
      exact List.pairwise_singleton ..
  · intro e he
    exact h.place e (Scanned.result_of_mem_complaint he)

/-- **Complaints about a stretch** of a text come before all others. Where reading starts, they
have what is found there. -/
theorem exists_complaints_stretch {u rest : List Char} (hu : ∀ d ∈ u, isSeparator d = false)
    (hrest : ∀ d ∈ rest.head?, isSeparator d = true) (pos : Nat) :
    ∃ es, complaints (scanFrom 0 pos (u ++ rest)) =
        es ++ complaints (scanFrom 0 (pos + u.length) rest) ∧
      Within pos u.length es ∧
      ∀ c v, u = c :: v → (scanAt pos c (v ++ rest)).complaint ⊆ es := by
  induction hn : u.length using Nat.strongRecOn generalizing pos u with
  | ind n ih =>
    cases u with
    | nil =>
      subst hn
      exact ⟨[], rfl, ⟨.nil, fun e he => (nomatch he)⟩, fun c v h => (nomatch h)⟩
    | cons c v =>
      rw [List.length_cons] at hn
      have hrun : run c (v ++ rest) = c :: v := by
        rw [run, takeWhile_stretch (fun d hd => hu d (List.mem_cons_of_mem c hd)) hrest]
      have hstays := stays_scanAt pos c (v ++ rest)
      rw [hrun] at hstays
      have hwithin := hstays.within
      obtain ⟨hwidth, hle, -⟩ := hstays
      rw [List.cons_append, complaints_scanFrom (hu c (List.mem_cons_self ..)), ← List.cons_append]
      generalize hfound : scanAt pos c (v ++ rest) = found at hwidth hle hwithin
      rw [List.length_cons] at hle
      have hlen : ((c :: v).drop found.width).length = n - found.width := by
        rw [List.length_drop, List.length_cons, hn]
      obtain ⟨es, hes, hafter, -⟩ := ih (n - found.width) (by omega)
        (fun d hd => hu d (List.mem_of_mem_drop hd)) (pos + found.width) hlen
      refine ⟨found.complaint ++ es, ?_, ?_, ?_⟩
      · rw [List.drop_append_of_le_length (by rw [List.length_cons]; exact hle), hes,
          List.append_assoc, Nat.add_assoc, Nat.add_sub_cancel' (by omega)]
      · have hall := hwithin.append hafter
        rwa [Nat.add_sub_cancel' (by omega)] at hall
      · rintro c' v' ⟨⟩
        rw [hfound]
        exact List.subset_append_left ..

/-- What is reported about a word: nothing if it is of a kind, and otherwise one or more positions
inside it. -/
structure Reports (w : Word) (es : List LexError) : Prop where
  within : Within w.pos w.text.length es
  ne_nil_iff : es ≠ [] ↔ w.token?.isNone

/-- **Complaints about the first word** of a text come before all others. -/
theorem exists_complaints_run (hc : isSeparator c = false) (pos : Nat) (cs : List Char) :
    ∃ es, complaints (scanFrom 0 pos (c :: cs)) =
        es ++ complaints (scanFrom 0 (pos + (run c cs).length) (behindRun cs)) ∧
      Reports ⟨pos, run c cs⟩ es := by
  have hbehind : ∀ d ∈ (behindRun cs).head?, isSeparator d = true :=
    fun d => isSeparator_head_behindRun
  obtain ⟨es, hes, hwithin, hfirst⟩ :=
    exists_complaints_stretch (not_isSeparator_of_mem_run hc cs) hbehind pos
  rw [run_append] at hes
  refine ⟨es, hes, hwithin, ?_⟩
  have hfits := fits_scanAt pos c cs
  unfold Scanned.Fits at hfits
  cases ht : Word.token? ⟨pos, run c cs⟩ with
  | none =>
    rw [ht] at hfits
    obtain ⟨e, he⟩ := hfits
    have hcut : cs.takeWhile (!isSeparator ·) ++ behindRun cs = cs :=
      List.takeWhile_append_dropWhile
    have hmem : e ∈ es := by
      refine hfirst c _ rfl ?_
      rw [hcut, Scanned.complaint_of_error he]
      exact List.mem_singleton_self e
    exact ⟨fun _ => rfl, fun _ => List.ne_nil_of_mem hmem⟩
  | some t =>
    -- the token of the whole word is all that is found
    rw [scanFrom_run hc ht] at hes
    have hnil : es = [] := List.self_eq_append_left.1 hes
    exact ⟨fun hne => absurd hnil hne, fun h => (nomatch h)⟩

/-! ### All words -/

/-- **Complaints go word by word.** -/
theorem exists_complaints_among (pos : Nat) (cs : List Char) :
    ∃ ess : List (List LexError), complaints (scanFrom 0 pos cs) = ess.flatten ∧
      List.Forall₂ Reports (Word.among pos (cs.splitOnP isSeparator)) ess := by
  induction pos, cs using run_induction with
  | nil pos => exact ⟨[], rfl, .nil⟩
  | separator pos c cs hc ih =>
    rw [scanFrom_separator hc, among_separator hc]
    exact ih
  | word pos c cs hc ih =>
    obtain ⟨es, hes, hreports⟩ := exists_complaints_run hc pos cs
    obtain ⟨ess, hess, hall⟩ := ih
    rw [among_run hc]
    exact ⟨es :: ess, by rw [hes, hess, List.flatten_cons], .cons hreports hall⟩

variable {ws : List Word} {ess : List (List LexError)}

/-- Whatever is reported lies in a word that is of no kind. -/
theorem exists_word_of_mem_flatten (h : List.Forall₂ Reports ws ess) {e : LexError}
    (he : e ∈ ess.flatten) : ∃ w ∈ ws, w.Covers e.pos ∧ w.token?.isNone := by
  induction h with
  | nil => cases he
  | @cons w es ws ess hw _ ih =>
    rw [List.flatten_cons] at he
    rcases List.mem_append.1 he with he | he
    · exact ⟨w, List.mem_cons_self .., hw.within.inside e he,
        hw.ne_nil_iff.1 (List.ne_nil_of_mem he)⟩
    · obtain ⟨v, hv, hcovers⟩ := ih he
      exact ⟨v, List.mem_cons_of_mem w hv, hcovers⟩

theorem exists_mem_flatten_of_word (h : List.Forall₂ Reports ws ess) {w : Word} (hw : w ∈ ws)
    (hbad : w.token?.isNone) : ∃ e ∈ ess.flatten, w.Covers e.pos := by
  induction h with
  | nil => cases hw
  | @cons v es ws ess hv _ ih =>
    rw [List.flatten_cons]
    rcases List.mem_cons.1 hw with rfl | hw
    · obtain ⟨e, he⟩ := List.exists_mem_of_ne_nil es (hv.ne_nil_iff.2 hbad)
      exact ⟨e, List.mem_append_left _ he, hv.within.inside e he⟩
    · obtain ⟨e, he, hcovers⟩ := ih hw
      exact ⟨e, List.mem_append_right _ he, hcovers⟩

/-- Where words stand in order, what is reported about them does too. -/
theorem pairwise_flatten (h : List.Forall₂ Reports ws ess)
    (hws : ws.Pairwise fun v w => v.pos + v.text.length < w.pos) :
    ess.flatten.Pairwise (·.pos < ·.pos) := by
  induction h with
  | nil => exact .nil
  | @cons w es ws ess hw hall ih =>
    obtain ⟨hfirst, hws⟩ := List.pairwise_cons.1 hws
    rw [List.flatten_cons, List.pairwise_append]
    refine ⟨hw.within.sorted, ih hws, fun e he f hf => ?_⟩
    obtain ⟨v, hv, hcovers, -⟩ := exists_word_of_mem_flatten hall hf
    have := (hw.within.inside e he).2
    have := hfirst v hv
    have := hcovers.1
    omega

end Lexer

theorem eq_of_covers {v w : Word} {n : Nat} (hv : v ∈ words cs) (hw : w ∈ words cs)
    (hvn : v.Covers n) (hwn : w.Covers n) : v = w := by
  by_contra hne
  have hapart : (words cs).Pairwise fun v w => ¬ (v.Covers n ∧ w.Covers n) := by
    refine (pairwise_words cs).imp fun {v w} hlt => ?_
    rintro ⟨⟨-, hv⟩, hw, -⟩
    omega
  have : Std.Symm fun v w : Word => ¬ (v.Covers n ∧ w.Covers n) := ⟨fun v w h hwv => h hwv.symm⟩
  exact hapart.forall hv hw hne ⟨hvn, hwn⟩

/-- **Where errors are reported.** A text that is refused is refused with a list of positions, in
strictly increasing order, and the first of them is the position of the error. Each lies in a run of
the text that the grammar does not spell. Each such run has one, and no other run has any. -/
theorem lex_error_places {e : CompileError} (h : lex cs = .error e) :
    ∃ first rest, e.kind = .lexical ∧ e.pos = first.pos ∧
      e.cause = some (.lexical (first :: rest)) ∧
      (first :: rest).Pairwise (·.pos < ·.pos) ∧
      (∀ x ∈ first :: rest, ∃ w, IsRun cs w ∧ w.Covers x.pos ∧ ∀ kind, ¬ Spells w.text kind) ∧
      ∀ w, IsRun cs w →
        ((∃ x ∈ first :: rest, w.Covers x.pos) ↔ ∀ kind, ¬ Spells w.text kind) := by
  obtain ⟨ess, hess, hreports⟩ := Lexer.exists_complaints_among 0 cs
  change complaints (scan cs) = ess.flatten at hess
  unfold lex at h
  dsimp only at h
  cases hfound : complaints (scan cs) with
  | nil =>
    rw [hfound] at h
    cases h
  | cons first rest =>
    rw [hfound] at h
    cases h
    rw [hfound] at hess
    refine ⟨first, rest, rfl, rfl, rfl, ?_, fun x hx => ?_, fun w hw => ⟨?_, fun hbad => ?_⟩⟩
    · rw [hess]
      exact Lexer.pairwise_flatten hreports (pairwise_words cs)
    · rw [hess] at hx
      obtain ⟨w, hw, hcovers, hbad⟩ := Lexer.exists_word_of_mem_flatten hreports hx
      exact ⟨w, mem_words_iff.1 hw, hcovers, isNone_token?_iff.1 hbad⟩
    · rintro ⟨x, hx, hwx⟩
      rw [hess] at hx
      obtain ⟨v, hv, hvx, hbad⟩ := Lexer.exists_word_of_mem_flatten hreports hx
      obtain rfl := eq_of_covers hv (mem_words_iff.2 hw) hvx hwx
      exact isNone_token?_iff.1 hbad
    · rw [hess]
      exact Lexer.exists_mem_flatten_of_word hreports (mem_words_iff.2 hw)
        (isNone_token?_iff.2 hbad)

/-- Three complaints about one word, and none about the words beside it. -/
theorem lex_error_places_word :
    let bad := ['f', 'o', 'o', '@', '3', 'x']
    let cs := ['7', ' '] ++ (bad ++ [' ', '-'])
    let errors : List LexError :=
      [⟨.unknownWord "foo", 2⟩, ⟨.unexpectedChar '@', 5⟩, ⟨.missingSeparator "3" "x", 7⟩]
    lex cs = .error { kind := .lexical, pos := 2, cause := some (.lexical errors) } ∧
      IsRun cs ⟨2, bad⟩ ∧ (∀ kind, ¬ Spells bad kind) ∧
      IsRun cs ⟨9, ['-']⟩ ∧ ¬ ∃ x ∈ errors, Word.Covers ⟨9, ['-']⟩ x.pos := by
  intro bad cs errors
  have hlex : lex cs = .error { kind := .lexical, pos := 2, cause := some (.lexical errors) } := by
    rfl
  have hbad : IsRun cs ⟨2, bad⟩ := mem_words_iff.1 (by decide)
  have hminus : IsRun cs ⟨9, ['-']⟩ := mem_words_iff.1 (by decide)
  obtain ⟨first, rest, -, -, hcause, -, -, hplaces⟩ := lex_error_places hlex
  obtain ⟨rfl, rfl⟩ : _ ∧ _ := List.cons.inj (Cause.lexical.inj (Option.some.inj hcause))
  have hcovered := (hplaces _ hbad).1 ⟨_, List.mem_cons_self .., by decide, by decide⟩
  refine ⟨hlex, hbad, hcovered, hminus, ?_⟩
  rw [hplaces _ hminus]
  exact fun h => h .minus .minus

end RpnY86
