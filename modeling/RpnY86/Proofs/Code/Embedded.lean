import RpnY86.Proofs.Assembly.Offsets
import RpnY86.Proofs.Code.Aside
import RpnY86.Proofs.Code.Labels
import RpnY86.Proofs.Code.Passes
import RpnY86.Proofs.Code.Traces

/-! # Generated lines within a program text

Lines of generated code can stand in any program text that can be assembled. `Embeds` says what the
passes of the assembler then make of them: their labels have their addresses, all their constants
are known, and their bytes stand in the image, from the offset that the lines before them have left
(`embeds_of_assemble`).

An `Embedding` is such a program text with its image. A memory that holds the bytes of its lines has
the lines placed in it (`Embedding.placed_of_takes`), and a machine that is at their beginning with
two operands on its stack follows the runs over views (`Embedding.Enters.run`). -/

namespace RpnY86.Assembly

/-! ### Lines of a text -/

/-- The lines of a text. -/
def pieces (t : Text) : List Text := (splitAtChar '\n' t).1 :: (splitAtChar '\n' t).2

/-- The number of line ends in a text. -/
def lineEnds (t : Text) : Nat := t.countP (·.is '\n')

/-- The number of bytes that the first `k` lines of a program text add to its image. -/
def lengthBefore? (source : Text) (k : Nat) : Option Nat :=
  match readLines source with
  | .error _ => none
  | .ok ls =>
    match (ls.take k).foldlM (Emission.addLine (assemble source).labels) ⟨0, #[]⟩ with
    | .ok e => some e.length
    | .error _ => none

theorem pieces_append (t u : Text) : pieces (t ++ .char '\n' :: u) = pieces t ++ pieces u := by
  induction t with
  | nil =>
    rw [List.nil_append, pieces, splitAtChar_cons, if_pos (by simp [Glyph.is])]
    rfl
  | cons g t ih =>
    simp only [pieces, List.cons_append, List.cons.injEq] at ih ⊢
    rw [splitAtChar_cons, splitAtChar_cons]
    split_ifs
    · exact ⟨rfl, by rw [List.cons_append, ih.1, ih.2]⟩
    · exact ⟨by rw [ih.1], ih.2⟩

theorem length_pieces (t : Text) : (pieces t).length = lineEnds t + 1 := by
  induction t with
  | nil => rfl
  | cons g t ih =>
    unfold pieces lineEnds at ih ⊢
    rw [splitAtChar_cons, List.countP_cons]
    split_ifs with hg
    · rw [List.length_cons, ih]
    · exact ih

/-! ### Labels -/

variable {t u labels : LabelTable} {ls : List Line} {a : UInt32}

/-- The first pass comes to the offset that the second one has reached. -/
theorem Lays.exists_locate {e e' : Emission} {parts : List (List UInt8)} {rest : List Line}
    (h : Lays labels e ls parts e') (hl : locate e.length.toUInt32 t (ls ++ rest) = (u, none)) :
    ∃ t', locate e'.length.toUInt32 t' rest = (u, none) := by
  induction h generalizing t with
  | nil e => exact ⟨t, hl⟩
  | @cons e e₁ e' l ls bs parts h₁ hgains _ ih =>
    rw [List.cons_append, locate] at hl
    split at hl
    · cases hl
    · rename_i t₁ hdefine
      rw [hgains.addressAfter, ← hgains.length] at hl
      exact ih hl

end RpnY86.Assembly

namespace RpnY86.Code

open Assembly (Emission Image LabelTable assemble lengthBefore? lineEnds pieces readLines)
open Y86 (Instruction Machine Memory)

section lines

variable {labels t : LabelTable} {n : Int} {ls : List Line}

/-! ### Reading -/

theorem pieces_render (h : ∀ l ∈ ls, l.Legible) (after : Text) :
    pieces (.ofString (render ls) ++ after) =
      (ls.map fun l => Text.ofString l.text) ++ pieces after := by
  induction ls with
  | nil => rfl
  | cons l ls ih =>
    have hl := h l (List.mem_cons_self ..)
    have hone : pieces (Text.ofString l.text) = [Text.ofString l.text] := by
      rw [pieces, Assembly.splitAtChar_eq_self hl.unbroken_text]
    rw [ofString_render_cons, List.append_assoc, List.cons_append, Assembly.pieces_append, hone,
      ih fun m hm => h m (List.mem_cons_of_mem l hm), List.map_cons]
    rfl

theorem readLines_eq (source : Text) :
    readLines source = ((pieces source).zipIdx 1).mapM fun p => Assembly.Line.read p.2 p.1 := rfl

theorem isIdentifier_of_read {name : String} (hname : IsWord name.toList) {number : Int}
    {l : Assembly.Line} (h : Assembly.Line.read number (.ofString (name ++ ":")) = .ok l) :
    Assembly.isIdentifier name.toList = true := by
  by_contra hno
  have hcode : (Text.ofString (name ++ ":")).takeWhile (!·.is '#') =
      Text.ofString name ++ [.char ':'] := by
    rw [ofString_append, List.takeWhile_eq_self_iff.2]
    · rfl
    · refine List.forall_mem_append.2 ⟨fun g hg => ?_, List.forall_mem_singleton.2 rfl⟩
      rw [is_of_isWord hname rfl g hg]
      rfl
  have hblank : ∀ g ∈ Text.ofString name, Assembly.blankGlyph g = false := fun g hg => by
    have := separatesFields_of_isWord hname g hg
    simp only [Assembly.separatesFields, Bool.or_eq_false_iff] at this
    exact this.1
  have hempty : (Text.ofString name).isEmpty = false := by
    rw [List.isEmpty_eq_false_iff]
    exact fun h0 => hname.1 (List.map_eq_nil_iff.1 h0)
  have hspace : ((Text.ofString name).any fun g => g.is ' ' || g.is '\t') = false := by
    rw [List.any_eq_false]
    intro g hg
    rw [is_of_isWord hname rfl g hg, is_of_isWord hname rfl g hg]
    exact Bool.false_ne_true
  have hlabels : Assembly.readLabels number (.ofString name) [[]] =
      .error { line := number, problem := .invalidLabel (.ofString name) } := by
    simp only [Assembly.readLabels, Assembly.trim_eq_self hblank, hempty, hspace, chars_ofString,
      hno]
    rfl
  have hsplit : Assembly.splitAtChar ':' (Text.ofString name ++ [.char ':']) =
      (Text.ofString name, [[]]) :=
    Assembly.splitAtChar_append (is_of_isWord hname (d := ':') rfl) []
  unfold Assembly.Line.read at h
  rw [hcode] at h
  simp only [hsplit] at h
  obtain ⟨labels, hread, -⟩ := bind_eq_ok.1 h
  cases hlabels.symm.trans hread

/-- Legible lines within a text are read as they were. -/
theorem exists_lines (h : ∀ l ∈ ls, l.Legible) {before after : Text} {all : List Assembly.Line}
    (hread : readLines (before ++ .char '\n' :: (.ofString (render ls) ++ after)) = .ok all) :
    ∃ first last, all = first ++ (listing (lineEnds before + 2 : Nat) ls ++ last) ∧
      first.length = lineEnds before + 1 := by
  rw [readLines_eq, Assembly.pieces_append, pieces_render h, List.zipIdx_append, List.mapM_append,
    Assembly.length_pieces] at hread
  obtain ⟨first, hfirst, hread⟩ := bind_eq_ok.1 hread
  obtain ⟨others, hothers, hread⟩ := bind_eq_ok.1 hread
  obtain rfl := Except.ok.inj hread
  rw [List.zipIdx_append, List.mapM_append] at hothers
  obtain ⟨mid, hmid, hothers⟩ := bind_eq_ok.1 hothers
  obtain ⟨last, -, hothers⟩ := bind_eq_ok.1 hothers
  obtain rfl := Except.ok.inj hothers
  have hstart : 1 + (lineEnds before + 1) = lineEnds before + 2 := by omega
  rw [hstart] at hmid
  obtain rfl := Except.ok.inj (hmid.symm.trans (mapM_read h (lineEnds before + 2)))
  refine ⟨first, last, rfl, ?_⟩
  rw [length_of_mapM hfirst, List.length_zipIdx, Assembly.length_pieces]

/-! ### Both passes -/

theorem labelled_of_locate (hc : ∀ l ∈ ls, l.isCode = true) {a : UInt32} {rest : List Assembly.Line}
    (h : Assembly.locate a t (listing n ls ++ rest) = (labels, none)) : Labelled labels a ls := by
  induction ls generalizing a t n with
  | nil => exact trivial
  | cons l ls ih =>
    rw [listing, List.cons_append, Assembly.locate] at h
    split at h
    · cases h
    · rename_i t' hdefine
      rw [addressAfter_code (hc l (List.mem_cons_self ..))] at h
      refine ⟨fun name hname => ?_, ih (fun m hm => hc m (List.mem_cons_of_mem l hm)) h⟩
      refine Assembly.address?_of_locate h ?_
      refine (Assembly.address?_define hdefine name a).mpr (.inr ⟨?_, rfl⟩)
      exact Option.mem_toList.mpr hname

theorem resolved_of_foldlM (hl : ∀ l ∈ ls, l.Legible) {e e' : Emission}
    (h : (listing n ls).foldlM (Emission.addLine labels) e = .ok e') : Resolved labels ls := by
  induction ls generalizing n e with
  | nil => exact fun l hl => absurd hl List.not_mem_nil
  | cons l ls ih =>
    rw [listing, List.foldlM_cons] at h
    obtain ⟨e₁, h₁, h⟩ := bind_eq_ok.1 h
    have hrest := ih (fun m hm => hl m (List.mem_cons_of_mem l hm)) h
    intro m hm i hi
    rcases List.mem_cons.mp hm with rfl | hm
    · have hname : (m.parsed n).mnemonic = some (Statement.instruction i).name := by
        simp only [Line.parsed, hi]
        rfl
      have hoperands : (m.parsed n).operands = (operands i).map .ofString := by
        simp only [Line.parsed, hi]
        rfl
      unfold Emission.addLine at h₁
      simp only [hname, ofName?_name] at h₁
      obtain ⟨j, hj, -⟩ := bind_eq_ok.1 h₁
      rw [resolve?_of_instruction ((hl m (List.mem_cons_self ..)).statement _ hi) hoperands
        (mapError_eq_ok.1 hj)]
      rfl
    · exact hrest m hm i hi

/-- The bytes of lines without directives. -/
def codeBytes (labels : LabelTable) (ls : List Line) : List UInt8 :=
  ls.flatMap fun l =>
    match l.statement with
    | some (.instruction i) => (resolve? labels i).elim [] Instruction.encode
    | _ => []

theorem bytes_codeChunks (labels : LabelTable) (a : Nat) (n : Int) (ls : List Line) :
    (codeChunks labels a n ls).flatMap Assembly.Chunk.bytes = codeBytes labels ls := by
  induction ls generalizing a n with
  | nil => rfl
  | cons l ls ih =>
    unfold codeChunks codeBytes
    cases hs : l.statement with
    | none => exact (ih a (n + 1)).trans (by simp [codeBytes, hs])
    | some s =>
      cases s with
      | directive d operand => exact (ih a (n + 1)).trans (by simp [codeBytes, hs])
      | instruction i =>
        simp only [List.flatMap_cons, hs]
        rw [ih]
        rfl

theorem length_codeBytes (hr : Resolved labels ls) : (codeBytes labels ls).length = size ls := by
  have h := (contiguous_codeChunks hr 0 0).length_bytes
  rw [bytes_codeChunks] at h
  omega

theorem codeBytes_cons (l : Line) (ls : List Line) :
    codeBytes labels (l :: ls) = codeBytes labels [l] ++ codeBytes labels ls := by
  simp [codeBytes]

theorem codeBytes_of_statement {l : Line} {i : Instruction Ref} {j : Instruction UInt32}
    (hi : l.statement = some (.instruction i)) (hj : resolve? labels i = some j) :
    codeBytes labels [l] = j.encode := by
  simp [codeBytes, hi, hj]

/-- Lines without directives in an assembled program, from offset `o` on. -/
structure Embeds (labels : LabelTable) (image : Image) (o : Nat) (ls : List Line) : Prop where
  labelled : Labelled labels o.toUInt32 ls
  resolved : Resolved labels ls
  bytes : (image.bytes.drop o).take (size ls) = codeBytes labels ls

/-- **Generated lines in a program that was assembled** are located, resolved and emitted. -/
theorem embeds_of_assemble (hl : ∀ l ∈ ls, l.Legible) (hc : ∀ l ∈ ls, l.isCode = true)
    {before after source : Text} {image : Image} {o : Nat}
    (hsource : source = before ++ .char '\n' :: (.ofString (render ls) ++ after))
    (himage : (assemble source).image = .ok image)
    (ho : lengthBefore? source (lineEnds before + 1) = some o) (hlt : o < 2 ^ 32) :
    Embeds (assemble source).labels image o ls := by
  obtain ⟨all, e, hall, hlocate, he, rfl⟩ := Assembly.exists_of_assemble himage
  obtain ⟨first, last, hsplit, hfirst⟩ := exists_lines hl (hsource ▸ hall)
  rw [hsplit, List.foldlM_append] at he
  obtain ⟨e₁, h₁, he⟩ := bind_eq_ok.1 he
  rw [List.foldlM_append] at he
  obtain ⟨e₂, h₂, h₃⟩ := bind_eq_ok.1 he
  have hlength : e₁.length = o := by
    unfold lengthBefore? at ho
    rw [hall] at ho
    dsimp only at ho
    rw [hsplit, ← hfirst, List.take_left' rfl, h₁] at ho
    exact Option.some.inj ho
  obtain ⟨parts, hlays⟩ := Assembly.exists_lays h₁ (by omega)
  rw [hsplit] at hlocate
  obtain ⟨t', hlocate⟩ := hlays.exists_locate hlocate
  rw [hlength] at hlocate
  have hresolved := resolved_of_foldlM hl h₂
  refine ⟨labelled_of_locate hc hlocate, hresolved, ?_⟩
  -- The image is what the lines before have left, the bytes of the lines, and what follows.
  obtain ⟨bs₁, hlen₁, hbytes₁⟩ := Assembly.exists_append_of_foldlM h₁
  obtain ⟨bs₃, -, hbytes₃⟩ := Assembly.exists_append_of_foldlM h₃
  have hemits := emits_code hl hc hresolved e₁.length (lineEnds before + 2 : Nat) e₁.chunks
  obtain rfl := Except.ok.inj (h₂.symm.trans hemits)
  have hmid : (Emission.image ⟨e₁.length + size ls, e₁.chunks ++
      (codeChunks (assemble source).labels e₁.length (lineEnds before + 2 : Nat)
        ls).toArray⟩).bytes =
      bs₁ ++ codeBytes (assemble source).labels ls := by
    have hold : e₁.chunks.toList.flatMap Assembly.Chunk.bytes = bs₁ := hbytes₁
    simp only [Emission.image, Array.toList_append, List.flatMap_append, hold, bytes_codeChunks]
  have hbs₁ : bs₁.length = o := by
    rw [← hlength, hlen₁]
    exact (Nat.zero_add _).symm
  rw [hbytes₃, hmid, List.append_assoc, List.drop_left' hbs₁,
    List.take_left' (length_codeBytes hresolved)]

/-! ### Placement -/

/-- Bytes that stand in memory from position `q` on. -/
structure Stands (m : Memory) (q : Nat) (bs : List UInt8) : Prop where
  inMemory : q + bs.length ≤ m.size
  inRange : q + bs.length ≤ 2 ^ 32
  byteAt : ∀ k (h : k < bs.length), m.byteAt (q + k) = bs[k]

namespace Stands

variable {m : Memory} {q : Nat} {bs cs : List UInt8}

theorem of_holdsAt {a : UInt32} (h : m.HoldsAt a bs) : Stands m a.toNat bs :=
  ⟨h.inMemory, h.inRange, h.byteAt⟩

theorem left (h : Stands m q (bs ++ cs)) : Stands m q bs := by
  have h₁ := h.inMemory
  have h₂ := h.inRange
  rw [List.length_append] at h₁ h₂
  refine ⟨by omega, by omega, fun k hk => ?_⟩
  rw [h.byteAt k (by rw [List.length_append]; omega), List.getElem_append_left hk]

theorem right (h : Stands m q (bs ++ cs)) : Stands m (q + bs.length) cs := by
  have h₁ := h.inMemory
  have h₂ := h.inRange
  rw [List.length_append] at h₁ h₂
  refine ⟨by omega, by omega, fun k hk => ?_⟩
  have hbyte := h.byteAt (bs.length + k) (by rw [List.length_append]; omega)
  rw [List.getElem_append_right (by omega)] at hbyte
  rw [Nat.add_assoc, hbyte]
  congr 1
  omega

theorem holdsAt (h : Stands m q bs) (hne : 0 < bs.length) : m.HoldsAt q.toUInt32 bs := by
  have hrange := h.inRange
  have hq : q.toUInt32.toNat = q := Nat.mod_eq_of_lt (by omega)
  exact ⟨by rw [hq]; exact h.inMemory, by rw [hq]; exact hrange, by rw [hq]; exact h.byteAt⟩

end Stands

/-- Whether a line loads through the stack pointer only, if it loads at all. -/
def Line.isPlain (l : Line) : Bool :=
  match l.statement with
  | some (.instruction (.load _ base _)) => base == some .esp
  | _ => true

theorem plain_of_resolve? {l : Line} (hl : l.isPlain = true) {i : Instruction Ref}
    (hi : l.statement = some (.instruction i)) {j : Instruction UInt32}
    (hj : resolve? labels i = some j) : Plain j := by
  cases i with
  | load d base dst =>
    obtain ⟨v, -, rfl⟩ := Option.map_eq_some_iff.1 hj
    simp only [Line.isPlain, hi, beq_iff_eq] at hl
    exact hl
  | constant | store | jump | call =>
    obtain ⟨v, -, rfl⟩ := Option.map_eq_some_iff.1 hj
    exact trivial
  | _ =>
    obtain rfl := Option.some.inj hj
    exact trivial

/-- A line that says nothing to the assembler: it has neither label nor statement. -/
def Line.IsSilent (l : Line) : Prop := l.label = none ∧ l.statement = none

theorem Line.IsSilent.size_cons {l : Line} (h : l.IsSilent) (ls : List Line) :
    Code.size (l :: ls) = Code.size ls := by
  rw [Code.size_cons, Line.size, h.2, Nat.zero_add]

theorem Line.IsSilent.placed_cons {l : Line} (h : l.IsSilent) {S : Site} {a : UInt32}
    (hp : S.Placed a ls) : S.Placed a (l :: ls) := by
  refine ⟨fun name hname => ?_, ?_, ?_⟩
  · rw [h.1] at hname
    cases hname
  · rw [h.2]
    exact trivial
  · rw [Line.next, h.2]
    exact hp

/-- The code of a site has whatever lines say, where it stands in a memory between two positions. -/
def Site.Takes (S : Site) (m : Memory) (low high : Nat) (ls : List Line) : Prop :=
  ∀ l ∈ ls, ∀ i j, l.statement = some (.instruction i) → resolve? S.labels i = some j →
    ∀ c : UInt32, m.HoldsAt c j.encode → low ≤ c.toNat → c.toNat + j.length ≤ high → S.code c j

section stands

variable {S : Site} {m : Memory} {low high q : Nat}

theorem has_of_stands {l : Line} (htakes : S.Takes m low high [l]) (hc : l.isCode = true)
    (hr : Resolved S.labels [l]) (hs : Stands m q (codeBytes S.labels [l])) (hlow : low ≤ q)
    (hhigh : q + l.size ≤ high) : S.Has q.toUInt32 l.statement := by
  have hl : l ∈ [l] := List.mem_cons_self ..
  cases hst : l.statement with
  | none => exact trivial
  | some s =>
    cases s with
    | directive d operand => exact absurd hst (statement_ne_of_isCode hc d operand)
    | instruction i =>
      obtain ⟨j, hj⟩ := Option.isSome_iff_exists.1 (hr l hl i hst)
      rw [codeBytes_of_statement hst hj] at hs
      have hlength := length_of_resolve? hj
      have hsize : l.size = i.length := by rw [Line.size, hst]
      have hpos : 0 < j.encode.length := by
        rw [Instruction.length_encode]
        cases j <;> exact Nat.succ_pos _
      have hq : q.toUInt32.toNat = q := by
        have := hs.inRange
        exact Nat.mod_eq_of_lt (by omega)
      refine ⟨j, hj, htakes l hl i j hst hj _ (hs.holdsAt hpos) ?_ ?_⟩
      · rw [hq]
        exact hlow
      · rw [hq]
        omega

theorem placed_of_stands (htakes : S.Takes m low high ls) (hc : ∀ l ∈ ls, l.isCode = true)
    (hr : Resolved S.labels ls) (hl : Labelled S.labels q.toUInt32 ls)
    (hs : Stands m q (codeBytes S.labels ls)) (hlow : low ≤ q) (hhigh : q + size ls ≤ high) :
    S.Placed q.toUInt32 ls := by
  induction ls generalizing q with
  | nil => exact trivial
  | cons l ls ih =>
    obtain ⟨hlabel, hl⟩ := hl
    rw [size_cons] at hhigh
    rw [codeBytes_cons] at hs
    have hl₁ : l ∈ l :: ls := List.mem_cons_self ..
    have hr₁ : Resolved S.labels [l] := List.forall_mem_singleton.2 (hr l hl₁)
    have htakes₁ : S.Takes m low high [l] := List.forall_mem_singleton.2 (htakes l hl₁)
    refine ⟨hlabel, has_of_stands htakes₁ (hc l hl₁) hr₁ hs.left hlow (by omega), ?_⟩
    have hright := hs.right
    rw [length_codeBytes hr₁] at hright
    rw [next_toUInt32] at hl ⊢
    exact ih (fun m hm => htakes m (List.mem_cons_of_mem l hm))
      (fun m hm => hc m (List.mem_cons_of_mem l hm))
      (fun m hm => hr m (List.mem_cons_of_mem l hm)) hl hright (by omega) (by omega)

end stands

end lines

/-! ### Operations on two operands -/

/-- What an operation on two operands leaves alone in its first `k` steps: `%esi`, `%edi`, and all
memory but the words of the operands. The stack pointer is never below where it was. -/
structure Contained (s : Machine) (k : Nat) : Prop where
  running : (Machine.step^[k] s).status = .running
  esi : (Machine.step^[k] s).get .esi = s.get .esi
  edi : (Machine.step^[k] s).get .edi = s.get .edi
  size : (Machine.step^[k] s).memory.size = s.memory.size
  byteAt : ∀ n, ¬ InPair (s.get .esp) n →
    (Machine.step^[k] s).memory.byteAt n = s.memory.byteAt n
  esp : ∀ j ≤ k, (Machine.step^[j] s).get .esp - s.get .esp ≤ 8 ∧
    ((s.get .esp).toNat + 8 < 2 ^ 32 → s.get .esp ≤ (Machine.step^[j] s).get .esp)

/-- A stack pointer above at most two operands is at most eight bytes above the lower of them. -/
theorem pointer_sub_le (p : UInt32) {k : Nat} (hk : k ≤ 2) :
    pointer p k - p ≤ 8 ∧ (p.toNat + 8 < 2 ^ 32 → p ≤ pointer p k) := by
  unfold pointer
  have hoffset : (UInt32.ofNat (8 - 4 * k)).toNat = 8 - 4 * k := by
    rw [UInt32.toNat_ofNat']
    omega
  constructor
  · rw [add_comm, UInt32.add_sub_cancel, UInt32.le_iff_toNat_le, hoffset]
    exact Nat.sub_le 8 _
  · intro hp
    rw [UInt32.le_iff_toNat_le, UInt32.toNat_add, hoffset]
    omega

/-! ### Numbers of labels -/

theorem isWord_localLabel {name : String} (h : IsWord name.toList) (n : Int) :
    IsWord (localLabel name n).toList := by
  rw [localLabel, String.toList_append, String.toList_append]
  refine (h.append ?_).append (isWord_decimal n).2
  exact List.forall_mem_singleton.2 rfl

/-- A label with a negative number is no identifier. -/
theorem nonneg_of_isIdentifier {name : String} {n : Int}
    (h : Assembly.isIdentifier (localLabel name n).toList = true) : 0 ≤ n := by
  cases n with
  | ofNat k => exact Int.natCast_nonneg k
  | negSucc k =>
    have hmem : '-' ∈ (localLabel name (.negSucc k)).toList := by
      simp [localLabel, Numeral.decimal, Numeral.signedDigits]
    have hbad : ∀ c ∈ (localLabel name (.negSucc k)).toList, c ≠ '-' := by
      rintro c hc rfl
      cases hcs : (localLabel name (.negSucc k)).toList with
      | nil => rw [hcs] at hc; exact absurd hc List.not_mem_nil
      | cons d ds =>
        rw [hcs, Assembly.isIdentifier, Bool.and_eq_true, List.all_eq_true] at h
        rw [hcs] at hc
        rcases List.mem_cons.mp hc with rfl | hc
        · exact absurd h.1 (by decide)
        · exact absurd (h.2 _ hc) (by decide)
    exact absurd rfl (hbad '-' hmem)

/-! ### Embeddings -/

/-- **Generated lines within an assembled program**: what stands before and behind them in the
program text, the image, and the address of the lines. Their first line is blank or a comment, so it
ends a line that the text before them may have begun. -/
structure Embedding (ls : List Line) where
  before : Text
  after : Text
  image : Image
  address : UInt32
  image_eq : (assemble (before ++ .ofString (render ls) ++ after)).image = .ok image
  address_eq : lengthBefore? (before ++ .ofString (render ls) ++ after) (lineEnds before + 1) =
    some address.toNat

namespace Embedding

variable {ls : List Line} (e : Embedding ls)

/-- The program text. -/
def source : Text := e.before ++ .ofString (render ls) ++ e.after

/-- The addresses of labels. -/
def labels : LabelTable := (assemble e.source).labels

/-- The bytes of the lines. -/
def bytes : List UInt8 := (e.image.bytes.drop e.address.toNat).take (size ls)

include e in
theorem isIdentifier {first last : List Line} {l : Line} {name : String}
    (hls : ls = first ++ l :: .mark name :: last) (hname : IsWord name.toList) :
    Assembly.isIdentifier name.toList = true := by
  subst hls
  obtain ⟨all, -, hall, -⟩ := Assembly.exists_of_assemble e.image_eq
  have hmark : (Line.mark name).text = name ++ ":" := by
    simp [Line.text, Line.labelText, Line.statementText, Line.mark]
  have htext : e.source = (e.before ++ Text.ofString (render first ++ l.text)) ++ .char '\n' ::
      (Text.ofString (name ++ ":") ++ .char '\n' :: (Text.ofString (render last) ++ e.after)) := by
    rw [source, render_append, ← hmark]
    simp only [render, List.map_cons, String.join_cons, Line.render_eq_text, ofString_append,
      List.append_assoc]
    rfl
  have hone : pieces (.ofString (name ++ ":")) = [.ofString (name ++ ":")] := by
    rw [pieces, Assembly.splitAtChar_eq_self]
    rw [ofString_append]
    refine List.forall_mem_append.2 ⟨is_of_isWord hname rfl, List.forall_mem_singleton.2 rfl⟩
  change readLines e.source = .ok all at hall
  rw [htext, readLines_eq, Assembly.pieces_append, Assembly.pieces_append, hone] at hall
  obtain ⟨⟨t, k⟩, hmem, rfl⟩ : ∃ p ∈ (pieces (e.before ++ Text.ofString (render first ++ l.text)) ++
      ([Text.ofString (name ++ ":")] ++ pieces (.ofString (render last) ++ e.after))).zipIdx 1,
      p.1 = Text.ofString (name ++ ":") := by
    rw [← List.mem_map (f := Prod.fst), List.zipIdx_map_fst]
    simp
  obtain ⟨line, hline⟩ := exists_of_mapM hall hmem
  exact isIdentifier_of_read hname hline

include e in
theorem exists_natCast_of_mark {first last : List Line} {l : Line} {name : String} {n : Int}
    (hls : ls = first ++ l :: .mark (localLabel name n) :: last) (hname : IsWord name.toList) :
    ∃ m : Nat, n = m :=
  Int.eq_ofNat_of_zero_le
    (nonneg_of_isIdentifier (e.isIdentifier hls (isWord_localLabel hname n)))

variable {first : Line} (hfirst : ls = first :: ls.tail) (hsilent : first.IsSilent)
  (hl : ∀ l ∈ ls, l.Legible) (hc : ∀ l ∈ ls, l.isCode = true)

include hfirst hl hc

theorem embeds : Embeds e.labels e.image e.address.toNat ls.tail := by
  have hline : ∀ g ∈ Text.ofString first.text, g.is '\n' = false := by
    refine (hl first ?_).unbroken_text
    rw [hfirst]
    exact List.mem_cons_self ..
  have hsource : e.source = (e.before ++ .ofString first.text) ++
      .char '\n' :: (.ofString (render ls.tail) ++ e.after) := by
    have hrender := ofString_render_cons first ls.tail
    rw [← hfirst] at hrender
    simp only [source, hrender, List.append_assoc, List.cons_append]
  have hends : lineEnds (e.before ++ .ofString first.text) = lineEnds e.before := by
    have hzero : (Text.ofString first.text).countP (·.is '\n') = 0 := by
      rw [List.countP_eq_zero]
      intro g hg
      rw [hline g hg]
      exact Bool.false_ne_true
    rw [lineEnds, List.countP_append, hzero, Nat.add_zero, lineEnds]
  refine embeds_of_assemble (fun l h => hl l (List.mem_of_mem_tail h))
    (fun l h => hc l (List.mem_of_mem_tail h)) hsource e.image_eq ?_ e.address.toNat_lt
  rw [hends]
  exact e.address_eq

include hsilent

/-- **Embedded lines are placed** at every site with the code of a memory that holds their bytes. -/
theorem placed_of_takes {S : Site} (hlabels : S.labels = e.labels) {m : Memory}
    (hm : m.HoldsAt e.address e.bytes)
    (htakes : S.Takes m e.address.toNat (e.address.toNat + size ls) ls) :
    S.Placed e.address ls := by
  have h := e.embeds hfirst hl hc
  rw [← hlabels] at h
  have hsize : size ls = size ls.tail := by
    conv_lhs => rw [hfirst]
    exact hsilent.size_cons ls.tail
  have hstands : Stands m e.address.toNat (codeBytes S.labels ls.tail) := by
    rw [← h.bytes, ← hsize]
    exact .of_holdsAt hm
  have htail := placed_of_stands (fun l h => htakes l (List.mem_of_mem_tail h))
    (fun l h => hc l (List.mem_of_mem_tail h)) h.resolved h.labelled hstands le_rfl (by omega)
  have ha : e.address.toNat.toUInt32 = e.address := UInt32.ofNat_toNat
  rw [ha] at htail
  have hplaced := hsilent.placed_cons htail
  rwa [← hfirst] at hplaced

omit hfirst hsilent hl hc

/-- Embedded lines stand beside a stack of two words. -/
theorem placed (hblank : ls = .blank :: ls.tail) (hl : ∀ l ∈ ls, l.Legible)
    (hc : ∀ l ∈ ls, l.isCode = true) (hp : ∀ l ∈ ls, l.isPlain = true) (hk : size ls ≤ 2 ^ 31)
    {m : Memory} (hm : m.HoldsAt e.address e.bytes) :
    (Site.aside m e.labels e.address (size ls) hk).Placed e.address ls :=
  e.placed_of_takes hblank ⟨rfl, rfl⟩ hl hc rfl hm fun l h _ _ hi hj _ hholds hlow hhigh =>
    ⟨hholds, hlow, hhigh, plain_of_resolve? (hp l h) hi hj⟩

/-- **A machine that is about to execute embedded lines**: it is at their address, the lines stand
in its memory, and on its stack are two operands, beside the lines. -/
structure Enters (s : Machine) : Prop where
  running : s.status = .running
  pc : s.pc = e.address
  holds : s.memory.HoldsAt e.address e.bytes
  upper : s.memory.hasWord (s.get .esp) = true
  lower : s.memory.hasWord (s.get .esp + 4) = true
  beside : ∀ k, e.address.toNat ≤ k → k < e.address.toNat + size ls → ¬ InPair (s.get .esp) k

variable {e}

/-- **Runs from two operands** are runs of the machine. -/
theorem Enters.run {s : Machine} (h : e.Enters s) {hk : size ls ≤ 2 ^ 31} {T : List UInt32 → Prop}
    {pc : UInt32} {st : OperandStack}
    (hrun : (Site.aside s.memory e.labels e.address (size ls) hk).LeadsBy T
      (Site.At e.address (s.get .esi) (s.get .edi) 0
        [s.memory.wordAt (s.get .esp).toNat, s.memory.wordAt (s.get .esp + 4).toNat])
      (Site.At pc (s.get .esi) (s.get .edi) 0 st)) :
    ∃ k, T (path s k) ∧ Contained s k ∧ (Machine.step^[k] s).pc = pc ∧
      (Machine.step^[k] s).get .esp = pointer (s.get .esp) st.length ∧
      Stacked (Machine.step^[k] s).memory (s.get .esp) st := by
  obtain ⟨trace, htrace, hrun⟩ := hrun
  obtain ⟨w, hruns, hw⟩ := hrun ⟨s.pc, s.registers, s.flags, 0, _⟩ ⟨h.pc, rfl, rfl, rfl, rfl⟩
  have hstart : Follows s.memory (s.get .esp) s ⟨s.pc, s.registers, s.flags, 0,
      [s.memory.wordAt (s.get .esp).toNat, s.memory.wordAt (s.get .esp + 4).toNat]⟩ :=
    ⟨h.running, rfl, rfl, fun _ _ => rfl, (UInt32.add_zero _).symm, rfl, fun _ _ => rfl, rfl, rfl⟩
  obtain ⟨hend, hpath, hesp⟩ := hstart.run hruns h.upper h.lower h.beside
  refine ⟨trace.length, ?_, ⟨hend.running, ?_, ?_, hend.size, hend.frame, fun j hj => ?_⟩, ?_, ?_,
    ?_⟩
  · rw [hpath]
    exact htrace
  · exact (hend.get .esi (by decide)).trans hw.esi
  · exact (hend.get .edi (by decide)).trans hw.edi
  · obtain ⟨i, hi, hj⟩ := hesp j hj
    rw [hj]
    exact pointer_sub_le _ hi
  · rw [hend.pc, hw.pc]
  · rw [hend.esp, hw.stack]
  · rw [← hw.stack]
    exact hend.stacked

end Embedding

/-! ### Embeddings exist -/

section

variable {ls ms : List Line}

/-- **Lines of code with distinct labels**, to which they refer, are assembled. -/
theorem exists_image (hl : ∀ l ∈ ls, l.Legible) (hc : ∀ l ∈ ls, l.isCode = true)
    (hd : (labelNames ls).Nodup) (hr : ∀ name ∈ references ls, name ∈ labelNames ls) :
    ∃ image, (assemble (.ofString (render ls))).image = .ok image ∧
      image.bytes.length = size ls := by
  have hlabels : ∀ name ∈ references ls, ((located 0 [] ls).address? name).isSome :=
    fun name h => (labelled_located hd 0 []).isSome (hr name h)
  have hresolved : Resolved (located 0 [] ls) ls := resolved_of_references hlabels
  have hlocate : Assembly.locate 0 [] (listing 1 (ls ++ [.blank])) = (located 0 [] ls, none) := by
    rw [listing_append, locates_code hc hd (fun _ _ => rfl) 0 1]
    rfl
  have hemit := (emits_code hl hc hresolved 0 1).append
    (emits_of_none (l := .blank) rfl _ _) #[]
  rw [Array.empty_append, List.append_nil, Nat.zero_add] at hemit
  refine ⟨Emission.image ⟨size ls, (codeChunks (located 0 [] ls) 0 1 ls).toArray⟩, ?_, ?_⟩
  · rw [assemble, readLines_render hl]
    dsimp only
    rw [Assembly.assembleLines, hlocate]
    dsimp only
    rw [Assembly.emit, hemit]
    rfl
  · have hbytes := bytes_codeChunks (located 0 [] ls) 0 1 ls
    rw [← length_codeBytes hresolved, ← hbytes]
    rfl

/-- Lines in front of others can be embedded, if their first one is silent. -/
theorem exists_embedding_of_isSilent {first : Line} (hfirst : ls = first :: ls.tail)
    (hsilent : first.IsSilent) (hl : ∀ l ∈ ls ++ ms, l.Legible)
    (hc : ∀ l ∈ ls ++ ms, l.isCode = true) (hd : (labelNames (ls ++ ms)).Nodup)
    (hr : ∀ name ∈ references (ls ++ ms), name ∈ labelNames (ls ++ ms)) :
    ∃ e : Embedding ls, e.address = 0 ∧ e.bytes.length = size ls := by
  obtain ⟨image, himage, hlength⟩ := exists_image hl hc hd hr
  have hsource : [] ++ Text.ofString (render ls) ++ Text.ofString (render ms) =
      Text.ofString (render (ls ++ ms)) := by
    rw [List.nil_append, render_append, ofString_append]
  have hadd (labels : LabelTable) :
      Emission.addLine labels ⟨0, #[]⟩ (first.parsed 1) = .ok ⟨0, #[]⟩ := by
    simp only [Emission.addLine, Line.parsed, hsilent.2]
    rfl
  have haddress : lengthBefore? (Text.ofString (render (ls ++ ms))) 1 = some 0 := by
    unfold lengthBefore?
    rw [readLines_render hl, hfirst]
    simp only [List.cons_append, listing, List.take_succ_cons, List.take_zero, List.foldlM_cons,
      List.foldlM_nil, hadd]
    rfl
  refine ⟨⟨[], .ofString (render ms), image, 0, ?_, ?_⟩, rfl, ?_⟩
  · rw [hsource, himage]
  · rw [hsource]
    exact haddress
  · have hle : size ls ≤ image.bytes.length := by
      rw [hlength, size_append]
      omega
    exact (List.length_take ..).trans (Nat.min_eq_left hle)

theorem exists_embedding (hblank : ls = .blank :: ls.tail) (hl : ∀ l ∈ ls ++ ms, l.Legible)
    (hc : ∀ l ∈ ls ++ ms, l.isCode = true) (hd : (labelNames (ls ++ ms)).Nodup)
    (hr : ∀ name ∈ references (ls ++ ms), name ∈ labelNames (ls ++ ms)) :
    ∃ e : Embedding ls, e.address = 0 ∧ e.bytes.length = size ls :=
  exists_embedding_of_isSilent hblank ⟨rfl, rfl⟩ hl hc hd hr

/-- A memory with bytes at its beginning and two words behind them. -/
def pairedMemory (bs : List UInt8) (x y : UInt32) : Memory :=
  (((Memory.zeros 4096).overlay bs).setWord 1000 y).setWord 1004 x

section pairedMemory

variable (bs : List UInt8) (x y : UInt32)

theorem size_pairedMemory : (pairedMemory bs x y).size = 4096 := rfl

theorem wordAt_pairedMemory :
    (pairedMemory bs x y).wordAt 1000 = y ∧ (pairedMemory bs x y).wordAt 1004 = x :=
  ⟨(Memory.wordAt_setWord_of_disjoint _ _ _ _ (by decide)).trans (Memory.wordAt_setWord ..),
    Memory.wordAt_setWord ..⟩

theorem hasWord_pairedMemory :
    (pairedMemory bs x y).hasWord 1000 = true ∧ (pairedMemory bs x y).hasWord 1004 = true :=
  ⟨(Memory.hasWord_iff _ _).2 (Nat.le_of_ble_eq_true rfl),
    (Memory.hasWord_iff _ _).2 (Nat.le_of_ble_eq_true rfl)⟩

theorem holdsAt_pairedMemory (h : bs.length ≤ 1000) : (pairedMemory bs x y).HoldsAt 0 bs := by
  have h1000 : (1000 : UInt32).toNat = 1000 := rfl
  have h1004 : (1004 : UInt32).toNat = 1004 := rfl
  have h0 : (0 : UInt32).toNat = 0 := rfl
  refine ⟨?_, ?_, fun k hk => ?_⟩
  · rw [h0, size_pairedMemory]
    omega
  · rw [h0]
    omega
  · rw [h0, Nat.zero_add, pairedMemory, Memory.byteAt_setWord_of_ne _ _ _ (by omega),
      Memory.byteAt_setWord_of_ne _ _ _ (by omega), Memory.byteAt_overlay, dif_pos hk]

end pairedMemory

theorem Embedding.exists_enters (e : Embedding ls) (ha : e.address = 0)
    (hlength : e.bytes.length = size ls) (hsize : size ls ≤ 1000) (x y : UInt32) :
    ∃ s : Machine, e.Enters s ∧ s.get .esp = 1000 ∧ s.memory.wordAt 1000 = y ∧
      s.memory.wordAt 1004 = x := by
  obtain ⟨hy, hx⟩ := wordAt_pairedMemory e.bytes x y
  obtain ⟨hupper, hlower⟩ := hasWord_pairedMemory e.bytes x y
  refine ⟨{ Machine.fresh 4096 with
    registers := { esp := 1000 }
    memory := pairedMemory e.bytes x y },
    ⟨rfl, ha.symm, ?_, hupper, hlower, fun k _ hk => ?_⟩, rfl, hy, hx⟩
  · rw [ha]
    exact holdsAt_pairedMemory e.bytes x y (by omega)
  · have h0 : (0 : UInt32).toNat = 0 := rfl
    rw [ha, h0, Nat.zero_add] at hk
    rintro (⟨hle, -⟩ | ⟨hle, -⟩)
    · have hle : 1000 ≤ k := hle
      omega
    · have hle : 1004 ≤ k := hle
      omega

end

end RpnY86.Code
