import RpnY86.Proofs.Assembly.Outcomes
import RpnY86.Proofs.Code.Assembled

/-! # Labels of generated code

Each label of a body is defined once, and head and tail of a program have others. A jump of a
fragment goes to a label of the same fragment or to a handler. So the assembler has no reason to
complain of a label, whatever the stack region is.

The statements are about text: labels and operands are those that are read from it. -/

namespace RpnY86.Code

open Assembly (Emission Keyword LabelTable assemble bare locate readLines word_eq)

/-- The labels that a program text defines, in order. -/
def namesIn (source : String) : Except Assembly.Error (List String) :=
  (fun ls => ls.flatMap Assembly.Line.labels) <$> readLines (.ofString source)

variable {os : List Operation} {fs : List (List Line)} {ls : List Line} {l : Line}
  {r : StackRegion} {n : Int}

/-! ### Lines as they are read -/

theorem flatMap_labels_listing (n : Int) (ls : List Line) :
    (listing n ls).flatMap Assembly.Line.labels = labelNames ls := by
  induction ls generalizing n with
  | nil => rfl
  | cons l ls ih =>
    rw [listing, List.flatMap_cons, ih, labelNames_cons]
    rfl

theorem exists_of_mem_listing {l' : Assembly.Line} (h : l' ∈ listing n ls) :
    ∃ l ∈ ls, ∃ m, l' = l.parsed m := by
  induction ls generalizing n with
  | nil => cases h
  | cons l ls ih =>
    rcases List.mem_cons.1 h with rfl | h
    · exact ⟨l, List.mem_cons_self .., n, rfl⟩
    · obtain ⟨k, hk, m, rfl⟩ := ih h
      exact ⟨k, List.mem_cons_of_mem l hk, m, rfl⟩

theorem namesIn_render (h : ∀ l ∈ ls, l.Legible) : namesIn (render ls) = .ok (labelNames ls) := by
  have hblank : labelNames (ls ++ [.blank]) = labelNames ls := by
    rw [labelNames_append]
    exact List.append_nil _
  rw [namesIn, readLines_render h, ← hblank, ← flatMap_labels_listing 1]
  rfl

/-- What a statement begins with. -/
def Statement.keyword : Statement → Keyword
  | .instruction i => .instruction i.mnemonic
  | .directive d _ => .directive d

theorem exists_of_keyword? {k : Keyword} (h : (l.parsed n).keyword? = some k) :
    ∃ s, l.statement = some s ∧ s.keyword = k ∧
      (l.parsed n).operands = s.operands.map .ofString := by
  unfold Assembly.Line.keyword? at h
  unfold Line.parsed at h ⊢
  cases hs : l.statement with
  | none =>
    rw [hs] at h
    cases h
  | some s =>
    rw [hs, Option.map_some, Option.bind_some, ofName?_name] at h
    refine ⟨s, rfl, Option.some.inj ?_, rfl⟩
    rw [← h]
    cases s <;> rfl

theorem render_fragment {m : Nat} {o : Operation} (h : fragment m o = .ok ls) :
    ∃ rest, render ls = "\n\t# [" ++ o.opcode.name ++ "]\n" ++ rest := by
  obtain ⟨e, code, -, -, rfl⟩ := fragment_eq_ok h
  have hopening : render (opening o.opcode) = "\n\t# [" ++ o.opcode.name ++ "]\n" := by
    have hopen : "\n\t# [" = "\n" ++ ("\t" ++ ("# " ++ "[")) := by decide
    have hclose : "]\n" = "]" ++ "\n" := by decide
    rw [hopen, hclose]
    simp only [render, opening, List.map_cons, List.map_nil, String.join_cons, String.join_nil,
      Line.render, Line.blank, Line.comment, String.append_assoc, String.empty_append,
      String.append_empty]
  rw [framed, List.append_assoc, List.append_assoc, List.append_assoc, render_append, hopening]
  exact ⟨_, rfl⟩

/-! ### Jumps -/

/-- Whether a line that jumps names a label. -/
def Line.jumpsByName (l : Line) : Bool :=
  match l.statement with
  | some (.instruction (.jump _ (.literal _))) => false
  | _ => true

theorem jumpsByName_fragment {m : Nat} {o : Operation} (h : fragment m o = .ok ls) :
    ∀ l ∈ ls, l.jumpsByName = true :=
  List.all_eq_true.1 (fragment_cases (P := fun _ ls => ls.all Line.jumpsByName = true)
    (fun _ => rfl) rfl rfl rfl rfl rfl rfl rfl rfl h)

/-- **Jumps stay in their fragment**, or go to a handler. -/
theorem jump_fragment {m : Nat} {o : Operation} (h : fragment m o = .ok ls) :
    ∃ ls', readLines (.ofString (render ls)) = .ok ls' ∧
      ∀ l ∈ ls', ∀ c, l.keyword? = some (.instruction (.jump c)) →
        ∃ name, l.operands = [.ofString name] ∧
          (name ∈ ls'.flatMap Assembly.Line.labels ∨
            name ∈ ["divide_by_zero", "stack_error", "stack_too_full"]) := by
  refine ⟨_, readLines_render (legible_fragment h), ?_⟩
  rw [flatMap_labels_listing, labelNames_append]
  intro l' hl' c hjump
  obtain ⟨l, hl, k, rfl⟩ := exists_of_mem_listing hl'
  obtain ⟨s, hs, hk, hoperands⟩ := exists_of_keyword? hjump
  have hmem : l ∈ ls := by
    rcases List.mem_append.1 hl with hl | hl
    · exact hl
    · obtain rfl := List.mem_singleton.1 hl
      cases hs
  obtain ⟨name, rfl⟩ : ∃ name, s = .instruction (.jump c (.label name)) := by
    have hname := jumpsByName_fragment h l hmem
    rw [Line.jumpsByName, hs] at hname
    cases s with
    | directive d operand => cases hk
    | instruction i =>
      have hi : i.mnemonic = .jump c := Keyword.instruction.inj hk
      cases i with
      | jump c' dest =>
        obtain rfl : c' = c := Assembly.Mnemonic.jump.inj hi
        cases dest with
        | literal v => cases hname
        | label name => exact ⟨name, rfl⟩
      | _ => cases hi
  have href : name ∈ references ls := by
    refine List.mem_flatMap.2 ⟨l, hmem, ?_⟩
    rw [Line.references, hs]
    exact List.mem_singleton.2 rfl
  refine ⟨name, hoperands, ?_⟩
  rcases references_fragment h name href with hlocal | ⟨f, rfl⟩
  · exact .inl (List.mem_append_left _ hlocal)
  · right
    cases f <;> decide

/-! ### Names of a program -/

theorem labelNames_head (size : Int64) : labelNames (head size) =
    ["init", "depth", "capacity", "EDIV", "ESTACK", "ESTACKFULL", "Main"] := rfl

theorem labelNames_tail (r : StackRegion) : labelNames (tail r) =
    ["divide_by_zero", "stack_error", "stack_too_full", "set_code_and_exit", "StackLimit",
      "Stack"] := rfl

/-- The labels of fragments are none of the others. -/
theorem not_mem_labelNames_ends (h : fragments os = .ok fs) (r : StackRegion) :
    ∀ name ∈ labelNames fs.flatten,
      name ∉ labelNames (head r.size) ∧ name ∉ labelNames (tail r) := by
  have hends : ∀ name ∈ labelNames (head r.size) ++ labelNames (tail r),
      endsInDigit name = false := by
    rw [labelNames_head, labelNames_tail]
    decide
  intro name hname
  constructor
  · intro hmem
    exact not_mem_labelNames_fragments h (hends name (List.mem_append_left _ hmem)) hname
  · intro hmem
    exact not_mem_labelNames_fragments h (hends name (List.mem_append_right _ hmem)) hname

/-- **No label of a program is defined twice.** -/
theorem nodup_labelNames_programLines (h : fragments os = .ok fs) (r : StackRegion) :
    (labelNames (programLines fs r)).Nodup := by
  have hapart := not_mem_labelNames_ends h r
  have hends : ∀ name ∈ labelNames (head r.size), name ∉ labelNames (tail r) := by
    rw [labelNames_head, labelNames_tail]
    decide
  rw [programLines, labelNames_append, labelNames_append, List.nodup_append, List.nodup_append]
  refine ⟨⟨?_, nodup_labelNames_fragments h, ?_⟩, ?_, ?_⟩
  · rw [labelNames_head]
    decide
  · rintro name hname _ hname' rfl
    exact (hapart name hname').1 hname
  · rw [labelNames_tail]
    decide
  · rintro name hname _ hname' rfl
    rcases List.mem_append.1 hname with hname | hname
    · exact hends name hname hname'
    · exact (hapart name hname).2 hname'

/-- **Every name of a program is defined.** -/
theorem mem_labelNames_programLines (h : fragments os = .ok fs) (r : StackRegion) :
    ∀ name ∈ references (programLines fs r), name ∈ labelNames (programLines fs r) := by
  have hhead : ∀ name ∈ references (head r.size),
      name ∈ labelNames (head r.size) ∨ name ∈ labelNames (tail r) := by
    have hrefs : references (head r.size) = ["Stack", "Stack", "Main", "depth"] := rfl
    rw [hrefs, labelNames_head, labelNames_tail]
    decide
  have htail : ∀ name ∈ references (tail r),
      name ∈ labelNames (head r.size) ∨ name ∈ labelNames (tail r) := by
    have hrefs : references (tail r) =
        ["stack_error", "stack_too_full", "EDIV", "set_code_and_exit", "ESTACK",
          "set_code_and_exit", "ESTACKFULL", "set_code_and_exit"] := rfl
    rw [hrefs, labelNames_head, labelNames_tail]
    decide
  have hhandler (f : ProgramFault) : faultLabel f ∈ labelNames (tail r) := by
    rw [labelNames_tail]
    cases f <;> decide
  intro name hname
  rw [programLines, references, List.flatMap_append, List.flatMap_append] at hname
  rw [programLines, labelNames_append, labelNames_append, List.mem_append, List.mem_append]
  rcases List.mem_append.1 hname with hname | hname
  · rcases List.mem_append.1 hname with hname | hname
    · exact (hhead name hname).imp_left .inl
    · rcases references_fragments h name hname with hname | ⟨f, rfl⟩
      · exact .inl (.inr hname)
      · exact .inr (hhandler f)
  · exact (htail name hname).imp_left .inl

/-! ### Data -/

/-- The data of a line is a number. -/
def Line.IsNumeric (l : Line) : Prop :=
  ∀ operand, l.statement = some (.directive .long operand) →
    ∃ v, Numeral.readSigned .marked 64 (Text.chars (bare (.ofString operand))) = .ok v

/-- Whether a line has data. -/
def Line.hasData (l : Line) : Bool :=
  match l.statement with
  | some (.directive .long _) => true
  | _ => false

theorem isNumeric_of_hasData (h : l.hasData = false) : l.IsNumeric := by
  intro operand hs
  rw [Line.hasData, hs] at h
  cases h

theorem isNumeric_of_isCode (h : ∀ l ∈ ls, l.isCode = true) : ∀ l ∈ ls, l.IsNumeric := by
  intro l hl operand hs
  exact absurd hs (statement_ne_of_isCode (h l hl) .long operand)

theorem isNumeric_dataLines (size : Int64) : ∀ l ∈ dataLines size, l.IsNumeric := by
  have hword {label gap value note : String} {v : Int}
      (h : Numeral.readSigned .marked 64 (Text.chars (bare (.ofString value))) = .ok v) :
      (dataWord label gap value note).IsNumeric := by
    intro operand hs
    obtain rfl : value = operand := by injection hs with hs; injection hs
    exact ⟨v, h⟩
  have hcode {label gap note : String} (f : ProgramFault) :
      (dataWord label gap (codeText f) note).IsNumeric := by
    rw [codeText_eq]
    cases f with
    | divideByZero => exact hword (v := 1) (by decide)
    | stackError => exact hword (v := 2) (by decide)
    | stackTooFull => exact hword (v := 4) (by decide)
  have hcapacity {label gap note : String} :
      (dataWord label gap (Numeral.decimal size.toInt) note).IsNumeric := by
    refine hword (v := size.toInt) ?_
    rw [bare_decimal]
    exact readSigned_decimal size.le_toInt size.toInt_lt
  exact List.forall_mem_cons.2 ⟨hword (v := 0) (by decide), List.forall_mem_cons.2 ⟨hcapacity,
    List.forall_mem_cons.2 ⟨isNumeric_of_hasData rfl, List.forall_mem_cons.2 ⟨hcode .divideByZero,
    List.forall_mem_cons.2 ⟨hcode .stackError,
    List.forall_mem_singleton.2 (hcode .stackTooFull)⟩⟩⟩⟩⟩

theorem isNumeric_programLines (h : fragments os = .ok fs) (r : StackRegion) :
    ∀ l ∈ programLines fs r, l.IsNumeric := by
  have hplain {ls : List Line} (hls : (ls.all fun l => !l.hasData) = true) :
      ∀ l ∈ ls, l.IsNumeric := by
    intro l hl
    exact isNumeric_of_hasData (by simpa using List.all_eq_true.1 hls l hl)
  rw [programLines, head_eq, tail_eq]
  simp only [List.forall_mem_append]
  exact ⟨⟨⟨hplain (by decide), isNumeric_dataLines r.size, hplain (by decide)⟩,
    isNumeric_of_isCode (isCode_fragments h)⟩, isNumeric_of_isCode isCode_tailCode, hplain rfl⟩

/-! ### Assembling -/

/-- What keeps a generated line from an error about a label: its names are known, and its data are
numbers. -/
theorem not_isAboutLabel_of_addLine {labels : LabelTable} {e : Emission} {err : Assembly.Error}
    (hl : l.Legible) (href : ∀ name ∈ l.references, (labels.address? name).isSome)
    (hdata : l.IsNumeric) (h : e.addLine labels (l.parsed n) = .error (.error err)) :
    ¬ err.IsAboutLabel := by
  rcases Assembly.addLine_error_cases h with ⟨hdefect, -⟩ | ⟨_, herr, hcases⟩
  · cases hdefect
  obtain rfl := Interruption.error.inj herr
  rcases hcases with h' | ⟨m, hk, -⟩ | ⟨operand, hk, ho, h'⟩
  · exact Assembly.not_isAboutLabel_of_addressAfter h'
  · -- an instruction with known names is assembled
    obtain ⟨s, hs, hkeyword, -⟩ := exists_of_keyword? hk
    cases s with
    | directive d operand => cases hkeyword
    | instruction i =>
      have hresolved : Resolved labels [l] := by
        refine resolved_of_references fun name hname => href name ?_
        rwa [references, List.flatMap_singleton] at hname
      obtain ⟨j, hj⟩ := Option.isSome_iff_exists.1 (hresolved l (List.mem_singleton.2 rfl) i hs)
      rw [addLine_instruction hl hs hj] at h
      cases h
  · obtain ⟨s, hs, hkeyword, hoperands⟩ := exists_of_keyword? hk
    cases s with
    | instruction i => cases hkeyword
    | directive d text =>
      obtain rfl : d = .long := Keyword.directive.inj hkeyword
      obtain rfl : Text.ofString text = operand := List.singleton_inj.1 (hoperands.symm.trans ho)
      obtain ⟨v, hv⟩ := hdata text hs
      rw [word_eq, hv] at h'
      dsimp only at h'
      split at h'
      · cases h'
      · cases h'
        simp [Assembly.Error.IsAboutLabel]

/-- **No complaint about labels.** Whatever keeps a program from being assembled, it is no label. -/
theorem not_isAboutLabel_of_assemble (h : fragments os = .ok fs) {err : Assembly.Error}
    (he : (assemble (.ofString (program (render fs.flatten) r))).image = .error (.error err)) :
    ¬ err.IsAboutLabel := by
  have hlegible := legible_programLines h r
  have hread := readLines_render hlegible
  rw [← program_eq] at hread
  have hnames : (listing 1 (programLines fs r ++ [.blank])).flatMap Assembly.Line.labels =
      labelNames (programLines fs r) := by
    rw [flatMap_labels_listing, labelNames_append]
    exact List.append_nil _
  rcases Assembly.assemble_cases (.ofString (program (render fs.flatten) r)) with
    ⟨e', hread', -⟩ | ⟨ls, hread', hpasses⟩
  · cases hread.symm.trans hread'
  obtain rfl := Except.ok.inj (hread.symm.trans hread')
  rcases hpasses with ⟨e', hlocate, himage⟩ | ⟨hlocate, himage⟩
  · cases himage.symm.trans he
    obtain ⟨l, b, hafter⟩ := Assembly.addressAfter_of_locate_error
      (hnames ▸ nodup_labelNames_programLines h r) (fun _ _ => rfl) hlocate
    exact Assembly.not_isAboutLabel_of_addressAfter hafter
  · rw [himage, Assembly.emit_eq_error, foldlM_eq_error_iff] at he
    obtain ⟨i, l', e', hl', -, he⟩ := he
    obtain ⟨l, hl, m, rfl⟩ := exists_of_mem_listing (List.mem_of_getElem? hl')
    rcases List.mem_append.1 hl with hl | hl
    · refine not_isAboutLabel_of_addLine (hlegible l hl) (fun name hname => ?_)
        (isNumeric_programLines h r l hl) he
      refine Assembly.isSome_address?_of_locate (Prod.ext rfl hlocate) ?_
      rw [hnames]
      exact mem_labelNames_programLines h r name (List.mem_flatMap.2 ⟨l, hl, hname⟩)
    · obtain rfl := List.mem_singleton.1 hl
      cases he

/-- **Labels of generated code.** The text of operations consists of their fragments, one behind the
other. Its labels are distinct, and differ from those of head and tail. Jumps stay in their fragment
or go to a handler. So a program with this text never fails to assemble because of a label. -/
theorem labels_of_body {s : String} (h : body os = .ok s) :
    ∃ fs, s = render fs.flatten ∧
      List.Forall₂ (fun o f => ∃ n, fragment n o = .ok f ∧
        ∃ rest, render f = "\n\t# [" ++ o.opcode.name ++ "]\n" ++ rest) os fs ∧
      (∃ names, namesIn s = .ok names ∧ names.Nodup ∧
        ∀ r, ∃ hs ts, namesIn (render (head r.size)) = .ok hs ∧
          namesIn (render (tail r)) = .ok ts ∧ ∀ name ∈ names, name ∉ hs ∧ name ∉ ts) ∧
      (∀ f ∈ fs, ∃ ls, readLines (.ofString (render f)) = .ok ls ∧
        ∀ l ∈ ls, ∀ c, l.keyword? = some (.instruction (.jump c)) →
          ∃ name, l.operands = [.ofString name] ∧
            (name ∈ ls.flatMap Assembly.Line.labels ∨
              name ∈ ["divide_by_zero", "stack_error", "stack_too_full"])) ∧
      ∀ r err, (assemble (.ofString (program s r))).image = .error (.error err) →
        ¬ err.IsAboutLabel := by
  obtain ⟨fs, hfs, rfl⟩ := body_eq_ok.1 h
  have horder := forall₂_fragment hfs
  refine ⟨fs, rfl, horder.imp ?_, ?_, ?_, ?_⟩
  · rintro o f ⟨m, hm⟩
    exact ⟨m, hm, render_fragment hm⟩
  · refine ⟨_, namesIn_render (legible_fragments hfs), nodup_labelNames_fragments hfs, fun r => ?_⟩
    exact ⟨_, _, namesIn_render (legible_head r.size), namesIn_render (legible_tail r),
      not_mem_labelNames_ends hfs r⟩
  · intro f hf
    obtain ⟨i, hi, rfl⟩ := List.getElem_of_mem hf
    obtain ⟨m, hm⟩ := horder.get (by rwa [horder.length_eq]) hi
    exact jump_fragment hm
  · intro r err herr
    exact not_isAboutLabel_of_assemble hfs herr

/-- Two divisions and a multiplication, with a stack region of negative size. -/
theorem labels_of_body_mixed :
    let os : List Operation := [⟨.divide, "", 0⟩, ⟨.multiply, "", 1⟩, ⟨.divide, "", 2⟩]
    ∃ s names, body os = .ok s ∧ namesIn s = .ok names ∧ names.Nodup ∧
      ∀ err, (assemble (.ofString (program s ⟨0, -1⟩))).image = .error (.error err) →
        ¬ err.IsAboutLabel := by
  intro os
  obtain ⟨s, hs⟩ : ∃ s, body os = .ok s := ⟨_, rfl⟩
  obtain ⟨fs, -, -, ⟨names, hnames, hnodup, -⟩, -, herror⟩ := labels_of_body hs
  exact ⟨s, names, hs, hnames, hnodup, herror ⟨0, -1⟩⟩

end RpnY86.Code
