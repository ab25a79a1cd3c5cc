import RpnY86.Command.Standard
import RpnY86.Proofs.Command.Invocations
import RpnY86.Proofs.Compile.Correctness

/-! # Between the fragments of a compiled program

The stack effects of operations say how the height of the operand stack changes
(`length_applyAll`). The command that shows operations lists the depths that these effects add up to
(`exists_listing`), so they are heights of the stack. As long as no step faults, the machine stands
at the boundary behind the fragments so far and holds the operands; and a fault changes nothing
about them (`boundaries_of_compile`). -/

namespace RpnY86

open Assembly (assemble)
open Code (Layout Site StackRegion Steps View booted)
open Command (Context FileTree Invocation Request)
open Command.Context (effects operationLine operationLines)
open Y86 (Machine)

/-! ### Stack effects -/

/-- The stack effect of a step. -/
def Step.effect : Step → StackEffect
  | .number _ => ⟨0, 1⟩
  | .dup => ⟨1, 2⟩
  | .swap => ⟨2, 2⟩
  | .binary _ => ⟨2, 1⟩

theorem effect_of_step {o : Operation} {s : Step} (h : Step.ofOperation? o = some s) :
    o.opcode.effect = .ok s.effect := by
  obtain ⟨opcode, literal, pos⟩ := o
  cases opcode with
  | push =>
    simp only [Step.ofOperation?] at h
    split at h
    · obtain rfl := Option.some.inj h
      rfl
    · cases h
  | other n => cases h
  | _ =>
    obtain rfl := Option.some.inj h
    rfl

theorem length_apply {capacity : Nat} {st st' : OperandStack} {s : Step}
    (h : s.apply capacity st = .ok st') : (st'.length : Int) = st.length + s.effect.delta := by
  cases s with
  | number v =>
    obtain ⟨-, rfl⟩ := Step.push_eq_ok_iff.1 h
    rfl
  | dup =>
    match st, h with
    | a :: st, h =>
      obtain ⟨-, rfl⟩ := Step.push_eq_ok_iff.1 h
      rfl
  | swap =>
    match st, h with
    | b :: a :: st, h =>
      obtain rfl := Except.ok.inj h
      simp only [List.length_cons, Step.effect, StackEffect.delta]
      omega
  | binary op =>
    rcases st with _ | ⟨b, _ | ⟨a, st⟩⟩
    · cases h
    · cases h
    · change (· :: st) <$> op.result a b = .ok st' at h
      cases hr : op.result a b with
      | error f =>
        rw [hr] at h
        cases h
      | ok v =>
        rw [hr] at h
        obtain rfl := Except.ok.inj h
        simp only [List.length_cons, Step.effect, StackEffect.delta]
        omega

theorem length_applyAll {capacity : Nat} {st st' : OperandStack} {ss : List Step}
    (h : Step.applyAll capacity st ss = .ok st') :
    (st'.length : Int) = st.length + (ss.map fun s => s.effect.delta).sum := by
  induction ss generalizing st with
  | nil =>
    obtain rfl := Except.ok.inj h
    simp
  | cons s ss ih =>
    obtain ⟨st₁, h1, h2⟩ := Code.applyAll_cons_ok h
    rw [ih h2, length_apply h1, List.map_cons, List.sum_cons, Int.add_assoc]

/-! ### Listed depths -/

/-- The depth behind the first `k` operations. -/
def depthAfter (es : List (Operation × StackEffect)) (k : Nat) : Int :=
  ((es.take k).map fun e => e.2.delta).sum

theorem getElem?_operationLines {es : List (Operation × StackEffect)} {j : Nat} {o : Operation}
    {e : StackEffect} (h : es[j]? = some (o, e)) (i : Nat) (depth : Int) :
    (operationLines i depth es)[j]? =
      some (operationLine (i + j) o e (depth + depthAfter es (j + 1))) := by
  induction es generalizing i j depth with
  | nil => exact nomatch h
  | cons p es ih =>
    cases j with
    | zero =>
      obtain rfl := Option.some.inj h
      simp [operationLines, depthAfter]
    | succ j =>
      have hrest := ih h (i + 1) (depth + p.2.delta)
      rw [operationLines, List.getElem?_cons_succ, hrest, depthAfter, depthAfter,
        List.take_succ_cons, List.map_cons, List.sum_cons, Int.add_assoc, Nat.add_assoc,
        Nat.add_comm 1 j]

theorem length_operationLines (i : Nat) (depth : Int) (es : List (Operation × StackEffect)) :
    (operationLines i depth es).length = es.length := by
  induction es generalizing i depth with
  | nil => rfl
  | cons p es ih => rw [operationLines, List.length_cons, List.length_cons, ih]

theorem newline_describe {o : Operation} {s : Step} (h : Step.ofOperation? o = some s) :
    '\n' ∉ o.describe.toList := by
  obtain ⟨opcode, literal, pos⟩ := o
  cases opcode with
  | push =>
    simp only [Step.ofOperation?] at h
    split at h
    · rename_i v hv
      have hliteral : '\n' ∉ literal.toList :=
        Numeral.not_mem_of_readSigned hv rfl (by decide) (by decide)
      simp [Operation.describe, Opcode.name, hliteral]
    · cases h
  | other n => cases h
  | _ => simp [Operation.describe, Opcode.name]

theorem operationLine_eq {o : Operation} {s : Step} (h : Step.ofOperation? o = some s) (i : Nat)
    (e : StackEffect) (depth : Int) :
    ∃ front : String, '\n' ∉ front.toList ∧
      operationLine i o e depth = front ++ "  depth " ++ Numeral.decimal depth ++ "\n" := by
  refine ⟨_, ?_, rfl⟩
  simp [Text.padLeft, Text.padRight, Text.spaces, newline_describe h]

theorem effects_eq {os : List Operation} {ss : List Step} (h : Steps os ss) :
    effects os = .ok (os.zip (ss.map Step.effect)) := by
  induction h with
  | nil => rfl
  | @cons o s os ss ho _ ih =>
    unfold effects at ih ⊢
    rw [List.mapM_cons, effect_of_step ho, ih]
    rfl

theorem depthAfter_zip {os : List Operation} {ss : List Step} (h : Steps os ss) (k : Nat) :
    depthAfter (os.zip (ss.map Step.effect)) k =
      ((ss.take k).map fun s => s.effect.delta).sum := by
  have hlength : (ss.map Step.effect).length ≤ os.length := by
    rw [List.length_map, h.length_eq]
  have hsnd : (os.zip (ss.map Step.effect)).map Prod.snd = ss.map Step.effect :=
    List.map_snd_zip hlength
  have hmap : ((os.zip (ss.map Step.effect)).take k).map (fun e => e.2.delta) =
      (((os.zip (ss.map Step.effect)).map Prod.snd).take k).map StackEffect.delta := by
    rw [← List.map_take, List.map_map]
    rfl
  rw [depthAfter, hmap, hsnd, ← List.map_take, List.map_map]
  rfl

/-! ### Machines between fragments -/

/-- A machine that holds operands: their number is in the cell of the depth, and `%esp` is as far
below the top of the stack region as they take room. -/
structure HoldsOperands (r : StackRegion) (cell : UInt32) (st : OperandStack) (s : Machine) :
    Prop where
  depth : (s.memory.wordAt cell.toNat).toNat = st.length
  esp : (s.get .esp).toNat = r.top.toInt - 4 * st.length
  words : s.memory.wordsFrom (s.get .esp).toNat st.length = st

/-- A machine in front of a fragment or the footer, with the address `pc`. -/
structure AtBoundary (r : StackRegion) (cell pc : UInt32) (st : OperandStack) (s : Machine) : Prop
    extends HoldsOperands r cell st s where
  running : s.status = .running
  pc : s.pc = pc
  esi : s.get .esi = cell
  edi : s.get .edi = 0

namespace Code.Layout

variable {L : Layout} {s : Machine} {v : View} {st : OperandStack}

theorem holdsOperands (h : L.site.Shows s v) (hst : v.stack = st)
    (hd : v.depth = UInt32.ofNat st.length) : HoldsOperands L.region 20 st s := by
  have hroom : 4 * st.length ≤ L.top - L.floor := hst ▸ h.room
  have htop := L.top_lt
  have htop' : L.region.top.toInt = L.top := by
    have hsize := L.roomy.size_nonneg
    have hfits := L.roomy.fits
    unfold top
    omega
  have hsmall : L.top - 4 * st.length < UInt32.size := Nat.lt_of_le_of_lt (Nat.sub_le ..) htop
  have hesp : (s.get .esp).toNat = L.top - 4 * st.length := by
    rw [h.esp, hst]
    exact UInt32.toNat_ofNat_of_lt' hsmall
  refine ⟨?_, ?_, ?_⟩
  · have hcell : s.memory.wordAt 20 = v.depth := h.keeps.cell 20 rfl
    have hlt : st.length < UInt32.size := by
      change st.length < 2 ^ 32
      omega
    have h20 : (20 : UInt32).toNat = 20 := rfl
    rw [h20, hcell, hd, UInt32.toNat_ofNat_of_lt' hlt]
  · rw [hesp, htop']
    omega
  · have hwords : s.memory.wordsFrom (L.top - 4 * v.stack.length) v.stack.length = v.stack :=
      h.keeps.words
    rwa [hst, ← hesp] at hwords

theorem atBoundary {pc : UInt32} (h : L.site.Shows s v) (hv : Site.Between pc 20 st v) :
    AtBoundary L.region 20 pc st s where
  toHoldsOperands := holdsOperands h hv.stack hv.depth
  running := h.running
  pc := h.pc.trans hv.pc
  esi := (h.get .esi (by decide)).trans hv.esi
  edi := (h.get .edi (by decide)).trans hv.edi

theorem holdsOperands_of_rests {f : ProgramFault} (h : L.site.Rests s v)
    (hv : L.site.Faulted f st v) : HoldsOperands L.region 20 st s := by
  obtain ⟨hdepth, hesp, hwords⟩ := holdsOperands h.shows hv.stack hv.depth
  exact ⟨hdepth, hesp, hwords⟩

/-- **Every boundary** behind steps that do not fault is reached. -/
theorem exists_atBoundary {ss : List Step} {k : Nat} (hs : Steps L.operations ss)
    (h : Step.applyAll L.capacity [] (ss.take k) = .ok st) :
    ∃ m, AtBoundary L.region 20 (L.boundary k) st (Machine.step^[m] L.boot) := by
  obtain ⟨trace, -, hlead⟩ := L.leads_entry.trans (leads_boundary hs h)
  obtain ⟨w, hr, hw⟩ := hlead booted rfl
  refine ⟨trace.length + 1, ?_⟩
  rw [Function.iterate_succ_apply]
  exact atBoundary (hr.shows L.shows_boot) hw

end Code.Layout

/-- The number of the first line behind the first `k` fragments of a program. -/
def lineBehind (r : StackRegion) (fs : List (List Code.Line)) (k : Nat) : Int :=
  1 + (Code.head r.size).length + (fs.take k).flatten.length

theorem Code.Layout.addressFrom?_lineBehind (L : Layout) (k : Nat) :
    L.image.addressFrom? (lineBehind L.region L.fragments k) = some (L.boundary k) :=
  L.addressFrom?_image (List.take_append_drop k L.fragments).symm

/-! ### Compiled programs -/

variable {r : StackRegion} {cs : List Char} {program : String}

/-- What is shown of the operations of an expression: a line for each of them, with the depth behind
it at the end. -/
theorem exists_listing (C : Compiled r cs program) {ss : List Step} (hs : Steps C.operations ss) :
    ∃ lines : List String, lines.length = C.operations.length ∧
      (∀ j line, lines[j]? = some line → ∃ front : String, '\n' ∉ front.toList ∧
        line = front ++ "  depth " ++
          Numeral.decimal (depthAfter (C.operations.zip (ss.map Step.effect)) (j + 1)) ++ "\n") ∧
      ∀ (i : Invocation) (q : Request) (t : FileTree), i.request? = some q → q.Admitted →
        q.command = .ir → q.given.isOn .json = false → q.expression t i.input = .ok cs →
        i.Ends t (.ok ()) t (Text.encode (.ofString
          ("Instructions (" ++ Numeral.decimal C.operations.length ++ ")\n" ++
            String.join lines))) := by
  have hlength : (C.operations.zip (ss.map Step.effect)).length = C.operations.length := by
    rw [List.length_zip, List.length_map, ← hs.length_eq, Nat.min_self]
  refine ⟨operationLines 0 0 (C.operations.zip (ss.map Step.effect)), ?_, ?_, ?_⟩
  · rw [length_operationLines, hlength]
  · intro j line hline
    obtain ⟨hj, -⟩ := List.getElem?_eq_some_iff.1 hline
    rw [length_operationLines, hlength] at hj
    have hj' : j < ss.length := hs.length_eq ▸ hj
    have he : (C.operations.zip (ss.map Step.effect))[j]? =
        some (C.operations[j], ss[j].effect) := by
      simp [List.getElem?_zip_eq_some, List.getElem?_eq_getElem hj, List.getElem?_eq_getElem hj']
    have ho : Step.ofOperation? C.operations[j] = some ss[j] := hs.get hj hj'
    obtain ⟨front, hfront, heq⟩ := operationLine_eq ho (0 + j) ss[j].effect
      (0 + depthAfter (C.operations.zip (ss.map Step.effect)) (j + 1))
    rw [getElem?_operationLines he, heq, Option.some.injEq, Int.zero_add] at hline
    exact ⟨front, hfront, hline.symm⟩
  · intro i q t hq hadmitted hcommand hjson hcs
    refine Invocation.ends_of_does hq hadmitted ?_
    rw [Context.run_ir hcommand]
    exact Context.does_runOperations rfl _ hcs C.lex_eq C.ofTokens_eq (effects_eq hs) hjson

/-- **Boundaries, and what faults leave.** The operations of a compiled expression have stack
effects, and the command that shows them lists the depths that these add up to. Wherever the program
is loaded and the first `k` steps do not fault, the machine comes to the address behind the first
`k` fragments and holds the operands, as many as the depth says. If the next step faults, the run
ends with just these operands. -/
theorem boundaries_of_compile (h : compile r cs = .ok program) :
    ∃ (C : Compiled r cs program) (es : List (Operation × StackEffect)) (ss : List Step)
      (labels : Assembly.LabelTable) (image : Assembly.Image) (cell : UInt32),
      stepsOf? cs = some ss ∧ Steps C.operations ss ∧ effects C.operations = .ok es ∧
      (∃ lines : List String, lines.length = C.operations.length ∧
        (∀ j line, lines[j]? = some line → ∃ front : String, '\n' ∉ front.toList ∧
          line = front ++ "  depth " ++ Numeral.decimal (depthAfter es (j + 1)) ++ "\n") ∧
        ∀ (i : Invocation) (q : Request) (t : FileTree), i.request? = some q → q.Admitted →
          q.command = .ir → q.given.isOn .json = false → q.expression t i.input = .ok cs →
          i.Ends t (.ok ()) t (Text.encode (.ofString
            ("Instructions (" ++ Numeral.decimal C.operations.length ++ ")\n" ++
              String.join lines)))) ∧
      assemble (.ofString program) = { labels, image := .ok image } ∧
      labels.address? "depth" = some cell ∧
      ∀ n s, (Machine.fresh n).load image.bytes = .ok s →
        ∀ k st, Step.applyAll r.size.toInt.toNat [] (ss.take k) = .ok st →
          (st.length : Int) = depthAfter es k ∧
          (∃ m pc, image.addressFrom? (lineBehind r C.fragments k) = some pc ∧
            AtBoundary r cell pc st (Machine.step^[m] s)) ∧
          ∀ x f, ss[k]? = some x → x.apply r.size.toInt.toNat st = .error f →
            ∃ s', s.run none = (s', .finished) ∧ s'.status = .halted ∧
              HoldsOperands r cell st s' := by
  obtain ⟨C⟩ := nonempty_compiled h
  obtain ⟨ss, hss, hs⟩ := C.exists_steps
  have hcell : (Code.labelsOf C.fragments r).address? "depth" = some 20 :=
    Code.address?_table C.fragments_eq _ _ (by decide)
  refine ⟨C, _, ss, _, C.image, 20, hss, hs, effects_eq hs, exists_listing C hs, C.assemble_eq,
    hcell, ?_⟩
  intro n s hload k st hst
  obtain ⟨hn, rfl⟩ := C.load_eq hload
  refine ⟨?_, ?_, ?_⟩
  · rw [length_applyAll hst, depthAfter_zip hs, List.length_nil, Int.natCast_zero, Int.zero_add]
  · obtain ⟨m, hm⟩ := Layout.exists_atBoundary (L := C.layout hn) hs hst
    exact ⟨m, _, (C.layout hn).addressFrom?_lineBehind k, hm⟩
  · intro x f hx hf
    obtain ⟨s', w, hrun, hrests, hw⟩ := Layout.run_of_leads
      (Layout.leads_first_fault (L := C.layout hn) hs hx hst hf) fun _ h => h.halts
    exact ⟨s', hrun, hrests.halted, Layout.holdsOperands_of_rests hrests hw⟩

/-- A division by zero leaves its operands and those below them, as many as are shown behind the
third operation. -/
theorem boundaries_of_compile_zero_divisor :
    let i : Invocation :=
      { tools := .standard true, args := ["ir", "6 7 0 /"].map .ofString, env := [] }
    ∃ program image s cell m pc s' lines front, compile ⟨1024, 3⟩ "6 7 0 /".toList = .ok program ∧
      (assemble (.ofString program)).image = .ok image ∧
      (Machine.fresh 1024).load image.bytes = .ok s ∧
      (i.perform ⟨[]⟩).2.out =
        Text.encode (.ofString ("Instructions (4)\n" ++ String.join lines)) ∧
      lines[2]? = some (front ++ "  depth 3\n") ∧
      AtBoundary ⟨1024, 3⟩ cell pc [0, 7, 6] (Machine.step^[m] s) ∧
      s.run none = (s', .finished) ∧ s'.status = .halted ∧
      HoldsOperands ⟨1024, 3⟩ cell [0, 7, 6] s' := by
  intro i
  obtain ⟨program, image, s, hp, hi, hl⟩ :=
    exists_loaded ⟨1024, 3⟩ "6 7 0 /".toList (by decide) (n := 1024) (by decide)
  obtain ⟨C, es, ss, labels, image', cell, hss, hs, -, ⟨lines, hlength, hlines, hlisting⟩, ha, -,
    hrun⟩ := boundaries_of_compile hp
  obtain rfl : image' = image := by
    rw [ha] at hi
    exact Except.ok.inj hi
  obtain rfl : [.number 6, .number 7, .number 0, .binary .div] = ss := Option.some.inj hss
  obtain ⟨hdepth, ⟨m, pc, -, hm⟩, hfault⟩ := hrun 1024 s hl 3 [0, 7, 6] (by decide)
  obtain ⟨s', hs', hhalted, hholds⟩ := hfault _ .divideByZero rfl (by decide)
  have hfour : C.operations.length = 4 := hs.length_eq
  rw [hfour] at hlength hlisting
  obtain ⟨front, -, hline⟩ := hlines 2 _ (List.getElem?_eq_getElem (by omega))
  rw [← hdepth] at hline
  let q : Request :=
    { command := .ir
      given := {}
      settings := ⟨0xffc, 64, 10000000, false, false⟩
      words := [.ofString "6 7 0 /"] }
  have hends := hlisting i q ⟨[]⟩ (by decide +kernel) ⟨by decide +kernel, by decide +kernel⟩ rfl rfl
    (by decide +kernel)
  have hcount : "Instructions (" ++ Numeral.decimal (4 : Nat) ++ ")\n" = "Instructions (4)\n" := by
    decide +kernel
  have hthree : "  depth " ++ (Numeral.decimal ([0, 7, 6] : OperandStack).length ++ "\n") =
      "  depth 3\n" := by decide +kernel
  rw [hcount] at hends
  rw [String.append_assoc, String.append_assoc, hthree] at hline
  refine ⟨program, image', s, cell, m, pc, s', lines, front, hp, hi, hl, hends.out, ?_, hm, hs',
    hhalted, hholds⟩
  rw [List.getElem?_eq_getElem (by omega), hline]

end RpnY86
