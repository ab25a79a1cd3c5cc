import RpnY86.Proofs.Code.Running
import RpnY86.Proofs.Compile.Acceptance

/-! # Compiled programs compute the value of their expression

The words of a compiled expression are steps of a computation (`Compiled.exists_steps`). Wherever
its program can be loaded, the program halts and shows what the computation comes to
(`run_eq_value`). -/

namespace RpnY86

open Assembly (assemble)
open Code (Layout Site StackRegion Steps)
open Y86 (Machine)

variable {r : StackRegion} {cs : List Char} {program : String}

/-! ### What words compute -/

/-- The steps that an expression consists of. -/
def stepsOf? (cs : List Char) : Option (List Step) := (words cs).mapM fun w => Step.ofWord? w.text

theorem forall₂_ofWord? {ws : List Word} {os : List Operation} {ss : List Step}
    (h : List.Forall₂ (fun w o => w.operation? = some o) ws os) (hs : Steps os ss) :
    List.Forall₂ (fun w s => Step.ofWord? w.text = some s) ws ss := by
  induction h generalizing ss with
  | nil =>
    cases hs
    exact .nil
  | cons hw _ ih =>
    cases hs with
    | cons ho hos => exact .cons (Word.ofWord?_of_operation? hw ho) (ih hos)

namespace Compiled

variable (C : Compiled r cs program)

/-- **Every word is a step.** -/
theorem exists_steps : ∃ ss, stepsOf? cs = some ss ∧ Steps C.operations ss := by
  obtain ⟨ss, hs⟩ := Code.exists_steps_of_fragments C.fragments_eq
  exact ⟨ss, mapM_eq_some_iff.2 (forall₂_ofWord? C.words_eq hs), hs⟩

/-- A program is loaded only into a memory that holds the whole stack region. -/
theorem load_eq {n : Nat} {s : Machine} (h : (Machine.fresh n).load C.image.bytes = .ok s) :
    ∃ hn : r.top.toInt.toNat ≤ n, s = (C.layout hn).boot := by
  have hn : r.top.toInt.toNat ≤ n := by
    rw [← C.length_image]
    by_contra hlt
    have herror : (Machine.fresh n).load C.image.bytes = .error _ := if_pos (Nat.not_le.1 hlt)
    exact nomatch herror.symm.trans h
  refine ⟨hn, ?_⟩
  exact (Except.ok.inj ((C.layout hn).load_image.symm.trans h)).symm

end Compiled

theorem exists_loaded (r : StackRegion) (cs : List Char)
    (hv : verdict (words cs) (r.Roomy (encodedLength (words cs))) = .accepted)
    {n : Nat} (hn : r.top.toInt.toNat ≤ n) :
    ∃ program image s, compile r cs = .ok program ∧
      (assemble (.ofString program)).image = .ok image ∧
      (Machine.fresh n).load image.bytes = .ok s := by
  have hspec := compile_spec r cs
  rw [hv] at hspec
  obtain ⟨program, hp, ⟨C⟩⟩ := hspec
  exact ⟨program, C.image, _, hp, by rw [C.assemble_eq], (C.layout hn).load_image⟩

/-! ### What machines show -/

/-- The result of a computation, as a machine shows it. -/
def HasResult (r : StackRegion) (s : Machine) : Except ProgramFault UInt32 → Prop
  | .ok v => s.get .eax = v ∧ s.get .edi = 0 ∧ (s.get .esp).toNat = r.top.toInt
  | .error f => s.get .edi = f.code ∧ s.get .esi = -1 ∧ s.get .ebx = 0

theorem Code.Layout.hasResult {L : Layout} {s : Machine} {w : Code.View}
    {result : Except ProgramFault UInt32} (h : L.site.Rests s w)
    (hw : L.site.Concludes result w) : HasResult L.region s result := by
  have hget : ∀ q, q ≠ .esp → s.get q = w.registers.get q := h.shows.get
  cases result with
  | ok v =>
    have hv : L.site.Valued v w := hw
    refine ⟨by rw [hget _ (by decide), hv.eax], by rw [hget _ (by decide), hv.edi], ?_⟩
    have hesp : s.get .esp = UInt32.ofNat L.top := by
      have := h.shows.esp
      rw [hv.stack] at this
      exact this
    have htop := L.top_lt
    have hsize := L.roomy.size_nonneg
    have hfits := L.roomy.fits
    rw [hesp, UInt32.toNat_ofNat_of_lt' htop]
    unfold Layout.top
    omega
  | error f =>
    obtain ⟨st, hf⟩ := hw
    exact ⟨by rw [hget _ (by decide), hf.edi], by rw [hget _ (by decide), hf.esi],
      by rw [hget _ (by decide), hf.ebx]⟩

/-! ### Runs -/

/-- **Correctness of compilation.** A compiled expression consists of steps, and its program
assembles. Wherever the image can be loaded, it runs to a halt without a limit on its steps, and the
machine then shows the value of the steps on a stack of the given size, or their first fault. -/
theorem run_eq_value (h : compile r cs = .ok program) :
    ∃ ss image, stepsOf? cs = some ss ∧ (assemble (.ofString program)).image = .ok image ∧
      ∀ n s, (Machine.fresh n).load image.bytes = .ok s →
        ∃ s', s.run none = (s', .finished) ∧ s'.status = .halted ∧
          HasResult r s' (Step.value r.size.toInt.toNat ss) := by
  obtain ⟨C⟩ := nonempty_compiled h
  obtain ⟨ss, hss, hs⟩ := C.exists_steps
  refine ⟨ss, C.image, hss, by rw [C.assemble_eq], ?_⟩
  intro n s hload
  obtain ⟨hn, rfl⟩ := C.load_eq hload
  obtain ⟨s', w, hrun, hrests, hw⟩ :=
    Layout.run_of_leads (Layout.leads_value (L := C.layout hn) hs) fun _ h => h.halts
  exact ⟨s', hrun, hrests.halted, Layout.hasResult hrests hw⟩

/-- The quotient of the least word and -1 wraps, and zero over zero is a fault. -/
theorem run_eq_value_quotients :
    (∃ program image s s', compile ⟨1024, 2⟩ "-2147483648 -1 /".toList = .ok program ∧
      (assemble (.ofString program)).image = .ok image ∧
      (Machine.fresh 1024).load image.bytes = .ok s ∧ s.run none = (s', .finished) ∧
      s'.status = .halted ∧ s'.get .eax = 0x80000000 ∧ s'.get .edi = 0 ∧
      (s'.get .esp).toNat = (1024 : Int)) ∧
    (∃ program image s s', compile ⟨1024, 2⟩ "1 dup - dup /".toList = .ok program ∧
      (assemble (.ofString program)).image = .ok image ∧
      (Machine.fresh 1024).load image.bytes = .ok s ∧ s.run none = (s', .finished) ∧
      s'.status = .halted ∧ s'.get .edi = 1 ∧ s'.get .esi = -1 ∧ s'.get .ebx = 0) := by
  constructor
  · obtain ⟨program, image, s, hp, hi, hl⟩ :=
      exists_loaded ⟨1024, 2⟩ "-2147483648 -1 /".toList (by decide) (n := 1024) (by decide)
    obtain ⟨ss, image', hss, hi', hrun⟩ := run_eq_value hp
    obtain rfl := Except.ok.inj (hi'.symm.trans hi)
    obtain ⟨s', hs', hhalted, hresult⟩ := hrun _ s hl
    obtain rfl : [.number 0x80000000, .number (-1), .binary .div] = ss := Option.some.inj hss
    exact ⟨program, image', s, s', hp, hi, hl, hs', hhalted, hresult⟩
  · obtain ⟨program, image, s, hp, hi, hl⟩ :=
      exists_loaded ⟨1024, 2⟩ "1 dup - dup /".toList (by decide) (n := 1024) (by decide)
    obtain ⟨ss, image', hss, hi', hrun⟩ := run_eq_value hp
    obtain rfl := Except.ok.inj (hi'.symm.trans hi)
    obtain ⟨s', hs', hhalted, hresult⟩ := hrun _ s hl
    obtain rfl : [.number 1, .dup, .binary .sub, .dup, .binary .div] = ss := Option.some.inj hss
    exact ⟨program, image', s, s', hp, hi, hl, hs', hhalted, hresult⟩

end RpnY86
