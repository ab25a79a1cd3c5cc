import RpnY86.Proofs.Code.Transfer
import RpnY86.Proofs.Compile.Safety

/-! # Leftover state does not matter

A compiled program sets up all that it reads. So a machine may start it with anything in its
registers and flags, in the cell of the depth, in the stack region and behind the image
(`Primed`): the run always takes the same number of steps and comes to the same result
(`halts_alike_of_compile`). In `%ebx` there is what the last fragment leaves there, because the last
word of a compiled expression is no number (`exists_last_step`). -/

namespace RpnY86

open Assembly (Image assemble)
open Code (Layout SameResult Site StackRegion Steps Zone)
open Numeral (isInteger)
open Y86 (Machine Memory)

variable {r : StackRegion} {cs : List Char} {program : String}

/-! ### The last word -/

theorem last_of_verdict {ws : List Word} {room : Prop} [Decidable room]
    (h : verdict ws room = .accepted) :
    ∃ last, ws.getLast? = some last ∧ isInteger last.text = false := by
  unfold verdict at h
  split at h
  · exact nomatch h
  · split at h
    · rename_i first last _ hlast
      refine ⟨last, hlast, ?_⟩
      by_contra hinteger
      rw [Bool.not_eq_false] at hinteger
      rw [if_pos hinteger] at h
      split at h <;> exact nomatch h
    · exact nomatch h

theorem ne_number_of_ofWord? {w : List Char} {s : Step} (h : Step.ofWord? w = some s)
    (hw : isInteger w = false) (v : UInt32) : s ≠ .number v := by
  rintro rfl
  rw [Step.ofWord?, hw, if_neg (by decide)] at h
  have hall : ∀ p ∈ Step.vocabulary, ∀ x, p.2 ≠ .number x := by
    simp [Step.vocabulary]
  obtain ⟨_, _, hsplit, -⟩ := List.lookup_eq_some_iff.1 h
  exact hall (String.ofList w, .number v) (by rw [hsplit]; simp) v rfl

theorem exists_last_step (h : compile r cs = .ok program) {ss : List Step}
    (hss : stepsOf? cs = some ss) : ∃ s, ss.getLast? = some s ∧ ∀ v, s ≠ .number v := by
  obtain ⟨last, hlast, hinteger⟩ := last_of_verdict (verdict_of_compile h)
  obtain ⟨s, hs, hstep⟩ := forall₂_getLast? (mapM_eq_some_iff.1 hss) hlast
  exact ⟨s, hs, ne_number_of_ofWord? hstep hinteger⟩

theorem lastKnown_eq {ss : List Step} {s : Step} (h : ss.getLast? = some s)
    (hs : ∀ v, s ≠ .number v) (b : UInt32) : Site.lastKnown ss b = some b := by
  rw [Site.lastKnown, h, Option.bind_some]
  cases s with
  | number v => exact absurd rfl (hs v)
  | _ => rfl

/-! ### Machines about to start -/

/-- A machine about to start the program of an image. Its memory holds the image apart from the
zone; registers, flags, and what lies in the zone and behind the image are arbitrary. -/
structure Primed (zone : Zone) (image : Image) (s : Machine) : Prop where
  running : s.status = .running
  pc : s.pc = 0
  size : image.bytes.length ≤ s.memory.size
  agrees : ∀ n (h : n < image.bytes.length), ¬ zone.Covers n → s.memory.byteAt n = image.bytes[n]

/-- A run without a limit halts after `n` steps, and meets no fault of its own. -/
structure HaltsAfter (n : Nat) (s : Machine) : Prop where
  status : (s.run none).1.status = .halted
  steps : (s.run none).1.steps = s.steps + n
  outcome : (s.run none).2 = s.verdict

theorem primed_of_load {zone : Zone} {image : Image} {n : Nat} {s : Machine}
    (h : (Machine.fresh n).load image.bytes = .ok s) : Primed zone image s := by
  unfold Machine.load at h
  split at h
  · exact nomatch h
  · rename_i hsize
    obtain rfl := Except.ok.inj h
    refine ⟨rfl, rfl, Nat.not_lt.1 hsize, fun k hk _ => ?_⟩
    rw [Memory.byteAt_overlay, dif_pos hk]

/-- Words of the zone and words behind the image do not matter. -/
theorem Primed.setWord {zone : Zone} {image : Image} {s : Machine} (h : Primed zone image s)
    {a : UInt32} (ha : zone.HasWord a ∨ image.bytes.length ≤ a.toNat) (x : UInt32) :
    Primed zone image { s with memory := s.memory.setWord a x } := by
  refine ⟨h.running, h.pc, ?_, fun n hn ho => ?_⟩
  · rw [Memory.size_setWord]
    exact h.size
  · have houtside : n < a.toNat ∨ a.toNat + 4 ≤ n := by
      by_contra hin
      rcases ha with ha | ha
      · exact ho (ha.covers (by omega) (by omega))
      · omega
    rw [Memory.byteAt_setWord_of_ne _ _ _ houtside, h.agrees n hn ho]

theorem Compiled.ready (C : Compiled r cs program) {s : Machine}
    (h : Primed C.tight.site.zone C.image s) : C.tight.Ready s := by
  have hsize : C.tight.site.home.size = C.image.bytes.length := C.length_image.symm
  refine ⟨h.running, h.pc, hsize ▸ h.size, fun n hn ho => ?_⟩
  have hhome : C.tight.site.home.byteAt n = C.image.bytes.getD n 0 :=
    Layout.byteAt_home (L := C.tight) n
  rw [hsize] at hn
  rw [h.agrees n hn ho, hhome, List.getD_eq_getElem _ _ hn]

/-! ### Compiled programs -/

/-- **Leftover state does not matter.** All machines about to start a compiled program, in memories
of any size that hold its image apart from depth and stack region, halt after the same number of
steps with the same result. So does every machine that starts the program again in the memory that a
finished run left. -/
theorem halts_alike_of_compile (h : compile r cs = .ok program) :
    ∃ labels image cell n, assemble (.ofString program) = { labels, image := .ok image } ∧
      labels.address? "depth" = some cell ∧
      (∀ s, Primed (writable r labels) image s → HaltsAfter n s) ∧
      (∀ s t, Primed (writable r labels) image s → Primed (writable r labels) image t →
        SameResult (s.run none).1 (t.run none).1) ∧
      ∀ s t, Primed (writable r labels) image s → t.status = .running → t.pc = 0 →
        t.memory = (s.run none).1.memory →
          HaltsAfter n t ∧ SameResult (s.run none).1 (t.run none).1 := by
  obtain ⟨C⟩ := nonempty_compiled h
  obtain ⟨ss, hss, hs⟩ := C.exists_steps
  obtain ⟨last, hlast, hnumber⟩ := exists_last_step h hss
  obtain ⟨n, pc, st, b, hrun⟩ := Layout.exists_run_none (L := C.tight) hs
  rw [lastKnown_eq hlast hnumber] at hrun
  have hzone : writable r (Code.labelsOf C.fragments r) = C.tight.site.zone :=
    Layout.writable_eq (L := C.tight)
  have hhalts : ∀ s, C.tight.Ready s → HaltsAfter n s := by
    intro s hr
    obtain ⟨s', w, heq, hsteps, hrests, -⟩ := hrun s hr
    constructor
    · rw [heq]
      exact hrests.halted
    · rw [heq]
      exact hsteps
    · rw [heq]
  have hsame : ∀ s t, C.tight.Ready s → C.tight.Ready t →
      SameResult (s.run none).1 (t.run none).1 := by
    intro s t hr hr'
    obtain ⟨s', v, heq, -, hrests, hv⟩ := hrun s hr
    obtain ⟨t', w, heq', -, hrests', hw⟩ := hrun t hr'
    have hzones : (C.tight.site.moved hr.agrees).zone = (C.tight.site.moved hr'.agrees).zone := rfl
    rw [heq, heq']
    exact Site.sameResult hzones hrests hrests' hv hw
  have hcell : (Code.labelsOf C.fragments r).address? "depth" = some 20 :=
    Code.address?_table C.fragments_eq _ _ (by decide)
  refine ⟨_, C.image, 20, n, C.assemble_eq, hcell, ?_⟩
  rw [hzone]
  refine ⟨?_, ?_, ?_⟩
  · intro s hs
    exact hhalts s (C.ready hs)
  · intro s t hs ht
    exact hsame s t (C.ready hs) (C.ready ht)
  · intro s t hs hrunning hpc hmemory
    have hr := C.ready hs
    obtain ⟨s', w, heq, -, hrests, -⟩ := hrun s hr
    have hagrees : C.tight.site.Agrees t.memory := by
      rw [hmemory, heq]
      exact hr.agrees.of_keeps hrests.shows.keeps
    have hr' : C.tight.Ready t := ⟨hrunning, hpc, hagrees⟩
    exact ⟨hhalts t hr', hsame s t hr hr'⟩

/-- A product, started with ones in the cell of its depth, in its stack region and behind its image,
and then started once more. -/
theorem halts_alike_of_compile_twice :
    ∃ program image s s' cell t u n, compile ⟨1023, 2⟩ "6 7 *".toList = .ok program ∧
      (assemble (.ofString program)).image = .ok image ∧
      (Machine.fresh 1023).load image.bytes = .ok s ∧
      (Machine.fresh 4096).load image.bytes = .ok s' ∧
      (assemble (.ofString program)).labels.address? "depth" = some cell ∧
      t = { s' with
        registers := ⟨1, 2, 3, 4, 5, 6, 7, 8⟩
        flags := ⟨false, true, true⟩
        memory := ((s'.memory.setWord cell (-1)).setWord 1019 (-1)).setWord 2000 (-1) } ∧
      u = { (t.run none).1 with pc := 0, status := .running } ∧
      HaltsAfter n s ∧ HaltsAfter n t ∧ HaltsAfter n u ∧
      SameResult (s.run none).1 (t.run none).1 ∧ SameResult (t.run none).1 (u.run none).1 := by
  obtain ⟨program, image, s, hp, hi, hl⟩ :=
    exists_loaded ⟨1023, 2⟩ "6 7 *".toList (by decide) (n := 1023) (by decide)
  obtain ⟨program', image', s', hp', hi', hl'⟩ :=
    exists_loaded ⟨1023, 2⟩ "6 7 *".toList (by decide) (n := 4096) (by decide)
  obtain rfl := Except.ok.inj (hp'.symm.trans hp)
  obtain rfl := Except.ok.inj (hi'.symm.trans hi)
  obtain ⟨labels, image, cell, n, ha, hcell, hhalts, hsame, hagain⟩ := halts_alike_of_compile hp
  rw [ha] at hi
  obtain rfl := Except.ok.inj hi
  have hlength : image.bytes.length = 1023 := by
    obtain ⟨C⟩ := nonempty_compiled hp
    rw [C.assemble_eq] at hi'
    obtain rfl := Except.ok.inj hi'
    rw [C.length_image]
    decide
  have hstack : (writable ⟨1023, 2⟩ labels).HasWord 1019 :=
    .inr (by decide : ((1023 : Int64).toInt - 4 * (2 : Int64).toInt).toNat ≤ 1019 ∧
      1019 + 4 ≤ (1023 : Int64).toInt.toNat)
  have hs : Primed (writable ⟨1023, 2⟩ labels) image s := primed_of_load hl
  have hs' : Primed (writable ⟨1023, 2⟩ labels) image s' := primed_of_load hl'
  have hdirty := ((hs'.setWord (.inl (.inl hcell)) (-1)).setWord (.inl hstack) (-1)).setWord
    (a := 2000) (.inr (by rw [hlength]; decide)) (-1)
  obtain ⟨t, ht⟩ : ∃ t, t = { s' with
      registers := ⟨1, 2, 3, 4, 5, 6, 7, 8⟩
      flags := ⟨false, true, true⟩
      memory := ((s'.memory.setWord cell (-1)).setWord 1019 (-1)).setWord 2000 (-1) } := ⟨_, rfl⟩
  obtain ⟨u, hu⟩ : ∃ u, u = { (t.run none).1 with pc := 0, status := .running } := ⟨_, rfl⟩
  have hprimed : Primed (writable ⟨1023, 2⟩ labels) image t := by
    rw [ht]
    exact ⟨hdirty.running, hdirty.pc, hdirty.size, hdirty.agrees⟩
  obtain ⟨hhalts', hsame'⟩ := hagain t u hprimed (by rw [hu]) (by rw [hu]) (by rw [hu])
  exact ⟨program', image, s, s', cell, t, u, n, hp, hi', hl, hl', by rw [ha]; exact hcell, ht, hu,
    hhalts s hs, hhalts t hprimed, hhalts', hsame s t hs hprimed, hsame'⟩

end RpnY86
