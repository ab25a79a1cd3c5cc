import RpnY86.Proofs.Compile.Correctness

/-! # Safety of compiled programs

Whatever a compiled program does, it executes its own instructions and writes only the depth and the
stack region (`Safe`). The whole run is seen from its views: before each step the machine shows one
and is about to execute an instruction that it allows (`Site.Runs.shows_or_rests`). -/

namespace RpnY86

open Assembly (Image LabelTable assemble readLines)
open Code (Layout Site StackRegion Steps View Zone booted)
open Y86 (Instruction Machine Memory)

/-- Where a program may write: the cell of its depth, and its stack region. -/
def writable (r : StackRegion) (labels : LabelTable) : Zone where
  floor := (r.top.toInt - 4 * r.size.toInt).toNat
  top := r.top.toInt.toNat
  cell := labels.address? "depth"

theorem stores_of_writes {zone : Zone} {s : Machine}
    (h : ∀ a, s.writes? = some a → zone.HasWord a) :
    s.step.memory = s.memory ∨ ∃ a v, zone.HasWord a ∧ s.step.memory = s.memory.setWord a v := by
  rcases s.step_memory with hs | ⟨a, v, ha, hs⟩
  · exact .inl hs
  · exact .inr ⟨a, v, h a ha, hs⟩

/-- A state of a program from an image: it runs or has halted, it is about to execute an instruction
line and to write at most a word of the zone, and outside the zone memory is as loaded. -/
structure Safe (zone : Zone) (lines : List Assembly.Line) (image : Image) (s : Machine) : Prop where
  status : s.status = .running ∨ s.status = .halted
  pc : s.status = .running → ∃ l ∈ lines, l.IsInstruction ∧ (s.pc, l.number) ∈ image.sourceMap
  writes : ∀ a, s.writes? = some a → zone.HasWord a
  stores : s.step.memory = s.memory ∨
    ∃ a v, zone.HasWord a ∧ s.step.memory = s.memory.setWord a v := stores_of_writes writes
  frame : ∀ n, ¬ zone.Covers n → s.memory.byteAt n = image.bytes.getD n 0

/-! ### All states of a loaded program -/

namespace Code.Layout

variable {L : Layout} {s : Machine} {v : View}

theorem writable_eq : writable L.region L.labels = L.site.zone := by
  have hfloor : (L.region.top.toInt - 4 * L.region.size.toInt).toNat = L.floor := by
    rw [floor, L.roomy.toInt_limit]
  have hcell : L.labels.address? "depth" = some 20 :=
    address?_table L.fragments_eq _ _ (by decide)
  rw [writable, hfloor, hcell]
  rfl

/-- The instructions of the program stand where the source map says. -/
theorem line_of_code {a : UInt32} {i : Instruction UInt32} (h : L.site.code a i) :
    ∃ l ∈ L.lines, l.IsInstruction ∧ (a, l.number) ∈ L.image.sourceMap := by
  obtain ⟨c, hc, rfl, -, ⟨l, hl, hline, hinstr⟩, -⟩ := h
  exact ⟨l, hl, hinstr, L.mem_sourceMap hc hline⟩

theorem byteAt_home (n : Nat) : L.home.byteAt n = L.image.bytes.getD n 0 := by
  rw [home, Memory.byteAt_overlay]
  split
  · rename_i h
    rw [List.getD_eq_getElem _ _ h]
  · rename_i h
    rw [List.getD_eq_default _ _ (Nat.not_lt.1 h), Memory.byteAt_zeros]

theorem esp_bounds (h : L.site.Shows s v) :
    L.site.zone.floor ≤ (s.get .esp).toNat ∧ (s.get .esp).toNat ≤ L.site.zone.top := by
  have hroom : 4 * v.stack.length ≤ L.top - L.floor := h.room
  have hesp : s.get .esp = UInt32.ofNat (L.top - 4 * v.stack.length) := h.esp
  have hle := L.floor_le_top
  have hlt := L.top_lt
  have hrange : L.top - 4 * v.stack.length < UInt32.size := Nat.lt_of_le_of_lt (Nat.sub_le ..) hlt
  rw [hesp, UInt32.toNat_ofNat_of_lt' hrange]
  change L.floor ≤ _ ∧ _ ≤ L.top
  omega

theorem safe_of_shows {i : Instruction UInt32} (h : L.site.Shows s v) (hi : L.site.code v.pc i)
    (he : i = .halt ∨ ∃ w, L.site.Exec v i w) : Safe L.site.zone L.lines L.image s where
  status := .inl h.running
  pc _ := h.pc ▸ line_of_code hi
  writes a ha := by
    rcases he with rfl | ⟨w, he⟩
    · rw [Machine.writes?, Machine.current?_of_holds h.running (h.holds hi)] at ha
      cases ha
    · exact h.writes hi he ha
  frame n hn := (h.keeps.frame n hn).trans (byteAt_home n)

theorem safe_of_rests (h : L.site.Rests s v) : Safe L.site.zone L.lines L.image s where
  status := .inr h.halted
  pc hr := nomatch h.halted.symm.trans hr
  writes a ha := by
    have hcurrent : s.current? = none := if_neg (by rw [h.halted]; decide)
    rw [Machine.writes?, hcurrent] at ha
    cases ha
  frame n hn := (h.shows.keeps.frame n hn).trans (byteAt_home n)

/-- Before the first instruction the machine shows no view yet. -/
theorem safe_boot : Safe L.site.zone L.lines L.image L.boot where
  status := .inl rfl
  pc _ := line_of_code L.code_setup.1
  writes a ha := by
    have hholds : L.boot.memory.HoldsAt L.boot.pc _ := L.site.code_holds _ _ L.code_setup.1
    rw [Machine.writes?, Machine.current?_of_holds rfl hholds] at ha
    cases ha
  frame n _ := byteAt_home n

/-- **All states**: a program runs over views until it rests. -/
theorem safe_iterate_step {ss : List Step} (hs : Steps L.operations ss) (k : Nat) :
    Safe L.site.zone L.lines L.image (Machine.step^[k] L.boot) ∧
      (0 < k → L.site.zone.floor ≤ ((Machine.step^[k] L.boot).get .esp).toNat ∧
        ((Machine.step^[k] L.boot).get .esp).toNat ≤ L.site.zone.top) := by
  cases k with
  | zero => exact ⟨safe_boot, fun h => absurd h (Nat.lt_irrefl 0)⟩
  | succ k =>
    obtain ⟨trace, -, hlead⟩ := leads_value hs
    obtain ⟨w, hr, hw⟩ := hlead booted rfl
    rw [Function.iterate_succ_apply]
    rcases hr.shows_or_rests L.shows_boot hw.halts k with ⟨u, i, hu, hi, he⟩ | hrests
    · exact ⟨safe_of_shows hu hi he, fun _ => esp_bounds hu⟩
    · have hesp := esp_bounds hrests.shows
      exact ⟨safe_of_rests hrests, fun _ => hesp⟩

end Code.Layout

/-! ### Compiled programs -/

variable {r : StackRegion} {cs : List Char} {program : String}

/-- **Safety of compiled programs.** In every memory that holds its image, a compiled program can be
loaded, and after any number of steps its state is safe. The stack pointer lies in the stack region
from the first step on, and all code lies below that. -/
theorem safe_of_compile (h : compile r cs = .ok program) :
    ∃ lines labels image zone, readLines (.ofString program) = .ok lines ∧
      assemble (.ofString program) = { labels, image := .ok image } ∧
      zone = writable r labels ∧ encodedLength (words cs) ≤ zone.floor ∧
      ∀ n, image.bytes.length ≤ n → ∃ s, (Machine.fresh n).load image.bytes = .ok s ∧
        ∀ k, Safe zone lines image (Machine.step^[k] s) ∧
          (0 < k → zone.floor ≤ ((Machine.step^[k] s).get .esp).toNat ∧
            ((Machine.step^[k] s).get .esp).toNat ≤ zone.top) := by
  obtain ⟨C⟩ := nonempty_compiled h
  obtain ⟨ss, -, hs⟩ := C.exists_steps
  have hzone {n : Nat} (hn : r.top.toInt.toNat ≤ n) :
      writable r (Code.labelsOf C.fragments r) = (C.layout hn).site.zone :=
    Layout.writable_eq (L := C.layout hn)
  refine ⟨C.lines, _, C.image, _, C.readLines_eq, C.assemble_eq, rfl, ?_, ?_⟩
  · rw [hzone (Nat.le_refl _), ← C.codeEnd_eq]
    exact (C.layout (Nat.le_refl _)).codeEnd_le_floor
  · intro n hn
    rw [C.length_image] at hn
    refine ⟨_, (C.layout hn).load_image, ?_⟩
    rw [hzone hn]
    exact Layout.safe_iterate_step (L := C.layout hn) hs

/-- A product on a stack region that is no longer than needed and that nothing aligns. -/
theorem safe_of_compile_unaligned :
    ∃ program image s, compile ⟨1023, 2⟩ "6 7 *".toList = .ok program ∧
      (assemble (.ofString program)).image = .ok image ∧
      (Machine.fresh 1023).load image.bytes = .ok s ∧
      ∀ k, ((Machine.step^[k] s).status = .running ∨ (Machine.step^[k] s).status = .halted) ∧
        (0 < k → 1015 ≤ ((Machine.step^[k] s).get .esp).toNat ∧
          ((Machine.step^[k] s).get .esp).toNat ≤ 1023) := by
  obtain ⟨program, -, -, hp, -⟩ :=
    exists_loaded ⟨1023, 2⟩ "6 7 *".toList (by decide) (n := 1023) (by decide)
  obtain ⟨lines, labels, image, zone, -, ha, rfl, -, hsafe⟩ := safe_of_compile hp
  obtain ⟨C⟩ := nonempty_compiled hp
  have hi : (assemble (.ofString program)).image = .ok image := by rw [ha]
  have himage : C.image = image := by
    rw [C.assemble_eq] at hi
    exact Except.ok.inj hi
  have hlength : image.bytes.length ≤ 1023 := by
    rw [← himage, C.length_image]
    decide
  obtain ⟨s, hl, hs⟩ := hsafe 1023 hlength
  exact ⟨program, image, s, hp, hi, hl, fun k => ⟨(hs k).1.status, (hs k).2⟩⟩

end RpnY86
