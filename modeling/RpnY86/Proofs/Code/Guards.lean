import RpnY86.Proofs.Code.Embedded
import RpnY86.Proofs.Code.Spelling
import RpnY86.Proofs.Code.Straight

/-! # Guards in any program

The two guards and the update of the depth can stand in any program that is assembled. There they
decide exactly, for every count and for every depth and capacity that are not negative as signed
numbers (`guards_exact`). They use `%ecx`, `%edx` and the flags, and a machine that has executed
them is otherwise as it was: `Machine.scratched` says this once for all of them, and each
instruction of theirs is a step from one scratched machine to the next. -/

namespace RpnY86.Y86.Machine

/-- The machine `k` steps further on, at address `pc`, with `c` in `%ecx`, `d` in `%edx` and flags
`f`. All else is as it was. -/
def scratched (s : Machine) (k : Nat) (pc c d : UInt32) (f : Flags) : Machine :=
  { s with
    registers := (s.registers.set .ecx c).set .edx d
    pc := pc
    flags := f
    steps := s.steps + k }

section scratched

variable {s : Machine} {k : Nat} {pc c d v : UInt32} {f : Flags}

theorem step_scratched (hs : s.status = .running) {i : Instruction UInt32}
    (hi : s.memory.HoldsAt pc i.encode) :
    (s.scratched k pc c d f).step = (s.scratched (k + 1) pc c d f).execute i :=
  step_eq_execute (s := s.scratched k pc c d f) hs hi

theorem step_constant (hs : s.status = .running)
    (hi : s.memory.HoldsAt pc (Instruction.constant v .ecx).encode) :
    (s.scratched k pc c d f).step = s.scratched (k + 1) (pc + 6) v d f :=
  step_scratched hs hi

theorem step_alu (hs : s.status = .running) {op : AluOp}
    (hi : s.memory.HoldsAt pc (Instruction.alu op .ecx .edx).encode) :
    (s.scratched k pc c d f).step =
      s.scratched (k + 1) (pc + 2) c (op.result c d) (op.flags c d) :=
  step_scratched hs hi

theorem step_jump (hs : s.status = .running) {cond : Condition} {dest : UInt32}
    (hi : s.memory.HoldsAt pc (Instruction.jump cond dest).encode) :
    (s.scratched k pc c d f).step =
      s.scratched (k + 1) (if cond.holds f then dest else pc + 5) c d f := by
  rw [step_scratched hs hi]
  change (if cond.holds f then _ else _) = _
  split_ifs <;> rfl

theorem step_loadDepth (hs : s.status = .running) (hv : s.memory.word? (s.get .esi) = some v)
    (hi : s.memory.HoldsAt pc (Instruction.load 0 (some .esi) .edx).encode) :
    (s.scratched k pc c d f).step = s.scratched (k + 1) (pc + 6) c v f := by
  have haddress : (s.scratched (k + 1) pc c d f).address 0 (some .esi) = s.get .esi :=
    UInt32.zero_add _
  have hload : (s.scratched (k + 1) pc c d f).memory.word? (s.get .esi) = some v := hv
  rw [step_scratched hs hi, execute, haddress, loadWord, hload]
  rfl

theorem step_loadCapacity (hs : s.status = .running)
    (hv : s.memory.word? (s.get .esi + 4) = some v)
    (hi : s.memory.HoldsAt pc (Instruction.load 4 (some .esi) .ecx).encode) :
    (s.scratched k pc c d f).step = s.scratched (k + 1) (pc + 6) v d f := by
  have haddress : (s.scratched (k + 1) pc c d f).address 4 (some .esi) = s.get .esi + 4 :=
    UInt32.add_comm 4 _
  have hload : (s.scratched (k + 1) pc c d f).memory.word? (s.get .esi + 4) = some v := hv
  rw [step_scratched hs hi, execute, haddress, loadWord, hload]
  rfl

theorem step_storeDepth (hs : s.status = .running) (hv : s.memory.hasWord (s.get .esi) = true)
    (hi : s.memory.HoldsAt pc (Instruction.store .edx 0 (some .esi)).encode) :
    (s.scratched k pc c d f).step =
      { s.scratched (k + 1) (pc + 6) c d f with memory := s.memory.setWord (s.get .esi) d } := by
  have haddress : (s.scratched (k + 1) pc c d f).address 0 (some .esi) = s.get .esi :=
    UInt32.zero_add _
  have hstore : (s.scratched (k + 1) pc c d f).memory.hasWord (s.get .esi) = true := hv
  rw [step_scratched hs hi, execute, haddress, storeWord, if_pos hstore]
  rfl

end scratched

end RpnY86.Y86.Machine

namespace RpnY86.Code

open Assembly (LabelTable)
open Y86 (AluOp Flags Instruction Machine Memory signed)
open Y86.Condition (holds_flags_sub)

/-! ### Entering -/

/-- A site that nothing writes to. Its code is whatever stands in its memory. -/
def Site.still (m : Memory) (labels : LabelTable) : Site where
  labels := labels
  home := m
  code a i := m.HoldsAt a i.encode
  zone := ⟨0, 0, none⟩
  floor_le_top := Nat.le_refl 0
  top_le_size := Nat.zero_le _
  top_le_range := Nat.zero_le _
  cell_le_size := nofun
  cell_outside := nofun
  code_holds _ _ h := h
  code_outside := by
    rintro a i - k - (⟨-, h⟩ | ⟨c, h, -⟩)
    · exact absurd h (Nat.not_lt_zero _)
    · cases h

/-- **A machine that is about to consult the depth**: it is at the address of embedded lines, the
lines stand in its memory, and `%esi` points to the depth, behind which lies the capacity. -/
structure Embedding.Consults {ls : List Line} (e : Embedding ls) (s : Machine)
    (depth capacity : UInt32) : Prop where
  running : s.status = .running
  pc : s.pc = e.address
  holds : s.memory.HoldsAt e.address e.bytes
  depth_eq : s.memory.word? (s.get .esi) = some depth
  capacity_eq : s.memory.word? (s.get .esi + 4) = some capacity

theorem Embedding.Consults.placed {ls : List Line} {e : Embedding ls} {s : Machine}
    {depth capacity : UInt32} (h : e.Consults s depth capacity) {first : Line}
    (hfirst : ls = first :: ls.tail) (hsilent : first.IsSilent) (hl : ∀ l ∈ ls, l.Legible)
    (hc : ∀ l ∈ ls, l.isCode = true) : (Site.still s.memory e.labels).Placed s.pc ls := by
  rw [h.pc]
  exact e.placed_of_takes hfirst hsilent hl hc rfl h.holds fun _ _ _ _ _ _ _ hholds _ _ => hholds

/-! ### The code -/

section code

variable {n : Int}

theorem exists_requireDepth_eq (hn : 1 ≤ n) :
    ∃ text, requireDepth n = .comment text :: (requireDepth n).tail := by
  rw [requireDepth, if_neg (by omega)]
  exact ⟨_, rfl⟩

theorem exists_requireRoom_eq (hn : 1 ≤ n) :
    ∃ text, requireRoom n = .comment text :: (requireRoom n).tail := by
  rw [requireRoom, if_neg (by omega)]
  exact ⟨_, rfl⟩

theorem adjustDepth_eq_blank (hn : n ≠ 0) : adjustDepth n = .blank :: (adjustDepth n).tail := by
  rw [adjustDepth, if_neg hn]
  rfl

theorem isCode_requireDepth (n : Int) : ∀ l ∈ requireDepth n, l.isCode = true := by
  unfold requireDepth
  split_ifs <;> exact List.all_eq_true.1 rfl

theorem isCode_requireRoom (n : Int) : ∀ l ∈ requireRoom n, l.isCode = true := by
  unfold requireRoom
  split_ifs <;> exact List.all_eq_true.1 rfl

theorem isCode_adjustDepth (n : Int) : ∀ l ∈ adjustDepth n, l.isCode = true := by
  unfold adjustDepth
  split_ifs <;> exact List.all_eq_true.1 rfl

end code

/-! ### What the code does -/

namespace Embedding.Consults

variable {s : Machine} {depth capacity : UInt32} {n : Int}

theorem step_requireDepth {e : Embedding (requireDepth n)} (h : e.Consults s depth capacity)
    (hn : 1 ≤ n) (hn' : n < 2 ^ 31) (hd : depth.toNat < 2 ^ 31) :
    ∃ handler, e.labels.address? stackError = some handler ∧ ∃ c d f, Machine.step^[4] s =
      s.scratched 4 (if (depth.toNat : Int) < n then handler else behind e.address (requireDepth n))
        c d f := by
  obtain ⟨text, hfirst⟩ := exists_requireDepth_eq hn
  obtain ⟨h1, h2, h3, handler, hlabel, h4, hbehind⟩ := Site.code_of_requireDepth hn
    (h.placed hfirst ⟨rfl, rfl⟩ (legible_requireDepth hn') (isCode_requireDepth n))
  have hl : _ ↔ signed depth < signed (UInt32.ofInt n) := holds_flags_sub .l (UInt32.ofInt n) depth
  rw [Y86.signed_ofInt (by omega) hn', Y86.signed_eq, if_pos hd] at hl
  refine ⟨handler, hlabel, UInt32.ofInt n, AluOp.sub.result (UInt32.ofInt n) depth,
    AluOp.sub.flags (UInt32.ofInt n) depth, ?_⟩
  calc Machine.step^[4] s
      = (s.scratched 0 s.pc (s.get .ecx) (s.get .edx) s.flags).step.step.step.step := rfl
    _ = _ := by
      rw [Machine.step_loadDepth h.running h.depth_eq h1, Machine.step_constant h.running h2,
        Machine.step_alu h.running h3, Machine.step_jump h.running h4]
      simp only [hl, ← h.pc, hbehind]

theorem step_requireRoom {e : Embedding (requireRoom n)} (h : e.Consults s depth capacity)
    (hn : 1 ≤ n) (hn' : n < 2 ^ 31) (hd : depth.toNat < 2 ^ 31) (hc : capacity.toNat < 2 ^ 31) :
    ∃ handler, e.labels.address? stackTooFull = some handler ∧
      ∃ c d f, Machine.step^[if n = 1 then 4 else 6] s = s.scratched (if n = 1 then 4 else 6)
        (if (capacity.toNat : Int) < depth.toNat + n then handler
          else behind e.address (requireRoom n)) c d f := by
  obtain ⟨text, hfirst⟩ := exists_requireRoom_eq hn
  obtain ⟨h1, h2, h3, handler, hlabel, hrest⟩ := Site.code_of_requireRoom hn
    (h.placed hfirst ⟨rfl, rfl⟩ (legible_requireRoom hn') (isCode_requireRoom n))
  have hdepth : signed depth = depth.toNat := by rw [Y86.signed_eq, if_pos hd]
  have hcapacity : signed capacity = capacity.toNat := by rw [Y86.signed_eq, if_pos hc]
  refine ⟨handler, hlabel, ?_⟩
  rcases hrest with ⟨rfl, h4, hbehind⟩ | ⟨hn1, h4, h5, h6, hbehind⟩
  · have hge := Site.holds_flags_roomForOne capacity depth
    rw [hdepth, hcapacity] at hge
    refine ⟨capacity, AluOp.sub.result capacity depth, AluOp.sub.flags capacity depth, ?_⟩
    rw [if_pos rfl]
    calc Machine.step^[4] s
        = (s.scratched 0 s.pc (s.get .ecx) (s.get .edx) s.flags).step.step.step.step := rfl
      _ = _ := by
        rw [Machine.step_loadDepth h.running h.depth_eq h1,
          Machine.step_loadCapacity h.running h.capacity_eq h2, Machine.step_alu h.running h3,
          Machine.step_jump h.running h4]
        simp only [hge, ← h.pc, hbehind]
  · have hge : _ ↔ signed capacity < signed depth + n :=
      Site.holds_flags_room hn1 hn' (by omega) (by omega)
    rw [hdepth, hcapacity] at hge
    have hsub : AluOp.sub.result capacity depth = depth - capacity := rfl
    refine ⟨UInt32.ofInt (n - 1), AluOp.add.result (UInt32.ofInt (n - 1)) (depth - capacity),
      AluOp.add.flags (UInt32.ofInt (n - 1)) (depth - capacity), ?_⟩
    rw [if_neg (by omega)]
    calc Machine.step^[6] s
        = (s.scratched 0 s.pc (s.get .ecx) (s.get .edx) s.flags).step.step.step.step.step.step :=
          rfl
      _ = _ := by
        rw [Machine.step_loadDepth h.running h.depth_eq h1,
          Machine.step_loadCapacity h.running h.capacity_eq h2, Machine.step_alu h.running h3,
          Machine.step_constant h.running h4, Machine.step_alu h.running h5,
          Machine.step_jump h.running h6]
        simp only [hsub, hge, ← h.pc, hbehind]

theorem step_adjustDepth {e : Embedding (adjustDepth n)} (h : e.Consults s depth capacity)
    (hn : n ≠ 0) (hlow : -2 ^ 31 ≤ n) (hhigh : n < 2 ^ 31) :
    ∃ c d f, Machine.step^[4] s =
      { s.scratched 4 (behind e.address (adjustDepth n)) c d f with
        memory := s.memory.setWord (s.get .esi) (UInt32.ofInt (depth.toNat + n)) } := by
  obtain ⟨h1, h2, h3, h4, hbehind⟩ := Site.code_of_adjustDepth hn
    (h.placed (adjustDepth_eq_blank hn) ⟨rfl, rfl⟩ (legible_adjustDepth hlow hhigh)
      (isCode_adjustDepth n))
  have hcell : s.memory.hasWord (s.get .esi) = true := by
    by_contra hno
    have := h.depth_eq
    rw [Memory.word?, if_neg hno] at this
    cases this
  have hsum : AluOp.add.result (UInt32.ofInt n) depth = UInt32.ofInt (depth.toNat + n) := by
    rw [UInt32.ofInt_add, Y86.ofInt_natCast, UInt32.ofNat_toNat]
    rfl
  refine ⟨UInt32.ofInt n, AluOp.add.result (UInt32.ofInt n) depth,
    AluOp.add.flags (UInt32.ofInt n) depth, ?_⟩
  calc Machine.step^[4] s
      = (s.scratched 0 s.pc (s.get .ecx) (s.get .edx) s.flags).step.step.step.step := rfl
    _ = _ := by
      rw [Machine.step_loadDepth h.running h.depth_eq h1, Machine.step_constant h.running h2,
        Machine.step_alu h.running h3, Machine.step_storeDepth h.running hcell h4]
      simp only [hsum, ← h.pc, hbehind]

end Embedding.Consults

/-- **Guards are exact**, wherever their code stands, for every count that a word can keep and for
every depth and capacity. The guard of the operands goes to its handler just if the depth is below
the count, and the guard of the room just if depth and count together exceed the capacity. The
update stores the sum of depth and change. Each of them goes on behind its code otherwise, and all
else is as it was. -/
theorem guards_exact {n change : Int} {depth capacity : UInt32} (hn : 1 ≤ n) (hn' : n < 2 ^ 31)
    (hne : change ≠ 0) (hlow : -2 ^ 31 ≤ change) (hhigh : change < 2 ^ 31)
    (hd : depth.toNat < 2 ^ 31) (hc : capacity.toNat < 2 ^ 31) :
    (∀ (e : Embedding (requireDepth n)) s, e.Consults s depth capacity →
      ∃ handler, e.labels.address? "stack_error" = some handler ∧
        ∃ c d f, Machine.step^[4] s = s.scratched 4
          (if (depth.toNat : Int) < n then handler else behind e.address (requireDepth n)) c d f) ∧
    (∀ (e : Embedding (requireRoom n)) s, e.Consults s depth capacity →
      ∃ handler, e.labels.address? "stack_too_full" = some handler ∧
        ∃ c d f, Machine.step^[if n = 1 then 4 else 6] s = s.scratched (if n = 1 then 4 else 6)
          (if (capacity.toNat : Int) < depth.toNat + n then handler
            else behind e.address (requireRoom n)) c d f) ∧
    (∀ (e : Embedding (adjustDepth change)) s, e.Consults s depth capacity →
      ∃ c d f, Machine.step^[4] s =
        { s.scratched 4 (behind e.address (adjustDepth change)) c d f with
          memory := s.memory.setWord (s.get .esi) (UInt32.ofInt (depth.toNat + change)) }) :=
  ⟨fun _ _ h => h.step_requireDepth hn hn' hd, fun _ _ h => h.step_requireRoom hn hn' hd hc,
    fun _ _ h => h.step_adjustDepth hne hlow hhigh⟩

/-- Lines that know no labels but those of the handlers can be embedded, with any depth and
capacity at address 1000. -/
theorem exists_consults (ls : List Line) {first : Line} (hfirst : ls = first :: ls.tail)
    (hsilent : first.IsSilent) (hl : ∀ l ∈ ls, l.Legible) (hc : ∀ l ∈ ls, l.isCode = true)
    (hsize : size ls ≤ 1000) (hnames : labelNames ls = [])
    (hr : ∀ name ∈ references ls, name ∈ [stackError, stackTooFull]) (depth capacity : UInt32) :
    ∃ (e : Embedding ls) (s : Machine), e.Consults s depth capacity ∧ s.get .esi = 1000 := by
  let handlers : List Line := [.mark stackError, .mark stackTooFull, .op .halt]
  have hlegible : ∀ l ∈ handlers, l.Legible := by
    simp +decide [handlers, Statement.Legible]
  have hlabels : labelNames (ls ++ handlers) = [stackError, stackTooFull] := by
    rw [labelNames_append, hnames]
    rfl
  have hreferences : references (ls ++ handlers) = references ls := by
    simp [references, handlers, Line.references, Line.mark, Line.op, Line.noted]
  have hall : ∀ l ∈ ls ++ handlers, l.Legible := List.forall_mem_append.2 ⟨hl, hlegible⟩
  obtain ⟨e, haddress, hlength⟩ := exists_embedding_of_isSilent hfirst hsilent hall
    (List.forall_mem_append.2 ⟨hc, by decide⟩) (by rw [hlabels]; decide)
    (by rw [hlabels, hreferences]; exact hr)
  obtain ⟨hdepth, hcapacity⟩ := wordAt_pairedMemory e.bytes capacity depth
  obtain ⟨hupper, hlower⟩ := hasWord_pairedMemory e.bytes capacity depth
  refine ⟨e, { Machine.fresh 4096 with
    registers := { esi := 1000 }
    memory := pairedMemory e.bytes capacity depth }, ⟨rfl, haddress.symm, ?_, ?_, ?_⟩, rfl⟩
  · rw [haddress]
    exact holdsAt_pairedMemory e.bytes capacity depth (by omega)
  · exact (if_pos hupper).trans (congrArg some hdepth)
  · exact (if_pos hlower).trans (congrArg some hcapacity)

/-- The greatest count does not fit beside a depth next to the greatest, though their sum is no
signed word. The least change is kept modulo `2 ^ 32`. -/
theorem guards_exact_greatest :
    (∃ (e : Embedding (requireDepth 0x7fffffff)) (s : Machine), e.Consults s 0x7ffffffe 0x7fffffff ∧
      ∃ handler, e.labels.address? "stack_error" = some handler ∧
        (Machine.step^[4] s).pc = handler) ∧
    (∃ (e : Embedding (requireRoom 0x7fffffff)) (s : Machine), e.Consults s 0x7ffffffe 0x7fffffff ∧
      ∃ handler, e.labels.address? "stack_too_full" = some handler ∧
        (Machine.step^[6] s).pc = handler) ∧
    (∃ (e : Embedding (adjustDepth (-0x80000000))) (s : Machine),
      e.Consults s 0x7ffffffe 0x7fffffff ∧
        (Machine.step^[4] s).memory = s.memory.setWord 1000 0xfffffffe) := by
  obtain ⟨hdepth, hroom, hadjust⟩ := @guards_exact 0x7fffffff (-0x80000000) 0x7ffffffe 0x7fffffff
    (by decide) (by decide) (by decide) (by decide) (by decide) (by decide) (by decide)
  refine ⟨?_, ?_, ?_⟩
  · obtain ⟨e, s, h, -⟩ := exists_consults (requireDepth 0x7fffffff) rfl ⟨rfl, rfl⟩
      (legible_requireDepth (by decide)) (isCode_requireDepth _) (by decide) rfl (by decide)
      0x7ffffffe 0x7fffffff
    obtain ⟨handler, hlabel, c, d, f, hrun⟩ := hdepth e s h
    rw [if_pos (by decide)] at hrun
    exact ⟨e, s, h, handler, hlabel, by rw [hrun]; rfl⟩
  · obtain ⟨e, s, h, -⟩ := exists_consults (requireRoom 0x7fffffff) rfl ⟨rfl, rfl⟩
      (legible_requireRoom (by decide)) (isCode_requireRoom _) (by decide) rfl (by decide)
      0x7ffffffe 0x7fffffff
    obtain ⟨handler, hlabel, c, d, f, hrun⟩ := hroom e s h
    rw [if_neg (by decide), if_pos (by decide)] at hrun
    exact ⟨e, s, h, handler, hlabel, by rw [hrun]; rfl⟩
  · obtain ⟨e, s, h, hesi⟩ := exists_consults (adjustDepth (-0x80000000)) rfl ⟨rfl, rfl⟩
      (legible_adjustDepth (by decide) (by decide)) (isCode_adjustDepth _) (by decide) rfl
      (by decide) 0x7ffffffe 0x7fffffff
    obtain ⟨c, d, f, hrun⟩ := hadjust e s h
    refine ⟨e, s, h, ?_⟩
    rw [hrun, hesi]
    rfl

end RpnY86.Code
