import RpnY86.Code.Fragment
import RpnY86.Proofs.Code.Site

/-! # Lines of code at an address

`Placed S a ls` says that the lines `ls` stand at the site `S` from address `a` on: each label of
theirs has the address of its line, and the instructions follow each other in memory with their
constants resolved. Only lines without directives are ever placed.

`Leads n P Q` says that views with property `P` run to views with property `Q`, all of them along
one trace of at most `n` instructions. `At` is the property that generated code relies on between
its parts: where the view is, its operands, its depth, and the registers `%esi` and `%edi`. What is
in the other registers and in the flags does not matter, and so it does not change the trace. -/

namespace RpnY86.Code

open Assembly (LabelTable)
open Y86 (AluOp Condition Flags Instruction Machine Memory Reg Registers)

/-! ### Constants -/

/-- The word that a constant stands for. -/
def Ref.resolve? (labels : LabelTable) : Ref → Option UInt32
  | .literal n => some (UInt32.ofInt n)
  | .label name => labels.address? name

/-- An instruction with words for its constants. -/
def resolve? (labels : LabelTable) : Instruction Ref → Option (Instruction UInt32)
  | .halt => some .halt
  | .nop => some .nop
  | .ret => some .ret
  | .move c src dst => some (.move c src dst)
  | .alu op src dst => some (.alu op src dst)
  | .push src => some (.push src)
  | .pop dst => some (.pop dst)
  | .constant v dst => (v.resolve? labels).map (.constant · dst)
  | .store src d base => (d.resolve? labels).map (.store src · base)
  | .load d base dst => (d.resolve? labels).map (.load · base dst)
  | .jump c dest => (dest.resolve? labels).map (.jump c ·)
  | .call dest => (dest.resolve? labels).map (.call ·)

/-! ### Placement -/

/-- The address behind a line at address `a` that is no directive. -/
def Line.next (a : UInt32) (l : Line) : UInt32 :=
  match l.statement with
  | some (.instruction i) => a + UInt32.ofNat i.length
  | _ => a

/-- The address behind lines that start at `a`. -/
def behind (a : UInt32) (ls : List Line) : UInt32 := ls.foldl Line.next a

section behind

variable (a : UInt32) (ls : List Line) (text : String)

@[simp] theorem behind_nil : behind a [] = a := rfl

@[simp] theorem behind_blank : behind a (.blank :: ls) = behind a ls := rfl

@[simp] theorem behind_comment : behind a (.comment text :: ls) = behind a ls := rfl

@[simp] theorem behind_heading : behind a (.heading text :: ls) = behind a ls := rfl

@[simp] theorem behind_mark : behind a (.mark text :: ls) = behind a ls := rfl

@[simp] theorem behind_noted (i : Instruction Ref) :
    behind a (.noted i text :: ls) = behind (a + UInt32.ofNat i.length) ls := rfl

@[simp] theorem behind_op (i : Instruction Ref) :
    behind a (.op i :: ls) = behind (a + UInt32.ofNat i.length) ls := rfl

theorem behind_map_heading (ts : List String) : behind a (ts.map .heading) = a := by
  induction ts with
  | nil => rfl
  | cons t ts ih => rw [List.map_cons, behind_heading, ih]

end behind

theorem behind_append (a : UInt32) (ls ms : List Line) :
    behind a (ls ++ ms) = behind (behind a ls) ms := List.foldl_append

namespace Site

variable {S : Site} {a : UInt32} {ls : List Line}

/-- The statement stands at address `a`. -/
def Has (S : Site) (a : UInt32) : Option Statement → Prop
  | none => True
  | some (.instruction i) => ∃ j, resolve? S.labels i = some j ∧ S.code a j
  | some (.directive _ _) => False

/-- The lines stand from address `a` on. -/
def Placed (S : Site) : UInt32 → List Line → Prop
  | _, [] => True
  | a, l :: ls =>
    (∀ name, l.label = some name → S.labels.address? name = some a) ∧ S.Has a l.statement ∧
      S.Placed (l.next a) ls

theorem placed_append {ms : List Line} :
    S.Placed a (ls ++ ms) ↔ S.Placed a ls ∧ S.Placed (behind a ls) ms := by
  induction ls generalizing a with
  | nil => simp [Placed, behind]
  | cons l ls ih =>
    have hb : behind a (l :: ls) = behind (l.next a) ls := rfl
    simp only [List.cons_append, Placed, ih, hb, and_assoc]

@[simp] theorem placed_nil : S.Placed a [] := trivial

@[simp] theorem placed_blank : S.Placed a (.blank :: ls) ↔ S.Placed a ls := by
  simp [Placed, Line.blank, Has, Line.next]

@[simp] theorem placed_comment (text : String) :
    S.Placed a (.comment text :: ls) ↔ S.Placed a ls := by
  simp [Placed, Line.comment, Has, Line.next]

@[simp] theorem placed_heading (text : String) :
    S.Placed a (.heading text :: ls) ↔ S.Placed a ls := by
  simp [Placed, Line.heading, Has, Line.next]

@[simp] theorem placed_mark (name : String) :
    S.Placed a (.mark name :: ls) ↔ S.labels.address? name = some a ∧ S.Placed a ls := by
  simp [Placed, Line.mark, Has, Line.next]

@[simp] theorem placed_noted (i : Instruction Ref) (note : String) :
    S.Placed a (.noted i note :: ls) ↔
      (∃ j, resolve? S.labels i = some j ∧ S.code a j) ∧
        S.Placed (a + UInt32.ofNat i.length) ls := by
  simp [Placed, Line.noted, Has, Line.next]

@[simp] theorem placed_op (i : Instruction Ref) :
    S.Placed a (.op i :: ls) ↔
      (∃ j, resolve? S.labels i = some j ∧ S.code a j) ∧
        S.Placed (a + UInt32.ofNat i.length) ls :=
  placed_noted i ""

/-! ### Triples -/

/-- The place, operands and depth of a view, and its registers `%esi` and `%edi`. -/
structure At (pc si di d : UInt32) (st : OperandStack) (v : View) : Prop where
  pc : v.pc = pc
  depth : v.depth = d
  stack : v.stack = st
  esi : v.registers.esi = si
  edi : v.registers.edi = di

/-- A view at a place that has `b` in `%ebx`, if that is known. -/
structure Left (pc si di d : UInt32) (st : OperandStack) (b : Option UInt32) (v : View) : Prop
    extends At pc si di d st v where
  ebx : ∀ x ∈ b, v.registers.ebx = x

theorem At.left {pc si di d : UInt32} {st : OperandStack} {v : View} (h : At pc si di d st v) :
    Left pc si di d st none v :=
  ⟨h, nofun⟩

theorem exists_at (pc si di d : UInt32) (st : OperandStack) : ∃ v, At pc si di d st v :=
  ⟨⟨pc, { esi := si, edi := di }, ⟨false, false, false⟩, d, st⟩, rfl, rfl, rfl, rfl, rfl⟩

/-- Every view with `P` runs to one with `Q`, along one trace of at most `n` instructions. -/
def Leads (S : Site) (n : Nat) (P Q : View → Prop) : Prop :=
  ∃ trace : List UInt32, trace.length ≤ n ∧ ∀ v, P v → ∃ w, S.Runs trace v w ∧ Q w

/-- A trace that fits every content of registers and flags. -/
theorem leads_at {n : Nat} {pc si di d : UInt32} {st : OperandStack} {Q : View → Prop}
    (trace : List UInt32) (hn : trace.length ≤ n)
    (h : ∀ r f, r.esi = si → r.edi = di → ∃ w, S.Runs trace ⟨pc, r, f, d, st⟩ w ∧ Q w) :
    S.Leads n (At pc si di d st) Q := by
  refine ⟨trace, hn, ?_⟩
  rintro ⟨_, r, f, _, _⟩ ⟨hpc, hd, hst, hsi, hdi⟩
  cases hpc
  cases hd
  cases hst
  exact h r f hsi hdi

theorem Leads.refl (P : View → Prop) : S.Leads 0 P P :=
  ⟨[], Nat.le_refl 0, fun v hv => ⟨v, .refl v, hv⟩⟩

theorem Leads.trans {m n : Nat} {P Q R : View → Prop} (h : S.Leads m P Q) (h' : S.Leads n Q R) :
    S.Leads (m + n) P R := by
  obtain ⟨t, ht, h⟩ := h
  obtain ⟨u, hu, h'⟩ := h'
  refine ⟨t ++ u, by rw [List.length_append]; omega, fun v hv => ?_⟩
  obtain ⟨w, hvw, hw⟩ := h v hv
  obtain ⟨x, hwx, hx⟩ := h' w hw
  exact ⟨x, hvw.trans hwx, hx⟩

theorem Leads.mono {m n : Nat} {P Q : View → Prop} (h : S.Leads m P Q) (hmn : m ≤ n) :
    S.Leads n P Q := by
  obtain ⟨t, ht, h⟩ := h
  exact ⟨t, Nat.le_trans ht hmn, h⟩

theorem Leads.weaken {n : Nat} {P P' Q Q' : View → Prop} (h : S.Leads n P Q)
    (hP : ∀ v, P' v → P v) (hQ : ∀ v, Q v → Q' v) : S.Leads n P' Q' := by
  obtain ⟨t, ht, h⟩ := h
  refine ⟨t, ht, fun v hv => ?_⟩
  obtain ⟨w, hvw, hw⟩ := h v (hP v hv)
  exact ⟨w, hvw, hQ w hw⟩

end Site

end RpnY86.Code
