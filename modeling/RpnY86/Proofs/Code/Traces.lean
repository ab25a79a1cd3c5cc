import RpnY86.Proofs.Code.Placed

/-! # What a trace passes

`Leads` bounds the length of a trace. `LeadsBy T` says of the trace whatever `T` says. A part of the
code that does not pass certain addresses needs no proof of its own for that: at the site without
these addresses (`Site.only`) the code of the part is still placed (`Placed.only`), and runs there
pass nothing else (`Leads.of_only`).

`Paced b i t k trace` is about two nested loops. The trace passes `t`, the end of the outer loop,
`k` times, and before each of them it passes `i`, the beginning of the inner loop, at most `b`
times. So no stretch of the trace without `t` passes `i` more often (`Paced.count_le`).

`Rounds body k trace` is about a single loop, given by the addresses in its body: the trace goes
through the body `k` times, and is outside of it before and after. -/

namespace RpnY86.Code

open Y86 (Instruction Machine)

namespace Site

variable {S : Site} {T U V : List UInt32 → Prop} {P Q R : View → Prop}

/-! ### Triples with traces -/

/-- Every view with `P` runs to one with `Q`, along one trace with `T`. -/
def LeadsBy (S : Site) (T : List UInt32 → Prop) (P Q : View → Prop) : Prop :=
  ∃ trace : List UInt32, T trace ∧ ∀ v, P v → ∃ w, S.Runs trace v w ∧ Q w

theorem leadsBy_length (n : Nat) : S.LeadsBy (·.length ≤ n) P Q ↔ S.Leads n P Q := Iff.rfl

theorem LeadsBy.trans (h : S.LeadsBy T P Q) (h' : S.LeadsBy U Q R)
    (hV : ∀ t u, T t → U u → V (t ++ u)) : S.LeadsBy V P R := by
  obtain ⟨t, ht, h⟩ := h
  obtain ⟨u, hu, h'⟩ := h'
  refine ⟨t ++ u, hV t u ht hu, fun v hv => ?_⟩
  obtain ⟨w, hvw, hw⟩ := h v hv
  obtain ⟨x, hwx, hx⟩ := h' w hw
  exact ⟨x, hvw.trans hwx, hx⟩

theorem LeadsBy.mono (h : S.LeadsBy T P Q) (hT : ∀ t, T t → U t) : S.LeadsBy U P Q := by
  obtain ⟨t, ht, h⟩ := h
  exact ⟨t, hT t ht, h⟩

theorem LeadsBy.weaken {Q' : View → Prop} (h : S.LeadsBy T P Q) (hQ : ∀ v, Q v → Q' v) :
    S.LeadsBy T P Q' := by
  obtain ⟨t, ht, h⟩ := h
  refine ⟨t, ht, fun v hv => ?_⟩
  obtain ⟨w, hvw, hw⟩ := h v hv
  exact ⟨w, hvw, hQ w hw⟩

/-! ### Sites without some addresses -/

/-- The site with the instructions at addresses with `p` only. -/
def only (S : Site) (p : UInt32 → Prop) : Site :=
  { S with
    code := fun a i => S.code a i ∧ p a
    code_holds := fun a i hi => S.code_holds a i hi.1
    code_outside := fun a i hi => S.code_outside a i hi.1 }

variable {p : UInt32 → Prop}

theorem Exec.of_only {v w : View} {i : Instruction UInt32} (h : (S.only p).Exec v i w) :
    S.Exec v i w := by
  cases h with
  | move c src dst hs hd => exact .move c src dst hs hd
  | constant x dst hd => exact .constant x dst hd
  | alu op src dst hs hd => exact .alu op src dst hs hd
  | jump c dest => exact .jump c dest
  | push src hs hroom => exact .push src hs hroom
  | pop dst hd => exact .pop dst hd
  | loadTop dst hd => exact .loadTop dst hd
  | loadCell n base dst hb hd hcell => exact .loadCell n base dst hb hd hcell
  | loadHome n base dst hb hd hsize houtside => exact .loadHome n base dst hb hd hsize houtside
  | storeCell src n base hs hb hcell => exact .storeCell src n base hs hb hcell

theorem Runs.of_only {v w : View} {trace : List UInt32} (h : (S.only p).Runs trace v w) :
    S.Runs trace v w ∧ ∀ c ∈ trace, p c := by
  induction h with
  | refl v => exact ⟨.refl v, List.forall_mem_nil _⟩
  | step hi he _ ih => exact ⟨.step hi.1 he.of_only ih.1, List.forall_mem_cons.mpr ⟨hi.2, ih.2⟩⟩

/-- **A run at the smaller site** is one at the site, and passes no other addresses. -/
theorem Leads.of_only {n : Nat} (h : (S.only p).Leads n P Q) (hP : ∃ v, P v) :
    S.LeadsBy (fun trace => trace.length ≤ n ∧ ∀ c ∈ trace, p c) P Q := by
  obtain ⟨trace, hn, h⟩ := h
  obtain ⟨v, hv⟩ := hP
  obtain ⟨w, hvw, -⟩ := h v hv
  refine ⟨trace, ⟨hn, hvw.of_only.2⟩, fun v hv => ?_⟩
  obtain ⟨w, hvw, hw⟩ := h v hv
  exact ⟨w, hvw.of_only.1, hw⟩

end Site

/-- The addresses of the instructions of lines that start at `a`. -/
def addresses (a : UInt32) : List Line → List UInt32
  | [] => []
  | l :: ls =>
    match l.statement with
    | some (.instruction _) => a :: addresses (l.next a) ls
    | _ => addresses (l.next a) ls

section addresses

variable (a : UInt32) (ls : List Line) (text : String)

@[simp] theorem addresses_nil : addresses a [] = [] := rfl

@[simp] theorem addresses_blank : addresses a (.blank :: ls) = addresses a ls := rfl

@[simp] theorem addresses_comment : addresses a (.comment text :: ls) = addresses a ls := rfl

@[simp] theorem addresses_mark : addresses a (.mark text :: ls) = addresses a ls := rfl

@[simp] theorem addresses_noted (i : Instruction Ref) :
    addresses a (.noted i text :: ls) = a :: addresses (a + UInt32.ofNat i.length) ls := rfl

@[simp] theorem addresses_op (i : Instruction Ref) :
    addresses a (.op i :: ls) = a :: addresses (a + UInt32.ofNat i.length) ls := rfl

end addresses

theorem Site.Placed.only {S : Site} {p : UInt32 → Prop} {a : UInt32} {ls : List Line}
    (h : S.Placed a ls) (hp : ∀ c ∈ addresses a ls, p c) : (S.only p).Placed a ls := by
  induction ls generalizing a with
  | nil => exact trivial
  | cons l ls ih =>
    obtain ⟨hlabel, hhas, hrest⟩ := h
    unfold addresses at hp
    cases hs : l.statement with
    | none =>
      rw [hs] at hp
      refine ⟨hlabel, ?_, ih hrest hp⟩
      rw [hs]
      exact trivial
    | some s =>
      rw [hs] at hp hhas
      cases s with
      | directive d operand => exact hhas.elim
      | instruction i =>
        obtain ⟨hhere, hp⟩ := List.forall_mem_cons.mp hp
        obtain ⟨j, hj, hcode⟩ := hhas
        refine ⟨hlabel, ?_, ih hrest hp⟩
        rw [hs]
        exact ⟨j, hj, hcode, hhere⟩

/-! ### Nested loops -/

/-- A trace that passes `t` as often as `k` says, and `i` at most `b` times before each of them. -/
inductive Paced (b : Nat) (i t : UInt32) : Nat → List UInt32 → Prop
  | quiet {m : List UInt32} (hi : i ∉ m) (ht : t ∉ m) : Paced b i t 0 m
  | pass {k : Nat} {l m r : List UInt32} (hl : t ∉ l) (hb : l.count i ≤ b) (hi : i ∉ m)
    (ht : t ∉ m) (hr : Paced b i t k r) : Paced b i t (k + 1) (l ++ t :: (m ++ r))

namespace Paced

variable {b k : Nat} {i t : UInt32} {l m r trace : List UInt32}

theorem prepend (h : Paced b i t k r) (hi : i ∉ m) (ht : t ∉ m) : Paced b i t k (m ++ r) := by
  cases h with
  | quiet hi' ht' =>
    refine .quiet ?_ ?_
    · rw [List.mem_append]; exact not_or.mpr ⟨hi, hi'⟩
    · rw [List.mem_append]; exact not_or.mpr ⟨ht, ht'⟩
  | pass hl hb hi' ht' hr =>
    rw [← List.append_assoc]
    refine .pass ?_ ?_ hi' ht' hr
    · rw [List.mem_append]; exact not_or.mpr ⟨ht, hl⟩
    · rw [List.count_append, List.count_eq_zero.mpr hi, Nat.zero_add]; exact hb

theorem append (h : Paced b i t k r) (hi : i ∉ m) (ht : t ∉ m) : Paced b i t k (r ++ m) := by
  induction h with
  | quiet hi' ht' =>
    refine .quiet ?_ ?_
    · rw [List.mem_append]; exact not_or.mpr ⟨hi', hi⟩
    · rw [List.mem_append]; exact not_or.mpr ⟨ht', ht⟩
  | @pass k l m' r hl hb hi' ht' _ ih =>
    have hassoc : l ++ t :: (m' ++ r) ++ m = l ++ t :: (m' ++ (r ++ m)) := by simp
    rw [hassoc]
    exact .pass hl hb hi' ht' ih

theorem count_eq (h : Paced b i t k trace) : trace.count t = k := by
  induction h with
  | quiet hi ht => exact List.count_eq_zero.mpr ht
  | @pass k l m r hl hb hi ht _ ih =>
    rw [List.count_append, List.count_cons_self, List.count_append, List.count_eq_zero.mpr hl,
      List.count_eq_zero.mpr ht, ih]
    omega

/-- A stretch without `t` lies on one side of it. -/
theorem infix_of_infix {u : List UInt32} (h : u <:+: l ++ t :: r) (ht : t ∉ u) :
    u <:+: l ∨ u <:+: r := by
  rcases List.infix_append_iff.mp h with h | h | ⟨u₁, u₂, rfl, h₁, h₂⟩
  · exact .inl h
  · rcases List.infix_cons_iff.mp h with h | h
    · rcases List.prefix_cons_iff.mp h with rfl | ⟨v, rfl, -⟩
      · exact .inl (List.nil_infix)
      · exact absurd (List.mem_cons_self ..) ht
    · exact .inr h
  · rcases List.prefix_cons_iff.mp h₂ with rfl | ⟨v, rfl, -⟩
    · rw [List.append_nil]
      exact .inl h₁.isInfix
    · exact absurd (List.mem_append_right _ (List.mem_cons_self ..)) ht

/-- **A stretch of the trace without `t`** passes `i` at most `b` times. -/
theorem count_le (h : Paced b i t k trace) {u : List UInt32} (hu : u <:+: trace) (ht : t ∉ u) :
    u.count i ≤ b := by
  induction h generalizing u with
  | quiet hi _ =>
    have hnot : i ∉ u := fun h => hi (hu.subset h)
    rw [List.count_eq_zero.mpr hnot]
    exact Nat.zero_le b
  | @pass k l m r _ hb hi _ _ ih =>
    rcases infix_of_infix hu ht with hu | hu
    · exact (hu.sublist.count_le i).trans hb
    · have quiet {v : List UInt32} (hv : v ⊆ m) : v.count i = 0 :=
        List.count_eq_zero.mpr fun h => hi (hv h)
      rcases List.infix_append_iff.mp hu with hu | hu | ⟨u₁, u₂, rfl, h₁, h₂⟩
      · rw [quiet hu.subset]
        exact Nat.zero_le b
      · exact ih hu ht
      · rw [List.count_append, quiet h₁.subset, Nat.zero_add]
        exact ih h₂.isInfix fun h => ht (List.mem_append_right _ h)

end Paced

/-! ### Single loops -/

/-- A trace that goes through the body of a loop as often as `k` says, without a break, and through
no address of the body before and after. -/
def Rounds (body : List UInt32) (k : Nat) (trace : List UInt32) : Prop :=
  ∃ before after, trace = before ++ (List.replicate k body).flatten ++ after ∧
    ∀ c ∈ body, c ∉ before ∧ c ∉ after

namespace Rounds

variable {body u v : List UInt32} {k : Nat}

theorem whole (body : List UInt32) (k : Nat) : Rounds body k (List.replicate k body).flatten :=
  ⟨[], [], by simp, fun _ _ => ⟨List.not_mem_nil, List.not_mem_nil⟩⟩

theorem of_outside (hu : ∀ c ∈ u, c ∉ body) : Rounds body 0 u :=
  ⟨u, [], by simp, fun c hc => ⟨fun h => hu c h hc, List.not_mem_nil⟩⟩

theorem prepend (hu : ∀ c ∈ u, c ∉ body) (h : Rounds body k v) : Rounds body k (u ++ v) := by
  obtain ⟨before, after, rfl, hout⟩ := h
  refine ⟨u ++ before, after, by simp, fun c hc => ⟨?_, (hout c hc).2⟩⟩
  rw [List.mem_append]
  exact not_or.mpr ⟨fun h => hu c h hc, (hout c hc).1⟩

theorem append (h : Rounds body k u) (hv : ∀ c ∈ v, c ∉ body) : Rounds body k (u ++ v) := by
  obtain ⟨before, after, rfl, hout⟩ := h
  refine ⟨before, after ++ v, by simp, fun c hc => ⟨(hout c hc).1, ?_⟩⟩
  rw [List.mem_append]
  exact not_or.mpr ⟨(hout c hc).2, fun h => hv c h hc⟩

end Rounds

end RpnY86.Code
