import RpnY86.Assembly.Image
import RpnY86.Proofs.Results
import RpnY86.Proofs.Y86.Fetch

/-! # The bytes of an image

The chunks of an emission lie one behind the other. So a chunk of a finished emission is found in
the image at the address where it starts (`getElem?_bytes`), and in the memory that the image is
loaded into (`holdsAt`). `addLine_cases` lists all that the second pass can do with a line. -/

namespace RpnY86.Assembly

open Y86 (Memory wordBytes)

/-- A line with an instruction. -/
def Line.IsInstruction (l : Line) : Prop :=
  ∃ m, l.mnemonic.bind Keyword.ofName? = some (.instruction m)

/-- The address of the first bytes that come from a line with number `n` or a later one. -/
def Image.addressFrom? (image : Image) (n : Int) : Option UInt32 :=
  (image.sourceMap.find? fun e => decide (n ≤ e.2)).map Prod.fst

/-- Chunks that fill the addresses from `a` up to `b`, in order. -/
def Contiguous : (a : Nat) → List Chunk → (b : Nat) → Prop
  | a, [], b => a = b
  | a, c :: cs, b => c.start = a ∧ Contiguous (a + c.bytes.length) cs b

variable {a b : Nat} {c : Chunk} {cs ds : List Chunk}

theorem Contiguous.append {k : Nat} (h : Contiguous a cs b) (h' : Contiguous b ds k) :
    Contiguous a (cs ++ ds) k := by
  induction cs generalizing a with
  | nil =>
    obtain rfl : a = b := h
    exact h'
  | cons c cs ih => exact ⟨h.1, ih h.2⟩

theorem Contiguous.length_bytes (h : Contiguous a cs b) :
    a + (cs.flatMap Chunk.bytes).length = b := by
  induction cs generalizing a with
  | nil => exact h
  | cons c cs ih =>
    have := ih h.2
    rw [List.flatMap_cons, List.length_append]
    omega

theorem Contiguous.le_start (h : Contiguous a cs b) (hc : c ∈ cs) : a ≤ c.start := by
  induction cs generalizing a with
  | nil => exact absurd hc List.not_mem_nil
  | cons d ds ih =>
    obtain ⟨hd, hrest⟩ := h
    rcases List.mem_cons.1 hc with rfl | hc
    · exact Nat.le_of_eq hd.symm
    · have := ih hrest hc
      omega

/-- Each chunk stands where it says. -/
theorem Contiguous.getElem?_bytes (h : Contiguous a cs b) (hc : c ∈ cs) {k : Nat}
    (hk : k < c.bytes.length) :
    (cs.flatMap Chunk.bytes)[c.start - a + k]? = c.bytes[k]? := by
  induction cs generalizing a with
  | nil => exact absurd hc List.not_mem_nil
  | cons d ds ih =>
    obtain ⟨hd, hrest⟩ := h
    rw [List.flatMap_cons]
    rcases List.mem_cons.1 hc with rfl | hc
    · rw [hd, Nat.sub_self, Nat.zero_add, List.getElem?_append_left hk]
    · have hle := hrest.le_start hc
      rw [List.getElem?_append_right (by omega), ← ih hrest hc]
      congr 1
      omega

theorem Contiguous.start_add_length_le (h : Contiguous a cs b) (hc : c ∈ cs) :
    c.start + c.bytes.length ≤ b := by
  induction cs generalizing a with
  | nil => exact absurd hc List.not_mem_nil
  | cons d ds ih =>
    obtain ⟨hd, hrest⟩ := h
    rcases List.mem_cons.1 hc with rfl | hc
    · have := hrest.length_bytes
      omega
    · exact ih hrest hc

/-- **Loaded chunks.** A chunk of an image stands in every memory that the image is loaded into. -/
theorem Contiguous.holdsAt (h : Contiguous 0 cs b) (hc : c ∈ cs) (hne : c.bytes ≠ [])
    (hb : b ≤ 2 ^ 32) {m : Memory} (hm : b ≤ m.size) :
    (m.overlay (cs.flatMap Chunk.bytes)).HoldsAt c.start.toUInt32 c.bytes := by
  have hle := h.start_add_length_le hc
  have hpos := List.length_pos_iff.2 hne
  have hstart : c.start.toUInt32.toNat = c.start := Nat.mod_eq_of_lt (by omega)
  have hlen := h.length_bytes
  refine ⟨?_, ?_, fun k hk => ?_⟩
  · rw [hstart, Memory.size_overlay]
    omega
  · rw [hstart]
    omega
  · have hbyte := h.getElem?_bytes hc hk
    rw [Nat.sub_zero, List.getElem?_eq_getElem (by omega), List.getElem?_eq_getElem hk] at hbyte
    rw [hstart, Memory.byteAt_overlay, dif_pos (by omega), Option.some.inj hbyte]

/-! ### What a line adds -/

/-- What the statement of a line begins with. -/
def Line.keyword? (l : Line) : Option Keyword := l.mnemonic.bind Keyword.ofName?

variable {labels : LabelTable} {e e' : Emission} {l : Line}

/-- All that the second pass can do with a line. -/
theorem addLine_cases (h : e.addLine labels l = .ok e') :
    (l.mnemonic = none ∧ e' = e) ∨
      (∃ m i, l.keyword? = some (.instruction m) ∧ l.instruction labels m = .ok i ∧
        e' = e.add (some l.number) i.encode) ∨
      (∃ operand v, l.keyword? = some (.directive .long) ∧ l.operands = [operand] ∧
        l.word labels operand = .ok v ∧ e' = e.add (some l.number) (wordBytes v)) ∨
      ∃ d next, (d = .pos ∨ d = .align) ∧ l.keyword? = some (.directive d) ∧
        l.addressAfter e.length.toUInt32 = .ok next ∧ e.length ≤ next.toNat ∧
        e' = e.add none (List.replicate (next.toNat - e.length) 0) := by
  unfold Emission.addLine at h
  split at h
  · rename_i hnone
    exact .inl ⟨hnone, (Except.ok.inj h).symm⟩
  rename_i name hname
  have hkeyword : l.keyword? = Keyword.ofName? name := by
    rw [Line.keyword?, hname, Option.bind_some]
  have hmove {d : Directive} (hd : d = .pos ∨ d = .align)
      (hk : Keyword.ofName? name = some (.directive d)) {next : UInt32}
      (hnext : l.addressAfter e.length.toUInt32 = .ok next)
      (h : (if next.toNat < e.length then .error (.defect .negativePadding)
        else .ok (e.add none (List.replicate (next.toNat - e.length) 0)) :
          Except (Interruption Error) Emission) = .ok e') :
      ∃ d next, (d = .pos ∨ d = .align) ∧ l.keyword? = some (.directive d) ∧
        l.addressAfter e.length.toUInt32 = .ok next ∧ e.length ≤ next.toNat ∧
        e' = e.add none (List.replicate (next.toNat - e.length) 0) := by
    by_cases hlt : next.toNat < e.length
    · rw [if_pos hlt] at h
      exact nomatch h
    · rw [if_neg hlt] at h
      exact ⟨d, next, hd, hkeyword.trans hk, hnext, Nat.le_of_not_lt hlt, (Except.ok.inj h).symm⟩
  refine .inr ?_
  split at h
  · rename_i hk
    obtain ⟨next, hnext, h⟩ := bind_eq_ok.1 h
    exact .inr (.inr (hmove (.inl rfl) hk (mapError_eq_ok.1 hnext) h))
  · rename_i hk
    obtain ⟨next, hnext, h⟩ := bind_eq_ok.1 h
    exact .inr (.inr (hmove (.inr rfl) hk (mapError_eq_ok.1 hnext) h))
  · rename_i hk
    split at h
    · rename_i operand ho
      obtain ⟨v, hv, h⟩ := bind_eq_ok.1 h
      exact .inr (.inl ⟨operand, v, hkeyword.trans hk, ho, mapError_eq_ok.1 hv,
        (Except.ok.inj h).symm⟩)
    · exact nomatch h
  · rename_i m hk
    obtain ⟨i, hi, h⟩ := bind_eq_ok.1 h
    exact .inl ⟨m, i, hkeyword.trans hk, mapError_eq_ok.1 hi, (Except.ok.inj h).symm⟩
  · exact nomatch h

end RpnY86.Assembly
