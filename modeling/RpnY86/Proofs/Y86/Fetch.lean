import Mathlib
import RpnY86.Y86.Machine

/-! # Reading an instruction back

Where the bytes of an instruction stand in memory (`HoldsAt`), the machine reads that instruction:
`HoldsAt.fetch`. The steps to it are the two nibbles of a byte and the codes of registers,
conditions and operations, each of which is read back as it was packed. -/

namespace RpnY86.Y86

/-! ### Nibbles and codes -/

theorem toNat_highNibble (b : UInt8) : (highNibble b).toNat = b.toNat / 16 := by
  simp [highNibble, Nat.shiftRight_eq_div_pow]

theorem toNat_lowNibble (b : UInt8) : (lowNibble b).toNat = b.toNat % 16 := by
  have h := Nat.and_two_pow_sub_one_eq_mod b.toNat 4
  simpa [lowNibble] using h

theorem toNat_packNibbles {a : UInt8} (ha : a.toNat < 16) (b : UInt8) :
    (packNibbles a b).toNat = 16 * a.toNat + b.toNat % 16 := by
  have hb := Nat.and_two_pow_sub_one_eq_mod b.toNat 4
  have hlt : b.toNat % 16 < 2 ^ 4 := Nat.mod_lt _ (by omega)
  have hor := Nat.shiftLeft_add_eq_or_of_lt hlt a.toNat
  have hs : a.toNat <<< 4 = 16 * a.toNat := by rw [Nat.shiftLeft_eq]; omega
  simp only [packNibbles, UInt8.toNat_or, UInt8.toNat_shiftLeft, UInt8.toNat_and]
  change a.toNat <<< 4 % 2 ^ 8 ||| b.toNat &&& 2 ^ 4 - 1 = _
  rw [hb, Nat.mod_eq_of_lt (by omega), show 2 ^ 4 = 16 from rfl, ← hor, hs]

theorem highNibble_packNibbles {a : UInt8} (ha : a.toNat < 16) (b : UInt8) :
    highNibble (packNibbles a b) = a := by
  apply UInt8.toNat_inj.1
  rw [toNat_highNibble, toNat_packNibbles ha]
  omega

theorem lowNibble_packNibbles {a b : UInt8} (ha : a.toNat < 16) (hb : b.toNat < 16) :
    lowNibble (packNibbles a b) = b := by
  apply UInt8.toNat_inj.1
  rw [toNat_lowNibble, toNat_packNibbles ha]
  omega

theorem Reg.code_lt (r : Reg) : r.code.toNat < 16 := by
  cases r <;> decide

theorem Reg.ofCode?_code (r : Reg) : ofCode? r.code = some r := by
  cases r <;> rfl

theorem Condition.code_lt (c : Condition) : c.code.toNat < 16 := by
  cases c <;> decide

theorem Condition.ofCode?_code (c : Condition) : ofCode? c.code = some c := by
  cases c <;> rfl

theorem AluOp.code_lt (op : AluOp) : op.code.toNat < 16 := by
  cases op <;> decide

theorem AluOp.ofCode?_code (op : AluOp) : ofCode? op.code = some op := by
  cases op <;> rfl

theorem baseCode_lt (base : Option Reg) : (baseCode base).toNat < 16 := by
  rcases base with _ | r
  · decide
  · exact r.code_lt

theorem fetchBase_baseCode (base : Option Reg) : fetchBase (baseCode base) = .ok base := by
  rcases base with _ | r
  · rfl
  · cases r <;> rfl

/-! ### Bytes in memory -/

/-- The bytes `bs` stand in memory from address `a` on. -/
structure Memory.HoldsAt (m : Memory) (a : UInt32) (bs : List UInt8) : Prop where
  inMemory : a.toNat + bs.length ≤ m.size
  inRange : a.toNat + bs.length ≤ 2 ^ 32
  byteAt : ∀ k (h : k < bs.length), m.byteAt (a.toNat + k) = bs[k]

namespace Memory.HoldsAt

variable {m : Memory} {a : UInt32}

theorem toNat_add {bs : List UInt8} (h : m.HoldsAt a bs) {k : Nat} (hk : k < bs.length) :
    (a + UInt32.ofNat k).toNat = a.toNat + k := by
  have := h.inRange
  simp only [UInt32.toNat_add, UInt32.toNat_ofNat']
  omega

theorem byte? {bs : List UInt8} (h : m.HoldsAt a bs) {k : Nat} (hk : k < bs.length) :
    m.byte? (a + UInt32.ofNat k) = some bs[k] := by
  have := h.inMemory
  rw [Memory.byte?, h.toNat_add hk, if_pos (by omega), h.byteAt k hk]

theorem word? (bs : List UInt8) {v : UInt32} (h : m.HoldsAt a (bs ++ wordBytes v)) :
    m.word? (a + UInt32.ofNat bs.length) = some v := by
  have hlen : (bs ++ wordBytes v).length = bs.length + 4 := by simp [wordBytes]
  have ha := h.toNat_add (k := bs.length) (by omega)
  have hb (k : Nat) (hk : k < 4) : m.byteAt (a.toNat + bs.length + k) = (wordBytes v)[k] := by
    have := h.byteAt (bs.length + k) (by omega)
    rw [← Nat.add_assoc] at this
    rw [this, List.getElem_append_right (by omega)]
    congr 1
    omega
  have hw : m.hasWord (a + UInt32.ofNat bs.length) = true := by
    have := h.inMemory
    rw [hasWord_iff, ha]
    omega
  have h0 := hb 0 (by omega)
  rw [Nat.add_zero] at h0
  rw [Memory.word?, if_pos hw, ha, wordAt, h0, hb 1 (by omega), hb 2 (by omega), hb 3 (by omega)]
  exact congrArg some (wordOfBytes_bytes v)

theorem first {b : UInt8} {bs : List UInt8} (h : m.HoldsAt a (b :: bs)) : m.byte? a = some b := by
  have h0 := h.byte? (k := 0) (by simp)
  rwa [show UInt32.ofNat 0 = 0 from rfl, UInt32.add_zero] at h0

theorem fetchByte {b c : UInt8} {bs : List UInt8} (h : m.HoldsAt a (b :: c :: bs)) :
    m.fetchByte (a + 1) = .ok c := by
  have h1 : m.byte? (a + 1) = some c := h.byte? (k := 1) (by simp)
  rw [Memory.fetchByte, h1]

theorem fetchWord_one {b : UInt8} {v : UInt32} (h : m.HoldsAt a (b :: wordBytes v)) :
    m.fetchWord (a + 1) = .ok v := by
  have h1 : m.word? (a + 1) = some v := h.word? [b]
  rw [Memory.fetchWord, h1]

theorem fetchWord_two {b c : UInt8} {v : UInt32} (h : m.HoldsAt a (b :: c :: wordBytes v)) :
    m.fetchWord (a + 2) = .ok v := by
  have h2 : m.word? (a + 2) = some v := h.word? [b, c]
  rw [Memory.fetchWord, h2]

/-! ### Instructions -/

theorem ok_bind {α β : Type} (x : α) (f : α → Except Obstacle β) : (Except.ok x >>= f) = f x := rfl

/-- **Reading back.** Where the bytes of an instruction stand, that instruction is read. -/
theorem fetch {i : Instruction UInt32} (h : m.HoldsAt a i.encode) :
    ∃ first, m.byte? a = some first ∧ m.fetch a first = .ok i := by
  cases i with
  | halt => exact ⟨_, h.first, rfl⟩
  | nop => exact ⟨_, h.first, rfl⟩
  | ret => exact ⟨_, h.first, rfl⟩
  | move c src dst =>
    refine ⟨_, h.first, ?_⟩
    rw [Memory.fetch, highNibble_packNibbles (by decide),
      lowNibble_packNibbles (by decide) c.code_lt]
    change (m.fetchByte (a + 1) >>= _) = _
    rw [h.fetchByte, ok_bind, Condition.ofCode?_code, highNibble_packNibbles src.code_lt,
      lowNibble_packNibbles src.code_lt dst.code_lt, Reg.ofCode?_code, Reg.ofCode?_code]
    rfl
  | constant v dst =>
    refine ⟨_, h.first, ?_⟩
    change (m.fetchByte (a + 1) >>= _) = _
    rw [h.fetchByte, ok_bind, highNibble_packNibbles (by decide),
      lowNibble_packNibbles (by decide) dst.code_lt, Reg.ofCode?_code, h.fetchWord_two]
    rfl
  | store src d base =>
    refine ⟨_, h.first, ?_⟩
    change (m.fetchByte (a + 1) >>= _) = _
    rw [h.fetchByte, ok_bind, highNibble_packNibbles src.code_lt,
      lowNibble_packNibbles src.code_lt (baseCode_lt base), Reg.ofCode?_code, h.fetchWord_two,
      fetchBase_baseCode]
    rfl
  | load d base dst =>
    refine ⟨_, h.first, ?_⟩
    change (m.fetchByte (a + 1) >>= _) = _
    rw [h.fetchByte, ok_bind, highNibble_packNibbles dst.code_lt,
      lowNibble_packNibbles dst.code_lt (baseCode_lt base), Reg.ofCode?_code, h.fetchWord_two,
      fetchBase_baseCode]
    rfl
  | alu op src dst =>
    refine ⟨_, h.first, ?_⟩
    rw [Memory.fetch, highNibble_packNibbles (by decide),
      lowNibble_packNibbles (by decide) op.code_lt]
    change (m.fetchByte (a + 1) >>= _) = _
    rw [h.fetchByte, ok_bind, AluOp.ofCode?_code, highNibble_packNibbles src.code_lt,
      lowNibble_packNibbles src.code_lt dst.code_lt, Reg.ofCode?_code, Reg.ofCode?_code]
    rfl
  | jump c dest =>
    refine ⟨_, h.first, ?_⟩
    rw [Memory.fetch, highNibble_packNibbles (by decide),
      lowNibble_packNibbles (by decide) c.code_lt, Condition.ofCode?_code, h.fetchWord_one]
    rfl
  | call dest =>
    refine ⟨_, h.first, ?_⟩
    change (m.fetchWord (a + 1) >>= _) = _
    rw [h.fetchWord_one]
    rfl
  | push src =>
    refine ⟨_, h.first, ?_⟩
    change (m.fetchByte (a + 1) >>= _) = _
    rw [h.fetchByte, ok_bind, highNibble_packNibbles src.code_lt,
      lowNibble_packNibbles src.code_lt (by decide), Reg.ofCode?_code]
    rfl
  | pop dst =>
    refine ⟨_, h.first, ?_⟩
    change (m.fetchByte (a + 1) >>= _) = _
    rw [h.fetchByte, ok_bind, highNibble_packNibbles dst.code_lt,
      lowNibble_packNibbles dst.code_lt (by decide), Reg.ofCode?_code]
    rfl

end Memory.HoldsAt

/-- **A step** of a running machine executes the instruction whose bytes stand at its program
counter. -/
theorem Machine.step_eq_execute {s : Machine} {i : Instruction UInt32}
    (hs : s.status = .running) (h : s.memory.HoldsAt s.pc i.encode) :
    s.step = { s with steps := s.steps + 1 }.execute i := by
  obtain ⟨first, hb, hf⟩ := h.fetch
  simp only [step, if_pos hs, hb, hf]

end RpnY86.Y86
