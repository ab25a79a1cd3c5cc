import RpnY86.Proofs.Y86.Fetch

/-! # Words in memory, and the word that a step writes

`wordsFrom` reads consecutive words. `writes?` is the address of the word that the next step of a
machine stores, if it stores one. -/

namespace RpnY86.Y86

namespace Memory

/-- The `k` words from position `n` on. -/
def wordsFrom (m : Memory) (n : Nat) : (k : Nat) → List UInt32
  | 0 => []
  | k + 1 => m.wordAt n :: wordsFrom m (n + 4) k

theorem wordsFrom_setWord_of_disjoint (m : Memory) (addr v : UInt32) {n k : Nat}
    (h : addr.toNat + 4 ≤ n ∨ n + 4 * k ≤ addr.toNat) :
    (m.setWord addr v).wordsFrom n k = m.wordsFrom n k := by
  induction k generalizing n with
  | zero => rw [wordsFrom, wordsFrom]
  | succ k ih =>
    rw [wordsFrom, wordsFrom, ih (by omega), wordAt_setWord_of_disjoint _ _ _ _ (by omega)]

theorem byteAt_setWord_of_ne (m : Memory) (addr v : UInt32) {n : Nat}
    (h : n < addr.toNat ∨ addr.toNat + 4 ≤ n) : (m.setWord addr v).byteAt n = m.byteAt n := by
  rw [byteAt_setWord, if_neg (by omega), if_neg (by omega), if_neg (by omega), if_neg (by omega)]

theorem HoldsAt.congr {m m' : Memory} {a : UInt32} {bs : List UInt8} (h : m.HoldsAt a bs)
    (hs : m.size ≤ m'.size)
    (hb : ∀ k < bs.length, m'.byteAt (a.toNat + k) = m.byteAt (a.toNat + k)) :
    m'.HoldsAt a bs where
  inMemory := Nat.le_trans h.inMemory hs
  inRange := h.inRange
  byteAt k hk := by rw [hb k hk, h.byteAt k hk]

end Memory

namespace Machine

/-- The instruction that the next step executes. -/
def current? (s : Machine) : Option (Instruction UInt32) :=
  if s.status = .running then
    match s.memory.byte? s.pc with
    | some first => (s.memory.fetch s.pc first).toOption
    | none => none
  else none

/-- The address of the word that an instruction stores. -/
def target? (s : Machine) : Instruction UInt32 → Option UInt32
  | .store _ d base => some (s.address d base)
  | .push _ | .call _ => some (s.get .esp - 4)
  | _ => none

/-- The address of the word that the next step stores. -/
def writes? (s : Machine) : Option UInt32 := s.current?.bind s.target?

theorem current?_of_holds {s : Machine} {i : Instruction UInt32} (hs : s.status = .running)
    (h : s.memory.HoldsAt s.pc i.encode) : s.current? = some i := by
  obtain ⟨first, hb, hf⟩ := h.fetch
  simp only [current?, if_pos hs, hb, hf]
  rfl

theorem execute_memory (s : Machine) (i : Instruction UInt32) :
    (s.execute i).memory = s.memory ∨
      ∃ a v, s.target? i = some a ∧ (s.execute i).memory = s.memory.setWord a v := by
  cases i with
  | store src d base =>
    simp only [execute, storeWord]
    split
    · exact .inr ⟨_, _, rfl, rfl⟩
    · exact .inl rfl
  | call dest =>
    simp only [execute, storeWord]
    split
    · exact .inr ⟨_, _, rfl, rfl⟩
    · exact .inl rfl
  | push src =>
    simp only [execute, storeWord]
    split
    · exact .inr ⟨_, _, rfl, rfl⟩
    · exact .inl rfl
  | move c src dst => left; simp only [execute]; split <;> rfl
  | jump c dest => left; simp only [execute]; split <;> rfl
  | load d base dst => left; simp only [execute, loadWord]; split <;> rfl
  | ret => left; simp only [execute, loadWord]; split <;> rfl
  | pop dst => left; simp only [execute, loadWord]; split <;> rfl
  | _ => exact .inl rfl

/-- **What a step does to memory**: nothing, or it stores a word at the address `writes?` names. -/
theorem step_memory (s : Machine) :
    s.step.memory = s.memory ∨
      ∃ a v, s.writes? = some a ∧ s.step.memory = s.memory.setWord a v := by
  by_cases hs : s.status = .running
  · simp only [step, writes?, current?, if_pos hs]
    cases hb : s.memory.byte? s.pc with
    | none => exact .inl rfl
    | some first =>
      cases hf : s.memory.fetch s.pc first with
      | error o => exact .inl (by simp only [hf]; rfl)
      | ok i =>
        simp only [hf]
        exact execute_memory { s with steps := s.steps + 1 } i
  · exact .inl (by rw [step, if_neg hs])

end Machine

end RpnY86.Y86
