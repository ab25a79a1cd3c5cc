import RpnY86.Y86.Instruction

/-! # Memory

A memory is a row of bytes from address 0 on. It is kept up to the last byte that was ever written;
all bytes behind are zero, up to the memory's size. So a large memory costs nothing until it is
used.

A word is four bytes, lowest first, and can be read or written where all four lie in the memory.
`byteAt_setWord` and `byteAt_overlay` say what writing does to each byte; the laws about words
follow from the first. -/

namespace RpnY86.Y86

/-- A memory: its size, and its bytes as far as they were written. -/
structure Memory where
  size : Nat
  bytes : Array UInt8
deriving DecidableEq, Repr

namespace Memory

/-- The size of a memory when none is asked for. -/
def defaultSize : Nat := 0x1000

/-- The greatest size that a memory can have. -/
def maxSize : Nat := 0x1000000000000

/-- The size of a memory for which `n` bytes are asked for; a number that is not positive asks for
the default. -/
def sizeFor (n : Int) : Nat := if 0 < n then n.toNat else defaultSize

/-- A memory of `n` zero bytes. -/
def zeros (n : Nat) : Memory := ⟨n, #[]⟩

/-! ### Reading and writing -/

/-- The byte at position `n`, zero where nothing was written. -/
def byteAt (m : Memory) (n : Nat) : UInt8 := m.bytes.getD n 0

/-- The byte at an address, if the address lies in the memory. -/
def byte? (m : Memory) (addr : UInt32) : Option UInt8 :=
  if addr.toNat < m.size then some (m.byteAt addr.toNat) else none

/-- Whether a whole word lies at an address. -/
def hasWord (m : Memory) (addr : UInt32) : Bool := addr.toNat + 4 ≤ m.size

/-- The word from position `n` on. -/
def wordAt (m : Memory) (n : Nat) : UInt32 :=
  wordOfBytes (m.byteAt n) (m.byteAt (n + 1)) (m.byteAt (n + 2)) (m.byteAt (n + 3))

/-- The word at an address, if it lies in the memory. -/
def word? (m : Memory) (addr : UInt32) : Option UInt32 :=
  if m.hasWord addr then some (m.wordAt addr.toNat) else none

/-- Bytes with zeros behind them, at least `n` in number. -/
def extended (n : Nat) (bytes : Array UInt8) : Array UInt8 :=
  if n ≤ bytes.size then bytes else bytes ++ Array.replicate (n - bytes.size) 0

/-- The memory with the word `v` at an address that has room for it. -/
def setWord (m : Memory) (addr v : UInt32) : Memory :=
  let a := addr.toNat
  ⟨m.size, ((((extended (a + 4) m.bytes).setIfInBounds a v.toUInt8).setIfInBounds
    (a + 1) (v >>> 8).toUInt8).setIfInBounds (a + 2) (v >>> 16).toUInt8).setIfInBounds
    (a + 3) (v >>> 24).toUInt8⟩

/-- The memory with the bytes of an image in front of what lies behind it. -/
def overlay (m : Memory) (image : List UInt8) : Memory :=
  ⟨m.size, image.toArray ++ m.bytes.extract image.length m.bytes.size⟩

/-! ### What is read after writing -/

@[simp] theorem size_setWord (m : Memory) (addr v : UInt32) :
    (m.setWord addr v).size = m.size := by
  rw [setWord]

@[simp] theorem size_overlay (m : Memory) (image : List UInt8) : (m.overlay image).size = m.size :=
  rfl

theorem hasWord_iff (m : Memory) (addr : UInt32) :
    m.hasWord addr = true ↔ addr.toNat + 4 ≤ m.size := by
  simp [hasWord]

theorem isSome_word? (m : Memory) (addr : UInt32) : (m.word? addr).isSome = m.hasWord addr := by
  cases h : m.hasWord addr <;> simp [word?, h]

@[simp] theorem byteAt_zeros (n k : Nat) : (zeros n).byteAt k = 0 := by
  simp [zeros, byteAt]

theorem le_size_extended (n : Nat) (bytes : Array UInt8) : n ≤ (extended n bytes).size := by
  unfold extended
  split
  · assumption
  · simp only [Array.size_append, Array.size_replicate]
    omega

/-- Zeros behind the bytes make no difference. -/
theorem getD_extended (n k : Nat) (bytes : Array UInt8) :
    (extended n bytes).getD k 0 = bytes.getD k 0 := by
  unfold extended
  split
  · rfl
  · simp only [Array.getD_eq_getD_getElem?, Array.getElem?_append, Array.getElem?_replicate]
    split
    · rfl
    · rename_i h
      rw [Array.getElem?_eq_none (by omega)]
      split <;> rfl

theorem getD_setIfInBounds {bytes : Array UInt8} {i : Nat} (h : i < bytes.size) (b : UInt8)
    (n : Nat) : (bytes.setIfInBounds i b).getD n 0 = if n = i then b else bytes.getD n 0 := by
  simp only [Array.getD_eq_getD_getElem?, Array.getElem?_setIfInBounds, if_pos h]
  by_cases hn : n = i
  · rw [if_pos hn.symm, if_pos hn]
    rfl
  · rw [if_neg (Ne.symm hn), if_neg hn]

theorem byteAt_setWord (m : Memory) (addr v : UInt32) (n : Nat) :
    (m.setWord addr v).byteAt n =
      if n = addr.toNat + 3 then (v >>> 24).toUInt8
      else if n = addr.toNat + 2 then (v >>> 16).toUInt8
      else if n = addr.toNat + 1 then (v >>> 8).toUInt8
      else if n = addr.toNat then v.toUInt8
      else m.byteAt n := by
  have hs := le_size_extended (addr.toNat + 4) m.bytes
  simp only [byteAt, setWord]
  rw [getD_setIfInBounds (by simp only [Array.size_setIfInBounds]; omega),
    getD_setIfInBounds (by simp only [Array.size_setIfInBounds]; omega),
    getD_setIfInBounds (by simp only [Array.size_setIfInBounds]; omega),
    getD_setIfInBounds (by omega), getD_extended]

theorem wordAt_setWord (m : Memory) (addr v : UInt32) :
    (m.setWord addr v).wordAt addr.toNat = v := by
  simp [wordAt, byteAt_setWord]

theorem word?_setWord (m : Memory) (addr v : UInt32) (h : m.hasWord addr = true) :
    (m.setWord addr v).word? addr = some v := by
  have h' : (m.setWord addr v).hasWord addr = true := by
    rwa [hasWord_iff, size_setWord, ← hasWord_iff]
  rw [word?, if_pos h', wordAt_setWord]

theorem wordAt_setWord_of_disjoint (m : Memory) (addr v : UInt32) (n : Nat)
    (h : n + 4 ≤ addr.toNat ∨ addr.toNat + 4 ≤ n) :
    (m.setWord addr v).wordAt n = m.wordAt n := by
  have stays (k : Nat) (hk : k < 4) : (m.setWord addr v).byteAt (n + k) = m.byteAt (n + k) := by
    rw [byteAt_setWord, if_neg (by omega), if_neg (by omega), if_neg (by omega),
      if_neg (by omega)]
  have h₀ := stays 0 (by omega)
  rw [wordAt, stays 1 (by omega), stays 2 (by omega), stays 3 (by omega)]
  rw [Nat.add_zero] at h₀
  rw [h₀]
  rfl

theorem byteAt_overlay (m : Memory) (image : List UInt8) (n : Nat) :
    (m.overlay image).byteAt n =
      if h : n < image.length then image[n] else m.byteAt n := by
  simp only [byteAt, overlay, Array.getD_eq_getD_getElem?, Array.getElem?_append,
    List.size_toArray]
  by_cases h : n < image.length
  · rw [if_pos h, dif_pos h]
    simp [h]
  · rw [if_neg h, dif_neg h, Array.getElem?_extract]
    simp only [Nat.min_self]
    by_cases hn : n < m.bytes.size
    · rw [if_pos (by omega)]
      congr 2
      omega
    · rw [if_neg (by omega), Array.getElem?_eq_none (by omega)]

end Memory

end RpnY86.Y86
