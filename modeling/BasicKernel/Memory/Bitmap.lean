import BasicKernel.Memory.MyMath

set_option autoImplicit false

/-! # `bitmap.c`

A bit map is an array of `int`, one bit for each position: position `q` is bit `q % 32` of
word `q / 32`. The macros of `bitmap.h` index with `size_t` arithmetic, so a negative `int`
position names a word far outside every array.

`setBit_writesBit` and `resetBit_writesBit` say what the two functions do to the map as a set of
used positions. The allocator's proofs use these two facts and nothing of the bit arithmetic.
-/

namespace BasicKernel

/-- The `int` array behind a bit map. -/
abbrev BitMap := List (BitVec 32)

/-- `INT_BITS`, with `BYTE_SIZE` bits in a byte. -/
def INT_BITS : Nat := 32

/-- The index of `SECTOR(bitMap, position)`. -/
def sectorIndex (position : Int) : Nat := toUInt64 position / INT_BITS

/-- `SECTOR_POSITION` -/
def sectorPosition (position : Int) : Nat := toUInt64 position % INT_BITS

/-- `SECTOR` -/
def sector (bitMap : BitMap) (position : Int) : Except Stop (BitVec 32) :=
  match bitMap[sectorIndex position]? with
  | some word => .ok word
  | none => .error .outOfBounds

/-- `GET_BIT` -/
def getBit (word : BitVec 32) (position : Nat) : BitVec 32 := word.sshiftRight position &&& 1#32

/-- `IS_AVAILABLE` -/
def isAvailable (bitMap : BitMap) (position : Int) : Except Stop Bool := do
  let word ← sector bitMap position
  pure (getBit word (sectorPosition position) == 0)

/-- `SET_MASK` -/
def setMask (position : Int) : BitVec 32 := 1#32 <<< sectorPosition position

/-- `RESET_MASK` -/
def resetMask (position : Int) : BitVec 32 := ~~~ setMask position

def setBit (bitMap : BitMap) (position : Int) : Except Stop BitMap := do
  let word ← sector bitMap position
  pure (bitMap.set (sectorIndex position) (word ||| setMask position))

def resetBit (bitMap : BitMap) (position : Int) : Except Stop BitMap := do
  let word ← sector bitMap position
  pure (bitMap.set (sectorIndex position) (word &&& resetMask position))

/-! ## The map as a set of positions

What the other modules use of the map: which positions are used, and that `setBit` and `resetBit`
change one position each. -/

/-- Position `q` is used: its bit is set. -/
def used (bitMap : BitMap) (q : Nat) : Bool :=
  match bitMap[q / INT_BITS]? with
  | some word => word.getLsbD (q % INT_BITS)
  | none => false

theorem sectorIndex_ofNat {q : Nat} (hq : q < 2 ^ 64) : sectorIndex q = q / INT_BITS := by
  simp only [sectorIndex, toUInt64]
  congr 1
  omega

theorem sectorPosition_ofNat {q : Nat} (hq : q < 2 ^ 64) : sectorPosition q = q % INT_BITS := by
  simp only [sectorPosition, toUInt64]
  congr 1
  omega

theorem getBit_eq_zero {word : BitVec 32} {k : Nat} (hk : k < 32) :
    (getBit word k == 0) = !word.getLsbD k := by
  have hbit : getBit word k = if word.getLsbD k then 1#32 else 0#32 := by
    apply BitVec.eq_of_getLsbD_eq
    intro i hi
    simp only [getBit, BitVec.getLsbD_and, BitVec.getLsbD_sshiftRight, BitVec.getLsbD_one]
    rcases Nat.eq_zero_or_pos i with h0 | hpos
    · subst h0
      cases h : word.getLsbD k <;> simp [hk]
    · have hne : ¬ i = 0 := by omega
      cases h : word.getLsbD k <;> simp [hne]
  rw [hbit]
  cases word.getLsbD k <;> rfl

theorem sector_ofNat {bitMap : BitMap} {q : Nat} (hq : q < INT_BITS * bitMap.length)
    (h64 : q < 2 ^ 64) :
    ∃ word, sector bitMap q = .ok word ∧ bitMap[q / INT_BITS]? = some word := by
  have hlt : q / INT_BITS < bitMap.length := Nat.div_lt_of_lt_mul hq
  refine ⟨bitMap[q / INT_BITS], ?_, List.getElem?_eq_getElem hlt⟩
  simp [sector, sectorIndex_ofNat h64, List.getElem?_eq_getElem hlt]

theorem isAvailable_ofNat {bitMap : BitMap} {q : Nat} (hq : q < INT_BITS * bitMap.length)
    (h64 : q < 2 ^ 64) : isAvailable bitMap q = .ok (!used bitMap q) := by
  obtain ⟨word, hw, hget⟩ := sector_ofNat hq h64
  have hk : q % INT_BITS < 32 := Nat.mod_lt _ (by decide)
  simp only [isAvailable, hw, ok_bind, sectorPosition_ofNat h64, used, hget, pure_eq_ok,
    getBit_eq_zero hk]

theorem used_set {bitMap : BitMap} {q : Nat} {word word' : BitVec 32}
    (hget : bitMap[q / INT_BITS]? = some word)
    (hother : ∀ k, k < 32 → k ≠ q % INT_BITS → word'.getLsbD k = word.getLsbD k) (p : Nat) :
    used (bitMap.set (q / INT_BITS) word') p =
      if p = q then word'.getLsbD (q % INT_BITS) else used bitMap p := by
  have hlt : q / INT_BITS < bitMap.length := (List.getElem?_eq_some_iff.mp hget).1
  by_cases hpq : p = q
  · subst hpq
    simp [used, hlt]
  · rw [if_neg hpq]
    by_cases hw : p / INT_BITS = q / INT_BITS
    · have hne : p % INT_BITS ≠ q % INT_BITS := by
        intro hmod
        exact hpq (by rw [← Nat.div_add_mod p INT_BITS, ← Nat.div_add_mod q INT_BITS, hw, hmod])
      have := hother (p % INT_BITS) (Nat.mod_lt _ (by decide)) hne
      simp only [used, hw, List.getElem?_set_self hlt, hget, this]
    · simp [used, List.getElem?_set_ne (Ne.symm hw)]

/-- `f` writes bit `b` at a position inside the map and leaves every other position alone. -/
def WritesBit (f : BitMap → Int → Except Stop BitMap) (b : Bool) : Prop :=
  ∀ (bitMap : BitMap) (q : Nat), q < INT_BITS * bitMap.length → q < 2 ^ 64 →
    ∃ bitMap', f bitMap q = .ok bitMap' ∧ bitMap'.length = bitMap.length ∧
      ∀ p, used bitMap' p = if p = q then b else used bitMap p

theorem setMask_getLsbD {q k : Nat} (h64 : q < 2 ^ 64) (hk : k < 32) :
    (setMask q).getLsbD k = decide (k = q % INT_BITS) := by
  have hq : q % INT_BITS < 32 := Nat.mod_lt _ (by decide)
  simp only [setMask, sectorPosition_ofNat h64, BitVec.getLsbD_shiftLeft, BitVec.getLsbD_one]
  by_cases h : k = q % INT_BITS
  · subst h; simp [hq]
  · by_cases hlt : k < q % INT_BITS
    · simp [h, hlt]
    · have : k - q % INT_BITS ≠ 0 := by omega
      simp [h, this]

theorem setBit_writesBit : WritesBit setBit true := by
  intro bitMap q hq h64
  obtain ⟨word, hw, hget⟩ := sector_ofNat hq h64
  have hk : q % INT_BITS < 32 := Nat.mod_lt _ (by decide)
  refine ⟨bitMap.set (q / INT_BITS) (word ||| setMask q),
    by simp only [setBit, hw, ok_bind, pure_eq_ok, sectorIndex_ofNat h64],
    List.length_set .., fun p => ?_⟩
  rw [used_set hget (fun k hk' hne => by simp [setMask_getLsbD h64 hk', hne])]
  simp [setMask_getLsbD h64 hk]

theorem resetBit_writesBit : WritesBit resetBit false := by
  intro bitMap q hq h64
  obtain ⟨word, hw, hget⟩ := sector_ofNat hq h64
  have hk : q % INT_BITS < 32 := Nat.mod_lt _ (by decide)
  refine ⟨bitMap.set (q / INT_BITS) (word &&& resetMask q),
    by simp only [resetBit, hw, ok_bind, pure_eq_ok, sectorIndex_ofNat h64],
    List.length_set .., fun p => ?_⟩
  have hmask : ∀ k, k < 32 → (resetMask q).getLsbD k = !decide (k = q % INT_BITS) := by
    intro k hk'
    simp only [resetMask, BitVec.getLsbD_not, setMask_getLsbD h64 hk', hk', decide_true,
      Bool.true_and]
  rw [used_set hget (fun k hk' hne => by rw [BitVec.getLsbD_and, hmask k hk']; simp [hne]),
    BitVec.getLsbD_and, hmask _ hk]
  simp

end BasicKernel
