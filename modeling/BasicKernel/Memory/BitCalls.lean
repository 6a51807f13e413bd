import BasicKernel.Memory.Bitmap

set_option autoImplicit false

/-! # Sequences of `setBit` and `resetBit`

A bit map under any sequence of calls is a set of positions: what `IS_AVAILABLE` answers for a
position is decided by the last call at that position alone.

`isAvailable_iff_lastCall` holds for every sequence of calls and all positions of the map, the
sign bits of the words included.
-/

namespace BasicKernel

/-- A call of `setBit` or `resetBit` at an `int` position. -/
inductive BitCall where
  | setBit (position : Int32)
  | resetBit (position : Int32)
  deriving DecidableEq, Repr

namespace BitCall

def position : BitCall → Int32
  | setBit q => q
  | resetBit q => q

/-- The value that the call writes. -/
def bit : BitCall → Bool
  | setBit _ => true
  | resetBit _ => false

def run (bitMap : BitMap) : BitCall → Except Stop BitMap
  | setBit q => BasicKernel.setBit bitMap q.toInt
  | resetBit q => BasicKernel.resetBit bitMap q.toInt

end BitCall

/-- The calls one after the other. -/
def runBitCalls (calls : List BitCall) (bitMap : BitMap) : Except Stop BitMap :=
  calls.foldlM BitCall.run bitMap

/-- The last of the calls at position `q`. -/
def lastCallAt (q : Int32) (calls : List BitCall) : Option BitCall :=
  calls.reverse.find? fun c => c.position = q

/-- The position is one of the map. -/
def BitMap.Inside (bitMap : BitMap) (q : Int32) : Prop :=
  0 ≤ q.toInt ∧ q.toInt < INT_BITS * bitMap.length

variable {bitMap : BitMap} {calls : List BitCall} {q : Int32}

theorem BitMap.Inside.eq_ofNat (h : bitMap.Inside q) :
    q.toInt = (q.toInt.toNat : Int) ∧ q.toInt.toNat < INT_BITS * bitMap.length ∧
      q.toInt.toNat < 2 ^ 64 := by
  obtain ⟨h0, hlt⟩ := h
  have hint := q.toInt_lt
  omega

/-- One call writes its bit and leaves every other position alone. -/
theorem BitCall.run_writes (c : BitCall) (h : bitMap.Inside c.position) :
    ∃ bitMap', c.run bitMap = .ok bitMap' ∧ bitMap'.length = bitMap.length ∧
      ∀ p, used bitMap' p = if p = c.position.toInt.toNat then c.bit else used bitMap p := by
  obtain ⟨heq, hlt, h64⟩ := h.eq_ofNat
  cases c with
  | setBit q =>
      have hwrite := setBit_writesBit bitMap _ hlt h64
      rwa [← heq] at hwrite
  | resetBit q =>
      have hwrite := resetBit_writesBit bitMap _ hlt h64
      rwa [← heq] at hwrite

/-- A sequence of calls leaves at each position the bit of the last call there. The induction is on
the calls from the last one on, so that `lastCallAt` looks at the same end. -/
theorem runBitCalls_used (hcalls : ∀ c ∈ calls, bitMap.Inside c.position) :
    ∃ bitMap', runBitCalls calls bitMap = .ok bitMap' ∧ bitMap'.length = bitMap.length ∧
      ∀ q : Int32, bitMap.Inside q → used bitMap' q.toInt.toNat =
        ((lastCallAt q calls).map BitCall.bit).getD (used bitMap q.toInt.toNat) := by
  induction calls using List.reverseRecOn with
  | nil => exact ⟨bitMap, rfl, rfl, fun q _ => rfl⟩
  | append_singleton calls c ih =>
      obtain ⟨m, hrun, hlength, hused⟩ := ih fun c' hc' => hcalls c' (List.mem_append_left _ hc')
      have hc := hcalls c (List.mem_append_right _ List.mem_cons_self)
      have hm : m.Inside c.position := by
        rw [BitMap.Inside, hlength]
        exact hc
      obtain ⟨m', hrun', hlength', hused'⟩ := c.run_writes hm
      refine ⟨m', ?_, hlength'.trans hlength, fun q hq => ?_⟩
      · rw [runBitCalls, List.foldlM_append]
        simp only [runBitCalls] at hrun
        simp [hrun, hrun']
      · rw [hused', lastCallAt, List.reverse_append, List.reverse_singleton, List.singleton_append,
          List.find?_cons]
        by_cases hpos : c.position = q
        · simp [hpos]
        · have hne : q.toInt.toNat ≠ c.position.toInt.toNat := by
            intro heq
            apply hpos
            apply Int32.toInt_inj.mp
            rw [hc.eq_ofNat.1, hq.eq_ofNat.1, heq]
          rw [if_neg hne, hused q hq]
          simp [hpos, lastCallAt]

/-- `IS_AVAILABLE` answers by the last call at the position, and by the first map where there was
none. -/
theorem isAvailable_iff_lastCall (hcalls : ∀ c ∈ calls, bitMap.Inside c.position)
    (hq : bitMap.Inside q) :
    ∃ bitMap' available, runBitCalls calls bitMap = .ok bitMap' ∧
      isAvailable bitMap' q.toInt = .ok available ∧
      (available = true ↔ lastCallAt q calls = some (.resetBit q) ∨
        lastCallAt q calls = none ∧ used bitMap q.toInt.toNat = false) := by
  obtain ⟨m, hrun, hlength, hused⟩ := runBitCalls_used hcalls
  obtain ⟨heq, hlt, h64⟩ := hq.eq_ofNat
  refine ⟨m, !used m q.toInt.toNat, hrun, ?_, ?_⟩
  · have havailable : isAvailable m (q.toInt.toNat : Int) = .ok (!used m q.toInt.toNat) :=
      isAvailable_ofNat (by rw [hlength]; exact hlt) h64
    rwa [← heq] at havailable
  · rw [hused q hq, Bool.not_eq_true']
    cases hlast : lastCallAt q calls with
    | none => simp
    | some c =>
        have hpos : c.position = q := by simpa using List.find?_some hlast
        cases c with
        | setBit p => simp [BitCall.bit]
        | resetBit p =>
            obtain rfl : p = q := hpos
            simp [BitCall.bit]

/-- Bit 31 of a word, and its neighbours in this word and the next one. -/
theorem isAvailable_iff_lastCall_sign_bit : ∃ bitMap',
    runBitCalls [.setBit 31, .setBit 30, .setBit 32, .resetBit 31] [0#32, 0#32] = .ok bitMap' ∧
    lastCallAt 31 [.setBit 31, .setBit 30, .setBit 32, .resetBit 31] = some (.resetBit 31) ∧
    isAvailable bitMap' (31 : Int32).toInt = .ok true := by
  have hcalls : ∀ c ∈ [BitCall.setBit 31, .setBit 30, .setBit 32, .resetBit 31],
      BitMap.Inside [0#32, 0#32] c.position := by
    simp [BitMap.Inside, BitCall.position, INT_BITS]
  have hbit : BitMap.Inside [0#32, 0#32] 31 := ⟨by decide, by decide⟩
  obtain ⟨bitMap', available, hrun, havailable, hiff⟩ := isAvailable_iff_lastCall hcalls hbit
  have hlast : lastCallAt 31 [.setBit 31, .setBit 30, .setBit 32, .resetBit 31] = some (.resetBit 31) := by
    decide
  rw [hiff.mpr (.inl hlast)] at havailable
  exact ⟨bitMap', hrun, hlast, havailable⟩

end BasicKernel
