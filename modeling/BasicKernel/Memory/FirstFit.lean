import BasicKernel.Memory.MemoryManager

set_option autoImplicit false

/-! # `allocate` is first fit

What one call of `allocate` and of `deallocate` does to the map, for every map content. The
search is followed by induction on its fuel. A failed probe at start `i` stops at a used
block `i + k`, and every start from `i` to `i + k` has that block in its range, so nothing is
lost by skipping them all.

`allocate_firstFit` is the result on one call, and `Memory/Contract.lean` and
`Memory/Requests.lean` are built on it.
-/

namespace BasicKernel

/-- Blocks `s, …, s + n - 1` are free. -/
def FreeRun (words : BitMap) (s n : Nat) : Prop :=
  ∀ q, s ≤ q → q < s + n → used words q = false

/-- `s` is the first start below `lastIndex` of a free run of `n` blocks, counting from `i`. -/
def FirstFit (words : BitMap) (lastIndex : Int) (n i s : Nat) : Prop :=
  i ≤ s ∧ (s : Int) ≤ lastIndex ∧ FreeRun words s n ∧
    ∀ s', i ≤ s' → s' < s → ¬ FreeRun words s' n

theorem FreeRun.of_succ {words : BitMap} {s n : Nat} (hs : used words s = false)
    (h : FreeRun words (s + 1) n) : FreeRun words s (n + 1) := by
  intro q hlo hhi
  rcases Nat.eq_or_lt_of_le hlo with rfl | hlt
  · exact hs
  · exact h q hlt (by omega)

/-- `probe` finds a free run or stops just behind a used block of the range. -/
theorem probe_spec (words : BitMap) (i : Nat) (h64 : INT_BITS * words.length ≤ 2 ^ 64) :
    ∀ (n j : Nat), i + j + n ≤ INT_BITS * words.length →
      (probe words i n j = .ok (((j + n : Nat) : Int), true) ∧ FreeRun words (i + j) n) ∨
      ∃ k, k < n ∧ probe words i n j = .ok (((j + k + 1 : Nat) : Int), false) ∧
        used words (i + j + k) = true := by
  intro n
  -- on the blocks that are left of the run
  induction n with
  | zero =>
      intro j _
      exact Or.inl ⟨rfl, fun q hlo hhi => by omega⟩
  | succ n ih =>
      intro j hb
      have hq : i + j < INT_BITS * words.length := by omega
      have htest : isAvailable words ((i : Int) + (j : Int)) = .ok (!used words (i + j)) := by
        rw [← Int.natCast_add]
        exact isAvailable_ofNat hq (by omega)
      simp only [probe, htest, ok_bind]
      cases hu : used words (i + j) with
      | true =>
          refine Or.inr ⟨0, by omega, ?_, hu⟩
          simp
      | false =>
          have hstep : probe words i n ((j : Int) + 1) = probe words i n ((j + 1 : Nat) : Int) := by
            simp
          simp only [Bool.not_false, ↓reduceIte, hstep]
          rcases ih (j + 1) (by omega) with ⟨hp, hf⟩ | ⟨k, hk, hp, hused⟩
          · refine Or.inl ⟨by rw [hp]; congr 3; omega, FreeRun.of_succ hu hf⟩
          · refine Or.inr ⟨k + 1, by omega, by rw [hp]; congr 3; omega, ?_⟩
            rw [← hused]
            congr 1
            omega

/-- The search ends, and it ends at the first fit if there is one. -/
theorem search_spec (words : BitMap) {n : Nat} (hn : 1 ≤ n) (lastIndex : Int)
    (hlast : lastIndex + n ≤ (INT_BITS * words.length : Nat))
    (h64 : INT_BITS * words.length ≤ 2 ^ 64) :
    ∀ (fuel i : Nat), (lastIndex + 1 - i).toNat < fuel →
      (∃ s, search words n lastIndex fuel i = .ok (((s + n : Nat) : Int), (n : Int), true) ∧
        FirstFit words lastIndex n i s) ∨
      (∃ i' j', search words n lastIndex fuel i = .ok (i', j', false)) ∧
        ∀ s, i ≤ s → (s : Int) ≤ lastIndex → ¬ FreeRun words s n := by
  intro fuel
  induction fuel with
  | zero =>
      intro i hfuel
      omega
  | succ fuel ih =>
      intro i hfuel
      by_cases hle : (i : Int) ≤ lastIndex
      · simp only [search, if_pos hle, Int.toNat_natCast]
        rcases probe_spec words i h64 n 0 (by omega) with ⟨hp, hf⟩ | ⟨k, hk, hp, hused⟩
        · -- the run at `i` is free
          refine Or.inl ⟨i, ?_, le_refl _, hle, hf, fun s' hlo hhi => by omega⟩
          simp only [Nat.cast_zero] at hp
          simp [hp]
        · -- block `i + k` is used: continue behind it
          simp only [Nat.cast_zero, Nat.zero_add, Nat.add_zero] at hp hused
          have hnext : (i : Int) + ((k + 1 : Nat) : Int) = ((i + k + 1 : Nat) : Int) := by
            push_cast; omega
          have hskip : ∀ s, i ≤ s → s < i + k + 1 → ¬ FreeRun words s n := by
            intro s hlo hhi hfree
            rw [hfree (i + k) (by omega) (by omega)] at hused
            cases hused
          simp only [hp, ok_bind, Bool.false_eq_true, ↓reduceIte, hnext]
          rcases ih (i + k + 1) (by push_cast; omega) with ⟨s, hs, hfit⟩ | ⟨hs, hnone⟩
          · refine Or.inl ⟨s, hs, by have := hfit.1; omega, hfit.2.1, hfit.2.2.1, ?_⟩
            intro s' hlo hhi
            by_cases h : s' < i + k + 1
            · exact hskip s' hlo h
            · exact hfit.2.2.2 s' (by omega) hhi
          -- what was skipped has a used block, and the rest is the induction hypothesis
          · refine Or.inr ⟨hs, fun s hlo hhi => ?_⟩
            by_cases h : s < i + k + 1
            · exact hskip s hlo h
            · exact hnone s (by omega) hhi
      -- behind the last start the search is over
      · refine Or.inr ⟨⟨i, 0, by simp only [search, if_neg hle]⟩, fun s hlo hhi => ?_⟩
        omega

theorem bitLoop_spec {f : BitMap → Int → Except Stop BitMap} {b : Bool} (hf : WritesBit f b) :
    ∀ (n i : Nat) (words : BitMap), i + n ≤ INT_BITS * words.length →
      INT_BITS * words.length ≤ 2 ^ 64 →
      ∃ words', bitLoop f n i words = .ok words' ∧ words'.length = words.length ∧
        ∀ p, used words' p = if i ≤ p ∧ p < i + n then b else used words p := by
  intro n
  induction n with
  | zero =>
      intro i words _ _
      refine ⟨words, rfl, rfl, fun p => ?_⟩
      rw [if_neg (by omega)]
  | succ n ih =>
      intro i words hb h64
      obtain ⟨words₁, h₁, hlen₁, hused₁⟩ := hf words i (by omega) (by omega)
      obtain ⟨words₂, h₂, hlen₂, hused₂⟩ := ih (i + 1) words₁ (by rw [hlen₁]; omega)
        (by rw [hlen₁]; exact h64)
      refine ⟨words₂, ?_, hlen₂.trans hlen₁, fun p => ?_⟩
      · have hi : (i : Int) + 1 = ((i + 1 : Nat) : Int) := by push_cast; rfl
        simp only [bitLoop, h₁, ok_bind, hi, h₂]
      · rw [hused₂ p, hused₁ p]
        by_cases hp : p = i
        · subst hp
          simp
        · by_cases hr : i + 1 ≤ p ∧ p < i + 1 + n
          · rw [if_pos hr, if_pos (by omega)]
          · rw [if_neg hr, if_neg hp, if_neg (by omega)]

/-! ## One call -/

/-- The map covers all blocks, and block numbers are `int`s. -/
structure MapOk (m : MemoryManager) : Prop where
  nonneg : 0 ≤ m.blocksAmount
  int : m.blocksAmount < 2 ^ 31
  covered : m.blocksAmount ≤ (INT_BITS * m.words.length : Nat)
  indexable : INT_BITS * m.words.length ≤ 2 ^ 64

/-- The address that `allocate` computes for block `s`. -/
def blockAddress (m : MemoryManager) (s : Nat) : Nat :=
  toUInt64 (m.initMem + toInt32 (s * PAGE_SIZE))

theorem allocate_firstFit {m : MemoryManager} (hm : MapOk m) {request n : Nat}
    (hblocks : blocksOf request = n) (hn : 1 ≤ n) :
    (∃ s words', allocate m request = .ok (some (blockAddress m s), { m with words := words' }) ∧
        FirstFit m.words (m.blocksAmount - n) n 0 s ∧ words'.length = m.words.length ∧
        ∀ p, used words' p = if s ≤ p ∧ p < s + n then true else used m.words p) ∨
      allocate m request = .ok (none, m) ∧
        ∀ s : Nat, (s : Int) ≤ m.blocksAmount - n → ¬ FreeRun m.words s n := by
  obtain ⟨hnonneg, hint, hcovered, hindex⟩ := hm
  have hn31 : (n : Int) < 2 ^ 31 := by
    rw [← hblocks]
    exact (toInt32_bounds _).2
  have hlast : toInt32 (m.blocksAmount - n) = m.blocksAmount - n :=
    toInt32_of_bounds (by omega) (by omega)
  simp only [allocate, hblocks, hlast]
  rcases search_spec m.words hn (m.blocksAmount - n) (by omega) hindex
      ((m.blocksAmount - n + 1).toNat + 1) 0 (by omega) with ⟨s, hs, hfit⟩ | ⟨⟨i, j, hs⟩, hnone⟩
  · left
    -- the conversions to `int` do not change numbers of blocks
    have hsn : (s + n : Int) ≤ m.blocksAmount := by have := hfit.2.1; omega
    obtain ⟨words', hw, hlen, hused⟩ := bitLoop_spec setBit_writesBit n s m.words
      (by omega) hindex
    refine ⟨s, words', ?_, hfit, hlen, hused⟩
    have hstart : ((s + n : Nat) : Int) - (n : Int) = s := by push_cast; omega
    have hcount : ((s : Int) + (n : Int) - (s : Int)).toNat = n := by omega
    simp only [Nat.cast_zero] at hs
    simp only [hs, ok_bind, Bool.not_true, Bool.false_eq_true, ↓reduceIte, hstart, reserve, hcount,
      hw, pure_eq_ok, blockAddress]
  · right
    simp only [Nat.cast_zero] at hs
    refine ⟨by simp [hs], fun s hs' => hnone s (Nat.zero_le s) hs'⟩

end BasicKernel
