import BasicKernel.Memory.MemoryManager

set_option autoImplicit false

/-! # The layout that `memAllocatorInit` computes

`getBlocksAmount` counts the whole pages of the region and then gives pages back until the
rest of the region is enough for the map, by the measure of `enoughSpace`.

`getBlocksAmount_spec` has the number of blocks as the largest one that fits by this measure.
Whether the measure is right is the subject of `Memory/Regions.lean`.
-/

namespace BasicKernel

theorem mapSize_toNat {b : Int} (h0 : 0 ≤ b) (hb : b < 2 ^ 31) :
    (mapSize b).toNat = (b.toNat + 31) / 32 := by
  have hx : (UInt64.ofNat (toUInt64 b)).toNat = b.toNat := by
    rw [UInt64.toNat_ofNat', toUInt64]
    omega
  have h32 : (32 : UInt64).toNat = 32 := rfl
  have hdiv := divCeil_toNat (x := UInt64.ofNat (toUInt64 b)) (y := 32) (by rw [h32]; omega)
    (by rw [hx, h32]; omega)
  rw [hx, h32] at hdiv
  have hpos32 : (0 : UInt64) < 32 := by decide
  rw [← hdiv]
  simp only [mapSize, divCeil, divCeilFixed, if_pos hpos32]
  by_cases hpos : 0 < b
  · have hx0 : (0 : UInt64) < UInt64.ofNat (toUInt64 b) := by
      rw [UInt64.lt_iff_toNat_lt, hx]
      show 0 < b.toNat
      omega
    rw [if_pos hpos, if_pos hx0]
  · have hx0 : ¬ (0 : UInt64) < UInt64.ofNat (toUInt64 b) := by
      rw [UInt64.lt_iff_toNat_lt, hx]
      show ¬ 0 < b.toNat
      omega
    rw [if_neg hpos, if_neg hx0]

/-- The counting loop ends at the number of whole pages, as an `int`. -/
theorem countBlocks_spec {totalMem : Nat} (htotal : totalMem < 2 ^ 64 - PAGE_SIZE) :
    ∀ (fuel k : Nat), k * PAGE_SIZE ≤ totalMem → totalMem / PAGE_SIZE - k < fuel →
      countBlocks totalMem fuel (k * PAGE_SIZE) (toInt32 ((k : Int) - 1)) =
        .ok ((totalMem / PAGE_SIZE + 1) * PAGE_SIZE, toInt32 (totalMem / PAGE_SIZE : Nat)) := by
  intro fuel
  induction fuel with
  | zero => intro k _ hfuel; omega
  | succ fuel ih =>
      intro k hk hfuel
      have hnext : toUInt64 (((k * PAGE_SIZE : Nat) : Int) + (PAGE_SIZE : Int))
          = (k + 1) * PAGE_SIZE := by
        simp only [toUInt64, PAGE_SIZE] at *
        omega
      have hcount : toInt32 (toInt32 ((k : Int) - 1) + 1) = toInt32 (((k + 1 : Nat) : Int) - 1) := by
        have hk : (k : Int) - 1 + 1 = ((k + 1 : Nat) : Int) - 1 := by push_cast; omega
        rw [toInt32_add, hk]
      simp only [countBlocks, hnext, hcount]
      by_cases hle : (k + 1) * PAGE_SIZE ≤ totalMem
      · rw [if_pos hle]
        exact ih (k + 1) hle (by simp only [PAGE_SIZE] at *; omega)
      · have hq : totalMem / PAGE_SIZE = k := by
          simp only [PAGE_SIZE] at *
          omega
        rw [if_neg hle, hq]
        simp

/-- The number of blocks `B` leaves `totalMem - B * PAGE_SIZE` bytes, enough for the map by
the code's own measure. -/
def Fits (totalMem : Nat) (B : Int) : Prop :=
  0 ≤ B ∧ B * PAGE_SIZE ≤ totalMem ∧
    8 + ((B.toNat + 31) / 32 : Nat) ≤ (totalMem : Int) - B * PAGE_SIZE

theorem enoughSpace_iff {B r : Int} (h0 : 0 ≤ B) (hB : B < 2 ^ 31) :
    enoughSpace B r = true ↔ 8 + (((B.toNat + 31) / 32 : Nat) : Int) ≤ r := by
  have hlt : (B.toNat + 31) / 32 < 2 ^ 27 := by omega
  rw [enoughSpace, mapSize_toNat h0 hB, decide_eq_true_eq,
    toInt32_of_bounds (by omega) (by omega)]

/-- The shrinking loop ends at the largest number of blocks that fits, counting down. -/
theorem shrinkBlocks_spec {totalMem : Nat} (hpage : 8 ≤ totalMem) :
    ∀ (fuel : Nat) (k : Nat), k < fuel → k < 2 ^ 31 → k * PAGE_SIZE ≤ totalMem →
      ∃ B, shrinkBlocks fuel k ((totalMem : Int) - k * PAGE_SIZE) = .ok B ∧ B ≤ k ∧
        Fits totalMem B ∧ ∀ B', B < B' → B' ≤ k → ¬ Fits totalMem B' := by
  -- on the fuel; each round gives one page back
  intro fuel
  induction fuel with
  | zero => intro k hk; omega
  | succ fuel ih =>
      intro k hfuel hk hfit
      have hiff := enoughSpace_iff (r := (totalMem : Int) - k * PAGE_SIZE) (Int.natCast_nonneg k)
        (by exact_mod_cast hk)
      rw [Int.toNat_natCast] at hiff
      by_cases henough : enoughSpace k ((totalMem : Int) - k * PAGE_SIZE) = true
      · refine ⟨k, by simp only [shrinkBlocks, if_pos henough], le_refl _, ⟨by omega, ?_, ?_⟩, ?_⟩
        · exact_mod_cast hfit
        · rw [Int.toNat_natCast]
          exact hiff.mp henough
        · intro B' h1 h2
          omega
      -- with no page left the rest is the whole memory, and that is enough
      · cases k with
        | zero =>
            exact absurd (hiff.mpr (by simp only [PAGE_SIZE] at *; push_cast; omega)) henough
        | succ k =>
            have hprev : ((k + 1 : Nat) : Int) - 1 = (k : Int) := by push_cast; omega
            have hmem : (totalMem : Int) - ((k + 1 : Nat) : Int) * PAGE_SIZE + PAGE_SIZE
                = (totalMem : Int) - (k : Int) * PAGE_SIZE := by
              simp only [PAGE_SIZE]; push_cast; omega
            obtain ⟨B, hB, hle, hfits, hmax⟩ := ih k (by omega) (by omega)
              (le_trans (Nat.mul_le_mul_right _ (Nat.le_succ k)) hfit)
            refine ⟨B, ?_, by omega, hfits, fun B' h1 h2 hB' => ?_⟩
            · simp only [shrinkBlocks, henough, Bool.false_eq_true, ↓reduceIte, hprev, hmem, hB]
            -- the number `k + 1` itself was tried and does not fit
            · rcases Int.lt_or_le (k : Int) B' with h | h
              · have : B' = ((k + 1 : Nat) : Int) := by omega
                subst this
                have := hB'.2.2
                rw [Int.toNat_natCast] at this
                exact henough (hiff.mpr this)
              · exact hmax B' h1 h hB'

/-- With fuel for one iteration a page, `getBlocksAmount` returns the largest number of blocks
that fits. The pages are counted in an `int`, hence modulo `2^32`. -/
theorem getBlocksAmount_spec {fuel totalMem : Nat} (hmin : 8 ≤ totalMem % 2 ^ 44)
    (hint : totalMem % 2 ^ 44 < 2 ^ 43) (htotal : totalMem < 2 ^ 64 - PAGE_SIZE)
    (hfuel : totalMem / PAGE_SIZE < fuel) :
    ∃ B, getBlocksAmount fuel totalMem = .ok B ∧ Fits (totalMem % 2 ^ 44) B ∧
      ∀ B', B < B' → ¬ Fits (totalMem % 2 ^ 44) B' := by
  have hcount := countBlocks_spec htotal fuel 0 (by omega) (by omega)
  have hstart : toInt32 (((0 : Nat) : Int) - 1) = -1 := toInt32_of_bounds (by decide) (by decide)
  rw [hstart, Nat.zero_mul] at hcount
  have hpages : toInt32 ((totalMem / PAGE_SIZE : Nat) : Int)
      = ((totalMem % 2 ^ 44 / PAGE_SIZE : Nat) : Int) := by
    simp only [toInt32, Int.bmod_def, PAGE_SIZE] at *
    split <;> omega
  -- the counter stands one page behind the last one that fits
  have haux : toUInt64 (((totalMem / PAGE_SIZE + 1) * PAGE_SIZE : Nat) - (PAGE_SIZE : Int))
      = totalMem / PAGE_SIZE * PAGE_SIZE := by
    simp only [toUInt64, PAGE_SIZE] at *
    omega
  have hrem : toInt32 (toUInt64 (totalMem - (totalMem / PAGE_SIZE * PAGE_SIZE : Nat)))
      = ((totalMem % 2 ^ 44 : Nat) : Int) - ((totalMem % 2 ^ 44 / PAGE_SIZE : Nat) : Int) * PAGE_SIZE := by
    have hq : totalMem / PAGE_SIZE * PAGE_SIZE ≤ totalMem := Nat.div_mul_le_self ..
    rw [toUInt64_of_bounds (by omega) (by omega)]
    simp only [PAGE_SIZE] at *
    rw [toInt32_of_bounds (by omega) (by omega)]
    omega
  obtain ⟨B, hB, -, hfits, hmax⟩ := shrinkBlocks_spec hmin fuel (totalMem % 2 ^ 44 / PAGE_SIZE)
    (by simp only [PAGE_SIZE] at *; omega) (by simp only [PAGE_SIZE] at *; omega)
    (Nat.div_mul_le_self ..)
  refine ⟨B, ?_, hfits, fun B' h1 hB' => ?_⟩
  · simp only [getBlocksAmount, hcount, ok_bind, haux, hpages, hrem, hB]
  · refine hmax B' h1 ?_ hB'
    have := hB'.2.1
    simp only [PAGE_SIZE] at *
    omega

end BasicKernel
