import BasicKernel.Memory.Runs

set_option autoImplicit false

/-! # The layout for every region

`memAllocatorInit` on a region of any size. `enoughSpace` counts the integers of the map, and the map
takes four bytes for each; the pages are counted in an `int`, and so is their size in bytes.

`layout_fits_iff` finds by a condition on the size alone for which regions the block area and the
map lie inside, one beside the other. `map_overruns_region` is a region for which the map does not
fit.
-/

namespace BasicKernel

variable {m m' : MemoryManager} {initPosition endPosition totalMem fuel : Nat}

/-- The block area and the map lie in the region, one beside the other. -/
structure MemoryManager.LaidOut (m : MemoryManager) (initPosition endPosition : Nat) : Prop where
  nonneg : 0 ≤ m.blocksAmount
  blocks : Set.Ico (m.initMem : Int) (m.initMem + m.blocksAmount * PAGE_SIZE) ⊆
    Set.Ico (initPosition : Int) endPosition
  map : Set.Ico (m.usedMap : Int) (m.usedMap + m.words.length * 4) ⊆
    Set.Ico (initPosition : Int) endPosition
  disjoint : Disjoint (Set.Ico (m.initMem : Int) (m.initMem + m.blocksAmount * PAGE_SIZE))
    (Set.Ico (m.usedMap : Int) (m.usedMap + m.words.length * 4))

/-- `memAllocatorInit` ends, and leaves such a layout. -/
def LaysOut (m : MemoryManager) (initPosition endPosition : Nat) : Prop :=
  ∃ r m', (∃ n, ∀ fuel, n ≤ fuel → memAllocatorInit fuel m initPosition endPosition = .ok (r, m')) ∧
    m'.LaidOut initPosition endPosition

/-- The integers of the map for `B` blocks. -/
def mapInts (B : Nat) : Nat := (B + 31) / 32

/-- The sizes of regions for which it does so. Counted modulo `2^32` pages there is a rest for the map
and there are less than `2^19` blocks; and the bytes of the map fit wherever its integers, counted as
bytes, do. -/
def MapFits (totalMem : Nat) : Prop :=
  8 ≤ totalMem % 2 ^ 44 ∧ totalMem % 2 ^ 44 < 2 ^ 31 + 2 ^ 14 + 8 ∧
    ∀ B, B * PAGE_SIZE + (8 + mapInts B) ≤ totalMem % 2 ^ 44 → B * PAGE_SIZE + mapInts B * 4 ≤ totalMem

/-! ## Regions that are too large

Where even no block leaves enough for a map by the measure of the code, the shrinking loop goes
below zero. -/

/-- The counter passes every multiple of a page. -/
theorem countBlocks_never (htotal : 2 ^ 64 - PAGE_SIZE ≤ totalMem) :
    ∀ (fuel auxMem : Nat) (blocksAmount : Int) (r : Nat × Int), auxMem % PAGE_SIZE = 0 →
      countBlocks totalMem fuel auxMem blocksAmount ≠ .ok r := by
  intro fuel
  induction fuel with
  | zero => intro _ _ _ _ h; cases h
  | succ fuel ih =>
      intro auxMem blocksAmount r haux h
      have hnext : toUInt64 ((auxMem : Int) + (PAGE_SIZE : Int)) % PAGE_SIZE = 0 := by
        simp only [toUInt64, PAGE_SIZE] at *
        omega
      have hle : toUInt64 ((auxMem : Int) + (PAGE_SIZE : Int)) ≤ totalMem := by
        simp only [toUInt64, PAGE_SIZE] at *
        omega
      simp only [countBlocks, if_pos hle] at h
      exact ih _ _ r hnext h

/-- The number of blocks only shrinks, and its map fits by the measure of the code. -/
theorem shrinkBlocks_le : ∀ {fuel : Nat} {blocksAmount remainingMem B : Int},
    shrinkBlocks fuel blocksAmount remainingMem = .ok B → B ≤ blocksAmount ∧
      enoughSpace B (remainingMem + (blocksAmount - B) * PAGE_SIZE) = true := by
  intro fuel
  induction fuel with
  | zero => intro _ _ _ h; cases h
  | succ fuel ih =>
      intro blocksAmount remainingMem B h
      unfold shrinkBlocks at h
      split at h
      case isTrue henough =>
          obtain rfl := Except.ok.inj h
          refine ⟨le_rfl, ?_⟩
          rw [sub_self, zero_mul, add_zero]
          exact henough
      case isFalse _ =>
          obtain ⟨hle, henough⟩ := ih h
          refine ⟨by omega, ?_⟩
          have hrem : remainingMem + PAGE_SIZE + (blocksAmount - 1 - B) * PAGE_SIZE
              = remainingMem + (blocksAmount - B) * PAGE_SIZE := by ring
          rw [hrem] at henough
          exact henough

/-- Without a rest for the map of no blocks, or with `2^31` pages or more, the number of blocks is
negative. -/
theorem getBlocksAmount_negative (h : totalMem % 2 ^ 44 < 8 ∨ 2 ^ 43 ≤ totalMem % 2 ^ 44)
    (htotal : totalMem < 2 ^ 64) (hfuel : totalMem / PAGE_SIZE < fuel) {B : Int}
    (hB : getBlocksAmount fuel totalMem = .ok B) : B < 0 := by
  obtain ⟨⟨auxMem, blocks⟩, hcount, hshrink⟩ := bind_eq_ok.mp hB
  -- the counting loop does not end on the last page of the address space
  by_cases hlarge : 2 ^ 64 - PAGE_SIZE ≤ totalMem
  · exact absurd hcount (countBlocks_never hlarge fuel 0 (-1) _ (Nat.zero_mod _))
  have hspec := @countBlocks_spec totalMem (by omega) fuel 0 (by omega) (by omega)
  have hstart : toInt32 (((0 : Nat) : Int) - 1) = -1 := toInt32_of_bounds (by decide) (by decide)
  rw [hstart, Nat.zero_mul, hcount] at hspec
  simp only [Except.ok.injEq, Prod.mk.injEq] at hspec
  rw [hspec.1, hspec.2] at hshrink
  obtain ⟨hle, henough⟩ := shrinkBlocks_le hshrink
  rcases h with hrest | hpages
  · -- the pages are a multiple of `2^32`
    have hzero : toInt32 ((totalMem / PAGE_SIZE : Nat) : Int) = 0 := by
      simp only [toInt32, Int.bmod_def, PAGE_SIZE] at *
      split <;> omega
    rw [hzero] at hle henough
    by_contra hB0
    obtain rfl : B = 0 := by omega
    have hrem : toUInt64 ((totalMem : Int) - toUInt64 (((totalMem / PAGE_SIZE + 1) * PAGE_SIZE : Nat) -
        (PAGE_SIZE : Int))) < 8 := by
      simp only [toUInt64, PAGE_SIZE] at *
      omega
    have hint : toInt32 (toUInt64 ((totalMem : Int) - toUInt64 (((totalMem / PAGE_SIZE + 1) *
        PAGE_SIZE : Nat) - (PAGE_SIZE : Int)))) < 8 := by
      rw [toInt32_of_bounds (by omega) (by omega)]
      exact_mod_cast hrem
    generalize toInt32 (toUInt64 ((totalMem : Int) - toUInt64 (((totalMem / PAGE_SIZE + 1) *
      PAGE_SIZE : Nat) - (PAGE_SIZE : Int)))) = r at henough hint
    rw [sub_self, zero_mul, add_zero, enoughSpace_iff le_rfl (by decide)] at henough
    have hle8 : 8 ≤ r := Int.le_trans (by decide) henough
    omega
  -- with `2^31` pages or more the count has left the `int` range
  · have hneg : toInt32 ((totalMem / PAGE_SIZE : Nat) : Int) < 0 := by
      simp only [toInt32, Int.bmod_def, PAGE_SIZE] at *
      split <;> omega
    omega

/-! ## The layout of `B` blocks

The map lies behind the last block. Whether it ends inside the region is a question of
arithmetic. -/

/-- The allocator with `B` blocks. -/
def MemoryManager.withBlocks (m : MemoryManager) (initPosition : Nat) (B : Int) : MemoryManager :=
  mapInit { m with initMem := initPosition, blocksAmount := B }

theorem memAllocatorInit_of_pages (hpage : initPosition + PAGE_SIZE ≤ endPosition)
    (hend : endPosition < 2 ^ 64) :
    memAllocatorInit fuel m initPosition endPosition =
      getBlocksAmount fuel (endPosition - initPosition) >>= fun B =>
        .ok (1, m.withBlocks initPosition B) := by
  have htotal : toUInt64 ((endPosition : Int) - initPosition) = endPosition - initPosition := by
    simp only [toUInt64]
    omega
  have hnot : ¬ endPosition - initPosition < PAGE_SIZE := by omega
  unfold memAllocatorInit
  dsimp only
  rw [htotal, if_neg hnot]
  refine congrArg (bind _) (funext fun B => ?_)
  rw [pure_eq_ok, MemoryManager.withBlocks]

theorem withBlocks_words (m : MemoryManager) (initPosition : Nat) {B : Int} (h0 : 0 ≤ B)
    (hB : B < 2 ^ 31) : (m.withBlocks initPosition B).words.length = mapInts B.toNat := by
  have hlt : (B.toNat + 31) / 32 < 2 ^ 31 := by omega
  unfold MemoryManager.withBlocks mapInit
  dsimp only
  rw [List.length_replicate, mapSize_toNat h0 hB, toInt32_of_bounds (by omega) (by omega)]
  unfold mapInts
  omega

/-- Below `2^19` blocks the map starts behind the last of them. -/
theorem withBlocks_usedMap (m : MemoryManager) {B : Int} (h0 : 0 ≤ B) (hB : B < 2 ^ 19)
    (hend : (initPosition : Int) + B * PAGE_SIZE < 2 ^ 64) :
    ((m.withBlocks initPosition B).usedMap : Int) = initPosition + B * PAGE_SIZE := by
  unfold MemoryManager.withBlocks mapInit
  dsimp only
  simp only [PAGE_SIZE] at *
  rw [toInt32_of_bounds (by omega) (by omega)]
  exact toUInt64_of_bounds (by omega) (by omega)

/-- The layout of `B` blocks, when their number is the largest that fits by the measure of the code. -/
theorem laidOut_withBlocks_iff (m : MemoryManager) {B : Int}
    (hpage : initPosition + PAGE_SIZE ≤ endPosition) (hend : endPosition < 2 ^ 64)
    (hint : (endPosition - initPosition) % 2 ^ 44 < 2 ^ 43)
    (hfits : Fits ((endPosition - initPosition) % 2 ^ 44) B) :
    (m.withBlocks initPosition B).LaidOut initPosition endPosition ↔
      B < 2 ^ 19 ∧ B * PAGE_SIZE + mapInts B.toNat * 4 ≤ (endPosition - initPosition : Nat) := by
  obtain ⟨h0, hpages, -⟩ := hfits
  have hB : B < 2 ^ 31 := by simp only [PAGE_SIZE] at *; omega
  have hinside : (initPosition : Int) + B * PAGE_SIZE ≤ endPosition := by
    have := Nat.mod_le (endPosition - initPosition) (2 ^ 44)
    omega
  have hwords := withBlocks_words m initPosition h0 hB
  constructor
  · rintro ⟨-, -, hmap, hdisjoint⟩
    -- the first integer of the map, if there is one
    rcases Nat.eq_zero_or_pos B.toNat with hzero | hpos
    · obtain rfl : B = 0 := by omega
      refine ⟨by decide, ?_⟩
      show (0 : Int) * PAGE_SIZE + mapInts 0 * 4 ≤ _
      rw [show mapInts 0 = 0 from rfl]
      omega
    have hints : 1 ≤ mapInts B.toNat := by
      unfold mapInts
      omega
    have hlast : B * PAGE_SIZE ≤ ((endPosition - initPosition) % 2 ^ 44 : Nat) := hpages
    rw [hwords] at hmap hdisjoint
    have hx := toInt32_bounds (B * PAGE_SIZE)
    have hmapAt : (m.withBlocks initPosition B).usedMap
        = toUInt64 ((initPosition : Int) + toInt32 (B * PAGE_SIZE)) := by
      unfold MemoryManager.withBlocks mapInit
      rfl
    have hat : B < 2 ^ 19 → (initPosition : Int) + B * PAGE_SIZE < 2 ^ 64 →
        ((m.withBlocks initPosition B).usedMap : Int) = initPosition + B * PAGE_SIZE :=
      withBlocks_usedMap m h0
    generalize (m.withBlocks initPosition B).usedMap = usedMap at hmap hdisjoint hmapAt hat
    have hfirst := hmap (Set.mem_Ico.mpr ⟨le_refl (usedMap : Int), by omega⟩)
    rw [Set.mem_Ico] at hfirst
    have houtside : ¬ (usedMap : Int) < initPosition + B * PAGE_SIZE := by
      intro hlt
      have hblock : (usedMap : Int) ∈ Set.Ico (initPosition : Int) (initPosition + B * PAGE_SIZE) :=
        Set.mem_Ico.mpr ⟨hfirst.1, hlt⟩
      exact Set.disjoint_left.mp hdisjoint hblock (Set.mem_Ico.mpr ⟨le_rfl, by omega⟩)
    have hB19 : B < 2 ^ 19 := by
      -- from there on the offset of the map is less than the size of the block area
      by_contra hlarge
      rw [hmapAt] at hfirst houtside
      generalize toInt32 (B * PAGE_SIZE) = x at *
      clear hmap hdisjoint hwords hmapAt
      simp only [toUInt64, PAGE_SIZE] at *
      omega
    refine ⟨hB19, ?_⟩
    -- the last byte of the map
    have hmem : (usedMap : Int) + mapInts B.toNat * 4 - 1 ∈
        Set.Ico (usedMap : Int) (usedMap + mapInts B.toNat * 4) :=
      Set.mem_Ico.mpr ⟨by omega, by omega⟩
    have hend := (Set.mem_Ico.mp (hmap hmem)).2
    rw [hat hB19 (by omega)] at hend
    omega
  · rintro ⟨hB19, hle⟩
    have hmap : ((m.withBlocks initPosition B).usedMap : Int) = initPosition + B * PAGE_SIZE :=
      withBlocks_usedMap m h0 hB19 (by omega)
    refine ⟨h0, ?_, ?_, ?_⟩
    · refine Set.Ico_subset_Ico le_rfl ?_
      exact hinside
    · rw [hmap, hwords]
      refine Set.Ico_subset_Ico ?_ ?_
      · simp only [PAGE_SIZE]
        omega
      · omega
    · rw [hmap]
      exact Set.Ico_disjoint_Ico_same

/-! ## Every region -/

theorem MapFits.laysOut (hfits : MapFits (endPosition - initPosition))
    (hpage : initPosition + PAGE_SIZE ≤ endPosition) (hend : endPosition < 2 ^ 64) :
    LaysOut m initPosition endPosition := by
  obtain ⟨hmin, hsize, hmap⟩ := hfits
  have hint : (endPosition - initPosition) % 2 ^ 44 < 2 ^ 43 := by omega
  have htotal : endPosition - initPosition < 2 ^ 64 - PAGE_SIZE := by
    simp only [PAGE_SIZE] at *
    omega
  obtain ⟨B, -, hlargest, hmax⟩ := getBlocksAmount_spec hmin hint htotal
    (Nat.lt_succ_self ((endPosition - initPosition) / PAGE_SIZE))
  refine ⟨1, m.withBlocks initPosition B,
    ⟨(endPosition - initPosition) / PAGE_SIZE + 1, fun fuel hfuel => ?_⟩, ?_⟩
  · -- the largest number that fits does not depend on the fuel
    obtain ⟨B', hB', hlargest', hmax'⟩ := @getBlocksAmount_spec fuel _ hmin hint htotal hfuel
    have hle : B' ≤ B := Int.not_lt.mp fun h => hmax B' h hlargest'
    have hge : B ≤ B' := Int.not_lt.mp fun h => hmax' B h hlargest
    obtain rfl : B' = B := le_antisymm hle hge
    rw [memAllocatorInit_of_pages hpage hend, hB', ok_bind]
  · refine (laidOut_withBlocks_iff m hpage hend hint hlargest).mpr ?_
    obtain ⟨h0, -, hrest⟩ := hlargest
    refine ⟨?_, ?_⟩
    · -- `2^19` blocks and the integers of their map are more than the region holds
      by_contra hlarge
      simp only [PAGE_SIZE] at *
      omega
    · have hbytes := hmap B.toNat (by simp only [mapInts, PAGE_SIZE] at *; omega)
      simp only [PAGE_SIZE] at *
      omega

theorem mapFits_of_laysOut (hlays : LaysOut m initPosition endPosition)
    (hpage : initPosition + PAGE_SIZE ≤ endPosition) (hend : endPosition < 2 ^ 64) :
    MapFits (endPosition - initPosition) := by
  obtain ⟨r, m', ⟨n, hruns⟩, hlaid⟩ := hlays
  have hfuel : (endPosition - initPosition) / PAGE_SIZE <
      n + (endPosition - initPosition) / PAGE_SIZE + 1 :=
    Nat.lt_succ_of_le (Nat.le_add_left _ _)
  have hrun := hruns (n + (endPosition - initPosition) / PAGE_SIZE + 1)
    (Nat.le_trans (Nat.le_add_right _ _) (Nat.le_succ _))
  rw [memAllocatorInit_of_pages hpage hend] at hrun
  obtain ⟨B, hB, hm'⟩ := bind_eq_ok.mp hrun
  simp only [Except.ok.injEq, Prod.mk.injEq] at hm'
  rw [← hm'.2] at hlaid
  have h0 : 0 ≤ B := hlaid.nonneg
  by_cases hsmall : 8 ≤ (endPosition - initPosition) % 2 ^ 44 ∧
      (endPosition - initPosition) % 2 ^ 44 < 2 ^ 43
  case neg =>
    have := getBlocksAmount_negative (by omega) (by omega) hfuel hB
    omega
  have htotal : endPosition - initPosition < 2 ^ 64 - PAGE_SIZE := by
    simp only [PAGE_SIZE] at *
    omega
  obtain ⟨B', hB', hlargest, hmax⟩ := getBlocksAmount_spec hsmall.1 hsmall.2 htotal hfuel
  obtain rfl : B = B' := Except.ok.inj (hB.symm.trans hB')
  obtain ⟨hB19, hmap⟩ := (laidOut_withBlocks_iff m hpage hend hsmall.2 hlargest).mp hlaid
  refine ⟨hsmall.1, ?_, fun B' hB' => ?_⟩
  · -- `2^19` blocks would be more
    by_contra hlarge
    refine hmax (2 ^ 19) hB19 ⟨by decide, ?_, ?_⟩
    · simp only [PAGE_SIZE]
      omega
    · simp only [PAGE_SIZE]
      omega
  · -- `B` blocks are the most that fit by the measure of the code
    have hle : (B' : Int) ≤ B := by
      by_contra hlt
      refine hmax B' (by omega) ⟨by omega, ?_, ?_⟩
      · exact_mod_cast le_trans (Nat.le_add_right _ _) hB'
      · simp only [mapInts, Int.toNat_natCast] at *
        omega
    have hnat : B' ≤ B.toNat := by omega
    have hints : mapInts B' ≤ mapInts B.toNat := Nat.div_le_div_right (by omega)
    simp only [PAGE_SIZE] at *
    omega

/-- The layout that `memAllocatorInit` leaves fits its region if and only if the bytes of the map do
wherever its integers do, and the offsets are integers. -/
theorem layout_fits_iff (m : MemoryManager) {initPosition endPosition : Nat}
    (hpage : initPosition + PAGE_SIZE ≤ endPosition) (hend : endPosition < 2 ^ 64) :
    LaysOut m initPosition endPosition ↔ MapFits (endPosition - initPosition) :=
  ⟨fun hlays => mapFits_of_laysOut hlays hpage hend, fun hfits => hfits.laysOut hpage hend⟩

theorem mapFits_hundred_pages : MapFits (101 * PAGE_SIZE) := by
  refine ⟨by decide, by decide, fun B hB => ?_⟩
  simp only [mapInts, PAGE_SIZE] at *
  have hblocks : B ≤ 100 := by omega
  omega

theorem hundredPages_states : (do
    let (_, m) ← memAllocatorInit 102 MemoryManager.static 0x1000000 (0x1000000 + 101 * PAGE_SIZE)
    return decide (m.blocksAmount = 100 ∧ m.usedMap = 0x1000000 + 100 * PAGE_SIZE) :
      Except Stop Bool) = .ok true := by
  decide +kernel

/-- A region of 101 pages holds 100 blocks and, in the last page, their map. -/
theorem layout_fits_hundred_pages :
    LaysOut MemoryManager.static 0x1000000 (0x1000000 + 101 * PAGE_SIZE) ∧
    ∃ r m, memAllocatorInit 102 MemoryManager.static 0x1000000 (0x1000000 + 101 * PAGE_SIZE) = .ok (r, m) ∧
      m.blocksAmount = 100 ∧ m.usedMap = 0x1000000 + 100 * PAGE_SIZE := by
  obtain ⟨⟨r, m⟩, hinit, hblocks⟩ := bind_eq_ok.mp hundredPages_states
  have hfits : LaysOut MemoryManager.static 0x1000000 (0x1000000 + 101 * PAGE_SIZE) :=
    (layout_fits_iff MemoryManager.static (by decide) (by decide)).mpr mapFits_hundred_pages
  exact ⟨hfits, r, m, hinit, of_decide_eq_true (Except.ok.inj hblocks)⟩

/-- On a region of 32770 pages one page is left for the map of 32769 blocks, which takes 1025 integers:
they end four bytes behind the region. -/
theorem map_overruns_region :
    ¬ LaysOut MemoryManager.static 0x1000000 (0x1000000 + 32770 * PAGE_SIZE) := by
  intro hlays
  obtain ⟨-, -, hmap⟩ := mapFits_of_laysOut hlays (by decide) (by decide)
  exact absurd (hmap 32769 (by decide)) (by decide)

end BasicKernel
