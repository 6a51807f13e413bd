import BasicKernel.Memory.Requests
import BasicKernel.Memory.Layout
import BasicKernel.Lib.Transition

set_option autoImplicit false

/-! # What the two searches find

`allocate` skips the starts behind which it has seen a used block, and `getBlocksAmount` first counts
too many pages. Both find what a search without shortcuts finds: the first free start, and the largest
number of pages.

These are `allocate_exact`, against `MemoryManager.tryEveryStart`, and `blocks_as_many_as_fit`.
-/

namespace BasicKernel

open Transition

/-! ## The first free start

`tryEveryStart` tests one start after the other and has no shortcut. It stands for what the search
should find, and `allocate` agrees with it. -/

variable {m : MemoryManager} {request n s : Nat}

/-- The `n` blocks from `s` on are blocks of the region, and they are free. -/
def MemoryManager.FreeStart (m : MemoryManager) (n s : Nat) : Prop :=
  (s + n : Nat) ≤ m.blocksAmount ∧ FreeRun m.words s n

/-- A search that tries every start one by one. -/
def MemoryManager.tryEveryStart (m : MemoryManager) (n : Nat) : Option Nat :=
  (List.range (m.blocksAmount - n + 1).toNat).find? fun s =>
    (List.range n).all fun j => !used m.words (s + j)

theorem freeRun_iff_all {words : BitMap} :
    ((List.range n).all fun j => !used words (s + j)) = true ↔ FreeRun words s n := by
  simp only [List.all_eq_true, List.mem_range, Bool.not_eq_true', FreeRun]
  constructor
  · intro h q hlo hhi
    have hq := h (q - s) (by omega)
    rwa [Nat.add_sub_cancel' hlo] at hq
  · intro h j hj
    exact h (s + j) (by omega) (by omega)

theorem mem_starts_iff :
    s ∈ List.range (m.blocksAmount - n + 1).toNat ↔ ((s + n : Nat) : Int) ≤ m.blocksAmount := by
  rw [List.mem_range]
  omega

theorem tryEveryStart_eq_none :
    m.tryEveryStart n = none ↔ ∀ s, ¬ m.FreeStart n s := by
  rw [MemoryManager.tryEveryStart, List.find?_eq_none]
  apply forall_congr'
  intro s
  rw [mem_starts_iff, freeRun_iff_all, MemoryManager.FreeStart, not_and]

theorem tryEveryStart_eq_some (h : IsLeast {s | m.FreeStart n s} s) :
    m.tryEveryStart n = some s := by
  obtain ⟨⟨hinside, hfree⟩, hleast⟩ := h
  have hs : s < (m.blocksAmount - n + 1).toNat := List.mem_range.mp (mem_starts_iff.mpr hinside)
  rw [MemoryManager.tryEveryStart, List.find?_range_eq_some]
  refine ⟨freeRun_iff_all.mpr hfree, List.mem_range.mpr hs, fun s' hs' => ?_⟩
  -- an earlier free start would be a smaller one
  have hnot : ¬ FreeRun m.words s' n := fun hfree' =>
    absurd (hleast ⟨by omega, hfree'⟩) (Nat.not_le_of_lt hs')
  rw [← freeRun_iff_all] at hnot
  simpa using hnot

theorem FirstFit.isLeast (h : FirstFit m.words (m.blocksAmount - n) n 0 s) :
    IsLeast {s | m.FreeStart n s} s := by
  obtain ⟨-, hinside, hfree, hfirst⟩ := h
  refine ⟨⟨by omega, hfree⟩, fun s' hs' => ?_⟩
  by_contra hlt
  exact hfirst s' (Nat.zero_le s') (by omega) hs'.2

/-- `allocate` is exact first fit: for a request of `n` blocks it returns the address of the least start
of `n` free blocks, and the null pointer if and only if there is none. It agrees with the search that
tries every start. -/
theorem allocate_exact (hm : MapOk m) (hregion : m.blocksAmount * PAGE_SIZE < 2 ^ 31)
    (hinside : m.initMem + m.blocksAmount * PAGE_SIZE < 2 ^ 64) (hn : 1 ≤ sizeBlocks request)
    (hint : sizeBlocks request < 2 ^ 31) : ∃ r m', allocate m request = .ok (r, m') ∧
      (∀ p, r = some p ↔ ∃ s, IsLeast {s | m.FreeStart (sizeBlocks request) s} s ∧
        p = m.initMem + s * PAGE_SIZE) ∧
      (r = none ↔ ∀ s, ¬ m.FreeStart (sizeBlocks request) s) ∧
      r = (m.tryEveryStart (sizeBlocks request)).map fun s => m.initMem + s * PAGE_SIZE := by
  rcases allocate_firstFit hm (blocksOf_eq_sizeBlocks hint) hn with
    ⟨s, words, hcall, hfit, -, -⟩ | ⟨hcall, hnone⟩
  -- the first fit starts at the least free start
  · have hleast := hfit.isLeast
    have hs : ((s + sizeBlocks request : Nat) : Int) ≤ m.blocksAmount := hleast.1.1
    have haddress : blockAddress m s = m.initMem + s * PAGE_SIZE := by
      have hle : (s : Int) * PAGE_SIZE ≤ m.blocksAmount * PAGE_SIZE :=
        Int.mul_le_mul_of_nonneg_right (by omega) (by decide)
      rw [blockAddress, toInt32_of_bounds (by simp only [PAGE_SIZE]; omega) (by omega)]
      have h64 := toUInt64_of_bounds (x := (m.initMem : Int) + (s : Int) * PAGE_SIZE)
        (by simp only [PAGE_SIZE]; omega) (by omega)
      exact_mod_cast h64
    rw [haddress] at hcall
    refine ⟨_, _, hcall, fun p => ?_, ?_, ?_⟩
    · constructor
      · intro hp
        exact ⟨s, hleast, (Option.some.inj hp).symm⟩
      · rintro ⟨s', hleast', rfl⟩
        rw [hleast.unique hleast']
    · constructor
      · intro h
        cases h
      · intro h
        exact absurd hleast.1 (h s)
    · rw [tryEveryStart_eq_some hleast, Option.map_some]
  -- every start was tried or skipped over a used block
  · have habsent : ∀ s, ¬ m.FreeStart (sizeBlocks request) s := by
      rintro s ⟨hs, hfree⟩
      exact hnone s (by omega) hfree
    refine ⟨none, m, hcall, fun p => ?_, iff_of_true rfl habsent, ?_⟩
    · constructor
      · intro h
        cases h
      · rintro ⟨s, hleast, -⟩
        exact absurd hleast.1 (habsent s)
    · rw [tryEveryStart_eq_none.mpr habsent, Option.map_none]

/-- The first fit for three pages lies behind two holes of one page. -/
theorem allocate_exact_behind_used : ∃ m', allocate fortyPages 12288 = .ok (some 0x1020000, m') ∧
    IsLeast {s | fortyPages.FreeStart (sizeBlocks 12288) s} 32 ∧
    some 0x1020000 = (fortyPages.tryEveryStart (sizeBlocks 12288)).map fun s =>
      fortyPages.initMem + s * PAGE_SIZE := by
  have hrequest : 1 ≤ sizeBlocks 12288 := by decide
  obtain ⟨r, m', hcall, hfirst, -, htry⟩ :=
    allocate_exact fortyPages_ok.1 (by decide) fortyPages_ok.2 hrequest (by decide)
  have hpage : (allocate fortyPages 12288).map Prod.fst = .ok (some 0x1020000) := by decide +kernel
  rw [hcall] at hpage
  obtain rfl : r = some 0x1020000 := Except.ok.inj hpage
  obtain ⟨s, hleast, haddr⟩ := (hfirst _).mp rfl
  obtain rfl : s = 32 := by
    simp only [fortyPages, PAGE_SIZE] at haddr
    omega
  exact ⟨m', hcall, hleast, htry⟩

/-! ## The largest number of pages

The two loops are followed round by round, with the value of each `int` on the way. -/

variable {totalMem B : Nat}

/-- `B` pages, the pointer and the map of `B` blocks are in the memory, as `enoughSpace` measures it. -/
def PagesFit (totalMem B : Nat) : Prop := B * PAGE_SIZE + 8 + (mapSize B).toNat ≤ totalMem

/-- The values of an `int`. -/
def IsInt (x : Int) : Prop := -2 ^ 31 ≤ x ∧ x < 2 ^ 31

/-- A round of the counting loop of `getBlocksAmount`, on `auxMem` and `blocksAmount`. -/
def CountRound (totalMem : Nat) (s s' : Nat × Int) : Prop :=
  s.1 ≤ totalMem ∧ s' = (toUInt64 (s.1 + PAGE_SIZE), s.2 + 1)

def Counted (totalMem : Nat) : Nat × Int → Prop := Reachable (· = (0, -1)) (CountRound totalMem)

/-- A round of the shrinking loop, on `blocksAmount` and `remainingMem`. -/
def ShrinkRound (s s' : Int × Int) : Prop :=
  enoughSpace s.1 s.2 = false ∧ s' = (s.1 - 1, s.2 + PAGE_SIZE)

def Shrunk (totalMem : Nat) : Int × Int → Prop :=
  Reachable (fun s => ∃ c, Counted totalMem c ∧ totalMem < c.1 ∧
    s.1 = c.2 ∧ s.2 = toUInt64 (totalMem - toUInt64 (c.1 - PAGE_SIZE))) ShrinkRound

/-- Every `int` of `getBlocksAmount` and `enoughSpace` holds the value that is stored in it. -/
structure CountsInInts (totalMem : Nat) : Prop where
  pages : ∀ s, Counted totalMem s → IsInt s.2
  blocks : ∀ s, Shrunk totalMem s → IsInt s.1
  remaining : ∀ s, Shrunk totalMem s → IsInt s.2
  map : ∀ s, Shrunk totalMem s → IsInt (8 + (mapSize s.1).toNat)
  result : ∀ fuel B, getBlocksAmount fuel totalMem = .ok B → ∃ r, Shrunk totalMem (B, r)

theorem Counted.pages (htotal : totalMem < 2 ^ 42) {s : Nat × Int} (h : Counted totalMem s) :
    ∃ k : Nat, s = (k * PAGE_SIZE, (k : Int) - 1) ∧ k ≤ totalMem / PAGE_SIZE + 1 := by
  refine h.invariant
    (I := fun s => ∃ k : Nat, s = (k * PAGE_SIZE, (k : Int) - 1) ∧ k ≤ totalMem / PAGE_SIZE + 1)
    (fun s hs => ⟨0, ?_, Nat.zero_le _⟩) fun s s' _ ⟨k, hk, hle⟩ hround => ?_
  · rw [hs]
    simp
  · obtain ⟨hgo, hs'⟩ := hround
    rw [hk] at hgo hs'
    refine ⟨k + 1, ?_, ?_⟩
    · rw [hs', Prod.mk.injEq]
      refine ⟨?_, by push_cast; omega⟩
      simp only [toUInt64, PAGE_SIZE] at *
      omega
    · simp only [PAGE_SIZE] at *
      omega

theorem Shrunk.blocks (hmin : PAGE_SIZE ≤ totalMem) (htotal : totalMem < 2 ^ 42) {s : Int × Int}
    (h : Shrunk totalMem s) : ∃ B : Nat, B ≤ totalMem / PAGE_SIZE ∧ s.1 = B ∧
      s.2 = (totalMem : Int) - B * PAGE_SIZE ∧ s.2 < 2 ^ 26 := by
  refine h.invariant (I := fun s : Int × Int => ∃ B : Nat, B ≤ totalMem / PAGE_SIZE ∧ s.1 = B ∧
    s.2 = (totalMem : Int) - B * PAGE_SIZE ∧ s.2 < 2 ^ 26) (fun s hs => ?_)
    fun s s' _ ⟨B, hB, hblocks, hrem, hlt⟩ hround => ?_
  -- before the first round: all the pages that the region has
  · obtain ⟨c, hc, hgt, hblocks, hrem⟩ := hs
    obtain ⟨k, rfl, hk⟩ := hc.pages htotal
    have hlast : k = totalMem / PAGE_SIZE + 1 := by
      simp only [PAGE_SIZE] at *
      omega
    subst hlast
    refine ⟨totalMem / PAGE_SIZE, le_rfl, by rw [hblocks]; push_cast; omega, ?_, ?_⟩
    · rw [hrem]
      simp only [toUInt64, PAGE_SIZE] at *
      omega
    · rw [hrem]
      simp only [toUInt64, PAGE_SIZE] at *
      omega
  -- a round that goes on: the rest was not enough for the map
  · obtain ⟨hshort, rfl⟩ := hround
    have hB31 : (B : Int) < 2 ^ 31 := by simp only [PAGE_SIZE] at *; omega
    have hnot := mt (enoughSpace_iff (r := s.2) (Int.natCast_nonneg B) hB31).mpr
    rw [← hblocks, hshort] at hnot
    have hmore := Int.not_le.mp (hnot (by decide))
    rw [hblocks, Int.toNat_natCast] at hmore
    -- with no block left the memory is enough
    have hpos : B ≠ 0 := by
      rintro rfl
      simp only [PAGE_SIZE] at *
      omega
    refine ⟨B - 1, by omega, by dsimp only; omega, ?_, ?_⟩
    · simp only [PAGE_SIZE] at *
      omega
    · simp only [PAGE_SIZE] at *
      omega

/-- The counting loop goes through the rounds. -/
theorem Counted.of_countBlocks (htotal : totalMem < 2 ^ 42) : ∀ {fuel : Nat} {s r : Nat × Int},
    Counted totalMem s → s.1 ≤ totalMem → countBlocks totalMem fuel s.1 s.2 = .ok r →
    Counted totalMem r ∧ totalMem < r.1 := by
  intro fuel
  induction fuel with
  | zero => intro _ _ _ _ h; cases h
  | succ fuel ih =>
      intro s r hs hle h
      have hnext : Counted totalMem (toUInt64 (s.1 + PAGE_SIZE), s.2 + 1) := hs.next ⟨hle, rfl⟩
      have hint : toInt32 (s.2 + 1) = s.2 + 1 := by
        obtain ⟨k, hk, hpages⟩ := hnext.pages htotal
        have hcount : s.2 + 1 = (k : Int) - 1 := congrArg Prod.snd hk
        simp only [PAGE_SIZE] at *
        exact toInt32_of_bounds (by omega) (by omega)
      rw [countBlocks, hint] at h
      split at h
      case isTrue hgo => exact ih hnext hgo h
      case isFalse hstop =>
          obtain rfl := Except.ok.inj h
          exact ⟨hnext, Nat.not_le.mp hstop⟩

theorem Shrunk.of_shrinkBlocks : ∀ {fuel : Nat} {s : Int × Int} {B : Int}, Shrunk totalMem s →
    shrinkBlocks fuel s.1 s.2 = .ok B → ∃ r, Shrunk totalMem (B, r) := by
  intro fuel
  induction fuel with
  | zero => intro _ _ _ h; cases h
  | succ fuel ih =>
      intro s B hs h
      rw [shrinkBlocks] at h
      split at h
      case isTrue _ =>
          obtain rfl := Except.ok.inj h
          exact ⟨s.2, hs⟩
      case isFalse hshort =>
          have hnext : Shrunk totalMem (s.1 - 1, s.2 + PAGE_SIZE) :=
            hs.next ⟨Bool.eq_false_iff.mpr hshort, rfl⟩
          exact ih hnext h

theorem getBlocksAmount_shrunk (htotal : totalMem < 2 ^ 42) {fuel : Nat} {B : Int}
    (h : getBlocksAmount fuel totalMem = .ok B) : ∃ r, Shrunk totalMem (B, r) := by
  obtain ⟨⟨auxMem, blocksAmount⟩, hcount, hshrink⟩ := bind_eq_ok.mp h
  obtain ⟨hc, hgt⟩ := Counted.of_countBlocks htotal (s := (0, -1)) (.start rfl) (Nat.zero_le _) hcount
  dsimp only at hshrink
  have hrem : toInt32 (toUInt64 (totalMem - toUInt64 (auxMem - PAGE_SIZE))) =
      toUInt64 (totalMem - toUInt64 (auxMem - PAGE_SIZE)) := by
    obtain ⟨k, hk, hle⟩ := hc.pages htotal
    obtain rfl : auxMem = k * PAGE_SIZE := congrArg Prod.fst hk
    simp only [toUInt64, PAGE_SIZE] at *
    exact toInt32_of_bounds (by omega) (by omega)
  rw [hrem] at hshrink
  generalize hr : ((toUInt64 (totalMem - toUInt64 (auxMem - PAGE_SIZE)) : Nat) : Int) = r at hshrink
  have hstart : Shrunk totalMem (blocksAmount, r) := .start ⟨_, hc, hgt, rfl, hr.symm⟩
  exact hstart.of_shrinkBlocks hshrink

theorem countsInInts (hmin : PAGE_SIZE ≤ totalMem) (htotal : totalMem < 2 ^ 42) :
    CountsInInts totalMem := by
  -- one case for each `int` that the two loops compute
  constructor
  case pages =>
      intro s hs
      obtain ⟨k, rfl, hk⟩ := hs.pages htotal
      constructor
      · dsimp only
        omega
      · simp only [PAGE_SIZE] at *
        omega
  case blocks =>
      intro s hs
      obtain ⟨B, hB, hblocks, -⟩ := hs.blocks hmin htotal
      constructor
      · omega
      · simp only [PAGE_SIZE] at *
        omega
  case remaining =>
      intro s hs
      obtain ⟨B, hB, -, hrem, hlt⟩ := hs.blocks hmin htotal
      have hpages : B * PAGE_SIZE ≤ totalMem :=
        le_trans (Nat.mul_le_mul_right _ hB) (Nat.div_mul_le_self ..)
      constructor
      · omega
      · omega
  case map =>
      intro s hs
      obtain ⟨B, hB, hblocks, -⟩ := hs.blocks hmin htotal
      have hB30 : B < 2 ^ 30 := by simp only [PAGE_SIZE] at *; omega
      rw [hblocks, mapSize_toNat (Int.natCast_nonneg B) (by omega), Int.toNat_natCast]
      constructor
      · omega
      · omega
  case result => exact fun fuel B h => getBlocksAmount_shrunk htotal h

theorem pagesFit_iff (hB : B < 2 ^ 31) : PagesFit totalMem B ↔ Fits totalMem B := by
  have hmap := mapSize_toNat (Int.natCast_nonneg B) (by exact_mod_cast hB)
  rw [PagesFit, Fits, hmap, Int.toNat_natCast]
  simp only [PAGE_SIZE]
  omega

/-- `getBlocksAmount` ends with the largest number of pages that fits, and no `int` overflows. -/
theorem blocks_as_many_as_fit (hmin : PAGE_SIZE ≤ totalMem) (htotal : totalMem < 2 ^ 42) :
    (∃ B : Nat, (∃ n, ∀ fuel, n ≤ fuel → getBlocksAmount fuel totalMem = .ok B) ∧
      IsGreatest {B | PagesFit totalMem B} B) ∧ CountsInInts totalMem := by
  have hmod : totalMem % 2 ^ 44 = totalMem := Nat.mod_eq_of_lt (by omega)
  have hspec : ∀ fuel, totalMem / PAGE_SIZE + 1 ≤ fuel → ∃ B, getBlocksAmount fuel totalMem = .ok B ∧
      Fits totalMem B ∧ ∀ B', B < B' → ¬ Fits totalMem B' := by
    intro fuel hfuel
    have h := @getBlocksAmount_spec fuel totalMem (by simp only [PAGE_SIZE] at *; omega) (by omega)
      (by simp only [PAGE_SIZE]; omega) hfuel
    rwa [hmod] at h
  obtain ⟨B, -, hfits, hmax⟩ := hspec _ le_rfl
  lift B to Nat using hfits.1
  -- a number of pages that fits is an `int`
  have hint : ∀ B' : Nat, B' * PAGE_SIZE ≤ totalMem → B' < 2 ^ 31 := by
    intro B' h
    simp only [PAGE_SIZE] at *
    omega
  have hB : B < 2 ^ 31 := hint B (by exact_mod_cast hfits.2.1)
  refine ⟨⟨B, ⟨totalMem / PAGE_SIZE + 1, fun fuel hfuel => ?_⟩, (pagesFit_iff hB).mpr hfits, ?_⟩,
    countsInInts hmin htotal⟩
  · -- the largest number does not depend on the fuel
    obtain ⟨B', hcall, hfits', hmax'⟩ := hspec fuel hfuel
    have hle : B' ≤ B := Int.not_lt.mp fun h => hmax B' h hfits'
    have hge : (B : Int) ≤ B' := Int.not_lt.mp fun h => hmax' B h hfits
    rw [hcall, le_antisymm hle hge]
  · intro B' hfits'
    have hB' : B' < 2 ^ 31 := hint B' (le_trans (by omega) (show _ ≤ totalMem from hfits'))
    by_contra hlt
    exact hmax B' (by omega) ((pagesFit_iff hB').mp hfits')

/-- Of 101 pages of memory one is for the map. -/
theorem blocks_as_many_as_fit_hundred_pages :
    (∃ n, ∀ fuel, n ≤ fuel → getBlocksAmount fuel (101 * PAGE_SIZE) = .ok 100) ∧
    IsGreatest {B | PagesFit (101 * PAGE_SIZE) B} 100 ∧ CountsInInts (101 * PAGE_SIZE) := by
  have hmin : PAGE_SIZE ≤ 101 * PAGE_SIZE := by decide
  obtain ⟨⟨B, hruns, hgreatest⟩, hints⟩ := blocks_as_many_as_fit hmin (by decide)
  obtain rfl : B = 100 := by
    have hhundred : PagesFit (101 * PAGE_SIZE) 100 := by
      unfold PagesFit
      decide
    refine le_antisymm ?_ (hgreatest.2 hhundred)
    have hfits : PagesFit (101 * PAGE_SIZE) B := hgreatest.1
    simp only [PagesFit, PAGE_SIZE] at hfits
    omega
  exact ⟨hruns, hgreatest, hints⟩

end BasicKernel
