import BasicKernel.Memory.FirstFit
import BasicKernel.Memory.Layout
import BasicKernel.Lib.Transition
import Mathlib.Data.Set.Pairwise.Lattice
import Mathlib.Order.CompletePartialOrder
import Mathlib.Order.Interval.Set.Basic

set_option autoImplicit false

/-! # The allocator's contract

Seen from outside, the allocator keeps a set of *live* pairs of a pointer and the size it was
requested with. Each pair stands for a range of blocks, the ranges are disjoint, and the set
bits of the map are their union. `allocate` adds a pair whose range was free, `deallocate`
removes one.

`Contract.allocate` and `Contract.deallocate` are the two steps. `Memory/Runs.lean` takes them
through whole runs.
-/

namespace BasicKernel

open Transition

/-- The number of blocks of a request: `ceil(size / PAGE_SIZE)`. -/
def sizeBlocks (size : Nat) : Nat := (size + (PAGE_SIZE - 1)) / PAGE_SIZE

theorem blocksOf_eq_sizeBlocks {size : Nat} (hsize : sizeBlocks size < 2 ^ 31) :
    blocksOf size = sizeBlocks size := by
  simp only [sizeBlocks, PAGE_SIZE] at hsize
  have hx : (UInt64.ofNat size).toNat = size := by
    rw [UInt64.toNat_ofNat']
    exact Nat.mod_eq_of_lt (by omega)
  have hp : (UInt64.ofNat PAGE_SIZE).toNat = PAGE_SIZE := rfl
  have hdiv := divCeil_toNat (x := UInt64.ofNat size) (y := UInt64.ofNat PAGE_SIZE)
    (by rw [hp]; decide) (by rw [hx, hp]; simp only [PAGE_SIZE]; omega)
  rw [hx, hp] at hdiv
  rw [blocksOf, hdiv]
  simp only [sizeBlocks, PAGE_SIZE]
  exact toInt32_of_bounds (by omega) (by omega)

theorem blocksOf_eq {size : Nat} (hsize : size < 2 ^ 31) : blocksOf size = sizeBlocks size := by
  refine blocksOf_eq_sizeBlocks ?_
  simp only [sizeBlocks, PAGE_SIZE]
  omega

theorem one_le_sizeBlocks {size : Nat} (h : 1 ≤ size) : 1 ≤ sizeBlocks size := by
  simp only [sizeBlocks, PAGE_SIZE]
  omega

/-! ## Extents

The range of blocks of a pair, and what ties the ranges of all live pairs to the bits of the
map. -/

/-- The first block of a pointer into the block area. -/
def firstBlock (m : MemoryManager) (p : Nat) : Nat := (p - m.initMem) / PAGE_SIZE

/-- The blocks of a live pair. -/
def extent (m : MemoryManager) (x : Nat × Nat) : Set Nat :=
  Set.Ico (firstBlock m x.1) (firstBlock m x.1 + sizeBlocks x.2)

/-- The blocks whose bit is set. -/
def usedBlocks (m : MemoryManager) : Set Nat := {q | used m.words q = true}

/-- The block area is smaller than 2 GiB and does not wrap around the address space. -/
structure Region (m : MemoryManager) : Prop where
  map : MapOk m
  small : m.blocksAmount < 2 ^ 19
  inside : m.initMem + m.blocksAmount * PAGE_SIZE < 2 ^ 64

/-- A live pair: a pointer to the first byte of a block and a size that was requested. -/
structure ValidPair (m : MemoryManager) (x : Nat × Nat) : Prop where
  pos : 1 ≤ x.2
  int : x.2 < 2 ^ 31
  aligned : x.1 = m.initMem + firstBlock m x.1 * PAGE_SIZE
  inside : (firstBlock m x.1 + sizeBlocks x.2 : Nat) ≤ m.blocksAmount

/-- What holds between two calls: `live` are the pairs handed out and not given back. -/
structure Contract (m : MemoryManager) (live : Set (Nat × Nat)) : Prop where
  region : Region m
  valid : ∀ x ∈ live, ValidPair m x
  disjoint : live.PairwiseDisjoint (extent m)
  exact : usedBlocks m = ⋃ x ∈ live, extent m x

variable {m m' : MemoryManager} {live : Set (Nat × Nat)}

theorem blockAddress_eq (hm : Region m) {s : Nat} (hs : (s : Int) ≤ m.blocksAmount) :
    blockAddress m s = m.initMem + s * PAGE_SIZE := by
  have hsmall := hm.small
  have hinside := hm.inside
  simp only [PAGE_SIZE] at hinside
  have h32 : toInt32 ((s : Int) * PAGE_SIZE) = (s : Int) * PAGE_SIZE :=
    toInt32_of_bounds (by simp only [PAGE_SIZE]; omega) (by simp only [PAGE_SIZE]; omega)
  have h64 := toUInt64_of_bounds (x := (m.initMem : Int) + (s : Int) * PAGE_SIZE)
    (by simp only [PAGE_SIZE]; omega) (by simp only [PAGE_SIZE]; omega)
  rw [blockAddress, h32]
  exact_mod_cast h64

theorem firstBlock_blockAddress (m : MemoryManager) (s : Nat) :
    firstBlock m (m.initMem + s * PAGE_SIZE) = s := by
  simp only [firstBlock, PAGE_SIZE]
  omega

theorem Contract.extent_subset {x : Nat × Nat} (hc : Contract m live) (hx : x ∈ live) :
    extent m x ⊆ usedBlocks m := by
  rw [hc.exact]
  exact Set.subset_biUnion_of_mem hx

/-- Two live pairs with a common block are the same pair. -/
theorem Contract.eq_of_mem_extent {x y : Nat × Nat} (hc : Contract m live) (hx : x ∈ live)
    (hy : y ∈ live) {q : Nat} (hqx : q ∈ extent m x) (hqy : q ∈ extent m y) : x = y :=
  hc.disjoint.elim_set hx hy q hqx hqy

/-- A live pair is determined by its pointer. -/
theorem Contract.eq_of_fst_eq {x y : Nat × Nat} (hc : Contract m live) (hx : x ∈ live)
    (hy : y ∈ live) (h : x.1 = y.1) : x = y := by
  have hpx := one_le_sizeBlocks (hc.valid x hx).pos
  have hpy := one_le_sizeBlocks (hc.valid y hy).pos
  refine hc.eq_of_mem_extent hx hy (q := firstBlock m x.1) ?_ ?_
  · exact Set.mem_Ico.mpr ⟨le_refl _, by omega⟩
  · exact Set.mem_Ico.mpr ⟨by rw [h], by rw [h]; omega⟩

/-! ## `allocate` adds a pair

The run that the search finds is free, so the new range meets none of the live ones. -/

/-- The map changes to `words` of the same length. -/
theorem Region.withWords (hm : Region m) {words : BitMap} (hlen : words.length = m.words.length) :
    Region { m with words } :=
  ⟨⟨hm.map.nonneg, hm.map.int, by rw [hlen]; exact hm.map.covered,
    by rw [hlen]; exact hm.map.indexable⟩, hm.small, hm.inside⟩

theorem ValidPair.withWords {x : Nat × Nat} (hx : ValidPair m x) (words : BitMap) :
    ValidPair { m with words } x :=
  ⟨hx.pos, hx.int, hx.aligned, hx.inside⟩

/-- A call of `allocate` fails and changes nothing, or returns a new pair. -/
theorem Contract.allocate (hc : Contract m live) {size : Nat} (hpos : 1 ≤ size)
    (hint : size < 2 ^ 31) :
    (∃ p m', allocate m size = .ok (some p, m') ∧ (∀ x ∈ live, x.1 ≠ p) ∧
        m'.initMem = m.initMem ∧ m'.blocksAmount = m.blocksAmount ∧
        Contract m' (insert (p, size) live)) ∨
      BasicKernel.allocate m size = .ok (none, m) := by
  have hn := one_le_sizeBlocks hpos
  rcases allocate_firstFit hc.region.map (blocksOf_eq hint) hn with
    ⟨s, words, hall, hfit, hlen, hused⟩ | ⟨hall, -⟩
  · left
    have hs : (s : Int) + sizeBlocks size ≤ m.blocksAmount := by have := hfit.2.1; omega
    have haddr := blockAddress_eq hc.region (s := s) (by omega)
    have hfirst : firstBlock m (blockAddress m s) = s := by
      rw [haddr, firstBlock_blockAddress]
    -- the new pair stands for the blocks from `s` on, and these were free
    have hext : extent m (blockAddress m s, size) = Set.Ico s (s + sizeBlocks size) := by
      simp only [extent, hfirst]
    have hnew : ValidPair m (blockAddress m s, size) := by
      refine ⟨hpos, hint, ?_, ?_⟩
      · simp only [hfirst]
        exact haddr
      · simp only [hfirst]
        push_cast
        exact hs
    have hfresh : ∀ x ∈ live, Disjoint (extent m (blockAddress m s, size)) (extent m x) := by
      intro x hx
      refine Set.disjoint_left.mpr fun q hq hqx => ?_
      rw [hext, Set.mem_Ico] at hq
      have hqused : used m.words q = true := hc.extent_subset hx hqx
      rw [hfit.2.2.1 q hq.1 hq.2] at hqused
      cases hqused
    refine ⟨blockAddress m s, _, hall, fun x hx heq => ?_, rfl, rfl, ?_⟩
    -- a live pair at the same address would have the block `s`
    · have hmem : s ∈ extent m x := by
        have := one_le_sizeBlocks (hc.valid x hx).pos
        rw [extent, heq, hfirst, Set.mem_Ico]
        omega
      have hmem' : s ∈ extent m (blockAddress m s, size) := by
        rw [hext, Set.mem_Ico]
        omega
      exact Set.disjoint_left.mp (hfresh x hx) hmem' hmem
    · refine ⟨hc.region.withWords hlen, ?_, ?_, ?_⟩
      · rintro x (rfl | hx)
        · exact hnew.withWords words
        · exact (hc.valid x hx).withWords words
      · exact hc.disjoint.insert fun x hx _ => hfresh x hx
      -- the map afterwards is the old one and the new range
      · rw [Set.biUnion_insert]
        show usedBlocks { m with words } = extent m (blockAddress m s, size) ∪ ⋃ x ∈ live, extent m x
        rw [← hc.exact, hext]
        ext q
        simp only [usedBlocks, Set.mem_ofPred_eq, hused q, Set.mem_union, Set.mem_Ico]
        by_cases hq : s ≤ q ∧ q < s + sizeBlocks size <;> simp [hq]
  · exact Or.inr hall

/-! ## `deallocate` removes a pair

The blocks that are cleared are those of the pair, and no other live pair has one of them. -/

theorem startingBlock_eq (hm : Region m) {p k : Nat} (hp : p = m.initMem + k * PAGE_SIZE)
    (hk : (k : Int) ≤ m.blocksAmount) :
    toInt32 (Int.tdiv (toInt64 ((p : Int) - m.initMem)) PAGE_SIZE) = k := by
  have hsmall := hm.small
  have hdiff : (p : Int) - m.initMem = (k : Int) * PAGE_SIZE := by rw [hp]; push_cast; omega
  rw [hdiff, toInt64_of_bounds (by simp only [PAGE_SIZE]; omega) (by simp only [PAGE_SIZE]; omega),
    Int.mul_tdiv_cancel _ (by decide), toInt32_of_bounds (by omega) (by omega)]

/-- Deallocating a live pair succeeds and frees exactly its blocks. -/
theorem Contract.deallocate (hc : Contract m live) {x : Nat × Nat} (hx : x ∈ live) :
    ∃ m', deallocate m x.1 x.2 = .ok (1, m') ∧ m'.initMem = m.initMem ∧
      m'.blocksAmount = m.blocksAmount ∧ Contract m' (live \ {x}) := by
  have hv := hc.valid x hx
  have hin := hv.inside
  have hsmall := hc.region.small
  have hcov := hc.region.map.covered
  obtain ⟨words, hw, hlen, hused⟩ := bitLoop_spec resetBit_writesBit (sizeBlocks x.2)
    (firstBlock m x.1) m.words (by omega) hc.region.map.indexable
  have hstart := startingBlock_eq hc.region hv.aligned (by omega)
  -- no address leaves the `int` range, since the region is below 2 GiB
  have hlimit : toInt32 ((firstBlock m x.1 : Int) + sizeBlocks x.2)
      = (firstBlock m x.1 : Int) + sizeBlocks x.2 := toInt32_of_bounds (by omega) (by omega)
  have hcount : ((firstBlock m x.1 : Int) + sizeBlocks x.2 - firstBlock m x.1).toNat
      = sizeBlocks x.2 := by omega
  refine ⟨{ m with words }, ?_, rfl, rfl, ?_⟩
  · simp only [BasicKernel.deallocate, blocksOf_eq hv.int, hstart, hlimit, hcount, hw, ok_bind]
    rw [if_neg (by push_cast at hin; omega)]
    rfl
  · refine ⟨hc.region.withWords hlen, fun y hy => (hc.valid y hy.1).withWords words,
      hc.disjoint.subset Set.sdiff_subset, ?_⟩
    show usedBlocks { m with words } = ⋃ y ∈ live \ {x}, extent m y
    -- the ranges are disjoint, so taking the blocks of `x` away takes nothing from another pair
    have hunion : (live ∪ {x}).PairwiseDisjoint (extent m) := by
      rw [Set.union_eq_self_of_subset_right (Set.singleton_subset_iff.mpr hx)]
      exact hc.disjoint
    rw [← Set.biUnion_sdiff_biUnion_eq hunion, ← hc.exact, Set.biUnion_singleton]
    ext q
    simp only [usedBlocks, Set.mem_ofPred_eq, hused q, Set.mem_sdiff, extent, Set.mem_Ico]
    by_cases hq : firstBlock m x.1 ≤ q ∧ q < firstBlock m x.1 + sizeBlocks x.2 <;> simp [hq]

/-- The blocks of the pair are those that `deallocate` clears. -/
theorem Contract.used_deallocate (hc : Contract m live) {x : Nat × Nat} (hx : x ∈ live) {r : Int}
    (h : BasicKernel.deallocate m x.1 x.2 = .ok (r, m')) : usedBlocks m' = usedBlocks m \ extent m x := by
  obtain ⟨m₁, hcall, hinit, -, hc'⟩ := hc.deallocate hx
  rw [hcall] at h
  obtain ⟨-, rfl⟩ := Prod.mk.inj (Except.ok.inj h)
  have hextent : extent m₁ = extent m := by
    funext y
    rw [extent, extent, firstBlock, firstBlock, hinit]
  have hunion : (live ∪ {x}).PairwiseDisjoint (extent m) := by
    rw [Set.union_eq_self_of_subset_right (Set.singleton_subset_iff.mpr hx)]
    exact hc.disjoint
  calc usedBlocks m₁
      = ⋃ y ∈ live \ {x}, extent m y := by rw [hc'.exact, hextent]
    _ = (⋃ y ∈ live, extent m y) \ ⋃ y ∈ ({x} : Set (Nat × Nat)), extent m y :=
        (Set.biUnion_sdiff_biUnion_eq hunion).symm
    _ = usedBlocks m \ extent m x := by rw [← hc.exact, Set.biUnion_singleton]

end BasicKernel
