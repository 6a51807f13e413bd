import BasicKernel.Memory.Contract

set_option autoImplicit false

/-! # The allocator over whole runs

A run starts after `memAllocatorInit` and makes calls of `allocate` with a positive `int`
size and of `deallocate` on pairs that are live, in any order. `live` is the list of the
pairs returned and not given back, the newest first.

`allocator_contract` is the result: on every region below 2 GiB the initialisation returns, and
every pair that is live has blocks of its own in every state of a run.
-/

namespace BasicKernel

open Transition

/-- One call of a run, on the allocator and the list of live pairs. -/
inductive AllocatorStep : MemoryManager × List (Nat × Nat) → MemoryManager × List (Nat × Nat) → Prop
  | allocated {m m' : MemoryManager} {live : List (Nat × Nat)} {size p : Nat} :
      1 ≤ size → size ≤ 2 ^ 31 - 1 → allocate m size = .ok (some p, m') →
      AllocatorStep (m, live) (m', (p, size) :: live)
  | refused {m m' : MemoryManager} {live : List (Nat × Nat)} {size : Nat} :
      1 ≤ size → size ≤ 2 ^ 31 - 1 → allocate m size = .ok (none, m') →
      AllocatorStep (m, live) (m', live)
  | deallocated {m m' : MemoryManager} {live : List (Nat × Nat)} {p size : Nat} {r : Int} :
      (p, size) ∈ live → deallocate m p size = .ok (r, m') →
      AllocatorStep (m, live) (m', live.erase (p, size))

/-- What a run after `memAllocatorInit` has left `m₀` keeps: every pointer handed out is page
aligned, the live extents are disjoint and inside the block area, they are what the map marks,
and every call a client may make returns. -/
structure AllocatorContract (m₀ m : MemoryManager) (live : List (Nat × Nat)) : Prop where
  initMem : m.initMem = m₀.initMem
  blocksAmount : m.blocksAmount = m₀.blocksAmount
  aligned : ∀ x ∈ live, ∃ k, x.1 = m.initMem + k * PAGE_SIZE
  disjoint : live.Pairwise fun x y => Disjoint (extent m x) (extent m y)
  inside : ∀ x ∈ live, ∀ q ∈ extent m x, (q : Int) < m.blocksAmount
  exact : ∀ q, used m.words q = true ↔ ∃ x ∈ live, q ∈ extent m x
  allocates : ∀ size, 1 ≤ size → size ≤ 2 ^ 31 - 1 → ∃ r, allocate m size = .ok r
  deallocates : ∀ x ∈ live, ∃ m', deallocate m x.1 x.2 = .ok (1, m')

/-- The invariant of the runs. -/
structure AllocatorInv (m₀ m : MemoryManager) (live : List (Nat × Nat)) : Prop where
  initMem : m.initMem = m₀.initMem
  blocksAmount : m.blocksAmount = m₀.blocksAmount
  nodup : live.Nodup
  contract : Contract m {x | x ∈ live}

theorem used_replicate_zero (n q : Nat) : used (List.replicate n 0#32) q = false := by
  simp only [used, List.getElem?_replicate]
  by_cases h : q / INT_BITS < n
  · simp [h]
  · simp [h]

/-- A map of zeros is the contract with no live pair. -/
theorem Contract.of_zero_words {m : MemoryManager} (hm : Region m) {n : Nat}
    (hw : m.words = List.replicate n 0#32) : Contract m {x | x ∈ ([] : List (Nat × Nat))} := by
  refine ⟨hm, fun x hx => absurd hx (List.not_mem_nil), fun x hx => absurd hx (List.not_mem_nil),
    ?_⟩
  ext q
  simp [usedBlocks, hw, used_replicate_zero]

/-- The allocator that `memAllocatorInit` leaves when `getBlocksAmount` found `B` blocks. -/
def initialised (initPosition : Nat) (B : Int) : MemoryManager :=
  mapInit { MemoryManager.static with initMem := initPosition, blocksAmount := B }

section Initialised

variable {initPosition : Nat} {B : Int} (h0 : 0 ≤ B) (hB : B < 2 ^ 19)

include h0 hB

theorem initialised_words :
    (initialised initPosition B).words = List.replicate ((B.toNat + 31) / 32) 0#32 := by
  have hlen : toInt32 (mapSize B).toNat = ((B.toNat + 31) / 32 : Nat) := by
    rw [mapSize_toNat h0 (by omega)]
    exact toInt32_of_bounds (by omega) (by omega)
  simp only [initialised, mapInit, hlen, Int.toNat_natCast]

theorem initialised_region (hinside : initPosition + B * PAGE_SIZE < 2 ^ 64) :
    Region (initialised initPosition B) := by
  have hlen : (initialised initPosition B).words.length = (B.toNat + 31) / 32 := by
    rw [initialised_words h0 hB, List.length_replicate]
  refine ⟨⟨h0, ?_, ?_, ?_⟩, hB, hinside⟩
  · show B < 2 ^ 31
    omega
  · rw [hlen]
    show B ≤ ((32 * ((B.toNat + 31) / 32) : Nat) : Int)
    omega
  · rw [hlen]
    simp only [INT_BITS]
    omega

end Initialised

/-- `memAllocatorInit` on a region below 2 GiB: with fuel for one iteration a page it returns,
and the state it leaves satisfies the contract with no live pair. -/
theorem memAllocatorInit_spec (fuel initPosition endPosition : Nat)
    (hle : initPosition ≤ endPosition) (hend : endPosition < 2 ^ 64)
    (hsize : endPosition - initPosition < 2 ^ 31)
    (hfuel : (endPosition - initPosition) / PAGE_SIZE < fuel) :
    ∃ r m, memAllocatorInit fuel .static initPosition endPosition = .ok (r, m) ∧
      Contract m {x | x ∈ ([] : List (Nat × Nat))} ∧
      (PAGE_SIZE ≤ endPosition - initPosition → m.initMem = initPosition) := by
  have htotal : toUInt64 ((endPosition : Int) - initPosition) = endPosition - initPosition := by
    simp only [toUInt64]
    omega
  simp only [memAllocatorInit, htotal]
  by_cases hpage : endPosition - initPosition < PAGE_SIZE
  · refine ⟨0, .static, by simp [hpage], ?_, fun h => absurd hpage (Nat.not_lt_of_le h)⟩
    refine Contract.of_zero_words (n := 0) ⟨⟨?_, ?_, ?_, ?_⟩, ?_, ?_⟩ rfl <;>
      simp [MemoryManager.static]
  · have hsum : initPosition + (endPosition - initPosition) < 2 ^ 64 := by omega
    generalize endPosition - initPosition = totalMem at *
    have hmod : totalMem % 2 ^ 44 = totalMem := Nat.mod_eq_of_lt (by omega)
    obtain ⟨B, hB, ⟨h0, hpages, -⟩, -⟩ := @getBlocksAmount_spec _ totalMem
      (by simp only [PAGE_SIZE] at hpage; omega) (by omega) (by simp only [PAGE_SIZE]; omega) hfuel
    rw [hmod] at hpages
    have hB19 : B < 2 ^ 19 := by simp only [PAGE_SIZE] at hpages; omega
    have hinside : initPosition + B * PAGE_SIZE < 2 ^ 64 := by omega
    exact ⟨1, initialised initPosition B, by simp only [if_neg hpage, hB, ok_bind]; rfl,
      Contract.of_zero_words (initialised_region h0 hB19 hinside) (initialised_words h0 hB19),
      fun _ => rfl⟩

theorem AllocatorInv.step {m₀ : MemoryManager} {s s' : MemoryManager × List (Nat × Nat)}
    (hs : AllocatorInv m₀ s.1 s.2) (hstep : AllocatorStep s s') : AllocatorInv m₀ s'.1 s'.2 := by
  obtain ⟨hbase, hblocks, hnodup, hc⟩ := hs
  -- a pair comes, nothing happens, or a pair goes
  cases hstep with
  | @allocated m m' live size p hpos hint hcall =>
      rcases hc.allocate hpos (by omega) with ⟨p', m₁, h₁, hfresh, hb, hn, hc₁⟩ | h₁
      · obtain ⟨rfl, rfl⟩ : p' = p ∧ m₁ = m' := by simpa [hcall, eq_comm] using h₁
        refine ⟨hb.trans hbase, hn.trans hblocks, ?_, ?_⟩
        · exact List.nodup_cons.mpr ⟨fun hmem => hfresh _ hmem rfl, hnodup⟩
        · have hset : {x | x ∈ (p', size) :: live} = insert (p', size) {x | x ∈ live} := by
            ext x
            simp
          rw [hset]
          exact hc₁
      · rw [hcall] at h₁
        cases h₁
  | @refused m m' live size hpos hint hcall =>
      rcases hc.allocate hpos (by omega) with ⟨p', m₁, h₁, -⟩ | h₁
      · rw [hcall] at h₁
        cases h₁
      · rw [hcall] at h₁
        cases h₁
        exact ⟨hbase, hblocks, hnodup, hc⟩
  | @deallocated m m' live p size r hmem hcall =>
      obtain ⟨m₁, h₁, hb, hn, hc₁⟩ := hc.deallocate hmem
      obtain ⟨-, rfl⟩ : 1 = r ∧ m₁ = m' := by simpa [hcall, eq_comm] using h₁
      refine ⟨hb.trans hbase, hn.trans hblocks, hnodup.erase _, ?_⟩
      have hset : {x | x ∈ live.erase (p, size)} = {x | x ∈ live} \ {(p, size)} := by
        ext x
        simp [hnodup.mem_erase_iff, and_comm]
      rw [hset]
      exact hc₁

theorem AllocatorInv.toContract {m₀ m : MemoryManager} {live : List (Nat × Nat)}
    (h : AllocatorInv m₀ m live) : AllocatorContract m₀ m live := by
  obtain ⟨hbase, hblocks, hnodup, hc⟩ := h
  refine ⟨hbase, hblocks, fun x hx => ⟨_, (hc.valid x hx).aligned⟩, ?_, ?_, ?_, ?_, ?_⟩
  · exact hnodup.pairwise_of_forall_ne fun x hx y hy hne => hc.disjoint hx hy hne
  · intro x hx q hq
    have := (hc.valid x hx).inside
    rw [extent, Set.mem_Ico] at hq
    omega
  · intro q
    have hq : q ∈ usedBlocks m ↔ q ∈ ⋃ x ∈ {x | x ∈ live}, extent m x := by rw [hc.exact]
    simpa [usedBlocks] using hq
  · intro size hpos hint
    rcases hc.allocate hpos (by omega) with ⟨p, m', h, -⟩ | h
    · exact ⟨_, h⟩
    · exact ⟨_, h⟩
  · intro x hx
    obtain ⟨m', h, -⟩ := hc.deallocate (Set.mem_ofPred_eq ▸ hx)
    exact ⟨m', h⟩

/-- **The allocator contract.** On a region below 2 GiB, `memAllocatorInit` returns, and the
contract holds after every sequence of allocations and of deallocations of live pairs. -/
theorem allocator_contract {fuel initPosition endPosition : Nat}
    (hle : initPosition ≤ endPosition) (hend : endPosition < 2 ^ 64)
    (hsize : endPosition - initPosition < 2 ^ 31)
    (hfuel : (endPosition - initPosition) / PAGE_SIZE < fuel) :
    ∃ r m₀, memAllocatorInit fuel .static initPosition endPosition = .ok (r, m₀) ∧
      ∀ m live, Reachable (· = (m₀, [])) AllocatorStep (m, live) →
        AllocatorContract m₀ m live := by
  obtain ⟨r, m₀, hinit, hc, -⟩ := memAllocatorInit_spec fuel initPosition endPosition hle hend hsize hfuel
  refine ⟨r, m₀, hinit, fun m live hreach => ?_⟩
  have hinv : AllocatorInv m₀ (m, live).1 (m, live).2 := by
    refine hreach.invariant (I := fun s => AllocatorInv m₀ s.1 s.2) ?_ ?_
    · rintro s rfl
      exact ⟨rfl, rfl, List.nodup_nil, hc⟩
    · exact fun s s' _ hs hstep => hs.step hstep
  exact hinv.toContract

/-- The five pages of the repository's own test. -/
theorem allocator_contract_five_pages :
    ∃ r m₀, memAllocatorInit 6 .static 0x300000 0x305000 = .ok (r, m₀) ∧
      ∀ m live, Reachable (· = (m₀, [])) AllocatorStep (m, live) →
        AllocatorContract m₀ m live :=
  allocator_contract (by decide) (by decide) (by decide) (by decide)

end BasicKernel
