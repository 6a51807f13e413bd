import BasicKernel.Memory.Contract

set_option autoImplicit false

/-! # One call with any arguments

`allocate` and `deallocate` take 64-bit arguments and count blocks in an `int`. What they should do is
`Allocated` and `Deallocated`: these use the mathematical number of blocks and the mathematical
distance of the pointer. A request of `2^31` blocks or more is truncated, and `deallocate` only tests
the upper end of the region.

`allocate_serves_iff` and `deallocate_inside_iff` say for which arguments they do so.
`negative_request_served` and `null_outside_map` are arguments for which they do not.
-/

namespace BasicKernel

variable {m : MemoryManager} {request startingPosition size : Nat}

/-! ## `allocate`

The size is rounded up in 64 bits and truncated to an `int`, and the address is computed in an
`int` again. Each of the two can go wrong. -/

/-- What a call of `allocate` should do: reserve the blocks of the request, which were free, or
nothing. -/
inductive Allocated (m : MemoryManager) (request : Nat) : Option Nat × MemoryManager → Prop
  | served {s : Nat} {words : BitMap} : (s + sizeBlocks request : Nat) ≤ m.blocksAmount →
      FreeRun m.words s (sizeBlocks request) →
      (∀ q, used words q = if s ≤ q ∧ q < s + sizeBlocks request then true else used m.words q) →
      Allocated m request (some (m.initMem + s * PAGE_SIZE), { m with words })
  | refused : Allocated m request (none, m)

/-- The requests for which `allocate` does so. Either the blocks of the request are an `int`, and so is
the distance of the first fit, or the `int` that they are truncated to is refused. -/
def MemoryManager.Countable (m : MemoryManager) (request : Nat) : Prop :=
  (sizeBlocks request < 2 ^ 31 ∧
      ∀ s, FirstFit m.words (m.blocksAmount - sizeBlocks request) (sizeBlocks request) 0 s → s < 2 ^ 19) ∨
    (1 ≤ blocksOf request ∧ ∀ s : Nat, (s : Int) ≤ m.blocksAmount - blocksOf request →
      ¬ FreeRun m.words s (blocksOf request).toNat) ∨
    2 ^ 31 ≤ m.blocksAmount - blocksOf request

/-- A request of no blocks, or of a negative number of them, reserves nothing. -/
theorem allocate_nonpos (hm : MapOk m) (hblocks : blocksOf request ≤ 0) :
    allocate m request = .ok (if m.blocksAmount - blocksOf request < 2 ^ 31 then some (toUInt64 m.initMem)
      else none, m) := by
  have h0 := hm.nonneg
  have hint := hm.int
  have hlow := (toInt32_bounds (divCeil (UInt64.ofNat request) (UInt64.ofNat PAGE_SIZE)).toNat).1
  replace hlow : -2 ^ 31 ≤ blocksOf request := hlow
  have hcount : (blocksOf request).toNat = 0 := by omega
  simp only [allocate]
  split
  case isTrue hlt =>
    have hlast : toInt32 (m.blocksAmount - blocksOf request) = m.blocksAmount - blocksOf request :=
      toInt32_of_bounds (by omega) (by omega)
    have hstart : blocksOf request ≤ m.blocksAmount := by omega
    rw [hlast]
    simp [search, hstart, hcount, probe, reserve, bitLoop, toInt32]
  case isFalse hge =>
    have hlast : toInt32 (m.blocksAmount - blocksOf request) < 0 := by
      simp only [toInt32, Int.bmod_def]
      split <;> omega
    have hstop : ¬ (0 : Int) ≤ toInt32 (m.blocksAmount - blocksOf request) := by omega
    simp [search, if_neg hstop]

/-- The first fit is one block. -/
theorem FirstFit.unique {words : BitMap} {lastIndex : Int} {n i s s' : Nat}
    (h : FirstFit words lastIndex n i s) (h' : FirstFit words lastIndex n i s') : s = s' := by
  obtain ⟨hi, -, hfree, hfirst⟩ := h
  obtain ⟨hi', -, hfree', hfirst'⟩ := h'
  rcases Nat.lt_trichotomy s s' with hlt | heq | hlt
  · exact absurd hfree (hfirst' s hi hlt)
  · exact heq
  · exact absurd hfree' (hfirst s' hi' hlt)

/-- The address of a block is computed in an `int`, which is right below 2 GiB. -/
theorem blockAddress_eq_iff (hinside : m.initMem + m.blocksAmount * PAGE_SIZE < 2 ^ 64) {s : Nat}
    (hs : (s : Int) ≤ m.blocksAmount) (hint : (s : Int) < 2 ^ 31) :
    blockAddress m s = m.initMem + s * PAGE_SIZE ↔ s < 2 ^ 19 := by
  simp only [blockAddress, toUInt64, toInt32, Int.bmod_def, PAGE_SIZE] at *
  constructor
  · intro h
    by_contra hge
    split at h <;> omega
  · intro hlt
    split <;> omega

/-- A call that reserves blocks where it found them does what it should, if the address is right. -/
theorem allocated_iff_of_served {s n : Nat} {p : Nat} {words : BitMap} (hn : 1 ≤ n)
    (hsize : sizeBlocks request = n) (hs : (s + n : Nat) ≤ m.blocksAmount)
    (hfree : FreeRun m.words s n)
    (hused : ∀ q, used words q = if s ≤ q ∧ q < s + n then true else used m.words q) :
    Allocated m request (some p, { m with words }) ↔ p = m.initMem + s * PAGE_SIZE := by
  subst hsize
  constructor
  · intro h
    generalize hr : (some p, ({ m with words } : MemoryManager)) = r at h
    cases h with
    | refused => cases hr
    | @served s' words' hs' hfree' hused' =>
        obtain ⟨hp, hm'⟩ := Prod.mk.inj hr
        obtain rfl : words = words' := congrArg MemoryManager.words hm'
        -- the block `s` was free and is used
        have hmem : s' ≤ s ∧ s < s' + sizeBlocks request := by
          by_contra hout
          have hbefore := hfree s le_rfl (by omega)
          have hafter := hused' s
          rw [if_neg hout, hbefore, hused s, if_pos ⟨le_rfl, by omega⟩] at hafter
          cases hafter
        have hmem' : s ≤ s' ∧ s' < s + sizeBlocks request := by
          by_contra hout
          have hbefore := hfree' s' le_rfl (by omega)
          have hafter := hused s'
          rw [if_neg hout, hbefore, hused' s', if_pos ⟨le_rfl, by omega⟩] at hafter
          cases hafter
        obtain rfl : s' = s := by omega
        exact Option.some.inj hp
  · rintro rfl
    exact .served hs hfree hused

/-- `allocate` does what it should for exactly the requests that it can count. -/
theorem allocate_serves_iff (hm : MapOk m)
    (hinside : m.initMem + m.blocksAmount * PAGE_SIZE < 2 ^ 64) (request : Nat) :
    (∃ r, allocate m request = .ok r ∧ Allocated m request r) ↔ m.Countable request := by
  have hint := hm.int
  have h0 := hm.nonneg
  have haddr : toUInt64 m.initMem = m.initMem := by
    simp only [toUInt64, PAGE_SIZE] at *
    omega
  unfold MemoryManager.Countable
  -- the request in blocks fits an `int`, or is truncated
  by_cases hsmall : sizeBlocks request < 2 ^ 31
  · have hblocks := blocksOf_eq_sizeBlocks hsmall
    rcases Nat.eq_zero_or_pos (sizeBlocks request) with hzero | hpos
    · -- no block is asked for
      have hcall := allocate_nonpos hm (show blocksOf request ≤ 0 by omega)
      rw [hblocks, hzero] at hcall
      rw [if_pos (by simpa using hint), haddr] at hcall
      have hserved : Allocated m request (some (m.initMem + 0 * PAGE_SIZE), { m with words := m.words }) := by
        refine .served (by omega) (fun q hlo hhi => by omega) fun q => ?_
        rw [if_neg (by omega)]
      rw [Nat.zero_mul, Nat.add_zero] at hserved
      refine iff_of_true ⟨_, hcall, hserved⟩ (.inl ⟨hsmall, fun s hfit => ?_⟩)
      rw [hzero] at hfit
      by_contra hs
      exact hfit.2.2.2 0 le_rfl (by omega) fun q hlo hhi => by omega
    -- the search is first fit, so only the address can be wrong
    · rcases allocate_firstFit hm hblocks hpos with ⟨s, words, hcall, hfit, -, hused⟩ | ⟨hcall, hnone⟩
      · have hs : (s + sizeBlocks request : Nat) ≤ m.blocksAmount := by
          have := hfit.2.1
          push_cast
          omega
        have haddress := blockAddress_eq_iff (s := s) hinside (by omega) (by omega)
        have hallocated := allocated_iff_of_served (p := blockAddress m s) hpos rfl hs hfit.2.2.1 hused
        constructor
        · rintro ⟨r, hr, hok⟩
          obtain rfl := Except.ok.inj (hcall.symm.trans hr)
          refine .inl ⟨hsmall, fun s' hfit' => ?_⟩
          rw [hfit'.unique hfit]
          exact haddress.mp (hallocated.mp hok)
        · rintro (⟨-, hfirst⟩ | ⟨-, hnone⟩ | hlarge)
          · exact ⟨_, hcall, hallocated.mpr (haddress.mpr (hfirst s hfit))⟩
          · rw [hblocks, Int.toNat_natCast] at hnone
            exact absurd hfit.2.2.1 (hnone s hfit.2.1)
          · omega
      -- nothing fits, and the call says so
      · refine iff_of_true ⟨_, hcall, .refused⟩ (.inr (.inl ?_))
        rw [hblocks, Int.toNat_natCast]
        exact ⟨by omega, hnone⟩
  · -- more blocks than the region has: only a refusal is right
    have hrefused : ∀ r, Allocated m request r → r = (none, m) := by
      intro r hr
      cases hr with
      | served hs _ _ => omega
      | refused => rfl
    have hfail : ∀ {p : Nat} {m' : MemoryManager}, allocate m request = .ok (some p, m') →
        ¬ ∃ r, allocate m request = .ok r ∧ Allocated m request r := by
      rintro p m' hcall ⟨r, hr, hok⟩
      rw [hrefused r hok, hcall] at hr
      cases hr
    -- the truncated number of blocks is positive: the search is for fewer blocks
    by_cases hpos : 1 ≤ blocksOf request
    · obtain ⟨n, hn⟩ : ∃ n : Nat, blocksOf request = n := ⟨(blocksOf request).toNat, by omega⟩
      rcases allocate_firstFit hm hn (by omega) with ⟨s, words, hcall, hfit, -, -⟩ | ⟨hcall, hnone⟩
      · refine iff_of_false (hfail hcall) ?_
        rintro (⟨hlt, -⟩ | ⟨-, hnone⟩ | hlarge)
        · exact hsmall hlt
        · rw [hn, Int.toNat_natCast] at hnone
          exact hnone s hfit.2.1 hfit.2.2.1
        · omega
      · refine iff_of_true ⟨_, hcall, .refused⟩ (.inr (.inl ⟨hpos, ?_⟩))
        rw [hn, Int.toNat_natCast]
        exact hnone
    -- it is zero or negative: the search finds its run at once
    · have hcall := allocate_nonpos hm (show blocksOf request ≤ 0 by omega)
      by_cases hlt : m.blocksAmount - blocksOf request < 2 ^ 31
      · rw [if_pos hlt] at hcall
        refine iff_of_false (hfail hcall) ?_
        rintro (⟨hlt', -⟩ | ⟨hpos', -⟩ | hlarge)
        · exact hsmall hlt'
        · exact hpos hpos'
        · omega
      · rw [if_neg hlt] at hcall
        exact iff_of_true ⟨_, hcall, .refused⟩ (.inr (.inr (by omega)))

/-- What `memAllocatorInit` makes of two pages: one block, and the map behind it. -/
def onePage : MemoryManager := ⟨0x1000000, 0x1001000, [0#32], 1⟩

theorem onePage_ok : MapOk onePage ∧ onePage.initMem + onePage.blocksAmount * PAGE_SIZE < 2 ^ 64 :=
  ⟨⟨by decide, by decide, by decide, by decide⟩, by decide⟩

/-- A map of 40 blocks: the blocks 1 and 3 are free, and those from 32 on. -/
def fortyPages : MemoryManager := ⟨0x1000000, 0x1028000, [0xFFFFFFF5#32, 0#32], 40⟩

theorem fortyPages_ok :
    MapOk fortyPages ∧ fortyPages.initMem + fortyPages.blocksAmount * PAGE_SIZE < 2 ^ 64 :=
  ⟨⟨by decide, by decide, by decide, by decide⟩, by decide⟩

/-- Three pages do not fit between the used blocks. They are served from block 32 on. -/
theorem allocate_serves_behind_used : fortyPages.Countable 12288 ∧ ∃ m',
    allocate fortyPages 12288 = .ok (some 0x1020000, m') ∧
    Allocated fortyPages 12288 (some 0x1020000, m') := by
  have hcountable : fortyPages.Countable 12288 := by
    refine .inl ⟨by decide, fun s hs => ?_⟩
    have hlast : (s : Int) ≤ 37 := hs.2.1
    omega
  obtain ⟨⟨p, m'⟩, hcall, hok⟩ := (allocate_serves_iff fortyPages_ok.1 fortyPages_ok.2 12288).mpr hcountable
  have hpage : (allocate fortyPages 12288).map Prod.fst = .ok (some 0x1020000) := by decide +kernel
  rw [hcall] at hpage
  obtain rfl : p = some 0x1020000 := Except.ok.inj hpage
  exact ⟨hcountable, m', hcall, hok⟩

/-- `pmalloc(-1)` requests `2^64 - 1` bytes. They round up to no blocks. -/
theorem negative_request_served : ¬ ∀ (m : MemoryManager) (request : Nat), MapOk m →
    m.initMem + m.blocksAmount * PAGE_SIZE < 2 ^ 64 → request < 2 ^ 64 →
    ∃ r, allocate m request = .ok r ∧ Allocated m request r := by
  intro h
  have hcall : allocate onePage (toUInt64 (-1)) = .ok (some 0x1000000, onePage) := by decide +kernel
  obtain ⟨r, hr, hok⟩ := h onePage (toUInt64 (-1)) onePage_ok.1 onePage_ok.2 (by decide)
  rw [hcall] at hr
  obtain rfl := Except.ok.inj hr
  generalize hp : (some 0x1000000, onePage) = r at hok
  cases hok with
  | served hs _ _ =>
      have hblocks : sizeBlocks (toUInt64 (-1)) = 2 ^ 52 := rfl
      have hone : onePage.blocksAmount = 1 := rfl
      omega
  | refused => cases hp

/-! ## `deallocate`

The distance of the pointer is divided by the size of a page and truncated. A pointer in front of
the region has a negative block, and the code does not test for it. -/

/-- The block that a pointer is in, counted from the start of the region. -/
def blockOf (m : MemoryManager) (p : Nat) : Int := ((p : Int) - m.initMem) / PAGE_SIZE

/-- What a call of `deallocate` should do: nothing, or free the blocks of the size from the one of the
pointer on, all of which are blocks of the region. -/
inductive Deallocated (m : MemoryManager) (startingPosition size : Nat) : Int × MemoryManager → Prop
  | refused : Deallocated m startingPosition size (0, m)
  | cleared {words : BitMap} :
      (∀ j < sizeBlocks size, 0 ≤ blockOf m startingPosition + j ∧
        blockOf m startingPosition + j < m.blocksAmount) →
      (∀ q : Nat, used words q = if blockOf m startingPosition ≤ q ∧
        q < blockOf m startingPosition + sizeBlocks size then false else used m.words q) →
      Deallocated m startingPosition size (1, { m with words })

/-- The number of the block behind those of the size, in `int` arithmetic on the distance of the
pointer. -/
def limitOf (m : MemoryManager) (startingPosition size : Nat) : Int :=
  toInt32 (toInt32 ((toInt64 ((startingPosition : Int) - m.initMem)).tdiv PAGE_SIZE) + blocksOf size)

/-- The arguments for which `deallocate` does so: there is nothing to free, the blocks are in the
region, or the test of the upper end refuses them. -/
def MemoryManager.Releasable (m : MemoryManager) (startingPosition size : Nat) : Prop :=
  size = 0 ∨
    (0 ≤ blockOf m startingPosition ∧ blockOf m startingPosition + sizeBlocks size ≤ m.blocksAmount) ∨
    m.blocksAmount < limitOf m startingPosition size

theorem deallocate_eq (m : MemoryManager) (startingPosition size : Nat) :
    deallocate m startingPosition size =
      if m.blocksAmount < limitOf m startingPosition size then .ok (0, m)
      else do
        let startingBlock := toInt32 ((toInt64 ((startingPosition : Int) - m.initMem)).tdiv PAGE_SIZE)
        let words ← bitLoop resetBit (limitOf m startingPosition size - startingBlock).toNat
          startingBlock m.words
        return (1, { m with words }) := rfl

theorem deallocate_refused (h : m.blocksAmount < limitOf m startingPosition size) :
    deallocate m startingPosition size = .ok (0, m) := by
  rw [deallocate_eq, if_pos h]

/-- Blocks of the region are freed. -/
theorem deallocate_inside (hm : MapOk m) (hstart : 0 ≤ blockOf m startingPosition)
    (hend : blockOf m startingPosition + sizeBlocks size ≤ m.blocksAmount) :
    ∃ words, deallocate m startingPosition size = .ok (1, { m with words }) ∧
      ∀ q : Nat, used words q = if blockOf m startingPosition ≤ q ∧
        q < blockOf m startingPosition + sizeBlocks size then false else used m.words q := by
  have hint := hm.int
  have hcovered := hm.covered
  obtain ⟨b, hb⟩ : ∃ b : Nat, blockOf m startingPosition = b :=
    ⟨(blockOf m startingPosition).toNat, by omega⟩
  have hblocks : blocksOf size = sizeBlocks size := blocksOf_eq_sizeBlocks (by omega)
  rw [hb] at hend ⊢
  obtain ⟨words, hw, -, hused⟩ := bitLoop_spec resetBit_writesBit (sizeBlocks size) b m.words
    (by omega) hm.indexable
  have hfirst : toInt32 ((toInt64 ((startingPosition : Int) - m.initMem)).tdiv PAGE_SIZE) = b := by
    have hdistance : (b : Int) * PAGE_SIZE ≤ (startingPosition : Int) - m.initMem ∧
        (startingPosition : Int) - m.initMem < ((b : Int) + 1) * PAGE_SIZE := by
      simp only [blockOf, PAGE_SIZE] at *
      omega
    simp only [PAGE_SIZE] at *
    rw [toInt64_of_bounds (by omega) (by omega), Int.tdiv_eq_ediv_of_nonneg (by omega),
      toInt32_of_bounds (by omega) (by omega)]
    -- the truncating division of a distance that is not negative is the block's index
    omega
  have hlimit : toInt32 ((b : Int) + sizeBlocks size) = (b : Int) + sizeBlocks size :=
    toInt32_of_bounds (by omega) (by omega)
  have hcount : ((b : Int) + sizeBlocks size - b).toNat = sizeBlocks size := by omega
  refine ⟨words, ?_, fun q => ?_⟩
  · simp only [deallocate, hfirst, hblocks, hlimit, hcount, hw, ok_bind]
    rw [if_neg (by omega)]
    rfl
  · rw [hused q]
    by_cases hq : b ≤ q ∧ q < b + sizeBlocks size
    · rw [if_pos hq, if_pos (by omega)]
    · rw [if_neg hq, if_neg (by omega)]

/-- `deallocate` stays inside the map for exactly these arguments. -/
theorem deallocate_inside_iff (hm : MapOk m) (startingPosition size : Nat) :
    (∃ r, deallocate m startingPosition size = .ok r ∧ Deallocated m startingPosition size r) ↔
      m.Releasable startingPosition size := by
  constructor
  · rintro ⟨r, hr, hok⟩
    -- a limit behind the region is refused, which is right
    by_cases hlimit : m.blocksAmount < limitOf m startingPosition size
    · exact .inr (.inr hlimit)
    rcases Nat.eq_zero_or_pos size with hzero | hpos
    · exact .inl hzero
    have hblocks := one_le_sizeBlocks hpos
    cases hok with
    | refused =>
        rw [deallocate_eq, if_neg hlimit] at hr
        obtain ⟨words, -, hr⟩ := bind_eq_ok.mp hr
        cases hr
    -- all blocks of the range were inside, so the first and the last are
    | cleared hinside _ =>
        have hfirst := hinside 0 (by omega)
        have hlast := hinside (sizeBlocks size - 1) (by omega)
        refine .inr (.inl ⟨?_, ?_⟩)
        · simpa using hfirst.1
        · omega
  · rintro (rfl | ⟨hstart, hend⟩ | hlimit)
    · by_cases hlimit : m.blocksAmount < limitOf m startingPosition 0
      · exact ⟨_, deallocate_refused hlimit, .refused⟩
      -- the loop has no iterations
      have hzero : blocksOf 0 = 0 := by decide +kernel
      refine ⟨(1, { m with words := m.words }), ?_, .cleared (fun j hj => ?_) fun q => ?_⟩
      · have hsame : limitOf m startingPosition 0 =
            toInt32 ((toInt64 ((startingPosition : Int) - m.initMem)).tdiv PAGE_SIZE) := by
          unfold limitOf
          rw [hzero, add_zero]
          exact toInt32_of_bounds (toInt32_bounds _).1 (toInt32_bounds _).2
        rw [deallocate_eq, if_neg hlimit, hsame]
        dsimp only
        rw [sub_self]
        -- the limit is behind the region, and the call says so
        rfl
      · have hsize : sizeBlocks 0 = 0 := by decide
        omega
      · have hsize : sizeBlocks 0 = 0 := by decide
        rw [if_neg (by omega)]
    · obtain ⟨words, hcall, hused⟩ := deallocate_inside hm hstart hend
      refine ⟨_, hcall, .cleared (fun j hj => ?_) hused⟩
      omega
    · exact ⟨_, deallocate_refused hlimit, .refused⟩

/-- The two used blocks from 4 on are freed. -/
theorem deallocate_inside_used : fortyPages.Releasable 0x1004000 8192 ∧ ∃ m',
    deallocate fortyPages 0x1004000 8192 = .ok (1, m') ∧
    Deallocated fortyPages 0x1004000 8192 (1, m') := by
  have hreleasable : fortyPages.Releasable 0x1004000 8192 := .inr (.inl (by decide))
  obtain ⟨⟨r, m'⟩, hcall, hok⟩ := (deallocate_inside_iff fortyPages_ok.1 0x1004000 8192).mpr hreleasable
  have hfreed : (deallocate fortyPages 0x1004000 8192).map Prod.fst = .ok 1 := by decide +kernel
  rw [hcall] at hfreed
  obtain rfl : r = 1 := Except.ok.inj hfreed
  exact ⟨hreleasable, m', hcall, hok⟩

/-- The null pointer is 4096 blocks in front of the region: the word that holds its bit is far outside
the map. -/
theorem null_outside_map : ¬ ∀ (m : MemoryManager) (startingPosition size : Nat), MapOk m →
    startingPosition < 2 ^ 64 → size < 2 ^ 64 →
    ∃ r, deallocate m startingPosition size = .ok r ∧ Deallocated m startingPosition size r := by
  intro h
  have hcall : deallocate onePage 0 1 = .error .outOfBounds := by decide +kernel
  obtain ⟨r, hr, -⟩ := h onePage 0 1 onePage_ok.1 (by decide) (by decide)
  rw [hcall] at hr
  cases hr

end BasicKernel
