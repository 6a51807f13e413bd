import BasicKernel.Memory.Bitmap

set_option autoImplicit false

/-! # `memoryManager.c`

The page allocator. Pointers are natural numbers below `2^64`; `int` arithmetic that the
source converts explicitly or that can leave the range of `int` is converted with `toInt32`.
A `for` loop whose bound is fixed before it starts is a recursion on the number of
iterations left; the loops of `getBlocksAmount` take fuel.
-/

namespace BasicKernel

/-- `PAGE_SIZE` -/
def PAGE_SIZE : Nat := 0x1000

/-- The three global variables of `memoryManager.c`. `words` are the integers that the
pointer `usedMap` points to. -/
structure MemoryManager where
  initMem : Nat
  usedMap : Nat
  words : BitMap
  blocksAmount : Int
  deriving DecidableEq, Repr

/-- The globals of `memoryManager.c` before `memAllocatorInit`. -/
def MemoryManager.static : MemoryManager := ⟨0, 0, [], 0⟩

/-- `MAP_SIZE`. The macro compares its argument with `0` as an `int` and computes in
`size_t`. -/
def mapSize (bits : Int) : UInt64 :=
  let x := UInt64.ofNat (toUInt64 bits)
  if 0 < bits then positiveDivCeil x 32 else negativeDivCeil x 32

/-- `DIV_CEIL(request, PAGE_SIZE)`, stored in an `int`. -/
def blocksOf (request : Nat) : Int :=
  toInt32 (divCeil (UInt64.ofNat request) (UInt64.ofNat PAGE_SIZE)).toNat

/-! ## Initialisation

The number of blocks is what `getBlocksAmount` finds, and the map is placed behind the last
block. -/

/-- The `do … while` loop of `getBlocksAmount`. -/
def countBlocks (totalMem : Nat) : Nat → Nat → Int → Except Stop (Nat × Int)
  | 0, _, _ => .error .outOfFuel
  | fuel + 1, auxMem, blocksAmount =>
      let auxMem := toUInt64 (auxMem + PAGE_SIZE)
      let blocksAmount := toInt32 (blocksAmount + 1)
      if auxMem ≤ totalMem then countBlocks totalMem fuel auxMem blocksAmount
      else .ok (auxMem, blocksAmount)

def enoughSpace (blocksAmount remainingMem : Int) : Bool :=
  decide (toInt32 (8 + (mapSize blocksAmount).toNat) ≤ remainingMem)

/-- The `while` loop of `getBlocksAmount`. -/
def shrinkBlocks : Nat → Int → Int → Except Stop Int
  | 0, _, _ => .error .outOfFuel
  | fuel + 1, blocksAmount, remainingMem =>
      if enoughSpace blocksAmount remainingMem then .ok blocksAmount
      else shrinkBlocks fuel (blocksAmount - 1) (remainingMem + PAGE_SIZE)

def getBlocksAmount (fuel totalMem : Nat) : Except Stop Int := do
  let (auxMem, blocksAmount) ← countBlocks totalMem fuel 0 (-1)
  let auxMem := toUInt64 (auxMem - PAGE_SIZE)
  shrinkBlocks fuel blocksAmount (toInt32 (toUInt64 (totalMem - auxMem)))

def mapInit (m : MemoryManager) : MemoryManager :=
  { m with
    usedMap := toUInt64 (m.initMem + toInt32 (m.blocksAmount * PAGE_SIZE))
    words := List.replicate (toInt32 (mapSize m.blocksAmount).toNat).toNat 0#32 }

def memAllocatorInit (fuel : Nat) (m : MemoryManager) (initPosition endPosition : Nat) :
    Except Stop (Int × MemoryManager) := do
  let totalMem := toUInt64 (endPosition - initPosition)
  if totalMem < PAGE_SIZE then
    return (0, m)
  let blocksAmount ← getBlocksAmount fuel totalMem
  return (1, mapInit { m with initMem := initPosition, blocksAmount := blocksAmount })

/-! ## Allocation

The search goes through the starts from the first block on. Where a range is not free it goes on
behind the used block that it has met. -/

/-- The inner loop of `allocate`: blocks `i + j, i + j + 1, …` are tested until one is used
or `n` were tested. The result is the final `j` and `allocFound`. -/
def probe (words : BitMap) (i : Int) : Nat → Int → Except Stop (Int × Bool)
  | 0, j => .ok (j, true)
  | n + 1, j => do
      let allocFound ← isAvailable words (i + j)
      if allocFound then probe words i n (j + 1) else .ok (j + 1, false)

/-- The outer loop of `allocate`. The result is the final `i`, `j` and `allocFound`. -/
def search (words : BitMap) (blocksRequest lastIndex : Int) :
    Nat → Int → Except Stop (Int × Int × Bool)
  | 0, _ => .error .outOfFuel
  | fuel + 1, i =>
      if i ≤ lastIndex then do
        let (j, allocFound) ← probe words i blocksRequest.toNat 0
        if allocFound then .ok (i + j, j, true)
        else search words blocksRequest lastIndex fuel (i + j)
      else .ok (i, 0, false)

/-- A loop that calls `f` on `n` successive positions from `i` on. -/
def bitLoop (f : BitMap → Int → Except Stop BitMap) :
    Nat → Int → BitMap → Except Stop BitMap
  | 0, _, words => .ok words
  | n + 1, i, words => do bitLoop f n (i + 1) (← f words i)

def reserve (m : MemoryManager) (blocksRequest startingBlock : Int) :
    Except Stop MemoryManager := do
  let limit := startingBlock + blocksRequest
  let words ← bitLoop setBit (limit - startingBlock).toNat startingBlock m.words
  return { m with words }

/-- `none` is the null pointer. Every iteration of the search advances `i`, so one more
than the number of its values up to `lastIndex` is enough fuel. -/
def allocate (m : MemoryManager) (request : Nat) : Except Stop (Option Nat × MemoryManager) := do
  let blocksRequest := blocksOf request
  let lastIndex := toInt32 (m.blocksAmount - blocksRequest)
  let (i, j, allocFound) ← search m.words blocksRequest lastIndex
    ((lastIndex + 1).toNat + 1) 0
  if !allocFound then
    return (none, m)
  let i := i - j
  let m' ← reserve m blocksRequest i
  return (some (toUInt64 (m.initMem + toInt32 (i * PAGE_SIZE))), m')

/-! ## Deallocation

The blocks of the size are cleared, from the block of the pointer on. Nothing records which size
was requested for a pointer. -/

def deallocate (m : MemoryManager) (startingPosition size : Nat) :
    Except Stop (Int × MemoryManager) := do
  let blocks := blocksOf size
  let startingBlock :=
    toInt32 (Int.tdiv (toInt64 (startingPosition - m.initMem)) PAGE_SIZE)
  let limit := toInt32 (startingBlock + blocks)
  if limit > m.blocksAmount then
    return (0, m)
  let words ← bitLoop resetBit (limit - startingBlock).toNat startingBlock m.words
  return (1, { m with words })

end BasicKernel
