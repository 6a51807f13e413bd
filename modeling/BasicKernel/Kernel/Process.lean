import BasicKernel.Kernel.Threads
import BasicKernel.Kernel.Links

set_option autoImplicit false

/-! # `process.c`

Creation and release of processes, and the heap of the current process. A process has a page of its
own, and so have its name and every node of its heap list. The list `processes` of the live process
structures is not in the source. No function decides by it.
-/

namespace BasicKernel

/-! ## Creation

`createProcess` writes most fields of the page that it gets and leaves `currentThread`, `next` and
the frame as they are. The name is copied up to its terminator or the end of its page. -/

/-- The loop of `createProcessName`, with the iterations that are left. The result is the final
`i`. -/
def copyName (process name : Addr) : Nat → Kernel → Nat → Except Stop (Nat × Kernel)
  | 0, k, i => .ok (i, k)
  | n + 1, k, i => do
      let c ← load k.char (name + i)
      if c = 0 then
        return (i, k)
      let k ← k.setChar ((← load k.process process).name + i) c
      copyName process name n k (i + 1)

def createProcessName (k : Kernel) (process name : Addr) : Except Stop Kernel := do
  let (chars, k) ← k.allocate NAME_LENGTH
  let k ← k.modifyProcess process fun p => { p with name := chars }
  if chars = NULL then
    throw .nullDereference
  let (i, k) ← copyName process name (NAME_LENGTH - 1) k 0
  k.setChar ((← load k.process process).name + i) 0

/-- `processes` gets the new process. -/
def createProcess (k : Kernel) (name : Addr) (ppid : Int) : Except Stop (Addr × Kernel) := do
  let (process, k) ← k.allocate PAGE_SIZE
  let pid := k.currentPid
  let k := { k with currentPid := k.currentPid + 1 }
  let k ← k.modifyProcess process fun p => { p with pid := pid }
  let k ← k.modifyProcess process fun p => { p with ppid := ppid }
  let k ← k.modifyProcess process fun p => { p with currentPThread := 0 }
  let k ← k.modifyProcess process fun p => { p with threadSize := 0 }
  let k ← k.modifyProcess process fun p => { p with state := .READY }
  let k ← createProcessName k process name
  let k ← k.modifyProcess process fun p => { p with heap := NULL }
  return (process, { k with processes := process :: k.processes })

/-! ## The heap

A block of a process is recorded in a node of its own. `pmalloc` asks for the node and the block,
and appends the node; `pfree` looks for a node with that pointer and gives both back. -/

def heapLink : Link where
  next k p := (k.heapNode p).next
  setNext k p v :=
    { k with heapNode := Function.update k.heapNode p { k.heapNode p with next := v } }
  next_setNext k p v := by
    funext q
    by_cases hq : q = p
    · subst hq; simp
    · simp [hq]
  setNext_next k p := by simp

def addHeap (fuel : Nat) (k : Kernel) (node mem : Addr) (nBytes : Int) :
    Except Stop (Addr × Kernel) :=
  addLast heapLink
    (fun k => do
      let (newNode, k) ← k.allocate HEAP_NODE_SIZE
      let k ← k.modifyHeapNode newNode fun n => { n with address := mem }
      let k ← k.modifyHeapNode newNode fun n => { n with size := nBytes }
      return (newNode, k))
    fuel k node

def pmalloc (fuel : Nat) (k : Kernel) (nBytes : Int) : Except Stop (Addr × Kernel) := do
  -- an `int` is converted to the `size_t` of the allocator
  let (mem, k) ← k.allocate (toUInt64 nBytes)
  let current ← getProcessWithPid fuel k (← getCurrentPid k)
  let (heap, k) ← addHeap fuel k (← load k.process current).heap mem nBytes
  let k ← k.modifyProcess current fun p => { p with heap := heap }
  return (mem, k)

/-- The release of a heap block and of its list node. -/
def freeHeapNode (k : Kernel) (node : Addr) : Except Stop Kernel := do
  let k ← k.deallocate (k.heapNode node).address (toUInt64 (k.heapNode node).size)
  k.deallocate node HEAP_NODE_SIZE

def pfreeR (fuel : Nat) (k : Kernel) (node mem : Addr) : Except Stop (Addr × Kernel) :=
  removeFirst heapLink (fun k node => (k.heapNode node).address = mem) freeHeapNode fuel k node

def pfree (fuel : Nat) (k : Kernel) (mem : Addr) : Except Stop Kernel := do
  let current ← getProcessWithPid fuel k (← getCurrentPid k)
  let (heap, k) ← pfreeR fuel k (← load k.process current).heap mem
  k.modifyProcess current fun p => { p with heap := heap }

def freeHeap : Nat → Kernel → Addr → Except Stop Kernel
  | 0, _, _ => .error .outOfFuel
  | fuel + 1, k, node =>
      if node = NULL then .ok k
      else do
        -- `next` is read before the node is freed
        let next := (k.heapNode node).next
        freeHeap fuel (← freeHeapNode k node) next

/-! ## Release

The pages of a dead process are given back in the order of the source, which reads some of them
after they were freed. -/

/-- `processes` loses the process. -/
def freeProcess (fuel : Nat) (garbage : Garbage) (k : Kernel) (process : Addr) :
    Except Stop Kernel := do
  let p ← load k.process process
  -- the number of threads that are alive, not of the nodes of the ring
  let k ← freeThreadLibrary garbage k p.threadLibrary p.threadSize
  let k ← freeHeap fuel k (← load k.process process).heap
  let k ← k.deallocate process PAGE_SIZE
  return { k with processes := k.processes.erase process }

end BasicKernel
