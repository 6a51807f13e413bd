import BasicKernel.Memory.MemoryManager
import BasicKernel.Lib.Linked

set_option autoImplicit false

/-! # The kernel's data

The structures of `process.h`, `threads.h`, `scheduler.h`, `mutex.h`, `semaphores.h` and
`pipefs.h`, and the state of the kernel: its memory and the static variables of its files.

Memory is one store for each structure type, a total function on addresses. Every structure
lives in pages of its own, so two objects of different types never overlap while both are
live. What a store holds at an address that was never written, or whose page was freed, is
whatever it was: `allocate` clears nothing.

A field of the type `int` is an `Int`. The counters of the locks and of their registries wrap where they
are incremented (`Kernel/Locks.lean`). `numberOfTicks` and `threadTick` are compared with a quantum
before they are incremented. The other counters (`currentPid`, `currentPThread`, `queueSize`,
`threadSize`) change by at most one in an event, and are those of the source for the first `2^31 - 3`
events of a run.
-/

namespace BasicKernel

abbrev Addr := Nat

def NULL : Addr := 0

/-! ## `process.h`, `threads.h`, `scheduler.h`

Every structure has the fields of the source in their order. A pointer to a structure is an
address in its store, and the null pointer is the address 0. -/

inductive ProcessState where
  | READY | RUNNING | BLOCKED_IO | BLOCKED_MUTEX | BLOCKED_PIPE | DEAD
  deriving DecidableEq, Inhabited

inductive ThreadState where
  | T_READY | T_RUNNING | T_BLOCKED_IO | T_BLOCKED_MUTEX | T_BLOCKED_PIPE | T_DEAD
  deriving DecidableEq, Inhabited

/-- `processNode` -/
structure ProcessNode where
  ppid : Int
  pid : Int
  state : ProcessState
  name : Addr
  threadLibrary : Addr
  currentThread : Addr
  threadSize : Int
  threadTick : Int
  currentPThread : Int
  heap : Addr
  deriving Inhabited

/-- `threadNode` -/
structure ThreadNode where
  userStack : Addr
  entryPoint : Addr
  baseStack : Addr
  pthread : Int
  state : ThreadState
  deriving Inhabited

/-- `threadLibrary`: a node of the ring of a process's threads. -/
structure ThreadLibrary where
  thread : Addr
  next : Addr
  deriving Inhabited

/-- `schedulerNode`: a node of the ring of processes. -/
structure SchedulerNode where
  process : Addr
  next : Addr
  deriving Inhabited

structure HeapNode where
  address : Addr
  size : Int
  next : Addr
  deriving Inhabited

/-- `StackFrame`, twenty-three registers of eight bytes. -/
structure StackFrame where
  gs : Nat
  fs : Nat
  r15 : Nat
  r14 : Nat
  r13 : Nat
  r12 : Nat
  r11 : Nat
  r10 : Nat
  r9 : Nat
  r8 : Nat
  rsi : Nat
  rdi : Nat
  rbp : Nat
  rdx : Nat
  rcx : Nat
  rbx : Nat
  rax : Nat
  rip : Nat
  cs : Nat
  eflags : Nat
  rsp : Nat
  ss : Nat
  base : Nat
  deriving Inhabited

/-- `sizeof(StackFrame)` -/
def STACK_FRAME_SIZE : Nat := 23 * 8

def NUMBER_OF_PAGES : Nat := 256

def NAME_LENGTH : Nat := 50

def QUANTUM : Int := 5

def THREAD_QUANTUM : Int := 1

/-! ## `mutex.h`, `semaphores.h`, `pipefs.h`

`mutexNode` and `semaphoreNode` have the same four fields in the same order, and so have
`blockedThreadNode` and `blockedThreadNodeS`; each pair is one structure here. -/

/-- `mutexNode` and `semaphoreNode` -/
structure LockNode where
  id : Int
  status : Int
  next : Addr
  blockedThreadList : Addr
  deriving Inhabited

/-- `blockedThreadNode` and `blockedThreadNodeS` -/
structure BlockedThreadNode where
  pid : Int
  pthread : Int
  next : Addr
  deriving Inhabited

structure PipeNode where
  name : Addr
  buffer : Addr
  readPointer : Addr
  writePointer : Addr
  next : Addr
  deriving Inhabited

/-- `sizeof(mutexNode)`, `sizeof(semaphoreNode)` -/
def LOCK_NODE_SIZE : Nat := 24

/-- `sizeof(blockedThreadNode)`, `sizeof(blockedThreadNodeS)` -/
def BLOCKED_THREAD_NODE_SIZE : Nat := 16

/-- `sizeof(heapNode)` -/
def HEAP_NODE_SIZE : Nat := 24

/-- `sizeof(pipeNode)` -/
def PIPE_NODE_SIZE : Nat := 40

/-! ## The state

A read through the null pointer is an error and so is a write; every other address can be read and
written. The allocator is part of the state, and its answers are those of `memoryManager.c`. -/

/-- The kernel's memory and static variables. `processes` and `freedTwice` are no variables of
the source: they record what `createProcess`, `freeProcess` and `deallocate` have done, and no
operation reads them. -/
structure Kernel where
  memory : MemoryManager
  process : Addr → ProcessNode
  schedulerNode : Addr → SchedulerNode
  thread : Addr → ThreadNode
  threadLibrary : Addr → ThreadLibrary
  stackFrame : Addr → StackFrame
  heapNode : Addr → HeapNode
  lock : Addr → LockNode
  blockedThread : Addr → BlockedThreadNode
  pipe : Addr → PipeNode
  char : Addr → UInt8
  kernelStack : Addr
  processQueue : Addr
  currentProcess : Addr
  queueSize : Int
  numberOfTicks : Int
  currentPid : Int
  mutexCounter : Int
  mutexList : Addr
  semaphoreCounter : Int
  semaphoreList : Addr
  pipeList : Addr
  processes : List Addr
  freedTwice : Bool

/-- `*p` in a store. -/
def load {α : Type} (store : Addr → α) (p : Addr) : Except Stop α :=
  if p = NULL then .error .nullDereference else .ok (store p)

/-- The store after an assignment through `p`. -/
def modify {α : Type} (store : Addr → α) (p : Addr) (f : α → α) : Except Stop (Addr → α) :=
  if p = NULL then .error .nullDereference else .ok (Function.update store p (f (store p)))

@[simp] theorem load_of_ne {α : Type} {store : Addr → α} {p : Addr} (h : p ≠ NULL) :
    load store p = .ok (store p) := if_neg h

theorem load_eq_ok {α : Type} {store : Addr → α} {p : Addr} {v : α} :
    load store p = .ok v ↔ p ≠ NULL ∧ store p = v := by
  unfold load
  by_cases hp : p = NULL
  · simp [hp]
  · simp [hp]

@[simp] theorem load_null {α : Type} (store : Addr → α) :
    load store NULL = .error .nullDereference := if_pos rfl

@[simp] theorem modify_of_ne {α : Type} {store : Addr → α} {p : Addr} (h : p ≠ NULL) (f : α → α) :
    modify store p f = .ok (Function.update store p (f (store p))) := if_neg h

@[simp] theorem modify_null {α : Type} (store : Addr → α) (f : α → α) :
    modify store NULL f = .error .nullDereference := if_pos rfl

namespace Kernel

variable (k : Kernel) (p : Addr)

def modifyProcess (f : ProcessNode → ProcessNode) : Except Stop Kernel := do
  return { k with process := ← modify k.process p f }

def modifySchedulerNode (f : SchedulerNode → SchedulerNode) : Except Stop Kernel := do
  return { k with schedulerNode := ← modify k.schedulerNode p f }

def modifyThread (f : ThreadNode → ThreadNode) : Except Stop Kernel := do
  return { k with thread := ← modify k.thread p f }

def modifyThreadLibrary (f : ThreadLibrary → ThreadLibrary) : Except Stop Kernel := do
  return { k with threadLibrary := ← modify k.threadLibrary p f }

def modifyHeapNode (f : HeapNode → HeapNode) : Except Stop Kernel := do
  return { k with heapNode := ← modify k.heapNode p f }

def modifyLock (f : LockNode → LockNode) : Except Stop Kernel := do
  return { k with lock := ← modify k.lock p f }

def modifyBlockedThread (f : BlockedThreadNode → BlockedThreadNode) : Except Stop Kernel := do
  return { k with blockedThread := ← modify k.blockedThread p f }

def modifyPipe (f : PipeNode → PipeNode) : Except Stop Kernel := do
  return { k with pipe := ← modify k.pipe p f }

def setChar (c : UInt8) : Except Stop Kernel := do
  return { k with char := ← modify k.char p fun _ => c }

section Stores

variable {k p}

theorem modifyProcess_of_ne (h : p ≠ NULL) (f : ProcessNode → ProcessNode) :
    k.modifyProcess p f = .ok { k with process := Function.update k.process p (f (k.process p)) } := by
  simp [modifyProcess, h]

theorem modifySchedulerNode_of_ne (h : p ≠ NULL) (f : SchedulerNode → SchedulerNode) :
    k.modifySchedulerNode p f =
      .ok { k with schedulerNode := Function.update k.schedulerNode p (f (k.schedulerNode p)) } := by
  simp [modifySchedulerNode, h]

theorem modifyThread_of_ne (h : p ≠ NULL) (f : ThreadNode → ThreadNode) :
    k.modifyThread p f = .ok { k with thread := Function.update k.thread p (f (k.thread p)) } := by
  simp [modifyThread, h]

theorem modifyThreadLibrary_of_ne (h : p ≠ NULL) (f : ThreadLibrary → ThreadLibrary) :
    k.modifyThreadLibrary p f =
      .ok { k with threadLibrary := Function.update k.threadLibrary p (f (k.threadLibrary p)) } := by
  simp [modifyThreadLibrary, h]

theorem modifyHeapNode_of_ne (h : p ≠ NULL) (f : HeapNode → HeapNode) :
    k.modifyHeapNode p f =
      .ok { k with heapNode := Function.update k.heapNode p (f (k.heapNode p)) } := by
  simp [modifyHeapNode, h]

theorem modifyLock_of_ne (h : p ≠ NULL) (f : LockNode → LockNode) :
    k.modifyLock p f = .ok { k with lock := Function.update k.lock p (f (k.lock p)) } := by
  simp [modifyLock, h]

theorem modifyBlockedThread_of_ne (h : p ≠ NULL) (f : BlockedThreadNode → BlockedThreadNode) :
    k.modifyBlockedThread p f =
      .ok { k with blockedThread := Function.update k.blockedThread p (f (k.blockedThread p)) } := by
  simp [modifyBlockedThread, h]

theorem modifyPipe_of_ne (h : p ≠ NULL) (f : PipeNode → PipeNode) :
    k.modifyPipe p f = .ok { k with pipe := Function.update k.pipe p (f (k.pipe p)) } := by
  simp [modifyPipe, h]

theorem setChar_of_ne (h : p ≠ NULL) (c : UInt8) :
    k.setChar p c = .ok { k with char := Function.update k.char p c } := by
  simp [setChar, h]

@[simp] theorem modifyThread_null (f : ThreadNode → ThreadNode) :
    k.modifyThread NULL f = .error .nullDereference := by
  simp [modifyThread]

@[simp] theorem modifyProcess_null (f : ProcessNode → ProcessNode) :
    k.modifyProcess NULL f = .error .nullDereference := by
  simp [modifyProcess]

@[simp] theorem modifySchedulerNode_null (f : SchedulerNode → SchedulerNode) :
    k.modifySchedulerNode NULL f = .error .nullDereference := by
  simp [modifySchedulerNode]

@[simp] theorem modifyThreadLibrary_null (f : ThreadLibrary → ThreadLibrary) :
    k.modifyThreadLibrary NULL f = .error .nullDereference := by
  simp [modifyThreadLibrary]

@[simp] theorem modifyHeapNode_null (f : HeapNode → HeapNode) :
    k.modifyHeapNode NULL f = .error .nullDereference := by
  simp [modifyHeapNode]

@[simp] theorem modifyLock_null (f : LockNode → LockNode) :
    k.modifyLock NULL f = .error .nullDereference := by
  simp [modifyLock]

@[simp] theorem modifyBlockedThread_null (f : BlockedThreadNode → BlockedThreadNode) :
    k.modifyBlockedThread NULL f = .error .nullDereference := by
  simp [modifyBlockedThread]

end Stores

/-- `allocate`, with the null pointer for a refused request. -/
def allocate (size : Nat) : Except Stop (Addr × Kernel) := do
  let (p, memory) ← BasicKernel.allocate k.memory size
  return (p.getD NULL, { k with memory })

/-- `deallocate`. It records whether a block that it frees was free already. -/
def deallocate (size : Nat) : Except Stop Kernel := do
  let (freed, memory) ← BasicKernel.deallocate k.memory p size
  let first := (p - k.memory.initMem) / PAGE_SIZE
  let allUsed := (List.range (blocksOf size).toNat).all fun j => used k.memory.words (first + j)
  return { k with memory, freedTwice := k.freedTwice || (freed == 1 && !allUsed) }

end Kernel

end BasicKernel
