import BasicKernel.Kernel.Locks
import BasicKernel.Kernel.Pipefs

set_option autoImplicit false

/-! # `kernel.c` and the system calls

`main` up to the first process, and the events that happen from then on: interrupts and system
calls. The video screens, which `main` and some system calls also touch, are left out.

`Booted` is the state that `main` leaves, for any content of the memory, and `KernelOp` are the
events. `View/Events.lean` runs them.
-/

namespace BasicKernel

/-! ## Boot

`main` clears nothing but the static variables, so that a page holds anything when it is given out
for the first time. The two processes get the pids 0 and 1, and the scheduler runs from the first
timer tick on. -/

/-- The static variables as `clearBSS` and their initialisers leave them. Memory holds anything. -/
structure Kernel.AtReset (k : Kernel) : Prop where
  memory : k.memory = .static
  processQueue : k.processQueue = NULL
  currentProcess : k.currentProcess = NULL
  queueSize : k.queueSize = 0
  numberOfTicks : k.numberOfTicks = 0
  currentPid : k.currentPid = 0
  mutexCounter : k.mutexCounter = 0
  mutexList : k.mutexList = NULL
  semaphoreCounter : k.semaphoreCounter = 0
  semaphoreList : k.semaphoreList = NULL
  pipeList : k.pipeList = NULL
  processes : k.processes = []
  freedTwice : k.freedTwice = false

/-- `*(p + i) = s[i]` for the characters of `s`. -/
def setChars (k : Kernel) (p : Addr) : List UInt8 → Except Stop Kernel
  | [] => .ok k
  | c :: s => do setChars (← k.setChar p c) (p + 1) s

/-- The name of a process of `main`, and the process. -/
def addNamedProcess (fuel : Nat) (k : Kernel) (exec entryPoint : Addr) (name : List UInt8) :
    Except Stop Kernel := do
  let (chars, k) ← k.allocate name.length
  let k ← setChars k chars name
  return (← addProcess fuel k exec entryPoint chars).2

/-- `main`: the allocator, the kernel stack, the processes `init` and `shell`. -/
def main (fuel : Nat) (k : Kernel) (exec init sampleCodeModuleAddress : Addr) :
    Except Stop Kernel := do
  let (_, memory) ← memAllocatorInit fuel k.memory 0x1000000 0x8000000
  let k ← setKernelStack { k with memory }
  let k ← addNamedProcess fuel k exec init [105, 110, 105, 116, 0] -- init
  addNamedProcess fuel k exec sampleCodeModuleAddress [115, 104, 101, 108, 108, 0] -- shell

/-! ## Events

One event is one entry into the kernel, which runs with interrupts off. Its arguments are those
that the entry gets, well formed or not. Between two events programs run, and they write where the
kernel keeps nothing of its own: `Recycled` says what that may change. -/

/-- The interrupts and the calls that change processes, threads, locks and pipes. -/
inductive KernelOp where
  | tick (garbage : Garbage) (rsp : Addr)
  | yield (garbage : Garbage) (rsp : Addr)
  | addProcess (exec entryPoint name : Addr)
  | addThread (pid : Int) (exec entryPoint : Addr)
  | removeProcess (pid : Int)
  | removeThread (pid pthread : Int)
  | removeDeadProcess (garbage : Garbage)
  | blockThread (pid pthread : Int) (blockType : ThreadState)
  | unblockThread (pid pthread : Int) (blockType : ThreadState)
  | unblockAllThreads (pid : Int) (blockType : ThreadState)
  | createMutex
  | mutexUp (id : Int)
  | mutexDown (id : Int)
  | mutexDestroy (id : Int)
  | createSemaphore (start : Int)
  | semaphoreUp (id : Int)
  | semaphoreDown (id : Int)
  | semaphoreDestroy (id : Int)
  | createPipe (fromPid toPid : Int)
  | send (name buff : Addr)
  | receive (name buff : Addr)
  | pmalloc (nBytes : Int)
  | pfree (mem : Addr)

/-- The state after an event. -/
def KernelOp.run (fuel : Nat) (k : Kernel) : KernelOp → Except Stop Kernel
  | tick garbage rsp => do return (← processSwitch fuel garbage k rsp).2
  | yield garbage rsp => do return (← yieldHandler fuel garbage k rsp).2
  | addProcess exec entryPoint name => do
      return (← BasicKernel.addProcess fuel k exec entryPoint name).2
  | addThread pid exec entryPoint => do
      return (← addThreadToProcess fuel k pid exec entryPoint).2
  | removeProcess pid => BasicKernel.removeProcess fuel k pid
  | removeThread pid pthread => BasicKernel.removeThread fuel k pid pthread
  | removeDeadProcess garbage => BasicKernel.removeDeadProcess fuel garbage k
  | blockThread pid pthread blockType => BasicKernel.blockThread fuel k pid pthread blockType
  | unblockThread pid pthread blockType => BasicKernel.unblockThread fuel k pid pthread blockType
  | unblockAllThreads pid blockType => BasicKernel.unblockAllThreads fuel k pid blockType
  | createMutex => do return (← BasicKernel.createMutex fuel k).2
  | mutexUp id => BasicKernel.mutexUp fuel k id
  | mutexDown id => BasicKernel.mutexDown fuel k id
  | mutexDestroy id => BasicKernel.mutexDestroy fuel k id
  | createSemaphore start => do return (← BasicKernel.createSemaphore fuel k start).2
  | semaphoreUp id => BasicKernel.semaphoreUp fuel k id
  | semaphoreDown id => BasicKernel.semaphoreDown fuel k id
  | semaphoreDestroy id => BasicKernel.semaphoreDestroy fuel k id
  | createPipe fromPid toPid => do return (← do_pipe fuel k fromPid toPid).2
  | send name buff => writeToPipe fuel k name buff
  | receive name buff => readFromPipe fuel k name buff
  | pmalloc nBytes => do return (← BasicKernel.pmalloc fuel k nBytes).2
  | pfree mem => BasicKernel.pfree fuel k mem

/-- The pages of the block area that the allocator has handed out. -/
def Kernel.Reserved (k : Kernel) (a : Addr) : Prop :=
  k.memory.initMem ≤ a ∧ used k.memory.words ((a - k.memory.initMem) / PAGE_SIZE) = true

/-- The byte lies in a page of the block area that the allocator has not handed out. -/
def Kernel.Unreserved (k : Kernel) (a : Addr) : Prop :=
  k.memory.initMem ≤ a ∧ (((a - k.memory.initMem) / PAGE_SIZE : Nat) : Int) < k.memory.blocksAmount ∧
    used k.memory.words ((a - k.memory.initMem) / PAGE_SIZE) = false

/-- What may change between two events. Pages that are not reserved hold anything, and processes
write characters and push frames wherever they run. -/
structure Recycled (k k' : Kernel) : Prop where
  process : ∀ a, k.Reserved a → k'.process a = k.process a
  schedulerNode : ∀ a, k.Reserved a → k'.schedulerNode a = k.schedulerNode a
  thread : ∀ a, k.Reserved a → k'.thread a = k.thread a
  threadLibrary : ∀ a, k.Reserved a → k'.threadLibrary a = k.threadLibrary a
  heapNode : ∀ a, k.Reserved a → k'.heapNode a = k.heapNode a
  lock : ∀ a, k.Reserved a → k'.lock a = k.lock a
  blockedThread : ∀ a, k.Reserved a → k'.blockedThread a = k.blockedThread a
  pipe : ∀ a, k.Reserved a → k'.pipe a = k.pipe a
  statics : k' = { k with
    process := k'.process, schedulerNode := k'.schedulerNode, thread := k'.thread
    threadLibrary := k'.threadLibrary, stackFrame := k'.stackFrame, heapNode := k'.heapNode
    lock := k'.lock, blockedThread := k'.blockedThread, pipe := k'.pipe, char := k'.char }

theorem Recycled.refl (k : Kernel) : Recycled k k :=
  ⟨fun _ _ => rfl, fun _ _ => rfl, fun _ _ => rfl, fun _ _ => rfl, fun _ _ => rfl, fun _ _ => rfl,
    fun _ _ => rfl, fun _ _ => rfl, rfl⟩

/-- One event of a run. `Allowed` says which events a run has, in which states. -/
def KernelStep (Allowed : Kernel → KernelOp → Prop) (k k' : Kernel) : Prop :=
  ∃ k₁ op fuel, Recycled k k₁ ∧ Allowed k₁ op ∧ op.run fuel k₁ = .ok k'

end BasicKernel
