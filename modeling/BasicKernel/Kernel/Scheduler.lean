import BasicKernel.Kernel.Process

set_option autoImplicit false

/-! # `scheduler.c`

The functions that change the rings of processes and threads and their states, and the three
parts of a timer interrupt.

The loops of this file follow the rings and end where they find what they look for.
`Scheduling/Scans.lean` says when they do.
-/

namespace BasicKernel

open Linked

/-! ## Processes

A new process joins the ring behind the head. Removal marks, and the walk over the ring at the
next switch unlinks and frees what is marked. -/

def addProcessToQueue (k : Kernel) (p : Addr) : Except Stop Kernel := do
  let (node, k) ← k.allocate PAGE_SIZE
  let k ← k.modifySchedulerNode node fun n => { n with process := p }
  let k ← k.modifyProcess p fun p => { p with threadTick := 0 }
  let k ←
    -- the first node makes the ring
    if k.currentProcess = NULL then do
      let k := { k with processQueue := node, currentProcess := node }
      k.modifySchedulerNode node fun n => { n with next := node }
    else do
      -- a later node goes behind the first one
      let next := (← load k.schedulerNode k.processQueue).next
      let k ← k.modifySchedulerNode node fun n => { n with next := next }
      k.modifySchedulerNode k.processQueue fun n => { n with next := node }
  return { k with queueSize := k.queueSize + 1 }

def addProcess (fuel : Nat) (k : Kernel) (exec entryPoint name : Addr) :
    Except Stop (Int × Kernel) := do
  let (process, k) ← createProcess k name (← getCurrentPid k)
  let k ← addProcessToQueue k process
  let (_, k) ← addThreadToProcess fuel k (← load k.process process).pid exec entryPoint
  return ((← load k.process process).pid, k)

def removeProcess (fuel : Nat) (k : Kernel) (pid : Int) : Except Stop Kernel := do
  -- `init` and the shell are never removed
  if pid = 0 ∨ pid = 1 then
    return k
  let process ← getProcessWithPid fuel k pid
  let k ← k.modifyProcess process fun p => { p with state := .DEAD }
  -- the counter drops at once, the node leaves the ring when the dead are removed
  return { k with queueSize := k.queueSize - 1 }

def setKernelStack (k : Kernel) : Except Stop Kernel := do
  let (kernelStack, k) ← k.allocate PAGE_SIZE
  return { k with kernelStack }

/-- The loop of `removeDeadProcess`, with the iterations that are left. -/
def removeDead (fuel : Nat) (garbage : Garbage) :
    Nat → Kernel → Addr → Addr → Except Stop Kernel
  | 0, k, _, _ => .ok k
  | n + 1, k, current, prev => do
      let process := (← load k.schedulerNode current).process
      let k ←
        if (← load k.process process).state = .DEAD then do
          let next := (← load k.schedulerNode current).next
          -- in the first round `prev` is the uninitialised pointer
          let k ← k.modifySchedulerNode prev fun p => { p with next := next }
          let k ← freeProcess fuel garbage k (← load k.schedulerNode current).process
          k.deallocate current PAGE_SIZE
        else pure k
      -- the successor is read from the node that was perhaps just freed
      removeDead fuel garbage n k (← load k.schedulerNode current).next current

def removeDeadProcess (fuel : Nat) (garbage : Garbage) (k : Kernel) : Except Stop Kernel :=
  removeDead fuel garbage k.queueSize.toNat k k.processQueue garbage.removeDeadProcess

/-! ## Blocking

A thread is blocked by its state. Its process takes the state as well when no other thread is
ready, and each of the two wake-ups undoes one of them. -/

def blockProcess (fuel : Nat) (k : Kernel) (pid : Int) (blockType : ProcessState) :
    Except Stop Kernel := do
  let process ← getProcessWithPid fuel k pid
  let k ← k.modifyProcess process fun p => { p with state := blockType }
  -- the timer finds the quantum used up
  return { k with numberOfTicks := QUANTUM }

def unblockProcess (fuel : Nat) (k : Kernel) (pid : Int) (blockType : ProcessState) :
    Except Stop Kernel := do
  let process ← getProcessWithPid fuel k pid
  if (← load k.process process).state = blockType then
    k.modifyProcess process fun p => { p with state := .READY }
  else return k

def blockThread (fuel : Nat) (k : Kernel) (pid pthread : Int) (blockType : ThreadState) :
    Except Stop Kernel := do
  let process ← getProcessWithPid fuel k pid
  let thread ← getThreadWithPthread fuel k pthread process
  let k ← k.modifyThread thread fun t => { t with state := blockType }
  let k ← k.modifyProcess process fun p => { p with threadTick := THREAD_QUANTUM }
  -- the process is blocked with its last thread that can run
  if ← allThreadsAreBlocked k process then
    blockProcess fuel k pid (getBlockProcessType blockType)
  else return k

def unblockThread (fuel : Nat) (k : Kernel) (pid pthread : Int) (blockType : ThreadState) :
    Except Stop Kernel := do
  let process ← getProcessWithPid fuel k pid
  let thread ← getThreadWithPthread fuel k pthread process
  let k ←
    if (← load k.thread thread).state = blockType then
      k.modifyThread thread fun t => { t with state := .T_READY }
    else pure k
  -- the process is woken also when the thread was not
  unblockProcess fuel k pid (getBlockProcessType blockType)

/-- The loop of `unblockAllThreads`. Its bound `threadSize` does not change in the loop. -/
def unblockThreads (fuel : Nat) (pid : Int) (blockType : ThreadState) :
    Nat → Kernel → Addr → Except Stop Kernel
  | 0, k, _ => .ok k
  | n + 1, k, threadLib => do
      let thread := (← load k.threadLibrary threadLib).thread
      let k ←
        if (← load k.thread thread).state = blockType then do
          let k ← k.modifyThread thread fun t => { t with state := .T_READY }
          unblockProcess fuel k pid (getBlockProcessType blockType)
        else pure k
      unblockThreads fuel pid blockType n k (← load k.threadLibrary threadLib).next

def unblockAllThreads (fuel : Nat) (k : Kernel) (pid : Int) (blockType : ThreadState) :
    Except Stop Kernel := do
  let process ← getProcessWithPid fuel k pid
  let p ← load k.process process
  unblockThreads fuel pid blockType p.threadSize.toNat k p.threadLibrary

/-! ## Threads

The ring of threads is scanned as the ring of processes is. A thread that is killed stays in its
ring, and the counter `threadSize` no longer counts it. -/

def removeThread (fuel : Nat) (k : Kernel) (pid pthread : Int) : Except Stop Kernel := do
  if pid = 0 ∨ pid = 1 then
    return k
  -- the first thread of a process is not removed alone
  if pthread = 0 then
    return k
  let process ← getProcessWithPid fuel k pid
  let k ←
    if (← load k.process process).threadSize = 1 then removeProcess fuel k pid else pure k
  let thread ← getThreadWithPthread fuel k pthread process
  -- `DEAD` and `T_DEAD` are the same number
  let k ← k.modifyThread thread fun t => { t with state := .T_DEAD }
  k.modifyProcess process fun p => { p with threadSize := p.threadSize - 1 }

/-- The loop of `removeDeadThreads`. It moves on only behind a dead thread. -/
def removeDeadLoop : Nat → Kernel → Addr → Addr → Except Stop Kernel
  | 0, k, _, _ => .ok k
  | n + 1, k, current, prev => do
      let thread := (← load k.threadLibrary current).thread
      if (← load k.thread thread).state = .T_DEAD then
        let next := (← load k.threadLibrary current).next
        let k ← k.modifyThreadLibrary prev fun l => { l with next := next }
        let thread := (← load k.threadLibrary current).thread
        let baseStack := (← load k.thread thread).baseStack
        let k ← k.deallocate baseStack (PAGE_SIZE * NUMBER_OF_PAGES)
        let k ← k.deallocate (← load k.threadLibrary current).thread PAGE_SIZE
        let k ← k.deallocate current PAGE_SIZE
        removeDeadLoop n k (← load k.threadLibrary current).next current
      -- a thread that lives stays the current one: the rest of the loop looks at it again
      else removeDeadLoop n k current prev

def removeDeadThreads (garbage : Garbage) (k : Kernel) (process : Addr) : Except Stop Kernel := do
  let p ← load k.process process
  removeDeadLoop p.threadSize.toNat k p.threadLibrary garbage.removeDeadThreads

/-- The `while` loop of `nextThread` and what follows it. The loop stores every node that it visits
into `currentThread`; only the last of these stores is seen when it ends. -/
def resumeNextThread (fuel : Nat) (k : Kernel) (process : Addr) : Except Stop Kernel := do
  let last ← walkWhile .outOfFuel
    (fun lib => do
      let next := (← load k.threadLibrary lib).next
      let thread := (← load k.threadLibrary next).thread
      return decide ((← load k.thread thread).state ≠ .T_READY))
    (fun lib => do return (← load k.threadLibrary lib).next)
    fuel (← load k.process process).currentThread
  let next := (← load k.threadLibrary last).next
  let k ← k.modifyProcess process fun p => { p with currentThread := next }
  k.modifyThread (← k.currentThreadNode process) fun t => { t with state := .T_RUNNING }

def nextThread (fuel : Nat) (garbage : Garbage) (k : Kernel) : Except Stop Kernel := do
  let process ← k.currentProcessNode
  let k ← removeDeadThreads garbage k process
  let thread ← k.currentThreadNode process
  let k ←
    -- a blocked thread keeps its state
    if (← load k.thread thread).state = .T_RUNNING then
      k.modifyThread thread fun t => { t with state := .T_READY }
    else pure k
  resumeNextThread fuel k process

def threadCheck (fuel : Nat) (garbage : Garbage) (k : Kernel) : Except Stop Kernel := do
  let process ← k.currentProcessNode
  if (← load k.process process).threadTick < THREAD_QUANTUM then
    k.modifyProcess process fun p => { p with threadTick := p.threadTick + 1 }
  else do
    let k ← k.modifyProcess process fun p => { p with threadTick := 0 }
    nextThread fuel garbage k

/-! ## Switching

A timer tick counts up to the quantum of the thread and that of the process. `yieldSwitch` calls
the same scheduler at once for a caller that was blocked or killed. -/

def switchUserToKernel (k : Kernel) (esp : Addr) : Except Stop (Addr × Kernel) := do
  let thread ← k.currentThreadNode (← k.currentProcessNode)
  let k ← k.modifyThread thread fun t => { t with userStack := esp }
  return (k.kernelStack, k)

/-- The `while` loop of `runScheduler` and what follows it. -/
def resumeNextProcess (fuel : Nat) (k : Kernel) : Except Stop Kernel := do
  let last ← walkWhile .outOfFuel
    (fun node => do
      let next := (← load k.schedulerNode node).next
      let process := (← load k.schedulerNode next).process
      return decide ((← load k.process process).state ≠ .READY))
    (fun node => do return (← load k.schedulerNode node).next)
    fuel k.currentProcess
  let k := { k with currentProcess := (← load k.schedulerNode last).next }
  k.modifyProcess (← k.currentProcessNode) fun p => { p with state := .RUNNING }

/-- The part of `runScheduler` after a full quantum. -/
def switchProcess (fuel : Nat) (garbage : Garbage) (k : Kernel) : Except Stop Kernel := do
  let k ← removeDeadProcess fuel garbage k
  let k := { k with numberOfTicks := 0 }
  let process ← k.currentProcessNode
  let k ←
    -- a process that was blocked or killed keeps its state
    if (← load k.process process).state = .RUNNING then
      k.modifyProcess process fun p => { p with state := .READY }
    else pure k
  resumeNextProcess fuel k

def runScheduler (fuel : Nat) (garbage : Garbage) (k : Kernel) : Except Stop Kernel := do
  if k.currentProcess = NULL then
    return k
  -- inside a quantum the process stays, and only its threads can change
  if k.numberOfTicks < QUANTUM then
    threadCheck fuel garbage { k with numberOfTicks := k.numberOfTicks + 1 }
  else switchProcess fuel garbage k

def yieldSwitch (fuel : Nat) (garbage : Garbage) (k : Kernel) : Except Stop Kernel := do
  if k.currentProcess = NULL then
    return k
  let process ← k.currentProcessNode
  let state := (← load k.process process).state
  if isProcessBlocked state ∨ state = .DEAD then
    -- a process that cannot go on gives up the rest of its quantum
    runScheduler fuel garbage { k with numberOfTicks := QUANTUM }
  else do
    let threadState := (← load k.thread (← k.currentThreadNode process)).state
    if isThreadBlocked threadState ∨ threadState = .T_DEAD then
      -- another thread of the process goes on
      let k ← k.modifyProcess process fun p => { p with threadTick := THREAD_QUANTUM }
      runScheduler fuel garbage k
    else return k

def switchKernelToUser (k : Kernel) : Except Stop Addr := do
  let thread ← k.currentThreadNode (← k.currentProcessNode)
  return (← load k.thread thread).userStack

/-- `processSwitch` of `schedulerSwitch.asm`, the timer interrupt: the stack pointer that it was
entered with, and the one that it leaves with. -/
def processSwitch (fuel : Nat) (garbage : Garbage) (k : Kernel) (rsp : Addr) :
    Except Stop (Addr × Kernel) := do
  let (_, k) ← switchUserToKernel k rsp
  let k ← runScheduler fuel garbage k
  return (← switchKernelToUser k, k)

/-- `yieldHandler` of `interruptions.asm` -/
def yieldHandler (fuel : Nat) (garbage : Garbage) (k : Kernel) (rsp : Addr) :
    Except Stop (Addr × Kernel) := do
  let (_, k) ← switchUserToKernel k rsp
  let k ← yieldSwitch fuel garbage k
  return (← switchKernelToUser k, k)

end BasicKernel
