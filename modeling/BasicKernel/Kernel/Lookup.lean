import BasicKernel.Kernel.State

set_option autoImplicit false

/-! # Lookups of `scheduler.c`

The functions of `scheduler.c` that only read: the current process and thread, and the searches
in the two rings. A C pointer expression with several arrows is one `load` for each arrow.

The searches go around a ring and need fuel. That they end, and what they find, is proved on a
view.
-/

namespace BasicKernel

open Linked

/-- `currentProcess->process` -/
def Kernel.currentProcessNode (k : Kernel) : Except Stop Addr := do
  return (← load k.schedulerNode k.currentProcess).process

/-- `process->currentThread->thread` -/
def Kernel.currentThreadNode (k : Kernel) (process : Addr) : Except Stop Addr := do
  let p ← load k.process process
  return (← load k.threadLibrary p.currentThread).thread

def getCurrentPid (k : Kernel) : Except Stop Int := do
  if k.currentProcess = NULL then
    return -1
  return (← load k.process (← k.currentProcessNode)).pid

def getCurrentPthread (k : Kernel) : Except Stop Int := do
  let thread ← k.currentThreadNode (← k.currentProcessNode)
  return (← load k.thread thread).pthread

/-- `aux->process->pid` -/
def Kernel.pidAt (k : Kernel) (aux : Addr) : Except Stop Int := do
  return (← load k.process (← load k.schedulerNode aux).process).pid

/-- The ring is searched from the second node on, the first one comes last. -/
def getProcessWithPid (fuel : Nat) (k : Kernel) (pid : Int) : Except Stop Addr := do
  let aux ← walkWhile .outOfFuel
    (fun aux => if aux = k.processQueue then .ok false
      else do return decide ((← k.pidAt aux) ≠ pid))
    (fun aux => do return (← load k.schedulerNode aux).next)
    fuel (← load k.schedulerNode k.processQueue).next
  if (← k.pidAt aux) = pid then
    return (← load k.schedulerNode aux).process
  return NULL

/-- `aux->thread->pthread` -/
def Kernel.pthreadAt (k : Kernel) (aux : Addr) : Except Stop Int := do
  return (← load k.thread (← load k.threadLibrary aux).thread).pthread

def getThreadWithPthread (fuel : Nat) (k : Kernel) (pthread : Int) (process : Addr) :
    Except Stop Addr := do
  let library := (← load k.process process).threadLibrary
  let aux ← walkWhile .outOfFuel
    (fun aux => if aux = library then .ok false
      else do return decide ((← k.pthreadAt aux) ≠ pthread))
    (fun aux => do return (← load k.threadLibrary aux).next)
    fuel (← load k.threadLibrary library).next
  if (← k.pthreadAt aux) = pthread then
    return (← load k.threadLibrary aux).thread
  return NULL

def getParentPid (fuel : Nat) (k : Kernel) (pid : Int) : Except Stop Int := do
  let process ← getProcessWithPid fuel k pid
  return (← load k.process process).ppid

def getBlockProcessType : ThreadState → ProcessState
  | ThreadState.T_BLOCKED_IO => ProcessState.BLOCKED_IO
  | .T_BLOCKED_MUTEX => .BLOCKED_MUTEX
  | .T_BLOCKED_PIPE => .BLOCKED_PIPE
  | .T_READY => .READY
  | .T_RUNNING => .RUNNING
  | .T_DEAD => .DEAD

def isProcessBlocked (state : ProcessState) : Bool :=
  state = ProcessState.BLOCKED_IO || state = .BLOCKED_PIPE || state = .BLOCKED_MUTEX

def isThreadBlocked (state : ThreadState) : Bool :=
  state = ThreadState.T_BLOCKED_IO || state = .T_BLOCKED_PIPE || state = .T_BLOCKED_MUTEX

/-- The first `threadSize` nodes from `current` on have no ready thread. -/
def noneReady (k : Kernel) : Nat → Addr → Except Stop Bool
  | 0, _ => .ok true
  | n + 1, current => do
      let node ← load k.threadLibrary current
      if (← load k.thread node.thread).state = .T_READY then
        return false
      noneReady k n node.next

def allThreadsAreBlocked (k : Kernel) (process : Addr) : Except Stop Bool := do
  let p ← load k.process process
  noneReady k p.threadSize.toNat p.threadLibrary

end BasicKernel
