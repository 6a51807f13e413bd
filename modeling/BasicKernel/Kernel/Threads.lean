import BasicKernel.Kernel.Lookup

set_option autoImplicit false

/-! # `threads.c`

`freeThreadLibrary` starts with a local pointer `prev` that it does not initialise and stores
through it. What such a local holds is an input of the model.
-/

namespace BasicKernel

/-- What the uninitialised local pointers `prev` hold: that of `removeDeadProcess`, that of
`removeDeadThreads`, and those of the calls of `freeThreadLibrary`, by the argument `library`. -/
structure Garbage where
  removeDeadProcess : Addr
  removeDeadThreads : Addr
  freeThreadLibrary : Addr → Addr

/-- The registers of a thread that was never run, in a frame at the address `frame`. -/
def initialFrame (exec entryPoint frame : Addr) : StackFrame :=
  { gs := 0x001, fs := 0x002, r15 := 0x003, r14 := 0x004, r13 := 0x005, r12 := 0x006
    r11 := 0x007, r10 := 0x008, r9 := 0x009, r8 := 0x00A, rsi := 0x00B, rdi := entryPoint
    rbp := 0x00D, rdx := 0x00E, rcx := 0x00F, rbx := 0x010, rax := 0x011, rip := exec
    cs := 0x008, eflags := 0x202, rsp := frame + (STACK_FRAME_SIZE - 8), ss := 0x000
    base := 0x000 }

/-- The frame is below `baseStack`. Below the null pointer there is no memory. -/
def fillStackFrame (k : Kernel) (exec entryPoint baseStack : Addr) :
    Except Stop (Addr × Kernel) := do
  -- an allocation that failed gives the null pointer
  if baseStack < STACK_FRAME_SIZE then
    throw .nullDereference
  let frame := baseStack - STACK_FRAME_SIZE
  let value := initialFrame exec entryPoint frame
  return (frame, { k with stackFrame := Function.update k.stackFrame frame value })

def createThread (k : Kernel) (exec entryPoint : Addr) (currentPThread : Int) :
    Except Stop (Addr × Kernel) := do
  let (thread, k) ← k.allocate PAGE_SIZE
  let k ← k.modifyThread thread fun t => { t with entryPoint := entryPoint }
  let (baseStack, k) ← k.allocate (PAGE_SIZE * NUMBER_OF_PAGES)
  let k ← k.modifyThread thread fun t => { t with baseStack := baseStack }
  let (userStack, k) ← fillStackFrame k exec entryPoint baseStack
  let k ← k.modifyThread thread fun t => { t with userStack := userStack }
  let k ← k.modifyThread thread fun t => { t with pthread := currentPThread }
  let k ← k.modifyThread thread fun t => { t with state := .T_READY }
  return (thread, k)

def addThreadToProcess (fuel : Nat) (k : Kernel) (pid : Int) (exec entryPoint : Addr) :
    Except Stop (Int × Kernel) := do
  let process ← getProcessWithPid fuel k pid
  if process = NULL then
    return (-1, k)
  let (thread, k) ← createThread k exec entryPoint (← load k.process process).currentPThread
  let (node, k) ← k.allocate PAGE_SIZE
  let k ← k.modifyThreadLibrary node fun l => { l with thread := thread }
  let p ← load k.process process
  let k ←
    if p.currentThread = NULL then do
      -- the first thread makes the ring
      let k ← k.modifyProcess process fun p => { p with threadLibrary := node }
      let k ← k.modifyProcess process fun p => { p with currentThread := node }
      k.modifyThreadLibrary node fun l => { l with next := node }
    else do
      -- a later node goes behind the first one
      let next := (← load k.threadLibrary p.threadLibrary).next
      let k ← k.modifyThreadLibrary node fun l => { l with next := next }
      k.modifyThreadLibrary p.threadLibrary fun l => { l with next := node }
  let k ← k.modifyProcess process fun p => { p with currentPThread := p.currentPThread + 1 }
  let k ← k.modifyProcess process fun p => { p with threadSize := p.threadSize + 1 }
  return ((← load k.thread thread).pthread, k)

/-- The loop of `freeThreadLibrary`, with the iterations that are left. -/
def freeThreads : Nat → Kernel → Addr → Addr → Except Stop Kernel
  | 0, k, _, _ => .ok k
  | n + 1, k, current, prev => do
      -- the thread's node leaves the ring
      let next := (← load k.threadLibrary current).next
      let k ← k.modifyThreadLibrary prev fun l => { l with next := next }
      let thread := (← load k.threadLibrary current).thread
      let baseStack := (← load k.thread thread).baseStack
      let k ← k.deallocate baseStack (PAGE_SIZE * NUMBER_OF_PAGES)
      let thread := (← load k.threadLibrary current).thread
      let k ← k.deallocate thread PAGE_SIZE
      let k ← k.deallocate current PAGE_SIZE
      -- the successor is read from the node that was just freed
      freeThreads n k (← load k.threadLibrary current).next current

def freeThreadLibrary (garbage : Garbage) (k : Kernel) (library : Addr) (threadSize : Int) :
    Except Stop Kernel :=
  freeThreads threadSize.toNat k library (garbage.freeThreadLibrary library)

end BasicKernel
