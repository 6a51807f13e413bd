import BasicKernel.Screen.ScreenLoader

set_option autoImplicit false

/-! # Output and processes: `systemCalls.c`

The system calls that draw on a screen or change the focus, with the functions of `process.c` and
`scheduler.c` that print the processes.

The calls are run in `Screen/Reachable.lean`, `Screen/Background.lean` and `Screen/Focus.lean`,
and the listing of the processes in `Screen/Listing.lean`.
-/

namespace BasicKernel

open Linked

/-! ## `ps`

The loops over the ring count with variables that are not initialised, so their first values are
arguments here. -/

/-- The characters of a string literal. -/
def chars (s : String) : List UInt8 := s.toList.map fun c => c.toNat.toUInt8

/-- The characters in front of the first 0. -/
def readString : Nat → Kernel → Addr → Except Stop (List UInt8)
  | 0, _, _ => .error .outOfFuel
  | fuel + 1, k, p => do
      let c ← load k.char p
      if c = 0 then return [] else return c :: (← readString fuel k (p + 1))

def getStatus : ProcessState → List UInt8
  | .READY => chars "READY"
  | .RUNNING => chars "RUNNING"
  | ProcessState.BLOCKED_IO => chars "BLOCKED"
  | .BLOCKED_MUTEX => chars "BLOCKED"
  | .BLOCKED_PIPE => chars "BLOCKED"
  | .DEAD => chars "DEAD"

section Listing

variable {σ : Type} [PrintsOn σ]

def printProcessInfo (fuel : Nat) (k : Kernel) (v : σ) (process : Addr) :
    Except Stop σ := do
  let p ← load k.process process
  let v := PrintsOn.printTab (← printDec fuel v p.pid)
  let v := PrintsOn.printTab (PrintsOn.print v (← readString fuel k p.name))
  let v := PrintsOn.printTab (← printDec fuel v p.threadSize)
  let v := PrintsOn.printTab (← printDec fuel v p.ppid)
  return PrintsOn.newLine (PrintsOn.print v (getStatus p.state))

/-- The numbers that `printPsHeader` counts. -/
structure PsCount where
  process : Int
  blocked : Int
  running : Int
  ready : Int
  threads : Int

/-- The loop of `printPsHeader`, with the iterations that are left. -/
def countProcesses (k : Kernel) : Nat → Addr → PsCount → Except Stop PsCount
  | 0, _, count => .ok count
  | n + 1, current, count => do
      let node ← load k.schedulerNode current
      let p ← load k.process node.process
      let count := { count with process := count.process + 1 }
      let count :=
        if isProcessBlocked p.state then { count with blocked := count.blocked + 1 }
        else if p.state = .RUNNING then { count with running := count.running + 1 }
        else if p.state = .READY then { count with ready := count.ready + 1 }
        else count
      countProcesses k n node.next { count with threads := count.threads + p.threadSize }

/-- `printPsHeader`. Its variable `i` is not initialised. -/
def printPsHeader (fuel : Nat) (k : Kernel) (v : σ) (i : Int) : Except Stop σ := do
  let count ← countProcesses k (k.queueSize - i).toNat k.processQueue ⟨0, 0, 0, 0, 0⟩
  let v := PrintsOn.print (PrintsOn.newLine v) (chars "Processses: ")
  let v := PrintsOn.print (← printDec fuel v count.process) (chars " total, ")
  let v := PrintsOn.print (← printDec fuel v count.running) (chars " running, ")
  let v := PrintsOn.print (← printDec fuel v count.ready) (chars " ready, ")
  let v := PrintsOn.print (← printDec fuel v count.blocked) (chars " blocked")
  let v := PrintsOn.print (PrintsOn.newLine v) (chars "Threads: ")
  let v := PrintsOn.print (← printDec fuel v count.threads) (chars " total")
  let v := PrintsOn.newLine (PrintsOn.newLine v)
  let v := PrintsOn.printTab (PrintsOn.print v (chars "PID"))
  let v := PrintsOn.printTab (PrintsOn.print v (chars "Command"))
  let v := PrintsOn.printTab (PrintsOn.print v (chars "#Threads"))
  let v := PrintsOn.printTab (PrintsOn.print v (chars "PPID"))
  return PrintsOn.newLine (PrintsOn.print v (chars "State"))

/-- The loop of `printAllProcess`, with the iterations that are left. -/
def printProcesses (fuel : Nat) (k : Kernel) : Nat → Addr → σ → Except Stop σ
  | 0, _, v => .ok v
  | n + 1, queue, v => do
      let node ← load k.schedulerNode queue
      printProcesses fuel k n node.next (← printProcessInfo fuel k v node.process)

/-- `printAllProcess`. Its variable `i` is not initialised, and neither is that of
`printPsHeader`. -/
def printAllProcess (fuel : Nat) (k : Kernel) (v : σ) (i headerI : Int) :
    Except Stop σ := do
  if k.processQueue = NULL then
    return v
  let v ← printPsHeader fuel k v headerI
  let v ← printProcesses fuel k (k.queueSize - i).toNat k.processQueue v
  return PrintsOn.newLine (PrintsOn.newLine (PrintsOn.newLine v))

end Listing

def ps (fuel : Nat) (m : Machine) (i headerI : Int) : Except Stop Machine := do
  return { m with video := ← printAllProcess fuel m.kernel m.video i headerI }

/-! ## Writing -/

def clearScreenSys (m : Machine) : Machine := { m with video := clearScreen m.video }

/-- `writeToVideo`, on the `nBytes` bytes of the buffer: what it returns, and the screen. -/
def writeToVideo (v : Video) : List UInt8 → Nat × Video
  | [] => (0, v)
  | c :: buf =>
      if c = 0 then (0, v)
      else
        let (i, v) := writeToVideo (printCharacters v c) buf
        (i + 1, v)

/-- The loop of `writeToMyScreen`. -/
def writeTo (myScreen : Addr) (v : Video) : List UInt8 → Nat × Video
  | [] => (0, v)
  | c :: buf =>
      if c = 0 then (0, v)
      else
        let (i, v) := writeTo myScreen (printCharactersInner v c myScreen .myScreenPos) buf
        (i + 1, v)

def writeToMyScreen (fuel : Nat) (m : Machine) (buf : List UInt8) :
    Except Stop (Nat × Machine) := do
  let (myScreen, m) ← getCurrentScreen fuel m
  let (myScreenPos, m) ← getCurrentScreenPosition fuel m
  let (i, video) := writeTo myScreen { m.video with myScreenPos } buf
  let m ← setCurrentScreenPosition fuel { m with video } video.myScreenPos
  return (i, m)

/-- `write(STANDARD_IO_FD, buf, nBytes)` -/
def write (fuel : Nat) (m : Machine) (buf : List UInt8) : Except Stop (Nat × Machine) := do
  if ← isCurrentProcessOnFocus m then
    let (i, video) := writeToVideo m.video buf
    return (i, { m with video })
  else writeToMyScreen fuel m buf

/-! ## Processes -/

def pcreate (fuel : Nat) (m : Machine) (exec entryPoint name : Addr) :
    Except Stop (Int × Machine) := do
  let (pid, kernel) ← addProcess fuel m.kernel exec entryPoint name
  let (_, m) ← loadScreen fuel { m with kernel } pid
  return (pid, m)

def pcreateBackground (fuel : Nat) (m : Machine) (exec entryPoint name : Addr) :
    Except Stop (Int × Machine) := do
  let (pid, kernel) ← addProcess fuel m.kernel exec entryPoint name
  return (pid, { m with kernel })

def pkill (fuel : Nat) (m : Machine) (pid : Int) : Except Stop Machine := do
  let m ← removeScreen fuel m pid
  let (_, m) ← loadScreen fuel m (← getParentPid fuel m.kernel pid)
  return { m with kernel := ← removeProcess fuel m.kernel pid }

end BasicKernel
