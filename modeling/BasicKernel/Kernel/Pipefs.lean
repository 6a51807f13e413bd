import BasicKernel.Kernel.Scheduler

set_option autoImplicit false

/-! # `pipefs.c`

Pipes, with the two functions of `myStdLib.c` that write their names. Characters are bytes.

The buffer of a pipe is cleared when the pipe is made, and a free cell is told by its 0. What the
transfers do is proved in `Pipes/Fifo.lean`.
-/

namespace BasicKernel

open Linked

def NAME_SIZE : Nat := 50

def PIPE_BUF_SIZE : Nat := 4096

/-! ## `myStdLib.c` -/

/-- The loop of `intLength`. -/
def countDigits : Nat → Int → Int → Except Stop Int
  | 0, _, _ => .error .outOfFuel
  | fuel + 1, number, length =>
      if number = 0 then .ok length else countDigits fuel (number.tdiv 10) (length + 1)

def intLength (fuel : Nat) (number : Int) : Except Stop Int := countDigits fuel number 0

/-- `n + '0'`, converted to `char`. -/
def digit (n : Int) : UInt8 := UInt8.ofNat (toUInt64 (n + 48))

/-- A `char` as a number. It is signed. -/
def charValue (c : UInt8) : Int := if c < 128 then c.toNat else (c.toNat : Int) - 256

/-- The loop of `itoa`. -/
def writeDigits (str : Addr) : Nat → Kernel → Int → Except Stop Kernel
  | 0, k, _ => .ok k
  | aux + 1, k, value => do
      let k ← k.setChar (str + aux) (digit (value.tmod 10))
      writeDigits str aux k (value.tdiv 10)

def itoa (fuel : Nat) (k : Kernel) (value : Int) (str : Addr) : Except Stop (Int × Kernel) := do
  let length ← intLength fuel value
  -- zero has no digits: the end of the numeral is then stored over this one
  let k ← if length = 0 then do (← k.setChar str (digit 0)).setChar (str + 1) 0 else pure k
  let k ← k.setChar (str + length.toNat) 0
  let k ← writeDigits str length.toNat k value
  return (length, k)

/-! ## Creation

A pipe has three pages: for the node, the name and the buffer. Its name is made of the two pids
with `-` between them, and the node goes to the end of the list without a look at the names that
are there. -/

def createName (fuel : Nat) (k : Kernel) (fromPid toPid : Int) (name : Addr) :
    Except Stop Kernel := do
  let (i, k) ← itoa fuel k fromPid name
  let k ← k.setChar (name + i.toNat) 45 -- '-'
  let (_, k) ← itoa fuel k toPid (name + i.toNat + 1)
  return k

/-- The loop that clears the buffer. -/
def clearBuffer (buffer : Addr) : Nat → Kernel → Nat → Except Stop Kernel
  | 0, k, _ => .ok k
  | n + 1, k, i => do clearBuffer buffer n (← k.setChar (buffer + i) 0) (i + 1)

def createPipe (fuel : Nat) (k : Kernel) (fromPid toPid : Int) : Except Stop (Addr × Kernel) := do
  let (pipe, k) ← k.allocate PIPE_NODE_SIZE
  let (name, k) ← k.allocate NAME_SIZE
  let k ← k.modifyPipe pipe fun n => { n with name := name }
  let k ← createName fuel k fromPid toPid name
  let (buffer, k) ← k.allocate PIPE_BUF_SIZE
  let k ← k.modifyPipe pipe fun n => { n with buffer := buffer }
  let k ← clearBuffer buffer PIPE_BUF_SIZE k 0
  let k ← k.modifyPipe pipe fun n => { n with readPointer := buffer }
  let k ← k.modifyPipe pipe fun n => { n with writePointer := buffer }
  return (pipe, k)

def pipeLink : Link where
  next k p := (k.pipe p).next
  setNext k p v := { k with pipe := Function.update k.pipe p { k.pipe p with next := v } }
  next_setNext k p v := by
    funext q
    by_cases hq : q = p
    · subst hq; simp
    · simp [hq]
  setNext_next k p := by simp

def addPipeToList (fuel : Nat) (k : Kernel) (list pipe : Addr) : Except Stop (Addr × Kernel) :=
  addLast pipeLink (fun k => .ok (pipe, k)) fuel k list

def do_pipe (fuel : Nat) (k : Kernel) (fromPid toPid : Int) : Except Stop (Addr × Kernel) := do
  let (pipe, k) ← createPipe fuel k fromPid toPid
  let (list, k) ← addPipeToList fuel k k.pipeList pipe
  return ((← load k.pipe pipe).name, { k with pipeList := list })

/-! ## Lookup

A pipe is found by its name, and the receiver is read back out of it. All loops go along strings
and stop at a terminator. -/

def equalName : Nat → Kernel → Addr → Addr → Except Stop Bool
  | 0, _, _, _ => .error .outOfFuel
  | fuel + 1, k, str1, str2 => do
      let c1 ← load k.char str1
      let c2 ← load k.char str2
      if c1 ≠ 0 ∧ c1 = c2 then equalName fuel k (str1 + 1) (str2 + 1) else return c1 = c2

def getPipe (fuel : Nat) (k : Kernel) (name : Addr) : Except Stop Addr :=
  walkWhile .outOfFuel
    (fun current => if current = NULL then .ok false
      else do return !(← equalName fuel k name (k.pipe current).name))
    (fun current => do return (← load k.pipe current).next)
    fuel k.pipeList

/-- The loop that looks for the separator. It ends behind it. -/
def skipSender : Nat → Kernel → Addr → Except Stop Addr
  | 0, _, _ => .error .outOfFuel
  | fuel + 1, k, p => do
      if (← load k.char p) ≠ 45 then skipSender fuel k (p + 1) else return p + 1

/-- The loop that reads the receiver. -/
def readPid : Nat → Kernel → Addr → Int → Except Stop Int
  | 0, _, _, _ => .error .outOfFuel
  | fuel + 1, k, p, pid => do
      let c ← load k.char p
      if c = 0 then return pid else readPid fuel k (p + 1) (pid * 10 + (charValue c - 48))

def getReceiverPid (fuel : Nat) (k : Kernel) (name : Addr) : Except Stop Int := do
  readPid fuel k (← skipSender fuel k name) 0

def pointerPosition (currentPointer buffer : Addr) : Addr :=
  if currentPointer = buffer + PIPE_BUF_SIZE then buffer else currentPointer

/-! ## Transfer

Both loops move a pointer of the pipe behind every byte. A free cell holds 0, which is how the
writer sees that there is room and the reader that there is nothing more. -/

/-- The loop of `writeToPipe`. -/
def sendChars (fuel : Nat) (pipe : Addr) (pid : Int) : Nat → Kernel → Addr → Except Stop Kernel
  | 0, _, _ => .error .outOfFuel
  | n + 1, k, buff => do
      let c ← load k.char buff
      if c = 0 then
        return k
      let writePointer := (← load k.pipe pipe).writePointer
      -- a full buffer: the rest of the message is dropped
      if (← load k.char writePointer) ≠ 0 then
        return k
      let k ← k.setChar writePointer c
      let k ← k.modifyPipe pipe fun n => { n with writePointer := writePointer + 1 }
      let k ← unblockAllThreads fuel k pid .T_BLOCKED_PIPE
      let k ← k.modifyPipe pipe fun n =>
        { n with writePointer := pointerPosition n.writePointer n.buffer }
      sendChars fuel pipe pid n k (buff + 1)

def writeToPipe (fuel : Nat) (k : Kernel) (name buff : Addr) : Except Stop Kernel := do
  let pipe ← getPipe fuel k name
  if pipe = NULL ∨ buff = NULL then
    return k
  let pid ← getReceiverPid fuel k name
  sendChars fuel pipe pid fuel k buff

/-- The loop of `readFromPipe`. -/
def receiveChars (pipe : Addr) : Nat → Kernel → Addr → Except Stop Kernel
  | 0, _, _ => .error .outOfFuel
  | n + 1, k, buff => do
      let readPointer := (← load k.pipe pipe).readPointer
      let k ← k.setChar buff (← load k.char readPointer)
      let k ← k.setChar readPointer 0
      let k ← k.modifyPipe pipe fun n => { n with readPointer := readPointer + 1 }
      let k ← k.modifyPipe pipe fun n =>
        { n with readPointer := pointerPosition n.readPointer n.buffer }
      let p ← load k.pipe pipe
      -- the end of the message takes the place of the first free byte
      if p.readPointer ≠ p.writePointer then receiveChars pipe n k (buff + 1)
      else k.setChar p.readPointer 0

def readFromPipe (fuel : Nat) (k : Kernel) (name buff : Addr) : Except Stop Kernel := do
  let pipe ← getPipe fuel k name
  if pipe = NULL ∨ buff = NULL then
    return k
  if (← load k.char (← load k.pipe pipe).readPointer) = 0 then
    let pid ← getReceiverPid fuel k name
    -- `BLOCKED_PIPE` and `T_BLOCKED_PIPE` are the same number
    blockThread fuel k pid (← getCurrentPthread k) .T_BLOCKED_PIPE
  else receiveChars pipe fuel k buff

end BasicKernel
