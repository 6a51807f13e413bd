import BasicKernel.Kernel.Scheduler

set_option autoImplicit false

/-! # `mutex.c` and `semaphores.c`

The two files have the same registry, the same wait lists and the same wake-up loop. Each of
these is one definition here, and the functions of the two files are this definition applied to
the file's own list.

The calls run to the point where their thread waits. What happens then is an event of the
scheduler.
-/

namespace BasicKernel

open Linked

/-- `MUTEX_LOCKED` -/
def MUTEX_LOCKED : Int := 1

/-- `MUTEX_UNLOCKED` -/
def MUTEX_UNLOCKED : Int := 2

/-! ## The registry

The registry is a list in the order of creation, and the numbers are those of a counter that
wraps. A waiting thread is entered at the head of the wait list of its lock, and an up takes them
all from there. -/

def lockLink : Link where
  next k p := (k.lock p).next
  setNext k p v := { k with lock := Function.update k.lock p { k.lock p with next := v } }
  next_setNext k p v := by
    funext q
    by_cases hq : q = p
    · subst hq; simp
    · simp [hq]
  setNext_next k p := by simp

/-- `findID`, `findSemaphoreId` -/
def findLock (fuel : Nat) (k : Kernel) (list : Addr) (id : Int) : Except Stop Addr :=
  walkWhile .outOfFuel
    (fun aux => .ok (decide (aux ≠ NULL ∧ (k.lock aux).id ≠ id)))
    (fun aux => .ok (k.lock aux).next)
    fuel list

/-- `addMutex`, `addSemaphore` -/
def addLock (fuel : Nat) (k : Kernel) (list lock : Addr) : Except Stop (Addr × Kernel) :=
  addLast lockLink (fun k => .ok (lock, k)) fuel k list

/-- `destroyMutex`, `destroySemaphore` -/
def destroyLock (fuel : Nat) (k : Kernel) (list : Addr) (id : Int) :
    Except Stop (Addr × Kernel) :=
  removeFirst lockLink (fun k node => (k.lock node).id = id)
    (fun k node => k.deallocate node LOCK_NODE_SIZE) fuel k list

/-- `addThreadToMutexList`, `addThreadToSemaphoreList` -/
def addThreadToLockList (k : Kernel) (lock : Addr) (pid pthread : Int) : Except Stop Kernel := do
  let (node, k) ← k.allocate BLOCKED_THREAD_NODE_SIZE
  let k ← k.modifyBlockedThread node fun n => { n with pid := pid }
  let k ← k.modifyBlockedThread node fun n => { n with pthread := pthread }
  let first := (← load k.lock lock).blockedThreadList
  -- the new node is the first of the list
  let k ← k.modifyBlockedThread node fun n => { n with next := first }
  k.modifyLock lock fun n => { n with blockedThreadList := node }

/-- The loop of `unlockProcesses` and of `unlockSemaphoreProcess`: every waiting thread is
unblocked and the wait list is freed. -/
def unlockAll (fuel : Nat) (lock : Addr) : Nat → Kernel → Except Stop Kernel
  | 0, _ => .error .outOfFuel
  | n + 1, k => do
      let first := (← load k.lock lock).blockedThreadList
      if first = NULL then
        return k
      let node ← load k.blockedThread first
      -- every waiter is woken, and none of them is given the lock
      let k ← unblockThread fuel k node.pid node.pthread .T_BLOCKED_MUTEX
      let k ← k.deallocate (← load k.lock lock).blockedThreadList BLOCKED_THREAD_NODE_SIZE
      let k ← k.modifyLock lock fun l => { l with blockedThreadList := node.next }
      unlockAll fuel lock n k

/-- The part of a request for access that finds the lock taken: the current thread is entered
into the wait list and blocked. -/
def waitForLock (fuel : Nat) (k : Kernel) (lock : Addr) : Except Stop Kernel := do
  let currentPid ← getCurrentPid k
  let currentPthread ← getCurrentPthread k
  let k ← addThreadToLockList k lock currentPid currentPthread
  blockThread fuel k currentPid currentPthread .T_BLOCKED_MUTEX

/-! ## `mutex.c`

A down blocks its caller while the mutex is locked and locks it otherwise. An up unlocks the mutex
whatever it was and wakes everybody who waits, who do not ask again. -/

def findID (fuel : Nat) (k : Kernel) (id : Int) : Except Stop Addr := findLock fuel k k.mutexList id

def createMutex (fuel : Nat) (k : Kernel) : Except Stop (Int × Kernel) := do
  let (mutex, k) ← k.allocate LOCK_NODE_SIZE
  let id := k.mutexCounter
  let k := { k with mutexCounter := toInt32 (k.mutexCounter + 1) }
  let k ← k.modifyLock mutex fun n => { n with id := id }
  let k ← k.modifyLock mutex fun n => { n with status := MUTEX_UNLOCKED }
  let (list, k) ← addLock fuel k k.mutexList mutex
  return ((← load k.lock mutex).id, { k with mutexList := list })

def updateStatus (fuel : Nat) (k : Kernel) (id mutexStatus : Int) : Except Stop Kernel := do
  let mutex ← findID fuel k id
  if mutex ≠ NULL then
    k.modifyLock mutex fun n => { n with status := mutexStatus }
  else return k

/-- The answer `-1` for an unknown mutex counts as locked. -/
def isLocked (fuel : Nat) (k : Kernel) (id : Int) : Except Stop Bool := do
  let mutex ← findID fuel k id
  if mutex = NULL then
    return true
  return (k.lock mutex).status = MUTEX_LOCKED

def unlockProcesses (fuel : Nat) (k : Kernel) (id : Int) : Except Stop Kernel := do
  unlockAll fuel (← findID fuel k id) fuel k

def mutexUp (fuel : Nat) (k : Kernel) (id : Int) : Except Stop Kernel := do
  let k ← updateStatus fuel k id MUTEX_UNLOCKED
  unlockProcesses fuel k id

def mutexRequestAccess (fuel : Nat) (k : Kernel) (id : Int) : Except Stop (Bool × Kernel) := do
  let mutex ← findID fuel k id
  if ← isLocked fuel k id then
    return (false, ← waitForLock fuel k mutex)
  return (true, k)

def mutexDown (fuel : Nat) (k : Kernel) (id : Int) : Except Stop Kernel := do
  let (access, k) ← mutexRequestAccess fuel k id
  -- a caller that had to wait goes on, once it is awake, without setting the status
  if access then updateStatus fuel k id MUTEX_LOCKED else return k

def mutexDestroy (fuel : Nat) (k : Kernel) (id : Int) : Except Stop Kernel := do
  let (list, k) ← destroyLock fuel k k.mutexList id
  return { k with mutexList := list }

/-! ## `semaphores.c`

The status is counted down first and tested then, so that a negative status is the number of the
waiting threads. An up from a negative status wakes all of them. -/

def findSemaphoreId (fuel : Nat) (k : Kernel) (id : Int) : Except Stop Addr :=
  findLock fuel k k.semaphoreList id

def createSemaphore (fuel : Nat) (k : Kernel) (start : Int) : Except Stop (Int × Kernel) := do
  let (semaphore, k) ← k.allocate LOCK_NODE_SIZE
  let id := k.semaphoreCounter
  let k := { k with semaphoreCounter := toInt32 (k.semaphoreCounter + 1) }
  let k ← k.modifyLock semaphore fun n => { n with id := id }
  let k ← k.modifyLock semaphore fun n => { n with status := start }
  let (list, k) ← addLock fuel k k.semaphoreList semaphore
  return ((← load k.lock semaphore).id, { k with semaphoreList := list })

/-- `delta` is `1` for `SEMAPHORE_UP` and `-1` for `SEMAPHORE_DOWN`. -/
def updateSemaphoreStatus (fuel : Nat) (k : Kernel) (id delta : Int) : Except Stop Kernel := do
  let semaphore ← findSemaphoreId fuel k id
  if semaphore = NULL then
    return k
  k.modifyLock semaphore fun n => { n with status := toInt32 (n.status + delta) }

/-- The answer `-1` for an unknown semaphore counts as locked. -/
def isSemaphoreLocked (fuel : Nat) (k : Kernel) (id : Int) : Except Stop Bool := do
  let semaphore ← findSemaphoreId fuel k id
  if semaphore = NULL then
    return true
  return (k.lock semaphore).status < 0

def unlockSemaphoreProcess (fuel : Nat) (k : Kernel) (id : Int) : Except Stop Kernel := do
  unlockAll fuel (← findSemaphoreId fuel k id) fuel k

def semaphoreUp (fuel : Nat) (k : Kernel) (id : Int) : Except Stop Kernel := do
  let k ← updateSemaphoreStatus fuel k id 1
  -- the waiters are left asleep while the status is negative
  if ← isSemaphoreLocked fuel k id then return k else unlockSemaphoreProcess fuel k id

def semaphoreRequestAccess (fuel : Nat) (k : Kernel) (id : Int) :
    Except Stop (Bool × Kernel) := do
  let semaphore ← findSemaphoreId fuel k id
  if ← isSemaphoreLocked fuel k id then
    return (false, ← waitForLock fuel k semaphore)
  return (true, k)

def semaphoreDown (fuel : Nat) (k : Kernel) (id : Int) : Except Stop Kernel := do
  -- the permit is taken before the test
  let k ← updateSemaphoreStatus fuel k id (-1)
  return (← semaphoreRequestAccess fuel k id).2

def semaphoreDestroy (fuel : Nat) (k : Kernel) (id : Int) : Except Stop Kernel := do
  let (list, k) ← destroyLock fuel k k.semaphoreList id
  return { k with semaphoreList := list }

end BasicKernel
