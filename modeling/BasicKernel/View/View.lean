import BasicKernel.View.Owns

set_option autoImplicit false

/-! # What the kernel's memory represents

A `View` is what the scheduler and the lock modules are about: the processes in ring order, each
with its threads in ring order and its heap blocks, and the locks with their waiting threads.
`Rep k V` says that the memory of `k` holds the view `V`: the rings and lists close, every node
points to the structure it stands for, every object owns its pages, and the processes in the ring
are those that were created and not freed.
-/

namespace BasicKernel

open Linked

structure ThreadView where
  lib : Addr
  addr : Addr
  val : ThreadNode

structure HeapView where
  addr : Addr
  address : Addr
  size : Int

structure ProcessView where
  node : Addr
  addr : Addr
  val : ProcessNode
  threads : List ThreadView
  heap : List HeapView

structure WaiterView where
  addr : Addr
  pid : Int
  pthread : Int

structure LockView where
  addr : Addr
  id : Int
  status : Int
  waiters : List WaiterView

/-- `table` lists the processes from the head of the ring on, `current` is the ring node of the
current process. `others` are pages in use that no node of the rings and registries accounts for,
such as the names of processes. -/
@[ext] structure View where
  table : List ProcessView
  current : Addr
  ticks : Int
  queueSize : Int
  nextPid : Int
  mutexes : List LockView
  mutexCounter : Int
  semaphores : List LockView
  semaphoreCounter : Int
  others : List (Addr × Nat)

/-! ## Owned pages

The pages that an object was given, as pairs of a pointer and the size that was asked for. The
block of a stack begins at the pointer, although the stack itself is below it. -/

def STACK_SIZE : Nat := PAGE_SIZE * NUMBER_OF_PAGES

def ThreadView.blocks (t : ThreadView) : List (Addr × Nat) :=
  [(t.val.baseStack, STACK_SIZE), (t.addr, PAGE_SIZE), (t.lib, PAGE_SIZE)]

def HeapView.blocks (h : HeapView) : List (Addr × Nat) :=
  [(h.address, toUInt64 h.size), (h.addr, HEAP_NODE_SIZE)]

def ProcessView.blocks (p : ProcessView) : List (Addr × Nat) :=
  p.threads.flatMap ThreadView.blocks ++ p.heap.flatMap HeapView.blocks ++
    [(p.addr, PAGE_SIZE), (p.node, PAGE_SIZE)]

def WaiterView.block (w : WaiterView) : Addr × Nat := (w.addr, BLOCKED_THREAD_NODE_SIZE)

def LockView.blocks (l : LockView) : List (Addr × Nat) :=
  (l.addr, LOCK_NODE_SIZE) :: l.waiters.map WaiterView.block

def View.blocks (V : View) : List (Addr × Nat) :=
  V.table.flatMap ProcessView.blocks ++ V.mutexes.flatMap LockView.blocks ++
    V.semaphores.flatMap LockView.blocks ++ V.others

/-! ## Representation

Each structure of the view is in memory at its address, with the fields that it is given, and the
pointers between the structures are the rings and lists of the view. -/

/-- The successor in the ring of processes. -/
def Kernel.nextNode (k : Kernel) (n : Addr) : Addr := (k.schedulerNode n).next

/-- The successor in a ring of threads. -/
def Kernel.nextLib (k : Kernel) (l : Addr) : Addr := (k.threadLibrary l).next

/-- The successor in a wait list. -/
def Kernel.nextWaiter (k : Kernel) (w : Addr) : Addr := (k.blockedThread w).next

structure RepThread (k : Kernel) (t : ThreadView) : Prop where
  lib_ne : t.lib ≠ NULL
  addr_ne : t.addr ≠ NULL
  thread : (k.threadLibrary t.lib).thread = t.addr
  val : k.thread t.addr = t.val

structure RepHeap (k : Kernel) (h : HeapView) : Prop where
  address : (k.heapNode h.addr).address = h.address
  size : (k.heapNode h.addr).size = h.size

/-- The process is in memory, with its ring of threads and the list of its heap blocks. -/
structure RepProcess (k : Kernel) (p : ProcessView) : Prop where
  node_ne : p.node ≠ NULL
  addr_ne : p.addr ≠ NULL
  process : (k.schedulerNode p.node).process = p.addr
  val : k.process p.addr = p.val
  ring : Ring k.nextLib p.val.threadLibrary (p.threads.map ThreadView.lib)
  threads : ∀ t ∈ p.threads, RepThread k t
  current : p.val.currentThread ∈ p.threads.map ThreadView.lib
  heap : heapLink.IsList k p.val.heap (p.heap.map HeapView.addr)
  blocks : ∀ h ∈ p.heap, RepHeap k h

structure RepWaiter (k : Kernel) (w : WaiterView) : Prop where
  pid : (k.blockedThread w.addr).pid = w.pid
  pthread : (k.blockedThread w.addr).pthread = w.pthread

structure RepLock (k : Kernel) (l : LockView) : Prop where
  id : (k.lock l.addr).id = l.id
  status : (k.lock l.addr).status = l.status
  list : Chain k.nextWaiter NULL (k.lock l.addr).blockedThreadList
    (l.waiters.map WaiterView.addr)
  waiters : ∀ w ∈ l.waiters, RepWaiter k w

/-- A registry of locks. -/
structure RepLocks (k : Kernel) (list : Addr) (locks : List LockView) : Prop where
  list : lockLink.IsList k list (locks.map LockView.addr)
  locks : ∀ l ∈ locks, RepLock k l

structure Rep (k : Kernel) (V : View) : Prop where
  queue : Ring k.nextNode k.processQueue (V.table.map ProcessView.node)
  processes : ∀ p ∈ V.table, RepProcess k p
  current : k.currentProcess = V.current
  ticks : k.numberOfTicks = V.ticks
  queueSize : k.queueSize = V.queueSize
  nextPid : k.currentPid = V.nextPid
  mutexes : RepLocks k k.mutexList V.mutexes
  mutexCounter : k.mutexCounter = V.mutexCounter
  semaphores : RepLocks k k.semaphoreList V.semaphores
  semaphoreCounter : k.semaphoreCounter = V.semaphoreCounter
  owns : Owns k.memory V.blocks
  created : k.processes.Perm (V.table.map ProcessView.addr)
  freedOnce : k.freedTwice = false

/-! ## Well-formed values

The numbers that the kernel relies on, without the pointers: the pids are distinct and below the
counter, and the counters count what they are for. -/

/-- The numbers of a process: the first thread of the ring is number `0` and is never killed. -/
structure ProcessView.Ok (p : ProcessView) : Prop where
  size_le : p.val.threadSize ≤ p.threads.length
  pthreads : (p.threads.map (·.val.pthread)).Nodup
  pthread_lt : ∀ t ∈ p.threads, 0 ≤ t.val.pthread ∧ t.val.pthread < p.val.currentPThread
  main : ∃ t ts, p.threads = t :: ts ∧ t.val.pthread = 0 ∧ t.val.state ≠ .T_DEAD

/-- The number of processes that are not dead. -/
def View.alive (V : View) : Nat := V.table.countP (·.val.state ≠ .DEAD)

/-- The numbers of a view: the first process of the ring is number `0` and is never killed. -/
structure View.Numbered (V : View) : Prop where
  processes : ∀ p ∈ V.table, p.Ok
  pids : (V.table.map (·.val.pid)).Nodup
  pid_lt : ∀ p ∈ V.table, 0 ≤ p.val.pid ∧ p.val.pid < V.nextPid
  main : ∃ p ps, V.table = p :: ps ∧ p.val.pid = 0 ∧ p.val.state ≠ .DEAD
  queueSize_le : V.queueSize ≤ V.alive

/-- The numbers of a view between two events. -/
structure View.Ok (V : View) : Prop extends View.Numbered V where
  current : ∃ p ∈ V.table, p.node = V.current

/-! ## What the representation depends on

A store that none of these fields is in keeps the representation. -/

variable {k k' : Kernel} {V : View}

theorem RepThread.congr {t : ThreadView} (h : RepThread k t)
    (hlib : (k'.threadLibrary t.lib).thread = (k.threadLibrary t.lib).thread)
    (hval : k'.thread t.addr = k.thread t.addr) : RepThread k' t :=
  ⟨h.lib_ne, h.addr_ne, hlib.trans h.thread, hval.trans h.val⟩

theorem RepProcess.congr {p : ProcessView} (h : RepProcess k p)
    (hnode : (k'.schedulerNode p.node).process = (k.schedulerNode p.node).process)
    (hval : k'.process p.addr = k.process p.addr)
    (hlib : ∀ t ∈ p.threads, k'.threadLibrary t.lib = k.threadLibrary t.lib)
    (hthread : ∀ t ∈ p.threads, k'.thread t.addr = k.thread t.addr)
    (hheap : ∀ b ∈ p.heap, k'.heapNode b.addr = k.heapNode b.addr) : RepProcess k' p := by
  refine ⟨h.node_ne, h.addr_ne, hnode.trans h.process, hval.trans h.val, h.ring.congr ?_,
    fun t ht => (h.threads t ht).congr (by rw [hlib t ht]) (hthread t ht), h.current,
    Chain.congr h.heap ?_, fun b hb => ?_⟩
  · intro x hx
    obtain ⟨t, ht, rfl⟩ := List.mem_map.mp hx
    simp only [Kernel.nextLib, hlib t ht]
  · intro x hx
    obtain ⟨b, hb, rfl⟩ := List.mem_map.mp hx
    simp only [heapLink, hheap b hb]
  · have := h.blocks b hb
    exact ⟨by rw [hheap b hb]; exact this.address, by rw [hheap b hb]; exact this.size⟩

theorem RepLock.congr {l : LockView} (h : RepLock k l)
    (hid : (k'.lock l.addr).id = (k.lock l.addr).id)
    (hstatus : (k'.lock l.addr).status = (k.lock l.addr).status)
    (hlist : (k'.lock l.addr).blockedThreadList = (k.lock l.addr).blockedThreadList)
    (hwaiter : ∀ w ∈ l.waiters, k'.blockedThread w.addr = k.blockedThread w.addr) :
    RepLock k' l := by
  refine ⟨hid.trans h.id, hstatus.trans h.status, ?_, fun w hw => ?_⟩
  · rw [hlist]
    refine h.list.congr fun x hx => ?_
    obtain ⟨w, hw, rfl⟩ := List.mem_map.mp hx
    simp only [Kernel.nextWaiter, hwaiter w hw]
  · have := h.waiters w hw
    exact ⟨by rw [hwaiter w hw]; exact this.pid, by rw [hwaiter w hw]; exact this.pthread⟩

theorem RepLocks.congr {list : Addr} {locks : List LockView} (h : RepLocks k list locks)
    (hlock : ∀ l ∈ locks, k'.lock l.addr = k.lock l.addr)
    (hwaiter : ∀ l ∈ locks, ∀ w ∈ l.waiters, k'.blockedThread w.addr = k.blockedThread w.addr) :
    RepLocks k' list locks := by
  refine ⟨Chain.congr h.list fun x hx => ?_, fun l hl => (h.locks l hl).congr ?_ ?_ ?_ (hwaiter l hl)⟩
  · obtain ⟨l, hl, rfl⟩ := List.mem_map.mp hx
    simp only [lockLink, hlock l hl]
  all_goals rw [hlock l hl]

end BasicKernel
