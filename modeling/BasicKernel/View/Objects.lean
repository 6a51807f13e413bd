import BasicKernel.View.Script

set_option autoImplicit false

/-! # The objects of the kernel

The pointers of the kernel lead from `processQueue` to the ring nodes, the processes, their threads
and heap blocks, and from the two registries to the locks and their wait lists. In every state of a run
these objects lie apart from each other, in pages that are in use, and a pointer leads to each of them
from one place only. The stacks are no such objects: `createThread` reserves a block for each, but the
stack grows down from the start of that block.
-/

namespace BasicKernel

open Linked Transition

/-- What an object is, with the nodes that the way to it goes through. -/
inductive Role where
  | schedulerNode
  | process (node : Addr)
  | threadLibrary (node : Addr)
  | thread (node lib : Addr)
  -- the block above `baseStack`, and not the stack below it
  | stackBlock (node lib : Addr)
  | heapNode (node : Addr)
  | heap (node heapNode : Addr)
  | lock (kind : LockKind)
  | blockedThread (kind : LockKind) (lock : Addr)
  deriving DecidableEq

structure Object where
  role : Role
  addr : Addr
  size : Nat

/-- The pages that hold the object, by the pointer and the size it was requested with. -/
def Object.block (x : Object) : Addr × Nat := (x.addr, x.size)

/-- The addresses of the bytes of the object. -/
def Object.bytes (x : Object) : Set Nat := Set.Ico x.addr (x.addr + x.size)

/-! ## Following the pointers

`HasObject` says which way leads to an object. There is one constructor for each kind of object,
and the way is part of the object, so that two ways to one place would be two objects. -/

section Pointers

variable (k : Kernel)

/-- `n` is a node of the ring of processes. -/
def Kernel.HasNode (n : Addr) : Prop := Reaches k.nextNode k.processQueue n

/-- `l` is a node of the ring of threads of the process at the node `n`. -/
def Kernel.HasLibrary (n l : Addr) : Prop :=
  k.HasNode n ∧ Reaches k.nextLib (k.process (k.schedulerNode n).process).threadLibrary l

/-- `b` is a node of the list of heap blocks of the process at the node `n`. -/
def Kernel.HasHeapNode (n b : Addr) : Prop :=
  k.HasNode n ∧ OnChain (heapLink.next k) NULL (k.process (k.schedulerNode n).process).heap b

/-- `l` is a lock of the registry. -/
def Kernel.HasLock (κ : LockKind) (l : Addr) : Prop :=
  OnChain (lockLink.next k) NULL (k.lockList κ) l

/-- The objects that the pointers of the kernel lead to. -/
inductive Kernel.HasObject : Object → Prop
  | schedulerNode {n : Addr} : k.HasNode n → HasObject ⟨.schedulerNode, n, PAGE_SIZE⟩
  | process {n : Addr} : k.HasNode n →
      HasObject ⟨.process n, (k.schedulerNode n).process, PAGE_SIZE⟩
  | threadLibrary {n l : Addr} : k.HasLibrary n l → HasObject ⟨.threadLibrary n, l, PAGE_SIZE⟩
  | thread {n l : Addr} : k.HasLibrary n l →
      HasObject ⟨.thread n l, (k.threadLibrary l).thread, PAGE_SIZE⟩
  | stackBlock {n l : Addr} : k.HasLibrary n l →
      HasObject ⟨.stackBlock n l, (k.thread (k.threadLibrary l).thread).baseStack, STACK_SIZE⟩
  | heapNode {n b : Addr} : k.HasHeapNode n b → HasObject ⟨.heapNode n, b, HEAP_NODE_SIZE⟩
  | heap {n b : Addr} : k.HasHeapNode n b →
      HasObject ⟨.heap n b, (k.heapNode b).address, toUInt64 (k.heapNode b).size⟩
  | lock {κ : LockKind} {l : Addr} : k.HasLock κ l → HasObject ⟨.lock κ, l, LOCK_NODE_SIZE⟩
  | blockedThread {κ : LockKind} {l w : Addr} : k.HasLock κ l →
      OnChain k.nextWaiter NULL (k.lock l).blockedThreadList w →
      HasObject ⟨.blockedThread κ l, w, BLOCKED_THREAD_NODE_SIZE⟩

end Pointers

/-! ## The objects of a view

The blocks of a view and its objects are the same pages, listed in the same order. -/

def ThreadView.objects (n : Addr) (t : ThreadView) : List Object :=
  [⟨.stackBlock n t.lib, t.val.baseStack, STACK_SIZE⟩, ⟨.thread n t.lib, t.addr, PAGE_SIZE⟩,
    ⟨.threadLibrary n, t.lib, PAGE_SIZE⟩]

def HeapView.objects (n : Addr) (h : HeapView) : List Object :=
  [⟨.heap n h.addr, h.address, toUInt64 h.size⟩, ⟨.heapNode n, h.addr, HEAP_NODE_SIZE⟩]

def ProcessView.objects (p : ProcessView) : List Object :=
  p.threads.flatMap (ThreadView.objects p.node) ++ p.heap.flatMap (HeapView.objects p.node) ++
    [⟨.process p.node, p.addr, PAGE_SIZE⟩, ⟨.schedulerNode, p.node, PAGE_SIZE⟩]

def LockView.objects (κ : LockKind) (l : LockView) : List Object :=
  ⟨.lock κ, l.addr, LOCK_NODE_SIZE⟩ ::
    l.waiters.map fun w => ⟨.blockedThread κ l.addr, w.addr, BLOCKED_THREAD_NODE_SIZE⟩

def View.objects (V : View) : List Object :=
  V.table.flatMap ProcessView.objects ++ V.mutexes.flatMap (LockView.objects .mutex) ++
    V.semaphores.flatMap (LockView.objects .semaphore)

theorem map_block_flatMap {α : Type} {f : α → List Object} {g : α → List (Addr × Nat)}
    (h : ∀ x, (f x).map Object.block = g x) (xs : List α) :
    (xs.flatMap f).map Object.block = xs.flatMap g := by
  rw [List.map_flatMap]
  exact List.flatMap_congr fun x _ => h x

theorem ProcessView.map_block_objects (p : ProcessView) :
    p.objects.map Object.block = p.blocks := by
  simp only [ProcessView.objects, ProcessView.blocks, List.map_append]
  rw [map_block_flatMap (fun t => rfl), map_block_flatMap (fun h => rfl)]
  rfl

theorem LockView.map_block_objects (κ : LockKind) (l : LockView) :
    (l.objects κ).map Object.block = l.blocks := by
  simp only [LockView.objects, LockView.blocks, List.map_cons, List.map_map]
  rfl

/-- The objects are what the view accounts for. -/
theorem View.blocks_eq_objects (V : View) : V.blocks = V.objects.map Object.block ++ V.others := by
  simp only [View.blocks, View.objects, List.map_append]
  rw [map_block_flatMap ProcessView.map_block_objects,
    map_block_flatMap (LockView.map_block_objects .mutex),
    map_block_flatMap (LockView.map_block_objects .semaphore)]

variable {k : Kernel} {V : View} {p : ProcessView} {t : ThreadView} {b : HeapView} {l : LockView}
  {κ : LockKind} {n : Addr} {x y : Object}

theorem View.mem_objects_of_process (hp : p ∈ V.table) (hx : x ∈ p.objects) : x ∈ V.objects :=
  List.mem_append_left _ (List.mem_append_left _ (List.mem_flatMap.mpr ⟨p, hp, hx⟩))

theorem View.mem_objects_of_thread (hp : p ∈ V.table) (ht : t ∈ p.threads)
    (hx : x ∈ t.objects p.node) : x ∈ V.objects :=
  V.mem_objects_of_process hp
    (List.mem_append_left _ (List.mem_append_left _ (List.mem_flatMap.mpr ⟨t, ht, hx⟩)))

theorem View.mem_objects_of_heap (hp : p ∈ V.table) (hb : b ∈ p.heap) (hx : x ∈ b.objects p.node) :
    x ∈ V.objects :=
  V.mem_objects_of_process hp
    (List.mem_append_left _ (List.mem_append_right _ (List.mem_flatMap.mpr ⟨b, hb, hx⟩)))

theorem View.mem_objects_of_lock (hl : l ∈ V.locks κ) (hx : x ∈ l.objects κ) : x ∈ V.objects := by
  cases κ with
  | mutex =>
      exact List.mem_append_left _ (List.mem_append_right _ (List.mem_flatMap.mpr ⟨l, hl, hx⟩))
  | semaphore => exact List.mem_append_right _ (List.mem_flatMap.mpr ⟨l, hl, hx⟩)

/-! ## Every pointer leads to an object of the view

A pointer that is followed in the kernel ends at something that the view lists, and what the view
lists owns its pages. -/

namespace Rep

theorem process_of_node (hr : Rep k V) (h : k.HasNode n) : ∃ p ∈ V.table, p.node = n :=
  List.mem_map.mp (hr.queue.reaches_iff.mp h)

theorem thread_of_library {l : Addr} (hr : Rep k V) (h : k.HasLibrary n l) :
    ∃ p ∈ V.table, p.node = n ∧ ∃ t ∈ p.threads, t.lib = l := by
  obtain ⟨hn, hl⟩ := h
  obtain ⟨p, hp, rfl⟩ := hr.process_of_node hn
  have hrp := hr.processes p hp
  rw [hrp.process, hrp.val] at hl
  exact ⟨p, hp, rfl, List.mem_map.mp (hrp.ring.reaches_iff.mp hl)⟩

theorem block_of_heapNode {a : Addr} (hr : Rep k V) (h : k.HasHeapNode n a) :
    ∃ p ∈ V.table, p.node = n ∧ ∃ b ∈ p.heap, b.addr = a := by
  obtain ⟨hn, ha⟩ := h
  obtain ⟨p, hp, rfl⟩ := hr.process_of_node hn
  have hrp := hr.processes p hp
  rw [hrp.process, hrp.val] at ha
  exact ⟨p, hp, rfl, List.mem_map.mp (hrp.heap.onChain_iff.mp ha)⟩

theorem lock_of_hasLock {a : Addr} (hr : Rep k V) (h : k.HasLock κ a) :
    ∃ l ∈ V.locks κ, l.addr = a :=
  List.mem_map.mp ((hr.locks κ).list.onChain_iff.mp h)

theorem mem_objects (hr : Rep k V) (h : k.HasObject x) : x ∈ V.objects := by
  -- each pointer that the kernel follows is one that the view records
  cases h with
  | schedulerNode hn =>
      obtain ⟨p, hp, rfl⟩ := hr.process_of_node hn
      exact V.mem_objects_of_process hp (by simp [ProcessView.objects])
  | process hn =>
      obtain ⟨p, hp, rfl⟩ := hr.process_of_node hn
      rw [(hr.processes p hp).process]
      exact V.mem_objects_of_process hp (by simp [ProcessView.objects])
  | threadLibrary hl =>
      obtain ⟨p, hp, rfl, t, ht, rfl⟩ := hr.thread_of_library hl
      exact V.mem_objects_of_thread hp ht (by simp [ThreadView.objects])
  | thread hl =>
      obtain ⟨p, hp, rfl, t, ht, rfl⟩ := hr.thread_of_library hl
      rw [((hr.processes p hp).threads t ht).thread]
      exact V.mem_objects_of_thread hp ht (by simp [ThreadView.objects])
  | stackBlock hl =>
      obtain ⟨p, hp, rfl, t, ht, rfl⟩ := hr.thread_of_library hl
      have hrt := (hr.processes p hp).threads t ht
      rw [hrt.thread, hrt.val]
      exact V.mem_objects_of_thread hp ht (by simp [ThreadView.objects])
  | heapNode h =>
      obtain ⟨p, hp, rfl, b, hb, rfl⟩ := hr.block_of_heapNode h
      exact V.mem_objects_of_heap hp hb (by simp [HeapView.objects])
  | heap h =>
      obtain ⟨p, hp, rfl, b, hb, rfl⟩ := hr.block_of_heapNode h
      have hrb := (hr.processes p hp).blocks b hb
      rw [hrb.address, hrb.size]
      exact V.mem_objects_of_heap hp hb (by simp [HeapView.objects])
  | lock h =>
      obtain ⟨l, hl, rfl⟩ := hr.lock_of_hasLock h
      exact View.mem_objects_of_lock hl (by simp [LockView.objects])
  | blockedThread h hw =>
      obtain ⟨l, hl, rfl⟩ := hr.lock_of_hasLock h
      obtain ⟨v, hv, rfl⟩ := List.mem_map.mp (((hr.locks _).locks l hl).list.onChain_iff.mp hw)
      exact View.mem_objects_of_lock hl
        (List.mem_cons_of_mem _ (List.mem_map.mpr ⟨v, hv, rfl⟩))

theorem owns_objects (hr : Rep k V) : Owns k.memory (V.objects.map Object.block) :=
  hr.owns.sublist (by rw [V.blocks_eq_objects]; exact List.sublist_append_left _ _)

/-- Two objects that share a byte lie in the same pages, and these are listed once. -/
theorem object_eq (hr : Rep k V) (hx : x ∈ V.objects) (hy : y ∈ V.objects) {a : Nat}
    (ha : a ∈ x.bytes) (ha' : a ∈ y.bytes) : x = y := by
  have hblock : x.block = y.block := hr.owns_objects.eq_of_byte (List.mem_map_of_mem hx)
    (List.mem_map_of_mem hy) ha.1 ha.2 ha'.1 ha'.2
  exact List.inj_on_of_nodup_map hr.owns_objects.nodup hx hy hblock

end Rep

/-- In every state of a run the bytes of every object that the pointers of the kernel lead to are in
use, and no byte belongs to two objects or to one object that is reached in two ways. -/
theorem objects_lie_apart {a : Nat} (h : Run Sound k) (hx : k.HasObject x) (hy : k.HasObject y)
    (ha : a ∈ x.bytes) : a ≠ NULL ∧ k.Reserved a ∧ (a ∈ y.bytes → x = y) := by
  obtain ⟨V, hr, -⟩ := h.rep
  have hmem := hr.mem_objects hx
  have hbyte := hr.owns_objects.used_byte (List.mem_map_of_mem hmem) ha.1 ha.2
  have hne : a ≠ 0 := Nat.ne_of_gt (Nat.lt_of_lt_of_le hr.owns_objects.pos hbyte.1)
  exact ⟨hne, hbyte, hr.object_eq hmem (hr.mem_objects hy) ha⟩

/-- A mutex that `init` has locked and waits for: no byte of the lock is in the node of the waiter. -/
theorem objects_lie_apart_with_waiter : ∃ (k : Kernel) (x y : Object), Run Sound k ∧
    k.HasObject x ∧ k.HasObject y ∧ x.role = .lock .mutex ∧ y.role = .blockedThread .mutex k.mutexList ∧
    k.mutexList ∈ x.bytes ∧ k.Reserved k.mutexList ∧ k.mutexList ∉ y.bytes := by
  have hrun : (do
      let k ← startKernel
      let k' ← KernelOp.runSound 40 [.createMutex, .mutexDown 0, .mutexDown 0] k
      return decide (k'.mutexList ≠ NULL ∧ (k'.lock k'.mutexList).blockedThreadList ≠ NULL) :
        Except Stop Bool) = .ok true := by
    decide +kernel
  obtain ⟨k, hk, hrun⟩ := bind_eq_ok.mp hrun
  obtain ⟨k', hk', hrun⟩ := bind_eq_ok.mp hrun
  obtain ⟨hlist, hwaiter⟩ := of_decide_eq_true (Except.ok.inj hrun)
  have hreach : Run Sound k' := Run.runSound (.start (booted_of_start hk)) hk'
  have hlock : k'.HasLock .mutex k'.mutexList := OnChain.head hlist
  have hx : k'.HasObject ⟨.lock .mutex, k'.mutexList, LOCK_NODE_SIZE⟩ := .lock hlock
  have hy : k'.HasObject ⟨.blockedThread .mutex k'.mutexList, _, BLOCKED_THREAD_NODE_SIZE⟩ :=
    .blockedThread hlock (OnChain.head hwaiter)
  have ha : k'.mutexList ∈ (⟨.lock .mutex, k'.mutexList, LOCK_NODE_SIZE⟩ : Object).bytes :=
    ⟨le_rfl, Nat.lt_add_of_pos_right (show 0 < LOCK_NODE_SIZE by decide)⟩
  obtain ⟨-, hreserved, hapart⟩ := objects_lie_apart hreach hx hy ha
  refine ⟨k', _, _, hreach, hx, hy, rfl, rfl, ha, hreserved, fun hmem => ?_⟩
  cases congrArg Object.role (hapart hmem)

end BasicKernel
