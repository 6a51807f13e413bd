import BasicKernel.Pipes.PipeList

set_option autoImplicit false

/-! # Running out of memory

The operations that call `allocate`, with the pages that they ask for. None of them looks at the answer: a
request that is refused gives a null pointer, and the next store goes through it. Only the block of `pmalloc`
is not stored through.

`failure_reported_iff` says for all six operations and any arguments that a refusal is reported
exactly if there is none. `huge_block_listed` is a block that `pmalloc` does not get and puts into
its list.
-/

namespace BasicKernel

open Linked Fuel Transition

/-- The operations that call `allocate`. -/
inductive AllocOp where
  | addProcess (exec entryPoint name : Addr)
  | addThreadToProcess (pid : Int) (exec entryPoint : Addr)
  | createMutex
  | createSemaphore (start : Int)
  | do_pipe (fromPid toPid : Int)
  | pmalloc (nBytes : Int)

namespace AllocOp

/-- The result, and the kernel behind the call. -/
def run (fuel : Nat) (k : Kernel) : AllocOp → Except Stop (Int × Kernel)
  | addProcess exec entryPoint name => BasicKernel.addProcess fuel k exec entryPoint name
  | addThreadToProcess pid exec entryPoint => BasicKernel.addThreadToProcess fuel k pid exec entryPoint
  | createMutex => BasicKernel.createMutex fuel k
  | createSemaphore start => BasicKernel.createSemaphore fuel k start
  | do_pipe fromPid toPid => do
      let (name, k) ← BasicKernel.do_pipe fuel k fromPid toPid
      return ((name : Int), k)
  | pmalloc nBytes => do
      let (mem, k) ← BasicKernel.pmalloc fuel k nBytes
      return ((mem : Int), k)

/-- The value that would tell the caller that the operation failed. -/
def failure : AllocOp → Int
  | do_pipe _ _ => NULL
  | pmalloc _ => NULL
  | _ => -1

/-- The requests that an operation makes, one after the other. -/
def requests : AllocOp → List Nat
  | addProcess _ _ _ => [PAGE_SIZE, NAME_LENGTH, PAGE_SIZE, PAGE_SIZE, STACK_SIZE, PAGE_SIZE]
  | addThreadToProcess _ _ _ => [PAGE_SIZE, STACK_SIZE, PAGE_SIZE]
  | createMutex => [LOCK_NODE_SIZE]
  | createSemaphore _ => [LOCK_NODE_SIZE]
  | do_pipe _ _ => [PIPE_NODE_SIZE, NAME_SIZE, PIPE_BUF_SIZE]
  | pmalloc nBytes => [toUInt64 nBytes, HEAP_NODE_SIZE]

/-- One of the requests is refused. For a process that does not exist `addThreadToProcess` makes none. -/
def Refused (k : Kernel) (op : AllocOp) : Prop :=
  (∀ pid exec entryPoint, op = addThreadToProcess pid exec entryPoint → ∃ s, k.ProcessIs pid s) ∧
    ∃ answers m, serve op.requests k.memory = .ok (answers, m) ∧ none ∈ answers

end AllocOp

/-- What a failed operation must leave as it was. -/
structure Kernel.Untouched (k k' : Kernel) : Prop where
  pages : usedBlocks k'.memory = usedBlocks k.memory
  processes : ∀ nodes, Ring k.nextNode k.processQueue nodes → Ring k'.nextNode k'.processQueue nodes
  threads : ∀ process libs, Ring k.nextLib (k.process process).threadLibrary libs →
    Ring k'.nextLib (k'.process process).threadLibrary libs
  locks : ∀ (κ : LockKind) locks, lockLink.IsList k (k.lockList κ) locks →
    lockLink.IsList k' (k'.lockList κ) locks
  pipes : ∀ pipes, pipeLink.IsList k k.pipeList pipes → pipeLink.IsList k' k'.pipeList pipes
  heap : ∀ process nodes, k.currentProcessNode = .ok process →
    heapLink.IsList k (k.process process).heap nodes → heapLink.IsList k' (k'.process process).heap nodes

/-- Where a request is refused, the operation returns the value for a failure and changes nothing. -/
def AllocOp.Reports (k : Kernel) (op : AllocOp) : Prop :=
  op.Refused k → ∃ k', Returns (op.run · k) (op.failure, k') ∧ k.Untouched k'

variable {k k' : Kernel} {V : View} {fuel : Nat} {m m' : MemoryManager}

/-! ## Answers

`Served m sizes ps m'` says that every request of `sizes` was answered with a block, at the
addresses `ps`. Then none of them was refused. -/

theorem Served.none_notMem {sizes : List Nat} {ps : List Addr} {answers : List (Option Addr)}
    (h : Served m sizes ps m') {m₁ : MemoryManager} (h' : serve sizes m = .ok (answers, m₁)) :
    none ∉ answers := by
  obtain ⟨rfl, -⟩ := Prod.mk.inj (Except.ok.inj (h.symm.trans h'))
  intro hnone
  obtain ⟨p, -, hp⟩ := List.mem_map.mp hnone
  cases hp

/-- A block that is not the null pointer was served. -/
theorem Kernel.allocate_served {size : Nat} {p : Addr} (h : k.allocate size = .ok (p, k')) (hp : p ≠ NULL) :
    Served k.memory [size] [p] k'.memory := by
  have hk : k' = { k with memory := k'.memory } := by
    obtain ⟨⟨r, m⟩, -, h⟩ := bind_eq_ok.mp h
    obtain ⟨-, rfl⟩ := Prod.mk.inj (Except.ok.inj h)
    rfl
  rw [hk] at h
  exact .of_allocate h hp

/-! ## Operations that return were served

Each operation stores through what it was given. A store through the null pointer is an error, so
an operation that returned was given a page for every one of these requests. -/

theorem Kernel.setChar_memory {p : Addr} {c : UInt8} (h : k.setChar p c = .ok k') :
    k'.memory = k.memory := by
  obtain ⟨char, rfl⟩ := Kernel.setChar_inv h
  rfl

theorem writeDigits_memory {str : Addr} {n : Nat} {value : Int}
    (h : writeDigits str n k value = .ok k') : k'.memory = k.memory := by
  induction n generalizing k value with
  | zero =>
      obtain rfl := Except.ok.inj h
      rfl
  | succ n ih =>
      obtain ⟨k₁, hset, h⟩ := bind_eq_ok.mp h
      exact (ih h).trans (Kernel.setChar_memory hset)

theorem itoa_memory {str : Addr} {value length : Int}
    (h : itoa fuel k value str = .ok (length, k')) : k'.memory = k.memory := by
  obtain ⟨l, -, h⟩ := bind_eq_ok.mp h
  have hrest : ∀ {k₁ : Kernel}, (do
      let k ← k₁.setChar (str + l.toNat) 0
      let k ← writeDigits str l.toNat k value
      pure (l, k)) = .ok (length, k') → k'.memory = k₁.memory := by
    intro k₁ h
    obtain ⟨k₂, hset, h⟩ := bind_eq_ok.mp h
    obtain ⟨k₃, hdigits, h⟩ := bind_eq_ok.mp h
    obtain ⟨-, rfl⟩ := Prod.mk.inj (Except.ok.inj h)
    exact (writeDigits_memory hdigits).trans (Kernel.setChar_memory hset)
  dsimp only at h
  split at h
  · obtain ⟨k₀, h₀, h⟩ := bind_eq_ok.mp h
    obtain ⟨k₁, h₁, h⟩ := bind_eq_ok.mp h
    have hmemory := (Kernel.setChar_memory h₁).trans (Kernel.setChar_memory h₀)
    exact (hrest h).trans hmemory
  · exact hrest h

theorem createName_memory {fromPid toPid : Int} {name : Addr}
    (h : createName fuel k fromPid toPid name = .ok k') : k'.memory = k.memory := by
  obtain ⟨⟨i, k₁⟩, h₁, h⟩ := bind_eq_ok.mp h
  obtain ⟨k₂, h₂, h⟩ := bind_eq_ok.mp h
  obtain ⟨⟨j, k₃⟩, h₃, h⟩ := bind_eq_ok.mp h
  obtain rfl := Except.ok.inj h
  calc k₃.memory
      = k₂.memory := itoa_memory h₃
    _ = k₁.memory := Kernel.setChar_memory h₂
    _ = k.memory := itoa_memory h₁

theorem do_pipe_served {fromPid toPid : Int} {r : Addr} (h : do_pipe fuel k fromPid toPid = .ok (r, k')) :
    ∃ ps m, Served k.memory [PIPE_NODE_SIZE, NAME_SIZE, PIPE_BUF_SIZE] ps m := by
  obtain ⟨⟨pipe, k₀⟩, h, -⟩ := bind_eq_ok.mp h
  obtain ⟨name, buffer, k₁, k₂, k₃, k₄, k₅, hpipe, h₁, h₂, hname, h₄, hclear, -⟩ := createPipe_cases h
  have hserved₄ := Kernel.allocate_served h₄ (clearBuffer_ne hclear)
  rw [createName_memory hname] at hserved₄
  have hserved₂ := Kernel.allocate_served h₂ (createName_ne hname)
  exact ⟨_, _, ((Kernel.allocate_served h₁ hpipe).append hserved₂).append hserved₄⟩

theorem Kernel.modifyLock_ne {p : Addr} {f : LockNode → LockNode} (h : k.modifyLock p f = .ok k') :
    p ≠ NULL := by
  rintro rfl
  rw [Kernel.modifyLock, modify_null] at h
  cases h

/-! ### The heap

`pmalloc` stores nothing in the block itself, only in the node that it takes for it. -/

/-- What `addLast` ends with. -/
theorem addLast_heap {tail : Kernel → Except Stop (Addr × Kernel)} {p r : Addr}
    (h : addLast heapLink tail fuel k p = .ok (r, k')) :
    ∃ n k₁, tail k = .ok (n, k₁) ∧ k'.memory = k₁.memory := by
  induction fuel generalizing p r k' with
  | zero => cases h
  | succ fuel ih =>
      rw [addLast] at h
      split at h
      · exact ⟨r, k', h, rfl⟩
      · obtain ⟨⟨next, k₂⟩, hnext, h⟩ := bind_eq_ok.mp h
        obtain ⟨-, rfl⟩ := Prod.mk.inj (Except.ok.inj h)
        obtain ⟨n, k₁, htail, hmemory⟩ := ih hnext
        exact ⟨n, k₁, htail, hmemory⟩

/-- The node of a block takes a page, whatever the block is. -/
theorem addHeap_served {node mem r : Addr} {nBytes : Int} (h : addHeap fuel k node mem nBytes = .ok (r, k')) :
    ∃ q, Served k.memory [HEAP_NODE_SIZE] [q] k'.memory := by
  obtain ⟨n, k₁, htail, hmemory⟩ := addLast_heap h
  obtain ⟨⟨q, k₂⟩, hall, htail⟩ := bind_eq_ok.mp htail
  obtain ⟨k₃, h₃, htail⟩ := bind_eq_ok.mp htail
  obtain ⟨k₄, h₄, htail⟩ := bind_eq_ok.mp htail
  obtain ⟨-, rfl⟩ := Prod.mk.inj (Except.ok.inj htail)
  have hq : q ≠ NULL := by
    rintro rfl
    rw [Kernel.modifyHeapNode, modify_null] at h₃
    cases h₃
  rw [Kernel.modifyHeapNode_of_ne hq] at h₃ h₄
  obtain rfl := Except.ok.inj h₃
  obtain rfl := Except.ok.inj h₄
  have hserved := Kernel.allocate_served hall hq
  refine ⟨q, ?_⟩
  rw [hmemory]
  exact hserved

theorem pmalloc_served {nBytes : Int} {mem : Addr} (h : pmalloc fuel k nBytes = .ok (mem, k')) :
    ∃ r m q, BasicKernel.allocate k.memory (toUInt64 nBytes) = .ok (r, m) ∧
      Served m [HEAP_NODE_SIZE] [q] k'.memory := by
  obtain ⟨⟨a, k₁⟩, hall, h⟩ := bind_eq_ok.mp h
  obtain ⟨⟨r, m⟩, hcall, hk₁⟩ := bind_eq_ok.mp hall
  obtain ⟨-, rfl⟩ := Prod.mk.inj (Except.ok.inj hk₁)
  obtain ⟨pid, -, h⟩ := bind_eq_ok.mp h
  obtain ⟨current, -, h⟩ := bind_eq_ok.mp h
  obtain ⟨p, -, h⟩ := bind_eq_ok.mp h
  obtain ⟨⟨heap, k₂⟩, hadd, h⟩ := bind_eq_ok.mp h
  obtain ⟨k₃, hmodify, h⟩ := bind_eq_ok.mp h
  obtain ⟨-, rfl⟩ := Prod.mk.inj (Except.ok.inj h)
  obtain ⟨q, hserved⟩ := addHeap_served hadd
  refine ⟨r, m, q, hcall, ?_⟩
  obtain ⟨store, -, hk₃⟩ := bind_eq_ok.mp hmodify
  obtain rfl := Except.ok.inj hk₃
  exact hserved

/-! ## A refused request

An operation that returns in spite of a refusal is `pmalloc`, which has taken a page for its
node. -/

theorem allocate_none {size : Nat} (h : BasicKernel.allocate m size = .ok (none, m')) : m' = m := by
  obtain ⟨⟨i, j, allocFound⟩, -, h⟩ := bind_eq_ok.mp h
  cases allocFound with
  | false => exact (Prod.mk.inj (Except.ok.inj h)).2.symm
  | true =>
      obtain ⟨m₁, -, h⟩ := bind_eq_ok.mp h
      cases (Prod.mk.inj (Except.ok.inj h)).1

/-- An operation that returns although a request was refused has taken a page. -/
theorem AllocOp.Refused.pages {op : AllocOp} {r : Int} (h : op.Refused k) (hr : Rep k V) (hok : V.Ok)
    (hrun : op.run fuel k = .ok (r, k')) : usedBlocks k'.memory ≠ usedBlocks k.memory := by
  obtain ⟨hexists, answers, m, hserve, hnone⟩ := h
  -- an operation that stored through all its answers got no null pointer among them
  have hall : ∀ {ps m₁}, Served k.memory op.requests ps m₁ → usedBlocks k'.memory ≠ usedBlocks k.memory :=
    fun hserved => absurd hnone (hserved.none_notMem hserve)
  cases op with
  | addProcess exec entryPoint name =>
      obtain ⟨a, chars, n, t, base, l, -, hserved, -⟩ := hr.addProcess_cases hok hrun
      exact hall hserved
  | addThreadToProcess pid exec entryPoint =>
      obtain ⟨s, hs⟩ := hexists pid exec entryPoint rfl
      obtain ⟨p, hp, hpid, -⟩ := hok.processState_some.mp ((hr.processIs_iff hok).mp hs)
      obtain ⟨a, hget, -⟩ := bind_eq_ok.mp hrun
      rw [← hpid] at hget
      obtain rfl := (hr.getProcessWithPid_of_mem hok.pids hp).eq hget
      rw [hpid] at hget
      obtain ⟨t, base, l, m₁, -, -, -, -, hserved, -⟩ :=
        addThreadToProcess_inv hr.owns hget (hr.processes p hp).addr_ne hrun
      exact hall hserved
  | createMutex =>
      obtain ⟨⟨a, k₁⟩, hcall, h⟩ := bind_eq_ok.mp hrun
      obtain ⟨k₂, h₂, -⟩ := bind_eq_ok.mp h
      exact hall (Kernel.allocate_served hcall (Kernel.modifyLock_ne h₂))
  | createSemaphore start =>
      obtain ⟨⟨a, k₁⟩, hcall, h⟩ := bind_eq_ok.mp hrun
      obtain ⟨k₂, h₂, -⟩ := bind_eq_ok.mp h
      exact hall (Kernel.allocate_served hcall (Kernel.modifyLock_ne h₂))
  | do_pipe fromPid toPid =>
      obtain ⟨⟨name, k₁⟩, hcall, h⟩ := bind_eq_ok.mp hrun
      obtain ⟨ps, m₁, hserved⟩ := do_pipe_served hcall
      exact hall hserved
  -- the block of `pmalloc` is not stored through, so it may be the null pointer
  | pmalloc nBytes =>
      obtain ⟨⟨mem, k₁⟩, hcall, h⟩ := bind_eq_ok.mp hrun
      obtain ⟨-, rfl⟩ := Prod.mk.inj (Except.ok.inj h)
      obtain ⟨r, m₁, q, hfirst, hsecond⟩ := pmalloc_served hcall
      obtain ⟨⟨r', m₂⟩, hfirst', hserve⟩ := bind_eq_ok.mp hserve
      obtain ⟨rfl, rfl⟩ := Prod.mk.inj (Except.ok.inj (hfirst.symm.trans hfirst'))
      obtain ⟨⟨rest, m₃⟩, hrest, hserve⟩ := bind_eq_ok.mp hserve
      obtain ⟨rfl, -⟩ := Prod.mk.inj (Except.ok.inj hserve)
      rcases List.mem_cons.mp hnone with hfirst₀ | hlater
      · -- the block was refused, and the node was not
        subst hfirst₀
        obtain rfl := allocate_none hfirst
        obtain ⟨live, hc, -⟩ := hr.owns.live
        obtain ⟨⟨r₂, m₄⟩, hq, htail⟩ := bind_eq_ok.mp hsecond
        obtain ⟨hr₂, rfl⟩ := Prod.mk.inj (Except.ok.inj htail)
        obtain ⟨rfl, -⟩ := List.cons.inj hr₂
        obtain ⟨hnew, -, hinit, hc'⟩ := hc.allocate_new (by decide) (by decide) hq
        intro hsame
        refine hnew (hsame ▸ ?_)
        have hmem : firstBlock k₁.memory q ∈ usedBlocks k₁.memory :=
          hc'.extent_subset (Set.mem_insert _ _) (Set.mem_Ico.mpr ⟨le_rfl,
            Nat.lt_add_of_pos_right (one_le_sizeBlocks (show 1 ≤ HEAP_NODE_SIZE by decide))⟩)
        rwa [firstBlock, hinit] at hmem
      · exact absurd hlater (hsecond.none_notMem hrest)

/-- The operations report a refused request if and only if none of their requests is refused. -/
theorem failure_reported_iff (h : Run Sound k) (op : AllocOp) : op.Reports k ↔ ¬ op.Refused k := by
  obtain ⟨V, hr, hok⟩ := h.rep
  constructor
  · intro hreports hrefused
    obtain ⟨k', hret, huntouched⟩ := hreports hrefused
    obtain ⟨fuel, hrun⟩ := hret.exists_fuel
    exact hrefused.pages hr hok hrun huntouched.pages
  · intro hserved hrefused
    exact absurd hrefused hserved

/-- A block of 2 ^ 31 - 1 bytes is more than any machine has. -/
theorem Contract.allocate_huge {live : Set (Nat × Nat)} (hc : Contract m live) :
    BasicKernel.allocate m (2 ^ 31 - 1) = .ok (none, m) := by
  rcases hc.allocate (show 1 ≤ 2 ^ 31 - 1 by decide) (by decide) with ⟨p, m', -, -, -, -, hc'⟩ | hcall
  · have hinside := (hc'.valid _ (Set.mem_insert _ _)).inside
    have hsmall := hc'.region.small
    have hblocks : sizeBlocks (2 ^ 31 - 1) = 2 ^ 19 := by decide
    rw [hblocks] at hinside
    omega
  · exact hcall

theorem AllocOp.refused_huge (hr : Rep k V) : (AllocOp.pmalloc (2 ^ 31 - 1)).Refused k := by
  obtain ⟨live, hc, -⟩ := hr.owns.live
  refine ⟨fun pid exec entryPoint h => (by cases h), ?_⟩
  have hfirst : BasicKernel.allocate k.memory (toUInt64 (2 ^ 31 - 1)) = .ok (none, k.memory) :=
    hc.allocate_huge
  obtain ⟨r, m, hsecond⟩ : ∃ r m, BasicKernel.allocate k.memory HEAP_NODE_SIZE = .ok (r, m) := by
    rcases hc.allocate (show 1 ≤ HEAP_NODE_SIZE by decide) (by decide) with ⟨p, m, hcall, -⟩ | hcall
    · exact ⟨_, _, hcall⟩
    · exact ⟨_, _, hcall⟩
  refine ⟨[none, r], m, ?_, List.mem_cons_self⟩
  simp only [AllocOp.requests, serve, hfirst, hsecond, ok_bind]
  rfl

theorem firstServe_states : (do
    let k ← startKernel
    let (answers, _) ← serve AllocOp.createMutex.requests k.memory
    return decide (none ∉ answers) : Except Stop Bool) = .ok true := by
  decide +kernel

/-- After the boot there is a page for a mutex, and no block of 2 ^ 31 - 1 bytes. -/
theorem failure_reported_at_boot : ∃ k, Booted k ∧
    (¬ AllocOp.createMutex.Refused k ∧ AllocOp.createMutex.Reports k) ∧
    (AllocOp.pmalloc (2 ^ 31 - 1)).Refused k ∧ ¬ (AllocOp.pmalloc (2 ^ 31 - 1)).Reports k := by
  obtain ⟨k, hk, hserve⟩ := bind_eq_ok.mp firstServe_states
  obtain ⟨⟨answers, m⟩, hanswers, hnone⟩ := bind_eq_ok.mp hserve
  have hrun : Run Sound k := .start (booted_of_start hk)
  have hserved : ¬ AllocOp.createMutex.Refused k := by
    rintro ⟨-, answers', m', hanswers', hnone'⟩
    obtain ⟨rfl, -⟩ := Prod.mk.inj (Except.ok.inj (hanswers.symm.trans hanswers'))
    exact of_decide_eq_true (Except.ok.inj hnone) hnone'
  obtain ⟨V, hr, -⟩ := hrun.rep
  have hrefused := AllocOp.refused_huge hr
  refine ⟨k, booted_of_start hk, ⟨hserved, (failure_reported_iff hrun .createMutex).mpr hserved⟩, hrefused, ?_⟩
  exact fun hreports => (failure_reported_iff hrun _).mp hreports hrefused

/-- `pmalloc` of more bytes than there are returns the null pointer, and has taken a page for a node. -/
theorem huge_block_listed : ¬ ∀ k (op : AllocOp), Run Sound k → op.Reports k := by
  intro hclaim
  obtain ⟨k, hbooted⟩ := exists_booted
  have hrun : Run Sound k := .start hbooted
  obtain ⟨V, hr, hok⟩ := hrun.rep
  have hrefused := AllocOp.refused_huge hr
  obtain ⟨k', hret, huntouched⟩ := hclaim k (.pmalloc (2 ^ 31 - 1)) hrun hrefused
  obtain ⟨fuel, hcall⟩ := hret.exists_fuel
  exact hrefused.pages hr hok hcall huntouched.pages

end BasicKernel
