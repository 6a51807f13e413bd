import BasicKernel.View.Moves

set_option autoImplicit false

/-! # Runs given by a list of events

A run can be computed: `KernelOp.sound?` tests whether an event is sound, and `runSound` carries out a
list of events as long as they pass the test. `startKernel` is the state after `main` on a machine whose memory is zero.
-/

namespace BasicKernel

open Transition

variable {k k' : Kernel} {V : View} {fuel : Nat} {ops : List KernelOp}
  {Allowed : Kernel → KernelOp → Prop}

theorem Run.step (h : Run Allowed k) (op : KernelOp) (hop : Allowed k op)
    (hrun : op.run fuel k = .ok k') : Run Allowed k' :=
  .next h ⟨k, op, fuel, .refl k, hop, hrun⟩

/-! ## Sound events

Each test reads the state that the event happens in. A test that succeeds implies its condition;
the conditions are weaker than the tests. -/

/-- No process of the ring is dead. -/
def Kernel.allAlive (k : Kernel) : Bool := k.processes.all fun a => (k.process a).state ≠ .DEAD

theorem Rep.alive_of_allAlive (hr : Rep k V) (h : k.allAlive) : ∀ p ∈ V.table, p.val.state ≠ .DEAD := by
  intro p hp
  have hmem : p.addr ∈ k.processes := hr.created.mem_iff.mpr (List.mem_map_of_mem hp)
  have := List.all_eq_true.mp h _ hmem
  rw [(hr.processes p hp).val] at this
  simpa using this

/-- Where nobody is dead the removal of the dead is safe. -/
theorem View.reapSafe_of_alive (h : ∀ p ∈ V.table, p.val.state ≠ .DEAD) (garbage : Garbage) :
    V.ReapSafe garbage k := by
  have halive : ∀ p ∈ V.table, p.alive = true := fun p hp => by
    simpa [ProcessView.alive] using h p hp
  constructor
  · refine List.isChain_iff_forall_rel_of_append_cons_cons.mpr fun p q A B hAB => .inl (halive p ?_)
    exact List.mem_of_mem_take (hAB ▸ List.mem_append_right A List.mem_cons_self)
  · intro p hp hdead
    rw [halive p (List.mem_of_mem_take hp)] at hdead
    cases hdead

/-- The page that the allocator would give passes the test `f`. -/
def Kernel.newPage (k : Kernel) (size : Nat) (f : Addr → Bool) : Bool :=
  match k.allocate size with
  | .ok (a, _) => f a
  | .error _ => true

theorem Kernel.newPage_eq {size : Nat} {f : Addr → Bool} (h : k.newPage size f) {a : Addr}
    (hall : k.allocate size = .ok (a, k')) : f a := by
  simpa [newPage, hall] using h

/-- A test for `CleanLock`. -/
def Kernel.cleanLock? (k : Kernel) : Bool :=
  k.newPage LOCK_NODE_SIZE fun a => (k.lock a).next = NULL ∧ (k.lock a).blockedThreadList = NULL

/-- A test for `CleanProcess`. -/
def Kernel.cleanProcess? (k : Kernel) : Bool :=
  k.newPage PAGE_SIZE fun a => (k.process a).currentThread = NULL

theorem Kernel.cleanLock_of (h : k.cleanLock?) : CleanLock k := fun _ _ hall =>
  of_decide_eq_true (newPage_eq h hall)

theorem Kernel.cleanProcess_of (h : k.cleanProcess?) : CleanProcess k := fun _ _ hall =>
  of_decide_eq_true (newPage_eq h hall)

/-- A test for sound events. -/
def KernelOp.sound? (k : Kernel) : KernelOp → Bool
  | .tick _ _ => k.allAlive
  | .yield _ _ => k.allAlive
  | .removeDeadProcess _ => false
  | .addProcess _ _ _ => k.cleanProcess?
  | .blockThread _ _ ty => isThreadBlocked ty
  | .createMutex => k.cleanLock?
  | .createSemaphore _ => k.cleanLock?
  | .pmalloc _ => false
  | _ => true

theorem KernelOp.sound_of {op : KernelOp} (h : op.sound? k) : Sound k op := by
  cases op with
  | tick garbage _ => exact fun V hr _ => View.reapSafe_of_alive (hr.alive_of_allAlive h) garbage
  | yield garbage _ => exact fun V hr _ => View.reapSafe_of_alive (hr.alive_of_allAlive h) garbage
  | removeDeadProcess _ => cases h
  | addProcess _ _ _ => exact Kernel.cleanProcess_of h
  | blockThread _ _ _ => exact h
  | createMutex => exact Kernel.cleanLock_of h
  | createSemaphore _ => exact Kernel.cleanLock_of h
  | pmalloc _ => cases h
  | _ => trivial

/-- A list of events, as long as they pass the test. -/
def KernelOp.runSound (fuel : Nat) : List KernelOp → Kernel → Except Stop Kernel
  | [], k => .ok k
  | op :: ops, k => do
      if !op.sound? k then
        throw .outOfFuel
      runSound fuel ops (← op.run fuel k)

/-- The first event passed the test, and the rest was carried out behind it. -/
theorem KernelOp.runSound_cons {op : KernelOp} (h : runSound fuel (op :: ops) k = .ok k') :
    Sound k op ∧ ∃ k₁, op.run fuel k = .ok k₁ ∧ runSound fuel ops k₁ = .ok k' := by
  rw [runSound] at h
  by_cases hop : op.sound? k = true
  · simp only [hop, Bool.not_true, Bool.false_eq_true, if_false] at h
    exact ⟨sound_of hop, bind_eq_ok.mp h⟩
  · simp [hop] at h

theorem Run.runSound (h : Run Sound k) (hrun : KernelOp.runSound fuel ops k = .ok k') :
    Run Sound k' := by
  induction ops generalizing k with
  | nil =>
      obtain rfl := Except.ok.inj hrun
      exact h
  | cons op ops ih =>
      obtain ⟨hop, k₁, hstep, hrun⟩ := KernelOp.runSound_cons hrun
      exact ih (h.step op hop hstep) hrun

/-- One event that passes the test, as a step of a system that allows it. -/
theorem KernelStep.of_runSound {op : KernelOp} {P : KernelOp → Prop}
    (hrun : KernelOp.runSound fuel [op] k = .ok k') (hop : P op) :
    KernelStep (fun k op => Sound k op ∧ P op) k k' := by
  obtain ⟨hs, k₁, hstep, hrun⟩ := KernelOp.runSound_cons hrun
  obtain rfl := Except.ok.inj hrun
  exact ⟨k, op, fuel, .refl k, ⟨hs, hop⟩, hstep⟩

/-- Events that pass the test, as steps of a system whose states are made of kernels by `f`. -/
theorem Reachable.runSound {σ : Type} {init : σ → Prop} {step : σ → σ → Prop} {P : KernelOp → Prop}
    {f : Kernel → σ}
    (hstep : ∀ k k', KernelStep (fun k op => Sound k op ∧ P op) k k' → step (f k) (f k'))
    (hops : ∀ op ∈ ops, P op) (h : Reachable init step (f k))
    (hrun : KernelOp.runSound fuel ops k = .ok k') : Reachable init step (f k') := by
  induction ops generalizing k with
  | nil =>
      obtain rfl := Except.ok.inj hrun
      exact h
  | cons op ops ih =>
      obtain ⟨hs, k₁, hrun₁, hrun⟩ := KernelOp.runSound_cons hrun
      refine ih (fun op' hmem => hops op' (List.mem_cons_of_mem _ hmem)) (h.next (hstep k k₁ ?_)) hrun
      exact ⟨k, op, fuel, .refl k, ⟨hs, hops op List.mem_cons_self⟩, hrun₁⟩

/-- A test for the state of a process. -/
def Kernel.processIs? (k : Kernel) (pid : Int) (s : ProcessState) : Bool :=
  k.processState 40 pid = .ok (some s)

theorem Kernel.processIs_of {pid : Int} {s : ProcessState} (h : k.processIs? pid s) :
    k.ProcessIs pid s :=
  ⟨40, of_decide_eq_true h⟩

/-- A test for the state of a thread. -/
def Kernel.threadIs? (k : Kernel) (τ : ThreadId) (s : ThreadState) : Bool :=
  k.threadState 40 τ = .ok (some s)

theorem Kernel.threadIs_of {τ : ThreadId} {s : ThreadState} (h : k.threadIs? τ s) : k.ThreadIs τ s :=
  ⟨40, of_decide_eq_true h⟩

theorem Run.not_threadIs_of (h : Run Sound k) {τ : ThreadId} {s s' : ThreadState}
    (hs : k.threadIs? τ s') (hne : s' ≠ s) : ¬ k.ThreadIs τ s := by
  obtain ⟨V, hr, hok⟩ := h.rep
  have hstate := hr.threadIs_iff (τ := τ) (s := s') hok
  rw [hr.threadIs_iff hok, hstate.mp (Kernel.threadIs_of hs)]
  simpa using hne

/-! ## A first state

A machine whose memory is zero at reset. Its first state is computed, and with it the states of
all the examples. -/

/-- The kernel at reset, on a machine whose memory is zero. -/
def zeroKernel : Kernel where
  memory := .static
  process _ := ⟨0, 0, .READY, 0, 0, 0, 0, 0, 0, 0⟩
  schedulerNode _ := ⟨0, 0⟩
  thread _ := ⟨0, 0, 0, 0, .T_READY⟩
  threadLibrary _ := ⟨0, 0⟩
  stackFrame _ := ⟨0, 0, 0, 0, 0, 0, 0, 0, 0, 0, 0, 0, 0, 0, 0, 0, 0, 0, 0, 0, 0, 0, 0⟩
  heapNode _ := ⟨0, 0, 0⟩
  lock _ := ⟨0, 0, 0, 0⟩
  blockedThread _ := ⟨0, 0, 0⟩
  pipe _ := ⟨0, 0, 0, 0, 0⟩
  char _ := 0
  kernelStack := 0
  processQueue := 0
  currentProcess := 0
  queueSize := 0
  numberOfTicks := 0
  currentPid := 0
  mutexCounter := 0
  mutexList := 0
  semaphoreCounter := 0
  semaphoreList := 0
  pipeList := 0
  processes := []
  freedTwice := false

theorem zeroKernel_atReset : zeroKernel.AtReset := by
  constructor <;> rfl

/-- The allocator after its initialisation by `main`. -/
def startMemory : MemoryManager :=
  { initMem := 0x1000000, usedMap := 0x7fff000, words := List.replicate 896 0#32, blocksAmount := 28671 }

theorem memAllocatorInit_start {fuel : Nat} (hfuel : 0x7000 < fuel) :
    memAllocatorInit fuel .static 0x1000000 0x8000000 = .ok (1, startMemory) := by
  obtain ⟨n, rfl⟩ : ∃ n, fuel = n + 2 := ⟨fuel - 2, by omega⟩
  have hcount : countBlocks 0x7000000 (n + 2) 0 (-1) = .ok (0x7001000, 0x7000) :=
    countBlocks_spec (by decide) (n + 2) 0 (by decide) (by simpa [PAGE_SIZE] using hfuel)
  have htotal : toUInt64 (((0x8000000 : Nat) : Int) - ((0x1000000 : Nat) : Int)) = 0x7000000 := by decide
  have hshrink : shrinkBlocks (n + 2) 0x7000 0 = .ok 28671 := by
    have hfirst : enoughSpace 0x7000 0 = false := by decide
    have hsecond : enoughSpace 0x6fff 0x1000 = true := by decide
    simp [shrinkBlocks, hfirst, PAGE_SIZE, hsecond]
  have hblocks : getBlocksAmount (n + 2) 0x7000000 = .ok 28671 := by
    simp only [getBlocksAmount, hcount, ok_bind]
    exact hshrink
  simp only [memAllocatorInit, htotal, hblocks, ok_bind]
  decide +kernel

/-- The state that `main` leaves, from `zeroKernel`. -/
def startKernel : Except Stop Kernel := do
  let k ← setKernelStack { zeroKernel with memory := startMemory }
  let k ← addNamedProcess 0x7001 k 1 2 [105, 110, 105, 116, 0]
  addNamedProcess 0x7001 k 1 3 [115, 104, 101, 108, 108, 0]

/-- Local pointers that are null. -/
def nullGarbage : Garbage := ⟨NULL, NULL, fun _ => NULL⟩

theorem booted_of_start (h : startKernel = .ok k) : Booted k := by
  refine ⟨zeroKernel, 0x7001, 1, 2, 3, zeroKernel_atReset, fun _ => rfl, Nat.lt_succ_self _, ?_⟩
  have hmemory : zeroKernel.memory = .static := rfl
  rw [main, hmemory, memAllocatorInit_start (Nat.lt_succ_self _), ok_bind]
  exact h

theorem startKernel_ends : startKernel.isOk = true := by
  decide +kernel

theorem exists_booted : ∃ k, Booted k := by
  cases h : startKernel with
  | ok k => exact ⟨k, booted_of_start h⟩
  | error e =>
      have := startKernel_ends
      rw [h] at this
      cases this

end BasicKernel
