import BasicKernel.View.Grow

set_option autoImplicit false

/-! # The view after `main`, and between two events

The induction over the runs of the kernel starts here. `main` sets up the allocator, a kernel
stack and two processes, each with one thread; what it leaves is represented by a view, and its
numbers are in order. Between two events the processor, the programs and the devices may write to
any memory but the structures that are live, and a view survives that.
-/

namespace BasicKernel

open Linked Keyed Fuel

variable {k k' : Kernel} {V : View} {fuel : Nat}

/-! ## Between two events

The view names no byte that a program may write, so it is the same before and after. -/

/-- What happens between two events touches no object of the view. -/
theorem Rep.recycled (hr : Rep k V) (h : Recycled k k') : Rep k' V := by
  -- every structure of the view lies in a block that is reserved, and these are left alone
  have hres : ∀ b ∈ V.blocks, k.Reserved b.1 := fun b hb => hr.owns.reserved hb
  have hprocess : ∀ p ∈ V.table, ∀ b ∈ p.blocks, k.Reserved b.1 := fun p hp b hb =>
    hres b (Rep.mem_blocks hp hb)
  have hlocks : ∀ l ∈ V.mutexes ++ V.semaphores, ∀ b ∈ l.blocks, k.Reserved b.1 := by
    intro l hl b hb
    refine hres b ?_
    simp only [View.blocks, List.mem_append, List.mem_flatMap]
    rcases List.mem_append.mp hl with hl | hl
    · exact .inl (.inl (.inr ⟨l, hl, hb⟩))
    · exact .inl (.inr ⟨l, hl, hb⟩)
  have hlock : ∀ l ∈ V.mutexes ++ V.semaphores, k'.lock l.addr = k.lock l.addr := fun l hl =>
    h.lock _ (hlocks l hl (l.addr, LOCK_NODE_SIZE) (by simp [LockView.blocks]))
  have hwaiter : ∀ l ∈ V.mutexes ++ V.semaphores, ∀ w ∈ l.waiters,
      k'.blockedThread w.addr = k.blockedThread w.addr := fun l hl w hw =>
    h.blockedThread _ (hlocks l hl w.block (by
      simp only [LockView.blocks, List.mem_cons, List.mem_map]
      exact .inr ⟨w, hw, rfl⟩))
  have hs := h.statics
  refine ⟨?_, fun p hp => (hr.processes p hp).congr ?_ ?_ (fun t ht => ?_) (fun t ht => ?_)
    (fun b hb => ?_), ?_, ?_, ?_, ?_, ?_, ?_, ?_, ?_, ?_, ?_, ?_⟩
  · rw [show k'.processQueue = k.processQueue by rw [hs]]
    refine hr.queue.congr fun n hn => ?_
    obtain ⟨p, hp, rfl⟩ := List.mem_map.mp hn
    rw [Kernel.nextNode, h.schedulerNode _ (hprocess p hp (p.node, PAGE_SIZE)
      (by simp [ProcessView.blocks]))]
    rfl
  · rw [h.schedulerNode _ (hprocess p hp (p.node, PAGE_SIZE) (by simp [ProcessView.blocks]))]
  · exact h.process _ (hprocess p hp (p.addr, PAGE_SIZE) (by simp [ProcessView.blocks]))
  · exact h.threadLibrary _ (hprocess p hp (t.lib, PAGE_SIZE)
      (mem_blocks_of_thread ht (by simp [ThreadView.blocks])))
  · exact h.thread _ (hprocess p hp (t.addr, PAGE_SIZE)
      (mem_blocks_of_thread ht (by simp [ThreadView.blocks])))
  · refine h.heapNode _ (hprocess p hp (b.addr, HEAP_NODE_SIZE) ?_)
    simp only [ProcessView.blocks, List.mem_append, List.mem_flatMap]
    exact .inl (.inr ⟨b, hb, by simp [HeapView.blocks]⟩)
  · rw [show k'.currentProcess = k.currentProcess by rw [hs]]
    exact hr.current
  · rw [show k'.numberOfTicks = k.numberOfTicks by rw [hs]]
    exact hr.ticks
  · rw [show k'.queueSize = k.queueSize by rw [hs]]
    exact hr.queueSize
  · rw [show k'.currentPid = k.currentPid by rw [hs]]
    exact hr.nextPid
  · rw [show k'.mutexList = k.mutexList by rw [hs]]
    exact hr.mutexes.congr (fun l hl => hlock l (by simp [hl])) fun l hl => hwaiter l (by simp [hl])
  · rw [show k'.mutexCounter = k.mutexCounter by rw [hs]]
    exact hr.mutexCounter
  · rw [show k'.semaphoreList = k.semaphoreList by rw [hs]]
    exact hr.semaphores.congr (fun l hl => hlock l (by simp [hl]))
      fun l hl => hwaiter l (by simp [hl])
  · rw [show k'.semaphoreCounter = k.semaphoreCounter by rw [hs]]
    exact hr.semaphoreCounter
  · rw [show k'.memory = k.memory by rw [hs]]
    exact hr.owns
  · rw [show k'.processes = k.processes by rw [hs]]
    exact hr.created
  · rw [show k'.freedTwice = k.freedTwice by rw [hs]]
    exact hr.freedOnce

/-- The two states differ only where no view looks. -/
def Unseen (k k' : Kernel) : Prop :=
  k' = { k with
    memory := k'.memory, char := k'.char, pipe := k'.pipe, pipeList := k'.pipeList
    stackFrame := k'.stackFrame, kernelStack := k'.kernelStack }

theorem Unseen.trans {k₁ : Kernel} (h : Unseen k k₁) (h' : Unseen k₁ k') : Unseen k k' := by
  rw [Unseen] at *
  rw [h', h]

theorem Rep.unseen (hr : Rep k V) (h : Unseen k k') (ho : Owns k'.memory V.blocks) : Rep k' V := by
  rw [Unseen] at h
  rw [h]
  exact ⟨hr.queue, fun p hp => (hr.processes p hp).congr rfl rfl (fun _ _ => rfl) (fun _ _ => rfl)
    fun _ _ => rfl, hr.current, hr.ticks, hr.queueSize, hr.nextPid,
    hr.mutexes.congr (fun _ _ => rfl) fun _ _ _ _ => rfl, hr.mutexCounter,
    hr.semaphores.congr (fun _ _ => rfl) fun _ _ _ _ => rfl, hr.semaphoreCounter, ho, hr.created,
    hr.freedOnce⟩

/-! ## `main`

The two processes are added one after the other. The first one starts the ring, the second joins
it. -/

/-- The state that `main` leaves, when no page held a stale `currentThread`. The fuel is enough for
one iteration a page. -/
def Booted (k : Kernel) : Prop :=
  ∃ (k₀ : Kernel) (fuel : Nat) (exec init sampleCodeModuleAddress : Addr), k₀.AtReset ∧
    (∀ a, (k₀.process a).currentThread = NULL) ∧ 0x7000 < fuel ∧
    main fuel k₀ exec init sampleCodeModuleAddress = .ok k

/-- The view after `main`: two processes that were not yet run. -/
structure View.AtBoot (V : View) : Prop where
  table : ∃ p q init sampleCodeModuleAddress, V.table = [p, q] ∧ p.Created init 0 ∧
    q.Created sampleCodeModuleAddress 1 ∧ V.current = p.node
  ticks : V.ticks = 0
  queueSize : V.queueSize = 2
  nextPid : V.nextPid = 2
  mutexes : V.mutexes = []
  mutexCounter : V.mutexCounter = 0
  semaphores : V.semaphores = []
  semaphoreCounter : V.semaphoreCounter = 0

theorem View.AtBoot.created {V : View} (h : V.AtBoot) {p : ProcessView} (hp : p ∈ V.table) :
    ∃ entryPoint pid, p.Created entryPoint pid := by
  obtain ⟨q, r, init, sampleCodeModuleAddress, htable, hq, hr, -⟩ := h.table
  rw [htable] at hp
  rcases List.mem_pair.mp hp with rfl | rfl
  · exact ⟨init, 0, hq⟩
  · exact ⟨sampleCodeModuleAddress, 1, hr⟩

theorem setChars_inv : ∀ {s : List UInt8} {k k' : Kernel} {p : Addr},
    setChars k p s = .ok k' → ∃ char, k' = { k with char := char } := by
  intro s
  induction s with
  | nil =>
      intro k k' p h
      obtain rfl := Except.ok.inj h
      exact ⟨k.char, rfl⟩
  | cons c s ih =>
      intro k k' p h
      obtain ⟨k₁, hset, h⟩ := bind_eq_ok.mp h
      obtain ⟨char₁, rfl⟩ := Kernel.setChar_inv hset
      obtain ⟨char, rfl⟩ := ih h
      exact ⟨char, rfl⟩

/-- A page that the kernel takes and never gives back. -/
theorem Owns.allocate_inv {bs : List (Addr × Nat)} {size p : Nat} (ho : Owns k.memory bs)
    (hsize : 1 ≤ size ∧ size < 2 ^ 31) (h : k.allocate size = .ok (p, k')) :
    Owns k'.memory bs ∧ k' = { k with memory := k'.memory } := by
  rcases ho.allocate size hsize.1 hsize.2 with ⟨q, m, hall, -, ho'⟩ | hall
  · rw [hall] at h
    obtain ⟨-, rfl⟩ := Prod.mk.inj (Except.ok.inj h)
    exact ⟨ho'.sublist (List.sublist_cons_self _ _), rfl⟩
  · rw [hall] at h
    obtain ⟨-, rfl⟩ := Prod.mk.inj (Except.ok.inj h)
    exact ⟨ho, rfl⟩

/-- The name of a new process takes a page that nothing else uses. -/
theorem addNamedProcess_inv {bs : List (Addr × Nat)} {exec entryPoint : Addr} {name : List UInt8}
    (ho : Owns k.memory bs) (hname : 1 ≤ name.length ∧ name.length < 2 ^ 31)
    (h : addNamedProcess fuel k exec entryPoint name = .ok k') :
    ∃ k₁ chars r, Unseen k k₁ ∧ k₁.stackFrame = k.stackFrame ∧ Owns k₁.memory bs ∧
      addProcess fuel k₁ exec entryPoint chars = .ok (r, k') := by
  obtain ⟨⟨chars, k₁⟩, hall, h⟩ := bind_eq_ok.mp h
  obtain ⟨ho₁, hk₁⟩ := ho.allocate_inv hname hall
  obtain ⟨k₂, hset, h⟩ := bind_eq_ok.mp h
  obtain ⟨char, hk₂⟩ := setChars_inv hset
  obtain ⟨⟨r, k₃⟩, hadd, h⟩ := bind_eq_ok.mp h
  obtain rfl := Except.ok.inj h
  refine ⟨k₂, chars, r, ?_, by rw [hk₂, hk₁], by rw [hk₂]; exact ho₁, hadd⟩
  rw [Unseen, hk₂, hk₁]

theorem setKernelStack_inv {bs : List (Addr × Nat)} (ho : Owns k.memory bs)
    (h : setKernelStack k = .ok k') : Unseen k k' ∧ Owns k'.memory bs := by
  obtain ⟨⟨stack, k₁⟩, hall, h⟩ := bind_eq_ok.mp h
  obtain ⟨ho₁, hk₁⟩ := ho.allocate_inv (by decide) hall
  obtain rfl := Except.ok.inj h
  refine ⟨?_, ho₁⟩
  rw [Unseen, hk₁]

/-- `fillStackFrame` stored a frame at the address. -/
def Kernel.Framed (k : Kernel) (a : Addr) : Prop :=
  ∃ exec entryPoint, k.stackFrame a = initialFrame exec entryPoint a

/-- A new process leaves the frames that are there. -/
theorem Kernel.Framed.addProcess {bs : List (Addr × Nat)} {ns : List Addr}
    {exec entryPoint name a : Addr} {r : Int} (ha : k.Framed a) (ho : Owns k.memory bs)
    (hqueue : Queue k bs ns) (h : addProcess fuel k exec entryPoint name = .ok (r, k')) : k'.Framed a := by
  obtain ⟨_, _, _, base, _, _, _, _, _, -, -, -, -, -, -, hk'⟩ :=
    BasicKernel.addProcess_inv ho hqueue h
  have hframe : k'.stackFrame = Function.update k.stackFrame (base - STACK_FRAME_SIZE)
      (initialFrame exec entryPoint (base - STACK_FRAME_SIZE)) := by rw [hk']
  rw [Framed, hframe]
  by_cases heq : a = base - STACK_FRAME_SIZE
  · rw [heq, Function.update_self]
    exact ⟨exec, entryPoint, rfl⟩
  · rw [Function.update_of_ne heq]
    exact ha

/-- The view with one process and no locks. -/
def View.single (p : ProcessView) (ticks queueSize nextPid mutexCounter semaphoreCounter : Int) :
    View :=
  { table := [p], current := p.node, ticks, queueSize, nextPid, mutexes := [], mutexCounter,
    semaphores := [], semaphoreCounter, others := [(p.val.name, NAME_LENGTH)] }

/-- The first call of `addProcess`. -/
theorem addProcess_first {exec entryPoint name : Addr} {r : Int} (ho : Owns k.memory [])
    (hcur : k.currentProcess = NULL) (hmutex : k.mutexList = NULL)
    (hsemaphore : k.semaphoreList = NULL) (hprocesses : k.processes = [])
    (hfreed : k.freedTwice = false) (hclean : ∀ a, (k.process a).currentThread = NULL)
    (h : addProcess fuel k exec entryPoint name = .ok (r, k')) :
    ∃ p, p.Created entryPoint k.currentPid ∧ (∀ u ∈ p.threads, k'.Framed u.val.userStack) ∧
      Rep k' (.single p k.numberOfTicks (k.queueSize + 1) (k.currentPid + 1) k.mutexCounter
        k.semaphoreCounter) ∧
      ∀ a, a ≠ p.addr → (k'.process a).currentThread = NULL := by
  have hqueue : Queue k [] [] := ⟨by rw [if_pos hcur], by simp, by simp, by simp⟩
  obtain ⟨a, n, t, base, l, chars, ppid, m, char, -, -, -, ho', hbase, -, rfl⟩ :=
    -- what the recycled page holds as `currentThread` is assumed to be 0, so the thread list is new
    BasicKernel.addProcess_inv ho hqueue h
  have hstale := hclean a
  have hne : l ≠ NULL ∧ t ≠ NULL ∧ n ≠ NULL ∧ a ≠ NULL :=
    ⟨ho'.ne_null (b := (l, PAGE_SIZE)) (by simp), ho'.ne_null (b := (t, PAGE_SIZE)) (by simp),
      ho'.ne_null (b := (n, PAGE_SIZE)) (by simp), ho'.ne_null (b := (a, PAGE_SIZE)) (by simp)⟩
  obtain ⟨hring, hnode, -⟩ := hqueue.linked (n := n) (p := a) (by simp)
  refine ⟨addedView n a l t (addedProcess (k.process a) k.currentPid ppid chars l)
    (newThread entryPoint base 0), addedView_created (.inl hstale) hbase, fun u hu => ?_, ?_,
    fun b hb => ?_⟩
  · have huser : u.val.userStack = base - STACK_FRAME_SIZE := by
      rw [List.mem_singleton.mp hu]
      rfl
    rw [Kernel.Framed, huser]
    refine ⟨exec, entryPoint, ?_⟩
    dsimp only
    rw [Function.update_self]
  · simp only [hstale, if_true, hcur] at hring ⊢
    refine ⟨hring, fun q hq => ?_, rfl, rfl, rfl, rfl, ⟨?_, fun _ hl => by cases hl⟩, rfl,
      ⟨?_, fun _ hl => by cases hl⟩, rfl, ?_, ?_, hfreed⟩
    · obtain rfl := List.mem_singleton.mp hq
      exact addedView_rep hne.2.2.1 hne.2.2.2 hne.1 hne.2.1 hnode (Function.update_self ..)
        (Function.update_self ..) (Function.update_self ..) (addedProcess_library (.inl hstale))
        (addedProcess_current (.inl hstale)) rfl
    · exact Chain.nil_iff.mpr hmutex
    · exact Chain.nil_iff.mpr hsemaphore
    · refine ho'.perm (List.Perm.symm ?_)
      simp only [View.blocks, View.single, List.flatMap_cons, List.flatMap_nil, List.append_nil]
      exact addedView_blocks_perm n a l t chars _ (newThread entryPoint base 0) []
    · show (a :: k.processes).Perm [a]
      rw [hprocesses]
  · show (Function.update k.process a _ b).currentThread = NULL
    rw [Function.update_of_ne (show b ≠ a from hb)]
    exact hclean b

theorem View.single_ok {p : ProcessView} {entryPoint : Addr} {ticks mutexCounter semaphoreCounter : Int}
    (hp : p.Created entryPoint 0) :
    (View.single p ticks 1 1 mutexCounter semaphoreCounter).Ok := by
  have halive : p.val.state ≠ .DEAD := by simp [hp.state]
  refine ⟨⟨fun q hq => ?_, by simp [View.single], fun q hq => ?_, ⟨p, [], rfl, hp.pid, halive⟩, ?_⟩,
    p, List.mem_singleton_self p, rfl⟩
  · obtain rfl := List.mem_singleton.mp hq
    exact hp.ok
  · obtain rfl := List.mem_singleton.mp hq
    rw [hp.pid]
    exact ⟨le_rfl, Int.zero_lt_one⟩
  · simp [View.single, View.alive, halive]

/-- `main` leaves a view with two new processes, whose threads have their first frames. -/
theorem Booted.rep_framed (h : Booted k) : ∃ V, Rep k V ∧ V.Ok ∧ V.AtBoot ∧
    ∀ p ∈ V.table, ∀ t ∈ p.threads, k.Framed t.val.userStack := by
  obtain ⟨k₀, fuel, exec, init, sample, hreset, hclean, hfuel, h⟩ := h
  obtain ⟨⟨r, m⟩, hinit, h⟩ := bind_eq_ok.mp h
  -- the allocator serves the region that `main` gives it, and nothing is handed out yet
  obtain ⟨r', m', hinit', hc, hbase⟩ := memAllocatorInit_spec fuel 0x1000000 0x8000000
    (by decide) (by decide) (by decide)
    (by simpa [PAGE_SIZE] using hfuel)
  rw [hreset.memory, hinit'] at hinit
  obtain ⟨-, rfl⟩ := Prod.mk.inj (Except.ok.inj hinit)
  have ho : Owns m' [] := ⟨by rw [hbase (by decide)]; decide, List.nodup_nil, _, hc, by simp⟩
  obtain ⟨k₁, hstack, h⟩ := bind_eq_ok.mp h
  obtain ⟨hk₁, ho₁⟩ := setKernelStack_inv (k := { k₀ with memory := m' }) ho hstack
  obtain ⟨k₂, hadd, h⟩ := bind_eq_ok.mp h
  -- the first process, `init`
  obtain ⟨k₃, chars, r₂, hk₃, -, ho₃, hadd⟩ := addNamedProcess_inv ho₁ (by decide) hadd
  have hk := hk₁.trans hk₃
  rw [Unseen] at hk
  obtain ⟨p, hp, hframed, hr₂, hclean₂⟩ := addProcess_first ho₃ (by rw [hk]; exact hreset.currentProcess)
    (by rw [hk]; exact hreset.mutexList) (by rw [hk]; exact hreset.semaphoreList)
    (by rw [hk]; exact hreset.processes) (by rw [hk]; exact hreset.freedTwice)
    (by rw [hk]; exact hclean) hadd
  have hp : p.Created init 0 := by
    rw [hk] at hp
    exact hreset.currentPid ▸ hp
  have hr₂ : Rep k₂ (.single p 0 1 1 0 0) := by
    rw [hk] at hr₂
    simpa [hreset.currentPid, hreset.numberOfTicks, hreset.queueSize, hreset.mutexCounter,
      hreset.semaphoreCounter] using hr₂
  -- the second process, the first module
  obtain ⟨k₄, chars₄, r₄, hk₄, hstacks₄, ho₄, hadd⟩ := addNamedProcess_inv hr₂.owns (by decide) h
  have hr₄ := hr₂.unseen hk₄ ho₄
  -- the page of the second process is not that of the first
  have hclean₄ : ∀ a k', k₄.allocate PAGE_SIZE = .ok (a, k') →
      (k₄.process a).currentThread = NULL := by
    intro a k' hall
    rw [Unseen] at hk₄
    rw [hk₄]
    refine hclean₂ a ?_
    rintro rfl
    rcases hr₄.owns.allocate PAGE_SIZE (by decide) (by decide) with
      ⟨b, m₅, hall', -, ho₅⟩ | hall'
    · rw [hall'] at hall
      obtain ⟨rfl, -⟩ := Prod.mk.inj (Except.ok.inj hall)
      exact ho₅.fresh (Rep.mem_blocks_addr List.mem_cons_self) rfl
    · rw [hall'] at hall
      obtain ⟨hnull, -⟩ := Prod.mk.inj (Except.ok.inj hall)
      exact (hr₄.processes p List.mem_cons_self).addr_ne hnull.symm
  have hok₄ : (View.single p 0 1 1 0 0).Ok := View.single_ok hp
  obtain ⟨a, _, _, _, _, _, ⟨m, hall⟩, -, -, -, -, hcases, -⟩ := hr₄.addProcess_cases hok₄ hadd
  obtain ⟨q, -, -, -, hq, hframed', hr', hok'⟩ := hcases (.inl (hclean₄ a _ hall))
  have hqueue := hr₄.toQueue hok₄
  refine ⟨_, hr', hok', ⟨⟨p, q, init, sample, rfl, hp, hq, rfl⟩, rfl, rfl, rfl, rfl, rfl, rfl, rfl⟩,
    fun u hu t ht => ?_⟩
  rcases List.mem_pair.mp (show u ∈ [p, q] from hu) with rfl | rfl
  · obtain ⟨exec', entryPoint, hframe⟩ := hframed t ht
    exact Kernel.Framed.addProcess ⟨exec', entryPoint, by rw [hstacks₄]; exact hframe⟩ hr₄.owns hqueue hadd
  · exact ⟨_, _, hframed' t ht⟩

theorem Booted.rep (h : Booted k) : ∃ V, Rep k V ∧ V.Ok ∧ V.AtBoot := by
  obtain ⟨V, hr, hok, hboot, -⟩ := h.rep_framed
  exact ⟨V, hr, hok, hboot⟩

end BasicKernel
