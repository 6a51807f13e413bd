import BasicKernel.View.Schedule

set_option autoImplicit false

/-! # What a creation that succeeded has written

A structure in a new page keeps whatever the page held in the fields that are not written. The
lemmas give the whole state that each function leaves, with those fields.
-/

namespace BasicKernel

open Linked Keyed Fuel

variable {k k' : Kernel} {bs : List (Addr × Nat)} {fuel : Nat}

/-! ## `createProcess`

The page of the process and the page of its name are new. The name is copied byte by byte, and the
other fields are stored one after the other. -/

theorem Kernel.setChar_inv {p : Addr} {c : UInt8} (h : k.setChar p c = .ok k') :
    ∃ char, k' = { k with char := char } := by
  by_cases hp : p = NULL
  · subst hp
    simp [Kernel.setChar] at h
  · simp only [Kernel.setChar, modify_of_ne hp, ok_bind, pure_eq_ok] at h
    exact ⟨_, (Except.ok.inj h).symm⟩

/-- `copyName` writes characters only. -/
theorem copyName_inv {process name : Addr} : ∀ {n : Nat} {k k' : Kernel} {i j : Nat},
    copyName process name n k i = .ok (j, k') → ∃ char, k' = { k with char := char } := by
  intro n
  induction n with
  | zero =>
      intro k k' i j h
      obtain ⟨-, rfl⟩ := Prod.mk.inj (Except.ok.inj h)
      exact ⟨k.char, rfl⟩
  | succ n ih =>
      intro k k' i j h
      obtain ⟨c, -, h⟩ := bind_eq_ok.mp h
      by_cases hc : c = 0
      · rw [if_pos hc] at h
        obtain ⟨-, rfl⟩ := Prod.mk.inj (Except.ok.inj h)
        exact ⟨k.char, rfl⟩
      · rw [if_neg hc] at h
        obtain ⟨p, -, h⟩ := bind_eq_ok.mp h
        obtain ⟨k₁, hset, h⟩ := bind_eq_ok.mp h
        obtain ⟨char₁, rfl⟩ := Kernel.setChar_inv hset
        obtain ⟨char, rfl⟩ := ih h
        exact ⟨char, rfl⟩

theorem createProcessName_inv {process name : Addr} (ho : Owns k.memory bs)
    (hne : process ≠ NULL) (h : createProcessName k process name = .ok k') :
    ∃ chars m char, Owns m ((chars, NAME_LENGTH) :: bs) ∧
      Served k.memory [NAME_LENGTH] [chars] m ∧ k' = { k with
        memory := m
        char := char
        process := Function.update k.process process { k.process process with name := chars } } := by
  rcases ho.allocate NAME_LENGTH (by decide) (by decide) with
    ⟨chars, m, hall, hchars, ho'⟩ | hall
  · simp only [createProcessName, hall, ok_bind, Kernel.modifyProcess_of_ne hne, hchars,
      if_false] at h
    obtain ⟨⟨i, k₁⟩, hcopy, h⟩ := bind_eq_ok.mp h
    obtain ⟨char₁, rfl⟩ := copyName_inv hcopy
    obtain ⟨p, -, h⟩ := bind_eq_ok.mp h
    obtain ⟨char, rfl⟩ := Kernel.setChar_inv h
    exact ⟨chars, m, char, ho', .of_allocate hall hchars, rfl⟩
  · simp [createProcessName, hall, Kernel.modifyProcess_of_ne hne] at h

/-- The process that `createProcess` leaves in a page that held `stale`. -/
def freshProcess (stale : ProcessNode) (pid ppid : Int) (name : Addr) : ProcessNode :=
  { stale with
    ppid := ppid, pid := pid, state := .READY, name := name, threadSize := 0
    currentPThread := 0, heap := NULL }

theorem createProcess_inv {name a : Addr} {ppid : Int} (ho : Owns k.memory bs)
    (h : createProcess k name ppid = .ok (a, k')) :
    (∃ m, k.allocate PAGE_SIZE = .ok (a, { k with memory := m })) ∧ ∃ chars m char,
      Owns m ((chars, NAME_LENGTH) :: (a, PAGE_SIZE) :: bs) ∧
      Served k.memory [PAGE_SIZE, NAME_LENGTH] [a, chars] m ∧ k' = { k with
        memory := m
        char := char
        currentPid := k.currentPid + 1
        processes := a :: k.processes
        process := Function.update k.process a
          (freshProcess (k.process a) k.currentPid ppid chars) } := by
  rcases ho.allocate PAGE_SIZE (by decide) (by decide) with
    ⟨p, m, hall, hne, ho'⟩ | hall
  · simp only [createProcess, hall, ok_bind, Kernel.modifyProcess_of_ne hne] at h
    obtain ⟨k₁, hname, h⟩ := bind_eq_ok.mp h
    obtain ⟨chars, m', char, ho'', hserved, rfl⟩ := createProcessName_inv ho' hne hname
    simp only [pure_eq_ok] at h
    obtain ⟨rfl, rfl⟩ := Prod.mk.inj (Except.ok.inj h)
    refine ⟨⟨m, hall⟩, chars, m', char, ho'', (Served.of_allocate hall hne).append hserved, ?_⟩
    simp only [Function.update_self, Function.update_idem]
    rfl
  · simp [createProcess, hall] at h

/-! ## `addProcessToQueue`

The first process makes a ring of its own. Any other one goes behind the head, by two stores. -/

/-- The ring of processes with the new node `n` behind its first node `q`. -/
def linkNode (store : Addr → SchedulerNode) (q n p : Addr) : Addr → SchedulerNode :=
  let store' := Function.update store n ⟨p, (store q).next⟩
  Function.update store' q { store' q with next := n }

theorem linkNode_next (store : Addr → SchedulerNode) (q n p : Addr) :
    (fun x => (linkNode store q n p x).next) = Function.update
      (Function.update (fun x => (store x).next) n (store q).next) q n := by
  funext x
  by_cases hxq : x = q
  · simp [linkNode, hxq]
  · by_cases hxn : x = n
    · subst hxn
      simp [linkNode, hxq]
    · simp [linkNode, hxq, hxn]

theorem linkNode_process_of_ne {store : Addr → SchedulerNode} {q n p x : Addr} (hx : x ≠ n) :
    (linkNode store q n p x).process = (store x).process := by
  by_cases hq : x = q
  · subst hq
    simp [linkNode, hx]
  · simp [linkNode, hq, hx]

theorem linkNode_self {store : Addr → SchedulerNode} {q n p : Addr} (h : n ≠ q) :
    (linkNode store q n p n).process = p := by
  simp [linkNode, h]

theorem addProcessToQueue_inv {p : Addr} (ho : Owns k.memory bs) (hp : p ≠ NULL)
    (h : addProcessToQueue k p = .ok k') : ∃ n m, n ≠ NULL ∧ Owns m ((n, PAGE_SIZE) :: bs) ∧
      Served k.memory [PAGE_SIZE] [n] m ∧ k' = { k with
        memory := m
        process := Function.update k.process p { k.process p with threadTick := 0 }
        queueSize := k.queueSize + 1
        currentProcess := if k.currentProcess = NULL then n else k.currentProcess
        processQueue := if k.currentProcess = NULL then n else k.processQueue
        schedulerNode := if k.currentProcess = NULL then Function.update k.schedulerNode n ⟨p, n⟩
          else linkNode k.schedulerNode k.processQueue n p } ∧
      (k.currentProcess ≠ NULL → k.processQueue ≠ NULL) := by
  rcases ho.allocate PAGE_SIZE (by decide) (by decide) with
    ⟨n, m, hall, hne, ho'⟩ | hall
  · simp only [addProcessToQueue, hall, ok_bind, Kernel.modifySchedulerNode_of_ne hne,
      Kernel.modifyProcess_of_ne hp] at h
    -- the first node of the ring, or one behind the first
    by_cases hcur : k.currentProcess = NULL
    · simp only [hcur, if_true, pure_eq_ok] at h
      refine ⟨n, m, hne, ho', .of_allocate hall hne, ?_, fun hcur' => absurd hcur hcur'⟩
      rw [← Except.ok.inj h]
      simp [hcur]
    · simp only [hcur, if_false] at h
      by_cases hqueue : k.processQueue = NULL
      · simp [hqueue] at h
      · simp only [load_of_ne hqueue, Kernel.modifySchedulerNode_of_ne hqueue, ok_bind,
          pure_eq_ok] at h
        refine ⟨n, m, hne, ho', .of_allocate hall hne, ?_, fun _ => hqueue⟩
        have hnext : (Function.update k.schedulerNode n { k.schedulerNode n with process := p }
            k.processQueue).next = (k.schedulerNode k.processQueue).next := by
          -- the successor is the same when the page of the new node was the first node of the ring
          by_cases hqn : k.processQueue = n
          · simp [hqn]
          · simp [hqn]
        rw [← Except.ok.inj h]
        simp only [hcur, if_false, Function.update_self, Function.update_idem, linkNode, hnext]
  · simp [addProcessToQueue, hall] at h

/-! ## `addThreadToProcess`

The thread gets a page, a block for its stack and a ring node. Which of the two branches links the
node depends on `currentThread` of the process. -/

/-- The thread that `createThread` leaves, with its stack from `base` on. -/
def newThread (entryPoint base : Addr) (pthread : Int) : ThreadNode :=
  { userStack := base - STACK_FRAME_SIZE, entryPoint, baseStack := base, pthread, state := .T_READY }

theorem createThread_inv {exec entryPoint t : Addr} {n : Int} (ho : Owns k.memory bs)
    (h : createThread k exec entryPoint n = .ok (t, k')) : ∃ base m, t ≠ NULL ∧
      STACK_FRAME_SIZE ≤ base ∧ Owns m ((base, STACK_SIZE) :: (t, PAGE_SIZE) :: bs) ∧
      Served k.memory [PAGE_SIZE, STACK_SIZE] [t, base] m ∧ k' = { k with
        memory := m
        thread := Function.update k.thread t (newThread entryPoint base n)
        stackFrame := Function.update k.stackFrame (base - STACK_FRAME_SIZE)
          (initialFrame exec entryPoint (base - STACK_FRAME_SIZE)) } := by
  rcases ho.allocate PAGE_SIZE (by decide) (by decide) with
    ⟨a, m, hall, hne, ho'⟩ | hall
  · simp only [createThread, hall, ok_bind, Kernel.modifyThread_of_ne hne] at h
    rcases (Owns.allocate (k := { k with
      memory := m
      thread := Function.update k.thread a { k.thread a with entryPoint } }) ho'
        STACK_SIZE (by decide) (by decide)) with ⟨base, m', hall', hbase, ho''⟩ | hall'
    · have hserved := (Served.of_allocate hall hne).append (Served.of_allocate hall' hbase)
      rw [STACK_SIZE] at hall'
      simp only [hall', ok_bind] at h
      obtain ⟨⟨frame, k₁⟩, hfill, h⟩ := bind_eq_ok.mp h
      by_cases hlow : base < STACK_FRAME_SIZE
      · simp [fillStackFrame, hlow] at hfill
      -- a stack at an address below the frame's size would be at the null pointer
      · simp only [fillStackFrame, hlow, if_false, pure_eq_ok] at hfill
        obtain ⟨rfl, rfl⟩ := Prod.mk.inj (Except.ok.inj hfill)
        simp only [pure_eq_ok] at h
        obtain ⟨rfl, rfl⟩ := Prod.mk.inj (Except.ok.inj h)
        refine ⟨base, m', hne, Nat.le_of_not_lt hlow, ho'', hserved, ?_⟩
        simp only [Function.update_self, Function.update_idem]
        rfl
    · rw [STACK_SIZE] at hall'
      simp [hall', fillStackFrame, NULL, STACK_FRAME_SIZE] at h
  · simp [createThread, hall] at h

/-- A process after the thread with the node `l` was linked into its ring. -/
def linkThread (l : Addr) (p : ProcessNode) : ProcessNode :=
  { p with
    threadLibrary := if p.currentThread = NULL then l else p.threadLibrary
    currentThread := if p.currentThread = NULL then l else p.currentThread
    currentPThread := p.currentPThread + 1
    threadSize := p.threadSize + 1 }

/-- A ring of threads with the new node `l` behind its first node `q`. -/
def linkLib (store : Addr → ThreadLibrary) (q l t : Addr) : Addr → ThreadLibrary :=
  let store' := Function.update store l ⟨t, (store q).next⟩
  Function.update store' q { store' q with next := l }

theorem linkLib_next (store : Addr → ThreadLibrary) (q l t : Addr) :
    (fun x => (linkLib store q l t x).next) = Function.update
      (Function.update (fun x => (store x).next) l (store q).next) q l := by
  funext x
  by_cases hxq : x = q
  · simp [linkLib, hxq]
  · by_cases hxl : x = l
    · subst hxl
      simp [linkLib, hxq]
    · simp [linkLib, hxq, hxl]

theorem linkLib_of_ne {store : Addr → ThreadLibrary} {q l t x : Addr} (hq : x ≠ q) (hl : x ≠ l) :
    linkLib store q l t x = store x := by
  simp [linkLib, hq, hl]

theorem linkLib_thread_of_ne {store : Addr → ThreadLibrary} {q l t x : Addr} (hx : x ≠ l) :
    (linkLib store q l t x).thread = (store x).thread := by
  by_cases hq : x = q
  · subst hq
    simp [linkLib, hx]
  · rw [linkLib_of_ne hq hx]

theorem linkLib_self {store : Addr → ThreadLibrary} {q l t : Addr} (h : l ≠ q) :
    (linkLib store q l t l).thread = t := by
  simp [linkLib, h]

theorem addThreadToProcess_inv {pid r : Int} {exec entryPoint a : Addr} (ho : Owns k.memory bs)
    (hget : getProcessWithPid fuel k pid = .ok a) (ha : a ≠ NULL)
    (h : addThreadToProcess fuel k pid exec entryPoint = .ok (r, k')) :
    ∃ t base l m, t ≠ NULL ∧ l ≠ NULL ∧ STACK_FRAME_SIZE ≤ base ∧
      Owns m ((l, PAGE_SIZE) :: (base, STACK_SIZE) :: (t, PAGE_SIZE) :: bs) ∧
      Served k.memory [PAGE_SIZE, STACK_SIZE, PAGE_SIZE] [t, base, l] m ∧
      r = (k.process a).currentPThread ∧ k' = { k with
        memory := m
        thread := Function.update k.thread t
          (newThread entryPoint base (k.process a).currentPThread)
        stackFrame := Function.update k.stackFrame (base - STACK_FRAME_SIZE)
          (initialFrame exec entryPoint (base - STACK_FRAME_SIZE))
        process := Function.update k.process a (linkThread l (k.process a))
        threadLibrary := if (k.process a).currentThread = NULL
          then Function.update k.threadLibrary l ⟨t, l⟩
          else linkLib k.threadLibrary (k.process a).threadLibrary l t } := by
  simp only [addThreadToProcess, hget, ok_bind, ha, if_false, load_of_ne ha] at h
  obtain ⟨⟨t, k₁⟩, hcreate, h⟩ := bind_eq_ok.mp h
  obtain ⟨base, m, ht, hbase, ho₁, hserved, rfl⟩ := createThread_inv ho hcreate
  rcases (Owns.allocate (k := { k with
      memory := m
      thread := Function.update k.thread t
        (newThread entryPoint base (k.process a).currentPThread)
      stackFrame := Function.update k.stackFrame (base - STACK_FRAME_SIZE)
        (initialFrame exec entryPoint (base - STACK_FRAME_SIZE)) }) ho₁
        PAGE_SIZE (by decide) (by decide)) with ⟨l, m', hall, hl, ho₂⟩ | hall
  · have hserved₂ := hserved.append (Served.of_allocate hall hl)
    simp only [hall, ok_bind, Kernel.modifyThreadLibrary_of_ne hl] at h
    -- the field `currentThread` decides between a new ring and the ring that is there
    by_cases hcur : (k.process a).currentThread = NULL
    · simp only [hcur, if_true, Kernel.modifyProcess_of_ne ha, ok_bind, load_of_ne ht,
        pure_eq_ok] at h
      obtain ⟨rfl, rfl⟩ := Prod.mk.inj (Except.ok.inj h)
      refine ⟨t, base, l, m', ht, hl, hbase, ho₂, hserved₂, ?_, ?_⟩
      · simp [newThread]
      · simp [linkThread, hcur]
    · by_cases hlib : (k.process a).threadLibrary = NULL
      · simp [hcur, hlib] at h
      · simp only [hcur, if_false, load_of_ne hlib, Kernel.modifyProcess_of_ne ha,
          Kernel.modifyThreadLibrary_of_ne hlib, ok_bind, load_of_ne ht, pure_eq_ok] at h
        obtain ⟨rfl, rfl⟩ := Prod.mk.inj (Except.ok.inj h)
        refine ⟨t, base, l, m', ht, hl, hbase, ho₂, hserved₂, ?_, ?_⟩
        · simp [newThread]
        · have hnext : (Function.update k.threadLibrary l { k.threadLibrary l with thread := t }
              (k.process a).threadLibrary).next
                = (k.threadLibrary (k.process a).threadLibrary).next := by
            by_cases hql : (k.process a).threadLibrary = l
            · simp [hql]
            · simp [hql]
          simp only [hnext, Function.update_self, Function.update_idem, linkLib, linkThread, hcur,
            if_false]
  · simp [hall] at h

/-! ## `addProcess`

All the pieces together: the structure, its place in the ring and its first thread, with the
counter of the pids moved on. -/

/-- The ring of processes before a creation. It is empty only while `main` runs. -/
structure Queue (k : Kernel) (bs : List (Addr × Nat)) (ns : List Addr) : Prop where
  ring : if k.currentProcess = NULL then ns = [] else Ring k.nextNode k.processQueue ns
  nodes : ∀ n ∈ ns, (n, PAGE_SIZE) ∈ bs
  processes : ∀ n ∈ ns, ((k.schedulerNode n).process, PAGE_SIZE) ∈ bs
  pids : ∀ n ∈ ns, (k.process (k.schedulerNode n).process).pid ≠ k.currentPid

/-- The ring of processes with the new node. -/
def Kernel.linkedNodes (k : Kernel) (n p : Addr) : Addr → SchedulerNode :=
  if k.currentProcess = NULL then Function.update k.schedulerNode n ⟨p, n⟩
  else linkNode k.schedulerNode k.processQueue n p

theorem Queue.linked {ns : List Addr} {n p : Addr} (h : Queue k bs ns)
    (hn : ∀ x ∈ ns, x ≠ n) :
    Ring (fun x => (k.linkedNodes n p x).next)
        (if k.currentProcess = NULL then n else k.processQueue) (insertSecond n ns) ∧
      (k.linkedNodes n p n).process = p ∧
      ∀ x ∈ ns, (k.linkedNodes n p x).process = (k.schedulerNode x).process := by
  have hring := h.ring
  by_cases hcur : k.currentProcess = NULL
  · rw [if_pos hcur] at hring
    subst hring
    rw [if_pos hcur]
    refine ⟨Ring.singleton ?_, ?_, by simp⟩ <;> simp [Kernel.linkedNodes, hcur]
  · rw [if_neg hcur] at hring ⊢
    have hq := hn _ hring.head_mem
    have hlinked : k.linkedNodes n p = linkNode k.schedulerNode k.processQueue n p := if_neg hcur
    rw [hlinked]
    refine ⟨?_, linkNode_self hq.symm, fun x hx => linkNode_process_of_ne (hn x hx)⟩
    obtain ⟨t, rfl⟩ := hring.exists_cons
    rw [linkNode_next]
    exact hring.insert_after_head fun hmem => hn n hmem rfl

/-- The new process when its page held `stale`. -/
def addedProcess (stale : ProcessNode) (pid ppid : Int) (name l : Addr) : ProcessNode :=
  linkThread l { freshProcess stale pid ppid name with threadTick := 0 }

theorem addProcess_inv {ns : List Addr} {exec entryPoint name : Addr} {r : Int}
    (ho : Owns k.memory bs) (hq : Queue k bs ns)
    (h : addProcess fuel k exec entryPoint name = .ok (r, k')) :
    ∃ a n t base l chars ppid m char, (∃ m₁, k.allocate PAGE_SIZE = .ok (a, { k with memory := m₁ })) ∧
      r = k.currentPid ∧ Returns (getProcessWithPid · k' k.currentPid) a ∧
      Owns m ((l, PAGE_SIZE) :: (base, STACK_SIZE) :: (t, PAGE_SIZE) ::
        (n, PAGE_SIZE) :: (chars, NAME_LENGTH) :: (a, PAGE_SIZE) :: bs) ∧ STACK_FRAME_SIZE ≤ base ∧
      Served k.memory [PAGE_SIZE, NAME_LENGTH, PAGE_SIZE, PAGE_SIZE, STACK_SIZE, PAGE_SIZE]
        [a, chars, n, t, base, l] m ∧ k' = { k with
          memory := m
          char := char
          currentPid := k.currentPid + 1
          processes := a :: k.processes
          process := Function.update k.process a
            (addedProcess (k.process a) k.currentPid ppid chars l)
          queueSize := k.queueSize + 1
          currentProcess := if k.currentProcess = NULL then n else k.currentProcess
          processQueue := if k.currentProcess = NULL then n else k.processQueue
          schedulerNode := k.linkedNodes n a
          thread := Function.update k.thread t (newThread entryPoint base 0)
          stackFrame := Function.update k.stackFrame (base - STACK_FRAME_SIZE)
            (initialFrame exec entryPoint (base - STACK_FRAME_SIZE))
          threadLibrary := if (k.process a).currentThread = NULL
            then Function.update k.threadLibrary l ⟨t, l⟩
            else linkLib k.threadLibrary (k.process a).threadLibrary l t } := by
  simp only [addProcess] at h
  obtain ⟨ppid, -, h⟩ := bind_eq_ok.mp h
  obtain ⟨⟨a, k₁⟩, hcreate, h⟩ := bind_eq_ok.mp h
  obtain ⟨hall, chars, m₁, char, ho₁, hserved₁, rfl⟩ := createProcess_inv ho hcreate
  have ha : a ≠ NULL := ho₁.ne_null (b := (a, PAGE_SIZE)) (by simp)
  have hoa := ho₁.sublist (List.sublist_cons_self _ _)
  obtain ⟨k₂, hqueue, h⟩ := bind_eq_ok.mp h
  obtain ⟨n, m₂, hn, ho₂, hserved₂, hk₂, -⟩ := addProcessToQueue_inv ho₁ ha hqueue
  -- the new node is none of the ring, since its page was free
  have hfresh : ∀ x ∈ ns, x ≠ n := fun x hx =>
    ho₂.fresh (List.mem_cons_of_mem _ (List.mem_cons_of_mem _ (hq.nodes x hx)))
  obtain ⟨hring, hnode, hothers⟩ := hq.linked (p := a) hfresh
  have hnodes₂ : k₂.schedulerNode = k.linkedNodes n a := by rw [hk₂]; rfl
  have hqueue₂ : k₂.processQueue = if k.currentProcess = NULL then n else k.processQueue := by
    rw [hk₂]
  have hmem₂ : k₂.memory = m₂ := by rw [hk₂]
  have hproc₂ : k₂.process = Function.update k.process a
      { freshProcess (k.process a) k.currentPid ppid chars with threadTick := 0 } := by
    rw [hk₂]
    simp only [Function.update_self, Function.update_idem]
  have hpid₂ : (k₂.process a).pid = k.currentPid := by rw [hproc₂, Function.update_self]; rfl
  -- the search by pid finds the new process, before its thread is created and after
  have hold : ∀ x ∈ ns, (k.linkedNodes n a x).process = (k.schedulerNode x).process ∧
      (k.schedulerNode x).process ≠ a := fun x hx =>
    ⟨hothers x hx, hoa.fresh (hq.processes x hx)⟩
  have hne : ∀ x ∈ insertSecond n ns, x ≠ NULL ∧ (k.linkedNodes n a x).process ≠ NULL := by
    intro x hx
    rcases mem_insertSecond.mp hx with rfl | hx
    · rw [hnode]
      exact ⟨hn, ha⟩
    · rw [(hold x hx).1]
      exact ⟨ho.ne_null (hq.nodes x hx), ho.ne_null (hq.processes x hx)⟩
  have hsearch : ∀ k₃ : Kernel, k₃.schedulerNode = k.linkedNodes n a →
      k₃.processQueue = (if k.currentProcess = NULL then n else k.processQueue) →
      (k₃.process a).pid = k.currentPid → (∀ x, x ≠ a → k₃.process x = k.process x) →
      Returns (getProcessWithPid · k₃ k.currentPid) a := by
    intro k₃ hnodes₃ hqueue₃ hpid₃ hprocess₃
    have hring₃ : Ring k₃.nextNode k₃.processQueue (insertSecond n ns) := by
      have hnext₃ : k₃.nextNode = fun x => (k.linkedNodes n a x).next := by
        funext x
        rw [Kernel.nextNode, hnodes₃]
      rw [hqueue₃, hnext₃]
      exact hring
    have hne₃ : ∀ x ∈ insertSecond n ns, x ≠ NULL ∧ (k₃.schedulerNode x).process ≠ NULL := by
      rw [hnodes₃]
      exact hne
    rcases getProcessWithPid_ring hring₃ hne₃ k.currentPid with ⟨x, hx, hpid, hret⟩ | ⟨hno, -⟩
    · rw [hnodes₃] at hpid hret
      rcases mem_insertSecond.mp hx with rfl | hx
      · rwa [hnode] at hret
      · rw [(hold x hx).1, hprocess₃ _ (hold x hx).2] at hpid
        exact absurd hpid (hq.pids x hx)
    · refine absurd ?_ (hno n (mem_insertSecond.mpr (.inl rfl)))
      rw [hnodes₃, hnode, hpid₃]
  have hsearch₂ := hsearch k₂ hnodes₂ hqueue₂ hpid₂ fun x hx => by
    rw [hproc₂, Function.update_of_ne hx]
  simp only [load_of_ne ha, ok_bind, hpid₂] at h
  obtain ⟨⟨r', k₃⟩, hthread, h⟩ := bind_eq_ok.mp h
  obtain ⟨b, hget, -⟩ := bind_eq_ok.mp hthread
  obtain rfl := hsearch₂.eq hget
  obtain ⟨t, base, l, m₃, ht, hl, hbase, ho₃, hserved₃, -, rfl⟩ :=
    addThreadToProcess_inv (hmem₂ ▸ ho₂) hget ha hthread
  rw [hmem₂] at hserved₃
  simp only [pure_eq_ok, Function.update_self] at h
  obtain ⟨rfl, rfl⟩ := Prod.mk.inj (Except.ok.inj h)
  refine ⟨b, n, t, base, l, chars, ppid, m₃, char, hall, ?_, ?_, ho₃, hbase,
    (hserved₁.append hserved₂).append hserved₃, ?_⟩
  · exact hpid₂
  · refine hsearch _ hnodes₂ hqueue₂ ?_ fun x hx => ?_
    · show (Function.update k₂.process b (linkThread l (k₂.process b)) b).pid = k.currentPid
      rw [Function.update_self]
      exact hpid₂
    · show Function.update k₂.process b (linkThread l (k₂.process b)) x = k.process x
      rw [Function.update_of_ne hx, hproc₂, Function.update_of_ne hx]
  · rw [hk₂]
    simp only [Function.update_self, Function.update_idem]
    rfl

end BasicKernel
