import BasicKernel.View.Create

set_option autoImplicit false

/-! # Creation on a view

A new process and a new thread join a ring behind its first node. The structures come from pages
that the allocator has just handed out, so they are apart from everything the view holds. The
fields that the creation does not write keep what the page held. For a process this matters once:
`addThreadToProcess` reads `currentThread` of the new structure, and only when it is 0 does the
new thread start a ring. `CleanFor` is this condition.

`Rep.addProcess_inv` and `Rep.addThread_inv` are what later modules use: from a call that returned
they give the new view, the numbers of what was made and the pages that it owns.
-/

namespace BasicKernel

open Linked Keyed Fuel

/-- A new thread, behind the first one of the ring. -/
def ProcessView.addThread (t : ThreadView) (p : ProcessView) : ProcessView :=
  { p with
    threads := insertSecond t p.threads
    val := { p.val with
      currentPThread := p.val.currentPThread + 1
      threadSize := p.val.threadSize + 1 } }

/-- A new process, behind the first one of the ring. -/
def View.addProcess (p : ProcessView) (V : View) : View :=
  { V with
    table := insertSecond p V.table
    queueSize := V.queueSize + 1
    nextPid := V.nextPid + 1
    others := (p.val.name, NAME_LENGTH) :: V.others }

/-- A thread that was just created. -/
structure ThreadView.Created (t : ThreadView) (entryPoint : Addr) (pthread : Int) : Prop where
  entryPoint : t.val.entryPoint = entryPoint
  pthread : t.val.pthread = pthread
  state : t.val.state = .T_READY
  userStack : t.val.userStack = t.val.baseStack - STACK_FRAME_SIZE
  frame_le : STACK_FRAME_SIZE ≤ t.val.baseStack

/-- A process that was just created, in a page whose `currentThread` was the null pointer. -/
structure ProcessView.Created (p : ProcessView) (entryPoint : Addr) (pid : Int) : Prop where
  threads : ∃ t, p.threads = [t] ∧ t.Created entryPoint 0 ∧ p.val.currentThread = t.lib
  heap : p.heap = []
  pid : p.val.pid = pid
  state : p.val.state = .READY
  threadSize : p.val.threadSize = 1
  threadTick : p.val.threadTick = 0
  currentPThread : p.val.currentPThread = 1

theorem ProcessView.Ok.addThread {p : ProcessView} (h : p.Ok) {t : ThreadView}
    (ht : t.val.pthread = p.val.currentPThread) (hstate : 0 ≤ p.val.currentPThread) :
    (p.addThread t).Ok := by
  have hnew : t.val.pthread ∉ p.threads.map (·.val.pthread) := by
    intro hmem
    obtain ⟨u, hu, hut⟩ := List.mem_map.mp hmem
    have := (h.pthread_lt u hu).2
    omega
  refine ⟨?_, ?_, fun u hu => ?_, ?_⟩
  · have := h.size_le
    simp only [ProcessView.addThread, length_insertSecond]
    push_cast
    omega
  · rw [ProcessView.addThread, map_insertSecond, (insertSecond_perm _ _).nodup_iff]
    exact List.nodup_cons.mpr ⟨hnew, h.pthreads⟩
  · show 0 ≤ u.val.pthread ∧ u.val.pthread < p.val.currentPThread + 1
    rcases mem_insertSecond.mp hu with rfl | hu
    · omega
    · have := h.pthread_lt u hu
      omega
  · obtain ⟨u, us, hus, h0, hs⟩ := h.main
    exact ⟨u, t :: us, by simp [ProcessView.addThread, hus, insertSecond], h0, hs⟩

theorem ProcessView.Ok.next_nonneg {p : ProcessView} (h : p.Ok) : 0 ≤ p.val.currentPThread := by
  obtain ⟨t, ts, hts, h0, -⟩ := h.main
  have := h.pthread_lt t (by rw [hts]; exact List.mem_cons_self)
  omega

theorem ProcessView.Created.thread {p : ProcessView} {entryPoint : Addr} {pid : Int}
    (h : p.Created entryPoint pid) {t : ThreadView} (ht : t ∈ p.threads) : t.Created entryPoint 0 := by
  obtain ⟨u, hthreads, hu, -⟩ := h.threads
  rw [hthreads] at ht
  obtain rfl := List.mem_singleton.mp ht
  exact hu

theorem ProcessView.Created.ok {p : ProcessView} {entryPoint : Addr} {pid : Int}
    (h : p.Created entryPoint pid) : p.Ok := by
  obtain ⟨t, hts, ht, -⟩ := h.threads
  refine ⟨by simp [h.threadSize, hts], by simp [hts], fun u hu => ?_,
    t, [], hts, ht.pthread, by simp [ht.state]⟩
  rw [hts, List.mem_singleton] at hu
  rw [hu, ht.pthread, h.currentPThread]
  decide

theorem View.Numbered.next_nonneg {V : View} (h : V.Numbered) : 0 ≤ V.nextPid := by
  obtain ⟨p, ps, hps, h0, -⟩ := h.main
  have := h.pid_lt p (by rw [hps]; exact List.mem_cons_self)
  omega

theorem View.alive_addProcess (V : View) {p : ProcessView} {entryPoint : Addr} {pid : Int}
    (hp : p.Created entryPoint pid) : (V.addProcess p).alive = V.alive + 1 := by
  unfold View.alive View.addProcess
  rw [(insertSecond_perm p V.table).countP_eq, List.countP_cons]
  simp [hp.state]

theorem View.Ok.addProcess {V : View} (h : V.Ok) {p : ProcessView} {entryPoint : Addr}
    (hp : p.Created entryPoint V.nextPid) : (V.addProcess p).Ok := by
  -- the pid is the counter, which is above all pids in use
  have hnew : p.val.pid ∉ V.table.map (·.val.pid) := by
    intro hmem
    obtain ⟨q, hq, hqp⟩ := List.mem_map.mp hmem
    have := (h.pid_lt q hq).2
    rw [hp.pid] at hqp
    omega
  have h0 := h.next_nonneg
  refine ⟨⟨fun q hq => ?_, ?_, fun q hq => ?_, ?_, ?_⟩, ?_⟩
  · rcases mem_insertSecond.mp hq with rfl | hq
    · exact hp.ok
    · exact h.processes q hq
  · rw [View.addProcess, map_insertSecond, (insertSecond_perm _ _).nodup_iff]
    exact List.nodup_cons.mpr ⟨hnew, h.pids⟩
  · show 0 ≤ q.val.pid ∧ q.val.pid < V.nextPid + 1
    rcases mem_insertSecond.mp hq with rfl | hq
    · rw [hp.pid]
      omega
    · have := h.pid_lt q hq
      omega
  · obtain ⟨q, qs, hqs, hq0, hs⟩ := h.main
    exact ⟨q, p :: qs, by simp [View.addProcess, hqs, insertSecond], hq0, hs⟩
  · have hle := h.queueSize_le
    rw [V.alive_addProcess hp]
    show V.queueSize + 1 ≤ _
    omega
  · obtain ⟨q, hq, hcur⟩ := h.current
    exact ⟨q, mem_insertSecond.mpr (.inr hq), hcur⟩

theorem ProcessView.addThread_blocks (p : ProcessView) (t : ThreadView) :
    (p.addThread t).blocks.Perm (t.blocks ++ p.blocks) := by
  have h := ((insertSecond_perm t p.threads).flatMap_right ThreadView.blocks).append_right
    (p.heap.flatMap HeapView.blocks ++ [(p.addr, PAGE_SIZE), (p.node, PAGE_SIZE)])
  simpa [ProcessView.blocks, addThread] using h

theorem View.addProcess_blocks (V : View) (p : ProcessView) :
    (V.addProcess p).blocks.Perm (p.blocks ++ ((p.val.name, NAME_LENGTH) :: V.blocks)) := by
  have h := ((insertSecond_perm p V.table).flatMap_right ProcessView.blocks).append_right
    (V.mutexes.flatMap LockView.blocks ++ (V.semaphores.flatMap LockView.blocks ++
      (p.val.name, NAME_LENGTH) :: V.others))
  have hmove : (V.table.flatMap ProcessView.blocks ++ (V.mutexes.flatMap LockView.blocks ++
      (V.semaphores.flatMap LockView.blocks ++ (p.val.name, NAME_LENGTH) :: V.others))).Perm
      ((p.val.name, NAME_LENGTH) :: V.blocks) := by
    simp only [View.blocks, ← List.append_assoc]
    exact List.perm_middle
  simp only [List.flatMap_cons, List.append_assoc] at h
  simpa only [View.blocks, addProcess, List.append_assoc] using h.trans (hmove.append_left p.blocks)

theorem ThreadView.blocks_perm (t : ThreadView) : t.blocks.Perm
    [(t.lib, PAGE_SIZE), (t.val.baseStack, STACK_SIZE), (t.addr, PAGE_SIZE)] := by
  show ([(t.val.baseStack, STACK_SIZE), (t.addr, PAGE_SIZE)] ++ [(t.lib, PAGE_SIZE)]).Perm _
  exact List.perm_append_comm

/-- The new process of a creation in a page without a stale `currentThread`. -/
def addedView (n a l t : Addr) (val : ProcessNode) (thread : ThreadNode) : ProcessView :=
  { node := n, addr := a, val, threads := [⟨l, t, thread⟩], heap := [] }

theorem addedView_rep {k' : Kernel} {n a l t : Addr} {val : ProcessNode} {thread : ThreadNode} (hn : n ≠ NULL)
    (ha : a ≠ NULL) (hl : l ≠ NULL) (ht : t ≠ NULL) (hnode : (k'.schedulerNode n).process = a)
    (hval : k'.process a = val) (hlib : k'.threadLibrary l = ⟨t, l⟩) (hthread : k'.thread t = thread)
    (hlibrary : val.threadLibrary = l) (hcur : val.currentThread = l) (hheap : val.heap = NULL) :
    RepProcess k' (addedView n a l t val thread) := by
  refine ⟨hn, ha, hnode, hval, ?_, ?_, ?_, Chain.nil_iff.mpr hheap, fun b hb => by cases hb⟩
  · show Ring k'.nextLib val.threadLibrary [l]
    rw [hlibrary]
    exact Ring.singleton (by rw [Kernel.nextLib, hlib])
  · intro u hu
    obtain rfl := List.mem_singleton.mp hu
    exact ⟨hl, ht, by rw [hlib], hthread⟩
  · exact List.mem_singleton.mpr hcur

theorem addedView_blocks (n a l t : Addr) (val : ProcessNode) (thread : ThreadNode) :
    (addedView n a l t val thread).blocks.Perm [(l, PAGE_SIZE), (thread.baseStack, STACK_SIZE),
      (t, PAGE_SIZE), (n, PAGE_SIZE), (a, PAGE_SIZE)] :=
  (ThreadView.blocks_perm ⟨l, t, thread⟩).append (.swap (n, PAGE_SIZE) (a, PAGE_SIZE) [])

/-- The pages of a new process, its name among them, in the order of their allocation. -/
theorem addedView_blocks_perm (n a l t chars : Addr) (val : ProcessNode) (thread : ThreadNode)
    (bs : List (Addr × Nat)) :
    ((addedView n a l t val thread).blocks ++ (chars, NAME_LENGTH) :: bs).Perm
      ((l, PAGE_SIZE) :: (thread.baseStack, STACK_SIZE) :: (t, PAGE_SIZE) :: (n, PAGE_SIZE) ::
        (chars, NAME_LENGTH) :: (a, PAGE_SIZE) :: bs) := by
  refine ((addedView_blocks n a l t val thread).append_right _).trans ?_
  simp only [List.cons_append, List.nil_append]
  exact ((((List.Perm.swap ..).cons _).cons _).cons _).cons _

/-- A stale page does no harm to a new process whose thread gets the ring node `l`. -/
def ProcessNode.CleanFor (stale : ProcessNode) (l : Addr) : Prop :=
  stale.currentThread = NULL ∨ stale.currentThread = l ∧ stale.threadLibrary = l

theorem addedProcess_library {stale : ProcessNode} {l chars : Addr} {pid ppid : Int}
    (h : stale.CleanFor l) : (addedProcess stale pid ppid chars l).threadLibrary = l := by
  show (if stale.currentThread = NULL then l else stale.threadLibrary) = l
  split
  case isTrue => rfl
  case isFalse hne => exact (h.resolve_left hne).2

theorem addedProcess_current {stale : ProcessNode} {l chars : Addr} {pid ppid : Int}
    (h : stale.CleanFor l) : (addedProcess stale pid ppid chars l).currentThread = l := by
  show (if stale.currentThread = NULL then l else stale.currentThread) = l
  split
  case isTrue => rfl
  case isFalse hne => exact (h.resolve_left hne).1

/-- The ring of a new process is made of its node. -/
theorem linkLib_clean {stale : ProcessNode} {l t : Addr} (store : Addr → ThreadLibrary)
    (h : stale.CleanFor l) : (if stale.currentThread = NULL then Function.update store l ⟨t, l⟩
      else linkLib store stale.threadLibrary l t) = Function.update store l ⟨t, l⟩ := by
  split
  case isTrue => rfl
  case isFalse hne =>
      rw [(h.resolve_left hne).2]
      simp [linkLib]

theorem addedView_created {n a l t entryPoint base chars : Addr} {pid ppid : Int}
    {stale : ProcessNode} (hstale : stale.CleanFor l) (hbase : STACK_FRAME_SIZE ≤ base) :
    (addedView n a l t (addedProcess stale pid ppid chars l)
      (newThread entryPoint base 0)).Created entryPoint pid :=
  ⟨⟨_, rfl, ⟨rfl, rfl, rfl, rfl, hbase⟩, addedProcess_current hstale⟩, rfl, rfl, rfl, rfl, rfl, rfl⟩

namespace Rep

variable {k k' : Kernel} {V : View} {p : ProcessView} {fuel : Nat}

/-- A call of `addThreadToProcess` that returned, with the frame that it filled. -/
theorem addThread_cases (hr : Rep k V) (hok : V.Ok) {pid r : Int} {exec entryPoint : Addr}
    (h : addThreadToProcess fuel k pid exec entryPoint = .ok (r, k')) :
    (∀ p ∈ V.table, p.val.pid ≠ pid) ∧ k' = k ∨
      ∃ p ∈ V.table, p.val.pid = pid ∧ ∃ t, t.Created entryPoint p.val.currentPThread ∧
        k'.stackFrame t.val.userStack = initialFrame exec entryPoint t.val.userStack ∧
        Rep k' (V.set p (p.addThread t)) ∧ (V.set p (p.addThread t)).Ok := by
  obtain ⟨a, hget, -⟩ := bind_eq_ok.mp h
  rcases hr.getProcessWithPid pid with ⟨p, hp, hpid, hret⟩ | ⟨hno, hret⟩
  · obtain rfl := hret.eq hget
    refine .inr ⟨p, hp, hpid, ?_⟩
    have hrp := hr.processes p hp
    obtain ⟨t, base, l, m, ht, hl, hbase, ho, -, -, hk'⟩ :=
      addThreadToProcess_inv hr.owns hget hrp.addr_ne h
    have hframe : k'.stackFrame = Function.update k.stackFrame (base - STACK_FRAME_SIZE)
        (initialFrame exec entryPoint (base - STACK_FRAME_SIZE)) := by rw [hk']
    obtain ⟨c, hc, hccur⟩ := hrp.exists_current
    -- a process of the view has a current thread, so the new one joins its ring
    have hcur : (k.process p.addr).currentThread ≠ NULL := by
      rw [hrp.val, ← hccur]
      exact (hrp.threads c hc).lib_ne
    let u : ThreadView := ⟨l, t, newThread entryPoint base p.val.currentPThread⟩
    have hu : u.Created entryPoint p.val.currentPThread := ⟨rfl, rfl, rfl, rfl, hbase⟩
    have hok' := hr.ok_set hok hp ((hok.processes p hp).addThread hu.pthread
      (hok.processes p hp).next_nonneg) rfl rfl id
    have huser : u.val.userStack = base - STACK_FRAME_SIZE := rfl
    refine ⟨u, hu, by rw [huser, hframe, Function.update_self], ?_, hok'⟩
    subst hk'
    -- the two pages were free, so no structure of the view lies in them
    have hlib : ∀ q ∈ V.table, ∀ v ∈ q.threads, v.lib ≠ l := fun q hq v hv =>
      ho.fresh (List.mem_cons_of_mem _ (List.mem_cons_of_mem _ (mem_blocks_lib hq hv)))
    have hthread : ∀ q ∈ V.table, ∀ v ∈ q.threads, v.addr ≠ t := fun q hq v hv =>
      (ho.sublist (List.drop_sublist 2 _)).fresh (mem_blocks_thread hq hv)
    obtain ⟨w, ws, hws, -, -⟩ := (hok.processes p hp).main
    have hw : w ∈ p.threads := by rw [hws]; exact List.mem_cons_self
    have hhead : p.val.threadLibrary = w.lib := by
      have := hrp.ring.path
      rw [hws] at this
      exact this.1
    simp only [hrp.val] at hcur ⊢
    simp only [hcur, if_false]
    refine hr.replace hp rfl rfl ⟨hrp.node_ne, hrp.addr_ne, hrp.process, ?_, ?_, ?_, ?_, ?_, ?_⟩
      (fun q hq hqp => ?_) rfl ?_
    · show Function.update k.process p.addr (linkThread l p.val) p.addr = _
      rw [Function.update_self]
      simp [linkThread, hcur, ProcessView.addThread]
    -- the ring is linked behind its first node
    · show Ring (fun x => (linkLib k.threadLibrary p.val.threadLibrary l t x).next) _
        ((insertSecond u p.threads).map ThreadView.lib)
      have hring := hrp.ring
      rw [linkLib_next, map_insertSecond]
      rw [hws, List.map_cons, ← hhead] at hring ⊢
      refine hring.insert_after_head fun hmem => ?_
      rw [hhead, ← List.map_cons, ← hws] at hmem
      obtain ⟨v, hv, hvl⟩ := List.mem_map.mp hmem
      exact hlib p hp v hv hvl
    · intro v hv
      rcases mem_insertSecond.mp hv with rfl | hv
      · exact ⟨hl, ht, linkLib_self (by rw [hhead]; exact (hlib p hp w hw).symm),
          Function.update_self ..⟩
      · exact (hrp.threads v hv).congr (linkLib_thread_of_ne (hlib p hp v hv))
          (Function.update_of_ne (hthread p hp v hv) _ _)
    · show p.val.currentThread ∈ (insertSecond u p.threads).map ThreadView.lib
      rw [map_insertSecond]
      exact mem_insertSecond.mpr (.inr hrp.current)
    · exact hrp.heap
    · exact fun b hb => ⟨(hrp.blocks b hb).address, (hrp.blocks b hb).size⟩
    · refine (hr.processes q hq).congr rfl ?_ (fun v hv => ?_) (fun v hv => ?_) fun _ _ => rfl
      · exact Function.update_of_ne (fun h => hqp (hr.eq_of_addr hq hp h)) _ _
      · refine linkLib_of_ne (fun h => ?_) (hlib q hq v hv)
        exact hqp (hr.eq_of_lib hq hp hv hw (h.trans hhead)).1
      · exact Function.update_of_ne (hthread q hq v hv) _ _
    · obtain ⟨rest, hV, hset⟩ := hr.blocks_perm hp
      refine ho.perm (List.Perm.trans ?_ (hset _).symm)
      have hblocks : (p.addThread u).blocks.Perm
          ((l, PAGE_SIZE) :: (base, STACK_SIZE) :: (t, PAGE_SIZE) :: p.blocks) :=
        (p.addThread_blocks u).trans (u.blocks_perm.append_right p.blocks)
      exact (((hV.cons _).cons _).cons _).trans (hblocks.append_right rest).symm
  · obtain rfl := hret.eq hget
    simp [addThreadToProcess, hget] at h
    exact .inl ⟨hno, h.2.symm⟩

/-- A call of `addThreadToProcess` that returned. -/
theorem addThread_inv (hr : Rep k V) (hok : V.Ok) {pid r : Int} {exec entryPoint : Addr}
    (h : addThreadToProcess fuel k pid exec entryPoint = .ok (r, k')) :
    (∀ p ∈ V.table, p.val.pid ≠ pid) ∧ k' = k ∨
      ∃ p ∈ V.table, p.val.pid = pid ∧ ∃ t, t.Created entryPoint p.val.currentPThread ∧
        Rep k' (V.set p (p.addThread t)) ∧ (V.set p (p.addThread t)).Ok := by
  rcases hr.addThread_cases hok h with hnone | ⟨p, hp, hpid, t, ht, -, hr', hok'⟩
  · exact .inl hnone
  · exact .inr ⟨p, hp, hpid, t, ht, hr', hok'⟩

theorem toQueue (hr : Rep k V) (hok : V.Ok) : Queue k V.blocks (V.table.map ProcessView.node) := by
  have hcur := hr.currentProcess_ne hok
  refine ⟨by rw [if_neg hcur]; exact hr.queue, ?_, ?_, ?_⟩
  all_goals
    intro n hn
    obtain ⟨p, hp, rfl⟩ := List.mem_map.mp hn
    have hrp := hr.processes p hp
  · exact mem_blocks_node hp
  · rw [hrp.process]
    exact mem_blocks_addr hp
  · rw [hrp.process, hrp.val, hr.nextPid]
    exact ne_of_lt (hok.pid_lt p hp).2

/-- A call of `addProcess` that returned: the process that it made is found, and it is a new entry of
the view when the page it got is clean for its ring node. Otherwise its ring is not one node. -/
theorem addProcess_cases (hr : Rep k V) (hok : V.Ok) {exec entryPoint name : Addr} {r : Int}
    (h : addProcess fuel k exec entryPoint name = .ok (r, k')) :
    ∃ a chars n t base l, (∃ m₁, k.allocate PAGE_SIZE = .ok (a, { k with memory := m₁ })) ∧
      Served k.memory [PAGE_SIZE, NAME_LENGTH, PAGE_SIZE, PAGE_SIZE, STACK_SIZE, PAGE_SIZE]
        [a, chars, n, t, base, l] k'.memory ∧
      r = V.nextPid ∧ a ≠ NULL ∧ Returns (BasicKernel.getProcessWithPid · k' r) a ∧
      ((k.process a).CleanFor l → ∃ p, p.addr = a ∧ p.val.name = chars ∧
        p.threads.map ThreadView.lib = [l] ∧ p.Created entryPoint V.nextPid ∧
        (∀ u ∈ p.threads, k'.stackFrame u.val.userStack =
          initialFrame exec entryPoint u.val.userStack) ∧
        Rep k' (V.addProcess p) ∧ (V.addProcess p).Ok) ∧
      ∀ x, Ring k'.nextLib (k'.process a).threadLibrary [x] → (k'.process a).currentThread = x →
        (k.process a).CleanFor l := by
  have hqueue := hr.toQueue hok
  obtain ⟨a, n, t, base, l, chars, ppid, m, char, hall, rfl, hget, ho, hbase, hserved, hk'⟩ :=
    BasicKernel.addProcess_inv hr.owns hqueue h
  have hne : l ≠ NULL ∧ t ≠ NULL ∧ n ≠ NULL ∧ a ≠ NULL :=
    ⟨ho.ne_null (b := (l, PAGE_SIZE)) (by simp), ho.ne_null (b := (t, PAGE_SIZE)) (by simp),
      ho.ne_null (b := (n, PAGE_SIZE)) (by simp), ho.ne_null (b := (a, PAGE_SIZE)) (by simp)⟩
  refine ⟨a, chars, n, t, base, l, hall, ?_, hr.nextPid, hne.2.2.2, hget, fun hstale => ?_,
    fun x hring hcur => ?_⟩
  · rw [hk']
    exact hserved
  · have hframe : k'.stackFrame = Function.update k.stackFrame (base - STACK_FRAME_SIZE)
        (initialFrame exec entryPoint (base - STACK_FRAME_SIZE)) := by rw [hk']
    subst hk'
    let p := addedView n a l t (addedProcess (k.process a) k.currentPid ppid chars l)
      (newThread entryPoint base 0)
    have hp : p.Created entryPoint V.nextPid := hr.nextPid ▸ addedView_created hstale hbase
    refine ⟨p, rfl, rfl, rfl, hp, fun u hu => ?_, ?_, hok.addProcess hp⟩
    · have huser : u.val.userStack = base - STACK_FRAME_SIZE := by
        rw [List.mem_singleton.mp hu]
        rfl
      rw [huser, hframe, Function.update_self]
    -- the new pages are none of the old ones
    have hfresh : ∀ b ∈ V.blocks, b.1 ≠ l ∧ b.1 ≠ t ∧ b.1 ≠ n ∧ b.1 ≠ a := fun b hb =>
      ⟨ho.fresh (by simp [hb]), (ho.sublist (List.drop_sublist 2 _)).fresh (by simp [hb]),
        (ho.sublist (List.drop_sublist 3 _)).fresh (by simp [hb]),
        (ho.sublist (List.drop_sublist 5 _)).fresh (by simp [hb])⟩
    obtain ⟨hring, hnode, hothers⟩ := hqueue.linked (n := n) (p := a) fun x hx => by
      obtain ⟨q, hq, rfl⟩ := List.mem_map.mp hx
      exact (hfresh _ (mem_blocks_node hq)).2.2.1
    have hcur := hr.currentProcess_ne hok
    simp only [linkLib_clean k.threadLibrary hstale, hcur, if_false] at hring ⊢
    refine ⟨?_, fun q hq => ?_, hr.current, hr.ticks, ?_, ?_, hr.mutexes.congr (fun _ _ => rfl)
      fun _ _ _ _ => rfl, hr.mutexCounter, hr.semaphores.congr (fun _ _ => rfl) fun _ _ _ _ => rfl,
      hr.semaphoreCounter, ?_, ?_, hr.freedOnce⟩
    · rw [View.addProcess, map_insertSecond]
      exact hring
    · rcases mem_insertSecond.mp hq with rfl | hq
      · exact addedView_rep hne.2.2.1 hne.2.2.2 hne.1 hne.2.1 hnode (Function.update_self ..)
          (Function.update_self ..) (Function.update_self ..) (addedProcess_library hstale)
          (addedProcess_current hstale) rfl
      · refine (hr.processes q hq).congr (hothers _ (List.mem_map_of_mem hq)) ?_ (fun u hu => ?_)
          (fun u hu => ?_) fun _ _ => rfl
        · exact Function.update_of_ne (hfresh _ (mem_blocks_addr hq)).2.2.2 _ _
        · exact Function.update_of_ne (hfresh _ (mem_blocks_lib hq hu)).1 _ _
        · exact Function.update_of_ne (hfresh _ (mem_blocks_thread hq hu)).2.1 _ _
    · show k.queueSize + 1 = V.queueSize + 1
      rw [hr.queueSize]
    · show k.currentPid + 1 = V.nextPid + 1
      rw [hr.nextPid]
    · exact ho.perm ((V.addProcess_blocks p).trans
        (addedView_blocks_perm n a l t chars _ _ V.blocks)).symm
    · show (a :: k.processes).Perm ((insertSecond p V.table).map ProcessView.addr)
      rw [map_insertSecond]
      exact (hr.created.cons a).trans (insertSecond_perm _ _).symm
  · by_cases hstale : (k.process a).currentThread = NULL
    · exact .inl hstale
    · right
      have hprocess : k'.process a = addedProcess (k.process a) k.currentPid ppid chars l := by
        rw [hk']
        exact Function.update_self ..
      have hlibrary : (k'.process a).threadLibrary = (k.process a).threadLibrary := by
        rw [hprocess]
        exact if_neg hstale
      have hcurrent : (k'.process a).currentThread = (k.process a).currentThread := by
        rw [hprocess]
        exact if_neg hstale
      -- the new node was put behind the stale head
      have hnext : k'.nextLib (k.process a).threadLibrary = l := by
        rw [Kernel.nextLib, hk']
        simp only [hstale, if_false, linkLib, Function.update_self]
      obtain ⟨hx, hend⟩ := hring.path
      rw [hlibrary] at hx hend
      rw [← hx, hnext] at hend
      exact ⟨by rw [← hcurrent, hcur, ← hx, ← hend], hend.symm⟩

/-- A call of `addProcess` that returned, when the page of the new process held a null pointer as
`currentThread`. -/
theorem addProcess_inv (hr : Rep k V) (hok : V.Ok) {exec entryPoint name : Addr} {r : Int}
    (hclean : ∀ a k₁, k.allocate PAGE_SIZE = .ok (a, k₁) → (k.process a).currentThread = NULL)
    (h : addProcess fuel k exec entryPoint name = .ok (r, k')) :
    ∃ p, p.Created entryPoint V.nextPid ∧ Rep k' (V.addProcess p) ∧ (V.addProcess p).Ok := by
  obtain ⟨a, chars, n, t, base, l, ⟨m₁, hall⟩, -, -, -, -, hcases, -⟩ := hr.addProcess_cases hok h
  obtain ⟨p, -, -, -, hp, -, hr', hok'⟩ := hcases (.inl (hclean a _ hall))
  exact ⟨p, hp, hr', hok'⟩

end Rep

end BasicKernel
