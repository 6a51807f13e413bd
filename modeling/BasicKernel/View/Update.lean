import BasicKernel.View.View
import BasicKernel.Lib.Keyed

set_option autoImplicit false

/-! # Stores that change one process

An assignment to a process or to one of its threads changes one entry of the table. The other
entries are untouched because no two objects share a page.
-/

namespace BasicKernel

open Linked Keyed

/-! ## Updates of a view

A change of one entry, found by the address of its structure. The fields that an update does not
name are those from before, which the simp lemmas say. -/

def ThreadView.setVal (f : ThreadNode → ThreadNode) (t : ThreadView) : ThreadView :=
  { t with val := f t.val }

def ProcessView.setVal (f : ProcessNode → ProcessNode) (p : ProcessView) : ProcessView :=
  { p with val := f p.val }

/-- The thread at address `a` is changed. -/
def ProcessView.setThread (a : Addr) (f : ThreadNode → ThreadNode) (p : ProcessView) :
    ProcessView :=
  { p with threads := update ThreadView.addr a (ThreadView.setVal f) p.threads }

/-- The entry `p` of the table becomes `p'`. -/
def View.set (p p' : ProcessView) (V : View) : View :=
  { V with table := update ProcessView.addr p.addr (fun _ => p') V.table }

section Fields

variable (f : ProcessNode → ProcessNode) (f' : ThreadNode → ThreadNode) (a : Addr)
  (p p' : ProcessView) (t : ThreadView) (V : View)

@[simp] theorem ProcessView.setVal_node : (p.setVal f).node = p.node := rfl
@[simp] theorem ProcessView.setVal_addr : (p.setVal f).addr = p.addr := rfl
@[simp] theorem ProcessView.setVal_val : (p.setVal f).val = f p.val := rfl
@[simp] theorem ProcessView.setVal_threads : (p.setVal f).threads = p.threads := rfl
@[simp] theorem ProcessView.setThread_node : (p.setThread a f').node = p.node := rfl
@[simp] theorem ProcessView.setThread_addr : (p.setThread a f').addr = p.addr := rfl
@[simp] theorem ProcessView.setThread_val : (p.setThread a f').val = p.val := rfl
@[simp] theorem ThreadView.setVal_val : (t.setVal f').val = f' t.val := rfl
@[simp] theorem ThreadView.setVal_addr : (t.setVal f').addr = t.addr := rfl
@[simp] theorem ThreadView.setVal_lib : (t.setVal f').lib = t.lib := rfl
@[simp] theorem View.set_current : (V.set p p').current = V.current := rfl
@[simp] theorem View.set_ticks : (V.set p p').ticks = V.ticks := rfl
@[simp] theorem View.set_queueSize : (V.set p p').queueSize = V.queueSize := rfl
@[simp] theorem View.set_nextPid : (V.set p p').nextPid = V.nextPid := rfl
@[simp] theorem View.set_mutexes : (V.set p p').mutexes = V.mutexes := rfl
@[simp] theorem View.set_mutexCounter : (V.set p p').mutexCounter = V.mutexCounter := rfl
@[simp] theorem View.set_semaphores : (V.set p p').semaphores = V.semaphores := rfl
@[simp] theorem View.set_semaphoreCounter :
    (V.set p p').semaphoreCounter = V.semaphoreCounter := rfl

end Fields

theorem ProcessView.setThread_libs (p : ProcessView) (a : Addr) (f : ThreadNode → ThreadNode) :
    (p.setThread a f).threads.map ThreadView.lib = p.threads.map ThreadView.lib :=
  map_update fun _ _ _ => rfl

theorem ProcessView.mem_setThread {p : ProcessView} {t : ThreadView} (ht : t ∈ p.threads)
    (f : ThreadNode → ThreadNode) : t.setVal f ∈ (p.setThread t.addr f).threads :=
  mem_update_of_mem ht

theorem ProcessView.mem_setThread_of_ne {p : ProcessView} {t : ThreadView} {a : Addr}
    (ht : t ∈ p.threads) (hne : t.addr ≠ a) (f : ThreadNode → ThreadNode) :
    t ∈ (p.setThread a f).threads :=
  mem_update.mpr ⟨t, ht, if_neg hne⟩

theorem View.mem_set {V : View} {p : ProcessView} (hp : p ∈ V.table) (p' : ProcessView) :
    p' ∈ (V.set p p').table :=
  mem_update_of_mem (g := fun _ => p') hp

/-- What holds of every entry, and of the new one, holds of the new table. -/
theorem View.forall_set {V : View} {p p' : ProcessView} {P : ProcessView → Prop}
    (h : ∀ q ∈ V.table, P q) (hp' : P p') : ∀ q ∈ (V.set p p').table, P q :=
  forall_update (fun q hq _ => h q hq) fun _ _ _ => hp'

theorem View.set_set (V : View) {p p' p'' : ProcessView} (h : p'.addr = p.addr) :
    (V.set p p').set p' p'' = V.set p p'' := by
  simp only [View.set, update, List.map_map, h]
  congr 1
  refine List.map_congr_left fun q _ => ?_
  by_cases hq : q.addr = p.addr <;> simp [hq, h]

/-! ## Numbers are kept

Pid, number of threads and ring nodes decide whether an entry is well formed, and an assignment to
another field keeps them. -/

theorem ProcessView.Ok.setVal {p : ProcessView} (h : p.Ok) {f : ProcessNode → ProcessNode}
    (hsize : (f p.val).threadSize ≤ p.val.threadSize)
    (hcur : (f p.val).currentPThread = p.val.currentPThread) : (p.setVal f).Ok :=
  ⟨hsize.trans h.size_le, h.pthreads, by simpa [ProcessView.setVal, hcur] using h.pthread_lt,
    h.main⟩

theorem ProcessView.Ok.setThread {p : ProcessView} (h : p.Ok) {a : Addr}
    {f : ThreadNode → ThreadNode} (hpthread : ∀ v, (f v).pthread = v.pthread)
    (hdead : ∀ t ∈ p.threads, t.addr = a → t.val.pthread = 0 → t.val.state ≠ .T_DEAD →
      (f t.val).state ≠ .T_DEAD) :
    (p.setThread a f).Ok := by
  refine ⟨by simpa [ProcessView.setThread] using h.size_le, ?_, ?_, ?_⟩
  · rw [ProcessView.setThread, map_update fun t _ _ => hpthread t.val]
    exact h.pthreads
  · exact forall_update (fun t ht _ => h.pthread_lt t ht) fun t ht _ => by
      simpa [ThreadView.setVal, hpthread] using h.pthread_lt t ht
  · obtain ⟨t, ts, hts, h0, hstate⟩ := h.main
    simp only [ProcessView.setThread, hts, update, List.map_cons]
    by_cases hta : t.addr = a
    · exact ⟨t.setVal f, _, by rw [if_pos hta], (hpthread _).trans h0,
        hdead t (by rw [hts]; exact List.mem_cons_self) hta h0 hstate⟩
    · exact ⟨t, _, by rw [if_neg hta], h0, hstate⟩

/-! ## No two objects share a page

From a common page two objects are the same, whatever level they are at: a process, a thread, a
ring node or a heap block. -/

namespace Rep

variable {k k' : Kernel} {V : View} {p p' q : ProcessView}

theorem tableOwns (hr : Rep k V) : Owns k.memory (V.table.flatMap ProcessView.blocks) :=
  hr.owns.sublist (((List.sublist_append_left _ _).trans (List.sublist_append_left _ _)).trans
    (List.sublist_append_left _ _))

theorem eq_of_block (hr : Rep k V) (hp : p ∈ V.table) (hq : q ∈ V.table) {b : Addr × Nat}
    (hbp : b ∈ p.blocks) (hbq : b ∈ q.blocks) : p = q :=
  eq_of_mem_flatMap hr.tableOwns.nodup hp hq hbp hbq

theorem eq_of_addr (hr : Rep k V) (hp : p ∈ V.table) (hq : q ∈ V.table) (h : p.addr = q.addr) :
    p = q :=
  hr.eq_of_block (b := (p.addr, PAGE_SIZE)) hp hq (by simp [ProcessView.blocks])
    (by simp [ProcessView.blocks, h])

theorem eq_of_node (hr : Rep k V) (hp : p ∈ V.table) (hq : q ∈ V.table) (h : p.node = q.node) :
    p = q := eq_of_key_eq hr.queue.nodup hp hq h

theorem addrs_nodup (hr : Rep k V) : (V.table.map ProcessView.addr).Nodup :=
  List.Nodup.map_on (fun _ hp _ hq => hr.eq_of_addr hp hq) hr.queue.nodup.of_map

theorem mem_blocks_of_thread {t : ThreadView} {b : Addr × Nat} (ht : t ∈ p.threads)
    (hb : b ∈ t.blocks) : b ∈ p.blocks := by
  simp only [ProcessView.blocks, List.mem_append, List.mem_flatMap]
  exact .inl (.inl ⟨t, ht, hb⟩)

theorem mem_blocks (hp : p ∈ V.table) {b : Addr × Nat} (hb : b ∈ p.blocks) : b ∈ V.blocks := by
  simp only [View.blocks, List.append_assoc]
  exact List.mem_append_left _ (List.mem_flatMap.mpr ⟨p, hp, hb⟩)

theorem mem_blocks_lib {t : ThreadView} (hp : p ∈ V.table) (ht : t ∈ p.threads) :
    (t.lib, PAGE_SIZE) ∈ V.blocks :=
  mem_blocks hp (mem_blocks_of_thread ht (by simp [ThreadView.blocks]))

theorem mem_blocks_thread {t : ThreadView} (hp : p ∈ V.table) (ht : t ∈ p.threads) :
    (t.addr, PAGE_SIZE) ∈ V.blocks :=
  mem_blocks hp (mem_blocks_of_thread ht (by simp [ThreadView.blocks]))

theorem mem_blocks_addr (hp : p ∈ V.table) : (p.addr, PAGE_SIZE) ∈ V.blocks :=
  mem_blocks hp (by simp [ProcessView.blocks])

theorem mem_blocks_node (hp : p ∈ V.table) : (p.node, PAGE_SIZE) ∈ V.blocks :=
  mem_blocks hp (by simp [ProcessView.blocks])

/-- A thread is determined by any of its pages, and so is its process. -/
theorem eq_of_threadBlock (hr : Rep k V) (hp : p ∈ V.table) (hq : q ∈ V.table)
    {t u : ThreadView} (ht : t ∈ p.threads) (hu : u ∈ q.threads) {b : Addr × Nat}
    (hbt : b ∈ t.blocks) (hbu : b ∈ u.blocks) : p = q ∧ t = u := by
  obtain rfl := hr.eq_of_block hp hq (mem_blocks_of_thread ht hbt) (mem_blocks_of_thread hu hbu)
  have hnd := (List.nodup_flatMap.mp hr.tableOwns.nodup).1 p hp
  have hnd' : (p.threads.flatMap ThreadView.blocks).Nodup :=
    hnd.sublist ((List.sublist_append_left _ _).trans (List.sublist_append_left _ _))
  exact ⟨rfl, eq_of_mem_flatMap hnd' ht hu hbt hbu⟩

theorem eq_of_threadAddr (hr : Rep k V) (hp : p ∈ V.table) (hq : q ∈ V.table)
    {t u : ThreadView} (ht : t ∈ p.threads) (hu : u ∈ q.threads) (h : t.addr = u.addr) :
    p = q ∧ t = u :=
  hr.eq_of_threadBlock (b := (t.addr, PAGE_SIZE)) hp hq ht hu (by simp [ThreadView.blocks])
    (by simp [ThreadView.blocks, h])

theorem eq_of_lib (hr : Rep k V) (hp : p ∈ V.table) (hq : q ∈ V.table)
    {t u : ThreadView} (ht : t ∈ p.threads) (hu : u ∈ q.threads) (h : t.lib = u.lib) :
    p = q ∧ t = u :=
  hr.eq_of_threadBlock (b := (t.lib, PAGE_SIZE)) hp hq ht hu (by simp [ThreadView.blocks])
    (by simp [ThreadView.blocks, h])

theorem eq_of_heapAddr (hr : Rep k V) (hp : p ∈ V.table) (hq : q ∈ V.table)
    {b c : HeapView} (hb : b ∈ p.heap) (hc : c ∈ q.heap) (h : b.addr = c.addr) : p = q := by
  refine hr.eq_of_block (b := (b.addr, HEAP_NODE_SIZE)) hp hq ?_ ?_ <;>
    simp only [ProcessView.blocks, List.mem_append, List.mem_flatMap]
  · exact .inl (.inr ⟨b, hb, by simp [HeapView.blocks]⟩)
  · exact .inl (.inr ⟨c, hc, by simp [HeapView.blocks, h]⟩)

/-! ## The change of one entry

`replace` is the rule for every assignment: the entry is represented with its new value, the
others are as they were. -/

/-- An entry that becomes itself. -/
theorem set_self (hr : Rep k V) (hp : p ∈ V.table) : V.set p p = V := by
  have : update ProcessView.addr p.addr (fun _ => p) V.table = V.table :=
    update_of_forall fun q hq hqa => (hr.eq_of_addr hq hp hqa).symm
  simp only [View.set, this]

theorem mem_set_of_ne (hr : Rep k V) (hp : p ∈ V.table) (hq : q ∈ V.table) (hne : q ≠ p) :
    q ∈ (V.set p p').table :=
  mem_update.mpr ⟨q, hq, if_neg fun h => hne (hr.eq_of_addr hq hp h)⟩

/-- A field that the new entry has in common with the old one. -/
theorem map_set (hr : Rep k V) (hp : p ∈ V.table) {β : Type} {f : ProcessView → β}
    (hf : f p' = f p) : (V.set p p').table.map f = V.table.map f :=
  map_update fun q hq hqa => by rw [hr.eq_of_addr hq hp hqa, hf]

/-- The table is the entry and the rest. -/
theorem set_append (hr : Rep k V) {A B : List ProcessView} (hT : V.table = A ++ p :: B) :
    (V.set p p').table = A ++ p' :: B := by
  have hnd := hr.addrs_nodup
  rw [hT] at hnd
  rw [View.set, hT]
  exact update_append hnd

/-- The blocks of the new table are those of the new entry and the rest. -/
theorem blocks_perm (hr : Rep k V) (hp : p ∈ V.table) :
    ∃ rest, V.blocks.Perm (p.blocks ++ rest) ∧
      ∀ p', (V.set p p').blocks.Perm (p'.blocks ++ rest) := by
  obtain ⟨A, B, hT⟩ := List.append_of_mem hp
  refine ⟨A.flatMap ProcessView.blocks ++ (B.flatMap ProcessView.blocks ++
    (V.mutexes.flatMap LockView.blocks ++ (V.semaphores.flatMap LockView.blocks ++ V.others))), ?_,
    fun p' => ?_⟩
  · rw [View.blocks, hT]
    simp only [List.flatMap_append, List.flatMap_cons, List.append_assoc]
    exact List.perm_append_comm_assoc ..
  · rw [View.blocks, hr.set_append hT]
    simp only [List.flatMap_append, List.flatMap_cons, List.append_assoc]
    exact List.perm_append_comm_assoc ..

theorem set_owns (hr : Rep k V) (hp : p ∈ V.table) (h : p'.blocks = p.blocks) :
    Owns k.memory (V.set p p').blocks := by
  obtain ⟨rest, hV, hset⟩ := hr.blocks_perm hp
  have := hset p'
  rw [h] at this
  exact hr.owns.perm (hV.trans this.symm)

/-- The numbers stay well formed when those of the entry do, its pid stays, and it is not dead if
it was not. -/
theorem ok_set (hr : Rep k V) (hok : V.Ok) (hp : p ∈ V.table) (hp' : p'.Ok)
    (hnode : p'.node = p.node) (hpid : p'.val.pid = p.val.pid)
    (hdead : p.val.state ≠ .DEAD → p'.val.state ≠ .DEAD) : (V.set p p').Ok := by
  refine ⟨⟨View.forall_set hok.processes hp', ?_, ?_, ?_, ?_⟩, ?_⟩
  · rw [hr.map_set hp hpid]
    exact hok.pids
  · exact View.forall_set hok.pid_lt (by rw [hpid]; exact hok.pid_lt p hp)
  · obtain ⟨q, qs, hqs, h0, hstate⟩ := hok.main
    have hq : q ∈ V.table := by rw [hqs]; exact List.mem_cons_self
    simp only [View.set, hqs, update, List.map_cons]
    by_cases hqp : q.addr = p.addr
    · obtain rfl := hr.eq_of_addr hq hp hqp
      exact ⟨p', _, by rw [if_pos rfl], hpid.trans h0, hdead hstate⟩
    · exact ⟨q, _, by rw [if_neg hqp], h0, hstate⟩
  · refine hok.queueSize_le.trans (Int.ofNat_le.mpr ?_)
    simp only [View.alive, View.set, update, List.countP_map]
    refine List.countP_mono_left fun q hq halive => ?_
    by_cases hqp : q.addr = p.addr
    · obtain rfl := hr.eq_of_addr hq hp hqp
      simpa using hdead (by simpa using halive)
    · simpa [hqp] using halive
  · obtain ⟨q, hq, hcur⟩ := hok.current
    by_cases hqp : q = p
    · exact ⟨p', View.mem_set hp p', by rw [hnode, ← hqp, hcur]; rfl⟩
    · exact ⟨q, hr.mem_set_of_ne hp hq hqp, hcur⟩

/-- If the entry `p` becomes `p'` and the others are still represented, the table is. -/
theorem replace (hr : Rep k V) (hp : p ∈ V.table) (hnode : p'.node = p.node)
    (haddr : p'.addr = p.addr) (hrep : RepProcess k' p')
    (hframe : ∀ q ∈ V.table, q ≠ p → RepProcess k' q)
    (hstat : k' = { k with
      memory := k'.memory, process := k'.process, thread := k'.thread, pipe := k'.pipe
      threadLibrary := k'.threadLibrary, heapNode := k'.heapNode, stackFrame := k'.stackFrame
      char := k'.char, pipeList := k'.pipeList })
    (howns : Owns k'.memory (V.set p p').blocks) : Rep k' (V.set p p') := by
  refine ⟨?_, ?_, ?_, ?_, ?_, ?_, ?_, ?_, ?_, ?_, howns, ?_, ?_⟩
  · rw [hr.map_set hp hnode, hstat]
    exact hr.queue
  · refine forall_update (fun q hq hqa => ?_) fun _ _ _ => hrep
    exact hframe q hq fun h => hqa (by rw [h])
  · rw [hstat]; exact hr.current
  · rw [hstat]; exact hr.ticks
  · rw [hstat]; exact hr.queueSize
  · rw [hstat]; exact hr.nextPid
  · rw [hstat]; exact hr.mutexes.congr (fun _ _ => rfl) fun _ _ _ _ => rfl
  · rw [hstat]; exact hr.mutexCounter
  · rw [hstat]; exact hr.semaphores.congr (fun _ _ => rfl) fun _ _ _ _ => rfl
  · rw [hstat]; exact hr.semaphoreCounter
  · rw [hr.map_set hp haddr, hstat]
    exact hr.created
  · rw [hstat]; exact hr.freedOnce

/-- An assignment to a thread. -/
theorem modifyThread (hr : Rep k V) (hp : p ∈ V.table) {t : ThreadView} (ht : t ∈ p.threads)
    {f : ThreadNode → ThreadNode} (hf : ∀ v, (f v).baseStack = v.baseStack) :
    ∃ k', k.modifyThread t.addr f = .ok k' ∧ Rep k' (V.set p (p.setThread t.addr f)) := by
  have hrp := hr.processes p hp
  have hrt := hrp.threads t ht
  refine ⟨{ k with thread := Function.update k.thread t.addr (f (k.thread t.addr)) },
    by simp [Kernel.modifyThread, modify, hrt.addr_ne], ?_⟩
  refine hr.replace hp rfl rfl ⟨hrp.node_ne, hrp.addr_ne, hrp.process, hrp.val, ?_, ?_, ?_, ?_, ?_⟩
    (fun q hq hqp => ?_) rfl ?_
  · rw [ProcessView.setThread_libs]
    exact hrp.ring
  -- the other threads of `p` are at other addresses
  · refine forall_update (fun u hu hua => ?_) fun u hu hua => ?_
    · exact (hrp.threads u hu).congr rfl (Function.update_of_ne hua _ _)
    · obtain rfl := (hr.eq_of_threadAddr hp hp hu ht hua).2
      exact ⟨hrt.lib_ne, hrt.addr_ne, hrt.thread,
        (Function.update_self ..).trans (congrArg f hrt.val)⟩
  · rw [ProcessView.setThread_libs]
    exact hrp.current
  · exact hrp.heap
  · exact fun b hb => ⟨(hrp.blocks b hb).address, (hrp.blocks b hb).size⟩
  · refine (hr.processes q hq).congr rfl rfl (fun _ _ => rfl) (fun u hu => ?_) fun _ _ => rfl
    exact Function.update_of_ne (fun h => hqp (hr.eq_of_threadAddr hq hp hu ht h).1) _ _
  · refine hr.set_owns hp ?_
    simp only [ProcessView.blocks, ProcessView.setThread]
    rw [flatMap_update]
    intro u _ _
    simp only [ThreadView.blocks, ThreadView.setVal, hf]

/-- An assignment to a process. -/
theorem modifyProcess (hr : Rep k V) (hp : p ∈ V.table) {f : ProcessNode → ProcessNode}
    (hring : (f p.val).threadLibrary = p.val.threadLibrary) (hheap : (f p.val).heap = p.val.heap)
    (hcur : (f p.val).currentThread ∈ p.threads.map ThreadView.lib) :
    ∃ k', k.modifyProcess p.addr f = .ok k' ∧ Rep k' (V.set p (p.setVal f)) := by
  have hrp := hr.processes p hp
  refine ⟨{ k with process := Function.update k.process p.addr (f (k.process p.addr)) },
    by simp [Kernel.modifyProcess, modify, hrp.addr_ne], ?_⟩
  refine hr.replace hp rfl rfl ⟨hrp.node_ne, hrp.addr_ne, hrp.process, ?_, ?_, ?_, hcur, ?_, ?_⟩
    (fun q hq hqp => ?_) rfl (hr.set_owns hp rfl)
  · exact (Function.update_self ..).trans (congrArg f hrp.val)
  · show Ring k.nextLib (f p.val).threadLibrary _
    rw [hring]
    exact hrp.ring
  · exact fun t ht => (hrp.threads t ht).congr rfl rfl
  · show heapLink.IsList k (f p.val).heap _
    rw [hheap]
    exact hrp.heap
  · exact fun b hb => ⟨(hrp.blocks b hb).address, (hrp.blocks b hb).size⟩
  · refine (hr.processes q hq).congr rfl ?_ (fun _ _ => rfl) (fun _ _ => rfl) fun _ _ => rfl
    exact Function.update_of_ne (fun h => hqp (hr.eq_of_addr hq hp h)) _ _

/-- The assignments to fields of a process that do not link anything. -/
theorem setVal (hr : Rep k V) (hp : p ∈ V.table) {f : ProcessNode → ProcessNode}
    (hring : (f p.val).threadLibrary = p.val.threadLibrary) (hheap : (f p.val).heap = p.val.heap)
    (hcur : (f p.val).currentThread = p.val.currentThread) :
    ∃ k', k.modifyProcess p.addr f = .ok k' ∧ Rep k' (V.set p (p.setVal f)) :=
  hr.modifyProcess hp hring hheap (by rw [hcur]; exact (hr.processes p hp).current)

end Rep

end BasicKernel
