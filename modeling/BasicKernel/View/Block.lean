import BasicKernel.View.Lookup

set_option autoImplicit false

/-! # Blocking and waking on a view

`blockThread`, `unblockThread` and `unblockAllThreads` do three things: they change the state of a
thread, they change the state of its process with it when the process has no other thread that is
ready, and they end the quantum of what was blocked. On a view these are functions of the process
alone. The second half of the file says that the code does nothing else: it returns, and what it
returns represents the changed view.
-/

namespace BasicKernel

open Linked Keyed Fuel

/-! ## The operations

None of them moves a structure: the addresses, the ring of threads and the heap are those from
before, which `SameFrame` says once for all of them. -/

def ProcessView.setState (s : ProcessState) (p : ProcessView) : ProcessView :=
  p.setVal fun v => { v with state := s }

def ProcessView.setThreadState (t : Addr) (s : ThreadState) (p : ProcessView) : ProcessView :=
  p.setThread t fun v => { v with state := s }

/-- The thread at `t` is blocked, and with it the process when no thread is ready. -/
def ProcessView.block (t : Addr) (ty : ThreadState) (p : ProcessView) : ProcessView :=
  let p := (p.setThreadState t ty).setVal fun v => { v with threadTick := THREAD_QUANTUM }
  if p.noneReady then p.setState (getBlockProcessType ty) else p

def View.block (p : ProcessView) (t : Addr) (ty : ThreadState) (V : View) : View :=
  { V.set p (p.block t ty) with
    ticks := if (p.block t ty).noneReady then QUANTUM else V.ticks }

/-- `unblockProcess` -/
def ProcessView.wake (s : ProcessState) (p : ProcessView) : ProcessView :=
  if p.val.state = s then p.setState .READY else p

/-- The thread at `t` becomes ready if it is in the state `ty`. -/
def ProcessView.wakeThread (t : ThreadView) (ty : ThreadState) (p : ProcessView) : ProcessView :=
  if t.val.state = ty then p.setThreadState t.addr .T_READY else p

/-- `unblockThread` -/
def ProcessView.unblock (t : ThreadView) (ty : ThreadState) (p : ProcessView) : ProcessView :=
  (p.wakeThread t ty).wake (getBlockProcessType ty)

/-- One iteration of `unblockAllThreads`, at the thread `t`. -/
def ProcessView.unblockIf (ty : ThreadState) (p : ProcessView) (t : ThreadView) : ProcessView :=
  if t.val.state = ty then p.unblock t ty else p

/-- `unblockAllThreads`: the iterations for the first `threadSize` threads of the ring. -/
def ProcessView.unblockAll (ty : ThreadState) (p : ProcessView) : ProcessView :=
  (p.threads.take p.val.threadSize.toNat).foldl (unblockIf ty) p

section Fields

variable (p : ProcessView) (t : Addr) (u : ThreadView) (ty : ThreadState) (s : ProcessState)

@[simp] theorem ProcessView.setState_addr : (p.setState s).addr = p.addr := rfl
@[simp] theorem ProcessView.setState_node : (p.setState s).node = p.node := rfl
@[simp] theorem ProcessView.setState_state : (p.setState s).val.state = s := rfl
@[simp] theorem ProcessView.setState_threads : (p.setState s).threads = p.threads := rfl

theorem ProcessView.noneReady_block : (p.block t ty).noneReady =
    ((p.setThreadState t ty).setVal fun v => { v with threadTick := THREAD_QUANTUM }).noneReady := by
  simp only [block]
  split <;> rfl

end Fields

/-- The parts of a process that blocking and waking leave alone. -/
structure ProcessView.SameFrame (p p' : ProcessView) : Prop where
  node : p'.node = p.node
  addr : p'.addr = p.addr
  pid : p'.val.pid = p.val.pid
  libs : p'.threads.map ThreadView.lib = p.threads.map ThreadView.lib
  threadSize : p'.val.threadSize = p.val.threadSize

theorem ProcessView.SameFrame.refl (p : ProcessView) : p.SameFrame p := ⟨rfl, rfl, rfl, rfl, rfl⟩

theorem ProcessView.SameFrame.trans {p p' p'' : ProcessView} (h : p.SameFrame p')
    (h' : p'.SameFrame p'') : p.SameFrame p'' :=
  ⟨h'.node.trans h.node, h'.addr.trans h.addr, h'.pid.trans h.pid, h'.libs.trans h.libs,
    h'.threadSize.trans h.threadSize⟩

theorem ProcessView.sameFrame_setState (p : ProcessView) (s : ProcessState) :
    p.SameFrame (p.setState s) := ⟨rfl, rfl, rfl, rfl, rfl⟩

theorem ProcessView.sameFrame_setThread (p : ProcessView) (t : Addr)
    (f : ThreadNode → ThreadNode) : p.SameFrame (p.setThread t f) :=
  ⟨rfl, rfl, rfl, p.setThread_libs t f, rfl⟩

theorem ProcessView.sameFrame_wake (p : ProcessView) (s : ProcessState) :
    p.SameFrame (p.wake s) := by
  rw [wake]
  split
  · exact p.sameFrame_setState _
  · exact .refl p

theorem ProcessView.sameFrame_wakeThread (p : ProcessView) (t : ThreadView) (ty : ThreadState) :
    p.SameFrame (p.wakeThread t ty) := by
  rw [wakeThread]
  split
  · exact p.sameFrame_setThread _ _
  · exact .refl p

theorem ProcessView.sameFrame_unblock (p : ProcessView) (t : ThreadView) (ty : ThreadState) :
    p.SameFrame (p.unblock t ty) :=
  (p.sameFrame_wakeThread t ty).trans (sameFrame_wake _ _)

/-- Waking a thread leaves the other threads alone. -/
theorem ProcessView.mem_unblock_of_ne {p : ProcessView} {t u : ThreadView} (hu : u ∈ p.threads)
    (hne : u.addr ≠ t.addr) (ty : ThreadState) : u ∈ (p.unblock t ty).threads := by
  have hwake : u ∈ (p.wakeThread t ty).threads := by
    rw [wakeThread]
    split
    · exact mem_setThread_of_ne hu hne _
    · exact hu
  rw [unblock, wake]
  split
  · exact hwake
  · exact hwake

/-! ## They are what the code does

The two lookups find the process and the thread because their numbers are distinct. Whether the
process is blocked as well is decided by a loop over its threads. -/

namespace Rep

variable {k k' : Kernel} {V : View} {p : ProcessView} {t : ThreadView}

theorem setTicks (hr : Rep k V) (n : Int) :
    Rep { k with numberOfTicks := n } { V with ticks := n } :=
  ⟨hr.queue, fun p hp => (hr.processes p hp).congr rfl rfl (fun _ _ => rfl) (fun _ _ => rfl)
    fun _ _ => rfl, hr.current, rfl, hr.queueSize, hr.nextPid,
    hr.mutexes.congr (fun _ _ => rfl) fun _ _ _ _ => rfl, hr.mutexCounter,
    hr.semaphores.congr (fun _ _ => rfl) fun _ _ _ _ => rfl, hr.semaphoreCounter, hr.owns,
    hr.created, hr.freedOnce⟩

/-- An assignment to the state of a process. -/
theorem setState (hr : Rep k V) (hp : p ∈ V.table) (s : ProcessState) :
    ∃ k', k.modifyProcess p.addr (fun v => { v with state := s }) = .ok k' ∧
      Rep k' (V.set p (p.setState s)) :=
  hr.setVal hp rfl rfl rfl

/-- An assignment to the state of a thread. -/
theorem setThreadState (hr : Rep k V) (hp : p ∈ V.table) (ht : t ∈ p.threads) (s : ThreadState) :
    ∃ k', k.modifyThread t.addr (fun v => { v with state := s }) = .ok k' ∧
      Rep k' (V.set p (p.setThreadState t.addr s)) :=
  hr.modifyThread hp ht fun _ => rfl

theorem unblockProcess (hr : Rep k V) (hpids : (V.table.map (·.val.pid)).Nodup)
    (hp : p ∈ V.table) (s : ProcessState) :
    ∃ k', Returns (BasicKernel.unblockProcess · k p.val.pid s) k' ∧
      Rep k' (V.set p (p.wake s)) := by
  have hget := hr.getProcessWithPid_of_mem hpids hp
  have hload := (hr.processes p hp).load_process
  by_cases hs : p.val.state = s
  · obtain ⟨k', hmod, hr'⟩ := hr.setState hp .READY
    rw [ProcessView.wake, if_pos hs]
    refine ⟨k', hget.bind ?_, hr'⟩
    simp only [hload, ok_bind, hs, if_true, hmod]
    exact Returns.const _ _
  · rw [ProcessView.wake, if_neg hs, hr.set_self hp]
    refine ⟨k, hget.bind ?_, hr⟩
    simp only [hload, ok_bind, hs, if_false]
    exact Returns.const _ _

theorem wakeThread (hr : Rep k V) (hp : p ∈ V.table) (ht : t ∈ p.threads) (ty : ThreadState) :
    ∃ k', (if t.val.state = ty then k.modifyThread t.addr (fun v => { v with state := .T_READY })
      else .ok k) = .ok k' ∧ Rep k' (V.set p (p.wakeThread t ty)) := by
  by_cases hs : t.val.state = ty
  · rw [ProcessView.wakeThread, if_pos hs, if_pos hs]
    exact hr.setThreadState hp ht .T_READY
  · rw [ProcessView.wakeThread, if_neg hs, if_neg hs, hr.set_self hp]
    exact ⟨k, rfl, hr⟩

theorem blockThread (hr : Rep k V) (hok : V.Ok) (hp : p ∈ V.table) (ht : t ∈ p.threads)
    (ty : ThreadState) :
    ∃ k', Returns (BasicKernel.blockThread · k p.val.pid t.val.pthread ty) k' ∧
      Rep k' (V.block p t.addr ty) := by
  have hget := hr.getProcessWithPid_of_mem hok.pids hp
  have hthread := (hr.processes p hp).getThreadWithPthread_of_mem (hok.processes p hp).pthreads ht
  -- the two stores: the thread's state, and the tick of its process
  obtain ⟨k₁, h₁, hr₁⟩ := hr.setThreadState hp ht ty
  have hp₁ := View.mem_set hp (p.setThreadState t.addr ty)
  obtain ⟨k₂, h₂, hr₂⟩ := hr₁.setVal hp₁ (f := fun v => { v with threadTick := THREAD_QUANTUM })
    rfl rfl rfl
  generalize hp₂ : (p.setThreadState t.addr ty).setVal _ = p₂ at hr₂
  have hsame : p.SameFrame p₂ := by
    subst hp₂
    exact ⟨rfl, rfl, rfl, p.setThread_libs _ _, rfl⟩
  rw [View.set_set _ (by rfl)] at hr₂
  have hmem₂ : p₂ ∈ (V.set p p₂).table := View.mem_set hp p₂
  -- `allThreadsAreBlocked` looks at `threadSize` nodes, which the ring has
  have hall : BasicKernel.allThreadsAreBlocked k₂ p.addr = .ok p₂.noneReady := by
    rw [← hsame.addr]
    refine (hr₂.processes _ hmem₂).allThreadsAreBlocked ?_
    have hlen := congrArg List.length hsame.libs
    simp only [List.length_map] at hlen
    rw [hsame.threadSize, hlen]
    exact (hok.processes p hp).size_le
  have hblock : p.block t.addr ty =
      if p₂.noneReady then p₂.setState (getBlockProcessType ty) else p₂ := by rw [← hp₂]; rfl
  have hnone : (p.block t.addr ty).noneReady = p₂.noneReady := by
    rw [ProcessView.noneReady_block, ← hp₂]
  cases hb : p₂.noneReady with
  | true =>
      -- the last thread that was ready: its process is blocked with it, and gives up its quantum
      obtain ⟨k₃, h₃, hr₃⟩ := hr₂.setState hmem₂ (getBlockProcessType ty)
      have hget₂ := hr₂.getProcessWithPid_of_mem (by rw [hr.map_set hp hsame.pid]; exact hok.pids)
        hmem₂
      refine ⟨{ k₃ with numberOfTicks := QUANTUM }, hget.bind (hthread.bind ?_), ?_⟩
      · simp only [h₁, ok_bind]
        have h₂' : k₁.modifyProcess p.addr _ = _ := h₂
        simp only [h₂', ok_bind, hall, hb, if_true]
        rw [hsame.pid, hsame.addr] at hget₂
        refine hget₂.bind ?_
        rw [← hsame.addr]
        simp only [h₃, ok_bind]
        exact Returns.const _ _
      · rw [View.block, hnone, hb, hblock, hb]
        rw [View.set_set _ hsame.addr] at hr₃
        exact hr₃.setTicks QUANTUM
  | false =>
      -- another thread is ready, and the process stays as it is
      refine ⟨k₂, hget.bind (hthread.bind ?_), ?_⟩
      · simp only [h₁, ok_bind]
        have h₂' : k₁.modifyProcess p.addr _ = _ := h₂
        simp only [h₂', ok_bind, hall, hb]
        exact Returns.const _ _
      · rw [View.block, hnone, hb, hblock, hb]
        exact hr₂

/-- The two assignments that wake a thread and its process. -/
theorem unblock (hr : Rep k V) (hpids : (V.table.map (·.val.pid)).Nodup) (hp : p ∈ V.table)
    (ht : t ∈ p.threads) (ty : ThreadState) :
    ∃ k₁ k₂, (if t.val.state = ty then
          k.modifyThread t.addr (fun v => { v with state := .T_READY })
        else .ok k) = .ok k₁ ∧
      Returns (BasicKernel.unblockProcess · k₁ p.val.pid (getBlockProcessType ty)) k₂ ∧
      Rep k₂ (V.set p (p.unblock t ty)) := by
  obtain ⟨k₁, h₁, hr₁⟩ := hr.wakeThread hp ht ty
  have hsame := p.sameFrame_wakeThread t ty
  obtain ⟨k₂, h₂, hr₂⟩ := hr₁.unblockProcess (by rw [hr.map_set hp hsame.pid]; exact hpids)
    (View.mem_set hp _) (getBlockProcessType ty)
  rw [View.set_set _ hsame.addr] at hr₂
  rw [hsame.pid] at h₂
  exact ⟨k₁, k₂, h₁, h₂, hr₂⟩

theorem unblockThread (hr : Rep k V) (hok : V.Ok) (hp : p ∈ V.table) (ht : t ∈ p.threads)
    (ty : ThreadState) :
    ∃ k', Returns (BasicKernel.unblockThread · k p.val.pid t.val.pthread ty) k' ∧
      Rep k' (V.set p (p.unblock t ty)) := by
  have hget := hr.getProcessWithPid_of_mem hok.pids hp
  have hthread := (hr.processes p hp).getThreadWithPthread_of_mem (hok.processes p hp).pthreads ht
  obtain ⟨k₁, k₂, h₁, h₂, hr₂⟩ := hr.unblock hok.pids hp ht ty
  refine ⟨k₂, hget.bind (hthread.bind ?_), hr₂⟩
  simp only [((hr.processes p hp).threads t ht).load_thread, ok_bind]
  by_cases hs : t.val.state = ty
  · rw [if_pos hs] at h₁
    simp only [hs, if_true, h₁, ok_bind]
    exact h₂
  · rw [if_neg hs] at h₁
    obtain rfl := Except.ok.inj h₁
    simp only [hs, if_false]
    exact h₂

/-- The loop of `unblockAllThreads` over the threads `ts`, the first of which is at `a`. -/
theorem unblockThreads (ty : ThreadState) : ∀ (ts : List ThreadView) {k : Kernel} {V : View}
    {q : ProcessView} {a : Addr} {L R : List Addr}, Rep k V →
    (V.table.map (·.val.pid)).Nodup → q ∈ V.table →
    (∀ t ∈ ts, t ∈ q.threads) → (ts.map ThreadView.addr).Nodup →
    q.threads.map ThreadView.lib = L ++ (ts.map ThreadView.lib ++ R) →
    (∀ t, ts.head? = some t → a = t.lib) →
    ∃ k', Returns (BasicKernel.unblockThreads · q.val.pid ty ts.length k a) k' ∧
      Rep k' (V.set q (ts.foldl (ProcessView.unblockIf ty) q)) := by
  intro ts
  -- on the threads that are left; `L` are the nodes that the loop has passed
  induction ts with
  | nil =>
      intro k V q a L R hr hpids hq _ _ _ _
      refine ⟨k, Returns.const _ _, ?_⟩
      rw [List.foldl_nil, hr.set_self hq]
      exact hr
  | cons t ts ih =>
      intro k V q a L R hr hpids hq hts hnd hlibs ha
      obtain rfl := ha t rfl
      have ht := hts t (by simp)
      have hrt := (hr.processes q hq).threads t ht
      have hnd' := List.nodup_cons.mp hnd
      -- the successor of `t` in the ring is the next thread of the list
      have hnext : ∀ {k' V' q'}, Rep k' V' → q' ∈ V'.table →
          q'.threads.map ThreadView.lib = q.threads.map ThreadView.lib →
          ∀ u, ts.head? = some u → k'.nextLib t.lib = u.lib := by
        intro k' V' q' hr' hq' hlibs' u hu
        obtain ⟨us, rfl⟩ : ∃ us, ts = u :: us := by
          cases ts with
          | nil => cases hu
          | cons v vs => exact ⟨vs, by simpa using hu⟩
        have hring := (hr'.processes q' hq').ring
        rw [hlibs', hlibs] at hring
        exact hring.next_eq
      by_cases hs : t.val.state = ty
      -- this thread waits: it is woken, and the rest of the loop runs on the new view
      · obtain ⟨k₁, k₂, h₁, h₂, hr₂⟩ := hr.unblock hpids hq ht ty
        rw [if_pos hs] at h₁
        have hsame := q.sameFrame_unblock t ty
        have hq₂ := View.mem_set hq (q.unblock t ty)
        obtain ⟨t₂, ht₂, hlib₂⟩ : ∃ t₂ ∈ (q.unblock t ty).threads, t₂.lib = t.lib := by
          have : t.lib ∈ (q.unblock t ty).threads.map ThreadView.lib := by
            rw [hsame.libs]
            exact List.mem_map_of_mem ht
          exact List.mem_map.mp this
        have hload₂ := ((hr₂.processes _ hq₂).threads t₂ ht₂).load_lib
        rw [hlib₂] at hload₂
        obtain ⟨k', h', hr'⟩ := ih (a := k₂.nextLib t.lib) (L := L ++ [t.lib]) (R := R) hr₂
          (by rw [hr.map_set hq hsame.pid]; exact hpids) hq₂
          (fun u hu => ProcessView.mem_unblock_of_ne (hts u (by simp [hu]))
            (fun h => hnd'.1 (by rw [← h]; exact List.mem_map_of_mem hu)) ty)
          hnd'.2 (by simpa [hsame.libs] using hlibs) (hnext hr₂ hq₂ hsame.libs)
        rw [View.set_set _ hsame.addr] at hr'
        have hstep : q.unblockIf ty t = q.unblock t ty := if_pos hs
        refine ⟨k', ?_, by rw [List.foldl_cons, hstep]; exact hr'⟩
        simp only [BasicKernel.unblockThreads, List.length_cons, hrt.load_lib, hrt.load_thread,
          ok_bind, hs, if_true, h₁]
        refine h₂.bind ?_
        simp only [hload₂, ok_bind]
        rw [hsame.pid] at h'
        exact h'
      -- this thread does not wait for `ty`, and the view is the same
      · obtain ⟨k', h', hr'⟩ := ih (a := k.nextLib t.lib) (L := L ++ [t.lib]) (R := R) hr hpids
          hq (fun u hu => hts u (by simp [hu])) hnd'.2 (by simpa using hlibs) (hnext hr hq rfl)
        have hstep : q.unblockIf ty t = q := if_neg hs
        refine ⟨k', ?_, by rw [List.foldl_cons, hstep]; exact hr'⟩
        simp only [BasicKernel.unblockThreads, List.length_cons, hrt.load_lib, hrt.load_thread,
          ok_bind, hs, if_false, pure_eq_ok]
        exact h'

theorem unblockAllThreads (hr : Rep k V) (hok : V.Ok) (hp : p ∈ V.table) (ty : ThreadState) :
    ∃ k', Returns (BasicKernel.unblockAllThreads · k p.val.pid ty) k' ∧
      Rep k' (V.set p (p.unblockAll ty)) := by
  have hget := hr.getProcessWithPid_of_mem hok.pids hp
  have hrp := hr.processes p hp
  have hsize := (hok.processes p hp).size_le
  have haddrs : (p.threads.map ThreadView.addr).Nodup :=
    List.Nodup.map_on (fun t ht u hu h => (hr.eq_of_threadAddr hp hp ht hu h).2)
      hrp.ring.nodup.of_map
  -- the loop visits the first `threadSize` nodes of the ring
  have hlibs : p.threads.map ThreadView.lib = [] ++
      ((p.threads.take p.val.threadSize.toNat).map ThreadView.lib ++
        (p.threads.drop p.val.threadSize.toNat).map ThreadView.lib) := by
    rw [List.nil_append, ← List.map_append, List.take_append_drop]
  have hhead : ∀ t, (p.threads.take p.val.threadSize.toNat).head? = some t →
      p.val.threadLibrary = t.lib := by
    intro t ht
    have hpath := hrp.ring.path
    cases hthreads : p.threads with
    | nil => rw [hthreads] at ht; simp at ht
    | cons u us =>
        rw [hthreads] at ht hpath
        obtain rfl : u = t := by
          cases hn : p.val.threadSize.toNat with
          | zero => rw [hn] at ht; simp at ht
          | succ n => rw [hn] at ht; simpa using ht
        exact hpath.1
  obtain ⟨k', h', hr'⟩ := unblockThreads ty (p.threads.take p.val.threadSize.toNat) hr hok.pids hp
    (fun t ht => List.mem_of_mem_take ht) (haddrs.sublist ((List.take_sublist _ _).map _)) hlibs
    hhead
  refine ⟨k', hget.bind ?_, hr'⟩
  simp only [hrp.load_process, ok_bind]
  have hlen : (p.threads.take p.val.threadSize.toNat).length = p.val.threadSize.toNat := by
    rw [List.length_take]
    omega
  rwa [hlen] at h'

end Rep

end BasicKernel
