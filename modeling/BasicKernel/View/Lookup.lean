import BasicKernel.View.Update

set_option autoImplicit false

/-! # The lookups on a represented view

What the functions that only read answer, in terms of the view. A search in a ring starts behind the
first node and comes back to it, so it looks at every node and ends; two nodes with one number would hide
each other, which is why the numbers of a view are distinct.
-/

namespace BasicKernel

open Linked Keyed Fuel

variable {k : Kernel} {V : View} {p : ProcessView} {t : ThreadView}

/-! ## Processes

`getProcessWithPid` gets to the process with that pid, or back to the head of the ring and then to
the null pointer. -/

section Ring

variable {ns : List Addr} (hring : Ring k.nextNode k.processQueue ns)
  (hne : ∀ n ∈ ns, n ≠ NULL ∧ (k.schedulerNode n).process ≠ NULL)

include hne

theorem pidAt_eq {n : Addr} (hn : n ∈ ns) :
    k.pidAt n = .ok (k.process (k.schedulerNode n).process).pid := by
  simp [Kernel.pidAt, (hne n hn).1, (hne n hn).2]

include hring

/-- `getProcessWithPid` on any ring of processes. -/
theorem getProcessWithPid_ring (pid : Int) :
    (∃ n ∈ ns, (k.process (k.schedulerNode n).process).pid = pid ∧
        Returns (getProcessWithPid · k pid) (k.schedulerNode n).process) ∨
      (∀ n ∈ ns, (k.process (k.schedulerNode n).process).pid ≠ pid) ∧
        Returns (getProcessWithPid · k pid) NULL := by
  have hhead : (k.processQueue : Addr) ≠ NULL := (hne _ hring.head_mem).1
  obtain ⟨n, hn, hstop, hwalk⟩ :=
    hring.search (fun n => (k.process (k.schedulerNode n).process).pid) pid
  have hget : Returns (getProcessWithPid · k pid)
      (if (k.process (k.schedulerNode n).process).pid = pid then (k.schedulerNode n).process
        else NULL) := by
    simp only [getProcessWithPid, load_of_ne hhead, ok_bind]
    refine (hwalk (if_pos rfl) (fun n hn hne' => by simp [hne', pidAt_eq hne hn])
      fun n hn _ => by simp [(hne n hn).1, Kernel.nextNode]).bind ?_
    simp only [pidAt_eq hne hn, load_of_ne (hne n hn).1, ok_bind, pure_eq_ok, ← apply_ite]
    exact Returns.const _ _
  by_cases hpid : (k.process (k.schedulerNode n).process).pid = pid
  · rw [if_pos hpid] at hget
    exact .inl ⟨n, hn, hpid, hget⟩
  · rw [if_neg hpid] at hget
    exact .inr ⟨hstop.resolve_left hpid, hget⟩

end Ring

theorem Rep.nodes_ne (hr : Rep k V) :
    ∀ n ∈ V.table.map ProcessView.node, n ≠ NULL ∧ (k.schedulerNode n).process ≠ NULL := by
  intro n hn
  obtain ⟨p, hp, rfl⟩ := List.mem_map.mp hn
  have hrp := hr.processes p hp
  exact ⟨hrp.node_ne, by rw [hrp.process]; exact hrp.addr_ne⟩

theorem RepProcess.load_process (h : RepProcess k p) : load k.process p.addr = .ok p.val := by
  rw [load_of_ne h.addr_ne, h.val]

/-- The process with the given pid, or the null pointer. -/
theorem Rep.getProcessWithPid (hr : Rep k V) (pid : Int) :
    (∃ p ∈ V.table, p.val.pid = pid ∧ Returns (BasicKernel.getProcessWithPid · k pid) p.addr) ∨
      (∀ p ∈ V.table, p.val.pid ≠ pid) ∧ Returns (BasicKernel.getProcessWithPid · k pid) NULL := by
  have hpid : ∀ p ∈ V.table, (k.process (k.schedulerNode p.node).process).pid = p.val.pid := by
    intro p hp
    rw [(hr.processes p hp).process, (hr.processes p hp).val]
  rcases getProcessWithPid_ring hr.queue hr.nodes_ne pid with ⟨n, hn, h, hret⟩ | ⟨h, hret⟩
  · obtain ⟨p, hp, rfl⟩ := List.mem_map.mp hn
    rw [(hr.processes p hp).process] at hret
    exact .inl ⟨p, hp, by rw [← hpid p hp, h], hret⟩
  · exact .inr ⟨fun p hp => by rw [← hpid p hp]; exact h _ (List.mem_map_of_mem hp), hret⟩

/-- With distinct pids the search finds the process that is meant. -/
theorem Rep.getProcessWithPid_absent {pid : Int} (hr : Rep k V) (hno : ∀ p ∈ V.table, p.val.pid ≠ pid) :
    Returns (BasicKernel.getProcessWithPid · k pid) NULL := by
  rcases hr.getProcessWithPid pid with ⟨p, hp, hpid, -⟩ | ⟨-, hnull⟩
  · exact absurd hpid (hno p hp)
  · exact hnull

theorem Rep.getProcessWithPid_of_mem (hr : Rep k V)
    (hpids : (V.table.map (·.val.pid)).Nodup) (hp : p ∈ V.table) :
    Returns (BasicKernel.getProcessWithPid · k p.val.pid) p.addr := by
  rcases hr.getProcessWithPid p.val.pid with ⟨q, hq, hpid, hret⟩ | ⟨h, -⟩
  · rwa [eq_of_key_eq hpids hq hp hpid] at hret
  · exact absurd rfl (h p hp)

/-! ## Threads

The same search, in the ring of one process. -/

theorem RepThread.load_thread (h : RepThread k t) : load k.thread t.addr = .ok t.val := by
  rw [load_of_ne h.addr_ne, h.val]

theorem RepThread.load_lib (h : RepThread k t) :
    load k.threadLibrary t.lib = .ok ⟨t.addr, k.nextLib t.lib⟩ := by
  rw [load_of_ne h.lib_ne, ← h.thread]
  rfl

section ThreadRing

variable {process : Addr} {ls : List Addr}
  (hring : Ring k.nextLib (k.process process).threadLibrary ls)
  (hne : ∀ l ∈ ls, l ≠ NULL ∧ (k.threadLibrary l).thread ≠ NULL)

include hne

theorem pthreadAt_eq {l : Addr} (hl : l ∈ ls) :
    k.pthreadAt l = .ok (k.thread (k.threadLibrary l).thread).pthread := by
  simp [Kernel.pthreadAt, (hne l hl).1, (hne l hl).2]

include hring

/-- `getThreadWithPthread` on any ring of threads. -/
theorem getThreadWithPthread_ring (hprocess : process ≠ NULL) (pthread : Int) :
    (∃ l ∈ ls, (k.thread (k.threadLibrary l).thread).pthread = pthread ∧
        Returns (getThreadWithPthread · k pthread process) (k.threadLibrary l).thread) ∨
      (∀ l ∈ ls, (k.thread (k.threadLibrary l).thread).pthread ≠ pthread) ∧
        Returns (getThreadWithPthread · k pthread process) NULL := by
  have hhead := (hne _ hring.head_mem).1
  obtain ⟨l, hl, hstop, hwalk⟩ :=
    hring.search (fun l => (k.thread (k.threadLibrary l).thread).pthread) pthread
  have hget : Returns (getThreadWithPthread · k pthread process)
      (if (k.thread (k.threadLibrary l).thread).pthread = pthread then (k.threadLibrary l).thread
        else NULL) := by
    simp only [getThreadWithPthread, load_of_ne hprocess, load_of_ne hhead, ok_bind]
    refine (hwalk (if_pos rfl) (fun l hl hne' => by simp [hne', pthreadAt_eq hne hl])
      fun l hl _ => by simp [(hne l hl).1, Kernel.nextLib]).bind ?_
    simp only [pthreadAt_eq hne hl, load_of_ne (hne l hl).1, ok_bind, pure_eq_ok, ← apply_ite]
    exact Returns.const _ _
  by_cases hpt : (k.thread (k.threadLibrary l).thread).pthread = pthread
  · rw [if_pos hpt] at hget
    exact .inl ⟨l, hl, hpt, hget⟩
  · rw [if_neg hpt] at hget
    exact .inr ⟨hstop.resolve_left hpt, hget⟩

end ThreadRing

theorem RepProcess.libs_ne (h : RepProcess k p) :
    ∀ l ∈ p.threads.map ThreadView.lib, l ≠ NULL ∧ (k.threadLibrary l).thread ≠ NULL := by
  intro l hl
  obtain ⟨t, ht, rfl⟩ := List.mem_map.mp hl
  have hrt := h.threads t ht
  exact ⟨hrt.lib_ne, by rw [hrt.thread]; exact hrt.addr_ne⟩

/-- The thread of the process with the given number, or the null pointer. -/
theorem RepProcess.getThreadWithPthread (h : RepProcess k p) (pthread : Int) :
    (∃ t ∈ p.threads, t.val.pthread = pthread ∧
        Returns (BasicKernel.getThreadWithPthread · k pthread p.addr) t.addr) ∨
      (∀ t ∈ p.threads, t.val.pthread ≠ pthread) ∧
        Returns (BasicKernel.getThreadWithPthread · k pthread p.addr) NULL := by
  have hpthread : ∀ t ∈ p.threads,
      (k.thread (k.threadLibrary t.lib).thread).pthread = t.val.pthread := by
    intro t ht
    rw [(h.threads t ht).thread, (h.threads t ht).val]
  have hring : Ring k.nextLib (k.process p.addr).threadLibrary (p.threads.map ThreadView.lib) := by
    rw [h.val]
    exact h.ring
  rcases getThreadWithPthread_ring hring h.libs_ne h.addr_ne pthread with
    ⟨l, hl, hpt, hret⟩ | ⟨hno, hret⟩
  · obtain ⟨t, ht, rfl⟩ := List.mem_map.mp hl
    rw [(h.threads t ht).thread] at hret
    exact .inl ⟨t, ht, by rw [← hpthread t ht, hpt], hret⟩
  · exact .inr ⟨fun t ht => by rw [← hpthread t ht]; exact hno _ (List.mem_map_of_mem ht), hret⟩

/-- With distinct thread numbers the search finds the thread that is meant. -/
theorem RepProcess.getThreadWithPthread_of_mem (h : RepProcess k p)
    (hpthreads : (p.threads.map (·.val.pthread)).Nodup) (ht : t ∈ p.threads) :
    Returns (BasicKernel.getThreadWithPthread · k t.val.pthread p.addr) t.addr := by
  rcases h.getThreadWithPthread t.val.pthread with ⟨u, hu, hpt, hret⟩ | ⟨hno, -⟩
  · rwa [eq_of_key_eq hpthreads hu ht hpt] at hret
  · exact absurd rfl (hno t ht)

/-! ## The current process and thread

Each is two pointers away from a static variable, and on a view neither pointer is null. -/

theorem Rep.currentProcessNode (hr : Rep k V) (hp : p ∈ V.table) (hcur : p.node = V.current) :
    k.currentProcessNode = .ok p.addr := by
  have hrp := hr.processes p hp
  simp [Kernel.currentProcessNode, hr.current, ← hcur, hrp.node_ne, hrp.process]

theorem RepProcess.currentThreadNode (h : RepProcess k p) (ht : t ∈ p.threads)
    (hcur : t.lib = p.val.currentThread) : k.currentThreadNode p.addr = .ok t.addr := by
  simp [Kernel.currentThreadNode, h.load_process, ← hcur, (h.threads t ht).load_lib]

/-- Every process has a current thread. -/
theorem RepProcess.exists_current (h : RepProcess k p) :
    ∃ t ∈ p.threads, t.lib = p.val.currentThread := List.mem_map.mp h.current

theorem Rep.getCurrentPid (hr : Rep k V) (hp : p ∈ V.table) (hcur : p.node = V.current) :
    BasicKernel.getCurrentPid k = .ok p.val.pid := by
  have hrp := hr.processes p hp
  have hne : k.currentProcess ≠ NULL := by
    rw [hr.current, ← hcur]
    exact hrp.node_ne
  simp [BasicKernel.getCurrentPid, hne, hr.currentProcessNode hp hcur, hrp.load_process]

theorem Rep.getCurrentPthread (hr : Rep k V) (hp : p ∈ V.table) (hcur : p.node = V.current)
    (ht : t ∈ p.threads) (htcur : t.lib = p.val.currentThread) :
    BasicKernel.getCurrentPthread k = .ok t.val.pthread := by
  have hrp := hr.processes p hp
  simp [BasicKernel.getCurrentPthread, hr.currentProcessNode hp hcur,
    hrp.currentThreadNode ht htcur, (hrp.threads t ht).load_thread]

/-! ## `allThreadsAreBlocked`

The loop counts to `threadSize` from the current thread on, which with dead threads in the ring is
not the whole ring. -/

/-- No ready thread among those that `threadSize` counts. -/
def ProcessView.noneReady (p : ProcessView) : Bool :=
  (p.threads.take p.val.threadSize.toNat).all fun t => t.val.state ≠ .T_READY

theorem noneReady_eq {ts : List ThreadView} (hts : ∀ t ∈ ts, RepThread k t) :
    ∀ (n : Nat) (a b : Addr), Path k.nextLib a (ts.map ThreadView.lib) b → n ≤ ts.length →
      noneReady k n a = .ok ((ts.take n).all fun t => t.val.state ≠ .T_READY) := by
  induction ts with
  | nil =>
      intro n a b _ hn
      obtain rfl : n = 0 := Nat.le_zero.mp hn
      rfl
  | cons t ts ih =>
      intro n a b hpath hn
      obtain ⟨rfl, hpath⟩ := hpath
      have ht := hts t (by simp)
      cases n with
      | zero => rfl
      | succ n =>
          simp only [noneReady, ht.load_lib, ht.load_thread, ok_bind]
          rw [ih (fun u hu => hts u (by simp [hu])) n _ b hpath (Nat.le_of_succ_le_succ hn)]
          by_cases hready : t.val.state = .T_READY <;> simp [hready]

theorem RepProcess.allThreadsAreBlocked (h : RepProcess k p)
    (hsize : p.val.threadSize ≤ p.threads.length) :
    BasicKernel.allThreadsAreBlocked k p.addr = .ok p.noneReady := by
  simp only [BasicKernel.allThreadsAreBlocked, h.load_process, ok_bind]
  exact noneReady_eq h.threads _ _ _ h.ring.path (by omega)

end BasicKernel
