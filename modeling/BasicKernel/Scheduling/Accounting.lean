import BasicKernel.Scheduling.Dead

set_option autoImplicit false

/-! # Thread accounting

Whether `threadSize` is the number of the threads of a process that are not dead. `removeThread` lowers
it without a look at the state of the thread.

`threads_accounted` is about every run of events that remove no thread twice. In such a run
`threadSize` is right for every process, and the next removal keeps it right if and only if the
thread is not dead. `thread_removed_twice` is a run in which a process loses its last counted
thread while one of its threads is alive.
-/

namespace BasicKernel

open Linked Keyed Fuel Transition

/-- `threadSize` is the number of nodes in the ring of threads whose thread is not dead. -/
def Kernel.Accounted (k : Kernel) (pid : Int) : Prop :=
  ∀ fuel process, getProcessWithPid fuel k pid = .ok process → process ≠ NULL →
    ∃ libs, Ring k.nextLib (k.process process).threadLibrary libs ∧
      (k.process process).threadSize =
        libs.countP fun lib => (k.thread (k.threadLibrary lib).thread).state ≠ .T_DEAD

/-- A sound event that removes no thread that is dead already, and revives none by a block. -/
def Accounts (k : Kernel) (op : KernelOp) : Prop :=
  Sound k op ∧ op.WakesBlocked ∧ (∀ τ, op.Blocks k τ → ¬ k.ThreadIs τ .T_DEAD) ∧
    ∀ pid pthread, op = .removeThread pid pthread → ¬ k.ThreadIs (pid, pthread) .T_DEAD

def ThreadView.alive (t : ThreadView) : Bool := t.val.state ≠ .T_DEAD

/-- The number of threads that are not dead. -/
def ProcessView.aliveThreads (p : ProcessView) : Nat := p.threads.countP ThreadView.alive

def ProcessView.Accounted (p : ProcessView) : Prop := p.val.threadSize = p.aliveThreads

def View.Accounted (V : View) : Prop := ∀ p ∈ V.table, p.Accounted

variable {k k' : Kernel} {V V' : View} {op : KernelOp} {p : ProcessView} {t u : ThreadView}
  {ty : ThreadState}

/-! ## Changes of one process

A change keeps the count when every thread is as alive behind it as before. Only a new thread and
a killed one change it, and `threadSize` moves with them. -/

namespace ProcessView

/-- The thread at an address gets a state in which it is as alive as before. -/
theorem aliveThreads_setThread (p : ProcessView) (a : Addr) {f : ThreadNode → ThreadNode}
    (h : ∀ t ∈ p.threads, t.addr = a → (t.setVal f).alive = t.alive) :
    (p.setThread a f).aliveThreads = p.aliveThreads := by
  unfold aliveThreads setThread update
  rw [List.countP_map]
  apply List.countP_congr
  intro t ht
  simp only [Function.comp]
  split
  case isTrue hta => rw [h t ht hta]
  case isFalse _ => exact Iff.rfl

theorem Accounted.setThreadState (h : p.Accounted) (a : Addr) {s : ThreadState} (hs : s ≠ .T_DEAD)
    (halive : ∀ t ∈ p.threads, t.addr = a → t.val.state ≠ .T_DEAD) :
    (p.setThreadState a s).Accounted := by
  unfold Accounted ProcessView.setThreadState
  rw [aliveThreads_setThread]
  · exact h
  · intro t ht hta
    simp [ThreadView.alive, hs, halive t ht hta]

theorem Accounted.setState (h : p.Accounted) (s : ProcessState) : (p.setState s).Accounted := h

theorem Accounted.setTick (h : p.Accounted) (n : Int) : (p.setTick n).Accounted := h

theorem Accounted.setHeap (h : p.Accounted) (hs : List HeapView) : (p.setHeap hs).Accounted := h

theorem Accounted.saveStack (h : p.Accounted) (a esp : Addr) : (p.saveStack a esp).Accounted := by
  unfold Accounted ProcessView.saveStack
  rw [aliveThreads_setThread]
  · exact h
  · intro t _ _
    rfl

theorem Accounted.wake (h : p.Accounted) (s : ProcessState) : (p.wake s).Accounted := by
  unfold ProcessView.wake
  split
  · exact h.setState _
  · exact h

theorem Accounted.pause (h : p.Accounted) (current : Addr) : (p.pause current).Accounted := by
  unfold ProcessView.pause
  split
  · exact h.setState _
  · exact h

theorem Accounted.wakeThread (h : p.Accounted) (hty : ty ≠ .T_DEAD)
    (hunique : ∀ u ∈ p.threads, u.addr = t.addr → u = t) : (p.wakeThread t ty).Accounted := by
  unfold ProcessView.wakeThread
  split
  case isTrue hs =>
      apply h.setThreadState _ (by decide)
      intro u hu hut
      rw [hunique u hu hut, hs]
      exact hty
  case isFalse _ => exact h

theorem Accounted.unblock (h : p.Accounted) (hty : ty ≠ .T_DEAD)
    (hunique : ∀ u ∈ p.threads, u.addr = t.addr → u = t) : (p.unblock t ty).Accounted :=
  (h.wakeThread hty hunique).wake _

theorem Accounted.unblockAll (h : p.Accounted) (hty : ty ≠ .T_DEAD)
    (haddrs : (p.threads.map ThreadView.addr).Nodup) : (p.unblockAll ty).Accounted := by
  have hsize : (p.unblockAll ty).val.threadSize = p.val.threadSize := by
    rw [unblockAll_val haddrs]
    split
    · unfold ProcessNode.wake
      split <;> rfl
    · rfl
  have halive : (p.unblockAll ty).aliveThreads = p.aliveThreads := by
    unfold aliveThreads
    rw [unblockAll_threads haddrs, List.countP_map]
    apply List.countP_congr
    intro t _
    simp only [Function.comp]
    split
    case isTrue hwoken => simp [ThreadView.alive, hwoken.2, hty]
    case isFalse _ => exact Iff.rfl
  unfold Accounted
  rw [hsize, halive]
  exact h

theorem Accounted.block (h : p.Accounted) (a : Addr) (hty : ty ≠ .T_DEAD)
    (halive : ∀ t ∈ p.threads, t.addr = a → t.val.state ≠ .T_DEAD) : (p.block a ty).Accounted := by
  have hset : ((p.setThreadState a ty).setVal fun v =>
      { v with threadTick := THREAD_QUANTUM }).Accounted := h.setThreadState a hty halive
  unfold ProcessView.block
  dsimp only
  split
  · exact hset.setState _
  · exact hset

/-- Both threads of a switch are alive before and after it. -/
theorem Accounted.switchThread (h : p.Accounted) (haddrs : (p.threads.map ThreadView.addr).Nodup)
    (ht : t ∈ p.threads) (hu : p.nextReady t = some u) : (p.switchThread t u).Accounted := by
  obtain ⟨hmem, hready⟩ := mem_of_nextReady hu
  have hpause : (p.pauseThread t).Accounted :=
    h.wakeThread (by decide) fun v hv heq => eq_of_key_eq haddrs hv ht heq
  have hcur : ((p.pauseThread t).setVal fun v => { v with currentThread := u.lib }).Accounted :=
    hpause
  have haddrs' : ((p.pauseThread t).threads.map ThreadView.addr).Nodup := by
    rw [pauseThread_addrs]
    exact haddrs
  refine hcur.setThreadState u.addr (by decide) fun v hv heq => ?_
  obtain rfl := eq_of_key_eq haddrs' hv hmem heq
  rw [hready]
  decide

theorem Accounted.addThread (h : p.Accounted) (ht : t.val.state = .T_READY) :
    (p.addThread t).Accounted := by
  have hcount : (p.addThread t).aliveThreads = p.aliveThreads + 1 := by
    unfold aliveThreads ProcessView.addThread
    rw [(insertSecond_perm t p.threads).countP_eq, List.countP_cons_of_pos]
    simp [ThreadView.alive, ht]
  unfold Accounted
  rw [hcount]
  show p.val.threadSize + 1 = _
  rw [h, Nat.cast_add, Nat.cast_one]

theorem Created.accounted {entryPoint : Addr} {pid : Int} (h : p.Created entryPoint pid) :
    p.Accounted := by
  obtain ⟨t, hthreads, ht, -⟩ := h.threads
  unfold Accounted aliveThreads
  rw [h.threadSize, hthreads, List.countP_singleton]
  simp [ThreadView.alive, ht.state]

/-- The thread is counted no longer, and one less is alive unless it was dead. -/
theorem accounted_killThread_iff (h : p.Accounted) (haddrs : (p.threads.map ThreadView.addr).Nodup)
    (ht : t ∈ p.threads) : (p.killThread t.addr).Accounted ↔ t.val.state ≠ .T_DEAD := by
  have hsize : (p.killThread t.addr).val.threadSize = p.val.threadSize - 1 := by
    unfold killThread loseThread
    split <;> rfl
  have hthreads : (p.killThread t.addr).threads = (p.setThreadState t.addr .T_DEAD).threads := by
    unfold killThread loseThread
    split <;> rfl
  -- the ring around the thread
  obtain ⟨A, B, hAB⟩ := List.append_of_mem ht
  rw [hAB] at haddrs
  have hkilled : (p.setThreadState t.addr .T_DEAD).threads =
      A ++ (t.setVal fun v => { v with state := .T_DEAD }) :: B := by
    unfold setThreadState setThread
    dsimp only
    rw [hAB]
    exact update_append haddrs
  have hdead : (t.setVal fun v => { v with state := ThreadState.T_DEAD }).alive = false := rfl
  have hcount : p.aliveThreads = (p.killThread t.addr).aliveThreads + (if t.alive then 1 else 0) := by
    unfold aliveThreads
    rw [hthreads, hkilled, hAB]
    simp only [List.countP_append, List.countP_cons, hdead]
    simp only [Bool.false_eq_true, if_false]
    omega
  unfold Accounted at h ⊢
  rw [hsize, h, hcount]
  unfold ThreadView.alive
  by_cases hs : t.val.state = .T_DEAD
  · simp [hs]
  · simp [hs]

end ProcessView

/-! ## Events

One case for each kind of effect. A process whose threads are counted is replaced by one whose
threads are counted, and the others are the same. -/

theorem View.AtBoot.accounted (h : V.AtBoot) : V.Accounted := by
  intro p hp
  obtain ⟨entryPoint, pid, hcreated⟩ := h.created hp
  exact hcreated.accounted

theorem View.Accounted.set {p' : ProcessView} (h : V.Accounted) (hp' : p'.Accounted) :
    (V.set p p').Accounted := View.forall_set h hp'

theorem ThreadState.ne_dead_of_blocked (h : isThreadBlocked ty) : ty ≠ .T_DEAD := by
  rintro rfl
  cases h

namespace Rep

theorem accounted_blocked (hr : Rep k V) (hok : V.Ok) (hb : V.Blocked p t ty V') (h : V.Accounted)
    (hp : p ∈ V.table) (ht : t ∈ p.threads) (hty : isThreadBlocked ty)
    (halive : ¬ k.ThreadIs (p.val.pid, t.val.pthread) .T_DEAD) : V'.Accounted := by
  have hset : (V.set p (p.block t.addr ty)).Accounted := by
    refine h.set ((h p hp).block t.addr (ThreadState.ne_dead_of_blocked hty) fun u hu heq hdead => ?_)
    obtain rfl := hr.thread_unique hp ht u hu heq
    exact halive ((hr.threadIs_iff hok).mpr (by rw [hok.threadState_eq hp hu, hdead]))
  intro q hq
  rw [hb.table] at hq
  exact hset q hq

theorem accounted_scheduled (hr : Rep k V) (h : Scheduled V V') (hV : V.Accounted) :
    V'.Accounted := by
  cases h with
  | @count c hc _ _ _ =>
      have hset : (V.set c (c.setTick (c.val.threadTick + 1))).Accounted :=
        hV.set ((hV c hc).setTick _)
      exact hset
  | @thread c t u hc _ ht _ _ _ hu =>
      have hset : (V.set c ((c.setTick 0).switchThread t u)).Accounted := by
        rw [← c.nextReady_setTick t 0] at hu
        have haddrs := hr.threadAddrs_nodup hc
        exact hV.set (((hV c hc).setTick 0).switchThread haddrs ht hu)
      exact hset
  | @process s _ _ =>
      intro p hp
      obtain ⟨q, hq, rfl⟩ := List.mem_map.mp hp
      have hq' := hV q (View.mem_of_mem_reap hr.queue.nodup hq)
      split
      · exact hq'.setState _
      · exact hq'.pause _

theorem accounted_yielded {c : ProcessView} (hr : Rep k V) (h : Yielded V c t V') (hc : c ∈ V.table)
    (hV : V.Accounted) : V'.Accounted := by
  cases h with
  | process _ hs => exact (hr.setTicks QUANTUM).accounted_scheduled hs hV
  | thread _ _ hs =>
      obtain ⟨k₁, -, hr₁⟩ := hr.setTick hc THREAD_QUANTUM
      exact hr₁.accounted_scheduled hs (hV.set ((hV c hc).setTick _))
  | stay _ _ => exact hV

end Rep

theorem WakeAll.accounted {ws : List WaiterView} (h : WakeAll ws V V') :
    ∀ {k : Kernel}, Rep k V → V.Ok → V.Accounted → V'.Accounted := by
  induction h with
  | nil => exact fun _ _ hV => hV
  | @cons _ _ V _ p t hp _ ht _ _ ih =>
      intro k hr hok hV
      obtain ⟨k₁, -, hr₁⟩ := hr.unblockThread hok hp ht .T_BLOCKED_MUTEX
      refine ih hr₁ (hr.ok_unblock hok hp t _) (hV.set ?_)
      exact (hV p hp).unblock (by decide) (hr.thread_unique hp ht)

theorem WakeReceiver.accounted {pid : Int} (h : WakeReceiver pid V V') :
    ∀ {k : Kernel}, Rep k V → V.Ok → V.Accounted → V'.Accounted := by
  induction h with
  | nil => exact fun _ _ hV => hV
  | @cons V _ p hp _ _ ih =>
      intro k hr hok hV
      obtain ⟨k₁, -, hr₁⟩ := hr.unblockAllThreads hok hp .T_BLOCKED_PIPE
      refine ih hr₁ (hr.ok_unblockAll hok hp _) (hV.set ?_)
      exact (hV p hp).unblockAll (by decide) (hr.threadAddrs_nodup hp)

theorem Rep.accounted_unlocks {κ : LockKind} {l : LockView} {status : Int} (hr : Rep k V) (hok : V.Ok)
    (h : V.Unlocks κ l status V') (hV : V.Accounted) : V'.Accounted := by
  obtain ⟨V₁, hwake, rfl⟩ := h
  intro p hp
  rw [View.setLock_table] at hp
  exact hwake.accounted hr hok hV p hp

theorem Rep.accounted_effect (hr : Rep k V) (hok : V.Ok) (h : Effect k V op V')
    (hreceive : ∀ name buff, op = .receive name buff → V' = V ∨ k.PipeEmpty name buff)
    (haccounts : Accounts k op) (hV : V.Accounted) : V'.Accounted := by
  obtain ⟨hs, hwakes, hblocks, hremoves⟩ := haccounts
  have hlocks : ∀ κ (ls : List LockView), (V.setLocks κ ls).Accounted := by
    intro κ ls p hp
    rw [View.setLocks_table] at hp
    exact hV p hp
  have hlock : ∀ κ l l', (V.setLock κ l l').Accounted := by
    intro κ l l' p hp
    rw [View.setLock_table] at hp
    exact hV p hp
  -- one case for each effect; the counter and the threads change together in all but the kills
  cases h with
  | idle _ => exact hV
  | @tick _ rsp c t _ hc ht hccur htcur hsched =>
      obtain ⟨k₁, -, hr₁⟩ := hr.saveStack hc hccur ht htcur rsp
      exact hr₁.accounted_scheduled hsched (hV.set ((hV c hc).saveStack _ _))
  | @yield _ rsp c t _ hc ht hccur htcur hyield =>
      obtain ⟨k₁, -, hr₁⟩ := hr.saveStack hc hccur ht htcur rsp
      exact hr₁.accounted_yielded hyield (View.mem_set hc _) (hV.set ((hV c hc).saveStack _ _))
  | @addProcess _ _ _ p hp =>
      intro q hq
      rcases mem_insertSecond.mp hq with rfl | hq
      · exact hp.accounted
      · exact hV q hq
  | @addThread _ _ _ p _ hp _ ht => exact hV.set ((hV p hp).addThread ht.state)
  | @removeProcess _ p hp _ _ =>
      have hset : (V.set p (p.setState .DEAD)).Accounted := hV.set ((hV p hp).setState _)
      exact hset
  | @removeThread pid pthread p t hp ht hpid hpthread _ _ =>
      -- the counter is lowered for a thread that was still counted
      have halive : t.val.state ≠ .T_DEAD := by
        intro hdead
        refine hremoves pid pthread rfl ((hr.threadIs_iff hok).mpr ?_)
        rw [← hpid, ← hpthread, hok.threadState_eq hp ht, hdead]
      have hset : (V.set p (p.killThread t.addr)).Accounted :=
        hV.set ((ProcessView.accounted_killThread_iff (hV p hp) (hr.threadAddrs_nodup hp) ht).mpr halive)
      exact hset
  -- a process that is left was there before
  | removeDeadProcess => exact fun p hp => hV p (View.mem_of_mem_reap hr.queue.nodup hp)
  | @blockThread _ _ ty p t hp ht hpid hpthread =>
      refine hr.accounted_blocked hok (.of_block V p t ty) hV hp ht hs ?_
      exact hblocks (p.val.pid, t.val.pthread) (by rw [hpid, hpthread]; rfl)
  | @unblockThread _ _ ty p t hp ht _ _ =>
      exact hV.set ((hV p hp).unblock (ThreadState.ne_dead_of_blocked hwakes) (hr.thread_unique hp ht))
  | @unblockAllThreads _ ty p hp _ =>
      exact hV.set
        ((hV p hp).unblockAll (ThreadState.ne_dead_of_blocked hwakes) (hr.threadAddrs_nodup hp))
  | createMutex _ _ _ => exact hV
  | createSemaphore _ _ _ => exact hV
  | mutexUp _ hunlock => exact hr.accounted_unlocks hok hunlock hV
  | mutexWait hl hstatus hwait =>
      obtain ⟨p, hp, t, ht, hcur, hblocked⟩ := hwait.blocked
      exact hr.accounted_blocked hok hblocked hV hp ht rfl
        (hblocks _ (hr.blocks_mutexDown hok hl hstatus hcur))
  | mutexTake _ _ => exact hlock _ _ _
  | mutexDestroy _ _ => exact hlocks _ _
  | semaphoreCount _ _ => exact hlock _ _ _
  | semaphoreUp _ _ hunlock => exact hr.accounted_unlocks hok hunlock hV
  | semaphoreWait hl hstatus hwait =>
      obtain ⟨p, hp, t, ht, hcur, hblocked⟩ := hwait.blocked_of_setLock
      exact hr.accounted_blocked hok hblocked hV hp ht rfl
        (hblocks _ (hr.blocks_semaphoreDown hok hl hstatus hcur))
  | semaphoreTake _ _ => exact hlock _ _ _
  | semaphoreDestroy _ _ => exact hlocks _ _
  | send _ hwake => exact hwake.accounted hr hok hV
  | @receive _ _ fuel _ _ p t hreceiver hpthread hp ht hppid htpthread =>
      -- the read blocks only when the pipe is empty; otherwise the view is the same
      rcases hreceive _ _ rfl with heq | hempty
      · rw [heq]
        exact hV
      · refine hr.accounted_blocked hok (.of_block V p t _) hV hp ht rfl ?_
        exact hblocks (p.val.pid, t.val.pthread)
          ⟨hempty, ⟨fuel, by rw [hreceiver, hppid]⟩, by rw [hpthread, htpthread]⟩
  | @pmalloc _ c b hc _ _ => exact hV.set ((hV c hc).setHeap _)
  | @pfree _ c b A B hc _ _ _ => exact hV.set ((hV c hc).setHeap _)

/-! ## Runs -/

theorem Run.accounts (h : Run Accounts k) : ∃ V, Rep k V ∧ V.Ok ∧ V.Accounted := by
  refine Reachable.invariant (I := fun k => ∃ V, Rep k V ∧ V.Ok ∧ V.Accounted) (fun k hk => ?_)
    (fun k k' _ hI hstep => ?_) h
  · obtain ⟨V, hr, hok, hV⟩ := hk.rep
    exact ⟨V, hr, hok, hV.accounted⟩
  · obtain ⟨V, hr, hok, hV⟩ := hI
    obtain ⟨k₁, op, fuel, hrec, haccounts, hrun⟩ := hstep
    have hr₁ := hr.recycled hrec
    obtain ⟨V', heffect, hr', hok', hreceive⟩ := hr₁.run_inv_receive hok haccounts.1 hrun
    exact ⟨V', hr', hok', hr₁.accounted_effect hok heffect hreceive haccounts hV⟩

theorem Rep.countP_libs (hr : Rep k V) (hp : p ∈ V.table) :
    ((p.threads.map ThreadView.lib).countP fun lib =>
      (k.thread (k.threadLibrary lib).thread).state ≠ .T_DEAD) = p.aliveThreads := by
  unfold ProcessView.aliveThreads
  rw [List.countP_map]
  apply List.countP_congr
  intro t ht
  have hrt := (hr.processes p hp).threads t ht
  simp only [Function.comp, hrt.thread, hrt.val, ThreadView.alive]

theorem Rep.accounted_iff (hr : Rep k V) (hok : V.Ok) (hp : p ∈ V.table) :
    k.Accounted p.val.pid ↔ p.Accounted := by
  have hrp := hr.processes p hp
  unfold ProcessView.Accounted
  constructor
  · intro h
    obtain ⟨fuel, hget⟩ := (hr.getProcessWithPid_of_mem hok.pids hp).exists_fuel
    obtain ⟨libs, hring, hsize⟩ := h fuel p.addr hget hrp.addr_ne
    rw [hrp.val] at hring hsize
    -- a ring has the same nodes however it is listed
    rw [hsize, ← hr.countP_libs hp, (hring.perm hrp.ring).countP_eq]
  · intro h fuel a hget ha
    obtain ⟨q, hq, hpid, rfl⟩ := hr.process_of_getProcess hget ha
    obtain rfl := eq_of_key_eq hok.pids hq hp hpid
    refine ⟨q.threads.map ThreadView.lib, ?_, ?_⟩
    · rw [hrp.val]
      exact hrp.ring
    · rw [hrp.val, hr.countP_libs hp]
      exact h

theorem Kernel.accounted_of_none (hr : Rep k V) {pid : Int} (h : ∀ p ∈ V.table, p.val.pid ≠ pid) :
    k.Accounted pid := by
  intro fuel a hget ha
  obtain ⟨p, hp, hpid, -⟩ := hr.process_of_getProcess hget ha
  exact absurd hpid (h p hp)

theorem View.Accounted.kernel (hr : Rep k V) (hok : V.Ok) (hV : V.Accounted) (pid : Int) :
    k.Accounted pid := by
  by_cases h : ∃ p ∈ V.table, p.val.pid = pid
  · obtain ⟨p, hp, rfl⟩ := h
    exact (hr.accounted_iff hok hp).mpr (hV p hp)
  · push Not at h
    exact Kernel.accounted_of_none hr h

/-- While no thread is removed twice, `threadSize` is the number of threads that are not dead, and
`removeThread` marks a process dead only with its last thread. -/
theorem threads_accounted (h : Run Accounts k) {pid pthread : Int} (hpid : 1 < pid) :
    k.Accounted pid ∧ ∀ fuel k', 0 < pthread → removeThread fuel k pid pthread = .ok k' →
      (k'.Accounted pid ↔ ¬ k.ThreadIs (pid, pthread) .T_DEAD) ∧
      (¬ k.ThreadIs (pid, pthread) .T_DEAD → k'.ProcessIs pid .DEAD → k.ProcessIs pid .DEAD ∨
        ∀ i s, i ≠ pthread → k.ThreadIs (pid, i) s → s = .T_DEAD) := by
  obtain ⟨V, hr, hok, hV⟩ := h.accounts
  refine ⟨hV.kernel hr hok pid, fun fuel k' hpthread hcall => ?_⟩
  rcases hr.removeThread_inv hok hcall with ⟨hguard, -⟩ | ⟨-, -, p, hp, t, ht, rfl, rfl, hr'⟩
  · omega
  have hok' := hr.ok_killThread hok hp ht (by omega) (by omega)
  have hp' : p.killThread t.addr ∈ (V.killThread p t.addr).table := View.mem_set hp _
  have hpid' : (p.killThread t.addr).val.pid = p.val.pid :=
    Rep.killThread_pid p t.addr
  have halive : ¬ k.ThreadIs (p.val.pid, t.val.pthread) .T_DEAD ↔ t.val.state ≠ .T_DEAD := by
    rw [hr.threadIs_iff hok, hok.threadState_eq hp ht]
    simp
  constructor
  -- the counter is right after the call if and only if the thread was alive
  · rw [← hpid', hr'.accounted_iff hok' hp', hpid', halive]
    exact ProcessView.accounted_killThread_iff (hV p hp) (hr.threadAddrs_nodup hp) ht
  · rw [halive]
    intro hlive hdead
    rw [hr'.processIs_iff hok', hr.processState_killThread hok hp t.addr, Function.update_self] at hdead
    -- the call makes the process dead when the counter was 1
    by_cases hsize : p.val.threadSize = 1
    · right
      intro i s hi hs
      obtain ⟨q, hq, u, hu, heq, hus⟩ := hok.threadState_some.mp ((hr.threadIs_iff hok).mp hs)
      obtain ⟨hqp, rfl⟩ := Prod.mk.inj heq
      obtain rfl := eq_of_key_eq hok.pids hq hp hqp
      -- one thread is alive, and it is the one that was removed
      have hone : (q.threads.filter ThreadView.alive).length = 1 := by
        have hsize' := hV q hq
        unfold ProcessView.Accounted ProcessView.aliveThreads at hsize'
        rw [hsize, List.countP_eq_length_filter] at hsize'
        exact_mod_cast hsize'.symm
      obtain ⟨v, hv⟩ := List.length_eq_one_iff.mp hone
      have hmem : ∀ w ∈ q.threads, w.val.state ≠ .T_DEAD → w = v := by
        intro w hw hwalive
        have hwv : w ∈ q.threads.filter ThreadView.alive :=
          List.mem_filter.mpr ⟨hw, by simpa [ThreadView.alive] using hwalive⟩
        rw [hv] at hwv
        exact List.mem_singleton.mp hwv
      by_contra hsalive
      refine hi ?_
      rw [hmem u hu (by rw [hus]; exact hsalive), hmem t ht hlive]
    · left
      rw [if_neg hsize] at hdead
      rw [hr.processIs_iff hok, hok.processState_eq hp, hdead]

/-! ### A thread that is removed twice -/

/-- Process `2` gets a second thread. -/
def twoThreads : Except Stop Kernel := do
  KernelOp.runSound 40 [.addProcess 1 4 8, .addThread 2 4 8] (← startKernel)

/-- The second thread is removed, and once more. -/
def removedTwice : Except Stop (Kernel × Kernel × Kernel × Addr) := do
  let k ← twoThreads
  let k₁ ← removeThread 40 k 2 1
  let k₂ ← removeThread 40 k₁ 2 1
  let process ← getProcessWithPid 40 k₂ 2
  return (k, k₁, k₂, process)

theorem removedTwice_states : (do
    let r ← removedTwice
    let (k, k₁, k₂, process) := r
    return decide (k.threadIs? (2, 1) .T_READY ∧ k₁.processIs? 2 .READY ∧
      k₁.threadIs? (2, 0) .T_READY ∧ k₂.processIs? 2 .DEAD ∧ process ≠ NULL ∧
      (k₂.process process).threadSize = 0 ∧ (k₂.thread
        (k₂.threadLibrary (k₂.process process).threadLibrary).thread).state = .T_READY) :
      Except Stop Bool) = .ok true := by
  decide +kernel

theorem twoThreads_reachable {k : Kernel} (h : twoThreads = .ok k) : Run Accounts k := by
  obtain ⟨k₀, hk₀, hrun⟩ := bind_eq_ok.mp h
  refine Reachable.runSound (P := fun op => op.WakesBlocked ∧ (∀ k τ, ¬ op.Blocks k τ) ∧
    ∀ pid pthread, op ≠ .removeThread pid pthread) (f := id) ?_ ?_ (.start (booted_of_start hk₀)) hrun
  · rintro k k' ⟨k₁, op, fuel, hrec, ⟨hs, hwakes, hblocks, hremoves⟩, hstep⟩
    exact ⟨k₁, op, fuel, hrec, ⟨hs, hwakes, fun τ h => absurd h (hblocks k₁ τ),
      fun pid pthread h => absurd h (hremoves pid pthread)⟩, hstep⟩
  · intro op hop
    simp only [List.mem_cons, List.not_mem_nil, or_false] at hop
    rcases hop with rfl | rfl
    · exact ⟨trivial, fun _ _ h => h, fun _ _ h => by cases h⟩
    · exact ⟨trivial, fun _ _ h => h, fun _ _ h => by cases h⟩

theorem Run.of_accounts (h : Run Accounts k) : Run Sound k :=
  h.mono (fun _ h => h) fun _ _ ⟨k₁, op, fuel, hrec, haccounts, hrun⟩ =>
    ⟨k₁, op, fuel, hrec, haccounts.1, hrun⟩

/-- The first removal of the second thread. One of two threads is left, and counted. -/
theorem threads_accounted_once : ∃ k k', Run Accounts k ∧ k.ThreadIs (2, 1) .T_READY ∧
    removeThread 40 k 2 1 = .ok k' ∧ k'.ThreadIs (2, 0) .T_READY ∧ k'.Accounted 2 := by
  obtain ⟨r, hr, h⟩ := bind_eq_ok.mp removedTwice_states
  rw [removedTwice] at hr
  obtain ⟨k, hk, hr⟩ := bind_eq_ok.mp hr
  obtain ⟨k₁, hk₁, hr⟩ := bind_eq_ok.mp hr
  obtain ⟨k₂, -, hr⟩ := bind_eq_ok.mp hr
  obtain ⟨process, -, hr⟩ := bind_eq_ok.mp hr
  obtain rfl := Except.ok.inj hr
  obtain ⟨hready, -, hmain, -⟩ := of_decide_eq_true (Except.ok.inj h)
  have hrun := twoThreads_reachable hk
  refine ⟨k, k₁, hrun, Kernel.threadIs_of hready, hk₁, Kernel.threadIs_of hmain, ?_⟩
  refine (((threads_accounted hrun (by decide)).2 40 k₁ (by decide) hk₁).1).mpr ?_
  exact hrun.of_accounts.not_threadIs_of hready (by decide)

/-- The second removal kills the process, whose first thread is alive and counted no longer. -/
theorem thread_removed_twice : ∃ k k', Run Sound k ∧ removeThread 40 k 2 1 = .ok k' ∧
    ¬ k'.Accounted 2 ∧ ¬ k.ProcessIs 2 .DEAD ∧ k'.ProcessIs 2 .DEAD ∧ k.ThreadIs (2, 0) .T_READY := by
  obtain ⟨r, hr, h⟩ := bind_eq_ok.mp removedTwice_states
  rw [removedTwice] at hr
  obtain ⟨k, hk, hr⟩ := bind_eq_ok.mp hr
  obtain ⟨k₁, hk₁, hr⟩ := bind_eq_ok.mp hr
  obtain ⟨k₂, hk₂, hr⟩ := bind_eq_ok.mp hr
  obtain ⟨process, hget, hr⟩ := bind_eq_ok.mp hr
  obtain rfl := Except.ok.inj hr
  obtain ⟨-, hready, hmain, hdead, hne, hsize, hhead⟩ := of_decide_eq_true (Except.ok.inj h)
  have hrun₁ : Run Sound k₁ := (twoThreads_reachable hk).of_accounts.step (.removeThread 2 1) trivial hk₁
  refine ⟨k₁, k₂, hrun₁, hk₂, ?_, ?_, Kernel.processIs_of hdead, Kernel.threadIs_of hmain⟩
  · intro haccounted
    obtain ⟨libs, hring, hcount⟩ := haccounted 40 process hget hne
    rw [hsize] at hcount
    have hzero := List.countP_eq_zero.mp (Int.ofNat_eq_zero.mp hcount.symm) _ hring.head_mem
    rw [hhead] at hzero
    exact hzero (by decide)
  · intro hdead₁
    cases (Kernel.processIs_of hready).unique hdead₁

end BasicKernel
