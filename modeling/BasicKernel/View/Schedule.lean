import BasicKernel.View.Switch

set_option autoImplicit false

/-! # Ticks and yields on a view

A timer interrupt and a yield save the stack pointer of the current thread, run the scheduler and
load the stack pointer of the thread that is current then. `runScheduler` counts a tick, or
switches the process when the quantum is used up; `yieldSwitch` does so earlier for a process or a
thread that cannot go on. Either scan may find nobody to run: it then has no end, and the
interrupt does not return.
-/

namespace BasicKernel

open Linked Keyed Fuel

/-! ## The operations

What a tick or a yield can do is one of a few cases, and which one is decided by the counters and
by the states of the caller. -/

/-- What `runScheduler` does: it counts the tick, switches threads after a full thread quantum, or
switches processes after a full quantum. -/
inductive Scheduled (V : View) : View → Prop
  | count {c : ProcessView} : c ∈ V.table → c.node = V.current → V.ticks < QUANTUM →
      c.val.threadTick < THREAD_QUANTUM →
      Scheduled V { V.set c (c.setTick (c.val.threadTick + 1)) with ticks := V.ticks + 1 }
  | thread {c : ProcessView} {t u : ThreadView} : c ∈ V.table → c.node = V.current →
      t ∈ c.threads → t.lib = c.val.currentThread → V.ticks < QUANTUM →
      ¬ c.val.threadTick < THREAD_QUANTUM → c.nextReady t = some u →
      Scheduled V { V.set c ((c.setTick 0).switchThread t u) with ticks := V.ticks + 1 }
  | process {s : ProcessView} : ¬ V.ticks < QUANTUM → V.nextProcess = some s →
      Scheduled V (V.switch s)

/-- The state of the process or of its thread lets `yieldSwitch` call `runScheduler`. -/
def ProcessView.stopped (p : ProcessView) : Bool :=
  isProcessBlocked p.val.state ∨ p.val.state = .DEAD

def ThreadView.stopped (t : ThreadView) : Bool :=
  isThreadBlocked t.val.state ∨ t.val.state = .T_DEAD

/-- A yield leads to a process switch. -/
def View.YieldSwitches (V : View) : Prop :=
  ∃ c ∈ V.table, ∃ t ∈ c.threads, c.node = V.current ∧ t.lib = c.val.currentThread ∧
    (c.stopped ∨ t.stopped ∧ ¬ V.ticks < QUANTUM)

/-- What `yieldSwitch` does for the current process `c` with the current thread `t`. -/
inductive Yielded (V : View) (c : ProcessView) (t : ThreadView) : View → Prop
  | process {V' : View} : c.stopped → Scheduled { V with ticks := QUANTUM } V' → Yielded V c t V'
  | thread {V' : View} : c.stopped = false → t.stopped →
      Scheduled (V.set c (c.setTick THREAD_QUANTUM)) V' → Yielded V c t V'
  | stay : c.stopped = false → t.stopped = false → Yielded V c t V

/-- The stack pointer of a thread is saved. -/
def ProcessView.saveStack (t : Addr) (esp : Addr) (p : ProcessView) : ProcessView :=
  p.setThread t fun v => { v with userStack := esp }

/-! ## Numbers are kept

None of the cases makes or kills a process. Only a removal takes entries away. -/

namespace ProcessView

variable {p : ProcessView}

theorem sameFrame_pause (p : ProcessView) (current : Addr) : p.SameFrame (p.pause current) := by
  rw [pause]
  split
  · exact p.sameFrame_setState _
  · exact .refl p

theorem Ok.pause (h : p.Ok) (current : Addr) : (p.pause current).Ok := by
  rw [ProcessView.pause]
  split
  · exact h.setState _
  · exact h

theorem pause_alive (current : Addr) (h : p.val.state ≠ .DEAD) :
    (p.pause current).val.state ≠ .DEAD := by
  rw [pause]
  split
  · simp
  · exact h

theorem Ok.setTick (h : p.Ok) (n : Int) : (p.setTick n).Ok := h.setVal le_rfl rfl

theorem Ok.saveStack (h : p.Ok) (t esp : Addr) : (p.saveStack t esp).Ok :=
  h.setThread (fun _ => rfl) fun _ _ _ _ h => h

theorem Ok.switchThread (h : p.Ok) (t u : ThreadView) : (p.switchThread t u).Ok := by
  have h' : (p.pauseThread t).Ok := by
    rw [pauseThread, wakeThread]
    split
    · exact h.setThreadState _ (by decide)
    · exact h
  exact (h'.setVal (f := fun v => { v with currentThread := u.lib }) le_rfl rfl).setThreadState _
    (by decide)

theorem switchThread_val (p : ProcessView) (t u : ThreadView) :
    (p.switchThread t u).val = { p.val with currentThread := u.lib } := by
  show ({ (p.pauseThread t).val with currentThread := u.lib } : ProcessNode) = _
  rw [pauseThread, wakeThread_val]

theorem switchThread_node (p : ProcessView) (t u : ThreadView) :
    (p.switchThread t u).node = p.node := (p.sameFrame_wakeThread t .T_RUNNING).node

end ProcessView

/-- A change of every process that keeps the numbers and kills nobody. -/
theorem View.Numbered.map {V : View} (h : V.Numbered) {f : ProcessView → ProcessView}
    (hok : ∀ p ∈ V.table, (f p).Ok) (hpid : ∀ p ∈ V.table, (f p).val.pid = p.val.pid)
    (hdead : ∀ p ∈ V.table, p.val.state ≠ .DEAD → (f p).val.state ≠ .DEAD) :
    ({ V with table := V.table.map f } : View).Numbered := by
  have hpids : (V.table.map f).map (·.val.pid) = V.table.map (·.val.pid) := by
    rw [List.map_map]
    exact List.map_congr_left hpid
  refine ⟨?_, by rw [hpids]; exact h.pids, ?_, ?_, ?_⟩
  · rintro _ hq
    obtain ⟨p, hp, rfl⟩ := List.mem_map.mp hq
    exact hok p hp
  · rintro _ hq
    obtain ⟨p, hp, rfl⟩ := List.mem_map.mp hq
    rw [hpid p hp]
    exact h.pid_lt p hp
  · obtain ⟨p, ps, hps, h0, hstate⟩ := h.main
    have hp : p ∈ V.table := by rw [hps]; exact List.mem_cons_self
    exact ⟨f p, ps.map f, by simp [hps], (hpid p hp).trans h0, hdead p hp hstate⟩
  · refine h.queueSize_le.trans (Int.ofNat_le.mpr ?_)
    simp only [View.alive, List.countP_map]
    refine List.countP_mono_left fun p hp halive => ?_
    simpa using hdead p hp (by simpa using halive)

theorem View.Ok.setTicks {V : View} (h : V.Ok) (n : Int) : ({ V with ticks := n } : View).Ok :=
  ⟨⟨h.processes, h.pids, h.pid_lt, h.main, h.queueSize_le⟩, h.current⟩

theorem View.Ok.switch {V : View} (h : V.Ok) (hnd : (V.table.map ProcessView.node).Nodup)
    {s : ProcessView} (hs : V.nextProcess = some s) : (V.switch s).Ok := by
  have hs' := View.mem_reap_of_nextProcess hnd hs
  have hnum := (h.toNumbered.reap hnd).map
    (f := fun p => if p.node = s.node then p.setState .RUNNING else p.pause V.current)
    (fun p hp => ?_) (fun p _ => ?_) fun p _ halive => ?_
  · refine ⟨⟨hnum.processes, hnum.pids, hnum.pid_lt, hnum.main, hnum.queueSize_le⟩,
      s.setState .RUNNING, List.mem_map.mpr ⟨s, hs', if_pos rfl⟩, rfl⟩
  · have hp := h.processes p (View.mem_of_mem_reap hnd hp)
    split
    · exact hp.setState _
    · exact hp.pause _
  · split
    · rfl
    · exact (p.sameFrame_pause _).pid
  · split
    · simp
    · exact ProcessView.pause_alive _ halive

/-- The safety of a removal depends on the states, the sizes and the nodes of the threads. -/
theorem View.Reapable.map {V : View} {garbage : Garbage} (h : V.Reapable garbage)
    {f : ProcessView → ProcessView} (halive : ∀ p ∈ V.table, (f p).alive = p.alive)
    (hsize : ∀ p ∈ V.table, (f p).val.threadSize = p.val.threadSize)
    (hlibrary : ∀ p ∈ V.table, (f p).val.threadLibrary = p.val.threadLibrary)
    (hlibs : ∀ p ∈ V.table, (f p).threads.map ThreadView.lib = p.threads.map ThreadView.lib) :
    ({ V with table := V.table.map f } : View).Reapable garbage := by
  constructor
  -- a neighbour of a dead process is alive before and after `f`
  · show NoDeadNeighbours ((V.table.map f).take _)
    rw [← List.map_take, NoDeadNeighbours, List.isChain_map]
    refine h.apart.imp_of_mem_imp fun p q hp hq hpq => ?_
    rw [halive p (List.mem_of_mem_take hp), halive q (List.mem_of_mem_take hq)]
    exact hpq
  · show ∀ p ∈ (V.table.map f).take _, _
    rw [← List.map_take]
    rintro _ hq hdead hpos
    obtain ⟨p, hp, rfl⟩ := List.mem_map.mp hq
    have hpT := List.mem_of_mem_take hp
    -- the uninitialised pointer depends on the ring of threads, which `f` keeps
    have hpointer : garbage.pointer (f p) = garbage.pointer p := by
      rw [Garbage.pointer, hlibrary p hpT]
      rfl
    rw [halive p hpT] at hdead
    rw [hsize p hpT] at hpos
    obtain ⟨hne, hfresh⟩ := h.spares p hp hdead hpos
    rw [hpointer]
    refine ⟨hne, ?_⟩
    rintro _ hmem
    obtain ⟨q, hqT, rfl⟩ := List.mem_map.mp hmem
    rw [hlibs q hqT]
    exact hfresh q hqT

namespace Rep

variable {k k' : Kernel} {V V' : View} {c p s : ProcessView} {t : ThreadView} {garbage : Garbage}
  {fuel : Nat}

theorem ok_scheduled (hr : Rep k V) (hok : V.Ok) (h : Scheduled V V') : V'.Ok := by
  cases h with
  | @count c hc _ _ _ =>
      exact (hr.ok_set hok hc ((hok.processes _ hc).setTick (c.val.threadTick + 1)) rfl rfl
        id).setTicks _
  | @thread c t u hc _ _ _ _ _ _ =>
      have hval := (c.setTick 0).switchThread_val t u
      exact (hr.ok_set hok hc (((hok.processes _ hc).setTick 0).switchThread t u)
        ((c.setTick 0).switchThread_node t u) (by rw [hval]; rfl) (by rw [hval]; exact id)).setTicks _
  | process _ hs => exact hok.switch hr.queue.nodup hs

/-! ## They are what the code does

For each case there is one lemma that the code does it, and then one lemma that the code does one
of the cases or does not end. -/

theorem currentProcess_ne (hr : Rep k V) (hok : V.Ok) : k.currentProcess ≠ NULL := by
  obtain ⟨c, hc, hccur⟩ := hok.current
  rw [hr.current, ← hccur]
  exact (hr.processes c hc).node_ne

theorem runScheduler_tick (hr : Rep k V) (hok : V.Ok) (hticks : V.ticks < QUANTUM)
    (garbage : Garbage) (fuel : Nat) : BasicKernel.runScheduler fuel garbage k =
      BasicKernel.threadCheck fuel garbage { k with numberOfTicks := V.ticks + 1 } := by
  simp only [BasicKernel.runScheduler, hr.currentProcess_ne hok, if_false, hr.ticks, hticks, if_true]

theorem runScheduler_switch (hr : Rep k V) (hok : V.Ok) (hticks : ¬ V.ticks < QUANTUM)
    (garbage : Garbage) (fuel : Nat) : BasicKernel.runScheduler fuel garbage k =
      BasicKernel.switchProcess fuel garbage k := by
  simp only [BasicKernel.runScheduler, hr.currentProcess_ne hok, if_false, hr.ticks, hticks]

/-- What can be done is done, and `runScheduler` returns. -/
theorem runScheduler_returns (hr : Rep k V) (hok : V.Ok)
    (hsafe : ¬ V.ticks < QUANTUM → V.Reapable garbage) (h : Scheduled V V') :
    ∃ k', Returns (BasicKernel.runScheduler · garbage k) k' ∧ Rep k' V' := by
  cases h with
  | @count c hc hccur hticks htick =>
      obtain ⟨t, ht, htcur⟩ := (hr.processes c hc).exists_current
      simp only [hr.runScheduler_tick hok hticks]
      exact ((hr.setTicks (V.ticks + 1)).threadCheck (hok.setTicks _) hc hccur ht htcur garbage).1 htick
  | thread hc hccur ht htcur hticks htick hu =>
      simp only [hr.runScheduler_tick hok hticks]
      exact (((hr.setTicks (V.ticks + 1)).threadCheck (hok.setTicks _) hc hccur ht htcur garbage).2 htick).1 _ hu
  | process hticks hs =>
      simp only [hr.runScheduler_switch hok hticks]
      exact hr.switchProcess hok (hsafe hticks) hs

/-- `runScheduler` does one of the three, or does not end. -/
theorem runScheduler (hr : Rep k V) (hok : V.Ok)
    (hsafe : ¬ V.ticks < QUANTUM → V.Reapable garbage) :
    (∃ V' k', Scheduled V V' ∧ Returns (BasicKernel.runScheduler · garbage k) k' ∧ Rep k' V') ∨
      Never (BasicKernel.runScheduler · garbage k) := by
  have hdone : ∀ {V'}, Scheduled V V' → ∃ V' k', Scheduled V V' ∧
      Returns (BasicKernel.runScheduler · garbage k) k' ∧ Rep k' V' := fun {V'} h =>
    let ⟨k', h', hr'⟩ := hr.runScheduler_returns hok hsafe h
    ⟨V', k', h, h', hr'⟩
  obtain ⟨c, hc, hccur⟩ := hok.current
  obtain ⟨t, ht, htcur⟩ := (hr.processes c hc).exists_current
  by_cases hticks : V.ticks < QUANTUM
  · by_cases htick : c.val.threadTick < THREAD_QUANTUM
    · exact .inl (hdone (.count hc hccur hticks htick))
    · cases hu : c.nextReady t with
      | none =>
          simp only [hr.runScheduler_tick hok hticks]
          exact .inr ((((hr.setTicks (V.ticks + 1)).threadCheck (hok.setTicks _) hc hccur ht htcur garbage).2
            htick).2 hu)
      | some u => exact .inl (hdone (.thread hc hccur ht htcur hticks htick hu))
  · cases hs : V.nextProcess with
    | none =>
        simp only [hr.runScheduler_switch hok hticks]
        exact .inr (hr.switchProcess_never hok (hsafe hticks) hs)
    | some s => exact .inl (hdone (.process hticks hs))

/-- A call of `runScheduler` that returned. -/
theorem runScheduler_inv (hr : Rep k V) (hok : V.Ok)
    (hsafe : ¬ V.ticks < QUANTUM → V.Reapable garbage)
    (h : BasicKernel.runScheduler fuel garbage k = .ok k') : ∃ V', Scheduled V V' ∧ Rep k' V' := by
  rcases hr.runScheduler hok hsafe with ⟨V', k₁, hV', hret, hr'⟩ | hnever
  · obtain rfl := hret.eq h
    exact ⟨V', hV', hr'⟩
  · exact absurd h (hnever fuel k')

theorem saveStack (hr : Rep k V) (hc : c ∈ V.table) (hccur : c.node = V.current)
    (ht : t ∈ c.threads) (htcur : t.lib = c.val.currentThread) (esp : Addr) :
    ∃ k', switchUserToKernel k esp = .ok (k'.kernelStack, k') ∧
      Rep k' (V.set c (c.saveStack t.addr esp)) := by
  obtain ⟨k', hmod, hr'⟩ := hr.modifyThread hc ht (f := fun v => { v with userStack := esp })
    fun _ => rfl
  refine ⟨k', ?_, hr'⟩
  simp only [switchUserToKernel, hr.currentProcessNode hc hccur, ok_bind,
    (hr.processes c hc).currentThreadNode ht htcur, hmod, pure_eq_ok]

theorem ok_saveStack (hr : Rep k V) (hok : V.Ok) (hc : c ∈ V.table) (t esp : Addr) :
    (V.set c (c.saveStack t esp)).Ok :=
  hr.ok_set hok hc ((hok.processes c hc).saveStack t esp) rfl rfl id

theorem reapable_set (hr : Rep k V) (h : V.Reapable garbage) (hc : c ∈ V.table)
    (hsame : c.SameFrame p) (halive : p.alive = c.alive)
    (hlibrary : p.val.threadLibrary = c.val.threadLibrary) : (V.set c p).Reapable garbage := by
  have hif : ∀ {β : Type} (f : ProcessView → β), f p = f c → ∀ q ∈ V.table,
      f (if q.addr = c.addr then p else q) = f q := by
    intro β f hf q hq
    by_cases hqc : q.addr = c.addr
    · rw [if_pos hqc, hf, hr.eq_of_addr hq hc hqc]
    · rw [if_neg hqc]
  exact h.map (hif _ halive) (hif (·.val.threadSize) hsame.threadSize)
    (hif (·.val.threadLibrary) hlibrary) (hif (fun q => q.threads.map ThreadView.lib) hsame.libs)

section Yield

variable (hr : Rep k V) (hok : V.Ok) (hc : c ∈ V.table) (hccur : c.node = V.current)
  (ht : t ∈ c.threads) (htcur : t.lib = c.val.currentThread)

include hr hok hc hccur ht htcur

theorem yieldSwitch_process (hstop : c.stopped) (garbage : Garbage) (fuel : Nat) :
    BasicKernel.yieldSwitch fuel garbage k =
      BasicKernel.runScheduler fuel garbage { k with numberOfTicks := QUANTUM } := by
  have hrc := hr.processes c hc
  have hcond : isProcessBlocked c.val.state = true ∨ c.val.state = .DEAD := by
    simpa [ProcessView.stopped] using hstop
  simp only [BasicKernel.yieldSwitch, hr.currentProcess_ne hok, if_false,
    hr.currentProcessNode hc hccur, ok_bind, hrc.load_process, hrc.currentThreadNode ht htcur,
    (hrc.threads t ht).load_thread, if_pos hcond]

theorem yieldSwitch_thread (hstop : c.stopped = false) (hstop' : t.stopped) :
    ∃ k₁, Rep k₁ (V.set c (c.setTick THREAD_QUANTUM)) ∧ ∀ (garbage : Garbage) (fuel : Nat),
      BasicKernel.yieldSwitch fuel garbage k = BasicKernel.runScheduler fuel garbage k₁ := by
  have hrc := hr.processes c hc
  have hcond : ¬ (isProcessBlocked c.val.state = true ∨ c.val.state = .DEAD) := by
    simpa [ProcessView.stopped] using hstop
  have hcond' : isThreadBlocked t.val.state = true ∨ t.val.state = .T_DEAD := by
    simpa [ThreadView.stopped] using hstop'
  obtain ⟨k₁, h₁, hr₁⟩ := hr.setTick hc THREAD_QUANTUM
  refine ⟨k₁, hr₁, fun garbage fuel => ?_⟩
  simp only [BasicKernel.yieldSwitch, hr.currentProcess_ne hok, if_false,
    hr.currentProcessNode hc hccur, ok_bind, hrc.load_process, hrc.currentThreadNode ht htcur,
    (hrc.threads t ht).load_thread, if_neg hcond, if_pos hcond', h₁]

theorem yieldSwitch_stay (hstop : c.stopped = false) (hstop' : t.stopped = false)
    (garbage : Garbage) (fuel : Nat) : BasicKernel.yieldSwitch fuel garbage k = .ok k := by
  have hrc := hr.processes c hc
  have hcond : ¬ (isProcessBlocked c.val.state = true ∨ c.val.state = .DEAD) := by
    simpa [ProcessView.stopped] using hstop
  have hcond' : ¬ (isThreadBlocked t.val.state = true ∨ t.val.state = .T_DEAD) := by
    simpa [ThreadView.stopped] using hstop'
  simp only [BasicKernel.yieldSwitch, hr.currentProcess_ne hok, if_false,
    hr.currentProcessNode hc hccur, ok_bind, hrc.load_process, hrc.currentThreadNode ht htcur,
    (hrc.threads t ht).load_thread, if_neg hcond, if_neg hcond', pure_eq_ok]

/-- What can be done is done, and `yieldSwitch` returns. -/
theorem yieldSwitch_returns
    (hsafe : c.stopped ∨ t.stopped ∧ ¬ V.ticks < QUANTUM → V.Reapable garbage)
    (h : Yielded V c t V') :
    ∃ k', Returns (BasicKernel.yieldSwitch · garbage k) k' ∧ Rep k' V' := by
  cases h with
  | process hstop hs =>
      simp only [hr.yieldSwitch_process hok hc hccur ht htcur hstop]
      exact (hr.setTicks QUANTUM).runScheduler_returns (hok.setTicks _)
        (fun _ => ⟨(hsafe (.inl hstop)).apart, (hsafe (.inl hstop)).spares⟩) hs
  | thread hstop hstop' hs =>
      obtain ⟨k₁, hr₁, hcode⟩ := hr.yieldSwitch_thread hok hc hccur ht htcur hstop hstop'
      simp only [hcode]
      exact hr₁.runScheduler_returns
        (hr.ok_set hok hc ((hok.processes c hc).setTick _) rfl rfl id)
        (fun hticks => hr.reapable_set (hsafe (.inr ⟨hstop', hticks⟩)) hc
          ⟨rfl, rfl, rfl, rfl, rfl⟩ rfl rfl) hs
  | stay hstop hstop' =>
      simp only [hr.yieldSwitch_stay hok hc hccur ht htcur hstop hstop']
      exact ⟨k, .const _ _, hr⟩

theorem yieldSwitch_inv
    (hsafe : c.stopped ∨ t.stopped ∧ ¬ V.ticks < QUANTUM → V.Reapable garbage)
    (h : BasicKernel.yieldSwitch fuel garbage k = .ok k') :
    ∃ V', Yielded V c t V' ∧ Rep k' V' ∧ V'.Ok := by
  by_cases hstop : c.stopped
  · rw [hr.yieldSwitch_process hok hc hccur ht htcur hstop] at h
    obtain ⟨V', hV', hr'⟩ := (hr.setTicks QUANTUM).runScheduler_inv (hok.setTicks _)
      (fun _ => ⟨(hsafe (.inl hstop)).apart, (hsafe (.inl hstop)).spares⟩) h
    exact ⟨V', .process hstop hV', hr', (hr.setTicks QUANTUM).ok_scheduled (hok.setTicks _) hV'⟩
  have hstop : c.stopped = false := by simpa using hstop
  by_cases hstop' : t.stopped
  · obtain ⟨k₁, hr₁, hcode⟩ := hr.yieldSwitch_thread hok hc hccur ht htcur hstop hstop'
    rw [hcode] at h
    have hok₁ : (V.set c (c.setTick THREAD_QUANTUM)).Ok :=
      hr.ok_set hok hc ((hok.processes c hc).setTick _) rfl rfl id
    obtain ⟨V', hV', hr'⟩ := hr₁.runScheduler_inv hok₁
      (fun hticks => hr.reapable_set (hsafe (.inr ⟨hstop', hticks⟩)) hc ⟨rfl, rfl, rfl, rfl, rfl⟩
        rfl rfl) h
    exact ⟨V', .thread hstop hstop' hV', hr', hr₁.ok_scheduled hok₁ hV'⟩
  · have hstop' : t.stopped = false := by simpa using hstop'
    rw [hr.yieldSwitch_stay hok hc hccur ht htcur hstop hstop'] at h
    obtain rfl := Except.ok.inj h
    exact ⟨V, .stay hstop hstop', hr, hok⟩

end Yield

/-- A timer interrupt. -/
theorem processSwitch_inv {rsp r : Addr} (hr : Rep k V) (hok : V.Ok)
    (hsafe : ¬ V.ticks < QUANTUM → V.Reapable garbage)
    (h : BasicKernel.processSwitch fuel garbage k rsp = .ok (r, k')) :
    ∃ c ∈ V.table, ∃ t ∈ c.threads, c.node = V.current ∧ t.lib = c.val.currentThread ∧
      ∃ V', Scheduled (V.set c (c.saveStack t.addr rsp)) V' ∧ Rep k' V' ∧ V'.Ok ∧
        switchKernelToUser k' = .ok r := by
  obtain ⟨c, hc, hccur⟩ := hok.current
  obtain ⟨t, ht, htcur⟩ := (hr.processes c hc).exists_current
  obtain ⟨k₁, h₁, hr₁⟩ := hr.saveStack hc hccur ht htcur rsp
  have hok₁ := hr.ok_saveStack hok hc t.addr rsp
  simp only [BasicKernel.processSwitch, h₁, ok_bind] at h
  obtain ⟨k₂, h₂, h⟩ := bind_eq_ok.mp h
  obtain ⟨r', h₃, h⟩ := bind_eq_ok.mp h
  obtain ⟨rfl, rfl⟩ : r' = r ∧ k₂ = k' := by simpa using h
  obtain ⟨V', hV', hr'⟩ := hr₁.runScheduler_inv hok₁ (fun hticks =>
    hr.reapable_set (hsafe hticks) hc
      (c.sameFrame_setThread t.addr fun v => { v with userStack := rsp }) rfl rfl) h₂
  exact ⟨c, hc, t, ht, hccur, htcur, V', hV', hr', hr₁.ok_scheduled hok₁ hV', h₃⟩

/-- A call of `yieldHandler`. -/
theorem yieldHandler_inv {rsp r : Addr} (hr : Rep k V) (hok : V.Ok)
    (hsafe : V.YieldSwitches → V.Reapable garbage)
    (h : BasicKernel.yieldHandler fuel garbage k rsp = .ok (r, k')) :
    ∃ c ∈ V.table, ∃ t ∈ c.threads, c.node = V.current ∧ t.lib = c.val.currentThread ∧
      ∃ V', Yielded (V.set c (c.saveStack t.addr rsp)) (c.saveStack t.addr rsp)
        (t.setVal fun v => { v with userStack := rsp }) V' ∧ Rep k' V' ∧ V'.Ok ∧
        switchKernelToUser k' = .ok r := by
  obtain ⟨c, hc, hccur⟩ := hok.current
  obtain ⟨t, ht, htcur⟩ := (hr.processes c hc).exists_current
  obtain ⟨k₁, h₁, hr₁⟩ := hr.saveStack hc hccur ht htcur rsp
  have hok₁ := hr.ok_saveStack hok hc t.addr rsp
  simp only [BasicKernel.yieldHandler, h₁, ok_bind] at h
  obtain ⟨k₂, h₂, h⟩ := bind_eq_ok.mp h
  obtain ⟨r', h₃, h⟩ := bind_eq_ok.mp h
  obtain ⟨rfl, rfl⟩ : r' = r ∧ k₂ = k' := by simpa using h
  have hsafe₁ : (c.saveStack t.addr rsp).stopped ∨
      (t.setVal fun v => { v with userStack := rsp }).stopped ∧ ¬ V.ticks < QUANTUM →
      (V.set c (c.saveStack t.addr rsp)).Reapable garbage := fun hswitch =>
    hr.reapable_set (hsafe ⟨c, hc, t, ht, hccur, htcur, hswitch⟩) hc
      (c.sameFrame_setThread t.addr fun v => { v with userStack := rsp }) rfl rfl
  obtain ⟨V', hV', hr', hok'⟩ := hr₁.yieldSwitch_inv hok₁ (View.mem_set hc _) hccur
    (ProcessView.mem_setThread ht _) htcur hsafe₁ h₂
  exact ⟨c, hc, t, ht, hccur, htcur, V', hV', hr', hok', h₃⟩

end Rep

end BasicKernel
