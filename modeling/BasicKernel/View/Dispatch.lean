import BasicKernel.View.Kill

set_option autoImplicit false

/-! # The switch of threads on a view

`threadCheck` counts the ticks of the current process, and when its thread has used them up
`nextThread` picks the next thread that is ready. It stores through an uninitialised pointer while
it looks for dead threads, but only behind a thread that is dead; the first thread of a process
never is, so the loop stays on it and writes nothing.
-/

namespace BasicKernel

open Linked Keyed Fuel

/-! ## The operations

The current thread is paused, and the first ready thread behind it in the ring is dispatched; the
current one comes last. -/

/-- The current thread `t` is ready again if it was running. -/
def ProcessView.pauseThread (t : ThreadView) (p : ProcessView) : ProcessView :=
  p.wakeThread t .T_RUNNING

/-- The first ready thread behind the current one. -/
def ProcessView.nextReady (t : ThreadView) (p : ProcessView) : Option ThreadView :=
  (rotation ThreadView.lib p.val.currentThread (p.pauseThread t).threads).find?
    fun u => u.val.state = .T_READY

/-- The thread `u` becomes the current one. -/
def ProcessView.dispatch (u : ThreadView) (p : ProcessView) : ProcessView :=
  (p.setVal fun v => { v with currentThread := u.lib }).setThreadState u.addr .T_RUNNING

/-- `nextThread`, with the thread `u` that it finds. -/
def ProcessView.switchThread (t u : ThreadView) (p : ProcessView) : ProcessView :=
  (p.pauseThread t).dispatch u

def ProcessView.setTick (n : Int) (p : ProcessView) : ProcessView :=
  p.setVal fun v => { v with threadTick := n }

theorem ProcessView.mem_of_nextReady {p : ProcessView} {t u : ThreadView}
    (h : p.nextReady t = some u) : u ∈ (p.pauseThread t).threads ∧ u.val.state = .T_READY :=
  ⟨mem_rotation.mp (List.mem_of_find?_eq_some h), by simpa using List.find?_some h⟩

theorem ProcessView.nextReady_setTick (p : ProcessView) (t : ThreadView) (n : Int) :
    (p.setTick n).nextReady t = p.nextReady t := by
  simp only [nextReady, pauseThread, wakeThread]
  split <;> rfl

/-! ## They are what the code does

When no thread is ready the scan of the ring has no end, and the model runs out of fuel with any
fuel. -/

/-- The first thread is not dead, and the loop does not move on behind a living thread. -/
theorem removeDeadLoop_alive {k : Kernel} {t : ThreadView} (ht : RepThread k t)
    (halive : t.val.state ≠ .T_DEAD) (prev : Addr) (n : Nat) :
    removeDeadLoop n k t.lib prev = .ok k := by
  induction n with
  | zero => rfl
  | succ n ih => simpa [removeDeadLoop, ht.load_lib, ht.load_thread, halive] using ih

/-- `removeDeadThreads` removes no thread of a process whose first thread lives. -/
theorem RepProcess.removeDeadThreads {k : Kernel} {p : ProcessView} (h : RepProcess k p)
    (hok : p.Ok) (garbage : Garbage) :
    BasicKernel.removeDeadThreads garbage k p.addr = .ok k := by
  obtain ⟨t, ts, hts, -, halive⟩ := hok.main
  have ht : t ∈ p.threads := by rw [hts]; exact List.mem_cons_self
  have hhead : p.val.threadLibrary = t.lib := by
    have := h.ring.path
    rw [hts] at this
    exact this.1
  simp only [BasicKernel.removeDeadThreads, h.load_process, ok_bind, hhead]
  exact removeDeadLoop_alive (h.threads t ht) halive _ _

namespace Rep

variable {k k' : Kernel} {V : View} {p : ProcessView} {t u : ThreadView}

theorem setTick (hr : Rep k V) (hp : p ∈ V.table) (n : Int) :
    ∃ k', k.modifyProcess p.addr (fun v => { v with threadTick := n }) = .ok k' ∧
      Rep k' (V.set p (p.setTick n)) :=
  hr.setVal hp rfl rfl rfl

/-- The state of the thread behind the node `l`, as the scan of `nextThread` reads it. -/
def readyAt (k : Kernel) (l : Addr) : Bool :=
  decide ((k.thread (k.threadLibrary l).thread).state = .T_READY)

theorem readyAt_lib (hr : Rep k V) (hp : p ∈ V.table) (hu : u ∈ p.threads) :
    readyAt k u.lib = decide (u.val.state = .T_READY) := by
  have h := (hr.processes p hp).threads u hu
  rw [readyAt, h.thread, h.val]

/-- The first ready thread, seen as a node of the ring. -/
theorem find_readyAt (hr : Rep k V) (hp : p ∈ V.table) {ts : List ThreadView}
    (hts : ∀ u ∈ ts, u ∈ p.threads) :
    (ts.map ThreadView.lib).find? (readyAt k)
      = (ts.find? fun u => u.val.state = .T_READY).map ThreadView.lib := by
  rw [List.find?_map]
  congr 1
  exact List.find?_congr fun u hu => hr.readyAt_lib hp (hts u hu)

theorem pauseThread (hr : Rep k V) (hp : p ∈ V.table) (ht : t ∈ p.threads) :
    ∃ k', (if t.val.state = .T_RUNNING then
        k.modifyThread t.addr (fun v => { v with state := .T_READY }) else .ok k) = .ok k' ∧
      Rep k' (V.set p (p.pauseThread t)) := hr.wakeThread hp ht .T_RUNNING

/-- The scan of `nextThread` and the two assignments behind it. -/
theorem dispatchThread (hr : Rep k V) (hp : p ∈ V.table) (hu : u ∈ p.threads) :
    ∃ k₁ k', k.modifyProcess p.addr (fun v => { v with currentThread := u.lib }) = .ok k₁ ∧
      k₁.currentThreadNode p.addr = .ok u.addr ∧
      k₁.modifyThread u.addr (fun v => { v with state := .T_RUNNING }) = .ok k' ∧
      Rep k' (V.set p (p.dispatch u)) := by
  obtain ⟨k₁, h₁, hr₁⟩ := hr.modifyProcess hp (f := fun v => { v with currentThread := u.lib })
    rfl rfl (List.mem_map_of_mem hu)
  have hp₁ := View.mem_set hp (p.setVal fun v => { v with currentThread := u.lib })
  obtain ⟨k', h', hr'⟩ := hr₁.setThreadState hp₁ hu .T_RUNNING
  rw [View.set_set _ (by rfl)] at hr'
  exact ⟨k₁, k', h₁, (hr₁.processes _ hp₁).currentThreadNode hu rfl, h', hr'⟩

/-- The scan of `nextThread` finds the first ready thread behind the current one, and does not end
when there is none. -/
theorem resumeNextThread (hr : Rep k V) (hp : p ∈ V.table) :
    (∀ u, (rotation ThreadView.lib p.val.currentThread p.threads).find?
        (fun u => u.val.state = .T_READY) = some u →
      ∃ k', Returns (BasicKernel.resumeNextThread · k p.addr) k' ∧ Rep k' (V.set p (p.dispatch u))) ∧
    ((∀ u ∈ p.threads, u.val.state ≠ .T_READY) →
      Never (BasicKernel.resumeNextThread · k p.addr)) := by
  have hrp := hr.processes p hp
  obtain ⟨c, hc, hcur⟩ := hrp.exists_current
  obtain ⟨A, B, hAB⟩ := List.append_of_mem hc
  have hring := hrp.ring
  -- the scan starts behind the current thread `c` and comes to it last
  have hA : ∀ y ∈ A, y.lib ≠ c.lib := by
    have hnd := hring.nodup
    rw [hAB, List.map_append, List.map_cons] at hnd
    intro y hy h
    exact (List.nodup_append.mp hnd).2.2 _ (List.mem_map_of_mem hy) _ List.mem_cons_self h
  -- one round of the loop reads the state of the thread behind `x`
  have hcond : ∀ x ∈ p.threads.map ThreadView.lib, (do
      let next := (← load k.threadLibrary x).next
      let thread := (← load k.threadLibrary next).thread
      return decide ((← load k.thread thread).state ≠ .T_READY) : Except Stop Bool)
        = .ok (!readyAt k (k.nextLib x)) := by
    intro x hx
    obtain ⟨u, hu, hux⟩ := List.mem_map.mp (hring.next_mem hx)
    obtain ⟨v, hv, rfl⟩ := List.mem_map.mp hx
    have hload := (hrp.threads u hu).load_lib
    rw [hux] at hload
    simp only [(hrp.threads v hv).load_lib, hload, (hrp.threads u hu).load_thread, ok_bind,
      pure_eq_ok]
    rw [← hux, hr.readyAt_lib hp hu, decide_not]
  have hstep : ∀ x ∈ p.threads.map ThreadView.lib,
      (do return (← load k.threadLibrary x).next : Except Stop Addr) = .ok (k.nextLib x) := by
    intro x hx
    obtain ⟨v, hv, rfl⟩ := List.mem_map.mp hx
    simp only [(hrp.threads v hv).load_lib, ok_bind, pure_eq_ok]
  constructor
  · intro u hu
    have hmem : u ∈ p.threads := mem_rotation.mp (List.mem_of_find?_eq_some hu)
    -- the rotation of the ring and the nodes that the scan visits are in the same order
    rw [← hcur, hAB, rotation_append hA] at hu
    have hfind : (B.map ThreadView.lib ++ A.map ThreadView.lib ++ [c.lib]).find? (readyAt k)
        = some u.lib := by
      have hsub : ∀ w ∈ B ++ A ++ [c], w ∈ p.threads := by
        intro w hw
        rw [hAB]
        simp only [List.mem_append, List.mem_cons, List.not_mem_nil, or_false] at hw ⊢
        tauto
      have := hr.find_readyAt hp hsub
      rw [hu] at this
      simpa using this
    rw [hAB, List.map_append, List.map_cons] at hring hcond hstep
    obtain ⟨last, hlast, hnext, hwalk⟩ := hring.seek hfind
    obtain ⟨k₁, k', h₁, hnode, h', hr'⟩ := hr.dispatchThread hp hmem
    refine ⟨k', ?_, hr'⟩
    simp only [BasicKernel.resumeNextThread, hrp.load_process, ok_bind, ← hcur]
    refine (hwalk hcond hstep).bind ?_
    have hload : load k.threadLibrary last = .ok (k.threadLibrary last) := by
      obtain ⟨v, hv, rfl⟩ : ∃ v ∈ p.threads, v.lib = last := by
        rw [← List.map_cons, ← List.map_append, ← hAB] at hlast
        exact List.mem_map.mp hlast
      exact load_of_ne (hrp.threads v hv).lib_ne
    have hnext' : (k.threadLibrary last).next = u.lib := hnext
    simp only [hload, ok_bind, hnext', h₁, hnode, h']
    exact Returns.const _ _
  -- no thread is ready, so the scan goes round and round
  · intro hnone
    have hfalse : ∀ x ∈ p.threads.map ThreadView.lib, readyAt k x = false := by
      intro x hx
      obtain ⟨v, hv, rfl⟩ := List.mem_map.mp hx
      rw [hr.readyAt_lib hp hv]
      exact decide_eq_false (hnone v hv)
    simp only [BasicKernel.resumeNextThread, hrp.load_process, ok_bind]
    exact (hring.seek_never hrp.current hfalse hcond hstep).bind_left

/-- `nextThread` makes the next ready thread the current one. -/
theorem nextThread (hr : Rep k V) (hok : V.Ok) (hp : p ∈ V.table) (hcur : p.node = V.current)
    (ht : t ∈ p.threads) (htcur : t.lib = p.val.currentThread) (garbage : Garbage) :
    (∀ u, p.nextReady t = some u → ∃ k', Returns (BasicKernel.nextThread · garbage k) k' ∧
        Rep k' (V.set p (p.switchThread t u))) ∧
    (p.nextReady t = none → Never (BasicKernel.nextThread · garbage k)) := by
  have hrp := hr.processes p hp
  obtain ⟨k₁, h₁, hr₁⟩ := hr.pauseThread hp ht
  have hval : (p.pauseThread t).val = p.val := p.wakeThread_val t .T_RUNNING
  have haddr : (p.pauseThread t).addr = p.addr := (p.sameFrame_wakeThread t .T_RUNNING).addr
  have hresume := hr₁.resumeNextThread (View.mem_set hp (p.pauseThread t))
  rw [hval, haddr] at hresume
  -- the removal of dead threads changes nothing: the first thread of the process lives
  have hcode : ∀ fuel, BasicKernel.nextThread fuel garbage k
      = BasicKernel.resumeNextThread fuel k₁ p.addr := by
    intro fuel
    simp only [BasicKernel.nextThread, hr.currentProcessNode hp hcur, ok_bind,
      hrp.removeDeadThreads (hok.processes p hp), hrp.currentThreadNode ht htcur,
      (hrp.threads t ht).load_thread]
    by_cases hs : t.val.state = .T_RUNNING
    · rw [if_pos hs] at h₁
      simp only [hs, if_true, h₁, ok_bind]
    · rw [if_neg hs] at h₁
      simp only [hs, if_false, pure_eq_ok, h₁, ok_bind]
  simp only [hcode]
  constructor
  · intro u hu
    obtain ⟨k', h', hr'⟩ := hresume.1 u hu
    rw [View.set_set _ haddr] at hr'
    exact ⟨k', h', hr'⟩
  · intro hnone
    refine hresume.2 fun u hu => ?_
    simpa using List.find?_eq_none.mp hnone u (mem_rotation.mpr hu)

/-- `threadCheck` counts, or switches threads after a full thread quantum. -/
theorem threadCheck (hr : Rep k V) (hok : V.Ok) (hp : p ∈ V.table) (hcur : p.node = V.current)
    (ht : t ∈ p.threads) (htcur : t.lib = p.val.currentThread) (garbage : Garbage) :
    (p.val.threadTick < THREAD_QUANTUM → ∃ k', Returns (BasicKernel.threadCheck · garbage k) k' ∧
        Rep k' (V.set p (p.setTick (p.val.threadTick + 1)))) ∧
    (¬ p.val.threadTick < THREAD_QUANTUM →
      (∀ u, p.nextReady t = some u → ∃ k', Returns (BasicKernel.threadCheck · garbage k) k' ∧
        Rep k' (V.set p ((p.setTick 0).switchThread t u))) ∧
      (p.nextReady t = none → Never (BasicKernel.threadCheck · garbage k))) := by
  have hrp := hr.processes p hp
  constructor
  · intro htick
    obtain ⟨k', h', hr'⟩ := hr.setVal hp
      (f := fun v => { v with threadTick := v.threadTick + 1 }) rfl rfl rfl
    refine ⟨k', ?_, hr'⟩
    simp only [BasicKernel.threadCheck, hr.currentProcessNode hp hcur, ok_bind, hrp.load_process,
      htick, if_true, h']
    exact Returns.const _ _
  · intro htick
    obtain ⟨k₁, h₁, hr₁⟩ := hr.setTick hp 0
    -- the tick is back to 0 before the switch, and the ring does not depend on it
    have hp₁ := View.mem_set hp (p.setTick 0)
    have hok₁ : (V.set p (p.setTick 0)).Ok :=
      hr.ok_set hok hp ((hok.processes p hp).setVal le_rfl rfl) rfl rfl id
    have hnext := hr₁.nextThread hok₁ hp₁ hcur ht htcur garbage
    rw [ProcessView.nextReady_setTick] at hnext
    have hcode : ∀ fuel, BasicKernel.threadCheck fuel garbage k
        = BasicKernel.nextThread fuel garbage k₁ := by
      intro fuel
      simp only [BasicKernel.threadCheck, hr.currentProcessNode hp hcur, ok_bind,
        hrp.load_process, htick, if_false, h₁]
    simp only [hcode]
    refine ⟨fun u hu => ?_, hnext.2⟩
    obtain ⟨k', h', hr'⟩ := hnext.1 u hu
    rw [View.set_set _ (by rfl)] at hr'
    exact ⟨k', h', hr'⟩

end Rep

end BasicKernel
