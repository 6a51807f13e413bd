import BasicKernel.Scheduling.Accounting
import BasicKernel.Scheduling.RoundRobin
import BasicKernel.Scheduling.Rules

set_option autoImplicit false

/-! # The thread that runs

Whether the thread that a tick or a yield resumes can run. The tick of a thread or of a process that is
blocked is set to its end, so that the next tick does not resume it, but a switch of processes takes the
current thread of the chosen process as it is, and nothing ends the turn of what is killed.

`stopped_thread_never_runs` says for every tick and yield of every sound run when the resumed
thread can run: exactly if what runs was not killed within its turn, and a switch meets a thread
that can run. `blocked_thread_resumed` is a switch that meets one that is blocked.
-/

namespace BasicKernel

open Linked Keyed Fuel RoundRobin Transition

/-- The current thread of the process at a node of the ring. -/
def Kernel.currentThreadAt (k : Kernel) (node : Addr) : ThreadNode :=
  k.thread (k.threadLibrary (k.processAt node).currentThread).thread

/-- The current process is neither blocked nor dead, and its current thread is ready or running. -/
structure Kernel.RunsAwake (k : Kernel) : Prop where
  process : ¬ isProcessBlocked k.runningProcess.state ∧ k.runningProcess.state ≠ .DEAD
  thread : k.runningThread.state.awake

/-- The current thread of the process that is chosen next is ready or running. -/
def Kernel.NextAwake (k : Kernel) : Prop :=
  ∀ n node, (k.nodesBehind n).find? k.runnable = some node → (k.currentThreadAt node).state.awake

/-- The events that resume a thread. -/
def KernelOp.Resumes : KernelOp → Prop
  | tick _ _ => True
  | yield _ _ => True
  | _ => False

/-- What is resumed was not killed within its turn, and a switch of processes meets no thread that is
blocked or dead. -/
def KernelOp.Awake (k : Kernel) : KernelOp → Prop
  | tick _ _ =>
      if k.numberOfTicks < QUANTUM then
        k.runningProcess.state ≠ .DEAD ∧
          (k.runningProcess.threadTick < THREAD_QUANTUM → k.runningThread.state ≠ .T_DEAD)
      else k.NextAwake
  | yield _ _ => k.YieldSwitches → k.NextAwake
  | _ => True

/-! ## Blocking ends the turn

`blockThread` sets the tick of the current thread to the end of its turn. The rule says that a
current thread that is blocked has such a tick. -/

/-- Where the current thread is blocked its turn is over. -/
def ProcessView.Due (p : ProcessView) : Prop :=
  ∀ t ∈ p.threads, t.lib = p.val.currentThread → isThreadBlocked t.val.state →
    ¬ p.val.threadTick < THREAD_QUANTUM

/-- Where the current thread or the current process is blocked its turn is over. -/
structure View.Due (V : View) : Prop where
  processes : ∀ p ∈ V.table, p.Due
  current : ∀ p ∈ V.table, p.node = V.current → isProcessBlocked p.val.state → ¬ V.ticks < QUANTUM

variable {k k' : Kernel} {V V' : View} {op : KernelOp} {p c : ProcessView} {t u : ThreadView}
  {ty : ThreadState} {garbage : Garbage} {rsp : Addr}

namespace ProcessView

/-- A thread gets a state that is not blocked, or keeps the one it has. -/
theorem Due.setThread (h : p.Due) (a : Addr) {f : ThreadNode → ThreadNode}
    (hf : ∀ t ∈ p.threads, isThreadBlocked (f t.val).state → isThreadBlocked t.val.state) :
    (p.setThread a f).Due := by
  intro u hu hcur hblocked
  obtain ⟨t, ht, rfl⟩ := mem_update.mp hu
  by_cases hta : t.addr = a
  · rw [if_pos hta] at hcur hblocked
    exact h t ht hcur (hf t ht hblocked)
  · rw [if_neg hta] at hcur hblocked
    exact h t ht hcur hblocked

theorem Due.setThreadState (h : p.Due) (a : Addr) {s : ThreadState} (hs : isThreadBlocked s = false) :
    (p.setThreadState a s).Due := by
  apply h.setThread
  intro t _ hblocked
  rw [hs] at hblocked
  cases hblocked

/-- The turn of the current thread is over after a block. -/
theorem due_block (p : ProcessView) (a : Addr) (ty : ThreadState) : (p.block a ty).Due := by
  have htick : (p.block a ty).val.threadTick = THREAD_QUANTUM := by
    unfold block
    dsimp only
    split <;> rfl
  intro t _ _ _
  rw [htick]
  exact lt_irrefl _

/-- The thread that becomes the current one runs. -/
theorem due_switchThread (hlibs : (p.threads.map ThreadView.lib).Nodup) (hu : p.nextReady t = some u) :
    (p.switchThread t u).Due := by
  obtain ⟨hmem, -⟩ := mem_of_nextReady hu
  have hlibs' : ((p.pauseThread t).threads.map ThreadView.lib).Nodup := by
    have hsame := (p.sameFrame_wakeThread t .T_RUNNING).libs
    rw [ProcessView.pauseThread, hsame]
    exact hlibs
  intro v hv hcur hblocked
  rw [switchThread_val] at hcur
  obtain ⟨w, hw, rfl⟩ := mem_update.mp hv
  by_cases hwu : w.addr = u.addr
  · rw [if_pos hwu] at hblocked
    cases hblocked
  · rw [if_neg hwu] at hcur
    obtain rfl := eq_of_key_eq hlibs' hw hmem hcur
    exact absurd rfl hwu

theorem Due.addThread (h : p.Due) (ht : t.val.state = .T_READY) : (p.addThread t).Due := by
  intro u hu hcur hblocked
  rcases mem_insertSecond.mp hu with rfl | hu
  · rw [ht] at hblocked
    cases hblocked
  · exact h u hu hcur hblocked

theorem Created.due {entryPoint : Addr} {pid : Int} (h : p.Created entryPoint pid) : p.Due := by
  intro u hu _ hblocked
  rw [(h.thread hu).state] at hblocked
  cases hblocked

end ProcessView

/-! ## Events

The rule needs nothing from the events, so it holds in every sound run. -/

/-- Where the current process is blocked the turn is over. -/
def DueAtCurrent (current : Addr) (ticks : Int) (node : Addr) (s : ProcessState) : Prop :=
  node = current → isProcessBlocked s → ¬ ticks < QUANTUM

theorem due_rule : ProcessRule ProcessView.Due DueAtCurrent where
  setState _ h := h
  setHeap _ h := h
  saveStack a _ h := ProcessView.Due.setThread h a fun _ _ hblocked => hblocked
  ready a h := h.setThreadState a rfl
  lose a h := h.setThreadState a rfl
  block a ty _ _ := ProcessView.due_block _ a ty
  addThread ht h := h.addThread ht
  created h := h.due
  count _ htick h := fun t ht hcur hblocked => absurd htick (h t ht hcur hblocked)
  stop _ := fun _ _ _ _ => lt_irrefl _
  switchThread hlibs _ _ _ hu _ := by
    rw [← ProcessView.nextReady_setTick _ _ 0] at hu
    exact ProcessView.due_switchThread hlibs hu
  rest hs _ hblocked := by
    rcases hs with rfl | rfl
    · cases hblocked
    · cases hblocked
  blocked _ _ _ := lt_irrefl _
  late _ _ _ := lt_irrefl _
  tick hticks h hcur hblocked := absurd hticks (h hcur hblocked)
  chosen _ hblocked := by cases hblocked
  others hne _ _ hcur _ := absurd hcur hne

theorem View.due_iff : V.Due ↔ V.Obeys ProcessView.Due DueAtCurrent :=
  ⟨fun h => ⟨h.processes, h.current⟩, fun h => ⟨h.processes, h.states⟩⟩

theorem View.Due.saveStack (h : V.Due) (hc : c ∈ V.table) (a rsp : Addr) :
    (V.set c (c.saveStack a rsp)).Due :=
  View.due_iff.mpr ((View.due_iff.mp h).saveStack due_rule hc a rsp)

theorem View.Due.stop (h : V.Due) (hc : c ∈ V.table) : (V.set c (c.setTick THREAD_QUANTUM)).Due :=
  View.due_iff.mpr ((View.due_iff.mp h).stop due_rule hc)

theorem Run.due (h : Run Sound k) : ∃ V, Rep k V ∧ V.Ok ∧ V.Due := by
  obtain ⟨V, hr, hok, hV⟩ := h.obeys due_rule
  exact ⟨V, hr, hok, View.due_iff.mpr hV⟩

/-! ## The choice of a switch

Which process a switch chooses depends on the states in the ring alone, so it can be said before
the switch which thread will be resumed. -/

theorem Kernel.nextAwake_congr (hnode : k'.schedulerNode = k.schedulerNode)
    (hcur : k'.currentProcess = k.currentProcess) (hlib : k'.threadLibrary = k.threadLibrary)
    (hstate : ∀ a, (k'.process a).state = (k.process a).state)
    (hthread : ∀ a, (k'.process a).currentThread = (k.process a).currentThread)
    (hts : ∀ a, (k'.thread a).state = (k.thread a).state) : k'.NextAwake ↔ k.NextAwake := by
  have hbehind : k'.nodesBehind = k.nodesBehind := by
    funext n
    unfold nodesBehind
    rw [hcur]
    unfold nextNode
    rw [hnode]
  have hrunnable : k'.runnable = k.runnable := by
    funext node
    unfold runnable processAt
    rw [hcur, hnode, hstate]
  have hcurrent : ∀ node, (k'.currentThreadAt node).state = (k.currentThreadAt node).state := by
    intro node
    unfold currentThreadAt processAt
    rw [hts, hlib, hnode, hthread]
  unfold NextAwake
  rw [hbehind, hrunnable]
  simp only [hcurrent]

/-- The stack pointer does not matter. -/
theorem nextAwake_saved {a : Addr} (h : switchUserToKernel k rsp = .ok (a, k')) :
    k'.NextAwake ↔ k.NextAwake := by
  obtain ⟨process, -, h⟩ := bind_eq_ok.mp h
  obtain ⟨thread, -, h⟩ := bind_eq_ok.mp h
  obtain ⟨k₁, hmod, h⟩ := bind_eq_ok.mp h
  obtain ⟨-, rfl⟩ := Prod.mk.inj (Except.ok.inj h)
  by_cases hne : thread = NULL
  · rw [hne, Kernel.modifyThread_null] at hmod
    cases hmod
  · rw [Kernel.modifyThread_of_ne hne] at hmod
    obtain rfl := Except.ok.inj hmod
    refine Kernel.nextAwake_congr rfl rfl rfl (fun _ => rfl) (fun _ => rfl) fun b => ?_
    by_cases hb : b = thread
    · rw [hb]
      simp
    · simp [hb]

/-- The tick of a thread does not matter. -/
theorem nextAwake_setTick {a : Addr} {n : Int}
    (h : k.modifyProcess a (fun p => { p with threadTick := n }) = .ok k') :
    k'.NextAwake ↔ k.NextAwake := by
  by_cases hne : a = NULL
  · rw [hne, Kernel.modifyProcess_null] at h
    cases h
  · rw [Kernel.modifyProcess_of_ne hne] at h
    obtain rfl := Except.ok.inj h
    refine Kernel.nextAwake_congr rfl rfl rfl (fun b => ?_) (fun b => ?_) fun _ => rfl
    · by_cases hb : b = a
      · rw [hb]
        simp
      · simp [hb]
    · by_cases hb : b = a
      · rw [hb]
        simp
      · simp [hb]

theorem ThreadState.awake_iff {s : ThreadState} (h : isThreadBlocked s = false) :
    s.awake ↔ s ≠ .T_DEAD := by
  cases s with
  | T_READY => simp [ThreadState.awake]
  | T_RUNNING => simp [ThreadState.awake]
  | T_DEAD => simp [ThreadState.awake]
  | _ => cases h

theorem ProcessView.stopped_iff (h : isProcessBlocked c.val.state = false) :
    c.stopped = false ↔ c.val.state ≠ .DEAD := by
  simp [ProcessView.stopped, h]

namespace Rep

theorem runnable (hr : Rep k V) (hp : p ∈ V.table) : k.runnable p.node = p.runnable V.current := by
  unfold Kernel.runnable ProcessView.runnable
  rw [hr.processAt hp, hr.current]

theorem currentThreadAt (hr : Rep k V) (hp : p ∈ V.table) (ht : t ∈ p.threads)
    (htcur : t.lib = p.val.currentThread) : k.currentThreadAt p.node = t.val := by
  have hrt := (hr.processes p hp).threads t ht
  rw [Kernel.currentThreadAt, hr.processAt hp, ← htcur, hrt.thread, hrt.val]

/-- The nodes behind the current one are those of the table, from the one behind the current process. -/
theorem nodesBehind (hr : Rep k V) (hok : V.Ok) : k.nodesBehind V.table.length =
    (rotation ProcessView.node V.current V.table).map ProcessView.node := by
  obtain ⟨c, hc, hcur⟩ := hok.current
  obtain ⟨A, B, hT⟩ := List.append_of_mem hc
  have hnd := hr.queue.nodup
  have hpath := hr.queue
  rw [hT, List.map_append, List.map_cons] at hpath
  have hA : ∀ q ∈ A, q.node ≠ c.node := by
    intro q hq heq
    rw [hT, List.map_append, List.map_cons] at hnd
    exact (List.nodup_append.mp hnd).2.2 _ (List.mem_map_of_mem hq) _ List.mem_cons_self heq
  have hiterate := iterate_of_path hpath.path_after
  have hlength : V.table.length =
      (B.map ProcessView.node ++ A.map ProcessView.node ++ [c.node]).length := by
    rw [hT]
    simp
    omega
  rw [Kernel.nodesBehind, hr.current, ← hcur, hlength, hiterate, hT, rotation_append hA]
  simp

/-- A switch meets the current thread of the process that it chooses. -/
theorem nextAwake_iff {s : ProcessView} (hr : Rep k V) (hok : V.Ok) (hs : V.nextProcess = some s)
    (ht : t ∈ s.threads) (htcur : t.lib = s.val.currentThread) : k.NextAwake ↔ t.val.state.awake := by
  have hsT : s ∈ V.table := mem_rotation.mp (List.mem_of_find?_eq_some hs)
  have hfind : (k.nodesBehind V.table.length).find? k.runnable = some s.node := by
    have hcomp : (rotation ProcessView.node V.current V.table).find? (k.runnable ∘ ProcessView.node) =
        V.nextProcess :=
      List.find?_congr fun p hp => hr.runnable (mem_rotation.mp hp)
    rw [hr.nodesBehind hok, List.find?_map, hcomp, hs]
    rfl
  constructor
  · intro h
    rw [← hr.currentThreadAt hsT ht htcur]
    exact h _ _ hfind
  · intro h n node hnode
    rw [find_iterate_unique hnode hfind, hr.currentThreadAt hsT ht htcur]
    exact h

theorem runsAwake_iff (hr : Rep k V) (hc : c ∈ V.table) (hcur : c.node = V.current)
    (ht : t ∈ c.threads) (htcur : t.lib = c.val.currentThread) :
    k.RunsAwake ↔ c.stopped = false ∧ t.val.state.awake := by
  have hstopped : c.stopped = false ↔ ¬ isProcessBlocked c.val.state ∧ c.val.state ≠ .DEAD := by
    simp [ProcessView.stopped]
  rw [hstopped, ← hr.runningProcess hc hcur, ← hr.runningThread hc hcur ht htcur]
  exact ⟨fun h => ⟨h.process, h.thread⟩, fun h => ⟨h.1, h.2⟩⟩

/-! ## What is resumed

Within its turn the current thread goes on. At the end of the turn the next ready thread of the
process comes, and at the end of a quantum the current thread of the next process. -/

theorem runsAwake_scheduled (hr : Rep k V) (hok : V.Ok) (hV : V.Due) (hr' : Rep k' V') (hc : c ∈ V.table)
    (hcur : c.node = V.current) (ht : t ∈ c.threads) (htcur : t.lib = c.val.currentThread)
    (h : Scheduled V V') : k'.RunsAwake ↔
      if V.ticks < QUANTUM then c.val.state ≠ .DEAD ∧
        (c.val.threadTick < THREAD_QUANTUM → t.val.state ≠ .T_DEAD)
      else k.NextAwake := by
  -- inside a quantum the process is the one that was interrupted, at its end it is the next ready
  -- one
  cases h with
  | @count c₁ hc₁ hcur₁ hticks htick =>
      obtain rfl := eq_of_key_eq hr.queue.nodup hc₁ hc (hcur₁.trans hcur.symm)
      have hmem : c₁.setTick (c₁.val.threadTick + 1) ∈
          (V.set c₁ (c₁.setTick (c₁.val.threadTick + 1))).table := View.mem_set hc _
      rw [hr'.runsAwake_iff hmem hcur ht htcur, if_pos hticks]
      have hprocess : isProcessBlocked c₁.val.state = false :=
        Bool.eq_false_iff.mpr fun hb => hV.current c₁ hc hcur hb hticks
      have hthread : isThreadBlocked t.val.state = false :=
        Bool.eq_false_iff.mpr fun hb => hV.processes c₁ hc t ht htcur hb htick
      have hstopped : (c₁.setTick (c₁.val.threadTick + 1)).stopped = c₁.stopped := rfl
      rw [hstopped, ProcessView.stopped_iff hprocess, ThreadState.awake_iff hthread]
      exact and_congr_right fun _ => ⟨fun h _ => h, fun h => h htick⟩
  -- the chosen thread was ready, so only the process can be dead
  | @thread c₁ t₁ u hc₁ hcur₁ ht₁ htcur₁ hticks htick hu =>
      obtain rfl := eq_of_key_eq hr.queue.nodup hc₁ hc (hcur₁.trans hcur.symm)
      rw [← c₁.nextReady_setTick t₁ 0] at hu
      obtain ⟨hmem, -⟩ := ProcessView.mem_of_nextReady hu
      have hc' := View.mem_set hc ((c₁.setTick 0).switchThread t₁ u)
      have hu' : (u.setVal fun v => { v with state := .T_RUNNING }) ∈
          ((c₁.setTick 0).switchThread t₁ u).threads := ProcessView.mem_setThread hmem _
      have hval := (c₁.setTick 0).switchThread_val t₁ u
      have hnode := (c₁.setTick 0).switchThread_node t₁ u
      rw [hr'.runsAwake_iff hc' (hnode.trans hcur) hu' (by rw [hval]; rfl), if_pos hticks]
      have hprocess : isProcessBlocked c₁.val.state = false :=
        Bool.eq_false_iff.mpr fun hb => hV.current c₁ hc hcur hb hticks
      have hstopped : ((c₁.setTick 0).switchThread t₁ u).stopped = c₁.stopped := by
        unfold ProcessView.stopped
        rw [hval]
        rfl
      rw [hstopped, ProcessView.stopped_iff hprocess]
      exact and_congr_right fun _ => ⟨fun _ h => absurd h htick, fun _ => rfl⟩
  -- whoever is chosen has a current thread, and nobody looked at its state
  | @process s hticks hs =>
      have hkept := View.mem_reap_of_nextProcess hr.queue.nodup hs
      have hsT := View.mem_of_mem_reap hr.queue.nodup hkept
      obtain ⟨v, hv, hvcur⟩ := (hr.processes s hsT).exists_current
      have hs' : s.setState .RUNNING ∈ (V.switch s).table :=
        List.mem_map.mpr ⟨s, hkept, if_pos rfl⟩
      rw [hr'.runsAwake_iff hs' rfl hv hvcur, if_neg hticks, hr.nextAwake_iff hok hs hv hvcur]
      exact and_iff_right rfl

theorem runsAwake_tick {fuel : Nat} {r : Addr} (hr : Rep k V) (hok : V.Ok) (hV : V.Due)
    (hs : Sound k (.tick garbage rsp)) (h : processSwitch fuel garbage k rsp = .ok (r, k')) :
    k'.RunsAwake ↔ (KernelOp.tick garbage rsp).Awake k := by
  obtain ⟨c, hc, t, ht, hcur, htcur, V', hsched, hr', -, -⟩ :=
    hr.processSwitch_inv hok (hr.reapable_of_tick hs) h
  obtain ⟨k₁, h₁, hr₁⟩ := hr.saveStack hc hcur ht htcur rsp
  have hV₁ := hV.saveStack hc t.addr rsp
  rw [hr₁.runsAwake_scheduled (hr.ok_saveStack hok hc t.addr rsp) hV₁ hr' (View.mem_set hc _) hcur
    (ProcessView.mem_setThread ht _) htcur hsched]
  unfold KernelOp.Awake
  rw [hr.ticks, hr.runningProcess hc hcur, hr.runningThread hc hcur ht htcur, ← nextAwake_saved h₁]
  rfl

theorem runsAwake_yield {fuel : Nat} {r : Addr} (hr : Rep k V) (hok : V.Ok) (hV : V.Due)
    (hs : Sound k (.yield garbage rsp)) (h : yieldHandler fuel garbage k rsp = .ok (r, k')) :
    k'.RunsAwake ↔ (KernelOp.yield garbage rsp).Awake k := by
  obtain ⟨c, hc, t, ht, hcur, htcur, V', hyield, hr', -, -⟩ :=
    hr.yieldHandler_inv hok (hr.reapable_of_yield hs) h
  obtain ⟨k₁, h₁, hr₁⟩ := hr.saveStack hc hcur ht htcur rsp
  have hok₁ := hr.ok_saveStack hok hc t.addr rsp
  have hc₁ := View.mem_set hc (c.saveStack t.addr rsp)
  have ht₁ : (t.setVal fun v => { v with userStack := rsp }) ∈ (c.saveStack t.addr rsp).threads :=
    ProcessView.mem_setThread ht _
  have hV₁ := hV.saveStack hc t.addr rsp
  have hswitches : k.YieldSwitches ↔ c.stopped ∨ t.stopped ∧ ¬ V.ticks < QUANTUM := by
    rw [Kernel.YieldSwitches, hr.runningProcess hc hcur, hr.runningThread hc hcur ht htcur, hr.ticks]
    simp [ProcessView.stopped, ThreadView.stopped]
  show k'.RunsAwake ↔ (k.YieldSwitches → k.NextAwake)
  rw [hswitches, ← nextAwake_saved h₁]
  -- the process is stopped, its thread is stopped, or neither
  cases hyield with
  | process hstop hsched =>
      have hV₂ : ({ V.set c (c.saveStack t.addr rsp) with ticks := QUANTUM } : View).Due :=
        ⟨hV₁.processes, fun _ _ _ _ => lt_irrefl _⟩
      rw [(hr₁.setTicks QUANTUM).runsAwake_scheduled (hok₁.setTicks _) hV₂ hr' hc₁ hcur ht₁ htcur hsched,
        if_neg (lt_irrefl _), forall_prop_of_true (.inl hstop)]
      rfl
  | thread hrun hstop hsched =>
      obtain ⟨k₂, h₂, hr₂⟩ := hr₁.setTick hc₁ THREAD_QUANTUM
      have hok₂ := hr₁.ok_set hok₁ hc₁ ((hok₁.processes _ hc₁).setTick THREAD_QUANTUM) rfl rfl id
      have hV₂ := hV₁.stop hc₁
      rw [hr₂.runsAwake_scheduled hok₂ hV₂ hr' (View.mem_set hc₁ _) hcur ht₁ htcur hsched,
        nextAwake_setTick h₂]
      have hrun' : c.stopped = false := hrun
      have hstop' : t.stopped := hstop
      have halive : c.val.state ≠ .DEAD := by
        intro hdead
        rw [ProcessView.stopped, hdead] at hrun'
        cases hrun'
      -- the thread gives up its turn, and another thread of the process takes it
      by_cases hticks : V.ticks < QUANTUM
      · have hnot : ¬ (c.stopped ∨ t.stopped ∧ ¬ V.ticks < QUANTUM) := by
          simp [hrun', hticks]
        have hturn : ¬ THREAD_QUANTUM < THREAD_QUANTUM := lt_irrefl _
        refine iff_of_true ?_ fun h => absurd h hnot
        rw [if_pos (c := ((V.set c (c.saveStack t.addr rsp)).set _ _).ticks < QUANTUM) hticks]
        exact ⟨halive, fun h => absurd h hturn⟩
      · rw [if_neg (c := ((V.set c (c.saveStack t.addr rsp)).set _ _).ticks < QUANTUM) hticks,
          forall_prop_of_true (.inr ⟨hstop', hticks⟩)]
  | stay hrun hawake =>
      have hrun' : c.stopped = false := hrun
      have hawake' : t.stopped = false := hawake
      have hnot : ¬ (c.stopped ∨ t.stopped ∧ ¬ V.ticks < QUANTUM) := by
        simp [hrun', hawake']
      rw [hr'.runsAwake_iff hc₁ hcur ht₁ htcur]
      refine iff_of_true ⟨hrun, ?_⟩ fun h => absurd h hnot
      show t.val.state.awake
      have hstate : isThreadBlocked t.val.state = false ∧ t.val.state ≠ .T_DEAD := by
        simpa [ThreadView.stopped] using hawake'
      exact (ThreadState.awake_iff hstate.1).mpr hstate.2

/-- What is resumed is the stack of the current thread. -/
theorem resumed_stack (hr : Rep k V) (hok : V.Ok) :
    BasicKernel.switchKernelToUser k = .ok k.runningThread.userStack := by
  obtain ⟨c, hc, hcur⟩ := hok.current
  obtain ⟨t, ht, htcur⟩ := (hr.processes c hc).exists_current
  have hrc := hr.processes c hc
  simp only [BasicKernel.switchKernelToUser, hr.currentProcessNode hc hcur, ok_bind,
    hrc.currentThreadNode ht htcur, (hrc.threads t ht).load_thread, pure_eq_ok,
    hr.runningThread hc hcur ht htcur]

end Rep

/-! ## Runs -/

/-- After a tick or a yield the thread that is resumed can run if and only if nothing that runs was
killed within its turn, and the process that a switch chooses has a current thread that can run. -/
theorem stopped_thread_never_runs (h : Run Sound k) {fuel : Nat} (hop : op.Resumes) (hs : Sound k op)
    (hrun : op.run fuel k = .ok k') :
    switchKernelToUser k' = .ok k'.runningThread.userStack ∧ (k'.RunsAwake ↔ op.Awake k) := by
  obtain ⟨V, hr, hok, hV⟩ := h.due
  obtain ⟨V', -, hr', hok'⟩ := hr.run_inv hok hs hrun
  refine ⟨hr'.resumed_stack hok', ?_⟩
  cases op with
  | tick garbage rsp =>
      obtain ⟨⟨r, k₁⟩, hcall, hk⟩ := bind_eq_ok.mp hrun
      obtain rfl := Except.ok.inj hk
      exact hr.runsAwake_tick hok hV hs hcall
  | yield garbage rsp =>
      obtain ⟨⟨r, k₁⟩, hcall, hk⟩ := bind_eq_ok.mp hrun
      obtain rfl := Except.ok.inj hk
      exact hr.runsAwake_yield hok hV hs hcall
  | _ => exact absurd hop id

/-! ### A blocked thread that is resumed -/

def tickEvent : KernelOp := .tick nullGarbage 0

def yieldEvent : KernelOp := .yield nullGarbage 0

/-- The first quantum ends: process `0` runs, then process `1`. -/
def firstSwitch : Except Stop (Kernel × Kernel × Kernel) := do
  let k₀ ← startKernel
  let k ← KernelOp.runSound 40 (List.replicate 5 tickEvent) k₀
  let k' ← tickEvent.run 40 k
  return (k₀, k, k')

theorem firstSwitch_states : (do
    let (_, k, k') ← firstSwitch
    let node := k.nextNode k.currentProcess
    return decide (k.Current (0, 0) ∧ k'.Current (1, 0) ∧ tickEvent.sound? k ∧
      ¬ k.numberOfTicks < QUANTUM ∧ k.runnable node ∧ (k.currentThreadAt node).state = .T_READY) :
        Except Stop Bool) = .ok true := by
  decide +kernel

/-- The next process in the ring is chosen when it is runnable. -/
theorem Kernel.nextAwake_of_next {k : Kernel} (hrunnable : k.runnable (k.nextNode k.currentProcess))
    (hawake : (k.currentThreadAt (k.nextNode k.currentProcess)).state.awake) : k.NextAwake := by
  intro n node hfind
  cases n with
  | zero => cases hfind
  | succ n =>
      rw [nodesBehind, List.iterate, List.find?_cons_of_pos hrunnable] at hfind
      obtain rfl := Option.some.inj hfind
      exact hawake

/-- The tick that ends the first quantum selects process `1`, whose thread is ready. -/
theorem second_process_runs : ∃ k k' : Kernel, Run Sound k ∧ k.Current (0, 0) ∧
    tickEvent.run 40 k = .ok k' ∧ k'.Current (1, 0) ∧ k'.RunsAwake := by
  obtain ⟨⟨k₀, k, k'⟩, hswitch, h⟩ := bind_eq_ok.mp firstSwitch_states
  obtain ⟨hcur, hcur', hsound, hticks, hrunnable, hthread⟩ := of_decide_eq_true (Except.ok.inj h)
  obtain ⟨k₀', hk₀, hswitch⟩ := bind_eq_ok.mp hswitch
  obtain ⟨k₁, hk, hswitch⟩ := bind_eq_ok.mp hswitch
  obtain ⟨k₁', hk', hswitch⟩ := bind_eq_ok.mp hswitch
  obtain ⟨rfl, rfl, rfl⟩ : k₀' = k₀ ∧ k₁ = k ∧ k₁' = k' := by
    simpa using Except.ok.inj hswitch
  have hrun : Run Sound k₁ := Run.runSound (.start (booted_of_start hk₀)) hk
  have hawake : tickEvent.Awake k₁ := by
    show if k₁.numberOfTicks < QUANTUM then _ else _
    rw [if_neg hticks]
    exact Kernel.nextAwake_of_next hrunnable (by rw [hthread]; decide)
  have hresumes : tickEvent.Resumes := trivial
  refine ⟨k₁, k₁', hrun, hcur, hk', hcur', ?_⟩
  exact (stopped_thread_never_runs hrun hresumes (KernelOp.sound_of hsound) hk').2.mpr hawake

/-- The first thread of process `2` blocks at the end of a quantum, when the second one is ready, and then
all other processes block. -/
def blockedTurn : Except Stop (Kernel × Kernel × Kernel) := do
  let k₀ ← startKernel
  let k ← KernelOp.runSound 40 [.addProcess 1 4 8, .addThread 2 4 8, .blockThread 0 0 .T_BLOCKED_MUTEX,
    tickEvent, tickEvent, tickEvent, tickEvent, tickEvent, tickEvent,
    .blockThread 2 0 .T_BLOCKED_MUTEX, yieldEvent, .blockThread 1 0 .T_BLOCKED_MUTEX] k₀
  let k' ← yieldEvent.run 40 k
  return (k₀, k, k')

theorem blockedTurn_states : (do
    let (_, k, k') ← blockedTurn
    return decide (yieldEvent.sound? k ∧ k'.runningThread.state = .T_BLOCKED_MUTEX) :
      Except Stop Bool) = .ok true := by
  decide +kernel

/-- The switch of processes takes the current thread of process `2` although it is blocked. -/
theorem blocked_thread_resumed : ¬ ∀ (k k' : Kernel) (op : KernelOp) (fuel : Nat), Run Sound k →
    op.Resumes → Sound k op → op.run fuel k = .ok k' → k'.RunsAwake := by
  intro hclaim
  obtain ⟨r, hr, h⟩ := bind_eq_ok.mp blockedTurn_states
  obtain ⟨k₀, hk₀, hr⟩ := bind_eq_ok.mp hr
  obtain ⟨k, hk, hr⟩ := bind_eq_ok.mp hr
  obtain ⟨k', hk', hr⟩ := bind_eq_ok.mp hr
  obtain rfl := Except.ok.inj hr
  obtain ⟨hsound, hblocked⟩ := of_decide_eq_true (Except.ok.inj h)
  have hrun : Run Sound k := Run.runSound (.start (booted_of_start hk₀)) hk
  have hawake := (hclaim k k' yieldEvent 40 hrun trivial (KernelOp.sound_of hsound) hk').thread
  rw [hblocked] at hawake
  cases hawake

end BasicKernel
