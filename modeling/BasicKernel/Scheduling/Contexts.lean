import BasicKernel.Scheduling.Alive

set_option autoImplicit false

/-! # Saved contexts

The stack pointer of a suspended thread is in the field `userStack` of the thread that is current
when the interrupt comes. It is the right thread when nothing moves the two current pointers between
a resume and the next interrupt.

`Contexts` is the kernel with the history of its interrupts, and `contexts_kept` says that the
stack pointer a thread is resumed with is the one that it was suspended with, or that of its first
frame. The memory behind these pointers is added in `Scheduling/Registers.lean`.
-/

namespace BasicKernel

open Keyed Fuel Transition

/-! ## What a step keeps of the contexts

A context is which process and which thread is current and what the stack pointers are. Most
events change only states and lists, and leave it as it is. -/

/-- Which process this is and which of its threads is current, and the saved stack pointers. -/
def ProcessView.context (p : ProcessView) : Addr × Int × Addr × List (Addr × Int × Addr) :=
  (p.node, p.val.pid, p.val.currentThread,
    p.threads.map fun t => (t.lib, t.val.pthread, t.val.userStack))

/-- No current pointer moves, and no stack pointer is stored. -/
structure View.SameContexts (V V' : View) : Prop where
  table : V'.table.map ProcessView.context = V.table.map ProcessView.context
  current : V'.current = V.current

/-- The events that kill nothing, create no thread and resume none. -/
def KernelOp.KeepsContexts : KernelOp → Prop
  | tick _ _ => False
  | yield _ _ => False
  | addProcess _ _ _ => False
  | addThread _ _ _ => False
  | removeProcess _ => False
  | removeThread _ _ => False
  | removeDeadProcess _ => False
  | _ => True

namespace ProcessView

variable {p : ProcessView} {t : ThreadView} {ty : ThreadState}

theorem context_setThread (p : ProcessView) (a : Addr) {f : ThreadNode → ThreadNode}
    (hpthread : ∀ v, (f v).pthread = v.pthread) (hstack : ∀ v, (f v).userStack = v.userStack) :
    (p.setThread a f).context = p.context := by
  have hthreads : (p.setThread a f).threads.map (fun t => (t.lib, t.val.pthread, t.val.userStack))
      = p.threads.map fun t => (t.lib, t.val.pthread, t.val.userStack) := by
    refine map_update fun t _ _ => ?_
    simp [ThreadView.setVal, hpthread, hstack]
  rw [context, context, hthreads]
  rfl

@[simp] theorem context_setThreadState (p : ProcessView) (a : Addr) (s : ThreadState) :
    (p.setThreadState a s).context = p.context :=
  p.context_setThread a (fun _ => rfl) fun _ => rfl

@[simp] theorem context_setState (p : ProcessView) (s : ProcessState) :
    (p.setState s).context = p.context := rfl

theorem context_block (p : ProcessView) (a : Addr) (ty : ThreadState) :
    (p.block a ty).context = p.context := by
  have htick : ((p.setThreadState a ty).setVal fun v =>
      { v with threadTick := THREAD_QUANTUM }).context = p.context :=
    p.context_setThreadState a ty
  simp only [block]
  split
  · exact htick
  · exact htick

theorem context_unblock (p : ProcessView) (t : ThreadView) (ty : ThreadState) :
    (p.unblock t ty).context = p.context := by
  have hthread : (p.wakeThread t ty).context = p.context := by
    unfold wakeThread
    split
    · exact p.context_setThreadState t.addr .T_READY
    · rfl
  unfold unblock wake
  split
  · exact hthread
  · exact hthread

theorem context_unblockAll (p : ProcessView) (ty : ThreadState) :
    (p.unblockAll ty).context = p.context := by
  have hfold : ∀ (ts : List ThreadView) (p : ProcessView),
      (ts.foldl (unblockIf ty) p).context = p.context := by
    intro ts
    induction ts with
    | nil => exact fun _ => rfl
    | cons t ts ih =>
        intro p
        rw [List.foldl_cons, ih, unblockIf]
        split
        · exact p.context_unblock t ty
        · rfl
  exact hfold _ p

end ProcessView

section Same

variable {k k' : Kernel} {V V₁ V' : View} {p p' : ProcessView} {op : KernelOp}

theorem View.SameContexts.refl (V : View) : V.SameContexts V := ⟨rfl, rfl⟩

theorem View.SameContexts.trans (h : V.SameContexts V₁) (h' : V₁.SameContexts V') :
    V.SameContexts V' :=
  ⟨h'.table.trans h.table, h'.current.trans h.current⟩

theorem View.SameContexts.set (hnd : (V.table.map ProcessView.addr).Nodup) (hp : p ∈ V.table)
    (h : p'.context = p.context) : V.SameContexts (V.set p p') := by
  refine ⟨map_update fun q hq haddr => ?_, rfl⟩
  rw [eq_of_key_eq hnd hq hp haddr, h]

theorem View.addrs_set (h : p'.addr = p.addr) :
    (V.set p p').table.map ProcessView.addr = V.table.map ProcessView.addr :=
  map_update fun _ _ haddr => h.trans haddr.symm

theorem WakeAll.sameContexts {ws : List WaiterView} (h : WakeAll ws V V') :
    (V.table.map ProcessView.addr).Nodup → V.SameContexts V' := by
  induction h with
  | nil => exact fun _ => .refl _
  | @cons _ _ V _ p t hp _ _ _ _ ih =>
      intro hnd
      have haddr := (p.sameFrame_unblock t .T_BLOCKED_MUTEX).addr
      refine (View.SameContexts.set hnd hp (p.context_unblock t _)).trans (ih ?_)
      rw [View.addrs_set haddr]
      exact hnd

theorem WakeReceiver.sameContexts {pid : Int} (h : WakeReceiver pid V V') :
    (V.table.map ProcessView.addr).Nodup → V.SameContexts V' := by
  induction h with
  | nil => exact fun _ => .refl _
  | @cons V _ p hp _ _ ih =>
      intro hnd
      have haddr := (p.sameFrame_unblockAll .T_BLOCKED_PIPE).addr
      refine (View.SameContexts.set hnd hp (p.context_unblockAll _)).trans (ih ?_)
      rw [View.addrs_set haddr]
      exact hnd

theorem View.Blocked.sameContexts {t : ThreadView} {ty : ThreadState} (h : V.Blocked p t ty V')
    (hnd : (V.table.map ProcessView.addr).Nodup) (hp : p ∈ V.table) : V.SameContexts V' := by
  have hset := View.SameContexts.set hnd hp (p.context_block t.addr ty)
  exact ⟨by rw [h.table]; exact hset.table, h.current⟩

/-- The other events leave the contexts alone. -/
theorem Rep.sameContexts_effect (hr : Rep k V) (h : Effect k V op V') (hop : op.KeepsContexts) :
    V.SameContexts V' := by
  have hnd := hr.addrs_nodup
  have hlocks : ∀ κ (ls : List LockView), V.SameContexts (V.setLocks κ ls) := fun κ ls =>
    ⟨by rw [View.setLocks_table], View.setLocks_current κ ls V⟩
  have hunlocks : ∀ {κ : LockKind} {l : LockView} {status : Int}, V.Unlocks κ l status V' →
      V.SameContexts V' := by
    rintro κ l status ⟨V₁, hwake, rfl⟩
    refine (hwake.sameContexts hnd).trans ⟨?_, View.setLock_current κ _ _ V₁⟩
    rw [View.setLock_table]
  -- one case for each effect: a state or a waiter changes, and no saved stack pointer
  cases h with
  | idle _ => exact .refl V
  | tick _ _ _ _ _ => exact absurd hop not_false
  | yield _ _ _ _ _ => exact absurd hop not_false
  | addProcess _ => exact absurd hop not_false
  | addThread _ _ _ => exact absurd hop not_false
  | removeProcess _ _ _ => exact absurd hop not_false
  | removeThread _ _ _ _ _ _ => exact absurd hop not_false
  | removeDeadProcess => exact absurd hop not_false
  | @blockThread _ _ ty p t hp _ _ _ => exact (View.Blocked.of_block V p t ty).sameContexts hnd hp
  | @unblockThread _ _ ty p t hp _ _ _ => exact .set hnd hp (p.context_unblock t ty)
  | @unblockAllThreads _ ty p hp _ => exact .set hnd hp (p.context_unblockAll ty)
  | createMutex _ _ _ => exact ⟨rfl, rfl⟩
  | createSemaphore _ _ _ => exact ⟨rfl, rfl⟩
  | mutexUp _ hunlock => exact hunlocks hunlock
  | mutexWait _ _ hwait =>
      obtain ⟨p, hp, t, _, _, hblocked⟩ := hwait.blocked
      exact hblocked.sameContexts hnd hp
  | mutexTake _ _ => exact hlocks _ _
  | mutexDestroy _ _ => exact hlocks _ _
  | semaphoreCount _ _ => exact hlocks _ _
  | semaphoreUp _ _ hunlock => exact hunlocks hunlock
  | semaphoreWait _ _ hwait =>
      obtain ⟨p, hp, t, _, _, hblocked⟩ := hwait.blocked_of_setLock
      exact hblocked.sameContexts hnd hp
  | semaphoreTake _ _ => exact hlocks _ _
  | semaphoreDestroy _ _ => exact hlocks _ _
  | send _ hwake => exact hwake.sameContexts hnd
  | @receive _ _ _ _ _ p t _ _ hp _ _ _ => exact (View.Blocked.of_block V p t _).sameContexts hnd hp
  | pmalloc hc _ _ => exact .set hnd hc rfl
  | pfree hc _ _ _ => exact .set hnd hc rfl

end Same

/-! ## The saved stack pointers

The list of all threads with their saved stack pointers. An interrupt changes the entry of the
current thread, and a creation adds entries. -/

/-- The threads of the process with their saved stack pointers. -/
def ProcessView.savedStacks (p : ProcessView) : List (ThreadId × Addr) :=
  p.threads.map fun t => ((p.val.pid, t.val.pthread), t.val.userStack)

def View.savedStacks (V : View) : List (ThreadId × Addr) := V.table.flatMap ProcessView.savedStacks

section Stacks

variable {k : Kernel} {V V' : View} {p p' c : ProcessView} {t u : ThreadView} {x : ThreadId × Addr}
  {τ : ThreadId}

theorem ProcessView.savedStacks_of_context (h : p'.context = p.context) :
    p'.savedStacks = p.savedStacks := by
  have hstacks : ∀ q : ProcessView, q.savedStacks =
      q.context.2.2.2.map fun x => ((q.context.2.1, x.2.1), x.2.2) := by
    intro q
    simp [savedStacks, context]
  rw [hstacks, hstacks, h]

theorem View.mem_savedStacks : x ∈ V.savedStacks ↔
    ∃ p ∈ V.table, ∃ t ∈ p.threads, x = ((p.val.pid, t.val.pthread), t.val.userStack) := by
  simp [View.savedStacks, ProcessView.savedStacks, List.mem_flatMap, eq_comm]

theorem View.SameContexts.savedStacks (h : V.SameContexts V') : V'.savedStacks = V.savedStacks := by
  have hstacks : ∀ W : View, W.savedStacks = (W.table.map ProcessView.context).flatMap fun y =>
      y.2.2.2.map fun x => ((y.2.1, x.2.1), x.2.2) := by
    intro W
    rw [View.savedStacks, List.flatMap_map]
    refine List.flatMap_congr fun p _ => ?_
    simp [ProcessView.savedStacks, ProcessView.context]
  rw [hstacks, hstacks, h.table]

theorem View.SameContexts.currentThread (h : V.SameContexts V') (hcur : V.Current τ) :
    V'.Current τ := by
  obtain ⟨c, hc, t, ht, hccur, htcur, rfl⟩ := hcur
  have hmem : c.context ∈ V'.table.map ProcessView.context := by
    rw [h.table]
    exact List.mem_map_of_mem hc
  obtain ⟨c', hc', hcontext⟩ := List.mem_map.mp hmem
  simp only [ProcessView.context, Prod.mk.injEq] at hcontext
  obtain ⟨hnode, hpid, hcurrent, hthreads⟩ := hcontext
  have htmem : (t.lib, t.val.pthread, t.val.userStack) ∈
      c'.threads.map fun t => (t.lib, t.val.pthread, t.val.userStack) := by
    rw [hthreads]
    exact List.mem_map_of_mem ht
  obtain ⟨t', ht', heq⟩ := List.mem_map.mp htmem
  simp only [Prod.mk.injEq] at heq
  refine ⟨c', hc', t', ht', ?_, ?_, ?_⟩
  · rw [hnode, hccur, h.current]
  · rw [heq.1, htcur, hcurrent]
  · rw [hpid, heq.2.1]

/-- A process that keeps its stack pointers. -/
theorem View.savedStacks_set (h : p'.savedStacks = p.savedStacks) (hp : p ∈ V.table)
    (hx : x ∈ (V.set p p').savedStacks) : x ∈ V.savedStacks := by
  obtain ⟨q, hq, hx⟩ := List.mem_flatMap.mp hx
  obtain ⟨r, hr, rfl⟩ := List.mem_map.mp hq
  split at hx
  · rw [h] at hx
    exact List.mem_flatMap.mpr ⟨p, hp, hx⟩
  · exact List.mem_flatMap.mpr ⟨r, hr, hx⟩

theorem ProcessView.savedStacks_switchThread (p : ProcessView) (t u : ThreadView) :
    (p.switchThread t u).savedStacks = p.savedStacks := by
  have hpause : (p.pauseThread t).savedStacks = p.savedStacks := by
    unfold pauseThread wakeThread
    split
    · exact savedStacks_of_context (p.context_setThreadState t.addr .T_READY)
    · rfl
  exact (savedStacks_of_context (context_setThreadState _ u.addr .T_RUNNING)).trans hpause

/-- The scheduler stores no stack pointer. -/
theorem Scheduled.savedStacks (hnd : (V.table.map ProcessView.node).Nodup) (h : Scheduled V V')
    (hx : x ∈ V'.savedStacks) : x ∈ V.savedStacks := by
  cases h with
  | count hc _ _ _ => exact View.savedStacks_set (by rfl) hc hx
  | @thread c t u hc _ _ _ _ _ _ =>
      have hsame : ((c.setTick 0).switchThread t u).savedStacks = c.savedStacks :=
        (c.setTick 0).savedStacks_switchThread t u
      exact View.savedStacks_set hsame hc hx
  | @process s _ _ =>
      obtain ⟨q, hq, hx⟩ := List.mem_flatMap.mp hx
      obtain ⟨p, hp, rfl⟩ := List.mem_map.mp hq
      refine List.mem_flatMap.mpr ⟨p, View.mem_of_mem_reap hnd hp, ?_⟩
      split at hx
      · exact hx
      · unfold ProcessView.pause at hx
        split at hx
        · exact hx
        · exact hx

theorem Yielded.savedStacks (hr : Rep k V) (h : Yielded V c t V') (hc : c ∈ V.table)
    (hx : x ∈ V'.savedStacks) : x ∈ V.savedStacks := by
  cases h with
  | process _ hs => exact Scheduled.savedStacks (V := { V with ticks := QUANTUM }) hr.queue.nodup hs hx
  | thread _ _ hs =>
      obtain ⟨k₁, -, hr₁⟩ := hr.setTick hc THREAD_QUANTUM
      exact View.savedStacks_set (by rfl) hc (hs.savedStacks hr₁.queue.nodup hx)
  | stay _ _ => exact hx

/-- Only the current thread gets a new stack pointer. -/
theorem Rep.savedStacks_saveStack (hr : Rep k V) (hok : V.Ok) (hc : c ∈ V.table) (ht : t ∈ c.threads)
    {rsp : Addr} (hx : x ∈ (V.set c (c.saveStack t.addr rsp)).savedStacks) :
    x ∈ V.savedStacks ∧ x.1 ≠ (c.val.pid, t.val.pthread) ∨ x = ((c.val.pid, t.val.pthread), rsp) := by
  obtain ⟨q, hq, v, hv, rfl⟩ := View.mem_savedStacks.mp hx
  obtain ⟨p, hp, rfl⟩ := List.mem_map.mp hq
  split at hv
  case isTrue haddr =>
      obtain rfl := hr.eq_of_addr hp hc haddr
      obtain ⟨w, hw, rfl⟩ := List.mem_map.mp hv
      simp only [if_true]
      split
      case isTrue heq =>
          right
          rw [hr.thread_unique hc ht w hw heq]
          rfl
      case isFalse hne =>
          left
          refine ⟨View.mem_savedStacks.mpr ⟨p, hc, w, hw, rfl⟩, fun heq => hne ?_⟩
          obtain rfl := eq_of_key_eq (hok.processes p hc).pthreads hw ht (Prod.mk.inj heq).2
          rfl
  case isFalse hne =>
      left
      simp only [hne, if_false]
      refine ⟨View.mem_savedStacks.mpr ⟨p, hp, v, hv, rfl⟩, fun heq => hne ?_⟩
      obtain rfl := eq_of_key_eq hok.pids hp hc (Prod.mk.inj heq).1
      rfl

/-- `switchKernelToUser` returns the saved stack pointer of the current thread. -/
theorem Rep.switchKernelToUser (hr : Rep k V) (hcur : V.Current τ) :
    ∃ a, BasicKernel.switchKernelToUser k = .ok a ∧ (τ, a) ∈ V.savedStacks := by
  obtain ⟨c, hc, t, ht, hccur, htcur, rfl⟩ := hcur
  have hrc := hr.processes c hc
  refine ⟨t.val.userStack, ?_, View.mem_savedStacks.mpr ⟨c, hc, t, ht, rfl⟩⟩
  rw [BasicKernel.switchKernelToUser, hr.currentProcessNode hc hccur, ok_bind,
    hrc.currentThreadNode ht htcur, ok_bind, (hrc.threads t ht).load_thread]
  rfl

end Stacks

/-! ## Interrupts with their history

The kernel does not record what was saved for whom, so the history is kept beside it: the
thread that was resumed last, and for each suspended thread the stack pointer that it was
suspended with. -/

/-- The lookups of the kernel find the thread, and its node is `v`. -/
def Kernel.HasThread (k : Kernel) (τ : ThreadId) (v : ThreadNode) : Prop :=
  ∃ fuel process thread, getProcessWithPid fuel k τ.1 = .ok process ∧ process ≠ NULL ∧
    getThreadWithPthread fuel k τ.2 process = .ok thread ∧ thread ≠ NULL ∧ k.thread thread = v

/-- The frame that `fillStackFrame` builds for a new thread. -/
def ThreadNode.firstFrame (v : ThreadNode) : Addr := v.baseStack - STACK_FRAME_SIZE

/-- The kernel with the history of its interrupts. `running` is the thread that was resumed last, and
`resumed` the stack pointer that `switchKernelToUser` returned for it. `saved` is the stack pointer
that a thread was suspended with, or that of its first frame. -/
structure Contexts where
  kernel : Kernel
  running : ThreadId
  saved : ThreadId → Addr
  resumed : Addr

/-- `endLoadingKernel` has resumed the first thread. -/
structure Contexts.AtBoot (s : Contexts) : Prop where
  booted : Booted s.kernel
  running : s.kernel.Current s.running
  saved : ∀ τ v, s.kernel.HasThread τ v → s.saved τ = v.firstFrame
  resumed : switchKernelToUser s.kernel = .ok s.resumed

def KernelOp.Creates : KernelOp → Prop
  | addProcess _ _ _ => True
  | addThread _ _ _ => True
  | _ => False

/-- One event of a run in which nothing is killed. At an interrupt the thread that was running is
suspended with the stack pointer `rsp`. -/
inductive ContextStep (s : Contexts) : Contexts → Prop
  | tick {k k' : Kernel} {fuel : Nat} {garbage : Garbage} {rsp r : Addr} {τ : ThreadId} :
      Recycled s.kernel k → processSwitch fuel garbage k rsp = .ok (r, k') → k'.Current τ →
      ContextStep s ⟨k', τ, Function.update s.saved s.running rsp, r⟩
  | yield {k k' : Kernel} {fuel : Nat} {garbage : Garbage} {rsp r : Addr} {τ : ThreadId} :
      Recycled s.kernel k → yieldHandler fuel garbage k rsp = .ok (r, k') → k'.Current τ →
      ContextStep s ⟨k', τ, Function.update s.saved s.running rsp, r⟩
  | create {k k' : Kernel} {op : KernelOp} {fuel : Nat} {saved : ThreadId → Addr} :
      Recycled s.kernel k → op.Creates → SoundAlive k op → op.run fuel k = .ok k' →
      (∀ τ v, k.HasThread τ v → saved τ = s.saved τ) →
      (∀ τ v, k'.HasThread τ v → (∀ w, ¬ k.HasThread τ w) → saved τ = v.firstFrame) →
      ContextStep s ⟨k', s.running, saved, s.resumed⟩
  | other {k' : Kernel} :
      KernelStep (fun k op => SoundAlive k op ∧ op.KeepsContexts) s.kernel k' →
      ContextStep s { s with kernel := k' }

/-- Every suspended thread has in memory the stack pointer that was saved for it. -/
structure Contexts.Kept (s : Contexts) (V : View) : Prop where
  rep : Rep s.kernel V
  ok : V.Ok
  alive : V.Alive
  running : V.Current s.running
  suspended : ∀ x ∈ V.savedStacks, x.1 ≠ s.running → x.2 = s.saved x.1
  resumed : s.resumed = s.saved s.running

section History

variable {k k' : Kernel} {V V' : View} {s s' : Contexts} {τ : ThreadId} {v : ThreadNode}

theorem Rep.hasThread_iff (hr : Rep k V) (hok : V.Ok) : k.HasThread τ v ↔
    ∃ p ∈ V.table, ∃ t ∈ p.threads, τ = (p.val.pid, t.val.pthread) ∧ t.val = v := by
  constructor
  · rintro ⟨fuel, process, thread, hprocess, hpne, hthread, htne, rfl⟩
    obtain ⟨p, hp, hpid, rfl⟩ := hr.process_of_getProcess hprocess hpne
    have hrp := hr.processes p hp
    rcases hrp.getThreadWithPthread τ.2 with ⟨t, ht, hpthread, hret⟩ | ⟨-, hret⟩
    · obtain rfl := hret.eq hthread
      exact ⟨p, hp, t, ht, by rw [hpid, hpthread], (hrp.threads t ht).val.symm⟩
    · exact absurd (hret.eq hthread) htne
  · rintro ⟨p, hp, t, ht, rfl, rfl⟩
    have hrp := hr.processes p hp
    obtain ⟨⟨n, hn⟩, -⟩ := hr.getProcessWithPid_of_mem hok.pids hp
    obtain ⟨⟨m, hm⟩, -⟩ := hrp.getThreadWithPthread_of_mem (hok.processes p hp).pthreads ht
    exact ⟨max n m, p.addr, t.addr, hn _ (le_max_left n m), hrp.addr_ne, hm _ (le_max_right n m),
      (hrp.threads t ht).addr_ne, (hrp.threads t ht).val⟩

theorem Rep.current_unique (hr : Rep k V) (hok : V.Ok) {σ : ThreadId} (h : V.Current τ)
    (h' : V.Current σ) : τ = σ :=
  ((hr.current_iff hok).mpr h).unique ((hr.current_iff hok).mpr h')

theorem View.AtBoot.firstFrame (h : V.AtBoot) {p : ProcessView} (hp : p ∈ V.table) {t : ThreadView}
    (ht : t ∈ p.threads) : t.val.userStack = t.val.firstFrame := by
  obtain ⟨entryPoint, pid, hcreated⟩ := h.created hp
  exact (hcreated.thread ht).userStack

theorem Contexts.AtBoot.kept (h : s.AtBoot) : ∃ V, s.Kept V := by
  obtain ⟨V, hr, hok, hboot⟩ := h.booted.rep
  have hcur := (hr.current_iff hok).mp h.running
  have hsaved : ∀ x ∈ V.savedStacks, x.2 = s.saved x.1 := by
    intro x hx
    obtain ⟨p, hp, t, ht, rfl⟩ := View.mem_savedStacks.mp hx
    have hhas := (hr.hasThread_iff hok).mpr ⟨p, hp, t, ht, rfl, rfl⟩
    rw [h.saved _ _ hhas]
    exact hboot.firstFrame hp ht
  obtain ⟨a, ha, hmem⟩ := hr.switchKernelToUser hcur
  have hresumed : s.resumed = a := Except.ok.inj (h.resumed.symm.trans ha)
  exact ⟨V, hr, hok, hboot.alive, hcur, fun x hx _ => hsaved x hx, hresumed.trans (hsaved _ hmem)⟩

/-- The thread that was running is suspended, and another one, or the same, is resumed. -/
theorem Contexts.Kept.switch (h : s.Kept V) {c : ProcessView} {t : ThreadView} (hc : c ∈ V.table)
    (ht : t ∈ c.threads) (hccur : c.node = V.current) (htcur : t.lib = c.val.currentThread)
    {rsp r : Addr} (hr' : Rep k' V') (hok' : V'.Ok) (halive' : V'.Alive) (hcur' : k'.Current τ)
    (hstacks : ∀ x ∈ V'.savedStacks, x ∈ (V.set c (c.saveStack t.addr rsp)).savedStacks)
    (hresumed : switchKernelToUser k' = .ok r) :
    Contexts.Kept ⟨k', τ, Function.update s.saved s.running rsp, r⟩ V' := by
  have hrunning : s.running = (c.val.pid, t.val.pthread) :=
    h.rep.current_unique h.ok h.running ⟨c, hc, t, ht, hccur, htcur, rfl⟩
  have hsaved : ∀ x ∈ V'.savedStacks, x.2 = Function.update s.saved s.running rsp x.1 := by
    intro x hx
    rcases h.rep.savedStacks_saveStack h.ok hc ht (hstacks x hx) with ⟨hmem, hne⟩ | rfl
    · rw [← hrunning] at hne
      rw [Function.update_of_ne hne]
      exact h.suspended x hmem hne
    · rw [hrunning, Function.update_self]
  have hcur := (hr'.current_iff hok').mp hcur'
  obtain ⟨a, ha, hmem⟩ := hr'.switchKernelToUser hcur
  have hra : r = a := Except.ok.inj (hresumed.symm.trans ha)
  exact ⟨hr', hok', halive', hcur, fun x hx _ => hsaved x hx, hra.trans (hsaved _ hmem)⟩

/-- A creation adds threads that were not yet run. -/
theorem Rep.savedStacks_create (hr : Rep k V) (hok : V.Ok) {op : KernelOp} (h : Effect k V op V')
    (hop : op.Creates) : (∀ τ, V.Current τ → V'.Current τ) ∧
      ∀ p' ∈ V'.table, ∀ t ∈ p'.threads, (∃ p ∈ V.table, t ∈ p.threads ∧ p.val.pid = p'.val.pid) ∨
        t.val.userStack = t.val.firstFrame ∧
          ∀ p ∈ V.table, ∀ u ∈ p.threads, (p.val.pid, u.val.pthread) ≠ (p'.val.pid, t.val.pthread) := by
  cases h with
  | idle _ => exact ⟨fun _ => id, fun p' hp' t ht => .inl ⟨p', hp', ht, rfl⟩⟩
  -- the pid of the new process is new, so its thread is a new one
  | @addProcess _ _ _ q hq =>
      constructor
      · rintro τ ⟨c, hc, t, ht, hccur, htcur, rfl⟩
        exact ⟨c, mem_insertSecond.mpr (.inr hc), t, ht, hccur, htcur, rfl⟩
      · intro p' hp' t ht
        rcases mem_insertSecond.mp hp' with rfl | hp'
        · right
          refine ⟨(hq.thread ht).userStack, fun p hp u _ heq => ?_⟩
          have hlt := (hok.pid_lt p hp).2
          rw [(Prod.mk.inj heq).1, hq.pid] at hlt
          exact absurd hlt (lt_irrefl _)
        · exact .inl ⟨p', hp', ht, rfl⟩
  -- the pthread number is new in the process
  | @addThread _ _ _ p t hp _ hcreated =>
      constructor
      · rintro τ ⟨c, hc, u, hu, hccur, hucur, rfl⟩
        by_cases hcp : c = p
        · subst hcp
          exact ⟨_, View.mem_set hc _, u, mem_insertSecond.mpr (.inr hu), hccur, hucur, rfl⟩
        · exact ⟨c, hr.mem_set_of_ne hp hc hcp, u, hu, hccur, hucur, rfl⟩
      · intro p' hp' u hu
        obtain ⟨q, hq, rfl⟩ := List.mem_map.mp hp'
        split at hu
        case isTrue haddr =>
            simp only [haddr, if_true]
            rcases mem_insertSecond.mp hu with rfl | hu
            · right
              refine ⟨hcreated.userStack, fun r hr₁ w hw heq => ?_⟩
              obtain ⟨hpid, hpthread⟩ := Prod.mk.inj heq
              obtain rfl := eq_of_key_eq hok.pids hr₁ hp hpid
              have hlt := ((hok.processes r hp).pthread_lt w hw).2
              rw [hpthread, hcreated.pthread] at hlt
              exact absurd hlt (lt_irrefl _)
            · exact .inl ⟨p, hp, hu, rfl⟩
        case isFalse hne =>
            simp only [hne, if_false]
            exact .inl ⟨q, hq, hu, rfl⟩
  | _ => exact absurd hop not_false

theorem Contexts.Kept.step (h : s.Kept V) (hstep : ContextStep s s') : ∃ V', s'.Kept V' := by
  cases hstep with
  -- the stack pointer of the interrupted thread is saved before the scheduler runs
  | @tick k k' fuel garbage rsp r τ hrec hcall hcur =>
      have hr := h.rep.recycled hrec
      have hs : Sound k (.tick garbage rsp) := SoundAlive.sound hr h.alive trivial
      obtain ⟨c, hc, t, ht, hccur, htcur, V', hsched, hr', hok', hresumed⟩ :=
        hr.processSwitch_inv h.ok (hr.reapable_of_tick hs) hcall
      have heffect : Effect k V (.tick garbage rsp) V' := .tick hc ht hccur htcur hsched
      obtain ⟨k₁, -, hr₁⟩ := hr.saveStack hc hccur ht htcur rsp
      exact ⟨V', h.switch hc ht hccur htcur hr' hok' (hr.alive_effect heffect hs not_false h.alive)
        hcur (fun x hx => hsched.savedStacks hr₁.queue.nodup hx) hresumed⟩
  | @yield k k' fuel garbage rsp r τ hrec hcall hcur =>
      have hr := h.rep.recycled hrec
      have hs : Sound k (.yield garbage rsp) := SoundAlive.sound hr h.alive trivial
      obtain ⟨c, hc, t, ht, hccur, htcur, V', hyield, hr', hok', hresumed⟩ :=
        hr.yieldHandler_inv h.ok (hr.reapable_of_yield hs) hcall
      have heffect : Effect k V (.yield garbage rsp) V' := .yield hc ht hccur htcur hyield
      obtain ⟨k₁, -, hr₁⟩ := hr.saveStack hc hccur ht htcur rsp
      exact ⟨V', h.switch hc ht hccur htcur hr' hok' (hr.alive_effect heffect hs not_false h.alive)
        hcur (fun x hx => hyield.savedStacks hr₁ (View.mem_set hc _) hx) hresumed⟩
  -- a creation gives the new threads a saved stack pointer and leaves the others theirs
  | @create k k' op fuel saved hrec hop hs hrun hold hnew =>
      have hr := h.rep.recycled hrec
      have hsound := hs.sound hr h.alive
      obtain ⟨V', heffect, hr', hok'⟩ := hr.run_inv h.ok hsound hrun
      obtain ⟨hcur, hthreads⟩ := hr.savedStacks_create h.ok heffect hop
      have hkeep : ∀ p ∈ V.table, ∀ t ∈ p.threads,
          saved (p.val.pid, t.val.pthread) = s.saved (p.val.pid, t.val.pthread) :=
        fun p hp t ht => hold _ _ ((hr.hasThread_iff h.ok).mpr ⟨p, hp, t, ht, rfl, rfl⟩)
      refine ⟨V', hr', hok', hr.alive_effect heffect hsound hs.not_kills h.alive, hcur _ h.running,
        fun x hx hne => ?_, ?_⟩
      · obtain ⟨p', hp', t, ht, rfl⟩ := View.mem_savedStacks.mp hx
        rcases hthreads p' hp' t ht with ⟨p, hp, htp, hpid⟩ | ⟨hframe, hfresh⟩
        · rw [← hpid] at hne ⊢
          have hsuspended := h.suspended _ (View.mem_savedStacks.mpr ⟨p, hp, t, htp, rfl⟩) hne
          exact hsuspended.trans (hkeep p hp t htp).symm
        · have hhas := (hr'.hasThread_iff hok').mpr ⟨p', hp', t, ht, rfl, rfl⟩
          refine hframe.trans (hnew _ _ hhas fun w hw => ?_).symm
          obtain ⟨p, hp, u, hu, heq, -⟩ := (hr.hasThread_iff h.ok).mp hw
          exact hfresh p hp u hu heq.symm
      · obtain ⟨c, hc, t, ht, -, -, hrunning⟩ := h.running
        show s.resumed = saved s.running
        rw [h.resumed, hrunning, hkeep c hc t ht]
  -- the other events move neither of the two current pointers
  | @other k' hstep =>
      obtain ⟨k, op, fuel, hrec, ⟨hs, hop⟩, hrun⟩ := hstep
      have hr := h.rep.recycled hrec
      have hsound := hs.sound hr h.alive
      obtain ⟨V', heffect, hr', hok'⟩ := hr.run_inv h.ok hsound hrun
      have hsame := hr.sameContexts_effect heffect hop
      refine ⟨V', hr', hok', hr.alive_effect heffect hsound hs.not_kills h.alive,
        hsame.currentThread h.running, fun x hx => ?_, h.resumed⟩
      rw [hsame.savedStacks] at hx
      exact h.suspended x hx

end History

/-! ## Contexts are kept

In the states of a run the saved stack pointers and the history agree. What a switch resumes was
saved for the thread that it resumes. -/

/-- A thread is resumed with the stack pointer that it was last suspended with, or with its first
frame. -/
theorem contexts_kept {s : Contexts} (h : Reachable Contexts.AtBoot ContextStep s) :
    s.resumed = s.saved s.running := by
  have hkept : ∃ V, s.Kept V := by
    apply Reachable.invariant (I := fun s => ∃ V, s.Kept V) _ _ h
    · exact fun s hs => hs.kept
    · rintro s s' - ⟨V, hV⟩ hstep
      exact hV.step hstep
  obtain ⟨V, hV⟩ := hkept
  exact hV.resumed

theorem Rep.thread_eq {k : Kernel} {V : View} (hr : Rep k V) (hok : V.Ok) {τ : ThreadId}
    {v w : ThreadNode} (hv : k.HasThread τ v) (hw : k.HasThread τ w) : v = w := by
  obtain ⟨p, hp, t, ht, rfl, rfl⟩ := (hr.hasThread_iff hok).mp hv
  obtain ⟨q, hq, u, hu, heq, rfl⟩ := (hr.hasThread_iff hok).mp hw
  obtain ⟨hpid, hpthread⟩ := Prod.mk.inj heq
  obtain rfl := eq_of_key_eq hok.pids hp hq hpid
  obtain rfl := eq_of_key_eq (hok.processes p hp).pthreads ht hu hpthread
  rfl

/-- Every run begins with some history. -/
theorem Booted.contexts {k : Kernel} (h : Booted k) : ∃ s : Contexts, s.AtBoot ∧ s.kernel = k := by
  classical
  obtain ⟨V, hr, hok, -⟩ := h.rep
  obtain ⟨c, hc, hccur⟩ := hok.current
  obtain ⟨t, ht, htcur⟩ := (hr.processes c hc).exists_current
  have hcur : V.Current (c.val.pid, t.val.pthread) := ⟨c, hc, t, ht, hccur, htcur, rfl⟩
  obtain ⟨a, ha, -⟩ := hr.switchKernelToUser hcur
  let saved := fun τ => if hτ : ∃ v, k.HasThread τ v then hτ.choose.firstFrame else NULL
  refine ⟨⟨k, _, saved, a⟩, ⟨h, (hr.current_iff hok).mpr hcur, fun τ v hv => ?_, ha⟩, rfl⟩
  have hτ : ∃ v, k.HasThread τ v := ⟨v, hv⟩
  have hsaved : saved τ = hτ.choose.firstFrame := dif_pos hτ
  rw [hr.thread_eq hok hτ.choose_spec hv] at hsaved
  exact hsaved

/-- The thread that runs first. -/
theorem View.AtBoot.current_main {V : View} (h : V.AtBoot) : V.Current (0, 0) := by
  obtain ⟨p, q, e, e', htable, hp, -, hcur⟩ := h.table
  obtain ⟨t, ht, hcreated, htcur⟩ := hp.threads
  refine ⟨p, by simp [htable], t, by simp [ht], hcur.symm, htcur.symm, ?_⟩
  rw [hp.pid, hcreated.pthread]

theorem Sound.alive {k : Kernel} {op : KernelOp} (hs : Sound k op) (hop : op.KeepsContexts) :
    SoundAlive k op := by
  cases op with
  | tick _ _ => exact hop.elim
  | yield _ _ => exact hop.elim
  | removeProcess _ => exact hop.elim
  | removeThread _ _ => exact hop.elim
  | removeDeadProcess _ => exact hop.elim
  | _ => exact ⟨not_false, hs⟩

/-- Steps that move no current pointer, carried out by `runSound`. -/
theorem KernelStep.alive {k k' : Kernel}
    (h : KernelStep (fun k op => Sound k op ∧ op.KeepsContexts) k k') :
    KernelStep (fun k op => SoundAlive k op ∧ op.KeepsContexts) k k' := by
  obtain ⟨k₁, op, fuel, hrec, ⟨hs, hop⟩, hrun⟩ := h
  exact ⟨k₁, op, fuel, hrec, ⟨hs.alive hop, hop⟩, hrun⟩

/-! ## There and back

`init` waits and the timer finds the shell. When `init` is ready again the shell waits, and yields. -/

def initWaits : List KernelOp := [.blockThread 0 0 ThreadState.T_BLOCKED_IO]

def shellWaits : List KernelOp :=
  [.unblockThread 0 0 ThreadState.T_BLOCKED_IO, .blockThread 1 0 ThreadState.T_BLOCKED_IO]

theorem keepsContexts_waits : ∀ op ∈ initWaits ++ shellWaits, op.KeepsContexts := by
  intro op hop
  simp only [initWaits, shellWaits, List.cons_append, List.nil_append, List.mem_cons,
    List.not_mem_nil, or_false] at hop
  rcases hop with rfl | rfl | rfl
  · exact trivial
  · exact trivial
  · exact trivial

theorem thereAndBack_states : (do
    let k₁ ← KernelOp.runSound 40 initWaits (← startKernel)
    let (_, k₂) ← processSwitch 40 nullGarbage k₁ 0x7F50
    let k₃ ← KernelOp.runSound 40 shellWaits k₂
    let (_, k₄) ← yieldHandler 40 nullGarbage k₃ 0x8F50
    return decide (k₂.Current (1, 0) ∧ k₄.Current (0, 0)) : Except Stop Bool) = .ok true := by
  decide +kernel

/-- The states of the kernel on the way. -/
theorem thereAndBack : ∃ k k₁ k₂ k₃ k₄ r₂ r₄, startKernel = .ok k ∧
    KernelOp.runSound 40 initWaits k = .ok k₁ ∧
    processSwitch 40 nullGarbage k₁ 0x7F50 = .ok (r₂, k₂) ∧ k₂.Current (1, 0) ∧
    KernelOp.runSound 40 shellWaits k₂ = .ok k₃ ∧
    yieldHandler 40 nullGarbage k₃ 0x8F50 = .ok (r₄, k₄) ∧ k₄.Current (0, 0) := by
  obtain ⟨k, hk, hrun⟩ := bind_eq_ok.mp thereAndBack_states
  obtain ⟨k₁, hk₁, hrun⟩ := bind_eq_ok.mp hrun
  obtain ⟨⟨r₂, k₂⟩, hk₂, hrun⟩ := bind_eq_ok.mp hrun
  obtain ⟨k₃, hk₃, hrun⟩ := bind_eq_ok.mp hrun
  obtain ⟨⟨r₄, k₄⟩, hk₄, hrun⟩ := bind_eq_ok.mp hrun
  obtain ⟨hcur₂, hcur₄⟩ := of_decide_eq_true (Except.ok.inj hrun)
  exact ⟨k, k₁, k₂, k₃, k₄, r₂, r₄, hk, hk₁, hk₂, hcur₂, hk₃, hk₄, hcur₄⟩

theorem contexts_kept_there_and_back : ∃ s : Contexts, Reachable Contexts.AtBoot ContextStep s ∧
    s.running = (0, 0) ∧ s.saved (0, 0) = 0x7F50 ∧ s.saved (1, 0) = 0x8F50 ∧
    s.resumed = s.saved s.running := by
  obtain ⟨k, k₁, k₂, k₃, k₄, r₂, r₄, hk, hk₁, hk₂, hcur₂, hk₃, hk₄, hcur₄⟩ := thereAndBack
  have hbooted := booted_of_start hk
  obtain ⟨V, hr, hok, hboot⟩ := hbooted.rep
  obtain ⟨s, hs, rfl⟩ := hbooted.contexts
  have hrunning : s.running = (0, 0) :=
    hs.running.unique ((hr.current_iff hok).mpr hboot.current_main)
  have hreach₁ : Reachable Contexts.AtBoot ContextStep { s with kernel := k₁ } :=
    Reachable.runSound (f := fun k => { s with kernel := k })
      (fun _ _ hstep => .other hstep.alive)
      (fun op hop => keepsContexts_waits op (List.mem_append_left _ hop)) (.start hs) hk₁
  have hreach₂ := hreach₁.next (.tick (.refl k₁) hk₂ hcur₂)
  have hreach₃ : Reachable Contexts.AtBoot ContextStep
      ⟨k₃, (1, 0), Function.update s.saved s.running 0x7F50, r₂⟩ :=
    Reachable.runSound
      (f := fun k => (⟨k, (1, 0), Function.update s.saved s.running 0x7F50, r₂⟩ : Contexts))
      (fun _ _ hstep => .other hstep.alive)
      (fun op hop => keepsContexts_waits op (List.mem_append_right _ hop)) hreach₂ hk₃
  have hreach₄ := hreach₃.next (.yield (.refl k₃) hk₄ hcur₄)
  refine ⟨_, hreach₄, rfl, ?_, ?_, contexts_kept hreach₄⟩
  · show Function.update (Function.update s.saved s.running 0x7F50) (1, 0) 0x8F50 (0, 0) = 0x7F50
    rw [hrunning, Function.update_of_ne (by decide), Function.update_self]
  · show Function.update (Function.update s.saved s.running 0x7F50) (1, 0) 0x8F50 (1, 0) = 0x8F50
    rw [Function.update_self]

end BasicKernel
