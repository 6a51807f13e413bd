import BasicKernel.Scheduling.Blocking

set_option autoImplicit false

/-! # Rules for states

A rule is a property of each process, and one of its state beside the current node and the ticks. What
the cases of a rule ask for, one for each thing that an event can do to a process, is enough for every
event to keep it.

`Rep.obeys_effect` keeps a rule through every sound event, and `Run.obeys` through a run. A proof
about a new property of this kind gives a `ProcessRule` and its few cases, and does not go through
the events again.
-/

namespace BasicKernel

open Linked Keyed Fuel Transition

/-- `Q p` holds of each process, and `S current ticks node s` of its node and its state. -/
structure ProcessRule (Q : ProcessView → Prop) (S : Addr → Int → Addr → ProcessState → Prop) :
    Prop where
  setState : ∀ {p : ProcessView} (s : ProcessState), Q p → Q (p.setState s)
  setHeap : ∀ {p : ProcessView} (hs : List HeapView), Q p → Q (p.setHeap hs)
  saveStack : ∀ {p : ProcessView} (a esp : Addr), Q p → Q (p.saveStack a esp)
  ready : ∀ {p : ProcessView} (a : Addr), Q p → Q (p.setThreadState a .T_READY)
  lose : ∀ {p : ProcessView} (a : Addr), Q p → Q (p.loseThread a)
  block : ∀ {p : ProcessView} (a : Addr) {ty : ThreadState}, isThreadBlocked ty → Q p → Q (p.block a ty)
  addThread : ∀ {p : ProcessView} {t : ThreadView}, t.val.state = .T_READY → Q p → Q (p.addThread t)
  created : ∀ {p : ProcessView} {entryPoint : Addr} {pid : Int}, p.Created entryPoint pid → Q p
  count : ∀ {p : ProcessView} (n : Int), p.val.threadTick < THREAD_QUANTUM → Q p → Q (p.setTick n)
  stop : ∀ {p : ProcessView}, Q p → Q (p.setTick THREAD_QUANTUM)
  switchThread : ∀ {p : ProcessView} {t u : ThreadView}, (p.threads.map ThreadView.lib).Nodup →
    (p.threads.map ThreadView.addr).Nodup → t ∈ p.threads → t.lib = p.val.currentThread →
    p.nextReady t = some u → Q p → Q ((p.setTick 0).switchThread t u)
  rest : ∀ {current node : Addr} {ticks : Int} {s : ProcessState}, s = .READY ∨ s = .DEAD →
    S current ticks node s
  blocked : ∀ {current node : Addr} {s : ProcessState}, isProcessBlocked s → S current QUANTUM node s
  late : ∀ {current node : Addr} {ticks : Int} {s : ProcessState}, S current ticks node s →
    S current QUANTUM node s
  tick : ∀ {current node : Addr} {ticks : Int} {s : ProcessState}, ticks < QUANTUM →
    S current ticks node s → S current (ticks + 1) node s
  chosen : ∀ {node : Addr}, S node 0 node .RUNNING
  others : ∀ {current next node : Addr} {ticks : Int} {s : ProcessState}, node ≠ next →
    ¬ (node = current ∧ s = .RUNNING) → S current ticks node s → S next 0 node s

structure View.Obeys (Q : ProcessView → Prop) (S : Addr → Int → Addr → ProcessState → Prop) (V : View) :
    Prop where
  processes : ∀ p ∈ V.table, Q p
  states : ∀ p ∈ V.table, S V.current V.ticks p.node p.val.state

variable {Q : ProcessView → Prop} {S : Addr → Int → Addr → ProcessState → Prop} {k k' : Kernel}
  {V V' : View} {op : KernelOp} {p p' c : ProcessView} {t u : ThreadView} {ty : ThreadState}

/-! ## One process

What a change does to the threads of a process, one thread after the other, keeps the rule for the
process. -/

namespace ProcessRule

theorem wakeThread (hQ : ProcessRule Q S) (h : Q p) (t : ThreadView) (ty : ThreadState) :
    Q (p.wakeThread t ty) := by
  unfold ProcessView.wakeThread
  split
  · exact hQ.ready _ h
  · exact h

theorem wake (hQ : ProcessRule Q S) (h : Q p) (s : ProcessState) : Q (p.wake s) := by
  unfold ProcessView.wake
  split
  · exact hQ.setState _ h
  · exact h

theorem unblock (hQ : ProcessRule Q S) (h : Q p) (t : ThreadView) (ty : ThreadState) :
    Q (p.unblock t ty) := hQ.wake (hQ.wakeThread h t ty) _

theorem unblockAll (hQ : ProcessRule Q S) (h : Q p) (ty : ThreadState) : Q (p.unblockAll ty) := by
  unfold ProcessView.unblockAll
  generalize p.threads.take p.val.threadSize.toNat = ts
  induction ts generalizing p with
  | nil => exact h
  | cons t ts ih =>
      apply ih
      unfold ProcessView.unblockIf
      split
      · exact hQ.unblock h t ty
      · exact h

theorem pause (hQ : ProcessRule Q S) (h : Q p) (current : Addr) : Q (p.pause current) := by
  unfold ProcessView.pause
  split
  · exact hQ.setState _ h
  · exact h

theorem killThread (hQ : ProcessRule Q S) (h : Q p) (a : Addr) : Q (p.killThread a) := by
  unfold ProcessView.killThread
  apply hQ.lose
  split
  · exact hQ.setState _ h
  · exact h

end ProcessRule

/-! ## The table

A change of one process leaves the rule for all others alone, unless it moves the current node or
the ticks. -/

namespace View.Obeys

theorem congr (h : V.Obeys Q S) (htable : V'.table = V.table) (hcur : V'.current = V.current)
    (hticks : V'.ticks = V.ticks) : V'.Obeys Q S := by
  constructor
  · rw [htable]
    exact h.processes
  · rw [htable, hcur, hticks]
    exact h.states

theorem set (h : V.Obeys Q S) (hp' : Q p') (hnode : p'.node = p.node)
    (hstate : S V.current V.ticks p.node p'.val.state) : (V.set p p').Obeys Q S := by
  refine ⟨View.forall_set h.processes hp', fun q hq => ?_⟩
  obtain ⟨r, hr, rfl⟩ := mem_update.mp hq
  by_cases hrp : r.addr = p.addr
  · rw [if_pos hrp, hnode]
    exact hstate
  · rw [if_neg hrp]
    exact h.states r hr

/-- A process gets ready, or dies, or keeps its state. -/
theorem setRest (hQ : ProcessRule Q S) (h : V.Obeys Q S) (hp : p ∈ V.table) (hp' : Q p')
    (hnode : p'.node = p.node)
    (hstate : p'.val.state = p.val.state ∨ p'.val.state = .READY ∨ p'.val.state = .DEAD) :
    (V.set p p').Obeys Q S := by
  refine h.set hp' hnode ?_
  rcases hstate with hsame | hrest
  · rw [hsame]
    exact h.states p hp
  · exact hQ.rest hrest

theorem setTicks (hQ : ProcessRule Q S) (h : V.Obeys Q S) :
    ({ V with ticks := QUANTUM } : View).Obeys Q S :=
  ⟨h.processes, fun p hp => hQ.late (h.states p hp)⟩

theorem saveStack (hQ : ProcessRule Q S) (h : V.Obeys Q S) (hp : p ∈ V.table) (a esp : Addr) :
    (V.set p (p.saveStack a esp)).Obeys Q S :=
  h.setRest hQ hp (hQ.saveStack _ _ (h.processes p hp)) rfl (.inl rfl)

theorem stop (hQ : ProcessRule Q S) (h : V.Obeys Q S) (hp : p ∈ V.table) :
    (V.set p (p.setTick THREAD_QUANTUM)).Obeys Q S :=
  h.setRest hQ hp (hQ.stop (h.processes p hp)) rfl (.inl rfl)

theorem setLocks (h : V.Obeys Q S) (κ : LockKind) (ls : List LockView) : (V.setLocks κ ls).Obeys Q S :=
  h.congr (View.setLocks_table _ _ _) (View.setLocks_current _ _ _) (View.setLocks_ticks _ _ _)

theorem setLock (h : V.Obeys Q S) (κ : LockKind) (l l' : LockView) : (V.setLock κ l l').Obeys Q S :=
  h.setLocks κ _

/-- A block that leaves no thread ready ends the turn of all. -/
theorem blocked (hQ : ProcessRule Q S) (h : V.Obeys Q S) (hb : V.Blocked p t ty V') (hp : p ∈ V.table)
    (hty : isThreadBlocked ty) : V'.Obeys Q S := by
  have hblock := hQ.block t.addr hty (h.processes p hp)
  have hnode := (p.sameFrame_block t.addr ty).node
  have hV' : (V.block p t.addr ty).Obeys Q S := by
    cases hnone : (p.block t.addr ty).noneReady with
    | true =>
        refine ⟨View.forall_set h.processes hblock, fun q hq => ?_⟩
        show S V.current (if (p.block t.addr ty).noneReady then QUANTUM else V.ticks) q.node q.val.state
        rw [if_pos hnone]
        obtain ⟨r, hr, rfl⟩ := mem_update.mp hq
        by_cases hrp : r.addr = p.addr
        · rw [if_pos hrp, p.block_state, if_pos hnone]
          exact hQ.blocked (isProcessBlocked_getBlockProcessType hty)
        · rw [if_neg hrp]
          exact hQ.late (h.states r hr)
    | false =>
        have hset : (V.set p (p.block t.addr ty)).Obeys Q S := by
          refine h.setRest hQ hp hblock hnode (.inl ?_)
          rw [p.block_state, hnone, if_neg Bool.false_ne_true]
        refine hset.congr rfl rfl ?_
        show (if (p.block t.addr ty).noneReady then QUANTUM else V.ticks) = V.ticks
        rw [hnone, if_neg Bool.false_ne_true]
  exact hV'.congr hb.table hb.current hb.ticks

theorem unblock (hQ : ProcessRule Q S) (h : V.Obeys Q S) (hp : p ∈ V.table) (t : ThreadView)
    (ty : ThreadState) : (V.set p (p.unblock t ty)).Obeys Q S := by
  refine h.setRest hQ hp (hQ.unblock (h.processes p hp) t ty) (p.sameFrame_unblock t ty).node ?_
  rw [ProcessView.unblock, ProcessView.wake_state, ProcessView.wakeThread_val]
  split
  · exact .inr (.inl rfl)
  · exact .inl rfl

theorem unblockAll (hQ : ProcessRule Q S) (h : V.Obeys Q S) (hp : p ∈ V.table)
    (haddrs : (p.threads.map ThreadView.addr).Nodup) (ty : ThreadState) :
    (V.set p (p.unblockAll ty)).Obeys Q S := by
  refine h.setRest hQ hp (hQ.unblockAll (h.processes p hp) ty) (p.sameFrame_unblockAll ty).node ?_
  rw [ProcessView.unblockAll_val haddrs]
  split
  · unfold ProcessNode.wake
    split
    · exact .inr (.inl rfl)
    · exact .inl rfl
  · exact .inl rfl

theorem wakeAll (hQ : ProcessRule Q S) {ws : List WaiterView} (h : WakeAll ws V V') :
    V.Obeys Q S → V'.Obeys Q S := by
  induction h with
  | nil => exact id
  | @cons _ _ V _ p t hp _ _ _ _ ih => exact fun hV => ih (hV.unblock hQ hp t _)

theorem unlocks (hQ : ProcessRule Q S) (h : V.Obeys Q S) {κ : LockKind} {l : LockView} {status : Int}
    (hunlock : V.Unlocks κ l status V') : V'.Obeys Q S := by
  obtain ⟨V₁, hwake, rfl⟩ := hunlock
  exact (wakeAll hQ hwake h).setLock _ _ _

end View.Obeys

/-! ## The events

Every effect is a sequence of changes of the table. -/

namespace Rep

theorem obeys_scheduled (hQ : ProcessRule Q S) (hr : Rep k V) (hV : V.Obeys Q S) (h : Scheduled V V') :
    V'.Obeys Q S := by
  -- a tick that counts, a switch of threads, a switch of processes
  cases h with
  | @count c hc _ hticks htick =>
      have hset : (V.set c (c.setTick (c.val.threadTick + 1))).Obeys Q S :=
        hV.setRest hQ hc (hQ.count _ htick (hV.processes c hc)) rfl (.inl rfl)
      exact ⟨hset.processes, fun q hq => hQ.tick hticks (hset.states q hq)⟩
  | @thread c t u hc _ ht htcur hticks _ hu =>
      have hset : (V.set c ((c.setTick 0).switchThread t u)).Obeys Q S := by
        have hQc := hQ.switchThread (hr.processes c hc).ring.nodup (hr.threadAddrs_nodup hc) ht htcur hu
          (hV.processes c hc)
        refine hV.setRest hQ hc hQc ((c.setTick 0).switchThread_node t u) (.inl ?_)
        rw [ProcessView.switchThread_val]
        rfl
      exact ⟨hset.processes, fun q hq => hQ.tick hticks (hset.states q hq)⟩
  | @process s _ hs =>
      constructor
      · intro q hq
        obtain ⟨r, hrT, rfl⟩ := List.mem_map.mp hq
        have hr' := hV.processes r (View.mem_of_mem_reap hr.queue.nodup hrT)
        split
        · exact hQ.setState _ hr'
        · exact hQ.pause hr' _
      · intro q hq
        obtain ⟨r, hrT, rfl⟩ := List.mem_map.mp hq
        have hr' := hV.states r (View.mem_of_mem_reap hr.queue.nodup hrT)
        show S s.node 0 _ _
        -- the chosen process runs; of the others only the current one can have changed
        by_cases hrs : r.node = s.node
        · rw [if_pos hrs, ProcessView.setState_node, hrs]
          exact hQ.chosen
        · rw [if_neg hrs, ProcessView.pause_node, ProcessView.pause_state]
          split
          case isTrue _ => exact hQ.rest (.inl rfl)
          case isFalse hpaused => exact hQ.others hrs hpaused hr'

theorem obeys_yielded (hQ : ProcessRule Q S) (hr : Rep k V) (hV : V.Obeys Q S) (hc : c ∈ V.table)
    (h : Yielded V c t V') : V'.Obeys Q S := by
  cases h with
  | process _ hs =>
      exact (hr.setTicks QUANTUM).obeys_scheduled hQ (hV.setTicks hQ) hs
  | thread _ _ hs =>
      obtain ⟨k₁, -, hr₁⟩ := hr.setTick hc THREAD_QUANTUM
      exact hr₁.obeys_scheduled hQ (hV.stop hQ hc) hs
  | stay _ _ => exact hV

theorem obeys_wakeReceiver (hQ : ProcessRule Q S) {pid : Int} (h : WakeReceiver pid V V') :
    ∀ {k : Kernel}, Rep k V → V.Ok → V.Obeys Q S → V'.Obeys Q S := by
  induction h with
  | nil => exact fun _ _ hV => hV
  | @cons V _ p hp _ _ ih =>
      intro k hr hok hV
      obtain ⟨k₁, -, hr₁⟩ := hr.unblockAllThreads hok hp .T_BLOCKED_PIPE
      exact ih hr₁ (hr.ok_unblockAll hok hp _) (hV.unblockAll hQ hp (hr.threadAddrs_nodup hp) _)

/-- Every sound event keeps a rule. -/
theorem obeys_effect (hQ : ProcessRule Q S) (hr : Rep k V) (hok : V.Ok) (hs : Sound k op)
    (h : Effect k V op V') (hV : V.Obeys Q S) : V'.Obeys Q S := by
  have hheap : ∀ c ∈ V.table, ∀ heap, (V.set c (c.setHeap heap)).Obeys Q S :=
    fun c hc heap => hV.setRest hQ hc (hQ.setHeap _ (hV.processes c hc)) rfl (.inl rfl)
  -- one case for each effect, and for each the case of the rule that it needs
  cases h with
  | idle _ => exact hV
  | @tick _ rsp c t _ hc ht hccur htcur hsched =>
      obtain ⟨k₁, -, hr₁⟩ := hr.saveStack hc hccur ht htcur rsp
      exact hr₁.obeys_scheduled hQ (hV.saveStack hQ hc t.addr rsp) hsched
  | @yield _ rsp c t _ hc ht hccur htcur hyield =>
      obtain ⟨k₁, -, hr₁⟩ := hr.saveStack hc hccur ht htcur rsp
      exact hr₁.obeys_yielded hQ (hV.saveStack hQ hc t.addr rsp) (View.mem_set hc _) hyield
  | @addProcess _ _ _ p hp =>
      refine ⟨fun q hq => ?_, fun q hq => ?_⟩
      · rcases mem_insertSecond.mp hq with rfl | hq
        · exact hQ.created hp
        · exact hV.processes q hq
      · rcases mem_insertSecond.mp hq with rfl | hq
        · exact hQ.rest (.inl hp.state)
        · exact hV.states q hq
  | @addThread _ _ _ p _ hp _ ht =>
      exact hV.setRest hQ hp (hQ.addThread ht.state (hV.processes p hp)) rfl (.inl rfl)
  | @removeProcess _ p hp _ _ =>
      have hset : (V.set p (p.setState .DEAD)).Obeys Q S :=
        hV.setRest hQ hp (hQ.setState _ (hV.processes p hp)) rfl (.inr (.inr rfl))
      exact hset.congr rfl rfl rfl
  | @removeThread _ _ p t hp _ _ _ _ _ =>
      have hset : (V.set p (p.killThread t.addr)).Obeys Q S := by
        refine hV.setRest hQ hp (hQ.killThread (hV.processes p hp) t.addr) ?_ ?_
        · unfold ProcessView.killThread ProcessView.loseThread
          split <;> rfl
        · unfold ProcessView.killThread ProcessView.loseThread
          split
          · exact .inr (.inr rfl)
          · exact .inl rfl
      exact hset.congr rfl rfl rfl
  | removeDeadProcess =>
      exact ⟨fun p hp => hV.processes p (View.mem_of_mem_reap hr.queue.nodup hp),
        fun p hp => hV.states p (View.mem_of_mem_reap hr.queue.nodup hp)⟩
  | @blockThread _ _ ty p t hp _ _ _ => exact hV.blocked hQ (.of_block V p t ty) hp hs
  | @unblockThread _ _ ty p t hp _ _ _ => exact hV.unblock hQ hp t ty
  | @unblockAllThreads _ ty p hp _ => exact hV.unblockAll hQ hp (hr.threadAddrs_nodup hp) ty
  | createMutex _ _ _ => exact hV.congr rfl rfl rfl
  | createSemaphore _ _ _ => exact hV.congr rfl rfl rfl
  | mutexUp _ hunlock => exact hV.unlocks hQ hunlock
  | mutexWait _ _ hwait =>
      obtain ⟨p, hp, t, _, _, hblocked⟩ := hwait.blocked
      exact hV.blocked hQ hblocked hp rfl
  | mutexTake _ _ => exact hV.setLock _ _ _
  | mutexDestroy _ _ => exact hV.setLocks _ _
  | semaphoreCount _ _ => exact hV.setLock _ _ _
  | semaphoreUp _ _ hunlock => exact hV.unlocks hQ hunlock
  | semaphoreWait _ _ hwait =>
      obtain ⟨p, hp, t, _, _, hblocked⟩ := hwait.blocked_of_setLock
      exact hV.blocked hQ hblocked hp rfl
  | semaphoreTake _ _ => exact hV.setLock _ _ _
  | semaphoreDestroy _ _ => exact hV.setLocks _ _
  | send _ hwake => exact obeys_wakeReceiver hQ hwake hr hok hV
  | @receive _ _ _ _ _ p t _ _ hp _ _ _ => exact hV.blocked hQ (.of_block V p t _) hp rfl
  | @pmalloc _ c _ hc _ _ => exact hheap c hc _
  | @pfree _ c _ _ _ hc _ _ _ => exact hheap c hc _

end Rep

theorem View.AtBoot.obeys (hQ : ProcessRule Q S) (h : V.AtBoot) : V.Obeys Q S := by
  constructor
  · intro p hp
    obtain ⟨entryPoint, pid, hcreated⟩ := h.created hp
    exact hQ.created hcreated
  · intro p hp
    obtain ⟨entryPoint, pid, hcreated⟩ := h.created hp
    exact hQ.rest (.inl hcreated.state)

theorem Run.obeys (hQ : ProcessRule Q S) (h : Run Sound k) : ∃ V, Rep k V ∧ V.Ok ∧ V.Obeys Q S :=
  h.view (fun _ _ h => h) (fun _ h => h.obeys hQ) fun _ _ _ _ hr hok hs hV heffect =>
    hr.obeys_effect hQ hok hs heffect hV

/-! ## Who runs

A rule that many proofs need: only the current process and only its current thread are running. -/

/-- Of the threads only the current one is running. -/
def ProcessView.OneRuns (p : ProcessView) : Prop :=
  ∀ t ∈ p.threads, t.val.state = .T_RUNNING → t.lib = p.val.currentThread

/-- Only the current process is running. -/
def RunsAtCurrent (current : Addr) (_ : Int) (node : Addr) (s : ProcessState) : Prop :=
  s = .RUNNING → node = current

namespace ProcessView.OneRuns

theorem setThread (h : p.OneRuns) (a : Addr) {f : ThreadNode → ThreadNode}
    (hf : ∀ t ∈ p.threads, (f t.val).state = .T_RUNNING → t.val.state = .T_RUNNING) :
    (p.setThread a f).OneRuns := by
  intro u hu hrunning
  obtain ⟨t, ht, rfl⟩ := mem_update.mp hu
  by_cases hta : t.addr = a
  · rw [if_pos hta] at hrunning ⊢
    exact h t ht (hf t ht hrunning)
  · rw [if_neg hta] at hrunning ⊢
    exact h t ht hrunning

theorem setThreadState (h : p.OneRuns) (a : Addr) {s : ThreadState} (hs : s ≠ .T_RUNNING) :
    (p.setThreadState a s).OneRuns := h.setThread a fun _ _ hrunning => absurd hrunning hs

theorem block (h : p.OneRuns) (a : Addr) {ty : ThreadState} (hty : isThreadBlocked ty) :
    (p.block a ty).OneRuns := by
  have hne : ty ≠ .T_RUNNING := by
    rintro rfl
    cases hty
  have hset : (p.setThreadState a ty).OneRuns := h.setThreadState a hne
  unfold ProcessView.block
  dsimp only
  split
  · exact hset
  · exact hset

/-- The paused thread is not running, and the chosen one is the current one. -/
theorem switchThread (h : p.OneRuns) (hlibs : (p.threads.map ThreadView.lib).Nodup)
    (haddrs : (p.threads.map ThreadView.addr).Nodup) (ht : t ∈ p.threads)
    (hcur : t.lib = p.val.currentThread) (hu : p.nextReady t = some u) :
    (p.switchThread t u).OneRuns := by
  -- a running thread was the current one, and that one was paused
  have hpaused : ∀ w ∈ (p.pauseThread t).threads, w.val.state ≠ .T_RUNNING := by
    intro w hw hrunning
    unfold ProcessView.pauseThread ProcessView.wakeThread at hw
    split at hw
    case isTrue _ =>
        obtain ⟨v, hv, rfl⟩ := mem_update.mp hw
        by_cases hvt : v.addr = t.addr
        · rw [if_pos hvt] at hrunning
          cases hrunning
        · rw [if_neg hvt] at hrunning
          obtain rfl := eq_of_key_eq hlibs hv ht ((h v hv hrunning).trans hcur.symm)
          exact hvt rfl
    case isFalse hstopped =>
        obtain rfl := eq_of_key_eq hlibs hw ht ((h w hw hrunning).trans hcur.symm)
        exact hstopped hrunning
  obtain ⟨hmem, -⟩ := ProcessView.mem_of_nextReady hu
  have haddrs' : ((p.pauseThread t).threads.map ThreadView.addr).Nodup := by
    rw [p.pauseThread_addrs t]
    exact haddrs
  intro v hv hrunning
  rw [ProcessView.switchThread_val]
  obtain ⟨w, hw, rfl⟩ := mem_update.mp hv
  by_cases hwu : w.addr = u.addr
  · obtain rfl := eq_of_key_eq haddrs' hw hmem hwu
    rw [if_pos rfl]
    rfl
  · rw [if_neg hwu] at hrunning
    exact absurd hrunning (hpaused w hw)

theorem addThread (h : p.OneRuns) (ht : t.val.state = .T_READY) : (p.addThread t).OneRuns := by
  intro u hu hrunning
  rcases mem_insertSecond.mp hu with rfl | hu
  · rw [ht] at hrunning
    cases hrunning
  · exact h u hu hrunning

theorem of_created {entryPoint : Addr} {pid : Int} (h : p.Created entryPoint pid) : p.OneRuns := by
  intro u hu hrunning
  rw [(h.thread hu).state] at hrunning
  cases hrunning

end ProcessView.OneRuns

theorem oneRuns_rule : ProcessRule ProcessView.OneRuns RunsAtCurrent where
  setState _ h := h
  setHeap _ h := h
  saveStack a esp h := h.setThread a fun _ _ hrunning => hrunning
  ready a h := h.setThreadState a (by decide)
  lose a h := h.setThreadState a (by decide)
  block a _ hty h := h.block a hty
  addThread ht h := h.addThread ht
  created h := .of_created h
  count _ _ h := h
  stop h := h
  switchThread hlibs haddrs ht hcur hu h := by
    refine ProcessView.OneRuns.switchThread (p := _) h hlibs haddrs ht hcur ?_
    exact (ProcessView.nextReady_setTick _ _ 0).trans hu
  rest hs hrunning := by
    subst hrunning
    rcases hs with hs | hs <;> cases hs
  blocked hs hrunning := by
    subst hrunning
    cases hs
  late h := h
  tick _ h := h
  chosen _ := rfl
  others _ hpaused h hrunning := absurd ⟨h hrunning, hrunning⟩ hpaused

end BasicKernel
