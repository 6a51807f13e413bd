import BasicKernel.Locks.WaitLists
import BasicKernel.Scheduling.Rules

set_option autoImplicit false

/-! # What the scans of the scheduler ask for

`runScheduler` looks for a ready process and `nextThread` for a ready thread of the current process, and
neither stops without one. A block marks a process whose counted threads are all stopped. The calls that
kill do not, and the calls that wake a process do not look at its threads.

`View.Manned` is the invariant: some process may be chosen, and each process that may be chosen
has a thread that may be. `KeepsScans` is the condition on an event under which it is kept, stated
on the memory before the event. `Scheduling/Scans.lean` draws the conclusion.
-/

namespace BasicKernel

open Linked Keyed Fuel

/-- The process may be chosen by the scheduler. -/
def Kernel.Awake (k : Kernel) (pid : Int) : Prop := ∃ s, k.ProcessIs pid s ∧ s.awake

/-- Another process may be chosen. -/
def Kernel.OtherAwake (k : Kernel) (pid : Int) : Prop := ∃ i, i ≠ pid ∧ k.Awake i

/-- A thread of the process, other than those in `gone`, may be chosen. -/
def Kernel.ActiveBut (k : Kernel) (pid : Int) (gone : Int → Prop) : Prop :=
  ∃ i s, ¬ gone i ∧ k.ThreadIs (pid, i) s ∧ s.awake

/-- The process has one counted thread left. -/
def Kernel.LastThread (k : Kernel) (pid : Int) : Prop :=
  ∃ fuel a, getProcessWithPid fuel k pid = .ok a ∧ a ≠ NULL ∧ (k.process a).threadSize = 1

/-- The thread is on the wait list of the lock. -/
def Kernel.Waiter (k : Kernel) (lock : Addr) (τ : ThreadId) : Prop :=
  ∃ ws, Chain k.nextWaiter NULL (k.lock lock).blockedThreadList ws ∧
    ∃ w ∈ ws, τ = ((k.blockedThread w).pid, (k.blockedThread w).pthread)

namespace KernelOp

/-- The event wakes the thread `τ` if that is in the state `ty`, and its process if that is blocked in
the same way. -/
def Wakes (k : Kernel) (τ : ThreadId) (ty : ThreadState) : KernelOp → Prop
  | unblockThread pid pthread ty' => ty = ty' ∧ τ = (pid, pthread)
  | mutexUp id => ty = .T_BLOCKED_MUTEX ∧
      ∃ fuel a, findLock fuel k k.mutexList id = .ok a ∧ a ≠ NULL ∧ k.Waiter a τ
  | semaphoreUp id => ty = .T_BLOCKED_MUTEX ∧
      ∃ fuel a, findLock fuel k k.semaphoreList id = .ok a ∧ a ≠ NULL ∧
        0 ≤ toInt32 ((k.lock a).status + 1) ∧ k.Waiter a τ
  | _ => False

/-- The event kills the process. -/
def KillsProcess (k : Kernel) (pid : Int) : KernelOp → Prop
  | removeProcess victim => victim = pid ∧ ¬ (pid = 0 ∨ pid = 1)
  | removeThread owner pthread =>
      owner = pid ∧ ¬ (pid = 0 ∨ pid = 1) ∧ pthread ≠ 0 ∧ k.LastThread pid
  | _ => False

end KernelOp

/-- After the event some process may be chosen, and some thread of each such process and, within its
turn, of the current one. -/
structure KeepsScans (k : Kernel) (op : KernelOp) : Prop where
  sound : Sound k op
  blocks : ∀ τ, op.Blocks k τ → k.OtherAwake τ.1 ∨ k.OtherReady τ
  wakes : ∀ τ ty, op.Wakes k τ ty → k.ProcessIs τ.1 (getBlockProcessType ty) →
    k.ActiveBut τ.1 (fun _ => False) ∨ ∃ σ, op.Wakes k σ ty ∧ σ.1 = τ.1 ∧ k.ThreadIs σ ty
  process : ∀ pid, op.KillsProcess k pid → k.OtherAwake pid
  thread : ∀ τ, op.KillsThread τ → k.Awake τ.1 ∧ ¬ k.LastThread τ.1 ∨
    getCurrentPid k = .ok τ.1 ∧ k.numberOfTicks < QUANTUM → k.ActiveBut τ.1 (· = τ.2)

variable {k k' : Kernel} {V V' : View} {op : KernelOp} {p c : ProcessView} {t : ThreadView}
  {ty : ThreadState} {pid : Int} {τ : ThreadId}

def View.Awake (V : View) (pid : Int) : Prop := ∃ s, V.processState pid = some s ∧ s.awake

def View.Active (V : View) (pid : Int) : Prop := ∃ i s, V.threadState (pid, i) = some s ∧ s.awake

def View.CurrentPid (V : View) (pid : Int) : Prop := ∃ c ∈ V.table, c.node = V.current ∧ c.val.pid = pid

/-- Some process may be chosen, and each of these has a thread that may be chosen, as the current one
has within its turn. -/
structure View.Manned (V : View) : Prop where
  someone : ∃ pid, V.Awake pid
  active : ∀ pid, V.Awake pid → V.Active pid
  current : ∃ pid, V.CurrentPid pid ∧ (V.ticks < QUANTUM → V.Active pid)

namespace Rep

theorem awake_iff (hr : Rep k V) (hok : V.Ok) : k.Awake pid ↔ V.Awake pid := by
  unfold Kernel.Awake View.Awake
  simp only [hr.processIs_iff hok]

theorem otherAwake_iff (hr : Rep k V) (hok : V.Ok) : k.OtherAwake pid ↔ ∃ i, i ≠ pid ∧ V.Awake i := by
  unfold Kernel.OtherAwake
  simp only [hr.awake_iff hok]

theorem activeBut_iff (hr : Rep k V) (hok : V.Ok) {gone : Int → Prop} : k.ActiveBut pid gone ↔
    ∃ i s, ¬ gone i ∧ V.threadState (pid, i) = some s ∧ s.awake := by
  unfold Kernel.ActiveBut
  simp only [hr.threadIs_iff hok]

theorem lastThread_iff (hr : Rep k V) (hok : V.Ok) (hp : p ∈ V.table) :
    k.LastThread p.val.pid ↔ p.val.threadSize = 1 := by
  constructor
  · rintro ⟨fuel, a, hget, ha, hsize⟩
    obtain ⟨q, hq, hpid, rfl⟩ := hr.process_of_getProcess hget ha
    obtain rfl := eq_of_key_eq hok.pids hq hp hpid
    rwa [(hr.processes q hq).val] at hsize
  · intro hsize
    obtain ⟨fuel, hget⟩ := (hr.getProcessWithPid_of_mem hok.pids hp).exists_fuel
    exact ⟨fuel, p.addr, hget, (hr.processes p hp).addr_ne, by rw [(hr.processes p hp).val, hsize]⟩

theorem waiter_iff (hr : Rep k V) {κ : LockKind} {l : LockView} (hl : l ∈ V.locks κ) :
    k.Waiter l.addr τ ↔ τ ∈ l.waiters.map WaiterView.id := by
  have hrl := (hr.locks κ).locks l hl
  have hid : ∀ w ∈ l.waiters, ((k.blockedThread w.addr).pid, (k.blockedThread w.addr).pthread) = w.id :=
    fun w hw => Prod.ext (hrl.waiters w hw).pid (hrl.waiters w hw).pthread
  constructor
  · rintro ⟨ws, hchain, a, ha, rfl⟩
    obtain rfl := hrl.list.unique hchain
    obtain ⟨w, hw, rfl⟩ := List.mem_map.mp ha
    rw [hid w hw]
    exact List.mem_map_of_mem hw
  · intro hmem
    obtain ⟨w, hw, rfl⟩ := List.mem_map.mp hmem
    exact ⟨_, hrl.list, w.addr, List.mem_map_of_mem hw, (hid w hw).symm⟩

theorem currentPid_iff (hr : Rep k V) (hok : V.Ok) :
    BasicKernel.getCurrentPid k = .ok pid ↔ V.CurrentPid pid := by
  constructor
  · intro hget
    obtain ⟨c, hc, hcur⟩ := hok.current
    rw [hr.getCurrentPid hc hcur] at hget
    exact ⟨c, hc, hcur, Except.ok.inj hget⟩
  · rintro ⟨c, hc, hcur, rfl⟩
    exact hr.getCurrentPid hc hcur

theorem currentPid_set {p' : ProcessView} (hr : Rep k V) (hp : p ∈ V.table) (hnode : p'.node = p.node)
    (hpid : p'.val.pid = p.val.pid) (h : V.CurrentPid pid) : (V.set p p').CurrentPid pid := by
  obtain ⟨c, hc, hcur, rfl⟩ := h
  refine ⟨_, mem_update.mpr ⟨c, hc, rfl⟩, ?_⟩
  by_cases hcp : c.addr = p.addr
  · obtain rfl := hr.eq_of_addr hc hp hcp
    rw [if_pos rfl]
    exact ⟨hnode.trans hcur, hpid⟩
  · rw [if_neg hcp]
    exact ⟨hcur, rfl⟩

end Rep

theorem View.CurrentPid.congr (h : V.CurrentPid pid) (htable : V'.table = V.table)
    (hcur : V'.current = V.current) : V'.CurrentPid pid := by
  unfold View.CurrentPid
  rw [htable, hcur]
  exact h

/-- A thread of the process gets another state. -/
theorem View.Active.update {s : ThreadState} (h : V.Active pid)
    (hthread : V'.threadState = Function.update V.threadState τ (some s)) (hs : s.awake ∨ τ.1 ≠ pid) :
    V'.Active pid := by
  obtain ⟨i, u, hu, hawake⟩ := h
  by_cases hτ : (pid, i) = τ
  · subst hτ
    refine ⟨i, s, ?_, hs.resolve_right fun hne => hne rfl⟩
    rw [hthread, Function.update_self]
  · refine ⟨i, u, ?_, hawake⟩
    rw [hthread, Function.update_of_ne hτ, hu]

theorem View.Active.of_ready {i : Int} (h : V.threadState (pid, i) = some .T_READY) : V.Active pid :=
  ⟨i, _, h, rfl⟩

/-- No thread loses its state but to get ready. -/
theorem View.Active.woken (h : V.Active pid)
    (hthread : ∀ τ, V'.threadState τ = V.threadState τ ∨ V'.threadState τ = some .T_READY) :
    V'.Active pid := by
  obtain ⟨i, s, hs, hawake⟩ := h
  rcases hthread (pid, i) with hsame | hready
  · exact ⟨i, s, hsame.trans hs, hawake⟩
  · exact .of_ready hready

theorem View.awake_update {i : Int} {s : ProcessState}
    (h : V'.processState = Function.update V.processState pid (some s)) :
    V'.Awake i ↔ i = pid ∧ s.awake ∨ i ≠ pid ∧ V.Awake i := by
  unfold View.Awake
  rw [h]
  by_cases hi : i = pid
  · subst hi
    simp
  · simp [hi]

theorem View.CurrentPid.find_ne (h : V.CurrentPid pid) : V.find pid ≠ none := by
  obtain ⟨c, hc, -, hpid⟩ := h
  exact fun hnone => find_eq_none.mp hnone c hc hpid

theorem View.Awake.find_ne (h : V.Awake pid) : V.find pid ≠ none := by
  obtain ⟨s, hs, -⟩ := h
  obtain ⟨p, hp, -⟩ := Option.map_eq_some_iff.mp hs
  rw [hp]
  exact Option.some_ne_none p

/-! ### A switch

A switch exchanges ready and running, and a scan does not tell these apart. The dead that it
removes were no candidates. -/

theorem Dispatched.exists_awake {σ : Type} {awake : σ → Bool} {a b : Option σ}
    (h : Dispatched awake a b) : (∃ s, a = some s ∧ awake s) ↔ ∃ s, b = some s ∧ awake s := by
  cases h with
  | same => rfl
  | @moved s s' hs hs' => exact iff_of_true ⟨s, rfl, hs⟩ ⟨s', rfl, hs'⟩

theorem Switched.active {gone : Int → Prop} (h : Switched gone V V') (hleft : V'.find pid ≠ none)
    (hactive : V.Active pid) : V'.Active pid := by
  obtain ⟨i, s, hs, hawake⟩ := hactive
  rcases h.threads (pid, i) with ⟨-, hnone⟩ | hmoved
  · exact absurd hnone hleft
  · obtain ⟨s', hs', hawake'⟩ := hmoved.exists_awake.mp ⟨s, hs, hawake⟩
    exact ⟨i, s', hs', hawake'⟩

theorem Switched.awake_iff {gone : Int → Prop} (h : Switched gone V V')
    (hgone : ∀ pid, gone pid → V.processState pid = some .DEAD) : V'.Awake pid ↔ V.Awake pid := by
  rcases h.processes pid with ⟨hpid, hnone⟩ | hmoved
  · refine iff_of_false (fun hawake => hawake.find_ne hnone) ?_
    rintro ⟨s, hs, hawake⟩
    rw [hgone pid hpid] at hs
    obtain rfl := Option.some.inj hs
    cases hawake
  · exact hmoved.exists_awake.symm

namespace View.Manned

theorem of_maps (h : V.Manned) (hcur : ∀ pid, V.CurrentPid pid → V'.CurrentPid pid)
    (hticks : V'.ticks < QUANTUM → V.ticks < QUANTUM) (hsome : ∃ pid, V'.Awake pid)
    (hawake : ∀ pid, V'.Awake pid → V.Awake pid ∨ V'.Active pid)
    (hactive : ∀ pid, V'.Awake pid ∨ V.CurrentPid pid ∧ V'.ticks < QUANTUM → V.Active pid →
      V'.Active pid) : V'.Manned := by
  refine ⟨hsome, fun pid hpid => ?_, ?_⟩
  · rcases hawake pid hpid with hbefore | hnow
    · exact hactive pid (.inl hpid) (h.active pid hbefore)
    · exact hnow
  · obtain ⟨pid, hpid, hturn⟩ := h.current
    exact ⟨pid, hcur pid hpid, fun ht => hactive pid (.inr ⟨hpid, ht⟩) (hturn (hticks ht))⟩

theorem of_eq (h : V.Manned) (hcur : ∀ pid, V.CurrentPid pid → V'.CurrentPid pid)
    (hticks : V'.ticks < QUANTUM → V.ticks < QUANTUM) (hprocess : V'.processState = V.processState)
    (hthread : V'.threadState = V.threadState) : V'.Manned := by
  have hawake : V'.Awake = V.Awake := by
    unfold View.Awake
    rw [hprocess]
  have hactive : V'.Active = V.Active := by
    unfold View.Active
    rw [hthread]
  refine h.of_maps hcur hticks ?_ (fun pid hpid => .inl ?_) fun pid _ hpid => ?_
  · rw [hawake]
    exact h.someone
  · rwa [hawake] at hpid
  · rwa [hactive]

theorem congr (h : V.Manned) (htable : V'.table = V.table) (hcur : V'.current = V.current)
    (hticks : V'.ticks = V.ticks) : V'.Manned :=
  h.of_eq (fun _ hpid => hpid.congr htable hcur) (fun ht => hticks ▸ ht)
    (View.processState_congr htable) (View.threadState_congr htable)

theorem setLocks (h : V.Manned) (κ : LockKind) (ls : List LockView) : (V.setLocks κ ls).Manned :=
  h.congr (View.setLocks_table _ _ _) (View.setLocks_current _ _ _) (View.setLocks_ticks _ _ _)

/-- Threads become ready, and processes that have one then. -/
theorem woken (h : V.Manned) (hcur : ∀ pid, V.CurrentPid pid → V'.CurrentPid pid)
    (hticks : V'.ticks = V.ticks)
    (hprocess : ∀ pid, V'.processState pid = V.processState pid ∨
      V'.processState pid = some .READY ∧ V'.Active pid)
    (hthread : ∀ τ, V'.threadState τ = V.threadState τ ∨ V'.threadState τ = some .T_READY) :
    V'.Manned := by
  refine h.of_maps hcur (fun ht => hticks ▸ ht) ?_ (fun pid hpid => ?_) fun pid _ hactive => ?_
  · obtain ⟨pid, s, hs, hawake⟩ := h.someone
    rcases hprocess pid with hsame | ⟨hready, -⟩
    · exact ⟨pid, s, hsame.trans hs, hawake⟩
    · exact ⟨pid, _, hready, rfl⟩
  · rcases hprocess pid with hsame | ⟨-, hactive⟩
    · obtain ⟨s, hs, hawake⟩ := hpid
      exact .inl ⟨s, hsame ▸ hs, hawake⟩
    · exact .inr hactive
  · exact hactive.woken hthread

/-- Threads get states of those that may be chosen, and all else stays. -/
theorem of_update {s : ThreadState} (h : V.Manned) (hcur : ∀ pid, V.CurrentPid pid → V'.CurrentPid pid)
    (hticks : V'.ticks = V.ticks) (hprocess : V'.processState = V.processState)
    (hthread : V'.threadState = Function.update V.threadState τ (some s)) (hs : s.awake) :
    V'.Manned := by
  have hawake : V'.Awake = V.Awake := by
    unfold View.Awake
    rw [hprocess]
  refine h.of_maps hcur (fun ht => hticks ▸ ht) ?_ (fun pid hpid => .inl ?_) fun pid _ hactive => ?_
  · rw [hawake]
    exact h.someone
  · rwa [hawake] at hpid
  · exact hactive.update hthread (.inl hs)

/-- Dead processes are removed, and states that may be chosen are exchanged. -/
theorem switched {gone : Int → Prop} (h : V.Manned) (hs : Switched gone V V')
    (hgone : ∀ pid, gone pid → V.processState pid = some .DEAD)
    (hcur : ∃ pid, V'.CurrentPid pid ∧ (V'.ticks < QUANTUM → V.Active pid)) : V'.Manned := by
  constructor
  · obtain ⟨pid, hpid⟩ := h.someone
    exact ⟨pid, (hs.awake_iff hgone).mpr hpid⟩
  · exact fun pid hpid => hs.active hpid.find_ne (h.active pid ((hs.awake_iff hgone).mp hpid))
  · obtain ⟨pid, hpid, hactive⟩ := hcur
    exact ⟨pid, hpid, fun hticks => hs.active hpid.find_ne (hactive hticks)⟩

/-- The quantum ends. -/
theorem setTicks (h : V.Manned) : ({ V with ticks := QUANTUM } : View).Manned :=
  h.of_eq (fun _ hpid => hpid.congr rfl rfl) (fun hticks => absurd hticks (lt_irrefl _)) rfl rfl

end View.Manned

namespace Rep

/-- A change of a process that no scan sees. -/
theorem manned_same {d : ProcessView} (hr : Rep k V) (hok : V.Ok) (hV : V.Manned) (hc : c ∈ V.table)
    (hnode : d.node = c.node) (hpid : d.val.pid = c.val.pid) (hstate : d.val.state = c.val.state)
    (hthreads : d.threadState = c.threadState) : (V.set c d).Manned := by
  obtain ⟨hthread, hprocess⟩ := hr.states_set hok hc d hpid hstate hthreads
  exact hV.of_eq (fun _ h => hr.currentPid_set hc hnode hpid h) id hprocess hthread

theorem manned_scheduled (hr : Rep k V) (hok : V.Ok) (hV : V.Manned) (h : Scheduled V V') :
    V'.Manned := by
  refine hV.switched (hr.switched_scheduled hok h) (fun _ h => hok.processState_of_reaps h.2) ?_
  obtain ⟨pid, hpid, hturn⟩ := hV.current
  cases h with
  | @count c hc _ hticks _ =>
      have hset : (V.set c (c.setTick (c.val.threadTick + 1))).CurrentPid pid :=
        hr.currentPid_set hc rfl rfl hpid
      exact ⟨pid, hset.congr rfl rfl, fun _ => hturn hticks⟩
  | @thread c t u hc _ _ _ hticks _ _ =>
      have hnode := (c.setTick 0).switchThread_node t u
      have hval : ((c.setTick 0).switchThread t u).val.pid = c.val.pid := by
        rw [ProcessView.switchThread_val]
        rfl
      exact ⟨pid, (hr.currentPid_set hc hnode hval hpid).congr rfl rfl, fun _ => hturn hticks⟩
  | @process s _ hs =>
      have hleft := View.mem_reap_of_nextProcess hr.queue.nodup hs
      have hstate := hok.processState_eq (View.mem_of_mem_reap hr.queue.nodup hleft)
      have hawake := ProcessView.awake_of_runnable (List.find?_some hs)
      have hmem : s.setState .RUNNING ∈ (V.switch s).table := List.mem_map.mpr ⟨s, hleft, if_pos rfl⟩
      exact ⟨s.val.pid, ⟨_, hmem, rfl, rfl⟩, fun _ => hV.active _ ⟨_, hstate, hawake⟩⟩

theorem manned_stop (hr : Rep k V) (hok : V.Ok) (hV : V.Manned) (hc : c ∈ V.table) :
    (V.set c (c.setTick THREAD_QUANTUM)).Manned :=
  hr.manned_same hok hV hc rfl rfl rfl rfl

theorem manned_yielded (hr : Rep k V) (hok : V.Ok) (hV : V.Manned) (hc : c ∈ V.table)
    (h : Yielded V c t V') : V'.Manned := by
  cases h with
  | process _ hs => exact (hr.setTicks QUANTUM).manned_scheduled (hok.setTicks _) hV.setTicks hs
  | thread _ _ hs =>
      obtain ⟨k₁, -, hr₁⟩ := hr.setTick hc THREAD_QUANTUM
      have hok₁ := hr.ok_set hok hc ((hok.processes c hc).setTick THREAD_QUANTUM) rfl rfl id
      exact hr₁.manned_scheduled hok₁ (hr.manned_stop hok hV hc) hs
  | stay _ _ => exact hV

/-! ### Blocks

A block takes a candidate away from the scans. Either the process has another ready thread, or it
is blocked as well and another process goes on. -/

theorem active_of_otherReady (hr : Rep k V) (hok : V.Ok) (h : k.OtherReady τ) :
    ∃ i, i ≠ τ.2 ∧ V.threadState (τ.1, i) = some .T_READY := by
  obtain ⟨fuel, a, hget, ha, i, hi, hne, hready⟩ := h
  obtain ⟨q, hq, hqpid, rfl⟩ := hr.process_of_getProcess hget ha
  rw [(hr.processes q hq).val] at hi
  have hlen : i < q.threads.length := by
    have := (hok.processes q hq).size_le
    omega
  rw [hr.ringThread hq hlen] at hne hready
  refine ⟨_, hne, ?_⟩
  rw [← hqpid, hok.threadState_eq hq (List.getElem_mem hlen), hready]

/-- Either another thread of the process goes on, or another process. -/
theorem manned_blocked (hr : Rep k V) (hok : V.Ok) (hV : V.Manned) (hp : p ∈ V.table)
    (ht : t ∈ p.threads) (hb : V.Blocked p t ty V') (hty : isThreadBlocked ty)
    (hothers : k.OtherAwake p.val.pid ∨ k.OtherReady (p.val.pid, t.val.pthread)) : V'.Manned := by
  have hframe := p.sameFrame_block t.addr ty
  have hcur : ∀ pid, V.CurrentPid pid → V'.CurrentPid pid := fun _ h =>
    (hr.currentPid_set hp hframe.node hframe.pid h).congr hb.table hb.current
  have hprocess := (View.processState_congr hb.table).trans (hr.processState_block hok hp t.addr ty)
  have hthread := (View.threadState_congr hb.table).trans (hr.threadState_block hok hp ht ty)
  have hticks : V'.ticks = if (p.block t.addr ty).noneReady then QUANTUM else V.ticks := hb.ticks
  -- was `p` blocked with its thread, or does another thread of it go on?
  cases hnone : (p.block t.addr ty).noneReady with
  | true =>
      rw [hnone, if_pos rfl] at hprocess hticks
      have hother : k.OtherAwake p.val.pid := by
        refine hothers.resolve_right fun hready => ?_
        rw [hr.noneReady_of_otherReady hok hp ht hready ty] at hnone
        cases hnone
      have hasleep : (getBlockProcessType ty).awake = false := by
        cases ty with
        | T_BLOCKED_IO => rfl
        | T_BLOCKED_MUTEX => rfl
        | T_BLOCKED_PIPE => rfl
        | _ => cases hty
      have hawake : ∀ i, V'.Awake i ↔ i ≠ p.val.pid ∧ V.Awake i := by
        intro i
        rw [View.awake_update hprocess, hasleep]
        simp
      obtain ⟨i, hi⟩ := (hr.otherAwake_iff hok).mp hother
      -- the quantum is over, so the next scan is for a process, and `other` is awake
      refine hV.of_maps hcur (fun hlt => absurd (hticks ▸ hlt) (lt_irrefl _)) ⟨i, (hawake i).mpr hi⟩
        (fun j hj => .inl ((hawake j).mp hj).2) fun j hj hactive => ?_
      rcases hj with hj | ⟨-, hlt⟩
      · exact hactive.update hthread (.inr ((hawake j).mp hj).1.symm)
      · exact absurd (hticks ▸ hlt) (lt_irrefl _)
  | false =>
      rw [hnone, if_neg Bool.false_ne_true] at hprocess hticks
      rw [← hok.processState_eq hp, Function.update_eq_self] at hprocess
      have hother := hr.otherReady_of_noneReady hok hp ht hty hnone
      obtain ⟨i, hi, hready⟩ := hr.active_of_otherReady hok hother
      have hawake : V'.Awake = V.Awake := by
        unfold View.Awake
        rw [hprocess]
      -- no process has changed, and `p` has a ready thread
      refine hV.of_maps hcur (fun hlt => hticks ▸ hlt) ?_ (fun j hj => .inl ?_) fun j _ hactive => ?_
      · rw [hawake]
        exact hV.someone
      · rwa [hawake] at hj
      · by_cases hj : j = p.val.pid
        · subst hj
          refine .of_ready (i := i) ?_
          rw [hthread, Function.update_of_ne fun heq => hi (congrArg Prod.snd heq)]
          exact hready
        · exact hactive.update hthread (.inr fun heq => hj heq.symm)

/-! ### Kills

A kill takes a process or a thread out for good. The condition asks for another one to choose. -/

theorem manned_kill (hr : Rep k V) (hok : V.Ok) (hV : V.Manned) (hp : p ∈ V.table)
    (hother : k.OtherAwake p.val.pid) : (V.kill p).Manned := by
  have hawake : ∀ i, (V.kill p).Awake i ↔ i ≠ p.val.pid ∧ V.Awake i := by
    intro i
    rw [View.awake_update (hr.processState_kill hok hp)]
    simp [ProcessState.awake]
  have hset : ∀ pid, V.CurrentPid pid → (V.set p (p.setState .DEAD)).CurrentPid pid := fun _ h =>
    hr.currentPid_set hp rfl rfl h
  obtain ⟨i, hi⟩ := (hr.otherAwake_iff hok).mp hother
  refine hV.of_maps (fun _ h => (hset _ h).congr rfl rfl) id ⟨i, (hawake i).mpr hi⟩
    (fun j hj => .inl ((hawake j).mp hj).2) fun j _ hactive => ?_
  unfold View.Active
  rw [hr.threadState_kill hok hp]
  exact hactive

/-- The process that loses a thread goes on with another one, or does not go on. -/
theorem manned_killThread (hr : Rep k V) (hok : V.Ok) (hV : V.Manned) (hp : p ∈ V.table)
    (ht : t ∈ p.threads) (hlast : p.val.threadSize = 1 → k.OtherAwake p.val.pid)
    (hactive : k.Awake p.val.pid ∧ ¬ k.LastThread p.val.pid ∨
      BasicKernel.getCurrentPid k = .ok p.val.pid ∧ k.numberOfTicks < QUANTUM →
        k.ActiveBut p.val.pid (· = t.val.pthread)) : (V.killThread p t.addr).Manned := by
  have hprocess := hr.processState_killThread hok hp t.addr
  have hthread := hr.threadState_killThread hok hp ht
  have hset : ∀ pid, V.CurrentPid pid → (V.set p (p.killThread t.addr)).CurrentPid pid := by
    intro pid h
    refine hr.currentPid_set hp ?_ (killThread_pid p t.addr) h
    unfold ProcessView.killThread ProcessView.loseThread
    split <;> rfl
  have hticks : (V.killThread p t.addr).ticks = V.ticks := rfl
  rw [hr.awake_iff hok, hr.lastThread_iff hok hp, hr.currentPid_iff hok, hr.ticks,
    hr.activeBut_iff hok] at hactive
  -- who is awake afterwards was awake before, and `p` only if it has a thread left
  have hawake : ∀ i, (V.killThread p t.addr).Awake i → V.Awake i ∧
      (i = p.val.pid → ¬ p.val.threadSize = 1) := by
    intro i hi
    rcases (View.awake_update hprocess).mp hi with ⟨rfl, hstate⟩ | ⟨hne, hbefore⟩
    · split at hstate
      case isTrue _ => cases hstate
      case isFalse hsize => exact ⟨⟨_, hok.processState_eq hp, hstate⟩, fun _ => hsize⟩
    · exact ⟨hbefore, fun heq => absurd heq hne⟩
  refine hV.of_maps (fun _ h => (hset _ h).congr rfl rfl) (fun hlt => hticks ▸ hlt) ?_
    (fun i hi => .inl (hawake i hi).1) fun i hi hbefore => ?_
  -- someone is awake: another process, or the one that was
  · by_cases hsize : p.val.threadSize = 1
    · obtain ⟨i, hi, hother⟩ := (hr.otherAwake_iff hok).mp (hlast hsize)
      exact ⟨i, (View.awake_update hprocess).mpr (.inr ⟨hi, hother⟩)⟩
    · rw [if_neg hsize, ← hok.processState_eq hp, Function.update_eq_self] at hprocess
      obtain ⟨i, hi⟩ := hV.someone
      refine ⟨i, ?_⟩
      unfold View.Awake
      rw [hprocess]
      exact hi
  -- the process that loses the thread has another one that is awake
  · by_cases hpid : i = p.val.pid
    · subst hpid
      obtain ⟨j, s, hj, hs, hsawake⟩ := by
        refine hactive (hi.imp (fun hi => ?_) fun hi => ?_)
        · exact ⟨(hawake _ hi).1, (hawake _ hi).2 rfl⟩
        · exact ⟨hi.1, hticks ▸ hi.2⟩
      refine ⟨j, s, ?_, hsawake⟩
      rw [hthread, Function.update_of_ne fun heq => hj (congrArg Prod.snd heq), hs]
    · exact hbefore.update hthread (.inr fun heq => hpid heq.symm)

/-! ### Wake-ups

A process that is woken becomes a candidate, whether one of its threads is woken or not. The
condition asks for one that is. -/

theorem currentPid_wakeAll {ws : List WaiterView} (h : WakeAll ws V V') :
    ∀ {k : Kernel}, Rep k V → V.Ok → V.CurrentPid pid → V'.CurrentPid pid := by
  induction h with
  | nil => exact fun _ _ hcur => hcur
  | @cons w ws V V' p t hp hpid ht hpthread _ ih =>
      intro k hr hok hcur
      obtain ⟨k₁, -, hr₁⟩ := hr.unblockThread hok hp ht .T_BLOCKED_MUTEX
      have hframe := p.sameFrame_unblock t .T_BLOCKED_MUTEX
      exact ih hr₁ (hr.ok_unblock hok hp t _) (hr.currentPid_set hp hframe.node hframe.pid hcur)

/-- A process that wakes has a thread that wakes with it, or one that is awake. -/
theorem manned_unblock (hr : Rep k V) (hok : V.Ok) (hV : V.Manned) (hp : p ∈ V.table)
    (ht : t ∈ p.threads) (hwakes : p.val.state = getBlockProcessType ty →
      V.Active p.val.pid ∨ t.val.state = ty) : (V.set p (p.unblock t ty)).Manned := by
  have hframe := p.sameFrame_unblock t ty
  have hthread := hr.threadState_unblock hok hp ht ty
  have hprocess := hr.processState_unblock hok hp t ty
  have hthreads : ∀ τ, (V.set p (p.unblock t ty)).threadState τ = V.threadState τ ∨
      (V.set p (p.unblock t ty)).threadState τ = some .T_READY := by
    intro τ
    rw [hthread]
    by_cases hτ : τ = (p.val.pid, t.val.pthread)
    · subst hτ
      rw [Function.update_self]
      split
      · exact .inr rfl
      · exact .inl (hok.threadState_eq hp ht).symm
    · exact .inl (Function.update_of_ne hτ _ _)
  refine hV.woken (fun _ h => hr.currentPid_set hp hframe.node hframe.pid h) rfl (fun pid => ?_) hthreads
  rw [hprocess]
  -- only `p` can have been woken, and then one of its threads can run
  by_cases hpid : pid = p.val.pid
  · subst hpid
    rw [Function.update_self]
    split
    case isTrue hblocked =>
        refine .inr ⟨rfl, ?_⟩
        rcases hwakes hblocked with hactive | hwoken
        · exact hactive.woken hthreads
        · refine .of_ready (i := t.val.pthread) ?_
          rw [hthread, Function.update_self, if_pos hwoken]
    case isFalse _ => exact .inl (hok.processState_eq hp).symm
  · exact .inl (Function.update_of_ne hpid _ _)

theorem manned_unblockAll (hr : Rep k V) (hok : V.Ok) (hV : V.Manned) (hp : p ∈ V.table)
    (ty : ThreadState) : (V.set p (p.unblockAll ty)).Manned := by
  have hframe := p.sameFrame_unblockAll ty
  have haddrs := hr.threadAddrs_nodup hp
  refine hV.woken (fun _ h => hr.currentPid_set hp hframe.node hframe.pid h) rfl (fun pid => ?_)
    fun τ => (hr.threadState_unblockAll hok hp ty τ).imp_right And.right
  rw [hr.processState_set hok.toNumbered hp hframe.pid]
  by_cases hpid : pid = p.val.pid
  · subst hpid
    rw [Function.update_self, ProcessView.unblockAll_val haddrs]
    split
    case isTrue hwoken =>
        obtain ⟨t, ht, hstate⟩ := hwoken
        unfold ProcessNode.wake
        split
        case isTrue _ =>
            refine .inr ⟨rfl, .of_ready (i := t.val.pthread) ?_⟩
            have hmem : t.setVal (fun v => { v with state := .T_READY }) ∈ (p.unblockAll ty).threads := by
              rw [ProcessView.unblockAll_threads haddrs]
              refine List.mem_map.mpr ⟨t, List.mem_of_mem_take ht, if_pos ⟨?_, hstate⟩⟩
              exact List.mem_map_of_mem ht
            have hfind := (hr.ok_unblockAll hok hp ty).threadState_eq (View.mem_set hp _) hmem
            rw [hframe.pid] at hfind
            exact hfind
        case isFalse _ => exact .inl (hok.processState_eq hp).symm
    case isFalse _ => exact .inl (hok.processState_eq hp).symm
  · exact .inl (Function.update_of_ne hpid _ _)

theorem manned_wakeReceiver {pid : Int} (h : WakeReceiver pid V V') :
    ∀ {k : Kernel}, Rep k V → V.Ok → V.Manned → V'.Manned := by
  induction h with
  | nil => exact fun _ _ hV => hV
  | @cons V _ p hp _ _ ih =>
      intro k hr hok hV
      obtain ⟨k₁, -, hr₁⟩ := hr.unblockAllThreads hok hp .T_BLOCKED_PIPE
      exact ih hr₁ (hr.ok_unblockAll hok hp _) (hr.manned_unblockAll hok hV hp _)

theorem manned_unlocks {κ : LockKind} {l : LockView} {status : Int} (hr : Rep k V) (hok : V.Ok)
    (hV : V.Manned) (h : V.Unlocks κ l status V')
    (hwakes : ∀ w ∈ l.waiters, V.processState w.pid = some .BLOCKED_MUTEX →
      V.Active w.pid ∨ ∃ v ∈ l.waiters, v.pid = w.pid ∧ V.threadState v.id = some .T_BLOCKED_MUTEX) :
    V'.Manned := by
  obtain ⟨V₁, hwoken, hthread, hprocess, -⟩ := hr.unlocks hok h
  have hcur : ∀ pid, V.CurrentPid pid → V'.CurrentPid pid := by
    obtain ⟨V₂, hwake, rfl⟩ := h
    exact fun _ hpid => (currentPid_wakeAll hwake hr hok hpid).congr (View.setLock_table _ _ _ _)
      (View.setLock_current _ _ _ _)
  have hticks : V'.ticks = V.ticks := by
    obtain ⟨V₂, hwake, rfl⟩ := h
    rw [View.setLock_ticks, hwake.frame]
  -- a wake-up loop only makes threads ready
  have hthreads : ∀ τ, V'.threadState τ = V.threadState τ ∨ V'.threadState τ = some .T_READY := by
    intro τ
    rw [hthread, hwoken.threads]
    split
    · exact .inr rfl
    · exact .inl rfl
  refine hV.woken hcur hticks (fun pid => ?_) hthreads
  rw [hprocess, hwoken.processes]
  split
  case isTrue hblocked =>
      obtain ⟨hmem, hstate⟩ := hblocked
      obtain ⟨w, hw, rfl⟩ := List.mem_map.mp hmem
      refine .inr ⟨rfl, ?_⟩
      rcases hwakes w hw hstate with hactive | ⟨v, hv, hpid, hv'⟩
      · exact hactive.woken hthreads
      · rw [← hpid]
        refine .of_ready (i := v.pthread) ?_
        rw [hthread, hwoken.threads]
        exact if_pos ⟨List.mem_map_of_mem hv, hv'⟩
  case isFalse _ => exact .inl rfl

/-! ### All events

The cases are put together here. What the condition says of the memory is read on the view
first. -/

theorem wakes_mutexUp_iff {id : Int} {l : LockView} (hr : Rep k V) (hl : V.lockWith .mutex id = some l) :
    (KernelOp.mutexUp id).Wakes k τ ty ↔ ty = .T_BLOCKED_MUTEX ∧ τ ∈ l.ids := by
  have hmem := mem_of_lockWith hl
  have hfind := hr.findLock .mutex id
  rw [hl] at hfind
  refine and_congr_right fun _ => ⟨?_, fun hτ => ?_⟩
  · rintro ⟨fuel, a, hget, -, hwaiter⟩
    obtain rfl : a = l.addr := hfind.eq hget
    exact (hr.waiter_iff hmem).mp hwaiter
  · obtain ⟨fuel, hget⟩ := hfind.exists_fuel
    exact ⟨fuel, l.addr, hget, hr.lock_ne_null hmem, (hr.waiter_iff hmem).mpr hτ⟩

theorem wakes_semaphoreUp_iff {id : Int} {l : LockView} (hr : Rep k V)
    (hl : V.lockWith .semaphore id = some l) (hstatus : 0 ≤ l.raised) :
    (KernelOp.semaphoreUp id).Wakes k τ ty ↔ ty = .T_BLOCKED_MUTEX ∧ τ ∈ l.ids := by
  have hmem := mem_of_lockWith hl
  have hfind := hr.findLock .semaphore id
  rw [hl] at hfind
  refine and_congr_right fun _ => ⟨?_, fun hτ => ?_⟩
  · rintro ⟨fuel, a, hget, -, -, hwaiter⟩
    obtain rfl : a = l.addr := hfind.eq hget
    exact (hr.waiter_iff hmem).mp hwaiter
  · obtain ⟨fuel, hget⟩ := hfind.exists_fuel
    refine ⟨fuel, l.addr, hget, hr.lock_ne_null hmem, ?_, (hr.waiter_iff hmem).mpr hτ⟩
    rw [((hr.locks .semaphore).locks l hmem).status]
    exact hstatus

/-- What a wake-up by a lock asks for, on the view. -/
theorem wakes_waiters {l : LockView} (hr : Rep k V) (hok : V.Ok) (hkeeps : KeepsScans k op)
    (hwakes : ∀ τ ty, op.Wakes k τ ty ↔ ty = .T_BLOCKED_MUTEX ∧ τ ∈ l.ids) (w : WaiterView)
    (hw : w ∈ l.waiters) (hstate : V.processState w.pid = some .BLOCKED_MUTEX) :
    V.Active w.pid ∨ ∃ v ∈ l.waiters, v.pid = w.pid ∧ V.threadState v.id = some .T_BLOCKED_MUTEX := by
  have hop := (hwakes w.id .T_BLOCKED_MUTEX).mpr ⟨rfl, List.mem_map_of_mem hw⟩
  rcases hkeeps.wakes _ _ hop ((hr.processIs_iff hok).mpr hstate) with hactive | ⟨σ, hσ, hpid, hthread⟩
  · obtain ⟨i, s, -, hs, hawake⟩ := (hr.activeBut_iff hok).mp hactive
    exact .inl ⟨i, s, hs, hawake⟩
  · obtain ⟨v, hv, rfl⟩ := List.mem_map.mp ((hwakes _ _).mp hσ).2
    exact .inr ⟨v, hv, hpid, (hr.threadIs_iff hok).mp hthread⟩

theorem manned_effect (hr : Rep k V) (hok : V.Ok) (h : Effect k V op V')
    (hreceive : ∀ name buff, op = .receive name buff → V' = V ∨ k.PipeEmpty name buff)
    (hkeeps : KeepsScans k op) (hV : V.Manned) : V'.Manned := by
  -- one case for each effect; a switch leaves a process and a thread running, whichever it was
  cases h with
  | idle _ => exact hV
  | @tick _ rsp c t _ hc ht hccur htcur hs =>
      obtain ⟨k₁, -, hr₁⟩ := hr.saveStack hc hccur ht htcur rsp
      have hV₁ := hr.manned_same hok hV hc (d := c.saveStack t.addr rsp) rfl rfl rfl (by simp)
      exact hr₁.manned_scheduled (hr.ok_saveStack hok hc t.addr rsp) hV₁ hs
  | @yield _ rsp c t _ hc ht hccur htcur hy =>
      obtain ⟨k₁, -, hr₁⟩ := hr.saveStack hc hccur ht htcur rsp
      have hV₁ := hr.manned_same hok hV hc (d := c.saveStack t.addr rsp) rfl rfl rfl (by simp)
      exact hr₁.manned_yielded (hr.ok_saveStack hok hc t.addr rsp) hV₁ (View.mem_set hc _) hy
  | @addProcess _ _ _ p hp =>
      have hprocess := hok.processState_addProcess hp
      have hthread := hok.threadState_addProcess hp
      have hawake := fun i => View.awake_update (i := i) hprocess
      -- the new process is ready, and so is its thread
      refine hV.of_maps ?_ id ⟨V.nextPid, (hawake _).mpr (.inl ⟨rfl, rfl⟩)⟩ (fun i hi => ?_)
        fun i _ hactive => hactive.update hthread (.inl rfl)
      · rintro pid ⟨c, hc, hcur, hpid⟩
        exact ⟨c, mem_insertSecond.mpr (.inr hc), hcur, hpid⟩
      · rcases (hawake i).mp hi with ⟨rfl, -⟩ | ⟨-, hbefore⟩
        · refine .inr (.of_ready (i := 0) ?_)
          rw [hthread, Function.update_self]
        · exact .inl hbefore
  | @addThread _ _ _ p t hp _ ht =>
      exact hV.of_update (fun _ h => hr.currentPid_set hp rfl rfl h) rfl
        (hr.processState_addThread hok hp t) (hr.threadState_addThread hok hp ht) rfl
  | @removeProcess pid p hp hpid hguard =>
      exact hr.manned_kill hok hV hp (hkeeps.process _ ⟨hpid.symm, hpid ▸ hguard⟩)
  | @removeThread pid pthread p t hp ht hpid hpthread hguard hmain =>
      subst hpid hpthread
      refine hr.manned_killThread hok hV hp ht (fun hsize => hkeeps.process _ ?_)
        (hkeeps.thread (p.val.pid, t.val.pthread) ⟨hguard, hmain, rfl⟩)
      exact ⟨rfl, hguard, hmain, (hr.lastThread_iff hok hp).mpr hsize⟩
  -- the current process is not removed: that is part of what `Sound` asks
  | removeDeadProcess =>
      refine hV.switched (Switched.reap hok.toNumbered hr.queue.nodup)
        (fun _ h => hok.processState_of_reaps h) ?_
      obtain ⟨p, hp, hcur⟩ := (hkeeps.sound V hr).2
      obtain ⟨pid, ⟨c, hc, hccur, hpid⟩, hturn⟩ := hV.current
      have hpV := View.mem_of_mem_reap hr.queue.nodup hp
      obtain rfl := eq_of_key_eq hr.queue.nodup hpV hc (hcur.trans hccur.symm)
      exact ⟨pid, ⟨p, hp, hcur, hpid⟩, hturn⟩
  | @blockThread _ _ ty p t hp ht hpid hpthread =>
      refine hr.manned_blocked hok hV hp ht (.of_block V p t ty) hkeeps.sound
        (hkeeps.blocks (p.val.pid, t.val.pthread) ?_)
      rw [hpid, hpthread]
      rfl
  | @unblockThread _ _ ty p t hp ht hpid hpthread =>
      subst hpid hpthread
      refine hr.manned_unblock hok hV hp ht fun hstate => ?_
      have hprocess : k.ProcessIs p.val.pid (getBlockProcessType ty) :=
        (hr.processIs_iff hok).mpr (by rw [hok.processState_eq hp, hstate])
      rcases hkeeps.wakes (p.val.pid, t.val.pthread) ty ⟨rfl, rfl⟩ hprocess with
        hactive | ⟨σ, ⟨-, rfl⟩, -, hthread⟩
      · obtain ⟨i, s, -, hs, hawake⟩ := (hr.activeBut_iff hok).mp hactive
        exact .inl ⟨i, s, hs, hawake⟩
      · rw [hr.threadIs_iff hok, hok.threadState_eq hp ht] at hthread
        exact .inr (Option.some.inj hthread)
  | @unblockAllThreads _ ty p hp _ => exact hr.manned_unblockAll hok hV hp ty
  | createMutex _ _ _ => exact hV.congr rfl rfl rfl
  | createSemaphore _ _ _ => exact hV.congr rfl rfl rfl
  | mutexUp hl hunlock =>
      exact hr.manned_unlocks hok hV hunlock
        (hr.wakes_waiters hok hkeeps fun _ _ => hr.wakes_mutexUp_iff hl)
  | mutexWait hl hstatus hwait =>
      obtain ⟨p, hp, t, ht, hcur, hblocked⟩ := hwait.blocked
      exact hr.manned_blocked hok hV hp ht hblocked rfl
        (hkeeps.blocks _ (hr.blocks_mutexDown hok hl hstatus hcur))
  | mutexTake _ _ => exact hV.setLocks _ _
  | mutexDestroy _ _ => exact hV.setLocks _ _
  | semaphoreCount _ _ => exact hV.setLocks _ _
  | semaphoreUp hl hstatus hunlock =>
      exact hr.manned_unlocks hok hV hunlock
        (hr.wakes_waiters hok hkeeps fun _ _ => hr.wakes_semaphoreUp_iff hl hstatus)
  | semaphoreWait hl hstatus hwait =>
      obtain ⟨p, hp, t, ht, hcur, hblocked⟩ := hwait.blocked_of_setLock
      exact hr.manned_blocked hok hV hp ht hblocked rfl
        (hkeeps.blocks _ (hr.blocks_semaphoreDown hok hl hstatus hcur))
  | semaphoreTake _ _ => exact hV.setLocks _ _
  | semaphoreDestroy _ _ => exact hV.setLocks _ _
  | send _ hwake => exact manned_wakeReceiver hwake hr hok hV
  | @receive _ _ fuel _ _ p t hreceiver hpthread hp ht hppid htpthread =>
      -- a read of a pipe with something in it blocks nobody
      rcases hreceive _ _ rfl with hsame | hempty
      · rw [hsame]
        exact hV
      · refine hr.manned_blocked hok hV hp ht (.of_block V p t _) rfl
          (hkeeps.blocks (p.val.pid, t.val.pthread) ⟨hempty, ⟨fuel, ?_⟩, ?_⟩)
        · rw [hreceiver, hppid]
        · rw [hpthread, htpthread]
  | @pmalloc _ c b hc _ _ => exact hr.manned_same hok hV hc rfl rfl rfl rfl
  | @pfree _ c b A B hc _ _ _ => exact hr.manned_same hok hV hc rfl rfl rfl rfl

end Rep

theorem View.AtBoot.manned (hok : V.Ok) (h : V.AtBoot) : V.Manned := by
  have hactive : ∀ p ∈ V.table, V.Active p.val.pid := by
    intro p hp
    obtain ⟨entryPoint, pid, hcreated⟩ := h.created hp
    obtain ⟨t, ts, hts, -⟩ := (hok.processes p hp).main
    have hmem : t ∈ p.threads := hts ▸ List.mem_cons_self
    refine .of_ready (i := t.val.pthread) ?_
    rw [hok.threadState_eq hp hmem, (hcreated.thread hmem).state]
  obtain ⟨p, ps, hps, -⟩ := hok.main
  have hp : p ∈ V.table := hps ▸ List.mem_cons_self
  obtain ⟨entryPoint, pid, hcreated⟩ := h.created hp
  obtain ⟨c, hc, hcur⟩ := hok.current
  refine ⟨⟨p.val.pid, p.val.state, hok.processState_eq hp, ?_⟩, fun pid hpid => ?_,
    c.val.pid, ⟨c, hc, hcur, rfl⟩, fun _ => hactive c hc⟩
  · rw [hcreated.state]
    rfl
  · obtain ⟨s, hs, -⟩ := hpid
    obtain ⟨q, hq, rfl, -⟩ := hok.processState_some.mp hs
    exact hactive q hq

end BasicKernel
