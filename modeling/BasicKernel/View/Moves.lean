import BasicKernel.View.Observe

set_option autoImplicit false

/-! # What a switch does to the states

A timer tick and a yield only exchange the states ready and running, and remove processes that are
dead. The wake-up loops only make waiting threads ready.
-/

namespace BasicKernel

open Keyed Fuel

/-- The thread may be chosen by the scheduler. -/
def ThreadState.awake (s : ThreadState) : Bool := s = .T_READY ∨ s = .T_RUNNING

/-- The process may be chosen by the scheduler. -/
def ProcessState.awake (s : ProcessState) : Bool := s = .READY ∨ s = .RUNNING

/-- An entry of a state map stays what it is, or goes from one waking state to another. -/
inductive Dispatched {σ : Type} (awake : σ → Bool) : Option σ → Option σ → Prop
  | same (s : Option σ) : Dispatched awake s s
  | moved {s s' : σ} : awake s → awake s' → Dispatched awake (some s) (some s')

/-- The process is dead and among those that `removeDeadProcess` visits. -/
def View.Reaps (V : View) (pid : Int) : Prop :=
  ∃ p ∈ V.table.take V.queueSize.toNat, p.val.pid = pid ∧ p.val.state = .DEAD

/-- What a switch does to the two state maps. Only processes in `gone` are removed. -/
structure Switched (gone : Int → Prop) (V V' : View) : Prop where
  threads : ∀ τ, gone τ.1 ∧ V'.find τ.1 = none ∨
    Dispatched ThreadState.awake (V.threadState τ) (V'.threadState τ)
  processes : ∀ pid, gone pid ∧ V'.find pid = none ∨
    Dispatched ProcessState.awake (V.processState pid) (V'.processState pid)
  locks : ∀ κ, V'.locks κ = V.locks κ

theorem Dispatched.trans {σ : Type} {awake : σ → Bool} {a b c : Option σ}
    (h : Dispatched awake a b) (h' : Dispatched awake b c) : Dispatched awake a c := by
  cases h with
  | same => exact h'
  | moved ha hb =>
      cases h' with
      | same => exact .moved ha hb
      | moved _ hc => exact .moved ha hc

/-- A sleeping state is kept. -/
theorem Dispatched.eq_of_asleep {σ : Type} {awake : σ → Bool} {a b : Option σ}
    (h : Dispatched awake a b) {s : σ} (hs : awake s = false) : a = some s ↔ b = some s := by
  cases h with
  | same => rfl
  | @moved u v hu hv =>
      constructor
      · rintro ⟨⟩
        rw [hu] at hs
        cases hs
      · rintro ⟨⟩
        rw [hv] at hs
        cases hs

theorem Switched.of_eq {gone : Int → Prop} {V V' : View} (hthread : V'.threadState = V.threadState)
    (hprocess : V'.processState = V.processState) (hlocks : ∀ κ, V'.locks κ = V.locks κ) :
    Switched gone V V' := by
  refine ⟨fun τ => .inr ?_, fun pid => .inr ?_, hlocks⟩
  · rw [hthread]
    exact .same _
  · rw [hprocess]
    exact .same _

/-- A change first that the maps do not show. -/
theorem Switched.of_same {gone gone' : Int → Prop} {V V₁ V' : View} (h : Switched gone V₁ V')
    (hgone : ∀ pid, gone pid → gone' pid) (hthread : V₁.threadState = V.threadState)
    (hprocess : V₁.processState = V.processState) (hlocks : ∀ κ, V₁.locks κ = V.locks κ) :
    Switched gone' V V' := by
  refine ⟨fun τ => ?_, fun pid => ?_, fun κ => (h.locks κ).trans (hlocks κ)⟩
  · rw [← hthread]
    exact (h.threads τ).imp_left fun h => ⟨hgone _ h.1, h.2⟩
  · rw [← hprocess]
    exact (h.processes pid).imp_left fun h => ⟨hgone _ h.1, h.2⟩

theorem View.Numbered.processState_of_reaps {V : View} {pid : Int} (h : V.Numbered)
    (hgone : V.Reaps pid) : V.processState pid = some .DEAD := by
  obtain ⟨p, hp, rfl, hdead⟩ := hgone
  rw [h.processState_eq (List.mem_of_mem_take hp), hdead]

/-- A waking entry gets another waking state. -/
theorem Dispatched.update {σ κ : Type} [DecidableEq κ] {awake : σ → Bool} {f : κ → Option σ} {a : κ}
    {s s' : σ} (ha : f a = some s) (hs : awake s) (hs' : awake s') (b : κ) :
    Dispatched awake (f b) (Function.update f a (some s') b) := by
  by_cases hb : b = a
  · subst hb
    rw [Function.update_self, ha]
    exact .moved hs hs'
  · rw [Function.update_of_ne hb]
    exact .same _

/-! ## What else stays

The pages that no node accounts for, such as the stacks, are neither given out again nor given
back by a switch or a wake-up. -/

section Frame

variable {V V' : View}

theorem Scheduled.frame (h : Scheduled V V') :
    V' = { V with table := V'.table, current := V'.current, ticks := V'.ticks } := by
  cases h <;> rfl

theorem Yielded.frame {c : ProcessView} {t : ThreadView} (h : Yielded V c t V') :
    V' = { V with table := V'.table, current := V'.current, ticks := V'.ticks } := by
  cases h with
  | process _ hs => exact hs.frame
  | thread _ _ hs => exact hs.frame
  | stay _ _ => rfl

theorem WakeAll.frame {ws : List WaiterView} (h : WakeAll ws V V') :
    V' = { V with table := V'.table } := by
  induction h with
  | nil => rfl
  | cons _ _ _ _ _ ih => exact ih

theorem WakeReceiver.frame {pid : Int} (h : WakeReceiver pid V V') :
    V' = { V with table := V'.table } := by
  induction h with
  | nil => rfl
  | cons _ _ _ ih => exact ih

end Frame

theorem View.Unlocks.others {κ : LockKind} {l : LockView} {status : Int} {V V' : View}
    (h : V.Unlocks κ l status V') : V'.others = V.others := by
  obtain ⟨V₁, hwake, rfl⟩ := h
  rw [View.setLock_others, hwake.frame]

theorem View.Waits.others {κ : LockKind} {l : LockView} {V V' : View} (h : V.Waits κ l V') :
    V'.others = V.others := by
  obtain ⟨c, -, t, -, -, -, w, -, -, rfl⟩ := h
  exact View.setLock_others ..

/-- The pages that no node accounts for stay so. The name of a new process joins them. -/
theorem Effect.others {k : Kernel} {V V' : View} {op : KernelOp} (h : Effect k V op V') :
    ∃ extra, V'.others = extra ++ V.others := by
  have hkept : V'.others = V.others → ∃ extra, V'.others = extra ++ V.others := fun h => ⟨[], h⟩
  cases h with
  | addProcess _ => exact ⟨[_], rfl⟩
  | tick _ _ _ _ hs => exact hkept (by rw [hs.frame]; rfl)
  | yield _ _ _ _ hy => exact hkept (by rw [hy.frame]; rfl)
  | send _ hwake => exact hkept (by rw [hwake.frame])
  | mutexUp _ hunlock => exact hkept hunlock.others
  | semaphoreUp _ _ hunlock => exact hkept hunlock.others
  | mutexWait _ _ hwait => exact hkept hwait.others
  | semaphoreWait _ _ hwait => exact hkept (hwait.others.trans (View.setLock_others ..))
  | mutexTake _ _ => exact hkept (View.setLock_others ..)
  | mutexDestroy _ _ => exact hkept (View.setLocks_others ..)
  | semaphoreCount _ _ => exact hkept (View.setLock_others ..)
  | semaphoreTake _ _ => exact hkept (View.setLock_others ..)
  | semaphoreDestroy _ _ => exact hkept (View.setLocks_others ..)
  | _ => exact hkept rfl

/-! ## A switch of threads -/

section Thread

variable {k : Kernel} {V : View} {p : ProcessView} {t u : ThreadView}

theorem ProcessView.Ok.pauseThread (h : p.Ok) (t : ThreadView) : (p.pauseThread t).Ok := by
  rw [ProcessView.pauseThread, wakeThread]
  split
  · exact h.setThreadState _ (by decide)
  · exact h

theorem ProcessView.pauseThread_addrs (p : ProcessView) (t : ThreadView) :
    (p.pauseThread t).threads.map ThreadView.addr = p.threads.map ThreadView.addr := by
  rw [pauseThread, wakeThread]
  split
  · exact map_update fun _ _ _ => rfl
  · rfl

theorem ProcessView.threadState_dispatch (h : p.Ok) (haddrs : (p.threads.map ThreadView.addr).Nodup)
    (hu : u ∈ p.threads) :
    (p.dispatch u).threadState = Function.update p.threadState u.val.pthread (some .T_RUNNING) := by
  rw [dispatch, threadState_setThreadState
    (h.setVal (f := fun v => { v with currentThread := u.lib }) le_rfl rfl) hu
    fun w hw heq => eq_of_key_eq haddrs hw hu heq]
  rfl

/-- The paused thread and the chosen one go from one waking state to another. -/
theorem ProcessView.dispatched_switchThread (h : p.Ok)
    (haddrs : (p.threads.map ThreadView.addr).Nodup) (ht : t ∈ p.threads)
    (hu : p.nextReady t = some u) (q : Int) :
    Dispatched ThreadState.awake (p.threadState q) ((p.switchThread t u).threadState q) := by
  obtain ⟨hmem, hready⟩ := mem_of_nextReady hu
  have hpause := h.pauseThread t
  have hstate := hpause.threadState_eq hmem
  refine Dispatched.trans (b := (p.pauseThread t).threadState q) ?_ ?_
  · rw [pauseThread, threadState_wakeThread h ht fun w hw heq => eq_of_key_eq haddrs hw ht heq]
    have ht' := h.threadState_eq ht
    split
    case isTrue hrun => exact .update ht' (by simp [ThreadState.awake, hrun]) rfl q
    case isFalse =>
        rw [← ht', Function.update_eq_self]
        exact .same _
  · rw [switchThread, threadState_dispatch hpause (by rw [pauseThread_addrs]; exact haddrs) hmem]
    exact .update hstate (by simp [ThreadState.awake, hready]) rfl q

end Thread

/-! ## A switch of processes

The dead that the walk finds are gone. Everybody else has the state from before, but for the
process that is paused and the one that is chosen. -/

section Process

variable {V : View} {s : ProcessView}

theorem ProcessView.awake_of_runnable {current : Addr} {p : ProcessView} (h : p.runnable current) :
    p.val.state.awake := by
  simp only [ProcessView.runnable, decide_eq_true_eq] at h
  rcases h with hready | ⟨-, hrunning⟩
  · rw [hready]
    rfl
  · rw [hrunning]
    rfl

theorem View.Numbered.find_reap (h : V.Numbered) (hnd : (V.table.map ProcessView.node).Nodup)
    (pid : Int) : V.reap.find pid = (V.find pid).filter V.kept := by
  rw [View.find, View.reap_table hnd]
  exact find_filter h.pids _

theorem View.reaps_of_kept (hnd : (V.table.map ProcessView.node).Nodup) {p : ProcessView}
    (hp : p ∈ V.table) (h : V.kept p = false) : V.Reaps p.val.pid := by
  rw [View.kept, Bool.or_eq_false_iff, decide_eq_false_iff_not, not_not] at h
  obtain ⟨hdead, hmem⟩ := h
  obtain ⟨q, hq, hqp⟩ := List.mem_map.mp hmem
  obtain rfl := eq_of_key_eq hnd (List.mem_of_mem_take hq) hp hqp
  exact ⟨q, hq, rfl, by simpa [ProcessView.alive] using hdead⟩

/-- A process is removed, or stays with its threads. -/
theorem View.Numbered.find_switch (h : V.Numbered) (hnd : (V.table.map ProcessView.node).Nodup)
    (pid : Int) : (V.switch s).find pid = ((V.find pid).filter V.kept).map fun p =>
      if p.node = s.node then p.setState .RUNNING else p.pause V.current := by
  rw [← h.find_reap hnd]
  refine find_map fun p _ => ?_
  split
  · rfl
  · exact (p.sameFrame_pause _).pid

theorem ProcessView.threadState_pause (p : ProcessView) (current : Addr) :
    (p.pause current).threadState = p.threadState := by
  rw [pause]
  split <;> rfl

theorem ProcessView.pause_state (p : ProcessView) (current : Addr) :
    (p.pause current).val.state
      = if p.node = current ∧ p.val.state = .RUNNING then .READY else p.val.state := by
  rw [pause]
  split <;> rfl

theorem Switched.reap (h : V.Numbered) (hnd : (V.table.map ProcessView.node).Nodup) :
    Switched V.Reaps V V.reap := by
  refine ⟨fun τ => ?_, fun pid => ?_, fun κ => by cases κ <;> rfl⟩
  · rw [View.threadState, View.threadState, h.find_reap hnd]
    cases hf : V.find τ.1 with
    | none => exact .inr (.same _)
    | some p =>
        obtain ⟨hp, hpid⟩ := h.find_eq.mp hf
        cases hk : V.kept p with
        | true =>
            rw [Option.filter_some, if_pos hk]
            exact .inr (.same _)
        | false => exact .inl ⟨hpid ▸ View.reaps_of_kept hnd hp hk, by simp [hk]⟩
  · rw [View.processState, View.processState, h.find_reap hnd]
    cases hf : V.find pid with
    | none => exact .inr (.same _)
    | some p =>
        obtain ⟨hp, hpid⟩ := h.find_eq.mp hf
        cases hk : V.kept p with
        | true =>
            rw [Option.filter_some, if_pos hk]
            exact .inr (.same _)
        | false => exact .inl ⟨hpid ▸ View.reaps_of_kept hnd hp hk, by simp [hk]⟩

theorem Switched.process (h : V.Numbered) (hnd : (V.table.map ProcessView.node).Nodup)
    (hs : V.nextProcess = some s) : Switched V.Reaps V (V.switch s) := by
  have hsT : s ∈ V.table := mem_rotation.mp (List.mem_of_find?_eq_some hs)
  have hrun : s.runnable V.current := List.find?_some hs
  refine ⟨fun τ => ?_, fun pid => ?_, fun κ => by cases κ <;> rfl⟩
  -- a thread is gone with its process, or has a state that the pause may have changed
  · rw [View.threadState, View.threadState, h.find_switch hnd]
    cases hf : V.find τ.1 with
    | none => exact .inr (.same _)
    | some p =>
        obtain ⟨hp, hpid⟩ := h.find_eq.mp hf
        cases hk : V.kept p with
        | true =>
            right
            simp only [Option.filter_some, hk, if_true, Option.map_some, Option.bind_some]
            split
            · exact .same _
            · rw [ProcessView.threadState_pause]
              exact .same _
        | false => exact .inl ⟨hpid ▸ View.reaps_of_kept hnd hp hk, by simp [hk]⟩
  -- a process is gone, runs now, or is the one that was paused
  · rw [View.processState, View.processState, h.find_switch hnd]
    cases hf : V.find pid with
    | none => exact .inr (.same _)
    | some p =>
        obtain ⟨hp, hpid⟩ := h.find_eq.mp hf
        cases hk : V.kept p with
        | true =>
            right
            simp only [Option.filter_some, hk, if_true, Option.map_some]
            split
            case isTrue heq =>
                obtain rfl := eq_of_key_eq hnd hp hsT heq
                exact .moved (ProcessView.awake_of_runnable hrun) rfl
            case isFalse =>
                rw [ProcessView.pause_state]
                split
                case isTrue hpause => exact .moved (by simp [ProcessState.awake, hpause.2]) rfl
                case isFalse => exact .same _
        | false => exact .inl ⟨hpid ▸ View.reaps_of_kept hnd hp hk, by simp [hk]⟩

end Process

/-! ## Ticks and yields

Both interrupts first save a stack pointer, which no state map shows, and then do one of the
switches or none. -/

namespace Rep

variable {k : Kernel} {V V' : View} {c : ProcessView} {t u : ThreadView}

/-- A change of a process that keeps its state and its threads' states. -/
theorem states_set (hr : Rep k V) (hok : V.Ok) (hc : c ∈ V.table) (c' : ProcessView)
    (hpid : c'.val.pid = c.val.pid) (hstate : c'.val.state = c.val.state)
    (hthreads : c'.threadState = c.threadState) :
    (V.set c c').threadState = V.threadState ∧ (V.set c c').processState = V.processState := by
  refine ⟨hr.threadState_set_same hok.toNumbered hc hpid hthreads, ?_⟩
  rw [hr.processState_set hok.toNumbered hc hpid, hstate, ← hok.toNumbered.processState_eq hc,
    Function.update_eq_self]

theorem states_setTick (hr : Rep k V) (hok : V.Ok) (hc : c ∈ V.table) (n : Int) :
    (V.set c (c.setTick n)).threadState = V.threadState ∧
      (V.set c (c.setTick n)).processState = V.processState :=
  hr.states_set hok hc (c.setTick n) rfl rfl rfl

theorem states_saveStack (hr : Rep k V) (hok : V.Ok) (hc : c ∈ V.table) (a esp : Addr) :
    (V.set c (c.saveStack a esp)).threadState = V.threadState ∧
      (V.set c (c.saveStack a esp)).processState = V.processState :=
  hr.states_set hok hc (c.saveStack a esp) rfl rfl (by simp)

theorem switched_thread (hr : Rep k V) (hok : V.Ok) (hc : c ∈ V.table) (ht : t ∈ c.threads)
    (hu : c.nextReady t = some u) (gone : Int → Prop) (ticks : Int) :
    Switched gone V { V.set c ((c.setTick 0).switchThread t u) with ticks } := by
  have hval := (c.setTick 0).switchThread_val t u
  have hpid : ((c.setTick 0).switchThread t u).val.pid = c.val.pid := by
    rw [hval]
    rfl
  have hstate : ((c.setTick 0).switchThread t u).val.state = c.val.state := by
    rw [hval]
    rfl
  have hthread := hr.threadState_set hok.toNumbered hc hpid
  have hprocess := hr.processState_set hok.toNumbered hc hpid
  rw [hstate, ← hok.toNumbered.processState_eq hc, Function.update_eq_self] at hprocess
  refine ⟨fun τ => .inr ?_, fun pid => .inr ?_, fun κ => by cases κ <;> rfl⟩
  -- a thread of another process keeps its state, one of `c` is paused, dispatched or untouched
  · show Dispatched _ _ ((V.set c ((c.setTick 0).switchThread t u)).threadState τ)
    rw [hthread]
    split
    case isTrue h =>
        have hτ : V.threadState τ = (c.setTick 0).threadState τ.2 := by
          rw [ProcessView.threadState_setTick, ← hok.toNumbered.threadState_of_mem hc, ← h]
        rw [hτ]
        have haddrs : (c.threads.map ThreadView.addr).Nodup := hr.threadAddrs_nodup hc
        refine ProcessView.dispatched_switchThread ((hok.processes c hc).setTick 0) haddrs ht ?_ τ.2
        rw [ProcessView.nextReady_setTick]
        exact hu
    case isFalse => exact .same _
  · show Dispatched _ _ ((V.set c ((c.setTick 0).switchThread t u)).processState pid)
    rw [hprocess]
    exact .same _

theorem switched_scheduled (hr : Rep k V) (hok : V.Ok) (h : Scheduled V V') :
    Switched (fun pid => ¬ V.ticks < QUANTUM ∧ V.Reaps pid) V V' := by
  cases h with
  | @count c hc _ _ _ =>
      obtain ⟨hthread, hprocess⟩ := hr.states_setTick hok hc (c.val.threadTick + 1)
      exact .of_eq ((View.threadState_congr rfl).trans hthread)
        ((View.processState_congr rfl).trans hprocess) fun κ => by cases κ <;> rfl
  | @thread c t u hc _ ht _ _ _ hu => exact hr.switched_thread hok hc ht hu _ _
  | process hticks hs =>
      exact (Switched.process hok.toNumbered hr.queue.nodup hs).of_same (fun _ h => ⟨hticks, h⟩) rfl
        rfl fun _ => rfl

/-- A change of a process that keeps its pid and its state. -/
theorem reaps_set (hr : Rep k V) (hc : c ∈ V.table) (c' : ProcessView)
    (hpid : c'.val.pid = c.val.pid) (hstate : c'.val.state = c.val.state) (pid : Int)
    (h : (V.set c c').Reaps pid) : V.Reaps pid := by
  obtain ⟨q, hq, hqpid, hdead⟩ := h
  simp only [View.set, Keyed.update, ← List.map_take, List.mem_map] at hq
  obtain ⟨p, hp, rfl⟩ := hq
  refine ⟨p, hp, ?_⟩
  split at hqpid
  case isTrue heq =>
      obtain rfl := hr.eq_of_addr (List.mem_of_mem_take hp) hc heq
      rw [if_pos rfl, hstate] at hdead
      exact ⟨hpid ▸ hqpid, hdead⟩
  case isFalse hne =>
      rw [if_neg hne] at hdead
      exact ⟨hqpid, hdead⟩

theorem switched_yielded (hr : Rep k V) (hok : V.Ok) (hc : c ∈ V.table) (h : Yielded V c t V') :
    Switched (fun pid => (c.stopped ∨ t.stopped ∧ ¬ V.ticks < QUANTUM) ∧ V.Reaps pid) V V' := by
  cases h with
  | process hstop hsched =>
      exact ((hr.setTicks QUANTUM).switched_scheduled (hok.setTicks _) hsched).of_same
        (fun _ h => ⟨.inl hstop, h.2⟩) rfl rfl fun κ => by cases κ <;> rfl
  | thread _ hstop hsched =>
      obtain ⟨k₁, -, hr₁⟩ := hr.setTick hc THREAD_QUANTUM
      have hok₁ := hr.ok_set hok hc ((hok.processes c hc).setTick THREAD_QUANTUM) rfl rfl id
      obtain ⟨hthread, hprocess⟩ := hr.states_setTick hok hc THREAD_QUANTUM
      exact (hr₁.switched_scheduled hok₁ hsched).of_same
        (fun pid h => ⟨.inr ⟨hstop, h.1⟩,
          hr.reaps_set hc (c.setTick THREAD_QUANTUM) rfl rfl pid h.2⟩) hthread hprocess
        fun κ => by cases κ <;> rfl
  | stay _ _ => exact .of_eq rfl rfl fun _ => rfl

/-- The stack pointer is saved before the switch. -/
theorem switched_saved (hr : Rep k V) (hok : V.Ok) (hc : c ∈ V.table) {a esp : Addr}
    {gone gone' : Int → Prop} (h : Switched gone (V.set c (c.saveStack a esp)) V')
    (hgone : ∀ pid, gone pid → gone' pid) : Switched gone' V V' := by
  obtain ⟨hthread, hprocess⟩ := hr.states_saveStack hok hc a esp
  exact h.of_same hgone hthread hprocess fun κ => by cases κ <;> rfl

theorem switched_tick (hr : Rep k V) (hok : V.Ok) {garbage : Garbage} {rsp : Addr}
    (h : Effect k V (.tick garbage rsp) V') :
    Switched (fun pid => ¬ V.ticks < QUANTUM ∧ V.Reaps pid) V V' := by
  cases h with
  | idle hidle => exact hidle.elim
  | @tick _ _ c t _ hc ht hccur htcur hsched =>
      obtain ⟨k₁, -, hr₁⟩ := hr.saveStack hc hccur ht htcur rsp
      have hok₁ := hr.ok_saveStack hok hc t.addr rsp
      exact hr.switched_saved hok hc (hr₁.switched_scheduled hok₁ hsched) fun pid h =>
        ⟨h.1, hr.reaps_set hc (c.saveStack t.addr rsp) rfl rfl pid h.2⟩

theorem switched_yield (hr : Rep k V) (hok : V.Ok) {garbage : Garbage} {rsp : Addr}
    (h : Effect k V (.yield garbage rsp) V') :
    Switched (fun pid => V.YieldSwitches ∧ V.Reaps pid) V V' := by
  cases h with
  | idle hidle => exact hidle.elim
  | @yield _ _ c t _ hc ht hccur htcur hyield =>
      obtain ⟨k₁, -, hr₁⟩ := hr.saveStack hc hccur ht htcur rsp
      have hok₁ := hr.ok_saveStack hok hc t.addr rsp
      exact hr.switched_saved hok hc (hr₁.switched_yielded hok₁ (View.mem_set hc _) hyield)
        fun pid h => ⟨⟨c, hc, t, ht, hccur, htcur, h.1⟩,
          hr.reaps_set hc (c.saveStack t.addr rsp) rfl rfl pid h.2⟩

end Rep

/-! ## Wake-up loops

A loop wakes the threads of a wait list one after the other. In the state map each of them becomes
ready or was not waiting. -/

/-- The numbers of a waiting thread. -/
def WaiterView.id (w : WaiterView) : ThreadId := (w.pid, w.pthread)

/-- The threads of a wait list are made ready. -/
structure Woken (ws : List WaiterView) (V V' : View) : Prop where
  named : ∀ w ∈ ws, ∃ s, V.threadState w.id = some s
  threads : ∀ τ, V'.threadState τ = if τ ∈ ws.map WaiterView.id ∧
    V.threadState τ = some .T_BLOCKED_MUTEX then some .T_READY else V.threadState τ
  processes : ∀ pid, V'.processState pid = if pid ∈ ws.map WaiterView.pid ∧
    V.processState pid = some .BLOCKED_MUTEX then some .READY else V.processState pid
  locks : ∀ κ, V'.locks κ = V.locks κ

namespace Rep

variable {V' : View}

theorem wakeAll {ws : List WaiterView} : ∀ {k : Kernel} {V : View}, Rep k V → V.Ok →
    WakeAll ws V V' → (∃ k', Rep k' V') ∧ V'.Ok ∧ Woken ws V V' := by
  -- on the list of waiters: each call of `unblockThread` meets the states that the earlier ones
  -- left
  induction ws with
  | nil =>
      intro k V hr hok h
      cases h
      exact ⟨⟨k, hr⟩, hok, by simp, by simp, by simp, fun _ => rfl⟩
  | cons w ws ih =>
      intro k V hr hok h
      cases h with
      | @cons _ _ _ _ p t hp hpid ht hpthread h =>
          obtain ⟨k₁, -, hr₁⟩ := hr.unblockThread hok hp ht .T_BLOCKED_MUTEX
          have hok₁ := hr.ok_unblock hok hp t .T_BLOCKED_MUTEX
          obtain ⟨hk', hok', hwoken⟩ := ih hr₁ hok₁ h
          have hw : w.id = (p.val.pid, t.val.pthread) := by rw [hpid, hpthread]; rfl
          have ht' := hok.toNumbered.threadState_eq hp ht
          have hp' := hok.toNumbered.processState_eq hp
          have hstate := hr.threadState_unblock hok hp ht .T_BLOCKED_MUTEX
          have hpstate := hr.processState_unblock hok hp t .T_BLOCKED_MUTEX
          refine ⟨hk', hok', fun v hv => ?_, fun τ => ?_, fun pid => ?_,
            fun κ => (hwoken.locks κ).trans (by cases κ <;> rfl)⟩
          · rcases List.mem_cons.mp hv with rfl | hv
            · exact ⟨_, by rw [hw, ht']⟩
            · obtain ⟨s, hs⟩ := hwoken.named v hv
              rw [hstate, Function.update_apply] at hs
              split at hs
              case isTrue heq => exact ⟨_, by rw [heq, ht']⟩
              case isFalse => exact ⟨s, hs⟩
          · simp only [hwoken.threads, hstate, List.map_cons, List.mem_cons, hw]
            -- the same thread can be in the list twice; the second wake-up finds it ready
            by_cases hτ : τ = (p.val.pid, t.val.pthread)
            · subst hτ
              rw [Function.update_self, ht']
              by_cases hs : t.val.state = .T_BLOCKED_MUTEX
              · simp [hs]
              · simp [hs]
            · rw [Function.update_of_ne hτ]
              simp [hτ]
          · simp only [hwoken.processes, hpstate, List.map_cons, List.mem_cons, ← hpid]
            by_cases hτ : pid = p.val.pid
            · subst hτ
              rw [Function.update_self, hp']
              by_cases hs : p.val.state = .BLOCKED_MUTEX
              · simp [hs, getBlockProcessType]
              · simp [hs, getBlockProcessType]
            · rw [Function.update_of_ne hτ]
              simp [hτ]

/-- Threads that wait for the pipe are made ready, or not. -/
theorem wakeReceiver {V : View} {pid : Int} (h : WakeReceiver pid V V') :
    ∀ {k : Kernel}, Rep k V → V.Ok → (∃ k', Rep k' V') ∧ V'.Ok ∧ (∀ κ, V'.locks κ = V.locks κ) ∧
      (∀ τ, V'.threadState τ = V.threadState τ ∨
        V.threadState τ = some .T_BLOCKED_PIPE ∧ V'.threadState τ = some .T_READY) ∧
      ∀ i, V'.processState i = V.processState i ∨
        V.processState i = some .BLOCKED_PIPE ∧ V'.processState i = some .READY := by
  -- one round for each byte that was sent
  induction h with
  | nil V =>
      intro k hr hok
      exact ⟨⟨k, hr⟩, hok, fun _ => rfl, fun _ => .inl rfl, fun _ => .inl rfl⟩
  | @cons V V' p hp hpid _ ih =>
      intro k hr hok
      obtain ⟨k₁, -, hr₁⟩ := hr.unblockAllThreads hok hp .T_BLOCKED_PIPE
      have hok₁ := hr.ok_unblockAll hok hp .T_BLOCKED_PIPE
      obtain ⟨hk', hok', hlocks, hthreads, hprocesses⟩ := ih hr₁ hok₁
      refine ⟨hk', hok', fun κ => (hlocks κ).trans (by cases κ <;> rfl), fun τ => ?_, fun i => ?_⟩
      · rcases hr.threadState_unblockAll hok hp .T_BLOCKED_PIPE τ with h₁ | ⟨h₁, h₂⟩
        · rw [← h₁]
          exact hthreads τ
        -- a thread that is ready now is not woken again by a later round
        · right
          rcases hthreads τ with h₃ | ⟨h₃, -⟩
          · exact ⟨h₁, h₃.trans h₂⟩
          · rw [h₂] at h₃
            cases h₃
      · rcases hr.processState_unblockAll hok hp .T_BLOCKED_PIPE i with h₁ | ⟨h₁, h₂⟩
        · rw [← h₁]
          exact hprocesses i
        · right
          rcases hprocesses i with h₃ | ⟨h₃, -⟩
          · exact ⟨h₁, h₃.trans h₂⟩
          · rw [h₂] at h₃
            cases h₃

end Rep

end BasicKernel
