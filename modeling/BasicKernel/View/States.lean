import BasicKernel.View.Events

set_option autoImplicit false

/-! # The states of processes and threads

A process is known by its pid, a thread by its pid and its pthread number. `V.processState` and
`V.threadState` are the states as finite maps on these numbers. Each operation of the scheduler
changes the maps in few places; its other effects do not show here.
-/

namespace BasicKernel

open Keyed

/-- The numbers of a thread: the pid of its process and its own. -/
abbrev ThreadId := Int × Int

def View.find (V : View) (pid : Int) : Option ProcessView :=
  Keyed.find (fun p : ProcessView => p.val.pid) pid V.table

def ProcessView.find (p : ProcessView) (pthread : Int) : Option ThreadView :=
  Keyed.find (fun t : ThreadView => t.val.pthread) pthread p.threads

def View.processState (V : View) (pid : Int) : Option ProcessState :=
  (V.find pid).map fun p => p.val.state

def ProcessView.threadState (p : ProcessView) (pthread : Int) : Option ThreadState :=
  (p.find pthread).map fun t => t.val.state

def View.threadState (V : View) (τ : ThreadId) : Option ThreadState :=
  (V.find τ.1).bind fun p => p.threadState τ.2

/-- The assignment of `unblockProcess`. -/
def ProcessNode.wake (s : ProcessState) (v : ProcessNode) : ProcessNode :=
  if v.state = s then { v with state := .READY } else v

theorem ProcessNode.wake_wake (s : ProcessState) (v : ProcessNode) :
    (v.wake s).wake s = v.wake s := by
  by_cases hs : v.state = s
  · simp only [wake, if_pos hs, ite_self]
  · simp only [wake, if_neg hs]

/-! ## Threads of one process -/

namespace ProcessView

variable {p : ProcessView} {t : ThreadView}

theorem Ok.find_eq (h : p.Ok) {pthread : Int} :
    p.find pthread = some t ↔ t ∈ p.threads ∧ t.val.pthread = pthread := find_eq_some h.pthreads

theorem Ok.threadState_eq (h : p.Ok) (ht : t ∈ p.threads) :
    p.threadState t.val.pthread = some t.val.state := by
  rw [threadState, h.find_eq.mpr ⟨ht, rfl⟩]
  rfl

theorem Ok.exists_thread (h : p.Ok) {pthread : Int} {s : ThreadState}
    (hs : p.threadState pthread = some s) :
    ∃ t ∈ p.threads, t.val.pthread = pthread ∧ t.val.state = s := by
  obtain ⟨t, ht, rfl⟩ := Option.map_eq_some_iff.mp hs
  obtain ⟨hmem, hpthread⟩ := h.find_eq.mp ht
  exact ⟨t, hmem, hpthread, rfl⟩

@[simp] theorem threadState_setVal (p : ProcessView) (f : ProcessNode → ProcessNode) :
    (p.setVal f).threadState = p.threadState := rfl

@[simp] theorem threadState_setState (p : ProcessView) (s : ProcessState) :
    (p.setState s).threadState = p.threadState := rfl

@[simp] theorem threadState_setHeap (p : ProcessView) (hs : List HeapView) :
    (p.setHeap hs).threadState = p.threadState := rfl

@[simp] theorem threadState_setTick (p : ProcessView) (n : Int) :
    (p.setTick n).threadState = p.threadState := rfl

@[simp] theorem threadState_wake (p : ProcessView) (s : ProcessState) :
    (p.wake s).threadState = p.threadState := by
  rw [wake]
  split <;> rfl

/-- A change of a thread that keeps its number and its state. -/
theorem threadState_setThread (p : ProcessView) (a : Addr) {f : ThreadNode → ThreadNode}
    (hpthread : ∀ v, (f v).pthread = v.pthread) (hstate : ∀ v, (f v).state = v.state) :
    (p.setThread a f).threadState = p.threadState := by
  funext q
  have hkey : ∀ u ∈ p.threads, (if u.addr = a then u.setVal f else u).val.pthread
      = u.val.pthread := fun u _ => by
    split
    · exact hpthread _
    · rfl
  simp only [threadState, find, setThread, Keyed.update]
  rw [find_map hkey, Option.map_map]
  refine congrFun (congrArg _ ?_) _
  funext u
  simp only [Function.comp]
  split
  · exact hstate _
  · rfl

@[simp] theorem threadState_saveStack (p : ProcessView) (a esp : Addr) :
    (p.saveStack a esp).threadState = p.threadState :=
  p.threadState_setThread a (fun _ => rfl) fun _ => rfl

/-- An assignment to the state of the thread `t`. -/
theorem threadState_setThreadState (h : p.Ok) (ht : t ∈ p.threads)
    (hunique : ∀ u ∈ p.threads, u.addr = t.addr → u = t) (s : ThreadState) :
    (p.setThreadState t.addr s).threadState
      = Function.update p.threadState t.val.pthread (some s) := by
  funext q
  have hkey : ∀ u ∈ p.threads, (if u.addr = t.addr then
      u.setVal fun v => { v with state := s } else u).val.pthread = u.val.pthread := fun u _ => by
    split <;> rfl
  simp only [threadState, find, setThreadState, setThread, Keyed.update]
  rw [find_map hkey]
  by_cases hq : q = t.val.pthread
  · subst hq
    rw [find_key h.pthreads ht, Function.update_self]
    simp
  · rw [Function.update_of_ne hq]
    cases hf : Keyed.find (fun t : ThreadView => t.val.pthread) q p.threads with
    | none => simp [threadState, find, hf]
    | some u =>
        obtain ⟨hu, huq⟩ := (find_eq_some h.pthreads).mp hf
        have hut : u.addr ≠ t.addr := fun heq => hq (by rw [← hunique u hu heq]; exact huq.symm)
        simp [threadState, find, hf, hut]

theorem threadState_block (h : p.Ok) (ht : t ∈ p.threads)
    (hunique : ∀ u ∈ p.threads, u.addr = t.addr → u = t) (ty : ThreadState) :
    (p.block t.addr ty).threadState = Function.update p.threadState t.val.pthread (some ty) := by
  have hset := threadState_setThreadState h ht hunique ty
  rw [block]
  split
  · exact hset
  · exact hset

theorem threadState_wakeThread (h : p.Ok) (ht : t ∈ p.threads)
    (hunique : ∀ u ∈ p.threads, u.addr = t.addr → u = t) (ty : ThreadState) :
    (p.wakeThread t ty).threadState = Function.update p.threadState t.val.pthread
      (some (if t.val.state = ty then .T_READY else t.val.state)) := by
  rw [wakeThread]
  split
  · exact threadState_setThreadState h ht hunique .T_READY
  · rw [← h.threadState_eq ht, Function.update_eq_self]

theorem threadState_unblock (h : p.Ok) (ht : t ∈ p.threads)
    (hunique : ∀ u ∈ p.threads, u.addr = t.addr → u = t) (ty : ThreadState) :
    (p.unblock t ty).threadState = Function.update p.threadState t.val.pthread
      (some (if t.val.state = ty then .T_READY else t.val.state)) := by
  rw [unblock, threadState_wake]
  exact threadState_wakeThread h ht hunique ty

theorem threadState_killThread (h : p.Ok) (ht : t ∈ p.threads)
    (hunique : ∀ u ∈ p.threads, u.addr = t.addr → u = t) :
    (p.killThread t.addr).threadState = Function.update p.threadState t.val.pthread
      (some .T_DEAD) := by
  rw [killThread, loseThread, threadState_setVal]
  split
  · exact threadState_setThreadState (h.setState .DEAD) ht hunique .T_DEAD
  · exact threadState_setThreadState h ht hunique .T_DEAD

theorem threadState_addThread (h : p.Ok) (ht : t.val.pthread = p.val.currentPThread) :
    (p.addThread t).threadState = Function.update p.threadState p.val.currentPThread
      (some t.val.state) := by
  funext q
  have hnew : ∀ u ∈ p.threads, u.val.pthread ≠ t.val.pthread := fun u hu heq => by
    have := (h.pthread_lt u hu).2
    omega
  simp only [threadState, find, addThread]
  rw [find_insertSecond hnew, ht]
  by_cases hq : q = p.val.currentPThread
  · subst hq
    simp
  · rw [if_neg hq, Function.update_of_ne hq]
    rfl

/-! ### All threads at once

The loop of `unblockAllThreads` is a fold over the threads, and in the map it is one change for
each thread that waited. -/

theorem unblockIf_threads (ty : ThreadState)
    (hunique : ∀ u ∈ p.threads, u.addr = t.addr → u = t) :
    (p.unblockIf ty t).threads = p.threads.map fun u =>
      if u.addr = t.addr ∧ u.val.state = ty then u.setVal fun v => { v with state := .T_READY }
      else u := by
  rw [unblockIf]
  split
  case isTrue hs =>
    have hthreads : (p.unblock t ty).threads = (p.setThreadState t.addr .T_READY).threads := by
      rw [unblock, wakeThread, if_pos hs, wake]
      split <;> rfl
    rw [hthreads]
    refine List.map_congr_left fun u hu => ?_
    by_cases hua : u.addr = t.addr
    · simp [hunique u hu hua, hs]
    · simp [hua]
  case isFalse hs =>
    symm
    rw [List.map_congr_left (g := id), List.map_id]
    intro u hu
    refine if_neg fun hua => hs ?_
    rw [← hunique u hu hua.1]
    exact hua.2

theorem wake_val (p : ProcessView) (s : ProcessState) : (p.wake s).val = p.val.wake s := by
  rw [wake, ProcessNode.wake]
  split <;> rfl

theorem unblockIf_val (p : ProcessView) (ty : ThreadState) (t : ThreadView) :
    (p.unblockIf ty t).val =
      if t.val.state = ty then p.val.wake (getBlockProcessType ty) else p.val := by
  rw [unblockIf]
  split
  · rw [unblock, wake_val, wakeThread_val]
  · rfl

/-- The threads `ts` are woken, as far as they are blocked for the reason `ty`. -/
theorem foldl_unblockIf (ty : ThreadState) : ∀ (ts : List ThreadView) {p : ProcessView},
    (∀ t ∈ ts, t ∈ p.threads) → (ts.map ThreadView.addr).Nodup →
    (p.threads.map ThreadView.addr).Nodup →
    (ts.foldl (unblockIf ty) p).threads = p.threads.map (fun u =>
        if u.addr ∈ ts.map ThreadView.addr ∧ u.val.state = ty
        then u.setVal fun v => { v with state := .T_READY } else u) ∧
      (ts.foldl (unblockIf ty) p).val =
        if ∃ t ∈ ts, t.val.state = ty then p.val.wake (getBlockProcessType ty) else p.val := by
  intro ts
  -- on the threads; each step changes one of them, and the addresses tell them apart
  induction ts with
  | nil =>
      intro p _ _ _
      simp
  | cons t ts ih =>
      intro p hts hnd hp
      have ht := hts t List.mem_cons_self
      have hunique : ∀ u ∈ p.threads, u.addr = t.addr → u = t := fun u hu h =>
        eq_of_key_eq hp hu ht h
      have hthreads := unblockIf_threads ty hunique
      have hnd' := List.nodup_cons.mp hnd
      have hne : ∀ u ∈ ts, u.addr ≠ t.addr := fun u hu h =>
        hnd'.1 (by rw [← h]; exact List.mem_map_of_mem hu)
      have hstep : ∀ u ∈ ts, u ∈ (p.unblockIf ty t).threads := fun u hu => by
        rw [hthreads]
        exact List.mem_map.mpr ⟨u, hts u (List.mem_cons_of_mem _ hu), if_neg fun h => hne u hu h.1⟩
      have haddrs : (p.unblockIf ty t).threads.map ThreadView.addr = p.threads.map ThreadView.addr := by
        rw [hthreads, List.map_map]
        refine List.map_congr_left fun u _ => ?_
        simp only [Function.comp]
        split <;> rfl
      obtain ⟨ih₁, ih₂⟩ := ih hstep hnd'.2 (by rw [haddrs]; exact hp)
      rw [List.foldl_cons]
      refine ⟨?_, ?_⟩
      · rw [ih₁, hthreads, List.map_map]
        refine List.map_congr_left fun u hu => ?_
        by_cases hua : u.addr = t.addr
        · have : t.addr ∉ ts.map ThreadView.addr := hnd'.1
          by_cases hs : u.val.state = ty
          · simp [-List.mem_map, hua, hs, this]
          · simp [-List.mem_map, hua, hs, this]
        · simp [hua]
      -- the process is woken once, by the first of its threads that is
      · rw [ih₂, unblockIf_val]
        by_cases hs : t.val.state = ty
        · rw [if_pos hs, ProcessNode.wake_wake, ite_self, if_pos ⟨t, List.mem_cons_self, hs⟩]
        · rw [if_neg hs]
          refine if_congr ?_ rfl rfl
          simp [hs]

theorem unblockAll_threads (hp : (p.threads.map ThreadView.addr).Nodup) (ty : ThreadState) :
    (p.unblockAll ty).threads = p.threads.map fun u =>
      if u.addr ∈ (p.threads.take p.val.threadSize.toNat).map ThreadView.addr ∧ u.val.state = ty
      then u.setVal fun v => { v with state := .T_READY } else u :=
  (foldl_unblockIf ty _ (fun _ ht => List.mem_of_mem_take ht)
    (hp.sublist ((List.take_sublist _ _).map _)) hp).1

theorem unblockAll_val (hp : (p.threads.map ThreadView.addr).Nodup) (ty : ThreadState) :
    (p.unblockAll ty).val =
      if ∃ t ∈ p.threads.take p.val.threadSize.toNat, t.val.state = ty
      then p.val.wake (getBlockProcessType ty) else p.val :=
  (foldl_unblockIf ty _ (fun _ ht => List.mem_of_mem_take ht)
    (hp.sublist ((List.take_sublist _ _).map _)) hp).2

/-- A thread is woken or keeps its state. -/
theorem threadState_unblockAll (hp : (p.threads.map ThreadView.addr).Nodup) (ty : ThreadState)
    (q : Int) : (p.unblockAll ty).threadState q = p.threadState q ∨
      p.threadState q = some ty ∧ (p.unblockAll ty).threadState q = some .T_READY := by
  simp only [threadState, find, unblockAll_threads hp]
  rw [find_map fun u _ => by split <;> rfl, Option.map_map]
  cases hf : Keyed.find (fun t : ThreadView => t.val.pthread) q p.threads with
  | none => exact .inl rfl
  | some u =>
      simp only [Option.map_some, Function.comp]
      split
      case isTrue h => exact .inr ⟨congrArg some h.2, rfl⟩
      case isFalse => exact .inl rfl

end ProcessView

end BasicKernel
