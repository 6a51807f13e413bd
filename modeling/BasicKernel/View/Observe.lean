import BasicKernel.View.States

set_option autoImplicit false

/-! # Processes and threads by their numbers

A program sees processes and threads by their numbers. `ProcessIs`, `ThreadIs` and `Current` say what the
lookups of the kernel answer, with no view in them, so that a statement about a run can be read without
one. They are then computed on the view, and each operation on a view gets its effect on them: one process
or one thread changes, and all others answer as before.
-/

namespace BasicKernel

open Linked Keyed Fuel

/-! ## In the kernel

The three observations run the lookups of the source with some fuel. That more fuel gives the same
answer makes them well defined. -/

/-- The state of the process with the given pid, if there is one. -/
def Kernel.processState (fuel : Nat) (k : Kernel) (pid : Int) :
    Except Stop (Option ProcessState) := do
  let process ← getProcessWithPid fuel k pid
  if process = NULL then
    return none
  return some (k.process process).state

/-- The state of the thread with the given numbers, if there is one. -/
def Kernel.threadState (fuel : Nat) (k : Kernel) (τ : ThreadId) :
    Except Stop (Option ThreadState) := do
  let process ← getProcessWithPid fuel k τ.1
  if process = NULL then
    return none
  let thread ← getThreadWithPthread fuel k τ.2 process
  if thread = NULL then
    return none
  return some (k.thread thread).state

/-- The thread at a node of a ring. -/
def Kernel.threadAt (k : Kernel) (lib : Addr) : ThreadNode := k.thread (k.threadLibrary lib).thread

/-- The process with the given pid is in the state `s`. -/
def Kernel.ProcessIs (k : Kernel) (pid : Int) (s : ProcessState) : Prop :=
  ∃ fuel, k.processState fuel pid = .ok (some s)

/-- The thread with the given numbers is in the state `s`. -/
def Kernel.ThreadIs (k : Kernel) (τ : ThreadId) (s : ThreadState) : Prop :=
  ∃ fuel, k.threadState fuel τ = .ok (some s)

/-- The thread whose stack the next interrupt saves. -/
def Kernel.Current (k : Kernel) (τ : ThreadId) : Prop :=
  getCurrentPid k = .ok τ.1 ∧ getCurrentPthread k = .ok τ.2

instance (k : Kernel) (τ : ThreadId) : Decidable (k.Current τ) :=
  inferInstanceAs (Decidable (_ ∧ _))

theorem Kernel.Current.unique {k : Kernel} {τ σ : ThreadId} (h : k.Current τ) (h' : k.Current σ) :
    τ = σ := by
  obtain ⟨h₁, h₂⟩ := h
  obtain ⟨h₁', h₂'⟩ := h'
  rw [h₁] at h₁'
  rw [h₂] at h₂'
  exact Prod.ext (Except.ok.inj h₁') (Except.ok.inj h₂')

/-- A search finds the same with every fuel. -/
theorem getProcessWithPid_unique {k : Kernel} {fuel fuel' : Nat} {pid : Int} {a b : Addr}
    (h : getProcessWithPid fuel k pid = .ok a) (h' : getProcessWithPid fuel' k pid = .ok b) : a = b := by
  unfold getProcessWithPid at h h'
  obtain ⟨node, hnode, h⟩ := bind_eq_ok.mp h
  obtain ⟨aux, haux, h⟩ := bind_eq_ok.mp h
  rw [hnode, ok_bind] at h'
  obtain ⟨aux', haux', h'⟩ := bind_eq_ok.mp h'
  rw [← walkWhile_unique haux haux'] at h'
  exact Except.ok.inj (h.symm.trans h')

theorem Kernel.not_processIs_of {k : Kernel} {fuel : Nat} {pid : Int}
    (h : k.processState fuel pid = .ok none) (s : ProcessState) : ¬ k.ProcessIs pid s := by
  rintro ⟨fuel', hs⟩
  unfold Kernel.processState at h hs
  obtain ⟨a, ha, h⟩ := bind_eq_ok.mp h
  obtain ⟨b, hb, hs⟩ := bind_eq_ok.mp hs
  rw [← getProcessWithPid_unique ha hb] at hs
  cases Except.ok.inj (h.symm.trans hs)

theorem Kernel.ProcessIs.unique {k : Kernel} {pid : Int} {s s' : ProcessState}
    (h : k.ProcessIs pid s) (h' : k.ProcessIs pid s') : s = s' := by
  obtain ⟨fuel, h⟩ := h
  obtain ⟨fuel', h'⟩ := h'
  unfold Kernel.processState at h h'
  obtain ⟨a, ha, h⟩ := bind_eq_ok.mp h
  obtain ⟨b, hb, h'⟩ := bind_eq_ok.mp h'
  rw [← getProcessWithPid_unique ha hb] at h'
  exact Option.some.inj (Except.ok.inj (h.symm.trans h'))

/-- The thread that runs in the view. -/
def View.Current (V : View) (τ : ThreadId) : Prop :=
  ∃ c ∈ V.table, ∃ t ∈ c.threads, c.node = V.current ∧ t.lib = c.val.currentThread ∧
    τ = (c.val.pid, t.val.pthread)

variable {k k' : Kernel} {V V' : View} {p p' c : ProcessView} {t : ThreadView} {pid : Int}
  {τ : ThreadId}

/-! ## Lookup in a view

On a table with distinct numbers the lookup is a finite map. -/

theorem View.Numbered.find_eq (h : V.Numbered) :
    V.find pid = some p ↔ p ∈ V.table ∧ p.val.pid = pid := find_eq_some h.pids

theorem View.Numbered.processState_eq (h : V.Numbered) (hp : p ∈ V.table) :
    V.processState p.val.pid = some p.val.state := by
  rw [View.processState, h.find_eq.mpr ⟨hp, rfl⟩]
  rfl

theorem View.Numbered.processState_some (h : V.Numbered) {s : ProcessState} :
    V.processState pid = some s ↔ ∃ p ∈ V.table, p.val.pid = pid ∧ p.val.state = s := by
  constructor
  · intro hs
    obtain ⟨p, hp, rfl⟩ := Option.map_eq_some_iff.mp hs
    obtain ⟨hmem, hpid⟩ := h.find_eq.mp hp
    exact ⟨p, hmem, hpid, rfl⟩
  · rintro ⟨p, hp, rfl, rfl⟩
    exact h.processState_eq hp

theorem View.Numbered.threadState_of_mem (h : V.Numbered) (hp : p ∈ V.table) (q : Int) :
    V.threadState (p.val.pid, q) = p.threadState q := by
  rw [View.threadState, h.find_eq.mpr ⟨hp, rfl⟩]
  rfl

theorem View.Numbered.threadState_eq (h : V.Numbered) (hp : p ∈ V.table) (ht : t ∈ p.threads) :
    V.threadState (p.val.pid, t.val.pthread) = some t.val.state := by
  rw [h.threadState_of_mem hp]
  exact (h.processes p hp).threadState_eq ht

theorem View.Numbered.threadState_some (h : V.Numbered) {s : ThreadState} :
    V.threadState τ = some s ↔ ∃ p ∈ V.table, ∃ t ∈ p.threads,
      (p.val.pid, t.val.pthread) = τ ∧ t.val.state = s := by
  constructor
  · intro hs
    obtain ⟨p, hp, hs⟩ := Option.bind_eq_some_iff.mp hs
    obtain ⟨hmem, hpid⟩ := h.find_eq.mp hp
    obtain ⟨t, ht, hpthread, hstate⟩ := (h.processes p hmem).exists_thread hs
    exact ⟨p, hmem, t, ht, by rw [hpid, hpthread], hstate⟩
  · rintro ⟨p, hp, t, ht, rfl, rfl⟩
    exact h.threadState_eq hp ht

theorem View.threadState_none (hne : ∀ p ∈ V.table, p.val.pid ≠ τ.1) :
    V.threadState τ = none := by
  rw [View.threadState, View.find, find_eq_none.mpr hne]
  rfl

/-- The states depend on the table only. -/
theorem View.threadState_congr (h : V'.table = V.table) : V'.threadState = V.threadState := by
  funext τ
  rw [View.threadState, View.threadState, View.find, View.find, h]

theorem View.processState_congr (h : V'.table = V.table) : V'.processState = V.processState := by
  funext pid
  rw [View.processState, View.processState, View.find, View.find, h]

@[simp] theorem View.threadState_setLocks (κ : LockKind) (ls : List LockView) :
    (V.setLocks κ ls).threadState = V.threadState := View.threadState_congr (by simp)

@[simp] theorem View.threadState_setLock (κ : LockKind) (l l' : LockView) :
    (V.setLock κ l l').threadState = V.threadState := View.threadState_congr (by simp)

@[simp] theorem View.threadState_addLock (κ : LockKind) (l : LockView) :
    (V.addLock κ l).threadState = V.threadState := View.threadState_congr (by cases κ <;> rfl)

@[simp] theorem View.processState_setLocks (κ : LockKind) (ls : List LockView) :
    (V.setLocks κ ls).processState = V.processState := View.processState_congr (by simp)

@[simp] theorem View.processState_setLock (κ : LockKind) (l l' : LockView) :
    (V.setLock κ l l').processState = V.processState := View.processState_congr (by simp)

@[simp] theorem View.processState_addLock (κ : LockKind) (l : LockView) :
    (V.addLock κ l).processState = V.processState := View.processState_congr (by cases κ <;> rfl)

namespace Rep

/-! ## The kernel and the view agree

A state that the kernel answers is the state in the view. All results about states pass through
these three equivalences. -/

theorem processState (hr : Rep k V) (hok : V.Ok) (pid : Int) :
    Returns (k.processState · pid) (V.processState pid) := by
  rcases hr.getProcessWithPid pid with ⟨p, hp, rfl, hret⟩ | ⟨hne, hret⟩
  · refine hret.bind ?_
    have hrp := hr.processes p hp
    simp only [hrp.addr_ne, if_false, hrp.val, hok.toNumbered.processState_eq hp, pure_eq_ok]
    exact Returns.const _ _
  · refine hret.bind ?_
    simp only [if_true, View.processState, View.find, find_eq_none.mpr hne, pure_eq_ok]
    exact Returns.const _ _

theorem threadState (hr : Rep k V) (hok : V.Ok) (τ : ThreadId) :
    Returns (k.threadState · τ) (V.threadState τ) := by
  obtain ⟨pid, pthread⟩ := τ
  rcases hr.getProcessWithPid pid with ⟨p, hp, rfl, hret⟩ | ⟨hne, hret⟩
  · refine hret.bind ?_
    have hrp := hr.processes p hp
    simp only [hrp.addr_ne, if_false]
    rw [hok.toNumbered.threadState_of_mem hp]
    rcases hrp.getThreadWithPthread pthread with ⟨t, ht, rfl, hget⟩ | ⟨hnone, hget⟩
    · refine hget.bind ?_
      have hrt := hrp.threads t ht
      simp only [hrt.addr_ne, if_false, hrt.val, (hok.processes p hp).threadState_eq ht, pure_eq_ok]
      exact Returns.const _ _
    · refine hget.bind ?_
      simp only [if_true, ProcessView.threadState, ProcessView.find, find_eq_none.mpr hnone,
        pure_eq_ok]
      exact Returns.const _ _
  · refine hret.bind ?_
    simp only [if_true, View.threadState_none (τ := (pid, pthread)) hne, pure_eq_ok]
    exact Returns.const _ _

theorem processIs_iff (hr : Rep k V) (hok : V.Ok) {s : ProcessState} :
    k.ProcessIs pid s ↔ V.processState pid = some s := by
  have h := hr.processState hok pid
  constructor
  · rintro ⟨fuel, hs⟩
    exact (h.eq hs).symm
  · intro hs
    rw [hs] at h
    exact h.exists_fuel

theorem threadIs_iff (hr : Rep k V) (hok : V.Ok) {s : ThreadState} :
    k.ThreadIs τ s ↔ V.threadState τ = some s := by
  have h := hr.threadState hok τ
  constructor
  · rintro ⟨fuel, hs⟩
    exact (h.eq hs).symm
  · intro hs
    rw [hs] at h
    exact h.exists_fuel

theorem current_iff (hr : Rep k V) (hok : V.Ok) : k.Current τ ↔ V.Current τ := by
  have hcode : ∀ c ∈ V.table, ∀ t ∈ c.threads, c.node = V.current → t.lib = c.val.currentThread →
      BasicKernel.getCurrentPid k = .ok c.val.pid ∧
        BasicKernel.getCurrentPthread k = .ok t.val.pthread := fun c hc t ht hccur htcur =>
    ⟨hr.getCurrentPid hc hccur, hr.getCurrentPthread hc hccur ht htcur⟩
  constructor
  · rintro ⟨hpid, hpthread⟩
    obtain ⟨c, hc, hccur⟩ := hok.current
    obtain ⟨t, ht, htcur⟩ := (hr.processes c hc).exists_current
    obtain ⟨hpid', hpthread'⟩ := hcode c hc t ht hccur htcur
    rw [hpid] at hpid'
    rw [hpthread] at hpthread'
    exact ⟨c, hc, t, ht, hccur, htcur, Prod.ext (Except.ok.inj hpid') (Except.ok.inj hpthread')⟩
  · rintro ⟨c, hc, t, ht, hccur, htcur, rfl⟩
    exact hcode c hc t ht hccur htcur

/-! ## Changes of one process

An entry that changes shows at its own number only. -/

theorem find_set (hr : Rep k V) (hok : V.Numbered) (hp : p ∈ V.table)
    (hpid : p'.val.pid = p.val.pid) (pid : Int) :
    (V.set p p').find pid = if pid = p.val.pid then some p' else V.find pid := by
  have hkey : ∀ q ∈ V.table, (if q.addr = p.addr then p' else q).val.pid = q.val.pid := by
    intro q hq
    split
    case isTrue heq => rw [hr.eq_of_addr hq hp heq, hpid]
    case isFalse => rfl
  simp only [View.find, View.set, Keyed.update]
  rw [find_map hkey]
  by_cases h : pid = p.val.pid
  · subst h
    rw [find_key hok.pids hp, if_pos rfl]
    simp
  · rw [if_neg h]
    cases hf : Keyed.find (fun p : ProcessView => p.val.pid) pid V.table with
    | none => rfl
    | some q =>
        obtain ⟨hq, hqpid⟩ := (find_eq_some hok.pids).mp hf
        have hne : q.addr ≠ p.addr := fun heq => h (by rw [← hr.eq_of_addr hq hp heq, hqpid])
        simp [hne]

theorem processState_set (hr : Rep k V) (hok : V.Numbered) (hp : p ∈ V.table)
    (hpid : p'.val.pid = p.val.pid) :
    (V.set p p').processState = Function.update V.processState p.val.pid (some p'.val.state) := by
  funext pid
  rw [View.processState, hr.find_set hok hp hpid]
  by_cases h : pid = p.val.pid
  · subst h
    rw [if_pos rfl, Function.update_self]
    rfl
  · rw [if_neg h, Function.update_of_ne h]
    rfl

theorem threadState_set (hr : Rep k V) (hok : V.Numbered) (hp : p ∈ V.table)
    (hpid : p'.val.pid = p.val.pid) (τ : ThreadId) :
    (V.set p p').threadState τ =
      if τ.1 = p.val.pid then p'.threadState τ.2 else V.threadState τ := by
  rw [View.threadState, hr.find_set hok hp hpid]
  split
  · rfl
  · rfl

/-- A change of a process that keeps the states of its threads. -/
theorem threadState_set_same (hr : Rep k V) (hok : V.Numbered) (hp : p ∈ V.table)
    (hpid : p'.val.pid = p.val.pid) (hsame : p'.threadState = p.threadState) :
    (V.set p p').threadState = V.threadState := by
  funext τ
  rw [hr.threadState_set hok hp hpid, hsame]
  split
  case isTrue h => rw [← hok.threadState_of_mem hp, ← h]
  case isFalse => rfl

/-- A change of one thread of a process. -/
theorem threadState_set_update (hr : Rep k V) (hok : V.Numbered) (hp : p ∈ V.table)
    (hpid : p'.val.pid = p.val.pid) {q : Int} {s : Option ThreadState}
    (hupdate : p'.threadState = Function.update p.threadState q s) :
    (V.set p p').threadState = Function.update V.threadState (p.val.pid, q) s := by
  funext τ
  rw [hr.threadState_set hok hp hpid, hupdate]
  by_cases h : τ = (p.val.pid, q)
  · subst h
    simp
  · rw [Function.update_of_ne h]
    split
    case isTrue h₁ =>
        have h₂ : τ.2 ≠ q := fun h₂ => h (Prod.ext h₁ h₂)
        rw [Function.update_of_ne h₂, ← hok.threadState_of_mem hp, ← h₁]
    case isFalse => rfl

theorem thread_unique (hr : Rep k V) (hp : p ∈ V.table) (ht : t ∈ p.threads) :
    ∀ u ∈ p.threads, u.addr = t.addr → u = t := fun _ hu h =>
  (hr.eq_of_threadAddr hp hp hu ht h).2

theorem threadAddrs_nodup (hr : Rep k V) (hp : p ∈ V.table) :
    (p.threads.map ThreadView.addr).Nodup :=
  List.Nodup.map_on (fun _ ht _ hu h => (hr.eq_of_threadAddr hp hp ht hu h).2)
    (hr.processes p hp).ring.nodup.of_map

/-! ## The operations

For each operation on a view, the two maps afterwards. Most are a `Function.update` of the map
before. -/

theorem threadState_block (hr : Rep k V) (hok : V.Ok) (hp : p ∈ V.table) (ht : t ∈ p.threads)
    (ty : ThreadState) : (V.block p t.addr ty).threadState
      = Function.update V.threadState (p.val.pid, t.val.pthread) (some ty) := by
  have hset : (V.block p t.addr ty).threadState = (V.set p (p.block t.addr ty)).threadState :=
    View.threadState_congr rfl
  rw [hset]
  exact hr.threadState_set_update hok.toNumbered hp (p.sameFrame_block t.addr ty).pid
    (ProcessView.threadState_block (hok.processes p hp) ht (hr.thread_unique hp ht) ty)

theorem processState_block (hr : Rep k V) (hok : V.Ok) (hp : p ∈ V.table) (t : Addr)
    (ty : ThreadState) : (V.block p t ty).processState
      = Function.update V.processState p.val.pid (some (if (p.block t ty).noneReady then
          getBlockProcessType ty else p.val.state)) := by
  have hset : (V.block p t ty).processState = (V.set p (p.block t ty)).processState :=
    View.processState_congr rfl
  rw [hset, hr.processState_set hok.toNumbered hp (p.sameFrame_block t ty).pid, p.block_state t ty]

theorem threadState_unblock (hr : Rep k V) (hok : V.Ok) (hp : p ∈ V.table) (ht : t ∈ p.threads)
    (ty : ThreadState) : (V.set p (p.unblock t ty)).threadState
      = Function.update V.threadState (p.val.pid, t.val.pthread)
          (some (if t.val.state = ty then .T_READY else t.val.state)) :=
  hr.threadState_set_update hok.toNumbered hp (p.sameFrame_unblock t ty).pid
    (ProcessView.threadState_unblock (hok.processes p hp) ht (hr.thread_unique hp ht) ty)

theorem processState_unblock (hr : Rep k V) (hok : V.Ok) (hp : p ∈ V.table) (t : ThreadView)
    (ty : ThreadState) : (V.set p (p.unblock t ty)).processState
      = Function.update V.processState p.val.pid
          (some (if p.val.state = getBlockProcessType ty then .READY else p.val.state)) := by
  rw [hr.processState_set hok.toNumbered hp (p.sameFrame_unblock t ty).pid, ProcessView.unblock,
    ProcessView.wake_state, ProcessView.wakeThread_val]

/-- A thread is woken or keeps its state. -/
theorem threadState_unblockAll (hr : Rep k V) (hok : V.Ok) (hp : p ∈ V.table) (ty : ThreadState)
    (τ : ThreadId) : (V.set p (p.unblockAll ty)).threadState τ = V.threadState τ ∨
      V.threadState τ = some ty ∧ (V.set p (p.unblockAll ty)).threadState τ = some .T_READY := by
  rw [hr.threadState_set hok.toNumbered hp (p.sameFrame_unblockAll ty).pid]
  split
  case isTrue h =>
      have hτ : V.threadState τ = p.threadState τ.2 := by
        rw [← hok.toNumbered.threadState_of_mem hp, ← h]
      rw [hτ]
      exact ProcessView.threadState_unblockAll (hr.threadAddrs_nodup hp) ty τ.2
  case isFalse => exact .inl rfl

/-- A process is woken or keeps its state. -/
theorem processState_unblockAll (hr : Rep k V) (hok : V.Ok) (hp : p ∈ V.table) (ty : ThreadState)
    (pid : Int) : (V.set p (p.unblockAll ty)).processState pid = V.processState pid ∨
      V.processState pid = some (getBlockProcessType ty) ∧
        (V.set p (p.unblockAll ty)).processState pid = some .READY := by
  rw [hr.processState_set hok.toNumbered hp (p.sameFrame_unblockAll ty).pid]
  by_cases hpid : pid = p.val.pid
  · subst hpid
    rw [Function.update_self, hok.toNumbered.processState_eq hp,
      ProcessView.unblockAll_val (hr.threadAddrs_nodup hp)]
    split
    · rw [ProcessNode.wake]
      split
      case isTrue h => exact .inr ⟨congrArg some h, rfl⟩
      case isFalse => exact .inl rfl
    · exact .inl rfl
  · exact .inl (Function.update_of_ne hpid _ _)

theorem threadState_kill (hr : Rep k V) (hok : V.Ok) (hp : p ∈ V.table) :
    (V.kill p).threadState = V.threadState := by
  have hset : (V.kill p).threadState = (V.set p (p.setState .DEAD)).threadState :=
    View.threadState_congr rfl
  rw [hset]
  exact hr.threadState_set_same hok.toNumbered hp rfl rfl

theorem processState_kill (hr : Rep k V) (hok : V.Ok) (hp : p ∈ V.table) :
    (V.kill p).processState = Function.update V.processState p.val.pid (some .DEAD) := by
  have hset : (V.kill p).processState = (V.set p (p.setState .DEAD)).processState :=
    View.processState_congr rfl
  rw [hset]
  exact hr.processState_set hok.toNumbered hp rfl

theorem killThread_pid (p : ProcessView) (t : Addr) : (p.killThread t).val.pid = p.val.pid := by
  rw [ProcessView.killThread, ProcessView.loseThread]
  split <;> rfl

theorem threadState_killThread (hr : Rep k V) (hok : V.Ok) (hp : p ∈ V.table) (ht : t ∈ p.threads) :
    (V.killThread p t.addr).threadState
      = Function.update V.threadState (p.val.pid, t.val.pthread) (some .T_DEAD) := by
  have hset : (V.killThread p t.addr).threadState = (V.set p (p.killThread t.addr)).threadState :=
    View.threadState_congr rfl
  rw [hset]
  exact hr.threadState_set_update hok.toNumbered hp (killThread_pid p t.addr)
    (ProcessView.threadState_killThread (hok.processes p hp) ht (hr.thread_unique hp ht))

theorem processState_killThread (hr : Rep k V) (hok : V.Ok) (hp : p ∈ V.table) (t : Addr) :
    (V.killThread p t).processState = Function.update V.processState p.val.pid
      (some (if p.val.threadSize = 1 then .DEAD else p.val.state)) := by
  have hset : (V.killThread p t).processState = (V.set p (p.killThread t)).processState :=
    View.processState_congr rfl
  rw [hset, hr.processState_set hok.toNumbered hp (killThread_pid p t), ProcessView.killThread,
    ProcessView.loseThread]
  split <;> rfl

theorem threadState_addThread (hr : Rep k V) (hok : V.Ok) (hp : p ∈ V.table) {entryPoint : Addr}
    (ht : t.Created entryPoint p.val.currentPThread) : (V.set p (p.addThread t)).threadState
      = Function.update V.threadState (p.val.pid, p.val.currentPThread) (some .T_READY) := by
  have hstate := ProcessView.threadState_addThread (hok.processes p hp) ht.pthread
  rw [ht.state] at hstate
  have hpid : (p.addThread t).val.pid = p.val.pid := rfl
  exact hr.threadState_set_update hok.toNumbered hp hpid hstate

theorem processState_addThread (hr : Rep k V) (hok : V.Ok) (hp : p ∈ V.table) (t : ThreadView) :
    (V.set p (p.addThread t)).processState = V.processState := by
  have hpid : (p.addThread t).val.pid = p.val.pid := rfl
  rw [hr.processState_set hok.toNumbered hp hpid]
  show Function.update V.processState p.val.pid (some p.val.state) = _
  rw [← hok.toNumbered.processState_eq hp, Function.update_eq_self]

end Rep

/-! ## A new process

The pid of a new process was not in use, so that its states are added to the maps. -/

theorem View.Ok.find_addProcess (h : V.Ok) (hp : p.val.pid = V.nextPid) (pid : Int) :
    (V.addProcess p).find pid = if pid = V.nextPid then some p else V.find pid := by
  have hnew : ∀ q ∈ V.table, q.val.pid ≠ p.val.pid := fun q hq heq => by
    have := (h.pid_lt q hq).2
    omega
  rw [View.find, View.addProcess, find_insertSecond hnew, hp]
  rfl

theorem View.Ok.processState_addProcess (h : V.Ok) {entryPoint : Addr}
    (hp : p.Created entryPoint V.nextPid) : (V.addProcess p).processState
      = Function.update V.processState V.nextPid (some .READY) := by
  funext pid
  rw [View.processState, h.find_addProcess hp.pid]
  by_cases hpid : pid = V.nextPid
  · subst hpid
    rw [if_pos rfl, Function.update_self, Option.map_some, hp.state]
  · rw [if_neg hpid, Function.update_of_ne hpid]
    rfl

theorem View.Ok.threadState_addProcess (h : V.Ok) {entryPoint : Addr}
    (hp : p.Created entryPoint V.nextPid) : (V.addProcess p).threadState
      = Function.update V.threadState (V.nextPid, 0) (some .T_READY) := by
  obtain ⟨t, hts, ht, -⟩ := hp.threads
  funext ⟨pid, q⟩
  rw [View.threadState, h.find_addProcess hp.pid]
  by_cases hpid : pid = V.nextPid
  · subst hpid
    have hnone : V.threadState (V.nextPid, q) = none :=
      View.threadState_none fun q hq heq => by
        have := (h.pid_lt q hq).2
        simp only at heq
        omega
    rw [if_pos rfl, Option.bind_some, ProcessView.threadState, ProcessView.find, hts]
    by_cases hq : q = 0
    · subst hq
      simp [Keyed.find, ht.pthread, ht.state]
    · rw [Function.update_of_ne (by simpa using hq), hnone]
      simp [Keyed.find, ht.pthread, Ne.symm hq]
  · rw [if_neg hpid, Function.update_of_ne (by simpa using fun h => absurd h hpid)]
    rfl

end BasicKernel
