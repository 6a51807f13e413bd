import BasicKernel.Scheduling.Blocking
import BasicKernel.Scheduling.Current

set_option autoImplicit false

/-! # Wait lists and blocked threads

Whether the entries of the wait lists are the threads in state `T_BLOCKED_MUTEX`, each once. The lists
belong to the locks and the states to the scheduler: what destroys a lock does not look at its list, and
what ends a thread does not look for its entry. So the two agree as long as nothing of the kind happens to
a thread that waits.

`SparesWaiters` is the condition on the events and `wait_lists_match` the result.
`destroyed_mutex_strands_waiter` is a mutex that is destroyed while a thread waits for it: the
thread stays blocked, and no list names it.
-/

namespace BasicKernel

open Linked Keyed Fuel Transition

/-! ## In the kernel

An entry is a node of a wait list, and the thread that it names is found by its two numbers. -/

/-- The kind of a lock, its node, and a node of its wait list. -/
abbrev Entry := LockKind × Addr × Addr

/-- The lock is in its registry, and the node is on its wait list. -/
def Kernel.HasEntry (k : Kernel) (e : Entry) : Prop :=
  ∃ ls ws, lockLink.IsList k (k.lockList e.1) ls ∧ e.2.1 ∈ ls ∧
    Chain k.nextWaiter NULL (k.lock e.2.1).blockedThreadList ws ∧ e.2.2 ∈ ws

/-- The thread that an entry names. -/
def Kernel.waiterId (k : Kernel) (e : Entry) : ThreadId :=
  ((k.blockedThread e.2.2).pid, (k.blockedThread e.2.2).pthread)

structure Kernel.WaitListsMatch (k : Kernel) : Prop where
  blocked : ∀ e, k.HasEntry e → k.ThreadIs (k.waiterId e) .T_BLOCKED_MUTEX
  named : ∀ τ, k.ThreadIs τ .T_BLOCKED_MUTEX → ∃! e, k.HasEntry e ∧ k.waiterId e = τ

/-- No thread waits for the lock, if it exists. -/
def Kernel.NobodyWaits (k : Kernel) (κ : LockKind) (id : Int) : Prop :=
  ∀ fuel a, findLock fuel k (k.lockList κ) id = .ok a → a ≠ NULL →
    (k.lock a).blockedThreadList = NULL

/-! ## The events

What could break the match: a thread that is blocked from outside the lock functions, a lock that
goes while somebody waits, a thread that goes while it waits. -/

/-- The calls inside the kernel that assign `T_BLOCKED_MUTEX`, or take it away, are made by the lock
functions only. -/
def KernelOp.ByLocks : KernelOp → Prop
  | blockThread _ _ ty => ty ≠ .T_BLOCKED_MUTEX
  | unblockThread _ _ ty => ty ≠ .T_BLOCKED_MUTEX
  | unblockAllThreads _ ty => ty ≠ .T_BLOCKED_MUTEX
  | _ => True

def KernelOp.KillsThread (τ : ThreadId) : KernelOp → Prop
  | removeThread pid pthread => ¬ (pid = 0 ∨ pid = 1) ∧ pthread ≠ 0 ∧ τ = (pid, pthread)
  | _ => False

def KernelOp.Destroys (κ : LockKind) (id : Int) : KernelOp → Prop
  | mutexDestroy i => κ = .mutex ∧ i = id
  | semaphoreDestroy i => κ = .semaphore ∧ i = id
  | _ => False

/-- The calls that go through the pointer to the lock even when there is none. -/
def KernelOp.NeedsLock (κ : LockKind) (id : Int) : KernelOp → Prop
  | mutexUp i => κ = .mutex ∧ i = id
  | mutexDown i => κ = .mutex ∧ i = id
  | semaphoreDown i => κ = .semaphore ∧ i = id
  | _ => False

/-- A sound event that leaves the waiting threads alone: it destroys no lock that somebody waits for,
kills and removes no waiting thread, and makes no thread wait twice or for a lock that does not exist.
There is memory at the null pointer, where the wait list of such a lock would be kept. -/
structure SparesWaiters (k : Kernel) (op : KernelOp) : Prop where
  sound : Sound k op
  byLocks : op.ByLocks
  blocks : ∀ τ, op.Blocks k τ → ¬ k.ThreadIs τ .T_BLOCKED_MUTEX
  kills : ∀ τ, op.KillsThread τ → ¬ k.ThreadIs τ .T_BLOCKED_MUTEX
  removes : op.Switches k → ∀ τ : ThreadId, k.Reaped τ.1 → ¬ k.ThreadIs τ .T_BLOCKED_MUTEX
  destroys : ∀ κ id, op.Destroys κ id → k.NobodyWaits κ id
  known : ∀ κ id, op.NeedsLock κ id → ∃ fuel a, findLock fuel k (k.lockList κ) id = .ok a ∧ a ≠ NULL

/-! ## On the view

The entries of all lists together, as a list of threads. The order does not matter, so the lists
are compared up to permutations. -/

def LockView.ids (l : LockView) : List ThreadId := l.waiters.map WaiterView.id

/-- The threads on the wait lists. -/
def View.waiterIds (V : View) : List ThreadId :=
  V.mutexes.flatMap LockView.ids ++ V.semaphores.flatMap LockView.ids

structure View.WaitsMatch (V : View) : Prop where
  nodup : V.waiterIds.Nodup
  blocked : ∀ τ, τ ∈ V.waiterIds ↔ V.threadState τ = some .T_BLOCKED_MUTEX

section Ids

variable {k : Kernel} {V V' : View} {κ : LockKind} {l l' : LockView} {w : WaiterView}

theorem View.waiterIds_congr (h : ∀ κ, V'.locks κ = V.locks κ) : V'.waiterIds = V.waiterIds := by
  have hm : V'.mutexes = V.mutexes := h .mutex
  have hs : V'.semaphores = V.semaphores := h .semaphore
  rw [waiterIds, waiterIds, hm, hs]

theorem View.mem_waiterIds {τ : ThreadId} :
    τ ∈ V.waiterIds ↔ ∃ κ, ∃ l ∈ V.locks κ, ∃ w ∈ l.waiters, w.id = τ := by
  simp only [waiterIds, LockView.ids, List.mem_append, List.mem_flatMap, List.mem_map]
  constructor
  · rintro (h | h)
    · exact ⟨.mutex, h⟩
    · exact ⟨.semaphore, h⟩
  · rintro ⟨κ, h⟩
    cases κ with
    | mutex => exact .inl h
    | semaphore => exact .inr h

theorem View.waiterIds_addLock (V : View) (κ : LockKind) (h : l.waiters = []) :
    (V.addLock κ l).waiterIds = V.waiterIds := by
  have hids : l.ids = [] := by simp [LockView.ids, h]
  cases κ with
  | mutex => simp [View.addLock, View.waiterIds, hids]
  | semaphore => simp [View.addLock, View.waiterIds, hids]

/-- The entries of one lock, and those of the others. -/
theorem View.waiterIds_insert (V : View) (κ : LockKind) (A B : List LockView) (l : LockView) :
    (V.setLocks κ (A ++ l :: B)).waiterIds.Perm
      (l.ids ++ (V.setLocks κ (A ++ B)).waiterIds) := by
  cases κ with
  | mutex =>
      simp only [waiterIds, View.setLocks, List.flatMap_append, List.flatMap_cons,
        List.append_assoc]
      rw [← List.append_assoc]
      refine (List.perm_append_comm.append_right _).trans ?_
      rw [List.append_assoc]
  | semaphore =>
      simp only [waiterIds, View.setLocks, List.flatMap_append, List.flatMap_cons]
      rw [← List.append_assoc, ← List.append_assoc, ← List.append_assoc]
      refine (List.perm_append_comm.append_right _).trans ?_
      simp only [List.append_assoc]
      exact List.Perm.refl _

theorem View.waiterIds_perm {A B : List LockView} (hL : V.locks κ = A ++ l :: B) :
    V.waiterIds.Perm (l.ids ++ (V.setLocks κ (A ++ B)).waiterIds) := by
  have hself : V.setLocks κ (A ++ l :: B) = V := by
    rw [← hL]
    cases κ <;> rfl
  have h := V.waiterIds_insert κ A B l
  rw [hself] at h
  exact h

/-- One lock changes. -/
theorem Rep.waiterIds_setLock (hr : Rep k V) (hl : l ∈ V.locks κ) :
    ∃ rest, V.waiterIds.Perm (l.ids ++ rest) ∧
      ∀ l', (V.setLock κ l l').waiterIds.Perm (l'.ids ++ rest) := by
  obtain ⟨A, B, hL⟩ := List.append_of_mem hl
  refine ⟨_, View.waiterIds_perm hL, fun l' => ?_⟩
  have hset : V.setLock κ l l' = V.setLocks κ (A ++ l' :: B) := by
    rw [View.setLock, ← View.locks_setLock, hr.set_lock_append hL]
  rw [hset]
  exact V.waiterIds_insert κ A B l'

end Ids

/-! ## What the events do

A thread enters a list and the state at once, and leaves both at once. -/

namespace View.WaitsMatch

variable {V V' : View} {τ : ThreadId} {s : ThreadState}

theorem of_eq (h : V.WaitsMatch) (hids : V'.waiterIds.Perm V.waiterIds)
    (hthreads : ∀ τ, V'.threadState τ = some .T_BLOCKED_MUTEX ↔
      V.threadState τ = some .T_BLOCKED_MUTEX) : V'.WaitsMatch :=
  ⟨hids.nodup_iff.mpr h.nodup, fun τ => by rw [hids.mem_iff, h.blocked, hthreads]⟩

/-- A thread that does not wait gets another state. -/
theorem update (h : V.WaitsMatch) (hids : V'.waiterIds = V.waiterIds)
    (hthreads : V'.threadState = Function.update V.threadState τ (some s))
    (hs : s ≠ .T_BLOCKED_MUTEX) (hτ : V.threadState τ ≠ some .T_BLOCKED_MUTEX) :
    V'.WaitsMatch := by
  refine h.of_eq (hids ▸ List.Perm.refl _) fun σ => ?_
  rw [hthreads]
  by_cases hσ : σ = τ
  · subst hσ
    rw [Function.update_self]
    simp [hs, hτ]
  · rw [Function.update_of_ne hσ]

/-- The thread begins to wait. -/
theorem wait (h : V.WaitsMatch) (hids : V'.waiterIds.Perm (τ :: V.waiterIds))
    (hthreads : V'.threadState = Function.update V.threadState τ (some .T_BLOCKED_MUTEX))
    (hτ : V.threadState τ ≠ some .T_BLOCKED_MUTEX) : V'.WaitsMatch := by
  constructor
  · refine hids.nodup_iff.mpr (List.nodup_cons.mpr ⟨fun hmem => hτ ?_, h.nodup⟩)
    exact (h.blocked τ).mp hmem
  · intro σ
    rw [hids.mem_iff, List.mem_cons, h.blocked, hthreads]
    by_cases hσ : σ = τ
    · subst hσ
      simp
    · rw [Function.update_of_ne hσ]
      simp [hσ]

/-- The threads of one wait list are woken. -/
theorem wake {V₁ : View} {l : LockView} (h : V.WaitsMatch)
    (hids : V.waiterIds.Perm (l.ids ++ V'.waiterIds)) (hwoken : Woken l.waiters V V₁)
    (hthreads : V'.threadState = V₁.threadState) : V'.WaitsMatch := by
  have hnd := hids.nodup_iff.mp h.nodup
  refine ⟨(List.nodup_append.mp hnd).2.1, fun τ => ?_⟩
  have hmem : τ ∈ l.ids ∨ τ ∈ V'.waiterIds ↔ V.threadState τ = some .T_BLOCKED_MUTEX := by
    rw [← h.blocked, hids.mem_iff, List.mem_append]
  have hdisjoint : τ ∈ l.ids → τ ∉ V'.waiterIds := fun hl hrest =>
    (List.nodup_append.mp hnd).2.2 τ hl τ hrest rfl
  rw [hthreads, hwoken.threads]
  by_cases hl : τ ∈ l.ids
  · rw [if_pos ⟨hl, hmem.mp (.inl hl)⟩]
    simp [hdisjoint hl]
  · rw [if_neg fun h => hl h.1, ← hmem]
    simp [hl]

end View.WaitsMatch

namespace Rep

variable {k : Kernel} {V V' : View} {op : KernelOp} {κ : LockKind} {l : LockView} {id : Int}

/-- A lock gets another status. -/
theorem waitsMatch_setLock (hr : Rep k V) (h : V.WaitsMatch) (hl : l ∈ V.locks κ) (status : Int) :
    (V.setLock κ l (l.setStatus status)).WaitsMatch := by
  obtain ⟨rest, hids, hids'⟩ := hr.waiterIds_setLock hl
  refine h.of_eq ((hids' _).trans hids.symm) fun τ => ?_
  rw [View.threadState_setLock]

theorem waitsMatch_destroy (hr : Rep k V) (h : V.WaitsMatch) {A B : List LockView}
    (hl : V.lockWith κ id = some l) (hL : V.locks κ = A ++ l :: B) (hnobody : k.NobodyWaits κ id) :
    (V.setLocks κ (A ++ B)).WaitsMatch := by
  obtain ⟨fuel, hfind⟩ := (hr.findLock κ id).exists_fuel
  rw [hl] at hfind
  have hne := hr.lock_ne_null (mem_of_lockWith hl)
  obtain ⟨l', hl', -, -, hempty⟩ := hr.lockWith_of_findLock hfind hne
  obtain rfl := Option.some.inj (hl.symm.trans hl')
  have hids : l.ids = [] := by
    rw [LockView.ids, hempty (hnobody fuel _ hfind hne), List.map_nil]
  have hperm := View.waiterIds_perm hL
  rw [hids, List.nil_append] at hperm
  exact h.of_eq hperm.symm fun τ => by rw [View.threadState_setLocks]

theorem waitsMatch_unlocks (hr : Rep k V) (hok : V.Ok) (h : V.WaitsMatch) (hl : l ∈ V.locks κ)
    {status : Int} (hunlock : V.Unlocks κ l status V') : V'.WaitsMatch := by
  obtain ⟨V₁, hwoken, hthreads, -, hlocks⟩ := hr.unlocks hok hunlock
  obtain ⟨rest, hids, hids'⟩ := hr.waiterIds_setLock hl
  refine h.wake ?_ hwoken hthreads
  rw [View.waiterIds_congr hlocks]
  exact hids.trans ((hids' ⟨l.addr, l.id, status, []⟩).symm.append_left l.ids)

/-- A switch that removes no waiting thread. -/
theorem waitsMatch_switched {gone : Int → Prop} (h : V.WaitsMatch) (hs : Switched gone V V')
    (hgone : ∀ τ : ThreadId, gone τ.1 → V.threadState τ ≠ some .T_BLOCKED_MUTEX) :
    V'.WaitsMatch := by
  refine h.of_eq (View.waiterIds_congr hs.locks ▸ List.Perm.refl _) fun τ => ?_
  rcases hs.threads τ with ⟨hτ, hfind⟩ | hmoved
  · have hnone : V'.threadState τ = none := by rw [View.threadState, hfind, Option.bind_none]
    simp [hnone, hgone τ hτ]
  · exact (hmoved.eq_of_asleep rfl).symm

/-- Every event that spares the waiting threads keeps the match. -/
theorem waitsMatch_effect (hr : Rep k V) (hok : V.Ok) (h : Effect k V op V')
    (hreceive : ∀ name buff, op = .receive name buff → V' = V ∨ k.PipeEmpty name buff)
    (hspares : SparesWaiters k op) (hmatch : V.WaitsMatch) : V'.WaitsMatch := by
  have hawake : ∀ {τ : ThreadId}, ¬ k.ThreadIs τ .T_BLOCKED_MUTEX →
      V.threadState τ ≠ some .T_BLOCKED_MUTEX := fun hτ h => hτ ((hr.threadIs_iff hok).mpr h)
  have hsame : V'.waiterIds = V.waiterIds → V'.threadState = V.threadState → V'.WaitsMatch :=
    fun hids hthreads => hmatch.of_eq (hids ▸ List.Perm.refl _) fun τ => by rw [hthreads]
  -- a switch removes the threads of dead processes, and none of these waits
  have hswitch : Switched (fun pid => op.Switches k ∧ k.Reaped pid) V V' → V'.WaitsMatch :=
    fun hs => waitsMatch_switched hmatch hs fun τ hgone =>
      hawake (hspares.removes hgone.1 τ hgone.2)
  -- a new entry in a wait list comes with the block of its thread
  have hwaits : ∀ {w : WaiterView} {κ : LockKind} {l l' : LockView}, l ∈ V.locks κ →
      l'.ids = w.id :: l.ids → V'.threadState =
        Function.update V.threadState w.id (some .T_BLOCKED_MUTEX) →
      (∀ κ', V'.locks κ' = (V.setLock κ l l').locks κ') → op.Blocks k w.id → V'.WaitsMatch := by
    intro w κ l l' hl hids hthreads hlocks hblocks
    obtain ⟨rest, hV, hV'⟩ := hr.waiterIds_setLock hl
    refine hmatch.wait ?_ hthreads (hawake (hspares.blocks _ hblocks))
    rw [View.waiterIds_congr hlocks]
    refine (hV' l').trans ?_
    rw [hids]
    exact hV.symm.cons w.id
  have hblock : ∀ {p : ProcessView} {t : ThreadView} {ty : ThreadState}, p ∈ V.table →
      t ∈ p.threads → ty ≠ .T_BLOCKED_MUTEX → op.Blocks k (p.val.pid, t.val.pthread) →
      (V.block p t.addr ty).WaitsMatch := fun hp ht hty hblocks =>
    hmatch.update rfl (hr.threadState_block hok hp ht _) hty (hawake (hspares.blocks _ hblocks))
  have heffect := h
  -- one case for each effect; the lists and the states change together or not at all
  cases h with
  | idle _ => exact hmatch
  | tick _ _ _ _ _ => exact hswitch (hr.switched_effect hok heffect (.inl ⟨_, _, rfl⟩))
  | yield _ _ _ _ _ => exact hswitch (hr.switched_effect hok heffect (.inr (.inl ⟨_, _, rfl⟩)))
  | removeDeadProcess => exact hswitch (hr.switched_effect hok heffect (.inr (.inr ⟨_, rfl⟩)))
  | addProcess hp =>
      refine hmatch.update rfl (hok.threadState_addProcess hp) (by decide) fun h => ?_
      obtain ⟨q, hq, t, -, heq, -⟩ := hok.threadState_some.mp h
      exact (hok.pid_lt q hq).2.ne (Prod.mk.inj heq).1
  | addThread hp _ ht =>
      refine hmatch.update rfl (hr.threadState_addThread hok hp ht) (by decide) fun h => ?_
      obtain ⟨q, hq, u, hu, heq, -⟩ := hok.threadState_some.mp h
      obtain ⟨hpid, hpthread⟩ := Prod.mk.inj heq
      obtain rfl := eq_of_key_eq hok.pids hq hp hpid
      exact ((hok.processes q hq).pthread_lt u hu).2.ne hpthread
  -- a killed process keeps its threads, in their states
  | removeProcess hp _ _ => exact hsame rfl (hr.threadState_kill hok hp)
  | @removeThread _ _ p t hp ht hpid hpthread hguard hmain =>
      refine hmatch.update ?_ (hr.threadState_killThread hok hp ht) (by decide)
        (hawake (hspares.kills _ ⟨hguard, hmain, by rw [hpid, hpthread]⟩))
      refine View.waiterIds_congr fun κ => ?_
      rw [View.killThread]
      split
      · cases κ <;> rfl
      · cases κ <;> rfl
  | blockThread hp ht hpid hpthread =>
      exact hblock hp ht hspares.byLocks (by rw [hpid, hpthread]; rfl)
  | @unblockThread _ _ ty p t hp ht _ _ =>
      refine hmatch.of_eq (List.Perm.refl _) fun τ => ?_
      rw [hr.threadState_unblock hok hp ht]
      by_cases hτ : τ = (p.val.pid, t.val.pthread)
      · subst hτ
        rw [Function.update_self, hok.threadState_eq hp ht]
        have hty : ty ≠ .T_BLOCKED_MUTEX := hspares.byLocks
        split
        case isTrue heq => simp [heq, hty]
        case isFalse => rfl
      · rw [Function.update_of_ne hτ]
  | @unblockAllThreads _ ty p hp _ =>
      refine hmatch.of_eq (List.Perm.refl _) fun τ => ?_
      have hty : ty ≠ .T_BLOCKED_MUTEX := hspares.byLocks
      rcases hr.threadState_unblockAll hok hp ty τ with heq | ⟨hold, hnew⟩
      · rw [heq]
      · simp [hold, hnew, hty]
  | createMutex _ _ hwaiters => exact hsame (View.waiterIds_addLock V .mutex hwaiters) (by simp)
  | createSemaphore _ _ hwaiters =>
      exact hsame (View.waiterIds_addLock V .semaphore hwaiters) (by simp)
  | mutexUp hl hunlock => exact hr.waitsMatch_unlocks hok hmatch (mem_of_lockWith hl) hunlock
  | mutexWait hl hstatus hwait =>
      obtain ⟨w, hcur, hthreads, hlocks⟩ := hr.waits hok hwait
      exact hwaits (mem_of_lockWith hl) rfl hthreads hlocks (hr.blocks_mutexDown hok hl hstatus hcur)
  | mutexTake hl _ => exact hr.waitsMatch_setLock hmatch (mem_of_lockWith hl) _
  -- the wait list is lost with the lock, and it is empty
  | mutexDestroy hl hL =>
      exact hr.waitsMatch_destroy hmatch hl hL (hspares.destroys .mutex _ ⟨rfl, rfl⟩)
  | semaphoreCount hl _ => exact hr.waitsMatch_setLock hmatch (mem_of_lockWith hl) _
  | semaphoreUp hl _ hunlock => exact hr.waitsMatch_unlocks hok hmatch (mem_of_lockWith hl) hunlock
  | semaphoreWait hl hstatus hwait =>
      obtain ⟨w, hcur, hthreads, hlocks⟩ := hr.waitsCounted hok (mem_of_lockWith hl) hwait
      exact hwaits (mem_of_lockWith hl) rfl hthreads hlocks
        (hr.blocks_semaphoreDown hok hl hstatus hcur)
  | semaphoreTake hl _ => exact hr.waitsMatch_setLock hmatch (mem_of_lockWith hl) _
  | semaphoreDestroy hl hL =>
      exact hr.waitsMatch_destroy hmatch hl hL (hspares.destroys .semaphore _ ⟨rfl, rfl⟩)
  | send _ hwake =>
      obtain ⟨-, -, hlocks, hthreads, -⟩ := wakeReceiver hwake hr hok
      refine hmatch.of_eq (View.waiterIds_congr hlocks ▸ List.Perm.refl _) fun τ => ?_
      rcases hthreads τ with heq | ⟨hold, hnew⟩
      · rw [heq]
      · simp [hold, hnew]
  | @receive _ _ fuel _ _ p t hreceiver hpthread hp ht hppid htpthread =>
      rcases hreceive _ _ rfl with heq | hempty
      · rw [heq]
        exact hmatch
      · exact hblock hp ht (by decide)
          ⟨hempty, ⟨fuel, by rw [hreceiver, hppid]⟩, by rw [hpthread, htpthread]⟩
  | @pmalloc _ c b hc _ _ =>
      exact hsame rfl (hr.states_set hok hc (c.setHeap (c.heap ++ [b])) rfl rfl rfl).1
  | @pfree _ c b A B hc _ _ _ =>
      exact hsame rfl (hr.states_set hok hc (c.setHeap (A ++ B)) rfl rfl rfl).1

/-! ## Entries -/

/-- The nodes of the wait lists are those of the view. -/
theorem hasEntry_iff (hr : Rep k V) {e : Entry} : k.HasEntry e ↔
    ∃ l ∈ V.locks e.1, l.addr = e.2.1 ∧ ∃ w ∈ l.waiters, w.addr = e.2.2 := by
  obtain ⟨κ, a, x⟩ := e
  have hlocks := hr.locks κ
  constructor
  · rintro ⟨ls, ws, hlist, hmem, hwaiters, hw⟩
    rw [hlist.unique hlocks.list] at hmem
    obtain ⟨l, hl, rfl⟩ := List.mem_map.mp hmem
    rw [hwaiters.unique (hlocks.locks l hl).list] at hw
    exact ⟨l, hl, rfl, List.mem_map.mp hw⟩
  · rintro ⟨l, hl, rfl, hw⟩
    exact ⟨_, _, hlocks.list, List.mem_map_of_mem hl, (hlocks.locks l hl).list,
      List.mem_map.mpr hw⟩

theorem waiterId_eq (hr : Rep k V) (hl : l ∈ V.locks κ) {w : WaiterView} (hw : w ∈ l.waiters) :
    k.waiterId (κ, l.addr, w.addr) = w.id := by
  have hrw := ((hr.locks κ).locks l hl).waiters w hw
  rw [Kernel.waiterId, WaiterView.id, hrw.pid, hrw.pthread]

/-- A thread that is on the wait lists once is so in one place. -/
theorem waiter_unique (hmatch : V.WaitsMatch) {κ' : LockKind} {l' : LockView} {w w' : WaiterView}
    (hl : l ∈ V.locks κ) (hw : w ∈ l.waiters) (hl' : l' ∈ V.locks κ') (hw' : w' ∈ l'.waiters)
    (heq : w'.id = w.id) : κ' = κ ∧ l' = l ∧ w' = w := by
  obtain ⟨A, B, hL⟩ := List.append_of_mem hl
  have hnd := (View.waiterIds_perm hL).nodup_iff.mp hmatch.nodup
  have hother : w'.id ∉ (V.setLocks κ (A ++ B)).waiterIds := fun hmem =>
    (List.nodup_append.mp hnd).2.2 w.id (List.mem_map_of_mem hw) w'.id hmem heq.symm
  have hκ : κ' = κ := by
    by_contra hκ
    refine hother (View.mem_waiterIds.mpr ⟨κ', l', ?_, w', hw', rfl⟩)
    rw [View.locks_setLocks_of_ne hκ]
    exact hl'
  subst hκ
  have hll : l' = l := by
    by_contra hne
    refine hother (View.mem_waiterIds.mpr ⟨κ', l', ?_, w', hw', rfl⟩)
    rw [hL] at hl'
    rw [View.locks_setLocks]
    rcases List.mem_append.mp hl' with hA | hB
    · exact List.mem_append_left B hA
    · rcases List.mem_cons.mp hB with rfl | hB
      · exact absurd rfl hne
      · exact List.mem_append_right A hB
  subst hll
  have hids : (l'.waiters.map WaiterView.id).Nodup := (List.nodup_append.mp hnd).1
  exact ⟨rfl, rfl, eq_of_key_eq hids hw' hw heq⟩

theorem waitListsMatch (hr : Rep k V) (hok : V.Ok) (hmatch : V.WaitsMatch) :
    k.WaitListsMatch := by
  constructor
  · intro e he
    obtain ⟨κ, a, x⟩ := e
    obtain ⟨l, hl, rfl, w, hw, rfl⟩ := hr.hasEntry_iff.mp he
    rw [hr.waiterId_eq hl hw, hr.threadIs_iff hok, ← hmatch.blocked]
    exact View.mem_waiterIds.mpr ⟨κ, l, hl, w, hw, rfl⟩
  · intro τ hτ
    rw [hr.threadIs_iff hok, ← hmatch.blocked] at hτ
    obtain ⟨κ, l, hl, w, hw, rfl⟩ := View.mem_waiterIds.mp hτ
    refine ⟨(κ, l.addr, w.addr), ⟨hr.hasEntry_iff.mpr ⟨l, hl, rfl, w, hw, rfl⟩,
      hr.waiterId_eq hl hw⟩, ?_⟩
    rintro ⟨κ', a, x⟩ ⟨he, hid⟩
    obtain ⟨l', hl', rfl, w', hw', rfl⟩ := hr.hasEntry_iff.mp he
    rw [hr.waiterId_eq hl' hw'] at hid
    obtain ⟨rfl, rfl, rfl⟩ := waiter_unique hmatch hl hw hl' hw' hid
    rfl

end Rep

/-! ## Over a run -/

theorem View.AtBoot.waitsMatch {V : View} (hok : V.Ok) (h : V.AtBoot) : V.WaitsMatch := by
  have hids : V.waiterIds = [] := by simp [View.waiterIds, h.mutexes, h.semaphores]
  refine ⟨by simp [hids], fun τ => ?_⟩
  rw [hids]
  refine iff_of_false List.not_mem_nil fun hblocked => ?_
  obtain ⟨p, hp, t, ht, -, hstate⟩ := hok.threadState_some.mp hblocked
  obtain ⟨entryPoint, pid, hcreated⟩ := h.created hp
  rw [(hcreated.thread ht).state] at hstate
  cases hstate

/-- While the events spare the waiting threads, the wait lists name exactly the blocked threads,
each of them once. -/
theorem wait_lists_match {k : Kernel} (h : Run SparesWaiters k) : k.WaitListsMatch := by
  have hmatch : ∃ V, Rep k V ∧ V.Ok ∧ V.WaitsMatch := by
    apply Reachable.invariant (I := fun k => ∃ V, Rep k V ∧ V.Ok ∧ V.WaitsMatch) _ _ h
    · intro k hboot
      obtain ⟨V, hr, hok, hV⟩ := hboot.rep
      exact ⟨V, hr, hok, hV.waitsMatch hok⟩
    · rintro k k' - ⟨V, hr, hok, hmatch⟩ ⟨k₁, op, fuel, hrec, hspares, hrun⟩
      have hr₁ := hr.recycled hrec
      obtain ⟨V', heffect, hr', hok', hreceive⟩ := hr₁.run_inv_receive hok hspares.sound hrun
      exact ⟨V', hr', hok', hr₁.waitsMatch_effect hok heffect hreceive hspares hmatch⟩
  obtain ⟨V, hr, hok, hmatch⟩ := hmatch
  exact hr.waitListsMatch hok hmatch

/-! ### A mutex is destroyed while a thread waits for it -/

theorem Run.sound_of_spares {k : Kernel} (h : Run SparesWaiters k) : Run Sound k :=
  h.mono (fun _ h => h) fun _ _ ⟨k₁, op, fuel, hrec, hspares, hop⟩ =>
    ⟨k₁, op, fuel, hrec, hspares.sound, hop⟩

/-- Process `0` takes a mutex, process `1` waits for it, and process `0` destroys it. -/
def destroyedMutex : Except Stop (Kernel × Kernel × Kernel × Kernel) := do
  let k₀ ← startKernel
  let (_, k₁) ← createMutex 40 k₀
  let k₂ ← mutexDown 40 k₁ 0
  let k₃ ← KernelOp.runSound 40 (List.replicate 6 (.tick nullGarbage 8) ++
    [.mutexDown 0, .yield nullGarbage 8, .mutexDestroy 0]) k₂
  return (k₀, k₁, k₂, k₃)

theorem destroyedMutex_states : (do
    let r ← destroyedMutex
    let (k₀, k₁, _, k₃) := r
    let a ← findID 40 k₁ 0
    return decide (a ≠ NULL ∧ k₀.cleanLock? ∧ k₁.Current (0, 0) ∧ k₁.threadIs? (0, 0) .T_READY ∧
      k₃.threadIs? (1, 0) ThreadState.T_BLOCKED_MUTEX ∧ k₃.mutexList = NULL ∧
      k₃.semaphoreList = NULL) : Except Stop Bool) = .ok true := by
  decide +kernel

/-- The events so far spare the waiting threads, of which there are none. -/
theorem destroyedMutex_reachable : ∃ k₂ k₃ fuel ops, Run SparesWaiters k₂ ∧
    (∀ op ∈ ops, op.ByLocks) ∧ KernelOp.runSound fuel ops k₂ = .ok k₃ ∧
    k₃.ThreadIs (1, 0) .T_BLOCKED_MUTEX ∧ k₃.mutexList = NULL ∧ k₃.semaphoreList = NULL := by
  obtain ⟨r, hr, h⟩ := bind_eq_ok.mp destroyedMutex_states
  rw [destroyedMutex] at hr
  obtain ⟨k₀, hk₀, hr⟩ := bind_eq_ok.mp hr
  obtain ⟨⟨id, k₁⟩, hk₁, hr⟩ := bind_eq_ok.mp hr
  obtain ⟨k₂, hk₂, hr⟩ := bind_eq_ok.mp hr
  obtain ⟨k₃, hk₃, hr⟩ := bind_eq_ok.mp hr
  obtain rfl := Except.ok.inj hr
  obtain ⟨a, hfind, h⟩ := bind_eq_ok.mp h
  obtain ⟨ha, hclean, hcur, hready, hblocked, hmutexes, hsemaphores⟩ :=
    of_decide_eq_true (Except.ok.inj h)
  have hrun₀ : Run SparesWaiters k₀ := .start (booted_of_start hk₀)
  have hcreate : KernelOp.createMutex.run 40 k₀ = .ok k₁ := bind_eq_ok.mpr ⟨_, hk₁, rfl⟩
  have hrun₁ : Run SparesWaiters k₁ := hrun₀.step .createMutex
    ⟨Kernel.cleanLock_of hclean, trivial, fun _ => False.elim, fun _ => False.elim, False.elim,
      fun _ _ => False.elim, fun _ _ => False.elim⟩ hcreate
  have hawake : ¬ k₁.ThreadIs (0, 0) .T_BLOCKED_MUTEX :=
    hrun₁.sound_of_spares.not_threadIs_of hready ThreadState.noConfusion
  have hspares : SparesWaiters k₁ (.mutexDown 0) := by
    refine ⟨trivial, trivial, fun τ hτ => ?_, fun _ => False.elim, False.elim, fun _ _ => False.elim, ?_⟩
    · rw [hτ.1.unique hcur]
      exact hawake
    · rintro κ id ⟨rfl, rfl⟩
      exact ⟨40, a, hfind, ha⟩
  refine ⟨k₂, k₃, 40, _, hrun₁.step (.mutexDown 0) hspares hk₂, fun op hop => ?_, hk₃,
    Kernel.threadIs_of hblocked, hmutexes, hsemaphores⟩
  simp only [List.mem_append, List.mem_replicate, List.mem_cons, List.not_mem_nil, or_false] at hop
  rcases hop with ⟨-, rfl⟩ | rfl | rfl | rfl
  all_goals trivial

/-- The thread stays blocked, and no list names it. -/
theorem destroyed_mutex_strands_waiter :
    ¬ ∀ k : Kernel, Run (fun k op => Sound k op ∧ op.ByLocks) k → k.WaitListsMatch := by
  intro hclaim
  obtain ⟨k₂, k₃, fuel, ops, hrun, hops, hrest, hblocked, hmutexes, hsemaphores⟩ :=
    destroyedMutex_reachable
  have hrun₂ : Run (fun k op => Sound k op ∧ op.ByLocks) k₂ :=
    hrun.mono (fun _ h => h) fun k k' ⟨k₁, op, fuel, hrec, hspares, hop⟩ =>
      ⟨k₁, op, fuel, hrec, ⟨hspares.sound, hspares.byLocks⟩, hop⟩
  have hrun₃ := Reachable.runSound (f := id) (fun _ _ hstep => hstep) hops hrun₂ hrest
  obtain ⟨⟨κ, a, w⟩, ⟨⟨ls, ws, hlist, hmem, -⟩, -⟩, -⟩ := (hclaim k₃ hrun₃).named _ hblocked
  have hnull : k₃.lockList κ = NULL := by
    cases κ with
    | mutex => exact hmutexes
    | semaphore => exact hsemaphores
  cases ls with
  | nil => cases hmem
  | cons l ls =>
      obtain ⟨hfirst, hne, -⟩ := Chain.cons_iff.mp hlist
      exact hne (hfirst.symm.trans hnull)

/-! ### A thread waits -/

/-- Process `0` waits for a semaphore without permits. -/
def waitingThread : Except Stop (Kernel × Kernel × Kernel) := do
  let k₀ ← startKernel
  let (_, k₁) ← createSemaphore 40 k₀ 0
  let k₂ ← semaphoreDown 40 k₁ 0
  return (k₀, k₁, k₂)

theorem waitingThread_states : (do
    let (k₀, k₁, k₂) ← waitingThread
    let a ← findSemaphoreId 40 k₁ 0
    return decide (a ≠ NULL ∧ k₀.cleanLock? ∧ k₁.Current (0, 0) ∧ k₁.threadIs? (0, 0) .T_READY ∧
      k₂.threadIs? (0, 0) .T_BLOCKED_MUTEX) : Except Stop Bool) = .ok true := by
  decide +kernel

theorem wait_lists_match_of_waiter : ∃ k : Kernel, Run SparesWaiters k ∧
    k.ThreadIs (0, 0) .T_BLOCKED_MUTEX ∧ k.WaitListsMatch := by
  obtain ⟨⟨k₀, k₁, k₂⟩, hr, h⟩ := bind_eq_ok.mp waitingThread_states
  obtain ⟨a, hfind, h⟩ := bind_eq_ok.mp h
  obtain ⟨ha, hclean, hcur, hready, hblocked⟩ := of_decide_eq_true (Except.ok.inj h)
  rw [waitingThread] at hr
  obtain ⟨k₀, hk₀, hr⟩ := bind_eq_ok.mp hr
  obtain ⟨⟨id, k₁⟩, hk₁, hr⟩ := bind_eq_ok.mp hr
  obtain ⟨k₂, hk₂, hr⟩ := bind_eq_ok.mp hr
  cases hr
  have hrun₀ : Run SparesWaiters k₀ := .start (booted_of_start hk₀)
  have hcreate : (KernelOp.createSemaphore 0).run 40 k₀ = .ok k₁ := bind_eq_ok.mpr ⟨_, hk₁, rfl⟩
  have hrun₁ : Run SparesWaiters k₁ := hrun₀.step (.createSemaphore 0)
    ⟨Kernel.cleanLock_of hclean, trivial, fun _ => False.elim, fun _ => False.elim, False.elim,
      fun _ _ => False.elim, fun _ _ => False.elim⟩ hcreate
  have hspares : SparesWaiters k₁ (.semaphoreDown 0) := by
    refine ⟨trivial, trivial, fun τ hτ => ?_, fun _ => False.elim, False.elim, fun _ _ => False.elim, ?_⟩
    · rw [hτ.1.unique hcur]
      exact hrun₁.sound_of_spares.not_threadIs_of hready ThreadState.noConfusion
    · rintro κ id ⟨rfl, rfl⟩
      exact ⟨40, a, hfind, ha⟩
  have hrun₂ : Run SparesWaiters k₂ := hrun₁.step (.semaphoreDown 0) hspares hk₂
  exact ⟨k₂, hrun₂, Kernel.threadIs_of hblocked, wait_lists_match hrun₂⟩

end BasicKernel
