import BasicKernel.View.Moves

set_option autoImplicit false

/-! # The locks during an event

What waiting and unlocking do to the states and to the locks, and which events leave a lock alone.

A wait list is followed as a list of nodes, so the lemmas need no bound on its length.
-/

namespace BasicKernel

open Linked Keyed Fuel

/-- The call concerns the lock with the number `id`. -/
def KernelOp.Concerns (κ : LockKind) (id : Int) : KernelOp → Prop
  | mutexUp i => κ = .mutex ∧ i = id
  | mutexDown i => κ = .mutex ∧ i = id
  | mutexDestroy i => κ = .mutex ∧ i = id
  | semaphoreUp i => κ = .semaphore ∧ i = id
  | semaphoreDown i => κ = .semaphore ∧ i = id
  | semaphoreDestroy i => κ = .semaphore ∧ i = id
  | _ => False

open Classical in
/-- The threads of the list that are still blocked. -/
noncomputable def Kernel.stillBlocked (k : Kernel) (τs : List ThreadId) : List ThreadId :=
  τs.filter fun τ => k.ThreadIs τ .T_BLOCKED_MUTEX

open Classical in
/-- The threads of the list that were made ready. -/
noncomputable def Kernel.woken (k : Kernel) (τs : List ThreadId) : List ThreadId :=
  τs.filter fun τ => ¬ k.ThreadIs τ .T_BLOCKED_MUTEX

section Blocked

variable {k : Kernel} {τs : List ThreadId}

theorem Kernel.stillBlocked_eq_nil (h : ∀ τ ∈ τs, ¬ k.ThreadIs τ .T_BLOCKED_MUTEX) :
    k.stillBlocked τs = [] := by
  rw [stillBlocked, List.filter_eq_nil_iff]
  intro τ hτ
  simpa using h τ hτ

theorem Kernel.stillBlocked_eq_self (h : ∀ τ ∈ τs, k.ThreadIs τ .T_BLOCKED_MUTEX) :
    k.stillBlocked τs = τs := by
  rw [stillBlocked, List.filter_eq_self]
  intro τ hτ
  simpa using h τ hτ

theorem Kernel.woken_eq_self (h : ∀ τ ∈ τs, ¬ k.ThreadIs τ .T_BLOCKED_MUTEX) :
    k.woken τs = τs := by
  rw [woken, List.filter_eq_self]
  intro τ hτ
  simpa using h τ hτ

end Blocked

theorem View.lockWith_id {V : View} {κ : LockKind} {id : Int} {l : LockView}
    (h : V.lockWith κ id = some l) : l.id = id := by
  simpa using List.find?_some h

theorem View.lockWith_congr {V V' : View} {κ : LockKind} (h : V'.locks κ = V.locks κ) (id : Int) :
    V'.lockWith κ id = V.lockWith κ id := by
  rw [View.lockWith, View.lockWith, h]

namespace Rep

variable {k k' : Kernel} {V V' : View} {κ κ' : LockKind} {l l' : LockView} {id : Int}
  {op : KernelOp}

/-! ## Waiting and unlocking

The two loops over a wait list, as one change of the view each. -/

/-- Every entry of a wait list is an object of its own, so no wait list is long. -/
theorem waiters_length_lt (hr : Rep k V) (hl : l ∈ V.locks κ) : l.waiters.length < 2 ^ 19 := by
  obtain ⟨rest, hV, -⟩ := hr.lock_blocks_perm hl
  have hlength := (hr.owns.perm hV).length_lt
  simp only [LockView.blocks, List.length_append, List.length_cons, List.length_map] at hlength
  omega

/-- The current thread waits: its number is the first entry of the wait list, and it is blocked. -/
theorem waits (hr : Rep k V) (hok : V.Ok) (h : V.Waits κ l V') : ∃ w : WaiterView,
    V.Current w.id ∧ V'.threadState = Function.update V.threadState w.id (some .T_BLOCKED_MUTEX) ∧
      ∀ κ', V'.locks κ' = (V.setLock κ l (l.setWaiters (w :: l.waiters))).locks κ' := by
  obtain ⟨c, hc, t, ht, hccur, htcur, w, hpid, hpthread, rfl⟩ := h
  have hw : w.id = (c.val.pid, t.val.pthread) := by rw [WaiterView.id, hpid, hpthread]
  refine ⟨w, ⟨c, hc, t, ht, hccur, htcur, hw⟩, ?_, fun κ' => by cases κ' <;> rfl⟩
  have htable : ((V.setLock κ l (l.setWaiters (w :: l.waiters))).block c t.addr .T_BLOCKED_MUTEX).table
      = (V.block c t.addr .T_BLOCKED_MUTEX).table := by
    simp only [View.block, View.set, View.setLock_table]
  rw [View.threadState_congr htable, hw]
  exact hr.threadState_block hok hc ht _

/-- The same for a semaphore, which is counted down before. -/
theorem waitsCounted (hr : Rep k V) (hok : V.Ok) (hl : l ∈ V.locks κ) {status : Int}
    (h : (V.setLock κ l (l.setStatus status)).Waits κ (l.setStatus status) V') :
    ∃ w : WaiterView, V.Current w.id ∧
      V'.threadState = Function.update V.threadState w.id (some .T_BLOCKED_MUTEX) ∧
      ∀ κ', V'.locks κ' = (V.setLock κ l ⟨l.addr, l.id, status, w :: l.waiters⟩).locks κ' := by
  obtain ⟨k₁, -, hr₁⟩ := hr.setStatus hl status (f := fun n => { n with status }) rfl
  obtain ⟨w, hcur, hthreads, hlocks⟩ := hr₁.waits (hok.setLock κ l _) h
  rw [View.threadState_setLock] at hthreads
  rw [View.setLock_setLock _ _ (by rfl)] at hlocks
  obtain ⟨c, hc, t, ht, hccur, htcur, hw⟩ := hcur
  rw [View.setLock_table] at hc
  rw [View.setLock_current] at hccur
  exact ⟨w, ⟨c, hc, t, ht, hccur, htcur, hw⟩, hthreads, hlocks⟩

/-- Unlocking makes all threads of the wait list ready and empties it. -/
theorem unlocks (hr : Rep k V) (hok : V.Ok) {status : Int} (h : V.Unlocks κ l status V') :
    ∃ V₁, Woken l.waiters V V₁ ∧ V'.threadState = V₁.threadState ∧
      V'.processState = V₁.processState ∧
      ∀ κ', V'.locks κ' = (V.setLock κ l ⟨l.addr, l.id, status, []⟩).locks κ' := by
  obtain ⟨V₁, hwake, rfl⟩ := h
  obtain ⟨-, -, hwoken⟩ := hr.wakeAll hok hwake
  refine ⟨V₁, hwoken, by simp, by simp, fun κ' => ?_⟩
  by_cases hκ : κ' = κ
  · subst hκ
    rw [View.locks_setLock, View.locks_setLock, hwoken.locks]
  · rw [View.setLock, View.setLock, View.locks_setLocks_of_ne hκ, View.locks_setLocks_of_ne hκ,
      hwoken.locks]

/-- The lock that the search finds, with the fields that its node holds. -/
theorem lockWith_of_findLock (hr : Rep k V) {fuel : Nat} {a : Addr}
    (h : BasicKernel.findLock fuel k (k.lockList κ) id = .ok a) (ha : a ≠ NULL) :
    ∃ l, V.lockWith κ id = some l ∧ l.addr = a ∧ l.status = (k.lock a).status ∧
      ((k.lock a).blockedThreadList = NULL → l.waiters = []) := by
  rcases hr.findLock_inv h with ⟨l, hl, hsome, rfl⟩ | ⟨-, hnull⟩
  · have hrl := (hr.locks κ).locks l hl
    refine ⟨l, hsome, rfl, hrl.status.symm, fun hnull => ?_⟩
    have hlist := hrl.list
    rw [hnull] at hlist
    cases hw : l.waiters with
    | nil => rfl
    | cons w ws =>
        rw [hw, List.map_cons] at hlist
        obtain ⟨hfirst, hne, -⟩ := Chain.cons_iff.mp hlist
        exact absurd hfirst.symm hne
  · exact absurd hnull ha

/-! ## Other locks

A lock that a call does not name has the same status and the same wait list behind it. -/

/-- A change of another lock. -/
theorem lockWith_setLock_of_ne (hr : Rep k V) (hl : l ∈ V.locks κ) (hne : κ' ≠ κ ∨ l.id ≠ id)
    (hid : l'.id = l.id) : (V.setLock κ l l').lockWith κ' id = V.lockWith κ' id := by
  by_cases hκ : κ' = κ
  · subst hκ
    have hlid : l.id ≠ id := by simpa using hne
    obtain ⟨A, B, hL⟩ := List.append_of_mem hl
    rw [View.lockWith, View.lockWith, hr.set_lock_append hL, hL, List.find?_append,
      List.find?_append]
    simp [hid, hlid]
  · exact View.lockWith_congr (View.locks_setLocks_of_ne hκ _ V) id

/-- An event that does not concern a lock leaves it as it is. -/
theorem lockWith_effect (hr : Rep k V) (hok : V.Ok) (h : Effect k V op V')
    (hop : ¬ op.Concerns κ id) (hl : V.lockWith κ id = some l) : V'.lockWith κ id = some l := by
  -- a change of one lock does not show at another number or in the other registry
  have hother : ∀ {κ' : LockKind} {i : Int} {l₁ l₂ : LockView}, V.lockWith κ' i = some l₁ →
      l₂.id = l₁.id → ¬ (κ = κ' ∧ i = id) → (V.setLock κ' l₁ l₂).lockWith κ id = some l := by
    intro κ' i l₁ l₂ hl₁ hid hne
    rw [hr.lockWith_setLock_of_ne (mem_of_lockWith hl₁) ?_ hid, hl]
    by_cases hκ : κ = κ'
    · exact .inr fun hi => hne ⟨hκ, by rw [← View.lockWith_id hl₁, hi]⟩
    · exact .inl hκ
  -- a new lock comes last, so the search finds the old one first
  have hnew : ∀ (κ' : LockKind) (l' : LockView), (V.addLock κ' l').lockWith κ id = some l := by
    intro κ' l'
    have hlocks : (V.addLock κ' l').locks κ = V.locks κ ∨
        (V.addLock κ' l').locks κ = V.locks κ ++ [l'] := by
      cases κ <;> cases κ' <;> simp [View.addLock, View.locks]
    rcases hlocks with hlocks | hlocks
    · rw [View.lockWith_congr hlocks, hl]
    · rw [View.lockWith, hlocks, List.find?_append, ← View.lockWith, hl]
      rfl
  have hdestroy : ∀ (κ' : LockKind) {i : Int} {l₁ : LockView} {A B : List LockView},
      V.lockWith κ' i = some l₁ → V.locks κ' = A ++ l₁ :: B → ¬ (κ = κ' ∧ i = id) →
      (V.setLocks κ' (A ++ B)).lockWith κ id = some l := by
    intro κ' i l₁ A B hl₁ hL hne
    by_cases hκ : κ = κ'
    · subst hκ
      have hid : l₁.id ≠ id := fun h => hne ⟨rfl, by rw [← View.lockWith_id hl₁, h]⟩
      rw [View.lockWith, hL, List.find?_append, List.find?_cons_of_neg (by simpa using hid)] at hl
      rw [View.lockWith, View.locks_setLocks, List.find?_append, hl]
    · rw [View.lockWith_congr (View.locks_setLocks_of_ne hκ _ V), hl]
  have heffect := h
  -- the events on other locks; all the rest leave the registries alone
  cases h with
  | idle _ => exact hl
  | tick _ _ _ _ _ => rw [View.lockWith_congr ((hr.switched_tick hok heffect).locks κ), hl]
  | yield _ _ _ _ _ => rw [View.lockWith_congr ((hr.switched_yield hok heffect).locks κ), hl]
  | send _ hwake =>
      obtain ⟨-, -, hlocks, -⟩ := wakeReceiver hwake hr hok
      rw [View.lockWith_congr (hlocks κ), hl]
  | createMutex _ _ _ => exact hnew _ _
  | createSemaphore _ _ _ => exact hnew _ _
  | mutexUp hl₁ hunlock =>
      obtain ⟨V₁, -, -, -, hlocks⟩ := hr.unlocks hok hunlock
      rw [View.lockWith_congr (hlocks κ)]
      exact hother hl₁ rfl hop
  | mutexWait hl₁ _ hwait =>
      obtain ⟨w, -, -, hlocks⟩ := hr.waits hok hwait
      rw [View.lockWith_congr (hlocks κ)]
      exact hother hl₁ rfl hop
  | mutexTake hl₁ _ => exact hother hl₁ rfl hop
  | mutexDestroy hl₁ hL => exact hdestroy .mutex hl₁ hL hop
  | semaphoreCount hl₁ _ => exact hother hl₁ rfl hop
  | semaphoreUp hl₁ _ hunlock =>
      obtain ⟨V₁, -, -, -, hlocks⟩ := hr.unlocks hok hunlock
      rw [View.lockWith_congr (hlocks κ)]
      exact hother hl₁ rfl hop
  | semaphoreWait hl₁ _ hwait =>
      obtain ⟨w, -, -, hlocks⟩ := hr.waitsCounted hok (mem_of_lockWith hl₁) hwait
      rw [View.lockWith_congr (hlocks κ)]
      exact hother hl₁ rfl hop
  | semaphoreTake hl₁ _ => exact hother hl₁ rfl hop
  | semaphoreDestroy hl₁ hL => exact hdestroy .semaphore hl₁ hL hop
  | _ => exact (View.lockWith_congr (by cases κ <;> rfl) id).trans hl

end Rep

end BasicKernel
