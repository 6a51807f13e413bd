import BasicKernel.View.Locks

set_option autoImplicit false

/-! # Locks on a view

What the functions of `mutex.c` and `semaphores.c` are made of: the lookup by number, the store of
the status, a new waiter at the head of the wait list, and the loop that wakes all waiters. The
loop unblocks a thread and frees its node before it looks for the next one. A waiter whose process
is gone makes the call go through the null pointer, so from a run that returned it follows that
every waiter was there.
-/

namespace BasicKernel

open Linked Keyed Fuel

/-! ## The operations

Status and wait list are set separately, as the code stores them one after the other. -/

/-- The lock that a search by `id` finds. -/
def View.lockWith (κ : LockKind) (id : Int) (V : View) : Option LockView :=
  (V.locks κ).find? fun l => l.id = id

/-- The status behind an up of a semaphore, an `int`. -/
def LockView.raised (l : LockView) : Int := toInt32 (l.status + 1)

/-- The status behind a down of a semaphore. -/
def LockView.lowered (l : LockView) : Int := toInt32 (l.status - 1)

def LockView.setStatus (status : Int) (l : LockView) : LockView := { l with status }

def LockView.setWaiters (waiters : List WaiterView) (l : LockView) : LockView := { l with waiters }

/-- Every waiting thread is unblocked, from the head of the wait list on. -/
inductive WakeAll : List WaiterView → View → View → Prop
  | nil (V : View) : WakeAll [] V V
  | cons {w : WaiterView} {ws : List WaiterView} {V V' : View} {p : ProcessView} {t : ThreadView} :
      p ∈ V.table → p.val.pid = w.pid → t ∈ p.threads → t.val.pthread = w.pthread →
      WakeAll ws (V.set p (p.unblock t .T_BLOCKED_MUTEX)) V' → WakeAll (w :: ws) V V'

/-- A new lock at the end of its registry. -/
def View.addLock (κ : LockKind) (l : LockView) (V : View) : View :=
  match κ with
  | .mutex => { V with mutexes := V.mutexes ++ [l], mutexCounter := toInt32 (V.mutexCounter + 1) }
  | .semaphore => { V with
      semaphores := V.semaphores ++ [l]
      semaphoreCounter := toInt32 (V.semaphoreCounter + 1) }

/-- Waking does not look at the locks. -/
theorem WakeAll.of_setLock {ws : List WaiterView} {V V'' : View} {κ : LockKind} {l l' : LockView}
    (h : WakeAll ws (V.setLock κ l l') V'') : ∃ V', WakeAll ws V V' ∧ V'' = V'.setLock κ l l' := by
  generalize hV : V.setLock κ l l' = V₁ at h
  induction h generalizing V with
  | nil => exact ⟨V, .nil V, hV.symm⟩
  | @cons w ws V₁ V'' p t hp hpid ht hpt _ ih =>
      subst hV
      rw [View.setLock_table] at hp
      obtain ⟨V', hV', rfl⟩ := ih (V.set_setLock p _ κ l l').symm
      exact ⟨V', .cons hp hpid ht hpt hV', rfl⟩

namespace Rep

variable {k k' : Kernel} {V : View} {κ : LockKind} {l : LockView} {fuel : Nat}

/-! ## Lookup and status

A search of the registry gets to the first lock with the number, or to the null pointer. -/

theorem findLock (hr : Rep k V) (κ : LockKind) (id : Int) :
    Returns (BasicKernel.findLock · k (k.lockList κ) id)
      (((V.lockWith κ id).map LockView.addr).getD NULL) := by
  have hlocks := hr.locks κ
  let q : Addr → Bool := fun a => decide ((k.lock a).id = id)
  have hfind : ((V.locks κ).map LockView.addr).find? q = (V.lockWith κ id).map LockView.addr := by
    rw [List.find?_map]
    congr 1
    exact List.find?_congr fun l hl => by simp only [q, Function.comp, (hlocks.locks l hl).id]
  rw [← hfind]
  refine Chain.walkWhile hlocks.list (by simp) (fun a ha => ?_) fun _ _ => rfl
  have hne : a ≠ NULL := fun h => hlocks.list.nil_notMem (h ▸ ha)
  simp [hne, q]

theorem findLock_inv (hr : Rep k V) {id : Int} {a : Addr}
    (h : BasicKernel.findLock fuel k (k.lockList κ) id = .ok a) :
    (∃ l ∈ V.locks κ, V.lockWith κ id = some l ∧ a = l.addr) ∨
      V.lockWith κ id = none ∧ a = NULL := by
  have ha := (hr.findLock κ id).eq h
  cases hl : V.lockWith κ id with
  | none => exact .inr ⟨rfl, by rw [ha, hl]; rfl⟩
  | some l => exact .inl ⟨l, List.mem_of_find?_eq_some hl, rfl, by rw [ha, hl]; rfl⟩

/-- An assignment to the status of a lock. -/
theorem setStatus (hr : Rep k V) (hl : l ∈ V.locks κ) {f : LockNode → LockNode} (status : Int)
    (hf : f (k.lock l.addr) = { k.lock l.addr with status }) :
    ∃ k', k.modifyLock l.addr f = .ok k' ∧ Rep k' (V.setLock κ l (l.setStatus status)) := by
  have hrl := (hr.locks κ).locks l hl
  refine ⟨_, Kernel.modifyLock_of_ne (hr.lock_ne_null hl) f, ?_⟩
  refine hr.replaceLock hl rfl rfl ⟨?_, ?_, ?_, fun w hw =>
    ⟨(hrl.waiters w hw).pid, (hrl.waiters w hw).pthread⟩⟩ ?_ (fun a ha => ?_)
    (fun _ _ _ _ _ _ => rfl) ?_
  · simp only [LockView.setStatus, Function.update_self, hf]
    exact hrl.id
  · simp only [LockView.setStatus, Function.update_self, hf]
  · simp only [LockView.setStatus, Function.update_self, hf]
    exact hrl.list
  · simp only [Function.update_self, hf]
  · exact Function.update_of_ne ha _ _
  · obtain ⟨rest, hV, hset⟩ := hr.lock_blocks_perm hl
    exact hr.owns.perm (hV.trans (hset (l.setStatus status)).symm)

/-! ## The wait lists

A waiter is entered with the numbers of the current thread. The wake-up loop takes the head of the
list, unblocks the thread with its numbers and frees the node. -/

theorem addThreadToLockList_inv (hr : Rep k V) (hl : l ∈ V.locks κ) {pid pthread : Int}
    (h : addThreadToLockList k l.addr pid pthread = .ok k') :
    ∃ w : WaiterView, w.pid = pid ∧ w.pthread = pthread ∧
      Rep k' (V.setLock κ l (l.setWaiters (w :: l.waiters))) := by
  have hne := hr.lock_ne_null hl
  have hrl := (hr.locks κ).locks l hl
  rcases hr.owns.allocate BLOCKED_THREAD_NODE_SIZE (by decide) (by decide) with
    ⟨n, m, hall, hn, ho⟩ | hall
  · simp only [addThreadToLockList, hall, ok_bind, Kernel.modifyBlockedThread_of_ne hn,
      load_of_ne hne, Kernel.modifyLock_of_ne hne, Function.update_self, Function.update_idem] at h
    have hk' := (Except.ok.inj h).symm
    have hlock : k'.lock = Function.update k.lock l.addr
        { k.lock l.addr with blockedThreadList := n } := by rw [hk']
    have hblocked : k'.blockedThread = Function.update k.blockedThread n
        ⟨pid, pthread, (k.lock l.addr).blockedThreadList⟩ := by rw [hk']
    -- the page of the new node was free, so no waiter is stored in it
    have hfresh : ∀ κ', ∀ l₂ ∈ V.locks κ', ∀ w ∈ l₂.waiters,
        k'.blockedThread w.addr = k.blockedThread w.addr := by
      intro κ' l₂ hl₂ w hw
      rw [hblocked]
      have hw' : w.block ∈ V.blocks :=
        View.mem_blocks_of_lock hl₂ (List.mem_cons_of_mem _ (List.mem_map_of_mem hw))
      have hne : w.addr ≠ n := ho.fresh hw'
      exact Function.update_of_ne hne _ _
    refine ⟨⟨n, pid, pthread⟩, rfl, rfl, ?_⟩
    refine hr.replaceLock hl rfl (by rw [hk']) ⟨?_, ?_, ?_, fun w hw => ?_⟩ ?_ (fun a ha => ?_)
      (fun κ' l₂ hl₂ _ => hfresh κ' l₂ hl₂) ?_
    · simp only [LockView.setWaiters, hlock, Function.update_self]
      exact hrl.id
    · simp only [LockView.setWaiters, hlock, Function.update_self]
      exact hrl.status
    · simp only [LockView.setWaiters, hlock, Function.update_self, List.map_cons]
      refine Chain.cons_iff.mpr ⟨rfl, hn, ?_⟩
      rw [Kernel.nextWaiter, hblocked, Function.update_self]
      refine hrl.list.congr fun x hx => ?_
      obtain ⟨w, hw, rfl⟩ := List.mem_map.mp hx
      rw [Kernel.nextWaiter, hfresh κ l hl w hw]
      rfl
    · rcases List.mem_cons.mp hw with rfl | hw
      · exact ⟨by rw [hblocked, Function.update_self], by rw [hblocked, Function.update_self]⟩
      · have hw' := hrl.waiters w hw
        exact ⟨by rw [hfresh κ l hl w hw, hw'.pid], by rw [hfresh κ l hl w hw, hw'.pthread]⟩
    · rw [hlock, Function.update_self]
    · rw [hlock, Function.update_of_ne ha]
    · obtain ⟨rest, hV, hset⟩ := hr.lock_blocks_perm hl
      rw [show k'.memory = m by rw [hk']]
      refine ho.perm (List.Perm.trans ?_ (hset (l.setWaiters _)).symm)
      exact (hV.cons _).trans (.swap ..)
  -- without a page the store into the node goes through the null pointer
  · simp [addThreadToLockList, hall] at h

/-- The current thread is entered into the wait list and blocked. -/
theorem waitForLock_inv (hr : Rep k V) (hok : V.Ok) (hl : l ∈ V.locks κ)
    (h : waitForLock fuel k l.addr = .ok k') :
    ∃ c ∈ V.table, ∃ t ∈ c.threads, c.node = V.current ∧ t.lib = c.val.currentThread ∧
      ∃ w : WaiterView, w.pid = c.val.pid ∧ w.pthread = t.val.pthread ∧
        Rep k' ((V.setLock κ l (l.setWaiters (w :: l.waiters))).block c t.addr .T_BLOCKED_MUTEX) ∧
        ((V.setLock κ l (l.setWaiters (w :: l.waiters))).block c t.addr .T_BLOCKED_MUTEX).Ok := by
  obtain ⟨c, hc, hccur⟩ := hok.current
  obtain ⟨t, ht, htcur⟩ := (hr.processes c hc).exists_current
  simp only [waitForLock, hr.getCurrentPid hc hccur, hr.getCurrentPthread hc hccur ht htcur,
    ok_bind] at h
  obtain ⟨k₁, hadd, h⟩ := bind_eq_ok.mp h
  obtain ⟨w, hpid, hpthread, hr₁⟩ := hr.addThreadToLockList_inv hl hadd
  have hok₁ := hok.setLock κ l (l.setWaiters (w :: l.waiters))
  have hc₁ : c ∈ (V.setLock κ l (l.setWaiters (w :: l.waiters))).table := by
    rw [View.setLock_table]
    exact hc
  obtain ⟨k₂, hret, hr₂⟩ := hr₁.blockThread hok₁ hc₁ ht .T_BLOCKED_MUTEX
  obtain rfl := hret.eq h
  exact ⟨c, hc, t, ht, hccur, htcur, w, hpid, hpthread, hr₂, hr₁.ok_block hok₁ hc₁ t.addr rfl⟩

/-- The first waiter leaves the wait list, and its node is given back. -/
theorem popWaiter (hr : Rep k V) (hl : l ∈ V.locks κ) {w : WaiterView} {ws : List WaiterView}
    (hws : l.waiters = w :: ws) :
    ∃ k₁ k', k.deallocate w.addr BLOCKED_THREAD_NODE_SIZE = .ok k₁ ∧
      k₁.modifyLock l.addr (fun v => { v with blockedThreadList := k.nextWaiter w.addr }) = .ok k' ∧
      Rep k' (V.setLock κ l (l.setWaiters ws)) := by
  have hrl := (hr.locks κ).locks l hl
  obtain ⟨rest, hV, hset⟩ := hr.lock_blocks_perm hl
  -- the node of `w` is reserved, so it can be given back
  have ho : Owns k.memory (w.block :: ((l.setWaiters ws).blocks ++ rest)) := by
    refine hr.owns.perm (hV.trans ?_)
    simp only [LockView.blocks, LockView.setWaiters, hws, List.map_cons]
    exact (List.Perm.swap ..).append_right rest
  obtain ⟨m, hdealloc, ho', -⟩ := ho.deallocate
  refine ⟨_, _, hdealloc, Kernel.modifyLock_of_ne (hr.lock_ne_null hl) _, ?_⟩
  have hlist := hrl.list
  rw [hws, List.map_cons] at hlist
  obtain ⟨hfirst, -, htail⟩ := Chain.cons_iff.mp hlist
  refine hr.replaceLock hl rfl rfl ⟨?_, ?_, ?_, fun v hv => ?_⟩ ?_ (fun a ha => ?_)
    (fun _ _ _ _ _ _ => rfl) (ho'.perm (hset (l.setWaiters ws)).symm)
  · simp only [LockView.setWaiters, Function.update_self]
    exact hrl.id
  · simp only [LockView.setWaiters, Function.update_self]
    exact hrl.status
  · simp only [LockView.setWaiters, Function.update_self]
    exact htail
  · have hv := hrl.waiters v (by rw [hws]; exact List.mem_cons_of_mem _ hv)
    exact ⟨hv.pid, hv.pthread⟩
  · simp only [Function.update_self]
  · exact Function.update_of_ne ha _ _

/-- The loop that empties a wait list. -/
theorem unlockAll_inv : ∀ {n : Nat} {k : Kernel} {V : View} {l : LockView}, Rep k V → V.Ok →
    l ∈ V.locks κ → BasicKernel.unlockAll fuel l.addr n k = .ok k' →
    ∃ V', WakeAll l.waiters V V' ∧ Rep k' (V'.setLock κ l (l.setWaiters [])) ∧
      (V'.setLock κ l (l.setWaiters [])).Ok := by
  intro n
  -- on the rounds of the loop; each takes the first waiter
  induction n with
  | zero =>
      intro k V l _ _ _ h
      cases h
  | succ n ih =>
      intro k V l hr hok hl h
      have hne := hr.lock_ne_null hl
      have hrl := (hr.locks κ).locks l hl
      simp only [BasicKernel.unlockAll, load_of_ne hne, ok_bind] at h
      cases hws : l.waiters with
      | nil =>
          have hnull : (k.lock l.addr).blockedThreadList = NULL := by
            have := hrl.list
            rw [hws] at this
            exact Chain.nil_iff.mp this
          rw [if_pos hnull] at h
          obtain rfl := Except.ok.inj h
          have hself : V.setLock κ l (l.setWaiters []) = V := by
            have hupdate : update LockView.addr l.addr (fun _ => l.setWaiters []) (V.locks κ)
                = V.locks κ := update_of_forall fun l₂ hl₂ h => by
              obtain rfl := (hr.eq_of_lockAddr hl₂ hl h).2
              rw [LockView.setWaiters, ← hws]
            rw [View.setLock, hupdate, View.setLocks_self]
          exact ⟨V, .nil V, by rw [hself]; exact ⟨hr, hok⟩⟩
      | cons w ws =>
          have hlist := hrl.list
          rw [hws, List.map_cons] at hlist
          obtain ⟨hfirst, hwne, -⟩ := Chain.cons_iff.mp hlist
          have hw := hrl.waiters w (by rw [hws]; exact List.mem_cons_self)
          rw [hfirst, if_neg hwne] at h
          simp only [load_of_ne hwne, ok_bind, hw.pid, hw.pthread] at h
          obtain ⟨k₁, hunblock, h⟩ := bind_eq_ok.mp h
          -- the wake-up returned, so the process and the thread are there
          obtain ⟨p, hp, t, ht, hpid, hpthread, hr₁⟩ := hr.unblockThread_inv hok hunblock
          have hok₁ := hr.ok_unblock hok hp t .T_BLOCKED_MUTEX
          have hl₁ : l ∈ (V.set p (p.unblock t .T_BLOCKED_MUTEX)).locks κ := by
            rw [View.locks_set]
            exact hl
          have hlist₁ := ((hr₁.locks κ).locks l hl₁).list
          rw [hws, List.map_cons] at hlist₁
          -- `unblockThread` does not change the wait list
          have hnext : (k.blockedThread w.addr).next = k₁.nextWaiter w.addr :=
            Chain.start_eq (Chain.cons_iff.mp hlist).2.2 (Chain.cons_iff.mp hlist₁).2.2
          obtain ⟨k₂, k₃, hdealloc, hmod, hr₂⟩ := hr₁.popWaiter hl₁ hws
          simp only [ok_bind, (Chain.cons_iff.mp hlist₁).1, hdealloc, hnext,
            hmod] at h
          have hok₂ := hok₁.setLock κ l (l.setWaiters ws)
          obtain ⟨V', hwake, hr', hok'⟩ := ih hr₂ hok₂ (View.mem_setLock hl₁ _) h
          obtain ⟨V'', hwake', rfl⟩ := hwake.of_setLock
          rw [View.setLock_setLock _ _ (by rfl)] at hr' hok'
          exact ⟨V'', .cons hp hpid ht hpthread hwake', hr', hok'⟩

end Rep

end BasicKernel
