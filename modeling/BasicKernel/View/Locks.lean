import BasicKernel.View.Boot

set_option autoImplicit false

/-! # Stores that change one lock

A mutex and a semaphore are nodes of the same shape in two lists. `LockKind` tells the lists
apart, so that each fact about a lock is stated once. A store into one lock leaves the other
locks, the processes and the allocator as they are, because the nodes have pages of their own.
-/

namespace BasicKernel

open Linked Keyed Fuel

inductive LockKind where
  | mutex | semaphore
  deriving DecidableEq

def Kernel.lockList (k : Kernel) : LockKind → Addr
  | .mutex => k.mutexList
  | .semaphore => k.semaphoreList

def View.locks (V : View) : LockKind → List LockView
  | .mutex => V.mutexes
  | .semaphore => V.semaphores

def View.setLocks (κ : LockKind) (ls : List LockView) (V : View) : View :=
  match κ with
  | .mutex => { V with mutexes := ls }
  | .semaphore => { V with semaphores := ls }

/-- The entry `l` of the registry becomes `l'`. -/
def View.setLock (κ : LockKind) (l l' : LockView) (V : View) : View :=
  V.setLocks κ (update LockView.addr l.addr (fun _ => l') (V.locks κ))

section Fields

variable (κ κ' : LockKind) (ls : List LockView) (l l' : LockView) (V : View)

@[simp] theorem View.setLocks_table : (V.setLocks κ ls).table = V.table := by cases κ <;> rfl
@[simp] theorem View.setLocks_current : (V.setLocks κ ls).current = V.current := by cases κ <;> rfl
@[simp] theorem View.setLocks_ticks : (V.setLocks κ ls).ticks = V.ticks := by cases κ <;> rfl
@[simp] theorem View.setLocks_queueSize : (V.setLocks κ ls).queueSize = V.queueSize := by
  cases κ <;> rfl
@[simp] theorem View.setLocks_nextPid : (V.setLocks κ ls).nextPid = V.nextPid := by cases κ <;> rfl
@[simp] theorem View.setLocks_others : (V.setLocks κ ls).others = V.others := by cases κ <;> rfl
@[simp] theorem View.locks_setLocks : (V.setLocks κ ls).locks κ = ls := by cases κ <;> rfl

@[simp] theorem View.locks_set (p p' : ProcessView) : (V.set p p').locks κ = V.locks κ := by
  cases κ <;> rfl

theorem View.locks_setLocks_of_ne {κ κ' : LockKind} (h : κ' ≠ κ) (ls : List LockView) (V : View) :
    (V.setLocks κ ls).locks κ' = V.locks κ' := by
  cases κ <;> cases κ' <;> first | rfl | exact absurd rfl h

@[simp] theorem View.setLock_table : (V.setLock κ l l').table = V.table := V.setLocks_table κ _
@[simp] theorem View.setLock_current : (V.setLock κ l l').current = V.current :=
  V.setLocks_current κ _
@[simp] theorem View.setLock_ticks : (V.setLock κ l l').ticks = V.ticks := V.setLocks_ticks κ _
@[simp] theorem View.setLock_others : (V.setLock κ l l').others = V.others := V.setLocks_others κ _
@[simp] theorem View.locks_setLock :
    (V.setLock κ l l').locks κ = update LockView.addr l.addr (fun _ => l') (V.locks κ) :=
  V.locks_setLocks κ _

end Fields

theorem View.Ok.setLocks {V : View} (h : V.Ok) (κ : LockKind) (ls : List LockView) :
    (V.setLocks κ ls).Ok := by
  cases κ <;> exact ⟨⟨h.processes, h.pids, h.pid_lt, h.main, h.queueSize_le⟩, h.current⟩

theorem View.Ok.setLock {V : View} (h : V.Ok) (κ : LockKind) (l l' : LockView) :
    (V.setLock κ l l').Ok := h.setLocks κ _

theorem View.mem_setLock {V : View} {κ : LockKind} {l : LockView} (hl : l ∈ V.locks κ)
    (l' : LockView) : l' ∈ (V.setLock κ l l').locks κ := by
  rw [View.locks_setLock]
  exact mem_update_of_mem (g := fun _ => l') hl

/-- Processes and locks are changed independently. -/
theorem View.set_setLock (V : View) (p p' : ProcessView) (κ : LockKind) (l l' : LockView) :
    (V.setLock κ l l').set p p' = (V.set p p').setLock κ l l' := by
  cases κ <;> rfl

theorem View.setLock_setLock (V : View) (κ : LockKind) {l l' l'' : LockView}
    (h : l'.addr = l.addr) : (V.setLock κ l l').setLock κ l' l'' = V.setLock κ l l'' := by
  have hupdate : update LockView.addr l'.addr (fun _ => l'')
      (update LockView.addr l.addr (fun _ => l') (V.locks κ))
        = update LockView.addr l.addr (fun _ => l'') (V.locks κ) := by
    simp only [update, List.map_map, h]
    refine List.map_congr_left fun q _ => ?_
    by_cases hq : q.addr = l.addr <;> simp [hq, h]
  rw [View.setLock, View.locks_setLock, hupdate]
  cases κ <;> rfl

/-! ## The pages of the locks

A lock owns its node and the nodes of its wait list. Two locks with a common page are the same
lock. -/

theorem View.blocks_eq (V : View) (κ : LockKind) : ∃ rest,
    ∀ ls, (V.setLocks κ ls).blocks.Perm (ls.flatMap LockView.blocks ++ rest) := by
  cases κ with
  | mutex =>
      refine ⟨V.table.flatMap ProcessView.blocks ++ (V.semaphores.flatMap LockView.blocks ++ V.others),
        fun ls => ?_⟩
      simp only [View.blocks, View.setLocks, List.append_assoc]
      exact List.perm_append_comm_assoc ..
  | semaphore =>
      refine ⟨V.table.flatMap ProcessView.blocks ++ (V.mutexes.flatMap LockView.blocks ++ V.others),
        fun ls => ?_⟩
      simp only [View.blocks, View.setLocks]
      refine (List.perm_append_comm.append_right _).trans ?_
      simp only [List.append_assoc, List.Perm.refl]

@[simp] theorem View.setLocks_self (V : View) (κ : LockKind) : V.setLocks κ (V.locks κ) = V := by
  cases κ <;> rfl

theorem View.mem_blocks_of_lock {V : View} {κ : LockKind} {l : LockView} (hl : l ∈ V.locks κ)
    {b : Addr × Nat} (hb : b ∈ l.blocks) : b ∈ V.blocks := by
  simp only [View.blocks, List.mem_append, List.mem_flatMap]
  cases κ with
  | mutex => exact .inl (.inl (.inr ⟨l, hl, hb⟩))
  | semaphore => exact .inl (.inr ⟨l, hl, hb⟩)

namespace Rep

variable {k k' : Kernel} {V : View} {κ κ' : LockKind} {l l' : LockView}

theorem locks (hr : Rep k V) : ∀ κ, RepLocks k (k.lockList κ) (V.locks κ)
  | .mutex => hr.mutexes
  | .semaphore => hr.semaphores

theorem lock_ne_null (hr : Rep k V) (hl : l ∈ V.locks κ) : l.addr ≠ NULL := by
  intro h
  exact (hr.locks κ).list.nil_notMem (h ▸ List.mem_map_of_mem hl)

/-- A lock is determined by any of its pages. -/
theorem eq_of_lockBlock (hr : Rep k V) (hl : l ∈ V.locks κ) (hl' : l' ∈ V.locks κ')
    {b : Addr × Nat} (hb : b ∈ l.blocks) (hb' : b ∈ l'.blocks) : κ = κ' ∧ l = l' := by
  have hnd := hr.owns.nodup
  rw [View.blocks, List.append_assoc (V.table.flatMap _)] at hnd
  have hnd := (List.nodup_append.mp (List.nodup_append.mp hnd).1).2.1
  have hmem : ∀ {ls : List LockView} {x : LockView}, x ∈ ls → b ∈ x.blocks →
      b ∈ ls.flatMap LockView.blocks := fun hx hbx => List.mem_flatMap.mpr ⟨_, hx, hbx⟩
  cases κ <;> cases κ'
  · exact ⟨rfl, eq_of_mem_flatMap (List.nodup_append.mp hnd).1 hl hl' hb hb'⟩
  · exact absurd rfl ((List.nodup_append.mp hnd).2.2 b (hmem hl hb) b (hmem hl' hb'))
  · exact absurd rfl ((List.nodup_append.mp hnd).2.2 b (hmem hl' hb') b (hmem hl hb))
  · exact ⟨rfl, eq_of_mem_flatMap (List.nodup_append.mp hnd).2.1 hl hl' hb hb'⟩

theorem eq_of_lockAddr (hr : Rep k V) (hl : l ∈ V.locks κ) (hl' : l' ∈ V.locks κ')
    (h : l.addr = l'.addr) : κ = κ' ∧ l = l' :=
  hr.eq_of_lockBlock (b := (l.addr, LOCK_NODE_SIZE)) hl hl' (by simp [LockView.blocks])
    (by simp [LockView.blocks, h])

theorem set_lock_append (hr : Rep k V) {A B : List LockView} (hL : V.locks κ = A ++ l :: B) :
    (V.setLock κ l l').locks κ = A ++ l' :: B := by
  have hnd : (V.locks κ).map LockView.addr |>.Nodup := (hr.locks κ).list.nodup
  rw [hL] at hnd
  rw [View.locks_setLock, hL]
  exact update_append hnd

/-- The blocks are those of the lock and the rest. -/
theorem lock_blocks_perm (hr : Rep k V) (hl : l ∈ V.locks κ) :
    ∃ rest, V.blocks.Perm (l.blocks ++ rest) ∧
      ∀ l', (V.setLock κ l l').blocks.Perm (l'.blocks ++ rest) := by
  obtain ⟨A, B, hL⟩ := List.append_of_mem hl
  obtain ⟨rest, hrest⟩ := V.blocks_eq κ
  refine ⟨A.flatMap LockView.blocks ++ (B.flatMap LockView.blocks ++ rest), ?_, fun l' => ?_⟩
  · have := hrest (V.locks κ)
    rw [View.setLocks_self, hL] at this
    refine this.trans ?_
    simp only [List.flatMap_append, List.flatMap_cons, List.append_assoc]
    exact List.perm_append_comm_assoc ..
  · have := hrest ((V.setLock κ l l').locks κ)
    rw [hr.set_lock_append hL] at this
    have hset : V.setLocks κ (A ++ l' :: B) = V.setLock κ l l' := by
      rw [← hr.set_lock_append hL, View.locks_setLock]
      rfl
    rw [hset] at this
    refine this.trans ?_
    simp only [List.flatMap_append, List.flatMap_cons, List.append_assoc]
    exact List.perm_append_comm_assoc ..

/-- The registries change, and nothing else does. -/
theorem withLocks (hr : Rep k V) {V' : View}
    (hstat : k' = { k with
      memory := k'.memory, lock := k'.lock, blockedThread := k'.blockedThread
      mutexList := k'.mutexList, mutexCounter := k'.mutexCounter
      semaphoreList := k'.semaphoreList, semaphoreCounter := k'.semaphoreCounter })
    (hview : V' = { V with
      mutexes := V'.mutexes, mutexCounter := V'.mutexCounter
      semaphores := V'.semaphores, semaphoreCounter := V'.semaphoreCounter })
    (hlocks : ∀ κ, RepLocks k' (k'.lockList κ) (V'.locks κ))
    (hmutex : k'.mutexCounter = V'.mutexCounter)
    (hsemaphore : k'.semaphoreCounter = V'.semaphoreCounter) (ho : Owns k'.memory V'.blocks) :
    Rep k' V' := by
  have htable : V'.table = V.table := by rw [hview]
  refine ⟨?_, ?_, ?_, ?_, ?_, ?_, hlocks .mutex, hmutex, hlocks .semaphore, hsemaphore, ho, ?_, ?_⟩
  · rw [htable, hstat]
    exact hr.queue
  · rw [htable, hstat]
    exact fun p hp => (hr.processes p hp).congr rfl rfl (fun _ _ => rfl) (fun _ _ => rfl)
      fun _ _ => rfl
  · rw [hview, hstat]; exact hr.current
  · rw [hview, hstat]; exact hr.ticks
  · rw [hview, hstat]; exact hr.queueSize
  · rw [hview, hstat]; exact hr.nextPid
  · rw [htable, hstat]; exact hr.created
  · rw [hstat]; exact hr.freedOnce

/-- One lock changes. -/
theorem replaceLock (hr : Rep k V) (hl : l ∈ V.locks κ) (haddr : l'.addr = l.addr)
    (hstat : k' = { k with
      memory := k'.memory, lock := k'.lock, blockedThread := k'.blockedThread })
    (hrep : RepLock k' l') (hnext : (k'.lock l.addr).next = (k.lock l.addr).next)
    (hframe : ∀ a, a ≠ l.addr → k'.lock a = k.lock a)
    (hwaiters : ∀ κ', ∀ l₂ ∈ V.locks κ', l₂ ≠ l → ∀ w ∈ l₂.waiters,
      k'.blockedThread w.addr = k.blockedThread w.addr)
    (ho : Owns k'.memory (V.setLock κ l l').blocks) : Rep k' (V.setLock κ l l') := by
  have hlist : ∀ κ, k'.lockList κ = k.lockList κ := by
    intro κ
    rw [hstat]
    cases κ <;> rfl
  refine hr.withLocks (by rw [hstat]) (by cases κ <;> rfl) (fun κ' => ?_) ?_ ?_ ho
  -- another lock, of either kind, has another node
  · have hother : ∀ l₂ ∈ V.locks κ', l₂ ≠ l → RepLock k' l₂ := by
      intro l₂ hl₂ hne
      have hlock : k'.lock l₂.addr = k.lock l₂.addr :=
        hframe _ fun h => hne (hr.eq_of_lockAddr hl₂ hl h).2
      exact ((hr.locks κ').locks l₂ hl₂).congr (by rw [hlock]) (by rw [hlock]) (by rw [hlock])
        (hwaiters κ' l₂ hl₂ hne)
    -- no store goes to a `next` field, so both lists are linked as before
    have hchain : lockLink.IsList k' (k'.lockList κ') ((V.locks κ').map LockView.addr) := by
      rw [hlist]
      refine Chain.congr (hr.locks κ').list fun a _ => ?_
      by_cases ha : a = l.addr
      · rw [ha]
        exact hnext
      · exact congrArg LockNode.next (hframe a ha)
    by_cases hκ : κ' = κ
    · subst hκ
      rw [View.locks_setLock]
      refine ⟨?_, fun l₂ hl₂ => ?_⟩
      · rw [map_update fun l₂ _ h => haddr.trans h.symm]
        exact hchain
      · refine forall_update (P := RepLock k') (fun l₂ hl₂ hne => ?_) (fun _ _ _ => hrep) l₂ hl₂
        exact hother l₂ hl₂ fun h => hne (by rw [h])
    · rw [View.setLock, View.locks_setLocks_of_ne hκ]
      exact ⟨hchain, fun l₂ hl₂ => hother l₂ hl₂ fun h => hκ
        (hr.eq_of_lockAddr hl₂ hl (by rw [h])).1⟩
  · rw [hstat]
    cases κ <;> exact hr.mutexCounter
  · rw [hstat]
    cases κ <;> exact hr.semaphoreCounter

end Rep

end BasicKernel
