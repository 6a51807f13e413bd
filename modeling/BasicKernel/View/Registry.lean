import BasicKernel.View.Sync

set_option autoImplicit false

/-! # The registries of locks, and the functions of `mutex.c` and `semaphores.c`

What each of these functions has done when it returned. A creation reserves a node, gives it the counter
as its id and appends it; a destruction unlinks the node and frees it, but not the wait list that hangs
on it. The two node fields that a creation does not write are those of the page: `CleanLock` says that
they are null.
-/

namespace BasicKernel

open Linked Keyed Fuel

/-! ## Linking

A registry is one of the lists of `Link`. A lock is appended with its wait list, which is empty,
and taken out without a look at it. -/

/-- Only the successor of the last node changes. -/
theorem lockLink_linkLast (k : Kernel) (p n : Addr) (xs : List Addr) :
    (lockLink.linkLast p xs n k).2 = { k with lock := (lockLink.linkLast p xs n k).2.lock } ∧
      (∀ x, (lockLink.linkLast p xs n k).2.lock x
        = { k.lock x with next := ((lockLink.linkLast p xs n k).2.lock x).next }) ∧
      ∀ x ∉ xs, (lockLink.linkLast p xs n k).2.lock x = k.lock x := by
  cases hlast : xs.getLast? with
  | none => simp [Link.linkLast, hlast]
  | some last =>
      have hmem := List.mem_of_getLast? hlast
      refine ⟨?_, fun x => ?_, fun x hx => ?_⟩
      · simp only [Link.linkLast, hlast, lockLink]
      · by_cases hxl : x = last
        · subst hxl
          simp [Link.linkLast, hlast, lockLink]
        · simp [Link.linkLast, hlast, lockLink, hxl]
      · have hxl : x ≠ last := by
          rintro rfl
          exact hx hmem
        simp [Link.linkLast, hlast, lockLink, hxl]

/-- A lock that keeps everything but its place in the registry. -/
theorem RepLock.relink {k k' : Kernel} {l : LockView} (h : RepLock k l)
    (hlock : k'.lock l.addr = { k.lock l.addr with next := (k'.lock l.addr).next })
    (hblocked : k'.blockedThread = k.blockedThread) : RepLock k' l := by
  refine h.congr ?_ ?_ ?_ fun w _ => by rw [hblocked]
  all_goals rw [hlock]

namespace Rep

variable {k k' k₁ k₂ : Kernel} {V : View} {κ : LockKind} {l : LockView} {fuel : Nat}

/-- A new lock, in a page with null pointers as `next` and `blockedThreadList`, is linked behind
the last one of its registry. -/
theorem linkLock (hr : Rep k V) {a list : Addr} {m : MemoryManager} {v : LockNode}
    (ho : Owns m ((a, LOCK_NODE_SIZE) :: V.blocks)) (hnext : v.next = NULL)
    (hwaiters : v.blockedThreadList = NULL)
    (h : BasicKernel.addLock fuel k₁ (k.lockList κ) a = .ok (list, k₂))
    (hlock : k₁.lock = Function.update k.lock a v) (hblocked : k₁.blockedThread = k.blockedThread) :
    k₂ = { k₁ with lock := k₂.lock } ∧ (k₂.lock a).id = v.id ∧
      RepLocks k₂ list (V.locks κ ++ [⟨a, v.id, v.status, []⟩]) ∧
      ∀ κ', κ' ≠ κ → RepLocks k₂ (k.lockList κ') (V.locks κ') := by
  -- no lock of either kind lies in the new page
  have hfresh : ∀ κ', ∀ l ∈ V.locks κ', l.addr ≠ a := fun κ' l hl =>
    ho.fresh (View.mem_blocks_of_lock hl (b := (l.addr, LOCK_NODE_SIZE)) (by simp [LockView.blocks]))
  have hlock' : ∀ κ', ∀ l ∈ V.locks κ', k₁.lock l.addr = k.lock l.addr := fun κ' l hl => by
    rw [hlock, Function.update_of_ne (hfresh κ' l hl)]
  have hlocks : ∀ κ', RepLocks k₁ (k.lockList κ') (V.locks κ') := fun κ' =>
    (hr.locks κ').congr (hlock' κ') fun l _ w _ => by rw [hblocked]
  have ha : a ≠ NULL := ho.ne_null (b := (a, LOCK_NODE_SIZE)) List.mem_cons_self
  let xs := (V.locks κ).map LockView.addr
  have hxs : lockLink.IsList k₁ (k.lockList κ) xs := (hlocks κ).list
  have hax : a ∉ xs := by
    intro hmem
    obtain ⟨l, hl, hla⟩ := List.mem_map.mp hmem
    exact hfresh κ l hl hla
  rw [BasicKernel.addLock, addLast_spec hxs (fun n k₃ hk => by
    obtain ⟨-, rfl⟩ := Prod.mk.inj (Except.ok.inj hk)
    exact fun _ _ => rfl)] at h
  -- `addLock` returned, so the recursion had fuel for the whole list
  by_cases hf : xs.length < fuel
  swap
  · rw [if_neg hf] at h
    cases h
  rw [if_pos hf] at h
  have hout := Except.ok.inj h
  have hlast : (lockLink.linkLast (k.lockList κ) xs a k₁).1 = list := congrArg Prod.fst hout
  have hk₂ : (lockLink.linkLast (k.lockList κ) xs a k₁).2 = k₂ := congrArg Prod.snd hout
  subst hlast hk₂
  obtain ⟨hstat, hfields, hframe⟩ := lockLink_linkLast k₁ (k.lockList κ) a xs
  have hlist : lockLink.IsList k₁ a [a] := by
    refine Chain.cons_iff.mpr ⟨rfl, ha, Chain.nil_iff.mpr ?_⟩
    simp [lockLink, hlock, hnext]
  have hblocked₂ := congrArg Kernel.blockedThread hstat
  refine ⟨hstat, ?_, ⟨?_, fun l hl => ?_⟩, fun κ' hκ => ⟨?_, fun l hl => ?_⟩⟩
  · rw [hframe a hax, hlock, Function.update_self]
  -- the new node is linked behind the last one
  · rw [List.map_append]
    refine Link.isList_linkLast hxs.path hlist hxs.nil_notMem ?_
    exact List.nodup_append.mpr ⟨hxs.nodup, List.nodup_singleton a, fun x hx y hy => by
      obtain rfl := List.mem_singleton.mp hy
      rintro rfl
      exact hax hx⟩
  · rcases List.mem_append.mp hl with hl | hl
    · exact ((hlocks κ).locks l hl).relink (hfields l.addr) hblocked₂
    · obtain rfl := List.mem_singleton.mp hl
      have hva : (lockLink.linkLast (k.lockList κ) xs a k₁).2.lock a = v := by
        rw [hframe a hax, hlock, Function.update_self]
      refine ⟨by rw [hva], by rw [hva], ?_, fun w hw => by cases hw⟩
      rw [hva, hwaiters]
      exact Chain.empty _ _
  -- the stores go to nodes of the list `κ` only
  · refine (hlocks κ').list.congr fun x hx => ?_
    obtain ⟨l', hl', rfl⟩ := List.mem_map.mp hx
    have hx' : l'.addr ∉ xs := by
      intro hmem
      obtain ⟨l, hl, hla⟩ := List.mem_map.mp hmem
      exact hκ (hr.eq_of_lockAddr hl' hl hla.symm).1
    exact congrArg LockNode.next (hframe _ hx')
  · exact ((hlocks κ').locks l hl).relink (hfields l.addr) hblocked₂

/-- The first lock with the number `id` is unlinked and its node given back. The nodes of its wait
list stay. -/
theorem destroyLock_inv (hr : Rep k V) {id : Int} {list : Addr}
    (h : BasicKernel.destroyLock fuel k (k.lockList κ) id = .ok (list, k')) :
    V.lockWith κ id = none ∧ list = k.lockList κ ∧ k' = k ∨
      ∃ A l B, V.locks κ = A ++ l :: B ∧ V.lockWith κ id = some l ∧
        k' = { k with memory := k'.memory, lock := k'.lock } ∧
        RepLocks k' list (A ++ B) ∧ (∀ κ', κ' ≠ κ → RepLocks k' (k.lockList κ') (V.locks κ')) ∧
        Owns k'.memory (V.setLocks κ (A ++ B)).blocks := by
  have hlocks := hr.locks κ
  have hid : ∀ l ∈ V.locks κ, (k.lock l.addr).id = l.id := fun l hl => (hlocks.locks l hl).id
  cases hfind : V.lockWith κ id with
  -- nothing has the id, and the list is rebuilt as it was
  | none =>
      refine .inl ⟨rfl, ?_⟩
      rw [BasicKernel.destroyLock, removeFirst_absent hlocks.list fun x hx => by
        obtain ⟨l, hl, rfl⟩ := List.mem_map.mp hx
        simpa [hid l hl] using List.find?_eq_none.mp hfind l hl] at h
      split at h
      · obtain ⟨rfl, rfl⟩ := Prod.mk.inj (Except.ok.inj h)
        exact ⟨rfl, rfl⟩
      · cases h
  | some l =>
      right
      obtain ⟨hl, A, B, hL, hA⟩ := List.find?_eq_some_iff_append.mp hfind
      have hlL : l ∈ V.locks κ := by rw [hL]; simp
      have hAL : ∀ x ∈ A, x ∈ V.locks κ := fun x hx => by rw [hL]; simp [hx]
      have hlist := hlocks.list
      rw [hL, List.map_append, List.map_cons] at hlist
      obtain ⟨rest, hrest⟩ := V.blocks_eq κ
      -- only the node is given back: the blocks of its wait list are dropped from `Owns`, not freed
      have ho : Owns k.memory ((l.addr, LOCK_NODE_SIZE) :: ((A ++ B).flatMap LockView.blocks ++ rest)) := by
        have hperm := hrest (V.locks κ)
        rw [View.setLocks_self, hL] at hperm
        refine (hr.owns.perm (hperm.trans ((List.perm_middle.flatMap_right _).append_right rest))).sublist
          ?_
        simp only [List.flatMap_cons, LockView.blocks, List.cons_append, List.append_assoc]
        exact (List.sublist_append_right _ _).cons_cons _
      obtain ⟨m, hdealloc, ho', -⟩ := ho.deallocate
      rw [BasicKernel.destroyLock, removeFirst_found hlist (fun x hx => by
          obtain ⟨a, ha, rfl⟩ := List.mem_map.mp hx
          simpa [hid a (hAL a ha)] using hA a ha)
        (by simpa [hid l hlL] using hl)
        (fun k₁ hk₁ => by
          rw [hdealloc] at hk₁
          obtain rfl := Except.ok.inj hk₁
          exact fun _ _ => rfl), hdealloc] at h
      -- a recursion that runs out of fuel does not return
      by_cases hf : (A.map LockView.addr).length < fuel
      swap
      · rw [if_neg hf] at h
        cases h
      rw [if_pos hf] at h
      have hout := Except.ok.inj h
      have hfirst := congrArg Prod.fst hout
      have hsecond := congrArg Prod.snd hout
      simp only at hfirst hsecond
      obtain ⟨hstat, hfields, hframe⟩ := lockLink_linkLast { k with memory := m } (k.lockList κ)
        (lockLink.next k l.addr) (A.map LockView.addr)
      rw [hsecond] at hstat hfields hframe
      have hblocked := congrArg Kernel.blockedThread hstat
      obtain ⟨c, hpA, hpB⟩ := path_append.mp hlist.path
      have hnull := hlist.nil_notMem
      have hnd : (A.map LockView.addr ++ B.map LockView.addr).Nodup :=
        hlist.nodup.sublist ((List.Sublist.refl _).append (List.sublist_cons_self _ _))
      refine ⟨A, l, B, hL, rfl, ?_, ⟨?_, fun x hx => ?_⟩, fun κ' hκ => ⟨?_, fun x hx => ?_⟩, ?_⟩
      · rw [hstat]
      · have hB : lockLink.IsList { k with memory := m } (lockLink.next k l.addr)
            (B.map LockView.addr) := ⟨hpB.2, fun hm => hnull (by simp [hm])⟩
        have := Link.isList_linkLast (k := { k with memory := m }) hpA hB
          (fun hm => hnull (List.mem_append_left _ hm)) hnd
        rw [hfirst, hsecond, ← List.map_append] at this
        exact this
      · have hxL : x ∈ V.locks κ := by
          rw [hL]
          simp only [List.mem_append, List.mem_cons] at hx ⊢
          tauto
        exact (hlocks.locks x hxL).relink (hfields x.addr) hblocked
      -- the other registry has none of the nodes that were written
      · refine (hr.locks κ').list.congr fun x hx => ?_
        obtain ⟨l', hl', rfl⟩ := List.mem_map.mp hx
        refine congrArg LockNode.next (hframe _ fun hmem => ?_)
        obtain ⟨a, ha, hal⟩ := List.mem_map.mp hmem
        exact hκ (hr.eq_of_lockAddr hl' (hAL a ha) hal.symm).1
      · exact ((hr.locks κ').locks x hx).relink (hfields x.addr) hblocked
      · have hmem := congrArg Kernel.memory hstat
        simp only at hmem
        rw [hmem]
        exact ho'.perm (hrest (A ++ B)).symm

end Rep

/-! ## The functions of the two files -/

/-- The new page of a lock holds null pointers where the creation does not write. -/
def CleanLock (k : Kernel) : Prop :=
  ∀ a k₁, k.allocate LOCK_NODE_SIZE = .ok (a, k₁) →
    (k.lock a).next = NULL ∧ (k.lock a).blockedThreadList = NULL

theorem View.addLock_blocks (V : View) (κ : LockKind) (l : LockView) :
    (V.addLock κ l).blocks.Perm (l.blocks ++ V.blocks) := by
  obtain ⟨rest, hrest⟩ := V.blocks_eq κ
  have hold := hrest (V.locks κ)
  have hnew := hrest (V.locks κ ++ [l])
  rw [View.setLocks_self] at hold
  have hblocks : (V.addLock κ l).blocks = (V.setLocks κ (V.locks κ ++ [l])).blocks := by
    cases κ <;> rfl
  rw [hblocks]
  refine hnew.trans (List.Perm.trans ?_ (hold.append_left l.blocks).symm)
  simp only [List.flatMap_append, List.flatMap_cons, List.flatMap_nil, List.append_nil,
    List.append_assoc]
  exact List.perm_append_comm_assoc ..

theorem View.Ok.addLock {V : View} (h : V.Ok) (κ : LockKind) (l : LockView) : (V.addLock κ l).Ok := by
  cases κ <;> exact ⟨⟨h.processes, h.pids, h.pid_lt, h.main, h.queueSize_le⟩, h.current⟩

namespace Rep

variable {k k' : Kernel} {V : View} {fuel : Nat}

/-- The state after a creation, from the state `k₁` in which the new lock is initialised. -/
theorem lockCreated (hr : Rep k V) {κ : LockKind} {k₁ k₂ : Kernel} {a list : Addr} {m : MemoryManager}
    {v : LockNode} (ho : Owns m ((a, LOCK_NODE_SIZE) :: V.blocks)) (hnext : v.next = NULL)
    (hwaiters : v.blockedThreadList = NULL)
    (h : BasicKernel.addLock fuel k₁ (k.lockList κ) a = .ok (list, k₂))
    (hk₁ : k₁ = { k with
      memory := m, lock := Function.update k.lock a v
      mutexCounter := k₁.mutexCounter, semaphoreCounter := k₁.semaphoreCounter })
    (hk' : k' = { k₂ with mutexList := k'.mutexList, semaphoreList := k'.semaphoreList })
    (hlist : k'.lockList κ = list) (hother : ∀ κ', κ' ≠ κ → k'.lockList κ' = k₂.lockList κ')
    (hmutex : k₁.mutexCounter = (V.addLock κ ⟨a, v.id, v.status, []⟩).mutexCounter)
    (hsemaphore : k₁.semaphoreCounter = (V.addLock κ ⟨a, v.id, v.status, []⟩).semaphoreCounter) :
    Rep k' (V.addLock κ ⟨a, v.id, v.status, []⟩) := by
  obtain ⟨hstat, -, hlocks, hothers⟩ := hr.linkLock ho hnext hwaiters h (by rw [hk₁]) (by rw [hk₁])
  have hstores : k'.lock = k₂.lock ∧ k'.blockedThread = k₂.blockedThread := by
    rw [hk']
    exact ⟨rfl, rfl⟩
  have hcongr : ∀ {list locks}, RepLocks k₂ list locks → RepLocks k' list locks := fun h =>
    h.congr (fun _ _ => by rw [hstores.1]) fun _ _ _ _ => by rw [hstores.2]
  refine hr.withLocks ?_ (by cases κ <;> rfl) (fun κ' => ?_) ?_ ?_ ?_
  · rw [hk', hstat, hk₁]
  -- the registry of the new lock, and the other one
  · by_cases hκ : κ' = κ
    · subst hκ
      rw [hlist]
      have hlocks' : (V.addLock κ' ⟨a, v.id, v.status, []⟩).locks κ'
          = V.locks κ' ++ [⟨a, v.id, v.status, []⟩] := by cases κ' <;> rfl
      rw [hlocks']
      exact hcongr hlocks
    · have hlocks' : (V.addLock κ ⟨a, v.id, v.status, []⟩).locks κ' = V.locks κ' := by
        cases κ <;> cases κ' <;> first | rfl | exact absurd rfl hκ
      have hlist' : k₂.lockList κ' = k.lockList κ' := by
        rw [hstat, hk₁]
        cases κ' <;> rfl
      rw [hother κ' hκ, hlist', hlocks']
      exact hcongr (hothers κ' hκ)
  · rw [hk', hstat]
    exact hmutex
  · rw [hk', hstat]
    exact hsemaphore
  · have hmem : k'.memory = m := by rw [hk', hstat, hk₁]
    rw [hmem]
    exact ho.perm (V.addLock_blocks κ ⟨a, v.id, v.status, []⟩).symm

theorem createMutex_inv (hr : Rep k V) (hok : V.Ok) {r : Int} (hclean : CleanLock k)
    (h : createMutex fuel k = .ok (r, k')) :
    r = V.mutexCounter ∧ ∃ l : LockView, l.id = V.mutexCounter ∧
      l.status = MUTEX_UNLOCKED ∧ l.waiters = [] ∧ Rep k' (V.addLock .mutex l) ∧
      (V.addLock .mutex l).Ok := by
  rcases hr.owns.allocate LOCK_NODE_SIZE (by decide) (by decide) with
    ⟨a, m, hall, hne, ho⟩ | hall
  · obtain ⟨hnext, hwaiters⟩ := hclean a _ hall
    simp only [createMutex, hall, ok_bind, Kernel.modifyLock_of_ne hne, Function.update_self,
      Function.update_idem] at h
    obtain ⟨⟨list, k₂⟩, hadd, h⟩ := bind_eq_ok.mp h
    simp only [load_of_ne hne, ok_bind, pure_eq_ok] at h
    obtain ⟨hid, rfl⟩ := Prod.mk.inj (Except.ok.inj h)
    let v : LockNode := { k.lock a with id := k.mutexCounter, status := MUTEX_UNLOCKED }
    obtain ⟨-, hlink, -⟩ := hr.linkLock (v := v) (κ := .mutex) ho hnext hwaiters hadd rfl rfl
    refine ⟨hid.symm.trans (hlink.trans hr.mutexCounter), ⟨a, v.id, v.status, []⟩, hr.mutexCounter, rfl, rfl, ?_,
      hok.addLock _ _⟩
    refine hr.lockCreated (v := v) (κ := .mutex) ho hnext hwaiters hadd rfl rfl rfl (fun κ hκ => ?_)
      (congrArg (fun n => toInt32 (n + 1)) hr.mutexCounter) hr.semaphoreCounter
    cases κ with
    | mutex => exact absurd rfl hκ
    | semaphore => rfl
  · simp [createMutex, hall] at h

theorem createSemaphore_inv (hr : Rep k V) (hok : V.Ok) {start r : Int} (hclean : CleanLock k)
    (h : createSemaphore fuel k start = .ok (r, k')) :
    r = V.semaphoreCounter ∧ ∃ l : LockView, l.id = V.semaphoreCounter ∧
      l.status = start ∧ l.waiters = [] ∧ Rep k' (V.addLock .semaphore l) ∧
      (V.addLock .semaphore l).Ok := by
  rcases hr.owns.allocate LOCK_NODE_SIZE (by decide) (by decide) with
    ⟨a, m, hall, hne, ho⟩ | hall
  · obtain ⟨hnext, hwaiters⟩ := hclean a _ hall
    simp only [createSemaphore, hall, ok_bind, Kernel.modifyLock_of_ne hne, Function.update_self,
      Function.update_idem] at h
    obtain ⟨⟨list, k₂⟩, hadd, h⟩ := bind_eq_ok.mp h
    simp only [load_of_ne hne, ok_bind, pure_eq_ok] at h
    obtain ⟨hid, rfl⟩ := Prod.mk.inj (Except.ok.inj h)
    let v : LockNode := { k.lock a with id := k.semaphoreCounter, status := start }
    obtain ⟨-, hlink, -⟩ := hr.linkLock (v := v) (κ := .semaphore) ho hnext hwaiters hadd rfl rfl
    refine ⟨hid.symm.trans (hlink.trans hr.semaphoreCounter), ⟨a, v.id, v.status, []⟩, hr.semaphoreCounter, rfl, rfl, ?_,
      hok.addLock _ _⟩
    refine hr.lockCreated (v := v) (κ := .semaphore) ho hnext hwaiters hadd rfl rfl rfl
      (fun κ hκ => ?_) hr.mutexCounter (congrArg (fun n => toInt32 (n + 1)) hr.semaphoreCounter)
    cases κ with
    | mutex => rfl
    | semaphore => exact absurd rfl hκ
  · simp [createSemaphore, hall] at h

/-- The registry without the first lock with the number `id`. -/
theorem lockDestroyed (hr : Rep k V) {κ : LockKind} {id : Int} {k₂ : Kernel} {list : Addr}
    (h : BasicKernel.destroyLock fuel k (k.lockList κ) id = .ok (list, k₂))
    (hk' : k' = { k₂ with mutexList := k'.mutexList, semaphoreList := k'.semaphoreList })
    (hlist : k'.lockList κ = list) (hother : ∀ κ', κ' ≠ κ → k'.lockList κ' = k₂.lockList κ') :
    V.lockWith κ id = none ∧ Rep k' V ∨ ∃ A l B, V.locks κ = A ++ l :: B ∧
      V.lockWith κ id = some l ∧ Rep k' (V.setLocks κ (A ++ B)) := by
  have hstores : k'.lock = k₂.lock ∧ k'.blockedThread = k₂.blockedThread := by
    rw [hk']
    exact ⟨rfl, rfl⟩
  have hcongr : ∀ {list locks}, RepLocks k₂ list locks → RepLocks k' list locks := fun h =>
    h.congr (fun _ _ => by rw [hstores.1]) fun _ _ _ _ => by rw [hstores.2]
  rcases hr.destroyLock_inv h with ⟨hnone, hsame, rfl⟩ | ⟨A, l, B, hL, hsome, hstat, hlocks, hothers, ho⟩
  -- no lock has the id: only the head of the list is stored again
  · refine .inl ⟨hnone, hr.withLocks ?_ rfl (fun κ' => ?_) ?_ ?_ ?_⟩
    · rw [hk']
    · by_cases hκ : κ' = κ
      · subst hκ
        rw [hlist, hsame]
        exact hcongr (hr.locks κ')
      · rw [hother κ' hκ]
        exact hcongr (hr.locks κ')
    · rw [hk']
      exact hr.mutexCounter
    · rw [hk']
      exact hr.semaphoreCounter
    · rw [hk']
      exact hr.owns
  · refine .inr ⟨A, l, B, hL, hsome, hr.withLocks ?_ ?_ (fun κ' => ?_) ?_ ?_ ?_⟩
    · rw [hk', hstat]
    · cases κ <;> rfl
    · by_cases hκ : κ' = κ
      · subst hκ
        rw [hlist, View.locks_setLocks]
        exact hcongr hlocks
      · have hlist' : k₂.lockList κ' = k.lockList κ' := by
          rw [hstat]
          cases κ' <;> rfl
        rw [hother κ' hκ, hlist', View.locks_setLocks_of_ne hκ]
        exact hcongr (hothers κ' hκ)
    · rw [hk', hstat]
      cases κ <;> exact hr.mutexCounter
    · rw [hk', hstat]
      cases κ <;> exact hr.semaphoreCounter
    · have hmem : k'.memory = k₂.memory := by rw [hk']
      rw [hmem]
      exact ho

theorem mutexDestroy_inv (hr : Rep k V) {id : Int} (h : mutexDestroy fuel k id = .ok k') :
    V.lockWith .mutex id = none ∧ Rep k' V ∨ ∃ A l B, V.mutexes = A ++ l :: B ∧
      V.lockWith .mutex id = some l ∧ Rep k' (V.setLocks .mutex (A ++ B)) := by
  obtain ⟨⟨list, k₂⟩, hdestroy, h⟩ := bind_eq_ok.mp h
  obtain rfl := Except.ok.inj h
  refine hr.lockDestroyed (κ := .mutex) hdestroy rfl rfl fun κ hκ => ?_
  cases κ with
  | mutex => exact absurd rfl hκ
  | semaphore => rfl

theorem semaphoreDestroy_inv (hr : Rep k V) {id : Int} (h : semaphoreDestroy fuel k id = .ok k') :
    V.lockWith .semaphore id = none ∧ Rep k' V ∨ ∃ A l B, V.semaphores = A ++ l :: B ∧
      V.lockWith .semaphore id = some l ∧ Rep k' (V.setLocks .semaphore (A ++ B)) := by
  obtain ⟨⟨list, k₂⟩, hdestroy, h⟩ := bind_eq_ok.mp h
  obtain rfl := Except.ok.inj h
  refine hr.lockDestroyed (κ := .semaphore) hdestroy rfl rfl fun κ hκ => ?_
  cases κ with
  | mutex => rfl
  | semaphore => exact absurd rfl hκ

end Rep

/-! ## Up and down

A down of a lock that is taken, and an up. Both look the lock up by its number, more than once,
and find the same one each time. -/

/-- The current thread is entered into the wait list of `l` and blocked. -/
def View.Waits (κ : LockKind) (l : LockView) (V V' : View) : Prop :=
  ∃ c ∈ V.table, ∃ t ∈ c.threads, c.node = V.current ∧ t.lib = c.val.currentThread ∧
    ∃ w : WaiterView, w.pid = c.val.pid ∧ w.pthread = t.val.pthread ∧
      V' = (V.setLock κ l (l.setWaiters (w :: l.waiters))).block c t.addr .T_BLOCKED_MUTEX

/-- Everybody who waits for `l` is woken, and `l` gets the status `status`. -/
def View.Unlocks (κ : LockKind) (l : LockView) (status : Int) (V V' : View) : Prop :=
  ∃ V₁, WakeAll l.waiters V V₁ ∧ V' = V₁.setLock κ l ⟨l.addr, l.id, status, []⟩

namespace Rep

variable {k k' : Kernel} {V : View} {κ : LockKind} {l l' : LockView} {fuel : Nat} {id : Int}

theorem lockWith_setLock (hr : Rep k V) (hl : V.lockWith κ id = some l) (hid : l'.id = l.id) :
    (V.setLock κ l l').lockWith κ id = some l' := by
  obtain ⟨hlid, A, B, hL, hA⟩ := List.find?_eq_some_iff_append.mp hl
  rw [View.lockWith, hr.set_lock_append hL, List.find?_append,
    List.find?_eq_none.mpr fun x hx => by simpa using hA x hx]
  simp [hid, of_decide_eq_true hlid]

/-- A second search finds the same lock. -/
theorem findLock_eq (hr : Rep k V) (hl : V.lockWith κ id = some l) {a : Addr}
    (h : BasicKernel.findLock fuel k (k.lockList κ) id = .ok a) : a = l.addr := by
  rcases hr.findLock_inv h with ⟨l', -, hl', rfl⟩ | ⟨hnone, -⟩
  · rw [hl] at hl'
    rw [Option.some.inj hl']
  · rw [hl] at hnone
    cases hnone

theorem findLock_null (hr : Rep k V) (hl : V.lockWith κ id = none) {a : Addr}
    (h : BasicKernel.findLock fuel k (k.lockList κ) id = .ok a) : a = NULL := by
  rcases hr.findLock_inv h with ⟨l', -, hl', -⟩ | ⟨-, ha⟩
  · rw [hl] at hl'
    cases hl'
  · exact ha

theorem mem_of_lockWith (hl : V.lockWith κ id = some l) : l ∈ V.locks κ :=
  List.mem_of_find?_eq_some hl

/-- A lock is given the status `status`, then its wait list is emptied. -/
theorem unlocks_inv {status : Int} {n : Nat} (hr : Rep k (V.setLock κ l (l.setStatus status)))
    (hok : V.Ok) (hl : l ∈ V.locks κ) (h : BasicKernel.unlockAll fuel l.addr n k = .ok k') :
    ∃ V', V.Unlocks κ l status V' ∧ Rep k' V' ∧ V'.Ok := by
  obtain ⟨V₁, hwake, hr₂, hok₂⟩ := hr.unlockAll_inv (hok.setLock κ l _)
    (View.mem_setLock hl (l.setStatus status)) h
  obtain ⟨V₂, hwake', rfl⟩ := hwake.of_setLock
  rw [View.setLock_setLock _ _ (by rfl)] at hr₂ hok₂
  exact ⟨_, ⟨V₂, hwake', rfl⟩, hr₂, hok₂⟩

theorem waits_inv (hr : Rep k V) (hok : V.Ok) (hl : l ∈ V.locks κ)
    (h : BasicKernel.waitForLock fuel k l.addr = .ok k') :
    ∃ V', V.Waits κ l V' ∧ Rep k' V' ∧ V'.Ok := by
  obtain ⟨c, hc, t, ht, hccur, htcur, w, hpid, hpthread, hr', hok'⟩ := hr.waitForLock_inv hok hl h
  exact ⟨_, ⟨c, hc, t, ht, hccur, htcur, w, hpid, hpthread, rfl⟩, hr', hok'⟩

/-- A request for a lock that does not exist does not return. -/
theorem waitForLock_null (h : BasicKernel.waitForLock fuel k NULL = .ok k') : False := by
  simp only [BasicKernel.waitForLock, addThreadToLockList] at h
  obtain ⟨pid, -, h⟩ := bind_eq_ok.mp h
  obtain ⟨pthread, -, h⟩ := bind_eq_ok.mp h
  obtain ⟨k₁, h, -⟩ := bind_eq_ok.mp h
  obtain ⟨⟨n, k₂⟩, -, h⟩ := bind_eq_ok.mp h
  obtain ⟨k₃, -, h⟩ := bind_eq_ok.mp h
  obtain ⟨k₄, -, h⟩ := bind_eq_ok.mp h
  simp at h

theorem unlockAll_null {n : Nat} (h : BasicKernel.unlockAll fuel NULL n k = .ok k') : False := by
  cases n with
  | zero => cases h
  | succ n => simp [BasicKernel.unlockAll] at h

/-! ### Mutexes -/

theorem isLocked_inv (hr : Rep k V) {b : Bool} (h : isLocked fuel k id = .ok b) :
    V.lockWith .mutex id = none ∧ b = true ∨
      ∃ l, V.lockWith .mutex id = some l ∧ b = decide (l.status = MUTEX_LOCKED) := by
  obtain ⟨a, hfind, h⟩ := bind_eq_ok.mp h
  rcases hr.findLock_inv (κ := .mutex) hfind with ⟨l, hl, hsome, rfl⟩ | ⟨hnone, rfl⟩
  · have hstatus := ((hr.locks .mutex).locks l hl).status
    rw [if_neg (hr.lock_ne_null hl), pure_eq_ok, hstatus] at h
    exact .inr ⟨l, hsome, (Except.ok.inj h).symm⟩
  · rw [if_pos rfl] at h
    exact .inl ⟨hnone, (Except.ok.inj h).symm⟩

theorem mutexUp_inv (hr : Rep k V) (hok : V.Ok) (h : mutexUp fuel k id = .ok k') :
    ∃ l V', V.lockWith .mutex id = some l ∧ V.Unlocks .mutex l MUTEX_UNLOCKED V' ∧ Rep k' V' ∧
      V'.Ok := by
  obtain ⟨k₁, hstatus, h⟩ := bind_eq_ok.mp h
  obtain ⟨a, hfind, hstatus⟩ := bind_eq_ok.mp hstatus
  obtain ⟨b, hfind', h⟩ := bind_eq_ok.mp h
  rcases hr.findLock_inv (κ := .mutex) hfind with ⟨l, hl, hsome, rfl⟩ | ⟨hnone, rfl⟩
  · rw [if_pos (hr.lock_ne_null hl)] at hstatus
    obtain ⟨k₂, hmod, hr₁⟩ := hr.setStatus hl MUTEX_UNLOCKED
      (f := fun n => { n with status := MUTEX_UNLOCKED }) rfl
    rw [hmod] at hstatus
    obtain rfl := Except.ok.inj hstatus
    obtain rfl := hr₁.findLock_eq (κ := .mutex) (hr.lockWith_setLock hsome rfl) hfind'
    obtain ⟨V', hV', hr', hok'⟩ := hr₁.unlocks_inv hok hl h
    exact ⟨l, V', hsome, hV', hr', hok'⟩
  · rw [if_neg (by simp)] at hstatus
    obtain rfl := Except.ok.inj hstatus
    obtain rfl := hr.findLock_null (κ := .mutex) hnone hfind'
    exact (unlockAll_null h).elim

theorem mutexDown_inv (hr : Rep k V) (hok : V.Ok) (h : mutexDown fuel k id = .ok k') :
    ∃ l, V.lockWith .mutex id = some l ∧
      ∃ V', (l.status = MUTEX_LOCKED ∧ V.Waits .mutex l V' ∨
          l.status ≠ MUTEX_LOCKED ∧ V' = V.setLock .mutex l (l.setStatus MUTEX_LOCKED)) ∧
        Rep k' V' ∧ V'.Ok := by
  obtain ⟨⟨access, k₁⟩, haccess, h⟩ := bind_eq_ok.mp h
  obtain ⟨a, hfind, haccess⟩ := bind_eq_ok.mp haccess
  obtain ⟨locked, hlocked, haccess⟩ := bind_eq_ok.mp haccess
  rcases hr.isLocked_inv hlocked with ⟨hnone, rfl⟩ | ⟨l, hsome, rfl⟩
  -- an unknown mutex counts as locked, and the caller is entered into the wait list at the null
  -- pointer
  · obtain rfl := hr.findLock_null (κ := .mutex) hnone hfind
    simp only [if_true] at haccess
    obtain ⟨k₂, hwait, -⟩ := bind_eq_ok.mp haccess
    exact (waitForLock_null hwait).elim
  · have hl := mem_of_lockWith hsome
    obtain rfl := hr.findLock_eq (κ := .mutex) hsome hfind
    refine ⟨l, hsome, ?_⟩
    -- locked: the caller waits, and `mutexDown` is over when it wakes up
    by_cases hst : l.status = MUTEX_LOCKED
    · simp only [hst, decide_true, if_true] at haccess
      obtain ⟨k₂, hwait, haccess⟩ := bind_eq_ok.mp haccess
      obtain ⟨rfl, rfl⟩ := Prod.mk.inj (Except.ok.inj haccess)
      obtain rfl := Except.ok.inj h
      obtain ⟨V', hV', hr', hok'⟩ := hr.waits_inv hok hl hwait
      exact ⟨V', .inl ⟨hst, hV'⟩, hr', hok'⟩
    -- unlocked: the status is set, and the mutex is looked up once more for that
    · simp only [hst, decide_false, Bool.false_eq_true, if_false] at haccess
      obtain ⟨rfl, rfl⟩ := Prod.mk.inj (Except.ok.inj haccess)
      obtain ⟨b, hfind', h⟩ := bind_eq_ok.mp h
      obtain rfl := hr.findLock_eq (κ := .mutex) hsome hfind'
      rw [if_pos (hr.lock_ne_null hl)] at h
      obtain ⟨k₂, hmod, hr₁⟩ := hr.setStatus hl MUTEX_LOCKED
        (f := fun n => { n with status := MUTEX_LOCKED }) rfl
      rw [hmod] at h
      obtain rfl := Except.ok.inj h
      exact ⟨_, .inr ⟨hst, rfl⟩, hr₁, hok.setLock _ _ _⟩

/-! ### Semaphores -/

theorem updateSemaphoreStatus_inv (hr : Rep k V) {delta : Int}
    (h : updateSemaphoreStatus fuel k id delta = .ok k') :
    V.lockWith .semaphore id = none ∧ k' = k ∨ ∃ l, V.lockWith .semaphore id = some l ∧
      Rep k' (V.setLock .semaphore l (l.setStatus (toInt32 (l.status + delta)))) := by
  obtain ⟨a, hfind, h⟩ := bind_eq_ok.mp h
  rcases hr.findLock_inv (κ := .semaphore) hfind with ⟨l, hl, hsome, rfl⟩ | ⟨hnone, rfl⟩
  · rw [if_neg (hr.lock_ne_null hl)] at h
    obtain ⟨k₂, hmod, hr₁⟩ := hr.setStatus hl (toInt32 (l.status + delta))
      (f := fun n => { n with status := toInt32 (n.status + delta) })
      (by rw [((hr.locks .semaphore).locks l hl).status])
    rw [hmod] at h
    obtain rfl := Except.ok.inj h
    exact .inr ⟨l, hsome, hr₁⟩
  · rw [if_pos rfl] at h
    exact .inl ⟨hnone, (Except.ok.inj h).symm⟩

theorem isSemaphoreLocked_inv (hr : Rep k V) {b : Bool} (h : isSemaphoreLocked fuel k id = .ok b) :
    V.lockWith .semaphore id = none ∧ b = true ∨
      ∃ l, V.lockWith .semaphore id = some l ∧ b = decide (l.status < 0) := by
  obtain ⟨a, hfind, h⟩ := bind_eq_ok.mp h
  rcases hr.findLock_inv (κ := .semaphore) hfind with ⟨l, hl, hsome, rfl⟩ | ⟨hnone, rfl⟩
  · have hstatus := ((hr.locks .semaphore).locks l hl).status
    rw [if_neg (hr.lock_ne_null hl), pure_eq_ok, hstatus] at h
    exact .inr ⟨l, hsome, (Except.ok.inj h).symm⟩
  · rw [if_pos rfl] at h
    exact .inl ⟨hnone, (Except.ok.inj h).symm⟩

theorem semaphoreUp_inv (hr : Rep k V) (hok : V.Ok) (h : semaphoreUp fuel k id = .ok k') :
    V.lockWith .semaphore id = none ∧ k' = k ∨ ∃ l, V.lockWith .semaphore id = some l ∧
      ∃ V', (l.raised < 0 ∧ V' = V.setLock .semaphore l (l.setStatus l.raised) ∨
          0 ≤ l.raised ∧ V.Unlocks .semaphore l l.raised V') ∧ Rep k' V' ∧ V'.Ok := by
  obtain ⟨k₁, hupdate, h⟩ := bind_eq_ok.mp h
  obtain ⟨locked, hlocked, h⟩ := bind_eq_ok.mp h
  rcases hr.updateSemaphoreStatus_inv hupdate with ⟨hnone, rfl⟩ | ⟨l, hsome, hr₁⟩
  -- an unknown semaphore counts as locked, so nobody is woken
  · rcases hr.isSemaphoreLocked_inv hlocked with ⟨-, rfl⟩ | ⟨l, hl, -⟩
    · exact .inl ⟨hnone, (Except.ok.inj h).symm⟩
    · rw [hnone] at hl
      cases hl
  · right
    replace hr₁ : Rep k₁ (V.setLock .semaphore l (l.setStatus l.raised)) := hr₁
    refine ⟨l, hsome, ?_⟩
    have hl := mem_of_lockWith hsome
    have hid₁ : (l.setStatus l.raised).id = l.id := rfl
    have hsome₁ := hr.lockWith_setLock hsome hid₁
    rcases hr₁.isSemaphoreLocked_inv hlocked with ⟨hnone, -⟩ | ⟨l₁, hl₁, rfl⟩
    · rw [hsome₁] at hnone
      cases hnone
    · rw [hsome₁] at hl₁
      obtain rfl := Option.some.inj hl₁
      -- the test is on the raised status
      by_cases hlt : l.raised < 0
      · simp only [LockView.setStatus, hlt, decide_true, if_true] at h
        obtain rfl := Except.ok.inj h
        exact ⟨_, .inl ⟨hlt, rfl⟩, hr₁, hok.setLock _ _ _⟩
      · simp only [LockView.setStatus, hlt, decide_false, Bool.false_eq_true, if_false] at h
        obtain ⟨a, hfind, h⟩ := bind_eq_ok.mp h
        obtain rfl := hr₁.findLock_eq (κ := .semaphore) hsome₁ hfind
        obtain ⟨V', hV', hr', hok'⟩ := hr₁.unlocks_inv hok hl h
        exact ⟨V', .inr ⟨by omega, hV'⟩, hr', hok'⟩

theorem semaphoreDown_inv (hr : Rep k V) (hok : V.Ok) (h : semaphoreDown fuel k id = .ok k') :
    ∃ l, V.lockWith .semaphore id = some l ∧
      ∃ V', (l.lowered < 0 ∧ (V.setLock .semaphore l (l.setStatus l.lowered)).Waits
            .semaphore (l.setStatus l.lowered) V' ∨
          0 ≤ l.lowered ∧ V' = V.setLock .semaphore l (l.setStatus l.lowered)) ∧
        Rep k' V' ∧ V'.Ok := by
  obtain ⟨k₁, hupdate, h⟩ := bind_eq_ok.mp h
  obtain ⟨⟨access, k₂⟩, haccess, h⟩ := bind_eq_ok.mp h
  obtain ⟨a, hfind, haccess⟩ := bind_eq_ok.mp haccess
  obtain ⟨locked, hlocked, haccess⟩ := bind_eq_ok.mp haccess
  obtain rfl := Except.ok.inj h
  rcases hr.updateSemaphoreStatus_inv hupdate with ⟨hnone, rfl⟩ | ⟨l, hsome, hr₁⟩
  · obtain rfl := hr.findLock_null (κ := .semaphore) hnone hfind
    rcases hr.isSemaphoreLocked_inv hlocked with ⟨-, rfl⟩ | ⟨l, hl, -⟩
    -- an unknown semaphore sends its caller through the null pointer
    · simp only [if_true] at haccess
      obtain ⟨k₃, hwait, -⟩ := bind_eq_ok.mp haccess
      exact (waitForLock_null hwait).elim
    · rw [hnone] at hl
      cases hl
  · replace hr₁ : Rep k₁ (V.setLock .semaphore l (l.setStatus l.lowered)) := hr₁
    refine ⟨l, hsome, ?_⟩
    have hl := mem_of_lockWith hsome
    have hid₁ : (l.setStatus l.lowered).id = l.id := rfl
    have hsome₁ := hr.lockWith_setLock hsome hid₁
    obtain rfl := hr₁.findLock_eq (κ := .semaphore) hsome₁ hfind
    rcases hr₁.isSemaphoreLocked_inv hlocked with ⟨hnone, -⟩ | ⟨l₁, hl₁, rfl⟩
    · rw [hsome₁] at hnone
      cases hnone
    · rw [hsome₁] at hl₁
      obtain rfl := Option.some.inj hl₁
      have hok₁ := hok.setLock .semaphore l (l.setStatus l.lowered)
      -- the test is on the lowered status: the caller has paid before it waits
      by_cases hlt : l.lowered < 0
      · simp only [LockView.setStatus, hlt, decide_true, if_true] at haccess
        obtain ⟨k₃, hwait, haccess⟩ := bind_eq_ok.mp haccess
        obtain ⟨rfl, rfl⟩ := Prod.mk.inj (Except.ok.inj haccess)
        obtain ⟨V', hV', hr', hok'⟩ := hr₁.waits_inv hok₁ (View.mem_setLock hl _) hwait
        exact ⟨V', .inl ⟨hlt, hV'⟩, hr', hok'⟩
      · simp only [LockView.setStatus, hlt, decide_false, Bool.false_eq_true, if_false] at haccess
        obtain ⟨rfl, rfl⟩ := Prod.mk.inj (Except.ok.inj haccess)
        exact ⟨_, .inr ⟨by omega, rfl⟩, hr₁, hok₁⟩

end Rep

end BasicKernel
