import BasicKernel.Locks.Effects
import BasicKernel.View.Script

set_option autoImplicit false

/-! # The registries over a run

Which locks the registries hold after any sequence of creations and destructions, with the other
events of the kernel in between. A creation numbers its lock with a static counter, an `int` that
comes round to `INT_MIN` behind `INT_MAX`: as long as it is not negative, every lock of the registry
has a smaller number, and the next one is new.

`registries_stay_lists` says that in a run of guarded creations both registries are lists of locks
with different numbers. `registry_becomes_cyclic` is a run in which the page of a destroyed mutex
comes back with its old pointer.
-/

namespace BasicKernel

open Keyed Linked Fuel Transition

/-! ## The numbers of the locks

Only a creation moves a counter. All other events keep the numbers of the registry, and a
destruction takes one away. -/

def View.lockCounter (V : View) : LockKind → Int
  | .mutex => V.mutexCounter
  | .semaphore => V.semaphoreCounter

/-- The counter that numbers the locks. -/
def Kernel.lockCounter (k : Kernel) : LockKind → Int
  | .mutex => k.mutexCounter
  | .semaphore => k.semaphoreCounter

theorem Rep.lockCounter {k : Kernel} {V : View} (hr : Rep k V) : k.lockCounter = V.lockCounter := by
  funext κ
  cases κ with
  | mutex => exact hr.mutexCounter
  | semaphore => exact hr.semaphoreCounter

/-- The creations and destructions of locks. -/
def KernelOp.Registers : KernelOp → Prop
  | createMutex => True
  | mutexDestroy _ => True
  | createSemaphore _ => True
  | semaphoreDestroy _ => True
  | _ => False

section Counters

variable {k : Kernel} {V V' : View} {op : KernelOp} {κ κ' : LockKind}

@[simp] theorem View.lockCounter_setLocks (κ' : LockKind) (ls : List LockView) :
    (V.setLocks κ' ls).lockCounter κ = V.lockCounter κ := by
  cases κ' <;> cases κ <;> rfl

@[simp] theorem View.lockCounter_setLock (κ' : LockKind) (l l' : LockView) :
    (V.setLock κ' l l').lockCounter κ = V.lockCounter κ := View.lockCounter_setLocks κ' _

theorem View.Unlocks.lockCounter {l : LockView} {status : Int} (h : V.Unlocks κ' l status V')
    (κ : LockKind) : V'.lockCounter κ = V.lockCounter κ := by
  obtain ⟨V₁, hwake, rfl⟩ := h
  rw [View.lockCounter_setLock, hwake.frame]
  cases κ <;> rfl

theorem View.Waits.lockCounter {l : LockView} (h : V.Waits κ' l V') (κ : LockKind) :
    V'.lockCounter κ = V.lockCounter κ := by
  obtain ⟨c, -, t, -, -, -, w, -, -, rfl⟩ := h
  cases κ <;> cases κ' <;> rfl

/-- Only creations count. -/
theorem Effect.lockCounter (h : Effect k V op V') (hop : ¬ op.Registers) (κ : LockKind) :
    V'.lockCounter κ = V.lockCounter κ := by
  cases h with
  | tick _ _ _ _ hs =>
      rw [hs.frame]
      cases κ <;> rfl
  | yield _ _ _ _ hy =>
      rw [hy.frame]
      cases κ <;> rfl
  | mutexUp _ hunlock => exact hunlock.lockCounter κ
  | mutexWait _ _ hwait => exact hwait.lockCounter κ
  | semaphoreUp _ _ hunlock => exact hunlock.lockCounter κ
  | semaphoreWait _ _ hwait => rw [hwait.lockCounter, View.lockCounter_setLock]
  | send _ hwake =>
      rw [hwake.frame]
      cases κ <;> rfl
  | mutexTake _ _ => exact View.lockCounter_setLock ..
  | semaphoreTake _ _ => exact View.lockCounter_setLock ..
  | semaphoreCount _ _ => exact View.lockCounter_setLock ..
  | createMutex _ _ _ => exact absurd trivial hop
  | createSemaphore _ _ _ => exact absurd trivial hop
  | _ => cases κ <;> rfl

end Counters

def View.lockIds (V : View) (κ : LockKind) : List Int := (V.locks κ).map LockView.id

section Ids

variable {k : Kernel} {V V' : View} {op : KernelOp} {κ κ' : LockKind} {l l' : LockView} {id : Int}

theorem View.lockIds_congr (h : V'.locks κ = V.locks κ) : V'.lockIds κ = V.lockIds κ := by
  rw [lockIds, lockIds, h]

theorem View.lockIds_addLock (V : View) (l : LockView) :
    (V.addLock κ l).lockIds = Function.update V.lockIds κ (V.lockIds κ ++ [l.id]) := by
  funext κ'
  cases κ <;> cases κ' <;> simp [lockIds, View.addLock, View.locks]

theorem View.lockCounter_addLock (V : View) (l : LockView) :
    (V.addLock κ l).lockCounter =
      Function.update V.lockCounter κ (toInt32 (V.lockCounter κ + 1)) := by
  funext κ'
  cases κ <;> cases κ' <;> simp [lockCounter, View.addLock]

/-- The first lock with the number is the one that goes. -/
theorem View.lockIds_destroy {A B : List LockView} (hl : V.lockWith κ id = some l)
    (hL : V.locks κ = A ++ l :: B) (hnd : (V.lockIds κ).Nodup) :
    (V.setLocks κ (A ++ B)).lockIds = Function.update V.lockIds κ ((V.lockIds κ).erase id) := by
  funext κ'
  by_cases hκ : κ' = κ
  · subst hκ
    have hid : l.id = id := View.lockWith_id hl
    rw [lockIds, hL, List.map_append, List.map_cons] at hnd
    have hA : id ∉ A.map LockView.id := fun h =>
      (List.nodup_append.mp hnd).2.2 id h l.id List.mem_cons_self hid.symm
    rw [Function.update_self, lockIds, View.locks_setLocks, lockIds, hL, List.map_append,
      List.map_append, List.map_cons, hid, List.erase_append_right _ hA, List.erase_cons_head]
  · rw [Function.update_of_ne hκ]
    exact View.lockIds_congr (View.locks_setLocks_of_ne hκ _ V)

theorem View.lockIds_setLock (hl : l ∈ V.locks κ) (hr : Rep k V) (hid : l'.id = l.id)
    (κ' : LockKind) : (V.setLock κ l l').lockIds κ' = V.lockIds κ' := by
  by_cases hκ : κ' = κ
  · subst hκ
    rw [lockIds, lockIds, View.locks_setLock, map_update]
    intro x hx haddr
    rw [(hr.eq_of_lockAddr hx hl haddr).2]
    exact hid
  · exact View.lockIds_congr (View.locks_setLocks_of_ne hκ _ V)

/-- The other events keep the numbers. -/
theorem Rep.lockIds_effect (hr : Rep k V) (hok : V.Ok) (h : Effect k V op V')
    (hop : ¬ op.Registers) : V'.lockIds = V.lockIds := by
  funext κ
  have heffect := h
  -- one case for each effect that has to do with a lock; a status or a waiter changes, and no
  -- number
  cases h with
  | tick _ _ _ _ _ => exact View.lockIds_congr ((hr.switched_tick hok heffect).locks κ)
  | yield _ _ _ _ _ => exact View.lockIds_congr ((hr.switched_yield hok heffect).locks κ)
  | send _ hwake =>
      obtain ⟨-, -, hlocks, -⟩ := wakeReceiver hwake hr hok
      exact View.lockIds_congr (hlocks κ)
  | mutexUp hl hunlock =>
      obtain ⟨V₁, -, -, -, hlocks⟩ := hr.unlocks hok hunlock
      rw [View.lockIds_congr (hlocks κ)]
      exact View.lockIds_setLock (mem_of_lockWith hl) hr (by rfl) κ
  | mutexWait hl _ hwait =>
      obtain ⟨w, -, -, hlocks⟩ := hr.waits hok hwait
      rw [View.lockIds_congr (hlocks κ)]
      exact View.lockIds_setLock (mem_of_lockWith hl) hr (by rfl) κ
  | mutexTake hl _ => exact View.lockIds_setLock (mem_of_lockWith hl) hr (by rfl) κ
  | semaphoreCount hl _ => exact View.lockIds_setLock (mem_of_lockWith hl) hr (by rfl) κ
  | semaphoreUp hl _ hunlock =>
      obtain ⟨V₁, -, -, -, hlocks⟩ := hr.unlocks hok hunlock
      rw [View.lockIds_congr (hlocks κ)]
      exact View.lockIds_setLock (mem_of_lockWith hl) hr (by rfl) κ
  | semaphoreWait hl _ hwait =>
      obtain ⟨w, -, -, hlocks⟩ := hr.waitsCounted hok (mem_of_lockWith hl) hwait
      rw [View.lockIds_congr (hlocks κ)]
      exact View.lockIds_setLock (mem_of_lockWith hl) hr (by rfl) κ
  | semaphoreTake hl _ => exact View.lockIds_setLock (mem_of_lockWith hl) hr (by rfl) κ
  | createMutex _ _ _ => exact absurd trivial hop
  | createSemaphore _ _ _ => exact absurd trivial hop
  | mutexDestroy _ _ => exact absurd trivial hop
  | semaphoreDestroy _ _ => exact absurd trivial hop
  | _ => exact View.lockIds_congr (by cases κ <;> rfl)

end Ids

/-! ## Runs

The numbers of the locks are carried along beside the kernel, and the invariant compares them with
the registry. -/

/-- The kernel, with the numbers of the locks that were created and not destroyed. -/
structure Registries where
  kernel : Kernel
  live : LockKind → List Int

inductive RegistryEvent where
  | create (κ : LockKind) (id : Int)
  | destroy (κ : LockKind) (id : Int)
  | other

inductive RegistryStep : RegistryEvent → Registries → Registries → Prop
  | createMutex {s : Registries} {k' : Kernel} {id : Int} {fuel : Nat} :
      createMutex fuel s.kernel = .ok (id, k') →
      RegistryStep (.create .mutex id) s
        ⟨k', Function.update s.live .mutex (s.live .mutex ++ [id])⟩
  | createSemaphore {s : Registries} {k' : Kernel} {id start : Int} {fuel : Nat} :
      createSemaphore fuel s.kernel start = .ok (id, k') →
      RegistryStep (.create .semaphore id) s
        ⟨k', Function.update s.live .semaphore (s.live .semaphore ++ [id])⟩
  | mutexDestroy {s : Registries} {k' : Kernel} {id : Int} {fuel : Nat} :
      mutexDestroy fuel s.kernel id = .ok k' →
      RegistryStep (.destroy .mutex id) s
        ⟨k', Function.update s.live .mutex ((s.live .mutex).erase id)⟩
  | semaphoreDestroy {s : Registries} {k' : Kernel} {id : Int} {fuel : Nat} :
      semaphoreDestroy fuel s.kernel id = .ok k' →
      RegistryStep (.destroy .semaphore id) s
        ⟨k', Function.update s.live .semaphore ((s.live .semaphore).erase id)⟩
  | other {s : Registries} {k' : Kernel} :
      KernelStep (fun k op => Sound k op ∧ ¬ op.Registers) s.kernel k' →
      RegistryStep .other s { s with kernel := k' }
  | recycle {s : Registries} {k' : Kernel} : Recycled s.kernel k' →
      RegistryStep .other s { s with kernel := k' }

/-- `main` has just returned. -/
def Registries.AtBoot (s : Registries) : Prop := Booted s.kernel ∧ ∀ κ, s.live κ = []

/-- A lock is created in a page that holds null pointers where the creation does not write, and before
the counter has come round. -/
def Registries.Guarded (s : Registries) : RegistryEvent → Prop
  | .create κ _ => CleanLock s.kernel ∧ 0 ≤ s.kernel.lockCounter κ
  | _ => True

/-- The steps of the runs in which every creation is guarded. -/
def CleanRegistryStep (s s' : Registries) : Prop := ∃ e, RegistryStep e s s' ∧ s.Guarded e

/-- The registry is a list of locks with the numbers `ids`, all different. The search ends for
every number, at the lock with this number or, when there is none, at the null pointer. -/
def Kernel.Lists (k : Kernel) (κ : LockKind) (ids : List Int) : Prop :=
  ids.Nodup ∧ ∃ nodes, lockLink.IsList k (k.lockList κ) nodes ∧
    nodes.map (fun a => (k.lock a).id) = ids ∧ ∀ id, ∃ a,
      Returns (findLock · k (k.lockList κ) id) a ∧
        (a ∈ nodes ∧ (k.lock a).id = id ∨ id ∉ ids ∧ a = NULL)

/-- The lock with this number is found, and nobody waits for it. -/
def Kernel.HasUnused (k : Kernel) (κ : LockKind) (id : Int) : Prop :=
  ∃ fuel a, findLock fuel k (k.lockList κ) id = .ok a ∧ a ≠ NULL ∧
    (k.lock a).id = id ∧ (k.lock a).blockedThreadList = NULL

/-- What holds between the events. -/
structure Registries.Kept (s : Registries) (V : View) : Prop where
  rep : Rep s.kernel V
  ok : V.Ok
  ids : V.lockIds = s.live
  nodup : ∀ κ, (s.live κ).Nodup
  int : ∀ κ, V.lockCounter κ < 2 ^ 31
  lt : ∀ κ, 0 ≤ V.lockCounter κ → ∀ id ∈ s.live κ, id < V.lockCounter κ

theorem Rep.lists {k : Kernel} {V : View} {κ : LockKind} (hr : Rep k V)
    (hnd : (V.lockIds κ).Nodup) : k.Lists κ (V.lockIds κ) := by
  have hlocks := hr.locks κ
  refine ⟨hnd, (V.locks κ).map LockView.addr, hlocks.list, ?_, fun id => ⟨_, hr.findLock κ id, ?_⟩⟩
  · rw [List.map_map]
    exact List.map_congr_left fun l hl => (hlocks.locks l hl).id
  · cases hl : V.lockWith κ id with
    | none =>
        refine .inr ⟨fun hmem => ?_, rfl⟩
        obtain ⟨l, hmem, hid⟩ := List.mem_map.mp hmem
        have := List.find?_eq_none.mp hl l hmem
        exact this (by simpa using hid)
    | some l =>
        have hmem := mem_of_lockWith hl
        have hid := (hlocks.locks l hmem).id
        rw [View.lockWith_id hl] at hid
        exact .inl ⟨List.mem_map_of_mem hmem, hid⟩

namespace Registries

variable {s s' : Registries} {V V' : View} {k' : Kernel} {κ : LockKind} {l : LockView} {id : Int}
  {e : RegistryEvent}

theorem AtBoot.kept (h : s.AtBoot) : ∃ V, s.Kept V := by
  obtain ⟨hboot, hlive⟩ := h
  obtain ⟨V, hr, hok, hV⟩ := hboot.rep
  refine ⟨V, hr, hok, ?_, fun κ => ?_, fun κ => ?_, fun κ _ id hid => ?_⟩
  · funext κ
    rw [hlive]
    cases κ with
    | mutex => simp [View.lockIds, View.locks, hV.mutexes]
    | semaphore => simp [View.lockIds, View.locks, hV.semaphores]
  · rw [hlive]
    exact List.nodup_nil
  · cases κ with
    | mutex => simp [View.lockCounter, hV.mutexCounter]
    | semaphore => simp [View.lockCounter, hV.semaphoreCounter]
  · rw [hlive] at hid
    cases hid

/-- The counter before it has come round is the number of no lock. -/
theorem Kept.unused (h : s.Kept V) (hcount : 0 ≤ V.lockCounter κ) : V.lockCounter κ ∉ s.live κ :=
  fun hmem => lt_irrefl _ (h.lt κ hcount _ hmem)

/-- A creation appends the counter, which no lock has yet. -/
theorem Kept.create (h : s.Kept V) (hcount : 0 ≤ V.lockCounter κ) (hid : l.id = V.lockCounter κ)
    (hr : Rep k' (V.addLock κ l)) (hok : (V.addLock κ l).Ok) :
    Kept ⟨k', Function.update s.live κ (s.live κ ++ [V.lockCounter κ])⟩ (V.addLock κ l) := by
  have hnew := h.unused hcount
  have hint := h.int κ
  refine ⟨hr, hok, ?_, fun κ' => ?_, fun κ' => ?_, fun κ' => ?_⟩
  · rw [View.lockIds_addLock, h.ids, hid]
  -- the number is appended to the ids of its own registry
  · by_cases hκ : κ' = κ
    · subst hκ
      simp only [Function.update_self]
      refine List.nodup_append.mpr ⟨h.nodup κ', List.nodup_singleton _, fun i hi j hj => ?_⟩
      rw [List.mem_singleton.mp hj]
      rintro rfl
      exact hnew hi
    · simp only [Function.update_of_ne hκ]
      exact h.nodup κ'
  · rw [View.lockCounter_addLock]
    by_cases hκ : κ' = κ
    · subst hκ
      rw [Function.update_self]
      exact (toInt32_bounds _).2
    · rw [Function.update_of_ne hκ]
      exact h.int κ'
  · rw [View.lockCounter_addLock]
    by_cases hκ : κ' = κ
    · subst hκ
      simp only [Function.update_self, List.mem_append, List.mem_singleton]
      intro hround i hi
      -- the counter stays ahead of the numbers unless it comes round now
      have hnext : toInt32 (V.lockCounter κ' + 1) = V.lockCounter κ' + 1 := by
        refine toInt32_of_bounds (by omega) ?_
        by_contra hlast
        have hmax : V.lockCounter κ' + 1 = 2 ^ 31 := by omega
        rw [hmax] at hround
        exact absurd hround (by decide)
      rw [hnext]
      rcases hi with hi | rfl
      · exact (h.lt κ' hcount i hi).trans (Int.lt_succ _)
      · exact Int.lt_succ _
    · simp only [Function.update_of_ne hκ]
      exact h.lt κ'

theorem Kept.destroy (h : s.Kept V) {A B : List LockView} (hl : V.lockWith κ id = some l)
    (hL : V.locks κ = A ++ l :: B) (hr : Rep k' (V.setLocks κ (A ++ B))) :
    Kept ⟨k', Function.update s.live κ ((s.live κ).erase id)⟩ (V.setLocks κ (A ++ B)) := by
  have hlive : ∀ κ', (Function.update s.live κ ((s.live κ).erase id) κ').Sublist (s.live κ') := by
    intro κ'
    by_cases hκ : κ' = κ
    · subst hκ
      rw [Function.update_self]
      exact List.erase_sublist
    · rw [Function.update_of_ne hκ]
  refine ⟨hr, h.ok.setLocks κ _, ?_, fun κ' => (h.nodup κ').sublist (hlive κ'), fun κ' => ?_,
    fun κ' hcount i hi => ?_⟩
  · rw [View.lockIds_destroy hl hL (by rw [h.ids]; exact h.nodup κ), h.ids]
  · rw [View.lockCounter_setLocks]
    exact h.int κ'
  · rw [View.lockCounter_setLocks] at hcount ⊢
    exact h.lt κ' hcount i ((hlive κ').subset hi)

/-- A number that no lock has. -/
theorem Kept.absent (h : s.Kept V) (hnone : V.lockWith κ id = none) (hr : Rep k' V) :
    Kept ⟨k', Function.update s.live κ ((s.live κ).erase id)⟩ V := by
  have hid : id ∉ s.live κ := by
    rw [← h.ids]
    intro hmem
    obtain ⟨l, hl, hlid⟩ := List.mem_map.mp hmem
    have := List.find?_eq_none.mp hnone l hl
    exact this (by simpa using hlid)
  rw [List.erase_of_not_mem hid, Function.update_eq_self]
  exact ⟨hr, h.ok, h.ids, h.nodup, h.int, h.lt⟩

theorem Kept.step (h : s.Kept V) (hstep : RegistryStep e s s') (hguard : s.Guarded e) :
    ∃ V', s'.Kept V' := by
  have hr := h.rep
  -- creations and destructions move the list of ids, nothing else does
  cases hstep with
  | createMutex hcall =>
      obtain ⟨rfl, l, hid, -, -, hr', hok'⟩ := hr.createMutex_inv h.ok hguard.1 hcall
      exact ⟨_, h.create (κ := .mutex) (hr.lockCounter ▸ hguard.2) hid hr' hok'⟩
  | createSemaphore hcall =>
      obtain ⟨rfl, l, hid, -, -, hr', hok'⟩ := hr.createSemaphore_inv h.ok hguard.1 hcall
      exact ⟨_, h.create (κ := .semaphore) (hr.lockCounter ▸ hguard.2) hid hr' hok'⟩
  | mutexDestroy hcall =>
      rcases hr.mutexDestroy_inv hcall with ⟨hnone, hr'⟩ | ⟨A, l, B, hL, hl, hr'⟩
      · exact ⟨V, h.absent hnone hr'⟩
      · exact ⟨_, h.destroy hl hL hr'⟩
  | semaphoreDestroy hcall =>
      rcases hr.semaphoreDestroy_inv hcall with ⟨hnone, hr'⟩ | ⟨A, l, B, hL, hl, hr'⟩
      · exact ⟨V, h.absent hnone hr'⟩
      · exact ⟨_, h.destroy hl hL hr'⟩
  | other hother =>
      obtain ⟨k₁, op, fuel, hrec, ⟨hsound, hop⟩, hrun⟩ := hother
      have hr₁ := hr.recycled hrec
      obtain ⟨V', heffect, hr', hok'⟩ := hr₁.run_inv h.ok hsound hrun
      have hsame : V'.lockCounter = V.lockCounter := funext (heffect.lockCounter hop)
      refine ⟨V', hr', hok', (hr₁.lockIds_effect h.ok heffect hop).trans h.ids, h.nodup, ?_, ?_⟩
      · rw [hsame]
        exact h.int
      · rw [hsame]
        exact h.lt
  | recycle hrec => exact ⟨V, hr.recycled hrec, h.ok, h.ids, h.nodup, h.int, h.lt⟩

/-- The new lock is found, with an empty wait list. -/
theorem Kept.hasUnused (h : s.Kept V) (hstep : RegistryStep (.create κ id) s s')
    (hguard : s.Guarded (.create κ id)) : s'.kernel.HasUnused κ id := by
  have hr := h.rep
  obtain ⟨hclean, hcount⟩ := hguard
  rw [hr.lockCounter] at hcount
  have hfind : ∀ {k' : Kernel} {κ : LockKind} {l : LockView}, 0 ≤ V.lockCounter κ →
      Rep k' (V.addLock κ l) → l.id = V.lockCounter κ → l.waiters = [] →
      k'.HasUnused κ (V.lockCounter κ) := by
    intro k' κ l hcount hr' hid hwaiters
    have hlocks : (V.addLock κ l).locks κ = V.locks κ ++ [l] := by cases κ <;> rfl
    have hold : V.lockWith κ (V.lockCounter κ) = none := by
      refine List.find?_eq_none.mpr fun l₁ hl₁ => ?_
      have hmem : l₁.id ∈ s.live κ := by
        rw [← h.ids]
        exact List.mem_map_of_mem hl₁
      have := h.lt κ hcount _ hmem
      simp only [decide_eq_true_eq]
      omega
    have hnew : (V.addLock κ l).lockWith κ (V.lockCounter κ) = some l := by
      rw [View.lockWith, hlocks, List.find?_append, ← View.lockWith, hold]
      simp [hid]
    have hmem := Rep.mem_of_lockWith hnew
    have hlock := (hr'.locks κ).locks l hmem
    obtain ⟨fuel, hret⟩ := (hr'.findLock κ (V.lockCounter κ)).exists_fuel
    rw [hnew] at hret
    refine ⟨fuel, l.addr, hret, hr'.lock_ne_null hmem, hlock.id.trans hid, ?_⟩
    have hlist := hlock.list
    rw [hwaiters] at hlist
    exact Chain.nil_iff.mp hlist
  cases hstep with
  | createMutex hcall =>
      obtain ⟨rfl, l, hid, -, hwaiters, hr', -⟩ := hr.createMutex_inv h.ok hclean hcall
      exact hfind (κ := .mutex) hcount hr' hid hwaiters
  | createSemaphore hcall =>
      obtain ⟨rfl, l, hid, -, hwaiters, hr', -⟩ := hr.createSemaphore_inv h.ok hclean hcall
      exact hfind (κ := .semaphore) hcount hr' hid hwaiters

end Registries

/-- When every lock is created in a clean page and before the counter has come round, both registries are
lists of exactly the locks that were created and not destroyed, and a new lock has an empty wait list. -/
theorem registries_stay_lists {s : Registries} (h : Reachable Registries.AtBoot CleanRegistryStep s) :
    (∀ κ, s.kernel.Lists κ (s.live κ)) ∧ ∀ κ id s', RegistryStep (.create κ id) s s' →
      s.Guarded (.create κ id) → s'.kernel.HasUnused κ id := by
  obtain ⟨V, hkept⟩ := h.invariant (I := fun s => ∃ V, s.Kept V) (fun _ hs => hs.kept)
    fun _ _ _ ⟨_, hs⟩ ⟨_, hstep, hguard⟩ => hs.step hstep hguard
  refine ⟨fun κ => ?_, fun κ id s' hstep hguard => hkept.hasUnused hstep hguard⟩
  rw [← hkept.ids]
  exact hkept.rep.lists (by rw [hkept.ids]; exact hkept.nodup κ)

/-! ### The page of the first of two mutexes comes back -/

/-- Two mutexes are created, the first is destroyed and another one created. -/
def recycledMutex :
    Except Stop (Kernel × (Int × Kernel) × (Int × Kernel) × Kernel × Int × Kernel) := do
  let k₀ ← startKernel
  let r₁ ← createMutex 40 k₀
  let r₂ ← createMutex 40 r₁.2
  let k₃ ← mutexDestroy 40 r₂.2 0
  let r₄ ← createMutex 40 k₃
  return (k₀, r₁, r₂, k₃, r₄)

theorem recycledMutex_states : (do
    let r ← recycledMutex
    let (k₀, r₁, r₂, _, r₄) := r
    let a := (r₄.2.lock r₄.2.mutexList).next
    return decide ((k₀.cleanLock? ∧ r₁.2.cleanLock? ∧ r₁.1 = 0 ∧ r₂.1 = 1 ∧ r₄.1 = 2) ∧
      (0 ≤ k₀.lockCounter .mutex ∧ 0 ≤ r₁.2.lockCounter .mutex) ∧
      r₄.2.mutexList ≠ NULL ∧ a ≠ NULL ∧ (r₄.2.lock a).next = r₄.2.mutexList ∧
      (r₄.2.lock r₄.2.mutexList).id = 1 ∧ (r₄.2.lock a).id = 2) : Except Stop Bool) = .ok true := by
  decide +kernel

/-- The new mutex still points to the last one, which now points to it. -/
theorem recycledMutex_reachable : ∃ s s', Reachable Registries.AtBoot CleanRegistryStep s ∧
    s.live .mutex = [1] ∧ RegistryStep (.create .mutex 2) s s' ∧
    ∀ fuel, findID fuel s'.kernel 3 = .error .outOfFuel := by
  obtain ⟨r, hr, h⟩ := bind_eq_ok.mp recycledMutex_states
  rw [recycledMutex] at hr
  obtain ⟨k₀, hk₀, hr⟩ := bind_eq_ok.mp hr
  obtain ⟨⟨id₁, k₁⟩, hk₁, hr⟩ := bind_eq_ok.mp hr
  obtain ⟨⟨id₂, k₂⟩, hk₂, hr⟩ := bind_eq_ok.mp hr
  obtain ⟨k₃, hk₃, hr⟩ := bind_eq_ok.mp hr
  obtain ⟨⟨id₄, k₄⟩, hk₄, hr⟩ := bind_eq_ok.mp hr
  obtain rfl := Except.ok.inj hr
  obtain ⟨⟨hclean₀, hclean₁, rfl, rfl, rfl⟩, ⟨hcount₀, hcount₁⟩, hlist, ha, hnext, hid₁, hid₂⟩ :=
    of_decide_eq_true (Except.ok.inj h)
  simp only at hlist ha hnext hid₁ hid₂
  have hstart : Reachable Registries.AtBoot CleanRegistryStep ⟨k₀, fun _ => []⟩ :=
    .start ⟨booted_of_start hk₀, fun _ => rfl⟩
  have h₁ := hstart.next ⟨_, .createMutex hk₁, Kernel.cleanLock_of hclean₀, hcount₀⟩
  have h₂ := h₁.next ⟨_, .createMutex hk₂, Kernel.cleanLock_of hclean₁, hcount₁⟩
  have h₃ := h₂.next ⟨_, .mutexDestroy hk₃, trivial⟩
  refine ⟨_, _, h₃, by simp, .createMutex hk₄, fun fuel => ?_⟩
  -- the search goes from each of the two nodes to the other
  refine walkWhile_forever
    (S := fun x => x = k₄.mutexList ∨ x = (k₄.lock k₄.mutexList).next) ?_ (.inl rfl) fuel
  rintro x (rfl | rfl)
  · exact ⟨by simp [hlist, hid₁], _, .inr rfl, rfl⟩
  · exact ⟨by simp [ha, hid₂], _, .inl hnext, rfl⟩

theorem registry_becomes_cyclic : ¬ ∀ s : Registries,
    Reachable Registries.AtBoot (fun s s' => ∃ e, RegistryStep e s s') s →
    ∀ κ, s.kernel.Lists κ (s.live κ) := by
  intro hclaim
  obtain ⟨s, s', hs, -, hstep, hloop⟩ := recycledMutex_reachable
  have hreach : Reachable Registries.AtBoot (fun s s' => ∃ e, RegistryStep e s s') s' :=
    (hs.mono (fun _ h => h) fun _ _ ⟨e, he, _⟩ => ⟨e, he⟩).next ⟨_, hstep⟩
  obtain ⟨-, _, -, -, hfind⟩ := hclaim s' hreach .mutex
  obtain ⟨a, hret, -⟩ := hfind 3
  obtain ⟨fuel, hret⟩ := hret.exists_fuel
  have hloop : findLock fuel s'.kernel (s'.kernel.lockList .mutex) 3 = .error .outOfFuel := hloop fuel
  rw [hloop] at hret
  cases hret

/-- Of two mutexes the first is destroyed. -/
theorem registries_stay_lists_after_destroy : ∃ s : Registries,
    Reachable Registries.AtBoot CleanRegistryStep s ∧ s.live .mutex = [1] ∧
    ∀ κ, s.kernel.Lists κ (s.live κ) := by
  obtain ⟨s, -, hs, hlive, -⟩ := recycledMutex_reachable
  exact ⟨s, hs, hlive, (registries_stay_lists hs).1⟩

end BasicKernel
