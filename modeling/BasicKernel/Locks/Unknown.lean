import BasicKernel.Locks.Effects
import BasicKernel.View.Script

set_option autoImplicit false

/-! # Calls with the number of no lock

The six calls that name a lock look it up first. For a number that no lock of the registry has,
three of them go on with the null pointer that the search returned.

`unknown_lock_harmless` says which of the calls are harmless, in both directions, and
`unknown_mutex_fault` is an up with the number of a mutex that was destroyed.
-/

namespace BasicKernel

open Linked Fuel

/-- No lock of the registry has the number. -/
def Kernel.Unknown (k : Kernel) (κ : LockKind) (id : Int) : Prop :=
  ∀ a, OnChain (lockLink.next k) NULL (k.lockList κ) a → (k.lock a).id ≠ id

/-- Following the registry from its first node ends. -/
def Kernel.RegistryEnds (k : Kernel) (κ : LockKind) : Prop :=
  ∃ nodes, lockLink.IsList k (k.lockList κ) nodes

/-- The registries, the wait lists and the states of threads and processes are the same. -/
structure SameLocks (k k' : Kernel) : Prop where
  mutexList : k'.mutexList = k.mutexList
  semaphoreList : k'.semaphoreList = k.semaphoreList
  lock : k'.lock = k.lock
  blockedThread : k'.blockedThread = k.blockedThread
  thread : ∀ a, (k'.thread a).state = (k.thread a).state
  process : ∀ a, (k'.process a).state = (k.process a).state

/-- The call ends without a fault and changes no lock and no state. -/
def KernelOp.Harmless (op : KernelOp) (k : Kernel) : Prop :=
  ∃ k', Returns (op.run · k) k' ∧ SameLocks k k'

/-- The call tests the pointer that the search returned before it goes on. -/
def KernelOp.TestsLock : KernelOp → Prop
  | mutexDestroy _ => True
  | semaphoreUp _ => True
  | semaphoreDestroy _ => True
  | _ => False

variable {k k' : Kernel} {κ : LockKind} {id : Int} {fuel : Nat}

theorem SameLocks.refl (k : Kernel) : SameLocks k k := by
  constructor <;> intros <;> rfl

/-! ## The search

The search follows the registry to the null pointer. In a registry that is a ring it does
not end. -/

namespace Kernel.Unknown

theorem findLock_list (h : k.Unknown κ id) (hlist : k.RegistryEnds κ) :
    Returns (findLock · k (k.lockList κ) id) NULL := by
  obtain ⟨nodes, hnodes⟩ := hlist
  let q : Addr → Bool := fun a => decide ((k.lock a).id = id)
  have hnone : nodes.find? q = none := by
    apply List.find?_eq_none.mpr
    intro a ha
    simpa [q] using h a (Chain.onChain_iff hnodes |>.mpr ha)
  have hwalk : Returns (findLock · k (k.lockList κ) id) ((nodes.find? q).getD NULL) := by
    refine Chain.walkWhile hnodes (by simp) (fun a ha => ?_) fun _ _ => rfl
    have hne : a ≠ NULL := fun hnull => hnodes.nil_notMem (hnull ▸ ha)
    simp [hne, q]
  rw [hnone] at hwalk
  exact hwalk

/-- In a registry that does not end the search does not end. -/
theorem findLock_endless (h : k.Unknown κ id)
    (hforever : ∀ n, (lockLink.next k)^[n] (k.lockList κ) ≠ NULL) (fuel : Nat) :
    findLock fuel k (k.lockList κ) id = .error .outOfFuel := by
  apply walkWhile_forever (S := fun x => ∃ n, (lockLink.next k)^[n] (k.lockList κ) = x)
  · rintro x ⟨n, rfl⟩
    have hid := h _ ⟨n, rfl, fun m _ => hforever m⟩
    refine ⟨by simp [hforever n, hid], _, ⟨n + 1, rfl⟩, ?_⟩
    rw [Function.iterate_succ_apply']
    rfl
  · exact ⟨0, rfl⟩

theorem findLock_eq (h : k.Unknown κ id) {a : Addr}
    (hfind : findLock fuel k (k.lockList κ) id = .ok a) : a = NULL ∧ k.RegistryEnds κ := by
  rcases Chain.exists_or_forever (lockLink.next k) NULL (k.lockList κ) with hlist | hforever
  · exact ⟨(h.findLock_list hlist).eq hfind, hlist⟩
  · rw [h.findLock_endless hforever] at hfind
    cases hfind

/-- The destruction of an unknown lock. -/
theorem destroyLock_list (h : k.Unknown κ id) (hlist : k.RegistryEnds κ) :
    Returns (destroyLock · k (k.lockList κ) id) (k.lockList κ, k) := by
  obtain ⟨nodes, hnodes⟩ := hlist
  refine Returns.of_if (n := nodes.length) fun fuel => ?_
  apply removeFirst_absent hnodes
  intro a ha
  simpa using h a (Chain.onChain_iff hnodes |>.mpr ha)

theorem destroyLock_endless (h : k.Unknown κ id)
    (hforever : ∀ n, (lockLink.next k)^[n] (k.lockList κ) ≠ NULL) (fuel n : Nat) :
    destroyLock fuel k ((lockLink.next k)^[n] (k.lockList κ)) id = .error .outOfFuel := by
  induction fuel generalizing n with
  | zero => rfl
  | succ fuel ih =>
      have hid := h _ ⟨n, rfl, fun m _ => hforever m⟩
      have hnext := ih (n + 1)
      rw [Function.iterate_succ_apply'] at hnext
      unfold destroyLock at hnext ⊢
      rw [removeFirst, if_neg (hforever n), if_neg (by simpa using hid), hnext]
      rfl

theorem destroyLock_ends (h : k.Unknown κ id) {r : Addr × Kernel}
    (hcall : destroyLock fuel k (k.lockList κ) id = .ok r) : k.RegistryEnds κ := by
  rcases Chain.exists_or_forever (lockLink.next k) NULL (k.lockList κ) with hlist | hforever
  · exact hlist
  · have hend := h.destroyLock_endless hforever fuel 0
    rw [Function.iterate_zero_apply, hcall] at hend
    cases hend

/-! ## The calls that test the pointer

Behind a search that found nothing they return at once. -/

theorem mutexDestroy (h : k.Unknown .mutex id) (hlist : k.RegistryEnds .mutex) :
    Returns (BasicKernel.mutexDestroy · k id) k :=
  (h.destroyLock_list hlist).bind (Returns.const _ _)

theorem semaphoreDestroy (h : k.Unknown .semaphore id) (hlist : k.RegistryEnds .semaphore) :
    Returns (BasicKernel.semaphoreDestroy · k id) k :=
  (h.destroyLock_list hlist).bind (Returns.const _ _)

theorem semaphoreUp (h : k.Unknown .semaphore id) (hlist : k.RegistryEnds .semaphore) :
    Returns (BasicKernel.semaphoreUp · k id) k := by
  have hfind := h.findLock_list hlist
  have hupdate : Returns (updateSemaphoreStatus · k id 1) k := hfind.bind (Returns.const _ _)
  have hlocked : Returns (isSemaphoreLocked · k id) true := hfind.bind (Returns.const _ _)
  exact hupdate.bind (hlocked.bind (Returns.const _ _))

/-! ## The calls that do not

They go on through the null pointer, where there is no lock. In the model such an access is an
error, so that these calls do not return. -/

/-- The wake-up loop reads the wait list through the pointer. -/
theorem mutexUp (h : k.Unknown .mutex id) : BasicKernel.mutexUp fuel k id ≠ .ok k' := by
  intro hcall
  obtain ⟨k₁, hupdate, hcall⟩ := bind_eq_ok.mp hcall
  obtain ⟨a, hfind, hupdate⟩ := bind_eq_ok.mp hupdate
  obtain ⟨rfl, -⟩ := h.findLock_eq (κ := .mutex) hfind
  obtain rfl : k = k₁ := Except.ok.inj hupdate
  obtain ⟨a, hfind, hcall⟩ := bind_eq_ok.mp hcall
  obtain ⟨rfl, -⟩ := h.findLock_eq (κ := .mutex) hfind
  cases fuel with
  | zero => cases hcall
  | succ n =>
      rw [unlockAll, load_null] at hcall
      cases hcall

/-- The wait list of the null pointer cannot be entered. -/
theorem waitForLock_null : waitForLock fuel k NULL ≠ .ok k' := by
  intro hcall
  obtain ⟨pid, -, hcall⟩ := bind_eq_ok.mp hcall
  obtain ⟨pthread, -, hcall⟩ := bind_eq_ok.mp hcall
  obtain ⟨k₁, hadd, -⟩ := bind_eq_ok.mp hcall
  obtain ⟨⟨node, k₂⟩, -, hadd⟩ := bind_eq_ok.mp hadd
  obtain ⟨k₃, -, hadd⟩ := bind_eq_ok.mp hadd
  obtain ⟨k₄, -, hadd⟩ := bind_eq_ok.mp hadd
  rw [load_null] at hadd
  cases hadd

theorem mutexDown (h : k.Unknown .mutex id) : BasicKernel.mutexDown fuel k id ≠ .ok k' := by
  intro hcall
  obtain ⟨r, hrequest, -⟩ := bind_eq_ok.mp hcall
  obtain ⟨a, hfind, hrequest⟩ := bind_eq_ok.mp hrequest
  obtain ⟨rfl, -⟩ := h.findLock_eq (κ := .mutex) hfind
  obtain ⟨locked, hlocked, hrequest⟩ := bind_eq_ok.mp hrequest
  obtain ⟨b, hfind', hlocked⟩ := bind_eq_ok.mp hlocked
  obtain ⟨rfl, -⟩ := h.findLock_eq (κ := .mutex) hfind'
  obtain rfl : true = locked := Except.ok.inj hlocked
  obtain ⟨k₁, hwait, -⟩ := bind_eq_ok.mp hrequest
  exact waitForLock_null hwait

theorem semaphoreDown (h : k.Unknown .semaphore id) :
    BasicKernel.semaphoreDown fuel k id ≠ .ok k' := by
  intro hcall
  obtain ⟨k₁, hupdate, hcall⟩ := bind_eq_ok.mp hcall
  obtain ⟨a, hfind, hupdate⟩ := bind_eq_ok.mp hupdate
  obtain ⟨rfl, -⟩ := h.findLock_eq (κ := .semaphore) hfind
  obtain rfl : k = k₁ := Except.ok.inj hupdate
  obtain ⟨r, hrequest, -⟩ := bind_eq_ok.mp hcall
  obtain ⟨a, hfind, hrequest⟩ := bind_eq_ok.mp hrequest
  obtain ⟨rfl, -⟩ := h.findLock_eq (κ := .semaphore) hfind
  obtain ⟨locked, hlocked, hrequest⟩ := bind_eq_ok.mp hrequest
  obtain ⟨b, hfind', hlocked⟩ := bind_eq_ok.mp hlocked
  obtain ⟨rfl, -⟩ := h.findLock_eq (κ := .semaphore) hfind'
  obtain rfl : true = locked := Except.ok.inj hlocked
  obtain ⟨k₁, hwait, -⟩ := bind_eq_ok.mp hrequest
  exact waitForLock_null hwait

end Kernel.Unknown

/-! ## Which calls are harmless -/

theorem unknown_lock_harmless {op : KernelOp} (hop : op.Concerns κ id) (h : k.Unknown κ id) :
    op.Harmless k ↔ op.TestsLock ∧ k.RegistryEnds κ := by
  have hsame : ∀ op : KernelOp, Returns (op.run · k) k → op.Harmless k := fun _ hret =>
    ⟨k, hret, .refl k⟩
  constructor
  -- a call that goes through the null pointer does not return in the model
  · rintro ⟨k', hret, -⟩
    obtain ⟨fuel, hrun⟩ := hret.exists_fuel
    cases op with
    | mutexUp i =>
        obtain ⟨rfl, rfl⟩ := hop
        exact absurd hrun h.mutexUp
    | mutexDown i =>
        obtain ⟨rfl, rfl⟩ := hop
        exact absurd hrun h.mutexDown
    | mutexDestroy i =>
        obtain ⟨rfl, rfl⟩ := hop
        obtain ⟨r, hdestroy, -⟩ := bind_eq_ok.mp hrun
        exact ⟨trivial, h.destroyLock_ends (κ := .mutex) hdestroy⟩
    | semaphoreUp i =>
        obtain ⟨rfl, rfl⟩ := hop
        obtain ⟨k₁, hupdate, -⟩ := bind_eq_ok.mp hrun
        obtain ⟨a, hfind, -⟩ := bind_eq_ok.mp hupdate
        exact ⟨trivial, (h.findLock_eq (κ := .semaphore) hfind).2⟩
    | semaphoreDown i =>
        obtain ⟨rfl, rfl⟩ := hop
        exact absurd hrun h.semaphoreDown
    | semaphoreDestroy i =>
        obtain ⟨rfl, rfl⟩ := hop
        obtain ⟨r, hdestroy, -⟩ := bind_eq_ok.mp hrun
        exact ⟨trivial, h.destroyLock_ends (κ := .semaphore) hdestroy⟩
    | _ => exact absurd hop not_false
  -- a call that tests the pointer ends where the search ends
  · rintro ⟨htests, hlist⟩
    cases op with
    | mutexDestroy i =>
        obtain ⟨rfl, rfl⟩ := hop
        exact hsame _ (h.mutexDestroy hlist)
    | semaphoreUp i =>
        obtain ⟨rfl, rfl⟩ := hop
        exact hsame _ (h.semaphoreUp hlist)
    | semaphoreDestroy i =>
        obtain ⟨rfl, rfl⟩ := hop
        exact hsame _ (h.semaphoreDestroy hlist)
    | _ => exact absurd htests not_false

/-! ### The number of a destroyed mutex -/

/-- In a represented state a search that ends at the null pointer has seen every lock. -/
theorem Rep.unknown {V : View} {a : Addr} (hr : Rep k V)
    (hfind : BasicKernel.findLock fuel k (k.lockList κ) id = .ok a) (ha : a = NULL) :
    k.Unknown κ id ∧ k.RegistryEnds κ := by
  have hlist := (hr.locks κ).list
  rcases hr.findLock_inv hfind with ⟨l, hl, -, rfl⟩ | ⟨hnone, -⟩
  · exact absurd ha (hr.lock_ne_null hl)
  · refine ⟨fun b hb => ?_, _, hlist⟩
    obtain ⟨l, hl, rfl⟩ := List.mem_map.mp ((Chain.onChain_iff hlist).mp hb)
    rw [((hr.locks κ).locks l hl).id]
    simpa using List.find?_eq_none.mp hnone l hl

/-- Two mutexes are made, the second is taken and the first destroyed. -/
def destroyedFirst : Except Stop Kernel := do
  KernelOp.runSound 40 [.createMutex, .createMutex, .mutexDown 1, .mutexDestroy 0] (← startKernel)

theorem destroyedFirst_states : (do
    let k ← destroyedFirst
    let a ← findLock 40 k (k.lockList .mutex) 0
    let b ← findLock 40 k (k.lockList .mutex) 1
    return decide (a = NULL ∧ b ≠ NULL ∧ (k.lock b).status = MUTEX_LOCKED) : Except Stop Bool)
      = .ok true := by
  decide +kernel

/-- The registry holds a mutex that is taken, and the number `0` is gone. -/
theorem destroyedFirst_reachable : ∃ k b, Run Sound k ∧ k.Unknown .mutex 0 ∧ k.RegistryEnds .mutex ∧
    OnChain (lockLink.next k) NULL k.mutexList b ∧ (k.lock b).id = 1 ∧
    (k.lock b).status = MUTEX_LOCKED := by
  obtain ⟨k, hk, h⟩ := bind_eq_ok.mp destroyedFirst_states
  obtain ⟨a, hfirst, h⟩ := bind_eq_ok.mp h
  obtain ⟨b, hsecond, h⟩ := bind_eq_ok.mp h
  obtain ⟨ha, hb, hlocked⟩ := of_decide_eq_true (Except.ok.inj h)
  obtain ⟨k₀, hk₀, hk⟩ := bind_eq_ok.mp hk
  have hrun : Run Sound k := Run.runSound (.start (booted_of_start hk₀)) hk
  obtain ⟨V, hr, -⟩ := hrun.rep
  obtain ⟨hunknown, hends⟩ := hr.unknown hfirst ha
  rcases hr.findLock_inv hsecond with ⟨l, hl, hsome, rfl⟩ | ⟨-, rfl⟩
  · refine ⟨k, l.addr, hrun, hunknown, hends, ?_, ?_, hlocked⟩
    · exact (Chain.onChain_iff hr.mutexes.list).mpr (List.mem_map_of_mem hl)
    · rw [((hr.locks .mutex).locks l hl).id, View.lockWith_id hsome]
  · exact absurd rfl hb

/-- To destroy it once more does no harm, and an up does. -/
theorem unknown_lock_harmless_destroyed : ∃ k b, Run Sound k ∧ k.Unknown .mutex 0 ∧
    OnChain (lockLink.next k) NULL k.mutexList b ∧ (k.lock b).status = MUTEX_LOCKED ∧
    (KernelOp.mutexDestroy 0).Harmless k ∧ ¬ (KernelOp.mutexUp 0).Harmless k := by
  obtain ⟨k, b, hrun, hunknown, hends, hb, -, hlocked⟩ := destroyedFirst_reachable
  have hdestroy : (KernelOp.mutexDestroy 0).Concerns .mutex 0 := ⟨rfl, rfl⟩
  have hup : (KernelOp.mutexUp 0).Concerns .mutex 0 := ⟨rfl, rfl⟩
  refine ⟨k, b, hrun, hunknown, hb, hlocked, ?_, fun hharmless => ?_⟩
  · exact (unknown_lock_harmless hdestroy hunknown).mpr ⟨trivial, hends⟩
  · exact ((unknown_lock_harmless hup hunknown).mp hharmless).1

theorem unknown_mutex_fault : ¬ ∀ (k : Kernel) (κ : LockKind) (id : Int) (op : KernelOp),
    Run Sound k → op.Concerns κ id → k.Unknown κ id → op.Harmless k := by
  intro hclaim
  obtain ⟨k, -, hrun, hunknown, -⟩ := destroyedFirst_reachable
  obtain ⟨k', hret, -⟩ := hclaim k .mutex 0 (.mutexUp 0) hrun ⟨rfl, rfl⟩ hunknown
  obtain ⟨fuel, hup⟩ := hret.exists_fuel
  exact hunknown.mutexUp hup

end BasicKernel
