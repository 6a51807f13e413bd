import BasicKernel.Scheduling.Blocking

set_option autoImplicit false

/-! # Waking all threads of a process

`unblockAllThreads` visits as many nodes of the ring of threads as `threadSize` counts. A killed thread
is counted no longer but stays in the ring, so the ring can be longer than that.

`unblock_all_wakes_iff` says that all threads in the state are woken exactly if the nodes of all
of them are among those that are visited. `thread_not_woken` is a run in which one is missed,
behind a dead one.
-/

namespace BasicKernel

open Linked Keyed Fuel Transition

/-- No thread of the process is in the state `ty`, those that were are ready, and all others keep
their states. -/
structure Kernel.WokenAll (k k' : Kernel) (pid : Int) (ty : ThreadState) : Prop where
  none : ∀ i, ¬ k'.ThreadIs (pid, i) ty
  ready : ∀ i, k.ThreadIs (pid, i) ty → k'.ThreadIs (pid, i) .T_READY
  others : ∀ τ s, ¬ (τ.1 = pid ∧ s = ty) → k.ThreadIs τ s → k'.ThreadIs τ s

/-- The node at the place `i` of the ring of the process, from its head on. -/
def Kernel.ringNode (k : Kernel) (process : Addr) (i : Nat) : Addr :=
  k.nextLib^[i] (k.process process).threadLibrary

/-- Every thread in the state `ty` has one of the first `threadSize` nodes of the ring. -/
def Kernel.ReachesAll (k : Kernel) (process : Addr) (ty : ThreadState) : Prop :=
  ∀ i, (k.ringThread process i).state = ty →
    ∃ j : Nat, j < (k.process process).threadSize ∧ k.ringNode process j = k.ringNode process i

variable {k k' : Kernel} {V : View} {p : ProcessView} {t : ThreadView} {ty : ThreadState}

/-! ## On the view

The loop visits the first `threadSize` nodes from the head on, and begins again when the ring is
shorter. -/

namespace ProcessView

/-- The threads that the loop visits. -/
def visited (p : ProcessView) : List ThreadView := p.threads.take p.val.threadSize.toNat

def VisitsAll (p : ProcessView) (ty : ThreadState) : Prop :=
  ∀ t ∈ p.threads, t.val.state = ty → t ∈ p.visited

theorem addr_mem_visited (haddrs : (p.threads.map ThreadView.addr).Nodup) (ht : t ∈ p.threads) :
    t.addr ∈ p.visited.map ThreadView.addr ↔ t ∈ p.visited := by
  constructor
  · intro hmem
    obtain ⟨u, hu, heq⟩ := List.mem_map.mp hmem
    rw [← eq_of_key_eq haddrs (List.mem_of_mem_take hu) ht heq]
    exact hu
  · exact List.mem_map_of_mem

/-- The state of a thread after the loop. -/
theorem threadState_unblockAll_eq (hok : p.Ok) (haddrs : (p.threads.map ThreadView.addr).Nodup)
    (ht : t ∈ p.threads) : (p.unblockAll ty).threadState t.val.pthread =
      some (if t.addr ∈ p.visited.map ThreadView.addr ∧ t.val.state = ty then .T_READY
        else t.val.state) := by
  unfold threadState find visited
  rw [unblockAll_threads haddrs, find_map fun u _ => by split <;> rfl, find_key hok.pthreads ht]
  simp only [Option.map_some, Option.some.injEq]
  split
  · rfl
  · rfl

end ProcessView

namespace Rep

theorem ringNode (hr : Rep k V) (hp : p ∈ V.table) {i : Nat} (hi : i < p.threads.length) :
    k.ringNode p.addr i = p.threads[i].lib := by
  have hrp := hr.processes p hp
  have hlib := hrp.ring.path.getElem i (by simpa using hi)
  rw [List.getElem_map] at hlib
  unfold Kernel.ringNode
  rw [hrp.val, hlib]

/-- Every place of the ring is one of its first nodes. -/
theorem exists_ringNode (hr : Rep k V) (hp : p ∈ V.table) (i : Nat) :
    ∃ m, m < p.threads.length ∧ k.ringNode p.addr i = k.ringNode p.addr m := by
  have hrp := hr.processes p hp
  have hmem : k.ringNode p.addr i ∈ p.threads.map ThreadView.lib := by
    apply hrp.ring.reaches_iff.mp
    unfold Kernel.ringNode
    rw [hrp.val]
    exact ⟨i, rfl⟩
  obtain ⟨m, hm, heq⟩ := List.getElem_of_mem hmem
  rw [List.length_map] at hm
  refine ⟨m, hm, ?_⟩
  rw [hr.ringNode hp hm, ← heq, List.getElem_map]

theorem reachesAll_iff (hr : Rep k V) (hok : V.Ok) (hp : p ∈ V.table) :
    k.ReachesAll p.addr ty ↔ p.VisitsAll ty := by
  have hrp := hr.processes p hp
  have hsize := (hok.processes p hp).size_le
  have hnode : ∀ {i m}, k.ringNode p.addr i = k.ringNode p.addr m →
      k.ringThread p.addr i = k.ringThread p.addr m := by
    intro i m h
    unfold Kernel.ringNode at h
    unfold Kernel.ringThread
    rw [h]
  unfold Kernel.ReachesAll
  rw [hrp.val]
  constructor
  -- a thread of the ring has an index in it, and the nodes tell the threads apart
  · intro h t ht hstate
    obtain ⟨i, hi, rfl⟩ := List.getElem_of_mem ht
    obtain ⟨j, hj, heq⟩ := h i (by rw [hr.ringThread hp hi]; exact hstate)
    rw [hr.ringNode hp hi, hr.ringNode hp (by omega)] at heq
    have hj' : j < p.threads.length := by omega
    have hsame : p.threads[j] = p.threads[i] :=
      eq_of_key_eq hrp.ring.nodup (List.getElem_mem hj') ht heq
    exact List.mem_take_iff_getElem.mpr ⟨j, by omega, hsame⟩
  · intro h i hstate
    obtain ⟨m, hm, heq⟩ := hr.exists_ringNode hp i
    rw [hnode heq, hr.ringThread hp hm] at hstate
    obtain ⟨j, hj, hjm⟩ := List.mem_take_iff_getElem.mp (h _ (List.getElem_mem hm) hstate)
    have hj' : j < p.threads.length := by omega
    refine ⟨j, by omega, ?_⟩
    rw [heq, hr.ringNode hp hj', hr.ringNode hp hm, hjm]

variable (hr : Rep k V) (hok : V.Ok) (hp : p ∈ V.table)

include hr hok hp

theorem threadIs_unblockAll (hr' : Rep k' (V.set p (p.unblockAll ty))) {τ : ThreadId}
    {s : ThreadState} : k'.ThreadIs τ s ↔
      if τ.1 = p.val.pid then (p.unblockAll ty).threadState τ.2 = some s else V.threadState τ = some s := by
  rw [hr'.threadIs_iff (hr.ok_unblockAll hok hp ty), hr.threadState_set hok.toNumbered hp]
  · split
    · exact Iff.rfl
    · exact Iff.rfl
  · exact (p.sameFrame_unblockAll ty).pid

theorem wokenAll_iff (hr' : Rep k' (V.set p (p.unblockAll ty))) (hty : isThreadBlocked ty) :
    k.WokenAll k' p.val.pid ty ↔ p.VisitsAll ty := by
  have hpok := hok.processes p hp
  have haddrs := hr.threadAddrs_nodup hp
  have hready : ty ≠ .T_READY := by
    rintro rfl
    cases hty
  -- the state of a thread of the process before and after the call
  have hbefore : ∀ i s, k.ThreadIs (p.val.pid, i) s ↔
      ∃ t ∈ p.threads, t.val.pthread = i ∧ t.val.state = s := by
    intro i s
    rw [hr.threadIs_iff hok, hok.threadState_of_mem hp]
    constructor
    · exact hpok.exists_thread
    · rintro ⟨t, ht, rfl, rfl⟩
      exact hpok.threadState_eq ht
  have hafter : ∀ t ∈ p.threads, ∀ s, k'.ThreadIs (p.val.pid, t.val.pthread) s ↔
      (if t.addr ∈ p.visited.map ThreadView.addr ∧ t.val.state = ty then .T_READY
        else t.val.state) = s := by
    intro t ht s
    rw [hr.threadIs_unblockAll hok hp hr', if_pos rfl,
      ProcessView.threadState_unblockAll_eq hpok haddrs ht, Option.some.injEq]
  constructor
  -- a thread that was not visited still waits
  · intro hwoken t ht hstate
    by_contra hmissed
    refine hwoken.none t.val.pthread ((hafter t ht ty).mpr ?_)
    rw [if_neg fun h => hmissed ((ProcessView.addr_mem_visited haddrs ht).mp h.1)]
    exact hstate
  -- all threads that waited were visited, and the others keep their states
  · intro hall
    have hvisited : ∀ t ∈ p.threads, t.val.state = ty → t.addr ∈ p.visited.map ThreadView.addr :=
      fun t ht hstate => (ProcessView.addr_mem_visited haddrs ht).mpr (hall t ht hstate)
    constructor
    case none =>
        intro i h
        have hstate := (hr.threadIs_unblockAll hok hp hr').mp h
        rw [if_pos rfl] at hstate
        obtain ⟨u, hu, hui, -⟩ := (hpok.unblockAll ty).exists_thread hstate
        rw [ProcessView.unblockAll_threads haddrs] at hu
        obtain ⟨t, ht, rfl⟩ := List.mem_map.mp hu
        have hti : t.val.pthread = i := by
          refine Eq.trans ?_ hui
          split <;> rfl
        rw [← hti, hafter t ht ty] at h
        split at h
        case isTrue _ => exact hready h.symm
        case isFalse hmissed => exact hmissed ⟨hvisited t ht h, h⟩
    case ready =>
        intro i h
        obtain ⟨t, ht, rfl, hstate⟩ := (hbefore i ty).mp h
        apply (hafter t ht _).mpr
        rw [if_pos ⟨hvisited t ht hstate, hstate⟩]
    case others =>
        rintro ⟨pid, i⟩ s hne h
        by_cases hpid : pid = p.val.pid
        · subst hpid
          obtain ⟨t, ht, rfl, rfl⟩ := (hbefore i s).mp h
          apply (hafter t ht _).mpr
          rw [if_neg fun hwoken => hne ⟨rfl, hwoken.2⟩]
        · apply (hr.threadIs_unblockAll hok hp hr').mpr
          rw [if_neg hpid]
          exact (hr.threadIs_iff hok).mp h

end Rep

/-- `unblockAllThreads` ends, and wakes all if and only if those to wake have nodes among the first
`threadSize` of the ring. -/
theorem unblock_all_wakes_iff (h : Run Sound k) {fuel : Nat} {pid : Int} {process : Addr}
    (hget : getProcessWithPid fuel k pid = .ok process) (hprocess : process ≠ NULL)
    (hty : isThreadBlocked ty) : ∃ k', Returns (unblockAllThreads · k pid ty) k' ∧
      (k.WokenAll k' pid ty ↔ k.ReachesAll process ty) := by
  obtain ⟨V, hr, hok⟩ := h.rep
  obtain ⟨p, hp, rfl, rfl⟩ := hr.process_of_getProcess hget hprocess
  obtain ⟨k', hret, hr'⟩ := hr.unblockAllThreads hok hp ty
  refine ⟨k', hret, ?_⟩
  rw [hr.wokenAll_iff hok hp hr' hty, hr.reachesAll_iff hok hp]

/-! ### A thread behind a dead one -/

/-- Process `2` has three threads. The last one that was made is killed, the first one that was made
is blocked. Its node is the third of the ring, and two threads are counted. -/
def behindDead : Except Stop (Kernel × Kernel) := do
  let k ← KernelOp.runSound 40 [.addProcess 1 4 8, .addThread 2 4 8, .addThread 2 4 8,
    .removeThread 2 2, .blockThread 2 1 .T_BLOCKED_PIPE] (← startKernel)
  let k' ← unblockAllThreads 40 k 2 .T_BLOCKED_PIPE
  return (k, k')

theorem behindDead_states : (do
    let r ← behindDead
    let (_, k') := r
    return k'.threadIs? (2, 1) .T_BLOCKED_PIPE : Except Stop Bool) = .ok true := by
  decide +kernel

/-- The blocked thread is not woken. -/
theorem thread_not_woken : ∃ k k', Run Sound k ∧
    unblockAllThreads 40 k 2 .T_BLOCKED_PIPE = .ok k' ∧ k'.ThreadIs (2, 1) .T_BLOCKED_PIPE ∧
    ¬ k.WokenAll k' 2 .T_BLOCKED_PIPE := by
  obtain ⟨r, hr, h⟩ := bind_eq_ok.mp behindDead_states
  rw [behindDead] at hr
  obtain ⟨k₀, hk₀, hr⟩ := bind_eq_ok.mp hr
  obtain ⟨k, hk, hr⟩ := bind_eq_ok.mp hr
  obtain ⟨k', hk', hr⟩ := bind_eq_ok.mp hr
  obtain rfl := Except.ok.inj hr
  have hblocked := Kernel.threadIs_of (Except.ok.inj h)
  exact ⟨k, k', Run.runSound (.start (booted_of_start hk₀)) hk, hk', hblocked,
    fun hwoken => hwoken.none 1 hblocked⟩

/-! ### Two threads that are woken -/

/-- When the first `threadSize` nodes are the ring, no thread is missed. -/
theorem Kernel.reachesAll_of_period {process : Addr} {n : Nat} (hpos : 0 < n)
    (hsize : (k.process process).threadSize = n)
    (hperiod : k.ringNode process n = k.ringNode process 0) : k.ReachesAll process ty := by
  intro i _
  have hmod : i % n < n := Nat.mod_lt i hpos
  refine ⟨i % n, by omega, ?_⟩
  have hperiodic : Function.IsPeriodicPt k.nextLib n (k.process process).threadLibrary := hperiod
  exact hperiodic.iterate_mod_apply i

/-- Both threads of process `2` wait for a pipe. -/
def twoWaiting : Except Stop (Kernel × Addr) := do
  let k ← KernelOp.runSound 40 [.addProcess 1 4 8, .addThread 2 4 8,
    .blockThread 2 1 .T_BLOCKED_PIPE, .blockThread 2 0 .T_BLOCKED_PIPE] (← startKernel)
  return (k, ← getProcessWithPid 40 k 2)

theorem twoWaiting_states : (do
    let (k, process) ← twoWaiting
    return decide (k.threadIs? (2, 0) .T_BLOCKED_PIPE ∧ k.threadIs? (2, 1) .T_BLOCKED_PIPE ∧ process ≠ NULL ∧
      (k.process process).threadSize = (2 : Nat) ∧ k.ringNode process 2 = k.ringNode process 0) :
        Except Stop Bool) = .ok true := by
  decide +kernel

theorem unblock_all_wakes_two : ∃ k process k', Run Sound k ∧ k.ThreadIs (2, 0) .T_BLOCKED_PIPE ∧
    k.ThreadIs (2, 1) .T_BLOCKED_PIPE ∧ getProcessWithPid 40 k 2 = .ok process ∧
    k.ReachesAll process .T_BLOCKED_PIPE ∧ Returns (unblockAllThreads · k 2 .T_BLOCKED_PIPE) k' ∧
    k.WokenAll k' 2 .T_BLOCKED_PIPE := by
  obtain ⟨⟨k, process⟩, hwaiting, h⟩ := bind_eq_ok.mp twoWaiting_states
  obtain ⟨hfirst, hsecond, hne, hsize, hperiod⟩ := of_decide_eq_true (Except.ok.inj h)
  obtain ⟨k₀, hk₀, hwaiting⟩ := bind_eq_ok.mp hwaiting
  obtain ⟨k₁, hk, hwaiting⟩ := bind_eq_ok.mp hwaiting
  obtain ⟨process₁, hget, hwaiting⟩ := bind_eq_ok.mp hwaiting
  obtain ⟨rfl, rfl⟩ := Prod.mk.inj (Except.ok.inj hwaiting)
  have hrun : Run Sound k₁ := Run.runSound (.start (booted_of_start hk₀)) hk
  have hreaches : k₁.ReachesAll process₁ .T_BLOCKED_PIPE :=
    Kernel.reachesAll_of_period Nat.two_pos hsize hperiod
  obtain ⟨k', hret, hiff⟩ := unblock_all_wakes_iff hrun hget hne
    (show isThreadBlocked .T_BLOCKED_PIPE = true from rfl)
  exact ⟨k₁, process₁, k', hrun, Kernel.threadIs_of hfirst, Kernel.threadIs_of hsecond, hget, hreaches, hret,
    hiff.mpr hreaches⟩

end BasicKernel
