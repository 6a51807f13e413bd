import BasicKernel.Locks.Effects
import BasicKernel.View.Script

set_option autoImplicit false

/-! # The calls that block a thread

Four calls lead to `blockThread`: the call itself, a down that finds its lock taken, and a read
from an empty pipe. `Blocks k τ` says which thread such a call blocks.

What blocking does is stated once, in `View.Blocked`, and used by all the proofs about states of
threads and processes.
-/

namespace BasicKernel

open Linked Keyed Fuel

/-- The call blocks the thread `τ`. -/
def KernelOp.Blocks (k : Kernel) (τ : ThreadId) : KernelOp → Prop
  | blockThread pid pthread _ => τ = (pid, pthread)
  | mutexDown id => k.Current τ ∧ ∃ fuel, isLocked fuel k id = .ok true
  | semaphoreDown id => k.Current τ ∧
      ∃ fuel a, findSemaphoreId fuel k id = .ok a ∧ a ≠ NULL ∧ toInt32 ((k.lock a).status - 1) < 0
  | receive name buff => k.PipeEmpty name buff ∧
      (∃ fuel, getReceiverPid fuel k name = .ok τ.1) ∧ getCurrentPthread k = .ok τ.2
  | _ => False

/-- The thread at the place `i` of the ring of the process, from its head on. -/
def Kernel.ringThread (k : Kernel) (process : Addr) (i : Nat) : ThreadNode :=
  k.thread (k.threadLibrary (k.nextLib^[i] (k.process process).threadLibrary)).thread

/-- A ready thread, other than `τ`, is among those of the process of `τ` that `threadSize`
counts. -/
def Kernel.OtherReady (k : Kernel) (τ : ThreadId) : Prop :=
  ∃ fuel process, getProcessWithPid fuel k τ.1 = .ok process ∧ process ≠ NULL ∧
    ∃ i : Nat, i < (k.process process).threadSize ∧
      (k.ringThread process i).pthread ≠ τ.2 ∧ (k.ringThread process i).state = .T_READY

variable {k k' : Kernel} {V V' : View} {p : ProcessView} {t : ThreadView} {κ : LockKind}
  {l : LockView} {id : Int}

/-! ## On the view

A block writes two states, that of the thread and, when none is ready behind it, that of the
process. It ends the turn as well. -/

theorem isProcessBlocked_getBlockProcessType {ty : ThreadState} (h : isThreadBlocked ty) :
    isProcessBlocked (getBlockProcessType ty) := by
  cases ty with
  | T_BLOCKED_IO => rfl
  | T_BLOCKED_MUTEX => rfl
  | T_BLOCKED_PIPE => rfl
  | _ => cases h

/-- What blocking the thread `t` of `p` does to the processes and to the scheduler. -/
structure View.Blocked (V : View) (p : ProcessView) (t : ThreadView) (ty : ThreadState)
    (V' : View) : Prop where
  table : V'.table = (V.block p t.addr ty).table
  current : V'.current = V.current
  ticks : V'.ticks = (V.block p t.addr ty).ticks
  queueSize : V'.queueSize = V.queueSize
  nextPid : V'.nextPid = V.nextPid

theorem View.Blocked.of_block (V : View) (p : ProcessView) (t : ThreadView) (ty : ThreadState) :
    V.Blocked p t ty (V.block p t.addr ty) := by
  constructor <;> rfl

theorem View.Waits.blocked (h : V.Waits κ l V') : ∃ p ∈ V.table, ∃ t ∈ p.threads,
    V.Current (p.val.pid, t.val.pthread) ∧ V.Blocked p t .T_BLOCKED_MUTEX V' := by
  obtain ⟨c, hc, t, ht, hccur, htcur, w, -, -, rfl⟩ := h
  refine ⟨c, hc, t, ht, ⟨c, hc, t, ht, hccur, htcur, rfl⟩, ?_⟩
  constructor <;> cases κ <;> rfl

theorem View.Waits.blocked_of_setLock {l' l'' : LockView} (h : (V.setLock κ l' l'').Waits κ l V') :
    ∃ p ∈ V.table, ∃ t ∈ p.threads, V.Current (p.val.pid, t.val.pthread) ∧
      V.Blocked p t .T_BLOCKED_MUTEX V' := by
  obtain ⟨c, hc, t, ht, hccur, htcur, w, -, -, rfl⟩ := h
  rw [View.setLock_table] at hc
  rw [View.setLock_current] at hccur
  refine ⟨c, hc, t, ht, ⟨c, hc, t, ht, hccur, htcur, rfl⟩, ?_⟩
  constructor <;> cases κ <;> rfl

namespace Rep

theorem ringThread (hr : Rep k V) (hp : p ∈ V.table) {i : Nat} (hi : i < p.threads.length) :
    k.ringThread p.addr i = p.threads[i].val := by
  have hrp := hr.processes p hp
  have hlib := hrp.ring.path.getElem i (by simpa using hi)
  rw [List.getElem_map] at hlib
  have ht := hrp.threads _ (List.getElem_mem hi)
  rw [Kernel.ringThread, hrp.val, hlib, ht.thread, ht.val]

theorem process_of_getProcess (hr : Rep k V) {fuel : Nat} {a : Addr} {pid : Int}
    (h : BasicKernel.getProcessWithPid fuel k pid = .ok a) (ha : a ≠ NULL) :
    ∃ p ∈ V.table, p.val.pid = pid ∧ p.addr = a := by
  rcases hr.getProcessWithPid pid with ⟨p, hp, hpid, hret⟩ | ⟨-, hret⟩
  · exact ⟨p, hp, hpid, (hret.eq h).symm⟩
  · exact absurd (hret.eq h) ha

/-- The process keeps its state when another of its threads is ready. -/
theorem noneReady_of_otherReady (hr : Rep k V) (hok : V.Ok) (hp : p ∈ V.table) (ht : t ∈ p.threads)
    (h : k.OtherReady (p.val.pid, t.val.pthread)) (ty : ThreadState) :
    (p.block t.addr ty).noneReady = false := by
  obtain ⟨fuel, a, hget, ha, i, hi, hne, hready⟩ := h
  obtain ⟨q, hq, hqpid, rfl⟩ := hr.process_of_getProcess hget ha
  obtain rfl := eq_of_key_eq hok.pids hq hp hqpid
  rw [(hr.processes q hq).val] at hi
  have hlen : i < q.threads.length := by
    have := (hok.processes q hq).size_le
    omega
  rw [hr.ringThread hq hlen] at hne hready
  have hmem : q.threads[i] ∈ q.threads.take q.val.threadSize.toNat :=
    List.mem_take_iff_getElem.mpr ⟨i, by omega, rfl⟩
  have haddr : q.threads[i].addr ≠ t.addr := fun heq =>
    hne (by rw [hr.thread_unique hq ht _ (List.getElem_mem hlen) heq])
  rw [ProcessView.noneReady_block, ProcessView.noneReady, List.all_eq_false]
  refine ⟨q.threads[i], ?_, by simp [hready]⟩
  show q.threads[i] ∈ ((q.setThreadState t.addr ty).threads).take q.val.threadSize.toNat
  rw [ProcessView.setThreadState, ProcessView.setThread, Keyed.update, ← List.map_take]
  exact List.mem_map.mpr ⟨_, hmem, if_neg haddr⟩

/-- No counted thread is ready after the block unless another was ready before. -/
theorem otherReady_of_noneReady (hr : Rep k V) (hok : V.Ok) (hp : p ∈ V.table) (ht : t ∈ p.threads)
    {ty : ThreadState} (hty : isThreadBlocked ty) (h : (p.block t.addr ty).noneReady = false) :
    k.OtherReady (p.val.pid, t.val.pthread) := by
  -- `allThreadsAreBlocked` found a thread that is ready after the block, and it is not `t`
  rw [ProcessView.noneReady_block, ProcessView.noneReady, List.all_eq_false] at h
  obtain ⟨u, hu, hready⟩ := h
  have hu' : u ∈ ((p.setThreadState t.addr ty).threads).take p.val.threadSize.toNat := hu
  rw [ProcessView.setThreadState, ProcessView.setThread, Keyed.update, ← List.map_take] at hu'
  obtain ⟨v, hv, rfl⟩ := List.mem_map.mp hu'
  have hvmem : v ∈ p.threads := List.mem_of_mem_take hv
  split at hready
  case isTrue _ =>
      have hstate : ty = .T_READY := by
        by_contra hne
        simp [hne] at hready
      rw [hstate] at hty
      cases hty
  case isFalse hne =>
      have hother : v.val.pthread ≠ t.val.pthread := fun heq =>
        hne (by rw [eq_of_key_eq (hok.processes p hp).pthreads hvmem ht heq])
      -- its place in the ring is among the first `threadSize`
      obtain ⟨i, hi, rfl⟩ := List.mem_take_iff_getElem.mp hv
      have hrp := hr.processes p hp
      have hlen : i < p.threads.length := by omega
      obtain ⟨fuel, hget⟩ := (hr.getProcessWithPid_of_mem hok.pids hp).exists_fuel
      refine ⟨fuel, p.addr, hget, hrp.addr_ne, i, ?_, ?_⟩
      · rw [hrp.val]
        omega
      · rw [hr.ringThread hp hlen]
        exact ⟨hother, by simpa using hready⟩

/-! ## The effects that block -/

theorem blocks_mutexDown (hr : Rep k V) (hok : V.Ok) (hl : V.lockWith .mutex id = some l)
    (hstatus : l.status = MUTEX_LOCKED) {τ : ThreadId} (hcur : V.Current τ) :
    (KernelOp.mutexDown id).Blocks k τ := by
  refine ⟨(hr.current_iff hok).mpr hcur, ?_⟩
  obtain ⟨fuel, hfind⟩ := (hr.findLock .mutex id).exists_fuel
  rw [hl] at hfind
  have hmem := mem_of_lockWith hl
  have hfind : findID fuel k id = .ok l.addr := hfind
  refine ⟨fuel, ?_⟩
  rw [isLocked, hfind, ok_bind, if_neg (hr.lock_ne_null hmem)]
  simp [((hr.locks .mutex).locks l hmem).status, hstatus]

theorem blocks_semaphoreDown (hr : Rep k V) (hok : V.Ok) (hl : V.lockWith .semaphore id = some l)
    (hstatus : l.lowered < 0) {τ : ThreadId} (hcur : V.Current τ) :
    (KernelOp.semaphoreDown id).Blocks k τ := by
  refine ⟨(hr.current_iff hok).mpr hcur, ?_⟩
  obtain ⟨fuel, hfind⟩ := (hr.findLock .semaphore id).exists_fuel
  rw [hl] at hfind
  have hmem := mem_of_lockWith hl
  refine ⟨fuel, l.addr, hfind, hr.lock_ne_null hmem, ?_⟩
  rw [((hr.locks .semaphore).locks l hmem).status]
  exact hstatus

/-- What an event does, with what `receive` has read when it blocks. -/
theorem run_inv_receive (hr : Rep k V) (hok : V.Ok) {op : KernelOp} (hs : Sound k op) {fuel : Nat}
    (h : op.run fuel k = .ok k') : ∃ V', Effect k V op V' ∧ Rep k' V' ∧ V'.Ok ∧
      ∀ name buff, op = .receive name buff → V' = V ∨ k.PipeEmpty name buff := by
  by_cases hop : ∃ name buff, op = .receive name buff
  · obtain ⟨name, buff, rfl⟩ := hop
    rcases hr.readFromPipe_inv hok h with
      hr' | ⟨hempty, pid, pthread, hpid, hpthread, p, hp, t, ht, hppid, htpthread, hr', hok'⟩
    · exact ⟨V, .idle trivial, hr', hok, fun _ _ _ => .inl rfl⟩
    · refine ⟨_, .receive hpid hpthread hp ht hppid htpthread, hr', hok', ?_⟩
      rintro _ _ ⟨⟩
      exact .inr hempty
  · obtain ⟨V', heffect, hr', hok'⟩ := hr.run_inv hok hs h
    exact ⟨V', heffect, hr', hok', fun name buff heq => absurd ⟨name, buff, heq⟩ hop⟩

end Rep

end BasicKernel
