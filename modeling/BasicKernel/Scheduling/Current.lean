import BasicKernel.View.Moves

set_option autoImplicit false

/-! # The running thread, and the events that switch

What the memory of the kernel says about the current process and its current thread, when an event
reaches the end of a quantum, and which processes it then removes.

The conditions of later results are read on a state before an event. The definitions of this file
are computed from the memory of the kernel by its own functions, and each has a lemma that finds
the same on the view.
-/

namespace BasicKernel

open Linked Keyed Fuel

/-- The process at a node of the ring. -/
def Kernel.processAt (k : Kernel) (node : Addr) : ProcessNode :=
  k.process (k.schedulerNode node).process

def Kernel.runningProcess (k : Kernel) : ProcessNode := k.processAt k.currentProcess

def Kernel.runningThread (k : Kernel) : ThreadNode :=
  k.thread (k.threadLibrary k.runningProcess.currentThread).thread

/-- A yield reaches the end of a quantum. -/
def Kernel.YieldSwitches (k : Kernel) : Prop :=
  (isProcessBlocked k.runningProcess.state ∨ k.runningProcess.state = .DEAD) ∨
    (isThreadBlocked k.runningThread.state ∨ k.runningThread.state = .T_DEAD) ∧
      ¬ k.numberOfTicks < QUANTUM

/-- The event switches processes, and removes the dead before. -/
def KernelOp.Switches (k : Kernel) : KernelOp → Prop
  | tick _ _ => ¬ k.numberOfTicks < QUANTUM
  | yield _ _ => k.YieldSwitches
  | removeDeadProcess _ => True
  | _ => False

/-- The process is dead, and `removeDeadProcess` visits its node. -/
def Kernel.Reaped (k : Kernel) (pid : Int) : Prop :=
  ∃ i : Nat, i < k.queueSize ∧ (k.processAt (k.nextNode^[i] k.processQueue)).pid = pid ∧
    (k.processAt (k.nextNode^[i] k.processQueue)).state = .DEAD

namespace Rep

variable {k : Kernel} {V V' : View} {p c : ProcessView} {t : ThreadView} {pid : Int} {op : KernelOp}

theorem processAt (hr : Rep k V) (hp : p ∈ V.table) : k.processAt p.node = p.val := by
  rw [Kernel.processAt, (hr.processes p hp).process, (hr.processes p hp).val]

theorem runningProcess (hr : Rep k V) (hc : c ∈ V.table) (hccur : c.node = V.current) :
    k.runningProcess = c.val := by
  rw [Kernel.runningProcess, hr.current, ← hccur, hr.processAt hc]

theorem runningThread (hr : Rep k V) (hc : c ∈ V.table) (hccur : c.node = V.current)
    (ht : t ∈ c.threads) (htcur : t.lib = c.val.currentThread) : k.runningThread = t.val := by
  have hrt := (hr.processes c hc).threads t ht
  rw [Kernel.runningThread, hr.runningProcess hc hccur, ← htcur, hrt.thread, hrt.val]

theorem yieldSwitches_of (hr : Rep k V) (h : V.YieldSwitches) : k.YieldSwitches := by
  obtain ⟨c, hc, t, ht, hccur, htcur, h⟩ := h
  rw [Kernel.YieldSwitches, hr.runningProcess hc hccur, hr.runningThread hc hccur ht htcur, hr.ticks]
  simpa [ProcessView.stopped, ThreadView.stopped] using h

/-- The place of a node in the ring. -/
theorem table_getElem (hr : Rep k V) {i : Nat} (hi : i < V.table.length) :
    k.nextNode^[i] k.processQueue = V.table[i].node := by
  have hnode := hr.queue.path.getElem i (by simpa using hi)
  rw [hnode, List.getElem_map]

theorem reaped_iff (hr : Rep k V) (hok : V.Ok) : k.Reaped pid ↔ V.Reaps pid := by
  have hlen : V.queueSize ≤ V.table.length := by
    have h₁ := hok.queueSize_le
    have h₂ : V.alive ≤ V.table.length := List.countP_le_length
    omega
  constructor
  · rintro ⟨i, hi, hpid, hdead⟩
    rw [hr.queueSize] at hi
    have hlt : i < V.table.length := by omega
    rw [hr.table_getElem hlt, hr.processAt (List.getElem_mem hlt)] at hpid hdead
    exact ⟨V.table[i], List.mem_take_iff_getElem.mpr ⟨i, by omega, rfl⟩, hpid, hdead⟩
  · rintro ⟨p, hp, hpid, hdead⟩
    obtain ⟨i, hi, rfl⟩ := List.mem_take_iff_getElem.mp hp
    have hlt : i < V.table.length := by omega
    refine ⟨i, by rw [hr.queueSize]; omega, ?_⟩
    rw [hr.table_getElem hlt, hr.processAt (List.getElem_mem hlt)]
    exact ⟨hpid, hdead⟩

/-- A switch removes only processes that the kernel reaps. -/
theorem switched_effect (hr : Rep k V) (hok : V.Ok) (h : Effect k V op V')
    (hop : (∃ garbage rsp, op = .tick garbage rsp) ∨ (∃ garbage rsp, op = .yield garbage rsp) ∨
      ∃ garbage, op = .removeDeadProcess garbage) :
    Switched (fun pid => op.Switches k ∧ k.Reaped pid) V V' := by
  have hreaped : ∀ pid, k.Reaped pid ↔ V.Reaps pid := fun _ => hr.reaped_iff hok
  rcases hop with ⟨garbage, rsp, rfl⟩ | ⟨garbage, rsp, rfl⟩ | ⟨garbage, rfl⟩
  · refine (hr.switched_tick hok h).of_same (fun pid hgone => ⟨?_, (hreaped pid).mpr hgone.2⟩) rfl rfl
      fun _ => rfl
    rw [KernelOp.Switches, hr.ticks]
    exact hgone.1
  · exact (hr.switched_yield hok h).of_same (fun pid hgone =>
      ⟨hr.yieldSwitches_of hgone.1, (hreaped pid).mpr hgone.2⟩) rfl rfl fun _ => rfl
  · cases h with
    | idle hidle => exact hidle.elim
    | removeDeadProcess =>
        exact (Switched.reap hok.toNumbered hr.queue.nodup).of_same (fun pid hgone =>
          ⟨trivial, (hreaped pid).mpr hgone⟩) rfl rfl fun _ => rfl

end Rep

end BasicKernel
