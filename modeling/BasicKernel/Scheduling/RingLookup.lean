import BasicKernel.View.Lookup
import BasicKernel.View.Script

set_option autoImplicit false

/-! # The lookups in the rings

Both searches start behind the first node of the ring and stop in front of it, so that the test after
the loop decides about the first node. On a ring of any size they find the node that is meant.

`ring_lookup_exact` is about the functions and any memory with such rings. It needs no run of the
kernel.
-/

namespace BasicKernel

open Linked Fuel

variable {k : Kernel} {ns ls : List Addr} {process : Addr}

/-- The nodes `ns` are a ring of processes with distinct pids. -/
structure Kernel.IsProcessRing (k : Kernel) (ns : List Addr) : Prop where
  ring : Ring k.nextNode k.processQueue ns
  nodes_ne : ∀ n ∈ ns, n ≠ NULL ∧ (k.schedulerNode n).process ≠ NULL
  pids : (ns.map fun n => (k.process (k.schedulerNode n).process).pid).Nodup

/-- The nodes `ls` are the ring of threads of a process, with distinct numbers. -/
structure Kernel.IsThreadRing (k : Kernel) (process : Addr) (ls : List Addr) : Prop where
  process_ne : process ≠ NULL
  ring : Ring k.nextLib (k.process process).threadLibrary ls
  nodes_ne : ∀ l ∈ ls, l ≠ NULL ∧ (k.threadLibrary l).thread ≠ NULL
  pthreads : (ls.map fun l => (k.thread (k.threadLibrary l).thread).pthread).Nodup

theorem Kernel.IsProcessRing.getProcessWithPid (h : k.IsProcessRing ns) (pid : Int) :
    (∀ n ∈ ns, (k.process (k.schedulerNode n).process).pid = pid →
        Returns (getProcessWithPid · k pid) (k.schedulerNode n).process) ∧
      ((∀ n ∈ ns, (k.process (k.schedulerNode n).process).pid ≠ pid) →
        Returns (BasicKernel.getProcessWithPid · k pid) NULL) := by
  rcases getProcessWithPid_ring h.ring h.nodes_ne pid with ⟨m, hm, hpid, hreturns⟩ | ⟨hno, hreturns⟩
  · refine ⟨fun n hn hpid' => ?_, fun hno => absurd hpid (hno m hm)⟩
    -- no two processes have the same pid, so the search found this one
    rwa [Keyed.eq_of_key_eq h.pids hm hn (hpid.trans hpid'.symm)] at hreturns
  · exact ⟨fun n hn hpid => absurd hpid (hno n hn), fun _ => hreturns⟩

theorem Kernel.IsThreadRing.getThreadWithPthread (h : k.IsThreadRing process ls) (pthread : Int) :
    (∀ l ∈ ls, (k.thread (k.threadLibrary l).thread).pthread = pthread →
        Returns (getThreadWithPthread · k pthread process) (k.threadLibrary l).thread) ∧
      ((∀ l ∈ ls, (k.thread (k.threadLibrary l).thread).pthread ≠ pthread) →
        Returns (BasicKernel.getThreadWithPthread · k pthread process) NULL) := by
  rcases getThreadWithPthread_ring h.ring h.nodes_ne h.process_ne pthread with
    ⟨m, hm, hpt, hreturns⟩ | ⟨hno, hreturns⟩
  · refine ⟨fun l hl hpt' => ?_, fun hno => absurd hpt (hno m hm)⟩
    rwa [Keyed.eq_of_key_eq h.pthreads hm hl (hpt.trans hpt'.symm)] at hreturns
  · exact ⟨fun l hl hpt => absurd hpt (hno l hl), fun _ => hreturns⟩

/-- The two searches return what is in the ring with the number they are given, and the null pointer
when nothing is. -/
theorem ring_lookup_exact :
    (∀ (k : Kernel) (ns : List Addr), k.IsProcessRing ns → ∀ pid : Int,
      (∀ n ∈ ns, (k.process (k.schedulerNode n).process).pid = pid →
        Returns (getProcessWithPid · k pid) (k.schedulerNode n).process) ∧
      ((∀ n ∈ ns, (k.process (k.schedulerNode n).process).pid ≠ pid) →
        Returns (getProcessWithPid · k pid) NULL)) ∧
    ∀ (k : Kernel) (process : Addr) (ls : List Addr), k.IsThreadRing process ls → ∀ pthread : Int,
      (∀ l ∈ ls, (k.thread (k.threadLibrary l).thread).pthread = pthread →
        Returns (getThreadWithPthread · k pthread process) (k.threadLibrary l).thread) ∧
      ((∀ l ∈ ls, (k.thread (k.threadLibrary l).thread).pthread ≠ pthread) →
        Returns (getThreadWithPthread · k pthread process) NULL) :=
  ⟨fun _ _ h => h.getProcessWithPid, fun _ _ _ h => h.getThreadWithPthread⟩

/-- Three processes, of which the second one has three threads. -/
def Kernel.threeInRings : Kernel :=
  { zeroKernel with
    processQueue := 1
    queueSize := 3
    schedulerNode := fun n => ⟨10 + n, if n = 3 then 1 else n + 1⟩
    process := fun a => ⟨0, (a : Nat) - (11 : Int), .READY, 0, 21, 21, 3, 0, 0, 0⟩
    threadLibrary := fun l => ⟨10 + l, if l = 23 then 21 else l + 1⟩
    thread := fun t => ⟨0, 0, 0, (t : Nat) - (31 : Int), .T_READY⟩ }

theorem Kernel.threeInRings_processes : Kernel.threeInRings.IsProcessRing [1, 2, 3] where
  ring := ⟨⟨rfl, rfl, rfl, rfl⟩, by decide, by decide⟩
  nodes_ne := by decide
  pids := by decide

theorem Kernel.threeInRings_threads : Kernel.threeInRings.IsThreadRing 12 [21, 22, 23] where
  process_ne := by decide
  ring := ⟨⟨rfl, rfl, rfl, rfl⟩, by decide, by decide⟩
  nodes_ne := by decide
  pthreads := by decide

/-- The first node, the last node and no node. -/
theorem ring_lookup_exact_three :
    Returns (getProcessWithPid · Kernel.threeInRings 0) 11 ∧
    Returns (getProcessWithPid · Kernel.threeInRings 2) 13 ∧
    Returns (getProcessWithPid · Kernel.threeInRings 7) NULL ∧
    Returns (getThreadWithPthread · Kernel.threeInRings 0 12) 31 ∧
    Returns (getThreadWithPthread · Kernel.threeInRings 7 12) NULL :=
  ⟨(ring_lookup_exact.1 _ _ Kernel.threeInRings_processes 0).1 1 (by decide) rfl,
    (ring_lookup_exact.1 _ _ Kernel.threeInRings_processes 2).1 3 (by decide) rfl,
    (ring_lookup_exact.1 _ _ Kernel.threeInRings_processes 7).2 (by decide),
    (ring_lookup_exact.2 _ _ _ Kernel.threeInRings_threads 0).1 21 (by decide) rfl,
    (ring_lookup_exact.2 _ _ _ Kernel.threeInRings_threads 7).2 (by decide)⟩

end BasicKernel
