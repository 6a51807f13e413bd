import BasicKernel.Lib.RoundRobin
import BasicKernel.Scheduling.Current
import BasicKernel.View.Script

set_option autoImplicit false

/-! # The two rings of the scheduler in turn

`runScheduler` at the end of a quantum, and `nextThread`, are steps of a round robin.

`round_robin` puts both together: as many switches as there are candidates select each of them
once, in the order of the ring. Blocked nodes may stand anywhere between them, and are passed.
-/

namespace BasicKernel

open Linked Fuel RoundRobin

variable {k : Kernel} {a : Addr} {as M : List Addr}

/-! ## Processes

The ring is rotated such that the current process comes last. A switch selects the first runnable
process of this list and rotates the ring up to it. -/

/-- The process is ready, or it is the current one and running. -/
def Kernel.runnable (k : Kernel) (node : Addr) : Bool :=
  (k.processAt node).state = .READY ∨ node = k.currentProcess ∧ (k.processAt node).state = .RUNNING

/-- A ring of processes, none of them dead. -/
structure ProcessRing (k : Kernel) (nodes : List Addr) : Prop where
  ring : Ring k.nextNode k.processQueue nodes
  current : k.currentProcess ∈ nodes
  node_ne : ∀ n ∈ nodes, n ≠ NULL
  process_ne : ∀ n ∈ nodes, (k.schedulerNode n).process ≠ NULL
  distinct : ∀ n ∈ nodes, ∀ n' ∈ nodes,
    (k.schedulerNode n).process = (k.schedulerNode n').process → n = n'
  alive : ∀ n ∈ nodes, (k.processAt n).state ≠ .DEAD

/-- The nodes from the one behind the current process on, which comes last itself. -/
def Kernel.nodesBehind (k : Kernel) (n : Nat) : List Addr :=
  List.iterate k.nextNode (k.nextNode k.currentProcess) n

/-- `runScheduler` called at the end of a quantum. -/
def quantumEnd (garbage : Kernel → Garbage) (fuel : Nat) (k : Kernel) : Except Stop Kernel :=
  runScheduler fuel (garbage k) { k with numberOfTicks := QUANTUM }

/-- The same ring, seen from the current process. -/
structure ProcessTurn (k : Kernel) (M : List Addr) : Prop where
  behind : Behind k.nextNode k.currentProcess M
  queue : k.processQueue ∈ M ++ [k.currentProcess]
  node_ne : ∀ n ∈ M ++ [k.currentProcess], n ≠ NULL
  process_ne : ∀ n ∈ M ++ [k.currentProcess], (k.schedulerNode n).process ≠ NULL
  distinct : ∀ n ∈ M ++ [k.currentProcess], ∀ n' ∈ M ++ [k.currentProcess],
    (k.schedulerNode n).process = (k.schedulerNode n').process → n = n'
  alive : ∀ n ∈ M ++ [k.currentProcess], (k.processAt n).state ≠ .DEAD

theorem ProcessRing.turn {nodes : List Addr} (h : ProcessRing k nodes) : ∃ M,
    ProcessTurn k M ∧ (M ++ [k.currentProcess]).Perm nodes := by
  obtain ⟨A, B, hAB⟩ := List.append_of_mem h.current
  have hperm := behind_perm A B k.currentProcess
  rw [← hAB] at hperm
  have hmem := fun n => hperm.mem_iff (a := n)
  refine ⟨B ++ A, ⟨.of_ring (hAB ▸ h.ring), ?_, ?_, ?_, ?_, ?_⟩, hperm⟩
  · exact (hmem _).mpr h.ring.head_mem
  · exact fun n hn => h.node_ne n ((hmem n).mp hn)
  · exact fun n hn => h.process_ne n ((hmem n).mp hn)
  · exact fun n hn n' hn' => h.distinct n ((hmem n).mp hn) n' ((hmem n').mp hn')
  · exact fun n hn => h.alive n ((hmem n).mp hn)

/-- The process is no longer running. -/
def ProcessNode.paused (p : ProcessNode) : ProcessNode :=
  if p.state = .RUNNING then { p with state := .READY } else p

/-- The state when the process at the node `a` was chosen. -/
def Kernel.switchedTo (k : Kernel) (a : Addr) : Kernel :=
  let c := (k.schedulerNode k.currentProcess).process
  let p := (k.schedulerNode a).process
  let paused := Function.update k.process c (k.process c).paused
  { k with
    numberOfTicks := 0
    currentProcess := a
    process := Function.update paused p { paused p with state := .RUNNING } }

namespace ProcessTurn

variable {node : Addr}

/-- Nobody is removed. -/
theorem removeDead (h : ProcessTurn k M) (fuel : Nat) (garbage : Garbage) (n : Nat) {node : Addr}
    (hnode : node ∈ M ++ [k.currentProcess]) (prev : Addr) :
    BasicKernel.removeDead fuel garbage n k node prev = .ok k := by
  induction n generalizing node prev with
  | zero => rfl
  | succ n ih =>
      have hnext : (k.schedulerNode node).next ∈ M ++ [k.currentProcess] := h.behind.next_mem hnode
      have halive : ¬ (k.process (k.schedulerNode node).process).state = .DEAD := h.alive node hnode
      simp only [BasicKernel.removeDead, load_of_ne (h.node_ne node hnode),
        load_of_ne (h.process_ne node hnode), ok_bind, if_neg halive]
      exact ih hnext node

theorem mem_current (_ : ProcessTurn k M) : k.currentProcess ∈ M ++ [k.currentProcess] := by
  simp

theorem paused_of_ne (h : ProcessTurn k M) (hnode : node ∈ M ++ [k.currentProcess])
    (hne : node ≠ k.currentProcess) (v : ProcessNode) :
    Function.update k.process (k.schedulerNode k.currentProcess).process v
      (k.schedulerNode node).process = k.processAt node :=
  Function.update_of_ne (fun heq => hne (h.distinct node hnode _ h.mem_current heq)) _ _

/-- After the current process is paused, exactly the runnable ones are ready. -/
theorem ready_iff (h : ProcessTurn k M) (hnode : node ∈ M ++ [k.currentProcess]) :
    decide ((Function.update k.process (k.schedulerNode k.currentProcess).process
      (k.processAt k.currentProcess).paused (k.schedulerNode node).process).state = .READY)
      = k.runnable node := by
  by_cases hc : node = k.currentProcess
  · subst hc
    rw [Function.update_self, ProcessNode.paused, Kernel.runnable]
    split
    case isTrue hrun => simp [hrun]
    case isFalse hrun => simp [hrun]
  · rw [h.paused_of_ne hnode hc, Kernel.runnable]
    simp [hc]

theorem runScheduler (h : ProcessTurn k M) (garbage : Kernel → Garbage)
    (ha : (M ++ [k.currentProcess]).find? k.runnable = some a) :
    Returns (quantumEnd garbage · k) (k.switchedTo a) := by
  let k₁ : Kernel := { k with
    numberOfTicks := 0
    process := Function.update k.process (k.schedulerNode k.currentProcess).process
      (k.processAt k.currentProcess).paused }
  have hcnode := h.node_ne _ h.mem_current
  have hcprocess := h.process_ne _ h.mem_current
  have hmem : a ∈ M ++ [k.currentProcess] := List.mem_of_find?_eq_some ha
  -- the loop reads the states that the pause left
  have hseek : ∃ last ∈ M ++ [k.currentProcess], k.nextNode last = a ∧
      Returns (fun fuel => walkWhile .outOfFuel
        (fun node => do
          let next := (← load k₁.schedulerNode node).next
          let process := (← load k₁.schedulerNode next).process
          return decide ((← load k₁.process process).state ≠ .READY))
        (fun node => do return (← load k₁.schedulerNode node).next)
        fuel k.currentProcess) last := by
    refine h.behind.seek ha (fun node hnode => ?_) fun node hnode => ?_
    · have hbehind : (k.schedulerNode node).next ∈ M ++ [k.currentProcess] :=
        h.behind.next_mem hnode
      simp only [k₁, load_of_ne (h.node_ne node hnode), load_of_ne (h.node_ne _ hbehind),
        load_of_ne (h.process_ne _ hbehind), ok_bind, pure_eq_ok]
      rw [Kernel.nextNode, ← h.ready_iff hbehind]
      simp
    · simp only [k₁, load_of_ne (h.node_ne node hnode), ok_bind, pure_eq_ok, Kernel.nextNode]
  obtain ⟨last, hlast, hnext, hwalk⟩ := hseek
  have hresume : Returns (resumeNextProcess · k₁) (k.switchedTo a) := by
    refine hwalk.bind ?_
    have hnext : (k.schedulerNode last).next = a := hnext
    simp only [k₁, load_of_ne (h.node_ne last hlast), ok_bind, hnext, Kernel.currentProcessNode,
      load_of_ne (h.node_ne a hmem), pure_eq_ok,
      Kernel.modifyProcess_of_ne (h.process_ne a hmem)]
    exact Returns.const _ _
  -- nothing is removed, since every process of the ring lives; then the current one is paused
  have hpause : ∀ fuel, quantumEnd garbage fuel k = resumeNextProcess fuel k₁ := by
    intro fuel
    have hremove : BasicKernel.removeDead fuel (garbage k) k.queueSize.toNat
        { k with numberOfTicks := QUANTUM } k.processQueue (garbage k).removeDeadProcess
        = .ok { k with numberOfTicks := QUANTUM } :=
      removeDead (k := { k with numberOfTicks := QUANTUM })
        ⟨h.behind, h.queue, h.node_ne, h.process_ne, h.distinct, h.alive⟩ fuel (garbage k) _ h.queue _
    have hticks : ¬ QUANTUM < QUANTUM := lt_irrefl _
    simp only [quantumEnd, BasicKernel.runScheduler, if_neg hcnode, if_neg hticks, switchProcess,
      removeDeadProcess, hremove, ok_bind, Kernel.currentProcessNode, load_of_ne hcnode,
      pure_eq_ok, load_of_ne hcprocess]
    by_cases hrun : (k.process (k.schedulerNode k.currentProcess).process).state = .RUNNING
    · simp only [hrun, if_true, Kernel.modifyProcess_of_ne hcprocess, ok_bind, k₁, Kernel.processAt,
        ProcessNode.paused]
    · simp only [hrun, if_false, k₁, Kernel.processAt, ProcessNode.paused, Function.update_eq_self]
  simp only [hpause]
  exact hresume

theorem switchedTo_state (h : ProcessTurn k M) (hnode : node ∈ M ++ [k.currentProcess])
    (hmem : a ∈ M ++ [k.currentProcess]) : ((k.switchedTo a).processAt node).state
      = if node = a then .RUNNING else (Function.update k.process
          (k.schedulerNode k.currentProcess).process (k.processAt k.currentProcess).paused
          (k.schedulerNode node).process).state := by
  by_cases hna : node = a
  · subst hna
    simp [Kernel.processAt, Kernel.switchedTo]
  · have hne : (k.schedulerNode node).process ≠ (k.schedulerNode a).process := fun heq =>
      hna (h.distinct node hnode a hmem heq)
    rw [if_neg hna]
    simp only [Kernel.processAt, Kernel.switchedTo, Function.update_of_ne hne]

theorem switchedTo_runnable (h : ProcessTurn k M) (hnode : node ∈ M ++ [k.currentProcess])
    (hmem : a ∈ M ++ [k.currentProcess]) (ha : k.runnable a) :
    (k.switchedTo a).runnable node = k.runnable node := by
  rw [Kernel.runnable, h.switchedTo_state hnode hmem]
  have hcurrent : (k.switchedTo a).currentProcess = a := rfl
  by_cases hna : node = a
  · subst hna
    simp [hcurrent, ha]
  · rw [if_neg hna, hcurrent, ← h.ready_iff hnode]
    simp [hna]

/-- After a switch the chosen process comes last. -/
theorem switchedTo (h : ProcessTurn k M) (hturn : turn k.runnable k.currentProcess M = a :: as) :
    ∃ M', ProcessTurn (k.switchedTo a) M' ∧ turn (k.switchedTo a).runnable a M' = as ++ [a] := by
  obtain ⟨hfind, M', hbehind, hturn', hmem'⟩ := h.behind.advance hturn
  have hmem : a ∈ M ++ [k.currentProcess] := List.mem_of_find?_eq_some hfind
  have hrun : k.runnable a := List.find?_some hfind
  refine ⟨M', ⟨hbehind, (hmem' _).mpr h.queue, ?_, ?_, ?_, ?_⟩, ?_⟩
  · exact fun n hn => h.node_ne n ((hmem' n).mp hn)
  · exact fun n hn => h.process_ne n ((hmem' n).mp hn)
  · exact fun n hn n' hn' => h.distinct n ((hmem' n).mp hn) n' ((hmem' n').mp hn')
  · intro n hn
    have hn := (hmem' n).mp hn
    rw [h.switchedTo_state hn hmem]
    by_cases hna : n = a
    · simp [hna]
    · rw [if_neg hna]
      by_cases hc : n = k.currentProcess
      · subst hc
        rw [Function.update_self, ProcessNode.paused]
        split
        case isTrue => simp
        case isFalse => exact h.alive _ hn
      · rw [h.paused_of_ne hn hc]
        exact h.alive n hn
  · rw [← hturn']
    exact turn_congr fun n hn => h.switchedTo_runnable ((hmem' n).mp hn) hmem hrun

/-- As many switches as there are runnable processes select them in the order of the ring. -/
theorem selections (h : ProcessTurn k M) (garbage : Kernel → Garbage) :
    ∃ k', Returns (RoundRobin.selections (quantumEnd garbage) Kernel.currentProcess ·
      (turn k.runnable k.currentProcess M).length k) (turn k.runnable k.currentProcess M, k') := by
  generalize hselected : turn k.runnable k.currentProcess M = selected
  have hret : ∃ k', Returns (RoundRobin.selections (quantumEnd garbage) Kernel.currentProcess ·
      selected.length k) (selected.take selected.length, k') := by
    refine selections_take
      (fun k as => ∃ M, ProcessTurn k M ∧ turn k.runnable k.currentProcess M = as) ?_
      ⟨M, h, hselected⟩ le_rfl
    rintro k a as ⟨M, h, hturn⟩
    exact ⟨_, h.runScheduler garbage (h.behind.advance hturn).1, rfl, h.switchedTo hturn⟩
  rwa [List.take_length] at hret

end ProcessTurn

/-! ## Threads

The same for the ring of threads of the current process. -/

/-- `currentProcess->process` -/
def Kernel.currentProc (k : Kernel) : Addr := (k.schedulerNode k.currentProcess).process

/-- `currentProcess->process->currentThread` -/
def Kernel.currentLib (k : Kernel) : Addr := (k.process k.currentProc).currentThread

/-- The thread is ready, or it is the current one and running. -/
def Kernel.threadRunnable (k : Kernel) (lib : Addr) : Bool :=
  (k.threadAt lib).state = .T_READY ∨ lib = k.currentLib ∧ (k.threadAt lib).state = .T_RUNNING

/-- The threads of the current process form a ring, none of them dead. -/
structure ThreadRing (k : Kernel) (libs : List Addr) : Prop where
  node_ne : k.currentProcess ≠ NULL
  process_ne : k.currentProc ≠ NULL
  ring : Ring k.nextLib (k.process k.currentProc).threadLibrary libs
  current : k.currentLib ∈ libs
  lib_ne : ∀ l ∈ libs, l ≠ NULL
  thread_ne : ∀ l ∈ libs, (k.threadLibrary l).thread ≠ NULL
  distinct : ∀ l ∈ libs, ∀ l' ∈ libs,
    (k.threadLibrary l).thread = (k.threadLibrary l').thread → l = l'
  alive : ∀ l ∈ libs, (k.threadAt l).state ≠ .T_DEAD

/-- The nodes from the one behind the current thread on, which comes last itself. -/
def Kernel.libsBehind (k : Kernel) (n : Nat) : List Addr :=
  List.iterate k.nextLib (k.nextLib k.currentLib) n

/-- The same ring, seen from the current thread. -/
structure ThreadTurn (k : Kernel) (M : List Addr) : Prop where
  node_ne : k.currentProcess ≠ NULL
  process_ne : k.currentProc ≠ NULL
  behind : Behind k.nextLib k.currentLib M
  head : (k.process k.currentProc).threadLibrary ∈ M ++ [k.currentLib]
  lib_ne : ∀ l ∈ M ++ [k.currentLib], l ≠ NULL
  thread_ne : ∀ l ∈ M ++ [k.currentLib], (k.threadLibrary l).thread ≠ NULL
  distinct : ∀ l ∈ M ++ [k.currentLib], ∀ l' ∈ M ++ [k.currentLib],
    (k.threadLibrary l).thread = (k.threadLibrary l').thread → l = l'
  alive : ∀ l ∈ M ++ [k.currentLib], (k.threadAt l).state ≠ .T_DEAD

theorem ThreadRing.turn {libs : List Addr} (h : ThreadRing k libs) : ∃ M,
    ThreadTurn k M ∧ (M ++ [k.currentLib]).Perm libs := by
  obtain ⟨A, B, hAB⟩ := List.append_of_mem h.current
  have hperm := behind_perm A B k.currentLib
  rw [← hAB] at hperm
  have hmem := fun l => hperm.mem_iff (a := l)
  refine ⟨B ++ A, ⟨h.node_ne, h.process_ne, .of_ring (hAB ▸ h.ring), ?_, ?_, ?_, ?_, ?_⟩, hperm⟩
  · exact (hmem _).mpr h.ring.head_mem
  · exact fun l hl => h.lib_ne l ((hmem l).mp hl)
  · exact fun l hl => h.thread_ne l ((hmem l).mp hl)
  · exact fun l hl l' hl' => h.distinct l ((hmem l).mp hl) l' ((hmem l').mp hl')
  · exact fun l hl => h.alive l ((hmem l).mp hl)

/-- The thread is no longer running. -/
def ThreadNode.paused (t : ThreadNode) : ThreadNode :=
  if t.state = .T_RUNNING then { t with state := .T_READY } else t

/-- The state when the thread at the node `a` was chosen. -/
def Kernel.resumed (k : Kernel) (a : Addr) : Kernel :=
  let c := (k.threadLibrary k.currentLib).thread
  let t := (k.threadLibrary a).thread
  let paused := Function.update k.thread c (k.thread c).paused
  { k with
    process := Function.update k.process k.currentProc
      { k.process k.currentProc with currentThread := a }
    thread := Function.update paused t { paused t with state := .T_RUNNING } }

@[simp] theorem Kernel.resumed_currentLib (k : Kernel) (a : Addr) : (k.resumed a).currentLib = a := by
  simp [currentLib, resumed, currentProc]

namespace ThreadTurn

variable {lib : Addr}

theorem removeDeadLoop (h : ThreadTurn k M) (n : Nat) (prev : Addr) :
    BasicKernel.removeDeadLoop n k (k.process k.currentProc).threadLibrary prev = .ok k := by
  have halive : ¬ (k.thread (k.threadLibrary (k.process k.currentProc).threadLibrary).thread).state
      = .T_DEAD := h.alive _ h.head
  induction n with
  | zero => rfl
  | succ n ih =>
      simp only [BasicKernel.removeDeadLoop, load_of_ne (h.lib_ne _ h.head),
        load_of_ne (h.thread_ne _ h.head), ok_bind, if_neg halive]
      exact ih

theorem mem_current (_ : ThreadTurn k M) : k.currentLib ∈ M ++ [k.currentLib] := by
  simp

theorem paused_of_ne (h : ThreadTurn k M) (hlib : lib ∈ M ++ [k.currentLib])
    (hne : lib ≠ k.currentLib) (v : ThreadNode) :
    Function.update k.thread (k.threadLibrary k.currentLib).thread v (k.threadLibrary lib).thread
      = k.threadAt lib :=
  Function.update_of_ne (fun heq => hne (h.distinct lib hlib _ h.mem_current heq)) _ _

/-- After the current thread is paused, exactly the runnable ones are ready. -/
theorem ready_iff (h : ThreadTurn k M) (hlib : lib ∈ M ++ [k.currentLib]) :
    decide ((Function.update k.thread (k.threadLibrary k.currentLib).thread
      (k.threadAt k.currentLib).paused (k.threadLibrary lib).thread).state = .T_READY)
      = k.threadRunnable lib := by
  by_cases hc : lib = k.currentLib
  · subst hc
    rw [Function.update_self, ThreadNode.paused, Kernel.threadRunnable]
    split
    case isTrue hrun => simp [hrun]
    case isFalse hrun => simp [hrun]
  · rw [h.paused_of_ne hlib hc, Kernel.threadRunnable]
    simp [hc]

theorem nextThread (h : ThreadTurn k M) (garbage : Kernel → Garbage)
    (ha : (M ++ [k.currentLib]).find? k.threadRunnable = some a) :
    Returns (fun fuel => BasicKernel.nextThread fuel (garbage k) k) (k.resumed a) := by
  let k₁ : Kernel := { k with
    thread := Function.update k.thread (k.threadLibrary k.currentLib).thread
      (k.threadAt k.currentLib).paused }
  have hclib : (k.process k.currentProc).currentThread ≠ NULL := h.lib_ne _ h.mem_current
  have hcthread : (k.threadLibrary (k.process k.currentProc).currentThread).thread ≠ NULL :=
    h.thread_ne _ h.mem_current
  -- the loop reads the states that the pause left
  have hmem : a ∈ M ++ [k.currentLib] := List.mem_of_find?_eq_some ha
  have hseek : ∃ last ∈ M ++ [k.currentLib], k.nextLib last = a ∧
      Returns (fun fuel => walkWhile .outOfFuel
        (fun lib => do
          let next := (← load k₁.threadLibrary lib).next
          let thread := (← load k₁.threadLibrary next).thread
          return decide ((← load k₁.thread thread).state ≠ .T_READY))
        (fun lib => do return (← load k₁.threadLibrary lib).next)
        fuel k.currentLib) last := by
    refine h.behind.seek ha (fun lib hlib => ?_) fun lib hlib => ?_
    · have hbehind : (k.threadLibrary lib).next ∈ M ++ [k.currentLib] := h.behind.next_mem hlib
      simp only [k₁, load_of_ne (h.lib_ne lib hlib), load_of_ne (h.lib_ne _ hbehind),
        load_of_ne (h.thread_ne _ hbehind), ok_bind, pure_eq_ok]
      rw [Kernel.nextLib, ← h.ready_iff hbehind]
      simp
    · simp only [k₁, load_of_ne (h.lib_ne lib hlib), ok_bind, pure_eq_ok, Kernel.nextLib]
  obtain ⟨last, hlast, hnext, hwalk⟩ := hseek
  have hresume : Returns (resumeNextThread · k₁ k.currentProc) (k.resumed a) := by
    have hnext : (k.threadLibrary last).next = a := hnext
    simp only [resumeNextThread, load_of_ne h.process_ne, ok_bind]
    refine hwalk.bind ?_
    simp only [k₁, load_of_ne (h.lib_ne last hlast), ok_bind, hnext, Kernel.currentThreadNode,
      Kernel.modifyProcess_of_ne h.process_ne, load_of_ne h.process_ne, Function.update_self,
      load_of_ne (h.lib_ne a hmem), pure_eq_ok, Kernel.modifyThread_of_ne (h.thread_ne a hmem)]
    -- no dead thread is in the ring, so the removal does nothing
    exact Returns.const _ _
  have hpause : ∀ fuel, BasicKernel.nextThread fuel (garbage k) k
      = resumeNextThread fuel k₁ k.currentProc := by
    intro fuel
    have hnode : k.currentProcessNode = .ok k.currentProc := by
      rw [Kernel.currentProcessNode, load_of_ne h.node_ne]
      rfl
    simp only [BasicKernel.nextThread, hnode, ok_bind, removeDeadThreads, load_of_ne h.process_ne,
      h.removeDeadLoop, Kernel.currentThreadNode, load_of_ne hclib, pure_eq_ok, load_of_ne hcthread]
    by_cases hrun : (k.thread (k.threadLibrary (k.process k.currentProc).currentThread).thread).state
        = .T_RUNNING
    · simp only [hrun, if_true, Kernel.modifyThread_of_ne hcthread, ok_bind, k₁, Kernel.threadAt,
        Kernel.currentLib, ThreadNode.paused]
    · simp only [hrun, if_false, k₁, Kernel.threadAt, Kernel.currentLib, ThreadNode.paused,
        Function.update_eq_self]
  simp only [hpause]
  exact hresume

theorem resumed_state (h : ThreadTurn k M) (hlib : lib ∈ M ++ [k.currentLib])
    (hmem : a ∈ M ++ [k.currentLib]) : ((k.resumed a).threadAt lib).state
      = if lib = a then .T_RUNNING else (Function.update k.thread
          (k.threadLibrary k.currentLib).thread (k.threadAt k.currentLib).paused
          (k.threadLibrary lib).thread).state := by
  by_cases hla : lib = a
  · subst hla
    simp [Kernel.threadAt, Kernel.resumed]
  · have hne : (k.threadLibrary lib).thread ≠ (k.threadLibrary a).thread := fun heq =>
      hla (h.distinct lib hlib a hmem heq)
    rw [if_neg hla]
    simp only [Kernel.threadAt, Kernel.resumed, Function.update_of_ne hne]

theorem resumed_runnable (h : ThreadTurn k M) (hlib : lib ∈ M ++ [k.currentLib])
    (hmem : a ∈ M ++ [k.currentLib]) (ha : k.threadRunnable a) :
    (k.resumed a).threadRunnable lib = k.threadRunnable lib := by
  rw [Kernel.threadRunnable, h.resumed_state hlib hmem, Kernel.resumed_currentLib]
  by_cases hla : lib = a
  · subst hla
    simp [ha]
  · rw [if_neg hla, ← h.ready_iff hlib]
    simp [hla]

/-- After a switch the chosen thread comes last. -/
theorem resumed (h : ThreadTurn k M) (hturn : turn k.threadRunnable k.currentLib M = a :: as) :
    ∃ M', ThreadTurn (k.resumed a) M' ∧
      turn (k.resumed a).threadRunnable (k.resumed a).currentLib M' = as ++ [a] := by
  obtain ⟨hfind, M', hbehind, hturn', hmem'⟩ := h.behind.advance hturn
  have hmem' : ∀ l, l ∈ M' ++ [(k.resumed a).currentLib] ↔ l ∈ M ++ [k.currentLib] := by
    rw [Kernel.resumed_currentLib]
    exact hmem'
  have hmem : a ∈ M ++ [k.currentLib] := List.mem_of_find?_eq_some hfind
  have hrun : k.threadRunnable a := List.find?_some hfind
  have hhead : ((k.resumed a).process (k.resumed a).currentProc).threadLibrary
      = (k.process k.currentProc).threadLibrary := by
    simp [Kernel.resumed, Kernel.currentProc]
  refine ⟨M', ⟨h.node_ne, h.process_ne, ?_, ?_, ?_, ?_, ?_, ?_⟩, ?_⟩
  · rw [Kernel.resumed_currentLib]
    exact hbehind
  · rw [hhead]
    exact (hmem' _).mpr h.head
  · exact fun l hl => h.lib_ne l ((hmem' l).mp hl)
  · exact fun l hl => h.thread_ne l ((hmem' l).mp hl)
  · exact fun l hl l' hl' => h.distinct l ((hmem' l).mp hl) l' ((hmem' l').mp hl')
  · intro l hl
    have hl := (hmem' l).mp hl
    rw [h.resumed_state hl hmem]
    by_cases hla : l = a
    · simp [hla]
    -- the paused thread was running, and is ready now
    · rw [if_neg hla]
      by_cases hc : l = k.currentLib
      · subst hc
        rw [Function.update_self, ThreadNode.paused]
        split
        case isTrue => simp
        case isFalse => exact h.alive _ hl
      · rw [h.paused_of_ne hl hc]
        exact h.alive l hl
  · rw [Kernel.resumed_currentLib, ← hturn']
    refine turn_congr fun l hl => h.resumed_runnable ((hmem' l).mp ?_) hmem hrun
    rwa [Kernel.resumed_currentLib]

/-- As many switches as there are runnable threads select them in the order of the ring. -/
theorem selections (h : ThreadTurn k M) (garbage : Kernel → Garbage) :
    ∃ k', Returns (RoundRobin.selections (fun fuel k => BasicKernel.nextThread fuel (garbage k) k)
      Kernel.currentLib · (turn k.threadRunnable k.currentLib M).length k)
      (turn k.threadRunnable k.currentLib M, k') := by
  generalize hselected : turn k.threadRunnable k.currentLib M = selected
  have hret : ∃ k', Returns (RoundRobin.selections
      (fun fuel k => BasicKernel.nextThread fuel (garbage k) k) Kernel.currentLib ·
      selected.length k) (selected.take selected.length, k') := by
    refine selections_take
      (fun k as => ∃ M, ThreadTurn k M ∧ turn k.threadRunnable k.currentLib M = as) ?_
      ⟨M, h, hselected⟩ le_rfl
    rintro k a as ⟨M, h, hturn⟩
    exact ⟨_, h.nextThread garbage (h.behind.advance hturn).1, k.resumed_currentLib a, h.resumed hturn⟩
  rwa [List.take_length] at hret

end ThreadTurn

/-! ## Nobody starves -/

/-- The runnable processes, in the order in which they are met behind the current one. -/
def Kernel.processTurns (k : Kernel) (n : Nat) : List Addr := (k.nodesBehind n).filter k.runnable

/-- The runnable threads of the current process, in the order in which they are met behind the
current one. -/
def Kernel.threadTurns (k : Kernel) (n : Nat) : List Addr := (k.libsBehind n).filter k.threadRunnable

/-- As many switches as there are runnable processes select each of them once, in the order of the
ring, and so do as many calls of `nextThread` as the current process has runnable threads. -/
theorem round_robin (k : Kernel) (garbage : Kernel → Garbage) :
    (∀ nodes, ProcessRing k nodes →
      (∃ k', Returns (selections (quantumEnd garbage) Kernel.currentProcess ·
        (nodes.filter k.runnable).length k) (k.processTurns nodes.length, k')) ∧
      (k.processTurns nodes.length).Perm (nodes.filter k.runnable)) ∧
    ∀ libs, ThreadRing k libs →
      (∃ k', Returns (selections (fun fuel k => nextThread fuel (garbage k) k) Kernel.currentLib ·
        (libs.filter k.threadRunnable).length k) (k.threadTurns libs.length, k')) ∧
      (k.threadTurns libs.length).Perm (libs.filter k.threadRunnable) := by
  constructor
  · intro nodes h
    obtain ⟨M, hturn, hperm⟩ := h.turn
    have hselected : k.processTurns nodes.length = turn k.runnable k.currentProcess M := by
      rw [Kernel.processTurns, Kernel.nodesBehind, ← hperm.length_eq, List.length_append,
        List.length_singleton, hturn.behind.iterate, turn]
    have hcount := (hperm.filter k.runnable).length_eq
    rw [hselected, ← hcount]
    exact ⟨hturn.selections garbage, hperm.filter _⟩
  · intro libs h
    obtain ⟨M, hturn, hperm⟩ := h.turn
    have hselected : k.threadTurns libs.length = turn k.threadRunnable k.currentLib M := by
      rw [Kernel.threadTurns, Kernel.libsBehind, ← hperm.length_eq, List.length_append,
        List.length_singleton, hturn.behind.iterate, turn]
    have hcount := (hperm.filter k.threadRunnable).length_eq
    rw [hselected, ← hcount]
    exact ⟨hturn.selections garbage, hperm.filter _⟩

/-! ## The rings of a run

Where nobody is dead, the memory of a state of a run has the rings that the theorem asks for. -/

section Rings

variable {V : View} {c : ProcessView}

theorem Rep.processRing (hr : Rep k V) (hok : V.Ok)
    (halive : ∀ p ∈ V.table, p.val.state ≠ .DEAD) :
    ProcessRing k (V.table.map ProcessView.node) := by
  have hprocess : ∀ p ∈ V.table, (k.schedulerNode p.node).process = p.addr := fun p hp =>
    (hr.processes p hp).process
  refine ⟨hr.queue, ?_, fun n hn => (hr.nodes_ne n hn).1, fun n hn => (hr.nodes_ne n hn).2, ?_, ?_⟩
  · obtain ⟨p, hp, hcur⟩ := hok.current
    rw [hr.current, ← hcur]
    exact List.mem_map_of_mem hp
  · intro n hn n' hn' heq
    obtain ⟨p, hp, rfl⟩ := List.mem_map.mp hn
    obtain ⟨q, hq, rfl⟩ := List.mem_map.mp hn'
    rw [hprocess p hp, hprocess q hq] at heq
    rw [hr.eq_of_addr hp hq heq]
  · intro n hn
    obtain ⟨p, hp, rfl⟩ := List.mem_map.mp hn
    rw [Kernel.processAt, hprocess p hp, (hr.processes p hp).val]
    exact halive p hp

theorem Rep.currentProc (hr : Rep k V) (hc : c ∈ V.table) (hcur : c.node = V.current) :
    k.currentProc = c.addr := by
  rw [Kernel.currentProc, hr.current, ← hcur, (hr.processes c hc).process]

theorem Rep.threadRing (hr : Rep k V) (hc : c ∈ V.table) (hcur : c.node = V.current)
    (halive : ∀ t ∈ c.threads, t.val.state ≠ .T_DEAD) :
    ThreadRing k (c.threads.map ThreadView.lib) := by
  have hrc := hr.processes c hc
  have hproc := hr.currentProc hc hcur
  have hthread : ∀ t ∈ c.threads, (k.threadLibrary t.lib).thread = t.addr := fun t ht =>
    -- the fields of `ThreadRing`, each read off the view
    (hrc.threads t ht).thread
  refine ⟨?_, ?_, ?_, ?_, ?_, ?_, ?_, ?_⟩
  · rw [hr.current, ← hcur]
    exact hrc.node_ne
  · rw [hproc]
    exact hrc.addr_ne
  · rw [hproc, hrc.val]
    exact hrc.ring
  · rw [Kernel.currentLib, hproc, hrc.val]
    exact hrc.current
  · intro l hl
    obtain ⟨t, ht, rfl⟩ := List.mem_map.mp hl
    exact (hrc.threads t ht).lib_ne
  · intro l hl
    obtain ⟨t, ht, rfl⟩ := List.mem_map.mp hl
    rw [hthread t ht]
    exact (hrc.threads t ht).addr_ne
  · intro l hl l' hl' heq
    obtain ⟨t, ht, rfl⟩ := List.mem_map.mp hl
    obtain ⟨u, hu, rfl⟩ := List.mem_map.mp hl'
    rw [hthread t ht, hthread u hu] at heq
    rw [(hr.eq_of_threadAddr hc hc ht hu heq).2]
  · intro l hl
    obtain ⟨t, ht, rfl⟩ := List.mem_map.mp hl
    rw [Kernel.threadAt, hthread t ht, (hrc.threads t ht).val]
    exact halive t ht

end Rings

/-- After boot, `shell` and then `init` are selected. -/
theorem round_robin_after_boot : ∃ (k : Kernel) (nodes libs : List Addr), Booted k ∧
    ((∃ k', Returns (selections (quantumEnd fun _ => nullGarbage) Kernel.currentProcess ·
      (nodes.filter k.runnable).length k) (k.processTurns nodes.length, k')) ∧
      (k.processTurns nodes.length).Perm (nodes.filter k.runnable)) ∧
    ((∃ k', Returns (selections (fun fuel k => nextThread fuel nullGarbage k) Kernel.currentLib ·
      (libs.filter k.threadRunnable).length k) (k.threadTurns libs.length, k')) ∧
      (k.threadTurns libs.length).Perm (libs.filter k.threadRunnable)) := by
  obtain ⟨k, hboot⟩ := exists_booted
  obtain ⟨V, hr, hok, hV⟩ := hboot.rep
  obtain ⟨p, q, _, _, htable, hp, hq, hcur⟩ := hV.table
  obtain ⟨t, hthreads, ht, -⟩ := hp.threads
  have hnodes : ProcessRing k (V.table.map ProcessView.node) := by
    refine hr.processRing hok fun x hx => ?_
    rw [htable] at hx
    rcases List.mem_pair.mp hx with rfl | rfl
    · simp [hp.state]
    · simp [hq.state]
  have hlibs : ThreadRing k (p.threads.map ThreadView.lib) := by
    refine hr.threadRing (by simp [htable]) hcur.symm fun u hu => ?_
    rw [hthreads] at hu
    obtain rfl := List.mem_singleton.mp hu
    simp [ht.state]
  have hturns := round_robin k fun _ => nullGarbage
  exact ⟨k, _, _, hboot, hturns.1 _ hnodes, hturns.2 _ hlibs⟩

end BasicKernel
