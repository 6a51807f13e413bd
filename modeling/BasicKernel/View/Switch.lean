import BasicKernel.View.Reap

set_option autoImplicit false

/-! # The switch of processes on a view

`switchProcess` removes the dead processes, pauses the current one and scans the ring for the
first process that is ready. The removal walks along the ring while it frees the nodes, reads the
successor of a node from the page that was just freed, and stores into the predecessor, which is
an uninitialised pointer in the first round. It works when no two neighbours are dead and the
pointer is harmless: `ReapSafe`.
-/

namespace BasicKernel

open Linked Keyed Fuel

/-! ## The operations

A switch is a removal, a pause, a scan and a choice, in this order. -/

/-- The process can be chosen by a switch: it is ready, or it is the current one and running. -/
def ProcessView.runnable (current : Addr) (p : ProcessView) : Bool :=
  p.val.state = .READY ∨ p.node = current ∧ p.val.state = .RUNNING

/-- The current process is ready again if it was running. -/
def ProcessView.pause (current : Addr) (p : ProcessView) : ProcessView :=
  if p.node = current ∧ p.val.state = .RUNNING then p.setState .READY else p

/-- The process that a switch chooses: the first one behind the current one that can be chosen. -/
def View.nextProcess (V : View) : Option ProcessView :=
  (rotation ProcessView.node V.current V.table).find? (ProcessView.runnable V.current)

/-- The switch to the process `s`. -/
def View.switch (s : ProcessView) (V : View) : View :=
  { V with
    table := V.reap.table.map fun p =>
      if p.node = s.node then p.setState .RUNNING else p.pause V.current
    current := s.node
    ticks := 0 }

/-- The processes after the removal of the dead ones, with the current one ready again. -/
def View.paused (V : View) : View :=
  { V.reap with ticks := 0, table := V.reap.table.map (ProcessView.pause V.current) }

/-- The removal of dead processes is safe: no two of the dead ones that it finds are neighbours,
and the stores through uninitialised pointers do no harm. -/
structure View.ReapSafe (garbage : Garbage) (k : Kernel) (V : View) : Prop where
  apart : NoDeadNeighbours (V.table.take V.queueSize.toNat)
  harmless : ∀ p ∈ V.table.take V.queueSize.toNat, p.alive = false → garbage.Harmless k p

/-- What the walk over the dead processes needs of this: the stray stores leave the rings of threads
alone. -/
structure View.Reapable (garbage : Garbage) (V : View) : Prop where
  apart : NoDeadNeighbours (V.table.take V.queueSize.toNat)
  spares : ∀ p ∈ V.table.take V.queueSize.toNat, p.alive = false → garbage.Spares V p

theorem Rep.reapable {k : Kernel} {V : View} {garbage : Garbage} (hr : Rep k V)
    (h : V.ReapSafe garbage k) : V.Reapable garbage :=
  ⟨h.apart, fun p hp hdead => hr.spares (h.harmless p hp hdead)⟩

section Fields

variable (current : Addr) (p : ProcessView)

@[simp] theorem ProcessView.pause_node : (p.pause current).node = p.node := by
  rw [pause]
  split <;> rfl

@[simp] theorem ProcessView.pause_addr : (p.pause current).addr = p.addr := by
  rw [pause]
  split <;> rfl

theorem ProcessView.setState_pause (s : ProcessState) :
    (p.pause current).setState s = p.setState s := by
  rw [pause]
  split <;> rfl

theorem ProcessView.pause_ready :
    decide ((p.pause current).val.state = .READY) = p.runnable current := by
  rw [pause, runnable]
  split
  · next h => simp [ProcessView.setState, h]
  · next h =>
      have : ¬ (p.node = current ∧ p.val.state = .RUNNING) := h
      simp [this]

theorem ProcessView.alive_of_runnable {current : Addr} {p : ProcessView}
    (h : p.runnable current) : p.alive := by
  have : p.val.state = .READY ∨ p.node = current ∧ p.val.state = .RUNNING := by
    simpa [runnable] using h
  rcases this with h | ⟨-, h⟩ <;> simp [alive, h]

end Fields

/-! ## What is left after the removal

The current process may be one of those that are removed. The scan then starts at a node that is
no longer in the ring, but whose `next` still leads into it. -/

/-- A process that `removeDeadProcess` does not free. -/
def View.kept (V : View) (p : ProcessView) : Bool :=
  p.alive || decide (p.node ∉ (V.table.take V.queueSize.toNat).map ProcessView.node)

theorem View.reap_table {V : View} (hnd : (V.table.map ProcessView.node).Nodup) :
    V.reap.table = V.table.filter V.kept := by
  have hsplit : V.table = V.table.take V.queueSize.toNat ++ V.table.drop V.queueSize.toNat :=
    (List.take_append_drop _ _).symm
  have hdis := hnd
  rw [hsplit, List.map_append] at hdis
  rw [hsplit, List.filter_append]
  show _ ++ _ = _
  congr 1
  · refine List.filter_congr fun p hp => ?_
    have hmem := List.mem_map_of_mem (f := ProcessView.node) hp
    simp only [View.kept, hmem, not_true_eq_false, decide_false, Bool.or_false]
  · refine (List.filter_eq_self.mpr fun p hp => ?_).symm
    have : p.node ∉ (V.table.take V.queueSize.toNat).map ProcessView.node := fun hmem =>
      (List.nodup_append.mp hdis).2.2 _ hmem _ (List.mem_map_of_mem hp) rfl
    simp only [View.kept, Bool.or_eq_true, decide_eq_true_eq]
    exact .inr this

theorem View.mem_of_mem_reap {V : View} (hnd : (V.table.map ProcessView.node).Nodup)
    {p : ProcessView} (hp : p ∈ V.reap.table) : p ∈ V.table := by
  rw [View.reap_table hnd] at hp
  exact (List.mem_filter.mp hp).1

theorem View.kept_of_alive {V : View} {p : ProcessView} (h : p.alive) : V.kept p := by
  simp [View.kept, h]

/-- The process that is chosen is not freed. -/
theorem View.mem_reap_of_nextProcess {V : View} (hnd : (V.table.map ProcessView.node).Nodup)
    {s : ProcessView} (hs : V.nextProcess = some s) : s ∈ V.reap.table := by
  rw [View.reap_table hnd]
  have halive := ProcessView.alive_of_runnable (List.find?_some hs)
  exact List.mem_filter.mpr ⟨mem_rotation.mp (List.mem_of_find?_eq_some hs), View.kept_of_alive halive⟩

/-- Two neighbours are not both freed. -/
theorem View.Reapable.neighbour_kept {V : View} {garbage : Garbage} (hsafe : V.Reapable garbage)
    (hnd : (V.table.map ProcessView.node).Nodup) {A B : List ProcessView} {c d : ProcessView}
    (hT : V.table = A ++ c :: d :: B) (hc : V.kept c = false) (hd : V.kept d = false) : False := by
  simp only [View.kept, Bool.or_eq_false_iff, decide_eq_false_iff_not, not_not] at hc hd
  -- `d` is dead and among the visited processes, so its index is at most the last visited one
  obtain ⟨e, he, hed⟩ := List.mem_map.mp hd.2
  obtain rfl : e = d :=
    eq_of_key_eq hnd (List.mem_of_mem_take he) (by rw [hT]; simp) hed
  obtain ⟨j, hj, hje⟩ := List.getElem_of_mem he
  have hjT : j < V.table.length := by
    rw [List.length_take] at hj
    omega
  have hi : A.length + 1 < V.table.length := by
    rw [hT]
    simp
  have hidx : V.table[A.length + 1] = e := by simp [hT]
  have hij : j = A.length + 1 := by
    have heq : V.table[j] = V.table[A.length + 1] := by rw [hidx, ← hje, List.getElem_take]
    exact (List.Nodup.getElem_inj_iff hnd.of_map).mp heq
  subst hij
  have := List.isChain_iff_getElem.mp hsafe.apart A.length hj
  rw [hje] at this
  have hidx' : (V.table.take V.queueSize.toNat)[A.length] = c := by
    rw [List.getElem_take]
    simp [hT]
  rw [hidx', hc.1, hd.1] at this
  rcases this with h | h <;> cases h

/-- What the scan of `switchProcess` visits, in its order. -/
def View.scanned (V : View) : List ProcessView :=
  ((rotation ProcessView.node V.current V.table).filter V.kept).map (ProcessView.pause V.current)

theorem pause_nodes (current : Addr) (ps : List ProcessView) :
    (ps.map (ProcessView.pause current)).map ProcessView.node = ps.map ProcessView.node := by
  rw [List.map_map]
  exact List.map_congr_left fun p _ => p.pause_node current

theorem View.paused_nodes (V : View) :
    V.paused.table.map ProcessView.node = V.reap.table.map ProcessView.node :=
  pause_nodes V.current V.reap.table

theorem View.mem_paused_of_scanned {V : View} (hnd : (V.table.map ProcessView.node).Nodup)
    {p : ProcessView} (hp : p ∈ V.scanned) : p ∈ V.paused.table := by
  obtain ⟨q, hq, rfl⟩ := List.mem_map.mp hp
  obtain ⟨hq, hqk⟩ := List.mem_filter.mp hq
  refine List.mem_map_of_mem ?_
  rw [View.reap_table hnd]
  exact List.mem_filter.mpr ⟨mem_rotation.mp hq, hqk⟩

theorem View.exists_scanned {V : View} (hok : V.Ok) : ∃ p, p ∈ V.scanned := by
  obtain ⟨p, ps, hps, -, hstate⟩ := hok.main
  refine ⟨p.pause V.current, List.mem_map_of_mem (List.mem_filter.mpr ⟨mem_rotation.mpr ?_, ?_⟩)⟩
  · rw [hps]
    exact List.mem_cons_self
  · exact View.kept_of_alive (by simpa [ProcessView.alive] using hstate)

/-- The scan skips exactly the processes that cannot be chosen. -/
theorem View.find_scanned (V : View) :
    V.scanned.find? (fun p => p.val.state = .READY)
      = V.nextProcess.map (ProcessView.pause V.current) := by
  have hcomp : (fun p : ProcessView => decide (p.val.state = .READY)) ∘ ProcessView.pause V.current
      = ProcessView.runnable V.current := funext fun p => p.pause_ready V.current
  have hboth : (fun p => decide (V.kept p = true ∧ ProcessView.runnable V.current p = true))
      = ProcessView.runnable V.current := by
    funext p
    cases hp : p.runnable V.current with
    | false => simp
    | true => simp [View.kept_of_alive (ProcessView.alive_of_runnable hp)]
  rw [View.scanned, List.find?_map, hcomp, List.find?_filter, hboth, View.nextProcess]

/-- The dead are not counted. -/
theorem View.alive_reap {V : View} (hnd : (V.table.map ProcessView.node).Nodup) :
    V.reap.alive = V.alive := by
  unfold View.alive
  rw [View.reap_table hnd, List.countP_filter]
  apply List.countP_congr
  intro p _
  have hkept : p.val.state ≠ .DEAD → V.kept p := fun hp =>
    View.kept_of_alive (by simpa [ProcessView.alive] using hp)
  simp only [Bool.and_eq_true, decide_eq_true_eq]
  constructor
  · exact fun h => h.1
  · exact fun h => ⟨h, hkept h⟩

/-- Removal keeps the numbers. -/
theorem View.Numbered.reap {V : View} (h : V.Numbered)
    (hnd : (V.table.map ProcessView.node).Nodup) : V.reap.Numbered := by
  have htable := View.reap_table hnd
  have hsub : V.reap.table.Sublist V.table := by rw [htable]; exact List.filter_sublist
  refine ⟨fun p hp => h.processes p (hsub.subset hp), h.pids.sublist (hsub.map _),
    fun p hp => h.pid_lt p (hsub.subset hp), ?_, ?_⟩
  · obtain ⟨p, ps, hps, h0, hstate⟩ := h.main
    refine ⟨p, ps.filter V.kept, ?_, h0, hstate⟩
    rw [htable, hps, List.filter_cons_of_pos]
    exact View.kept_of_alive (by simpa [ProcessView.alive] using hstate)
  · rw [View.alive_reap hnd]
    exact h.queueSize_le

namespace Rep

variable {k k' : Kernel} {V : View} {p s : ProcessView} {garbage : Garbage}

/-- `removeDeadProcess` leaves `V.reap`. It does not touch the processes themselves, nor the nodes
that it has freed. -/
theorem removeDeadProcess (hr : Rep k V) (hok : V.Ok) (hsafe : V.Reapable garbage) :
    ∃ k', Returns (BasicKernel.removeDeadProcess · garbage k) k' ∧ Rep k' V.reap ∧
      k'.process = k.process ∧ ∀ n, n ∉ V.reap.table.map ProcessView.node →
        k'.schedulerNode n = k.schedulerNode n := by
  -- all visited nodes are nodes of the ring, since `queueSize` counts at most the living
  have hlen : (V.table.take V.queueSize.toNat).length = V.queueSize.toNat := by
    have hle := hok.queueSize_le
    have : V.alive ≤ V.table.length := List.countP_le_length
    rw [List.length_take]
    omega
  obtain ⟨p, ps, hps, -, hstate⟩ := hok.main
  -- the first node is that of `init`, which lives: no store goes through the uninitialised pointer
  have hhead : ∀ q, (V.table.take V.queueSize.toNat).head? = some q → q = p := by
    intro q hq
    rw [hps] at hq
    cases hn : V.queueSize.toNat with
    | zero => rw [hn] at hq; simp at hq
    | succ n => rw [hn] at hq; simpa using hq.symm
  have hqueue : k.processQueue = p.node := by
    have hpath := hr.queue.path
    rw [hps] at hpath
    exact hpath.1
  obtain ⟨k', hret, hr', hproc, hframe⟩ := removeDead garbage (V.table.take V.queueSize.toNat)
    (D := []) (R := V.table.drop V.queueSize.toNat) (a := k.processQueue)
    (b := garbage.removeDeadProcess) hr (by simp)
    (fun q hq => (hok.processes q (List.mem_of_mem_take hq)).size_le) hsafe.spares hsafe.apart
    (.inr fun q hq => by simpa [hhead q hq, ProcessView.alive] using hstate)
    (fun q hq => by rw [hhead q hq, hqueue])
  rw [hlen, ← hr.queueSize] at hret
  exact ⟨k', hret, hr', hproc, hframe⟩

/-- The scan of `runScheduler` over the processes `L` behind the node `x`, up to the first ready
one. -/
theorem resumeNextProcess (hr : Rep k V) {L : List ProcessView} {x b : Addr}
    (hx : k.currentProcess = x) (hne : x ≠ NULL) (hL : ∀ p ∈ L, p ∈ V.table)
    (hpath : Path k.nextNode (k.nextNode x) (L.map ProcessView.node) b)
    (hs : L.find? (fun p => p.val.state = .READY) = some s) :
    ∃ k', Returns (BasicKernel.resumeNextProcess · k) k' ∧
      Rep k' { V.set s (s.setState .RUNNING) with current := s.node } := by
  let q : Addr → Bool := fun n => decide ((k.process (k.schedulerNode n).process).state = .READY)
  have hq : ∀ p ∈ V.table, q p.node = decide (p.val.state = .READY) := by
    intro p hp
    simp only [q, (hr.processes p hp).process, (hr.processes p hp).val]
  have hmem : s ∈ V.table := hL s (List.mem_of_find?_eq_some hs)
  -- the scan looks at the nodes in the order of the ring
  have hfind : (L.map ProcessView.node).find? q = some s.node := by
    have : L.find? (q ∘ ProcessView.node) = L.find? fun p => decide (p.val.state = .READY) :=
      List.find?_congr fun p hp => hq p (hL p hp)
    rw [List.find?_map, this, hs]
    rfl
  have hnode : ∀ n ∈ x :: L.map ProcessView.node, n ≠ NULL := by
    rintro n (_ | ⟨_, hn⟩)
    · exact hne
    · obtain ⟨p, hp, rfl⟩ := List.mem_map.mp hn
      exact (hr.processes p (hL p hp)).node_ne
  obtain ⟨last, hlast, hnext, hwalk⟩ := walkWhile_seek hpath hfind
  have hload : ∀ n ∈ x :: L.map ProcessView.node,
      load k.schedulerNode n = .ok (k.schedulerNode n) := fun n hn => load_of_ne (hnode n hn)
  have hrs := hr.processes s hmem
  have hr₁ : Rep { k with currentProcess := s.node } { V with current := s.node } :=
    ⟨hr.queue, fun p hp => (hr.processes p hp).congr rfl rfl (fun _ _ => rfl) (fun _ _ => rfl)
      fun _ _ => rfl, rfl, hr.ticks, hr.queueSize, hr.nextPid,
      hr.mutexes.congr (fun _ _ => rfl) fun _ _ _ _ => rfl, hr.mutexCounter,
      hr.semaphores.congr (fun _ _ => rfl) fun _ _ _ _ => rfl, hr.semaphoreCounter, hr.owns,
      hr.created, hr.freedOnce⟩
  obtain ⟨k', h', hr'⟩ := hr₁.setState (V := { V with current := s.node }) hmem .RUNNING
  refine ⟨k', ?_, hr'⟩
  simp only [BasicKernel.resumeNextProcess, hx]
  refine (hwalk (fun n hn hnn => ?_) fun n hn => ?_).bind ?_
  · obtain ⟨p, hp, hpn⟩ := List.mem_map.mp hnn
    have hrp := hr.processes p (hL p hp)
    have hload' : load k.schedulerNode (k.schedulerNode n).next = .ok (k.schedulerNode p.node) := by
      show load k.schedulerNode (k.nextNode n) = _
      rw [← hpn]
      exact load_of_ne hrp.node_ne
    simp only [hload n hn, hload', ok_bind, hrp.process, hrp.load_process, pure_eq_ok]
    rw [← hpn, hq p (hL p hp), decide_not]
  · simp only [hload n hn, ok_bind, pure_eq_ok]
    rfl
  · have hnext' : (k.schedulerNode last).next = s.node := hnext
    have hcur : Kernel.currentProcessNode { k with currentProcess := s.node } = .ok s.addr :=
      hr₁.currentProcessNode (V := { V with current := s.node }) hmem rfl
    simp only [hload last hlast, ok_bind, hnext', hcur, h']
    exact Returns.const _ _

/-- Without a ready process the scan does not end. -/
theorem resumeNextProcess_never (hr : Rep k V) {x : Addr} (hx : k.currentProcess = x)
    (hne : x ≠ NULL) (hnext : k.nextNode x ∈ V.table.map ProcessView.node)
    (hnone : ∀ p ∈ V.table, p.val.state ≠ .READY) : Never (BasicKernel.resumeNextProcess · k) := by
  have hstep : ∀ {n}, n ≠ NULL → k.nextNode n ∈ V.table.map ProcessView.node →
      (do
        let next := (← load k.schedulerNode n).next
        -- from a node whose successor is in the ring the scan only gets to nodes of the ring
        let process := (← load k.schedulerNode next).process
        return decide ((← load k.process process).state ≠ .READY) : Except Stop Bool) = .ok true ∧
      ∃ m, (m ≠ NULL ∧ k.nextNode m ∈ V.table.map ProcessView.node) ∧
        (do return (← load k.schedulerNode n).next : Except Stop Addr) = .ok m := by
    intro n hn hmem
    have hmem' := hr.queue.next_mem hmem
    obtain ⟨p, hp, hpn⟩ := List.mem_map.mp hmem
    have hrp := hr.processes p hp
    have hload : load k.schedulerNode (k.schedulerNode n).next = .ok (k.schedulerNode p.node) := by
      show load k.schedulerNode (k.nextNode n) = _
      rw [← hpn]
      exact load_of_ne hrp.node_ne
    refine ⟨?_, k.nextNode n, ⟨hpn ▸ hrp.node_ne, hmem'⟩, ?_⟩
    · simp only [load_of_ne hn, hload, ok_bind, hrp.process, hrp.load_process, pure_eq_ok]
      simp [hnone p hp]
    · simp only [load_of_ne hn, ok_bind, pure_eq_ok]
      rfl
  refine Never.bind_left fun fuel a ha => ?_
  have hout : walkWhile Stop.outOfFuel _ _ fuel k.currentProcess = .ok a := ha
  rw [walkWhile_forever (S := fun n => n ≠ NULL ∧ k.nextNode n ∈ V.table.map ProcessView.node)
    (fun n hn => hstep hn.1 hn.2) (by rw [hx]; exact ⟨hne, hnext⟩)] at hout
  cases hout

/-- The state of the ring when the scan starts: the current process `c`, which may be freed, has its
old successor or the next one that is left. -/
theorem pathAfterReap (hr : Rep k V) (hok : V.Ok) (hsafe : V.Reapable garbage)
    {A B : List ProcessView} {c : ProcessView} (hT : V.table = A ++ c :: B)
    {next : Addr → Addr} {h : Addr} (hring : Ring next h (V.reap.table.map ProcessView.node))
    -- `c` stays in the ring, or its stale successor leads there
    (hfreed : V.kept c = false → next c.node = k.nextNode c.node) :
    ∃ b, Path next (next c.node) (((B ++ A ++ [c]).filter V.kept).map ProcessView.node) b := by
  have hreap := View.reap_table hr.queue.nodup
  rw [hT, List.filter_append, List.filter_cons] at hreap
  cases hc : V.kept c with
  | true =>
      rw [if_pos hc] at hreap
      rw [hreap, List.map_append, List.map_cons] at hring
      exact ⟨_, by simpa [hc] using hring.path_after⟩
  | false =>
      have hreap' : V.reap.table = A.filter V.kept ++ B.filter V.kept := by simpa [hc] using hreap
      obtain ⟨p, ps, hps, -, hstate⟩ := hok.main
      have hpkept : V.kept p = true := View.kept_of_alive (by simpa [ProcessView.alive] using hstate)
      -- the first process is alive, so `c` is not the first
      obtain ⟨A₁, rfl⟩ : ∃ A₁, A = p :: A₁ := by
        rw [hps] at hT
        cases A with
        | nil =>
            rw [(List.cons.inj hT).1, hc] at hpkept
            cases hpkept
        | cons a A₁ => exact ⟨A₁, by rw [(List.cons.inj hT).1]⟩
      -- `c` was the last of the ring, so its successor is the first, `init`
      have hnextc := hfreed hc
      have hpath := hr.queue
      rw [hT, List.map_append, List.map_cons] at hpath
      have hpath := hpath.path_after
      cases B with
      | nil =>
          have hd : k.nextNode c.node = p.node := hpath.1
          rw [hreap', List.filter_cons, if_pos hpkept] at hring
          -- its successor is not removed as well: two neighbours are not both dead
          have hhead : h = p.node := hring.path.1
          refine ⟨h, ?_⟩
          rw [hnextc, hd, ← hhead]
          simpa [hc, hpkept] using hring.path
      | cons d B₁ =>
          have hd : k.nextNode c.node = d.node := hpath.1
          have hdkept : V.kept d = true := by
            by_contra hdk
            exact hsafe.neighbour_kept hr.queue.nodup hT hc (by simpa using hdk)
          rw [hreap', List.filter_cons (x := d), if_pos hdkept, List.map_append, List.map_cons]
            at hring
          refine ⟨d.node, ?_⟩
          have hL : (d :: B₁ ++ (p :: A₁) ++ [c]).filter V.kept
              = d :: B₁.filter V.kept ++ (p :: A₁).filter V.kept := by
            simp [hc, hdkept, hpkept]
          rw [hnextc, hd, hL, List.map_append, List.map_cons]
          exact hring.path_from

/-- The part of `switchProcess` between the removal and the scan. -/
theorem pauseCurrent (hr : Rep k V) {c : ProcessView} (hcur : k.currentProcess = c.node)
    (hne : c.node ≠ NULL) (haddr : c.addr ≠ NULL)
    (hproc : (k.schedulerNode c.node).process = c.addr) (hval : k.process c.addr = c.val)
    (hmem : c.val.state = .RUNNING → c ∈ V.table)
    (hunique : ∀ p ∈ V.table, p.node = c.node → p = c) :
    ∃ k', (∀ fuel, (do
        let process ← k.currentProcessNode
        let k ←
          if (← load k.process process).state = .RUNNING then
            k.modifyProcess process fun p => { p with state := .READY }
          else pure k
        BasicKernel.resumeNextProcess fuel k) = BasicKernel.resumeNextProcess fuel k') ∧
      Rep k' { V with table := V.table.map (ProcessView.pause c.node) } ∧
      -- a running process is alive, so it was not removed and is in the view
      k'.schedulerNode = k.schedulerNode ∧ k'.currentProcess = k.currentProcess := by
  have hnode : k.currentProcessNode = .ok c.addr := by
    simp [Kernel.currentProcessNode, hcur, hne, hproc]
  have hload : load k.process c.addr = .ok c.val := by rw [load_of_ne haddr, hval]
  by_cases hrun : c.val.state = .RUNNING
  · have hc := hmem hrun
    obtain ⟨k', hmod, hr'⟩ := hr.setState hc .READY
    have hk' : k'.schedulerNode = k.schedulerNode ∧ k'.currentProcess = k.currentProcess := by
      simp only [Kernel.modifyProcess, modify, haddr, if_false, ok_bind, pure_eq_ok] at hmod
      obtain rfl := Except.ok.inj hmod
      exact ⟨rfl, rfl⟩
    have htable : (V.set c (c.setState .READY)).table = V.table.map (ProcessView.pause c.node) := by
      refine List.map_congr_left fun p hp => ?_
      by_cases hpc : p.node = c.node
      · obtain rfl := hunique p hp hpc
        simp [ProcessView.pause, hrun]
      · have hpa : p.addr ≠ c.addr := fun h => hpc (by rw [hr.eq_of_addr hp hc h])
        simp [ProcessView.pause, hpc, hpa]
    -- nothing is stored, and `pause` changes no process that is not running
    refine ⟨k', fun fuel => ?_, ?_, hk'⟩
    · simp only [hnode, hload, ok_bind, hrun, if_true, hmod]
    · rw [← htable]
      exact hr'
  · refine ⟨k, fun fuel => ?_, ?_, rfl, rfl⟩
    · simp only [hnode, hload, ok_bind, hrun, if_false, pure_eq_ok]
    · have hpause : ∀ p ∈ V.table, p.pause c.node = p := by
        intro p hp
        by_cases hpc : p.node = c.node
        · obtain rfl := hunique p hp hpc
          simp [ProcessView.pause, hrun]
        · simp [ProcessView.pause, hpc]
      rw [List.map_congr_left hpause, List.map_id']
      exact hr

/-- Where `switchProcess` starts its scan, with the processes `V.paused` that are left. -/
theorem scanStart (hr : Rep k V) (hok : V.Ok) (hsafe : V.Reapable garbage) :
    ∃ k₁ k₂ b, Returns (BasicKernel.removeDeadProcess · garbage k) k₁ ∧
      (∀ fuel, (do
        let k := { k₁ with numberOfTicks := 0 }
        let process ← k.currentProcessNode
        let k ←
          if (← load k.process process).state = .RUNNING then
            k.modifyProcess process fun p => { p with state := .READY }
          else pure k
        BasicKernel.resumeNextProcess fuel k) = BasicKernel.resumeNextProcess fuel k₂) ∧
      Rep k₂ V.paused ∧ k₂.currentProcess = V.current ∧ V.current ≠ NULL ∧
      Path k₂.nextNode (k₂.nextNode V.current) (V.scanned.map ProcessView.node) b := by
  obtain ⟨c, hc, hccur⟩ := hok.current
  have hrc := hr.processes c hc
  obtain ⟨A, B, hT⟩ := List.append_of_mem hc
  have hnd := hr.queue.nodup
  have hA : ∀ y ∈ A, y.node ≠ c.node := by
    intro y hy h
    rw [hT, List.map_append, List.map_cons] at hnd
    exact (List.nodup_append.mp hnd).2.2 _ (List.mem_map_of_mem hy) _ List.mem_cons_self h
  obtain ⟨k₁, h₁, hr₁, hproc₁, hframe₁⟩ := hr.removeDeadProcess hok hsafe
  have hkept : V.kept c = true → c ∈ V.reap.table := fun h => by
    rw [View.reap_table hnd]
    exact List.mem_filter.mpr ⟨hc, h⟩
  have hfreed : V.kept c = false → c.node ∉ V.reap.table.map ProcessView.node := by
    intro h hmem
    obtain ⟨d, hd, hdc⟩ := List.mem_map.mp hmem
    obtain rfl := eq_of_key_eq hnd (View.mem_of_mem_reap hnd hd) hc hdc
    -- the freed node still points to the process
    rw [View.reap_table hnd] at hd
    rw [(List.mem_filter.mp hd).2] at h
    cases h
  have hcur₁ : k₁.currentProcess = c.node := by rw [hr₁.current, hccur]; rfl
  have hcproc : (k₁.schedulerNode c.node).process = c.addr := by
    cases hck : V.kept c with
    | true => exact (hr₁.processes c (hkept hck)).process
    | false => rw [hframe₁ _ (hfreed hck)]; exact hrc.process
  obtain ⟨k₂, h₂, hr₂, hnodes₂, hcur₂⟩ := (hr₁.setTicks 0).pauseCurrent (c := c) hcur₁ hrc.node_ne
    hrc.addr_ne hcproc (by rw [← hrc.val, ← hproc₁]) (fun h => hkept (View.kept_of_alive
      (by simp [ProcessView.alive, h])))
    fun p hp h => eq_of_key_eq hnd (View.mem_of_mem_reap hnd hp) hc h
  have hr₂ : Rep k₂ V.paused := by
    rw [View.paused, ← hccur]
    exact hr₂
  have hring₂ := hr₂.queue
  rw [View.paused_nodes] at hring₂
  obtain ⟨b, hpath⟩ := hr.pathAfterReap hok hsafe hT hring₂ fun h => by
    simp only [Kernel.nextNode, hnodes₂, hframe₁ _ (hfreed h)]
  refine ⟨k₁, k₂, b, h₁, h₂, hr₂, by rw [hcur₂, ← hccur]; exact hcur₁, hccur ▸ hrc.node_ne, ?_⟩
  rw [View.scanned, ← hccur, hT, rotation_append hA, pause_nodes]
  exact hpath

/-- The switch of processes after a full quantum. -/
theorem switchProcess (hr : Rep k V) (hok : V.Ok) (hsafe : V.Reapable garbage)
    (hs : V.nextProcess = some s) :
    ∃ k', Returns (BasicKernel.switchProcess · garbage k) k' ∧ Rep k' (V.switch s) := by
  have hnd := hr.queue.nodup
  obtain ⟨k₁, k₂, b, h₁, h₂, hr₂, hcur₂, hne, hpath⟩ := hr.scanStart hok hsafe
  obtain ⟨k', h', hr'⟩ := hr₂.resumeNextProcess hcur₂ hne (fun p => View.mem_paused_of_scanned hnd)
    hpath (by rw [View.find_scanned, hs]; rfl)
  refine ⟨k', ?_, ?_⟩
  -- pausing the current process and running `s` is one change of the table, also when they are the
  -- same
  · simp only [BasicKernel.switchProcess]
    refine h₁.bind ?_
    simp only [h₂]
    exact h'
  · have hsT : s ∈ V.table := mem_rotation.mp (List.mem_of_find?_eq_some hs)
    have htable : (V.paused.set (s.pause V.current) ((s.pause V.current).setState .RUNNING)).table
        = (V.switch s).table := by
      simp only [View.set, update, View.paused, View.switch, List.map_map]
      refine List.map_congr_left fun p hp => ?_
      have hpT := View.mem_of_mem_reap hnd hp
      by_cases hps : p.node = s.node
      · obtain rfl := hr.eq_of_node hpT hsT hps
        simp [ProcessView.setState_pause]
      · have hpa : p.addr ≠ s.addr := fun h => hps (by rw [hr.eq_of_addr hpT hsT h])
        simp [hps, hpa]
    have hV : ({ V.paused.set (s.pause V.current) ((s.pause V.current).setState .RUNNING) with
        current := (s.pause V.current).node } : View) = V.switch s :=
      View.ext htable (s.pause_node V.current) rfl rfl rfl rfl rfl rfl rfl rfl
    rw [← hV]
    exact hr'

/-- Without a process that can be chosen the switch does not end. -/
theorem switchProcess_never (hr : Rep k V) (hok : V.Ok) (hsafe : V.Reapable garbage)
    (hs : V.nextProcess = none) : Never (BasicKernel.switchProcess · garbage k) := by
  have hnd := hr.queue.nodup
  obtain ⟨k₁, k₂, b, h₁, h₂, hr₂, hcur₂, hne, hpath⟩ := hr.scanStart hok hsafe
  have hscan : Never (BasicKernel.resumeNextProcess · k₂) := by
    refine hr₂.resumeNextProcess_never hcur₂ hne ?_ fun p hp => ?_
    · obtain ⟨p, hp⟩ := View.exists_scanned hok
      cases hL : V.scanned with
      | nil => rw [hL] at hp; cases hp
      | cons q qs =>
          rw [hL] at hpath
          rw [hpath.1]
          exact List.mem_map_of_mem (View.mem_paused_of_scanned hnd (by rw [hL]; simp))
    · obtain ⟨q, hq, rfl⟩ := List.mem_map.mp hp
      have hno := List.find?_eq_none.mp hs q (mem_rotation.mpr (View.mem_of_mem_reap hnd hq))
      simpa [← ProcessView.pause_ready] using hno
  simp only [BasicKernel.switchProcess]
  refine Never.bind_right h₁ ?_
  simp only [h₂]
  exact hscan

end Rep

end BasicKernel
