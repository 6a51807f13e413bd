import BasicKernel.Scheduling.Accounting

set_option autoImplicit false

/-! # The ring of processes

What `addProcess`, `removeProcess` and `removeDeadProcess` make of the ring. `queueSize` is the number
of its living nodes until a process is killed again, and the removal of the dead frees each of them
once until it frees the node that it goes on from.

`process_ring_kept` says that in every run of such events the ring consists of the processes that
were created and not freed. `killed_twice_counted` is the run in which `queueSize` goes wrong.
-/

namespace BasicKernel

open Linked Keyed Fuel Transition

/-- The process that a node of the ring stands for. -/
def Kernel.nodeProcess (k : Kernel) (node : Addr) : Addr := (k.schedulerNode node).process

/-- The ring consists of the processes that were created and not freed, each once and none in a freed
page, and `queueSize` is the number of those that are not dead. No page was freed twice. -/
structure Kernel.RingFine (k : Kernel) : Prop where
  ring : ∃ nodes, Ring k.nextNode k.processQueue nodes ∧ nodes.Nodup ∧
    k.processes.Perm (nodes.map k.nodeProcess) ∧ (nodes.map k.nodeProcess).Nodup ∧
    k.queueSize = nodes.countP (fun n => (k.process (k.nodeProcess n)).state ≠ .DEAD) ∧
    ∀ n ∈ nodes, k.Reserved n ∧ k.Reserved (k.nodeProcess n)
  freedOnce : k.freedTwice = false

/-- The events that change the ring. A pid that is not in the ring does not return from
`removeProcess`. -/
def KernelOp.OnRing : KernelOp → Prop
  | addProcess _ _ _ => True
  | removeProcess pid => 1 < pid
  | removeDeadProcess _ => True
  | _ => False

/-- An event on the ring that kills no dead process, and frees no node that it goes on from. -/
def KeepsRing (k : Kernel) (op : KernelOp) : Prop :=
  op.OnRing ∧ match op with
    | .addProcess _ _ _ => CleanProcess k
    | .removeProcess pid => ¬ k.ProcessIs pid .DEAD
    | .removeDeadProcess garbage => ∀ V, Rep k V → V.ReapSafe garbage k
    | _ => False

/-- `queueSize` counts the living, and the current process is the one that is never killed. -/
structure View.RingFine (V : View) : Prop where
  queueSize : V.queueSize = V.alive
  current : ∃ p ∈ V.table, p.node = V.current ∧ p.val.pid = 0

variable {k k' : Kernel} {V : View} {op : KernelOp} {p : ProcessView} {fuel : Nat}

/-! ## The number of living processes

A kill makes one process dead and lowers `queueSize` by one. -/

theorem Rep.alive_kill (hr : Rep k V) (hp : p ∈ V.table) (halive : p.val.state ≠ .DEAD) :
    (V.kill p).alive + 1 = V.alive := by
  obtain ⟨A, B, hT⟩ := List.append_of_mem hp
  have hset : (V.kill p).table = A ++ p.setState .DEAD :: B := hr.set_append hT
  unfold View.alive
  rw [hset, hT, List.countP_append, List.countP_append, List.countP_cons_of_neg (by simp [ProcessView.setState]),
    List.countP_cons_of_pos (by simpa using halive)]
  omega

/-! ## What an event keeps

A creation inserts a node behind the current one, and a switch frees the nodes of the dead. -/

theorem View.AtBoot.ringFine (h : V.AtBoot) : V.RingFine := by
  obtain ⟨p, q, init, sample, hT, hp, hq, hcur⟩ := h.table
  constructor
  · rw [h.queueSize, View.alive, hT]
    simp [hp.state, hq.state]
  · refine ⟨p, ?_, hcur.symm, hp.pid⟩
    rw [hT]
    exact List.mem_cons_self

/-- The process `0` is in the ring after the dead are removed. -/
theorem Rep.mem_reap_of_main (hr : Rep k V) (hok : V.Ok) (hp : p ∈ V.table) (hmain : p.val.pid = 0) :
    p ∈ V.reap.table := by
  obtain ⟨q, qs, hqs, hq0, hstate⟩ := hok.main
  have hq : q ∈ V.table := by
    rw [hqs]
    exact List.mem_cons_self
  obtain rfl := eq_of_key_eq hok.pids hp hq (hmain.trans hq0.symm)
  rw [View.reap_table hr.queue.nodup]
  exact List.mem_filter.mpr ⟨hp, View.kept_of_alive (by simpa [ProcessView.alive] using hstate)⟩

/-- An event that keeps the ring and that returned. -/
theorem Rep.run_keepsRing (hr : Rep k V) (hok : V.Ok) (hV : V.RingFine) (hkeeps : KeepsRing k op)
    (h : op.run fuel k = .ok k') : ∃ V', Effect k V op V' ∧ Rep k' V' ∧ V'.Ok := by
  obtain ⟨hon, hkeeps⟩ := hkeeps
  cases op with
  | addProcess exec entryPoint name =>
      have hs : Sound k (.addProcess exec entryPoint name) := hkeeps
      exact hr.run_inv hok hs h
  | removeProcess pid =>
      have hs : Sound k (.removeProcess pid) := trivial
      exact hr.run_inv hok hs h
  | removeDeadProcess garbage =>
      obtain ⟨c, hc, hcur, hmain⟩ := hV.current
      obtain ⟨k₁, hret, hr', -⟩ := hr.removeDeadProcess hok (hr.reapable (hkeeps V hr))
      obtain rfl := hret.eq h
      refine ⟨V.reap, .removeDeadProcess, hr', hok.toNumbered.reap hr.queue.nodup, ?_⟩
      exact ⟨c, hr.mem_reap_of_main hok hc hmain, hcur⟩
  | _ => exact absurd hon id

theorem Rep.ringFine_effect {V' : View} (hr : Rep k V) (hok : V.Ok) (h : Effect k V op V')
    (hkeeps : KeepsRing k op) (hV : V.RingFine) : V'.RingFine := by
  obtain ⟨hon, hkeeps⟩ := hkeeps
  obtain ⟨c, hc, hcur, hmain⟩ := hV.current
  -- only three events change the ring or the counter
  cases h with
  | idle hidle =>
      exact hV
  | addProcess hp =>
      constructor
      · rw [V.alive_addProcess hp]
        show V.queueSize + 1 = _
        rw [hV.queueSize]
        push_cast
        rfl
      · exact ⟨c, mem_insertSecond.mpr (.inr hc), hcur, hmain⟩
  -- the first kill of a process lowers both the counter and the number of the living
  | @removeProcess pid p hp hpid hguard =>
      have halive : p.val.state ≠ .DEAD := by
        intro hdead
        refine hkeeps ((hr.processIs_iff hok).mpr ?_)
        rw [← hpid, hok.processState_eq hp, hdead]
      have hcp : c ≠ p := by
        rintro rfl
        exact hguard (.inl (hpid.symm.trans hmain))
      constructor
      · have hkill := hr.alive_kill hp halive
        have hsize := hV.queueSize
        show V.queueSize - 1 = _
        omega
      · exact ⟨c, hr.mem_set_of_ne hp hc hcp, hcur, hmain⟩
  -- the removal takes the dead only, and never the first process
  | removeDeadProcess =>
      constructor
      · rw [View.alive_reap hr.queue.nodup]
        exact hV.queueSize
      · exact ⟨c, hr.mem_reap_of_main hok hc hmain, hcur, hmain⟩
  | _ => exact absurd hon id

/-! ## Runs -/

theorem Rep.ringFine (hr : Rep k V) (hV : V.RingFine) : k.RingFine := by
  have hprocess : (V.table.map ProcessView.node).map k.nodeProcess = V.table.map ProcessView.addr := by
    rw [List.map_map]
    apply List.map_congr_left
    intro p hp
    exact (hr.processes p hp).process
  have haddrs : (V.table.map ProcessView.addr).Nodup := hr.addrs_nodup
  refine ⟨⟨V.table.map ProcessView.node, hr.queue, hr.queue.nodup, ?_, ?_, ?_, ?_⟩, hr.freedOnce⟩
  · rw [hprocess]
    exact hr.created
  · rw [hprocess]
    exact haddrs
  · rw [hr.queueSize, hV.queueSize, View.alive, List.countP_map]
    apply congrArg
    apply List.countP_congr
    intro p hp
    have hrp := hr.processes p hp
    simp only [Function.comp, Kernel.nodeProcess, hrp.process, hrp.val]
  · intro n hn
    obtain ⟨p, hp, rfl⟩ := List.mem_map.mp hn
    have hblock : ∀ b ∈ p.blocks, k.Reserved b.1 := fun b hb =>
      hr.owns.reserved (Rep.mem_blocks hp hb)
    constructor
    · exact hblock (p.node, PAGE_SIZE) (by simp [ProcessView.blocks])
    · rw [Kernel.nodeProcess, (hr.processes p hp).process]
      exact hblock (p.addr, PAGE_SIZE) (by simp [ProcessView.blocks])

/-- In every run of events that keep the ring, the ring is fine. -/
theorem process_ring_kept (h : Reachable Booted (KernelStep KeepsRing) k) : k.RingFine := by
  obtain ⟨V, hr, -, hV⟩ : ∃ V, Rep k V ∧ V.Ok ∧ V.RingFine := by
    refine Reachable.invariant (I := fun k => ∃ V, Rep k V ∧ V.Ok ∧ V.RingFine) (fun k hk => ?_)
      (fun k k' _ hI hstep => ?_) h
    · obtain ⟨V, hr, hok, hboot⟩ := hk.rep
      exact ⟨V, hr, hok, hboot.ringFine⟩
    · obtain ⟨V, hr, hok, hV⟩ := hI
      obtain ⟨k₁, op, fuel, hrec, hkeeps, hrun⟩ := hstep
      have hr₁ := hr.recycled hrec
      obtain ⟨V', heffect, hr', hok'⟩ := hr₁.run_keepsRing hok hV hkeeps hrun
      exact ⟨V', hr', hok', hr₁.ringFine_effect hok heffect hkeeps hV⟩
  exact hr.ringFine hV

/-- `queueSize` is the number of living processes. -/
theorem Kernel.RingFine.queueSize_eq (h : k.RingFine) :
    k.queueSize = k.processes.countP fun a => (k.process a).state ≠ .DEAD := by
  obtain ⟨nodes, -, -, hperm, -, hsize, -⟩ := h.ring
  rw [hsize, hperm.countP_eq, List.countP_map]
  rfl

/-! ### A process that is killed twice -/

/-- Process `2` is created. -/
def addedOne : Except Stop Kernel := do
  KernelOp.runSound 40 [.addProcess 1 4 8] (← startKernel)

/-- Process `2` is killed, and once more. -/
def killedTwice : Except Stop (Kernel × Kernel × Kernel) := do
  let k ← addedOne
  let k₁ ← removeProcess 40 k 2
  let k₂ ← removeProcess 40 k₁ 2
  return (k, k₁, k₂)

theorem killedTwice_states : (do
    let (k, _, k₂) ← killedTwice
    return decide (k.processIs? 2 .READY ∧ k₂.queueSize = 1 ∧
      k₂.processes.countP (fun a => (k₂.process a).state ≠ .DEAD) = 2) : Except Stop Bool) = .ok true := by
  decide +kernel

theorem addedOne_reachable {k : Kernel} (h : addedOne = .ok k) {P : Kernel → KernelOp → Prop}
    (hP : ∀ k op, CleanProcess k → op = .addProcess 1 4 8 → P k op) :
    Reachable Booted (KernelStep P) k := by
  obtain ⟨k₀, hk₀, hrun⟩ := bind_eq_ok.mp h
  refine Reachable.runSound (P := fun op => op = .addProcess 1 4 8) (f := id) ?_ ?_
    (.start (booted_of_start hk₀)) hrun
  · rintro k k' ⟨k₁, op, fuel, hrec, ⟨hs, rfl⟩, hstep⟩
    exact ⟨k₁, .addProcess 1 4 8, fuel, hrec, hP k₁ _ hs rfl, hstep⟩
  · exact fun op hop => List.mem_singleton.mp hop

/-- A process is created and killed once. -/
theorem process_ring_kept_once : ∃ k k', removeProcess 40 k 2 = .ok k' ∧ k'.RingFine := by
  obtain ⟨r, hr, h⟩ := bind_eq_ok.mp killedTwice_states
  obtain ⟨k, hk, hr⟩ := bind_eq_ok.mp hr
  obtain ⟨k₁, hk₁, hr⟩ := bind_eq_ok.mp hr
  obtain ⟨k₂, -, hr⟩ := bind_eq_ok.mp hr
  obtain rfl := Except.ok.inj hr
  obtain ⟨hready, -⟩ := of_decide_eq_true (Except.ok.inj h)
  have hrun : Reachable Booted (KernelStep KeepsRing) k :=
    addedOne_reachable hk fun k op hclean hop => by
      rw [hop]
      exact ⟨trivial, hclean⟩
  have halive : ¬ k.ProcessIs 2 .DEAD := fun hdead => by
    cases (Kernel.processIs_of hready).unique hdead
  refine ⟨k, k₁, hk₁, process_ring_kept (hrun.next ?_)⟩
  exact ⟨k, .removeProcess 2, 40, .refl k, ⟨(by decide : (1 : Int) < 2), halive⟩, hk₁⟩

/-- The second kill of a process is counted like the first. -/
theorem killed_twice_counted : ¬ ∀ k, Reachable Booted (KernelStep fun _ op => op.OnRing) k →
    k.RingFine := by
  intro hclaim
  obtain ⟨r, hr, h⟩ := bind_eq_ok.mp killedTwice_states
  obtain ⟨k, hk, hr⟩ := bind_eq_ok.mp hr
  obtain ⟨k₁, hk₁, hr⟩ := bind_eq_ok.mp hr
  obtain ⟨k₂, hk₂, hr⟩ := bind_eq_ok.mp hr
  obtain rfl := Except.ok.inj hr
  obtain ⟨-, hsize, hcount⟩ := of_decide_eq_true (Except.ok.inj h)
  have hrun : Reachable Booted (KernelStep fun _ op => op.OnRing) k :=
    addedOne_reachable hk fun k op _ hop => by
      rw [hop]
      trivial
  have hon : KernelOp.OnRing (.removeProcess 2) := (by decide : (1 : Int) < 2)
  have hrun₁ : Reachable Booted (KernelStep fun _ op => op.OnRing) k₁ :=
    hrun.next ⟨k, .removeProcess 2, 40, .refl k, hon, hk₁⟩
  have hfine := hclaim k₂ (hrun₁.next ⟨k₁, .removeProcess 2, 40, .refl k₁, hon, hk₂⟩)
  have heq := hfine.queueSize_eq
  rw [hsize, hcount] at heq
  cases heq

end BasicKernel
