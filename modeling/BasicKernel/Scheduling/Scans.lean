import BasicKernel.Scheduling.Manned

set_option autoImplicit false

/-! # The scans of the scheduler

Whether `runScheduler` and `yieldSwitch` end. They do in every run whose events leave somebody for the
scans to find.

The invariant is that of `Scheduling/Manned.lean`. `scans_end` says that then some node is found
by each of the two scans, so that the functions return.
-/

namespace BasicKernel

open Linked Keyed Fuel Transition

variable {k k' : Kernel} {V : View} {p c : ProcessView} {t : ThreadView}

/-! ## Runs -/

theorem Run.manned (h : Run KeepsScans k) : ∃ V, Rep k V ∧ V.Ok ∧ V.Manned ∧
    V.Obeys ProcessView.OneRuns RunsAtCurrent := by
  refine Reachable.invariant (I := fun k => ∃ V, Rep k V ∧ V.Ok ∧ V.Manned ∧
    V.Obeys ProcessView.OneRuns RunsAtCurrent) (fun k hk => ?_) (fun k k' _ hI hstep => ?_) h
  · obtain ⟨V, hr, hok, hboot⟩ := hk.rep
    exact ⟨V, hr, hok, hboot.manned hok, hboot.obeys oneRuns_rule⟩
  · obtain ⟨V, hr, hok, hV, hone⟩ := hI
    obtain ⟨k₁, op, fuel, hrec, hkeeps, hrun⟩ := hstep
    have hr₁ := hr.recycled hrec
    obtain ⟨V', heffect, hr', hok', hreceive⟩ := hr₁.run_inv_receive hok hkeeps.sound hrun
    exact ⟨V', hr', hok', hr₁.manned_effect hok heffect hreceive hkeeps hV,
      hr₁.obeys_effect oneRuns_rule hok hkeeps.sound heffect hone⟩

/-! ## The scans end -/

/-- Some thread is ready after the pause. -/
theorem ProcessView.exists_nextReady {u : ThreadView} (h : p.OneRuns)
    (hlibs : (p.threads.map ThreadView.lib).Nodup) (ht : t ∈ p.threads)
    (hcur : t.lib = p.val.currentThread) (hu : u ∈ p.threads) (hawake : u.val.state.awake) :
    ∃ v, p.nextReady t = some v := by
  have hready : ∃ v ∈ (p.pauseThread t).threads, v.val.state = .T_READY := by
    unfold ProcessView.pauseThread ProcessView.wakeThread
    have hstate : u.val.state = .T_READY ∨ u.val.state = .T_RUNNING := of_decide_eq_true hawake
    split
    case isTrue _ =>
        rcases hstate with hready | hrunning
        · refine ⟨_, mem_update.mpr ⟨u, hu, rfl⟩, ?_⟩
          split
          · rfl
          · exact hready
        · obtain rfl := eq_of_key_eq hlibs hu ht ((h u hu hrunning).trans hcur.symm)
          exact ⟨_, ProcessView.mem_setThread hu _, rfl⟩
    case isFalse hstopped =>
        refine ⟨u, hu, hstate.resolve_right fun hrunning => ?_⟩
        obtain rfl := eq_of_key_eq hlibs hu ht ((h u hu hrunning).trans hcur.symm)
        exact hstopped hrunning
  obtain ⟨v, hv, hstate⟩ := hready
  apply Option.isSome_iff_exists.mp
  exact List.find?_isSome.mpr ⟨v, mem_rotation.mpr hv, decide_eq_true hstate⟩

namespace Rep

theorem exists_nextProcess (hok : V.Ok) (hV : V.Manned) (hone : V.Obeys ProcessView.OneRuns RunsAtCurrent) :
    ∃ s, V.nextProcess = some s := by
  obtain ⟨pid, s, hs, hawake⟩ := hV.someone
  obtain ⟨p, hp, -, rfl⟩ := hok.processState_some.mp hs
  have hrun : p.runnable V.current := by
    have hstate : p.val.state = .READY ∨ p.val.state = .RUNNING := of_decide_eq_true hawake
    exact decide_eq_true (hstate.imp_right fun hrunning => ⟨hone.states p hp hrunning, hrunning⟩)
  apply Option.isSome_iff_exists.mp
  exact List.find?_isSome.mpr ⟨p, mem_rotation.mpr hp, hrun⟩

theorem exists_scheduled (hr : Rep k V) (hok : V.Ok) (hV : V.Manned)
    (hone : V.Obeys ProcessView.OneRuns RunsAtCurrent) : ∃ V', Scheduled V V' := by
  by_cases hticks : V.ticks < QUANTUM
  · obtain ⟨pid, ⟨c, hc, hcur, rfl⟩, hturn⟩ := hV.current
    obtain ⟨t, ht, htcur⟩ := (hr.processes c hc).exists_current
    by_cases htick : c.val.threadTick < THREAD_QUANTUM
    · exact ⟨_, .count hc hcur hticks htick⟩
    · obtain ⟨i, s, hs, hawake⟩ := hturn hticks
      rw [hok.threadState_of_mem hc] at hs
      obtain ⟨u, hu, -, rfl⟩ := (hok.processes c hc).exists_thread hs
      obtain ⟨v, hv⟩ := ProcessView.exists_nextReady (hone.processes c hc)
        (hr.processes c hc).ring.nodup ht htcur hu hawake
      exact ⟨_, .thread hc hcur ht htcur hticks htick hv⟩
  · obtain ⟨s, hs⟩ := exists_nextProcess hok hV hone
    exact ⟨_, .process hticks hs⟩

theorem exists_yielded (hr : Rep k V) (hok : V.Ok) (hV : V.Manned)
    (hone : V.Obeys ProcessView.OneRuns RunsAtCurrent) (hc : c ∈ V.table) :
    ∃ V', Yielded V c t V' := by
  cases hstop : c.stopped with
  | true =>
      obtain ⟨V', hs⟩ := (hr.setTicks QUANTUM).exists_scheduled (hok.setTicks _) hV.setTicks
        (hone.setTicks oneRuns_rule)
      exact ⟨V', .process hstop hs⟩
  | false =>
      cases hstop' : t.stopped with
      | true =>
          obtain ⟨k₁, -, hr₁⟩ := hr.setTick hc THREAD_QUANTUM
          have hok₁ := hr.ok_set hok hc ((hok.processes c hc).setTick THREAD_QUANTUM) rfl rfl id
          obtain ⟨V', hs⟩ := hr₁.exists_scheduled hok₁ (hr.manned_stop hok hV hc)
            (hone.stop oneRuns_rule hc)
          exact ⟨V', .thread hstop hstop' hs⟩
      | false => exact ⟨V, .stay hstop hstop'⟩

end Rep

/-- A process that the scan of `runScheduler` stops at. The current one is made ready before the scan if
it runs. -/
def Kernel.ReadyProcess (k : Kernel) : Prop :=
  ∃ pid, k.ProcessIs pid .READY ∨ k.ProcessIs pid .RUNNING ∧ getCurrentPid k = .ok pid

/-- A thread of the current process that the scan of `nextThread` stops at. The current one is made ready
before the scan if it runs. -/
def Kernel.ReadyThread (k : Kernel) : Prop :=
  ∃ τ : ThreadId, getCurrentPid k = .ok τ.1 ∧
    (k.ThreadIs τ .T_READY ∨ k.ThreadIs τ .T_RUNNING ∧ getCurrentPthread k = .ok τ.2)

namespace Rep

theorem readyProcess (hr : Rep k V) (hok : V.Ok) (hV : V.Manned)
    (hone : V.Obeys ProcessView.OneRuns RunsAtCurrent) : k.ReadyProcess := by
  obtain ⟨pid, s, hs, hawake⟩ := hV.someone
  obtain ⟨p, hp, rfl, rfl⟩ := hok.processState_some.mp hs
  have hstate : p.val.state = .READY ∨ p.val.state = .RUNNING := of_decide_eq_true hawake
  refine ⟨p.val.pid, ?_⟩
  rw [hr.processIs_iff hok, hr.processIs_iff hok, hs, Option.some_inj, Option.some_inj]
  refine hstate.imp_right fun hrunning => ⟨hrunning, ?_⟩
  exact hr.getCurrentPid hp (hone.states p hp hrunning)

theorem readyThread (hr : Rep k V) (hok : V.Ok) (hV : V.Manned)
    (hone : V.Obeys ProcessView.OneRuns RunsAtCurrent) (hticks : V.ticks < QUANTUM) : k.ReadyThread := by
  obtain ⟨pid, ⟨c, hc, hcur, rfl⟩, hturn⟩ := hV.current
  obtain ⟨i, s, hs, hawake⟩ := hturn hticks
  have hs' := hs
  rw [hok.threadState_of_mem hc] at hs'
  obtain ⟨u, hu, rfl, rfl⟩ := (hok.processes c hc).exists_thread hs'
  have hstate : u.val.state = .T_READY ∨ u.val.state = .T_RUNNING := of_decide_eq_true hawake
  refine ⟨(c.val.pid, u.val.pthread), hr.getCurrentPid hc hcur, ?_⟩
  rw [hr.threadIs_iff hok, hr.threadIs_iff hok, hs, Option.some_inj, Option.some_inj]
  refine hstate.imp_right fun hrunning => ⟨hrunning, ?_⟩
  exact hr.getCurrentPthread hc hcur hu (hone.processes c hc u hu hrunning)

end Rep

/-- While no event strands the process or the threads that a scan looks for, the scans end. -/
theorem scans_end (h : Run KeepsScans k) : k.ReadyProcess ∧
    (k.numberOfTicks < QUANTUM → k.ReadyThread) ∧
    (∀ garbage rsp, Sound k (.tick garbage rsp) → ∃ k', Returns (runScheduler · garbage k) k') ∧
    ∀ garbage rsp, Sound k (.yield garbage rsp) → ∃ k', Returns (yieldSwitch · garbage k) k' := by
  obtain ⟨V, hr, hok, hV, hone⟩ := h.manned
  refine ⟨hr.readyProcess hok hV hone, fun hticks => ?_, fun garbage rsp hs => ?_,
    fun garbage rsp hs => ?_⟩
  · exact hr.readyThread hok hV hone (hr.ticks ▸ hticks)
  · obtain ⟨V', hsched⟩ := hr.exists_scheduled hok hV hone
    obtain ⟨k', hret, -⟩ := hr.runScheduler_returns hok
      (hr.reapable_of_tick hs) hsched
    exact ⟨k', hret⟩
  · obtain ⟨c, hc, hcur⟩ := hok.current
    obtain ⟨t, ht, htcur⟩ := (hr.processes c hc).exists_current
    obtain ⟨V', hyield⟩ := hr.exists_yielded (t := t) hok hV hone hc
    have hsafe : c.stopped ∨ t.stopped ∧ ¬ V.ticks < QUANTUM → V.Reapable garbage := fun hstop =>
      hr.reapable_of_yield hs ⟨c, hc, t, ht, hcur, htcur, hstop⟩
    obtain ⟨k', hret, -⟩ := hr.yieldSwitch_returns hok hc hcur ht htcur hsafe hyield
    exact ⟨k', hret⟩

/-! ### A thread is killed, and another one blocked, woken and blocked again -/

/-- The events that block, wake and kill nothing. -/
def KernelOp.Quiet : KernelOp → Prop
  | tick _ _ => True
  | addProcess _ _ _ => True
  | addThread _ _ _ => True
  | _ => False

theorem KeepsScans.of_quiet {op : KernelOp} (hs : Sound k op) (hquiet : op.Quiet) : KeepsScans k op := by
  cases op with
  | tick | addProcess | addThread =>
      exact ⟨hs, fun _ h => h.elim, fun _ _ h => h.elim, fun _ h => h.elim, fun _ h => h.elim⟩
  | _ => exact hquiet.elim

theorem Run.scans_quiet {ops : List KernelOp} {fuel : Nat} (h : Run KeepsScans k)
    (hquiet : ∀ op ∈ ops, op.Quiet) (hrun : KernelOp.runSound fuel ops k = .ok k') : Run KeepsScans k' := by
  refine Reachable.runSound (P := KernelOp.Quiet) (f := id) (fun k k' hstep => ?_) hquiet h hrun
  obtain ⟨k₁, op, fuel, hrec, ⟨hs, hq⟩, hstep⟩ := hstep
  exact ⟨k₁, op, fuel, hrec, .of_quiet hs hq, hstep⟩

theorem Run.scans_step {op : KernelOp} {fuel : Nat} (h : Run KeepsScans k)
    (hkeeps : Sound k op → KeepsScans k op) (hrun : KernelOp.runSound fuel [op] k = .ok k') :
    Run KeepsScans k' := by
  obtain ⟨hs, k₁, hstep, hrest⟩ := KernelOp.runSound_cons hrun
  obtain rfl := Except.ok.inj hrest
  exact h.step op (hkeeps hs) hstep

/-- Process `2` loses its second thread, and its first one blocks twice. A block ends the quantum. -/
def busyQuantum : Except Stop (Kernel × Kernel × Kernel × Kernel × Kernel × Kernel) := do
  let k₀ ← startKernel
  let k₁ ← KernelOp.runSound 40 [.addProcess 1 4 8, .addThread 2 4 8] k₀
  let k₂ ← KernelOp.runSound 40 [.removeThread 2 1] k₁
  let k₃ ← KernelOp.runSound 40 [.blockThread 2 0 .T_BLOCKED_MUTEX] k₂
  let k₄ ← KernelOp.runSound 40 [.unblockThread 2 0 .T_BLOCKED_MUTEX] k₃
  let k ← KernelOp.runSound 40 [.blockThread 2 0 .T_BLOCKED_MUTEX] k₄
  return (k₀, k₁, k₂, k₃, k₄, k)

theorem busyQuantum_states : (do
    let (_, k₁, k₂, k₃, k₄, k) ← busyQuantum
    return decide ((∀ k ∈ [k₁, k₂, k₄], k.processIs? 0 .READY) ∧ k₁.threadIs? (2, 0) .T_READY ∧
      k₃.threadIs? (2, 0) .T_BLOCKED_MUTEX ∧ (KernelOp.tick nullGarbage 8).sound? k ∧
      ¬ k.numberOfTicks < QUANTUM ∧ k.processIs? 2 .BLOCKED_MUTEX ∧ k.threadIs? (2, 1) .T_DEAD) :
        Except Stop Bool) = .ok true := by
  decide +kernel

/-- The scan for a process passes the one that is blocked, and ends. -/
theorem scans_end_past_blocked : ∃ k k', Run KeepsScans k ∧ ¬ k.numberOfTicks < QUANTUM ∧
    k.ProcessIs 2 .BLOCKED_MUTEX ∧ k.ThreadIs (2, 1) .T_DEAD ∧
    Returns (runScheduler · nullGarbage k) k' := by
  obtain ⟨⟨k₀, k₁, k₂, k₃, k₄, k⟩, hbusy, h⟩ := bind_eq_ok.mp busyQuantum_states
  obtain ⟨hmain, hready, hasleep, hsound, hticks, hblocked, hdead⟩ := of_decide_eq_true (Except.ok.inj h)
  obtain ⟨k₀', hk₀, hbusy⟩ := bind_eq_ok.mp hbusy
  obtain ⟨k₁', hk₁, hbusy⟩ := bind_eq_ok.mp hbusy
  obtain ⟨k₂', hk₂, hbusy⟩ := bind_eq_ok.mp hbusy
  obtain ⟨k₃', hk₃, hbusy⟩ := bind_eq_ok.mp hbusy
  obtain ⟨k₄', hk₄, hbusy⟩ := bind_eq_ok.mp hbusy
  obtain ⟨k', hk, hbusy⟩ := bind_eq_ok.mp hbusy
  obtain ⟨rfl, rfl, rfl, rfl, rfl, rfl⟩ : k₀' = k₀ ∧ k₁' = k₁ ∧ k₂' = k₂ ∧ k₃' = k₃ ∧ k₄' = k₄ ∧
      k' = k := by
    simpa using Except.ok.inj hbusy
  -- process `0` may be chosen all the time
  have hother : ∀ k ∈ [k₁', k₂', k₄'], k.OtherAwake 2 := fun k hk =>
    ⟨0, by decide, .READY, Kernel.processIs_of (hmain k hk), by decide⟩
  have hblock : ∀ {k}, k.OtherAwake 2 → Sound k (.blockThread 2 0 .T_BLOCKED_MUTEX) →
      KeepsScans k (.blockThread 2 0 .T_BLOCKED_MUTEX) := by
    intro k hawake hs
    refine ⟨hs, fun τ hτ => ?_, fun _ _ h => h.elim, fun _ h => h.elim, fun _ h => h.elim⟩
    obtain rfl : τ = (2, 0) := hτ
    exact .inl hawake
  -- a thread is added, which no scan minds
  have hrun₁ : Run KeepsScans k₁' := by
    refine Run.scans_quiet (.start (booted_of_start hk₀)) (fun op hop => ?_) hk₁
    rcases List.mem_pair.mp hop with rfl | rfl <;> trivial
  -- process `2` has its first thread left
  have hrun₂ : Run KeepsScans k₂' := by
    refine hrun₁.scans_step (fun (hs : Sound k₁' (.removeThread 2 1)) =>
      ⟨hs, fun _ h => h.elim, fun _ _ h => h.elim, ?_, ?_⟩) hk₂
    · rintro pid ⟨rfl, -⟩
      exact hother k₁' List.mem_cons_self
    · rintro τ ⟨-, -, rfl⟩ -
      exact ⟨0, .T_READY, by decide, Kernel.threadIs_of hready, by decide⟩
  have hrun₃ : Run KeepsScans k₃' := hrun₂.scans_step (hblock (hother k₂' (by simp))) hk₃
  -- the thread that is woken was asleep
  have hrun₄ : Run KeepsScans k₄' := by
    refine hrun₃.scans_step (fun (hs : Sound k₃' (.unblockThread 2 0 .T_BLOCKED_MUTEX)) =>
      ⟨hs, fun _ h => h.elim, ?_, fun _ h => h.elim, fun _ h => h.elim⟩) hk₄
    rintro τ ty ⟨rfl, rfl⟩ -
    exact .inr ⟨(2, 0), ⟨rfl, rfl⟩, rfl, Kernel.threadIs_of hasleep⟩
  have hrun : Run KeepsScans k' := hrun₄.scans_step (hblock (hother k₄' (by simp))) hk
  obtain ⟨k₁, hret⟩ := (scans_end hrun).2.2.1 nullGarbage 8 (KernelOp.sound_of hsound)
  exact ⟨k', k₁, hrun, hticks, Kernel.processIs_of hblocked, Kernel.threadIs_of hdead, hret⟩

end BasicKernel
