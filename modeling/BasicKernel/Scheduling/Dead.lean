import BasicKernel.Scheduling.Blocking

set_option autoImplicit false

/-! # Dead processes and threads

Whether a process that is dead stays so until it is removed, and a dead thread until it is freed.
Numbers are not used twice, so a process or thread that is gone does not come back.

What can bring the dead back is a block: `blockThread` and `blockProcess` store their state
without looking at the one that is there. `dead_is_final` excludes these calls by a condition on
the state before, and `dead_process_blocked` is a run in which a read revives a killed process.
-/

namespace BasicKernel

open Keyed Fuel Transition

/-- The state named by a call that makes threads ready is one of the blocked states. -/
def KernelOp.WakesBlocked : KernelOp → Prop
  | unblockThread _ _ ty => isThreadBlocked ty
  | unblockAllThreads _ ty => isThreadBlocked ty
  | _ => True

/-- A sound event that blocks no dead thread, and no thread of a dead process unless another thread
of it is ready. -/
def SparesDead (k : Kernel) (op : KernelOp) : Prop :=
  Sound k op ∧ op.WakesBlocked ∧ ∀ τ, op.Blocks k τ → ¬ k.ThreadIs τ .T_DEAD ∧
    (k.ProcessIs τ.1 .DEAD → k.OtherReady τ)

/-- The process is dead, or was removed. -/
def View.ProcessDead (V : View) (pid : Int) : Prop :=
  V.processState pid = some .DEAD ∨ V.processState pid = none ∧ pid < V.nextPid

/-- The thread is dead, or was freed with its process. -/
def View.ThreadDead (V : View) (τ : ThreadId) : Prop :=
  V.threadState τ = some .T_DEAD ∨ V.processState τ.1 = none ∧ τ.1 < V.nextPid

structure View.KeepsDead (V V' : View) : Prop where
  process : ∀ pid, V.ProcessDead pid → V'.ProcessDead pid
  thread : ∀ τ, V.ThreadDead τ → V'.ThreadDead τ

variable {k k' : Kernel} {V V' : View} {op : KernelOp}

/-! ## Changes that keep the dead

A change keeps the dead when it gives neither a dead process nor a dead thread another state. New
numbers are above all that were used, so nothing dead comes back under its number. -/

theorem View.KeepsDead.of_maps (hnext : V'.nextPid = V.nextPid)
    (hprocess : ∀ pid, V'.processState pid = V.processState pid ∨
      ∃ s, V.processState pid = some s ∧ (s = .DEAD → V'.processState pid = some .DEAD))
    (hthread : ∀ τ, V.threadState τ = some .T_DEAD → V'.threadState τ = some .T_DEAD) :
    V.KeepsDead V' := by
  have hnone : ∀ pid, V.processState pid = none → V'.processState pid = none := by
    intro pid h
    rcases hprocess pid with heq | ⟨s, hs, -⟩
    · rw [heq, h]
    · rw [h] at hs
      cases hs
  constructor
  · rintro pid (hdead | ⟨hgone, hlt⟩)
    · left
      rcases hprocess pid with heq | ⟨s, hs, hkeep⟩
      · rw [heq, hdead]
      · rw [hdead] at hs
        exact hkeep (Option.some.inj hs).symm
    · exact .inr ⟨hnone pid hgone, by rw [hnext]; exact hlt⟩
  · rintro τ (hdead | ⟨hgone, hlt⟩)
    · exact .inl (hthread τ hdead)
    · exact .inr ⟨hnone τ.1 hgone, by rw [hnext]; exact hlt⟩

theorem View.KeepsDead.of_eq (hnext : V'.nextPid = V.nextPid)
    (hprocess : V'.processState = V.processState) (hthread : V'.threadState = V.threadState) :
    V.KeepsDead V' :=
  .of_maps hnext (fun pid => .inl (congrFun hprocess pid)) fun τ h => by rw [hthread, h]

/-- One process, and one thread of it, get new states. -/
theorem View.KeepsDead.of_update (hnext : V'.nextPid = V.nextPid) {τ : ThreadId}
    {s s' : ProcessState} {u u' : ThreadState} (hs : V.processState τ.1 = some s)
    (hu : V.threadState τ = some u)
    (hprocess : V'.processState = Function.update V.processState τ.1 (some s'))
    (hthread : V'.threadState = Function.update V.threadState τ (some u'))
    (hs' : s = .DEAD → s' = .DEAD) (hu' : u = .T_DEAD → u' = .T_DEAD) : V.KeepsDead V' := by
  apply View.KeepsDead.of_maps hnext
  · intro pid
    rw [hprocess]
    by_cases hpid : pid = τ.1
    · subst hpid
      rw [Function.update_self]
      exact .inr ⟨s, hs, fun h => by rw [hs' h]⟩
    · exact .inl (Function.update_of_ne hpid _ _)
  · intro σ hσ
    rw [hthread]
    by_cases hστ : σ = τ
    · subst hστ
      rw [hu] at hσ
      rw [Function.update_self, hu' (Option.some.inj hσ)]
    · rw [Function.update_of_ne hστ, hσ]

theorem View.Numbered.lt_of_processState {pid : Int} (h : V.Numbered) {s : ProcessState}
    (hs : V.processState pid = some s) : pid < V.nextPid := by
  obtain ⟨p, hp, rfl, -⟩ := h.processState_some.mp hs
  exact (h.pid_lt p hp).2

/-- A switch removes dead processes with their threads, and keeps the others. -/
theorem Switched.keepsDead {gone : Int → Prop} (h : Switched gone V V') (hok : V.Numbered)
    (hnext : V'.nextPid = V.nextPid) : V.KeepsDead V' := by
  have hnone : ∀ {pid : Int}, V'.find pid = none → V'.processState pid = none := fun hfind => by
    rw [View.processState, hfind, Option.map_none]
  have hkept : ∀ pid, V.processState pid = none → V'.processState pid = none := by
    intro pid hpid
    rcases h.processes pid with ⟨-, hfind⟩ | hmoved
    · exact hnone hfind
    · rw [hpid] at hmoved
      generalize V'.processState pid = b at hmoved
      cases hmoved
      rfl
  constructor
  · rintro pid (hdead | ⟨hgone, hlt⟩)
    · rcases h.processes pid with ⟨-, hfind⟩ | hmoved
      · exact .inr ⟨hnone hfind, by rw [hnext]; exact hok.lt_of_processState hdead⟩
      · exact .inl ((hmoved.eq_of_asleep rfl).mp hdead)
    · exact .inr ⟨hkept pid hgone, by rw [hnext]; exact hlt⟩
  · rintro τ (hdead | ⟨hgone, hlt⟩)
    · rcases h.threads τ with ⟨-, hfind⟩ | hmoved
      · obtain ⟨p, hp, t, -, rfl, -⟩ := hok.threadState_some.mp hdead
        exact .inr ⟨hnone hfind, by rw [hnext]; exact (hok.pid_lt p hp).2⟩
      · exact .inl ((hmoved.eq_of_asleep rfl).mp hdead)
    · exact .inr ⟨hkept τ.1 hgone, by rw [hnext]; exact hlt⟩

namespace Rep

variable {p : ProcessView} {t : ThreadView} {ty : ThreadState}

/-- A block of a living thread. -/
theorem keepsDead_block (hr : Rep k V) (hok : V.Ok) (hp : p ∈ V.table) (ht : t ∈ p.threads)
    (h : V.Blocked p t ty V') (halive : ¬ k.ThreadIs (p.val.pid, t.val.pthread) .T_DEAD)
    (hprocess : k.ProcessIs p.val.pid .DEAD → k.OtherReady (p.val.pid, t.val.pthread)) :
    V.KeepsDead V' := by
  have hs := hok.processState_eq hp
  have hu := hok.threadState_eq hp ht
  refine .of_update (τ := (p.val.pid, t.val.pthread)) h.nextPid hs hu
    ((View.processState_congr h.table).trans (hr.processState_block hok hp t.addr ty))
    ((View.threadState_congr h.table).trans (hr.threadState_block hok hp ht ty)) ?_ ?_
  · intro hdead
    have hready := hprocess ((hr.processIs_iff hok).mpr (by rw [hs, hdead]))
    rw [hr.noneReady_of_otherReady hok hp ht hready ty, if_neg Bool.false_ne_true, hdead]
  · intro hdead
    exact absurd ((hr.threadIs_iff hok).mpr (by rw [hu, hdead])) halive

theorem keepsDead_unlocks (hr : Rep k V) (hok : V.Ok) {κ : LockKind} {l : LockView} {status : Int}
    (h : V.Unlocks κ l status V') : V.KeepsDead V' := by
  have hnext : V'.nextPid = V.nextPid := by
    obtain ⟨V₁, hwake, rfl⟩ := h
    rw [hwake.frame]
    cases κ <;> rfl
  obtain ⟨V₁, hwoken, hthread, hprocess, -⟩ := hr.unlocks hok h
  apply View.KeepsDead.of_maps hnext
  · intro pid
    rw [hprocess, hwoken.processes]
    split
    case isTrue hblocked => exact .inr ⟨_, hblocked.2, fun h => by cases h⟩
    case isFalse => exact .inl rfl
  · intro τ hdead
    rw [hthread, hwoken.threads, hdead, if_neg (by simp)]

/-- Every event that spares the dead keeps them. -/
theorem keepsDead_effect (hr : Rep k V) (hok : V.Ok) (h : Effect k V op V')
    (hreceive : ∀ name buff, op = .receive name buff → V' = V ∨ k.PipeEmpty name buff)
    (hspares : SparesDead k op) : V.KeepsDead V' := by
  obtain ⟨-, hwakes, hblocks⟩ := hspares
  have heffect := h
  -- one case for each effect; a state is stored over `DEAD` only by a block or a wake-up
  cases h with
  | idle _ => exact .of_eq rfl rfl rfl
  | tick _ _ _ _ hs =>
      exact (hr.switched_tick hok heffect).keepsDead hok.toNumbered (by rw [hs.frame]; rfl)
  | yield _ _ _ _ hy =>
      exact (hr.switched_yield hok heffect).keepsDead hok.toNumbered (by rw [hy.frame]; rfl)
  | removeDeadProcess =>
      exact (Switched.reap hok.toNumbered hr.queue.nodup).keepsDead hok.toNumbered rfl
  -- the new pid was never used, so nobody comes back
  | @addProcess _ _ _ p hp =>
      have hnew : V.nextPid < (V.addProcess p).nextPid := by
        show V.nextPid < V.nextPid + 1
        omega
      constructor
      · intro pid hpid
        rw [View.ProcessDead, hok.processState_addProcess hp]
        rcases hpid with hdead | ⟨hgone, hlt⟩
        · rw [Function.update_of_ne (hok.lt_of_processState hdead).ne]
          exact .inl hdead
        · rw [Function.update_of_ne hlt.ne]
          exact .inr ⟨hgone, hlt.trans hnew⟩
      · intro τ hτ
        rw [View.ThreadDead, hok.processState_addProcess hp, hok.threadState_addProcess hp]
        rcases hτ with hdead | ⟨hgone, hlt⟩
        · obtain ⟨q, hq, t, ht, rfl, -⟩ := hok.threadState_some.mp hdead
          have hlt := (hok.pid_lt q hq).2
          rw [Function.update_of_ne fun heq => hlt.ne (congrArg Prod.fst heq)]
          exact .inl hdead
        · rw [Function.update_of_ne hlt.ne]
          exact .inr ⟨hgone, hlt.trans hnew⟩
  -- the new pthread number was never used in its process
  | @addThread _ _ _ p t hp _ ht =>
      refine .of_maps rfl (fun pid => .inl ?_) fun τ hdead => ?_
      · rw [hr.processState_addThread hok hp]
      · obtain ⟨q, hq, u, hu, rfl, -⟩ := hok.threadState_some.mp hdead
        rw [hr.threadState_addThread hok hp ht, Function.update_of_ne, hdead]
        intro heq
        obtain ⟨hpid, hpthread⟩ := Prod.mk.inj heq
        obtain rfl := eq_of_key_eq hok.pids hq hp hpid
        exact ((hok.processes q hq).pthread_lt u hu).2.ne hpthread
  | @removeProcess _ p hp _ _ =>
      refine .of_maps rfl (fun pid => ?_) fun τ hdead => ?_
      · rw [hr.processState_kill hok hp]
        by_cases hpid : pid = p.val.pid
        · subst hpid
          rw [Function.update_self]
          -- the kill of a thread stores `T_DEAD`, and `DEAD` with the last one
          exact .inr ⟨_, hok.processState_eq hp, fun _ => rfl⟩
        · exact .inl (Function.update_of_ne hpid _ _)
      · rw [hr.threadState_kill hok hp, hdead]
  | @removeThread _ _ p t hp ht _ _ _ _ =>
      refine .of_update (τ := (p.val.pid, t.val.pthread)) ?_ (hok.processState_eq hp)
        (hok.threadState_eq hp ht) (hr.processState_killThread hok hp t.addr)
        (hr.threadState_killThread hok hp ht) (fun h => by rw [h, ite_self]) fun _ => rfl
      rw [View.killThread]
      split <;> rfl
  -- a wake-up for a type of block leaves a dead thread alone
  | @blockThread _ _ _ p t hp ht hpid hpthread =>
      obtain ⟨halive, hprocess⟩ := hblocks (p.val.pid, t.val.pthread) (by rw [hpid, hpthread]; rfl)
      exact hr.keepsDead_block hok hp ht (.of_block V p t _) halive hprocess
  | @unblockThread _ _ ty p t hp ht _ _ =>
      refine .of_update (τ := (p.val.pid, t.val.pthread)) rfl (hok.processState_eq hp)
        (hok.threadState_eq hp ht) (hr.processState_unblock hok hp t ty)
        (hr.threadState_unblock hok hp ht ty) (fun h => ?_) fun h => ?_
      · have hty : ProcessState.DEAD ≠ getBlockProcessType ty := by
          rintro heq
          cases ty <;> cases heq
          cases hwakes
        rw [h, if_neg hty]
      · have hty : ThreadState.T_DEAD ≠ ty := by
          rintro rfl
          cases hwakes
        rw [h, if_neg hty]
  | @unblockAllThreads _ ty p hp _ =>
      refine .of_maps rfl (fun pid => ?_) fun τ hdead => ?_
      · refine (hr.processState_unblockAll hok hp ty pid).imp_right fun hwoken => ?_
        refine ⟨_, hwoken.1, fun heq => ?_⟩
        cases ty <;> cases heq
        cases hwakes
      · rcases hr.threadState_unblockAll hok hp ty τ with heq | ⟨hblocked, -⟩
        · rw [heq, hdead]
        · rw [hdead] at hblocked
          obtain rfl := Option.some.inj hblocked
          cases hwakes
  | createMutex _ _ _ => exact .of_eq rfl (by simp) (by simp)
  | createSemaphore _ _ _ => exact .of_eq rfl (by simp) (by simp)
  | mutexUp _ hunlock => exact hr.keepsDead_unlocks hok hunlock
  | mutexWait hl hstatus hwait =>
      obtain ⟨p, hp, t, ht, hcur, hblocked⟩ := hwait.blocked
      obtain ⟨halive, hprocess⟩ := hblocks _ (hr.blocks_mutexDown hok hl hstatus hcur)
      exact hr.keepsDead_block hok hp ht hblocked halive hprocess
  | mutexTake _ _ => exact .of_eq rfl (by simp) (by simp)
  | mutexDestroy _ _ => exact .of_eq rfl (by simp) (by simp)
  | semaphoreCount _ _ => exact .of_eq rfl (by simp) (by simp)
  | semaphoreUp _ _ hunlock => exact hr.keepsDead_unlocks hok hunlock
  | semaphoreWait hl hstatus hwait =>
      obtain ⟨p, hp, t, ht, hcur, hblocked⟩ := hwait.blocked_of_setLock
      obtain ⟨halive, hprocess⟩ := hblocks _ (hr.blocks_semaphoreDown hok hl hstatus hcur)
      -- the receiver's threads are woken only from `T_BLOCKED_PIPE`
      exact hr.keepsDead_block hok hp ht hblocked halive hprocess
  | semaphoreTake _ _ => exact .of_eq rfl (by simp) (by simp)
  | semaphoreDestroy _ _ => exact .of_eq rfl (by simp) (by simp)
  | send _ hwake =>
      obtain ⟨-, -, -, hthreads, hprocesses⟩ := wakeReceiver hwake hr hok
      refine .of_maps (by rw [hwake.frame]) (fun pid => ?_) fun τ hdead => ?_
      · refine (hprocesses pid).imp_right fun hwoken => ⟨_, hwoken.1, fun heq => ?_⟩
        cases heq
      · rcases hthreads τ with heq | ⟨hblocked, -⟩
        · rw [heq, hdead]
        · rw [hdead] at hblocked
          cases hblocked
  | @receive _ _ fuel _ _ p t hreceiver hpthread hp ht hppid htpthread =>
      rcases hreceive _ _ rfl with heq | hempty
      · rw [heq]
        exact .of_eq rfl rfl rfl
      · obtain ⟨halive, hprocess⟩ := hblocks (p.val.pid, t.val.pthread)
          ⟨hempty, ⟨fuel, by rw [hreceiver, hppid]⟩, by rw [hpthread, htpthread]⟩
        exact hr.keepsDead_block hok hp ht (.of_block V p t _) halive hprocess
  | @pmalloc _ c b hc _ _ =>
      obtain ⟨hthread, hprocess⟩ :=
        hr.states_set hok hc (c.setHeap (c.heap ++ [b])) rfl rfl rfl
      exact .of_eq rfl hprocess hthread
  | @pfree _ c b A B hc _ _ _ =>
      obtain ⟨hthread, hprocess⟩ := hr.states_set hok hc (c.setHeap (A ++ B)) rfl rfl rfl
      exact .of_eq rfl hprocess hthread

end Rep

/-! ## Dead is final -/

/-- The dead of the first state of a run are dead or gone in its last state. -/
theorem keepsDead_run (hr : Rep k V) (hok : V.Ok)
    (h : Relation.ReflTransGen (KernelStep SparesDead) k k') :
    ∃ V', Rep k' V' ∧ V'.Ok ∧ V.KeepsDead V' := by
  induction h with
  | refl => exact ⟨V, hr, hok, fun _ h => h, fun _ h => h⟩
  | tail _ hstep ih =>
      obtain ⟨V₁, hr₁, hok₁, hkeeps₁⟩ := ih
      obtain ⟨k₂, op, fuel, hrec, hspares, hrun⟩ := hstep
      have hr₂ := hr₁.recycled hrec
      obtain ⟨V', heffect, hr', hok', hreceive⟩ := hr₂.run_inv_receive hok₁ hspares.1 hrun
      have hkeeps := hr₂.keepsDead_effect hok₁ heffect hreceive hspares
      exact ⟨V', hr', hok', fun pid h => hkeeps.process pid (hkeeps₁.process pid h),
        fun τ h => hkeeps.thread τ (hkeeps₁.thread τ h)⟩

/-- While no call blocks the dead, a dead process stays dead until it is removed, and a dead thread
until it is freed. -/
theorem dead_is_final (h : Run Sound k)
    (hrun : Relation.ReflTransGen (KernelStep SparesDead) k k') :
    (∀ pid s, k.ProcessIs pid .DEAD → k'.ProcessIs pid s → s = .DEAD) ∧
      ∀ τ s, k.ThreadIs τ .T_DEAD → k'.ThreadIs τ s → s = .T_DEAD := by
  obtain ⟨V, hr, hok⟩ := h.rep
  obtain ⟨V', hr', hok', hkeeps⟩ := keepsDead_run hr hok hrun
  constructor
  · intro pid s hdead hs
    rw [hr.processIs_iff hok] at hdead
    rw [hr'.processIs_iff hok'] at hs
    rcases hkeeps.process pid (.inl hdead) with hstill | ⟨hgone, -⟩
    · exact Option.some.inj (hs.symm.trans hstill)
    · rw [hgone] at hs
      cases hs
  · intro τ s hdead hs
    rw [hr.threadIs_iff hok] at hdead
    rw [hr'.threadIs_iff hok'] at hs
    rcases hkeeps.thread τ (.inl hdead) with hstill | ⟨hgone, -⟩
    · exact Option.some.inj (hs.symm.trans hstill)
    · obtain ⟨p, hp, t, -, rfl, -⟩ := hok'.threadState_some.mp hs
      rw [hok'.processState_eq hp] at hgone
      cases hgone

/-! ### A dead process is blocked -/

/-- A third process is made and killed. Then either somebody reads from a pipe to it, or the timer
ticks. -/
def killedReader : Except Stop (Kernel × Kernel × Addr × Kernel) := do
  let k₀ ← KernelOp.runSound 40 [.addProcess 1 4 8] (← startKernel)
  let (name, k₁) ← do_pipe 40 k₀ 0 2
  let k₂ ← removeProcess 40 k₁ 2
  let k₃ ← readFromPipe 40 k₂ name 0x20000000
  let r ← processSwitch 40 nullGarbage k₂ 8
  return (k₂, k₃, r)

theorem killedReader_states : (do
    let r ← killedReader
    let (k₂, k₃, _) := r
    return decide (k₂.processIs? 2 .DEAD ∧ k₂.numberOfTicks < QUANTUM ∧
      k₃.processIs? 2 ProcessState.BLOCKED_PIPE) : Except Stop Bool) = .ok true := by
  decide +kernel

theorem killedReader_reachable : ∃ k k₁ k₂, Run Sound k ∧ k.ProcessIs 2 .DEAD ∧
    (KernelStep Sound k k₁ ∧ k₁.ProcessIs 2 ProcessState.BLOCKED_PIPE) ∧
    KernelStep SparesDead k k₂ := by
  obtain ⟨r, hr, h⟩ := bind_eq_ok.mp killedReader_states
  rw [killedReader] at hr
  obtain ⟨k, hk, hr⟩ := bind_eq_ok.mp hr
  obtain ⟨k₀, hk₀, hr⟩ := bind_eq_ok.mp hr
  obtain ⟨⟨name, k₁⟩, hk₁, hr⟩ := bind_eq_ok.mp hr
  obtain ⟨k₂, hk₂, hr⟩ := bind_eq_ok.mp hr
  obtain ⟨k₃, hk₃, hr⟩ := bind_eq_ok.mp hr
  obtain ⟨⟨rsp, k₄⟩, hk₄, hr⟩ := bind_eq_ok.mp hr
  obtain rfl := Except.ok.inj hr
  obtain ⟨hdead, hticks, hblocked⟩ := of_decide_eq_true (Except.ok.inj h)
  have hrun₀ : Run Sound k₀ := Run.runSound (.start (booted_of_start hk)) hk₀
  have hpipe : (KernelOp.createPipe 0 2).run 40 k₀ = .ok k₁ := bind_eq_ok.mpr ⟨_, hk₁, rfl⟩
  have hrun₁ : Run Sound k₁ := hrun₀.step (.createPipe 0 2) trivial hpipe
  have hrun₂ : Run Sound k₂ := hrun₁.step (.removeProcess 2) trivial hk₂
  have hsound : Sound k₂ (.tick nullGarbage 8) := by
    intro V hr hfull
    rw [← hr.ticks] at hfull
    exact absurd hticks hfull
  refine ⟨k₂, k₃, k₄, hrun₂, Kernel.processIs_of hdead, ⟨?_, Kernel.processIs_of hblocked⟩, ?_⟩
  · exact ⟨k₂, .receive name 0x20000000, 40, .refl k₂, trivial, hk₃⟩
  · exact ⟨k₂, .tick nullGarbage 8, 40, .refl k₂, ⟨hsound, trivial, fun _ h => absurd h not_false⟩,
      bind_eq_ok.mpr ⟨_, hk₄, rfl⟩⟩

/-- The read makes the killed process a blocked one. -/
theorem dead_process_blocked : ¬ ∀ k k' : Kernel, Run Sound k →
    Relation.ReflTransGen (KernelStep Sound) k k' →
    (∀ pid s, k.ProcessIs pid .DEAD → k'.ProcessIs pid s → s = .DEAD) ∧
      ∀ τ s, k.ThreadIs τ .T_DEAD → k'.ThreadIs τ s → s = .T_DEAD := by
  intro hclaim
  obtain ⟨k, k₁, -, hrun, hdead, ⟨hread, hblocked⟩, -⟩ := killedReader_reachable
  have := (hclaim k k₁ hrun (.single hread)).1 2 _ hdead hblocked
  cases this

theorem dead_is_final_at_tick : ∃ k k', k.ProcessIs 2 .DEAD ∧ KernelStep SparesDead k k' ∧
    ∀ s, k'.ProcessIs 2 s → s = .DEAD := by
  obtain ⟨k, -, k₂, hrun, hdead, -, htick⟩ := killedReader_reachable
  exact ⟨k, k₂, hdead, htick, fun s hs => (dead_is_final hrun (.single htick)).1 2 s hdead hs⟩

end BasicKernel
