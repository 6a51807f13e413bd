import BasicKernel.Scheduling.Blocking

set_option autoImplicit false

/-! # Runs in which nothing is killed

Where no process is dead the removal of the dead removes nobody, so ticks and yields are sound. Only
the two kills make a process dead.
-/

namespace BasicKernel

open Keyed Fuel Transition

/-- No process is dead. -/
def View.Alive (V : View) : Prop := ∀ p ∈ V.table, p.val.state ≠ .DEAD

def KernelOp.Kills : KernelOp → Prop
  | removeProcess _ => True
  | removeThread _ _ => True
  | _ => False

variable {k : Kernel} {V V' : View} {op : KernelOp}

theorem View.AtBoot.alive (h : V.AtBoot) : V.Alive := by
  intro p hp
  obtain ⟨entryPoint, pid, hcreated⟩ := h.created hp
  simp [hcreated.state]

/-! ## Events that keep everybody alive

A block, a wake-up and a switch give no process the state `T_DEAD`. -/

theorem View.Alive.set {p p' : ProcessView} (h : V.Alive) (hp' : p'.val.state ≠ .DEAD) :
    (V.set p p').Alive := View.forall_set h hp'

theorem ProcessView.block_alive {p : ProcessView} (t : Addr) {ty : ThreadState}
    (hty : isThreadBlocked ty) (h : p.val.state ≠ .DEAD) : (p.block t ty).val.state ≠ .DEAD := by
  rw [block_state]
  split
  · cases ty with
    | T_BLOCKED_IO => decide
    | T_BLOCKED_MUTEX => decide
    | T_BLOCKED_PIPE => decide
    | _ => cases hty
  · exact h

theorem View.Alive.blocked {p : ProcessView} {t : ThreadView} {ty : ThreadState} (h : V.Alive)
    (hb : V.Blocked p t ty V') (hp : p ∈ V.table) (hty : isThreadBlocked ty) : V'.Alive := by
  have hset : (V.set p (p.block t.addr ty)).Alive := h.set (p.block_alive t.addr hty (h p hp))
  intro q hq
  rw [hb.table] at hq
  exact hset q hq

theorem WakeAll.alive {ws : List WaiterView} (h : WakeAll ws V V') : V.Alive → V'.Alive := by
  induction h with
  | nil => exact id
  | @cons _ _ V _ p t hp _ _ _ _ ih =>
      exact fun halive => ih (halive.set (p.unblock_alive t _ (halive p hp)))

theorem WakeReceiver.alive {pid : Int} (h : WakeReceiver pid V V') : V.Alive → V'.Alive := by
  induction h with
  | nil => exact id
  | @cons V _ p hp _ _ ih =>
      exact fun halive => ih (halive.set (p.unblockAll_alive _ (halive p hp)))

theorem Scheduled.alive (hnd : (V.table.map ProcessView.node).Nodup) (h : Scheduled V V')
    (halive : V.Alive) : V'.Alive := by
  cases h with
  | @count c hc _ _ _ =>
      have hset : (V.set c (c.setTick (c.val.threadTick + 1))).Alive := halive.set (halive c hc)
      exact hset
  | @thread c t u hc _ _ _ _ _ _ =>
      have hset : (V.set c ((c.setTick 0).switchThread t u)).Alive := by
        refine halive.set ?_
        rw [ProcessView.switchThread_val]
        exact halive c hc
      exact hset
  | @process s _ _ =>
      intro p hp
      obtain ⟨q, hq, rfl⟩ := List.mem_map.mp hp
      split
      · exact ProcessState.noConfusion
      · exact ProcessView.pause_alive _ (halive q (View.mem_of_mem_reap hnd hq))

theorem Yielded.alive {c : ProcessView} {t : ThreadView} (hr : Rep k V) (h : Yielded V c t V')
    (hc : c ∈ V.table) (halive : V.Alive) : V'.Alive := by
  cases h with
  | process _ hs => exact Scheduled.alive (V := { V with ticks := QUANTUM }) hr.queue.nodup hs halive
  | thread _ _ hs =>
      obtain ⟨k₁, -, hr₁⟩ := hr.setTick hc THREAD_QUANTUM
      exact hs.alive hr₁.queue.nodup (halive.set (halive c hc))
  | stay _ _ => exact halive

/-- Whoever is dead was killed. -/
theorem Rep.alive_effect (hr : Rep k V) (h : Effect k V op V') (hs : Sound k op)
    (hop : ¬ op.Kills) (halive : V.Alive) : V'.Alive := by
  have hlocks : ∀ κ (ls : List LockView), (V.setLocks κ ls).Alive := by
    intro κ ls p hp
    rw [View.setLocks_table] at hp
    exact halive p hp
  have hlock : ∀ {κ l l'} {V₁ : View}, V₁.Alive → (V₁.setLock κ l l').Alive := by
    intro κ l l' V₁ h₁ p hp
    rw [View.setLock_table] at hp
    exact h₁ p hp
  -- one case for each effect: the state `DEAD` is stored by the two kills only
  cases h with
  | idle _ => exact halive
  | @tick _ rsp c t _ hc ht hccur htcur hsched =>
      obtain ⟨k₁, -, hr₁⟩ := hr.saveStack hc hccur ht htcur rsp
      exact hsched.alive hr₁.queue.nodup (halive.set (halive c hc))
  | @yield _ rsp c t _ hc ht hccur htcur hyield =>
      obtain ⟨k₁, -, hr₁⟩ := hr.saveStack hc hccur ht htcur rsp
      exact hyield.alive hr₁ (View.mem_set hc _) (halive.set (halive c hc))
  | @addProcess _ _ _ p hp =>
      intro q hq
      rcases mem_insertSecond.mp hq with rfl | hq
      · simp [hp.state]
      · exact halive q hq
  | @addThread _ _ _ p _ hp _ _ => exact halive.set (halive p hp)
  | removeProcess _ _ _ => exact absurd trivial hop
  | removeThread _ _ _ _ _ _ => exact absurd trivial hop
  | removeDeadProcess => exact fun p hp => halive p (View.mem_of_mem_reap hr.queue.nodup hp)
  | @blockThread _ _ ty p t hp _ _ _ => exact halive.blocked (.of_block V p t ty) hp hs
  | @unblockThread _ _ ty p t hp _ _ _ => exact halive.set (p.unblock_alive t ty (halive p hp))
  | @unblockAllThreads _ ty p hp _ => exact halive.set (p.unblockAll_alive ty (halive p hp))
  | createMutex _ _ _ => exact halive
  | createSemaphore _ _ _ => exact halive
  | mutexUp _ hunlock =>
      obtain ⟨V₁, hwake, rfl⟩ := hunlock
      exact hlock (hwake.alive halive)
  | mutexWait _ _ hwait =>
      obtain ⟨p, hp, t, _, _, hblocked⟩ := hwait.blocked
      exact halive.blocked hblocked hp rfl
  | mutexTake _ _ => exact hlock halive
  | mutexDestroy _ _ => exact hlocks _ _
  | semaphoreCount _ _ => exact hlock halive
  | semaphoreUp _ _ hunlock =>
      obtain ⟨V₁, hwake, rfl⟩ := hunlock
      exact hlock (hwake.alive halive)
  | semaphoreWait _ _ hwait =>
      obtain ⟨p, hp, t, _, _, hblocked⟩ := hwait.blocked_of_setLock
      exact halive.blocked hblocked hp rfl
  | semaphoreTake _ _ => exact hlock halive
  | semaphoreDestroy _ _ => exact hlocks _ _
  | send _ hwake => exact hwake.alive halive
  | @receive _ _ _ _ _ p t _ _ hp _ _ _ => exact halive.blocked (.of_block V p t _) hp rfl
  | @pmalloc _ c _ hc _ _ => exact halive.set (halive c hc)
  | @pfree _ c _ _ _ hc _ _ _ => exact halive.set (halive c hc)

/-! ## Sound events without a condition on the dead -/

/-- `Sound`, where nobody is dead. -/
def SoundAlive (k : Kernel) : KernelOp → Prop
  | .tick _ _ => True
  | .yield _ _ => True
  | .removeDeadProcess _ => False
  | op => ¬ op.Kills ∧ Sound k op

theorem SoundAlive.not_kills (h : SoundAlive k op) : ¬ op.Kills := by
  cases op with
  | removeProcess _ => exact absurd trivial h.1
  | removeThread _ _ => exact absurd trivial h.1
  | _ => exact not_false

theorem SoundAlive.sound (hr : Rep k V) (halive : V.Alive) (h : SoundAlive k op) : Sound k op := by
  have hall : ∀ V', Rep k V' → V'.Alive := by
    intro V' hr' p hp
    have hmem : p.addr ∈ V.table.map ProcessView.addr :=
      (hr'.created.symm.trans hr.created).mem_iff.mp (List.mem_map_of_mem hp)
    obtain ⟨q, hq, haddr⟩ := List.mem_map.mp hmem
    rw [← (hr'.processes p hp).val, ← haddr, (hr.processes q hq).val]
    exact halive q hq
  cases op with
  | tick garbage _ => exact fun V' hr' _ => View.reapSafe_of_alive (hall V' hr') garbage
  | yield garbage _ => exact fun V' hr' _ => View.reapSafe_of_alive (hall V' hr') garbage
  | removeDeadProcess _ => exact h.elim
  | _ => exact h.2

end BasicKernel
