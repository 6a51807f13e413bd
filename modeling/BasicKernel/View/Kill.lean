import BasicKernel.View.Block

set_option autoImplicit false

/-! # Killing on a view, and what a call that returned has done

Killing marks: the process gets the state `DEAD` and the thread `T_DEAD`, and the two counters
drop. The structures stay where they are until the scheduler removes them.

The second half turns the lemmas about calls around. A system call comes with any numbers, so a
lookup may find nothing and the call then goes through the null pointer. From a call that returned
it follows that the process and the thread were there.
-/

namespace BasicKernel

open Linked Keyed Fuel

/-! ## The operations

A killed process keeps its place in the table, and so does a killed thread in its process. -/

def View.kill (p : ProcessView) (V : View) : View :=
  { V.set p (p.setState .DEAD) with queueSize := V.queueSize - 1 }

/-- The thread at `t` is dead and no longer counted. -/
def ProcessView.loseThread (t : Addr) (p : ProcessView) : ProcessView :=
  (p.setThreadState t .T_DEAD).setVal fun v => { v with threadSize := v.threadSize - 1 }

/-- `removeThread`: the last counted thread takes the process with it. -/
def ProcessView.killThread (t : Addr) (p : ProcessView) : ProcessView :=
  (if p.val.threadSize = 1 then p.setState .DEAD else p).loseThread t

def View.killThread (p : ProcessView) (t : Addr) (V : View) : View :=
  { V.set p (p.killThread t) with
    queueSize := if p.val.threadSize = 1 then V.queueSize - 1 else V.queueSize }

/-! ## Numbers are kept

None of the operations changes a pid, a `pthread` or a counter of these, and the first thread of a
process is never killed alone. -/

namespace ProcessView.Ok

variable {p : ProcessView}

theorem setState (h : p.Ok) (s : ProcessState) : (p.setState s).Ok := h.setVal le_rfl rfl

theorem setThreadState (h : p.Ok) (t : Addr) {s : ThreadState} (hs : s ≠ .T_DEAD) :
    (p.setThreadState t s).Ok := h.setThread (fun _ => rfl) fun _ _ _ _ _ => hs

theorem block (h : p.Ok) (t : Addr) {ty : ThreadState} (hty : ty ≠ .T_DEAD) :
    (p.block t ty).Ok := by
  have h' : ((p.setThreadState t ty).setVal fun v => { v with threadTick := THREAD_QUANTUM }).Ok :=
    (h.setThreadState t hty).setVal le_rfl rfl
  rw [ProcessView.block]
  split
  · exact h'.setState _
  · exact h'

theorem unblock (h : p.Ok) (t : ThreadView) (ty : ThreadState) : (p.unblock t ty).Ok := by
  have h' : (p.wakeThread t ty).Ok := by
    rw [wakeThread]
    split
    · exact h.setThreadState _ (by decide)
    · exact h
  rw [ProcessView.unblock, wake]
  split
  · exact h'.setState _
  · exact h'

theorem unblockAll (h : p.Ok) (ty : ThreadState) : (p.unblockAll ty).Ok := by
  rw [ProcessView.unblockAll]
  generalize p.threads.take p.val.threadSize.toNat = ts
  induction ts generalizing p with
  | nil => exact h
  | cons t ts ih =>
      refine ih ?_
      rw [unblockIf]
      split
      · exact h.unblock t ty
      · exact h

theorem loseThread (h : p.Ok) {t : ThreadView} (hmain : t.val.pthread ≠ 0)
    (hunique : ∀ u ∈ p.threads, u.addr = t.addr → u = t) : (p.loseThread t.addr).Ok := by
  have h' : (p.setThreadState t.addr .T_DEAD).Ok := by
    refine h.setThread (fun _ => rfl) fun u hu hua h0 _ => ?_
    exact absurd (hunique u hu hua ▸ h0) hmain
  refine h'.setVal ?_ rfl
  show p.val.threadSize - 1 ≤ p.val.threadSize
  omega

theorem killThread (h : p.Ok) {t : ThreadView} (hmain : t.val.pthread ≠ 0)
    (hunique : ∀ u ∈ p.threads, u.addr = t.addr → u = t) : (p.killThread t.addr).Ok := by
  rw [ProcessView.killThread]
  split
  · exact (h.setState .DEAD).loseThread hmain hunique
  · exact h.loseThread hmain hunique

end ProcessView.Ok

theorem ProcessView.sameFrame_block (p : ProcessView) (t : Addr) (ty : ThreadState) :
    p.SameFrame (p.block t ty) := by
  have h : p.SameFrame ((p.setThreadState t ty).setVal fun v =>
      { v with threadTick := THREAD_QUANTUM }) := ⟨rfl, rfl, rfl, p.setThread_libs _ _, rfl⟩
  rw [block]
  split
  · exact h.trans (sameFrame_setState _ _)
  · exact h

theorem ProcessView.sameFrame_unblockAll (p : ProcessView) (ty : ThreadState) :
    p.SameFrame (p.unblockAll ty) := by
  rw [unblockAll]
  generalize p.threads.take p.val.threadSize.toNat = ts
  induction ts generalizing p with
  | nil => exact .refl p
  | cons t ts ih =>
      refine SameFrame.trans ?_ (ih _)
      rw [unblockIf]
      split
      · exact p.sameFrame_unblock t ty
      · exact .refl p

/-- The state of a process after `block`. -/
theorem ProcessView.block_state (p : ProcessView) (t : Addr) (ty : ThreadState) :
    (p.block t ty).val.state =
      if (p.block t ty).noneReady then getBlockProcessType ty else p.val.state := by
  rw [noneReady_block, block]
  split <;> rfl

/-- The state of a process after `wake`. -/
theorem ProcessView.wake_state (p : ProcessView) (s : ProcessState) :
    (p.wake s).val.state = if p.val.state = s then .READY else p.val.state := by
  rw [wake]
  split <;> rfl

theorem ProcessView.wakeThread_val (p : ProcessView) (t : ThreadView) (ty : ThreadState) :
    (p.wakeThread t ty).val = p.val := by
  rw [wakeThread]
  split <;> rfl

/-- Waking kills no process. -/
theorem ProcessView.unblock_alive {p : ProcessView} (t : ThreadView) (ty : ThreadState)
    (h : p.val.state ≠ .DEAD) : (p.unblock t ty).val.state ≠ .DEAD := by
  rw [unblock, wake_state, wakeThread_val]
  split
  · decide
  · exact h

theorem ProcessView.unblockAll_alive {p : ProcessView} (ty : ThreadState)
    (h : p.val.state ≠ .DEAD) : (p.unblockAll ty).val.state ≠ .DEAD := by
  rw [unblockAll]
  generalize p.threads.take p.val.threadSize.toNat = ts
  induction ts generalizing p with
  | nil => exact h
  | cons t ts ih =>
      refine ih ?_
      rw [unblockIf]
      split
      · exact unblock_alive t ty h
      · exact h

/-! ## They are what the code does

Each of the two removals is a search and some stores into what was found. The counters are stored
last. -/

namespace Rep

variable {k k' : Kernel} {V : View} {p : ProcessView} {t : ThreadView} {fuel : Nat}

theorem setQueueSize (hr : Rep k V) (n : Int) :
    Rep { k with queueSize := n } { V with queueSize := n } :=
  ⟨hr.queue, fun p hp => (hr.processes p hp).congr rfl rfl (fun _ _ => rfl) (fun _ _ => rfl)
    fun _ _ => rfl, hr.current, hr.ticks, rfl, hr.nextPid,
    hr.mutexes.congr (fun _ _ => rfl) fun _ _ _ _ => rfl, hr.mutexCounter,
    hr.semaphores.congr (fun _ _ => rfl) fun _ _ _ _ => rfl, hr.semaphoreCounter, hr.owns,
    hr.created, hr.freedOnce⟩

theorem removeProcess (hr : Rep k V) (hok : V.Ok) (hp : p ∈ V.table)
    (hguard : ¬ (p.val.pid = 0 ∨ p.val.pid = 1)) :
    ∃ k', Returns (BasicKernel.removeProcess · k p.val.pid) k' ∧ Rep k' (V.kill p) := by
  obtain ⟨k₁, h₁, hr₁⟩ := hr.setState hp .DEAD
  refine ⟨{ k₁ with queueSize := k₁.queueSize - 1 }, ?_, ?_⟩
  · simp only [BasicKernel.removeProcess, hguard, if_false]
    refine (hr.getProcessWithPid_of_mem hok.pids hp).bind ?_
    simp only [h₁, ok_bind]
    exact Returns.const _ _
  · have hqs : k₁.queueSize = V.queueSize := hr₁.queueSize
    rw [View.kill, ← hqs]
    exact hr₁.setQueueSize (k₁.queueSize - 1)

theorem removeThread (hr : Rep k V) (hok : V.Ok) (hp : p ∈ V.table) (ht : t ∈ p.threads)
    (hguard : ¬ (p.val.pid = 0 ∨ p.val.pid = 1)) (hmain : t.val.pthread ≠ 0) :
    ∃ k', Returns (BasicKernel.removeThread · k p.val.pid t.val.pthread) k' ∧
      Rep k' (V.killThread p t.addr) := by
  -- what happens behind the call of `removeProcess`
  have hrest : ∀ {k₁ V₁ p₁}, Rep k₁ V₁ → p₁ ∈ V₁.table → p₁.threads = p.threads →
      p₁.addr = p.addr → ∃ k', Returns (fun fuel => do
        let thread ← getThreadWithPthread fuel k₁ t.val.pthread p.addr
        let k ← k₁.modifyThread thread fun v => { v with state := .T_DEAD }
        k.modifyProcess p.addr fun v => { v with threadSize := v.threadSize - 1 }) k' ∧
      Rep k' (V₁.set p₁ (p₁.loseThread t.addr)) := by
    intro k₁ V₁ p₁ hr₁ hp₁ hthreads haddr
    have ht₁ : t ∈ p₁.threads := by rw [hthreads]; exact ht
    have hget := (hr₁.processes p₁ hp₁).getThreadWithPthread_of_mem
      (by rw [hthreads]; exact (hok.processes p hp).pthreads) ht₁
    obtain ⟨k₂, h₂, hr₂⟩ := hr₁.setThreadState hp₁ ht₁ .T_DEAD
    obtain ⟨k₃, h₃, hr₃⟩ := hr₂.setVal (View.mem_set hp₁ _)
      (f := fun v => { v with threadSize := v.threadSize - 1 }) rfl rfl rfl
    rw [View.set_set _ (by rfl)] at hr₃
    rw [haddr] at hget
    refine ⟨k₃, hget.bind ?_, hr₃⟩
    have h₃' : k₂.modifyProcess p₁.addr _ = _ := h₃
    rw [haddr] at h₃'
    simp only [h₂, ok_bind, h₃']
    exact Returns.const _ _
  have hload := (hr.processes p hp).load_process
  have hget := hr.getProcessWithPid_of_mem hok.pids hp
  -- with its last counted thread the process dies first
  by_cases hsize : p.val.threadSize = 1
  · obtain ⟨k₁, h₁, hr₁⟩ := hr.removeProcess hok hp hguard
    obtain ⟨k₂, h₂, hr₂⟩ := hrest hr₁ (View.mem_set hp (p.setState .DEAD)) rfl rfl
    refine ⟨k₂, ?_, ?_⟩
    · simp only [BasicKernel.removeThread, hguard, hmain, if_false]
      refine hget.bind ?_
      simp only [hload, ok_bind, hsize, if_true]
      exact h₁.bind h₂
    · have hset : (V.set p (p.setState .DEAD)).set (p.setState .DEAD)
          ((p.setState .DEAD).loseThread t.addr) = V.set p ((p.setState .DEAD).loseThread t.addr) :=
        V.set_set (p.setState_addr .DEAD)
      rw [View.killThread, ProcessView.killThread, if_pos hsize, if_pos hsize, ← hset]
      exact hr₂
  · obtain ⟨k₂, h₂, hr₂⟩ := hrest hr hp rfl rfl
    refine ⟨k₂, ?_, ?_⟩
    · simp only [BasicKernel.removeThread, hguard, hmain, if_false]
      refine hget.bind ?_
      simp only [hload, ok_bind, hsize, if_false, pure_eq_ok]
      exact h₂
    · rw [View.killThread, ProcessView.killThread, if_neg hsize, if_neg hsize]
      exact hr₂

/-! ### Well-formed numbers

What blocking, waking and killing do to the numbers of a view is little, and stated here once for
all of the callers. -/

theorem ok_block (hr : Rep k V) (hok : V.Ok) (hp : p ∈ V.table) (t : Addr) {ty : ThreadState}
    (hty : isThreadBlocked ty) : (V.block p t ty).Ok := by
  have hsame := p.sameFrame_block t ty
  have hdead : ty ≠ .T_DEAD ∧ getBlockProcessType ty ≠ .DEAD := by
    cases ty <;> simp_all [isThreadBlocked, getBlockProcessType]
  have := hr.ok_set hok hp ((hok.processes p hp).block t hdead.1) hsame.node hsame.pid fun h => by
    rw [p.block_state]
    split
    · exact hdead.2
    · exact h
  exact ⟨⟨this.processes, this.pids, this.pid_lt, this.main, this.queueSize_le⟩, this.current⟩

theorem ok_unblock (hr : Rep k V) (hok : V.Ok) (hp : p ∈ V.table) (t : ThreadView)
    (ty : ThreadState) : (V.set p (p.unblock t ty)).Ok :=
  have hsame := p.sameFrame_unblock t ty
  hr.ok_set hok hp ((hok.processes p hp).unblock t ty) hsame.node hsame.pid
    (ProcessView.unblock_alive t ty)

theorem ok_unblockAll (hr : Rep k V) (hok : V.Ok) (hp : p ∈ V.table) (ty : ThreadState) :
    (V.set p (p.unblockAll ty)).Ok :=
  have hsame := p.sameFrame_unblockAll ty
  hr.ok_set hok hp ((hok.processes p hp).unblockAll ty) hsame.node hsame.pid
    (ProcessView.unblockAll_alive ty)

/-- A kill keeps the numbers: the counter loses one, and so do at most the living. -/
theorem ok_kill {p' : ProcessView} (hr : Rep k V) (hok : V.Ok) (hp : p ∈ V.table) (hp' : p'.Ok)
    (hnode : p'.node = p.node) (hpid : p'.val.pid = p.val.pid) (hmain : p.val.pid ≠ 0) :
    ({ V.set p p' with queueSize := V.queueSize - 1 } : View).Ok := by
  obtain ⟨A, B, hT⟩ := List.append_of_mem hp
  have hset : (V.set p p').table = A ++ p' :: B := hr.set_append hT
  obtain ⟨q, qs, hqs, h0, hstate⟩ := hok.main
  refine ⟨⟨View.forall_set hok.processes hp', ?_, ?_, ?_, ?_⟩, ?_⟩
  · show ((V.set p p').table.map _).Nodup
    rw [hr.map_set hp hpid]
    exact hok.pids
  · exact View.forall_set hok.pid_lt (by rw [hpid]; exact hok.pid_lt p hp)
  · rw [hqs] at hT
    cases A with
    | nil => exact absurd ((List.cons.inj hT).1 ▸ h0) hmain
    | cons a A =>
        obtain ⟨rfl, -⟩ := List.cons.inj hT
        exact ⟨q, A ++ p' :: B, hset, h0, hstate⟩
  · have hle := hok.queueSize_le
    simp only [View.alive, hT, hset, List.countP_append, List.countP_cons] at hle ⊢
    push_cast at hle ⊢
    split at hle <;> split <;> omega
  · obtain ⟨c, hc, hcur⟩ := hok.current
    by_cases hcp : c = p
    · exact ⟨p', View.mem_set hp p', by rw [hnode, ← hcp, hcur]; rfl⟩
    · exact ⟨c, hr.mem_set_of_ne hp hc hcp, hcur⟩

theorem ok_killThread (hr : Rep k V) (hok : V.Ok) (hp : p ∈ V.table) (ht : t ∈ p.threads)
    (hguard : p.val.pid ≠ 0) (hmain : t.val.pthread ≠ 0) : (V.killThread p t.addr).Ok := by
  have hp' := (hok.processes p hp).killThread hmain fun u hu h =>
    (hr.eq_of_threadAddr hp hp hu ht h).2
  rw [View.killThread]
  rw [ProcessView.killThread] at hp' ⊢
  by_cases hsize : p.val.threadSize = 1
  · rw [if_pos hsize] at hp' ⊢
    rw [if_pos hsize]
    exact hr.ok_kill hok hp hp' rfl rfl hguard
  · rw [if_neg hsize] at hp' ⊢
    rw [if_neg hsize]
    exact hr.ok_set hok hp hp' rfl rfl id

/-! ## Calls that returned

A search without a hit gives the null pointer, and the dereference that follows never returns. -/

theorem process_of_ok (hr : Rep k V) {pid : Int} {a : Addr}
    (h : BasicKernel.getProcessWithPid fuel k pid = .ok a) :
    (∃ p ∈ V.table, p.val.pid = pid ∧ a = p.addr) ∨ a = NULL := by
  rcases hr.getProcessWithPid pid with ⟨p, hp, hpid, hget⟩ | ⟨-, hget⟩
  · exact .inl ⟨p, hp, hpid, hget.eq h⟩
  · exact .inr (hget.eq h)

theorem thread_of_ok (hr : Rep k V) {pid pthread : Int} {a b : Addr}
    (ha : BasicKernel.getProcessWithPid fuel k pid = .ok a)
    (hb : BasicKernel.getThreadWithPthread fuel k pthread a = .ok b) :
    (∃ p ∈ V.table, ∃ t ∈ p.threads, p.val.pid = pid ∧ t.val.pthread = pthread ∧ a = p.addr ∧
      b = t.addr) ∨ b = NULL := by
  rcases hr.process_of_ok ha with ⟨p, hp, hpid, rfl⟩ | rfl
  · rcases (hr.processes p hp).getThreadWithPthread pthread with ⟨t, ht, hpt, hget⟩ | ⟨-, hget⟩
    · exact .inl ⟨p, hp, t, ht, hpid, hpt, rfl, hget.eq hb⟩
    · exact .inr (hget.eq hb)
  · simp [BasicKernel.getThreadWithPthread] at hb

theorem blockThread_inv (hr : Rep k V) (hok : V.Ok) {pid pthread : Int} {ty : ThreadState}
    (h : BasicKernel.blockThread fuel k pid pthread ty = .ok k') :
    ∃ p ∈ V.table, ∃ t ∈ p.threads, p.val.pid = pid ∧ t.val.pthread = pthread ∧
      Rep k' (V.block p t.addr ty) := by
  obtain ⟨a, ha, h₁⟩ := bind_eq_ok.mp h
  obtain ⟨b, hb, h₂⟩ := bind_eq_ok.mp h₁
  rcases hr.thread_of_ok ha hb with ⟨p, hp, t, ht, rfl, rfl, -, -⟩ | rfl
  · obtain ⟨k₁, hret, hr₁⟩ := hr.blockThread hok hp ht ty
    obtain rfl := hret.eq h
    exact ⟨p, hp, t, ht, rfl, rfl, hr₁⟩
  · simp at h₂

theorem unblockThread_inv (hr : Rep k V) (hok : V.Ok) {pid pthread : Int} {ty : ThreadState}
    (h : BasicKernel.unblockThread fuel k pid pthread ty = .ok k') :
    ∃ p ∈ V.table, ∃ t ∈ p.threads, p.val.pid = pid ∧ t.val.pthread = pthread ∧
      Rep k' (V.set p (p.unblock t ty)) := by
  obtain ⟨a, ha, h₁⟩ := bind_eq_ok.mp h
  obtain ⟨b, hb, h₂⟩ := bind_eq_ok.mp h₁
  rcases hr.thread_of_ok ha hb with ⟨p, hp, t, ht, rfl, rfl, -, -⟩ | rfl
  · obtain ⟨k₁, hret, hr₁⟩ := hr.unblockThread hok hp ht ty
    obtain rfl := hret.eq h
    exact ⟨p, hp, t, ht, rfl, rfl, hr₁⟩
  · simp at h₂

theorem unblockAllThreads_inv (hr : Rep k V) (hok : V.Ok) {pid : Int} {ty : ThreadState}
    (h : BasicKernel.unblockAllThreads fuel k pid ty = .ok k') :
    ∃ p ∈ V.table, p.val.pid = pid ∧ Rep k' (V.set p (p.unblockAll ty)) := by
  obtain ⟨a, ha, h₁⟩ := bind_eq_ok.mp h
  rcases hr.process_of_ok ha with ⟨p, hp, rfl, -⟩ | rfl
  · obtain ⟨k₁, hret, hr₁⟩ := hr.unblockAllThreads hok hp ty
    obtain rfl := hret.eq h
    exact ⟨p, hp, rfl, hr₁⟩
  · simp at h₁

theorem removeProcess_inv (hr : Rep k V) (hok : V.Ok) {pid : Int}
    (h : BasicKernel.removeProcess fuel k pid = .ok k') :
    (pid = 0 ∨ pid = 1) ∧ k' = k ∨
      ¬ (pid = 0 ∨ pid = 1) ∧ ∃ p ∈ V.table, p.val.pid = pid ∧ Rep k' (V.kill p) := by
  by_cases hguard : pid = 0 ∨ pid = 1
  · left
    simp only [BasicKernel.removeProcess, hguard, if_true, pure_eq_ok, Except.ok.injEq] at h
    exact ⟨hguard, h.symm⟩
  · refine .inr ⟨hguard, ?_⟩
    have h' := h
    simp only [BasicKernel.removeProcess, hguard, if_false] at h'
    obtain ⟨a, ha, h₁⟩ := bind_eq_ok.mp h'
    rcases hr.process_of_ok ha with ⟨p, hp, rfl, -⟩ | rfl
    · obtain ⟨k₁, hret, hr₁⟩ := hr.removeProcess hok hp hguard
      obtain rfl := hret.eq h
      exact ⟨p, hp, rfl, hr₁⟩
    · simp at h₁

theorem removeThread_inv (hr : Rep k V) (hok : V.Ok) {pid pthread : Int}
    (h : BasicKernel.removeThread fuel k pid pthread = .ok k') :
    (pid = 0 ∨ pid = 1 ∨ pthread = 0) ∧ k' = k ∨
      ¬ (pid = 0 ∨ pid = 1) ∧ pthread ≠ 0 ∧ ∃ p ∈ V.table, ∃ t ∈ p.threads,
        p.val.pid = pid ∧ t.val.pthread = pthread ∧ Rep k' (V.killThread p t.addr) := by
  by_cases hguard : pid = 0 ∨ pid = 1
  · left
    simp only [BasicKernel.removeThread, hguard, if_true, pure_eq_ok, Except.ok.injEq] at h
    exact ⟨by tauto, h.symm⟩
  by_cases hmain : pthread = 0
  · left
    simp only [BasicKernel.removeThread, hguard, hmain, if_true, if_false, pure_eq_ok,
      Except.ok.injEq] at h
    exact ⟨by tauto, h.symm⟩
  refine .inr ⟨hguard, hmain, ?_⟩
  have h' := h
  simp only [BasicKernel.removeThread, hguard, hmain, if_false] at h'
  obtain ⟨a, ha, h₁⟩ := bind_eq_ok.mp h'
  rcases hr.process_of_ok ha with ⟨p, hp, rfl, rfl⟩ | rfl
  · by_cases hthread : ∃ t ∈ p.threads, t.val.pthread = pthread
    · obtain ⟨t, ht, rfl⟩ := hthread
      obtain ⟨k₁, hret, hr₁⟩ := hr.removeThread hok hp ht hguard hmain
      obtain rfl := hret.eq h
      exact ⟨p, hp, t, ht, rfl, rfl, hr₁⟩
    · -- the thread is looked up after the process was perhaps killed, and is not there
      have hnone : ∀ {k₁ V₁ p₁ b}, Rep k₁ V₁ → p₁ ∈ V₁.table → p₁.threads = p.threads →
          BasicKernel.getThreadWithPthread fuel k₁ pthread p₁.addr = .ok b → b = NULL := by
        -- the lookup fails in the state after `removeProcess` as well
        intro k₁ V₁ p₁ b hr₁ hp₁ hthreads hb
        rcases (hr₁.processes p₁ hp₁).getThreadWithPthread pthread with ⟨t, ht, hpt, -⟩ | ⟨-, hget⟩
        · exact absurd ⟨t, hthreads ▸ ht, hpt⟩ hthread
        · exact hget.eq hb
      simp only [(hr.processes p hp).load_process, ok_bind] at h₁
      by_cases hsize : p.val.threadSize = 1
      · simp only [hsize, if_true] at h₁
        obtain ⟨k₁, hk₁, h₂⟩ := bind_eq_ok.mp h₁
        obtain ⟨k₂, hret, hr₂⟩ := hr.removeProcess hok hp hguard
        obtain rfl := hret.eq hk₁
        obtain ⟨b, hb, h₃⟩ := bind_eq_ok.mp h₂
        obtain rfl := hnone hr₂ (View.mem_set hp (p.setState .DEAD)) rfl hb
        simp at h₃
      · simp only [hsize, if_false, pure_eq_ok, ok_bind] at h₁
        obtain ⟨b, hb, h₃⟩ := bind_eq_ok.mp h₁
        obtain rfl := hnone hr hp rfl hb
        simp at h₃
  · simp at h₁

end Rep

end BasicKernel
