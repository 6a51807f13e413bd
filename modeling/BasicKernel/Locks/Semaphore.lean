import BasicKernel.Locks.Effects
import BasicKernel.View.Script

set_option autoImplicit false

/-! # The permits of a semaphore

The threads that use one semaphore, over a whole run: which of them wait, how many of their downs
have completed, and how many ups there were. A thread that waits makes no call before an up has
made it ready again.

The status is an `int`. What it counts, the start value and the ups less the downs, need not be one,
so the invariant ties the two together modulo `2^32`. Few threads can wait at a time, and this keeps
the count away from `INT_MIN`, where a down would let its caller pass without a permit.

`semaphore_safety` holds for all interleavings. `semaphore_permits` adds, for single wake-ups,
that no thread waits while a permit is left, and in `semaphore_permit_lost` two threads wait for a
permit that was given.
-/

namespace BasicKernel

open Keyed Fuel Transition

/-- The kernel, with the threads whose down has not completed and the numbers of completed downs
and of ups. -/
structure SemaphoreUse where
  kernel : Kernel
  waiting : List ThreadId
  completed : Nat
  ups : Nat

/-- An event of a run of the semaphore `id`. The events that are not calls on this semaphore
neither free it nor let a waiting thread go on. -/
inductive SemaphoreStep (id : Int) : SemaphoreUse → SemaphoreUse → Prop
  | wait {s : SemaphoreUse} {k' : Kernel} {τ : ThreadId} {fuel : Nat} : s.kernel.Current τ →
      ¬ s.kernel.ThreadIs τ .T_BLOCKED_MUTEX → semaphoreDown fuel s.kernel id = .ok k' →
      k'.ThreadIs τ .T_BLOCKED_MUTEX →
      SemaphoreStep id s { s with kernel := k', waiting := τ :: s.waiting }
  | pass {s : SemaphoreUse} {k' : Kernel} {τ : ThreadId} {fuel : Nat} : s.kernel.Current τ →
      ¬ s.kernel.ThreadIs τ .T_BLOCKED_MUTEX → semaphoreDown fuel s.kernel id = .ok k' →
      ¬ k'.ThreadIs τ .T_BLOCKED_MUTEX →
      SemaphoreStep id s { s with kernel := k', completed := s.completed + 1 }
  | up {s : SemaphoreUse} {k' : Kernel} {fuel : Nat} : semaphoreUp fuel s.kernel id = .ok k' →
      SemaphoreStep id s
        { kernel := k'
          waiting := k'.stillBlocked s.waiting
          completed := s.completed + (s.waiting.length - (k'.stillBlocked s.waiting).length)
          ups := s.ups + 1 }
  | other {s : SemaphoreUse} {k' : Kernel} :
      KernelStep (fun k op => Sound k op ∧ ¬ op.Concerns .semaphore id) s.kernel k' →
      (∀ τ ∈ s.waiting, k'.ThreadIs τ .T_BLOCKED_MUTEX) →
      SemaphoreStep id s { s with kernel := k' }
  | recycle {s : SemaphoreUse} {k' : Kernel} : Recycled s.kernel k' →
      SemaphoreStep id s { s with kernel := k' }

/-- The semaphore `id` was made with `start` permits, and its wait list is empty. -/
def SemaphoreUse.Fresh (id start : Int) (s : SemaphoreUse) : Prop :=
  s.waiting = [] ∧ s.completed = 0 ∧ s.ups = 0 ∧ (∃ V, Rep s.kernel V ∧ V.Ok) ∧
    ∃ fuel a, findSemaphoreId fuel s.kernel id = .ok a ∧ a ≠ NULL ∧
      (s.kernel.lock a).status = start ∧ (s.kernel.lock a).blockedThreadList = NULL

/-- The permits at the start and those that were given, less the downs, completed or not. -/
def SemaphoreUse.count (start : Int) (s : SemaphoreUse) : Int :=
  start + s.ups - s.completed - s.waiting.length

/-- What the status of the semaphore says about the waiting threads and the permits. -/
structure SemaphoreUse.Counted (id start : Int) (s : SemaphoreUse) (V : View) (l : LockView) :
    Prop where
  rep : Rep s.kernel V
  ok : V.Ok
  lock : V.lockWith .semaphore id = some l
  waiting : l.waiters.map WaiterView.id = s.waiting
  blocked : ∀ τ ∈ s.waiting, V.threadState τ = some .T_BLOCKED_MUTEX
  status : toInt32 l.status = toInt32 (s.count start)
  nonneg : 0 ≤ s.count start + s.waiting.length

namespace SemaphoreUse

variable {id start : Int} {s s' : SemaphoreUse} {V V' : View} {l : LockView} {k' : Kernel}
  {fuel : Nat} {τ : ThreadId}

theorem Fresh.counted (h : Fresh id start s) (hstart : 0 ≤ start) :
    ∃ V l, Counted id start s V l := by
  obtain ⟨hw, hc, hu, ⟨V, hr, hok⟩, fuel, a, hfind, ha, hstatus, hnull⟩ := h
  obtain ⟨l, hl, -, hlstatus, hempty⟩ := hr.lockWith_of_findLock (κ := .semaphore) hfind ha
  have hwaiters := hempty hnull
  have hcount : s.count start = start := by simp [count, hw, hc, hu]
  rw [hstatus] at hlstatus
  refine ⟨V, l, hr, hok, hl, by rw [hwaiters, hw]; rfl, by simp [hw], ?_, ?_⟩
  · rw [hcount, hlstatus]
  · rw [hcount, hw]
    simpa using hstart

/-! ## The status

The status behind a call is the count behind it, as an `int`. It says on which side of zero the count
is, because the count is not far below zero. -/

theorem Counted.raised (h : Counted id start s V l) : l.raised = toInt32 (s.count start + 1) := by
  rw [LockView.raised, ← toInt32_add, h.status, toInt32_add]

theorem Counted.lowered (h : Counted id start s V l) : l.lowered = toInt32 (s.count start - 1) := by
  rw [LockView.lowered, sub_eq_add_neg, ← toInt32_add, h.status, toInt32_add, ← sub_eq_add_neg]

theorem Counted.waiting_lt (h : Counted id start s V l) : s.waiting.length < 2 ^ 19 := by
  rw [← h.waiting, List.length_map]
  exact h.rep.waiters_length_lt (Rep.mem_of_lockWith h.lock)

/-- A count that is an `int` up to the sign is not negative where its `int` is not. -/
theorem nonneg_of_toInt32 {n : Int} (hlo : -2 ^ 31 ≤ n) (h : 0 ≤ toInt32 n) : 0 ≤ n := by
  by_contra hneg
  rw [toInt32_of_bounds hlo (by omega)] at h
  exact hneg h

/-! ## The calls

A down lowers the status and an up raises it. Whether a down waits depends on the status that it
finds, and whether an up wakes on the one that it leaves. -/

/-- A down passes, with a permit, or the caller waits. -/
theorem Counted.down (h : Counted id start s V l) (hcur : s.kernel.Current τ)
    (hrun : ¬ s.kernel.ThreadIs τ .T_BLOCKED_MUTEX) (hcall : semaphoreDown fuel s.kernel id = .ok k') :
    1 ≤ s.count start ∧ ¬ k'.ThreadIs τ .T_BLOCKED_MUTEX ∧
        (∃ V' l', Counted id start { s with kernel := k', completed := s.completed + 1 } V' l') ∨
      toInt32 (s.count start - 1) < 0 ∧ k'.ThreadIs τ .T_BLOCKED_MUTEX ∧
        ∃ V' l', Counted id start { s with kernel := k', waiting := τ :: s.waiting } V' l' := by
  have hr := h.rep
  have hmem := Rep.mem_of_lockWith h.lock
  have hlowered := h.lowered
  have hnonneg := h.nonneg
  have hfew := h.waiting_lt
  have hpassed : count start { s with kernel := k', completed := s.completed + 1 }
      = s.count start - 1 := by
    simp only [count, Nat.cast_add, Nat.cast_one]
    ring
  have hwaits : count start { s with kernel := k', waiting := τ :: s.waiting }
      = s.count start - 1 := by
    simp only [count, List.length_cons, Nat.cast_add, Nat.cast_one]
    ring
  obtain ⟨l', hl', V', hcase, hr', hok'⟩ := hr.semaphoreDown_inv h.ok hcall
  obtain rfl : l = l' := by
    rw [h.lock] at hl'
    exact Option.some.inj hl'
  have hstatus : toInt32 l.lowered = toInt32 (s.count start - 1) := by
    rw [hlowered, toInt32_toInt32]
  -- the sign of the lowered status decides, and that is the sign of the lowered count
  rcases hcase with ⟨hlt, hwait⟩ | ⟨hle, rfl⟩
  · right
    obtain ⟨w, hw, hthreads, hlocks⟩ := hr.waitsCounted h.ok hmem hwait
    obtain rfl : w.id = τ := ((hr.current_iff h.ok).mpr hw).unique hcur
    have hblocked : V'.threadState w.id = some .T_BLOCKED_MUTEX := by
      rw [hthreads, Function.update_self]
    refine ⟨by omega, (hr'.threadIs_iff hok').mpr hblocked, V', ⟨l.addr, l.id, l.lowered,
      w :: l.waiters⟩, hr', hok', ?_, ?_, fun σ hσ => ?_, ?_, ?_⟩
    · rw [View.lockWith_congr (hlocks .semaphore)]
      exact hr.lockWith_setLock h.lock rfl
    · simp [h.waiting]
    · rw [hthreads, Function.update_apply]
      rcases List.mem_cons.mp hσ with rfl | hσ
      · exact if_pos rfl
      · rw [h.blocked σ hσ, ite_self]
    · rw [hwaits]
      exact hstatus
    · rw [hwaits]
      simp only [List.length_cons, Nat.cast_add, Nat.cast_one]
      omega
  · left
    -- the count does not wrap downwards: too few threads can wait
    have hpermit : 0 ≤ s.count start - 1 := nonneg_of_toInt32 (by omega) (by omega)
    have hthreads : (V.setLock .semaphore l (l.setStatus l.lowered)).threadState = V.threadState :=
      View.threadState_setLock ..
    refine ⟨by omega, fun hb => hrun ?_, _, l.setStatus l.lowered, hr', hok',
      hr.lockWith_setLock h.lock rfl, h.waiting, fun σ hσ => ?_, ?_, ?_⟩
    · rw [hr'.threadIs_iff hok', hthreads] at hb
      exact (hr.threadIs_iff h.ok).mpr hb
    · rw [hthreads]
      exact h.blocked σ hσ
    · rw [hpassed]
      exact hstatus
    · rw [hpassed]
      exact Int.add_nonneg hpermit (Int.natCast_nonneg _)

/-- An up wakes everybody or nobody. -/
theorem Counted.up (h : Counted id start s V l) (hcall : semaphoreUp fuel s.kernel id = .ok k') :
    (0 ≤ s.count start + 1 ∧ k'.stillBlocked s.waiting = [] ∨
        toInt32 (s.count start + 1) < 0 ∧ k'.stillBlocked s.waiting = s.waiting) ∧
      ∃ V' l', Counted id start
        { kernel := k'
          waiting := k'.stillBlocked s.waiting
          completed := s.completed + (s.waiting.length - (k'.stillBlocked s.waiting).length)
          ups := s.ups + 1 } V' l' := by
  have hr := h.rep
  have hmem := Rep.mem_of_lockWith h.lock
  have hraised := h.raised
  have hnonneg := h.nonneg
  have hfew := h.waiting_lt
  rcases hr.semaphoreUp_inv h.ok hcall with ⟨hnone, -⟩ | ⟨l₁, hl₁, V', hcase, hr', hok'⟩
  · rw [h.lock] at hnone
    cases hnone
  obtain rfl : l₁ = l := by
    rw [h.lock] at hl₁
    exact (Option.some.inj hl₁).symm
  have hstatus : toInt32 l₁.raised = toInt32 (s.count start + 1) := by
    rw [hraised, toInt32_toInt32]
  -- below zero after the up: nobody is woken
  rcases hcase with ⟨hlt, rfl⟩ | ⟨hle, hunlock⟩
  · have hthreads : (V.setLock .semaphore l₁ (l₁.setStatus l₁.raised)).threadState
        = V.threadState := View.threadState_setLock ..
    have hsame : k'.stillBlocked s.waiting = s.waiting := Kernel.stillBlocked_eq_self fun σ hσ => by
      rw [hr'.threadIs_iff hok', hthreads]
      exact h.blocked σ hσ
    have hcount : count start ⟨k', s.waiting, s.completed, s.ups + 1⟩ = s.count start + 1 := by
      simp only [count, Nat.cast_add, Nat.cast_one]
      ring
    rw [hsame, Nat.sub_self, Nat.add_zero]
    refine ⟨.inr ⟨by omega, rfl⟩, _, l₁.setStatus l₁.raised, hr', hok',
      hr.lockWith_setLock h.lock rfl, h.waiting, ?_, ?_, ?_⟩
    · rw [hthreads]
      exact h.blocked
    · rw [hcount]
      exact hstatus
    · rw [hcount]
      exact (by omega : 0 ≤ s.count start + 1 + s.waiting.length)
  -- zero or more: the loop wakes everybody
  · obtain ⟨V₁, hwoken, hthreads, -, hlocks⟩ := hr.unlocks h.ok hunlock
    have hpermit : 0 ≤ s.count start + 1 := nonneg_of_toInt32 (by omega) (by omega)
    have hnil : k'.stillBlocked s.waiting = [] := Kernel.stillBlocked_eq_nil fun σ hσ => by
      have hσ' : σ ∈ l₁.waiters.map WaiterView.id := by
        rw [h.waiting]
        exact hσ
      rw [hr'.threadIs_iff hok', hthreads, hwoken.threads, if_pos ⟨hσ', h.blocked σ hσ⟩]
      simp
    -- the waiting threads are counted as completed from now on
    have hcount : count start ⟨k', [], s.completed + s.waiting.length, s.ups + 1⟩
        = s.count start + 1 := by
      simp only [count, List.length_nil, Nat.cast_add, Nat.cast_one, Nat.cast_zero]
      ring
    rw [hnil, List.length_nil, Nat.sub_zero]
    refine ⟨.inl ⟨hpermit, rfl⟩, V', ⟨l₁.addr, l₁.id, l₁.raised, []⟩, hr', hok', ?_, rfl, by simp,
      ?_, ?_⟩
    · rw [View.lockWith_congr (hlocks .semaphore)]
      exact hr.lockWith_setLock h.lock rfl
    · rw [hcount]
      exact hstatus
    · rw [hcount]
      exact Int.add_nonneg hpermit (Int.natCast_nonneg _)

/-- An event that is no call on the semaphore. -/
theorem Counted.other (h : Counted id start s V l)
    (hstep : KernelStep (fun k op => Sound k op ∧ ¬ op.Concerns .semaphore id) s.kernel k')
    (hwaiting : ∀ τ ∈ s.waiting, k'.ThreadIs τ .T_BLOCKED_MUTEX) :
    ∃ V', Counted id start { s with kernel := k' } V' l := by
  obtain ⟨k₁, op, fuel, hrec, ⟨hsound, hop⟩, hrun⟩ := hstep
  have hr₁ := h.rep.recycled hrec
  obtain ⟨V', heffect, hr', hok'⟩ := hr₁.run_inv h.ok hsound hrun
  exact ⟨V', hr', hok', hr₁.lockWith_effect h.ok heffect hop h.lock, h.waiting,
    fun τ hτ => (hr'.threadIs_iff hok').mp (hwaiting τ hτ), h.status, h.nonneg⟩

theorem Counted.step (h : Counted id start s V l) (hstep : SemaphoreStep id s s') :
    ∃ V' l', Counted id start s' V' l' := by
  cases hstep with
  | wait hcur hrun hcall hblocked =>
      rcases h.down hcur hrun hcall with ⟨-, hnot, -⟩ | ⟨-, -, h'⟩
      · exact absurd hblocked hnot
      · exact h'
  | pass hcur hrun hcall hnot =>
      rcases h.down hcur hrun hcall with ⟨-, -, h'⟩ | ⟨-, hblocked, -⟩
      · exact h'
      · exact absurd hblocked hnot
  | up hcall =>
      obtain ⟨-, h'⟩ := h.up hcall
      exact h'
  | other hother hwaiting =>
      obtain ⟨V', h'⟩ := h.other hother hwaiting
      exact ⟨V', l, h'⟩
  | recycle hrec =>
      exact ⟨V, l, h.rep.recycled hrec, h.ok, h.lock, h.waiting, h.blocked, h.status, h.nonneg⟩

/-- The counts are right in every state of a run. -/
theorem counted (hstart : 0 ≤ start) (h : Reachable (Fresh id start) (SemaphoreStep id) s) :
    ∃ V l, Counted id start s V l :=
  h.invariant (fun _ hs => hs.counted hstart) fun _ _ _ ⟨_, _, hs⟩ hstep => hs.step hstep

end SemaphoreUse

/-! ## Safety

A down completes only where the status, and with it the count, shows a permit. -/

/-- No more downs complete than there are permits. -/
theorem semaphore_safety {id start : Int} (hstart : 0 ≤ start) {s : SemaphoreUse}
    (h : Reachable (SemaphoreUse.Fresh id start) (SemaphoreStep id) s) :
    (s.completed : Int) ≤ start + s.ups := by
  obtain ⟨V, l, h⟩ := SemaphoreUse.counted hstart h
  have hnonneg := h.nonneg
  simp only [SemaphoreUse.count] at hnonneg
  omega

/-! ## Lost permits

An up that finds two threads waiting raises the status from `-2` to `-1` and wakes nobody. An up at
`INT_MAX` makes the status negative, and nobody passes any more. -/

/-- The steps in which an up finds one waiting thread at most, and less than `INT_MAX` permits. -/
def SingleWakeStep (id start : Int) (s s' : SemaphoreUse) : Prop :=
  SemaphoreStep id s s' ∧
    (s'.ups = s.ups + 1 → s.waiting.length ≤ 1 ∧ s.count start < 2 ^ 31 - 1)

/-- With single wake-ups the count is an `int`, and that of a semaphore that threads wait for is minus
their number. -/
structure SemaphoreUse.Exact (id start : Int) (s : SemaphoreUse) (V : View) (l : LockView) : Prop
    extends SemaphoreUse.Counted id start s V l where
  int : s.count start < 2 ^ 31
  exact : s.waiting ≠ [] → s.count start = -s.waiting.length

namespace SemaphoreUse

variable {id start : Int} {s s' : SemaphoreUse} {V : View} {l : LockView}

theorem Exact.step (h : Exact id start s V l) (hstep : SingleWakeStep id start s s') :
    ∃ V' l', Exact id start s' V' l' := by
  have hc := h.toCounted
  have hint := h.int
  have hexact := h.exact
  have hnonneg := hc.nonneg
  have hfew := hc.waiting_lt
  obtain ⟨hstep, hsingle⟩ := hstep
  cases hstep with
  | wait hcur hrun hcall hblocked =>
      rcases hc.down hcur hrun hcall with ⟨-, hnot, -⟩ | ⟨hlt, -, V', l', hc'⟩
      · exact absurd hblocked hnot
      · rw [toInt32_of_bounds (by omega) (by omega)] at hlt
        refine ⟨V', l', hc', ?_, fun _ => ?_⟩
        · simp only [count, List.length_cons, Nat.cast_add, Nat.cast_one] at hint ⊢
          omega
        -- the first waiter brings the count to -1, and each further one lowers it again
        · by_cases hw : s.waiting = []
          · simp only [count, hw, List.length_nil, List.length_cons] at hnonneg hlt ⊢
            omega
          · have := hexact hw
            simp only [count, List.length_cons, Nat.cast_add, Nat.cast_one] at this ⊢
            omega
  | pass hcur hrun hcall hnot =>
      rcases hc.down hcur hrun hcall with ⟨hpermit, -, V', l', hc'⟩ | ⟨-, hblocked, -⟩
      · refine ⟨V', l', hc', ?_, fun hw => ?_⟩
        · simp only [count, Nat.cast_add, Nat.cast_one] at hint ⊢
          omega
        · have := hexact hw
          omega
      · exact absurd hblocked hnot
  | up hcall =>
      obtain ⟨hone, hroom⟩ := hsingle rfl
      obtain ⟨hcase, V', l', hc'⟩ := hc.up hcall
      refine ⟨V', l', hc', ?_, fun hw => ?_⟩
      · rcases hcase with ⟨-, hnil⟩ | ⟨-, hsame⟩
        · rw [hnil]
          simp only [count, List.length_nil, Nat.cast_add, Nat.cast_one] at hroom ⊢
          omega
        · rw [hsame, Nat.sub_self]
          simp only [count, Nat.cast_add, Nat.cast_one] at hroom ⊢
          omega
      -- with one waiter the raised count is zero, so the wait list is empty afterwards
      · rcases hcase with ⟨-, hnil⟩ | ⟨hlt, hsame⟩
        · exact absurd hnil hw
        · rw [toInt32_of_bounds (by omega) (by omega)] at hlt
          have hw' : s.waiting ≠ [] := by
            rw [← hsame]
            exact hw
          have := hexact hw'
          omega
  | other hother hwaiting =>
      obtain ⟨V', hc'⟩ := hc.other hother hwaiting
      exact ⟨V', l, hc', hint, hexact⟩
  | recycle hrec =>
      exact ⟨V, l, ⟨hc.rep.recycled hrec, hc.ok, hc.lock, hc.waiting, hc.blocked, hc.status,
        hc.nonneg⟩, hint, hexact⟩

theorem exact (hstart : 0 ≤ start) (hint : start < 2 ^ 31)
    (h : Reachable (Fresh id start) (SingleWakeStep id start) s) : ∃ V l, Exact id start s V l := by
  refine h.invariant (I := fun s => ∃ V l, Exact id start s V l) (fun s hs => ?_)
    fun _ _ _ ⟨_, _, hs⟩ hstep => hs.step hstep
  obtain ⟨V, l, hc⟩ := hs.counted hstart
  refine ⟨V, l, hc, ?_, fun hne => absurd hs.1 hne⟩
  obtain ⟨hw, hcompleted, hups, -⟩ := hs
  simpa [count, hw, hcompleted, hups] using hint

end SemaphoreUse

/-- When every up finds one waiting thread at most, and less than `INT_MAX` permits, no thread waits
while a permit is unused, and an up made while a thread waits lets it go on. -/
theorem semaphore_permits {id start : Int} (hstart : 0 ≤ start) (hint : start < 2 ^ 31)
    {s : SemaphoreUse} (h : Reachable (SemaphoreUse.Fresh id start) (SingleWakeStep id start) s) :
    (∃ V l, Rep s.kernel V ∧ V.lockWith .semaphore id = some l ∧
      l.waiters.map WaiterView.id = s.waiting) ∧
    (s.waiting ≠ [] → start + s.ups ≤ s.completed) ∧
    ∀ s', SingleWakeStep id start s s' → s'.ups = s.ups + 1 → s.waiting ≠ [] →
      s'.completed = s.completed + 1 := by
  obtain ⟨V, l, h⟩ := SemaphoreUse.exact hstart hint h
  have hc := h.toCounted
  have hnonneg := hc.nonneg
  have hfew := hc.waiting_lt
  refine ⟨⟨V, l, hc.rep, hc.lock, hc.waiting⟩, fun hw => ?_, fun s' hstep hup hw => ?_⟩
  · have hexact := h.exact hw
    simp only [SemaphoreUse.count] at hexact
    omega
  · obtain ⟨hone, hroom⟩ := hstep.2 hup
    have hminus := h.exact hw
    have hpos := List.length_pos_iff.mpr hw
    -- of the steps only an up raises the number of ups
    cases hstep.1 with
    | wait _ _ _ _ => simp at hup
    | pass _ _ _ _ => simp at hup
    | other _ _ => simp at hup
    | recycle _ => simp at hup
    | up hcall =>
        obtain ⟨hcase, -⟩ := hc.up hcall
        rcases hcase with ⟨-, hnil⟩ | ⟨hlt, -⟩
        · simp only [hnil, List.length_nil]
          omega
        · rw [toInt32_of_bounds (by omega) (by omega)] at hlt
          omega

/-! ### Two threads wait -/

/-- `init` waits for a semaphore without permits, and a new process goes on. -/
def firstWaits : Except Stop (Kernel × Kernel × Kernel) := do
  let k₀ ← KernelOp.runSound 40 [.createSemaphore 0, .addProcess 1 4 0x1000000] (← startKernel)
  let k₁ ← semaphoreDown 40 k₀ 0
  let k₂ ← KernelOp.runSound 40 [.tick nullGarbage 8] k₁
  return (k₀, k₁, k₂)

/-- The new process waits as well, and `shell` calls `semaphoreUp`. -/
def twoWaiters : Except Stop (Kernel × Kernel × Kernel × Kernel) := do
  let (_, _, k₂) ← firstWaits
  let k₃ ← semaphoreDown 40 k₂ 0
  let k₄ ← KernelOp.runSound 40 [.tick nullGarbage 8] k₃
  let k₅ ← semaphoreUp 40 k₄ 0
  return (k₂, k₃, k₄, k₅)

/-- The new process calls `semaphoreUp`, and then waits. -/
def permitTaken : Except Stop (Kernel × Kernel × Kernel) := do
  let (_, _, k₂) ← firstWaits
  let k₃ ← semaphoreUp 40 k₂ 0
  let k₄ ← semaphoreDown 40 k₃ 0
  return (k₂, k₃, k₄)

theorem firstWaits_states : (do
    let (k₀, k₁, k₂) ← firstWaits
    let a ← findSemaphoreId 40 k₀ 0
    return decide ((a ≠ NULL ∧ (k₀.lock a).status = 0 ∧ (k₀.lock a).blockedThreadList = NULL) ∧
      (k₀.Current (0, 0) ∧ k₀.threadIs? (0, 0) .T_READY) ∧ k₁.threadIs? (0, 0) .T_BLOCKED_MUTEX ∧
      k₂.Current (2, 0) ∧ k₂.threadIs? (2, 0) .T_READY ∧ k₂.threadIs? (0, 0) .T_BLOCKED_MUTEX) :
      Except Stop Bool) = .ok true := by
  decide +kernel

theorem twoWaiters_states : (do
    let (_, k₃, k₄, k₅) ← twoWaiters
    return decide (k₃.threadIs? (2, 0) .T_BLOCKED_MUTEX ∧
      (k₄.threadIs? (2, 0) .T_BLOCKED_MUTEX ∧ k₄.threadIs? (0, 0) .T_BLOCKED_MUTEX) ∧
      k₅.threadIs? (2, 0) .T_BLOCKED_MUTEX ∧ k₅.threadIs? (0, 0) .T_BLOCKED_MUTEX) :
      Except Stop Bool) = .ok true := by
  decide +kernel

theorem permitTaken_states : (do
    let (_, k₃, k₄) ← permitTaken
    return decide ((k₃.Current (2, 0) ∧ k₃.threadIs? (2, 0) .T_READY ∧ k₃.threadIs? (0, 0) .T_READY) ∧
      k₄.threadIs? (2, 0) .T_BLOCKED_MUTEX) : Except Stop Bool) = .ok true := by
  decide +kernel

/-- One thread waits. -/
theorem firstWaits_reachable {k₀ k₁ k₂ : Kernel} (h : firstWaits = .ok (k₀, k₁, k₂)) :
    Run Sound k₂ ∧ Reachable (SemaphoreUse.Fresh 0 0) (SingleWakeStep 0 0) ⟨k₂, [(0, 0)], 0, 0⟩ ∧
      k₂.Current (2, 0) ∧ k₂.threadIs? (2, 0) .T_READY := by
  have hstates := firstWaits_states
  rw [h, ok_bind] at hstates
  obtain ⟨a, hfind, hstates⟩ := bind_eq_ok.mp hstates
  obtain ⟨⟨ha, hstatus, hnull⟩, ⟨hcur₀, hready₀⟩, hblocked₁, hcur₂, hready₂, hblocked₂⟩ :=
    of_decide_eq_true (Except.ok.inj hstates)
  rw [firstWaits] at h
  obtain ⟨k, hk, h⟩ := bind_eq_ok.mp h
  obtain ⟨k₀, hk₀, h⟩ := bind_eq_ok.mp h
  obtain ⟨k₁, hk₁, h⟩ := bind_eq_ok.mp h
  obtain ⟨k₂, hk₂, h⟩ := bind_eq_ok.mp h
  cases h
  have hrun₀ : Run Sound k₀ := Run.runSound (.start (booted_of_start hk)) hk₀
  have hrun₁ : Run Sound k₁ := hrun₀.step (.semaphoreDown 0) trivial hk₁
  have hstart : Reachable (SemaphoreUse.Fresh 0 0) (SingleWakeStep 0 0) ⟨k₀, [], 0, 0⟩ :=
    .start ⟨rfl, rfl, rfl, hrun₀.rep, 40, a, hfind, ha, hstatus, hnull⟩
  have hwait₁ : SingleWakeStep 0 0 ⟨k₀, [], 0, 0⟩ ⟨k₁, [(0, 0)], 0, 0⟩ :=
    ⟨.wait hcur₀ (hrun₀.not_threadIs_of hready₀ (by decide)) hk₁ (Kernel.threadIs_of hblocked₁),
      by simp⟩
  have htick₂ : SingleWakeStep 0 0 ⟨k₁, [(0, 0)], 0, 0⟩ ⟨k₂, [(0, 0)], 0, 0⟩ := by
    refine ⟨.other (s := ⟨k₁, [(0, 0)], 0, 0⟩) (KernelStep.of_runSound hk₂ not_false) ?_, by simp⟩
    simpa using Kernel.threadIs_of hblocked₂
  exact ⟨hrun₁.runSound hk₂, (hstart.next hwait₁).next htick₂, hcur₂, hready₂⟩

/-- Both still wait behind the up. -/
theorem twoWaiters_reachable : ∃ s s', Reachable (SemaphoreUse.Fresh 0 0) (SingleWakeStep 0 0) s ∧
    s.waiting = [(2, 0), (0, 0)] ∧ s.completed = 0 ∧ s.ups = 0 ∧ SemaphoreStep 0 s s' ∧
    s'.waiting = [(2, 0), (0, 0)] ∧ s'.completed = 0 ∧ s'.ups = 1 := by
  obtain ⟨r, hr, h⟩ := bind_eq_ok.mp twoWaiters_states
  rw [twoWaiters] at hr
  obtain ⟨⟨k₀, k₁, k₂⟩, hfirst, hr⟩ := bind_eq_ok.mp hr
  obtain ⟨k₃, hk₃, hr⟩ := bind_eq_ok.mp hr
  obtain ⟨k₄, hk₄, hr⟩ := bind_eq_ok.mp hr
  obtain ⟨k₅, hk₅, hr⟩ := bind_eq_ok.mp hr
  obtain rfl := Except.ok.inj hr
  obtain ⟨hblocked₃, ⟨hblocked₄, hblocked₄'⟩, hblocked₅, hblocked₅'⟩ :=
    of_decide_eq_true (Except.ok.inj h)
  obtain ⟨hrun₂, hreach₂, hcur₂, hready₂⟩ := firstWaits_reachable hfirst
  have hwait₃ : SingleWakeStep 0 0 ⟨k₂, [(0, 0)], 0, 0⟩ ⟨k₃, [(2, 0), (0, 0)], 0, 0⟩ :=
    ⟨.wait hcur₂ (hrun₂.not_threadIs_of hready₂ (by decide)) hk₃ (Kernel.threadIs_of hblocked₃),
      by simp⟩
  have htick₄ : SingleWakeStep 0 0 ⟨k₃, [(2, 0), (0, 0)], 0, 0⟩ ⟨k₄, [(2, 0), (0, 0)], 0, 0⟩ := by
    refine ⟨.other (s := ⟨k₃, [(2, 0), (0, 0)], 0, 0⟩) (KernelStep.of_runSound hk₄ not_false) ?_,
      by simp⟩
    simpa using ⟨Kernel.threadIs_of hblocked₄, Kernel.threadIs_of hblocked₄'⟩
  have hup := SemaphoreStep.up (s := ⟨k₄, [(2, 0), (0, 0)], 0, 0⟩) hk₅
  have hsame : k₅.stillBlocked [(2, 0), (0, 0)] = [(2, 0), (0, 0)] :=
    Kernel.stillBlocked_eq_self (by
      simpa using ⟨Kernel.threadIs_of hblocked₅, Kernel.threadIs_of hblocked₅'⟩)
  rw [hsame] at hup
  exact ⟨_, _, (hreach₂.next hwait₃).next htick₄, rfl, rfl, rfl, hup, rfl, rfl, rfl⟩

/-- The threads wait although an up has given a permit back. -/
theorem semaphore_permit_lost : ¬ ∀ (id start : Int) (s : SemaphoreUse), 0 ≤ start →
    Reachable (SemaphoreUse.Fresh id start) (SemaphoreStep id) s → s.waiting ≠ [] →
    start + s.ups ≤ s.completed := by
  intro hclaim
  obtain ⟨s, s', hs, -, -, -, hstep, hwaiting, hcompleted, hups⟩ := twoWaiters_reachable
  have hreach : Reachable (SemaphoreUse.Fresh 0 0) (SemaphoreStep 0) s' :=
    (hs.mono (fun _ h => h) fun _ _ h => h.1).next hstep
  have := hclaim 0 0 s' le_rfl hreach (by simp [hwaiting])
  rw [hcompleted, hups] at this
  omega

/-- The up of the new process lets `init` go on, and the new process waits in its place. -/
theorem semaphore_permits_after_up : ∃ s : SemaphoreUse,
    Reachable (SemaphoreUse.Fresh 0 0) (SingleWakeStep 0 0) s ∧ s.waiting = [(2, 0)] ∧ s.ups = 1 ∧
    s.completed = 1 ∧ 0 + (s.ups : Int) ≤ s.completed := by
  obtain ⟨r, hr, h⟩ := bind_eq_ok.mp permitTaken_states
  rw [permitTaken] at hr
  obtain ⟨⟨k₀, k₁, k₂⟩, hfirst, hr⟩ := bind_eq_ok.mp hr
  obtain ⟨k₃, hk₃, hr⟩ := bind_eq_ok.mp hr
  obtain ⟨k₄, hk₄, hr⟩ := bind_eq_ok.mp hr
  obtain rfl := Except.ok.inj hr
  obtain ⟨⟨hcur₃, hready₃, hready₃'⟩, hblocked₄⟩ := of_decide_eq_true (Except.ok.inj h)
  obtain ⟨hrun₂, hreach₂, -⟩ := firstWaits_reachable hfirst
  have hrun₃ : Run Sound k₃ := hrun₂.step (.semaphoreUp 0) trivial hk₃
  have hup₃ : SingleWakeStep 0 0 ⟨k₂, [(0, 0)], 0, 0⟩ ⟨k₃, [], 1, 1⟩ := by
    have hwoken : ∀ τ ∈ [((0 : Int), (0 : Int))], ¬ k₃.ThreadIs τ .T_BLOCKED_MUTEX := by
      simpa using hrun₃.not_threadIs_of hready₃' (by decide)
    have hstep := SemaphoreStep.up (s := ⟨k₂, [(0, 0)], 0, 0⟩) hk₃
    rw [Kernel.stillBlocked_eq_nil hwoken] at hstep
    exact ⟨hstep, fun _ => ⟨le_rfl, by simp [SemaphoreUse.count]⟩⟩
  have hwait₄ : SingleWakeStep 0 0 ⟨k₃, [], 1, 1⟩ ⟨k₄, [(2, 0)], 1, 1⟩ :=
    ⟨.wait hcur₃ (hrun₃.not_threadIs_of hready₃ (by decide)) hk₄ (Kernel.threadIs_of hblocked₄),
      by simp⟩
  have hreach := (hreach₂.next hup₃).next hwait₄
  exact ⟨_, hreach, rfl, rfl, rfl,
    (semaphore_permits le_rfl (by decide) hreach).2.1 (List.cons_ne_nil _ _)⟩

theorem semaphore_safety_two_waiters : ∃ s : SemaphoreUse,
    Reachable (SemaphoreUse.Fresh 0 0) (SemaphoreStep 0) s ∧ s.waiting = [(2, 0), (0, 0)] ∧
    s.ups = 1 ∧ (s.completed : Int) ≤ 0 + s.ups := by
  obtain ⟨s, s', hs, -, -, -, hstep, hwaiting, -, hups⟩ := twoWaiters_reachable
  have hreach := (hs.mono (fun _ h => h) fun _ _ h => h.1).next hstep
  exact ⟨s', hreach, hwaiting, hups, semaphore_safety le_rfl hreach⟩

end BasicKernel
