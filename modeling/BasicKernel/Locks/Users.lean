import BasicKernel.Locks.Effects
import BasicKernel.View.Script

set_option autoImplicit false

/-! # Programs that use locks

What a program sees of a lock is its status and the threads that wait for it. `LockState.down` and
`LockState.up` are the calls on this state, for both kinds of lock. A program that names its locks by
an index type `ι` is served by a kernel: its locks are in certain states, and who waits for one is
blocked and stands where the program waits for it.

`Kernel.Serves` is the relation between a program and the kernel, and `down`, `up` and `other`
keep it. `Userland/ProdCons.lean` and `Userland/Philosophers.lean` are two programs that are
proved over it.
-/

namespace BasicKernel

open Fuel Transition

/-- The number of a lock in the registry of its kind. -/
abbrev LockKey := LockKind × Int

/-- A lock, as the threads that use it see it. -/
structure LockState where
  status : Int
  waiting : List ThreadId
  deriving DecidableEq

namespace LockState

/-- A down blocks its caller. -/
def blocks (s : LockState) : LockKind → Bool
  | .mutex => s.status = MUTEX_LOCKED
  | .semaphore => toInt32 (s.status - 1) < 0

/-- The state behind a down of the thread `τ`. -/
def down (s : LockState) (τ : ThreadId) (κ : LockKind) : LockState where
  status := match κ with
    | .mutex => MUTEX_LOCKED
    | .semaphore => toInt32 (s.status - 1)
  waiting := if s.blocks κ then τ :: s.waiting else s.waiting

/-- An up wakes who waits. -/
def wakes (s : LockState) : LockKind → Bool
  | .mutex => true
  | .semaphore => 0 ≤ toInt32 (s.status + 1)

/-- The state behind an up. -/
def up (s : LockState) (κ : LockKind) : LockState where
  status := match κ with
    | .mutex => MUTEX_UNLOCKED
    | .semaphore => toInt32 (s.status + 1)
  waiting := if s.wakes κ then [] else s.waiting

/-- The threads that an up makes ready. -/
def woken (s : LockState) (κ : LockKind) : List ThreadId := if s.wakes κ then s.waiting else []

theorem down_waiting (s : LockState) (τ : ThreadId) (κ : LockKind) :
    (s.down τ κ).waiting = if s.blocks κ then τ :: s.waiting else s.waiting := rfl

theorem up_waiting (s : LockState) (κ : LockKind) :
    (s.up κ).waiting = if s.wakes κ then [] else s.waiting := rfl

end LockState

/-- `mutexDown`, `semaphoreDown` -/
def LockKind.down (fuel : Nat) (k : Kernel) (id : Int) : LockKind → Except Stop Kernel
  | .mutex => mutexDown fuel k id
  | .semaphore => semaphoreDown fuel k id

/-- `mutexUp`, `semaphoreUp` -/
def LockKind.up (fuel : Nat) (k : Kernel) (id : Int) : LockKind → Except Stop Kernel
  | .mutex => mutexUp fuel k id
  | .semaphore => semaphoreUp fuel k id

def LockView.state (l : LockView) : LockState := ⟨l.status, l.waiters.map WaiterView.id⟩

def View.lockState (V : View) (x : LockKey) : Option LockState :=
  (V.lockWith x.1 x.2).map LockView.state

/-- The lock with this number has this status, and its wait list is empty. -/
def Kernel.FreshLock (k : Kernel) (x : LockKey) (status : Int) : Prop :=
  ∃ fuel a, findLock fuel k (k.lockList x.1) x.2 = .ok a ∧ a ≠ NULL ∧
    (k.lock a).status = status ∧ (k.lock a).blockedThreadList = NULL

/-! ## The calls

What a down and an up do to a lock that a program uses, and to nothing else. -/

namespace Rep

variable {k k' : Kernel} {V V' : View} {κ : LockKind} {id : Int} {l l' : LockView} {s : LockState}
  {τ : ThreadId} {fuel : Nat}

theorem lockState_congr (h : ∀ κ, V'.locks κ = V.locks κ) : V'.lockState = V.lockState := by
  funext x
  rw [View.lockState, View.lockState, View.lockWith_congr (h x.1)]

theorem lockState_setLock (hr : Rep k V) (hl : V.lockWith κ id = some l) (hid : l'.id = l.id) :
    (V.setLock κ l l').lockState = Function.update V.lockState (κ, id) (some l'.state) := by
  funext x
  by_cases hx : x = (κ, id)
  · subst hx
    rw [Function.update_self, View.lockState, hr.lockWith_setLock hl hid]
    rfl
  · have hne : x.1 ≠ κ ∨ l.id ≠ x.2 := by
      by_contra hsame
      rw [not_or, not_not, not_not, View.lockWith_id hl] at hsame
      exact hx (Prod.ext hsame.1 hsame.2.symm)
    rw [Function.update_of_ne hx, View.lockState, View.lockState,
      hr.lockWith_setLock_of_ne (mem_of_lockWith hl) hne hid]

theorem lockState_some (h : V.lockState (κ, id) = some s) :
    ∃ l, V.lockWith κ id = some l ∧ l.state = s := Option.map_eq_some_iff.mp h

theorem lockState_fresh (hr : Rep k V) {x : LockKey} {status : Int} (h : k.FreshLock x status) :
    V.lockState x = some ⟨status, []⟩ := by
  obtain ⟨fuel, a, hfind, ha, hstatus, hnull⟩ := h
  obtain ⟨l, hl, -, hlstatus, hempty⟩ := hr.lockWith_of_findLock hfind ha
  rw [View.lockState, hl, Option.map_some, LockView.state, hlstatus, hstatus, hempty hnull]
  rfl

/-- A down changes the lock, and blocks the current thread or nobody. -/
theorem down_inv (hr : Rep k V) (hok : V.Ok) (hs : V.lockState (κ, id) = some s)
    (hcur : k.Current τ) (h : κ.down fuel k id = .ok k') :
    ∃ V', Rep k' V' ∧ V'.Ok ∧
      V'.lockState = Function.update V.lockState (κ, id) (some (s.down τ κ)) ∧
      V'.threadState = if s.blocks κ then
        Function.update V.threadState τ (some .T_BLOCKED_MUTEX) else V.threadState := by
  obtain ⟨l, hl, rfl⟩ := lockState_some hs
  -- the two kinds differ in what the status counts and in when it is lowered
  cases κ with
  | mutex =>
      obtain ⟨l', hl', V', hcase, hr', hok'⟩ := hr.mutexDown_inv hok h
      obtain rfl : l = l' := Option.some.inj (hl.symm.trans hl')
      refine ⟨V', hr', hok', ?_⟩
      rcases hcase with ⟨hlocked, hwait⟩ | ⟨hfree, rfl⟩
      · obtain ⟨w, hw, hthreads, hlocks⟩ := hr.waits hok hwait
        obtain rfl : w.id = τ := ((hr.current_iff hok).mpr hw).unique hcur
        have hblocks : l.state.blocks .mutex = true := decide_eq_true hlocked
        rw [lockState_congr hlocks, hr.lockState_setLock hl (by rfl), hthreads, LockState.down, hblocks]
        exact ⟨by rw [if_pos rfl, ← hlocked]; rfl, rfl⟩
      · have hblocks : l.state.blocks .mutex = false := decide_eq_false hfree
        rw [hr.lockState_setLock hl (by rfl), View.threadState_setLock, LockState.down, hblocks]
        exact ⟨rfl, rfl⟩
  | semaphore =>
      obtain ⟨l', hl', V', hcase, hr', hok'⟩ := hr.semaphoreDown_inv hok h
      obtain rfl : l = l' := Option.some.inj (hl.symm.trans hl')
      refine ⟨V', hr', hok', ?_⟩
      rcases hcase with ⟨hlt, hwait⟩ | ⟨hle, rfl⟩
      · obtain ⟨w, hw, hthreads, hlocks⟩ := hr.waitsCounted hok (mem_of_lockWith hl) hwait
        obtain rfl : w.id = τ := ((hr.current_iff hok).mpr hw).unique hcur
        have hblocks : l.state.blocks .semaphore = true := decide_eq_true hlt
        rw [lockState_congr hlocks, hr.lockState_setLock hl (by rfl), hthreads, LockState.down, hblocks]
        exact ⟨rfl, rfl⟩
      · have hblocks : l.state.blocks .semaphore = false := decide_eq_false (not_lt.mpr hle)
        rw [hr.lockState_setLock hl (by rfl), View.threadState_setLock, LockState.down, hblocks]
        exact ⟨rfl, rfl⟩

/-- Unlocking changes the lock and makes its waiting threads ready. -/
theorem unlocks_state (hr : Rep k V) (hok : V.Ok) (hl : V.lockWith κ id = some l) {status : Int}
    (h : V.Unlocks κ l status V') :
    V'.lockState = Function.update V.lockState (κ, id) (some ⟨status, []⟩) ∧
      ∀ σ, V'.threadState σ = if σ ∈ l.state.waiting ∧ V.threadState σ = some .T_BLOCKED_MUTEX
        then some .T_READY else V.threadState σ := by
  obtain ⟨V₁, hwoken, hthreads, -, hlocks⟩ := hr.unlocks hok h
  refine ⟨?_, fun σ => ?_⟩
  · rw [lockState_congr hlocks, hr.lockState_setLock hl (by rfl)]
    rfl
  · rw [hthreads, hwoken.threads]
    rfl

/-- An up changes the lock, and makes the threads ready that it wakes. -/
theorem up_inv (hr : Rep k V) (hok : V.Ok) (hs : V.lockState (κ, id) = some s)
    (h : κ.up fuel k id = .ok k') :
    ∃ V', Rep k' V' ∧ V'.Ok ∧
      V'.lockState = Function.update V.lockState (κ, id) (some (s.up κ)) ∧
      ∀ σ, V'.threadState σ = if σ ∈ s.woken κ ∧ V.threadState σ = some .T_BLOCKED_MUTEX
        then some .T_READY else V.threadState σ := by
  obtain ⟨l, hl, rfl⟩ := lockState_some hs
  cases κ with
  | mutex =>
      obtain ⟨l', V', hl', hunlock, hr', hok'⟩ := hr.mutexUp_inv hok h
      obtain rfl : l = l' := Option.some.inj (hl.symm.trans hl')
      exact ⟨V', hr', hok', hr.unlocks_state hok hl hunlock⟩
  | semaphore =>
      rcases hr.semaphoreUp_inv hok h with ⟨hnone, -⟩ | ⟨l', hl', V', hcase, hr', hok'⟩
      · rw [hl] at hnone
        cases hnone
      obtain rfl : l = l' := Option.some.inj (hl.symm.trans hl')
      refine ⟨V', hr', hok', ?_⟩
      rcases hcase with ⟨hlt, rfl⟩ | ⟨hle, hunlock⟩
      · have hwakes : l.state.wakes .semaphore = false := decide_eq_false (not_le.mpr hlt)
        rw [hr.lockState_setLock hl (by rfl), View.threadState_setLock, LockState.up, LockState.woken,
          hwakes]
        refine ⟨rfl, fun σ => ?_⟩
        rw [if_neg Bool.false_ne_true, if_neg fun hwoken => List.not_mem_nil hwoken.1]
      · have hwakes : l.state.wakes .semaphore = true := decide_eq_true hle
        rw [LockState.up, LockState.woken, hwakes]
        exact hr.unlocks_state hok hl hunlock

end Rep

/-! ## The locks of a program

The kernel serves a program as long as the states of its locks and its waiting threads are those
that the program has. Every step of the program and every event beside it keeps this. -/

section Program

variable {ι : Type} {key : ι → LockKey} {stands stands' : ThreadId → ι → Prop}
  {locks : ι → LockState} {k k' : Kernel} {τ : ThreadId} {i : ι} {fuel : Nat}

/-- The locks of the program are in the states `locks`. Who waits for one stands there, by `stands`,
and is blocked. -/
def Kernel.Serves (k : Kernel) (key : ι → LockKey) (stands : ThreadId → ι → Prop)
    (locks : ι → LockState) : Prop :=
  ∃ V, Rep k V ∧ V.Ok ∧ (∀ i, V.lockState (key i) = some (locks i)) ∧
    ∀ i, ∀ τ ∈ (locks i).waiting, stands τ i ∧ V.threadState τ = some .T_BLOCKED_MUTEX

/-- A thread that makes a step: it is the running one, and not blocked by a lock. -/
def Kernel.Goes (k : Kernel) (τ : ThreadId) : Prop :=
  k.Current τ ∧ ¬ k.ThreadIs τ .T_BLOCKED_MUTEX

/-- An event that is no call on a lock of the program. -/
def NotOn (key : ι → LockKey) (k : Kernel) (op : KernelOp) : Prop :=
  Sound k op ∧ ∀ i, ¬ op.Concerns (key i).1 (key i).2

namespace Kernel.Serves

theorem fresh (hrun : Run Sound k) (h : ∀ i, k.FreshLock (key i) (locks i).status)
    (hnobody : ∀ i, (locks i).waiting = []) : k.Serves key stands locks := by
  obtain ⟨V, hr, hok⟩ := hrun.rep
  refine ⟨V, hr, hok, fun i => ?_, fun i τ hτ => ?_⟩
  · rw [hr.lockState_fresh (h i), ← hnobody i]
  · rw [hnobody i] at hτ
    exact absurd hτ List.not_mem_nil

/-- A thread that is not blocked waits nowhere. -/
theorem not_waiting (h : k.Serves key stands locks) (hgo : ¬ k.ThreadIs τ .T_BLOCKED_MUTEX) (i : ι) :
    τ ∉ (locks i).waiting := by
  obtain ⟨V, hr, hok, -, hwait⟩ := h
  exact fun hmem => hgo ((hr.threadIs_iff hok).mpr (hwait i τ hmem).2)

/-- A thread that is not blocked moves on in its program. -/
theorem move (h : k.Serves key stands locks) (hgo : ¬ k.ThreadIs τ .T_BLOCKED_MUTEX)
    (hstands : ∀ σ, σ ≠ τ → ∀ i, stands σ i → stands' σ i) : k.Serves key stands' locks := by
  have hnot := h.not_waiting hgo
  obtain ⟨V, hr, hok, hlocks, hwait⟩ := h
  refine ⟨V, hr, hok, hlocks, fun i σ hσ => ?_⟩
  have hne : σ ≠ τ := fun heq => hnot i (heq ▸ hσ)
  exact ⟨hstands σ hne i (hwait i σ hσ).1, (hwait i σ hσ).2⟩

/-- One lock of the program changes, and the others have other keys. -/
theorem lockState_update [DecidableEq ι] {V : View} (hkey : Function.Injective key)
    (hlocks : ∀ i, V.lockState (key i) = some (locks i)) (i : ι) (s : LockState) (j : ι) :
    Function.update V.lockState (key i) (some s) (key j) = some (Function.update locks i s j) := by
  by_cases hj : j = i
  · subst hj
    rw [Function.update_self, Function.update_self]
  · rw [Function.update_of_ne hj, Function.update_of_ne fun heq => hj (hkey heq)]
    exact hlocks j

/-- A down of a thread that stands at the lock from then on. -/
theorem down [DecidableEq ι] (h : k.Serves key stands locks) (hkey : Function.Injective key) (hgo : k.Goes τ)
    (hcall : (key i).1.down fuel k (key i).2 = .ok k') (hτ : stands' τ i)
    (hstands : ∀ σ, σ ≠ τ → ∀ j, stands σ j → stands' σ j) :
    k'.Serves key stands' (Function.update locks i ((locks i).down τ (key i).1)) := by
  have hnot := h.not_waiting hgo.2
  obtain ⟨V, hr, hok, hlocks, hwait⟩ := h
  obtain ⟨V', hr', hok', hlocks', hthreads⟩ := hr.down_inv hok (hlocks i) hgo.1 hcall
  -- who waited before waits on, and is not the caller
  have hold : ∀ j, ∀ σ ∈ (locks j).waiting,
      stands' σ j ∧ V'.threadState σ = some .T_BLOCKED_MUTEX := by
    intro j σ hσ
    have hne : σ ≠ τ := fun heq => hnot j (heq ▸ hσ)
    refine ⟨hstands σ hne j (hwait j σ hσ).1, ?_⟩
    rw [hthreads]
    split
    · rw [Function.update_of_ne hne]
      exact (hwait j σ hσ).2
    · exact (hwait j σ hσ).2
  refine ⟨V', hr', hok', fun j => ?_, fun j σ hσ => ?_⟩
  · rw [hlocks']
    exact lockState_update hkey hlocks i _ j
  · by_cases hj : j = i
    · subst hj
      rw [Function.update_self, LockState.down_waiting] at hσ
      split at hσ
      case isTrue hblocks =>
          rcases List.mem_cons.mp hσ with rfl | hσ
          · refine ⟨hτ, ?_⟩
            rw [hthreads, if_pos hblocks, Function.update_self]
          · exact hold j σ hσ
      case isFalse _ => exact hold j σ hσ
    · rw [Function.update_of_ne hj] at hσ
      exact hold j σ hσ

/-- An up of a thread that moves on then. Nobody stands at two locks. -/
theorem up [DecidableEq ι] (h : k.Serves key stands locks) (hkey : Function.Injective key) (hgo : k.Goes τ)
    (hcall : (key i).1.up fuel k (key i).2 = .ok k')
    (hone : ∀ σ i j, stands σ i → stands σ j → i = j)
    (hstands : ∀ σ, σ ≠ τ → ∀ j, stands σ j → stands' σ j) :
    k'.Serves key stands' (Function.update locks i ((locks i).up (key i).1)) := by
  have hnot := h.not_waiting hgo.2
  obtain ⟨V, hr, hok, hlocks, hwait⟩ := h
  obtain ⟨V', hr', hok', hlocks', hthreads⟩ := hr.up_inv hok (hlocks i) hcall
  -- who is not woken by this up waits on
  have hold : ∀ j, ∀ σ ∈ (locks j).waiting, σ ∉ (locks i).woken (key i).1 →
      stands' σ j ∧ V'.threadState σ = some .T_BLOCKED_MUTEX := by
    intro j σ hσ hwoken
    have hne : σ ≠ τ := fun heq => hnot j (heq ▸ hσ)
    refine ⟨hstands σ hne j (hwait j σ hσ).1, ?_⟩
    rw [hthreads, if_neg fun hmem => hwoken hmem.1]
    exact (hwait j σ hσ).2
  refine ⟨V', hr', hok', fun j => ?_, fun j σ hσ => ?_⟩
  · rw [hlocks']
    exact lockState_update hkey hlocks i _ j
  · by_cases hj : j = i
    · subst hj
      rw [Function.update_self, LockState.up_waiting] at hσ
      split at hσ
      case isTrue _ => exact absurd hσ List.not_mem_nil
      case isFalse hwakes =>
          refine hold j σ hσ ?_
          rw [LockState.woken, if_neg hwakes]
          exact List.not_mem_nil
    -- a thread at another lock is woken only if it stands at both
    · rw [Function.update_of_ne hj] at hσ
      refine hold j σ hσ fun hwoken => ?_
      rw [LockState.woken] at hwoken
      split at hwoken
      case isTrue _ => exact hj (hone σ j i (hwait j σ hσ).1 (hwait i σ hwoken).1)
      case isFalse _ => exact absurd hwoken List.not_mem_nil

/-- An event that lets nobody go on who waits. -/
theorem other (h : k.Serves key stands locks) (hstep : KernelStep (NotOn key) k k')
    (hblocked : ∀ σ, (∃ i, stands σ i) → k.ThreadIs σ .T_BLOCKED_MUTEX →
      k'.ThreadIs σ .T_BLOCKED_MUTEX) : k'.Serves key stands locks := by
  obtain ⟨V, hr, hok, hlocks, hwait⟩ := h
  obtain ⟨k₁, op, fuel, hrec, ⟨hsound, hop⟩, hrun⟩ := hstep
  have hr₁ := hr.recycled hrec
  obtain ⟨V', heffect, hr', hok'⟩ := hr₁.run_inv hok hsound hrun
  refine ⟨V', hr', hok', fun i => ?_, fun i σ hσ => ?_⟩
  · obtain ⟨l, hl, hstate⟩ := Rep.lockState_some (hlocks i)
    rw [View.lockState, hr₁.lockWith_effect hok heffect (hop i) hl, ← hstate]
    rfl
  · obtain ⟨hst, hstate⟩ := hwait i σ hσ
    exact ⟨hst, (hr'.threadIs_iff hok').mp (hblocked σ ⟨i, hst⟩ ((hr.threadIs_iff hok).mpr hstate))⟩

theorem recycled (h : k.Serves key stands locks) (hrec : Recycled k k') :
    k'.Serves key stands locks := by
  obtain ⟨V, hr, hok, hlocks, hwait⟩ := h
  exact ⟨V, hr.recycled hrec, hok, hlocks, hwait⟩

/-- The answer of `isLocked` for a mutex of the program. -/
theorem isLocked_eq (h : k.Serves key stands locks) (hkind : (key i).1 = .mutex) {b : Bool}
    (hlocked : isLocked fuel k (key i).2 = .ok b) : b = decide ((locks i).status = MUTEX_LOCKED) := by
  obtain ⟨V, hr, -, hlocks, -⟩ := h
  obtain ⟨l, hl, hstate⟩ := Rep.lockState_some (hlocks i)
  rw [hkind] at hl
  rcases hr.isLocked_inv hlocked with ⟨hnone, -⟩ | ⟨l', hl', rfl⟩
  · rw [hl] at hnone
    cases hnone
  · obtain rfl : l = l' := Option.some.inj (hl.symm.trans hl')
    rw [← hstate]
    rfl

end Kernel.Serves

end Program

/-! ## Tests -/

/-- A test for a fresh lock. -/
def Kernel.freshLock? (k : Kernel) (x : LockKey) (status : Int) : Bool :=
  match findLock 40 k (k.lockList x.1) x.2 with
  | .ok a => a ≠ NULL ∧ (k.lock a).status = status ∧ (k.lock a).blockedThreadList = NULL
  | .error _ => false

theorem Kernel.freshLock_of {k : Kernel} {x : LockKey} {status : Int} (h : k.freshLock? x status) :
    k.FreshLock x status := by
  unfold Kernel.freshLock? at h
  split at h
  case h_1 a ha => exact ⟨40, a, ha, of_decide_eq_true h⟩
  case h_2 => cases h

/-- A test for a thread that makes a step. -/
def Kernel.goes? (k : Kernel) (τ : ThreadId) : Bool := k.Current τ ∧ k.threadIs? τ .T_RUNNING

theorem Run.goes_of {k : Kernel} {τ : ThreadId} (h : Run Sound k) (hgoes : k.goes? τ) : k.Goes τ := by
  obtain ⟨hcur, hrunning⟩ := of_decide_eq_true hgoes
  exact ⟨hcur, h.not_threadIs_of hrunning (by decide)⟩

/-- A tick that removes no process lets nobody go on who is blocked. -/
theorem Run.blocked_tick {k k' : Kernel} {τ : ThreadId} {fuel : Nat} {garbage : Garbage} {rsp : Addr}
    (h : Run Sound k) (hrun : KernelOp.runSound fuel [.tick garbage rsp] k = .ok k')
    (hτ : k.ThreadIs τ .T_BLOCKED_MUTEX) : k'.ThreadIs τ .T_BLOCKED_MUTEX := by
  obtain ⟨V, hr, hok⟩ := h.rep
  have halive : k.allAlive = true := by
    by_contra hdead
    rw [KernelOp.runSound] at hrun
    simp [KernelOp.sound?, hdead] at hrun
  obtain ⟨hsound, k₁, hstep, hrun⟩ := KernelOp.runSound_cons hrun
  obtain rfl := Except.ok.inj hrun
  obtain ⟨V', heffect, hr', hok'⟩ := hr.run_inv hok hsound hstep
  rcases (hr.switched_tick hok heffect).threads τ with ⟨⟨-, p, hp, -, hdead⟩, -⟩ | hdispatched
  · exact absurd hdead (hr.alive_of_allAlive halive p (List.mem_of_mem_take hp))
  · refine (hr'.threadIs_iff hok').mpr ((hdispatched.eq_of_asleep rfl).mp ?_)
    exact (hr.threadIs_iff hok).mp hτ

end BasicKernel
