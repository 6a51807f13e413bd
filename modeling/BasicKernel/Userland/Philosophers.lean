import BasicKernel.Locks.Users
import BasicKernel.Userland.Forks

set_option autoImplicit false

/-! # The philosophers

The program `philosophers` of the shell. The mutex of a philosopher is a signal: it is locked at the
start, `checkForks` unlocks it for a philosopher who gets the forks, and the philosopher locks it before
the meal. The threads are interleaved at every system call, those in `render` included.

`philosophers_fed` is about the runs without signals that an earlier meal has left: who is at its
meal has both forks. In `philosopher_eats_hungry` such a signal lets a philosopher eat without
forks.
-/

namespace BasicKernel

open Fuel Transition

/-! ## The program

Each thread stands in front of one step of the program. What a step reads and writes beside the
locks is in the table. -/

/-- The calls of `checkForks`: one in `takeForks`, two in `putForks`. -/
inductive ForkCheck where
  | own | left | right
  deriving DecidableEq

/-- What a philosopher does next. -/
inductive PhiloStep where
  /-- `mutexDown(mainMutexId)` in `takeForks` -/
  | takeForks
  /-- `philoState[philoId] = HUNGRY` -/
  | hungry
  /-- the condition of `checkForks` -/
  | check (c : ForkCheck)
  /-- `mutexUp(philoMutexId[philoId])` in `checkForks` -/
  | signal (c : ForkCheck)
  /-- `mutexUp(mainMutexId)` in `takeForks` -/
  | leaveTake
  /-- `mutexDown(philoMutexId[philoId])` in `takeForks` -/
  | wait
  /-- to return from `takeForks` and call `putForks` -/
  | eat
  /-- `mutexDown(mainMutexId)` in `putForks` -/
  | putForks
  /-- `philoState[philoId] = THINKING` -/
  | think
  /-- `mutexUp(mainMutexId)` in `putForks` -/
  | leavePut
  deriving DecidableEq

namespace ForkCheck

/-- The philosopher that the philosopher `i` checks. -/
def of (i : PhiloId) : ForkCheck → PhiloId
  | own => i
  | left => BasicKernel.left i
  | right => BasicKernel.right i

/-- What follows behind the call. -/
def after : ForkCheck → PhiloStep
  | own => .leaveTake
  | left => .check .right
  | right => .leavePut

end ForkCheck

/-- The numbers that `philosophers` stores. The thread `thread i` took `i` from `auxCounter`. -/
structure Philosophers where
  mainMutexId : Int
  philoMutexId : PhiloId → Int
  thread : PhiloId → ThreadId

/-- A state of a run. -/
structure PhiloRun where
  kernel : Kernel
  table : Table
  next : PhiloId → PhiloStep

/-- The loop of `philosophers`, with the threads in the order in which they are made. -/
def startPhilosophers (fuel : Nat) (pid : Int) (exec philosopher : Addr) :
    Nat → Kernel → Except Stop (List (Int × Int) × Kernel)
  | 0, k => return ([], k)
  | n + 1, k => do
      let (philoMutexId, k) ← createMutex fuel k
      let k ← mutexDown fuel k philoMutexId
      let (philosopherId, k) ← addThreadToProcess fuel k pid exec philosopher
      let (ids, k) ← startPhilosophers fuel pid exec philosopher n k
      return ((philoMutexId, philosopherId) :: ids, k)

/-- `philosophers`: the main mutex, and for each philosopher its mutex and a thread. -/
def philosophers (fuel : Nat) (k : Kernel) (exec philosopher : Addr) :
    Except Stop (Int × List (Int × Int) × Kernel) := do
  let pid ← getCurrentPid k
  let (mainMutexId, k) ← createMutex fuel k
  let (ids, k) ← startPhilosophers fuel pid exec philosopher PHILOSOPHERS_COUNT k
  return (mainMutexId, ids, k)

/-- The locks of the program. -/
inductive PhiloLock where
  | main | philo (i : PhiloId)
  deriving DecidableEq

namespace PhiloRun

/-- The philosopher `i` moves on to the step `x`. -/
def move (s : PhiloRun) (i : PhiloId) (x : PhiloStep) : PhiloRun :=
  { s with next := Function.update s.next i x }

end PhiloRun

namespace Philosophers

variable (P : Philosophers)

def key : PhiloLock → LockKey
  | .main => (.mutex, P.mainMutexId)
  | .philo i => (.mutex, P.philoMutexId i)

/-- The next step of the philosopher `i`. -/
def go (fuel : Nat) (i : PhiloId) (s : PhiloRun) : Except Stop PhiloRun :=
  match s.next i with
  | .takeForks => do
      let kernel ← mutexDown fuel s.kernel P.mainMutexId
      return { s.move i .hungry with kernel }
  | .hungry =>
      let philoState := Function.update s.table.philoState i .HUNGRY
      return { s.move i (.check .own) with table := { s.table with philoState } }
  | .check c =>
      if s.table.forksAvailable (c.of i) then
        return { s.move i (.signal c) with table := s.table.pickUp (c.of i) }
      else
        return s.move i c.after
  | .signal c => do
      let kernel ← mutexUp fuel s.kernel (P.philoMutexId (c.of i))
      return { s.move i c.after with kernel }
  | .leaveTake => do
      let kernel ← mutexUp fuel s.kernel P.mainMutexId
      return { s.move i .wait with kernel }
  | .wait => do
      let kernel ← mutexDown fuel s.kernel (P.philoMutexId i)
      return { s.move i .eat with kernel }
  | .eat => return s.move i .putForks
  | .putForks => do
      let kernel ← mutexDown fuel s.kernel P.mainMutexId
      return { s.move i .think with kernel }
  | .think => return { s.move i (.check .left) with table := s.table.putDown i }
  | .leavePut => do
      let kernel ← mutexUp fuel s.kernel P.mainMutexId
      return { s.move i .takeForks with kernel }

/-- The loop of `philosophers` is done, and no philosopher has started. -/
structure Started (s : PhiloRun) : Prop where
  run : Run Sound s.kernel
  mainMutex : s.kernel.FreshLock (.mutex, P.mainMutexId) MUTEX_UNLOCKED
  philoMutex : ∀ i, s.kernel.FreshLock (.mutex, P.philoMutexId i) MUTEX_LOCKED
  main_ne : ∀ i, P.mainMutexId ≠ P.philoMutexId i
  mutexes : Function.Injective P.philoMutexId
  threads : Function.Injective P.thread
  table : s.table = .start
  next : ∀ i, s.next i = .takeForks

/-- A step of a run, by a philosopher or by somebody else. A thread goes on only while no lock blocks it,
and the events that are no calls on the locks of the program let nobody go on who waits for one. -/
inductive Step : Option PhiloId → PhiloRun → PhiloRun → Prop
  | go {s s' : PhiloRun} {fuel : Nat} (i : PhiloId) : s.kernel.Goes (P.thread i) →
      P.go fuel i s = .ok s' → Step (some i) s s'
  | other {s : PhiloRun} {k' : Kernel} : KernelStep (NotOn P.key) s.kernel k' →
      (∀ i, s.kernel.ThreadIs (P.thread i) .T_BLOCKED_MUTEX →
        k'.ThreadIs (P.thread i) .T_BLOCKED_MUTEX) → Step none s { s with kernel := k' }
  | recycle {s : PhiloRun} {k' : Kernel} : Recycled s.kernel k' →
      Step none s { s with kernel := k' }

/-- The philosopher has returned from `takeForks` and has not called `putForks`. -/
def AtMeal (s : PhiloRun) (i : PhiloId) : Prop :=
  s.next i = .eat ∧ ¬ s.kernel.ThreadIs (P.thread i) .T_BLOCKED_MUTEX

/-- The philosopher holds both forks, and its neighbours are not at their meals. -/
structure Fed (s : PhiloRun) (i : PhiloId) : Prop where
  eating : s.table.philoState i = .EATING
  leftFork : s.table.forkState (left i) = i
  rightFork : s.table.forkState i = i
  leftNeighbour : ¬ P.AtMeal s (left i)
  rightNeighbour : ¬ P.AtMeal s (right i)

/-- A philosopher who enters `takeForks` finds its mutex locked. -/
def NoStaleSignal (s : PhiloRun) (e : Option PhiloId) : Prop :=
  ∀ i, e = some i → s.next i = .takeForks →
    ∃ fuel, isLocked fuel s.kernel (P.philoMutexId i) = .ok true

/-- The steps without a signal that an earlier meal has left. -/
def CleanStep (s s' : PhiloRun) : Prop := ∃ e, P.Step e s s' ∧ P.NoStaleSignal s e

end Philosophers

/-! ## The dinner of a run

A state of a run is seen as a dinner: the step of a thread gives its phase, and the status of a
mutex tells whether a signal is there. -/

/-- The phase of a philosopher, who waits for its mutex or not. -/
def PhiloStep.phase (waits : Bool) : PhiloStep → Phase
  | .hungry => .enters
  | .check .own => .asks
  | .signal .own => .asks
  | .leaveTake => .asks
  | .wait => .asks
  | .eat => if waits then .asks else .eats
  | .putForks => .eats
  | .think => .eats
  | _ => .rests

/-- Whom the philosopher `i` is about to signal. -/
def PhiloStep.signals (i : PhiloId) : PhiloStep → Option PhiloId
  | .signal c => some (c.of i)
  | _ => none

/-- Who is not in front of its meal waits for no signal. -/
theorem PhiloStep.phase_congr {x : PhiloStep} (hx : x ≠ .eat) (waits waits' : Bool) :
    x.phase waits = x.phase waits' := by
  cases x with
  | eat => exact absurd rfl hx
  | check c => cases c <;> rfl
  | signal c => cases c <;> rfl
  | _ => rfl

namespace PhiloRun

variable (P : Philosophers) (s : PhiloRun) (locks : PhiloLock → LockState)

def seating : Seating where
  phase i := (s.next i).phase (decide (P.thread i ∈ (locks (.philo i)).waiting))
  signals i := (s.next i).signals i
  locked i := decide ((locks (.philo i)).status = MUTEX_LOCKED)
  table := s.table

/-- The last call of the thread was a down of the lock. -/
def Stands (τ : ThreadId) (x : PhiloLock) : Prop :=
  ∃ i, τ = P.thread i ∧
    ((s.next i = .hungry ∨ s.next i = .think) ∧ x = .main ∨ s.next i = .eat ∧ x = .philo i)

/-- The kernel serves the program, and its dinner is sound. -/
structure Kept : Prop where
  main_ne : ∀ i, P.mainMutexId ≠ P.philoMutexId i
  mutexes : Function.Injective P.philoMutexId
  threads : Function.Injective P.thread
  serves : s.kernel.Serves P.key (s.Stands P) locks
  sound : (s.seating P locks).Sound

variable {P s locks} {s' : PhiloRun} {locks' : PhiloLock → LockState} {i : PhiloId} {x : PhiloStep}
  {k' : Kernel} {fuel : Nat}

theorem Stands.of_ne {τ : ThreadId} {y : PhiloLock} (h : s.Stands P τ y)
    (hnext : s'.next = Function.update s.next i x) (hne : τ ≠ P.thread i) : s'.Stands P τ y := by
  obtain ⟨j, rfl, hcase⟩ := h
  have hji : j ≠ i := fun heq => hne (congrArg P.thread heq)
  refine ⟨j, rfl, ?_⟩
  rw [hnext, Function.update_of_ne hji]
  exact hcase

theorem Stands.unique (hthreads : Function.Injective P.thread) {τ : ThreadId} {y z : PhiloLock}
    (h : s.Stands P τ y) (h' : s.Stands P τ z) : y = z := by
  obtain ⟨i, rfl, hi⟩ := h
  obtain ⟨j, heq, hj⟩ := h'
  obtain rfl := hthreads heq
  rcases hi with ⟨hi, rfl⟩ | ⟨hi, rfl⟩
  · rcases hj with ⟨-, rfl⟩ | ⟨hj, -⟩
    · rfl
    · rw [hj] at hi
      rcases hi with hi | hi <;> cases hi
  · rcases hj with ⟨hj, -⟩ | ⟨-, rfl⟩
    · rw [hi] at hj
      rcases hj with hj | hj <;> cases hj
    · rfl

namespace Kept

theorem key_injective (h : s.Kept P locks) : Function.Injective P.key := by
  intro y z hyz
  cases y with
  | main =>
      cases z with
      | main => rfl
      | philo j => exact absurd (congrArg Prod.snd hyz) (h.main_ne j)
  | philo i =>
      cases z with
      | main => exact absurd (congrArg Prod.snd hyz).symm (h.main_ne i)
      | philo j => exact congrArg PhiloLock.philo (h.mutexes (congrArg Prod.snd hyz))

/-- A thread that makes a step does not wait for its mutex. -/
theorem not_waiting (h : s.Kept P locks) (hgo : s.kernel.Goes (P.thread i)) :
    decide (P.thread i ∈ (locks (.philo i)).waiting) = false :=
  decide_eq_false (h.serves.not_waiting hgo.2 _)

/-- A step that is no call of the kernel. -/
theorem localStep (h : s.Kept P locks) (hgo : s.kernel.Goes (P.thread i))
    (hkernel : s'.kernel = s.kernel) (hnext : s'.next = Function.update s.next i x)
    (hsound : (s'.seating P locks).Sound) : s'.Kept P locks where
  main_ne := h.main_ne
  mutexes := h.mutexes
  threads := h.threads
  serves := by
    rw [hkernel]
    exact h.serves.move hgo.2 fun σ hσ y hst => hst.of_ne hnext hσ
  sound := hsound

end Kept

/-! ### The dinner of the next state

A step of a thread is one move of the dinner, or none. -/

/-- A philosopher moves on: its phase and whom it signals. -/
theorem seating_move (hnext : s'.next = Function.update s.next i x)
    (hlocks : ∀ j, locks' (.philo j) = locks (.philo j)) : s'.seating P locks' =
      ⟨Function.update (s.seating P locks).phase i
          (x.phase (decide (P.thread i ∈ (locks (.philo i)).waiting))),
        Function.update (s.seating P locks).signals i (x.signals i),
        (s.seating P locks).locked, s'.table⟩ := by
  rw [seating, Seating.mk.injEq]
  refine ⟨funext fun j => ?_, funext fun j => ?_, funext fun j => ?_, rfl⟩
  · rw [hnext, hlocks]
    by_cases hji : j = i
    · subst hji
      rw [Function.update_self, Function.update_self]
    · rw [Function.update_of_ne hji, Function.update_of_ne hji, seating]
  · rw [hnext]
    by_cases hji : j = i
    · subst hji
      rw [Function.update_self, Function.update_self]
    · rw [Function.update_of_ne hji, Function.update_of_ne hji, seating]
  · rw [hlocks, seating]

/-- The same when the state of a mutex changes. -/
theorem seating_lock (hnext : s'.next = Function.update s.next i x) (j : PhiloId) (l : LockState) :
    s'.seating P (Function.update locks (.philo j) l) =
      ⟨Function.update (Function.update (s.seating P locks).phase i
            (x.phase (decide (P.thread i ∈ (locks (.philo i)).waiting))))
          j ((s'.next j).phase (decide (P.thread j ∈ l.waiting))),
        Function.update (s.seating P locks).signals i (x.signals i),
        Function.update (s.seating P locks).locked j (decide (l.status = MUTEX_LOCKED)), s'.table⟩ := by
  have hmove := @seating_move P s locks s' locks i x hnext fun _ => rfl
  rw [Seating.mk.injEq] at hmove
  rw [seating, Seating.mk.injEq, ← hmove.1, ← hmove.2.1, ← hmove.2.2.1]
  refine ⟨funext fun m => ?_, rfl, funext fun m => ?_, rfl⟩
  · by_cases hmj : m = j
    · subst hmj
      rw [Function.update_self, Function.update_self]
    · rw [Function.update_of_ne hmj, Function.update_of_ne fun heq => hmj (PhiloLock.philo.inj heq)]
      rfl
  · by_cases hmj : m = j
    · subst hmj
      rw [Function.update_self, Function.update_self]
    · rw [Function.update_of_ne hmj, Function.update_of_ne fun heq => hmj (PhiloLock.philo.inj heq)]
      rfl

/-- A call on the main mutex leaves the others alone. -/
theorem update_main (l : LockState) (j : PhiloId) :
    Function.update locks .main l (.philo j) = locks (.philo j) :=
  Function.update_of_ne (by simp) _ _

namespace Kept

/-- A philosopher moves on in its phase, and has nobody to signal. -/
theorem sound_same (h : s.Kept P locks) (hnext : s'.next = Function.update s.next i x)
    (hlocks : ∀ j, locks' (.philo j) = locks (.philo j)) (htable : s'.table = s.table)
    (hphase : (s.seating P locks).phase i
      = x.phase (decide (P.thread i ∈ (locks (.philo i)).waiting)))
    (hsignals : (s.seating P locks).signals i = x.signals i) : (s'.seating P locks').Sound := by
  rw [seating_move hnext hlocks, ← hphase, ← hsignals, htable, Function.update_eq_self,
    Function.update_eq_self]
  exact h.sound

/-- A down of the main mutex. -/
theorem mutexDown_main (h : s.Kept P locks) (hgo : s.kernel.Goes (P.thread i))
    (hcall : mutexDown fuel s.kernel P.mainMutexId = .ok k')
    (hx : x = .hungry ∨ x = .think)
    (hsound : ∀ locks' : PhiloLock → LockState, (∀ j, locks' (.philo j) = locks (.philo j)) →
      (seating P { s.move i x with kernel := k' } locks').Sound) :
    ∃ locks', Kept P { s.move i x with kernel := k' } locks' := by
  have hcall' : (P.key .main).1.down fuel s.kernel (P.key .main).2 = .ok k' := hcall
  have hstands : Stands P { s.move i x with kernel := k' } (P.thread i) .main := by
    refine ⟨i, rfl, .inl ⟨?_, rfl⟩⟩
    simp only [move, Function.update_self]
    exact hx
  have hserves := h.serves.down h.key_injective hgo hcall' hstands fun σ hσ y hst => hst.of_ne rfl hσ
  exact ⟨_, h.main_ne, h.mutexes, h.threads, hserves, hsound _ (update_main _)⟩

/-- An up of the main mutex. -/
theorem mutexUp_main (h : s.Kept P locks) (hgo : s.kernel.Goes (P.thread i))
    (hcall : mutexUp fuel s.kernel P.mainMutexId = .ok k')
    (hsound : ∀ locks' : PhiloLock → LockState, (∀ j, locks' (.philo j) = locks (.philo j)) →
      (seating P { s.move i x with kernel := k' } locks').Sound) :
    ∃ locks', Kept P { s.move i x with kernel := k' } locks' := by
  have hcall' : (P.key .main).1.up fuel s.kernel (P.key .main).2 = .ok k' := hcall
  have hstands : ∀ σ, σ ≠ P.thread i → ∀ y, s.Stands P σ y →
      Stands P { s.move i x with kernel := k' } σ y := fun σ hσ y hst => hst.of_ne rfl hσ
  have hserves := h.serves.up h.key_injective hgo hcall' (fun σ y z => Stands.unique h.threads)
    hstands
  exact ⟨_, h.main_ne, h.mutexes, h.threads, hserves, hsound _ (update_main _)⟩

/-- A down of the own mutex: the philosopher takes its signal, or waits for it. -/
theorem mutexDown_philo (h : s.Kept P locks) (hgo : s.kernel.Goes (P.thread i))
    (hi : s.next i = .wait) (hcall : mutexDown fuel s.kernel (P.philoMutexId i) = .ok k') :
    ∃ locks', Kept P { s.move i .eat with kernel := k' } locks' := by
  -- The next state and its parts, under names that rewriting does not unfold.
  generalize hs' : ({ s.move i .eat with kernel := k' } : PhiloRun) = s'
  have hnext : s'.next = Function.update s.next i .eat := by rw [← hs']; rfl
  have htable : s'.table = (s.seating P locks).table := by rw [← hs']; rfl
  have hkernel : s'.kernel = k' := by rw [← hs']
  have hcall' : (P.key (.philo i)).1.down fuel s.kernel (P.key (.philo i)).2 = .ok k' := hcall
  have hstands : s'.Stands P (P.thread i) (.philo i) :=
    ⟨i, rfl, .inr ⟨by rw [hnext, Function.update_self], rfl⟩⟩
  -- The lock changes as the kernel says, and the philosopher now stands at its own mutex.
  have hserves := h.serves.down h.key_injective hgo hcall' hstands fun σ hσ y hst => hst.of_ne hnext hσ
  refine ⟨_, h.main_ne, h.mutexes, h.threads, by rw [hkernel]; exact hserves, ?_⟩
  have hasks : (s.seating P locks).phase i = .asks := by simp only [seating, hi, PhiloStep.phase]
  have hsignals : PhiloStep.signals i .eat = (s.seating P locks).signals i := by
    simp only [seating, hi, PhiloStep.signals]
  have hlocked : ((locks (.philo i)).down (P.thread i) .mutex).status = MUTEX_LOCKED := rfl
  -- All that changes in the dinner is the phase and the lock of this philosopher.
  rw [show (P.key (.philo i)).1 = .mutex from rfl, seating_lock hnext, Function.update_idem,
    hsignals, Function.update_eq_self, htable, hlocked, hnext, Function.update_self,
    LockState.down_waiting]
  cases hblocks : (locks (.philo i)).blocks .mutex with
  | true =>
      -- the philosopher is entered into the wait list, and nothing else happens
      have hsame : (s.seating P locks).locked i = true := hblocks
      rw [if_pos rfl, decide_eq_true List.mem_cons_self, decide_eq_true rfl]
      rw [show PhiloStep.phase true .eat = (s.seating P locks).phase i from hasks.symm, ← hsame,
        Function.update_eq_self, Function.update_eq_self]
      exact h.sound
  -- The mutex was unlocked: the signal is taken.
  | false =>
      have hfree : (s.seating P locks).locked i = false := hblocks
      rw [if_neg Bool.false_ne_true, h.not_waiting hgo, decide_eq_true rfl]
      exact h.sound.moves (.take hasks hfree)

/-- An up of a mutex in `checkForks`: the philosopher who got the forks has its signal. -/
theorem mutexUp_philo (h : s.Kept P locks) (hgo : s.kernel.Goes (P.thread i)) {c : ForkCheck}
    (hi : s.next i = .signal c) (hcall : mutexUp fuel s.kernel (P.philoMutexId (c.of i)) = .ok k') :
    ∃ locks', Kept P { s.move i c.after with kernel := k' } locks' := by
  -- As for the down, with the mutex of the philosopher who is signalled.
  generalize hs' : ({ s.move i c.after with kernel := k' } : PhiloRun) = s'
  have hnext : s'.next = Function.update s.next i c.after := by rw [← hs']; rfl
  have htable : s'.table = (s.seating P locks).table := by rw [← hs']; rfl
  have hkernel : s'.kernel = k' := by rw [← hs']
  generalize hj : c.of i = j at hcall
  have hcall' : (P.key (.philo j)).1.up fuel s.kernel (P.key (.philo j)).2 = .ok k' := hcall
  have hstands : ∀ σ, σ ≠ P.thread i → ∀ y, s.Stands P σ y → s'.Stands P σ y :=
    fun σ hσ y hst => hst.of_ne hnext hσ
  have hserves := h.serves.up h.key_injective hgo hcall' (fun σ y z => Stands.unique h.threads)
    hstands
  refine ⟨_, h.main_ne, h.mutexes, h.threads, by rw [hkernel]; exact hserves, ?_⟩
  -- The signalling philosopher stays in its phase and has given its signal.
  have hphase : ∀ waits, c.after.phase waits = (s.seating P locks).phase i := by
    intro waits
    simp only [seating, hi]
    cases c <;> rfl
  have hgiven : c.after.signals i = none := by cases c <;> rfl
  have hsignals : (s.seating P locks).signals i = some j := by
    simp only [seating, hi, PhiloStep.signals, hj]
  have hunlocked : decide (((locks (.philo j)).up .mutex).status = MUTEX_LOCKED) = false :=
    decide_eq_false (show MUTEX_UNLOCKED ≠ MUTEX_LOCKED by decide)
  have hempty : ((locks (.philo j)).up .mutex).waiting = [] := rfl
  rw [show (P.key (.philo j)).1 = .mutex from rfl, seating_lock hnext, hphase,
    Function.update_eq_self, hgiven, htable, hunlocked, hempty, decide_eq_false List.not_mem_nil]
  by_cases heat : s.next j = .eat
  · -- who waits for the signal is woken
    have hji : j ≠ i := by
      rintro rfl
      rw [heat] at hi
      cases hi
    rw [hnext, Function.update_of_ne hji, heat]
    exact h.sound.moves (.wake hsignals)
  -- Nobody waits for the signal yet, and it is left in the mutex.
  · have hsame : (s'.next j).phase false = (s.seating P locks).phase j := by
      by_cases hji : j = i
      · rw [hji, hnext, Function.update_self, hphase]
      · rw [hnext, Function.update_of_ne hji]
        exact PhiloStep.phase_congr heat _ _
    rw [hsame, Function.update_eq_self]
    exact h.sound.moves (.signal hsignals)

/-! ### The steps -/

theorem go (h : s.Kept P locks) (hgo : s.kernel.Goes (P.thread i)) (hrun : P.go fuel i s = .ok s')
    (hlocked : s.next i = .takeForks → (s.seating P locks).locked i = true) :
    ∃ locks', s'.Kept P locks' := by
  unfold Philosophers.go at hrun
  have hphase : (s.seating P locks).phase i
      = (s.next i).phase (decide (P.thread i ∈ (locks (.philo i)).waiting)) := rfl
  have hsignals : (s.seating P locks).signals i = (s.next i).signals i := rfl
  -- One case for each line of the program: a call on a lock, or a move of the dinner.
  cases hi : s.next i with
  | takeForks =>
      rw [hi] at hrun hphase hsignals
      obtain ⟨k', hcall, hrun⟩ := bind_eq_ok.mp hrun
      obtain rfl := Except.ok.inj hrun
      refine h.mutexDown_main hgo hcall (.inl rfl) fun locks' hlocks => ?_
      have henter := h.sound.moves (.enter hphase (hlocked hi))
      rw [seating_move rfl hlocks, show PhiloStep.signals i .hungry = _ from hsignals.symm,
        Function.update_eq_self]
      exact henter
  | hungry =>
      rw [hi] at hrun hphase hsignals
      obtain rfl := Except.ok.inj hrun
      refine ⟨locks, h.localStep hgo rfl rfl ?_⟩
      have hask := h.sound.moves (.ask hphase)
      rw [seating_move rfl fun _ => rfl,
        show PhiloStep.signals i (.check .own) = _ from hsignals.symm, Function.update_eq_self]
      exact hask
  | check c =>
      rw [hi] at hrun hphase hsignals
      dsimp only at hrun
      split at hrun
      -- The forks are free, so that they are picked up for that philosopher.
      case isTrue hforks =>
          obtain rfl := Except.ok.inj hrun
          refine ⟨locks, h.localStep hgo rfl rfl ?_⟩
          have hgrant := h.sound.moves (.grant hsignals hforks)
          have hsame : ∀ waits, PhiloStep.phase waits (.signal c) = PhiloStep.phase waits (.check c) := by
            intro waits
            cases c <;> rfl
          rw [seating_move rfl fun _ => rfl, hsame, ← hphase, Function.update_eq_self]
          exact hgrant
      -- They are not, and nothing has changed but the line of the program.
      case isFalse _ =>
          obtain rfl := Except.ok.inj hrun
          refine ⟨locks, h.localStep hgo rfl rfl (h.sound_same rfl (fun _ => rfl) rfl ?_ ?_)⟩
          · rw [hphase]
            cases c <;> rfl
          · rw [hsignals]
            cases c <;> rfl
  | signal c =>
      rw [hi] at hrun
      obtain ⟨k', hcall, hrun⟩ := bind_eq_ok.mp hrun
      obtain rfl := Except.ok.inj hrun
      exact h.mutexUp_philo hgo hi hcall
  | leaveTake =>
      rw [hi] at hrun hphase hsignals
      obtain ⟨k', hcall, hrun⟩ := bind_eq_ok.mp hrun
      obtain rfl := Except.ok.inj hrun
      refine h.mutexUp_main hgo hcall fun locks' hlocks => ?_
      exact h.sound_same rfl hlocks rfl hphase hsignals
  | wait =>
      rw [hi] at hrun
      obtain ⟨k', hcall, hrun⟩ := bind_eq_ok.mp hrun
      obtain rfl := Except.ok.inj hrun
      exact h.mutexDown_philo hgo hi hcall
  | eat =>
      rw [hi] at hrun hphase hsignals
      rw [h.not_waiting hgo] at hphase
      obtain rfl := Except.ok.inj hrun
      refine ⟨locks, h.localStep hgo rfl rfl (h.sound_same rfl (fun _ => rfl) rfl ?_ hsignals)⟩
      rw [h.not_waiting hgo]
      exact hphase
  | putForks =>
      rw [hi] at hrun hphase hsignals
      obtain ⟨k', hcall, hrun⟩ := bind_eq_ok.mp hrun
      obtain rfl := Except.ok.inj hrun
      refine h.mutexDown_main hgo hcall (.inr rfl) fun locks' hlocks => ?_
      exact h.sound_same rfl hlocks rfl hphase hsignals
  | think =>
      rw [hi] at hrun hphase hsignals
      obtain rfl := Except.ok.inj hrun
      refine ⟨locks, h.localStep hgo rfl rfl ?_⟩
      have hthink := h.sound.moves (.think hphase)
      rw [seating_move rfl fun _ => rfl,
        show PhiloStep.signals i (.check .left) = _ from hsignals.symm, Function.update_eq_self]
      exact hthink
  | leavePut =>
      rw [hi] at hrun hphase hsignals
      obtain ⟨k', hcall, hrun⟩ := bind_eq_ok.mp hrun
      obtain rfl := Except.ok.inj hrun
      refine h.mutexUp_main hgo hcall fun locks' hlocks => ?_
      exact h.sound_same rfl hlocks rfl hphase hsignals

theorem step (h : s.Kept P locks) (hstep : P.CleanStep s s') : ∃ locks', s'.Kept P locks' := by
  obtain ⟨e, hstep, hclean⟩ := hstep
  cases hstep with
  | go i hgo hrun =>
      refine h.go hgo hrun fun hi => ?_
      obtain ⟨fuel, hlocked⟩ := hclean i rfl hi
      exact (h.serves.isLocked_eq (i := .philo i) rfl hlocked).symm
  | other hother hblocked =>
      refine ⟨locks, h.main_ne, h.mutexes, h.threads, h.serves.other hother ?_, h.sound⟩
      rintro σ ⟨y, i, rfl, -⟩
      exact hblocked i
  | recycle hrec =>
      exact ⟨locks, h.main_ne, h.mutexes, h.threads, h.serves.recycled hrec, h.sound⟩

/-- Who is at its meal eats. -/
theorem eating (h : s.Kept P locks) (hmeal : P.AtMeal s i) : s.table.philoState i = .EATING := by
  have hphase : (s.seating P locks).phase i = .eats := by
    simp only [seating, hmeal.1, PhiloStep.phase,
      decide_eq_false (h.serves.not_waiting hmeal.2 (.philo i))]
    rfl
  exact (Seating.fits_eats hphase).mp (h.sound.fits i)

theorem fed (h : s.Kept P locks) (hmeal : P.AtMeal s i) : P.Fed s i := by
  have heating := h.eating hmeal
  obtain ⟨⟨hleft, hright⟩, hneighbours⟩ := h.sound.forks i heating
  exact ⟨heating, hleft, hright, fun hmeal' => hneighbours.1 (h.eating hmeal'),
    fun hmeal' => hneighbours.2 (h.eating hmeal')⟩

end Kept

end PhiloRun

/-- The states of the locks when the first philosopher starts. -/
def PhiloLock.atStart : PhiloLock → LockState
  | .main => ⟨MUTEX_UNLOCKED, []⟩
  | .philo _ => ⟨MUTEX_LOCKED, []⟩

theorem Philosophers.Started.kept {P : Philosophers} {s : PhiloRun} (h : P.Started s) :
    s.Kept P PhiloLock.atStart where
  main_ne := h.main_ne
  mutexes := h.mutexes
  threads := h.threads
  serves := by
    refine .fresh h.run (fun x => ?_) fun x => ?_
    · cases x with
      | main => exact h.mainMutex
      | philo i => exact h.philoMutex i
    · cases x <;> rfl
  sound := by
    -- Everybody rests, thinks and has no signal.
    have hphase : ∀ i, (s.seating P PhiloLock.atStart).phase i = .rests := by
      intro i
      simp only [PhiloRun.seating, h.next, PhiloStep.phase]
    have hthinking : ∀ i, (s.seating P PhiloLock.atStart).table.philoState i = .THINKING := by
      intro i
      simp only [PhiloRun.seating, h.table, Table.start]
    have hsignals : ∀ i, (s.seating P PhiloLock.atStart).signals i = none := by
      intro i
      simp only [PhiloRun.seating, h.next, PhiloStep.signals]
    constructor
    case fits => exact fun i => (Seating.fits_rests (hphase i)).mpr (hthinking i)
    case signals =>
        intro i j hj
        rw [hsignals] at hj
        cases hj
    case one =>
        intro i j j' hj
        rw [hsignals] at hj
        cases hj
    case forks =>
        intro i hi
        rw [hthinking] at hi
        cases hi

/-- In every run in which a philosopher enters `takeForks` only with a locked mutex of its own, who is at
its meal holds both forks, and its neighbours are not at their meals. -/
theorem philosophers_fed {P : Philosophers} {s : PhiloRun} (h : Reachable P.Started P.CleanStep s)
    (i : PhiloId) (hmeal : P.AtMeal s i) : P.Fed s i := by
  obtain ⟨locks, hkept⟩ := h.invariant (I := fun s => ∃ locks, s.Kept P locks)
    (fun _ hs => ⟨_, hs.kept⟩) fun _ _ _ ⟨_, hs⟩ hstep => hs.step hstep
  exact hkept.fed hmeal

/-! ### A signal is left -/

/-- A test: the page of every new mutex holds null pointers. -/
def startPhilosophersClean (fuel : Nat) (pid : Int) (exec philosopher : Addr) :
    Nat → Kernel → Except Stop Bool
  | 0, _ => return true
  | n + 1, k => do
      let (philoMutexId, k₁) ← createMutex fuel k
      let k₂ ← mutexDown fuel k₁ philoMutexId
      let (_, k₃) ← addThreadToProcess fuel k₂ pid exec philosopher
      return k.cleanLock? && (← startPhilosophersClean fuel pid exec philosopher n k₃)

def philosophersClean (fuel : Nat) (k : Kernel) (exec philosopher : Addr) : Except Stop Bool := do
  let pid ← getCurrentPid k
  let (_, k₁) ← createMutex fuel k
  return k.cleanLock? && (← startPhilosophersClean fuel pid exec philosopher PHILOSOPHERS_COUNT k₁)

theorem Run.startPhilosophers {pid : Int} {exec philosopher : Addr} {fuel n : Nat}
    {ids : List (Int × Int)} {k k' : Kernel} (hrun : Run Sound k)
    (h : startPhilosophers fuel pid exec philosopher n k = .ok (ids, k'))
    (hclean : startPhilosophersClean fuel pid exec philosopher n k = .ok true) : Run Sound k' := by
  -- Each turn makes a mutex, locks it and makes a thread, and all three are events of a run.
  induction n generalizing k ids with
  | zero =>
      obtain ⟨rfl, rfl⟩ := Prod.mk.inj (Except.ok.inj h)
      exact hrun
  | succ n ih =>
      rw [BasicKernel.startPhilosophers] at h
      rw [startPhilosophersClean] at hclean
      obtain ⟨⟨id, k₁⟩, hmutex, h⟩ := bind_eq_ok.mp h
      obtain ⟨k₂, hdown, h⟩ := bind_eq_ok.mp h
      obtain ⟨⟨pthread, k₃⟩, hthread, h⟩ := bind_eq_ok.mp h
      obtain ⟨⟨rest, k₄⟩, hrest, h⟩ := bind_eq_ok.mp h
      obtain ⟨rfl, rfl⟩ := Prod.mk.inj (Except.ok.inj h)
      simp only [hmutex, hdown, hthread, ok_bind] at hclean
      obtain ⟨b, hb, hclean⟩ := bind_eq_ok.mp hclean
      obtain ⟨hlock, rfl⟩ := (Bool.and_eq_true _ _).mp (Except.ok.inj hclean)
      have hrun₁ : Run Sound k₁ :=
        hrun.step .createMutex (Kernel.cleanLock_of hlock) (bind_eq_ok.mpr ⟨_, hmutex, rfl⟩)
      have hrun₂ : Run Sound k₂ := hrun₁.step (.mutexDown id) trivial hdown
      have hrun₃ : Run Sound k₃ :=
        hrun₂.step (.addThread pid exec philosopher) trivial (bind_eq_ok.mpr ⟨_, hthread, rfl⟩)
      exact ih hrun₃ hrest hb

theorem Run.philosophers {exec philosopher : Addr} {fuel : Nat} {id : Int} {ids : List (Int × Int)}
    {k k' : Kernel} (hrun : Run Sound k)
    (h : philosophers fuel k exec philosopher = .ok (id, ids, k'))
    (hclean : philosophersClean fuel k exec philosopher = .ok true) : Run Sound k' := by
  rw [BasicKernel.philosophers] at h
  rw [philosophersClean] at hclean
  obtain ⟨pid, hpid, h⟩ := bind_eq_ok.mp h
  obtain ⟨⟨id', k₁⟩, hmutex, h⟩ := bind_eq_ok.mp h
  obtain ⟨⟨ids', k₂⟩, hloop, h⟩ := bind_eq_ok.mp h
  obtain ⟨-, h⟩ := Prod.mk.inj (Except.ok.inj h)
  obtain ⟨rfl, rfl⟩ := Prod.mk.inj h
  simp only [hpid, hmutex, ok_bind] at hclean
  obtain ⟨b, hb, hclean⟩ := bind_eq_ok.mp hclean
  obtain ⟨hlock, rfl⟩ := (Bool.and_eq_true _ _).mp (Except.ok.inj hclean)
  have hrun₁ : Run Sound k₁ :=
    hrun.step .createMutex (Kernel.cleanLock_of hlock) (bind_eq_ok.mpr ⟨_, hmutex, rfl⟩)
  exact hrun₁.startPhilosophers hloop hb

namespace Philosophers

/-- A test for a step of the philosopher `i`. With `clean` nobody may enter `takeForks` whose mutex is
not locked. -/
def mayGo (P : Philosophers) (clean : Bool) (s : PhiloRun) (i : PhiloId) : Bool :=
  s.kernel.goes? (P.thread i) ∧
    (clean → s.next i = .takeForks → isLocked 40 s.kernel (P.philoMutexId i) = .ok true)

/-- Steps of philosophers and, for `none`, ticks. -/
def play (P : Philosophers) (clean : Bool) : List (Option PhiloId) → PhiloRun → Except Stop PhiloRun
  | [], s => return s
  | none :: es, s => do
      let kernel ← KernelOp.runSound 40 [.tick nullGarbage 8] s.kernel
      P.play clean es { s with kernel }
  | some i :: es, s => do
      if !P.mayGo clean s i then
        throw .outOfFuel
      P.play clean es (← P.go 40 i s)

variable {P : Philosophers} {s s' : PhiloRun} {fuel : Nat} {i : PhiloId}

theorem run_go (h : Run Sound s.kernel) (hrun : P.go fuel i s = .ok s') : Run Sound s'.kernel := by
  unfold Philosophers.go at hrun
  -- Only the lines with a call change the kernel.
  split at hrun
  case h_1 =>
      obtain ⟨k', hcall, hrun⟩ := bind_eq_ok.mp hrun
      obtain rfl := Except.ok.inj hrun
      exact h.step (.mutexDown _) trivial hcall
  case h_4 =>
      obtain ⟨k', hcall, hrun⟩ := bind_eq_ok.mp hrun
      obtain rfl := Except.ok.inj hrun
      exact h.step (.mutexUp _) trivial hcall
  case h_5 =>
      obtain ⟨k', hcall, hrun⟩ := bind_eq_ok.mp hrun
      obtain rfl := Except.ok.inj hrun
      exact h.step (.mutexUp _) trivial hcall
  case h_6 =>
      obtain ⟨k', hcall, hrun⟩ := bind_eq_ok.mp hrun
      obtain rfl := Except.ok.inj hrun
      exact h.step (.mutexDown _) trivial hcall
  case h_8 =>
      obtain ⟨k', hcall, hrun⟩ := bind_eq_ok.mp hrun
      obtain rfl := Except.ok.inj hrun
      exact h.step (.mutexDown _) trivial hcall
  case h_10 =>
      obtain ⟨k', hcall, hrun⟩ := bind_eq_ok.mp hrun
      obtain rfl := Except.ok.inj hrun
      exact h.step (.mutexUp _) trivial hcall
  case h_3 =>
      split at hrun
      all_goals
        obtain rfl := Except.ok.inj hrun
        exact h
  all_goals
    obtain rfl := Except.ok.inj hrun
    exact h

theorem play_reachable {clean : Bool} {es : List (Option PhiloId)} (hsound : Run Sound s.kernel)
    (h : Reachable P.Started (fun s s' => ∃ e, P.Step e s s' ∧ (clean → P.NoStaleSignal s e)) s)
    (hplay : P.play clean es s = .ok s') : Run Sound s'.kernel ∧
      Reachable P.Started (fun s s' => ∃ e, P.Step e s s' ∧ (clean → P.NoStaleSignal s e)) s' := by
  -- By induction on the plan: a tick of the timer, or a step of one philosopher.
  induction es generalizing s with
  | nil =>
      obtain rfl := Except.ok.inj hplay
      exact ⟨hsound, h⟩
  | cons e es ih =>
      cases e with
      | none =>
          obtain ⟨k', hrun, hplay⟩ := bind_eq_ok.mp hplay
          refine ih (hsound.runSound hrun) (h.next ⟨none, .other ?_ ?_, ?_⟩) hplay
          · exact KernelStep.of_runSound hrun fun x => not_false
          · exact fun i => hsound.blocked_tick hrun
          · intro _ i hi
            cases hi
      | some i =>
          rw [play] at hplay
          -- The plan is followed only as long as the step is allowed.
          by_cases hmay : P.mayGo clean s i = true
          · simp only [hmay, Bool.not_true, Bool.false_eq_true, if_false] at hplay
            obtain ⟨s₁, hgo, hplay⟩ := bind_eq_ok.mp hplay
            obtain ⟨hgoes, hlocked⟩ := of_decide_eq_true hmay
            refine ih (run_go hsound hgo)
              (h.next ⟨some i, .go i (hsound.goes_of hgoes) hgo, fun hclean j hj hnext => ?_⟩) hplay
            obtain rfl := Option.some.inj hj
            exact ⟨40, hlocked hclean hnext⟩
          · simp [hmay] at hplay

/-- The test for the start of the program that `philosophers` gave these numbers. -/
def started? (P : Philosophers) (k : Kernel) : Bool :=
  k.freshLock? (.mutex, P.mainMutexId) MUTEX_UNLOCKED ∧
    (∀ i, k.freshLock? (.mutex, P.philoMutexId i) MUTEX_LOCKED) ∧
    (∀ i, P.mainMutexId ≠ P.philoMutexId i) ∧
    (∀ i j, P.philoMutexId i = P.philoMutexId j → i = j) ∧ ∀ i j, P.thread i = P.thread j → i = j

theorem started_of {k : Kernel} (h : Run Sound k) (hstart : P.started? k) :
    P.Started ⟨k, .start, fun _ => .takeForks⟩ := by
  obtain ⟨hmain, hphilo, hne, hmutexes, hthreads⟩ := of_decide_eq_true hstart
  exact ⟨h, Kernel.freshLock_of hmain, fun i => Kernel.freshLock_of (hphilo i), hne,
    fun i j => hmutexes i j, fun i j => hthreads i j, rfl, fun _ => rfl⟩

end Philosophers

/-- `init` starts the program. The threads come to run from the last one to the first. -/
def dinnerParty : Philosophers := ⟨0, fun i => i + 1, fun i => (0, 3 - i)⟩

/-- The state in which the first philosopher starts, and a test for it. -/
def startDinner : Except Stop (Kernel × Bool) := do
  let k₀ ← startKernel
  let (_, _, k) ← philosophers 40 k₀ 1 4
  return (k, dinnerParty.started? k && (← philosophersClean 40 k₀ 1 4))

theorem dinner_started {k : Kernel} (h : startDinner = .ok (k, true)) :
    Run Sound k ∧ dinnerParty.Started ⟨k, .start, fun _ => .takeForks⟩ := by
  rw [startDinner] at h
  obtain ⟨k₀, hk₀, h⟩ := bind_eq_ok.mp h
  obtain ⟨⟨id, ids, k₁⟩, hprogram, h⟩ := bind_eq_ok.mp h
  obtain ⟨b, hclean, h⟩ := bind_eq_ok.mp h
  obtain ⟨rfl, htests⟩ := Prod.mk.inj (Except.ok.inj h)
  obtain ⟨hstart, rfl⟩ := (Bool.and_eq_true _ _).mp htests
  have hrun₀ : Run Sound k₀ := .start (booted_of_start hk₀)
  have hrun := hrun₀.philosophers hprogram hclean
  exact ⟨hrun, Philosophers.started_of hrun hstart⟩

/-- The meal of philosopher `0`. -/
def firstMeal : List (Option PhiloId) :=
  List.replicate 2 none ++ List.replicate 6 (some ⟨0, by decide⟩)

/-- Philosopher `1` waits for its forks and gets them. Then philosopher `0` takes its forks again, and
philosopher `1` comes back. -/
def laterMeals : List (Option PhiloId) :=
  List.replicate 2 none ++ List.replicate 5 (some ⟨1, by decide⟩) ++
  List.replicate 12 none ++ List.replicate 7 (some ⟨0, by decide⟩) ++
  List.replicate 9 none ++ List.replicate 6 (some ⟨1, by decide⟩) ++
  List.replicate 13 none ++ List.replicate 6 (some ⟨0, by decide⟩) ++
  List.replicate 2 none ++ List.replicate 5 (some ⟨1, by decide⟩)

/-- The run, up to the first meal and to its end. -/
def dinner : Except Stop (Kernel × Bool × PhiloRun × PhiloRun) := do
  let (k, started) ← startDinner
  let s ← dinnerParty.play true firstMeal ⟨k, .start, fun _ => .takeForks⟩
  let s' ← dinnerParty.play false laterMeals s
  return (k, started, s, s')

theorem dinner_checks : (do
    let r ← dinner
    let (_, started, s, s') := r
    return decide (started = true ∧
      (s.next ⟨0, by decide⟩ = .eat ∧ s.kernel.threadIs? (0, 3) .T_RUNNING) ∧
      s'.next ⟨1, by decide⟩ = .eat ∧ s'.kernel.threadIs? (0, 2) .T_RUNNING ∧
      s'.table.philoState ⟨1, by decide⟩ = .HUNGRY) : Except Stop Bool) = .ok true := by
  decide +kernel

/-- The two states of the run are reachable, the first one in a run without left signals. -/
theorem dinner_reachable : ∃ s s' : PhiloRun,
    Reachable dinnerParty.Started dinnerParty.CleanStep s ∧ dinnerParty.AtMeal s ⟨0, by decide⟩ ∧
    Reachable dinnerParty.Started (fun s s' => ∃ e, dinnerParty.Step e s s') s' ∧
    dinnerParty.AtMeal s' ⟨1, by decide⟩ ∧ s'.table.philoState ⟨1, by decide⟩ = .HUNGRY := by
  obtain ⟨⟨k, started, s, s'⟩, hrun, hchecks⟩ := bind_eq_ok.mp dinner_checks
  obtain ⟨rfl, ⟨heat, hrunning⟩, heat', hrunning', hhungry⟩ := of_decide_eq_true (Except.ok.inj hchecks)
  rw [dinner] at hrun
  obtain ⟨⟨k₁, b⟩, hdinner, hrun⟩ := bind_eq_ok.mp hrun
  obtain ⟨s₁, hfirst, hrun⟩ := bind_eq_ok.mp hrun
  obtain ⟨s₁', hlater, hrun⟩ := bind_eq_ok.mp hrun
  cases hrun
  obtain ⟨hsound, hstart⟩ := dinner_started hdinner
  -- the first meal leaves no signal, the later ones may
  obtain ⟨hsound₁, hclean⟩ := Philosophers.play_reachable hsound (.start hstart) hfirst
  have hany : Reachable dinnerParty.Started
      (fun s s' => ∃ e, dinnerParty.Step e s s' ∧ (false = true → dinnerParty.NoStaleSignal s e)) s :=
    hclean.mono (fun _ h => h) fun _ _ ⟨e, hstep, _⟩ => ⟨e, hstep, fun h => absurd h (by decide)⟩
  obtain ⟨hsound₁', hreach⟩ := Philosophers.play_reachable hsound₁ hany hlater
  refine ⟨s, s', ?_, ⟨heat, hsound₁.not_threadIs_of hrunning (by decide)⟩, ?_,
    ⟨heat', hsound₁'.not_threadIs_of hrunning' (by decide)⟩, hhungry⟩
  · exact hclean.mono (fun _ h => h) fun _ _ ⟨e, hstep, hstale⟩ => ⟨e, hstep, hstale rfl⟩
  · exact hreach.mono (fun _ h => h) fun _ _ ⟨e, hstep, _⟩ => ⟨e, hstep⟩

/-- A philosopher goes to its meal without forks. -/
theorem philosopher_eats_hungry : ¬ ∀ (P : Philosophers) (s : PhiloRun) (i : PhiloId),
    Reachable P.Started (fun s s' => ∃ e, P.Step e s s') s → P.AtMeal s i → P.Fed s i := by
  intro hclaim
  obtain ⟨_, s', -, -, hreach, hmeal, hhungry⟩ := dinner_reachable
  have heating := (hclaim dinnerParty s' ⟨1, by decide⟩ hreach hmeal).eating
  rw [hhungry] at heating
  cases heating

/-- The first meal of the run. -/
theorem philosophers_fed_first_meal : ∃ (P : Philosophers) (s : PhiloRun) (i : PhiloId),
    Reachable P.Started P.CleanStep s ∧ P.AtMeal s i ∧ P.Fed s i := by
  obtain ⟨s, _, hreach, hmeal, -⟩ := dinner_reachable
  exact ⟨dinnerParty, s, ⟨0, by decide⟩, hreach, hmeal, philosophers_fed hreach _ hmeal⟩

end BasicKernel
