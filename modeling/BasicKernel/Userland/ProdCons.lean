import BasicKernel.Lib.RingBuffer
import BasicKernel.Locks.Users

set_option autoImplicit false

/-! # The producer and the consumer

The program `prodcons` of the shell: two threads, a ring buffer of `BUFFERSIZE` characters, a
semaphore that counts its empty slots, one that counts its full slots, and a mutex. The threads are
interleaved at every system call, and with every event of the kernel that is no call on the three locks.

`prodcons_fifo` says for all interleavings that what is removed was inserted, in this order and
each item once. Its invariant ties the semaphores to the two indices.
-/

namespace BasicKernel

open Fuel Transition RingBuffer

/-- `BUFFERSIZE` -/
def BUFFERSIZE : Nat := 100

/-! ## The program

Both threads run the same loop with the semaphores exchanged, so one definition has the steps of
both. -/

/-- The locks of the program. -/
inductive ProdConsLock where
  | itemMutex | emptyCount | fullCount
  deriving DecidableEq

/-- The threads of the program. -/
inductive Worker where
  | producer | consumer
  deriving DecidableEq

/-- What a thread does next. -/
inductive WorkerStep where
  /-- the producer makes an item, the consumer counts one -/
  | count
  | semaphoreDown
  | mutexDown
  /-- `insertItem` or `removeItem` -/
  | use
  | mutexUp
  | semaphoreUp
  deriving DecidableEq

namespace Worker

def other : Worker → Worker
  | producer => consumer
  | consumer => producer

/-- The semaphore that the thread takes from. -/
def takes : Worker → ProdConsLock
  | producer => .emptyCount
  | consumer => .fullCount

/-- The semaphore that the thread gives to. -/
def gives : Worker → ProdConsLock
  | producer => .fullCount
  | consumer => .emptyCount

/-- The start value of the semaphore that the thread takes from. -/
def start : Worker → Nat
  | producer => BUFFERSIZE
  | consumer => 0

/-- The first step of the loop. -/
def first : Worker → WorkerStep
  | producer => .count
  | consumer => .semaphoreDown

end Worker

/-- The numbers that `prodcons` stores. -/
structure ProdCons where
  itemMutex : Int
  emptyCount : Int
  fullCount : Int
  producerThread : ThreadId
  consumerThread : ThreadId

/-- The static variables of the program. -/
structure ProdConsMemory where
  aux : Int
  r : Nat
  w : Nat
  buffer : Nat → UInt8
  cant : Int

/-- A state of a run, with the items that were inserted and those that were removed. -/
structure ProdConsState where
  kernel : Kernel
  memory : ProdConsMemory
  next : Worker → WorkerStep
  /-- the `item` of the producer -/
  item : UInt8
  inserted : List UInt8
  removed : List UInt8

def prodcons (fuel : Nat) (k : Kernel) (exec producer consumer : Addr) :
    Except Stop (ProdCons × Kernel) := do
  let pid ← getCurrentPid k
  let (itemMutex, k) ← createMutex fuel k
  let (emptyCount, k) ← createSemaphore fuel k BUFFERSIZE
  let (fullCount, k) ← createSemaphore fuel k 0
  let (producerThread, k) ← addThreadToProcess fuel k pid exec producer
  let (consumerThread, k) ← addThreadToProcess fuel k pid exec consumer
  return (⟨itemMutex, emptyCount, fullCount, (pid, producerThread), (pid, consumerThread)⟩, k)

namespace ProdConsMemory

/-- The static variables before the program. -/
def static : ProdConsMemory := ⟨1, 0, 0, fun _ => 0, 0⟩

def insertItem (m : ProdConsMemory) (c : UInt8) : ProdConsMemory :=
  { m with buffer := Function.update m.buffer m.w c, w := (m.w + 1) % BUFFERSIZE }

def removeItem (m : ProdConsMemory) : UInt8 × ProdConsMemory :=
  (m.buffer m.r, { m with r := (m.r + 1) % BUFFERSIZE })

end ProdConsMemory

namespace ProdCons

variable (P : ProdCons)

def thread : Worker → ThreadId
  | .producer => P.producerThread
  | .consumer => P.consumerThread

def key : ProdConsLock → LockKey
  | .itemMutex => (.mutex, P.itemMutex)
  | .emptyCount => (.semaphore, P.emptyCount)
  | .fullCount => (.semaphore, P.fullCount)

/-- The program was started, for the first time, and its locks are fresh. -/
structure Started (s : ProdConsState) : Prop where
  run : Run Sound s.kernel
  itemMutex : s.kernel.FreshLock (.mutex, P.itemMutex) MUTEX_UNLOCKED
  emptyCount : s.kernel.FreshLock (.semaphore, P.emptyCount) BUFFERSIZE
  fullCount : s.kernel.FreshLock (.semaphore, P.fullCount) 0
  semaphores : P.emptyCount ≠ P.fullCount
  threads : P.producerThread ≠ P.consumerThread
  memory : s.memory = .static
  next : s.next = Worker.first
  inserted : s.inserted = []
  removed : s.removed = []

/-- A step of a run. A thread goes on only while no lock blocks it, and the events that are no calls on
the locks of the program let nobody go on who waits for one. -/
inductive Step : ProdConsState → ProdConsState → Prop
  | produce {s : ProdConsState} : s.kernel.Goes P.producerThread → s.next .producer = .count →
      Step s { s with
        item := UInt8.ofInt s.memory.aux
        memory := { s.memory with aux := s.memory.aux + 1, cant := s.memory.cant + 1 }
        next := Function.update s.next .producer .semaphoreDown }
  | consume {s : ProdConsState} : s.kernel.Goes P.consumerThread → s.next .consumer = .count →
      Step s { s with
        memory := { s.memory with cant := s.memory.cant - 1 }
        next := Function.update s.next .consumer .semaphoreDown }
  | semaphoreDown {s : ProdConsState} {k' : Kernel} {fuel : Nat} (d : Worker) :
      s.kernel.Goes (P.thread d) → s.next d = .semaphoreDown →
      semaphoreDown fuel s.kernel (P.key d.takes).2 = .ok k' →
      Step s { s with kernel := k', next := Function.update s.next d .mutexDown }
  | mutexDown {s : ProdConsState} {k' : Kernel} {fuel : Nat} (d : Worker) :
      s.kernel.Goes (P.thread d) → s.next d = .mutexDown →
      mutexDown fuel s.kernel P.itemMutex = .ok k' →
      Step s { s with kernel := k', next := Function.update s.next d .use }
  | insertItem {s : ProdConsState} : s.kernel.Goes P.producerThread → s.next .producer = .use →
      Step s { s with
        memory := s.memory.insertItem s.item
        inserted := s.inserted ++ [s.item]
        next := Function.update s.next .producer .mutexUp }
  | removeItem {s : ProdConsState} : s.kernel.Goes P.consumerThread → s.next .consumer = .use →
      Step s { s with
        memory := s.memory.removeItem.2
        removed := s.removed ++ [s.memory.removeItem.1]
        next := Function.update s.next .consumer .mutexUp }
  | mutexUp {s : ProdConsState} {k' : Kernel} {fuel : Nat} (d : Worker) :
      s.kernel.Goes (P.thread d) → s.next d = .mutexUp →
      mutexUp fuel s.kernel P.itemMutex = .ok k' →
      Step s { s with kernel := k', next := Function.update s.next d .semaphoreUp }
  | semaphoreUp {s : ProdConsState} {k' : Kernel} {fuel : Nat} (d : Worker) :
      s.kernel.Goes (P.thread d) → s.next d = .semaphoreUp →
      semaphoreUp fuel s.kernel (P.key d.gives).2 = .ok k' →
      Step s { s with kernel := k', next := Function.update s.next d .count }
  | other {s : ProdConsState} {k' : Kernel} : KernelStep (NotOn P.key) s.kernel k' →
      (∀ d, s.kernel.ThreadIs (P.thread d) .T_BLOCKED_MUTEX →
        k'.ThreadIs (P.thread d) .T_BLOCKED_MUTEX) →
      Step s { s with kernel := k' }
  | recycle {s : ProdConsState} {k' : Kernel} : Recycled s.kernel k' →
      Step s { s with kernel := k' }

end ProdCons

/-! ## The invariant

What a thread has taken, used and given is counted, and the semaphores agree with the counts. -/

namespace WorkerStep

/-- A permit was taken, the buffer was not used yet. -/
def claims : WorkerStep → Bool
  | mutexDown => true
  | use => true
  | _ => false

/-- The buffer was used, the permit was not given yet. -/
def owes : WorkerStep → Bool
  | mutexUp => true
  | semaphoreUp => true
  | _ => false

end WorkerStep

namespace ProdConsState

variable (s : ProdConsState)

/-- How often the thread used the buffer. -/
def uses : Worker → Nat
  | .producer => s.inserted.length
  | .consumer => s.removed.length

/-- The permits that the thread took. -/
def taken (d : Worker) : Int := s.uses d + (s.next d).claims.toNat

/-- The permits that the thread gave. -/
def given (d : Worker) : Int := s.uses d - (s.next d).owes.toNat

/-- The last call of the thread was a down of the lock. -/
def Stands (P : ProdCons) (τ : ThreadId) (i : ProdConsLock) : Prop :=
  ∃ d, τ = P.thread d ∧
    (s.next d = .mutexDown ∧ i = d.takes ∨ s.next d = .use ∧ i = .itemMutex)

/-- The semaphores count what was taken and given, a thread without a permit waits for one, and the
buffer holds the items that were inserted and not removed. -/
structure Kept (P : ProdCons) (locks : ProdConsLock → LockState) : Prop where
  semaphores : P.emptyCount ≠ P.fullCount
  threads : P.producerThread ≠ P.consumerThread
  serves : s.kernel.Serves P.key (s.Stands P) locks
  status : ∀ d, (locks d.takes).status = d.start + s.given d.other - s.taken d
  permit : ∀ d, 0 ≤ (locks d.takes).status ∨
    (locks d.takes).status = -1 ∧ P.thread d ∈ (locks d.takes).waiting
  items : ∃ xs, Window BUFFERSIZE s.memory.buffer s.memory.r s.memory.w xs ∧
    s.inserted = s.removed ++ xs

end ProdConsState

variable {P : ProdCons} {s s' : ProdConsState} {locks locks' : ProdConsLock → LockState}
  {d e : Worker} {x : WorkerStep} {k' : Kernel} {fuel : Nat}

theorem Worker.takes_injective : Function.Injective Worker.takes := by
  intro d e h
  cases d <;> cases e <;> first | rfl | cases h

theorem Worker.takes_ne (d : Worker) : d.takes ≠ .itemMutex := by cases d <;> decide

theorem ProdCons.key_injective (h : P.emptyCount ≠ P.fullCount) : Function.Injective P.key := by
  intro i j hij
  have h' := h.symm
  cases i <;> cases j <;> simp_all [ProdCons.key]

theorem ProdCons.thread_injective (h : P.producerThread ≠ P.consumerThread) :
    Function.Injective P.thread := by
  intro d e hde
  cases d <;> cases e <;> first | rfl | exact absurd hde h | exact absurd hde.symm h

namespace ProdConsState

/-! ### What a step does to the counts

A down that completes takes a permit and an up gives one. All other steps leave the counts as they
are. -/

/-- A thread stands where it stood as long as it makes no step. -/
theorem Stands.of_ne {σ : ThreadId} {i : ProdConsLock} (h : s.Stands P σ i)
    (hnext : s'.next = Function.update s.next d x) (hne : σ ≠ P.thread d) : s'.Stands P σ i := by
  obtain ⟨e, rfl, hcase⟩ := h
  have hed : e ≠ d := fun heq => hne (congrArg P.thread heq)
  refine ⟨e, rfl, ?_⟩
  rw [hnext, Function.update_of_ne hed]
  exact hcase

theorem Stands.unique (hthreads : P.producerThread ≠ P.consumerThread) {σ : ThreadId}
    {i j : ProdConsLock} (h : s.Stands P σ i) (h' : s.Stands P σ j) : i = j := by
  obtain ⟨d, rfl, hd⟩ := h
  obtain ⟨e, heq, he⟩ := h'
  obtain rfl := ProdCons.thread_injective hthreads heq
  rcases hd with ⟨hd, rfl⟩ | ⟨hd, rfl⟩
  · rcases he with ⟨-, rfl⟩ | ⟨he, -⟩
    · rfl
    · rw [hd] at he
      cases he
  · rcases he with ⟨he, -⟩ | ⟨-, rfl⟩
    · rw [hd] at he
      cases he
    · rfl

theorem taken_eq (huses : s'.uses = s.uses) (hnext : s'.next = Function.update s.next d x)
    (hclaims : x.claims = (s.next d).claims) : s'.taken = s.taken := by
  funext e
  rw [taken, taken, huses, hnext]
  by_cases hed : e = d
  · subst hed
    rw [Function.update_self, hclaims]
  · rw [Function.update_of_ne hed]

theorem given_eq (huses : s'.uses = s.uses) (hnext : s'.next = Function.update s.next d x)
    (howes : x.owes = (s.next d).owes) : s'.given = s.given := by
  funext e
  rw [given, given, huses, hnext]
  by_cases hed : e = d
  · subst hed
    rw [Function.update_self, howes]
  · rw [Function.update_of_ne hed]

/-- A permit is taken. -/
theorem taken_succ (huses : s'.uses = s.uses) (hnext : s'.next = Function.update s.next d x)
    (hold : (s.next d).claims = false) (hnew : x.claims = true) :
    s'.taken = Function.update s.taken d (s.taken d + 1) := by
  funext e
  rw [taken, huses, hnext]
  by_cases hed : e = d
  · subst hed
    rw [Function.update_self, Function.update_self, taken, hold, hnew]
    simp
  · rw [Function.update_of_ne hed, Function.update_of_ne hed, taken]

/-- A permit is given. -/
theorem given_succ (huses : s'.uses = s.uses) (hnext : s'.next = Function.update s.next d x)
    (hold : (s.next d).owes = true) (hnew : x.owes = false) :
    s'.given = Function.update s.given d (s.given d + 1) := by
  funext e
  rw [given, huses, hnext]
  by_cases hed : e = d
  · subst hed
    rw [Function.update_self, Function.update_self, given, hold, hnew]
    simp
  · rw [Function.update_of_ne hed, Function.update_of_ne hed, given]

/-- A step that takes and gives no permit. -/
theorem Kept.of_same (h : s.Kept P locks) (hserves : s'.kernel.Serves P.key (s'.Stands P) locks')
    (hlocks : ∀ d : Worker, locks' d.takes = locks d.takes) (htaken : s'.taken = s.taken)
    (hgiven : s'.given = s.given)
    (hitems : ∃ xs, Window BUFFERSIZE s'.memory.buffer s'.memory.r s'.memory.w xs ∧
      s'.inserted = s'.removed ++ xs) : s'.Kept P locks' where
  semaphores := h.semaphores
  threads := h.threads
  serves := hserves
  status d := by
    rw [hlocks, htaken, hgiven]
    exact h.status d
  permit d := by
    rw [hlocks]
    exact h.permit d
  items := hitems

/-! ### The steps

The permits of both threads together are the slots of the buffer, so nobody inserts into a full
buffer or removes from an empty one. -/

theorem Kept.key_injective (h : s.Kept P locks) : Function.Injective P.key :=
  ProdCons.key_injective h.semaphores

/-- A thread that makes a step has the permit that it took. -/
theorem Kept.has_permit (h : s.Kept P locks) (hgo : s.kernel.Goes (P.thread d)) :
    0 ≤ (locks d.takes).status := by
  rcases h.permit d with hle | ⟨-, hmem⟩
  · exact hle
  · exact absurd hmem (h.serves.not_waiting hgo.2 _)

theorem taken_ge (d : Worker) : (s.uses d : Int) ≤ s.taken d := by
  rw [taken]
  exact Int.le_add_of_nonneg_right (Int.natCast_nonneg _)

theorem given_le (d : Worker) : s.given d ≤ s.uses d := by
  rw [given]
  exact Int.sub_le_self _ (Int.natCast_nonneg _)

/-- A semaphore counts slots of the buffer, so its `int` never wraps. -/
theorem Kept.status_bounds (h : s.Kept P locks) (d : Worker) :
    -1 ≤ (locks d.takes).status ∧ (locks d.takes).status ≤ BUFFERSIZE := by
  constructor
  · rcases h.permit d with hle | ⟨heq, -⟩ <;> omega
  · obtain ⟨xs, hwindow, hitems⟩ := h.items
    have hroom := hwindow.length_le
    have hlength := congrArg List.length hitems
    rw [List.length_append] at hlength
    have hstatus := h.status d
    have htaken := taken_ge (s := s) d
    have hgiven := given_le (s := s) d.other
    cases d with
    | producer =>
        simp only [Worker.start, Worker.other, uses] at hstatus htaken hgiven
        omega
    | consumer =>
        simp only [Worker.start, Worker.other, uses] at hstatus htaken hgiven
        omega

theorem Kept.lowered (h : s.Kept P locks) (d : Worker) :
    toInt32 ((locks d.takes).status - 1) = (locks d.takes).status - 1 := by
  obtain ⟨hlo, hhi⟩ := h.status_bounds d
  rw [BUFFERSIZE] at hhi
  exact toInt32_of_bounds (by omega) (by omega)

theorem Kept.raised (h : s.Kept P locks) (d : Worker) :
    toInt32 ((locks d.takes).status + 1) = (locks d.takes).status + 1 := by
  obtain ⟨hlo, hhi⟩ := h.status_bounds d
  rw [BUFFERSIZE] at hhi
  exact toInt32_of_bounds (by omega) (by omega)

/-- A step of a thread that is no call. -/
theorem Kept.localStep (h : s.Kept P locks) (hgo : s.kernel.Goes (P.thread d))
    (hkernel : s'.kernel = s.kernel) (hnext : s'.next = Function.update s.next d x)
    (htaken : s'.taken = s.taken) (hgiven : s'.given = s.given)
    (hitems : ∃ xs, Window BUFFERSIZE s'.memory.buffer s'.memory.r s'.memory.w xs ∧
      s'.inserted = s'.removed ++ xs) : s'.Kept P locks := by
  refine h.of_same ?_ (fun _ => rfl) htaken hgiven hitems
  rw [hkernel]
  exact h.serves.move hgo.2 fun σ hσ i hst => hst.of_ne hnext hσ

theorem Kept.semaphoreDown (h : s.Kept P locks) (hgo : s.kernel.Goes (P.thread d))
    (hd : s.next d = .semaphoreDown)
    (hcall : BasicKernel.semaphoreDown fuel s.kernel (P.key d.takes).2 = .ok k') :
    ∃ locks', Kept { s with kernel := k', next := Function.update s.next d .mutexDown } P locks' := by
  -- The next state and its parts, under names that rewriting does not unfold.
  generalize hs' : ({ s with kernel := k', next := Function.update s.next d .mutexDown } :
    ProdConsState) = s'
  have hnext : s'.next = Function.update s.next d .mutexDown := by rw [← hs']
  have huses : s'.uses = s.uses := by rw [← hs']; rfl
  have hkind : (P.key d.takes).1 = .semaphore := by cases d <;> rfl
  have hcall' : (P.key d.takes).1.down fuel s.kernel (P.key d.takes).2 = .ok k' := by
    rw [hkind]
    exact hcall
  -- The worker stands at the semaphore that it takes from, and one more is taken.
  have hstands : s'.Stands P (P.thread d) d.takes :=
    ⟨d, rfl, .inl ⟨by rw [hnext, Function.update_self], rfl⟩⟩
  have hserves := h.serves.down h.key_injective hgo hcall' hstands fun σ hσ j hst =>
    hst.of_ne hnext hσ
  rw [hkind] at hserves
  have htaken := taken_succ huses hnext (by rw [hd]; rfl) rfl
  have hgiven := given_eq huses hnext (by rw [hd]; rfl)
  have hpermit := h.has_permit hgo
  have hstatus := h.status d
  have hlowered := h.lowered d
  refine ⟨_, h.semaphores, h.threads, by rw [← hs'] at hserves ⊢; exact hserves, fun e => ?_,
    fun e => ?_, by rw [← hs']; exact h.items⟩
  -- The status of this semaphore and the count of its takers go together by one.
  · by_cases he : e = d
    · subst he
      rw [Function.update_self, htaken, hgiven, Function.update_self]
      simp only [LockState.down]
      omega
    · rw [Function.update_of_ne fun heq => he (Worker.takes_injective heq), htaken, hgiven,
        Function.update_of_ne he]
      exact h.status e
  · by_cases he : e = d
    · subst he
      rw [Function.update_self, LockState.down_waiting]
      -- A negative status means that this worker waits, otherwise it has its permit.
      by_cases hlt : (locks e.takes).status - 1 < 0
      · right
        have hblocks : (locks e.takes).blocks .semaphore = true :=
          decide_eq_true (hlowered.symm ▸ hlt)
        rw [hblocks, if_pos rfl]
        refine ⟨?_, List.mem_cons_self⟩
        simp only [LockState.down]
        omega
      · left
        simp only [LockState.down]
        omega
    · rw [Function.update_of_ne fun heq => he (Worker.takes_injective heq)]
      exact h.permit e

theorem Kept.semaphoreUp (h : s.Kept P locks) (hgo : s.kernel.Goes (P.thread d))
    (hd : s.next d = .semaphoreUp)
    (hcall : BasicKernel.semaphoreUp fuel s.kernel (P.key d.gives).2 = .ok k') :
    ∃ locks', Kept { s with kernel := k', next := Function.update s.next d .count } P locks' := by
  generalize hs' : ({ s with kernel := k', next := Function.update s.next d .count } :
    ProdConsState) = s'
  have hnext : s'.next = Function.update s.next d .count := by rw [← hs']
  have huses : s'.uses = s.uses := by rw [← hs']; rfl
  -- What one worker gives the other one takes.
  have hgives : d.gives = d.other.takes := by cases d <;> rfl
  have hkind : (P.key d.gives).1 = .semaphore := by cases d <;> rfl
  have hcall' : (P.key d.gives).1.up fuel s.kernel (P.key d.gives).2 = .ok k' := by
    rw [hkind]
    exact hcall
  have hstands : ∀ σ, σ ≠ P.thread d → ∀ j, s.Stands P σ j → s'.Stands P σ j :=
    fun σ hσ j hst => hst.of_ne hnext hσ
  have hserves := h.serves.up h.key_injective hgo hcall' (fun σ i j => Stands.unique h.threads)
    hstands
  rw [hkind] at hserves
  have htaken := taken_eq huses hnext (by rw [hd]; rfl)
  have hgiven := given_succ huses hnext (by rw [hd]; rfl) rfl
  refine ⟨_, h.semaphores, h.threads, by rw [← hs'] at hserves ⊢; exact hserves, fun e => ?_,
    fun e => ?_, by rw [← hs']; exact h.items⟩
  -- The semaphore of the other worker is raised and one more is given.
  · have hstatus := h.status e
    have hraised := h.raised e
    rw [htaken, hgiven, hgives]
    by_cases he : e = d.other
    · subst he
      have hback : d.other.other = d := by cases d <;> rfl
      rw [hback] at hstatus ⊢
      rw [Function.update_self, Function.update_self]
      simp only [LockState.up]
      omega
    · have hother : e.other ≠ d := fun heq => he (by rw [← heq]; cases e <;> rfl)
      rw [Function.update_of_ne fun heq => he (Worker.takes_injective heq),
        Function.update_of_ne hother]
      exact hstatus
  · have hpermit := h.permit e
    have hraised := h.raised e
    rw [hgives]
    by_cases he : e = d.other
    · -- the status was `-1` at least, so nobody waits any more
      subst he
      rw [Function.update_self]
      simp only [LockState.up]
      exact .inl (by omega)
    · rw [Function.update_of_ne fun heq => he (Worker.takes_injective heq)]
      exact hpermit

/-- A call on the mutex leaves the semaphores alone. -/
theorem update_itemMutex (d : Worker) (l : LockState) :
    Function.update locks .itemMutex l d.takes = locks d.takes :=
  Function.update_of_ne d.takes_ne _ _

theorem Kept.mutexDown (h : s.Kept P locks) (hgo : s.kernel.Goes (P.thread d))
    (hd : s.next d = .mutexDown)
    (hcall : BasicKernel.mutexDown fuel s.kernel P.itemMutex = .ok k') :
    ∃ locks', Kept { s with kernel := k', next := Function.update s.next d .use } P locks' := by
  have hstands : Stands { s with kernel := k', next := Function.update s.next d .use } P
      (P.thread d) .itemMutex := ⟨d, rfl, .inr ⟨Function.update_self .., rfl⟩⟩
  have hcall' : (P.key .itemMutex).1.down fuel s.kernel (P.key .itemMutex).2 = .ok k' := hcall
  have hserves := h.serves.down h.key_injective hgo hcall' hstands fun σ hσ j hst => hst.of_ne rfl hσ
  exact ⟨_, h.of_same hserves (fun e => update_itemMutex e _) (taken_eq rfl rfl (by rw [hd]; rfl))
    (given_eq rfl rfl (by rw [hd]; rfl)) h.items⟩

theorem Kept.mutexUp (h : s.Kept P locks) (hgo : s.kernel.Goes (P.thread d))
    (hd : s.next d = .mutexUp)
    (hcall : BasicKernel.mutexUp fuel s.kernel P.itemMutex = .ok k') :
    ∃ locks', Kept { s with kernel := k', next := Function.update s.next d .semaphoreUp } P
      locks' := by
  have hcall' : (P.key .itemMutex).1.up fuel s.kernel (P.key .itemMutex).2 = .ok k' := hcall
  have hstands : ∀ σ, σ ≠ P.thread d → ∀ j, s.Stands P σ j →
      Stands { s with kernel := k', next := Function.update s.next d .semaphoreUp } P σ j :=
    fun σ hσ j hst => hst.of_ne rfl hσ
  have hserves := h.serves.up h.key_injective hgo hcall' (fun σ i j => Stands.unique h.threads)
    hstands
  exact ⟨_, h.of_same hserves (fun e => update_itemMutex e _) (taken_eq rfl rfl (by rw [hd]; rfl))
    (given_eq rfl rfl (by rw [hd]; rfl)) h.items⟩

/-- A producer with a permit finds a free slot. -/
theorem Kept.insertItem (h : s.Kept P locks) (hgo : s.kernel.Goes P.producerThread)
    (hd : s.next .producer = .use) :
    Kept { s with
      memory := s.memory.insertItem s.item
      inserted := s.inserted ++ [s.item]
      next := Function.update s.next .producer .mutexUp } P locks := by
  have hpermit := h.has_permit (d := .producer) hgo
  have hstatus := h.status .producer
  have htaken : s.taken .producer = s.inserted.length + 1 := by
    simp [taken, uses, hd, WorkerStep.claims]
  have hgiven : s.given .consumer ≤ s.removed.length := given_le .consumer
  obtain ⟨xs, hwindow, hitems⟩ := h.items
  have hroom : xs.length < BUFFERSIZE := by
    have hlength := congrArg List.length hitems
    rw [List.length_append] at hlength
    simp only [Worker.other, Worker.start] at hstatus
    omega
  refine h.localStep (d := .producer) hgo rfl rfl ?_ ?_ ⟨xs ++ [s.item], hwindow.push hroom, ?_⟩
  · funext e
    cases e <;> simp [taken, uses, hd, WorkerStep.claims]
  · funext e
    cases e <;> simp [given, uses, hd, WorkerStep.owes]
  · rw [← List.append_assoc, hitems]

/-- A consumer with a permit finds the first item. -/
theorem Kept.removeItem (h : s.Kept P locks) (hgo : s.kernel.Goes P.consumerThread)
    (hd : s.next .consumer = .use) :
    Kept { s with
      memory := s.memory.removeItem.2
      removed := s.removed ++ [s.memory.removeItem.1]
      next := Function.update s.next .consumer .mutexUp } P locks := by
  have hpermit := h.has_permit (d := .consumer) hgo
  -- A permit is an item that was inserted and not removed, so the window is not empty.
  have hstatus := h.status .consumer
  have htaken : s.taken .consumer = s.removed.length + 1 := by
    simp [taken, uses, hd, WorkerStep.claims]
  have hgiven : s.given .producer ≤ s.inserted.length := given_le .producer
  obtain ⟨xs, hwindow, hitems⟩ := h.items
  obtain ⟨x, xs, rfl⟩ : ∃ x ys, xs = x :: ys := by
    refine List.exists_cons_of_ne_nil fun hnil => ?_
    rw [hnil, List.append_nil] at hitems
    rw [hitems] at hgiven
    simp only [Worker.other, Worker.start] at hstatus
    omega
  -- The oldest item of the window is the one that is read.
  have hitem : s.memory.removeItem.1 = x := hwindow.read_eq
  refine h.localStep (d := .consumer) hgo rfl rfl ?_ ?_ ⟨xs, hwindow.pop, ?_⟩
  · funext e
    cases e <;> simp [taken, uses, hd, WorkerStep.claims]
  · funext e
    cases e <;> simp [given, uses, hd, WorkerStep.owes]
  · rw [hitem, List.append_assoc, hitems]
    rfl

theorem Kept.step (h : s.Kept P locks) (hstep : P.Step s s') : ∃ locks', s'.Kept P locks' := by
  cases hstep with
  | produce hgo hd =>
      exact ⟨_, h.localStep (d := .producer) hgo rfl rfl (taken_eq rfl rfl (by rw [hd]; rfl))
        (given_eq rfl rfl (by rw [hd]; rfl)) h.items⟩
  | consume hgo hd =>
      exact ⟨_, h.localStep (d := .consumer) hgo rfl rfl (taken_eq rfl rfl (by rw [hd]; rfl))
        (given_eq rfl rfl (by rw [hd]; rfl)) h.items⟩
  | semaphoreDown d hgo hd hcall => exact h.semaphoreDown hgo hd hcall
  | mutexDown d hgo hd hcall => exact h.mutexDown hgo hd hcall
  | insertItem hgo hd => exact ⟨_, h.insertItem hgo hd⟩
  | removeItem hgo hd => exact ⟨_, h.removeItem hgo hd⟩
  | mutexUp d hgo hd hcall => exact h.mutexUp hgo hd hcall
  | semaphoreUp d hgo hd hcall => exact h.semaphoreUp hgo hd hcall
  | other hother hblocked =>
      refine ⟨locks, h.of_same (h.serves.other hother ?_) (fun _ => rfl) rfl rfl h.items⟩
      rintro σ ⟨i, d, rfl, -⟩
      exact hblocked d
  | recycle hrec =>
      exact ⟨locks, h.of_same (h.serves.recycled hrec) (fun _ => rfl) rfl rfl h.items⟩

end ProdConsState

/-- The states of the locks when the program starts. -/
def ProdConsLock.atStart : ProdConsLock → LockState
  | .itemMutex => ⟨MUTEX_UNLOCKED, []⟩
  | .emptyCount => ⟨BUFFERSIZE, []⟩
  | .fullCount => ⟨0, []⟩

theorem ProdCons.Started.kept (h : P.Started s) : s.Kept P ProdConsLock.atStart := by
  have huses : s.uses = fun _ => 0 := by
    funext d
    cases d
    · exact congrArg List.length h.inserted
    · exact congrArg List.length h.removed
  refine ⟨h.semaphores, h.threads, .fresh h.run (fun i => ?_) (fun i => by cases i <;> rfl),
    fun d => ?_, fun d => ?_, [], ?_, ?_⟩
  · cases i
    · exact h.itemMutex
    · exact h.emptyCount
    · exact h.fullCount
  · rw [ProdConsState.given, ProdConsState.taken, huses, h.next]
    cases d <;> rfl
  · left
    cases d <;> exact Int.natCast_nonneg _
  · rw [h.memory]
    exact .empty (by decide) _
  · rw [h.inserted, h.removed]
    rfl

/-! ## First in, first out -/

/-- The items removed are the first of the items inserted, in order, and at most `BUFFERSIZE` are in
between. -/
theorem prodcons_fifo (h : Reachable P.Started P.Step s) :
    s.removed <+: s.inserted ∧ s.inserted.length ≤ s.removed.length + BUFFERSIZE := by
  obtain ⟨locks, hkept⟩ := h.invariant (I := fun s => ∃ locks, s.Kept P locks)
    (fun _ hs => ⟨_, hs.kept⟩) fun _ _ _ ⟨_, hs⟩ hstep => hs.step hstep
  obtain ⟨xs, hwindow, hitems⟩ := hkept.items
  rw [hitems]
  refine ⟨List.prefix_append _ _, ?_⟩
  rw [List.length_append]
  exact Nat.add_le_add_left hwindow.length_le _

/-! ### The first item -/

/-- The events of `prodcons`. -/
def prodconsOps (pid : Int) (exec producer consumer : Addr) : List KernelOp :=
  [.createMutex, .createSemaphore BUFFERSIZE, .createSemaphore 0, .addThread pid exec producer,
    .addThread pid exec consumer]

theorem prodcons_runSound {k k₁ k₂ : Kernel} {exec producer consumer : Addr} {pid : Int}
    (hpid : getCurrentPid k = .ok pid)
    (h : prodcons fuel k exec producer consumer = .ok (P, k₁))
    (h' : KernelOp.runSound fuel (prodconsOps pid exec producer consumer) k = .ok k₂) : k₁ = k₂ := by
  -- The program and the list of events make the same five calls.
  rw [prodcons, hpid, ok_bind] at h
  obtain ⟨⟨i₁, k₃⟩, hmutex, h⟩ := bind_eq_ok.mp h
  obtain ⟨⟨i₂, k₄⟩, hempty, h⟩ := bind_eq_ok.mp h
  obtain ⟨⟨i₃, k₅⟩, hfull, h⟩ := bind_eq_ok.mp h
  obtain ⟨⟨i₄, k₆⟩, hproducer, h⟩ := bind_eq_ok.mp h
  obtain ⟨⟨i₅, k₇⟩, hconsumer, h⟩ := bind_eq_ok.mp h
  obtain ⟨-, k₃', hmutex', h'⟩ := KernelOp.runSound_cons h'
  obtain ⟨-, k₄', hempty', h'⟩ := KernelOp.runSound_cons h'
  obtain ⟨-, k₅', hfull', h'⟩ := KernelOp.runSound_cons h'
  obtain ⟨-, k₆', hproducer', h'⟩ := KernelOp.runSound_cons h'
  obtain ⟨-, k₇', hconsumer', h'⟩ := KernelOp.runSound_cons h'
  rw [KernelOp.run, hmutex, ok_bind] at hmutex'
  obtain rfl := Except.ok.inj hmutex'
  rw [KernelOp.run, hempty, ok_bind] at hempty'
  obtain rfl := Except.ok.inj hempty'
  rw [KernelOp.run, hfull, ok_bind] at hfull'
  obtain rfl := Except.ok.inj hfull'
  rw [KernelOp.run, hproducer, ok_bind] at hproducer'
  obtain rfl := Except.ok.inj hproducer'
  rw [KernelOp.run, hconsumer, ok_bind] at hconsumer'
  obtain rfl := Except.ok.inj hconsumer'
  exact (Prod.mk.inj (Except.ok.inj h)).2.symm.trans (Except.ok.inj h')

/-- `init` starts the program, and the producer calls its first two downs. -/
def firstItem : Except Stop (ProdCons × Kernel × Kernel × Kernel × Kernel × Kernel × Kernel) := do
  let k₀ ← startKernel
  let (P, k₁) ← prodcons 40 k₀ 1 4 8
  let k₂ ← KernelOp.runSound 40 (prodconsOps 0 1 4 8) k₀
  let k₃ ← KernelOp.runSound 40 (List.replicate 4 (.tick nullGarbage 8)) k₁
  let k₄ ← semaphoreDown 40 k₃ P.emptyCount
  let k₅ ← mutexDown 40 k₄ P.itemMutex
  return (P, k₀, k₁, k₂, k₃, k₄, k₅)

def firstItemChecks (P : ProdCons) (k₀ k₃ k₄ k₅ : Kernel) : Bool :=
  getCurrentPid k₀ = .ok 0 ∧ k₃.freshLock? (.mutex, P.itemMutex) MUTEX_UNLOCKED ∧
    k₃.freshLock? (.semaphore, P.emptyCount) BUFFERSIZE ∧
    k₃.freshLock? (.semaphore, P.fullCount) 0 ∧ P.emptyCount ≠ P.fullCount ∧
    P.producerThread ≠ P.consumerThread ∧
    (k₃.Current P.producerThread ∧ k₃.threadIs? P.producerThread .T_RUNNING) ∧
    (k₄.Current P.producerThread ∧ k₄.threadIs? P.producerThread .T_RUNNING) ∧
    k₅.Current P.producerThread ∧ k₅.threadIs? P.producerThread .T_RUNNING

theorem firstItem_checks : (do
    let r ← firstItem
    let (P, k₀, _, _, k₃, k₄, k₅) := r
    return firstItemChecks P k₀ k₃ k₄ k₅ : Except Stop Bool) = .ok true := by
  decide +kernel

/-- The producer inserts its first item. -/
theorem prodcons_fifo_first_item : ∃ (P : ProdCons) (s : ProdConsState),
    Reachable P.Started P.Step s ∧ s.inserted = [1] ∧
    s.removed <+: s.inserted ∧ s.inserted.length ≤ s.removed.length + BUFFERSIZE := by
  obtain ⟨r, hr, h⟩ := bind_eq_ok.mp firstItem_checks
  rw [firstItem] at hr
  obtain ⟨k₀, hk₀, hr⟩ := bind_eq_ok.mp hr
  obtain ⟨⟨P, k₁⟩, hprod, hr⟩ := bind_eq_ok.mp hr
  obtain ⟨k₂, hops, hr⟩ := bind_eq_ok.mp hr
  obtain ⟨k₃, hticks, hr⟩ := bind_eq_ok.mp hr
  obtain ⟨k₄, hdown, hr⟩ := bind_eq_ok.mp hr
  obtain ⟨k₅, hlock, hr⟩ := bind_eq_ok.mp hr
  obtain rfl := Except.ok.inj hr
  have hchecks := of_decide_eq_true (Except.ok.inj h)
  obtain ⟨hpid, hmutex, hempty, hfull, hsemaphores, hthreads, ⟨hcur₃, hrun₃⟩, ⟨hcur₄, hrun₄⟩, hcur₅,
    hrun₅⟩ := hchecks
  -- The events so far, and the three states in which the producer goes.
  have hsound₀ : Run Sound k₀ := .start (booted_of_start hk₀)
  obtain rfl := prodcons_runSound hpid hprod hops
  have hsound₃ : Run Sound k₃ := (hsound₀.runSound hops).runSound hticks
  have hsound₄ : Run Sound k₄ := hsound₃.step (.semaphoreDown _) trivial hdown
  have hsound₅ : Run Sound k₅ := hsound₄.step (.mutexDown _) trivial hlock
  have hgo₃ : k₃.Goes P.producerThread := ⟨hcur₃, hsound₃.not_threadIs_of hrun₃ (by decide)⟩
  have hgo₄ : k₄.Goes P.producerThread := ⟨hcur₄, hsound₄.not_threadIs_of hrun₄ (by decide)⟩
  have hgo₅ : k₅.Goes P.producerThread := ⟨hcur₅, hsound₅.not_threadIs_of hrun₅ (by decide)⟩
  have hstart : P.Started ⟨k₃, .static, Worker.first, 0, [], []⟩ :=
    ⟨hsound₃, Kernel.freshLock_of hmutex, Kernel.freshLock_of hempty, Kernel.freshLock_of hfull,
      hsemaphores, hthreads, rfl, rfl, rfl, rfl⟩
  -- Produce, claim a slot, take the mutex, insert.
  have hproduce := (Reachable.start hstart).next (ProdCons.Step.produce hgo₃ rfl)
  have hclaim := hproduce.next (ProdCons.Step.semaphoreDown .producer hgo₃ rfl hdown)
  have htake := hclaim.next (ProdCons.Step.mutexDown .producer hgo₄ rfl hlock)
  have hreach := htake.next (ProdCons.Step.insertItem hgo₅ rfl)
  exact ⟨P, _, hreach, rfl, prodcons_fifo hreach⟩

end BasicKernel
