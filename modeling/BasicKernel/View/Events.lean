import BasicKernel.View.Heap
import BasicKernel.Lib.Transition

set_option autoImplicit false

/-! # Events on a view

`Effect k V op V'` says what the event `op` in state `k` does to the view `V`. `Sound k op` is what
an event needs so that the state is one that a view describes: new pages must not hold stale
pointers, dead processes must be reaped one at a time, block types must be block types. Every
state of a run of sound events has a view, and what every effect preserves holds of it.
-/

namespace BasicKernel

open Linked Keyed Fuel Transition

/-- An event that changes nothing. -/
def KernelOp.Idle (V : View) : KernelOp → Prop
  | addThread pid _ _ => ∀ p ∈ V.table, p.val.pid ≠ pid
  | removeProcess pid => pid = 0 ∨ pid = 1
  | removeThread pid pthread => pid = 0 ∨ pid = 1 ∨ pthread = 0
  | mutexDestroy id => V.lockWith .mutex id = none
  | semaphoreUp id => V.lockWith .semaphore id = none
  | semaphoreDestroy id => V.lockWith .semaphore id = none
  | createPipe _ _ => True
  | send _ _ => True
  | receive _ _ => True
  | pfree _ => True
  | _ => False

/-- What an event does. -/
inductive Effect (k : Kernel) (V : View) : KernelOp → View → Prop
  | idle {op : KernelOp} : op.Idle V → Effect k V op V
  | tick {garbage : Garbage} {rsp : Addr} {c : ProcessView} {t : ThreadView} {V' : View} :
      c ∈ V.table → t ∈ c.threads → c.node = V.current → t.lib = c.val.currentThread →
      Scheduled (V.set c (c.saveStack t.addr rsp)) V' → Effect k V (.tick garbage rsp) V'
  | yield {garbage : Garbage} {rsp : Addr} {c : ProcessView} {t : ThreadView} {V' : View} :
      c ∈ V.table → t ∈ c.threads → c.node = V.current → t.lib = c.val.currentThread →
      Yielded (V.set c (c.saveStack t.addr rsp)) (c.saveStack t.addr rsp)
        (t.setVal fun v => { v with userStack := rsp }) V' → Effect k V (.yield garbage rsp) V'
  | addProcess {exec entryPoint name : Addr} {p : ProcessView} :
      p.Created entryPoint V.nextPid → Effect k V (.addProcess exec entryPoint name) (V.addProcess p)
  | addThread {pid : Int} {exec entryPoint : Addr} {p : ProcessView} {t : ThreadView} :
      p ∈ V.table → p.val.pid = pid → t.Created entryPoint p.val.currentPThread →
      Effect k V (.addThread pid exec entryPoint) (V.set p (p.addThread t))
  | removeProcess {pid : Int} {p : ProcessView} : p ∈ V.table → p.val.pid = pid →
      ¬ (pid = 0 ∨ pid = 1) → Effect k V (.removeProcess pid) (V.kill p)
  | removeThread {pid pthread : Int} {p : ProcessView} {t : ThreadView} : p ∈ V.table →
      t ∈ p.threads → p.val.pid = pid → t.val.pthread = pthread → ¬ (pid = 0 ∨ pid = 1) →
      pthread ≠ 0 → Effect k V (.removeThread pid pthread) (V.killThread p t.addr)
  | removeDeadProcess {garbage : Garbage} : Effect k V (.removeDeadProcess garbage) V.reap
  | blockThread {pid pthread : Int} {ty : ThreadState} {p : ProcessView} {t : ThreadView} :
      p ∈ V.table → t ∈ p.threads → p.val.pid = pid → t.val.pthread = pthread →
      Effect k V (.blockThread pid pthread ty) (V.block p t.addr ty)
  | unblockThread {pid pthread : Int} {ty : ThreadState} {p : ProcessView} {t : ThreadView} :
      p ∈ V.table → t ∈ p.threads → p.val.pid = pid → t.val.pthread = pthread →
      Effect k V (.unblockThread pid pthread ty) (V.set p (p.unblock t ty))
  | unblockAllThreads {pid : Int} {ty : ThreadState} {p : ProcessView} :
      p ∈ V.table → p.val.pid = pid →
      Effect k V (.unblockAllThreads pid ty) (V.set p (p.unblockAll ty))
  | createMutex {l : LockView} : l.id = V.mutexCounter → l.status = MUTEX_UNLOCKED →
      l.waiters = [] → Effect k V .createMutex (V.addLock .mutex l)
  | mutexUp {id : Int} {l : LockView} {V' : View} : V.lockWith .mutex id = some l →
      V.Unlocks .mutex l MUTEX_UNLOCKED V' → Effect k V (.mutexUp id) V'
  | mutexWait {id : Int} {l : LockView} {V' : View} : V.lockWith .mutex id = some l →
      l.status = MUTEX_LOCKED → V.Waits .mutex l V' → Effect k V (.mutexDown id) V'
  | mutexTake {id : Int} {l : LockView} : V.lockWith .mutex id = some l →
      l.status ≠ MUTEX_LOCKED →
      Effect k V (.mutexDown id) (V.setLock .mutex l (l.setStatus MUTEX_LOCKED))
  | mutexDestroy {id : Int} {l : LockView} {A B : List LockView} :
      V.lockWith .mutex id = some l → V.mutexes = A ++ l :: B →
      Effect k V (.mutexDestroy id) (V.setLocks .mutex (A ++ B))
  | createSemaphore {start : Int} {l : LockView} : l.id = V.semaphoreCounter → l.status = start →
      l.waiters = [] → Effect k V (.createSemaphore start) (V.addLock .semaphore l)
  | semaphoreCount {id : Int} {l : LockView} : V.lockWith .semaphore id = some l →
      l.raised < 0 →
      Effect k V (.semaphoreUp id) (V.setLock .semaphore l (l.setStatus l.raised))
  | semaphoreUp {id : Int} {l : LockView} {V' : View} : V.lockWith .semaphore id = some l →
      0 ≤ l.raised → V.Unlocks .semaphore l l.raised V' → Effect k V (.semaphoreUp id) V'
  | semaphoreWait {id : Int} {l : LockView} {V' : View} : V.lockWith .semaphore id = some l →
      l.lowered < 0 → (V.setLock .semaphore l (l.setStatus l.lowered)).Waits .semaphore
        (l.setStatus l.lowered) V' → Effect k V (.semaphoreDown id) V'
  | semaphoreTake {id : Int} {l : LockView} : V.lockWith .semaphore id = some l →
      0 ≤ l.lowered →
      Effect k V (.semaphoreDown id) (V.setLock .semaphore l (l.setStatus l.lowered))
  | semaphoreDestroy {id : Int} {l : LockView} {A B : List LockView} :
      V.lockWith .semaphore id = some l → V.semaphores = A ++ l :: B →
      Effect k V (.semaphoreDestroy id) (V.setLocks .semaphore (A ++ B))
  | send {name buff : Addr} {fuel : Nat} {pid : Int} {V' : View} :
      getReceiverPid fuel k name = .ok pid → WakeReceiver pid V V' → Effect k V (.send name buff) V'
  | receive {name buff : Addr} {fuel : Nat} {pid pthread : Int} {p : ProcessView} {t : ThreadView} :
      getReceiverPid fuel k name = .ok pid → getCurrentPthread k = .ok pthread → p ∈ V.table →
      t ∈ p.threads → p.val.pid = pid → t.val.pthread = pthread →
      Effect k V (.receive name buff) (V.block p t.addr .T_BLOCKED_PIPE)
  | pmalloc {nBytes : Int} {c : ProcessView} {b : HeapView} : c ∈ V.table → c.node = V.current →
      b.size = nBytes → Effect k V (.pmalloc nBytes) (V.set c (c.setHeap (c.heap ++ [b])))
  | pfree {mem : Addr} {c : ProcessView} {b : HeapView} {A B : List HeapView} : c ∈ V.table →
      c.node = V.current → c.heap = A ++ b :: B → b.address = mem →
      Effect k V (.pfree mem) (V.set c (c.setHeap (A ++ B)))

/-! ## Sound events

The conditions of `Sound` are about the state in which the event happens, and most events have
none. They can be tested before the event, which `KernelOp.sound?` does. -/

/-- The page of a new process holds no stale `currentThread`. -/
def CleanProcess (k : Kernel) : Prop :=
  ∀ a k₁, k.allocate PAGE_SIZE = .ok (a, k₁) → (k.process a).currentThread = NULL

def Sound (k : Kernel) : KernelOp → Prop
  | .tick garbage _ => ∀ V, Rep k V → ¬ V.ticks < QUANTUM → V.ReapSafe garbage k
  | .yield garbage _ => ∀ V, Rep k V → V.YieldSwitches → V.ReapSafe garbage k
  | .removeDeadProcess garbage => ∀ V, Rep k V →
      V.ReapSafe garbage k ∧ ∃ p ∈ V.reap.table, p.node = V.current
  | .addProcess _ _ _ => CleanProcess k
  | .blockThread _ _ ty => isThreadBlocked ty
  | .createMutex => CleanLock k
  | .createSemaphore _ => CleanLock k
  | .pmalloc nBytes => 1 ≤ toUInt64 nBytes ∧ toUInt64 nBytes < 2 ^ 31 ∧ CleanHeap k nBytes
  | _ => True

variable {k k' : Kernel} {V : View} {op : KernelOp} {fuel : Nat}

theorem Rep.reapable_of_tick (hr : Rep k V) {garbage : Garbage} {rsp : Addr}
    (hs : Sound k (.tick garbage rsp)) (hticks : ¬ V.ticks < QUANTUM) : V.Reapable garbage :=
  hr.reapable (hs V hr hticks)

theorem Rep.reapable_of_yield (hr : Rep k V) {garbage : Garbage} {rsp : Addr}
    (hs : Sound k (.yield garbage rsp)) (hswitch : V.YieldSwitches) : V.Reapable garbage :=
  hr.reapable (hs V hr hswitch)

/-- A sound event that returned. -/
theorem Rep.run_inv (hr : Rep k V) (hok : V.Ok) (hs : Sound k op) (h : op.run fuel k = .ok k') :
    ∃ V', Effect k V op V' ∧ Rep k' V' ∧ V'.Ok := by
  -- one case for each event; the lemma about its call gives the view that it leaves
  cases op with
  | tick garbage rsp =>
      obtain ⟨⟨r, k₁⟩, hcall, hk⟩ := bind_eq_ok.mp h
      obtain rfl := Except.ok.inj hk
      obtain ⟨c, hc, t, ht, hccur, htcur, V', hV', hr', hok', -⟩ := hr.processSwitch_inv hok
        (hr.reapable_of_tick hs) hcall
      exact ⟨V', .tick hc ht hccur htcur hV', hr', hok'⟩
  | yield garbage rsp =>
      obtain ⟨⟨r, k₁⟩, hcall, hk⟩ := bind_eq_ok.mp h
      obtain rfl := Except.ok.inj hk
      obtain ⟨c, hc, t, ht, hccur, htcur, V', hV', hr', hok', -⟩ := hr.yieldHandler_inv hok
        (hr.reapable_of_yield hs) hcall
      exact ⟨V', .yield hc ht hccur htcur hV', hr', hok'⟩
  | addProcess exec entryPoint name =>
      obtain ⟨⟨r, k₁⟩, hcall, hk⟩ := bind_eq_ok.mp h
      obtain rfl := Except.ok.inj hk
      obtain ⟨p, hp, hr', hok'⟩ := hr.addProcess_inv hok hs hcall
      exact ⟨_, .addProcess hp, hr', hok'⟩
  | addThread pid exec entryPoint =>
      obtain ⟨⟨r, k₁⟩, hcall, hk⟩ := bind_eq_ok.mp h
      obtain rfl := Except.ok.inj hk
      rcases hr.addThread_inv hok hcall with ⟨hnone, rfl⟩ | ⟨p, hp, hpid, t, ht, hr', hok'⟩
      · exact ⟨V, .idle hnone, hr, hok⟩
      · exact ⟨_, .addThread hp hpid ht, hr', hok'⟩
  | removeProcess pid =>
      rcases hr.removeProcess_inv hok h with ⟨hguard, rfl⟩ | ⟨hguard, p, hp, hpid, hr'⟩
      · exact ⟨V, .idle hguard, hr, hok⟩
      -- `init` is never removed, so it stays the process that is alive
      · have hmain : p.val.pid ≠ 0 := fun h0 => hguard (.inl (hpid ▸ h0))
        exact ⟨_, .removeProcess hp hpid hguard, hr',
          hr.ok_kill hok hp ((hok.processes p hp).setState _) rfl rfl hmain⟩
  | removeThread pid pthread =>
      rcases hr.removeThread_inv hok h with
        ⟨hguard, rfl⟩ | ⟨hguard, hmain, p, hp, t, ht, hpid, hpthread, hr'⟩
      · exact ⟨V, .idle hguard, hr, hok⟩
      · have hpid0 : p.val.pid ≠ 0 := fun h0 => hguard (.inl (hpid ▸ h0))
        exact ⟨_, .removeThread hp ht hpid hpthread hguard hmain, hr',
          hr.ok_killThread hok hp ht hpid0 (hpthread ▸ hmain)⟩
  | removeDeadProcess garbage =>
      obtain ⟨hsafe, hcur⟩ := hs V hr
      obtain ⟨k₁, hret, hr', -⟩ := hr.removeDeadProcess hok (hr.reapable hsafe)
      obtain rfl := hret.eq h
      exact ⟨_, .removeDeadProcess, hr', hok.toNumbered.reap hr.queue.nodup, hcur⟩
  | blockThread pid pthread ty =>
      obtain ⟨p, hp, t, ht, hpid, hpthread, hr'⟩ := hr.blockThread_inv hok h
      exact ⟨_, .blockThread hp ht hpid hpthread, hr', hr.ok_block hok hp t.addr hs⟩
  | unblockThread pid pthread ty =>
      obtain ⟨p, hp, t, ht, hpid, hpthread, hr'⟩ := hr.unblockThread_inv hok h
      exact ⟨_, .unblockThread hp ht hpid hpthread, hr', hr.ok_unblock hok hp t ty⟩
  | unblockAllThreads pid ty =>
      obtain ⟨p, hp, hpid, hr'⟩ := hr.unblockAllThreads_inv hok h
      exact ⟨_, .unblockAllThreads hp hpid, hr', hr.ok_unblockAll hok hp ty⟩
  | createMutex =>
      obtain ⟨⟨r, k₁⟩, hcall, hk⟩ := bind_eq_ok.mp h
      obtain rfl := Except.ok.inj hk
      obtain ⟨-, l, hid, hstatus, hwaiters, hr', hok'⟩ := hr.createMutex_inv hok hs hcall
      exact ⟨_, .createMutex hid hstatus hwaiters, hr', hok'⟩
  | mutexUp id =>
      obtain ⟨l, V', hl, hV', hr', hok'⟩ := hr.mutexUp_inv hok h
      exact ⟨V', .mutexUp hl hV', hr', hok'⟩
  | mutexDown id =>
      obtain ⟨l, hl, V', ⟨hst, hV'⟩ | ⟨hst, rfl⟩, hr', hok'⟩ := hr.mutexDown_inv hok h
      · exact ⟨V', .mutexWait hl hst hV', hr', hok'⟩
      · exact ⟨_, .mutexTake hl hst, hr', hok'⟩
  | mutexDestroy id =>
      rcases hr.mutexDestroy_inv h with ⟨hnone, hr'⟩ | ⟨A, l, B, hL, hl, hr'⟩
      · exact ⟨V, .idle hnone, hr', hok⟩
      · exact ⟨_, .mutexDestroy hl hL, hr', hok.setLocks .mutex _⟩
  | createSemaphore start =>
      obtain ⟨⟨r, k₁⟩, hcall, hk⟩ := bind_eq_ok.mp h
      obtain rfl := Except.ok.inj hk
      obtain ⟨-, l, hid, hstatus, hwaiters, hr', hok'⟩ := hr.createSemaphore_inv hok hs hcall
      exact ⟨_, .createSemaphore hid hstatus hwaiters, hr', hok'⟩
  | semaphoreUp id =>
      rcases hr.semaphoreUp_inv hok h with
        ⟨hnone, rfl⟩ | ⟨l, hl, V', ⟨hlt, rfl⟩ | ⟨hle, hV'⟩, hr', hok'⟩
      · exact ⟨V, .idle hnone, hr, hok⟩
      · exact ⟨_, .semaphoreCount hl hlt, hr', hok'⟩
      · exact ⟨V', .semaphoreUp hl hle hV', hr', hok'⟩
  | semaphoreDown id =>
      obtain ⟨l, hl, V', ⟨hlt, hV'⟩ | ⟨hle, rfl⟩, hr', hok'⟩ := hr.semaphoreDown_inv hok h
      · exact ⟨V', .semaphoreWait hl hlt hV', hr', hok'⟩
      · exact ⟨_, .semaphoreTake hl hle, hr', hok'⟩
  | semaphoreDestroy id =>
      rcases hr.semaphoreDestroy_inv h with ⟨hnone, hr'⟩ | ⟨A, l, B, hL, hl, hr'⟩
      · exact ⟨V, .idle hnone, hr', hok⟩
      · exact ⟨_, .semaphoreDestroy hl hL, hr', hok.setLocks .semaphore _⟩
  | createPipe fromPid toPid =>
      obtain ⟨⟨r, k₁⟩, hcall, hk⟩ := bind_eq_ok.mp h
      obtain rfl := Except.ok.inj hk
      exact ⟨V, .idle trivial, hr.do_pipe hcall, hok⟩
  | send name buff =>
      obtain ⟨V', rfl | ⟨pid, hpid, hwake⟩, hr', hok'⟩ := hr.writeToPipe_inv hok h
      · exact ⟨V', .idle trivial, hr', hok'⟩
      · exact ⟨V', .send hpid hwake, hr', hok'⟩
  | receive name buff =>
      rcases hr.readFromPipe_inv hok h with
        hr' | ⟨-, pid, pthread, hpid, hpthread, p, hp, t, ht, hppid, htpthread, hr', hok'⟩
      · exact ⟨V, .idle trivial, hr', hok⟩
      · exact ⟨_, .receive hpid hpthread hp ht hppid htpthread, hr', hok'⟩
  | pmalloc nBytes =>
      obtain ⟨⟨r, k₁⟩, hcall, hk⟩ := bind_eq_ok.mp h
      obtain rfl := Except.ok.inj hk
      obtain ⟨c, hc, hccur, b, -, hsize, hr', hok'⟩ := hr.pmalloc_inv hok ⟨hs.1, hs.2.1⟩ hs.2.2 hcall
      exact ⟨_, .pmalloc hc hccur hsize, hr', hok'⟩
  | pfree mem =>
      obtain ⟨c, hc, hccur, ⟨-, rfl⟩ | ⟨A, b, B, hheap, hb, -, hr', hok'⟩⟩ := hr.pfree_inv hok h
      · exact ⟨V, .idle trivial, hr, hok⟩
      · exact ⟨_, .pfree hc hccur hheap hb, hr', hok'⟩

/-! ## Runs

A property of the view that boot establishes and every effect preserves holds in all states of a
run. `Run.view` is this rule, and `Run.rep` the instance that there is a view at all. -/

/-- The states of runs from boot whose events all satisfy `Allowed`. -/
abbrev Run (Allowed : Kernel → KernelOp → Prop) : Kernel → Prop :=
  Reachable Booted (KernelStep Allowed)

/-- The invariant rule for views: what holds of the view at boot and is preserved by every effect
of an allowed event holds of the view of every state of a run. -/
theorem Run.view {Allowed : Kernel → KernelOp → Prop} {I : View → Prop}
    (hsound : ∀ k op, Allowed k op → Sound k op) (hboot : ∀ V, V.AtBoot → I V)
    (hstep : ∀ k V V' op, Rep k V → V.Ok → Allowed k op → I V → Effect k V op V' → I V')
    (h : Run Allowed k) : ∃ V, Rep k V ∧ V.Ok ∧ I V := by
  refine Reachable.invariant (I := fun k => ∃ V, Rep k V ∧ V.Ok ∧ I V) (fun k hk => ?_) (fun k k' _ hI hstep' => ?_) h
  · obtain ⟨V, hr, hok, hV⟩ := hk.rep
    exact ⟨V, hr, hok, hboot V hV⟩
  · obtain ⟨V, hr, hok, hV⟩ := hI
    obtain ⟨k₁, op, fuel, hrec, hallowed, hrun⟩ := hstep'
    have hr₁ := hr.recycled hrec
    obtain ⟨V', heffect, hr', hok'⟩ := hr₁.run_inv hok (hsound k₁ op hallowed) hrun
    exact ⟨V', hr', hok', hstep k₁ V V' op hr₁ hok hallowed hV heffect⟩

/-- Every state of a run of sound events has a view. -/
theorem Run.rep (h : Run Sound k) : ∃ V, Rep k V ∧ V.Ok := by
  obtain ⟨V, hr, hok, -⟩ := Run.view (I := fun _ => True) (fun _ _ h => h) (fun _ _ => trivial)
    (fun _ _ _ _ _ _ _ _ _ => trivial) h
  exact ⟨V, hr, hok⟩

end BasicKernel
