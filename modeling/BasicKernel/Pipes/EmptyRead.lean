import BasicKernel.Pipes.Terminator
import BasicKernel.Scheduling.Blocking

set_option autoImplicit false

/-! # A read from an empty pipe

`readFromPipe` blocks the thread of the receiver that has the number of the calling thread. The receiver
is read from the name of the pipe.

`empty_read_blocks_iff` says when this is the calling thread and no other. In
`foreign_read_blocks_receiver` a process reads a pipe that is meant for another one, and that one
is blocked.
-/

namespace BasicKernel

open Linked Keyed Fuel Transition

/-- The pipe of this name exists and is empty. -/
def Kernel.EmptyPipe (k : Kernel) (name : Addr) : Prop :=
  ∃ pipe, Returns (getPipe · k name) pipe ∧ pipe ≠ NULL ∧
    load k.char (k.pipe pipe).readPointer = .ok 0

/-- The thread `τ` is blocked on a pipe; no other thread, and no process but its own, changes its
state. -/
structure Kernel.BlocksOnly (k k' : Kernel) (τ : ThreadId) : Prop where
  caller : k'.ThreadIs τ .T_BLOCKED_PIPE
  threads : ∀ σ s, σ ≠ τ → (k'.ThreadIs σ s ↔ k.ThreadIs σ s)
  processes : ∀ pid s, pid ≠ τ.1 → (k'.ProcessIs pid s ↔ k.ProcessIs pid s)

/-- The thread `τ`, the thread of process `pid` with its number, and that process are in the states
that the block would give them. -/
structure Kernel.Asleep (k : Kernel) (τ : ThreadId) (pid : Int) : Prop where
  caller : k.ThreadIs τ .T_BLOCKED_PIPE
  named : k.ThreadIs (pid, τ.2) .T_BLOCKED_PIPE
  process : k.ProcessIs pid .BLOCKED_PIPE ∨ k.OtherReady (pid, τ.2)

/-- The receiver is the caller's process, or there is nothing to change. -/
def Kernel.ReadsOwnPipe (k : Kernel) (τ : ThreadId) (name buff : Addr) : Prop :=
  if buff = NULL then k.ThreadIs τ .T_BLOCKED_PIPE
  else ∃ pid, Returns (getReceiverPid · k name) pid ∧ (pid = τ.1 ∨ k.Asleep τ pid)

variable {k k' : Kernel} {V : View} {p : ProcessView} {t : ThreadView} {τ : ThreadId}
  {name buff : Addr} {fuel : Nat}

/-! ## The receiver -/

theorem skipSender_returns {a b : Addr} (h : skipSender fuel k a = .ok b) :
    Returns (skipSender · k a) b := by
  induction fuel generalizing a with
  | zero => cases h
  | succ fuel ih =>
      obtain ⟨c, hc, h⟩ := bind_eq_ok.mp h
      by_cases hsep : c ≠ 45
      · rw [if_pos hsep] at h
        refine Returns.succ rfl (fun n => ?_) (ih h)
        simp [skipSender, hc, hsep]
      · rw [if_neg hsep] at h
        obtain rfl := Except.ok.inj h
        refine Returns.succ rfl (fun n => ?_) (.const _ _)
        simp [skipSender, hc, hsep]

theorem readPid_returns {a : Addr} {pid r : Int} (h : readPid fuel k a pid = .ok r) :
    Returns (readPid · k a pid) r := by
  induction fuel generalizing a pid with
  | zero => cases h
  | succ fuel ih =>
      obtain ⟨c, hc, h⟩ := bind_eq_ok.mp h
      by_cases hend : c = 0
      · rw [if_pos hend] at h
        obtain rfl := Except.ok.inj h
        refine Returns.succ rfl (fun n => ?_) (.const _ _)
        simp [readPid, hc, hend]
      · rw [if_neg hend] at h
        refine Returns.succ rfl (fun n => ?_) (ih h)
        simp [readPid, hc, hend]

theorem getReceiverPid_returns {pid : Int} (h : getReceiverPid fuel k name = .ok pid) :
    Returns (getReceiverPid · k name) pid := by
  obtain ⟨a, ha, h⟩ := bind_eq_ok.mp h
  exact Returns.bind (skipSender_returns ha) (readPid_returns h)

/-! ## The block

The caller and the blocked thread have the same number, and need not be in the same process. -/

namespace Rep

/-- A block of the thread `t` of `p` is one of the thread `τ`, which has the same number, only if `p` is
the process of `τ`, or there was nothing to change. -/
theorem blocksOnly_iff (hr : Rep k V) (hok : V.Ok) (hp : p ∈ V.table) (ht : t ∈ p.threads)
    (hr' : Rep k' (V.block p t.addr .T_BLOCKED_PIPE)) (hτ : t.val.pthread = τ.2) :
    k.BlocksOnly k' τ ↔ p.val.pid = τ.1 ∨ k.Asleep τ p.val.pid := by
  have hok' := hr.ok_block hok hp t.addr (show isThreadBlocked .T_BLOCKED_PIPE = true from rfl)
  -- The states of the threads and of the processes after the block, as maps with one entry changed.
  have hthreads : ∀ σ s, k'.ThreadIs σ s ↔ Function.update V.threadState (p.val.pid, τ.2)
      (some .T_BLOCKED_PIPE) σ = some s := by
    intro σ s
    rw [hr'.threadIs_iff hok', hr.threadState_block hok hp ht, hτ]
  have hprocesses : ∀ pid s, k'.ProcessIs pid s ↔ Function.update V.processState p.val.pid
      (some (if (p.block t.addr .T_BLOCKED_PIPE).noneReady then .BLOCKED_PIPE else p.val.state)) pid
        = some s := by
    intro pid s
    rw [hr'.processIs_iff hok', hr.processState_block hok hp]
    rfl
  constructor
  · intro h
    by_cases hpid : p.val.pid = τ.1
    · exact .inl hpid
    -- The thread that was blocked is not the caller's, so `BlocksOnly` says that nothing has
    -- changed.
    right
    have hne : (p.val.pid, τ.2) ≠ τ := fun heq => hpid (congrArg Prod.fst heq)
    constructor
    case caller =>
        have hcaller := (hthreads τ _).mp h.caller
        rw [Function.update_of_ne (Ne.symm hne)] at hcaller
        exact (hr.threadIs_iff hok).mpr hcaller
    case named =>
        refine (h.threads _ _ hne).mp ((hthreads _ _).mpr ?_)
        rw [Function.update_self]
    case process =>
        cases hnone : (p.block t.addr .T_BLOCKED_PIPE).noneReady with
        | true =>
            left
            refine (h.processes _ _ hpid).mp ((hprocesses _ _).mpr ?_)
            rw [Function.update_self, hnone, if_pos rfl]
        | false =>
            right
            rw [← hτ]
            exact hr.otherReady_of_noneReady hok hp ht rfl hnone
  · rintro (hpid | hasleep)
    -- In the caller's own process the changed entries are the caller's.
    · have hsame : (p.val.pid, τ.2) = τ := by rw [hpid]
      rw [hsame] at hthreads
      rw [hpid] at hprocesses
      constructor
      case caller =>
          refine (hthreads _ _).mpr ?_
          rw [Function.update_self]
      case threads =>
          intro σ s hσ
          rw [hthreads, Function.update_of_ne hσ, hr.threadIs_iff hok]
      case processes =>
          intro pid s hne
          rw [hprocesses, Function.update_of_ne hne, hr.processIs_iff hok]
    · -- both maps get a value that they had
      have hthread : Function.update V.threadState (p.val.pid, τ.2) (some .T_BLOCKED_PIPE)
          = V.threadState := by
        rw [← (hr.threadIs_iff hok).mp hasleep.named, Function.update_eq_self]
      have hstate : (if (p.block t.addr .T_BLOCKED_PIPE).noneReady then ProcessState.BLOCKED_PIPE
          else p.val.state) = p.val.state := by
        rcases hasleep.process with hblocked | hready
        · have heq := (hr.processIs_iff hok).mp hblocked
          rw [hok.processState_eq hp] at heq
          rw [Option.some.inj heq, ite_self]
        · rw [← hτ] at hready
          rw [hr.noneReady_of_otherReady hok hp ht hready, if_neg Bool.false_ne_true]
      have hprocess : Function.update V.processState p.val.pid
          (some (if (p.block t.addr .T_BLOCKED_PIPE).noneReady then .BLOCKED_PIPE
            else p.val.state)) = V.processState := by
        rw [hstate, ← hok.processState_eq hp, Function.update_eq_self]
      constructor
      case caller =>
          refine (hthreads _ _).mpr ?_
          rw [hthread]
          exact (hr.threadIs_iff hok).mp hasleep.caller
      case threads =>
          intro σ s _
          rw [hthreads, hthread, hr.threadIs_iff hok]
      case processes =>
          intro pid s _
          rw [hprocesses, hprocess, hr.processIs_iff hok]

end Rep

theorem Kernel.EmptyPipe.readFromPipe_null (h : k.EmptyPipe name) :
    Returns (readFromPipe · k name NULL) k := by
  obtain ⟨pipe, hget, -⟩ := h
  unfold readFromPipe
  apply Returns.bind hget
  simp only [or_true, if_true]
  exact .const _ _

theorem Kernel.EmptyPipe.readFromPipe_returns (h : k.EmptyPipe name) (hbuff : buff ≠ NULL)
    {pid pthread : Int} (hpid : Returns (getReceiverPid · k name) pid)
    (hpthread : getCurrentPthread k = .ok pthread)
    (hblock : Returns (blockThread · k pid pthread .T_BLOCKED_PIPE) k') :
    Returns (readFromPipe · k name buff) k' := by
  obtain ⟨pipe, hget, hpipe, hempty⟩ := h
  unfold readFromPipe
  apply Returns.bind hget
  simp only [if_neg (not_or.mpr ⟨hpipe, hbuff⟩), load_of_ne hpipe, ok_bind, hempty, if_true]
  apply Returns.bind hpid
  simp only [hpthread, ok_bind]
  exact hblock

theorem Kernel.EmptyPipe.readFromPipe_inv (h : k.EmptyPipe name) (hbuff : buff ≠ NULL)
    (hrun : readFromPipe fuel k name buff = .ok k') :
    ∃ pid pthread, getReceiverPid fuel k name = .ok pid ∧ getCurrentPthread k = .ok pthread ∧
      blockThread fuel k pid pthread .T_BLOCKED_PIPE = .ok k' := by
  obtain ⟨pipe, hget, hpipe, hempty⟩ := h
  unfold readFromPipe at hrun
  obtain ⟨a, ha, hrun⟩ := bind_eq_ok.mp hrun
  obtain rfl := hget.eq ha
  rw [if_neg (not_or.mpr ⟨hpipe, hbuff⟩), load_of_ne hpipe, ok_bind, hempty, ok_bind,
    if_pos rfl] at hrun
  obtain ⟨pid, hpid, hrun⟩ := bind_eq_ok.mp hrun
  obtain ⟨pthread, hpthread, hrun⟩ := bind_eq_ok.mp hrun
  exact ⟨pid, pthread, hpid, hpthread, hrun⟩

/-- A read from an empty pipe blocks the calling thread and nothing else if and only if the receiver
of the pipe is the caller's process, or there was nothing to change. -/
theorem empty_read_blocks_iff (h : Run Sound k) (hcur : k.Current τ) (hempty : k.EmptyPipe name) :
    (∃ k', Returns (readFromPipe · k name buff) k' ∧ k.BlocksOnly k' τ) ↔
      k.ReadsOwnPipe τ name buff := by
  obtain ⟨V, hr, hok⟩ := h.rep
  unfold Kernel.ReadsOwnPipe
  by_cases hbuff : buff = NULL
  -- With a `NULL` buffer nothing runs at all, and the caller would have to be blocked already.
  · subst hbuff
    rw [if_pos rfl]
    constructor
    · rintro ⟨k', hret, hblocks⟩
      obtain ⟨fuel, hrun⟩ := hret.exists_fuel
      obtain rfl := hempty.readFromPipe_null.eq hrun
      exact hblocks.caller
    · intro hcaller
      exact ⟨k, hempty.readFromPipe_null, hcaller, fun _ _ _ => Iff.rfl, fun _ _ _ => Iff.rfl⟩
  · rw [if_neg hbuff]
    constructor
    -- A read that returns has decoded the receiver and found the thread with the caller's number
    -- there.
    · rintro ⟨k', hret, hblocks⟩
      obtain ⟨fuel, hrun⟩ := hret.exists_fuel
      obtain ⟨pid, pthread, hpid, hpthread, hblock⟩ := hempty.readFromPipe_inv hbuff hrun
      obtain ⟨p, hp, t, ht, rfl, rfl, hr'⟩ := hr.blockThread_inv hok hblock
      have hτ : t.val.pthread = τ.2 := Except.ok.inj (hpthread.symm.trans hcur.2)
      exact ⟨_, getReceiverPid_returns hpid, (hr.blocksOnly_iff hok hp ht hr' hτ).mp hblocks⟩
    · rintro ⟨pid, hpid, hown⟩
      -- That thread exists in either case: the caller itself, or the sleeping namesake.
      obtain ⟨p, hp, t, ht, rfl, hτ⟩ : ∃ p ∈ V.table, ∃ t ∈ p.threads, p.val.pid = pid ∧
          t.val.pthread = τ.2 := by
        rcases hown with rfl | hasleep
        · obtain ⟨c, hc, t, ht, -, -, rfl⟩ := (hr.current_iff hok).mp hcur
          exact ⟨c, hc, t, ht, rfl, rfl⟩
        · have hnamed := (hr.threadIs_iff hok).mp hasleep.named
          obtain ⟨p, hp, t, ht, heq, -⟩ := hok.threadState_some.mp hnamed
          obtain ⟨rfl, hpthread⟩ := Prod.mk.inj heq
          exact ⟨p, hp, t, ht, rfl, hpthread⟩
      obtain ⟨k', hblock, hr'⟩ := hr.blockThread hok hp ht .T_BLOCKED_PIPE
      refine ⟨k', ?_, (hr.blocksOnly_iff hok hp ht hr' hτ).mpr hown⟩
      exact hempty.readFromPipe_returns hbuff hpid (by rw [hτ]; exact hcur.2) hblock

/-! ### Process `0` reads -/

/-- Process `0` makes a pipe and reads from it. -/
def emptyRead (fromPid toPid : Int) : Except Stop (Addr × Kernel × Kernel) := do
  let (name, k) ← do_pipe 40 (← startKernel) fromPid toPid
  let k' ← readFromPipe 40 k name 0x20000000
  return (name, k, k')

/-- The pipe is the first of the list and empty, its name has the characters `a` and `b`, and the read
blocks the thread `(toPid, 0)`. -/
def emptyReadChecks (toPid : Int) (a b : UInt8) (name : Addr) (k k' : Kernel) : Bool :=
  decide (k.Current (0, 0) ∧ (k.pipeList ≠ NULL ∧ (k.pipe k.pipeList).name = name ∧ name ≠ NULL ∧
      load k.char (k.pipe k.pipeList).readPointer = .ok 0) ∧
    (k.char name = a ∧ a ≠ 0 ∧ k.char (name + 1) = b ∧ b ≠ 0 ∧ k.char (name + 2) = 0) ∧
    getReceiverPid 40 k name = .ok toPid ∧
    k.threadIs? (toPid, 0) .T_READY ∧ k'.threadIs? (toPid, 0) .T_BLOCKED_PIPE)

theorem emptyRead_run {fromPid toPid : Int} {a b : UInt8} (h : (do
    let r ← emptyRead fromPid toPid
    let (name, k, k') := r
    return emptyReadChecks toPid a b name k k' : Except Stop Bool) = .ok true) :
    ∃ name k k', Run Sound k ∧ k.Current (0, 0) ∧ k.EmptyPipe name ∧
      Returns (getReceiverPid · k name) toPid ∧ readFromPipe 40 k name 0x20000000 = .ok k' ∧
      k.ThreadIs (toPid, 0) .T_READY ∧ k'.ThreadIs (toPid, 0) .T_BLOCKED_PIPE := by
  obtain ⟨r, hr, h⟩ := bind_eq_ok.mp h
  rw [emptyRead] at hr
  obtain ⟨k₀, hk₀, hr⟩ := bind_eq_ok.mp hr
  obtain ⟨⟨name, k⟩, hk, hr⟩ := bind_eq_ok.mp hr
  obtain ⟨k', hk', hr⟩ := bind_eq_ok.mp hr
  obtain rfl := Except.ok.inj hr
  have hchecks := Except.ok.inj h
  unfold emptyReadChecks at hchecks
  have hchecks := of_decide_eq_true hchecks
  -- What was evaluated: who runs, the pipe, its name and the two states of the receiver's thread.
  obtain ⟨hcur, ⟨hpipe, hname, hne, hempty⟩, hstr, hpid, hready, hblocked⟩ := hchecks
  have hrun₀ : Run Sound k₀ := .start (booted_of_start hk₀)
  have hrun : Run Sound k :=
    hrun₀.step (.createPipe fromPid toPid) trivial (bind_eq_ok.mpr ⟨_, hk, rfl⟩)
  -- The pipe is the first in the list, so the lookup ends at once.
  have hget : Returns (getPipe · k name) k.pipeList := by
    rw [← hname] at hne hstr ⊢
    exact getPipe_first rfl hpipe hne (show k.IsString _ [a, b] from hstr)
  exact ⟨name, k, k', hrun, hcur, ⟨_, hget, hpipe, hempty⟩, getReceiverPid_returns hpid, hk',
    Kernel.threadIs_of hready, Kernel.threadIs_of hblocked⟩

theorem foreign_read_checks : (do
    let r ← emptyRead 0 1
    let (name, k, k') := r
    return emptyReadChecks 1 45 49 name k k' : Except Stop Bool) = .ok true := by
  decide +kernel

theorem own_read_checks : (do
    let r ← emptyRead 1 0
    let (name, k, k') := r
    return emptyReadChecks 0 49 45 name k k' : Except Stop Bool) = .ok true := by
  decide +kernel

/-- Process `0` reads the pipe from `0` to `1`, and the thread of process `1` is blocked. -/
theorem foreign_read_blocks_receiver : ∃ name k k', Run Sound k ∧ k.Current (0, 0) ∧
    k.EmptyPipe name ∧ readFromPipe 40 k name 0x20000000 = .ok k' ∧
    k'.ThreadIs (1, 0) .T_BLOCKED_PIPE ∧ ¬ k.BlocksOnly k' (0, 0) := by
  obtain ⟨name, k, k', hrun, hcur, hempty, -, hk', hready, hblocked⟩ :=
    emptyRead_run foreign_read_checks
  refine ⟨name, k, k', hrun, hcur, hempty, hk', hblocked, fun hblocks => ?_⟩
  have hbefore := (hblocks.threads (1, 0) _ (by decide)).mp hblocked
  obtain ⟨V, hr, hok⟩ := hrun.rep
  have hstate := (hr.threadIs_iff hok).mp hready
  rw [(hr.threadIs_iff hok).mp hbefore] at hstate
  cases hstate

/-- Process `0` reads the pipe from `1` to `0`, and is blocked. -/
theorem own_read_blocks_caller : ∃ name k k', Run Sound k ∧ k.Current (0, 0) ∧
    k.EmptyPipe name ∧ Returns (readFromPipe · k name 0x20000000) k' ∧ k.BlocksOnly k' (0, 0) := by
  obtain ⟨name, k, -, hrun, hcur, hempty, hpid, -⟩ := emptyRead_run own_read_checks
  have hown : k.ReadsOwnPipe (0, 0) name 0x20000000 := by
    unfold Kernel.ReadsOwnPipe
    rw [if_neg (by decide)]
    exact ⟨0, hpid, .inl rfl⟩
  obtain ⟨k', hret, hblocks⟩ := (empty_read_blocks_iff hrun hcur hempty).mpr hown
  exact ⟨name, k, k', hrun, hcur, hempty, hret, hblocks⟩

end BasicKernel
