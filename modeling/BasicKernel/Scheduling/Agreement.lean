import BasicKernel.Scheduling.Alive
import BasicKernel.Scheduling.ProcessRing

set_option autoImplicit false

/-! # Processes and their threads

Whether a process is blocked exactly when none of its threads can run. A process records one type of block,
whatever its threads wait for, and `allThreadsAreBlocked` overlooks a thread that is running.

`KeepsAgreement` is what the events must spare, and `process_agrees_with_threads` says that then a
process that is not dead is blocked exactly when no thread of it can run. `lost_wake_up` is a run
in which a thread is ready and its process stays blocked.
-/

namespace BasicKernel

open Linked Keyed Fuel Transition

/-- A process that is not dead is blocked if and only if none of its threads is ready or running. -/
def Kernel.Agrees (k : Kernel) : Prop :=
  ∀ pid s, k.ProcessIs pid s → s ≠ .DEAD → (isProcessBlocked s ↔
    ∀ pthread ts, k.ThreadIs (pid, pthread) ts → ts ≠ .T_READY ∧ ts ≠ .T_RUNNING)

/-- The events that create, block, wake and schedule threads. -/
def KernelOp.OfThreads : KernelOp → Prop
  | tick _ _ => True
  | yield _ _ => True
  | addProcess _ _ _ => True
  | addThread _ _ _ => True
  | blockThread _ _ ty => isThreadBlocked ty
  | unblockThread _ _ ty => isThreadBlocked ty
  | unblockAllThreads _ ty => isThreadBlocked ty
  | _ => False

/-- The events that keep a process and its threads together: no thread of a blocked process is created,
a thread is blocked only when none of the others is running, or one of them is ready, and a blocked process
and its threads are woken by the same type of block. -/
def KeepsAgreement (k : Kernel) (op : KernelOp) : Prop :=
  op.OfThreads ∧ match op with
    | .addProcess _ _ _ => CleanProcess k
    | .addThread pid _ _ => ∀ s, k.ProcessIs pid s → ¬ isProcessBlocked s
    | .blockThread pid pthread _ => (∃ i, i ≠ pthread ∧ k.ThreadIs (pid, i) .T_READY) ∨
        ∀ i, i ≠ pthread → ¬ k.ThreadIs (pid, i) .T_RUNNING
    | .unblockThread pid pthread ty => ∀ s, k.ProcessIs pid s → isProcessBlocked s →
        (k.ThreadIs (pid, pthread) ty ↔ s = getBlockProcessType ty)
    | .unblockAllThreads pid ty => ∀ s, k.ProcessIs pid s → isProcessBlocked s →
        (∃ i, k.ThreadIs (pid, i) ty) → s = getBlockProcessType ty
    | _ => True

/-! ## Threads that can run

A thread is active when it is ready or running. What a change does to the active threads of a
process decides whether the process may stay as it is. -/

def ThreadView.active (t : ThreadView) : Prop := t.val.state = .T_READY ∨ t.val.state = .T_RUNNING

/-- One of the threads can run. -/
def ProcessView.Active (p : ProcessView) : Prop := ∃ t ∈ p.threads, t.active

/-- The process lives, all its threads are counted, and it is blocked if and only if none of them can run. -/
structure ProcessView.Agreeing (p : ProcessView) : Prop where
  alive : p.val.state ≠ .DEAD
  whole : p.val.threadSize = p.threads.length
  agrees : isProcessBlocked p.val.state ↔ ¬ p.Active

def View.Agreeing (V : View) : Prop := ∀ p ∈ V.table, p.Agreeing

variable {k k' : Kernel} {V V' : View} {op : KernelOp} {p : ProcessView} {t u : ThreadView}
  {ty : ThreadState}

namespace ProcessView

theorem mem_setThread_iff (p : ProcessView) (a : Addr) {f : ThreadNode → ThreadNode} :
    u ∈ (p.setThread a f).threads ↔ ∃ v ∈ p.threads, u = if v.addr = a then v.setVal f else v := by
  unfold setThread update
  rw [List.mem_map]
  exact exists_congr fun v => and_congr_right fun _ => eq_comm

/-- A thread at another address is left alone. -/
theorem active_setThreadState (ht : t ∈ p.threads) (s : ThreadState) :
    (p.setThreadState t.addr s).Active ↔
      (s = .T_READY ∨ s = .T_RUNNING) ∨ ∃ u ∈ p.threads, u.addr ≠ t.addr ∧ u.active := by
  constructor
  · rintro ⟨u, hu, hactive⟩
    obtain ⟨v, hv, rfl⟩ := (p.mem_setThread_iff t.addr).mp hu
    split at hactive
    case isTrue _ => exact .inl hactive
    case isFalse hne => exact .inr ⟨v, hv, hne, hactive⟩
  · rintro (hs | ⟨u, hu, hne, hactive⟩)
    · exact ⟨t.setVal fun v => { v with state := s },
        (p.mem_setThread_iff t.addr).mpr ⟨t, ht, by rw [if_pos rfl]⟩, hs⟩
    · exact ⟨u, (p.mem_setThread_iff t.addr).mpr ⟨u, hu, by rw [if_neg hne]⟩, hactive⟩

theorem wakeThread_length (p : ProcessView) (t : ThreadView) (ty : ThreadState) :
    (p.wakeThread t ty).threads.length = p.threads.length := by
  unfold wakeThread
  split
  · exact List.length_map _
  · rfl

theorem active_wakeThread (ht : t ∈ p.threads) :
    (p.wakeThread t ty).Active ↔ t.val.state = ty ∨ p.Active := by
  unfold wakeThread
  split
  case isTrue hs =>
      constructor
      · exact fun _ => .inl hs
      · exact fun _ => (active_setThreadState ht _).mpr (.inl (.inl rfl))
  case isFalse hs =>
      constructor
      · exact .inr
      · exact fun h => h.resolve_left hs

theorem active_pauseThread (ht : t ∈ p.threads) : (p.pauseThread t).Active ↔ p.Active := by
  unfold pauseThread
  rw [active_wakeThread ht]
  constructor
  · rintro (hs | h)
    · exact ⟨t, ht, .inr hs⟩
    · exact h
  · exact .inr

/-- The process had a thread that can run, and has one. -/
theorem active_of_nextReady (ht : t ∈ p.threads) (hu : p.nextReady t = some u) :
    p.Active ∧ (p.switchThread t u).Active := by
  obtain ⟨hmem, hready⟩ := mem_of_nextReady hu
  constructor
  · rw [← active_pauseThread ht]
    exact ⟨u, hmem, .inl hready⟩
  · have hset := active_setThreadState
      (p := (p.pauseThread t).setVal fun v => { v with currentThread := u.lib }) hmem .T_RUNNING
    exact hset.mpr (.inl (.inr rfl))

/-! ## Changes of one process

Each change keeps the agreement under the condition that `KeepsAgreement` asks of its event. -/

namespace Agreeing

theorem setTick (h : p.Agreeing) (n : Int) : (p.setTick n).Agreeing := ⟨h.alive, h.whole, h.agrees⟩

theorem saveStack (h : p.Agreeing) (a esp : Addr) : (p.saveStack a esp).Agreeing := by
  have hactive : (p.saveStack a esp).Active ↔ p.Active := by
    constructor
    · rintro ⟨u, hu, hactive⟩
      obtain ⟨v, hv, rfl⟩ := (p.mem_setThread_iff a).mp hu
      refine ⟨v, hv, ?_⟩
      split at hactive
      · exact hactive
      · exact hactive
    · rintro ⟨v, hv, hactive⟩
      refine ⟨_, (p.mem_setThread_iff a).mpr ⟨v, hv, rfl⟩, ?_⟩
      split
      · exact hactive
      · exact hactive
  refine ⟨h.alive, ?_, h.agrees.trans (not_congr hactive).symm⟩
  show p.val.threadSize = (p.setThread a _).threads.length
  rw [h.whole, setThread, update, List.length_map]

/-- Between ready and running. -/
theorem setState {s : ProcessState} (h : p.Agreeing) (hp : ¬ isProcessBlocked p.val.state)
    (hs : ¬ isProcessBlocked s) (hdead : s ≠ .DEAD) : (p.setState s).Agreeing :=
  ⟨hdead, h.whole, ⟨fun hb => absurd hb hs, fun hb => absurd (h.agrees.mpr hb) hp⟩⟩

theorem pause (h : p.Agreeing) (current : Addr) : (p.pause current).Agreeing := by
  unfold ProcessView.pause
  split
  case isTrue hrunning =>
      refine h.setState ?_ (by decide) (by decide)
      rw [hrunning.2]
      decide
  case isFalse _ => exact h

theorem switchThread (h : p.Agreeing) (ht : t ∈ p.threads) (hu : p.nextReady t = some u) :
    (p.switchThread t u).Agreeing := by
  obtain ⟨hactive, hactive'⟩ := active_of_nextReady ht hu
  have hval := p.switchThread_val t u
  refine ⟨?_, ?_, ?_⟩
  · rw [hval]
    exact h.alive
  · rw [hval]
    show p.val.threadSize = _
    rw [h.whole, ← p.wakeThread_length t .T_RUNNING]
    unfold ProcessView.switchThread dispatch setThreadState setThread update
    rw [List.length_map]
    rfl
  · rw [hval]
    exact ⟨fun hb => absurd hactive (h.agrees.mp hb), fun hn => absurd hactive' hn⟩

theorem block (h : p.Agreeing) (ht : t ∈ p.threads)
    (hunique : ∀ u ∈ p.threads, u.addr = t.addr → u = t)
    (hty : isThreadBlocked ty)
    (hothers : (∃ u ∈ p.threads, u ≠ t ∧ u.val.state = .T_READY) ∨
      ∀ u ∈ p.threads, u ≠ t → u.val.state ≠ .T_RUNNING) : (p.block t.addr ty).Agreeing := by
  have hne : ty ≠ .T_READY ∧ ty ≠ .T_RUNNING := by
    constructor
    · rintro rfl
      cases hty
    · rintro rfl
      cases hty
  have hthreads : (p.block t.addr ty).threads = (p.setThreadState t.addr ty).threads := by
    unfold ProcessView.block
    dsimp only
    split <;> rfl
  have hsize : (p.block t.addr ty).val.threadSize = p.val.threadSize := by
    unfold ProcessView.block
    dsimp only
    split <;> rfl
  have hlength : (p.setThreadState t.addr ty).threads.length = p.threads.length := by
    unfold setThreadState setThread update
    rw [List.length_map]
  -- after the block another thread can run if and only if one is ready
  have hready : (p.block t.addr ty).noneReady = false ↔
      ∃ u ∈ p.threads, u ≠ t ∧ u.val.state = .T_READY := by
    rw [noneReady_block]
    unfold ProcessView.noneReady
    have htake : ((p.setThreadState t.addr ty).threads.take p.val.threadSize.toNat) =
        (p.setThreadState t.addr ty).threads := by
      rw [h.whole, Int.toNat_natCast, ← hlength, List.take_length]
    show (((p.setThreadState t.addr ty).threads.take p.val.threadSize.toNat).all fun u =>
      u.val.state ≠ .T_READY) = false ↔ _
    rw [htake, List.all_eq_false]
    constructor
    · rintro ⟨u, hu, hstate⟩
      obtain ⟨v, hv, rfl⟩ := (p.mem_setThread_iff t.addr).mp hu
      split at hstate
      case isTrue _ => exact absurd (decide_eq_true hne.1) hstate
      case isFalse hva =>
          refine ⟨v, hv, ?_, by simpa using hstate⟩
          rintro rfl
          exact hva rfl
    · rintro ⟨v, hv, hvt, hstate⟩
      refine ⟨v, (p.mem_setThread_iff t.addr).mpr ⟨v, hv, ?_⟩, by simpa using hstate⟩
      rw [if_neg fun heq => hvt (hunique v hv heq)]
  have hactive : (p.block t.addr ty).Active ↔ ∃ u ∈ p.threads, u ≠ t ∧ u.val.state = .T_READY := by
    have hset : (p.block t.addr ty).Active ↔ (p.setThreadState t.addr ty).Active := by
      unfold Active
      rw [hthreads]
    rw [hset, active_setThreadState ht]
    constructor
    -- a thread that is running would be overlooked by `allThreadsAreBlocked`; `hothers` says there
    -- is none
    · rintro (hs | ⟨u, hu, hut, hready' | hrunning⟩)
      · exact absurd hs (not_or.mpr hne)
      · exact ⟨u, hu, fun heq => hut (heq ▸ rfl), hready'⟩
      · exact hothers.resolve_right fun hnone => hnone u hu (fun heq => hut (heq ▸ rfl)) hrunning
    · rintro ⟨u, hu, hut, hstate⟩
      exact .inr ⟨u, hu, fun heq => hut (hunique u hu heq), .inl hstate⟩
  refine ⟨p.block_alive t.addr hty h.alive, ?_, ?_⟩
  · rw [hsize, hthreads, hlength]
    exact h.whole
  · rw [hactive, ← hready, block_state]
    -- the process is blocked too exactly when no thread is ready
    split
    case isTrue hnone =>
        rw [hnone]
        refine ⟨fun _ h => (by cases h), fun _ => isProcessBlocked_getBlockProcessType hty⟩
    case isFalse hsome =>
        have hsome' : (p.block t.addr ty).noneReady = false := Bool.eq_false_iff.mpr hsome
        obtain ⟨u, hu, -, hstate⟩ := hready.mp hsome'
        refine ⟨fun hb => absurd ⟨u, hu, .inl hstate⟩ (h.agrees.mp hb), fun hn => absurd hsome' hn⟩

theorem unblock (h : p.Agreeing) (ht : t ∈ p.threads) (hty : isThreadBlocked ty)
    (hmatch : isProcessBlocked p.val.state → (t.val.state = ty ↔ p.val.state = getBlockProcessType ty)) :
    (p.unblock t ty).Agreeing := by
  have hactive : (p.unblock t ty).Active ↔ t.val.state = ty ∨ p.Active := by
    have hthreads : (p.unblock t ty).threads = (p.wakeThread t ty).threads := by
      unfold ProcessView.unblock wake
      split <;> rfl
    unfold Active
    rw [hthreads]
    exact active_wakeThread ht
  have hwhole : (p.unblock t ty).val.threadSize = (p.unblock t ty).threads.length := by
    have hwake : ∀ q : ProcessView, q.val.threadSize = q.threads.length →
        (q.wake (getBlockProcessType ty)).val.threadSize =
          (q.wake (getBlockProcessType ty)).threads.length := by
      intro q hq
      unfold wake
      split <;> exact hq
    apply hwake
    rw [wakeThread_val, wakeThread_length]
    exact h.whole
  refine ⟨p.unblock_alive t ty h.alive, hwhole, ?_⟩
  have hstate : (p.unblock t ty).val.state
      = if p.val.state = getBlockProcessType ty then .READY else p.val.state := by
    rw [ProcessView.unblock, wake_state, wakeThread_val]
  rw [hactive, hstate]
  -- a blocked process has no thread that can run, so the types must match
  by_cases hb : isProcessBlocked p.val.state
  · have hnone := h.agrees.mp hb
    rw [hmatch hb]
    split
    case isTrue hs => exact ⟨fun h => (by cases h), fun hn => absurd (.inl hs) hn⟩
    case isFalse hs => exact ⟨fun _ => not_or.mpr ⟨hs, hnone⟩, fun _ => hb⟩
  -- a process that is not blocked has such a thread already, and keeps its state
  · have hsome : p.Active := by
      by_contra hn
      exact hb (h.agrees.mpr hn)
    have hs : p.val.state ≠ getBlockProcessType ty := by
      intro heq
      rw [heq] at hb
      exact hb (isProcessBlocked_getBlockProcessType hty)
    rw [if_neg hs]
    exact ⟨fun h => absurd h hb, fun hn => absurd (.inr hsome) hn⟩

theorem unblockAll (h : p.Agreeing) (haddrs : (p.threads.map ThreadView.addr).Nodup)
    (hty : isThreadBlocked ty) (hmatch : isProcessBlocked p.val.state →
      (∃ t ∈ p.threads, t.val.state = ty) → p.val.state = getBlockProcessType ty) :
    (p.unblockAll ty).Agreeing := by
  have htake : p.threads.take p.val.threadSize.toNat = p.threads := by
    rw [h.whole, Int.toNat_natCast, List.take_length]
  have hthreads : (p.unblockAll ty).threads = p.threads.map fun u =>
      if u.val.state = ty then u.setVal fun v => { v with state := .T_READY } else u := by
    rw [unblockAll_threads haddrs, htake]
    apply List.map_congr_left
    intro u hu
    simp only [List.mem_map_of_mem hu, true_and]
  have hval : (p.unblockAll ty).val = if ∃ t ∈ p.threads, t.val.state = ty
      then p.val.wake (getBlockProcessType ty) else p.val := by
    rw [unblockAll_val haddrs, htake]
  have hne : ty ≠ .T_READY ∧ ty ≠ .T_RUNNING := by
    constructor
    · rintro rfl
      cases hty
    · rintro rfl
      cases hty
  -- after the call the threads that waited for `ty` can run too
  have hactive : (p.unblockAll ty).Active ↔ (∃ t ∈ p.threads, t.val.state = ty) ∨ p.Active := by
    unfold Active
    rw [hthreads]
    simp only [List.mem_map, exists_exists_and_eq_and]
    constructor
    · rintro ⟨u, hu, hactive⟩
      split at hactive
      case isTrue hs => exact .inl ⟨u, hu, hs⟩
      case isFalse _ => exact .inr ⟨u, hu, hactive⟩
    · rintro (⟨u, hu, hs⟩ | ⟨u, hu, hactive⟩)
      · refine ⟨u, hu, ?_⟩
        rw [if_pos hs]
        exact .inl rfl
      · refine ⟨u, hu, ?_⟩
        rw [if_neg]
        · exact hactive
        · intro hs
          rcases hactive with hready | hrunning
          · exact hne.1 (hs.symm.trans hready)
          · exact hne.2 (hs.symm.trans hrunning)
  refine ⟨p.unblockAll_alive ty h.alive, ?_, ?_⟩
  · have hsize : (p.unblockAll ty).val.threadSize = p.val.threadSize := by
      rw [hval]
      split
      · unfold ProcessNode.wake
        split <;> rfl
      · rfl
    rw [hsize, hthreads, List.length_map]
    exact h.whole
  · rw [hactive, hval]
    by_cases hwoken : ∃ t ∈ p.threads, t.val.state = ty
    · rw [if_pos hwoken]
      -- a process that was blocked was blocked for the same reason
      have hready : ¬ isProcessBlocked (p.val.wake (getBlockProcessType ty)).state := by
        unfold ProcessNode.wake
        split
        case isTrue _ => exact fun h => (by cases h)
        case isFalse hs => exact fun hb => hs (hmatch hb hwoken)
      exact ⟨fun hb => absurd hb hready, fun hn => absurd (.inl hwoken) hn⟩
    · rw [if_neg hwoken, h.agrees, or_iff_right hwoken]

theorem addThread (h : p.Agreeing) (hp : ¬ isProcessBlocked p.val.state) (ht : t.val.state = .T_READY) :
    (p.addThread t).Agreeing := by
  refine ⟨h.alive, ?_, fun hb => absurd hb hp, fun hn => ?_⟩
  · show p.val.threadSize + 1 = (insertSecond t p.threads).length
    rw [(insertSecond_perm t p.threads).length_eq, h.whole, List.length_cons]
    push_cast
    rfl
  · exact absurd ⟨t, mem_insertSecond.mpr (.inl rfl), .inl ht⟩ hn

end Agreeing

theorem Created.agreeing {entryPoint : Addr} {pid : Int} (h : p.Created entryPoint pid) :
    p.Agreeing := by
  obtain ⟨t, hthreads, ht, -⟩ := h.threads
  refine ⟨?_, ?_, ?_⟩
  · rw [h.state]
    decide
  · rw [h.threadSize, hthreads]
    rfl
  · rw [h.state]
    refine ⟨fun hb => (by cases hb), fun hn => absurd ⟨t, ?_, .inl ht.state⟩ hn⟩
    rw [hthreads]
    exact List.mem_singleton.mpr rfl

end ProcessView

/-! ## Events

The condition speaks of the memory and the invariant of the view. `threadIs_iff_of_mem` goes from
one to the other. -/

theorem View.AtBoot.agreeing (h : V.AtBoot) : V.Agreeing := by
  intro p hp
  obtain ⟨entryPoint, pid, hcreated⟩ := h.created hp
  exact hcreated.agreeing

theorem View.Agreeing.set {p' : ProcessView} (h : V.Agreeing) (hp' : p'.Agreeing) :
    (V.set p p').Agreeing := View.forall_set h hp'

namespace Rep

theorem agreeing_scheduled (hr : Rep k V) (h : Scheduled V V') (hV : V.Agreeing) : V'.Agreeing := by
  cases h with
  | @count c hc _ _ _ =>
      have hset : (V.set c (c.setTick (c.val.threadTick + 1))).Agreeing := hV.set ((hV c hc).setTick _)
      exact hset
  | @thread c t u hc _ ht _ _ _ hu =>
      have hset : (V.set c ((c.setTick 0).switchThread t u)).Agreeing := by
        rw [← c.nextReady_setTick t 0] at hu
        exact hV.set (((hV c hc).setTick 0).switchThread ht hu)
      exact hset
  -- a switch changes no thread, and exchanges ready and running
  | @process s _ hs =>
      have hrun : s.runnable V.current := List.find?_some hs
      have hsT : s ∈ V.table := mem_rotation.mp (List.mem_of_find?_eq_some hs)
      intro p hp
      obtain ⟨q, hq, rfl⟩ := List.mem_map.mp hp
      have hqT := View.mem_of_mem_reap hr.queue.nodup hq
      have hq' := hV q hqT
      split
      case isTrue heq =>
          obtain rfl := eq_of_key_eq hr.queue.nodup hqT hsT heq
          refine hq'.setState ?_ (by decide) (by decide)
          simp only [ProcessView.runnable, decide_eq_true_eq] at hrun
          rcases hrun with hrun | ⟨-, hrun⟩
          · rw [hrun]
            decide
          · rw [hrun]
            decide
      case isFalse _ => exact hq'.pause _

theorem agreeing_yielded {c : ProcessView} (hr : Rep k V) (h : Yielded V c t V') (hc : c ∈ V.table)
    (hV : V.Agreeing) : V'.Agreeing := by
  cases h with
  | process _ hs => exact (hr.setTicks QUANTUM).agreeing_scheduled hs hV
  | thread _ _ hs =>
      obtain ⟨k₁, -, hr₁⟩ := hr.setTick hc THREAD_QUANTUM
      exact hr₁.agreeing_scheduled hs (hV.set ((hV c hc).setTick _))
  | stay _ _ => exact hV

/-- What the kernel says of a process and its threads, on the view. -/
theorem threadIs_iff_of_mem (hr : Rep k V) (hok : V.Ok) (hp : p ∈ V.table) {i : Int} {s : ThreadState} :
    k.ThreadIs (p.val.pid, i) s ↔ ∃ u ∈ p.threads, u.val.pthread = i ∧ u.val.state = s := by
  rw [hr.threadIs_iff hok, hok.threadState_some]
  constructor
  · rintro ⟨q, hq, u, hu, heq, hus⟩
    obtain ⟨hqp, rfl⟩ := Prod.mk.inj heq
    obtain rfl := eq_of_key_eq hok.pids hq hp hqp
    exact ⟨u, hu, rfl, hus⟩
  · rintro ⟨u, hu, rfl, hus⟩
    exact ⟨p, hp, u, hu, rfl, hus⟩

theorem agreeing_effect (hr : Rep k V) (hok : V.Ok) (h : Effect k V op V')
    (hkeeps : KeepsAgreement k op) (hV : V.Agreeing) : V'.Agreeing := by
  obtain ⟨hof, hkeeps⟩ := hkeeps
  have hstate : ∀ p ∈ V.table, k.ProcessIs p.val.pid p.val.state := fun p hp =>
    (hr.processIs_iff hok).mpr (hok.processState_eq hp)
  -- one case for each event that `KeepsAgreement` allows
  cases h with
  | idle _ => exact hV
  | @tick _ rsp c t _ hc ht hccur htcur hsched =>
      obtain ⟨k₁, -, hr₁⟩ := hr.saveStack hc hccur ht htcur rsp
      exact hr₁.agreeing_scheduled hsched (hV.set ((hV c hc).saveStack _ _))
  | @yield _ rsp c t _ hc ht hccur htcur hyield =>
      obtain ⟨k₁, -, hr₁⟩ := hr.saveStack hc hccur ht htcur rsp
      exact hr₁.agreeing_yielded hyield (View.mem_set hc _) (hV.set ((hV c hc).saveStack _ _))
  | @addProcess _ _ _ p hp =>
      intro q hq
      rcases mem_insertSecond.mp hq with rfl | hq
      · exact hp.agreeing
      · exact hV q hq
  | @addThread _ _ _ p _ hp hpid ht =>
      exact hV.set ((hV p hp).addThread (hkeeps _ (hpid ▸ hstate p hp)) ht.state)
  | @blockThread _ _ ty p t hp ht hpid hpthread =>
      have hset : (V.set p (p.block t.addr ty)).Agreeing := by
        refine hV.set ((hV p hp).block ht (hr.thread_unique hp ht) hof ?_)
        -- either another thread is ready, or no other thread runs
        subst hpid hpthread
        rcases hkeeps with ⟨i, hi, hready⟩ | hnone
        · obtain ⟨u, hu, rfl, hus⟩ := (hr.threadIs_iff_of_mem hok hp).mp hready
          exact .inl ⟨u, hu, fun heq => hi (heq ▸ rfl), hus⟩
        · refine .inr fun u hu hut hus => hnone u.val.pthread (fun heq => hut ?_)
            ((hr.threadIs_iff_of_mem hok hp).mpr ⟨u, hu, rfl, hus⟩)
          exact eq_of_key_eq (hok.processes p hp).pthreads hu ht heq
      exact hset
  | @unblockThread _ _ ty p t hp ht hpid hpthread =>
      subst hpid hpthread
      refine hV.set ((hV p hp).unblock ht hof fun hb => ?_)
      rw [← hkeeps _ (hstate p hp) hb, hr.threadIs_iff hok, hok.threadState_eq hp ht, Option.some_inj]
  | @unblockAllThreads _ ty p hp hpid =>
      subst hpid
      refine hV.set ((hV p hp).unblockAll (hr.threadAddrs_nodup hp) hof fun hb ⟨u, hu, hus⟩ => ?_)
      exact hkeeps _ (hstate p hp) hb
        ⟨u.val.pthread, (hr.threadIs_iff_of_mem hok hp).mpr ⟨u, hu, rfl, hus⟩⟩
  | _ => exact absurd hof id

theorem agrees (hr : Rep k V) (hok : V.Ok) (hV : V.Agreeing) : k.Agrees := by
  intro pid s hs _
  obtain ⟨p, hp, rfl, rfl⟩ := hok.processState_some.mp ((hr.processIs_iff hok).mp hs)
  rw [(hV p hp).agrees]
  constructor
  · intro hnone i ts hts
    obtain ⟨u, hu, -, rfl⟩ := (hr.threadIs_iff_of_mem hok hp).mp hts
    exact ⟨fun hready => hnone ⟨u, hu, .inl hready⟩, fun hrunning => hnone ⟨u, hu, .inr hrunning⟩⟩
  · rintro hnone ⟨u, hu, hactive⟩
    have hne := hnone _ _ ((hr.threadIs_iff_of_mem hok hp).mpr ⟨u, hu, rfl, rfl⟩)
    exact hactive.elim hne.1 hne.2

end Rep

/-! ## Runs

Nothing is killed in these runs, so the removal of the dead removes nobody and every event is
sound. -/

theorem KeepsAgreement.soundAlive (h : KeepsAgreement k op) : SoundAlive k op := by
  obtain ⟨hof, hkeeps⟩ := h
  cases op with
  | tick _ _ => trivial
  | yield _ _ => trivial
  | addProcess _ _ _ => exact ⟨not_false, hkeeps⟩
  | addThread _ _ _ => exact ⟨not_false, trivial⟩
  | blockThread _ _ _ => exact ⟨not_false, hof⟩
  | unblockThread _ _ _ => exact ⟨not_false, trivial⟩
  | unblockAllThreads _ _ => exact ⟨not_false, trivial⟩
  | _ => exact absurd hof id

/-- In every run of such events a process that is not dead is blocked if and only if none of its threads
is ready or running. -/
theorem process_agrees_with_threads (h : Reachable Booted (KernelStep KeepsAgreement) k) : k.Agrees := by
  obtain ⟨V, hr, hok, hV⟩ : ∃ V, Rep k V ∧ V.Ok ∧ V.Agreeing := by
    refine Reachable.invariant (I := fun k => ∃ V, Rep k V ∧ V.Ok ∧ V.Agreeing) (fun k hk => ?_)
      (fun k k' _ hI hstep => ?_) h
    · obtain ⟨V, hr, hok, hboot⟩ := hk.rep
      exact ⟨V, hr, hok, hboot.agreeing⟩
    · obtain ⟨V, hr, hok, hV⟩ := hI
      obtain ⟨k₁, op, fuel, hrec, hkeeps, hrun⟩ := hstep
      have hr₁ := hr.recycled hrec
      have hs := hkeeps.soundAlive.sound hr₁ fun p hp => (hV p hp).alive
      obtain ⟨V', heffect, hr', hok'⟩ := hr₁.run_inv hok hs hrun
      exact ⟨V', hr', hok', hr₁.agreeing_effect hok heffect hkeeps hV⟩
  exact hr.agrees hok hV

/-! ### A thread that is woken in vain -/

/-- The threads of process `2` wait for a key and for a pipe, and a key is pressed. -/
def wokenInVain : Except Stop (Kernel × Kernel × Kernel × Kernel × Kernel) := do
  let k ← addedOne
  let k₁ ← (KernelOp.addThread 2 4 8).run 40 k
  let k₂ ← blockThread 40 k₁ 2 0 ThreadState.T_BLOCKED_IO
  let k₃ ← blockThread 40 k₂ 2 1 .T_BLOCKED_PIPE
  let k₄ ← unblockAllThreads 40 k₃ 2 ThreadState.T_BLOCKED_IO
  return (k, k₁, k₂, k₃, k₄)

theorem wokenInVain_states : (do
    let (k, k₁, k₂, _, k₄) ← wokenInVain
    return decide (k.processIs? 2 .READY ∧ k₁.threadIs? (2, 1) .T_READY ∧
      k₂.threadIs? (2, 0) ThreadState.T_BLOCKED_IO ∧ k₄.threadIs? (2, 0) .T_READY ∧
      k₄.processIs? 2 .BLOCKED_PIPE) : Except Stop Bool) = .ok true := by
  decide +kernel

/-- One of the two threads waits for a key. -/
theorem process_agrees_with_one_blocked :
    ∃ k : Kernel, k.ThreadIs (2, 0) ThreadState.T_BLOCKED_IO ∧ k.Agrees := by
  obtain ⟨r, hr, h⟩ := bind_eq_ok.mp wokenInVain_states
  obtain ⟨k, hk, hr⟩ := bind_eq_ok.mp hr
  obtain ⟨k₁, hk₁, hr⟩ := bind_eq_ok.mp hr
  obtain ⟨k₂, hk₂, hr⟩ := bind_eq_ok.mp hr
  obtain ⟨k₃, -, hr⟩ := bind_eq_ok.mp hr
  obtain ⟨k₄, -, hr⟩ := bind_eq_ok.mp hr
  obtain rfl := Except.ok.inj hr
  obtain ⟨hready, hready₁, hblocked, -⟩ := of_decide_eq_true (Except.ok.inj h)
  have hrun : Reachable Booted (KernelStep KeepsAgreement) k :=
    addedOne_reachable hk fun k op hclean hop => by
      rw [hop]
      exact ⟨trivial, hclean⟩
  have hcreate : KeepsAgreement k (.addThread 2 4 8) := by
    refine ⟨trivial, fun s hs hb => ?_⟩
    obtain rfl := (Kernel.processIs_of hready).unique hs
    cases hb
  have hblock : KeepsAgreement k₁ (.blockThread 2 0 ThreadState.T_BLOCKED_IO) :=
    ⟨rfl, .inl ⟨1, by decide, Kernel.threadIs_of hready₁⟩⟩
  have hrun₁ := hrun.next ⟨k, .addThread 2 4 8, 40, .refl k, hcreate, hk₁⟩
  have hrun₂ := hrun₁.next ⟨k₁, .blockThread 2 0 ThreadState.T_BLOCKED_IO, 40, .refl k₁, hblock, hk₂⟩
  exact ⟨k₂, Kernel.threadIs_of hblocked, process_agrees_with_threads hrun₂⟩

/-- The thread that waited for the key is ready, and its process stays blocked. -/
theorem lost_wake_up : ¬ ∀ k, Reachable Booted (KernelStep fun _ op => op.OfThreads) k → k.Agrees := by
  intro hclaim
  obtain ⟨r, hr, h⟩ := bind_eq_ok.mp wokenInVain_states
  obtain ⟨k, hk, hr⟩ := bind_eq_ok.mp hr
  obtain ⟨k₁, hk₁, hr⟩ := bind_eq_ok.mp hr
  obtain ⟨k₂, hk₂, hr⟩ := bind_eq_ok.mp hr
  obtain ⟨k₃, hk₃, hr⟩ := bind_eq_ok.mp hr
  obtain ⟨k₄, hk₄, hr⟩ := bind_eq_ok.mp hr
  obtain rfl := Except.ok.inj hr
  obtain ⟨-, -, -, hready, hblocked⟩ := of_decide_eq_true (Except.ok.inj h)
  have hrun : Reachable Booted (KernelStep fun _ op => op.OfThreads) k :=
    addedOne_reachable hk fun k op _ hop => by
      rw [hop]
      trivial
  have hrun₁ := hrun.next ⟨k, .addThread 2 4 8, 40, .refl k, trivial, hk₁⟩
  have hrun₂ := hrun₁.next ⟨k₁, .blockThread 2 0 ThreadState.T_BLOCKED_IO, 40, .refl k₁, rfl, hk₂⟩
  have hrun₃ := hrun₂.next ⟨k₂, .blockThread 2 1 .T_BLOCKED_PIPE, 40, .refl k₂, rfl, hk₃⟩
  have hrun₄ := hrun₃.next ⟨k₃, .unblockAllThreads 2 ThreadState.T_BLOCKED_IO, 40, .refl k₃, rfl, hk₄⟩
  have hagrees := (hclaim k₄ hrun₄ 2 .BLOCKED_PIPE (Kernel.processIs_of hblocked) (by decide)).mp rfl
  exact (hagrees 0 .T_READY (Kernel.threadIs_of hready)).1 rfl

end BasicKernel
