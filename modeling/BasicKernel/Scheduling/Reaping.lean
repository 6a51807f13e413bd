import BasicKernel.Scheduling.Accounting

set_option autoImplicit false

/-! # Dead threads

What `removeDeadThreads` does to a ring of threads. Its loop moves on only behind a dead thread, and
the first thread of a ring is never dead.

So `dead_threads_reaped_iff` finds that a ring loses its dead threads only where it has none, and
`dead_thread_stays` is a thread that was killed and is never freed by the loop.
-/

namespace BasicKernel

open Linked Keyed Fuel Transition

/-- `libs` are the nodes in the ring of threads of the process, from its head on. -/
structure Kernel.ThreadRing (k : Kernel) (process : Addr) (libs : List Addr) : Prop where
  process_ne : process ≠ NULL
  ring : Ring k.nextLib (k.process process).threadLibrary libs
  libs_ne : ∀ lib ∈ libs, lib ≠ NULL
  threads_ne : ∀ lib ∈ libs, (k.threadLibrary lib).thread ≠ NULL

def Kernel.isDead (k : Kernel) (lib : Addr) : Bool := (k.threadAt lib).state = .T_DEAD

/-- The page `j` of the block at `p` is in use. -/
def Kernel.pageUsed (k : Kernel) (p : Addr) (j : Nat) : Bool :=
  used k.memory.words ((p - k.memory.initMem) / PAGE_SIZE + j)

/-- Every page of the block was in use, and is free. -/
def Kernel.Freed (k k' : Kernel) (p : Addr) (size : Nat) : Prop :=
  ∀ j : Nat, j < blocksOf size → k.pageUsed p j ∧ ¬ k'.pageUsed p j

/-- The ring has lost its dead threads and nothing else, and their pages were freed once. -/
structure Kernel.ThreadsReaped (k k' : Kernel) (process : Addr) (libs : List Addr) : Prop where
  ring : k'.ThreadRing process (libs.filter fun lib => !k.isDead lib)
  freed : ∀ lib ∈ libs, k.isDead lib → k.Freed k' (k.threadAt lib).baseStack STACK_SIZE ∧
    k.Freed k' (k.threadLibrary lib).thread PAGE_SIZE ∧ k.Freed k' lib PAGE_SIZE
  once : k'.freedTwice = k.freedTwice

variable {k k' : Kernel} {V : View} {process lib : Addr} {libs : List Addr} {garbage : Garbage}
  {fuel : Nat}

/-! ## The loop

A dead node is freed and the loop goes on with the next one. A living node ends the loop, because
the pointer is not moved. -/

/-- Nothing is removed from a ring whose first thread lives. -/
theorem Kernel.ThreadRing.removeDeadThreads (h : k.ThreadRing process libs)
    (hhead : ¬ k.isDead (k.process process).threadLibrary) (garbage : Garbage) :
    removeDeadThreads garbage k process = .ok k := by
  have hmem := h.ring.head_mem
  have hthread : RepThread k ⟨(k.process process).threadLibrary,
      (k.threadLibrary (k.process process).threadLibrary).thread,
      k.threadAt (k.process process).threadLibrary⟩ :=
    ⟨h.libs_ne _ hmem, h.threads_ne _ hmem, rfl, rfl⟩
  have halive : (k.threadAt (k.process process).threadLibrary).state ≠ .T_DEAD := by
    simpa [Kernel.isDead] using hhead
  unfold BasicKernel.removeDeadThreads
  rw [load_of_ne h.process_ne, ok_bind]
  exact removeDeadLoop_alive hthread halive _ _

/-- A ring that was left alone has lost its dead threads if and only if there are none. -/
theorem Kernel.ThreadRing.reaped_self_iff (h : k.ThreadRing process libs) :
    k.ThreadsReaped k process libs ↔ ∀ lib ∈ libs, ¬ k.isDead lib := by
  constructor
  · intro hreaped lib hlib hdead
    have hperm := hreaped.ring.ring.perm h.ring
    have hmem := (List.mem_filter.mp (hperm.mem_iff.mpr hlib)).2
    rw [hdead] at hmem
    cases hmem
  · intro hnone
    have hall : libs.filter (fun lib => !k.isDead lib) = libs := by
      apply List.filter_eq_self.mpr
      intro lib hlib
      simpa using hnone lib hlib
    refine ⟨?_, fun lib hlib hdead => absurd hdead (hnone lib hlib), rfl⟩
    rw [hall]
    exact h

/-! ## `nextThread` -/

/-- The rings of threads, and who is dead in them, are the same. -/
structure Kernel.SameRings (k k' : Kernel) : Prop where
  libs : k'.threadLibrary = k.threadLibrary
  heads : ∀ a, (k'.process a).threadLibrary = (k.process a).threadLibrary
  dead : ∀ a, (k'.thread a).state = .T_DEAD ↔ (k.thread a).state = .T_DEAD

namespace Kernel.SameRings

theorem trans {k₁ : Kernel} (h : k.SameRings k₁) (h' : k₁.SameRings k') : k.SameRings k' :=
  ⟨h'.libs.trans h.libs, fun a => (h'.heads a).trans (h.heads a),
    fun a => (h'.dead a).trans (h.dead a)⟩

theorem isDead (h : k.SameRings k') (lib : Addr) : k'.isDead lib = k.isDead lib := by
  unfold Kernel.isDead Kernel.threadAt
  rw [h.libs]
  exact decide_eq_decide.mpr (h.dead _)

theorem threadRing (h : k.SameRings k') (hring : k.ThreadRing process libs) :
    k'.ThreadRing process libs := by
  refine ⟨hring.process_ne, ?_, hring.libs_ne, fun lib hlib => ?_⟩
  · unfold Kernel.nextLib
    rw [h.heads, h.libs]
    exact hring.ring
  · rw [h.libs]
    exact hring.threads_ne lib hlib

/-- A thread gets a state in which it is as dead as before. -/
theorem modifyThread {a : Addr} {f : ThreadNode → ThreadNode}
    (hf : (f (k.thread a)).state = .T_DEAD ↔ (k.thread a).state = .T_DEAD)
    (h : k.modifyThread a f = .ok k') : k.SameRings k' := by
  by_cases ha : a = NULL
  · rw [ha, Kernel.modifyThread_null] at h
    cases h
  · rw [Kernel.modifyThread_of_ne ha] at h
    obtain rfl := Except.ok.inj h
    refine ⟨rfl, fun _ => rfl, fun b => ?_⟩
    dsimp only
    by_cases hb : b = a
    · subst hb
      rw [Function.update_self]
      exact hf
    · rw [Function.update_of_ne hb]

theorem modifyProcess {a : Addr} {f : ProcessNode → ProcessNode}
    (hf : ∀ p, (f p).threadLibrary = p.threadLibrary) (h : k.modifyProcess a f = .ok k') :
    k.SameRings k' := by
  by_cases ha : a = NULL
  · rw [ha, Kernel.modifyProcess_null] at h
    cases h
  · rw [Kernel.modifyProcess_of_ne ha] at h
    obtain rfl := Except.ok.inj h
    refine ⟨rfl, fun b => ?_, fun _ => Iff.rfl⟩
    dsimp only
    by_cases hb : b = a
    · subst hb
      rw [Function.update_self]
      exact hf _
    · rw [Function.update_of_ne hb]

/-- The thread that the loop finds is ready, and runs then. -/
theorem resumeNextThread (h : BasicKernel.resumeNextThread fuel k process = .ok k') : k.SameRings k' := by
  unfold BasicKernel.resumeNextThread at h
  obtain ⟨p, hp, h⟩ := bind_eq_ok.mp h
  obtain ⟨last, hlast, h⟩ := bind_eq_ok.mp h
  obtain ⟨lib, hlib, h⟩ := bind_eq_ok.mp h
  obtain ⟨k₁, hk₁, h⟩ := bind_eq_ok.mp h
  obtain ⟨a, ha, h⟩ := bind_eq_ok.mp h
  have hsame : k.SameRings k₁ := modifyProcess (by intro p; rfl) hk₁
  have hready := walkWhile_inv hlast
  obtain ⟨hlastne, rfl⟩ := load_eq_ok.mp hlib
  obtain ⟨next, hnext, hready⟩ := bind_eq_ok.mp hready
  obtain ⟨-, rfl⟩ := load_eq_ok.mp hnext
  obtain ⟨lib', hlib', hready⟩ := bind_eq_ok.mp hready
  obtain ⟨hne, rfl⟩ := load_eq_ok.mp hlib'
  obtain ⟨t, ht, hready⟩ := bind_eq_ok.mp hready
  obtain ⟨-, rfl⟩ := load_eq_ok.mp ht
  have hstate := of_decide_eq_false (Except.ok.inj hready)
  rw [not_not] at hstate
  -- the thread that was stored last is the one that was tested
  obtain ⟨hprocess, -⟩ := load_eq_ok.mp hp
  rw [Kernel.modifyProcess_of_ne hprocess] at hk₁
  obtain rfl := Except.ok.inj hk₁
  unfold Kernel.currentThreadNode at ha
  rw [load_of_ne hprocess, ok_bind] at ha
  simp only [Function.update_self] at ha
  rw [load_of_ne hne, ok_bind] at ha
  obtain rfl := Except.ok.inj ha
  refine hsame.trans (.modifyThread ?_ h)
  simp only [hstate]
  decide

/-- Where `removeDeadThreads` removes nothing, `nextThread` only exchanges ready and running. -/
theorem nextThread (hprocess : k.currentProcessNode = .ok process)
    (hremove : removeDeadThreads garbage k process = .ok k)
    (h : BasicKernel.nextThread fuel garbage k = .ok k') : k.SameRings k' := by
  unfold BasicKernel.nextThread at h
  rw [hprocess, ok_bind, hremove, ok_bind] at h
  obtain ⟨a, -, h⟩ := bind_eq_ok.mp h
  obtain ⟨t, ht, h⟩ := bind_eq_ok.mp h
  obtain ⟨-, rfl⟩ := load_eq_ok.mp ht
  dsimp only at h
  split at h
  case isTrue hrunning =>
      obtain ⟨k₁, hk₁, h⟩ := bind_eq_ok.mp h
      exact trans (modifyThread (by simp [hrunning]) hk₁) (resumeNextThread h)
  case isFalse _ =>
      rw [pure_eq_ok, ok_bind] at h
      exact resumeNextThread h

end Kernel.SameRings

/-- A ring whose first thread lives loses its dead threads if and only if there are none, and
`nextThread` leaves no dead thread in it if and only if there was none. -/
theorem dead_threads_reaped_iff (h : k.ThreadRing process libs)
    (hhead : ¬ k.isDead (k.process process).threadLibrary) (garbage : Garbage) :
    (∃ k', removeDeadThreads garbage k process = .ok k' ∧
      (k.ThreadsReaped k' process libs ↔ ∀ lib ∈ libs, ¬ k.isDead lib)) ∧
    ∀ fuel k', k.currentProcessNode = .ok process → nextThread fuel garbage k = .ok k' →
      ((∃ libs', k'.ThreadRing process libs' ∧ ∀ lib ∈ libs', ¬ k'.isDead lib) ↔
        ∀ lib ∈ libs, ¬ k.isDead lib) := by
  have hremove := h.removeDeadThreads hhead garbage
  refine ⟨⟨k, hremove, h.reaped_self_iff⟩, fun fuel k' hprocess hnext => ?_⟩
  have hsame := Kernel.SameRings.nextThread hprocess hremove hnext
  have hring := hsame.threadRing h
  constructor
  · rintro ⟨libs', hring', hnone⟩ lib hlib hdead
    have hmem := (hring.ring.perm hring'.ring).mem_iff.mp hlib
    exact hnone lib hmem (by rw [hsame.isDead]; exact hdead)
  · intro hnone
    refine ⟨libs, hring, fun lib hlib => ?_⟩
    rw [hsame.isDead]
    exact hnone lib hlib

/-! ### A dead thread in a ring -/

theorem RepProcess.threadRing {p : ProcessView} (h : RepProcess k p) :
    k.ThreadRing p.addr (p.threads.map ThreadView.lib) := by
  have hthread : ∀ lib ∈ p.threads.map ThreadView.lib, ∃ t ∈ p.threads, t.lib = lib := fun lib hlib =>
    List.mem_map.mp hlib
  refine ⟨h.addr_ne, ?_, ?_, ?_⟩
  · rw [h.val]
    exact h.ring
  · intro lib hlib
    obtain ⟨t, ht, rfl⟩ := hthread lib hlib
    exact (h.threads t ht).lib_ne
  · intro lib hlib
    obtain ⟨t, ht, rfl⟩ := hthread lib hlib
    rw [(h.threads t ht).thread]
    exact (h.threads t ht).addr_ne

theorem RepProcess.isDead_iff {p : ProcessView} {t : ThreadView} (h : RepProcess k p)
    (ht : t ∈ p.threads) : k.isDead t.lib ↔ t.val.state = .T_DEAD := by
  have hrt := h.threads t ht
  unfold Kernel.isDead Kernel.threadAt
  rw [hrt.thread, hrt.val, decide_eq_true_eq]

theorem Rep.head_alive (hr : Rep k V) (hok : V.Ok) {p : ProcessView} (hp : p ∈ V.table) :
    ¬ k.isDead (k.process p.addr).threadLibrary := by
  obtain ⟨t, ts, hts, -, halive⟩ := (hok.processes p hp).main
  have hrp := hr.processes p hp
  have ht : t ∈ p.threads := by
    rw [hts]
    exact List.mem_cons_self
  obtain ⟨ls, hls⟩ := hrp.ring.exists_cons
  rw [hts, List.map_cons] at hls
  rw [hrp.val, ← (List.cons.inj hls).1, hrp.isDead_iff ht]
  exact halive

/-- The second thread of process `2` is removed. -/
def deadThread : Except Stop Kernel := do
  KernelOp.runSound 40 [.addProcess 1 4 8, .addThread 2 4 8, .removeThread 2 1] (← startKernel)

theorem deadThread_dead : (do
    return (← deadThread).threadIs? (2, 1) .T_DEAD : Except Stop Bool) = .ok true := by
  decide +kernel

theorem deadThread_reachable : ∃ k, Run Sound k ∧ k.ThreadIs (2, 1) .T_DEAD := by
  obtain ⟨k, hk, h⟩ := bind_eq_ok.mp deadThread_dead
  obtain ⟨k₀, hk₀, hrun⟩ := bind_eq_ok.mp hk
  exact ⟨k, Run.runSound (.start (booted_of_start hk₀)) hrun,
    Kernel.threadIs_of (Except.ok.inj h)⟩

/-- The dead thread stays in the ring. -/
theorem dead_thread_stays : ¬ ∀ (k : Kernel) (process : Addr) (libs : List Addr) (garbage : Garbage),
    Run Sound k → k.ThreadRing process libs → ¬ k.isDead (k.process process).threadLibrary →
      ∃ k', removeDeadThreads garbage k process = .ok k' ∧ k.ThreadsReaped k' process libs := by
  intro hclaim
  obtain ⟨k, hrun, hdead⟩ := deadThread_reachable
  obtain ⟨V, hr, hok⟩ := hrun.rep
  obtain ⟨p, hp, t, ht, -, hstate⟩ := hok.threadState_some.mp ((hr.threadIs_iff hok).mp hdead)
  have hrp := hr.processes p hp
  have hhead := hr.head_alive hok hp
  obtain ⟨k', hk', hreaped⟩ := hclaim k p.addr _ nullGarbage hrun hrp.threadRing hhead
  obtain rfl := Except.ok.inj ((hrp.threadRing.removeDeadThreads hhead _).symm.trans hk')
  exact hrp.threadRing.reaped_self_iff.mp hreaped t.lib (List.mem_map_of_mem ht)
    ((hrp.isDead_iff ht).mpr hstate)

/-- Of the ring of process `0`, whose only thread lives, there is nothing to remove. In the ring of process `2`
the dead thread stays. -/
theorem dead_threads_reaped_only_alive :
    (∃ k process libs, Run Sound k ∧ k.ThreadRing process libs ∧ (∀ lib ∈ libs, ¬ k.isDead lib) ∧
      ∃ k', removeDeadThreads nullGarbage k process = .ok k' ∧ k.ThreadsReaped k' process libs) ∧
    ∃ k process libs, Run Sound k ∧ k.ThreadRing process libs ∧ (∃ lib ∈ libs, k.isDead lib) ∧
      ∃ k', removeDeadThreads nullGarbage k process = .ok k' ∧ ¬ k.ThreadsReaped k' process libs := by
  constructor
  -- `init` after `main`
  · obtain ⟨k, hbooted⟩ := exists_booted
    obtain ⟨V, hr, hok, hboot⟩ := hbooted.rep
    obtain ⟨p, q, init, shell, htable, hcreated, -⟩ := hboot.table
    have hp : p ∈ V.table := by
      rw [htable]
      exact List.mem_cons_self
    have hrp := hr.processes p hp
    have hhead := hr.head_alive hok hp
    obtain ⟨t, hthreads, -⟩ := hcreated.threads
    have halive : ∀ lib ∈ p.threads.map ThreadView.lib, ¬ k.isDead lib := by
      intro lib hlib
      have hring := hrp.ring
      rw [hthreads, List.map_singleton] at hlib hring
      obtain ⟨ls, hls⟩ := hring.exists_cons
      rw [List.mem_singleton.mp hlib, (List.cons.inj hls).1, ← hrp.val]
      exact hhead
    obtain ⟨⟨k', hk', hiff⟩, -⟩ := dead_threads_reaped_iff hrp.threadRing hhead nullGarbage
    exact ⟨k, p.addr, _, .start hbooted, hrp.threadRing, halive, k', hk', hiff.mpr halive⟩
  -- the run in which a thread of process `2` was killed
  · obtain ⟨k, hrun, hdead⟩ := deadThread_reachable
    obtain ⟨V, hr, hok⟩ := hrun.rep
    obtain ⟨p, hp, t, ht, -, hstate⟩ := hok.threadState_some.mp ((hr.threadIs_iff hok).mp hdead)
    have hrp := hr.processes p hp
    have hlib : t.lib ∈ p.threads.map ThreadView.lib := List.mem_map_of_mem ht
    have hisDead : k.isDead t.lib := (hrp.isDead_iff ht).mpr hstate
    obtain ⟨⟨k', hk', hiff⟩, -⟩ := dead_threads_reaped_iff hrp.threadRing (hr.head_alive hok hp) nullGarbage
    exact ⟨k, p.addr, _, hrun, hrp.threadRing, ⟨t.lib, hlib, hisDead⟩, k', hk',
      fun hreaped => hiff.mp hreaped t.lib hlib hisDead⟩

end BasicKernel
