import BasicKernel.Pipes.EmptyRead
import BasicKernel.Screen.Focus
import BasicKernel.Screen.Typing

set_option autoImplicit false

/-! # Calls that name a process or a thread

Five system calls and the keyboard interrupt look up a process or a thread by its number. Where there
is none the search returns the null pointer, and only `tcreate` tests it. What the screens and the
keyboard hold does not matter.

`lookup_harmless_iff` says for all these calls, in every state that the kernel and its screens can
reach, when they do no harm. `pkill_nobody_faults` is one that reads through the null pointer.
-/

namespace BasicKernel

open Linked Keyed Fuel Transition

inductive LookupCall where
  | pkill (pid : Int)
  | tkill (pid pthread : Int)
  | tcreate (pid : Int) (exec entryPoint : Addr)
  | send (name buff : Addr)
  | receive (name buff : Addr)
  | keyboard (ready : Bool) (key : UInt8)

/-- A function of the kernel that does not touch the screens and the keyboard. -/
def Terminal.onKernel (t : Terminal) (f : Kernel → Except Stop Kernel) : Except Stop Terminal := do
  return { t with machine := { t.machine with kernel := ← f t.machine.kernel } }

/-- The character of a key. -/
def KeyBoard.character (b : KeyBoard) (key : UInt8) : UInt8 :=
  if (checkUppercase b key).uppercase = -1 then uKeyboard key else lKeyboard key

/-- The key switches screens. -/
def KeyBoard.Switches (b : KeyBoard) (key : UInt8) : Prop :=
  b.altKey ≠ 0 ∧ (key = L_ARROW_PRESSED ∨ key = R_ARROW_PRESSED)

namespace LookupCall

def run (fuel : Nat) (t : Terminal) : LookupCall → Except Stop Terminal
  | pkill pid => do return { t with machine := ← BasicKernel.pkill fuel t.machine pid }
  | tkill pid pthread => t.onKernel (removeThread fuel · pid pthread)
  | tcreate pid exec entryPoint =>
      t.onKernel fun k => do return (← addThreadToProcess fuel k pid exec entryPoint).2
  | send name buff => t.onKernel (writeToPipe fuel · name buff)
  | receive name buff => t.onKernel (readFromPipe fuel · name buff)
  | keyboard ready key => keyBoardHandler fuel t ready key

/-- The process or the thread that the call names does not exist. A message names its receiver, a
receive the thread of the receiver with the number of the caller, and a key the process on focus. -/
def Missing (t : Terminal) : LookupCall → Prop
  | pkill pid => ∀ s, ¬ t.machine.kernel.ProcessIs pid s
  | tkill pid pthread => ∀ s, ¬ t.machine.kernel.ThreadIs (pid, pthread) s
  | tcreate pid _ _ => ∀ s, ¬ t.machine.kernel.ProcessIs pid s
  | send name _ => ∃ pid, Returns (getReceiverPid · t.machine.kernel name) pid ∧
      ∀ s, ¬ t.machine.kernel.ProcessIs pid s
  | receive name _ => ∃ pid pthread, Returns (getReceiverPid · t.machine.kernel name) pid ∧
      getCurrentPthread t.machine.kernel = .ok pthread ∧ ∀ s, ¬ t.machine.kernel.ThreadIs (pid, pthread) s
  | keyboard _ key => ¬ t.keyboard.Switches key ∧
      ∀ s, ¬ t.machine.kernel.ProcessIs t.machine.onFocusPid s

/-- The call gets to the search. -/
def LooksUp (t : Terminal) : LookupCall → Prop
  | pkill _ => True
  | tkill pid pthread => ¬ (pid = 0 ∨ pid = 1) ∧ pthread ≠ 0
  | tcreate _ _ _ => True
  | send name buff => ∃ pipe c, Returns (getPipe · t.machine.kernel name) pipe ∧ pipe ≠ NULL ∧
      load t.machine.kernel.char buff = .ok c ∧ c ≠ 0 ∧
      load t.machine.kernel.char (t.machine.kernel.pipe pipe).writePointer = .ok 0
  | receive name buff => t.machine.kernel.EmptyPipe name ∧ buff ≠ NULL
  | keyboard ready key => ready ∧ key < 128 ∧ t.keyboard.character key ≠ 0 ∧
      t.keyboard.buffer t.keyboard.last = 0

/-- The call tests the pointer that the search returned. -/
def TestsPointer : LookupCall → Prop
  | tcreate _ _ _ => True
  | _ => False

end LookupCall

/-- The rings of processes and threads, the screens and the focus are the same. -/
structure Terminal.SameRings (t t' : Terminal) : Prop where
  machine : t'.machine = { t.machine with kernel := t'.machine.kernel }
  kernel : t'.machine.kernel = { t.machine.kernel with
    pipe := t'.machine.kernel.pipe, char := t'.machine.kernel.char }

/-- A search ends without a fault, and what the call changes is no ring and no screen. -/
structure LookupCall.Harmless (c : LookupCall) (t : Terminal) : Prop where
  noFault : c.LooksUp t → ¬ Fails .nullDereference (c.run · t)
  sameRings : ∀ fuel t', c.run fuel t = .ok t' → t.SameRings t'

/-- An event of the kernel, or a call that changes the screens. -/
inductive SharedStep : Machine → Machine → Prop
  | event {m m' : Machine} {kernel : Kernel} {op : KernelOp} {fuel : Nat} : Recycled m.kernel kernel →
      Sound kernel op → op.onMachine fuel { m with kernel } = .ok m' → SharedStep m m'
  | call {m m' : Machine} {op : MachineOp} {fuel : Nat} :
      op.Asked m → op.run fuel m = .ok m' → SharedStep m m'

variable {k k' : Kernel} {m m' : Machine} {t t' : Terminal} {c : LookupCall} {V : View} {p : ProcessView}
  {xs : List Addr} {rest : List (Addr × Nat)} {pid pthread : Int} {name buff : Addr} {fuel : Nat}

/-! ## Every state has a view

The runs mix events of the kernel and of the screens, and each state has both representations. -/

theorem Machine.Kept.shared {P : Int → Prop} (h : m.Kept P V xs rest) (hstep : SharedStep m m') :
    ∃ (V' : View) (xs' : List Addr) (rest' : List (Addr × Nat)),
      m'.Kept (fun _ => True) V' xs' rest' := by
  cases hstep with
  | event hrec hs hrun =>
      replace h := h.recycled hrec
      obtain ⟨k', hevent, hrun⟩ := bind_eq_ok.mp hrun
      obtain rfl := Except.ok.inj hrun
      obtain ⟨V', heffect, hr', hok'⟩ := h.rep.run_inv h.ok hs hevent
      obtain ⟨extra, hothers⟩ := heffect.others
      exact ⟨V', xs, _, h.of_kernel extra hr' hok' hothers fun _ _ => trivial⟩
  | call hop hrun =>
      obtain ⟨hkernel, xs', lost, hrep⟩ := h.screens.drawn_run hop hrun
      have hperm : (m'.screenBlocks xs' ++ (lost ++ (V.base ++ rest))).Perm
          (m'.screenBlocks xs' ++ (V.base ++ (lost ++ rest))) :=
        (List.perm_append_comm_assoc ..).append_left _
      have hrep' : RepScreens m' xs' (V.base ++ (lost ++ rest)) :=
        { hrep with owns := hrep.owns.perm hperm }
      exact ⟨_, xs', _, h.of_screens hkernel hrep' fun _ _ => trivial⟩

theorem Machine.kept_of_shared (h : Reachable SystemStart SharedStep m) :
    ∃ (V : View) (xs : List Addr) (rest : List (Addr × Nat)), m.Kept (fun _ => True) V xs rest := by
  induction h with
  | start hs =>
      obtain ⟨V, xs, rest, hkept⟩ := hs.kept
      exact ⟨V, xs, rest, hkept.mono fun _ _ => trivial⟩
  | next _ hstep ih =>
      obtain ⟨V, xs, rest, hkept⟩ := ih
      exact hkept.shared hstep

/-! ## Nothing is found

A search around the ring compares every number, so it ends, with the null pointer. -/

namespace Rep

theorem pid_ne_of_missing (hr : Rep k V) (hok : V.Ok) (h : ∀ s, ¬ k.ProcessIs pid s) :
    ∀ p ∈ V.table, p.val.pid ≠ pid := by
  rintro p hp rfl
  exact h _ ((hr.processIs_iff hok).mpr (hok.processState_eq hp))

theorem getProcessWithPid_missing (hr : Rep k V) (hok : V.Ok) (h : ∀ s, ¬ k.ProcessIs pid s) :
    Returns (BasicKernel.getProcessWithPid · k pid) NULL :=
  hr.getProcessWithPid_absent (hr.pid_ne_of_missing hok h)

/-- There is no process with the number, or it has no thread with the number. -/
theorem thread_missing (hr : Rep k V) (hok : V.Ok) (h : ∀ s, ¬ k.ThreadIs (pid, pthread) s) :
    (∀ p ∈ V.table, p.val.pid ≠ pid) ∨
      ∃ p ∈ V.table, p.val.pid = pid ∧ ∀ t ∈ p.threads, t.val.pthread ≠ pthread := by
  rcases Classical.em (∃ p ∈ V.table, p.val.pid = pid) with ⟨p, hp, hpid⟩ | hno
  · refine .inr ⟨p, hp, hpid, fun t ht hpthread => h t.val.state ?_⟩
    rw [hr.threadIs_iff hok, ← hpid, ← hpthread]
    exact hok.threadState_eq hp ht
  · exact .inl fun p hp hpid => hno ⟨p, hp, hpid⟩

end Rep

/-! ## What follows the null pointer

A field is read or stored through the pointer, and in the model this is an error. -/

theorem getThreadWithPthread_null (k : Kernel) (pthread : Int) :
    Fails .nullDereference (getThreadWithPthread · k pthread NULL) := by
  simp only [getThreadWithPthread, load_null, error_bind]
  exact .const _

namespace Rep

theorem getParentPid_fails (hr : Rep k V) (hok : V.Ok) (h : ∀ s, ¬ k.ProcessIs pid s) :
    Fails .nullDereference (BasicKernel.getParentPid · k pid) := by
  unfold BasicKernel.getParentPid
  refine (hr.getProcessWithPid_missing hok h).bind_fails ?_
  simp only [load_null, error_bind]
  exact .const _

theorem unblockAllThreads_fails (hr : Rep k V) (hok : V.Ok) (h : ∀ s, ¬ k.ProcessIs pid s)
    (ty : ThreadState) : Fails .nullDereference (BasicKernel.unblockAllThreads · k pid ty) := by
  unfold BasicKernel.unblockAllThreads
  refine (hr.getProcessWithPid_missing hok h).bind_fails ?_
  simp only [load_null, error_bind]
  exact .const _

/-- A search for a thread of `p`, and a store through what it returns. -/
theorem modifyThread_fails {q : ProcessView} {α : Type} (hq : RepProcess k q) (haddr : q.addr = p.addr)
    (hno : ∀ t ∈ q.threads, t.val.pthread ≠ pthread) (f : ThreadNode → ThreadNode)
    (g : Nat → Addr → Kernel → Except Stop α) : Fails .nullDereference (fun fuel => do
      let thread ← BasicKernel.getThreadWithPthread fuel k pthread p.addr
      let k ← k.modifyThread thread f
      g fuel thread k) := by
  rcases hq.getThreadWithPthread pthread with ⟨t, ht, hpthread, -⟩ | ⟨-, hnull⟩
  · exact absurd hpthread (hno t ht)
  · rw [haddr] at hnull
    refine hnull.bind_fails ?_
    simp only [Kernel.modifyThread, modify_null, error_bind]
    exact .const _

theorem blockThread_fails (hr : Rep k V) (hok : V.Ok) (h : ∀ s, ¬ k.ThreadIs (pid, pthread) s)
    (ty : ThreadState) : Fails .nullDereference (BasicKernel.blockThread · k pid pthread ty) := by
  unfold BasicKernel.blockThread
  rcases hr.thread_missing hok h with hno | ⟨p, hp, rfl, hno⟩
  · exact (hr.getProcessWithPid_absent hno).bind_fails (getThreadWithPthread_null k pthread).bind
  · exact (hr.getProcessWithPid_of_mem hok.pids hp).bind_fails
      (modifyThread_fails (hr.processes p hp) rfl hno _ _)

theorem removeThread_fails (hr : Rep k V) (hok : V.Ok) (h : ∀ s, ¬ k.ThreadIs (pid, pthread) s)
    (hguard : ¬ (pid = 0 ∨ pid = 1)) (hmain : pthread ≠ 0) :
    Fails .nullDereference (BasicKernel.removeThread · k pid pthread) := by
  simp only [BasicKernel.removeThread, if_neg hguard, if_neg hmain]
  rcases hr.thread_missing hok h with hno | ⟨p, hp, rfl, hno⟩
  · refine (hr.getProcessWithPid_absent hno).bind_fails ?_
    simp only [load_null, error_bind]
    exact .const _
  · refine (hr.getProcessWithPid_of_mem hok.pids hp).bind_fails ?_
    simp only [(hr.processes p hp).load_process, ok_bind]
    by_cases hsize : p.val.threadSize = 1
    · -- the process is killed before its thread is looked up
      obtain ⟨k₁, hkill, hr₁⟩ := hr.removeProcess hok hp hguard
      have hmem : p.setState .DEAD ∈ (V.kill p).table := View.mem_set hp _
      simp only [if_pos hsize]
      exact hkill.bind_fails (modifyThread_fails (p := p) (hr₁.processes _ hmem) rfl hno _ _)
    · simp only [if_neg hsize, pure_eq_ok, ok_bind]
      exact modifyThread_fails (hr.processes p hp) rfl hno _ _

end Rep

/-- The screen is removed before the parent is looked up. -/
theorem Machine.Kept.pkill_fails {P : Int → Prop} (h : m.Kept P V xs rest)
    (hmissing : ∀ s, ¬ m.kernel.ProcessIs pid s) :
    Fails .nullDereference (BasicKernel.pkill · m pid) := by
  obtain ⟨m', hremove, memory, hkernel⟩ : ∃ m' : Machine,
      Returns (BasicKernel.removeScreen · m pid) m' ∧
        ∃ memory, m'.kernel = { m.kernel with memory } := by
    rcases h.screens.removeScreen pid with
      ⟨A, c, B, memory, -, -, -, hremove, -⟩ | ⟨-, hremove, -⟩
    · exact ⟨_, hremove, memory, rfl⟩
    · exact ⟨_, hremove, m.kernel.memory, rfl⟩
  have hparent : Fails .nullDereference (getParentPid · m'.kernel pid) := by
    rw [hkernel]
    exact h.rep.getParentPid_fails h.ok hmissing
  exact hremove.bind_fails hparent.bind

/-! ## Pipes

The receiver of a pipe is looked up for each byte that is sent, and by a read when it blocks. -/

theorem equalName_ends {p q : Addr} {b : Bool} (h : equalName fuel k p q = .ok b) :
    Returns (equalName · k p q) b := by
  induction fuel generalizing p q with
  | zero => cases h
  | succ fuel ih =>
      obtain ⟨c, hc, h⟩ := bind_eq_ok.mp h
      obtain ⟨d, hd, h⟩ := bind_eq_ok.mp h
      by_cases hsame : c ≠ 0 ∧ c = d
      · rw [if_pos hsame] at h
        refine Returns.succ rfl (fun n => ?_) (ih h)
        simp only [equalName, hc, hd, ok_bind, if_pos hsame]
      · rw [if_neg hsame] at h
        obtain rfl := Except.ok.inj h
        refine Returns.succ rfl (fun n => ?_) (.const _ _)
        simp only [equalName, hc, hd, ok_bind, if_neg hsame]
        rfl

theorem getPipe_ends {pipe : Addr} (h : getPipe fuel k name = .ok pipe) :
    Returns (getPipe · k name) pipe := by
  refine walkWhile_fuelled (fun n current b hcond => ?_) h
  by_cases hcurrent : current = NULL
  · simp only [if_pos hcurrent] at hcond ⊢
    obtain rfl := Except.ok.inj hcond
    exact .const _ _
  · simp only [if_neg hcurrent] at hcond ⊢
    obtain ⟨c, hc, hcond⟩ := bind_eq_ok.mp hcond
    obtain rfl := Except.ok.inj hcond
    exact (equalName_ends hc).bind (.const _ _)

/-- The first character finds nobody to wake. -/
theorem Rep.writeToPipe_fails (hr : Rep k V) (hok : V.Ok) {pipe : Addr} {c : UInt8}
    (hget : Returns (getPipe · k name) pipe) (hpipe : pipe ≠ NULL) (hc : load k.char buff = .ok c)
    (hc0 : c ≠ 0) (hempty : load k.char (k.pipe pipe).writePointer = .ok 0)
    (hpid : Returns (getReceiverPid · k name) pid) (hmissing : ∀ s, ¬ k.ProcessIs pid s) :
    Fails .nullDereference (writeToPipe · k name buff) := by
  -- There is a character to send and a free cell, so the loop gets to the wake-up.
  obtain ⟨hbuff, -⟩ := load_eq_ok.mp hc
  obtain ⟨hcell, -⟩ := load_eq_ok.mp hempty
  unfold writeToPipe
  refine hget.bind_fails ?_
  simp only [if_neg (not_or.mpr ⟨hpipe, hbuff⟩)]
  refine hpid.bind_fails ?_
  -- The kernel after the store has the same processes.
  let k₁ : Kernel := { k with
    char := Function.update k.char (k.pipe pipe).writePointer c
    pipe := Function.update k.pipe pipe { k.pipe pipe with writePointer := (k.pipe pipe).writePointer + 1 } }
  have hr₁ : Rep k₁ V := hr.unseen rfl hr.owns
  have hmissing₁ : ∀ s, ¬ k₁.ProcessIs pid s := fun s hs =>
    hmissing s ((hr.processIs_iff hok).mpr ((hr₁.processIs_iff hok).mp hs))
  obtain ⟨n, hn⟩ := hr₁.unblockAllThreads_fails hok hmissing₁ .T_BLOCKED_PIPE
  refine ⟨n + 1, fun fuel hle => ?_⟩
  obtain ⟨fuel', rfl⟩ : ∃ fuel', fuel = fuel' + 1 := ⟨fuel - 1, by omega⟩
  have hcall : BasicKernel.unblockAllThreads (fuel' + 1) k₁ pid .T_BLOCKED_PIPE =
      .error .nullDereference := hn (fuel' + 1) (by omega)
  simp only [sendChars, hc, ok_bind, if_neg hc0, load_of_ne hpipe, hempty, ne_eq, not_true_eq_false,
    if_false, Kernel.setChar, Kernel.modifyPipe, modify_of_ne hcell, modify_of_ne hpipe, pure_eq_ok]
  change BasicKernel.unblockAllThreads (fuel' + 1) k₁ pid _ >>= _ = _
  rw [hcall]
  rfl

/-- A message of which no character gets to the search is not sent. -/
theorem writeToPipe_same (hnot : ¬ (LookupCall.send name buff).LooksUp t)
    (h : writeToPipe fuel t.machine.kernel name buff = .ok k') : k' = t.machine.kernel := by
  obtain ⟨pipe, hget, h⟩ := bind_eq_ok.mp h
  by_cases hnull : pipe = NULL ∨ buff = NULL
  · rw [if_pos hnull] at h
    exact (Except.ok.inj h).symm
  rw [if_neg hnull] at h
  obtain ⟨hpipe, -⟩ := not_or.mp hnull
  obtain ⟨pid, -, h⟩ := bind_eq_ok.mp h
  cases fuel with
  | zero => cases h
  | succ fuel =>
      obtain ⟨c, hc, h⟩ := bind_eq_ok.mp h
      by_cases hc0 : c = 0
      · rw [if_pos hc0] at h
        exact (Except.ok.inj h).symm
      rw [if_neg hc0, load_of_ne hpipe, ok_bind] at h
      obtain ⟨d, hd, h⟩ := bind_eq_ok.mp h
      by_cases hd0 : d ≠ 0
      · rw [if_pos hd0] at h
        exact (Except.ok.inj h).symm
      · rw [not_not.mp hd0] at hd
        exact absurd ⟨pipe, c, getPipe_ends hget, hpipe, hc, hc0, hd⟩ hnot

theorem Kernel.EmptyPipe.readFromPipe_fails (h : k.EmptyPipe name) (hbuff : buff ≠ NULL)
    (hpid : Returns (getReceiverPid · k name) pid) (hpthread : getCurrentPthread k = .ok pthread)
    (hblock : Fails .nullDereference (blockThread · k pid pthread .T_BLOCKED_PIPE)) :
    Fails .nullDereference (readFromPipe · k name buff) := by
  obtain ⟨pipe, hget, hpipe, hempty⟩ := h
  unfold readFromPipe
  apply Returns.bind_fails hget
  simp only [if_neg (not_or.mpr ⟨hpipe, hbuff⟩), load_of_ne hpipe, ok_bind, hempty, if_true]
  apply Returns.bind_fails hpid
  simp only [hpthread, ok_bind]
  exact hblock

theorem receiveChars_same {pipe : Addr} (n : Nat) : ∀ {k k' : Kernel} {buff : Addr},
    -- Every store of the loop is one to a pipe or to a byte.
    receiveChars pipe n k buff = .ok k' → k' = { k with pipe := k'.pipe, char := k'.char } := by
  have hchar : ∀ {k k' : Kernel} {a : Addr} {c : UInt8}, k.setChar a c = .ok k' →
      k' = { k with pipe := k'.pipe, char := k'.char } := by
    intro k k' a c h
    obtain ⟨store, -, h⟩ := bind_eq_ok.mp h
    obtain rfl := Except.ok.inj h
    rfl
  have hmodify : ∀ {k k' : Kernel} {f : PipeNode → PipeNode}, k.modifyPipe pipe f = .ok k' →
      k' = { k with pipe := k'.pipe, char := k'.char } := by
    intro k k' f h
    obtain ⟨store, -, h⟩ := bind_eq_ok.mp h
    obtain rfl := Except.ok.inj h
    rfl
  -- By induction on the iterations, with or without another one behind.
  induction n with
  | zero => intro k k' buff h; cases h
  | succ n ih =>
      intro k k' buff h
      obtain ⟨p, -, h⟩ := bind_eq_ok.mp h
      obtain ⟨c, -, h⟩ := bind_eq_ok.mp h
      obtain ⟨k₁, h₁, h⟩ := bind_eq_ok.mp h
      obtain ⟨k₂, h₂, h⟩ := bind_eq_ok.mp h
      obtain ⟨k₃, h₃, h⟩ := bind_eq_ok.mp h
      obtain ⟨k₄, h₄, h⟩ := bind_eq_ok.mp h
      obtain ⟨q, -, h⟩ := bind_eq_ok.mp h
      have hlast : k' = { k₄ with pipe := k'.pipe, char := k'.char } := by
        split at h
        · exact ih h
        · exact hchar h
      rw [hlast, hmodify h₄, hmodify h₃, hchar h₂, hchar h₁]

/-- A read that does not get to the search takes characters. -/
theorem readFromPipe_same (hnot : ¬ (k.EmptyPipe name ∧ buff ≠ NULL))
    (h : readFromPipe fuel k name buff = .ok k') : k' = { k with pipe := k'.pipe, char := k'.char } := by
  obtain ⟨pipe, hget, h⟩ := bind_eq_ok.mp h
  by_cases hnull : pipe = NULL ∨ buff = NULL
  · rw [if_pos hnull] at h
    obtain rfl := Except.ok.inj h
    rfl
  rw [if_neg hnull] at h
  obtain ⟨hpipe, hbuff⟩ := not_or.mp hnull
  rw [load_of_ne hpipe, ok_bind] at h
  obtain ⟨c, hc, h⟩ := bind_eq_ok.mp h
  by_cases hc0 : c = 0
  · rw [hc0] at hc
    exact absurd ⟨⟨pipe, getPipe_ends hget, hpipe, hc⟩, hbuff⟩ hnot
  · rw [if_neg hc0] at h
    exact receiveChars_same fuel h

/-! ## The keyboard

A character that is stored wakes the process on focus, which is looked up as well. -/

theorem checkSwapScreen_still {b : KeyBoard} {key : UInt8} (h : ¬ b.Switches key) :
    checkSwapScreen fuel ⟨m, b⟩ key = .ok ⟨m, b.setAlt key⟩ := by
  have halt : ∀ arrow, (arrow = L_ARROW_PRESSED ∨ arrow = R_ARROW_PRESSED) →
      ¬ ((b.setAlt key).altKey ≠ 0 ∧ key = arrow) := by
    rintro arrow harrow ⟨halt, rfl⟩
    refine h ⟨?_, harrow⟩
    rcases harrow with rfl | rfl <;> exact halt
  rw [checkSwapScreen_eq, if_neg (halt _ (.inl rfl)), ok_bind, if_neg (halt _ (.inr rfl)), ok_bind]

variable {ready : Bool} {key : UInt8}

theorem KeyBoard.not_switches_checkUppercase {b : KeyBoard} (h : ¬ b.Switches key) :
    ¬ (checkUppercase b key).Switches key := by
  have halt : (checkUppercase b key).altKey = b.altKey := by
    unfold checkUppercase
    split
    · rfl
    split
    · rfl
    split
    · rfl
    · rfl
  unfold Switches
  rwa [halt]

/-- The keyboard when the character is stored. -/
theorem KeyBoard.before_store (b : KeyBoard) (key : UInt8) :
    let b' := (checkUppercase b key).setAlt key
    b.SameRing b' ∧ b.character key = if b'.uppercase = -1 then uKeyboard key else lKeyboard key := by
  obtain ⟨hring, hcase⟩ := (checkUppercase b key).setAlt_same key
  have hring₀ := b.sameRing_checkUppercase key
  refine ⟨⟨hring.buffer.trans hring₀.buffer, hring.current.trans hring₀.current,
    hring.last.trans hring₀.last⟩, ?_⟩
  rw [hcase]
  rfl

theorem Rep.keyBoardHandler_fails (hr : Rep t.machine.kernel V) (hok : V.Ok)
    (hmissing : (LookupCall.keyboard ready key).Missing t)
    (hlooks : (LookupCall.keyboard ready key).LooksUp t) :
    Fails .nullDereference (keyBoardHandler · t ready key) := by
  obtain ⟨hstill, hmissing⟩ := hmissing
  obtain ⟨hready, hkey, hcharacter, hfree⟩ := hlooks
  obtain ⟨hring, hstored⟩ := t.keyboard.before_store key
  have hstore : ((checkUppercase t.keyboard key).setAlt key).buffer
      ((checkUppercase t.keyboard key).setAlt key).last = 0 ∧
      (if ((checkUppercase t.keyboard key).setAlt key).uppercase = -1 then uKeyboard key
        else lKeyboard key) ≠ 0 := by
    rw [hring.buffer, hring.last, ← hstored]
    exact ⟨hfree, hcharacter⟩
  unfold keyBoardHandler
  simp only [hready, Bool.not_true, Bool.false_eq_true, if_false,
    checkSwapScreen_still (KeyBoard.not_switches_checkUppercase hstill), ok_bind,
    if_neg (UInt8.not_le.mpr hkey), if_pos hstore]
  exact (hr.unblockAllThreads_fails hok hmissing _).bind

theorem keyBoardHandler_same (hstill : ¬ t.keyboard.Switches key)
    (hnot : ¬ (LookupCall.keyboard ready key).LooksUp t)
    (h : keyBoardHandler fuel t ready key = .ok t') : t'.machine = t.machine := by
  unfold keyBoardHandler at h
  -- The handler gets to the search only to wake the process on focus, after it has stored a
  -- character.
  cases hready : ready with
  | false =>
      rw [hready] at h
      obtain rfl := Except.ok.inj h
      rfl
  | true =>
      subst hready
      obtain ⟨t₁, hswap, h⟩ := bind_eq_ok.mp h
      obtain rfl := Except.ok.inj
        ((checkSwapScreen_still (KeyBoard.not_switches_checkUppercase hstill)).symm.trans hswap)
      by_cases hkey : key ≥ 128
      · obtain rfl := Except.ok.inj ((if_pos hkey).symm.trans h)
        rfl
      replace h := (if_neg hkey).symm.trans h
      -- It stores none here, as the place is taken or the key has none.
      obtain ⟨hring, hstored⟩ := t.keyboard.before_store key
      have hstore : ¬ (((checkUppercase t.keyboard key).setAlt key).buffer
          ((checkUppercase t.keyboard key).setAlt key).last = 0 ∧
          (if ((checkUppercase t.keyboard key).setAlt key).uppercase = -1 then uKeyboard key
            else lKeyboard key) ≠ 0) := by
        rw [hring.buffer, hring.last, ← hstored]
        rintro ⟨hfree, hcharacter⟩
        exact hnot ⟨rfl, UInt8.not_le.mp hkey, hcharacter, hfree⟩
      obtain rfl := Except.ok.inj ((if_neg hstore).symm.trans h)
      rfl

/-! ## All the calls -/

namespace LookupCall

/-- A search that is reached ends in a fault, unless the call tests what it returns. -/
theorem fails {P : Int → Prop} (h : t.machine.Kept P V xs rest) (hmissing : c.Missing t)
    (hlooks : c.LooksUp t) (htests : ¬ c.TestsPointer) : Fails .nullDereference (c.run · t) := by
  cases c with
  | pkill pid => exact (h.pkill_fails hmissing).bind
  | tkill pid pthread => exact (h.rep.removeThread_fails h.ok hmissing hlooks.1 hlooks.2).bind
  | tcreate pid exec entryPoint => exact absurd trivial htests
  | send name buff =>
      obtain ⟨pipe, c, hget, hpipe, hc, hc0, hempty⟩ := hlooks
      obtain ⟨pid, hpid, hmissing⟩ := hmissing
      exact (h.rep.writeToPipe_fails h.ok hget hpipe hc hc0 hempty hpid hmissing).bind
  | receive name buff =>
      obtain ⟨hempty, hbuff⟩ := hlooks
      obtain ⟨pid, pthread, hpid, hpthread, hmissing⟩ := hmissing
      exact (hempty.readFromPipe_fails hbuff hpid hpthread
        (h.rep.blockThread_fails h.ok hmissing _)).bind
  | keyboard ready key => exact h.rep.keyBoardHandler_fails h.ok hmissing hlooks

theorem tcreate_returns (hr : Rep t.machine.kernel V) (hok : V.Ok) {exec entryPoint : Addr}
    (hmissing : (tcreate pid exec entryPoint).Missing t) :
    Returns ((tcreate pid exec entryPoint).run · t) t := by
  have hcall : Returns (addThreadToProcess · t.machine.kernel pid exec entryPoint)
      (-1, t.machine.kernel) := by
    refine (hr.getProcessWithPid_missing hok hmissing).bind ?_
    simp only [if_true]
    exact .const _ _
  have hkernel := hcall.bind (g := fun _ r => (.ok r.2 : Except Stop Kernel)) (.const _ _)
  exact hkernel.bind (.const _ _)

/-- A call that does not get to its search changes no ring and no screen. -/
theorem same (hmissing : c.Missing t) (hnot : ¬ c.LooksUp t) (hrun : c.run fuel t = .ok t') :
    t.SameRings t' := by
  -- One case for each call: either it always searches, or its guard has let it return.
  cases c with
  | pkill pid => exact absurd trivial hnot
  | tkill pid pthread =>
      obtain ⟨k', hkill, hrun⟩ := bind_eq_ok.mp hrun
      obtain rfl := Except.ok.inj hrun
      replace hkill : removeThread fuel t.machine.kernel pid pthread = .ok k' := hkill
      have hsame : k' = t.machine.kernel := by
        unfold removeThread at hkill
        -- The guards are the first two processes and the first thread.
        by_cases hguard : pid = 0 ∨ pid = 1
        · rw [if_pos hguard] at hkill
          exact (Except.ok.inj hkill).symm
        · have hmain : pthread = 0 := not_not.mp fun hne => hnot ⟨hguard, hne⟩
          rw [if_neg hguard, if_pos hmain] at hkill
          exact (Except.ok.inj hkill).symm
      exact ⟨rfl, by rw [hsame]⟩
  | tcreate pid exec entryPoint => exact absurd trivial hnot
  | send name buff =>
      obtain ⟨k', hsend, hrun⟩ := bind_eq_ok.mp hrun
      obtain rfl := Except.ok.inj hrun
      exact ⟨rfl, by rw [writeToPipe_same hnot hsend]⟩
  | receive name buff =>
      obtain ⟨k', hreceive, hrun⟩ := bind_eq_ok.mp hrun
      obtain rfl := Except.ok.inj hrun
      exact ⟨rfl, readFromPipe_same hnot hreceive⟩
  | keyboard ready key =>
      have hsame := keyBoardHandler_same hmissing.1 hnot hrun
      exact ⟨by rw [hsame], by rw [hsame]⟩

end LookupCall

/-- Where what is named does not exist, a call is harmless if and only if it does not get to the
search, or is `tcreate`, which tests the pointer. -/
theorem lookup_harmless_iff (h : Reachable SystemStart SharedStep t.machine) (hmissing : c.Missing t) :
    c.Harmless t ↔ c.TestsPointer ∨ ¬ c.LooksUp t := by
  obtain ⟨V, xs, rest, hkept⟩ := Machine.kept_of_shared h
  constructor
  -- A harmless call that searches does not fail, so it tests the pointer.
  · intro hharmless
    by_contra hfaults
    obtain ⟨htests, hlooks⟩ := not_or.mp hfaults
    have hlooks := not_not.mp hlooks
    exact hharmless.noFault hlooks (LookupCall.fails hkept hmissing hlooks htests)
  · rintro (htests | hnot)
    -- `tcreate` returns an error number without having changed anything.
    · cases c with
      | tcreate pid exec entryPoint =>
          have hreturns := LookupCall.tcreate_returns hkept.rep hkept.ok hmissing
          constructor
          case noFault =>
              rintro - ⟨n, hn⟩
              rcases hreturns.2 n with hret | hret
              · cases hret.symm.trans (hn n le_rfl)
              · cases hret.symm.trans (hn n le_rfl)
          case sameRings =>
              intro fuel t' hrun
              obtain rfl := hreturns.eq hrun
              exact ⟨rfl, rfl⟩
      | _ => exact absurd htests id
    · exact ⟨fun hlooks => absurd hlooks hnot, fun _ _ => LookupCall.same hmissing hnot⟩

/-! ### After boot -/

/-- The machine that `main` leaves has no process 7. -/
theorem missing_at_boot : ∃ m, SystemStart m ∧ ∀ s, ¬ m.kernel.ProcessIs 7 s := by
  have hchecks : (do
      let m ← bootMachine
      return decide (m.kernel.processState 40 7 = .ok none) : Except Stop Bool) = .ok true := by
    decide +kernel
  obtain ⟨m, hm, h⟩ := bind_eq_ok.mp hchecks
  exact ⟨m, systemStart_of_boot hm, Kernel.not_processIs_of (of_decide_eq_true (Except.ok.inj h))⟩

/-- Process 7 does not exist, and `pkill(7)` reads its parent. -/
theorem pkill_nobody_faults : ¬ ∀ (t : Terminal) (c : LookupCall),
    Reachable SystemStart SharedStep t.machine → c.Missing t → c.Harmless t := by
  intro hclaim
  obtain ⟨m, hstart, hmissing⟩ := missing_at_boot
  obtain ⟨V, xs, rest, hkept⟩ := Machine.kept_of_shared (.start hstart)
  have hharmless := hclaim ⟨m, .static⟩ (.pkill 7) (.start hstart) hmissing
  exact hharmless.noFault trivial (LookupCall.fails hkept hmissing trivial id)

theorem tcreate_nobody_harmless : ∃ m, SystemStart m ∧
    (LookupCall.tcreate 7 1 4).Harmless ⟨m, .static⟩ := by
  obtain ⟨m, hstart, hnobody⟩ := missing_at_boot
  have hmissing : (LookupCall.tcreate 7 1 4).Missing ⟨m, .static⟩ := hnobody
  exact ⟨m, hstart, (lookup_harmless_iff (.start hstart) hmissing).mpr (.inl trivial)⟩

end BasicKernel
