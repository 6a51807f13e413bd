import BasicKernel.Screen.Background
import BasicKernel.Screen.Typing
import BasicKernel.System.SystemCalls
import BasicKernel.View.Objects

set_option autoImplicit false

/-! # The kernel in the middle of everything

The programs make system calls with any numbers and any parameters, the timer ticks, keys are pressed
and frames arrive, in any order. As long as the programs store in their own pages only, also through
the buffers that they pass, the objects of the kernel and of the screens stay apart, and the running
thread and the screen on focus are found by their pointers.

`computer_intact` is the result, for every order of the events. It is stated by what the pointers
of the kernel and of the list of screens lead to, so that it can be read without the invariant
behind it.
-/

namespace BasicKernel

open Linked Keyed Fuel Transition

/-! ## Events

System calls with any numbers and parameters, interrupts, and what the programs store in
between. -/

inductive SystemEvent where
  | systemCall (g : Locals) (systemCallNumber param1 param2 param3 : Nat)
  | tick (garbage : Garbage) (rsp : Addr)
  | yield (garbage : Garbage) (rsp : Addr)
  | keyBoard (ready : Bool) (key : UInt8)
  | network (reBuffer : Bytes RE_BUFFER_SIZE) (mac : Bytes MAC_SIZE) (status : UInt16)

namespace SystemEvent

def run (fuel : Nat) (c : Computer) : SystemEvent → Except Stop Computer
  | systemCall g number param1 param2 param3 => do
      return (← c.systemCall fuel g number param1 param2 param3).2
  | tick garbage rsp => do
      return c.withMachine (← (KernelOp.tick garbage rsp).onMachine fuel c.machine)
  | yield garbage rsp => do
      return c.withMachine (← (KernelOp.yield garbage rsp).onMachine fuel c.machine)
  | keyBoard ready key => do return { c with terminal := ← keyBoardHandler fuel c.terminal ready key }
  | network reBuffer mac status =>
      .ok { c with card := (rtlHandler { c.card with reBuffer } mac status).2 }

end SystemEvent

/-- The parent of the process is a process. Only `init` has none. -/
def Kernel.HasParent (k : Kernel) (pid : Int) : Prop :=
  ∃ fuel parent, getParentPid fuel k pid = .ok parent ∧ 0 ≤ parent

/-- A call that reuses pages finds them clean, and `init` is not killed. -/
def SysCall.Sound (k : Kernel) (param1 : Nat) : SysCall → Prop
  | MEMORY_ASSIGN => BasicKernel.Sound k (.pmalloc (toInt32 param1))
  | CREATE_PROCESS => CleanProcess k
  | CREATE_PROCESS_BACKGROUND => CleanProcess k
  | END_PROCESS => k.HasParent (toInt32 param1)
  | CREATE_MUTEX => CleanLock k
  | CREATE_SEMAPHORE => CleanLock k
  | _ => True

def SystemEvent.Sound (k : Kernel) : SystemEvent → Prop
  | systemCall _ number param1 _ _ =>
      ∀ call, SysCall.ofNumber number = some call → call.Sound k param1
  | tick garbage rsp => BasicKernel.Sound k (.tick garbage rsp)
  | yield garbage rsp => BasicKernel.Sound k (.yield garbage rsp)
  | _ => True

namespace Computer

def AtStart (c : Computer) : Prop := SystemStart c.machine

/-- One event, and what may change in memory before it. -/
def Step (c c' : Computer) : Prop :=
  ∃ (kernel : Kernel) (event : SystemEvent) (fuel : Nat), Recycled c.kernel kernel ∧
    event.Sound kernel ∧ event.run fuel (c.withKernel kernel) = .ok c'

end Computer

/-! ## What every event keeps

The invariant is that of the kernel with its screens. The functions that call both sides are
followed through both. -/

/-- The kernel and the screens are in order, each with its own pages. -/
def Machine.InOrder (m : Machine) : Prop :=
  ∃ (V : View) (xs : List Addr) (rest : List (Addr × Nat)), m.Kept (fun _ => True) V xs rest

variable {m m' : Machine} {k : Kernel} {c c' : Computer} {V : View} {xs : List Addr}
  {rest : List (Addr × Nat)} {fuel : Nat} {pid : Int}

theorem Kernel.recycled_char (k : Kernel) (char : Addr → UInt8) : Recycled k { k with char } :=
  ⟨fun _ _ => rfl, fun _ _ => rfl, fun _ _ => rfl, fun _ _ => rfl, fun _ _ => rfl, fun _ _ => rfl,
    fun _ _ => rfl, fun _ _ => rfl, rfl⟩

/-- A call that draws. It may make a screen for the process. -/
theorem Machine.Kept.drawn (h : m.Kept (fun _ => True) V xs rest)
    (hdrawn : m.Drawn (V.base ++ rest) m') : m'.InOrder := by
  obtain ⟨hkernel, xs', lost, hrep⟩ := hdrawn
  have hrep' : RepScreens m' xs' (V.base ++ (lost ++ rest)) := by
    refine hrep.congr rfl (fun _ _ => ⟨rfl, rfl⟩) (fun _ _ => rfl) (fun _ _ => rfl) hrep.focus ?_
    exact hrep.owns.perm (List.Perm.append_left _ (List.perm_append_comm_assoc ..))
  exact ⟨_, xs', _, h.of_screens hkernel hrep' fun _ _ => trivial⟩

/-- A call that shows another screen of the list. -/
theorem Machine.Kept.follow {f : Nat → Except Stop Machine} (h : m.Kept (fun _ => True) V xs rest)
    (hcall : ∃ m₁, Returns f m₁ ∧ m.Switched xs m₁ ∧ RepScreens m₁ xs (V.base ++ rest))
    (hrun : f fuel = .ok m') : m'.InOrder := by
  obtain ⟨m₁, hreturns, hswitched, hrep⟩ := hcall
  obtain rfl := hreturns.eq hrun
  obtain ⟨V', h', -⟩ := h.switched hswitched hrep
  exact ⟨V', xs, rest, h'⟩

namespace Machine.InOrder

theorem onMachine (h : m.InOrder) (op : KernelOp) (hs : Sound m.kernel op)
    (hrun : op.run fuel m.kernel = .ok k) : Machine.InOrder { m with kernel := k } := by
  obtain ⟨V, xs, rest, h⟩ := h
  obtain ⟨V', heffect, hr', hok'⟩ := h.rep.run_inv h.ok hs hrun
  obtain ⟨extra, hothers⟩ := heffect.others
  exact ⟨V', xs, _, h.of_kernel extra hr' hok' hothers fun _ _ => trivial⟩

theorem recycled (h : m.InOrder) (hk : Recycled m.kernel k) :
    Machine.InOrder { m with kernel := k } := by
  obtain ⟨V, xs, rest, h⟩ := h
  exact ⟨V, xs, rest, h.recycled hk⟩

theorem removeScreen (h : m.InOrder) (hrun : BasicKernel.removeScreen fuel m pid = .ok m') :
    m'.InOrder := by
  obtain ⟨V, xs, rest, h⟩ := h
  obtain ⟨V', xs', h', -⟩ := h.removeScreen hrun
  exact ⟨V', xs', rest, h'.mono fun _ _ => trivial⟩

theorem loadScreen (h : m.InOrder) (hpid : 0 ≤ pid) {r : Int}
    (hrun : BasicKernel.loadScreen fuel m pid = .ok (r, m')) : m'.InOrder := by
  obtain ⟨V, xs, rest, h⟩ := h
  obtain ⟨V', xs', h', -⟩ := h.loadScreen hpid trivial hrun
  exact ⟨V', xs', rest, h'⟩

theorem loadNextScreen (h : m.InOrder) (hrun : BasicKernel.loadNextScreen fuel m = .ok m') :
    m'.InOrder := by
  obtain ⟨V, xs, rest, h⟩ := h
  exact h.follow h.screens.loadNextScreen hrun

theorem loadPreviousScreen (h : m.InOrder)
    (hrun : BasicKernel.loadPreviousScreen fuel m = .ok m') : m'.InOrder := by
  obtain ⟨V, xs, rest, h⟩ := h
  exact h.follow h.screens.loadPreviousScreen hrun

/-! ### The functions behind the system calls

Each of them is a sequence of calls that keep the invariant, and of stores to characters, which it
does not mention. -/

theorem withVideo (h : m.InOrder) (video : Video) : Machine.InOrder { m with video } := by
  obtain ⟨V, xs, rest, h⟩ := h
  exact ⟨_, xs, rest, h.of_screens ⟨rfl, rfl⟩ (h.screens.withVideo video) fun _ _ => trivial⟩

theorem write (h : m.InOrder) {buf : List UInt8} {i : Nat}
    (hrun : BasicKernel.write fuel m buf = .ok (i, m')) : m'.InOrder := by
  obtain ⟨V, xs, rest, h⟩ := h
  -- the running process is in the ring, so a screen that is made for it has a number
  obtain ⟨p, hp, hcur⟩ := h.ok.current
  exact h.drawn (h.screens.drawn_write (h.rep.getCurrentPid hp hcur) (h.ok.pid_lt p hp).1 hrun)

theorem blockReader (h : m.InOrder) (hrun : BasicKernel.blockReader fuel m = .ok m') :
    m'.InOrder := by
  obtain ⟨pid, hpid, hrun⟩ := bind_eq_ok.mp hrun
  obtain ⟨pthread, hpthread, hrun⟩ := bind_eq_ok.mp hrun
  obtain ⟨k, hblock, hrun⟩ := bind_eq_ok.mp hrun
  obtain rfl := Except.ok.inj hrun
  exact h.onMachine (.blockThread pid pthread ThreadState.T_BLOCKED_IO) rfl hblock

theorem addProcess (h : m.InOrder) {exec entryPoint name : Addr} {r : Int}
    (hclean : CleanProcess m.kernel)
    (hrun : BasicKernel.addProcess fuel m.kernel exec entryPoint name = .ok (r, k)) :
    Machine.InOrder { m with kernel := k } ∧ 0 ≤ r := by
  have hop : KernelOp.run fuel m.kernel (.addProcess exec entryPoint name) = .ok k :=
    bind_eq_ok.mpr ⟨(r, k), hrun, rfl⟩
  refine ⟨h.onMachine (.addProcess exec entryPoint name) hclean hop, ?_⟩
  obtain ⟨V, xs, rest, h⟩ := h
  obtain ⟨a, chars, n, t, base, l, -, -, rfl, -⟩ := h.rep.addProcess_cases h.ok hrun
  exact h.ok.next_nonneg

theorem pcreate (h : m.InOrder) {exec entryPoint name : Addr} {r : Int}
    (hclean : CleanProcess m.kernel)
    (hrun : BasicKernel.pcreate fuel m exec entryPoint name = .ok (r, m')) : m'.InOrder := by
  obtain ⟨⟨r', k⟩, hadd, hrun⟩ := bind_eq_ok.mp hrun
  obtain ⟨⟨r'', m₁⟩, hload, hrun⟩ := bind_eq_ok.mp hrun
  obtain ⟨rfl, rfl⟩ := Prod.mk.inj (Except.ok.inj hrun)
  obtain ⟨h₁, hnonneg⟩ := h.addProcess hclean hadd
  exact h₁.loadScreen hnonneg hload

/-- The parent is asked for when the screen is gone, and is still the same. -/
theorem removeScreen_parent (h : m.InOrder) (hrun : BasicKernel.removeScreen fuel m pid = .ok m')
    (hparent : m.kernel.HasParent pid) {fuel' : Nat} {parent : Int}
    (hget : getParentPid fuel' m'.kernel pid = .ok parent) : 0 ≤ parent := by
  obtain ⟨V, xs, rest, h⟩ := h
  obtain ⟨fuel₀, parent₀, hget₀, hnonneg⟩ := hparent
  obtain ⟨V', xs', h', htable⟩ := h.removeScreen hrun
  obtain ⟨a, hsearch, hload⟩ := bind_eq_ok.mp hget
  rcases h'.rep.process_of_ok hsearch with ⟨p, hp, rfl, -⟩ | rfl
  · have heq := (h'.rep.getParentPid h'.ok hp).eq hget
    have heq₀ := (h.rep.getParentPid h.ok (htable ▸ hp)).eq hget₀
    rw [heq, ← heq₀]
    exact hnonneg
  · cases hload

theorem pkill (h : m.InOrder) (hparent : m.kernel.HasParent pid)
    (hrun : BasicKernel.pkill fuel m pid = .ok m') : m'.InOrder := by
  obtain ⟨m₁, hremove, hrun⟩ := bind_eq_ok.mp hrun
  obtain ⟨parent, hget, hrun⟩ := bind_eq_ok.mp hrun
  obtain ⟨⟨r, m₂⟩, hload, hrun⟩ := bind_eq_ok.mp hrun
  obtain ⟨k, hkill, hrun⟩ := bind_eq_ok.mp hrun
  obtain rfl := Except.ok.inj hrun
  -- a screen for a negative number would be taken for no focus at all
  have hnonneg := h.removeScreen_parent hremove hparent hget
  exact ((h.removeScreen hremove).loadScreen hnonneg hload).onMachine (.removeProcess pid)
    trivial hkill

/-- Characters are no part of the invariant. -/
theorem setChar (h : m.InOrder) {p : Addr} {x : UInt8} (hset : m.kernel.setChar p x = .ok k) :
    Machine.InOrder { m with kernel := k } := by
  obtain ⟨char, rfl⟩ := Kernel.setChar_inv hset
  exact h.recycled (m.kernel.recycled_char char)

theorem readKeys {buf : Addr} {n r : Nat} : ∀ {t t' : Terminal} {i : Nat}, t.machine.InOrder →
    BasicKernel.readKeys buf n t i = .ok (r, t') → t'.machine.InOrder := by
  -- the terminal changes with every character
  induction n with
  | zero =>
      intro t t' i h hrun
      obtain ⟨-, rfl⟩ := Prod.mk.inj (Except.ok.inj hrun)
      exact h
  | succ n ih =>
      intro t t' i h hrun
      unfold BasicKernel.readKeys at hrun
      generalize getKey t.keyboard = key at hrun
      obtain ⟨character, keyboard⟩ := key
      obtain ⟨kernel, hset, hrun⟩ := bind_eq_ok.mp hrun
      dsimp only at hrun
      split at hrun
      · obtain ⟨-, rfl⟩ := Prod.mk.inj (Except.ok.inj hrun)
        exact h.setChar hset
      · exact ih (t := ⟨{ t.machine with kernel }, keyboard⟩) (h.setChar hset) hrun

theorem read {t t' : Terminal} {buf : Addr} {n r : Nat} (h : t.machine.InOrder)
    (hrun : BasicKernel.read fuel t buf n = .ok (r, t')) : t'.machine.InOrder := by
  obtain ⟨⟨blocked, machine⟩, hblock, hrun⟩ := bind_eq_ok.mp hrun
  obtain ⟨focus, -, hblock⟩ := bind_eq_ok.mp hblock
  cases focus with
  | false =>
      -- off focus the thread is blocked and nothing is read
      obtain ⟨m₁, hreader, hblock⟩ := bind_eq_ok.mp hblock
      obtain ⟨rfl, rfl⟩ := Prod.mk.inj (Except.ok.inj hblock)
      obtain ⟨-, rfl⟩ := Prod.mk.inj (Except.ok.inj hrun)
      exact h.blockReader hreader
  | true =>
      obtain ⟨rfl, rfl⟩ := Prod.mk.inj (Except.ok.inj hblock)
      obtain ⟨⟨readBytes, t₁⟩, hkeys, hrun⟩ := bind_eq_ok.mp hrun
      have h₁ := h.readKeys hkeys
      dsimp only at hrun
      split at hrun
      · obtain ⟨m₁, hreader, hrun⟩ := bind_eq_ok.mp hrun
        obtain ⟨-, rfl⟩ := Prod.mk.inj (Except.ok.inj hrun)
        exact h₁.blockReader hreader
      · obtain ⟨-, rfl⟩ := Prod.mk.inj (Except.ok.inj hrun)
        exact h₁

/-! ### The keyboard

An arrow key shows another screen, and a typed key wakes the process on focus. -/

theorem checkSwapScreen {t t' : Terminal} {key : UInt8} (h : t.machine.InOrder)
    (hrun : BasicKernel.checkSwapScreen fuel t key = .ok t') : t'.machine.InOrder := by
  rw [checkSwapScreen_eq] at hrun
  obtain ⟨m₁, hprevious, hrun⟩ := bind_eq_ok.mp hrun
  obtain ⟨m₂, hnext, hrun⟩ := bind_eq_ok.mp hrun
  obtain rfl := Except.ok.inj hrun
  have h₁ : m₁.InOrder := by
    split at hprevious
    · exact h.loadPreviousScreen hprevious
    · exact Except.ok.inj hprevious ▸ h
  show m₂.InOrder
  split at hnext
  · exact h₁.loadNextScreen hnext
  · exact Except.ok.inj hnext ▸ h₁

theorem keyBoardHandler {t t' : Terminal} {ready : Bool} {key : UInt8} (h : t.machine.InOrder)
    (hrun : BasicKernel.keyBoardHandler fuel t ready key = .ok t') : t'.machine.InOrder := by
  unfold BasicKernel.keyBoardHandler at hrun
  split at hrun
  · exact Except.ok.inj hrun ▸ h
  obtain ⟨t₁, hswap, hrun⟩ := bind_eq_ok.mp hrun
  -- the screens are switched before the key is put into the buffer
  have h₁ : t₁.machine.InOrder :=
    checkSwapScreen (t := ⟨t.machine, checkUppercase t.keyboard key⟩) h hswap
  split at hrun
  · exact Except.ok.inj hrun ▸ h₁
  dsimp only at hrun
  generalize (if t₁.keyboard.uppercase = -1 then uKeyboard key else lKeyboard key) = x at hrun
  split at hrun
  · obtain ⟨kernel, hwake, hrun⟩ := bind_eq_ok.mp hrun
    obtain rfl := Except.ok.inj hrun
    exact h₁.onMachine (.unblockAllThreads t₁.machine.onFocusPid ThreadState.T_BLOCKED_IO) trivial
      hwake
  · exact Except.ok.inj hrun ▸ h₁

end Machine.InOrder

/-! ## The system calls -/

namespace Computer

theorem read_inOrder {fileDescriptor nBytes n : Nat} {buf : Addr} (h : c.machine.InOrder)
    (hrun : c.read fuel fileDescriptor buf nBytes = .ok (n, c')) : c'.machine.InOrder := by
  unfold Computer.read at hrun
  split at hrun
  · obtain ⟨⟨readBytes, terminal⟩, hread, hrun⟩ := bind_eq_ok.mp hrun
    obtain ⟨-, rfl⟩ := Prod.mk.inj (Except.ok.inj hrun)
    exact h.read hread
  dsimp only [pure_bind] at hrun
  split at hrun
  · obtain ⟨⟨n', msg, card⟩, -, hrun⟩ := bind_eq_ok.mp hrun
    dsimp only at hrun
    split at hrun
    · obtain ⟨-, rfl⟩ := Prod.mk.inj (Except.ok.inj hrun)
      exact h
    split at hrun
    · cases hrun
    -- of the kernel only the bytes of the message change
    obtain ⟨-, rfl⟩ := Prod.mk.inj (Except.ok.inj hrun)
    exact h.recycled (c.kernel.recycled_char _)
  · obtain ⟨-, rfl⟩ := Prod.mk.inj (Except.ok.inj hrun)
    exact h

theorem write_inOrder {g : Locals} {fileDescriptor nBytes n : Nat} {buf : Addr}
    (h : c.machine.InOrder) (hrun : c.write fuel g fileDescriptor buf nBytes = .ok (n, c')) :
    c'.machine.InOrder := by
  unfold Computer.write at hrun
  split at hrun
  · split at hrun
    · cases hrun
    obtain ⟨⟨i, machine⟩, hwrite, hrun⟩ := bind_eq_ok.mp hrun
    obtain ⟨-, rfl⟩ := Prod.mk.inj (Except.ok.inj hrun)
    exact h.write hwrite
  dsimp only [pure_bind] at hrun
  split at hrun
  · split at hrun
    · cases hrun
    obtain ⟨⟨l, card⟩, -, hrun⟩ := bind_eq_ok.mp hrun
    obtain ⟨-, rfl⟩ := Prod.mk.inj (Except.ok.inj hrun)
    exact h
  · obtain ⟨-, rfl⟩ := Prod.mk.inj (Except.ok.inj hrun)
    exact h

/-- A call that is an event of the kernel. -/
theorem inOrder_of_op {α : Type} {x : Except Stop α} {f : α → Kernel} {v : α → Nat} {n : Nat}
    (op : KernelOp) (h : c.machine.InOrder) (hs : Sound c.kernel op)
    (hop : op.run fuel c.kernel = x >>= fun a => .ok (f a))
    (hrun : (x >>= fun a => .ok (v a, c.withKernel (f a))) = .ok (n, c')) : c'.machine.InOrder := by
  obtain ⟨a, hx, ha⟩ := bind_eq_ok.mp hrun
  obtain ⟨-, rfl⟩ := Prod.mk.inj (Except.ok.inj ha)
  exact h.onMachine op hs (hop.trans (bind_eq_ok.mpr ⟨a, hx, rfl⟩))

/-- One without a result. -/
theorem inOrder_of_step {x : Except Stop Kernel} {n : Nat} (op : KernelOp) (h : c.machine.InOrder)
    (hs : Sound c.kernel op) (hop : op.run fuel c.kernel = x)
    (hrun : (x >>= fun k => .ok (1, c.withKernel k)) = .ok (n, c')) : c'.machine.InOrder := by
  obtain ⟨k, hx, ha⟩ := bind_eq_ok.mp hrun
  obtain ⟨-, rfl⟩ := Prod.mk.inj (Except.ok.inj ha)
  exact h.onMachine op hs (hop.trans hx)

theorem systemCall_inOrder {g : Locals} {number param1 param2 param3 n : Nat} (h : c.machine.InOrder)
    (hs : ∀ call, SysCall.ofNumber number = some call → call.Sound c.kernel param1)
    (hrun : c.systemCall fuel g number param1 param2 param3 = .ok (n, c')) : c'.machine.InOrder := by
  unfold Computer.systemCall at hrun
  generalize SysCall.ofNumber number = called at hs hrun
  cases called with
  | none =>
      obtain ⟨-, rfl⟩ := Prod.mk.inj (Except.ok.inj hrun)
      exact h
  | some call =>
      -- one case for each number, those of one kernel event through `inOrder_of_op`
      have hs := hs call rfl
      cases call with
      | READ => exact read_inOrder h hrun
      | WRITE => exact write_inOrder h hrun
      | CLEAR_SCREEN =>
          obtain ⟨-, rfl⟩ := Prod.mk.inj (Except.ok.inj hrun)
          exact h.withVideo _
      | MEMORY_ASSIGN =>
          exact inOrder_of_op (f := Prod.snd) (v := Prod.fst) (.pmalloc (toInt32 param1)) h hs rfl hrun
      | MEMORY_FREE => exact inOrder_of_step (.pfree param1) h trivial rfl hrun
      | PS =>
          obtain ⟨m₁, hps, hrun⟩ := bind_eq_ok.mp hrun
          obtain ⟨-, rfl⟩ := Prod.mk.inj (Except.ok.inj hrun)
          obtain ⟨video, -, hps⟩ := bind_eq_ok.mp hps
          obtain rfl := Except.ok.inj hps
          exact h.withVideo video
      | CREATE_PROCESS =>
          obtain ⟨⟨pid, machine⟩, hcreate, hrun⟩ := bind_eq_ok.mp hrun
          obtain ⟨-, rfl⟩ := Prod.mk.inj (Except.ok.inj hrun)
          exact h.pcreate hs hcreate
      | END_PROCESS =>
          obtain ⟨machine, hkill, hrun⟩ := bind_eq_ok.mp hrun
          obtain ⟨-, rfl⟩ := Prod.mk.inj (Except.ok.inj hrun)
          exact h.pkill hs hkill
      | CREATE_THREAD =>
          exact inOrder_of_op (f := Prod.snd) (v := fun a => toUInt64 a.1)
            (.addThread (toInt32 param1) param2 param3) h trivial rfl hrun
      | END_THREAD =>
          exact inOrder_of_step (.removeThread (toInt32 param1) (toInt32 param2)) h trivial rfl hrun
      | CREATE_MUTEX =>
          exact inOrder_of_op (f := Prod.snd) (v := fun a => toUInt64 a.1) .createMutex h hs rfl hrun
      | END_MUTEX => exact inOrder_of_step (.mutexDestroy (toInt32 param1)) h trivial rfl hrun
      | UP_MUTEX => exact inOrder_of_step (.mutexUp (toInt32 param1)) h trivial rfl hrun
      | DOWN_MUTEX => exact inOrder_of_step (.mutexDown (toInt32 param1)) h trivial rfl hrun
      | CURRENT_PID =>
          obtain ⟨pid, -, hrun⟩ := bind_eq_ok.mp hrun
          obtain ⟨-, rfl⟩ := Prod.mk.inj (Except.ok.inj hrun)
          exact h
      | CREATE_PROCESS_BACKGROUND =>
          obtain ⟨⟨pid, machine⟩, hcreate, hrun⟩ := bind_eq_ok.mp hrun
          obtain ⟨-, rfl⟩ := Prod.mk.inj (Except.ok.inj hrun)
          obtain ⟨⟨r, k⟩, hadd, hcreate⟩ := bind_eq_ok.mp hcreate
          obtain ⟨-, rfl⟩ := Prod.mk.inj (Except.ok.inj hcreate)
          exact (h.addProcess hs hadd).1
      | CREATE_SEMAPHORE =>
          exact inOrder_of_op (f := Prod.snd) (v := fun a => toUInt64 a.1)
            (.createSemaphore (toInt32 param1)) h hs rfl hrun
      | END_SEMAPHORE => exact inOrder_of_step (.semaphoreDestroy (toInt32 param1)) h trivial rfl hrun
      | UP_SEMAPHORE => exact inOrder_of_step (.semaphoreUp (toInt32 param1)) h trivial rfl hrun
      | DOWN_SEMAPHORE => exact inOrder_of_step (.semaphoreDown (toInt32 param1)) h trivial rfl hrun
      | SEND => exact inOrder_of_step (.send param1 param2) h trivial rfl hrun
      | RECEIVE => exact inOrder_of_step (.receive param1 param2) h trivial rfl hrun
      | CREATE_PIPE =>
          exact inOrder_of_op (f := Prod.snd) (v := Prod.fst)
            (.createPipe (toInt32 param1) (toInt32 param2)) h trivial rfl hrun

/-! ## Runs -/

/-- The timer and `yield`. -/
theorem inOrder_of_onMachine (op : KernelOp) (h : c.machine.InOrder) (hs : Sound c.kernel op)
    (hrun : (op.onMachine fuel c.machine >>= fun m => .ok (c.withMachine m)) = .ok c') :
    c'.machine.InOrder := by
  obtain ⟨machine, hmachine, hrun⟩ := bind_eq_ok.mp hrun
  obtain rfl := Except.ok.inj hrun
  obtain ⟨k, hop, hmachine⟩ := bind_eq_ok.mp hmachine
  obtain rfl := Except.ok.inj hmachine
  exact h.onMachine op hs hop

/-- One event. The programs' system calls are one kind of them. -/
theorem event_inOrder {event : SystemEvent} (h : c.machine.InOrder) (hs : event.Sound c.kernel)
    (hrun : event.run fuel c = .ok c') : c'.machine.InOrder := by
  cases event with
  | systemCall g number param1 param2 param3 =>
      obtain ⟨⟨n, c₁⟩, hcall, hrun⟩ := bind_eq_ok.mp hrun
      obtain rfl := Except.ok.inj hrun
      exact systemCall_inOrder h hs hcall
  | tick garbage rsp => exact inOrder_of_onMachine (.tick garbage rsp) h hs hrun
  | yield garbage rsp => exact inOrder_of_onMachine (.yield garbage rsp) h hs hrun
  | keyBoard ready key =>
      obtain ⟨terminal, hkey, hrun⟩ := bind_eq_ok.mp hrun
      obtain rfl := Except.ok.inj hrun
      exact h.keyBoardHandler hkey
  | network reBuffer mac status =>
      -- the card has no part of the kernel
      obtain rfl := Except.ok.inj hrun
      exact h

theorem AtStart.inOrder (h : c.AtStart) : c.machine.InOrder := by
  obtain ⟨V, xs, rest, hkept⟩ := SystemStart.kept h
  exact ⟨V, xs, rest, hkept.mono fun _ _ => trivial⟩

theorem Step.inOrder (hstep : Step c c') (h : c.machine.InOrder) : c'.machine.InOrder := by
  obtain ⟨kernel, event, fuel, hrec, hs, hrun⟩ := hstep
  exact event_inOrder (c := c.withKernel kernel) (h.recycled hrec) hs hrun

theorem inOrder_of_reachable (h : Reachable AtStart Step c) : c.machine.InOrder :=
  h.invariant (I := fun c => c.machine.InOrder) (fun _ hc => hc.inOrder) fun _ _ _ hc hstep =>
    hstep.inOrder hc

end Computer

/-! ## What that means for the memory

The invariant is read as a statement on the memory: what the pointers lead to, and where its bytes
are. -/

/-- What lies at an address: an object of the kernel, a node of the list of screens, or a screen with the
node that leads to it. -/
inductive Place where
  | kernel (role : Role)
  | screenNode
  | screen (node : Addr)
  deriving DecidableEq

/-- The pages of an object, and what it is. -/
structure Placed where
  place : Place
  block : Addr × Nat

def Placed.bytes (x : Placed) : Set Nat := Set.Ico x.block.1 (x.block.1 + x.block.2)

def Object.placed (x : Object) : Placed := ⟨.kernel x.role, x.block⟩

/-- What the pointers of the kernel and of the list of screens lead to. -/
inductive Machine.Reaches (m : Machine) : Placed → Prop
  | kernel {x : Object} : m.kernel.HasObject x → Reaches m x.placed
  | screenNode {n : Addr} : m.IsScreen n → Reaches m ⟨.screenNode, n, SCREEN_NODE_SIZE⟩
  | screen {n : Addr} : m.IsScreen n →
      Reaches m ⟨.screen n, (m.screenNode n).screen, SCREEN_SIZE⟩

/-- What the invariant accounts for. -/
def Machine.placed (m : Machine) (V : View) (xs : List Addr) : List Placed :=
  (xs.flatMap fun n =>
    [⟨.screenNode, n, SCREEN_NODE_SIZE⟩, ⟨.screen n, (m.screenNode n).screen, SCREEN_SIZE⟩]) ++
    V.objects.map Object.placed

/-- The kernel with its screens, seen through its pointers. -/
structure Machine.Intact (m : Machine) : Prop where
  apart : ∀ x y a, m.Reaches x → m.Reaches y → a ∈ x.bytes →
    a ≠ NULL ∧ m.kernel.Reserved a ∧ (a ∈ y.bytes → x = y)
  pids : ∀ n n', m.kernel.HasNode n → m.kernel.HasNode n' →
    (m.kernel.process (m.kernel.schedulerNode n).process).pid =
      (m.kernel.process (m.kernel.schedulerNode n').process).pid → n = n'
  current : m.kernel.HasLibrary m.kernel.currentProcess
    (m.kernel.process (m.kernel.schedulerNode m.kernel.currentProcess).process).currentThread
  screens : ∀ n n', m.IsScreen n → m.IsScreen n' →
    (m.screenNode n).pid = (m.screenNode n').pid → n = n'
  focus : m.onFocusPid = NO_FOCUS ∨ ∃ n, m.IsScreen n ∧ (m.screenNode n).pid = m.onFocusPid

namespace Machine.Kept

variable {P : Int → Prop} {x y : Placed}

theorem mem_placed (h : m.Kept P V xs rest) (hx : m.Reaches x) : x ∈ m.placed V xs := by
  cases hx with
  | @kernel o ho => exact List.mem_append_right _ (List.mem_map_of_mem (h.rep.mem_objects ho))
  | @screenNode n hn =>
      exact List.mem_append_left _
        (List.mem_flatMap.mpr ⟨n, h.screens.isScreen_iff.mp hn, List.mem_cons_self⟩)
  | @screen n hn =>
      exact List.mem_append_left _ (List.mem_flatMap.mpr
        ⟨n, h.screens.isScreen_iff.mp hn, List.mem_cons_of_mem _ List.mem_cons_self⟩)

theorem map_block_placed (V : View) (xs : List Addr) :
    (m.placed V xs).map Placed.block = m.screenBlocks xs ++ V.base := by
  have hbase : V.objects.map Object.block = V.base := by
    have hblocks := V.blocks_eq_objects
    rw [View.blocks_base] at hblocks
    exact (List.append_cancel_right hblocks).symm
  unfold Machine.placed Machine.screenBlocks
  rw [List.map_append, List.map_flatMap, List.map_map, ← hbase]
  rfl

theorem owns_placed (h : m.Kept P V xs rest) :
    Owns m.kernel.memory ((m.placed V xs).map Placed.block) := by
  rw [map_block_placed]
  refine h.screens.owns.sublist ?_
  rw [← List.append_assoc]
  exact List.sublist_append_left _ _

theorem intact (h : m.Kept P V xs rest) : m.Intact := by
  refine ⟨fun x y a hx hy ha => ?_, fun n n' hn hn' hpid => ?_, ?_, fun n n' hn hn' hpid => ?_, ?_⟩
  · -- two places that share a byte are the same pages, and these are listed once
    have hx := h.mem_placed hx
    -- A place of the kernel or of the screens is listed among the owned ones.
    have hbyte := h.owns_placed.used_byte (List.mem_map_of_mem hx) ha.1 ha.2
    have hne : a ≠ 0 := Nat.ne_of_gt (Nat.lt_of_lt_of_le h.owns_placed.pos hbyte.1)
    refine ⟨hne, hbyte, fun ha' => ?_⟩
    have hy := h.mem_placed hy
    have hblock := h.owns_placed.eq_of_byte (List.mem_map_of_mem hx) (List.mem_map_of_mem hy) ha.1
      ha.2 ha'.1 ha'.2
    exact List.inj_on_of_nodup_map h.owns_placed.nodup hx hy hblock
  · -- no two processes of the ring have one number
    obtain ⟨p, hp, rfl⟩ := h.rep.process_of_node hn
    obtain ⟨q, hq, rfl⟩ := h.rep.process_of_node hn'
    rw [(h.rep.processes p hp).process, (h.rep.processes p hp).val,
      (h.rep.processes q hq).process, (h.rep.processes q hq).val] at hpid
    rw [List.inj_on_of_nodup_map h.ok.pids hp hq hpid]
  -- The current process is in the ring, and its current thread in the ring of its threads.
  · obtain ⟨p, hp, hcur⟩ := h.ok.current
    have hrp := h.rep.processes p hp
    rw [h.rep.current, ← hcur, Kernel.HasLibrary, hrp.process, hrp.val]
    exact ⟨h.rep.queue.reaches_iff.mpr (List.mem_map_of_mem hp), hrp.ring.reaches_iff.mpr hrp.current⟩
  · exact List.inj_on_of_nodup_map h.screens.pids (h.screens.isScreen_iff.mp hn)
      (h.screens.isScreen_iff.mp hn') hpid
  -- The process on focus has a screen, if there is one.
  · refine h.screens.focus.imp_right ?_
    rintro ⟨n, hn, hpid⟩
    exact ⟨n, h.screens.isScreen_iff.mpr hn, hpid⟩

end Machine.Kept

/-- Whatever the programs ask for, and whenever the timer, the keyboard or the card interrupts, nothing
that the kernel or the screens consist of shares a byte with anything else, all of it is in pages that are
in use, and the running thread and the screen on focus are where the pointers lead. -/
theorem computer_intact (h : Reachable Computer.AtStart Computer.Step c) : c.machine.Intact := by
  obtain ⟨V, xs, rest, hkept⟩ := Computer.inOrder_of_reachable h
  exact hkept.intact

/-! ## Runs given by a list of events -/

/-- A test for `Sound`. -/
def SysCall.sound? (k : Kernel) (param1 : Nat) : SysCall → Bool
  | MEMORY_ASSIGN => false
  | CREATE_PROCESS => k.cleanProcess?
  | CREATE_PROCESS_BACKGROUND => k.cleanProcess?
  | END_PROCESS => match getParentPid 40 k (toInt32 param1) with
    | .ok parent => decide (0 ≤ parent)
    | .error _ => false
  | CREATE_MUTEX => k.cleanLock?
  | CREATE_SEMAPHORE => k.cleanLock?
  | _ => true

def SystemEvent.sound? (k : Kernel) : SystemEvent → Bool
  | systemCall _ number param1 _ _ => match SysCall.ofNumber number with
    | some call => call.sound? k param1
    | none => true
  | tick garbage rsp => (KernelOp.tick garbage rsp).sound? k
  | yield garbage rsp => (KernelOp.yield garbage rsp).sound? k
  | _ => true

theorem SysCall.sound_of {call : SysCall} {param1 : Nat} (h : call.sound? k param1) :
    call.Sound k param1 := by
  cases call with
  | MEMORY_ASSIGN => cases h
  | CREATE_PROCESS => exact Kernel.cleanProcess_of h
  | CREATE_PROCESS_BACKGROUND => exact Kernel.cleanProcess_of h
  | END_PROCESS =>
      unfold SysCall.sound? at h
      dsimp only at h
      split at h
      · next parent hparent => exact ⟨40, parent, hparent, of_decide_eq_true h⟩
      · cases h
  | CREATE_MUTEX => exact Kernel.cleanLock_of h
  | CREATE_SEMAPHORE => exact Kernel.cleanLock_of h
  | _ => trivial

theorem SystemEvent.sound_of {event : SystemEvent} (h : event.sound? k) : event.Sound k := by
  cases event with
  | systemCall g number param1 param2 param3 =>
      intro call hcall
      unfold SystemEvent.sound? at h
      dsimp only at h
      rw [hcall] at h
      exact SysCall.sound_of h
  | tick garbage rsp => exact @KernelOp.sound_of k (.tick garbage rsp) h
  | yield garbage rsp => exact @KernelOp.sound_of k (.yield garbage rsp) h
  | _ => trivial

/-- Events one after the other, as long as they pass the test. -/
def Computer.runAll (fuel : Nat) : List SystemEvent → Computer → Except Stop Computer
  | [], c => .ok c
  | event :: events, c => do
      if !event.sound? c.kernel then
        throw .outOfFuel
      runAll fuel events (← event.run fuel c)

theorem Computer.reachable_runAll {events : List SystemEvent} (h : Reachable AtStart Step c)
    (hrun : runAll fuel events c = .ok c') : Reachable AtStart Step c' := by
  induction events generalizing c with
  | nil =>
      obtain rfl := Except.ok.inj hrun
      exact h
  | cons event events ih =>
      unfold runAll at hrun
      by_cases hevent : event.sound? c.kernel = true
      · simp only [hevent, Bool.not_true, Bool.false_eq_true, if_false] at hrun
        obtain ⟨c₁, hcall, hrun⟩ := bind_eq_ok.mp hrun
        exact ih (h.next ⟨c.kernel, event, fuel, .refl _, SystemEvent.sound_of hevent, hcall⟩) hrun
      · simp [hevent] at hrun

/-- `init` makes a process with a screen and a mutex, a key is pressed, the timer ticks, and `init` kills
the process. -/
def firstEvents : List SystemEvent :=
  [.systemCall firstLocals 7 1 4 0x100, .systemCall firstLocals 11 0 0 0, .keyBoard true 0x1E,
    .tick nullGarbage 0x5000, .systemCall firstLocals 8 2 0 0]

theorem computer_intact_after_events : ∃ c : Computer, Reachable Computer.AtStart Computer.Step c ∧
    c.kernel.mutexList ≠ NULL ∧ c.machine.onFocusPid = 0 ∧ c.kernel.ProcessIs 2 .DEAD ∧
    c.terminal.keyboard.buffer 0 = 97 ∧ c.machine.Intact := by
  have hrun : (do
      let m ← bootMachine
      let c ← Computer.runAll 40 firstEvents ⟨⟨m, .static⟩, .static⟩
      return decide (c.kernel.mutexList ≠ NULL ∧ c.machine.onFocusPid = 0 ∧
        c.kernel.processState 40 2 = .ok (some .DEAD) ∧ c.terminal.keyboard.buffer 0 = 97) :
          Except Stop Bool) = .ok true := by
    decide +kernel
  obtain ⟨m, hm, hrun⟩ := bind_eq_ok.mp hrun
  obtain ⟨c, hc, hrun⟩ := bind_eq_ok.mp hrun
  obtain ⟨hmutex, hfocus, hdead, hkey⟩ := of_decide_eq_true (Except.ok.inj hrun)
  have hstart : Computer.AtStart ⟨⟨m, .static⟩, .static⟩ := systemStart_of_boot hm
  have hreach := Computer.reachable_runAll (.start hstart) hc
  exact ⟨c, hreach, hmutex, hfocus, ⟨40, hdead⟩, hkey, computer_intact hreach⟩

end BasicKernel
