import BasicKernel.Screen.Reachable
import BasicKernel.View.Moves

set_option autoImplicit false

/-! # The process on focus

Processes are created and killed with their screens, the screens are switched, and the scheduler
removes the dead. `pkill` gives the focus to the parent of the process that it kills, and does not ask
whether that one is alive.

`focus_alive` is about the runs in which this parent is alive: the focus and the screens belong to
processes that are alive. In `dead_parent_gets_focus` a dead process has the focus.
-/

namespace BasicKernel

open Linked Keyed Fuel Transition

/-! ## Calls and interrupts -/

inductive SystemOp where
  | pcreate (exec entryPoint name : Addr)
  | pcreateBackground (exec entryPoint name : Addr)
  | pkill (pid : Int)
  | loadNextScreen
  | loadPreviousScreen
  | tick (garbage : Garbage) (rsp : Addr)
  | yield (garbage : Garbage) (rsp : Addr)

/-- An event of the kernel that does not touch the screens. -/
def KernelOp.onMachine (op : KernelOp) (fuel : Nat) (m : Machine) : Except Stop Machine := do
  return { m with kernel := ← op.run fuel m.kernel }

namespace SystemOp

def run (fuel : Nat) (m : Machine) : SystemOp → Except Stop Machine
  | pcreate exec entryPoint name => do
      return (← BasicKernel.pcreate fuel m exec entryPoint name).2
  | pcreateBackground exec entryPoint name => do
      return (← BasicKernel.pcreateBackground fuel m exec entryPoint name).2
  | pkill pid => BasicKernel.pkill fuel m pid
  | loadNextScreen => BasicKernel.loadNextScreen fuel m
  | loadPreviousScreen => BasicKernel.loadPreviousScreen fuel m
  | tick garbage rsp => (KernelOp.tick garbage rsp).onMachine fuel m
  | yield garbage rsp => (KernelOp.yield garbage rsp).onMachine fuel m

/-- What is killed exists, and is not `init` or the shell. -/
def Asked (m : Machine) : SystemOp → Prop
  | pkill pid => 1 < pid ∧ ∃ s, m.kernel.ProcessIs pid s
  | _ => True

end SystemOp

/-- `main` has made `init` and the shell, and has put the shell on focus. -/
def SystemStart (m : Machine) : Prop :=
  ∃ (m₀ : Machine) (fuel : Nat) (r : Int), Booted m₀.kernel ∧ m₀.list = NULL ∧
    m₀.onFocusPid = NO_FOCUS ∧ loadScreen fuel m₀ 1 = .ok (r, m)

/-- One event, and what may change in memory before it. -/
def SystemStep (Allowed : SystemOp → Machine → Prop) (m m' : Machine) : Prop :=
  ∃ kernel op fuel, Recycled m.kernel kernel ∧ op.Asked { m with kernel } ∧
    Allowed op { m with kernel } ∧ op.run fuel { m with kernel } = .ok m'

/-! ## What is shown -/

/-- The process is in the ring and not dead. -/
def Kernel.IsAlive (k : Kernel) (pid : Int) : Prop := ∃ s, k.ProcessIs pid s ∧ s ≠ .DEAD

/-- The process on focus and those that have screens are alive. -/
structure Machine.FocusAlive (m : Machine) : Prop where
  focus : m.onFocusPid = NO_FOCUS ∨ m.kernel.IsAlive m.onFocusPid
  screens : ∃ xs, Chain m.nextScreen NULL m.list xs ∧
    ∀ x ∈ xs, m.kernel.IsAlive (m.screenNode x).pid

/-- When a process is killed its parent, another process, is alive. New processes and the removal of
the dead are sound. -/
def SystemOp.Safe (op : SystemOp) (m : Machine) : Prop :=
  match op with
  | pcreate _ _ _ => CleanProcess m.kernel
  | pcreateBackground _ _ _ => CleanProcess m.kernel
  | pkill pid => ∃ fuel parent, getParentPid fuel m.kernel pid = .ok parent ∧ parent ≠ pid ∧
      m.kernel.IsAlive parent
  | loadNextScreen => True
  | loadPreviousScreen => True
  | tick garbage rsp => Sound m.kernel (.tick garbage rsp)
  | yield garbage rsp => Sound m.kernel (.yield garbage rsp)

/-! ## Processes that are alive on a view

The lookups of the kernel find a living process exactly if the view has one. -/

variable {k k' : Kernel} {m m' : Machine} {V V' : View} {xs xs' : List Addr}
  {others rest rest' extra : List (Addr × Nat)} {pid : Int} {p : ProcessView} {P P' : Int → Prop} {fuel : Nat}

def View.IsAlive (V : View) (pid : Int) : Prop := ∃ s, V.processState pid = some s ∧ s ≠ .DEAD

theorem Rep.isAlive_iff (hr : Rep k V) (hok : V.Ok) : k.IsAlive pid ↔ V.IsAlive pid := by
  unfold Kernel.IsAlive View.IsAlive
  simp only [hr.processIs_iff hok]

theorem View.isAlive_congr (h : V'.table = V.table) : V'.IsAlive = V.IsAlive := by
  unfold View.IsAlive
  rw [View.processState_congr h]

theorem View.Numbered.isAlive_of_mem (h : V.Numbered) (hp : p ∈ V.table) (hs : p.val.state ≠ .DEAD) :
    V.IsAlive p.val.pid := ⟨_, h.processState_eq hp, hs⟩

/-- Only a dead process is removed, and a switch kills nobody. -/
theorem Switched.isAlive {gone : Int → Prop} (h : Switched gone V V')
    (hgone : ∀ pid, gone pid → V.processState pid = some .DEAD) (halive : V.IsAlive pid) :
    V'.IsAlive pid := by
  obtain ⟨s, hs, hne⟩ := halive
  rcases h.processes pid with ⟨hpid, -⟩ | hmoved
  · rw [hgone pid hpid] at hs
    exact absurd (Option.some.inj hs).symm hne
  · rw [hs] at hmoved
    generalize hstate : V'.processState pid = state at hmoved
    cases hmoved with
    | same => exact ⟨s, hstate, hne⟩
    | @moved _ s' _ hawake =>
        refine ⟨s', hstate, ?_⟩
        rintro rfl
        cases hawake

/-- A tick or a yield keeps those that are alive. -/
theorem Rep.isAlive_dispatch (hr : Rep k V) (hok : V.Ok) {op : KernelOp} (h : Effect k V op V')
    (hop : (∃ garbage rsp, op = .tick garbage rsp) ∨ ∃ garbage rsp, op = .yield garbage rsp)
    (halive : V.IsAlive pid) : V'.IsAlive pid := by
  rcases hop with ⟨garbage, rsp, rfl⟩ | ⟨garbage, rsp, rfl⟩
  · refine (hr.switched_tick hok h).isAlive (fun pid hgone => ?_) halive
    exact hok.processState_of_reaps hgone.2
  · refine (hr.switched_yield hok h).isAlive (fun pid hgone => ?_) halive
    exact hok.processState_of_reaps hgone.2

/-- The parent that a process was given. -/
theorem Rep.getParentPid (hr : Rep k V) (hok : V.Ok) (hp : p ∈ V.table) :
    Returns (BasicKernel.getParentPid · k p.val.pid) p.val.ppid := by
  unfold BasicKernel.getParentPid
  refine (hr.getProcessWithPid_of_mem hok.pids hp).bind ?_
  rw [(hr.processes p hp).load_process]
  exact .const _ _

/-! ## Kernel and screens

The two representations share the heap: the pages of the screens are `others` for the kernel, and
its pages are `others` for the screens. -/

/-- The pages of the rings and registries. -/
def View.base (V : View) : List (Addr × Nat) :=
  V.table.flatMap ProcessView.blocks ++ V.mutexes.flatMap LockView.blocks ++
    V.semaphores.flatMap LockView.blocks

theorem View.blocks_base (V : View) : V.blocks = V.base ++ V.others := rfl

/-- The kernel and the list of screens are in order, each with its own pages, and the screens belong
to processes with the property `P`. -/
structure Machine.Kept (P : Int → Prop) (m : Machine) (V : View) (xs : List Addr)
    (rest : List (Addr × Nat)) : Prop where
  rep : Rep m.kernel V
  ok : V.Ok
  others : V.others.Perm (m.screenBlocks xs ++ rest)
  screens : RepScreens m xs (V.base ++ rest)
  owners : ∀ x ∈ xs, P (m.screenNode x).pid

/-- The pages of the view, those of the screens first. -/
theorem View.blocks_perm_screens (h : V.others.Perm (m.screenBlocks xs ++ rest)) :
    V.blocks.Perm (m.screenBlocks xs ++ (V.base ++ rest)) := by
  rw [View.blocks_base]
  exact (h.append_left V.base).trans (List.perm_append_comm_assoc ..)

theorem Rep.setOthers (hr : Rep k V) {memory : MemoryManager} (others : List (Addr × Nat))
    (ho : Owns memory (V.base ++ others)) :
    Rep { k with memory } { V with others } :=
  ⟨hr.queue, fun p hp => (hr.processes p hp).congr rfl rfl (fun _ _ => rfl) (fun _ _ => rfl)
    fun _ _ => rfl, hr.current, hr.ticks, hr.queueSize, hr.nextPid,
    hr.mutexes.congr (fun _ _ => rfl) fun _ _ _ _ => rfl, hr.mutexCounter,
    hr.semaphores.congr (fun _ _ => rfl) fun _ _ _ _ => rfl, hr.semaphoreCounter, ho, hr.created,
    hr.freedOnce⟩

theorem View.Ok.setOthers (h : V.Ok) (others : List (Addr × Nat)) : ({ V with others } : View).Ok :=
  ⟨⟨h.processes, h.pids, h.pid_lt, h.main, h.queueSize_le⟩, h.current⟩

namespace Machine.Kept

theorem mono (h : m.Kept P V xs rest) (hP : ∀ pid, P pid → P' pid) : m.Kept P' V xs rest :=
  { h with owners := fun x hx => hP _ (h.owners x hx) }

/-- A call that changes the screens. -/
theorem of_screens (h : m.Kept P V xs rest) (hkernel : m.SameKernel m')
    (hrep : RepScreens m' xs' (V.base ++ rest')) (howners : ∀ x ∈ xs', P' (m'.screenNode x).pid) :
    m'.Kept P' { V with others := m'.screenBlocks xs' ++ rest' } xs' rest' := by
  have ho : Owns m'.kernel.memory (V.base ++ (m'.screenBlocks xs' ++ rest')) :=
    hrep.owns.perm (List.perm_append_comm_assoc ..)
  refine ⟨?_, h.ok.setOthers _, .refl _, hrep, howners⟩
  rw [hkernel.kernel]
  exact h.rep.setOthers _ ho

/-- A call that changes the rest of the kernel. -/
theorem of_kernel (extra : List (Addr × Nat)) (h : m.Kept P V xs rest) (hr : Rep k' V') (hok : V'.Ok)
    (hothers : V'.others = extra ++ V.others) (hP : ∀ pid, P pid → P' pid) :
    { m with kernel := k' }.Kept P' V' xs (extra ++ rest) := by
  have hperm : V'.others.Perm (m.screenBlocks xs ++ (extra ++ rest)) := by
    rw [hothers]
    exact (h.others.append_left extra).trans (List.perm_append_comm_assoc ..)
  have ho : Owns k'.memory (m.screenBlocks xs ++ (V'.base ++ (extra ++ rest))) :=
    hr.owns.perm (View.blocks_perm_screens hperm)
  refine ⟨hr, hok, hperm, ?_, fun x hx => hP _ (h.owners x hx)⟩
  exact h.screens.congr rfl (fun _ _ => ⟨rfl, rfl⟩) (fun _ _ => rfl) (fun _ _ => rfl) h.screens.focus ho

/-- What holds of the processes with screens holds of the one on focus. -/
theorem focus (h : m.Kept P V xs rest) : m.onFocusPid = NO_FOCUS ∨ P m.onFocusPid := by
  rcases h.screens.focus with hnone | ⟨x, hx, hpid⟩
  · exact .inl hnone
  · exact .inr (hpid ▸ h.owners x hx)

theorem focusAlive (h : m.Kept V.IsAlive V xs rest) : m.FocusAlive := by
  refine ⟨h.focus.imp_right fun halive => ?_, xs, h.screens.links.chain, fun x hx => ?_⟩
  · exact (h.rep.isAlive_iff h.ok).mpr halive
  · exact (h.rep.isAlive_iff h.ok).mpr (h.owners x hx)

end Machine.Kept

/-! ## The owners of the screens

A switch changes what is saved and not who it is saved for. -/

theorem Machine.Saved.pid_eq (h : m.Saved xs m') (x : Addr) :
    (m'.screenNode x).pid = (m.screenNode x).pid := by
  cases h with
  | nobody _ => rfl
  | @node f _ _ =>
      obtain ⟨currentPosition, heq⟩ := m.save_node f x
      rw [heq]

theorem Machine.Switched.pid_eq (h : m.Switched xs m') (x : Addr) :
    (m'.screenNode x).pid = (m.screenNode x).pid := by
  cases h with
  | same => rfl
  | shown hsaved _ => exact hsaved.pid_eq x

theorem Machine.withoutScreen_pid (m : Machine) (A B : List Addr) (memory : MemoryManager) (x : Addr) :
    ((m.withoutScreen A B memory).screenNode x).pid = (m.screenNode x).pid := by
  show ((m.unlinkScreen A B NULL).screenNode x).pid = _
  obtain ⟨next, prev, heq⟩ := m.unlinkScreen_same A B NULL x
  rw [heq]

theorem Machine.withScreen_pid_of_ne (m : Machine) {node x : Addr} (hx : x ≠ node) (screen : Addr)
    (memory : MemoryManager) :
    ((m.withScreen xs node screen memory pid).screenNode x).pid = (m.screenNode x).pid := by
  show ((Machine.linkScreen _ xs NULL node pid).screenNode x).pid = _
  obtain ⟨next, heq⟩ := Machine.linkScreen_of_ne _ xs NULL pid hx
  rw [heq]
  show (Function.update m.screenNode node _ x).pid = _
  rw [Function.update_of_ne hx]

/-- Beside the owners of the old screens only the process itself. -/
theorem Machine.Ensured.owners {m₀ : Machine} {x : Addr} (h : m.Ensured xs pid others m₀ xs' x)
    (howners : ∀ y ∈ xs, P (m.screenNode y).pid) (hP : P pid) :
    ∀ y ∈ xs', P (m₀.screenNode y).pid := by
  cases h with
  | found _ _ => exact howners
  | @created node screen memory _ hnode _ _ =>
      intro y hy
      rcases List.mem_append.mp hy with hy | hy
      · rw [Machine.withScreen_pid_of_ne m (ne_of_mem_of_not_mem hy hnode)]
        exact howners y hy
      · obtain rfl := List.mem_singleton.mp hy
        rw [RepScreens.withScreen_pid hnode]
        exact hP

namespace Machine.Kept

/-- The process loses its screen, if it has one. -/
theorem removeScreen (h : m.Kept P V xs rest)
    (hrun : BasicKernel.removeScreen fuel m pid = .ok m') :
    ∃ V' xs', m'.Kept (fun i => P i ∧ i ≠ pid) V' xs' rest ∧ V'.table = V.table := by
  rcases h.screens.removeScreen pid with
    ⟨A, c, B, memory, rfl, hc, hinit, hreturns, hrep⟩ | ⟨hnone, hreturns, hrep⟩
  · obtain rfl := hreturns.eq hrun
    have hkernel : m.SameKernel ((m.unfocus pid).withoutScreen A B memory) := ⟨rfl, hinit⟩
    refine ⟨_, A ++ B, h.of_screens hkernel hrep fun x hx => ?_, rfl⟩
    have hmem : x ∈ A ++ c :: B := (List.sublist_cons_self c B).append_left A |>.subset hx
    rw [Machine.withoutScreen_pid]
    refine ⟨h.owners x hmem, fun heq => ?_⟩
    -- no two screens belong to one process
    have hpids := h.screens.pids
    rw [List.map_append, List.map_cons, List.nodup_middle, ← List.map_append] at hpids
    refine (List.nodup_cons.mp hpids).1 ?_
    rw [hc, ← heq]
    exact List.mem_map_of_mem hx
  · obtain rfl := hreturns.eq hrun
    exact ⟨_, xs, h.of_screens ⟨rfl, rfl⟩ hrep fun x hx => ⟨h.owners x hx, hnone x hx⟩, rfl⟩

/-- The process gets a screen, if there is memory for one. -/
theorem loadScreen (h : m.Kept P V xs rest) (hpid : 0 ≤ pid) (hP : P pid) {r : Int}
    (hrun : BasicKernel.loadScreen fuel m pid = .ok (r, m')) :
    ∃ V' xs', m'.Kept P V' xs' rest ∧ V'.table = V.table := by
  rcases h.screens.loadScreen hpid with
    ⟨m₀, xs', x, m₁, hensured, -, hsaved, hreturns, hrep⟩ | ⟨m₁, hrefused, -, hreturns, hrep⟩
  · obtain ⟨-, rfl⟩ := Prod.mk.inj (hreturns.eq hrun)
    have hkernel : m₀.SameKernel (m₁.display x pid) := .of_eq hsaved.kernel
    refine ⟨_, xs', h.of_screens (hensured.sameKernel.trans hkernel) hrep fun y hy => ?_, rfl⟩
    have howner := hensured.owners h.owners hP y hy
    rw [← hsaved.pid_eq y] at howner
    exact howner
  · obtain ⟨-, rfl⟩ := Prod.mk.inj (hreturns.eq hrun)
    refine ⟨_, xs, h.of_screens hrefused.sameKernel hrep fun y hy => ?_, rfl⟩
    rw [hrefused.kept y hy]
    exact h.owners y hy

theorem switched (h : m.Kept P V xs rest) (hswitched : m.Switched xs m')
    (hrep : RepScreens m' xs (V.base ++ rest)) : ∃ V', m'.Kept P V' xs rest ∧ V'.table = V.table := by
  refine ⟨_, h.of_screens (.of_eq hswitched.kernel) hrep fun y hy => ?_, rfl⟩
  rw [hswitched.pid_eq y]
  exact h.owners y hy

/-! ## Every event keeps the owners alive

A process that is killed loses its screen first, and then the focus goes to its parent. -/

theorem recycled (h : m.Kept P V xs rest) (hk : Recycled m.kernel k) :
    { m with kernel := k }.Kept P V xs rest :=
  h.of_kernel [] (h.rep.recycled hk) h.ok rfl fun _ hP => hP

/-- A new process, which is alive. -/
theorem addProcess (h : m.Kept V.IsAlive V xs rest) {exec entryPoint name : Addr} {r : Int}
    (hclean : CleanProcess m.kernel)
    (hrun : BasicKernel.addProcess fuel m.kernel exec entryPoint name = .ok (r, k)) :
    ∃ (V' : View) (rest' : List (Addr × Nat)),
      { m with kernel := k }.Kept V'.IsAlive V' xs rest' ∧ V'.IsAlive r ∧ 0 ≤ r := by
  -- Creation appends the process to the table, with a name page of its own.
  obtain ⟨a, chars, n, t, base, l, ⟨memory, hall⟩, -, hr, -, -, hcases, -⟩ :=
    h.rep.addProcess_cases h.ok hrun
  obtain ⟨p, -, -, -, hp, -, hrep, hok⟩ := hcases (.inl (hclean a _ hall))
  have hstate := h.ok.processState_addProcess hp
  have hnew : (V.addProcess p).IsAlive r := by
    refine ⟨.READY, ?_, by decide⟩
    rw [hstate, hr, Function.update_self]
  -- A process that was alive is one of the old ones, or has the new number.
  have hkeep : ∀ i, V.IsAlive i → (V.addProcess p).IsAlive i := by
    intro i hi
    by_cases heq : i = V.nextPid
    · exact (heq.trans hr.symm) ▸ hnew
    · obtain ⟨s, hs, hne⟩ := hi
      refine ⟨s, ?_, hne⟩
      rw [hstate, Function.update_of_ne heq]
      exact hs
  refine ⟨V.addProcess p, _, h.of_kernel [(p.val.name, NAME_LENGTH)] hrep hok rfl hkeep,
    hnew, ?_⟩
  rw [hr]
  exact h.ok.next_nonneg

/-- A tick or a yield. -/
theorem dispatch (h : m.Kept V.IsAlive V xs rest) {op : KernelOp} (hs : Sound m.kernel op)
    (hop : (∃ garbage rsp, op = .tick garbage rsp) ∨ ∃ garbage rsp, op = .yield garbage rsp)
    (hrun : op.onMachine fuel m = .ok m') : ∃ V' rest', m'.Kept V'.IsAlive V' xs rest' := by
  obtain ⟨k', hevent, hrun⟩ := bind_eq_ok.mp hrun
  obtain rfl := Except.ok.inj hrun
  obtain ⟨V', heffect, hr', hok'⟩ := h.rep.run_inv h.ok hs hevent
  obtain ⟨extra, hothers⟩ := heffect.others
  refine ⟨V', _, h.of_kernel extra hr' hok' hothers fun i hi => ?_⟩
  exact h.rep.isAlive_dispatch h.ok heffect hop hi

/-- `pkill`, when the parent is another process that is alive. -/
theorem pkill (h : m.Kept V.IsAlive V xs rest) (hpid : 1 < pid) (hsafe : (SystemOp.pkill pid).Safe m)
    (hrun : BasicKernel.pkill fuel m pid = .ok m') :
    ∃ V' xs' rest', m'.Kept V'.IsAlive V' xs' rest' := by
  obtain ⟨fuel', parent, hparent, hne, halive⟩ := hsafe
  have halive := (h.rep.isAlive_iff h.ok).mp halive
  -- The steps of the call: the screen goes, the parent gets the focus, the process dies.
  obtain ⟨m₁, hremove, hrun⟩ := bind_eq_ok.mp hrun
  obtain ⟨parent', hparent', hrun⟩ := bind_eq_ok.mp hrun
  obtain ⟨⟨r, m₂⟩, hload, hrun⟩ := bind_eq_ok.mp hrun
  obtain ⟨k₃, hkill, hrun⟩ := bind_eq_ok.mp hrun
  obtain rfl := Except.ok.inj hrun
  have hguard : ¬ (pid = 0 ∨ pid = 1) := by omega
  obtain ⟨V₁, xs₁, h₁, htable₁⟩ := h.removeScreen hremove
  -- the parent is the one that was asked for before
  have hsame : parent' = parent := by
    obtain ⟨a, hget, hload'⟩ := bind_eq_ok.mp hparent'
    rcases h₁.rep.process_of_ok hget with ⟨p, hp, rfl, -⟩ | rfl
    · have hreturns := h.rep.getParentPid h.ok (htable₁ ▸ hp)
      rw [hreturns.eq hparent]
      exact ((h₁.rep.getParentPid h₁.ok hp).eq hparent').symm ▸ rfl
    · simp at hload'
  subst hsame
  -- A process that is alive has a number that was given out.
  have hnonneg : 0 ≤ parent' := by
    obtain ⟨s, hs, -⟩ := halive
    obtain ⟨q, hq, rfl, -⟩ := h.ok.processState_some.mp hs
    exact (h.ok.pid_lt q hq).1
  obtain ⟨V₂, xs₂, h₂, htable₂⟩ := h₁.loadScreen hnonneg ⟨halive, hne⟩ hload
  rcases h₂.rep.removeProcess_inv h₂.ok hkill with ⟨hguard', -⟩ | ⟨-, p, hp, hppid, hr'⟩
  · exact absurd hguard' hguard
  have hmain : p.val.pid ≠ 0 := fun h0 => hguard (.inl (hppid ▸ h0))
  have hok' : (V₂.kill p).Ok :=
    h₂.rep.ok_kill h₂.ok hp ((h₂.ok.processes p hp).setState _) rfl rfl hmain
  refine ⟨V₂.kill p, xs₂, _, h₂.of_kernel [] hr' hok' rfl ?_⟩
  -- Every owner of a screen is alive and is not the one killed.
  rintro i ⟨⟨s, hs, hs'⟩, hi⟩
  refine ⟨s, ?_, hs'⟩
  rw [h₂.rep.processState_kill h₂.ok hp, hppid, Function.update_of_ne hi,
    View.processState_congr (htable₂.trans htable₁)]
  exact hs

end Machine.Kept

/-! ## Runs -/

/-- After `main` the shell has a screen, or there was no memory for one. -/
theorem SystemStart.kept (h : SystemStart m) :
    ∃ (V : View) (xs : List Addr) (rest : List (Addr × Nat)), m.Kept V.IsAlive V xs rest := by
  obtain ⟨m₀, fuel, r, hboot, hlist, hfocus, hload⟩ := h
  obtain ⟨V, hr, hok, hV⟩ := hboot.rep
  obtain ⟨p, q, init, sample, htable, hp, hq, -⟩ := hV.table
  have hscreens : RepScreens m₀ [] (V.base ++ V.others) := by
    refine ⟨?_, List.nodup_nil, fun _ hx => absurd hx List.not_mem_nil, .inl hfocus, hr.owns⟩
    rw [hlist]
    exact .empty _ _ _
  have h₀ : m₀.Kept V.IsAlive V [] V.others :=
    ⟨hr, hok, .refl _, hscreens, fun _ hx => absurd hx List.not_mem_nil⟩
  have hshell : V.IsAlive 1 := by
    have hmem : q ∈ V.table := by
      rw [htable]
      exact List.mem_cons_of_mem p (List.mem_singleton_self q)
    rw [← hq.pid]
    exact hok.isAlive_of_mem hmem (by rw [hq.state]; decide)
  obtain ⟨V', xs', h', htable'⟩ := h₀.loadScreen (by decide) hshell hload
  exact ⟨V', xs', _, h'.mono fun i hi => (View.isAlive_congr htable') ▸ hi⟩

theorem Machine.Kept.step (h : m.Kept V.IsAlive V xs rest) (hstep : SystemStep SystemOp.Safe m m') :
    ∃ (V' : View) (xs' : List Addr) (rest' : List (Addr × Nat)), m'.Kept V'.IsAlive V' xs' rest' := by
  obtain ⟨kernel, op, fuel, hrec, hasked, hsafe, hrun⟩ := hstep
  replace h := h.recycled hrec
  generalize { m with kernel } = m₀ at h hasked hsafe hrun
  -- One case for each event of the system; the screens and the kernel move independently.
  cases op with
  | pcreate exec entryPoint name =>
      obtain ⟨⟨r, m₂⟩, hcreate, hrun⟩ := bind_eq_ok.mp hrun
      obtain rfl := Except.ok.inj hrun
      obtain ⟨⟨r', k₁⟩, hadd, hcreate⟩ := bind_eq_ok.mp hcreate
      obtain ⟨⟨r'', m₃⟩, hload, hcreate⟩ := bind_eq_ok.mp hcreate
      obtain ⟨rfl, rfl⟩ := Prod.mk.inj (Except.ok.inj hcreate)
      -- The process is created first, and its screen is loaded for a process that is alive.
      obtain ⟨V₁, rest₁, h₁, hnew, hnonneg⟩ := h.addProcess hsafe hadd
      obtain ⟨V₂, xs₂, h₂, htable⟩ := h₁.loadScreen hnonneg hnew hload
      exact ⟨V₂, xs₂, _, h₂.mono fun i hi => (View.isAlive_congr htable) ▸ hi⟩
  | pcreateBackground exec entryPoint name =>
      obtain ⟨⟨r, m₂⟩, hcreate, hrun⟩ := bind_eq_ok.mp hrun
      obtain rfl := Except.ok.inj hrun
      obtain ⟨⟨r', k₁⟩, hadd, hcreate⟩ := bind_eq_ok.mp hcreate
      obtain ⟨rfl, rfl⟩ := Prod.mk.inj (Except.ok.inj hcreate)
      obtain ⟨V₁, rest₁, h₁, -, -⟩ := h.addProcess hsafe hadd
      exact ⟨V₁, xs, rest₁, h₁⟩
  | pkill pid => exact h.pkill hasked.1 hsafe hrun
  | loadNextScreen =>
      obtain ⟨m₂, hreturns, hswitched, hrep⟩ := h.screens.loadNextScreen
      obtain rfl := hreturns.eq hrun
      obtain ⟨V₂, h₂, htable⟩ := h.switched hswitched hrep
      exact ⟨V₂, xs, _, h₂.mono fun i hi => (View.isAlive_congr htable) ▸ hi⟩
  | loadPreviousScreen =>
      obtain ⟨m₂, hreturns, hswitched, hrep⟩ := h.screens.loadPreviousScreen
      obtain rfl := hreturns.eq hrun
      obtain ⟨V₂, h₂, htable⟩ := h.switched hswitched hrep
      exact ⟨V₂, xs, _, h₂.mono fun i hi => (View.isAlive_congr htable) ▸ hi⟩
  -- The scheduler may remove dead processes, which own no screen.
  | tick garbage rsp =>
      have hs : Sound m₀.kernel (.tick garbage rsp) := hsafe
      obtain ⟨V₂, rest₂, h₂⟩ := h.dispatch hs (.inl ⟨garbage, rsp, rfl⟩) hrun
      exact ⟨V₂, xs, rest₂, h₂⟩
  | yield garbage rsp =>
      have hs : Sound m₀.kernel (.yield garbage rsp) := hsafe
      obtain ⟨V₂, rest₂, h₂⟩ := h.dispatch hs (.inr ⟨garbage, rsp, rfl⟩) hrun
      exact ⟨V₂, xs, rest₂, h₂⟩

/-- The focus and the screens belong to processes that are alive, as long as only processes with a
living parent are killed. -/
theorem focus_alive (h : Reachable SystemStart (SystemStep SystemOp.Safe) m) : m.FocusAlive := by
  have hkept : ∃ (V : View) (xs : List Addr) (rest : List (Addr × Nat)),
      m.Kept V.IsAlive V xs rest := by
    refine h.invariant (I := fun m => ∃ (V : View) (xs : List Addr) (rest : List (Addr × Nat)),
      m.Kept V.IsAlive V xs rest) (fun m hm => hm.kept) ?_
    rintro m m' - ⟨V, xs, rest, hkept⟩ hstep
    exact hkept.step hstep
  obtain ⟨V, xs, rest, hkept⟩ := hkept
  exact hkept.focusAlive

/-! ## Runs given by a list of calls -/

/-- The process is in the ring. -/
def Kernel.hasProcess (k : Kernel) (pid : Int) : Bool :=
  match k.processState 40 pid with
  | .ok (some _) => true
  | _ => false

theorem Kernel.exists_of_hasProcess (h : k.hasProcess pid) : ∃ s, k.ProcessIs pid s := by
  unfold Kernel.hasProcess at h
  split at h
  next s hs => exact ⟨s, 40, hs⟩
  · cases h

/-- A test for `Asked`. -/
def SystemOp.asked? (m : Machine) : SystemOp → Bool
  | pkill pid => decide (1 < pid) && m.kernel.hasProcess pid
  | _ => true

theorem SystemOp.asked_of {op : SystemOp} (h : op.asked? m) : op.Asked m := by
  cases op with
  | pkill pid =>
      obtain ⟨hpid, hstate⟩ := Bool.and_eq_true_iff.mp h
      exact ⟨of_decide_eq_true hpid, Kernel.exists_of_hasProcess hstate⟩
  | _ => trivial

/-- The parent is another process and alive. -/
def Kernel.parentAlive (k : Kernel) (pid : Int) : Bool :=
  match getParentPid 40 k pid with
  | .ok parent => match k.processState 40 parent with
    | .ok (some s) => decide (parent ≠ pid ∧ s ≠ .DEAD)
    | _ => false
  | .error _ => false

theorem Kernel.exists_of_parentAlive (h : k.parentAlive pid) :
    ∃ fuel parent, getParentPid fuel k pid = .ok parent ∧ parent ≠ pid ∧ k.IsAlive parent := by
  unfold Kernel.parentAlive at h
  split at h
  next parent hparent =>
    split at h
    next s hs =>
      obtain ⟨hne, halive⟩ := of_decide_eq_true h
      exact ⟨40, parent, hparent, hne, s, ⟨40, hs⟩, halive⟩
    · cases h
  · cases h

/-- A test for `Safe`. -/
def SystemOp.safe? (m : Machine) : SystemOp → Bool
  | pcreate _ _ _ => m.kernel.cleanProcess?
  | pcreateBackground _ _ _ => m.kernel.cleanProcess?
  | pkill pid => m.kernel.parentAlive pid
  | tick garbage rsp => (KernelOp.tick garbage rsp).sound? m.kernel
  | yield garbage rsp => (KernelOp.yield garbage rsp).sound? m.kernel
  | _ => true

theorem SystemOp.safe_of {op : SystemOp} (h : op.safe? m) : op.Safe m := by
  cases op with
  | pcreate _ _ _ => exact Kernel.cleanProcess_of h
  | pcreateBackground _ _ _ => exact Kernel.cleanProcess_of h
  | pkill _ => exact Kernel.exists_of_parentAlive h
  | tick garbage rsp => exact @KernelOp.sound_of m.kernel (.tick garbage rsp) h
  | yield garbage rsp => exact @KernelOp.sound_of m.kernel (.yield garbage rsp) h
  | _ => trivial

/-- Calls one after the other, as long as they are asked for and pass the test. -/
def SystemOp.runAll (test : Machine → SystemOp → Bool) (fuel : Nat) :
    List SystemOp → Machine → Except Stop Machine
  | [], m => .ok m
  | op :: ops, m => do
      if !(op.asked? m && test m op) then
        throw .outOfFuel
      runAll test fuel ops (← op.run fuel m)

theorem SystemOp.reachable_runAll {Allowed : SystemOp → Machine → Prop}
    {test : Machine → SystemOp → Bool} {ops : List SystemOp}
    (htest : ∀ m op, test m op = true → Allowed op m) (h : Reachable SystemStart (SystemStep Allowed) m)
    (hrun : runAll test fuel ops m = .ok m') : Reachable SystemStart (SystemStep Allowed) m' := by
  induction ops generalizing m with
  | nil =>
      obtain rfl := Except.ok.inj hrun
      exact h
  | cons op ops ih =>
      unfold runAll at hrun
      by_cases hop : (op.asked? m && test m op) = true
      · simp only [hop, Bool.not_true, Bool.false_eq_true, if_false] at hrun
        obtain ⟨hasked, hallowed⟩ := Bool.and_eq_true_iff.mp hop
        obtain ⟨m₁, hcall, hrun⟩ := bind_eq_ok.mp hrun
        exact ih (h.next ⟨m.kernel, op, fuel, .refl _, asked_of hasked, htest _ _ hallowed, hcall⟩) hrun
      · simp [hop] at hrun

/-- The machine that `main` leaves, from `zeroKernel`. -/
def bootMachine : Except Stop Machine := do
  let kernel ← startKernel
  return (← loadScreen 40 { startMachine with kernel } 1).2

theorem systemStart_of_boot (h : bootMachine = .ok m) : SystemStart m := by
  obtain ⟨kernel, hkernel, h⟩ := bind_eq_ok.mp h
  obtain ⟨⟨r, m₁⟩, hload, h⟩ := bind_eq_ok.mp h
  obtain rfl := Except.ok.inj h
  exact ⟨{ startMachine with kernel }, 40, r, booted_of_start hkernel, rfl, rfl, hload⟩

/-- `init` makes the processes 2 and 3, one of them on focus. The screens are switched, and the one that
was on focus is killed. -/
def killOne : List SystemOp :=
  [.pcreate 1 4 0x100, .pcreateBackground 1 4 0x100, .tick nullGarbage 0x5000, .loadPreviousScreen,
    .loadNextScreen, .pkill 2]

/-- The focus is with `init`, the parent, and the process 2 is dead. -/
theorem focus_alive_after_kill : ∃ m, Reachable SystemStart (SystemStep SystemOp.Safe) m ∧
    m.onFocusPid = 0 ∧ m.kernel.ProcessIs 2 .DEAD ∧ m.kernel.IsAlive 3 ∧ m.FocusAlive := by
  have hrun : (do
      let m ← bootMachine
      let m' ← SystemOp.runAll SystemOp.safe? 40 killOne m
      return decide (m'.onFocusPid = 0 ∧ m'.kernel.processState 40 2 = .ok (some .DEAD) ∧
        m'.kernel.processState 40 3 = .ok (some .READY)) : Except Stop Bool) = .ok true := by
    decide +kernel
  obtain ⟨m, hm, hrun⟩ := bind_eq_ok.mp hrun
  obtain ⟨m', hm', hrun⟩ := bind_eq_ok.mp hrun
  obtain ⟨hfocus, hdead, hready⟩ := of_decide_eq_true (Except.ok.inj hrun)
  have hreach := SystemOp.reachable_runAll (fun _ _ => SystemOp.safe_of) (.start (systemStart_of_boot hm)) hm'
  exact ⟨m', hreach, hfocus, ⟨40, hdead⟩, ⟨_, ⟨40, hready⟩, by decide⟩, focus_alive hreach⟩

/-- The process 2, made by `init`, makes the process 3, and kills first itself and then the process 3. -/
def killFamily : List SystemOp :=
  .pcreateBackground 1 4 0x100 :: List.replicate 6 (.tick nullGarbage 0x5000) ++
    [.pcreateBackground 1 4 0x100, .pkill 2, .pkill 3]

/-- The focus goes to the parent, which is dead. -/
theorem dead_parent_gets_focus :
    ¬ ∀ m, Reachable SystemStart (SystemStep fun _ _ => True) m → m.FocusAlive := by
  intro h
  have hrun : (do
      let m ← bootMachine
      let m' ← SystemOp.runAll (fun _ _ => true) 40 killFamily m
      return decide (m'.onFocusPid = 2 ∧
        m'.kernel.processState 40 2 = .ok (some .DEAD)) : Except Stop Bool) = .ok true := by
    decide +kernel
  obtain ⟨m, hm, hrun⟩ := bind_eq_ok.mp hrun
  obtain ⟨m', hm', hrun⟩ := bind_eq_ok.mp hrun
  obtain ⟨hfocus, hdead⟩ := of_decide_eq_true (Except.ok.inj hrun)
  have hreach := SystemOp.reachable_runAll (fun _ _ _ => trivial) (.start (systemStart_of_boot hm)) hm'
  rcases (h m' hreach).focus with hnone | ⟨s, hs, hne⟩
  · rw [hfocus] at hnone
    cases hnone
  · rw [hfocus] at hs
    exact hne (hs.unique ⟨40, hdead⟩)

end BasicKernel
