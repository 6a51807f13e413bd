import BasicKernel.Screen.ScreenList
import BasicKernel.Screen.SystemCalls

set_option autoImplicit false

/-! # Runs of the kernel with its screens

The calls that change screens and focus, with the system calls that draw, in any order, and whatever
else the kernel does in between. Writing off focus without a screen makes nodes that are not in the
list: their pages are never given back.

`Machine.Sane.of_reachable` is the invariant of these runs. `Screen/Background.lean` and
`Screen/Restoring.lean` start from it.
-/

namespace BasicKernel

open Linked Fuel Transition

inductive MachineOp where
  | loadScreen (pid : Int)
  | removeScreen (pid : Int)
  | loadNextScreen
  | loadPreviousScreen
  | write (buf : List UInt8)
  | clearScreen
  | ps (i headerI : Int)

namespace MachineOp

def run (fuel : Nat) (m : Machine) : MachineOp → Except Stop Machine
  | loadScreen pid => do return (← BasicKernel.loadScreen fuel m pid).2
  | removeScreen pid => BasicKernel.removeScreen fuel m pid
  | loadNextScreen => BasicKernel.loadNextScreen fuel m
  | loadPreviousScreen => BasicKernel.loadPreviousScreen fuel m
  | write buf => do return (← BasicKernel.write fuel m buf).2
  | clearScreen => .ok (clearScreenSys m)
  | ps i headerI => BasicKernel.ps fuel m i headerI

/-- Processes have numbers from 0 on: those named in the call, and the one that writes. -/
def Asked (m : Machine) : MachineOp → Prop
  | loadScreen pid => 0 ≤ pid
  | removeScreen pid => 0 ≤ pid
  | write _ => ∃ pid, 0 ≤ pid ∧ getCurrentPid m.kernel = .ok pid
  | _ => True

end MachineOp

/-- An allowed call, or something elsewhere in the kernel, as in `ScreenStep`. -/
inductive MachineStep (Allowed : MachineOp → Machine → Prop) :
    Machine × List (Addr × Nat) → Machine × List (Addr × Nat) → Prop
  | call {m m' : Machine} {others : List (Addr × Nat)} {op : MachineOp} {fuel : Nat} :
      op.Asked m → Allowed op m → op.run fuel m = .ok m' → MachineStep Allowed (m, others) (m', others)
  | elsewhere {m : Machine} {others others' : List (Addr × Nat)} {kernel : Kernel} :
      AllocatorStep (m.kernel.memory, others) (kernel.memory, others') →
      MachineStep Allowed (m, others) ({ m with kernel }, others')

/-- What holds in every state of a run: the list, the pages, and where they are. -/
structure Machine.Sane (m : Machine) (others : List (Addr × Nat)) : Prop where
  list : ∃ xs lost, RepScreens m xs (lost ++ others)
  initMem : m.kernel.memory.initMem = 0x1000000

variable {m m' m₁ : Machine} {xs : List Addr} {others : List (Addr × Nat)} {pid : Int}

/-- The memory of the machine may have changed, the rest of its kernel and its focus have not. -/
structure Machine.SameKernel (m m' : Machine) : Prop where
  kernel : m'.kernel = { m.kernel with memory := m'.kernel.memory }
  initMem : m'.kernel.memory.initMem = m.kernel.memory.initMem

theorem Machine.SameKernel.refl (m : Machine) : m.SameKernel m := ⟨rfl, rfl⟩

theorem Machine.SameKernel.trans (h : m.SameKernel m₁) (h' : m₁.SameKernel m') : m.SameKernel m' :=
  ⟨by rw [h'.kernel, h.kernel], h'.initMem.trans h.initMem⟩

theorem Machine.SameKernel.of_eq (h : m'.kernel = m.kernel) : m.SameKernel m' := by
  constructor
  · rw [h]
  · rw [h]

theorem Machine.SameKernel.getCurrentPid (h : m.SameKernel m') :
    getCurrentPid m'.kernel = getCurrentPid m.kernel := by
  rw [h.kernel]
  rfl

theorem Machine.Saved.kernel (h : m.Saved xs m₁) : m₁.kernel = m.kernel := by
  cases h <;> rfl

theorem Machine.Switched.kernel (h : m.Switched xs m') : m'.kernel = m.kernel := by
  cases h with
  | same => rfl
  | shown hsaved => exact hsaved.kernel

theorem Machine.Ensured.sameKernel {m₀ : Machine} {xs' : List Addr} {x : Addr}
    (h : m.Ensured xs pid others m₀ xs' x) : m.SameKernel m₀ := by
  cases h with
  | found => exact .refl m
  | created _ _ _ hinit => exact ⟨rfl, hinit⟩

theorem Machine.sameKernel_withNode (m : Machine) (node screen : Addr) {memory : MemoryManager}
    (hinit : memory.initMem = m.kernel.memory.initMem) :
    m.SameKernel (m.withNode xs node screen memory pid) := ⟨rfl, hinit⟩

theorem Machine.Refused.sameKernel (h : m.Refused xs m') : m.SameKernel m' := by
  obtain ⟨memory, hinit, heq⟩ := h.kernel
  have hkernel : m'.kernel = { m.kernel with memory } := congrArg Machine.kernel heq
  exact ⟨by rw [hkernel], by rw [hkernel]; exact hinit⟩

/-! ## The screen of the current process

The search finds the node of the process. Without one `addScreen` is called, and its result is
taken for the node. -/

/-- The node of the current process, which it has. -/
theorem RepScreens.getCurrentScreenNode_of_mem (h : RepScreens m xs others) {x : Addr} (hx : x ∈ xs)
    (hcur : getCurrentPid m.kernel = .ok (m.screenNode x).pid) :
    Returns (getCurrentScreenNode · m) (x, m) := by
  unfold getCurrentScreenNode
  simp only [hcur, ok_bind]
  refine (h.find hx).bind ?_
  simp only [if_neg (h.ne_null hx)]
  exact .const _ _

/-- The node is in no list: its pages are lost. -/
theorem RepScreens.leak (h : RepScreens m [] others) {node screen : Addr} {memory : MemoryManager}
    (ho : Owns memory ((screen, SCREEN_SIZE) :: (node, SCREEN_NODE_SIZE) :: others)) :
    RepScreens (m.withNode [] node screen memory pid) []
      ((screen, SCREEN_SIZE) :: (node, SCREEN_NODE_SIZE) :: others) := by
  refine h.congr rfl ?_ ?_ ?_ (h.focus.imp_right ?_) ho
  · exact fun _ hx => absurd hx List.not_mem_nil
  · exact fun _ hx => absurd hx List.not_mem_nil
  · exact fun _ hx => absurd hx List.not_mem_nil
  · rintro ⟨x, hx, -⟩
    exact absurd hx List.not_mem_nil

/-- Whatever `getCurrentScreenNode` returns, the list is still a list. A process without a screen
gets a new node, which is in the list unless that is empty. -/
theorem RepScreens.getCurrentScreenNode (h : RepScreens m xs others)
    (hcur : getCurrentPid m.kernel = .ok pid) (hpid : 0 ≤ pid) :
    ∃ a m' xs' lost, Returns (BasicKernel.getCurrentScreenNode · m) (a, m') ∧ m.SameKernel m' ∧
      RepScreens m' xs' (lost ++ others) := by
  unfold BasicKernel.getCurrentScreenNode
  simp only [hcur, ok_bind]
  -- Either a screen is found, or one is made, or there is no memory for one.
  rcases findScreenNodeByPid_cases h.links.chain pid with ⟨A, x, B, rfl, hx, -, hfind⟩ | ⟨hnone, hfind⟩
  · have hmem : x ∈ A ++ x :: B := List.mem_append_right A List.mem_cons_self
    refine ⟨x, m, _, [], hfind.bind ?_, .refl m, h⟩
    simp only [if_neg (h.ne_null hmem)]
    exact .const _ _
  rcases h.addScreen hpid hnone with
    ⟨node, screen, memory, hadd, -, hfresh, hinit, ho, hrep⟩ | ⟨m₁, hadd, -, hrefused, hrep⟩
  · have hreturns := hfind.bind (g := fun fuel node =>
      if node = NULL then BasicKernel.addScreen fuel m m.list NULL pid else pure (node, m)) (by
        simp only [if_true]
        exact hadd)
    have hkernel := @Machine.sameKernel_withNode xs pid m node screen _ hinit
    -- The returned list is not stored: in an empty list the new node is lost.
    cases xs with
    | nil =>
        exact ⟨_, _, [], [(screen, SCREEN_SIZE), (node, SCREEN_NODE_SIZE)], hreturns, hkernel,
          h.leak ho⟩
    -- In another list the node is linked behind the last one all the same.
    | cons x xs =>
        have hhead : m.list = (x :: xs ++ [node]).headD NULL := h.links.head
        have hlist : m.withScreen (x :: xs) node screen memory pid =
            m.withNode (x :: xs) node screen memory pid := by
          unfold Machine.withScreen
          rw [← hhead]
          rfl
        rw [hlist] at hrep
        exact ⟨_, _, _, [], hreturns, hkernel, hrep⟩
  · refine ⟨m.list, m₁, xs, [], hfind.bind ?_, hrefused.sameKernel, hrep⟩
    simp only [if_true]
    exact hadd

/-- A change of the cursor of a node. -/
theorem RepScreens.setCursor (h : RepScreens m xs others) (a q : Addr) :
    RepScreens { m with screenNode := Function.update m.screenNode a { m.screenNode a with
      currentPosition := q } } xs others := by
  have hnode : ∀ x, ∃ q', Function.update m.screenNode a { m.screenNode a with
      currentPosition := q } x = { m.screenNode x with currentPosition := q' } := by
    intro x
    by_cases hx : x = a
    · subst hx
      exact ⟨q, Function.update_self ..⟩
    · exact ⟨(m.screenNode x).currentPosition, Function.update_of_ne hx _ _⟩
  refine h.congr rfl (fun x _ => ?_) (fun x _ => ?_) (fun x _ => ?_) h.focus h.owns
  · obtain ⟨q', heq⟩ := hnode x
    dsimp only
    rw [heq]
    exact ⟨rfl, rfl⟩
  · obtain ⟨q', heq⟩ := hnode x
    unfold Machine.nextScreen
    dsimp only
    rw [heq]
  · obtain ⟨q', heq⟩ := hnode x
    unfold Machine.prevScreen
    dsimp only
    rw [heq]

/-- The characters in memory do not matter to the list. -/
theorem RepScreens.withVideo (h : RepScreens m xs others) (video : Video) :
    RepScreens { m with video } xs others :=
  h.congr rfl (fun _ _ => ⟨rfl, rfl⟩) (fun _ _ => rfl) (fun _ _ => rfl) h.focus h.owns

/-! ## Every call keeps the list

By cases on the call. The calls that draw change memory only, and the others are those of the
list. -/

/-- After a call: the list is a list, and of the kernel only the memory has changed. -/
structure Machine.Drawn (m : Machine) (others : List (Addr × Nat)) (m' : Machine) : Prop where
  kernel : m.SameKernel m'
  list : ∃ xs lost, RepScreens m' xs (lost ++ others)

theorem RepScreens.drawn (h : RepScreens m' xs others) (hkernel : m.SameKernel m') :
    m.Drawn others m' := ⟨hkernel, xs, [], h⟩

theorem Machine.Drawn.trans (h : m.Drawn others m₁)
    (h' : ∀ {xs lost}, RepScreens m₁ xs (lost ++ others) → m₁.Drawn (lost ++ others) m') :
    m.Drawn others m' := by
  obtain ⟨hkernel, xs, lost, hrep⟩ := h
  obtain ⟨hkernel', xs', lost', hrep'⟩ := h' hrep
  rw [← List.append_assoc] at hrep'
  exact ⟨hkernel.trans hkernel', xs', _, hrep'⟩

namespace RepScreens

variable {fuel : Nat}

theorem drawn_getCurrentScreenNode (h : RepScreens m xs others)
    (hcur : getCurrentPid m.kernel = .ok pid) (hpid : 0 ≤ pid) {a : Addr}
    (hrun : BasicKernel.getCurrentScreenNode fuel m = .ok (a, m')) : m.Drawn others m' := by
  obtain ⟨_, _, xs', lost, hreturns, hkernel, hrep⟩ := h.getCurrentScreenNode hcur hpid
  obtain ⟨-, rfl⟩ := Prod.mk.inj (hreturns.eq hrun)
  exact ⟨hkernel, xs', lost, hrep⟩

/-- `getCurrentScreen`, or `getCurrentScreenPosition`: a field of the node. -/
theorem drawn_currentField (h : RepScreens m xs others) (hcur : getCurrentPid m.kernel = .ok pid)
    (hpid : 0 ≤ pid) {field : ScreenNode → Addr} {a : Addr}
    (hrun : (do
      let (node, m) ← BasicKernel.getCurrentScreenNode fuel m
      if node = NULL then
        return (NULL, m)
      return (field (← load m.screenNode node), m)) = .ok (a, m')) : m.Drawn others m' := by
  obtain ⟨⟨node, m₁⟩, hnode, hrun⟩ := bind_eq_ok.mp hrun
  have hdrawn := h.drawn_getCurrentScreenNode hcur hpid hnode
  dsimp only at hrun
  split at hrun
  · obtain ⟨-, rfl⟩ := Prod.mk.inj (Except.ok.inj hrun)
    exact hdrawn
  · obtain ⟨n, -, hrun⟩ := bind_eq_ok.mp hrun
    obtain ⟨-, rfl⟩ := Prod.mk.inj (Except.ok.inj hrun)
    exact hdrawn

theorem drawn_setCurrentScreenPosition (h : RepScreens m xs others)
    (hcur : getCurrentPid m.kernel = .ok pid) (hpid : 0 ≤ pid) {p : Addr}
    (hrun : BasicKernel.setCurrentScreenPosition fuel m p = .ok m') : m.Drawn others m' := by
  obtain ⟨⟨node, m₁⟩, hnode, hrun⟩ := bind_eq_ok.mp hrun
  refine (h.drawn_getCurrentScreenNode hcur hpid hnode).trans fun hrep => ?_
  by_cases hnull : node = NULL
  · subst hnull
    dsimp only at hrun
    unfold Machine.modifyScreenNode at hrun
    rw [modify_null, error_bind] at hrun
    cases hrun
  · dsimp only at hrun
    rw [Machine.modifyScreenNode_of_ne hnull] at hrun
    obtain rfl := Except.ok.inj hrun
    exact (hrep.setCursor node p).drawn ⟨rfl, rfl⟩

theorem drawn_write (h : RepScreens m xs others) (hcur : getCurrentPid m.kernel = .ok pid)
    (hpid : 0 ≤ pid) {buf : List UInt8} {i : Nat}
    (hrun : BasicKernel.write fuel m buf = .ok (i, m')) : m.Drawn others m' := by
  obtain ⟨onFocus, -, hrun⟩ := bind_eq_ok.mp hrun
  cases onFocus with
  | true =>
      obtain ⟨-, rfl⟩ := Prod.mk.inj (Except.ok.inj hrun)
      exact (h.withVideo _).drawn ⟨rfl, rfl⟩
  | false =>
      obtain ⟨⟨myScreen, m₁⟩, hscreen, hrun⟩ := bind_eq_ok.mp hrun
      obtain ⟨⟨myScreenPos, m₂⟩, hpos, hrun⟩ := bind_eq_ok.mp hrun
      obtain ⟨m₃, hset, hrun⟩ := bind_eq_ok.mp hrun
      obtain ⟨-, rfl⟩ := Prod.mk.inj (Except.ok.inj hrun)
      have hdrawn₁ := h.drawn_currentField hcur hpid hscreen
      have hcur₁ := hdrawn₁.kernel.getCurrentPid.trans hcur
      refine hdrawn₁.trans fun hrep₁ => ?_
      have hdrawn₂ := hrep₁.drawn_currentField hcur₁ hpid hpos
      have hcur₂ := hdrawn₂.kernel.getCurrentPid.trans hcur₁
      refine hdrawn₂.trans fun hrep₂ => ?_
      have hvideo := hrep₂.withVideo (writeTo myScreen { m₂.video with myScreenPos } buf).2
      exact (hvideo.drawn ⟨rfl, rfl⟩).trans fun hrep =>
        hrep.drawn_setCurrentScreenPosition hcur₂ hpid hset

/-- Every call keeps the list of screens in order. -/
theorem drawn_run (h : RepScreens m xs others) {op : MachineOp} (hop : op.Asked m)
    (hrun : op.run fuel m = .ok m') : m.Drawn others m' := by
  -- One case for each call, with what it does to the list.
  cases op with
  | loadScreen pid =>
      obtain ⟨⟨r, m₂⟩, hload, hrun⟩ := bind_eq_ok.mp hrun
      obtain rfl := Except.ok.inj hrun
      rcases h.loadScreen hop with
        ⟨m₀, xs', x, m₁, hensured, -, hsaved, hreturns, hrep⟩ | ⟨m₁, hrefused, -, hreturns, hrep⟩
      · obtain ⟨-, rfl⟩ := Prod.mk.inj (hreturns.eq hload)
        have hkernel : (m₁.display x pid).kernel = m₀.kernel := hsaved.kernel
        exact hrep.drawn (hensured.sameKernel.trans (.of_eq hkernel))
      · obtain ⟨-, rfl⟩ := Prod.mk.inj (hreturns.eq hload)
        exact hrep.drawn hrefused.sameKernel
  | removeScreen pid =>
      rcases h.removeScreen pid with
        ⟨A, c, B, memory, -, -, hinit, hreturns, hrep⟩ | ⟨-, hreturns, hrep⟩
      · obtain rfl := hreturns.eq hrun
        exact hrep.drawn ⟨rfl, hinit⟩
      · obtain rfl := hreturns.eq hrun
        exact hrep.drawn ⟨rfl, rfl⟩
  | loadNextScreen =>
      obtain ⟨m₁, hreturns, hswitched, hrep⟩ := h.loadNextScreen
      obtain rfl := hreturns.eq hrun
      exact hrep.drawn (.of_eq hswitched.kernel)
  | loadPreviousScreen =>
      obtain ⟨m₁, hreturns, hswitched, hrep⟩ := h.loadPreviousScreen
      obtain rfl := hreturns.eq hrun
      exact hrep.drawn (.of_eq hswitched.kernel)
  | write buf =>
      obtain ⟨pid, hpid, hcur⟩ := hop
      obtain ⟨⟨i, m₁⟩, hwrite, hrun⟩ := bind_eq_ok.mp hrun
      obtain rfl := Except.ok.inj hrun
      exact h.drawn_write hcur hpid hwrite
  | clearScreen =>
      obtain rfl := Except.ok.inj hrun
      exact (h.withVideo _).drawn ⟨rfl, rfl⟩
  | ps i headerI =>
      obtain ⟨video, -, hrun⟩ := bind_eq_ok.mp hrun
      obtain rfl := Except.ok.inj hrun
      exact (h.withVideo _).drawn ⟨rfl, rfl⟩

end RepScreens

theorem Machine.Sane.run (h : m.Sane others) {op : MachineOp} (hop : op.Asked m) {fuel : Nat}
    (hrun : op.run fuel m = .ok m') : m'.Sane others := by
  obtain ⟨xs, lost, hrep⟩ := h.list
  obtain ⟨hkernel, xs', lost', hrep'⟩ := hrep.drawn_run hop hrun
  rw [← List.append_assoc] at hrep'
  exact ⟨⟨xs', _, hrep'⟩, hkernel.initMem.trans h.initMem⟩

/-- Boot: `memAllocatorInit` has run, there are no screens, and the cursor is where it starts. -/
def MachineStart (s : Machine × List (Addr × Nat)) : Prop :=
  ScreenStart s ∧ s.1.video.currentPosition = VIDEO

theorem Machine.Sane.start (h : MachineStart (m, others)) : m.Sane others := by
  obtain ⟨hrep, hinit⟩ := ScreenStart.rep h.1
  exact ⟨⟨[], [], hrep⟩, hinit⟩

theorem Machine.Sane.elsewhere (h : m.Sane others) {kernel : Kernel} {others' : List (Addr × Nat)}
    (hmem : AllocatorStep (m.kernel.memory, others) (kernel.memory, others')) :
    { m with kernel }.Sane others' := by
  obtain ⟨xs, lost, hrep⟩ := h.list
  have ho := hrep.owns
  rw [← List.append_assoc] at ho
  have ho' := ho.allocatorStep hmem
  rw [List.append_assoc] at ho'
  refine ⟨⟨xs, lost, ?_⟩, hmem.initMem.trans h.initMem⟩
  exact hrep.congr rfl (fun _ _ => ⟨rfl, rfl⟩) (fun _ _ => rfl) (fun _ _ => rfl) hrep.focus ho'

theorem Machine.Sane.of_reachable {Allowed : MachineOp → Machine → Prop}
    (h : Reachable MachineStart (MachineStep Allowed) (m, others)) : m.Sane others := by
  refine h.invariant (I := fun s => s.1.Sane s.2) (fun _ hs => .start hs) ?_
  rintro _ _ - hsane hstep
  cases hstep with
  | call hop _ hrun => exact hsane.run hop hrun
  | elsewhere hmem => exact hsane.elsewhere hmem

end BasicKernel
