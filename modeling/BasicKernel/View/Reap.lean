import BasicKernel.View.Dispatch
import BasicKernel.View.Free

set_option autoImplicit false

/-! # The removal of dead processes on a view

`removeDeadProcess` walks over the first `queueSize` nodes of the ring. It unlinks a dead node
through the node that it visited before, so a dead node right behind another one would be
unlinked from a node that is no longer in the ring.
-/

namespace BasicKernel

open Linked Keyed Fuel

/-- The process is not dead. -/
def ProcessView.alive (p : ProcessView) : Bool := p.val.state ≠ .DEAD

/-- What `removeDeadProcess` leaves: the dead among the first `queueSize` processes are gone. -/
def View.reap (V : View) : View :=
  { V with table := (V.table.take V.queueSize.toNat).filter ProcessView.alive ++
      V.table.drop V.queueSize.toNat }

/-- No two dead processes are neighbours. -/
def NoDeadNeighbours (ps : List ProcessView) : Prop := ps.IsChain fun p q => p.alive ∨ q.alive

/-! ## Stray stores

`freeThreadLibrary` begins with a store of eight bytes, `prev->next`, through a pointer that it never
set. Where those bytes are not in use the store does nothing. Anywhere else it damages what lies there:
a node of a ring, a lock, a static variable of the kernel. The nodes of the rings of threads are what
the walk over the dead processes itself depends on. -/

/-- The offset of `next` in a `threadLibrary`. -/
def NEXT_OFFSET : Nat := 8

/-- The bytes of the first store through the uninitialised pointer of `freeThreadLibrary` lie in the
block area, in no reserved page. -/
def Garbage.Harmless (garbage : Garbage) (k : Kernel) (c : ProcessView) : Prop :=
  0 < c.val.threadSize → garbage.pointer c ≠ NULL ∧
    ∀ i : Nat, i < 8 → k.Unreserved (garbage.pointer c + NEXT_OFFSET + i)

/-- The store hits none of the kernel's thread nodes. -/
def Garbage.Spares (garbage : Garbage) (V : View) (c : ProcessView) : Prop :=
  0 < c.val.threadSize → garbage.pointer c ≠ NULL ∧
    ∀ p ∈ V.table, garbage.pointer c ∉ p.threads.map ThreadView.lib

/-- Every byte of an object of the kernel is reserved, so a store elsewhere hits no thread node. -/
theorem Rep.spares {k : Kernel} {V : View} {c : ProcessView} {garbage : Garbage} (hr : Rep k V)
    (h : garbage.Harmless k c) : garbage.Spares V c := by
  intro hpos
  obtain ⟨hne, hfree⟩ := h hpos
  refine ⟨hne, fun p hp hmem => ?_⟩
  obtain ⟨t, ht, hlib⟩ := List.mem_map.mp hmem
  have hused := (hr.owns.used_byte (a := garbage.pointer c + NEXT_OFFSET) (Rep.mem_blocks_lib hp ht)
    (by rw [hlib]; exact Nat.le_add_right _ _)
    (by rw [hlib]; exact Nat.add_lt_add_left (by decide : NEXT_OFFSET < PAGE_SIZE) _)).2
  have hunused := (hfree 0 (by decide)).2.2
  rw [Nat.add_zero, hused] at hunused
  cases hunused

namespace Rep

variable {k k' : Kernel} {V : View} {c d : ProcessView} {A B : List ProcessView}
  {garbage : Garbage}

/-- One dead node behind a living one is unlinked and freed. -/
theorem remove (hr : Rep k V) (hT : V.table = A ++ d :: c :: B)
    (hsize : c.val.threadSize ≤ c.threads.length) (hg : garbage.Spares V c) :
    ∃ k₁ k₂ k', k.modifySchedulerNode d.node (fun n => { n with next := k.nextNode c.node }) = .ok k₁ ∧
      k₁.schedulerNode = Function.update k.schedulerNode d.node
        { k.schedulerNode d.node with next := k.nextNode c.node } ∧
      Returns (freeProcess · garbage k₁ c.addr) k₂ ∧ k₂.deallocate c.node PAGE_SIZE = .ok k' ∧
      Rep k' { V with table := A ++ d :: B } ∧
      k'.process = k.process ∧ k'.schedulerNode = k₁.schedulerNode := by
  have hc : c ∈ V.table := by rw [hT]; simp
  have hd : d ∈ V.table := by rw [hT]; simp
  -- the other processes are not `c`, so their pages are not given back
  have hrest : ∀ p ∈ A ++ d :: B, p ∈ V.table ∧ p ≠ c := by
    have hnd : V.table.Nodup := hr.queue.nodup.of_map
    rw [hT, ← List.singleton_append, ← List.append_assoc] at hnd
    intro p hp
    have hmem : p ∈ V.table := by
      rw [hT]
      simp only [List.mem_append, List.mem_cons] at hp ⊢
      tauto
    refine ⟨hmem, ?_⟩
    rintro rfl
    have := (List.nodup_cons.mp (List.nodup_middle.mp hnd)).1
    simp only [List.mem_append, List.mem_cons, List.not_mem_nil, or_false] at hp this
    tauto
  let nodes := Function.update k.schedulerNode d.node
    { k.schedulerNode d.node with next := k.nextNode c.node }
  let k₁ : Kernel := { k with schedulerNode := nodes }
  have hproc : ∀ n, (nodes n).process = (k.schedulerNode n).process := by
    intro n
    by_cases hn : n = d.node
    · subst hn; simp [nodes]
    · simp [nodes, hn]
  have hmod : k.modifySchedulerNode d.node (fun n => { n with next := k.nextNode c.node })
      = .ok k₁ := by
    simp [Kernel.modifySchedulerNode, modify, (hr.processes d hd).node_ne, k₁, nodes]
  let V' : View := { V with table := A ++ d :: B }
  -- the pages of `c` come first
  have hperm : V.blocks.Perm (c.blocks ++ V'.blocks) := by
    simp only [View.blocks, hT, V', List.flatMap_append, List.flatMap_cons, List.append_assoc]
    refine (List.Perm.append_left _ ?_).trans (List.perm_append_comm_assoc ..)
    exact List.perm_append_comm_assoc ..
  have howns : Owns k₁.memory (c.freedBlocks ++ ((c.node, PAGE_SIZE) :: V'.blocks)) := by
    have := (hr.owns.perm hperm).sublist (c.freedBlocks_sublist.append (List.Sublist.refl V'.blocks))
    simpa using this
  have hrc : RepProcess k₁ c := (hr.processes c hc).congr (hproc _) rfl (fun _ _ => rfl)
    (fun _ _ => rfl) fun _ _ => rfl
  obtain ⟨m, libs, hfree, ho, hframe⟩ := freeProcess_spec hrc hsize (fun h => (hg h).1)
    (fun h => (hg h).2 c hc) howns
  obtain ⟨m', hdealloc, ho', -⟩ := ho.deallocate
    (k := { k₁.released m libs with processes := k.processes.erase c.addr })
  refine ⟨k₁, _, { k₁.released m' libs with processes := k.processes.erase c.addr }, hmod, rfl,
    hfree, hdealloc, ?_, rfl, rfl⟩
  · refine ⟨?_, ?_, hr.current, hr.ticks, hr.queueSize, hr.nextPid,
      hr.mutexes.congr (fun _ _ => rfl) fun _ _ _ _ => rfl, hr.mutexCounter,
      hr.semaphores.congr (fun _ _ => rfl) fun _ _ _ _ => rfl, hr.semaphoreCounter, ho', ?_,
      hr.freedOnce⟩
    -- the ring is linked around the node of `c`
    · have hring := hr.queue
      simp only [hT, List.map_append, List.map_cons] at hring ⊢
      have hnext : Kernel.nextNode { k₁.released m' libs with
          processes := k.processes.erase c.addr }
          = Function.update k.nextNode d.node (k.nextNode c.node) := by
        funext n
        by_cases hn : n = d.node
        · subst hn; simp [Kernel.nextNode, Kernel.released, k₁, nodes]
        · simp [Kernel.nextNode, Kernel.released, k₁, nodes, hn]
      rw [hnext]
      exact hring.remove
    -- the store of `freeThreadLibrary` hits no node of another process: `hg`
    · intro p hp
      obtain ⟨hmem, hpc⟩ := hrest p hp
      refine (hr.processes p hmem).congr (hproc _) rfl (fun t ht => hframe _ (fun h heq => ?_) ?_)
        (fun _ _ => rfl) fun _ _ => rfl
      · exact (hg h).2 p hmem (heq ▸ List.mem_map_of_mem ht)
      · intro hlib
        obtain ⟨u, hu, hut⟩ := List.mem_map.mp hlib
        exact hpc (hr.eq_of_lib hmem hc ht hu hut.symm).1
    · have hcreated : k.processes.Perm (c.addr :: (A ++ d :: B).map ProcessView.addr) := by
        refine hr.created.trans ?_
        simp only [hT, List.map_append, List.map_cons]
        refine (List.Perm.append_left _ (List.Perm.swap ..)).trans ?_
        exact List.perm_middle
      have := hcreated.erase c.addr
      rwa [List.erase_cons_head] at this

/-- The loop of `removeDeadProcess` at the first of the processes `todo`, with the processes
`D` behind it. -/
theorem removeDead (garbage : Garbage) : ∀ (todo : List ProcessView) {k : Kernel} {V : View}
    {D R : List ProcessView} {a b : Addr}, Rep k V → V.table = D ++ (todo ++ R) →
    (∀ p ∈ todo, p.val.threadSize ≤ p.threads.length) →
    (∀ p ∈ todo, p.alive = false → garbage.Spares V p) → NoDeadNeighbours todo →
    ((∃ d, D.getLast? = some d ∧ b = d.node) ∨ ∀ p, todo.head? = some p → p.alive) →
    (∀ p, todo.head? = some p → a = p.node) →
    ∃ k', Returns (fun fuel => BasicKernel.removeDead fuel garbage todo.length k a b) k' ∧
      Rep k' { V with table := D ++ (todo.filter ProcessView.alive ++ R) } ∧
      k'.process = k.process ∧
      ∀ n, n ∉ (D ++ (todo.filter ProcessView.alive ++ R)).map ProcessView.node →
        k'.schedulerNode n = k.schedulerNode n := by
  intro todo
  -- `D` are the processes that were passed and live; the last of them is `prev`
  induction todo with
  | nil =>
      intro k V D R a b hr hT _ _ _ _ _
      refine ⟨k, Returns.const _ _, ?_, rfl, fun _ _ => rfl⟩
      have hV : { V with table := D ++ ([].filter ProcessView.alive ++ R) } = V := by
        rw [List.filter_nil, ← hT]
      rw [hV]
      exact hr
  | cons c todo ih =>
      intro k V D R a b hr hT hsize hg hchain hprev hcur
      obtain rfl := hcur c rfl
      have hc : c ∈ V.table := by rw [hT]; simp
      have hrc := hr.processes c hc
      have hload : load k.schedulerNode c.node = .ok ⟨c.addr, k.nextNode c.node⟩ := by
        rw [load_of_ne hrc.node_ne, ← hrc.process]
        rfl
      -- the successor of `c` in the ring is the next process of the list
      have hnext : ∀ p, todo.head? = some p → k.nextNode c.node = p.node := by
        intro p hp
        obtain ⟨ps, rfl⟩ : ∃ ps, todo = p :: ps := by
          cases todo with
          | nil => cases hp
          | cons q qs => exact ⟨qs, by simpa using hp⟩
        have hring := hr.queue
        simp only [hT, List.cons_append, List.map_append, List.map_cons] at hring
        exact hring.next_eq
      cases halive : c.alive with
      -- a process that lives is passed
      | true =>
          have hstate : c.val.state ≠ .DEAD := by simpa [ProcessView.alive] using halive
          obtain ⟨k', hret, hr', hproc, hframe⟩ := ih (D := D ++ [c]) (R := R) (b := c.node) hr
            (by simpa using hT) (fun p hp => hsize p (by simp [hp]))
            (fun p hp => hg p (by simp [hp])) hchain.tail (.inl ⟨c, by simp, rfl⟩) hnext
          have hfilter : (D ++ [c]) ++ (todo.filter ProcessView.alive ++ R)
              = D ++ ((c :: todo).filter ProcessView.alive ++ R) := by
            simp [halive]
          rw [hfilter] at hr' hframe
          refine ⟨k', ?_, hr', hproc, hframe⟩
          simp only [List.length_cons, BasicKernel.removeDead, hload, hrc.load_process, ok_bind,
            hstate, if_false, pure_eq_ok]
          exact hret
      | false =>
          have hstate : c.val.state = .DEAD := by simpa [ProcessView.alive] using halive
          -- the next one lives, so the freed node is never the one that a removal stores into
          have halive' : ∀ p, todo.head? = some p → p.alive := by
            intro p hp
            cases todo with
            | nil => cases hp
            | cons q qs =>
                obtain rfl : q = p := by simpa using hp
                have := (List.isChain_cons_cons.mp hchain).1
                simpa [halive] using this
          obtain ⟨d, hd, rfl⟩ := hprev.resolve_right fun h => by
            have := h c rfl
            rw [halive] at this
            cases this
          obtain ⟨A, rfl⟩ := List.getLast?_eq_some_iff.mp hd
          have hT' : V.table = A ++ d :: c :: (todo ++ R) := by simpa using hT
          obtain ⟨k₁, k₂', k₂, hmod, hnodes, hfree, hdealloc, hr₂, hproc₂, hnodes₂⟩ :=
            hr.remove hT' (hsize c (by simp)) (hg c (by simp) halive)
          have hcd : c.node ≠ d.node := by
            have hnd := hr.queue.nodup
            simp only [hT', List.map_append, List.map_cons] at hnd
            intro h
            have := (List.nodup_append.mp hnd).2.1
            rw [h] at this
            exact (List.nodup_cons.mp this).1 List.mem_cons_self
          -- the node of `c` is read before and after its page is given back, and holds the same
          have hload₁ : load k₁.schedulerNode c.node = .ok ⟨c.addr, k.nextNode c.node⟩ := by
            rw [hnodes, load_of_ne hrc.node_ne, Function.update_of_ne hcd, ← hrc.process]
            rfl
          have hload₂ : load k₂.schedulerNode c.node = .ok ⟨c.addr, k.nextNode c.node⟩ := by
            rw [hnodes₂]
            exact hload₁
          have hsub : ∀ p ∈ A ++ d :: (todo ++ R), p ∈ V.table := by
            intro p hp
            rw [hT']
            simp only [List.mem_append, List.mem_cons] at hp ⊢
            tauto
          obtain ⟨k', hret, hr', hproc, hframe⟩ := ih (D := A ++ [d]) (R := R) (b := c.node) hr₂
            (by simp) (fun p hp => hsize p (by simp [hp]))
            (fun p hp hdead hpos => ⟨(hg p (by simp [hp]) hdead hpos).1,
              fun q hq => (hg p (by simp [hp]) hdead hpos).2 q (hsub q hq)⟩)
            hchain.tail (.inr halive') hnext
          · have hfilter : (c :: todo).filter ProcessView.alive = todo.filter ProcessView.alive := by
              simp [halive]
            rw [hfilter]
            refine ⟨k', ?_, hr', hproc.trans hproc₂, fun n hn => ?_⟩
            · simp only [List.length_cons, BasicKernel.removeDead, hload, hrc.load_process, ok_bind,
                hstate, if_true, hmod, hload₁]
              refine hfree.bind ?_
              simp only [hdealloc, hload₂, ok_bind]
              exact hret
            · have hnd : n ≠ d.node := by
                rintro rfl
                exact hn (List.mem_map_of_mem (by simp))
              rw [hframe n hn, hnodes₂, hnodes, Function.update_of_ne hnd]

end Rep

end BasicKernel
