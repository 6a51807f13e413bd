import BasicKernel.View.Script

set_option autoImplicit false

/-! # The heap of a process

`pmalloc` and `pfree` keep a list of the blocks of the current process. `addHeap` never writes the field
`next` of a new node, so the end of the list is what the page of the node held before.

`user_heap_contract` is about runs whose nodes are clean in this place: then the blocks of the
list are those that were given out and not freed, each with its size. `reused_node_ring` is a run
in which a node is used again and makes the list a ring.
-/

namespace BasicKernel

open Linked Keyed Fuel Transition

/-- A kernel, and the blocks that its current process was given and has not freed, each with the number of
bytes that it asked for. -/
structure HeapRun where
  kernel : Kernel
  live : List (Addr × Int)

/-- `nodes` are the nodes of the heap list of the current process. -/
def Kernel.HeapNodes (k : Kernel) (nodes : List Addr) : Prop :=
  ∃ process, k.currentProcessNode = .ok process ∧ heapLink.IsList k (k.process process).heap nodes

/-- The block that a node stands for. -/
def Kernel.heapBlock (k : Kernel) (node : Addr) : Addr × Int :=
  ((k.heapNode node).address, (k.heapNode node).size)

/-- The process has asked for nothing. -/
def HeapRun.AtStart (s : HeapRun) : Prop :=
  (∃ V, Rep s.kernel V ∧ V.Ok) ∧ s.kernel.HeapNodes [] ∧ s.live = []

/-- The page of the new list node has a null pointer in the place of the field `next`. -/
def Kernel.CleanHeapNode (k : Kernel) (nBytes : Int) : Prop :=
  ∀ mem k₁, k.allocate (toUInt64 nBytes) = .ok (mem, k₁) →
    ∀ node k₂, k₁.allocate HEAP_NODE_SIZE = .ok (node, k₂) → (k.heapNode node).next = NULL

/-- A call of `pmalloc` that is given its pages and meets the condition `C`, a call of `pfree` with any
pointer, or new content of the free pages. A call that is refused the page of the node does not return. -/
inductive HeapStep (C : Kernel → Int → Prop) : HeapRun → HeapRun → Prop
  | pmalloc {s : HeapRun} {fuel : Nat} {nBytes : Int} {mem : Addr} {k' : Kernel} :
      0 < nBytes → nBytes < 2 ^ 31 → C s.kernel nBytes → pmalloc fuel s.kernel nBytes = .ok (mem, k') →
      mem ≠ NULL → HeapStep C s ⟨k', s.live ++ [(mem, nBytes)]⟩
  | pfree {s : HeapRun} {fuel : Nat} {mem : Addr} {k' : Kernel} : pfree fuel s.kernel mem = .ok k' →
      HeapStep C s ⟨k', s.live.eraseP (·.1 = mem)⟩
  | recycle {s : HeapRun} {k' : Kernel} : Recycled s.kernel k' → HeapStep C s ⟨k', s.live⟩

/-- What the heap of a process promises. -/
structure HeapRun.Fine (s : HeapRun) : Prop where
  /-- The list holds the live blocks, and `pfree` of one of them releases its pages and the page of its
  node. -/
  list : ∃ nodes, s.kernel.HeapNodes nodes ∧ nodes.map s.kernel.heapBlock = s.live ∧
    ∀ node ∈ nodes, ∃ k', Returns (pfree · s.kernel (s.kernel.heapBlock node).1) k' ∧
      usedBlocks k'.memory = (usedBlocks s.kernel.memory \
        extent s.kernel.memory ((s.kernel.heapBlock node).1, toUInt64 (s.kernel.heapBlock node).2)) \
        extent s.kernel.memory (node, HEAP_NODE_SIZE)
  once : (s.live.map Prod.fst).Nodup
  other : ∀ mem, (∀ b ∈ s.live, b.1 ≠ mem) → Returns (pfree · s.kernel mem) s.kernel

/-! ## The blocks of a view

The heap of the current process as the view has it: nodes in their order, and the blocks that they
stand for. -/

def HeapView.entry (b : HeapView) : Addr × Int := (b.address, b.size)

/-- The view of a heap run. -/
def HeapRun.Shows (s : HeapRun) (V : View) (c : ProcessView) : Prop :=
  Rep s.kernel V ∧ V.Ok ∧ c ∈ V.table ∧ c.node = V.current ∧ c.heap.map HeapView.entry = s.live

variable {k k' : Kernel} {V : View} {c : ProcessView} {s : HeapRun} {fuel : Nat}

theorem addresses_sublist (hs : List HeapView) :
    (hs.map HeapView.address).Sublist ((hs.flatMap HeapView.blocks).map Prod.fst) := by
  induction hs with
  | nil => exact List.Sublist.refl _
  | cons b hs ih =>
      have htail : (hs.map HeapView.address).Sublist
          (b.addr :: (hs.flatMap HeapView.blocks).map Prod.fst) := ih.cons b.addr
      simpa [HeapView.blocks] using htail

/-- No two blocks of a process have the same address. -/
theorem Rep.addresses_nodup (hr : Rep k V) (hc : c ∈ V.table) : (c.heap.map HeapView.address).Nodup := by
  obtain ⟨rest, hperm, -⟩ := hr.set_setHeap_blocks hc
  have hown : Owns k.memory (c.heap.flatMap HeapView.blocks) :=
    (hr.owns.perm hperm).sublist (List.sublist_append_left _ _)
  exact hown.nodup_fst.sublist (addresses_sublist c.heap)

/-- The pages of a block and of its node are owned. -/
theorem Rep.owns_heap (hr : Rep k V) (hc : c ∈ V.table) {A B : List HeapView} {b : HeapView}
    (hheap : c.heap = A ++ b :: B) :
    ∃ rest, Owns k.memory ((b.address, toUInt64 b.size) :: (b.addr, HEAP_NODE_SIZE) :: rest) := by
  obtain ⟨rest, hperm, -⟩ := hr.set_setHeap_blocks hc
  refine ⟨(A ++ B).flatMap HeapView.blocks ++ rest, hr.owns.perm (hperm.trans ?_)⟩
  rw [hheap]
  have hmiddle : (A ++ b :: B).Perm (b :: (A ++ B)) := List.perm_middle
  exact (hmiddle.flatMap_right HeapView.blocks).append_right rest

theorem RepHeap.heapBlock {b : HeapView} (h : RepHeap k b) : k.heapBlock b.addr = b.entry := by
  unfold Kernel.heapBlock HeapView.entry
  rw [h.address, h.size]

/-! ## The steps

`pmalloc` appends a node and `pfree` takes out the one whose block is named, or none. -/

/-- `pmalloc` returns what it was given for the block. -/
theorem pmalloc_result {nBytes : Int} {a mem : Addr} {k₁ : Kernel}
    (hall : k.allocate (toUInt64 nBytes) = .ok (a, k₁))
    (h : pmalloc fuel k nBytes = .ok (mem, k')) : a = mem := by
  unfold pmalloc at h
  rw [hall, ok_bind] at h
  obtain ⟨pid, -, h⟩ := bind_eq_ok.mp h
  obtain ⟨current, -, h⟩ := bind_eq_ok.mp h
  obtain ⟨p, -, h⟩ := bind_eq_ok.mp h
  obtain ⟨⟨heap, k₂⟩, -, h⟩ := bind_eq_ok.mp h
  obtain ⟨k₃, -, h⟩ := bind_eq_ok.mp h
  exact congrArg Prod.fst (Except.ok.inj h)

namespace HeapRun.Shows

theorem of_start (h : s.AtStart) : ∃ V c, s.Shows V c := by
  obtain ⟨⟨V, hr, hok⟩, ⟨process, hprocess, hlist⟩, hlive⟩ := h
  obtain ⟨c, hc, hcur⟩ := hok.current
  have hrc := hr.processes c hc
  have heq := (hr.currentProcessNode hc hcur).symm.trans hprocess
  obtain rfl := Except.ok.inj heq
  rw [hrc.val] at hlist
  have hempty : c.heap = [] := List.map_eq_nil_iff.mp (hrc.heap.unique hlist)
  refine ⟨V, c, hr, hok, hc, hcur, ?_⟩
  rw [hempty, hlive]
  rfl

theorem recycle (h : s.Shows V c) (hrec : Recycled s.kernel k') : HeapRun.Shows ⟨k', s.live⟩ V c :=
  ⟨h.1.recycled hrec, h.2⟩

/-- A new block goes to the end of the list. -/
theorem pmalloc (h : s.Shows V c) {nBytes : Int} {mem : Addr} (hpos : 0 < nBytes) (hint : nBytes < 2 ^ 31)
    (hclean : s.kernel.CleanHeapNode nBytes)
    (hrun : BasicKernel.pmalloc fuel s.kernel nBytes = .ok (mem, k')) (hne : mem ≠ NULL) :
    ∃ V' c', HeapRun.Shows ⟨k', s.live ++ [(mem, nBytes)]⟩ V' c' := by
  obtain ⟨hr, hok, hc, hcur, hlive⟩ := h
  have hbytes : 1 ≤ toUInt64 nBytes ∧ toUInt64 nBytes < 2 ^ 31 := by
    have := toUInt64_of_bounds (show 0 ≤ nBytes by omega) (show nBytes < 2 ^ 64 by omega)
    omega
  have hpages : CleanHeap s.kernel nBytes := by
    intro a k₁ hall
    refine ⟨?_, hclean a k₁ hall⟩
    rwa [pmalloc_result hall hrun]
  obtain ⟨d, hd, hdcur, b, hmem, hsize, hr', hok'⟩ := hr.pmalloc_inv hok hbytes hpages hrun
  obtain rfl := hr.eq_of_node hd hc (hdcur.trans hcur.symm)
  refine ⟨_, _, hr', hok', View.mem_set hd _, hcur, ?_⟩
  show (d.heap ++ [b]).map HeapView.entry = s.live ++ [(mem, nBytes)]
  rw [List.map_append, hlive, List.map_singleton, HeapView.entry, hmem, hsize]

theorem pfree (h : s.Shows V c) {mem : Addr} (hrun : BasicKernel.pfree fuel s.kernel mem = .ok k') :
    ∃ V' c', HeapRun.Shows ⟨k', s.live.eraseP (·.1 = mem)⟩ V' c' := by
  obtain ⟨hr, hok, hc, hcur, hlive⟩ := h
  obtain ⟨d, hd, hdcur, hcase⟩ := hr.pfree_inv hok hrun
  obtain rfl := hr.eq_of_node hd hc (hdcur.trans hcur.symm)
  rcases hcase with ⟨hnone, rfl⟩ | ⟨A, b, B, hheap, hb, -, hr', hok'⟩
  · refine ⟨V, d, hr, hok, hd, hcur, ?_⟩
    have hskip : s.live.eraseP (·.1 = mem) = s.live := by
      apply List.eraseP_of_forall_not
      rw [← hlive]
      intro x hx
      obtain ⟨b, hb, rfl⟩ := List.mem_map.mp hx
      exact fun heq => hnone b hb (of_decide_eq_true heq)
    rw [hskip]
    exact hlive
  · refine ⟨_, _, hr', hok', View.mem_set hd _, hcur, ?_⟩
    show (A ++ B).map HeapView.entry = s.live.eraseP (·.1 = mem)
    -- the blocks before `b` have other addresses
    have hnodup := hr.addresses_nodup hd
    rw [hheap, List.map_append, List.map_cons] at hnodup
    have hbefore : ∀ x ∈ A.map HeapView.entry, ¬ decide (x.1 = mem) = true := by
      intro x hx heq
      obtain ⟨a, ha, rfl⟩ := List.mem_map.mp hx
      refine (List.nodup_append.mp hnodup).2.2 _ (List.mem_map_of_mem ha) b.address
        List.mem_cons_self ?_
      exact (of_decide_eq_true heq).trans hb.symm
    have hfirst : decide (b.entry.1 = mem) = true := decide_eq_true hb
    rw [← hlive, hheap, List.map_append, List.map_append, List.map_cons,
      List.eraseP_append_right _ hbefore, List.eraseP_cons, hfirst]
    rfl

/-- What a step shows is a heap again. -/
theorem step {s' : HeapRun} (h : s.Shows V c) (hstep : HeapStep Kernel.CleanHeapNode s s') :
    ∃ V' c', s'.Shows V' c' := by
  cases hstep with
  | pmalloc hpos hint hclean hrun hne => exact h.pmalloc hpos hint hclean hrun hne
  | pfree hrun => exact h.pfree hrun
  | recycle hrec => exact ⟨V, c, h.recycle hrec⟩

/-! ## The contract

The invariant is that the list of the kernel is the list of the run. All promises are read
off it. -/

theorem fine (h : s.Shows V c) : s.Fine := by
  obtain ⟨hr, hok, hc, hcur, hlive⟩ := h
  have hrc := hr.processes c hc
  refine ⟨⟨c.heap.map HeapView.addr, ⟨c.addr, hr.currentProcessNode hc hcur, ?_⟩, ?_, ?_⟩, ?_, ?_⟩
  · rw [hrc.val]
    exact hrc.heap
  · rw [← hlive, List.map_map]
    exact List.map_congr_left fun b hb => (hrc.blocks b hb).heapBlock
  -- freeing a block of the list gives back its bytes and its node
  · intro node hnode
    obtain ⟨b, hb, rfl⟩ := List.mem_map.mp hnode
    rw [(hrc.blocks b hb).heapBlock]
    obtain ⟨d, hd, hdcur, k', hret, hcase⟩ := hr.pfree_spec hok b.address
    obtain rfl := hr.eq_of_node hd hc (hdcur.trans hcur.symm)
    rcases hcase with ⟨hnone, -⟩ | ⟨A, b', B, hheap, hb', ⟨k₁, k₂, hd₁, hd₂, hmemory⟩, -⟩
    · exact absurd rfl (hnone b hb)
    have hmem : b' ∈ d.heap := by
      rw [hheap]
      exact List.mem_append_right _ List.mem_cons_self
    obtain rfl := List.inj_on_of_nodup_map (hr.addresses_nodup hd) hmem hb hb'
    obtain ⟨rest, hown⟩ := hr.owns_heap hd hheap
    obtain ⟨m, hm, hown', hinit⟩ := hown.deallocate
    rw [hd₁] at hm
    obtain rfl := Except.ok.inj hm
    refine ⟨k', hret, ?_⟩
    have hextent : extent m = extent s.kernel.memory := by
      funext x
      rw [extent, extent, firstBlock, firstBlock, hinit]
    rw [hmemory, hown'.used_deallocate hd₂, hown.used_deallocate hd₁, hextent]
    rfl
  · rw [← hlive, List.map_map]
    exact hr.addresses_nodup hc
  -- freeing any other address changes nothing
  · intro mem hmem
    obtain ⟨d, hd, hdcur, k', hret, hcase⟩ := hr.pfree_spec hok mem
    obtain rfl := hr.eq_of_node hd hc (hdcur.trans hcur.symm)
    rcases hcase with ⟨-, rfl⟩ | ⟨A, b, B, hheap, hb, -⟩
    · exact hret
    · have hlisted : b.entry ∈ s.live := by
        rw [← hlive, hheap]
        exact List.mem_map_of_mem (List.mem_append_right _ List.mem_cons_self)
      exact absurd hb (hmem _ hlisted)

end HeapRun.Shows

/-- In every run of served calls on clean nodes the heap keeps its promise. -/
theorem user_heap_contract (h : Reachable HeapRun.AtStart (HeapStep Kernel.CleanHeapNode) s) : s.Fine := by
  obtain ⟨V, c, hshows⟩ : ∃ V c, s.Shows V c := by
    refine h.invariant (I := fun s => ∃ V c, s.Shows V c) (fun s hs => ?_) fun s s' _ hI hstep => ?_
    · exact HeapRun.Shows.of_start hs
    · obtain ⟨V, c, hshows⟩ := hI
      exact hshows.step hstep
  exact hshows.fine

/-! ### A node that is used again -/

/-- A list whose second node leads back to the first has no end. -/
theorem not_isList_of_ring {l : Link} {p : Addr} {nodes : List Addr} (hp : p ≠ NULL)
    (hnext : l.next k p ≠ NULL) (hring : l.next k (l.next k p) = p) : ¬ l.IsList k p nodes := by
  intro hlist
  cases nodes with
  | nil => exact hp (Chain.nil_iff.mp hlist)
  | cons n nodes =>
      obtain ⟨rfl, -, hrest⟩ := Chain.cons_iff.mp hlist
      cases nodes with
      | nil => exact hnext (Chain.nil_iff.mp hrest)
      | cons n' nodes =>
          obtain ⟨rfl, -, hback⟩ := Chain.cons_iff.mp hrest
          rw [hring] at hback
          have hlength := congrArg List.length (hback.unique hlist)
          rw [List.length_cons, List.length_cons] at hlength
          omega

/-- Two blocks, the first of them freed, and one more block. -/
def reusedNode : Except Stop (Kernel × Kernel × Kernel × Kernel × Kernel × Addr × Addr × Addr) := do
  let k ← startKernel
  let (a, k₁) ← pmalloc 40 k 1
  let (b, k₂) ← pmalloc 40 k₁ 1
  let k₃ ← pfree 40 k₂ a
  let (c, k₄) ← pmalloc 40 k₃ 1
  return (k, k₁, k₂, k₃, k₄, a, b, c)

theorem reusedNode_states : (do
    let (k, _, _, _, k₄, a, b, c) ← reusedNode
    let process ← k.currentProcessNode
    let head := (k₄.process process).heap
    return decide (k₄.currentProcessNode = .ok process ∧ (k.process process).heap = NULL ∧ a ≠ NULL ∧
      b ≠ NULL ∧ c ≠ NULL ∧ head ≠ NULL ∧ (k₄.heapNode head).next ≠ NULL ∧
      (k₄.heapNode (k₄.heapNode head).next).next = head) : Except Stop Bool) = .ok true := by
  decide +kernel

/-- A process that was not yet run has an empty heap. -/
theorem HeapRun.atStart_of_start (h : startKernel = .ok k) {process : Addr}
    (hprocess : k.currentProcessNode = .ok process) (hheap : (k.process process).heap = NULL) :
    HeapRun.AtStart ⟨k, []⟩ := by
  obtain ⟨V, hr, hok, -⟩ := (booted_of_start h).rep
  exact ⟨⟨V, hr, hok⟩, ⟨process, hprocess, Chain.nil_iff.mpr hheap⟩, rfl⟩

/-- The node of the third block lies in the page of the first one, and still leads to the second. -/
theorem reused_node_ring : ¬ ∀ s, Reachable HeapRun.AtStart (HeapStep fun _ _ => True) s → s.Fine := by
  intro hclaim
  obtain ⟨r, hr, h⟩ := bind_eq_ok.mp reusedNode_states
  obtain ⟨k, hk, hr⟩ := bind_eq_ok.mp hr
  obtain ⟨⟨a, k₁⟩, hk₁, hr⟩ := bind_eq_ok.mp hr
  obtain ⟨⟨b, k₂⟩, hk₂, hr⟩ := bind_eq_ok.mp hr
  obtain ⟨k₃, hk₃, hr⟩ := bind_eq_ok.mp hr
  obtain ⟨⟨c, k₄⟩, hk₄, hr⟩ := bind_eq_ok.mp hr
  obtain rfl := Except.ok.inj hr
  obtain ⟨process, hprocess, h⟩ := bind_eq_ok.mp h
  obtain ⟨hsame, hempty, ha, hb, hc, hhead, hnext, hring⟩ := of_decide_eq_true (Except.ok.inj h)
  have hrun : Reachable HeapRun.AtStart (HeapStep fun _ _ => True) ⟨k, []⟩ :=
    .start (HeapRun.atStart_of_start hk hprocess hempty)
  have hrun₁ := hrun.next (.pmalloc Int.one_pos (by decide) trivial hk₁ ha)
  have hrun₂ := hrun₁.next (.pmalloc Int.one_pos (by decide) trivial hk₂ hb)
  have hrun₃ := hrun₂.next (.pfree hk₃)
  have hrun₄ := hrun₃.next (.pmalloc Int.one_pos (by decide) trivial hk₄ hc)
  obtain ⟨nodes, ⟨process', hprocess', hlist⟩, -⟩ := (hclaim _ hrun₄).list
  obtain rfl := Except.ok.inj (hsame.symm.trans hprocess')
  exact not_isList_of_ring hhead hnext hring hlist

/-- A test for `CleanHeapNode`. -/
def Kernel.cleanHeapNode? (k : Kernel) (nBytes : Int) : Bool :=
  match k.allocate (toUInt64 nBytes) with
  | .ok (_, k₁) => k₁.newPage HEAP_NODE_SIZE fun a => (k.heapNode a).next = NULL
  | .error _ => true

theorem Kernel.cleanHeapNode_of {nBytes : Int} (h : k.cleanHeapNode? nBytes) :
    k.CleanHeapNode nBytes := by
  intro mem k₁ hmem node k₂ hnode
  rw [cleanHeapNode?, hmem] at h
  exact of_decide_eq_true (Kernel.newPage_eq h hnode)

/-- The first block of a process. -/
def firstBlockOf : Except Stop (Kernel × Kernel × Addr) := do
  let k ← startKernel
  let (a, k₁) ← pmalloc 40 k 1
  return (k, k₁, a)

theorem firstBlockOf_states : (do
    let (k, _, a) ← firstBlockOf
    let process ← k.currentProcessNode
    return decide ((k.process process).heap = NULL ∧ a ≠ NULL ∧ k.cleanHeapNode? 1) :
      Except Stop Bool) = .ok true := by
  decide +kernel

theorem user_heap_contract_first_block : ∃ k k' mem, pmalloc 40 k 1 = .ok (mem, k') ∧
    HeapRun.Fine ⟨k', [(mem, 1)]⟩ := by
  obtain ⟨r, hr, h⟩ := bind_eq_ok.mp firstBlockOf_states
  obtain ⟨k, hk, hr⟩ := bind_eq_ok.mp hr
  obtain ⟨⟨a, k₁⟩, hk₁, hr⟩ := bind_eq_ok.mp hr
  obtain rfl := Except.ok.inj hr
  obtain ⟨process, hprocess, h⟩ := bind_eq_ok.mp h
  obtain ⟨hempty, ha, hclean⟩ := of_decide_eq_true (Except.ok.inj h)
  refine ⟨k, k₁, a, hk₁, ?_⟩
  exact user_heap_contract (.next (.start (HeapRun.atStart_of_start hk hprocess hempty))
    (.pmalloc Int.one_pos (by decide) (Kernel.cleanHeapNode_of hclean) hk₁ ha))

end BasicKernel
