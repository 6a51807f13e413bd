import BasicKernel.View.Pipes

set_option autoImplicit false

/-! # Heap blocks on a view

`pmalloc` appends a block to the list of the current process, `pfree` removes one. Both rebuild the list
by recursion, and both look up the caller first, who always exists. A block has two parts, the bytes that
the program gets and the node that records them, and they are reserved and freed together.
-/

namespace BasicKernel

open Linked Keyed Fuel

/-! ## The operations

Only the list of blocks of one process changes, and with it the pages that the process accounts
for. -/

/-- The process with the heap blocks `hs`. -/
def ProcessView.setHeap (hs : List HeapView) (p : ProcessView) : ProcessView :=
  { p with
    heap := hs
    val := { p.val with heap := (hs.head?.map HeapView.addr).getD NULL } }

theorem ProcessView.setHeap_blocks (p : ProcessView) (hs : List HeapView) :
    (p.setHeap hs).blocks.Perm (hs.flatMap HeapView.blocks ++
      (p.threads.flatMap ThreadView.blocks ++ [(p.addr, PAGE_SIZE), (p.node, PAGE_SIZE)])) := by
  simp only [blocks, setHeap, List.append_assoc]
  exact List.perm_append_comm_assoc ..

theorem ProcessView.Ok.setHeap {p : ProcessView} (h : p.Ok) (hs : List HeapView) :
    (p.setHeap hs).Ok := ⟨h.size_le, h.pthreads, h.pthread_lt, h.main⟩

/-- The pages of a new heap block: the request succeeds, and the page of its list node holds a null
pointer as `next`. -/
def CleanHeap (k : Kernel) (nBytes : Int) : Prop :=
  ∀ mem k₁, k.allocate (toUInt64 nBytes) = .ok (mem, k₁) → mem ≠ NULL ∧
    ∀ node k₂, k₁.allocate HEAP_NODE_SIZE = .ok (node, k₂) → (k.heapNode node).next = NULL

/-! ## They are what the code does

The recursion along the list is `Link`'s, whose lemmas say where the list changes. What is proved
here is that the caller is found and that the pages are accounted for afterwards. -/

/-- Only the successor of the last node changes. -/
theorem heapLink_linkLast (k : Kernel) (p n : Addr) (xs : List Addr) :
    (heapLink.linkLast p xs n k).2
        = { k with heapNode := (heapLink.linkLast p xs n k).2.heapNode } ∧
      (∀ x, (heapLink.linkLast p xs n k).2.heapNode x
        = { k.heapNode x with next := ((heapLink.linkLast p xs n k).2.heapNode x).next }) ∧
      ∀ x ∉ xs, (heapLink.linkLast p xs n k).2.heapNode x = k.heapNode x := by
  cases hlast : xs.getLast? with
  | none => simp [Link.linkLast, hlast]
  | some last =>
      have hmem := List.mem_of_getLast? hlast
      refine ⟨?_, fun x => ?_, fun x hx => ?_⟩
      · simp only [Link.linkLast, hlast, heapLink]
      · by_cases hxl : x = last
        · subst hxl
          simp [Link.linkLast, hlast, heapLink]
        · simp [Link.linkLast, hlast, heapLink, hxl]
      · have hxl : x ≠ last := by
          rintro rfl
          exact hx hmem
        simp [Link.linkLast, hlast, heapLink, hxl]

/-- The first node of a list. -/
theorem Link.IsList.first_eq {l : Link} {k : Kernel} {p : Addr} {xs : List Addr}
    (h : l.IsList k p xs) : p = xs.head?.getD NULL := by
  cases xs with
  | nil => exact Chain.nil_iff.mp h
  | cons x xs => exact (Chain.cons_iff.mp h).1

namespace Rep

variable {k k' : Kernel} {V : View} {c : ProcessView} {fuel : Nat}

theorem mem_blocks_heap {b : HeapView} (hc : c ∈ V.table) (hb : b ∈ c.heap) :
    (b.addr, HEAP_NODE_SIZE) ∈ V.blocks := by
  refine mem_blocks hc ?_
  simp only [ProcessView.blocks, List.mem_append, List.mem_flatMap]
  exact .inl (.inr ⟨b, hb, by simp [HeapView.blocks]⟩)

/-- The list of heap blocks of `c` changes, and nothing else does. -/
theorem withHeap (hr : Rep k V) (hc : c ∈ V.table) {hs : List HeapView} (first : Addr)
    (hlist : heapLink.IsList k' first (hs.map HeapView.addr)) (hblocks : ∀ b ∈ hs, RepHeap k' b)
    (hframe : ∀ q ∈ V.table, q ≠ c → ∀ b ∈ q.heap, k'.heapNode b.addr = k.heapNode b.addr)
    (hprocess : k'.process = Function.update k.process c.addr { c.val with heap := first })
    (hstat : k' = { k with
      memory := k'.memory, process := k'.process, heapNode := k'.heapNode })
    (ho : Owns k'.memory (V.set c (c.setHeap hs)).blocks) : Rep k' (V.set c (c.setHeap hs)) := by
  have hrc := hr.processes c hc
  have hval : { c.val with heap := first } = (c.setHeap hs).val := by
    rw [Link.IsList.first_eq hlist, List.head?_map]
    rfl
  -- the threads and their ring are in other stores
  have hnext : k'.nextLib = k.nextLib := by rw [hstat]; rfl
  have hthread : ∀ t, RepThread k t → RepThread k' t := fun t ht => by
    rw [hstat]
    exact ht.congr rfl rfl
  refine hr.replace hc rfl rfl ⟨hrc.node_ne, hrc.addr_ne, ?_, ?_, ?_, fun t ht => ?_, hrc.current,
    ?_, hblocks⟩ (fun q hq hqc => ?_) (by rw [hstat]) ho
  · rw [hstat]
    exact hrc.process
  · rw [hprocess, ← hval]
    exact Function.update_self ..
  · rw [hnext]
    exact hrc.ring
  · exact hthread t (hrc.threads t ht)
  · rw [← hval]
    exact hlist
  · refine (hr.processes q hq).congr ?_ ?_ (fun t _ => ?_) (fun t _ => ?_) (hframe q hq hqc)
    · rw [hstat]
    · rw [hprocess]
      exact Function.update_of_ne (fun h => hqc (hr.eq_of_addr hq hc h)) _ _
    · rw [hstat]
    · rw [hstat]

/-- The process that a heap call works on. -/
theorem heapCaller (hr : Rep k V) (hok : V.Ok) : ∃ c ∈ V.table, c.node = V.current ∧
    BasicKernel.getCurrentPid k = .ok c.val.pid ∧ load k.process c.addr = .ok c.val ∧
      ∀ {fuel a}, BasicKernel.getProcessWithPid fuel k c.val.pid = .ok a → a = c.addr := by
  obtain ⟨c, hc, hccur⟩ := hok.current
  exact ⟨c, hc, hccur, hr.getCurrentPid hc hccur, (hr.processes c hc).load_process,
    fun h => (hr.getProcessWithPid_of_mem hok.pids hc).eq h⟩

theorem set_setHeap_blocks (hr : Rep k V) (hc : c ∈ V.table) : ∃ rest,
    V.blocks.Perm (c.heap.flatMap HeapView.blocks ++ rest) ∧
      ∀ hs, (V.set c (c.setHeap hs)).blocks.Perm (hs.flatMap HeapView.blocks ++ rest) := by
  obtain ⟨rest, hV, hset⟩ := hr.blocks_perm hc
  refine ⟨c.threads.flatMap ThreadView.blocks ++ [(c.addr, PAGE_SIZE), (c.node, PAGE_SIZE)] ++ rest,
    hV.trans ?_, fun hs => (hset _).trans ?_⟩
  · rw [← List.append_assoc]
    exact (c.setHeap_blocks c.heap).append_right rest
  · rw [← List.append_assoc]
    exact (c.setHeap_blocks hs).append_right rest

/-- A call of `pmalloc` that returned, with recycled pages as `CleanHeap` says. -/
theorem pmalloc_inv (hr : Rep k V) (hok : V.Ok) {n : Int} {mem : Addr}
    (hn : 1 ≤ toUInt64 n ∧ toUInt64 n < 2 ^ 31) (hclean : CleanHeap k n)
    (h : BasicKernel.pmalloc fuel k n = .ok (mem, k')) :
    ∃ c ∈ V.table, c.node = V.current ∧ ∃ b : HeapView, b.address = mem ∧ b.size = n ∧
      Rep k' (V.set c (c.setHeap (c.heap ++ [b]))) ∧
      (V.set c (c.setHeap (c.heap ++ [b]))).Ok := by
  obtain ⟨c, hc, hccur, hpid, hload, hfind⟩ := hr.heapCaller hok
  obtain ⟨⟨mem', k₁⟩, hall, h⟩ := bind_eq_ok.mp h
  obtain ⟨hmem, hnext⟩ := hclean mem' k₁ hall
  rcases hr.owns.allocate _ hn.1 hn.2 with ⟨p, m₁, hall', -, ho₁⟩ | hnull
  -- `CleanHeap` excludes the call of `allocate` that fails
  swap
  · rw [hnull] at hall
    exact absurd (Prod.mk.inj (Except.ok.inj hall)).1.symm hmem
  rw [hall'] at hall
  obtain ⟨rfl, rfl⟩ := Prod.mk.inj (Except.ok.inj hall)
  have hr₁ : Rep { k with memory := m₁ } V :=
    hr.unseen rfl (ho₁.sublist (List.sublist_cons_self _ _))
  obtain ⟨pid, hpid', h⟩ := bind_eq_ok.mp h
  obtain rfl := Except.ok.inj (hpid.symm.trans hpid')
  obtain ⟨a, hget, h⟩ := bind_eq_ok.mp h
  obtain rfl := (hr₁.getProcessWithPid_of_mem hok.pids hc).eq hget
  -- `pmalloc` looks the caller up by its pid, and finds `c`
  simp only [hload, ok_bind] at h
  obtain ⟨⟨first, k₂⟩, hadd, h⟩ := bind_eq_ok.mp h
  have hlist : heapLink.IsList { k with memory := m₁ } c.val.heap (c.heap.map HeapView.addr) :=
    (hr₁.processes c hc).heap
  rw [BasicKernel.addHeap, addLast_spec hlist] at hadd
  swap
  · -- the new node is none of the old ones
    intro n k₂ hk x hx
    obtain ⟨⟨node, k₃⟩, hall₂, hk⟩ := bind_eq_ok.mp hk
    obtain ⟨b, hb, rfl⟩ := List.mem_map.mp hx
    rcases ho₁.allocate (k := { k with memory := m₁ }) HEAP_NODE_SIZE (by decide)
      (by decide) with ⟨q, m₂, hall₃, hq, ho₂⟩ | hnull
    · rw [hall₃] at hall₂
      obtain ⟨rfl, rfl⟩ := Prod.mk.inj (Except.ok.inj hall₂)
      have hbq : b.addr ≠ q := 
        ho₂.fresh (List.mem_cons_of_mem _ (mem_blocks_heap hc hb))
      simp only [Kernel.modifyHeapNode_of_ne hq, ok_bind, pure_eq_ok] at hk
      obtain ⟨-, rfl⟩ := Prod.mk.inj (Except.ok.inj hk)
      simp [heapLink, hbq]
    · rw [hnull] at hall₂
      obtain ⟨rfl, rfl⟩ := Prod.mk.inj (Except.ok.inj hall₂)
      simp at hk
  -- a recursion that runs out of fuel does not return
  by_cases hf : (c.heap.map HeapView.addr).length < fuel
  swap
  · rw [if_neg hf] at hadd
    cases hadd
  rw [if_pos hf] at hadd
  obtain ⟨⟨node, k₃⟩, htail, hadd⟩ := bind_eq_ok.mp hadd
  obtain ⟨⟨node', k₄⟩, hall₂, htail⟩ := bind_eq_ok.mp htail
  have hnodenext := hnext node' k₄ hall₂
  rcases ho₁.allocate (k := { k with memory := m₁ }) HEAP_NODE_SIZE (by decide)
    (by decide) with ⟨q, m₂, hall₃, hq, ho₂⟩ | hnull
  -- nor does a call that gets no page for the list node: it would write to the null pointer
  swap
  · rw [hnull] at hall₂
    obtain ⟨rfl, rfl⟩ := Prod.mk.inj (Except.ok.inj hall₂)
    simp at htail
  rw [hall₃] at hall₂
  obtain ⟨rfl, rfl⟩ := Prod.mk.inj (Except.ok.inj hall₂)
  simp only [Kernel.modifyHeapNode_of_ne hq, ok_bind, pure_eq_ok, Function.update_self,
    Function.update_idem] at htail
  obtain ⟨rfl, hk₃⟩ := Prod.mk.inj (Except.ok.inj htail)
  have hout := Except.ok.inj hadd
  have hfirst := congrArg Prod.fst hout
  have hsecond := congrArg Prod.snd hout
  simp only at hfirst hsecond
  obtain ⟨hstat, hfields, hother⟩ := heapLink_linkLast k₃ c.val.heap q (c.heap.map HeapView.addr)
  rw [hsecond] at hstat hfields hother
  have hnode₃ : k₃.heapNode = Function.update k.heapNode q
      { k.heapNode q with address := p, size := n } := by rw [← hk₃]
  -- the blocks of the old view are not at `q`
  have hfresh : ∀ x ∈ V.table, ∀ b ∈ x.heap, b.addr ≠ q := fun x hx b hb =>
    ho₂.fresh (List.mem_cons_of_mem _ (mem_blocks_heap hx hb))
  have hqmem : q ∉ c.heap.map HeapView.addr := by
    intro hmem
    obtain ⟨b, hb, hbq⟩ := List.mem_map.mp hmem
    exact hfresh c hc b hb hbq
  -- the old list, in the state with the new node
  have hlist₃ : heapLink.IsList k₃ c.val.heap (c.heap.map HeapView.addr) := by
    refine Chain.congr hlist fun x hx => ?_
    obtain ⟨b, hb, rfl⟩ := List.mem_map.mp hx
    show (k₃.heapNode b.addr).next = (k.heapNode b.addr).next
    rw [hnode₃, Function.update_of_ne (hfresh c hc b hb)]
  have hsingle : heapLink.IsList k₃ q [q] := by
    refine Chain.cons_iff.mpr ⟨rfl, hq, Chain.nil_iff.mpr ?_⟩
    show (k₃.heapNode q).next = NULL
    rw [hnode₃, Function.update_self]
    exact hnodenext
  -- the list after the store into its last node
  have hlist₂ : heapLink.IsList k₂ first ((c.heap ++ [HeapView.mk q p n]).map HeapView.addr) := by
    have hnd : (c.heap.map HeapView.addr ++ [q]).Nodup := by
      refine List.nodup_append.mpr ⟨hlist₃.nodup, List.nodup_singleton q, fun x hx y hy => ?_⟩
      obtain rfl := List.mem_singleton.mp hy
      rintro rfl
      exact hqmem hx
    have := Link.isList_linkLast hlist₃.path hsingle hlist₃.nil_notMem hnd
    rw [hfirst, hsecond] at this
    rw [List.map_append]
    exact this
  have hkk₂ : k₂ = { k with memory := m₂, heapNode := k₂.heapNode } := by
    rw [hstat, ← hk₃]
  have hmod : k₂.modifyProcess c.addr (fun p => { p with heap := first })
      = .ok { k₂ with process := Function.update k.process c.addr { c.val with heap := first } } := by
    rw [Kernel.modifyProcess_of_ne (hr.processes c hc).addr_ne]
    have hproc : k₂.process = k.process := by rw [hkk₂]
    rw [hproc, (hr.processes c hc).val]
  rw [hmod] at h
  obtain ⟨rfl, rfl⟩ := Prod.mk.inj (Except.ok.inj h)
  have hnode₂ : ∀ x ∈ V.table, ∀ b ∈ x.heap, (k₂.heapNode b.addr).address = b.address ∧
      (k₂.heapNode b.addr).size = b.size := fun x hx b hb => by
    have hb' := (hr.processes x hx).blocks b hb
    rw [hfields, hnode₃, Function.update_of_ne (hfresh x hx b hb)]
    exact ⟨hb'.address, hb'.size⟩
  obtain ⟨rest, hV, hset⟩ := hr.set_setHeap_blocks hc
  refine ⟨c, hc, hccur, ⟨q, p, n⟩, rfl, rfl, ?_, ?_⟩
  · refine hr.withHeap hc first ?_ (fun b hb => ?_) (fun x hx hxc b hb => ?_) rfl ?_ ?_
    · exact Chain.congr hlist₂ fun _ _ => rfl
    · rcases List.mem_append.mp hb with hb | hb
      · exact ⟨(hnode₂ c hc b hb).1, (hnode₂ c hc b hb).2⟩
      · obtain rfl := List.mem_singleton.mp hb
        refine ⟨?_, ?_⟩
        · show (k₂.heapNode q).address = p
          rw [hfields, hnode₃, Function.update_self]
        · show (k₂.heapNode q).size = n
          rw [hfields, hnode₃, Function.update_self]
    · show k₂.heapNode b.addr = k.heapNode b.addr
      rw [hother, hnode₃, Function.update_of_ne (hfresh x hx b hb)]
      intro hmem
      obtain ⟨b', hb', heq⟩ := List.mem_map.mp hmem
      exact hxc (hr.eq_of_heapAddr hx hc hb hb' heq.symm)
    · rw [hkk₂]
    · show Owns k₂.memory _
      rw [hkk₂]
      refine ho₂.perm (List.Perm.trans ?_ (hset _).symm)
      refine ((hV.cons _).cons _).trans ?_
      simp only [List.flatMap_append, List.flatMap_cons, List.flatMap_nil, HeapView.blocks,
        List.append_nil, List.append_assoc, List.cons_append, List.nil_append]
      refine (List.Perm.swap ..).trans ?_
      exact (List.perm_append_comm_assoc [_, _] ..)
  · exact hr.ok_set hok hc ((hok.processes c hc).setHeap _) rfl rfl id

/-- What `pfree` does to the current process. -/
theorem pfree_spec (hr : Rep k V) (hok : V.Ok) (mem : Addr) :
    ∃ c ∈ V.table, c.node = V.current ∧ ∃ k', Returns (BasicKernel.pfree · k mem) k' ∧
      ((∀ b ∈ c.heap, b.address ≠ mem) ∧ k' = k ∨
        ∃ A b B, c.heap = A ++ b :: B ∧ b.address = mem ∧
          (∃ k₁ k₂, k.deallocate mem (toUInt64 b.size) = .ok k₁ ∧
            k₁.deallocate b.addr HEAP_NODE_SIZE = .ok k₂ ∧ k'.memory = k₂.memory) ∧
          Rep k' (V.set c (c.setHeap (A ++ B))) ∧ (V.set c (c.setHeap (A ++ B))).Ok) := by
  obtain ⟨c, hc, hccur, hpid, hload, -⟩ := hr.heapCaller hok
  refine ⟨c, hc, hccur, ?_⟩
  have hrc := hr.processes c hc
  have hget := hr.getProcessWithPid_of_mem hok.pids hc
  -- what is left is the work on the list
  have hrun : ∀ {first : Addr} {k₂ : Kernel}, Returns (pfreeR · k c.val.heap mem) (first, k₂) →
      Returns (BasicKernel.pfree · k mem) { k₂ with
        process := Function.update k₂.process c.addr { k₂.process c.addr with heap := first } } := by
    intro first k₂ hfree
    simp only [BasicKernel.pfree, hpid, ok_bind]
    refine hget.bind ?_
    simp only [hload, ok_bind]
    refine hfree.bind ?_
    simp only [Kernel.modifyProcess_of_ne hrc.addr_ne]
    exact .const _ _
  -- no block starts at `mem`: the list is rebuilt as it was
  by_cases hnone : ∀ b ∈ c.heap, b.address ≠ mem
  · refine ⟨k, ?_, .inl ⟨hnone, rfl⟩⟩
    have habsent : Returns (pfreeR · k c.val.heap mem) (c.val.heap, k) :=
      .of_if fun fuel => removeFirst_absent hrc.heap (fun x hx => by
        obtain ⟨b, hb, rfl⟩ := List.mem_map.mp hx
        simpa [(hrc.blocks b hb).address] using hnone b hb) fuel
    have hsame : ({ k.process c.addr with heap := c.val.heap } : ProcessNode) = k.process c.addr := by
      rw [hrc.val]
    have hret := hrun habsent
    rwa [hsame, Function.update_eq_self] at hret
  -- the first block at `mem` is the one that goes
  obtain ⟨A, b, B, hheap, hb, hA⟩ : ∃ A b B, c.heap = A ++ b :: B ∧ b.address = mem ∧
      ∀ x ∈ A, x.address ≠ mem := by
    cases hs : c.heap.find? fun b => b.address = mem with
    | none => exact absurd (fun b hb => by simpa using List.find?_eq_none.mp hs b hb) hnone
    | some b =>
        obtain ⟨hb, A, B, hL, hA⟩ := List.find?_eq_some_iff_append.mp hs
        exact ⟨A, b, B, hL, by simpa using hb, fun x hx => by simpa using hA x hx⟩
  have hbmem : b ∈ c.heap := by rw [hheap]; simp
  have hAmem : ∀ x ∈ A, x ∈ c.heap := fun x hx => by rw [hheap]; simp [hx]
  have hBmem : ∀ x ∈ B, x ∈ c.heap := fun x hx => by rw [hheap]; simp [hx]
  have hlist := hrc.heap
  rw [hheap, List.map_append, List.map_cons] at hlist
  obtain ⟨rest, hV, hset⟩ := hr.set_setHeap_blocks hc
  -- both parts of the block are reserved, so the two calls of `deallocate` work
  have ho : Owns k.memory ((mem, toUInt64 b.size) :: (b.addr, HEAP_NODE_SIZE) ::
      ((A ++ B).flatMap HeapView.blocks ++ rest)) := by
    refine hr.owns.perm (hV.trans ?_)
    rw [hheap]
    refine ((List.perm_middle.flatMap_right _).append_right rest).trans ?_
    simp [HeapView.blocks, hb]
  obtain ⟨m₁, hd₁, ho₁, -⟩ := ho.deallocate
  obtain ⟨m₂, hd₂, ho₂, -⟩ := ho₁.deallocate (k := { k with memory := m₁ })
  have hfreeNode : freeHeapNode k b.addr = .ok { k with memory := m₂ } := by
    simp only [freeHeapNode, (hrc.blocks b hbmem).address, (hrc.blocks b hbmem).size, hb, hd₁, ok_bind]
    exact hd₂
  obtain ⟨first, k₂, hlink⟩ : ∃ first k₂, heapLink.linkLast c.val.heap (A.map HeapView.addr)
      (heapLink.next k b.addr) { k with memory := m₂ } = (first, k₂) := ⟨_, _, rfl⟩
  have hfree : Returns (pfreeR · k c.val.heap mem) (first, k₂) := by
    have hfuel : ∀ fuel, pfreeR fuel k c.val.heap mem
        = if (A.map HeapView.addr).length < fuel then .ok (first, k₂) else .error .outOfFuel := by
      intro fuel
      rw [pfreeR, removeFirst_found hlist
        (fun x hx => by
          obtain ⟨a, ha, rfl⟩ := List.mem_map.mp hx
          simpa [(hrc.blocks a (hAmem a ha)).address] using hA a ha)
        (by simpa [(hrc.blocks b hbmem).address] using hb)
        (fun k₁ hk₁ => by
          rw [hfreeNode] at hk₁
          obtain rfl := Except.ok.inj hk₁
          exact fun _ _ => rfl), hfreeNode, ok_bind, hlink]
    exact .of_if hfuel
  have hfirst := congrArg Prod.fst hlink
  have hsecond := congrArg Prod.snd hlink
  simp only at hfirst hsecond
  obtain ⟨hstat, hfields, hother⟩ := heapLink_linkLast { k with memory := m₂ } c.val.heap
    (heapLink.next k b.addr) (A.map HeapView.addr)
  rw [hsecond] at hstat hfields hother
  obtain ⟨d, hpA, hpB⟩ := path_append.mp hlist.path
  have hnull := hlist.nil_notMem
  have hlistB : heapLink.IsList { k with memory := m₂ } (heapLink.next k b.addr)
      (B.map HeapView.addr) := ⟨hpB.2, fun hm => hnull (by simp [hm])⟩
  have hnd : (A.map HeapView.addr ++ B.map HeapView.addr).Nodup :=
    hlist.nodup.sublist ((List.Sublist.refl _).append (List.sublist_cons_self _ _))
  -- the recursion has linked the nodes in front of the block to those behind it
  have hlist₂ : heapLink.IsList k₂ first ((A ++ B).map HeapView.addr) := by
    have := Link.isList_linkLast (k := { k with memory := m₂ }) hpA hlistB
      (fun hm => hnull (List.mem_append_left _ hm)) hnd
    rw [hfirst, hsecond, ← List.map_append] at this
    exact this
  have hkk₂ : k₂ = { k with memory := m₂, heapNode := k₂.heapNode } := by rw [hstat]
  refine ⟨_, hrun hfree, .inr ⟨A, b, B, hheap, hb, ⟨_, _, hd₁, hd₂, ?_⟩, ?_, ?_⟩⟩
  · rw [hkk₂]
  · refine hr.withHeap hc first ?_ (fun x hx => ?_) (fun q hq hqc x hx => ?_) ?_ ?_ ?_
    · exact Chain.congr hlist₂ fun _ _ => rfl
    · have hx' := hrc.blocks x ((List.mem_append.mp hx).elim (hAmem x) (hBmem x))
      refine ⟨?_, ?_⟩
      · show (k₂.heapNode x.addr).address = _
        rw [hfields]
        exact hx'.address
      · show (k₂.heapNode x.addr).size = _
        rw [hfields]
        exact hx'.size
    · refine hother _ fun hmem => ?_
      obtain ⟨a, ha, heq⟩ := List.mem_map.mp hmem
      exact hqc (hr.eq_of_heapAddr hq hc hx (hAmem a ha) heq.symm)
    · have hproc : k₂.process = k.process := by rw [hkk₂]
      show Function.update k₂.process c.addr _ = _
      rw [hproc, hrc.val]
    · rw [hkk₂]
    · show Owns k₂.memory _
      rw [hkk₂]
      exact ho₂.perm (hset _).symm
  · exact hr.ok_set hok hc ((hok.processes c hc).setHeap _) rfl rfl id

/-- A call of `pfree` that returned. -/
theorem pfree_inv (hr : Rep k V) (hok : V.Ok) {mem : Addr}
    (h : BasicKernel.pfree fuel k mem = .ok k') :
    ∃ c ∈ V.table, c.node = V.current ∧
      ((∀ b ∈ c.heap, b.address ≠ mem) ∧ k' = k ∨
        ∃ A b B, c.heap = A ++ b :: B ∧ b.address = mem ∧
          (∃ k₁ k₂, k.deallocate mem (toUInt64 b.size) = .ok k₁ ∧
            k₁.deallocate b.addr HEAP_NODE_SIZE = .ok k₂ ∧ k'.memory = k₂.memory) ∧
          Rep k' (V.set c (c.setHeap (A ++ B))) ∧ (V.set c (c.setHeap (A ++ B))).Ok) := by
  obtain ⟨c, hc, hccur, k₁, hret, hcase⟩ := hr.pfree_spec hok mem
  obtain rfl := hret.eq h
  exact ⟨c, hc, hccur, hcase⟩

end Rep

end BasicKernel
