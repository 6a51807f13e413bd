import BasicKernel.View.Lookup

set_option autoImplicit false

/-! # The release of a process

`freeProcess` gives back the pages of the counted threads, of the heap and of the process. It
reads the successor of a thread's node after that node was freed, and stores through a pointer
that it never set; both are harmless as long as nothing else reuses those pages in between.
-/

namespace BasicKernel

open Linked Keyed Fuel

/-- The state after the release of pages and after stores into the rings of threads. -/
def Kernel.released (k : Kernel) (m : MemoryManager) (libs : Addr → ThreadLibrary) : Kernel :=
  { k with memory := m, threadLibrary := libs }

/-- `freeThreads` gives back the pages of the threads `ts`, and changes no node of another
thread. -/
theorem freeThreads_spec : ∀ (ts : List ThreadView) {k : Kernel} {bs : List (Addr × Nat)}
    {a b prev : Addr}, Path k.nextLib a (ts.map ThreadView.lib) b → (∀ t ∈ ts, RepThread k t) →
    (ts.map ThreadView.lib).Nodup → (ts ≠ [] → prev ≠ NULL) → prev ∉ ts.map ThreadView.lib →
    Owns k.memory (ts.flatMap ThreadView.blocks ++ bs) →
    ∃ m libs, freeThreads ts.length k a prev = .ok (k.released m libs) ∧ Owns m bs ∧
      ∀ x, (ts ≠ [] → x ≠ prev) → x ∉ ts.map ThreadView.lib → libs x = k.threadLibrary x := by
  intro ts
  -- on the threads; `prev` is the node that was freed last, or the uninitialised pointer at first
  induction ts with
  | nil =>
      intro k bs a b prev _ _ _ _ _ howns
      exact ⟨k.memory, k.threadLibrary, rfl, howns, fun _ _ _ => rfl⟩
  | cons t ts ih =>
      intro k bs a b prev hpath hts hnd hprev hfresh howns
      obtain ⟨rfl, hpath⟩ := hpath
      have ht := hts t (by simp)
      have hprev := hprev (by simp)
      simp only [List.map_cons, List.mem_cons, not_or] at hfresh
      have hnd' := List.nodup_cons.mp hnd
      -- the store through `prev`
      let libs₁ := Function.update k.threadLibrary prev
        { k.threadLibrary prev with next := k.nextLib t.lib }
      have hne : ∀ u ∈ t :: ts, u.lib ≠ prev := by
        rintro u hu rfl
        rcases List.mem_cons.mp hu with rfl | hu
        · exact hfresh.1 rfl
        · exact hfresh.2 (List.mem_map_of_mem hu)
      have hlibs₁ : ∀ u ∈ t :: ts, libs₁ u.lib = k.threadLibrary u.lib := fun u hu =>
        Function.update_of_ne (hne u hu) _ _
      -- the three pages of the thread
      simp only [List.flatMap_cons, ThreadView.blocks, List.cons_append, List.nil_append] at howns
      let k₁ := k.released k.memory libs₁
      obtain ⟨m₁, hd₁, ho₁, -⟩ := howns.deallocate (k := k₁)
      obtain ⟨m₂, hd₂, ho₂, -⟩ := ho₁.deallocate (k := k₁.released m₁ libs₁)
      obtain ⟨m₃, hd₃, ho₃, -⟩ := ho₂.deallocate (k := k₁.released m₂ libs₁)
      have hts₃ : ∀ u ∈ ts, RepThread (k₁.released m₃ libs₁) u := by
        intro u hu
        have hu' : u ∈ t :: ts := by simp [hu]
        exact (hts u hu').congr (congrArg ThreadLibrary.thread (hlibs₁ u hu')) rfl
      -- the rest of the ring is read through freed nodes, which still hold what they held
      have hpath₃ : Path (k₁.released m₃ libs₁).nextLib (k.nextLib t.lib)
          (ts.map ThreadView.lib) b := by
        refine hpath.congr fun x hx => ?_
        obtain ⟨u, hu, rfl⟩ := List.mem_map.mp hx
        exact congrArg ThreadLibrary.next (hlibs₁ u (by simp [hu]))
      obtain ⟨m, libs, hfree, ho, hframe⟩ := ih hpath₃ hts₃ hnd'.2
        (fun _ => ht.lib_ne) hnd'.1 ho₃
      refine ⟨m, libs, ?_, ho, fun x hxp hx => ?_⟩
      · have hmod : k.modifyThreadLibrary prev (fun l => { l with next := k.nextLib t.lib })
            = .ok k₁ := by
          simp only [Kernel.modifyThreadLibrary, modify, if_neg hprev, ok_bind]
          rfl
        have hload : ∀ m, load (k₁.released m libs₁).threadLibrary t.lib
            = .ok ⟨t.addr, k.nextLib t.lib⟩ := by
          intro m
          rw [load_of_ne ht.lib_ne]
          show Except.ok (libs₁ t.lib) = _
          rw [hlibs₁ t (by simp), ← ht.thread]
          rfl
        have hthread : load k₁.thread t.addr = .ok t.val := ht.load_thread
        have hlib : load k₁.threadLibrary t.lib = .ok ⟨t.addr, k.nextLib t.lib⟩ := hload k.memory
        have hd₁' : k₁.deallocate t.val.baseStack (PAGE_SIZE * NUMBER_OF_PAGES)
            = .ok (k₁.released m₁ libs₁) := hd₁
        have hd₂' : (k₁.released m₁ libs₁).deallocate t.addr PAGE_SIZE
            = .ok (k₁.released m₂ libs₁) := hd₂
        have hd₃' : (k₁.released m₂ libs₁).deallocate t.lib PAGE_SIZE
            = .ok (k₁.released m₃ libs₁) := hd₃
        simp only [List.length_cons, freeThreads, ht.load_lib, ok_bind, hmod, hlib, hthread, hd₁',
          hload, hd₂', hd₃', hfree]
        rfl
      · simp only [List.map_cons, List.mem_cons, not_or] at hx
        rw [hframe x (fun _ => hx.1) hx.2]
        exact Function.update_of_ne (hxp (by simp)) _ _

/-- `freeHeap` gives back the blocks of the list and its nodes. -/
theorem freeHeap_spec : ∀ (hs : List HeapView) {k : Kernel} {bs : List (Addr × Nat)} {p : Addr},
    heapLink.IsList k p (hs.map HeapView.addr) → (∀ h ∈ hs, RepHeap k h) →
    Owns k.memory (hs.flatMap HeapView.blocks ++ bs) →
    ∃ m, Returns (freeHeap · k p) { k with memory := m } ∧ Owns m bs := by
  intro hs
  induction hs with
  | nil =>
      intro k bs p hlist _ howns
      obtain rfl := Chain.nil_iff.mp hlist
      exact ⟨k.memory, (Returns.const _ k).succ rfl fun _ => rfl, howns⟩
  | cons h hs ih =>
      intro k bs p hlist hrep howns
      obtain ⟨rfl, hne, hlist⟩ := Chain.cons_iff.mp hlist
      have hh := hrep h (by simp)
      simp only [List.flatMap_cons, HeapView.blocks, List.cons_append, List.nil_append] at howns
      obtain ⟨m₁, hd₁, ho₁, -⟩ := howns.deallocate
      obtain ⟨m₂, hd₂, ho₂, -⟩ := ho₁.deallocate (k := { k with memory := m₁ })
      obtain ⟨m, hret, ho⟩ := ih (k := { k with memory := m₂ }) hlist
        (fun b hb => ⟨(hrep b (by simp [hb])).address, (hrep b (by simp [hb])).size⟩) ho₂
      refine ⟨m, Fuel.Returns.succ rfl (fun fuel => ?_) hret, ho⟩
      have hfree : freeHeapNode k h.addr = .ok { k with memory := m₂ } := by
        simp only [freeHeapNode, hh.address, hh.size, hd₁, ok_bind]
        exact hd₂
      rw [freeHeap, if_neg hne, hfree, ok_bind]
      rfl

/-- The pages that `freeProcess` gives back: those of the counted threads, of the heap, and the
process's own. -/
def ProcessView.freedBlocks (p : ProcessView) : List (Addr × Nat) :=
  (p.threads.take p.val.threadSize.toNat).flatMap ThreadView.blocks ++
    (p.heap.flatMap HeapView.blocks ++ [(p.addr, PAGE_SIZE)])

theorem ProcessView.freedBlocks_sublist (p : ProcessView) :
    (p.freedBlocks ++ [(p.node, PAGE_SIZE)]).Sublist p.blocks := by
  simp only [freedBlocks, blocks, List.append_assoc]
  exact (List.Sublist.flatMap (List.take_sublist _ _) _).append (List.Sublist.refl _)

/-- The pointer that `freeThreadLibrary` stores through for the process `p`. -/
def Garbage.pointer (garbage : Garbage) (p : ProcessView) : Addr :=
  garbage.freeThreadLibrary p.val.threadLibrary

/-- `freeProcess` gives the pages back. Of the rings of threads it changes only that of the
process, and the node that the uninitialised pointer happens to point to. -/
theorem freeProcess_spec {k : Kernel} {p : ProcessView} {garbage : Garbage}
    {bs : List (Addr × Nat)} (h : RepProcess k p)
    (hsize : p.val.threadSize ≤ p.threads.length)
    (hne : 0 < p.val.threadSize → garbage.pointer p ≠ NULL)
    (hfresh : 0 < p.val.threadSize → garbage.pointer p ∉ p.threads.map ThreadView.lib)
    (howns : Owns k.memory (p.freedBlocks ++ bs)) :
    ∃ m libs, Returns (freeProcess · garbage k p.addr)
        { k.released m libs with processes := k.processes.erase p.addr } ∧ Owns m bs ∧
      ∀ x, (0 < p.val.threadSize → x ≠ garbage.pointer p) → x ∉ p.threads.map ThreadView.lib →
        libs x = k.threadLibrary x := by
  -- the counted threads are the first of the ring; nodes behind them stay reserved
  let ts := p.threads.take p.val.threadSize.toNat
  have hts : ∀ t ∈ ts, t ∈ p.threads := fun t ht => List.mem_of_mem_take ht
  have hlen : ts.length = p.val.threadSize.toNat := by
    rw [List.length_take]
    omega
  have hpos : ts ≠ [] → 0 < p.val.threadSize := by
    intro hts
    have := List.length_pos_iff.mpr hts
    omega
  have hlibs : p.threads.map ThreadView.lib
      = ts.map ThreadView.lib ++ (p.threads.drop p.val.threadSize.toNat).map ThreadView.lib := by
    rw [← List.map_append, List.take_append_drop]
  obtain ⟨c, hpath, -⟩ := path_append.mp (hlibs ▸ h.ring.path)
  have hnd := (List.nodup_append.mp (hlibs ▸ h.ring.nodup)).1
  have hsub : ∀ x ∈ ts.map ThreadView.lib, x ∈ p.threads.map ThreadView.lib := by
    intro x hx
    rw [hlibs]
    exact List.mem_append_left _ hx
  have hfresh' : garbage.pointer p ∉ ts.map ThreadView.lib := by
    intro hmem
    exact hfresh (hpos (by rintro hnil; rw [hnil] at hmem; simp at hmem)) (hsub _ hmem)
  simp only [ProcessView.freedBlocks, List.append_assoc] at howns
  obtain ⟨m₁, libs, hfree, ho₁, hframe⟩ := freeThreads_spec ts hpath
    (fun t ht => h.threads t (hts t ht)) hnd (fun hts => hne (hpos hts)) hfresh' howns
  let k₁ := k.released m₁ libs
  obtain ⟨m₂, hheap, ho₂⟩ := freeHeap_spec p.heap (k := k₁) h.heap
    (fun b hb => ⟨(h.blocks b hb).address, (h.blocks b hb).size⟩) ho₁
  obtain ⟨m₃, hd, ho₃, -⟩ := ho₂.deallocate (k := k.released m₂ libs)
  refine ⟨m₃, libs, ?_, ho₃, fun x hx hxlib => ?_⟩
  · have hthreads : freeThreadLibrary garbage k p.val.threadLibrary p.val.threadSize = .ok k₁ := by
      rw [freeThreadLibrary, ← hlen]
      exact hfree
    have hload : load k₁.process p.addr = .ok p.val := h.load_process
    simp only [freeProcess, h.load_process, ok_bind, hthreads, hload]
    refine hheap.bind ?_
    have hd' : Kernel.deallocate { k₁ with memory := m₂ } p.addr PAGE_SIZE
        = .ok (k.released m₃ libs) := hd
    simp only [hd', ok_bind]
    exact Returns.const _ _
  · exact hframe x (fun hts => hx (hpos hts)) fun hmem => hxlib (hsub x hmem)

end BasicKernel
