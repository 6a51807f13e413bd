import BasicKernel.View.Script

set_option autoImplicit false

/-! # New processes

`createProcess` does not write `threadLibrary` and `currentThread`, and `addThreadToProcess` reads them.
A process starts clean when the page that it gets holds the right values by chance.

`new_process_clean_iff` says so in both directions, for every state of a run and for every content
of the pages that are free. `recycled_process_unclean` gives the new process a page that held an
old one.
-/

namespace BasicKernel

open Linked Fuel Transition

/-! ## New pages

What the allocator returns was in use by nobody. A new process, its thread and the two nodes are
objects that no ring contains. -/

section Served

variable {m m₁ m' : MemoryManager} {live : Set (Nat × Nat)} {size : Nat} {sizes : List Nat} {p : Addr}
  {ps ps' : List Addr}

/-- Two answers to the same requests are the same. -/
theorem Served.unique (h : Served m sizes ps m₁) (h' : Served m sizes ps' m') : ps = ps' := by
  have heq := (Prod.mk.inj (Except.ok.inj (h.symm.trans h'))).1
  exact List.map_injective_iff.mpr (Option.some_injective _) heq

theorem Contract.allocate_new (hc : Contract m live) (hpos : 1 ≤ size) (hint : size < 2 ^ 31)
    (h : BasicKernel.allocate m size = .ok (some p, m₁)) : firstBlock m p ∉ usedBlocks m ∧
      usedBlocks m ⊆ usedBlocks m₁ ∧ m₁.initMem = m.initMem ∧ Contract m₁ (insert (p, size) live) := by
  rcases hc.allocate hpos hint with ⟨q, m₂, hcall, hne, hinit, -, hc₁⟩ | hcall
  · rw [h] at hcall
    obtain ⟨hq, rfl⟩ := Prod.mk.inj (Except.ok.inj hcall)
    obtain rfl := Option.some.inj hq
    have hextent : ∀ x, extent m x = extent m₁ x := fun x => by simp only [extent, firstBlock, hinit]
    refine ⟨fun hused => ?_, fun b hb => ?_, hinit, hc₁⟩
    · -- a used block belongs to a live pair
      rw [hc.exact, Set.mem_iUnion₂] at hused
      obtain ⟨x, hx, hmem⟩ := hused
      have hnew : firstBlock m p ∈ extent m₁ (p, size) := by
        rw [← hextent]
        exact Set.mem_Ico.mpr ⟨le_refl _, Nat.lt_add_of_pos_right (one_le_sizeBlocks hpos)⟩
      rw [hextent] at hmem
      have heq := hc₁.eq_of_mem_extent (Set.mem_insert_of_mem _ hx) (Set.mem_insert _ _) hmem hnew
      exact hne x hx (congrArg Prod.fst heq)
    · rw [hc.exact, Set.mem_iUnion₂] at hb
      obtain ⟨x, hx, hmem⟩ := hb
      exact hc₁.extent_subset (Set.mem_insert_of_mem _ hx) (hextent x ▸ hmem)
  · rw [h] at hcall
    cases (Prod.mk.inj (Except.ok.inj hcall)).1

/-- The blocks that answer requests were not in use. -/
theorem Contract.served_new (hc : Contract m live) (hsizes : ∀ size ∈ sizes, 1 ≤ size ∧ size < 2 ^ 31)
    (h : Served m sizes ps m') : ∀ p ∈ ps, firstBlock m p ∉ usedBlocks m := by
  induction sizes generalizing m live ps with
  | nil =>
      obtain rfl := List.map_eq_nil_iff.mp (Prod.mk.inj (Except.ok.inj h)).1.symm
      simp
  | cons size sizes ih =>
      obtain ⟨⟨r, m₁⟩, hcall, h⟩ := bind_eq_ok.mp h
      obtain ⟨⟨rs, m₂⟩, hrest, h⟩ := bind_eq_ok.mp h
      obtain ⟨hcons, rfl⟩ := Prod.mk.inj (Except.ok.inj h)
      cases ps with
      | nil => cases hcons
      | cons p ps =>
          obtain ⟨rfl, rfl⟩ := List.cons.inj hcons
          obtain ⟨hpos, hint⟩ := hsizes size List.mem_cons_self
          obtain ⟨hnew, hsub, hinit, hc₁⟩ := hc.allocate_new hpos hint hcall
          intro q hq
          rcases List.mem_cons.mp hq with rfl | hq
          · exact hnew
          · have hlater := ih hc₁ (fun size hsize => hsizes size (List.mem_cons_of_mem _ hsize)) hrest q hq
            intro hused
            rw [firstBlock, ← hinit] at hused
            exact hlater (hsub hused)

end Served

/-! ## The ring of a new process

Whether the field `currentThread` of the recycled page was null decides between a ring of one node
and a node that joins another ring. -/

/-- The process `pid` of `k'` has one thread. Its node was not in use in `k`, and it is in no ring of
another process. -/
structure Kernel.StartsClean (k k' : Kernel) (pid : Int) (exec entryPoint process lib : Addr) : Prop where
  found : Returns (getProcessWithPid · k' pid) process
  ring : Ring k'.nextLib (k'.process process).threadLibrary [lib]
  current : (k'.process process).currentThread = lib
  entry : (k'.threadAt lib).entryPoint = entryPoint
  pthread : (k'.threadAt lib).pthread = 0
  frame : k'.stackFrame (k'.threadAt lib).userStack =
    initialFrame exec entryPoint (k'.threadAt lib).userStack
  fresh : ¬ k.Reserved lib
  apart : ∀ other ∈ k'.processes, other ≠ process →
    ¬ Reaches k'.nextLib (k'.process other).threadLibrary lib

/-- The requests of `addProcess`. -/
def addProcessSizes : List Nat := [PAGE_SIZE, NAME_LENGTH, PAGE_SIZE, PAGE_SIZE, STACK_SIZE, PAGE_SIZE]

/-- The page that a new process would get, at `a`, is clean for the node of its thread, at `l`. -/
def Kernel.ServesClean (k : Kernel) : Prop :=
  ∀ a chars n t base l m, Served k.memory addProcessSizes [a, chars, n, t, base, l] m →
    (k.process a).CleanFor l

variable {k k₁ k' : Kernel} {V : View} {p : ProcessView} {fuel : Nat} {r : Int}
  {exec entryPoint name : Addr}

theorem Rep.startsClean (hr : Rep k' V) (hok : V.Ok) (hp : p ∈ V.table) {pid : Int}
    (hcreated : p.Created entryPoint pid) (hframe : ∀ u ∈ p.threads, k'.stackFrame u.val.userStack =
      initialFrame exec entryPoint u.val.userStack) (hfresh : ∀ u ∈ p.threads, ¬ k.Reserved u.lib) :
    ∃ lib, k.StartsClean k' pid exec entryPoint p.addr lib := by
  obtain ⟨t, hthreads, ht, hcurrent⟩ := hcreated.threads
  have htmem : t ∈ p.threads := by simp [hthreads]
  have hrep := hr.processes p hp
  have hthread := hrep.threads t htmem
  have hat : k'.threadAt t.lib = t.val := by
    rw [Kernel.threadAt, hthread.thread, hthread.val]
  refine ⟨t.lib, hcreated.pid ▸ hr.getProcessWithPid_of_mem hok.pids hp, ?_, ?_, ?_, ?_, ?_,
    hfresh t htmem, ?_⟩
  · rw [hrep.val]
    simpa [hthreads] using hrep.ring
  · rw [hrep.val, hcurrent]
  · rw [hat, ht.entryPoint]
  · rw [hat, ht.pthread]
  · rw [hat]
    exact hframe t htmem
  · intro other hother hne hreach
    obtain ⟨q, hq, rfl⟩ := List.mem_map.mp (hr.created.mem_iff.mp hother)
    rw [(hr.processes q hq).val, (hr.processes q hq).ring.reaches_iff] at hreach
    obtain ⟨u, hu, hlib⟩ := List.mem_map.mp hreach
    exact hne (congrArg ProcessView.addr (hr.eq_of_lib hq hp hu htmem hlib).1)

/-- In every state of a run and for every content of the free pages, a process that `addProcess` makes
starts clean if and only if the page that it gets is clean. -/
theorem new_process_clean_iff (hrun : Run Sound k) (hrecycled : Recycled k k₁)
    (h : addProcess fuel k₁ exec entryPoint name = .ok (r, k')) :
    (∃ process lib, k₁.StartsClean k' r exec entryPoint process lib) ↔ k₁.ServesClean := by
  obtain ⟨V, hr₀, hok⟩ := hrun.rep
  have hr := hr₀.recycled hrecycled
  obtain ⟨a, chars, n, t, base, l, -, hserved, rfl, -, hfound, hclean, hconverse⟩ :=
    hr.addProcess_cases hok h
  constructor
  · rintro ⟨process, lib, hstart⟩ a' chars' n' t' base' l' m hserved'
    have hpages := hserved'.unique hserved
    simp only [List.cons.injEq] at hpages
    obtain ⟨rfl, -, -, -, -, rfl, -⟩ := hpages
    obtain ⟨fuel', hfuel⟩ := hstart.found.exists_fuel
    obtain rfl := hfound.eq hfuel
    exact hconverse lib hstart.ring hstart.current
  · intro hserves
    obtain ⟨p, rfl, -, hlibs, hcreated, hframe, hr', hok'⟩ := hclean (hserves a chars n t base l _ hserved)
    have hp : p ∈ (V.addProcess p).table := Keyed.mem_insertSecond.mpr (.inl rfl)
    -- the node of the thread is a page that was served
    have hfresh : ∀ u ∈ p.threads, ¬ k₁.Reserved u.lib := by
      intro u hu hreserved
      have hl : u.lib = l := List.mem_singleton.mp (hlibs ▸ List.mem_map_of_mem hu)
      obtain ⟨live, hc, -⟩ := hr.owns.live
      exact hc.served_new (by decide) hserved l (by simp) (hl ▸ hreserved.2)
    exact ⟨p.addr, hr'.startsClean hok' hp hcreated hframe hfresh⟩

/-! ## A recycled page -/

/-- The page at `a` holds what the newest process holds. -/
def Kernel.withCopy (k : Kernel) (a : Addr) : Kernel :=
  { k with process := Function.update k.process a (k.process (k.processes.headD NULL)) }

theorem Kernel.withCopy_recycled {a : Addr} (ha : ¬ k.Reserved a) : Recycled k (k.withCopy a) := by
  refine ⟨fun b hb => Function.update_of_ne ?_ _ _, fun _ _ => rfl, fun _ _ => rfl, fun _ _ => rfl,
    fun _ _ => rfl, fun _ _ => rfl, fun _ _ => rfl, fun _ _ => rfl, rfl⟩
  rintro rfl
  exact ha hb

/-- A new process in a page that holds an old one. -/
def recycledProcess : Except Stop (Kernel × Addr × Int × Kernel) := do
  let k ← startKernel
  let (a, _) ← k.allocate PAGE_SIZE
  let (r, k₁') ← addProcess 40 (k.withCopy a) 1 2 3
  return (k, a, r, k₁')

theorem recycledProcess_checks : (do
    let (k, a, r, k₁') ← recycledProcess
    return decide (used k.memory.words ((a - k.memory.initMem) / PAGE_SIZE) = false ∧
      getProcessWithPid 40 k₁' r = .ok a ∧
      k₁'.nextLib (k₁'.process a).threadLibrary ≠ (k₁'.process a).threadLibrary) : Except Stop Bool) =
    .ok true := by
  decide +kernel

/-- The thread of the new process joins the ring of the process that was copied. -/
theorem recycled_process_unclean : ¬ ∀ (k k₁ k' : Kernel) (fuel : Nat) (exec entryPoint name : Addr)
    (r : Int), Run Sound k → Recycled k k₁ → addProcess fuel k₁ exec entryPoint name = .ok (r, k') →
      ∃ process lib, k₁.StartsClean k' r exec entryPoint process lib := by
  intro hclaim
  obtain ⟨⟨k, a, r, k₁'⟩, hpages, hchecks⟩ := bind_eq_ok.mp recycledProcess_checks
  obtain ⟨hfree, hget, hnext⟩ := of_decide_eq_true (Except.ok.inj hchecks)
  obtain ⟨k₀, hk, hpages⟩ := bind_eq_ok.mp hpages
  obtain ⟨⟨a₀, m⟩, -, hpages⟩ := bind_eq_ok.mp hpages
  obtain ⟨⟨r₁, k₂⟩, hadd, hpages⟩ := bind_eq_ok.mp hpages
  cases hpages
  have hrun : Run Sound k := .start (booted_of_start hk)
  have hrecycled : Recycled k (k.withCopy a) := Kernel.withCopy_recycled fun ha =>
    Bool.false_ne_true (hfree.symm.trans ha.2)
  obtain ⟨process, lib, hstart⟩ := hclaim k _ k₁' 40 1 2 3 r hrun hrecycled hadd
  have hprocess := hstart.found.eq hget
  subst hprocess
  -- a ring of one node is closed by its node
  obtain ⟨hlib, hend⟩ := hstart.ring.path
  rw [← hlib] at hend
  exact hnext hend

/-- A page without an old current thread is clean for every node. -/
theorem Kernel.servesClean_of (h : CleanProcess k) : k.ServesClean := by
  intro a chars n t base l m hserved
  obtain ⟨⟨p, m₁⟩, hfirst, hserved⟩ := bind_eq_ok.mp hserved
  obtain ⟨⟨ps, m₂⟩, -, hserved⟩ := bind_eq_ok.mp hserved
  obtain ⟨hpages, -⟩ := Prod.mk.inj (Except.ok.inj hserved)
  obtain ⟨rfl, -⟩ := List.cons.inj hpages
  refine .inl (h a { k with memory := m₁ } ?_)
  rw [Kernel.allocate, hfirst]
  rfl

theorem cleanServe_states : (do
    let k ← startKernel
    let (_, _) ← addProcess 40 k 1 2 3
    return k.cleanProcess? : Except Stop Bool) = .ok true := by
  decide +kernel

/-- After the boot the next page is clean, and the new process has a ring of its own. -/
theorem new_process_clean_after_boot : ∃ (k k' : Kernel) (r : Int), Run Sound k ∧ k.ServesClean ∧
    addProcess 40 k 1 2 3 = .ok (r, k') ∧ ∃ process lib, k.StartsClean k' r 1 2 process lib := by
  obtain ⟨k, hk, hboot⟩ := bind_eq_ok.mp cleanServe_states
  obtain ⟨⟨r, k'⟩, hadd, hclean⟩ := bind_eq_ok.mp hboot
  have hrun : Run Sound k := .start (booted_of_start hk)
  have hserves : k.ServesClean := Kernel.servesClean_of (Kernel.cleanProcess_of (Except.ok.inj hclean))
  exact ⟨k, k', r, hrun, hserves, hadd, (new_process_clean_iff hrun (.refl k) hadd).mpr hserves⟩

end BasicKernel
