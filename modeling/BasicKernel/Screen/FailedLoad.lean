import BasicKernel.Scheduling.Fresh
import BasicKernel.Screen.Background

set_option autoImplicit false

/-! # A screen that cannot be loaded

`loadScreen` returns 0 when there is no memory for the node or for the screen of a process. The page of the
node is then given back, and the recursion of `addScreen` stores in every node what it holds already.

`failed_load_changes_nothing` says that a load fails exactly for want of memory, and that then all
is as before. `failed_load_rolled_back` is such a load, with one free page.
-/

namespace BasicKernel

open Linked Fuel Transition

/-! ## Memory

A block that is given back at once leaves the same bits, and so the same map. -/

section Memory

variable {m m₁ : MemoryManager} {live : Set (Nat × Nat)} {size p : Nat}

/-- A map is given by its length and by the positions that are used. -/
theorem BitMap.ext_used {words words' : BitMap} (hlength : words'.length = words.length)
    (hused : ∀ q, used words' q = used words q) : words' = words := by
  refine List.ext_getElem hlength fun i hi hi' => BitVec.eq_of_getLsbD_eq fun j hj => ?_
  have hword := hused (i * INT_BITS + j)
  have hindex : (i * INT_BITS + j) / INT_BITS = i := by
    simp only [INT_BITS]
    omega
  have hbit : (i * INT_BITS + j) % INT_BITS = j := by
    simp only [INT_BITS]
    omega
  unfold used at hword
  rw [hindex, hbit, List.getElem?_eq_getElem hi, List.getElem?_eq_getElem hi'] at hword
  exact hword

theorem bitLoop_length {f : BitMap → Int → Except Stop BitMap}
    (hf : ∀ {words i words'}, f words i = .ok words' → words'.length = words.length) (n : Nat) :
    ∀ {i words words'}, bitLoop f n i words = .ok words' → words'.length = words.length := by
  induction n with
  | zero =>
      intro i words words' h
      obtain rfl := Except.ok.inj h
      rfl
  | succ n ih =>
      intro i words words' h
      obtain ⟨words₁, hbit, h⟩ := bind_eq_ok.mp h
      rw [ih h, hf hbit]

theorem setBit_length {words words' : BitMap} {i : Int} (h : setBit words i = .ok words') :
    words'.length = words.length := by
  obtain ⟨word, -, h⟩ := bind_eq_ok.mp h
  obtain rfl := Except.ok.inj h
  exact List.length_set ..

theorem resetBit_length {words words' : BitMap} {i : Int} (h : resetBit words i = .ok words') :
    words'.length = words.length := by
  obtain ⟨word, -, h⟩ := bind_eq_ok.mp h
  obtain rfl := Except.ok.inj h
  exact List.length_set ..

/-- The allocator writes nothing but the integers of its map. -/
theorem allocate_words {m' : MemoryManager} {r : Option Nat}
    (h : BasicKernel.allocate m size = .ok (r, m')) :
    ∃ words : BitMap, words.length = m.words.length ∧ m' = { m with words } := by
  obtain ⟨⟨i, j, allocFound⟩, -, h⟩ := bind_eq_ok.mp h
  cases allocFound with
  | false =>
      obtain ⟨-, rfl⟩ := Prod.mk.inj (Except.ok.inj h)
      exact ⟨_, rfl, rfl⟩
  | true =>
      obtain ⟨m₁, hreserve, h⟩ := bind_eq_ok.mp h
      obtain ⟨-, rfl⟩ := Prod.mk.inj (Except.ok.inj h)
      obtain ⟨words, hbits, h⟩ := bind_eq_ok.mp hreserve
      obtain rfl := Except.ok.inj h
      exact ⟨words, bitLoop_length setBit_length _ hbits, rfl⟩

theorem deallocate_words {m' : MemoryManager} {r : Int}
    (h : BasicKernel.deallocate m p size = .ok (r, m')) :
    ∃ words : BitMap, words.length = m.words.length ∧ m' = { m with words } := by
  unfold BasicKernel.deallocate at h
  dsimp only at h
  split at h
  · obtain ⟨-, rfl⟩ := Prod.mk.inj (Except.ok.inj h)
    exact ⟨_, rfl, rfl⟩
  · obtain ⟨words, hbits, h⟩ := bind_eq_ok.mp h
    obtain ⟨-, rfl⟩ := Prod.mk.inj (Except.ok.inj h)
    exact ⟨words, bitLoop_length resetBit_length _ hbits, rfl⟩

/-- A page that is given back at once leaves the allocator as it was. -/
theorem Contract.allocate_deallocate (hc : Contract m live) (hpos : 1 ≤ size) (hint : size < 2 ^ 31)
    (h : BasicKernel.allocate m size = .ok (some p, m₁)) :
    BasicKernel.deallocate m₁ p size = .ok (1, m) := by
  -- The block that was given out was not allocated before.
  have hnew : (p, size) ∉ live := by
    intro hmem
    rcases hc.allocate hpos hint with ⟨q, m', hcall, hne, -⟩ | hcall
    · rw [h] at hcall
      obtain rfl := Option.some.inj (Prod.mk.inj (Except.ok.inj hcall)).1
      exact hne _ hmem rfl
    · rw [h] at hcall
      cases (Prod.mk.inj (Except.ok.inj hcall)).1
  obtain ⟨-, -, hinit₁, hc₁⟩ := hc.allocate_new hpos hint h
  obtain ⟨m₂, hfree, hinit₂, -, hc₂⟩ := hc₁.deallocate (Set.mem_insert _ _)
  -- Giving it back leaves the allocations as they were, hence the same blocks used and the same
  -- map.
  have hlive : insert (p, size) live \ {(p, size)} = live := by
    rw [Set.insert_sdiff_of_mem _ (Set.mem_singleton _), Set.sdiff_singleton_eq_self hnew]
  have hextent : ∀ x, extent m₂ x = extent m x := fun x => by
    simp only [extent, firstBlock, hinit₂, hinit₁]
  have hused : usedBlocks m₂ = usedBlocks m := by
    rw [hc₂.exact, hc.exact, hlive]
    simp only [hextent]
  obtain ⟨words₁, hlength₁, rfl⟩ := allocate_words h
  obtain ⟨words₂, hlength₂, rfl⟩ := deallocate_words hfree
  have hwords : words₂ = m.words :=
    BitMap.ext_used (hlength₂.trans hlength₁) fun q => Bool.eq_iff_iff.mpr (Set.ext_iff.mp hused q)
  rw [hfree, hwords]

end Memory

variable {m m' m₁ : Machine} {xs : List Addr} {others : List (Addr × Nat)} {pid : Int} {fuel : Nat}

/-! ## A node that is refused

The node is allocated first and its screen second. Where the screen is refused the node is given
back. -/

/-- One of the two allocations of `newScreenNode` fails. -/
def Machine.NoMemory (m : Machine) : Prop :=
  (∃ m₁, m.allocate SCREEN_NODE_SIZE = .ok (NULL, m₁)) ∨
    ∃ node m₁ m₂, node ≠ NULL ∧ m.allocate SCREEN_NODE_SIZE = .ok (node, m₁) ∧
      m₁.allocate SCREEN_SIZE = .ok (NULL, m₂)

/-- The list, the focus, the video, the saved screens and the reserved pages are as before. -/
structure Machine.Untouched (m m' : Machine) : Prop where
  list : m'.list = m.list
  isScreen : ∀ y, m'.IsScreen y ↔ m.IsScreen y
  node : ∀ y, m.IsScreen y → m'.screenNode y = m.screenNode y
  focus : m'.onFocusPid = m.onFocusPid
  video : m'.video = m.video
  reserved : ∀ a, m'.kernel.Reserved a ↔ m.kernel.Reserved a

theorem newScreenNode_noMemory {node : Addr} (h : m.NoMemory) (hrun : newScreenNode m = .ok (node, m')) :
    node = NULL := by
  rcases h with ⟨m₁, hnode⟩ | ⟨a, m₁, m₂, ha, hnode, hscreen⟩
  · rw [newScreenNode, hnode, ok_bind] at hrun
    exact (Prod.mk.inj (Except.ok.inj hrun)).1.symm
  · rw [newScreenNode, hnode, ok_bind] at hrun
    dsimp only at hrun
    rw [if_neg ha, hscreen, ok_bind] at hrun
    obtain ⟨m₃, -, hrun⟩ := bind_eq_ok.mp hrun
    rw [if_pos rfl] at hrun
    obtain ⟨m₄, -, hrun⟩ := bind_eq_ok.mp hrun
    exact (Prod.mk.inj (Except.ok.inj hrun)).1.symm

theorem Machine.allocate_memory {size : Nat} {node : Addr} {memory : MemoryManager} (hnode : node ≠ NULL)
    (h : m.allocate size = .ok (node, m.withMemory memory)) :
    BasicKernel.allocate m.kernel.memory size = .ok (some node, memory) := by
  obtain ⟨⟨p, kernel⟩, hkernel, h⟩ := bind_eq_ok.mp h
  obtain ⟨rfl, hm⟩ := Prod.mk.inj (Except.ok.inj h)
  obtain ⟨⟨r, memory'⟩, hcall, hkernel⟩ := bind_eq_ok.mp hkernel
  obtain ⟨hp, rfl⟩ := Prod.mk.inj (Except.ok.inj hkernel)
  have hmemory : memory' = memory := congrArg (fun m : Machine => m.kernel.memory) hm
  cases r with
  | none => exact absurd hp.symm hnode
  | some a =>
      obtain rfl : a = p := hp
      rw [hcall, hmemory]

/-- A node is refused for want of memory only, and then the allocator is as before. -/
theorem newScreenNode_refused {bs : List (Addr × Nat)} (ho : Owns m.kernel.memory bs)
    (hrun : newScreenNode m = .ok (NULL, m')) :
    m.NoMemory ∧ m'.kernel.memory = m.kernel.memory := by
  obtain ⟨⟨node, m₁⟩, hnode, hrun⟩ := bind_eq_ok.mp hrun
  -- The first request is for the node, the second for its screen.
  rcases Machine.allocate_cases ho SCREEN_NODE_SIZE (by decide) (by decide) with
    ⟨a, memory, hcall, ha, -, ho₁⟩ | hcall
  · rw [hcall] at hnode
    obtain ⟨rfl, rfl⟩ := Prod.mk.inj (Except.ok.inj hnode)
    dsimp only at hrun
    rw [if_neg ha] at hrun
    obtain ⟨⟨screen, m₂⟩, hscreen, hrun⟩ := bind_eq_ok.mp hrun
    obtain ⟨m₃, hmodify, hrun⟩ := bind_eq_ok.mp hrun
    rcases Machine.allocate_cases (m := m.withMemory memory) ho₁ SCREEN_SIZE (by decide) (by decide) with
      ⟨b, memory', hcall', hb, -⟩ | hcall'
    · -- with both pages the call returns the node
      rw [hcall'] at hscreen
      obtain ⟨rfl, rfl⟩ := Prod.mk.inj (Except.ok.inj hscreen)
      rw [if_neg hb] at hrun
      obtain ⟨m₄, -, hrun⟩ := bind_eq_ok.mp hrun
      exact absurd (Prod.mk.inj (Except.ok.inj hrun)).1 ha
    · refine ⟨.inr ⟨a, _, _, ha, hcall, hcall'⟩, ?_⟩
      rw [hcall'] at hscreen
      obtain ⟨rfl, rfl⟩ := Prod.mk.inj (Except.ok.inj hscreen)
      rw [if_pos rfl] at hrun
      obtain ⟨m₄, hfree, hrun⟩ := bind_eq_ok.mp hrun
      obtain ⟨-, rfl⟩ := Prod.mk.inj (Except.ok.inj hrun)
      rw [Machine.modifyScreenNode_of_ne ha] at hmodify
      obtain rfl := Except.ok.inj hmodify
      obtain ⟨k, hkernel, hfree⟩ := bind_eq_ok.mp hfree
      obtain rfl := Except.ok.inj hfree
      -- The node goes back, and the allocator is where it was.
      obtain ⟨⟨freed, memory₂⟩, hdeallocate, hkernel⟩ := bind_eq_ok.mp hkernel
      obtain rfl := Except.ok.inj hkernel
      obtain ⟨live, hc, -⟩ := ho.live
      have hback := hc.allocate_deallocate (by decide) (by decide) (Machine.allocate_memory ha hcall)
      exact (Prod.mk.inj (Except.ok.inj (hdeallocate.symm.trans hback))).2
  · rw [hcall] at hnode
    obtain ⟨rfl, rfl⟩ := Prod.mk.inj (Except.ok.inj hnode)
    obtain ⟨-, rfl⟩ := Prod.mk.inj (Except.ok.inj hrun)
    exact ⟨.inl ⟨m, hcall⟩, rfl⟩

theorem reserved_congr {k k' : Kernel} (hinit : k'.memory.initMem = k.memory.initMem)
    (hused : usedBlocks k'.memory = usedBlocks k.memory) (a : Addr) : k'.Reserved a ↔ k.Reserved a := by
  unfold Kernel.Reserved
  rw [hinit]
  exact and_congr_right fun _ => Set.ext_iff.mp hused _

/-! ## The load

The search, the new node and the switch are the three parts of a load, and only the second can
fail. -/

namespace RepScreens

theorem untouched (h : RepScreens m xs others) (hrefused : m.Refused xs m')
    (hused : usedBlocks m'.kernel.memory = usedBlocks m.kernel.memory) : m.Untouched m' := by
  obtain ⟨⟨memory, hinit, heq⟩, hkept⟩ := hrefused
  have hlist : m'.list = m.list := by
    rw [heq]
    rfl
  have hchain : Chain m'.nextScreen NULL m'.list xs := by
    rw [hlist]
    exact h.links.chain.congr fun x hx => congrArg ScreenNode.next (hkept x hx)
  refine ⟨hlist, fun y => hchain.onChain_iff.trans h.isScreen_iff.symm, fun y hy => ?_, ?_, ?_, fun a => ?_⟩
  · exact hkept y (h.isScreen_iff.mp hy)
  · rw [heq]
    rfl
  · rw [heq]
    rfl
  · refine reserved_congr ?_ hused a
    rw [heq]
    exact hinit

theorem hasScreen_iff (h : RepScreens m xs others) :
    m.HasScreen pid ↔ ∃ x ∈ xs, (m.screenNode x).pid = pid := by
  unfold Machine.HasScreen
  simp only [h.isScreen_iff]

/-- For want of memory the load returns 0. -/
theorem loadScreen_refused (h : RepScreens m xs others) (hnone : ∀ x ∈ xs, (m.screenNode x).pid ≠ pid)
    (hmemory : m.NoMemory) :
    ∃ m₁, Returns (BasicKernel.loadScreen · m pid) (0, m₁) ∧ m.Untouched m₁ := by
  -- Memory for both would be a contradiction, so the node is refused.
  rcases newScreenNode_cases h.owns with
    ⟨node, screen, memory, hnew, -, ho⟩ | ⟨memory, store, hnew, hinit, -, hkept⟩
  · have hne : node ≠ NULL := ho.ne_null (List.mem_cons_of_mem _ List.mem_cons_self)
    exact absurd (newScreenNode_noMemory hmemory hnew) hne
  -- The nodes of the list are what they were, as only the returned page was written.
  · have hsame : ∀ y ∈ xs, store y = m.screenNode y := fun y hy => hkept _ (@node_mem _ _ others _ hy)
    have hrefused : m.Refused xs { m.withMemory memory with screenNode := store } :=
      ⟨⟨memory, hinit, rfl⟩, hsame⟩
    have hadd : Returns (BasicKernel.addScreen · m m.list NULL pid)
        (m.list, { m.withMemory memory with screenNode := store }) :=
      addScreen_refused hnew h.links.chain hsame
    have hchain : Chain (Machine.nextScreen { m.withMemory memory with screenNode := store }) NULL m.list xs :=
      h.links.chain.congr fun x hx => congrArg ScreenNode.next (hsame x hx)
    -- Neither search finds a screen of the process.
    have hfind : ∀ {m₁ : Machine}, Chain m₁.nextScreen NULL m₁.list xs →
        (∀ x ∈ xs, m₁.screenNode x = m.screenNode x) → Returns (findScreenNodeByPid · m₁ pid) NULL := by
      intro m₁ hchain₁ hsame₁
      rcases findScreenNodeByPid_cases hchain₁ pid with ⟨A, x, B, rfl, hx, -⟩ | ⟨-, hfind⟩
      · have hmem : x ∈ A ++ x :: B := List.mem_append_right A List.mem_cons_self
        exact absurd hx (hsame₁ x hmem ▸ hnone x hmem)
      · exact hfind
    refine ⟨_, (hfind h.links.chain fun _ _ => rfl).bind ?_,
      h.untouched hrefused (congrArg usedBlocks (newScreenNode_refused h.owns hnew).2)⟩
    simp only [if_true]
    refine hadd.bind ((hfind hchain hsame).bind ?_)
    exact .const _ _

/-- With memory for a node and a screen the load does not return 0. -/
theorem loadScreen_new (h : RepScreens m xs others) (hnone : ∀ x ∈ xs, (m.screenNode x).pid ≠ pid)
    (hmemory : ¬ m.NoMemory) : BasicKernel.loadScreen fuel m pid ≠ .ok (0, m') := by
  intro hrun
  rcases newScreenNode_cases h.owns with
    ⟨node, screen, memory, hnew, -, ho⟩ | ⟨memory, store, hnew, -⟩
  -- The node is new, and the old ones are what they were.
  · have hne : node ≠ NULL := ho.ne_null (List.mem_cons_of_mem _ List.mem_cons_self)
    have ho' : Owns memory ((node, SCREEN_NODE_SIZE) :: (m.screenBlocks xs ++ others)) :=
      ho.sublist (List.sublist_cons_self _ _)
    have hfresh : node ∉ xs := fun hmem => ho'.fresh (@node_mem _ _ others _ hmem) rfl
    generalize hm₁ : ({ m.withMemory memory with
        video := clear m.video screen
        screenNode := Function.update m.screenNode node
          { m.screenNode node with screen := screen, currentPosition := screen } } : Machine) = m₁ at hnew
    have hsame : ∀ y ∈ xs, m₁.screenNode y = m.screenNode y := by
      intro y hy
      have hy' : y ≠ node := fun heq => hfresh (heq ▸ hy)
      rw [← hm₁]
      exact Function.update_of_ne hy' _ _
    have hadd : Returns (BasicKernel.addScreen · m m.list NULL pid)
        ((xs ++ [node]).headD NULL, m₁.linkScreen xs NULL node pid) :=
      addScreen_appends hnew hne h.links.chain hfresh hsame
    have hlinks : Doubly (m₁.linkScreen xs NULL node pid).nextScreen
        (m₁.linkScreen xs NULL node pid).prevScreen NULL ((xs ++ [node]).headD NULL) (xs ++ [node]) :=
      h.linkScreen_links hfresh hne hsame
    -- the search behind `addScreen` finds the new node
    obtain ⟨node₁, hfind₁, hrun⟩ := bind_eq_ok.mp hrun
    have hfirst : node₁ = NULL := by
      rcases findScreenNodeByPid_cases h.links.chain pid with ⟨A, x, B, rfl, hx, -⟩ | ⟨-, hfind⟩
      · exact absurd hx (hnone x (List.mem_append_right A List.mem_cons_self))
      · exact hfind.eq hfind₁
    rw [if_pos hfirst] at hrun
    obtain ⟨⟨list, m₂⟩, hadd₂, hrun⟩ := bind_eq_ok.mp hrun
    obtain ⟨rfl, rfl⟩ := Prod.mk.inj (hadd.eq hadd₂)
    obtain ⟨node₂, hfind₂, hrun⟩ := bind_eq_ok.mp hrun
    have hsecond : node₂ ≠ NULL := by
      have hchain : Chain (Machine.nextScreen { m₁.linkScreen xs NULL node pid with
          list := (xs ++ [node]).headD NULL }) NULL ((xs ++ [node]).headD NULL) (xs ++ [node]) := hlinks.chain
      rcases findScreenNodeByPid_cases hchain pid with ⟨A, x, B, hxs, -, -, hfind⟩ | ⟨hnever, -⟩
      · obtain rfl := hfind.eq hfind₂
        exact fun hnull => hchain.nil_notMem (hnull ▸ hxs ▸ List.mem_append_right A List.mem_cons_self)
      · refine absurd ?_ (hnever node (List.mem_append_right _ (List.mem_singleton_self _)))
        show ((m₁.linkScreen xs NULL node pid).screenNode node).pid = pid
        rw [m₁.linkScreen_self NULL pid hfresh]
    rw [if_neg hsecond] at hrun
    obtain ⟨m₃, -, hrun⟩ := bind_eq_ok.mp hrun
    exact absurd (Prod.mk.inj (Except.ok.inj hrun)).1 (by decide)
  · exact hmemory (newScreenNode_refused h.owns hnew).1

end RepScreens

/-- `loadScreen` returns 0 if and only if the process has no screen and there is no memory for one, and then
everything is as before. -/
theorem failed_load_changes_nothing (h : Reachable MachineStart (MachineStep fun _ _ => True) (m, others))
    (pid : Int) :
    (∀ fuel r m', loadScreen fuel m pid = .ok (r, m') →
      (r = 0 ↔ ¬ m.HasScreen pid ∧ m.NoMemory) ∧ (r = 0 → m.Untouched m')) ∧
    (¬ m.HasScreen pid ∧ m.NoMemory → ∃ m', Returns (loadScreen · m pid) (0, m')) := by
  obtain ⟨xs, lost, hrep⟩ := (Machine.Sane.of_reachable h).list
  -- Without a screen and without memory the load ends and returns 0.
  have hrefused : ¬ m.HasScreen pid ∧ m.NoMemory →
      ∃ m₁, Returns (loadScreen · m pid) (0, m₁) ∧ m.Untouched m₁ := by
    rintro ⟨hnone, hmemory⟩
    exact hrep.loadScreen_refused (fun x hx heq => hnone (hrep.hasScreen_iff.mpr ⟨x, hx, heq⟩)) hmemory
  -- Conversely a screen would be shown, and with memory one would be made.
  have hzero : ∀ fuel m', loadScreen fuel m pid = .ok (0, m') → ¬ m.HasScreen pid ∧ m.NoMemory := by
    intro fuel m' hrun
    have hnone : ¬ m.HasScreen pid := by
      intro hscreen
      obtain ⟨x, hx, rfl⟩ := hrep.hasScreen_iff.mp hscreen
      obtain ⟨m₁, -, hload, -⟩ := hrep.loadScreen_of_mem hx
      exact absurd (Prod.mk.inj (hload.eq hrun)).1 (by decide)
    refine ⟨hnone, ?_⟩
    by_contra hmemory
    exact hrep.loadScreen_new (fun x hx heq => hnone (hrep.hasScreen_iff.mpr ⟨x, hx, heq⟩)) hmemory hrun
  refine ⟨fun fuel r m' hrun => ⟨⟨?_, fun hfail => ?_⟩, ?_⟩, fun hfail => ?_⟩
  · rintro rfl
    exact hzero fuel m' hrun
  · obtain ⟨m₁, hload, -⟩ := hrefused hfail
    exact (Prod.mk.inj (hload.eq hrun)).1
  · rintro rfl
    obtain ⟨m₁, hload, huntouched⟩ := hrefused (hzero fuel m' hrun)
    obtain ⟨-, rfl⟩ := Prod.mk.inj (hload.eq hrun)
    exact huntouched
  · obtain ⟨m₁, hload, -⟩ := hrefused hfail
    exact ⟨m₁, hload⟩

theorem RepScreens.not_hasScreen_of_find {m : Machine} {xs : List Addr} {others : List (Addr × Nat)}
    {pid : Int} {fuel : Nat} (h : RepScreens m xs others)
    (hfind : findScreenNodeByPid fuel m pid = .ok NULL) : ¬ m.HasScreen pid := by
  rcases findScreenNodeByPid_cases h.links.chain pid with ⟨A, x, B, rfl, -, -, hreturns⟩ | ⟨hnever, -⟩
  · obtain rfl := hreturns.eq hfind
    exact absurd (List.mem_append_right A List.mem_cons_self) h.links.chain.nil_notMem
  · rw [h.hasScreen_iff]
    rintro ⟨x, hx, hpid⟩
    exact hnever x hx hpid

/-! ## The last free page

One free page is enough for a node and not for its screen. -/

theorem Machine.allocate_eq {m : Machine} {size : Nat} {r : Option Addr} {memory : MemoryManager}
    (h : BasicKernel.allocate m.kernel.memory size = .ok (r, memory)) :
    m.allocate size = .ok (r.getD NULL, m.withMemory memory) := by
  unfold Machine.allocate Kernel.allocate
  rw [h]
  rfl

/-- There is one free block: the node gets it, and the screen gets none. -/
theorem Machine.refused_of_one_block {m : Machine} (hm : Region m.kernel.memory)
    (hinit : 0 < m.kernel.memory.initMem) {b : Nat} (hblocks : m.kernel.memory.blocksAmount = b + 1)
    (hused : ∀ q, used m.kernel.memory.words q = decide (q < b)) : ∃ node m₁ m₂, node ≠ NULL ∧
      m.allocate SCREEN_NODE_SIZE = .ok (node, m₁) ∧ m₁.allocate SCREEN_SIZE = .ok (NULL, m₂) := by
  -- The only block that is free is the last.
  have hfree : ∀ {s}, used m.kernel.memory.words s = false → b ≤ s := by
    intro s hs
    rw [hused] at hs
    exact Nat.le_of_not_lt (of_decide_eq_false hs)
  have hone : blocksOf SCREEN_NODE_SIZE = (1 : Nat) := by decide
  have height : blocksOf SCREEN_SIZE = (8 : Nat) := by decide +kernel
  rcases allocate_firstFit hm.map hone le_rfl with
    ⟨s, words, hnode, ⟨-, hs, hrun, -⟩, hlen, hwords⟩ | ⟨-, hnone⟩
  · obtain rfl : s = b := by
      have := hfree (hrun s le_rfl (Nat.lt_succ_self s))
      omega
    have hne : (some (blockAddress m.kernel.memory s)).getD NULL ≠ NULL := by
      rw [Option.getD_some, blockAddress_eq hm (by omega)]
      exact Nat.ne_of_gt (Nat.add_pos_left hinit _)
    have hmap : MapOk { m.kernel.memory with words } := (hm.withWords hlen).map
    rcases allocate_firstFit hmap height (by decide) with
      ⟨s', _, -, ⟨-, hs', hrun', -⟩, -⟩ | ⟨hscreen, -⟩
    -- The eight blocks of a screen do not fit behind the node.
    · have hboth := hrun' s' le_rfl (Nat.lt_add_of_pos_right (by decide))
      replace hs' : (s' : Int) ≤ m.kernel.memory.blocksAmount - 8 := hs'
      rw [hwords, if_neg (by omega), hused] at hboth
      exact absurd (of_decide_eq_false hboth) (by omega)
    · exact ⟨_, _, _, hne, allocate_eq hnode, allocate_eq (m := m.withMemory _) hscreen⟩
  · refine absurd (fun q hq hlt => ?_) (hnone b (by omega))
    rw [hused]
    exact decide_eq_false (by omega)

/-- The map when nine blocks are used. -/
theorem used_nine (n q : Nat) : used (0x1ff#32 :: List.replicate n 0#32) q = decide (q < 9) := by
  have hlow : ∀ i < 32, (0x1ff#32).getLsbD i = decide (i < 9) := by decide
  unfold used
  by_cases hq : q < 32
  · rw [show q / INT_BITS = 0 from Nat.div_eq_of_lt hq, show q % INT_BITS = q from Nat.mod_eq_of_lt hq]
    exact hlow q hq
  · obtain ⟨j, hj⟩ : ∃ j, q / INT_BITS = j + 1 := by
      refine Nat.exists_eq_succ_of_ne_zero (Nat.one_le_iff_ne_zero.mp ?_)
      exact (Nat.one_le_div_iff (by decide)).mpr (Nat.le_of_not_lt hq)
    rw [hj, List.getElem?_cons_succ, List.getElem?_replicate, decide_eq_false (by omega : ¬ q < 9)]
    split_ifs <;> simp

/-- Nine blocks are used, and a request takes all the others but the last. -/
theorem allocate_all_but_one {m : MemoryManager} (hm : MapOk m) (hblocks : m.blocksAmount = 28671)
    (hused : ∀ q, used m.words q = decide (q < 9)) :
    ∃ p words, allocate m (28661 * PAGE_SIZE) = .ok (some p, { m with words }) ∧
      words.length = m.words.length ∧ ∀ q, used words q = decide (q < 28670) := by
  have hrest : FreeRun m.words 9 28661 := by
    intro q hq _
    rw [hused]
    exact decide_eq_false (Nat.not_lt.mpr hq)
  have hcount : blocksOf (28661 * PAGE_SIZE) = (28661 : Nat) := by decide
  rcases allocate_firstFit hm hcount (by decide) with
    ⟨s, words, hcall, ⟨-, hs, hrun, hfirst⟩, hlen, hwords⟩ | ⟨-, hnone⟩
  · obtain rfl : s = 9 := by
      have hstart := hrun s le_rfl (Nat.lt_add_of_pos_right (by decide))
      rw [hused] at hstart
      have hle : 9 ≤ s := Nat.le_of_not_lt (of_decide_eq_false hstart)
      by_contra hne
      exact hfirst 9 (Nat.zero_le 9) (by omega) hrest
    refine ⟨_, words, hcall, hlen, fun q => ?_⟩
    rw [hwords, hused]
    split_ifs <;> simp <;> omega
  · exact absurd hrest (hnone 9 (by omega))

/-- The process 1 has a screen, and somebody else takes all pages but one. The node of a second screen gets
that page, its screen none, and the page is free again. -/
theorem failed_load_rolled_back : ∃ m m' others,
    Reachable MachineStart (MachineStep fun _ _ => True) (m, others) ∧ m.onFocusPid = 1 ∧
      (∃ node m₁ m₂, node ≠ NULL ∧ m.allocate SCREEN_NODE_SIZE = .ok (node, m₁) ∧
        m₁.allocate SCREEN_SIZE = .ok (NULL, m₂)) ∧
      Returns (loadScreen · m 2) (0, m') ∧ m.Untouched m' := by
  have hrun : (do
      let m ← (MachineOp.loadScreen 1).run 10 startMachine
      let node ← findScreenNodeByPid 10 m 2
      return decide (node = NULL ∧ m.onFocusPid = 1 ∧ m.kernel.memory.initMem = 0x1000000 ∧
        m.kernel.memory.blocksAmount = 28671 ∧
        m.kernel.memory.words = 0x1ff#32 :: List.replicate 895 0#32) : Except Stop Bool) = .ok true := by
    decide +kernel
  obtain ⟨m, hload, hrun⟩ := bind_eq_ok.mp hrun
  obtain ⟨node, hfind, hrun⟩ := bind_eq_ok.mp hrun
  obtain ⟨rfl, hfocus, hinit, hblocks, hwords⟩ := of_decide_eq_true (Except.ok.inj hrun)
  -- The process 1 has loaded its screen, and the process 2 has none.
  have hstart : Reachable MachineStart (MachineStep fun _ _ => True) (m, []) :=
    .next (.start ⟨startMachine_start, rfl⟩)
      (@MachineStep.call _ _ _ _ (.loadScreen 1) 10 (show (0 : Int) ≤ 1 by decide) trivial hload)
  obtain ⟨xs, lost, hrep⟩ := (Machine.Sane.of_reachable hstart).list
  obtain ⟨live, hcontract, -⟩ := hrep.owns.live
  have hregion : Region m.kernel.memory := hcontract.region
  obtain ⟨p, words, hcall, hlen, hused⟩ := allocate_all_but_one hregion.map hblocks
    (by rw [hwords]; exact used_nine 895)
  -- the blocks that are taken belong to somebody else
  generalize hm₁ : ({ m with kernel := { m.kernel with memory := { m.kernel.memory with words } } } :
    Machine) = m₁
  have hreach : Reachable MachineStart (MachineStep fun _ _ => True) (m₁, [(p, 28661 * PAGE_SIZE)]) := by
    subst hm₁
    exact hstart.next (.elsewhere (.allocated (by decide) (by decide) hcall))
  have hrefused : ∃ node m₂ m₃, node ≠ NULL ∧ m₁.allocate SCREEN_NODE_SIZE = .ok (node, m₂) ∧
      m₂.allocate SCREEN_SIZE = .ok (NULL, m₃) := by
    subst hm₁
    exact Machine.refused_of_one_block (hregion.withWords hlen) (by rw [hinit]; decide) hblocks hused
  have hnone : ¬ m₁.HasScreen 2 := by
    subst hm₁
    exact hrep.not_hasScreen_of_find hfind
  obtain ⟨hzero, hends⟩ := failed_load_changes_nothing hreach 2
  -- Both facts together are the condition of the failure.
  obtain ⟨m', hreturns⟩ := hends ⟨hnone, .inr hrefused⟩
  obtain ⟨fuel, hfail⟩ := hreturns.exists_fuel
  refine ⟨m₁, m', _, hreach, ?_, hrefused, hreturns, (hzero fuel 0 m' hfail).2 rfl⟩
  subst hm₁
  exact hfocus

end BasicKernel
