import BasicKernel.Screen.ScreenLoader
import BasicKernel.Lib.Doubly
import BasicKernel.Lib.Transition
import BasicKernel.View.Script

set_option autoImplicit false

/-! # The list of screens

What the operations of `screenLoader.c` do to the list of screen nodes. The two recursive functions
store the result of every call into `next` of the node in front: only the store into the neighbour of
a new or removed node is a change.

`screen_list_invariant` has the result over runs: the links agree in both directions, no process
has two nodes, and no two saved screens share a byte.
-/

namespace BasicKernel

open Linked Fuel Transition

/-! ## Representation

The links of the list and the pages of its nodes, with those that others have. -/

def Machine.nextScreen (m : Machine) (p : Addr) : Addr := (m.screenNode p).next

def Machine.prevScreen (m : Machine) (p : Addr) : Addr := (m.screenNode p).prev

/-- The pages of the nodes `xs`: each has its own and those of its saved screen. -/
def Machine.screenBlocks (m : Machine) (xs : List Addr) : List (Addr × Nat) :=
  xs.flatMap fun x => [(x, SCREEN_NODE_SIZE), ((m.screenNode x).screen, SCREEN_SIZE)]

/-- The nodes `xs` are the list of screens. They own their pages, beside `others`. -/
structure RepScreens (m : Machine) (xs : List Addr) (others : List (Addr × Nat)) : Prop where
  links : Doubly m.nextScreen m.prevScreen NULL m.list xs
  pids : (xs.map fun x => (m.screenNode x).pid).Nodup
  pid_nonneg : ∀ x ∈ xs, 0 ≤ (m.screenNode x).pid
  focus : m.onFocusPid = NO_FOCUS ∨ ∃ x ∈ xs, (m.screenNode x).pid = m.onFocusPid
  owns : Owns m.kernel.memory (m.screenBlocks xs ++ others)

variable {m m' m₁ : Machine} {xs ys A B : List Addr} {bs others : List (Addr × Nat)}
  {p node current prev c : Addr} {pid : Int}

theorem mem_screenBlocks {b : Addr × Nat} : b ∈ m.screenBlocks xs ↔
    ∃ x ∈ xs, b = (x, SCREEN_NODE_SIZE) ∨ b = ((m.screenNode x).screen, SCREEN_SIZE) := by
  unfold Machine.screenBlocks
  simp only [List.mem_flatMap, List.mem_cons, List.not_mem_nil, or_false]

theorem Machine.modifyScreenNode_of_ne (h : p ≠ NULL) (f : ScreenNode → ScreenNode) :
    m.modifyScreenNode p f =
      .ok { m with screenNode := Function.update m.screenNode p (f (m.screenNode p)) } := by
  unfold Machine.modifyScreenNode
  rw [modify_of_ne h]
  rfl

/-! ## Searching

The list has no two nodes of one process, so a search can find one node only. -/

/-- The search finds the first node of the process, or none. -/
theorem findScreenNodeByPid_spec (hlist : Chain m.nextScreen NULL m.list xs) (pid : Int) :
    Returns (findScreenNodeByPid · m pid)
      ((xs.find? fun x => (m.screenNode x).pid = pid).getD NULL) := by
  have hne : ∀ x ∈ xs, x ≠ NULL := fun x hx heq => hlist.nil_notMem (heq ▸ hx)
  refine hlist.walkWhile (p := fun x => (m.screenNode x).pid = pid) (if_pos rfl) (fun x hx => ?_)
    fun x hx => ?_
  · rw [if_neg (hne x hx), decide_not]
  · rw [load_of_ne (hne x hx)]
    rfl

theorem findScreenNodeByPid_cases (hlist : Chain m.nextScreen NULL m.list xs) (pid : Int) :
    (∃ A x B, xs = A ++ x :: B ∧ (m.screenNode x).pid = pid ∧
        (∀ y ∈ A, (m.screenNode y).pid ≠ pid) ∧ Returns (findScreenNodeByPid · m pid) x) ∨
      (∀ x ∈ xs, (m.screenNode x).pid ≠ pid) ∧ Returns (findScreenNodeByPid · m pid) NULL := by
  have hfind := findScreenNodeByPid_spec hlist pid
  cases hx : xs.find? fun x => (m.screenNode x).pid = pid with
  | none =>
      rw [hx] at hfind
      refine .inr ⟨fun x hmem heq => ?_, hfind⟩
      exact absurd (decide_eq_true heq) (List.find?_eq_none.mp hx x hmem)
  | some x =>
      rw [hx] at hfind
      obtain ⟨hpid, A, B, hxs, hA⟩ := List.find?_eq_some_iff_append.mp hx
      exact .inl ⟨A, x, B, hxs, of_decide_eq_true hpid, fun y hy heq =>
        by simpa [heq] using hA y hy, hfind⟩

/-- A node is found by its process. -/
theorem RepScreens.find (h : RepScreens m xs others) {x : Addr} (hx : x ∈ xs) :
    Returns (findScreenNodeByPid · m (m.screenNode x).pid) x := by
  rcases findScreenNodeByPid_cases h.links.chain (m.screenNode x).pid with
    ⟨A, y, B, hxs, hpid, -, hfind⟩ | ⟨hnone, -⟩
  · have hy : y ∈ xs := hxs ▸ List.mem_append_right A List.mem_cons_self
    rwa [List.inj_on_of_nodup_map h.pids hy hx hpid] at hfind
  · exact absurd rfl (hnone x hx)

/-! ## A new node

The recursion goes to the end of the list and links the new node on the way back. -/

/-- The node is linked behind the nodes `ys`, the first of which is behind `prev`. -/
def Machine.linkScreen (m : Machine) (ys : List Addr) (prev node : Addr) (pid : Int) : Machine :=
  let store := Function.update m.screenNode node
    { m.screenNode node with pid := pid, next := NULL, prev := ys.getLastD prev }
  { m with
    screenNode :=
      match ys.getLast? with
      | none => store
      | some last => Function.update store last { store last with next := node } }

theorem Machine.linkScreen_concat (m : Machine) (ys : List Addr) (last prev node : Addr) (pid : Int) :
    (m.linkScreen (ys ++ [last]) prev node pid).screenNode =
      Function.update (Function.update m.screenNode node
          { m.screenNode node with pid := pid, next := NULL, prev := last }) last
        { Function.update m.screenNode node
            { m.screenNode node with pid := pid, next := NULL, prev := last } last with
          next := node } := by
  unfold linkScreen
  simp only [List.getLast?_concat, List.getLastD_concat]

/-- A store of the successor that a node has is no change. -/
theorem Machine.modifyScreenNode_next (hp : p ≠ NULL) {next : Addr}
    (h : (m.screenNode p).next = next) :
    m.modifyScreenNode p (fun n => { n with next := next }) = .ok m := by
  subst h
  rw [Machine.modifyScreenNode_of_ne hp, Function.update_eq_self]

theorem addScreen_cons (hne : current ≠ NULL) (fuel : Nat) :
    addScreen (fuel + 1) m current prev pid =
      addScreen fuel m (m.nextScreen current) current pid >>= fun r =>
        r.2.modifyScreenNode current (fun n => { n with next := r.1 }) >>= fun m => .ok (current, m) := by
  rw [addScreen, if_neg hne, load_of_ne hne, ok_bind]
  rfl

theorem addScreen_refused (hnew : newScreenNode m = .ok (NULL, m₁)) :
    ∀ {ys current prev}, Chain m.nextScreen NULL current ys →
      (∀ y ∈ ys, m₁.screenNode y = m.screenNode y) →
      Returns (addScreen · m current prev pid) (current, m₁) := by
  intro ys
  induction ys with
  | nil =>
      intro current prev hchain _
      obtain rfl := Chain.nil_iff.mp hchain
      refine Returns.succ rfl (fun fuel => ?_) (.const _ _)
      rw [addScreen, if_pos rfl, hnew]
      rfl
  | cons y ys ih =>
      intro current prev hchain hsame
      obtain ⟨rfl, hne, htail⟩ := Chain.cons_iff.mp hchain
      have hrec := @ih _ current htail fun z hz => hsame z (List.mem_cons_of_mem _ hz)
      have hnext : (m₁.screenNode current).next = m.nextScreen current := by
        rw [hsame current List.mem_cons_self]
        rfl
      refine Returns.succ rfl (addScreen_cons hne) (hrec.bind ?_)
      rw [Machine.modifyScreenNode_next hne hnext]
      exact .const _ _

theorem addScreen_appends (hnew : newScreenNode m = .ok (node, m₁)) (hnode : node ≠ NULL) :
    ∀ {ys current prev}, Chain m.nextScreen NULL current ys → node ∉ ys →
      (∀ y ∈ ys, m₁.screenNode y = m.screenNode y) →
      Returns (addScreen · m current prev pid)
        ((ys ++ [node]).headD NULL, m₁.linkScreen ys prev node pid) := by
  intro ys
  -- By induction on the list behind `current`, which the recursion follows.
  induction ys with
  | nil =>
      intro current prev hchain _ _
      obtain rfl := Chain.nil_iff.mp hchain
      refine Returns.succ rfl (fun fuel => ?_) (.const _ _)
      rw [addScreen, if_pos rfl, hnew, ok_bind]
      dsimp only
      rw [if_neg hnode, Machine.modifyScreenNode_of_ne hnode]
      rfl
  | cons y ys ih =>
      intro current prev hchain hfresh hsame
      obtain ⟨rfl, hne, htail⟩ := Chain.cons_iff.mp hchain
      -- The call on the rest, whose result is stored into `next` of this node.
      have hcur : current ≠ node := fun heq => hfresh (heq ▸ List.mem_cons_self)
      have hrec := @ih _ current htail (fun hmem => hfresh (List.mem_cons_of_mem _ hmem))
        fun z hz => hsame z (List.mem_cons_of_mem _ hz)
      have hkept := hsame current List.mem_cons_self
      refine Returns.succ rfl (addScreen_cons hne) (hrec.bind ?_)
      -- Only at the last node is that store a change.
      rcases List.eq_nil_or_concat ys with rfl | ⟨zs, last, rfl⟩
      · rw [Machine.modifyScreenNode_of_ne hne]
        exact .const _ _
      · rw [List.concat_eq_append] at *
        have hlast : current ≠ last := by
          rintro rfl
          have hnodup := (Chain.cons_iff.mpr ⟨rfl, hne, htail⟩ : Chain m.nextScreen NULL current _).nodup
          exact (List.nodup_cons.mp hnodup).1 (List.mem_append_right zs (List.mem_singleton_self _))
        have hcons : (zs ++ [last] ++ [node]).headD NULL = m.nextScreen current := by
          cases zs with
          | nil => exact (Chain.cons_iff.mp htail).1.symm
          | cons z zs => exact (Chain.cons_iff.mp htail).1.symm
        have hnext : ((m₁.linkScreen (zs ++ [last]) current node pid).screenNode current).next =
            (zs ++ [last] ++ [node]).headD NULL := by
          rw [Machine.linkScreen_concat, Function.update_of_ne hlast, Function.update_of_ne hcur, hkept,
            hcons]
          rfl
        have hlink : m₁.linkScreen (zs ++ [last]) current node pid =
            m₁.linkScreen (current :: (zs ++ [last])) prev node pid := by
          rw [← List.cons_append]
          unfold Machine.linkScreen
          simp only [List.getLast?_concat, List.getLastD_concat]
        rw [Machine.modifyScreenNode_next hne hnext, hlink]
        exact .const _ _

/-! ## Removing a node

The recursion goes as far as the node, and its calls return the list without it. Behind the node
only the next one is touched. -/

/-- The nodes `A` and `B` around a removed node are linked to each other. The first of them is behind
`prev`. -/
def Machine.unlinkScreen (m : Machine) (A B : List Addr) (prev : Addr) : Machine :=
  let store :=
    match B.head? with
    | none => m.screenNode
    | some b => Function.update m.screenNode b { m.screenNode b with prev := A.getLastD prev }
  { m with
    screenNode :=
      match A.getLast? with
      | none => store
      | some last => Function.update store last { store last with next := B.headD NULL } }

theorem Machine.unlinkScreen_concat (m : Machine) (A B : List Addr) (last prev : Addr) :
    (m.unlinkScreen (A ++ [last]) B prev).screenNode =
      Function.update (m.unlinkScreen [] B last).screenNode last
        { (m.unlinkScreen [] B last).screenNode last with next := B.headD NULL } := by
  unfold unlinkScreen
  simp only [List.getLast?_concat, List.getLastD_concat, List.getLast?_nil, List.getLastD_nil]

theorem Machine.unlinkScreen_head_of_notMem {x : Addr} (hx : x ∉ B) :
    (m.unlinkScreen [] B prev).screenNode x = m.screenNode x := by
  cases B with
  | nil => rfl
  | cons b B =>
      refine Function.update_of_ne ?_ _ _
      rintro rfl
      exact hx List.mem_cons_self

theorem removeScreenInner_cons {node : ScreenNode} (hne : current ≠ NULL)
    (hnode : m.screenNode current = node) (hpid : node.pid ≠ pid) (fuel : Nat) :
    removeScreenInner (fuel + 1) m current prev pid =
      removeScreenInner fuel m node.next current pid >>= fun r =>
        r.2.modifyScreenNode current (fun n => { n with next := r.1 }) >>= fun m => .ok (current, m) := by
  rw [removeScreenInner, if_neg hne, load_of_ne hne, ok_bind, hnode, if_neg hpid]
  rfl

/-- A process without a node: nothing changes. -/
theorem removeScreenInner_none : ∀ {ys current prev}, Chain m.nextScreen NULL current ys →
    (∀ y ∈ ys, (m.screenNode y).pid ≠ pid) →
    Returns (removeScreenInner · m current prev pid) (current, m) := by
  intro ys
  induction ys with
  | nil =>
      intro current prev hchain _
      obtain rfl := Chain.nil_iff.mp hchain
      refine Returns.succ rfl (fun fuel => ?_) (.const _ _)
      rw [removeScreenInner, if_pos rfl]
  | cons y ys ih =>
      intro current prev hchain hpids
      obtain ⟨rfl, hne, htail⟩ := Chain.cons_iff.mp hchain
      have hrec := @ih _ current htail fun z hz => hpids z (List.mem_cons_of_mem _ hz)
      refine Returns.succ rfl (removeScreenInner_cons hne rfl (hpids current List.mem_cons_self))
        (hrec.bind ?_)
      have hnext : (m.screenNode current).next = m.nextScreen current := rfl
      rw [Machine.modifyScreenNode_next hne hnext]
      exact .const _ _

/-- The node that is found. -/
theorem removeScreenInner_head {k₁ k₂ : Kernel} (hchain : Chain m.nextScreen NULL c (c :: B))
    (hpid : (m.screenNode c).pid = pid)
    (hscreen : m.kernel.deallocate (m.screenNode c).screen SCREEN_SIZE = .ok k₁)
    (hnode : k₁.deallocate c SCREEN_NODE_SIZE = .ok k₂) (fuel : Nat) :
    removeScreenInner (fuel + 1) m c prev pid =
      .ok (B.headD NULL, { m.unlinkScreen [] B prev with kernel := k₂ }) := by
  obtain ⟨-, hne, htail⟩ := Chain.cons_iff.mp hchain
  rw [removeScreenInner, if_neg hne, load_of_ne hne, ok_bind, if_pos hpid]
  have hnext : (m.screenNode c).next = B.headD NULL := by
    cases B with
    | nil => exact Chain.nil_iff.mp htail
    | cons b B => exact (Chain.cons_iff.mp htail).1
  rw [hnext]
  -- both stores go to the successor, which is another node
  have hrest : ∀ m₁ : Machine, m₁.kernel = m.kernel → m₁.screenNode c = m.screenNode c →
      (do
        let node ← load m₁.screenNode c
        let m ← m₁.deallocate node.screen SCREEN_SIZE
        let m ← m.deallocate c SCREEN_NODE_SIZE
        pure (B.headD NULL, m)) =
      (.ok (B.headD NULL, { m₁ with kernel := k₂ }) : Except Stop (Addr × Machine)) := by
    intro m₁ hkernel hc
    rw [load_of_ne hne, ok_bind, hc]
    unfold Machine.deallocate
    rw [hkernel, hscreen, ok_bind]
    dsimp only [pure_eq_ok, ok_bind]
    rw [hnode]
    rfl
  -- Without a successor there is no store at all.
  cases B with
  | nil =>
      rw [List.headD_nil]
      exact hrest m rfl rfl
  | cons b B =>
      have hbne : b ≠ NULL := fun heq => htail.nil_notMem (heq ▸ List.mem_cons_self)
      have hbc : c ≠ b := by
        rintro rfl
        exact (List.nodup_cons.mp hchain.nodup).1 List.mem_cons_self
      rw [List.headD_cons]
      dsimp only
      rw [if_pos hbne, Machine.modifyScreenNode_of_ne hbne, ok_bind]
      exact hrest _ rfl (Function.update_of_ne hbc _ _)

/-- The first node of the process is taken out. -/
theorem removeScreenInner_found {k₁ k₂ : Kernel} (hpid : (m.screenNode c).pid = pid)
    (hscreen : m.kernel.deallocate (m.screenNode c).screen SCREEN_SIZE = .ok k₁)
    (hnode : k₁.deallocate c SCREEN_NODE_SIZE = .ok k₂) :
    ∀ {A current prev}, Chain m.nextScreen NULL current (A ++ c :: B) →
      (∀ y ∈ A, (m.screenNode y).pid ≠ pid) →
      Returns (removeScreenInner · m current prev pid)
        ((A ++ B).headD NULL, { m.unlinkScreen A B prev with kernel := k₂ }) := by
  intro A
  -- By induction on the nodes in front of the one that is found.
  induction A with
  | nil =>
      intro current prev hchain _
      obtain ⟨rfl, -⟩ := Chain.cons_iff.mp hchain
      exact Returns.succ rfl (removeScreenInner_head hchain hpid hscreen hnode) (.const _ _)
  | cons y A ih =>
      intro current prev hchain hpids
      obtain ⟨rfl, hne, htail⟩ := Chain.cons_iff.mp hchain
      have hrec := @ih _ current htail fun z hz => hpids z (List.mem_cons_of_mem _ hz)
      refine Returns.succ rfl (removeScreenInner_cons hne rfl (hpids current List.mem_cons_self))
        (hrec.bind ?_)
      -- The store changes `next` only of the node right in front.
      rcases List.eq_nil_or_concat A with rfl | ⟨zs, last, rfl⟩
      · rw [Machine.modifyScreenNode_of_ne hne]
        exact .const _ _
      · rw [List.concat_eq_append] at *
        have hnodup : (current :: (zs ++ [last] ++ c :: B)).Nodup := by
          rw [← List.cons_append]
          exact hchain.nodup
        have hnotMem := (List.nodup_cons.mp hnodup).1
        have hlast : current ≠ last := by
          rintro rfl
          exact hnotMem (by simp)
        -- Neither the later nodes nor the one taken out is this node, by the chain.
        have hcB : current ∉ B := fun hmem => hnotMem (by simp [hmem])
        have hhead : (zs ++ [last] ++ B).headD NULL = m.nextScreen current := by
          cases zs with
          | nil => exact (Chain.cons_iff.mp htail).1.symm
          | cons z zs => exact (Chain.cons_iff.mp htail).1.symm
        have hnext : ((m.unlinkScreen (zs ++ [last]) B current).screenNode current).next =
            (zs ++ [last] ++ B).headD NULL := by
          rw [Machine.unlinkScreen_concat, Function.update_of_ne hlast,
            Machine.unlinkScreen_head_of_notMem hcB, hhead]
          rfl
        have hunlink : m.unlinkScreen (zs ++ [last]) B current =
            m.unlinkScreen (current :: (zs ++ [last])) B prev := by
          rw [← List.cons_append]
          unfold Machine.unlinkScreen
          simp only [List.getLast?_concat, List.getLastD_concat]
        rw [Machine.modifyScreenNode_next (m := { m.unlinkScreen (zs ++ [last]) B current with
          kernel := k₂ }) hne hnext, hunlink]
        exact .const _ _

/-! ## Allocation

A node and its screen are two blocks. With the second refused the first is given back. -/

/-- The machine with other memory. -/
def Machine.withMemory (m : Machine) (memory : MemoryManager) : Machine :=
  { m with kernel := { m.kernel with memory } }

theorem Machine.allocate_cases (ho : Owns m.kernel.memory bs) (size : Nat) (hpos : 1 ≤ size)
    (hint : size < 2 ^ 31) :
    (∃ p memory, m.allocate size = .ok (p, m.withMemory memory) ∧ p ≠ NULL ∧
        memory.initMem = m.kernel.memory.initMem ∧ Owns memory ((p, size) :: bs)) ∨
      m.allocate size = .ok (NULL, m) := by
  unfold Machine.allocate
  rcases ho.allocate size hpos hint with ⟨p, memory, hcall, hp, ho'⟩ | hcall
  · left
    refine ⟨p, memory, by rw [hcall]; rfl, hp, ?_, ho'⟩
    obtain ⟨⟨r, memory'⟩, hmem, hkernel⟩ := bind_eq_ok.mp hcall
    obtain ⟨-, hk⟩ := Prod.mk.inj (Except.ok.inj hkernel)
    have heq : memory' = memory := congrArg Kernel.memory hk
    subst heq
    exact allocate_initMem hmem
  · right
    rw [hcall]
    rfl

theorem Machine.deallocate_owned {size : Nat} (ho : Owns m.kernel.memory ((p, size) :: bs)) :
    ∃ memory, m.deallocate p size = .ok (m.withMemory memory) ∧
      memory.initMem = m.kernel.memory.initMem ∧ Owns memory bs := by
  obtain ⟨memory, hcall, ho', hinit⟩ := ho.deallocate
  refine ⟨memory, ?_, hinit, ho'⟩
  unfold Machine.deallocate
  rw [hcall]
  rfl

/-- `newScreenNode` returns a node with a blank screen, or it fails and has only used a node that it
gave back. -/
theorem newScreenNode_cases (ho : Owns m.kernel.memory bs) :
    (∃ node screen memory, newScreenNode m = .ok (node, { m.withMemory memory with
        video := clear m.video screen
        screenNode := Function.update m.screenNode node
          { m.screenNode node with screen := screen, currentPosition := screen } }) ∧
      memory.initMem = m.kernel.memory.initMem ∧
      Owns memory ((screen, SCREEN_SIZE) :: (node, SCREEN_NODE_SIZE) :: bs)) ∨
    ∃ memory store, newScreenNode m = .ok (NULL, { m.withMemory memory with screenNode := store }) ∧
      memory.initMem = m.kernel.memory.initMem ∧ Owns memory bs ∧
      ∀ b ∈ bs, store b.1 = m.screenNode b.1 := by
  unfold newScreenNode
  -- No memory for the node, none for the screen, or memory for both.
  rcases Machine.allocate_cases ho SCREEN_NODE_SIZE (by decide) (by decide) with
    ⟨node, mem₁, hcall, hnode, hinit₁, ho₁⟩ | hcall
  · rw [hcall, ok_bind]
    dsimp only
    rw [if_neg hnode]
    rcases Machine.allocate_cases (m := m.withMemory mem₁) ho₁ SCREEN_SIZE (by decide) (by decide) with
      ⟨screen, mem₂, hcall₂, hscreen, hinit₂, ho₂⟩ | hcall₂
    · left
      refine ⟨node, screen, mem₂, ?_, hinit₂.trans hinit₁, ho₂⟩
      rw [hcall₂, ok_bind]
      dsimp only
      rw [Machine.modifyScreenNode_of_ne hnode, ok_bind, if_neg hscreen,
        Machine.modifyScreenNode_of_ne hnode]
      dsimp only
      rw [ok_bind, Function.update_self, Function.update_idem]
      rfl
    · right
      rw [hcall₂, ok_bind]
      dsimp only
      rw [Machine.modifyScreenNode_of_ne hnode, ok_bind, if_pos rfl]
      obtain ⟨mem₃, hfree, hinit₃, ho₃⟩ := Machine.deallocate_owned (m := { m.withMemory mem₁ with
        screenNode := Function.update m.screenNode node
          { m.screenNode node with screen := NULL } }) ho₁
      refine ⟨mem₃, _, bind_eq_ok.mpr ⟨_, hfree, rfl⟩, hinit₃.trans hinit₁, ho₃, fun b hb => ?_⟩
      -- The node that was given back is none of the blocks in use.
      exact Function.update_of_ne (ho₁.fresh hb) _ _
  · right
    refine ⟨m.kernel.memory, m.screenNode, ?_, rfl, ho, fun _ _ => rfl⟩
    rw [hcall]
    rfl

/-! ## The nodes after an operation

Both operations change links, and leave every node with its process and its screen. -/

/-- Two nodes with the same process and the same screen. -/
structure ScreenNode.Same (n n' : ScreenNode) : Prop where
  pid : n'.pid = n.pid
  screen : n'.screen = n.screen

theorem Machine.screenBlocks_congr (hsame : ∀ x ∈ xs, (m.screenNode x).Same (m'.screenNode x)) :
    m'.screenBlocks xs = m.screenBlocks xs := by
  unfold Machine.screenBlocks
  refine List.flatMap_congr fun x hx => ?_
  rw [(hsame x hx).screen]

theorem Machine.pids_congr (hsame : ∀ x ∈ xs, (m.screenNode x).Same (m'.screenNode x)) :
    (xs.map fun x => (m'.screenNode x).pid) = xs.map fun x => (m.screenNode x).pid :=
  List.map_congr_left fun x hx => (hsame x hx).pid

theorem Machine.linkScreen_of_ne (m : Machine) (ys : List Addr) (prev : Addr) (pid : Int) {x : Addr}
    (hx : x ≠ node) :
    ∃ next, (m.linkScreen ys prev node pid).screenNode x = { m.screenNode x with next := next } := by
  rcases List.eq_nil_or_concat ys with rfl | ⟨ys, last, rfl⟩
  · exact ⟨(m.screenNode x).next, Function.update_of_ne hx _ _⟩
  · rw [List.concat_eq_append, Machine.linkScreen_concat]
    by_cases hlast : x = last
    · subst hlast
      exact ⟨node, by rw [Function.update_self, Function.update_of_ne hx]⟩
    · exact ⟨(m.screenNode x).next, by rw [Function.update_of_ne hlast, Function.update_of_ne hx]⟩

theorem Machine.linkScreen_self (m : Machine) (prev : Addr) (pid : Int) (hys : node ∉ ys) :
    (m.linkScreen ys prev node pid).screenNode node =
      { m.screenNode node with pid := pid, next := NULL, prev := ys.getLastD prev } := by
  rcases List.eq_nil_or_concat ys with rfl | ⟨ys, last, rfl⟩
  · exact Function.update_self ..
  · rw [List.concat_eq_append] at *
    have hlast : node ≠ last := by
      rintro rfl
      exact hys (List.mem_append_right _ (List.mem_singleton_self _))
    rw [Machine.linkScreen_concat, Function.update_of_ne hlast, Function.update_self,
      List.getLastD_concat]

theorem Machine.nextScreen_linkScreen (m : Machine) (ys : List Addr) (prev node : Addr) (pid : Int) :
    (m.linkScreen ys prev node pid).nextScreen =
      linkNext (Function.update m.nextScreen node NULL) ys node := by
  funext x
  unfold Machine.nextScreen Machine.linkScreen linkNext
  cases ys.getLast? with
  | none =>
      dsimp only
      by_cases hx : x = node
      · subst hx
        rw [Function.update_self, Function.update_self]
      · rw [Function.update_of_ne hx, Function.update_of_ne hx]
  | some last =>
      dsimp only
      by_cases hlast : x = last
      · subst hlast
        rw [Function.update_self, Function.update_self]
      · rw [Function.update_of_ne hlast, Function.update_of_ne hlast]
        by_cases hx : x = node
        · subst hx
          rw [Function.update_self, Function.update_self]
        · rw [Function.update_of_ne hx, Function.update_of_ne hx]

theorem Machine.prevScreen_linkScreen (m : Machine) (ys : List Addr) (prev node : Addr) (pid : Int) :
    (m.linkScreen ys prev node pid).prevScreen =
      Function.update m.prevScreen node (ys.getLastD prev) := by
  have hstore : ∀ x, (Function.update m.screenNode node
      { m.screenNode node with pid := pid, next := NULL, prev := ys.getLastD prev } x).prev =
        Function.update m.prevScreen node (ys.getLastD prev) x := by
    intro x
    by_cases hx : x = node
    · subst hx
      rw [Function.update_self, Function.update_self]
    · rw [Function.update_of_ne hx, Function.update_of_ne hx]
      rfl
  funext x
  rw [← hstore]
  unfold Machine.prevScreen Machine.linkScreen
  cases ys.getLast? with
  | none => rfl
  | some last =>
      dsimp only
      by_cases hlast : x = last
      · subst hlast
        rw [Function.update_self]
      · rw [Function.update_of_ne hlast]

theorem Machine.unlinkScreen_same (m : Machine) (A B : List Addr) (prev x : Addr) :
    ∃ next p, (m.unlinkScreen A B prev).screenNode x =
      { m.screenNode x with next := next, prev := p } := by
  have hhead : ∀ prev, ∃ next p, (m.unlinkScreen [] B prev).screenNode x =
      { m.screenNode x with next := next, prev := p } := by
    intro prev
    cases B with
    | nil => exact ⟨(m.screenNode x).next, (m.screenNode x).prev, rfl⟩
    | cons b B =>
        by_cases hb : x = b
        · subst hb
          exact ⟨(m.screenNode x).next, prev, Function.update_self ..⟩
        · exact ⟨(m.screenNode x).next, (m.screenNode x).prev, Function.update_of_ne hb _ _⟩
  rcases List.eq_nil_or_concat A with rfl | ⟨A, last, rfl⟩
  · exact hhead prev
  · rw [List.concat_eq_append, Machine.unlinkScreen_concat]
    obtain ⟨next, p, heq⟩ := hhead last
    by_cases hlast : x = last
    · subst hlast
      exact ⟨B.headD NULL, p, by rw [Function.update_self, heq]⟩
    · exact ⟨next, p, by rw [Function.update_of_ne hlast, heq]⟩

theorem Machine.nextScreen_unlinkScreen (m : Machine) (A B : List Addr) (prev : Addr) :
    (m.unlinkScreen A B prev).nextScreen = linkNext m.nextScreen A (B.headD NULL) := by
  -- Removing the first node sets the other link only.
  have hhead : ∀ prev x, ((m.unlinkScreen [] B prev).screenNode x).next = m.nextScreen x := by
    intro prev x
    cases B with
    | nil => rfl
    | cons b B =>
        show (Function.update m.screenNode b { m.screenNode b with prev := prev } x).next = _
        by_cases hb : x = b
        · subst hb
          rw [Function.update_self]
          rfl
        · rw [Function.update_of_ne hb]
          rfl
  funext x
  rcases List.eq_nil_or_concat A with rfl | ⟨A, last, rfl⟩
  · exact hhead prev x
  · rw [List.concat_eq_append, linkNext_concat]
    unfold Machine.nextScreen
    rw [Machine.unlinkScreen_concat]
    by_cases hlast : x = last
    · subst hlast
      rw [Function.update_self, Function.update_self]
    · rw [Function.update_of_ne hlast, Function.update_of_ne hlast]
      exact hhead last x

theorem Machine.prevScreen_unlinkScreen (m : Machine) (A B : List Addr) (prev : Addr) :
    (m.unlinkScreen A B prev).prevScreen = linkPrev m.prevScreen B (A.getLastD prev) := by
  -- The successor of the removed node gets its predecessor.
  have hhead : ∀ prev x, ((m.unlinkScreen [] B prev).screenNode x).prev =
      linkPrev m.prevScreen B prev x := by
    intro prev x
    cases B with
    | nil => rfl
    | cons b B =>
        rw [linkPrev_cons]
        show (Function.update m.screenNode b { m.screenNode b with prev := prev } x).prev = _
        by_cases hb : x = b
        · subst hb
          rw [Function.update_self, Function.update_self]
        · rw [Function.update_of_ne hb, Function.update_of_ne hb]
          rfl
  funext x
  rcases List.eq_nil_or_concat A with rfl | ⟨A, last, rfl⟩
  · exact hhead prev x
  · rw [List.concat_eq_append, List.getLastD_concat, ← hhead last x]
    unfold Machine.prevScreen
    rw [Machine.unlinkScreen_concat]
    by_cases hlast : x = last
    · subst hlast
      rw [Function.update_self]
    · rw [Function.update_of_ne hlast]

/-! ## The operations keep the list

A list with a node more or a node less has links in both directions, and each node has its
pages. -/

namespace RepScreens

theorem ne_null (h : RepScreens m xs others) {x : Addr} (hx : x ∈ xs) : x ≠ NULL :=
  fun heq => h.links.nil_notMem (heq ▸ hx)

theorem node_mem (hx : p ∈ xs) : (p, SCREEN_NODE_SIZE) ∈ m.screenBlocks xs ++ others :=
  List.mem_append_left _ (mem_screenBlocks.mpr ⟨p, hx, .inl rfl⟩)

theorem screen_mem (hx : p ∈ xs) : ((m.screenNode p).screen, SCREEN_SIZE) ∈
    m.screenBlocks xs ++ others :=
  List.mem_append_left _ (mem_screenBlocks.mpr ⟨p, hx, .inr rfl⟩)

/-- Changes that leave the list, the processes and the addresses of the screens alone. -/
theorem congr (h : RepScreens m xs others) {others' : List (Addr × Nat)} (hlist : m'.list = m.list)
    (hsame : ∀ x ∈ xs, (m.screenNode x).Same (m'.screenNode x))
    (hnext : ∀ x ∈ xs, m'.nextScreen x = m.nextScreen x)
    (hprev : ∀ x ∈ xs, m'.prevScreen x = m.prevScreen x)
    (hfocus : m'.onFocusPid = NO_FOCUS ∨ ∃ x ∈ xs, (m.screenNode x).pid = m'.onFocusPid)
    (howns : Owns m'.kernel.memory (m.screenBlocks xs ++ others')) : RepScreens m' xs others' := by
  constructor
  · rw [hlist]
    exact h.links.congr hnext hprev
  · rw [Machine.pids_congr hsame]
    exact h.pids
  · intro x hx
    rw [(hsame x hx).pid]
    exact h.pid_nonneg x hx
  · rcases hfocus with hnone | ⟨x, hx, hpid⟩
    · exact .inl hnone
    · exact .inr ⟨x, hx, (hsame x hx).pid.trans hpid⟩
  · rw [Machine.screenBlocks_congr hsame]
    exact howns

theorem linkScreen_links (h : RepScreens m xs others) (hfresh : node ∉ xs) (hne : node ≠ NULL)
    (hsame : ∀ x ∈ xs, m₁.screenNode x = m.screenNode x) :
    Doubly (m₁.linkScreen xs NULL node pid).nextScreen (m₁.linkScreen xs NULL node pid).prevScreen NULL
      ((xs ++ [node]).headD NULL) (xs ++ [node]) := by
  rw [Machine.nextScreen_linkScreen, Machine.prevScreen_linkScreen]
  refine Doubly.append (h.links.congr (fun x hx => ?_) fun x hx => ?_) hfresh hne
  · show (m₁.screenNode x).next = _
    rw [hsame x hx]
    rfl
  · show (m₁.screenNode x).prev = _
    rw [hsame x hx]
    rfl

/-- A new node for a process without one. -/
theorem link (h : RepScreens m xs others) {screen : Addr} (hpid : 0 ≤ pid)
    (hnone : ∀ x ∈ xs, (m.screenNode x).pid ≠ pid) (hsame : ∀ x ∈ xs, m₁.screenNode x = m.screenNode x)
    (hscreen : (m₁.screenNode node).screen = screen) (hfocus : m₁.onFocusPid = m.onFocusPid)
    (ho : Owns m₁.kernel.memory
      ((screen, SCREEN_SIZE) :: (node, SCREEN_NODE_SIZE) :: (m.screenBlocks xs ++ others))) :
    RepScreens { m₁.linkScreen xs NULL node pid with list := (xs ++ [node]).headD NULL }
      (xs ++ [node]) others := by
  have hne : node ≠ NULL := ho.ne_null (List.mem_cons_of_mem _ List.mem_cons_self)
  have ho' : Owns m₁.kernel.memory ((node, SCREEN_NODE_SIZE) :: (m.screenBlocks xs ++ others)) :=
    ho.sublist (List.sublist_cons_self _ _)
  -- The page is new, so it is none of the nodes.
  have hfresh : node ∉ xs := fun hmem => ho'.fresh (@node_mem _ _ others _ hmem) rfl
  have hother : ∀ x ∈ xs, ∃ next, (m₁.linkScreen xs NULL node pid).screenNode x =
      { m.screenNode x with next := next } := by
    intro x hx
    rw [← hsame x hx]
    exact m₁.linkScreen_of_ne xs NULL pid fun heq => hfresh (heq ▸ hx)
  have hkept : ∀ x ∈ xs, (m.screenNode x).Same ((m₁.linkScreen xs NULL node pid).screenNode x) := by
    intro x hx
    obtain ⟨next, heq⟩ := hother x hx
    rw [heq]
    exact ⟨rfl, rfl⟩
  have hself := m₁.linkScreen_self NULL pid hfresh
  have hnodePid : ((m₁.linkScreen xs NULL node pid).screenNode node).pid = pid := by rw [hself]
  constructor
  case links => exact h.linkScreen_links hfresh hne hsame
  case pids =>
    rw [List.map_append, List.map_singleton, Machine.pids_congr hkept]
    -- The process had no screen, so that its number is new among the owners.
    refine List.nodup_append.mpr ⟨h.pids, List.nodup_singleton _, ?_⟩
    rintro a ha b hb rfl
    obtain ⟨x, hx, rfl⟩ := List.mem_map.mp ha
    exact hnone x hx ((List.mem_singleton.mp hb).trans hnodePid)
  case pid_nonneg =>
    intro x hx
    rcases List.mem_append.mp hx with hold | hnew
    · exact (hkept x hold).pid ▸ h.pid_nonneg x hold
    · obtain rfl := List.mem_singleton.mp hnew
      show 0 ≤ ((m₁.linkScreen xs NULL x pid).screenNode x).pid
      rw [hnodePid]
      exact hpid
  case focus =>
    -- Nobody comes on focus or leaves it.
    rcases h.focus with hnofocus | ⟨x, hx, hxpid⟩
    · exact .inl (hfocus.trans hnofocus)
    · exact .inr ⟨x, List.mem_append_left _ hx,
        ((hkept x hx).pid.trans hxpid).trans hfocus.symm⟩
  case owns =>
    -- The two new pages are owned besides the old ones.
    have hblocks : Machine.screenBlocks
        { m₁.linkScreen xs NULL node pid with list := (xs ++ [node]).headD NULL } (xs ++ [node]) =
          m.screenBlocks xs ++ [(node, SCREEN_NODE_SIZE), (screen, SCREEN_SIZE)] := by
      have hold := @Machine.screenBlocks_congr _ (m₁.linkScreen xs NULL node pid) _ hkept
      unfold Machine.screenBlocks at hold ⊢
      rw [List.flatMap_append, hold, List.flatMap_singleton, hself, hscreen]
    rw [hblocks, List.append_assoc]
    refine Owns.perm ho ((List.Perm.swap _ _ _).trans ?_)
    exact List.perm_append_comm_assoc [(node, SCREEN_NODE_SIZE), (screen, SCREEN_SIZE)] _ _

/-- The node of a process is removed, and its pages are given back. -/
theorem unlink (h : RepScreens m (A ++ c :: B) others) {memory : MemoryManager}
    (hfocus : m.onFocusPid ≠ (m.screenNode c).pid)
    (ho : Owns memory (m.screenBlocks (A ++ B) ++ others)) :
    RepScreens { (m.unlinkScreen A B NULL).withMemory memory with list := (A ++ B).headD NULL }
      (A ++ B) others := by
  -- What is left are nodes of the list before, with the same owners and pages.
  have hsub : (A ++ B).Sublist (A ++ c :: B) := (List.sublist_cons_self c B).append_left A
  have hkept : ∀ x, (m.screenNode x).Same ((m.unlinkScreen A B NULL).screenNode x) := by
    intro x
    obtain ⟨next, p, heq⟩ := m.unlinkScreen_same A B NULL x
    rw [heq]
    exact ⟨rfl, rfl⟩
  constructor
  case links =>
    show Doubly (m.unlinkScreen A B NULL).nextScreen (m.unlinkScreen A B NULL).prevScreen NULL
      ((A ++ B).headD NULL) (A ++ B)
    rw [Machine.nextScreen_unlinkScreen, Machine.prevScreen_unlinkScreen]
    exact h.links.remove
  case pids =>
    have hpids := @Machine.pids_congr _ (m.unlinkScreen A B NULL) (A ++ B)
      fun x _ => hkept x
    show ((A ++ B).map fun x => ((m.unlinkScreen A B NULL).screenNode x).pid).Nodup
    rw [hpids]
    exact h.pids.sublist (hsub.map _)
  case pid_nonneg =>
    intro x hx
    show 0 ≤ ((m.unlinkScreen A B NULL).screenNode x).pid
    rw [(hkept x).pid]
    exact h.pid_nonneg x (hsub.subset hx)
  case focus =>
    rcases h.focus with hnofocus | ⟨x, hx, hxpid⟩
    · exact .inl hnofocus
    -- The owner on focus is not the one removed.
    · refine .inr ⟨x, ?_, (hkept x).pid.trans hxpid⟩
      rcases List.mem_append.mp hx with hA | hcB
      · exact List.mem_append_left _ hA
      rcases List.mem_cons.mp hcB with rfl | hB
      · exact absurd hxpid.symm hfocus
      · exact List.mem_append_right _ hB
  case owns =>
    have hblocks := @Machine.screenBlocks_congr _ (m.unlinkScreen A B NULL) (A ++ B)
      fun x _ => hkept x
    show Owns memory ((m.unlinkScreen A B NULL).screenBlocks (A ++ B) ++ others)
    rw [hblocks]
    exact ho

/-- The two blocks of a node, in front of the others. -/
theorem blocks_perm (m : Machine) (A B : List Addr) (c : Addr) (others : List (Addr × Nat)) :
    (m.screenBlocks (A ++ c :: B) ++ others).Perm
      (((m.screenNode c).screen, SCREEN_SIZE) :: (c, SCREEN_NODE_SIZE) ::
        (m.screenBlocks (A ++ B) ++ others)) := by
  have hsplit : m.screenBlocks (A ++ c :: B) ++ others = m.screenBlocks A ++
      ([(c, SCREEN_NODE_SIZE), ((m.screenNode c).screen, SCREEN_SIZE)] ++
        (m.screenBlocks B ++ others)) := by
    unfold Machine.screenBlocks
    rw [List.flatMap_append, List.flatMap_cons, List.append_assoc, List.append_assoc]
  have hjoin : m.screenBlocks (A ++ B) ++ others =
      m.screenBlocks A ++ (m.screenBlocks B ++ others) := by
    unfold Machine.screenBlocks
    rw [List.flatMap_append, List.append_assoc]
  rw [hsplit, hjoin]
  exact (List.perm_append_comm_assoc _ _ _).trans (List.Perm.swap _ _ _)

end RepScreens

/-! ## `removeScreen`

A process on focus loses the focus before it loses its screen. -/

/-- The process is no longer on focus. -/
def Machine.unfocus (m : Machine) (pid : Int) : Machine :=
  { m with onFocusPid := if pid = m.onFocusPid then NO_FOCUS else m.onFocusPid }

theorem removeScreen_eq (fuel : Nat) (m : Machine) (pid : Int) :
    removeScreen fuel m pid = removeScreenInner fuel (m.unfocus pid) m.list NULL pid >>= fun r =>
      .ok { r.2 with list := r.1 } := by
  unfold removeScreen Machine.unfocus
  split <;> rfl

theorem RepScreens.unfocus (h : RepScreens m xs others) (pid : Int) :
    RepScreens (m.unfocus pid) xs others := by
  refine h.congr rfl (fun _ _ => ⟨rfl, rfl⟩) (fun _ _ => rfl) (fun _ _ => rfl) ?_ h.owns
  unfold Machine.unfocus
  dsimp only
  split
  · exact .inl rfl
  · exact h.focus

/-- The machine without the node between `A` and `B`. -/
def Machine.withoutScreen (m : Machine) (A B : List Addr) (memory : MemoryManager) : Machine :=
  { (m.unlinkScreen A B NULL).withMemory memory with list := (A ++ B).headD NULL }

/-- The node of the process, if there is one, is removed. -/
theorem RepScreens.removeScreen (h : RepScreens m xs others) (pid : Int) :
    (∃ A c B memory, xs = A ++ c :: B ∧ (m.screenNode c).pid = pid ∧
        memory.initMem = m.kernel.memory.initMem ∧
        Returns (removeScreen · m pid) ((m.unfocus pid).withoutScreen A B memory) ∧
        RepScreens ((m.unfocus pid).withoutScreen A B memory) (A ++ B) others) ∨
      ((∀ x ∈ xs, (m.screenNode x).pid ≠ pid) ∧ Returns (removeScreen · m pid) (m.unfocus pid) ∧
        RepScreens (m.unfocus pid) xs others) := by
  have h₀ := h.unfocus pid
  have hchain : Chain (m.unfocus pid).nextScreen NULL m.list xs := h.links.chain
  -- The result of the recursion becomes the head of the list.
  have hrun : ∀ {r : Addr × Machine},
      Returns (removeScreenInner · (m.unfocus pid) m.list NULL pid) r →
        Returns (BasicKernel.removeScreen · m pid) { r.2 with list := r.1 } := by
    intro r hr
    have hbind := hr.bind (g := fun _ r => .ok { r.2 with list := r.1 }) (.const _ _)
    simpa only [removeScreen_eq] using hbind
  -- The search of the source finds the first node of the process, or goes to the end.
  rcases findScreenNodeByPid_cases hchain pid with ⟨A, c, B, rfl, hc, hA, -⟩ | ⟨hnone, -⟩
  · left
    -- Its screen and the node itself are owned and can be given back.
    have hblocks := h₀.owns.perm (RepScreens.blocks_perm (m.unfocus pid) A B c others)
    obtain ⟨memory₁, hscreen, ho₁, hinit₁⟩ := hblocks.deallocate
    obtain ⟨memory₂, hnode, ho₂, hinit₂⟩ := Owns.deallocate
      (k := { (m.unfocus pid).kernel with memory := memory₁ }) ho₁
    have hfound := @removeScreenInner_found _ _ _ _ _ _ hc hscreen hnode A _ NULL hchain hA
    have hfocus : (m.unfocus pid).onFocusPid ≠ ((m.unfocus pid).screenNode c).pid := by
      rw [hc]
      unfold Machine.unfocus
      dsimp only
      split
      -- The focus was taken away from the process before.
      case isTrue =>
        intro heq
        have hpid : 0 ≤ pid := hc ▸ h₀.pid_nonneg c (List.mem_append_right A List.mem_cons_self)
        exact absurd (heq ▸ hpid) (by decide)
      case isFalse hne => exact fun heq => hne heq.symm
    exact ⟨A, c, B, memory₂, rfl, hc, hinit₂.trans hinit₁, hrun hfound, h₀.unlink hfocus ho₂⟩
  · right
    refine ⟨hnone, ?_, h₀⟩
    exact hrun (removeScreenInner_none hchain hnone)

/-! ## `loadScreen`

A switch saves the screen on focus in its node, copies the screen of the other node to the video
screen, and moves the focus. -/

/-- The video screen is saved in the node `f`. -/
def Machine.save (m : Machine) (f : Addr) : Machine :=
  { m with
    video := (backupContent m.video (m.screenNode f).screen).2
    screenNode := Function.update m.screenNode f { m.screenNode f with
      currentPosition := (backupContent m.video (m.screenNode f).screen).1 } }

/-- The screen of the node `x` is put on the video screen. -/
def Machine.display (m : Machine) (x : Addr) (pid : Int) : Machine :=
  { m with
    video := setScreen m.video (m.screenNode x).screen (m.screenNode x).currentPosition
    onFocusPid := pid }

/-- The machine after `saveScreen`. -/
inductive Machine.Saved (m : Machine) (xs : List Addr) : Machine → Prop
  | nobody : m.onFocusPid = NO_FOCUS → m.Saved xs m
  | node {f : Addr} : f ∈ xs → (m.screenNode f).pid = m.onFocusPid → m.Saved xs (m.save f)

/-- The machine after `loadNextScreen` or `loadPreviousScreen`. -/
inductive Machine.Switched (m : Machine) (xs : List Addr) : Machine → Prop
  | same : m.Switched xs m
  | shown {x : Addr} {m₁ : Machine} : m.Saved xs m₁ → x ∈ xs →
      m.Switched xs (m₁.display x (m.screenNode x).pid)

/-- The machine after `addScreen`: a new node for the process, with a blank screen. -/
def Machine.withNode (m : Machine) (xs : List Addr) (node screen : Addr) (memory : MemoryManager)
    (pid : Int) : Machine :=
  let m₁ := { m.withMemory memory with
    video := clear m.video screen
    screenNode := Function.update m.screenNode node
      { m.screenNode node with screen := screen, currentPosition := screen } }
  m₁.linkScreen xs NULL node pid

/-- The machine after `list = addScreen(list, NULL, pid)`. -/
def Machine.withScreen (m : Machine) (xs : List Addr) (node screen : Addr) (memory : MemoryManager)
    (pid : Int) : Machine :=
  { m.withNode xs node screen memory pid with list := (xs ++ [node]).headD NULL }

/-- The process has the node `x` afterwards: it had it before, or it is new. -/
inductive Machine.Ensured (m : Machine) (xs : List Addr) (pid : Int) (others : List (Addr × Nat)) :
    Machine → List Addr → Addr → Prop
  | found {x : Addr} : x ∈ xs → (m.screenNode x).pid = pid → m.Ensured xs pid others m xs x
  | created {node screen : Addr} {memory : MemoryManager} :
      (∀ x ∈ xs, (m.screenNode x).pid ≠ pid) → node ∉ xs →
      Owns memory ((screen, SCREEN_SIZE) :: (node, SCREEN_NODE_SIZE) ::
        (m.screenBlocks xs ++ others)) →
      memory.initMem = m.kernel.memory.initMem →
      m.Ensured xs pid others (m.withScreen xs node screen memory pid) (xs ++ [node]) node

/-- There was no memory for a new screen: only free pages have changed. -/
structure Machine.Refused (m : Machine) (xs : List Addr) (m' : Machine) : Prop where
  kernel : ∃ memory, memory.initMem = m.kernel.memory.initMem ∧
    m' = { m.withMemory memory with screenNode := m'.screenNode }
  kept : ∀ x ∈ xs, m'.screenNode x = m.screenNode x

/-- `loadNextScreen` and `loadPreviousScreen`, which follow a link of the node on focus. -/
def followLink (fuel : Nat) (m : Machine) (link : ScreenNode → Addr) : Except Stop Machine := do
  if m.onFocusPid = NO_FOCUS then
    return m
  let currentScreen ← findScreenNodeByPid fuel m m.onFocusPid
  let neighbour := link (← load m.screenNode currentScreen)
  if neighbour = NULL then
    return m
  return (← loadScreen fuel m (← load m.screenNode neighbour).pid).2

theorem Machine.save_node (m : Machine) (f x : Addr) : ∃ currentPosition,
    (m.save f).screenNode x = { m.screenNode x with currentPosition := currentPosition } := by
  by_cases hx : x = f
  · subst hx
    exact ⟨_, Function.update_self ..⟩
  · exact ⟨(m.screenNode x).currentPosition, Function.update_of_ne hx _ _⟩

namespace RepScreens

theorem save (h : RepScreens m xs others) (f : Addr) : RepScreens (m.save f) xs others := by
  have hnode : ∀ x, ∃ q, (m.save f).screenNode x = { m.screenNode x with currentPosition := q } :=
    m.save_node f
  refine h.congr rfl (fun x _ => ?_) (fun x _ => ?_) (fun x _ => ?_) h.focus h.owns
  · obtain ⟨q, heq⟩ := hnode x
    rw [heq]
    exact ⟨rfl, rfl⟩
  · obtain ⟨q, heq⟩ := hnode x
    unfold Machine.nextScreen
    rw [heq]
  · obtain ⟨q, heq⟩ := hnode x
    unfold Machine.prevScreen
    rw [heq]

theorem saved (h : RepScreens m xs others) (hs : m.Saved xs m₁) : RepScreens m₁ xs others := by
  cases hs with
  | nobody => exact h
  | node => exact h.save _

theorem saveScreen (h : RepScreens m xs others) :
    ∃ m₁, m.Saved xs m₁ ∧ Returns (BasicKernel.saveScreen · m) m₁ := by
  rcases h.focus with hnone | ⟨f, hf, hpid⟩
  · refine ⟨m, .nobody hnone, ?_⟩
    rcases findScreenNodeByPid_cases h.links.chain m.onFocusPid with
      ⟨A, x, B, rfl, hx, -⟩ | ⟨-, hfind⟩
    · have hpos := h.pid_nonneg x (List.mem_append_right A List.mem_cons_self)
      rw [hx, hnone] at hpos
      exact absurd hpos (by decide)
    · exact hfind.bind (.const _ _)
  · refine ⟨m.save f, .node hf hpid, ?_⟩
    have hfind := h.find hf
    rw [hpid] at hfind
    refine hfind.bind ?_
    rw [if_neg (h.ne_null hf), load_of_ne (h.ne_null hf)]
    dsimp only [ok_bind]
    rw [Machine.modifyScreenNode_of_ne (h.ne_null hf)]
    exact .const _ _

theorem display (h : RepScreens m xs others) {x : Addr} (hx : x ∈ xs)
    (hpid : (m.screenNode x).pid = pid) : RepScreens (m.display x pid) xs others :=
  h.congr rfl (fun _ _ => ⟨rfl, rfl⟩) (fun _ _ => rfl) (fun _ _ => rfl) (.inr ⟨x, hx, hpid⟩) h.owns

theorem showScreen (h : RepScreens m xs others) {x : Addr} (hx : x ∈ xs)
    (hpid : (m.screenNode x).pid = pid) :
    ∃ m₁, m.Saved xs m₁ ∧ Returns (BasicKernel.showScreen · m x pid) (m₁.display x pid) ∧
      RepScreens (m₁.display x pid) xs others := by
  obtain ⟨m₁, hsaved, hsave⟩ := h.saveScreen
  have hpid₁ : (m₁.screenNode x).pid = pid := by
    cases hsaved with
    | nobody => exact hpid
    | node =>
        obtain ⟨q, heq⟩ := m.save_node _ x
        rw [heq]
        exact hpid
  refine ⟨m₁, hsaved, hsave.bind ?_, (h.saved hsaved).display hx hpid₁⟩
  rw [load_of_ne (h.ne_null hx)]
  exact .const _ _

theorem loadScreen_of_mem (h : RepScreens m xs others) {x : Addr} (hx : x ∈ xs) :
    ∃ m₁, m.Saved xs m₁ ∧
      Returns (BasicKernel.loadScreen · m (m.screenNode x).pid)
        (1, m₁.display x (m.screenNode x).pid) ∧
      RepScreens (m₁.display x (m.screenNode x).pid) xs others := by
  obtain ⟨m₁, hsaved, hshow, hrep⟩ := h.showScreen hx rfl
  refine ⟨m₁, hsaved, (h.find hx).bind ?_, hrep⟩
  simp only [if_neg (h.ne_null hx)]
  exact hshow.bind (.const _ _)

/-- `addScreen` for a process without a screen makes a node, or finds no memory for it. -/
theorem addScreen (h : RepScreens m xs others) (hpid : 0 ≤ pid)
    (hnone : ∀ x ∈ xs, (m.screenNode x).pid ≠ pid) :
    (∃ node screen memory,
        Returns (BasicKernel.addScreen · m m.list NULL pid)
          ((xs ++ [node]).headD NULL, m.withNode xs node screen memory pid) ∧
        (node ≠ NULL ∧ ∃ m₁, newScreenNode m = .ok (node, m₁)) ∧
        node ∉ xs ∧ memory.initMem = m.kernel.memory.initMem ∧
        Owns memory ((screen, SCREEN_SIZE) :: (node, SCREEN_NODE_SIZE) ::
          (m.screenBlocks xs ++ others)) ∧
        RepScreens (m.withScreen xs node screen memory pid) (xs ++ [node]) others) ∨
      ∃ m₁, Returns (BasicKernel.addScreen · m m.list NULL pid) (m.list, m₁) ∧
        newScreenNode m = .ok (NULL, m₁) ∧ m.Refused xs m₁ ∧ RepScreens m₁ xs others := by
  rcases newScreenNode_cases h.owns with
    ⟨node, screen, memory, hnew, hinit, ho⟩ | ⟨memory, store, hnew, hinit, ho, hkept⟩
  -- With both pages the new node is appended.
  · left
    have hne : node ≠ NULL := ho.ne_null (List.mem_cons_of_mem _ List.mem_cons_self)
    have ho' : Owns memory ((node, SCREEN_NODE_SIZE) :: (m.screenBlocks xs ++ others)) :=
      ho.sublist (List.sublist_cons_self _ _)
    have hfresh : node ∉ xs := fun hmem => ho'.fresh (@node_mem _ _ others _ hmem) rfl
    have hsame : ∀ y ∈ xs, Function.update m.screenNode node
        { m.screenNode node with screen := screen, currentPosition := screen } y = m.screenNode y := by
      intro y hy
      refine Function.update_of_ne ?_ _ _
      rintro rfl
      exact hfresh hy
    have hscreen : (Function.update m.screenNode node { m.screenNode node with
        screen := screen, currentPosition := screen } node).screen = screen := by
      rw [Function.update_self]
    exact ⟨node, screen, memory, addScreen_appends hnew hne h.links.chain hfresh hsame, ⟨hne, _, hnew⟩,
      hfresh, hinit, ho, h.link hpid hnone hsame hscreen rfl ho⟩
  -- Without them no node of the list has changed.
  · right
    have hsame : ∀ y ∈ xs, store y = m.screenNode y := fun y hy =>
      hkept _ (@node_mem _ _ others _ hy)
    refine ⟨_, addScreen_refused hnew h.links.chain hsame, hnew, ⟨⟨memory, hinit, rfl⟩, hsame⟩, ?_⟩
    refine h.congr rfl (fun x hx => ?_) (fun x hx => ?_) (fun x hx => ?_) h.focus ho
    · exact ⟨congrArg _ (hsame x hx), congrArg _ (hsame x hx)⟩
    · exact congrArg _ (hsame x hx)
    · exact congrArg _ (hsame x hx)

theorem withScreen_pid (hfresh : p ∉ xs) (m : Machine) (screen : Addr) (memory : MemoryManager) :
    ((m.withScreen xs p screen memory pid).screenNode p).pid = pid := by
  show ((Machine.linkScreen _ xs NULL p pid).screenNode p).pid = pid
  rw [Machine.linkScreen_self _ _ _ hfresh]

/-- `loadScreen` puts the process on focus, or it has no memory for its screen and returns 0. -/
theorem loadScreen (h : RepScreens m xs others) (hpid : 0 ≤ pid) :
    (∃ m₀ xs' x m₁, m.Ensured xs pid others m₀ xs' x ∧ RepScreens m₀ xs' others ∧ m₀.Saved xs' m₁ ∧
        Returns (BasicKernel.loadScreen · m pid) (1, m₁.display x pid) ∧
        RepScreens (m₁.display x pid) xs' others) ∨
      ∃ m₁, m.Refused xs m₁ ∧ (∀ x ∈ xs, (m.screenNode x).pid ≠ pid) ∧
        Returns (BasicKernel.loadScreen · m pid) (0, m₁) ∧ RepScreens m₁ xs others := by
  -- A screen is found, made, or refused.
  rcases findScreenNodeByPid_cases h.links.chain pid with ⟨A, x, B, rfl, hx, -, hfind⟩ | ⟨hnone, hfind⟩
  · left
    have hmem : x ∈ A ++ x :: B := List.mem_append_right A List.mem_cons_self
    obtain ⟨m₁, hsaved, hload, hrep⟩ := h.loadScreen_of_mem hmem
    rw [hx] at hload hrep
    exact ⟨m, _, x, m₁, .found hmem hx, h, hsaved, hload, hrep⟩
  rcases h.addScreen hpid hnone with
    ⟨node, screen, memory, hadd, -, hfresh, hinit, ho, hrep₀⟩ | ⟨m₁, hadd, -, hrefused, hrep⟩
  · left
    -- The second search finds the node that has just been made.
    have hmem : node ∈ xs ++ [node] := List.mem_append_right _ (List.mem_singleton_self _)
    have hnodePid := @withScreen_pid _ _ pid hfresh m screen memory
    obtain ⟨m₁, hsaved, hshow, hrep⟩ := hrep₀.showScreen hmem hnodePid
    have hfind' := hrep₀.find hmem
    rw [hnodePid] at hfind'
    refine ⟨_, _, node, m₁, .created hnone hfresh ho hinit, hrep₀, hsaved, hfind.bind ?_, hrep⟩
    simp only [if_true]
    refine hadd.bind (hfind'.bind ?_)
    simp only [if_neg (hrep₀.ne_null hmem)]
    exact hshow.bind (.const _ _)
  · right
    have hlist : { m₁ with list := m.list } = m₁ := by
      obtain ⟨memory, -, heq⟩ := hrefused.kernel
      rw [heq]
      rfl
    refine ⟨m₁, hrefused, hnone, hfind.bind ?_, hrep⟩
    simp only [if_true]
    refine hadd.bind ?_
    simp only [hlist]
    -- The second search finds nothing again, and the call returns 0.
    rcases findScreenNodeByPid_cases hrep.links.chain pid with ⟨A, x, B, rfl, hx, -⟩ | ⟨-, hfind'⟩
    · have hmem : x ∈ A ++ x :: B := List.mem_append_right A List.mem_cons_self
      rw [hrefused.kept x hmem] at hx
      exact absurd hx (hnone x hmem)
    · exact hfind'.bind (.const _ _)

theorem node_inj (h : RepScreens m xs others) {x y : Addr} (hx : x ∈ xs) (hy : y ∈ xs)
    (heq : (m.screenNode x).pid = (m.screenNode y).pid) : x = y :=
  List.inj_on_of_nodup_map h.pids hx hy heq

/-- A link within the list: the neighbour is shown, or there is none. -/
theorem followLink (h : RepScreens m xs others) {link : ScreenNode → Addr}
    (hlink : ∀ f ∈ xs, link (m.screenNode f) ≠ NULL → link (m.screenNode f) ∈ xs) :
    ∃ m', Returns (BasicKernel.followLink · m link) m' ∧ RepScreens m' xs others ∧
      (m' = m ∧ (∀ f ∈ xs, (m.screenNode f).pid = m.onFocusPid → link (m.screenNode f) = NULL) ∨
        (∃ f ∈ xs, (m.screenNode f).pid = m.onFocusPid ∧ link (m.screenNode f) ≠ NULL) ∧
          ∃ x ∈ xs, ∃ m₁, m.Saved xs m₁ ∧ m' = m₁.display x (m.screenNode x).pid) := by
  unfold BasicKernel.followLink
  -- With nobody on focus there is no neighbour.
  by_cases hfocus : m.onFocusPid = NO_FOCUS
  · simp only [if_pos hfocus]
    refine ⟨m, .const _ _, h, .inl ⟨rfl, fun f hf hpid => ?_⟩⟩
    have hpos := h.pid_nonneg f hf
    rw [hpid, hfocus] at hpos
    exact absurd hpos (by decide)
  simp only [if_neg hfocus]
  obtain ⟨f, hf, hpid⟩ := h.focus.resolve_left hfocus
  have hfind := h.find hf
  rw [hpid] at hfind
  -- At an end of the list nothing happens.
  by_cases hnull : link (m.screenNode f) = NULL
  · refine ⟨m, hfind.bind ?_, h, .inl ⟨rfl, fun g hg hpid' => ?_⟩⟩
    · simp only [load_of_ne (h.ne_null hf), ok_bind, if_pos hnull]
      exact .const _ _
    · rw [h.node_inj hg hf (hpid'.trans hpid.symm)]
      exact hnull
  · have hx := hlink f hf hnull
    obtain ⟨m₁, hsaved, hload, hrep⟩ := h.loadScreen_of_mem hx
    refine ⟨_, hfind.bind ?_, hrep, .inr ⟨⟨f, hf, hpid, hnull⟩, _, hx, m₁, hsaved, rfl⟩⟩
    simp only [load_of_ne (h.ne_null hf), ok_bind, if_neg hnull, load_of_ne (h.ne_null hx)]
    exact hload.bind (.const _ _)

theorem next_mem (h : RepScreens m xs others) :
    ∀ f ∈ xs, (m.screenNode f).next ≠ NULL → (m.screenNode f).next ∈ xs :=
  fun _ hf hnext => (h.links.next_prev hf hnext).1

theorem prev_mem (h : RepScreens m xs others) :
    ∀ f ∈ xs, (m.screenNode f).prev ≠ NULL → (m.screenNode f).prev ∈ xs :=
  fun _ hf hprev => (h.links.prev_next hf hprev).1

theorem switched_followLink (h : RepScreens m xs others) {link : ScreenNode → Addr}
    (hlink : ∀ f ∈ xs, link (m.screenNode f) ≠ NULL → link (m.screenNode f) ∈ xs) :
    ∃ m', Returns (BasicKernel.followLink · m link) m' ∧ m.Switched xs m' ∧ RepScreens m' xs others := by
  obtain ⟨m', hreturns, hrep, ⟨rfl, -⟩ | ⟨-, x, hx, m₁, hsaved, rfl⟩⟩ := h.followLink hlink
  · exact ⟨m', hreturns, .same, hrep⟩
  · exact ⟨_, hreturns, .shown hsaved hx, hrep⟩

theorem loadNextScreen (h : RepScreens m xs others) :
    ∃ m', Returns (BasicKernel.loadNextScreen · m) m' ∧ m.Switched xs m' ∧
      RepScreens m' xs others := h.switched_followLink h.next_mem

theorem loadPreviousScreen (h : RepScreens m xs others) :
    ∃ m', Returns (BasicKernel.loadPreviousScreen · m) m' ∧ m.Switched xs m' ∧
      RepScreens m' xs others := h.switched_followLink h.prev_mem

/-! ## Separate screens -/

theorem screen_inj (h : RepScreens m xs others) {x y : Addr} (hx : x ∈ xs) (hy : y ∈ xs)
    (heq : (m.screenNode x).screen = (m.screenNode y).screen) : x = y := by
  by_contra hne
  have hnodup : (m.screenBlocks xs).Nodup := (List.nodup_append.mp h.owns.nodup).1
  have hpairwise := (List.nodup_flatMap.mp hnodup).2
  have hsymm : Std.Symm (Function.onFun List.Disjoint fun x =>
      [(x, SCREEN_NODE_SIZE), ((m.screenNode x).screen, SCREEN_SIZE)]) :=
    ⟨fun _ _ hdisjoint => List.Disjoint.symm hdisjoint⟩
  have hdisjoint := hpairwise.forall hx hy hne
  exact hdisjoint (a := ((m.screenNode x).screen, SCREEN_SIZE)) (by simp) (by simp [heq])

/-- Two saved screens have no byte in common. -/
theorem screens_disjoint (h : RepScreens m xs others) {x y : Addr} (hx : x ∈ xs) (hy : y ∈ xs)
    (hne : x ≠ y) {a : Nat} (hle : (m.screenNode x).screen ≤ a)
    (hlt : a < (m.screenNode x).screen + SCREEN_SIZE) :
    ¬ ((m.screenNode y).screen ≤ a ∧ a < (m.screenNode y).screen + SCREEN_SIZE) := by
  rintro ⟨hle', hlt'⟩
  have heq := h.owns.eq_of_byte (screen_mem hx) (screen_mem hy) hle hlt hle' hlt'
  exact hne (h.screen_inj hx hy (Prod.mk.inj heq).1)

end RepScreens

/-! ## Runs -/

/-- A call, or something elsewhere in the kernel: there blocks are requested and the blocks `others`
are given back, and everything but the list of screens may change. -/
inductive ScreenStep : Machine × List (Addr × Nat) → Machine × List (Addr × Nat) → Prop
  | loadScreen {m m' : Machine} {others : List (Addr × Nat)} {pid r : Int} {fuel : Nat} : 0 ≤ pid →
      loadScreen fuel m pid = .ok (r, m') → ScreenStep (m, others) (m', others)
  | removeScreen {m m' : Machine} {others : List (Addr × Nat)} {pid : Int} {fuel : Nat} : 0 ≤ pid →
      removeScreen fuel m pid = .ok m' → ScreenStep (m, others) (m', others)
  | loadNextScreen {m m' : Machine} {others : List (Addr × Nat)} {fuel : Nat} :
      loadNextScreen fuel m = .ok m' → ScreenStep (m, others) (m', others)
  | loadPreviousScreen {m m' : Machine} {others : List (Addr × Nat)} {fuel : Nat} :
      loadPreviousScreen fuel m = .ok m' → ScreenStep (m, others) (m', others)
  | elsewhere {m : Machine} {others others' : List (Addr × Nat)} {kernel : Kernel} {video : Video} :
      AllocatorStep (m.kernel.memory, others) (kernel.memory, others') →
      ScreenStep (m, others) ({ m with kernel, video }, others')

/-- `memAllocatorInit` has run, and there are no screens. -/
def ScreenStart (s : Machine × List (Addr × Nat)) : Prop :=
  ∃ fuel r, 0x7000 < fuel ∧
    memAllocatorInit fuel .static 0x1000000 0x8000000 = .ok (r, s.1.kernel.memory) ∧
    s.1.list = NULL ∧ s.1.onFocusPid = NO_FOCUS ∧ s.2 = []

/-- What is promised of the list of screens. -/
structure Machine.ScreensOk (m : Machine) : Prop where
  list : ∃ xs, Doubly m.nextScreen m.prevScreen NULL m.list xs ∧
    (xs.map fun x => (m.screenNode x).pid).Nodup ∧
    (∀ x ∈ xs, ∀ a, (m.screenNode x).screen ≤ a → a < (m.screenNode x).screen + SCREEN_SIZE →
      m.kernel.Reserved a ∧ ∀ y ∈ xs, x ≠ y →
        ¬ ((m.screenNode y).screen ≤ a ∧ a < (m.screenNode y).screen + SCREEN_SIZE)) ∧
    (m.onFocusPid = NO_FOCUS ∨ ∃ x ∈ xs, (m.screenNode x).pid = m.onFocusPid)
  next : ∃ m', Returns (loadNextScreen · m) m'
  previous : ∃ m', Returns (loadPreviousScreen · m) m'
  loads : ∀ pid, 0 ≤ pid → ∃ r, Returns (loadScreen · m pid) r
  removes : ∀ pid, 0 ≤ pid → ∃ m', Returns (removeScreen · m pid) m'

theorem RepScreens.ok (h : RepScreens m xs others) : m.ScreensOk := by
  constructor
  · refine ⟨xs, h.links, h.pids, fun x hx a hle hlt => ⟨?_, fun y hy hne => ?_⟩, h.focus⟩
    · exact h.owns.used_byte (screen_mem hx) hle hlt
    · exact h.screens_disjoint hx hy hne hle hlt
  · obtain ⟨m', hreturns, -⟩ := h.loadNextScreen
    exact ⟨m', hreturns⟩
  · obtain ⟨m', hreturns, -⟩ := h.loadPreviousScreen
    exact ⟨m', hreturns⟩
  · intro pid hpid
    rcases h.loadScreen hpid with ⟨_, _, _, _, -, -, -, hreturns, -⟩ | ⟨_, -, -, hreturns, -⟩
    · exact ⟨_, hreturns⟩
    · exact ⟨_, hreturns⟩
  · intro pid _
    rcases h.removeScreen pid with ⟨_, _, _, _, -, -, -, hreturns, -⟩ | ⟨-, hreturns, -⟩
    · exact ⟨_, hreturns⟩
    · exact ⟨_, hreturns⟩

/-- Other blocks come and go, and the owned ones stay. -/
theorem Owns.allocatorStep {memory memory' : MemoryManager} {others' : List (Addr × Nat)}
    (ho : Owns memory (bs ++ others)) (hstep : AllocatorStep (memory, others) (memory', others')) :
    Owns memory' (bs ++ others') := by
  -- The blocks of the screens are among those that are allocated.
  obtain ⟨live, hc, hlive⟩ := ho.live
  cases hstep with
  | @allocated _ _ _ size p hpos hint hcall =>
      rcases hc.allocate hpos (Nat.lt_of_le_of_lt hint (by decide)) with
        ⟨p', m', hcall', hfresh, hinit, -, hc'⟩ | hcall'
      · rw [hcall] at hcall'
        obtain ⟨hp, rfl⟩ := Prod.mk.inj (Except.ok.inj hcall')
        -- What is given out is new, hence none of them.
        obtain rfl := Option.some.inj hp
        have howns : Owns memory' ((p, size) :: (bs ++ others)) := by
          refine ⟨hinit ▸ ho.pos, List.nodup_cons.mpr ⟨fun hb => hfresh _ (hlive _ hb) rfl, ho.nodup⟩,
            _, hc', fun b hb => ?_⟩
          rcases List.mem_cons.mp hb with rfl | hb
          · exact Set.mem_insert _ _
          · exact Set.mem_insert_of_mem _ (hlive b hb)
        exact howns.perm List.perm_middle.symm
      · rw [hcall] at hcall'
        cases hcall'
  | @refused _ _ _ size hpos hint hcall =>
      rcases hc.allocate hpos (Nat.lt_of_le_of_lt hint (by decide)) with
        ⟨p', m', hcall', -⟩ | hcall'
      · rw [hcall] at hcall'
        cases hcall'
      · rw [hcall] at hcall'
        obtain ⟨-, rfl⟩ := Prod.mk.inj (Except.ok.inj hcall')
        exact ho
  | @deallocated _ _ _ p size r hmem hcall =>
      obtain ⟨m', hcall', hinit, -, hc'⟩ := hc.deallocate (hlive _ (List.mem_append_right bs hmem))
      rw [hcall] at hcall'
      obtain ⟨-, rfl⟩ := Prod.mk.inj (Except.ok.inj hcall')
      -- What is given back belongs to the others.
      have hperm : (bs ++ others).Perm ((p, size) :: (bs ++ others.erase (p, size))) :=
        ((List.perm_cons_erase hmem).append_left bs).trans List.perm_middle
      have hnodup := hperm.nodup_iff.mp ho.nodup
      refine ⟨hinit ▸ ho.pos, hnodup.of_cons, _, hc', fun b hb => ?_⟩
      refine ⟨hlive b (hperm.symm.subset (List.mem_cons_of_mem _ hb)), ?_⟩
      rintro rfl
      exact (List.nodup_cons.mp hnodup).1 hb

theorem ScreenStart.rep (h : ScreenStart (m, others)) :
    RepScreens m [] others ∧ m.kernel.memory.initMem = 0x1000000 := by
  obtain ⟨fuel, r, hfuel, hinit, hlist, hfocus, hothers⟩ := h
  obtain ⟨r', memory, hcall, hc, hinit'⟩ := memAllocatorInit_spec fuel 0x1000000 0x8000000
    (by decide) (by decide) (by decide) (Nat.lt_of_le_of_lt (by decide) hfuel)
  rw [hinit] at hcall
  obtain ⟨-, hmemory⟩ := Prod.mk.inj (Except.ok.inj hcall)
  dsimp only at hlist hfocus hothers hmemory
  have hinitMem : m.kernel.memory.initMem = 0x1000000 := by
    rw [hmemory]
    exact hinit' (by decide)
  refine ⟨⟨?_, List.nodup_nil, fun _ hx => absurd hx List.not_mem_nil, .inl hfocus, ?_⟩, hinitMem⟩
  · rw [hlist]
    exact .empty _ _ _
  · rw [hothers]
    refine ⟨?_, List.nodup_nil, _, hmemory ▸ hc, fun _ hb => absurd hb List.not_mem_nil⟩
    rw [hinitMem]
    decide

theorem screen_list_invariant (h : Reachable ScreenStart ScreenStep (m, others)) : m.ScreensOk := by
  obtain ⟨xs, hrep⟩ : ∃ xs, RepScreens m xs others := by
    -- The representation is the invariant; each step has its own lemma above.
    refine h.invariant (I := fun s => ∃ xs, RepScreens s.1 xs s.2) ?_ ?_
    · exact fun s hstart => ⟨[], (ScreenStart.rep hstart).1⟩
    · rintro _ _ - ⟨xs, hrep⟩ hstep
      cases hstep with
      | loadScreen hpid hcall =>
          rcases hrep.loadScreen hpid with
            ⟨_, xs', _, _, -, -, -, hreturns, hrep'⟩ | ⟨_, -, -, hreturns, hrep'⟩
          · obtain ⟨-, rfl⟩ := Prod.mk.inj (hreturns.eq hcall)
            exact ⟨xs', hrep'⟩
          · obtain ⟨-, rfl⟩ := Prod.mk.inj (hreturns.eq hcall)
            exact ⟨xs, hrep'⟩
      | @removeScreen _ _ _ pid _ _ hcall =>
          rcases hrep.removeScreen pid with
            ⟨_, _, _, _, -, -, -, hreturns, hrep'⟩ | ⟨-, hreturns, hrep'⟩
          · obtain rfl := hreturns.eq hcall
            exact ⟨_, hrep'⟩
          · obtain rfl := hreturns.eq hcall
            exact ⟨xs, hrep'⟩
      | loadNextScreen hcall =>
          obtain ⟨m', hreturns, -, hrep'⟩ := hrep.loadNextScreen
          obtain rfl := hreturns.eq hcall
          exact ⟨xs, hrep'⟩
      | loadPreviousScreen hcall =>
          obtain ⟨m', hreturns, -, hrep'⟩ := hrep.loadPreviousScreen
          obtain rfl := hreturns.eq hcall
          exact ⟨xs, hrep'⟩
      -- Elsewhere blocks come and go, the nodes stay.
      | elsewhere hmem =>
          exact ⟨xs, hrep.congr rfl (fun _ _ => ⟨rfl, rfl⟩) (fun _ _ => rfl) (fun _ _ => rfl)
            hrep.focus (hrep.owns.allocatorStep hmem)⟩
  exact hrep.ok

/-- A machine whose allocator has just started. -/
def startMachine : Machine where
  kernel := { zeroKernel with memory := startMemory }
  video := ⟨fun _ => 0, VIDEO, NULL, []⟩
  screenNode _ := ⟨0, 0, 0, 0, 0⟩
  list := NULL
  onFocusPid := NO_FOCUS

theorem startMachine_start : ScreenStart (startMachine, []) :=
  ⟨0x7001, 1, by decide, memAllocatorInit_start (by decide), rfl, rfl, rfl⟩

/-- The processes 1, 2 and 3 get screens, the one in the middle is removed, and the focus moves along the
two that are left. -/
def alongScreens : Except Stop (Machine × Machine) := do
  let (_, m) ← loadScreen 10 startMachine 1
  let (_, m) ← loadScreen 10 m 2
  let (_, m) ← loadScreen 10 m 3
  let m ← removeScreen 10 m 2
  let m ← loadPreviousScreen 10 m
  return (m, ← loadNextScreen 10 m)

theorem alongScreens_states : (do
    let (m, m') ← alongScreens
    return decide (m.onFocusPid = 1 ∧ m'.onFocusPid = 3) : Except Stop Bool) = .ok true := by
  decide +kernel

theorem screen_list_invariant_along : ∃ m m', Reachable ScreenStart ScreenStep (m, []) ∧
    m.onFocusPid = 1 ∧ loadNextScreen 10 m = .ok m' ∧ m'.onFocusPid = 3 ∧ m'.ScreensOk := by
  obtain ⟨⟨m, m'⟩, halong, hrun⟩ := bind_eq_ok.mp alongScreens_states
  obtain ⟨hfocus, hfocus'⟩ := of_decide_eq_true (Except.ok.inj hrun)
  obtain ⟨⟨_, m₁⟩, h₁, halong⟩ := bind_eq_ok.mp halong
  obtain ⟨⟨_, m₂⟩, h₂, halong⟩ := bind_eq_ok.mp halong
  obtain ⟨⟨_, m₃⟩, h₃, halong⟩ := bind_eq_ok.mp halong
  obtain ⟨m₄, h₄, halong⟩ := bind_eq_ok.mp halong
  obtain ⟨m₅, h₅, halong⟩ := bind_eq_ok.mp halong
  obtain ⟨m₆, h₆, halong⟩ := bind_eq_ok.mp halong
  obtain ⟨rfl, rfl⟩ := Prod.mk.inj (Except.ok.inj halong)
  have hloaded : Reachable ScreenStart ScreenStep (m₃, []) :=
    (((Reachable.start startMachine_start).next (.loadScreen (by decide) h₁)).next
      (.loadScreen (by decide) h₂)).next (.loadScreen (by decide) h₃)
  have hreach : Reachable ScreenStart ScreenStep (m₅, []) :=
    (hloaded.next (.removeScreen (by decide) h₄)).next (.loadPreviousScreen h₅)
  exact ⟨m₅, m₆, hreach, hfocus, h₆, hfocus', screen_list_invariant (hreach.next (.loadNextScreen h₆))⟩

end BasicKernel
