import BasicKernel.Pipes.Names
import BasicKernel.Scheduling.Fresh

set_option autoImplicit false

/-! # The list of pipes

`do_pipe` appends a new pipe to the list that `getPipe` searches. It never writes the field `next` of the
pipe, and it makes a second pipe of a name that is in the list already.

`pipe_registry_fine` is about the runs in which neither does harm: pages are clean and no pair
comes twice. `stale_next_ring` is a first pipe whose page held its own address.
-/

namespace BasicKernel

open Linked Fuel Transition

variable {k k' : Kernel} {fuel : Nat} {p q pipe name buffer : Nat} {live : Set (Nat × Nat)}

/-! ## Pages

A new pipe takes three pages. They are apart from all that was allocated before. -/

/-- Two different allocations do not overlap. -/
theorem Contract.apart {m : MemoryManager} {x y : Nat × Nat} (hc : Contract m live) (hx : x ∈ live)
    (hy : y ∈ live) (hne : x ≠ y) : x.1 + x.2 ≤ y.1 ∨ y.1 + y.2 ≤ x.1 := by
  -- Disjoint ranges of blocks give ranges of bytes apart, as both begin at a block.
  have hdisjoint := Set.disjoint_left.mp (hc.disjoint hx hy hne)
  have hxv := hc.valid x hx
  have hyv := hc.valid y hy
  -- A request is never larger than the blocks that serve it.
  have hblocks : ∀ size : Nat, size ≤ sizeBlocks size * PAGE_SIZE := by
    intro size
    simp only [sizeBlocks, PAGE_SIZE]
    omega
  have hxs := hblocks x.2
  have hys := hblocks y.2
  have hxpos := one_le_sizeBlocks hxv.pos
  have hypos := one_le_sizeBlocks hyv.pos
  have hxa := hxv.aligned
  have hya := hyv.aligned
  -- Whichever of the two comes first ends before the other begins.
  by_cases hlt : firstBlock m x.1 < firstBlock m y.1
  · left
    have hout : ¬ firstBlock m y.1 < firstBlock m x.1 + sizeBlocks x.2 := by
      intro hin
      exact hdisjoint (Set.mem_Ico.mpr ⟨hlt.le, hin⟩)
        (Set.mem_Ico.mpr ⟨le_rfl, Nat.lt_add_of_pos_right hypos⟩)
    have := Nat.mul_le_mul_right PAGE_SIZE (Nat.not_lt.mp hout)
    rw [Nat.add_mul] at this
    omega
  · right
    have hout : ¬ firstBlock m x.1 < firstBlock m y.1 + sizeBlocks y.2 := by
      intro hin
      exact hdisjoint (Set.mem_Ico.mpr ⟨le_rfl, Nat.lt_add_of_pos_right hxpos⟩)
        (Set.mem_Ico.mpr ⟨Nat.not_lt.mp hlt, hin⟩)
    have := Nat.mul_le_mul_right PAGE_SIZE (Nat.not_lt.mp hout)
    rw [Nat.add_mul] at this
    omega

/-- What a successful `allocate` leaves. -/
theorem Kernel.allocate_new {size : Nat} (hc : Contract k.memory live) (hsize : 1 ≤ size ∧ size < 2 ^ 31)
    (h : k.allocate size = .ok (p, k')) (hp : p ≠ NULL) :
    ∃ m, BasicKernel.allocate k.memory size = .ok (some p, m) ∧ k' = { k with memory := m } ∧
      (∀ x ∈ live, x.1 ≠ p) ∧ Contract m (insert (p, size) live) := by
  obtain ⟨⟨r, m⟩, hcall, h⟩ := bind_eq_ok.mp h
  obtain ⟨hr, rfl⟩ := Prod.mk.inj (Except.ok.inj h)
  cases r with
  | none => exact absurd hr.symm hp
  | some a =>
      obtain rfl : a = p := hr
      rcases hc.allocate hsize.1 hsize.2 with ⟨b, m', hcall', hne, -, -, hc'⟩ | hcall'
      · rw [hcall] at hcall'
        obtain ⟨hb, rfl⟩ := Prod.mk.inj (Except.ok.inj hcall')
        obtain rfl := Option.some.inj hb
        exact ⟨m, hcall, rfl, hne, hc'⟩
      · rw [hcall] at hcall'
        cases (Prod.mk.inj (Except.ok.inj hcall')).1

/-- `clearBuffer` touches the buffer only. -/
theorem clearBuffer_kept {n : Nat} (hbuffer : buffer ≠ NULL) : ∀ {i : Nat} {k : Kernel},
    clearBuffer buffer n k i = .ok k' → ∃ c, k' = { k with char := c } ∧
      ∀ a : Nat, a < buffer + i ∨ buffer + i + n ≤ a → c a = k.char a := by
  induction n with
  | zero =>
      intro i k h
      obtain rfl := Except.ok.inj h
      exact ⟨k.char, rfl, fun a _ => rfl⟩
  | succ n ih =>
      intro i k h
      have hcell : buffer + i ≠ NULL := Nat.ne_of_gt (Nat.add_pos_left (Nat.pos_of_ne_zero hbuffer) i)
      rw [clearBuffer, Kernel.setChar_of_ne hcell, ok_bind] at h
      obtain ⟨c, rfl, hkept⟩ := ih h
      refine ⟨c, rfl, fun a ha => ?_⟩
      have hne : a ≠ buffer + i := by omega
      calc c a
          = Function.update k.char (buffer + i) 0 a := hkept a (by omega)
        _ = k.char a := Function.update_of_ne hne _ _

theorem countDigits_le {number length r : Int} (h : countDigits fuel number length = .ok r) :
    length ≤ r := by
  induction fuel generalizing number length with
  | zero => cases h
  | succ fuel ih =>
      rw [countDigits] at h
      split at h
      · exact le_of_eq (Except.ok.inj h)
      · have hle := ih h
        omega

/-- No name can be written at address 0. -/
theorem createName_null {fromPid toPid : Int} : createName fuel k fromPid toPid NULL ≠ .ok k' := by
  -- A numeral has at least one digit, and its store goes to address 0.
  have hdigits : ∀ (n : Nat) (k k' : Kernel) (value : Int), writeDigits NULL (n + 1) k value ≠ .ok k' := by
    intro n
    induction n with
    | zero =>
        intro k k' value h
        rw [writeDigits, Nat.add_zero, Kernel.setChar, modify_null] at h
        cases h
    | succ n ih =>
        intro k k' value h
        obtain ⟨k₁, -, h⟩ := bind_eq_ok.mp h
        exact ih _ _ _ h
  intro h
  obtain ⟨⟨i, k₁⟩, hitoa, -⟩ := bind_eq_ok.mp h
  obtain ⟨length, hcount, hitoa⟩ := bind_eq_ok.mp hitoa
  -- Zero has a special case that stores at once.
  by_cases hlength : length = 0
  · rw [if_pos hlength, Kernel.setChar, modify_null] at hitoa
    cases hitoa
  · rw [if_neg hlength] at hitoa
    obtain ⟨k₂, -, hitoa⟩ := bind_eq_ok.mp hitoa
    obtain ⟨k₃, -, hitoa⟩ := bind_eq_ok.mp hitoa
    obtain ⟨k₄, hwrite, -⟩ := bind_eq_ok.mp hitoa
    have hpos := countDigits_le hcount
    have hdigit : length.toNat ≠ 0 := by omega
    obtain ⟨n, hn⟩ := Nat.exists_eq_succ_of_ne_zero hdigit
    rw [hn] at hwrite
    exact hdigits n _ _ _ hwrite

theorem createName_ne {fromPid toPid : Int} {name : Addr} (h : createName fuel k fromPid toPid name = .ok k') :
    name ≠ NULL := by
  rintro rfl
  exact createName_null h

/-! ## A new pipe

All fields of the node are written but `next`, which is what the page held before. -/

/-- What `createPipe` has made: a node, a name and a buffer in three new pages. The field `next` of the
node is what the page held. -/
structure Kernel.NewPipe (k k' : Kernel) (live : Set (Nat × Nat)) (fromPid toPid : Int)
    (pipe name buffer : Nat) : Prop where
  served : ∃ m, BasicKernel.allocate k.memory PIPE_NODE_SIZE = .ok (some pipe, m)
  pipe_ne : pipe ≠ NULL
  name_ne : name ≠ NULL
  pipe_new : ∀ x ∈ live, x.1 ≠ pipe
  name_new : ∀ x ∈ live, x.1 ≠ name
  buffer_new : ∀ x ∈ live, x.1 ≠ buffer
  contract : Contract k'.memory
    (insert (buffer, PIPE_BUF_SIZE) (insert (name, NAME_SIZE) (insert (pipe, PIPE_NODE_SIZE) live)))
  node : k'.pipe = Function.update k.pipe pipe ⟨name, buffer, buffer, buffer, (k.pipe pipe).next⟩
  pipeList : k'.pipeList = k.pipeList
  isString : k'.IsString name (pipeName fromPid.toNat toPid.toNat)
  kept : ∀ a : Nat, a < name ∨ name + NAME_SIZE ≤ a → a < buffer ∨ buffer + PIPE_BUF_SIZE ≤ a →
    k'.char a = k.char a

theorem createPipe_new {fromPid toPid : Int} (hc : Contract k.memory live)
    (hfrom : 0 ≤ fromPid ∧ fromPid < 2 ^ 31) (hto : 0 ≤ toPid ∧ toPid < 2 ^ 31)
    (h : createPipe fuel k fromPid toPid = .ok (pipe, k')) :
    ∃ name buffer, k.NewPipe k' live fromPid toPid pipe name buffer := by
  obtain ⟨name, buffer, k₁, k₂, k₃, k₄, k₅, hpipe, h₁, h₂, hcall, h₄, hclear, rfl⟩ := createPipe_cases h
  -- a call that returns was given its three pages
  have hname := createName_ne hcall
  have hbuffer := clearBuffer_ne hclear
  -- Each allocation is new with respect to all before it.
  obtain ⟨m₁, hserved, rfl, hnew₁, hc₁⟩ := Kernel.allocate_new hc (by decide) h₁ hpipe
  obtain ⟨m₂, -, rfl, hnew₂, hc₂⟩ := Kernel.allocate_new hc₁ (by decide) h₂ hname
  obtain ⟨c, hcreate, hstr, hkept⟩ := createName_int hfrom hto hname _
  obtain rfl := hcreate.eq hcall
  obtain ⟨m₃, -, rfl, hnew₃, hc₃⟩ := Kernel.allocate_new hc₂ (by decide) h₄ hbuffer
  obtain ⟨c', rfl, hkept'⟩ := clearBuffer_kept hbuffer hclear
  refine ⟨name, buffer, ⟨m₁, hserved⟩, hpipe, hname, hnew₁, ?_, ?_, hc₃, ?_, rfl, ?_, ?_⟩
  · exact fun x hx => hnew₂ x (Set.mem_insert_of_mem _ hx)
  · exact fun x hx => hnew₃ x (Set.mem_insert_of_mem _ (Set.mem_insert_of_mem _ hx))
  · simp only [Function.update_idem, Function.update_self]
  · -- the buffer is not in the page of the name
    have hapart := hc₃.apart (Set.mem_insert_of_mem _ (Set.mem_insert _ _)) (Set.mem_insert _ _)
      (fun heq => hnew₃ _ (Set.mem_insert _ _) (congrArg Prod.fst heq))
    refine hstr.congr fun i hi => hkept' _ ?_
    have hlength := length_pipeName_int hfrom.2 hto.2
    dsimp only at hapart
    omega
  -- What is outside the name and the buffer keeps its byte.
  · intro a hn hb
    calc c' a
        = c a := hkept' a (by omega)
      _ = k.char a := hkept a hn

/-! ## The registry

The pairs that have a pipe are kept beside the kernel, in the order of their creation. -/

/-- The kernel, and the pairs of pids that `do_pipe` was called with, in this order. -/
structure PipeRegistry where
  kernel : Kernel
  created : List (Int × Int)

/-- Pages that are not reserved may hold anything. -/
structure Kernel.OldContent (k k' : Kernel) : Prop where
  memory : k'.memory = k.memory
  pipeList : k'.pipeList = k.pipeList
  pipe : ∀ a, k.Reserved a → k'.pipe a = k.pipe a
  char : ∀ a, k.Reserved a → k'.char a = k.char a

/-- A pid that is no negative `int`. -/
def IsPid (pid : Int) : Prop := 0 ≤ pid ∧ pid < 2 ^ 31

/-- No pipe has been made. The allocator may be in any state. -/
def PipeRegistry.AtStart (s : PipeRegistry) : Prop :=
  s.kernel.pipeList = NULL ∧ (∃ live, Contract s.kernel.memory live) ∧ s.created = []

/-- A call of `do_pipe` that meets the condition `C`, or new content of the free pages. -/
inductive PipeListStep (C : PipeRegistry → Int → Int → Prop) : PipeRegistry → PipeRegistry → Prop
  | do_pipe {s : PipeRegistry} {fuel : Nat} {k' : Kernel} {fromPid toPid : Int} {name : Addr} :
      IsPid fromPid → IsPid toPid → C s fromPid toPid →
      do_pipe fuel s.kernel fromPid toPid = .ok (name, k') →
      PipeListStep C s ⟨k', s.created ++ [(fromPid, toPid)]⟩
  | recycle {s : PipeRegistry} {k' : Kernel} : s.kernel.OldContent k' →
      PipeListStep C s ⟨k', s.created⟩

/-- What the list of pipes and `getPipe` promise. -/
structure PipeRegistry.Fine (C : PipeRegistry → Int → Int → Prop) (s : PipeRegistry) : Prop where
  list : ∃ nodes, pipeLink.IsList s.kernel s.kernel.pipeList nodes
  lookup : ∀ {p : Addr} {str : List UInt8}, p ≠ NULL → s.kernel.IsString p str →
    ∃ r, Returns (getPipe · s.kernel p) r ∧
      (r = NULL ↔ ∀ x ∈ s.created, pipeName x.1.toNat x.2.toNat ≠ str)
  newest : ∀ {fuel : Nat} {fromPid toPid : Int} {name : Addr} {k' : Kernel}, IsPid fromPid → IsPid toPid →
    C s fromPid toPid → do_pipe fuel s.kernel fromPid toPid = .ok (name, k') →
    ∃ pipe k₁, createPipe fuel s.kernel fromPid toPid = .ok (pipe, k₁) ∧
      Returns (getPipe · k' name) pipe ∧ k'.PipeHolds pipe 0 0 []

/-- The page of the next pipe has no pointer in the place of the field `next`, and there is no pipe for the
pair yet. -/
def PipeRegistry.CleanPair (s : PipeRegistry) (fromPid toPid : Int) : Prop :=
  (∀ p m, BasicKernel.allocate s.kernel.memory PIPE_NODE_SIZE = .ok (some p, m) →
    (s.kernel.pipe p).next = NULL) ∧ (fromPid, toPid) ∉ s.created

/-! ### The invariant

The list of the kernel is a list of named nodes, one for each pair of the registry. -/

/-- A node of the list with the name of a pair, both in pages of their own. -/
structure Kernel.Named (k : Kernel) (live : Set (Nat × Nat)) (n : Nat) (x : Int × Int) : Prop where
  page : (n, PIPE_NODE_SIZE) ∈ live
  namePage : ((k.pipe n).name, NAME_SIZE) ∈ live
  name_ne : (k.pipe n).name ≠ NULL
  isString : k.IsString (k.pipe n).name (pipeName x.1.toNat x.2.toNat)
  pids : IsPid x.1 ∧ IsPid x.2

/-- The entries are the nodes of the list, each with its pair. -/
structure PipeRegistry.Kept (s : PipeRegistry) (live : Set (Nat × Nat))
    (entries : List (Nat × Int × Int)) : Prop where
  contract : Contract s.kernel.memory live
  list : pipeLink.IsList s.kernel s.kernel.pipeList (entries.map Prod.fst)
  created : s.created = entries.map Prod.snd
  named : ∀ e ∈ entries, s.kernel.Named live e.1 e.2

theorem Kernel.Named.congr {n : Nat} {x : Int × Int} {live' : Set (Nat × Nat)} (h : k.Named live n x)
    (hname : (k'.pipe n).name = (k.pipe n).name) (hlive : live ⊆ live')
    (hchar : ∀ i, i < NAME_SIZE → k'.char ((k.pipe n).name + i) = k.char ((k.pipe n).name + i)) :
    k'.Named live' n x where
  page := hlive h.page
  namePage := by
    rw [hname]
    exact hlive h.namePage
  name_ne := by
    rw [hname]
    exact h.name_ne
  isString := by
    rw [hname]
    refine h.isString.congr fun i hi => hchar i ?_
    have := length_pipeName_int h.pids.1.2 h.pids.2.2
    omega
  pids := h.pids

/-! ### Lookup

The search compares names, and by the law of names this compares pairs. -/

theorem Kernel.IsString.unique {xs ys : List UInt8} (h : k.IsString p xs) (h' : k.IsString p ys) :
    xs = ys := by
  induction xs generalizing p ys with
  | nil =>
      cases ys with
      | nil => rfl
      | cons c ys => exact absurd (h'.1.symm.trans h) h'.2.1
  | cons c xs ih =>
      cases ys with
      | nil => exact absurd (h.1.symm.trans h') h.2.1
      | cons d ys => rw [← h.1, ← h'.1, ih h.2.2 h'.2.2]

theorem Kernel.Named.isString_iff {n : Nat} {x : Int × Int} (h : k.Named live n x) {str : List UInt8} :
    k.IsString (k.pipe n).name str ↔ pipeName x.1.toNat x.2.toNat = str := by
  constructor
  · exact h.isString.unique
  · rintro rfl
    exact h.isString

section Kept

variable {s : PipeRegistry} {entries : List (Nat × Int × Int)}

theorem PipeRegistry.Kept.node_ne (h : s.Kept live entries) {e : Nat × Int × Int} (he : e ∈ entries) :
    e.1 ≠ NULL :=
  fun hnull => h.list.nil_notMem (hnull ▸ List.mem_map_of_mem he)

open scoped Classical in
/-- `getPipe` finds the first pipe of the name. -/
theorem PipeRegistry.Kept.getPipe_returns (h : s.Kept live entries) {str : List UInt8} (hp : p ≠ NULL)
    (hstr : s.kernel.IsString p str) :
    Returns (getPipe · s.kernel p) (((entries.map Prod.fst).find? fun n =>
      s.kernel.IsString (s.kernel.pipe n).name str).getD NULL) := by
  refine h.list.walkWhile_returns (fun _ => if_pos rfl) (fun n hn => ?_) fun n hn => ?_
  · obtain ⟨e, he, rfl⟩ := List.mem_map.mp hn
    have hnamed := h.named e he
    have hequal := equalName_returns hp hnamed.name_ne hstr hnamed.isString
    rw [decide_eq_decide.mpr (eq_comm.trans hnamed.isString_iff.symm)] at hequal
    simp only [if_neg (h.node_ne he)]
    exact hequal.bind (.const _ _)
  · obtain ⟨e, he, rfl⟩ := List.mem_map.mp hn
    rw [load_of_ne (h.node_ne he)]
    rfl

/-- It finds none if and only if the name was never created. -/
theorem PipeRegistry.Kept.lookup (h : s.Kept live entries) {str : List UInt8} (hp : p ≠ NULL)
    (hstr : s.kernel.IsString p str) : ∃ r, Returns (getPipe · s.kernel p) r ∧
      (r = NULL ↔ ∀ x ∈ s.created, pipeName x.1.toNat x.2.toNat ≠ str) := by
  classical
  refine ⟨_, h.getPipe_returns hp hstr, ?_⟩
  have hnone : ((entries.map Prod.fst).find? fun n => s.kernel.IsString (s.kernel.pipe n).name str) = none ↔
      ∀ x ∈ s.created, pipeName x.1.toNat x.2.toNat ≠ str := by
    simp only [List.find?_eq_none, h.created, List.forall_mem_map, decide_eq_true_eq]
    exact forall₂_congr fun e he => not_congr (h.named e he).isString_iff
  rw [← hnone]
  cases hfind : (entries.map Prod.fst).find? fun n => s.kernel.IsString (s.kernel.pipe n).name str with
  | none => simp
  | some n =>
      obtain ⟨e, he, rfl⟩ := List.mem_map.mp (List.mem_of_find?_eq_some hfind)
      simpa using h.node_ne he

/-! ### The steps -/

/-- A page that was handed out is reserved. -/
theorem Contract.reserved {x : Nat × Nat} (hc : Contract k.memory live) (hx : x ∈ live) {i : Nat}
    (hi : i < x.2) : k.Reserved (x.1 + i) := by
  have haligned := (hc.valid x hx).aligned
  refine ⟨by omega, hc.extent_subset hx (Set.mem_Ico.mpr ?_)⟩
  simp only [sizeBlocks, PAGE_SIZE] at *
  omega

theorem PipeRegistry.Kept.recycle (h : s.Kept live entries) (hold : s.kernel.OldContent k') :
    PipeRegistry.Kept ⟨k', s.created⟩ live entries where
  contract := by
    rw [hold.memory]
    exact h.contract
  list := by
    have hlist := h.list
    rw [← hold.pipeList] at hlist
    refine hlist.congr fun n hn => ?_
    obtain ⟨e, he, rfl⟩ := List.mem_map.mp hn
    exact congrArg PipeNode.next
      (hold.pipe e.1 (h.contract.reserved (h.named e he).page (i := 0) (Nat.zero_lt_succ 39)))
  created := h.created
  named e he := by
    have hnamed := h.named e he
    have hpipe := hold.pipe e.1 (h.contract.reserved hnamed.page (i := 0) (Nat.zero_lt_succ 39))
    exact hnamed.congr (congrArg PipeNode.name hpipe) subset_rfl
      fun i hi => hold.char _ (h.contract.reserved hnamed.namePage hi)

/-- To link a pipe behind the last node changes the field `next` of that node only. -/
theorem pipeLink_linkLast (k : Kernel) (p n : Nat) (xs : List Nat) :
    ∃ nodes, (pipeLink.linkLast p xs n k).2 = { k with pipe := nodes } ∧
      (∀ q, (nodes q).name = (k.pipe q).name) ∧ ∀ q ∉ xs, nodes q = k.pipe q := by
  rw [Link.linkLast]
  cases hxs : xs.getLast? with
  | none => exact ⟨k.pipe, rfl, fun q => rfl, fun q _ => rfl⟩
  | some last =>
      refine ⟨Function.update k.pipe last { k.pipe last with next := n }, rfl, fun q => ?_, fun q hq => ?_⟩
      · by_cases hlast : q = last
        · rw [hlast, Function.update_self]
        · rw [Function.update_of_ne hlast]
      · have hlast : q ≠ last := by
          rintro rfl
          exact hq (List.mem_of_getLast? hxs)
        exact Function.update_of_ne hlast _ _

theorem addPipeToList_inv {list r : Nat} {xs : List Nat} (hlist : pipeLink.IsList k list xs)
    (hpipe : pipe ≠ NULL) (hfresh : pipe ∉ xs) (hnext : (k.pipe pipe).next = NULL)
    (h : addPipeToList fuel k list pipe = .ok (r, k')) :
    ∃ nodes, k' = { k with pipe := nodes } ∧ (∀ q, (nodes q).name = (k.pipe q).name) ∧
      nodes pipe = k.pipe pipe ∧ pipeLink.IsList k' r (xs ++ [pipe]) := by
  rw [addPipeToList, addLast_spec hlist fun _ _ htail _ _ => by
    obtain ⟨-, rfl⟩ := Prod.mk.inj (Except.ok.inj htail)
    rfl] at h
  split at h
  case isFalse => cases h
  case isTrue =>
      obtain ⟨rfl, rfl⟩ := Prod.mk.inj (Except.ok.inj h)
      have hsingle : pipeLink.IsList k pipe [pipe] :=
        Chain.cons_iff.mpr ⟨rfl, hpipe, Chain.nil_iff.mpr hnext⟩
      have hnodup : (xs ++ [pipe]).Nodup :=
        List.nodup_append.mpr ⟨hlist.nodup, List.nodup_singleton _, fun a ha b hb heq =>
          hfresh (List.mem_singleton.mp hb ▸ heq ▸ ha)⟩
      obtain ⟨nodes, hlink, hnames, hothers⟩ := pipeLink_linkLast k list pipe xs
      exact ⟨nodes, hlink, hnames, hothers pipe hfresh,
        Link.isList_linkLast hlist.path hsingle hlist.nil_notMem hnodup⟩

/-- A call on a clean page appends the new pipe. -/
theorem PipeRegistry.Kept.do_pipe (h : s.Kept live entries) {fromPid toPid : Int} {name : Nat}
    (hfrom : IsPid fromPid) (hto : IsPid toPid)
    (hclean : ∀ p m, BasicKernel.allocate s.kernel.memory PIPE_NODE_SIZE = .ok (some p, m) →
      (s.kernel.pipe p).next = NULL)
    (hrun : BasicKernel.do_pipe fuel s.kernel fromPid toPid = .ok (name, k')) :
    ∃ pipe k₁ live', createPipe fuel s.kernel fromPid toPid = .ok (pipe, k₁) ∧ name = (k'.pipe pipe).name ∧
      k'.PipeHolds pipe 0 0 [] ∧
      PipeRegistry.Kept ⟨k', s.created ++ [(fromPid, toPid)]⟩ live' (entries ++ [(pipe, fromPid, toPid)]) := by
  obtain ⟨⟨pipe, k₁⟩, hcreate, hrun⟩ := bind_eq_ok.mp hrun
  obtain ⟨⟨list, k₂⟩, hadd, hrun⟩ := bind_eq_ok.mp hrun
  obtain ⟨node, hload, hrun⟩ := bind_eq_ok.mp hrun
  obtain ⟨rfl, rfl⟩ := Prod.mk.inj (Except.ok.inj hrun)
  -- The page is clean, so the list ends behind the new node.
  obtain ⟨pname, buffer, hnew⟩ := createPipe_new h.contract hfrom hto hcreate
  obtain ⟨m, hserved⟩ := hnew.served
  have hnext : (k₁.pipe pipe).next = NULL := by
    rw [hnew.node, Function.update_self]
    exact hclean pipe m hserved
  -- The page of an older pipe is still allocated and cannot be given out again.
  have hfresh : pipe ∉ entries.map Prod.fst := by
    intro hmem
    obtain ⟨e, he, rfl⟩ := List.mem_map.mp hmem
    exact hnew.pipe_new _ (h.named e he).page rfl
  -- the nodes of the list are not touched by `createPipe`
  have hnode : ∀ e ∈ entries, k₁.pipe e.1 = s.kernel.pipe e.1 := by
    intro e he
    have hne : e.1 ≠ pipe := fun heq => hfresh (heq ▸ List.mem_map_of_mem he)
    rw [hnew.node, Function.update_of_ne hne]
  have hlist : pipeLink.IsList k₁ k₁.pipeList (entries.map Prod.fst) := by
    rw [hnew.pipeList]
    refine h.list.congr fun n hn => ?_
    obtain ⟨e, he, rfl⟩ := List.mem_map.mp hn
    exact congrArg PipeNode.next (hnode e he)
  obtain ⟨nodes, rfl, hnames, hlast, hend⟩ := addPipeToList_inv hlist hnew.pipe_ne hfresh hnext hadd
  rw [load_of_ne hnew.pipe_ne] at hload
  obtain rfl := Except.ok.inj hload
  have hnewName : (nodes pipe).name = pname := by
    rw [hnames, hnew.node, Function.update_self]
  have hsubset : live ⊆ insert (buffer, PIPE_BUF_SIZE)
      (insert (pname, NAME_SIZE) (insert (pipe, PIPE_NODE_SIZE) live)) := by
    intro x hx
    exact Set.mem_insert_of_mem _ (Set.mem_insert_of_mem _ (Set.mem_insert_of_mem _ hx))
  have hpname : (pname, NAME_SIZE) ∈ insert (buffer, PIPE_BUF_SIZE)
      (insert (pname, NAME_SIZE) (insert (pipe, PIPE_NODE_SIZE) live)) :=
    Set.mem_insert_of_mem _ (Set.mem_insert _ _)
  refine ⟨pipe, k₁, _, hcreate, rfl, (createPipe_holds hcreate).congr hlast fun i _ => rfl,
    hnew.contract, ?_, ?_, ?_⟩
  -- The new node is the last of the list, and its pair the last of those created.
  · rw [List.map_append]
    exact hend
  · rw [h.created, List.map_append]
    rfl
  · intro e he
    rcases List.mem_append.mp he with he | he
    · have hnamed := h.named e he
      refine hnamed.congr ((hnames e.1).trans (congrArg PipeNode.name (hnode e he))) hsubset fun i hi => ?_
      -- the name of an older pipe is in none of the new pages
      have hold := hsubset hnamed.namePage
      have hapart := hnew.contract.apart hold hpname fun heq =>
        hnew.name_new _ hnamed.namePage (congrArg Prod.fst heq)
      have hapart' := hnew.contract.apart hold (Set.mem_insert _ _) fun heq =>
        hnew.buffer_new _ hnamed.namePage (congrArg Prod.fst heq)
      dsimp only at hapart hapart'
      exact hnew.kept _ (by omega) (by omega)
    · obtain rfl := List.mem_singleton.mp he
      exact ⟨Set.mem_insert_of_mem _ (Set.mem_insert_of_mem _ (Set.mem_insert _ _)), by rwa [hnewName],
        by rw [hnewName]; exact hnew.name_ne, by rw [hnewName]; exact hnew.isString.congr fun _ _ => rfl, hfrom, hto⟩

/-- The first pipe of a new name is the one that was made. -/
theorem PipeRegistry.Kept.getPipe_last {e : Nat × Int × Int} (h : s.Kept live (entries ++ [e]))
    (hnew : e.2 ∉ entries.map Prod.snd) : Returns (getPipe · s.kernel (s.kernel.pipe e.1).name) e.1 := by
  classical
  have he : e ∈ entries ++ [e] := List.mem_append_right _ (List.mem_singleton_self e)
  have hlast := h.named e he
  have hget := h.getPipe_returns hlast.name_ne hlast.isString
  have hfirst : (entries.map Prod.fst).find? (fun n => s.kernel.IsString (s.kernel.pipe n).name
      (pipeName e.2.1.toNat e.2.2.toNat)) = none := by
    simp only [List.find?_eq_none, List.forall_mem_map, decide_eq_true_eq]
    intro e' he' hstr
    have hold := h.named e' (List.mem_append_left _ he')
    obtain ⟨hfrom, hto⟩ := pipeName_inj (hold.isString_iff.mp hstr)
    -- pids are not negative, so the pairs are equal
    have := hold.pids.1.1
    have := hold.pids.2.1
    have := hlast.pids.1.1
    have := hlast.pids.2.1
    have hpair : e'.2 = e.2 := Prod.ext (by omega) (by omega)
    exact hnew (hpair ▸ List.mem_map_of_mem he')
  rwa [List.map_append, List.find?_append, hfirst, Option.none_or, List.map_singleton, List.find?_singleton,
    if_pos (decide_eq_true hlast.isString), Option.getD_some] at hget

end Kept

/-! ## The law of the registry -/

theorem PipeRegistry.kept_of_reachable {s : PipeRegistry}
    (h : Reachable PipeRegistry.AtStart (PipeListStep PipeRegistry.CleanPair) s) :
    ∃ live entries, s.Kept live entries := by
  refine h.invariant (I := fun s => ∃ live entries, s.Kept live entries) (fun s hs => ?_)
    fun s s' _ ⟨live, entries, hkept⟩ hstep => ?_
  · obtain ⟨hlist, ⟨live, hc⟩, hcreated⟩ := hs
    exact ⟨live, [], hc, Chain.nil_iff.mpr hlist, hcreated, fun e he => absurd he List.not_mem_nil⟩
  · cases hstep with
    | do_pipe hfrom hto hclean hrun =>
        obtain ⟨pipe, k₁, live', -, -, -, hkept'⟩ := hkept.do_pipe hfrom hto hclean.1 hrun
        exact ⟨live', _, hkept'⟩
    | recycle hold => exact ⟨live, entries, hkept.recycle hold⟩

/-- Every state of a run on clean pages and with no pair twice keeps the promise. -/
theorem pipe_registry_fine {s : PipeRegistry}
    (h : Reachable PipeRegistry.AtStart (PipeListStep PipeRegistry.CleanPair) s) :
    s.Fine PipeRegistry.CleanPair := by
  obtain ⟨live, entries, hkept⟩ := PipeRegistry.kept_of_reachable h
  refine ⟨⟨_, hkept.list⟩, hkept.lookup, fun hfrom hto hclean hrun => ?_⟩
  obtain ⟨pipe, k₁, live', hcreate, rfl, hholds, hkept'⟩ := hkept.do_pipe hfrom hto hclean.1 hrun
  refine ⟨pipe, k₁, hcreate, hkept'.getPipe_last ?_, hholds⟩
  rw [← hkept.created]
  exact hclean.2

/-- A kernel that has just started, with `f a` in the field `next` of a pipe at `a`. -/
def pipeKernel (f : Addr → Addr) : Kernel :=
  { zeroKernel with memory := startMemory, pipe := fun a => ⟨0, 0, 0, 0, f a⟩ }

theorem pipeKernel_atStart (f : Addr → Addr) : PipeRegistry.AtStart ⟨pipeKernel f, []⟩ := by
  obtain ⟨r, m, hinit, hc, -⟩ := memAllocatorInit_spec 0x7001 0x1000000 0x8000000 (by decide) (by decide)
    (by decide) (by decide)
  rw [memAllocatorInit_start (by decide)] at hinit
  obtain ⟨-, rfl⟩ := Prod.mk.inj (Except.ok.inj hinit)
  exact ⟨rfl, ⟨_, hc⟩, rfl⟩

/-- The first page of a pipe held its own address in the place of `next`: the list is a ring. -/
theorem stale_next_ring : ¬ ∀ s, Reachable PipeRegistry.AtStart (PipeListStep fun _ _ _ => True) s →
    s.Fine fun _ _ _ => True := by
  intro hclaim
  have hrun : (do
      let r ← do_pipe 4 (pipeKernel id) 0 1
      return decide (r.2.pipeList ≠ NULL ∧ (r.2.pipe r.2.pipeList).next = r.2.pipeList)) = .ok true := by
    decide +kernel
  obtain ⟨⟨name, k⟩, hpipe, hring⟩ := bind_eq_ok.mp hrun
  obtain ⟨hne, hself⟩ := of_decide_eq_true (Except.ok.inj hring)
  obtain ⟨nodes, hlist⟩ := (hclaim _ (.next (.start (pipeKernel_atStart id))
    (.do_pipe ⟨by decide, by decide⟩ ⟨by decide, by decide⟩ trivial hpipe))).list
  cases nodes with
  | nil => exact hne (Chain.nil_iff.mp hlist)
  | cons n nodes =>
      obtain ⟨rfl, -, hrest⟩ := Chain.cons_iff.mp hlist
      have hnext : pipeLink.next k k.pipeList = k.pipeList := hself
      rw [hnext] at hrest
      have := congrArg List.length (hlist.unique hrest)
      simp at this

theorem pipe_registry_first_pipe : ∃ k, (∃ name, do_pipe 4 (pipeKernel fun _ => NULL) 0 1 = .ok (name, k)) ∧
    PipeRegistry.Fine PipeRegistry.CleanPair ⟨k, [(0, 1)]⟩ := by
  have hrun : (do_pipe 4 (pipeKernel fun _ => NULL) 0 1).isOk = true := by decide +kernel
  cases hpipe : do_pipe 4 (pipeKernel fun _ => NULL) 0 1 with
  | error e =>
      rw [hpipe] at hrun
      cases hrun
  | ok r =>
      refine ⟨r.2, ⟨r.1, rfl⟩, pipe_registry_fine (.next (.start (pipeKernel_atStart fun _ => NULL))
        (.do_pipe ⟨by decide, by decide⟩ ⟨by decide, by decide⟩ ?_ hpipe))⟩
      exact ⟨fun _ _ _ => rfl, List.not_mem_nil⟩

end BasicKernel
