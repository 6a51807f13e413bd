import BasicKernel.Pipes.Frames
import BasicKernel.Pipes.PipeList

set_option autoImplicit false

/-! # The pipes as queues

What the pipes are for: a queue of bytes for each pair of processes, which its name selects. A run of
`do_pipe`, `writeToPipe` and `readFromPipe` on any number of pipes, with other allocations in between,
refines a run on the queues: a call on one pipe leaves the others alone.

`pipefs_refines_queues` is the refinement. Its invariant joins the registry of
`Pipes/PipeList.lean` with the ring buffers of `Pipes/Fifo.lean`.
-/

namespace BasicKernel

open Linked Fuel RingBuffer Transition

/-! ## The queues

The abstract side: no memory, no names and no pages. -/

/-- The queue of each pair that has one. -/
abbrev Queues := Int × Int → Option (List UInt8)

namespace Queues

variable (queues : Queues)

def create (x : Int × Int) : Queues := Function.update queues x (some [])

/-- As much of the message as fits is appended. Without a queue nothing happens. -/
def write (x : Int × Int) (message : List UInt8) : Queues :=
  Function.update queues x
    ((queues x).map fun xs => xs ++ message.take (PIPE_BUF_SIZE - xs.length))

/-- The reader gets everything. -/
def read (x : Int × Int) : Queues := Function.update queues x ((queues x).map fun _ => [])

end Queues

/-! ## Runs

Both sides of the refinement step together, and the conditions on a call are those of the
kernel. -/

/-- The kernel, the areas that are allocated, and the queues that the calls so far ask for. -/
structure Pipefs where
  kernel : Kernel
  live : Set (Nat × Nat)
  queues : Queues

/-- The address is in no name and in no buffer of a pipe. -/
def Kernel.OffPipes (k : Kernel) (a : Nat) : Prop :=
  ∀ nodes, pipeLink.IsList k k.pipeList nodes → ∀ n ∈ nodes,
    ¬ ((k.pipe n).name ≤ a ∧ a < (k.pipe n).name + NAME_SIZE) ∧
      ¬ ((k.pipe n).buffer ≤ a ∧ a < (k.pipe n).buffer + PIPE_BUF_SIZE)

/-- The address holds the name of the pair. -/
structure Kernel.IsName (k : Kernel) (p : Addr) (x : Int × Int) : Prop where
  ne : p ≠ NULL
  pids : IsPid x.1 ∧ IsPid x.2
  isString : k.IsString p (pipeName x.1.toNat x.2.toNat)

/-- What other code does: it stores anywhere but in the pages of the pipes. -/
structure Kernel.SparesPipes (k k' : Kernel) : Prop where
  memory : k'.memory = k.memory
  pipeList : k'.pipeList = k.pipeList
  pipe : ∀ nodes, pipeLink.IsList k k.pipeList nodes → ∀ n ∈ nodes, k'.pipe n = k.pipe n
  char : ∀ a, ¬ k.OffPipes a → k'.char a = k.char a

/-- The area is a page of a pipe. -/
def Kernel.IsPipePage (k : Kernel) (x : Nat × Nat) : Prop :=
  ∃ nodes, pipeLink.IsList k k.pipeList nodes ∧ ∃ n ∈ nodes,
    x.1 = n ∨ x.1 = (k.pipe n).name ∨ x.1 = (k.pipe n).buffer

namespace Pipefs

structure AtStart (s : Pipefs) : Prop where
  pipeList : s.kernel.pipeList = NULL
  contract : Contract s.kernel.memory s.live
  queues : s.queues = fun _ => none

/-- A call with the names of any pairs, with strings and buffers outside the pages of the pipes. A pair gets
one pipe at most, on a page that holds no old pointer in the place of `next`: `createPipe` does not write this
field, and a list that runs on into old memory ends nowhere. Other code may allocate, free what is its own,
and store. -/
inductive Step : Pipefs → Pipefs → Prop
  | do_pipe {s : Pipefs} {fuel : Nat} {k₁ k' : Kernel} {x : Int × Int} {pipe name : Addr} :
      IsPid x.1 → IsPid x.2 → s.queues x = none →
      (∀ p m, BasicKernel.allocate s.kernel.memory PIPE_NODE_SIZE = .ok (some p, m) →
        (s.kernel.pipe p).next = NULL) →
      createPipe fuel s.kernel x.1 x.2 = .ok (pipe, k₁) →
      do_pipe fuel s.kernel x.1 x.2 = .ok (name, k') →
      Step s ⟨k', insert ((k'.pipe pipe).buffer, PIPE_BUF_SIZE) (insert (name, NAME_SIZE)
        (insert (pipe, PIPE_NODE_SIZE) s.live)), s.queues.create x⟩
  | writeToPipe {s : Pipefs} {fuel : Nat} {k' : Kernel} {x : Int × Int} {name buff : Addr}
      {message : List UInt8} : s.kernel.IsName name x → buff ≠ NULL →
      s.kernel.IsString buff message → (∀ i, i ≤ message.length → s.kernel.OffPipes (buff + i)) →
      writeToPipe fuel s.kernel name buff = .ok k' →
      Step s ⟨k', s.live, s.queues.write x message⟩
  | readFromPipe {s : Pipefs} {fuel : Nat} {k' : Kernel} {x : Int × Int} {name buff : Addr} :
      s.kernel.IsName name x → buff ≠ NULL →
      (∀ i, i < PIPE_BUF_SIZE → s.kernel.OffPipes (buff + i)) →
      readFromPipe fuel s.kernel name buff = .ok k' →
      Step s ⟨k', s.live, s.queues.read x⟩
  | allocate {s : Pipefs} {k' : Kernel} {size : Nat} {p : Addr} : 1 ≤ size → size < 2 ^ 31 →
      s.kernel.allocate size = .ok (p, k') → p ≠ NULL →
      Step s ⟨k', insert (p, size) s.live, s.queues⟩
  | deallocate {s : Pipefs} {m : MemoryManager} {r : Int} {x : Nat × Nat} : x ∈ s.live →
      ¬ s.kernel.IsPipePage x → deallocate s.kernel.memory x.1 x.2 = .ok (r, m) →
      Step s ⟨{ s.kernel with memory := m }, s.live \ {x}, s.queues⟩
  | store {s : Pipefs} {k' : Kernel} : s.kernel.SparesPipes k' → Step s ⟨k', s.live, s.queues⟩

end Pipefs

/-! ## The nodes -/

section Nodes

variable {k k' : Kernel} {pipe n : Addr} {fuel r w : Nat} {xs : List UInt8} {live live' : Set (Nat × Nat)}
  {x : Int × Int} {queue : Option (List UInt8)}

/-- The field `next` does not matter for what a pipe holds. -/
theorem Kernel.PipeHolds.congr_next (h : k.PipeHolds pipe r w xs)
    (hpipe : ∃ v, k'.pipe pipe = { k.pipe pipe with next := v })
    (hcells : ∀ i, i < PIPE_BUF_SIZE →
      k'.char ((k.pipe pipe).buffer + i) = k.char ((k.pipe pipe).buffer + i)) :
    k'.PipeHolds pipe r w xs := by
  obtain ⟨v, hv⟩ := hpipe
  refine ⟨h.pipe_ne, ?_, ?_, ?_, h.ring.congr fun i hi => ?_⟩
  · rw [hv]
    exact h.buffer_ne
  · rw [hv]
    exact h.read
  · rw [hv]
    exact h.write
  · rw [Kernel.pipeCells, Kernel.pipeCells, hv]
    exact hcells i hi

/-- A node of the list is the pipe of its pair, in pages of its own, and holds the queue. -/
structure Kernel.ServesPipe (k : Kernel) (live : Set (Nat × Nat)) (queue : Option (List UInt8)) (n : Nat)
    (x : Int × Int) : Prop where
  named : k.Named live n x
  bufferPage : ((k.pipe n).buffer, PIPE_BUF_SIZE) ∈ live
  holds : ∃ r w xs, queue = some xs ∧ k.PipeHolds n r w xs

theorem Kernel.ServesPipe.congr (h : k.ServesPipe live queue n x)
    (hnode : ∃ v, k'.pipe n = { k.pipe n with next := v }) (hlive : ∀ y, y.1 = n ∨ y.1 = (k.pipe n).name ∨
      y.1 = (k.pipe n).buffer → y ∈ live → y ∈ live')
    (hname : ∀ i, i < NAME_SIZE → k'.char ((k.pipe n).name + i) = k.char ((k.pipe n).name + i))
    (hcells : ∀ i, i < PIPE_BUF_SIZE → k'.char ((k.pipe n).buffer + i) = k.char ((k.pipe n).buffer + i)) :
    k'.ServesPipe live' queue n x := by
  obtain ⟨r, w, xs, hqueue, hholds⟩ := h.holds
  have hholds' := hholds.congr_next hnode hcells
  obtain ⟨v, hv⟩ := hnode
  have hnamed : k'.Named live n x := h.named.congr (by rw [hv]) subset_rfl hname
  refine ⟨⟨hlive _ (.inl rfl) hnamed.page, hlive _ ?_ hnamed.namePage, hnamed.name_ne, hnamed.isString,
    hnamed.pids⟩, hlive _ ?_ ?_, r, w, xs, hqueue, hholds'⟩
  · rw [hv]
    exact .inr (.inl rfl)
  · rw [hv]
    exact .inr (.inr rfl)
  · rw [hv]
    exact h.bufferPage

/-- To link a pipe changes no field but `next`. -/
theorem addPipeToList_frame {list r : Nat} {xs : List Nat} (hlist : pipeLink.IsList k list xs)
    (h : addPipeToList fuel k list pipe = .ok (r, k')) : k'.memory = k.memory ∧ k'.char = k.char ∧
      ∀ q, ∃ v, k'.pipe q = { k.pipe q with next := v } := by
  rw [addPipeToList, addLast_spec hlist fun _ _ htail _ _ => by
    obtain ⟨-, rfl⟩ := Prod.mk.inj (Except.ok.inj htail)
    rfl] at h
  split at h
  case isFalse => cases h
  case isTrue =>
      obtain ⟨-, rfl⟩ := Prod.mk.inj (Except.ok.inj h)
      cases xs.getLast? with
      | none => exact ⟨rfl, rfl, fun q => ⟨_, rfl⟩⟩
      | some last =>
          refine ⟨rfl, rfl, fun q => ?_⟩
          by_cases hq : q = last
          · subst hq
            exact ⟨_, Function.update_self ..⟩
          · exact ⟨_, Function.update_of_ne hq ..⟩

/-- A pipe is found by the name of its pair, when no pair is there twice. -/
theorem PipeRegistry.Kept.getPipe_of_mem {s : PipeRegistry} {entries : List (Nat × Int × Int)}
    {e : Nat × Int × Int} {name : Addr} (h : s.Kept live entries) (hnodup : (entries.map Prod.snd).Nodup)
    (he : e ∈ entries) (hname : s.kernel.IsName name e.2) : Returns (getPipe · s.kernel name) e.1 := by
  classical
  have hget := h.getPipe_returns hname.ne hname.isString
  have honly : ∀ e' ∈ entries, s.kernel.IsString (s.kernel.pipe e'.1).name
      (pipeName e.2.1.toNat e.2.2.toNat) → e' = e := by
    intro e' he' hstr
    have hold := h.named e' he'
    obtain ⟨hfrom, hto⟩ := pipeName_inj (hold.isString_iff.mp hstr)
    -- pids are not negative, so the pairs are equal
    have := hold.pids.1.1
    have := hold.pids.2.1
    have := hname.pids.1.1
    have := hname.pids.2.1
    exact List.inj_on_of_nodup_map hnodup he' he (Prod.ext (by omega) (by omega))
  cases hfind : (entries.map Prod.fst).find? fun n => s.kernel.IsString (s.kernel.pipe n).name
      (pipeName e.2.1.toNat e.2.2.toNat) with
  | none =>
      have hnone := List.find?_eq_none.mp hfind e.1 (List.mem_map_of_mem he)
      exact absurd (decide_eq_true (h.named e he).isString) hnone
  | some n =>
      have hstr := List.find?_some hfind
      rw [hfind, Option.getD_some] at hget
      obtain ⟨e', he', rfl⟩ := List.mem_map.mp (List.mem_of_find?_eq_some hfind)
      obtain rfl := honly e' he' (of_decide_eq_true hstr)
      exact hget

end Nodes

/-! ## The invariant

Each queue has one node, and the pages of all nodes are apart. So a store through one pipe cannot
reach another. -/

/-- The list has one pipe for each queue. -/
structure Pipefs.Kept (s : Pipefs) (entries : List (Nat × Int × Int)) : Prop where
  contract : Contract s.kernel.memory s.live
  list : pipeLink.IsList s.kernel s.kernel.pipeList (entries.map Prod.fst)
  serves : ∀ e ∈ entries, s.kernel.ServesPipe s.live (s.queues e.2) e.1 e.2
  nodup : (entries.map Prod.snd).Nodup
  apart : ∀ e ∈ entries, ∀ e' ∈ entries,
    (s.kernel.pipe e.1).buffer = (s.kernel.pipe e'.1).buffer → e = e'
  only : ∀ x, s.queues x ≠ none → x ∈ entries.map Prod.snd

theorem area_ne {a b m n i j : Nat} (h : a + m ≤ b ∨ b + n ≤ a) (hi : i < m) (hj : j < n) :
    a + i ≠ b + j := by
  omega

namespace Pipefs.Kept

variable {s : Pipefs} {entries : List (Nat × Int × Int)} {e e' : Nat × Int × Int} {k' : Kernel} {fuel : Nat}
  {x : Int × Int} {name buff : Addr} {xs message : List UInt8}

theorem registry (h : s.Kept entries) :
    PipeRegistry.Kept ⟨s.kernel, entries.map Prod.snd⟩ s.live entries :=
  ⟨h.contract, h.list, rfl, fun e he => (h.serves e he).named⟩

/-- A name lies in no buffer. -/
theorem name_ne_buffer (h : s.Kept entries) (he : e ∈ entries) (he' : e' ∈ entries) {i j : Nat}
    (hi : i < NAME_SIZE) (hj : j < PIPE_BUF_SIZE) :
    (s.kernel.pipe e.1).name + i ≠ (s.kernel.pipe e'.1).buffer + j := by
  have hne : ((s.kernel.pipe e.1).name, NAME_SIZE) ≠ ((s.kernel.pipe e'.1).buffer, PIPE_BUF_SIZE) :=
    fun heq => absurd (congrArg Prod.snd heq) (show NAME_SIZE ≠ PIPE_BUF_SIZE by decide)
  exact area_ne (h.contract.apart (h.serves e he).named.namePage (h.serves e' he').bufferPage hne) hi hj

/-- Two buffers lie apart. -/
theorem buffer_ne_buffer (h : s.Kept entries) (he : e ∈ entries) (he' : e' ∈ entries) (hne : e ≠ e')
    {i j : Nat} (hi : i < PIPE_BUF_SIZE) (hj : j < PIPE_BUF_SIZE) :
    (s.kernel.pipe e.1).buffer + i ≠ (s.kernel.pipe e'.1).buffer + j := by
  have hbuffers : ((s.kernel.pipe e.1).buffer, PIPE_BUF_SIZE)
      ≠ ((s.kernel.pipe e'.1).buffer, PIPE_BUF_SIZE) :=
    fun heq => hne (h.apart e he e' he' (congrArg Prod.fst heq))
  exact area_ne (h.contract.apart (h.serves e he).bufferPage (h.serves e' he').bufferPage hbuffers) hi hj

theorem eq_of_snd (h : s.Kept entries) (he : e ∈ entries) (he' : e' ∈ entries) (heq : e.2 = e'.2) : e = e' :=
  List.inj_on_of_nodup_map h.nodup he he' heq

theorem eq_of_fst (h : s.Kept entries) (he : e ∈ entries) (he' : e' ∈ entries) (heq : e.1 = e'.1) : e = e' :=
  h.apart e he e' he' (by rw [heq])

theorem off_name (h : s.Kept entries) (he : e ∈ entries) {i : Nat} (hi : i < NAME_SIZE) :
    ¬ s.kernel.OffPipes ((s.kernel.pipe e.1).name + i) := fun hoff =>
  (hoff _ h.list e.1 (List.mem_map_of_mem he)).1 ⟨Nat.le_add_right _ _, Nat.add_lt_add_left hi _⟩

theorem off_buffer (h : s.Kept entries) (he : e ∈ entries) {i : Nat} (hi : i < PIPE_BUF_SIZE) :
    ¬ s.kernel.OffPipes ((s.kernel.pipe e.1).buffer + i) := fun hoff =>
  (hoff _ h.list e.1 (List.mem_map_of_mem he)).2 ⟨Nat.le_add_right _ _, Nat.add_lt_add_left hi _⟩

/-- An area outside the pages of the pipes is outside a buffer. -/
theorem apart_of_off (h : s.Kept entries) (he : e ∈ entries) {n : Nat}
    (hoff : ∀ i, i < n → s.kernel.OffPipes (buff + i)) : s.kernel.Apart e.1 buff n := by
  intro i hi j hj heq
  exact h.off_buffer he hj (heq ▸ hoff i hi)

/-! ### Lookup -/

theorem getPipe_of_mem (h : s.Kept entries) (he : e ∈ entries) (hname : s.kernel.IsName name e.2) :
    Returns (getPipe · s.kernel name) e.1 :=
  h.registry.getPipe_of_mem h.nodup he hname

/-- No pipe is found for a pair without a queue. -/
theorem getPipe_of_none (h : s.Kept entries) (hx : s.queues x = none) (hname : s.kernel.IsName name x) :
    Returns (getPipe · s.kernel name) NULL := by
  obtain ⟨r, hr, hnull⟩ := h.registry.lookup hname.ne hname.isString
  have hmissing : ∀ y ∈ entries.map Prod.snd, pipeName y.1.toNat y.2.toNat
      ≠ pipeName x.1.toNat x.2.toNat := by
    rw [List.forall_mem_map]
    intro e he heq
    have hold := (h.serves e he).named
    obtain ⟨hfrom, hto⟩ := pipeName_inj heq
    have := hold.pids.1.1
    have := hold.pids.2.1
    have := hname.pids.1.1
    have := hname.pids.2.1
    have hpair : e.2 = x := Prod.ext (by omega) (by omega)
    obtain ⟨r, w, xs, hqueue, -⟩ := (h.serves e he).holds
    rw [hpair, hx] at hqueue
    cases hqueue
  obtain rfl := hnull.mpr hmissing
  exact hr

/-- Each pair has a pipe or no queue. -/
theorem cases (h : s.Kept entries) (x : Int × Int) : (∃ e ∈ entries, e.2 = x) ∨ s.queues x = none := by
  by_cases hx : s.queues x = none
  · exact .inr hx
  · exact .inl (List.mem_map.mp (h.only x hx))

/-! ### Calls -/

/-- A call on one pipe. -/
theorem of_table (h : s.Kept entries) (he : e ∈ entries) (htable : s.kernel.SameTable k' e.1)
    (hchar : ∀ a, (∀ j, j < PIPE_BUF_SIZE → a ≠ (s.kernel.pipe e.1).buffer + j) →
      ¬ s.kernel.OffPipes a → k'.char a = s.kernel.char a)
    (hholds : ∃ r w, k'.PipeHolds e.1 r w xs) :
    Pipefs.Kept ⟨k', s.live, Function.update s.queues e.2 (some xs)⟩ entries where
  -- The allocations are those before the call.
  contract := by
    rw [htable.memory]
    exact h.contract
  list := by
    have hlist := h.list
    rw [← htable.list] at hlist
    refine hlist.congr fun n _ => ?_
    by_cases hn : n = e.1
    · rw [hn]
      exact htable.next
    · exact congrArg PipeNode.next (htable.other n hn)
  serves e' he' := by
    -- The call stays inside the buffer of its own pipe, and no name is there.
    have hserves := h.serves e' he'
    have hname : ∀ i, i < NAME_SIZE → k'.char ((s.kernel.pipe e'.1).name + i)
        = s.kernel.char ((s.kernel.pipe e'.1).name + i) := fun i hi =>
      hchar _ (fun j hj => h.name_ne_buffer he' he hi hj) (h.off_name he' hi)
    -- Its own pipe has the new contents, any other is as it was.
    by_cases heq : e' = e
    · subst heq
      obtain ⟨r, w, hholds⟩ := hholds
      refine ⟨hserves.named.congr htable.name subset_rfl hname, ?_, r, w, xs, Function.update_self .., hholds⟩
      show ((k'.pipe e'.1).buffer, PIPE_BUF_SIZE) ∈ s.live
      rw [htable.buffer]
      exact hserves.bufferPage
    · show k'.ServesPipe s.live (Function.update s.queues e.2 (some xs) e'.2) e'.1 e'.2
      rw [Function.update_of_ne fun hsnd => heq (h.eq_of_snd he' he hsnd)]
      refine hserves.congr ⟨_, htable.other _ fun hfst => heq (h.eq_of_fst he' he hfst)⟩
        (fun _ _ hy => hy) hname fun i hi => ?_
      exact hchar _ (fun j hj => h.buffer_ne_buffer he' he heq hi hj) (h.off_buffer he' hi)
  nodup := h.nodup
  apart e₁ h₁ e₂ h₂ heq := by
    have hbuffer : ∀ n, (k'.pipe n).buffer = (s.kernel.pipe n).buffer := by
      intro n
      by_cases hn : n = e.1
      · rw [hn, htable.buffer]
      · rw [htable.other n hn]
    refine h.apart e₁ h₁ e₂ h₂ ?_
    rw [← hbuffer, ← hbuffer]
    exact heq
  -- No queue was created by the call, so the pairs are the same.
  only x hx := by
    by_cases hxe : x = e.2
    · rw [hxe]
      exact List.mem_map_of_mem he
    · refine h.only x ?_
      rwa [← Function.update_of_ne (f := s.queues) hxe (some xs)]

/-- Without a pipe, a queue is not changed. -/
theorem of_none (hx : s.queues x = none) (f : List UInt8 → List UInt8) :
    Function.update s.queues x ((s.queues x).map f) = s.queues := by
  rw [hx, Option.map_none, ← hx, Function.update_eq_self]

theorem writeToPipe (h : s.Kept entries) (hname : s.kernel.IsName name x) (hbuff : buff ≠ NULL)
    (hstr : s.kernel.IsString buff message)
    (hoff : ∀ i, i ≤ message.length → s.kernel.OffPipes (buff + i))
    (hrun : BasicKernel.writeToPipe fuel s.kernel name buff = .ok k') :
    Pipefs.Kept ⟨k', s.live, s.queues.write x message⟩ entries := by
  rcases h.cases x with ⟨e, he, rfl⟩ | hx
  · obtain ⟨r, w, xs, hqueue, hholds⟩ := (h.serves e he).holds
    have hapart := h.apart_of_off he fun i hi => hoff i (Nat.le_of_lt_succ hi)
    obtain ⟨⟨w', hholds'⟩, htable, hframe⟩ :=
      hholds.writeToPipe_frame (h.getPipe_of_mem he hname) hbuff hstr hapart hrun
    rw [Queues.write, hqueue]
    exact h.of_table he htable (fun a ha _ => hframe a ha) ⟨r, w', hholds'⟩
  · obtain ⟨found, hfound, hsend⟩ := bind_eq_ok.mp hrun
    obtain rfl := (h.getPipe_of_none hx hname).eq hfound
    rw [if_pos (.inl rfl)] at hsend
    obtain rfl := Except.ok.inj hsend
    rw [Queues.write, of_none hx]
    exact h

theorem readFromPipe (h : s.Kept entries) (hname : s.kernel.IsName name x) (hbuff : buff ≠ NULL)
    (hoff : ∀ i, i < PIPE_BUF_SIZE → s.kernel.OffPipes (buff + i))
    (hrun : BasicKernel.readFromPipe fuel s.kernel name buff = .ok k') :
    Pipefs.Kept ⟨k', s.live, s.queues.read x⟩ entries := by
  -- The name is that of a pipe, full or empty, or of none.
  rcases h.cases x with ⟨e, he, rfl⟩ | hx
  · obtain ⟨r, w, xs, hqueue, hholds⟩ := (h.serves e he).holds
    have hget := h.getPipe_of_mem he hname
    rw [Queues.read, hqueue]
    cases xs with
    | nil =>
        -- A read from an empty pipe blocks a thread and delivers nothing.
        have hstates := hholds.readFromPipe_statesOnly hget hrun
        refine h.of_table he (.statesOnly hstates) (fun a _ _ => ?_) ⟨r, w, ?_⟩
        all_goals obtain ⟨process, thread, ticks, rfl⟩ := hstates
        · rfl
        · exact hholds.congr rfl fun _ _ => rfl
    | cons c cs =>
        have hfits : ∀ i, i < (c :: cs).length → s.kernel.OffPipes (buff + i) := fun i hi =>
          hoff i (Nat.lt_of_lt_of_le hi hholds.ring.length_le)
        obtain ⟨⟨r', hholds'⟩, -, htable, hframe⟩ :=
          hholds.readFromPipe_frame hget hbuff (h.apart_of_off he hfits) hrun
        refine h.of_table he htable (fun a ha hpage => hframe a ha ?_) ⟨r', w, hholds'⟩
        rintro i hi rfl
        exact hpage (hfits i hi)
  -- Without a pipe of the name the lookup gives `NULL` and the call returns.
  · obtain ⟨found, hfound, hread⟩ := bind_eq_ok.mp hrun
    obtain rfl := (h.getPipe_of_none hx hname).eq hfound
    rw [if_pos (.inl rfl)] at hread
    obtain rfl := Except.ok.inj hread
    rw [Queues.read, of_none hx]
    exact h

/-! ### Pages

Other code allocates and frees pages and stores in its own, and no page of a pipe is among
them. -/

/-- A change of the allocator that keeps the pages of the pipes, with stores outside them. -/
theorem of_live {live : Set (Nat × Nat)} (h : s.Kept entries) (hc : Contract k'.memory live)
    (hlive : ∀ y, s.kernel.IsPipePage y → y ∈ s.live → y ∈ live)
    (hlist : k'.pipeList = s.kernel.pipeList) (hpipe : ∀ e ∈ entries, k'.pipe e.1 = s.kernel.pipe e.1)
    (hchar : ∀ a, ¬ s.kernel.OffPipes a → k'.char a = s.kernel.char a) :
    Pipefs.Kept ⟨k', live, s.queues⟩ entries where
  contract := hc
  list := by
    have hnodes := h.list
    rw [← hlist] at hnodes
    refine hnodes.congr fun n hn => ?_
    obtain ⟨e, he, rfl⟩ := List.mem_map.mp hn
    exact congrArg PipeNode.next (hpipe e he)
  serves e he := by
    refine (h.serves e he).congr ⟨_, hpipe e he⟩ (fun y hy => hlive y ?_)
      (fun i hi => hchar _ (h.off_name he hi)) fun i hi => hchar _ (h.off_buffer he hi)
    exact ⟨_, h.list, e.1, List.mem_map_of_mem he, hy⟩
  nodup := h.nodup
  apart e he e' he' heq := by
    refine h.apart e he e' he' ?_
    rw [← hpipe e he, ← hpipe e' he']
    exact heq
  only := h.only

theorem allocate {size : Nat} {p : Addr} (h : s.Kept entries) (hpos : 1 ≤ size) (hint : size < 2 ^ 31)
    (hrun : s.kernel.allocate size = .ok (p, k')) (hp : p ≠ NULL) :
    Pipefs.Kept ⟨k', insert (p, size) s.live, s.queues⟩ entries := by
  obtain ⟨m, -, rfl, -, hc⟩ := Kernel.allocate_new h.contract ⟨hpos, hint⟩ hrun hp
  exact h.of_live hc (fun _ _ hy => Set.mem_insert_of_mem _ hy) rfl (fun _ _ => rfl) fun _ _ => rfl

theorem deallocate {m : MemoryManager} {r : Int} {y : Nat × Nat} (h : s.Kept entries) (hy : y ∈ s.live)
    (hpage : ¬ s.kernel.IsPipePage y)
    (hrun : BasicKernel.deallocate s.kernel.memory y.1 y.2 = .ok (r, m)) :
    Pipefs.Kept ⟨{ s.kernel with memory := m }, s.live \ {y}, s.queues⟩ entries := by
  obtain ⟨m', hfree, -, -, hc⟩ := h.contract.deallocate hy
  obtain ⟨-, rfl⟩ := Prod.mk.inj (Except.ok.inj (hfree.symm.trans hrun))
  refine h.of_live hc (fun z hz hlive => ⟨hlive, ?_⟩) rfl (fun _ _ => rfl) fun _ _ => rfl
  rintro rfl
  exact hpage hz

theorem store (h : s.Kept entries) (hspared : s.kernel.SparesPipes k') :
    Pipefs.Kept ⟨k', s.live, s.queues⟩ entries :=
  h.of_live (by rw [hspared.memory]; exact h.contract) (fun _ _ hy => hy) hspared.pipeList
    (fun e he => hspared.pipe _ h.list e.1 (List.mem_map_of_mem he)) hspared.char

/-! ### A new pipe -/

theorem do_pipe {k₁ : Kernel} {pipe : Addr} (h : s.Kept entries) (hfrom : IsPid x.1) (hto : IsPid x.2)
    (hx : s.queues x = none)
    (hclean : ∀ p m, BasicKernel.allocate s.kernel.memory PIPE_NODE_SIZE = .ok (some p, m) →
      (s.kernel.pipe p).next = NULL)
    (hcreate : createPipe fuel s.kernel x.1 x.2 = .ok (pipe, k₁))
    (hrun : BasicKernel.do_pipe fuel s.kernel x.1 x.2 = .ok (name, k')) :
    Pipefs.Kept ⟨k', insert ((k'.pipe pipe).buffer, PIPE_BUF_SIZE) (insert (name, NAME_SIZE)
      (insert (pipe, PIPE_NODE_SIZE) s.live)), s.queues.create x⟩ (entries ++ [(pipe, x)]) := by
  -- The registry says what happened to the list; the rest is about the contents and the pages.
  obtain ⟨pipe', k₁', live', hcreate', rfl, hholds, hkept⟩ := h.registry.do_pipe hfrom hto hclean hrun
  obtain ⟨rfl, rfl⟩ := Prod.mk.inj (Except.ok.inj (hcreate.symm.trans hcreate'))
  obtain ⟨pname, buffer, hnew⟩ := createPipe_new h.contract hfrom hto hcreate
  obtain ⟨created, hcreated, hrun⟩ := bind_eq_ok.mp hrun
  obtain rfl := Except.ok.inj (hcreate.symm.trans hcreated)
  obtain ⟨⟨list, k₂⟩, hadd, hrun⟩ := bind_eq_ok.mp hrun
  obtain ⟨node, -, hrun⟩ := bind_eq_ok.mp hrun
  obtain ⟨-, rfl⟩ := Prod.mk.inj (Except.ok.inj hrun)
  -- The pair had no queue, so it is none of those in the list.
  have hqueue : ∀ e ∈ entries, s.queues e.2 ≠ none := by
    intro e he hnone
    obtain ⟨r, w, xs, hqueue, -⟩ := (h.serves e he).holds
    rw [hnone] at hqueue
    cases hqueue
  have hold : ∀ e ∈ entries, k₁.pipe e.1 = s.kernel.pipe e.1 := by
    intro e he
    have hne : e.1 ≠ pipe := hnew.pipe_new _ (h.serves e he).named.page
    rw [hnew.node, Function.update_of_ne hne]
  have hlist : pipeLink.IsList k₁ k₁.pipeList (entries.map Prod.fst) := by
    rw [hnew.pipeList]
    refine h.list.congr fun n hn => ?_
    obtain ⟨e, he, rfl⟩ := List.mem_map.mp hn
    exact congrArg PipeNode.next (hold e he)
  obtain ⟨hmemory, hchar, hlink⟩ := addPipeToList_frame hlist hadd
  -- Of an older node only the link may be new.
  have hpipe : ∀ e ∈ entries, ∃ v, k₂.pipe e.1 = { s.kernel.pipe e.1 with next := v } := by
    intro e he
    rw [← hold e he]
    exact hlink e.1
  obtain ⟨hname, hbuffer⟩ : (k₂.pipe pipe).name = pname ∧ (k₂.pipe pipe).buffer = buffer := by
    obtain ⟨v, hv⟩ := hlink pipe
    rw [hv, hnew.node, Function.update_self]
    exact ⟨rfl, rfl⟩
  have hcontract := hnew.contract
  rw [← hname, ← hbuffer, ← hmemory] at hcontract
  -- the pages of the older pipes are not the new ones
  have hkeep : ∀ y ∈ s.live, ∀ i, i < y.2 → k₂.char (y.1 + i) = s.kernel.char (y.1 + i) := by
    intro y hy i hi
    have hsub : y ∈ insert (buffer, PIPE_BUF_SIZE) (insert (pname, NAME_SIZE)
        (insert (pipe, PIPE_NODE_SIZE) s.live)) :=
      Set.mem_insert_of_mem _ (Set.mem_insert_of_mem _ (Set.mem_insert_of_mem _ hy))
    have hapart := hnew.contract.apart hsub (Set.mem_insert_of_mem _ (Set.mem_insert _ _)) fun heq =>
      hnew.name_new _ hy (congrArg Prod.fst heq)
    have hapart' := hnew.contract.apart hsub (Set.mem_insert _ _) fun heq =>
      hnew.buffer_new _ hy (congrArg Prod.fst heq)
    dsimp only at hapart hapart'
    rw [hchar]
    exact hnew.kept _ (by omega) (by omega)
  -- The parts of the invariant that a new pipe may break: what is served, the pairs, the buffers
  -- and who has a queue.
  refine ⟨hcontract, hkept.list, fun e he => ?_, ?_, fun e he e' he' heq => ?_, fun y hy => ?_⟩
  · rcases List.mem_append.mp he with he | he
    -- An older pipe serves its queue as before.
    · have hserves := h.serves e he
      have hne : e.2 ≠ x := fun heq => hqueue e he (heq ▸ hx)
      show Kernel.ServesPipe _ _ (Function.update s.queues x (some []) e.2) e.1 e.2
      rw [Function.update_of_ne hne]
      refine hserves.congr (hpipe e he) (fun y _ hy => ?_) (hkeep _ hserves.named.namePage)
        (hkeep _ hserves.bufferPage)
      exact Set.mem_insert_of_mem _ (Set.mem_insert_of_mem _ (Set.mem_insert_of_mem _ hy))
    · obtain rfl := List.mem_singleton.mp he
      -- The new pipe is empty and has the three new pages.
      have hnamed := hkept.named _ (List.mem_append_right _ (List.mem_singleton_self _))
      refine ⟨⟨?_, ?_, hnamed.name_ne, hnamed.isString, hnamed.pids⟩, Set.mem_insert _ _, 0, 0, [],
        Function.update_self .., hholds⟩
      · exact Set.mem_insert_of_mem _ (Set.mem_insert_of_mem _ (Set.mem_insert _ _))
      · exact Set.mem_insert_of_mem _ (Set.mem_insert _ _)
  · rw [List.map_append, List.map_singleton]
    refine List.nodup_append.mpr ⟨h.nodup, List.nodup_singleton _, fun y hy z hz heq => ?_⟩
    obtain ⟨e, he, rfl⟩ := List.mem_map.mp hy
    obtain rfl := List.mem_singleton.mp hz
    exact hqueue e he (heq ▸ hx)
  · have hbuffers : ∀ e ∈ entries, (k₂.pipe e.1).buffer = (s.kernel.pipe e.1).buffer := by
      intro e he
      obtain ⟨v, hv⟩ := hpipe e he
      rw [hv]
    -- No older buffer is the new page.
    have hother : ∀ e ∈ entries, (k₂.pipe e.1).buffer ≠ (k₂.pipe pipe).buffer := by
      intro e he
      rw [hbuffers e he, hbuffer]
      exact hnew.buffer_new _ (h.serves e he).bufferPage
    rcases List.mem_append.mp he with he | he <;> rcases List.mem_append.mp he' with he' | he'
    · refine h.apart e he e' he' ?_
      rw [← hbuffers e he, ← hbuffers e' he']
      exact heq
    · obtain rfl := List.mem_singleton.mp he'
      exact absurd heq (hother e he)
    · obtain rfl := List.mem_singleton.mp he
      exact absurd heq.symm (hother e' he')
    · exact (List.mem_singleton.mp he).trans (List.mem_singleton.mp he').symm
  · rw [List.map_append]
    by_cases hyx : y = x
    · rw [hyx]
      exact List.mem_append_right _ (List.mem_singleton_self _)
    · refine List.mem_append_left _ (h.only y ?_)
      rwa [← Function.update_of_ne (f := s.queues) hyx (some [])]

end Pipefs.Kept

namespace Pipefs

variable {s s' : Pipefs} {x : Int × Int} {name : Addr}

theorem AtStart.kept (h : s.AtStart) : s.Kept [] where
  contract := h.contract
  list := Chain.nil_iff.mpr h.pipeList
  serves _ he := absurd he List.not_mem_nil
  nodup := List.nodup_nil
  apart _ he := absurd he List.not_mem_nil
  only x hx := absurd (by rw [h.queues]) hx

theorem Kept.step {entries : List (Nat × Int × Int)} (h : s.Kept entries) (hstep : Step s s') :
    ∃ entries', s'.Kept entries' := by
  cases hstep with
  | do_pipe hfrom hto hx hclean hcreate hrun => exact ⟨_, h.do_pipe hfrom hto hx hclean hcreate hrun⟩
  | writeToPipe hname hbuff hstr hoff hrun => exact ⟨_, h.writeToPipe hname hbuff hstr hoff hrun⟩
  | readFromPipe hname hbuff hoff hrun => exact ⟨_, h.readFromPipe hname hbuff hoff hrun⟩
  | allocate hpos hint hrun hp => exact ⟨_, h.allocate hpos hint hrun hp⟩
  | deallocate hy hpage hrun => exact ⟨_, h.deallocate hy hpage hrun⟩
  | store hspared => exact ⟨_, h.store hspared⟩

theorem exists_kept (h : Reachable AtStart Step s) : ∃ entries, s.Kept entries :=
  h.invariant (I := fun s => ∃ entries, s.Kept entries) (fun _ hs => ⟨[], hs.kept⟩)
    fun _ _ _ ⟨_, hk⟩ hstep => hk.step hstep

end Pipefs

/-- What a queue means for the kernel: the name finds a pipe that stores its bytes, and a read of bytes comes
to an end and delivers all of them. -/
structure Kernel.Offers (k : Kernel) (name : Addr) (xs : List UInt8) : Prop where
  pipe : ∃ pipe, pipe ≠ NULL ∧ Returns (getPipe · k name) pipe ∧ k.stored pipe = xs
  read : xs ≠ [] → ∀ buff, buff ≠ NULL → (∀ i, i < PIPE_BUF_SIZE → k.OffPipes (buff + i)) →
    ∃ k', Returns (readFromPipe · k name buff) k' ∧ k'.bytes buff xs.length = xs

theorem Pipefs.Kept.offers {s : Pipefs} {entries : List (Nat × Int × Int)} {x : Int × Int} {name : Addr}
    {xs : List UInt8} (h : s.Kept entries) (hname : s.kernel.IsName name x)
    (hqueue : s.queues x = some xs) : s.kernel.Offers name xs := by
  obtain ⟨e, he, rfl⟩ := (h.cases x).resolve_right fun hnone => by
    rw [hqueue] at hnone
    cases hnone
  obtain ⟨r, w, ys, hqueue', hholds⟩ := (h.serves e he).holds
  obtain rfl := Option.some.inj (hqueue.symm.trans hqueue')
  have hget := h.getPipe_of_mem he hname
  refine ⟨⟨e.1, hholds.pipe_ne, hget, hholds.stored_eq⟩, fun hne buff hbuff hoff => ?_⟩
  obtain ⟨c, cs, rfl⟩ := List.exists_cons_of_ne_nil hne
  have hapart := h.apart_of_off he fun i hi => hoff i (Nat.lt_of_lt_of_le hi hholds.ring.length_le)
  obtain ⟨k', r', hret, -, hbytes, -⟩ := hholds.readFromPipe_returns hget hbuff hapart
  exact ⟨k', hret, hbytes⟩

/-- In every run, the name of a pair finds a pipe exactly when the pair has a queue, and the pipe offers what
the queue holds: what was written for this pair and not read, whatever happened on other pipes. -/
theorem pipefs_refines_queues {s : Pipefs} {x : Int × Int} {name : Addr}
    (h : Reachable Pipefs.AtStart Pipefs.Step s) (hname : s.kernel.IsName name x) :
    (s.queues x = none → Returns (getPipe · s.kernel name) NULL) ∧
      ∀ xs, s.queues x = some xs → s.kernel.Offers name xs := by
  obtain ⟨entries, hkept⟩ := Pipefs.exists_kept h
  exact ⟨fun hx => hkept.getPipe_of_none hx hname, fun xs hx => hkept.offers hname hx⟩

/-! ## A run -/

theorem Kernel.offPipes_of_list {k : Kernel} {nodes : List Nat} {a : Nat}
    (hlist : pipeLink.IsList k k.pipeList nodes)
    (h : ∀ n ∈ nodes, ¬ ((k.pipe n).name ≤ a ∧ a < (k.pipe n).name + NAME_SIZE) ∧
      ¬ ((k.pipe n).buffer ≤ a ∧ a < (k.pipe n).buffer + PIPE_BUF_SIZE)) : k.OffPipes a := by
  intro nodes' hlist'
  rwa [hlist'.unique hlist]

/-- The page of the next pipe holds no pointer in the place of `next`. -/
def Kernel.cleanPage (k : Kernel) : Bool :=
  match BasicKernel.allocate k.memory PIPE_NODE_SIZE with
  | .ok (some p, _) => (k.pipe p).next = NULL
  | _ => true

theorem Kernel.next_of_cleanPage {k : Kernel} (h : k.cleanPage = true) (p : Addr) (m : MemoryManager)
    (hserved : BasicKernel.allocate k.memory PIPE_NODE_SIZE = .ok (some p, m)) :
    (k.pipe p).next = NULL := by
  rw [Kernel.cleanPage, hserved] at h
  exact of_decide_eq_true h

/-- The string `a` at an address that nobody uses. -/
def Kernel.withMessage (k : Kernel) : Kernel := { k with char := Function.update k.char 0x7000000 97 }

theorem Kernel.withMessage_isString {k : Kernel} (h : k.withMessage.char (0x7000000 + 1) = 0) :
    k.withMessage.IsString 0x7000000 [97] :=
  ⟨Function.update_self (0x7000000 : Nat) 97 k.char, by decide, h⟩

/-- Process `0` sends `a` to process `1`, over a pipe of these two. -/
def firstMessage : Except Stop (Kernel × Addr × Kernel × Addr × Kernel × Kernel) := do
  let k ← startKernel
  let (pipe, k₁) ← createPipe 40 k 0 1
  let (name, k₂) ← do_pipe 40 k 0 1
  let k₃ ← writeToPipe 40 k₂.withMessage name 0x7000000
  return (k, pipe, k₁, name, k₂, k₃)

def firstMessageChecks (k : Kernel) (pipe name : Addr) (k₂ k₃ : Kernel) : Bool :=
  k.cleanPage && decide ((k.pipeList = NULL ∧ k₂.pipeList = pipe ∧ pipe ≠ NULL) ∧
    ((k₂.pipe pipe).next = NULL ∧ (k₂.pipe pipe).name = name ∧ name ≠ NULL) ∧
    (name + NAME_SIZE ≤ 0x7000000 ∧ (k₂.pipe pipe).buffer + PIPE_BUF_SIZE ≤ 0x7000000) ∧
    k₂.withMessage.char (0x7000000 + 1) = 0 ∧ ∀ k ∈ [k₂.withMessage, k₃],
      k.char name = 45 ∧ k.char (name + 1) = 49 ∧ k.char (name + 1 + 1) = 0)

theorem firstMessage_checks : (do
    let (k, pipe, _, name, k₂, k₃) ← firstMessage
    return firstMessageChecks k pipe name k₂ k₃) = .ok true := by
  decide +kernel

/-- The message is in the pipe. -/
theorem pipefs_offers_first_message : ∃ (s : Pipefs) (name : Addr),
    Reachable Pipefs.AtStart Pipefs.Step s ∧ s.kernel.IsName name (0, 1) ∧
    s.queues (0, 1) = some [97] ∧ s.kernel.Offers name [97] := by
  obtain ⟨⟨k, pipe, k₁, name, k₂, k₃⟩, hrun, hchecks⟩ := bind_eq_ok.mp firstMessage_checks
  have hchecks : firstMessageChecks k pipe name k₂ k₃ = true := Except.ok.inj hchecks
  obtain ⟨hclean, hchecks⟩ := Bool.and_eq_true_iff.mp hchecks
  obtain ⟨⟨hstart, hfirst, hpipe⟩, ⟨hnext, hname, hne⟩, ⟨hnameLow, hbufferLow⟩, hend, hchars⟩ :=
    of_decide_eq_true hchecks
  -- The script is peeled off: start, creation, the message in the user's memory, the write.
  obtain ⟨k', hbooted, hrun⟩ := bind_eq_ok.mp hrun
  obtain ⟨⟨pipe', k₁'⟩, hcreate, hrun⟩ := bind_eq_ok.mp hrun
  obtain ⟨⟨name', k₂'⟩, hdo, hrun⟩ := bind_eq_ok.mp hrun
  obtain ⟨k₃', hwrite, hrun⟩ := bind_eq_ok.mp hrun
  obtain ⟨rfl, rfl, rfl, rfl, rfl, rfl⟩ : k' = k ∧ pipe' = pipe ∧ k₁' = k₁ ∧ name' = name ∧
      k₂' = k₂ ∧ k₃' = k₃ := by
    simpa using Except.ok.inj hrun
  obtain ⟨V, hr, -, -⟩ := (booted_of_start hbooted).rep
  obtain ⟨live, hc, -⟩ := hr.owns.live
  have hpids : IsPid 0 ∧ IsPid 1 := ⟨⟨by decide, by decide⟩, ⟨by decide, by decide⟩⟩
  -- The list has the one pipe, and its pages are below the user's memory.
  have hlist : pipeLink.IsList k₂' k₂'.pipeList [pipe'] :=
    Chain.cons_iff.mpr ⟨hfirst, hpipe, Chain.nil_iff.mpr hnext⟩
  have hoff : ∀ a : Nat, 0x7000000 ≤ a → k₂'.OffPipes a := by
    intro a ha
    refine Kernel.offPipes_of_list hlist fun n hn => ?_
    obtain rfl := List.mem_singleton.mp hn
    rw [hname]
    exact ⟨fun h => absurd (h.2.trans_le hnameLow) (Nat.not_lt.mpr ha),
      fun h => absurd (h.2.trans_le hbufferLow) (Nat.not_lt.mpr ha)⟩
  have hisName : ∀ k ∈ [k₂'.withMessage, k₃'], k.IsName name' (0, 1) := fun k hk =>
    ⟨hne, hpids, (hchars k hk).1, by decide, (hchars k hk).2.1, by decide, (hchars k hk).2.2⟩
  have hspared : k₂'.SparesPipes k₂'.withMessage := by
    refine ⟨rfl, rfl, fun _ _ _ _ => rfl, fun a ha => Function.update_of_ne ?_ _ _⟩
    rintro rfl
    exact ha (hoff _ le_rfl)
  have hstr := Kernel.withMessage_isString hend
  -- The three steps of the run.
  have hcreated : Pipefs.Step ⟨k', live, fun _ => none⟩ ⟨k₂', _, _⟩ :=
    .do_pipe (x := (0, 1)) hpids.1 hpids.2 rfl (Kernel.next_of_cleanPage hclean) hcreate hdo
  have hwritten : ∀ live queues, Pipefs.Step ⟨k₂'.withMessage, live, queues⟩
      ⟨k₃', live, queues.write (0, 1) [97]⟩ := fun live queues =>
    .writeToPipe (hisName _ List.mem_cons_self) (show 0x7000000 ≠ 0 by decide) hstr
      (fun i _ => hoff _ (Nat.le_add_right _ i)) hwrite
  have hreach : Reachable Pipefs.AtStart Pipefs.Step ⟨k₃', _, _⟩ :=
    .next (.next (.next (.start ⟨hstart, hc, rfl⟩) hcreated) (.store hspared)) (hwritten _ _)
  have hthird : k₃'.IsName name' (0, 1) := hisName _ (List.mem_cons_of_mem _ List.mem_cons_self)
  have hqueue : (Queues.write (Queues.create (fun _ => none) (0, 1)) (0, 1) [97]) (0, 1) = some [97] := by
    rfl
  exact ⟨_, name', hreach, hthird, hqueue, (pipefs_refines_queues hreach hthird).2 _ hqueue⟩

end BasicKernel
