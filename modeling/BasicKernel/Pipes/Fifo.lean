import BasicKernel.Kernel.Pipefs
import BasicKernel.Lib.RingBuffer
import BasicKernel.Lib.Transition
import BasicKernel.View.Pipes
import BasicKernel.View.Script

set_option autoImplicit false

/-! # Pipes are queues

The buffer of a pipe is a ring buffer whose free cells hold the byte 0. What a write appends and
a read takes is proved of the two loops, for any scheduler call between the stores, and carried
over every sequence of writes and reads.

`pipe_fifo` is the result, with the fact that calls come to an end. `Pipes/Queues.lean` has it for
many pipes at once, by the frames of `Pipes/Frames.lean`.
-/

namespace BasicKernel

open Linked Fuel Transition RingBuffer

variable {k k' : Kernel} {pipe : Addr} {fuel : Nat}

/-! ## Bytes in memory

A message is given by its address. These are the bytes that it stands for. -/

/-- The `n` bytes from `p` on. -/
def Kernel.bytes (k : Kernel) (p : Addr) (n : Nat) : List UInt8 :=
  (List.range n).map fun i => k.char (p + i)

/-- The C string `str` is at `p`. -/
def Kernel.IsString (k : Kernel) : Addr → List UInt8 → Prop
  | p, [] => k.char p = 0
  | p, c :: str => k.char p = c ∧ c ≠ 0 ∧ k.IsString (p + 1) str

theorem Kernel.bytes_succ (k : Kernel) (p : Addr) (n : Nat) :
    k.bytes p (n + 1) = k.char p :: k.bytes (p + 1) n := by
  unfold Kernel.bytes
  rw [List.range_succ_eq_map, List.map_cons, List.map_map, Nat.add_zero]
  congr 1
  refine List.map_congr_left fun i _ => ?_
  show k.char (p + (i + 1)) = k.char (p + 1 + i)
  rw [Nat.add_assoc, Nat.add_comm 1 i]

theorem Kernel.IsString.congr {p : Addr} {str : List UInt8} (h : k.IsString p str)
    (hchar : ∀ i, i ≤ str.length → k'.char (p + i) = k.char (p + i)) : k'.IsString p str := by
  induction str generalizing p with
  | nil => exact (hchar 0 (Nat.le_refl 0)).trans h
  | cons c str ih =>
      obtain ⟨hc, hne, hrest⟩ := h
      refine ⟨(hchar 0 (Nat.zero_le _)).trans hc, hne, ih hrest fun i hi => ?_⟩
      have := hchar (i + 1) (Nat.succ_le_succ hi)
      rwa [← Nat.add_assoc, Nat.add_right_comm] at this

/-! ## The scheduler does not touch the pipes

Every byte that is written wakes the receiver. The call changes states, and no pipe and no byte of
a buffer. -/

/-- Only the states of processes and threads and the ticks of the current process differ. -/
def Kernel.StatesOnly (k k' : Kernel) : Prop :=
  ∃ process thread ticks,
    k' = { k with process := process, thread := thread, numberOfTicks := ticks }

namespace Kernel.StatesOnly

variable {k₁ k₂ : Kernel}

theorem refl (k : Kernel) : k.StatesOnly k := ⟨k.process, k.thread, k.numberOfTicks, rfl⟩

theorem trans (h : k.StatesOnly k₁) (h' : k₁.StatesOnly k₂) : k.StatesOnly k₂ := by
  obtain ⟨process, thread, ticks, rfl⟩ := h
  obtain ⟨process', thread', ticks', rfl⟩ := h'
  exact ⟨process', thread', ticks', rfl⟩

theorem pipe_eq (h : k.StatesOnly k') : k'.pipe = k.pipe := by
  obtain ⟨process, thread, ticks, rfl⟩ := h
  rfl

theorem char_eq (h : k.StatesOnly k') : k'.char = k.char := by
  obtain ⟨process, thread, ticks, rfl⟩ := h
  rfl

theorem modifyThread {p : Addr} {f : ThreadNode → ThreadNode}
    (h : k.modifyThread p f = .ok k') : k.StatesOnly k' := by
  obtain ⟨thread, -, h⟩ := bind_eq_ok.mp h
  obtain rfl := Except.ok.inj h
  exact ⟨k.process, thread, k.numberOfTicks, rfl⟩

theorem modifyProcess {p : Addr} {f : ProcessNode → ProcessNode}
    (h : k.modifyProcess p f = .ok k') : k.StatesOnly k' := by
  obtain ⟨process, -, h⟩ := bind_eq_ok.mp h
  obtain rfl := Except.ok.inj h
  exact ⟨process, k.thread, k.numberOfTicks, rfl⟩

theorem unblockProcess {pid : Int} {ty : ProcessState}
    (h : BasicKernel.unblockProcess fuel k pid ty = .ok k') : k.StatesOnly k' := by
  obtain ⟨process, -, h⟩ := bind_eq_ok.mp h
  obtain ⟨p, -, h⟩ := bind_eq_ok.mp h
  split at h
  · exact modifyProcess h
  · obtain rfl := Except.ok.inj h
    exact refl k

theorem unblockThreads {pid : Int} {ty : ThreadState} {n : Nat} {l : Addr}
    (h : BasicKernel.unblockThreads fuel pid ty n k l = .ok k') : k.StatesOnly k' := by
  induction n generalizing k l with
  | zero =>
      obtain rfl := Except.ok.inj h
      exact refl k
  | succ n ih =>
      obtain ⟨lib, -, h⟩ := bind_eq_ok.mp h
      obtain ⟨t, -, h⟩ := bind_eq_ok.mp h
      have hrest : ∀ {k₁}, k.StatesOnly k₁ → (do
          BasicKernel.unblockThreads fuel pid ty n k₁ (← load k₁.threadLibrary l).next)
            = .ok k' → k.StatesOnly k' := by
        intro k₁ h₁ h
        obtain ⟨next, -, h⟩ := bind_eq_ok.mp h
        exact h₁.trans (ih h)
      split at h
      · obtain ⟨k₁, h₁, h⟩ := bind_eq_ok.mp h
        obtain ⟨k₂, h₂, h⟩ := bind_eq_ok.mp h
        exact hrest ((modifyThread h₁).trans (unblockProcess h₂)) h
      · exact hrest (refl k) h

theorem unblockAllThreads {pid : Int} {ty : ThreadState}
    (h : BasicKernel.unblockAllThreads fuel k pid ty = .ok k') : k.StatesOnly k' := by
  obtain ⟨process, -, h⟩ := bind_eq_ok.mp h
  obtain ⟨p, -, h⟩ := bind_eq_ok.mp h
  exact unblockThreads h

theorem blockThread {pid pthread : Int} {ty : ThreadState}
    (h : BasicKernel.blockThread fuel k pid pthread ty = .ok k') : k.StatesOnly k' := by
  obtain ⟨process, -, h⟩ := bind_eq_ok.mp h
  obtain ⟨thread, -, h⟩ := bind_eq_ok.mp h
  obtain ⟨k₁, h₁, h⟩ := bind_eq_ok.mp h
  obtain ⟨k₂, h₂, h⟩ := bind_eq_ok.mp h
  obtain ⟨blocked, -, h⟩ := bind_eq_ok.mp h
  have h₁₂ := (modifyThread h₁).trans (modifyProcess h₂)
  split at h
  · obtain ⟨process', -, h⟩ := bind_eq_ok.mp h
    obtain ⟨k₃, h₃, h⟩ := bind_eq_ok.mp h
    obtain rfl := Except.ok.inj h
    obtain ⟨process₃, thread₃, ticks₃, rfl⟩ := modifyProcess h₃
    exact h₁₂.trans ⟨process₃, thread₃, QUANTUM, rfl⟩
  · obtain rfl := Except.ok.inj h
    exact h₁₂

end Kernel.StatesOnly

/-! ## The buffer of a pipe

The bytes that are stored lie from the read pointer on, around the end of the buffer if need be,
and all other cells hold 0. -/

def Kernel.pipeCells (k : Kernel) (pipe : Addr) (i : Nat) : UInt8 :=
  k.char ((k.pipe pipe).buffer + i)

/-- The bytes in the pipe, in the order in which they will be read. -/
def Kernel.stored (k : Kernel) (pipe : Addr) : List UInt8 :=
  contents 0 PIPE_BUF_SIZE (k.pipeCells pipe)
    ((k.pipe pipe).readPointer - (k.pipe pipe).buffer)

/-- The pipe holds the bytes `xs`, its pointers are `r` and `w` cells into the buffer. -/
structure Kernel.PipeHolds (k : Kernel) (pipe : Addr) (r w : Nat) (xs : List UInt8) : Prop where
  pipe_ne : pipe ≠ NULL
  buffer_ne : (k.pipe pipe).buffer ≠ NULL
  read : (k.pipe pipe).readPointer = (k.pipe pipe).buffer + r
  write : (k.pipe pipe).writePointer = (k.pipe pipe).buffer + w
  ring : Holds 0 PIPE_BUF_SIZE (k.pipeCells pipe) r w xs

/-- The `n` bytes from `p` on are not in the buffer of the pipe. -/
def Kernel.Apart (k : Kernel) (pipe p : Addr) (n : Nat) : Prop :=
  ∀ i, i < n → ∀ j, j < PIPE_BUF_SIZE → p + i ≠ (k.pipe pipe).buffer + j

/-- A pointer that moves on one cell wraps at the end of the buffer. -/
theorem pointerPosition_add {buffer i : Nat} (hi : i < PIPE_BUF_SIZE) :
    pointerPosition (buffer + i + 1) buffer = buffer + (i + 1) % PIPE_BUF_SIZE := by
  unfold pointerPosition
  split
  · next hend =>
      have hlast : i + 1 = PIPE_BUF_SIZE := by
        rw [Nat.add_assoc] at hend
        exact Nat.add_left_cancel hend
      rw [hlast, Nat.mod_self, Nat.add_zero]
  · next hend =>
      have hlt : i + 1 < PIPE_BUF_SIZE := by
        refine Nat.lt_of_le_of_ne hi fun hlast => hend ?_
        rw [Nat.add_assoc, hlast]
      rw [Nat.mod_eq_of_lt hlt, Nat.add_assoc]

/-- An assignment to the cell `w` of an array that starts at `base`. -/
theorem update_add_left {α : Type} (store : Addr → α) (base w : Nat) (c : α) (i : Nat) :
    Function.update store (base + w) c (base + i)
      = Function.update (fun i => store (base + i)) w c i := by
  by_cases hi : i = w
  · rw [hi, Function.update_self, Function.update_self]
  · rw [Function.update_of_ne hi, Function.update_of_ne fun h => hi (Nat.add_left_cancel h)]

namespace Kernel.PipeHolds

variable {r w : Nat} {x : UInt8} {xs : List UInt8}

theorem stored_eq (h : k.PipeHolds pipe r w xs) : k.stored pipe = xs := by
  rw [Kernel.stored, h.read, Nat.add_sub_cancel_left]
  exact h.ring.contents_eq

theorem readPointer_ne (h : k.PipeHolds pipe r w xs) : (k.pipe pipe).buffer + r ≠ NULL :=
  Nat.ne_of_gt (Nat.add_pos_left (Nat.pos_of_ne_zero h.buffer_ne) _)

theorem writePointer_ne (h : k.PipeHolds pipe r w xs) : (k.pipe pipe).buffer + w ≠ NULL :=
  Nat.ne_of_gt (Nat.add_pos_left (Nat.pos_of_ne_zero h.buffer_ne) _)

/-- What the pipe holds depends on its node and on its buffer. -/
theorem congr (h : k.PipeHolds pipe r w xs) (hpipe : k'.pipe pipe = k.pipe pipe)
    (hcells : ∀ i, i < PIPE_BUF_SIZE →
      k'.char ((k.pipe pipe).buffer + i) = k.char ((k.pipe pipe).buffer + i)) :
    k'.PipeHolds pipe r w xs where
  pipe_ne := h.pipe_ne
  buffer_ne := by rw [hpipe]; exact h.buffer_ne
  read := by rw [hpipe]; exact h.read
  write := by rw [hpipe]; exact h.write
  ring := h.ring.congr fun i hi => by
    rw [Kernel.pipeCells, Kernel.pipeCells, hpipe]
    exact hcells i hi

theorem statesOnly (h : k.PipeHolds pipe r w xs) (hsame : k.StatesOnly k') :
    k'.PipeHolds pipe r w xs :=
  h.congr (by rw [hsame.pipe_eq]) fun i _ => by rw [hsame.char_eq]

/-- A byte is appended when it is stored and the pointer moves on. -/
theorem push {c : UInt8} (h : k.PipeHolds pipe r w xs) (hc : c ≠ 0)
    (hroom : xs.length < PIPE_BUF_SIZE) (hpipe : k'.pipe pipe = { k.pipe pipe with
      writePointer := pointerPosition ((k.pipe pipe).buffer + w + 1) (k.pipe pipe).buffer })
    (hchar : k'.char = Function.update k.char ((k.pipe pipe).buffer + w) c) :
    k'.PipeHolds pipe r ((w + 1) % PIPE_BUF_SIZE) (xs ++ [c]) where
  pipe_ne := h.pipe_ne
  buffer_ne := by rw [hpipe]; exact h.buffer_ne
  read := by rw [hpipe]; exact h.read
  write := by rw [hpipe]; exact pointerPosition_add h.ring.write_lt
  ring := by
    refine (h.ring.push hc hroom).congr fun i _ => ?_
    rw [Kernel.pipeCells, hpipe, hchar]
    exact update_add_left _ _ _ _ _

/-- A byte is taken when its cell is cleared and the pointer moves on. -/
theorem pop (h : k.PipeHolds pipe r w (x :: xs)) (hpipe : k'.pipe pipe = { k.pipe pipe with
      readPointer := pointerPosition ((k.pipe pipe).buffer + r + 1) (k.pipe pipe).buffer })
    (hchar : ∀ i, i < PIPE_BUF_SIZE → k'.char ((k.pipe pipe).buffer + i)
      = Function.update k.char ((k.pipe pipe).buffer + r) 0 ((k.pipe pipe).buffer + i)) :
    k'.PipeHolds pipe ((r + 1) % PIPE_BUF_SIZE) w xs where
  pipe_ne := h.pipe_ne
  buffer_ne := by rw [hpipe]; exact h.buffer_ne
  read := by rw [hpipe]; exact pointerPosition_add h.ring.read_lt
  write := by rw [hpipe]; exact h.write
  ring := by
    refine h.ring.pop.congr fun i hi => ?_
    rw [Kernel.pipeCells, hpipe, hchar i hi]
    exact update_add_left _ _ _ _ _

end Kernel.PipeHolds

/-! ## The loops

Each iteration is a push of one byte or a pop of one byte. -/

section Loops

variable {r w : Nat} {xs str : List UInt8} {buff : Addr} {pid : Int}

/-- The state after the store of the byte `c`, before the pointer wraps. -/
def Kernel.putByte (k : Kernel) (pipe : Addr) (c : UInt8) : Kernel :=
  let writePointer := (k.pipe pipe).writePointer
  { k with
    char := Function.update k.char writePointer c
    pipe := Function.update k.pipe pipe { k.pipe pipe with writePointer := writePointer + 1 } }

theorem sendChars_end {n : Nat} (hstr : k.IsString buff []) (hbuff : buff ≠ NULL) :
    sendChars fuel pipe pid (n + 1) k buff = .ok k := by
  have hzero : k.char buff = 0 := hstr
  simp only [sendChars, load_of_ne hbuff, ok_bind]
  rw [if_pos hzero]
  rfl

theorem sendChars_full {n : Nat} (h : k.PipeHolds pipe r w xs) (hbuff : buff ≠ NULL)
    (hfull : ¬ xs.length < PIPE_BUF_SIZE) : sendChars fuel pipe pid (n + 1) k buff = .ok k := by
  have hcell : k.char ((k.pipe pipe).buffer + w) ≠ 0 := fun hfree =>
    hfull (h.ring.write_free_iff.mp hfree)
  simp only [sendChars, load_of_ne hbuff, load_of_ne h.pipe_ne, h.write,
    load_of_ne h.writePointer_ne, ok_bind]
  rw [if_pos hcell, ite_self]
  rfl

/-- One iteration of the loop of `writeToPipe`, in a pipe with room. -/
theorem sendChars_succ {n : Nat} {c : UInt8} (h : k.PipeHolds pipe r w xs)
    (hstr : k.IsString buff (c :: str)) (hbuff : buff ≠ NULL)
    (hroom : xs.length < PIPE_BUF_SIZE) :
    sendChars fuel pipe pid (n + 1) k buff = (do
      let k ← unblockAllThreads fuel (k.putByte pipe c) pid .T_BLOCKED_PIPE
      let k ← k.modifyPipe pipe fun n =>
        { n with writePointer := pointerPosition n.writePointer n.buffer }
      sendChars fuel pipe pid n k (buff + 1)) := by
  obtain ⟨rfl, hne, -⟩ := hstr
  have hcell : k.char ((k.pipe pipe).buffer + w) = 0 := h.ring.write_free_iff.mpr hroom
  simp only [sendChars, load_of_ne hbuff, load_of_ne h.pipe_ne, h.write,
    load_of_ne h.writePointer_ne, ok_bind]
  rw [if_neg hne, if_neg (not_not.mpr hcell)]
  rw [Kernel.setChar_of_ne h.writePointer_ne, ok_bind, Kernel.modifyPipe_of_ne h.pipe_ne, ok_bind,
    ← h.write]
  rfl

/-- Whatever the scheduler call does to processes, after the iteration the byte is in the pipe. -/
theorem Kernel.PipeHolds.sent {k₁ : Kernel} {c : UInt8} (h : k.PipeHolds pipe r w xs) (hc : c ≠ 0)
    (hroom : xs.length < PIPE_BUF_SIZE) (hsame : (k.putByte pipe c).StatesOnly k₁) :
    ∃ k₂, (k₁.modifyPipe pipe fun n =>
        { n with writePointer := pointerPosition n.writePointer n.buffer }) = .ok k₂ ∧
      k₂.PipeHolds pipe r ((w + 1) % PIPE_BUF_SIZE) (xs ++ [c]) ∧
      (k₂.pipe pipe).buffer = (k.pipe pipe).buffer ∧
      k₂.char = Function.update k.char ((k.pipe pipe).buffer + w) c := by
  have hchar : k₁.char = Function.update k.char ((k.pipe pipe).buffer + w) c := by
    rw [hsame.char_eq, ← h.write]
    rfl
  have hpipe : k₁.pipe pipe = { k.pipe pipe with
      writePointer := (k.pipe pipe).buffer + w + 1 } := by
    rw [hsame.pipe_eq, ← h.write]
    exact Function.update_self ..
  refine ⟨_, Kernel.modifyPipe_of_ne h.pipe_ne _, ?_, ?_, hchar⟩
  · refine h.push hc hroom ?_ hchar
    show Function.update k₁.pipe pipe _ pipe = _
    rw [Function.update_self, hpipe]
  · show (Function.update k₁.pipe pipe _ pipe).buffer = _
    rw [Function.update_self, hpipe]

/-- A string behind its first character, after a store into the buffer of a pipe. -/
theorem Kernel.IsString.tail {k₂ : Kernel} {c b : UInt8} {i : Nat}
    (hstr : k.IsString buff (c :: str)) (hi : i < PIPE_BUF_SIZE)
    (hapart : k.Apart pipe buff ((c :: str).length + 1))
    (hchar : k₂.char = Function.update k.char ((k.pipe pipe).buffer + i) b) :
    k₂.IsString (buff + 1) str := by
  refine hstr.2.2.congr fun j hj => ?_
  have hne := hapart (j + 1) (Nat.succ_lt_succ (Nat.lt_succ_of_le hj)) i hi
  rw [hchar, Function.update_of_ne]
  rwa [Nat.add_assoc, Nat.add_comm 1 j]

theorem Kernel.Apart.tail {k₂ : Kernel} {n : Nat} (hapart : k.Apart pipe buff (n + 1))
    (hbuffer : (k₂.pipe pipe).buffer = (k.pipe pipe).buffer) : k₂.Apart pipe (buff + 1) n := by
  intro i hi j hj
  rw [hbuffer, Nat.add_assoc, Nat.add_comm 1 i]
  exact hapart (i + 1) (Nat.succ_lt_succ hi) j hj

/-- The loop of `writeToPipe` appends as many characters as there is room for. -/
theorem Kernel.PipeHolds.sendChars_inv {n : Nat} (h : k.PipeHolds pipe r w xs)
    (hstr : k.IsString buff str) (hbuff : buff ≠ NULL)
    (hapart : k.Apart pipe buff (str.length + 1))
    (hrun : sendChars fuel pipe pid n k buff = .ok k') :
    ∃ w', k'.PipeHolds pipe r w' (xs ++ str.take (PIPE_BUF_SIZE - xs.length)) := by
  -- By induction on the string; the loop stops at its end or when the pipe is full.
  induction str generalizing k w xs n buff with
  | nil =>
      cases n with
      | zero => cases hrun
      | succ n =>
          rw [sendChars_end hstr hbuff] at hrun
          obtain rfl := Except.ok.inj hrun
          exact ⟨w, by rwa [List.take_nil, List.append_nil]⟩
  | cons c str ih =>
      cases n with
      | zero => cases hrun
      | succ n =>
          by_cases hroom : xs.length < PIPE_BUF_SIZE
          -- One iteration stores one character and wakes the receiver, which leaves the pipes
          -- alone.
          · rw [sendChars_succ h hstr hbuff hroom] at hrun
            obtain ⟨k₁, hwake, hrun⟩ := bind_eq_ok.mp hrun
            obtain ⟨k₂, hk₂, h₂, hbuffer, hchar⟩ := h.sent hstr.2.1 hroom (.unblockAllThreads hwake)
            rw [hk₂, ok_bind] at hrun
            obtain ⟨w', h'⟩ := ih h₂ (hstr.tail h.ring.write_lt hapart hchar) (Nat.succ_ne_zero buff)
              (hapart.tail hbuffer) hrun
            refine ⟨w', ?_⟩
            -- One byte more in the pipe, one place less for the rest of the string.
            rwa [List.append_assoc, List.singleton_append, List.length_append,
              List.length_singleton, ← Nat.sub_sub, ← List.take_succ_cons,
              Nat.sub_add_cancel (Nat.sub_pos_of_lt hroom)] at h'
          · rw [sendChars_full h hbuff hroom] at hrun
            obtain rfl := Except.ok.inj hrun
            rw [Nat.sub_eq_zero_of_le (Nat.le_of_not_lt hroom), List.take_zero, List.append_nil]
            exact ⟨w, h⟩

/-! ### Reading

A byte is taken before the pointers are compared. So the loop empties a full pipe as well, in which
they are equal from the start. -/

/-- The state after one iteration of the loop of `readFromPipe`. -/
def Kernel.takeByte (k : Kernel) (pipe buff : Addr) : Kernel :=
  let p := k.pipe pipe
  { k with
    char := Function.update (Function.update k.char buff (k.char p.readPointer)) p.readPointer 0
    pipe := Function.update k.pipe pipe
      { p with readPointer := pointerPosition (p.readPointer + 1) p.buffer } }

theorem receiveChars_succ {n : Nat} (h : k.PipeHolds pipe r w xs) (hbuff : buff ≠ NULL) :
    receiveChars pipe (n + 1) k buff =
      if ((k.takeByte pipe buff).pipe pipe).readPointer
          ≠ ((k.takeByte pipe buff).pipe pipe).writePointer
      then receiveChars pipe n (k.takeByte pipe buff) (buff + 1)
      else (k.takeByte pipe buff).setChar ((k.takeByte pipe buff).pipe pipe).readPointer 0 := by
  have hread : (k.pipe pipe).readPointer ≠ NULL := by
    rw [h.read]
    exact h.readPointer_ne
  simp only [receiveChars, load_of_ne h.pipe_ne, load_of_ne hread, ok_bind,
    Kernel.setChar_of_ne hbuff, Kernel.setChar_of_ne hread, Kernel.modifyPipe_of_ne h.pipe_ne,
    Function.update_self, Function.update_idem, Kernel.takeByte]

/-- One iteration takes the first byte and leaves memory outside the buffer as it is, but for the
byte at `buff`. -/
theorem Kernel.PipeHolds.taken {x : UInt8} (h : k.PipeHolds pipe r w (x :: xs))
    (hapart : ∀ j, j < PIPE_BUF_SIZE → buff ≠ (k.pipe pipe).buffer + j) :
    (k.takeByte pipe buff).PipeHolds pipe ((r + 1) % PIPE_BUF_SIZE) w xs ∧
      ((k.takeByte pipe buff).pipe pipe).buffer = (k.pipe pipe).buffer ∧
      (k.takeByte pipe buff).char
        = Function.update (Function.update k.char buff x) ((k.pipe pipe).buffer + r) 0 := by
  have hx : k.char ((k.pipe pipe).buffer + r) = x := h.ring.read_eq
  have hpipe : (k.takeByte pipe buff).pipe pipe = { k.pipe pipe with
      readPointer := pointerPosition ((k.pipe pipe).buffer + r + 1) (k.pipe pipe).buffer } := by
    rw [← h.read]
    exact Function.update_self ..
  have hchar : (k.takeByte pipe buff).char
      = Function.update (Function.update k.char buff x) ((k.pipe pipe).buffer + r) 0 := by
    rw [← hx, ← h.read]
    rfl
  refine ⟨h.pop hpipe fun i hi => ?_, by rw [hpipe], hchar⟩
  rw [hchar]
  by_cases heq : (k.pipe pipe).buffer + i = (k.pipe pipe).buffer + r
  · rw [heq, Function.update_self, Function.update_self]
  · rw [Function.update_of_ne heq, Function.update_of_ne heq,
      Function.update_of_ne (hapart i hi).symm]

/-- The assignment behind the loop of `readFromPipe` clears a cell that is free. -/
theorem Kernel.PipeHolds.cleared (h : k.PipeHolds pipe r w []) :
    ∃ k₁, k.setChar (k.pipe pipe).readPointer 0 = .ok k₁ ∧ k₁.PipeHolds pipe r w [] ∧
      k₁.char = k.char := by
  have hfree : k.char ((k.pipe pipe).buffer + r) = 0 := h.ring.read_free_iff.mpr rfl
  have hchar : Function.update k.char ((k.pipe pipe).buffer + r) 0 = k.char := by
    conv_lhs => rw [← hfree]
    exact Function.update_eq_self _ _
  refine ⟨_, by rw [h.read]; exact Kernel.setChar_of_ne h.readPointer_ne 0, ?_, hchar⟩
  exact h.congr rfl fun i _ => congrFun hchar _

/-- Where a cell is free the two pointers tell whether there is a byte. -/
theorem Kernel.PipeHolds.pointers_eq_iff (h : k.PipeHolds pipe r w xs) (hroom : xs.length < PIPE_BUF_SIZE) :
    (k.pipe pipe).readPointer = (k.pipe pipe).writePointer ↔ xs = [] := by
  rw [h.read, h.write]
  exact ⟨fun heq => (h.ring.pointers_eq_iff hroom).mp (Nat.add_left_cancel heq),
    fun hnil => congrArg _ ((h.ring.pointers_eq_iff hroom).mpr hnil)⟩

/-- The loop of `readFromPipe` takes all bytes, also from a full pipe, where the pointers are equal
before the first iteration. -/
theorem Kernel.PipeHolds.receiveChars_returns {x : UInt8} (h : k.PipeHolds pipe r w (x :: xs))
    (hbuff : buff ≠ NULL) (hapart : k.Apart pipe buff (x :: xs).length) :
    ∃ k' r', Returns (fun n => receiveChars pipe n k buff) k' ∧
      k'.PipeHolds pipe r' w [] ∧ k'.bytes buff (x :: xs).length = x :: xs ∧
      ∀ a, (∀ j, j < PIPE_BUF_SIZE → a ≠ (k.pipe pipe).buffer + j) →
        (∀ i, i < (x :: xs).length → a ≠ buff + i) → k'.char a = k.char a := by
  -- By induction on the bytes that are left. The exit test comes after the byte is taken.
  induction xs generalizing k r x buff with
  | nil =>
      have hout : ∀ j, j < PIPE_BUF_SIZE → buff ≠ (k.pipe pipe).buffer + j :=
        hapart 0 (Nat.zero_lt_succ _)
      obtain ⟨h₁, hbuffer, hchar⟩ := h.taken hout
      obtain ⟨k₂, hk₂, h₂, hchar₂⟩ := h₁.cleared
      -- The last byte is out: the pointers meet and the loop ends, with the terminator stored.
      have heq := (h₁.pointers_eq_iff h.ring.pos).mpr rfl
      refine ⟨k₂, _, .succ rfl (fun n => (receiveChars_succ h hbuff).trans ?_)
        (.const Stop.outOfFuel k₂), h₂, ?_, ?_⟩
      · rw [if_neg (not_not.mpr heq), hk₂]
      · rw [List.length_singleton, Kernel.bytes_succ, hchar₂, hchar, Function.update_of_ne (hout r h.ring.read_lt),
          Function.update_self]
        rfl
      · intro a hcells hbytes
        rw [hchar₂, hchar, Function.update_of_ne (hcells r h.ring.read_lt),
          Function.update_of_ne (show a ≠ buff from hbytes 0 (Nat.zero_lt_succ _))]
  | cons y ys ih =>
      have hout : ∀ j, j < PIPE_BUF_SIZE → buff ≠ (k.pipe pipe).buffer + j :=
        hapart 0 (Nat.zero_lt_succ _)
      obtain ⟨h₁, hbuffer, hchar⟩ := h.taken hout
      -- Another byte is left, so that the pointers are apart and the loop goes on.
      have hroom : (y :: ys).length < PIPE_BUF_SIZE := h.ring.length_le
      have hne := mt (h₁.pointers_eq_iff hroom).mp (List.cons_ne_nil y ys)
      have hnext : buff + 1 ≠ NULL := Nat.succ_ne_zero buff
      obtain ⟨k', r', hret, h', hbytes, hrest⟩ := ih h₁ hnext (hapart.tail hbuffer)
      refine ⟨k', r', .succ rfl (fun n => (receiveChars_succ h hbuff).trans (if_pos hne)) hret, h',
        ?_, ?_⟩
      -- The byte just delivered is not touched by the later iterations.
      · have hkept : k'.char buff = x := by
          rw [hrest buff ?_ ?_, hchar, Function.update_of_ne (hout r h.ring.read_lt),
            Function.update_self]
          · rw [hbuffer]
            exact hout
          · intro i _
            rw [Nat.add_assoc, Nat.add_comm 1 i]
            exact Nat.ne_of_lt (Nat.lt_add_of_pos_right (Nat.succ_pos i))
        rw [List.length_cons, Kernel.bytes_succ, hkept, hbytes]
      · intro a hcells hoff
        have hoff' : ∀ i, i < (y :: ys).length → a ≠ buff + 1 + i := by
          intro i hi
          rw [Nat.add_assoc, Nat.add_comm 1 i]
          exact hoff (i + 1) (Nat.succ_lt_succ hi)
        rw [hrest a (by rw [hbuffer]; exact hcells) hoff', hchar,
          Function.update_of_ne (hcells r h.ring.read_lt),
          Function.update_of_ne (show a ≠ buff from hoff 0 (Nat.zero_lt_succ _))]

end Loops

/-! ## Creation

The buffer is cleared byte by byte, so that a new pipe has only free cells. -/

theorem clearBuffer_inv {buffer : Addr} {n i : Nat} (h : clearBuffer buffer n k i = .ok k') :
    k'.pipe = k.pipe ∧ (0 < n → buffer + i ≠ NULL) ∧
      (∀ j, i ≤ j → j < i + n → k'.char (buffer + j) = 0) ∧
      ∀ j, j < i → k'.char (buffer + j) = k.char (buffer + j) := by
  -- By induction on the cells that are left, upwards from `i`.
  induction n generalizing k i with
  | zero =>
      obtain rfl := Except.ok.inj h
      exact ⟨rfl, fun h => absurd h (Nat.lt_irrefl 0), fun j hle hlt => absurd hle (by omega),
        fun _ _ => rfl⟩
  | succ n ih =>
      obtain ⟨k₁, hset, h⟩ := bind_eq_ok.mp h
      have hne : buffer + i ≠ NULL := by
        intro hnull
        rw [hnull, Kernel.setChar, modify_null] at hset
        cases hset
      rw [Kernel.setChar_of_ne hne] at hset
      obtain rfl := Except.ok.inj hset
      obtain ⟨hpipe, -, hcleared, hkept⟩ := ih h
      refine ⟨hpipe, fun _ => hne, fun j hle hlt => ?_, fun j hlt => ?_⟩
      · rcases Nat.eq_or_lt_of_le hle with rfl | hgt
        · rw [hkept i (Nat.lt_succ_self i)]
          exact Function.update_self ..
        · exact hcleared j hgt (by omega)
      · rw [hkept j (Nat.lt_succ_of_lt hlt)]
        exact Function.update_of_ne (fun heq => absurd (Nat.add_left_cancel heq)
          (Nat.ne_of_lt hlt)) ..

theorem clearBuffer_ne {buffer : Addr} (h : clearBuffer buffer PIPE_BUF_SIZE k 0 = .ok k') :
    buffer ≠ NULL :=
  (clearBuffer_inv h).2.1 (by decide)

/-- A new pipe is empty. -/
theorem createPipe_holds {fromPid toPid : Int} (h : createPipe fuel k fromPid toPid = .ok (pipe, k')) :
    k'.PipeHolds pipe 0 0 [] := by
  obtain ⟨name, buffer, k₁, k₂, k₃, k₄, k₅, hne, -, -, -, -, hclear, rfl⟩ := createPipe_cases h
  -- The buffer is cleared behind the store of its address, and the two pointers come last.
  obtain ⟨hpipe, -, hcleared, -⟩ := clearBuffer_inv hclear
  have hat : (k₅.pipe pipe).buffer = buffer := by
    rw [hpipe]
    exact congrArg PipeNode.buffer (Function.update_self pipe _ k₄.pipe)
  refine ⟨hne, ?_, ?_, ?_, ?_⟩
  · simpa [Function.update_self, hat] using clearBuffer_ne hclear
  · simp [Function.update_self, hat]
  · simp [Function.update_self, hat]
  -- All cells were cleared, and the two pointers are equal: the ring is empty.
  · refine Holds.empty (by decide) fun i hi => ?_
    have hcell := hcleared i (Nat.zero_le i) (by rwa [Nat.zero_add])
    simpa [Kernel.pipeCells, Function.update_self, hat] using hcell

/-! ## Calls -/

section Calls

variable {r w : Nat} {x : UInt8} {xs str : List UInt8} {name buff : Addr} {pid : Int}

theorem Kernel.PipeHolds.writeToPipe_inv (h : k.PipeHolds pipe r w xs)
    (hget : getPipe fuel k name = .ok pipe) (hbuff : buff ≠ NULL) (hstr : k.IsString buff str)
    (hapart : k.Apart pipe buff (str.length + 1)) (hrun : writeToPipe fuel k name buff = .ok k') :
    ∃ w', k'.PipeHolds pipe r w' (xs ++ str.take (PIPE_BUF_SIZE - xs.length)) := by
  rw [writeToPipe, hget, ok_bind, if_neg (not_or.mpr ⟨h.pipe_ne, hbuff⟩)] at hrun
  obtain ⟨pid, -, hrun⟩ := bind_eq_ok.mp hrun
  exact h.sendChars_inv hstr hbuff hapart hrun

/-- A call that finds bytes is the loop. -/
theorem Kernel.PipeHolds.readFromPipe_eq (h : k.PipeHolds pipe r w (x :: xs)) (hbuff : buff ≠ NULL)
    (hget : getPipe fuel k name = .ok pipe) :
    readFromPipe fuel k name buff = receiveChars pipe fuel k buff := by
  have hread : (k.pipe pipe).readPointer ≠ NULL := by
    rw [h.read]
    exact h.readPointer_ne
  have hx : k.char (k.pipe pipe).readPointer ≠ 0 := by
    rw [h.read]
    exact fun hfree => absurd (h.ring.read_free_iff.mp hfree) (List.cons_ne_nil x xs)
  rw [readFromPipe, hget, ok_bind, if_neg (not_or.mpr ⟨h.pipe_ne, hbuff⟩), load_of_ne h.pipe_ne,
    ok_bind, load_of_ne hread, ok_bind, if_neg hx]

theorem Kernel.PipeHolds.readFromPipe_returns (h : k.PipeHolds pipe r w (x :: xs))
    (hget : Returns (getPipe · k name) pipe) (hbuff : buff ≠ NULL)
    (hapart : k.Apart pipe buff (x :: xs).length) :
    ∃ k' r', Returns (readFromPipe · k name buff) k' ∧ k'.PipeHolds pipe r' w [] ∧
      k'.bytes buff (x :: xs).length = x :: xs ∧
      ∀ a, (∀ j, j < PIPE_BUF_SIZE → a ≠ (k.pipe pipe).buffer + j) →
        (∀ i, i < (x :: xs).length → a ≠ buff + i) → k'.char a = k.char a := by
  obtain ⟨k', r', hret, h', hbytes, hframe⟩ := h.receiveChars_returns hbuff hapart
  obtain ⟨⟨m, hm⟩, hget⟩ := hget
  obtain ⟨⟨n, hn⟩, hret⟩ := hret
  refine ⟨k', r', ⟨⟨max m n, fun fuel hle => ?_⟩, fun fuel => ?_⟩, h', hbytes, hframe⟩
  · show readFromPipe fuel k name buff = .ok k'
    rw [h.readFromPipe_eq hbuff (hm fuel (le_of_max_le_left hle))]
    exact hn fuel (le_of_max_le_right hle)
  · show readFromPipe fuel k name buff = .ok k' ∨ readFromPipe fuel k name buff = .error .outOfFuel
    rcases hget fuel with hfuel | hfuel
    · rw [h.readFromPipe_eq hbuff hfuel]
      exact hret fuel
    · right
      have hfuel : getPipe fuel k name = .error .outOfFuel := hfuel
      rw [readFromPipe, hfuel]
      rfl

/-- With a receiver that exists, the loop of `writeToPipe` ends. -/
theorem Kernel.PipeHolds.sendChars_returns {V : View} {p : ProcessView} (h : k.PipeHolds pipe r w xs)
    (hr : Rep k V) (hok : V.Ok) (hp : p ∈ V.table) (hbuff : buff ≠ NULL)
    (hstr : k.IsString buff str) (hapart : k.Apart pipe buff (str.length + 1)) :
    ∃ m k', (∀ fuel n, m ≤ fuel → m ≤ n → sendChars fuel pipe p.val.pid n k buff = .ok k') ∧
      ∀ fuel n, sendChars fuel pipe p.val.pid n k buff = .ok k' ∨
        sendChars fuel pipe p.val.pid n k buff = .error .outOfFuel := by
  -- As in `sendChars_inv`, with the wake-up of each iteration returning. It needs fuel of its own.
  induction str generalizing k w xs V p buff with
  | nil =>
      refine ⟨1, k, fun fuel n _ hn => ?_, fun fuel n => ?_⟩
      · obtain ⟨n, rfl⟩ := Nat.exists_eq_succ_of_ne_zero (Nat.one_le_iff_ne_zero.mp hn)
        exact sendChars_end hstr hbuff
      · cases n with
        | zero => exact .inr rfl
        | succ n => exact .inl (sendChars_end hstr hbuff)
  | cons c str ih =>
      -- The wake-up keeps the threads of the receiver, hence it is found again in the next
      -- iteration.
      by_cases hroom : xs.length < PIPE_BUF_SIZE
      · have hr₁ : Rep (k.putByte pipe c) V := hr.unseen rfl hr.owns
        obtain ⟨k₁, ⟨⟨m₁, hm₁⟩, hwake⟩, hr₂⟩ := hr₁.unblockAllThreads hok hp .T_BLOCKED_PIPE
        have hsame : (k.putByte pipe c).StatesOnly k₁ := .unblockAllThreads (hm₁ m₁ le_rfl)
        obtain ⟨k₂, hk₂, h₂, hbuffer, hchar⟩ := h.sent hstr.2.1 hroom hsame
        have hnext : buff + 1 ≠ NULL := Nat.succ_ne_zero buff
        obtain ⟨m, k', hm, hret⟩ := ih h₂ (hr₂.modifyPipe hk₂) (hr₁.ok_unblockAll hok hp _)
          (View.mem_set hp _) hnext (hstr.tail h.ring.write_lt hapart hchar) (hapart.tail hbuffer)
        rw [(p.sameFrame_unblockAll _).pid] at hm hret
        have hstep : ∀ {fuel n}, unblockAllThreads fuel (k.putByte pipe c) p.val.pid .T_BLOCKED_PIPE
            = .ok k₁ → sendChars fuel pipe p.val.pid (n + 1) k buff
              = sendChars fuel pipe p.val.pid n k₂ (buff + 1) := by
          intro fuel n hwake
          rw [sendChars_succ h hstr hbuff hroom, hwake, ok_bind, hk₂, ok_bind]
        -- Enough fuel for the wake-up of this iteration and for all the later ones.
        refine ⟨max m₁ (m + 1), k', fun fuel n hfuel hn => ?_, fun fuel n => ?_⟩
        · obtain ⟨n, rfl⟩ : ∃ j, n = j + 1 := ⟨n - 1, by omega⟩
          rw [hstep (hm₁ fuel (by omega))]
          exact hm fuel n (by omega) (by omega)
        · cases n with
          | zero => exact .inr rfl
          | succ n =>
              rcases hwake fuel with hok₁ | hout
              · rw [hstep hok₁]
                exact hret fuel n
              · right
                rw [sendChars_succ h hstr hbuff hroom]
                simp only [hout, error_bind]
      -- The pipe is full: the loop ends without a wake-up.
      · refine ⟨1, k, fun fuel n _ hn => ?_, fun fuel n => ?_⟩
        · obtain ⟨n, rfl⟩ := Nat.exists_eq_succ_of_ne_zero (Nat.one_le_iff_ne_zero.mp hn)
          exact sendChars_full h hbuff hroom
        · cases n with
          | zero => exact .inr rfl
          | succ n => exact .inl (sendChars_full h hbuff hroom)

theorem Kernel.PipeHolds.readFromPipe_inv (h : k.PipeHolds pipe r w (x :: xs))
    (hget : getPipe fuel k name = .ok pipe) (hbuff : buff ≠ NULL)
    (hapart : k.Apart pipe buff (x :: xs).length) (hrun : readFromPipe fuel k name buff = .ok k') :
    ∃ r', k'.PipeHolds pipe r' w [] ∧ k'.bytes buff (x :: xs).length = x :: xs := by
  obtain ⟨k₁, r', hret, h₁, hbytes, -⟩ := h.receiveChars_returns hbuff hapart
  rw [h.readFromPipe_eq hbuff hget] at hrun
  obtain rfl := hret.eq hrun
  exact ⟨r', h₁, hbytes⟩

/-- A call that finds no byte blocks a thread. -/
theorem Kernel.PipeHolds.readFromPipe_empty (h : k.PipeHolds pipe r w [])
    (hget : getPipe fuel k name = .ok pipe) (hrun : readFromPipe fuel k name buff = .ok k') :
    k'.PipeHolds pipe r w [] := by
  have hread : (k.pipe pipe).readPointer ≠ NULL := by
    rw [h.read]
    exact h.readPointer_ne
  have hfree : k.char (k.pipe pipe).readPointer = 0 := by
    rw [h.read]
    exact h.ring.read_free_iff.mpr rfl
  rw [readFromPipe, hget, ok_bind] at hrun
  split at hrun
  · obtain rfl := Except.ok.inj hrun
    exact h
  · rw [load_of_ne h.pipe_ne, ok_bind, load_of_ne hread, ok_bind, if_pos hfree] at hrun
    obtain ⟨pid, -, hrun⟩ := bind_eq_ok.mp hrun
    obtain ⟨pthread, -, hrun⟩ := bind_eq_ok.mp hrun
    exact h.statesOnly (.blockThread hrun)

theorem Kernel.PipeHolds.writeToPipe_returns {V : View} {p : ProcessView}
    (h : k.PipeHolds pipe r w xs) (hr : Rep k V) (hok : V.Ok) (hp : p ∈ V.table)
    (hget : Returns (getPipe · k name) pipe) (hpid : Returns (getReceiverPid · k name) p.val.pid)
    (hbuff : buff ≠ NULL) (hstr : k.IsString buff str)
    (hapart : k.Apart pipe buff (str.length + 1)) :
    ∃ k', Returns (writeToPipe · k name buff) k' := by
  obtain ⟨m, k', hm, hret⟩ := h.sendChars_returns hr hok hp hbuff hstr hapart
  refine ⟨k', Fuel.Returns.bind hget ?_⟩
  simp only [if_neg (not_or.mpr ⟨h.pipe_ne, hbuff⟩)]
  exact Fuel.Returns.bind hpid ⟨⟨m, fun fuel hle => hm fuel fuel hle hle⟩, fun fuel => hret fuel fuel⟩

end Calls

/-! ## Runs

The accepted and the delivered bytes are carried along beside the kernel, and the pipe holds their
difference. -/

/-- A pipe in use, with the bytes that its writes have accepted so far and those that its reads
have delivered. -/
structure PipeLog where
  kernel : Kernel
  accepted : List UInt8
  delivered : List UInt8

/-- The state behind `createPipe`. -/
def PipeLog.Created (pipe : Addr) (s : PipeLog) : Prop :=
  ∃ fuel k fromPid toPid, createPipe fuel k fromPid toPid = .ok (pipe, s.kernel) ∧
    s.accepted = [] ∧ s.delivered = []

/-- A write of a C string, a read, or anything else that leaves the pipe alone. A write accepts as
many characters of its string as the pipe has more afterwards, a read delivers as many bytes to
`buff` as the pipe has less. -/
inductive PipeStep (pipe : Addr) : PipeLog → PipeLog → Prop
  | write {fuel : Nat} {k k' : Kernel} {name buff : Addr} {str accepted delivered : List UInt8} :
      getPipe fuel k name = .ok pipe → buff ≠ NULL → k.IsString buff str →
      k.Apart pipe buff (str.length + 1) → writeToPipe fuel k name buff = .ok k' →
      PipeStep pipe ⟨k, accepted, delivered⟩
        ⟨k', accepted ++ str.take ((k'.stored pipe).length - (k.stored pipe).length), delivered⟩
  | read {fuel : Nat} {k k' : Kernel} {name buff : Addr} {accepted delivered : List UInt8} :
      getPipe fuel k name = .ok pipe → buff ≠ NULL → k.Apart pipe buff (k.stored pipe).length →
      readFromPipe fuel k name buff = .ok k' →
      PipeStep pipe ⟨k, accepted, delivered⟩
        ⟨k', accepted, delivered ++ k'.bytes buff ((k.stored pipe).length - (k'.stored pipe).length)⟩
  | other {k k' : Kernel} {accepted delivered : List UInt8} : k'.pipe pipe = k.pipe pipe →
      (∀ i, i < PIPE_BUF_SIZE →
        k'.char ((k.pipe pipe).buffer + i) = k.char ((k.pipe pipe).buffer + i)) →
      PipeStep pipe ⟨k, accepted, delivered⟩ ⟨k', accepted, delivered⟩

/-- What holds at every moment. The last two fields say that calls end: a read that finds bytes
always, a write when the receiver of the pipe exists. -/
structure PipeLog.Fifo (pipe : Addr) (s : PipeLog) : Prop where
  conserved : s.accepted = s.delivered ++ s.kernel.stored pipe
  accepts : ∀ {fuel : Nat} {k' : Kernel} {name buff : Addr} {str : List UInt8},
    getPipe fuel s.kernel name = .ok pipe → buff ≠ NULL → s.kernel.IsString buff str →
    s.kernel.Apart pipe buff (str.length + 1) → writeToPipe fuel s.kernel name buff = .ok k' →
    k'.stored pipe = s.kernel.stored pipe
      ++ str.take (min str.length (PIPE_BUF_SIZE - (s.kernel.stored pipe).length))
  delivers : ∀ {fuel : Nat} {k' : Kernel} {name buff : Addr}, s.kernel.stored pipe ≠ [] →
    getPipe fuel s.kernel name = .ok pipe → buff ≠ NULL →
    s.kernel.Apart pipe buff (s.kernel.stored pipe).length →
    readFromPipe fuel s.kernel name buff = .ok k' →
    k'.stored pipe = [] ∧
      k'.bytes buff (s.kernel.stored pipe).length = s.kernel.stored pipe
  reads : ∀ {name buff : Addr}, s.kernel.stored pipe ≠ [] →
    Returns (getPipe · s.kernel name) pipe → buff ≠ NULL →
    s.kernel.Apart pipe buff (s.kernel.stored pipe).length →
    ∃ k', Returns (readFromPipe · s.kernel name buff) k'
  writes : ∀ {V : View} {p : ProcessView} {name buff : Addr} {str : List UInt8}, Rep s.kernel V →
    V.Ok → p ∈ V.table → Returns (getPipe · s.kernel name) pipe →
    Returns (getReceiverPid · s.kernel name) p.val.pid → buff ≠ NULL → s.kernel.IsString buff str →
    s.kernel.Apart pipe buff (str.length + 1) →
    ∃ k', Returns (writeToPipe · s.kernel name buff) k'

/-- The invariant of the runs: the accepted bytes that were not delivered are in the ring. -/
def PipeLog.Kept (pipe : Addr) (s : PipeLog) : Prop :=
  ∃ r w xs, s.kernel.PipeHolds pipe r w xs ∧ s.accepted = s.delivered ++ xs

theorem PipeLog.Created.kept {s : PipeLog} (h : s.Created pipe) : s.Kept pipe := by
  obtain ⟨fuel, k, fromPid, toPid, hcreate, haccepted, hdelivered⟩ := h
  refine ⟨0, 0, [], createPipe_holds hcreate, ?_⟩
  rw [haccepted, hdelivered]
  rfl

theorem PipeLog.Kept.step {s s' : PipeLog} (h : s.Kept pipe) (hstep : PipeStep pipe s s') :
    s'.Kept pipe := by
  obtain ⟨r, w, xs, hholds, hlog⟩ := h
  -- One case for each step; the log grows by what the contents of the pipe say.
  cases hstep with
  -- What is accepted is the growth of the contents.
  | write hget hbuff hstr hapart hrun =>
      obtain ⟨w', h'⟩ := hholds.writeToPipe_inv hget hbuff hstr hapart hrun
      refine ⟨r, w', _, h', ?_⟩
      show _ ++ List.take _ _ = _
      rw [h'.stored_eq, hholds.stored_eq, List.length_append, Nat.add_sub_cancel_left,
        List.length_take, ← List.append_assoc, ← hlog, ← List.take_eq_take_min]
  | read hget hbuff hapart hrun =>
      rw [hholds.stored_eq] at hapart
      -- An empty pipe delivers nothing, another one all it holds.
      cases xs with
      | nil =>
          have h' := hholds.readFromPipe_empty hget hrun
          refine ⟨r, w, [], h', ?_⟩
          rw [hholds.stored_eq, h'.stored_eq]
          simpa [Kernel.bytes] using hlog
      | cons x xs =>
          obtain ⟨r', h', hbytes⟩ := hholds.readFromPipe_inv hget hbuff hapart hrun
          refine ⟨r', w, [], h', ?_⟩
          rw [hholds.stored_eq, h'.stored_eq, List.length_nil, Nat.sub_zero, hbytes,
            List.append_nil]
          exact hlog
  | other hpipe hcells => exact ⟨r, w, xs, hholds.congr hpipe hcells, hlog⟩

theorem PipeLog.Kept.fifo {s : PipeLog} (h : s.Kept pipe) : s.Fifo pipe := by
  obtain ⟨r, w, xs, hholds, hlog⟩ := h
  have hstored := hholds.stored_eq
  -- A pipe with contents has a first byte, which the lemmas on reading want.
  have hcons : s.kernel.stored pipe ≠ [] → ∃ y ys, xs = y :: ys := by
    rw [hstored]
    exact List.exists_cons_of_ne_nil
  constructor
  case conserved => rw [hstored, hlog]
  case accepts =>
    intro fuel k' name buff str hget hbuff hstr hapart hrun
    obtain ⟨w', h'⟩ := hholds.writeToPipe_inv hget hbuff hstr hapart hrun
    rw [h'.stored_eq, hstored, min_comm, ← List.take_eq_take_min]
  case delivers =>
    intro fuel k' name buff hne hget hbuff hapart hrun
    obtain ⟨y, ys, rfl⟩ := hcons hne
    rw [hstored] at hapart ⊢
    obtain ⟨r', h', hbytes⟩ := hholds.readFromPipe_inv hget hbuff hapart hrun
    exact ⟨h'.stored_eq, hbytes⟩
  case reads =>
    intro name buff hne hget hbuff hapart
    obtain ⟨y, ys, rfl⟩ := hcons hne
    rw [hstored] at hapart
    obtain ⟨k', -, hret, -⟩ := hholds.readFromPipe_returns hget hbuff hapart
    exact ⟨k', hret⟩
  case writes =>
    intro V p name buff str hr hok hp hget hpid hbuff hstr hapart
    exact hholds.writeToPipe_returns hr hok hp hget hpid hbuff hstr hapart

/-- Pipes are queues: at every moment of every sequence of writes and reads, the accepted bytes are
the delivered ones followed by the stored ones. -/
theorem pipe_fifo {s : PipeLog} (h : Reachable (PipeLog.Created pipe) (PipeStep pipe) s) :
    s.Fifo pipe :=
  (h.invariant (I := PipeLog.Kept pipe) (fun _ hs => hs.kept) fun _ _ _ hkept hstep =>
    hkept.step hstep).fifo

/-! ## A message through a pipe

The user's memory lies far behind the buffer of the pipe, so that no store of the one touches the other.
-/

theorem Kernel.apart_of_le {p : Addr} (n : Nat) (h : (k.pipe pipe).buffer + PIPE_BUF_SIZE ≤ p) :
    k.Apart pipe p n := by
  intro i _ j hj heq
  have hlt : (k.pipe pipe).buffer + j < (k.pipe pipe).buffer + PIPE_BUF_SIZE :=
    Nat.add_lt_add_left hj _
  exact absurd (heq ▸ Nat.le_trans h (Nat.le_add_right p i)) (Nat.not_le.mpr hlt)

/-- The memory behind `bound` was written, the pipe and the memory in front of it were not. -/
theorem PipeStep.userWrites {s : PipeLog} {k' : Kernel} {bound : Addr}
    (hle : (s.kernel.pipe pipe).buffer + PIPE_BUF_SIZE ≤ bound)
    (hpipe : k'.pipe pipe = s.kernel.pipe pipe)
    (hchar : ∀ p, p < bound → k'.char p = s.kernel.char p) :
    PipeStep pipe s { s with kernel := k' } :=
  .other hpipe fun _ hi => hchar _ (Nat.lt_of_lt_of_le (Nat.add_lt_add_left hi _) hle)

/-- A pipe from process `0` to process `1`, and a user's memory with the message `hi`. The message is
sent and read, and then its second letter is sent alone. -/
def exchange : Except Stop (Addr × Kernel × Kernel × Kernel × Kernel × Kernel) := do
  let (pipe, k) ← createPipe 2 (← startKernel) 0 1
  let name := (k.pipe pipe).name
  let k₁ := { k with
    pipeList := pipe
    char := Function.update (Function.update k.char 0x20000000 104) 0x20000001 105 }
  let k₂ ← writeToPipe 40 k₁ name 0x20000000
  let k₃ ← readFromPipe 40 k₂ name 0x30000000
  let k₄ ← writeToPipe 40 k₃ name 0x20000001
  return (pipe, k, k₁, k₂, k₃, k₄)

/-- The pipe is found each time, and lies in front of the message. -/
def exchangeChecks (pipe : Addr) (k k₁ k₂ k₃ : Kernel) : Bool :=
  let name := (k.pipe pipe).name
  decide ((k.pipe pipe).buffer + PIPE_BUF_SIZE ≤ 0x20000000 ∧
    ((k₂.pipe pipe).buffer = (k.pipe pipe).buffer ∧ (k₃.pipe pipe).buffer = (k.pipe pipe).buffer) ∧
    (getPipe 40 k₁ name = .ok pipe ∧ getPipe 40 k₂ name = .ok pipe ∧ getPipe 40 k₃ name = .ok pipe) ∧
    (k₁.char 0x20000000 = 104 ∧ k₁.char 0x20000001 = 105 ∧ k₁.char 0x20000002 = 0) ∧
    k₃.char 0x20000001 = 105 ∧ k₃.char 0x20000002 = 0)

theorem exchange_checks : (do
    let r ← exchange
    let (pipe, k, k₁, k₂, k₃, _) := r
    return exchangeChecks pipe k k₁ k₂ k₃ : Except Stop Bool) = .ok true := by
  decide +kernel

/-- Of the three bytes that were accepted two were delivered, and the last one is in the pipe. -/
theorem pipe_fifo_after_exchange : ∃ (pipe : Addr) (s : PipeLog),
    Reachable (PipeLog.Created pipe) (PipeStep pipe) s ∧ s.accepted = [104, 105, 105] ∧
      s.delivered = [104, 105] ∧ s.kernel.stored pipe = [105] ∧ s.Fifo pipe := by
  obtain ⟨r, hr, h⟩ := bind_eq_ok.mp exchange_checks
  rw [exchange] at hr
  obtain ⟨k₀, -, hr⟩ := bind_eq_ok.mp hr
  obtain ⟨⟨pipe, k⟩, hcreate, hr⟩ := bind_eq_ok.mp hr
  dsimp only at hr
  obtain ⟨k₂, hwrite, hr⟩ := bind_eq_ok.mp hr
  obtain ⟨k₃, hread, hr⟩ := bind_eq_ok.mp hr
  obtain ⟨k₄, hagain, hr⟩ := bind_eq_ok.mp hr
  obtain rfl := Except.ok.inj hr
  have hchecks := Except.ok.inj h
  unfold exchangeChecks at hchecks
  have hchecks := of_decide_eq_true hchecks
  generalize hk₁ : ({ k with
    pipeList := pipe
    char := Function.update (Function.update k.char 0x20000000 104) 0x20000001 105 } : Kernel) = k₁
    at hwrite hchecks
  obtain ⟨hle, ⟨hb₂, hb₃⟩, ⟨hget₁, hget₂, hget₃⟩, ⟨hh, hi, hend⟩, hi₃, hend₃⟩ := hchecks
  have hpipe₁ : k₁.pipe = k.pipe := by rw [← hk₁]
  have hchar₁ : ∀ p, p < 0x20000000 → k₁.char p = k.char p := by
    intro p hp
    rw [← hk₁]
    dsimp only
    rw [Function.update_of_ne (Nat.ne_of_lt (Nat.lt_succ_of_lt hp)),
      Function.update_of_ne (Nat.ne_of_lt hp)]
  -- the message is written to memory, sent, read and sent again in part
  have hcreated : Reachable (PipeLog.Created pipe) (PipeStep pipe) ⟨k, [], []⟩ :=
    .start ⟨2, k₀, 0, 1, hcreate, rfl, rfl⟩
  have hholds : k₁.PipeHolds pipe 0 0 [] :=
    (createPipe_holds hcreate).congr (congrFun hpipe₁ pipe) fun i hi =>
      hchar₁ _ (Nat.lt_of_lt_of_le (Nat.add_lt_add_left hi _) hle)
  have hstr : k₁.IsString 0x20000000 [104, 105] := ⟨hh, by decide, hi, by decide, hend⟩
  have hstr₃ : k₃.IsString 0x20000001 [105] := ⟨hi₃, by decide, hend₃⟩
  have hapart₁ : k₁.Apart pipe 0x20000000 3 := Kernel.apart_of_le _ (by rwa [hpipe₁])
  have hapart₂ : k₂.Apart pipe 0x30000000 2 :=
    Kernel.apart_of_le _ (by rw [hb₂]; exact Nat.le_trans hle (by decide))
  have hapart₃ : k₃.Apart pipe 0x20000001 2 :=
    Kernel.apart_of_le _ (by rw [hb₃]; exact Nat.le_trans hle (by decide))
  obtain ⟨w₂, h₂⟩ := hholds.writeToPipe_inv hget₁ (by decide) hstr hapart₁ hwrite
  obtain ⟨r₃, h₃, hbytes⟩ := h₂.readFromPipe_inv hget₂ (by decide) hapart₂ hread
  obtain ⟨w₄, h₄⟩ := h₃.writeToPipe_inv hget₃ (by decide) hstr₃ hapart₃ hagain
  have hstored₂ : k₂.stored pipe = [104, 105] := h₂.stored_eq
  have hstored₄ : k₄.stored pipe = [105] := h₄.stored_eq
  have hreach := (((hcreated.next
    (PipeStep.userWrites hle (congrFun hpipe₁ pipe) hchar₁)).next
    (PipeStep.write hget₁ (by decide) hstr hapart₁ hwrite)).next
    (PipeStep.read hget₂ (by decide) (by rw [hstored₂]; exact hapart₂) hread)).next
    (PipeStep.write hget₃ (by decide) hstr₃ hapart₃ hagain)
  refine ⟨pipe, _, hreach, ?_, ?_, hstored₄, pipe_fifo hreach⟩
  · show ([] ++ _) ++ _ = _
    rw [hstored₂, hholds.stored_eq, hstored₄, h₃.stored_eq]
    rfl
  · show [] ++ k₃.bytes 0x30000000 _ = _
    rw [hstored₂, h₃.stored_eq]
    exact hbytes

end BasicKernel
