import BasicKernel.Pipes.Names

set_option autoImplicit false

/-! # What the pipe calls leave alone

`writeToPipe` and `readFromPipe` move the pointers of one pipe. The list of pipes, the names and the
other pipes stay, and so does memory outside the buffer and the string that is read or delivered.

The frames are what makes a call on one pipe harmless to the others. `Pipes/Queues.lean` and
`Userland/TestPipes.lean` use them.
-/

namespace BasicKernel

open Linked Fuel RingBuffer

variable {k k' k₁ k₂ : Kernel} {pipe : Addr} {fuel r w : Nat} {name buff : Addr} {pid : Int}
  {c x : UInt8} {xs str : List UInt8}

/-! ## The table of pipes

What the search for a name reads. A call that leaves it alone finds the same pipes as before. -/

/-- The list of pipes and the allocator are the same, and of one pipe only the two pointers differ. -/
structure Kernel.SameTable (k k' : Kernel) (pipe : Addr) : Prop where
  memory : k'.memory = k.memory
  list : k'.pipeList = k.pipeList
  other : ∀ q, q ≠ pipe → k'.pipe q = k.pipe q
  next : (k'.pipe pipe).next = (k.pipe pipe).next
  name : (k'.pipe pipe).name = (k.pipe pipe).name
  buffer : (k'.pipe pipe).buffer = (k.pipe pipe).buffer

namespace Kernel.SameTable

theorem refl (k : Kernel) (pipe : Addr) : k.SameTable k pipe := ⟨rfl, rfl, fun _ _ => rfl, rfl, rfl, rfl⟩

theorem trans (h : k.SameTable k₁ pipe) (h' : k₁.SameTable k₂ pipe) : k.SameTable k₂ pipe where
  memory := h'.memory.trans h.memory
  list := h'.list.trans h.list
  other q hq := (h'.other q hq).trans (h.other q hq)
  next := h'.next.trans h.next
  name := h'.name.trans h.name
  buffer := h'.buffer.trans h.buffer

theorem statesOnly (h : k.StatesOnly k') : k.SameTable k' pipe := by
  obtain ⟨process, thread, ticks, rfl⟩ := h
  exact ⟨rfl, rfl, fun _ _ => rfl, rfl, rfl, rfl⟩

/-- The pointers of the pipe move. -/
theorem pointers {p : PipeNode} (hmemory : k'.memory = k.memory) (hlist : k'.pipeList = k.pipeList)
    (h : k'.pipe = Function.update k.pipe pipe p) (hnext : p.next = (k.pipe pipe).next)
    (hname : p.name = (k.pipe pipe).name) (hbuffer : p.buffer = (k.pipe pipe).buffer) :
    k.SameTable k' pipe where
  memory := hmemory
  list := hlist
  other q hq := by rw [h, Function.update_of_ne hq]
  next := by rw [h, Function.update_self, hnext]
  name := by rw [h, Function.update_self, hname]
  buffer := by rw [h, Function.update_self, hbuffer]

theorem names (h : k.SameTable k' pipe) (q : Addr) :
    (k'.pipe q).next = (k.pipe q).next ∧ (k'.pipe q).name = (k.pipe q).name := by
  by_cases hq : q = pipe
  · subst hq
    exact ⟨h.next, h.name⟩
  · rw [h.other q hq]
    exact ⟨rfl, rfl⟩

end Kernel.SameTable

theorem equalName_congr (h : k'.char = k.char) : ∀ (n : Nat) (p q : Addr),
    equalName n k' p q = equalName n k p q := by
  intro n
  induction n with
  | zero =>
      intro p q
      rfl
  | succ n ih =>
      intro p q
      simp only [equalName, h, ih]

/-- The search for a name reads the list, the names and the characters. -/
theorem getPipe_congr (hlist : k'.pipeList = k.pipeList)
    (hnames : ∀ q, (k'.pipe q).next = (k.pipe q).next ∧ (k'.pipe q).name = (k.pipe q).name)
    (hchar : k'.char = k.char) : getPipe fuel k' name = getPipe fuel k name := by
  have hnext : ∀ q : Addr, (do return (← load k'.pipe q).next : Except Stop Addr)
      = do return (← load k.pipe q).next := by
    intro q
    by_cases hq : q = NULL
    · rw [hq, load_null, load_null]
    · rw [load_of_ne hq, load_of_ne hq]
      exact congrArg Except.ok (hnames q).1
  simp only [getPipe, hlist, (hnames _).2, equalName_congr hchar, hnext]

/-! ## The loops -/

/-- The frame of one store of the loop of `writeToPipe`, with the scheduler call. -/
theorem Kernel.PipeHolds.sent_frame (h : k.PipeHolds pipe r w xs)
    (hstates : (k.putByte pipe c).StatesOnly k₁) (hmove : (k₁.modifyPipe pipe fun n =>
      { n with writePointer := pointerPosition n.writePointer n.buffer }) = .ok k₂) :
    k.SameTable k₂ pipe := by
  obtain ⟨process, thread, ticks, rfl⟩ := hstates
  rw [Kernel.modifyPipe_of_ne h.pipe_ne] at hmove
  obtain rfl := Except.ok.inj hmove
  have hnode : (k.putByte pipe c).pipe pipe = { k.pipe pipe with
      writePointer := (k.pipe pipe).writePointer + 1 } := Function.update_self ..
  refine .pointers rfl rfl (Function.update_idem _ _ k.pipe) ?_ ?_ ?_
  all_goals rw [hnode]

theorem Kernel.PipeHolds.sendChars_frame {n : Nat} (h : k.PipeHolds pipe r w xs)
    (hstr : k.IsString buff str) (hbuff : buff ≠ NULL) (hapart : k.Apart pipe buff (str.length + 1))
    (hrun : sendChars fuel pipe pid n k buff = .ok k') : k.SameTable k' pipe ∧
      ∀ a, (∀ j, j < PIPE_BUF_SIZE → a ≠ (k.pipe pipe).buffer + j) → k'.char a = k.char a := by
  -- The same induction as for the contents, with what each iteration leaves alone.
  induction str generalizing k w xs n buff with
  | nil =>
      cases n with
      | zero => cases hrun
      | succ n =>
          rw [sendChars_end hstr hbuff] at hrun
          obtain rfl := Except.ok.inj hrun
          exact ⟨.refl k pipe, fun _ _ => rfl⟩
  | cons c str ih =>
      cases n with
      | zero => cases hrun
      | succ n =>
          by_cases hroom : xs.length < PIPE_BUF_SIZE
          · rw [sendChars_succ h hstr hbuff hroom] at hrun
            -- The wake-up changes states of threads only, the store one cell of the buffer.
            obtain ⟨k₁, hwake, hrun⟩ := bind_eq_ok.mp hrun
            have hstates : (k.putByte pipe c).StatesOnly k₁ := .unblockAllThreads hwake
            obtain ⟨k₂, hk₂, h₂, hbuffer, hchar⟩ := h.sent hstr.2.1 hroom hstates
            rw [hk₂, ok_bind] at hrun
            obtain ⟨htable, hrest⟩ := ih h₂ (hstr.tail h.ring.write_lt hapart hchar)
              (Nat.succ_ne_zero buff) (hapart.tail hbuffer) hrun
            refine ⟨(h.sent_frame hstates hk₂).trans htable, fun a ha => ?_⟩
            rw [hrest a (by rwa [hbuffer]), hchar, Function.update_of_ne (ha w h.ring.write_lt)]
          · rw [sendChars_full h hbuff hroom] at hrun
            obtain rfl := Except.ok.inj hrun
            exact ⟨.refl k pipe, fun _ _ => rfl⟩

theorem Kernel.takeByte_sameTable (k : Kernel) (pipe buff : Addr) :
    k.SameTable (k.takeByte pipe buff) pipe := by
  have hpipe : (k.takeByte pipe buff).pipe = Function.update k.pipe pipe { k.pipe pipe with
      readPointer := pointerPosition ((k.pipe pipe).readPointer + 1) (k.pipe pipe).buffer } := rfl
  exact .pointers rfl rfl hpipe rfl rfl rfl

theorem Kernel.PipeHolds.receiveChars_frame {n : Nat} (h : k.PipeHolds pipe r w (x :: xs))
    (hbuff : buff ≠ NULL) (hapart : k.Apart pipe buff (x :: xs).length)
    (hrun : receiveChars pipe n k buff = .ok k') : k.SameTable k' pipe := by
  -- By induction on the bytes that are left, as for the contents.
  induction xs generalizing k r x buff n with
  | nil =>
      cases n with
      | zero => cases hrun
      | succ n =>
          have hout : ∀ j, j < PIPE_BUF_SIZE → buff ≠ (k.pipe pipe).buffer + j :=
            hapart 0 (Nat.zero_lt_succ _)
          obtain ⟨h₁, -, -⟩ := h.taken hout
          obtain ⟨k₂, hk₂, -, -⟩ := h₁.cleared
          have heq := (h₁.pointers_eq_iff h.ring.pos).mpr rfl
          rw [receiveChars_succ h hbuff, if_neg (not_not.mpr heq)] at hrun
          obtain ⟨char, rfl⟩ := Kernel.setChar_inv hrun
          exact (k.takeByte_sameTable pipe buff).trans ⟨rfl, rfl, fun _ _ => rfl, rfl, rfl, rfl⟩
  | cons y ys ih =>
      cases n with
      | zero => cases hrun
      | succ n =>
          have hout : ∀ j, j < PIPE_BUF_SIZE → buff ≠ (k.pipe pipe).buffer + j :=
            hapart 0 (Nat.zero_lt_succ _)
          obtain ⟨h₁, hbuffer, -⟩ := h.taken hout
          have hroom : (y :: ys).length < PIPE_BUF_SIZE := h.ring.length_le
          -- While a byte is left the pointers are apart.
          have hne := mt (h₁.pointers_eq_iff hroom).mp (List.cons_ne_nil y ys)
          rw [receiveChars_succ h hbuff, if_pos hne] at hrun
          exact (k.takeByte_sameTable pipe buff).trans
            (ih h₁ (Nat.succ_ne_zero buff) (hapart.tail hbuffer) hrun)

/-! ## The calls -/

theorem Kernel.PipeHolds.writeToPipe_frame (h : k.PipeHolds pipe r w xs)
    (hget : Returns (getPipe · k name) pipe) (hbuff : buff ≠ NULL) (hstr : k.IsString buff str)
    (hapart : k.Apart pipe buff (str.length + 1)) (hrun : writeToPipe fuel k name buff = .ok k') :
    (∃ w', k'.PipeHolds pipe r w' (xs ++ str.take (PIPE_BUF_SIZE - xs.length))) ∧
      k.SameTable k' pipe ∧
      ∀ a, (∀ j, j < PIPE_BUF_SIZE → a ≠ (k.pipe pipe).buffer + j) → k'.char a = k.char a := by
  obtain ⟨found, hfound, hsend⟩ := bind_eq_ok.mp hrun
  obtain rfl := hget.eq hfound
  refine ⟨h.writeToPipe_inv hfound hbuff hstr hapart hrun, ?_⟩
  rw [if_neg (not_or.mpr ⟨h.pipe_ne, hbuff⟩)] at hsend
  obtain ⟨pid, -, hsend⟩ := bind_eq_ok.mp hsend
  exact h.sendChars_frame hstr hbuff hapart hsend

/-- A read that finds bytes. -/
theorem Kernel.PipeHolds.readFromPipe_frame (h : k.PipeHolds pipe r w (x :: xs))
    (hget : Returns (getPipe · k name) pipe) (hbuff : buff ≠ NULL)
    (hapart : k.Apart pipe buff (x :: xs).length) (hrun : readFromPipe fuel k name buff = .ok k') :
    (∃ r', k'.PipeHolds pipe r' w []) ∧ k'.bytes buff (x :: xs).length = x :: xs ∧
      k.SameTable k' pipe ∧
      ∀ a, (∀ j, j < PIPE_BUF_SIZE → a ≠ (k.pipe pipe).buffer + j) →
        (∀ i, i < (x :: xs).length → a ≠ buff + i) → k'.char a = k.char a := by
  obtain ⟨found, hfound, -⟩ := bind_eq_ok.mp hrun
  obtain rfl := hget.eq hfound
  obtain ⟨k₁, r', hret, h', hbytes, hframe⟩ := h.readFromPipe_returns hget hbuff hapart
  obtain rfl := hret.eq hrun
  rw [h.readFromPipe_eq hbuff hfound] at hrun
  exact ⟨⟨r', h'⟩, hbytes, h.receiveChars_frame hbuff hapart hrun, hframe⟩

/-- A read that finds none changes no pipe and no byte. -/
theorem Kernel.PipeHolds.readFromPipe_statesOnly (h : k.PipeHolds pipe r w [])
    (hget : Returns (getPipe · k name) pipe) (hrun : readFromPipe fuel k name buff = .ok k') :
    k.StatesOnly k' := by
  obtain ⟨found, hfound, hread⟩ := bind_eq_ok.mp hrun
  obtain rfl := hget.eq hfound
  have hpointer : (k.pipe found).readPointer ≠ NULL := by
    rw [h.read]
    exact h.readPointer_ne
  have hfree : k.char (k.pipe found).readPointer = 0 := by
    rw [h.read]
    exact h.ring.read_free_iff.mpr rfl
  split at hread
  · obtain rfl := Except.ok.inj hread
    exact .refl k
  · rw [load_of_ne h.pipe_ne, ok_bind, load_of_ne hpointer, ok_bind, if_pos hfree] at hread
    obtain ⟨pid, -, hread⟩ := bind_eq_ok.mp hread
    obtain ⟨pthread, -, hread⟩ := bind_eq_ok.mp hread
    exact .blockThread hread

end BasicKernel
