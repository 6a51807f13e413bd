import BasicKernel.View.Registry

set_option autoImplicit false

/-! # Pipes

What the functions of `pipefs.c` change outside the pipes: a write wakes the threads of the
receiver that wait for a pipe, a read of an empty pipe blocks a thread of the receiver.
-/

namespace BasicKernel

open Linked Keyed Fuel

/-- The waiting threads of the process `pid` are woken, any number of times. -/
inductive WakeReceiver (pid : Int) : View → View → Prop
  | nil (V : View) : WakeReceiver pid V V
  | cons {V V' : View} {p : ProcessView} : p ∈ V.table → p.val.pid = pid →
      WakeReceiver pid (V.set p (p.unblockAll .T_BLOCKED_PIPE)) V' → WakeReceiver pid V V'

/-- A read from the pipe finds no character. -/
def Kernel.PipeEmpty (k : Kernel) (name buff : Addr) : Prop :=
  ∃ fuel pipe, getPipe fuel k name = .ok pipe ∧ pipe ≠ NULL ∧ buff ≠ NULL ∧
    load k.char (k.pipe pipe).readPointer = .ok 0

/-- What a call of `createPipe` that returned has done. A node at the null pointer would have stopped
the first store. -/
theorem createPipe_cases {k k' : Kernel} {fuel : Nat} {fromPid toPid : Int} {pipe : Addr}
    (h : createPipe fuel k fromPid toPid = .ok (pipe, k')) :
    ∃ name buffer k₁ k₂ k₃ k₄ k₅, pipe ≠ NULL ∧
      k.allocate PIPE_NODE_SIZE = .ok (pipe, k₁) ∧ k₁.allocate NAME_SIZE = .ok (name, k₂) ∧
      createName fuel
          { k₂ with pipe := Function.update k₂.pipe pipe { k₂.pipe pipe with name := name } }
          fromPid toPid name = .ok k₃ ∧
      k₃.allocate PIPE_BUF_SIZE = .ok (buffer, k₄) ∧
      clearBuffer buffer PIPE_BUF_SIZE
          { k₄ with pipe := Function.update k₄.pipe pipe { k₄.pipe pipe with buffer := buffer } }
          0 = .ok k₅ ∧
      k' = { k₅ with
        pipe := Function.update k₅.pipe pipe
          { k₅.pipe pipe with readPointer := buffer, writePointer := buffer } } := by
  obtain ⟨⟨p, k₁⟩, h₁, h⟩ := bind_eq_ok.mp h
  obtain ⟨⟨name, k₂⟩, h₂, h⟩ := bind_eq_ok.mp h
  obtain ⟨k₃, h₃, h⟩ := bind_eq_ok.mp h
  obtain ⟨k₄, h₄, h⟩ := bind_eq_ok.mp h
  obtain ⟨⟨buffer, k₅⟩, h₅, h⟩ := bind_eq_ok.mp h
  obtain ⟨k₆, h₆, h⟩ := bind_eq_ok.mp h
  obtain ⟨k₇, h₇, h⟩ := bind_eq_ok.mp h
  obtain ⟨k₈, h₈, h⟩ := bind_eq_ok.mp h
  obtain ⟨k₉, h₉, h⟩ := bind_eq_ok.mp h
  obtain ⟨rfl, rfl⟩ := Prod.mk.inj (Except.ok.inj h)
  have hne : p ≠ NULL := by
    rintro rfl
    rw [Kernel.modifyPipe, modify_null] at h₃
    cases h₃
  rw [Kernel.modifyPipe_of_ne hne] at h₃ h₆ h₈ h₉
  obtain rfl := Except.ok.inj h₃
  obtain rfl := Except.ok.inj h₆
  obtain rfl := Except.ok.inj h₈
  obtain rfl := Except.ok.inj h₉
  refine ⟨name, buffer, k₁, k₂, k₄, k₅, k₇, hne, h₁, h₂, h₄, h₅, h₇, ?_⟩
  simp only [Function.update_idem, Function.update_self]

namespace Rep

variable {k k' : Kernel} {V : View} {fuel : Nat}

/-! ## Stores into pipes

A pipe is outside of the view, and a store into one is no change of it. -/

theorem allocated (hr : Rep k V) {size : Nat} {p : Addr} (hsize : 1 ≤ size ∧ size < 2 ^ 31)
    (h : k.allocate size = .ok (p, k')) : Rep k' V := by
  obtain ⟨ho, hk'⟩ := hr.owns.allocate_inv hsize h
  exact hr.unseen (by rw [Unseen, hk']) ho

theorem setChar (hr : Rep k V) {p : Addr} {c : UInt8} (h : k.setChar p c = .ok k') : Rep k' V := by
  obtain ⟨char, rfl⟩ := Kernel.setChar_inv h
  exact hr.unseen rfl hr.owns

theorem withPipes (hr : Rep k V) (pipe : Addr → PipeNode) : Rep { k with pipe := pipe } V :=
  hr.unseen rfl hr.owns

theorem modifyPipe (hr : Rep k V) {p : Addr} {f : PipeNode → PipeNode}
    (h : k.modifyPipe p f = .ok k') : Rep k' V := by
  obtain ⟨pipe, -, h⟩ := bind_eq_ok.mp h
  obtain rfl := Except.ok.inj h
  exact hr.withPipes pipe

theorem writeDigits {str : Addr} : ∀ {n : Nat} {k : Kernel} {value : Int}, Rep k V →
    BasicKernel.writeDigits str n k value = .ok k' → Rep k' V := by
  intro n
  induction n with
  | zero =>
      intro k value hr h
      obtain rfl := Except.ok.inj h
      exact hr
  | succ n ih =>
      intro k value hr h
      obtain ⟨k₁, hset, h⟩ := bind_eq_ok.mp h
      exact ih (hr.setChar hset) h

theorem itoa (hr : Rep k V) {value length : Int} {str : Addr}
    (h : BasicKernel.itoa fuel k value str = .ok (length, k')) : Rep k' V := by
  obtain ⟨l, -, h⟩ := bind_eq_ok.mp h
  have hrest : ∀ {k₁}, Rep k₁ V → (do
      let k ← k₁.setChar (str + l.toNat) 0
      let k ← BasicKernel.writeDigits str l.toNat k value
      pure (l, k)) = .ok (length, k') → Rep k' V := by
    intro k₁ hr₁ h
    obtain ⟨k₂, h₂, h⟩ := bind_eq_ok.mp h
    obtain ⟨k₃, h₃, h⟩ := bind_eq_ok.mp h
    obtain ⟨-, rfl⟩ := Prod.mk.inj (Except.ok.inj h)
    exact (hr₁.setChar h₂).writeDigits h₃
  dsimp only at h
  split at h
  · obtain ⟨k₀, h₀, h⟩ := bind_eq_ok.mp h
    obtain ⟨k₁, h₁, h⟩ := bind_eq_ok.mp h
    exact hrest ((hr.setChar h₀).setChar h₁) h
  · exact hrest hr h

theorem createName (hr : Rep k V) {fromPid toPid : Int} {name : Addr}
    (h : BasicKernel.createName fuel k fromPid toPid name = .ok k') : Rep k' V := by
  obtain ⟨⟨i, k₁⟩, h₁, h⟩ := bind_eq_ok.mp h
  obtain ⟨k₂, h₂, h⟩ := bind_eq_ok.mp h
  obtain ⟨⟨j, k₃⟩, h₃, h⟩ := bind_eq_ok.mp h
  obtain rfl := Except.ok.inj h
  exact ((hr.itoa h₁).setChar h₂).itoa h₃

theorem clearBuffer {buffer : Addr} : ∀ {n : Nat} {k : Kernel} {i : Nat}, Rep k V →
    BasicKernel.clearBuffer buffer n k i = .ok k' → Rep k' V := by
  intro n
  induction n with
  | zero =>
      intro k i hr h
      obtain rfl := Except.ok.inj h
      exact hr
  | succ n ih =>
      intro k i hr h
      obtain ⟨k₁, hset, h⟩ := bind_eq_ok.mp h
      exact ih (hr.setChar hset) h

theorem createPipe (hr : Rep k V) {fromPid toPid : Int} {pipe : Addr}
    (h : BasicKernel.createPipe fuel k fromPid toPid = .ok (pipe, k')) : Rep k' V := by
  obtain ⟨name, buffer, k₁, k₂, k₃, k₄, k₅, -, h₁, h₂, hname, h₄, hclear, rfl⟩ := createPipe_cases h
  have hr₂ := (hr.allocated (by decide) h₁).allocated (by decide) h₂
  have hr₄ := ((hr₂.withPipes _).createName hname).allocated (by decide) h₄
  exact ((hr₄.withPipes _).clearBuffer hclear).withPipes _

/-- The recursion of `addPipeToList` stores into pipes only, whatever the list looks like. -/
theorem addPipeToList {pipe : Addr} : ∀ {n : Nat} {k k' : Kernel} {list r : Addr}, Rep k V →
    BasicKernel.addPipeToList n k list pipe = .ok (r, k') → Rep k' V := by
  intro n
  induction n with
  | zero =>
      intro k k' list r _ h
      cases h
  | succ n ih =>
      intro k k' list r hr h
      rw [BasicKernel.addPipeToList, addLast] at h
      split at h
      · obtain ⟨-, rfl⟩ := Prod.mk.inj (Except.ok.inj h)
        exact hr
      · obtain ⟨⟨next, k₁⟩, h₁, h⟩ := bind_eq_ok.mp h
        obtain ⟨-, rfl⟩ := Prod.mk.inj (Except.ok.inj h)
        have hr₁ := ih hr h₁
        exact hr₁.unseen rfl hr₁.owns

/-- `do_pipe` changes no process, no thread and no lock. -/
theorem do_pipe (hr : Rep k V) {fromPid toPid : Int} {name : Addr}
    (h : BasicKernel.do_pipe fuel k fromPid toPid = .ok (name, k')) : Rep k' V := by
  obtain ⟨⟨pipe, k₁⟩, h₁, h⟩ := bind_eq_ok.mp h
  obtain ⟨⟨list, k₂⟩, h₂, h⟩ := bind_eq_ok.mp h
  obtain ⟨p, -, h⟩ := bind_eq_ok.mp h
  obtain ⟨-, rfl⟩ := Prod.mk.inj (Except.ok.inj h)
  have hr₂ := (hr.createPipe h₁).addPipeToList h₂
  exact hr₂.unseen rfl hr₂.owns

/-! ## Transfer

The two loops touch a thread or a process only through the two scheduler functions that they
call. -/

theorem sendChars_inv {pipe : Addr} {pid : Int} : ∀ {n : Nat} {k : Kernel} {V : View} {buff : Addr},
    Rep k V → V.Ok → BasicKernel.sendChars fuel pipe pid n k buff = .ok k' →
    ∃ V', WakeReceiver pid V V' ∧ Rep k' V' ∧ V'.Ok := by
  intro n
  -- on the bytes that are left; only the wake-up in the middle is seen in the view
  induction n with
  | zero =>
      intro k V buff _ _ h
      cases h
  | succ n ih =>
      intro k V buff hr hok h
      obtain ⟨c, -, h⟩ := bind_eq_ok.mp h
      split at h
      · obtain rfl := Except.ok.inj h
        exact ⟨V, .nil V, hr, hok⟩
      obtain ⟨p, -, h⟩ := bind_eq_ok.mp h
      obtain ⟨slot, -, h⟩ := bind_eq_ok.mp h
      -- the buffer is full, and the call returns
      split at h
      · obtain rfl := Except.ok.inj h
        exact ⟨V, .nil V, hr, hok⟩
      obtain ⟨k₁, h₁, h⟩ := bind_eq_ok.mp h
      obtain ⟨k₂, h₂, h⟩ := bind_eq_ok.mp h
      obtain ⟨k₃, h₃, h⟩ := bind_eq_ok.mp h
      obtain ⟨k₄, h₄, h⟩ := bind_eq_ok.mp h
      have hr₂ := (hr.setChar h₁).modifyPipe h₂
      obtain ⟨q, hq, hpid, hr₃⟩ := hr₂.unblockAllThreads_inv hok h₃
      obtain ⟨V', hwake, hr', hok'⟩ := ih (hr₃.modifyPipe h₄) (hr₂.ok_unblockAll hok hq _) h
      exact ⟨V', .cons hq hpid hwake, hr', hok'⟩

/-- A write to a pipe wakes threads of the receiver. -/
theorem writeToPipe_inv (hr : Rep k V) (hok : V.Ok) {name buff : Addr}
    (h : BasicKernel.writeToPipe fuel k name buff = .ok k') :
    ∃ V', (V' = V ∨ ∃ pid, getReceiverPid fuel k name = .ok pid ∧ WakeReceiver pid V V') ∧
      Rep k' V' ∧ V'.Ok := by
  obtain ⟨pipe, -, h⟩ := bind_eq_ok.mp h
  split at h
  · obtain rfl := Except.ok.inj h
    exact ⟨V, .inl rfl, hr, hok⟩
  · obtain ⟨pid, hpid, h⟩ := bind_eq_ok.mp h
    obtain ⟨V', hwake, hr', hok'⟩ := hr.sendChars_inv hok h
    exact ⟨V', .inr ⟨pid, hpid, hwake⟩, hr', hok'⟩

theorem receiveChars {pipe : Addr} : ∀ {n : Nat} {k : Kernel} {buff : Addr}, Rep k V →
    BasicKernel.receiveChars pipe n k buff = .ok k' → Rep k' V := by
  intro n
  induction n with
  | zero =>
      intro k buff _ h
      cases h
  | succ n ih =>
      intro k buff hr h
      obtain ⟨p, -, h⟩ := bind_eq_ok.mp h
      obtain ⟨c, -, h⟩ := bind_eq_ok.mp h
      obtain ⟨k₁, h₁, h⟩ := bind_eq_ok.mp h
      obtain ⟨k₂, h₂, h⟩ := bind_eq_ok.mp h
      obtain ⟨k₃, h₃, h⟩ := bind_eq_ok.mp h
      obtain ⟨k₄, h₄, h⟩ := bind_eq_ok.mp h
      obtain ⟨q, -, h⟩ := bind_eq_ok.mp h
      have hr₄ := (((hr.setChar h₁).setChar h₂).modifyPipe h₃).modifyPipe h₄
      split at h
      · exact ih hr₄ h
      · exact hr₄.setChar h

/-- A read from an empty pipe blocks the thread of the receiver that has the number of the
current thread. -/
theorem readFromPipe_inv (hr : Rep k V) (hok : V.Ok) {name buff : Addr}
    (h : BasicKernel.readFromPipe fuel k name buff = .ok k') :
    Rep k' V ∨ k.PipeEmpty name buff ∧ ∃ pid pthread, getReceiverPid fuel k name = .ok pid ∧
      BasicKernel.getCurrentPthread k = .ok pthread ∧
      ∃ p ∈ V.table, ∃ t ∈ p.threads, p.val.pid = pid ∧ t.val.pthread = pthread ∧
        Rep k' (V.block p t.addr .T_BLOCKED_PIPE) ∧ (V.block p t.addr .T_BLOCKED_PIPE).Ok := by
  obtain ⟨pipe, hget, h⟩ := bind_eq_ok.mp h
  split at h
  · obtain rfl := Except.ok.inj h
    exact .inl hr
  rename_i hfound
  obtain ⟨hpipe, hbuff⟩ := not_or.mp hfound
  obtain ⟨p, hp, h⟩ := bind_eq_ok.mp h
  obtain ⟨c, hc, h⟩ := bind_eq_ok.mp h
  split at h
  · rename_i hzero
    have hload : k.pipe pipe = p := Except.ok.inj ((load_of_ne hpipe).symm.trans hp)
    have hempty : k.PipeEmpty name buff :=
      ⟨fuel, pipe, hget, hpipe, hbuff, by rw [hload, hc, hzero]⟩
    obtain ⟨pid, hpid, h⟩ := bind_eq_ok.mp h
    obtain ⟨pthread, hpthread, h⟩ := bind_eq_ok.mp h
    obtain ⟨q, hq, t, ht, hqpid, htpthread, hr'⟩ := hr.blockThread_inv hok h
    exact .inr ⟨hempty, pid, pthread, hpid, hpthread, q, hq, t, ht, hqpid, htpthread, hr',
      hr.ok_block hok hq t.addr rfl⟩
  · exact .inl (hr.receiveChars h)

end Rep

end BasicKernel
