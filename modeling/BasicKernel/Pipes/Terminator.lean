import BasicKernel.Pipes.Fifo

set_option autoImplicit false

/-! # The string that a read delivers

`readFromPipe` ends with a store of the terminator through the read pointer of the pipe, where the
caller's buffer was meant. What the buffer holds behind the bytes is what it held before.

`pipe_read_string_iff` says for which buffers the delivered bytes are a string, and
`read_keeps_old_message` is a buffer that still holds the end of an older message.
-/

namespace BasicKernel

open Fuel RingBuffer Transition

variable {k k' : Kernel} {pipe : Addr} {fuel r w : Nat} {xs : List UInt8} {name buff : Addr}

/-- Bytes are a string if and only if a terminator follows them and none is among them. -/
theorem Kernel.isString_bytes_iff (k : Kernel) (p : Addr) (n : Nat) :
    k.IsString p (k.bytes p n) ↔ 0 ∉ k.bytes p n ∧ k.char (p + n) = 0 := by
  induction n generalizing p with
  | zero => simp [Kernel.bytes, Kernel.IsString]
  | succ n ih =>
      have hnext : p + 1 + n = p + (n + 1) := by rw [Nat.add_assoc, Nat.add_comm 1 n]
      rw [Kernel.bytes_succ, Kernel.IsString, ih, hnext, List.mem_cons, not_or]
      constructor
      · rintro ⟨-, hne, hbytes, hend⟩
        exact ⟨⟨Ne.symm hne, hbytes⟩, hend⟩
      · rintro ⟨⟨hne, hbytes⟩, hend⟩
        exact ⟨rfl, Ne.symm hne, hbytes, hend⟩

theorem PipeLog.Kept.of_reachable {s : PipeLog}
    (h : Reachable (PipeLog.Created pipe) (PipeStep pipe) s) : s.Kept pipe :=
  h.invariant (fun _ hs => hs.kept) fun _ _ _ hkept hstep => hkept.step hstep

theorem PipeLog.Kept.readFromPipe_isString_iff {s : PipeLog} (h : s.Kept pipe)
    (hne : s.kernel.stored pipe ≠ []) (hget : Returns (getPipe · s.kernel name) pipe)
    (hbuff : buff ≠ NULL) (hapart : s.kernel.Apart pipe buff (PIPE_BUF_SIZE + 1)) :
    ∃ k', Returns (readFromPipe · s.kernel name buff) k' ∧
      (k'.IsString buff (s.kernel.stored pipe) ↔
        s.kernel.char (buff + (s.kernel.stored pipe).length) = 0) := by
  obtain ⟨r, w, xs, hholds, -⟩ := h
  rw [hholds.stored_eq] at hne ⊢
  obtain ⟨x, xs, rfl⟩ := List.exists_cons_of_ne_nil hne
  have hlen : (x :: xs).length ≤ PIPE_BUF_SIZE := hholds.ring.length_le
  obtain ⟨k', r', hret, -, hbytes, hframe⟩ := hholds.readFromPipe_returns hget hbuff
    fun i hi j hj => hapart i (by omega) j hj
  refine ⟨k', hret, ?_⟩
  -- the byte behind the delivered ones is neither in the pipe nor one of them
  have hend : k'.char (buff + (x :: xs).length) = s.kernel.char (buff + (x :: xs).length) := by
    apply hframe
    · exact fun j hj => hapart _ (by omega) j hj
    · exact fun i hi heq => absurd (Nat.add_left_cancel heq) (Nat.ne_of_gt hi)
  have hiff := k'.isString_bytes_iff buff (x :: xs).length
  rw [hbytes, hend] at hiff
  rw [hiff]
  exact and_iff_right hholds.ring.ne_free

/-- A read from a pipe that is not empty delivers the stored bytes as a string if and only if the
caller's buffer held a terminator behind them before. -/
theorem pipe_read_string_iff {s : PipeLog} (h : Reachable (PipeLog.Created pipe) (PipeStep pipe) s)
    (hne : s.kernel.stored pipe ≠ []) (hget : Returns (getPipe · s.kernel name) pipe)
    (hbuff : buff ≠ NULL) (hapart : s.kernel.Apart pipe buff (PIPE_BUF_SIZE + 1)) :
    ∃ k', Returns (readFromPipe · s.kernel name buff) k' ∧
      (k'.IsString buff (s.kernel.stored pipe) ↔
        s.kernel.char (buff + (s.kernel.stored pipe).length) = 0) :=
  (PipeLog.Kept.of_reachable h).readFromPipe_isString_iff hne hget hbuff hapart

/-! ### A buffer that was used before -/

theorem equalName_self {p : Addr} {str : List UInt8} (hp : p ≠ NULL) (h : k.IsString p str) :
    Returns (equalName · k p p) true := by
  induction str generalizing p with
  | nil =>
      refine Returns.succ rfl (fun fuel => ?_) (.const _ _)
      have hend : k.char p = 0 := h
      simp [equalName, hp, hend]
  | cons c str ih =>
      refine Returns.succ rfl (fun fuel => ?_) (ih (Nat.succ_ne_zero p) h.2.2)
      simp [equalName, hp, h.1, h.2.1]

/-- The first pipe of the list is found by its name. -/
theorem getPipe_first {str : List UInt8} (hlist : k.pipeList = pipe) (hpipe : pipe ≠ NULL)
    (hname : (k.pipe pipe).name ≠ NULL) (h : k.IsString (k.pipe pipe).name str) :
    Returns (getPipe · k (k.pipe pipe).name) pipe := by
  obtain ⟨⟨n, hn⟩, hequal⟩ := equalName_self hname h
  have hfound : ∀ fuel, equalName (fuel + 1) k (k.pipe pipe).name (k.pipe pipe).name = .ok true →
      getPipe (fuel + 1) k (k.pipe pipe).name = .ok pipe := by
    intro fuel hfuel
    simp [getPipe, hlist, Linked.walkWhile, hpipe, hfuel]
  have hlate : ∀ fuel, equalName (fuel + 1) k (k.pipe pipe).name (k.pipe pipe).name
      = .error .outOfFuel → getPipe (fuel + 1) k (k.pipe pipe).name = .error .outOfFuel := by
    intro fuel hfuel
    simp [getPipe, hlist, Linked.walkWhile, hpipe, hfuel]
  refine ⟨⟨n + 1, fun fuel hle => ?_⟩, fun fuel => ?_⟩
  · obtain ⟨fuel, rfl⟩ : ∃ m, fuel = m + 1 := ⟨fuel - 1, by omega⟩
    exact hfound fuel (hn _ (by omega))
  · cases fuel with
    | zero => exact .inr rfl
    | succ fuel => exact (hequal (fuel + 1)).imp (hfound fuel) (hlate fuel)

/-- A pipe from process `0` to process `1`, and a user's memory with the message `a` and a buffer that
holds another message. Then the message is sent. -/
def sentMessage : Except Stop (Addr × Kernel × Kernel × Kernel) := do
  let (pipe, k) ← createPipe 2 (← startKernel) 0 1
  let k₁ := { k with
    pipeList := pipe
    char := Function.update (Function.update k.char 0x20000000 97) 0x30000001 98 }
  let k₂ ← writeToPipe 40 k₁ (k.pipe pipe).name 0x20000000
  return (pipe, k, k₁, k₂)

/-- The memory around the message. -/
def sentMessageChecks (pipe : Addr) (k k₁ k₂ : Kernel) : Bool :=
  let name := (k.pipe pipe).name
  decide ((k.pipe pipe).buffer + PIPE_BUF_SIZE ≤ 0x20000000 ∧
    (k₁.char 0x20000000 = 97 ∧ k₁.char 0x20000001 = 0 ∧ getPipe 40 k₁ name = .ok pipe) ∧
    (k₂.pipeList = pipe ∧ pipe ≠ NULL ∧ name ≠ NULL ∧ (k₂.pipe pipe).name = name ∧
      (k₂.pipe pipe).buffer = (k.pipe pipe).buffer) ∧
    (k₂.char name = 45 ∧ k₂.char (name + 1) = 49 ∧ k₂.char (name + 2) = 0) ∧
    k₂.char (0x30000000 + 1) = 98 ∧ k₂.char (0x40000000 + 1) = 0)

theorem sentMessage_checks : (do
    let r ← sentMessage
    let (pipe, k, k₁, k₂) := r
    return sentMessageChecks pipe k k₁ k₂ : Except Stop Bool) = .ok true := by
  decide +kernel

/-- The message is in the pipe. One buffer was used before, another was not. -/
theorem sentMessage_reachable : ∃ (pipe : Addr) (s : PipeLog) (name usedBuffer freshBuffer : Addr),
    Reachable (PipeLog.Created pipe) (PipeStep pipe) s ∧ s.kernel.stored pipe = [97] ∧
      Returns (getPipe · s.kernel name) pipe ∧
      (usedBuffer ≠ NULL ∧ s.kernel.Apart pipe usedBuffer (PIPE_BUF_SIZE + 1) ∧
        s.kernel.char (usedBuffer + 1) = 98) ∧
      freshBuffer ≠ NULL ∧ s.kernel.Apart pipe freshBuffer (PIPE_BUF_SIZE + 1) ∧
        s.kernel.char (freshBuffer + 1) = 0 := by
  -- The calls of the script, one after the other.
  obtain ⟨r, hr, h⟩ := bind_eq_ok.mp sentMessage_checks
  rw [sentMessage] at hr
  obtain ⟨k₀, -, hr⟩ := bind_eq_ok.mp hr
  obtain ⟨⟨pipe, k⟩, hcreate, hr⟩ := bind_eq_ok.mp hr
  dsimp only at hr
  obtain ⟨k₂, hwrite, hr⟩ := bind_eq_ok.mp hr
  obtain rfl := Except.ok.inj hr
  have hchecks := Except.ok.inj h
  unfold sentMessageChecks at hchecks
  have hchecks := of_decide_eq_true hchecks
  generalize hk₁ : ({ k with
    pipeList := pipe
    char := Function.update (Function.update k.char 0x20000000 97) 0x30000001 98 } : Kernel) = k₁
    at hwrite hchecks
  obtain ⟨hle, ⟨hmsg, hmsgEnd, hget⟩, ⟨hlist, hpipe, hname, hname₂, hbuffer⟩, ⟨hc0, hc1, hc2⟩,
    hused, hunused⟩ := hchecks
  -- the user's memory is behind the pipe
  have hcells : ∀ i, i < PIPE_BUF_SIZE →
      k₁.char ((k.pipe pipe).buffer + i) = k.char ((k.pipe pipe).buffer + i) := by
    intro i hi
    have hlt : (k.pipe pipe).buffer + i < 0x20000000 :=
      Nat.lt_of_lt_of_le (Nat.add_lt_add_left hi _) hle
    rw [← hk₁]
    dsimp only
    rw [Function.update_of_ne, Function.update_of_ne]
    · exact Nat.ne_of_lt hlt
    · exact Nat.ne_of_lt (Nat.lt_trans hlt (by decide))
  have hpipe₁ : k₁.pipe = k.pipe := by rw [← hk₁]
  -- The stores of the user leave the new pipe empty, and the message is then accepted as a whole.
  have hholds : k₁.PipeHolds pipe 0 0 [] :=
    (createPipe_holds hcreate).congr (congrFun hpipe₁ pipe) hcells
  have hstr : k₁.IsString 0x20000000 [97] := ⟨hmsg, by decide, hmsgEnd⟩
  have hapart : k₁.Apart pipe 0x20000000 ([97] : List UInt8).length.succ :=
    Kernel.apart_of_le _ (by rw [hpipe₁]; exact hle)
  obtain ⟨w', h₂⟩ := hholds.writeToPipe_inv hget (by decide) hstr hapart hwrite
  have hreach : Reachable (PipeLog.Created pipe) (PipeStep pipe)
      ⟨k₂, [] ++ List.take ((k₂.stored pipe).length - (k₁.stored pipe).length) [97], []⟩ :=
    ((Reachable.start ⟨2, k₀, 0, 1, hcreate, rfl, rfl⟩).next
      (.other (congrFun hpipe₁ pipe) hcells)).next (.write hget (by decide) hstr hapart hwrite)
  -- A buffer further up is clear of the pipe.
  have hlater : ∀ p, 0x20000000 ≤ p → k₂.Apart pipe p (PIPE_BUF_SIZE + 1) := by
    intro p hp
    apply Kernel.apart_of_le
    rw [hbuffer]
    exact Nat.le_trans hle hp
  have hfind : Returns (getPipe · k₂ (k₂.pipe pipe).name) pipe := by
    have hstr₂ : k₂.IsString (k₂.pipe pipe).name [45, 49] := by
      rw [hname₂]
      exact ⟨hc0, by decide, hc1, by decide, hc2⟩
    exact getPipe_first hlist hpipe (by rw [hname₂]; exact hname) hstr₂
  exact ⟨pipe, _, _, 0x30000000, 0x40000000, hreach, h₂.stored_eq, hfind,
    ⟨by decide, hlater _ (by decide), hused⟩, by decide, hlater _ (by decide), hunused⟩

/-- The buffer that was used before holds more than the message. -/
theorem read_keeps_old_message : ¬ ∀ (pipe : Addr) (s : PipeLog) (name buff : Addr) (xs : List UInt8),
    Reachable (PipeLog.Created pipe) (PipeStep pipe) s → s.kernel.stored pipe = xs → xs ≠ [] →
    Returns (getPipe · s.kernel name) pipe → buff ≠ NULL →
    s.kernel.Apart pipe buff (PIPE_BUF_SIZE + 1) →
    ∃ k', Returns (readFromPipe · s.kernel name buff) k' ∧ k'.IsString buff xs := by
  intro hclaim
  obtain ⟨pipe, s, name, buff, -, hreach, hstored, hget, ⟨hbuff, hapart, hused⟩, -⟩ :=
    sentMessage_reachable
  have hne : s.kernel.stored pipe ≠ [] := by
    rw [hstored]
    exact List.cons_ne_nil _ _
  obtain ⟨k', hret, hstring⟩ :=
    hclaim pipe s name buff [97] hreach hstored (List.cons_ne_nil _ _) hget hbuff hapart
  have hkept := PipeLog.Kept.of_reachable hreach
  obtain ⟨k₁, hret₁, hiff⟩ := hkept.readFromPipe_isString_iff hne hget hbuff hapart
  obtain ⟨fuel, hrun⟩ := hret.exists_fuel
  obtain rfl := hret₁.eq hrun
  rw [hstored, List.length_singleton, hused] at hiff
  exact absurd (hiff.mp hstring) (by decide)

/-- The buffer that was not used before holds the message. -/
theorem pipe_read_string_fresh : ∃ (pipe : Addr) (s : PipeLog) (name buff : Addr) (k' : Kernel),
    Reachable (PipeLog.Created pipe) (PipeStep pipe) s ∧ s.kernel.stored pipe = [97] ∧
    Returns (readFromPipe · s.kernel name buff) k' ∧ k'.IsString buff [97] := by
  obtain ⟨pipe, s, name, -, buff, hreach, hstored, hget, -, hbuff, hapart, hunused⟩ :=
    sentMessage_reachable
  have hne : s.kernel.stored pipe ≠ [] := by
    rw [hstored]
    exact List.cons_ne_nil _ _
  obtain ⟨k', hret, hiff⟩ := pipe_read_string_iff hreach hne hget hbuff hapart
  rw [hstored, List.length_singleton] at hiff
  exact ⟨pipe, s, name, buff, k', hreach, hstored, hret, hiff.mpr hunused⟩

end BasicKernel
