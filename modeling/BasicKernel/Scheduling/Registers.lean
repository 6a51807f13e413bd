import BasicKernel.Kernel.Interruptions
import BasicKernel.Scheduling.Contexts

set_option autoImplicit false

/-! # Registers across context switches

The stack pointers that the kernel saves are those of the right threads (`Contexts.Kept`). Here the
memory they point to is added: the handlers of the timer and of `yield` push the registers of the
running thread on its stack and pop those of the thread they return to. Nothing protects a stack, so a
run is one in which nobody writes on the frame of a suspended thread.

`registers_kept` says for every such run that a thread that is returned to has all its registers,
among them the instruction pointer and the flags. What the handlers push and pop is followed in
`Kernel/Interruptions.lean`.
-/

namespace BasicKernel

open ByteMemory Keyed Fuel Transition

/-! ## Frames in memory

The words that `pushaq` and the processor leave on the stack of an interrupted thread, from the
saved stack pointer up. -/

/-- The frame of a suspended thread. -/
structure FrameAt (m : Memory) (a : Addr) (r : Registers) : Prop where
  bound : a + FRAME_BYTES ≤ 2 ^ 64
  holds : FrameHolds m (.ofNat a) r

theorem FrameAt.toNat {m : Memory} {a : Addr} {r : Registers} (h : FrameAt m a r) :
    (UInt64.ofNat a).toNat = a := by
  have hbound := h.bound
  unfold FRAME_BYTES at hbound
  exact UInt64.toNat_ofNat_of_lt (Nat.lt_of_lt_of_le (Nat.lt_add_of_pos_right (by decide)) hbound)

theorem FrameAt.congr {m m' : Memory} {a : Addr} {r : Registers} (h : FrameAt m a r)
    (hsame : SameOn a (a + FRAME_BYTES) m m') : FrameAt m' a r := by
  have ha := h.toNat
  refine ⟨h.bound, h.holds.congr ?_ ?_⟩
  · rw [ha]
    exact h.bound
  · rw [ha]
    exact hsame

/-- The frame of a thread that was never run, with the word behind it that no handler reads. -/
structure FirstFrameAt (m : Memory) (a : Addr) (f : StackFrame) : Prop where
  registers : FrameAt m a f.registers
  base : loadQuad m (.ofNat (a + FRAME_BYTES)) = .ofNat f.base

/-! ## Runs

The memory of the threads is added to the history of `Contexts`. The running thread may write
wherever it likes as long as the frames of the suspended threads stay as they are. -/

/-- The handlers that switch between threads. -/
inductive Handler where
  | tick
  | yield

namespace Handler

/-- What the handler does between saving and restoring the registers. -/
def call : Handler → Nat → Garbage → Kernel → Addr → Except Stop (Addr × Kernel)
  | tick => processSwitch
  | yield => yieldHandler

def leave : Handler → Processor → Processor
  | tick => Processor.tickReturn
  | yield => Processor.yieldReturn

/-- The registers of a thread that the handler returns to. -/
def restored : Handler → Registers → Registers
  | tick, r => { r with rax := r.rax / 256 * 256 + 0x20 }
  | yield, r => r

end Handler

/-- The kernel with the history of its interrupts, and the processor, which runs the thread
`contexts.running`. `last` has the registers that a thread was interrupted with, or those of its first
frame. -/
structure Execution where
  contexts : Contexts
  processor : Processor
  last : ThreadId → Registers

/-- `endLoadingKernel` has jumped into the first thread. The memory has the frames that `fillStackFrame`
stored for the others. -/
structure Execution.AtBoot (s : Execution) : Prop where
  contexts : s.contexts.AtBoot
  frames : ∀ τ v, s.contexts.kernel.HasThread τ v → τ ≠ s.contexts.running →
    FirstFrameAt s.processor.memory v.firstFrame (s.contexts.kernel.stackFrame v.firstFrame)
  last : ∀ τ v, s.contexts.kernel.HasThread τ v → τ ≠ s.contexts.running →
    s.last τ = (s.contexts.kernel.stackFrame v.firstFrame).registers

/-- The memory `m` has the frames of the suspended threads as they were. -/
def Execution.Keeps (s : Execution) (m : Memory) : Prop :=
  ∀ τ v, s.contexts.kernel.HasThread τ v → τ ≠ s.contexts.running →
    SameOn (s.contexts.saved τ) (s.contexts.saved τ + FRAME_BYTES) s.processor.memory m

/-- Where the handlers leave the frame of the running thread. -/
def Execution.frame (s : Execution) : Addr := s.processor.suspend.registers.rsp.toNat

/-- The frame of a thread that the creating system call makes. -/
def KernelOp.firstFrame : KernelOp → Addr → StackFrame
  | addProcess exec entryPoint _ => initialFrame exec entryPoint
  | addThread _ exec entryPoint => initialFrame exec entryPoint
  | _ => fun _ => default

/-- The running thread is interrupted and `handler` returns to a thread. `m` is the memory and `g` are
the registers when the handler has run its C code. -/
inductive Interrupted (handler : Handler) (s : Execution) : Execution → Prop
  | mk {k k' : Kernel} {fuel : Nat} {garbage : Garbage} {r : Addr} {τ : ThreadId} {m : Memory}
      {g : Registers} :
      Recycled s.contexts.kernel k → handler.call fuel garbage k s.frame = .ok (r, k') →
      k'.Current τ → FRAME_BYTES + 16 ≤ s.processor.registers.rsp.toNat → s.Keeps m →
      SameOn s.frame (s.frame + FRAME_BYTES) s.processor.suspend.memory m →
      Interrupted handler s
        { contexts := ⟨k', τ, Function.update s.contexts.saved s.contexts.running s.frame, r⟩
          processor := handler.leave { registers := { g with rsp := .ofNat r }, memory := m }
          last := Function.update s.last s.contexts.running s.processor.registers }

/-- One event of a run in which nothing is killed. The running thread computes, calls the kernel, or is
interrupted. -/
inductive ExecutionStep (s : Execution) : Execution → Prop
  | interrupted {handler : Handler} {s' : Execution} : Interrupted handler s s' → ExecutionStep s s'
  | compute {m : Memory} {g : Registers} :
      s.Keeps m → ExecutionStep s { s with processor := { registers := g, memory := m } }
  | create {k k' : Kernel} {op : KernelOp} {fuel : Nat} {saved : ThreadId → Addr}
      {last : ThreadId → Registers} {m : Memory} {g : Registers} :
      Recycled s.contexts.kernel k → op.Creates → SoundAlive k op → op.run fuel k = .ok k' →
      (∀ τ v, k.HasThread τ v → saved τ = s.contexts.saved τ ∧ last τ = s.last τ) →
      (∀ τ v, k'.HasThread τ v → (∀ w, ¬ k.HasThread τ w) →
        saved τ = v.firstFrame ∧ last τ = (op.firstFrame v.firstFrame).registers) →
      s.Keeps m →
      -- the memory has the frames that `fillStackFrame` stored
      (∀ τ v, k'.HasThread τ v → (∀ w, ¬ k.HasThread τ w) →
        FirstFrameAt m v.firstFrame (k'.stackFrame v.firstFrame)) →
      ExecutionStep s
        { contexts := ⟨k', s.contexts.running, saved, s.contexts.resumed⟩
          processor := { registers := g, memory := m }, last }
  | other {k' : Kernel} {m : Memory} {g : Registers} :
      KernelStep (fun k op => SoundAlive k op ∧ op.KeepsContexts) s.contexts.kernel k' → s.Keeps m →
      ExecutionStep s { s with contexts := { s.contexts with kernel := k' }
                               processor := { registers := g, memory := m } }

/-- Every suspended thread has its registers in the frame that its saved stack pointer points to. -/
structure Execution.Kept (s : Execution) (V : View) : Prop where
  contexts : s.contexts.Kept V
  frames : ∀ x ∈ V.savedStacks, x.1 ≠ s.contexts.running →
    FrameAt s.processor.memory (s.contexts.saved x.1) (s.last x.1)

section Steps

variable {k k' : Kernel} {V V' : View} {s s' : Execution} {handler : Handler} {τ : ThreadId}
  {m : Memory} {fuel : Nat} {op : KernelOp}

theorem Rep.hasThread_of_savedStacks (hr : Rep k V) (hok : V.Ok) {x : ThreadId × Addr}
    (hx : x ∈ V.savedStacks) : ∃ v, k.HasThread x.1 v := by
  obtain ⟨p, hp, t, ht, rfl⟩ := View.mem_savedStacks.mp hx
  exact ⟨t.val, (hr.hasThread_iff hok).mpr ⟨p, hp, t, ht, rfl, rfl⟩⟩

/-- A memory that keeps the frames has the registers of every suspended thread. -/
theorem Execution.Kept.frame (h : s.Kept V) (hm : s.Keeps m) {x : ThreadId × Addr}
    (hx : x ∈ V.savedStacks) (hne : x.1 ≠ s.contexts.running) :
    FrameAt m (s.contexts.saved x.1) (s.last x.1) := by
  obtain ⟨v, hv⟩ := h.contexts.rep.hasThread_of_savedStacks h.contexts.ok hx
  exact (h.frames x hx hne).congr (hm x.1 v hv hne)

theorem Execution.AtBoot.kept (h : s.AtBoot) : ∃ V, s.Kept V := by
  obtain ⟨V, hV⟩ := h.contexts.kept
  refine ⟨V, hV, fun x hx hne => ?_⟩
  obtain ⟨v, hv⟩ := hV.rep.hasThread_of_savedStacks hV.ok hx
  rw [h.contexts.saved _ _ hv, h.last _ _ hv hne]
  exact (h.frames _ _ hv hne).registers

/-- What `main` leaves on the stack of a thread is the frame that `fillStackFrame` builds. -/
theorem Booted.firstFrame (h : Booted k) {v : ThreadNode} (hv : k.HasThread τ v) :
    ∃ exec entryPoint, k.stackFrame v.firstFrame = initialFrame exec entryPoint v.firstFrame := by
  obtain ⟨V, hr, hok, hboot, hframed⟩ := h.rep_framed
  obtain ⟨p, hp, t, ht, -, rfl⟩ := (hr.hasThread_iff hok).mp hv
  rw [← hboot.firstFrame hp ht]
  exact hframed p hp t ht

/-- The frame that the handlers push is that of the running thread. -/
theorem Execution.frameAt (s : Execution) (hroom : FRAME_BYTES + 16 ≤ s.processor.registers.rsp.toNat)
    (hm : SameOn s.frame (s.frame + FRAME_BYTES) s.processor.suspend.memory m) :
    FrameAt m s.frame s.processor.registers := by
  obtain ⟨hholds, heq, -⟩ := Processor.suspend_frame hroom
  have hle := heq.le.trans (Nat.sub_le _ _)
  have hlt := s.processor.registers.rsp.toNat_lt
  have hframe : FrameAt s.processor.suspend.memory s.frame s.processor.registers := by
    refine ⟨hle.trans hlt.le, ?_⟩
    rw [Execution.frame, UInt64.ofNat_toNat]
    exact hholds
  exact hframe.congr hm

/-- What the scheduler leaves suspended, other than the thread that was running, was suspended before. -/
theorem Contexts.Kept.suspended_before {s : Contexts} (h : s.Kept V) {c : ProcessView} {t : ThreadView}
    (hc : c ∈ V.table) (ht : t ∈ c.threads) (hccur : c.node = V.current)
    (htcur : t.lib = c.val.currentThread) {rsp : Addr}
    (hstacks : ∀ x ∈ V'.savedStacks, x ∈ (V.set c (c.saveStack t.addr rsp)).savedStacks)
    {x : ThreadId × Addr} (hx : x ∈ V'.savedStacks) (hne : x.1 ≠ s.running) : x ∈ V.savedStacks := by
  have hrunning : s.running = (c.val.pid, t.val.pthread) :=
    h.rep.current_unique h.ok h.running ⟨c, hc, t, ht, hccur, htcur, rfl⟩
  rcases h.rep.savedStacks_saveStack h.ok hc ht (hstacks x hx) with ⟨hmem, -⟩ | rfl
  · exact hmem
  · exact absurd hrunning.symm hne

/-- Both handlers save the stack pointer of the running thread and let the scheduler choose. -/
theorem Contexts.Kept.interrupt {s : Contexts} (h : s.Kept V) {garbage : Garbage} {rsp r : Addr}
    (hrec : Recycled s.kernel k) (hcall : handler.call fuel garbage k rsp = .ok (r, k'))
    (hcur : k'.Current τ) : ∃ V', Contexts.Kept ⟨k', τ, Function.update s.saved s.running rsp, r⟩ V' ∧
      ∀ x ∈ V'.savedStacks, x.1 ≠ s.running → x ∈ V.savedStacks := by
  have hr := h.rep.recycled hrec
  cases handler with
  | tick =>
      have hs : Sound k (.tick garbage rsp) := SoundAlive.sound hr h.alive trivial
      obtain ⟨c, hc, t, ht, hccur, htcur, V', hsched, hr', hok', hresumed⟩ :=
        hr.processSwitch_inv h.ok (hr.reapable_of_tick hs) hcall
      have halive' := hr.alive_effect (.tick hc ht hccur htcur hsched) hs not_false h.alive
      obtain ⟨k₁, -, hr₁⟩ := hr.saveStack hc hccur ht htcur rsp
      have hstacks := fun x (hx : x ∈ V'.savedStacks) => hsched.savedStacks hr₁.queue.nodup hx
      exact ⟨V', h.switch hc ht hccur htcur hr' hok' halive' hcur hstacks hresumed,
        fun x hx hne => h.suspended_before hc ht hccur htcur hstacks hx hne⟩
  | yield =>
      have hs : Sound k (.yield garbage rsp) := SoundAlive.sound hr h.alive trivial
      obtain ⟨c, hc, t, ht, hccur, htcur, V', hyield, hr', hok', hresumed⟩ :=
        hr.yieldHandler_inv h.ok (hr.reapable_of_yield hs) hcall
      have halive' := hr.alive_effect (.yield hc ht hccur htcur hyield) hs not_false h.alive
      obtain ⟨k₁, -, hr₁⟩ := hr.saveStack hc hccur ht htcur rsp
      have hstacks := fun x (hx : x ∈ V'.savedStacks) => hyield.savedStacks hr₁ (View.mem_set hc _) hx
      exact ⟨V', h.switch hc ht hccur htcur hr' hok' halive' hcur hstacks hresumed,
        fun x hx hne => h.suspended_before hc ht hccur htcur hstacks hx hne⟩

/-- An interrupt leaves the frame of every suspended thread, and that of the resumed one, in memory. -/
theorem Execution.Kept.interrupted (h : s.Kept V) (hi : Interrupted handler s s') :
    (∃ V', s'.Kept V') ∧
      s'.processor.registers = handler.restored (s'.last s'.contexts.running) := by
  obtain @⟨k, k', fuel, garbage, r, τ, m, g, hrec, hcall, hcur, hroom, hkeeps, hsame⟩ := hi
  obtain ⟨V', hV', hbefore⟩ := h.contexts.interrupt hrec hcall hcur
  have hown := s.frameAt hroom hsame
  -- the frame that belongs to a thread, wherever it was suspended
  have hframe : ∀ x ∈ V'.savedStacks, FrameAt m
      (Function.update s.contexts.saved s.contexts.running s.frame x.1)
      (Function.update s.last s.contexts.running s.processor.registers x.1) := by
    intro x hx
    by_cases hrunning : x.1 = s.contexts.running
    · rw [hrunning, Function.update_self, Function.update_self]
      exact hown
    · rw [Function.update_of_ne hrunning, Function.update_of_ne hrunning]
      exact h.frame hkeeps (hbefore x hx hrunning) hrunning
  -- either handler pops what it pushed, on whatever stack it returns to
  have hleave : ∀ r₀ : Registers, FrameAt m r r₀ →
      handler.leave { registers := { g with rsp := .ofNat r }, memory := m } =
        { registers := handler.restored r₀, memory := m } := by
    intro r₀ hr₀
    cases handler with
    | tick => exact Processor.tickReturn_frame g hr₀.holds
    | yield => exact Processor.yieldReturn_frame g hr₀.holds
  obtain ⟨a, -, hmem⟩ := hV'.rep.switchKernelToUser hV'.running
  have hresumed : r = Function.update s.contexts.saved s.contexts.running s.frame τ := hV'.resumed
  have hτ := hframe _ hmem
  rw [← hresumed] at hτ
  have hexit := hleave _ hτ
  refine ⟨⟨V', hV', fun x hx _ => ?_⟩, ?_⟩
  · show FrameAt (handler.leave _).memory _ _
    rw [hexit]
    exact hframe x hx
  · show (handler.leave _).registers = _
    rw [hexit]

/-- The frame of a thread that a system call made is the one that `fillStackFrame` builds. -/
theorem Rep.firstFrame_create (hr : Rep k V) (hok : V.Ok) (hop : op.Creates) (hs : Sound k op)
    (hrun : op.run fuel k = .ok k') {v : ThreadNode} (hv : k'.HasThread τ v)
    (hnew : ∀ w, ¬ k.HasThread τ w) :
    k'.stackFrame v.firstFrame = op.firstFrame v.firstFrame := by
  have hnone : ∀ p ∈ V.table, ∀ t ∈ p.threads, τ ≠ (p.val.pid, t.val.pthread) := fun p hp t ht heq =>
    hnew _ ((hr.hasThread_iff hok).mpr ⟨p, hp, t, ht, heq, rfl⟩)
  -- the two calls that make threads; their thread is the only one that was not there
  cases op with
  | addProcess exec entryPoint name =>
      obtain ⟨⟨r, k₁⟩, hcall, hk₁⟩ := bind_eq_ok.mp hrun
      obtain rfl : k₁ = k' := Except.ok.inj hk₁
      obtain ⟨a, _, _, _, _, l, ⟨m, hall⟩, -, -, -, -, hcases, -⟩ := hr.addProcess_cases hok hcall
      obtain ⟨p, -, -, -, hp, hframe, hr', hok'⟩ := hcases (.inl (hs a _ hall))
      obtain ⟨q, hq, t, ht, heq, rfl⟩ := (hr'.hasThread_iff hok').mp hv
      rcases mem_insertSecond.mp hq with rfl | hq
      · have hstack : t.val.userStack = t.val.firstFrame := (hp.thread ht).userStack
        rw [← hstack]
        exact hframe t ht
      · exact absurd heq (hnone q hq t ht)
  | addThread pid exec entryPoint =>
      obtain ⟨⟨r, k₁⟩, hcall, hk₁⟩ := bind_eq_ok.mp hrun
      obtain rfl : k₁ = k' := Except.ok.inj hk₁
      rcases hr.addThread_cases hok hcall with ⟨-, rfl⟩ | ⟨p, hp, -, u, hu, hframe, hr', hok'⟩
      · exact absurd hv (hnew v)
      · obtain ⟨q', hq', t, ht, heq, rfl⟩ := (hr'.hasThread_iff hok').mp hv
        obtain ⟨q, hq, rfl⟩ := List.mem_map.mp hq'
        split at ht
        case isTrue haddr =>
            obtain rfl := hr.eq_of_addr hq hp haddr
            simp only [if_true] at heq
            rcases mem_insertSecond.mp ht with rfl | ht
            · have hstack : t.val.userStack = t.val.firstFrame := hu.userStack
              rw [← hstack]
              exact hframe
            · exact absurd heq (hnone q hq t ht)
        case isFalse hne =>
            simp only [hne, if_false] at heq
            exact absurd heq (hnone q hq t ht)
  | _ => exact absurd hop not_false

theorem Execution.Kept.step (h : s.Kept V) (hstep : ExecutionStep s s') : ∃ V', s'.Kept V' := by
  cases hstep with
  -- the interrupts are the lemma above
  | interrupted hi => exact (h.interrupted hi).1
  | compute hkeeps => exact ⟨V, h.contexts, fun x hx hne => h.frame hkeeps hx hne⟩
  | @create k k' op fuel saved last m g hrec hop hs hrun hold hnew hkeeps hframes =>
      have hr := h.contexts.rep.recycled hrec
      obtain ⟨V', hV'⟩ := h.contexts.step (.create hrec hop hs hrun (fun τ v hv => (hold τ v hv).1)
        fun τ v hv hno => (hnew τ v hv hno).1)
      refine ⟨V', hV', fun x hx hne => ?_⟩
      obtain ⟨v, hv⟩ := hV'.rep.hasThread_of_savedStacks hV'.ok hx
      show FrameAt m (saved x.1) (last x.1)
      -- a thread that was there keeps its frame, a new one has the frame of `fillStackFrame`
      by_cases hthere : ∃ w, k.HasThread x.1 w
      · obtain ⟨w, hw⟩ := hthere
        obtain ⟨p, hp, t, ht, heq, -⟩ := (hr.hasThread_iff h.contexts.ok).mp hw
        have hmem : (x.1, t.val.userStack) ∈ V.savedStacks :=
          View.mem_savedStacks.mpr ⟨p, hp, t, ht, by rw [heq]⟩
        rw [(hold _ _ hw).1, (hold _ _ hw).2]
        exact h.frame (x := (x.1, t.val.userStack)) hkeeps hmem hne
      · have hno : ∀ w, ¬ k.HasThread x.1 w := fun w hw => hthere ⟨w, hw⟩
        have hfirst := hframes _ _ hv hno
        rw [hr.firstFrame_create h.contexts.ok hop (hs.sound hr h.contexts.alive) hrun hv hno] at hfirst
        rw [(hnew _ _ hv hno).1, (hnew _ _ hv hno).2]
        exact hfirst.registers
  -- the rest of the kernel runs on its own stack, so no frame of a thread changes
  | @other k' m g hstep hkeeps =>
      obtain ⟨k, op, fuel, hrec, ⟨hs, hop⟩, hrun⟩ := hstep
      have hr := h.contexts.rep.recycled hrec
      have hsound := hs.sound hr h.contexts.alive
      obtain ⟨V', heffect, hr', hok'⟩ := hr.run_inv h.contexts.ok hsound hrun
      have hsame := hr.sameContexts_effect heffect hop
      have hstacks : ∀ x ∈ V'.savedStacks, x ∈ V.savedStacks := fun x hx => hsame.savedStacks ▸ hx
      have halive' := hr.alive_effect heffect hsound hs.not_kills h.contexts.alive
      exact ⟨V', ⟨hr', hok', halive', hsame.currentThread h.contexts.running,
        fun x hx => h.contexts.suspended x (hstacks x hx), h.contexts.resumed⟩,
        fun x hx hne => h.frame hkeeps (hstacks x hx) hne⟩

end Steps

/-! ## Registers are kept

The invariant says that every suspended thread has its registers in its frame. What a handler pops
is the frame of the thread that it returns to. -/

/-- A thread that the scheduler returns to has the registers that it was interrupted with, or those of
the first frame, whatever ran in between; only the timer handler overwrites the lowest byte of `rax`. -/
theorem registers_kept {s s' : Execution} {handler : Handler}
    (h : Reachable Execution.AtBoot ExecutionStep s) (hi : Interrupted handler s s') :
    s'.processor.registers = handler.restored (s'.last s'.contexts.running) := by
  have hkept : ∃ V, s.Kept V := by
    apply Reachable.invariant (I := fun s => ∃ V, s.Kept V) _ _ h
    · exact fun s hs => hs.kept
    · rintro s s' - ⟨V, hV⟩ hstep
      exact hV.step hstep
  obtain ⟨V, hV⟩ := hkept
  exact (hV.interrupted hi).2

/-! ## There and back

The run of `thereAndBack` with its memory. `init` runs with the registers of `firstProcessor`, and the
shell changes them all before it yields. -/

theorem length_words (r : Registers) : r.words.length = 22 := rfl

/-- A memory that holds the frame of a thread that was never run. -/
theorem exists_firstFrame (m : Memory) (f : StackFrame) {a : Addr} (hbound : a + STACK_FRAME_SIZE < 2 ^ 64) :
    ∃ m', FirstFrameAt m' a f := by
  have hsize : STACK_FRAME_SIZE = FRAME_BYTES + 8 := by decide
  rw [hsize] at hbound
  have hfits : a + FRAME_BYTES < 2 ^ 64 := lt_of_le_of_lt (Nat.le_add_right _ 8) hbound
  have hlength : (f.registers.words ++ [UInt64.ofNat f.base]).length = 22 + 1 := by
    rw [List.length_append, length_words, List.length_singleton]
  obtain ⟨m', hwords⟩ := Processor.exists_loadQuads m (f.registers.words ++ [.ofNat f.base]) (a := a)
    (by rw [hlength]; exact hbound)
  have hnext : (UInt64.ofNat a).toNat + 8 * 22 = (UInt64.ofNat (a + FRAME_BYTES)).toNat := by
    have ha : a < 2 ^ 64 := lt_of_le_of_lt (Nat.le_add_right a _) hfits
    have heq : (UInt64.ofNat a).toNat = a := UInt64.toNat_ofNat_of_lt ha
    have heq' : (UInt64.ofNat (a + FRAME_BYTES)).toNat = a + FRAME_BYTES := UInt64.toNat_ofNat_of_lt hfits
    rw [heq, heq', FRAME_BYTES]
  rw [hlength, loadQuads_add m' hnext] at hwords
  obtain ⟨hregisters, hbase⟩ := List.append_inj' hwords (by rw [loadQuads, loadQuads]; simp)
  rw [loadQuads, loadQuads] at hbase
  exact ⟨m', ⟨hfits.le, hregisters⟩, (List.cons.inj hbase).1⟩

/-- What the shell leaves in the registers. -/
def secondRegisters : Registers := { zeroRegisters with rip := 0x500000, rsp := 0x9000 }

theorem startKernel_initMem : (match startKernel with
    | .ok k => decide (0x1000000 ≤ k.memory.initMem)
    | .error _ => false) = true := by
  decide +kernel

theorem Owns.bounds {m : MemoryManager} {bs : List (Nat × Nat)} (h : Owns m bs) {b : Nat × Nat}
    (hb : b ∈ bs) : m.initMem ≤ b.1 ∧ b.1 < 2 ^ 64 := by
  obtain ⟨live, hc, hlive⟩ := h.live
  have hvalid := hc.valid b (hlive b hb)
  have haligned : b.1 = m.initMem + firstBlock m b.1 * 4096 := hvalid.aligned
  have hinside : ((firstBlock m b.1 + sizeBlocks b.2 : Nat) : Int) ≤ m.blocksAmount := hvalid.inside
  have hregion : (m.initMem : Int) + m.blocksAmount * 4096 < 2 ^ 64 := hc.region.inside
  generalize firstBlock m b.1 = f at haligned hinside
  rw [haligned]
  exact ⟨Nat.le_add_right _ _, by push_cast at hinside; omega⟩

/-- The first frame of a thread lies above the stacks of this run. -/
theorem Rep.firstFrame_bounds {k : Kernel} {V : View} (hr : Rep k V) (hok : V.Ok)
    (hmem : 0x1000000 ≤ k.memory.initMem) {τ : ThreadId} {v : ThreadNode} (hv : k.HasThread τ v) :
    0x10000 ≤ v.firstFrame ∧ v.firstFrame + STACK_FRAME_SIZE < 2 ^ 64 := by
  obtain ⟨p, hp, t, ht, -, rfl⟩ := (hr.hasThread_iff hok).mp hv
  have hblock : (t.val.baseStack, STACK_SIZE) ∈ V.blocks :=
    mem_blocks hp (mem_blocks_of_thread ht (by simp [ThreadView.blocks]))
  obtain ⟨hlo, hhi⟩ := hr.owns.bounds hblock
  have hall : ∀ b : Nat, k.memory.initMem ≤ b → b < 2 ^ 64 →
      0x10000 ≤ b - 184 ∧ b - 184 + 184 < 2 ^ 64 := fun b _ _ => by omega
  exact hall _ hlo hhi

/-- The state after `main` with the frame of the shell in memory. -/
theorem exists_executionAtBoot {k : Kernel} (hstart : startKernel = .ok k) :
    ∃ s : Execution, s.AtBoot ∧ s.contexts.kernel = k ∧ s.contexts.running = (0, 0) ∧
      s.processor.registers = firstProcessor.registers ∧ (∀ τ, 0x10000 ≤ s.contexts.saved τ) ∧
      ∃ exec entryPoint frame, s.last (1, 0) = (initialFrame exec entryPoint frame).registers := by
  have hbooted := booted_of_start hstart
  obtain ⟨V, hr, hok, hboot⟩ := hbooted.rep
  have hcur := (hr.current_iff hok).mpr hboot.current_main
  obtain ⟨a, ha, -⟩ := hr.switchKernelToUser hboot.current_main
  have hmem : 0x1000000 ≤ k.memory.initMem := by
    have h := startKernel_initMem
    rw [hstart] at h
    exact of_decide_eq_true h
  obtain ⟨p, q, init, sample, htable, hp, hq, -⟩ := hboot.table
  obtain ⟨t, hts, ht, -⟩ := hp.threads
  obtain ⟨u, hus, hu, -⟩ := hq.threads
  have hfirst : k.HasThread (0, 0) t.val := (hr.hasThread_iff hok).mpr
    ⟨p, by simp [htable], t, by simp [hts], by rw [hp.pid, ht.pthread], rfl⟩
  have hsecond : k.HasThread (1, 0) u.val := (hr.hasThread_iff hok).mpr
    ⟨q, by simp [htable], u, by simp [hus], by rw [hq.pid, hu.pthread], rfl⟩
  -- there are no other threads
  have hthreads : ∀ τ v, k.HasThread τ v → τ = (0, 0) ∧ v = t.val ∨ τ = (1, 0) ∧ v = u.val := by
    intro τ v hv
    obtain ⟨p', hp', t', ht', rfl, rfl⟩ := (hr.hasThread_iff hok).mp hv
    rw [htable] at hp'
    rcases List.mem_pair.mp hp' with rfl | rfl
    · obtain rfl := List.mem_singleton.mp (hts ▸ ht')
      exact .inl ⟨by rw [hp.pid, ht.pthread], rfl⟩
    · obtain rfl := List.mem_singleton.mp (hus ▸ ht')
      exact .inr ⟨by rw [hq.pid, hu.pthread], rfl⟩
  obtain ⟨hlo, -⟩ := hr.firstFrame_bounds hok hmem hfirst
  obtain ⟨hlo', hhi'⟩ := hr.firstFrame_bounds hok hmem hsecond
  obtain ⟨m, hm⟩ := exists_firstFrame (fun _ => 0) (k.stackFrame u.val.firstFrame) hhi'
  obtain ⟨exec, entryPoint, hframe⟩ := hbooted.firstFrame hsecond
  let saved : ThreadId → Addr := fun τ => if τ = (0, 0) then t.val.firstFrame else u.val.firstFrame
  refine ⟨⟨⟨k, (0, 0), saved, a⟩, { registers := firstProcessor.registers, memory := m },
    fun _ => (k.stackFrame u.val.firstFrame).registers⟩, ⟨⟨hbooted, hcur, fun τ v hv => ?_, ha⟩,
      fun τ v hv hne => ?_, fun τ v hv hne => ?_⟩, rfl, rfl, rfl, fun τ => ?_,
    exec, entryPoint, u.val.firstFrame, by rw [hframe]⟩
  · rcases hthreads τ v hv with ⟨rfl, rfl⟩ | ⟨rfl, rfl⟩
    · rfl
    · rfl
  · rcases hthreads τ v hv with ⟨rfl, -⟩ | ⟨-, rfl⟩
    · exact absurd rfl hne
    · exact hm
  · rcases hthreads τ v hv with ⟨rfl, -⟩ | ⟨-, rfl⟩
    · exact absurd rfl hne
    · rfl
  · show 0x10000 ≤ if τ = (0, 0) then t.val.firstFrame else u.val.firstFrame
    split
    · exact hlo
    · exact hlo'

/-- An interrupt of a thread whose stack lies below `0x10000`, above the frames of the suspended threads
that have their stacks there too. -/
theorem interrupted_low (handler : Handler) (s : Execution) {fuel : Nat} {garbage : Garbage}
    {τ : ThreadId} {k' : Kernel} {a r : Addr}
    (hcall : handler.call fuel garbage s.contexts.kernel a = .ok (r, k')) (hcur : k'.Current τ)
    (hrsp : s.processor.registers.rsp.toNat = a + FRAME_BYTES) (haligned : (a + FRAME_BYTES) % 16 = 0)
    (ha : 16 ≤ a) (hlow : a + FRAME_BYTES ≤ 0x10000)
    (hsaved : ∀ σ, σ ≠ s.contexts.running → s.contexts.saved σ + FRAME_BYTES ≤ a ∨
      0x10000 ≤ s.contexts.saved σ) :
    ∃ s', Interrupted handler s s' ∧ s'.contexts.kernel = k' ∧ s'.contexts.running = τ ∧
      s'.contexts.saved = Function.update s.contexts.saved s.contexts.running a ∧
      s'.last = Function.update s.last s.contexts.running s.processor.registers := by
  have hroom : FRAME_BYTES + 16 ≤ s.processor.registers.rsp.toNat := by
    rw [hrsp, Nat.add_comm]
    exact Nat.add_le_add_right ha _
  obtain ⟨-, heq, hkept⟩ := Processor.suspend_frame hroom
  have hframe : s.frame = a := by
    rw [hrsp, haligned, Nat.sub_zero] at heq
    exact Nat.add_right_cancel heq
  -- the memory has the pushed frame, and the C code leaves it as it is
  have hi : Interrupted handler s _ := .mk (g := zeroRegisters) (m := s.processor.suspend.memory)
    (.refl _) (hframe.symm ▸ hcall) hcur hroom (fun σ v _ hne b hlo hhi => by
      refine (hkept b ?_).symm
      rcases hsaved σ hne with hbelow | habove
      · left
        show b < s.frame
        rw [hframe]
        exact lt_of_lt_of_le hhi hbelow
      · right
        rw [hrsp]
        exact hlow.trans (habove.trans hlo)) (.refl _ _ _)
  refine ⟨_, hi, rfl, rfl, ?_, rfl⟩
  rw [hframe]

/-- Events that move no current pointer leave the processor alone. -/
theorem Reachable.executionWaits {s : Execution} (h : Reachable Execution.AtBoot ExecutionStep s)
    {ops : List KernelOp} (hops : ∀ op ∈ ops, op.KeepsContexts) {fuel : Nat} {k' : Kernel}
    (hrun : KernelOp.runSound fuel ops s.contexts.kernel = .ok k') :
    Reachable Execution.AtBoot ExecutionStep { s with contexts := { s.contexts with kernel := k' } } :=
  Reachable.runSound (f := fun k => { s with contexts := { s.contexts with kernel := k } })
    (fun _ _ hstep => .other hstep.alive fun _ _ _ _ => .refl _ _ _) hops h hrun

theorem registers_kept_there_and_back : ∃ s₁ s₂ s₃ s₄ : Execution,
    Reachable Execution.AtBoot ExecutionStep s₁ ∧ Interrupted .tick s₁ s₂ ∧
    Reachable Execution.AtBoot ExecutionStep s₃ ∧ Interrupted .yield s₃ s₄ ∧
    s₁.contexts.running = (0, 0) ∧ s₂.contexts.running = (1, 0) ∧
    (∃ exec entryPoint frame, s₂.processor.registers =
      Handler.restored .tick (initialFrame exec entryPoint frame).registers) ∧
    s₃.processor.registers = secondRegisters ∧ s₄.contexts.running = (0, 0) ∧
    s₄.processor.registers = s₁.processor.registers := by
  obtain ⟨k, k₁, k₂, k₃, k₄, r₂, r₄, hk, hk₁, hk₂, hcur₂, hk₃, hk₄, hcur₄⟩ := thereAndBack
  obtain ⟨s, hs, rfl, hrunning, hregisters, hsaved, exec, entryPoint, frame, hlast⟩ :=
    exists_executionAtBoot hk
  have hrsp : firstProcessor.registers.rsp.toNat = 0x7F50 + FRAME_BYTES := by decide
  have hrsp' : secondRegisters.rsp.toNat = 0x8F50 + FRAME_BYTES := by decide
  -- `init` waits, and the timer interrupts it
  let s₁ : Execution := { s with contexts := { s.contexts with kernel := k₁ } }
  have hreach₁ : Reachable Execution.AtBoot ExecutionStep s₁ := Reachable.executionWaits (.start hs)
    (fun op hop => keepsContexts_waits op (List.mem_append_left _ hop)) hk₁
  obtain ⟨s₂, hi₂, rfl, hrunning₂, hsaved₂, hlast₂⟩ := interrupted_low .tick s₁ hk₂ hcur₂
    (hregisters ▸ hrsp) (by decide) (by decide) (by decide) fun σ _ => .inr (hsaved σ)
  have hreach₂ := hreach₁.next (.interrupted hi₂)
  -- the shell changes every register, waits and yields
  have hcompute := hreach₂.next (.compute (m := s₂.processor.memory) (g := secondRegisters)
    fun _ _ _ _ => .refl _ _ _)
  let s₃ : Execution :=
    { s₂ with contexts := { s₂.contexts with kernel := k₃ }
              processor := { registers := secondRegisters, memory := s₂.processor.memory } }
  have hreach₃ : Reachable Execution.AtBoot ExecutionStep s₃ := Reachable.executionWaits hcompute
    (fun op hop => keepsContexts_waits op (List.mem_append_right _ hop)) hk₃
  obtain ⟨s₄, hi₄, -, hrunning₄, -, hlast₄⟩ := interrupted_low .yield s₃ hk₄ hcur₄ hrsp'
    (by decide) (by decide) (by decide) (fun σ hne => by
      show s₂.contexts.saved σ + FRAME_BYTES ≤ 0x8F50 ∨ 0x10000 ≤ s₂.contexts.saved σ
      rw [hsaved₂]
      by_cases hσ : σ = s.contexts.running
      · left
        rw [hσ]
        show Function.update s.contexts.saved s.contexts.running 0x7F50 s.contexts.running + _ ≤ _
        rw [Function.update_self]
        decide
      · right
        rw [Function.update_of_ne hσ]
        exact hsaved σ)
  have hkept₂ := registers_kept hreach₁ hi₂
  have hkept₄ := registers_kept hreach₃ hi₄
  refine ⟨s₁, s₂, s₃, s₄, hreach₁, hi₂, hreach₃, hi₄, hrunning, hrunning₂,
    ⟨exec, entryPoint, frame, ?_⟩, rfl, hrunning₄, ?_⟩
  · rw [hkept₂, hrunning₂, hlast₂, ← hlast]
    show Handler.restored .tick (Function.update s.last s.contexts.running _ (1, 0)) = _
    rw [hrunning, Function.update_of_ne (by decide)]
  · rw [hkept₄, hrunning₄, hlast₄]
    show Function.update s₂.last s₂.contexts.running secondRegisters (0, 0) = s.processor.registers
    rw [hrunning₂, Function.update_of_ne (by decide), hlast₂]
    show Function.update s.last s.contexts.running s.processor.registers (0, 0) = _
    rw [hrunning, Function.update_self]

end BasicKernel
