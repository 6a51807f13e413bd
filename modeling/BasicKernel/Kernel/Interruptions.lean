import BasicKernel.Kernel.Scheduler
import BasicKernel.Lib.ByteMemory

set_option autoImplicit false

/-! # `interruptions.asm`, `schedulerSwitch.asm` and `macros.m`

What the processor and the handlers push on the stack of the interrupted thread, and what they pop from
the stack that they return to. The frame that is left in memory has the layout of `StackFrame`.

`handlers_restore` says that a handler that returns to the same stack gives all registers back,
whatever its C code does outside the frame.
-/

namespace BasicKernel

open ByteMemory

/-- The registers of a thread. -/
structure Registers where
  gs : UInt16
  fs : UInt16
  r15 : UInt64
  r14 : UInt64
  r13 : UInt64
  r12 : UInt64
  r11 : UInt64
  r10 : UInt64
  r9 : UInt64
  r8 : UInt64
  rsi : UInt64
  rdi : UInt64
  rbp : UInt64
  rdx : UInt64
  rcx : UInt64
  rbx : UInt64
  rax : UInt64
  rip : UInt64
  cs : UInt16
  eflags : UInt64
  rsp : UInt64
  ss : UInt16
  deriving DecidableEq

structure Processor where
  registers : Registers
  memory : Memory

/-! ## The stack

A `push` moves the stack pointer down by eight bytes and stores there, a `pop` reads and moves it
up. -/

/-- The eight bytes at an address. -/
def loadQuad (m : Memory) (a : UInt64) : UInt64 := UInt64.ofNat (value (fetch m a.toNat 8))

namespace Processor

def push (c : Processor) (w : UInt64) : Processor :=
  let rsp := c.registers.rsp - 8
  { registers := { c.registers with rsp }, memory := put c.memory rsp.toNat (encode 8 w.toNat) }

/-- A `pop` into the register that `set` stores. -/
def pop (c : Processor) (set : UInt64 → Registers → Registers) : Processor :=
  let rsp := c.registers.rsp
  { c with registers := set (loadQuad c.memory rsp) { c.registers with rsp := rsp + 8 } }

/-! ## Entry and exit

The processor saves five registers by itself, `pushaq` saves the fifteen others, and the handlers
put them back in the opposite order. They differ in one place: whether `al` or `rax` is set before
or behind `popaq`. -/

/-- The entry through an interrupt gate: the processor aligns the stack and pushes five registers. -/
def interrupt (c : Processor) : Processor :=
  let r := c.registers
  [r.ss.toUInt64, r.rsp, r.eflags, r.cs.toUInt64, r.rip].foldl push
    { c with registers := { r with rsp := r.rsp - r.rsp % 16 } }

def pushaq (c : Processor) : Processor :=
  let r := c.registers
  [r.rax, r.rbx, r.rcx, r.rdx, r.rbp, r.rdi, r.rsi, r.r8, r.r9, r.r10, r.r11, r.r12, r.r13, r.r14, r.r15,
    r.fs.toUInt64, r.gs.toUInt64].foldl push c

def popaq (c : Processor) : Processor :=
  [fun w r => { r with gs := w.toUInt16 }, fun w r => { r with fs := w.toUInt16 },
    fun w r => { r with r15 := w }, fun w r => { r with r14 := w }, fun w r => { r with r13 := w },
    fun w r => { r with r12 := w }, fun w r => { r with r11 := w }, fun w r => { r with r10 := w },
    fun w r => { r with r9 := w }, fun w r => { r with r8 := w }, fun w r => { r with rsi := w },
    fun w r => { r with rdi := w }, fun w r => { r with rbp := w }, fun w r => { r with rdx := w },
    fun w r => { r with rcx := w }, fun w r => { r with rbx := w }, fun w r => { r with rax := w }].foldl
    pop c

/-- The stack pointer is the fourth word, so the fifth is read before the stack is left. -/
def iretq (c : Processor) : Processor :=
  let c := [fun w r => { r with rip := w }, fun w r => { r with cs := w.toUInt16 },
    fun w r => { r with eflags := w }].foldl pop c
  let stack := c.registers.rsp
  { c with registers := { c.registers with
      rsp := loadQuad c.memory stack, ss := (loadQuad c.memory (stack + 8)).toUInt16 } }

/-- What every handler does first. It leaves the stack pointer at the frame. -/
def suspend (c : Processor) : Processor := c.interrupt.pushaq

/-- `mov al, 20h` -/
def setAl (c : Processor) (al : UInt64) : Processor :=
  { c with registers := { c.registers with rax := c.registers.rax / 256 * 256 + al } }

/-- The end of `processSwitch`. The end of the interrupt is signalled behind `popaq`. -/
def tickReturn (c : Processor) : Processor := (c.popaq.setAl 0x20).iretq

/-- The end of `yieldHandler`. -/
def yieldReturn (c : Processor) : Processor := c.popaq.iretq

/-- The end of `irqHandler` and `irqHandlerSlave`, which signal the end of the interrupt before. -/
def irqReturn (c : Processor) : Processor := (c.setAl 0x20).popaq.iretq

/-- The end of `sysCallHandler`: the result takes the place of `rax`. -/
def sysCallReturn (c : Processor) (result : UInt64) : Processor :=
  let c := c.popaq
  { c with registers := { c.registers with rax := result } }.iretq

end Processor

/-! ## Frames

A frame is the list of the saved words. The same words are the fields of `StackFrame`, through
which `fillStackFrame` prepares the first return to a thread. -/

/-- The words of a frame, in the order of `StackFrame`. -/
def Registers.words (r : Registers) : List UInt64 :=
  [r.gs.toUInt64, r.fs.toUInt64, r.r15, r.r14, r.r13, r.r12, r.r11, r.r10, r.r9, r.r8, r.rsi, r.rdi, r.rbp,
    r.rdx, r.rcx, r.rbx, r.rax, r.rip, r.cs.toUInt64, r.eflags, r.rsp, r.ss.toUInt64]

/-- The registers that a frame is for. -/
def StackFrame.registers (f : StackFrame) : Registers :=
  { gs := .ofNat f.gs, fs := .ofNat f.fs, r15 := .ofNat f.r15, r14 := .ofNat f.r14, r13 := .ofNat f.r13
    r12 := .ofNat f.r12, r11 := .ofNat f.r11, r10 := .ofNat f.r10, r9 := .ofNat f.r9, r8 := .ofNat f.r8
    rsi := .ofNat f.rsi, rdi := .ofNat f.rdi, rbp := .ofNat f.rbp, rdx := .ofNat f.rdx
    rcx := .ofNat f.rcx, rbx := .ofNat f.rbx, rax := .ofNat f.rax, rip := .ofNat f.rip, cs := .ofNat f.cs
    eflags := .ofNat f.eflags, rsp := .ofNat f.rsp, ss := .ofNat f.ss }

/-- The bytes of a frame that the handlers use. -/
def FRAME_BYTES : Nat := 22 * 8

/-- The `n` words at an address. -/
def loadQuads (m : Memory) (a : UInt64) : Nat → List UInt64
  | 0 => []
  | n + 1 => loadQuad m a :: loadQuads m (a + 8) n

/-- The frame at an address is for these registers. -/
def FrameHolds (m : Memory) (a : UInt64) (r : Registers) : Prop := loadQuads m a 22 = r.words

variable {m m' : Memory} {a : UInt64} {r g : Registers} {c : Processor} {n : Nat} {ws : List UInt64}

theorem loadQuad_congr (h : SameOn a.toNat (a.toNat + 8) m m') : loadQuad m a = loadQuad m' a := by
  rw [loadQuad, loadQuad, fetch_congr h]

theorem loadQuad_put (m : Memory) (a w : UInt64) :
    loadQuad (put m a.toNat (encode 8 w.toNat)) a = w := by
  have hbytes := fetch_put m a.toNat (encode 8 w.toNat)
  rw [encode_length] at hbytes
  rw [loadQuad, hbytes, value_encode_of_lt w.toNat_lt, UInt64.ofNat_toNat]

theorem toNat_add_eight (h : a.toNat + 8 < 2 ^ 64) : (a + 8).toNat = a.toNat + 8 := by
  rw [UInt64.toNat_add]
  exact Nat.mod_eq_of_lt h

theorem toNat_sub_eight (h : 8 ≤ a.toNat) : (a - 8).toNat = a.toNat - 8 :=
  UInt64.toNat_sub_of_le a 8 (UInt64.le_iff_toNat_le.mpr h)

theorem loadQuads_congr (hle : a.toNat + 8 * n ≤ 2 ^ 64)
    (h : SameOn a.toNat (a.toNat + 8 * n) m m') : loadQuads m a n = loadQuads m' a n := by
  induction n generalizing a with
  | zero => rfl
  | succ n ih =>
      have hfirst := loadQuad_congr (h.mono le_rfl (by omega : a.toNat + 8 ≤ a.toNat + 8 * (n + 1)))
      cases n with
      | zero => rw [loadQuads, loadQuads, hfirst, loadQuads, loadQuads]
      | succ n =>
          have hnext := toNat_add_eight (a := a) (by omega)
          have hrest := ih (a := a + 8) (by omega) (h.mono (by omega) (by omega))
          show loadQuad m a :: loadQuads m (a + 8) (n + 1) = loadQuad m' a :: loadQuads m' (a + 8) (n + 1)
          rw [hfirst, hrest]

theorem loadQuads_add (m : Memory) {b : UInt64} {k : Nat} (h : a.toNat + 8 * n = b.toNat) :
    loadQuads m a (n + k) = loadQuads m a n ++ loadQuads m b k := by
  induction n generalizing a with
  | zero =>
      obtain rfl : a = b := UInt64.toNat_inj.mp h
      rw [Nat.zero_add]
      rfl
  | succ n ih =>
      have hb : b.toNat < 2 ^ 64 := b.toNat_lt
      have hnext := toNat_add_eight (a := a) (by omega)
      rw [Nat.add_right_comm, loadQuads, ih (by omega), loadQuads, List.cons_append]

theorem FrameHolds.congr (h : FrameHolds m a r) (hle : a.toNat + FRAME_BYTES ≤ 2 ^ 64)
    (hsame : SameOn a.toNat (a.toNat + FRAME_BYTES) m m') : FrameHolds m' a r :=
  (loadQuads_congr (n := 22) hle hsame).symm.trans h

/-! ## What the handlers save and restore

Entry and exit are proved for any registers and any memory, and then put together: between the two
the C code may use every register and every byte outside the frame. -/

namespace Processor

/-- The last word that was pushed is the first in memory, and nothing above or below changes. -/
theorem foldl_push (ws : List UInt64) : ∀ c : Processor, 8 * ws.length ≤ c.registers.rsp.toNat →
    ∃ rsp m, ws.foldl push c = { registers := { c.registers with rsp }, memory := m } ∧
      rsp.toNat + 8 * ws.length = c.registers.rsp.toNat ∧
      loadQuads m rsp ws.length = ws.reverse ∧
      ∀ a, a < rsp.toNat ∨ c.registers.rsp.toNat ≤ a → m a = c.memory a := by
  -- on the pushed words: the first push fills the highest slot, and the rest stay below it
  induction ws with
  | nil => exact fun c _ => ⟨_, _, rfl, rfl, rfl, fun _ _ => rfl⟩
  | cons w ws ih =>
      intro c hroom
      rw [List.length_cons] at hroom ⊢
      have hpush : (c.push w).registers.rsp.toNat = c.registers.rsp.toNat - 8 :=
        toNat_sub_eight (by omega)
      obtain ⟨rsp, m, hrun, hrsp, hwords, hsame⟩ := ih (c.push w) (by omega)
      have hword : loadQuad m (c.push w).registers.rsp = w := by
        have hput := loadQuad_put c.memory (c.push w).registers.rsp w
        rw [loadQuad_congr fun a hlo _ => hsame a (.inr hlo)]
        exact hput
      refine ⟨rsp, m, hrun, by omega, ?_, fun a ha => ?_⟩
      · rw [loadQuads_add m hrsp, hwords, loadQuads, loadQuads, hword, List.reverse_cons]
      · have hout : a < (c.push w).registers.rsp.toNat ∨ (c.push w).registers.rsp.toNat + 8 ≤ a := by omega
        rw [hsame a (by omega)]
        exact put_outside (by rw [encode_length]; exact hout)

/-- Stores below a stack pointer, one word after the other, build any list of words. -/
theorem exists_loadQuads (m : Memory) (ws : List UInt64) {a : Nat} (hbound : a + 8 * ws.length < 2 ^ 64) :
    ∃ m', loadQuads m' (.ofNat a) ws.length = ws := by
  let top : Processor :=
    { registers := ⟨0, 0, 0, 0, 0, 0, 0, 0, 0, 0, 0, 0, 0, 0, 0, 0, 0, 0, 0, 0, .ofNat (a + 8 * ws.length), 0⟩
      memory := m }
  have htop : top.registers.rsp.toNat = a + 8 * ws.length := UInt64.toNat_ofNat_of_lt hbound
  obtain ⟨rsp, m', -, hrsp, hwords, -⟩ :=
    foldl_push ws.reverse top (by rw [htop, List.length_reverse]; exact Nat.le_add_left _ _)
  rw [htop, List.length_reverse] at hrsp
  have ha : rsp.toNat = a := Nat.add_right_cancel hrsp
  refine ⟨m', ?_⟩
  rw [← ha, UInt64.ofNat_toNat]
  rw [List.length_reverse, List.reverse_reverse] at hwords
  exact hwords

/-- A handler that was entered with room on the stack leaves the frame of the registers below the stack
pointer, which the processor aligned. -/
theorem suspend_frame (hroom : FRAME_BYTES + 16 ≤ c.registers.rsp.toNat) :
    FrameHolds c.suspend.memory c.suspend.registers.rsp c.registers ∧
      c.suspend.registers.rsp.toNat + FRAME_BYTES = c.registers.rsp.toNat - c.registers.rsp.toNat % 16 ∧
      ∀ a, a < c.suspend.registers.rsp.toNat ∨ c.registers.rsp.toNat ≤ a →
        c.suspend.memory a = c.memory a := by
  let r := c.registers
  let top : Processor := { c with registers := { r with rsp := r.rsp - r.rsp % 16 } }
  have htop : top.registers.rsp.toNat = r.rsp.toNat - r.rsp.toNat % 16 := by
    have hle : r.rsp % 16 ≤ r.rsp := by
      rw [UInt64.le_iff_toNat_le, UInt64.toNat_mod]
      exact Nat.mod_le _ _
    show (r.rsp - r.rsp % 16).toNat = _
    rw [UInt64.toNat_sub_of_le _ _ hle, UInt64.toNat_mod]
    rfl
  unfold FRAME_BYTES at hroom ⊢
  have hrsp : r.rsp.toNat = c.registers.rsp.toNat := rfl
  -- the five words of the processor, and then the seventeen of `pushaq`
  obtain ⟨rsp₁, m₁, h₁, hrsp₁, hwords₁, hsame₁⟩ :=
    foldl_push [r.ss.toUInt64, r.rsp, r.eflags, r.cs.toUInt64, r.rip] top (by
      simp only [List.length_cons, List.length_nil]
      omega)
  have hentry : c.interrupt = { registers := { r with rsp := rsp₁ }, memory := m₁ } := h₁
  obtain ⟨rsp₂, m₂, h₂, hrsp₂, hwords₂, hsame₂⟩ :=
    foldl_push [r.rax, r.rbx, r.rcx, r.rdx, r.rbp, r.rdi, r.rsi, r.r8, r.r9, r.r10, r.r11, r.r12, r.r13, r.r14,
      r.r15, r.fs.toUInt64, r.gs.toUInt64] { registers := { r with rsp := rsp₁ }, memory := m₁ } (by
      simp only [List.length_cons, List.length_nil] at hrsp₁ ⊢
      omega)
  have hsuspend : c.suspend = { registers := { r with rsp := rsp₂ }, memory := m₂ } := by
    rw [suspend, hentry]
    exact h₂
  have hrsp₁ : rsp₁.toNat + 8 * 5 = top.registers.rsp.toNat := hrsp₁
  have hrsp₂ : rsp₂.toNat + 8 * 17 = rsp₁.toNat := hrsp₂
  have hsame₂ : ∀ a, a < rsp₂.toNat ∨ rsp₁.toNat ≤ a → m₂ a = m₁ a := hsame₂
  have hlt : r.rsp.toNat < 2 ^ 64 := r.rsp.toNat_lt
  rw [hsuspend]
  refine ⟨?_, ?_, fun a ha => ?_⟩
  -- the words of `pushaq` lie below those of the processor, which are still there
  · have hkept : loadQuads m₂ rsp₁ 5 = loadQuads m₁ rsp₁ 5 :=
      loadQuads_congr (by omega) fun a hlo _ => hsame₂ a (.inr hlo)
    show loadQuads m₂ rsp₂ (17 + 5) = _
    rw [loadQuads_add m₂ hrsp₂, hkept]
    exact congrArg₂ (· ++ ·) hwords₂ hwords₁
  · show rsp₂.toNat + 176 = c.registers.rsp.toNat - c.registers.rsp.toNat % 16
    rw [hrsp] at htop
    omega
  · have ha' : a < rsp₂.toNat ∨ c.registers.rsp.toNat ≤ a := ha
    exact (hsame₂ a (by omega)).trans (hsame₁ a (by omega))

theorem popaq_frame (g : Registers) (h : FrameHolds m a r) :
    ∃ b, popaq { registers := { g with rsp := a }, memory := m } =
        { registers := { r with rip := g.rip, cs := g.cs, eflags := g.eflags, rsp := b, ss := g.ss }
          memory := m } ∧
      loadQuads m b 5 = [r.rip, r.cs.toUInt64, r.eflags, r.rsp, r.ss.toUInt64] := by
  simp only [FrameHolds, loadQuads, Registers.words, List.cons.injEq, and_true] at h
  refine ⟨(popaq { registers := { g with rsp := a }, memory := m }).registers.rsp, ?_, ?_⟩
  · simp only [popaq, pop, List.foldl_cons, List.foldl_nil, h, UInt16.toUInt16_toUInt64]
  · simp only [popaq, pop, List.foldl_cons, List.foldl_nil, loadQuads, h]

/-- The end of every handler, which may have set `rax` behind `popaq`. -/
theorem iretq_frame (g : Registers) (x : UInt64) {b : UInt64}
    (h : loadQuads m b 5 = [r.rip, r.cs.toUInt64, r.eflags, r.rsp, r.ss.toUInt64]) :
    iretq { registers :=
              { r with rax := x, rip := g.rip, cs := g.cs, eflags := g.eflags, rsp := b, ss := g.ss }
            memory := m } = { registers := { r with rax := x }, memory := m } := by
  simp only [loadQuads, List.cons.injEq, and_true] at h
  simp only [iretq, pop, List.foldl_cons, List.foldl_nil, h, UInt16.toUInt16_toUInt64]

/-- Returning to a frame restores its registers. -/
theorem yieldReturn_frame (g : Registers) (h : FrameHolds m a r) :
    yieldReturn { registers := { g with rsp := a }, memory := m } = { registers := r, memory := m } := by
  obtain ⟨b, hpop, hquads⟩ := popaq_frame g h
  rw [yieldReturn, hpop]
  exact iretq_frame g r.rax hquads

theorem setAl_mk (r : Registers) (m : Memory) (al : UInt64) : setAl { registers := r, memory := m } al =
    { registers := { r with rax := r.rax / 256 * 256 + al }, memory := m } := rfl

/-- The timer handler sets `al` behind `popaq`, so the thread gets it. -/
theorem tickReturn_frame (g : Registers) (h : FrameHolds m a r) :
    tickReturn { registers := { g with rsp := a }, memory := m } =
      { registers := { r with rax := r.rax / 256 * 256 + 0x20 }, memory := m } := by
  obtain ⟨b, hpop, hquads⟩ := popaq_frame g h
  rw [tickReturn, hpop, setAl_mk]
  exact iretq_frame g (r.rax / 256 * 256 + 0x20) hquads

/-- The other interrupts set it in front. -/
theorem irqReturn_frame (g : Registers) (h : FrameHolds m a r) :
    irqReturn { registers := { g with rsp := a }, memory := m } = { registers := r, memory := m } := by
  rw [irqReturn, setAl_mk]
  exact yieldReturn_frame { g with rax := g.rax / 256 * 256 + 0x20 } h

theorem sysCallReturn_frame (g : Registers) (result : UInt64) (h : FrameHolds m a r) :
    sysCallReturn { registers := { g with rsp := a }, memory := m } result =
      { registers := { r with rax := result }, memory := m } := by
  obtain ⟨b, hpop, hquads⟩ := popaq_frame g h
  rw [sysCallReturn, hpop]
  exact iretq_frame g result hquads

/-- Setting `al` changes `rax` unless it has that byte already. -/
theorem setAl_rax_iff (x : UInt64) : x / 256 * 256 + 0x20 = x ↔ x % 256 = 0x20 := by
  have hlt := x.toNat_lt
  have hleft : (x / 256 * 256 + 0x20).toNat = x.toNat / 256 * 256 + 32 := by
    simp only [UInt64.toNat_add, UInt64.toNat_mul, UInt64.toNat_div, UInt64.reduceToNat]
    omega
  have hright : (x % 256).toNat = x.toNat % 256 := by
    simp only [UInt64.toNat_mod, UInt64.reduceToNat]
  rw [← UInt64.toNat_inj, ← UInt64.toNat_inj, hleft, hright]
  show _ ↔ x.toNat % 256 = 32
  omega

/-- The processor when a handler has run its C code. -/
def afterCall (c : Processor) (g : Registers) (m : Memory) : Processor :=
  { registers := { g with rsp := c.suspend.registers.rsp }, memory := m }

/-- Whatever the C code of a handler does to the registers, and to the memory outside the frame, the
interrupted thread finds all its registers after a keyboard or network interrupt and after `yield`, and
all but `rax` after a system call. After a timer interrupt it does only if `al` was `0x20` before. -/
theorem handlers_restore (result : UInt64) (hroom : FRAME_BYTES + 16 ≤ c.registers.rsp.toNat)
    (hm : SameOn c.suspend.registers.rsp.toNat (c.suspend.registers.rsp.toNat + FRAME_BYTES)
      c.suspend.memory m) :
    (c.afterCall g m).irqReturn = { registers := c.registers, memory := m } ∧
      (c.afterCall g m).yieldReturn = { registers := c.registers, memory := m } ∧
      (c.afterCall g m).sysCallReturn result =
        { registers := { c.registers with rax := result }, memory := m } ∧
      ((c.afterCall g m).tickReturn = { registers := c.registers, memory := m } ↔
        c.registers.rax % 256 = 0x20) := by
  obtain ⟨hholds, heq, -⟩ := suspend_frame hroom
  have hle := heq.le.trans (Nat.sub_le _ _)
  have hframe : FrameHolds m c.suspend.registers.rsp c.registers :=
    hholds.congr (hle.trans c.registers.rsp.toNat_lt.le) hm
  refine ⟨irqReturn_frame g hframe, yieldReturn_frame g hframe, sysCallReturn_frame g result hframe, ?_⟩
  rw [afterCall, tickReturn_frame g hframe, ← setAl_rax_iff]
  constructor
  · exact fun h => congrArg (fun c => c.registers.rax) h
  · intro h
    rw [h]

end Processor

def zeroRegisters : Registers :=
  ⟨0, 0, 0, 0, 0, 0, 0, 0, 0, 0, 0, 0, 0, 0, 0, 0, 0, 0, 0, 0, 0, 0⟩

/-- A thread with a stack below the block area. -/
def firstProcessor : Processor :=
  { registers := { zeroRegisters with rax := 0x1234, rip := 0x400000, rsp := 0x8000 }
    memory := fun _ => 0 }

/-- What the handlers leave of it when the C code has used every register. -/
def firstReturn : Processor := firstProcessor.afterCall zeroRegisters firstProcessor.suspend.memory

theorem handlers_restore_first :
    firstReturn.irqReturn = { firstProcessor with memory := firstReturn.memory } ∧
      firstReturn.yieldReturn = { firstProcessor with memory := firstReturn.memory } ∧
      firstReturn.sysCallReturn 7 =
        { registers := { firstProcessor.registers with rax := 7 }, memory := firstReturn.memory } ∧
      (firstReturn.tickReturn = { firstProcessor with memory := firstReturn.memory } ↔
        firstProcessor.registers.rax % 256 = 0x20) :=
  Processor.handlers_restore 7 (by decide) (.refl _ _ _)

end BasicKernel
