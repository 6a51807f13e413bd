import BasicKernel.View.Script

set_option autoImplicit false

/-! # Where the stacks are

`createThread` reserves pages for a stack and `setKernelStack` reserves one. Stacks grow down, and
both begin at the lowest address of their pages.

`stacks_outside_their_pages` says that no byte of a stack is ever in the pages that were reserved
for it. For a thread after boot `stack_overlaps_its_thread` shows what the frame lies over.
-/

namespace BasicKernel

variable {k k' : Kernel} {t : Addr} {exec entryPoint : Addr} {n : Int}

/-- A byte of the first frame, or of what is pushed below it when the stack is as large as its
pages. -/
def ThreadNode.StackByte (v : ThreadNode) (a : Addr) : Prop :=
  v.userStack ≤ a + (STACK_SIZE - STACK_FRAME_SIZE) ∧ a < v.userStack + STACK_FRAME_SIZE

/-- A byte of the pages that were reserved for the stack. -/
def ThreadNode.PageByte (v : ThreadNode) (a : Addr) : Prop :=
  v.baseStack ≤ a ∧ a < v.baseStack + STACK_SIZE

def ThreadNode.StackInPages (v : ThreadNode) : Prop := ∀ a, v.StackByte a → v.PageByte a

/-- What is pushed on the kernel's stack is in the page from `page` on. -/
def Kernel.KernelStackIn (k : Kernel) (page : Addr) : Prop :=
  ∀ a, k.kernelStack ≤ a + PAGE_SIZE → a < k.kernelStack → page ≤ a ∧ a < page + PAGE_SIZE

theorem Kernel.modifyThread_inv {p : Addr} {f : ThreadNode → ThreadNode}
    (h : k.modifyThread p f = .ok k') : p ≠ NULL ∧ k'.thread p = f (k.thread p) := by
  by_cases hp : p = NULL
  · subst hp
    rw [Kernel.modifyThread_null] at h
    cases h
  · rw [Kernel.modifyThread_of_ne hp] at h
    obtain rfl := Except.ok.inj h
    exact ⟨hp, Function.update_self ..⟩

/-- The first frame of a new thread ends where its pages begin. -/
theorem createThread_stack (h : createThread k exec entryPoint n = .ok (t, k')) :
    (k'.thread t).userStack + STACK_FRAME_SIZE = (k'.thread t).baseStack := by
  obtain ⟨⟨thread, k₁⟩, -, h⟩ := bind_eq_ok.mp h
  obtain ⟨k₂, -, h⟩ := bind_eq_ok.mp h
  obtain ⟨⟨base, k₃⟩, -, h⟩ := bind_eq_ok.mp h
  obtain ⟨k₄, hbase, h⟩ := bind_eq_ok.mp h
  obtain ⟨⟨frame, k₅⟩, hfill, h⟩ := bind_eq_ok.mp h
  obtain ⟨k₆, hframe, h⟩ := bind_eq_ok.mp h
  obtain ⟨k₇, hpthread, h⟩ := bind_eq_ok.mp h
  obtain ⟨k₈, hstate, h⟩ := bind_eq_ok.mp h
  obtain ⟨rfl, rfl⟩ := Prod.mk.inj (Except.ok.inj h)
  obtain ⟨-, hbase⟩ := Kernel.modifyThread_inv hbase
  obtain ⟨-, hframe⟩ := Kernel.modifyThread_inv hframe
  obtain ⟨-, hpthread⟩ := Kernel.modifyThread_inv hpthread
  obtain ⟨-, hstate⟩ := Kernel.modifyThread_inv hstate
  by_cases hlow : base < STACK_FRAME_SIZE
  · simp [fillStackFrame, hlow] at hfill
  · simp only [fillStackFrame, hlow, if_false, pure_eq_ok] at hfill
    obtain ⟨rfl, rfl⟩ := Prod.mk.inj (Except.ok.inj hfill)
    rw [hstate, hpthread, hframe]
    show base - STACK_FRAME_SIZE + STACK_FRAME_SIZE = (k₄.thread thread).baseStack
    rw [hbase]
    exact Nat.sub_add_cancel (Nat.le_of_not_lt hlow)

/-- No byte of a stack is in the pages that were reserved for it, whatever the state of the
allocator. -/
theorem stacks_outside_their_pages (k k' : Kernel) :
    (∀ exec entryPoint n t, createThread k exec entryPoint n = .ok (t, k') →
      (∀ a, (k'.thread t).StackByte a → ¬ (k'.thread t).PageByte a) ∧
        ¬ (k'.thread t).StackInPages) ∧
    ∀ page k₁, k.allocate PAGE_SIZE = .ok (page, k₁) → setKernelStack k = .ok k' →
      page ≠ NULL → ¬ k'.KernelStackIn page := by
  constructor
  · intro exec entryPoint n t h
    -- the first frame is pushed below the lowest address of the pages
    have hend := createThread_stack h
    have hout : ∀ a, (k'.thread t).StackByte a → ¬ (k'.thread t).PageByte a := by
      rintro a ⟨-, hlt⟩ ⟨hle, -⟩
      rw [hend] at hlt
      exact Nat.not_le_of_lt hlt hle
    refine ⟨hout, fun hin => ?_⟩
    have hfirst : (k'.thread t).StackByte (k'.thread t).userStack := by
      constructor
      · exact Nat.le_add_right _ _
      · exact Nat.lt_add_of_pos_right (by decide)
    exact hout _ hfirst (hin _ hfirst)
  · intro page k₁ hall h hne hin
    simp only [setKernelStack, hall, ok_bind, pure_eq_ok] at h
    obtain rfl := Except.ok.inj h
    have hlt : page - 1 < page := Nat.sub_one_lt hne
    have hle : page ≤ page - 1 + PAGE_SIZE :=
      le_tsub_add.trans (Nat.add_le_add_left (by decide : 1 ≤ PAGE_SIZE) _)
    exact Nat.not_le_of_lt hlt (hin (page - 1) hle hlt).1

/-! ### A thread after boot -/

/-- A further thread is created. -/
def newestThread : Except Stop (Kernel × Addr × Kernel) := do
  let k ← startKernel
  let r ← createThread k 1 4 1
  return (k, r)

/-- The frame of the thread is in the page of its own node. -/
theorem newestThread_states : (do
    let r ← newestThread
    let (_, t, k') := r
    return decide (t ≤ (k'.thread t).userStack ∧ (k'.thread t).baseStack = t + PAGE_SIZE) :
      Except Stop Bool) = .ok true := by
  decide +kernel

theorem newestThread_created : ∃ k t k', Booted k ∧ createThread k 1 4 1 = .ok (t, k') ∧
    t ≤ (k'.thread t).userStack ∧ (k'.thread t).baseStack = t + PAGE_SIZE := by
  obtain ⟨r, hr, h⟩ := bind_eq_ok.mp newestThread_states
  rw [newestThread] at hr
  obtain ⟨k, hk, hr⟩ := bind_eq_ok.mp hr
  obtain ⟨⟨t, k'⟩, hcall, hr⟩ := bind_eq_ok.mp hr
  obtain rfl := Except.ok.inj hr
  exact ⟨k, t, k', booted_of_start hk, hcall, of_decide_eq_true (Except.ok.inj h)⟩

theorem stack_overlaps_its_thread : ¬ ∀ k k' exec entryPoint n t, Booted k →
    createThread k exec entryPoint n = .ok (t, k') → (k'.thread t).StackInPages ∧
      ∀ a, (k'.thread t).StackByte a → ¬ (t ≤ a ∧ a < t + PAGE_SIZE) := by
  intro hclaim
  obtain ⟨k, t, k', hboot, hcall, hle, hbase⟩ := newestThread_created
  have hend := createThread_stack hcall
  have hlt : (k'.thread t).userStack < (k'.thread t).userStack + STACK_FRAME_SIZE :=
    Nat.lt_add_of_pos_right (by decide)
  refine (hclaim k k' 1 4 1 t hboot hcall).2 (k'.thread t).userStack
    ⟨Nat.le_add_right _ _, hlt⟩ ⟨hle, ?_⟩
  rw [← hbase, ← hend]
  exact hlt

theorem stacks_outside_their_pages_after_boot :
    ∃ k t k', Booted k ∧ createThread k 1 4 1 = .ok (t, k') ∧ ¬ (k'.thread t).StackInPages := by
  obtain ⟨k, t, k', hboot, hcall, -⟩ := newestThread_created
  exact ⟨k, t, k', hboot, hcall, ((stacks_outside_their_pages k k').1 1 4 1 t hcall).2⟩

end BasicKernel
