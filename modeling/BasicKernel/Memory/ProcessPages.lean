import BasicKernel.Scheduling.Fresh

set_option autoImplicit false

/-! # The pages of a process

`freeProcess` gives the pages of a process back, but not the one with its name, which
`createProcessName` had reserved. The view keeps the pages of the names in `others`, and no event
takes a page out of them.

`creation_leaks` says that whatever a process does, and however it ends, its name stays reserved.
`name_outlives_process` is a short life with everything in it.
-/

namespace BasicKernel

open Linked Keyed Fuel Transition

/-- The pages that were free in `k` and reserved in `k₁` are free in `k'`. -/
def Kernel.GaveBack (k k₁ k' : Kernel) : Prop :=
  ∀ page, ¬ k.Reserved page → k₁.Reserved page → ¬ k'.Reserved page

variable {k k₀ k₁ k' : Kernel} {V : View} {fuel : Nat} {r : Int} {exec entryPoint name : Addr}

/-! ## The names

The page of a name belongs to no object of the view. It was free before the process was made, and
no event gives it back. -/

/-- The page of the name of a new process was free. -/
theorem Rep.addProcess_name (hr : Rep k V) (hok : V.Ok) (hclean : CleanProcess k)
    (h : addProcess fuel k exec entryPoint name = .ok (r, k₁)) :
    ∃ chars V₁, ¬ k.Reserved chars ∧ Rep k₁ V₁ ∧ V₁.Ok ∧ (chars, NAME_LENGTH) ∈ V₁.others := by
  obtain ⟨a, chars, n, t, base, l, ⟨m₁, hall⟩, hserved, -, -, -, hcases, -⟩ := hr.addProcess_cases hok h
  obtain ⟨p, -, rfl, -, -, -, hr₁, hok₁⟩ := hcases (.inl (hclean a _ hall))
  refine ⟨p.val.name, V.addProcess p, fun hreserved => ?_, hr₁, hok₁, List.mem_cons_self⟩
  obtain ⟨live, hc, -⟩ := hr.owns.live
  exact hc.served_new (by decide) hserved p.val.name (by simp) hreserved.2

/-- A page that no node accounts for is reserved in every later state of a run. -/
theorem reserved_run {b : Addr × Nat} (hr : Rep k V) (hok : V.Ok) (hb : b ∈ V.others)
    (h : Relation.ReflTransGen (KernelStep Sound) k k') : k'.Reserved b.1 := by
  suffices ∃ V', Rep k' V' ∧ V'.Ok ∧ b ∈ V'.others by
    obtain ⟨V', hr', -, hb'⟩ := this
    exact hr'.owns.reserved (List.mem_append_right _ hb')
  induction h with
  | refl => exact ⟨V, hr, hok, hb⟩
  | tail _ hstep ih =>
      obtain ⟨V₁, hr₁, hok₁, hb₁⟩ := ih
      obtain ⟨k₂, op, fuel, hrec, hsound, hrun⟩ := hstep
      obtain ⟨V', heffect, hr', hok'⟩ := (hr₁.recycled hrec).run_inv hok₁ hsound hrun
      obtain ⟨extra, hothers⟩ := heffect.others
      exact ⟨V', hr', hok', hothers ▸ List.mem_append_right extra hb₁⟩

/-- Whatever happens to a process after its creation, the pages that the creation took are not all
given back. -/
theorem creation_leaks (h : Run Sound k) (hrecycled : Recycled k k₀)
    (hsound : Sound k₀ (.addProcess exec entryPoint name))
    (hcreate : addProcess fuel k₀ exec entryPoint name = .ok (r, k₁))
    (hlife : Relation.ReflTransGen (KernelStep Sound) k₁ k') : ¬ k₀.GaveBack k₁ k' := by
  obtain ⟨V, hr, hok⟩ := h.rep
  obtain ⟨chars, V₁, hfree, hr₁, hok₁, hmem⟩ :=
    (hr.recycled hrecycled).addProcess_name hok hsound hcreate
  intro hback
  exact hback chars hfree (reserved_run hr₁ hok₁ hmem .refl) (reserved_run hr₁ hok₁ hmem hlife)

/-! ## A life -/

/-- The calls that the process `pid` makes in its life, the events that let it run, and those that end
its life. -/
def KernelOp.InLife (pid : Int) : KernelOp → Prop
  | tick _ _ => True
  | yield _ _ => True
  | addThread owner _ _ => owner = pid
  | removeThread owner _ => owner = pid
  | pmalloc _ => True
  | pfree _ => True
  | removeProcess victim => victim = pid
  | removeDeadProcess _ => True
  | _ => False

/-- Where at most one process is dead and the stores through uninitialised pointers hit free pages only,
the removal of the dead is safe. -/
theorem Rep.reapSafe_of_oneDead {garbage : Garbage} (hr : Rep k V)
    (hone : k.processes.countP (fun a => (k.process a).state = .DEAD) ≤ 1)
    (hfree : ∀ library, garbage.freeThreadLibrary library ≠ NULL ∧
      ∀ i : Nat, i < 8 → k.Unreserved (garbage.freeThreadLibrary library + NEXT_OFFSET + i)) :
    V.ReapSafe garbage k := by
  have hcount : V.table.countP (fun p => p.alive = false) ≤ 1 := by
    rw [hr.created.countP_eq, List.countP_map] at hone
    refine le_trans (List.countP_mono_left fun p hp hdead => ?_) hone
    simpa [(hr.processes p hp).val, ProcessView.alive] using hdead
  constructor
  · refine List.isChain_iff_forall_rel_of_append_cons_cons.mpr fun p q A B hAB => ?_
    by_contra hboth
    have hdead : p.alive = false ∧ q.alive = false := by simpa using hboth
    have htwo : 2 ≤ (V.table.take V.queueSize.toNat).countP (fun p => p.alive = false) := by
      rw [hAB, List.countP_append, List.countP_cons_of_pos (by simpa using hdead.1),
        List.countP_cons_of_pos (by simpa using hdead.2)]
      omega
    have := (List.take_sublist V.queueSize.toNat V.table).countP_le (p := fun p => p.alive = false)
    omega
  · intro p _ _ _
    exact hfree _

/-- In a state of a run every view has the current process. -/
theorem Run.exists_current (h : Run Sound k) (hr : Rep k V) : ∃ p ∈ V.table, p.node = V.current := by
  obtain ⟨V₀, hr₀, hok₀⟩ := h.rep
  obtain ⟨c, hc, hcur⟩ := hok₀.current
  have hreach := hr₀.queue.reaches_iff.mpr (List.mem_map_of_mem (f := ProcessView.node) hc)
  obtain ⟨p, hp, hnode⟩ := List.mem_map.mp (hr.queue.reaches_iff.mp hreach)
  exact ⟨p, hp, by rw [hnode, hcur, ← hr₀.current, hr.current]⟩

/-- Events that pass the test, as steps. -/
theorem runSound_steps {P : KernelOp → Prop} {ops : List KernelOp} (hops : ∀ op ∈ ops, P op)
    (hrun : KernelOp.runSound fuel ops k = .ok k') :
    Relation.ReflTransGen (KernelStep fun k op => Sound k op ∧ P op) k k' := by
  induction ops generalizing k with
  | nil =>
      obtain rfl := Except.ok.inj hrun
      exact .refl
  | cons op ops ih =>
      obtain ⟨hs, k₁, hrun₁, hrun⟩ := KernelOp.runSound_cons hrun
      refine .head ?_ (ih (fun op' hmem => hops op' (List.mem_cons_of_mem _ hmem)) hrun)
      exact ⟨k, op, fuel, .refl k, ⟨hs, hops op List.mem_cons_self⟩, hrun₁⟩

/-- Local pointers into a page that nobody uses. -/
def freeGarbage : Garbage := ⟨0x7000000, 0x7000000, fun _ => 0x7000000⟩

/-- A third process is made, makes and kills a second thread, is killed, and is removed. -/
def shortLife : Except Stop (Kernel × (Int × Kernel) × Kernel × Kernel) := do
  let k ← startKernel
  let (pid, k₁) ← addProcess 40 k 1 4 8
  let k₂ ← KernelOp.runSound 40 [.addThread 2 1 4, .removeThread 2 1, .removeProcess 2] k₁
  let k₃ ← removeDeadProcess 40 freeGarbage k₂
  return (k, (pid, k₁), k₂, k₃)

instance (k : Kernel) (a : Addr) : Decidable (k.Reserved a) := inferInstanceAs (Decidable (_ ∧ _))

instance (k : Kernel) (a : Addr) : Decidable (k.Unreserved a) :=
  inferInstanceAs (Decidable (_ ∧ _ ∧ _))

/-- The page of the name of the newest process. -/
def Kernel.newestName (k : Kernel) : Addr := (k.process (k.processes.headD NULL)).name

theorem shortLife_states : (do
    let r ← shortLife
    let (k, (pid, k₁), k₂, k₃) := r
    return decide (pid = 2 ∧ k.cleanProcess? ∧ (¬ k.Reserved k₁.newestName ∧
        k₁.Reserved k₁.newestName ∧ k₃.Reserved k₁.newestName) ∧
      k₃.processState 40 2 = .ok none ∧
      k₂.processes.countP (fun a => (k₂.process a).state = .DEAD) ≤ 1 ∧
      (∀ i : Nat, i < 8 → k₂.Unreserved (0x7000000 + NEXT_OFFSET + i)) ∧
      (k₂.process (k₂.schedulerNode k₂.currentProcess).process).state ≠ .DEAD) :
      Except Stop Bool) = .ok true := by
  decide +kernel

theorem shortLife_steps : ∃ k k₁ k', Run Sound k ∧ Sound k (.addProcess 1 4 8) ∧
    addProcess 40 k 1 4 8 = .ok (2, k₁) ∧
    Relation.ReflTransGen (KernelStep fun k op => Sound k op ∧ op.InLife 2) k₁ k' ∧
    (∀ s, ¬ k'.ProcessIs 2 s) ∧ ¬ k.GaveBack k₁ k' := by
  obtain ⟨r, hr, h⟩ := bind_eq_ok.mp shortLife_states
  rw [shortLife] at hr
  obtain ⟨k, hk, hr⟩ := bind_eq_ok.mp hr
  obtain ⟨⟨pid, k₁⟩, hk₁, hr⟩ := bind_eq_ok.mp hr
  obtain ⟨k₂, hk₂, hr⟩ := bind_eq_ok.mp hr
  obtain ⟨k₃, hk₃, hr⟩ := bind_eq_ok.mp hr
  obtain rfl := Except.ok.inj hr
  obtain ⟨rfl, hclean, ⟨hfree, hreserved₁, hreserved₃⟩, hgone, hone, hunused, halive⟩ :=
    of_decide_eq_true (Except.ok.inj h)
  have hrun : Run Sound k := .start (booted_of_start hk)
  have hsound : Sound k (.addProcess 1 4 8) := Kernel.cleanProcess_of hclean
  have hrun₁ : Run Sound k₁ := hrun.step _ hsound (bind_eq_ok.mpr ⟨_, hk₁, rfl⟩)
  -- the page of the name is reserved before and after the life, and was free before
  refine ⟨k, k₁, k₃, hrun, hsound, hk₁, (runSound_steps ?_ hk₂).tail ?_,
    Kernel.not_processIs_of hgone, fun hback => hback _ hfree hreserved₁ hreserved₃⟩
  · intro op hop
    simp only [List.mem_cons, List.not_mem_nil, or_false] at hop
    rcases hop with rfl | rfl | rfl <;> rfl
  -- the removal of the dead process is sound: it is the only one that is dead
  · refine ⟨k₂, .removeDeadProcess freeGarbage, 40, .refl k₂, ⟨fun V hr => ?_, trivial⟩, hk₃⟩
    refine ⟨hr.reapSafe_of_oneDead hone fun _ => ⟨(by decide : (0x7000000 : Addr) ≠ NULL), hunused⟩, ?_⟩
    obtain ⟨p, hp, hcur⟩ := (hrun₁.runSound hk₂).exists_current hr
    refine ⟨p, ?_, hcur⟩
    have hrp := hr.processes p hp
    rw [hr.current, ← hcur, hrp.process, hrp.val] at halive
    rw [View.reap_table hr.queue.nodup]
    exact List.mem_filter.mpr ⟨hp, View.kept_of_alive (by simpa [ProcessView.alive] using halive)⟩

/-- The page of the name of a process outlives it. -/
theorem name_outlives_process : ¬ ∀ (k k₁ k' : Kernel) (fuel : Nat) (exec entryPoint name : Addr)
    (pid : Int), Run Sound k → Sound k (.addProcess exec entryPoint name) →
    addProcess fuel k exec entryPoint name = .ok (pid, k₁) →
    Relation.ReflTransGen (KernelStep fun k op => Sound k op ∧ op.InLife pid) k₁ k' →
    (∀ s, ¬ k'.ProcessIs pid s) → k.GaveBack k₁ k' := by
  intro hclaim
  obtain ⟨k, k₁, k', hrun, hsound, hcreate, hlife, hgone, hleak⟩ := shortLife_steps
  exact hleak (hclaim k k₁ k' 40 1 4 8 2 hrun hsound hcreate hlife hgone)

theorem creation_leaks_short_life : ∃ k k₁ k', addProcess 40 k 1 4 8 = .ok (2, k₁) ∧
    (∀ s, ¬ k'.ProcessIs 2 s) ∧ ¬ k.GaveBack k₁ k' := by
  obtain ⟨k, k₁, k', hrun, hsound, hcreate, hlife, hgone, -⟩ := shortLife_steps
  refine ⟨k, k₁, k', hcreate, hgone, creation_leaks hrun (.refl k) hsound hcreate ?_⟩
  refine Relation.ReflTransGen.mono ?_ _ _ hlife
  rintro _ _ ⟨k₂, op, fuel, hrec, hallowed, hstep⟩
  exact ⟨k₂, op, fuel, hrec, hallowed.1, hstep⟩

end BasicKernel
