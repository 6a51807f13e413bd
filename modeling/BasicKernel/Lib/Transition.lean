import Mathlib.Tactic

set_option autoImplicit false

/-! # Runs of a transition system

A transition system is a predicate `init` on states and a relation `step` between them. Its
reachable states are those of finite runs. Invariants are proved with
`Reachable.invariant`: they hold initially, and every step from a reachable state that
satisfies them leads to a state that does. That a run can be brought to an end is proved with
`exists_run_of_rank`: a step can make the rank smaller wherever the end is not reached.
-/

namespace Transition

variable {σ : Type*} {init init' : σ → Prop} {step step' : σ → σ → Prop}

/-- The states reached by finite runs. -/
inductive Reachable (init : σ → Prop) (step : σ → σ → Prop) : σ → Prop where
  | start {s : σ} : init s → Reachable init step s
  | next {s s' : σ} : Reachable init step s → step s s' → Reachable init step s'

namespace Reachable

/-- The invariant rule. The step may use that its source is reachable. -/
theorem invariant {I : σ → Prop} (hinit : ∀ s, init s → I s)
    (hstep : ∀ s s', Reachable init step s → I s → step s s' → I s')
    {s : σ} (h : Reachable init step s) : I s := by
  induction h with
  | start hs => exact hinit _ hs
  | next hr hst ih => exact hstep _ _ hr ih hst

/-- A run of a system is a run of every system with more initial states and more steps. -/
theorem mono (hinit : ∀ s, init s → init' s) (hstep : ∀ s s', step s s' → step' s s')
    {s : σ} (h : Reachable init step s) : Reachable init' step' s := by
  induction h with
  | start hs => exact .start (hinit _ hs)
  | next _ hst ih => exact .next ih (hstep _ _ hst)

/-- A run goes on. -/
theorem run {s s' : σ} (h : Reachable init step s) (hrun : Relation.ReflTransGen step s s') :
    Reachable init step s' := by
  induction hrun with
  | refl => exact h
  | tail _ hst ih => exact .next ih hst

end Reachable

/-- The progress rule: where the end `G` is not reached, some step keeps `I` and lowers the rank. -/
theorem exists_run_of_rank {I G : σ → Prop} (rank : σ → Nat)
    (hprogress : ∀ s, I s → ¬ G s → ∃ s', step s s' ∧ I s' ∧ rank s' < rank s) {s : σ} (hs : I s) :
    ∃ s', Relation.ReflTransGen step s s' ∧ I s' ∧ G s' := by
  induction hn : rank s using Nat.strong_induction_on generalizing s with
  | _ n ih =>
      by_cases hG : G s
      · exact ⟨s, .refl, hs, hG⟩
      · obtain ⟨s₁, hst, hs₁, hlt⟩ := hprogress s hs hG
        obtain ⟨s', hrun, hs', hG'⟩ := ih (rank s₁) (hn ▸ hlt) hs₁ rfl
        exact ⟨s', .head hst hrun, hs', hG'⟩

end Transition
