import BasicKernel.Lib.Linked

set_option autoImplicit false

/-! # Round robin on a ring

A step scans a ring from the node behind the current one for the first node that satisfies `p`,
and makes this node the current one. As many steps as there are such nodes select each of them
once, in the order of the ring.
-/

namespace RoundRobin

open Linked Fuel

variable {α σ ε : Type} {next : α → α} {c a : α} {p p' : α → Bool} {M as : List α}

/-! ## The ring seen from its current node

The candidates are ordered as the scan meets them. One scan takes the first of them, which from
the new current node is the last to be met again. -/

/-- `M` are the nodes of the ring behind `c`, up to the node in front of `c`. -/
def Behind (next : α → α) (c : α) (M : List α) : Prop := Ring next (next c) (M ++ [c])

/-- The nodes that satisfy `p`, in the order in which they are met behind `c`. -/
def turn (p : α → Bool) (c : α) (M : List α) : List α := (M ++ [c]).filter p

theorem behind_perm (A B : List α) (c : α) : (B ++ A ++ [c]).Perm (A ++ c :: B) := by
  have hperm := @List.perm_append_comm α B (A ++ [c])
  rwa [List.append_assoc A, List.singleton_append, ← List.append_assoc] at hperm

theorem Behind.of_ring {h : α} {A B : List α} (hr : Ring next h (A ++ c :: B)) :
    Behind next c (B ++ A) :=
  ⟨hr.path_after, by simp, (behind_perm A B c).nodup_iff.mpr hr.nodup⟩

/-- The nodes of a path are the iterates of its first one. -/
theorem iterate_of_path {xs : List α} {x y : α} (h : Path next x xs y) :
    List.iterate next x xs.length = xs := by
  induction xs generalizing x with
  | nil => rfl
  | cons x xs ih =>
      obtain ⟨rfl, hp⟩ := h
      rw [List.length_cons, List.iterate, ih hp]

theorem Behind.iterate (h : Behind next c M) :
    List.iterate next (next c) (M.length + 1) = M ++ [c] := by
  have := iterate_of_path h.path
  rwa [List.length_append] at this

/-- Two scans from the same node that find something find the same. -/
theorem find_iterate_unique {p : α → Bool} {a x y : α} {m n : Nat}
    (hm : (List.iterate next a m).find? p = some x) (hn : (List.iterate next a n).find? p = some y) :
    x = y := by
  have hle : ∀ {m n : Nat} {x y : α}, m ≤ n → (List.iterate next a m).find? p = some x →
      (List.iterate next a n).find? p = some y → x = y := by
    intro m n x y hmn hm hn
    have hinit : List.iterate next a m <+: List.iterate next a n := by
      rw [← Nat.min_eq_left hmn, ← List.take_iterate]
      exact List.take_prefix m _
    rw [hinit.find?_eq_some hm] at hn
    exact Option.some.inj hn
  rcases Nat.le_total m n with hmn | hnm
  · exact hle hmn hm hn
  · exact (hle hnm hn hm).symm

/-- The scan stops at the first node of the turn, and from there on the others come first. -/
theorem Behind.advance (h : Behind next c M) (hturn : turn p c M = a :: as) :
    (M ++ [c]).find? p = some a ∧ ∃ M', Behind next a M' ∧ turn p a M' = as ++ [a] ∧
      ∀ x, x ∈ M' ++ [a] ↔ x ∈ M ++ [c] := by
  obtain ⟨X, Y, hsplit, hX, ha, hY⟩ := List.filter_eq_cons_iff.mp hturn
  have hXnone : X.filter p = [] := List.filter_eq_nil_iff.mpr fun x hx => by simpa using hX x hx
  refine ⟨?_, Y ++ X, ?_, ?_, fun x => ?_⟩
  · rw [hsplit, List.find?_append, List.find?_eq_none.mpr fun x hx => by simpa using hX x hx]
    simp [ha]
  · unfold Behind at h
    rw [hsplit] at h
    exact .of_ring h
  · simp [turn, hXnone, hY, ha]
  · rw [hsplit]
    simp only [List.mem_append, List.mem_cons, List.not_mem_nil, or_false]
    tauto

theorem turn_congr (h : ∀ x ∈ M ++ [c], p' x = p x) : turn p' c M = turn p c M :=
  List.filter_congr h

/-- The scan as a loop over the pointers. -/
theorem Behind.seek {timeout : ε} {cond : α → Except ε Bool} {step : α → Except ε α}
    (h : Behind next c M) (ha : (M ++ [c]).find? p = some a)
    (hcond : ∀ x ∈ M ++ [c], cond x = .ok (!p (next x)))
    (hstep : ∀ x ∈ M ++ [c], step x = .ok (next x)) :
    ∃ c' ∈ M ++ [c], next c' = a ∧ Returns timeout (fun fuel => walkWhile timeout cond step fuel c) c' := by
  obtain ⟨c', hc', hnext, hwalk⟩ := Ring.seek h (by simpa using ha)
  exact ⟨c', hc', hnext, hwalk hcond hstep⟩

/-! ## Several steps

A step may do more than scan, for it changes states as well. What is asked of it is that it
selects the first of those whose turn it is and leaves the order of the others. -/

/-- What `n` steps select, and the last state. -/
def selections (step : Nat → σ → Except ε σ) (current : σ → α) (fuel : Nat) :
    Nat → σ → Except ε (List α × σ)
  | 0, s => .ok ([], s)
  | n + 1, s => do
      let s ← step fuel s
      let (selected, last) ← selections step current fuel n s
      return (current s :: selected, last)

/-- When a step selects the first of those whose turn it is and puts it last, `n` steps select the
first `n`. -/
theorem selections_take {timeout : ε} {step : Nat → σ → Except ε σ} {current : σ → α}
    (Inv : σ → List α → Prop)
    (hstep : ∀ s a as, Inv s (a :: as) →
      ∃ s', Returns timeout (step · s) s' ∧ current s' = a ∧ Inv s' (as ++ [a])) {s : σ}
    (h : Inv s as) {n : Nat} (hn : n ≤ as.length) :
    ∃ s', Returns timeout (selections step current · n s) (as.take n, s') := by
  induction n generalizing s as with
  | zero => exact ⟨s, Returns.const timeout _⟩
  | succ n ih =>
      cases as with
      | nil => cases hn
      | cons a as =>
          obtain ⟨s₁, hret, rfl, hinv⟩ := hstep s a as h
          have hn : n ≤ as.length := Nat.le_of_succ_le_succ hn
          obtain ⟨s', hrest⟩ := ih hinv (by simp; omega)
          rw [List.take_append_of_le_length hn] at hrest
          exact ⟨s', hret.bind (hrest.bind (Returns.const timeout _))⟩

end RoundRobin
