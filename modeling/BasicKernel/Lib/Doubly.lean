import BasicKernel.Lib.Linked

set_option autoImplicit false

/-! # Lists with links in both directions

`Doubly next prev nil p xs` says that the pointer `p` starts the list of the nodes `xs`, that `next`
of a node is the node behind it and `prev` the node in front of it, and that both are `nil` at the
ends. The two edits are a new node at the end and the removal of a node. `linkNext` and `linkPrev`
are the stores that they make into the neighbours.
-/

namespace Linked

variable {α : Type*}

structure Doubly (next prev : α → α) (nil p : α) (xs : List α) : Prop where
  nodup : xs.Nodup
  nil_notMem : nil ∉ xs
  head : p = xs.headD nil
  next_eq : ∀ {A : List α} {x : α} {B : List α}, xs = A ++ x :: B → next x = B.headD nil
  prev_eq : ∀ {A : List α} {x : α} {B : List α}, xs = A ++ x :: B → prev x = A.getLastD nil

section Stores

variable [DecidableEq α]

/-- The last of the nodes, if there is one, points to `v`. -/
def linkNext (next : α → α) (A : List α) (v : α) : α → α :=
  match A.getLast? with
  | none => next
  | some x => Function.update next x v

/-- The first of the nodes, if there is one, points back to `v`. -/
def linkPrev (prev : α → α) (B : List α) (v : α) : α → α :=
  match B.head? with
  | none => prev
  | some x => Function.update prev x v

variable {next prev : α → α} {A B : List α} {x v : α}

@[simp] theorem linkNext_nil (next : α → α) (v : α) : linkNext next [] v = next := rfl

theorem linkNext_concat (next : α → α) (A : List α) (x v : α) :
    linkNext next (A ++ [x]) v = Function.update next x v := by
  unfold linkNext
  rw [List.getLast?_concat]

/-- Only the last of the nodes changes. -/
theorem linkNext_of_notMem (hx : x ∉ A) : linkNext next A v x = next x := by
  rcases List.eq_nil_or_concat A with rfl | ⟨A, y, rfl⟩
  · rfl
  · rw [List.concat_eq_append] at *
    rw [linkNext_concat, Function.update_of_ne]
    rintro rfl
    exact hx (List.mem_append_right _ (List.mem_singleton_self _))

theorem linkNext_of_ne_last {y : α} (hA : (A ++ x :: y :: B).Nodup) :
    linkNext next (A ++ x :: y :: B) v x = next x := by
  rcases List.eq_nil_or_concat (y :: B) with hnil | ⟨C, z, hC⟩
  · exact absurd hnil (List.cons_ne_nil y B)
  · rw [List.concat_eq_append] at hC
    rw [hC] at hA ⊢
    rw [← List.cons_append, ← List.append_assoc, linkNext_concat, Function.update_of_ne]
    rintro rfl
    rw [← List.cons_append, ← List.append_assoc] at hA
    refine (List.nodup_append.mp hA).2.2 x ?_ x (List.mem_singleton_self x) rfl
    exact List.mem_append_right _ List.mem_cons_self

@[simp] theorem linkPrev_nil (prev : α → α) (v : α) : linkPrev prev [] v = prev := rfl

theorem linkPrev_cons (prev : α → α) (x : α) (B : List α) (v : α) :
    linkPrev prev (x :: B) v = Function.update prev x v := rfl

theorem linkPrev_of_notMem (hx : x ∉ B) : linkPrev prev B v x = prev x := by
  cases B with
  | nil => rfl
  | cons y B =>
      rw [linkPrev_cons, Function.update_of_ne]
      rintro rfl
      exact hx List.mem_cons_self

end Stores

namespace Doubly

variable {next prev next' prev' : α → α} {nil p : α} {xs : List α}

theorem empty (next prev : α → α) (nil : α) : Doubly next prev nil nil [] :=
  ⟨List.nodup_nil, List.not_mem_nil, rfl, fun h => absurd h (by simp), fun h => absurd h (by simp)⟩

theorem congr (h : Doubly next prev nil p xs) (hnext : ∀ x ∈ xs, next' x = next x)
    (hprev : ∀ x ∈ xs, prev' x = prev x) : Doubly next' prev' nil p xs := by
  refine ⟨h.nodup, h.nil_notMem, h.head, fun {A x B} heq => ?_, fun {A x B} heq => ?_⟩
  · have hx : x ∈ xs := heq ▸ List.mem_append_right A List.mem_cons_self
    exact (hnext x hx).trans (h.next_eq heq)
  · have hx : x ∈ xs := heq ▸ List.mem_append_right A List.mem_cons_self
    exact (hprev x hx).trans (h.prev_eq heq)

/-- The nodes behind a place are a list of their own. -/
theorem chain_suffix (h : Doubly next prev nil p xs) (B : List α) :
    ∀ A, xs = A ++ B → Chain next nil (B.headD nil) B := by
  induction B with
  | nil => exact fun _ _ => .empty next nil
  | cons x B ih =>
      intro A heq
      have hx : x ≠ nil := by
        rintro rfl
        exact h.nil_notMem (heq ▸ List.mem_append_right A List.mem_cons_self)
      refine Chain.cons_iff.mpr ⟨rfl, hx, ?_⟩
      rw [h.next_eq heq]
      exact ih (A ++ [x]) (by rw [heq, List.append_assoc, List.singleton_append])

theorem chain (h : Doubly next prev nil p xs) : Chain next nil p xs := by
  rw [h.head]
  exact h.chain_suffix xs [] rfl

/-- The node behind a node, if there is one, is in the list and points back. -/
theorem next_prev (h : Doubly next prev nil p xs) {x : α} (hx : x ∈ xs) (hne : next x ≠ nil) :
    next x ∈ xs ∧ prev (next x) = x := by
  obtain ⟨A, B, rfl⟩ := List.append_of_mem hx
  have hnext := h.next_eq rfl
  cases B with
  | nil => exact absurd hnext hne
  | cons y B =>
      have hy : next x = y := hnext
      rw [hy]
      refine ⟨by simp, ?_⟩
      have hprev := h.prev_eq (A := A ++ [x]) (x := y) (B := B) (by simp)
      rw [hprev, List.getLastD_concat]

theorem prev_next (h : Doubly next prev nil p xs) {x : α} (hx : x ∈ xs) (hne : prev x ≠ nil) :
    prev x ∈ xs ∧ next (prev x) = x := by
  obtain ⟨A, B, rfl⟩ := List.append_of_mem hx
  have hprev := h.prev_eq rfl
  rcases List.eq_nil_or_concat A with rfl | ⟨A, y, rfl⟩
  · exact absurd hprev hne
  · rw [List.concat_eq_append] at *
    rw [List.getLastD_concat] at hprev
    rw [hprev]
    refine ⟨by simp, ?_⟩
    exact h.next_eq (A := A) (x := y) (B := x :: B) (by simp)

variable [DecidableEq α]

/-- A node is linked behind the last one. -/
theorem append (h : Doubly next prev nil p xs) {n : α} (hn : n ∉ xs) (hne : n ≠ nil) :
    Doubly (linkNext (Function.update next n nil) xs n)
      (Function.update prev n (xs.getLastD nil)) nil ((xs ++ [n]).headD nil) (xs ++ [n]) := by
  have hnodup : (xs ++ [n]).Nodup := by
    rw [List.nodup_append]
    exact ⟨h.nodup, List.nodup_singleton n, fun a ha b hb hab =>
      hn (List.mem_singleton.mp hb ▸ hab ▸ ha)⟩
  refine ⟨hnodup, ?_, rfl, fun {A x B} heq => ?_, fun {A x B} heq => ?_⟩
  · intro hmem
    rcases List.mem_append.mp hmem with hold | hnew
    · exact h.nil_notMem hold
    · exact hne (List.mem_singleton.mp hnew).symm
  -- the successor of a node of the longer list: it is the old one, except behind the old last node
  · rcases List.eq_nil_or_concat B with rfl | ⟨B, y, rfl⟩
    · obtain ⟨rfl, hx⟩ := List.append_inj' heq rfl
      obtain rfl := (List.cons.inj hx).1
      rw [linkNext_of_notMem hn, Function.update_self]
      rfl
    · rw [List.concat_eq_append, ← List.cons_append, ← List.append_assoc] at heq
      obtain ⟨hxs, hy⟩ := List.append_inj' heq rfl
      obtain rfl := (List.cons.inj hy).1
      have hx : x ≠ n := by
        rintro rfl
        exact hn (hxs ▸ List.mem_append_right A List.mem_cons_self)
      cases B with
      | nil =>
          rw [hxs, linkNext_concat, Function.update_self]
          rfl
      | cons z B =>
          have hnext := h.next_eq hxs
          have hnodup := h.nodup
          rw [hxs] at hnodup ⊢
          rw [linkNext_of_ne_last hnodup, Function.update_of_ne hx, hnext]
          rfl
  -- no predecessor changes but the new node's own
  · rcases List.eq_nil_or_concat B with rfl | ⟨B, y, rfl⟩
    · obtain ⟨rfl, hx⟩ := List.append_inj' heq rfl
      obtain rfl := (List.cons.inj hx).1
      rw [Function.update_self]
    · rw [List.concat_eq_append, ← List.cons_append, ← List.append_assoc] at heq
      obtain ⟨hxs, hy⟩ := List.append_inj' heq rfl
      obtain rfl := (List.cons.inj hy).1
      have hx : x ≠ n := by
        rintro rfl
        exact hn (hxs ▸ List.mem_append_right A List.mem_cons_self)
      rw [Function.update_of_ne hx]
      exact h.prev_eq hxs

/-- A node is taken out, and its neighbours are linked to each other. -/
theorem remove {A B : List α} {c : α} (h : Doubly next prev nil p (A ++ c :: B)) :
    Doubly (linkNext next A (B.headD nil)) (linkPrev prev B (A.getLastD nil)) nil
      ((A ++ B).headD nil) (A ++ B) := by
  have hnodup := h.nodup
  have hsub : (A ++ B).Sublist (A ++ c :: B) := (List.sublist_cons_self c B).append_left A
  have hdisjoint : ∀ x ∈ A, x ∉ B := by
    intro x hA hB
    exact (List.nodup_append.mp hnodup).2.2 x hA x (List.mem_cons_of_mem c hB) rfl
  refine ⟨hnodup.sublist hsub, fun hmem => h.nil_notMem (hsub.subset hmem), rfl,
    fun {A' x B'} heq => ?_, fun {A' x B'} heq => ?_⟩
  -- a successor: the node lies behind the gap, right in front of it, or further in front
  · rcases List.append_eq_append_iff.mp heq with ⟨C, rfl, rfl⟩ | ⟨C, rfl, hC⟩
    · have hx : x ∉ A := fun hA => hdisjoint x hA (List.mem_append_right C List.mem_cons_self)
      rw [linkNext_of_notMem hx]
      exact h.next_eq (A := A ++ c :: C) (by simp)
    · cases C with
      | nil =>
          obtain rfl : x :: B' = B := hC
          have hx : x ∉ A' ++ [] := fun hA => hdisjoint x hA List.mem_cons_self
          rw [linkNext_of_notMem hx]
          exact h.next_eq (A := A' ++ [] ++ [c]) (by simp)
      | cons y C =>
          obtain ⟨rfl, rfl⟩ := List.cons.inj hC
          cases C with
          | nil =>
              rw [linkNext_concat, Function.update_self]
              rfl
          | cons z C =>
              rw [linkNext_of_ne_last (List.nodup_append.mp hnodup).1]
              exact h.next_eq (A := A') (B := z :: C ++ c :: B) (by simp)
  -- a predecessor: the same three places, seen from the other end
  · rcases List.append_eq_append_iff.mp heq with ⟨C, rfl, rfl⟩ | ⟨C, rfl, hC⟩
    · cases C with
      | nil =>
          rw [List.nil_append, linkPrev_cons, Function.update_self, List.append_nil]
      | cons y C =>
          rw [List.cons_append, linkPrev_cons, Function.update_of_ne]
          · have hprev := h.prev_eq (A := A ++ c :: y :: C) (x := x) (B := B') (by simp)
            rw [hprev]
            simp [List.getLastD_eq_getLast?, List.getLast?_append, List.getLast?_cons]
          · rintro rfl
            have hB := (List.nodup_cons.mp (List.nodup_append.mp hnodup).2.1).2
            rw [List.cons_append] at hB
            exact (List.nodup_cons.mp hB).1 (List.mem_append_right C List.mem_cons_self)
    · cases C with
      | nil =>
          obtain rfl : x :: B' = B := hC
          rw [linkPrev_cons, Function.update_self, List.append_nil]
      | cons y C =>
          obtain ⟨rfl, rfl⟩ := List.cons.inj hC
          have hx : x ∉ B := hdisjoint x (List.mem_append_right A' List.mem_cons_self)
          rw [linkPrev_of_notMem hx]
          exact h.prev_eq (A := A') (B := C ++ c :: B) (by simp)

end Doubly

end Linked
