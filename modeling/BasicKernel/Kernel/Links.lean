import BasicKernel.Kernel.State

set_option autoImplicit false

/-! # Lists that are rebuilt by recursion

The kernel keeps its locks, pipes and heap blocks in lists that end with the null pointer. A
function that adds to such a list or removes from it calls itself on the successor and stores
the result back into `next`, at every node on the way. `addLast` and `removeFirst` are these two
recursions, over the structure whose field `next` is followed.

A recursion of this kind stores a pointer in every node that it passes. Most of these stores put
back what is there, and the lemmas say which one does not.
-/

namespace BasicKernel

open Linked

/-- The field `next` of one of the structures. -/
structure Link where
  next : Kernel → Addr → Addr
  setNext : Kernel → Addr → Addr → Kernel
  next_setNext : ∀ k p v, next (setNext k p v) = Function.update (next k) p v
  setNext_next : ∀ k p, setNext k p (next k p) = k

/-- `f(node) = node == NULL ? tail() : (node->next = f(node->next), node)` -/
def addLast (l : Link) (tail : Kernel → Except Stop (Addr × Kernel)) :
    Nat → Kernel → Addr → Except Stop (Addr × Kernel)
  | 0, _, _ => .error .outOfFuel
  | fuel + 1, k, node =>
      if node = NULL then tail k
      else do
        let (next, k) ← addLast l tail fuel k (l.next k node)
        return (node, l.setNext k node next)

/-- The same recursion that ends at the first node that is `found`: it is freed, and its
successor takes its place. -/
def removeFirst (l : Link) (found : Kernel → Addr → Bool)
    (free : Kernel → Addr → Except Stop Kernel) :
    Nat → Kernel → Addr → Except Stop (Addr × Kernel)
  | 0, _, _ => .error .outOfFuel
  | fuel + 1, k, node =>
      if node = NULL then .ok (NULL, k)
      else if found k node then do
        let next := l.next k node
        let k ← free k node
        return (next, k)
      else do
        let (next, k) ← removeFirst l found free fuel k (l.next k node)
        return (node, l.setNext k node next)

variable (l : Link)

/-- The list that starts with `p` in state `k`. -/
def Link.IsList (k : Kernel) (p : Addr) (xs : List Addr) : Prop := Chain (l.next k) NULL p xs

/-- The state and the first node after `n` was linked behind the nodes `xs`. -/
def Link.linkLast (p : Addr) (xs : List Addr) (n : Addr) (k : Kernel) : Addr × Kernel :=
  match xs.getLast? with
  | none => (n, k)
  | some last => (p, l.setNext k last n)

variable {l} {k k₁ : Kernel} {p n : Addr} {xs : List Addr}

/-- The store of an unchanged successor into `x` is no change. -/
theorem Link.setNext_linkLast (hp : p ∉ xs) (hk : l.next k₁ p = l.next k p) :
    (p, l.setNext (l.linkLast (l.next k p) xs n k₁).2 p (l.linkLast (l.next k p) xs n k₁).1)
      = l.linkLast p (p :: xs) n k₁ := by
  cases hxs : xs.getLast? with
  | none =>
      obtain rfl : xs = [] := by simpa using hxs
      simp [Link.linkLast]
  | some last =>
      have hlast : last ∈ xs := List.mem_of_getLast? hxs
      have hne : p ≠ last := by
        rintro rfl
        exact hp hlast
      have hcons : (p :: xs).getLast? = some last := by
        rw [List.getLast?_cons, hxs]
        rfl
      have hnext : l.next (l.setNext k₁ last n) p = l.next k p := by
        rw [l.next_setNext, Function.update_of_ne hne, hk]
      simp only [Link.linkLast, hxs, hcons, ← hnext, l.setNext_next]

/-- The nodes `ys` behind `n` are then behind the nodes `xs`. -/
theorem Link.isList_linkLast {ys : List Addr} {b : Addr} (hxs : Path (l.next k) p xs b)
    (hys : l.IsList k n ys) (hnull : NULL ∉ xs) (hnd : (xs ++ ys).Nodup) :
    l.IsList (l.linkLast p xs n k).2 (l.linkLast p xs n k).1 (xs ++ ys) := by
  -- only the last node of `xs` is written, so the path in front of it and `ys` stay
  rcases List.eq_nil_or_concat xs with rfl | ⟨A, last, rfl⟩
  · exact hys
  · rw [List.concat_eq_append] at *
    have hlast : (A ++ [last]).getLast? = some last := by simp
    simp only [Link.linkLast, hlast]
    obtain ⟨hA, -, hdis⟩ := List.nodup_append.mp hnd
    have hlastA : last ∉ A := by
      have := List.nodup_append.mp hA
      exact fun hm => this.2.2 last hm last (by simp) rfl
    have hlastys : last ∉ ys := fun hm => hdis last (by simp) last hm rfl
    obtain ⟨c, hpA, rfl, -⟩ := path_append.mp hxs
    refine ⟨?_, fun hm => ?_⟩
    · rw [l.next_setNext, List.append_assoc]
      refine path_append.mpr ⟨c, hpA.update hlastA, rfl, ?_⟩
      rw [Function.update_self]
      exact hys.path.update hlastys
    · rcases List.mem_append.mp hm with hm | hm
      · exact hnull hm
      · exact hys.nil_notMem hm

/-- What `addLast` does on a list: everything happens at the end. -/
theorem addLast_spec {tail : Kernel → Except Stop (Addr × Kernel)} (h : l.IsList k p xs)
    (htail : ∀ n k₁, tail k = .ok (n, k₁) → ∀ x ∈ xs, l.next k₁ x = l.next k x) (fuel : Nat) :
    addLast l tail fuel k p = if xs.length < fuel
      then tail k >>= fun r => .ok (l.linkLast p xs r.1 r.2) else .error .outOfFuel := by
  -- on the list: the recursion stores `next` at every node, and each store but the last writes what
  -- is there
  induction xs generalizing p fuel with
  | nil =>
      cases fuel with
      | zero => rfl
      | succ fuel =>
          rw [addLast, if_pos (Chain.nil_iff.mp h), if_pos (by simp)]
          cases tail k <;> rfl
  | cons x xs ih =>
      obtain ⟨rfl, hne, ht⟩ := Chain.cons_iff.mp h
      cases fuel with
      | zero => rfl
      | succ fuel =>
          rw [addLast, if_neg hne, ih ht fun n k₁ hk y hy => htail n k₁ hk y (by simp [hy])]
          simp only [List.length_cons, Nat.add_lt_add_iff_right]
          by_cases hf : xs.length < fuel
          · rw [if_pos hf, if_pos hf]
            cases hr : tail k with
            | error e => rfl
            | ok r =>
                simp only [ok_bind, pure_eq_ok]
                rw [Link.setNext_linkLast (List.nodup_cons.mp (Chain.nodup h)).1
                  (htail r.1 r.2 hr p (by simp))]
          · rw [if_neg hf, if_neg hf]
            rfl

variable {found : Kernel → Addr → Bool} {free : Kernel → Addr → Except Stop Kernel}

/-- What `removeFirst` does on a list that has a node to remove. -/
theorem removeFirst_found {A B : List Addr} {c : Addr} (h : l.IsList k p (A ++ c :: B))
    (hA : ∀ x ∈ A, found k x = false) (hc : found k c = true)
    (hfree : ∀ k₁, free k c = .ok k₁ → ∀ x ∈ A, l.next k₁ x = l.next k x) (fuel : Nat) :
    removeFirst l found free fuel k p = if A.length < fuel
      then free k c >>= fun k₁ => .ok (l.linkLast p A (l.next k c) k₁) else .error .outOfFuel := by
  -- on the nodes in front of the removed one: each stores the pointer that it already holds
  induction A generalizing p fuel with
  | nil =>
      obtain ⟨rfl, hne, -⟩ := Chain.cons_iff.mp h
      cases fuel with
      | zero => rfl
      | succ fuel =>
          rw [removeFirst, if_neg hne, if_pos hc, if_pos (by simp)]
          rfl
  | cons x A ih =>
      obtain ⟨rfl, hne, ht⟩ := Chain.cons_iff.mp h
      have hx : ¬ found k p = true := by rw [hA p (by simp)]; exact Bool.false_ne_true
      cases fuel with
      | zero => rfl
      | succ fuel =>
          rw [removeFirst, if_neg hne, if_neg hx,
            ih ht (fun y hy => hA y (by simp [hy])) fun k₁ hk y hy => hfree k₁ hk y (by simp [hy])]
          simp only [List.length_cons, Nat.add_lt_add_iff_right]
          by_cases hf : A.length < fuel
          · rw [if_pos hf, if_pos hf]
            cases hr : free k c with
            | error e => rfl
            | ok k₁ =>
                simp only [ok_bind, pure_eq_ok]
                have hp : p ∉ A ++ c :: B := (List.nodup_cons.mp (Chain.nodup h)).1
                rw [Link.setNext_linkLast (fun hm => hp (List.mem_append_left _ hm))
                  (hfree k₁ hr p (by simp))]
          · rw [if_neg hf, if_neg hf]
            rfl

/-- On a list without a node to remove `removeFirst` changes nothing. -/
theorem removeFirst_absent (h : l.IsList k p xs) (hxs : ∀ x ∈ xs, found k x = false) (fuel : Nat) :
    removeFirst l found free fuel k p = if xs.length < fuel then .ok (p, k)
      else .error .outOfFuel := by
  -- every node is visited, and every store writes back what was read
  induction xs generalizing p fuel with
  | nil =>
      obtain rfl := Chain.nil_iff.mp h
      cases fuel with
      | zero => rfl
      | succ fuel => rw [removeFirst, if_pos rfl, if_pos (by simp)]
  | cons x xs ih =>
      obtain ⟨rfl, hne, ht⟩ := Chain.cons_iff.mp h
      have hx : ¬ found k p = true := by rw [hxs p (by simp)]; exact Bool.false_ne_true
      cases fuel with
      | zero => rfl
      | succ fuel =>
          rw [removeFirst, if_neg hne, if_neg hx, ih ht fun y hy => hxs y (by simp [hy])]
          simp only [List.length_cons, Nat.add_lt_add_iff_right]
          by_cases hf : xs.length < fuel
          · rw [if_pos hf, if_pos hf]
            simp only [ok_bind, pure_eq_ok, l.setNext_next]
          · rw [if_neg hf, if_neg hf]
            rfl

end BasicKernel
