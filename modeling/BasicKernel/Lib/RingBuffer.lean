import Mathlib.Tactic

set_option autoImplicit false

/-! # Ring buffers

A ring buffer of `N` cells: a writer stores at `w` and moves on, a reader takes what is at `r` and
moves on; both wrap at `N`. `Window N cells r w xs` says that the items `xs` are what was written
and not yet read. The two pointers are equal in the empty and in the full buffer.

`Holds free N cells r w xs` is a buffer whose only sign of a free cell is one value, `free`, that
the reader leaves behind: no item is `free`, and all cells outside the window are free.
-/

namespace RingBuffer

variable {α : Type*}

/-- The items `xs` lie in the cells from `r` on, `w` is behind the last. -/
structure Window (N : Nat) (cells : Nat → α) (r w : Nat) (xs : List α) : Prop where
  read_lt : r < N
  write_eq : w = (r + xs.length) % N
  length_le : xs.length ≤ N
  items : ∀ i (hi : i < xs.length), cells ((r + i) % N) = xs[i]

structure Holds (free : α) (N : Nat) (cells : Nat → α) (r w : Nat) (xs : List α) : Prop
    extends Window N cells r w xs where
  ne_free : free ∉ xs
  rest : ∀ i, xs.length ≤ i → i < N → cells ((r + i) % N) = free

/-- The items of a buffer, read off the cells from `r` on up to a free one. -/
def contents [DecidableEq α] (free : α) (N : Nat) (cells : Nat → α) (r : Nat) : List α :=
  ((List.range N).map fun i => cells ((r + i) % N)).takeWhile (· ≠ free)

/-! ## Positions

The cell at distance `i` from the reader is `(r + i) % N`. Below `N` different distances are
different cells. -/

/-- Different distances from `r` below `N` are different cells. -/
theorem slot_inj {N r i j : Nat} (hi : i < N) (hj : j < N)
    (h : (r + i) % N = (r + j) % N) : i = j := by
  have hmod : i ≡ j [MOD N] := Nat.ModEq.add_left_cancel' r h
  unfold Nat.ModEq at hmod
  rwa [Nat.mod_eq_of_lt hi, Nat.mod_eq_of_lt hj] at hmod

theorem slot_succ (N r i : Nat) : ((r + 1) % N + i) % N = (r + (i + 1)) % N := by
  rw [Nat.mod_add_mod, Nat.add_assoc, Nat.add_comm 1 i]

variable {free : α} {N r w : Nat} {cells cells' : Nat → α} {x : α} {xs ys : List α}

/-! ## Windows

The window grows at the writer and shrinks at the reader. The pointers alone do not tell the empty
buffer from the full one; they do while there is room. -/

namespace Window

theorem pos (h : Window N cells r w xs) : 0 < N := Nat.zero_lt_of_lt h.read_lt

theorem write_lt (h : Window N cells r w xs) : w < N := by
  rw [h.write_eq]
  exact Nat.mod_lt _ h.pos

theorem empty (hr : r < N) (cells : Nat → α) : Window N cells r r [] where
  read_lt := hr
  write_eq := (Nat.mod_eq_of_lt hr).symm
  length_le := Nat.zero_le N
  items _ hi := absurd hi (Nat.not_lt_zero _)

/-- A window depends on the cells of its items only. -/
theorem congr (h : Window N cells r w xs)
    (hcells : ∀ i, i < xs.length → cells' ((r + i) % N) = cells ((r + i) % N)) :
    Window N cells' r w xs where
  read_lt := h.read_lt
  write_eq := h.write_eq
  length_le := h.length_le
  items i hi := (hcells i hi).trans (h.items i hi)

theorem read_eq (h : Window N cells r w (x :: xs)) : cells r = x := by
  have hr := h.items 0 (Nat.zero_lt_succ _)
  rwa [Nat.add_zero, Nat.mod_eq_of_lt h.read_lt] at hr

/-- In a buffer with room the pointers are equal exactly if it is empty. -/
theorem pointers_eq_iff (h : Window N cells r w xs) (hroom : xs.length < N) :
    r = w ↔ xs = [] := by
  rw [h.write_eq, ← List.length_eq_zero_iff]
  constructor
  · intro heq
    refine slot_inj hroom h.pos (r := r) ?_
    rw [← heq, Nat.add_zero, Nat.mod_eq_of_lt h.read_lt]
  · intro hzero
    rw [hzero, Nat.add_zero, Nat.mod_eq_of_lt h.read_lt]

/-- A store at the writer appends. -/
theorem push (h : Window N cells r w xs) (hroom : xs.length < N) :
    Window N (Function.update cells w x) r ((w + 1) % N) (xs ++ [x]) where
  read_lt := h.read_lt
  write_eq := by
    rw [h.write_eq, Nat.mod_add_mod, List.length_append, List.length_singleton, Nat.add_assoc]
  length_le := by
    rw [List.length_append, List.length_singleton]
    exact hroom
  items i hi := by
    rw [List.length_append, List.length_singleton] at hi
    rw [h.write_eq]
    rcases Nat.lt_succ_iff_lt_or_eq.mp hi with hlt | heq
    · have hne : (r + i) % N ≠ (r + xs.length) % N := fun heq =>
        absurd (slot_inj (hlt.trans hroom) hroom heq) (Nat.ne_of_lt hlt)
      rw [Function.update_of_ne hne, List.getElem_append_left hlt]
      exact h.items i hlt
    · subst heq
      rw [Function.update_self, List.getElem_append_right (Nat.le_refl _)]
      simp

/-- The reader moves on. -/
theorem pop (h : Window N cells r w (x :: xs)) : Window N cells ((r + 1) % N) w xs where
  read_lt := Nat.mod_lt _ h.pos
  write_eq := by
    rw [h.write_eq, slot_succ, List.length_cons]
  length_le := Nat.le_of_succ_le h.length_le
  items i hi := by
    rw [slot_succ, h.items (i + 1) (Nat.succ_lt_succ hi)]
    rfl

end Window

/-! ## Free cells

Here the cells themselves say whether they are free. A writer may store where the cell at `w` is
free, a reader has an item where the cell at `r` is not, and nothing else is compared. -/

namespace Holds

/-- What the buffer holds depends on its cells only. -/
theorem congr (h : Holds free N cells r w xs) (hcells : ∀ i, i < N → cells' i = cells i) :
    Holds free N cells' r w xs where
  toWindow := h.toWindow.congr fun _ _ => hcells _ (Nat.mod_lt _ h.pos)
  ne_free := h.ne_free
  rest i hle hi := by
    rw [hcells _ (Nat.mod_lt _ h.pos)]
    exact h.rest i hle hi

theorem empty (hr : r < N) (hfree : ∀ i, i < N → cells i = free) : Holds free N cells r r [] where
  toWindow := .empty hr cells
  ne_free := List.not_mem_nil
  rest _ _ _ := hfree _ (Nat.mod_lt _ (Nat.zero_lt_of_lt hr))

/-! ### The tests on the two cells -/

/-- The cell at the reader is free exactly in the empty buffer. -/
theorem read_free_iff (h : Holds free N cells r w xs) : cells r = free ↔ xs = [] := by
  constructor
  · intro hfree
    cases xs with
    | nil => rfl
    | cons x xs =>
        rw [h.read_eq] at hfree
        exact absurd (List.mem_cons.mpr (.inl hfree.symm)) h.ne_free
  · rintro rfl
    have hr := h.rest 0 (Nat.zero_le 0) h.pos
    rwa [Nat.add_zero, Nat.mod_eq_of_lt h.read_lt] at hr

/-- The cell at the writer is free exactly while there is room. -/
theorem write_free_iff (h : Holds free N cells r w xs) : cells w = free ↔ xs.length < N := by
  constructor
  · intro hfree
    refine lt_of_le_of_ne h.length_le fun hfull => ?_
    have hw : w = r := by
      rw [h.write_eq, hfull, Nat.add_mod_right, Nat.mod_eq_of_lt h.read_lt]
    rw [hw] at hfree
    have hnil := h.read_free_iff.mp hfree
    rw [hnil] at hfull
    exact absurd hfull.symm (Nat.ne_of_gt h.pos)
  · intro hlt
    rw [h.write_eq]
    exact h.rest _ (Nat.le_refl _) hlt

/-! ### Writing and reading -/

/-- A store at the writer appends. -/
theorem push (h : Holds free N cells r w xs) (hx : x ≠ free) (hroom : xs.length < N) :
    Holds free N (Function.update cells w x) r ((w + 1) % N) (xs ++ [x]) where
  toWindow := h.toWindow.push hroom
  ne_free := by
    rw [List.mem_append, List.mem_singleton]
    rintro (hmem | rfl)
    · exact h.ne_free hmem
    · exact hx rfl
  rest i hle hi := by
    rw [List.length_append, List.length_singleton] at hle
    have hne : (r + i) % N ≠ (r + xs.length) % N := fun heq =>
      absurd (slot_inj hi hroom heq) (Nat.ne_of_gt hle)
    rw [h.write_eq, Function.update_of_ne hne]
    exact h.rest i (Nat.le_of_succ_le hle) hi

/-- The first item is taken when its cell is freed. -/
theorem pop (h : Holds free N cells r w (x :: xs)) :
    Holds free N (Function.update cells r free) ((r + 1) % N) w xs where
  toWindow := by
    refine h.toWindow.pop.congr fun i hi => ?_
    have hi' : i + 1 < N := Nat.lt_of_lt_of_le (Nat.succ_lt_succ hi) h.length_le
    have hne : (r + (i + 1)) % N ≠ r := by
      intro heq
      have hslot : (r + (i + 1)) % N = (r + 0) % N := by
        rw [heq, Nat.add_zero, Nat.mod_eq_of_lt h.read_lt]
      exact absurd (slot_inj hi' h.pos hslot) (Nat.succ_ne_zero i)
    rw [slot_succ, Function.update_of_ne hne]
  ne_free := fun hmem => h.ne_free (List.mem_cons_of_mem x hmem)
  rest i hle hi := by
    rw [slot_succ]
    -- the freed cell is the farthest one behind the new window
    by_cases hlast : (r + (i + 1)) % N = r
    · rw [hlast, Function.update_self]
    · rw [Function.update_of_ne hlast]
      rcases Nat.lt_or_ge (i + 1) N with hlt | hge
      · exact h.rest (i + 1) (Nat.succ_le_succ hle) hlt
      · have hN : i + 1 = N := Nat.le_antisymm hi hge
        rw [hN, Nat.add_mod_right, Nat.mod_eq_of_lt h.read_lt] at hlast
        exact absurd rfl hlast

/-! ### The items are determined by the cells

`contents` computes the items from the cells, which lets a statement speak of what a buffer holds
without naming a list. -/

theorem contents_eq [DecidableEq α] (h : Holds free N cells r w xs) :
    contents free N cells r = xs := by
  obtain ⟨n, hn⟩ := Nat.exists_eq_add_of_le h.length_le
  have hitems : (List.range xs.length).map (fun i => cells ((r + i) % N)) = xs := by
    refine List.ext_getElem (by simp) fun i h₁ h₂ => ?_
    rw [List.getElem_map, List.getElem_range]
    exact h.items i h₂
  -- the first cell behind the items is free, so the reading ends there
  have hrest : ∀ a ∈ ((List.range n).map fun i => cells ((r + (xs.length + i)) % N)).head?,
      ¬ decide (a ≠ free) = true := by
    intro a ha
    cases n with
    | zero => simp at ha
    | succ n =>
        simp only [List.range_succ_eq_map, List.map_cons, List.head?_cons, Option.mem_def,
          Option.some.injEq, Nat.add_zero] at ha
        have := h.rest xs.length (Nat.le_refl _) (by omega)
        simp [← ha, this]
  have hne : ∀ a ∈ xs, decide (a ≠ free) = true := by
    intro a ha
    simp only [decide_eq_true_eq]
    rintro rfl
    exact h.ne_free ha
  have htail : ((List.range n).map fun i => cells ((r + (xs.length + i)) % N)).takeWhile
      (· ≠ free) = [] := by
    cases hl : (List.range n).map fun i => cells ((r + (xs.length + i)) % N) with
    | nil => rfl
    | cons a l =>
        refine List.takeWhile_cons_of_neg (hrest a ?_)
        rw [hl]
        rfl
  have hsplit : (List.range N).map (fun i => cells ((r + i) % N))
      = xs ++ (List.range n).map fun i => cells ((r + (xs.length + i)) % N) := by
    conv_lhs => rw [hn, List.range_add, List.map_append, List.map_map]
    rw [← hn, hitems]
    rfl
  rw [contents, hsplit, List.takeWhile_append_of_pos hne, htail, List.append_nil]

end Holds

end RingBuffer
