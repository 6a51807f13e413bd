import Mathlib.Tactic

set_option autoImplicit false

/-! # Lists with a key

A list whose entries are told apart by a key stands for a finite table. `update key a g l`
changes the entry with key `a`.
-/

namespace Keyed

variable {α β κ : Type*} [DecidableEq κ] {key : α → κ} {a : κ} {g : α → α} {l : List α}

/-- The entries with key `a` are changed by `g`. -/
def update (key : α → κ) (a : κ) (g : α → α) (l : List α) : List α :=
  l.map fun x => if key x = a then g x else x

theorem mem_update {y : α} :
    y ∈ update key a g l ↔ ∃ x ∈ l, (if key x = a then g x else x) = y := List.mem_map

theorem mem_update_of_mem {x : α} (hx : x ∈ l) : g x ∈ update key (key x) g l :=
  mem_update.mpr ⟨x, hx, if_pos rfl⟩

@[simp] theorem length_update : (update key a g l).length = l.length := List.length_map ..

/-- A function that `g` does not change has the same values on the changed table. -/
theorem map_update {f : α → β} (h : ∀ x ∈ l, key x = a → f (g x) = f x) :
    (update key a g l).map f = l.map f := by
  rw [update, List.map_map]
  refine List.map_congr_left fun x hx => ?_
  by_cases hk : key x = a
  · simp [hk, h x hx hk]
  · simp [hk]

theorem flatMap_update {f : α → List β} (h : ∀ x ∈ l, key x = a → f (g x) = f x) :
    (update key a g l).flatMap f = l.flatMap f := by
  rw [List.flatMap_def, map_update h, List.flatMap_def]

theorem update_of_forall (h : ∀ x ∈ l, key x = a → g x = x) : update key a g l = l := by
  have := map_update (f := id) h
  simpa using this

omit [DecidableEq κ] in
/-- Entries are determined by their keys. -/
theorem eq_of_key_eq (hnd : (l.map key).Nodup) {x y : α} (hx : x ∈ l) (hy : y ∈ l)
    (h : key x = key y) : x = y := List.inj_on_of_nodup_map hnd hx hy h

/-- Where the changed entry is. -/
theorem update_append {A B : List α} {x : α} (hnd : ((A ++ x :: B).map key).Nodup) :
    update key (key x) g (A ++ x :: B) = A ++ g x :: B := by
  simp only [List.map_append, List.map_cons] at hnd
  have hnd' := List.nodup_middle.mp hnd
  rw [List.nodup_cons, ← List.map_append] at hnd'
  have hother : ∀ y ∈ A ++ B, (if key y = key x then g y else y) = y := by
    intro y hy
    exact if_neg fun h => hnd'.1 (by rw [← h]; exact List.mem_map_of_mem hy)
  rw [update, List.map_append, List.map_cons, if_pos rfl,
    List.map_congr_left fun y hy => hother y (List.mem_append_left _ hy),
    List.map_congr_left fun y hy => hother y (List.mem_append_right _ hy)]
  simp

/-- What holds of every entry, and of the changed one, holds of the changed table. -/
theorem forall_update {P : α → Prop} (h : ∀ x ∈ l, key x ≠ a → P x)
    (hg : ∀ x ∈ l, key x = a → P (g x)) : ∀ y ∈ update key a g l, P y := by
  intro y hy
  obtain ⟨x, hx, rfl⟩ := mem_update.mp hy
  by_cases hk : key x = a
  · rw [if_pos hk]
    exact hg x hx hk
  · rw [if_neg hk]
    exact h x hx hk

/-- Two members with a common element are the same one, when no element comes twice. -/
theorem eq_of_mem_flatMap {f : α → List β} (h : (l.flatMap f).Nodup) {x y : α} (hx : x ∈ l)
    (hy : y ∈ l) {b : β} (hbx : b ∈ f x) (hby : b ∈ f y) : x = y := by
  by_contra hne
  have hdis := (List.nodup_flatMap.mp h).2
  have hsymm : Std.Symm (Function.onFun List.Disjoint f) := ⟨fun _ _ hd => hd.symm⟩
  exact hdis.forall hx hy hne hbx hby

/-- The list seen from the entry with key `a`: the entries behind it, those in front of it, and
last that entry itself. -/
def rotation (key : α → κ) (a : κ) (l : List α) : List α :=
  l.rotate (l.findIdx (fun x => decide (key x = a)) + 1)

theorem rotation_append {A B : List α} {x : α} (hA : ∀ y ∈ A, key y ≠ key x) :
    rotation key (key x) (A ++ x :: B) = B ++ A ++ [x] := by
  have hidx : (A ++ x :: B).findIdx (fun y => decide (key y = key x)) = A.length := by
    rw [List.findIdx_append]
    have hno : A.findIdx (fun y => decide (key y = key x)) = A.length :=
      List.findIdx_eq_length.mpr fun y hy => by simpa using hA y hy
    rw [hno, if_neg (Nat.lt_irrefl _), List.findIdx_cons]
    simp
  have hsplit : A ++ x :: B = (A ++ [x]) ++ B := by simp
  rw [rotation, hidx, hsplit, ← show (A ++ [x]).length = A.length + 1 by simp,
    List.rotate_append_length_eq, List.append_assoc]

theorem mem_rotation {x : α} : x ∈ rotation key a l ↔ x ∈ l := List.mem_rotate

/-- A new entry behind the first one. -/
def insertSecond (x : α) : List α → List α
  | [] => [x]
  | y :: l => y :: x :: l

theorem insertSecond_perm (x : α) (l : List α) : (insertSecond x l).Perm (x :: l) := by
  cases l with
  | nil => exact .refl _
  | cons y l => exact .swap ..

theorem mem_insertSecond {x y : α} : y ∈ insertSecond x l ↔ y = x ∨ y ∈ l := by
  rw [(insertSecond_perm x l).mem_iff, List.mem_cons]

theorem map_insertSecond (f : α → β) (x : α) (l : List α) :
    (insertSecond x l).map f = insertSecond (f x) (l.map f) := by
  cases l <;> rfl

theorem length_insertSecond (x : α) (l : List α) : (insertSecond x l).length = l.length + 1 :=
  (insertSecond_perm x l).length_eq

/-! ## Lookup

With distinct keys the first entry with a key is the only one. A change that keeps the keys
commutes with the lookup, and a new entry with a new key is found without hiding another one. -/

/-- The first entry with key `a`. -/
def find (key : α → κ) (a : κ) (l : List α) : Option α := l.find? fun x => decide (key x = a)

theorem find_eq_none : find key a l = none ↔ ∀ x ∈ l, key x ≠ a := by
  simp [find]

theorem find_eq_some (hnd : (l.map key).Nodup) {x : α} :
    find key a l = some x ↔ x ∈ l ∧ key x = a := by
  constructor
  · intro h
    exact ⟨List.mem_of_find?_eq_some h, by simpa using List.find?_some h⟩
  · rintro ⟨hx, rfl⟩
    cases hf : find key (key x) l with
    | none => exact absurd rfl (find_eq_none.mp hf x hx)
    | some y =>
        have hy : key y = key x := by simpa using List.find?_some hf
        rw [eq_of_key_eq hnd (List.mem_of_find?_eq_some hf) hx hy]

theorem find_key (hnd : (l.map key).Nodup) {x : α} (hx : x ∈ l) : find key (key x) l = some x :=
  (find_eq_some hnd).mpr ⟨hx, rfl⟩

/-- A change that keeps the keys. -/
theorem find_map (h : ∀ x ∈ l, key (g x) = key x) :
    find key a (l.map g) = (find key a l).map g := by
  rw [find, List.find?_map]
  congr 1
  exact List.find?_congr fun x hx => by simp only [Function.comp, h x hx]

/-- An entry with a new key. -/
theorem find_insertSecond {x : α} (hx : ∀ y ∈ l, key y ≠ key x) :
    find key a (insertSecond x l) = if a = key x then some x else find key a l := by
  cases l with
  | nil =>
      by_cases ha : a = key x
      · simp [find, insertSecond, ha]
      · simp [find, insertSecond, ha, Ne.symm ha]
  | cons y l =>
      by_cases ha : a = key x
      · subst ha
        have hy := hx y List.mem_cons_self
        simp [find, insertSecond, hy]
      · have ha' : ¬ key x = a := fun h => ha h.symm
        by_cases hy : key y = a
        · simp [find, insertSecond, ha, hy]
        · simp [find, insertSecond, ha, ha', hy]

theorem find_filter (hnd : (l.map key).Nodup) (p : α → Bool) :
    find key a (l.filter p) = (find key a l).filter p := by
  have hnd' : ((l.filter p).map key).Nodup := hnd.sublist (List.filter_sublist.map key)
  ext x
  rw [find_eq_some hnd', Option.filter_eq_some_iff, find_eq_some hnd, List.mem_filter]
  tauto

end Keyed
