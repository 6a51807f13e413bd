import BasicKernel.Lib.Fuel
import Mathlib.Logic.Function.Iterate

set_option autoImplicit false

/-! # Linked structures in a store of `next` pointers

A store gives every node its successor. `Path next a xs b` says that following the pointers
from `a` visits the nodes `xs` and arrives at `b`. A ring is a path that comes back to its
first node, a chain is a path that arrives at the null pointer. The lemmas say what
assignments to `next` do to paths, and where a loop that follows the pointers stops.
-/

open Fuel

namespace Linked

variable {α : Type*} {next : α → α}

/-- From `a`, the nodes `xs` are visited before `b` is reached. -/
def Path (next : α → α) : α → List α → α → Prop
  | a, [], b => a = b
  | a, x :: xs, b => a = x ∧ Path next (next x) xs b

@[simp] theorem path_nil (a b : α) : Path next a [] b ↔ a = b := Iff.rfl

@[simp] theorem path_cons (a x b : α) (xs : List α) :
    Path next a (x :: xs) b ↔ a = x ∧ Path next (next x) xs b := Iff.rfl

theorem path_append {a b : α} {xs ys : List α} :
    Path next a (xs ++ ys) b ↔ ∃ c, Path next a xs c ∧ Path next c ys b := by
  induction xs generalizing a with
  | nil => simp
  | cons x xs ih => simp [ih, and_assoc]

theorem Path.congr {next' : α → α} {a b : α} {xs : List α} (h : Path next a xs b)
    (hagree : ∀ x ∈ xs, next' x = next x) : Path next' a xs b := by
  induction xs generalizing a with
  | nil => exact h
  | cons x xs ih =>
      refine ⟨h.1, ?_⟩
      rw [hagree x (by simp)]
      exact ih h.2 fun y hy => hagree y (by simp [hy])

theorem Path.update [DecidableEq α] {a b y v : α} {xs : List α} (h : Path next a xs b)
    (hy : y ∉ xs) : Path (Function.update next y v) a xs b :=
  h.congr fun x hx => Function.update_of_ne (by rintro rfl; exact hy hx) _ _

theorem Path.iterate {a b : α} {xs : List α} (h : Path next a xs b) :
    next^[xs.length] a = b := by
  induction xs generalizing a with
  | nil => exact h
  | cons x xs ih =>
      obtain ⟨rfl, h⟩ := h
      exact ih h

theorem Path.getElem {a b : α} {xs : List α} (h : Path next a xs b) :
    ∀ i (hi : i < xs.length), next^[i] a = xs[i] := by
  induction xs generalizing a with
  | nil => intro i hi; exact absurd hi (Nat.not_lt_zero i)
  | cons x xs ih =>
      obtain ⟨rfl, h⟩ := h
      intro i hi
      cases i with
      | zero => rfl
      | succ i => exact ih h i (Nat.lt_of_succ_lt_succ hi)

/-! ## Rings

A ring can be listed from any of its nodes, and the searches of a program start at one node or
behind it. `path_after` and `path_from` are the two listings. The edits insert a node behind the
first one and remove a node through its predecessor. -/

/-- The nodes `xs`, all different, form a ring with first node `h`. -/
structure Ring (next : α → α) (h : α) (xs : List α) : Prop where
  path : Path next h xs h
  ne_nil : xs ≠ []
  nodup : xs.Nodup

/-- `x` is reached from `h` by following the pointers. -/
def Reaches (next : α → α) (h x : α) : Prop := ∃ n, next^[n] h = x

namespace Ring

variable {h : α} {xs : List α}

theorem exists_cons (hr : Ring next h xs) : ∃ t, xs = h :: t := by
  cases xs with
  | nil => exact absurd rfl hr.ne_nil
  | cons x t => exact ⟨t, by rw [hr.path.1]⟩

theorem head_mem (hr : Ring next h xs) : h ∈ xs := by
  obtain ⟨t, rfl⟩ := hr.exists_cons
  exact List.mem_cons_self

/-- The ring seen from the node `c`: its successors and then `c` itself. -/
theorem path_after {A B : List α} {c : α} (hr : Ring next h (A ++ c :: B)) :
    Path next (next c) (B ++ A ++ [c]) (next c) := by
  obtain ⟨d, hA, rfl, hB⟩ := path_append.mp hr.path
  rw [List.append_assoc]
  refine path_append.mpr ⟨h, hB, path_append.mpr ⟨d, hA, rfl, rfl⟩⟩

/-- The ring seen from the node `c`: `c` and then its successors. -/
theorem path_from {A B : List α} {c : α} (hr : Ring next h (A ++ c :: B)) :
    Path next c (c :: B ++ A) c := by
  obtain ⟨d, hA, rfl, hB⟩ := path_append.mp hr.path
  exact ⟨rfl, path_append.mpr ⟨h, hB, hA⟩⟩

theorem next_eq {A B : List α} {x y : α} (hr : Ring next h (A ++ x :: y :: B)) : next x = y := by
  obtain ⟨d, -, rfl, hp⟩ := path_append.mp hr.path
  exact hp.1

theorem next_mem (hr : Ring next h xs) {x : α} (hx : x ∈ xs) : next x ∈ xs := by
  obtain ⟨A, B, rfl⟩ := List.append_of_mem hx
  have hp := hr.path_after
  cases hBA : B ++ A ++ [x] with
  | nil => simp at hBA
  | cons y ys =>
      rw [hBA] at hp
      have hy : y ∈ B ++ A ++ [x] := by rw [hBA]; exact List.mem_cons_self
      rw [hp.1]
      simp only [List.mem_append, List.mem_singleton] at hy
      simp only [List.mem_append, List.mem_cons]
      tauto

theorem reaches_iff (hr : Ring next h xs) {x : α} : Reaches next h x ↔ x ∈ xs := by
  constructor
  · rintro ⟨n, rfl⟩
    induction n with
    | zero => exact hr.head_mem
    | succ n ih =>
        rw [Function.iterate_succ_apply']
        exact hr.next_mem ih
  · intro hx
    obtain ⟨i, hi, rfl⟩ := List.getElem_of_mem hx
    exact ⟨i, hr.path.getElem i hi⟩

/-- A ring has the same nodes however it is listed. -/
theorem perm {ys : List α} (hr : Ring next h xs) (hr' : Ring next h ys) : xs.Perm ys := by
  apply (List.perm_ext_iff_of_nodup hr.nodup hr'.nodup).mpr
  intro x
  rw [← hr.reaches_iff, hr'.reaches_iff]

theorem congr {next' : α → α} (hr : Ring next h xs) (hagree : ∀ x ∈ xs, next' x = next x) :
    Ring next' h xs := ⟨hr.path.congr hagree, hr.ne_nil, hr.nodup⟩

theorem singleton {h : α} (hself : next h = h) : Ring next h [h] :=
  ⟨⟨rfl, hself⟩, by simp, List.nodup_singleton h⟩

variable [DecidableEq α]

/-- Insertion of a fresh node behind the first one. -/
theorem insert_after_head {t : List α} {n : α} (hr : Ring next h (h :: t)) (hn : n ∉ h :: t) :
    Ring (Function.update (Function.update next n (next h)) h n) h (h :: n :: t) := by
  have hnh : n ≠ h := fun hnh => hn (by simp [hnh])
  have hnt : n ∉ t := fun hnt => hn (by simp [hnt])
  have hht : h ∉ t := (List.nodup_cons.mp hr.nodup).1
  refine ⟨⟨rfl, by rw [Function.update_self], ?_⟩, by simp, ?_⟩
  · rw [Function.update_of_ne hnh, Function.update_self]
    exact (hr.path.2.update hnt).update hht
  · rw [List.nodup_cons, List.nodup_cons, List.mem_cons]
    exact ⟨by rintro (rfl | hm); exacts [hnh rfl, hht hm], hnt, (List.nodup_cons.mp hr.nodup).2⟩

/-- Removal of the node `c` behind the node `p`. -/
theorem remove {A B : List α} {p c : α} (hr : Ring next h (A ++ p :: c :: B)) :
    Ring (Function.update next p (next c)) h (A ++ p :: B) := by
  obtain ⟨d, hA, rfl, hc⟩ := path_append.mp hr.path
  have hnd : (A ++ d :: B).Nodup :=
    hr.nodup.sublist (by simp)
  have hdA : d ∉ A := fun hm => (List.nodup_append.mp hnd).2.2 d hm d (by simp) rfl
  have hdB : d ∉ B := (List.nodup_cons.mp (List.nodup_append.mp hnd).2.1).1
  refine ⟨path_append.mpr ⟨d, hA.update hdA, rfl, ?_⟩, by simp, hnd⟩
  rw [Function.update_self]
  exact hc.2.update hdB

end Ring

/-! ## Chains

A chain has no node twice, as otherwise it would not end. The first pointer determines the nodes
and the nodes determine the first pointer, so that a list may be spoken of by either. -/

/-- The nodes `xs` are the list that starts with the pointer `p` and ends with the null
pointer `nil`. -/
structure Chain (next : α → α) (nil p : α) (xs : List α) : Prop where
  path : Path next p xs nil
  nil_notMem : nil ∉ xs

/-- `x` is a node of the list that starts with the pointer `p`. -/
def OnChain (next : α → α) (nil p x : α) : Prop :=
  ∃ n, next^[n] p = x ∧ ∀ m ≤ n, next^[m] p ≠ nil

theorem OnChain.head {next : α → α} {nil p : α} (hp : p ≠ nil) : OnChain next nil p p := by
  refine ⟨0, rfl, fun m hm => ?_⟩
  obtain rfl := Nat.le_zero.mp hm
  exact hp

namespace Chain

variable {nil p : α} {xs : List α}

theorem empty (next : α → α) (nil : α) : Chain next nil nil [] := ⟨rfl, List.not_mem_nil⟩

theorem cons_iff {x : α} :
    Chain next nil p (x :: xs) ↔ p = x ∧ x ≠ nil ∧ Chain next nil (next x) xs := by
  constructor
  · rintro ⟨⟨rfl, hp⟩, hn⟩
    simp only [List.mem_cons, not_or] at hn
    exact ⟨rfl, Ne.symm hn.1, hp, hn.2⟩
  · rintro ⟨rfl, hne, hp, hn⟩
    exact ⟨⟨rfl, hp⟩, by simp only [List.mem_cons, not_or]; exact ⟨Ne.symm hne, hn⟩⟩

theorem nil_iff : Chain next nil p [] ↔ p = nil := by
  constructor
  · exact fun h => h.path
  · rintro rfl
    exact empty next p

theorem eq_nil (h : Chain next nil nil xs) : xs = [] := by
  cases xs with
  | nil => rfl
  | cons x xs =>
      obtain ⟨rfl, hne, -⟩ := cons_iff.mp h
      exact absurd rfl hne

/-- A pointer determines the list that starts with it. -/
theorem unique {ys : List α} (h : Chain next nil p xs) (h' : Chain next nil p ys) : xs = ys := by
  induction xs generalizing p ys with
  | nil =>
      obtain rfl := nil_iff.mp h
      exact (eq_nil h').symm
  | cons x xs ih =>
      obtain ⟨rfl, hne, ht⟩ := cons_iff.mp h
      cases ys with
      | nil => exact absurd (nil_iff.mp h') hne
      | cons y ys =>
          obtain ⟨rfl, -, ht'⟩ := cons_iff.mp h'
          rw [ih ht ht']

/-- The nodes of a list determine its first pointer. -/
theorem start_eq {next' : α → α} {p' : α} (h : Chain next nil p xs) (h' : Chain next' nil p' xs) :
    p = p' := by
  cases xs with
  | nil => exact (nil_iff.mp h).trans (nil_iff.mp h').symm
  | cons x xs => exact (cons_iff.mp h).1.trans (cons_iff.mp h').1.symm

theorem congr {next' : α → α} (h : Chain next nil p xs) (hagree : ∀ x ∈ xs, next' x = next x) :
    Chain next' nil p xs := ⟨h.path.congr hagree, h.nil_notMem⟩

theorem suffix {A : List α} {c : α} {B : List α} (h : Chain next nil p (A ++ c :: B)) :
    Chain next nil c (c :: B) := by
  obtain ⟨d, -, hp⟩ := path_append.mp h.path
  obtain rfl := hp.1
  exact ⟨hp, fun hm => h.nil_notMem (List.mem_append_right _ hm)⟩

/-- A list that ends has no node twice. -/
theorem nodup (h : Chain next nil p xs) : xs.Nodup := by
  induction xs generalizing p with
  | nil => exact List.nodup_nil
  | cons x xs ih =>
      obtain ⟨rfl, -, ht⟩ := cons_iff.mp h
      refine List.nodup_cons.mpr ⟨fun hm => ?_, ih ht⟩
      -- the list from `p` would be a proper suffix of itself
      obtain ⟨A, B, rfl⟩ := List.append_of_mem hm
      have := congrArg List.length (unique h ht.suffix)
      simp only [List.length_append, List.length_cons] at this
      omega

theorem onChain_iff (h : Chain next nil p xs) {x : α} : OnChain next nil p x ↔ x ∈ xs := by
  constructor
  · rintro ⟨n, rfl, hne⟩
    rcases Nat.lt_or_ge n xs.length with hn | hn
    · rw [h.path.getElem n hn]
      exact List.getElem_mem hn
    · exact absurd h.path.iterate (hne xs.length hn)
  · intro hx
    obtain ⟨i, hi, rfl⟩ := List.getElem_of_mem hx
    refine ⟨i, h.path.getElem i hi, fun m hm hnil => ?_⟩
    rw [h.path.getElem m (by omega)] at hnil
    exact h.nil_notMem (hnil ▸ List.getElem_mem (by omega))

/-- Following the pointers ends, or never meets the null pointer. -/
theorem exists_or_forever (next : α → α) (nil p : α) :
    (∃ xs, Chain next nil p xs) ∨ ∀ n, next^[n] p ≠ nil := by
  by_cases hex : ∃ n, next^[n] p = nil
  · obtain ⟨n, hn⟩ := hex
    left
    induction n generalizing p with
    | zero => exact ⟨[], nil_iff.mpr hn⟩
    | succ n ih =>
        by_cases hp : p = nil
        · exact ⟨[], nil_iff.mpr hp⟩
        · obtain ⟨xs, hxs⟩ := ih (next p) hn
          exact ⟨p :: xs, cons_iff.mpr ⟨rfl, hp, hxs⟩⟩
  · exact .inr fun n hn => hex ⟨n, hn⟩

end Chain

/-! ## Loops that follow the pointers

`walkWhile` is the loop that most searches of a program are. A lemma on it says where it stops: at
the first node of a path that satisfies the test, at the end of a chain, or after a full turn of a
ring. A scan without a hit has no end, and then no fuel is enough. -/

section Loops

variable {α ε : Type} {next : α → α} {cond : α → Except ε Bool} {step : α → Except ε α}
  {timeout : ε}

/-- `while (cond(a)) a = step(a);`, with fuel. -/
def walkWhile (timeout : ε) (cond : α → Except ε Bool) (step : α → Except ε α) :
    Nat → α → Except ε α
  | 0, _ => .error timeout
  | fuel + 1, a => do
      if ← cond a then walkWhile timeout cond step fuel (← step a) else .ok a

theorem walkWhile_stop {a : α} (h : cond a = .ok false) :
    Returns timeout (fun fuel => walkWhile timeout cond step fuel a) a := by
  refine (Returns.const timeout a).succ rfl fun fuel => ?_
  simp [walkWhile, h, bind, Except.bind]

theorem walkWhile_succ {a b : α} (h : cond a = .ok true) (hs : step a = .ok b) (fuel : Nat) :
    walkWhile timeout cond step (fuel + 1) a = walkWhile timeout cond step fuel b := by
  simp [walkWhile, h, hs, bind, Except.bind]

/-- The condition fails where the loop stops. -/
theorem walkWhile_inv {fuel : Nat} {a b : α} (h : walkWhile timeout cond step fuel a = .ok b) :
    cond b = .ok false := by
  induction fuel generalizing a with
  | zero => cases h
  | succ fuel ih =>
      unfold walkWhile at h
      cases hc : cond a with
      | error e =>
          rw [hc] at h
          cases h
      | ok c =>
          rw [hc] at h
          cases c with
          | false =>
              obtain rfl := Except.ok.inj h
              exact hc
          | true =>
              cases hs : step a with
              | error e =>
                  simp only [bind, Except.bind, hs] at h
                  cases h
              | ok a' =>
                  simp only [bind, Except.bind, hs] at h
                  exact ih h

/-- More fuel gives no other value. -/
theorem walkWhile_unique {fuel fuel' : Nat} {a b b' : α}
    (h : walkWhile timeout cond step fuel a = .ok b) (h' : walkWhile timeout cond step fuel' a = .ok b') :
    b = b' := by
  -- on the rounds of the loop: the last test is the one that failed
  induction fuel generalizing a fuel' with
  | zero => cases h
  | succ fuel ih =>
      cases fuel' with
      | zero => cases h'
      | succ fuel' =>
          unfold walkWhile at h h'
          cases hc : cond a with
          | error e =>
              rw [hc] at h
              cases h
          | ok c =>
              rw [hc] at h h'
              cases c with
              | false => exact Except.ok.inj (h.symm.trans h')
              | true =>
                  cases hs : step a with
                  | error e =>
                      simp only [bind, Except.bind, hs] at h
                      cases h
                  | ok a' =>
                      simp only [bind, Except.bind, hs] at h h'
                      exact ih h h'

/-- A loop whose condition has fuel too. -/
theorem walkWhile_fuelled {cond : Nat → α → Except ε Bool}
    (hcond : ∀ n a c, cond n a = .ok c → Returns timeout (fun fuel => cond fuel a) c) {n fuel : Nat}
    {a b : α} (h : walkWhile timeout (cond n) step fuel a = .ok b) :
    Returns timeout (fun fuel => walkWhile timeout (cond fuel) step fuel a) b := by
  -- the two amounts of fuel are independent in the induction
  suffices hboth : (∃ N, ∀ n' fuel', N ≤ n' → N ≤ fuel' →
      walkWhile timeout (cond n') step fuel' a = .ok b) ∧ ∀ n' fuel',
        walkWhile timeout (cond n') step fuel' a = .ok b ∨
          walkWhile timeout (cond n') step fuel' a = .error timeout by
    obtain ⟨⟨N, hN⟩, hall⟩ := hboth
    exact ⟨⟨N, fun fuel' hle => hN fuel' fuel' hle hle⟩, fun fuel' => hall fuel' fuel'⟩
  induction fuel generalizing a with
  | zero => cases h
  | succ fuel ih =>
      unfold walkWhile at h
      cases hc : cond n a with
      | error e =>
          rw [hc] at h
          cases h
      | ok c =>
          rw [hc] at h
          obtain ⟨⟨M, hM⟩, hends⟩ := hcond n a c hc
          cases c with
          -- the condition ends with some fuel and never fails otherwise, and the loop inherits both
          | false =>
              obtain rfl := Except.ok.inj h
              refine ⟨⟨M + 1, fun n' fuel' hn' hfuel' => ?_⟩, fun n' fuel' => ?_⟩
              · obtain ⟨m, rfl⟩ : ∃ m, fuel' = m + 1 := ⟨fuel' - 1, by omega⟩
                simp only [walkWhile, hM n' (by omega), bind, Except.bind]
                rfl
              · cases fuel' with
                | zero => exact .inr rfl
                | succ m =>
                    rcases hends n' with hok | herror
                    · simp only [walkWhile, hok, bind, Except.bind]
                      exact .inl rfl
                    · simp only [walkWhile, herror, bind, Except.bind]
                      exact .inr trivial
          | true =>
              cases hs : step a with
              | error e =>
                  simp only [bind, Except.bind, hs] at h
                  cases h
              | ok a' =>
                  simp only [bind, Except.bind, hs] at h
                  obtain ⟨⟨N, hN⟩, hall⟩ := ih h
                  refine ⟨⟨max M N + 1, fun n' fuel' hn' hfuel' => ?_⟩, fun n' fuel' => ?_⟩
                  · obtain ⟨m, rfl⟩ : ∃ m, fuel' = m + 1 := ⟨fuel' - 1, by omega⟩
                    simp only [walkWhile, hM n' (by omega), hs, bind, Except.bind]
                    exact hN n' m (by omega) (by omega)
                  · cases fuel' with
                    | zero => exact .inr rfl
                    | succ m =>
                        rcases hends n' with hok | herror
                        · simp only [walkWhile, hok, hs, bind, Except.bind]
                          exact hall n' m
                        · simp only [walkWhile, herror, bind, Except.bind]
                          exact .inr trivial

theorem walkWhile_go {a b y : α} (h : cond a = .ok true) (hs : step a = .ok b)
    (hb : Returns timeout (fun fuel => walkWhile timeout cond step fuel b) y) :
    Returns timeout (fun fuel => walkWhile timeout cond step fuel a) y :=
  hb.succ rfl (walkWhile_succ h hs)

/-- The loop stops at the first node of the path that satisfies `p`. -/
theorem walkWhile_find {p : α → Bool} {a b : α} {xs : List α} (hpath : Path next a xs b)
    (hcond : ∀ x ∈ xs, cond x = .ok (!p x))
    (hstep : ∀ x ∈ xs, p x = false → step x = .ok (next x)) {y : α} (hy : xs.find? p = some y) :
    Returns timeout (fun fuel => walkWhile timeout cond step fuel a) y := by
  induction xs generalizing a with
  | nil => simp at hy
  | cons x xs ih =>
      obtain ⟨rfl, hpath⟩ := hpath
      have hc := hcond a (by simp)
      cases hp : p a with
      | true =>
          obtain rfl : a = y := by simpa [hp] using hy
          exact walkWhile_stop (by rw [hc, hp]; rfl)
      | false =>
          refine walkWhile_go (by rw [hc, hp]; rfl) (hstep a (by simp) hp) ?_
          exact ih hpath (fun x hx => hcond x (by simp [hx])) (fun x hx => hstep x (by simp [hx]))
            (by simpa [hp] using hy)

/-- The loop over a list stops at the first node that satisfies `p`, else at its end. -/
theorem Chain.walkWhile {p : α → Bool} {nil a : α} {xs : List α} [DecidableEq α]
    (h : Chain next nil a xs) (hnil : cond nil = .ok false)
    (hcond : ∀ x ∈ xs, cond x = .ok (!p x)) (hstep : ∀ x ∈ xs, step x = .ok (next x)) :
    Returns timeout (fun fuel => walkWhile timeout cond step fuel a) ((xs.find? p).getD nil) := by
  have hpath : Path next a (xs ++ [nil]) (next nil) :=
    path_append.mpr ⟨nil, h.path, rfl, rfl⟩
  have hne : ∀ x ∈ xs, x ≠ nil := fun x hx hxn => h.nil_notMem (hxn ▸ hx)
  have hfind : (xs ++ [nil]).find? (fun x => decide (x = nil) || p x)
      = some ((xs.find? p).getD nil) := by
    have hxs : xs.find? (fun x => decide (x = nil) || p x) = xs.find? p :=
      List.find?_congr fun x hx => by simp [hne x hx]
    rw [List.find?_append, hxs]
    cases xs.find? p <;> simp
  refine walkWhile_find hpath (fun x hx => ?_) (fun x hx hpx => ?_) hfind
  · rcases List.mem_append.mp hx with hx | hx
    · simp [hcond x hx, hne x hx]
    · simp [List.mem_singleton.mp hx, hnil]
  · rcases List.mem_append.mp hx with hx | hx
    · exact hstep x hx
    · simp [List.mem_singleton.mp hx] at hpx

/-- A walk along a chain whose condition is itself a loop. -/
theorem Chain.walkWhile_returns {cond : Nat → α → Except ε Bool} {step : α → Except ε α} {p : α → Bool}
    {nil a : α} {xs : List α} (h : Chain next nil a xs) (hnil : ∀ n, cond n nil = .ok false)
    (hcond : ∀ x ∈ xs, Returns timeout (cond · x) (!p x)) (hstep : ∀ x ∈ xs, step x = .ok (next x)) :
    Returns timeout (fun fuel => Linked.walkWhile timeout (cond fuel) step fuel a)
      ((xs.find? p).getD nil) := by
  have hwalk : (∃ m, ∀ fuel n, m ≤ fuel → m ≤ n →
        Linked.walkWhile timeout (cond fuel) step n a = .ok ((xs.find? p).getD nil)) ∧
      ∀ fuel n, Linked.walkWhile timeout (cond fuel) step n a = .ok ((xs.find? p).getD nil) ∨
        Linked.walkWhile timeout (cond fuel) step n a = .error timeout := by
    -- on the chain: the walk stops at its first node with `p`, or at `nil`
    induction xs generalizing a with
    | nil =>
        obtain rfl := Chain.nil_iff.mp h
        have hstop : ∀ fuel n, Linked.walkWhile timeout (cond fuel) step (n + 1) a = .ok a := by
          intro fuel n
          rw [Linked.walkWhile, hnil]
          rfl
        refine ⟨⟨1, fun fuel n _ hn => ?_⟩, fun fuel n => ?_⟩
        · obtain ⟨n, rfl⟩ : ∃ j, n = j + 1 := ⟨n - 1, by omega⟩
          exact hstop fuel n
        · cases n with
          | zero => exact .inr rfl
          | succ n => exact .inl (hstop fuel n)
    | cons x xs ih =>
        obtain ⟨rfl, -, ht⟩ := Chain.cons_iff.mp h
        obtain ⟨⟨m₁, hm₁⟩, hbound₁⟩ := hcond a List.mem_cons_self
        obtain ⟨⟨m₂, hm₂⟩, hbound₂⟩ := ih ht (fun x hx => hcond x (List.mem_cons_of_mem _ hx))
          (fun x hx => hstep x (List.mem_cons_of_mem _ hx))
        have hround : ∀ fuel n, cond fuel a = .ok (!p a) →
            Linked.walkWhile timeout (cond fuel) step (n + 1) a =
              if p a then .ok a else Linked.walkWhile timeout (cond fuel) step n (next a) := by
          intro fuel n hrun
          rw [Linked.walkWhile, hrun, hstep a List.mem_cons_self]
          cases p a <;> rfl
        -- the condition itself can run out of fuel
        have hlate : ∀ fuel n, cond fuel a = .error timeout →
            Linked.walkWhile timeout (cond fuel) step (n + 1) a = .error timeout := by
          intro fuel n hrun
          rw [Linked.walkWhile, hrun]
          rfl
        rw [List.find?_cons]
        refine ⟨⟨max m₁ m₂ + 1, fun fuel n hfuel hn => ?_⟩, fun fuel n => ?_⟩
        · obtain ⟨n, rfl⟩ : ∃ j, n = j + 1 := ⟨n - 1, by omega⟩
          rw [hround fuel n (hm₁ fuel (by omega))]
          cases p a with
          | true => rfl
          | false => exact hm₂ fuel n (by omega) (by omega)
        · cases n with
          | zero => exact .inr rfl
          | succ n =>
              rcases hbound₁ fuel with hrun | hrun
              · rw [hround fuel n hrun]
                cases p a with
                | true => exact .inl rfl
                | false => exact hbound₂ fuel n
              · exact .inr (hlate fuel n hrun)
  obtain ⟨⟨m, hm⟩, hbound⟩ := hwalk
  exact ⟨⟨m, fun fuel hfuel => hm fuel fuel hfuel hfuel⟩, fun fuel => hbound fuel fuel⟩

/-- A search of a ring from the second node on. It stops at a node that satisfies `p`, or at the
first node of the ring when no other node does. -/
theorem Ring.walkWhile {h : α} {xs : List α} [DecidableEq α] (hr : Ring next h xs)
    (p : α → Bool) :
    ∃ y ∈ xs, (p y = true ∨ y = h ∧ ∀ x ∈ xs, x ≠ h → p x = false) ∧
      ∀ {ε : Type} {timeout : ε} {cond : α → Except ε Bool} {step : α → Except ε α},
        cond h = .ok false → (∀ x ∈ xs, x ≠ h → cond x = .ok (!p x)) →
        (∀ x ∈ xs, x ≠ h → step x = .ok (next x)) →
        Returns timeout (fun fuel => Linked.walkWhile timeout cond step fuel (next h)) y := by
  obtain ⟨t, rfl⟩ := hr.exists_cons
  have hpath : Path next (next h) (t ++ [h]) (next h) := path_append.mpr ⟨h, hr.path.2, rfl, rfl⟩
  have hmem : ∀ x, x ∈ t ++ [h] ↔ x ∈ h :: t := fun x => by simp [or_comm]
  let q : α → Bool := fun x => decide (x = h) || p x
  obtain ⟨y, hy⟩ : ∃ y, (t ++ [h]).find? q = some y :=
    Option.isSome_iff_exists.mp (List.find?_isSome.mpr ⟨h, by simp, by simp [q]⟩)
  refine ⟨y, (hmem y).mp (List.mem_of_find?_eq_some hy), ?_, ?_⟩
  · by_cases hyh : y = h
    · subst hyh
      refine .inr ⟨rfl, fun x hx hxy => ?_⟩
      have hfirst : t.find? q = none := by
        rw [List.find?_append] at hy
        cases ht : t.find? q with
        | none => rfl
        | some z =>
            have hz : z = y := by simpa [ht] using hy
            exact absurd (hz ▸ List.mem_of_find?_eq_some ht) (List.nodup_cons.mp hr.nodup).1
      have hxt : x ∈ t := (List.mem_cons.mp hx).resolve_left hxy
      have := List.find?_eq_none.mp hfirst x hxt
      simpa [q, hxy] using this
    · left
      simpa [q, hyh] using List.find?_some hy
  · intro ε timeout cond step hhead hcond hstep
    refine walkWhile_find hpath (fun x hx => ?_) (fun x hx hqx => ?_) hy
    · by_cases hxh : x = h
      · simp [q, hxh, hhead]
      · simp [q, hxh, hcond x ((hmem x).mp hx) hxh]
    · have hxh : x ≠ h := by
        rintro rfl
        simp [q] at hqx
      exact hstep x ((hmem x).mp hx) hxh

/-- A search of a ring by a key. It stops at a node with the key, or at some other node when the
ring has none. -/
theorem Ring.search {β : Type} {h : α} {xs : List α} [DecidableEq α] [DecidableEq β]
    (hr : Ring next h xs) (key : α → β) (v : β) :
    ∃ y ∈ xs, (key y = v ∨ ∀ x ∈ xs, key x ≠ v) ∧
      ∀ {ε : Type} {timeout : ε} {cond : α → Except ε Bool} {step : α → Except ε α},
        cond h = .ok false → (∀ x ∈ xs, x ≠ h → cond x = .ok (decide (key x ≠ v))) →
        (∀ x ∈ xs, x ≠ h → step x = .ok (next x)) →
        Returns timeout (fun fuel => Linked.walkWhile timeout cond step fuel (next h)) y := by
  obtain ⟨y, hy, hstop, hwalk⟩ := hr.walkWhile fun x => decide (key x = v)
  refine ⟨y, hy, ?_, fun hhead hcond hstep => ?_⟩
  · by_cases hkey : key y = v
    · exact .inl hkey
    · obtain ⟨rfl, hother⟩ := hstop.resolve_left (by simpa using hkey)
      refine .inr fun x hx => ?_
      by_cases hxy : x = y
      · rwa [hxy]
      · simpa using hother x hx hxy
  · exact hwalk hhead (fun x hx hne => by rw [hcond x hx hne, decide_not]) hstep

/-- The node in front of the first node of the path that satisfies `p`, and the loop that stops
there. -/
theorem walkWhile_seek {p : α → Bool} {c b : α} {xs : List α} (hpath : Path next (next c) xs b)
    {y : α} (hy : xs.find? p = some y) :
    ∃ c' ∈ c :: xs, next c' = y ∧
      ∀ {ε : Type} {timeout : ε} {cond : α → Except ε Bool} {step : α → Except ε α},
        (∀ x ∈ c :: xs, next x ∈ xs → cond x = .ok (!p (next x))) →
        (∀ x ∈ c :: xs, step x = .ok (next x)) →
        Returns timeout (fun fuel => walkWhile timeout cond step fuel c) c' := by
  induction xs generalizing c with
  | nil => simp at hy
  | cons x xs ih =>
      obtain ⟨rfl, hpath⟩ := hpath
      cases hp : p (next c) with
      | true =>
          refine ⟨c, by simp, by simpa [hp] using hy, fun hcond _ => walkWhile_stop ?_⟩
          rw [hcond c (by simp) (by simp), hp]
          rfl
      | false =>
          obtain ⟨c', hc', hnext, hw⟩ := ih hpath (by simpa [hp] using hy)
          refine ⟨c', List.mem_cons_of_mem _ hc', hnext, fun hcond hstep => ?_⟩
          refine walkWhile_go (by rw [hcond c (by simp) (by simp), hp]; rfl) (hstep c (by simp)) ?_
          exact hw (fun x hx hnx => hcond x (List.mem_cons_of_mem _ hx) (List.mem_cons_of_mem _ hnx))
            fun x hx => hstep x (List.mem_cons_of_mem _ hx)

/-- A loop that stays in a set of nodes where it never stops runs out of every fuel. -/
theorem walkWhile_forever {S : α → Prop} (hS : ∀ x, S x → cond x = .ok true ∧
    ∃ y, S y ∧ step x = .ok y) {a : α} (ha : S a) (fuel : Nat) :
    walkWhile timeout cond step fuel a = .error timeout := by
  induction fuel generalizing a with
  | zero => rfl
  | succ fuel ih =>
      obtain ⟨hc, y, hy, hs⟩ := hS a ha
      rw [walkWhile_succ hc hs]
      exact ih hy

/-- A scan of a ring from the node `c` on stops in front of the first node behind `c` that
satisfies `p`. -/
theorem Ring.seek {A B : List α} {h c : α} (hr : Ring next h (A ++ c :: B)) {p : α → Bool} {y : α}
    (hy : (B ++ A ++ [c]).find? p = some y) :
    ∃ c' ∈ A ++ c :: B, next c' = y ∧
      ∀ {ε : Type} {timeout : ε} {cond : α → Except ε Bool} {step : α → Except ε α},
        (∀ x ∈ A ++ c :: B, cond x = .ok (!p (next x))) →
        (∀ x ∈ A ++ c :: B, step x = .ok (next x)) →
        Returns timeout (fun fuel => Linked.walkWhile timeout cond step fuel c) c' := by
  have hmem : ∀ x ∈ c :: (B ++ A ++ [c]), x ∈ A ++ c :: B := by
    intro x hx
    simp only [List.mem_cons, List.mem_append, List.not_mem_nil, or_false] at hx ⊢
    tauto
  obtain ⟨c', hc', hnext, hw⟩ := walkWhile_seek hr.path_after hy
  refine ⟨c', hmem c' hc', hnext, fun hcond hstep => ?_⟩
  exact hw (fun x hx _ => hcond x (hmem x hx)) fun x hx => hstep x (hmem x hx)

/-- A scan of a ring without a node that satisfies `p` does not end. -/
theorem Ring.seek_never {xs : List α} {h c : α} (hr : Ring next h xs) (hc : c ∈ xs)
    {p : α → Bool} (hp : ∀ x ∈ xs, p x = false) (hcond : ∀ x ∈ xs, cond x = .ok (!p (next x)))
    (hstep : ∀ x ∈ xs, step x = .ok (next x)) :
    Never (fun fuel => Linked.walkWhile timeout cond step fuel c) := by
  intro fuel a ha
  have hforever : ∀ x, x ∈ xs → cond x = .ok true ∧ ∃ y, y ∈ xs ∧ step x = .ok y := by
    intro x hx
    refine ⟨by rw [hcond x hx, hp _ (hr.next_mem hx)]; rfl, next x, hr.next_mem hx, hstep x hx⟩
  have hout : Linked.walkWhile timeout cond step fuel c = .ok a := ha
  rw [walkWhile_forever hforever hc] at hout
  cases hout

end Loops

end Linked
