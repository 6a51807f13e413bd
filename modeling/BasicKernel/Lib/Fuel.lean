import Mathlib.Tactic

set_option autoImplicit false

/-! # Computations with fuel

A function that need not end is written with a fuel argument, as `f : Nat → Except ε α`, where
one error says that the fuel ran out. `Returns f a` says that the function ends with `a`: with
enough fuel it yields `a`, and with any fuel it yields `a` or runs out. `Never f` says that no
fuel makes it yield a value, and `Fails e f` that with enough fuel it ends with the error `e`.
-/

namespace Fuel

variable {ε α β : Type}

/-- `f` ends with the value `a`. -/
def Returns (timeout : ε) (f : Nat → Except ε α) (a : α) : Prop :=
  (∃ n, ∀ fuel, n ≤ fuel → f fuel = .ok a) ∧ ∀ fuel, f fuel = .ok a ∨ f fuel = .error timeout

/-- `f` ends with no value. -/
def Never (f : Nat → Except ε α) : Prop := ∀ fuel a, f fuel ≠ .ok a

/-- `f` ends with the error `e`. -/
def Fails (e : ε) (f : Nat → Except ε α) : Prop := ∃ n, ∀ fuel, n ≤ fuel → f fuel = .error e

variable {timeout e : ε} {f : Nat → Except ε α} {g : Nat → α → Except ε β} {a b : α} {c : β}

theorem Returns.const (timeout : ε) (a : α) : Returns timeout (fun _ => .ok a) a :=
  ⟨⟨0, fun _ _ => rfl⟩, fun _ => .inl rfl⟩

theorem Returns.of_if {n : Nat}
    (h : ∀ fuel, f fuel = if n < fuel then .ok a else .error timeout) : Returns timeout f a := by
  refine ⟨⟨n + 1, fun fuel hf => by rw [h, if_pos (Nat.lt_of_succ_le hf)]⟩, fun fuel => ?_⟩
  rw [h]
  by_cases hf : n < fuel
  · exact .inl (if_pos hf)
  · exact .inr (if_neg hf)

/-- A function that needs one unit of fuel for itself. -/
theorem Returns.succ {f' : Nat → Except ε α} (h0 : f 0 = .error timeout)
    (hs : ∀ n, f (n + 1) = f' n) (hf : Returns timeout f' a) : Returns timeout f a := by
  obtain ⟨⟨n, hn⟩, hf⟩ := hf
  refine ⟨⟨n + 1, fun fuel hle => ?_⟩, fun fuel => ?_⟩
  · cases fuel with
    | zero => omega
    | succ fuel => rw [hs, hn fuel (by omega)]
  · cases fuel with
    | zero => exact .inr h0
    | succ fuel => rw [hs]; exact hf fuel

theorem Returns.bind (hf : Returns timeout f a) (hg : Returns timeout (fun n => g n a) c) :
    Returns timeout (fun n => f n >>= g n) c := by
  obtain ⟨⟨n, hn⟩, hf⟩ := hf
  obtain ⟨⟨m, hm⟩, hg⟩ := hg
  refine ⟨⟨max n m, fun fuel hle => ?_⟩, fun fuel => ?_⟩
  · show f fuel >>= g fuel = .ok c
    rw [hn fuel (by omega)]
    exact hm fuel (by omega)
  · show f fuel >>= g fuel = .ok c ∨ f fuel >>= g fuel = .error timeout
    rcases hf fuel with h | h
    · rw [h]
      exact hg fuel
    · rw [h]
      exact .inr rfl

/-- A value that was returned with some fuel is the value that is returned. -/
theorem Returns.eq {fuel : Nat} (hf : Returns timeout f a) (h : f fuel = .ok b) : b = a := by
  rcases hf.2 fuel with h' | h'
  · rw [h'] at h
    exact (Except.ok.inj h).symm
  · rw [h'] at h
    cases h

theorem Returns.exists_fuel (hf : Returns timeout f a) : ∃ fuel, f fuel = .ok a :=
  let ⟨⟨n, hn⟩, _⟩ := hf
  ⟨n, hn n le_rfl⟩

/-- A function that needs one unit of fuel for itself never yields a value when the rest does not. -/
theorem Never.succ {f' : Nat → Except ε α} (h0 : f 0 = .error timeout)
    (hs : ∀ n, f (n + 1) = f' n) (hf : Never f') : Never f := by
  intro fuel a h
  cases fuel with
  | zero =>
      rw [h0] at h
      cases h
  | succ fuel =>
      rw [hs] at h
      exact hf fuel a h

theorem Never.bind_left (hf : Never f) : Never (fun n => f n >>= g n) := by
  intro fuel c h
  cases hfuel : f fuel with
  | error e =>
      simp only [hfuel, bind, Except.bind] at h
      cases h
  | ok a => exact hf fuel a hfuel

theorem Never.bind_right (hf : Returns timeout f a) (hg : Never (fun n => g n a)) :
    Never (fun n => f n >>= g n) := by
  intro fuel c h
  rcases hf.2 fuel with hfuel | hfuel
  · simp only [hfuel] at h
    exact hg fuel c h
  · simp only [hfuel, bind, Except.bind] at h
    cases h

theorem Fails.const (e : ε) : Fails e (fun _ => (.error e : Except ε α)) := ⟨0, fun _ _ => rfl⟩

theorem Fails.bind (hf : Fails e f) : Fails e (fun n => f n >>= g n) := by
  obtain ⟨n, hn⟩ := hf
  refine ⟨n, fun fuel hle => ?_⟩
  show f fuel >>= g fuel = .error e
  rw [hn fuel hle]
  rfl

theorem Returns.bind_fails (hf : Returns timeout f a) (hg : Fails e (fun n => g n a)) :
    Fails e (fun n => f n >>= g n) := by
  obtain ⟨⟨n, hn⟩, -⟩ := hf
  obtain ⟨m, hm⟩ := hg
  refine ⟨max n m, fun fuel hle => ?_⟩
  show f fuel >>= g fuel = .error e
  rw [hn fuel (by omega)]
  exact hm fuel (by omega)

end Fuel
