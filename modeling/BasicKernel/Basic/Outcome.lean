import BasicKernel.Lib.Fuel

set_option autoImplicit false

/-! # Outcomes of C code

A C function that can go wrong returns `Except Stop`. It goes wrong by a dereference of the
null pointer, by an access outside an array, or by a loop that does not end within the fuel
it was given. A `while` loop over pointers (`Linked.walkWhile`) takes the fuel as an argument; that
the loop ends is then a theorem about enough fuel.
-/

namespace BasicKernel

/-- The ways in which a call fails to return. -/
inductive Stop where
  | nullDereference
  | outOfBounds
  | outOfFuel
  deriving DecidableEq, Repr

/-- `f` ends with the value `a`, given enough fuel. -/
abbrev Returns {α : Type} (f : Nat → Except Stop α) (a : α) : Prop :=
  Fuel.Returns Stop.outOfFuel f a

theorem bind_eq_ok {ε α β : Type} {x : Except ε α} {f : α → Except ε β} {b : β} :
    (x >>= f) = .ok b ↔ ∃ a, x = .ok a ∧ f a = .ok b := by
  cases x with
  | error e => simp [bind, Except.bind]
  | ok a => simp [bind, Except.bind]

@[simp] theorem ok_bind {ε α β : Type} (a : α) (f : α → Except ε β) :
    ((Except.ok a : Except ε α) >>= f) = f a := rfl

@[simp] theorem error_bind {ε α β : Type} (e : ε) (f : α → Except ε β) :
    ((Except.error e : Except ε α) >>= f) = .error e := rfl

@[simp] theorem throw_eq_error {ε α : Type} (e : ε) : (throw e : Except ε α) = .error e := rfl

@[simp] theorem pure_eq_ok {ε α : Type} (a : α) : (pure a : Except ε α) = .ok a := rfl

/-! ## Conversions between C integer types

An `int` is an `Int` and an address a `Nat`. Where the source converts between types of
different widths, or lets an `int` wrap, the model applies the conversion that the compiler
does. Inside the bounds of the type the conversion is the identity, and a chain of sums
needs one conversion only. -/

/-- Conversion of an integer to `int`: the value modulo `2^32`, in two's complement. -/
def toInt32 (x : Int) : Int := x.bmod (2 ^ 32)

/-- Conversion of an integer to `uint64_t`: the value modulo `2^64`. -/
def toUInt64 (x : Int) : Nat := (x % 2 ^ 64).toNat

/-- Conversion of an integer to `int64_t`. -/
def toInt64 (x : Int) : Int := x.bmod (2 ^ 64)

theorem toInt32_of_bounds {x : Int} (hlo : -2 ^ 31 ≤ x) (hhi : x < 2 ^ 31) : toInt32 x = x := by
  simp only [toInt32, Int.bmod_def]
  split <;> omega

theorem toInt32_bounds (x : Int) : -2 ^ 31 ≤ toInt32 x ∧ toInt32 x < 2 ^ 31 := by
  simp only [toInt32, Int.bmod_def]
  split <;> omega

theorem toInt32_toInt32 (x : Int) : toInt32 (toInt32 x) = toInt32 x := Int.bmod_bmod

/-- Sums may be converted once, at the end. -/
theorem toInt32_add (x y : Int) : toInt32 (toInt32 x + y) = toInt32 (x + y) := Int.bmod_add_bmod

theorem toInt64_of_bounds {x : Int} (hlo : -2 ^ 63 ≤ x) (hhi : x < 2 ^ 63) : toInt64 x = x := by
  simp only [toInt64, Int.bmod_def]
  split <;> omega

theorem toUInt64_of_bounds {x : Int} (hlo : 0 ≤ x) (hhi : x < 2 ^ 64) :
    (toUInt64 x : Int) = x := by
  simp only [toUInt64]
  omega

end BasicKernel
