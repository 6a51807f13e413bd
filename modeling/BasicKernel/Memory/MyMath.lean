import BasicKernel.Basic.Outcome

set_option autoImplicit false

/-! # `myMath.h`

The macro `DIV_CEIL` is expanded at several types, so it is generic here in the arithmetic it
uses. `memoryManager.c` expands it at `uint64_t`.
-/

namespace BasicKernel

section Macros

variable {α : Type} [Add α] [Sub α] [Mul α] [Div α] [Mod α] [Neg α] [LT α] [OfNat α 0]

/-- `POSITIVE_DIV_CEIL_NUM` -/
def positiveDivCeilNum (x y : α) : α := x + (y - x % y) % y

/-- `POSITIVE_DIV_CEIL` -/
def positiveDivCeil (x y : α) : α := positiveDivCeilNum x y / y

/-- `NEGATIVE_DIV_CEIL` -/
def negativeDivCeil (x y : α) : α := x / y

variable [DecidableRel (α := α) (· < ·)]

/-- `DIV_CEIL_FIXED` -/
def divCeilFixed (x y : α) : α := if 0 < x then positiveDivCeil x y else negativeDivCeil x y

/-- `DIV_CEIL` -/
def divCeil (x y : α) : α := if 0 < y then divCeilFixed x y else divCeilFixed (-x) (-y)

end Macros

/-- Padding a numerator to the next multiple of the denominator rounds the quotient up. -/
theorem padded_div (x : Nat) {y : Nat} (hy : 0 < y) :
    (x + (y - x % y) % y) / y = (x + (y - 1)) / y := by
  have hdm : y * (x / y) + x % y = x := Nat.div_add_mod x y
  have hr : x % y < y := Nat.mod_lt _ hy
  rcases Nat.eq_zero_or_pos (x % y) with h0 | hpos
  · have hx : x + (y - 1) = (y - 1) + y * (x / y) := by omega
    have hq : (y - 1) / y = 0 := Nat.div_eq_of_lt (by omega)
    rw [h0, Nat.sub_zero, Nat.mod_self, Nat.add_zero, hx, Nat.add_mul_div_left _ _ hy, hq,
      Nat.zero_add]
  · have hl : x + (y - x % y) = 0 + y * (x / y + 1) := by rw [Nat.mul_succ]; omega
    have hu : x + (y - 1) = (x % y - 1) + y * (x / y + 1) := by rw [Nat.mul_succ]; omega
    have hq : (x % y - 1) / y = 0 := Nat.div_eq_of_lt (by omega)
    rw [Nat.mod_eq_of_lt (by omega), hl, hu, Nat.add_mul_div_left _ _ hy,
      Nat.add_mul_div_left _ _ hy, Nat.zero_div, hq]

/-- At `uint64_t`, `DIV_CEIL` is the ceiling of the quotient unless the padded numerator
wraps. -/
theorem divCeil_toNat_of_padded {x y : UInt64} (hy : 0 < y.toNat)
    (hpad : x.toNat + (y.toNat - x.toNat % y.toNat) % y.toNat < 2 ^ 64) :
    (divCeil x y).toNat = (x.toNat + (y.toNat - 1)) / y.toNat := by
  have hy' : 0 < y := UInt64.lt_iff_toNat_lt.mpr hy
  have hmod : x.toNat % y.toNat < y.toNat := Nat.mod_lt _ hy
  have hle : x % y ≤ y := UInt64.le_iff_toNat_le.mpr (by rw [UInt64.toNat_mod]; omega)
  rw [divCeil, if_pos hy', divCeilFixed]
  by_cases h0 : 0 < x
  · rw [if_pos h0, positiveDivCeil, positiveDivCeilNum, UInt64.toNat_div, UInt64.toNat_add,
      UInt64.toNat_mod, UInt64.toNat_sub_of_le _ _ hle, UInt64.toNat_mod,
      Nat.mod_eq_of_lt hpad, padded_div _ hy]
  · have hz : x.toNat = 0 := by
      have := mt UInt64.lt_iff_toNat_lt.mpr h0
      simpa using this
    rw [if_neg h0, negativeDivCeil, UInt64.toNat_div, hz, Nat.zero_add, Nat.zero_div,
      Nat.div_eq_of_lt (by omega)]

/-- The padding is smaller than the divisor, so this bound on the sum is enough. -/
theorem divCeil_toNat {x y : UInt64} (hy : 0 < y.toNat) (hx : x.toNat + y.toNat ≤ 2 ^ 64) :
    (divCeil x y).toNat = (x.toNat + (y.toNat - 1)) / y.toNat := by
  have hpad : (y.toNat - x.toNat % y.toNat) % y.toNat < y.toNat := Nat.mod_lt _ hy
  exact divCeil_toNat_of_padded hy (by omega)

end BasicKernel
