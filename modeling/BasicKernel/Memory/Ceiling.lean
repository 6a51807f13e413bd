import BasicKernel.Memory.MyMath

set_option autoImplicit false

/-! # `DIV_CEIL` is the ceiling of the quotient

The macro makes the divisor positive, pads a positive numerator to the next multiple of the
divisor and leaves any other one to the truncating division. Over the integers both cases give
the least integer above the quotient; at a machine type they do as long as the negations and
the padded numerator are representable.

`divCeil_ceiling` has both types, with the bounds under which nothing overflows.
-/

namespace BasicKernel

/-! ## Over the integers

The argument without machine arithmetic, in two cases: a numerator above zero is padded, and any
other one is divided as it is. -/

/-- The padded numerator of `POSITIVE_DIV_CEIL_NUM`, with the remainder of C. -/
def paddedNumerator (x y : ℤ) : ℤ := x + (y - x.tmod y).tmod y

/-- A multiple of the divisor that lies less than one divisor above the numerator gives the
ceiling of the quotient. -/
theorem isLeast_of_multiple {x y q : ℤ} (hy : 0 < y) (hlo : x ≤ q * y) (hhi : q * y < x + y) :
    IsLeast {n : ℤ | (x : ℚ) / y ≤ n} q := by
  have hyq : (0 : ℚ) < y := by exact_mod_cast hy
  constructor
  · rw [Set.mem_ofPred_eq, div_le_iff₀ hyq]
    exact_mod_cast hlo
  · intro n hn
    rw [Set.mem_ofPred_eq, div_le_iff₀ hyq] at hn
    have hle : x ≤ n * y := by exact_mod_cast hn
    by_contra hlt
    have hsucc : n + 1 ≤ q := by omega
    have hmul : (n + 1) * y ≤ q * y := mul_le_mul_of_nonneg_right hsucc hy.le
    have hexp : (n + 1) * y = n * y + y := by ring
    omega

/-- The padding of a numerator lies between `0` and the divisor. -/
theorem padding_bounds (x : ℤ) {y : ℤ} (hy : 0 < y) :
    0 ≤ (y - x.tmod y).tmod y ∧ (y - x.tmod y).tmod y < y := by
  have hlt := Int.tmod_lt_of_pos x hy
  exact ⟨Int.tmod_nonneg y (by omega), Int.tmod_lt_of_pos _ hy⟩

/-- The padded numerator is the product of the divisor and its quotient. -/
theorem paddedNumerator_tdiv {x y : ℤ} (hx : 0 < x) (hy : 0 < y) :
    (paddedNumerator x y).tdiv y * y = paddedNumerator x y := by
  have hr0 := Int.emod_nonneg x hy.ne'
  have hr1 := Int.emod_lt_of_pos x hy
  have hmod : x.tmod y = x % y := Int.tmod_eq_emod_of_nonneg hx.le
  have hdvd : y ∣ paddedNumerator x y := by
    have hdm := Int.mul_ediv_add_emod x y
    rw [paddedNumerator, hmod, Int.tmod_eq_emod_of_nonneg (by omega)]
    rcases hr0.eq_or_lt with h0 | hpos
    · rw [← h0, sub_zero, Int.emod_self, add_zero]
      exact Int.dvd_of_emod_eq_zero h0.symm
    · rw [Int.emod_eq_of_lt (by omega) (by omega)]
      exact ⟨x / y + 1, by rw [mul_add, mul_one]; omega⟩
  exact Int.tdiv_mul_cancel hdvd

/-- Rounding a positive quotient up through the padded numerator. -/
theorem padded_isLeast {x y : ℤ} (hx : 0 < x) (hy : 0 < y) :
    IsLeast {n : ℤ | (x : ℚ) / y ≤ n} ((paddedNumerator x y).tdiv y) := by
  obtain ⟨hlo, hhi⟩ := padding_bounds x hy
  apply isLeast_of_multiple hy <;> rw [paddedNumerator_tdiv hx hy, paddedNumerator] <;> omega

/-- The truncating division already rounds a quotient that is not positive up. -/
theorem truncated_isLeast {x y : ℤ} (hx : x ≤ 0) (hy : 0 < y) :
    IsLeast {n : ℤ | (x : ℚ) / y ≤ n} (x.tdiv y) := by
  have hdm := Int.tdiv_mul_add_tmod x y
  have hlo : -y < x.tmod y := Int.lt_tmod_of_pos x hy
  have hhi : x.tmod y ≤ 0 := by
    have hneg := Int.tmod_nonneg y (Int.neg_nonneg_of_nonpos hx)
    rw [Int.neg_tmod] at hneg
    omega
  apply isLeast_of_multiple hy <;> omega

/-! ## At `int`

The divisor is made positive by negating both numbers. Under the bounds nothing overflows, and the
value of the macro is the one over the integers. -/

theorem toInt_neg_of_ne {x : Int32} (hx : x.toInt ≠ -2 ^ 31) : (-x).toInt = -x.toInt := by
  have hlo := x.le_toInt
  have hhi := x.toInt_lt
  rw [Int32.toInt_neg, Int.bmod_eq_of_le] <;> omega

/-- The padded numerator of a positive `int` is the one over the integers as long as it does
not overflow. -/
theorem positiveDivCeilNum_toInt {x y : Int32} (hx : 0 < x.toInt) (hy : 0 < y.toInt)
    (hpad : paddedNumerator x.toInt y.toInt < 2 ^ 31) :
    (positiveDivCeilNum x y).toInt = paddedNumerator x.toInt y.toInt := by
  have hy1 := y.toInt_lt
  obtain ⟨hlo, hhi⟩ := padding_bounds x.toInt hy
  have hr0 : 0 ≤ x.toInt.tmod y.toInt := Int.tmod_nonneg _ hx.le
  have hr1 : x.toInt.tmod y.toInt < y.toInt := Int.tmod_lt_of_pos _ hy
  have hsub : (y - x % y).toInt = y.toInt - x.toInt.tmod y.toInt := by
    rw [Int32.toInt_sub, Int32.toInt_mod, Int.bmod_eq_of_le] <;> omega
  have hmod : ((y - x % y) % y).toInt = (y.toInt - x.toInt.tmod y.toInt).tmod y.toInt := by
    rw [Int32.toInt_mod, hsub]
  rw [paddedNumerator] at hpad ⊢
  rw [positiveDivCeilNum, Int32.toInt_add, hmod, Int.bmod_eq_of_le] <;> omega

theorem toInt_div_of_pos {x y : Int32} (hy : 0 < y.toInt) :
    (x / y).toInt = x.toInt.tdiv y.toInt := by
  apply Int32.toInt_div_of_ne_right
  rintro rfl
  exact absurd hy (by decide)

/-- `DIV_CEIL_FIXED` by a positive divisor is the ceiling of the quotient. -/
theorem divCeilFixed_isLeast {x y : Int32} (hy : 0 < y.toInt)
    (hpad : paddedNumerator x.toInt y.toInt < 2 ^ 31) :
    IsLeast {n : ℤ | (x.toInt : ℚ) / y.toInt ≤ n} (divCeilFixed x y).toInt := by
  rw [divCeilFixed]
  by_cases hx : 0 < x
  · have hx' : 0 < x.toInt := by simpa using Int32.lt_iff_toInt_lt.mp hx
    rw [if_pos hx, positiveDivCeil, toInt_div_of_pos hy, positiveDivCeilNum_toInt hx' hy hpad]
    exact padded_isLeast hx' hy
  · have hx' : x.toInt ≤ 0 := by
      have := mt Int32.lt_iff_toInt_lt.mpr hx
      simpa using this
    rw [if_neg hx, negativeDivCeil, toInt_div_of_pos hy]
    exact truncated_isLeast hx' hy

/-- `DIV_CEIL(x, y)` at `int`, for all four combinations of signs. -/
theorem divCeil_isLeast {x y : Int32} (hy : y ≠ 0) (hnx : x.toInt ≠ -2 ^ 31)
    (hny : y.toInt ≠ -2 ^ 31)
    (hpad : (if 0 < y then paddedNumerator x.toInt y.toInt
      else paddedNumerator (-x.toInt) (-y.toInt)) < 2 ^ 31) :
    IsLeast {n : ℤ | (x.toInt : ℚ) / y.toInt ≤ n} (divCeil x y).toInt := by
  rw [divCeil]
  by_cases hpos : 0 < y
  · rw [if_pos hpos] at hpad ⊢
    exact divCeilFixed_isLeast (by simpa using Int32.lt_iff_toInt_lt.mp hpos) hpad
  · have hneg : y.toInt < 0 := by
      have hle : ¬ 0 < y.toInt := by simpa using mt Int32.lt_iff_toInt_lt.mpr hpos
      have hne : y.toInt ≠ 0 := fun h => hy (Int32.toInt_inj.mp (by simpa using h))
      omega
    rw [if_neg hpos] at hpad ⊢
    rw [← toInt_neg_of_ne hnx, ← toInt_neg_of_ne hny] at hpad
    have hleast := divCeilFixed_isLeast (x := -x) (y := -y) (by rw [toInt_neg_of_ne hny]; omega) hpad
    rw [toInt_neg_of_ne hnx, toInt_neg_of_ne hny, Int.cast_neg, Int.cast_neg, neg_div_neg_eq]
      at hleast
    exact hleast

/-! ## At `uint64_t`

Nothing is negative here, so that the padding is all there is. -/

/-- The least integer above a quotient of natural numbers. -/
theorem natCeil_div (x : ℕ) {y : ℕ} (hy : 0 < y) : ⌈(x : ℚ) / y⌉₊ = (x + (y - 1)) / y := by
  have hyq : (0 : ℚ) < y := by exact_mod_cast hy
  apply le_antisymm
  · rw [Nat.ceil_le, div_le_iff₀ hyq]
    have hlt := Nat.lt_div_mul_add hy (a := x + (y - 1))
    have hle : x ≤ (x + (y - 1)) / y * y := by omega
    exact_mod_cast hle
  · rw [Nat.div_le_iff_le_mul_add_pred hy]
    have hceil := Nat.le_ceil ((x : ℚ) / y)
    rw [div_le_iff₀ hyq] at hceil
    have hle : x ≤ ⌈(x : ℚ) / y⌉₊ * y := by exact_mod_cast hceil
    rw [mul_comm] at hle
    omega

/-- `DIV_CEIL(x, y)` at `uint64_t`, as long as the padded numerator does not wrap. -/
theorem divCeil_eq_ceil {x y : UInt64} (hy : 0 < y)
    (hpad : x.toNat + (y.toNat - x.toNat % y.toNat) % y.toNat < 2 ^ 64) :
    (divCeil x y).toNat = ⌈(x.toNat : ℚ) / y.toNat⌉₊ := by
  have hy' : 0 < y.toNat := UInt64.lt_iff_toNat_lt.mp hy
  rw [divCeil_toNat_of_padded hy' hpad, natCeil_div x.toNat hy']

/-- `DIV_CEIL` is the ceiling of the quotient, at `int` and at `uint64_t`. -/
theorem divCeil_ceiling :
    (∀ x y : Int32, y ≠ 0 → x.toInt ≠ -2 ^ 31 → y.toInt ≠ -2 ^ 31 →
      (if 0 < y then paddedNumerator x.toInt y.toInt
        else paddedNumerator (-x.toInt) (-y.toInt)) < 2 ^ 31 →
      IsLeast {n : ℤ | (x.toInt : ℚ) / y.toInt ≤ n} (divCeil x y).toInt) ∧
    ∀ x y : UInt64, 0 < y → x.toNat + (y.toNat - x.toNat % y.toNat) % y.toNat < 2 ^ 64 →
      (divCeil x y).toNat = ⌈(x.toNat : ℚ) / y.toNat⌉₊ :=
  ⟨fun _ _ => divCeil_isLeast, fun _ _ => divCeil_eq_ceil⟩

/-- Three of the pairs of the tests, and a request of one byte more than a page. -/
theorem divCeil_ceiling_samples :
    IsLeast {n : ℤ | ((7 : Int32).toInt : ℚ) / (2 : Int32).toInt ≤ n} (divCeil (7 : Int32) 2).toInt ∧
    IsLeast {n : ℤ | ((-7 : Int32).toInt : ℚ) / (2 : Int32).toInt ≤ n} (divCeil (-7 : Int32) 2).toInt ∧
    IsLeast {n : ℤ | ((-7 : Int32).toInt : ℚ) / (-2 : Int32).toInt ≤ n}
      (divCeil (-7 : Int32) (-2)).toInt ∧
    (divCeil (4097 : UInt64) 4096).toNat = ⌈((4097 : UInt64).toNat : ℚ) / (4096 : UInt64).toNat⌉₊ :=
  ⟨divCeil_ceiling.1 7 2 (by decide) (by decide) (by decide) (by decide),
    divCeil_ceiling.1 (-7) 2 (by decide) (by decide) (by decide) (by decide),
    divCeil_ceiling.1 (-7) (-2) (by decide) (by decide) (by decide) (by decide),
    divCeil_ceiling.2 4097 4096 (by decide) (by decide)⟩

example : (divCeil (7 : Int32) (-2)).toInt = -3 := by decide

end BasicKernel
