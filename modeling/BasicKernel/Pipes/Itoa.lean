import BasicKernel.Pipes.Names
import BasicKernel.View.Script

set_option autoImplicit false

/-! # What `itoa` leaves in memory

For every positive number `itoa` writes the canonical numeral. Zero takes its special case, which writes
the digit, and then the terminator of the general case, which overwrites it.

`itoa_writesNumeral_iff` says so in both directions. The names of the pipes of process `0` have no
digit where its number should be (`itoa_zero_writes_nothing`).
-/

namespace BasicKernel

open Fuel Decimal

variable {k : Kernel} {str : Nat} {value : Int}

/-- `itoa` returns the length of the canonical numeral of `value` and leaves this string at `str`. -/
def WritesNumeral (k : Kernel) (value : Int) (str : Nat) : Prop :=
  ∃ k', Returns (itoa · k value str) (((numeralChars value.toNat).length : Int), k') ∧
    k'.IsString str (numeralChars value.toNat)

theorem numeralChars_zero : numeralChars 0 = [digit 0] := rfl

theorem numeralChars_pos {n : Nat} (hn : 0 < n) : numeralChars n = digitChars n := by
  rw [numeralChars, numeral, if_neg hn.ne', digitChars]

/-- `itoa` leaves the digits of the number as a string. -/
theorem itoa_string (str : Nat) (hstr : str ≠ NULL) (n : Nat) (k : Kernel) :
    ∃ k', Returns (itoa · k n str) (((digits n).length : Int), k') ∧
      k'.IsString str (digitChars n) := by
  obtain ⟨c, hreturns, hdigits, hend, -⟩ := itoa_returns hstr n k
  refine ⟨_, hreturns, Kernel.isString_iff.mpr ⟨hdigits, zero_notMem_digitChars n, ?_⟩⟩
  rw [length_digitChars]
  exact hend

/-- `itoa` writes the numeral of every number but zero. -/
theorem itoa_writesNumeral_iff (hstr : str ≠ NULL) (k : Kernel) (hvalue : 0 ≤ value) :
    WritesNumeral k value str ↔ value ≠ 0 := by
  obtain ⟨n, rfl⟩ := Int.eq_ofNat_of_zero_le hvalue
  obtain ⟨k', hreturns, hstring⟩ := itoa_string str hstr n k
  constructor
  · rintro ⟨k₂, hnumeral, -⟩ hzero
    obtain rfl : n = 0 := by exact_mod_cast hzero
    -- the length that `itoa` returns for zero is 0
    obtain ⟨fuel, hrun⟩ := hnumeral.exists_fuel
    have hlength := congrArg Prod.fst (hreturns.eq hrun)
    simp [numeralChars_zero] at hlength
  · intro hne
    have hpos : 0 < n := by
      have hn : n ≠ 0 := by exact_mod_cast hne
      omega
    refine ⟨k', ?_, ?_⟩
    · rw [Int.toNat_natCast, numeralChars_pos hpos, length_digitChars]
      exact hreturns
    · rw [Int.toNat_natCast, numeralChars_pos hpos]
      exact hstring

theorem itoa_writesNumeral_pid_seven : WritesNumeral zeroKernel 7 0x1000 :=
  (itoa_writesNumeral_iff (by decide) zeroKernel (by decide)).mpr (by decide)

/-- Process `0` gets no digit in the names of its pipes. -/
theorem itoa_zero_writes_nothing :
    (∃ k', Returns (itoa · zeroKernel 0 0x1000) (0, k') ∧ k'.IsString 0x1000 []) ∧
      ¬ WritesNumeral zeroKernel 0 0x1000 := by
  obtain ⟨k', hreturns, hstring⟩ := itoa_string 0x1000 (by decide) 0 zeroKernel
  refine ⟨⟨k', hreturns, hstring⟩, ?_⟩
  rintro ⟨k₂, hnumeral, -⟩
  obtain ⟨fuel, hrun⟩ := hnumeral.exists_fuel
  have hlength := congrArg Prod.fst (hreturns.eq hrun)
  simp [numeralChars_zero] at hlength

end BasicKernel
