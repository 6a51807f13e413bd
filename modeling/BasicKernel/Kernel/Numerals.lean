import BasicKernel.Kernel.Pipefs
import BasicKernel.Lib.Decimal
import BasicKernel.Lib.Fuel

set_option autoImplicit false

/-! # The numerals of `myStdLib.c`

`intLength` counts the digits of a number, and `itoa` writes them from the last one to the first. Zero
has no digits for either of them.
-/

namespace BasicKernel

open Fuel Decimal

/-- The characters that `itoa` writes. -/
def digitChars (n : Nat) : List UInt8 := (digits n).map fun d : Nat => digit d

/-- The canonical numeral in characters. -/
def numeralChars (n : Nat) : List UInt8 := (numeral n).map fun d : Nat => digit d

theorem length_digitChars (n : Nat) : (digitChars n).length = (digits n).length := List.length_map _

theorem digitChars_pos {n : Nat} (hn : 0 < n) :
    digitChars n = digitChars (n / 10) ++ [digit ((n % 10 : Nat) : Int)] := by
  rw [digitChars, digits_pos hn, List.map_append]
  rfl

theorem length_numeralChars_pos (n : Nat) : 0 < (numeralChars n).length := by
  rw [numeralChars, List.length_map, numeral]
  split
  · exact Nat.one_pos
  · rename_i hn
    rw [length_digits_pos (Nat.pos_of_ne_zero hn)]
    exact Nat.succ_pos _

theorem tdiv_ten (n : Nat) : (n : Int).tdiv 10 = ((n / 10 : Nat) : Int) := by
  rw [Int.tdiv_eq_ediv_of_nonneg (Int.natCast_nonneg n)]
  norm_cast

theorem tmod_ten (n : Nat) : (n : Int).tmod 10 = ((n % 10 : Nat) : Int) := by
  rw [Int.tmod_eq_emod_of_nonneg (Int.natCast_nonneg n)]
  norm_cast

/-! ## `intLength`

The loop divides until nothing is left, and counts one digit for each division. -/

theorem countDigits_returns (n : Nat) (length : Int) :
    Returns (countDigits · n length) (length + ((digits n).length : Int)) := by
  induction n using Nat.strong_induction_on generalizing length with
  | _ n ih =>
      by_cases hn : n = 0
      · rw [hn, digits_zero, List.length_nil, Nat.cast_zero, add_zero]
        exact Returns.succ rfl (fun fuel => rfl) (.const _ length)
      · have hpos : 0 < n := Nat.pos_of_ne_zero hn
        have hlength : length + (digits n).length = length + 1 + (digits (n / 10)).length := by
          rw [length_digits_pos hpos]
          push_cast
          omega
        rw [hlength]
        refine Returns.succ rfl (fun fuel => ?_) (ih (n / 10) (Nat.div_lt_self hpos (by decide)) (length + 1))
        rw [countDigits, if_neg (by exact_mod_cast hn), tdiv_ten]

theorem intLength_returns (n : Nat) : Returns (intLength · n) ((digits n).length : Int) := by
  have h := countDigits_returns n 0
  rwa [zero_add] at h

/-! ## `itoa`

The cells are filled from the last digit to the first, and the number of digits is counted
before. -/

variable {k : Kernel} {str : Nat}

/-- The digits go to the cells from `str` on, and no other cell changes. -/
theorem writeDigits_eq (hstr : str ≠ NULL) (n : Nat) (k : Kernel) :
    ∃ c, writeDigits str (digits n).length k n = .ok { k with char := c } ∧
      (∀ (i : Nat) (hi : i < (digitChars n).length), c (str + i) = (digitChars n)[i]) ∧
      ∀ a : Nat, a < str ∨ str + (digits n).length ≤ a → c a = k.char a := by
  -- on the number: `n / 10` is written by the rest of the loop, in front of the last digit
  induction n using Nat.strong_induction_on generalizing k with
  | _ n ih =>
      by_cases hn : n = 0
      · subst hn
        exact ⟨k.char, rfl, fun i hi => absurd hi (Nat.not_lt_zero i), fun a _ => rfl⟩
      · have hpos : 0 < n := Nat.pos_of_ne_zero hn
        have hlength := length_digits_pos hpos
        obtain ⟨c, hrun, hdigits, hrest⟩ := ih (n / 10) (Nat.div_lt_self hpos (by decide))
          { k with
            char := Function.update k.char (str + (digits (n / 10)).length) (digit ((n % 10 : Nat) : Int)) }
        refine ⟨c, ?_, fun i hi => ?_, fun a ha => ?_⟩
        · have hcell : str + (digits (n / 10)).length ≠ NULL := by
            have hstr0 : 0 < str := Nat.pos_of_ne_zero hstr
            exact Nat.ne_of_gt (Nat.add_pos_left hstr0 _)
          rw [hlength, writeDigits, Kernel.setChar_of_ne hcell, tmod_ten, tdiv_ten]
          exact hrun
        · by_cases hlast : i = (digitChars (n / 10)).length
          · -- the last digit was written first
            subst hlast
            have hkept := hrest (str + (digitChars (n / 10)).length)
              (.inr (by rw [length_digitChars]))
            rw [hkept]
            simp only [length_digitChars, Function.update_self, digitChars_pos hpos,
              List.getElem_concat_length]
          · have hlt : i < (digitChars (n / 10)).length := by
              rw [digitChars_pos hpos, List.length_append, List.length_singleton] at hi
              omega
            rw [hdigits i hlt]
            simp only [digitChars_pos hpos, List.getElem_append_left hlt]
        · have hne : a ≠ str + (digits (n / 10)).length := by omega
          rw [hrest a (by omega)]
          exact Function.update_of_ne hne _ _

/-- `itoa` writes the digits and a final 0. For zero it writes a second 0. -/
theorem itoa_returns (hstr : str ≠ NULL) (n : Nat) (k : Kernel) :
    ∃ c, Returns (itoa · k n str) (((digits n).length : Int), { k with char := c }) ∧
      (∀ (i : Nat) (hi : i < (digitChars n).length), c (str + i) = (digitChars n)[i]) ∧
      c (str + (digits n).length) = 0 ∧
      ∀ a : Nat, a < str ∨ str + max 1 (digits n).length < a → c a = k.char a := by
  have hcell : ∀ i, str + i ≠ NULL := fun i => Nat.ne_of_gt (Nat.add_pos_left (Nat.pos_of_ne_zero hstr) i)
  -- the special case of zero writes only to the first two cells
  have hspecial : ∃ c : Addr → UInt8, (∀ f : Kernel → Except Stop (Int × Kernel),
      (if ((digits n).length : Int) = 0 then do
        let k ← k.setChar str (digit 0)
        let k ← k.setChar (str + 1) 0
        f k
      else f k) = f { k with char := c }) ∧
      ∀ a : Nat, a < str ∨ str + max 1 (digits n).length < a → c a = k.char a := by
    by_cases hn : ((digits n).length : Int) = 0
    · refine ⟨Function.update (Function.update k.char str (digit 0)) (str + 1) 0, fun f => ?_, fun a ha => ?_⟩
      · rw [if_pos hn, Kernel.setChar_of_ne hstr, ok_bind, Kernel.setChar_of_ne (hcell 1), ok_bind]
      · have h0 : a ≠ str := by omega
        have h1 : a ≠ str + 1 := by omega
        rw [Function.update_of_ne h1, Function.update_of_ne h0]
    · exact ⟨k.char, fun f => if_neg hn, fun a _ => rfl⟩
  obtain ⟨c₀, hc₀, hkept₀⟩ := hspecial
  obtain ⟨c, hrun, hdigits, hkept⟩ := writeDigits_eq hstr n
    { k with char := Function.update c₀ (str + (digits n).length) 0 }
  refine ⟨c, (intLength_returns n).bind ?_, hdigits, ?_, fun a ha => ?_⟩
  · simp only [pure_eq_ok, ok_bind, Int.toNat_natCast]
    rw [hc₀]
    simp only [Kernel.setChar_of_ne (hcell _), ok_bind, hrun]
    exact .const _ _
  · rw [hkept _ (.inr (le_refl _))]
    exact Function.update_self ..
  · have hne : a ≠ str + (digits n).length := by omega
    rw [hkept a (by omega), ← hkept₀ a ha]
    exact Function.update_of_ne hne _ _

end BasicKernel
