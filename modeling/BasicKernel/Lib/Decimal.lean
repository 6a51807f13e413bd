import Mathlib.Data.Nat.Digits.Lemmas

set_option autoImplicit false

/-! # Decimal numerals

The digits of a number, the most significant first, and the number that a list of digits stands for.
-/

namespace Decimal

/-- The digits without leading zeros. Zero has none. -/
def digits (n : Nat) : List Nat := (Nat.digits 10 n).reverse

/-- The canonical numeral: at least one digit, and no leading zero. -/
def numeral (n : Nat) : List Nat := if n = 0 then [0] else digits n

/-- What a list of digits stands for. -/
def value (ds : List Nat) : Nat := ds.foldl (fun v d => v * 10 + d) 0

variable {n m d : Nat} {ds : List Nat}

/-! ## Digits

The least significant digit is the remainder by ten. An induction on a number therefore goes
through its quotient, and the digits are appended at the end. -/

@[simp] theorem digits_zero : digits 0 = [] := rfl

theorem digits_pos (hn : 0 < n) : digits n = digits (n / 10) ++ [n % 10] := by
  rw [digits, Nat.digits_def' (by decide) hn, List.reverse_cons]
  rfl

theorem numeral_of_lt (hn : n < 10) : numeral n = [n] := by
  by_cases h0 : n = 0
  · rw [numeral, if_pos h0, h0]
  · rw [numeral, if_neg h0, digits_pos (Nat.pos_of_ne_zero h0), Nat.div_eq_of_lt hn, Nat.mod_eq_of_lt hn]
    rfl

theorem lt_ten_of_mem (hd : d ∈ digits n) : d < 10 :=
  Nat.digits_lt_base (by decide) (List.mem_reverse.mp hd)

theorem length_digits_pos (hn : 0 < n) : (digits n).length = (digits (n / 10)).length + 1 := by
  rw [digits_pos hn, List.length_append, List.length_singleton]

theorem length_digits_le {k : Nat} (hn : n < 10 ^ k) : (digits n).length ≤ k := by
  rw [digits, List.length_reverse]
  exact Nat.digits_length_le_iff (by decide) n |>.mpr hn

/-! ## Values

Reading the digits of a number gives it back, hence different numbers have different digits. A
reader that stops early has a smaller value, which bounds what it adds up on the way. -/

@[simp] theorem value_nil : value [] = 0 := rfl

theorem value_concat (ds : List Nat) (d : Nat) : value (ds ++ [d]) = value ds * 10 + d := by
  rw [value, List.foldl_append]
  rfl

theorem value_digits (n : Nat) : value (digits n) = n := by
  induction n using Nat.strong_induction_on with
  | _ n ih =>
      by_cases hn : n = 0
      · rw [hn, digits_zero, value_nil]
      · have hpos : 0 < n := Nat.pos_of_ne_zero hn
        calc value (digits n)
            = value (digits (n / 10)) * 10 + n % 10 := by rw [digits_pos hpos, value_concat]
          _ = n / 10 * 10 + n % 10 := by rw [ih (n / 10) (Nat.div_lt_self hpos (by decide))]
          _ = n := Nat.div_add_mod' n 10

theorem digits_injective : Function.Injective digits := by
  intro n m h
  rw [← value_digits n, h, value_digits]

/-- Reading on makes the value no smaller. -/
theorem value_take_le (ds : List Nat) (i : Nat) : value (ds.take i) ≤ value ds := by
  induction ds using List.reverseRecOn with
  | nil => simp
  | append_singleton ds d ih =>
      by_cases hi : i ≤ ds.length
      · rw [List.take_append_of_le_length hi, value_concat]
        omega
      · rw [List.take_of_length_le (by rw [List.length_append, List.length_singleton]; omega)]

end Decimal
