import BasicKernel.Basic.Outcome
import BasicKernel.Lib.Linked

set_option autoImplicit false

/-! # `string.c` of the user programs

A string lies in memory with its terminator. A pointer into it is an index, and an access outside the
cells of the string and its terminator is an error.

`strlen_returns`, `strrev_reverses_iff` and `strstr_decides_iff` are what the three functions do,
the last two with the exact condition under which they do what their comments say.
-/

namespace BasicKernel

open Linked Fuel

/-- A NUL-terminated string. -/
structure CString where
  chars : List UInt8
  ended : 0 ∉ chars
  deriving DecidableEq, Repr

/-- The cells of the string in memory. -/
def CString.region (s : CString) : List UInt8 := s.chars ++ [0]

def CString.length (s : CString) : Nat := s.chars.length

/-- The string that starts in the first of some cells. -/
def stringIn (cells : List UInt8) : List UInt8 := cells.takeWhile fun c => c ≠ 0

/-! ## The functions -/

/-- `str[i]` -/
def charAt (str : List UInt8) (i : Nat) : Except Stop UInt8 :=
  match str[i]? with
  | some c => .ok c
  | none => .error .outOfBounds

/-- `str[i] = c` -/
def setCharAt (str : List UInt8) (i : Nat) (c : UInt8) : Except Stop (List UInt8) :=
  if i < str.length then .ok (str.set i c) else .error .outOfBounds

def strlen (fuel : Nat) (str : List UInt8) : Except Stop Nat :=
  walkWhile .outOfFuel (fun length => do return decide ((← charAt str length) ≠ 0))
    (fun length => .ok (length + 1)) fuel 0

/-- The loop of `strrev`. -/
def swapWhile (medio fuel : Nat) (s : Nat × List UInt8) : Except Stop (Nat × List UInt8) :=
  walkWhile .outOfFuel (fun s => .ok (decide (s.1 < medio)))
    (fun (i, str) => do
      let aux ← charAt str i
      let str ← setCharAt str i (← charAt str (2 * medio - i))
      let str ← setCharAt str (2 * medio - i) aux
      return (i + 1, str))
    fuel s

def strrev (fuel : Nat) (str : List UInt8) : Except Stop (List UInt8) := do
  let medio := (← strlen fuel str) / 2
  let (_, str) ← swapWhile medio fuel (0, str)
  return str

/-- The local variables of `strstr`. -/
structure Search where
  str1 : Nat
  str2 : Nat
  count : Nat
  flag : Bool

/-- The inner loop of `strstr`. -/
def matchWhile (str1 str2 : List UInt8) (fuel : Nat) (s : Search) : Except Stop Search :=
  walkWhile .outOfFuel
    (fun s => do
      let c1 ← charAt str1 s.str1
      let c2 ← charAt str2 s.str2
      return decide (c1 = c2 ∧ c2 ≠ 0 ∧ c1 ≠ 0))
    (fun s => .ok ⟨s.str1 + 1, s.str2 + 1, s.count + 1, true⟩)
    fuel s

/-- The outer loop of `strstr`. -/
def searchWhile (str1 str2 : List UInt8) : Nat → Search → Except Stop Int
  | 0, _ => .error .outOfFuel
  | fuel + 1, s => do
      if (← charAt str1 s.str1) = 0 then
        return 0
      let s ← matchWhile str1 str2 fuel s
      if (← charAt str2 s.str2) = 0 then
        return 1
      let s := if s.flag then { s with str2 := s.str2 - s.count } else s
      if (← charAt str1 s.str1) = 0 then
        return 0
      searchWhile str1 str2 fuel { s with str1 := s.str1 + 1, count := 0, flag := false }

def strstr (fuel : Nat) (str1 str2 : List UInt8) : Except Stop Int :=
  searchWhile str1 str2 fuel ⟨0, 0, 0, false⟩

/-! ## Cells -/

variable {s s₁ s₂ : CString} {cells : List UInt8} {i m p q : Nat}

theorem charAt_of_lt (h : i < cells.length) : charAt cells i = .ok cells[i] := by
  rw [charAt, List.getElem?_eq_getElem h]

theorem CString.charAt_lt (h : i < s.length) : charAt s.region i = .ok s.chars[i] := by
  have hlt : i < s.region.length := by
    rw [region, List.length_append]
    exact Nat.lt_add_right 1 h
  rw [charAt_of_lt hlt]
  simp only [region, List.getElem_append_left h]

theorem CString.charAt_end (s : CString) : charAt s.region s.length = .ok 0 := by
  rw [charAt, region, length, List.getElem?_concat_length]

theorem CString.ne_zero (h : i < s.length) : s.chars[i] ≠ 0 := by
  intro h0
  exact s.ended (h0 ▸ List.getElem_mem h)

/-- A read inside the string or at its terminator tells whether the string ends there. -/
theorem CString.charAt_eq_zero (h : i ≤ s.length) :
    ∃ c, charAt s.region i = .ok c ∧ (c = 0 ↔ i = s.length) := by
  rcases h.eq_or_lt with rfl | hlt
  · exact ⟨0, s.charAt_end, by simp⟩
  · exact ⟨_, charAt_lt hlt, by simp [ne_zero hlt, hlt.ne]⟩

/-! ## `strlen` -/

theorem strlen_returns (s : CString) : Returns (strlen · s.region) s.length := by
  -- the induction is on the characters that are left
  have hrest : ∀ d i, i + d = s.length → Returns (fun fuel =>
      walkWhile .outOfFuel (fun length => do return decide ((← charAt s.region length) ≠ 0))
        (fun length => .ok (length + 1)) fuel i) s.length := by
    intro d
    induction d with
    | zero =>
        rintro i rfl
        apply walkWhile_stop
        simp [CString.charAt_end]
    | succ d ih =>
        intro i hi
        have hlt : i < s.length := by omega
        refine walkWhile_go ?_ rfl (ih (i + 1) (by omega))
        simp [CString.charAt_lt hlt, CString.ne_zero hlt]
  exact hrest s.length 0 (Nat.zero_add _)

/-! ## `strrev`

The loop exchanges cells from both ends, and the upper end is one cell too high for strings of
even length. -/

/-- The cells after `i` swaps around the cell `m`: the cells outside are exchanged. -/
def Swapped (m i : Nat) (cells cells' : List UInt8) : Prop :=
  cells'.length = cells.length ∧ ∀ j, cells'[j]? =
    if j < i ∨ 2 * m - i < j ∧ j ≤ 2 * m then cells[2 * m - j]? else cells[j]?

theorem Swapped.refl (m : Nat) (cells : List UInt8) : Swapped m 0 cells cells := by
  refine ⟨rfl, fun j => ?_⟩
  rw [if_neg (by omega)]

theorem Swapped.succ {cells' : List UInt8} (h : Swapped m i cells cells') (hi : i < m)
    (hm : 2 * m < cells.length) : ∃ a b, charAt cells' i = .ok a ∧ charAt cells' (2 * m - i) = .ok b ∧
      Swapped m (i + 1) cells ((cells'.set i b).set (2 * m - i) a) := by
  obtain ⟨hlength, hcells⟩ := h
  have hl : i < cells'.length := by omega
  have hr : 2 * m - i < cells'.length := by omega
  refine ⟨_, _, charAt_of_lt hl, charAt_of_lt hr, by simpa using hlength, fun j => ?_⟩
  have hleft : cells'[i]? = cells[i]? := by rw [hcells, if_neg (by omega)]
  have hright : cells'[2 * m - i]? = cells[2 * m - i]? := by rw [hcells, if_neg (by omega)]
  by_cases hjr : j = 2 * m - i
  · subst hjr
    rw [List.getElem?_set_self (by simpa using hr), ← List.getElem?_eq_getElem hl, hleft,
      if_pos (by omega)]
    congr 1
    omega
  · rw [List.getElem?_set_ne (Ne.symm hjr)]
    by_cases hjl : j = i
    · subst hjl
      rw [List.getElem?_set_self hl, ← List.getElem?_eq_getElem hr, hright, if_pos (by omega)]
    · rw [List.getElem?_set_ne (Ne.symm hjl), hcells]
      by_cases hout : j < i ∨ 2 * m - i < j ∧ j ≤ 2 * m
      · rw [if_pos hout, if_pos (by omega)]
      · rw [if_neg hout, if_neg (by omega)]

/-- After the last swap the first `2 * m + 1` cells are reversed. -/
theorem Swapped.eq_reverse {cells' : List UInt8} (h : Swapped m m cells cells')
    (hm : 2 * m < cells.length) :
    cells' = (cells.take (2 * m + 1)).reverse ++ cells.drop (2 * m + 1) := by
  obtain ⟨-, hcells⟩ := h
  have hlen : (cells.take (2 * m + 1)).length = 2 * m + 1 := by
    rw [List.length_take]
    omega
  -- Cell by cell: the first `2 * m + 1` are mirrored, the others untouched.
  apply List.ext_getElem?
  intro j
  rw [hcells]
  by_cases hj : j < 2 * m + 1
  · rw [List.getElem?_append_left (by rw [List.length_reverse, hlen]; exact hj),
      List.getElem?_reverse (by rw [hlen]; exact hj), hlen, List.getElem?_take_of_lt (by omega)]
    have hmirror : 2 * m + 1 - 1 - j = 2 * m - j := by omega
    rw [hmirror]
    -- The middle cell is its own mirror.
    by_cases hout : j < m ∨ 2 * m - m < j ∧ j ≤ 2 * m
    · rw [if_pos hout]
    · rw [if_neg hout]
      congr 1
      omega
  · rw [if_neg (by omega), List.getElem?_append_right (by rw [List.length_reverse, hlen]; omega),
      List.length_reverse, hlen, List.getElem?_drop]
    congr 1
    omega

theorem swapWhile_returns (m : Nat) (cells : List UInt8) (hm : 2 * m < cells.length) :
    Returns (swapWhile m · (0, cells))
      (m, (cells.take (2 * m + 1)).reverse ++ cells.drop (2 * m + 1)) := by
  have hrest : ∀ d i cells', i + d = m → Swapped m i cells cells' →
      Returns (swapWhile m · (i, cells'))
        (m, (cells.take (2 * m + 1)).reverse ++ cells.drop (2 * m + 1)) := by
    intro d
    induction d with
    | zero =>
        rintro i cells' rfl hs
        rw [← hs.eq_reverse hm]
        apply walkWhile_stop
        simp
    | succ d ih =>
        intro i cells' hi hs
        have hlt : i < m := by omega
        obtain ⟨a, b, ha, hb, hnext⟩ := hs.succ hlt hm
        refine walkWhile_go (by simp [hlt]) ?_ (ih (i + 1) _ (by omega) hnext)
        have hl : i < cells'.length := by rw [hs.1]; omega
        have hr : 2 * m - i < cells'.length := by rw [hs.1]; omega
        simp [ha, hb, setCharAt, hl, hr]
  exact hrest m 0 cells (Nat.zero_add m) (.refl m cells)

/-- `strrev` reverses an odd number of cells: the characters, or the characters and the terminator. -/
theorem strrev_returns (s : CString) : Returns (strrev · s.region)
    ((s.region.take (2 * (s.length / 2) + 1)).reverse ++ s.region.drop (2 * (s.length / 2) + 1)) := by
  have hlength : s.region.length = s.length + 1 := by
    rw [CString.region, List.length_append, List.length_singleton, CString.length]
  have hswap := swapWhile_returns (s.length / 2) s.region (by omega)
  exact (strlen_returns s).bind (hswap.bind (.const _ _))

theorem CString.region_length (s : CString) : s.region.length = s.length + 1 := by
  rw [region, List.length_append, List.length_singleton, length]

theorem CString.stringIn_region (s : CString) : stringIn s.region = s.chars := by
  have hne : ∀ c ∈ s.chars, decide (c ≠ 0) = true := by
    intro c hc
    exact decide_eq_true fun h0 => s.ended (h0 ▸ hc)
  rw [stringIn, region, List.takeWhile_append_of_pos hne]
  simp

/-- The string read backwards. -/
def CString.reverse (s : CString) : CString := ⟨s.chars.reverse, by simpa using s.ended⟩

theorem strrev_odd (h : s.length % 2 = 1) : Returns (strrev · s.region) s.reverse.region := by
  have hm : 2 * (s.length / 2) + 1 = s.chars.length := by
    rw [CString.length] at h ⊢
    omega
  have hreturns := strrev_returns s
  rw [hm, CString.region, List.take_left, List.drop_left] at hreturns
  exact hreturns

/-- The terminator of a string of even length comes to the front. -/
theorem strrev_even (h : s.length % 2 = 0) :
    Returns (strrev · s.region) (0 :: s.chars.reverse) := by
  have hm : 2 * (s.length / 2) + 1 = s.region.length := by
    rw [CString.region_length]
    omega
  have hreturns := strrev_returns s
  rw [hm, List.take_length, List.drop_length, List.append_nil, CString.region, List.reverse_append] at hreturns
  exact hreturns

/-- `strrev` reverses the string in place, and a second call gives the string back. -/
def Reversed (s : CString) : Prop :=
  ∃ r, Returns (strrev · s.region) r ∧ (stringIn r).length = s.length ∧
    (∀ i < s.length, (stringIn r)[i]? = s.chars[s.length - 1 - i]?) ∧
    Returns (strrev · r) s.region

theorem not_reversed_of_even (h : s.length % 2 = 0) (hpos : 0 < s.length) : ¬ Reversed s := by
  rintro ⟨r, hreturns, hlength, -, -⟩
  obtain ⟨fuel, hrun⟩ := hreturns.exists_fuel
  rw [(strrev_even h).eq hrun, stringIn] at hlength
  simp at hlength
  omega

/-- `strrev` reverses the strings of odd length, and the empty one. -/
theorem strrev_reverses_iff (s : CString) : Reversed s ↔ s.length % 2 = 1 ∨ s.length = 0 := by
  constructor
  -- A string of even length but the empty one loses its first character to the terminator.
  · intro hreversed
    by_contra hcon
    exact not_reversed_of_even (by omega) (by omega) hreversed
  · rintro (hodd | hzero)
    · have hodd' : s.reverse.length % 2 = 1 := by
        rw [CString.reverse, CString.length, List.length_reverse]
        exact hodd
      -- For an odd length the reversed string has an odd length too, and comes back.
      have hback := strrev_odd hodd'
      rw [CString.reverse, CString.reverse, CString.region] at hback
      simp only [List.reverse_reverse] at hback
      refine ⟨s.reverse.region, strrev_odd hodd, ?_, fun i hi => ?_, hback⟩
      · rw [CString.stringIn_region, CString.reverse, List.length_reverse, CString.length]
      · rw [CString.stringIn_region, CString.reverse, List.getElem?_reverse hi, CString.length]
    · have hnil : s.chars = [] := List.eq_nil_of_length_eq_zero hzero
      have hreturns := strrev_even (s := s) (by omega)
      have hregion : s.region = [0] := by rw [CString.region, hnil, List.nil_append]
      rw [hnil, List.reverse_nil] at hreturns
      refine ⟨[0], hreturns, ?_, fun i hi => by omega, ?_⟩
      · rw [hzero]
        rfl
      · rw [hregion] at hreturns ⊢
        exact hreturns

/-- The string `ab` comes out empty. -/
theorem strrev_ab : ¬ Reversed ⟨[97, 98], by decide⟩ := not_reversed_of_even rfl Nat.two_pos

/-! ## `strstr`

The inner loop compares as long as the characters agree. Behind a mismatch the outer loop goes on,
and does not come back to the starts that it has passed. -/

/-- The number of characters at the front that two strings share. -/
def commonPrefix : List UInt8 → List UInt8 → Nat
  | a :: as, b :: bs => if a = b then commonPrefix as bs + 1 else 0
  | _, _ => 0

@[simp] theorem commonPrefix_nil_left (bs : List UInt8) : commonPrefix [] bs = 0 := by
  cases bs <;> rfl

@[simp] theorem commonPrefix_nil_right (as : List UInt8) : commonPrefix as [] = 0 := by
  cases as <;> rfl

theorem commonPrefix_le_left (as bs : List UInt8) : commonPrefix as bs ≤ as.length := by
  fun_induction commonPrefix as bs with
  | case1 a as bs ih => simpa using ih
  | case2 a as b bs h => exact Nat.zero_le _
  | case3 as bs h => exact Nat.zero_le _

theorem commonPrefix_le_right (as bs : List UInt8) : commonPrefix as bs ≤ bs.length := by
  fun_induction commonPrefix as bs with
  | case1 a as bs ih => simpa using ih
  | case2 a as b bs h => exact Nat.zero_le _
  | case3 as bs h => exact Nat.zero_le _

theorem commonPrefix_eq_length_iff (as bs : List UInt8) :
    commonPrefix as bs = bs.length ↔ bs <+: as := by
  induction bs generalizing as with
  | nil =>
      simp only [List.length_nil, List.nil_prefix, iff_true]
      exact Nat.le_zero.mp (commonPrefix_le_right as [])
  | cons b bs ih =>
      cases as with
      | nil => simp [commonPrefix]
      | cons a as =>
          rw [List.cons_prefix_cons, commonPrefix, ← ih]
          by_cases hab : a = b
          · simp [hab]
          · simp [hab, Ne.symm hab]

theorem commonPrefix_drop (hp : p < s₁.length) (hq : q < s₂.length) :
    commonPrefix (s₁.chars.drop p) (s₂.chars.drop q) =
      if s₁.chars[p] = s₂.chars[q] then
        commonPrefix (s₁.chars.drop (p + 1)) (s₂.chars.drop (q + 1)) + 1
      else 0 := by
  rw [List.drop_eq_getElem_cons hp, List.drop_eq_getElem_cons hq, commonPrefix]

/-- The inner loop runs over the characters that the two strings share. -/
theorem matchWhile_returns (s₁ s₂ : CString) (hp : p ≤ s₁.length) (hq : q ≤ s₂.length) (count : Nat) (flag : Bool) :
    ∃ l, l = commonPrefix (s₁.chars.drop p) (s₂.chars.drop q) ∧
      Returns (matchWhile s₁.region s₂.region · ⟨p, q, count, flag⟩)
        ⟨p + l, q + l, count + l, flag || decide (0 < l)⟩ := by
  have hflag : ∀ flag : Bool, (flag || decide (0 < 0)) = flag := by simp
  obtain ⟨d, hd⟩ := Nat.exists_eq_add_of_le hp
  -- By induction on what is left of the first string.
  induction d generalizing p q count flag with
  | zero =>
      obtain rfl : p = s₁.length := by omega
      obtain ⟨c, hc, -⟩ := CString.charAt_eq_zero hq
      refine ⟨0, ?_, ?_⟩
      · rw [CString.length, List.drop_length, commonPrefix_nil_left]
      · rw [hflag]
        exact walkWhile_stop (by simp [CString.charAt_end, hc])
  | succ d ih =>
      have hp' : p < s₁.length := by omega
      rcases hq.eq_or_lt with rfl | hq'
      · refine ⟨0, ?_, ?_⟩
        · rw [CString.length, List.drop_length, commonPrefix_nil_right]
        · rw [hflag]
          exact walkWhile_stop (by simp [CString.charAt_lt hp', CString.charAt_end])
      · rw [commonPrefix_drop hp' hq']
        -- Equal characters are passed over, and different ones end the loop.
        by_cases hc : s₁.chars[p] = s₂.chars[q]
        · obtain ⟨l, hl, hreturns⟩ := ih hp' hq' (count + 1) true (by omega)
          refine ⟨l + 1, by rw [if_pos hc, hl], ?_⟩
          have hnext : (⟨p + 1 + l, q + 1 + l, count + 1 + l, true || decide (0 < l)⟩ : Search)
              = ⟨p + (l + 1), q + (l + 1), count + (l + 1), flag || decide (0 < l + 1)⟩ := by
            simp [Nat.add_assoc, Nat.add_comm 1 l]
          rw [hnext] at hreturns
          refine walkWhile_go ?_ rfl hreturns
          simp [CString.charAt_lt hp', CString.charAt_lt hq', hc, CString.ne_zero hq']
        · refine ⟨0, by rw [if_neg hc], ?_⟩
          rw [hflag]
          exact walkWhile_stop (by simp [CString.charAt_lt hp', CString.charAt_lt hq', hc])

/-- The positions that `strstr` tries from the position `p` on. Where it fails it goes on behind the
mismatch, not at the next position. -/
inductive Tried (str1 str2 : List UInt8) : Nat → Nat → Prop
  | here (p : Nat) : Tried str1 str2 p p
  | later {p q : Nat} : ¬ str2 <+: str1.drop p →
      Tried str1 str2 (p + commonPrefix (str1.drop p) str2 + 1) q → Tried str1 str2 p q

theorem Tried.le {str1 str2 : List UInt8} (h : Tried str1 str2 p q) : p ≤ q := by
  induction h with
  | here p => exact le_rfl
  | later hno h ih => omega

/-- One turn of the outer loop. -/
theorem searchWhile_succ (hp : p < s₁.length) (fuel : Nat) :
    searchWhile s₁.region s₂.region (fuel + 1) ⟨p, 0, 0, false⟩ = (do
      let s ← matchWhile s₁.region s₂.region fuel ⟨p, 0, 0, false⟩
      if (← charAt s₂.region s.str2) = 0 then
        return 1
      let s := if s.flag then { s with str2 := s.str2 - s.count } else s
      if (← charAt s₁.region s.str1) = 0 then
        return 0
      searchWhile s₁.region s₂.region fuel { s with str1 := s.str1 + 1, count := 0, flag := false }) := by
  simp [searchWhile, CString.charAt_lt hp, CString.ne_zero hp]

/-- The search from `p` on finds what starts at one of the positions that it tries. -/
theorem searchWhile_returns (s₁ s₂ : CString) (hp : p ≤ s₁.length) :
    ((∃ q < s₁.length, Tried s₁.chars s₂.chars p q ∧ s₂.chars <+: s₁.chars.drop q) →
      Returns (searchWhile s₁.region s₂.region · ⟨p, 0, 0, false⟩) 1) ∧
    (¬ (∃ q < s₁.length, Tried s₁.chars s₂.chars p q ∧ s₂.chars <+: s₁.chars.drop q) →
      Returns (searchWhile s₁.region s₂.region · ⟨p, 0, 0, false⟩) 0) := by
  obtain ⟨d, hd⟩ := Nat.exists_eq_add_of_le hp
  -- By strong induction on what is left, as a mismatch skips the characters that matched.
  induction d using Nat.strong_induction_on generalizing p with
  | _ d ih =>
      rcases hp.eq_or_lt with rfl | hlt
      · refine ⟨?_, fun _ => .succ rfl (fun fuel => ?_) (.const _ _)⟩
        · rintro ⟨q, hq, htried, -⟩
          exact absurd htried.le (by omega)
        · simp [searchWhile, CString.charAt_end]
      -- How far the inner loop gets from here.
      · obtain ⟨l, hl, hmatch⟩ := matchWhile_returns s₁ s₂ hp (Nat.zero_le _) 0 false
        simp only [List.drop_zero, Nat.zero_add, Bool.false_or] at hl hmatch
        have hocc := commonPrefix_eq_length_iff (s₁.chars.drop p) s₂.chars
        rw [← hl] at hocc
        have hright : l ≤ s₂.length := hl ▸ commonPrefix_le_right _ _
        have hleft : p + l ≤ s₁.length := by
          have hle := commonPrefix_le_left (s₁.chars.drop p) s₂.chars
          rw [← hl, List.length_drop] at hle
          rw [CString.length] at hlt ⊢
          omega
        obtain ⟨c₂, hc₂, hend₂⟩ := CString.charAt_eq_zero hright
        obtain ⟨c₁, hc₁, hend₁⟩ := CString.charAt_eq_zero hleft
        by_cases hfound : s₂.chars <+: s₁.chars.drop p
        · -- the inner loop came to the end of the second string
          have hzero : c₂ = 0 := hend₂.mpr (hocc.mpr hfound)
          refine ⟨fun _ => .succ rfl (searchWhile_succ hlt) (hmatch.bind ?_), fun hno => ?_⟩
          · simp only [hc₂, ok_bind, hzero, if_true, pure_eq_ok]
            exact .const _ _
          · exact absurd ⟨p, hlt, .here p, hfound⟩ hno
        · have hne : c₂ ≠ 0 := fun h0 => hfound (hocc.mp (hend₂.mp h0))
          -- The second pointer goes back to the start, whether it had moved or not.
          have hrewind : (if decide (0 < l) = true then (⟨p + l, l - l, l, decide (0 < l)⟩ : Search)
              else ⟨p + l, l, l, decide (0 < l)⟩) = ⟨p + l, 0, l, decide (0 < l)⟩ := by
            by_cases h0 : 0 < l
            · simp [h0]
            · obtain rfl : l = 0 := by omega
              rfl
          -- what is tried from here on starts behind the mismatch
          have hlater : (∃ q < s₁.length, Tried s₁.chars s₂.chars p q ∧ s₂.chars <+: s₁.chars.drop q) ↔
              ∃ q < s₁.length, Tried s₁.chars s₂.chars (p + l + 1) q ∧ s₂.chars <+: s₁.chars.drop q := by
            refine exists_congr fun q => and_congr_right fun _ => and_congr_left fun hq => ⟨fun h => ?_, fun h => ?_⟩
            · cases h with
              | here => exact absurd hq hfound
              | later _ h => rwa [hl]
            · exact .later hfound (by rwa [← hl])
          rw [hlater]
          -- The first string may end right behind the mismatch.
          by_cases hrest : p + l = s₁.length
          · have hzero : c₁ = 0 := hend₁.mpr hrest
            refine ⟨?_, fun _ => .succ rfl (searchWhile_succ hlt) (hmatch.bind ?_)⟩
            · rintro ⟨q, hq, htried, -⟩
              exact absurd htried.le (by omega)
            · simp only [hc₂, ok_bind, if_neg hne, hrewind, hc₁, hzero, if_true, pure_eq_ok]
              exact .const _ _
          · have hne₁ : c₁ ≠ 0 := fun h0 => hrest (hend₁.mp h0)
            have hnext := ih (s₁.length - (p + l + 1)) (by omega) (p := p + l + 1) (by omega) (by omega)
            have hturn : ∀ v, Returns (searchWhile s₁.region s₂.region · ⟨p + l + 1, 0, 0, false⟩) v →
                Returns (searchWhile s₁.region s₂.region · ⟨p, 0, 0, false⟩) v := by
              intro v hv
              refine .succ rfl (searchWhile_succ hlt) (hmatch.bind ?_)
              simp only [hc₂, ok_bind, if_neg hne, hrewind, hc₁, if_neg hne₁]
              exact hv
            exact ⟨fun h => hturn 1 (hnext.1 h), fun h => hturn 0 (hnext.2 h)⟩

/-- `strstr` returns 1 if the second string occurs in the first one, and 0 otherwise. -/
def DecidesContainment (s₁ s₂ : CString) : Prop :=
  (s₂.chars <:+: s₁.chars → Returns (strstr · s₁.region s₂.region) 1) ∧
    (¬ s₂.chars <:+: s₁.chars → Returns (strstr · s₁.region s₂.region) 0)

theorem infix_of_prefix_drop {as bs : List UInt8} (h : bs <+: as.drop p) : bs <:+: as :=
  h.isInfix.trans (List.drop_suffix p as).isInfix

/-- `strstr` is right about strings that do not occur, and about strings that occur at a position that
it tries. -/
theorem strstr_decides_iff (s₁ s₂ : CString) : DecidesContainment s₁ s₂ ↔
    ¬ s₂.chars <:+: s₁.chars ∨
      s₁.chars ≠ [] ∧ ∃ p, Tried s₁.chars s₂.chars 0 p ∧ s₂.chars <+: s₁.chars.drop p := by
  obtain ⟨hfound, hnot⟩ := searchWhile_returns s₁ s₂ (Nat.zero_le _)
  constructor
  · rintro ⟨hone, -⟩
    by_contra hcon
    rw [not_or, not_not] at hcon
    obtain ⟨hoccurs, hcon⟩ := hcon
    -- the search does not find the second string, so it returns 0
    have hzero := hnot fun ⟨q, hq, htried, hpre⟩ =>
      hcon ⟨List.ne_nil_of_length_pos (Nat.lt_of_le_of_lt (Nat.zero_le q) hq), q, htried, hpre⟩
    obtain ⟨fuel, hrun⟩ := (hone hoccurs).exists_fuel
    exact absurd (hzero.eq hrun) (by decide)
  · intro hcond
    refine ⟨fun hoccurs => hfound ?_, fun hno => hnot fun ⟨_, _, _, hpre⟩ => hno (infix_of_prefix_drop hpre)⟩
    obtain ⟨hne, p, htried, hpre⟩ := hcond.resolve_left (not_not_intro hoccurs)
    by_cases hp : p < s₁.length
    · exact ⟨p, hp, htried, hpre⟩
    · -- only the empty string occurs behind the end, and it occurs at the front, too
      have hnil : s₂.chars = [] := by
        rw [CString.length] at hp
        rw [List.drop_eq_nil_of_le (by omega)] at hpre
        exact List.prefix_nil.mp hpre
      exact ⟨0, List.length_pos_iff.mpr hne, .here 0, hnil ▸ List.nil_prefix⟩

/-- `ab` is not found in `aab`. -/
theorem strstr_aab : ¬ DecidesContainment ⟨[97, 97, 98], by decide⟩ ⟨[97, 98], by decide⟩ := by
  rintro ⟨hone, -⟩
  have hzero : ∀ fuel, strstr (fuel + 5) [97, 97, 98, 0] [97, 98, 0] = .ok 0 := fun fuel => rfl
  obtain ⟨⟨n, hn⟩, -⟩ := hone ⟨[97], [], rfl⟩
  have hrun : strstr (n + 5) [97, 97, 98, 0] [97, 98, 0] = .ok 1 := hn (n + 5) (Nat.le_add_right n 5)
  rw [hzero n] at hrun
  exact absurd (Except.ok.inj hrun) (by decide)

end BasicKernel
