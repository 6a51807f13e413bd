import BasicKernel.Loader.Lib
import BasicKernel.Userland.Strings
import Mathlib.Data.Nat.Digits.Lemmas

set_option autoImplicit false

/-! # `naiveConsole.c`

The console of the boot code writes at the pointer `currentVideo`, two bytes further for each
character, and never looks for the end of the screen.

`ncPrintBase_prints_iff` says for which numbers and bases `uintToBase` stays inside its buffer of
64 characters. All but one kind of number fit: the binary numeral of a number with 64 digits
leaves no room for the terminator.
-/

namespace BasicKernel

open ByteMemory Linked Fuel

/-- The static variables of `naiveConsole.c` and the bytes of memory. What `memory` has where the linker
puts the two variables is not used. -/
structure NaiveConsole where
  memory : Memory
  buffer : List UInt8
  currentVideo : Nat

namespace NaiveConsole

def video : Nat := 0xB8000

def width : Nat := 80

/-- `sizeof(buffer)` -/
def BUFFER : Nat := 64

def ncPrintChar (c : NaiveConsole) (character : UInt8) : NaiveConsole :=
  { c with memory := Function.update c.memory c.currentVideo character
           currentVideo := c.currentVideo + 2 }

/-- The argument has the characters before the terminator. -/
def ncPrint (c : NaiveConsole) (string : List UInt8) : NaiveConsole := string.foldl ncPrintChar c

def ncNewline : Nat → NaiveConsole → Except Stop NaiveConsole
  | 0, _ => .error .outOfFuel
  | fuel + 1, c =>
      let c := c.ncPrintChar 0x20
      if (c.currentVideo - video) % (width * 2) ≠ 0 then ncNewline fuel c else .ok c

/-- The character of a remainder. -/
def digitChar (remainder : Nat) : UInt8 :=
  if remainder < 10 then UInt8.ofNat (remainder + 48) else UInt8.ofNat (remainder + 65 - 10)

/-- The loop that writes the digits, the lowest first. It yields the index `p` behind them. -/
def writeDigits (base : Nat) : Nat → Nat → Nat → List UInt8 → Except Stop (Nat × List UInt8)
  | 0, _, _, _ => .error .outOfFuel
  | fuel + 1, value, p, buffer => do
      let buffer ← setCharAt buffer p (digitChar (value % base))
      if value / base ≠ 0 then
        writeDigits base fuel (value / base) (p + 1) buffer
      else
        return (p + 1, buffer)

/-- The loop that reverses the string, with the indices `p1` and `p2`. -/
def reverseWhile (fuel : Nat) (s : Nat × Nat × List UInt8) :
    Except Stop (Nat × Nat × List UInt8) :=
  walkWhile .outOfFuel (fun s => .ok (decide (s.1 < s.2.1)))
    (fun (p1, p2, buffer) => do
      let tmp ← charAt buffer p1
      let buffer ← setCharAt buffer p1 (← charAt buffer p2)
      let buffer ← setCharAt buffer p2 tmp
      return (p1 + 1, p2 - 1, buffer))
    fuel s

/-- The number of digits and the buffer. The base is not zero. -/
def uintToBase (fuel value : Nat) (buffer : List UInt8) (base : Nat) :
    Except Stop (Nat × List UInt8) := do
  let (p, buffer) ← writeDigits base fuel value 0 buffer
  let buffer ← setCharAt buffer p 0
  let (_, _, buffer) ← reverseWhile fuel (0, p - 1, buffer)
  return (p, buffer)

def ncPrintBase (fuel : Nat) (c : NaiveConsole) (value base : Nat) : Except Stop NaiveConsole := do
  let (_, buffer) ← uintToBase fuel value c.buffer base
  return { c with buffer }.ncPrint (stringIn buffer)

def ncPrintDec (fuel : Nat) (c : NaiveConsole) (value : Nat) : Except Stop NaiveConsole :=
  c.ncPrintBase fuel value 10

def ncPrintHex (fuel : Nat) (c : NaiveConsole) (value : Nat) : Except Stop NaiveConsole :=
  c.ncPrintBase fuel value 16

/-! ## Numerals

The characters of a number in any base, apart from the buffer that the code writes them to. -/

/-- The characters of a number in a base, the most significant first. -/
def numeral (base value : Nat) : List UInt8 :=
  ((if value = 0 then [0] else Nat.digits base value).map digitChar).reverse

variable {c c' : NaiveConsole} {base value p k : Nat} {buffer xs post pre : List UInt8}

theorem numeral_of_lt (h : value < base) : numeral base value = [digitChar value] := by
  rw [numeral]
  by_cases h0 : value = 0
  · rw [if_pos h0, h0]
    rfl
  · rw [if_neg h0, Nat.digits_of_lt base value h0 h]
    rfl

theorem numeral_of_le (hbase : 1 < base) (h : base ≤ value) :
    numeral base value = numeral base (value / base) ++ [digitChar (value % base)] := by
  have hpos : 0 < value := by omega
  have hdiv : value / base ≠ 0 := (Nat.div_pos h (by omega)).ne'
  rw [numeral, if_neg hpos.ne', Nat.digits_def' hbase hpos, List.map_cons, List.reverse_cons, numeral,
    if_neg hdiv]

theorem length_numeral_pos (base value : Nat) : 0 < (numeral base value).length := by
  rw [numeral, List.length_reverse, List.length_map]
  split
  · exact Nat.one_pos
  · exact List.length_pos_iff.mpr (Nat.digits_ne_nil_iff_ne_zero.mpr ‹_›)

/-- A numeral has at most `k` characters when the number is below the power. -/
theorem length_numeral_le_iff (hbase : 1 < base) (hk : 0 < k) :
    (numeral base value).length ≤ k ↔ value < base ^ k := by
  rw [numeral, List.length_reverse, List.length_map]
  split
  case isTrue h0 =>
      rw [h0]
      exact iff_of_true hk (Nat.pow_pos (by omega))
  case isFalse _ => exact Nat.digits_length_le_iff hbase value

theorem digitChar_ne_zero {r : Nat} (h : r < 36) : digitChar r ≠ 0 := by
  have hall : ∀ r : Fin 36, digitChar r ≠ 0 := by decide
  exact hall ⟨r, h⟩

theorem zero_notMem_numeral (hbase : 1 < base) (hle : base ≤ 36) (value : Nat) :
    0 ∉ numeral base value := by
  rw [numeral, List.mem_reverse, List.mem_map]
  rintro ⟨r, hr, h0⟩
  refine digitChar_ne_zero ?_ h0
  split at hr
  · rw [List.mem_singleton.mp hr]
    decide
  · exact (Nat.digits_lt_base hbase hr).trans_le hle

/-! ## `uintToBase`

The digits are written backwards and reversed in place, as in `itoa` of the video driver. -/

theorem setCharAt_append (pre : List UInt8) (x y : UInt8) (post : List UInt8) :
    setCharAt (pre ++ x :: post) pre.length y = .ok (pre ++ y :: post) := by
  rw [setCharAt, if_pos (by simp), List.set_append_right _ _ le_rfl, Nat.sub_self]
  rfl

theorem charAt_append (pre : List UInt8) (x : UInt8) (post : List UInt8) :
    charAt (pre ++ x :: post) pre.length = .ok x := by
  rw [charAt, List.getElem?_append_right le_rfl, Nat.sub_self]
  rfl

/-- The digits that are left go behind those that were written. -/
theorem writeDigits_returns (hbase : 1 < base) (pre post : List UInt8) :
    ∀ old : List UInt8, old.length = (numeral base value).length →
      Returns (fun fuel => writeDigits base fuel value pre.length (pre ++ old ++ post))
        (pre.length + (numeral base value).length,
          pre ++ (numeral base value).reverse ++ post) := by
  -- By strong induction on the value, which each turn divides by the base.
  induction value using Nat.strong_induction_on generalizing pre with
  | _ value ih =>
      -- The place of the next digit is the first of those not yet written.
      intro old hold
      obtain ⟨x, old, rfl⟩ := List.exists_cons_of_length_pos (hold ▸ length_numeral_pos base value)
      have hset : setCharAt (pre ++ x :: old ++ post) pre.length (digitChar (value % base)) =
          .ok (pre ++ digitChar (value % base) :: (old ++ post)) := by
        rw [List.append_assoc]
        exact setCharAt_append pre x _ (old ++ post)
      by_cases hlt : value < base
      · rw [numeral_of_lt hlt] at hold ⊢
        obtain rfl : old = [] := List.length_eq_zero_iff.mp (Nat.succ_injective hold)
        refine Returns.succ rfl (fun fuel => ?_) (Returns.const _ _)
        rw [writeDigits, hset, ok_bind, if_neg (by simp [Nat.div_eq_of_lt hlt]), Nat.mod_eq_of_lt hlt]
        simp
      -- One digit is written and the quotient has one digit less.
      · have hge : base ≤ value := Nat.le_of_not_lt hlt
        have hdiv : value / base ≠ 0 := (Nat.div_pos hge (by omega)).ne'
        rw [numeral_of_le hbase hge, List.length_append, List.length_singleton] at hold ⊢
        have hrest := ih (value / base) (Nat.div_lt_self (by omega) hbase)
          (pre ++ [digitChar (value % base)]) old (Nat.succ_injective hold)
        rw [List.length_append, List.length_singleton] at hrest
        refine Returns.succ rfl (fun fuel => ?_) (by
          convert hrest using 2
          · rw [Nat.add_right_comm, Nat.add_assoc]
          · rw [List.reverse_append]
            simp)
        rw [writeDigits, hset, ok_bind, if_pos hdiv]
        simp

/-- The loop that exchanges the ends reverses what is between them. -/
theorem reverseWhile_returns (xs : List UInt8) : ∀ pre post : List UInt8, ∃ p1 p2,
    Returns (fun fuel => reverseWhile fuel (pre.length, pre.length + xs.length - 1, pre ++ xs ++ post))
      (p1, p2, pre ++ xs.reverse ++ post) := by
  -- The loop takes one byte from each end, so the induction takes them off together.
  induction xs using List.bidirectionalRec with
  | nil =>
      intro pre post
      refine ⟨_, _, walkWhile_stop ?_⟩
      simp
  | singleton x =>
      intro pre post
      refine ⟨_, _, walkWhile_stop ?_⟩
      simp
  | cons_append x xs y ih =>
      intro pre post
      obtain ⟨p1, p2, hrest⟩ := ih (pre ++ [y]) (x :: post)
      -- The turn exchanges `x` and `y`, and `pre` and `post` grow by the new ends.
      have hlast : pre.length + (x :: (xs ++ [y])).length - 1 = (pre ++ x :: xs).length := by
        simp only [List.length_append, List.length_cons, List.length_nil]
        omega
      have hcells : pre ++ x :: (xs ++ [y]) ++ post = pre ++ x :: xs ++ y :: post := by simp
      have hfirst : (pre ++ x :: xs ++ y :: post).length = (pre ++ y :: xs ++ y :: post).length := by
        simp
      refine ⟨p1, p2, ?_⟩
      rw [hlast, hcells]
      have hresult : pre ++ (x :: (xs ++ [y])).reverse ++ post = pre ++ [y] ++ xs.reverse ++ x :: post := by
        simp
      rw [hresult]
      refine walkWhile_go (b := ((pre ++ [y]).length, (pre ++ [y]).length + xs.length - 1,
        pre ++ [y] ++ xs ++ x :: post)) ?_ ?_ hrest
      · simp
      -- Both bytes are read before either is written.
      · have hget := charAt_append pre x (xs ++ y :: post)
        have hget' := charAt_append (pre ++ x :: xs) y post
        have hset := setCharAt_append pre x y (xs ++ y :: post)
        have hset' := setCharAt_append (pre ++ y :: xs) y x post
        have hlen : (pre ++ y :: xs).length = (pre ++ x :: xs).length := by simp
        rw [hlen] at hset'
        simp only [List.append_assoc, List.cons_append] at hget hget' hset hset' ⊢
        rw [hget, ok_bind, hget', ok_bind, hset, ok_bind, hset', ok_bind]
        simp

/-- The buffer has room for 63 digits and the terminator. -/
theorem uintToBase_returns (hbase : 1 < base) (hbuffer : buffer.length = BUFFER)
    (hlength : (numeral base value).length < BUFFER) : ∃ post : List UInt8,
      (numeral base value ++ 0 :: post).length = BUFFER ∧
        Returns (fun fuel => uintToBase fuel value buffer base)
          ((numeral base value).length, numeral base value ++ 0 :: post) := by
  -- The buffer is the place of the digits, one byte for the terminator and what is behind it.
  have hsplit : buffer.take (numeral base value).length ++ buffer.drop (numeral base value).length =
      buffer := List.take_append_drop _ _
  have hold : (buffer.take (numeral base value).length).length = (numeral base value).length :=
    List.length_take_of_le (by omega)
  obtain ⟨x, post, hdrop⟩ := List.exists_cons_of_length_pos
    (l := buffer.drop (numeral base value).length) (by rw [List.length_drop]; omega)
  have hpost : post.length + 1 = BUFFER - (numeral base value).length := by
    rw [← hbuffer, ← List.length_drop, hdrop, List.length_cons]
  have hdigits := writeDigits_returns hbase [] (x :: post) _ hold
  rw [← hdrop, List.nil_append, hsplit, hdrop, List.nil_append, List.length_nil, Nat.zero_add] at hdigits
  -- The digits come out backwards, and the second loop turns them round.
  obtain ⟨p1, p2, hreverse⟩ := reverseWhile_returns (numeral base value).reverse [] (0 :: post)
  rw [List.reverse_reverse, List.nil_append, List.nil_append, List.length_nil, Nat.zero_add,
    List.length_reverse] at hreverse
  have hend := setCharAt_append (numeral base value).reverse x 0 post
  rw [List.length_reverse] at hend
  refine ⟨post, ?_, hdigits.bind ?_⟩
  · rw [List.length_append, List.length_cons]
    omega
  · simp only [hend, ok_bind]
    exact hreverse.bind (Returns.const _ _)

theorem stringIn_append {s : List UInt8} (h : 0 ∉ s) (post : List UInt8) :
    stringIn (s ++ 0 :: post) = s := by
  rw [stringIn, List.takeWhile_append_of_pos]
  · simp
  · intro x hx
    simpa using fun h0 : x = 0 => h (h0 ▸ hx)

/-- A number of 64 digits fills the buffer, and its terminator goes behind it. -/
theorem uintToBase_fails (hbase : 1 < base) (hbuffer : buffer.length = BUFFER)
    (hlength : (numeral base value).length = BUFFER) :
    Fails Stop.outOfBounds (fun fuel => uintToBase fuel value buffer base) := by
  have hdigits := writeDigits_returns hbase [] [] buffer (hbuffer.trans hlength.symm)
  simp only [List.nil_append, List.append_nil, List.length_nil, Nat.zero_add] at hdigits
  have hend : setCharAt (numeral base value).reverse (numeral base value).length 0 =
      .error .outOfBounds := if_neg (by simp)
  refine hdigits.bind_fails ⟨0, fun fuel _ => ?_⟩
  simp only [hend, error_bind]

theorem ncPrintBase_returns (hbase : 1 < base) (hle : base ≤ 36) (hbuffer : c.buffer.length = BUFFER)
    (hlength : (numeral base value).length < BUFFER) : ∃ buffer : List UInt8,
      buffer.length = BUFFER ∧ Returns (fun fuel => c.ncPrintBase fuel value base)
        ({ c with buffer }.ncPrint (numeral base value)) := by
  obtain ⟨post, hpost, hreturns⟩ := uintToBase_returns hbase hbuffer hlength
  refine ⟨_, hpost, ?_⟩
  have hbind := hreturns.bind (g := fun _ r => .ok ({ c with buffer := r.2 }.ncPrint (stringIn r.2)))
    (Returns.const _ _)
  rw [stringIn_append (zero_notMem_numeral hbase hle value)] at hbind
  exact hbind

/-- A 64-bit number is printed in any base, except that a binary numeral of 64 digits does not fit in
the buffer. -/
theorem ncPrintBase_prints_iff (hbase : 1 < base) (hle : base ≤ 36) (hvalue : value < 2 ^ 64)
    (hbuffer : c.buffer.length = BUFFER) :
    (∃ buffer : List UInt8, Returns (fun fuel => c.ncPrintBase fuel value base)
      ({ c with buffer }.ncPrint (numeral base value))) ↔ base ≠ 2 ∨ value < 2 ^ 63 := by
  -- Only a binary numeral can need 64 digits.
  have hfits : (numeral base value).length ≤ 63 ↔ base ≠ 2 ∨ value < 2 ^ 63 := by
    rw [length_numeral_le_iff hbase (by decide)]
    by_cases htwo : base = 2
    · subst htwo
      simp
    · have hpow : value < base ^ 63 :=
        calc value < 2 ^ 64 := hvalue
          _ ≤ 3 ^ 63 := by norm_num
          _ ≤ base ^ 63 := Nat.pow_le_pow_left (by omega) 63
      exact iff_of_true hpow (.inl htwo)
  constructor
  · rintro ⟨_, hreturns⟩
    by_contra hnot
    -- If it does not fit, it has just 64 digits, and the terminator goes behind the buffer.
    have hmax : (numeral base value).length ≤ 64 :=
      (length_numeral_le_iff hbase (by decide)).mpr
        (hvalue.trans_le (Nat.pow_le_pow_left hbase 64))
    have hlength : (numeral base value).length = BUFFER := by
      have hmin := hfits.not.mpr hnot
      unfold BUFFER
      omega
    have hfails := (uintToBase_fails hbase hbuffer hlength).bind
      (g := fun _ r => .ok ({ c with buffer := r.2 }.ncPrint (stringIn r.2)))
    -- The same call would both fail and return, with enough fuel for either.
    obtain ⟨n, hn⟩ := hfails
    obtain ⟨m, hm⟩ := hreturns.1
    have herror := hn (max n m) (le_max_left n m)
    have hok := hm (max n m) (le_max_right n m)
    cases herror.symm.trans hok
  · intro h
    obtain ⟨buffer, -, hreturns⟩ := ncPrintBase_returns hbase hle hbuffer
      (Nat.lt_succ_of_le (hfits.mpr h))
    exact ⟨buffer, hreturns⟩

/-- The static variables as they are initialised. -/
def initial (memory : Memory) : NaiveConsole :=
  { memory, buffer := 0x30 :: List.replicate 63 0, currentVideo := video }

theorem ncPrintBase_prints_address : ∃ buffer : List UInt8, Returns
    (fun fuel => (initial fun _ => 0).ncPrintBase fuel 0x400000 16)
      ({ initial fun _ => 0 with buffer }.ncPrint (numeral 16 0x400000)) :=
  (ncPrintBase_prints_iff (by decide) (by decide) (by decide) rfl).mpr (.inl (by decide))

end NaiveConsole

end BasicKernel
