import BasicKernel.Basic.Outcome
import BasicKernel.Lib.ByteMemory

set_option autoImplicit false

/-! # `lib.c`

`memset` and `memcpy` over the bytes of memory. `memcpy` copies words when both pointers and the
length are aligned, and bytes otherwise. It always goes forwards, so the two paths have to agree
where the buffers overlap as well.

`memcpy_copies` says that they do, and what the destination holds when the two buffers overlap.
-/

namespace BasicKernel

open ByteMemory

/-- `(uint8_t)c` -/
def toUInt8 (c : Int) : UInt8 := UInt8.ofNat (c % 256).toNat

/-- The loop counts down: the last byte is written first. -/
def memset (m : Memory) (destination : Nat) (c : Int) : Nat → Memory
  | 0 => m
  | length + 1 =>
      memset (Function.update m (destination + length) (toUInt8 c)) destination c length

/-- `*(uint32_t *)a` -/
def loadWord (m : Memory) (a : Nat) : Nat := value (fetch m a 4)

/-- `*(uint32_t *)a = w` -/
def storeWord (m : Memory) (a : Nat) (w : Nat) : Memory := put m a (encode 4 w)

/-- `for (i = 0; i < n; i++) d[i] = s[i];` for pointers to words. -/
def copyByWords (m : Memory) (d s : Nat) (n : Nat) : Memory :=
  (List.range n).foldl (fun m i => storeWord m (d + 4 * i) (loadWord m (s + 4 * i))) m

/-- The same loop for pointers to bytes. -/
def copyByBytes (m : Memory) (d s : Nat) (n : Nat) : Memory :=
  (List.range n).foldl (fun m i => Function.update m (d + i) (m (s + i))) m

def memcpy (m : Memory) (destination source : Nat) (length : Nat) : Memory :=
  if destination % 4 = 0 ∧ source % 4 = 0 ∧ length % 4 = 0 then
    copyByWords m destination source (length / 4)
  else
    copyByBytes m destination source length

variable {m : Memory} {d s a n : Nat}

/-! ## `memset` -/

theorem memset_apply (m : Memory) (d : Nat) (c : Int) (n : Nat) (a : Nat) :
    memset m d c n a = if d ≤ a ∧ a < d + n then toUInt8 c else m a := by
  induction n generalizing m with
  | zero =>
      rw [memset, if_neg]
      omega
  | succ n ih =>
      rw [memset, ih]
      by_cases hlast : a = d + n
      · rw [hlast, if_neg (by omega), if_pos (by omega), Function.update_self]
      · by_cases hin : d ≤ a ∧ a < d + n
        · rw [if_pos hin, if_pos (by omega)]
        · rw [if_neg hin, if_neg (by omega), Function.update_of_ne hlast]

/-! ## The two loops of `memcpy`

Both go forwards. Where the buffers overlap, a later read may find a byte that was written
before. -/

theorem copyByBytes_succ (m : Memory) (d s : Nat) (n : Nat) : copyByBytes m d s (n + 1) =
    Function.update (copyByBytes m d s n) (d + n) (copyByBytes m d s n (s + n)) := by
  rw [copyByBytes, List.range_succ, List.foldl_append]
  rfl

theorem copyByWords_succ (m : Memory) (d s : Nat) (n : Nat) : copyByWords m d s (n + 1) =
    storeWord (copyByWords m d s n) (d + 4 * n) (loadWord (copyByWords m d s n) (s + 4 * n)) := by
  rw [copyByWords, List.range_succ, List.foldl_append]
  rfl

theorem copyByBytes_add (m : Memory) (d s : Nat) (n k : Nat) :
    copyByBytes m d s (n + k) = copyByBytes (copyByBytes m d s n) (d + n) (s + n) k := by
  induction k with
  | zero => rfl
  | succ k ih => rw [← Nat.add_assoc, copyByBytes_succ, copyByBytes_succ, ih, Nat.add_assoc, Nat.add_assoc]

/-- Where the next byte comes from, in terms of the memory before the copy: behind the distance of
the two buffers the copy reads what it wrote. -/
def copied (d s : Nat) (i : Nat) : Nat := if s < d then s + i % (d - s) else s + i

theorem copied_of_le (h : d ≤ s) (i : Nat) : copied d s i = s + i := if_neg (by omega)

theorem copied_of_lt {i : Nat} (h : s + i < d) : copied d s i = s + i := by
  rw [copied, if_pos (by omega), Nat.mod_eq_of_lt (by omega)]

theorem copied_add {i : Nat} (h : s < d) : copied d s (d - s + i) = copied d s i := by
  rw [copied, copied, if_pos h, if_pos h, Nat.add_mod_left]

theorem copyByBytes_apply (m : Memory) (d s : Nat) (n : Nat) (a : Nat) :
    copyByBytes m d s n a = if d ≤ a ∧ a < d + n then m (copied d s (a - d)) else m a := by
  induction n generalizing a with
  | zero =>
      rw [if_neg (by omega)]
      rfl
  | succ n ih =>
      -- the last byte of the source was overwritten by the copy itself where the buffers overlap
      have hread : copyByBytes m d s n (s + n) = m (copied d s n) := by
        rw [ih]
        by_cases hin : d ≤ s + n ∧ s + n < d + n
        · rw [if_pos hin, ← copied_add (i := s + n - d) (by omega)]
          congr 2
          omega
        · rw [if_neg hin]
          rcases Nat.lt_or_ge (s + n) d with hlt | hge
          · rw [copied_of_lt hlt]
          · rw [copied_of_le (by omega)]
      rw [copyByBytes_succ]
      by_cases hlast : a = d + n
      · rw [hlast, Function.update_self, hread, if_pos (by omega), Nat.add_sub_cancel_left]
      · rw [Function.update_of_ne hlast, ih]
        by_cases hin : d ≤ a ∧ a < d + n
        · rw [if_pos hin, if_pos (by omega)]
        · rw [if_neg hin, if_neg (by omega)]

/-- Between buffers that do not overlap, and downwards, `memcpy` moves the bytes of the source. -/
theorem copyByBytes_eq_put (m : Memory) (h : d ≤ s ∨ s + n ≤ d) :
    copyByBytes m d s n = put m d (fetch m s n) := by
  funext a
  rw [copyByBytes_apply]
  by_cases hin : d ≤ a ∧ a < d + n
  · have hlt : a - d < n := by omega
    have hsource : copied d s (a - d) = s + (a - d) := by
      rcases h with h | h
      · exact copied_of_le h _
      · exact copied_of_lt (by omega)
    have hget : some (put m d (fetch m s n) (d + (a - d))) = (fetch m s n)[a - d]? :=
      put_get (by rwa [fetch_length])
    rw [fetch_get m s hlt, Nat.add_sub_cancel' hin.1] at hget
    rw [if_pos hin, hsource]
    exact (Option.some.inj hget).symm
  · rw [if_neg hin, put_outside (by rw [fetch_length]; omega)]

theorem storeWord_loadWord (m : Memory) (d s : Nat) :
    storeWord m d (loadWord m s) = put m d (fetch m s 4) := by
  have hword := encode_value (fetch m s 4)
  rw [fetch_length] at hword
  rw [storeWord, loadWord, hword]

/-- A word moves like its four bytes, because two words at aligned addresses are equal or apart. -/
theorem copyByWords_eq_copyByBytes (m : Memory) (hd : d % 4 = 0) (hs : s % 4 = 0) (n : Nat) :
    copyByWords m d s n = copyByBytes m d s (4 * n) := by
  induction n with
  | zero => rfl
  | succ n ih =>
      have hapart : d + 4 * n ≤ s + 4 * n ∨ s + 4 * n + 4 ≤ d + 4 * n := by omega
      calc copyByWords m d s (n + 1)
          = put (copyByBytes m d s (4 * n)) (d + 4 * n)
              (fetch (copyByBytes m d s (4 * n)) (s + 4 * n) 4) := by
            rw [copyByWords_succ, storeWord_loadWord, ih]
        _ = copyByBytes (copyByBytes m d s (4 * n)) (d + 4 * n) (s + 4 * n) 4 :=
            (copyByBytes_eq_put _ hapart).symm
        _ = copyByBytes m d s (4 * (n + 1)) := by rw [← copyByBytes_add, Nat.mul_succ]

theorem memcpy_eq_copyByBytes (m : Memory) (d s : Nat) (n : Nat) :
    memcpy m d s n = copyByBytes m d s n := by
  rw [memcpy]
  split
  case isTrue h =>
      have hlength : 4 * (n / 4) = n := by omega
      rw [copyByWords_eq_copyByBytes m h.1 h.2.1, hlength]
  case isFalse _ => rfl

theorem memcpy_eq_put (m : Memory) (h : d ≤ s ∨ s + n ≤ d) :
    memcpy m d s n = put m d (fetch m s n) := by
  rw [memcpy_eq_copyByBytes, copyByBytes_eq_put m h]

/-- Both paths of `memcpy` leave the same memory, whatever the overlap. It has the bytes of the
source at the destination, except that a copy upwards onto its own source repeats the bytes between
the two pointers, and no other byte changes. -/
theorem memcpy_copies (m : Memory) (d s : Nat) (n : Nat) :
    memcpy m d s n = copyByBytes m d s n ∧
      (∀ i, i < n → memcpy m d s n (d + i) =
        m (if s < d ∧ d < s + n then s + i % (d - s) else s + i)) ∧
      ∀ a, a < d ∨ d + n ≤ a → memcpy m d s n a = m a := by
  refine ⟨memcpy_eq_copyByBytes m d s n, fun i hi => ?_, fun a ha => ?_⟩
  · rw [memcpy_eq_copyByBytes, copyByBytes_apply, if_pos (by omega), Nat.add_sub_cancel_left, copied]
    by_cases hoverlap : s < d ∧ d < s + n
    · rw [if_pos hoverlap, if_pos hoverlap.1]
    · rw [if_neg hoverlap]
      split
      · rw [Nat.mod_eq_of_lt (by omega)]
      · rfl
  · rw [memcpy_eq_copyByBytes, copyByBytes_apply, if_neg (by omega)]

end BasicKernel
