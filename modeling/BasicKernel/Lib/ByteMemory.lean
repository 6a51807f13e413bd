import Mathlib.Tactic

set_option autoImplicit false

/-! # Byte memory

A memory has a byte at every address. `fetch` and `put` move lists of bytes, and `encode` and
`value` go between numbers and their little-endian bytes.
-/

namespace ByteMemory

abbrev Memory := Nat → UInt8

/-! ## Numbers

A word of `w` bytes stands for a number below `256 ^ w`. `encode` cuts a larger number off,
so that it is inverse to `value` below that bound, and `value` is always inverse to it on
`w` bytes. -/

/-- The number whose little-endian bytes these are. -/
def value : List UInt8 → Nat
  | [] => 0
  | b :: bs => b.toNat + 256 * value bs

/-- The last `w` bytes of a number, the lowest first. -/
def encode : Nat → Nat → List UInt8
  | 0, _ => []
  | w + 1, n => UInt8.ofNat n :: encode w (n / 256)

@[simp] theorem encode_length (w n : Nat) : (encode w n).length = w := by
  induction w generalizing n with
  | zero => rfl
  | succ w ih => rw [encode, List.length_cons, ih]

/-- Encoding keeps the number modulo its width. -/
theorem value_encode (w n : Nat) : value (encode w n) = n % 256 ^ w := by
  induction w generalizing n with
  | zero => simp [encode, value, Nat.mod_one]
  | succ w ih =>
      calc value (encode (w + 1) n)
          = n % 256 + 256 * value (encode w (n / 256)) := by rw [encode, value, UInt8.toNat_ofNat']
        _ = n % 256 + 256 * (n / 256 % 256 ^ w) := by rw [ih]
        _ = n % 256 ^ (w + 1) := by rw [pow_succ', Nat.mod_mul]

theorem value_encode_of_lt {w n : Nat} (h : n < 256 ^ w) : value (encode w n) = n := by
  rw [value_encode, Nat.mod_eq_of_lt h]

theorem encode_value (bs : List UInt8) : encode bs.length (value bs) = bs := by
  induction bs with
  | nil => rfl
  | cons b bs ih =>
      have hb : b.toNat < 256 := b.toNat_lt
      have hlow : UInt8.ofNat (b.toNat + 256 * value bs) = b := by
        apply UInt8.toNat_inj.mp
        rw [UInt8.toNat_ofNat']
        omega
      have hhigh : (b.toNat + 256 * value bs) / 256 = value bs := by omega
      rw [List.length_cons, value, encode, hlow, hhigh, ih]

/-! ## Reads and writes

A read of what was just put gives it back, and a read elsewhere gives what was there. `SameOn` is
the agreement of two memories on a range, which is what a frame condition about bytes says. -/

/-- The `n` bytes at `a`. -/
def fetch (m : Memory) (a : Nat) : Nat → List UInt8
  | 0 => []
  | n + 1 => m a :: fetch m (a + 1) n

/-- The memory with these bytes at `a`. -/
def put (m : Memory) (a : Nat) : List UInt8 → Memory
  | [] => m
  | b :: bs => put (Function.update m a b) (a + 1) bs

/-- Two memories that have the same bytes from `lo` up to `hi`. -/
def SameOn (lo hi : Nat) (m m' : Memory) : Prop := ∀ a, lo ≤ a → a < hi → m a = m' a

variable {m m' : Memory} {a lo hi n k : Nat} {bs cs : List UInt8}

@[simp] theorem fetch_length (m : Memory) (a n : Nat) : (fetch m a n).length = n := by
  induction n generalizing a with
  | zero => rfl
  | succ n ih => rw [fetch, List.length_cons, ih]

theorem fetch_get (m : Memory) (a : Nat) {i n : Nat} (h : i < n) :
    (fetch m a n)[i]? = some (m (a + i)) := by
  induction n generalizing a i with
  | zero => omega
  | succ n ih =>
      cases i with
      | zero => rfl
      | succ i =>
          rw [fetch, List.getElem?_cons_succ, ih (a + 1) (by omega)]
          congr 2
          omega

theorem fetch_add (m : Memory) (a n k : Nat) : fetch m a (n + k) = fetch m a n ++ fetch m (a + n) k := by
  induction n generalizing a with
  | zero => rw [Nat.zero_add]; rfl
  | succ n ih =>
      rw [Nat.add_right_comm, fetch, ih, fetch, List.cons_append]
      congr 3
      omega

/-- A list of bytes that was read in one piece was read piece by piece. -/
theorem fetch_append (h : fetch m a (bs ++ cs).length = bs ++ cs) :
    fetch m a bs.length = bs ∧ fetch m (a + bs.length) cs.length = cs := by
  rw [List.length_append, fetch_add] at h
  exact List.append_inj h (fetch_length m a bs.length)

theorem fetch_congr (h : SameOn a (a + n) m m') : fetch m a n = fetch m' a n := by
  induction n generalizing a with
  | zero => rfl
  | succ n ih =>
      have hrest : SameOn (a + 1) (a + 1 + n) m m' := fun x hlo hhi => h x (by omega) (by omega)
      rw [fetch, fetch, h a le_rfl (by omega), ih hrest]

/-- A put changes nothing outside its bytes. -/
theorem put_outside {x : Nat} (h : x < a ∨ a + bs.length ≤ x) : put m a bs x = m x := by
  induction bs generalizing m a with
  | nil => rfl
  | cons b bs ih =>
      rw [List.length_cons] at h
      rw [put, ih (by omega), Function.update_of_ne (by omega)]

theorem put_congr (h : m a = m' a) (p : Nat) (bs : List UInt8) : put m p bs a = put m' p bs a := by
  induction bs generalizing m m' p with
  | nil => exact h
  | cons b bs ih =>
      refine ih ?_ (p + 1)
      by_cases hap : a = p
      · rw [hap, Function.update_self, Function.update_self]
      · rw [Function.update_of_ne hap, Function.update_of_ne hap, h]

theorem fetch_put (m : Memory) (a : Nat) (bs : List UInt8) :
    fetch (put m a bs) a bs.length = bs := by
  induction bs generalizing m a with
  | nil => rfl
  | cons b bs ih =>
      rw [List.length_cons, fetch, put, ih, put_outside (.inl (Nat.lt_succ_self a)),
        Function.update_self]

/-- A put of the bytes that are there. -/
theorem put_fetch (m : Memory) (a n : Nat) : put m a (fetch m a n) = m := by
  induction n generalizing a with
  | zero => rfl
  | succ n ih => rw [fetch, put, Function.update_eq_self, ih]

theorem put_get {i : Nat} (h : i < bs.length) : some (put m a bs (a + i)) = bs[i]? := by
  have hget := fetch_get (put m a bs) a h
  rw [fetch_put] at hget
  exact hget.symm

namespace SameOn

variable {lo' hi' : Nat}

theorem refl (lo hi : Nat) (m : Memory) : SameOn lo hi m m := fun _ _ _ => rfl

theorem mono (h : SameOn lo hi m m') (hlo : lo ≤ lo') (hhi : hi' ≤ hi) : SameOn lo' hi' m m' :=
  fun a hl hh => h a (le_trans hlo hl) (lt_of_lt_of_le hh hhi)

end SameOn

end ByteMemory
