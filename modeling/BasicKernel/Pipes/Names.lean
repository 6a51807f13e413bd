import BasicKernel.Kernel.Numerals
import BasicKernel.Memory.Optimal
import BasicKernel.Pipes.Terminator

set_option autoImplicit false

/-! # The names of pipes

A name holds the digits of the sender, `-` and the digits of the receiver. Process `0` has no digits on
either side. `createName` writes it, `getReceiverPid` reads the receiver, and `equalName` compares.

`pipe_names_decode` says for all pids that the receiver is read back and that different pairs have
different names, although one of the numbers may be missing.
-/

namespace BasicKernel

open Fuel Decimal Transition

variable {k : Kernel} {p q name : Nat}

/-! ## Strings

The comparison goes on while the characters agree and none of them ends its string. -/

/-- A string is its characters, none of them 0, and a 0. -/
theorem Kernel.isString_iff {str : List UInt8} : k.IsString p str ↔
    (∀ (i : Nat) (hi : i < str.length), k.char (p + i) = str[i]) ∧ 0 ∉ str ∧
      k.char (p + str.length) = 0 := by
  induction str generalizing p with
  | nil => simp [Kernel.IsString]
  | cons c str ih =>
      have hnext : ∀ i, p + 1 + i = p + (i + 1) := by
        intro i
        omega
      simp only [Kernel.IsString, ih, hnext, List.mem_cons, not_or, List.length_cons]
      constructor
      · rintro ⟨hc, hne, hchars, hmem, hend⟩
        refine ⟨fun i hi => ?_, ⟨Ne.symm hne, hmem⟩, hend⟩
        cases i with
        | zero => exact hc
        | succ i => exact hchars i (Nat.lt_of_succ_lt_succ hi)
      · rintro ⟨hchars, ⟨hne, hmem⟩, hend⟩
        exact ⟨hchars 0 (Nat.zero_lt_succ _), Ne.symm hne,
          fun i hi => hchars (i + 1) (Nat.succ_lt_succ hi), hmem, hend⟩

/-- `equalName` compares the strings. -/
theorem equalName_returns {xs ys : List UInt8} (hp : p ≠ NULL) (hq : q ≠ NULL) (hxs : k.IsString p xs)
    (hys : k.IsString q ys) : Returns (equalName · k p q) (decide (xs = ys)) := by
  -- Both strings are walked together. The first byte that differs, or an end, decides.
  induction xs generalizing p q ys with
  | nil =>
      have hend : k.char p = 0 := hxs
      refine .succ rfl (fun fuel => ?_) (.const _ (decide (([] : List UInt8) = ys)))
      cases ys with
      | nil =>
          have hend' : k.char q = 0 := hys
          simp [equalName, hp, hq, hend, hend']
      | cons d ys =>
          obtain ⟨hd, hne, -⟩ := hys
          simp [equalName, hp, hq, hend, hd, Ne.symm hne]
  | cons c xs ih =>
      obtain ⟨hc, hne, hxs⟩ := hxs
      cases ys with
      | nil =>
          have hend' : k.char q = 0 := hys
          refine .succ rfl (fun fuel => ?_) (.const _ (decide (c :: xs = [])))
          simp [equalName, hp, hq, hc, hend', hne]
      | cons d ys =>
          obtain ⟨hd, -, hys⟩ := hys
          by_cases hcd : c = d
          · subst hcd
            have hrest := ih (Nat.succ_ne_zero p) (Nat.succ_ne_zero q) hxs hys
            simp only [List.cons.injEq, true_and]
            refine .succ rfl (fun fuel => ?_) hrest
            simp [equalName, hp, hq, hc, hd, hne]
          · refine .succ rfl (fun fuel => ?_) (.const _ (decide (c :: xs = d :: ys)))
            simp [equalName, hp, hq, hc, hd, hcd]

/-! ## Digits

No digit is 0 and none is the separator, so a numeral ends where the code looks for its end. -/

theorem digit_of_lt {d : Nat} (hd : d < 10) :
    charValue (digit d) - 48 = d ∧ digit d ≠ 0 ∧ digit d ≠ 45 := by
  interval_cases d <;> decide

theorem digit_of_mem {c : UInt8} {n : Nat} (hc : c ∈ digitChars n) : ∃ d < 10, c = digit (d : Nat) := by
  obtain ⟨d, hd, rfl⟩ := List.mem_map.mp hc
  exact ⟨d, lt_ten_of_mem hd, rfl⟩

theorem zero_notMem_digitChars (n : Nat) : 0 ∉ digitChars n := by
  intro hmem
  obtain ⟨d, hd, h0⟩ := digit_of_mem hmem
  exact (digit_of_lt hd).2.1 h0.symm

theorem separator_notMem_digitChars (n : Nat) : 45 ∉ digitChars n := by
  intro hmem
  obtain ⟨d, hd, h45⟩ := digit_of_mem hmem
  exact (digit_of_lt hd).2.2 h45.symm

/-- The characters read back as the digits. -/
theorem map_digitChars (n : Nat) : (digitChars n).map (fun c => charValue c - 48) = (digits n).map (↑) := by
  rw [digitChars, List.map_map]
  exact List.map_congr_left fun d hd => (digit_of_lt (lt_ten_of_mem hd)).1

theorem digitChars_injective : Function.Injective digitChars := by
  intro n m h
  have hdigits := congrArg (List.map fun c => charValue c - 48) h
  rw [map_digitChars, map_digitChars] at hdigits
  exact digits_injective (List.map_injective_iff.mpr Nat.cast_injective hdigits)

/-! ## Names

Two names are equal only if the numbers before the separator are, and those behind it. -/

/-- The name of the pipes from one process to another. -/
def pipeName (fromPid toPid : Nat) : List UInt8 := digitChars fromPid ++ 45 :: digitChars toPid

theorem length_pipeName (fromPid toPid : Nat) :
    (pipeName fromPid toPid).length = (digits fromPid).length + 1 + (digits toPid).length := by
  simp only [pipeName, List.length_append, List.length_cons, length_digitChars]
  omega

/-- The two numbers stand on both sides of the only separator. -/
theorem pipeName_inj {a b c d : Nat} (h : pipeName a b = pipeName c d) : a = c ∧ b = d := by
  have hsplit : ∀ n (cs : List UInt8), (digitChars n ++ 45 :: cs).takeWhile (· ≠ 45) = digitChars n := by
    intro n cs
    rw [List.takeWhile_append_of_pos]
    · simp
    · intro c hc
      have hne : c ≠ 45 := fun h => separator_notMem_digitChars n (h ▸ hc)
      simpa using hne
  have hsender : digitChars a = digitChars c := by
    calc digitChars a
        = (pipeName a b).takeWhile (· ≠ 45) := (hsplit a _).symm
      _ = (pipeName c d).takeWhile (· ≠ 45) := by rw [h]
      _ = digitChars c := hsplit c _
  have hreceiver : digitChars b = digitChars d := by
    rw [pipeName, pipeName, hsender] at h
    exact (List.cons.inj (List.append_cancel_left h)).2
  exact ⟨digitChars_injective hsender, digitChars_injective hreceiver⟩

/-- `createName` writes the name. It touches no other cell than those from `name` on, up to the 0 behind
the name, or behind the digit of process 0 that it puts there first. -/
theorem createName_returns (hname : name ≠ NULL) (fromPid toPid : Nat) (k : Kernel) :
    ∃ c, Returns (createName · k fromPid toPid name) { k with char := c } ∧
      { k with char := c }.IsString name (pipeName fromPid toPid) ∧
      ∀ a : Nat, a < name ∨
        name + max 1 ((digits fromPid).length + 1 + max 1 (digits toPid).length) < a → c a = k.char a := by
  -- The digits of the sender, the separator, and the digits of the receiver behind it.
  have hcell : ∀ i, name + i ≠ NULL := fun i => Nat.ne_of_gt (Nat.add_pos_left (Nat.pos_of_ne_zero hname) i)
  obtain ⟨c₁, hrun₁, hdigits₁, -, hkept₁⟩ := itoa_returns hname fromPid k
  obtain ⟨c₂, hrun₂, hdigits₂, hend₂, hkept₂⟩ := itoa_returns (hcell ((digits fromPid).length + 1)) toPid
    { k with char := Function.update c₁ (name + (digits fromPid).length) 45 }
  refine ⟨c₂, hrun₁.bind ?_, ?_, fun a ha => ?_⟩
  · simp only [Int.toNat_natCast, Kernel.setChar_of_ne (hcell _), ok_bind]
    exact hrun₂.bind (.const _ _)
  -- Byte by byte: a digit of the sender, the separator or a digit of the receiver.
  · refine Kernel.isString_iff.mpr ⟨fun i hi => ?_, ?_, ?_⟩
    · rw [length_pipeName] at hi
      by_cases hsender : i < (digits fromPid).length
      · have hne : name + i ≠ name + (digits fromPid).length := by omega
        calc c₂ (name + i)
            = Function.update c₁ (name + (digits fromPid).length) 45 (name + i) := hkept₂ _ (by omega)
          _ = c₁ (name + i) := Function.update_of_ne hne _ _
          _ = (pipeName fromPid toPid)[i] := by
            rw [hdigits₁ i (by rwa [length_digitChars])]
            simp only [pipeName]
            rw [List.getElem_append_left]
      · by_cases hsep : i = (digits fromPid).length
        · subst hsep
          calc c₂ (name + (digits fromPid).length)
              = Function.update c₁ (name + (digits fromPid).length) 45 (name + (digits fromPid).length) :=
                hkept₂ _ (by omega)
            _ = 45 := Function.update_self ..
            _ = (pipeName fromPid toPid)[(digits fromPid).length] := by
              simp [pipeName, length_digitChars]
        · -- the digits of the receiver
          obtain ⟨j, rfl⟩ : ∃ j, i = (digits fromPid).length + 1 + j :=
            ⟨i - ((digits fromPid).length + 1), by omega⟩
          have hj : j < (digitChars toPid).length := by
            rw [length_digitChars]
            omega
          have := hdigits₂ j hj
          rw [Nat.add_assoc] at this
          rw [show ({ k with char := c₂ } : Kernel).char = c₂ from rfl, this]
          simp only [pipeName]
          rw [List.getElem_append_right (by rw [length_digitChars]; omega)]
          simp only [length_digitChars, Nat.add_assoc, Nat.add_sub_cancel_left, Nat.add_comm 1 j,
            List.getElem_cons_succ]
    -- No byte of the name is the terminator.
    · simp only [pipeName, List.mem_append, List.mem_cons, not_or]
      exact ⟨zero_notMem_digitChars fromPid, by decide, zero_notMem_digitChars toPid⟩
    · rw [length_pipeName, ← Nat.add_assoc]
      rw [← Nat.add_assoc] at hend₂
      exact hend₂
  -- A cell outside is written by neither numeral nor by the separator.
  · have hne : a ≠ name + (digits fromPid).length := by omega
    calc c₂ a
        = Function.update c₁ (name + (digits fromPid).length) 45 a := hkept₂ a (by omega)
      _ = c₁ a := Function.update_of_ne hne _ _
      _ = k.char a := hkept₁ a (by omega)

/-! ## The receiver -/

/-- The first loop of `getReceiverPid` ends behind the separator. -/
theorem skipSender_string {xs ys : List UInt8} (hp : p ≠ NULL) (hxs : 45 ∉ xs)
    (h : k.IsString p (xs ++ 45 :: ys)) :
    Returns (skipSender · k p) (p + (xs.length + 1)) ∧ k.IsString (p + (xs.length + 1)) ys := by
  induction xs generalizing p with
  | nil =>
      obtain ⟨hsep, -, hys⟩ := h
      refine ⟨.succ rfl (fun fuel => ?_) (.const _ _), hys⟩
      simp [skipSender, hp, hsep]
  | cons c xs ih =>
      obtain ⟨hc, -, hrest⟩ := h
      rw [List.mem_cons, not_or] at hxs
      obtain ⟨hskip, hys⟩ := ih (Nat.succ_ne_zero p) hxs.2 hrest
      have hbehind : p + 1 + (xs.length + 1) = p + ((c :: xs).length + 1) := by
        rw [List.length_cons]
        omega
      rw [hbehind] at hskip hys
      refine ⟨.succ rfl (fun fuel => ?_) hskip, hys⟩
      simp [skipSender, hp, hc, Ne.symm hxs.1]

/-- The second loop reads the digits. -/
theorem readPid_string {str : List UInt8} (hp : p ≠ NULL) (h : k.IsString p str) (pid : Int) :
    Returns (readPid · k p pid) (str.foldl (fun pid c => pid * 10 + (charValue c - 48)) pid) := by
  induction str generalizing p pid with
  | nil =>
      have hend : k.char p = 0 := h
      refine .succ rfl (fun fuel => ?_) (.const _ _)
      simp [readPid, hp, hend]
  | cons c str ih =>
      obtain ⟨hc, hne, hrest⟩ := h
      refine .succ rfl (fun fuel => ?_) (ih (Nat.succ_ne_zero p) hrest _)
      simp [readPid, hp, hc, hne]

theorem foldl_digitChars (n : Nat) :
    (digitChars n).foldl (fun pid c => pid * 10 + (charValue c - 48)) (0 : Int) = n := by
  have hfold : ∀ (ds : List Nat) (v : Nat), (∀ d ∈ ds, d < 10) →
      (ds.map fun d : Nat => digit d).foldl (fun pid c => pid * 10 + (charValue c - 48)) (v : Int) =
        (ds.foldl (fun v d => v * 10 + d) v : Nat) := by
    intro ds
    induction ds with
    | nil => exact fun v _ => rfl
    | cons d ds ih =>
        intro v hds
        have hd := (digit_of_lt (hds d List.mem_cons_self)).1
        have hrest := ih (v * 10 + d) fun e he => hds e (List.mem_cons_of_mem _ he)
        rw [List.map_cons, List.foldl_cons, List.foldl_cons, hd, ← hrest]
        norm_cast
  exact (hfold (digits n) 0 fun d hd => lt_ten_of_mem hd).trans (congrArg _ (value_digits n))

/-- `getReceiverPid` finds the receiver in a name. -/
theorem getReceiverPid_name {fromPid toPid : Nat} (hname : name ≠ NULL)
    (h : k.IsString name (pipeName fromPid toPid)) : Returns (getReceiverPid · k name) toPid := by
  obtain ⟨hskip, hrest⟩ := skipSender_string hname (separator_notMem_digitChars fromPid) h
  have hread := readPid_string (Nat.ne_of_gt (Nat.add_pos_left (Nat.pos_of_ne_zero hname) _)) hrest 0
  rw [foldl_digitChars] at hread
  exact hskip.bind hread

/-! ### Overflow

The number is added up in an `int`. Each partial number is at most the receiver, which is an
`int`. -/

/-- A round of the second loop of `getReceiverPid`, on the address and on `pid`. -/
def PidRound (k : Kernel) (s s' : Nat × Int) : Prop :=
  k.char s.1 ≠ 0 ∧ s' = (s.1 + 1, s.2 * 10 + (charValue (k.char s.1) - 48))

/-- The loop when it has started at `p`. -/
def PidRead (k : Kernel) (p : Nat) : Nat × Int → Prop := Reachable (· = (p, 0)) (PidRound k)

theorem Kernel.IsString.getElem_of_ne {str : List UInt8} (h : k.IsString p str) {i : Nat}
    (hi : i ≤ str.length) (hne : k.char (p + i) ≠ 0) : ∃ hlt : i < str.length, k.char (p + i) = str[i] := by
  obtain ⟨hchars, -, hend⟩ := Kernel.isString_iff.mp h
  have hlt : i < str.length := Nat.lt_of_le_of_ne hi fun heq => hne (heq ▸ hend)
  exact ⟨hlt, hchars i hlt⟩

/-- What is read so far are the first digits of the receiver. -/
theorem PidRead.digits {n : Nat} (h : k.IsString p (digitChars n)) {s : Nat × Int} (hs : PidRead k p s) :
    ∃ i ≤ (digits n).length, s = (p + i, (value ((digits n).take i) : Int)) := by
  refine hs.invariant (I := fun s : Nat × Int =>
    ∃ i ≤ (Decimal.digits n).length, s = (p + i, (value ((Decimal.digits n).take i) : Int)))
    (fun s hs => ⟨0, Nat.zero_le _, hs⟩) fun s s' _ ⟨i, hi, hat⟩ hround => ?_
  obtain ⟨hgo, rfl⟩ := hround
  rw [hat] at hgo ⊢
  obtain ⟨hlt, hdigit⟩ := h.getElem_of_ne (by rwa [length_digitChars]) hgo
  rw [length_digitChars] at hlt
  have hd : (Decimal.digits n)[i] < 10 := lt_ten_of_mem (List.getElem_mem hlt)
  refine ⟨i + 1, hlt, ?_⟩
  simp only [hdigit, digitChars, List.getElem_map, (digit_of_lt hd).1]
  rw [List.take_succ_eq_append_getElem hlt, value_concat, Nat.add_assoc]
  push_cast
  rfl

/-- No `int` of the loop overflows. -/
theorem PidRead.isInt {n : Nat} (hn : n < 2 ^ 31) (h : k.IsString p (digitChars n)) {s : Nat × Int}
    (hs : PidRead k p s) : IsInt s.2 ∧ (k.char s.1 ≠ 0 → IsInt (s.2 * 10)) := by
  obtain ⟨i, hi, hat⟩ := hs.digits h
  have hle : ∀ j, value ((Decimal.digits n).take j) ≤ n := by
    intro j
    calc value ((Decimal.digits n).take j)
        ≤ value (Decimal.digits n) := value_take_le _ j
      _ = n := value_digits n
  have hvalue : s.2 = value ((Decimal.digits n).take i) := congrArg Prod.snd hat
  refine ⟨⟨by omega, by have := hle i; omega⟩, fun hgo => ?_⟩
  have hnext : PidRead k p (s.1 + 1, s.2 * 10 + (charValue (k.char s.1) - 48)) := hs.next ⟨hgo, rfl⟩
  obtain ⟨j, -, hj⟩ := hnext.digits h
  have hsum : s.2 * 10 + (charValue (k.char s.1) - 48) = value ((Decimal.digits n).take j) :=
    congrArg Prod.snd hj
  have hdigit : 0 ≤ charValue (k.char s.1) - 48 := by
    have haddr : s.1 = p + i := congrArg Prod.fst hat
    rw [haddr] at hgo ⊢
    obtain ⟨hlt, hchar⟩ := h.getElem_of_ne (by rwa [length_digitChars]) hgo
    obtain ⟨d, hd, hc⟩ := digit_of_mem (hchar ▸ List.getElem_mem hlt)
    rw [hc, (digit_of_lt hd).1]
    exact Int.natCast_nonneg d
  have := hle j
  exact ⟨by omega, by omega⟩

/-! ## The law of names -/

theorem length_digits_int {n : Nat} (hn : n < 2 ^ 31) : (digits n).length ≤ 10 :=
  length_digits_le (k := 10) (by omega)

theorem length_pipeName_int {fromPid toPid : Int} (hfrom : fromPid < 2 ^ 31) (hto : toPid < 2 ^ 31) :
    (pipeName fromPid.toNat toPid.toNat).length < NAME_SIZE := by
  have := length_digits_int (n := fromPid.toNat) (by omega)
  have := length_digits_int (n := toPid.toNat) (by omega)
  rw [length_pipeName, NAME_SIZE]
  omega

/-- The name that `createName` writes for two pids that are no negative `int`s. -/
theorem createName_int {fromPid toPid : Int} (hfrom : 0 ≤ fromPid ∧ fromPid < 2 ^ 31)
    (hto : 0 ≤ toPid ∧ toPid < 2 ^ 31) (hname : name ≠ NULL) (k : Kernel) :
    ∃ c, Returns (createName · k fromPid toPid name) { k with char := c } ∧
      { k with char := c }.IsString name (pipeName fromPid.toNat toPid.toNat) ∧
      ∀ a : Nat, a < name ∨ name + NAME_SIZE ≤ a → c a = k.char a := by
  obtain ⟨c, hrun, hstr, hkept⟩ := createName_returns hname fromPid.toNat toPid.toNat k
  rw [Int.toNat_of_nonneg hfrom.1, Int.toNat_of_nonneg hto.1] at hrun
  refine ⟨c, hrun, hstr, fun a ha => hkept a ?_⟩
  have := length_digits_int (n := fromPid.toNat) (by omega)
  have := length_digits_int (n := toPid.toNat) (by omega)
  simp only [NAME_SIZE] at ha
  omega

/-- Names decode to their receiver, and no two pairs have the same name. -/
theorem pipe_names_decode {fromPid toPid : Int} (hfrom : 0 ≤ fromPid ∧ fromPid < 2 ^ 31)
    (hto : 0 ≤ toPid ∧ toPid < 2 ^ 31) :
    (∀ (k : Kernel) (name : Nat), name ≠ NULL → ∃ c str,
      Returns (createName · k fromPid toPid name) { k with char := c } ∧
      { k with char := c }.IsString name str ∧ str.length < NAME_SIZE ∧
      (∀ a : Nat, a < name ∨ name + NAME_SIZE ≤ a → c a = k.char a) ∧
      Returns (getReceiverPid · { k with char := c } name) toPid ∧
      ∃ p, Returns (skipSender · { k with char := c } name) p ∧
        ∀ s, PidRead { k with char := c } p s → IsInt s.2 ∧ (c s.1 ≠ 0 → IsInt (s.2 * 10))) ∧
    ∀ (k₁ k₂ k₃ : Kernel) (name name' : Nat) (fromPid' toPid' : Int), 0 ≤ fromPid' ∧ fromPid' < 2 ^ 31 →
      0 ≤ toPid' ∧ toPid' < 2 ^ 31 → name ≠ NULL → name' ≠ NULL →
      name + NAME_SIZE ≤ name' ∨ name' + NAME_SIZE ≤ name →
      Returns (createName · k₁ fromPid toPid name) k₂ →
      Returns (createName · k₂ fromPid' toPid' name') k₃ →
      Returns (equalName · k₃ name name') (decide (fromPid = fromPid' ∧ toPid = toPid')) := by
  constructor
  -- One name: it is written, it fits, and the receiver is read back without an overflow.
  · intro k name hname
    obtain ⟨c, hrun, hstr, hkept⟩ := createName_int hfrom hto hname k
    obtain ⟨hskip, hdigits⟩ := skipSender_string hname (separator_notMem_digitChars _) hstr
    have hreceiver := getReceiverPid_name hname hstr
    rw [Int.toNat_of_nonneg hto.1] at hreceiver
    exact ⟨c, _, hrun, hstr, length_pipeName_int hfrom.2 hto.2, hkept, hreceiver, _, hskip,
      fun s hs => hs.isInt (by omega) hdigits⟩
  -- Two names: the comparison is that of the strings, and a name determines both processes.
  · intro k₁ k₂ k₃ name name' fromPid' toPid' hfrom' hto' hname hname' hapart hrun hrun'
    obtain ⟨c, hcreate, hstr, -⟩ := createName_int hfrom hto hname k₁
    obtain ⟨fuel, hfuel⟩ := hrun.exists_fuel
    obtain rfl := hcreate.eq hfuel
    obtain ⟨c', hcreate', hstr', hkept'⟩ := createName_int hfrom' hto' hname' { k₁ with char := c }
    obtain ⟨fuel', hfuel'⟩ := hrun'.exists_fuel
    obtain rfl := hcreate'.eq hfuel'
    -- the second name does not touch the first
    have hkept : ({ k₁ with char := c' } : Kernel).IsString name (pipeName fromPid.toNat toPid.toNat) := by
      refine hstr.congr fun i hi => hkept' _ ?_
      have := length_pipeName_int hfrom.2 hto.2
      omega
    have hequal := equalName_returns hname hname' hkept hstr'
    have hiff : pipeName fromPid.toNat toPid.toNat = pipeName fromPid'.toNat toPid'.toNat ↔
        fromPid = fromPid' ∧ toPid = toPid' := by
      constructor
      · intro heq
        have := pipeName_inj heq
        omega
      · rintro ⟨rfl, rfl⟩
        rfl
    rwa [decide_eq_decide.mpr hiff] at hequal

theorem pipe_names_decode_zero_one : ∃ k' : Kernel, Returns (createName · zeroKernel 0 1 8) k' ∧
    Returns (getReceiverPid · k' 8) 1 ∧ ∃ k'' : Kernel, Returns (createName · k' 1 0 80) k'' ∧
    Returns (equalName · k'' 8 80) (decide ((0 : Int) = 1 ∧ (1 : Int) = 0)) := by
  obtain ⟨hdecode, hequal⟩ := @pipe_names_decode 0 1 (by decide) (by decide)
  obtain ⟨c, -, hrun, -, -, -, hreceiver, -⟩ := hdecode zeroKernel 8 (by decide)
  obtain ⟨c', hrun', -⟩ := @createName_int 80 1 0 (by decide) (by decide) (by decide)
    { zeroKernel with char := c }
  exact ⟨_, hrun, hreceiver, _, hrun',
    hequal _ _ _ 8 80 1 0 (by decide) (by decide) (by decide) (by decide) (by decide) hrun hrun'⟩

end BasicKernel
