import BasicKernel.Userland.LineEditor
import BasicKernel.Userland.Widths

set_option autoImplicit false

/-! # `scanf`

`scanf` reads a line with `getline` and parses it by an index `j`. The loops of the directives advance the
index but look at `*buffer`, which is the first character of the line, and they stop at a newline, which
`getline` does not store.

`scanf_never_reads_back` says that for no number a call that returns has read only the line. In
`scanf_reads_444` the line `42` is read as another number.
-/

namespace BasicKernel

open Linked Fuel Decimal

/-- What a directive stores through its pointer. -/
inductive Stored where
  | int (v : Int)
  | string (chars : List UInt8)
  | char (c : UInt8)
  deriving DecidableEq, Repr

/-- The state of a call: the index in the line, what was stored, and the number of cells at the front of
the buffer that cover all reads of `buffer[j]`. -/
structure Scanner where
  j : Nat
  stored : List Stored
  reach : Nat
  deriving DecidableEq, Repr

/-- `buffer[j++]` -/
def Scanner.next (buffer : List UInt8) (s : Scanner) : Except Stop (UInt8 × Scanner) := do
  let c ← charAt buffer s.j
  return (c, { s with j := s.j + 1, reach := max s.reach (s.j + 1) })

/-- `while((buffer[j++]) == ' '){}` -/
def skipBlanks (buffer : List UInt8) : Nat → Scanner → Except Stop Scanner
  | 0, _ => .error .outOfFuel
  | fuel + 1, s => do
      let (c, s) ← s.next buffer
      if c = 32 then skipBlanks buffer fuel s else return s

/-- The loop of `%d` over the digits, with the first character `first` of the buffer and the number read
so far. -/
def readDigits (buffer : List UInt8) (first : UInt8) : Nat → Scanner → Int → Except Stop (Scanner × Int)
  | 0, _, _ => .error .outOfFuel
  | fuel + 1, s, number => do
      let (c, s) ← s.next buffer
      if c ≠ newline ∧ first ≠ 32 ∧ isDigit first then
        readDigits buffer first fuel s (toInt32 (number * 10 + charValue first - 48))
      else return (s, number)

/-- The loop of `%s`, with the characters stored so far. -/
def readWord (buffer : List UInt8) (first : UInt8) : Nat → Scanner → List UInt8 →
    Except Stop (Scanner × List UInt8)
  | 0, _, _ => .error .outOfFuel
  | fuel + 1, s, word => do
      let (c, s) ← s.next buffer
      if c ≠ newline ∧ first ≠ 32 then readWord buffer first fuel s (word ++ [first])
      else return (s, word)

/-- `%d` and `%i`. The second result says whether the parse ends here. -/
def scanNumber (buffer : List UInt8) (first : UInt8) (fuel : Nat) (s : Scanner) :
    Except Stop (Scanner × Bool) := do
  let s ← skipBlanks buffer fuel s
  let (s, number) ← readDigits buffer first fuel { s with j := s.j - 1 } 0
  let s := { s with stored := s.stored ++ [.int number] }
  if !isDigit first then return ({ s with j := s.j - 1 }, false)
  else return (s, decide (first = newline))

/-- `%s` -/
def scanWord (buffer : List UInt8) (first : UInt8) (fuel : Nat) (s : Scanner) :
    Except Stop (Scanner × Bool) := do
  let s ← skipBlanks buffer fuel s
  let (s, word) ← readWord buffer first fuel { s with j := s.j - 1 } []
  let s := { s with stored := s.stored ++ [.string word] }
  if first = newline then return (s, true)
  else if first = 32 then return ({ s with j := s.j - 1 }, false)
  else return (s, false)

/-- `%c` -/
def scanChar (buffer : List UInt8) (first : UInt8) (fuel : Nat) (s : Scanner) :
    Except Stop (Scanner × Bool) := do
  let s ← skipBlanks buffer fuel s
  return ({ s with stored := s.stored ++ [.char first] }, false)

/-- What follows a `%`. -/
def scanDirective (buffer : List UInt8) (first c : UInt8) (fuel : Nat) (s : Scanner) :
    Except Stop (Scanner × Bool) :=
  if c = 100 ∨ c = 105 then scanNumber buffer first fuel s
  else if c = 115 then scanWord buffer first fuel s
  else if c = 99 then scanChar buffer first fuel s
  else .ok (s, false)

/-- The loop over the text of the format, which reads a character of the line for each of its own. -/
def skipText (format buffer : List UInt8) : Nat → Nat → Scanner → Except Stop (Nat × Scanner)
  | 0, _, _ => .error .outOfFuel
  | fuel + 1, i, s => do
      let f ← charAt format i
      if f ≠ 0 ∧ f ≠ 37 then
        let (c, s) ← s.next buffer
        if c ≠ newline then skipText format buffer fuel (i + 1) s else return (i, s)
      else return (i, s)

/-- The outer loop, where a piece of text at which the line ended is passed over. -/
def scanfLoop (format buffer : List UInt8) : Nat → Nat → Scanner → Except Stop Scanner
  | 0, _, _ => .error .outOfFuel
  | fuel + 1, i, s => do
      if (← charAt format i) = 0 then
        return s
      let (i, s) ← skipText format buffer fuel i s
      let f ← charAt format i
      let first ← charAt buffer 0
      if f = 0 ∨ first = newline then
        return s
      if f = 37 then
        let (s, stop) ← scanDirective buffer first (← charAt format (i + 1)) fuel s
        if stop then return s else scanfLoop format buffer fuel (i + 2) s
      else scanfLoop format buffer fuel (i + 1) s

/-- `scanf` on what `getchar` returns, with the content of its buffer before the call. -/
def scanf (fuel : Nat) (buffer input format : List UInt8) : Except Stop Scanner := do
  let (line, _) ← getline buffer input
  scanfLoop format line.buffer fuel 0 ⟨0, [], 0⟩

/-! ## The loop over the digits

The loop looks at the first character of the buffer in every round and moves the index only. -/

variable {buffer line rest : List UInt8} {first c : UInt8} {s : Scanner} {fuel n : Nat}

/-- Since it looks at the first character, the loop runs on until it finds a newline in the buffer. The
cells up to `l` hold none, so it reads beyond them. -/
theorem readDigits_reach {l : Nat} (hfirst : isDigit first = true)
    (hline : ∀ k ≤ l, buffer[k]? ≠ some newline) {number : Int} {r : Scanner × Int}
    (h : readDigits buffer first fuel s number = .ok r) (hs : s.j ≤ l + 1 ∨ l + 2 ≤ s.reach) :
    l + 2 ≤ r.1.reach := by
  have hblank : first ≠ 32 := by
    rintro rfl
    cases hfirst
  -- By induction on the turns. The first character never changes, so only a newline can end the
  -- loop.
  induction fuel generalizing s number with
  | zero => cases h
  | succ fuel ih =>
      rw [readDigits] at h
      obtain ⟨⟨c, s'⟩, hnext, h⟩ := bind_eq_ok.mp h
      rw [Scanner.next] at hnext
      obtain ⟨c', hc, hnext⟩ := bind_eq_ok.mp hnext
      obtain ⟨rfl, rfl⟩ : c' = c ∧ { s with j := s.j + 1, reach := max s.reach (s.j + 1) } = s' := by
        simpa using hnext
      dsimp only at h
      by_cases hgo : c' ≠ newline ∧ first ≠ 32 ∧ isDigit first = true
      · rw [if_pos hgo] at h
        refine ih h ?_
        simp only
        omega
      · rw [if_neg hgo] at h
        -- The loop ends at a newline, and there is none up to `l`.
        have hend : c' = newline := by
          by_contra hne
          exact hgo ⟨hne, hblank, hfirst⟩
        have hread : buffer[s.j]? = some newline := by
          rw [charAt] at hc
          cases hget : buffer[s.j]? with
          | none =>
              rw [hget] at hc
              cases hc
          | some d =>
              rw [hget] at hc
              rw [← hend, Except.ok.inj hc]
        have hbeyond : l < s.j := by
          by_contra hle
          exact hline s.j (by omega) hread
        obtain rfl := Except.ok.inj h
        simp only
        omega

/-! ## The line -/

theorem foldl_typeKey {keys : List UInt8} (hkeys : backspace ∉ keys) (line : List UInt8) :
    keys.foldl typeKey line = line ++ keys := by
  induction keys generalizing line with
  | nil => rw [List.foldl_nil, List.append_nil]
  | cons c keys ih =>
      rw [List.mem_cons, not_or] at hkeys
      rw [List.foldl_cons, ih hkeys.2, typeKey, if_neg (Ne.symm hkeys.1), List.append_assoc,
        List.singleton_append]

/-- A short line without backspaces comes into the buffer as it is. -/
theorem getline_plain (hbuffer : line.length < buffer.length) (hback : backspace ∉ line)
    (hnewline : newline ∉ line) (rest : List UInt8) : ∃ e t,
    getline buffer (line ++ newline :: rest) = .ok (e, rest) ∧ e.buffer = line ++ 0 :: t := by
  have hfits : FitsIn buffer.length [] line := by
    refine ⟨fun typed htyped => ?_, ?_⟩
    · rw [foldl_typeKey fun hmem => hback (htyped.subset hmem), List.nil_append]
      exact htyped.length_le.trans hbuffer.le
    · rw [foldl_typeKey hback, List.nil_append]
      exact hbuffer
  obtain ⟨e, hrun, t, ht⟩ := (readsLine_iff false [] rest rfl hnewline).mpr hfits
  refine ⟨e, t, hrun, ?_⟩
  rw [← ht, edited, foldl_typeKey hback, List.nil_append, List.append_assoc]
  rfl

/-- The line that `printf("%d", n)` prints. -/
theorem emits_number_iff (v : Int32) (line : List UInt8) :
    Emits ⟨[37, 100], by decide⟩ [.int v] line ↔ line = numChars v.toInt := by
  have hnext : nextPiece [100] = (.number, []) := by decide
  have hpieces : pieces [37, 100] = [.number] := by rw [pieces_percent, hnext, pieces_nil]
  have hargs : Supplies [.int v] (pieces [37, 100]) := by
    rw [hpieces]
    exact List.prefix_rfl
  have hd : .dangling ∉ pieces [37, 100] := by
    rw [hpieces]
    decide
  have hchars : emitted [.number] [.int v] = numChars v.toInt := List.append_nil _
  rw [emits_iff ⟨[37, 100], by decide⟩ hargs hd line, hpieces, hchars]

theorem line_eq_digits {v : Int32} (hv : 0 ≤ v.toInt)
    (h : Emits ⟨[37, 100], by decide⟩ [.int v] line) : line = numeralChars v.toInt.natAbs := by
  have hlt := v.toInt_lt
  rw [(emits_number_iff v line).mp h, numChars_eq (by omega) hlt, decimalText, if_neg (by omega)]

theorem isDigit_of_mem_numeral (hc : c ∈ numeralChars n) : isDigit c = true := by
  by_cases h0 : n = 0
  · subst h0
    obtain rfl := List.mem_singleton.mp hc
    decide
  · rw [numeralChars_pos (Nat.pos_of_ne_zero h0)] at hc
    exact isDigit_of_mem hc

theorem length_numeralChars_le {n : Nat} (hn : n < 10 ^ 10) : (numeralChars n).length ≤ 10 := by
  by_cases h0 : n = 0
  · rw [h0]
    decide
  · rw [numeralChars_pos (Nat.pos_of_ne_zero h0), length_digitChars]
    exact length_digits_le hn

/-! ## Reading back

The first character of such a line is a digit or a sign. Either way the parse does not end inside
the line. -/

/-- `scanf("%d", &m)` reads only inside the line and its NUL, and stores `n`. -/
def ScansBack (buffer line rest : List UInt8) (n : Int) : Prop :=
  ∃ s, Returns (scanf · buffer (line ++ newline :: rest) [37, 100, 0]) s ∧
    s.reach ≤ line.length + 1 ∧ s.stored = [.int n]

/-- A call that returns has read behind the NUL. -/
theorem scanfLoop_reach {line t : List UInt8} (hfirst : isDigit first = true)
    (hline : newline ∉ first :: line)
    (h : scanfLoop [37, 100, 0] (first :: line ++ 0 :: t) fuel 0 ⟨0, [], 0⟩ = .ok s) :
    (first :: line).length + 2 ≤ s.reach := by
  have hne : first ≠ newline := fun heq => hline (heq ▸ List.mem_cons_self)
  have hblank : first ≠ 32 := by
    rintro rfl
    cases hfirst
  have hcells : ∀ k ≤ (first :: line).length, (first :: line ++ 0 :: t)[k]? ≠ some newline := by
    intro k hk hget
    rcases hk.eq_or_lt with rfl | hlt
    · rw [List.getElem?_append_right le_rfl, Nat.sub_self] at hget
      cases hget
    · rw [List.getElem?_append_left hlt] at hget
      exact hline (List.mem_of_getElem? hget)
  cases fuel with
  | zero => cases h
  | succ fuel =>
      cases fuel with
      | zero => cases h
      | succ fuel =>
          -- the parse begins with the directive
          have hstart : scanfLoop [37, 100, 0] (first :: line ++ 0 :: t) (fuel + 2) 0 ⟨0, [], 0⟩ = (do
              let r ← scanNumber (first :: line ++ 0 :: t) first (fuel + 1) ⟨0, [], 0⟩
              if r.2 then return r.1
              else scanfLoop [37, 100, 0] (first :: line ++ 0 :: t) (fuel + 1) 2 r.1) := by
            simp [scanfLoop, skipText, charAt, scanDirective, hne]
          have hskip : skipBlanks (first :: line ++ 0 :: t) (fuel + 1) ⟨0, [], 0⟩ = .ok ⟨1, [], 1⟩ := by
            simp [skipBlanks, Scanner.next, charAt, hblank]
          rw [hstart] at h
          obtain ⟨⟨s₁, stop⟩, hnumber, h⟩ := bind_eq_ok.mp h
          rw [scanNumber, hskip, ok_bind] at hnumber
          obtain ⟨⟨s₂, number⟩, hdigits, hnumber⟩ := bind_eq_ok.mp hnumber
          have hreach := readDigits_reach hfirst hcells hdigits (.inl (Nat.zero_le _))
          obtain ⟨rfl, rfl⟩ : { s₂ with stored := s₂.stored ++ [.int number] } = s₁ ∧ false = stop := by
            simpa [hfirst, hne] using hnumber
          -- and ends behind it
          obtain rfl : { s₂ with stored := s₂.stored ++ [.int number] } = s := by
            simpa [scanfLoop, charAt] using h
          exact hreach

/-- For no number the parse stays inside the line. -/
theorem scanf_never_reads_back {v : Int32} (hv : 0 ≤ v.toInt)
    (hline : Emits ⟨[37, 100], by decide⟩ [.int v] line) (hbuffer : buffer.length = SCANF_BUFFER)
    (rest : List UInt8) : ¬ ScansBack buffer line rest v.toInt := by
  have hhi := v.toInt_lt
  -- The line is the numeral: digits only, ten at most, so that `getline` keeps all of it.
  have hdigits : ∀ c ∈ line, isDigit c = true := by
    rw [line_eq_digits hv hline]
    exact fun c hc => isDigit_of_mem_numeral hc
  have hlength : 0 < line.length ∧ line.length ≤ 10 := by
    rw [line_eq_digits hv hline]
    exact ⟨length_numeralChars_pos _, length_numeralChars_le (by omega)⟩
  have hback : backspace ∉ line := fun h => absurd (hdigits _ h) (by decide)
  have hnewline : newline ∉ line := fun h => absurd (hdigits _ h) (by decide)
  have hroom : line.length < buffer.length := by
    rw [hbuffer, SCANF_BUFFER]
    omega
  rintro ⟨s, hreturns, hinside, -⟩
  obtain ⟨fuel, hrun⟩ := hreturns.exists_fuel
  obtain ⟨e, t, hgetline, hcells⟩ := getline_plain hroom hback hnewline rest
  rw [scanf, hgetline, ok_bind] at hrun
  simp only [hcells] at hrun
  cases line with
  -- The loop over the digits has read behind the terminator.
  | nil => exact absurd hlength.1 (by decide)
  | cons first line =>
      have hreach := scanfLoop_reach (hdigits first List.mem_cons_self) hnewline hrun
      omega

theorem emits_forty_two : Emits ⟨[37, 100], by decide⟩ [.int 42] [52, 50] := by
  have hdigits : digits 42 = [4, 2] := by
    rw [digits_pos (by decide), digits_pos (by decide)]
    rfl
  have habs : (42 : Int).natAbs = 42 := rfl
  have hchars : numChars 42 = [52, 50] := by
    rw [numChars, if_neg (by decide), if_neg (by decide), signedDigits, habs, hdigits]
    rfl
  exact (emits_number_iff 42 [52, 50]).mpr hchars.symm

theorem scanf_never_reads_forty_two :
    ¬ ScansBack (List.replicate 1000 0) [52, 50] [] (42 : Int32).toInt :=
  scanf_never_reads_back (by decide) emits_forty_two List.length_replicate []

/-- With newlines left in the buffer the line `42` is read as 444: its first digit three times, the last
time for the NUL. -/
theorem scanf_reads_444 : Emits ⟨[37, 100], by decide⟩ [.int 42] [52, 50] ∧
    ¬ ScansBack (List.replicate 1000 newline) [52, 50] [] 42 := by
  refine ⟨emits_forty_two, ?_⟩
  rintro ⟨s, ⟨⟨n, hn⟩, -⟩, -, hstored⟩
  have hrun : ∀ fuel t, scanf (fuel + 8) (newline :: newline :: newline :: newline :: t)
      ([52, 50] ++ [newline]) [37, 100, 0] = .ok ⟨4, [.int 444], 4⟩ := fun fuel t => rfl
  obtain rfl := Except.ok.inj ((hn (n + 8) (Nat.le_add_right n 8)).symm.trans
    (hrun n (List.replicate 996 newline)))
  exact absurd hstored (by decide)

end BasicKernel
