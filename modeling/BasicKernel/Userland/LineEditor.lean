import BasicKernel.Userland.Strings

set_option autoImplicit false

/-! # Reading a line

The shell and `getline` read characters up to a newline into a buffer. A backspace takes the last one
back. Neither of them looks at the size of the buffer.

`line_read_iff` says for both that exactly the lines that fit are read, whatever keys make them.
`line_of_hundred` is the first one that does not fit in the buffer of the shell.
-/

namespace BasicKernel

def newline : UInt8 := 10

def backspace : UInt8 := 8

/-- The local variables of the loop, and what was written to the screen. -/
structure Editor where
  buffer : List UInt8
  i : Nat
  output : List UInt8
  deriving DecidableEq, Repr

/-- The body of the loop, for a character that is no newline. Only the shell prints it. -/
def editKey (echo : Bool) (c : UInt8) (e : Editor) : Except Stop Editor :=
  let printed := if echo then e.output ++ [c] else e.output
  if c ≠ backspace then do
    return ⟨← setCharAt e.buffer e.i c, e.i + 1, printed⟩
  else if 0 < e.i then .ok ⟨e.buffer, e.i - 1, printed⟩
  else .ok e

/-- The loop over what `getchar` returns, and the end of the line. The rest of the input is left. -/
def readLine (echo : Bool) : List UInt8 → Editor → Except Stop (Editor × List UInt8)
  | [], _ => .error .outOfFuel
  | c :: input, e =>
      if c ≠ newline then do
        readLine echo input (← editKey echo c e)
      else do
        return ({ e with buffer := ← setCharAt e.buffer e.i 0, output := e.output ++ [c] }, input)

/-- What `shell` does up to its call of `processComand`. -/
def shellLine (buffer input : List UInt8) : Except Stop (Editor × List UInt8) :=
  readLine true input ⟨buffer, 0, [36, 62, 32]⟩

def getline (buffer input : List UInt8) : Except Stop (Editor × List UInt8) :=
  readLine false input ⟨buffer, 0, []⟩

/-- The size of the buffer of `shell`. -/
def SHELL_BUFFER : Nat := 100

/-- The size of the buffer of `scanf`. -/
def SCANF_BUFFER : Nat := 1000

/-! ## What is typed

The line that is on the screen, apart from the buffer that the keys are stored in. -/

/-- One key on the line that is typed. A backspace on the empty line does nothing. -/
def typeKey (line : List UInt8) (c : UInt8) : List UInt8 :=
  if c = backspace then line.dropLast else line ++ [c]

/-- The line after the keys. -/
def edited (keys : List UInt8) : List UInt8 := keys.foldl typeKey []

/-- The line never grows beyond the buffer, and at its end there is room for the terminator. -/
def FitsIn (size : Nat) (line keys : List UInt8) : Prop :=
  (∀ typed, typed <+: keys → (typed.foldl typeKey line).length ≤ size) ∧
    (keys.foldl typeKey line).length < size

/-- The line that is typed comes back as a string, and no cell outside the buffer is written. -/
def ReadsLine (read : List UInt8 → List UInt8 → Except Stop (Editor × List UInt8))
    (buffer keys rest : List UInt8) : Prop :=
  ∃ e, read buffer (keys ++ newline :: rest) = .ok (e, rest) ∧ edited keys ++ [0] <+: e.buffer

variable {echo : Bool} {c : UInt8} {e : Editor} {line keys rest buffer : List UInt8} {size : Nat}

theorem fitsIn_nil : FitsIn size line [] ↔ line.length < size := by
  simp only [FitsIn, List.prefix_nil, forall_eq, List.foldl_nil]
  omega

theorem fitsIn_cons : FitsIn size line (c :: keys) ↔
    line.length ≤ size ∧ FitsIn size (typeKey line c) keys := by
  simp only [FitsIn, List.foldl_cons]
  constructor
  · rintro ⟨htyped, hend⟩
    refine ⟨htyped [] List.nil_prefix, fun typed h => ?_, hend⟩
    exact htyped (c :: typed) (List.cons_prefix_cons.mpr ⟨rfl, h⟩)
  · rintro ⟨hline, htyped, hend⟩
    refine ⟨fun typed h => ?_, hend⟩
    cases typed with
    | nil => exact hline
    | cons d typed =>
        obtain ⟨rfl, htail⟩ := List.cons_prefix_cons.mp h
        exact htyped typed htail

/-- The first `i` cells of the buffer hold the line. -/
structure Editor.Holds (e : Editor) (size : Nat) (line : List UInt8) : Prop where
  size : e.buffer.length = size
  i : e.i = line.length
  line : line <+: e.buffer

theorem prefix_set {as bs : List UInt8} (h : as <+: bs) (hlt : as.length < bs.length) (c : UInt8) :
    as ++ [c] <+: bs.set as.length c := by
  obtain ⟨t, rfl⟩ := h
  cases t with
  | nil => simp at hlt
  | cons d t => simp

theorem Editor.Holds.editKey (echo : Bool) (h : e.Holds size line) (hroom : c ≠ backspace → line.length < size) :
    ∃ e', BasicKernel.editKey echo c e = .ok e' ∧ e'.Holds size (typeKey line c) := by
  obtain ⟨hsize, hi, hline⟩ := h
  rw [BasicKernel.editKey, typeKey]
  -- A backspace takes one character back, or there is none.
  by_cases hc : c = backspace
  · by_cases hpos : 0 < e.i
    · refine ⟨⟨e.buffer, e.i - 1, _⟩, by rw [if_neg (not_not_intro hc), if_pos hpos], hsize, ?_, ?_⟩
      · rw [if_pos hc, List.length_dropLast, hi]
      · rw [if_pos hc]
        exact (List.dropLast_prefix line).trans hline
    · have hnil : line = [] := List.eq_nil_of_length_eq_zero (by omega)
      refine ⟨e, by rw [if_neg (not_not_intro hc), if_neg hpos], hsize, ?_, ?_⟩ <;>
        rw [if_pos hc, hnil, List.dropLast_nil]
      · rw [hi, hnil]
      · exact List.nil_prefix
  -- Any other key needs a cell, which is the only use of `hroom`.
  · have hlt : e.i < e.buffer.length := by
      rw [hi, hsize]
      exact hroom hc
    refine ⟨⟨e.buffer.set e.i c, e.i + 1, if echo then e.output ++ [c] else e.output⟩, ?_, ?_, ?_, ?_⟩
    · rw [if_pos hc, setCharAt, if_pos hlt]
      rfl
    · rw [List.length_set, hsize]
    · rw [if_neg hc, List.length_append, List.length_singleton, hi]
    · rw [if_neg hc, hi]
      exact prefix_set hline (by rw [← hi]; exact hlt) c

/-- A character that is typed behind a full buffer is written outside. -/
theorem Editor.Holds.editKey_full (h : e.Holds size line) (hc : c ≠ backspace) (hfull : size ≤ line.length) :
    BasicKernel.editKey echo c e = .error .outOfBounds := by
  have hlt : ¬ e.i < e.buffer.length := by
    rw [h.i, h.size]
    omega
  rw [BasicKernel.editKey, if_pos hc, setCharAt, if_neg hlt]
  rfl

/-- From a buffer that holds a line, the loop reads the keys that fit in and no others. The induction is
on the keys, and the line grows and shrinks with them. -/
theorem readLine_iff (h : e.Holds size line) (hle : line.length ≤ size) (hkeys : newline ∉ keys) :
    (∃ e', readLine echo (keys ++ newline :: rest) e = .ok (e', rest) ∧
      keys.foldl typeKey line ++ [0] <+: e'.buffer) ↔ FitsIn size line keys := by
  induction keys generalizing e line with
  | nil =>
      -- The newline is the end: the terminator needs a cell as well.
      rw [fitsIn_nil, List.nil_append, readLine, if_neg (not_not_intro rfl), setCharAt]
      by_cases hlt : e.i < e.buffer.length
      · rw [if_pos hlt]
        have hlt' : line.length < size := by
          rw [← h.i, ← h.size]
          exact hlt
        refine ⟨fun _ => hlt', fun _ => ⟨_, rfl, ?_⟩⟩
        rw [List.foldl_nil]
        simp only [h.i]
        exact prefix_set h.line (by rw [h.size]; exact hlt') 0
      · rw [if_neg hlt]
        have hge : ¬ line.length < size := by
          rw [← h.i, ← h.size]
          exact hlt
        refine ⟨?_, fun hlt' => absurd hlt' hge⟩
        rintro ⟨e', hrun, -⟩
        cases hrun
  | cons c keys ih =>
      have hc : c ≠ newline := fun hc => hkeys (hc ▸ List.mem_cons_self)
      rw [fitsIn_cons, List.cons_append, readLine, if_pos hc, List.foldl_cons]
      -- The key fits in, and the rest follows from the line with it.
      by_cases hroom : c ≠ backspace → line.length < size
      · obtain ⟨e', hedit, h'⟩ := h.editKey echo hroom
        have hle' : (typeKey line c).length ≤ size := by
          rw [typeKey]
          split_ifs with hback
          · rw [List.length_dropLast]
            omega
          · rw [List.length_append, List.length_singleton]
            exact hroom hback
        rw [hedit, ok_bind, ih h' hle' fun hmem => hkeys (List.mem_cons_of_mem c hmem)]
        exact ⟨fun hfits => ⟨hle, hfits⟩, And.right⟩
      -- A key that does not fit is stored outside the buffer, which is an error.
      · rw [Classical.not_imp, Nat.not_lt] at hroom
        obtain ⟨hback, hfull⟩ := hroom
        rw [h.editKey_full hback hfull]
        constructor
        · rintro ⟨e', hrun, -⟩
          cases hrun
        · rintro ⟨-, htyped, -⟩
          have hlong := htyped [] List.nil_prefix
          rw [List.foldl_nil, typeKey, if_neg hback, List.length_append, List.length_singleton] at hlong
          omega

theorem readsLine_iff (echo : Bool) (output rest : List UInt8) (hbuffer : buffer.length = size) (hkeys : newline ∉ keys) :
    ReadsLine (fun buffer input => readLine echo input ⟨buffer, 0, output⟩) buffer keys rest ↔
      FitsIn size [] keys :=
  readLine_iff ⟨hbuffer, rfl, List.nil_prefix⟩ (Nat.zero_le _) hkeys

/-- The shell and `scanf` read the lines that fit in their buffers. -/
theorem line_read_iff (hkeys : newline ∉ keys) (rest : List UInt8) :
    (∀ buffer : List UInt8, buffer.length = SHELL_BUFFER →
      (ReadsLine shellLine buffer keys rest ↔ FitsIn SHELL_BUFFER [] keys)) ∧
    ∀ buffer : List UInt8, buffer.length = SCANF_BUFFER →
      (ReadsLine getline buffer keys rest ↔ FitsIn SCANF_BUFFER [] keys) :=
  ⟨fun _ hbuffer => readsLine_iff _ _ rest hbuffer hkeys, fun _ hbuffer => readsLine_iff _ _ rest hbuffer hkeys⟩

/-- The line `ls`, typed with a wrong character that is taken back. -/
theorem line_read_ls : ReadsLine shellLine (List.replicate 100 7) [108, 97, 8, 115] [] := by
  have hfits : FitsIn SHELL_BUFFER [] [108, 97, 8, 115] := by
    simp only [fitsIn_cons, fitsIn_nil]
    decide
  exact ((line_read_iff (by decide) []).1 _ List.length_replicate).mpr hfits

/-- A hundred characters fill the buffer of the shell, and the terminator is written behind it. -/
theorem line_of_hundred : ¬ ReadsLine shellLine (List.replicate 100 0) (List.replicate 100 97) [] := by
  have hkeys : newline ∉ List.replicate 100 (97 : UInt8) := by
    rw [List.mem_replicate]
    decide
  intro hreads
  obtain ⟨-, hend⟩ := (readsLine_iff _ _ [] List.length_replicate hkeys).mp hreads
  exact absurd hend (by decide +kernel)

end BasicKernel
