import BasicKernel.Screen.VideoDriver

set_option autoImplicit false

/-! # A page of text

What a screen is for: 25 rows of 80 cells and a cursor. The functions of `videoDriver.c` do the same
to the video memory and to a saved screen, at any address, as the operations of `Page` do to a page.
Only the tab differs, which moves the video cursor wherever it is printed.

`Video.Shows` is the relation between memory and a page, and each function of the driver has a
lemma that keeps it. The later files on screens speak of pages.
-/

namespace BasicKernel

/-- The bytes of a screen by their offset, and the offset of its cursor. -/
structure Page where
  byte : Nat → UInt8
  cursor : Nat

namespace Page

/-- The byte of a blank screen at an offset. -/
def blank (i : Nat) : UInt8 := if i % 2 = 1 then DEFAULT_COLOR else 32

def put (P : Page) (c : UInt8) : Page := ⟨Function.update P.byte P.cursor c, P.cursor + 1⟩

/-- The rows move up by one, and the cursor goes to the last one. -/
def scroll (P : Page) : Page where
  byte i := if i < WINDOW_WIDTH * 2 * (WINDOW_HEIGHT - 1) then P.byte (i + WINDOW_WIDTH * 2) else blank i
  cursor := END_OF_SCREEN - WINDOW_WIDTH * 2

def check (P : Page) : Page := if P.cursor ≥ END_OF_SCREEN then P.scroll else P

def cell (P : Page) (c : UInt8) : Page := (P.put c).put DEFAULT_COLOR

def newLine (P : Page) : Page :=
  check { P with cursor := P.cursor / (WINDOW_WIDTH * 2) * (WINDOW_WIDTH * 2) + WINDOW_WIDTH * 2 }

def backSpace (P : Page) : Page :=
  if P.cursor = 0 then P else ⟨Function.update P.byte (P.cursor - 2) 32, P.cursor - 2⟩

def tab (P : Page) : Page :=
  { P with cursor := P.cursor + (TABSIZE - P.cursor / 2 % WINDOW_WIDTH % TABSIZE) * 2 }

def write (P : Page) (c : UInt8) : Page :=
  check (if c = 10 then P.newLine else if c = 8 then P.backSpace else if c = 9 then P.tab else P.cell c)

/-- The cursor is at a cell of the page. -/
def Valid (P : Page) : Prop := P.cursor % 2 = 0 ∧ P.cursor < WINDOW_SIZE

variable {P : Page}

theorem check_valid (heven : P.cursor % 2 = 0) : P.check.Valid := by
  unfold check
  split
  case isTrue => exact ⟨by show (3840 : Nat) % 2 = 0; rfl, by show (3840 : Nat) < 4000; omega⟩
  case isFalse hlt => exact ⟨heven, Nat.lt_of_not_ge hlt⟩

theorem newLine_valid (P : Page) : P.newLine.Valid := by
  apply check_valid
  show (P.cursor / (80 * 2) * (80 * 2) + 80 * 2) % 2 = 0
  omega

theorem backSpace_valid (h : P.Valid) : P.backSpace.Valid := by
  unfold backSpace
  split
  case isTrue => exact h
  case isFalse =>
    obtain ⟨heven, hlt⟩ := h
    exact ⟨by show (P.cursor - 2) % 2 = 0; omega, Nat.lt_of_le_of_lt (Nat.sub_le _ _) hlt⟩

theorem tab_even (h : P.Valid) : P.tab.cursor % 2 = 0 := by
  have heven := h.1
  show (P.cursor + _ * 2) % 2 = 0
  omega

theorem write_valid (h : P.Valid) (c : UInt8) : (P.write c).Valid := by
  apply check_valid
  split
  · exact P.newLine_valid.1
  split
  · exact (backSpace_valid h).1
  split
  · exact tab_even h
  · have heven := h.1
    show (P.cursor + 1 + 1) % 2 = 0
    omega

/-- Without the check behind it a tab may leave the page. -/
theorem tab_valid_iff (h : P.Valid) : P.tab.Valid ↔ P.cursor < WINDOW_SIZE - 16 := by
  obtain ⟨heven, hlt⟩ := h
  have hcolumn : P.tab.cursor = P.cursor + (12 - P.cursor / 2 % 80 % 12) * 2 := rfl
  unfold Valid
  show _ ∧ P.tab.cursor < 4000 ↔ P.cursor < 4000 - 16
  replace hlt : P.cursor < 4000 := hlt
  constructor
  · rintro ⟨-, htab⟩
    omega
  · intro hfits
    exact ⟨by omega, by omega⟩

end Page

/-! ## A page in memory

Where a screen lies, what it shows, and what a change of one screen leaves alone. -/

/-- The bytes of the screen that starts at `s`. -/
def InScreen (s a : Nat) : Prop := s ≤ a ∧ a < s + WINDOW_SIZE

/-- Memory holds the page at `s`, and the variable `cursor` its cursor. -/
structure Video.Shows (v : Video) (s : Nat) (cursor : CursorVar) (P : Page) : Prop where
  byte : ∀ i < WINDOW_SIZE, v.char (s + i) = P.byte i
  pos : v.pos cursor = s + P.cursor

/-- From `v` to `v'` only the screen at `s` and the variable `cursor` change. -/
structure Video.Draws (s : Nat) (cursor : CursorVar) (v v' : Video) : Prop where
  char : ∀ a : Nat, ¬ InScreen s a → v'.char a = v.char a
  written : ∀ a : Nat, a ∈ v'.written → a ∈ v.written ∨ InScreen s a
  other : ∀ c, c ≠ cursor → v'.pos c = v.pos c

namespace Video

variable {v v' v'' : Video} {s p : Nat} {cursor : CursorVar} {P : Page}

@[simp] theorem char_setPos (v : Video) (p : Addr) (cursor : CursorVar) :
    (v.setPos p cursor).char = v.char := by
  cases cursor <;> rfl

@[simp] theorem written_setPos (v : Video) (p : Addr) (cursor : CursorVar) :
    (v.setPos p cursor).written = v.written := by
  cases cursor <;> rfl

@[simp] theorem pos_setPos (v : Video) (p : Addr) (cursor : CursorVar) :
    (v.setPos p cursor).pos cursor = p := by
  cases cursor <;> rfl

theorem pos_setPos_of_ne (v : Video) (p : Addr) {c : CursorVar} (h : c ≠ cursor) :
    (v.setPos p cursor).pos c = v.pos c := by
  cases c <;> cases cursor <;> first | rfl | exact absurd rfl h

@[simp] theorem pos_set (v : Video) (p : Addr) (c : UInt8) : (v.set p c).pos cursor = v.pos cursor := by
  cases cursor <;> rfl

/-! ### Loops -/

section Loops

variable {c : Video → Nat → UInt8} {n : Nat}

theorem fill_pos (v : Video) : (v.fill p c n).pos cursor = v.pos cursor := by
  induction n with
  | zero => rfl
  | succ n ih => rw [fill, pos_set, ih]

theorem fill_written (v : Video) :
    ∀ a : Nat, a ∈ (v.fill p c n).written → a ∈ v.written ∨ p ≤ a ∧ a < p + n := by
  induction n with
  | zero => exact fun a ha => .inl ha
  | succ n ih =>
      intro a ha
      rcases List.mem_cons.mp ha with rfl | ha
      · exact .inr ⟨Nat.le_add_right p n, Nat.lt_succ_self _⟩
      · rcases ih a ha with hold | ⟨hle, hlt⟩
        · exact .inl hold
        · exact .inr ⟨hle, Nat.lt_succ_of_lt hlt⟩

/-- A loop whose values do not depend on what it has already written. -/
theorem fill_char {v : Video} {g : Nat → UInt8}
    (hg : ∀ i < n, ∀ w : Video, (∀ a : Nat, ¬ (p ≤ a ∧ a < p + i) → w.char a = v.char a) → c w i = g i) :
    ∀ a : Nat, (v.fill p c n).char a = if p ≤ a ∧ a < p + n then g (a - p) else v.char a := by
  induction n with
  | zero =>
      intro a
      exact (if_neg (by omega)).symm
  | succ n ih =>
      have ih := ih fun i hi => hg i (Nat.lt_succ_of_lt hi)
      have hn : c (v.fill p c n) n = g n := by
        apply hg n (Nat.lt_succ_self n)
        intro a ha
        rw [ih, if_neg ha]
      intro a
      show Function.update (v.fill p c n).char (p + n) (c (v.fill p c n) n) a = _
      rw [hn]
      by_cases ha : a = p + n
      · subst ha
        rw [Function.update_self, if_pos ⟨Nat.le_add_right p n, Nat.lt_succ_self _⟩,
          Nat.add_sub_cancel_left]
      · rw [Function.update_of_ne ha, ih]
        exact if_congr (by omega) rfl rfl

theorem blankCells_pos (v : Video) : (blankCells p n v).pos cursor = v.pos cursor := by
  induction n with
  | zero => rfl
  | succ n ih => rw [blankCells, pos_set, pos_set, ih]

theorem blankCells_written (v : Video) :
    ∀ a : Nat, a ∈ (blankCells p n v).written → a ∈ v.written ∨ p ≤ a ∧ a < p + 2 * n := by
  induction n with
  | zero => exact fun a ha => .inl ha
  | succ n ih =>
      intro a ha
      rcases List.mem_cons.mp ha with rfl | ha
      · exact .inr (by omega)
      rcases List.mem_cons.mp ha with rfl | ha
      · exact .inr (by omega)
      rcases ih a ha with hold | hnew
      · exact .inl hold
      · exact .inr (by omega)

theorem blankCells_char (v : Video) : ∀ a : Nat,
    (blankCells p n v).char a = if p ≤ a ∧ a < p + 2 * n then Page.blank (a - p) else v.char a := by
  induction n with
  | zero =>
      intro a
      exact (if_neg (by omega)).symm
  | succ n ih =>
      intro a
      show Function.update (Function.update (blankCells p n v).char (p + 2 * n) 32)
        (p + 2 * n + 1) DEFAULT_COLOR a = _
      by_cases hcolor : a = p + 2 * n + 1
      · subst hcolor
        rw [Function.update_self, if_pos (by omega), Page.blank, if_pos (by omega)]
      rw [Function.update_of_ne hcolor]
      by_cases hchar : a = p + 2 * n
      · subst hchar
        rw [Function.update_self, if_pos (by omega), Page.blank, if_neg (by omega)]
      rw [Function.update_of_ne hchar, ih]
      exact if_congr (by omega) rfl rfl

end Loops

/-! ### Changes to one screen -/

namespace Draws

theorem refl (s : Nat) (cursor : CursorVar) (v : Video) : Draws s cursor v v :=
  ⟨fun _ _ => rfl, fun _ ha => .inl ha, fun _ _ => rfl⟩

theorem trans (h : Draws s cursor v v') (h' : Draws s cursor v' v'') : Draws s cursor v v'' := by
  refine ⟨fun a ha => (h'.char a ha).trans (h.char a ha), fun a ha => ?_,
    fun c hc => (h'.other c hc).trans (h.other c hc)⟩
  rcases h'.written a ha with hmid | hin
  · exact h.written a hmid
  · exact .inr hin

theorem setPos (v : Video) (p : Addr) : Draws s cursor v (v.setPos p cursor) :=
  ⟨fun _ _ => by rw [char_setPos], fun _ ha => .inl (by rwa [written_setPos] at ha),
    fun _ hc => pos_setPos_of_ne v p hc⟩

theorem set (v : Video) {p : Nat} (hp : InScreen s p) (c : UInt8) : Draws s cursor v (v.set p c) := by
  refine ⟨fun a ha => Function.update_of_ne ?_ _ _, fun a ha => ?_, fun _ _ => pos_set v p c⟩
  · rintro rfl
    exact ha hp
  · rcases List.mem_cons.mp ha with rfl | ha
    · exact .inr hp
    · exact .inl ha

theorem put (v : Video) (hp : InScreen s (v.pos cursor)) (c : UInt8) :
    Draws s cursor v (v.put c cursor) :=
  (Draws.set v hp c).trans (Draws.setPos _ _)

end Draws

/-! ### The operations

Each function of the driver does to the screen what the operation does to the page that it
shows. -/

theorem Shows.put (h : v.Shows s cursor P) (hlt : P.cursor < WINDOW_SIZE) (c : UInt8) :
    (v.put c cursor).Shows s cursor (P.put c) ∧ Draws s cursor v (v.put c cursor) := by
  have hin : InScreen s (v.pos cursor) := by
    rw [h.pos]
    exact ⟨Nat.le_add_right _ _, Nat.add_lt_add_left hlt s⟩
  refine ⟨⟨fun i hi => ?_, ?_⟩, .put v hin c⟩
  · show (Video.setPos _ _ _).char (s + i) = Function.update P.byte P.cursor c i
    rw [char_setPos]
    show Function.update v.char (v.pos cursor) c (s + i) = _
    rw [h.pos]
    by_cases heq : i = P.cursor
    · rw [heq, Function.update_self, Function.update_self]
    · rw [Function.update_of_ne heq, Function.update_of_ne, h.byte i hi]
      exact fun hadd => heq (Nat.add_left_cancel hadd)
  · show (Video.setPos _ _ _).pos cursor = s + (P.cursor + 1)
    rw [pos_setPos, h.pos]
    rfl

theorem Shows.cell (h : v.Shows s cursor P) (hP : P.Valid) (c : UInt8) :
    ((v.put c cursor).put DEFAULT_COLOR cursor).Shows s cursor (P.cell c) ∧
      Draws s cursor v ((v.put c cursor).put DEFAULT_COLOR cursor) := by
  obtain ⟨heven, hlt⟩ := hP
  obtain ⟨h₁, hdraws₁⟩ := h.put hlt c
  have hlt₁ : (P.put c).cursor < WINDOW_SIZE := by
    show P.cursor + 1 < 4000
    replace hlt : P.cursor < 4000 := hlt
    omega
  obtain ⟨h₂, hdraws₂⟩ := h₁.put hlt₁ DEFAULT_COLOR
  exact ⟨h₂, hdraws₁.trans hdraws₂⟩

theorem Shows.moveScreenUp (h : v.Shows s cursor P) :
    (moveScreenUp v s cursor).Shows s cursor P.scroll ∧
      Draws s cursor v (moveScreenUp v s cursor) := by
  -- The loop copies each byte from a row below, which it has not written yet.
  have hread : ∀ i < 3840, ∀ w : Video, (∀ a : Nat, ¬ (s ≤ a ∧ a < s + i) → w.char a = v.char a) →
      w.char (s + (i + 160)) = v.char (s + (i + 160)) := by
    intro i _ w hw
    exact hw _ (by omega)
  have hrows := fill_char (n := 3840) (p := s) (c := fun v i => v.char (s + (i + 160))) (v := v)
    (g := fun i => v.char (s + (i + 160))) hread
  generalize hup : v.fill s (fun v i => v.char (s + (i + 160))) 3840 = up at hrows
  have hchar := blankCells_char (p := s + 4000 - 160) (n := 80) up
  have hmove : BasicKernel.moveScreenUp v s cursor =
      (blankCells (s + 4000 - 160) 80 up).setPos (s + 4000 - 160) cursor := by
    rw [← hup]
    rfl
  rw [hmove]
  refine ⟨⟨fun i hi => ?_, ?_⟩, ⟨fun a ha => ?_, fun a ha => ?_, fun c hc => ?_⟩⟩
  -- The first 24 rows come from the copy, the last one is blank.
  · replace hi : i < 4000 := hi
    rw [char_setPos, hchar, hrows]
    show _ = if i < 3840 then P.byte (i + 160) else Page.blank i
    by_cases hrow : i < 3840
    · rw [if_neg (by omega), if_pos (by omega), if_pos hrow, Nat.add_sub_cancel_left]
      exact h.byte _ (by show i + 160 < 4000; omega)
    · rw [if_pos (by omega), if_neg hrow]
      show Page.blank _ = Page.blank i
      unfold Page.blank
      exact if_congr (by omega) rfl rfl
  · rw [pos_setPos]
    show s + 4000 - 160 = s + 3840
    omega
  -- Outside the screen nothing is written, by the copy or by the blanks.
  · replace ha : ¬ (s ≤ a ∧ a < s + 4000) := ha
    rw [char_setPos, hchar, if_neg (by omega), hrows, if_neg (by omega)]
  · rw [written_setPos] at ha
    rcases blankCells_written up a ha with hold | hnew
    · rw [← hup] at hold
      rcases fill_written v a hold with hold | hnew
      · exact .inl hold
      · exact .inr (by show s ≤ a ∧ a < s + 4000; omega)
    · exact .inr (by show s ≤ a ∧ a < s + 4000; omega)
  · rw [pos_setPos_of_ne _ _ hc, blankCells_pos, ← hup, fill_pos]

theorem Shows.checkEndOfScreen (h : v.Shows s cursor P) :
    (checkEndOfScreen v s cursor).Shows s cursor P.check ∧
      Draws s cursor v (checkEndOfScreen v s cursor) := by
  unfold BasicKernel.checkEndOfScreen Page.check
  have hend : v.pos cursor ≥ s + END_OF_SCREEN ↔ P.cursor ≥ END_OF_SCREEN := by
    rw [h.pos]
    exact Nat.add_le_add_iff_left
  by_cases hout : P.cursor ≥ END_OF_SCREEN
  · rw [if_pos (hend.mpr hout), if_pos hout]
    exact h.moveScreenUp
  · rw [if_neg (mt hend.mp hout), if_neg hout]
    exact ⟨h, .refl s cursor v⟩

/-- The distance to the next row, as C computes it from a difference that is not positive. -/
theorem row_distance (s n : Nat) :
    (((s : Int) - ((s + n : Nat) : Int)).tmod (WINDOW_WIDTH * 2) + WINDOW_WIDTH * 2 : Int) =
      160 - ((n % 160 : Nat) : Int) := by
  have hneg : (s : Int) - ((s + n : Nat) : Int) = -(n : Int) := by omega
  rw [hneg, Int.neg_tmod, Int.tmod_eq_emod_of_nonneg (by omega)]
  show -((n : Int) % (80 * 2)) + 80 * 2 = _
  omega

theorem Shows.myNewLine (h : v.Shows s cursor P) :
    (myNewLine v s cursor).Shows s cursor P.newLine ∧
      Draws s cursor v (myNewLine v s cursor) := by
  have hpos : ((v.pos cursor : Int) + (((s : Int) - v.pos cursor).tmod (WINDOW_WIDTH * 2) +
      WINDOW_WIDTH * 2)).toNat = s + (P.cursor / 160 * 160 + 160) := by
    rw [h.pos, row_distance]
    omega
  have hmoved : (v.setPos (s + (P.cursor / 160 * 160 + 160)) cursor).Shows s cursor
      { P with cursor := P.cursor / (WINDOW_WIDTH * 2) * (WINDOW_WIDTH * 2) + WINDOW_WIDTH * 2 } :=
    ⟨fun i hi => by rw [char_setPos]; exact h.byte i hi, pos_setPos _ _ _⟩
  unfold BasicKernel.myNewLine
  dsimp only
  rw [hpos]
  obtain ⟨hshows, hdraws⟩ := hmoved.checkEndOfScreen
  exact ⟨hshows, (Draws.setPos v _).trans hdraws⟩

theorem Shows.backSpace (h : v.Shows s cursor P) (hP : P.Valid) :
    (backSpace v s cursor).Shows s cursor P.backSpace ∧
      Draws s cursor v (backSpace v s cursor) := by
  -- At the start of the screen there is nothing to take back.
  have hstart : v.pos cursor = s ↔ P.cursor = 0 := by
    rw [h.pos]
    exact Nat.add_eq_left
  unfold BasicKernel.backSpace Page.backSpace
  by_cases hzero : P.cursor = 0
  · rw [if_pos (hstart.mpr hzero), if_pos hzero]
    exact ⟨h, .refl s cursor v⟩
  rw [if_neg (mt hstart.mp hzero), if_neg hzero]
  obtain ⟨heven, hlt⟩ := hP
  have hback : v.pos cursor - 2 = s + (P.cursor - 2) := by
    rw [h.pos]
    exact Nat.add_sub_assoc (by omega) s
  -- The cursor goes back by one cell, and the character there becomes a blank.
  dsimp only
  rw [pos_setPos, hback]
  have hin : InScreen s (s + (P.cursor - 2)) :=
    ⟨Nat.le_add_right _ _, Nat.add_lt_add_left (Nat.lt_of_le_of_lt (Nat.sub_le _ _) hlt) s⟩
  refine ⟨⟨fun i hi => ?_, ?_⟩, (Draws.setPos v _).trans (Draws.set _ hin 32)⟩
  · show Function.update (Video.setPos v _ _).char _ 32 (s + i) = Function.update P.byte _ 32 i
    rw [char_setPos]
    by_cases heq : i = P.cursor - 2
    · rw [heq, Function.update_self, Function.update_self]
    · rw [Function.update_of_ne heq, Function.update_of_ne, h.byte i hi]
      exact fun hadd => heq (Nat.add_left_cancel hadd)
  · rw [pos_set, pos_setPos]

/-- A tab is right only on the video screen. -/
theorem Shows.printTab (h : v.Shows VIDEO .currentPosition P) (hP : P.Valid) :
    (printTab v).Shows VIDEO .currentPosition P.tab ∧
      Draws VIDEO .currentPosition v (printTab v) := by
  obtain ⟨heven, hlt⟩ := hP
  replace hlt : P.cursor < 4000 := hlt
  -- The distance from the start, as an `int`, is the cursor of the page; the rest is the same
  -- arithmetic.
  have hpos : ((v.pos .currentPosition : Int) + (TABSIZE - (((toInt32 ((v.pos .currentPosition : Int)
      - VIDEO)).tdiv 2).tmod WINDOW_WIDTH).tmod TABSIZE) * 2).toNat = VIDEO + P.tab.cursor := by
    have hoff : ((v.pos .currentPosition : Int) - VIDEO) = P.cursor := by
      rw [h.pos]
      push_cast
      omega
    have htab : P.tab.cursor = P.cursor + (12 - P.cursor / 2 % 80 % 12) * 2 := rfl
    have hcolumn : (((P.cursor : Int).tdiv 2).tmod WINDOW_WIDTH).tmod TABSIZE =
        ((P.cursor / 2 % 80 % 12 : Nat) : Int) := by
      have hcell : (P.cursor : Int).tdiv 2 = ((P.cursor / 2 : Nat) : Int) := rfl
      rw [hcell, Int.tmod_eq_emod_of_nonneg (Int.natCast_nonneg _), ← Int.natCast_emod,
        Int.tmod_eq_emod_of_nonneg (Int.natCast_nonneg _), ← Int.natCast_emod]
    rw [hoff, toInt32_of_bounds (by omega) (by omega), h.pos, htab, hcolumn]
    show (((VIDEO + P.cursor : Nat) : Int) + (12 - ((P.cursor / 2 % 80 % 12 : Nat) : Int)) * 2).toNat = _
    omega
  unfold BasicKernel.printTab BasicKernel.myPrintTab
  dsimp only
  rw [hpos]
  exact ⟨⟨fun i hi => by rw [char_setPos]; exact h.byte i hi, pos_setPos _ _ _⟩, .setPos v _⟩

/-- Every character but a tab, and on the video screen every character. -/
theorem Shows.printCharactersInner (h : v.Shows s cursor P) (hP : P.Valid) {c : UInt8}
    (hc : c = 9 → s = VIDEO ∧ cursor = .currentPosition) :
    (printCharactersInner v c s cursor).Shows s cursor (P.write c) ∧
      Draws s cursor v (printCharactersInner v c s cursor) := by
  unfold BasicKernel.printCharactersInner Page.write
  dsimp only
  -- A line end, a backspace, a tab or a character, each with the check for the end of the screen.
  split
  · obtain ⟨h₁, hdraws₁⟩ := h.myNewLine
    obtain ⟨h₂, hdraws₂⟩ := h₁.checkEndOfScreen
    exact ⟨h₂, hdraws₁.trans hdraws₂⟩
  split
  · obtain ⟨h₁, hdraws₁⟩ := h.backSpace hP
    obtain ⟨h₂, hdraws₂⟩ := h₁.checkEndOfScreen
    exact ⟨h₂, hdraws₁.trans hdraws₂⟩
  split
  next htab =>
    obtain ⟨rfl, rfl⟩ := hc htab
    obtain ⟨h₁, hdraws₁⟩ := h.printTab hP
    obtain ⟨h₂, hdraws₂⟩ := h₁.checkEndOfScreen
    exact ⟨h₂, hdraws₁.trans hdraws₂⟩
  next =>
    obtain ⟨h₁, hdraws₁⟩ := h.cell hP c
    obtain ⟨h₂, hdraws₂⟩ := h₁.checkEndOfScreen
    exact ⟨h₂, hdraws₁.trans hdraws₂⟩

end Video

end BasicKernel
