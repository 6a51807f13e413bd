import BasicKernel.Screen.Cursor

set_option autoImplicit false

/-! # Text without an end

A text is laid out in rows of 80 cells, as many as it needs. The screen shows the last 25 of them, down to
the row of the cursor: what has scrolled away is above.

`printed_text_layout` says so for every text without backspaces and tabs, however long it is.
-/

namespace BasicKernel

/-! ## Layouts

The abstract side: rows that are filled from the left, one below the other, and never lost. -/

/-- The cells of the rows, and the cell that comes next. -/
structure Layout where
  cell : Nat → Nat → UInt8
  row : Nat
  col : Nat

namespace Layout

/-- Nothing is written: all cells are blanks. -/
def empty : Layout := ⟨fun _ _ => 32, 0, 0⟩

/-- A newline starts the next row, and so does the character that fills a row. -/
def type (L : Layout) (c : UInt8) : Layout :=
  if c = 10 then { L with row := L.row + 1, col := 0 }
  else
    let cell := Function.update L.cell L.row (Function.update (L.cell L.row) L.col c)
    if L.col + 1 = WINDOW_WIDTH then ⟨cell, L.row + 1, 0⟩ else ⟨cell, L.row, L.col + 1⟩

/-- The layout of a text. -/
def ofText (text : List UInt8) : Layout := text.foldl type empty

/-- The first row that the screen shows. -/
def top (L : Layout) : Nat := L.row - (WINDOW_HEIGHT - 1)

end Layout

/-! ## Rows of a page

A page shows 25 rows of the layout, whichever is the first of them. -/

namespace Page

/-- The page shows 25 rows of cells from the row `top` on, in the default colour. -/
def ShowsRows (P : Page) (rows : Nat → Nat → UInt8) (top : Nat) : Prop :=
  ∀ r < WINDOW_HEIGHT, ∀ c < WINDOW_WIDTH, P.byte ((r * WINDOW_WIDTH + c) * 2) = rows (top + r) c ∧
    P.byte ((r * WINDOW_WIDTH + c) * 2 + 1) = DEFAULT_COLOR

variable {P : Page} {rows : Nat → Nat → UInt8} {top : Nat}

/-- To scroll is to show one row more, which is blank. -/
theorem ShowsRows.scroll (h : P.ShowsRows rows top)
    (hblank : ∀ c < WINDOW_WIDTH, rows (top + WINDOW_HEIGHT) c = 32) : P.scroll.ShowsRows rows (top + 1) := by
  intro r hr c hc
  replace hr : r < 25 := hr
  replace hc : c < 80 := hc
  show (if (r * 80 + c) * 2 < 3840 then P.byte ((r * 80 + c) * 2 + 160) else blank ((r * 80 + c) * 2)) = _ ∧
    (if (r * 80 + c) * 2 + 1 < 3840 then P.byte ((r * 80 + c) * 2 + 1 + 160)
      else blank ((r * 80 + c) * 2 + 1)) = _
  by_cases hlast : r < 24
  · obtain ⟨hchar, hcolor⟩ := h (r + 1) (show r + 1 < 25 by omega) c hc
    have hbyte : (r * 80 + c) * 2 + 160 = ((r + 1) * 80 + c) * 2 := by omega
    rw [if_pos (by omega), if_pos (by omega), hbyte, hchar]
    refine ⟨congrArg (rows · c) (by omega), ?_⟩
    rw [show (r * 80 + c) * 2 + 1 + 160 = ((r + 1) * 80 + c) * 2 + 1 by omega]
    exact hcolor
  · -- the last row
    obtain rfl : r = 24 := by omega
    rw [if_neg (by omega), if_neg (by omega), blank, blank, if_neg (by omega), if_pos (by omega)]
    exact ⟨(hblank c hc).symm, rfl⟩

/-- A character goes to the cell of the cursor. -/
theorem ShowsRows.put (h : P.ShowsRows rows top) {row col : Nat} (hrow : row < WINDOW_HEIGHT)
    (hcol : col < WINDOW_WIDTH) (hcursor : P.cursor = (row * WINDOW_WIDTH + col) * 2) (ch : UInt8) :
    (P.cell ch).ShowsRows
      (Function.update rows (top + row) (Function.update (rows (top + row)) col ch)) top := by
  -- The cell of the cursor is two bytes; every other cell of the page keeps its own.
  intro r hr c hc
  replace hc : c < 80 := hc
  replace hcol : col < 80 := hcol
  replace hcursor : P.cursor = (row * 80 + col) * 2 := hcursor
  obtain ⟨hchar, hcolor⟩ := h r hr c hc
  show Function.update (Function.update P.byte P.cursor ch) (P.cursor + 1) DEFAULT_COLOR
      ((r * 80 + c) * 2) = _ ∧
    Function.update (Function.update P.byte P.cursor ch) (P.cursor + 1) DEFAULT_COLOR
      ((r * 80 + c) * 2 + 1) = _
  rw [hcursor]
  by_cases hhere : r = row ∧ c = col
  · obtain ⟨rfl, rfl⟩ := hhere
    have hne : (r * 80 + c) * 2 ≠ (r * 80 + c) * 2 + 1 := by omega
    rw [Function.update_of_ne hne, Function.update_self, Function.update_self, Function.update_self,
      Function.update_self]
    exact ⟨rfl, rfl⟩
  -- Another cell is in another row, or in another column of the same row.
  · have hcell : r * 80 + c ≠ row * 80 + col := by omega
    have hsame : Function.update rows (top + row) (Function.update (rows (top + row)) col ch) (top + r) c =
        rows (top + r) c := by
      by_cases hr' : r = row
      · subst hr'
        rw [Function.update_self, Function.update_of_ne fun heq => hhere ⟨rfl, heq⟩]
      · rw [Function.update_of_ne (by omega)]
    rw [hsame]
    constructor
    · rw [Function.update_of_ne (by omega), Function.update_of_ne (by omega)]
      exact hchar
    · by_cases hsame' : (r * 80 + c) * 2 + 1 = (row * 80 + col) * 2 + 1
      · omega
      · rw [Function.update_of_ne hsame', Function.update_of_ne (by omega)]
        exact hcolor

end Page

/-! ## The refinement

One character more, on the layout and on the page. The page scrolls when the layout gets a row
below its last one. -/

/-- The page shows the layout: its last rows, and its next cell at the cursor. -/
structure Page.Lays (P : Page) (L : Layout) : Prop where
  rows : P.ShowsRows L.cell L.top
  cursor : P.cursor = ((L.row - L.top) * WINDOW_WIDTH + L.col) * 2
  col : L.col < WINDOW_WIDTH
  below : ∀ r c, L.row < r → L.cell r c = 32

namespace Page.Lays

variable {P : Page} {L : Layout}

theorem row_lt (L : Layout) : L.row - L.top < WINDOW_HEIGHT := by
  show L.row - (L.row - 24) < 25
  omega

theorem valid (h : P.Lays L) : P.Valid := by
  have hrow : L.row - L.top < 25 := row_lt L
  have hcol : L.col < 80 := h.col
  have hcursor : P.cursor = ((L.row - L.top) * 80 + L.col) * 2 := h.cursor
  exact ⟨by omega, by show P.cursor < 4000; omega⟩

/-- The cursor goes to the start of the next row. -/
theorem nextRow {cell : Nat → Nat → UInt8} {row : Nat} (hrows : P.ShowsRows cell (row - 24))
    (hcursor : P.cursor = (row - (row - 24) + 1) * 160) (hbelow : ∀ r c, row < r → cell r c = 32) :
    P.check.Lays ⟨cell, row + 1, 0⟩ := by
  -- At the last row the page scrolls, and the row that is at the top is one further down.
  by_cases hlast : 24 ≤ row
  · have hscroll : P.check = P.scroll := by
      rw [Page.check, if_pos]
      show 4000 ≤ P.cursor
      omega
    rw [hscroll]
    refine ⟨?_, ?_, Nat.zero_lt_succ 79, fun r c hr => hbelow r c (by dsimp only at hr; omega)⟩
    · have hshows := hrows.scroll fun c _ => hbelow _ c (by show row < row - 24 + 25; omega)
      have htop : row - 24 + 1 = row + 1 - 24 := by omega
      rwa [htop] at hshows
    · show 3840 = ((row + 1 - (row + 1 - 24)) * 80 + 0) * 2
      omega
  -- Above it the page stays, with the same row at the top.
  · have hstay : P.check = P := by
      rw [Page.check, if_neg]
      show ¬ 4000 ≤ P.cursor
      omega
    rw [hstay]
    refine ⟨?_, ?_, Nat.zero_lt_succ 79, fun r c hr => hbelow r c (by dsimp only at hr; omega)⟩
    · have htop : row - 24 = row + 1 - 24 := by omega
      rwa [htop] at hrows
    · show P.cursor = ((row + 1 - (row + 1 - 24)) * 80 + 0) * 2
      omega

theorem check_eq (h : P.Lays L) : P.check = P :=
  if_neg (Nat.not_le.mpr h.valid.2)

/-- One character more. -/
theorem write (h : P.Lays L) {c : UInt8} (hback : c ≠ 8) (htab : c ≠ 9) : (P.write c).Lays (L.type c) := by
  have hrow : L.row - L.top < 25 := row_lt L
  have hcol : L.col < 80 := h.col
  have hcursor : P.cursor = ((L.row - L.top) * 80 + L.col) * 2 := h.cursor
  -- A line end goes to the next row, any other character to the cell of the cursor.
  by_cases hnewline : c = 10
  · rw [Page.write, if_pos hnewline, Layout.type, if_pos hnewline]
    have hnext : P.newLine.Lays ⟨L.cell, L.row + 1, 0⟩ := by
      refine nextRow (P := { P with cursor := _ }) h.rows ?_ h.below
      show P.cursor / 160 * 160 + 160 = (L.row - (L.row - 24) + 1) * 160
      change P.cursor = ((L.row - (L.row - 24)) * 80 + L.col) * 2 at hcursor
      omega
    rw [hnext.check_eq]
    exact hnext
  · rw [Page.write, if_neg hnewline, if_neg hback, if_neg htab, Layout.type, if_neg hnewline]
    -- the character is written below no row but its own
    have hbelow : ∀ r x, L.row < r →
        Function.update L.cell L.row (Function.update (L.cell L.row) L.col c) r x = 32 := by
      intro r x hr
      rw [Function.update_of_ne (Nat.ne_of_gt hr)]
      exact h.below r x hr
    have hrows : (P.cell c).ShowsRows
        (Function.update L.cell L.row (Function.update (L.cell L.row) L.col c)) L.top := by
      have hput := h.rows.put hrow hcol hcursor c
      have htop : L.top + (L.row - L.top) = L.row := by
        show L.row - 24 + (L.row - (L.row - 24)) = L.row
        omega
      rwa [htop] at hput
    have hnext : (P.cell c).cursor = ((L.row - L.top) * 80 + L.col) * 2 + 1 + 1 :=
      congrArg (· + 1 + 1) hcursor
    dsimp only
    -- A full row continues in the next one.
    by_cases hfull : L.col + 1 = 80
    · rw [if_pos (show L.col + 1 = WINDOW_WIDTH from hfull)]
      refine nextRow hrows ?_ hbelow
      rw [hnext]
      show ((L.row - (L.row - 24)) * 80 + L.col) * 2 + 1 + 1 = (L.row - (L.row - 24) + 1) * 160
      omega
    · rw [if_neg (show ¬ L.col + 1 = WINDOW_WIDTH from hfull)]
      have hlays : (P.cell c).Lays
          ⟨Function.update L.cell L.row (Function.update (L.cell L.row) L.col c), L.row, L.col + 1⟩ := by
        refine ⟨hrows, ?_, ?_, hbelow⟩
        · rw [hnext]
          show _ = ((L.row - L.top) * 80 + (L.col + 1)) * 2
          omega
        · show L.col + 1 < 80
          omega
      rw [hlays.check_eq]
      exact hlays

/-- A blank page shows the empty text. -/
theorem empty (hbyte : ∀ i < WINDOW_SIZE, P.byte i = blank i) (hcursor : P.cursor = 0) :
    P.Lays .empty := by
  refine ⟨fun r hr c hc => ?_, hcursor, Nat.zero_lt_succ 79, fun _ _ _ => rfl⟩
  replace hr : r < 25 := hr
  replace hc : c < 80 := hc
  show P.byte ((r * 80 + c) * 2) = 32 ∧ P.byte ((r * 80 + c) * 2 + 1) = DEFAULT_COLOR
  rw [hbyte _ (show _ < 4000 by omega), hbyte _ (show _ < 4000 by omega), blank, blank,
    if_neg (by omega), if_pos (by omega)]
  exact ⟨rfl, rfl⟩

end Page.Lays

/-! ## The video screen -/

namespace Video

variable {v : Video} {P : Page}

/-- A cleared screen shows the empty text. -/
theorem clearScreen_shows (v : Video) :
    ∃ P : Page, (clearScreen v).Shows VIDEO .currentPosition P ∧ P.Lays .empty := by
  have hcursor : OnScreen VIDEO ((clearScreen v).pos .currentPosition) := (keeps_clearScreen v).2
  refine ⟨_, (OnScreen.shows hcursor).1, .empty (fun i hi => clear_byte v VIDEO hi) ?_⟩
  exact Nat.sub_self VIDEO

/-- Characters that are neither a backspace nor a tab, from any layout on. -/
theorem Shows.printCharacters {text : List UInt8} (htext : ∀ c ∈ text, c ≠ 8 ∧ c ≠ 9) :
    ∀ {v : Video} {P : Page} {L : Layout}, v.Shows VIDEO .currentPosition P → P.Lays L →
      ∃ P' : Page, (text.foldl printCharacters v).Shows VIDEO .currentPosition P' ∧
        P'.Lays (text.foldl Layout.type L) := by
  induction text with
  | nil => exact fun hshows hlays => ⟨_, hshows, hlays⟩
  | cons c text ih =>
      intro v P L hshows hlays
      obtain ⟨hback, htab⟩ := htext c (List.mem_cons_self ..)
      have hwrite : (BasicKernel.printCharacters v c).Shows VIDEO .currentPosition (P.write c) :=
        (hshows.printCharactersInner hlays.valid fun heq => absurd heq htab).1
      exact ih (fun d hd => htext d (List.mem_cons_of_mem _ hd)) hwrite (hlays.write hback htab)

end Video

/-- A text that is printed on a cleared screen: the screen shows the last rows of its layout. -/
theorem printed_text_layout (v : Video) {text : List UInt8} (htext : ∀ c ∈ text, c ≠ 8 ∧ c ≠ 9) :
    (∀ r < WINDOW_HEIGHT, ∀ c < WINDOW_WIDTH,
      (text.foldl printCharacters (clearScreen v)).char (VIDEO + (r * WINDOW_WIDTH + c) * 2) =
          (Layout.ofText text).cell ((Layout.ofText text).top + r) c ∧
        (text.foldl printCharacters (clearScreen v)).char (VIDEO + ((r * WINDOW_WIDTH + c) * 2 + 1)) =
          DEFAULT_COLOR) ∧
    (text.foldl printCharacters (clearScreen v)).currentPosition = VIDEO +
      (((Layout.ofText text).row - (Layout.ofText text).top) * WINDOW_WIDTH +
        (Layout.ofText text).col) * 2 := by
  obtain ⟨P, hclear, hempty⟩ := v.clearScreen_shows
  obtain ⟨P', hshows, hlays⟩ := hclear.printCharacters htext hempty
  constructor
  · intro r hr c hc
    replace hr : r < 25 := hr
    replace hc : c < 80 := hc
    obtain ⟨hchar, hcolor⟩ := hlays.rows r hr c hc
    rw [hshows.byte _ (show (r * 80 + c) * 2 < 4000 by omega),
      hshows.byte _ (show (r * 80 + c) * 2 + 1 < 4000 by omega)]
    exact ⟨hchar, hcolor⟩
  · calc (text.foldl printCharacters (clearScreen v)).currentPosition
        = VIDEO + P'.cursor := hshows.pos
      _ = _ := congrArg (VIDEO + ·) hlays.cursor

/-- The letters `a` and `b`, each with a row of its own, and 24 rows more. -/
def scrollingText : List UInt8 := [97, 10, 98] ++ List.replicate 24 10 ++ [99]

/-- The row of the `a` has left the screen. The `b` is in the first row, and the `c` in the last one. -/
theorem printed_text_layout_scrolled : ∃ v : Video,
    scrollingText.foldl printCharacters (clearScreen ⟨fun _ => 0, VIDEO, NULL, []⟩) = v ∧
    (Layout.ofText scrollingText).top = 1 ∧ v.char (VIDEO + (0 * WINDOW_WIDTH + 0) * 2) = 98 ∧
    v.char (VIDEO + (24 * WINDOW_WIDTH + 0) * 2) = 99 ∧
    v.currentPosition = VIDEO + (24 * WINDOW_WIDTH + 1) * 2 := by
  have hplain : ∀ c ∈ scrollingText, c ≠ 8 ∧ c ≠ 9 := by decide +kernel
  obtain ⟨hcells, hcursor⟩ := printed_text_layout ⟨fun _ => 0, VIDEO, NULL, []⟩ hplain
  have htop : (Layout.ofText scrollingText).top = 1 := by decide
  have hrow : (Layout.ofText scrollingText).row - (Layout.ofText scrollingText).top = 24 := by decide
  have hcol : (Layout.ofText scrollingText).col = 1 := by decide
  have hfirst : (Layout.ofText scrollingText).cell ((Layout.ofText scrollingText).top + 0) 0 = 98 := by decide
  have hlast : (Layout.ofText scrollingText).cell ((Layout.ofText scrollingText).top + 24) 0 = 99 := by decide
  rw [hrow, hcol] at hcursor
  refine ⟨_, rfl, htop, ?_, ?_, hcursor⟩
  · rw [(hcells 0 (by decide) 0 (by decide)).1, hfirst]
  · rw [(hcells 24 (by decide) 0 (by decide)).1, hlast]

end BasicKernel
