import BasicKernel.Screen.Page
import BasicKernel.Lib.Transition
import BasicKernel.Lib.Fuel

set_option autoImplicit false

/-! # The cursors

The operations on the video screen and on saved screens, in any order. A tab is not followed by the
check for the end of the screen when it is printed by `printTab`, and a tab for a saved screen moves
the video cursor.

`cursor_stays` says for runs of all these operations that the cursors stay on their screens, and
for one operation more exactly when they still do. In `tab_leaves_screen` a tab in the last row
moves the cursor behind the screen.
-/

namespace BasicKernel

open Transition Linked

/-! ## Histories

The bytes that an operation writes are recorded beside the screen, so that a write outside a
screen does not go unnoticed. -/

/-- The video screen, the cursors of the screens saved at an address, and what the operations wrote,
each with the screen that it was meant for. -/
structure Display where
  video : Video
  saved : Addr → Addr
  log : List (Addr × List Addr)

inductive DisplayOp where
  | print (string : List UInt8)
  | printDec (number : Int)
  | printTab
  | newLine
  | printCharacters (character : UInt8)
  | clearScreen
  | printCharactersInner (character : UInt8) (myScreen : Addr)

namespace DisplayOp

/-- The screen that the operation is meant for. -/
def target : DisplayOp → Addr
  | printCharactersInner _ myScreen => myScreen
  | _ => VIDEO

def draw (fuel : Nat) (v : Video) : DisplayOp → Except Stop Video
  | print string => .ok (BasicKernel.print v string)
  | printDec number => BasicKernel.printDec fuel v number
  | printTab => .ok (BasicKernel.printTab v)
  | newLine => .ok (BasicKernel.newLine v)
  | printCharacters character => .ok (BasicKernel.printCharacters v character)
  | clearScreen => .ok (BasicKernel.clearScreen v)
  | printCharactersInner character myScreen =>
      .ok (BasicKernel.printCharactersInner v character myScreen .myScreenPos)

/-- The numbers have one digit and the saved screens are among `screens`. -/
def Asked (screens : Set Addr) : DisplayOp → Prop
  | printDec number => -9 ≤ number ∧ number ≤ 9
  | printCharactersInner _ myScreen => myScreen ∈ screens
  | _ => True

/-- A tab that is not checked leaves the cursor on the video screen: it is not in the last eight
columns of the last row. -/
def Fits (v : Video) : DisplayOp → Prop
  | printTab => v.currentPosition < VIDEO + (WINDOW_SIZE - 16)
  | printCharactersInner character _ =>
      character = 9 → v.currentPosition < VIDEO + (WINDOW_SIZE - 16)
  | _ => True

end DisplayOp

/-- The operation, with the cursor of its screen in `myScreenPos`. -/
def Display.run (fuel : Nat) (d : Display) (op : DisplayOp) : Except Stop Display := do
  let v ← op.draw fuel { d.video with myScreenPos := d.saved op.target, written := [] }
  return ⟨v, Function.update d.saved op.target v.myScreenPos, d.log ++ [(op.target, v.written)]⟩

def DisplayStep (screens : Set Addr) (Allowed : Display → DisplayOp → Prop)
    (d d' : Display) : Prop :=
  ∃ op fuel, op.Asked screens ∧ Allowed d op ∧ d.run fuel op = .ok d'

/-- `p` is a cursor of the screen at `s`. -/
def OnScreen (s p : Nat) : Prop := s ≤ p ∧ (p - s) % 2 = 0 ∧ p ≤ s + (WINDOW_SIZE - 2)

/-- Every byte was written inside its screen, and the cursors are on their screens. -/
structure Display.Fine (screens : Set Addr) (d : Display) : Prop where
  inside : ∀ e ∈ d.log, ∀ a ∈ e.2, InScreen e.1 a
  video : OnScreen VIDEO d.video.currentPosition
  saved : ∀ s ∈ screens, OnScreen s (d.saved s)

/-- Valid cursors. -/
def Display.AtStart (screens : Set Addr) (d : Display) : Prop := d.Fine screens ∧ d.log = []

/-! ## One operation

Each operation draws on one screen and leaves its cursor there, unless it prints a tab without the
check. -/

namespace Video

variable {v v' : Video} {s : Nat} {cursor : CursorVar} {P : Page}

/-- The page in memory at `s`. -/
def page (v : Video) (s : Addr) (cursor : CursorVar) : Page :=
  ⟨fun i => v.char (s + i), v.pos cursor - s⟩

theorem OnScreen.shows (h : OnScreen s (v.pos cursor)) :
    v.Shows s cursor (v.page s cursor) ∧ (v.page s cursor).Valid := by
  obtain ⟨hle, heven, hlt⟩ := h
  replace hlt : v.pos cursor ≤ s + 3998 := hlt
  refine ⟨⟨fun _ _ => rfl, (Nat.add_sub_cancel' hle).symm⟩, heven, ?_⟩
  exact Nat.sub_lt_left_of_lt_add hle (Nat.lt_of_le_of_lt hlt (Nat.add_lt_add_left (by decide) s))

theorem Shows.onScreen_iff (h : v.Shows s cursor P) : OnScreen s (v.pos cursor) ↔ P.Valid := by
  rw [h.pos]
  show s ≤ s + P.cursor ∧ (s + P.cursor - s) % 2 = 0 ∧ s + P.cursor ≤ s + 3998 ↔
    P.cursor % 2 = 0 ∧ P.cursor < 4000
  omega

/-- From `v` to `v'` only the screen at `s` and its cursor change, and the cursor stays on it. -/
def Keeps (s : Addr) (cursor : CursorVar) (v v' : Video) : Prop :=
  Draws s cursor v v' ∧ OnScreen s (v'.pos cursor)

theorem keeps_print (string : List UInt8) : ∀ {v : Video}, OnScreen VIDEO v.currentPosition →
    Keeps VIDEO .currentPosition v (print v string) := by
  induction string with
  | nil => exact fun {v} h => ⟨.refl _ _ v, h⟩
  | cons c string ih =>
      intro v h
      obtain ⟨hshows, hvalid⟩ := @OnScreen.shows v _ .currentPosition h
      obtain ⟨hcell, hdraws₁⟩ := hshows.cell hvalid c
      obtain ⟨hcheck, hdraws₂⟩ := hcell.checkEndOfScreen
      have heven : ((v.page VIDEO .currentPosition).cell c).cursor % 2 = 0 := by
        have := hvalid.1
        show ((v.page VIDEO .currentPosition).cursor + 1 + 1) % 2 = 0
        omega
      obtain ⟨hdraws₃, hon⟩ := ih (hcheck.onScreen_iff.mpr (Page.check_valid heven))
      exact ⟨(hdraws₁.trans hdraws₂).trans hdraws₃, hon⟩

theorem keeps_newLine (h : OnScreen VIDEO v.currentPosition) :
    Keeps VIDEO .currentPosition v (newLine v) := by
  obtain ⟨hshows, -⟩ := @OnScreen.shows v _ .currentPosition h
  obtain ⟨hline, hdraws⟩ := hshows.myNewLine
  exact ⟨hdraws, hline.onScreen_iff.mpr (Page.newLine_valid _)⟩

/-- Every character that is no tab, and on the video screen every character. -/
theorem keeps_printCharactersInner (h : OnScreen s (v.pos cursor)) {c : UInt8}
    (hc : c = 9 → s = VIDEO ∧ cursor = .currentPosition) :
    Keeps s cursor v (printCharactersInner v c s cursor) := by
  obtain ⟨hshows, hvalid⟩ := OnScreen.shows h
  obtain ⟨hwrite, hdraws⟩ := hshows.printCharactersInner hvalid hc
  exact ⟨hdraws, hwrite.onScreen_iff.mpr (Page.write_valid hvalid c)⟩

theorem keeps_printCharacters (h : OnScreen VIDEO v.currentPosition) (c : UInt8) :
    Keeps VIDEO .currentPosition v (printCharacters v c) :=
  @keeps_printCharactersInner _ _ .currentPosition h _ fun _ => ⟨rfl, rfl⟩

theorem clear_draws (v : Video) (s : Nat) (cursor : CursorVar) : Draws s cursor v (clear v s) := by
  have hchar := fill_char (n := WINDOW_SIZE) (p := s)
    (c := fun _ i => if i % 2 = 1 then DEFAULT_COLOR else 32) (v := v) (g := Page.blank)
    fun _ _ _ _ => rfl
  exact ⟨fun a ha => (hchar a).trans (if_neg ha), fun a ha => fill_written v a ha,
    fun c _ => fill_pos v⟩

theorem clear_byte (v : Video) (s : Nat) {i : Nat} (hi : i < WINDOW_SIZE) :
    (clear v s).char (s + i) = Page.blank i := by
  have hchar := fill_char (n := WINDOW_SIZE) (p := s)
    (c := fun _ i => if i % 2 = 1 then DEFAULT_COLOR else 32) (v := v) (g := Page.blank)
    (fun _ _ _ _ => rfl) (s + i)
  rw [if_pos ⟨Nat.le_add_right _ _, Nat.add_lt_add_left hi s⟩, Nat.add_sub_cancel_left] at hchar
  exact hchar

theorem keeps_clearScreen (v : Video) : Keeps VIDEO .currentPosition v (clearScreen v) := by
  refine ⟨(clear_draws v VIDEO .currentPosition).trans (.setPos _ VIDEO), Nat.le_refl VIDEO, ?_, ?_⟩
  · show (VIDEO - VIDEO) % 2 = 0
    rw [Nat.sub_self]
  · exact Nat.le_add_right _ _

theorem countDigits_zero (length : Int) :
    Fuel.Returns Stop.outOfFuel (countDigits · 0 length) length :=
  Fuel.Returns.succ rfl (fun _ => if_pos rfl) (.const _ _)

theorem intLength_digit {number : Int} (hdiv : number.tdiv 10 = 0) :
    ∃ length ≤ 1, Fuel.Returns Stop.outOfFuel (intLength · number) length := by
  by_cases hzero : number = 0
  · subst hzero
    exact ⟨0, by decide, countDigits_zero 0⟩
  · refine ⟨1, le_refl 1, Fuel.Returns.succ rfl (fun _ => if_neg hzero) ?_⟩
    rw [hdiv]
    exact countDigits_zero (0 + 1)

/-- `printDec` prints a number of one digit like a character. -/
theorem printDec_digit {σ : Type} [PrintsOn σ] (v : σ) {number : Int} (hlo : -9 ≤ number)
    (hhi : number ≤ 9) : Fuel.Returns Stop.outOfFuel (printDec · v number)
      (PrintsOn.printCharacters v (digit number)) := by
  have hdiv : number.tdiv 10 = 0 := by
    rcases Int.le_total 0 number with hpos | hneg
    · exact Int.tdiv_eq_zero_of_lt hpos (by omega)
    · rw [← Int.neg_neg number, Int.neg_tdiv, Int.tdiv_eq_zero_of_lt (by omega) (by omega), Int.neg_zero]
  have hmod : number.tmod 10 = number := by
    have := Int.mul_tdiv_add_tmod number 10
    rw [hdiv] at this
    omega
  obtain ⟨length, hlength, hreturns⟩ := intLength_digit hdiv
  refine hreturns.bind ?_
  refine (walkWhile_stop (by rw [decide_eq_false (by omega)])).bind ?_
  refine Fuel.Returns.succ rfl (fun fuel => if_neg (by decide)) ?_
  rw [hmod]
  exact Fuel.Returns.succ rfl (fun _ => if_pos rfl) (.const _ _)

theorem printTab_onScreen_iff (h : OnScreen VIDEO v.currentPosition) :
    OnScreen VIDEO (printTab v).currentPosition ↔
      v.currentPosition < VIDEO + (WINDOW_SIZE - 16) := by
  obtain ⟨hshows, hvalid⟩ := @OnScreen.shows v _ .currentPosition h
  calc OnScreen VIDEO (printTab v).currentPosition
      ↔ (v.page VIDEO .currentPosition).tab.Valid := (hshows.printTab hvalid).1.onScreen_iff
    _ ↔ v.currentPosition - VIDEO < WINDOW_SIZE - 16 := Page.tab_valid_iff hvalid
    _ ↔ v.currentPosition < VIDEO + (WINDOW_SIZE - 16) := Nat.sub_lt_iff_lt_add' h.1

/-- A tab that is printed for a saved screen. -/
theorem tab_saved (h : OnScreen s v.myScreenPos) :
    printCharactersInner v 9 s .myScreenPos = printTab v := by
  have hpos : (printTab v).pos .myScreenPos = v.myScreenPos :=
    @pos_setPos_of_ne .currentPosition v _ _ (by decide)
  show checkEndOfScreen (printTab v) s .myScreenPos = printTab v
  unfold checkEndOfScreen
  rw [hpos, if_neg]
  exact Nat.not_le_of_lt (Nat.lt_of_le_of_lt h.2.2 (Nat.add_lt_add_left (by decide) s))

end Video

/-! ## Runs

After each operation the display is fine exactly if the tab, where there was one, has left the
cursor on the screen. -/

variable {screens : Set Addr} {d d' : Display}

/-- The video with the cursor of a screen, as the operation `op` finds it. -/
def Display.at (d : Display) (op : DisplayOp) : Video :=
  { d.video with myScreenPos := d.saved op.target, written := [] }

/-- The display after the operation has drawn. -/
def Display.drawn (d : Display) (op : DisplayOp) (v : Video) : Display :=
  ⟨v, Function.update d.saved op.target v.myScreenPos, d.log ++ [(op.target, v.written)]⟩

theorem Display.run_returns {op : DisplayOp} {v : Video}
    (h : Fuel.Returns Stop.outOfFuel (op.draw · (d.at op)) v) :
    Fuel.Returns Stop.outOfFuel (d.run · op) (d.drawn op v) :=
  h.bind (.const _ _)

/-- The operation has kept to the screen that it was meant for. -/
theorem Display.Fine.drawn (h : d.Fine screens) {op : DisplayOp} {v : Video} {cursor : CursorVar}
    (hdraws : Video.Draws op.target cursor (d.at op) v)
    (hvideo : OnScreen VIDEO v.currentPosition)
    (hsaved : op.target ∈ screens → OnScreen op.target v.myScreenPos) :
    (d.drawn op v).Fine screens := by
  constructor
  · intro e he a ha
    rcases List.mem_append.mp he with hold | hnew
    · exact h.inside e hold a ha
    · obtain rfl := List.mem_singleton.mp hnew
      exact (hdraws.written a ha).resolve_left List.not_mem_nil
  · exact hvideo
  · intro s hs
    show OnScreen s (Function.update d.saved op.target v.myScreenPos s)
    by_cases heq : s = op.target
    · subst heq
      rw [Function.update_self]
      exact hsaved hs
    · rw [Function.update_of_ne heq]
      exact h.saved s hs

/-- An operation on the video screen. -/
theorem Display.Fine.drawn_video (h : d.Fine screens) {op : DisplayOp} {v : Video}
    (htarget : op.target = VIDEO) (hkeeps : Video.Keeps VIDEO .currentPosition (d.at op) v) :
    (d.drawn op v).Fine screens := by
  obtain ⟨hdraws, hon⟩ := hkeeps
  have hlocal : v.myScreenPos = d.saved op.target := hdraws.other .myScreenPos (by decide)
  refine @Display.Fine.drawn _ _ h _ _ .currentPosition (htarget ▸ hdraws) hon fun hmem => ?_
  rw [hlocal]
  exact h.saved _ hmem

/-- An operation that only prints a tab on the video screen, without the check. -/
theorem Display.Fine.drawn_tab_iff (h : d.Fine screens) {op : DisplayOp} :
    (d.drawn op (printTab (d.at op))).Fine screens ↔
      d.video.currentPosition < VIDEO + (WINDOW_SIZE - 16) := by
  have hiff := @Video.printTab_onScreen_iff (d.at op) h.video
  constructor
  · exact fun hfine => hiff.mp hfine.video
  · intro hfits
    refine @Display.Fine.drawn _ _ h _ _ .currentPosition (.setPos _ _) (hiff.mpr hfits) fun hmem => ?_
    exact h.saved _ hmem

/-- What one operation does to a fine display: it ends, and leaves a fine display exactly if no
unchecked tab leaves the video screen. -/
theorem Display.Fine.run (h : d.Fine screens) {op : DisplayOp} (hop : op.Asked screens) :
    ∃ d', Fuel.Returns Stop.outOfFuel (d.run · op) d' ∧ (d'.Fine screens ↔ op.Fits d.video) := by
  have hvideo : OnScreen VIDEO (d.at op).currentPosition := h.video
  -- Only the two kinds of tabs depend on where the cursor is.
  cases op with
  | print string =>
      exact ⟨_, Display.run_returns (.const _ _),
        iff_of_true (h.drawn_video rfl (Video.keeps_print string hvideo)) trivial⟩
  | printDec number =>
      exact ⟨_, Display.run_returns (Video.printDec_digit _ hop.1 hop.2),
        iff_of_true (h.drawn_video rfl (Video.keeps_printCharacters hvideo _)) trivial⟩
  | printTab => exact ⟨_, Display.run_returns (.const _ _), h.drawn_tab_iff⟩
  | newLine =>
      exact ⟨_, Display.run_returns (.const _ _),
        iff_of_true (h.drawn_video rfl (Video.keeps_newLine hvideo)) trivial⟩
  | printCharacters character =>
      exact ⟨_, Display.run_returns (.const _ _),
        iff_of_true (h.drawn_video rfl (Video.keeps_printCharacters hvideo character)) trivial⟩
  | clearScreen =>
      exact ⟨_, Display.run_returns (.const _ _),
        iff_of_true (h.drawn_video rfl (Video.keeps_clearScreen _)) trivial⟩
  | printCharactersInner character s =>
      have hsaved : OnScreen s (d.at (.printCharactersInner character s)).myScreenPos := h.saved s hop
      refine ⟨_, Display.run_returns (.const _ _), ?_⟩
      -- A tab for a saved screen moves the video cursor, any other character the cursor of that
      -- screen.
      by_cases htab : character = 9
      · subst htab
        rw [Video.tab_saved hsaved, h.drawn_tab_iff]
        exact ⟨fun hlt _ => hlt, fun hfits => hfits rfl⟩
      · obtain ⟨hdraws, hon⟩ := @Video.keeps_printCharactersInner _ _ .myScreenPos hsaved _
          fun heq => absurd heq htab
        refine iff_of_true (h.drawn hdraws ?_ fun _ => hon) fun heq => absurd heq htab
        have hother : Video.currentPosition _ = (d.at _).currentPosition :=
          hdraws.other .currentPosition (by decide)
        rw [hother]
        exact hvideo

theorem cursor_stays
    (h : Reachable (Display.AtStart screens) (DisplayStep screens fun d op => op.Fits d.video) d) :
    d.Fine screens ∧ ∀ op : DisplayOp, op.Asked screens →
      ∃ d', Fuel.Returns Stop.outOfFuel (d.run · op) d' ∧ (d'.Fine screens ↔ op.Fits d.video) := by
  have hfine : d.Fine screens := by
    refine h.invariant (I := fun d => d.Fine screens) (fun d hd => hd.1) fun d d' _ hd hstep => ?_
    obtain ⟨op, fuel, hop, hfits, hrun⟩ := hstep
    obtain ⟨d₁, hreturns, hiff⟩ := hd.run hop
    rw [hreturns.eq hrun]
    exact hiff.mpr hfits
  exact ⟨hfine, fun op hop => hfine.run hop⟩

/-- Blank video memory, and the cursor at the offset `n`. -/
def Display.blankAt (n : Nat) : Display := ⟨⟨fun _ => 32, VIDEO + n, NULL, []⟩, fun s => s, []⟩

theorem Display.blankAt_atStart {n : Nat} (heven : n % 2 = 0) (hle : n ≤ WINDOW_SIZE - 2) :
    (Display.blankAt n).AtStart ∅ := by
  refine ⟨⟨fun e he => absurd he List.not_mem_nil, ⟨Nat.le_add_right _ _, ?_, ?_⟩, ?_⟩, rfl⟩
  · show (VIDEO + n - VIDEO) % 2 = 0
    rw [Nat.add_sub_cancel_left, heven]
  · exact Nat.add_le_add_left hle VIDEO
  · exact fun s hs => absurd hs (Set.notMem_empty s)

/-- `printTab` in the last column of the last row. -/
theorem tab_leaves_screen :
    ¬ ∀ (screens : Set Addr) (d : Display),
      Reachable (Display.AtStart screens) (DisplayStep screens fun _ _ => True) d →
        d.Fine screens := by
  intro hclaim
  have hstart := Display.blankAt_atStart (n := 3998) rfl (by decide)
  have hstep : DisplayStep ∅ (fun _ _ => True) (Display.blankAt 3998)
      ((Display.blankAt 3998).drawn .printTab (printTab ((Display.blankAt 3998).at .printTab))) :=
    ⟨.printTab, 0, trivial, trivial, rfl⟩
  have hlt := hstart.1.drawn_tab_iff.mp (hclaim ∅ _ (.next (.start hstart) hstep))
  exact absurd hlt (by decide)

theorem cursor_stays_tab :
    ((Display.blankAt 0).drawn .printTab (printTab ((Display.blankAt 0).at .printTab))).Fine ∅ := by
  have hstep : DisplayStep ∅ (fun d op => op.Fits d.video) (Display.blankAt 0)
      ((Display.blankAt 0).drawn .printTab (printTab ((Display.blankAt 0).at .printTab))) :=
    ⟨.printTab, 0, trivial, show VIDEO + 0 < VIDEO + (WINDOW_SIZE - 16) by decide, rfl⟩
  exact (cursor_stays (.next (.start (Display.blankAt_atStart rfl (Nat.zero_le _))) hstep)).1

end BasicKernel
