import BasicKernel.Screen.Reachable
import BasicKernel.Screen.Cursor

set_option autoImplicit false

/-! # Output of a process that is not on focus

Such a process writes on its own saved screen. What it writes stays there unless it contains a tab,
which moves the video cursor. The calls that clear the screen and print the processes do not ask who
is on focus.

`write_onFocus` and `RepScreens.write_offFocus` are the two cases of a write. The modules on runs
and on switches use them.
-/

namespace BasicKernel

open Linked Fuel Transition

/-! ## Strings

A string up to its first 0, written at any screen. A tab goes to the cursor of the video screen in
any case. -/

/-- The page after a string, up to its first 0. -/
def Page.text (P : Page) : List UInt8 → Page
  | [] => P
  | c :: w => if c = 0 then P else (P.write c).text w

/-- No tab is in front of the first 0. -/
def NoTab (w : List UInt8) : Prop := 9 ∉ w.takeWhile (· ≠ 0)

instance (w : List UInt8) : Decidable (NoTab w) := by unfold NoTab; infer_instance

theorem noTab_cons_iff {c : UInt8} (hc : c ≠ 0) (w : List UInt8) :
    NoTab (c :: w) ↔ c ≠ 9 ∧ NoTab w := by
  unfold NoTab
  rw [List.takeWhile_cons_of_pos (by simpa using hc), List.mem_cons, not_or]
  exact and_congr_left fun _ => ne_comm

namespace Video

variable {v : Video} {s : Nat} {P : Page}

theorem writeTo_shows (w : List UInt8) : ∀ {v : Video} {P : Page}, v.Shows s .myScreenPos P →
    P.Valid → NoTab w → (writeTo s v w).2.Shows s .myScreenPos (P.text w) ∧ (P.text w).Valid ∧
      Draws s .myScreenPos v (writeTo s v w).2 := by
  induction w with
  | nil => exact fun {v P} h hP _ => ⟨h, hP, .refl _ _ v⟩
  | cons c w ih =>
      intro v P h hP htab
      unfold writeTo Page.text
      by_cases hc : c = 0
      · rw [if_pos hc, if_pos hc]
        exact ⟨h, hP, .refl _ _ v⟩
      rw [if_neg hc, if_neg hc]
      obtain ⟨hne, htab'⟩ := (noTab_cons_iff hc w).mp htab
      obtain ⟨h₁, hdraws₁⟩ := h.printCharactersInner hP fun heq => absurd heq hne
      obtain ⟨h₂, hP₂, hdraws₂⟩ := ih h₁ (Page.write_valid hP c) htab'
      exact ⟨h₂, hP₂, hdraws₁.trans hdraws₂⟩

theorem writeToVideo_shows (w : List UInt8) : ∀ {v : Video} {P : Page},
    v.Shows VIDEO .currentPosition P → P.Valid →
    (writeToVideo v w).2.Shows VIDEO .currentPosition (P.text w) ∧ (P.text w).Valid ∧
      Draws VIDEO .currentPosition v (writeToVideo v w).2 := by
  induction w with
  | nil => exact fun {v P} h hP => ⟨h, hP, .refl _ _ v⟩
  | cons c w ih =>
      intro v P h hP
      unfold writeToVideo Page.text
      by_cases hc : c = 0
      · rw [if_pos hc, if_pos hc]
        exact ⟨h, hP, .refl _ _ v⟩
      rw [if_neg hc, if_neg hc]
      obtain ⟨h₁, hdraws₁⟩ := h.printCharactersInner hP (c := c) fun _ => ⟨rfl, rfl⟩
      obtain ⟨h₂, hP₂, hdraws₂⟩ := ih h₁ (Page.write_valid hP c)
      exact ⟨h₂, hP₂, hdraws₁.trans hdraws₂⟩

/-- A tab always moves the video cursor on. -/
theorem printTab_moves (v : Video) : v.currentPosition + 2 ≤ (printTab v).currentPosition ∧
    (printTab v).currentPosition ≤ v.currentPosition + 46 := by
  have hpos : (printTab v).currentPosition = ((v.currentPosition : Int) + (12 -
      (((toInt32 ((v.currentPosition : Int) - VIDEO)).tdiv 2).tmod 80).tmod 12) * 2).toNat := rfl
  rw [hpos]
  generalize ((toInt32 ((v.currentPosition : Int) - VIDEO)).tdiv 2).tmod 80 = column
  have hlo := Int.lt_tmod_of_pos column (b := 12) (by decide)
  have hhi := Int.tmod_lt_of_pos column (b := 12) (by decide)
  generalize column.tmod 12 = rest at *
  have hmoves : ∀ cursor : Nat, cursor + 2 ≤ ((cursor : Int) + (12 - rest) * 2).toNat ∧
      ((cursor : Int) + (12 - rest) * 2).toNat ≤ cursor + 46 := by
    omega
  exact hmoves v.currentPosition

/-- The screen at `s` keeps its cursor, and the video cursor moves exactly if there is a tab. -/
theorem writeTo_cursors (w : List UInt8) : ∀ {v : Video}, OnScreen s v.myScreenPos →
    OnScreen s (writeTo s v w).2.myScreenPos ∧
      v.currentPosition ≤ (writeTo s v w).2.currentPosition ∧
      (writeTo s v w).2.currentPosition ≤ v.currentPosition + 46 * w.length ∧
      ((writeTo s v w).2.currentPosition = v.currentPosition ↔ NoTab w) := by
  -- By induction on the text, which ends at the first 0.
  induction w with
  | nil => exact fun {v} h => ⟨h, Nat.le_refl _, Nat.le_refl _, iff_of_true rfl List.not_mem_nil⟩
  | cons c w ih =>
      intro v h
      unfold writeTo
      by_cases hc : c = 0
      · subst hc
        rw [if_pos rfl]
        exact ⟨h, Nat.le_refl _, Nat.le_add_right _ _, iff_of_true rfl List.not_mem_nil⟩
      rw [if_neg hc]
      dsimp only
      -- A tab moves the video cursor, and nothing moves it back.
      by_cases htab : c = 9
      · subst htab
        rw [tab_saved h, noTab_cons_iff hc]
        obtain ⟨hmoves, hle⟩ := printTab_moves v
        have hlt := Nat.lt_of_succ_lt (Nat.lt_of_succ_le hmoves)
        have hlocal : (printTab v).myScreenPos = v.myScreenPos :=
          @pos_setPos_of_ne .currentPosition v _ .myScreenPos (by decide)
        obtain ⟨hon, hmono, hbound, -⟩ := ih (v := printTab v) (by rw [hlocal]; exact h)
        refine ⟨hon, Nat.le_trans (Nat.le_of_lt hlt) hmono, ?_, ?_⟩
        · refine Nat.le_trans hbound ?_
          rw [List.length_cons, Nat.mul_succ, Nat.add_comm (46 * w.length), ← Nat.add_assoc]
          exact Nat.add_le_add_right hle _
        · exact iff_of_false (Nat.ne_of_gt (Nat.lt_of_lt_of_le hlt hmono)) fun hno => hno.1 rfl
      -- Any other character is drawn on the saved screen.
      · rw [noTab_cons_iff hc]
        obtain ⟨hdraws, hon₁⟩ := @keeps_printCharactersInner _ _ .myScreenPos h _
          fun heq => absurd heq htab
        have hother : (printCharactersInner v c s .myScreenPos).currentPosition = v.currentPosition :=
          hdraws.other .currentPosition (by decide)
        obtain ⟨hon, hmono, hbound, hiff⟩ := ih hon₁
        rw [hother] at hmono hbound hiff
        refine ⟨hon, hmono, Nat.le_trans hbound ?_, hiff.trans ?_⟩
        · exact Nat.add_le_add_left (Nat.mul_le_mul_left 46 (Nat.le_succ _)) _
        · exact ⟨fun hno => ⟨htab, hno⟩, fun hno => hno.2⟩

/-- A string of tabs. -/
theorem writeTo_tabs (n : Nat) : ∀ {v : Video}, OnScreen s v.myScreenPos →
    v.currentPosition + 2 * n ≤ (writeTo s v (List.replicate n 9)).2.currentPosition := by
  induction n with
  | zero => exact fun {v} _ => Nat.le_refl v.currentPosition
  | succ n ih =>
      intro v h
      have hlocal : (printTab v).myScreenPos = v.myScreenPos :=
        @pos_setPos_of_ne .currentPosition v _ .myScreenPos (by decide)
      have hrest := @ih (printTab v) (by rw [hlocal]; exact h)
      have hmoves := (printTab_moves v).1
      show v.currentPosition + 2 * (n + 1) ≤
        (writeTo s (printCharactersInner v 9 s .myScreenPos) (List.replicate n 9)).2.currentPosition
      rw [tab_saved h]
      calc v.currentPosition + 2 * (n + 1) = v.currentPosition + 2 + 2 * n := by
            rw [Nat.mul_succ, Nat.add_comm (2 * n), Nat.add_assoc]
        _ ≤ (printTab v).currentPosition + 2 * n := Nat.add_le_add_right hmoves _
        _ ≤ _ := hrest

/-- Only the screen at `s` is written, also if there are tabs. -/
theorem writeTo_char (w : List UInt8) : ∀ {v : Video}, OnScreen s v.myScreenPos →
    ∀ a : Nat, ¬ InScreen s a → (writeTo s v w).2.char a = v.char a := by
  induction w with
  | nil => exact fun {v} _ a _ => rfl
  | cons c w ih =>
      intro v h a ha
      unfold writeTo
      by_cases hc : c = 0
      · rw [if_pos hc]
      rw [if_neg hc]
      dsimp only
      by_cases htab : c = 9
      · subst htab
        rw [tab_saved h]
        have hlocal : (printTab v).myScreenPos = v.myScreenPos :=
          @pos_setPos_of_ne .currentPosition v _ .myScreenPos (by decide)
        exact ih (v := printTab v) (by rw [hlocal]; exact h) a ha
      · obtain ⟨hdraws, hon⟩ := @keeps_printCharactersInner _ _ .myScreenPos h _
          fun heq => absurd heq htab
        exact (ih hon a ha).trans (hdraws.char a ha)

end Video

/-! ## Writing on and off focus

On focus a string goes to the video screen, and off focus to the node of the process. -/

variable {m m' : Machine} {xs : List Addr} {others : List (Addr × Nat)} {pid : Int} {x : Addr}

theorem isCurrentProcessOnFocus_eq (hcur : getCurrentPid m.kernel = .ok pid) :
    isCurrentProcessOnFocus m = .ok (decide (m.onFocusPid = pid)) := by
  unfold isCurrentProcessOnFocus
  rw [hcur]
  rfl

theorem write_onFocus (hcur : getCurrentPid m.kernel = .ok pid) (hon : m.onFocusPid = pid)
    (fuel : Nat) (w : List UInt8) : write fuel m w =
      .ok ((writeToVideo m.video w).1, { m with video := (writeToVideo m.video w).2 }) := by
  unfold write
  rw [isCurrentProcessOnFocus_eq hcur, decide_eq_true hon]
  rfl

/-- The node `x` after its process has written `w` off focus. -/
def Machine.written (m : Machine) (x : Addr) (w : List UInt8) : Nat × Machine :=
  let n := m.screenNode x
  let (i, video) := writeTo n.screen { m.video with myScreenPos := n.currentPosition } w
  (i, { m with
    video
    screenNode := Function.update m.screenNode x { n with currentPosition := video.myScreenPos } })

theorem RepScreens.setCurrentScreenPosition (h : RepScreens m xs others) (hx : x ∈ xs)
    (hcur : getCurrentPid m.kernel = .ok (m.screenNode x).pid) (p : Addr) :
    Returns (setCurrentScreenPosition · m p) { m with
      screenNode := Function.update m.screenNode x { m.screenNode x with currentPosition := p } } := by
  unfold BasicKernel.setCurrentScreenPosition
  refine (h.getCurrentScreenNode_of_mem hx hcur).bind ?_
  simp only [Machine.modifyScreenNode_of_ne (h.ne_null hx)]
  exact .const _ _

theorem RepScreens.write_offFocus (h : RepScreens m xs others) (hx : x ∈ xs)
    (hcur : getCurrentPid m.kernel = .ok (m.screenNode x).pid)
    (hoff : m.onFocusPid ≠ (m.screenNode x).pid) (w : List UInt8) :
    Returns (write · m w) (m.written x w) := by
  -- The process has a screen, so that its node, the page and the cursor are all found.
  have hnode := h.getCurrentScreenNode_of_mem hx hcur
  have hne := h.ne_null hx
  have hscreen : Returns (getCurrentScreen · m) ((m.screenNode x).screen, m) := by
    unfold getCurrentScreen
    refine hnode.bind ?_
    simp only [if_neg hne, load_of_ne hne]
    exact .const _ _
  have hpos : Returns (getCurrentScreenPosition · m) ((m.screenNode x).currentPosition, m) := by
    unfold getCurrentScreenPosition
    refine hnode.bind ?_
    simp only [if_neg hne, load_of_ne hne]
    exact .const _ _
  -- The new cursor is stored in the node.
  have hset := (h.withVideo (writeTo (m.screenNode x).screen { m.video with
    myScreenPos := (m.screenNode x).currentPosition } w).2).setCurrentScreenPosition hx hcur
      (writeTo (m.screenNode x).screen { m.video with
        myScreenPos := (m.screenNode x).currentPosition } w).2.myScreenPos
  unfold write
  simp only [isCurrentProcessOnFocus_eq hcur, decide_eq_false hoff, ok_bind, Bool.false_eq_true,
    if_false]
  exact hscreen.bind (hpos.bind (hset.bind (.const _ _)))

end BasicKernel
