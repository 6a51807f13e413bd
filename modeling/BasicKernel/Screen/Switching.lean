import BasicKernel.Screen.Background

set_option autoImplicit false

/-! # Writing before and after a switch

A process that is not on focus writes on its saved screen, and on focus it writes on the video
screen. Whether its screen is shown before or after that makes no difference, unless it prints tabs.

`writing_commutes` says so for strings without tabs, and when a tab does make a difference.
`tab_does_not_commute` is one that does.
-/

namespace BasicKernel

open Linked Fuel Transition

/-! ## Copies of screens

A screen is copied as a whole, with its cursor as a distance. -/

instance (s a : Nat) : Decidable (InScreen s a) := inferInstanceAs (Decidable (_ ∧ _))

namespace Video

variable {v : Video} {s p : Nat} {P : Page}

/-- A copy between two screens that have no byte in common. -/
theorem copy_char {src dst : Nat} (v : Video)
    (hdisjoint : ∀ a : Nat, InScreen src a → ¬ InScreen dst a) (a : Nat) :
    (v.fill dst (fun v i => v.char (src + i)) WINDOW_SIZE).char a =
      if InScreen dst a then v.char (src + (a - dst)) else v.char a := by
  refine fill_char (g := fun i => v.char (src + i)) (fun i hi w hw => hw _ ?_) a
  rintro ⟨hle, hlt⟩
  exact hdisjoint (src + i) (inScreen_add src hi)
    ⟨hle, Nat.lt_trans hlt (Nat.add_lt_add_left hi dst)⟩

theorem copy_byte {src dst : Nat} (v : Video)
    (hdisjoint : ∀ a : Nat, InScreen src a → ¬ InScreen dst a) {i : Nat} (hi : i < WINDOW_SIZE) :
    (v.fill dst (fun v i => v.char (src + i)) WINDOW_SIZE).char (dst + i) = v.char (src + i) := by
  rw [copy_char v hdisjoint, if_pos (inScreen_add dst hi), Nat.add_sub_cancel_left]

theorem char_setScreen (v : Video) (s p : Addr) : (setScreen v s p).char =
    (v.fill VIDEO (fun v i => v.char (s + i)) WINDOW_SIZE).char := rfl

theorem char_backupContent (v : Video) (s : Addr) : (backupContent v s).2.char =
    (v.fill s (fun v i => v.char (VIDEO + i)) WINDOW_SIZE).char := rfl

/-- `setScreen` shows the saved page. -/
theorem setScreen_shows (v : Video) (hdisjoint : ∀ a : Nat, InScreen s a → ¬ InScreen VIDEO a)
    (hbyte : ∀ i < WINDOW_SIZE, v.char (s + i) = P.byte i) (hon : OnScreen s p)
    (hpos : p = s + P.cursor) : (setScreen v s p).Shows VIDEO .currentPosition P := by
  constructor
  · intro i hi
    rw [char_setScreen, copy_byte v hdisjoint hi]
    exact hbyte i hi
  · show (setScreen v s p).currentPosition = VIDEO + P.cursor
    rw [setScreen_pos v hon, hpos, Nat.add_sub_cancel_left]

theorem setScreen_char (v : Video) (hdisjoint : ∀ a : Nat, InScreen s a → ¬ InScreen VIDEO a) (p : Addr)
    {a : Nat} (ha : ¬ InScreen VIDEO a) : (setScreen v s p).char a = v.char a := by
  rw [char_setScreen, copy_char v hdisjoint, if_neg ha]

end Video

/-! ## The saved screens -/

variable {m m' m₁ : Machine} {xs : List Addr} {others : List (Addr × Nat)} {pid : Int} {x y : Addr}

/-- What `saveScreen` does to the bytes and to the nodes of the list. The screen of the process on
focus becomes that of the video memory. -/
structure Machine.SavesTo (m m₁ : Machine) (xs : List Addr) : Prop where
  video : ∀ i < WINDOW_SIZE, m₁.video.char (VIDEO + i) = m.video.char (VIDEO + i)
  pos : m₁.video.currentPosition = m.video.currentPosition
  focusByte : ∀ y ∈ xs, (m.screenNode y).pid = m.onFocusPid → ∀ i < WINDOW_SIZE,
    m₁.video.char ((m.screenNode y).screen + i) = m.video.char (VIDEO + i)
  focusNode : ∀ y ∈ xs, (m.screenNode y).pid = m.onFocusPid →
    m₁.screenNode y = { m.screenNode y with
      currentPosition := (backupContent m.video (m.screenNode y).screen).1 }
  byte : ∀ y ∈ xs, (m.screenNode y).pid ≠ m.onFocusPid → ∀ i < WINDOW_SIZE,
    m₁.video.char ((m.screenNode y).screen + i) = m.video.char ((m.screenNode y).screen + i)
  node : ∀ y ∈ xs, (m.screenNode y).pid ≠ m.onFocusPid → m₁.screenNode y = m.screenNode y
  rest : m₁.kernel = m.kernel ∧ m₁.list = m.list ∧ m₁.nextScreen = m.nextScreen

theorem RepScreens.savesTo (h : RepScreens m xs others)
    (hinit : m.kernel.memory.initMem = 0x1000000) (hs : m.Saved xs m₁) : m.SavesTo m₁ xs := by
  cases hs with
  -- With nobody on focus nothing is saved, and no owner has that number.
  | nobody hfocus =>
      have hno : ∀ y ∈ xs, (m.screenNode y).pid ≠ m.onFocusPid := by
        intro y hy heq
        have hpid := h.pid_nonneg y hy
        rw [heq, hfocus] at hpid
        exact absurd hpid (by decide)
      exact ⟨fun _ _ => rfl, rfl, fun y hy heq => absurd heq (hno y hy),
        fun y hy heq => absurd heq (hno y hy), fun _ _ _ _ _ => rfl, fun _ _ _ => rfl, rfl, rfl, rfl⟩
  -- The video screen is copied to the page of its owner, which is apart from all the others.
  | @node f hf hfocus =>
      have hdisjoint : ∀ a : Nat, InScreen VIDEO a → ¬ InScreen (m.screenNode f).screen a :=
        fun a ha => h.video_notMem hinit hf ha
      have hne : ∀ y ∈ xs, (m.screenNode y).pid ≠ m.onFocusPid → y ≠ f :=
        fun y _ hy heq => hy (heq ▸ hfocus)
      have heq : ∀ y ∈ xs, (m.screenNode y).pid = m.onFocusPid → y = f :=
        fun y hy hpid => h.node_inj hy hf (hpid.trans hfocus.symm)
      have hcopy : (m.save f).video.char = _ :=
        Video.char_backupContent m.video (m.screenNode f).screen
      have hchar : ∀ a : Nat, ¬ InScreen (m.screenNode f).screen a →
          (m.save f).video.char a = m.video.char a := by
        intro a ha
        rw [hcopy, Video.copy_char m.video hdisjoint, if_neg ha]
      refine ⟨fun i hi => ?_, @Video.fill_pos _ .currentPosition _ _ m.video,
        fun y hy hpid i hi => ?_, fun y hy hpid => ?_, fun y hy hpid i hi => ?_,
        fun y hy hpid => Function.update_of_ne (hne y hy hpid) _ _, rfl, rfl, ?_⟩
      · exact hchar _ (hdisjoint _ (inScreen_add VIDEO hi))
      · rw [heq y hy hpid, hcopy, Video.copy_byte m.video hdisjoint hi]
      · rw [heq y hy hpid]
        exact Function.update_self ..
      · exact hchar _ (h.screen_notMem hy hf (hne y hy hpid) (inScreen_add _ hi))
      · funext y
        obtain ⟨p, hnode⟩ := m.save_node f y
        unfold Machine.nextScreen
        rw [hnode]

theorem Machine.SavesTo.screen (hs : m.SavesTo m₁ xs) (hy : y ∈ xs) :
    (m₁.screenNode y).screen = (m.screenNode y).screen := by
  by_cases hfocus : (m.screenNode y).pid = m.onFocusPid
  · rw [hs.focusNode y hy hfocus]
  · rw [hs.node y hy hfocus]

/-- The node `x` is shown: the video screen has its page, and the saved screens stay. -/
theorem RepScreens.display_shows (h : RepScreens m xs others)
    (hinit : m.kernel.memory.initMem = 0x1000000) (hs : m.SavesTo m₁ xs) (hx : x ∈ xs)
    (hoff : (m.screenNode x).pid ≠ m.onFocusPid) {P : Page} (hP : P.Valid)
    (hbyte : ∀ i < WINDOW_SIZE, m.video.char ((m.screenNode x).screen + i) = P.byte i)
    (hpos : (m.screenNode x).currentPosition = (m.screenNode x).screen + P.cursor) (pid : Int) :
    (m₁.display x pid).video.Shows VIDEO .currentPosition P ∧
      ∀ y ∈ xs, ∀ i < WINDOW_SIZE, (m₁.display x pid).video.char ((m.screenNode y).screen + i) =
        m₁.video.char ((m.screenNode y).screen + i) := by
  -- The page to show and the video memory are apart, so the copy is one of bytes.
  have hdisjoint : ∀ y ∈ xs, ∀ a : Nat, InScreen (m.screenNode y).screen a → ¬ InScreen VIDEO a :=
    fun y hy a ha hvideo => h.video_notMem hinit hy hvideo ha
  have hon : OnScreen (m.screenNode x).screen (m.screenNode x).currentPosition := by
    rw [hpos]
    exact onScreen_add _ hP.1 hP.2
  have hvideo : (m₁.display x pid).video =
      setScreen m₁.video (m.screenNode x).screen (m.screenNode x).currentPosition := by
    rw [← hs.node x hx hoff]
    rfl
  rw [hvideo]
  constructor
  · refine Video.setScreen_shows _ (hdisjoint x hx) (fun i hi => ?_) hon hpos
    rw [hs.byte x hx hoff i hi]
    exact hbyte i hi
  · intro y hy i hi
    exact Video.setScreen_char _ (hdisjoint x hx) _ (hdisjoint y hy _ (inScreen_add _ hi))

/-! ## The two orders -/

/-- A process writes, and then its screen is shown. -/
def writeThenLoad (fuel : Nat) (m : Machine) (pid : Int) (buf : List UInt8) : Except Stop Machine := do
  let (_, m) ← write fuel m buf
  return (← loadScreen fuel m pid).2

/-- Its screen is shown, and then the process writes. -/
def loadThenWrite (fuel : Nat) (m : Machine) (pid : Int) (buf : List UInt8) : Except Stop Machine := do
  let (_, m) ← loadScreen fuel m pid
  return (← write fuel m buf).2

/-- The same is seen, and the same is saved of the other processes. -/
structure Machine.SameView (m m' : Machine) (pid : Int) : Prop where
  byte : ∀ i < WINDOW_SIZE, m'.video.char (VIDEO + i) = m.video.char (VIDEO + i)
  cursor : m'.video.currentPosition = m.video.currentPosition
  focus : m'.onFocusPid = m.onFocusPid
  isScreen : ∀ y, m'.IsScreen y ↔ m.IsScreen y
  node : ∀ y, m.IsScreen y → (m.screenNode y).pid ≠ pid → m'.screenNode y = m.screenNode y
  saved : ∀ y, m.IsScreen y → (m.screenNode y).pid ≠ pid → ∀ i < WINDOW_SIZE,
    m'.video.char ((m.screenNode y).screen + i) = m.video.char ((m.screenNode y).screen + i)

namespace RepScreens

variable {w : List UInt8}

theorem written (h : RepScreens m xs others) (x : Addr) (w : List UInt8) :
    RepScreens (m.written x w).2 xs others :=
  (h.setCursor x (m.written x w).2.video.myScreenPos).withVideo (m.written x w).2.video

theorem written_self (m : Machine) (x : Addr) (w : List UInt8) : ∃ p,
    (m.written x w).2.screenNode x = { m.screenNode x with currentPosition := p } :=
  ⟨_, Function.update_self ..⟩

theorem written_of_ne (m : Machine) (hne : y ≠ x) (w : List UInt8) :
    (m.written x w).2.screenNode y = m.screenNode y :=
  Function.update_of_ne hne _ _

theorem written_screen (m : Machine) (x y : Addr) (w : List UInt8) :
    ((m.written x w).2.screenNode y).screen = (m.screenNode y).screen := by
  by_cases hyx : y = x
  · obtain ⟨p, hnode⟩ := written_self m x w
    rw [hyx, hnode]
  · rw [written_of_ne m hyx]

theorem written_pid (m : Machine) (x y : Addr) (w : List UInt8) :
    ((m.written x w).2.screenNode y).pid = (m.screenNode y).pid := by
  by_cases hyx : y = x
  · obtain ⟨p, hnode⟩ := written_self m x w
    rw [hyx, hnode]
  · rw [written_of_ne m hyx]

theorem writeThenLoad (h : RepScreens m xs others) (hx : x ∈ xs)
    (hcur : getCurrentPid m.kernel = .ok (m.screenNode x).pid)
    (hoff : m.onFocusPid ≠ (m.screenNode x).pid) (w : List UInt8) :
    ∃ m₁, (m.written x w).2.Saved xs m₁ ∧
      Returns (BasicKernel.writeThenLoad · m (m.screenNode x).pid w)
        (m₁.display x (m.screenNode x).pid) ∧
      RepScreens (m₁.display x (m.screenNode x).pid) xs others := by
  obtain ⟨m₁, hsaved, hload, hrep⟩ := (h.written x w).loadScreen_of_mem hx
  rw [written_pid] at hload hrep
  exact ⟨m₁, hsaved, (h.write_offFocus hx hcur hoff w).bind (hload.bind (.const _ _)), hrep⟩

theorem loadThenWrite (h : RepScreens m xs others) (hx : x ∈ xs)
    (hcur : getCurrentPid m.kernel = .ok (m.screenNode x).pid) (w : List UInt8) :
    ∃ m₁, m.Saved xs m₁ ∧
      Returns (BasicKernel.loadThenWrite · m (m.screenNode x).pid w)
        { m₁.display x (m.screenNode x).pid with
          video := (writeToVideo (m₁.display x (m.screenNode x).pid).video w).2 } ∧
      RepScreens (m₁.display x (m.screenNode x).pid) xs others := by
  obtain ⟨m₁, hsaved, hload, hrep⟩ := h.loadScreen_of_mem hx
  have hcur₁ : getCurrentPid (m₁.display x (m.screenNode x).pid).kernel = .ok (m.screenNode x).pid := by
    have hkernel : (m₁.display x (m.screenNode x).pid).kernel = m.kernel := hsaved.kernel
    rw [hkernel, hcur]
  refine ⟨m₁, hsaved, hload.bind ?_, hrep⟩
  simp only [write_onFocus hcur₁ rfl]
  exact .const _ _

section Orders

variable {m₂ : Machine} {pid : Int}

/-- The screens of the other processes are saved alike in both orders, if the video cursor has not
moved. -/
theorem saved_agree (h : RepScreens m xs others) (hinit : m.kernel.memory.initMem = 0x1000000)
    (hc : m.CursorsIn xs) (hx : x ∈ xs)
    (hcursor : (m.written x w).2.video.currentPosition = m.video.currentPosition)
    (hs₁ : (m.written x w).2.SavesTo m₁ xs) (hs₂ : m.SavesTo m₂ xs) (hy : y ∈ xs) (hne : y ≠ x) :
    m₂.screenNode y = m₁.screenNode y ∧ ∀ i < WINDOW_SIZE,
      m₂.video.char ((m.screenNode y).screen + i) = m₁.video.char ((m.screenNode y).screen + i) := by
  have hchar : ∀ a : Nat, ¬ InScreen (m.screenNode x).screen a →
      (m.written x w).2.video.char a = m.video.char a :=
    Video.writeTo_char w (v := { m.video with myScreenPos := (m.screenNode x).currentPosition })
      (hc.saved x hx)
  have hnode := written_of_ne m hne w
  -- The process on focus is saved from the video screen, which the write has left alone.
  by_cases hfocus : (m.screenNode y).pid = m.onFocusPid
  · have hfocus' : ((m.written x w).2.screenNode y).pid = (m.written x w).2.onFocusPid := by
      rw [hnode]
      exact hfocus
    constructor
    · have hbackup : (backupContent (m.written x w).2.video (m.screenNode y).screen).1 =
          (backupContent m.video (m.screenNode y).screen).1 := by
        unfold backupContent
        dsimp only
        rw [hcursor]
      rw [hs₁.focusNode y hy hfocus', hs₂.focusNode y hy hfocus, hnode, hbackup]
    · intro i hi
      have hbyte := hs₁.focusByte y hy hfocus' i hi
      rw [written_screen] at hbyte
      rw [hbyte, hs₂.focusByte y hy hfocus i hi]
      exact (hchar _ (h.video_notMem hinit hx (inScreen_add VIDEO hi))).symm
  -- Any other page is neither saved nor written.
  · have hfocus' : ((m.written x w).2.screenNode y).pid ≠ (m.written x w).2.onFocusPid := by
      rw [hnode]
      exact hfocus
    constructor
    · rw [hs₁.node y hy hfocus', hs₂.node y hy hfocus, hnode]
    · intro i hi
      have hbyte := hs₁.byte y hy hfocus' i hi
      rw [written_screen] at hbyte
      rw [hbyte, hs₂.byte y hy hfocus i hi]
      exact (hchar _ (h.screen_notMem hy hx hne (inScreen_add _ hi))).symm

/-- The node `y` is that of another process. -/
theorem ne_of_display (hs₁ : (m.written x w).2.SavesTo m₁ xs) (hx : x ∈ xs)
    (hpid : (m.screenNode x).pid = pid) (hoff : m.onFocusPid ≠ pid)
    (hne : ((m₁.display x pid).screenNode y).pid ≠ pid) : y ≠ x := by
  rintro rfl
  apply hne
  show (m₁.screenNode y).pid = pid
  have hfocus : ((m.written y w).2.screenNode y).pid ≠ (m.written y w).2.onFocusPid := by
    rw [written_pid, hpid]
    exact hoff.symm
  rw [hs₁.node y hx hfocus, written_pid, hpid]

/-- Without a tab both orders give the same view. -/
theorem sameView (h : RepScreens m xs others) (hinit : m.kernel.memory.initMem = 0x1000000)
    (hc : m.CursorsIn xs) (hx : x ∈ xs) (hpid : (m.screenNode x).pid = pid)
    (hoff : m.onFocusPid ≠ pid) (htab : NoTab w)
    (hs₁ : (m.written x w).2.Saved xs m₁) (hs₂ : m.Saved xs m₂)
    (hrep₁ : RepScreens (m₁.display x pid) xs others)
    (hrep₂ : RepScreens (m₂.display x pid) xs others) :
    (m₁.display x pid).SameView { m₂.display x pid with
      video := (writeToVideo (m₂.display x pid).video w).2 } pid := by
  have hon := hc.saved x hx
  -- the page before and after the string
  obtain ⟨hshows, hvalid⟩ := @Video.OnScreen.shows
    { m.video with myScreenPos := (m.screenNode x).currentPosition } _ .myScreenPos hon
  generalize hP : Video.page { m.video with myScreenPos := (m.screenNode x).currentPosition }
    (m.screenNode x).screen .myScreenPos = P at hshows hvalid
  obtain ⟨hshows', hvalid', hdraws⟩ := Video.writeTo_shows w hshows hvalid htab
  have hcursor : (m.written x w).2.video.currentPosition = m.video.currentPosition :=
    hdraws.other .currentPosition (by decide)
  have hchar : ∀ a : Nat, ¬ InScreen (m.screenNode x).screen a →
      (m.written x w).2.video.char a = m.video.char a := hdraws.char
  -- Order by order: save, then show, the page of the process.
  have hto₁ := (h.written x w).savesTo hinit hs₁
  have hto₂ := h.savesTo hinit hs₂
  obtain ⟨hshows₁, hkept₁⟩ := (h.written x w).display_shows (P := P.text w) hinit hto₁ hx
    (by rw [written_pid, hpid]; exact hoff.symm) hvalid'
    (by rw [written_screen]; exact hshows'.byte)
    (by
      rw [written_screen]
      have hpos : ((m.written x w).2.screenNode x).currentPosition =
          (m.written x w).2.video.myScreenPos := by
        show (Function.update m.screenNode x _ x).currentPosition = _
        rw [Function.update_self]
        rfl
      rw [hpos]
      exact hshows'.pos) pid
  obtain ⟨hshows₂, hkept₂⟩ := h.display_shows hinit hto₂ hx (by rw [hpid]; exact hoff.symm) hvalid
    hshows.byte hshows.pos pid
  obtain ⟨hshows₃, -, hdraws₃⟩ := Video.writeToVideo_shows w hshows₂ hvalid
  -- What a user sees: the bytes, the cursor, the focus, the nodes and the other pages.
  refine ⟨fun i hi => ?_, ?_, rfl, fun y => ?_, fun y hy hne => ?_, fun y hy hne i hi => ?_⟩
  · exact (hshows₃.byte i hi).trans (hshows₁.byte i hi).symm
  · exact hshows₃.pos.trans hshows₁.pos.symm
  · exact (hrep₂.withVideo _).isScreen_iff.trans hrep₁.isScreen_iff.symm
  · have hyx := ne_of_display hto₁ hx hpid hoff hne
    exact (h.saved_agree hinit hc hx hcursor hto₁ hto₂ (hrep₁.isScreen_iff.mp hy) hyx).1
  -- A page of another process is changed by neither order.
  · have hyx := ne_of_display hto₁ hx hpid hoff hne
    have hy' := hrep₁.isScreen_iff.mp hy
    obtain ⟨hnode, hbytes⟩ := h.saved_agree hinit hc hx hcursor hto₁ hto₂ hy' hyx
    have hscreen : ((m₁.display x pid).screenNode y).screen = (m.screenNode y).screen := by
      show (m₁.screenNode y).screen = _
      rw [← hnode]
      exact hto₂.screen hy'
    rw [hscreen]
    have hkept := hkept₁ y hy' i hi
    rw [written_screen] at hkept
    rw [hkept, ← hbytes i hi, ← hkept₂ y hy' i hi]
    exact hdraws₃.char _ fun hvideo => h.video_notMem hinit hy' hvideo (inScreen_add _ hi)

/-- Two different saved cursors, less than `2 ^ 32` apart. -/
theorem backup_ne {s n k : Nat} (hs : s + WINDOW_SIZE ≤ 2 ^ 64) (hn : n < WINDOW_SIZE) (hk : k < 2 ^ 32)
    (heq : toUInt64 ((s : Int) + toInt32 (((VIDEO + n + k : Nat) : Int) - VIDEO)) = s + n) : k = 0 := by
  have hdistance : ((VIDEO + n + k : Nat) : Int) - VIDEO = ((n + k : Nat) : Int) := by
    push_cast
    omega
  rw [hdistance] at heq
  have hmod := Int.bmod_def ((n + k : Nat) : Int) (2 ^ 32)
  unfold toInt32 toUInt64 at heq
  generalize ((n + k : Nat) : Int).bmod (2 ^ 32) = distance at heq hmod
  replace hn : n < 4000 := hn
  replace hs : s + 4000 ≤ 2 ^ 64 := hs
  push_cast at hmod
  split at hmod <;> omega

/-- A tab moves the video cursor, and the process on focus gets that cursor when it is saved. -/
theorem noTab_of_sameView (h : RepScreens m xs others) (hinit : m.kernel.memory.initMem = 0x1000000)
    (hc : m.CursorsIn xs) (hx : x ∈ xs) (hpid : (m.screenNode x).pid = pid)
    (hoff : m.onFocusPid ≠ pid) (hfocus : m.onFocusPid ≠ NO_FOCUS) (hshort : w.length ≤ 2 ^ 26)
    (hs₁ : (m.written x w).2.Saved xs m₁) (hs₂ : m.Saved xs m₂)
    (hrep₁ : RepScreens (m₁.display x pid) xs others)
    (hview : (m₁.display x pid).SameView { m₂.display x pid with
      video := (writeToVideo (m₂.display x pid).video w).2 } pid) : NoTab w := by
  obtain ⟨f, hf, hfpid⟩ := h.focus.resolve_left hfocus
  have hto₁ := (h.written x w).savesTo hinit hs₁
  have hto₂ := h.savesTo hinit hs₂
  have hne : f ≠ x := by
    rintro rfl
    exact hoff (hfpid.symm.trans hpid)
  -- The node of the process on focus is saved in both orders, with the video cursor of each.
  have hnode := written_of_ne m hne w
  have hfocus₁ : ((m.written x w).2.screenNode f).pid = (m.written x w).2.onFocusPid := by
    rw [hnode]
    exact hfpid
  have hnode₁ := hto₁.focusNode f hf hfocus₁
  have hnode₂ := hto₂.focusNode f hf hfpid
  have hother : ((m₁.display x pid).screenNode f).pid ≠ pid := by
    show (m₁.screenNode f).pid ≠ pid
    rw [hnode₁, hnode]
    show (m.screenNode f).pid ≠ pid
    rw [hfpid]
    exact hoff
  have hsame : m₂.screenNode f = m₁.screenNode f := hview.node f (hrep₁.isScreen_iff.mpr hf) hother
  rw [hnode₁, hnode₂, hnode] at hsame
  have hcursor : (backupContent m.video (m.screenNode f).screen).1 =
      (backupContent (m.written x w).2.video (m.screenNode f).screen).1 :=
    congrArg ScreenNode.currentPosition hsame
  rw [Video.backupContent_pos hc.video (h.screen_le hf)] at hcursor
  -- how far the tabs have moved the video cursor
  obtain ⟨-, hle, hbound, hiff⟩ := Video.writeTo_cursors w
    (v := { m.video with myScreenPos := (m.screenNode x).currentPosition }) (hc.saved x hx)
  refine hiff.mp ?_
  obtain ⟨n, -, hn, hvideo⟩ := hc.video.exists_add
  obtain ⟨k, hmoved⟩ := Nat.exists_eq_add_of_le hle
  have hpos : (m.written x w).2.video.currentPosition = VIDEO + n + k := by
    rw [← hvideo]
    exact hmoved
  -- The string is short enough for the tabs not to go round a whole `int`.
  have hk : k < 2 ^ 32 := by
    rw [hmoved] at hbound
    have hle : k ≤ 46 * w.length := Nat.le_of_add_le_add_left hbound
    omega
  have hbackup : (backupContent (m.written x w).2.video (m.screenNode f).screen).1 =
      toUInt64 (((m.screenNode f).screen : Int) +
        toInt32 (((m.written x w).2.video.currentPosition : Int) - VIDEO)) := rfl
  rw [hbackup, hpos, hvideo, Nat.add_sub_cancel_left] at hcursor
  have hzero := backup_ne (h.screen_le hf) hn hk hcursor.symm
  rw [hzero] at hmoved
  exact hmoved

end Orders

end RepScreens

/-- Both orders give the same view if there is no tab in front of the first 0. If a process is on
focus and the string is not longer than 64 MB, only then. -/
theorem writing_commutes {m : Machine} {others : List (Addr × Nat)} {pid : Int}
    (h : Reachable MachineStart (MachineStep fun _ _ => True) (m, others)) (hc : m.CursorsOk)
    (hpid : m.Background pid) (hscreen : m.HasScreen pid) (w : List UInt8) :
    ∃ m₁ m₂, Returns (writeThenLoad · m pid w) m₁ ∧ Returns (loadThenWrite · m pid w) m₂ ∧
      (NoTab w → m₁.SameView m₂ pid) ∧
      (m.onFocusPid ≠ NO_FOCUS → w.length ≤ 2 ^ 26 → (m₁.SameView m₂ pid ↔ NoTab w)) := by
  obtain ⟨xs, lost, hrep⟩ := (Machine.Sane.of_reachable h).list
  have hinit := (Machine.Sane.of_reachable h).initMem
  have hcursors := hrep.cursorsOk_iff.mp hc
  obtain ⟨x, hx, rfl⟩ := hscreen
  rw [hrep.isScreen_iff] at hx
  obtain ⟨m₁, hsaved₁, hreturns₁, hrep₁⟩ := hrep.writeThenLoad hx hpid.current hpid.off w
  obtain ⟨m₂, hsaved₂, hreturns₂, hrep₂⟩ := hrep.loadThenWrite hx hpid.current w
  have hsame : NoTab w → _ := fun htab =>
    hrep.sameView hinit hcursors hx rfl hpid.off htab hsaved₁ hsaved₂ hrep₁ hrep₂
  refine ⟨_, _, hreturns₁, hreturns₂, hsame, fun hfocus hshort => ⟨?_, hsame⟩⟩
  exact hrep.noTab_of_sameView hinit hcursors hx rfl hpid.off hfocus hshort hsaved₁ hsaved₂ hrep₁

theorem writing_commutes_hi : ∃ m m₁ m₂, backToFirst = .ok m ∧
    Returns (writeThenLoad · m 2 [104, 105]) m₁ ∧ Returns (loadThenWrite · m 2 [104, 105]) m₂ ∧
    m₁.SameView m₂ 2 := by
  obtain ⟨m, hm, -, hpid, hscreen⟩ := backToFirst_ends
  have hreach := backToFirst_reachable hm
  obtain ⟨m₁, m₂, hreturns₁, hreturns₂, hsame, -⟩ := writing_commutes (reachable_of_allowed hreach)
    (.of_reachable hreach) hpid hscreen [104, 105]
  exact ⟨m, m₁, m₂, hm, hreturns₁, hreturns₂, hsame (by decide)⟩

/-- The process 2 prints a tab while the process 1 is on focus. -/
theorem tab_does_not_commute : ¬ ∀ (m : Machine) (others : List (Addr × Nat)) (pid : Int)
    (w : List UInt8) (fuel fuel' : Nat) (m₁ m₂ : Machine),
    Reachable MachineStart (MachineStep fun _ _ => True) (m, others) → m.CursorsOk →
      m.Background pid → m.HasScreen pid → writeThenLoad fuel m pid w = .ok m₁ →
      loadThenWrite fuel' m pid w = .ok m₂ → m₁.SameView m₂ pid := by
  intro hall
  -- The state is reachable, and its processes are as the statement wants them.
  obtain ⟨m, hm, hfocus, hpid, hscreen⟩ := backToFirst_ends
  have hreach := backToFirst_reachable hm
  have hc := Machine.CursorsOk.of_reachable hreach
  obtain ⟨xs, lost, hrep⟩ := (Machine.Sane.of_reachable hreach).list
  have hinit := (Machine.Sane.of_reachable hreach).initMem
  have hcursors := hrep.cursorsOk_iff.mp hc
  obtain ⟨x, hx, hxpid⟩ := id hscreen
  rw [hrep.isScreen_iff] at hx
  have hcur := hpid.current
  have hoff := hpid.off
  rw [← hxpid] at hcur hoff
  obtain ⟨m₁, hsaved₁, hreturns₁, hrep₁⟩ := hrep.writeThenLoad hx hcur hoff [9]
  obtain ⟨m₂, hsaved₂, hreturns₂, -⟩ := hrep.loadThenWrite hx hcur [9]
  rw [hxpid] at hreturns₁ hreturns₂ hrep₁
  obtain ⟨fuel, hrun₁⟩ := hreturns₁.exists_fuel
  obtain ⟨fuel', hrun₂⟩ := hreturns₂.exists_fuel
  -- The two orders agree by assumption, hence there is no tab, which there is.
  have hview := hall m [] 2 [9] fuel fuel' _ _ (reachable_of_allowed hreach) hc hpid hscreen hrun₁ hrun₂
  have htab : NoTab [9] := hrep.noTab_of_sameView hinit hcursors hx hxpid hpid.off
    (by rw [hfocus]; decide) (by decide) hsaved₁ hsaved₂ hrep₁ hview
  exact absurd htab (by decide)

end BasicKernel
