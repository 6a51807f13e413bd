import BasicKernel.Screen.FailedLoad
import BasicKernel.Screen.Switching

set_option autoImplicit false

/-! # Screens are restored

A switch saves one screen and shows another. What a process has on its screen is on the video screen
while the process is on focus and in its node otherwise, and a switch moves it from one place to the other. The
cursor is moved as an `int`, its distance from the start of the screen.

`switching_restores_iff` says for any number of switches that lead back to the same process that
everything is as before exactly if this distance is an `int`, where a switch does anything at all.
`far_cursor_lost` is a cursor that is too far away.
-/

namespace BasicKernel

open Linked Fuel Transition

/-! ## Distances

A distance that is stored in an `int` gives the cursor back as long as it is below `2 ^ 31`. -/

/-- `cursorDistance` -/
def cursorDistance (s p : Addr) : Int := toInt32 ((p : Int) - s)

/-- The cursor `p` is an `int` away from the start `s` of its screen. -/
def Near (s p : Addr) : Prop := ∃ d : Int, -2 ^ 31 ≤ d ∧ d < 2 ^ 31 ∧ p = toUInt64 ((s : Int) + d)

theorem toInt32_congr {x y : Int} (h : x % 2 ^ 32 = y % 2 ^ 32) : toInt32 x = toInt32 y := by
  simp only [toInt32, Int.bmod_def]
  rw [show ((2 ^ 32 : Nat) : Int) = 2 ^ 32 from rfl, h]

/-- The distance is regained from the address. -/
theorem cursorDistance_toUInt64 (s : Nat) {d : Int} (hlo : -2 ^ 31 ≤ d) (hhi : d < 2 ^ 31) :
    cursorDistance s (toUInt64 ((s : Int) + d)) = d := by
  calc toInt32 ((toUInt64 ((s : Int) + d) : Int) - s)
      = toInt32 d := toInt32_congr (by unfold toUInt64; omega)
    _ = d := toInt32_of_bounds hlo hhi

theorem near_toUInt64 (s t q : Addr) : Near s (toUInt64 ((s : Int) + cursorDistance t q)) :=
  ⟨_, (toInt32_bounds _).1, (toInt32_bounds _).2, rfl⟩

theorem cursorDistance_moved (s t q : Addr) :
    cursorDistance s (toUInt64 ((s : Int) + cursorDistance t q)) = cursorDistance t q :=
  cursorDistance_toUInt64 s (toInt32_bounds _).1 (toInt32_bounds _).2

/-- A near cursor is determined by its distance. -/
theorem Near.eq {s p : Addr} (h : Near s p) : p = toUInt64 ((s : Int) + cursorDistance s p) := by
  obtain ⟨d, hlo, hhi, rfl⟩ := h
  rw [cursorDistance_toUInt64 s hlo hhi]

theorem near_of_bounds {s p : Nat} (hp : p < 2 ^ 64) (hlo : s ≤ p + 2 ^ 31) (hhi : p < s + 2 ^ 31) :
    Near s p := by
  refine ⟨(p : Int) - s, by omega, by omega, ?_⟩
  show p = (((s : Int) + ((p : Int) - s)) % 2 ^ 64).toNat
  omega

/-- A cursor behind the screen, but not near. -/
theorem not_near {s p : Nat} (hs : s < 2 ^ 32) (hlo : s + 2 ^ 31 ≤ p) (hhi : p < 2 ^ 63) : ¬ Near s p := by
  rintro ⟨d, hd, hd', heq⟩
  change p = (((s : Int) + d) % 2 ^ 64).toNat at heq
  omega

/-! ## The size of the heap

No call changes how many pages there are, so the bounds of the heap hold over any sequence of
calls. -/

section Heap

variable {m m' : Machine} {fuel : Nat}

theorem AllocatorStep.blocksAmount {s s' : MemoryManager × List (Nat × Nat)} (h : AllocatorStep s s') :
    s'.1.blocksAmount = s.1.blocksAmount := by
  cases h with
  | allocated _ _ hcall =>
      obtain ⟨words, -, rfl⟩ := allocate_words hcall
      rfl
  | refused _ _ hcall =>
      obtain ⟨words, -, rfl⟩ := allocate_words hcall
      rfl
  | deallocated _ hcall =>
      obtain ⟨words, -, rfl⟩ := deallocate_words hcall
      rfl

/-- The pages of the heap. -/
def Machine.pages (m : Machine) : Int := m.kernel.memory.blocksAmount

/-- The heap has the same size, and the list starts with the same node. -/
def Machine.Frame (m m' : Machine) : Prop := m'.pages = m.pages ∧ m'.list = m.list

theorem Machine.Frame.trans {m₁ : Machine} (h : m.Frame m₁) (h₁ : m₁.Frame m') : m.Frame m' :=
  ⟨h₁.1.trans h.1, h₁.2.trans h.2⟩

theorem Machine.allocate_frame {size : Nat} {p : Addr} (h : m.allocate size = .ok (p, m')) : m.Frame m' := by
  obtain ⟨⟨q, kernel⟩, hkernel, h⟩ := bind_eq_ok.mp h
  obtain ⟨-, rfl⟩ := Prod.mk.inj (Except.ok.inj h)
  obtain ⟨⟨r, memory⟩, hmemory, hkernel⟩ := bind_eq_ok.mp hkernel
  obtain ⟨-, rfl⟩ := Prod.mk.inj (Except.ok.inj hkernel)
  obtain ⟨words, -, rfl⟩ := allocate_words hmemory
  exact ⟨rfl, rfl⟩

theorem Machine.deallocate_frame {size : Nat} {p : Addr} (h : m.deallocate p size = .ok m') : m.Frame m' := by
  obtain ⟨kernel, hkernel, h⟩ := bind_eq_ok.mp h
  obtain rfl := Except.ok.inj h
  obtain ⟨⟨r, memory⟩, hmemory, hkernel⟩ := bind_eq_ok.mp hkernel
  obtain rfl := Except.ok.inj hkernel
  obtain ⟨words, -, rfl⟩ := deallocate_words hmemory
  exact ⟨rfl, rfl⟩

theorem Machine.modifyScreenNode_frame {p : Addr} {f : ScreenNode → ScreenNode}
    (h : m.modifyScreenNode p f = .ok m') : m.Frame m' := by
  obtain ⟨store, -, h⟩ := bind_eq_ok.mp h
  obtain rfl := Except.ok.inj h
  exact ⟨rfl, rfl⟩

theorem newScreenNode_frame {node : Addr} (h : newScreenNode m = .ok (node, m')) : m.Frame m' := by
  obtain ⟨⟨p, m₁⟩, hnode, h⟩ := bind_eq_ok.mp h
  have hframe₁ := Machine.allocate_frame hnode
  dsimp only at h
  split at h
  · obtain ⟨-, rfl⟩ := Prod.mk.inj (Except.ok.inj h)
    exact hframe₁
  obtain ⟨⟨q, m₂⟩, hscreen, h⟩ := bind_eq_ok.mp h
  have hframe₂ := hframe₁.trans (Machine.allocate_frame hscreen)
  obtain ⟨m₃, hmodify, h⟩ := bind_eq_ok.mp h
  have hframe₃ := hframe₂.trans (Machine.modifyScreenNode_frame hmodify)
  dsimp only at h
  split at h
  · obtain ⟨m₄, hfree, h⟩ := bind_eq_ok.mp h
    obtain ⟨-, rfl⟩ := Prod.mk.inj (Except.ok.inj h)
    exact hframe₃.trans (Machine.deallocate_frame hfree)
  · obtain ⟨m₄, hmodify', h⟩ := bind_eq_ok.mp h
    obtain ⟨-, rfl⟩ := Prod.mk.inj (Except.ok.inj h)
    have hframe₄ : Machine.Frame { m₃ with video := clear m₃.video q } m₄ :=
      Machine.modifyScreenNode_frame hmodify'
    exact hframe₃.trans hframe₄

theorem addScreen_frame (fuel : Nat) : ∀ {m m' : Machine} {current prev p : Addr} {pid : Int},
    addScreen fuel m current prev pid = .ok (p, m') → m.Frame m' := by
  induction fuel with
  | zero => intro m m' current prev p pid h; cases h
  | succ fuel ih =>
      intro m m' current prev p pid h
      unfold addScreen at h
      split at h
      · obtain ⟨⟨node, m₁⟩, hnew, h⟩ := bind_eq_ok.mp h
        have hframe₁ := newScreenNode_frame hnew
        dsimp only at h
        split at h
        · obtain ⟨-, rfl⟩ := Prod.mk.inj (Except.ok.inj h)
          exact hframe₁
        · obtain ⟨m₂, hmodify, h⟩ := bind_eq_ok.mp h
          obtain ⟨-, rfl⟩ := Prod.mk.inj (Except.ok.inj h)
          exact hframe₁.trans (Machine.modifyScreenNode_frame hmodify)
      · obtain ⟨n, -, h⟩ := bind_eq_ok.mp h
        obtain ⟨⟨next, m₁⟩, hadd, h⟩ := bind_eq_ok.mp h
        obtain ⟨m₂, hmodify, h⟩ := bind_eq_ok.mp h
        obtain ⟨-, rfl⟩ := Prod.mk.inj (Except.ok.inj h)
        exact (ih hadd).trans (Machine.modifyScreenNode_frame hmodify)

theorem removeScreenInner_pages (fuel : Nat) : ∀ {m m' : Machine} {current prev p : Addr} {pid : Int},
    removeScreenInner fuel m current prev pid = .ok (p, m') → m'.pages = m.pages := by
  -- By induction on the recursion along the list.
  induction fuel with
  | zero => intro m m' current prev p pid h; cases h
  | succ fuel ih =>
      intro m m' current prev p pid h
      unfold removeScreenInner at h
      split at h
      · obtain ⟨-, rfl⟩ := Prod.mk.inj (Except.ok.inj h)
        rfl
      obtain ⟨node, -, h⟩ := bind_eq_ok.mp h
      dsimp only at h
      split at h
      -- What follows the unlinking only gives two allocations back.
      · have hfree : ∀ m₁ : Machine, (do
            let m ← m₁.deallocate (← load m₁.screenNode current).screen SCREEN_SIZE
            let m ← m.deallocate current SCREEN_NODE_SIZE
            return (node.next, m)) = .ok (p, m') → m'.pages = m₁.pages := by
          intro m₁ h
          obtain ⟨n, -, h⟩ := bind_eq_ok.mp h
          obtain ⟨m₂, hscreen, h⟩ := bind_eq_ok.mp h
          obtain ⟨m₃, hnode, h⟩ := bind_eq_ok.mp h
          obtain ⟨-, rfl⟩ := Prod.mk.inj (Except.ok.inj h)
          exact ((Machine.deallocate_frame hscreen).trans (Machine.deallocate_frame hnode)).1
        split at h
        · obtain ⟨m₁, hnext, h⟩ := bind_eq_ok.mp h
          exact (hfree m₁ h).trans (Machine.modifyScreenNode_frame hnext).1
        · exact hfree m h
      -- A node further down.
      · obtain ⟨⟨next, m₁⟩, hremove, h⟩ := bind_eq_ok.mp h
        obtain ⟨m₂, hmodify, h⟩ := bind_eq_ok.mp h
        obtain ⟨-, rfl⟩ := Prod.mk.inj (Except.ok.inj h)
        exact (Machine.modifyScreenNode_frame hmodify).1.trans (ih hremove)

theorem loadScreen_pages {pid r : Int} (h : loadScreen fuel m pid = .ok (r, m')) : m'.pages = m.pages := by
  -- Showing a screen copies bytes and sets cursors.
  have hshow : ∀ {m₁ m₂ : Machine} {node : Addr}, showScreen fuel m₁ node pid = .ok m₂ →
      m₂.pages = m₁.pages := by
    intro m₁ m₂ node hshow
    obtain ⟨m₃, hsave, hshow⟩ := bind_eq_ok.mp hshow
    obtain ⟨n, -, hshow⟩ := bind_eq_ok.mp hshow
    obtain rfl := Except.ok.inj hshow
    obtain ⟨f, -, hsave⟩ := bind_eq_ok.mp hsave
    split at hsave
    · obtain rfl := Except.ok.inj hsave
      rfl
    · obtain ⟨n, -, hsave⟩ := bind_eq_ok.mp hsave
      exact (Machine.modifyScreenNode_frame hsave).1.trans rfl
  obtain ⟨node, -, h⟩ := bind_eq_ok.mp h
  split at h
  · obtain ⟨⟨list, m₁⟩, hadd, h⟩ := bind_eq_ok.mp h
    have hpages₁ : m₁.pages = m.pages := (addScreen_frame fuel hadd).1
    obtain ⟨node', -, h⟩ := bind_eq_ok.mp h
    split at h
    · obtain ⟨-, rfl⟩ := Prod.mk.inj (Except.ok.inj h)
      exact hpages₁
    · obtain ⟨m₂, hshow', h⟩ := bind_eq_ok.mp h
      obtain ⟨-, rfl⟩ := Prod.mk.inj (Except.ok.inj h)
      exact (hshow hshow').trans hpages₁
  · obtain ⟨m₁, hshow', h⟩ := bind_eq_ok.mp h
    obtain ⟨-, rfl⟩ := Prod.mk.inj (Except.ok.inj h)
    exact hshow hshow'

theorem followLink_pages (link : ScreenNode → Addr) (h : followLink fuel m link = .ok m') : m'.pages = m.pages := by
  unfold followLink at h
  split at h
  · obtain rfl := Except.ok.inj h
    rfl
  obtain ⟨f, -, h⟩ := bind_eq_ok.mp h
  obtain ⟨n, -, h⟩ := bind_eq_ok.mp h
  dsimp only at h
  split at h
  · obtain rfl := Except.ok.inj h
    rfl
  · obtain ⟨n', -, h⟩ := bind_eq_ok.mp h
    obtain ⟨⟨r, m₁⟩, hload, h⟩ := bind_eq_ok.mp h
    obtain rfl := Except.ok.inj h
    exact loadScreen_pages hload

theorem getCurrentScreenNode_frame {node : Addr} (h : getCurrentScreenNode fuel m = .ok (node, m')) :
    m.Frame m' := by
  obtain ⟨pid, -, h⟩ := bind_eq_ok.mp h
  obtain ⟨x, -, h⟩ := bind_eq_ok.mp h
  split at h
  · obtain ⟨pid, -, h⟩ := bind_eq_ok.mp h
    exact addScreen_frame fuel h
  · obtain ⟨-, rfl⟩ := Prod.mk.inj (Except.ok.inj h)
    exact ⟨rfl, rfl⟩

theorem currentField_frame {field : ScreenNode → Addr} {a : Addr} (h : (do
      let (node, m) ← getCurrentScreenNode fuel m
      if node = NULL then
        return (NULL, m)
      return (field (← load m.screenNode node), m)) = .ok (a, m')) : m.Frame m' := by
  obtain ⟨⟨node, m₁⟩, hnode, h⟩ := bind_eq_ok.mp h
  have hframe := getCurrentScreenNode_frame hnode
  dsimp only at h
  split at h
  · obtain ⟨-, rfl⟩ := Prod.mk.inj (Except.ok.inj h)
    exact hframe
  · obtain ⟨n, -, h⟩ := bind_eq_ok.mp h
    obtain ⟨-, rfl⟩ := Prod.mk.inj (Except.ok.inj h)
    exact hframe

theorem write_frame {buf : List UInt8} {i : Nat} (h : write fuel m buf = .ok (i, m')) : m.Frame m' := by
  obtain ⟨onFocus, -, h⟩ := bind_eq_ok.mp h
  cases onFocus with
  | true =>
      obtain ⟨-, rfl⟩ := Prod.mk.inj (Except.ok.inj h)
      exact ⟨rfl, rfl⟩
  | false =>
      obtain ⟨⟨myScreen, m₁⟩, hscreen, h⟩ := bind_eq_ok.mp h
      obtain ⟨⟨myScreenPos, m₂⟩, hpos, h⟩ := bind_eq_ok.mp h
      obtain ⟨m₃, hset, h⟩ := bind_eq_ok.mp h
      obtain ⟨-, rfl⟩ := Prod.mk.inj (Except.ok.inj h)
      obtain ⟨⟨node, m₄⟩, hnode, hset⟩ := bind_eq_ok.mp hset
      have hframe := getCurrentScreenNode_frame hnode
      have hframe₄ : m₂.Frame m₄ := hframe
      exact (currentField_frame hscreen).trans ((currentField_frame hpos).trans
        (hframe₄.trans (Machine.modifyScreenNode_frame hset)))

theorem MachineOp.run_pages {op : MachineOp} (h : op.run fuel m = .ok m') : m'.pages = m.pages := by
  -- No call asks for or frees a page by itself but through the functions above.
  cases op with
  | loadScreen pid =>
      obtain ⟨⟨r, m₁⟩, hload, h⟩ := bind_eq_ok.mp h
      obtain rfl := Except.ok.inj h
      exact loadScreen_pages hload
  | removeScreen pid =>
      obtain ⟨⟨list, m₁⟩, hremove, h⟩ := bind_eq_ok.mp h
      obtain rfl := Except.ok.inj h
      refine (removeScreenInner_pages fuel hremove).trans ?_
      split <;> rfl
  | loadNextScreen => exact followLink_pages (·.next) h
  | loadPreviousScreen => exact followLink_pages (·.prev) h
  | write buf =>
      obtain ⟨⟨i, m₁⟩, hwrite, h⟩ := bind_eq_ok.mp h
      obtain rfl := Except.ok.inj h
      exact (write_frame hwrite).1
  | clearScreen =>
      obtain rfl := Except.ok.inj h
      rfl
  | ps i headerI =>
      obtain ⟨video, -, h⟩ := bind_eq_ok.mp h
      obtain rfl := Except.ok.inj h
      rfl

end Heap

/-! ## The screens of the processes

What a process has on its screen, wherever that is at the moment. -/

section Pages

variable {m m' m₁ : Machine} {xs ys : List Addr} {others : List (Addr × Nat)} {pid : Int} {x y : Addr}

/-- The screen of the node `y`: on focus it is the video screen. -/
def Machine.screenAt (m : Machine) (y : Addr) : Addr :=
  if (m.screenNode y).pid = m.onFocusPid then VIDEO else (m.screenNode y).screen

/-- Its cursor. -/
def Machine.cursorAt (m : Machine) (y : Addr) : Addr :=
  if (m.screenNode y).pid = m.onFocusPid then m.video.currentPosition else (m.screenNode y).currentPosition

theorem Machine.screenAt_focus (h : (m.screenNode y).pid = m.onFocusPid) : m.screenAt y = VIDEO := if_pos h

theorem Machine.screenAt_off (h : (m.screenNode y).pid ≠ m.onFocusPid) :
    m.screenAt y = (m.screenNode y).screen := if_neg h

theorem Machine.cursorAt_focus (h : (m.screenNode y).pid = m.onFocusPid) :
    m.cursorAt y = m.video.currentPosition := if_pos h

theorem Machine.cursorAt_off (h : (m.screenNode y).pid ≠ m.onFocusPid) :
    m.cursorAt y = (m.screenNode y).currentPosition := if_neg h

/-- What the processes have on their screens is the same in both machines. -/
structure Machine.SamePages (m m' : Machine) (xs : List Addr) : Prop where
  node : ∀ y ∈ xs, (m.screenNode y).Same (m'.screenNode y)
  byte : ∀ y ∈ xs, ∀ i < WINDOW_SIZE,
    m'.video.char (m'.screenAt y + i) = m.video.char (m.screenAt y + i)
  distance : ∀ y ∈ xs,
    cursorDistance (m'.screenAt y) (m'.cursorAt y) = cursorDistance (m.screenAt y) (m.cursorAt y)

namespace Machine.SamePages

theorem refl (m : Machine) (xs : List Addr) : m.SamePages m xs :=
  ⟨fun _ _ => ⟨rfl, rfl⟩, fun _ _ _ _ => rfl, fun _ _ => rfl⟩

theorem trans (h : m.SamePages m₁ xs) (h₁ : m₁.SamePages m' ys) (hsub : ∀ y ∈ xs, y ∈ ys) :
    m.SamePages m' xs where
  node y hy := ⟨(h₁.node y (hsub y hy)).pid.trans (h.node y hy).pid,
    (h₁.node y (hsub y hy)).screen.trans (h.node y hy).screen⟩
  byte y hy i hi := (h₁.byte y (hsub y hy) i hi).trans (h.byte y hy i hi)
  distance y hy := (h₁.distance y (hsub y hy)).trans (h.distance y hy)

end Machine.SamePages

/-- After `saveScreen` every node has the page of its process. -/
theorem Machine.SavesTo.page (hs : m.SavesTo m₁ xs) (hy : y ∈ xs) :
    (∀ i < WINDOW_SIZE, m₁.video.char ((m₁.screenNode y).screen + i) = m.video.char (m.screenAt y + i)) ∧
      cursorDistance (m₁.screenNode y).screen (m₁.screenNode y).currentPosition =
        cursorDistance (m.screenAt y) (m.cursorAt y) := by
  rw [hs.screen hy]
  by_cases hfocus : (m.screenNode y).pid = m.onFocusPid
  · rw [screenAt_focus hfocus, cursorAt_focus hfocus, hs.focusNode y hy hfocus]
    exact ⟨hs.focusByte y hy hfocus, cursorDistance_moved _ _ _⟩
  · rw [screenAt_off hfocus, cursorAt_off hfocus, hs.node y hy hfocus]
    exact ⟨hs.byte y hy hfocus, rfl⟩

theorem Machine.SavesTo.same (hs : m.SavesTo m₁ xs) (hy : y ∈ xs) :
    (m.screenNode y).Same (m₁.screenNode y) := by
  refine ⟨?_, hs.screen hy⟩
  by_cases hfocus : (m.screenNode y).pid = m.onFocusPid
  · rw [hs.focusNode y hy hfocus]
  · rw [hs.node y hy hfocus]

namespace RepScreens

/-- A switch keeps the pages. -/
theorem display_samePages (h : RepScreens m xs others) (hinit : m.kernel.memory.initMem = 0x1000000)
    (hs : m.SavesTo m₁ xs) (hx : x ∈ xs) : m.SamePages (m₁.display x (m.screenNode x).pid) xs := by
  -- The saved screens lie behind the video memory.
  have hdisjoint : ∀ y ∈ xs, ∀ a : Nat, InScreen (m₁.screenNode y).screen a → ¬ InScreen VIDEO a := by
    intro y hy a ha hvideo
    rw [hs.screen hy] at ha
    exact h.video_notMem hinit hy hvideo ha
  have hpid : ∀ y, ((m₁.display x (m.screenNode x).pid).screenNode y).pid = (m₁.screenNode y).pid := fun _ => rfl
  have hvideo : (m₁.display x (m.screenNode x).pid).video =
      setScreen m₁.video (m₁.screenNode x).screen (m₁.screenNode x).currentPosition := rfl
  -- Where each page is after the switch, and that its bytes and its distance are the saved ones.
  have hpage : ∀ y ∈ xs,
      (∀ i < WINDOW_SIZE, (m₁.display x (m.screenNode x).pid).video.char
        ((m₁.display x (m.screenNode x).pid).screenAt y + i) = m₁.video.char ((m₁.screenNode y).screen + i)) ∧
      cursorDistance ((m₁.display x (m.screenNode x).pid).screenAt y)
          ((m₁.display x (m.screenNode x).pid).cursorAt y) =
        cursorDistance (m₁.screenNode y).screen (m₁.screenNode y).currentPosition := by
    intro y hy
    by_cases hyx : y = x
    · subst hyx
      -- the screen that is shown
      have hfocus : ((m₁.display y (m.screenNode y).pid).screenNode y).pid =
          (m₁.display y (m.screenNode y).pid).onFocusPid := (hpid y).trans (hs.same hy).pid
      rw [Machine.screenAt_focus hfocus, Machine.cursorAt_focus hfocus, hvideo]
      refine ⟨fun i hi => ?_, cursorDistance_moved _ _ _⟩
      rw [Video.char_setScreen, Video.copy_byte m₁.video (hdisjoint y hy) hi]
    -- Any other screen is still in its node, and the copy to the video memory does not touch it.
    · have hfocus : ((m₁.display x (m.screenNode x).pid).screenNode y).pid ≠
          (m₁.display x (m.screenNode x).pid).onFocusPid := by
        rw [hpid, (hs.same hy).pid]
        exact fun heq => hyx (h.node_inj hy hx heq)
      rw [Machine.screenAt_off hfocus, Machine.cursorAt_off hfocus, hvideo]
      exact ⟨fun i hi => Video.setScreen_char _ (hdisjoint x hx) _ (hdisjoint y hy _ (inScreen_add _ hi)), rfl⟩
  exact ⟨fun y hy => hs.same hy, fun y hy i hi => ((hpage y hy).1 i hi).trans ((hs.page hy).1 i hi),
    fun y hy => (hpage y hy).2.trans (hs.page hy).2⟩

/-- A new screen is nobody's page. -/
theorem withScreen_samePages {node screen : Addr} {memory : MemoryManager} (hfresh : node ∉ xs)
    (h₀ : RepScreens (m.withScreen xs node screen memory pid) (xs ++ [node]) others)
    (hinit : (m.withScreen xs node screen memory pid).kernel.memory.initMem = 0x1000000) :
    m.SamePages (m.withScreen xs node screen memory pid) xs := by
  -- An old node is changed in `next` only.
  have hnode : ∀ y ∈ xs, ∃ next, (m.withScreen xs node screen memory pid).screenNode y =
      { m.screenNode y with next := next } := by
    intro y hy
    have hne : y ≠ node := fun heq => hfresh (heq ▸ hy)
    obtain ⟨next, hnext⟩ := Machine.linkScreen_of_ne { m.withMemory memory with
      video := clear m.video screen
      screenNode := Function.update m.screenNode node
        { m.screenNode node with screen := screen, currentPosition := screen } } xs NULL pid hne
    refine ⟨next, hnext.trans ?_⟩
    dsimp only
    rw [Function.update_of_ne hne]
  have hscreen : ((m.withScreen xs node screen memory pid).screenNode node).screen = screen := by
    show ((Machine.linkScreen _ xs NULL node pid).screenNode node).screen = screen
    rw [Machine.linkScreen_self _ _ _ hfresh]
    dsimp only
    rw [Function.update_self]
  have hmem : node ∈ xs ++ [node] := List.mem_append_right _ (List.mem_singleton_self _)
  have hvideo : (m.withScreen xs node screen memory pid).video = clear m.video screen := rfl
  have hchar : ∀ a : Nat, ¬ InScreen screen a →
      (m.withScreen xs node screen memory pid).video.char a = m.video.char a :=
    (Video.clear_draws m.video screen .myScreenPos).char
  have hcursor : (m.withScreen xs node screen memory pid).video.currentPosition = m.video.currentPosition :=
    (Video.clear_draws m.video screen .myScreenPos).other .currentPosition (by decide)
  have hat : ∀ y ∈ xs, (m.withScreen xs node screen memory pid).screenAt y = m.screenAt y ∧
      (m.withScreen xs node screen memory pid).cursorAt y = m.cursorAt y := by
    intro y hy
    obtain ⟨next, heq⟩ := hnode y hy
    unfold Machine.screenAt Machine.cursorAt
    rw [heq, hcursor]
    exact ⟨rfl, rfl⟩
  -- The node, the bytes and the distance: none of them has changed.
  refine ⟨fun y hy => ?_, fun y hy i hi => ?_, fun y hy => ?_⟩
  · obtain ⟨next, heq⟩ := hnode y hy
    rw [heq]
    exact ⟨rfl, rfl⟩
  · rw [(hat y hy).1]
    -- The page of an old screen is the video memory or an older allocation, not the new one.
    refine hchar _ fun hin => ?_
    rw [← hscreen] at hin
    by_cases hfocus : (m.screenNode y).pid = m.onFocusPid
    · rw [Machine.screenAt_focus hfocus] at hin
      exact h₀.video_notMem hinit hmem (inScreen_add VIDEO hi) hin
    · rw [Machine.screenAt_off hfocus] at hin
      obtain ⟨next, heq⟩ := hnode y hy
      refine h₀.screen_notMem hmem (List.mem_append_left _ hy) (fun heq => hfresh (heq ▸ hy)) hin ?_
      rw [heq]
      exact inScreen_add _ hi
  · rw [(hat y hy).1, (hat y hy).2]

end RepScreens

end Pages

/-! ## Loads

A load that fails changes nothing, and one that succeeds moves pages and keeps them. -/

section Loads

variable {m m' m₁ : Machine} {xs : List Addr} {others : List (Addr × Nat)} {op : MachineOp}
  {ops : List MachineOp}

/-- A call that switches the screen, and for which there is memory. -/
def MachineOp.Loads (m m' : Machine) : MachineOp → Prop
  | loadScreen pid => 0 ≤ pid ∧ ∃ fuel, BasicKernel.loadScreen fuel m pid = .ok (1, m')
  | loadNextScreen => ∃ fuel, BasicKernel.loadNextScreen fuel m = .ok m'
  | loadPreviousScreen => ∃ fuel, BasicKernel.loadPreviousScreen fuel m = .ok m'
  | _ => False

/-- Calls one after the other. -/
def LoadsAll : Machine → List MachineOp → Machine → Prop
  | m, [], m' => m' = m
  | m, op :: ops, m' => ∃ m₁, op.Loads m m₁ ∧ LoadsAll m₁ ops m'

/-- The call does nothing: the screen on focus is the last one, or the first one. -/
def MachineOp.Stays (m : Machine) : MachineOp → Prop
  | loadNextScreen => ∀ f, m.IsScreen f → (m.screenNode f).pid = m.onFocusPid → (m.screenNode f).next = NULL
  | loadPreviousScreen => ∀ f, m.IsScreen f → (m.screenNode f).pid = m.onFocusPid →
      (m.screenNode f).prev = NULL
  | _ => False

/-- What a call leaves: a list with the nodes of the old one, and the pages of their processes. -/
structure Machine.Loaded (m : Machine) (xs : List Addr) (others : List (Addr × Nat)) (m' : Machine) : Prop where
  list : ∃ xs', RepScreens m' xs' others ∧ ∀ y ∈ xs, y ∈ xs'
  initMem : m'.kernel.memory.initMem = 0x1000000
  pages : m.SamePages m' xs

theorem Machine.near_display (m : Machine) (x : Addr) (pid : Int) :
    Near VIDEO (m.display x pid).video.currentPosition := near_toUInt64 _ _ _

namespace RepScreens

theorem loaded_display (h : RepScreens m xs others) (hinit : m.kernel.memory.initMem = 0x1000000)
    (hs : m.Saved xs m₁) {x : Addr} (hx : x ∈ xs)
    (hrep : RepScreens (m₁.display x (m.screenNode x).pid) xs others) :
    m.Loaded xs others (m₁.display x (m.screenNode x).pid) := by
  have hto := h.savesTo hinit hs
  refine ⟨⟨xs, hrep, fun _ hy => hy⟩, ?_, h.display_samePages hinit hto hx⟩
  show m₁.kernel.memory.initMem = 0x1000000
  rw [hto.rest.1, hinit]

theorem loaded_followLink (h : RepScreens m xs others) (hinit : m.kernel.memory.initMem = 0x1000000)
    {link : ScreenNode → Addr}
    (hlink : ∀ f ∈ xs, link (m.screenNode f) ≠ NULL → link (m.screenNode f) ∈ xs) {fuel : Nat}
    (hrun : BasicKernel.followLink fuel m link = .ok m') : m.Loaded xs others m' ∧
      (m' = m ∧ (∀ f, m.IsScreen f → (m.screenNode f).pid = m.onFocusPid → link (m.screenNode f) = NULL) ∨
        ¬ (∀ f, m.IsScreen f → (m.screenNode f).pid = m.onFocusPid → link (m.screenNode f) = NULL) ∧
          Near VIDEO m'.video.currentPosition) := by
  obtain ⟨m₁, hreturns, hrep, hcases⟩ := h.followLink hlink
  obtain rfl := hreturns.eq hrun
  rcases hcases with ⟨rfl, hlast⟩ | ⟨⟨f, hf, hpid, hnext⟩, x, hx, m₂, hsaved, rfl⟩
  · exact ⟨⟨⟨xs, h, fun _ hy => hy⟩, hinit, .refl _ xs⟩,
      .inl ⟨rfl, fun f hf hpid => hlast f (h.isScreen_iff.mp hf) hpid⟩⟩
  · refine ⟨h.loaded_display hinit hsaved hx hrep, .inr ⟨fun hlast => ?_, m₂.near_display x _⟩⟩
    exact hnext (hlast f (h.isScreen_iff.mpr hf) hpid)

theorem loaded_loadScreen (h : RepScreens m xs others) (hinit : m.kernel.memory.initMem = 0x1000000)
    {pid : Int} (hpid : 0 ≤ pid) {fuel : Nat} (hrun : BasicKernel.loadScreen fuel m pid = .ok (1, m')) :
    m.Loaded xs others m' ∧ Near VIDEO m'.video.currentPosition := by
  -- The process has a screen already or is given one first; refused it would have returned 0.
  rcases h.loadScreen hpid with
    ⟨m₀, xs', x, m₁, hensured, hrep₀, hsaved, hreturns, hrep'⟩ | ⟨m₁, -, -, hreturns, -⟩
  · obtain ⟨-, rfl⟩ := Prod.mk.inj (hreturns.eq hrun)
    refine ⟨?_, m₁.near_display x pid⟩
    cases hensured with
    | found hx hxpid =>
        subst hxpid
        exact h.loaded_display hinit hsaved hx hrep'
    | @created _ screen memory _ hfresh _ hinit₀ =>
        have hx : x ∈ xs ++ [x] := List.mem_append_right _ (List.mem_singleton_self _)
        have hsub : ∀ y ∈ xs, y ∈ xs ++ [x] := fun y hy => List.mem_append_left _ hy
        have hinit' : (m.withScreen xs x screen memory pid).kernel.memory.initMem = 0x1000000 :=
          hinit₀.trans hinit
        have hnew := withScreen_samePages hfresh hrep₀ hinit'
        have hnode : ((m.withScreen xs x screen memory pid).screenNode x).pid = pid :=
          withScreen_pid hfresh m screen memory
        have hloaded := hrep₀.loaded_display hinit' hsaved hx
        rw [hnode] at hloaded
        obtain ⟨-, hinit₁, hpages⟩ := hloaded hrep'
        exact ⟨⟨_, hrep', hsub⟩, hinit₁, hnew.trans hpages hsub⟩
  · exact absurd (Prod.mk.inj (hreturns.eq hrun)).1 (by decide)

/-- One call. -/
theorem loads (h : RepScreens m xs others) (hinit : m.kernel.memory.initMem = 0x1000000)
    (hop : op.Loads m m') : m.Loaded xs others m' ∧
      (m' = m ∧ op.Stays m ∨ ¬ op.Stays m ∧ Near VIDEO m'.video.currentPosition) := by
  cases op with
  | loadScreen pid =>
      obtain ⟨hpid, fuel, hrun⟩ := hop
      obtain ⟨hloaded, hnear⟩ := h.loaded_loadScreen hinit hpid hrun
      exact ⟨hloaded, .inr ⟨id, hnear⟩⟩
  | loadNextScreen =>
      obtain ⟨fuel, hrun⟩ := hop
      exact h.loaded_followLink hinit h.next_mem hrun
  | loadPreviousScreen =>
      obtain ⟨fuel, hrun⟩ := hop
      exact h.loaded_followLink hinit h.prev_mem hrun
  | removeScreen _ | write _ | clearScreen | ps _ _ => exact hop.elim

/-- Any number of calls. The first one that does something makes the cursor a near one. -/
theorem loadsAll (h : RepScreens m xs others) (hinit : m.kernel.memory.initMem = 0x1000000)
    (hops : LoadsAll m ops m') : m.Loaded xs others m' ∧
      (m' = m ∧ (∀ op ∈ ops, op.Stays m) ∨
        ¬ (∀ op ∈ ops, op.Stays m) ∧ Near VIDEO m'.video.currentPosition) := by
  induction ops generalizing m xs with
  | nil =>
      obtain rfl : m' = m := hops
      exact ⟨⟨⟨xs, h, fun _ hy => hy⟩, hinit, .refl m' xs⟩, .inl ⟨rfl, fun _ hop => absurd hop List.not_mem_nil⟩⟩
  | cons op ops ih =>
      obtain ⟨m₁, hop, hops⟩ := hops
      obtain ⟨⟨⟨xs₁, h₁, hsub₁⟩, hinit₁, hpages₁⟩, hstep⟩ := h.loads hinit hop
      obtain ⟨⟨⟨xs₂, h₂, hsub₂⟩, hinit₂, hpages₂⟩, hrest⟩ := ih h₁ hinit₁ hops
      refine ⟨⟨⟨xs₂, h₂, fun y hy => hsub₂ y (hsub₁ y hy)⟩, hinit₂, hpages₁.trans hpages₂ hsub₁⟩, ?_⟩
      rw [List.forall_mem_cons]
      rcases hstep with ⟨rfl, hstays⟩ | ⟨hmoves, hnear⟩
      · rcases hrest with ⟨rfl, hall⟩ | ⟨hsome, hnear⟩
        · exact .inl ⟨rfl, hstays, hall⟩
        · exact .inr ⟨fun hall => hsome hall.2, hnear⟩
      · refine .inr ⟨fun hall => hmoves hall.1, ?_⟩
        rcases hrest with ⟨rfl, -⟩ | ⟨-, hnear'⟩
        · exact hnear
        · exact hnear'

end RepScreens

end Loads

/-! ## The saved cursors

A saved cursor was an `int` away from its screen when it was saved. Writing moves it on, and the
screen scrolls before it gets far. -/

namespace Video

variable {v : Video} {s : Nat}

theorem checkEndOfScreen_lt (v : Video) (s : Nat) (cursor : CursorVar) :
    (checkEndOfScreen v s cursor).pos cursor < s + WINDOW_SIZE := by
  unfold BasicKernel.checkEndOfScreen
  split
  case isTrue =>
    unfold BasicKernel.moveScreenUp
    rw [pos_setPos]
    show s + 4000 - 160 < s + 4000
    omega
  case isFalse hlt => exact Nat.lt_of_not_ge hlt

/-- Behind a string the cursor of the saved screen is not behind the screen. -/
theorem writeTo_pos (w : List UInt8) : ∀ {v : Video},
    (writeTo s v w).2.myScreenPos = v.myScreenPos ∨ (writeTo s v w).2.myScreenPos < s + WINDOW_SIZE := by
  induction w with
  | nil => exact .inl rfl
  | cons c w ih =>
      intro v
      unfold writeTo
      by_cases hc : c = 0
      · rw [if_pos hc]
        exact .inl rfl
      rw [if_neg hc]
      have hchar : (printCharactersInner v c s .myScreenPos).myScreenPos < s + WINDOW_SIZE :=
        checkEndOfScreen_lt _ s .myScreenPos
      rcases @ih (printCharactersInner v c s .myScreenPos) with hsame | hlt
      · exact .inr (hsame ▸ hchar)
      · exact .inr hlt

end Video

section Saved

variable {m m' m₁ : Machine} {xs : List Addr} {others : List (Addr × Nat)} {pid : Int} {x a b : Addr}
  {fuel : Nat}

/-- The saved cursors are near their screens. -/
def Machine.SavedNear (m : Machine) (xs : List Addr) : Prop :=
  ∀ x ∈ xs, Near (m.screenNode x).screen (m.screenNode x).currentPosition

def Machine.CursorsNear (m : Machine) : Prop :=
  ∀ x, m.IsScreen x → Near (m.screenNode x).screen (m.screenNode x).currentPosition

theorem RepScreens.cursorsNear_iff (h : RepScreens m xs others) : m.CursorsNear ↔ m.SavedNear xs :=
  ⟨fun hc x hx => hc x (h.isScreen_iff.mpr hx), fun hc x hx => hc x (h.isScreen_iff.mp hx)⟩

/-- The screens are below 128 MB. -/
theorem RepScreens.screen_bounds (h : RepScreens m xs others) (hinit : m.kernel.memory.initMem = 0x1000000)
    (hpages : m.pages ≤ 0x7000) (hx : x ∈ xs) : (m.screenNode x).screen + WINDOW_SIZE ≤ 0x8000000 := by
  obtain ⟨live, hc, hlive⟩ := h.owns.live
  have hvalid := hc.valid _ (hlive _ (screen_mem hx))
  have hblocks : ∀ s b n initMem : Nat, ∀ blocksAmount : Int, 1 ≤ n → s = initMem + b * 4096 →
      ((b + n : Nat) : Int) ≤ blocksAmount → initMem = 0x1000000 → blocksAmount ≤ 0x7000 →
      s + 4000 ≤ 0x8000000 := by
    intro s b n initMem blocksAmount hn haligned hinside hinit hpages
    omega
  exact hblocks _ _ _ _ _ (one_le_sizeBlocks hvalid.pos) hvalid.aligned hvalid.inside hinit hpages

theorem Machine.NoMemory.congr (h : m.NoMemory) (hkernel : m'.kernel = m.kernel) : m'.NoMemory := by
  have hcall : ∀ {m m' m₁ : Machine} {size : Nat} {p : Addr}, m'.kernel = m.kernel →
      m.allocate size = .ok (p, m₁) → ∃ m₂, m'.allocate size = .ok (p, m₂) ∧ m₂.kernel = m₁.kernel := by
    intro m m' m₁ size p hkernel hcall
    obtain ⟨⟨q, kernel⟩, hallocate, hcall⟩ := bind_eq_ok.mp hcall
    obtain ⟨rfl, rfl⟩ := Prod.mk.inj (Except.ok.inj hcall)
    refine ⟨{ m' with kernel }, ?_, rfl⟩
    rw [Machine.allocate, hkernel, hallocate]
    rfl
  rcases h with ⟨m₁, hnode⟩ | ⟨node, m₁, m₂, hne, hnode, hscreen⟩
  · obtain ⟨m₁', hnode', -⟩ := hcall hkernel hnode
    exact .inl ⟨m₁', hnode'⟩
  · obtain ⟨m₁', hnode', hkernel₁⟩ := hcall hkernel hnode
    obtain ⟨m₂', hscreen', -⟩ := hcall hkernel₁ hscreen
    exact .inr ⟨node, m₁', m₂', hne, hnode', hscreen'⟩

/-- The process gets the node `b` whenever it asks: it is its own, or there is no memory for one and it is the
first one. -/
structure Machine.Gets (m : Machine) (xs : List Addr) (others : List (Addr × Nat)) (pid : Int) (b : Addr) :
    Prop where
  rep : RepScreens m xs others
  cur : getCurrentPid m.kernel = .ok pid
  mem : b ∈ xs
  node : (m.screenNode b).pid = pid ∨
    b = m.list ∧ m.NoMemory ∧ ∀ x ∈ xs, (m.screenNode x).pid ≠ pid

namespace RepScreens

theorem head_mem (h : RepScreens m xs others) (hxs : xs ≠ []) : m.list ∈ xs := by
  have hhead : m.list = xs.headD NULL := h.links.head
  cases xs with
  | nil => exact absurd rfl hxs
  | cons x xs =>
      rw [hhead]
      exact List.mem_cons_self

theorem find_none (h : RepScreens m xs others) (hnone : ∀ x ∈ xs, (m.screenNode x).pid ≠ pid)
    (hfind : findScreenNodeByPid fuel m pid = .ok a) : a = NULL := by
  rcases findScreenNodeByPid_cases h.links.chain pid with ⟨A, x, B, rfl, hx, -⟩ | ⟨-, hreturns⟩
  · exact absurd hx (hnone x (List.mem_append_right A List.mem_cons_self))
  · exact hreturns.eq hfind

/-- A process that has no node calls `addScreen`. -/
theorem getCurrentScreenNode_none (h : RepScreens m xs others) (hcur : getCurrentPid m.kernel = .ok pid)
    (hnone : ∀ x ∈ xs, (m.screenNode x).pid ≠ pid)
    (hrun : BasicKernel.getCurrentScreenNode fuel m = .ok (a, m')) :
    BasicKernel.addScreen fuel m m.list NULL pid = .ok (a, m') := by
  obtain ⟨pid₁, hcur₁, hrun⟩ := bind_eq_ok.mp hrun
  obtain rfl := Except.ok.inj (hcur.symm.trans hcur₁)
  obtain ⟨node, hfind, hrun⟩ := bind_eq_ok.mp hrun
  rw [if_pos (h.find_none hnone hfind)] at hrun
  obtain ⟨pid₂, hcur₂, hrun⟩ := bind_eq_ok.mp hrun
  obtain rfl := Except.ok.inj (hcur.symm.trans hcur₂)
  exact hrun

/-- Without memory the kernel is as before. -/
theorem refused_kernel (h : RepScreens m xs others) (hnew : newScreenNode m = .ok (NULL, m'))
    (hrefused : m.Refused xs m') : m.NoMemory ∧ m'.kernel = m.kernel ∧ m'.video = m.video ∧
      m'.list = m.list := by
  obtain ⟨hmemory, hsame⟩ := newScreenNode_refused h.owns hnew
  obtain ⟨memory, -, heq⟩ := hrefused.kernel
  have hmemory' : m'.kernel.memory = memory := by rw [heq]; rfl
  obtain rfl := hmemory'.symm.trans hsame
  refine ⟨hmemory, ?_, ?_, ?_⟩ <;> rw [heq] <;> rfl

end RepScreens

namespace Machine

/-- It gets that node again. -/
theorem Gets.again (h : m.Gets xs others pid b) (hpid : 0 ≤ pid)
    (hrun : getCurrentScreenNode fuel m = .ok (a, m')) : a = b ∧ m'.Gets xs others pid b ∧
      (∀ x ∈ xs, m'.screenNode x = m.screenNode x) ∧ m'.video = m.video := by
  rcases h.node with hown | ⟨hfirst, hmemory, hnone⟩
  · have hreturns := h.rep.getCurrentScreenNode_of_mem h.mem (by rw [hown]; exact h.cur)
    obtain ⟨rfl, rfl⟩ := Prod.mk.inj (hreturns.eq hrun)
    exact ⟨rfl, h, fun _ _ => rfl, rfl⟩
  · have hadd := h.rep.getCurrentScreenNode_none h.cur hnone hrun
    rcases h.rep.addScreen hpid hnone with
      ⟨node, screen, memory, -, ⟨hne, m₁, hnew⟩, -⟩ | ⟨m₁, hreturns, hnew, hrefused, hrep⟩
    · exact absurd (newScreenNode_noMemory hmemory hnew) hne
    · obtain ⟨rfl, rfl⟩ := Prod.mk.inj (hreturns.eq hadd)
      obtain ⟨-, hkernel, hvideo, hlist⟩ := h.rep.refused_kernel hnew hrefused
      refine ⟨hfirst.symm, ⟨hrep, by rw [hkernel]; exact h.cur, h.mem, .inr ⟨?_, hmemory.congr hkernel, ?_⟩⟩,
        hrefused.kept, hvideo⟩
      · rw [hlist]
        exact hfirst
      · intro x hx
        rw [hrefused.kept x hx]
        exact hnone x hx

theorem Gets.withVideo (h : m.Gets xs others pid b) (video : Video) :
    { m with video }.Gets xs others pid b := by
  refine ⟨h.rep.withVideo video, h.cur, h.mem, ?_⟩
  rcases h.node with hown | ⟨hfirst, hmemory, hnone⟩
  · exact .inl hown
  · exact .inr ⟨hfirst, hmemory.congr rfl, hnone⟩

/-- The cursor of a new node is at the start of its screen. -/
theorem SavedNear.withScreen {node screen : Addr} {memory : MemoryManager} (h : m.SavedNear xs)
    (hfresh : node ∉ xs) (hrep : RepScreens (m.withScreen xs node screen memory pid) (xs ++ [node]) others) :
    (m.withScreen xs node screen memory pid).SavedNear (xs ++ [node]) := by
  intro x hx
  have hle := hrep.screen_le hx
  -- An older cursor is what it was, as at most the link of its node has changed.
  rcases List.mem_append.mp hx with hx | hx
  · have hne : x ≠ node := fun heq => hfresh (heq ▸ hx)
    obtain ⟨next, hnext⟩ := Machine.linkScreen_of_ne { m.withMemory memory with
      video := clear m.video screen
      screenNode := Function.update m.screenNode node
        { m.screenNode node with screen := screen, currentPosition := screen } } xs NULL pid hne
    have hnode : (m.withScreen xs node screen memory pid).screenNode x = { m.screenNode x with next := next } := by
      refine hnext.trans ?_
      dsimp only
      rw [Function.update_of_ne hne]
    rw [hnode]
    exact h x hx
  -- The new node is the last, with its cursor at the start.
  · obtain rfl := List.mem_singleton.mp hx
    have hnode : (m.withScreen xs x screen memory pid).screenNode x =
        { m.screenNode x with
          screen := screen, currentPosition := screen, pid := pid, next := NULL, prev := xs.getLastD NULL } := by
      refine (Machine.linkScreen_self _ NULL pid hfresh).trans ?_
      dsimp only
      rw [Function.update_self]
    rw [hnode] at hle ⊢
    have hstart : ∀ s : Nat, s + 4000 ≤ 2 ^ 64 → Near s s :=
      fun s hs => near_of_bounds (by omega) (by omega) (by omega)
    exact hstart screen hle

/-- The first time it may be given the first node, although it has a new one of its own. -/
theorem SavedNear.getCurrentScreenNode (h : m.SavedNear xs) (hrep : RepScreens m xs others)
    (hcur : getCurrentPid m.kernel = .ok pid) (hpid : 0 ≤ pid) (hxs : xs ≠ [])
    (hrun : BasicKernel.getCurrentScreenNode fuel m = .ok (a, m')) :
    ∃ xs' b, m'.Gets xs' others pid b ∧ a ∈ xs' ∧ m'.SavedNear xs' ∧
      m'.kernel.memory.initMem = m.kernel.memory.initMem := by
  -- A process that has a screen gets its own node.
  by_cases hown : ∃ x ∈ xs, (m.screenNode x).pid = pid
  · obtain ⟨x, hx, rfl⟩ := hown
    obtain ⟨rfl, rfl⟩ := Prod.mk.inj ((hrep.getCurrentScreenNode_of_mem hx hcur).eq hrun)
    exact ⟨xs, a, ⟨hrep, hcur, hx, .inl rfl⟩, hx, h, rfl⟩
  -- Otherwise one is made, or refused, and then the call returns the first node of the list.
  have hnone : ∀ x ∈ xs, (m.screenNode x).pid ≠ pid := fun x hx heq => hown ⟨x, hx, heq⟩
  have hadd := hrep.getCurrentScreenNode_none hcur hnone hrun
  rcases hrep.addScreen hpid hnone with
    ⟨node, screen, memory, hreturns, -, hfresh, hinit, -, hrep'⟩ | ⟨m₁, hreturns, hnew, hrefused, hrep'⟩
  · obtain ⟨rfl, rfl⟩ := Prod.mk.inj (hreturns.eq hadd)
    -- the list is not empty: its first node stays
    have hlist : m.withScreen xs node screen memory pid = m.withNode xs node screen memory pid := by
      have hhead : m.list = xs.headD NULL := hrep.links.head
      cases xs with
      | nil => exact absurd rfl hxs
      | cons x xs =>
          have hsame : m.list = (x :: xs ++ [node]).headD NULL := hhead
          unfold Machine.withScreen
          rw [← hsame]
          rfl
    have hnear := h.withScreen hfresh hrep'
    have hnode : ((m.withScreen xs node screen memory pid).screenNode node).pid = pid :=
      RepScreens.withScreen_pid hfresh m screen memory
    rw [hlist] at hrep' hnear hnode
    have hmem : node ∈ xs ++ [node] := List.mem_append_right _ (List.mem_singleton_self _)
    refine ⟨_, node, ⟨hrep', ?_, hmem, .inl hnode⟩, ?_, hnear, hinit⟩
    · exact hcur
    · exact hrep'.links.head ▸ hrep'.head_mem (List.append_ne_nil_of_right_ne_nil _ (List.cons_ne_nil _ _))
  -- The refusal has changed no node of the list.
  · obtain ⟨rfl, rfl⟩ := Prod.mk.inj (hreturns.eq hadd)
    obtain ⟨hmemory, hkernel, -, hlist⟩ := hrep.refused_kernel hnew hrefused
    refine ⟨xs, m.list, ⟨hrep', by rw [hkernel]; exact hcur, hrep.head_mem hxs, .inr ⟨hlist.symm,
      hmemory.congr hkernel, fun x hx => ?_⟩⟩, hrep.head_mem hxs, fun x hx => ?_, by rw [hkernel]⟩
    · rw [hrefused.kept x hx]
      exact hnone x hx
    · rw [hrefused.kept x hx]
      exact h x hx

/-- A field of the node that the process gets. -/
theorem Gets.currentField (h : m.Gets xs others pid b) (hpid : 0 ≤ pid) {field : ScreenNode → Addr}
    (hrun : (do
      let (node, m) ← getCurrentScreenNode fuel m
      if node = NULL then
        return (NULL, m)
      return (field (← load m.screenNode node), m)) = .ok (a, m')) :
    a = field (m.screenNode b) ∧ m'.Gets xs others pid b ∧ ∀ x ∈ xs, m'.screenNode x = m.screenNode x := by
  obtain ⟨⟨node, m₁⟩, hnode, hrun⟩ := bind_eq_ok.mp hrun
  obtain ⟨rfl, hgets, hkept, -⟩ := h.again hpid hnode
  have hne := h.rep.ne_null h.mem
  dsimp only at hrun
  rw [if_neg hne, load_of_ne hne, ok_bind] at hrun
  obtain ⟨rfl, rfl⟩ := Prod.mk.inj (Except.ok.inj hrun)
  exact ⟨congrArg field (hkept _ h.mem), hgets, hkept⟩

/-- Also if a process writes on the screen of another one, the cursor that it leaves is near. -/
theorem SavedNear.write (h : m.SavedNear xs) (hrep : RepScreens m xs others)
    (hinit : m.kernel.memory.initMem = 0x1000000) (hpages : m.pages ≤ 0x7000)
    (hcur : getCurrentPid m.kernel = .ok pid) (hpid : 0 ≤ pid) {buf : List UInt8} {i : Nat}
    (hrun : BasicKernel.write fuel m buf = .ok (i, m')) :
    m'.CursorsNear := by
  have hlist := (write_frame hrun).2
  by_cases hxs : xs = []
  · -- the list stays empty
    subst hxs
    have hnull : m.list = NULL := hrep.links.head
    intro x hx
    rw [hnull] at hlist
    have hempty : Chain m'.nextScreen NULL m'.list [] := Chain.nil_iff.mpr hlist
    exact absurd (hempty.onChain_iff.mp hx) List.not_mem_nil
  -- On focus the saved cursors are not used.
  obtain ⟨onFocus, -, hrun⟩ := bind_eq_ok.mp hrun
  cases onFocus with
  | true =>
      obtain ⟨-, rfl⟩ := Prod.mk.inj (Except.ok.inj hrun)
      exact fun x hx => h x ((hrep.withVideo _).isScreen_iff.mp hx)
  | false =>
      obtain ⟨⟨myScreen, m₁⟩, hscreen, hrun⟩ := bind_eq_ok.mp hrun
      obtain ⟨⟨myScreenPos, m₂⟩, hpos, hrun⟩ := bind_eq_ok.mp hrun
      obtain ⟨m₃, hset, hrun⟩ := bind_eq_ok.mp hrun
      obtain ⟨-, rfl⟩ := Prod.mk.inj (Except.ok.inj hrun)
      -- The three lookups of the source: for the page, for the cursor and for the store.
      obtain ⟨⟨a, m₀⟩, hnode, hscreen⟩ := bind_eq_ok.mp hscreen
      have hpages₀ : m₀.pages ≤ 0x7000 := (getCurrentScreenNode_frame hnode).1 ▸ hpages
      obtain ⟨ys, b, hgets, ha, hnear, hinit₀⟩ := h.getCurrentScreenNode hrep hcur hpid hxs hnode
      rw [hinit] at hinit₀
      have hne := hgets.rep.ne_null ha
      dsimp only at hscreen
      rw [if_neg hne, load_of_ne hne, ok_bind] at hscreen
      obtain ⟨rfl, rfl⟩ := Prod.mk.inj (Except.ok.inj hscreen)
      obtain ⟨rfl, hgets₂, hkept₂⟩ := hgets.currentField hpid hpos
      obtain ⟨⟨c, m₄⟩, hnode₄, hset⟩ := bind_eq_ok.mp hset
      obtain ⟨rfl, hgets₄, hkept₄, -⟩ := (hgets₂.withVideo _).again hpid hnode₄
      have hkept : ∀ x ∈ ys, m₄.screenNode x = m₀.screenNode x :=
        fun x hx => (hkept₄ x hx).trans (hkept₂ x hx)
      dsimp only at hset
      rw [Machine.modifyScreenNode_of_ne (hgets₄.rep.ne_null hgets₄.mem)] at hset
      obtain rfl := Except.ok.inj hset
      have hrep₃ := hgets₄.rep.setCursor c (writeTo (m₀.screenNode a).screen
        { m₂.video with myScreenPos := (m₀.screenNode c).currentPosition } buf).2.myScreenPos
      intro x hx
      -- Only the cursor of the node that is stored to may have moved.
      rw [hrep₃.isScreen_iff] at hx
      by_cases hxc : x = c
      · subst hxc
        dsimp only
        rw [Function.update_self, hkept x hx]
        rcases Video.writeTo_pos (s := (m₀.screenNode a).screen) buf
          (v := { m₂.video with myScreenPos := (m₀.screenNode x).currentPosition }) with hsame | hlt
        -- It has not moved, or it is below the end of the page that was written, hence inside the
        -- heap.
        · rw [hsame]
          exact hnear x hx
        · have hbounds : ∀ s t p : Nat, s + 4000 ≤ 0x8000000 → 0x1000000 ≤ t → t + 4000 ≤ 0x8000000 →
              p < s + 4000 → Near t p :=
            fun s t p hs htlo hthi hp => near_of_bounds (by omega) (by omega) (by omega)
          exact hbounds _ _ _ (hgets.rep.screen_bounds hinit₀ hpages₀ ha) (hgets.rep.screen_ge hinit₀ hx)
            (hgets.rep.screen_bounds hinit₀ hpages₀ hx) hlt
      · dsimp only
        rw [Function.update_of_ne hxc, hkept x hx]
        exact hnear x hx

/-- A cursor that is saved is near. -/
theorem SavedNear.of_saved (h : m.SavedNear xs) (hs : m.Saved xs m₁) : m₁.SavedNear xs := by
  cases hs with
  | nobody => exact h
  | @node f hf _ =>
      intro x hx
      by_cases hxf : x = f
      · subst hxf
        show Near (Function.update m.screenNode x _ x).screen (Function.update m.screenNode x _ x).currentPosition
        rw [Function.update_self]
        exact near_toUInt64 _ _ _
      · show Near (Function.update m.screenNode f _ x).screen (Function.update m.screenNode f _ x).currentPosition
        rw [Function.update_of_ne hxf]
        exact h x hx

theorem SavedNear.of_switched (h : m.SavedNear xs) (hs : m.Switched xs m') : m'.SavedNear xs := by
  cases hs with
  | same => exact h
  | shown hsaved =>
      have hnear := h.of_saved hsaved
      exact fun x hx => hnear x hx

/-- Every call keeps the saved cursors near. -/
theorem CursorsNear.run (hc : m.CursorsNear) (h : m.Sane others) (hpages : m.pages ≤ 0x7000) {op : MachineOp}
    (hop : op.Asked m) (hrun : op.run fuel m = .ok m') : m'.CursorsNear := by
  obtain ⟨xs, lost, hrep⟩ := h.list
  have hnear := hrep.cursorsNear_iff.mp hc
  -- One case for each call; a new node begins near, a shown one is saved near.
  cases op with
  | loadScreen pid =>
      obtain ⟨⟨r, m₂⟩, hload, hrun⟩ := bind_eq_ok.mp hrun
      obtain rfl := Except.ok.inj hrun
      rcases hrep.loadScreen hop with
        ⟨m₀, xs', x, m₁, hensured, hrep₀, hsaved, hreturns, hrep'⟩ | ⟨m₁, hrefused, -, hreturns, hrep'⟩
      · obtain ⟨-, rfl⟩ := Prod.mk.inj (hreturns.eq hload)
        have hnear₀ : m₀.SavedNear xs' := by
          cases hensured with
          | found => exact hnear
          | created _ hfresh => exact hnear.withScreen hfresh hrep₀
        have hnear₁ : m₁.SavedNear xs' := hnear₀.of_saved hsaved
        exact hrep'.cursorsNear_iff.mpr hnear₁
      · obtain ⟨-, rfl⟩ := Prod.mk.inj (hreturns.eq hload)
        refine hrep'.cursorsNear_iff.mpr fun x hx => ?_
        rw [hrefused.kept x hx]
        exact hnear x hx
  | removeScreen pid =>
      rcases hrep.removeScreen pid with
        ⟨A, c, B, memory, rfl, -, -, hreturns, hrep'⟩ | ⟨-, hreturns, hrep'⟩
      · obtain rfl := hreturns.eq hrun
        -- Taking a node out moves no cursor.
        refine hrep'.cursorsNear_iff.mpr fun x hx => ?_
        obtain ⟨next, prev, heq⟩ := (m.unfocus pid).unlinkScreen_same A B NULL x
        have hnode : (((m.unfocus pid).withoutScreen A B memory).screenNode x) =
            { m.screenNode x with next := next, prev := prev } := heq
        rw [hnode]
        refine hnear x ?_
        rcases List.mem_append.mp hx with hx | hx
        · exact List.mem_append_left _ hx
        · exact List.mem_append_right _ (List.mem_cons_of_mem c hx)
      · obtain rfl := hreturns.eq hrun
        exact hrep'.cursorsNear_iff.mpr hnear
  | loadNextScreen =>
      obtain ⟨m₁, hreturns, hswitched, hrep'⟩ := hrep.loadNextScreen
      obtain rfl := hreturns.eq hrun
      exact hrep'.cursorsNear_iff.mpr (hnear.of_switched hswitched)
  | loadPreviousScreen =>
      obtain ⟨m₁, hreturns, hswitched, hrep'⟩ := hrep.loadPreviousScreen
      obtain rfl := hreturns.eq hrun
      exact hrep'.cursorsNear_iff.mpr (hnear.of_switched hswitched)
  | write buf =>
      obtain ⟨pid, hpid, hcur⟩ := hop
      obtain ⟨⟨i, m₁⟩, hwrite, hrun⟩ := bind_eq_ok.mp hrun
      obtain rfl := Except.ok.inj hrun
      exact hnear.write hrep h.initMem hpages hcur hpid hwrite
  | clearScreen =>
      obtain rfl := Except.ok.inj hrun
      exact (hrep.withVideo _).cursorsNear_iff.mpr hnear
  | ps i headerI =>
      obtain ⟨video, -, hrun⟩ := bind_eq_ok.mp hrun
      obtain rfl := Except.ok.inj hrun
      exact (hrep.withVideo _).cursorsNear_iff.mpr hnear

theorem start_pages (h : MachineStart (m, others)) : m.pages ≤ 0x7000 := by
  obtain ⟨⟨fuel, r, hfuel, hinit, -⟩, -⟩ := h
  have hmemory : startMemory = m.kernel.memory :=
    (Prod.mk.inj (Except.ok.inj ((memAllocatorInit_start hfuel).symm.trans hinit))).2
  show m.kernel.memory.blocksAmount ≤ 0x7000
  rw [← hmemory]
  decide

/-- In every run the saved cursors are near, however far the video cursor is away. -/
theorem CursorsNear.of_reachable (h : Reachable MachineStart (MachineStep fun _ _ => True) (m, others)) :
    m.CursorsNear := by
  refine (h.invariant (I := fun s => s.1.CursorsNear ∧ s.1.pages ≤ 0x7000) ?_ ?_).1
  · rintro ⟨m, others⟩ hstart
    refine ⟨fun x hx => ?_, start_pages hstart⟩
    exact absurd ((ScreenStart.rep hstart.1).1.isScreen_iff.mp hx) List.not_mem_nil
  · rintro _ _ hreach ⟨hnear, hpages⟩ hstep
    cases hstep with
    | call hop _ hrun =>
        have hpages' := MachineOp.run_pages hrun
        exact ⟨hnear.run (Machine.Sane.of_reachable hreach) hpages hop hrun, hpages' ▸ hpages⟩
    | elsewhere hmem =>
        refine ⟨hnear, ?_⟩
        exact (le_of_eq hmem.blocksAmount).trans hpages

end Machine

end Saved

/-! ## Screens are restored

Only the cursor of the video screen can be far away, and only at the first switch. -/

section Restored

variable {m m' : Machine} {xs : List Addr} {others : List (Addr × Nat)} {ops : List MachineOp}

/-- The video screen, and the screens of the processes that are not on focus, are as before. -/
structure Machine.Restored (m m' : Machine) : Prop where
  byte : ∀ i < WINDOW_SIZE, m'.video.char (VIDEO + i) = m.video.char (VIDEO + i)
  cursor : m'.video.currentPosition = m.video.currentPosition
  saved : ∀ y, m.IsScreen y → (m.screenNode y).pid ≠ m.onFocusPid →
    m'.IsScreen y ∧ (m.screenNode y).Same (m'.screenNode y) ∧
    (m'.screenNode y).currentPosition = (m.screenNode y).currentPosition ∧
    ∀ i < WINDOW_SIZE, m'.video.char ((m.screenNode y).screen + i) = m.video.char ((m.screenNode y).screen + i)

/-- The calls are steps of the machine. -/
theorem LoadsAll.reachable (h : Reachable MachineStart (MachineStep fun _ _ => True) (m, others))
    (hops : LoadsAll m ops m') : Reachable MachineStart (MachineStep fun _ _ => True) (m', others) := by
  induction ops generalizing m with
  | nil =>
      obtain rfl : m' = m := hops
      exact h
  | cons op ops ih =>
      obtain ⟨m₁, hop, hops⟩ := hops
      refine ih (h.next ?_) hops
      cases op with
      | loadScreen pid =>
          obtain ⟨hpid, fuel, hrun⟩ := hop
          exact @MachineStep.call _ m m₁ others (.loadScreen pid) fuel hpid trivial
            (bind_eq_ok.mpr ⟨_, hrun, rfl⟩)
      | loadNextScreen =>
          obtain ⟨fuel, hrun⟩ := hop
          exact @MachineStep.call _ m m₁ others .loadNextScreen fuel trivial trivial hrun
      | loadPreviousScreen =>
          obtain ⟨fuel, hrun⟩ := hop
          exact @MachineStep.call _ m m₁ others .loadPreviousScreen fuel trivial trivial hrun
      | removeScreen _ | write _ | clearScreen | ps _ _ => exact hop.elim

namespace RepScreens

/-- The same pages, and cursors that are near before and after. -/
theorem restored (h : RepScreens m xs others) (hloaded : m.Loaded xs others m') (hc : m.CursorsNear)
    (hc' : m'.CursorsNear) (hscreen : m.HasScreen m.onFocusPid) (hback : m'.onFocusPid = m.onFocusPid)
    (hnear : Near VIDEO m.video.currentPosition) (hnear' : Near VIDEO m'.video.currentPosition) :
    m.Restored m' := by
  obtain ⟨⟨xs', hrep', hsub⟩, -, hpages⟩ := hloaded
  -- The process on focus is the same, so its page is the video memory both times.
  obtain ⟨f, hf, hfocus⟩ := hscreen
  rw [h.isScreen_iff] at hf
  have hfocus' : (m'.screenNode f).pid = m'.onFocusPid := by
    rw [(hpages.node f hf).pid, hfocus, hback]
  have hbyte := hpages.byte f hf
  have hdistance := hpages.distance f hf
  rw [Machine.screenAt_focus hfocus, Machine.screenAt_focus hfocus'] at hbyte hdistance
  rw [Machine.cursorAt_focus hfocus, Machine.cursorAt_focus hfocus'] at hdistance
  refine ⟨hbyte, ?_, fun y hy hoff => ?_⟩
  · rw [hnear'.eq, hdistance, ← hnear.eq]
  -- Any other screen is in its node both times.
  · have hy' := h.isScreen_iff.mp hy
    have hsame := hpages.node y hy'
    have hscreen' : m'.IsScreen y := hrep'.isScreen_iff.mpr (hsub y hy')
    have hoff' : (m'.screenNode y).pid ≠ m'.onFocusPid := by
      rw [hsame.pid, hback]
      exact hoff
    have hbyte := hpages.byte y hy'
    have hdistance := hpages.distance y hy'
    rw [Machine.screenAt_off hoff, Machine.screenAt_off hoff', hsame.screen] at hbyte hdistance
    rw [Machine.cursorAt_off hoff, Machine.cursorAt_off hoff'] at hdistance
    refine ⟨hscreen', hsame, ?_, hbyte⟩
    -- Near cursors with the same distance are the same cursor.
    have hcursor' := (hc' y hscreen').eq
    rw [hsame.screen] at hcursor'
    rw [hcursor', hdistance, ← (hc y hy).eq]

/-- If a call does something, the cursor has to be near. -/
theorem restored_iff (h : RepScreens m xs others) (hinit : m.kernel.memory.initMem = 0x1000000)
    (hc : m.CursorsNear) (hc' : m'.CursorsNear) (hscreen : m.HasScreen m.onFocusPid)
    (hops : LoadsAll m ops m') (hback : m'.onFocusPid = m.onFocusPid) :
    m.Restored m' ↔ (∀ op ∈ ops, op.Stays m) ∨ Near VIDEO m.video.currentPosition := by
  obtain ⟨hloaded, hcases⟩ := h.loadsAll hinit hops
  rcases hcases with ⟨rfl, hstays⟩ | ⟨hmoves, hnear'⟩
  · refine iff_of_true ⟨fun _ _ => rfl, rfl, fun y hy _ => ⟨hy, ⟨rfl, rfl⟩, rfl, fun _ _ => rfl⟩⟩ (.inl hstays)
  · constructor
    · intro hrestored
      rw [← hrestored.cursor]
      exact .inr hnear'
    · rintro (hstays | hnear)
      · exact absurd hstays hmoves
      · exact h.restored hloaded hc hc' hscreen hback hnear hnear'

end RepScreens

/-- Screens are switched any number of times, and at the end the same process is on focus: everything is as
before if and only if the video cursor is near the screen, or no call does anything. -/
theorem switching_restores_iff {m m' : Machine} {others : List (Addr × Nat)} {ops : List MachineOp}
    (h : Reachable MachineStart (MachineStep fun _ _ => True) (m, others))
    (hscreen : m.HasScreen m.onFocusPid) (hops : LoadsAll m ops m') (hback : m'.onFocusPid = m.onFocusPid) :
    m.Restored m' ↔ (∀ op ∈ ops, op.Stays m) ∨ Near VIDEO m.video.currentPosition := by
  obtain ⟨xs, lost, hrep⟩ := (Machine.Sane.of_reachable h).list
  exact hrep.restored_iff (Machine.Sane.of_reachable h).initMem (.of_reachable h)
    (.of_reachable (hops.reachable h)) hscreen hops hback

end Restored

/-- The screen that is on focus is loaded once more. -/
theorem RepScreens.loadsAll_again {m : Machine} {xs : List Addr} {others : List (Addr × Nat)}
    (h : RepScreens m xs others) (hscreen : m.HasScreen m.onFocusPid) :
    ∃ m', LoadsAll m [.loadScreen m.onFocusPid] m' ∧ m'.onFocusPid = m.onFocusPid := by
  obtain ⟨x, hx, hpid⟩ := hscreen
  rw [h.isScreen_iff] at hx
  obtain ⟨m₁, -, hload, -⟩ := h.loadScreen_of_mem hx
  obtain ⟨fuel, hrun⟩ := hload.exists_fuel
  rw [hpid] at hrun
  exact ⟨_, ⟨_, ⟨hpid ▸ h.pid_nonneg x hx, fuel, hrun⟩, rfl⟩, rfl⟩

theorem firstOnFocus_states : (do
    let m ← backToFirst
    let x ← findScreenNodeByPid 10 m 1
    return decide (m.onFocusPid = 1 ∧ x ≠ NULL) : Except Stop Bool) = .ok true := by
  decide +kernel

theorem backToFirst_hasScreen : ∃ m, backToFirst = .ok m ∧ m.onFocusPid = 1 ∧ m.HasScreen 1 := by
  obtain ⟨m, hm, hrun⟩ := bind_eq_ok.mp firstOnFocus_states
  obtain ⟨x, hx, hrun⟩ := bind_eq_ok.mp hrun
  obtain ⟨hfocus, hne⟩ := of_decide_eq_true (Except.ok.inj hrun)
  obtain ⟨xs, lost, hrep⟩ := (Machine.Sane.of_reachable (backToFirst_reachable hm)).list
  exact ⟨m, hm, hfocus, x, hrep.screen_of_find hx hne⟩

theorem shownTwice_states : (do
    let m ← backToFirst
    let (r₁, m₁) ← loadScreen 10 m 2
    let (r', m') ← loadScreen 10 m₁ 1
    return decide (m.video.currentPosition = VIDEO ∧ r₁ = 1 ∧ m₁.onFocusPid = 2 ∧ r' = 1 ∧
      m'.onFocusPid = 1) : Except Stop Bool) = .ok true := by
  decide +kernel

/-- The screen of the process 2 is loaded, and then that of the process 1 again. The cursor is where it
was, at the start of the screen. -/
theorem switching_restores_there_and_back : ∃ m m₁ m' : Machine, backToFirst = .ok m ∧
    m.onFocusPid = 1 ∧ m₁.onFocusPid = 2 ∧ LoadsAll m [.loadScreen 2] m₁ ∧
    LoadsAll m [.loadScreen 2, .loadScreen 1] m' ∧ m.Restored m' := by
  obtain ⟨m, hm, hrun⟩ := bind_eq_ok.mp shownTwice_states
  obtain ⟨⟨r₁, m₁⟩, hm₁, hrun⟩ := bind_eq_ok.mp hrun
  obtain ⟨⟨r', m'⟩, hm', hrun⟩ := bind_eq_ok.mp hrun
  obtain ⟨hcursor, rfl, hfocus₁, rfl, hfocus'⟩ := of_decide_eq_true (Except.ok.inj hrun)
  obtain ⟨m₀, hm₀, hfocus, hscreen⟩ := backToFirst_hasScreen
  obtain rfl := Except.ok.inj (hm.symm.trans hm₀)
  rw [← hfocus] at hscreen
  have hload : (MachineOp.loadScreen 2).Loads m m₁ := ⟨by decide, 10, hm₁⟩
  have hops : LoadsAll m [.loadScreen 2, .loadScreen 1] m' := ⟨m₁, hload, m', ⟨by decide, 10, hm'⟩, rfl⟩
  have hnear : Near VIDEO m.video.currentPosition := ⟨0, by decide, by decide, by rw [hcursor]; rfl⟩
  exact ⟨m, m₁, m', hm, hfocus, hfocus₁, ⟨m₁, hload, rfl⟩, hops,
    (switching_restores_iff (reachable_of_allowed (backToFirst_reachable hm)) hscreen hops
      (hfocus'.trans hfocus.symm)).mpr (.inr hnear)⟩

/-- The process 2 prints `2 ^ 30` tabs while the process 1 is on focus. Then that one is loaded. -/
theorem far_cursor_lost : ¬ ∀ (m m' : Machine) (others : List (Addr × Nat)) (ops : List MachineOp),
    Reachable MachineStart (MachineStep fun _ _ => True) (m, others) → m.HasScreen m.onFocusPid →
      LoadsAll m ops m' → m'.onFocusPid = m.onFocusPid → m.Restored m' := by
  intro hall
  obtain ⟨m, hm, hfocus, hscreen⟩ := backToFirst_hasScreen
  obtain ⟨m₀, hm₀, -, hpid, hbackground⟩ := backToFirst_ends
  obtain rfl := Except.ok.inj (hm.symm.trans hm₀)
  have hreach := reachable_of_allowed (backToFirst_reachable hm)
  have hcursors := Machine.CursorsOk.of_reachable (backToFirst_reachable hm)
  obtain ⟨xs, lost, hrep⟩ := (Machine.Sane.of_reachable hreach).list
  obtain ⟨x, hx, hxpid⟩ := hbackground
  have hon := hcursors.saved x hx
  rw [hrep.isScreen_iff] at hx
  obtain ⟨n, hn⟩ : ∃ n : Nat, n = 2 ^ 30 := ⟨_, rfl⟩
  -- the machine behind the tabs
  have hwrite := hrep.write_offFocus hx (by rw [hxpid]; exact hpid.current)
    (by rw [hxpid]; exact hpid.off) (List.replicate n 9)
  obtain ⟨fuel, hrun⟩ := hwrite.exists_fuel
  have hreach' : Reachable MachineStart (MachineStep fun _ _ => True)
      ((m.written x (List.replicate n 9)).2, []) :=
    hreach.next (@MachineStep.call _ m _ [] (.write (List.replicate n 9)) fuel
      ⟨2, hpid.nonneg, hpid.current⟩ trivial (bind_eq_ok.mpr ⟨_, hrun, rfl⟩))
  have hrep' := hrep.written x (List.replicate n 9)
  have hscreen' : (m.written x (List.replicate n 9)).2.HasScreen
      (m.written x (List.replicate n 9)).2.onFocusPid := by
    obtain ⟨y, hy, hypid⟩ := hscreen
    rw [hrep.isScreen_iff] at hy
    refine ⟨y, hrep'.isScreen_iff.mpr hy, ?_⟩
    rw [RepScreens.written_pid, hypid]
    exact hfocus.symm
  obtain ⟨m', hops, hback⟩ := hrep'.loadsAll_again hscreen'
  have hrestored := hall _ m' [] _ hreach' hscreen' hops hback
  have hiff := hrep'.restored_iff (Machine.Sane.of_reachable hreach').initMem (.of_reachable hreach')
    (.of_reachable (hops.reachable hreach')) hscreen' hops hback
  rcases hiff.mp hrestored with hstays | hnear
  · exact hstays _ List.mem_cons_self
  -- the distance of the video cursor
  · have hlo := Video.writeTo_tabs n
      (v := { m.video with myScreenPos := (m.screenNode x).currentPosition }) hon
    obtain ⟨-, -, hhi, -⟩ := Video.writeTo_cursors (List.replicate n 9)
      (v := { m.video with myScreenPos := (m.screenNode x).currentPosition }) hon
    rw [List.length_replicate] at hhi
    obtain ⟨k, -, hk, hvideo⟩ := hcursors.video.exists_add
    have hfar : ∀ cursor start : Nat, start = 0xB8000 + k → start + 2 * n ≤ cursor →
        cursor ≤ start + 46 * n → ¬ Near (0xB8000 : Nat) cursor := by
      intro cursor start hstart hlo hhi
      replace hk : k < 4000 := hk
      exact not_near (by omega) (by omega) (by omega)
    exact hfar _ _ hvideo hlo hhi hnear

end BasicKernel
