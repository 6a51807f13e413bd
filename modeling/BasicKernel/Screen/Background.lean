import BasicKernel.Screen.Output

set_option autoImplicit false

/-! # What a process that is not on focus can change

As long as such processes only write, on a screen that they have, strings without tabs, every cursor
stays on its screen, and such a write changes nothing but the screen of its process.

`MachineOp.Confined` is this restriction and `background_output` the result. In `tab_disturbs` a
tab moves the cursor of the process on focus.
-/

namespace BasicKernel

open Linked Fuel Transition

/-! ## The cursor behind `ps`

`printAllProcess` ends each line with a new line, and whatever it prints before, the cursor is on
the screen then. -/

namespace Video

variable {v v' : Video}

theorem checkEndOfScreen_le (h : VIDEO ≤ v.currentPosition) :
    VIDEO ≤ (checkEndOfScreen v VIDEO .currentPosition).currentPosition := by
  unfold checkEndOfScreen
  split
  case isTrue =>
    show VIDEO ≤ VIDEO + END_OF_SCREEN - WINDOW_WIDTH * 2
    decide
  case isFalse => exact h

theorem print_le (string : List UInt8) : ∀ {v : Video}, VIDEO ≤ v.currentPosition →
    VIDEO ≤ (print v string).currentPosition := by
  induction string with
  | nil => exact fun {v} h => h
  | cons c string ih =>
      intro v h
      exact ih (checkEndOfScreen_le (Nat.le_add_right_of_le (Nat.le_add_right_of_le h)))

theorem printTab_le (h : VIDEO ≤ v.currentPosition) : VIDEO ≤ (printTab v).currentPosition :=
  Nat.le_trans h (Nat.le_of_add_right_le (printTab_moves v).1)

/-- Also a cursor that a tab has moved from the screen is on it after a new line. -/
theorem newLine_onScreen (h : VIDEO ≤ v.currentPosition) :
    OnScreen VIDEO (newLine v).currentPosition := by
  have hshows : v.Shows VIDEO .currentPosition (v.page VIDEO .currentPosition) :=
    ⟨fun _ _ => rfl, (Nat.add_sub_cancel' h).symm⟩
  exact hshows.myNewLine.1.onScreen_iff.mpr (Page.newLine_valid _)

theorem printCharacters_le {c : UInt8} (hc : c ≠ 8) (h : VIDEO ≤ v.currentPosition) :
    VIDEO ≤ (printCharacters v c).currentPosition := by
  unfold printCharacters printCharactersInner
  apply checkEndOfScreen_le
  rw [if_neg hc]
  split
  · exact (newLine_onScreen h).1
  split
  · exact printTab_le h
  · exact Nat.le_add_right_of_le (Nat.le_add_right_of_le h)

theorem digit_ne_backSpace (number : Int) : digit (number.tmod 10) ≠ 8 := by
  have hdigits : ∀ n ∈ Finset.Icc (-9 : Int) 9, digit n ≠ 8 := by decide
  apply hdigits
  have hlo := Int.lt_tmod_of_pos number (b := 10) (by decide)
  have hhi := Int.tmod_lt_of_pos number (b := 10) (by decide)
  exact Finset.mem_Icc.mpr ⟨by omega, by omega⟩

theorem printDigits_le (fuel : Nat) : ∀ {v : Video} {number divisor : Int},
    VIDEO ≤ v.currentPosition → printDigits fuel v number divisor = .ok v' →
    VIDEO ≤ v'.currentPosition := by
  induction fuel with
  | zero => exact fun {v number divisor} _ hrun => by cases hrun
  | succ fuel ih =>
      intro v number divisor h hrun
      unfold printDigits at hrun
      split at hrun
      · obtain rfl := Except.ok.inj hrun
        exact h
      · exact ih (printCharacters_le (digit_ne_backSpace number) h) hrun

theorem printDec_le {fuel : Nat} {number : Int} (h : VIDEO ≤ v.currentPosition)
    (hrun : printDec fuel v number = .ok v') : VIDEO ≤ v'.currentPosition := by
  obtain ⟨length, -, hrun⟩ := bind_eq_ok.mp hrun
  obtain ⟨divisor, -, hrun⟩ := bind_eq_ok.mp hrun
  exact printDigits_le fuel h hrun

theorem printProcessInfo_le {fuel : Nat} {k : Kernel} {process : Addr} (h : VIDEO ≤ v.currentPosition)
    (hrun : printProcessInfo fuel k v process = .ok v') : VIDEO ≤ v'.currentPosition := by
  obtain ⟨p, -, hrun⟩ := bind_eq_ok.mp hrun
  obtain ⟨v₁, hpid, hrun⟩ := bind_eq_ok.mp hrun
  obtain ⟨name, -, hrun⟩ := bind_eq_ok.mp hrun
  obtain ⟨v₂, hthreads, hrun⟩ := bind_eq_ok.mp hrun
  obtain ⟨v₃, hppid, hrun⟩ := bind_eq_ok.mp hrun
  obtain rfl := Except.ok.inj hrun
  have h₁ := printDec_le h hpid
  have h₂ := printDec_le (printTab_le (print_le name (printTab_le h₁))) hthreads
  have h₃ := printDec_le (printTab_le h₂) hppid
  exact (newLine_onScreen (print_le _ (printTab_le h₃))).1

theorem printProcesses_le {fuel : Nat} {k : Kernel} (n : Nat) : ∀ {v : Video} {queue : Addr},
    VIDEO ≤ v.currentPosition → printProcesses fuel k n queue v = .ok v' →
    VIDEO ≤ v'.currentPosition := by
  induction n with
  | zero =>
      intro v queue h hrun
      obtain rfl := Except.ok.inj hrun
      exact h
  | succ n ih =>
      intro v queue h hrun
      obtain ⟨node, -, hrun⟩ := bind_eq_ok.mp hrun
      obtain ⟨v₁, hinfo, hrun⟩ := bind_eq_ok.mp hrun
      exact ih (printProcessInfo_le h hinfo) hrun

theorem printPsHeader_le {fuel : Nat} {k : Kernel} {i : Int} (h : VIDEO ≤ v.currentPosition)
    (hrun : printPsHeader fuel k v i = .ok v') : VIDEO ≤ v'.currentPosition := by
  obtain ⟨count, -, hrun⟩ := bind_eq_ok.mp hrun
  obtain ⟨v₁, hprocess, hrun⟩ := bind_eq_ok.mp hrun
  obtain ⟨v₂, hrunning, hrun⟩ := bind_eq_ok.mp hrun
  obtain ⟨v₃, hready, hrun⟩ := bind_eq_ok.mp hrun
  obtain ⟨v₄, hblocked, hrun⟩ := bind_eq_ok.mp hrun
  obtain ⟨v₅, hthreads, hrun⟩ := bind_eq_ok.mp hrun
  obtain rfl := Except.ok.inj hrun
  have h₁ := printDec_le (print_le _ (newLine_onScreen h).1) hprocess
  have h₂ := printDec_le (print_le _ h₁) hrunning
  have h₃ := printDec_le (print_le _ h₂) hready
  have h₄ := printDec_le (print_le _ h₃) hblocked
  have h₅ := printDec_le (print_le _ (newLine_onScreen (print_le _ h₄)).1) hthreads
  have hline := newLine_onScreen (newLine_onScreen (print_le (chars " total") h₅)).1
  have hpid := printTab_le (print_le (chars "PID") hline.1)
  have hcommand := printTab_le (print_le (chars "Command") hpid)
  have hsize := printTab_le (print_le (chars "#Threads") hcommand)
  have hppid := printTab_le (print_le (chars "PPID") hsize)
  exact (newLine_onScreen (print_le (chars "State") hppid)).1

/-- When the processes have been printed, the cursor is on the screen. -/
theorem printAllProcess_onScreen {fuel : Nat} {k : Kernel} {i headerI : Int}
    (h : OnScreen VIDEO v.currentPosition) (hrun : printAllProcess fuel k v i headerI = .ok v') :
    OnScreen VIDEO v'.currentPosition := by
  unfold printAllProcess at hrun
  split at hrun
  case isTrue =>
    obtain rfl := Except.ok.inj hrun
    exact h
  case isFalse =>
    obtain ⟨v₁, hheader, hrun⟩ := bind_eq_ok.mp hrun
    obtain ⟨v₂, hprocesses, hrun⟩ := bind_eq_ok.mp hrun
    obtain rfl := Except.ok.inj hrun
    have h₂ := printProcesses_le _ (printPsHeader_le h.1 hheader) hprocesses
    exact newLine_onScreen (newLine_onScreen (newLine_onScreen h₂).1).1

end Video

/-! ## The cursors of the screens

On focus the cursor is that of the video screen, off focus it is saved in the node, as an address
in the saved screen. -/

theorem OnScreen.exists_add {s p : Nat} (h : OnScreen s p) :
    ∃ n, n % 2 = 0 ∧ n < WINDOW_SIZE ∧ p = s + n := by
  obtain ⟨hle, heven, hlt⟩ := h
  refine ⟨p - s, heven, ?_, (Nat.add_sub_cancel' hle).symm⟩
  show p - s < 4000
  replace hlt : p ≤ s + 3998 := hlt
  omega

theorem onScreen_add (s : Nat) {n : Nat} (heven : n % 2 = 0) (hlt : n < WINDOW_SIZE) :
    OnScreen s (s + n) := by
  replace hlt : n < 4000 := hlt
  refine ⟨Nat.le_add_right s n, by rwa [Nat.add_sub_cancel_left], ?_⟩
  show s + n ≤ s + 3998
  omega

namespace Video

theorem cursorDistance {s p : Nat} (h : OnScreen s p) : toInt32 ((p : Int) - s) = ((p - s : Nat) : Int) := by
  obtain ⟨n, -, hlt, rfl⟩ := h.exists_add
  replace hlt : n < 4000 := hlt
  rw [Nat.add_sub_cancel_left]
  push_cast
  rw [add_sub_cancel_left]
  exact toInt32_of_bounds (by omega) (by omega)

theorem backupContent_pos {v : Video} (h : OnScreen VIDEO v.currentPosition) {s : Nat}
    (hs : s + WINDOW_SIZE ≤ 2 ^ 64) : (backupContent v s).1 = s + (v.currentPosition - VIDEO) := by
  unfold backupContent
  dsimp only
  rw [cursorDistance h]
  obtain ⟨n, -, hlt, hn⟩ := h.exists_add
  replace hlt : n < 4000 := hlt
  replace hs : s + 4000 ≤ 2 ^ 64 := hs
  rw [hn, Nat.add_sub_cancel_left, toUInt64]
  show (((s : Int) + n) % 2 ^ 64).toNat = s + n
  omega

theorem setScreen_pos (v : Video) {s p : Nat} (h : OnScreen s p) :
    (setScreen v s p).currentPosition = VIDEO + (p - s) := by
  unfold setScreen
  dsimp only
  rw [cursorDistance h]
  obtain ⟨n, -, hlt, hn⟩ := h.exists_add
  replace hlt : n < 4000 := hlt
  rw [hn, Nat.add_sub_cancel_left, toUInt64]
  show (((0xB8000 : Nat) + (n : Int)) % 2 ^ 64).toNat = 0xB8000 + n
  omega

end Video

/-- `x` is a node of the list of screens. -/
def Machine.IsScreen (m : Machine) (x : Addr) : Prop := OnChain m.nextScreen NULL m.list x

/-- The cursors of the video screen and of the saved screens are on their screens. -/
structure Machine.CursorsOk (m : Machine) : Prop where
  video : OnScreen VIDEO m.video.currentPosition
  saved : ∀ x, m.IsScreen x → OnScreen (m.screenNode x).screen (m.screenNode x).currentPosition

/-- The same, for the nodes in a list. -/
structure Machine.CursorsIn (m : Machine) (xs : List Addr) : Prop where
  video : OnScreen VIDEO m.video.currentPosition
  saved : ∀ x ∈ xs, OnScreen (m.screenNode x).screen (m.screenNode x).currentPosition

variable {m m' m₁ : Machine} {xs : List Addr} {others : List (Addr × Nat)} {pid : Int} {x : Addr}

theorem RepScreens.isScreen_iff (h : RepScreens m xs others) : m.IsScreen x ↔ x ∈ xs :=
  h.links.chain.onChain_iff

theorem RepScreens.cursorsOk_iff (h : RepScreens m xs others) : m.CursorsOk ↔ m.CursorsIn xs :=
  ⟨fun hc => ⟨hc.video, fun x hx => hc.saved x (h.isScreen_iff.mpr hx)⟩,
    fun hc => ⟨hc.video, fun x hx => hc.saved x (h.isScreen_iff.mp hx)⟩⟩

/-- A screen does not reach the end of the address space. -/
theorem RepScreens.screen_le (h : RepScreens m xs others) (hx : x ∈ xs) :
    (m.screenNode x).screen + WINDOW_SIZE ≤ 2 ^ 64 := by
  obtain ⟨live, hc, hlive⟩ := h.owns.live
  have hvalid := hc.valid _ (hlive _ (screen_mem hx))
  have hblocks : ∀ s b n initMem : Nat, ∀ blocksAmount : Int, 1 ≤ n → s = initMem + b * 4096 →
      ((b + n : Nat) : Int) ≤ blocksAmount → (initMem : Int) + blocksAmount * 4096 < 2 ^ 64 →
      s + 4000 ≤ 2 ^ 64 := by
    intro s b n initMem blocksAmount hn haligned hinside hend
    omega
  exact hblocks _ _ _ _ _ (one_le_sizeBlocks hvalid.pos) hvalid.aligned hvalid.inside hc.region.inside

namespace Machine.CursorsIn

theorem save (h : m.CursorsIn xs) (hrep : RepScreens m xs others) (f : Addr) :
    (m.save f).CursorsIn xs := by
  refine ⟨?_, fun x hx => ?_⟩
  · have hpos : (m.save f).video.currentPosition = m.video.currentPosition :=
      @Video.fill_pos _ .currentPosition _ _ m.video
    rw [hpos]
    exact h.video
  unfold Machine.save
  dsimp only
  by_cases hxf : x = f
  · subst hxf
    rw [Function.update_self]
    show OnScreen _ (backupContent m.video (m.screenNode x).screen).1
    rw [Video.backupContent_pos h.video (hrep.screen_le hx)]
    obtain ⟨n, heven, hlt, hn⟩ := h.video.exists_add
    rw [hn, Nat.add_sub_cancel_left]
    exact onScreen_add _ heven hlt
  · rw [Function.update_of_ne hxf]
    exact h.saved x hx

theorem of_saved (h : m.CursorsIn xs) (hrep : RepScreens m xs others) (hs : m.Saved xs m₁) :
    m₁.CursorsIn xs := by
  cases hs with
  | nobody => exact h
  | node => exact h.save hrep _

theorem display (h : m.CursorsIn xs) (hx : x ∈ xs) (pid : Int) : (m.display x pid).CursorsIn xs := by
  refine ⟨?_, h.saved⟩
  show OnScreen VIDEO (setScreen m.video _ _).currentPosition
  rw [Video.setScreen_pos m.video (h.saved x hx)]
  obtain ⟨n, heven, hlt, hn⟩ := (h.saved x hx).exists_add
  rw [hn, Nat.add_sub_cancel_left]
  exact onScreen_add _ heven hlt

theorem of_switched (h : m.CursorsIn xs) (hrep : RepScreens m xs others) (hs : m.Switched xs m') :
    m'.CursorsIn xs := by
  cases hs with
  | same => exact h
  | shown hsaved hx => exact (h.of_saved hrep hsaved).display hx _

/-- Changed links do not matter. -/
theorem relink (h : m.CursorsIn xs) {ys : List Addr} (hys : ∀ x ∈ ys, x ∈ xs)
    (hvideo : m'.video.currentPosition = m.video.currentPosition)
    (hnode : ∀ x ∈ ys, ∃ next prev, m'.screenNode x = { m.screenNode x with next := next, prev := prev }) :
    m'.CursorsIn ys := by
  refine ⟨by rw [hvideo]; exact h.video, fun x hx => ?_⟩
  obtain ⟨next, prev, heq⟩ := hnode x hx
  rw [heq]
  exact h.saved x (hys x hx)

theorem withScreen (h : m.CursorsIn xs) {node : Addr} (hnode : node ∉ xs) (screen : Addr)
    (memory : MemoryManager) (pid : Int) :
    (m.withScreen xs node screen memory pid).CursorsIn (xs ++ [node]) := by
  have hvideo : (m.withScreen xs node screen memory pid).video.currentPosition =
      m.video.currentPosition :=
    (Video.clear_draws m.video screen .myScreenPos).other .currentPosition (by decide)
  refine ⟨by rw [hvideo]; exact h.video, fun x hx => ?_⟩
  unfold Machine.withScreen Machine.withNode
  dsimp only
  -- The new screen begins at its start; any other node is changed at most in `next`.
  rcases List.mem_append.mp hx with hx | hx
  · have hne : x ≠ node := fun heq => hnode (heq ▸ hx)
    obtain ⟨next, heq⟩ := Machine.linkScreen_of_ne { m.withMemory memory with
      video := clear m.video screen
      screenNode := Function.update m.screenNode node
        { m.screenNode node with screen := screen, currentPosition := screen } } xs NULL pid hne
    rw [heq]
    dsimp only
    rw [Function.update_of_ne hne]
    exact h.saved x hx
  · obtain rfl := List.mem_singleton.mp hx
    rw [Machine.linkScreen_self _ _ _ hnode]
    dsimp only
    rw [Function.update_self]
    exact onScreen_add screen (n := 0) rfl (by decide)

theorem ensured (h : m.CursorsIn xs) {m₀ : Machine} {xs' : List Addr}
    (hs : m.Ensured xs pid others m₀ xs' x) : m₀.CursorsIn xs' := by
  cases hs with
  | found => exact h
  | created _ hfresh => exact h.withScreen hfresh _ _ _

theorem refused (h : m.CursorsIn xs) (hs : m.Refused xs m') : m'.CursorsIn xs := by
  obtain ⟨memory, -, heq⟩ := hs.kernel
  have hvideo : m'.video = m.video := (congrArg Machine.video heq).trans rfl
  refine ⟨by rw [hvideo]; exact h.video, fun x hx => ?_⟩
  rw [hs.kept x hx]
  exact h.saved x hx

end Machine.CursorsIn

/-! ## Calls that leave the other screens alone

Which calls a process in the background may make, and what must not change while it makes them. -/

/-- The current process has the number `pid` and is not on focus. -/
structure Machine.Background (m : Machine) (pid : Int) : Prop where
  nonneg : 0 ≤ pid
  current : getCurrentPid m.kernel = .ok pid
  off : m.onFocusPid ≠ pid

def Machine.HasScreen (m : Machine) (pid : Int) : Prop :=
  ∃ x, m.IsScreen x ∧ (m.screenNode x).pid = pid

/-- The video screen is as `clearScreen` leaves it. -/
def Video.Blank (v : Video) : Prop :=
  v.currentPosition = VIDEO ∧ ∀ i < WINDOW_SIZE, v.char (VIDEO + i) = Page.blank i

/-- What a process that is not on focus may ask for. It has a screen, and it prints no tabs. It
clears a screen that is clear, and there are no processes to print. -/
def MachineOp.Confined (op : MachineOp) (m : Machine) : Prop :=
  ∀ pid, m.Background pid →
    match op with
    | .write buf => m.HasScreen pid ∧ NoTab buf
    | .clearScreen => m.video.Blank
    | .ps _ _ => m.kernel.processQueue = NULL
    | _ => True

/-- The calls that draw. -/
def MachineOp.Output : MachineOp → Prop
  | .write _ | .clearScreen | .ps _ _ => True
  | _ => False

/-- From `m` to `m'` at most the screen of the process `pid` has changed. -/
structure Machine.Undisturbed (m : Machine) (pid : Int) (m' : Machine) : Prop where
  byte : ∀ i < WINDOW_SIZE, m'.video.char (VIDEO + i) = m.video.char (VIDEO + i)
  cursor : m'.video.currentPosition = m.video.currentPosition
  screen : ∀ x, m.IsScreen x → (m.screenNode x).pid ≠ pid →
    ∀ i < WINDOW_SIZE, m'.video.char ((m.screenNode x).screen + i) =
      m.video.char ((m.screenNode x).screen + i)
  node : ∀ x, m'.screenNode x = m.screenNode x ∨ m.IsScreen x ∧ (m.screenNode x).pid = pid ∧
    ∃ p, m'.screenNode x = { m.screenNode x with currentPosition := p }
  own : ∀ a : Nat, m'.video.char a ≠ m.video.char a →
    ∃ x, m.IsScreen x ∧ (m.screenNode x).pid = pid ∧ InScreen (m.screenNode x).screen a
  rest : m'.kernel = m.kernel ∧ m'.list = m.list ∧ m'.onFocusPid = m.onFocusPid

theorem Machine.Undisturbed.refl (m : Machine) (pid : Int) : m.Undisturbed pid m :=
  ⟨fun _ _ => rfl, rfl, fun _ _ _ _ _ => rfl, fun _ => .inl rfl, fun _ ha => absurd rfl ha,
    rfl, rfl, rfl⟩

/-! ### Where the screens are

The video memory lies below the heap, and the saved screens have pages of their own. So no two
screens share a byte. -/

namespace RepScreens

theorem screen_ge (h : RepScreens m xs others) (hinit : m.kernel.memory.initMem = 0x1000000)
    (hx : x ∈ xs) : 0x1000000 ≤ (m.screenNode x).screen := by
  have hpos : 0 < SCREEN_SIZE := by decide
  rw [← hinit]
  exact (h.owns.used_byte (screen_mem hx) (Nat.le_refl _) (Nat.lt_add_of_pos_right hpos)).1

theorem video_notMem (h : RepScreens m xs others) (hinit : m.kernel.memory.initMem = 0x1000000)
    (hx : x ∈ xs) {a : Nat} (ha : InScreen VIDEO a) : ¬ InScreen (m.screenNode x).screen a := by
  rintro ⟨hle, -⟩
  have hlt : a < 0xB8000 + 4000 := ha.2
  have hge := Nat.le_trans (h.screen_ge hinit hx) hle
  omega

theorem screen_notMem (h : RepScreens m xs others) {y : Addr} (hx : x ∈ xs) (hy : y ∈ xs)
    (hne : x ≠ y) {a : Nat} (ha : InScreen (m.screenNode x).screen a) :
    ¬ InScreen (m.screenNode y).screen a := by
  have hfits : WINDOW_SIZE ≤ SCREEN_SIZE := by decide
  rintro ⟨hle, hlt⟩
  exact h.screens_disjoint hx hy hne ha.1
    (Nat.lt_of_lt_of_le ha.2 (Nat.add_le_add_left hfits _))
    ⟨hle, Nat.lt_of_lt_of_le hlt (Nat.add_le_add_left hfits _)⟩

end RepScreens

theorem inScreen_add (s : Nat) {i : Nat} (hi : i < WINDOW_SIZE) : InScreen s (s + i) :=
  ⟨Nat.le_add_right s i, Nat.add_lt_add_left hi s⟩

/-! ### Writing

A string goes to the saved screen of its process, byte by byte. Only the tab takes another
cursor. -/

namespace RepScreens

/-- Off focus nothing but the own screen changes, except that a tab moves the video cursor. -/
theorem undisturbed_written_iff (h : RepScreens m xs others)
    (hinit : m.kernel.memory.initMem = 0x1000000) (hc : m.CursorsIn xs) (hx : x ∈ xs)
    (w : List UInt8) : m.Undisturbed (m.screenNode x).pid (m.written x w).2 ↔ NoTab w := by
  -- The cursor of the process stays on its screen; the video cursor moves with a tab only.
  have hon := hc.saved x hx
  obtain ⟨-, -, -, hcursor⟩ := Video.writeTo_cursors w
    (v := { m.video with myScreenPos := (m.screenNode x).currentPosition }) hon
  have hchar : ∀ a : Nat, ¬ InScreen (m.screenNode x).screen a →
      (m.written x w).2.video.char a = m.video.char a :=
    Video.writeTo_char w (v := { m.video with myScreenPos := (m.screenNode x).currentPosition }) hon
  constructor
  · exact fun hu => hcursor.mp hu.cursor
  intro htab
  -- Neither the video screen nor another saved screen has a byte of this one.
  refine ⟨fun i hi => ?_, hcursor.mpr htab, fun y hy hne i hi => ?_, fun y => ?_, fun a ha => ?_,
    rfl, rfl, rfl⟩
  · exact hchar _ (h.video_notMem hinit hx (inScreen_add VIDEO hi))
  · have hxy : y ≠ x := fun heq => hne (heq ▸ rfl)
    exact hchar _ (h.screen_notMem (h.isScreen_iff.mp hy) hx hxy (inScreen_add _ hi))
  · by_cases hyx : y = x
    · subst hyx
      exact .inr ⟨h.isScreen_iff.mpr hx, rfl, _, Function.update_self ..⟩
    · exact .inl (Function.update_of_ne hyx _ _)
  · refine ⟨x, h.isScreen_iff.mpr hx, rfl, ?_⟩
    by_contra hin
    exact ha (hchar a hin)

/-- A write keeps the cursors: on focus that of the video screen, off focus that of the process. -/
theorem write_cursors (h : RepScreens m xs others) (hc : m.CursorsIn xs)
    (hpid : 0 ≤ pid) (hcur : getCurrentPid m.kernel = .ok pid) {w : List UInt8}
    (hconfined : m.Background pid → m.HasScreen pid ∧ NoTab w) :
    ∃ r, Returns (write · m w) r ∧ RepScreens r.2 xs others ∧ r.2.CursorsIn xs := by
  -- On focus the call draws on the video screen, off focus on the saved one.
  by_cases hon : m.onFocusPid = pid
  · have hreturns : Returns (write · m w)
        ((writeToVideo m.video w).1, { m with video := (writeToVideo m.video w).2 }) := by
      simp only [write_onFocus hcur hon]
      exact .const _ _
    refine ⟨_, hreturns, h.withVideo _, ?_, hc.saved⟩
    obtain ⟨hshows, hvalid⟩ := @Video.OnScreen.shows _ _ .currentPosition hc.video
    obtain ⟨hshows', hvalid', -⟩ := Video.writeToVideo_shows w hshows hvalid
    exact hshows'.onScreen_iff.mpr hvalid'
  · obtain ⟨⟨x, hscreen, rfl⟩, htab⟩ := hconfined ⟨hpid, hcur, hon⟩
    have hx := h.isScreen_iff.mp hscreen
    refine ⟨_, h.write_offFocus hx hcur hon w, ?_, ?_, fun y hy => ?_⟩
    · exact (h.setCursor x (m.written x w).2.video.myScreenPos).withVideo (m.written x w).2.video
    · obtain ⟨-, -, -, hcursor⟩ := Video.writeTo_cursors w
        (v := { m.video with myScreenPos := (m.screenNode x).currentPosition }) (hc.saved x hx)
      show OnScreen VIDEO (writeTo _ _ w).2.currentPosition
      rw [hcursor.mpr htab]
      exact hc.video
    · unfold Machine.written
      dsimp only
      by_cases hyx : y = x
      · subst hyx
        rw [Function.update_self]
        exact (Video.writeTo_cursors w
          (v := { m.video with myScreenPos := (m.screenNode y).currentPosition }) (hc.saved y hy)).1
      · rw [Function.update_of_ne hyx]
        exact hc.saved y hy

end RepScreens

/-! ## Runs

The cursors are kept over a run of confined calls, and with them each single call leaves the other
screens alone. -/

/-- A confined call keeps every cursor on its screen. -/
theorem Machine.CursorsOk.run (hc : m.CursorsOk) (h : m.Sane others) {op : MachineOp}
    (hop : op.Asked m) (hconfined : op.Confined m) {fuel : Nat} (hrun : op.run fuel m = .ok m') :
    m'.CursorsOk := by
  obtain ⟨xs, lost, hrep⟩ := h.list
  -- One case for each call; in all of them the list is still a list, and its cursors are moved or
  -- kept.
  have hcursors := hrep.cursorsOk_iff.mp hc
  cases op with
  | loadScreen pid =>
      obtain ⟨⟨r, m₂⟩, hload, hrun⟩ := bind_eq_ok.mp hrun
      obtain rfl := Except.ok.inj hrun
      rcases hrep.loadScreen hop with
        ⟨m₀, xs', x, m₁, hensured, hrep₀, hsaved, hreturns, hrep'⟩ | ⟨m₁, hrefused, -, hreturns, hrep'⟩
      · obtain ⟨-, rfl⟩ := Prod.mk.inj (hreturns.eq hload)
        have hx : x ∈ xs' := by
          cases hensured with
          | found hx => exact hx
          | created => exact List.mem_append_right _ (List.mem_singleton_self _)
        exact hrep'.cursorsOk_iff.mpr (((hcursors.ensured hensured).of_saved hrep₀ hsaved).display hx _)
      · obtain ⟨-, rfl⟩ := Prod.mk.inj (hreturns.eq hload)
        exact hrep'.cursorsOk_iff.mpr (hcursors.refused hrefused)
  | removeScreen pid =>
      rcases hrep.removeScreen pid with
        ⟨A, c, B, memory, rfl, -, -, hreturns, hrep'⟩ | ⟨-, hreturns, hrep'⟩
      · obtain rfl := hreturns.eq hrun
        -- The node is taken out of the list, and no cursor is moved.
        refine hrep'.cursorsOk_iff.mpr (hcursors.relink (fun y hy => ?_) rfl fun y _ => ?_)
        · rcases List.mem_append.mp hy with hy | hy
          · exact List.mem_append_left _ hy
          · exact List.mem_append_right _ (List.mem_cons_of_mem c hy)
        · exact (m.unfocus pid).unlinkScreen_same A B NULL y
      · obtain rfl := hreturns.eq hrun
        exact hrep'.cursorsOk_iff.mpr ⟨hcursors.video, hcursors.saved⟩
  | loadNextScreen =>
      obtain ⟨m₁, hreturns, hswitched, hrep'⟩ := hrep.loadNextScreen
      obtain rfl := hreturns.eq hrun
      exact hrep'.cursorsOk_iff.mpr (hcursors.of_switched hrep hswitched)
  | loadPreviousScreen =>
      obtain ⟨m₁, hreturns, hswitched, hrep'⟩ := hrep.loadPreviousScreen
      obtain rfl := hreturns.eq hrun
      exact hrep'.cursorsOk_iff.mpr (hcursors.of_switched hrep hswitched)
  | write buf =>
      obtain ⟨pid, hpid, hcur⟩ := hop
      obtain ⟨⟨i, m₁⟩, hwrite, hrun⟩ := bind_eq_ok.mp hrun
      obtain rfl := Except.ok.inj hrun
      obtain ⟨r, hreturns, hrep', hcursors'⟩ := hrep.write_cursors hcursors hpid hcur (hconfined pid)
      obtain rfl := hreturns.eq hwrite
      exact hrep'.cursorsOk_iff.mpr hcursors'
  | clearScreen =>
      -- A cleared screen has its cursor at the start.
      obtain rfl := Except.ok.inj hrun
      exact (hrep.withVideo _).cursorsOk_iff.mpr
        ⟨(Video.keeps_clearScreen m.video).2, hcursors.saved⟩
  | ps i headerI =>
      obtain ⟨video, hprint, hrun⟩ := bind_eq_ok.mp hrun
      obtain rfl := Except.ok.inj hrun
      exact (hrep.withVideo _).cursorsOk_iff.mpr
        ⟨Video.printAllProcess_onScreen hcursors.video hprint, hcursors.saved⟩

/-- In a run of confined calls every cursor stays on its screen. -/
theorem Machine.CursorsOk.of_reachable
    (h : Reachable MachineStart (MachineStep MachineOp.Confined) (m, others)) : m.CursorsOk := by
  refine (h.invariant (I := fun s => s.1.Sane s.2 ∧ s.1.CursorsOk) (fun s hs => ?_) ?_).2
  · obtain ⟨hrep, -⟩ := ScreenStart.rep hs.1
    refine ⟨.start hs, hrep.cursorsOk_iff.mpr ⟨?_, fun x hx => absurd hx List.not_mem_nil⟩⟩
    rw [hs.2]
    exact onScreen_add VIDEO (n := 0) rfl (by decide)
  rintro _ _ - ⟨hsane, hc⟩ hstep
  cases hstep with
  | call hop hconfined hrun => exact ⟨hsane.run hop hrun, hc.run hsane hop hconfined hrun⟩
  | elsewhere hmem => exact ⟨hsane.elsewhere hmem, hc.video, hc.saved⟩

theorem clearScreenSys_undisturbed_iff : m.Undisturbed pid (clearScreenSys m) ↔ m.video.Blank := by
  have hclear : (clearScreenSys m).video.char = (clear m.video VIDEO).char := rfl
  have hchar : ∀ a : Nat, ¬ InScreen VIDEO a → (clearScreenSys m).video.char a = m.video.char a :=
    (Video.clear_draws m.video VIDEO .currentPosition).char
  have hbyte : ∀ i < WINDOW_SIZE, (clearScreenSys m).video.char (VIDEO + i) = Page.blank i := by
    intro i hi
    rw [hclear]
    exact Video.clear_byte m.video VIDEO hi
  constructor
  · intro hu
    exact ⟨hu.cursor.symm, fun i hi => (hu.byte i hi).symm.trans (hbyte i hi)⟩
  · rintro ⟨hcursor, hblank⟩
    have hsame : ∀ a : Nat, (clearScreenSys m).video.char a = m.video.char a := by
      intro a
      by_cases ha : InScreen VIDEO a
      · have hi : a - VIDEO < WINDOW_SIZE := Nat.sub_lt_left_of_lt_add ha.1 ha.2
        rw [← Nat.add_sub_cancel' ha.1, hbyte _ hi, hblank _ hi]
      · exact hchar a ha
    exact ⟨fun i _ => hsame _, hcursor.symm, fun _ _ _ i _ => hsame _, fun _ => .inl rfl,
      fun a ha => absurd (hsame a) ha, rfl, rfl, rfl⟩

/-- In a run of confined calls every confined call of a process that is not on focus leaves the other
screens alone. A write on an own screen does so exactly if there is no tab in front of the first 0,
and `clearScreenSys` exactly if the video screen is clear already. -/
theorem background_output {m : Machine} {others : List (Addr × Nat)} {pid : Int}
    (h : Reachable MachineStart (MachineStep MachineOp.Confined) (m, others))
    (hpid : m.Background pid) :
    (∀ (op : MachineOp) (fuel : Nat) (m' : Machine), op.Output → op.Confined m →
      op.run fuel m = .ok m' → m.Undisturbed pid m') ∧
    (m.HasScreen pid → ∀ buf, ∃ r, Returns (write · m buf) r ∧
      (m.Undisturbed pid r.2 ↔ NoTab buf)) ∧
    (m.Undisturbed pid (clearScreenSys m) ↔ m.video.Blank) := by
  obtain ⟨xs, lost, hrep⟩ := (Machine.Sane.of_reachable h).list
  have hinit := (Machine.Sane.of_reachable h).initMem
  have hcursors := hrep.cursorsOk_iff.mp (Machine.CursorsOk.of_reachable h)
  -- The caller writes on the saved screen that it has.
  have hwrite : m.HasScreen pid → ∀ buf, ∃ r, Returns (write · m buf) r ∧
      (m.Undisturbed pid r.2 ↔ NoTab buf) := by
    rintro ⟨x, hscreen, rfl⟩ buf
    have hx := hrep.isScreen_iff.mp hscreen
    exact ⟨_, hrep.write_offFocus hx hpid.current hpid.off buf,
      hrep.undisturbed_written_iff hinit hcursors hx buf⟩
  refine ⟨fun op fuel m' hout hconfined hrun => ?_, hwrite, clearScreenSys_undisturbed_iff⟩
  have hmeets := hconfined pid hpid
  cases op with
  | write buf =>
      obtain ⟨r, hreturns, hiff⟩ := hwrite hmeets.1 buf
      obtain ⟨r', hrun', hrun⟩ := bind_eq_ok.mp hrun
      obtain rfl := hreturns.eq hrun'
      obtain rfl := Except.ok.inj hrun
      exact hiff.mpr hmeets.2
  -- Clearing and listing draw on the video screen whoever calls.
  | clearScreen =>
      obtain rfl := Except.ok.inj hrun
      exact clearScreenSys_undisturbed_iff.mpr hmeets
  | ps i headerI =>
      obtain ⟨video, hprint, hrun⟩ := bind_eq_ok.mp hrun
      obtain rfl := Except.ok.inj hrun
      unfold printAllProcess at hprint
      rw [if_pos hmeets] at hprint
      obtain rfl := Except.ok.inj hprint
      exact .refl m pid
  | loadScreen | removeScreen | loadNextScreen | loadPreviousScreen => exact hout.elim

/-- The machine when the process 2 runs, that the process 1 has made. -/
def secondMachine : Machine :=
  { startMachine with kernel := { startMachine.kernel with
    currentProcess := 8
    schedulerNode := fun _ => ⟨16, 8⟩
    process := fun _ => ⟨1, 2, .RUNNING, 0, 0, 0, 0, 0, 0, 0⟩ } }

theorem secondMachine_start : MachineStart (secondMachine, []) :=
  ⟨⟨0x7001, 1, by decide, memAllocatorInit_start (by decide), rfl, rfl, rfl⟩, rfl⟩

/-- Calls one after the other. -/
def MachineOp.runAll (fuel : Nat) : Machine → List MachineOp → Except Stop Machine
  | m, [] => .ok m
  | m, op :: ops => do runAll fuel (← op.run fuel m) ops

theorem MachineOp.reachable_runAll {Allowed : MachineOp → Machine → Prop} {fuel : Nat}
    {ops : List MachineOp} (hops : ∀ op ∈ ops, ∀ m, op.Asked m ∧ Allowed op m) : ∀ {m : Machine},
      Reachable MachineStart (MachineStep Allowed) (m, others) → runAll fuel m ops = .ok m' →
      Reachable MachineStart (MachineStep Allowed) (m', others) := by
  induction ops with
  | nil =>
      intro m h hrun
      obtain rfl := Except.ok.inj hrun
      exact h
  | cons op ops ih =>
      intro m h hrun
      obtain ⟨m₁, hop, hrun⟩ := bind_eq_ok.mp hrun
      obtain ⟨hasked, hallowed⟩ := hops op List.mem_cons_self m
      have hstep : Reachable MachineStart (MachineStep Allowed) (m₁, others) :=
        .next h (.call hasked hallowed hop)
      exact ih (fun op hop => hops op (List.mem_cons_of_mem _ hop)) hstep hrun

/-- The processes 1 and 2 get screens, and the process 1 is on focus again. -/
def backToFirst : Except Stop Machine :=
  MachineOp.runAll 10 secondMachine [.loadScreen 1, .loadScreen 2, .loadPreviousScreen]

theorem backToFirst_reachable {m : Machine} (h : backToFirst = .ok m) :
    Reachable MachineStart (MachineStep MachineOp.Confined) (m, []) := by
  refine MachineOp.reachable_runAll (fun op hop m => ?_) (.start secondMachine_start) h
  simp only [List.mem_cons, List.not_mem_nil, or_false] at hop
  rcases hop with rfl | rfl | rfl
  · exact ⟨(by decide : (0 : Int) ≤ 1), fun _ _ => trivial⟩
  · exact ⟨(by decide : (0 : Int) ≤ 2), fun _ _ => trivial⟩
  · exact ⟨trivial, fun _ _ => trivial⟩

theorem RepScreens.screen_of_find (h : RepScreens m xs others) {fuel : Nat}
    (hfind : findScreenNodeByPid fuel m pid = .ok x) (hne : x ≠ NULL) :
    m.IsScreen x ∧ (m.screenNode x).pid = pid := by
  rcases findScreenNodeByPid_cases h.links.chain pid with ⟨A, y, B, rfl, hpid, -, hreturns⟩ | ⟨-, hreturns⟩
  · obtain rfl := hreturns.eq hfind
    exact ⟨h.isScreen_iff.mpr (List.mem_append_right A List.mem_cons_self), hpid⟩
  · exact absurd (hreturns.eq hfind) hne

theorem backToFirst_states : (do
    let m ← backToFirst
    let x ← findScreenNodeByPid 10 m 2
    return decide (m.onFocusPid = 1 ∧ getCurrentPid m.kernel = .ok 2 ∧ x ≠ NULL) :
      Except Stop Bool) = .ok true := by
  decide +kernel

/-- The process 2 has a screen and the process 1 is on focus. -/
theorem backToFirst_ends : ∃ m, backToFirst = .ok m ∧ m.onFocusPid = 1 ∧ m.Background 2 ∧
    m.HasScreen 2 := by
  obtain ⟨m, hm, hrun⟩ := bind_eq_ok.mp backToFirst_states
  obtain ⟨x, hx, hrun⟩ := bind_eq_ok.mp hrun
  obtain ⟨hfocus, hcur, hne⟩ := of_decide_eq_true (Except.ok.inj hrun)
  obtain ⟨xs, lost, hrep⟩ := (Machine.Sane.of_reachable (backToFirst_reachable hm)).list
  exact ⟨m, hm, hfocus, ⟨by decide, hcur, by rw [hfocus]; decide⟩, ⟨x, hrep.screen_of_find hx hne⟩⟩

theorem writtenOff_states : (do
    let m ← backToFirst
    let m' ← (MachineOp.write [104, 105]).run 10 m
    let x ← findScreenNodeByPid 10 m 2
    return decide (x ≠ NULL ∧ m'.video.char (m.screenNode x).screen = 104) :
      Except Stop Bool) = .ok true := by
  decide +kernel

/-- The process 2 writes `hi` on its own screen while the process 1 is on focus. The letters are there,
and nothing else has changed. -/
theorem background_output_hi : ∃ m m' x, backToFirst = .ok m ∧ m.onFocusPid = 1 ∧
    (m.IsScreen x ∧ (m.screenNode x).pid = 2 ∧ m'.video.char (m.screenNode x).screen = 104) ∧
      (MachineOp.write [104, 105]).run 10 m = .ok m' ∧
      Reachable MachineStart (MachineStep MachineOp.Confined) (m', []) ∧ m.Undisturbed 2 m' := by
  obtain ⟨m, hm, hrun⟩ := bind_eq_ok.mp writtenOff_states
  obtain ⟨m', hm', hrun⟩ := bind_eq_ok.mp hrun
  obtain ⟨x, hx, hrun⟩ := bind_eq_ok.mp hrun
  obtain ⟨hne, hchar⟩ := of_decide_eq_true (Except.ok.inj hrun)
  obtain ⟨m₀, hm₀, hfocus, hpid, hscreen⟩ := backToFirst_ends
  obtain rfl := Except.ok.inj (hm.symm.trans hm₀)
  have hreach := backToFirst_reachable hm
  obtain ⟨xs, lost, hrep⟩ := (Machine.Sane.of_reachable hreach).list
  -- The caller is the process 2, which has a screen.
  have hconfined : (MachineOp.write [104, 105]).Confined m := by
    intro pid hb
    obtain rfl := Except.ok.inj (hb.current.symm.trans hpid.current)
    exact ⟨hscreen, by decide⟩
  obtain ⟨hxs, hxpid⟩ := hrep.screen_of_find hx hne
  have hasked : (MachineOp.write [104, 105]).Asked m := ⟨2, hpid.nonneg, hpid.current⟩
  exact ⟨m, m', x, hm, hfocus, ⟨hxs, hxpid, hchar⟩, hm', hreach.next (.call hasked hconfined hm'),
    (background_output hreach hpid).1 (.write [104, 105]) 10 m' trivial hconfined hm'⟩

/-- What is allowed does not matter to what is reached. -/
theorem reachable_of_allowed {Allowed : MachineOp → Machine → Prop}
    (h : Reachable MachineStart (MachineStep Allowed) (m, others)) :
    Reachable MachineStart (MachineStep fun _ _ => True) (m, others) := by
  refine h.mono (fun _ hs => hs) fun s s' hstep => ?_
  cases hstep with
  | call hasked _ hrun => exact .call hasked trivial hrun
  | elsewhere hmem => exact .elsewhere hmem

theorem tabOff_states : (do
    let m ← backToFirst
    let m' ← (MachineOp.write [9]).run 10 m
    return decide (m'.video.currentPosition ≠ m.video.currentPosition) : Except Stop Bool) = .ok true := by
  decide +kernel

/-- A tab of the process 2 moves the cursor of the process 1. -/
theorem tab_disturbs : ¬ ∀ (m : Machine) (others : List (Addr × Nat)) (pid : Int) (op : MachineOp)
    (fuel : Nat) (m' : Machine),
    Reachable MachineStart (MachineStep fun _ _ => True) (m, others) → m.Background pid → op.Output →
      op.run fuel m = .ok m' → m.Undisturbed pid m' := by
  intro h
  obtain ⟨m, hm, hrun⟩ := bind_eq_ok.mp tabOff_states
  obtain ⟨m', hm', hrun⟩ := bind_eq_ok.mp hrun
  have hmoved := of_decide_eq_true (Except.ok.inj hrun)
  obtain ⟨m₀, hm₀, -, hpid, -⟩ := backToFirst_ends
  obtain rfl := Except.ok.inj (hm.symm.trans hm₀)
  exact hmoved (h m [] 2 (.write [9]) 10 m' (reachable_of_allowed (backToFirst_reachable hm)) hpid
    trivial hm').cursor

end BasicKernel
