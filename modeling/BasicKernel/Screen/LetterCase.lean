import BasicKernel.Screen.Typing

set_option autoImplicit false

/-! # The modifier keys

`uppercase` is one sign that five scan codes turn over: the make and the break codes of both shift keys and
the make code of Caps Lock. It follows the keys only while no shift code is repeated.

`case_follows_modifiers` says that as long as this is so, a key that is typed has the case of the
modifiers. In `repeated_shift_lower` a shift key is held until its code is repeated.
-/

namespace BasicKernel

open Fuel Transition

variable {t t' : Terminal} {fuel : Nat} {key : UInt8}

/-! ## The keys

What the keys are doing, apart from the driver: which shift keys are down, and how often Caps Lock
went down. -/

/-- The shift keys that are held, and how often Caps Lock was pressed. -/
structure Modifiers where
  left : Bool
  right : Bool
  caps : Nat

namespace Modifiers

/-- No key was touched. -/
def static : Modifiers := ⟨false, false, 0⟩

/-- The keys after a scan code. -/
def after (q : Modifiers) (key : UInt8) : Modifiers where
  left := if key = L_SHIFT_PRESSED then true else if key = L_SHIFT_RELEASED then false else q.left
  right := if key = R_SHIFT_PRESSED then true else if key = R_SHIFT_RELEASED then false else q.right
  caps := if key = CAPS_LOCK_PRESSED then q.caps + 1 else q.caps

/-- A shift key is held. -/
def shift (q : Modifiers) : Bool := q.left || q.right

/-- Exactly one of the two: a shift key is held, Caps Lock was pressed an odd number of times. -/
def upper (q : Modifiers) : Bool := q.shift != decide (q.caps % 2 = 1)

/-- A shift key goes down while none is held, and up while it is the only one. -/
@[mk_iff]
structure OneShift (q : Modifiers) (key : UInt8) : Prop where
  pressed : key = L_SHIFT_PRESSED ∨ key = R_SHIFT_PRESSED → q.shift = false
  left : key = L_SHIFT_RELEASED → q.left = true ∧ q.right = false
  right : key = R_SHIFT_RELEASED → q.right = true ∧ q.left = false

end Modifiers

/-! ## The handler

The handler compares the scan code with five codes and turns the sign over for each of them. -/

/-- The character that the handler looks up. -/
def KeyBoard.lookUp (b : KeyBoard) (key : UInt8) : UInt8 :=
  if b.uppercase = -1 then uKeyboard key else lKeyboard key

/-- The handler changes the sign in its three tests only, and stores the character that it looked up
then. -/
theorem keyBoardHandler_lookUp (h : keyBoardHandler fuel t true key = .ok t') :
    t'.keyboard.uppercase = (checkUppercase t.keyboard key).uppercase ∧
      (key < 128 → (checkUppercase t.keyboard key).lookUp key ≠ 0 →
        t.keyboard.buffer t.keyboard.last = 0 →
        t'.keyboard.buffer t.keyboard.last = (checkUppercase t.keyboard key).lookUp key) := by
  -- The check for the switch of screens touches neither the ring nor the sign.
  obtain ⟨t₁, hswap, h⟩ := bind_eq_ok.mp h
  obtain ⟨hring, hcase⟩ := checkSwapScreen_keyboard hswap
  have hring₀ := t.keyboard.sameRing_checkUppercase key
  have hlast : t₁.keyboard.last = t.keyboard.last := hring.last.trans hring₀.last
  have hbuffer : t₁.keyboard.buffer = t.keyboard.buffer := hring.buffer.trans hring₀.buffer
  have hlookUp : (if t₁.keyboard.uppercase = -1 then uKeyboard key else lKeyboard key) =
      (checkUppercase t.keyboard key).lookUp key := by
    rw [hcase]
    rfl
  dsimp only at hcase h
  rw [hlookUp, hlast, hbuffer] at h
  -- A break code is not stored, whatever it looks up.
  by_cases hkey : key ≥ 128
  · rw [if_pos hkey] at h
    obtain rfl := Except.ok.inj h
    exact ⟨hcase, fun hlt => absurd hlt (UInt8.not_lt.mpr hkey)⟩
  rw [if_neg hkey] at h
  -- A make code is stored if it has a character and the place is free.
  by_cases hfree : t.keyboard.buffer t.keyboard.last = 0 ∧ (checkUppercase t.keyboard key).lookUp key ≠ 0
  · rw [if_pos hfree] at h
    obtain ⟨kernel, -, h⟩ := bind_eq_ok.mp h
    obtain rfl := Except.ok.inj h
    dsimp only
    constructor
    · split
      · exact hcase
      · exact hcase
    · intro _ _ _
      split
      · exact Function.update_self ..
      · exact Function.update_self ..
  · rw [if_neg hfree] at h
    obtain rfl := Except.ok.inj h
    exact ⟨hcase, fun _ hne hzero => absurd ⟨hzero, hne⟩ hfree⟩

/-! ## The sign

A repeated make code turns the sign over once more, and nothing happens to the keys. -/

/-- The sign as it should be. -/
def KeyBoard.Follows (b : KeyBoard) (q : Modifiers) : Prop := b.uppercase = if q.upper then -1 else 1

theorem KeyBoard.follows_turned {b b' : KeyBoard} {q q' : Modifiers} (h : b.Follows q)
    (hturn : b'.uppercase = b.uppercase * -1) : b'.Follows q' ↔ q'.upper = !q.upper := by
  unfold Follows at *
  rw [hturn, h]
  cases q.upper <;> cases q'.upper <;> decide

theorem KeyBoard.follows_kept {b b' : KeyBoard} {q q' : Modifiers} (h : b.Follows q)
    (hkeep : b'.uppercase = b.uppercase) : b'.Follows q' ↔ q'.upper = q.upper := by
  unfold Follows at *
  rw [hkeep, h]
  cases q.upper <;> cases q'.upper <;> decide

/-- A sign that follows the keys goes on to follow them if and only if the code is none of a second
shift. -/
theorem KeyBoard.Follows.after_iff {b : KeyBoard} {q : Modifiers} (h : b.Follows q) (key : UInt8) :
    (checkUppercase b key).Follows (q.after key) ↔ q.OneShift key := by
  obtain ⟨left, right, caps⟩ := q
  by_cases hcode : key = L_SHIFT_PRESSED ∨ key = R_SHIFT_PRESSED ∨ key = L_SHIFT_RELEASED ∨
      key = R_SHIFT_RELEASED ∨ key = CAPS_LOCK_PRESSED
  · have hturn : (checkUppercase b key).uppercase = b.uppercase * -1 := by
      rcases hcode with rfl | rfl | rfl | rfl | rfl <;> rfl
    have hpress : decide ((caps + 1) % 2 = 1) = !decide (caps % 2 = 1) := by
      rw [← decide_not, decide_eq_decide]
      omega
    rw [follows_turned h hturn]
    rcases hcode with rfl | rfl | rfl | rfl | rfl <;> cases left <;> cases right <;>
      simp [Modifiers.after, Modifiers.upper, Modifiers.shift, Modifiers.oneShift_iff, L_SHIFT_PRESSED,
        R_SHIFT_PRESSED, L_SHIFT_RELEASED, R_SHIFT_RELEASED, CAPS_LOCK_PRESSED, hpress, -Nat.mod_two_not_eq_one]
  · -- no other code touches the sign or the keys
    obtain ⟨hl, hr, hl', hr', hcaps⟩ : key ≠ L_SHIFT_PRESSED ∧ key ≠ R_SHIFT_PRESSED ∧
        key ≠ L_SHIFT_RELEASED ∧ key ≠ R_SHIFT_RELEASED ∧ key ≠ CAPS_LOCK_PRESSED := by
      simpa only [not_or] using hcode
    have hkeep : checkUppercase b key = b := by
      rw [checkUppercase, if_neg (by simp [hl, hr]), if_neg (by simp [hl', hr']), if_neg hcaps]
    rw [follows_kept h (congrArg KeyBoard.uppercase hkeep)]
    simp [Modifiers.after, Modifiers.upper, Modifiers.shift, Modifiers.oneShift_iff, hl, hr, hl', hr', hcaps]

/-! ## Typing

The condition is on the scan codes of the run, and every key that is typed has the case of the
modifiers. -/

/-- A scan code that meets the condition `C`, or anything else that the kernel does: only the interrupt of
the keyboard changes the sign. -/
inductive CodeStep (C : Modifiers → UInt8 → Prop) : Terminal × Modifiers → Terminal × Modifiers → Prop
  | code {t t' : Terminal} {q : Modifiers} {fuel : Nat} {key : UInt8} : C q key →
      keyBoardHandler fuel t true key = .ok t' → CodeStep C (t, q) (t', q.after key)
  | other {t t' : Terminal} {q : Modifiers} : t'.keyboard.uppercase = t.keyboard.uppercase →
      CodeStep C (t, q) (t', q)

/-- The sign has its first value, and no key was touched. -/
def CodeStart (s : Terminal × Modifiers) : Prop :=
  s.1.keyboard.uppercase = KeyBoard.static.uppercase ∧ s.2 = .static

/-- A printable key that is typed next is looked up in the keyboard of the modifiers. While the buffer has a
free cell, it is stored there. -/
structure Terminal.TypesFor (t : Terminal) (q : Modifiers) : Prop where
  looked : ∀ key, lKeyboard key ≠ 0 → (checkUppercase t.keyboard key).lookUp key =
    if q.upper then uKeyboard key else lKeyboard key
  stored : ∀ key, key < 128 → lKeyboard key ≠ 0 → t.keyboard.buffer t.keyboard.last = 0 →
    ∀ fuel t', keyBoardHandler fuel t true key = .ok t' →
      t'.keyboard.buffer t.keyboard.last = if q.upper then uKeyboard key else lKeyboard key

/-- A key that prints something without shift prints something with it, and is no modifier. -/
theorem printable_key (hkey : lKeyboard key ≠ 0) :
    uKeyboard key ≠ 0 ∧ ∀ b, checkUppercase b key = b := by
  constructor
  · have htables : ∀ n < 58, lKeys.getD n 0 ≠ 0 → uKeys.getD n 0 ≠ 0 := by decide
    have hlt : key.toNat < 58 := by
      by_contra hge
      have hbeyond : lKeys.length ≤ key.toNat := Nat.not_lt.mp hge
      rw [lKeyboard, List.getD_eq_getElem?_getD, List.getElem?_eq_none hbeyond] at hkey
      exact hkey rfl
    exact htables _ hlt hkey
  · intro b
    have hcode : ∀ code, lKeyboard code = 0 → key ≠ code := by
      rintro code hzero rfl
      exact hkey hzero
    rw [checkUppercase, if_neg (not_or.mpr ⟨hcode _ rfl, hcode _ rfl⟩),
      if_neg (not_or.mpr ⟨hcode _ rfl, hcode _ rfl⟩), if_neg (hcode _ rfl)]

theorem KeyBoard.Follows.typesFor {q : Modifiers} (h : t.keyboard.Follows q) : t.TypesFor q := by
  have hlooked : ∀ key, lKeyboard key ≠ 0 → (checkUppercase t.keyboard key).lookUp key =
      if q.upper then uKeyboard key else lKeyboard key := by
    intro key hkey
    rw [(printable_key hkey).2, lookUp, h]
    cases q.upper <;> rfl
  refine ⟨hlooked, fun key hlt hkey hfree fuel t' hrun => ?_⟩
  rw [← hlooked key hkey]
  refine (keyBoardHandler_lookUp hrun).2 hlt ?_ hfree
  rw [hlooked key hkey]
  split
  · exact (printable_key hkey).1
  · exact hkey

/-- While no shift code is repeated, the case follows the modifiers. -/
theorem case_follows_modifiers {s : Terminal × Modifiers}
    (h : Reachable CodeStart (CodeStep Modifiers.OneShift) s) : s.1.TypesFor s.2 := by
  have hfollows : s.1.keyboard.Follows s.2 := by
    refine h.invariant (I := fun s => s.1.keyboard.Follows s.2) (fun s hs => ?_) fun s s' _ hs hstep => ?_
    · obtain ⟨hsign, hkeys⟩ := hs
      rw [KeyBoard.Follows, hsign, hkeys]
      rfl
    · cases hstep with
      | code hone hrun =>
          have hafter := (hs.after_iff _).mpr hone
          rwa [KeyBoard.Follows, ← (keyBoardHandler_lookUp hrun).1] at hafter
      | other hsame => exact hsame.trans hs
  exact hfollows.typesFor

/-- The left shift key is pressed and held until its code is repeated. -/
theorem repeatedShift_steps : ∃ t₁ t₂, keyBoardHandler 1 ⟨startMachine, .static⟩ true L_SHIFT_PRESSED = .ok t₁ ∧
    keyBoardHandler 1 t₁ true L_SHIFT_PRESSED = .ok t₂ ∧ t₂.keyboard.uppercase = 1 :=
  ⟨_, _, rfl, rfl, rfl⟩

theorem startMachine_codes : CodeStart (⟨startMachine, .static⟩, .static) := ⟨rfl, rfl⟩

/-- After the repeated code the key of `a` types a small letter. -/
theorem repeated_shift_lower : ¬ ∀ s, Reachable CodeStart (CodeStep fun _ _ => True) s →
    s.1.TypesFor s.2 := by
  intro hclaim
  obtain ⟨t₁, t₂, h₁, h₂, hsign⟩ := repeatedShift_steps
  have htypes := hclaim _ (.next (.next (.start startMachine_codes) (.code trivial h₁)) (.code trivial h₂))
  have hupper : (checkUppercase t₂.keyboard 0x1E).lookUp 0x1E = uKeyboard 0x1E :=
    htypes.looked 0x1E (by decide)
  have hlower : (checkUppercase t₂.keyboard 0x1E).lookUp 0x1E = lKeyboard 0x1E :=
    if_neg (by rw [(printable_key (by decide)).2, hsign]; decide)
  exact absurd (hlower.symm.trans hupper) (by decide)

/-- One shift key is pressed. -/
theorem shift_types_upper : ∃ t, Reachable CodeStart (CodeStep Modifiers.OneShift)
    (t, Modifiers.static.after L_SHIFT_PRESSED) ∧ t.TypesFor (Modifiers.static.after L_SHIFT_PRESSED) := by
  obtain ⟨t₁, -, h₁, -⟩ := repeatedShift_steps
  have hone : Modifiers.static.OneShift L_SHIFT_PRESSED := ⟨fun _ => rfl, by decide, by decide⟩
  have hreach := Reachable.next (.start startMachine_codes) (CodeStep.code hone h₁)
  exact ⟨t₁, hreach, case_follows_modifiers hreach⟩

end BasicKernel
