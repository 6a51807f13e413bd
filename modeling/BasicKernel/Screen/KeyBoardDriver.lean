import BasicKernel.Screen.ScreenLoader

set_option autoImplicit false

/-! # `keyBoadDriver.c`

The keyboard interrupt and the circular buffer of typed characters, with the part of `read`
(`systemCalls.c`) that reads them.

What the interrupt and `read` make of the buffer is proved in `Screen/Typing.lean`, and what they
make of the modifier keys in `Screen/LetterCase.lean`.
-/

namespace BasicKernel

abbrev BUFFER_SIZE : Nat := 100

def L_SHIFT_PRESSED : UInt8 := 0x2A

def L_SHIFT_RELEASED : UInt8 := 0xAA

def R_SHIFT_PRESSED : UInt8 := 0x36

def R_SHIFT_RELEASED : UInt8 := 0xB6

def CAPS_LOCK_PRESSED : UInt8 := 0x3A

def L_ALT_PRESSED : UInt8 := 0x38

def L_ALT_RELEASED : UInt8 := 0xB8

def R_ALT_PRESSED : UInt8 := 0x38

def R_ALT_RELEASED : UInt8 := 0xB8

def L_ARROW_PRESSED : UInt8 := 0x4B

def R_ARROW_PRESSED : UInt8 := 0x4D

/-- The characters that the initialiser of `lKeyboard` lists, one row of keys a line. -/
def lKeys : List UInt8 :=
  [0, 96, 49, 50, 51, 52, 53, 54, 55, 56, 57, 48, 45, 61, 8,
    9, 113, 119, 101, 114, 116, 121, 117, 105, 111, 112, 91, 93, 10,
    0, 97, 115, 100, 102, 103, 104, 106, 107, 108, 59, 39, 92,
    0, 0, 122, 120, 99, 118, 98, 110, 109, 44, 46, 47, 0, 0, 0, 32]

/-- Those of `uKeyboard`. -/
def uKeys : List UInt8 :=
  [0, 126, 33, 64, 35, 36, 37, 94, 38, 42, 40, 41, 95, 43, 8,
    9, 81, 87, 69, 82, 84, 89, 85, 73, 79, 80, 123, 125, 10,
    0, 65, 83, 68, 70, 71, 72, 74, 75, 76, 58, 34, 124,
    0, 0, 90, 88, 67, 86, 66, 78, 77, 60, 62, 63, 0, 0, 0, 32]

def lKeyboard (key : UInt8) : UInt8 := lKeys.getD key.toNat 0

def uKeyboard (key : UInt8) : UInt8 := uKeys.getD key.toNat 0

/-- The static variables of the driver. The pointers into `buffer` are offsets. -/
structure KeyBoard where
  buffer : Nat → UInt8
  current : Nat
  last : Nat
  uppercase : Int
  altKey : Int

/-- The variables as their initialisers leave them. -/
def KeyBoard.static : KeyBoard := ⟨fun _ => 0, 0, 0, 1, 0⟩

/-- The kernel with its screens and its keyboard. -/
structure Terminal where
  machine : Machine
  keyboard : KeyBoard

/-! ## Typing

The interrupt reads one scan code. It sets the modifiers, switches screens, and stores the
character of the key. -/

def checkSwapScreen (fuel : Nat) (t : Terminal) (key : UInt8) : Except Stop Terminal := do
  let t :=
    if key = L_ALT_PRESSED ∨ key = R_ALT_PRESSED then
      { t with keyboard := { t.keyboard with altKey := 1 } }
    else if key = L_ALT_RELEASED ∨ key = R_ALT_RELEASED then
      { t with keyboard := { t.keyboard with altKey := 0 } }
    else t
  let machine ←
    if t.keyboard.altKey ≠ 0 ∧ key = L_ARROW_PRESSED then loadPreviousScreen fuel t.machine
    else pure t.machine
  let machine ←
    if t.keyboard.altKey ≠ 0 ∧ key = R_ARROW_PRESSED then loadNextScreen fuel machine
    else pure machine
  return { t with machine }

/-- The three tests of `keyBoardHandler` that change `uppercase`. -/
def checkUppercase (b : KeyBoard) (key : UInt8) : KeyBoard :=
  if key = L_SHIFT_PRESSED ∨ key = R_SHIFT_PRESSED then { b with uppercase := b.uppercase * -1 }
  else if key = L_SHIFT_RELEASED ∨ key = R_SHIFT_RELEASED then
    { b with uppercase := b.uppercase * -1 }
  else if key = CAPS_LOCK_PRESSED then { b with uppercase := b.uppercase * -1 }
  else b

/-- `keyBoardHandler`, for what the controller answers: whether there is a scan code, and which. -/
def keyBoardHandler (fuel : Nat) (t : Terminal) (ready : Bool) (key : UInt8) :
    Except Stop Terminal := do
  if !ready then
    return t
  let t := { t with keyboard := checkUppercase t.keyboard key }
  let t ← checkSwapScreen fuel t key
  if key ≥ 128 then
    return t
  let b := t.keyboard
  let character := if b.uppercase = -1 then uKeyboard key else lKeyboard key
  if b.buffer b.last = 0 ∧ character ≠ 0 then
    let b := { b with buffer := Function.update b.buffer b.last character, last := b.last + 1 }
    let kernel ← unblockAllThreads fuel t.machine.kernel t.machine.onFocusPid ThreadState.T_BLOCKED_IO
    let b := if b.last ≥ BUFFER_SIZE then { b with last := 0 } else b
    return ⟨{ t.machine with kernel }, b⟩
  return t

/-! ## Reading

A cell that holds 0 is free, and `getKey` frees the cell that it reads. A process that is not on
focus is blocked before it reads. -/

def getKey (b : KeyBoard) : UInt8 × KeyBoard :=
  if b.buffer b.current = 0 then (0, b)
  else
    let character := b.buffer b.current
    let b := { b with buffer := Function.update b.buffer b.current 0, current := b.current + 1 }
    (character, if b.current ≥ BUFFER_SIZE then { b with current := 0 } else b)

/-- The call of `blockThread` in `read` and in `blockIfNotOnFocus`. -/
def blockReader (fuel : Nat) (m : Machine) : Except Stop Machine := do
  let kernel ← blockThread fuel m.kernel (← getCurrentPid m.kernel) (← getCurrentPthread m.kernel)
    ThreadState.T_BLOCKED_IO
  return { m with kernel }

def blockIfNotOnFocus (fuel : Nat) (m : Machine) : Except Stop (Bool × Machine) := do
  if !(← isCurrentProcessOnFocus m) then
    return (true, ← blockReader fuel m)
  return (false, m)

/-- The loop of `read`, with the bytes that are still asked for: the number of characters read. -/
def readKeys (buf : Addr) : Nat → Terminal → Nat → Except Stop (Nat × Terminal)
  | 0, t, readBytes => .ok (readBytes, t)
  | n + 1, t, readBytes => do
      let (character, keyboard) := getKey t.keyboard
      let kernel ← t.machine.kernel.setChar (buf + readBytes) character
      let t : Terminal := ⟨{ t.machine with kernel }, keyboard⟩
      if character = 0 then
        return (readBytes, t)
      readKeys buf n t (readBytes + 1)

/-- `read(STANDARD_IO_FD, buf, nBytes)` -/
def read (fuel : Nat) (t : Terminal) (buf : Addr) (nBytes : Nat) :
    Except Stop (Nat × Terminal) := do
  let (blocked, machine) ← blockIfNotOnFocus fuel t.machine
  if blocked then
    return (0, ⟨machine, t.keyboard⟩)
  let (readBytes, t) ← readKeys buf nBytes t 0
  if readBytes = 0 then
    return (0, ⟨← blockReader fuel t.machine, t.keyboard⟩)
  return (readBytes, t)

end BasicKernel
