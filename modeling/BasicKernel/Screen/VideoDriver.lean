import BasicKernel.Kernel.Pipefs

set_option autoImplicit false

/-! # `videoDriver.c`

A screen is 25 rows of 80 cells, a cell is a character and a colour. The functions draw on the video
memory and on the saved screens of processes. They write through bare pointers: a write to any
address succeeds.

What these functions do to a screen is said in `Screen/Page.lean`, as operations on a page of
text.
-/

namespace BasicKernel

open Linked

abbrev WINDOW_WIDTH : Nat := 80

abbrev WINDOW_HEIGHT : Nat := 25

abbrev WINDOW_SIZE : Nat := WINDOW_WIDTH * WINDOW_HEIGHT * 2

abbrev END_OF_SCREEN : Nat := WINDOW_WIDTH * 2 * WINDOW_HEIGHT

abbrev TABSIZE : Nat := 12

def DEFAULT_COLOR : UInt8 := 0x0F

/-- `screen` -/
def VIDEO : Addr := 0xB8000

/-- The variable that an argument `char ** myCurrentPos` points to: the static one, or the local
one of `writeToMyScreen`. -/
inductive CursorVar where
  | currentPosition | myScreenPos
  deriving DecidableEq

/-- The characters in memory and the two cursors. `written` is no variable of the source: it records
the addresses that were written. -/
structure Video where
  char : Addr → UInt8
  currentPosition : Addr
  myScreenPos : Addr
  written : List Addr

namespace Video

/-- `*p = c;` -/
def set (v : Video) (p : Addr) (c : UInt8) : Video :=
  { v with char := Function.update v.char p c, written := p :: v.written }

/-- `*myCurrentPos` -/
def pos (v : Video) : CursorVar → Addr
  | .currentPosition => v.currentPosition
  | .myScreenPos => v.myScreenPos

/-- `*myCurrentPos = p;` -/
def setPos (v : Video) (p : Addr) : CursorVar → Video
  | .currentPosition => { v with currentPosition := p }
  | .myScreenPos => { v with myScreenPos := p }

/-- `*((*myCurrentPos)++) = c;` -/
def put (v : Video) (c : UInt8) (cursor : CursorVar) : Video :=
  (v.set (v.pos cursor) c).setPos (v.pos cursor + 1) cursor

/-- `for (i = 0; i < n; i++) p[i] = c(i);` -/
def fill (p : Addr) (c : Video → Nat → UInt8) : Nat → Video → Video
  | 0, v => v
  | n + 1, v =>
      let v := fill p c n v
      v.set (p + n) (c v n)

end Video

/-! ## Whole screens -/

def clear (v : Video) (screenToClear : Addr) : Video :=
  v.fill screenToClear (fun _ i => if i % 2 = 1 then DEFAULT_COLOR else 32) WINDOW_SIZE

def clearScreen (v : Video) : Video := { clear v VIDEO with currentPosition := VIDEO }

def setScreen (v : Video) (myScreen myCurrentPos : Addr) : Video :=
  let cursorDistance := toInt32 ((myCurrentPos : Int) - myScreen)
  let v := v.fill VIDEO (fun v i => v.char (myScreen + i)) WINDOW_SIZE
  { v with currentPosition := toUInt64 ((VIDEO : Int) + cursorDistance) }

/-- `backupContent`: the cursor of the copy. -/
def backupContent (v : Video) (backup : Addr) : Addr × Video :=
  let cursorDistance := toInt32 ((v.currentPosition : Int) - VIDEO)
  let v := v.fill backup (fun v i => v.char (VIDEO + i)) WINDOW_SIZE
  (toUInt64 ((backup : Int) + cursorDistance), v)

/-- The second loop of `moveScreenUp`, for a row that starts at `p`. -/
def blankCells (p : Addr) : Nat → Video → Video
  | 0, v => v
  | n + 1, v => ((blankCells p n v).set (p + 2 * n) 32).set (p + 2 * n + 1) DEFAULT_COLOR

def moveScreenUp (v : Video) (myScreen : Addr) (myCurrentPos : CursorVar) : Video :=
  let v := v.fill myScreen (fun v i => v.char (myScreen + (i + WINDOW_WIDTH * 2)))
    (WINDOW_WIDTH * 2 * (WINDOW_HEIGHT - 1))
  let v := blankCells (myScreen + END_OF_SCREEN - WINDOW_WIDTH * 2) WINDOW_WIDTH v
  v.setPos (myScreen + END_OF_SCREEN - WINDOW_WIDTH * 2) myCurrentPos

def checkEndOfScreen (v : Video) (myScreen : Addr) (myCurrentPos : CursorVar) : Video :=
  if v.pos myCurrentPos ≥ myScreen + END_OF_SCREEN then moveScreenUp v myScreen myCurrentPos else v

/-! ## Characters

Each of these functions moves the cursor that it is given, but for `printTab`, which has no
parameter. -/

/-- `print`, on the characters in front of the first 0. -/
def print (v : Video) : List UInt8 → Video
  | [] => v
  | c :: string =>
      let v := (v.put c .currentPosition).put DEFAULT_COLOR .currentPosition
      print (checkEndOfScreen v VIDEO .currentPosition) string

def myNewLine (v : Video) (myScreen : Addr) (myCurrentPos : CursorVar) : Video :=
  let distance := ((myScreen : Int) - v.pos myCurrentPos).tmod (WINDOW_WIDTH * 2) + WINDOW_WIDTH * 2
  let v := v.setPos ((v.pos myCurrentPos : Int) + distance).toNat myCurrentPos
  checkEndOfScreen v myScreen myCurrentPos

def newLine (v : Video) : Video := myNewLine v VIDEO .currentPosition

def backSpace (v : Video) (myScreen : Addr) (myCurrentPos : CursorVar) : Video :=
  if v.pos myCurrentPos = myScreen then v
  else
    let v := v.setPos (v.pos myCurrentPos - 2) myCurrentPos
    v.set (v.pos myCurrentPos) 32

def myPrintTab (v : Video) (myCurrentPos : CursorVar) : Video :=
  let relativePos := (toInt32 ((v.pos myCurrentPos : Int) - VIDEO)).tdiv 2
  let column := relativePos.tmod WINDOW_WIDTH
  v.setPos ((v.pos myCurrentPos : Int) + (TABSIZE - column.tmod TABSIZE) * 2).toNat myCurrentPos

def printTab (v : Video) : Video := myPrintTab v .currentPosition

/-- `printTab` has no parameter: the argument that it is called with is lost. -/
def printCharactersInner (v : Video) (character : UInt8) (myScreen : Addr)
    (myCurrentPos : CursorVar) : Video :=
  let v :=
    if character = 10 then myNewLine v myScreen myCurrentPos -- '\n'
    else if character = 8 then backSpace v myScreen myCurrentPos -- '\b'
    else if character = 9 then printTab v -- '\t'
    else (v.put character myCurrentPos).put DEFAULT_COLOR myCurrentPos
  checkEndOfScreen v myScreen myCurrentPos

def printCharacters (v : Video) (character : UInt8) : Video :=
  printCharactersInner v character VIDEO .currentPosition

/-! ## Numbers

The functions that print numbers are written once, for the screen and for a list of what was
printed. -/

/-- What numbers and listings are printed on, with the functions of the driver that they call. -/
class PrintsOn (σ : Type) where
  print : σ → List UInt8 → σ
  printCharacters : σ → UInt8 → σ
  printTab : σ → σ
  newLine : σ → σ

instance : PrintsOn Video := ⟨print, printCharacters, printTab, newLine⟩

section Numbers

variable {σ : Type} [PrintsOn σ]

/-- The second loop of `printDec`. -/
def printDigits : Nat → σ → Int → Int → Except Stop σ
  | 0, _, _, _ => .error .outOfFuel
  | fuel + 1, v, number, divisor =>
      if divisor = 0 then .ok v
      else
        printDigits fuel (PrintsOn.printCharacters v (digit (number.tmod 10))) (number.tdiv 10)
          (divisor.tdiv 10)

/-- `printDec`. Its first loop does not change `length`. -/
def printDec (fuel : Nat) (v : σ) (number : Int) : Except Stop σ := do
  let length ← intLength fuel number
  let divisor ← walkWhile .outOfFuel (fun _ => .ok (decide (length - 1 > 0)))
    (fun divisor => .ok (toInt32 (divisor * 10))) fuel (1 : Int)
  printDigits fuel v number divisor

end Numbers

end BasicKernel
