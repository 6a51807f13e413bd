import BasicKernel.Userland.Strings
import BasicKernel.Kernel.Numerals

set_option autoImplicit false

/-! # `printf`

The format is a string in memory and every read of it is checked. What is printed is collected in a list
of characters. The code is compiled without optimisation, so the arithmetic on `int` wraps.

A call is described in `Userland/Format.lean` and `Userland/FormatRun.lean`, piece by piece.
-/

namespace BasicKernel

open Linked Fuel Decimal

/-- An argument of `printf`. -/
inductive Argument where
  | int (v : Int32)
  | string (word : CString)
  deriving DecidableEq, Repr

/-- The state of a call: the characters printed so far and the arguments left. The last two fields record
what the padding loops do: whether the counter `margen` was ever negative, and for each loop the width
that was asked for with the number of blanks that it printed. -/
structure Printer where
  output : List UInt8
  parameters : List Argument
  belowZero : Bool
  paddings : List (Int × Nat)
  deriving DecidableEq, Repr

namespace Printer

def putchar (c : UInt8) (p : Printer) : Printer := { p with output := p.output ++ [c] }

def printString (word : CString) (p : Printer) : Printer :=
  { p with output := p.output ++ word.chars }

/-- `va_arg(parameters, int)` -/
def nextInt (p : Printer) : Except Stop (Int × Printer) :=
  match p.parameters with
  | .int v :: parameters => .ok (v.toInt, { p with parameters })
  | _ => .error .outOfBounds

/-- `va_arg(parameters, char *)` -/
def nextString (p : Printer) : Except Stop (CString × Printer) :=
  match p.parameters with
  | .string word :: parameters => .ok (word, { p with parameters })
  | _ => .error .outOfBounds

/-- The counter of a padding loop gets the value `margen`. -/
def counts (margen : Int) (p : Printer) : Printer :=
  { p with belowZero := p.belowZero || decide (margen < 0) }

end Printer

/-- The conversion of an `int` to `char`. -/
def toChar (v : Int) : UInt8 := UInt8.ofNat (toUInt64 v)

/-! ## Numbers

The digits go to a buffer, the last one first, and are printed from its end. -/

/-- The first loop of `putNum`, which fills the buffer with the digits, the last one first. -/
def storeDigits : Nat → Int → List Int → Except Stop (List Int)
  | 0, _, _ => .error .outOfFuel
  | fuel + 1, num, buffer =>
      if num = 0 then .ok buffer
      else if buffer.length < 100 then storeDigits fuel (num.tdiv 10) (buffer ++ [num.tmod 10])
      else .error .outOfBounds

/-- The digits of a number that is not zero. The second loop of `putNum` takes them from the end of the
buffer. -/
def putDigits (fuel : Nat) (num : Int) (p : Printer) : Except Stop Printer := do
  let buffer ← storeDigits fuel num []
  return { p with output := p.output ++ buffer.reverse.map digit }

def putNum (fuel : Nat) (num : Int) (p : Printer) : Except Stop Printer :=
  if num = 0 then .ok (p.putchar 48)
  else if num < 0 then putDigits fuel (toInt32 (num * -1)) (p.putchar 45)
  else putDigits fuel num p

def isDigit (c : UInt8) : Bool := 48 ≤ c ∧ c ≤ 57

/-! ## Padding

A blank is printed for each round, and the loops end when the counter is 0. -/

/-- `while(margen){ putchar(' '); margen--; }` -/
def pad : Nat → Int → Printer → Except Stop Printer
  | 0, _, _ => .error .outOfFuel
  | fuel + 1, margen, p =>
      if margen = 0 then .ok p
      else pad fuel (toInt32 (margen - 1)) ((p.putchar 32).counts (toInt32 (margen - 1)))

/-- The loop with the value `margen` of the counter, for the given width. -/
def padFrom (fuel : Nat) (width margen : Int) (p : Printer) : Except Stop Printer := do
  let p' ← pad fuel margen (p.counts margen)
  return { p' with paddings := p'.paddings ++ [(width, p'.output.length - p.output.length)] }

/-- `if(length < margen){ margen -= length; while(margen) … }` -/
def padTo (fuel : Nat) (length margen : Int) (p : Printer) : Except Stop Printer :=
  if length < margen then padFrom fuel margen (margen - length) p else .ok p

/-! ## Directives -/

/-- `%s` -/
def putString (p : Printer) : Except Stop Printer := do
  let (word, p) ← p.nextString
  return p.printString word

/-- `%c` -/
def putCharacter (p : Printer) : Except Stop Printer := do
  let (v, p) ← p.nextInt
  return p.putchar (toChar v)

/-- `%d` and `%i` -/
def putNumber (fuel : Nat) (p : Printer) : Except Stop Printer := do
  let (number, p) ← p.nextInt
  putNum fuel number p

/-- `%s` with a width -/
def putPaddedString (fuel : Nat) (margen : Int) (p : Printer) : Except Stop Printer := do
  let (word, p) ← p.nextString
  let p ← padTo fuel (← strlen fuel word.region) margen p
  return p.printString word

/-- `%d` and `%i` with a width. The loop over `aux` is the one of `intLength`. -/
def putPaddedNumber (fuel : Nat) (margen : Int) (p : Printer) : Except Stop Printer := do
  let (number, p) ← p.nextInt
  let length ← countDigits fuel number 0
  let p ← padTo fuel length margen p
  putNum fuel number p

/-- `%c` with a width -/
def putPaddedCharacter (fuel : Nat) (margen : Int) (p : Printer) : Except Stop Printer := do
  let p ← padFrom fuel margen (toInt32 (margen - 1)) p
  let (v, p) ← p.nextInt
  return p.putchar (toChar v)

/-- The loop that reads a width: the index, the width and the number of digits. -/
def readWidth (format : List UInt8) (fuel : Nat) (s : Nat × Int × Nat) :
    Except Stop (Nat × Int × Nat) :=
  walkWhile .outOfFuel (fun s => do return isDigit (← charAt format s.1))
    (fun (i, margen, j) => do
      let c ← charAt format i
      return (i + 1, toInt32 (margen * 10 + charValue c - 48), j + 1))
    fuel s

/-- The branch for a width. -/
def widthDirective (format : List UInt8) (fuel i : Nat) (p : Printer) : Except Stop (Nat × Printer) := do
  let (i, margen, j) ← readWidth format fuel (i, 0, 0)
  let c ← charAt format i
  if c = 115 then return (i, ← putPaddedString fuel margen p)
  else if c = 100 ∨ c = 105 then return (i, ← putPaddedNumber fuel margen p)
  else if c = 99 then return (i, ← putPaddedCharacter fuel margen p)
  else return (i - j, p)

/-- What follows a `%`, which stands in front of index `i`. The index returned is the last one used. -/
def directive (format : List UInt8) (fuel i : Nat) (p : Printer) : Except Stop (Nat × Printer) := do
  let c ← charAt format i
  if c = 115 then return (i, ← putString p)
  else if c = 99 then return (i, ← putCharacter p)
  else if c = 100 ∨ c = 105 then return (i, ← putNumber fuel p)
  else if isDigit c then widthDirective format fuel i p
  else return (i, (p.putchar 37).putchar c)

/-- The loop that copies the text up to the next `%`. -/
def copyText (format : List UInt8) (fuel : Nat) (s : Nat × Printer) : Except Stop (Nat × Printer) :=
  walkWhile .outOfFuel
    (fun s => do
      let c ← charAt format s.1
      return decide (c ≠ 0 ∧ c ≠ 37))
    (fun (i, p) => do return (i + 1, p.putchar (← charAt format i)))
    fuel s

/-- The outer loop. The copying loop stops only at a `%` or at the end. -/
def printfLoop (format : List UInt8) : Nat → Nat → Printer → Except Stop Printer
  | 0, _, _ => .error .outOfFuel
  | fuel + 1, i, p => do
      if (← charAt format i) = 0 then
        return p
      let (i, p) ← copyText format fuel (i, p)
      if (← charAt format i) = 0 then
        return p
      let (i, p) ← directive format fuel (i + 1) p
      printfLoop format fuel (i + 1) p

def printf (fuel : Nat) (format : List UInt8) (parameters : List Argument) : Except Stop Printer :=
  printfLoop format fuel 0 ⟨[], parameters, false, []⟩

end BasicKernel
