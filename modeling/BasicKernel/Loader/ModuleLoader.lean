import BasicKernel.Loader.NaiveConsole
import BasicKernel.Screen.SystemCalls

set_option autoImplicit false

/-! # `moduleLoader.c` and the boot code of `kernel.c`

The loader copies each module that the packer put behind the kernel to its address, and prints a line
on it. `initializeKernelBinary` then clears the section `.bss`, in whose place the payload was loaded.

What this code does is proved in `Loader/Image.lean`, together with the packer.
-/

namespace BasicKernel

open ByteMemory NaiveConsole

/-! ## `moduleLoader.c`

The packed modules are read from the payload on, and each read moves the address further. -/

/-- The number at an address, and the address behind it. -/
def readUint32 (m : Memory) (address : Nat) : Nat × Addr := (loadWord m address, address + 4)

/-- The address behind the module, and the console. -/
def loadModule (fuel : Nat) (c : NaiveConsole) (current targetModuleAddress : Nat) :
    Except Stop (Nat × NaiveConsole) := do
  let (moduleSize, current) := readUint32 c.memory current
  let c := c.ncPrint (chars "  Will copy module at 0x")
  let c ← c.ncPrintHex fuel current
  let c := c.ncPrint (chars " to 0x")
  let c ← c.ncPrintHex fuel targetModuleAddress
  let c := c.ncPrint (chars " (")
  let c ← c.ncPrintDec fuel moduleSize
  let c := c.ncPrint (chars " bytes)")
  let c := { c with memory := memcpy c.memory targetModuleAddress current moduleSize }
  let c := c.ncPrint (chars " [Done]")
  let c ← ncNewline fuel c
  return (current + moduleSize, c)

/-- The loop of `loadModules`, with the modules that are left and those that were loaded. -/
def loadRest (fuel : Nat) (targetModuleAddress : List Nat) :
    Nat → Nat → Nat → NaiveConsole → Except Stop NaiveConsole
  | 0, _, _, c => .ok c
  | n + 1, i, current, c =>
      match targetModuleAddress[i]? with
      | none => .error .outOfBounds
      | some target => do
          let (current, c) ← loadModule fuel c current target
          loadRest fuel targetModuleAddress n (i + 1) current c

def loadModules (fuel : Nat) (c : NaiveConsole) (payloadStart : Nat)
    (targetModuleAddress : List Nat) : Except Stop NaiveConsole :=
  let (moduleCount, currentModule) := readUint32 c.memory payloadStart
  loadRest fuel targetModuleAddress moduleCount 0 currentModule c

/-! ## `kernel.c`

The addresses of the linker script are parameters, because the files that fix them are made by the
build. -/

/-- The symbols of the linker script, and the addresses of the two variables of `naiveConsole.c`. Both are
initialised, and so are part of `.data`. -/
structure LinkerSymbols where
  text : Nat
  rodata : Nat
  data : Nat
  bss : Nat
  endOfKernelBinary : Nat
  endOfKernel : Nat
  buffer : Nat
  currentVideo : Nat

def PageSize : Nat := 0x1000

def sampleCodeModuleAddress : Nat := 0x400000

def sampleDataModuleAddress : Nat := 0x500000

def clearBSS (m : Memory) (bssAddress : Nat) (bssSize : Nat) : Memory :=
  memset m bssAddress 0 bssSize

def getStackBase (symbols : LinkerSymbols) : Nat := symbols.endOfKernel + PageSize * 8 - 8

/-- A line with the address of a section. -/
def printSection (fuel : Nat) (c : NaiveConsole) (name : String) (address : Nat) :
    Except Stop NaiveConsole := do
  let c := c.ncPrint (chars name)
  let c ← c.ncPrintHex fuel address
  ncNewline fuel c

/-- A line of text. -/
def printLine (fuel : Nat) (c : NaiveConsole) (text : String) : Except Stop NaiveConsole :=
  ncNewline fuel (c.ncPrint (chars text))

/-- `vendor` is the string that `cpuVendor` leaves in the buffer on the stack. -/
def initializeKernelBinary (fuel : Nat) (symbols : LinkerSymbols) (vendor : List UInt8)
    (c : NaiveConsole) : Except Stop (Nat × NaiveConsole) := do
  let c ← printLine fuel c "[x64BareBones]"
  let c := c.ncPrint (chars "CPU Vendor:")
  let c := c.ncPrint vendor
  let c ← ncNewline fuel c
  let c ← printLine fuel c "[Loading modules]"
  let moduleAddresses := [sampleCodeModuleAddress, sampleDataModuleAddress]
  let c ← loadModules fuel c symbols.endOfKernelBinary moduleAddresses
  let c ← printLine fuel c "[Done]"
  let c ← ncNewline fuel c
  let c ← printLine fuel c "[Initializing kernel's binary]"
  let c := { c with memory := clearBSS c.memory symbols.bss (symbols.endOfKernel - symbols.bss) }
  let c ← printSection fuel c "  text: 0x" symbols.text
  let c ← printSection fuel c "  rodata: 0x" symbols.rodata
  let c ← printSection fuel c "  data: 0x" symbols.data
  let c ← printSection fuel c "  bss: 0x" symbols.bss
  let c ← printLine fuel c "[Done]"
  let c ← ncNewline fuel c
  return (getStackBase symbols, c)

end BasicKernel
