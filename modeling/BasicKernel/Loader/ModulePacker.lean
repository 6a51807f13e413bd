import BasicKernel.Basic.Outcome
import BasicKernel.Lib.ByteMemory

set_option autoImplicit false

/-! # The module packer

`main.c` of the tool that appends the modules to the kernel binary: the kernel, the number of modules,
and for each module its size and its bytes.

`buildImage_returns` has the image as one list of bytes. It ends in the `payload`, which is what
the loader reads.
-/

namespace BasicKernel

open ByteMemory Fuel

/-- The bytes of a file. -/
abbrev BinaryFile := List UInt8

/-- A stream that is read: what is left of the file, and its end-of-file indicator. -/
structure Stream where
  rest : BinaryFile
  eof : Bool

def fopen (file : BinaryFile) : Stream := { rest := file, eof := false }

/-- `fread(buffer, 1, size, stream)`. A read that comes out short sets the indicator. -/
def fread (size : Nat) (stream : Stream) : List UInt8 × Stream :=
  (stream.rest.take size,
    { rest := stream.rest.drop size, eof := stream.eof || decide (stream.rest.length < size) })

/-- `BUFFER_SIZE` -/
def PACKER_BUFFER_SIZE : Nat := 128

def write_file : Nat → BinaryFile → Stream → Except Stop BinaryFile
  | 0, _, _ => .error .outOfFuel
  | fuel + 1, target, source =>
      if source.eof then
        .ok target
      else
        let (buffer, source) := fread PACKER_BUFFER_SIZE source
        write_file fuel (target ++ buffer) source

/-- The size is written as a `uint32_t`. -/
def write_size (target file : BinaryFile) : BinaryFile := target ++ encode 4 file.length

/-- The output file. The argument parser asks for a kernel file at least. -/
def buildImage (fuel : Nat) (fileArray : List BinaryFile) : Except Stop BinaryFile :=
  match fileArray with
  | [] => .error .outOfBounds
  | kernel :: extraBinaries => do
      let target ← write_file fuel [] (fopen kernel)
      let target := target ++ encode 4 extraBinaries.length
      extraBinaries.foldlM (fun target file => write_file fuel (write_size target file) (fopen file))
        target

/-! ## The format of the output -/

/-- The modules one after the other, each behind its size. -/
def packModules (modules : List BinaryFile) : BinaryFile :=
  modules.flatMap fun file => encode 4 file.length ++ file

/-- What follows the kernel in the image. -/
def payload (modules : List BinaryFile) : BinaryFile :=
  encode 4 modules.length ++ packModules modules

@[simp] theorem packModules_nil : packModules [] = [] := rfl

theorem packModules_cons (file : BinaryFile) (modules : List BinaryFile) :
    packModules (file :: modules) = encode 4 file.length ++ (file ++ packModules modules) := by
  rw [packModules, List.flatMap_cons, List.append_assoc]
  rfl

theorem write_file_returns (target file : BinaryFile) :
    Returns (write_file · target (fopen file)) (target ++ file) := by
  -- a file whose size is a multiple of the buffer takes one more round that reads nothing
  have hstop : ∀ (target rest : BinaryFile), Returns (write_file · target ⟨rest, true⟩) target :=
    fun target rest => (Returns.const _ target).succ rfl fun _ => rfl
  have hrest : ∀ (n : Nat) (target rest : BinaryFile), rest.length ≤ n →
      Returns (write_file · target ⟨rest, false⟩) (target ++ rest) := by
    intro n
    induction n using Nat.strong_induction_on with
    | _ n ih =>
        intro target rest hn
        by_cases hshort : rest.length < PACKER_BUFFER_SIZE
        · have htake : rest.take PACKER_BUFFER_SIZE = rest := List.take_of_length_le hshort.le
          refine (hstop (target ++ rest) (rest.drop PACKER_BUFFER_SIZE)).succ rfl fun fuel => ?_
          simp [write_file, fread, htake, hshort]
        · have hdrop : (rest.drop PACKER_BUFFER_SIZE).length < n := by
            rw [List.length_drop]
            unfold PACKER_BUFFER_SIZE at hshort ⊢
            omega
          have hloop := ih _ hdrop (target ++ rest.take PACKER_BUFFER_SIZE)
            (rest.drop PACKER_BUFFER_SIZE) le_rfl
          rw [List.append_assoc, List.take_append_drop] at hloop
          refine hloop.succ rfl fun fuel => ?_
          simp [write_file, fread, hshort]
  exact hrest file.length target file le_rfl

/-- The image is the kernel with the payload behind it. -/
theorem buildImage_returns (kernel : BinaryFile) (modules : List BinaryFile) :
    Returns (buildImage · (kernel :: modules)) (kernel ++ payload modules) := by
  -- The modules are appended one after the other, whatever is in the file already.
  have hmodules : ∀ (modules : List BinaryFile) (target : BinaryFile), Returns (fun fuel =>
      modules.foldlM (fun target file => write_file fuel (write_size target file) (fopen file)) target)
        (target ++ packModules modules) := by
    intro modules
    induction modules with
    | nil =>
        intro target
        simpa using Returns.const (ε := Stop) .outOfFuel target
    | cons file modules ih =>
        intro target
        have hbind := (write_file_returns (write_size target file) file).bind
          (g := fun fuel target => modules.foldlM
            (fun target file => write_file fuel (write_size target file) (fopen file)) target) (ih _)
        rw [packModules_cons]
        simpa only [List.foldlM_cons, write_size, List.append_assoc] using hbind
  -- The kernel is the first file, and the number of the modules follows it.
  have hkernel := write_file_returns [] kernel
  rw [List.nil_append] at hkernel
  have himage := hkernel.bind (g := fun fuel target => modules.foldlM
    (fun target file => write_file fuel (write_size target file) (fopen file))
    (target ++ encode 4 modules.length)) (hmodules modules _)
  rw [payload, ← List.append_assoc]
  exact himage

end BasicKernel
