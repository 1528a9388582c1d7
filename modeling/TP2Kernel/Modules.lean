import TP2Kernel.Lib.ByteBlocks
import TP2Kernel.Lib.WhileLoop

/-!
# The image of kernel and modules

`ModulePacker`, which appends the binaries to the kernel, and their way into memory:
the move of Pure64, `moduleLoader.c` with `memset` and `memcpy` of `lib.c`, and
`initializeKernelBinary` of `kernel.c`.
-/

namespace TP2Kernel
open ByteMemory

/-- The readable files by name; the file that is written is none of them. -/
abbrev FileSystem := String → Option (List UInt8)

/-- An open file: what is not read yet, and whether a read has met the end. -/
structure Source where
  rest : List UInt8
  eof : Bool

/-- `fread(buffer, 1, n, source)`: the end is met by the read that gets less than it asks for. -/
def fread (n : Nat) (f : Source) : List UInt8 × Source :=
  (f.rest.take n, ⟨f.rest.drop n, f.eof || decide (f.rest.length < n)⟩)

namespace Packer

def bufferSize : Nat := 128

def maxFiles : Nat := 128

/-- `struct arguments`, with the names that `args` holds so far. -/
structure Arguments where
  args : List String
  count : Nat

/-- `parse_opt` for `ARGP_KEY_ARG`: `args[state->arg_num] = arg`, where that lies in the array.
Behind it are the other fields of the structure. -/
def parseArg (arguments : Arguments) (arg : String) : Option Arguments :=
  if arguments.args.length < maxFiles then
    some { arguments with args := arguments.args ++ [arg] }
  else none

/-- `parse_opt` for `ARGP_KEY_END`; `argp_usage` does not return. -/
def parseEnd (arguments : Arguments) : Option Arguments :=
  if arguments.args.length < 1 then none
  else some { arguments with count := arguments.args.length }

/-- `argp_parse` on the names of a command line, none of which starts with a dash. -/
def argpParse (argv : List String) : Option Arguments := do
  let arguments ← argv.foldlM parseArg ⟨[], 0⟩
  parseEnd arguments

/-- `access(fileArray.array[i], R_OK)` for every file. -/
def checkFiles (fs : FileSystem) (files : List String) : Bool :=
  files.all fun name => (fs name).isSome

/-- The body of the loop of `write_file`, on the target and the source. -/
def copyBuffer (w : List UInt8 × Source) : List UInt8 × Source :=
  let (buffer, source) := fread bufferSize w.2
  (w.1 ++ buffer, source)

/-- `while (!feof(source))`. -/
def writeFile (target : List UInt8) (source : Source) : List UInt8 :=
  (WhileLoop.run (fun w => w.2.eof = false) copyBuffer (source.rest.length + 1)
    (target, source)).1

/-- `uint32_t size = st.st_size`, four bytes of it. -/
def writeSize (target : List UInt8) (stSize : Nat) : List UInt8 := target ++ wordBytes 4 stSize

/-- The binaries behind the kernel, each behind its size. -/
def writeBinaries (fs : FileSystem) (target : List UInt8) : List String → Option (List UInt8)
  | [] => some target
  | name :: names => do
    let bytes ← fs name
    let target := writeSize target bytes.length
    writeBinaries fs (writeFile target ⟨bytes, false⟩) names

/-- `buildImage`; a file that cannot be opened would be read through `NULL`. -/
def buildImage (fs : FileSystem) : List String → Option (List UInt8)
  | [] => none
  | kernel :: names => do
    let bytes ← fs kernel
    let target := writeFile [] ⟨bytes, false⟩
    -- `int extraBinaries = fileArray.length - 1`
    writeBinaries fs (target ++ wordBytes 4 names.length) names

/-- `main`: the file it leaves, if it gets so far. -/
def main (fs : FileSystem) (argv : List String) : Option (List UInt8) := do
  let arguments ← argpParse argv
  let fileArray := arguments.args.take arguments.count
  if checkFiles fs fileArray then buildImage fs fileArray else none

end Packer

namespace ModuleImage

/-- The modules of an image, each behind its size. -/
def entries (modules : List (List UInt8)) : List UInt8 :=
  (modules.map fun bytes => wordBytes 4 bytes.length ++ bytes).flatten

/-- The kernel, the number of modules and the modules. -/
def image (kernel : List UInt8) (modules : List (List UInt8)) : List UInt8 :=
  kernel ++ wordBytes 4 modules.length ++ entries modules

/-- No target reaches into what is to be read at or behind its module, where the entries stand
from `a` on and end at `e`. -/
def Clear (e : Nat) : Nat → List Nat → List (List UInt8) → Prop
  | a, t :: ts, m :: ms => (t ≤ a + 4 ∨ e ≤ t) ∧ Clear e (a + 4 + m.length) ts ms
  | _, _, _ => True

/-- No two targets overlap. -/
def TargetsApart (places : List (Nat × List UInt8)) : Prop :=
  places.Pairwise fun p q => p.1 + p.2.length ≤ q.1 ∨ q.1 + q.2.length ≤ p.1

end ModuleImage

/-- `memset`, from the last byte down. -/
def memset (mem : Nat → UInt8) (destination : Nat) (c : Int32) (length : Nat) : Nat → UInt8 :=
  fill mem destination c.toUInt32.toUInt8 length

/-- `memcpy`, in words of four bytes where addresses and length allow it. -/
def memcpy (mem : Nat → UInt8) (destination source length : Nat) : Nat → UInt8 :=
  if destination % 4 = 0 ∧ source % 4 = 0 ∧ length % 4 = 0 then
    copyCells 4 destination source (length / 4) mem
  else copyCells 1 destination source length mem

/-- The value at the address, and the address behind it. -/
def readUint32 (mem : Nat → UInt8) (address : Nat) : Nat × Nat :=
  (readWord mem 4 address, address + 4)

/-- The memory with the module at its target, and the address of the next one. -/
def loadModule (mem : Nat → UInt8) (module targetModuleAddress : Nat) :
    (Nat → UInt8) × Nat :=
  let (moduleSize, module) := readUint32 mem module
  (memcpy mem targetModuleAddress module moduleSize, module + moduleSize)

/-- The `n` turns of the loop of `loadModules` from `i` on. -/
def loadLoop (targets : List Nat) : Nat → Nat → Nat → (Nat → UInt8) → Option (Nat → UInt8)
  | 0, _, _, mem => some mem
  | n + 1, i, currentModule, mem => do
    let target ← targets[i]?
    let (mem, currentModule) := loadModule mem currentModule target
    loadLoop targets n (i + 1) currentModule mem

/-- `loadModules`; with more modules than targets it reads behind the array. -/
def loadModules (mem : Nat → UInt8) (payloadStart : Nat) (targets : List Nat) :
    Option (Nat → UInt8) :=
  let (moduleCount, currentModule) := readUint32 mem payloadStart
  loadLoop targets moduleCount 0 currentModule mem

/-- `. = ALIGN(0x1000)`. -/
def alignPage (a : Nat) : Nat := (a + 0xFFF) / 0x1000 * 0x1000

/-- The start of the kernel. -/
def kernelAddress : Nat := 0x100000

/-- The symbols of `kernel.ld`, from the size of `kernel.bin` and of what it does not hold. -/
structure KernelLayout where
  binarySize : Nat
  bssSize : Nat

namespace KernelLayout

def endOfKernelBinary (l : KernelLayout) : Nat := kernelAddress + l.binarySize

def bss (l : KernelLayout) : Nat := alignPage l.endOfKernelBinary

def endOfKernel (l : KernelLayout) : Nat := alignPage (l.bss + l.bssSize)

end KernelLayout

def sampleCodeModuleAddress : Nat := 0x400000

def sampleDataModuleAddress : Nat := 0x500000

/-- `getStackBase`: eight pages of stack behind the kernel. -/
def getStackBase (l : KernelLayout) : Nat := l.endOfKernel + 0x1000 * 8 - 8

/-- `initializeKernelBinary`: the memory it leaves and the base of the stack. -/
def initializeKernelBinary (l : KernelLayout) (mem : Nat → UInt8) :
    Option ((Nat → UInt8) × Nat) := do
  let mem ← loadModules mem l.endOfKernelBinary
    [sampleCodeModuleAddress, sampleDataModuleAddress]
  return (memset mem l.bss 0 (l.endOfKernel - l.bss), getStackBase l)

/-- Where Pure64 finds what was packed behind it. -/
def trailingBinary : Nat := 0x60000 + 6144

/-- The bytes that its `rep movsq` moves. -/
def trailingSize : Nat := 8 * 0x8000

/-- `rep movsq`, with the kernel as destination. -/
def moveTrailingBinary (mem : Nat → UInt8) : Nat → UInt8 :=
  copyCells 8 kernelAddress trailingBinary 0x8000 mem

end TP2Kernel
