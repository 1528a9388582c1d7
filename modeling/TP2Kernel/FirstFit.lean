import TP2Kernel.Lib.Transition

/-!
# The first-fit memory manager

The functions of `first_fit.c`. Memory is a map from addresses to the block header that is
read there; a null pointer is `none`. Loops over the block list carry the number of blocks
they may still visit; a heap has fewer blocks than bytes.
-/

namespace TP2Kernel
open Function

/-- `sizeof(memory_block_t)`. -/
abbrev headerSize : Nat := 32
abbrev minBlockSize : Nat := 16
def blockMagic : Nat := 0xDEADBEEF
def freeMagic : Nat := 0xFEEDFACE
/-- The number of values of a `size_t`. -/
abbrev sizeMod : Nat := 2 ^ 64

/-- `memory_block_t`. -/
structure MemoryBlock where
  size : Nat
  isFree : Bool
  next : Option Nat
  magic : Nat
  deriving DecidableEq

/-- A header whose bytes are all zero. -/
def MemoryBlock.zero : MemoryBlock := ⟨0, false, none, 0⟩

/-- The static variables of `first_fit.c` and the memory they point into. -/
structure FirstFit where
  mem : Nat → MemoryBlock
  heapStart : Option Nat
  heapEnd : Nat
  totalHeapSize : Nat
  initialized : Bool
  totalAllocations : Nat
  totalFrees : Nat
  currentAllocatedBlocks : Nat

/-- `(size + 7) & ~7` on `size_t`. -/
def alignSize (size : Nat) : Nat := (size + 7) % sizeMod / 8 * 8

namespace FirstFit

/-- Write one header. -/
def write (h : FirstFit) (block : Nat) (b : MemoryBlock) : FirstFit :=
  { h with mem := update h.mem block b }

/-- `first_fit_init`. -/
def init (h : FirstFit) (startAddr totalSize : Nat) : FirstFit :=
  if startAddr = 0 ∨ totalSize < headerSize then h
  else
    let alignedStart := alignSize startAddr
    let adjustedSize := totalSize - (alignedStart - startAddr)
    { h with
      heapStart := some alignedStart
      heapEnd := alignedStart + adjustedSize
      totalHeapSize := adjustedSize
      mem := update h.mem alignedStart ⟨adjustedSize - headerSize, true, none, freeMagic⟩
      initialized := true
      totalAllocations := 0
      totalFrees := 0
      currentAllocatedBlocks := 0 }

/-- The loop of `find_free_block`. -/
def findLoop (mem : Nat → MemoryBlock) (size : Nat) : Nat → Option Nat → Option Nat
  | 0, _ => none
  | n + 1, current =>
    match current with
    | none => none
    | some c =>
      if (mem c).isFree ∧ size ≤ (mem c).size then some c
      else findLoop mem size n (mem c).next

/-- `find_free_block`. -/
def findFreeBlock (h : FirstFit) (size : Nat) : Option Nat :=
  findLoop h.mem size h.totalHeapSize h.heapStart

/-- `split_block`. -/
def splitBlock (h : FirstFit) (block size : Nat) : FirstFit :=
  let b := h.mem block
  if b.isFree = false then h
  else
    let remainingSize := b.size - size
    if remainingSize < headerSize + minBlockSize then h
    else
      let newBlock := block + headerSize + size
      let h := h.write newBlock ⟨remainingSize - headerSize, true, b.next, freeMagic⟩
      h.write block { h.mem block with size := size, next := some newBlock }

/-- The loop of `coalesce_blocks`. -/
def coalesceLoop : Nat → Option Nat → (Nat → MemoryBlock) → Nat → MemoryBlock
  | 0, _, mem => mem
  | n + 1, current, mem =>
    match current with
    | none => mem
    | some c =>
      match (mem c).next with
      | none => mem
      | some next =>
        if (mem c).isFree ∧ (mem next).isFree ∧ c + headerSize + (mem c).size = next then
          coalesceLoop n (some c) (update mem c { mem c with
            size := (mem c).size + (headerSize + (mem next).size), next := (mem next).next })
        else coalesceLoop n (some next) mem

/-- `coalesce_blocks`. -/
def coalesceBlocks (h : FirstFit) : FirstFit :=
  { h with mem := coalesceLoop h.totalHeapSize h.heapStart h.mem }

/-- `first_fit_malloc`. -/
def malloc (h : FirstFit) (size : Nat) : FirstFit × Option Nat :=
  if h.initialized = false ∨ size = 0 then (h, none)
  else
    let size := alignSize size
    let size := if size < minBlockSize then minBlockSize else size
    match h.findFreeBlock size with
    | none => (h, none)
    | some block =>
      let h := h.splitBlock block size
      let h := h.write block { h.mem block with isFree := false, magic := blockMagic }
      ({ h with
        totalAllocations := h.totalAllocations + 1
        currentAllocatedBlocks := h.currentAllocatedBlocks + 1 }, some (block + headerSize))

/-- `memset(ptr, 0, size)`: a header that shares a byte with the range is lost. -/
def memsetZero (mem : Nat → MemoryBlock) (ptr size a : Nat) : MemoryBlock :=
  if ptr < a + headerSize ∧ a < ptr + size then .zero else mem a

/-- `first_fit_free`. -/
def free (h : FirstFit) (ptr : Option Nat) : FirstFit :=
  match ptr, h.heapStart with
  | some p, some heapStart =>
    let block := p - headerSize
    let b := h.mem block
    if h.initialized = false ∨ b.magic ≠ blockMagic ∨ b.isFree ∨ block < heapStart ∨
        h.heapEnd ≤ block then h
    else
      let h := h.write block { b with isFree := true, magic := freeMagic }
      let h := { h with
        totalFrees := h.totalFrees + 1
        currentAllocatedBlocks := h.currentAllocatedBlocks - 1 }
      coalesceBlocks { h with mem := memsetZero h.mem p b.size }
  | _, _ => h

/-- The checks that `first_fit_check_integrity` makes on one block. -/
def blockErrors (h : FirstFit) (heapStart c : Nat) : Nat :=
  let expectedMagic := if (h.mem c).isFree then freeMagic else blockMagic
  let nextErrors := match (h.mem c).next with
    | some next => if next < heapStart ∨ h.heapEnd ≤ next then 1 else 0
    | none => 0
  (if (h.mem c).magic ≠ expectedMagic then 1 else 0) + nextErrors

/-- The loop of `first_fit_check_integrity`. -/
def integrityLoop (h : FirstFit) (heapStart : Nat) : Nat → Option Nat → Nat → Nat
  | 0, _, errors => errors
  | n + 1, current, errors =>
    match current with
    | none => errors
    | some c =>
      if c < heapStart ∨ h.heapEnd ≤ c then errors + 1
      else integrityLoop h heapStart n (h.mem c).next (errors + blockErrors h heapStart c)

/-- `first_fit_check_integrity`. -/
def checkIntegrity (h : FirstFit) : Bool :=
  match h.heapStart with
  | some heapStart =>
    h.initialized && decide (integrityLoop h heapStart h.totalHeapSize (some heapStart) 0 = 0)
  | none => false

end FirstFit

/-- The allocator and the pointers that it has returned and that were not freed. -/
structure FirstFitSystem where
  h : FirstFit
  live : List Nat

/-- A call of the allocator. -/
inductive FirstFitEvent
  | malloc (n : Nat)
  | free (p : Option Nat)

/-- One call. Only null and live pointers are freed. -/
def FirstFitSystem.step (σ : FirstFitSystem) : FirstFitEvent → Option FirstFitSystem
  | .malloc n =>
    let (h, p) := σ.h.malloc n
    some ⟨h, σ.live ++ p.toList⟩
  | .free none => some ⟨σ.h.free none, σ.live⟩
  | .free (some p) => if p ∈ σ.live then some ⟨σ.h.free (some p), σ.live.erase p⟩ else none

/-- The allocator behind a `first_fit_init` on a heap that does not wrap the address space and
has room for a header after its alignment. -/
def FirstFitSystem.Start (σ : FirstFitSystem) : Prop :=
  ∃ h startAddr totalSize, startAddr ≠ 0 ∧ startAddr + totalSize < sizeMod ∧
    headerSize ≤ totalSize - (alignSize startAddr - startAddr) ∧
    σ = ⟨FirstFit.init h startAddr totalSize, []⟩

end TP2Kernel
