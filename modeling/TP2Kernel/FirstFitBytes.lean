import TP2Kernel.FirstFit
import TP2Kernel.Lib.ByteMemory

/-!
# The first-fit memory manager over bytes

The functions of `first_fit.c` on a memory of bytes. A header is read and written field by
field at its offsets in `memory_block_t`; a null pointer is stored as zero. Clients write into
the payloads that they were given.
-/

namespace TP2Kernel
open Function ByteMemory

/-- The header at `block`. -/
def header (mem : Nat → UInt8) (block : Nat) : MemoryBlock where
  size := readWord mem 8 block
  isFree := decide (readWord mem 4 (block + 8) ≠ 0)
  next := if readWord mem 8 (block + 16) = 0 then none else some (readWord mem 8 (block + 16))
  magic := readWord mem 4 (block + 24)

def setSize (mem : Nat → UInt8) (block size : Nat) : Nat → UInt8 := writeWord mem 8 block size

def setIsFree (mem : Nat → UInt8) (block : Nat) (isFree : Bool) : Nat → UInt8 :=
  writeWord mem 4 (block + 8) isFree.toNat

def setNext (mem : Nat → UInt8) (block : Nat) (next : Option Nat) : Nat → UInt8 :=
  writeWord mem 8 (block + 16) (next.getD 0)

def setMagic (mem : Nat → UInt8) (block magic : Nat) : Nat → UInt8 :=
  writeWord mem 4 (block + 24) magic

/-- The static variables of `first_fit.c` and the memory they point into. -/
structure FirstFitBytes where
  mem : Nat → UInt8
  heapStart : Option Nat
  heapEnd : Nat
  totalHeapSize : Nat
  initialized : Bool
  totalAllocations : Nat
  totalFrees : Nat
  currentAllocatedBlocks : Nat

namespace FirstFitBytes

/-- `first_fit_init`. -/
def init (h : FirstFitBytes) (startAddr totalSize : Nat) : FirstFitBytes :=
  if startAddr = 0 ∨ totalSize < headerSize then h
  else
    let alignedStart := alignSize startAddr
    let adjustedSize := totalSize - (alignedStart - startAddr)
    let mem := setSize h.mem alignedStart (adjustedSize - headerSize)
    let mem := setIsFree mem alignedStart true
    let mem := setNext mem alignedStart none
    { mem := setMagic mem alignedStart freeMagic
      heapStart := some alignedStart
      heapEnd := alignedStart + adjustedSize
      totalHeapSize := adjustedSize
      initialized := true
      totalAllocations := 0
      totalFrees := 0
      currentAllocatedBlocks := 0 }

/-- `find_free_block`. -/
def findFreeBlock (h : FirstFitBytes) (size : Nat) : Option Nat :=
  FirstFit.findLoop (header h.mem) size h.totalHeapSize h.heapStart

/-- `split_block`. -/
def splitBlock (mem : Nat → UInt8) (block size : Nat) : Nat → UInt8 :=
  if (header mem block).isFree = false then mem
  else
    let remainingSize := (header mem block).size - size
    if remainingSize < headerSize + minBlockSize then mem
    else
      let newBlock := block + headerSize + size
      let mem := setSize mem newBlock (remainingSize - headerSize)
      let mem := setIsFree mem newBlock true
      let mem := setNext mem newBlock (header mem block).next
      let mem := setMagic mem newBlock freeMagic
      let mem := setSize mem block size
      setNext mem block (some newBlock)

/-- The loop of `coalesce_blocks`. -/
def coalesceLoop : Nat → Option Nat → (Nat → UInt8) → Nat → UInt8
  | 0, _, mem => mem
  | n + 1, current, mem =>
    match current with
    | none => mem
    | some c =>
      match (header mem c).next with
      | none => mem
      | some next =>
        if (header mem c).isFree ∧ (header mem next).isFree ∧
            c + headerSize + (header mem c).size = next then
          let mem := setSize mem c ((header mem c).size + (headerSize + (header mem next).size))
          coalesceLoop n (some c) (setNext mem c (header mem next).next)
        else coalesceLoop n (some next) mem

/-- `first_fit_malloc`. -/
def malloc (h : FirstFitBytes) (size : Nat) : FirstFitBytes × Option Nat :=
  if h.initialized = false ∨ size = 0 then (h, none)
  else
    let size := alignSize size
    let size := if size < minBlockSize then minBlockSize else size
    match h.findFreeBlock size with
    | none => (h, none)
    | some block =>
      let mem := splitBlock h.mem block size
      let mem := setIsFree mem block false
      ({ h with
        mem := setMagic mem block blockMagic
        totalAllocations := h.totalAllocations + 1
        currentAllocatedBlocks := h.currentAllocatedBlocks + 1 }, some (block + headerSize))

/-- `first_fit_free`. -/
def free (h : FirstFitBytes) (ptr : Option Nat) : FirstFitBytes :=
  match ptr, h.heapStart with
  | some p, some heapStart =>
    let block := p - headerSize
    if h.initialized = false ∨ (header h.mem block).magic ≠ blockMagic ∨
        (header h.mem block).isFree ∨ block < heapStart ∨ h.heapEnd ≤ block then h
    else
      let mem := setIsFree h.mem block true
      let mem := setMagic mem block freeMagic
      let mem := fill mem p 0 (header mem block).size
      { h with
        mem := coalesceLoop h.totalHeapSize (some heapStart) mem
        totalFrees := h.totalFrees + 1
        currentAllocatedBlocks := h.currentAllocatedBlocks - 1 }
  | _, _ => h

end FirstFitBytes

/-- A pointer that `first_fit_malloc` returned, the size that was asked for, and what its
owner has stored there: at first what the memory held. -/
structure Allocation where
  ptr : Nat
  size : Nat
  content : Nat → UInt8

/-- The address of byte `i` of the memory at `p`, in the arithmetic of pointers. -/
def byteAddr (p i : Nat) : Nat := (p + i) % sizeMod

/-- The allocator, the allocations that were not freed, and every pointer that was returned. -/
structure FirstFitClients where
  h : FirstFitBytes
  live : List Allocation
  returned : List Nat

/-- A call of the allocator, or a write of `v` to byte `i` of an allocation. -/
inductive FirstFitClientEvent
  | malloc (n : Nat)
  | free (p : Option Nat)
  | write (p i : Nat) (v : UInt8)

namespace FirstFitClients

def IsLive (σ : FirstFitClients) (p : Nat) : Prop := ∃ l ∈ σ.live, l.ptr = p

/-- One event. A pointer that is freed was returned by some earlier call; writes go to the
bytes of live allocations. -/
def step (σ : FirstFitClients) : FirstFitClientEvent → Option FirstFitClients
  | .malloc n =>
    match σ.h.malloc n with
    | (h, none) => some { σ with h := h }
    | (h, some p) =>
      some ⟨h, ⟨p, n, fun i => h.mem (byteAddr p i)⟩ :: σ.live, p :: σ.returned⟩
  | .free none => some { σ with h := σ.h.free none }
  | .free (some p) =>
    if p ∈ σ.returned then
      some { σ with h := σ.h.free (some p), live := σ.live.filter fun l => decide (l.ptr ≠ p) }
    else none
  | .write p i v =>
    if σ.live.any fun l => decide (l.ptr = p ∧ i < l.size) then
      some { σ with
        h := { σ.h with mem := update σ.h.mem (byteAddr p i) v }
        live := σ.live.map fun l =>
          if l.ptr = p then { l with content := update l.content i v } else l }
    else none

/-- The allocator behind a `first_fit_init` on a heap that does not wrap the address space and
has room for a header after its alignment. -/
def Start (σ : FirstFitClients) : Prop :=
  ∃ h startAddr totalSize, startAddr ≠ 0 ∧ startAddr + totalSize < sizeMod ∧
    headerSize ≤ totalSize - (alignSize startAddr - startAddr) ∧
    σ = ⟨FirstFitBytes.init h startAddr totalSize, [], []⟩

end FirstFitClients

end TP2Kernel
