import TP2Kernel.FirstFit

/-!
# The reports of the first-fit memory manager

`first_fit_get_info` and `first_fit_collect_stats`. Both walk over the block list from its
start; what they do with one block is a function of its own.
-/

namespace TP2Kernel
open Function

abbrev mmNameMax : Nat := 16
abbrev mmMaxSimpleBlocks : Nat := 32

/-- `memory_info_t`. -/
structure MemoryInfo where
  totalMemory : Nat
  usedMemory : Nat
  freeMemory : Nat
  allocatedBlocks : Nat
  freeBlocks : Nat
  deriving DecidableEq

/-- `mm_block_info_t`. -/
structure MmBlockInfo where
  addr : Nat
  size : Nat
  deriving DecidableEq

/-- `mm_stats_t`, without the fields of the buddy system. -/
structure MmStats where
  mmName : List Char
  heapTotal : Nat
  usedBytes : Nat
  freeBytes : Nat
  freeBlocks : Nat
  largestFree : Nat
  hasBuddy : Bool
  heapBase : Nat
  heapEnd : Nat
  freelistCount : Nat
  freelistTruncated : Nat
  freelist : Nat → MmBlockInfo

/-- Statistics whose bytes are all zero. -/
def MmStats.zero : MmStats where
  mmName := []
  heapTotal := 0
  usedBytes := 0
  freeBytes := 0
  freeBlocks := 0
  largestFree := 0
  hasBuddy := false
  heapBase := 0
  heapEnd := 0
  freelistCount := 0
  freelistTruncated := 0
  freelist := fun _ => ⟨0, 0⟩

/-- `mm_stats_set_name`. -/
def MmStats.setName (stats : MmStats) (name : String) : MmStats :=
  { stats with mmName := name.toList.take (mmNameMax - 1) }

/-- A loop over the block list that updates `acc` at every block. -/
def blockLoop {β : Type} (mem : Nat → MemoryBlock) (f : β → Nat → β) : Nat → Option Nat → β → β
  | 0, _, acc => acc
  | n + 1, current, acc =>
    match current with
    | none => acc
    | some c => blockLoop mem f n (mem c).next (f acc c)

/-- What `first_fit_get_info` adds for one block. -/
def MemoryInfo.addBlock (mem : Nat → MemoryBlock) (info : MemoryInfo) (c : Nat) : MemoryInfo :=
  let info :=
    if (mem c).isFree then
      { info with
        freeMemory := (info.freeMemory + (mem c).size) % sizeMod
        freeBlocks := (info.freeBlocks + 1) % sizeMod }
    else
      { info with
        usedMemory := (info.usedMemory + (mem c).size) % sizeMod
        allocatedBlocks := (info.allocatedBlocks + 1) % sizeMod }
  { info with usedMemory := (info.usedMemory + headerSize) % sizeMod }

/-- The variables that the loop of `first_fit_collect_stats` updates. -/
structure StatsScan where
  freeBytes : Nat
  freeBlocks : Nat
  captured : Nat
  truncated : Nat
  largestFree : Nat
  freelist : Nat → MmBlockInfo

/-- What the loop of `first_fit_collect_stats` does with a free block. -/
def StatsScan.capture (mem : Nat → MemoryBlock) (s : StatsScan) (c : Nat) : StatsScan :=
  let s := { s with
    freeBytes := (s.freeBytes + (mem c).size) % sizeMod
    freeBlocks := (s.freeBlocks + 1) % sizeMod
    largestFree := if s.largestFree < (mem c).size then (mem c).size else s.largestFree }
  if s.captured < mmMaxSimpleBlocks then
    { s with
      freelist := update s.freelist s.captured ⟨c, (mem c).size⟩
      captured := s.captured + 1 }
  else { s with truncated := (s.truncated + 1) % 2 ^ 32 }

/-- The body of the loop of `first_fit_collect_stats`. -/
def StatsScan.addBlock (mem : Nat → MemoryBlock) (s : StatsScan) (c : Nat) : StatsScan :=
  if (mem c).isFree then s.capture mem c else s

namespace FirstFit

/-- `first_fit_get_info` with a pointer to `info`. -/
def getInfo (h : FirstFit) (info : MemoryInfo) : MemoryInfo :=
  if h.initialized = false then info
  else blockLoop h.mem (MemoryInfo.addBlock h.mem) h.totalHeapSize h.heapStart
    ⟨h.totalHeapSize, 0, 0, 0, 0⟩

/-- The loop of `first_fit_collect_stats`. -/
def statsLoop (h : FirstFit) : StatsScan :=
  blockLoop h.mem (StatsScan.addBlock h.mem) h.totalHeapSize h.heapStart
    ⟨0, 0, 0, 0, MmStats.zero.largestFree, MmStats.zero.freelist⟩

/-- `first_fit_collect_stats`. -/
def collectStats (h : FirstFit) : MmStats :=
  let stats := { MmStats.zero.setName "simple" with hasBuddy := false }
  match h.heapStart with
  | none => { stats with heapTotal := 0 }
  | some heapStart =>
    if h.initialized = false then { stats with heapTotal := 0 }
    else
      let s := h.statsLoop
      let stats := { stats with
        largestFree := s.largestFree
        freelist := s.freelist
        heapTotal := h.totalHeapSize
        freeBytes := s.freeBytes }
      let stats :=
        if stats.freeBytes ≤ stats.heapTotal then
          { stats with usedBytes := stats.heapTotal - stats.freeBytes }
        else { stats with usedBytes := 0, freeBytes := stats.heapTotal }
      let stats := { stats with
        freeBlocks := s.freeBlocks
        freelistCount := s.captured
        freelistTruncated := s.truncated }
      let stats :=
        if stats.freeBytes < stats.largestFree then
          { stats with largestFree := stats.freeBytes }
        else stats
      { stats with heapBase := heapStart, heapEnd := h.heapEnd }

end FirstFit

end TP2Kernel
